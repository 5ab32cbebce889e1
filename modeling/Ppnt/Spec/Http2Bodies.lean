import Ppnt.Spec.Http2Invariant

/-!
# Bodies of HTTP/2 responses

A body is complete when its stream has been closed with error code 0.  `body_full` does not look at
the error code, hands out what has arrived when the driver's tear-down wakes it, does not find a
stream that the tear-down has cleared, and keeps one waker for all calls on a response.  This file
says which steps avoid that (`Orderly`) and proves that then bodies are whole or an error.
-/

namespace Ppnt.Spec

open Ppnt.Native

/-- The steps that leave every body whole.  A registered stream is only read when it has not been
    reset and no other call on it is under way; no stream is reset while a call waits for it; and
    when the driver exits no call is waiting and no complete body is unread. -/
def Orderly (h : List H2Label) (σ : Http2Session) : H2Label → Prop
  | .bodyFull _ s => σ.streams s = true →
      (∀ errorCode, (received s h).closed = some errorCode → errorCode = 0) ∧
        ∀ c phase, σ.bodies c = some (s, phase) → ∃ result, phase = .returned result
  | .onStreamClose s errorCode => errorCode = 0 ∨ ∀ c, σ.bodies c ≠ some (s, .suspended)
  | .driverExit => ∀ s, σ.streams s = true →
      (∀ c, σ.bodies c ≠ some (s, .suspended)) ∧
        ((received s h).closed = some 0 → firstCall s h ≠ none)
  | _ => True

/-- What a call has returned, or will return when its continuation runs. -/
def bodyOutcome (σ : Http2Session) (c : CallId) : Option (Except Error (List UInt8)) :=
  match σ.bodies c with
  | some (_, .resumed data) => some (.ok data)
  | some (_, .returned result) => some result
  | _ => none

/-! ## The invariant -/

/-- What holds of the calls on a stream, where `first` is the first one. -/
structure CallsInv (σ : Http2Session) (r : Received) (first : Option CallId) (s : StreamId) :
    Prop where
  /-- `stream_closed` says what it should as long as the stream is registered. -/
  streamClosed : σ.streams s = true → (σ.contexts s).streamClosed = r.closed.isSome
  /-- The buffer holds all data until a call takes it. -/
  bodyBuffer : σ.streams s = true → (∀ c data, σ.bodies c ≠ some (s, .resumed data)) →
    (σ.contexts s).bodyBuffer = r.data
  suspended : ∀ c, σ.bodies c = some (s, .suspended) →
    (σ.contexts s).bodyWaker = some c ∧ σ.streams s = true ∧ r.closed = none ∧
      σ.driverExited = false
  resumed : ∀ c data, σ.bodies c = some (s, .resumed data) → r.closed = some 0 ∧ data = r.data
  returned : ∀ c data, σ.bodies c = some (s, .returned (.ok data)) →
    r.closed = some 0 ∧ data = r.data
  called : ∀ c phase, σ.bodies c = some (s, phase) → first ≠ none
  /-- A stream that is registered behind the exit of the driver gets no response. -/
  late : σ.driverExited = true → σ.streams s = true →
    σ.requests s ≠ some (.resumed true) ∧ ∀ response, σ.requests s ≠ some (.returned (.ok response))
  /-- A stream that may still get a whole body, or has one, stays registered until it is read. -/
  uncalled : first = none → r.closed = some 0 ∨ (σ.driverExited = false ∧ σ.requests s ≠ none) →
    σ.streams s = true ∨ ∃ e, σ.requests s = some (.returned (.error e))
  first_call : ∀ c, first = some c → ∃ phase, σ.bodies c = some (s, phase) ∧
    ∀ e, phase = .returned (.error e) → r.closed ≠ some 0 ∧ σ.driverExited = true

/-- The invariant of orderly runs. -/
structure BodyInv (h : List H2Label) (σ : Http2Session) : Prop where
  session : SessionInv h σ
  calls : ∀ s, CallsInv σ (received s h) (firstCall s h) s

variable {σ σ' : Http2Session} {r : Received} {first : Option CallId} {s : StreamId} {c : CallId}

/-- A step about another stream. -/
theorem CallsInv.congr (h : CallsInv σ r first s) (hsame : SameAt s σ σ') :
    CallsInv σ' r first s where
  streamClosed := hsame.streams ▸ hsame.contexts ▸ h.streamClosed
  bodyBuffer hs hc := by
    rw [hsame.contexts]
    exact h.bodyBuffer (hsame.streams ▸ hs) fun c data hd => hc c data ((hsame.bodies c _).mpr hd)
  suspended c hc := by
    rw [hsame.contexts, hsame.streams, hsame.driverExited]
    exact h.suspended c ((hsame.bodies c _).mp hc)
  resumed c data hc := h.resumed c data ((hsame.bodies c _).mp hc)
  returned c data hc := h.returned c data ((hsame.bodies c _).mp hc)
  called c phase hc := h.called c phase ((hsame.bodies c _).mp hc)
  late := hsame.driverExited ▸ hsame.streams ▸ hsame.requests ▸ h.late
  uncalled hf := by
    rw [hsame.streams, hsame.requests, hsame.driverExited]
    exact h.uncalled hf
  first_call c hf := by
    obtain ⟨phase, hc, herr⟩ := h.first_call c hf
    rw [hsame.driverExited]
    exact ⟨phase, (hsame.bodies c _).mpr hc, herr⟩

/-! ## Steps that are not about bodies -/

/-- A step that does not touch the calls of a stream, nor what they read. -/
private theorem CallsInv.quiet {r' : Received} (h : CallsInv σ r first s)
    (hbodies : σ'.bodies = σ.bodies)
    (hctx : (σ'.contexts s).streamClosed = (σ.contexts s).streamClosed ∧
      (σ'.contexts s).bodyBuffer = (σ.contexts s).bodyBuffer ∧
      (σ'.contexts s).bodyWaker = (σ.contexts s).bodyWaker)
    (hexit : σ'.driverExited = σ.driverExited) (hr : r'.closed = r.closed ∧ r'.data = r.data)
    (hstreams : σ'.streams s = σ.streams s) (hrequest : σ.requests s ≠ none)
    (herror : ∀ e, σ.requests s = some (.returned (.error e)) →
      σ'.requests s = some (.returned (.error e)))
    (hlate : σ.driverExited = true → σ.streams s = true →
      σ.requests s ≠ some (.resumed true) ∧ (∀ response, σ.requests s ≠ some (.returned (.ok
      response))) → σ'.requests s ≠ some (.resumed true) ∧
      ∀ response, σ'.requests s ≠ some (.returned (.ok response))) :
    CallsInv σ' r' first s := by
  obtain ⟨hclosed, hbuffer, hwaker⟩ := hctx
  constructor
  case late =>
    rw [hexit, hstreams]
    exact fun hex hstr => hlate hex hstr (h.late hex hstr)
  case uncalled =>
    intro hf hor
    rw [hr.1, hexit] at hor
    rw [hstreams]
    rcases h.uncalled hf (hor.imp_right fun hrun => ⟨hrun.1, hrequest⟩) with hstr | ⟨e, he⟩
    · exact .inl hstr
    · exact .inr ⟨e, herror e he⟩
  all_goals simp only [hbodies, hclosed, hbuffer, hwaker, hexit, hr.1, hr.2, hstreams]
  · exact h.streamClosed
  · exact h.bodyBuffer
  · exact h.suspended
  · exact h.resumed
  · exact h.returned
  · exact h.called
  · exact h.first_call

/-- A request that has not returned a response has no calls. -/
private theorem CallsInv.first_eq_none (h : CallsInv σ r first s) (hstate : StreamState σ r s)
    (hphase : ∀ response, σ.requests s ≠ some (.returned (.ok response))) :
    first = none ∧ ∀ c phase, σ.bodies c ≠ some (s, phase) := by
  have hcalls : ∀ c phase, σ.bodies c ≠ some (s, phase) := by
    intro c phase hc
    obtain ⟨response, hr⟩ := hstate.call c phase hc
    exact hphase response hr
  refine ⟨?_, hcalls⟩
  cases first with
  | none => rfl
  | some c =>
    obtain ⟨phase, hc, -⟩ := h.first_call c rfl
    exact absurd hc (hcalls c phase)

/-- A stream without calls. -/
private theorem callsInv_of_uncalled (hcalls : ∀ c phase, σ.bodies c ≠ some (s, phase))
    (hctx : σ.streams s = true → (σ.contexts s).streamClosed = r.closed.isSome ∧
      (σ.contexts s).bodyBuffer = r.data)
    (hlate : σ.driverExited = true → σ.streams s = true → σ.requests s ≠ some (.resumed true))
    (hphase : ∀ response, σ.requests s ≠ some (.returned (.ok response)))
    (hreg : σ.streams s = true ∨ ∃ e, σ.requests s = some (.returned (.error e))) :
    CallsInv σ r none s where
  streamClosed hs := (hctx hs).1
  bodyBuffer hs _ := (hctx hs).2
  suspended c hc := absurd hc (hcalls c _)
  resumed c data hc := absurd hc (hcalls c _)
  returned c data hc := absurd hc (hcalls c _)
  called c phase hc := absurd hc (hcalls c phase)
  late hex hs := ⟨hlate hex hs, hphase⟩
  uncalled _ _ := hreg
  first_call c hf := by simp at hf

private theorem callsInv_submit (hstate : StreamState σ r s) (h : CallsInv σ r first s)
    (hstep : σ.step (.submit s) = some σ') : CallsInv σ' r first s := by
  obtain ⟨⟨hnone, -⟩, ⟨⟩⟩ := Option.ite_none_right_eq_some.mp hstep
  obtain ⟨-, rfl⟩ := hstate.fresh hnone
  obtain ⟨rfl, hcalls⟩ := h.first_eq_none hstate (by simp [hnone])
  exact callsInv_of_uncalled hcalls (by simp) (by simp) (by simp) (by simp)

private theorem callsInv_flushed (h : CallsInv σ r first s)
      (hstep : σ.step (.flushed s) = some σ') :
    CallsInv σ' r first s := by
  obtain ⟨hphase, ⟨⟩⟩ := Option.ite_none_right_eq_some.mp hstep
  exact h.quiet rfl (by simp) rfl ⟨rfl, rfl⟩ rfl (by simp [hphase]) (by simp [hphase]) (by simp)

private theorem callsInv_flushFailed (hstate : StreamState σ r s) (h : CallsInv σ r first s)
    (hstep : σ.step (.flushFailed s) = some σ') : CallsInv σ' r first s := by
  obtain ⟨hphase, ⟨⟩⟩ := Option.ite_none_right_eq_some.mp hstep
  obtain ⟨rfl, hcalls⟩ := h.first_eq_none hstate (by simp [hphase])
  exact callsInv_of_uncalled hcalls (by simp) (by simp) (by simp [makeErrResult])
    (by simp [makeErrResult])

private theorem callsInv_resume (hstate : StreamState σ r s) (h : CallsInv σ r first s)
    (hstep : σ.step (.resume s) = some σ') : CallsInv σ' r first s := by
  obtain ⟨success, hphase, ⟨e, -, rfl⟩ | ⟨response, hok, rfl⟩⟩ := step_resume hstep
  · obtain ⟨rfl, hcalls⟩ := h.first_eq_none hstate (by simp [hphase])
    exact callsInv_of_uncalled hcalls (by simp) (by simp) (by simp) (by simp)
  · -- only a request that is woken with success returns a response
    obtain rfl : success = true := by
      cases success with
      | false => simp [Http2StreamContext.finish, makeErrResult] at hok
      | true => rfl
    refine h.quiet rfl (by simp) rfl ⟨rfl, rfl⟩ rfl (by simp [hphase]) (by simp [hphase]) ?_
    intro _ _ hlate
    exact absurd hphase hlate.1

/-! ## Callbacks -/

private theorem callsInv_onHeader {name value : List UInt8} (hstate : StreamState σ r s)
    (h : CallsInv σ r first s) (hstep : σ.step (.onHeader s name value) = some σ') :
    CallsInv σ' (r.next s (.onHeader s name value)) first s := by
  obtain ⟨⟨-, hng⟩, ⟨⟩⟩ := Option.ite_none_right_eq_some.mp hstep
  have hrequest : σ.requests s ≠ none := fun hnone => by simp [(hstate.fresh hnone).1] at hng
  split <;> exact h.quiet rfl (by simp) rfl (by simp [Received.next]) rfl hrequest (fun _ he => he)
    fun _ _ hlate => hlate

private theorem callsInv_onFrameRecv {cat : HeadersCategory} (hstate : StreamState σ r s)
    (h : CallsInv σ r first s) (hstep : σ.step (.onFrameRecv s cat) = some σ') :
    CallsInv σ' (r.next s (.onFrameRecv s cat)) first s := by
  obtain ⟨⟨hrun, hng⟩, ⟨⟩⟩ := Option.ite_none_right_eq_some.mp hstep
  have hrequest : σ.requests s ≠ none := fun hnone => by
    rw [(hstate.fresh hnone).1] at hng
    split at hng <;> simp at hng
  have hrun : σ.driverExited = false := by simpa using hrun
  unfold Http2Session.onFrameRecv
  split
  · refine h.quiet (by simp) (by simp) (by simp) (by simp [Received.next]) (by simp) hrequest ?_
      (by simp [hrun])
    -- a request that has returned is not woken
    intro e he
    have hw : (σ.contexts s).headerWaker = false := by
      by_contra hw
      simp [hstate.headerWaker (by simpa using hw)] at he
    simp [hw, he]
  · exact h.quiet rfl (by simp) rfl (by simp [Received.next]) rfl hrequest (fun _ he => he)
      fun _ _ hlate => hlate

/-- On a stream that is still open no body has been handed out. -/
private theorem StreamState.closed_eq_none (hstate : StreamState σ r s)
    (hng : σ.nghttp2 s = .opening ∨ σ.nghttp2 s = .opened) :
    r.closed = none := by
  cases hclosed : r.closed with
  | none => rfl
  | some errorCode =>
    have := hstate.closed.mp (by simp [hclosed])
    simp [this] at hng

private theorem CallsInv.not_handed_out (h : CallsInv σ r first s) (hopen : r.closed = none)
    (c : CallId) (data : List UInt8) :
    σ.bodies c ≠ some (s, .resumed data) ∧ σ.bodies c ≠ some (s, .returned (.ok data)) := by
  constructor
  · intro hc
    simpa [hopen] using (h.resumed c data hc).1
  · intro hc
    simpa [hopen] using (h.returned c data hc).1

private theorem callsInv_onDataChunkRecv {data : List UInt8} (hstate : StreamState σ r s)
    (h : CallsInv σ r first s) (hstep : σ.step (.onDataChunkRecv s data) = some σ') :
    CallsInv σ' (r.next s (.onDataChunkRecv s data)) first s := by
  obtain ⟨⟨hrun, hng⟩, ⟨⟩⟩ := Option.ite_none_right_eq_some.mp hstep
  -- the stream is not closed, so no call has been handed its body
  have hdata := h.not_handed_out (hstate.closed_eq_none (.inr hng))
  simp only [Received.next, if_true]
  split
  case isTrue hstr =>
    exact
      { streamClosed := by simpa using h.streamClosed
        bodyBuffer := fun _ hc => by simp [h.bodyBuffer hstr hc]
        suspended := by simpa using h.suspended
        resumed := fun c d hc => absurd hc (hdata c d).1
        returned := fun c d hc => absurd hc (hdata c d).2
        called := h.called
        late := h.late
        uncalled := h.uncalled
        first_call := h.first_call }
  case isFalse hstr =>
    exact
      { streamClosed := fun hs => absurd hs hstr
        bodyBuffer := fun hs => absurd hs hstr
        suspended := h.suspended
        resumed := fun c d hc => absurd hc (hdata c d).1
        returned := fun c d hc => absurd hc (hdata c d).2
        called := h.called
        late := h.late
        uncalled := h.uncalled
        first_call := h.first_call }

/-- `on_stream_close_callback` on a registered stream: the waiting call gets the buffer. -/
private theorem callsInv_closed {errorCode : Nat} (hstate : StreamState σ r s)
    (h : CallsInv σ r first s) (hstr : σ.streams s = true) (hopen : r.closed = none)
    (hexit : σ.driverExited = true → errorCode ≠ 0)
    (hcond : errorCode = 0 ∨ ∀ c, σ.bodies c ≠ some (s, .suspended)) :
    CallsInv ((σ.onStreamClose s).setNghttp2 s .closed) { r with closed := some errorCode }
      first s := by
  have hdata := h.not_handed_out hopen
  have hbuffer : (σ.contexts s).bodyBuffer = r.data :=
    h.bodyBuffer hstr fun c d => (hdata c d).1
  simp only [Http2Session.onStreamClose, hstr, if_true]
  constructor
  case streamClosed => simp
  case bodyBuffer =>
    intro _ hc
    -- if no call has been woken, the buffer is still there
    have hwaker : (σ.contexts s).bodyWaker = none := by
      rw [Option.eq_none_iff_forall_ne_some]
      intro c hw
      exact hc c (σ.contexts s).bodyBuffer (by simp [hw])
    simp [hwaker, hbuffer]
  case suspended =>
    intro c hc
    by_cases hw : (σ.contexts s).bodyWaker = some c
    · simp [hw] at hc
    · exact absurd (h.suspended c (by simpa [hw] using hc)).1 hw
  case resumed =>
    intro c d hc
    by_cases hw : (σ.contexts s).bodyWaker = some c
    · obtain rfl : (σ.contexts s).bodyBuffer = d := by simpa [hw] using hc
      have hzero : errorCode = 0 := hcond.resolve_right fun hno => hno c (hstate.bodyWaker c hw)
      exact ⟨by rw [hzero], hbuffer⟩
    · exact absurd (by simpa [hw] using hc) (hdata c d).1
  case returned =>
    intro c d hc
    by_cases hw : (σ.contexts s).bodyWaker = some c
    · simp [hw] at hc
    · exact absurd (by simpa [hw] using hc) (hdata c d).2
  case called =>
    intro c phase hc
    by_cases hw : (σ.contexts s).bodyWaker = some c
    · exact h.called c _ (hstate.bodyWaker c hw)
    · exact h.called c phase (by simpa [hw] using hc)
  case late =>
    intro hex hs
    have hlate := h.late (by simpa using hex) (by simpa using hs)
    by_cases hw : (σ.contexts s).headerWaker = true <;> simp [hw, hlate]
  case uncalled => simp [hstr]
  case first_call =>
    intro c hf
    obtain ⟨phase, hc, herr⟩ := h.first_call c hf
    by_cases hw : (σ.contexts s).bodyWaker = some c
    · exact ⟨.resumed (σ.contexts s).bodyBuffer, by simp [hw], by simp⟩
    · refine ⟨phase, by simpa [hw] using hc, fun e he => ?_⟩
      have hex := (herr e he).2
      simpa [hex] using hexit hex

/-- The stream is closed, without an error if a call waits. -/
private theorem callsInv_onStreamClose {errorCode : Nat} (hstate : StreamState σ r s)
    (h : CallsInv σ r first s) (hcond : errorCode = 0 ∨ ∀ c, σ.bodies c ≠ some (s, .suspended))
    (hstep : σ.step (.onStreamClose s errorCode) = some σ') :
    CallsInv σ' (r.next s (.onStreamClose s errorCode)) first s := by
  obtain ⟨⟨hrun, hng⟩, ⟨⟩⟩ := Option.ite_none_right_eq_some.mp hstep
  have hopen := hstate.closed_eq_none hng
  have hexit : σ.driverExited = true → errorCode ≠ 0 := fun hex => by simpa [hex] using hrun
  simp only [Received.next, if_true]
  by_cases hstr : σ.streams s = true
  · exact callsInv_closed hstate h hstr hopen hexit hcond
  · -- the stream is gone from the map: no call has been given anything yet
    have hdata := h.not_handed_out hopen
    have hrequest : σ.requests s ≠ none := fun hnone => by simp [(hstate.fresh hnone).1] at hng
    simp only [Http2Session.onStreamClose, hstr]
    exact
      { streamClosed := fun hs => absurd hs hstr
        bodyBuffer := fun hs => absurd hs hstr
        suspended := fun c hc => absurd (h.suspended c hc).2.1 hstr
        resumed := fun c d hc => absurd hc (hdata c d).1
        returned := fun c d hc => absurd hc (hdata c d).2
        called := h.called
        late := h.late
        uncalled := fun hf hor => by
          refine h.uncalled hf (.inr ⟨?_, hrequest⟩)
          by_contra hex
          have hex : σ.driverExited = true := by simpa using hex
          simp [hex, hexit hex] at hor
        first_call := fun c hf => by
          obtain ⟨phase, hc, herr⟩ := h.first_call c hf
          refine ⟨phase, hc, fun e he => ⟨?_, (herr e he).2⟩⟩
          simpa using hexit (herr e he).2 }

/-! ## Body calls -/

/-- What a call may be: the result of a call that fails tells that there is no whole body. -/
private def CallOk (σ : Http2Session) (r : Received) (first : Option CallId) (s : StreamId)
    (c : CallId) : BodyPhase → Prop
  | .suspended => (σ.contexts s).bodyWaker = some c ∧ σ.streams s = true ∧ r.closed = none ∧
      σ.driverExited = false
  | .resumed data | .returned (.ok data) => r.closed = some 0 ∧ data = r.data
  | .returned (.error _) => first = none → r.closed ≠ some 0 ∧ σ.driverExited = true

/-- A step of a call `c`, when no other call on the stream is waiting. -/
private theorem CallsInv.setBody {phase : BodyPhase} (h : CallsInv σ r first s)
    (hbodies : σ'.bodies = Function.update σ.bodies c (some (s, phase)))
    (hreq : σ'.requests = σ.requests) (hexit : σ'.driverExited = σ.driverExited)
    (hstreams : σ'.streams s = true → σ.streams s = true ∧ σ.bodies c = none ∧
      (σ'.contexts s).streamClosed = (σ.contexts s).streamClosed ∧
      (σ'.contexts s).bodyBuffer = (σ.contexts s).bodyBuffer)
    (hwait : ∀ c', c' ≠ c → σ.bodies c' ≠ some (s, .suspended))
    (hfirst : ∀ e, phase = .returned (.error e) → first ≠ some c)
    (hphase : CallOk σ' r first s c phase) : CallsInv σ' r (first.or (some c)) s := by
  have hself : σ'.bodies c = some (s, phase) := by simp [hbodies]
  have hother : ∀ c', c' ≠ c → σ'.bodies c' = σ.bodies c' := fun c' hne => by simp [hbodies, hne]
  constructor
  case streamClosed =>
    intro hs
    obtain ⟨hs, -, hclosed, -⟩ := hstreams hs
    rw [hclosed, h.streamClosed hs]
  case bodyBuffer =>
    intro hs hc
    obtain ⟨hs, hfresh, -, hbuffer⟩ := hstreams hs
    rw [hbuffer]
    refine h.bodyBuffer hs fun c' d hd => ?_
    have hne : c' ≠ c := fun heq => by simp [heq, hfresh] at hd
    exact hc c' d ((hother c' hne).trans hd)
  case suspended =>
    intro c' hc
    by_cases hne : c' = c
    · obtain rfl : phase = .suspended := by simpa [hne, hself] using hc
      exact hne ▸ hphase
    · exact absurd (hother c' hne ▸ hc) (hwait c' hne)
  case resumed =>
    intro c' d hc
    by_cases hne : c' = c
    · obtain rfl : phase = .resumed d := by simpa [hne, hself] using hc
      exact hphase
    · exact h.resumed c' d (hother c' hne ▸ hc)
  case returned =>
    intro c' d hc
    by_cases hne : c' = c
    · obtain rfl : phase = .returned (.ok d) := by simpa [hne, hself] using hc
      exact hphase
    · exact h.returned c' d (hother c' hne ▸ hc)
  case called => simp
  case late =>
    intro hex hs
    rw [hreq]
    exact h.late (hexit ▸ hex) (hstreams hs).1
  case uncalled => simp
  -- the first call stays the first, whichever call steps
  case first_call =>
    intro c' hf
    cases hcase : first with
    | none =>
      obtain rfl : c = c' := by simpa [hcase] using hf
      exact ⟨phase, hself, fun e he => by subst he; exact hphase hcase⟩
    | some c₀ =>
      obtain rfl : c₀ = c' := by simpa [hcase] using hf
      by_cases hne : c₀ = c
      · exact ⟨phase, hne ▸ hself, fun e he => absurd (hne ▸ hcase) (hfirst e he)⟩
      · obtain ⟨phase', hc, herr⟩ := h.first_call c₀ hcase
        exact ⟨phase', (hother c₀ hne).trans hc, hexit ▸ herr⟩

/-- A call, when no other waits and the stream has not failed. -/
private theorem callsInv_bodyFull (h : CallsInv σ r first s)
    (hcond : σ.streams s = true → (∀ errorCode, r.closed = some errorCode →
      errorCode = 0) ∧ ∀ c phase, σ.bodies c = some (s, phase) → ∃ result, phase = .returned result)
    (hstep : σ.step (.bodyFull c s) = some σ') : CallsInv σ' r (first.or (some c)) s := by
  obtain ⟨response, hphase, hfresh, rfl⟩ := step_bodyFull hstep
  have hfirst : first ≠ some c := by
    intro hf
    obtain ⟨phase, hc, -⟩ := h.first_call c hf
    simp [hfresh] at hc
  unfold Http2Session.bodyFull
  split
  case isTrue hstr =>
    obtain ⟨hzero, hidle⟩ := hcond hstr
    have hwait : ∀ c' phase, (∀ result, phase ≠ .returned result) →
        σ.bodies c' ≠ some (s, phase) := by
      intro c' phase hne hc
      obtain ⟨result, hres⟩ := hidle c' phase hc
      exact hne result hres
    split
    case isTrue hclosed =>
      -- the stream has been closed: the call takes the buffer
      have hwhole : r.closed = some 0 := by
        have hsome := h.streamClosed hstr
        rw [hclosed] at hsome
        obtain ⟨errorCode, hcode⟩ := Option.isSome_iff_exists.mp hsome.symm
        rw [hcode, hzero errorCode hcode]
      have hbuffer := h.bodyBuffer hstr fun c' d => hwait c' (.resumed d) (by simp)
      exact h.setBody rfl rfl rfl (by simp) (fun c' _ => hwait c' _ (by simp)) (by simp)
        ⟨hwhole, hbuffer⟩
    case isFalse hclosed =>
      -- the call waits for the close
      have hopen : r.closed = none := by
        have hnone := h.streamClosed hstr
        simpa [hclosed] using hnone.symm
      have hrun : σ.driverExited = false := by
        by_contra hex
        exact (h.late (by simpa using hex) hstr).2 response hphase
      exact h.setBody rfl rfl rfl (by simp [hfresh, hstr]) (fun c' _ => hwait c' _ (by simp))
        (by simp) ⟨by simp, hstr, hopen, hrun⟩
  case isFalse hstr =>
    refine h.setBody rfl rfl rfl (fun hs => absurd hs hstr)
      (fun c' _ hc => hstr (h.suspended c' hc).2.1) (fun _ _ => hfirst) ?_
    -- an unread stream is only gone if it has no whole body and never gets one
    have hgone : ¬(σ.streams s = true ∨ ∃ e, σ.requests s = some (.returned (.error e))) := by
      simp [hstr, hphase]
    intro hf
    refine ⟨fun hwhole => hgone (h.uncalled hf (.inl hwhole)), ?_⟩
    by_contra hex
    exact hgone (h.uncalled hf (.inr ⟨by simpa using hex, by simp [hphase]⟩))

private theorem callsInv_bodyResume (h : CallsInv σ r first s)
    (hc : streamOf σ (.bodyResume c) = some s) (hstep : σ.step (.bodyResume c) = some σ') :
    CallsInv σ' r first s := by
  obtain ⟨data, hcall, rfl⟩ := step_bodyResume hc hstep
  obtain ⟨hwhole, hdata⟩ := h.resumed c data hcall
  have hfirst : first.or (some c) = first := by
    cases hcase : first with
    | none => exact absurd hcase (h.called c _ hcall)
    | some c₀ => rfl
  rw [← hfirst]
  refine h.setBody rfl rfl rfl (by simp) (fun c' _ hc' => ?_) (by simp) ⟨hwhole, hdata⟩
  simpa [hwhole] using (h.suspended c' hc').2.2.1

/-! ## The end of the driver -/

/-- The driver ends while no call waits for the stream. -/
private theorem callsInv_driverExit (hstate : StreamState σ r s) (h : CallsInv σ r first s)
    (hcond : σ.streams s = true → (∀ c, σ.bodies c ≠ some (s, .suspended)) ∧ (r.closed = some 0 →
      first ≠ none)) :
    CallsInv σ.tearDown r first s := by
  -- no call is waiting, so the tear-down wakes none
  have hcalls : ∀ c phase, σ.tearDown.bodies c = some (s, phase) ↔
    σ.bodies c = some (s, phase) := by
    intro c phase
    rw [tearDown_bodies]
    have hwaker : ¬(σ.streams s = true ∧ (σ.contexts s).bodyWaker = some c) :=
      fun ⟨hstr, hw⟩ => (hcond hstr).1 c (hstate.bodyWaker c hw)
    simp [hwaker]
  constructor
  case streamClosed => simp [Http2Session.tearDown]
  case bodyBuffer => simp [Http2Session.tearDown]
  case late => simp [Http2Session.tearDown]
  case suspended =>
    intro c hc
    have hc := (hcalls c _).mp hc
    exact absurd hc ((hcond (h.suspended c hc).2.1).1 c)
  case resumed => exact fun c d hc => h.resumed c d ((hcalls c _).mp hc)
  case returned => exact fun c d hc => h.returned c d ((hcalls c _).mp hc)
  case called => exact fun c phase hc => h.called c phase ((hcalls c phase).mp hc)
  case uncalled =>
    intro hf hor
    have hwhole : r.closed = some 0 := by simpa [Http2Session.tearDown] using hor
    rcases h.uncalled hf (.inl hwhole) with hstr | ⟨e, he⟩
    · exact absurd hf ((hcond hstr).2 hwhole)
    · have hw : (σ.contexts s).headerWaker = false := by
        by_contra hw
        simp [hstate.headerWaker (by simpa using hw)] at he
      exact .inr ⟨e, by simp [Http2Session.tearDown, hw, he]⟩
  case first_call =>
    intro c hf
    obtain ⟨phase, hc, herr⟩ := h.first_call c hf
    exact ⟨phase, (hcalls c phase).mpr hc, fun e he => ⟨(herr e he).1, rfl⟩⟩

/-! ## Whole runs -/

private theorem bodyInv_initial : BodyInv [] Http2Session.initial := by
  refine ⟨sessionInv_initial, fun s => ?_⟩
  constructor <;> simp [Http2Session.initial, firstCall]

/-- An orderly step keeps the invariant at the stream it is about. -/
private theorem callsInv_step {h : List H2Label} {l : H2Label} (hinv : BodyInv h σ)
    (hcond : Orderly h σ l) (hstep : σ.step l = some σ') (hl : streamOf σ l = some s) :
    CallsInv σ' ((received s h).next s l) ((firstCall s h).or (callOf s l)) s := by
  have hstate := hinv.session s
  have hcalls := hinv.calls s
  cases l with
  | driverExit => simp [streamOf] at hl
  | bodyResume c =>
    simp only [callOf, Option.or_none]
    exact callsInv_bodyResume hcalls hl hstep
  | bodyFull c s =>
    obtain rfl := Option.some.inj hl
    -- only `body_full` can be the first call
    simp only [callOf, if_true]
    exact callsInv_bodyFull hcalls hcond hstep
  | submit s =>
    obtain rfl := Option.some.inj hl
    simp only [callOf, Option.or_none]
    exact callsInv_submit hstate hcalls hstep
  | flushed s =>
    obtain rfl := Option.some.inj hl
    simp only [callOf, Option.or_none]
    exact callsInv_flushed hcalls hstep
  | flushFailed s =>
    obtain rfl := Option.some.inj hl
    simp only [callOf, Option.or_none]
    exact callsInv_flushFailed hstate hcalls hstep
  | resume s =>
    obtain rfl := Option.some.inj hl
    simp only [callOf, Option.or_none]
    exact callsInv_resume hstate hcalls hstep
  | onHeader s name value =>
    obtain rfl := Option.some.inj hl
    simp only [callOf, Option.or_none]
    exact callsInv_onHeader hstate hcalls hstep
  | onFrameRecv s cat =>
    obtain rfl := Option.some.inj hl
    simp only [callOf, Option.or_none]
    exact callsInv_onFrameRecv hstate hcalls hstep
  | onDataChunkRecv s data =>
    obtain rfl := Option.some.inj hl
    simp only [callOf, Option.or_none]
    exact callsInv_onDataChunkRecv hstate hcalls hstep
  | onStreamClose s errorCode =>
    obtain rfl := Option.some.inj hl
    simp only [callOf, Option.or_none]
    exact callsInv_onStreamClose hstate hcalls hcond hstep

/-- One orderly step keeps the invariant. -/
private theorem bodyInv_step (h : List H2Label) (σ : Http2Session) (l : H2Label)
    (σ' : Http2Session) (hinv : BodyInv h σ) (hcond : Orderly h σ l)
    (hstep : σ.step l = some σ') : BodyInv (h ++ [l]) σ' := by
  refine ⟨sessionInv_step hinv.session hstep, ?_⟩
  refine invariant_step (fun h σ s => CallsInv σ (received s h) (firstCall s h) s) hinv.session
    hstep hinv.calls ?_ ?_ ?_
  · intro s hs hsame hreceived hfirst
    rw [hreceived, hfirst]
    exact hs.congr hsame
  · intro s hl
    rw [received_concat, firstCall_concat]
    exact callsInv_step hinv hcond hstep hl
  · rintro s rfl - rfl
    simp only [received_concat, firstCall_concat, callOf, Option.or_none]
    exact callsInv_driverExit (hinv.session s) (hinv.calls s) (hcond s)

/-- The first call on a stream with a whole body returns it. -/
private theorem CallsInv.bodyOutcome_eq (h : CallsInv σ r (some c) s) (hwhole : r.closed = some 0) :
    bodyOutcome σ c = some (.ok r.data) := by
  obtain ⟨phase, hc, herr⟩ := h.first_call c rfl
  cases phase with
  | suspended => simpa [hwhole] using (h.suspended c hc).2.2.1
  | resumed data => simp [bodyOutcome, hc, (h.resumed c data hc).2]
  | returned result =>
    cases result with
    | ok data => simp [bodyOutcome, hc, (h.returned c data hc).2]
    | error e => exact absurd hwhole (herr e rfl).1

/-- In every state that is reached, `body_full` has returned a body only if the stream has been
    closed with error code 0, and then the body is all data of the stream; and the first call for a
    stream that has been closed with error code 0 returns it. -/
theorem body_whole_or_error (ls : List H2Label) (σ : Http2Session)
    (horderly : Run.Along Http2Session.step Orderly [] Http2Session.initial ls)
    (hrun : Run.run Http2Session.step Http2Session.initial ls = some σ) (s : StreamId) :
    (∀ c body, σ.bodies c = some (s, .returned (.ok body)) →
        (received s ls).closed = some 0 ∧ body = (received s ls).data) ∧
      (∀ c, firstCall s ls = some c → (received s ls).closed = some 0 →
        bodyOutcome σ c = some (.ok (received s ls).data)) := by
  have hinv : BodyInv ls σ := Run.invariant_of_run bodyInv_step bodyInv_initial horderly hrun
  refine ⟨(hinv.calls s).returned, fun c hc => ?_⟩
  exact (hc ▸ hinv.calls s).bodyOutcome_eq

/-- A response whose body arrives in two chunks around the call that waits for it. -/
def oneBody : List H2Label :=
  [.submit 1, .flushed 1, .onHeader 1 statusField [50, 48, 48], .onFrameRecv 1 .response,
    .onDataChunkRecv 1 [104], .resume 1, .bodyFull 7 1, .onDataChunkRecv 1 [105],
    .onStreamClose 1 0, .bodyResume 7]

theorem body_whole_or_error_oneBody :
    ∃ σ, Run.Along Http2Session.step Orderly [] Http2Session.initial oneBody ∧
      Run.run Http2Session.step Http2Session.initial oneBody = some σ ∧
      (received 1 oneBody).closed = some 0 ∧ bodyOutcome σ 7 = some (.ok [104, 105]) := by
  have halong : Run.Along Http2Session.step Orderly [] Http2Session.initial oneBody := by
    refine .cons rfl trivial <| .cons rfl trivial <| .cons rfl trivial <| .cons rfl trivial <|
      .cons rfl trivial <| .cons rfl trivial <| .cons rfl ?_ <| .cons rfl trivial <|
      .cons rfl (.inl rfl) <| .cons rfl trivial trivial
    -- nothing has been closed and this is the only call
    intro _
    constructor
    · intro errorCode hclosed
      cases hclosed
    · intro c phase hc
      cases hc
  exact ⟨_, halong, rfl, rfl, (body_whole_or_error oneBody _ halong rfl 1).2 7 rfl rfl⟩

/-- A call that waits gets what has arrived when the stream is reset or the connection ends, a call
    behind a reset gets it as well, and a body that is complete when the connection ends is not
    found any more. -/
theorem body_truncated :
    let start : List H2Label :=
      [.submit 1, .flushed 1, .onHeader 1 statusField [50, 48, 48], .onFrameRecv 1 .response,
        .resume 1, .onDataChunkRecv 1 [104]]
    let bodyAfter (ls : List H2Label) :=
      (Run.run Http2Session.step Http2Session.initial (start ++ ls)).map fun σ => bodyOutcome σ 7
    bodyAfter [.bodyFull 7 1, .onStreamClose 1 8, .bodyResume 7] = some (some (.ok [104])) ∧
      bodyAfter [.onStreamClose 1 8, .bodyFull 7 1] = some (some (.ok [104])) ∧
      bodyAfter [.bodyFull 7 1, .driverExit, .bodyResume 7] = some (some (.ok [104])) ∧
      bodyAfter [.onStreamClose 1 0, .driverExit, .bodyFull 7 1] =
        some (some (makeErrResult .invalidArgument "Stream id not found")) ∧
      bodyAfter [.bodyFull 7 1, .bodyFull 8 1, .onStreamClose 1 0, .bodyResume 8] = some none := by
  decide

end Ppnt.Spec
