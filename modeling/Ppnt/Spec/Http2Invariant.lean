import Ppnt.Spec.Http2Events

/-!
# Invariants of an HTTP/2 session

What holds of every stream in every run of `Http2Session`, and what a step leaves alone.  All
properties of the session are properties of its streams, and a step of a coroutine or a callback
only touches one stream, so an invariant has to be checked for that stream only.
-/

namespace Ppnt.Spec

open Ppnt.Native

/-- The stream a label is about. -/
def streamOf (σ : Http2Session) : H2Label → Option StreamId
  | .submit s | .flushed s | .flushFailed s | .resume s | .bodyFull _ s => some s
  | .bodyResume c => (σ.bodies c).map Prod.fst
  | .onHeader s _ _ | .onFrameRecv s _ | .onDataChunkRecv s _ | .onStreamClose s _ => some s
  | .driverExit => none

/-- The call of `body_full` that a label starts on a stream. -/
def callOf (s : StreamId) : H2Label → Option CallId
  | .bodyFull c s' => if s' = s then some c else none
  | _ => none

/-- The first call of `body_full` for the response of a stream. -/
def firstCall (s : StreamId) (h : List H2Label) : Option CallId := h.findSome? (callOf s)

theorem firstCall_concat (s : StreamId) (h : List H2Label) (l : H2Label) :
    firstCall s (h ++ [l]) = (firstCall s h).or (callOf s l) := by
  simp [firstCall, List.findSome?_append, List.findSome?_cons]
  cases callOf s l <;> rfl

/-! ## The steps of the coroutines -/

section Steps

variable {σ σ' : Http2Session} {s : StreamId} {c : CallId}

theorem step_resume (h : σ.step (.resume s) = some σ') :
    ∃ success, σ.requests s = some (.resumed success) ∧
      ((∃ e, (σ.contexts s).finish s success = .error e ∧
          σ' = (σ.erase s).setRequest s (.returned (.error e))) ∨
        ∃ response, (σ.contexts s).finish s success = .ok response ∧
          σ' = (σ.setContext s { σ.contexts s with headers := [] }).setRequest s
            (.returned (.ok response))) := by
  simp only [Http2Session.step] at h
  split at h
  case h_2 => cases h
  case h_1 success hphase =>
    refine ⟨success, hphase, ?_⟩
    split at h
    case h_1 e he => exact .inl ⟨e, he, (Option.some.inj h).symm⟩
    case h_2 response hok => exact .inr ⟨response, hok, (Option.some.inj h).symm⟩

theorem step_bodyFull (h : σ.step (.bodyFull c s) = some σ') :
    ∃ response, σ.requests s = some (.returned (.ok response)) ∧ σ.bodies c = none ∧
      σ' = σ.bodyFull c s := by
  simp only [Http2Session.step] at h
  split at h
  case h_2 => cases h
  case h_1 response hphase hfresh => exact ⟨response, hphase, hfresh, (Option.some.inj h).symm⟩

theorem step_bodyResume (hs : streamOf σ (.bodyResume c) = some s)
    (h : σ.step (.bodyResume c) = some σ') :
    ∃ data, σ.bodies c = some (s, .resumed data) ∧
      σ' = (σ.erase s).setBody c s (.returned (.ok data)) := by
  simp only [Http2Session.step] at h
  split at h
  case h_2 => cases h
  case h_1 s₁ data hc =>
    obtain rfl : s₁ = s := by simpa [streamOf, hc] using hs
    exact ⟨data, hc, (Option.some.inj h).symm⟩

end Steps

/-- A stream and its calls are in the same state. -/
structure SameAt (s : StreamId) (σ σ' : Http2Session) : Prop where
  requests : σ'.requests s = σ.requests s
  contexts : σ'.contexts s = σ.contexts s
  streams : σ'.streams s = σ.streams s
  nghttp2 : σ'.nghttp2 s = σ.nghttp2 s
  bodies : ∀ c phase, σ'.bodies c = some (s, phase) ↔ σ.bodies c = some (s, phase)
  driverExited : σ'.driverExited = σ.driverExited

/-- What holds of a stream in every run. -/
structure StreamState (σ : Http2Session) (r : Received) (s : StreamId) : Prop where
  /-- Nothing is received before the stream is opened. -/
  fresh : σ.requests s = none → σ.nghttp2 s = .idle ∧ r = {}
  headerWaker : (σ.contexts s).headerWaker = true → σ.requests s = some .suspended
  /-- `body_full` is only called when `request` has returned a response. -/
  call : ∀ c phase, σ.bodies c = some (s, phase) →
    ∃ response, σ.requests s = some (.returned (.ok response))
  bodyWaker : ∀ c, (σ.contexts s).bodyWaker = some c → σ.bodies c = some (s, .suspended)
  closed : r.closed.isSome = true ↔ σ.nghttp2 s = .closed

/-- The invariant of all runs. -/
def SessionInv (h : List H2Label) (σ : Http2Session) : Prop := ∀ s, StreamState σ (received s h) s

variable {r : Received} {s' : StreamId} {l : H2Label} {h : List H2Label}

theorem StreamState.congr {σ σ' : Http2Session} {s : StreamId} (h : StreamState σ r s)
    (hsame : SameAt s σ σ') : StreamState σ' r s where
  fresh := hsame.requests ▸ hsame.nghttp2 ▸ h.fresh
  headerWaker := hsame.contexts ▸ hsame.requests ▸ h.headerWaker
  call c phase hc := hsame.requests ▸ h.call c phase ((hsame.bodies c phase).mp hc)
  bodyWaker c hc := (hsame.bodies c _).mpr (h.bodyWaker c (hsame.contexts ▸ hc))
  closed := hsame.nghttp2 ▸ h.closed

/-! ## The rest of the session -/

/-- Waking the body call of a stream changes no call of another one. -/
private theorem wakeBody_elsewhere {σ : Http2Session} {s : StreamId} (hs : StreamState σ r s)
    (hne : s' ≠ s) (c : CallId) (phase : BodyPhase) :
    (if (σ.contexts s).bodyWaker = some c then some (s, .resumed (σ.contexts s).bodyBuffer)
      else σ.bodies c) = some (s', phase) ↔ σ.bodies c = some (s', phase) := by
  split
  case isTrue hc => simp [hs.bodyWaker c hc, Ne.symm hne]
  case isFalse => rfl

/-- What the labels about one stream amount to for another one. -/
private theorem next_elsewhere {σ : Http2Session} {s : StreamId} (hs : streamOf σ l = some s)
    (hne : s' ≠ s) (r : Received) :
    r.next s' l = r ∧ callOf s' l = none := by
  cases l <;> simp_all [streamOf, Received.next, callOf, Ne.symm hne]

/-- A step changes nothing at the streams it is not about. -/
theorem step_elsewhere {σ σ' : Http2Session} {s : StreamId} (hinv : SessionInv h σ)
    (hstep : σ.step l = some σ') (hs : streamOf σ l = some s) (hne : s' ≠ s) :
    SameAt s' σ σ' ∧ received s' (h ++ [l]) = received s' h ∧
      firstCall s' (h ++ [l]) = firstCall s' h := by
  obtain ⟨hnext, hcall⟩ := next_elsewhere hs hne (received s' h)
  refine ⟨?_, by rw [received_concat, hnext], by rw [firstCall_concat, hcall, Option.or_none]⟩
  cases l with
  | driverExit => simp [streamOf] at hs
  | submit | flushed | flushFailed =>
    obtain rfl := Option.some.inj hs
    obtain ⟨-, ⟨⟩⟩ := Option.ite_none_right_eq_some.mp hstep
    constructor <;> simp [hne]
  | onHeader | onDataChunkRecv =>
    obtain rfl := Option.some.inj hs
    obtain ⟨-, ⟨⟩⟩ := Option.ite_none_right_eq_some.mp hstep
    split <;> constructor <;> simp [hne]
  | onFrameRecv =>
    obtain rfl := Option.some.inj hs
    obtain ⟨-, ⟨⟩⟩ := Option.ite_none_right_eq_some.mp hstep
    unfold Http2Session.onFrameRecv
    split <;> constructor <;> simp [hne]
  | onStreamClose s errorCode =>
    obtain rfl := Option.some.inj hs
    obtain ⟨-, ⟨⟩⟩ := Option.ite_none_right_eq_some.mp hstep
    unfold Http2Session.onStreamClose
    split
    · constructor
      case bodies => simpa using wakeBody_elsewhere (hinv s) hne
      all_goals simp [hne]
    · constructor <;> simp [hne]
  | resume s =>
    obtain rfl := Option.some.inj hs
    obtain ⟨_, -, ⟨_, -, rfl⟩ | ⟨_, -, rfl⟩⟩ := step_resume hstep
    · constructor <;> simp [hne]
    · constructor <;> simp [hne]
  | bodyFull c s =>
    obtain rfl := Option.some.inj hs
    obtain ⟨_, -, hfresh, rfl⟩ := step_bodyFull hstep
    -- the call is new, so it was not a call of the other stream
    have hcalls : ∀ phase c' phase', Function.update σ.bodies c (some (s, phase)) c' =
        some (s', phase') ↔ σ.bodies c' = some (s', phase') := by
      intro phase c' phase'
      by_cases hc : c' = c <;> simp [hc, hfresh, Ne.symm hne]
    unfold Http2Session.bodyFull
    split <;> [split; skip] <;> constructor <;>
      first | exact hcalls _ | simp [hne]
  | bodyResume c =>
    obtain ⟨data, hc, rfl⟩ := step_bodyResume hs hstep
    constructor
    case bodies =>
      intro c' phase
      by_cases hc' : c' = c <;> simp [hc', hc, Ne.symm hne]
    all_goals simp [hne]

/-! ## The invariant is kept -/

private theorem streamState_request {σ σ' : Http2Session} {s : StreamId}
    {phase phase' : RequestPhase} (hs : StreamState σ r s) (hphase : σ.requests s = some phase)
    (hnot : ∀ response, phase ≠ .returned (.ok response)) (hreq : σ'.requests s = some phase')
    (hheader : (σ'.contexts s).headerWaker = true → phase' = .suspended)
    (hbody : (σ'.contexts s).bodyWaker = (σ.contexts s).bodyWaker) (hbodies : σ'.bodies = σ.bodies)
    (hng : σ'.nghttp2 s = σ.nghttp2 s) : StreamState σ' r s where
  fresh h := by simp [hreq] at h
  headerWaker h := by rw [hreq, hheader h]
  call c p hc := by
    obtain ⟨response, hr⟩ := hs.call c p (hbodies ▸ hc)
    exact absurd (Option.some.inj (hphase.symm.trans hr)) (hnot response)
  bodyWaker c hc := hbodies ▸ hs.bodyWaker c (hbody ▸ hc)
  closed := hng ▸ hs.closed

/-- A step of a `body_full` call. -/
private theorem streamState_call {σ σ' : Http2Session} {s : StreamId} {c : CallId}
    {phase : BodyPhase} {response : H2Response} (hs : StreamState σ r s)
    (hphase : σ.requests s = some (.returned (.ok response))) (hreq : σ'.requests = σ.requests)
    (hheader : (σ'.contexts s).headerWaker = (σ.contexts s).headerWaker)
    (hbodies : σ'.bodies = Function.update σ.bodies c (some (s, phase)))
    (hbody : ∀ c', (σ'.contexts s).bodyWaker = some c' →
      Function.update σ.bodies c (some (s, phase)) c' = some (s, .suspended))
    (hng : σ'.nghttp2 = σ.nghttp2) : StreamState σ' r s where
  fresh h := by simp [hreq, hphase] at h
  headerWaker h := hreq ▸ hs.headerWaker (hheader ▸ h)
  call c' p hc := ⟨response, hreq ▸ hphase⟩
  bodyWaker c' hc := hbodies ▸ hbody c' hc
  closed := hng ▸ hs.closed

/-- A callback on a stream that stays open. -/
private theorem streamState_callback {σ σ' : Http2Session} {r' : Received} {s : StreamId}
    (hs : StreamState σ r s) (hng : σ.nghttp2 s = .opening ∨ σ.nghttp2 s = .opened)
    (hng' : σ'.nghttp2 s = .opening ∨ σ'.nghttp2 s = .opened)
    (hreq : σ'.requests s = σ.requests s ∨ (σ.contexts s).headerWaker = true ∧
      ∃ success, σ'.requests s = some (.resumed success))
    (hheader : (σ'.contexts s).headerWaker = true → (σ.contexts s).headerWaker = true ∧
      σ'.requests s = σ.requests s)
    (hbody : (σ'.contexts s).bodyWaker = (σ.contexts s).bodyWaker) (hbodies : σ'.bodies = σ.bodies)
    (hclosed : r'.closed = r.closed) : StreamState σ' r' s where
  -- nghttp2 has opened the stream, so its request is known
  fresh h := by
    rcases hreq with hreq | ⟨-, success, hreq⟩
    · obtain ⟨hidle, -⟩ := hs.fresh (hreq ▸ h)
      simp [hidle] at hng
    · simp [hreq] at h
  headerWaker h := by
    obtain ⟨hold, hreq⟩ := hheader h
    rw [hreq, hs.headerWaker hold]
  call c phase hc := by
    obtain ⟨response, hr⟩ := hs.call c phase (hbodies ▸ hc)
    rcases hreq with hreq | ⟨hwaker, -⟩
    · exact ⟨response, hreq.trans hr⟩
    · simp [hs.headerWaker hwaker] at hr
  bodyWaker c hc := hbodies ▸ hs.bodyWaker c (hbody ▸ hc)
  closed := by
    have hopen : σ.nghttp2 s ≠ .closed := by rcases hng with h | h <;> simp [h]
    have hopen' : σ'.nghttp2 s ≠ .closed := by rcases hng' with h | h <;> simp [h]
    rw [hclosed]
    exact iff_of_false (fun h => hopen (hs.closed.mp h)) hopen'

/-- A call of `body_full` returns at once, or waits in place of the call that waited before. -/
private theorem streamState_bodyFull {σ : Http2Session} {s : StreamId} {c : CallId}
    {response : H2Response} (hs : StreamState σ r s)
    (hphase : σ.requests s = some (.returned (.ok response))) (hfresh : σ.bodies c = none) :
    StreamState (σ.bodyFull c s) r s := by
  have hold : ∀ c', (σ.contexts s).bodyWaker = some c' → c' ≠ c := by
    rintro c' hc rfl
    simp [hs.bodyWaker c' hc] at hfresh
  unfold Http2Session.bodyFull
  split <;> [split; skip]
  · refine streamState_call hs hphase rfl (by simp) rfl (fun c' hc => ?_) rfl
    have hc : (σ.contexts s).bodyWaker = some c' := by simpa using hc
    simp [hold c' hc, hs.bodyWaker c' hc]
  · refine streamState_call hs hphase rfl (by simp) rfl (fun c' hc => ?_) rfl
    obtain rfl : c = c' := by simpa using hc
    simp
  · refine streamState_call hs hphase rfl rfl rfl (fun c' hc => ?_) rfl
    simp [hold c' hc, hs.bodyWaker c' hc]

/-- A stream that is closed wakes the coroutines that wait for it. -/
private theorem streamState_onStreamClose {σ : Http2Session} {s : StreamId} (hs : StreamState σ r s)
    (hng : σ.nghttp2 s = .opening ∨ σ.nghttp2 s = .opened) (errorCode : Nat) :
    StreamState ((σ.onStreamClose s).setNghttp2 s .closed)
    (r.next s (.onStreamClose s errorCode)) s := by
  have hrequest : σ.requests s ≠ none := fun hnone => by simp [(hs.fresh hnone).1] at hng
  -- a request that has returned has no waker left
  have hreturned : ∀ response, σ.requests s = some (.returned (.ok response)) →
      (σ.contexts s).headerWaker = false := by
    intro response hr
    by_contra hw
    simp [hs.headerWaker (by simpa using hw)] at hr
  unfold Http2Session.onStreamClose
  split
  · constructor
    case call =>
      intro c phase hc
      have hold : ∃ phase', σ.bodies c = some (s, phase') := by
        by_cases hw : (σ.contexts s).bodyWaker = some c
        · exact ⟨_, hs.bodyWaker c hw⟩
        · exact ⟨phase, by simpa [hw] using hc⟩
      obtain ⟨phase', hc'⟩ := hold
      obtain ⟨response, hr⟩ := hs.call c phase' hc'
      exact ⟨response, by simp [hr, hreturned response hr]⟩
    case fresh =>
      by_cases hw : (σ.contexts s).headerWaker = true <;> simp [hw, hrequest]
    all_goals simp [Received.next]
  · exact ⟨fun hnone => absurd hnone hrequest, hs.headerWaker, hs.call, hs.bodyWaker,
      by simp [Received.next]⟩

/-- What a stream is after a step about it. -/
private theorem streamState_step {σ σ' : Http2Session} {s : StreamId} (hinv : SessionInv h σ)
    (hstep : σ.step l = some σ') (hs : streamOf σ l = some s) :
    StreamState σ' ((received s h).next s l) s := by
  have hstate := hinv s
  cases l with
  | driverExit => simp [streamOf] at hs
  | submit s =>
    obtain rfl := Option.some.inj hs
    obtain ⟨⟨hnone, hidle⟩, ⟨⟩⟩ := Option.ite_none_right_eq_some.mp hstep
    have hclosed := hstate.closed
    constructor
    case call =>
      intro c phase hc
      obtain ⟨response, hr⟩ := hstate.call c phase hc
      simp [hnone] at hr
    all_goals simp_all [Received.next]
  | flushed s =>
    obtain rfl := Option.some.inj hs
    obtain ⟨hphase, ⟨⟩⟩ := Option.ite_none_right_eq_some.mp hstep
    exact streamState_request hstate hphase (by simp) (by simp) (fun _ => rfl) (by simp) rfl rfl
  | flushFailed s =>
    obtain rfl := Option.some.inj hs
    obtain ⟨hphase, ⟨⟩⟩ := Option.ite_none_right_eq_some.mp hstep
    refine streamState_request hstate hphase (by simp) (by simp; rfl) (fun hw => ?_) rfl rfl rfl
    simpa [hphase] using hstate.headerWaker hw
  -- a waker is there only while the request waits
  | resume s =>
    obtain rfl := Option.some.inj hs
    obtain ⟨success, hphase, hreturned⟩ := step_resume hstep
    have hwaker : (σ.contexts s).headerWaker ≠ true := fun hw => by
      simpa [hphase] using hstate.headerWaker hw
    rcases hreturned with ⟨e, -, rfl⟩ | ⟨response, -, rfl⟩
    · exact streamState_request hstate hphase (by simp) (by simp; rfl)
        (fun hw => absurd hw hwaker) rfl rfl rfl
    · exact streamState_request hstate hphase (by simp) (by simp; rfl)
        (fun hw => absurd (by simpa using hw) hwaker) (by simp) rfl rfl
  | bodyFull c s =>
    obtain rfl := Option.some.inj hs
    obtain ⟨response, hphase, hfresh, rfl⟩ := step_bodyFull hstep
    exact streamState_bodyFull hstate hphase hfresh
  | bodyResume c =>
    obtain ⟨data, hc, rfl⟩ := step_bodyResume hs hstep
    obtain ⟨response, hphase⟩ := hstate.call c _ hc
    refine streamState_call hstate hphase rfl rfl rfl (fun c' hc' => ?_) rfl
    have hne : c' ≠ c := by
      rintro rfl
      simp [hstate.bodyWaker c' hc'] at hc
    simp [hne, hstate.bodyWaker c' hc']
  | onHeader s name value =>
    obtain rfl := Option.some.inj hs
    obtain ⟨⟨-, hng⟩, ⟨⟩⟩ := Option.ite_none_right_eq_some.mp hstep
    split <;> refine streamState_callback hstate hng ?_ (.inl rfl) ?_ ?_ rfl ?_ <;>
      simp [Received.next, hng]
  | onFrameRecv s cat =>
    obtain rfl := Option.some.inj hs
    obtain ⟨⟨-, hng⟩, ⟨⟩⟩ := Option.ite_none_right_eq_some.mp hstep
    -- a HEADERS frame opens the stream or comes on an open one
    have hng : σ.nghttp2 s = .opening ∨ σ.nghttp2 s = .opened := by
      split at hng <;> simp [hng]
    unfold Http2Session.onFrameRecv
    split
    · refine streamState_callback hstate hng (by simp) ?_ ?_ (by simp) (by simp)
        (by simp [Received.next])
      · by_cases hw : (σ.contexts s).headerWaker = true <;> simp [hw]
      · simp
    · refine streamState_callback hstate hng ?_ (.inl rfl) ?_ ?_ rfl ?_ <;>
        simp [Received.next]
  | onDataChunkRecv s data =>
    obtain rfl := Option.some.inj hs
    obtain ⟨⟨-, hng⟩, ⟨⟩⟩ := Option.ite_none_right_eq_some.mp hstep
    split <;> refine streamState_callback hstate (.inr hng) ?_ (.inl rfl) ?_ ?_ rfl ?_ <;>
      simp [Received.next, hng]
  | onStreamClose s errorCode =>
    obtain rfl := Option.some.inj hs
    obtain ⟨⟨-, hng⟩, ⟨⟩⟩ := Option.ite_none_right_eq_some.mp hstep
    exact streamState_onStreamClose hstate hng _

/-- The tear-down keeps every call at its stream. -/
theorem tearDown_bodies (σ : Http2Session) (c : CallId) (s : StreamId) (phase : BodyPhase) :
    σ.tearDown.bodies c = some (s, phase) ↔
      ∃ old, σ.bodies c = some (s, old) ∧
        phase = if σ.streams s = true ∧ (σ.contexts s).bodyWaker = some c then
          .resumed (σ.contexts s).bodyBuffer else old := by
  cases hc : σ.bodies c with
  | none => simp [Http2Session.tearDown, hc]
  | some call =>
    obtain ⟨s₀, old⟩ := call
    simp only [Http2Session.tearDown, hc, Bool.and_eq_true, decide_eq_true_eq, Option.some.injEq,
      Prod.mk.injEq]
    constructor
    · intro hphase
      split at hphase
      · obtain ⟨rfl, rfl⟩ := hphase
        simp_all
      · simp_all
    · rintro ⟨old', ⟨rfl, rfl⟩, rfl⟩
      split <;> rfl

/-- A stream after the driver has ended. -/
private theorem streamState_tearDown {σ : Http2Session} {s : StreamId}
    (hstate : StreamState σ r s) : StreamState σ.tearDown r s where
  fresh hnone := by
    refine hstate.fresh ?_
    simp only [Http2Session.tearDown] at hnone
    split at hnone <;> simp_all
  headerWaker hw := by
    by_cases hstr : σ.streams s = true
    · simp [Http2Session.tearDown, hstr] at hw
    · have hw : (σ.contexts s).headerWaker = true := by simpa [Http2Session.tearDown, hstr] using hw
      simpa [Http2Session.tearDown, hstr] using hstate.headerWaker hw
  call c phase hc := by
    obtain ⟨old, hold, -⟩ := (tearDown_bodies σ c s phase).mp hc
    obtain ⟨response, hr⟩ := hstate.call c old hold
    have hw : (σ.contexts s).headerWaker = false := by
      by_contra hw
      simp [hstate.headerWaker (by simpa using hw)] at hr
    exact ⟨response, by simp [Http2Session.tearDown, hw, hr]⟩
  bodyWaker c hc := by
    by_cases hstr : σ.streams s = true
    · simp [Http2Session.tearDown, hstr] at hc
    · have hc : (σ.contexts s).bodyWaker = some c := by
        simpa [Http2Session.tearDown, hstr] using hc
      exact (tearDown_bodies σ c s _).mpr ⟨_, hstate.bodyWaker c hc, by simp [hstr]⟩
  closed := hstate.closed

/-- The only step that is not about one stream is the tear-down. -/
private theorem step_everywhere {σ σ' : Http2Session} (hstep : σ.step l = some σ')
    (hs : streamOf σ l = none) :
    l = .driverExit ∧ σ.driverExited = false ∧ σ' = σ.tearDown := by
  cases l with
  | bodyResume c =>
    have hc : σ.bodies c = none := by simpa [streamOf] using hs
    simp [Http2Session.step, hc] at hstep
  | driverExit =>
    simp only [Http2Session.step] at hstep
    split at hstep
    · simp at hstep
    · rename_i hrun
      exact ⟨rfl, by simpa using hrun, (Option.some.inj hstep).symm⟩
  | _ => simp [streamOf] at hs

/-- An invariant of single streams is kept by a step if it is kept at the stream the step is about,
    or at every stream by the tear-down. -/
theorem invariant_step (inv : List H2Label → Http2Session → StreamId → Prop) {σ σ' : Http2Session}
    (hsession : SessionInv h σ) (hstep : σ.step l = some σ') (hinv : ∀ s, inv h σ s)
    (hframe : ∀ s, inv h σ s → SameAt s σ σ' → received s (h ++ [l]) = received s h →
      firstCall s (h ++ [l]) = firstCall s h → inv (h ++ [l]) σ' s)
    (hself : ∀ s, streamOf σ l = some s → inv (h ++ [l]) σ' s)
    (htear : ∀ s, l = .driverExit → σ.driverExited = false → σ' = σ.tearDown →
      inv (h ++ [l]) σ' s) :
    ∀ s, inv (h ++ [l]) σ' s := by
  intro s'
  cases hs : streamOf σ l with
  | some s =>
    by_cases hne : s' = s
    · exact hself s' (hne ▸ hs)
    · obtain ⟨hsame, hreceived, hcall⟩ := step_elsewhere hsession hstep hs hne
      exact hframe s' (hinv s') hsame hreceived hcall
  | none =>
    obtain ⟨hl, hrun, htorn⟩ := step_everywhere hstep hs
    exact htear s' hl hrun htorn

/-- Every step keeps the invariant. -/
theorem sessionInv_step {σ σ' : Http2Session} (hinv : SessionInv h σ) (hstep : σ.step l = some σ') :
    SessionInv (h ++ [l]) σ' := by
  refine invariant_step (fun h σ s => StreamState σ (received s h) s) hinv hstep hinv ?_ ?_ ?_
  · intro s hs hsame hreceived _
    rw [hreceived]
    exact hs.congr hsame
  · intro s hs
    rw [received_concat]
    exact streamState_step hinv hstep hs
  · rintro s rfl - rfl
    rw [received_concat]
    exact streamState_tearDown (hinv s)

theorem sessionInv_initial : SessionInv [] Http2Session.initial := by
  intro s
  constructor <;> simp [Http2Session.initial]

end Ppnt.Spec
