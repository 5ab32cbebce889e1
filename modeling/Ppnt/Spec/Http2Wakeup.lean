import Ppnt.Spec.Http2Invariant

/-!
# Wake-ups of HTTP/2 requests

`request` installs `header_waker` when `flush_writes` has returned and never looks at
`header_complete`, so a response, a close or the end of the driver that comes earlier is not
noticed.  This file says when that cannot happen (`Undisturbed`) and proves that then no wake-up is
lost.
-/

namespace Ppnt.Spec

open Ppnt.Native

/-- The steps that leave every request undisturbed: the driver processes the response of a stream
    only while its request is suspended on `header_waker`, and the response is not an interim one;
    no stream is closed and the driver does not exit while the request concerned is in
    `flush_writes`, and no request starts behind the exit; and no header field arrives between a
    response and the resumption of its request. -/
def Undisturbed (h : List H2Label) (σ : Http2Session) : H2Label → Prop
  | .submit _ => σ.driverExited = false
  | .onFrameRecv s .response => σ.requests s = some .suspended ∧
      (finalResponse (received s h).block).isSome = true
  | .onStreamClose s _ => σ.requests s ≠ some .flushing
  | .driverExit => ∀ s, σ.requests s ≠ some .flushing
  | .onHeader s _ _ => σ.requests s ≠ some (.resumed true)
  | _ => True

/-- What a request has returned, or will return when its continuation runs. -/
def outcome (σ : Http2Session) (s : StreamId) : Option (Except Error H2Response) :=
  match σ.requests s with
  | some (.resumed success) => some ((σ.contexts s).finish s success)
  | some (.returned result) => some result
  | _ => none

/-! ## The invariant -/

/-- A stream whose response is still to come. -/
structure Pending (σ : Http2Session) (r : Received) (s : StreamId) : Prop where
  registered : σ.streams s = true
  opening : σ.nghttp2 s = .opening
  running : σ.driverExited = false
  final : r.final = none
  responded : r.responded = false
  closed : r.closed = none
  status : (σ.contexts s).statusCode = parsedStatus r.block
  fields : (σ.contexts s).headers = regularFields r.block

/-- A stream whose response will not come any more. -/
def Abandoned (σ : Http2Session) (r : Received) (s : StreamId) : Prop :=
  r.final = none ∧ (σ.nghttp2 s ≠ .opened ∨ σ.driverExited = true)

/-- What holds of a stream in each phase of its request. -/
def StreamInv (σ : Http2Session) (r : Received) (s : StreamId) : Prop :=
  match σ.requests s with
  | none => r.final = none
  | some .flushing => Pending σ r s
  | some .suspended => Pending σ r s ∧ (σ.contexts s).headerWaker = true
  | some (.resumed true) => ∃ code hs, r.final = some (code, hs) ∧
      (σ.contexts s).statusCode = (code : Nat) ∧ (σ.contexts s).headers = hs
  | some (.returned (.ok response)) => ∃ code hs, r.final = some (code, hs) ∧
      response = ⟨s, code, hs⟩
  | some (.resumed false) | some (.returned (.error _)) => Abandoned σ r s

/-- The invariant of undisturbed runs. -/
structure WakeupInv (h : List H2Label) (σ : Http2Session) : Prop where
  session : SessionInv h σ
  stream : ∀ s, StreamInv σ (received s h) s

variable {σ σ' : Http2Session} {r : Received} {s : StreamId}

theorem StreamInv.congr (h : StreamInv σ r s) (hsame : SameAt s σ σ') : StreamInv σ' r s := by
  have hpending : Pending σ r s → Pending σ' r s := fun hp =>
    ⟨hsame.streams ▸ hp.registered, hsame.nghttp2 ▸ hp.opening, hsame.driverExited ▸ hp.running,
      hp.final, hp.responded, hp.closed, hsame.contexts ▸ hp.status, hsame.contexts ▸ hp.fields⟩
  unfold StreamInv Abandoned at *
  rw [hsame.requests, hsame.contexts, hsame.nghttp2, hsame.driverExited]
  split at h <;> simp_all

/-! ## One step of a coroutine -/

private theorem streamInv_submit (hstate : StreamState σ r s) (hcond : σ.driverExited = false)
    (hstep : σ.step (.submit s) = some σ') : StreamInv σ' r s := by
  obtain ⟨⟨hnone, -⟩, ⟨⟩⟩ := Option.ite_none_right_eq_some.mp hstep
  obtain ⟨-, rfl⟩ := hstate.fresh hnone
  simp only [StreamInv, Http2Session.setRequest, Http2Session.setNghttp2, Function.update_self]
  exact ⟨by simp, by simp, by simp [hcond], rfl, rfl, rfl, by simp [parsedStatus],
    by simp [regularFields]⟩

private theorem streamInv_flushed (hs : StreamInv σ r s) (hstep : σ.step (.flushed s) = some σ') :
    StreamInv σ' r s := by
  obtain ⟨hphase, ⟨⟩⟩ := Option.ite_none_right_eq_some.mp hstep
  simp only [StreamInv, hphase] at hs
  -- the waker is installed; nothing has happened to the stream so far
  simp only [StreamInv, Http2Session.setRequest, Function.update_self]
  exact ⟨⟨hs.registered, hs.opening, hs.running, hs.final, hs.responded, hs.closed,
    by simpa using hs.status, by simpa using hs.fields⟩, by simp⟩

private theorem streamInv_flushFailed (hs : StreamInv σ r s)
    (hstep : σ.step (.flushFailed s) = some σ') : StreamInv σ' r s := by
  obtain ⟨hphase, ⟨⟩⟩ := Option.ite_none_right_eq_some.mp hstep
  simp only [StreamInv, hphase] at hs
  simp [StreamInv, makeErrResult, Abandoned, hs.final, hs.opening]

/-- What a posted request returns. -/
private theorem finish_of_final {ctx : Http2StreamContext} {code : Nat} {hs : List HttpHeader}
    (hstatus : ctx.statusCode = code) (hfields : ctx.headers = hs) (s : StreamId) :
    ctx.finish s true = .ok ⟨s, code, hs⟩ := by
  have hne : ((code : Int) = -1) = False := by simp
  simp [Http2StreamContext.finish, hstatus, hne, hfields]

private theorem streamInv_resume (hs : StreamInv σ r s) (hstep : σ.step (.resume s) = some σ') :
    StreamInv σ' r s := by
  obtain ⟨success, hphase, hreturned⟩ := step_resume hstep
  simp only [StreamInv, hphase] at hs
  cases success with
  | false =>
    rcases hreturned with ⟨e, -, rfl⟩ | ⟨response, hok, rfl⟩
    · simpa [StreamInv, Abandoned] using hs
    · simp [Http2StreamContext.finish, makeErrResult] at hok
  | true =>
    obtain ⟨code, fields, hfinal, hstatus, hfields⟩ := hs
    rw [finish_of_final hstatus hfields] at hreturned
    rcases hreturned with ⟨e, he, rfl⟩ | ⟨response, hok, rfl⟩
    · cases he
    · obtain rfl := Except.ok.inj hok
      simp [StreamInv, hfinal]

/-- A response that has been handed over stays what it is, whatever happens to its stream. -/
private theorem StreamInv.handedOver {r' : Received} (h : StreamInv σ r s)
    (hphase : σ.requests s = some (.resumed true) ∨ ∃ response, σ.requests s = some (.returned (.ok
      response)))
    (hreq : σ'.requests s = σ.requests s)
    (hstatus : (σ'.contexts s).statusCode = (σ.contexts s).statusCode)
    (hheaders : (σ'.contexts s).headers = (σ.contexts s).headers) (hfinal : r'.final = r.final) :
    StreamInv σ' r' s := by
  rcases hphase with hphase | ⟨response, hphase⟩
  · simp only [StreamInv, hreq, hphase, hstatus, hheaders, hfinal] at h ⊢
    exact h
  · simp only [StreamInv, hreq, hphase, hfinal] at h ⊢
    exact h

private theorem streamInv_bodyFull {c : CallId} (hs : StreamInv σ r s)
    (hstep : σ.step (.bodyFull c s) = some σ') :
    StreamInv σ' r s := by
  obtain ⟨response, hphase, -, rfl⟩ := step_bodyFull hstep
  unfold Http2Session.bodyFull
  split <;> [split; skip] <;>
    exact hs.handedOver (.inr ⟨response, hphase⟩) rfl (by simp) (by simp) rfl

private theorem streamInv_bodyResume {c : CallId} (hstate : StreamState σ r s)
    (hs : StreamInv σ r s) (hc : streamOf σ (.bodyResume c) = some s)
    (hstep : σ.step (.bodyResume c) = some σ') :
    StreamInv σ' r s := by
  obtain ⟨data, hcall, rfl⟩ := step_bodyResume hc hstep
  obtain ⟨response, hphase⟩ := hstate.call c _ hcall
  exact hs.handedOver (.inr ⟨response, hphase⟩) rfl rfl rfl rfl

/-! ## One callback -/

/-- `on_header_callback` appends to the block of a response that is still to come, and does not
    touch a response that has been handed over. -/
private theorem streamInv_onHeader {name value : List UInt8} (hs : StreamInv σ r s)
    (hcond : σ.requests s ≠ some (.resumed true))
    (hstep : σ.step (.onHeader s name value) = some σ') :
    StreamInv σ' { r with block := r.block ++ [⟨name, value⟩] } s := by
  obtain ⟨-, ⟨⟩⟩ := Option.ite_none_right_eq_some.mp hstep
  have hpending : Pending σ r s →
      Pending (σ.setContext s ((σ.contexts s).onHeader name value))
        { r with block := r.block ++ [⟨name, value⟩] } s := by
    intro hp
    obtain ⟨hstatus, hfields⟩ := onHeader_fields hp.status hp.fields name value
    exact ⟨hp.registered, hp.opening, hp.running, hp.final, hp.responded, hp.closed,
      by simpa using hstatus, by simpa using hfields⟩
  unfold StreamInv at hs
  split at hs
  case h_2 =>
    rw [if_pos hs.registered]
    simp_all [StreamInv]
  case h_3 =>
    rw [if_pos hs.1.registered]
    simp_all [StreamInv]
  case h_4 => contradiction
  all_goals
    split <;> simp_all [StreamInv, Abandoned]

/-- The response arrives while its request waits for it. -/
private theorem streamInv_onResponse (hs : StreamInv σ r s)
    (hphase : σ.requests s = some .suspended) (hblock : (finalResponse r.block).isSome = true)
    (hstep : σ.step (.onFrameRecv s .response) = some σ') :
    StreamInv σ' (r.next s (.onFrameRecv s .response)) s := by
  obtain ⟨-, ⟨⟩⟩ := Option.ite_none_right_eq_some.mp hstep
  obtain ⟨⟨code, fields⟩, hblock⟩ := Option.isSome_iff_exists.mp hblock
  obtain ⟨hstatus, hfields⟩ := finalResponse_eq hblock
  simp only [StreamInv, hphase] at hs
  obtain ⟨hp, hwaker⟩ := hs
  -- the waker is installed, so the request is posted with the block just received
  simp only [Http2Session.onFrameRecv, hp.registered, decide_true, Bool.and_true, if_true]
  simp [StreamInv, Received.next, hwaker, hp.final, hblock, hp.status, hp.fields, hstatus, hfields]

/-- On an open stream the response has been handed over. -/
private theorem StreamInv.opened (hstate : StreamState σ r s) (h : StreamInv σ r s)
    (hng : σ.nghttp2 s = .opened) (hrun : σ.driverExited = false) :
    (σ.requests s = some (.resumed true) ∨
      ∃ response, σ.requests s = some (.returned (.ok response))) ∧ r.final.isSome = true := by
  unfold StreamInv at h
  split at h
  case h_1 hnone => simp [(hstate.fresh hnone).1] at hng
  case h_2 => exact absurd (hng.symm.trans h.opening) (by simp)
  case h_3 => exact absurd (hng.symm.trans h.1.opening) (by simp)
  case h_4 =>
    obtain ⟨code, hs, hfinal, -⟩ := h
    simp_all
  case h_5 =>
    obtain ⟨code, hs, hfinal, -⟩ := h
    simp_all
  all_goals simp [Abandoned, hng, hrun] at h

private theorem streamInv_onTrailers (hstate : StreamState σ r s) (hs : StreamInv σ r s)
    (hstep : σ.step (.onFrameRecv s .headers) = some σ') :
    StreamInv σ' (r.next s (.onFrameRecv s .headers)) s := by
  obtain ⟨⟨hrun, hng⟩, ⟨⟩⟩ := Option.ite_none_right_eq_some.mp hstep
  obtain ⟨hphase, hfinal⟩ := hs.opened hstate (by simpa using hng) (by simpa using hrun)
  exact hs.handedOver hphase rfl rfl rfl (by simp [Received.next, hfinal])

private theorem streamInv_onDataChunkRecv {data : List UInt8} (hstate : StreamState σ r s)
    (hs : StreamInv σ r s) (hstep : σ.step (.onDataChunkRecv s data) = some σ') :
    StreamInv σ' { r with data := r.data ++ data } s := by
  obtain ⟨⟨hrun, hng⟩, ⟨⟩⟩ := Option.ite_none_right_eq_some.mp hstep
  obtain ⟨hphase, hfinal⟩ := hs.opened hstate hng (by simpa using hrun)
  split <;> exact hs.handedOver hphase rfl (by simp) (by simp) rfl

/-- `on_stream_close_callback` wakes the request if its response is still to come. -/
private theorem streamInv_onStreamClose {errorCode : Nat} (hstate : StreamState σ r s)
    (hs : StreamInv σ r s) (hcond : σ.requests s ≠ some .flushing)
    (hstep : σ.step (.onStreamClose s errorCode) = some σ') :
    StreamInv σ' { r with closed := some errorCode } s := by
  obtain ⟨-, ⟨⟩⟩ := Option.ite_none_right_eq_some.mp hstep
  have hwaker : (σ.contexts s).headerWaker = true → σ.requests s = some .suspended :=
    hstate.headerWaker
  unfold StreamInv at hs
  split at hs
  case h_2 => contradiction
  case h_3 =>
    -- the only case in which the waker is installed
    simp_all [StreamInv, Http2Session.onStreamClose, hs.1.registered, hs.1.final, Abandoned]
  all_goals
    unfold Http2Session.onStreamClose
    split <;> simp_all [StreamInv, Abandoned]

private theorem streamInv_driverExit (hstate : StreamState σ r s) (hs : StreamInv σ r s)
    (hcond : σ.requests s ≠ some .flushing) :
    StreamInv σ.tearDown r s := by
  have hwaker : (σ.contexts s).headerWaker = true → σ.requests s = some .suspended :=
    hstate.headerWaker
  unfold StreamInv at hs
  split at hs
  case h_2 => contradiction
  case h_3 =>
    simp_all [StreamInv, Http2Session.tearDown, Abandoned, hs.1.registered, hs.1.final]
  all_goals
    by_cases hstr : σ.streams s = true <;>
      simp_all [StreamInv, Http2Session.tearDown, Abandoned]

/-! ## Whole runs -/

private theorem wakeupInv_initial : WakeupInv [] Http2Session.initial :=
  ⟨sessionInv_initial, fun s => by simp [StreamInv, Http2Session.initial]⟩

/-- An undisturbed step keeps the invariant at the stream it is about. -/
private theorem streamInv_step {h : List H2Label} {l : H2Label} (hinv : WakeupInv h σ)
    (hcond : Undisturbed h σ l) (hstep : σ.step l = some σ') (hl : streamOf σ l = some s) :
    StreamInv σ' ((received s h).next s l) s := by
  have hstate := hinv.session s
  have hs := hinv.stream s
  cases l with
  | driverExit => simp [streamOf] at hl
  | bodyResume c => exact streamInv_bodyResume hstate hs hl hstep
  | submit s =>
    obtain rfl := Option.some.inj hl
    exact streamInv_submit hstate hcond hstep
  | flushed s =>
    obtain rfl := Option.some.inj hl
    exact streamInv_flushed hs hstep
  | flushFailed s =>
    obtain rfl := Option.some.inj hl
    exact streamInv_flushFailed hs hstep
  | resume s =>
    obtain rfl := Option.some.inj hl
    exact streamInv_resume hs hstep
  | bodyFull c s =>
    obtain rfl := Option.some.inj hl
    exact streamInv_bodyFull hs hstep
  | onHeader s name value =>
    obtain rfl := Option.some.inj hl
    simp only [Received.next, if_true]
    exact streamInv_onHeader hs hcond hstep
  | onFrameRecv s cat =>
    obtain rfl := Option.some.inj hl
    cases cat with
    | response => exact streamInv_onResponse hs hcond.1 hcond.2 hstep
    | headers => exact streamInv_onTrailers hstate hs hstep
  | onDataChunkRecv s data =>
    obtain rfl := Option.some.inj hl
    simp only [Received.next, if_true]
    exact streamInv_onDataChunkRecv hstate hs hstep
  | onStreamClose s errorCode =>
    obtain rfl := Option.some.inj hl
    simp only [Received.next, if_true]
    exact streamInv_onStreamClose hstate hs hcond hstep

/-- One undisturbed step keeps the invariant. -/
private theorem wakeupInv_step (h : List H2Label) (σ : Http2Session) (l : H2Label)
    (σ' : Http2Session) (hinv : WakeupInv h σ) (hcond : Undisturbed h σ l)
    (hstep : σ.step l = some σ') : WakeupInv (h ++ [l]) σ' := by
  refine ⟨sessionInv_step hinv.session hstep, ?_⟩
  refine invariant_step (fun h σ s => StreamInv σ (received s h) s) hinv.session hstep hinv.stream
    ?_ ?_ ?_
  · intro s hs hsame hreceived _
    rw [hreceived]
    exact hs.congr hsame
  · intro s hl
    rw [received_concat]
    exact streamInv_step hinv hcond hstep hl
  · rintro s rfl - rfl
    rw [received_concat]
    exact streamInv_driverExit (hinv.session s) (hinv.stream s) (hcond s)

/-- A request whose final response has been received returns it. -/
private theorem StreamInv.outcome_eq {code : Nat} {hs : List HttpHeader} (h : StreamInv σ r s)
    (hfinal : r.final = some (code, hs)) :
    outcome σ s = some (.ok ⟨s, code, hs⟩) := by
  unfold StreamInv at h
  unfold outcome
  split at h
  case h_1 => simp [h] at hfinal
  case h_2 => simp [h.final] at hfinal
  case h_3 => simp [h.1.final] at hfinal
  case h_4 hphase =>
    obtain ⟨code', hs', hfinal', hstatus, hfields⟩ := h
    obtain ⟨rfl, rfl⟩ := Prod.mk.inj (Option.some.inj (hfinal.symm.trans hfinal'))
    simp [hphase, finish_of_final hstatus hfields]
  case h_5 response hphase =>
    obtain ⟨code', hs', hfinal', rfl⟩ := h
    obtain ⟨rfl, rfl⟩ := Prod.mk.inj (Option.some.inj (hfinal.symm.trans hfinal'))
    simp [hphase]
  all_goals simp [h.1] at hfinal

/-- Nothing that ends the wait has happened to a suspended request. -/
private theorem StreamInv.suspended (h : StreamInv σ r s)
      (hphase : σ.requests s = some .suspended) :
    r.responded = false ∧ r.closed = none ∧ σ.driverExited = false := by
  simp only [StreamInv, hphase] at h
  exact ⟨h.1.responded, h.1.closed, h.1.running⟩

/-- In every state that is reached, a request whose final response has been processed returns that
    status and those headers, and a request that is suspended on `header_waker` has neither its
    response nor the close of its stream nor the exit of the driver behind it. -/
theorem no_lost_wakeup (ls : List H2Label) (σ : Http2Session)
    (hundisturbed : Run.Along Http2Session.step Undisturbed [] Http2Session.initial ls)
    (hrun : Run.run Http2Session.step Http2Session.initial ls = some σ) (s : StreamId) :
    (∀ code hs, (received s ls).final = some (code, hs) →
        outcome σ s = some (.ok ⟨s, code, hs⟩)) ∧
      (σ.requests s = some .suspended →
        (received s ls).responded = false ∧ (received s ls).closed = none ∧
          σ.driverExited = false) := by
  have hinv : WakeupInv ls σ :=
    Run.invariant_of_run wakeupInv_step wakeupInv_initial hundisturbed hrun
  exact ⟨fun code hs => (hinv.stream s).outcome_eq, (hinv.stream s).suspended⟩

/-- Two requests on one session: the first one gets its response and is closed, the second one is
    reset while it waits. -/
def twoRequests : List H2Label :=
  [.submit 1, .submit 3, .flushed 3, .flushed 1, .onHeader 1 statusField [50, 48, 48],
    .onHeader 1 [101] [49], .onFrameRecv 1 .response, .onStreamClose 3 8, .onStreamClose 1 0,
    .resume 1]

theorem no_lost_wakeup_twoRequests :
    ∃ σ, Run.Along Http2Session.step Undisturbed [] Http2Session.initial twoRequests ∧
      Run.run Http2Session.step Http2Session.initial twoRequests = some σ ∧
      (received 1 twoRequests).final = some (200, [⟨[101], [49]⟩]) ∧
      outcome σ 1 = some (.ok ⟨1, 200, [⟨[101], [49]⟩]⟩) := by
  have halong : Run.Along Http2Session.step Undisturbed [] Http2Session.initial twoRequests := by
    refine .cons rfl rfl <| .cons rfl rfl <| .cons rfl trivial <| .cons rfl trivial <|
      .cons rfl ?_ <| .cons rfl ?_ <| .cons rfl ⟨rfl, by decide⟩ <| .cons rfl ?_ <|
      .cons rfl ?_ <| .cons rfl trivial trivial
    all_goals
      intro hphase
      cases hphase
  have hfinal : (received 1 twoRequests).final = some (200, [⟨[101], [49]⟩]) := by decide
  exact ⟨_, halong, rfl, hfinal, (no_lost_wakeup twoRequests _ halong rfl 1).1 _ _ hfinal⟩

/-- The driver processes the response while `request` is still in `flush_writes`.  The request then
    waits for a response that it already has, and when its stream is closed without error it
    fails. -/
theorem lost_wakeup :
    let answered : List H2Label :=
      [.submit 1, .onHeader 1 statusField [50, 48, 48], .onFrameRecv 1 .response, .flushed 1]
    let closed := answered ++ [.onStreamClose 1 0, .resume 1]
    (received 1 answered).final = some (200, []) ∧
      ((Run.run Http2Session.step Http2Session.initial answered).map fun σ => σ.requests 1) =
        some (some .suspended) ∧
      ((Run.run Http2Session.step Http2Session.initial closed).map fun σ => σ.requests 1) =
        some (some (.returned (makeErrResult .connectionAborted "Stream closed or failed"))) := by
  decide

end Ppnt.Spec
