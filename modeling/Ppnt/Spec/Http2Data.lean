import Ppnt.Spec.Http2Invariant

/-!
# Where the bytes of HTTP/2 bodies come from

The streams of an `Http2Session` share the session but not their buffers: whatever the order of
calls and callbacks, the bytes in the buffer of a stream, and the body that a `body_full` on it
gets, come from the DATA frames of that stream.
-/

namespace Ppnt.Spec

open Ppnt.Native

/-- The body a call has been given. -/
def callData : BodyPhase → List UInt8
  | .resumed data | .returned (.ok data) => data
  | .suspended | .returned (.error _) => []

/-- The bytes that a stream and the calls on it have come from the DATA frames of the stream. -/
structure DataInv (σ : Http2Session) (r : Received) (s : StreamId) : Prop where
  bodyBuffer : (σ.contexts s).bodyBuffer.Sublist r.data
  call : ∀ c phase, σ.bodies c = some (s, phase) → (callData phase).Sublist r.data

section Http2

variable {σ σ' : Http2Session} {r r' : Received} {s : StreamId}

theorem DataInv.congr (h : DataInv σ r s) (hsame : SameAt s σ σ') : DataInv σ' r s where
  bodyBuffer := hsame.contexts ▸ h.bodyBuffer
  call c phase hc := h.call c phase ((hsame.bodies c _).mp hc)

/-- Steps that leave the calls alone. -/
private theorem DataInv.quiet (h : DataInv σ r s)
    (hbuffer : (σ'.contexts s).bodyBuffer = (σ.contexts s).bodyBuffer)
    (hbodies : σ'.bodies = σ.bodies) (hdata : r'.data = r.data) : DataInv σ' r' s where
  bodyBuffer := by rw [hbuffer, hdata]; exact h.bodyBuffer
  call c phase hc := by rw [hdata]; exact h.call c phase (hbodies ▸ hc)

/-- Steps that set the phase of one call. -/
private theorem DataInv.setBody (h : DataInv σ r s) {c : CallId} {phase : BodyPhase}
    (hbuffer : (σ'.contexts s).bodyBuffer.Sublist r.data)
    (hbodies : σ'.bodies = Function.update σ.bodies c (some (s, phase)))
    (hphase : (callData phase).Sublist r.data) : DataInv σ' r s where
  bodyBuffer := hbuffer
  call c' phase' hc := by
    rw [hbodies, Function.update_apply] at hc
    split at hc
    · obtain ⟨-, rfl⟩ := Prod.mk.inj (Option.some.inj hc)
      exact hphase
    · exact h.call c' phase' hc

/-- A waker that is called passes on the buffer. -/
private theorem DataInv.woken (h : DataInv σ r s)
    (hbuffer : (σ'.contexts s).bodyBuffer = (σ.contexts s).bodyBuffer ∨
      (σ'.contexts s).bodyBuffer = [])
    (hbodies : ∀ c phase, σ'.bodies c = some (s, phase) →
      σ.bodies c = some (s, phase) ∨ phase = .resumed (σ.contexts s).bodyBuffer)
    (hdata : r'.data = r.data) : DataInv σ' r' s where
  bodyBuffer := by
    rw [hdata]
    rcases hbuffer with heq | heq
    · exact heq ▸ h.bodyBuffer
    · simp [heq]
  call c phase hc := by
    rw [hdata]
    rcases hbodies c phase hc with hold | rfl
    · exact h.call c phase hold
    · exact h.bodyBuffer

private theorem dataInv_onStreamClose (h : DataInv σ r s) (errorCode : Nat) :
    DataInv ((σ.onStreamClose s).setNghttp2 s .closed) { r with closed := some errorCode } s := by
  unfold Http2Session.onStreamClose
  split
  case isFalse => exact h.quiet rfl rfl rfl
  case isTrue =>
    refine h.woken ?_ (fun c phase hc => ?_) rfl
    · by_cases hw : (σ.contexts s).bodyWaker.isSome <;> simp [hw]
    · by_cases hw : (σ.contexts s).bodyWaker = some c
      · obtain rfl : .resumed (σ.contexts s).bodyBuffer = phase := by simpa [hw] using hc
        exact .inr rfl
      · exact .inl (by simpa [hw] using hc)

private theorem dataInv_tearDown (h : DataInv σ r s) : DataInv σ.tearDown r s := by
  refine h.woken ?_ (fun c phase hc => ?_) rfl
  · by_cases hs : σ.streams s = true
    · by_cases hw : (σ.contexts s).bodyWaker.isSome <;> simp [Http2Session.tearDown, hs, hw]
    · simp [Http2Session.tearDown, hs]
  · obtain ⟨old, hold, rfl⟩ := (tearDown_bodies σ c s phase).mp hc
    split
    · exact .inr rfl
    · exact .inl hold

private theorem dataInv_bodyFull (h : DataInv σ r s) (c : CallId) :
    DataInv (σ.bodyFull c s) r s := by
  unfold Http2Session.bodyFull
  split <;> [split; skip]
  · exact h.setBody (by simp) rfl h.bodyBuffer
  · exact h.setBody (by simpa using h.bodyBuffer) rfl (by simp [callData])
  · exact h.setBody h.bodyBuffer rfl (by simp [callData, makeErrResult])

/-- A body is made of the data of its stream, after each step about it. -/
private theorem dataInv_step {l : H2Label} (h : DataInv σ r s) (hstep : σ.step l = some σ')
    (hl : streamOf σ l = some s) : DataInv σ' (r.next s l) s := by
  cases l with
  | driverExit => simp [streamOf] at hl
  | bodyResume c =>
    obtain ⟨data, hcall, rfl⟩ := step_bodyResume hl hstep
    exact h.setBody h.bodyBuffer rfl (h.call c (.resumed data) hcall)
  | bodyFull c s' =>
    obtain rfl := Option.some.inj hl
    obtain ⟨_, -, -, rfl⟩ := step_bodyFull hstep
    exact dataInv_bodyFull h c
  | resume s' =>
    obtain rfl := Option.some.inj hl
    obtain ⟨_, -, ⟨_, -, rfl⟩ | ⟨_, -, rfl⟩⟩ := step_resume hstep
    · exact h.quiet (by simp) rfl rfl
    · exact h.quiet (by simp) rfl rfl
  | submit s' =>
    obtain rfl := Option.some.inj hl
    obtain ⟨-, ⟨⟩⟩ := Option.ite_none_right_eq_some.mp hstep
    exact ⟨by simp, h.call⟩
  | flushed s' | flushFailed s' =>
    obtain rfl := Option.some.inj hl
    obtain ⟨-, ⟨⟩⟩ := Option.ite_none_right_eq_some.mp hstep
    exact h.quiet (by simp) rfl rfl
  | onHeader s' name value =>
    obtain rfl := Option.some.inj hl
    obtain ⟨-, ⟨⟩⟩ := Option.ite_none_right_eq_some.mp hstep
    split <;> exact h.quiet (by simp) rfl (by simp [Received.next])
  | onFrameRecv s' cat =>
    obtain rfl := Option.some.inj hl
    obtain ⟨-, ⟨⟩⟩ := Option.ite_none_right_eq_some.mp hstep
    unfold Http2Session.onFrameRecv
    split <;> exact h.quiet (by simp) (by simp) (by simp [Received.next])
  | onDataChunkRecv s' data =>
    obtain rfl := Option.some.inj hl
    obtain ⟨-, ⟨⟩⟩ := Option.ite_none_right_eq_some.mp hstep
    have hdata : (r.next s' (.onDataChunkRecv s' data)).data = r.data ++ data := by
      simp [Received.next]
    constructor
    · rw [hdata]
      split
      · -- the stream is known: the chunk goes to its buffer
        simpa using h.bodyBuffer.append (List.Sublist.refl data)
      · exact h.bodyBuffer.trans (List.sublist_append_left _ _)
    · intro c phase hc
      rw [hdata]
      refine (h.call c phase ?_).trans (List.sublist_append_left _ _)
      split at hc <;> exact hc
  | onStreamClose s' errorCode =>
    obtain rfl := Option.some.inj hl
    obtain ⟨-, ⟨⟩⟩ := Option.ite_none_right_eq_some.mp hstep
    simpa [Received.next] using dataInv_onStreamClose h errorCode

end Http2

private theorem dataInvs_step (h : List H2Label) (σ : Http2Session) (l : H2Label)
    (σ' : Http2Session) (hinv : SessionInv h σ ∧ ∀ s, DataInv σ (received s h) s)
    (hstep : σ.step l = some σ') :
    SessionInv (h ++ [l]) σ' ∧ ∀ s, DataInv σ' (received s (h ++ [l])) s := by
  refine ⟨sessionInv_step hinv.1 hstep, ?_⟩
  refine invariant_step (fun h σ s => DataInv σ (received s h) s) hinv.1 hstep hinv.2 ?_ ?_ ?_
  · intro s hs hsame hreceived _
    rw [hreceived]
    exact hs.congr hsame
  · intro s hl
    rw [received_concat]
    exact dataInv_step (hinv.2 s) hstep hl
  · rintro s rfl - rfl
    rw [received_concat]
    exact dataInv_tearDown (hinv.2 s)

/-- What every run keeps: the bytes of a stream stay with it. -/
theorem dataInv_run {ls : List H2Label} {σ : Http2Session}
    (hrun : Run.run Http2Session.step Http2Session.initial ls = some σ) :
    SessionInv ls σ ∧ ∀ s, DataInv σ (received s ls) s := by
  have hinit : ∀ s, DataInv Http2Session.initial (received s []) s := by
    intro s
    constructor <;> simp [Http2Session.initial]
  exact Run.invariant_of_steps dataInvs_step ⟨sessionInv_initial, hinit⟩ hrun

end Ppnt.Spec
