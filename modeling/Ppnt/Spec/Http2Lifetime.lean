import Ppnt.ForStd.Run
import Ppnt.Native.Http2Driver

/-!
# When an HTTP/2 session may be destroyed

The destructor of `Http2Session` does not wait for the background driver.  `Life` says what a
session that is not destroyed can look like: nothing is in flight, a driver runs that `back_task_`
owns, or a `close_async` has taken the driver over and awaits it.
-/

namespace Ppnt.Spec

open Ppnt.Native H2Driver

/-- The frames when only `back_task_` owns one, of a driver that has ended. -/
def endedFrames (backTask : Option DriverId) : DriverId → Option DriverFrame :=
  fun d => if backTask = some d then some ⟨.finalSuspend, none⟩ else none

private theorem endedFrames_none : endedFrames none = fun _ => none := by
  funext d
  rw [endedFrames, if_neg (by simp)]

private theorem endedFrames_some (d : DriverId) :
    endedFrames (some d) = Function.update (endedFrames none) d (some ⟨.finalSuspend, none⟩) := by
  funext d'
  by_cases h : d' = d
  · rw [h, Function.update_self, endedFrames, if_pos rfl]
  · rw [Function.update_of_ne h, endedFrames, endedFrames, if_neg (by simpa using Ne.symm h),
      if_neg (by simp)]

/-- What is known of a session that has not been destroyed. -/
inductive Life (σ : H2Driver) : Prop where
  | quiet (inFlight : σ.inFlight = []) (frames : σ.frames = endedFrames σ.backTask)
      (closers : ∀ x d, σ.closers x ≠ some (.awaiting d))
      (closed : ∀ x, σ.closers x ≠ none → σ.shouldClose = true)
  | running (d : DriverId) (phase : DriverPhase) (unfinished : phase ≠ .finalSuspend)
      (inFlight : σ.inFlight = [d]) (backTask : σ.backTask = some d)
      (frames : σ.frames = Function.update (endedFrames none) d (some ⟨phase, none⟩))
      (closers : ∀ x, σ.closers x = none)
  | joining (x : CloserId) (d : DriverId) (phase : DriverPhase) (unfinished : phase ≠ .finalSuspend)
      (inFlight : σ.inFlight = [d]) (backTask : σ.backTask ≠ some d)
      (frames : σ.frames = Function.update (endedFrames σ.backTask) d (some ⟨phase, some x⟩))
      (closer : σ.closers x = some (.awaiting d))
      (others : ∀ y d', y ≠ x → σ.closers y ≠ some (.awaiting d'))
      (closed : σ.shouldClose = true)

/-- The invariant of a session that is alive. -/
structure DriverInv (σ : H2Driver) : Prop where
  alive : σ.alive = true
  no_fault : σ.fault = false
  life : Life σ
  fresh : ∀ d, σ.nextDriver ≤ d → σ.frames d = none

private theorem driverInv_initial : DriverInv initial :=
  ⟨rfl, rfl, .quiet rfl endedFrames_none.symm (by simp [initial]) (by simp [initial]),
    fun _ _ => rfl⟩

/-! ## Steps -/

section Steps

variable {σ : H2Driver}

/-- A frame that is not of `back_task_` has ended nowhere. -/
private theorem endedFrames_of_ne {backTask : Option DriverId} {d : DriverId}
    (h : backTask ≠ some d) : endedFrames backTask d = none := if_neg h

/-- The frame of a driver that has ended is destroyed. -/
private theorem endedFrames_destroy (d : DriverId) :
    Function.update (endedFrames (some d)) d none = endedFrames none := by
  rw [endedFrames_some, Function.update_idem, endedFrames_none]
  exact Function.update_eq_self d _

/-- The frame of a driver that nothing else owns is destroyed. -/
private theorem endedFrames_update_none {backTask : Option DriverId} {d : DriverId}
    (h : backTask ≠ some d) :
    Function.update (endedFrames backTask) d none = endedFrames backTask := by
  rw [← endedFrames_of_ne h]
  exact Function.update_eq_self d _

private theorem inv_close (h : DriverInv σ) : DriverInv σ.closeConnection where
  alive := h.alive
  no_fault := h.no_fault
  fresh := h.fresh
  life := by
    cases h.life with
    | quiet hflight hframes hclosers _ => exact .quiet hflight hframes hclosers fun _ _ => rfl
    | running d phase hphase hflight hback hframes hclosers =>
      exact .running d phase hphase hflight hback hframes hclosers
    | joining x d phase hphase hflight hback hframes hcloser hothers _ =>
      exact .joining x d phase hphase hflight hback hframes hcloser hothers rfl

/-- A driver is started only if there is none. -/
private theorem inv_ensureBackgroundDriver (h : DriverInv σ) :
    DriverInv σ.ensureBackgroundDriver := by
  cases hback : σ.backTask with
  | some d =>
    rw [ensureBackgroundDriver, hback]
    exact h
  | none =>
    have hnew : σ.frames σ.nextDriver = none := h.fresh _ le_rfl
    have hfresh : ∀ frame d, σ.nextDriver + 1 ≤ d →
        Function.update σ.frames σ.nextDriver frame d = none := by
      intro frame d hd
      rw [Function.update_of_ne (Nat.ne_of_gt hd)]
      exact h.fresh d (Nat.le_of_succ_le hd)
    rw [ensureBackgroundDriver, hback]
    cases hclose : σ.shouldClose with
    | true =>
      -- the new driver ends at once
      rw [loop, if_pos hclose]
      refine ⟨h.alive, h.no_fault, ?_, hfresh _⟩
      cases h.life with
      | quiet hflight hframes hclosers _ =>
        refine .quiet hflight ?_ hclosers fun _ _ => hclose
        change Function.update σ.frames _ _ = _
        rw [hframes, hback]
        exact (endedFrames_some _).symm
      | running d phase _ _ hback' _ _ => exact absurd (hback.symm.trans hback') (by simp)
      | joining x d phase hphase hflight _ hframes hcloser hothers hclosed =>
        have hne : σ.nextDriver ≠ d := by
          rintro hd
          rw [hframes, hd, Function.update_self] at hnew
          cases hnew
        refine .joining x d phase hphase hflight (by simpa using hne) ?_ hcloser hothers hclosed
        change Function.update σ.frames _ _ = _
        rw [hframes, hback, Function.update_comm hne.symm]
        exact congrArg (Function.update · d _) (endedFrames_some _).symm
    | false =>
      rw [loop, if_neg (by simp [hclose])]
      refine ⟨h.alive, h.no_fault, ?_, hfresh _⟩
      cases h.life with
      | quiet hflight hframes _ hclosed =>
        refine .running σ.nextDriver .reading (by simp) ?_ rfl ?_ fun x => ?_
        · change σ.inFlight ++ _ = _
          rw [hflight]
          rfl
        · change Function.update σ.frames _ _ = _
          rw [hframes, hback]
        · by_contra hx
          exact absurd (hclosed x hx) (by simp [hclose])
      | running d phase _ _ hback' _ _ => exact absurd (hback.symm.trans hback') (by simp)
      | joining _ _ _ _ _ _ _ _ _ hclosed => exact absurd hclosed (by simp [hclose])

/-- A call that returns at once. -/
private theorem closers_returned {closers : CloserId → Option CloseCall} {x y : CloserId}
    {d : DriverId} (h : closers y ≠ some (.awaiting d)) :
    Function.update closers x (some .returned) y ≠ some (.awaiting d) := by
  by_cases hy : y = x
  · rw [hy, Function.update_self]
    simp
  · rwa [Function.update_of_ne hy]

/-- `close_async` takes the driver over, if there is one that has not been taken over. -/
private theorem inv_joinDriver (h : DriverInv σ) (hclosed : σ.shouldClose = true) {x : CloserId}
    (hx : σ.closers x = none) : DriverInv (σ.joinDriver x) := by
  cases h.life with
  | quiet hflight hframes hclosers _ =>
    cases hback : σ.backTask with
    | none =>
      rw [joinDriver, hback]
      refine ⟨h.alive, h.no_fault, ?_, h.fresh⟩
      refine .quiet hflight hframes ?_ fun _ _ => hclosed
      exact fun y d => closers_returned (hclosers y d)
    | some d =>
      -- the driver has ended: its frame is destroyed, and nobody waits
      have hframe : σ.frames d = some ⟨.finalSuspend, none⟩ := by
        rw [hframes, hback, endedFrames, if_pos rfl]
      rw [joinDriver, hback]
      simp only [hframe, if_true]
      refine ⟨h.alive, h.no_fault, ?_, ?_⟩
      · refine .quiet hflight ?_ (fun y d => closers_returned (hclosers y d)) fun _ _ => hclosed
        change Function.update σ.frames d none = _
        rw [hframes, hback]
        exact endedFrames_destroy d
      · intro d' hd'
        change Function.update σ.frames d none d' = none
        by_cases hd : d' = d
        · rw [hd, Function.update_self]
        · rw [Function.update_of_ne hd]
          exact h.fresh d' hd'
  -- the driver is awaited, and `close_async` with it
  | running d phase hphase hflight hback hframes hclosers =>
    have hframe : σ.frames d = some ⟨phase, none⟩ := by rw [hframes, Function.update_self]
    rw [joinDriver, hback]
    simp only [hframe, hphase, if_false]
    refine ⟨h.alive, h.no_fault, ?_, ?_⟩
    · refine .joining x d phase hphase hflight (by simp [setCloser, setFrame]) ?_ ?_ ?_ hclosed
      · change Function.update σ.frames d _ = _
        rw [hframes, Function.update_idem]
        rfl
      · exact Function.update_self ..
      · intro y d' hy
        change Function.update σ.closers x _ y ≠ _
        rw [Function.update_of_ne hy, hclosers y]
        simp
    · intro d' hd'
      change Function.update σ.frames d _ d' = none
      have hd : d' ≠ d := by
        rintro rfl
        rw [h.fresh d' hd'] at hframe
        cases hframe
      rw [Function.update_of_ne hd]
      exact h.fresh d' hd'
  -- an earlier `close_async` still waits for its own driver `d`
  | joining x' d phase hphase hflight hne hframes hcloser hothers _ =>
    have hxx' : x' ≠ x := by
      rintro rfl
      rw [hx] at hcloser
      cases hcloser
    have hcloser' : Function.update σ.closers x (some .returned) x' = some (.awaiting d) := by
      rw [Function.update_of_ne hxx', hcloser]
    cases hback : σ.backTask with
    | none =>
      rw [joinDriver, hback]
      refine ⟨h.alive, h.no_fault, ?_, h.fresh⟩
      refine .joining x' d phase hphase hflight hne hframes hcloser' ?_ hclosed
      exact fun y d' hy => closers_returned (hothers y d' hy)
    | some d₂ =>
      have hd₂ : d₂ ≠ d := fun hd => hne (hback.trans (congrArg some hd))
      have hframe : σ.frames d₂ = some ⟨.finalSuspend, none⟩ := by
        rw [hframes, Function.update_of_ne hd₂, hback, endedFrames, if_pos rfl]
      rw [joinDriver, hback]
      simp only [hframe, if_true]
      refine ⟨h.alive, h.no_fault, ?_, ?_⟩
      · refine .joining x' d phase hphase hflight (by simp [setCloser, setFrame]) ?_ hcloser'
          (fun y d' hy => closers_returned (hothers y d' hy)) hclosed
        change Function.update σ.frames d₂ none = _
        rw [hframes, hback, Function.update_comm hd₂.symm]
        exact congrArg (Function.update · d _) (endedFrames_destroy d₂)
      · intro d' hd'
        change Function.update σ.frames d₂ none d' = none
        by_cases hd : d' = d₂
        · rw [hd, Function.update_self]
        · rw [Function.update_of_ne hd]
          exact h.fresh d' hd'

end Steps

/-! ## The driver goes on -/

/-- Who waits for a driver that runs. -/
inductive Waited (σ : H2Driver) (d : DriverId) (parent : Option CloserId) : Prop where
  | owned (unawaited : parent = none) (backTask : σ.backTask = some d)
      (closers : ∀ x, σ.closers x = none)
  | joined (x : CloserId) (awaited : parent = some x) (backTask : σ.backTask ≠ some d)
      (closer : σ.closers x = some (.awaiting d))
      (others : ∀ y d', y ≠ x → σ.closers y ≠ some (.awaiting d')) (closed : σ.shouldClose = true)

/-- A session whose driver runs: it is not in flight. -/
structure Resumed (σ : H2Driver) (d : DriverId) (frame : DriverFrame) : Prop where
  alive : σ.alive = true
  no_fault : σ.fault = false
  inFlight : σ.inFlight = []
  frames : σ.frames = Function.update
    (endedFrames (if σ.backTask = some d then none else σ.backTask)) d (some frame)
  waited : Waited σ d frame.parent
  fresh : ∀ d, σ.nextDriver ≤ d → σ.frames d = none

section Resumed

variable {σ : H2Driver} {d : DriverId} {frame : DriverFrame}

private theorem Resumed.fresh_update (h : Resumed σ d frame) (frame' : Option DriverFrame)
    {d' : DriverId} (hd' : σ.nextDriver ≤ d') : Function.update σ.frames d frame' d' = none := by
  have hne : d' ≠ d := by
    rintro rfl
    have hnone := h.fresh d' hd'
    rw [h.frames, Function.update_self] at hnone
    cases hnone
  rw [Function.update_of_ne hne]
  exact h.fresh d' hd'

/-- The driver ends: it resumes who awaits it, or waits to be destroyed. -/
theorem Resumed.finish (h : Resumed σ d frame) : DriverInv (σ.finish d frame) := by
  cases h.waited with
  | owned hparent hback hclosers =>
    rw [H2Driver.finish, hparent]
    refine ⟨h.alive, h.no_fault, ?_, fun d' => h.fresh_update _⟩
    refine .quiet h.inFlight ?_ (fun x _ => ?_) fun x hx => absurd (hclosers x) hx
    · change Function.update σ.frames d (some ⟨.finalSuspend, none⟩) = endedFrames σ.backTask
      rw [h.frames, if_pos hback, Function.update_idem, hback, endedFrames_some]
    · change σ.closers x ≠ _
      rw [hclosers x]
      simp
  | joined x hparent hback hcloser hothers hclosed =>
    rw [H2Driver.finish, hparent]
    refine ⟨h.alive, h.no_fault, ?_, fun d' => h.fresh_update _⟩
    refine .quiet h.inFlight ?_ (fun y d' => ?_) fun _ _ => hclosed
    · change Function.update σ.frames d none = endedFrames σ.backTask
      rw [h.frames, if_neg hback, Function.update_idem]
      exact endedFrames_update_none hback
    · change Function.update σ.closers x (some .returned) y ≠ _
      by_cases hy : y = x
      · rw [hy, Function.update_self]
        simp
      · rw [Function.update_of_ne hy]
        exact hothers y d' hy

theorem Resumed.suspend (h : Resumed σ d frame) {phase : DriverPhase}
    (hphase : phase ≠ .finalSuspend) : DriverInv (σ.suspend d frame phase) := by
  have hflight : (σ.suspend d frame phase).inFlight = [d] := by
    change σ.inFlight ++ [d] = [d]
    rw [h.inFlight]
    rfl
  refine ⟨h.alive, h.no_fault, ?_, fun d' => h.fresh_update _⟩
  cases h.waited with
  | owned hparent hback hclosers =>
    refine .running d phase hphase hflight hback ?_ hclosers
    change Function.update σ.frames d (some ⟨phase, frame.parent⟩) = _
    rw [h.frames, if_pos hback, Function.update_idem, hparent]
  | joined x hparent hback hcloser hothers hclosed =>
    refine .joining x d phase hphase hflight hback ?_ hcloser hothers hclosed
    change Function.update σ.frames d (some ⟨phase, frame.parent⟩) =
      Function.update (endedFrames σ.backTask) d _
    rw [h.frames, if_neg hback, Function.update_idem, hparent]

theorem Resumed.loop (h : Resumed σ d frame) : DriverInv (σ.loop d frame) := by
  rw [H2Driver.loop]
  split
  case isTrue => exact h.finish
  case isFalse => exact h.suspend (by simp)

theorem Resumed.giveUp (h : Resumed σ d frame) : DriverInv (σ.giveUp d frame) := by
  apply Resumed.finish
  refine ⟨h.alive, h.no_fault, h.inFlight, h.frames, ?_, h.fresh⟩
  cases h.waited with
  | owned hparent hback hclosers => exact .owned hparent hback hclosers
  | joined x hparent hback hcloser hothers _ => exact .joined x hparent hback hcloser hothers rfl

theorem Resumed.flush (h : Resumed σ d frame) (wantsWrite : Bool) :
    DriverInv (σ.flush d frame wantsWrite) := by
  rw [H2Driver.flush]
  split
  case isTrue => exact h.suspend (by simp)
  case isFalse => exact h.loop

theorem Resumed.resume (h : Resumed σ d frame) (input : DriverInput) :
    DriverInv (σ.resume d frame input) := by
  cases input with
  | readFailed | readEof => exact h.giveUp
  | received recvFailed wantsWrite =>
    cases recvFailed with
    | true => exact h.giveUp
    | false => exact h.flush wantsWrite
  | writeFailed => exact h.giveUp
  | written wantsWrite => exact h.flush wantsWrite

end Resumed

section Run

variable {σ σ' : H2Driver}

/-- What is in flight is a driver that can go on. -/
private theorem resumed_of_inFlight (h : DriverInv σ) {d : DriverId} (hd : d ∈ σ.inFlight) :
    ∃ frame, σ.frames d = some frame ∧
      Resumed { σ with inFlight := σ.inFlight.erase d } d frame := by
  cases h.life with
  | quiet hflight _ _ _ =>
    rw [hflight] at hd
    exact absurd hd List.not_mem_nil
  -- one driver is in flight at most
  | running d' phase _ hflight hback hframes hclosers =>
    rw [hflight, List.mem_singleton] at hd
    subst hd
    refine ⟨⟨phase, none⟩, by rw [hframes, Function.update_self], h.alive, h.no_fault, ?_, ?_, ?_,
      h.fresh⟩
    · change σ.inFlight.erase d = []
      rw [hflight, List.erase_cons_head]
    · change σ.frames =
        Function.update (endedFrames (if σ.backTask = some d then none else σ.backTask)) d _
      rw [if_pos hback, hframes]
    · exact .owned rfl hback hclosers
  | joining x d' phase _ hflight hback hframes hcloser hothers hclosed =>
    rw [hflight, List.mem_singleton] at hd
    subst hd
    refine ⟨⟨phase, some x⟩, by rw [hframes, Function.update_self], h.alive, h.no_fault, ?_, ?_, ?_,
      h.fresh⟩
    · change σ.inFlight.erase d = []
      rw [hflight, List.erase_cons_head]
    · change σ.frames =
        Function.update (endedFrames (if σ.backTask = some d then none else σ.backTask)) d _
      rw [if_neg hback, hframes]
    · exact .joined x rfl hback hcloser hothers hclosed

/-- A completion resumes the driver. -/
private theorem complete_eq (h : DriverInv σ) {d : DriverId} {input : DriverInput}
    (hstep : step σ (.complete d input) = some σ') :
    ∃ frame, Resumed { σ with inFlight := σ.inFlight.erase d } d frame ∧ input.phase = frame.phase ∧
      σ' = { σ with inFlight := σ.inFlight.erase d }.resume d frame input := by
  rw [step, if_neg (by simp [h.no_fault]), act] at hstep
  split at hstep
  case isFalse => cases hstep
  case isTrue hd =>
    obtain ⟨frame, hframe, hresumed⟩ := resumed_of_inFlight h hd
    simp only [hframe] at hstep
    split at hstep
    case isTrue => cases hstep
    case isFalse hphase =>
      rw [if_pos h.alive] at hstep
      exact ⟨frame, hresumed, not_not.mp hphase, (Option.some.inj hstep).symm⟩

/-- A step that does not destroy the session keeps the invariant. -/
private theorem inv_step (h : DriverInv σ) {l : DriverLabel} (hl : l ≠ .destroy)
    (hstep : step σ l = some σ') : DriverInv σ' := by
  have hact := hstep
  rw [step, if_neg (by simp [h.no_fault])] at hact
  cases l with
  | request =>
    rw [act, if_pos h.alive] at hact
    obtain rfl := Option.some.inj hact
    exact inv_ensureBackgroundDriver h
  | close =>
    rw [act, if_pos h.alive] at hact
    obtain rfl := Option.some.inj hact
    exact inv_close h
  | closeAsync x =>
    rw [act] at hact
    split at hact
    case isFalse => cases hact
    case isTrue hcall =>
      obtain rfl := Option.some.inj hact
      exact inv_joinDriver (inv_close h) rfl hcall.2
  | complete d input =>
    obtain ⟨frame, hresumed, -, rfl⟩ := complete_eq h hstep
    exact hresumed.resume input
  | destroy => exact absurd rfl hl

/-- A session that is destroyed stays so. -/
private theorem dead_of_step {l : DriverLabel} (hdead : σ.alive = false)
    (hstep : step σ l = some σ') : σ'.alive = false := by
  rw [step] at hstep
  split at hstep
  case isTrue => cases hstep
  case isFalse =>
    cases l with
    | request | close | closeAsync x | destroy => simp [act, hdead] at hstep
    | complete d input =>
      rw [act] at hstep
      split at hstep
      case isFalse => cases hstep
      case isTrue =>
        cases hframe : σ.frames d with
        | none =>
          simp only [hframe] at hstep
          exact Option.some.inj hstep ▸ hdead
        | some frame =>
          simp only [hframe, hdead, Bool.false_eq_true, if_false] at hstep
          split at hstep
          case isTrue => cases hstep
          case isFalse => exact Option.some.inj hstep ▸ rfl

private theorem step_destroy (h : DriverInv σ) : step σ .destroy = some σ.destructor := by
  rw [step, if_neg (by simp [h.no_fault]), act, if_pos h.alive]

/-- As long as the session is there, the invariant holds. -/
private theorem driverInv_of_run {ls : List DriverLabel} (hrun : Run.run step initial ls = some σ)
    (halive : σ.alive = true) : DriverInv σ := by
  have hkeep : ∀ (σ : H2Driver) l σ', (σ.alive = true → DriverInv σ) → step σ l = some σ' →
      (σ'.alive = true → DriverInv σ') := by
    intro σ l σ' hinv hstep halive'
    cases hσ : σ.alive with
    | false =>
      rw [dead_of_step hσ hstep] at halive'
      cases halive'
    | true =>
      have h := hinv hσ
      by_cases hl : l = .destroy
      · rw [hl, step_destroy h] at hstep
        rw [← Option.some.inj hstep] at halive'
        cases halive'
      · exact inv_step h hl hstep
  exact Run.stateInvariant_of_run hkeep (fun _ => driverInv_initial) hrun halive

/-! ## Destruction -/

/-- One driver at most waits for the kernel. -/
private theorem DriverInv.length_inFlight (h : DriverInv σ) : σ.inFlight.length ≤ 1 := by
  cases h.life with
  | quiet hflight _ _ _ | running _ _ _ hflight _ _ _ | joining _ _ _ _ hflight _ _ _ _ _ =>
    simp [hflight]

/-- Once `close_async` has been called, whoever waits for a driver is one of its calls. -/
private theorem DriverInv.inFlight_of_returned (h : DriverInv σ) {x : CloserId}
    (hcalled : σ.closers x ≠ none)
    (hreturned : ∀ y d, σ.closers y ≠ some (.awaiting d)) : σ.inFlight = [] := by
  cases h.life with
  | quiet hflight _ _ _ => exact hflight
  | running _ _ _ _ _ _ hclosers => exact absurd (hclosers x) hcalled
  | joining y d _ _ _ _ _ hcloser _ _ => exact absurd hcloser (hreturned y d)

/-- A driver in flight is suspended in an operation. -/
private theorem exists_input {phase : DriverPhase} (h : phase ≠ .finalSuspend) :
    ∃ input : DriverInput, input.phase = phase := by
  cases phase with
  | reading => exact ⟨.readEof, rfl⟩
  | writing => exact ⟨.writeFailed, rfl⟩
  | finalSuspend => exact absurd rfl h

/-- A driver in flight is resumed behind the destructor. -/
private theorem destroyed_faults (h : DriverInv σ) (hflight : σ.inFlight ≠ []) :
    ∃ d input, Run.run step σ [.destroy, .complete d input] =
      some { σ.destructor with inFlight := [], fault := true } := by
  have hfault : σ.destructor.fault = false := h.no_fault
  cases h.life with
  | quiet hnone _ _ _ => exact absurd hnone hflight
  | running d phase hphase hone hback hframes _ =>
    -- the frame is gone
    have hframe : σ.destructor.frames d = none := if_pos hback
    have hone' : σ.destructor.inFlight = [d] := hone
    refine ⟨d, .readEof, ?_⟩
    rw [Run.run, step_destroy h, Option.bind_some]
    simp [Run.run, step, act, hfault, hone', hframe]
  | joining x d phase hphase hone hback hframes _ _ _ =>
    -- the frame is there, but the session is not
    obtain ⟨input, hinput⟩ := exists_input hphase
    have hframe : σ.destructor.frames d = some ⟨phase, some x⟩ := by
      change (if σ.backTask = some d then none else σ.frames d) = _
      rw [if_neg hback, hframes, Function.update_self]
    have hone' : σ.destructor.inFlight = [d] := hone
    have hdead : σ.destructor.alive = false := rfl
    refine ⟨d, input, ?_⟩
    rw [Run.run, step_destroy h, Option.bind_some]
    simp [Run.run, step, act, hfault, hone', hframe, hinput, hdead]

/-- With nothing in flight nothing happens behind the destructor. -/
private theorem destroyed_stops (h : DriverInv σ) (hflight : σ.inFlight = [])
    {ls : List DriverLabel}
    (hrun : Run.run step σ (.destroy :: ls) = some σ') : σ'.fault = false := by
  obtain ⟨σ₁, h₁, hrest⟩ := Option.bind_eq_some_iff.mp hrun
  rw [step_destroy h] at h₁
  obtain rfl := Option.some.inj h₁
  cases ls with
  | nil =>
    obtain rfl := Option.some.inj hrest
    exact h.no_fault
  | cons l ls =>
    obtain ⟨σ₂, h₂, -⟩ := Option.bind_eq_some_iff.mp hrest
    cases l <;> simp [step, act, destructor, closeConnection, hflight, h.no_fault] at h₂

private theorem finish_frames (σ : H2Driver) (d : DriverId) (frame : DriverFrame) :
    ∃ last, (σ.finish d frame).frames = Function.update σ.frames d last ∧
      ∀ f ∈ last, f.phase = .finalSuspend := by
  rw [finish]
  split
  · exact ⟨_, rfl, by simp⟩
  · exact ⟨none, rfl, by simp⟩

/-- Once the session is to close, a driver that goes on does not read again. -/
private theorem resume_frames {d : DriverId} (frame : DriverFrame) (input : DriverInput)
    (hclosed : σ.shouldClose = true) :
    ∃ next, (σ.resume d frame input).frames = Function.update σ.frames d next ∧
      ∀ f ∈ next, f.phase ≠ .reading := by
  have hfinish : ∀ σ₁ : H2Driver, σ₁.frames = σ.frames →
      ∃ next, (σ₁.finish d frame).frames = Function.update σ.frames d next ∧
        ∀ f ∈ next, f.phase ≠ .reading := by
    intro σ₁ hσ₁
    obtain ⟨last, hlast, hphase⟩ := finish_frames σ₁ d frame
    refine ⟨last, by rw [hlast, hσ₁], fun f hf => ?_⟩
    rw [hphase f hf]
    simp
  have hflush : ∀ wantsWrite, ∃ next,
      (σ.flush d frame wantsWrite).frames = Function.update σ.frames d next ∧
        ∀ f ∈ next, f.phase ≠ .reading := by
    intro wantsWrite
    rw [flush]
    split
    case isTrue => exact ⟨_, rfl, by simp⟩
    case isFalse =>
      -- `while (!should_close_)` ends
      rw [loop, if_pos hclosed]
      exact hfinish σ rfl
  cases input with
  | readFailed | readEof => exact hfinish _ rfl
  | received recvFailed wantsWrite =>
    cases recvFailed with
    | true => exact hfinish _ rfl
    | false => exact hflush wantsWrite
  | writeFailed => exact hfinish _ rfl
  | written wantsWrite => exact hflush wantsWrite

private theorem no_read_after_close (h : DriverInv σ) (hclosed : σ.shouldClose = true)
    {d : DriverId}
    {input : DriverInput} (hstep : step σ (.complete d input) = some σ') {d' : DriverId}
    {frame : DriverFrame} (hframe : σ'.frames d' = some frame) (hreading : frame.phase = .reading) :
    σ.frames d' = some frame := by
  obtain ⟨frame₀, -, -, rfl⟩ := complete_eq h hstep
  obtain ⟨next, hframes, hphase⟩ := resume_frames (σ := { σ with inFlight := σ.inFlight.erase d })
    (d := d) frame₀ input hclosed
  rw [hframes] at hframe
  by_cases hd : d' = d
  · rw [hd, Function.update_self] at hframe
    exact absurd hreading (hphase frame hframe)
  · rwa [Function.update_of_ne hd] at hframe

end Run

/-- Whatever has happened to a session: at most one driver is in flight, so at most one coroutine
    reads from the connection.  The destructor is safe if and only if none is, since a driver in
    flight is resumed without its frame or its session.  None is in flight once `close_async` has
    been called and no call of it is suspended.  And behind `close` or `close_async` no read is
    started, so `close_async` waits for the operation in flight and for writes only. -/
theorem session_destroyed_safely (ls : List DriverLabel) (σ : H2Driver)
    (hrun : Run.run step initial ls = some σ) (halive : σ.alive = true) :
    σ.fault = false ∧ σ.inFlight.length ≤ 1 ∧
      ((∀ ls' σ', Run.run step σ (.destroy :: ls') = some σ' → σ'.fault = false) ↔
        σ.inFlight = []) ∧
      ((∃ x, σ.closers x ≠ none) → (∀ x d, σ.closers x ≠ some (.awaiting d)) → σ.inFlight = []) ∧
      (σ.shouldClose = true → ∀ d input σ', step σ (.complete d input) = some σ' →
        ∀ d' frame, σ'.frames d' = some frame → frame.phase = .reading →
          σ.frames d' = some frame) := by
  have h := driverInv_of_run hrun halive
  refine ⟨h.no_fault, h.length_inFlight,
    ⟨fun hsafe => ?_, fun hflight ls' σ' => destroyed_stops h hflight⟩,
    fun ⟨x, hx⟩ hreturned => h.inFlight_of_returned hx hreturned, ?_⟩
  · by_contra hflight
    obtain ⟨d, input, hfault⟩ := destroyed_faults h hflight
    exact absurd (hsafe _ _ hfault) (by simp)
  · intro hclosed d input σ' hstep d' frame
    exact no_read_after_close h hclosed hstep

/-- A request starts a driver, `close_async` awaits it, and the peer answers with the end of the
    stream. -/
def requestAndClose : List DriverLabel := [.request, .closeAsync 0, .complete 0 .readEof]

theorem session_destroyed_safely_requestAndClose :
    ∃ σ, Run.run step initial requestAndClose = some σ ∧ σ.alive = true ∧
      σ.closers 0 = some .returned ∧
      ∀ ls' σ', Run.run step σ (.destroy :: ls') = some σ' → σ'.fault = false := by
  obtain ⟨σ, hrun, halive, hcloser, hflight⟩ : ∃ σ, Run.run step initial requestAndClose = some σ ∧
      σ.alive = true ∧ σ.closers 0 = some .returned ∧ σ.inFlight = [] := ⟨_, rfl, rfl, rfl, rfl⟩
  obtain ⟨-, -, hsafe, -, -⟩ := session_destroyed_safely requestAndClose σ hrun halive
  exact ⟨σ, hrun, halive, hcloser, hsafe.mpr hflight⟩

end Ppnt.Spec
