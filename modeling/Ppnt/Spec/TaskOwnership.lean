import Mathlib.Logic.Relation
import Ppnt.ForStd.Chain
import Ppnt.ForStd.Run
import Ppnt.Spec.TaskStep

/-!
# Who owns a coroutine

Nothing but the owner resumes a task or destroys it, and the ring resumes a coroutine only while it
waits for the ring.
-/

namespace Ppnt.Spec

open Ppnt.Native Run

variable {V E : Type}

/-! ## Each step keeps the invariant -/

variable {o : OwnerId} {phase : FramePhase} {owner : TaskOwner} {rest : List StackEntry}
  {c child : FrameId}

section Keep

variable {σ : TaskSystem V E}

/-- Nobody awaits a coroutine whose handle is somewhere else. -/
theorem TaskInv.not_awaited (hinv : TaskInv σ) {f : FrameId} {q : FramePlace} (hq : OwnedAt σ f q)
    (hne : ∀ p, q ≠ .awaiter p) (p : FrameId) : phaseAt σ.frames p ≠ some (.awaiting f) :=
  fun hp => hne p (hinv.place.eq (q := .awaiter p) hq hp)

/-- A call: a frame that its `Task` owns. -/
theorem TaskInv.call (hinv : TaskInv σ) (hfree : σ.owners o = none) :
    TaskInv { (σ.setFrame σ.nextFrame (some {})).setOwner o (some ⟨.task, some σ.nextFrame⟩) with
      nextFrame := σ.nextFrame + 1 } := by
  have hnew := hinv.fresh σ.nextFrame le_rfl
  have hparent := hinv.not_awaited (q := .gone) hnew (by simp)
  constructor
  case fault => exact hinv.fault
  case fresh =>
    intro f hf
    have hne : f ≠ σ.nextFrame := Nat.ne_of_gt hf
    simpa [hne] using hinv.fresh f (Nat.le_of_succ_le hf)
  case place =>
    -- the new frame is the only one that changes its place
    refine hinv.place.move (fun f => f = σ.nextFrame) .gone (.owner o) fun f q => ?_
    have hempty : handleAt σ.owners o = none := by simp [handleAt, hfree]
    cases q with
    | owner o' =>
      by_cases ho : o' = o
      · by_cases hf : f = σ.nextFrame <;> simp [OwnedAt, ho, hf, hempty, hnew, eq_comm]
      · simp [OwnedAt, ho]
    | gone => by_cases hf : f = σ.nextFrame <;> simp [OwnedAt, hf]
    | awaiter p => by_cases hp : p = σ.nextFrame <;> simp [OwnedAt, hp, hnew]
    | stack | leaked => simp [OwnedAt]
  case handles => exact hinv.handles
  case coroutines => exact hinv.coroutines
  case running =>
    intro f
    by_cases hf : f = σ.nextFrame
    · simpa [hf, hnew] using hinv.running σ.nextFrame
    · simpa [hf] using hinv.running f
  case pendingNodup => exact hinv.pendingNodup
  case pending =>
    intro f
    by_cases hf : f = σ.nextFrame
    · simpa [hf, hnew] using hinv.pending σ.nextFrame
    · simpa [hf] using hinv.pending f
  case task =>
    intro o' f ho'
    by_cases ho : o' = o
    · simp [ho] at ho'
      simp [ho']
    · have hold : σ.owners o' = some ⟨.task, some f⟩ := by simpa [ho] using ho'
      have hf := hinv.task o' f hold
      have hne : f ≠ σ.nextFrame := by
        rintro rfl
        simp [hnew] at hf
      simpa [hne] using hf
  case parent =>
    intro f p
    by_cases hf : f = σ.nextFrame
    · by_cases hp : p = σ.nextFrame
      · simp [hf, hp]
      · simpa [hf, hp] using hparent p
    · by_cases hp : p = σ.nextFrame
      · simpa [hf, hp, hnew] using hinv.parent f σ.nextFrame
      · simpa [hf, hp] using hinv.parent f p
  case final =>
    intro f hf
    by_cases hne : f = σ.nextFrame
    · simp [hne]
    · simpa [hne] using hinv.final f (by simpa [hne] using hf)

/-- Handles move, and no coroutine goes on. -/
private theorem TaskInv.rewire (hinv : TaskInv σ) {τ : TaskSystem V E}
    (hframes : τ.frames = σ.frames)
    (hnext : τ.nextFrame = σ.nextFrame) (hfault : τ.fault = σ.fault)
    (hpending : τ.pending = σ.pending) (hcoroutines : coroutinesOn τ.stack = coroutinesOn σ.stack)
    (hplace : InOnePlace (fun _ => True) (OwnedAt τ)) (hhandles : (handlesOn τ.stack).Nodup)
    (htask : ∀ o f, τ.owners o = some ⟨.task, some f⟩ →
      phaseAt σ.frames f = some .initialSuspend) : TaskInv τ := by
  constructor
  case fault => rw [hfault]; exact hinv.fault
  case fresh => rw [hframes, hnext]; exact hinv.fresh
  case place => exact hplace
  case handles => exact hhandles
  case coroutines => rw [hcoroutines]; exact hinv.coroutines
  case running => rw [hframes, hcoroutines]; exact hinv.running
  case pendingNodup => rw [hpending]; exact hinv.pendingNodup
  case pending => rw [hframes, hpending]; exact hinv.pending
  case task => rw [hframes]; exact htask
  case parent => rw [hframes]; exact hinv.parent
  case final => rw [hframes]; exact hinv.final

/-- A coroutine is destroyed that has not been started, or has ended. -/
theorem TaskInv.remove (hinv : TaskInv σ) {τ : TaskSystem V E} {f : FrameId}
    (hf : phaseAt σ.frames f = some phase)
    (hphase : phase = .initialSuspend ∨ phase = .finalSuspend)
    (hnot : ∀ p, phaseAt σ.frames p ≠ some (.awaiting f))
    (hframes : τ.frames = (σ.setFrame f none).frames) (hnext : τ.nextFrame = σ.nextFrame)
    (hfault : τ.fault = σ.fault) (hpending : τ.pending = σ.pending)
    (hcoroutines : coroutinesOn τ.stack = coroutinesOn σ.stack)
    (hplace : InOnePlace (fun _ => True) (OwnedAt τ)) (hhandles : (handlesOn τ.stack).Nodup)
    (htask : ∀ o g, τ.owners o = some ⟨.task, some g⟩ → phaseAt σ.frames g = some .initialSuspend) :
    TaskInv τ := by
  have hparent : parentAt σ.frames f = none :=
    Option.eq_none_iff_forall_ne_some.mpr fun p hp => hnot p ((hinv.parent f p).mp hp)
  have hnot' : ∀ g, phaseAt σ.frames f ≠ some (.awaiting g) ∧ phaseAt σ.frames f ≠ some .running ∧
      phaseAt σ.frames f ≠ some .suspended := by
    intro g
    rcases hphase with rfl | rfl <;> simp [hf]
  constructor
  case fault => rw [hfault]; exact hinv.fault
  case fresh =>
    intro g hg
    rw [hframes]
    by_cases hgf : g = f <;> simp [hgf, hinv.fresh g (hnext ▸ hg)]
  case place => exact hplace
  case handles => exact hhandles
  case coroutines => rw [hcoroutines]; exact hinv.coroutines
  case running =>
    intro g
    rw [hframes, hcoroutines]
    by_cases hgf : g = f
    · simpa [hgf] using (hinv.running f).not.mpr (hnot' f).2.1
    · simpa [hgf] using hinv.running g
  case pendingNodup => rw [hpending]; exact hinv.pendingNodup
  case pending =>
    intro g
    rw [hframes, hpending]
    by_cases hgf : g = f
    · simpa [hgf] using (hinv.pending f).not.mpr (hnot' f).2.2
    · simpa [hgf] using hinv.pending g
  case task =>
    intro o g ho
    have hgf : g ≠ f := by
      rintro rfl
      -- the handle is at the owner, and not gone
      have hq := hplace.eq (p := .gone) (q := .owner o) (t := g) (by simp [OwnedAt, hframes])
        (handleAt_of_owner ho)
      cases hq
    simpa [hframes, hgf] using htask o g ho
  case parent =>
    intro g p
    rw [hframes]
    by_cases hgf : g = f
    · by_cases hpf : p = f
      · simp [hgf, hpf]
      · simpa [hgf, hpf] using hnot p
    · by_cases hpf : p = f
      · simpa [hgf, hpf] using (hinv.parent g f).not.mpr (hnot' g).1
      · simpa [hgf, hpf] using hinv.parent g p
  case final =>
    intro g hg
    rw [hframes] at hg ⊢
    by_cases hgf : g = f
    · simp [hgf]
    · simpa [hgf] using hinv.final g (by simpa [hgf] using hg)

/-! ### Handles move -/

/-- Only logs differ. -/
theorem TaskInv.congr (hinv : TaskInv σ) {τ : TaskSystem V E} (hframes : τ.frames = σ.frames)
    (hnext : τ.nextFrame = σ.nextFrame) (howners : τ.owners = σ.owners) (hstack : τ.stack = σ.stack)
    (hpending : τ.pending = σ.pending) (hfault : τ.fault = σ.fault)
    (hleaked : τ.leaked = σ.leaked) : TaskInv τ := by
  refine hinv.rewire hframes hnext hfault hpending (by rw [hstack]) (hinv.place.keep fun f q => ?_)
    (by rw [hstack]; exact hinv.handles) (by rw [howners]; exact hinv.task)
  cases q <;> simp [OwnedAt, hframes, howners, hstack, hleaked]

/-- The handle of an owner goes to another one, which has none. -/
private theorem TaskInv.moveHandle (hinv : TaskInv σ) {other : OwnerId} (hne : o ≠ other)
    (hfree : handleAt σ.owners o = none) (hother : σ.owners other = some owner) :
    TaskInv ((σ.takeFrom other owner).setOwner o (some owner)) := by
  refine hinv.rewire rfl rfl rfl rfl rfl ?_ hinv.handles ?_
  · refine hinv.place.move (fun _ => True) (.owner other) (.owner o) fun f q => ?_
    cases q with
    | owner o' =>
      have howner := handleAt_of_owner hother
      by_cases ho : o' = o
      · subst ho
        simp [OwnedAt, hne, hfree, howner]
      · by_cases ho' : o' = other <;> simp [OwnedAt, ho, ho', hne.symm]
    | gone | awaiter p | stack | leaked => simp [OwnedAt]
  · intro o' f ho'
    by_cases ho : o' = o
    · refine hinv.task other f ?_
      simpa [ho, hother] using ho'
    · by_cases ho'' : o' = other
      · simp [ho'', hne.symm] at ho'
      · exact hinv.task o' f (by simpa [ho, ho''] using ho')

/-- The handle of an owner is lost. -/
private theorem TaskInv.leak (hinv : TaskInv σ) (ho : σ.owners o = some owner) :
    TaskInv { σ.takeFrom o owner with leaked := σ.leaked ++ owner.handle.toList } := by
  refine hinv.rewire rfl rfl rfl rfl rfl ?_ hinv.handles ?_
  · refine hinv.place.move (fun _ => True) (.owner o) .leaked fun f q => ?_
    cases q with
    | owner o' => by_cases ho' : o' = o <;> simp [OwnedAt, ho']
    | leaked => simp [OwnedAt, handleAt_of_owner ho, or_comm]
    | gone | awaiter p | stack => simp [OwnedAt]
  · intro o' f ho'
    by_cases hoo : o' = o
    · simp [hoo] at ho'
    · exact hinv.task o' f (by simpa [hoo] using ho')

/-- An owner without a handle comes or goes. -/
private theorem TaskInv.setEmpty (hinv : TaskInv σ) (owner : Option TaskOwner)
    (hfree : handleAt σ.owners o = none) (howner : owner.bind (·.handle) = none) :
    TaskInv (σ.setOwner o owner) := by
  refine hinv.rewire rfl rfl rfl rfl rfl (hinv.place.keep fun f q => ?_) hinv.handles ?_
  · cases q with
    | owner o' => by_cases ho : o' = o <;> simp [OwnedAt, ho, hfree, howner]
    | gone | awaiter p | stack | leaked => simp [OwnedAt]
  · intro o' f ho'
    by_cases ho : o' = o
    · have hnone : owner = some ⟨.task, some f⟩ := by simpa [ho] using ho'
      simp [hnone] at howner
    · exact hinv.task o' f (by simpa [ho] using ho')

/-- The coroutine of an owner is destroyed. -/
theorem TaskInv.drop (hinv : TaskInv σ) {kind : OwnerKind} {f : FrameId} (owner : Option TaskOwner)
    (ho : σ.owners o = some ⟨kind, some f⟩) (hf : phaseAt σ.frames f = some phase)
    (hphase : phase = .initialSuspend ∨ phase = .finalSuspend)
    (howner : owner.bind (·.handle) = none) : TaskInv ((σ.setOwner o owner).setFrame f none) := by
  have hhandle : handleAt σ.owners o = some f := handleAt_of_owner ho
  have hnot := hinv.not_awaited (q := .owner o) hhandle (by simp)
  refine hinv.remove hf hphase hnot rfl rfl rfl rfl rfl ?_ hinv.handles ?_
  · refine hinv.place.move (fun _ => True) (.owner o) .gone fun g q => ?_
    cases q with
    | owner o' => by_cases hoo : o' = o <;> simp [OwnedAt, hoo, howner]
    | gone =>
      by_cases hgf : g = f
      · simp [OwnedAt, hgf, hhandle]
      · simp [OwnedAt, hgf, hhandle, Ne.symm hgf]
    | awaiter p =>
      by_cases hpf : p = f
      · rcases hphase with rfl | rfl <;> simp [OwnedAt, hpf, hf]
      · simp [OwnedAt, hpf]
    | stack | leaked => simp [OwnedAt]
  · intro o' g ho'
    by_cases hoo : o' = o
    · have hnone : owner = some ⟨.task, some g⟩ := by simpa [hoo] using ho'
      simp [hnone] at howner
    · exact hinv.task o' g (by simpa [hoo] using ho')

/-- `take_handle` of a task in `spawn` or in `block_on`. -/
private theorem TaskInv.toStack (hinv : TaskInv σ) {f : FrameId} {entry : StackEntry}
    (ho : σ.owners o = some ⟨.task, some f⟩)
    (hhandles : handlesOn (entry :: σ.stack) = f :: handlesOn σ.stack)
    (hcoroutines : coroutinesOn (entry :: σ.stack) = coroutinesOn σ.stack) :
    TaskInv { σ.takeFrom o ⟨.task, some f⟩ with stack := entry :: σ.stack } := by
  have hhandle : handleAt σ.owners o = some f := handleAt_of_owner ho
  refine hinv.rewire rfl rfl rfl rfl hcoroutines ?_ ?_ ?_
  · refine hinv.place.move (fun _ => True) (.owner o) .stack fun g q => ?_
    cases q with
    | owner o' => by_cases hoo : o' = o <;> simp [OwnedAt, hoo]
    | stack => simp [OwnedAt, hhandles, hhandle, eq_comm]
    | gone | awaiter p | leaked => simp [OwnedAt]
  · show (handlesOn (entry :: σ.stack)).Nodup
    rw [hhandles]
    refine List.nodup_cons.mpr ⟨fun hmem => ?_, hinv.handles⟩
    have hplace := hinv.place.eq (p := .owner o) (q := .stack) hhandle hmem
    cases hplace
  · intro o' g ho'
    by_cases hoo : o' = o
    · simp [hoo] at ho'
    · exact hinv.task o' g (by simpa [hoo] using ho')

/-- The handle on top of the stack goes to a new `JoinHandle`. -/
theorem TaskInv.spawnReturn (hinv : TaskInv σ) {handle : Option FrameId}
    (hstack : σ.stack = .spawn handle :: rest) (hfree : σ.owners o = none) :
    TaskInv { σ.setOwner o (some ⟨.joinHandle, handle⟩) with stack := rest } := by
  have hempty : handleAt σ.owners o = none := by simp [handleAt, hfree]
  have hhandles := hinv.handles
  rw [hstack, handlesOn, List.nodup_append] at hhandles
  refine hinv.rewire rfl rfl rfl rfl (by simp [hstack]) ?_ hhandles.2.1 ?_
  · refine hinv.place.move (fun f => handle = some f) .stack (.owner o) fun f q => ?_
    cases q with
    | owner o' =>
      by_cases hoo : o' = o
      · simpa [OwnedAt, hoo, hempty, hstack] using Or.inl
      · simp [OwnedAt, hoo]
    | stack =>
      by_cases hf : handle = some f
      · have hnot : f ∉ handlesOn rest := fun hmem => hhandles.2.2 f (by simp [hf]) f hmem rfl
        simp [OwnedAt, hf, hnot]
      · simp [OwnedAt, hf, hstack]
    | gone | awaiter p | leaked => simp [OwnedAt]
  · intro o' g ho'
    by_cases hoo : o' = o
    · simp [hoo] at ho'
    · exact hinv.task o' g (by simpa [hoo] using ho')

/-- `block_on` returns, and the root is destroyed. -/
theorem TaskInv.blockOnValue (hinv : TaskInv σ) {f : FrameId}
    (hstack : σ.stack = .blockOn f :: rest) (hf : phaseAt σ.frames f = some .finalSuspend) :
    TaskInv { σ.setFrame f none with stack := rest } := by
  have hplace : OwnedAt σ f .stack := by simp [OwnedAt, hstack]
  have hnot := hinv.not_awaited hplace (by simp)
  have hhandles := hinv.handles
  rw [hstack, handlesOn, List.nodup_cons] at hhandles
  refine hinv.remove hf (.inr rfl) hnot rfl rfl rfl rfl (by simp [hstack]) ?_ hhandles.2 hinv.task
  refine hinv.place.move (fun g => g = f) .stack .gone fun g q => ?_
  cases q with
  | stack => by_cases hgf : g = f <;> simp [OwnedAt, hgf, hstack, hhandles.1]
  | gone => by_cases hgf : g = f <;> simp [OwnedAt, hgf, hstack]
  | awaiter p => by_cases hpf : p = f <;> simp [OwnedAt, hpf, hf]
  | owner o | leaked => simp [OwnedAt]

/-- `block_on` throws, and the root is lost. -/
theorem TaskInv.blockOnException (hinv : TaskInv σ) {f : FrameId}
    (hstack : σ.stack = .blockOn f :: rest) :
    TaskInv { σ with stack := rest, leaked := σ.leaked ++ [f] } := by
  have hhandles := hinv.handles
  rw [hstack, handlesOn, List.nodup_cons] at hhandles
  refine hinv.rewire rfl rfl rfl rfl (by simp [hstack]) ?_ hhandles.2 hinv.task
  refine hinv.place.move (fun g => g = f) .stack .leaked fun g q => ?_
  cases q with
  | stack => by_cases hgf : g = f <;> simp [OwnedAt, hgf, hstack, hhandles.1]
  | leaked => by_cases hgf : g = f <;> simp [OwnedAt, hgf, hstack]
  | gone | awaiter p | owner o => simp [OwnedAt]

/-! ### Coroutines go on -/

/-- A task is started, or a coroutine goes on that waited for the ring. -/
theorem TaskInv.resume (hinv : TaskInv σ) {f : FrameId} (hf : phaseAt σ.frames f = some phase)
    (hphase : phase = .initialSuspend ∨ phase = .suspended)
    (hnot : ∀ o, σ.owners o ≠ some ⟨.task, some f⟩) :
    TaskInv { σ.setPhase f .running with
      stack := .coroutine f :: σ.stack
      pending := σ.pending.erase f } := by
  have hf' : ∀ g, phaseAt σ.frames f ≠ some (.awaiting g) ∧ phaseAt σ.frames f ≠ some .running ∧
      phaseAt σ.frames f ≠ some .finalSuspend := by
    intro g
    rcases hphase with rfl | rfl <;> simp [hf]
  constructor
  case fault => exact hinv.fault
  case fresh =>
    intro g hg
    by_cases hgf : g = f
    · subst hgf
      simp [hinv.fresh g hg] at hf
    · simpa [hgf] using hinv.fresh g hg
  case place =>
    -- `f` awaits nothing, before and after
    refine hinv.place.keep fun g q => ?_
    cases q with
    | gone => by_cases hgf : g = f <;> simp [OwnedAt, hgf]
    | awaiter p => by_cases hpf : p = f <;> simp [OwnedAt, hpf, (hf' g).1]
    | owner o | stack | leaked => exact Iff.rfl
  case handles => exact hinv.handles
  case coroutines =>
    refine List.nodup_cons.mpr ⟨?_, hinv.coroutines⟩
    exact (hinv.running f).not.mpr (hf' f).2.1
  case running =>
    intro g
    by_cases hgf : g = f
    · simp [hgf, hf]
    · simpa [hgf] using hinv.running g
  case pendingNodup => exact hinv.pendingNodup.erase f
  case pending =>
    intro g
    rw [hinv.pendingNodup.mem_erase_iff, hinv.pending g]
    by_cases hgf : g = f <;> simp [hgf, hf]
  case task =>
    intro o g ho
    have hgf : g ≠ f := by
      rintro rfl
      exact hnot o ho
    simpa [hgf] using hinv.task o g ho
  case parent =>
    intro g p
    by_cases hpf : p = f
    · simpa [hpf, hf] using (hinv.parent g f).not.mpr (hf' g).1
    · simpa [hpf] using hinv.parent g p
  case final =>
    intro g hg
    by_cases hgf : g = f
    · simp [hgf, hf] at hg
    · simpa using hinv.final g (by simpa [hgf] using hg)

/-- `handle.resume()` in `spawn` and in `block_on`. -/
theorem TaskInv.start (hinv : TaskInv σ) {f : FrameId} {entry : StackEntry}
    (ho : σ.owners o = some ⟨.task, some f⟩)
    (hhandles : handlesOn (entry :: σ.stack) = f :: handlesOn σ.stack)
    (hcoroutines : coroutinesOn (entry :: σ.stack) = coroutinesOn σ.stack) :
    TaskInv { (σ.takeFrom o ⟨.task, some f⟩).setPhase f .running with
      stack := .coroutine f :: entry :: σ.stack } := by
  have hinitial := hinv.task o f ho
  have htaken := hinv.toStack ho hhandles hcoroutines
  refine (htaken.resume hinitial (.inl rfl) fun o' ho' => ?_).congr rfl rfl rfl rfl ?_ rfl rfl
  · have hplace := htaken.place.eq (p := .owner o') (q := .stack) (handleAt_of_owner ho')
      (by simp [OwnedAt, hhandles])
    cases hplace
  · -- a task does not wait for the ring
    exact (List.erase_of_not_mem ((hinv.pending f).not.mpr (by simp [hinitial]))).symm

/-- A coroutine awaits one that has not ended. -/
theorem TaskInv.await (hinv : TaskInv σ) {kind : OwnerKind}
    (hstack : σ.stack = .coroutine c :: rest) (ho : σ.owners o = some ⟨kind, some child⟩)
    (hchild : phaseAt σ.frames child = some phase) (hphase : phase ≠ .finalSuspend) :
    TaskInv { ((σ.takeFrom o ⟨kind, some child⟩).setParent child c).setPhase c
        (.awaiting child) with
      stack := rest } := by
  have hc := hinv.running_of_top hstack
  have hhandle : handleAt σ.owners o = some child := handleAt_of_owner ho
  have hnot := hinv.not_awaited (q := .owner o) hhandle (by simp)
  have hcoroutines := hinv.coroutines
  simp only [hstack, coroutinesOn, List.nodup_cons] at hcoroutines
  constructor
  case fault => exact hinv.fault
  case fresh =>
    intro g hg
    by_cases hgc : g = c
    · subst hgc
      simp [hinv.fresh g hg] at hc
    · simpa [hgc] using hinv.fresh g hg
  case place =>
    -- the handle moves from the `Task` to the frame that awaits
    refine hinv.place.move (fun _ => True) (.owner o) (.awaiter c) fun g q => ?_
    cases q with
    | gone => by_cases hgc : g = c <;> simp [OwnedAt, hgc]
    | awaiter p => by_cases hpc : p = c <;> simp [OwnedAt, hpc, hc, hhandle]
    | owner o' => by_cases hoo : o' = o <;> simp [OwnedAt, hoo]
    | stack => simp [OwnedAt, hstack]
    | leaked => simp [OwnedAt]
  case handles => simpa [hstack] using hinv.handles
  case coroutines => exact hcoroutines.2
  case running =>
    intro g
    by_cases hgc : g = c
    · simpa [hgc, hc] using hcoroutines.1
    · simpa [hgc, hstack] using hinv.running g
  case pendingNodup => exact hinv.pendingNodup
  case pending =>
    intro g
    by_cases hgc : g = c
    · simpa [hgc, hc] using hinv.pending c
    · simpa [hgc] using hinv.pending g
  case task =>
    intro o' g ho'
    by_cases hoo : o' = o
    · simp [hoo] at ho'
    · have hg := hinv.task o' g (by simpa [hoo] using ho')
      have hgc : g ≠ c := by
        rintro rfl
        simp [hc] at hg
      simpa [hgc] using hg
  case parent =>
    intro g p
    -- only the child gets a parent, and only `c` begins to await
    by_cases hgchild : g = child
    · by_cases hpc : p = c
      · simp [hgchild, hpc, hc, hchild]
      · simp [hgchild, hpc, hchild, Ne.symm hpc, hnot p]
    · by_cases hpc : p = c
      · simpa [hgchild, hpc, hc, Ne.symm hgchild] using (hinv.parent g c).not.mpr (by simp [hc])
      · simpa [hgchild, hpc] using hinv.parent g p
  case final =>
    intro g hg
    by_cases hgc : g = c
    · simp [hgc, hc] at hg
    · have hg' : phaseAt σ.frames g = some .finalSuspend := by simpa [hgc] using hg
      have hgchild : g ≠ child := by
        rintro rfl
        exact hphase (Option.some.inj (hchild.symm.trans hg'))
      simpa [hgchild] using hinv.final g hg'

theorem TaskInv.awaitTask (hinv : TaskInv σ) (hstack : σ.stack = .coroutine c :: rest)
    (ho : σ.owners o = some ⟨.task, some child⟩) :
    TaskInv { (((σ.takeFrom o ⟨.task, some child⟩).setParent child c).setPhase c
        (.awaiting child)).setPhase child .running with
      stack := .coroutine child :: rest } := by
  have hinitial := hinv.task o child ho
  have hc := hinv.running_of_top hstack
  have hne : child ≠ c := by
    rintro rfl
    simp [hc] at hinitial
  have hawait := hinv.await hstack ho hinitial (by simp)
  refine (hawait.resume (by simpa [hne] using hinitial) (.inl rfl) fun o' ho' => ?_).congr rfl rfl
    rfl rfl ?_ rfl rfl
  · have hplace := hawait.place.eq (p := .owner o') (q := .awaiter c) (handleAt_of_owner ho')
      (by simp [OwnedAt, hc])
    cases hplace
  · exact (List.erase_of_not_mem ((hinv.pending child).not.mpr (by simp [hinitial]))).symm

/-- The coroutine on top of the stack waits for the ring. -/
theorem TaskInv.suspend (hinv : TaskInv σ) (hstack : σ.stack = .coroutine c :: rest) :
    TaskInv { σ.setPhase c .suspended with stack := rest, pending := σ.pending ++ [c] } := by
  have hc := hinv.running_of_top hstack
  have hcoroutines := hinv.coroutines
  simp only [hstack, coroutinesOn, List.nodup_cons] at hcoroutines
  have hnot : c ∉ σ.pending := (hinv.pending c).not.mpr (by simp [hc])
  constructor
  case fault => exact hinv.fault
  case fresh =>
    intro g hg
    by_cases hgc : g = c
    · subst hgc
      simp [hinv.fresh g hg] at hc
    · simpa [hgc] using hinv.fresh g hg
  case place =>
    refine hinv.place.keep fun g q => ?_
    cases q with
    | gone => by_cases hgc : g = c <;> simp [OwnedAt, hgc]
    | awaiter p => by_cases hpc : p = c <;> simp [OwnedAt, hpc, hc]
    | stack => simp [OwnedAt, hstack]
    | owner o | leaked => exact Iff.rfl
  case handles => simpa [hstack] using hinv.handles
  case coroutines => exact hcoroutines.2
  case running =>
    intro g
    by_cases hgc : g = c
    · simpa [hgc, hc] using hcoroutines.1
    · simpa [hgc, hstack] using hinv.running g
  case pendingNodup =>
    refine List.nodup_append.mpr ⟨hinv.pendingNodup, by simp, fun a ha b hb heq => ?_⟩
    exact hnot (List.mem_singleton.mp hb ▸ heq ▸ ha)
  case pending =>
    intro g
    by_cases hgc : g = c
    · simp [hgc, hc]
    · simpa [hgc] using hinv.pending g
  case task =>
    intro o g ho
    have hg := hinv.task o g ho
    have hgc : g ≠ c := by
      rintro rfl
      simp [hc] at hg
    simpa [hgc] using hg
  case parent =>
    intro g p
    by_cases hpc : p = c
    · simpa [hpc, hc] using (hinv.parent g c).not.mpr (by simp [hc])
    · simpa [hpc] using hinv.parent g p
  case final =>
    intro g hg
    by_cases hgc : g = c
    · simp [hgc, hc] at hg
    · simpa using hinv.final g (by simpa [hgc] using hg)

/-- A coroutine ends that nobody awaits yet. -/
theorem TaskInv.finishRoot (hinv : TaskInv σ) {frame : TaskFrame V E} (frame' : TaskFrame V E)
    (hstack : σ.stack = .coroutine c :: rest) (hframe : σ.frames c = some frame)
    (hparent : frame.promise.parent = none) (hphase' : frame'.phase = .finalSuspend)
    (hparent' : frame'.promise.parent = none) :
    TaskInv { σ.setFrame c (some frame') with stack := rest } := by
  have hc := hinv.running_of_top hstack
  have hcoroutines := hinv.coroutines
  simp only [hstack, coroutinesOn, List.nodup_cons] at hcoroutines
  have hnone : parentAt σ.frames c = none := by simp [parentAt, hframe, hparent]
  constructor
  case fault => exact hinv.fault
  case fresh =>
    intro g hg
    by_cases hgc : g = c
    · subst hgc
      simp [hinv.fresh g hg] at hc
    · simpa [hgc] using hinv.fresh g hg
  case place =>
    -- who owns the frame does not change when it ends
    refine hinv.place.keep fun g q => ?_
    cases q with
    | gone => by_cases hgc : g = c <;> simp [OwnedAt, hgc, hc]
    | awaiter p => by_cases hpc : p = c <;> simp [OwnedAt, hpc, hc, hphase']
    | stack => simp [OwnedAt, hstack]
    | owner o | leaked => exact Iff.rfl
  case handles => simpa [hstack] using hinv.handles
  case coroutines => exact hcoroutines.2
  case running =>
    intro g
    by_cases hgc : g = c
    · simpa [hgc, hphase'] using hcoroutines.1
    · simpa [hgc, hstack] using hinv.running g
  case pendingNodup => exact hinv.pendingNodup
  case pending =>
    intro g
    by_cases hgc : g = c
    · simpa [hgc, hc, hphase'] using hinv.pending c
    · simpa [hgc] using hinv.pending g
  case task =>
    intro o g ho
    have hg := hinv.task o g ho
    have hgc : g ≠ c := by
      rintro rfl
      simp [hc] at hg
    simpa [hgc] using hg
  case parent =>
    intro g p
    by_cases hgc : g = c
    · have hno := (hinv.parent c p).not.mp (by simp [hnone])
      by_cases hpc : p = c
      · simp [hgc, hpc, hphase', hparent']
      · simpa [hgc, hpc, hparent'] using hno
    · by_cases hpc : p = c
      · simpa [hgc, hpc, hphase'] using (hinv.parent g c).not.mpr (by simp [hc])
      · simpa [hgc, hpc] using hinv.parent g p
  case final =>
    intro g hg
    by_cases hgc : g = c
    · simp [hgc, hparent']
    · simpa [hgc] using hinv.final g (by simpa [hgc] using hg)

/-- A coroutine ends, and the one that awaits it destroys it and goes on. -/
theorem TaskInv.finishAwaited (hinv : TaskInv σ) {p : FrameId} {frame : TaskFrame V E}
    (hstack : σ.stack = .coroutine c :: rest) (hframe : σ.frames c = some frame)
    (hparent : frame.promise.parent = some p) :
    TaskInv { (σ.setFrame c none).setPhase p .running with stack := .coroutine p :: rest } := by
  have hc := hinv.running_of_top hstack
  have hcoroutines := hinv.coroutines
  simp only [hstack, coroutinesOn, List.nodup_cons] at hcoroutines
  have hp : phaseAt σ.frames p = some (.awaiting c) :=
    (hinv.parent c p).mp (by simp [parentAt, hframe, hparent])
  have hpc : p ≠ c := by
    rintro rfl
    simp [hc] at hp
  -- `c` is awaited by `p` alone
  have honly : ∀ q, phaseAt σ.frames q = some (.awaiting c) → q = p := fun q hq => by
    simpa using hinv.place.eq (p := .awaiter q) (q := .awaiter p) hq hp
  constructor
  case fault => exact hinv.fault
  case fresh =>
    intro g hg
    by_cases hgp : g = p
    · subst hgp
      simp [hinv.fresh g hg] at hp
    · by_cases hgc : g = c <;> simp [hgp, hgc, hpc.symm, hinv.fresh g hg]
  case place =>
    refine hinv.place.move (fun _ => True) (.awaiter p) .gone fun g q => ?_
    cases q with
    | gone =>
      by_cases hgc : g = c
      · simp [OwnedAt, hgc, hpc.symm, hp]
      · by_cases hgp : g = p <;> simp [OwnedAt, hgc, hgp, hp, hpc, hpc.symm, Ne.symm hgc]
    | awaiter q =>
      by_cases hqp : q = p
      · simp [OwnedAt, hqp, hpc, hp]
      · by_cases hqc : q = c <;> simp [OwnedAt, hqp, hqc, hc]
    | stack => simp [OwnedAt, hstack]
    | owner o | leaked => simp [OwnedAt]
  case handles => simpa [hstack] using hinv.handles
  case coroutines =>
    have hnot : p ∉ coroutinesOn rest := fun hmem => by
      have hrunning := (hinv.running p).mp (by simp [hstack, hmem])
      simp [hp] at hrunning
    simpa using ⟨hnot, hcoroutines.2⟩
  case running =>
    intro g
    by_cases hgp : g = p
    · simp [hgp, hpc, hp]
    · by_cases hgc : g = c
      · simpa [hgc, hpc.symm] using hcoroutines.1
      · simpa [hgp, hgc, hstack] using hinv.running g
  case pendingNodup => exact hinv.pendingNodup
  case pending =>
    intro g
    by_cases hgp : g = p
    · simpa [hgp, hpc, hp] using hinv.pending p
    · by_cases hgc : g = c
      · simpa [hgc, hpc.symm, hc] using hinv.pending c
      · simpa [hgp, hgc] using hinv.pending g
  case task =>
    intro o g ho
    have hg := hinv.task o g ho
    have hgc : g ≠ c := by
      rintro rfl
      simp [hc] at hg
    have hgp : g ≠ p := by
      rintro rfl
      simp [hp] at hg
    simpa [hgc, hgp] using hg
  case parent =>
    intro g q
    by_cases hgc : g = c
    · by_cases hqp : q = p
      · simp [hgc, hqp, hpc, hp]
      · by_cases hqc : q = c
        · simp [hgc, hqc, hpc.symm]
        · simpa [hgc, hqp, hqc] using fun hq => hqp (honly q hq)
    · by_cases hqp : q = p
      · simpa [hgc, hqp, hpc, hp] using (hinv.parent g p).not.mpr (by simp [hp, Ne.symm hgc])
      · by_cases hqc : q = c
        · simpa [hgc, hqc, hpc.symm] using (hinv.parent g c).not.mpr (by simp [hc])
        · simpa [hgc, hqp, hqc] using hinv.parent g q
  case final =>
    intro g hg
    by_cases hgp : g = p
    · simp [hgp, hpc, hp] at hg
    · by_cases hgc : g = c
      · simp [hgc]
      · simpa [hgc] using hinv.final g (by simpa [hgp, hgc] using hg)

/-! ### Steps -/

/-- The handle that an owner is assigned, after its own is gone. -/
theorem TaskInv.assign {τ : TaskSystem V E} {other : OwnerId} (hinv : TaskInv σ) (hne : o ≠ other)
    (hfree : handleAt σ.owners o = none) (hother : σ.owners other = some owner)
    (hframes : τ.frames = σ.frames) (hnext : τ.nextFrame = σ.nextFrame)
    (howners : τ.owners = ((σ.takeFrom other owner).setOwner o (some owner)).owners)
    (hstack : τ.stack = σ.stack) (hpending : τ.pending = σ.pending) (hfault : τ.fault = σ.fault)
    (hleaked : τ.leaked = σ.leaked) : TaskInv τ :=
  (hinv.moveHandle hne hfree hother).congr hframes hnext howners hstack hpending
    hfault hleaked

/-- Each disciplined step keeps `TaskInv`. -/
theorem taskInv_of_taskStep {τ : TaskSystem V E} {l : TaskLabel V E} (hinv : TaskInv σ)
    (hstep : TaskStep σ l τ) : TaskInv τ := by
  cases hstep with
  | call hfree => exact hinv.call hfree
  | emptyJoinHandle hfree => exact hinv.setEmpty _ (by simp [handleAt, hfree]) rfl
  | @moveConstruct o other owner hfree hother =>
    have hne : o ≠ other := by
      rintro rfl
      simp [hfree] at hother
    exact hinv.moveHandle hne (by simp [handleAt, hfree]) hother
  | assignSelf => exact hinv
  | @assignTask o other owner old hne ho hother hkind =>
    refine (hinv.leak ho).assign hne (by simp)
      (by simpa [hne.symm] using hother) rfl rfl ?_ rfl rfl rfl rfl
    funext o'
    by_cases ho' : o' = o <;> simp [ho']
  | assignEmpty hne ho hother hkind => exact hinv.moveHandle hne (handleAt_of_owner ho) hother
  | @assignEnded o other owner f hne ho hother hkind hf =>
    have hdrop := hinv.drop (some ⟨.joinHandle, none⟩) ho hf (.inr rfl) rfl
    refine hdrop.assign hne (by simp) (by simpa [hne.symm] using hother) rfl rfl ?_ rfl rfl rfl rfl
    funext o'
    by_cases ho' : o' = o <;> simp [ho']
  | destroyEmpty ho => exact hinv.setEmpty _ (handleAt_of_owner ho) rfl
  | destroy ho hf hphase => exact (hinv.drop _ ho hf hphase rfl).congr rfl rfl rfl rfl rfl rfl rfl
  | takeHandle ho => exact hinv.leak ho
  | @spawnEmpty o ho =>
    have hempty := hinv.setEmpty (some ⟨.task, none⟩) (handleAt_of_owner ho) rfl
    refine hempty.rewire rfl rfl rfl rfl rfl (hempty.place.keep fun f q => ?_) hempty.handles
      hempty.task
    cases q <;> exact Iff.rfl
  | spawn ho | blockOn ho => exact hinv.start ho rfl rfl
  | spawnReturn hstack hfree => exact hinv.spawnReturn hstack hfree
  | blockOnValue hstack hframe hphase hvalue =>
    exact (hinv.blockOnValue hstack (phaseAt_eq_some.mpr ⟨_, hframe, hphase⟩)).congr rfl rfl rfl rfl
      rfl rfl rfl
  | blockOnException hstack hframe hphase hvalue =>
    exact (hinv.blockOnException hstack).congr rfl rfl rfl rfl rfl rfl rfl
  | awaitEnded hstack ho hframe hphase =>
    have hf := phaseAt_eq_some.mpr ⟨_, hframe, hphase⟩
    exact (hinv.drop _ ho hf (.inr rfl) rfl).congr rfl rfl rfl rfl rfl rfl rfl
  | awaitTask hstack ho => exact hinv.awaitTask hstack ho
  | awaitJoinHandle hstack ho hchild hphase => exact hinv.await hstack ho hchild hphase
  | suspend hstack => exact hinv.suspend hstack
  | @complete f root rest hstack hf =>
    have hsuspended := (hinv.pending f).mp hf
    refine hinv.resume hsuspended (.inr rfl) fun o ho => ?_
    simp [hinv.task o f ho] at hsuspended
  | @finishRoot c rest frame ending hstack hframe hparent =>
    have hparent' : (frame.promise.setEnd ending).parent = none := by cases ending <;> exact hparent
    exact (hinv.finishRoot ⟨frame.promise.setEnd ending, .finalSuspend⟩ hstack hframe hparent rfl
      hparent').congr rfl rfl rfl rfl rfl rfl rfl
  | finishAwaited hstack hframe hparent =>
    exact (hinv.finishAwaited hstack hframe hparent).congr rfl rfl rfl rfl rfl rfl rfl

end Keep

/-- Each step of disciplined code keeps `TaskInv`. -/
theorem taskInv_step (σ : TaskSystem V E) (l : TaskLabel V E) (τ : TaskSystem V E)
    (hinv : TaskInv σ) (hd : Disciplined σ l) (hstep : σ.step l = some τ) : TaskInv τ :=
  taskInv_of_taskStep hinv (taskStep_of_step hinv hd hstep)

private theorem taskInv_of_run {σ : TaskSystem V E} {ls : List (TaskLabel V E)}
    (hd : Along TaskSystem.step (fun _ => Disciplined) [] TaskSystem.initial ls)
    (hrun : run TaskSystem.step TaskSystem.initial ls = some σ) : TaskInv σ :=
  stateInvariant_along taskInv_step taskInv_initial hd hrun

/-- In every run of disciplined code nothing is used after it is destroyed and nothing is resumed
    that is not suspended, and the handle of each coroutine is in one place. -/
theorem tasks_owned_once (ls : List (TaskLabel V E)) (σ : TaskSystem V E)
    (hd : Along TaskSystem.step (fun _ => Disciplined) [] TaskSystem.initial ls)
    (hrun : run TaskSystem.step TaskSystem.initial ls = some σ) :
    σ.fault = none ∧ InOnePlace (fun _ => True) (OwnedAt σ) :=
  have hinv := taskInv_of_run hd hrun
  ⟨hinv.fault, hinv.place⟩

/-- The root spawns a coroutine that waits for the ring, joins it and ends. -/
def spawnAndJoin : List (TaskLabel Nat Nat) :=
  [.call 0, .blockOn 0, .call 1, .spawn 1, .suspend, .spawnReturn 2, .await 2, .complete 1,
    .finish (.returnValue 7), .finish (.returnValue 8), .blockOnReturn]

theorem tasks_owned_once_spawnAndJoin :
    ∃ σ, Along TaskSystem.step (fun _ => Disciplined) [] TaskSystem.initial spawnAndJoin ∧
      run TaskSystem.step TaskSystem.initial spawnAndJoin = some σ ∧
      σ.fault = none ∧ InOnePlace (fun _ => True) (OwnedAt σ) := by
  have hd : Along TaskSystem.step (fun _ => Disciplined) [] TaskSystem.initial spawnAndJoin := by
    decide
  obtain ⟨σ, hσ⟩ := Option.isSome_iff_exists.mp
    (show (run TaskSystem.step TaskSystem.initial spawnAndJoin).isSome by decide)
  exact ⟨σ, hd, hσ, tasks_owned_once spawnAndJoin σ hd hσ⟩

/-! ## Without discipline -/

section Gone

variable {σ τ : TaskSystem V E} {f g : FrameId}

/-- The coroutine has been destroyed. -/
def Gone (σ : TaskSystem V E) (f : FrameId) : Prop := f < σ.nextFrame ∧ σ.frames f = none

theorem Gone.setFrame (h : Gone σ f) {frame : Option (TaskFrame V E)} (hg : g = f → frame = none) :
    Gone (σ.setFrame g frame) f := by
  refine ⟨h.1, ?_⟩
  by_cases hgf : f = g
  · simp [hgf, hg hgf.symm]
  · simp [hgf, h.2]

theorem Gone.modifyFrame (h : Gone σ f) (u : TaskFrame V E → TaskFrame V E) :
    Gone (σ.modifyFrame g u) f :=
  h.setFrame fun hg => by simp [hg, h.2]

theorem Gone.resume (h : Gone σ f) : Gone (σ.resume g) f := by
  unfold TaskSystem.resume
  split
  · exact h
  · split
    · exact h
    · exact h.modifyFrame _

theorem Gone.destroyFrame (h : Gone σ f) (fuel : Nat) : Gone (σ.destroyFrame fuel g) f := by
  induction fuel generalizing σ g with
  | zero => exact h
  | succ fuel ih =>
    unfold TaskSystem.destroyFrame
    split
    · exact h
    · split
      · exact h
      · exact ih (h.setFrame fun _ => rfl)
      all_goals exact h.setFrame fun _ => rfl

theorem Gone.dropHandle (h : Gone σ f) (handle : Option FrameId) :
    Gone (σ.dropHandle handle) f := by
  cases handle with
  | none => exact h
  | some g => exact Gone.destroyFrame (σ := { σ with dropped := σ.dropped ++ [g] }) h _

theorem Gone.receive (h : Gone σ f) (receiver : Option FrameId) :
    Gone (σ.receive receiver g) f := by
  unfold TaskSystem.receive
  split
  · exact h
  case h_2 frame _ =>
    exact Gone.destroyFrame
      (σ := { σ with received := σ.received ++ [⟨receiver, g, frame.promise.getValue⟩] }) h _

theorem Gone.awaitHandle (h : Gone σ f) (c : FrameId) (rest : List StackEntry) (kind : OwnerKind)
    (handle : Option FrameId) : Gone (σ.awaitHandle c rest kind handle) f := by
  unfold TaskSystem.awaitHandle
  split
  · exact h
  case h_2 child =>
    split
    · exact h
    · split
      · exact h.receive _
      · have hawait : Gone
            { (σ.setParent child c).setPhase c (.awaiting child) with stack := rest } f :=
          (h.modifyFrame _).modifyFrame _
        cases kind with
        | task => exact hawait.resume
        | joinHandle => exact hawait

theorem Gone.finalSuspend (h : Gone σ f) (rest : List StackEntry) (parent : Option FrameId) :
    Gone (σ.finalSuspend rest parent) f := by
  unfold TaskSystem.finalSuspend
  split
  · exact h
  case h_2 p =>
    split
    · exact h
    · split
      · exact (Gone.resume (σ := { σ with stack := rest }) h).receive _
      all_goals exact h

/-- A coroutine that has been destroyed does not come back, whatever the code does. -/
private theorem Gone.step {l : TaskLabel V E} (h : Gone σ f) (hstep : σ.step l = some τ) :
    Gone τ f := by
  cases taskAct_of_step hstep with
  | call =>
    have hnew : σ.nextFrame ≠ f := Nat.ne_of_gt h.1
    exact ⟨Nat.lt_succ_of_lt h.1, (h.setFrame fun hg => absurd hg hnew).2⟩
  -- only handles are moved
  | emptyJoinHandle | moveConstruct | assignSelf | assignTask | takeHandle | spawnEmpty
  | spawnReturn
  | blockOnGone | blockOnException | finishGone => exact h
  | @assignJoinHandle o other owner old =>
    exact Gone.dropHandle (σ := (σ.takeFrom other owner).setOwner o (some owner)) h old
  | @destroy o kind handle => exact Gone.dropHandle (σ := σ.setOwner o none) h handle
  | @spawn o g =>
    exact Gone.resume
      (σ := { σ.takeFrom o ⟨.task, some g⟩ with stack := .spawn (some g) :: σ.stack }) h
  | @blockOn o g =>
    exact Gone.resume (σ := { σ.takeFrom o ⟨.task, some g⟩ with stack := .blockOn g :: σ.stack }) h
  | @blockOnValue g rest => exact Gone.receive (σ := { σ with stack := rest }) h none
  | @await o c rest kind handle =>
    exact Gone.awaitHandle (σ := σ.takeFrom o ⟨kind, handle⟩) h c rest kind handle
  | suspend => exact h.modifyFrame _
  | @complete g => exact Gone.resume (σ := { σ with pending := σ.pending.erase g }) h
  | @finish c rest frame ending hstack hframe =>
    have hc : c ≠ f := by
      rintro rfl
      simp [h.2] at hframe
    have hend : Gone { σ.setFrame c (some ⟨frame.promise.setEnd ending, .finalSuspend⟩) with
        ended := σ.ended ++ [(c, ending)] } f := h.setFrame fun hcf => absurd hcf hc
    exact hend.finalSuspend _ _

/-- The coroutine that a coroutine awaits. -/
def awaitedTask (σ : TaskSystem V E) (f : FrameId) : Option FrameId :=
  match phaseAt σ.frames f with
  | some (.awaiting child) => some child
  | _ => none

theorem awaitedTask_eq_some :
    awaitedTask σ f = some child ↔ phaseAt σ.frames f = some (.awaiting child) := by
  unfold awaitedTask
  split <;> simp_all

private theorem awaitedTask_setFrame_none :
    awaitedTask (σ.setFrame g none) f = if f = g then none else awaitedTask σ f := by
  by_cases hfg : f = g <;> simp [awaitedTask, hfg]

theorem TaskInv.awaitedTask_inj (hinv : TaskInv σ) {p q : FrameId} (hp : awaitedTask σ p = some c)
    (hq : awaitedTask σ q = some c) : p = q := by
  have hplace := hinv.place.eq (p := .awaiter p) (q := .awaiter q) (awaitedTask_eq_some.mp hp)
    (awaitedTask_eq_some.mp hq)
  simpa using hplace

/-- `destroy()` of a coroutine destroys those that it waits for, down to the one that waits for the
    ring.  No more than the coroutines in `s` are there, which bounds the descent. -/
private theorem destroyFrame_of_reaches (fuel : Nat) {s : Finset FrameId}
    (hs : ∀ p, phaseAt σ.frames p ≠ none → p ∈ s) (hcard : s.card < fuel)
    (hinj : ∀ p q c, awaitedTask σ p = some c → awaitedTask σ q = some c → p = q)
    (hroot : ∀ p, awaitedTask σ p ≠ some f) (hreach : Chain.Reaches (awaitedTask σ) f g)
    (hg : phaseAt σ.frames g = some .suspended) :
    (σ.destroyFrame fuel f).frames g = none ∧ (σ.destroyFrame fuel f).fault = σ.fault ∧
      (σ.destroyFrame fuel f).nextFrame = σ.nextFrame ∧
      (σ.destroyFrame fuel f).pending = σ.pending := by
  induction fuel generalizing σ s f with
  | zero => omega
  | succ fuel ih =>
    rcases hreach.cases_head with rfl | ⟨child, hchild, hreach⟩
    · obtain ⟨frame, hframe, hphase⟩ := phaseAt_eq_some.mp hg
      simp [TaskSystem.destroyFrame, hframe, hphase]
    · have hawaiting := awaitedTask_eq_some.mp hchild
      obtain ⟨frame, hframe, hphase⟩ := phaseAt_eq_some.mp hawaiting
      simp only [TaskSystem.destroyFrame, hframe, hphase]
      have hne : child ≠ f := fun h => hroot f (h ▸ hchild)
      have hsame : ∀ p, p ≠ f → awaitedTask (σ.setFrame f none) p = awaitedTask σ p :=
        fun p hp => by
        simp [awaitedTask_setFrame_none, hp]
      obtain ⟨hgf, hreach'⟩ := Chain.Reaches.avoid hreach hroot hne hsame
      have hf : f ∈ s := hs f (by simp [hawaiting])
      refine ih (σ := σ.setFrame f none) (s := s.erase f)
        (fun p hp => ?_) ?_ (fun p q c hp hq => ?_)
        (fun p hp => ?_) hreach' (by simpa [hgf] using hg)
      · by_cases hpf : p = f
        · simp [hpf] at hp
        · exact Finset.mem_erase.mpr ⟨hpf, hs p (by simpa [hpf] using hp)⟩
      · have := Finset.card_erase_lt_of_mem hf
        omega
      · simp only [awaitedTask_setFrame_none, Option.ite_none_left_eq_some] at hp hq
        exact hinj p q c hp.2 hq.2
      · -- only `f` has awaited the child
        simp only [awaitedTask_setFrame_none, Option.ite_none_left_eq_some] at hp
        exact hp.1 (hinj p f child hp.2 hchild)

end Gone

/-- If the coroutine of a `JoinHandle` that is destroyed waits for the ring, itself or in a
    coroutine that it awaits, it is destroyed and the ring still resumes it: whatever runs in
    between, that is a use of a destroyed frame. -/
theorem dropped_unfinished_faults (ls ls' : List (TaskLabel V E)) (σ σ₁ σ₂ τ : TaskSystem V E)
    (o : OwnerId) (f g : FrameId)
    (hd : Along TaskSystem.step (fun _ => Disciplined) [] TaskSystem.initial ls)
    (hrun : run TaskSystem.step TaskSystem.initial ls = some σ)
    (ho : σ.owners o = some ⟨.joinHandle, some f⟩) (hreach : Chain.Reaches (awaitedTask σ) f g)
    (hg : phaseAt σ.frames g = some .suspended) (hdestroy : σ.step (.destroy o) = some σ₁)
    (hrun' : run TaskSystem.step σ₁ ls' = some σ₂) (hcomplete : σ₂.step (.complete g) = some τ) :
    σ₁.fault = none ∧ g ∈ σ₁.pending ∧ τ.fault = some .useAfterFree := by
  have hinv := taskInv_of_run hd hrun
  obtain rfl : (σ.setOwner o none).dropHandle (some f) = σ₁ := by
    cases taskAct_of_step hdestroy with
    | destroy ho' => cases ho.symm.trans ho'; rfl
  have hbelow : ∀ p, phaseAt σ.frames p ≠ none → p ∈ Finset.range σ.nextFrame := by
    intro p hp
    by_contra hmem
    exact hp (hinv.fresh p (by simpa using hmem))
  -- nobody awaits `f`, as its handle is at the owner
  have hroot : ∀ p, awaitedTask σ p ≠ some f := fun p hp =>
    hinv.not_awaited (q := .owner o) (handleAt_of_owner ho) (by simp) p (awaitedTask_eq_some.mp hp)
  obtain ⟨hnone, hfault, hnext, hpending⟩ := destroyFrame_of_reaches
    (σ := { σ.setOwner o none with dropped := σ.dropped ++ [f] }) (σ.nextFrame + 1) hbelow (by simp)
    (fun _ _ _ => hinv.awaitedTask_inj) hroot hreach hg
  have hgone : Gone ((σ.setOwner o none).dropHandle (some f)) g := by
    refine ⟨?_, hnone⟩
    have hlt : g < σ.nextFrame := Finset.mem_range.mp (hbelow g (by simp [hg]))
    exact hlt.trans_eq hnext.symm
  -- ids are not used twice, so `g` stays destroyed
  have hkeep : ∀ (σ : TaskSystem V E) l τ, Gone σ g → σ.step l = some τ → Gone τ g :=
    fun _ _ _ h hstep => h.step hstep
  have hgone' := stateInvariant_of_run hkeep hgone hrun'
  refine ⟨hfault.trans hinv.fault, ?_, ?_⟩
  · exact hpending ▸ (hinv.pending g).mpr hg
  · cases taskAct_of_step hcomplete with
    | complete hstack hf => simp [TaskSystem.resume, hgone'.2, TaskSystem.setFault]

/-- The root has spawned a coroutine, which awaits another one, which waits for the ring. -/
def spawnedReader : List (TaskLabel Nat Nat) :=
  [.call 0, .blockOn 0, .call 1, .spawn 1, .call 2, .await 2, .suspend, .spawnReturn 3]

theorem dropped_unfinished_faults_spawnedReader :
    ∃ σ σ₁ σ₂ τ, run TaskSystem.step TaskSystem.initial spawnedReader = some σ ∧
      σ.step (.destroy 3) = some σ₁ ∧ run TaskSystem.step σ₁ [.suspend] = some σ₂ ∧
      σ₂.step (.complete 2) = some τ ∧
      σ₁.fault = none ∧ 2 ∈ σ₁.pending ∧ τ.fault = some .useAfterFree := by
  have hd : Along TaskSystem.step (fun _ => Disciplined) [] TaskSystem.initial spawnedReader := by
    decide
  refine ⟨_, _, _, _, rfl, rfl, rfl, rfl, ?_⟩
  exact dropped_unfinished_faults spawnedReader [.suspend] _ _ _ _ 3 1 2 hd rfl rfl
    (Relation.ReflTransGen.single rfl) rfl rfl rfl rfl

end Ppnt.Spec
