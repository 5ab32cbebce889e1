import Mathlib.Data.List.Basic
import Ppnt.Native.Runtime

/-!
# What `block_on` leaves behind

A call of `block_on` is compared with the thread before it, which may be inside any number of other
calls.
-/

namespace Ppnt.Spec

open Ppnt.Native

/-- The thread on which the root of a call from `t` is resumed. -/
def entered (t : Thread) : Thread :=
  t.makeFrame.2.makeRing.2.setRing (some t.makeFrame.2.makeRing.1)

/-- What a call from `t` makes of the thread on which its root has ended. -/
def left (t : Thread) : Completion → Thread → Thread
  | .value, t₁ =>
    ((t₁.destroyFrame t.makeFrame.1).setRing none).destroyRing t.makeFrame.2.makeRing.1
  | .exception, t₁ => t₁.destroyRing t.makeFrame.2.makeRing.1

private theorem run_blockOn_eq_ok {root : List Act} {completion ending : Completion} {caught : Bool}
    {t t' : Thread} (h : Act.run (.blockOn root completion caught) t = .ok (ending, t')) :
    ∃ t₁, Act.runAll root completion (entered t) = .ok (ending, t₁) ∧ t' = left t ending t₁ := by
  rw [Act.run] at h
  simp only at h
  split at h
  · exact nomatch h
  · next t₁ hroot =>
    obtain ⟨rfl, rfl⟩ := Prod.mk.inj (Except.ok.inj h)
    exact ⟨t₁, hroot, rfl⟩
  · next t₁ hroot =>
    obtain ⟨rfl, rfl⟩ := Prod.mk.inj (Except.ok.inj h)
    exact ⟨t₁, hroot, rfl⟩

/-! ## Induction over nested calls -/

/-- A relation between a thread before and behind something that a call keeps if its root does. -/
structure KeptByCalls (R : Thread → Thread → Prop) : Prop where
  refl : ∀ t, R t t
  trans : ∀ t₁ t₂ t₃, R t₁ t₂ → R t₂ t₃ → R t₁ t₃
  call : ∀ t t₁ ending, R (entered t) t₁ → R t (left t ending t₁)

mutual

private theorem KeptByCalls.of_run {R : Thread → Thread → Prop} (hkept : KeptByCalls R) (act : Act)
    {t t' : Thread} {ending : Completion} (h : Act.run act t = .ok (ending, t')) : R t t' := by
  cases act with
  | current =>
    rw [Act.run] at h
    split at h
    · exact nomatch h
    · obtain ⟨-, rfl⟩ := Prod.mk.inj (Except.ok.inj h)
      exact hkept.refl t
  | blockOn root completion caught =>
    obtain ⟨t₁, hroot, rfl⟩ := run_blockOn_eq_ok h
    exact hkept.call t t₁ ending (hkept.of_runAll root hroot)

/-- The induction rule for nested calls. -/
theorem KeptByCalls.of_runAll {R : Thread → Thread → Prop} (hkept : KeptByCalls R) (acts : List Act)
    {completion ending : Completion} {t t' : Thread}
    (h : Act.runAll acts completion t = .ok (ending, t')) : R t t' := by
  cases acts with
  | nil =>
    rw [Act.runAll] at h
    obtain ⟨-, rfl⟩ := Prod.mk.inj (Except.ok.inj h)
    exact hkept.refl t
  | cons act acts =>
    rw [Act.runAll] at h
    split at h
    · exact nomatch h
    · next t₁ hact => exact hkept.trans t t₁ t' (hkept.of_run act hact) (hkept.of_runAll acts h)
    · next t₁ hact =>
      split at h
      · exact hkept.trans t t₁ t' (hkept.of_run act hact) (hkept.of_runAll acts h)
      · obtain ⟨-, rfl⟩ := Prod.mk.inj (Except.ok.inj h)
        exact hkept.of_run act hact

end

/-! ## The frame of the root -/

/-- The frames that exist stay: a call destroys at most the frame that was made for it. -/
theorem keptByCalls_frames : KeptByCalls fun t t' => t.frames ⊆ t'.frames := by
  refine ⟨fun t => List.Subset.refl t.frames, fun _ _ _ h₁ h₂ => List.Subset.trans h₁ h₂, ?_⟩
  intro t t₁ ending hroot frame hframe
  have hinside : frame ∈ t₁.frames := hroot (List.mem_cons_of_mem _ hframe)
  cases ending with
  | value =>
    -- the frame that is destroyed is a new one
    have hold : frame ≠ t.makeFrame.1 := Nat.ne_of_lt (t.frames_lt frame hframe)
    exact List.mem_filter.mpr ⟨hinside, by simpa using hold⟩
  | exception => exact hinside

/-- The current ring is the one from before, and the frame of the root is gone. -/
structure Restored (before after : Thread) (root : FrameId) : Prop where
  ring : after.currentRing = before.currentRing
  frame : root ∉ after.frames

/-- `block_on` restores the thread exactly if there was no ring and the root task ends with a value,
    at every depth of calls. -/
theorem block_on_restores_iff {root : List Act} {completion ending : Completion} {t t' : Thread}
    (h : blockOn root completion t = .ok (ending, t')) :
    Restored t t' t.makeFrame.1 ↔ t.currentRing = none ∧ ending = .value := by
  obtain ⟨t₁, hroot, rfl⟩ := run_blockOn_eq_ok h
  cases ending with
  | value =>
    constructor
    · exact fun hrestored => ⟨hrestored.ring.symm, rfl⟩
    · rintro ⟨hnone, -⟩
      refine ⟨hnone.symm, fun hframe => ?_⟩
      simpa using (List.mem_filter.mp hframe).2
  | exception =>
    -- the frame is still there
    refine iff_of_false (fun hrestored => hrestored.frame ?_) (by simp)
    exact keptByCalls_frames.of_runAll root hroot List.mem_cons_self

/-- A root task that uses its ring, on a thread without one. -/
theorem block_on_restores_iff_plain :
    ∃ t', blockOn [.current] .value {} = .ok (.value, t') ∧ Restored {} t' 0 := by
  obtain ⟨t', ht'⟩ : ∃ t', blockOn [.current] .value {} = .ok (.value, t') := ⟨_, rfl⟩
  exact ⟨t', ht', (block_on_restores_iff ht').mpr ⟨rfl, rfl⟩⟩

/-- An inner call that returns leaves no ring, so the outer one cannot start another operation.  A
    call that throws leaves its own ring, which has been destroyed, and does not destroy the frame
    of its root. -/
theorem outer_ring_lost :
    (∃ inside t', Thread.currentRing inside = some 0 ∧ blockOn [] .value inside = .ok (.value, t') ∧
      t'.currentRing = none ∧ ¬Restored inside t' inside.makeFrame.1) ∧
    blockOn [.blockOn [] .value false, .current] .value {} = .error .terminate ∧
    ∃ t', blockOn [] .exception {} = .ok (.exception, t') ∧ t'.currentRing = some 0 ∧ 0 ∉ t'.rings ∧
      0 ∈ t'.frames ∧ ¬Restored {} t' 0 := by
  refine ⟨?_, rfl, ?_⟩
  · let inside : Thread := (({} : Thread).makeFrame.2.makeRing.2).setRing (some 0)
    refine ⟨inside, _, rfl, rfl, rfl, fun h => ?_⟩
    exact nomatch h.ring
  · refine ⟨_, rfl, rfl, by decide, by decide, fun h => ?_⟩
    exact h.frame (by decide)

end Ppnt.Spec
