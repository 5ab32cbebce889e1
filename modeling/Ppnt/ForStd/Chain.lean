import Mathlib.Data.Finset.Card
import Mathlib.Logic.Relation

/-!
# Chains in a finite set

Each thing has at most one successor and at most one predecessor.  From a thing without a
predecessor the successors cannot come back, so in a finite set they end.

## Key results

- `Chain.exists_end`: the chain from a root ends
- `Chain.Reaches.avoid`: a chain that does not start at a root does not need it
-/

namespace Chain

open Relation

variable {T : Type} {next : T → Option T}

/-- `b` comes behind `a`, or is `a`. -/
def Reaches (next : T → Option T) : T → T → Prop := ReflTransGen fun a b => next a = some b

theorem Reaches.avoid {next' : T → Option T} {a b root : T} (h : Reaches next a b)
    (hroot : ∀ c, next c ≠ some root) (ha : a ≠ root) (hsame : ∀ c, c ≠ root → next' c = next c) :
    b ≠ root ∧ Reaches next' a b := by
  induction h with
  | refl => exact ⟨ha, .refl⟩
  | @tail b c _ hbc ih =>
    refine ⟨?_, ih.2.tail ((hsame b ih.1).trans hbc)⟩
    rintro rfl
    exact hroot b hbc

/-- A chain in a finite set that nothing leads back into ends. -/
theorem exists_end [DecidableEq T] (hinj : ∀ a b c, next a = some c → next b = some c → a = b)
    (s : Finset T) (hclosed : ∀ a ∈ s, ∀ b, next a = some b → b ∈ s) {root : T} (hs : root ∈ s)
    (hroot : ∀ a ∈ s, next a ≠ some root) : ∃ b, Reaches next root b ∧ b ∈ s ∧ next b = none := by
  induction hn : s.card generalizing s root with
  | zero => simp [Finset.card_eq_zero.mp hn] at hs
  | succ n ih =>
    cases hnext : next root with
    | none => exact ⟨root, .refl, hs, hnext⟩
    | some b =>
      -- without the root, the next one is a root
      have hne : b ≠ root := fun h => hroot root hs (h ▸ hnext)
      obtain ⟨e, hreach, he, hend⟩ := ih (s.erase root)
        (fun a ha c hc => by
          have ha' := Finset.mem_of_mem_erase ha
          refine Finset.mem_erase.mpr ⟨?_, hclosed a ha' c hc⟩
          rintro rfl
          exact hroot a ha' hc)
        (Finset.mem_erase.mpr ⟨hne, hclosed root hs b hnext⟩)
        (fun a ha hab => Finset.ne_of_mem_erase ha (hinj a root b hab hnext))
        (by rw [Finset.card_erase_of_mem hs, hn, Nat.add_sub_cancel])
      exact ⟨e, ReflTransGen.head hnext hreach, Finset.mem_of_mem_erase he, hend⟩

end Chain
