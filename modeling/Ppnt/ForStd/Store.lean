import Mathlib.Data.Finset.Basic
import Mathlib.Logic.Function.Basic

/-!
# Finite stores

A store holds finitely many objects under numbers.  Because it is finite, it is decidable whether
some object in it has a given property (`Store.Any`), which is what a reference count answers.

## Key results

- `get?_set`, `get?_erase`, `get?_filter`: what a store holds after an update
- the `Decidable` instance of `Store.Any`
-/

/-- A finite map from numbers.  Numbers outside of `ids` hold nothing. -/
structure Store (α : Type) where
  ids : Finset Nat
  get? : Nat → Option α
  mem_ids : ∀ i, get? i ≠ none → i ∈ ids

namespace Store

variable {α : Type} (st : Store α)

def empty : Store α := ⟨∅, fun _ => none, fun _ h => absurd rfl h⟩

def set (i : Nat) (a : α) : Store α where
  ids := insert i st.ids
  get? := Function.update st.get? i (some a)
  mem_ids j h := by
    by_cases hj : j = i
    · simp [hj]
    · rw [Function.update_of_ne hj] at h
      exact Finset.mem_insert_of_mem (st.mem_ids j h)

/-- Keep the objects with a property. -/
def filter (p : Nat → Bool) : Store α where
  ids := st.ids
  get? i := if p i then st.get? i else none
  mem_ids j h := by
    split at h
    · exact st.mem_ids j h
    · exact absurd rfl h

def erase (i : Nat) : Store α := st.filter fun j => j ≠ i

/-- Some object has the property. -/
def Any (p : α → Prop) : Prop := ∃ i a, st.get? i = some a ∧ p a

instance (p : α → Prop) [DecidablePred p] : Decidable (st.Any p) :=
  decidable_of_iff (∃ i ∈ st.ids, (st.get? i).any (fun a => p a) = true) <| by
    constructor
    · rintro ⟨i, -, h⟩
      cases hget : st.get? i with
      | none => simp [hget] at h
      | some a => exact ⟨i, a, hget, by simpa [hget] using h⟩
    · rintro ⟨i, a, ha, hp⟩
      exact ⟨i, st.mem_ids i (by simp [ha]), by simp [ha, hp]⟩

@[simp] theorem get?_empty (i : Nat) : (empty : Store α).get? i = none := rfl

@[simp] theorem get?_set (i j : Nat) (a : α) :
    (st.set i a).get? j = if j = i then some a else st.get? j := by
  simp [set, Function.update_apply]

@[simp] theorem get?_filter (p : Nat → Bool) (j : Nat) :
    (st.filter p).get? j = if p j then st.get? j else none := rfl

@[simp] theorem get?_erase (i j : Nat) :
    (st.erase i).get? j = if j = i then none else st.get? j := by
  by_cases h : j = i <;> simp [erase, h]

end Store
