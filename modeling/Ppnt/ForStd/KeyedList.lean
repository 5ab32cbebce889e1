import Mathlib.Logic.Function.Basic

/-!
# Lists of entries with a key

A list in which entries are looked up by a key, as a map from keys to the values of their entries,
in order. Appending adds a value to one key, and replacing the entries of a key leaves it one value.

## Key results

- `values_append_singleton`, `values_replace`: what the two do to the map
- `find?_eq_head?`: a search finds the first value
-/

namespace KeyedList

variable {α κ β : Type} [DecidableEq κ] (key : α → κ) (value : α → β)

/-- The values of the entries with a key. -/
def values (l : List α) (k : κ) : List β := (l.filter fun a => key a = k).map value

/-- The list without the entries that have the key of `a`, and `a` behind them. -/
def replace (l : List α) (a : α) : List α := (l.filter fun b => key b ≠ key a) ++ [a]

theorem values_nil : values key value [] = fun _ => [] := rfl

theorem values_append (l l' : List α) (k : κ) :
    values key value (l ++ l') k = values key value l k ++ values key value l' k := by
  simp [values]

theorem values_append_singleton (l : List α) (a : α) :
    values key value (l ++ [a]) =
      Function.update (values key value l) (key a) (values key value l (key a) ++ [value a]) := by
  funext k
  rw [values_append]
  by_cases h : k = key a
  · rw [h, Function.update_self]
    simp [values]
  · rw [Function.update_of_ne h]
    simp [values, Ne.symm h]

/-- The entries of other keys are not touched. -/
theorem values_filter_ne (l : List α) (a : α) {k : κ} (h : k ≠ key a) :
    values key value (l.filter fun b => key b ≠ key a) k = values key value l k := by
  rw [values, List.filter_filter, values]
  congr 1
  refine List.filter_congr fun b _ => ?_
  by_cases hb : key b = k
  · simp [hb, h]
  · simp [hb]

theorem values_replace (l : List α) (a : α) :
    values key value (replace key l a) = Function.update (values key value l) (key a)
    [value a] := by
  funext k
  rw [replace, values_append]
  by_cases h : k = key a
  · rw [h, Function.update_self]
    simp [values, List.filter_filter]
  · rw [Function.update_of_ne h, values_filter_ne key value l a h]
    simp [values, Ne.symm h]

theorem find?_eq_head? (l : List α) (k : κ) :
    (l.find? fun a => key a = k).map value = (values key value l k).head? := by
  rw [values, List.head?_map, List.head?_filter]

end KeyedList
