import Mathlib.Data.Finset.Basic

/-!
# Assignment through `operator[]`

`std::map::operator[]` inserts a default value if no key compares equal, and gives a reference to
the value otherwise; the map keeps the key it has.  `OrderedMap.assign` is an assignment through
this reference, on `Std.TreeMap`.

## Key results

- `getD_assign`: the values after an assignment
- `exists_entry`, `exists_mem_toList_iff`: the entries of a map are what lookups find
- `mem_keys_assign`: the keys after an assignment
-/

namespace OrderedMap

variable {α β : Type} {cmp : α → α → Ordering}

/-- `t[k] = v`, where `d` is the default value. -/
def assign (t : Std.TreeMap α β cmp) (d : β) (k : α) (v : β) : Std.TreeMap α β cmp :=
  let t' := t.insertIfNew k d
  t'.modify (t'.getKeyD k k) fun _ => v

variable [Std.TransCmp cmp] {t : Std.TreeMap α β cmp}

theorem getKeyD_cmp {k : α} (h : k ∈ t) (fallback : α) : cmp (t.getKeyD k fallback) k = .eq := by
  have hkey := Std.TreeMap.compare_getKey_self h
  rwa [Std.TreeMap.getKey_eq_getKeyD] at hkey

/-- An assignment changes the values of the keys that compare equal. -/
theorem getD_assign (t : Std.TreeMap α β cmp) (d : β) (k k' : α) (v : β) :
    (assign t d k v).getD k' d = if cmp k k' = .eq then v else t.getD k' d := by
  have hmem : k ∈ t.insertIfNew k d := Std.TreeMap.mem_insertIfNew_self
  -- the entry that is modified is the one of `k`
  have hstored := getKeyD_cmp hmem k
  have hiff : cmp ((t.insertIfNew k d).getKeyD k k) k' = .eq ↔ cmp k k' = .eq :=
    ⟨fun h => Std.TransCmp.eq_trans (Std.OrientedCmp.eq_symm hstored) h,
      fun h => Std.TransCmp.eq_trans hstored h⟩
  have hsome : (t.insertIfNew k d)[(t.insertIfNew k d).getKeyD k k]?.isSome = true := by
    rw [Std.TreeMap.isSome_getElem?_iff_mem, Std.TreeMap.mem_congr hstored]
    exact hmem
  obtain ⟨old, hold⟩ := Option.isSome_iff_exists.mp hsome
  simp only [assign, Std.TreeMap.getD_modify, hold, Option.map_some, Option.getD_some, hiff]
  split
  case isTrue => rfl
  case isFalse hne => rw [Std.TreeMap.getD_insertIfNew, if_neg fun h => hne h.1]

theorem getD_of_mem_toList {e : α × β} (h : e ∈ t.toList) (d : β) : t.getD e.1 d = e.2 := by
  obtain ⟨-, hget⟩ := Std.TreeMap.mem_toList_iff_getKey?_eq_some_and_getElem?_eq_some.mp h
  rw [Std.TreeMap.getD_eq_getD_getElem?, hget, Option.getD_some]

/-- A lookup that does not give the default value finds an entry. -/
theorem exists_entry {d : β} {k : α} (h : t.getD k d ≠ d) :
    ∃ entry ∈ t.toList, cmp entry.1 k = .eq ∧ entry.2 = t.getD k d := by
  rw [Std.TreeMap.getD_eq_getD_getElem?] at h ⊢
  cases hget : t[k]? with
  | none => exact absurd (by simp [hget]) h
  | some v =>
    have hmem : k ∈ t := by
      rw [← Std.TreeMap.isSome_getElem?_iff_mem, hget]
      rfl
    have hstored := getKeyD_cmp hmem k
    refine ⟨(t.getKeyD k k, v), ?_, hstored, rfl⟩
    rw [Std.TreeMap.mem_toList_iff_getKey?_eq_some_and_getElem?_eq_some]
    constructor
    · rw [Std.TreeMap.getKey?_congr hstored, Std.TreeMap.getKey?_eq_some_getKeyD hmem]
    · rw [Std.TreeMap.getElem?_congr hstored, hget]

/-- The entries with a property that the default does not have are found by lookups. -/
theorem exists_mem_toList_iff {d : β} {p : β → Prop} (hd : ¬p d) :
    (∃ entry ∈ t.toList, p entry.2) ↔ ∃ k, p (t.getD k d) := by
  constructor
  · rintro ⟨entry, hmem, hp⟩
    exact ⟨entry.1, by rwa [getD_of_mem_toList hmem]⟩
  · rintro ⟨k, hp⟩
    have hne : t.getD k d ≠ d := by
      intro heq
      rw [heq] at hp
      exact hd hp
    obtain ⟨entry, hmem, -, heq⟩ := exists_entry hne
    exact ⟨entry, hmem, heq ▸ hp⟩

/-- The keys a map stores are those that it finds under themselves. -/
theorem mem_keys_iff {k : α} : k ∈ t.keys ↔ t.getKey? k = some k := by
  rw [← Std.TreeMap.map_fst_toList_eq_keys]
  constructor
  · intro h
    obtain ⟨⟨k', v⟩, hmem, rfl⟩ := List.mem_map.mp h
    exact (Std.TreeMap.mem_toList_iff_getKey?_eq_some_and_getElem?_eq_some.mp hmem).1
  · intro h
    obtain ⟨hmem, -⟩ := Std.TreeMap.getKey?_eq_some_iff.mp h
    obtain ⟨v, hv⟩ := Option.isSome_iff_exists.mp (Std.TreeMap.isSome_getElem?_iff_mem.mpr hmem)
    exact List.mem_map.mpr
      ⟨(k, v), Std.TreeMap.mem_toList_iff_getKey?_eq_some_and_getElem?_eq_some.mpr ⟨h, hv⟩, rfl⟩

/-- An assignment stores no key but its own. -/
theorem mem_keys_assign {d v : β} {k k' : α} (h : k' ∈ (assign t d k v).keys) :
    k' = k ∨ k' ∈ t.keys := by
  rw [mem_keys_iff] at h ⊢
  simp only [assign, Std.TreeMap.getKey?_modify] at h
  split at h
  case isTrue hcmp =>
    split at h
    case isFalse => simp at h
    case isTrue =>
      -- the entry that is modified keeps its key
      obtain rfl := Option.some.inj h
      rw [Std.TreeMap.getKeyD_insertIfNew]
      split
      case isTrue => exact .inl rfl
      case isFalse hold =>
        have hmem : k ∈ t := by
          by_contra hnot
          exact hold ⟨Std.ReflCmp.compare_self, hnot⟩
        have hstored := getKeyD_cmp hmem k
        right
        rw [Std.TreeMap.getKey?_congr hstored, Std.TreeMap.getKey?_eq_some_getKeyD hmem]
  case isFalse =>
    rw [Std.TreeMap.getKey?_insertIfNew] at h
    split at h
    case isTrue => exact .inl (Option.some.inj h).symm
    case isFalse => exact .inr h

end OrderedMap
