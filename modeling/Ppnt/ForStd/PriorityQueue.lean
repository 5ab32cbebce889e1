import Mathlib.Data.List.Basic

/-!
# `std::priority_queue`

A binary heap in a list, with the algorithms of libstdc++: `push_heap` moves a hole up from the end,
and `pop_heap` moves a hole down from the root to a leaf, without a look at the value that is to
fill it, and then up again.  `comp a b` says that `b` goes before `a`.  Elements that are level may
leave the queue in any order, and which one leaves first depends on these algorithms.

## Key results

- `push_perm`, `pop_perm`: what the queue holds
- `not_comp_top`: nothing goes before the top
-/

/-- A comparison that the heap functions accept. -/
class StrictWeakOrder {α : Type} (comp : α → α → Bool) : Prop where
  asymm : ∀ {a b}, comp a b = true → comp b a = false
  not_trans : ∀ {a b c}, comp a b = false → comp b c = false → comp a c = false

namespace PriorityQueue

variable {α : Type} (comp : α → α → Bool)

/-! ## Algorithms -/

def parent (i : Nat) : Nat := (i - 1) / 2

/-- `__push_heap`: fill the hole with `value`, or with its parent and go on there. -/
def pushHeap (l : List α) (hole : Nat) (value : α) : List α :=
  match l[parent hole]? with
  | none => l.set hole value
  | some p =>
    if 0 < hole ∧ comp p value = true then pushHeap (l.set hole p) (parent hole) value
    else l.set hole value
termination_by hole
decreasing_by
  unfold parent
  omega

/-- The loop of `__adjust_heap`: fill the hole with the child that goes first, down to a leaf.
    Gives the list and the hole that is left. -/
def siftHole (l : List α) (hole : Nat) : List α × Nat :=
  match l[2 * hole + 1]?, _h : l[2 * hole + 2]? with
  | none, _ => (l, hole)
  | some left, none => (l.set hole left, 2 * hole + 1)
  | some left, some right =>
    if comp right left then siftHole (l.set hole left) (2 * hole + 1)
    else siftHole (l.set hole right) (2 * hole + 2)
termination_by l.length - hole
decreasing_by
  all_goals
    have := (List.getElem?_eq_some_iff.mp _h).1
    rw [List.length_set]
    omega

/-- The queue without its top. -/
def popHeap (l : List α) : List α :=
  match l.getLast? with
  | none => []
  | some value =>
    if l.dropLast = [] then []
    else
      let (rest, hole) := siftHole comp l.dropLast 0
      pushHeap comp rest hole value

/-! ## What the lists hold -/

variable {comp}

/-- An element moves into the hole, and the hole to its place. -/
private theorem set_set_perm_of_getElem? {l : List α} {i j : Nat} {x : α} (hi : i < l.length)
    (hj : l[j]? = some x) (v : α) : ((l.set i x).set j v).Perm (l.set i v) := by
  obtain ⟨hjlt, hx⟩ := List.getElem?_eq_some_iff.mp hj
  by_cases hij : i = j
  · subst hij
    rw [List.set_set]
  · have hi' : i < (l.set i v).length := by simpa using hi
    have hj' : j < (l.set i v).length := by simpa using hjlt
    have hperm := List.set_set_perm hi' hj'
    rwa [List.getElem_set_ne hij, List.getElem_set_self, List.set_set, hx] at hperm

theorem parent_lt {i : Nat} (hi : 0 < i) : parent i < i := by
  unfold parent
  omega

theorem pushHeap_perm {l : List α} {hole : Nat} (hhole : hole < l.length) (value : α) :
    (pushHeap comp l hole value).Perm (l.set hole value) := by
  fun_induction pushHeap comp l hole value with
  | case1 => rfl
  | case2 l hole p hp hup ih =>
    have hlt := parent_lt hup.1
    exact (ih (by rw [List.length_set]; omega)).trans (set_set_perm_of_getElem? hhole hp value)
  | case3 => rfl

theorem siftHole_perm {l : List α} {hole : Nat} (hhole : hole < l.length) :
    (siftHole comp l hole).2 < (siftHole comp l hole).1.length ∧
      ∀ value, ((siftHole comp l hole).1.set (siftHole comp l hole).2 value).Perm
        (l.set hole value) := by
  fun_induction siftHole comp l hole with
  | case1 => exact ⟨hhole, fun _ => List.Perm.refl _⟩
  | case2 l hole left hright hleft =>
    have hlt := (List.getElem?_eq_some_iff.mp hleft).1
    exact ⟨by simpa using hlt, set_set_perm_of_getElem? hhole hleft⟩
  | case3 l hole left right hright hleft hcomp ih =>
    have hlt := (List.getElem?_eq_some_iff.mp hleft).1
    obtain ⟨hbound, hperm⟩ := ih (by simpa using hlt)
    exact ⟨hbound, fun value => (hperm value).trans (set_set_perm_of_getElem? hhole hleft value)⟩
  | case4 l hole left right hright hleft hcomp ih =>
    have hlt := (List.getElem?_eq_some_iff.mp hright).1
    obtain ⟨hbound, hperm⟩ := ih (by simpa using hlt)
    exact ⟨hbound, fun value => (hperm value).trans (set_set_perm_of_getElem? hhole hright value)⟩

/-! ## Order -/

/-- The second element does not go before the first one, if both are there. -/
def Level (comp : α → α → Bool) (a b : Option α) : Prop :=
  ∀ x ∈ a, ∀ y ∈ b, comp x y = false

theorem level_none (a : Option α) : Level comp a none := fun _ _ _ hy => absurd hy (by simp)

def HeapOrdered (comp : α → α → Bool) (l : List α) : Prop :=
  ∀ i, 0 < i → Level comp l[parent i]? l[i]?

/-- In order but for the hole, whose children could move up to its parent. -/
structure HoleOrdered (comp : α → α → Bool) (l : List α) (hole : Nat) : Prop where
  except : ∀ i, 0 < i → i ≠ hole → parent i ≠ hole → Level comp l[parent i]? l[i]?
  grand : 0 < hole → ∀ i, 0 < i → parent i = hole → Level comp l[parent hole]? l[i]?

/-- The hole moves down to a child that its siblings do not go before. -/
theorem HoleOrdered.down {l : List α} {hole pick : Nat} {x : α} (h : HoleOrdered comp l hole)
    (hpick : 0 < pick) (hparent : parent pick = hole) (hx : l[pick]? = some x)
    (hother : ∀ i, 0 < i → parent i = hole → Level comp (some x) l[i]?) :
    HoleOrdered comp (l.set hole x) pick := by
  have hlt : hole < pick := hparent ▸ parent_lt hpick
  have hlen : hole < l.length := Nat.lt_trans hlt (List.getElem?_eq_some_iff.mp hx).1
  have hself : (l.set hole x)[hole]? = some x := List.getElem?_set_self hlen
  have hrest : ∀ {i}, i ≠ hole → (l.set hole x)[i]? = l[i]? :=
    fun hi => List.getElem?_set_ne (Ne.symm hi)
  constructor
  · intro i hi hipick hpi
    -- the child is now where the hole was: below the parent of the hole
    by_cases hih : i = hole
    · have hne : parent i ≠ hole := by
        have := parent_lt hi
        omega
      rw [hrest hne, hih, hself, ← hx]
      exact h.grand (hih ▸ hi) pick hpick hparent
    · rw [hrest hih]
      by_cases hph : parent i = hole
      · rw [hph, hself]
        exact hother i hi hph
      · rw [hrest hph]
        exact h.except i hi hih hph
  · intro _ i hi hpi
    have hipick := parent_lt hi
    rw [hparent, hself, hrest (by omega), ← hx, ← hpi]
    exact h.except i hi (by omega) (by omega)

variable [StrictWeakOrder comp]

omit [StrictWeakOrder comp] in
/-- The children of a position. -/
private theorem eq_of_parent_eq {i hole : Nat} (hi : 0 < i) (h : parent i = hole) :
    i = 2 * hole + 1 ∨ i = 2 * hole + 2 := by
  unfold parent at h
  omega

theorem not_comp_self (x : α) : comp x x = false := by
  cases h : comp x x with
  | false => rfl
  | true => exact h.symm.trans (StrictWeakOrder.asymm h)

/-- The hole ends at a leaf. -/
theorem siftHole_ordered {l : List α} {hole : Nat} (h : HoleOrdered comp l hole) :
    HoleOrdered comp (siftHole comp l hole).1 (siftHole comp l hole).2 ∧
      ∀ i, 0 < i → parent i = (siftHole comp l hole).2 → (siftHole comp l hole).1[i]? = none := by
  have hleft : ∀ n, parent (2 * n + 1) = n := by unfold parent; omega
  have hright : ∀ n, parent (2 * n + 2) = n := by unfold parent; omega
  fun_induction siftHole comp l hole with
  -- no children
  | case1 l hole hnone =>
    refine ⟨h, fun i hi hpi => ?_⟩
    have hlen := List.getElem?_eq_none_iff.mp hnone
    rcases eq_of_parent_eq hi hpi with rfl | rfl
    · exact hnone
    · exact List.getElem?_eq_none (Nat.le_succ_of_le hlen)
  -- only a left child, which is the last element
  | case2 l hole left hr hl =>
    have hlen := List.getElem?_eq_none_iff.mp hr
    refine ⟨h.down (by omega) (hleft hole) hl fun i hi hpi => ?_, fun i hi hpi => ?_⟩
    · rcases eq_of_parent_eq hi hpi with rfl | rfl
      · rw [hl]
        rintro x ⟨⟩ y ⟨⟩
        exact not_comp_self left
      · rw [hr]
        exact level_none _
    · have := eq_of_parent_eq hi hpi
      exact List.getElem?_eq_none (by rw [List.length_set]; omega)
  -- two children: the larger one moves up
  | case3 l hole left right hr hl hcomp ih =>
    refine ih (h.down (by omega) (hleft hole) hl fun i hi hpi => ?_)
    rcases eq_of_parent_eq hi hpi with rfl | rfl
    · rw [hl]
      rintro x ⟨⟩ y ⟨⟩
      exact not_comp_self left
    · rw [hr]
      rintro x ⟨⟩ y ⟨⟩
      exact StrictWeakOrder.asymm hcomp
  | case4 l hole left right hr hl hcomp ih =>
    refine ih (h.down (by omega) (hright hole) hr fun i hi hpi => ?_)
    rcases eq_of_parent_eq hi hpi with rfl | rfl
    · rw [hl]
      rintro x ⟨⟩ y ⟨⟩
      exact Bool.eq_false_iff.mpr hcomp
    · rw [hr]
      rintro x ⟨⟩ y ⟨⟩
      exact not_comp_self right

/-- The hole moves up to a parent that `value` goes before. -/
theorem HoleOrdered.up {l : List α} {hole : Nat} {p value : α} (h : HoleOrdered comp l hole)
    (hhole : 0 < hole) (hlen : hole < l.length) (hp : l[parent hole]? = some p)
    (hcomp : comp p value = true) :
    HoleOrdered comp (l.set hole p) (parent hole) ∧
      ∀ i, 0 < i → parent i = parent hole → Level comp (some value) (l.set hole p)[i]? := by
  have hlt := parent_lt hhole
  have hself : (l.set hole p)[hole]? = some p := List.getElem?_set_self hlen
  have hrest : ∀ {i}, i ≠ hole → (l.set hole p)[i]? = l[i]? :=
    fun hi => List.getElem?_set_ne (Ne.symm hi)
  -- the other child of the parent
  have hsibling : ∀ i, 0 < i → i ≠ hole → parent i = parent hole → Level comp (some p) l[i]? := by
    intro i hi hih hpi
    have hlevel := h.except i hi hih (by omega)
    rwa [hpi, hp] at hlevel
  refine ⟨⟨fun i hi hne hpi => ?_, fun hpos i hi hpi => ?_⟩, fun i hi hpi => ?_⟩
  · by_cases hih : i = hole
    · exact absurd (hih ▸ rfl) hpi
    · rw [hrest hih]
      by_cases hph : parent i = hole
      · rw [hph, hself, ← hp]
        exact h.grand hhole i hi hph
      · rw [hrest hph]
        exact h.except i hi hih hph
  · have hpp := parent_lt hpos
    have hup : Level comp l[parent (parent hole)]? (some p) := by
      rw [← hp]
      exact h.except (parent hole) hpos (by omega) (by omega)
    rw [hrest (by omega)]
    by_cases hih : i = hole
    · rw [hih, hself]
      exact hup
    · rw [hrest hih]
      intro x hx y hy
      exact StrictWeakOrder.not_trans (hup x hx p rfl) (hsibling i hi hih hpi p rfl y hy)
  · by_cases hih : i = hole
    · rw [hih, hself]
      rintro x ⟨⟩ y ⟨⟩
      exact StrictWeakOrder.asymm hcomp
    · rw [hrest hih]
      rintro x ⟨⟩ y hy
      exact StrictWeakOrder.not_trans (StrictWeakOrder.asymm hcomp)
        (hsibling i hi hih hpi p rfl y hy)

/-- The value that goes up from the hole restores the heap. -/
theorem pushHeap_ordered {l : List α} {hole : Nat} {value : α} (h : HoleOrdered comp l hole)
    (hlen : hole < l.length)
    (hbelow : ∀ i, 0 < i → parent i = hole → Level comp (some value) l[i]?) :
    HeapOrdered comp (pushHeap comp l hole value) := by
  fun_induction pushHeap comp l hole value with
  | case1 l hole hnone =>
    have hparent : parent hole ≤ hole := by unfold parent; omega
    have := List.getElem?_eq_none_iff.mp hnone
    omega
  -- the parent moves down into the hole
  | case2 l hole p hp hup ih =>
    obtain ⟨hordered, hbelow'⟩ := h.up hup.1 hlen hp hup.2
    have hlt := parent_lt hup.1
    exact ih hordered (by rw [List.length_set]; omega) hbelow'
  | case3 l hole p hp hstop =>
    intro i hi
    have hself : (l.set hole value)[hole]? = some value := List.getElem?_set_self hlen
    have hrest : ∀ {i}, i ≠ hole → (l.set hole value)[i]? = l[i]? :=
      fun hi => List.getElem?_set_ne (Ne.symm hi)
    -- the value stops below its parent, and above the children of the hole
    by_cases hih : i = hole
    · have hlt := parent_lt hi
      rw [hrest (by omega), hih, hself, hp]
      rintro x ⟨⟩ y ⟨⟩
      exact Bool.eq_false_iff.mpr fun hcomp => hstop ⟨hih ▸ hi, hcomp⟩
    · rw [hrest hih]
      by_cases hph : parent i = hole
      · rw [hph, hself]
        exact hbelow i hi hph
      · rw [hrest hph]
        exact h.except i hi hih hph

/-- Nothing goes before the root. -/
theorem HeapOrdered.not_comp_root {l : List α} (h : HeapOrdered comp l) {x : α}
    (hx : l[0]? = some x) {y : α} (hy : y ∈ l) : comp x y = false := by
  obtain ⟨i, hi⟩ := List.getElem?_of_mem hy
  -- by induction on the position, over the parents
  induction i using Nat.strongRecOn generalizing y with
  | ind i ih =>
    by_cases hpos : 0 < i
    · have hlt := parent_lt hpos
      have hlen := (List.getElem?_eq_some_iff.mp hi).1
      have hp : l[parent i]? = some l[parent i] := List.getElem?_eq_getElem (Nat.lt_trans hlt hlen)
      have hroot := ih (parent i) hlt (List.getElem_mem _) hp
      exact StrictWeakOrder.not_trans hroot (h i hpos _ hp y hi)
    · obtain rfl : i = 0 := by omega
      rw [← Option.some.inj (hx.symm.trans hi)]
      exact not_comp_self x

omit [StrictWeakOrder comp] in
/-- The end of the list as a hole. -/
private theorem holeOrdered_append {l : List α} (h : HeapOrdered comp l) (x : α) :
    HoleOrdered comp (l ++ [x]) l.length := by
  have hnone : ∀ i, l.length < i → (l ++ [x])[i]? = none := by
    intro i hi
    exact List.getElem?_eq_none (by rw [List.length_append, List.length_singleton]; omega)
  constructor
  · intro i hi hne _
    have hlt := parent_lt hi
    rcases Nat.lt_or_gt_of_ne hne with hin | hout
    · rw [List.getElem?_append_left hin, List.getElem?_append_left (by omega)]
      exact h i hi
    · rw [hnone i hout]
      exact level_none _
  · intro _ i hi hpi
    have hlt := parent_lt hi
    rw [hnone i (by omega)]
    exact level_none _

omit [StrictWeakOrder comp] in
/-- The list without its end, with a hole at the root. -/
private theorem holeOrdered_dropLast {l : List α} (h : HeapOrdered comp l) :
    HoleOrdered comp l.dropLast 0 := by
  refine ⟨fun i hi _ _ => ?_, fun hpos => absurd hpos (Nat.lt_irrefl 0)⟩
  have hlt := parent_lt hi
  by_cases hin : i < l.length - 1
  · rw [List.getElem?_dropLast, List.getElem?_dropLast, if_pos hin, if_pos (by omega)]
    exact h i hi
  · rw [List.getElem?_dropLast, List.getElem?_dropLast, if_neg hin]
    exact level_none _

theorem popHeap_ordered {l : List α} (h : HeapOrdered comp l) :
    HeapOrdered comp (popHeap comp l) := by
  have hnil : HeapOrdered comp [] := fun i _ => level_none _
  unfold popHeap
  split
  · exact hnil
  · split
    · exact hnil
    · rename_i hne
      have hpos : 0 < l.dropLast.length := List.length_pos_iff.mpr hne
      obtain ⟨hordered, hleaf⟩ := siftHole_ordered (holeOrdered_dropLast h)
      refine pushHeap_ordered hordered (siftHole_perm hpos).1 fun i hi hpi => ?_
      rw [hleaf i hi hpi]
      exact level_none _

omit [StrictWeakOrder comp] in
/-- The first element is taken out, and no other. -/
theorem popHeap_perm {l : List α} {x : α} (hx : l[0]? = some x) : l.Perm (x :: popHeap comp l) := by
  obtain ⟨rest, rfl⟩ : ∃ rest, l = x :: rest := by
    cases l with
    | nil => exact absurd hx (by simp)
    | cons y rest => exact ⟨rest, by rw [Option.some.inj hx]⟩
  refine List.Perm.cons x ?_
  rcases List.eq_nil_or_concat rest with rfl | ⟨init, value, rfl⟩
  · rfl
  · have hlast : (x :: init.concat value).getLast? = some value := by
      rw [List.concat_eq_append, ← List.cons_append, List.getLast?_concat]
    have hdrop : (x :: init.concat value).dropLast = x :: init := by
      rw [List.concat_eq_append, ← List.cons_append, List.dropLast_concat]
    -- the last element takes the place of the root
    have hpos : 0 < (x :: init).length := Nat.succ_pos _
    obtain ⟨hbound, hsift⟩ : (siftHole comp (x :: init) 0).2 < _ ∧ _ := siftHole_perm hpos
    have hpush : (pushHeap comp _ _ value).Perm _ :=
      (pushHeap_perm hbound value).trans (hsift value)
    have hpop : popHeap comp (x :: init.concat value) = pushHeap comp
        (siftHole comp (x :: init) 0).1 (siftHole comp (x :: init) 0).2 value := by
      simp only [popHeap, hlast, hdrop, reduceCtorEq, if_false]
    rw [hpop, List.concat_eq_append]
    exact (List.perm_append_singleton value init).trans hpush.symm

end PriorityQueue

/-! ## The queue -/

/-- `std::priority_queue` with its vector. -/
structure PriorityQueue {α : Type} (comp : α → α → Bool) where
  toList : List α
  ordered : PriorityQueue.HeapOrdered comp toList

namespace PriorityQueue

variable {α : Type} {comp : α → α → Bool}

def empty : PriorityQueue comp := ⟨[], fun _ _ => level_none _⟩

def top (q : PriorityQueue comp) : Option α := q.toList[0]?

@[simp] theorem toList_empty : (empty : PriorityQueue comp).toList = [] := rfl

theorem top_eq_none_iff {q : PriorityQueue comp} : q.top = none ↔ q.toList = [] := by
  simp [top]

variable [StrictWeakOrder comp]

def push (q : PriorityQueue comp) (x : α) : PriorityQueue comp where
  toList := pushHeap comp (q.toList ++ [x]) q.toList.length x
  ordered := by
    refine pushHeap_ordered (holeOrdered_append q.ordered x) (by simp) fun i hi hpi => ?_
    have hlt := parent_lt hi
    rw [List.getElem?_eq_none (by rw [List.length_append, List.length_singleton]; omega)]
    exact level_none _

def pop (q : PriorityQueue comp) : PriorityQueue comp where
  toList := popHeap comp q.toList
  ordered := popHeap_ordered q.ordered

theorem push_perm (q : PriorityQueue comp) (x : α) : (q.push x).toList.Perm (x :: q.toList) := by
  have hlen : q.toList.length < (q.toList ++ [x]).length := by simp
  have hset : (q.toList ++ [x]).set q.toList.length x = q.toList ++ [x] := by simp
  have hperm : (q.push x).toList.Perm _ := pushHeap_perm hlen x
  rw [hset] at hperm
  exact hperm.trans (List.perm_append_singleton x q.toList)

theorem pop_perm {q : PriorityQueue comp} {x : α} (h : q.top = some x) :
    q.toList.Perm (x :: q.pop.toList) :=
  popHeap_perm h

/-- Nothing goes before the top. -/
theorem not_comp_top {q : PriorityQueue comp} {x y : α} (hx : q.top = some x) (hy : y ∈ q.toList) :
    comp x y = false :=
  q.ordered.not_comp_root hx hy

end PriorityQueue
