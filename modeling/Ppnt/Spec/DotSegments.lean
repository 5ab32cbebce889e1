import Ppnt.Native.Url
import Ppnt.Spec.UtilCorrect

/-!
# Dot segments

A path that starts with a slash is a list of segments.  On segments, `remove_dot_segments` is a walk
with a stack (`removeDots`), as RFC 3986 describes it.
-/

namespace Ppnt.Spec

open Ppnt.Native Url

/-- The segments with a slash in front of each. -/
def joinSegments (segs : List (List UInt8)) : List UInt8 := segs.flatMap (47 :: ·)

@[simp] theorem joinSegments_nil : joinSegments [] = [] := rfl

@[simp] theorem joinSegments_cons (s : List UInt8) (segs : List (List UInt8)) :
    joinSegments (s :: segs) = 47 :: (s ++ joinSegments segs) := rfl

theorem joinSegments_append (segs segs' : List (List UInt8)) :
    joinSegments (segs ++ segs') = joinSegments segs ++ joinSegments segs' :=
  List.flatMap_append

/-- No segment has a slash in it. -/
def SlashFree (segs : List (List UInt8)) : Prop := ∀ s ∈ segs, 47 ∉ s

variable {s t path : List UInt8} {segs stack : List (List UInt8)}

theorem SlashFree.tail (h : SlashFree (s :: segs)) :
    SlashFree segs :=
  fun s' hs' => h s' (List.mem_cons_of_mem s hs')

theorem SlashFree.dropLast (h : SlashFree segs) :
    SlashFree segs.dropLast :=
  fun s hs => h s (List.dropLast_sublist segs |>.mem hs)

theorem SlashFree.concat (h : SlashFree segs) (hs : 47 ∉ s) : SlashFree (segs ++ [s]) := by
  intro s' hs'
  rcases List.mem_append.mp hs' with hmem | hmem
  · exact h s' hmem
  · rwa [List.mem_singleton.mp hmem]

/-- Text behind a slash has a first segment and further ones. -/
theorem exists_segments_append (text : List UInt8) :
    ∃ s segs, text = s ++ joinSegments segs ∧ 47 ∉ s ∧ SlashFree segs := by
  induction text with
  | nil => exact ⟨[], [], rfl, by simp, by simp [SlashFree]⟩
  | cons b text ih =>
    obtain ⟨s, segs, rfl, hs, hsegs⟩ := ih
    by_cases hb : b = 47
    · subst hb
      refine ⟨[], s :: segs, rfl, by simp, fun s' hs' => ?_⟩
      rcases List.mem_cons.mp hs' with rfl | hmem
      · exact hs
      · exact hsegs s' hmem
    · refine ⟨b :: s, segs, rfl, ?_, hsegs⟩
      rw [List.mem_cons, not_or]
      exact ⟨fun h => hb h.symm, hs⟩

private theorem exists_segments (text : List UInt8) :
    ∃ s segs, 47 :: text = joinSegments (s :: segs) ∧ SlashFree (s :: segs) := by
  obtain ⟨s, segs, rfl, hs, hsegs⟩ := exists_segments_append text
  refine ⟨s, segs, rfl, fun s' hs' => ?_⟩
  rcases List.mem_cons.mp hs' with rfl | hmem
  · exact hs
  · exact hsegs s' hmem

/-! ## The walk -/

/-- A segment that is not the last one. -/
def walkSegment (stack : List (List UInt8)) (s : List UInt8) : List (List UInt8) :=
  if s = ascii "." then stack
  else if s = ascii ".." then stack.dropLast
  else stack ++ [s]

/-- The last segment.  A dot segment leaves an empty one. -/
def walkLast (stack : List (List UInt8)) (s : List UInt8) : List (List UInt8) :=
  if s = ascii "." then stack ++ [[]]
  else if s = ascii ".." then stack.dropLast ++ [[]]
  else stack ++ [s]

def removeDots (stack : List (List UInt8)) : List (List UInt8) → List (List UInt8)
  | [] => stack
  | [s] => walkLast stack s
  | s :: s' :: segs => removeDots (walkSegment stack s) (s' :: segs)

/-! ## The loop is the walk -/

private theorem popSegment_joinSegments (hstack : SlashFree stack) :
    popSegment (joinSegments stack) = joinSegments stack.dropLast := by
  rcases List.eq_nil_or_concat stack with rfl | ⟨init, s, rfl⟩
  · rfl
  · rw [List.concat_eq_append] at hstack ⊢
    have hs : 47 ∉ s := hstack s (by simp)
    have hjoin : joinSegments (init ++ [s]) = joinSegments init ++ 47 :: s := by
      simp [joinSegments_append]
    rw [popSegment, hjoin, rfind_append_cons _ hs, List.dropLast_concat]
    exact List.take_left

/-- The text behind a segment is empty or starts with a slash. -/
theorem isPrefixOf_segment {p : List UInt8} (hp : 47 ∉ p) (hs : 47 ∉ s) (segs : List (List UInt8)) :
    (p ++ [47]).isPrefixOf (s ++ joinSegments segs) = true ↔ s = p ∧ segs ≠ [] := by
  rw [List.isPrefixOf_iff_prefix]
  constructor
  · rintro ⟨t, ht⟩
    -- the first slash of the text is the one behind `p`
    cases segs with
    | nil =>
      have hmem : 47 ∈ s := by
        rw [joinSegments_nil, List.append_nil] at ht
        rw [← ht]
        simp
      exact absurd hmem hs
    | cons s' segs =>
      have hfirst := find_append_cons hs (s' ++ joinSegments segs)
      rw [← joinSegments_cons, ← ht, List.append_assoc, List.singleton_append,
        find_append_cons hp t] at hfirst
      have hlength := Option.some.inj hfirst
      rw [joinSegments_cons, List.append_assoc, List.singleton_append] at ht
      exact ⟨(List.append_inj ht hlength).1.symm, by simp⟩
  · rintro ⟨rfl, hsegs⟩
    cases segs with
    | nil => exact absurd rfl hsegs
    | cons s' segs => exact ⟨s' ++ joinSegments segs, by simp⟩

private theorem eq_segment_iff {p : List UInt8} (hp : 47 ∉ p) (segs : List (List UInt8)) :
    47 :: (s ++ joinSegments segs) = 47 :: p ↔ s = p ∧ segs = [] := by
  rw [List.cons.injEq, and_iff_right rfl]
  constructor
  · intro h
    cases segs with
    | nil => exact ⟨by simpa using h, rfl⟩
    | cons s' segs =>
      rw [← h] at hp
      simp at hp
  · rintro ⟨rfl, rfl⟩
    simp

/-- One turn of the loop. -/
theorem loop_segment (hs : 47 ∉ s) (segs : List (List UInt8)) (out : List UInt8) :
    removeDotSegmentsLoop (joinSegments (s :: segs)) out =
      if s = ascii "." then
        removeDotSegmentsLoop (if segs = [] then ascii "/" else joinSegments segs) out
      else if s = ascii ".." then
        removeDotSegmentsLoop (if segs = [] then ascii "/" else joinSegments segs) (popSegment out)
      else if segs = [] then out ++ 47 :: s
      else removeDotSegmentsLoop (joinSegments segs) (out ++ 47 :: s) := by
  -- the tests of the loop, on a text that starts with a slash
  have hup : (ascii "../").isPrefixOf (47 :: (s ++ joinSegments segs)) = false := rfl
  have hhere : (ascii "./").isPrefixOf (47 :: (s ++ joinSegments segs)) = false := rfl
  have hdot : (ascii "/./").isPrefixOf (47 :: (s ++ joinSegments segs)) = true ↔
      s = ascii "." ∧ segs ≠ [] :=
    isPrefixOf_segment (p := ascii ".") (by decide) hs segs
  have hdots : (ascii "/../").isPrefixOf (47 :: (s ++ joinSegments segs)) = true ↔
      s = ascii ".." ∧ segs ≠ [] :=
    isPrefixOf_segment (p := ascii "..") (by decide) hs segs
  have hdotEnd : 47 :: (s ++ joinSegments segs) = ascii "/." ↔ s = ascii "." ∧ segs = [] :=
    eq_segment_iff (p := ascii ".") (by decide) segs
  have hdotsEnd : 47 :: (s ++ joinSegments segs) = ascii "/.." ↔ s = ascii ".." ∧ segs = [] :=
    eq_segment_iff (p := ascii "..") (by decide) segs
  have hslash : 47 :: (s ++ joinSegments segs) ≠ ascii "." ∧
      47 :: (s ++ joinSegments segs) ≠ ascii ".." :=
    ⟨fun h => absurd (List.cons.inj h).1 (by decide), fun h =>
      absurd (List.cons.inj h).1 (by decide)⟩
  have hne : ascii "." ≠ ascii ".." := by decide
  rw [joinSegments_cons, removeDotSegmentsLoop]
  simp only [reduceCtorEq, if_false, hup, hhere, Bool.false_eq_true, hdot, hdots, hdotEnd, hdotsEnd,
    hslash.1, hslash.2, decide_false, Bool.or_false, List.tail_cons]
  by_cases hsegs : segs = []
  · subst hsegs
    have hfind : find 47 s = none := find_eq_none_iff.mpr hs
    by_cases h1 : s = ascii "."
    · simp [h1]
    · by_cases h2 : s = ascii ".."
      · simp [h2, hne.symm]
      · simp [h1, h2, hfind]
  · obtain ⟨s', segs', rfl⟩ := List.exists_cons_of_ne_nil hsegs
    have hfind : find 47 (s ++ 47 :: (s' ++ joinSegments segs')) = some s.length :=
      find_append_cons hs (s' ++ joinSegments segs')
    by_cases h1 : s = ascii "."
    · subst h1
      rfl
    · by_cases h2 : s = ascii ".."
      · subst h2
        rfl
      · simp [h1, h2, hfind]

/-- The loop behind a dot segment at the end. -/
private theorem loop_slash (stack : List (List UInt8)) :
    removeDotSegmentsLoop (ascii "/") (joinSegments stack) = joinSegments (stack ++ [[]]) := by
  have hempty : ([] : List UInt8) ≠ ascii "." ∧ ([] : List UInt8) ≠ ascii ".." := by decide
  have hslash := loop_segment (s := []) List.not_mem_nil [] (joinSegments stack)
  rw [if_neg hempty.1, if_neg hempty.2, if_pos rfl] at hslash
  rw [joinSegments_append]
  exact hslash

/-- The loop on text does what `removeDots` does on segments. -/
private theorem loop_joinSegments (hstack : SlashFree stack) (hsegs : SlashFree segs)
    (hne : segs ≠ []) :
    removeDotSegmentsLoop (joinSegments segs) (joinSegments stack) =
      joinSegments (removeDots stack segs) := by
  induction segs generalizing stack with
  | nil => exact absurd rfl hne
  | cons s segs ih =>
    have hs : 47 ∉ s := hsegs s List.mem_cons_self
    have hjoin : joinSegments stack ++ 47 :: s = joinSegments (stack ++ [s]) := by
      simp [joinSegments_append]
    rw [loop_segment hs, hjoin, popSegment_joinSegments hstack]
    cases segs with
    | nil =>
      simp only [if_true, loop_slash, removeDots, walkLast]
      split
      · rfl
      · split <;> rfl
    | cons s' segs =>
      simp only [reduceCtorEq, if_false, removeDots, walkSegment]
      split
      · exact ih hstack hsegs.tail (by simp)
      · split
        · exact ih hstack.dropLast hsegs.tail (by simp)
        · exact ih (hstack.concat hs) hsegs.tail (by simp)

/-- `remove_dot_segments` is the walk. -/
theorem removeDotSegments_joinSegments (hsegs : SlashFree segs) (hne : segs ≠ []) :
    removeDotSegments (joinSegments segs) = joinSegments (removeDots [] segs) := by
  have hstack : SlashFree [] := by simp [SlashFree]
  exact loop_joinSegments hstack hsegs hne

/-! ## What is left -/

private theorem mem_walkSegment (h : t ∈ walkSegment stack s) :
    t ∈ stack ∨ t = s ∧ s ≠ ascii "." ∧ s ≠ ascii ".." := by
  unfold walkSegment at h
  split at h
  · exact .inl h
  · split at h
    · exact .inl ((List.dropLast_sublist stack).mem h)
    · rcases List.mem_append.mp h with hmem | hmem
      · exact .inl hmem
      · exact .inr ⟨List.mem_singleton.mp hmem, ‹_›, ‹_›⟩

private theorem mem_walkLast (h : t ∈ walkLast stack s) :
    t ∈ stack ∨ t = s ∧ s ≠ ascii "." ∧ s ≠ ascii ".." ∨ t = [] := by
  unfold walkLast at h
  split at h
  · rcases List.mem_append.mp h with hmem | hmem
    · exact .inl hmem
    · exact .inr (.inr (List.mem_singleton.mp hmem))
  · split at h
    · rcases List.mem_append.mp h with hmem | hmem
      · exact .inl ((List.dropLast_sublist stack).mem hmem)
      · exact .inr (.inr (List.mem_singleton.mp hmem))
    · rcases List.mem_append.mp h with hmem | hmem
      · exact .inl hmem
      · exact .inr (.inl ⟨List.mem_singleton.mp hmem, ‹_›, ‹_›⟩)

/-- The segments that are left are segments of the path, or empty. -/
private theorem mem_removeDots (h : t ∈ removeDots stack segs) :
    t ∈ stack ∨ t ∈ segs ∧ t ≠ ascii "." ∧ t ≠ ascii ".." ∨ t = [] := by
  fun_induction removeDots stack segs with
  | case1 stack => exact .inl h
  | case2 stack s =>
    rcases mem_walkLast h with hmem | ⟨rfl, hdots⟩ | hnil
    · exact .inl hmem
    · exact .inr (.inl ⟨List.mem_cons_self, hdots⟩)
    · exact .inr (.inr hnil)
  | case3 stack s s' segs ih =>
    rcases ih h with hmem | ⟨hmem, hdots⟩ | hnil
    · rcases mem_walkSegment hmem with hstack | ⟨rfl, hdots⟩
      · exact .inl hstack
      · exact .inr (.inl ⟨List.mem_cons_self, hdots⟩)
    · exact .inr (.inl ⟨List.mem_cons_of_mem s hmem, hdots⟩)
    · exact .inr (.inr hnil)

/-- A path without dot segments is left alone. -/
private theorem removeDots_eq_append (h : ∀ s ∈ segs, s ≠ ascii "." ∧ s ≠ ascii "..") :
    removeDots stack segs = stack ++ segs := by
  fun_induction removeDots stack segs with
  | case1 stack => simp
  | case2 stack s =>
    have hs := h s List.mem_cons_self
    rw [walkLast, if_neg hs.1, if_neg hs.2]
  | case3 stack s s' segs ih =>
    have hs := h s List.mem_cons_self
    rw [ih fun t ht => h t (List.mem_cons_of_mem s ht), walkSegment, if_neg hs.1, if_neg hs.2,
      List.append_assoc, List.singleton_append]

private theorem removeDots_ne_nil (hne : segs ≠ []) :
    removeDots stack segs ≠ [] := by
  fun_induction removeDots stack segs with
  | case1 stack => exact absurd rfl hne
  | case2 stack s =>
    unfold walkLast
    split
    · simp
    · split <;> simp
  | case3 stack s s' segs ih => exact ih (by simp)

/-! ## Paths -/

/-- The path of a URL with an authority: empty, or with a slash in front. -/
def AbsPath (path : List UInt8) : Prop := path = [] ∨ path.head? = some 47

theorem exists_segments_of_head (h : path.head? = some 47) :
    ∃ segs, segs ≠ [] ∧ path = joinSegments segs ∧ SlashFree segs := by
  obtain ⟨text, rfl⟩ := List.head?_eq_some_iff.mp h
  obtain ⟨s, segs, htext, hsegs⟩ := exists_segments text
  exact ⟨s :: segs, by simp, htext, hsegs⟩

private theorem slashFree_removeDots (hsegs : SlashFree segs) :
    SlashFree (removeDots [] segs) := by
  intro t ht
  rcases mem_removeDots ht with hmem | ⟨hmem, -⟩ | rfl
  · exact absurd hmem List.not_mem_nil
  · exact hsegs t hmem
  · exact List.not_mem_nil

private theorem removeDotSegments_nil : removeDotSegments [] = [] := by
  rw [removeDotSegments, removeDotSegmentsLoop, if_pos rfl]

theorem absPath_removeDotSegments (h : AbsPath path) :
    AbsPath (removeDotSegments path) := by
  rcases h with rfl | h
  · exact .inl removeDotSegments_nil
  · obtain ⟨segs, hne, rfl, hsegs⟩ := exists_segments_of_head h
    have hleft : removeDots [] segs ≠ [] := removeDots_ne_nil hne
    obtain ⟨s, segs', heq⟩ := List.exists_cons_of_ne_nil hleft
    rw [removeDotSegments_joinSegments hsegs hne, heq]
    exact .inr rfl

/-- Dot segments are removed once. -/
theorem removeDotSegments_idem (h : AbsPath path) :
    removeDotSegments (removeDotSegments path) = removeDotSegments path := by
  rcases h with rfl | h
  · rw [removeDotSegments_nil, removeDotSegments_nil]
  · obtain ⟨segs, hne, rfl, hsegs⟩ := exists_segments_of_head h
    have hdots : ∀ s ∈ removeDots [] segs, s ≠ ascii "." ∧ s ≠ ascii ".." := by
      intro s hs
      rcases mem_removeDots hs with hmem | ⟨-, hdots⟩ | rfl
      · exact absurd hmem List.not_mem_nil
      · exact hdots
      · decide
    rw [removeDotSegments_joinSegments hsegs hne,
      removeDotSegments_joinSegments (slashFree_removeDots hsegs) (removeDots_ne_nil hne),
      removeDots_eq_append hdots, List.nil_append]

/-- The characters of the path come from the path. -/
theorem mem_removeDotSegments (h : AbsPath path) {b : UInt8} (hb : b ∈ removeDotSegments path) :
    b ∈ path := by
  rcases h with rfl | h
  · rwa [removeDotSegments_nil] at hb
  · obtain ⟨segs, hne, rfl, hsegs⟩ := exists_segments_of_head h
    rw [removeDotSegments_joinSegments hsegs hne, joinSegments, List.mem_flatMap] at hb
    obtain ⟨s, hs, hb⟩ := hb
    rcases List.mem_cons.mp hb with rfl | hb
    · exact List.mem_of_head? h
    · rcases mem_removeDots hs with hmem | ⟨hmem, -⟩ | rfl
      · exact absurd hmem List.not_mem_nil
      · exact List.mem_flatMap.mpr ⟨s, hmem, List.mem_cons_of_mem 47 hb⟩
      · exact absurd hb List.not_mem_nil

end Ppnt.Spec
