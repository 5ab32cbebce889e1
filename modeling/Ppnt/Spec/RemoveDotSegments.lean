import Ppnt.Spec.DotSegments

/-!
# Section 5.2.4 of RFC 3986

The rules of the RFC for any text, as a relation on the input buffer, the output buffer and the
result (`Removes`): which rule applies is decided by the first segment of the input alone.
`remove_dot_segments` tests for prefixes instead.
-/

namespace Ppnt.Spec

open Ppnt.Native Url

/-! ## The rules -/

/-- A segment ends here. -/
def SegmentEnd (rest : List UInt8) : Prop := rest = [] ∨ rest.head? = some 47

/-- `.` or `..`. -/
def IsDots (s : List UInt8) : Prop := s = ascii "." ∨ s = ascii ".."

instance (s : List UInt8) : Decidable (IsDots s) := inferInstanceAs (Decidable (_ ∨ _))

/-- What is left of the output without its last segment and the slash in front of it, if there is
    one. -/
inductive WithoutLast : List UInt8 → List UInt8 → Prop
  | slash {kept s : List UInt8} (hs : 47 ∉ s) : WithoutLast (kept ++ 47 :: s) kept
  | whole {s : List UInt8} (hs : 47 ∉ s) : WithoutLast s []

/-- The input behind a dot segment: the slash that ended it, or the one in front of it. -/
def behindDots (rest : List UInt8) : List UInt8 := if rest = [] then ascii "/" else rest

/-- Section 5.2.4: the loop from an input and an output buffer to the result. -/
inductive Removes : List UInt8 → List UInt8 → List UInt8 → Prop
  | done {out : List UInt8} : Removes [] out out
  /-- A: a leading `../` or `./` is removed. -/
  | leading {s rest out result : List UInt8} (hs : IsDots s) (h : Removes rest out result) :
      Removes (s ++ 47 :: rest) out result
  /-- B: a leading segment `/.` is replaced by `/`. -/
  | here {rest out result : List UInt8} (hend : SegmentEnd rest)
      (h : Removes (behindDots rest) out result) : Removes (ascii "/." ++ rest) out result
  /-- C: so is `/..`, and the output loses its last segment. -/
  | up {rest out kept result : List UInt8} (hend : SegmentEnd rest) (hkept : WithoutLast out kept)
      (h : Removes (behindDots rest) kept result) : Removes (ascii "/.." ++ rest) out result
  /-- D: an input that is only `.` or `..` is removed. -/
  | only {s out : List UInt8} (hs : IsDots s) : Removes s out out
  /-- E: any other first segment goes to the output, with a slash in front of it if there is one. -/
  | move {slash s rest out result : List UInt8} (hslash : slash = [] ∧ s ≠ [] ∨ slash = [47])
      (hs : 47 ∉ s) (hdots : ¬IsDots s) (hend : SegmentEnd rest)
      (h : Removes rest (out ++ (slash ++ s)) result) : Removes (slash ++ s ++ rest) out result

/-! ## Segments -/

variable {s out input result text : List UInt8}

private theorem not_mem_of_isDots (h : IsDots s) : 47 ∉ s := by
  rcases h with rfl | rfl <;> decide

private theorem segmentEnd_iff {rest : List UInt8} :
    SegmentEnd rest ↔ ∃ segs, rest = joinSegments segs ∧ SlashFree segs := by
  constructor
  · rintro (rfl | h)
    · exact ⟨[], rfl, by simp [SlashFree]⟩
    · obtain ⟨segs, -, hrest, hsegs⟩ := exists_segments_of_head h
      exact ⟨segs, hrest, hsegs⟩
  · rintro ⟨segs, rfl, -⟩
    cases segs with
    | nil => exact .inl rfl
    | cons s segs => exact .inr rfl

private theorem segmentEnd_behindDots {rest : List UInt8} (h : SegmentEnd rest) :
    SegmentEnd (behindDots rest) := by
  unfold behindDots
  split
  · exact .inr rfl
  · exact h

private theorem popSegment_of_withoutLast {kept : List UInt8} (h : WithoutLast out kept) :
    popSegment out = kept := by
  cases h with
  | slash hs => rw [popSegment, rfind_append_cons _ hs]; exact List.take_left
  | whole hs => rw [popSegment, rfind_eq_none_iff.mpr hs]

private theorem withoutLast_popSegment (out : List UInt8) : WithoutLast out (popSegment out) := by
  cases h : rfind 47 out with
  | none =>
    rw [popSegment, h]
    exact .whole (rfind_eq_none_iff.mp h)
  | some i =>
    obtain ⟨kept, s, rfl, hs, rfl⟩ := eq_append_of_rfind h
    rw [popSegment, h]
    simp only [List.take_left]
    exact .slash hs

/-! ## The loop follows the rules -/

private theorem loop_nil (out : List UInt8) : removeDotSegmentsLoop [] out = out := by
  rw [removeDotSegmentsLoop, if_pos rfl]

/-- One turn of the loop on a text that does not start with a slash. -/
private theorem loop_relative (hne : s ≠ []) (hs : 47 ∉ s) (hdots : ¬IsDots s)
    (segs : List (List UInt8)) (out : List UInt8) :
    removeDotSegmentsLoop (s ++ joinSegments segs) out =
      removeDotSegmentsLoop (joinSegments segs) (out ++ s) := by
  have hup : (ascii "../").isPrefixOf (s ++ joinSegments segs) = false := by
    rw [Bool.eq_false_iff]
    exact fun h => hdots (.inr ((isPrefixOf_segment (p := ascii "..") (by decide) hs segs).mp h).1)
  have hhere : (ascii "./").isPrefixOf (s ++ joinSegments segs) = false := by
    rw [Bool.eq_false_iff]
    exact fun h => hdots (.inl ((isPrefixOf_segment (p := ascii ".") (by decide) hs segs).mp h).1)
  obtain ⟨c, s, rfl⟩ := List.exists_cons_of_ne_nil hne
  have hc : 47 ≠ c := fun h => hs (h ▸ List.mem_cons_self)
  have hs' : 47 ∉ s := fun h => hs (List.mem_cons_of_mem c h)
  -- the tests for a slash in front
  have hslash : ∀ p : List UInt8, (47 :: p).isPrefixOf (c :: s ++ joinSegments segs) = false ∧
      c :: s ++ joinSegments segs ≠ 47 :: p := by
    intro p
    exact ⟨by simp [List.isPrefixOf, hc], fun h => hc (List.cons.inj h).1.symm⟩
  have honly : ∀ p : List UInt8, IsDots p → c :: s ++ joinSegments segs ≠ p := by
    rintro p hp rfl
    cases segs with
    | nil => exact hdots (by simpa using hp)
    | cons s' segs => exact not_mem_of_isDots hp (by simp)
  have hfind : find 47 (s ++ joinSegments segs) = if segs = [] then none else some s.length := by
    cases segs with
    | nil => rw [joinSegments_nil, List.append_nil, if_pos rfl, find_eq_none_iff.mpr hs']
    | cons s' segs => exact find_append_cons hs' (s' ++ joinSegments segs)
  rw [removeDotSegmentsLoop]
  simp only [List.cons_append, reduceCtorEq, if_false] at hup hhere hslash honly ⊢
  simp only [hup, hhere, show ascii "/./" = 47 :: ascii "./" from rfl,
    show ascii "/." = 47 :: ascii "." from rfl, show ascii "/../" = 47 :: ascii "../" from rfl,
    show ascii "/.." = 47 :: ascii ".." from rfl, hslash, honly _ (.inl rfl), honly _ (.inr rfl),
    Bool.false_eq_true, if_false, decide_false, Bool.or_self, List.tail_cons, hfind]
  cases segs with
  | nil => simp [loop_nil]
  | cons s' segs => simp

private theorem behindDots_joinSegments (segs : List (List UInt8)) :
    behindDots (joinSegments segs) = if segs = [] then ascii "/" else joinSegments segs := by
  cases segs <;> rfl

/-- The loop does what the rules say. -/
private theorem loop_of_removes (h : Removes input out result) :
    removeDotSegmentsLoop input out = result := by
  induction h with
  | done => exact loop_nil _
  | leading hs h ih =>
    rw [← ih, removeDotSegmentsLoop]
    rcases hs with rfl | rfl
    · rfl
    · rfl
  | @here rest out result hend h ih =>
    obtain ⟨segs, rfl, -⟩ := segmentEnd_iff.mp hend
    have hturn := loop_segment (s := ascii ".") (by decide) segs out
    rw [if_pos rfl, ← behindDots_joinSegments, ih] at hturn
    exact hturn
  | @up rest out kept result hend hkept h ih =>
    obtain ⟨segs, rfl, -⟩ := segmentEnd_iff.mp hend
    have hturn := loop_segment (s := ascii "..") (by decide) segs out
    rw [if_neg (by decide), if_pos rfl, ← behindDots_joinSegments, popSegment_of_withoutLast hkept,
      ih] at hturn
    exact hturn
  | only hs =>
    rw [removeDotSegmentsLoop]
    rcases hs with rfl | rfl
    · rfl
    · rfl
  -- a first segment without a slash, or one behind a slash
  | @move slash s rest out result hslash hs hdots hend h ih =>
    obtain ⟨segs, rfl, -⟩ := segmentEnd_iff.mp hend
    rcases hslash with ⟨rfl, hne⟩ | rfl
    · rw [← ih]
      exact loop_relative hne hs hdots segs out
    · have hturn := loop_segment hs segs out
      rw [if_neg (fun h => hdots (.inl h)), if_neg (fun h => hdots (.inr h))] at hturn
      rw [← ih]
      refine hturn.trans ?_
      split
      · next hnil =>
        subst hnil
        exact (loop_nil _).symm
      · rfl

private theorem length_behindDots_le (rest : List UInt8) :
    (behindDots rest).length ≤ rest.length + 1 := by
  unfold behindDots
  split
  · next h => simp [h, ascii]
  · omega

/-- The rules apply to every input. -/
private theorem exists_removes (input out : List UInt8) : ∃ result, Removes input out result := by
  -- each rule leaves a shorter input
  induction hn : input.length using Nat.strong_induction_on generalizing input out with
  | _ n ih =>
    obtain ⟨s, segs, rfl, hs, hsegs⟩ := exists_segments_append input
    by_cases hne : s = []
    · subst hne
      cases segs with
      | nil => exact ⟨out, .done⟩
      | cons s segs =>
        have hs : 47 ∉ s := hsegs s List.mem_cons_self
        have hend : SegmentEnd (joinSegments segs) := segmentEnd_iff.mpr ⟨segs, rfl, hsegs.tail⟩
        have hshort := length_behindDots_le (joinSegments segs)
        simp only [List.nil_append, joinSegments_cons, List.length_cons, List.length_append] at hn ⊢
        by_cases hdots : IsDots s
        · rcases hdots with rfl | rfl
          · have hdot : (ascii ".").length = 1 := rfl
            obtain ⟨result, h⟩ := ih _ (by omega) (behindDots (joinSegments segs)) out rfl
            exact ⟨result, .here hend h⟩
          · have hdot : (ascii "..").length = 2 := rfl
            obtain ⟨result, h⟩ :=
              ih _ (by omega) (behindDots (joinSegments segs)) (popSegment out) rfl
            exact ⟨result, .up hend (withoutLast_popSegment out) h⟩
        · obtain ⟨result, h⟩ := ih _ (by omega) (joinSegments segs) (out ++ ([47] ++ s)) rfl
          exact ⟨result, .move (.inr rfl) hs hdots hend h⟩
    · have hpos := List.length_pos_iff.mpr hne
      rw [List.length_append] at hn
      by_cases hdots : IsDots s
      · cases segs with
        | nil =>
          rw [joinSegments_nil, List.append_nil]
          exact ⟨out, .only hdots⟩
        | cons s' segs =>
          rw [joinSegments_cons, List.length_cons] at hn
          obtain ⟨result, h⟩ := ih _ (by omega) (s' ++ joinSegments segs) out rfl
          exact ⟨result, .leading hdots h⟩
      · have hend : SegmentEnd (joinSegments segs) := segmentEnd_iff.mpr ⟨segs, rfl, hsegs⟩
        obtain ⟨result, h⟩ := ih _ (by omega) (joinSegments segs) (out ++ ([] ++ s)) rfl
        exact ⟨result, .move (.inl ⟨rfl, hne⟩) hs hdots hend h⟩

/-- The rules and the loop have the same result. -/
theorem removes_iff :
    Removes input out result ↔ result = removeDotSegmentsLoop input out := by
  constructor
  · intro h
    exact (loop_of_removes h).symm
  · rintro rfl
    obtain ⟨result, h⟩ := exists_removes input out
    rwa [loop_of_removes h]

/-! ## Texts without dot segments -/

/-- No segment is a dot segment. -/
def Clean (text : List UInt8) : Prop :=
  ∃ s segs, text = s ++ joinSegments segs ∧ SlashFree (s :: segs) ∧ ∀ t ∈ s :: segs, ¬IsDots t

private theorem clean_nil : Clean [] :=
  ⟨[], [], rfl, by simp [SlashFree], by simp [IsDots, ascii]⟩

private theorem splitOn_segments {segs : List (List UInt8)} (h : SlashFree (s :: segs)) :
    (s ++ joinSegments segs).splitOn 47 = s :: segs := by
  have hjoin : ∀ segs s, [47].intercalate (s :: segs) = s ++ joinSegments segs := by
    intro segs
    induction segs with
    | nil => intro s; simp
    | cons s' segs ih => intro s; simp [List.intercalate_cons_cons, ih]
  rw [← hjoin]
  exact List.splitOn_intercalate 47 h (by simp)

private theorem Clean.splitOn (h : Clean text) : ∀ s ∈ text.splitOn 47, ¬IsDots s := by
  obtain ⟨s, segs, rfl, hfree, hdots⟩ := h
  rwa [splitOn_segments hfree]

/-- A segment is added. -/
theorem Clean.concat (h : Clean text) (hs : 47 ∉ s) (hdots : ¬IsDots s) :
    Clean (text ++ 47 :: s) := by
  obtain ⟨s₀, segs, rfl, hfree, hclean⟩ := h
  refine ⟨s₀, segs ++ [s], by simp [joinSegments_append], ?_, ?_⟩
  · exact hfree.concat hs
  · intro t ht
    rw [← List.cons_append, List.mem_append, List.mem_singleton] at ht
    rcases ht with ht | rfl
    · exact hclean t ht
    · exact hdots

/-- The last segment is removed. -/
private theorem Clean.withoutLast {kept : List UInt8} (h : Clean out)
      (hkept : WithoutLast out kept) :
    Clean kept := by
  obtain ⟨s, segs, rfl, hfree, hclean⟩ := h
  rw [← popSegment_of_withoutLast hkept]
  rcases List.eq_nil_or_concat segs with rfl | ⟨init, last, rfl⟩
  · have hs : 47 ∉ s := hfree s List.mem_cons_self
    rw [joinSegments_nil, List.append_nil, popSegment, rfind_eq_none_iff.mpr hs]
    exact clean_nil
  · rw [List.concat_eq_append] at hfree hclean ⊢
    have hlast : 47 ∉ last := hfree last (by simp)
    have hjoin : s ++ joinSegments (init ++ [last]) = (s ++ joinSegments init) ++ 47 :: last := by
      simp [joinSegments_append]
    rw [hjoin, popSegment, rfind_append_cons _ hlast]
    simp only [List.take_left]
    exact ⟨s, init, rfl, fun t ht => hfree t (by simp at ht ⊢; tauto),
      fun t ht => hclean t (by simp at ht ⊢; tauto)⟩

/-- The rules leave no dot segment.  Once there is output, the input starts with a slash. -/
theorem Removes.clean (h : Removes input out result) (hout : Clean out)
    (hstart : out = [] ∨ SegmentEnd input) : Clean result := by
  induction h with
  | done | only hs => exact hout
  | leading hs h ih =>
    refine ih hout (.inl ?_)
    rcases hstart with hnil | hend
    · exact hnil
    · rcases hs with rfl | rfl <;> rcases hend with hend | hend <;> simp [ascii] at hend
  | here hend h ih => exact ih hout (.inr (segmentEnd_behindDots hend))
  | up hend hkept h ih => exact ih (hout.withoutLast hkept) (.inr (segmentEnd_behindDots hend))
  | @move slash s rest out result hslash hs hdots hend h ih =>
    refine ih ?_ (.inr hend)
    rcases hslash with ⟨rfl, hne⟩ | rfl
    · -- only the first segment comes without a slash
      have hnil : out = [] := by
        rcases hstart with hnil | hend'
        · exact hnil
        · obtain ⟨c, s, rfl⟩ := List.exists_cons_of_ne_nil hne
          rcases hend' with hend' | hend'
          · simp at hend'
          · simp at hend'
            exact absurd (by simp [hend']) hs
      rw [hnil]
      exact ⟨s, [], by simp, by simpa [SlashFree] using hs, by simpa using hdots⟩
    · exact hout.concat hs hdots

/-- Segments that are not dot segments go to the output. -/
private theorem removes_joinSegments {segs : List (List UInt8)} (hfree : SlashFree segs)
    (hdots : ∀ s ∈ segs, ¬IsDots s) (out : List UInt8) :
    Removes (joinSegments segs) out (out ++ joinSegments segs) := by
  induction segs generalizing out with
  | nil =>
    rw [joinSegments_nil, List.append_nil]
    exact .done
  | cons s segs ih =>
    have hrest :=
      ih hfree.tail (fun t ht => hdots t (List.mem_cons_of_mem s ht)) (out ++ ([47] ++ s))
    have hend : SegmentEnd (joinSegments segs) := segmentEnd_iff.mpr ⟨segs, rfl, hfree.tail⟩
    have hmove := Removes.move (.inr rfl) (hfree s List.mem_cons_self) (hdots s List.mem_cons_self)
      hend hrest
    simpa using hmove

/-- And is left alone. -/
theorem removes_of_clean (h : Clean text) : Removes text [] text := by
  obtain ⟨s, segs, rfl, hfree, hdots⟩ := h
  have hsegs : ∀ t ∈ segs, ¬IsDots t := fun t ht => hdots t (List.mem_cons_of_mem s ht)
  by_cases hne : s = []
  · subst hne
    exact removes_joinSegments hfree.tail hsegs []
  · have hend : SegmentEnd (joinSegments segs) := segmentEnd_iff.mpr ⟨segs, rfl, hfree.tail⟩
    exact .move (.inl ⟨rfl, hne⟩) (hfree s List.mem_cons_self) (hdots s List.mem_cons_self) hend
      (removes_joinSegments hfree.tail hsegs _)

/-! ## What `remove_dot_segments` returns -/

private theorem clean_removeDotSegments (input : List UInt8) : Clean (removeDotSegments input) := by
  have h : Removes input [] (removeDotSegments input) := removes_iff.mpr rfl
  exact h.clean clean_nil (.inl rfl)

/-- A path that starts with a slash is walked with a stack. -/
private theorem removeDotSegments_slash (text : List UInt8) :
    removeDotSegments (47 :: text) = joinSegments (removeDots [] (text.splitOn 47)) := by
  obtain ⟨s, segs, rfl, hs, hsegs⟩ := exists_segments_append text
  have hfree : SlashFree (s :: segs) := by
    intro t ht
    rcases List.mem_cons.mp ht with rfl | ht
    · exact hs
    · exact hsegs t ht
  rw [splitOn_segments hfree]
  exact removeDotSegments_joinSegments hfree (by simp)

/-- It computes what RFC 3986 defines, which for a path that starts with a slash is the walk with a
    stack; no dot segment is left, and a second call changes nothing. -/
theorem remove_dot_segments_correct (input : List UInt8) :
    (∀ result, Removes input [] result ↔ result = removeDotSegments input) ∧
      (∀ text, removeDotSegments (47 :: text) = joinSegments (removeDots [] (text.splitOn 47))) ∧
      (∀ s ∈ (removeDotSegments input).splitOn 47, s ≠ ascii "." ∧ s ≠ ascii "..") ∧
      removeDotSegments (removeDotSegments input) = removeDotSegments input := by
  refine ⟨fun result => removes_iff, removeDotSegments_slash, fun s hs => ?_, ?_⟩
  · have hdots := (clean_removeDotSegments input).splitOn s hs
    exact not_or.mp hdots
  · exact (removes_iff.mp (removes_of_clean (clean_removeDotSegments input))).symm

example : removeDotSegments (ascii "/a/b/c/./../../g") = ascii "/a/g" :=
  (removeDotSegments_slash (ascii "a/b/c/./../../g")).trans (by decide)

end Ppnt.Spec
