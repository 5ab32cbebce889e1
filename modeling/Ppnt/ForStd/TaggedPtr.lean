import Mathlib.Data.BitVec

/-!
# A tag in the lowest bit

A pointer whose lowest bit is free carries a flag there.

## Key results

- `untag_of_free`, `untag_tag`: the pointer behind user data with and without tag
- `isTagged_of_free`, `isTagged_tag`, `free_of_not_isTagged`: the tag
- `eq_of_untag`, `eq_untag_or_eq_tag`: the pointer and the tag determine the user data
-/

namespace TaggedPtr

variable {w : Nat} {p : BitVec w}

/-- The pointer with the tag. -/
def tag (p : BitVec w) : BitVec w := p ||| 1#w

/-- The pointer without the tag. -/
def untag (data : BitVec w) : BitVec w := data &&& ~~~1#w

def isTagged (data : BitVec w) : Bool := data &&& 1#w ≠ 0#w

theorem untag_of_free (h : p.getLsbD 0 = false) : untag p = p := by
  refine BitVec.eq_of_getLsbD_eq fun i hi => ?_
  simp only [untag, BitVec.getLsbD_and, BitVec.getLsbD_not, BitVec.getLsbD_one, hi, decide_true,
    Bool.true_and]
  -- the complement of the tag covers all other bits
  rcases Nat.eq_zero_or_pos i with rfl | hpos
  · simp [h]
  · simp [Nat.ne_of_gt hpos]

theorem untag_tag (h : p.getLsbD 0 = false) : untag (tag p) = p := by
  refine BitVec.eq_of_getLsbD_eq fun i hi => ?_
  simp only [untag, tag, BitVec.getLsbD_and, BitVec.getLsbD_or, BitVec.getLsbD_not,
    BitVec.getLsbD_one, hi, decide_true, Bool.true_and]
  rcases Nat.eq_zero_or_pos i with rfl | hpos
  · simp [h]
  · simp [Nat.ne_of_gt hpos]

theorem isTagged_of_free (h : p.getLsbD 0 = false) : isTagged p = false := by
  have hzero : p &&& 1#w = 0#w := by
    refine BitVec.eq_of_getLsbD_eq fun i hi => ?_
    simp only [BitVec.getLsbD_and, BitVec.getLsbD_one, BitVec.getLsbD_zero]
    rcases Nat.eq_zero_or_pos i with rfl | hpos
    · simp [h]
    · simp [Nat.ne_of_gt hpos]
  simp [isTagged, hzero]

theorem free_of_not_isTagged (h : isTagged p = false) : p.getLsbD 0 = false := by
  have hzero : p &&& 1#w = 0#w := by simpa [isTagged] using h
  rcases Nat.eq_zero_or_pos w with rfl | hw
  · exact BitVec.getLsbD_of_ge p 0 (Nat.le_refl 0)
  · have hbit := congrArg (·.getLsbD 0) hzero
    simp only [BitVec.getLsbD_and, BitVec.getLsbD_one, BitVec.getLsbD_zero] at hbit
    simpa [hw] using hbit

theorem lsb_of_isTagged (h : isTagged p = true) : p.getLsbD 0 = true := by
  by_contra hfree
  rw [isTagged_of_free (by simpa using hfree)] at h
  cases h

theorem isTagged_tag (hw : 0 < w) : isTagged (tag p) = true := by
  have hone : tag p &&& 1#w ≠ 0#w := fun h => by
    have hbit := congrArg (·.getLsbD 0) h
    simp only [tag, BitVec.getLsbD_and, BitVec.getLsbD_or, BitVec.getLsbD_one,
      BitVec.getLsbD_zero] at hbit
    simp [hw] at hbit
  simpa [isTagged] using hone

/-- User data is the pointer and the tag. -/
theorem eq_of_untag {q : BitVec w} (huntag : untag p = untag q) (htag : isTagged p = isTagged q) :
    p = q := by
  refine BitVec.eq_of_getLsbD_eq fun i hi => ?_
  rcases Nat.eq_zero_or_pos i with rfl | hpos
  · cases hq : isTagged q with
    | false =>
      rw [free_of_not_isTagged (htag.trans hq), free_of_not_isTagged hq]
    | true =>
      rw [lsb_of_isTagged (htag.trans hq), lsb_of_isTagged hq]
  · have hbit := congrArg (·.getLsbD i) huntag
    simp only [untag, BitVec.getLsbD_and, BitVec.getLsbD_not, BitVec.getLsbD_one, hi, decide_true,
      Bool.true_and] at hbit
    simpa [Nat.ne_of_gt hpos] using hbit

theorem eq_untag_or_eq_tag (hw : 0 < w) (data : BitVec w) :
    data = untag data ∨ data = tag (untag data) := by
  cases h : isTagged data with
  | false => exact .inl (untag_of_free (free_of_not_isTagged h)).symm
  | true =>
    have hfree : (untag data).getLsbD 0 = false := by
      simp [untag, hw]
    exact .inr (eq_of_untag (untag_tag hfree).symm (h.trans (isTagged_tag hw).symm))

end TaggedPtr
