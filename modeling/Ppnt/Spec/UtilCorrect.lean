import Mathlib.Data.List.TakeWhile
import Ppnt.Native.Util

/-!
# Numbers and positions in text

What the text functions of `Ppnt.Native.Util` compute: a number that is written in decimal is read
back, and a search splits the text at what it finds.
-/

namespace Ppnt.Spec

open Ppnt.Native

/-! ## Numbers -/

def isDigit (b : UInt8) : Bool := 48 ≤ b && b ≤ 57

/-- The digit of a number below ten. -/
private theorem isDigit_ofNat : ∀ d < 10,
    isDigit (UInt8.ofNat (48 + d)) = true ∧ (UInt8.ofNat (48 + d)).toNat - 48 = d := by
  decide

theorem decimal_ne_nil (n : Nat) : decimal n ≠ [] := by
  unfold decimal
  split
  · decide
  · simpa [Nat.digits_eq_nil_iff_eq_zero] using ‹¬n = 0›

theorem isDigit_of_mem_decimal {n : Nat} {b : UInt8} (hb : b ∈ decimal n) : isDigit b = true := by
  unfold decimal at hb
  split at hb
  · obtain rfl : b = 48 := by simpa [ascii] using hb
    decide
  · simp only [List.mem_map, List.mem_reverse] at hb
    obtain ⟨d, hd, rfl⟩ := hb
    exact (isDigit_ofNat d (Nat.digits_lt_base (by decide) hd)).1

private theorem foldr_digits {ds : List Nat} (hds : ∀ d ∈ ds, d < 10) :
    (ds.map fun d => UInt8.ofNat (48 + d)).foldr (fun d n => 10 * n + (d.toNat - 48)) 0 =
      Nat.ofDigits 10 ds := by
  induction ds with
  | nil => rfl
  | cons d ds ih =>
    rw [List.map_cons, List.foldr_cons, ih fun d' hd' => hds d' (List.mem_cons_of_mem d hd'),
      (isDigit_ofNat d (hds d List.mem_cons_self)).2, Nat.ofDigits_cons, Nat.add_comm]

/-- A number is read back from its decimal digits. -/
theorem decimalValue_decimal (n : Nat) : decimalValue (decimal n) = n := by
  unfold decimal
  split
  · subst n
    rfl
  · -- `Nat.digits` has the lowest digit first
    rw [decimalValue, List.map_reverse, List.foldl_reverse,
      foldr_digits fun d hd => Nat.digits_lt_base (by decide) hd]
    exact Nat.ofDigits_digits 10 n

private theorem leadingDigits_decimal (n : Nat) : leadingDigits (decimal n) = decimal n :=
  List.takeWhile_eq_self_iff.mpr fun _ hb => isDigit_of_mem_decimal hb

/-- A number does not start with a minus sign. -/
private theorem head?_decimal_ne (n : Nat) : (decimal n).head? ≠ some 45 := by
  intro h
  exact absurd (isDigit_of_mem_decimal (List.mem_of_head? h)) (by decide)

/-- An `int` is read back by `std::from_chars`. -/
theorem fromChars?_formatInt {v : Int} (hlow : -2 ^ 31 ≤ v) (hhigh : v < 2 ^ 31) :
    fromChars? (formatInt v) = some v := by
  cases v with
  | ofNat n =>
    have hfits : (n : Int) < 2 ^ 31 := hhigh
    simp only [fromChars?, formatInt, head?_decimal_ne, if_false, leadingDigits_decimal,
      decimalValue_decimal]
    rw [if_neg (by simp only [decimal_ne_nil, false_or]; omega)]
    rfl
  | negSucc n =>
    have hhead : (ascii "-" ++ decimal (n + 1)).head? = some 45 := rfl
    have hdrop : (ascii "-" ++ decimal (n + 1)).drop 1 = decimal (n + 1) := rfl
    simp only [fromChars?, formatInt, hhead, hdrop, if_true, leadingDigits_decimal,
      decimalValue_decimal]
    rw [if_neg (by simp only [decimal_ne_nil, false_or]; omega)]
    rfl

/-- The characters of an `int`. -/
theorem mem_formatInt {v : Int} {b : UInt8} (hb : b ∈ formatInt v) : b = 45 ∨ isDigit b = true := by
  cases v with
  | ofNat n => exact .inr (isDigit_of_mem_decimal hb)
  | negSucc n =>
    rcases List.mem_append.mp hb with hminus | hdigit
    · exact .inl (by simpa [ascii] using hminus)
    · exact .inr (isDigit_of_mem_decimal hdigit)

/-- What `std::from_chars` returns is an `int`. -/
theorem range_of_fromChars? {bs : List UInt8} {v : Int} (h : fromChars? bs = some v) :
    -2 ^ 31 ≤ v ∧ v < 2 ^ 31 := by
  simp only [fromChars?, Option.ite_none_left_eq_some, Option.some.injEq, not_or, not_lt,
    not_le] at h
  obtain ⟨⟨-, hlow, hhigh⟩, rfl⟩ := h
  exact ⟨hlow, hhigh⟩

/-! ## Positions -/

section Search

variable {c : UInt8} {cs s : List UInt8} {i : Nat}

/-- The first occurrence splits the text. -/
theorem find_append_cons {a : List UInt8} (ha : c ∉ a) (b : List UInt8) :
    find c (a ++ c :: b) = some a.length := by
  induction a with
  | nil => simp [find, List.findIdx?_cons]
  | cons x a ih =>
    have hx : x ≠ c := fun h => ha (h ▸ List.mem_cons_self)
    have hrest := ih fun h => ha (List.mem_cons_of_mem x h)
    simp only [find] at hrest
    simp [find, List.findIdx?_cons, hx, hrest]

theorem find_eq_none_iff : find c s = none ↔ c ∉ s := by
  simp only [find, List.findIdx?_eq_none_iff, decide_eq_false_iff_not]
  exact ⟨fun h hc => h c hc rfl, fun h x hx heq => h (heq ▸ hx)⟩

/-- `find` finds the first occurrence. -/
theorem eq_append_of_find (h : find c s = some i) :
    ∃ a b, s = a ++ c :: b ∧ c ∉ a ∧ a.length = i := by
  induction s generalizing i with
  | nil => simp [find] at h
  | cons x s ih =>
    by_cases hx : x = c
    · subst hx
      have hi : i = 0 := by simpa [find, List.findIdx?_cons] using h.symm
      exact ⟨[], s, rfl, by simp, hi.symm⟩
    · simp only [find, List.findIdx?_cons, hx, decide_false, Bool.false_eq_true, if_false,
        Option.map_eq_some_iff] at h
      obtain ⟨j, hj, rfl⟩ := h
      obtain ⟨a, b, rfl, ha, rfl⟩ := ih hj
      refine ⟨x :: a, b, rfl, ?_, rfl⟩
      rw [List.mem_cons]
      rintro (rfl | hmem)
      · exact hx rfl
      · exact ha hmem

/-- The last occurrence splits the text. -/
theorem rfind_append_cons (a : List UInt8) {b : List UInt8} (hb : c ∉ b) :
    rfind c (a ++ c :: b) = some a.length := by
  have hreverse : (a ++ c :: b).reverse = b.reverse ++ c :: a.reverse := by simp
  rw [rfind, hreverse, find_append_cons (by simpa using hb)]
  simp only [Option.map_some, List.length_append, List.length_cons, List.length_reverse]
  congr 1
  omega

theorem rfind_eq_none_iff : rfind c s = none ↔ c ∉ s := by
  rw [rfind, Option.map_eq_none_iff, find_eq_none_iff, List.mem_reverse]

theorem eq_append_of_rfind (h : rfind c s = some i) :
    ∃ a b, s = a ++ c :: b ∧ c ∉ b ∧ a.length = i := by
  obtain ⟨j, hj, rfl⟩ := Option.map_eq_some_iff.mp h
  obtain ⟨b, a, hs, hb, rfl⟩ := eq_append_of_find hj
  have hs : s = a.reverse ++ c :: b.reverse := by
    rw [← List.reverse_reverse s, hs]
    simp
  refine ⟨a.reverse, b.reverse, hs, by simpa using hb, ?_⟩
  rw [hs]
  simp only [List.length_append, List.length_cons, List.length_reverse]
  omega

end Search

end Ppnt.Spec
