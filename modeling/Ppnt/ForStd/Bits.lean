import Mathlib.Data.List.Basic
import Mathlib.Data.List.Flatten
import Mathlib.Data.List.Induction
import Mathlib.Data.Nat.Bitwise
import Mathlib.Tactic.Ring

/-!
# Words of bits

A bit string has its highest bit first.  `ofNat w v` is the `w`-bit word of a number and `words w`
cuts a bit string into words of `w` bits; bits that do not fill a word are dropped.  A text of words
of one width is turned into one of another width by writing out the bits and cutting them again.

## Key results

- `toNat_ofNat`, `ofNat_toNat`: a word and its number
- `words_flatMap`, `flatMap_words`: words are read back from their bits, and bits from their words
-/

namespace Bits

/-- The low `w` bits of `v`. -/
def ofNat : Nat → Nat → List Bool
  | 0, _ => []
  | w + 1, v => v.testBit w :: ofNat w v

def toNat (bits : List Bool) : Nat := bits.foldl (fun n b => 2 * n + b.toNat) 0

/-- The words of `w` bits. -/
def words (w : Nat) (bits : List Bool) : List Nat :=
  (List.range (bits.length / w)).map fun i => toNat ((bits.drop (i * w)).take w)

/-! ## One word -/

@[simp] theorem length_ofNat (w v : Nat) : (ofNat w v).length = w := by
  induction w with
  | zero => rfl
  | succ w ih => rw [ofNat, List.length_cons, ih]

@[simp] theorem toNat_nil : toNat [] = 0 := rfl

theorem toNat_concat (xs : List Bool) (b : Bool) : toNat (xs ++ [b]) = 2 * toNat xs + b.toNat := by
  rw [toNat, List.foldl_append, List.foldl_cons, List.foldl_nil, ← toNat]

theorem toNat_append (xs ys : List Bool) :
    toNat (xs ++ ys) = toNat xs * 2 ^ ys.length + toNat ys := by
  induction ys using List.reverseRecOn with
  | nil => simp
  | append_singleton ys y ih =>
    rw [← List.append_assoc, toNat_concat, ih, toNat_concat, List.length_append,
      List.length_singleton, pow_succ]
    ring

theorem toNat_cons (b : Bool) (xs : List Bool) :
    toNat (b :: xs) = b.toNat * 2 ^ xs.length + toNat xs := by
  have hone : toNat [b] = b.toNat := Nat.zero_add _
  rw [← List.singleton_append, toNat_append, hone]

theorem toNat_lt (xs : List Bool) : toNat xs < 2 ^ xs.length := by
  induction xs with
  | nil => simp
  | cons b xs ih =>
    have hb : b.toNat ≤ 1 := Bool.toNat_le b
    have hle : b.toNat * 2 ^ xs.length ≤ 2 ^ xs.length := by
      simpa using Nat.mul_le_mul_right (2 ^ xs.length) hb
    rw [toNat_cons, List.length_cons, pow_succ]
    omega

theorem toNat_ofNat_mod (w v : Nat) : toNat (ofNat w v) = v % 2 ^ w := by
  induction w with
  | zero => simp [ofNat, Nat.mod_one]
  | succ w ih =>
    rw [ofNat, toNat_cons, length_ofNat, ih, Nat.toNat_testBit, Nat.mod_pow_succ, Nat.add_comm,
      Nat.mul_comm]

/-- The last bits of a word are a shorter word of the same number. -/
theorem drop_ofNat (w k v : Nat) : (ofNat w v).drop k = ofNat (w - k) v := by
  induction w generalizing k with
  | zero => rw [Nat.zero_sub, ofNat, List.drop_nil]
  | succ w ih =>
    cases k with
    | zero => rfl
    | succ k => rw [ofNat, List.drop_succ_cons, ih, Nat.succ_sub_succ]

/-- The first bits are a word of its high part. -/
theorem take_ofNat {w k : Nat} (h : k ≤ w) (v : Nat) :
    (ofNat w v).take k = ofNat k (v >>> (w - k)) := by
  induction k generalizing w with
  | zero => rfl
  | succ k ih =>
    obtain ⟨w, rfl⟩ : ∃ w', w = w' + 1 := ⟨w - 1, by omega⟩
    have hbit : w - k + k = w := by omega
    rw [ofNat, ofNat, List.take_succ_cons, ih (by omega), Nat.succ_sub_succ, Nat.testBit_shiftRight,
      hbit]

/-- A number that fits its word is read back. -/
theorem toNat_ofNat {w v : Nat} (h : v < 2 ^ w) : toNat (ofNat w v) = v := by
  rw [toNat_ofNat_mod, Nat.mod_eq_of_lt h]

/-- Higher bits do not matter. -/
theorem ofNat_add (w k a v : Nat) (hv : v < 2 ^ k) (hw : w ≤ k) :
    ofNat w (a * 2 ^ k + v) = ofNat w v := by
  induction w with
  | zero => rfl
  | succ w ih =>
    rw [ofNat, ofNat, ih (by omega), Nat.mul_comm, Nat.testBit_two_pow_mul_add a hv,
      if_pos (Nat.lt_of_succ_le hw)]

/-- A word is the word of its number. -/
theorem ofNat_toNat (xs : List Bool) : ofNat xs.length (toNat xs) = xs := by
  induction xs with
  | nil => rfl
  | cons b xs ih =>
    have hhigh : (b.toNat * 2 ^ xs.length + toNat xs).testBit xs.length = b := by
      rw [Nat.mul_comm, Nat.testBit_two_pow_mul_add _ (toNat_lt xs), if_neg (lt_irrefl _),
        Nat.sub_self]
      cases b <;> rfl
    rw [List.length_cons, ofNat, toNat_cons, hhigh, ofNat_add _ _ _ _ (toNat_lt xs) le_rfl, ih]

/-! ## Texts of words -/

theorem length_flatMap_ofNat {α : Type*} (w : Nat) (f : α → Nat) (xs : List α) :
    (xs.flatMap fun x => ofNat w (f x)).length = w * xs.length := by
  induction xs with
  | nil => rfl
  | cons x xs ih =>
    rw [List.flatMap_cons, List.length_append, length_ofNat, ih, List.length_cons, Nat.mul_succ,
      Nat.add_comm]

@[simp] theorem length_words (w : Nat) (bits : List Bool) :
    (words w bits).length = bits.length / w := by
  simp [words]

theorem lt_of_mem_words {w : Nat} {bits : List Bool} {v : Nat} (hv : v ∈ words w bits) :
    v < 2 ^ w := by
  obtain ⟨i, _, rfl⟩ := List.mem_map.mp hv
  exact (toNat_lt _).trans_le (Nat.pow_le_pow_right (by decide) (List.length_take_le w _))

theorem words_eq_nil {w : Nat} {bits : List Bool} (h : bits.length < w) : words w bits = [] := by
  rw [words, Nat.div_eq_of_lt h]
  rfl

/-- The first word. -/
theorem words_append {w : Nat} (hw : 0 < w) {xs : List Bool} (hxs : xs.length = w)
    (ys : List Bool) : words w (xs ++ ys) = toNat xs :: words w ys := by
  have hlen : (xs ++ ys).length / w = ys.length / w + 1 := by
    rw [List.length_append, hxs, Nat.add_comm, Nat.add_div_right _ hw]
  rw [words, hlen, List.range_succ_eq_map, List.map_cons, List.map_map, Nat.zero_mul,
    List.drop_zero, List.take_left' hxs, words]
  refine congrArg (toNat xs :: ·) (List.map_congr_left fun i _ => ?_)
  rw [Function.comp_apply, Nat.succ_mul, Nat.add_comm, ← List.drop_drop, List.drop_left' hxs]

/-- Bits that are made of words. -/
theorem words_flatten {w : Nat} (hw : 0 < w) {ws : List (List Bool)}
    (hws : ∀ xs ∈ ws, xs.length = w)
    (rest : List Bool) : words w (ws.flatten ++ rest) = ws.map toNat ++ words w rest := by
  induction ws with
  | nil => rfl
  | cons xs ws ih =>
    rw [List.flatten_cons, List.append_assoc, words_append hw (hws xs List.mem_cons_self),
      ih fun ys hys => hws ys (List.mem_cons_of_mem xs hys)]
    rfl

/-- Numbers that fit their words are read back. -/
theorem words_flatMap {w : Nat} (hw : 0 < w) {vs : List Nat} (hvs : ∀ v ∈ vs, v < 2 ^ w)
    (rest : List Bool) : words w (vs.flatMap (ofNat w) ++ rest) = vs ++ words w rest := by
  have hlen : ∀ xs ∈ vs.map (ofNat w), xs.length = w := by
    simp only [List.mem_map, forall_exists_index, and_imp]
    rintro xs v _ rfl
    exact length_ofNat w v
  have hback : (vs.map (ofNat w)).map toNat = vs := by
    rw [List.map_map]
    exact (List.map_congr_left fun v hv => toNat_ofNat (hvs v hv)).trans vs.map_id
  rw [List.flatMap_def, words_flatten hw hlen, hback]

/-- The bits of the words are the bits that fill words. -/
theorem flatMap_words {w : Nat} (hw : 0 < w) (bits : List Bool) :
    (words w bits).flatMap (ofNat w) = bits.take (w * (bits.length / w)) := by
  obtain ⟨n, hn⟩ : ∃ n, bits.length / w = n := ⟨_, rfl⟩
  rw [hn]
  induction n generalizing bits with
  | zero => simp [words, hn]
  | succ n ih =>
    have hle : w ≤ bits.length := by
      by_contra hlt
      rw [Nat.div_eq_of_lt (by omega)] at hn
      exact absurd hn (by omega)
    -- the first word and the rest
    obtain ⟨xs, ys, rfl, rfl⟩ : ∃ xs ys, bits = xs ++ ys ∧ xs.length = w :=
      ⟨bits.take w, bits.drop w, (List.take_append_drop w bits).symm, List.length_take_of_le hle⟩
    have hrest : ys.length / xs.length = n := by
      rw [List.length_append, Nat.add_comm, Nat.add_div_right _ hw] at hn
      exact Nat.succ.inj hn
    rw [words_append hw rfl, List.flatMap_cons, ofNat_toNat, ih ys hrest, Nat.mul_succ,
      Nat.add_comm, List.take_length_add_append]

end Bits
