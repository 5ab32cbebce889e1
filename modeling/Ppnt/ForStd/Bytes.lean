import Mathlib.Tactic.Ring
import Mathlib.Data.List.Basic

/-!
# Fixed-width byte strings for unsigned integers

`toLE n v` is the `n`-byte little-endian string of `v` (the value is taken modulo `256 ^ n`)
and `ofLE` reads such a string back.  `toBE` is the network order used by the wire formats.
The two round trips `ofLE_toLE` and `toLE_ofLE` are all the readers and writers need.
-/

namespace Bytes

/-- The `n`-byte little-endian string of `v`, low byte first. -/
def toLE : Nat → Nat → List UInt8
  | 0, _ => []
  | n + 1, v => UInt8.ofNat v :: toLE n (v / 256)

/-- The number a little-endian byte string denotes. -/
def ofLE : List UInt8 → Nat
  | [] => 0
  | b :: bs => b.toNat + 256 * ofLE bs

/-- The `n`-byte big-endian (network order) string of `v`. -/
def toBE (n v : Nat) : List UInt8 := (toLE n v).reverse

/-- The number a big-endian byte string denotes. -/
def ofBE (bs : List UInt8) : Nat := ofLE bs.reverse

@[simp] theorem length_toLE (n v : Nat) : (toLE n v).length = n := by
  induction n generalizing v with
  | zero => rfl
  | succ n ih => simp [toLE, ih]

@[simp] theorem length_toBE (n v : Nat) : (toBE n v).length = n := by
  simp [toBE]

/-- Reading back `n` little-endian bytes gives the value modulo `256 ^ n`. -/
theorem ofLE_toLE_mod (n v : Nat) : ofLE (toLE n v) = v % 256 ^ n := by
  induction n generalizing v with
  | zero => simp [toLE, ofLE, Nat.mod_one]
  | succ n ih =>
    have hlow : (UInt8.ofNat v).toNat = v % 256 := by simp
    rw [toLE, ofLE, ih, hlow, Nat.pow_succ, Nat.mul_comm (256 ^ n) 256, Nat.mod_mul]

/-- A value below `256 ^ n` survives the little-endian round trip. -/
theorem ofLE_toLE {n v : Nat} (h : v < 256 ^ n) : ofLE (toLE n v) = v := by
  rw [ofLE_toLE_mod, Nat.mod_eq_of_lt h]

/-- A byte string survives the little-endian round trip at its own width. -/
theorem toLE_ofLE (bs : List UInt8) : toLE bs.length (ofLE bs) = bs := by
  induction bs with
  | nil => rfl
  | cons b bs ih =>
    have hb : b.toNat < 256 := b.toNat_lt
    have hlow : UInt8.ofNat (b.toNat + 256 * ofLE bs) = b := by
      apply UInt8.toNat_inj.mp
      simp only [UInt8.toNat_ofNat']
      omega
    have hhigh : (b.toNat + 256 * ofLE bs) / 256 = ofLE bs := by omega
    rw [List.length_cons, ofLE, toLE, hlow, hhigh, ih]

theorem ofLE_lt (bs : List UInt8) : ofLE bs < 256 ^ bs.length := by
  induction bs with
  | nil => simp [ofLE]
  | cons b bs ih =>
    have hb : b.toNat < 256 := b.toNat_lt
    rw [ofLE, List.length_cons, Nat.pow_succ]
    omega

/-- The big-endian round trip, the form the length-prefixed readers use. -/
theorem ofBE_toBE {n v : Nat} (h : v < 256 ^ n) : ofBE (toBE n v) = v := by
  rw [ofBE, toBE, List.reverse_reverse, ofLE_toLE h]

/-- A number reads back from `n` bytes if and only if it fits them. -/
theorem ofBE_toBE_iff (n v : Nat) : ofBE (toBE n v) = v ↔ v < 256 ^ n := by
  refine ⟨fun h => ?_, ofBE_toBE⟩
  rw [ofBE, toBE, List.reverse_reverse, ofLE_toLE_mod] at h
  exact h ▸ Nat.mod_lt v (Nat.pow_pos (by decide))

/-- A byte string survives the big-endian round trip at its own width. -/
theorem toBE_ofBE (bs : List UInt8) : toBE bs.length (ofBE bs) = bs := by
  rw [toBE, ofBE, ← List.length_reverse, toLE_ofLE, List.reverse_reverse]

theorem ofBE_lt (bs : List UInt8) : ofBE bs < 256 ^ bs.length := by
  rw [ofBE, ← List.length_reverse]
  exact ofLE_lt _

/-- One byte in network order. -/
theorem toBE_one (v : Nat) : toBE 1 v = [UInt8.ofNat v] := rfl

/-- Two bytes in network order, as the back-patching code stores them. -/
theorem toBE_two (v : Nat) : toBE 2 v = [UInt8.ofNat (v >>> 8), UInt8.ofNat v] := by
  simp [toBE, toLE, Nat.shiftRight_eq_div_pow]

/-- Three bytes in network order, as the back-patching code stores them. -/
theorem toBE_three (v : Nat) :
    toBE 3 v = [UInt8.ofNat (v >>> 16), UInt8.ofNat (v >>> 8), UInt8.ofNat v] := by
  simp [toBE, toLE, Nat.shiftRight_eq_div_pow, Nat.div_div_eq_div_mul]

end Bytes
