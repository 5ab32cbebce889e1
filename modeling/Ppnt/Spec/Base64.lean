import Mathlib.Data.List.Nodup
import Mathlib.Data.List.TakeWhile
import Ppnt.ForStd.Bits
import Ppnt.Native.Base64

/-!
# The standard Base64 encoding

The encoding in its own terms, without loops and masks: the bits of the bytes, written out and cut
into words of six, with a letter for each word.  Decoding reads the letters up to the first other
character and cuts their bits into bytes.
-/

namespace Ppnt.Spec

open Ppnt.Native Ppnt.Native.Base64

/-! ## Bits, bytes and letters -/

def octetBits (b : List UInt8) : List Bool := b.flatMap fun c => Bits.ofNat 8 c.toNat

def sextetBits (cs : List UInt8) : List Bool := cs.flatMap fun c => Bits.ofNat 6 (chars.idxOf c)

def octets (bits : List Bool) : List UInt8 := (Bits.words 8 bits).map UInt8.ofNat

def letters (bits : List Bool) : List UInt8 := (Bits.words 6 bits).map fun v => chars.getD v 0

/-! ## The encoding -/

/-- The number of padding characters behind the letters of `n` bytes. -/
def padding (n : Nat) : Nat := (3 - n % 3) % 3

/-- The bits are filled up with zeros to whole letters. -/
def standardEncode (b : List UInt8) : List UInt8 :=
  letters (octetBits b ++ List.replicate (2 * padding b.length) false) ++
    List.replicate (padding b.length) 61

/-- The longest start of a text that is made of letters. -/
def leadingLetters (s : List UInt8) : List UInt8 := s.takeWhile (· ∈ chars)

def standardDecode (s : List UInt8) : List UInt8 := octets (sextetBits (leadingLetters s))

/-- Whole groups of four characters, letters with at most two padding characters behind them, and
    zeros in the bits behind the last whole byte. -/
structure CanonicalBase64 (s : List UInt8) : Prop where
  aligned : 4 ∣ s.length
  padded : ∃ k ≤ 2, s = leadingLetters s ++ List.replicate k 61
  unused : ∀ bit ∈ (sextetBits (leadingLetters s)).drop (8 * (standardDecode s).length), bit = false

/-! ## Single letters -/

/-- The table is made of three ranges and two single characters. -/
private theorem chars_eq : chars =
    (List.range' 65 26).map UInt8.ofNat ++ (List.range' 97 26).map UInt8.ofNat ++
      (List.range' 48 10).map UInt8.ofNat ++ [43, 47] := by
  decide

private theorem length_chars : chars.length = 64 := by
  simp [chars_eq]

private theorem mem_map_range' {c : UInt8} {a n : Nat} (h : a + n ≤ 256) :
    c ∈ (List.range' a n).map UInt8.ofNat ↔ a ≤ c.toNat ∧ c.toNat < a + n := by
  simp only [List.mem_map, List.mem_range'_1]
  constructor
  · rintro ⟨v, hv, rfl⟩
    rwa [UInt8.toNat_ofNat_of_lt' (show v < 2 ^ 8 by omega)]
  · intro hc
    exact ⟨c.toNat, hc, UInt8.ofNat_toNat⟩

theorem mem_chars_iff (c : UInt8) : c ∈ chars ↔ 65 ≤ c.toNat ∧ c.toNat < 91 ∨ 97 ≤ c.toNat ∧
    c.toNat < 123 ∨ 48 ≤ c.toNat ∧ c.toNat < 58 ∨ c.toNat = 43 ∨ c.toNat = 47 := by
  have hpair : c ∈ [43, 47] ↔ c.toNat = 43 ∨ c.toNat = 47 := by simp [← UInt8.toNat_inj]
  rw [chars_eq, List.mem_append, List.mem_append, List.mem_append, mem_map_range' (by decide),
    mem_map_range' (by decide), mem_map_range' (by decide), hpair]
  simp only [or_assoc, Nat.reduceAdd]

private theorem getD_idxOf_chars {c : UInt8} (hc : c ∈ chars) :
    chars.getD (chars.idxOf c) 0 = c := by
  have hlt : chars.idxOf c < chars.length := List.idxOf_lt_length_of_mem hc
  rw [List.getD_eq_getElem chars 0 hlt, List.getElem_idxOf]

private theorem idxOf_getD_chars {v : Nat} (hv : v < 64) : chars.idxOf (chars.getD v 0) = v := by
  have hlt : v < chars.length := by rwa [length_chars]
  have hnodup : chars.Nodup := List.Nodup.of_map UInt8.toNat (by decide)
  rw [List.getD_eq_getElem chars 0 hlt, hnodup.idxOf_getElem]

theorem idxOf_chars_lt {c : UInt8} (hc : c ∈ chars) : chars.idxOf c < 2 ^ 6 := by
  have hlt := List.idxOf_lt_length_of_mem hc
  rwa [length_chars] at hlt

private theorem getD_mem_chars {v : Nat} (hv : v < 64) : chars.getD v 0 ∈ chars := by
  have hlt : v < chars.length := by rwa [length_chars]
  rw [List.getD_eq_getElem chars 0 hlt]
  exact List.getElem_mem hlt

private theorem pad_notMem_chars : (61 : UInt8) ∉ chars := by simp [mem_chars_iff]

/-! ## Texts -/

@[simp] theorem length_octetBits (b : List UInt8) : (octetBits b).length = 8 * b.length :=
  Bits.length_flatMap_ofNat 8 _ b

@[simp] theorem length_sextetBits (cs : List UInt8) : (sextetBits cs).length = 6 * cs.length :=
  Bits.length_flatMap_ofNat 6 _ cs

@[simp] theorem length_octets (bits : List Bool) : (octets bits).length = bits.length / 8 := by
  rw [octets, List.length_map, Bits.length_words]

@[simp] theorem length_letters (bits : List Bool) : (letters bits).length = bits.length / 6 := by
  rw [letters, List.length_map, Bits.length_words]

theorem octets_of_lt {bits : List Bool} (h : bits.length < 8) : octets bits = [] := by
  rw [octets, Bits.words_eq_nil h, List.map_nil]

/-- Bytes are read back from their bits. -/
private theorem octets_octetBits (b : List UInt8) {rest : List Bool} (hrest : rest.length < 8) :
    octets (octetBits b ++ rest) = b := by
  have hbits : octetBits b = (b.map UInt8.toNat).flatMap (Bits.ofNat 8) := by
    rw [octetBits, List.flatMap_map]
  have hlt : ∀ v ∈ b.map UInt8.toNat, v < 2 ^ 8 := by
    simp only [List.mem_map, forall_exists_index, and_imp]
    rintro v c _ rfl
    exact c.toNat_lt
  rw [octets, hbits, Bits.words_flatMap (by decide) hlt, Bits.words_eq_nil hrest, List.append_nil,
    List.map_map]
  exact (List.map_congr_left fun c _ => UInt8.ofNat_toNat).trans b.map_id

/-- The bits of the bytes are the bits that fill bytes. -/
private theorem octetBits_octets (bits : List Bool) :
    octetBits (octets bits) = bits.take (8 * (bits.length / 8)) := by
  rw [← Bits.flatMap_words (by decide) bits, octetBits, octets, List.flatMap_map]
  refine List.flatMap_congr fun v hv => ?_
  rw [UInt8.toNat_ofNat_of_lt' (Bits.lt_of_mem_words hv)]

/-- Letters are read back from their bits. -/
private theorem letters_sextetBits {cs : List UInt8} (hcs : ∀ c ∈ cs, c ∈ chars) :
    letters (sextetBits cs) = cs := by
  have hbits : sextetBits cs = (cs.map chars.idxOf).flatMap (Bits.ofNat 6) ++ [] := by
    rw [sextetBits, List.flatMap_map, List.append_nil]
  have hlt : ∀ v ∈ cs.map chars.idxOf, v < 2 ^ 6 := by
    simp only [List.mem_map, forall_exists_index, and_imp]
    rintro v c hc rfl
    exact idxOf_chars_lt (hcs c hc)
  rw [letters, hbits, Bits.words_flatMap (by decide) hlt, Bits.words_eq_nil (by decide),
    List.append_nil, List.map_map]
  exact (List.map_congr_left fun c hc => getD_idxOf_chars (hcs c hc)).trans cs.map_id

/-- The bits of the letters are the bits that fill letters. -/
private theorem sextetBits_letters (bits : List Bool) :
    sextetBits (letters bits) = bits.take (6 * (bits.length / 6)) := by
  rw [← Bits.flatMap_words (by decide) bits, sextetBits, letters, List.flatMap_map]
  refine List.flatMap_congr fun v hv => ?_
  rw [idxOf_getD_chars (Bits.lt_of_mem_words hv)]

theorem mem_chars_of_mem_letters {bits : List Bool} {c : UInt8} (hc : c ∈ letters bits) :
    c ∈ chars := by
  obtain ⟨v, hv, rfl⟩ := List.mem_map.mp hc
  exact getD_mem_chars (Bits.lt_of_mem_words hv)

theorem mem_chars_of_mem_leadingLetters {s : List UInt8} {c : UInt8} (hc : c ∈ leadingLetters s) :
    c ∈ chars := by
  rw [leadingLetters] at hc
  simpa using List.mem_takeWhile_imp hc

/-- Padding ends the letters. -/
private theorem leadingLetters_padded {cs : List UInt8} (hcs : ∀ c ∈ cs, c ∈ chars) (k : Nat) :
    leadingLetters (cs ++ List.replicate k 61) = cs := by
  have hall : ∀ c ∈ cs, decide (c ∈ chars) = true := fun c hc => decide_eq_true (hcs c hc)
  rw [leadingLetters, List.takeWhile_append_of_pos hall]
  cases k with
  | zero => simp
  | succ k => rw [List.replicate_succ, List.takeWhile_cons_of_neg (by simp [pad_notMem_chars]),
      List.append_nil]

/-! ## Lengths -/

private theorem padding_le (n : Nat) : padding n ≤ 2 := by
  unfold padding
  omega

theorem length_standardEncode (b : List UInt8) :
    (standardEncode b).length = 4 * ((b.length + 2) / 3) := by
  simp only [standardEncode, List.length_append, length_letters, length_octetBits,
    List.length_replicate, padding]
  omega

/-- A last group of `k` letters gives one byte less than it has letters. -/
theorem length_standardDecode (s : List UInt8) :
    (standardDecode s).length =
      3 * ((leadingLetters s).length / 4) + ((leadingLetters s).length % 4 - 1) := by
  rw [standardDecode, length_octets, length_sextetBits]
  omega

/-! ## Round trips -/

private theorem leadingLetters_standardEncode (b : List UInt8) :
    leadingLetters (standardEncode b) =
      letters (octetBits b ++ List.replicate (2 * padding b.length) false) :=
  leadingLetters_padded (fun _ => mem_chars_of_mem_letters) _

/-- The filled bits are the bits of whole letters. -/
private theorem sextetBits_standardEncode (b : List UInt8) :
    sextetBits (leadingLetters (standardEncode b)) =
      octetBits b ++ List.replicate (2 * padding b.length) false := by
  rw [leadingLetters_standardEncode, sextetBits_letters]
  refine List.take_of_length_le ?_
  simp only [List.length_append, length_octetBits, List.length_replicate, padding]
  omega

theorem standardDecode_standardEncode (b : List UInt8) : standardDecode (standardEncode b) = b := by
  have hrest : (List.replicate (2 * padding b.length) false).length < 8 := by
    have := padding_le b.length
    rw [List.length_replicate]
    omega
  rw [standardDecode, sextetBits_standardEncode, octets_octetBits b hrest]

/-- What is encoded is canonical. -/
theorem canonical_standardEncode (b : List UInt8) : CanonicalBase64 (standardEncode b) where
  aligned := by
    rw [length_standardEncode]
    exact Nat.dvd_mul_right 4 _
  padded := ⟨padding b.length, padding_le _, by rw [leadingLetters_standardEncode, standardEncode]⟩
  unused := by
    rw [standardDecode_standardEncode, sextetBits_standardEncode, ← length_octetBits,
      List.drop_left]
    exact fun bit => List.eq_of_mem_replicate

/-- The padding of a canonical text is that of the bytes it stands for. -/
private theorem padding_of_canonical {s : List UInt8} {k : Nat} (haligned : 4 ∣ s.length)
    (hk : k ≤ 2)
    (hs : s.length = (leadingLetters s).length + k) : padding (standardDecode s).length = k := by
  rw [length_standardDecode, padding]
  omega

/-- The canonical encodings are what the standard encoding writes. -/
theorem standardEncode_standardDecode {s : List UInt8} (h : CanonicalBase64 s) :
    standardEncode (standardDecode s) = s := by
  obtain ⟨k, hk, hs⟩ := h.padded
  have hlen : s.length = (leadingLetters s).length + k := by
    conv_lhs => rw [hs, List.length_append, List.length_replicate]
  have hpad : padding (standardDecode s).length = k := padding_of_canonical h.aligned hk hlen
  -- the bits behind the last whole byte are the zeros that encoding fills in
  have hunused : (sextetBits (leadingLetters s)).drop (8 * (standardDecode s).length) =
      List.replicate (2 * k) false := by
    refine List.eq_replicate_iff.mpr ⟨?_, h.unused⟩
    have := length_standardDecode s
    have := h.aligned
    rw [List.length_drop, length_sextetBits]
    omega
  have hbits : octetBits (standardDecode s) ++ List.replicate (2 * k) false =
      sextetBits (leadingLetters s) := by
    rw [← hunused]
    conv_lhs => lhs; rw [standardDecode, octetBits_octets, ← length_octets]
    exact List.take_append_drop _ _
  rw [standardEncode, hpad, hbits, letters_sextetBits fun _ => mem_chars_of_mem_leadingLetters]
  exact hs.symm

end Ppnt.Spec
