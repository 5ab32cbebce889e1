import Ppnt.Spec.Base64Correct

/-!
# Base64 round trips
-/

namespace Ppnt.Spec

open Ppnt.Native Ppnt.Native.Base64

/-! ## Encodings that are too long -/

private theorem length_of_canonical {s : List UInt8} (h : CanonicalBase64 s) :
    s.length ≤ (leadingLetters s).length + 2 := by
  obtain ⟨k, hk, hs⟩ := h.padded
  have hlen := congrArg List.length hs
  rw [List.length_append, List.length_replicate] at hlen
  omega

/-- Neither the end nor the padding is reached before the counter overflows. -/
private theorem decode_overflow {s : List UInt8} (h : CanonicalBase64 s) (hlow : 2 ^ 31 ≤ s.length)
    (hhigh : s.length < 2 ^ 32) (a : Vector UInt8 4) : decode a s = .error .overflow := by
  have hlen : toInt s.length = ((s.length - 2 ^ 31 : Nat) : Int) - 2 ^ 31 := by
    have := toInt_spec s.length
    omega
  have hletters := length_of_canonical h
  rw [decode, hlen, decodeLoop_overflow (by omega) (by omega) (by omega)]
  rfl

/-- `reserve` lets a text of whole groups through if three times the `int` of its length is an
    `int`. -/
private theorem exists_toInt_of_decodeBin {a : Vector UInt8 4} {s b : List UInt8}
    (haligned : 4 ∣ s.length)
    (h : decodeBin a s = .ok b) : ∃ n : Nat, toInt s.length = n ∧ 3 * n < 2 ^ 31 := by
  have hspec := toInt_spec s.length
  have hreserve := (reserve_eq_ok_iff _).mp (reserve_of_decodeBin h)
  exact ⟨(toInt s.length).toNat, by omega, by omega⟩

/-! ## From bytes -/

private theorem length_standardEncode_lt {b : List UInt8} (hb : b.length < 2 ^ 31) :
    (standardEncode b).length < 2 ^ 32 := by
  rw [length_standardEncode]
  omega

private theorem decode_standardEncode_iff {b : List UInt8} (hb : b.length < 2 ^ 31)
    (a : Vector UInt8 4) :
    decode a (standardEncode b) = .ok b ↔ (standardEncode b).length < 2 ^ 31 := by
  constructor
  · intro h
    by_contra hlong
    rw [decode_overflow (canonical_standardEncode b) (by omega) (length_standardEncode_lt hb)] at h
    exact absurd h (nomatch ·)
  · intro h
    rw [decode_eq h, standardDecode_standardEncode]

private theorem decodeBin_standardEncode_iff {b : List UInt8} (hb : b.length < 2 ^ 31)
    (a : Vector UInt8 4) :
    decodeBin a (standardEncode b) = .ok b ↔ 3 * (standardEncode b).length < 2 ^ 31 := by
  constructor
  · intro h
    obtain ⟨n, hn, hlt⟩ := exists_toInt_of_decodeBin (canonical_standardEncode b).aligned h
    have := toInt_spec (standardEncode b).length
    have := length_standardEncode_lt hb
    omega
  · intro h
    have hbin := (decodeBin_eq_ok_iff (s := standardEncode b) (by omega) a).mpr h
    rwa [standardDecode_standardEncode] at hbin

/-! ## From texts -/

private theorem length_standardDecode_le (s : List UInt8) :
    (standardDecode s).length ≤ s.length := by
  have hle : (leadingLetters s).length ≤ s.length := (List.takeWhile_sublist _).length_le
  rw [length_standardDecode]
  omega

/-- The round trip of a text, up to the overflow of `int`. -/
private theorem encode_decodeBin_iff {s : List UInt8} (hs : CanonicalBase64 s) (a₃ : Vector UInt8 3)
    (a₄ : Vector UInt8 4) :
    (∃ b, decodeBin a₄ s = .ok b ∧ encode a₃ b = .ok s) ↔ 3 * s.length < 2 ^ 31 := by
  constructor
  · rintro ⟨b, hdecode, hencode⟩
    obtain ⟨n, hn, hlt⟩ := exists_toInt_of_decodeBin hs.aligned hdecode
    -- the bytes come from the first `n` characters, and so does the text they are encoded to
    have hb : b = standardDecode (s.take n) := by
      rw [decodeBin_of_reserve (reserve_of_decodeBin hdecode), decode_of_toInt hn] at hdecode
      exact (Except.ok.inj hdecode).symm
    have hle : b.length ≤ n := by
      rw [hb]
      exact (length_standardDecode_le _).trans (List.length_take_le n s)
    rw [encode_eq (by omega)] at hencode
    have hlen := length_standardEncode b
    rw [Except.ok.inj hencode] at hlen
    have := toInt_spec s.length
    omega
  · intro h
    have hle := length_standardDecode_le s
    refine ⟨standardDecode s, (decodeBin_eq_ok_iff (by omega) a₄).mpr h, ?_⟩
    rw [encode_eq (by omega), standardEncode_standardDecode hs]

/-- A byte string has a canonical encoding of four characters for every three bytes begun.  `decode`
    gives it back if the length of the encoding is an `int`, and `decode_bin` if three times the
    length is; and a canonical text is the encoding of what `decode_bin` makes of it under the same
    condition. -/
theorem base64_round_trip_iff (a₃ : Vector UInt8 3) (a₄ : Vector UInt8 4) :
    (∀ b : List UInt8, b.length < 2 ^ 31 →
      ∃ s, encode a₃ b = .ok s ∧ s.length = 4 * ((b.length + 2) / 3) ∧ CanonicalBase64 s ∧
        (decode a₄ s = .ok b ↔ s.length < 2 ^ 31) ∧
        (decodeBin a₄ s = .ok b ↔ 3 * s.length < 2 ^ 31)) ∧
      ∀ s : List UInt8, CanonicalBase64 s →
        ((∃ b, decodeBin a₄ s = .ok b ∧ encode a₃ b = .ok s) ↔ 3 * s.length < 2 ^ 31) := by
  refine ⟨fun b hb => ?_, fun s hs => encode_decodeBin_iff hs a₃ a₄⟩
  exact ⟨standardEncode b, encode_eq hb a₃, length_standardEncode b, canonical_standardEncode b,
    decode_standardEncode_iff hb a₄, decodeBin_standardEncode_iff hb a₄⟩

theorem base64_round_trip_iff_two :
    ∃ s, encode #v[7, 7, 7] (ascii "Ma") = .ok s ∧ decode #v[7, 7, 7, 7] s = .ok (ascii "Ma") ∧
      ∃ b, decodeBin #v[7, 7, 7, 7] s = .ok b ∧ encode #v[7, 7, 7] b = .ok s := by
  obtain ⟨hbytes, htexts⟩ := base64_round_trip_iff #v[7, 7, 7] #v[7, 7, 7, 7]
  obtain ⟨s, hencode, hlen, hs, hdecode, -⟩ := hbytes (ascii "Ma") (by decide)
  have hfour : s.length = 4 := hlen
  exact ⟨s, hencode, hdecode.mpr (by omega), (htexts s hs).mpr (by omega)⟩

/-- Of 536870911 bytes, `decode_bin` does not read the encoding; of 1610612734, neither decoder
    does. -/
theorem encoding_not_decoded :
    (∃ s, encode #v[0, 0, 0] (List.replicate 536870911 0) = .ok s ∧
      decodeBin #v[0, 0, 0, 0] s = .error .overflow) ∧
    ∃ s, encode #v[0, 0, 0] (List.replicate 1610612734 0) = .ok s ∧
      decode #v[0, 0, 0, 0] s = .error .overflow := by
  have hlen (n : Nat) : (standardEncode (List.replicate n 0)).length = 4 * ((n + 2) / 3) := by
    rw [length_standardEncode, List.length_replicate]
  have hencode {n : Nat} (hn : n < 2 ^ 31) :
      encode #v[0, 0, 0] (List.replicate n 0) = .ok (standardEncode (List.replicate n 0)) :=
    encode_eq (by rwa [List.length_replicate]) _
  refine ⟨⟨_, hencode (by omega), decodeBin_overflow ?_ ?_ _⟩,
    ⟨_, hencode (by omega), decode_overflow (canonical_standardEncode _) ?_ ?_ _⟩⟩
  all_goals
    rw [hlen]
    omega

end Ppnt.Spec
