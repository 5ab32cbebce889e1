import Mathlib.Tactic.IntervalCases
import Ppnt.Spec.Base64

/-!
# `Base64` computes the standard encoding

The masks and shifts of a group are parts of the bits of its bytes, so a group of the code is a
group of the standard encoding.  The loops are folds over the characters they take as long as no
counter overflows, and a fold is followed group by group, with the one or two bytes (or up to three
letters) that are left at the end.
-/

namespace Ppnt.Spec

open Ppnt.Native Ppnt.Native.Base64

/-! ## Masks and shifts -/

variable {v m p q : UInt8} {w k n : Nat} {pos : Int} {s : List UInt8}

/-- Two disjoint parts of a byte are added. -/
private theorem toNat_add_of_parts {u : UInt8} {xs ys : List Bool}
    (hu : u.toNat = Bits.toNat xs * 2 ^ ys.length) (hv : v.toNat = Bits.toNat ys)
    (hlen : (xs ++ ys).length ≤ 8) : (u + v).toNat = Bits.toNat (xs ++ ys) := by
  have hlt : Bits.toNat (xs ++ ys) < 2 ^ 8 :=
    (Bits.toNat_lt _).trans_le (Nat.pow_le_pow_right (by decide) hlen)
  rw [UInt8.toNat_add, hu, hv, ← Bits.toNat_append, Nat.mod_eq_of_lt hlt]

/-- Of a word of `w` bits, a mask that leaves `k` bits behind the shift takes the first `k`. -/
private theorem toNat_first_bits (b : UInt8) {s : UInt8} (hk : k ≤ w) (hs : s.toNat = w - k)
    (hlt : s.toNat < 8) (hm : m.toNat >>> s.toNat = 2 ^ k - 1) :
    ((b &&& m) >>> s).toNat = Bits.toNat ((Bits.ofNat w b.toNat).take k) := by
  rw [Bits.take_ofNat hk, Bits.toNat_ofNat_mod, ← hs, UInt8.toNat_shiftRight, Nat.mod_eq_of_lt hlt,
    UInt8.toNat_and, Nat.shiftRight_and_distrib, hm, Nat.and_two_pow_sub_one_eq_mod]

private theorem toNat_mask (b : UInt8) {j : Nat} (hk : w - j = k) (hm : m.toNat = 2 ^ k - 1) :
    (b &&& m).toNat = Bits.toNat ((Bits.ofNat w b.toNat).drop j) := by
  rw [Bits.drop_ofNat, hk, Bits.toNat_ofNat_mod, UInt8.toNat_and, hm,
    Nat.and_two_pow_sub_one_eq_mod]

/-- A mask of the last `k` bits takes these, and the shift loses none of them. -/
private theorem toNat_last_bits (b : UInt8) {s : UInt8} {j : Nat} (hk : w - j = k)
    (hm : m.toNat = 2 ^ k - 1) (hs : s.toNat = n) (hn : n < 8) (hlen : k + n ≤ 8) :
    ((b &&& m) <<< s).toNat = Bits.toNat ((Bits.ofNat w b.toNat).drop j) * 2 ^ n := by
  have hlt : Bits.toNat ((Bits.ofNat w b.toNat).drop j) * 2 ^ n < 2 ^ 8 := by
    have hbits := Bits.toNat_lt ((Bits.ofNat w b.toNat).drop j)
    rw [List.length_drop, Bits.length_ofNat, hk] at hbits
    calc _ < 2 ^ k * 2 ^ n := Nat.mul_lt_mul_of_pos_right hbits (Nat.two_pow_pos n)
      _ = 2 ^ (k + n) := (pow_add 2 k n).symm
      _ ≤ 2 ^ 8 := Nat.pow_le_pow_right (by decide) hlen
  rw [UInt8.toNat_shiftLeft, hs, Nat.mod_eq_of_lt hn, toNat_mask b hk hm, Nat.shiftLeft_eq,
    Nat.mod_eq_of_lt hlt]

/-- An index fits six bits. -/
private theorem toNat_index_bits (hv : v.toNat < 64) :
    v.toNat = Bits.toNat (Bits.ofNat 6 v.toNat) := (Bits.toNat_ofNat hv).symm

private theorem toNat_shifted_index (hv : v.toNat < 64) :
    (v <<< 2).toNat = Bits.toNat (Bits.ofNat 6 v.toNat) * 2 ^ 2 := by
  rw [← toNat_index_bits hv, UInt8.toNat_shiftLeft, Nat.shiftLeft_eq]
  exact Nat.mod_eq_of_lt (show v.toNat * 4 < 256 by omega)

/-! ## Groups -/

/-- The bits of three bytes, as they are cut into letters. -/
def cutOctets (x y z : UInt8) : List (List Bool) :=
  let xs := Bits.ofNat 8 x.toNat
  let ys := Bits.ofNat 8 y.toNat
  let zs := Bits.ofNat 8 z.toNat
  [xs.take 6, xs.drop 6 ++ ys.take 4, ys.drop 4 ++ zs.take 2, zs.drop 2]

private theorem length_of_mem_cutOctets {x y z : UInt8} : ∀ bits ∈ cutOctets x y z,
    bits.length = 6 := by
  simp [cutOctets]

private theorem charArray4_eq (x y z : UInt8) :
    (charArray4 #v[x, y, z]).toList.map UInt8.toNat = (cutOctets x y z).map Bits.toNat := by
  have h₀ : ((x &&& 0xfc) >>> 2).toNat = Bits.toNat ((Bits.ofNat 8 x.toNat).take 6) :=
    toNat_first_bits x (by decide) rfl (by decide) rfl
  have h₁ : (((x &&& 0x03) <<< 4) + ((y &&& 0xf0) >>> 4)).toNat =
      Bits.toNat ((Bits.ofNat 8 x.toNat).drop 6 ++ (Bits.ofNat 8 y.toNat).take 4) :=
    toNat_add_of_parts (toNat_last_bits x rfl rfl rfl (by simp) (by simp))
      (toNat_first_bits y (by decide) rfl (by decide) rfl) (by simp)
  have h₂ : (((y &&& 0x0f) <<< 2) + ((z &&& 0xc0) >>> 6)).toNat =
      Bits.toNat ((Bits.ofNat 8 y.toNat).drop 4 ++ (Bits.ofNat 8 z.toNat).take 2) :=
    toNat_add_of_parts (toNat_last_bits y rfl rfl rfl (by simp) (by simp))
      (toNat_first_bits z (by decide) rfl (by decide) rfl) (by simp)
  have h₃ : (z &&& 0x3f).toNat = Bits.toNat ((Bits.ofNat 8 z.toNat).drop 2) := toNat_mask z rfl rfl
  simp [charArray4, cutOctets, h₀, h₁, h₂, h₃]

private theorem group_eq (x y z : UInt8) :
    group #v[x, y, z] = (cutOctets x y z).map fun bits => chars.getD (Bits.toNat bits) 0 := by
  have hmap := congrArg (List.map fun v => chars.getD v 0) (charArray4_eq x y z)
  rwa [List.map_map, List.map_map] at hmap

/-- The letters of the first parts of three bytes. -/
private theorem letters_take_cutOctets (x y z : UInt8) (n : Nat) (rest : List Bool) :
    letters (((cutOctets x y z).take n).flatten ++ rest) = (group #v[x, y, z]).take n ++
      letters rest := by
  have hlen : ∀ bits ∈ (cutOctets x y z).take n, bits.length = 6 :=
    fun bits h => length_of_mem_cutOctets bits (List.mem_of_mem_take h)
  rw [letters, Bits.words_flatten (by decide) hlen, List.map_append, List.map_map, group_eq,
    ← List.map_take]
  rfl

theorem letters_octets (x y z : UInt8) (rest : List Bool) :
    letters (octetBits [x, y, z] ++ rest) = group #v[x, y, z] ++ letters rest :=
  letters_take_cutOctets x y z 4 rest

/-- The zeros of the encoding are those of the bytes that fill the group. -/
private theorem letters_two_octets (x y : UInt8) :
    letters (octetBits [x, y] ++ List.replicate 2 false) = (group #v[x, y, 0]).take 3 :=
  (letters_take_cutOctets x y 0 3 []).trans (List.append_nil _)

private theorem letters_octet (x : UInt8) :
    letters (octetBits [x] ++ List.replicate 4 false) = (group #v[x, 0, 0]).take 2 :=
  (letters_take_cutOctets x 0 0 2 []).trans (List.append_nil _)

/-- The bits of four letters, as they are cut into bytes. -/
def cutSextets (p q r t : Nat) : List (List Bool) :=
  let ps := Bits.ofNat 6 p
  let qs := Bits.ofNat 6 q
  let rs := Bits.ofNat 6 r
  let ts := Bits.ofNat 6 t
  [ps ++ qs.take 2, qs.drop 2 ++ rs.take 4, rs.drop 4 ++ ts]

private theorem length_of_mem_cutSextets {p q r t : Nat} : ∀ bits ∈ cutSextets p q r t,
    bits.length = 8 := by
  simp [cutSextets]

/-- A byte is the byte of its bits. -/
private theorem eq_ofNat_of_toNat {u : UInt8} {bits : List Bool} (h : u.toNat = Bits.toNat bits) :
    u = UInt8.ofNat (Bits.toNat bits) := by
  rw [← h, UInt8.ofNat_toNat]

/-- The first byte does not depend on the last two indices. -/
private theorem charArray3_fst (hp : p.toNat < 64) (q : UInt8) :
    (p <<< 2) + ((q &&& 0x30) >>> 4) =
      UInt8.ofNat (Bits.toNat (Bits.ofNat 6 p.toNat ++ (Bits.ofNat 6 q.toNat).take 2)) := by
  exact eq_ofNat_of_toNat (toNat_add_of_parts (toNat_shifted_index hp)
    (toNat_first_bits q (by decide) rfl (by decide) rfl) (by simp))

/-- The second byte does not depend on the last index. -/
private theorem charArray3_snd (q r : UInt8) :
    ((q &&& 0xf) <<< 4) + ((r &&& 0x3c) >>> 2) =
      UInt8.ofNat
        (Bits.toNat ((Bits.ofNat 6 q.toNat).drop 2 ++ (Bits.ofNat 6 r.toNat).take 4)) := by
  exact eq_ofNat_of_toNat (toNat_add_of_parts (toNat_last_bits q rfl rfl rfl (by simp) (by simp))
    (toNat_first_bits r (by decide) rfl (by decide) rfl) (by simp))

private theorem charArray3_trd (r : UInt8) {t : UInt8} (ht : t.toNat < 64) :
    ((r &&& 0x3) <<< 6) + t =
      UInt8.ofNat (Bits.toNat ((Bits.ofNat 6 r.toNat).drop 4 ++ Bits.ofNat 6 t.toNat)) := by
  refine eq_ofNat_of_toNat (toNat_add_of_parts ?_ (toNat_index_bits ht) (by simp))
  rw [Bits.length_ofNat]
  exact toNat_last_bits r rfl rfl rfl (by simp) (by simp)

/-- The index of a letter is found in the table. -/
private theorem toNat_index {c : UInt8} (hc : c ∈ chars) : (index c).toNat = chars.idxOf c := by
  have hfind : find c chars = some (chars.idxOf c) :=
    (List.findIdx?_eq_some_iff_findIdx_eq.mpr ⟨List.idxOf_lt_length_of_mem hc, rfl⟩)
  have hlt := idxOf_chars_lt hc
  rw [index, hfind, Option.getD_some, UInt8.toNat_ofNat_of_lt' (show _ < 2 ^ 8 by omega)]

private theorem toNat_index_lt {c : UInt8} (hc : c ∈ chars) : (index c).toNat < 64 := by
  rw [toNat_index hc]
  exact idxOf_chars_lt hc

/-- Bytes of bits that are cut already. -/
private theorem octets_flatten {ws : List (List Bool)} (hws : ∀ bits ∈ ws, bits.length = 8)
    (rest : List Bool) :
    octets (ws.flatten ++ rest) = (ws.map fun bits => UInt8.ofNat (Bits.toNat bits)) ++
      octets rest := by
  rw [octets, Bits.words_flatten (by decide) hws, List.map_append, List.map_map]
  rfl

theorem octets_sextets {r t : UInt8} (hp : p ∈ chars) (hq : q ∈ chars) (hr : r ∈ chars)
    (ht : t ∈ chars) (rest : List Bool) :
    octets (sextetBits [p, q, r, t] ++ rest) =
      (charArray3 (#v[p, q, r, t].map index)).toList ++ octets rest := by
  have hcut : sextetBits [p, q, r, t] =
      (cutSextets (chars.idxOf p) (chars.idxOf q) (chars.idxOf r) (chars.idxOf t)).flatten := rfl
  have h₀ := charArray3_fst (toNat_index_lt hp) (index q)
  have h₁ := charArray3_snd (index q) (index r)
  have h₂ := charArray3_trd (index r) (toNat_index_lt ht)
  rw [hcut, octets_flatten length_of_mem_cutSextets]
  simp [charArray3, cutSextets, h₀, h₁, h₂, toNat_index, hp, hq, hr, ht]

private theorem octets_three_sextets {r : UInt8} (hp : p ∈ chars) (hq : q ∈ chars) (hr : r ∈ chars)
    (c : UInt8) :
    octets (sextetBits [p, q, r]) = (charArray3 (#v[p, q, r, c].map index)).toList.take 2 := by
  have hcut : sextetBits [p, q, r] =
      ((cutSextets (chars.idxOf p) (chars.idxOf q) (chars.idxOf r) 0).take 2).flatten ++
        (Bits.ofNat 6 (chars.idxOf r)).drop 4 := rfl
  have hrest : octets ((Bits.ofNat 6 (chars.idxOf r)).drop 4) = [] := octets_of_lt (by simp)
  have h₀ := charArray3_fst (toNat_index_lt hp) (index q)
  have h₁ := charArray3_snd (index q) (index r)
  rw [hcut, octets_flatten fun bits h => length_of_mem_cutSextets bits (List.mem_of_mem_take h),
    hrest]
  simp [charArray3, cutSextets, h₀, h₁, toNat_index, hp, hq, hr]

private theorem octets_two_sextets (hp : p ∈ chars) (hq : q ∈ chars) (c c' : UInt8) :
    octets (sextetBits [p, q]) = (charArray3 (#v[p, q, c, c'].map index)).toList.take 1 := by
  have hcut : sextetBits [p, q] =
      ((cutSextets (chars.idxOf p) (chars.idxOf q) 0 0).take 1).flatten ++
        (Bits.ofNat 6 (chars.idxOf q)).drop 2 := rfl
  have hrest : octets ((Bits.ofNat 6 (chars.idxOf q)).drop 2) = [] := octets_of_lt (by simp)
  have h₀ := charArray3_fst (toNat_index_lt hp) (index q)
  rw [hcut, octets_flatten fun bits h => length_of_mem_cutSextets bits (List.mem_of_mem_take h),
    hrest]
  simp [charArray3, cutSextets, h₀, toNat_index, hp, hq]

private theorem octets_sextet (p : UInt8) : octets (sextetBits [p]) = [] := octets_of_lt (by simp)

/-! ## The encoder, group by group -/

private theorem put_three (a : Vector UInt8 3) (ret : List UInt8) (x y z : UInt8) :
    ((Encoder.put ⟨0, a, ret⟩ x).put y).put z = ⟨0, #v[x, y, z], ret ++ group #v[x, y, z]⟩ := by
  have hset : ((a.set 0 x).set 1 y).set 2 z = #v[x, y, z] := by
    ext j hj
    interval_cases j <;> simp
  rw [← hset]
  rfl

private theorem finish_one (a : Vector UInt8 3) (ret : List UInt8) (x : UInt8) :
    (Encoder.put ⟨0, a, ret⟩ x).finish = ret ++ (group #v[x, 0, 0]).take 2 ++
      List.replicate 2 61 := by
  have hfill : (Vector.ofFn fun j : Fin 3 => if j < 1 then (a.set 0 x)[j] else 0) =
    #v[x, 0, 0] := by
    ext j hj
    interval_cases j <;> simp
  rw [← hfill]
  rfl

private theorem finish_two (a : Vector UInt8 3) (ret : List UInt8) (x y : UInt8) :
    ((Encoder.put ⟨0, a, ret⟩ x).put y).finish =
      ret ++ (group #v[x, y, 0]).take 3 ++ List.replicate 1 61 := by
  have hfill : (Vector.ofFn fun j : Fin 3 => if j < 2 then ((a.set 0 x).set 1 y)[j] else 0) =
      #v[x, y, 0] := by
    ext j hj
    interval_cases j <;> simp
  rw [← hfill]
  rfl

private theorem standardEncode_cons (x y z : UInt8) (b : List UInt8) :
    standardEncode (x :: y :: z :: b) = group #v[x, y, z] ++ standardEncode b := by
  have hpad : padding (x :: y :: z :: b).length = padding b.length := by
    simp only [List.length_cons, padding]
    omega
  have hbits : octetBits (x :: y :: z :: b) = octetBits [x, y, z] ++ octetBits b := by
    simp [octetBits]
  rw [standardEncode, hpad, hbits, List.append_assoc, letters_octets, List.append_assoc,
    ← standardEncode]

/-- What the encoder returns for bytes that start a group. -/
theorem finish_foldl_encoder : ∀ (b : List UInt8) (a : Vector UInt8 3) (ret : List UInt8),
    (b.foldl Encoder.put ⟨0, a, ret⟩).finish = ret ++ standardEncode b
  | [], _, ret => (List.append_nil ret).symm
  | [x], a, ret => by
    rw [List.foldl_cons, List.foldl_nil, finish_one, ← letters_octet, List.append_assoc]
    rfl
  | [x, y], a, ret => by
    rw [List.foldl_cons, List.foldl_cons, List.foldl_nil, finish_two, ← letters_two_octets,
      List.append_assoc]
    rfl
  | x :: y :: z :: b, a, ret => by
    rw [List.foldl_cons, List.foldl_cons, List.foldl_cons, put_three, finish_foldl_encoder b,
      standardEncode_cons, List.append_assoc]

/-! ## The decoder, group by group -/

private theorem put_four (a : Vector UInt8 4) (ret : List UInt8) (p q r t : UInt8) :
    (((Decoder.put ⟨0, a, ret⟩ p).put q).put r).put t =
      ⟨0, #v[p, q, r, t].map index, ret ++ (charArray3 (#v[p, q, r, t].map index)).toList⟩ := by
  have hset : (((a.set 0 p).set 1 q).set 2 r).set 3 t = #v[p, q, r, t] := by
    ext j hj
    interval_cases j <;> simp
  rw [← hset]
  rfl

private theorem finish_two_letters (a : Vector UInt8 4) (ret : List UInt8) (p q : UInt8) :
    ((Decoder.put ⟨0, a, ret⟩ p).put q).finish =
      ret ++ (charArray3 (#v[p, q, 0, 0].map index)).toList.take 1 := by
  have hfill : (Vector.ofFn fun j : Fin 4 => if j < 2 then ((a.set 0 p).set 1 q)[j] else 0) =
      #v[p, q, 0, 0] := by
    ext j hj
    interval_cases j <;> simp
  rw [← hfill]
  rfl

private theorem finish_three_letters (a : Vector UInt8 4) (ret : List UInt8) (p q r : UInt8) :
    (((Decoder.put ⟨0, a, ret⟩ p).put q).put r).finish =
      ret ++ (charArray3 (#v[p, q, r, 0].map index)).toList.take 2 := by
  have hfill :
    (Vector.ofFn fun j : Fin 4 => if j < 3 then (((a.set 0 p).set 1 q).set 2 r)[j] else 0) =
      #v[p, q, r, 0] := by
    ext j hj
    interval_cases j <;> simp
  rw [← hfill]
  rfl

/-- What the decoder returns for letters that start a group. -/
theorem finish_foldl_decoder : ∀ (cs : List UInt8) (a : Vector UInt8 4) (ret : List UInt8),
    (∀ c ∈ cs, c ∈ chars) → (cs.foldl Decoder.put ⟨0, a, ret⟩).finish = ret ++
      octets (sextetBits cs)
  | [], _, ret, _ => (List.append_nil ret).symm
  | [p], a, ret, _ => by
    rw [octets_sextet]
    rfl
  | [p, q], a, ret, hcs => by
    simp only [List.forall_mem_cons] at hcs
    rw [octets_two_sextets hcs.1 hcs.2.1 0 0, ← finish_two_letters a]
    rfl
  | [p, q, r], a, ret, hcs => by
    simp only [List.forall_mem_cons] at hcs
    rw [octets_three_sextets hcs.1 hcs.2.1 hcs.2.2.1 0, ← finish_three_letters a]
    rfl
  | p :: q :: r :: t :: cs, a, ret, hcs => by
    simp only [List.forall_mem_cons] at hcs
    obtain ⟨hp, hq, hr, ht, hrest⟩ := hcs
    have hbits : sextetBits (p :: q :: r :: t :: cs) = sextetBits [p, q, r, t] ++
      sextetBits cs := by
      simp [sextetBits]
    rw [List.foldl_cons, List.foldl_cons, List.foldl_cons, List.foldl_cons, put_four,
      finish_foldl_decoder cs _ _ hrest, hbits, octets_sextets hp hq hr ht, List.append_assoc]

/-! ## The loops -/

private theorem decrement_of_nat (n : Nat) : decrement n = .ok ((n : Int) - 1) :=
  if_neg (by omega)

/-- The loop of `encode` takes all bytes. -/
theorem encodeLoop_eq (b : List UInt8) (e : Encoder) :
    encodeLoop b.length b e = .ok (b.foldl Encoder.put e) := by
  induction b generalizing e with
  | nil => rfl
  | cons x b ih =>
    have hlen : ((x :: b).length : Int) - 1 = b.length := by simp
    have hzero : ((x :: b).length : Int) ≠ 0 := by simp; omega
    rw [encodeLoop, decrement_of_nat, hlen, List.foldl_cons, ← ih (e.put x)]
    show (if ((x :: b).length : Int) = 0 then Except.ok e else encodeLoop b.length b (e.put x)) = _
    rw [if_neg hzero]

/-- The characters that the loop takes are those of the table. -/
private theorem letter_iff (c : UInt8) : (c != 61 && isBase64 c) = decide (c ∈ chars) := by
  have hne : c != 61 ↔ c.toNat ≠ 61 := by simp [← UInt8.toNat_inj]
  have hplus : c == 43 ↔ c.toNat = 43 := by simp [← UInt8.toNat_inj]
  have hslash : c == 47 ↔ c.toNat = 47 := by simp [← UInt8.toNat_inj]
  rw [Bool.eq_iff_iff, decide_eq_true_iff, mem_chars_iff]
  simp only [isBase64, isalnum, Bool.and_eq_true, Bool.or_eq_true, decide_eq_true_eq, hne, hplus,
    hslash, UInt8.le_iff_toNat_le, UInt8.reduceToNat]
  omega

private theorem decodeLoop_cons {inLen : Int} (hmin : inLen ≠ -2 ^ 31) (hzero : inLen ≠ 0)
    (hpos : pos ≠ 2 ^ 31 - 1) (c : UInt8) (s : List UInt8) (d : Decoder) :
    decodeLoop inLen pos (c :: s) d =
      if c ∈ chars then decodeLoop (inLen - 1) (pos + 1) s (d.put c) else .ok d := by
  have hrest : decrement inLen = .ok (inLen - 1) := if_neg hmin
  have hnext : increment pos = .ok (pos + 1) := if_neg hpos
  rw [decodeLoop, hrest]
  refine (if_neg hzero).trans ?_
  simp only [letter_iff, hnext, decide_eq_true_eq]
  rfl

private theorem leadingLetters_cons (c : UInt8) (s : List UInt8) :
    leadingLetters (c :: s) = if c ∈ chars then c :: leadingLetters s else [] := by
  simp [leadingLetters, List.takeWhile_cons]

/-- The loop of `decode` and `decode_bin` takes letters, up to the end or another character. -/
theorem decodeLoop_eq (hn : n ≤ s.length) (hpos : pos + n < 2 ^ 31) (d : Decoder) :
    decodeLoop n pos s d = .ok ((leadingLetters (s.take n)).foldl Decoder.put d) := by
  induction n generalizing pos s d with
  | zero =>
    rw [decodeLoop, decrement_of_nat]
    rfl
  | succ n ih =>
    cases s with
    | nil => exact absurd hn (by simp)
    | cons c s =>
      have hlen : ((n + 1 : Nat) : Int) - 1 = n := by simp
      rw [decodeLoop_cons (by omega) (by omega) (by omega), hlen, List.take_succ_cons,
        leadingLetters_cons]
      by_cases hc : c ∈ chars
      · rw [if_pos hc, if_pos hc, List.foldl_cons,
          ih (Nat.le_of_succ_le_succ hn) (by omega)]
      · rw [if_neg hc, if_neg hc, List.foldl_nil]

/-- A length that is negative in an `int` is counted down to the least `int` and further. -/
theorem decodeLoop_overflow (hk : k ≤ (leadingLetters s).length) (hpos : pos + k < 2 ^ 31)
    (hlt : k < 2 ^ 31) (d : Decoder) :
    decodeLoop (k - 2 ^ 31) pos s d = .error .overflow := by
  induction k generalizing pos s d with
  | zero =>
    rw [decodeLoop]
    rfl
  | succ k ih =>
    cases s with
    | nil => exact absurd hk (by simp [leadingLetters])
    | cons c s =>
      have hrest : ((k + 1 : Nat) : Int) - 2 ^ 31 - 1 = k - 2 ^ 31 := by omega
      rw [leadingLetters_cons] at hk
      by_cases hc : c ∈ chars
      · rw [if_pos hc] at hk
        rw [decodeLoop_cons (by omega) (by omega) (by omega), if_pos hc, hrest,
          ih (Nat.le_of_succ_le_succ hk) (by omega) (by omega)]
      · rw [if_neg hc] at hk
        exact absurd hk (by simp)

/-! ## The functions -/

/-- A length in an `int` keeps its remainder. -/
theorem toInt_spec (n : Nat) : toInt n % 2 ^ 32 = n % 2 ^ 32 ∧ -2 ^ 31 ≤ toInt n ∧
    toInt n < 2 ^ 31 :=
  ⟨Int.bmod_emod, Int.le_bmod (by decide), Int.bmod_lt (by decide)⟩

private theorem toInt_of_lt (h : n < 2 ^ 31) : toInt n = n := by
  have := toInt_spec n
  omega

theorem encode_eq {b : List UInt8} (hb : b.length < 2 ^ 31) (a : Vector UInt8 3) :
    encode a b = .ok (standardEncode b) := by
  rw [encode, encodeBytes, toInt_of_lt hb, encodeLoop_eq]
  exact congrArg Except.ok ((finish_foldl_encoder b a []).trans (List.nil_append _))

/-- The decoders read as much of the text as the `int` says. -/
theorem decode_of_toInt (hn : toInt s.length = n) (a : Vector UInt8 4) :
    decode a s = .ok (standardDecode (s.take n)) := by
  have hspec := toInt_spec s.length
  rw [decode, hn, decodeLoop_eq (by omega) (by omega)]
  refine congrArg Except.ok ((finish_foldl_decoder _ a [] ?_).trans (List.nil_append _))
  exact fun c => mem_chars_of_mem_leadingLetters

theorem decode_eq (hs : s.length < 2 ^ 31) (a : Vector UInt8 4) :
    decode a s = .ok (standardDecode s) := by
  rw [decode_of_toInt (toInt_of_lt hs), List.take_length]

/-- The quotient is cut towards zero, so -1 is no error. -/
theorem reserve_eq_ok_iff (n : Int) : reserve n = .ok () ↔ -1 ≤ n ∧ 3 * n < 2 ^ 31 := by
  have hneg : (n * 3).tdiv 4 < 0 ↔ n ≤ -2 := by
    rw [Int.tdiv_eq_ediv]
    split
    · omega
    · rw [show Int.sign 4 = 1 from rfl]
      omega
  simp only [reserve, hneg]
  split
  · simp; omega
  · split
    · simp; omega
    · simp; omega

private theorem decodeBin_eq (a : Vector UInt8 4) (s : List UInt8) :
    decodeBin a s = (reserve (toInt s.length) >>= fun _ => decode a s) := rfl

theorem decodeBin_of_reserve {a : Vector UInt8 4} (h : reserve (toInt s.length) = .ok ()) :
    decodeBin a s = decode a s := by
  rw [decodeBin_eq, h]
  rfl

theorem reserve_of_decodeBin {a : Vector UInt8 4} {b : List UInt8} (h : decodeBin a s = .ok b) :
    reserve (toInt s.length) = .ok () := by
  rw [decodeBin_eq] at h
  cases hreserve : reserve (toInt s.length) with
  | ok _ => rfl
  | error e =>
    rw [hreserve] at h
    exact absurd h (nomatch ·)

theorem decodeBin_eq_ok_iff (hs : s.length < 2 ^ 31) (a : Vector UInt8 4) :
    decodeBin a s = .ok (standardDecode s) ↔ 3 * s.length < 2 ^ 31 := by
  have hreserve := reserve_eq_ok_iff (toInt s.length)
  constructor
  · intro h
    have hok := hreserve.mp (reserve_of_decodeBin h)
    rw [toInt_of_lt hs] at hok
    omega
  · intro h
    have hok : reserve (toInt s.length) = .ok () := by
      rw [hreserve, toInt_of_lt hs]
      omega
    rw [decodeBin_of_reserve hok, decode_eq hs]

/-- The product overflows before anything is read. -/
theorem decodeBin_overflow (hs : s.length < 2 ^ 31) (hlong : 2 ^ 31 ≤ 3 * s.length)
    (a : Vector UInt8 4) : decodeBin a s = .error .overflow := by
  have hreserve : reserve s.length = .error .overflow := if_pos (Or.inr (by omega))
  rw [decodeBin_eq, toInt_of_lt hs, hreserve]
  rfl

/-- Both decoders return the standard decoding of the letters at the start of the text, with one
    byte less than there are letters in the last, incomplete group; but `decode_bin` only if three
    times the length of the text is an `int`. -/
theorem decode_standard_iff (a : Vector UInt8 4) (s : List UInt8) (hs : s.length < 2 ^ 31) :
    decode a s = .ok (standardDecode s) ∧
      (decodeBin a s = .ok (standardDecode s) ↔ 3 * s.length < 2 ^ 31) ∧
      (standardDecode s).length =
        3 * ((leadingLetters s).length / 4) + ((leadingLetters s).length % 4 - 1) :=
  ⟨decode_eq hs a, decodeBin_eq_ok_iff hs a, length_standardDecode s⟩

/-- Padding in the middle ends the text. -/
theorem decode_standard_iff_padded :
    decode #v[0, 0, 0, 0] (ascii "TWE=TQ==") = .ok (ascii "Ma") ∧
      decodeBin #v[0, 0, 0, 0] (ascii "TWE=TQ==") = .ok (ascii "Ma") := by
  obtain ⟨hdecode, hbin, -⟩ := decode_standard_iff #v[0, 0, 0, 0] (ascii "TWE=TQ==") (by decide)
  have hstandard : standardDecode (ascii "TWE=TQ==") = ascii "Ma" := by decide
  rw [hstandard] at hdecode hbin
  exact ⟨hdecode, hbin.mpr (by decide)⟩

/-- Of the letter A 715827883 times, `decode` makes bytes and `decode_bin` an overflow. -/
theorem long_text_not_decoded :
    let s : List UInt8 := List.replicate 715827883 65
    s.length < 2 ^ 31 ∧ decode #v[0, 0, 0, 0] s = .ok (standardDecode s) ∧
      decodeBin #v[0, 0, 0, 0] s = .error .overflow := by
  intro s
  have hlen : s.length = 715827883 := List.length_replicate
  exact ⟨by omega, decode_eq (by omega) _, decodeBin_overflow (by omega) (by omega) _⟩

end Ppnt.Spec
