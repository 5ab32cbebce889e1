import Ppnt.ForStd.Run
import Ppnt.Spec.BinaryUtilCorrect

/-!
# Bounds and failures of the binary reader

What every operation of `BinaryReader` does to the position, over all its arguments.  The sum in
`ensure` may wrap, and a read with a length prefix is two reads, of which the second one may fail.
-/

namespace Ppnt.Spec

open Ppnt.Native

/-! ## Operations -/

/-- A call of an operation of `BinaryReader`. -/
inductive ReaderOp where
  | seek (pos : UInt64)
  | skip (n : UInt64)
  | readU8
  | readBytes (n : UInt64)
  | readU16 (endian : Endian)
  | readU32 (endian : Endian)
  | readU64 (endian : Endian)
  | readU24 (endian : Endian)
  | readU8LengthPrefixed
  | readU16LengthPrefixed (endian : Endian)
  | readU24LengthPrefixed
  | readString (n : UInt64)
  | readU16LengthPrefixedString
deriving DecidableEq, Repr

/-- What an operation returns if it succeeds. -/
inductive ReadResult where
  | done
  | num (v : Nat)
  | extent (e : BinaryReader.Extent)
deriving DecidableEq, Repr

namespace ReaderOp

def ofBool (ok : Bool) : Option ReadResult := if ok then some .done else none

def run (native : Endian) (op : ReaderOp) (r : BinaryReader) : Option ReadResult × BinaryReader :=
  match op with
  | .seek pos => (r.seek pos).map ofBool id
  | .skip n => (r.skip n).map ofBool id
  | .readU8 => r.readU8.map (Option.map fun v => .num v.toNat) id
  | .readBytes n => (r.readExtent n).map (Option.map .extent) id
  | .readU16 endian => (r.readU16 native endian).map (Option.map fun v => .num v.toNat) id
  | .readU32 endian => (r.readU32 native endian).map (Option.map fun v => .num v.toNat) id
  | .readU64 endian => (r.readU64 native endian).map (Option.map fun v => .num v.toNat) id
  | .readU24 endian => (r.readU24 endian).map (Option.map fun v => .num v.toNat) id
  | .readU8LengthPrefixed => r.readU8LengthPrefixed.map (Option.map .extent) id
  | .readU16LengthPrefixed endian =>
    (r.readU16LengthPrefixed native endian).map (Option.map .extent) id
  | .readU24LengthPrefixed => r.readU24LengthPrefixed.map (Option.map .extent) id
  | .readString n => (r.readString n).map (Option.map .extent) id
  | .readU16LengthPrefixedString =>
    (r.readU16LengthPrefixedString native).map (Option.map .extent) id

/-- The number of bytes that the caller asks for. -/
def request : ReaderOp → Option UInt64
  | .skip n | .readBytes n | .readString n => some n
  | _ => none

/-- Width and byte order of an integer that is returned. -/
def integer : ReaderOp → Option (UInt64 × Endian)
  | .readU8 => some (1, .big)
  | .readU16 endian => some (2, endian)
  | .readU24 endian => some (3, endian)
  | .readU32 endian => some (4, endian)
  | .readU64 endian => some (8, endian)
  | _ => none

/-- Width and byte order of a length prefix. -/
def lengthPrefix : ReaderOp → Option (UInt64 × Endian)
  | .readU8LengthPrefixed => some (1, .big)
  | .readU16LengthPrefixed endian => some (2, endian)
  | .readU24LengthPrefixed => some (3, .big)
  | .readU16LengthPrefixedString => some (2, .big)
  | _ => none

/-- The number of bytes that a successful operation consumes.  `seek` consumes none, it moves. -/
def consumed (op : ReaderOp) (result : ReadResult) : Option Nat :=
  match op.request, op.integer, op.lengthPrefix, result with
  | some n, _, _, _ => some n.toNat
  | none, some (k, _), _, _ => some k.toNat
  | none, none, some (k, _), .extent e => some (k.toNat + e.count)
  | _, _, _, _ => none

/-! ## What an operation should do -/

/-- The operation stays in the buffer, succeeds if and only if there are enough bytes, consumes what
    it returns, and has no effect if it fails. -/
structure Lawful (native : Endian) (op : ReaderOp) (r : BinaryReader) : Prop where
  data_eq : (op.run native r).2.data = r.data
  position_le : (op.run native r).2.offset ≤ r.data.size
  succeeds_iff : ∀ n, op.request = some n →
    ((op.run native r).1.isSome = true ↔ n.toNat ≤ r.remaining)
  advances : ∀ result k, (op.run native r).1 = some result → op.consumed result = some k →
    (op.run native r).2.offset = r.offset + k
  inside : ∀ e, (op.run native r).1 = some (.extent e) →
    r.offset ≤ e.start ∧ e.start + e.count ≤ r.data.size
  value : ∀ v, (op.run native r).1 = some (.num v) → ∃ k endian, op.integer = some (k, endian) ∧
    k.toNat ≤ r.remaining ∧ v = ofMemBytes endian (r.rest.take k.toNat)
  unchanged : (op.run native r).1 = none → (op.run native r).2.offset = r.offset

/-- The sum in `ensure` does not wrap, and the bytes that a prefix announces are there. -/
structure Safe (op : ReaderOp) (r : BinaryReader) : Prop where
  request : ∀ n, op.request = some n → r.offset + n.toNat < 2 ^ 64
  lengthPrefix : ∀ k endian, op.lengthPrefix = some (k, endian) → k.toNat ≤ r.remaining →
    k.toNat + ofMemBytes endian (r.rest.take k.toNat) ≤ r.remaining

/-! ## The three kinds of operations -/

variable {k n : UInt64} {endian : Endian}

section Kinds

variable (native : Endian) {op : ReaderOp} (r : BinaryReader)

private theorem kinds (op : ReaderOp) : (∃ pos, op = .seek pos) ∨ (∃ n, op.request = some n) ∨
    (∃ k endian, op.integer = some (k, endian)) ∨ ∃ k endian,
      op.lengthPrefix = some (k, endian) := by
  cases op <;> simp [request, integer, lengthPrefix]

/-- Integers and prefixes are short. -/
theorem toNat_integer_le (h : op.integer = some (k, endian)) :
    k.toNat ≤ 8 := by
  cases op <;> simp only [integer, Option.some.injEq, Prod.mk.injEq, reduceCtorEq] at h <;>
    obtain ⟨rfl, rfl⟩ := h <;> decide

private theorem toNat_lengthPrefix_le (h : op.lengthPrefix = some (k, endian)) :
    k.toNat ≤ 3 := by
  cases op <;> simp only [lengthPrefix, Option.some.injEq, Prod.mk.injEq, reduceCtorEq] at h <;>
    obtain ⟨rfl, rfl⟩ := h <;> decide

/-- A request for a number of bytes is decided by `ensure`. -/
theorem run_of_request (h : op.request = some n) :
    ∃ result, (∀ e, result = .extent e → e = ⟨r.offset, n.toNat⟩) ∧ (∀ v, result ≠ .num v) ∧
      op.run native r =
        if hn : r.ensure n then (some result, r.advance n hn) else (none, r) := by
  cases op with
  | skip n =>
    obtain rfl := Option.some.inj h
    refine ⟨.done, ?_, ?_, ?_⟩
    · intro e he
      cases he
    · intro v hv
      cases hv
    · simp only [run, BinaryReader.skip]
      split <;> rfl
  | readBytes n | readString n =>
    obtain rfl := Option.some.inj h
    refine ⟨.extent ⟨r.offset, n.toNat⟩, fun e he => (ReadResult.extent.inj he).symm, ?_, ?_⟩
    · intro v hv
      cases hv
    · simp only [run, BinaryReader.readString, BinaryReader.readExtent]
      split <;> rfl
  | _ => cases h

private theorem map_num {α : Type} (f : α → Nat) (p : Option α × BinaryReader) :
    p.map (Option.map fun v => ReadResult.num (f v)) id =
      (p.map (Option.map f) id).map (Option.map .num) id := by
  obtain ⟨v, r⟩ := p
  cases v <;> rfl

/-- The integers differ in width and byte order only. -/
theorem run_of_integer (h : op.integer = some (k, endian)) :
    op.run native r = (r.readInt k endian).map (Option.map .num) id := by
  cases op <;> simp only [integer, Option.some.injEq, Prod.mk.injEq, reduceCtorEq] at h <;>
    obtain ⟨rfl, rfl⟩ := h <;> simp only [run, map_num]
  · rw [BinaryReader.readU8_eq_readInt]
  · rw [BinaryReader.readU16_eq_readInt]
  · rw [BinaryReader.readU32_eq_readInt]
  · rw [BinaryReader.readU64_eq_readInt]
  · rw [BinaryReader.readU24_eq_readInt]

private theorem map_toUInt64 {α : Type} {f : α → UInt64} {g : α → Nat}
    (hfg : ∀ v, f v = UInt64.ofNat (g v)) (p : Option α × BinaryReader) :
    p.map (Option.map f) id = (p.map (Option.map g) id).map (Option.map UInt64.ofNat) id := by
  obtain ⟨v, r⟩ := p
  cases v <;> simp [hfg]

/-- A read with a length prefix reads the prefix as an integer. -/
theorem run_of_lengthPrefix (h : op.lengthPrefix = some (k, endian)) :
    op.run native r = (BinaryReader.readLengthPrefixed
      ((r.readInt k endian).map (Option.map UInt64.ofNat) id)).map (Option.map .extent) id := by
  have hu8 : ∀ v : UInt8, v.toUInt64 = UInt64.ofNat v.toNat := fun v => by simp
  have hu16 : ∀ v : UInt16, v.toUInt64 = UInt64.ofNat v.toNat := fun v => by simp
  have hu32 : ∀ v : UInt32, v.toUInt64 = UInt64.ofNat v.toNat := fun v => by simp
  cases op <;> simp only [lengthPrefix, Option.some.injEq, Prod.mk.injEq, reduceCtorEq] at h <;>
    obtain ⟨rfl, rfl⟩ := h
  · rw [run, BinaryReader.readU8LengthPrefixed, map_toUInt64 hu8, BinaryReader.readU8_eq_readInt]
  · rw [run, BinaryReader.readU16LengthPrefixed, map_toUInt64 hu16, BinaryReader.readU16_eq_readInt]
  · rw [run, BinaryReader.readU24LengthPrefixed, map_toUInt64 hu32, BinaryReader.readU24_eq_readInt]
  · rw [run, BinaryReader.readU16LengthPrefixedString, BinaryReader.readU16LengthPrefixed,
      map_toUInt64 hu16, BinaryReader.readU16_eq_readInt]

/-- A read with a length prefix that is cut off. -/
private theorem run_of_cut_lengthPrefix (h : op.lengthPrefix = some (k, endian))
    (hk : ¬k.toNat ≤ r.remaining) : op.run native r = (none, r) := by
  have hn : ¬r.ensure k := by
    have := toNat_lengthPrefix_le h
    rwa [BinaryReader.ensure_iff r k (by omega)]
  rw [run_of_lengthPrefix native r h, BinaryReader.readInt, dif_neg hn]
  rfl

/-- A read with a length prefix behind its prefix. -/
theorem run_behind_lengthPrefix (h : op.lengthPrefix = some (k, endian))
    (hk : k.toNat ≤ r.remaining) {len : Nat}
    (hlen : ofMemBytes endian (r.rest.take k.toNat) = len) : ∃ r', r'.data = r.data ∧
      if k.toNat + len ≤ r.remaining then
        op.run native r = (some (.extent ⟨r.offset + k.toNat, len⟩), r') ∧
          r'.offset = r.offset + (k.toNat + len)
      else op.run native r = (none, r') ∧ r'.offset = r.offset + k.toNat := by
  have hshort := toNat_lengthPrefix_le h
  have hn : r.ensure k := (BinaryReader.ensure_iff r k (by omega)).mpr hk
  have hnext : (r.advance k hn).offset = r.offset + k.toNat :=
    BinaryReader.advanced_eq r k (by omega)
  have hleft : (r.advance k hn).remaining = r.remaining - k.toNat := by
    rw [BinaryReader.remaining, hnext, BinaryReader.remaining, Nat.sub_sub]
    rfl
  -- a prefix has at most three bytes
  have hsmall : len < 256 ^ 3 := by
    have hlt := ofMemBytes_lt endian (r.rest.take k.toNat)
    rw [BinaryReader.length_take_rest (by omega) hn, hlen] at hlt
    exact hlt.trans_le (Nat.pow_le_pow_right (by decide) hshort)
  have htoNat : (UInt64.ofNat len).toNat = len :=
    UInt64.toNat_ofNat_of_lt' (hsmall.trans (by decide))
  have hrun : op.run native r =
      ((r.advance k hn).readExtent (UInt64.ofNat len)).map (Option.map .extent) id := by
    rw [run_of_lengthPrefix native r h, BinaryReader.readInt, dif_pos hn, hlen]
    rfl
  have hbody := BinaryReader.ensure_iff (r.advance k hn) (UInt64.ofNat len) (by rw [htoNat]; omega)
  rw [htoNat, hleft] at hbody
  by_cases hle : k.toNat + len ≤ r.remaining
  · have hl := hbody.mpr (by omega)
    have hlast :=
      BinaryReader.advanced_eq (r.advance k hn) (UInt64.ofNat len) (by rw [htoNat]; omega)
    rw [htoNat, hnext] at hlast
    refine ⟨(r.advance k hn).advance _ hl, rfl, ?_⟩
    rw [if_pos hle, hrun, BinaryReader.readExtent, dif_pos hl, htoNat, hnext]
    exact ⟨rfl, hlast.trans (Nat.add_assoc _ _ _)⟩
  · have hl : ¬(r.advance k hn).ensure (UInt64.ofNat len) := by rw [hbody]; omega
    refine ⟨r.advance k hn, rfl, ?_⟩
    rw [if_neg hle, hrun, BinaryReader.readExtent, dif_neg hl]
    exact ⟨rfl, hnext⟩

end Kinds

/-! ## Consumed bytes -/

section Consumed

variable {op : ReaderOp}

private theorem consumed_seek (pos : UInt64) (result : ReadResult) :
    (seek pos).consumed result = none := by
  cases result <;> rfl

private theorem consumed_of_request (h : op.request = some n) (result : ReadResult) :
    op.consumed result = some n.toNat := by
  unfold consumed
  rw [h]

private theorem consumed_of_integer (hrequest : op.request = none)
    (h : op.integer = some (k, endian)) (result : ReadResult) :
    op.consumed result = some k.toNat := by
  unfold consumed
  rw [hrequest, h]

private theorem consumed_of_lengthPrefix (hrequest : op.request = none)
    (hinteger : op.integer = none) (h : op.lengthPrefix = some (k, endian))
    (e : BinaryReader.Extent) :
    op.consumed (.extent e) = some (k.toNat + e.count) := by
  unfold consumed
  rw [hrequest, hinteger, h]

end Consumed

/-! ## Which operations do what they should -/

section Lawful

variable {native : Endian} {op : ReaderOp} {r r' : BinaryReader}

private theorem lawful_seek (native : Endian) (pos : UInt64) (r : BinaryReader) :
    (seek pos).Lawful native r := by
  by_cases h : pos.toNat ≤ r.data.size
  · have hrun : (seek pos).run native r = (some .done, ⟨r.data, pos.toNat, h⟩) := by
      simp [run, BinaryReader.seek, h, ofBool]
    constructor <;> simp [hrun, h, request, consumed_seek]
  · have hrun : (seek pos).run native r = (none, r) := by
      simp [run, BinaryReader.seek, h, ofBool]
    constructor <;> simp [hrun, r.offset_le, request]

/-- An operation that fails without an effect. -/
private theorem lawful_of_none (hrun : op.run native r = (none, r))
    (hrequest : ∀ n, op.request = some n → ¬n.toNat ≤ r.remaining) : op.Lawful native r := by
  constructor <;> simp [hrun, r.offset_le]
  exact fun n hn => not_le.mp (hrequest n hn)

/-- An operation that succeeds and consumes `k` bytes. -/
private theorem lawful_of_some {result : ReadResult} {k : Nat}
    (hrun : op.run native r = (some result, r'))
    (hdata : r'.data = r.data) (hconsumed : op.consumed result = some k)
    (hnext : r'.offset = r.offset + k) (hrequest : ∀ n, op.request = some n → n.toNat ≤ r.remaining)
    (hinside : ∀ e, result = .extent e → r.offset ≤ e.start ∧ e.start + e.count ≤ r'.offset)
    (hvalue : ∀ v, result = .num v → ∃ k endian, op.integer = some (k, endian) ∧
      k.toNat ≤ r.remaining ∧ v = ofMemBytes endian (r.rest.take k.toNat)) : op.Lawful native
      r := by
  have hend : r'.offset ≤ r.data.size := hdata ▸ r'.offset_le
  constructor <;> rw [hrun]
  · exact hdata
  · exact hend
  · exact fun n hn => iff_of_true rfl (hrequest n hn)
  · intro result' k' hresult hk'
    obtain rfl := Option.some.inj hresult
    rw [← Option.some.inj (hconsumed.symm.trans hk')]
    exact hnext
  · intro e he
    obtain ⟨hstart, hstop⟩ := hinside e (Option.some.inj he)
    exact ⟨hstart, hstop.trans hend⟩
  · exact fun v hv => hvalue v (Option.some.inj hv)
  · exact fun hnone => nomatch hnone

/-- An operation is of one kind only. -/
private theorem kind_of_integer (h : op.integer = some (k, endian)) :
    op.request = none ∧ op.lengthPrefix = none := by
  cases op <;> first | exact ⟨rfl, rfl⟩ | simp [integer] at h

private theorem kind_of_lengthPrefix (h : op.lengthPrefix = some (k, endian)) :
    op.request = none ∧ op.integer = none ∧ 0 < k.toNat := by
  cases op <;> simp only [lengthPrefix, Option.some.injEq, Prod.mk.injEq, reduceCtorEq] at h <;>
    obtain ⟨rfl, rfl⟩ := h <;> exact ⟨rfl, rfl, by decide⟩

/-- The bounds check is right up to the overflow of the offset. -/
private theorem lawful_request_iff (h : op.request = some n) :
    op.Lawful native r ↔ r.offset + n.toNat < 2 ^ 64 := by
  obtain ⟨result, hextent, hnum, hrun⟩ := run_of_request native r h
  rw [← BinaryReader.ensure_right_iff]
  -- the check passes, and is right; or it fails, and is right
  by_cases hn : r.ensure n
  · rw [dif_pos hn] at hrun
    constructor
    · intro hlawful
      exact iff_of_true hn ((hlawful.succeeds_iff n h).mp (by rw [hrun]; rfl))
    · intro hright
      have hnext : (r.advance n hn).offset = r.offset + n.toNat :=
        Nat.mod_eq_of_lt ((BinaryReader.ensure_right_iff r n).mp hright)
      apply lawful_of_some hrun rfl (consumed_of_request h _) hnext
      · intro n' hn'
        rw [← Option.some.inj (h.symm.trans hn')]
        exact hright.mp hn
      · intro e he
        rw [hextent e he, hnext]
        exact ⟨le_rfl, le_rfl⟩
      · exact fun v hv => absurd hv (hnum v)
  · rw [dif_neg hn] at hrun
    constructor
    · intro hlawful
      refine iff_of_false hn fun hle => ?_
      exact nomatch (congrArg (fun p => p.1.isSome) hrun).symm.trans
        ((hlawful.succeeds_iff n h).mpr hle)
    · intro hright
      apply lawful_of_none hrun
      intro n' hn'
      rw [← Option.some.inj (h.symm.trans hn'), ← hright]
      exact hn

private theorem lawful_integer (h : op.integer = some (k, endian)) :
    op.Lawful native r := by
  have hk : k.toNat < 2 ^ 63 := by have := toNat_integer_le h; omega
  obtain ⟨hrequest, -⟩ := kind_of_integer h
  have hrun := run_of_integer native r h
  by_cases hn : r.ensure k
  · rw [BinaryReader.readInt, dif_pos hn] at hrun
    apply lawful_of_some hrun rfl (consumed_of_integer hrequest h _)
      (BinaryReader.advanced_eq r k hk)
    · exact fun n hsome => by cases hrequest.symm.trans hsome
    · exact fun e he => by cases he
    · intro v hv
      exact ⟨k, endian, h, (BinaryReader.ensure_iff r k hk).mp hn, (ReadResult.num.inj hv).symm⟩
  · rw [BinaryReader.readInt, dif_neg hn] at hrun
    exact lawful_of_none hrun fun n hsome => by cases hrequest.symm.trans hsome

/-- A read with a length prefix has an effect if the prefix is there and its bytes are not. -/
private theorem lawful_prefix_iff (h : op.lengthPrefix = some (k, endian)) :
    op.Lawful native r ↔ (k.toNat ≤ r.remaining →
      k.toNat + ofMemBytes endian (r.rest.take k.toNat) ≤ r.remaining) := by
  obtain ⟨hrequest, hinteger, hpos⟩ := kind_of_lengthPrefix h
  have hnone : ∀ n, op.request = some n → False := fun n hsome => nomatch hrequest.symm.trans hsome
  by_cases hk : k.toNat ≤ r.remaining
  · obtain ⟨r', hdata, hrun⟩ := run_behind_lengthPrefix native r h hk rfl
    by_cases hle : k.toNat + ofMemBytes endian (r.rest.take k.toNat) ≤ r.remaining
    · rw [if_pos hle] at hrun
      refine iff_of_true ?_ fun _ => hle
      apply lawful_of_some hrun.1 hdata (consumed_of_lengthPrefix hrequest hinteger h _) hrun.2
      · exact fun n hsome => (hnone n hsome).elim
      · intro e he
        obtain rfl := ReadResult.extent.inj he
        exact ⟨Nat.le_add_right _ _, by rw [hrun.2, Nat.add_assoc]⟩
      · exact fun v hv => nomatch hv
    · -- the prefix has been consumed
      rw [if_neg hle] at hrun
      refine iff_of_false (fun hlawful => ?_) fun hsafe => hle (hsafe hk)
      have hsame := hlawful.unchanged (by rw [hrun.1])
      rw [hrun.1, hrun.2] at hsame
      omega
  · refine iff_of_true ?_ fun hle => absurd hle hk
    exact lawful_of_none (run_of_cut_lengthPrefix native r h hk) fun n hsome => (hnone n hsome).elim

/-- An operation stays in the buffer and fails without an effect exactly if it is `Safe`. -/
theorem lawful_iff (native : Endian) (op : ReaderOp) (r : BinaryReader) :
    op.Lawful native r ↔ op.Safe r := by
  obtain ⟨pos, rfl⟩ | ⟨n, h⟩ | ⟨k, endian, h⟩ | ⟨k, endian, h⟩ := op.kinds
  · exact iff_of_true (lawful_seek native pos r)
      ⟨fun n hn => (nomatch hn), fun k endian hk => (nomatch hk)⟩
  · rw [lawful_request_iff h]
    constructor
    · intro hlt
      refine ⟨fun n' hn' => ?_, fun k endian hk => ?_⟩
      · rwa [← Option.some.inj (h.symm.trans hn')]
      · exact nomatch (kind_of_lengthPrefix hk).1.symm.trans h
    · exact fun hsafe => hsafe.request n h
  · obtain ⟨hrequest, hkind⟩ := kind_of_integer h
    exact iff_of_true (lawful_integer h)
      ⟨fun n hn => (nomatch hrequest.symm.trans hn), fun k endian hk =>
        (nomatch hkind.symm.trans hk)⟩
  · rw [lawful_prefix_iff h]
    obtain ⟨hrequest, -⟩ := kind_of_lengthPrefix h
    constructor
    · intro hle
      refine ⟨fun n hn => (nomatch hrequest.symm.trans hn), fun k' endian' hk' => ?_⟩
      obtain ⟨rfl, rfl⟩ := Prod.mk.inj (Option.some.inj (h.symm.trans hk'))
      exact hle
    · exact fun hsafe => hsafe.lengthPrefix k endian h

end Lawful

/-! ## Sequences of operations -/

/-- An operation as a step of the reader. -/
def step (native : Endian) (r : BinaryReader) (op : ReaderOp) : Option BinaryReader :=
  some (op.run native r).2

private theorem run_data (native : Endian) (op : ReaderOp) (r : BinaryReader) :
    (op.run native r).2.data = r.data := by
  obtain ⟨pos, rfl⟩ | ⟨n, h⟩ | ⟨k, endian, h⟩ | ⟨k, endian, h⟩ := op.kinds
  · exact (lawful_seek native pos r).data_eq
  · obtain ⟨result, -, -, hrun⟩ := run_of_request native r h
    rw [hrun]
    split <;> rfl
  · exact (lawful_integer h).data_eq
  · by_cases hk : k.toNat ≤ r.remaining
    · obtain ⟨r', hdata, hrun⟩ := run_behind_lengthPrefix native r h hk rfl
      split at hrun <;> rw [hrun.1, hdata]
    · rw [run_of_cut_lengthPrefix native r h hk]

end ReaderOp

/-- Over all sequences of operations the position stays in the buffer.  They all succeed and fail as
    they should exactly if no sum wraps and no prefix announces too much. -/
theorem reader_lawful_iff (native : Endian) (data : Span) (ops : List ReaderOp) :
    (∀ r, Run.run (ReaderOp.step native) (BinaryReader.ofSpan data) ops = some r →
      r.data = data ∧ r.offset ≤ data.size) ∧
    (Run.Along (ReaderOp.step native) (fun _ r op => op.Lawful native r) []
        (BinaryReader.ofSpan data) ops ↔
      Run.Along (ReaderOp.step native) (fun _ r op => op.Safe r) []
      (BinaryReader.ofSpan data) ops) := by
  refine ⟨fun r hrun => ?_, Run.along_congr (fun _ r op => ReaderOp.lawful_iff native op r) _ _ _⟩
  have hdata : r.data = data := by
    have hstep : ∀ r₁ op r₂, r₁.data = data → ReaderOp.step native r₁ op = some r₂ →
      r₂.data = data := by
      intro r₁ op r₂ hr₁ hstep
      rw [← Option.some.inj hstep, ReaderOp.run_data, hr₁]
    exact Run.stateInvariant_of_run hstep rfl hrun
  exact ⟨hdata, hdata ▸ r.offset_le⟩

/-- Behind one byte there is nothing left, but `skip(2 ^ 64 - 1)` succeeds and goes back to the
    beginning.  A failed read of a prefixed string of five bytes consumes its prefix. -/
theorem skip_wraps_and_prefix_is_lost :
    let data : Span := ⟨[5], by decide⟩
    ¬Run.Along (ReaderOp.step .little) (fun _ r op => op.Lawful .little r) []
        (BinaryReader.ofSpan data) [.skip 1, .skip 0xffffffffffffffff] ∧
      ¬Run.Along (ReaderOp.step .little) (fun _ r op => op.Lawful .little r) []
        (BinaryReader.ofSpan data) [.readU8LengthPrefixed] := by
  intro data
  constructor
  · intro h
    have hlawful := (h.2 _ rfl).1
    exact absurd ((hlawful.succeeds_iff _ rfl).mp (by decide)) (by decide)
  · intro h
    exact absurd (h.1.unchanged rfl) (by decide)

end Ppnt.Spec
