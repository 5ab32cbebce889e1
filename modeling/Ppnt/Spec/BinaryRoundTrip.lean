import Ppnt.Spec.ReaderBounds

/-!
# The binary reader inverts the binary writer

A `WriterOp` is a call of an operation of `BinartWriter`; the function argument of
`write_u16_length_prefixed` is the list of the calls that it makes.  `plan` gives the calls of
`BinaryReader` that read back what was written: for a block, `read_u16_length_prefixed` and the
calls on a second reader over the span that it returns.
-/

namespace Ppnt.Spec

open Ppnt.Native

/-! ## Writing -/

/-- A call of an operation of `BinartWriter`. -/
inductive WriterOp where
  | writeU8 (v : UInt8)
  | writeU16 (v : UInt16) (endian : Endian)
  | writeU24 (v : UInt32) (endian : Endian)
  | writeU32 (v : UInt32) (endian : Endian)
  | writeU64 (v : UInt64) (endian : Endian)
  | writeBytes (bytes : List UInt8)
  | writeString (s : List UInt8)
  | writeU8LengthPrefixed (data : List UInt8)
  | writeU16LengthPrefixedBytes (data : List UInt8) (endian : Endian)
  | writeU24LengthPrefixed (data : List UInt8)
  | writeU16LengthPrefixedString (s : List UInt8)
  | writeU16LengthPrefixed (block : List WriterOp)

namespace WriterOp

mutual

def run (native : Endian) : WriterOp → BinartWriter → BinartWriter
  | .writeU8 v, w => w.writeU8 v
  | .writeU16 v endian, w => w.writeU16 native v endian
  | .writeU24 v endian, w => w.writeU24 v endian
  | .writeU32 v endian, w => w.writeU32 native v endian
  | .writeU64 v endian, w => w.writeU64 native v endian
  | .writeBytes bytes, w => w.writeBytes bytes
  | .writeString s, w => w.writeString s
  | .writeU8LengthPrefixed data, w => w.writeU8LengthPrefixed data
  | .writeU16LengthPrefixedBytes data endian, w => w.writeU16LengthPrefixedBytes native data endian
  | .writeU24LengthPrefixed data, w => w.writeU24LengthPrefixed data
  | .writeU16LengthPrefixedString s, w => w.writeU16LengthPrefixedString native s
  | .writeU16LengthPrefixed block, w =>
    w.writeU16LengthPrefixed native fun w' => runAll native block w'

def runAll (native : Endian) : List WriterOp → BinartWriter → BinartWriter
  | [], w => w
  | op :: ops, w => runAll native ops (run native op w)

end

mutual

/-- 24-bit values are below `2 ^ 24`, and every payload fits its prefix. -/
def Fits (native : Endian) : WriterOp → Prop
  | .writeU24 v _ => v.toNat < 2 ^ 24
  | .writeU8LengthPrefixed data => data.length < 2 ^ 8
  | .writeU16LengthPrefixedBytes data _ => data.length < 2 ^ 16
  | .writeU24LengthPrefixed data => data.length < 2 ^ 24
  | .writeU16LengthPrefixedString s => s.length < 2 ^ 16
  | .writeU16LengthPrefixed block => (runAll native block {}).size < 2 ^ 16 ∧ FitsAll native block
  | _ => True

def FitsAll (native : Endian) : List WriterOp → Prop
  | [] => True
  | op :: ops => Fits native op ∧ FitsAll native ops

end

end WriterOp

/-! ## Reading -/

/-- What is called to read a buffer: an operation, or a read of a block and what is called on its
    span. -/
inductive ReadPlan where
  | call (op : ReaderOp)
  | block (plans : List ReadPlan)

/-- What is read.  A block comes with the `eof` of its reader. -/
inductive ReadValue where
  | done
  | num (v : Nat)
  | bytes (bs : List UInt8)
  | block (values : List ReadValue) (eof : Bool)

namespace ReadPlan

def toValue (data : Span) : ReadResult → ReadValue
  | .done => .done
  | .num v => .num v
  | .extent e => .bytes (e.span data).bytes

mutual

def run (native : Endian) : ReadPlan → BinaryReader → Option ReadValue × BinaryReader
  | .call op, r => (op.run native r).map (Option.map (toValue r.data)) id
  | .block plans, r =>
    match r.readU16LengthPrefixed native with
    | (none, r') => (none, r')
    | (some e, r') =>
      let inner := runAll native plans (BinaryReader.ofSpan (e.span r.data))
      (inner.1.map fun values => .block values inner.2.eof, r')

def runAll (native : Endian) : List ReadPlan → BinaryReader → Option (List ReadValue) × BinaryReader
  | [], r => (some [], r)
  | plan :: plans, r =>
    match run native plan r with
    | (none, r') => (none, r')
    | (some value, r') => (runAll native plans r').map (Option.map (value :: ·)) id

end

end ReadPlan

namespace WriterOp

mutual

/-- The calls that read back what a call wrote.  The caller knows the lengths of raw data. -/
def plan : WriterOp → ReadPlan
  | .writeU8 _ => .call .readU8
  | .writeU16 _ endian => .call (.readU16 endian)
  | .writeU24 _ endian => .call (.readU24 endian)
  | .writeU32 _ endian => .call (.readU32 endian)
  | .writeU64 _ endian => .call (.readU64 endian)
  | .writeBytes bytes => .call (.readBytes (UInt64.ofNat bytes.length))
  | .writeString s => .call (.readString (UInt64.ofNat s.length))
  | .writeU8LengthPrefixed _ => .call .readU8LengthPrefixed
  | .writeU16LengthPrefixedBytes _ endian => .call (.readU16LengthPrefixed endian)
  | .writeU24LengthPrefixed _ => .call .readU24LengthPrefixed
  | .writeU16LengthPrefixedString _ => .call .readU16LengthPrefixedString
  | .writeU16LengthPrefixed block => .block (planAll block)

def planAll : List WriterOp → List ReadPlan
  | [] => []
  | op :: ops => plan op :: planAll ops

end

mutual

/-- The value that was written. -/
def value : WriterOp → ReadValue
  | .writeU8 v => .num v.toNat
  | .writeU16 v _ => .num v.toNat
  | .writeU24 v _ => .num v.toNat
  | .writeU32 v _ => .num v.toNat
  | .writeU64 v _ => .num v.toNat
  | .writeBytes bs | .writeString bs | .writeU8LengthPrefixed bs | .writeU16LengthPrefixedBytes bs _
  | .writeU24LengthPrefixed bs | .writeU16LengthPrefixedString bs => .bytes bs
  | .writeU16LengthPrefixed block => .block (valueAll block) true

def valueAll : List WriterOp → List ReadValue
  | [] => []
  | op :: ops => value op :: valueAll ops

end

/-! ## What is in the buffer -/

mutual

/-- The bytes that a call appends. -/
def encoding : WriterOp → List UInt8
  | .writeU8 v => [v]
  | .writeU16 v endian => memBytes endian 2 v.toNat
  | .writeU24 v endian => memBytes endian 3 v.toNat
  | .writeU32 v endian => memBytes endian 4 v.toNat
  | .writeU64 v endian => memBytes endian 8 v.toNat
  | .writeBytes bs | .writeString bs => bs
  | .writeU8LengthPrefixed data => UInt8.ofNat data.length :: data
  | .writeU16LengthPrefixedBytes data endian =>
    memBytes endian 2 (UInt16.ofNat data.length).toNat ++ data
  | .writeU24LengthPrefixed data => memBytes .big 3 (UInt32.ofNat data.length).toNat ++ data
  | .writeU16LengthPrefixedString s => memBytes .big 2 (UInt16.ofNat s.length).toNat ++ s
  | .writeU16LengthPrefixed block => memBytes .big 2 (encodingAll block).length ++ encodingAll block

def encodingAll : List WriterOp → List UInt8
  | [] => []
  | op :: ops => encoding op ++ encodingAll ops

end

mutual

/-- Every operation appends its encoding, a block with its length before it. -/
theorem run_buffer (native : Endian) (op : WriterOp) (w : BinartWriter) :
    (run native op w).buffer = w.buffer ++ encoding op := by
  cases op with
  | writeU8 v => rfl
  | writeBytes bytes => rfl
  | writeU16 v endian => exact w.writeUInt_buffer native 2 v.toNat endian
  | writeU24 v endian => exact w.writeU24_buffer v endian
  | writeU32 v endian => exact w.writeUInt_buffer native 4 v.toNat endian
  | writeU64 v endian => exact w.writeUInt_buffer native 8 v.toNat endian
  | writeString s => exact w.writeString_buffer s
  | writeU8LengthPrefixed data => simp [run, BinartWriter.writeU8LengthPrefixed, encoding]
  | writeU16LengthPrefixedBytes data endian =>
    have hlen := w.writeUInt_buffer native 2 (UInt16.ofNat data.length).toNat endian
    rw [run, BinartWriter.writeU16LengthPrefixedBytes, BinartWriter.writeBytes_buffer,
      BinartWriter.writeU16, hlen, encoding, List.append_assoc]
  | writeU24LengthPrefixed data =>
    rw [run, BinartWriter.writeU24LengthPrefixed, BinartWriter.writeBytes_buffer,
      BinartWriter.writeU24_buffer, encoding, List.append_assoc]
  | writeU16LengthPrefixedString s =>
    have hlen := w.writeUInt_buffer native 2 (UInt16.ofNat s.length).toNat .big
    rw [run, BinartWriter.writeU16LengthPrefixedString, BinartWriter.writeString_buffer,
      BinartWriter.writeU16, hlen, encoding, List.append_assoc]
  | writeU16LengthPrefixed block =>
    -- a block is written by its own operations, so this case is mutual
    have hblock :=
      BinartWriter.writeU16LengthPrefixed_buffer native w (fun w' => runAll native block w')
      (encodingAll block) (runAll_buffer native block)
    rw [run, hblock, encoding, List.append_assoc]
    rfl

private theorem runAll_buffer (native : Endian) (ops : List WriterOp) (w : BinartWriter) :
    (runAll native ops w).buffer = w.buffer ++ encodingAll ops := by
  cases ops with
  | nil => simp [runAll, encodingAll]
  | cons op ops =>
    rw [runAll, runAll_buffer native ops, run_buffer native op, encodingAll, List.append_assoc]

end

end WriterOp

/-! ## What is read -/

/-- A reader that has consumed `k` bytes. -/
private theorem rest_eq_drop {r r' : BinaryReader} {k : Nat} (hdata : r'.data = r.data)
    (hoffset : r'.offset = r.offset + k) : r'.rest = r.rest.drop k := by
  rw [BinaryReader.rest, BinaryReader.rest, hdata, hoffset, List.drop_drop]

namespace ReaderOp

section Complete

variable (native : Endian) {op : ReaderOp} {r : BinaryReader} {k : UInt64} {endian : Endian}
  {bs rest : List UInt8}

/-- What is left of the buffer is enough. -/
private theorem length_le_remaining (hrest : r.rest = bs ++ rest) : bs.length ≤ r.remaining := by
  rw [← BinaryReader.length_rest, hrest, List.length_append]
  omega

private theorem run_integer_of_rest {v : Nat} (h : op.integer = some (k, endian))
    (hv : v < 256 ^ k.toNat) (hrest : r.rest = memBytes endian k.toNat v ++ rest) :
    ∃ r', op.run native r = (some (.num v), r') ∧ r'.rest = rest := by
  have hk : k.toNat < 2 ^ 63 := by have := toNat_integer_le h; omega
  have hlen := length_memBytes endian k.toNat v
  have hn : r.ensure k := by
    rw [BinaryReader.ensure_iff r k hk, ← hlen]
    exact length_le_remaining hrest
  have htake : r.rest.take k.toNat = memBytes endian k.toNat v := by
    rw [hrest, List.take_left' hlen]
  refine ⟨r.advance k hn, ?_, ?_⟩
  · rw [run_of_integer native r h, BinaryReader.readInt, dif_pos hn, htake,
      ofMemBytes_memBytes endian hv]
    rfl
  · rw [BinaryReader.rest_advance r k hk hn, hrest, List.drop_left' hlen]

/-- A read of as many bytes as were written gives them back. -/
private theorem run_request_of_rest (h : op = .readBytes k ∨ op = .readString k)
    (hk : bs.length = k.toNat) (hrest : r.rest = bs ++ rest) :
    ∃ e r', op.run native r = (some (.extent e), r') ∧ (e.span r.data).bytes = bs ∧
      r'.rest = rest := by
  have hle := length_le_remaining hrest
  have hsize := r.data.size_lt
  have hsmall : k.toNat < 2 ^ 63 := by
    rw [BinaryReader.remaining, Span.size] at hle
    omega
  have hn : r.ensure k := by rwa [BinaryReader.ensure_iff r k hsmall, ← hk]
  have hextent : r.readExtent k = (some ⟨r.offset, k.toNat⟩, r.advance k hn) := dif_pos hn
  refine ⟨⟨r.offset, k.toNat⟩, r.advance k hn, ?_, ?_, ?_⟩
  · rcases h with rfl | rfl
    · rw [run, hextent]
      rfl
    · rw [run, BinaryReader.readString, hextent]
      rfl
  · rw [BinaryReader.Extent.span, BinaryReader.subspan_bytes, hrest, List.take_left' hk]
  · rw [BinaryReader.rest_advance r k hsmall hn, hrest, List.drop_left' hk]

/-- A read with a length prefix gives back what was written with one. -/
private theorem run_prefix_of_rest (h : op.lengthPrefix = some (k, endian))
    (hfits : bs.length < 256 ^ k.toNat)
    (hrest : r.rest = memBytes endian k.toNat bs.length ++ (bs ++ rest)) :
    ∃ e r', op.run native r = (some (.extent e), r') ∧ (e.span r.data).bytes = bs ∧
      r'.rest = rest := by
  have hlen := length_memBytes endian k.toNat bs.length
  have hvalue : ofMemBytes endian (r.rest.take k.toNat) = bs.length := by
    rw [hrest, List.take_left' hlen, ofMemBytes_memBytes endian hfits]
  have hall : k.toNat + bs.length ≤ r.remaining := by
    rw [← BinaryReader.length_rest, hrest, List.length_append, List.length_append, hlen]
    omega
  obtain ⟨r', hdata, hrun⟩ := run_behind_lengthPrefix native r h (by omega) hvalue
  rw [if_pos hall] at hrun
  refine ⟨⟨r.offset + k.toNat, bs.length⟩, r', hrun.1, ?_, ?_⟩
  · have hbody : r.data.bytes.drop (r.offset + k.toNat) = bs ++ rest := by
      rw [← List.drop_drop]
      exact (congrArg (List.drop k.toNat) hrest).trans (List.drop_left' hlen)
    exact (congrArg (List.take bs.length) hbody).trans List.take_left
  · rw [rest_eq_drop hdata hrun.2, ← List.drop_drop, hrest, List.drop_left' hlen, List.drop_left]

end Complete

private theorem readU16LengthPrefixed_of_run {native endian : Endian} {r r' : BinaryReader}
    {e : BinaryReader.Extent}
    (h : (readU16LengthPrefixed endian).run native r = (some (.extent e), r')) :
    r.readU16LengthPrefixed native endian = (some e, r') := by
  rw [run] at h
  generalize r.readU16LengthPrefixed native endian = read at h ⊢
  obtain ⟨e', r''⟩ := read
  simpa using h

end ReaderOp

namespace ReadPlan

variable (native : Endian) {op : ReaderOp} {r r' : BinaryReader}

private theorem run_call_num {v : Nat} {rest : List UInt8}
    (h : ∃ r', op.run native r = (some (.num v), r') ∧ r'.rest = rest) :
    ∃ r', run native (.call op) r = (some (.num v), r') ∧ r'.rest = rest := by
  obtain ⟨r', hrun, hrest⟩ := h
  exact ⟨r', by rw [run, hrun]; rfl, hrest⟩

private theorem run_call_bytes {bs rest : List UInt8}
    (h : ∃ e r', op.run native r = (some (.extent e), r') ∧
      (e.span r.data).bytes = bs ∧ r'.rest = rest) :
    ∃ r', run native (.call op) r = (some (.bytes bs), r') ∧ r'.rest = rest := by
  obtain ⟨e, r', hrun, rfl, hrest⟩ := h
  exact ⟨r', by rw [run, hrun]; rfl, hrest⟩

end ReadPlan

/-- A reader at the end of its buffer. -/
private theorem eof_of_rest {r : BinaryReader} (h : r.rest = []) :
    r.eof = true ∧ r.remaining = 0 := by
  have hlen := r.length_rest
  rw [h] at hlen
  have hzero : r.remaining = 0 := hlen.symm
  refine ⟨?_, hzero⟩
  rw [BinaryReader.remaining] at hzero
  rw [BinaryReader.eof, decide_eq_true_eq]
  omega

namespace WriterOp

mutual

/-- The reader finds the value at any place, and goes on behind it. -/
theorem run_plan (native : Endian) (op : WriterOp) (hfits : Fits native op) (r : BinaryReader)
    (rest : List UInt8) (hrest : r.rest = encoding op ++ rest) :
    ∃ r', ReadPlan.run native (plan op) r = (some (value op), r') ∧ r'.rest = rest := by
  have hsize : (encoding op).length < 2 ^ 63 := by
    have hle := congrArg List.length hrest
    have hdata := r.data.size_lt
    rw [BinaryReader.length_rest, BinaryReader.remaining, Span.size, List.length_append] at hle
    omega
  cases op with
  | writeU8 v =>
    have hbyte : r.rest = memBytes .big 1 v.toNat ++ rest := by
      rw [hrest, encoding]
      simp [memBytes, Bytes.toBE_one]
    exact ReadPlan.run_call_num native (ReaderOp.run_integer_of_rest native rfl v.toNat_lt hbyte)
  | writeU16 v endian =>
    exact ReadPlan.run_call_num native (ReaderOp.run_integer_of_rest native rfl v.toNat_lt hrest)
  | writeU24 v endian =>
    exact ReadPlan.run_call_num native (ReaderOp.run_integer_of_rest native rfl hfits hrest)
  | writeU32 v endian | writeU64 v endian =>
    exact ReadPlan.run_call_num native (ReaderOp.run_integer_of_rest native rfl v.toNat_lt hrest)
  | writeBytes bytes =>
    have hlen : bytes.length = (UInt64.ofNat bytes.length).toNat :=
      (UInt64.toNat_ofNat_of_lt' (hsize.trans (by decide))).symm
    exact ReadPlan.run_call_bytes native (ReaderOp.run_request_of_rest native (.inl rfl) hlen hrest)
  | writeString s =>
    have hlen : s.length = (UInt64.ofNat s.length).toNat :=
      (UInt64.toNat_ofNat_of_lt' (hsize.trans (by decide))).symm
    exact ReadPlan.run_call_bytes native (ReaderOp.run_request_of_rest native (.inr rfl) hlen hrest)
  | writeU8LengthPrefixed data =>
    have hkind : r.rest = memBytes .big 1 data.length ++ (data ++ rest) := by
      rw [hrest, encoding]
      simp [memBytes, Bytes.toBE_one]
    exact ReadPlan.run_call_bytes native (ReaderOp.run_prefix_of_rest native rfl hfits hkind)
  | writeU16LengthPrefixedBytes data endian | writeU16LengthPrefixedString s =>
    rw [encoding, UInt16.toNat_ofNat_of_lt' hfits, List.append_assoc] at hrest
    exact ReadPlan.run_call_bytes native (ReaderOp.run_prefix_of_rest native rfl hfits hrest)
  | writeU24LengthPrefixed data =>
    have hlen : (UInt32.ofNat data.length).toNat = data.length := by
      have hlt : data.length < 2 ^ 24 := hfits
      exact UInt32.toNat_ofNat_of_lt' (hlt.trans (by decide))
    rw [encoding, hlen, List.append_assoc] at hrest
    exact ReadPlan.run_call_bytes native (ReaderOp.run_prefix_of_rest native rfl hfits hrest)
  | writeU16LengthPrefixed block =>
    obtain ⟨hblock, hall⟩ := hfits
    rw [BinartWriter.size, runAll_buffer, List.nil_append] at hblock
    rw [encoding, List.append_assoc] at hrest
    have hkind : (ReaderOp.readU16LengthPrefixed .big).lengthPrefix = some (2, .big) := rfl
    obtain ⟨e, r', hrun, hspan, hrest'⟩ := ReaderOp.run_prefix_of_rest native hkind hblock hrest
    have hread := ReaderOp.readU16LengthPrefixed_of_run hrun
    -- the inner reader has the block and nothing else
    obtain ⟨inner, hinner, hend⟩ :=
      runAll_plan native block hall (BinaryReader.ofSpan (e.span r.data)) []
      (by rw [BinaryReader.rest_ofSpan, hspan, List.append_nil])
    refine ⟨r', ?_, hrest'⟩
    rw [plan, ReadPlan.run, hread]
    simp only [hinner, Option.map_some, (eof_of_rest hend).1]
    rfl

private theorem runAll_plan (native : Endian) (ops : List WriterOp) (hfits : FitsAll native ops)
    (r : BinaryReader) (rest : List UInt8) (hrest : r.rest = encodingAll ops ++ rest) :
    ∃ r', ReadPlan.runAll native (planAll ops) r = (some (valueAll ops), r') ∧ r'.rest = rest := by
  cases ops with
  | nil => exact ⟨r, rfl, hrest⟩
  | cons op ops =>
    rw [encodingAll, List.append_assoc] at hrest
    obtain ⟨r₁, hrun, hrest₁⟩ := run_plan native op hfits.1 r _ hrest
    obtain ⟨r₂, hall, hrest₂⟩ := runAll_plan native ops hfits.2 r₁ rest hrest₁
    refine ⟨r₂, ?_, hrest₂⟩
    rw [planAll, ReadPlan.runAll, hrun]
    simp only [hall]
    rfl

end

end WriterOp

/-- What any sequence of calls writes is read back in order, and then the reader is at the end. -/
theorem write_read (native : Endian) (ops : List WriterOp) (hfits : WriterOp.FitsAll native ops)
    (hsize : (WriterOp.runAll native ops {}).buffer.length < 2 ^ 63) :
    ∃ r, ReadPlan.runAll native (WriterOp.planAll ops)
        (BinaryReader.ofSpan ⟨(WriterOp.runAll native ops {}).buffer, hsize⟩) =
          (some (WriterOp.valueAll ops), r) ∧
      r.eof = true ∧ r.remaining = 0 := by
  have hbuffer := WriterOp.runAll_buffer native ops {}
  rw [List.nil_append] at hbuffer
  obtain ⟨r, hrun, hend⟩ := WriterOp.runAll_plan native ops hfits
    (BinaryReader.ofSpan ⟨(WriterOp.runAll native ops {}).buffer, hsize⟩) []
    (hbuffer.trans (List.append_nil _).symm)
  exact ⟨r, hrun, eof_of_rest hend⟩

/-- A block in a block, between integers of both byte orders, on a little endian host. -/
theorem write_read_nested :
    let ops : List WriterOp := [.writeU24 0x010203 .little,
      .writeU16LengthPrefixed [.writeU32 7 .big, .writeU16LengthPrefixed [.writeString [1, 2]]],
      .writeU16 5 .little]
    ∃ r, ReadPlan.runAll .little (WriterOp.planAll ops)
        (BinaryReader.ofSpan ⟨(WriterOp.runAll .little ops {}).buffer, by decide⟩) =
          (some [.num 0x010203, .block [.num 7, .block [.bytes [1, 2]] true] true, .num 5], r) ∧
      r.eof = true ∧ r.remaining = 0 := by
  intro ops
  exact write_read .little ops (by simp only [ops, WriterOp.FitsAll, WriterOp.Fits]; decide)
    (by decide)

end Ppnt.Spec
