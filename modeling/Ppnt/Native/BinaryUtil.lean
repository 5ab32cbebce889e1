import Ppnt.ForStd.Bytes

/-!
# Binary reader and writer

Model of `ppnt-io/src/binary_util.ixx`.  A buffer is a `List UInt8`; `size_t` arguments are
`UInt64`.  The host byte order `native` is a parameter of every multi-byte access, because the
source stores the object representation of an integer after an optional byte swap.

`BinaryReader.ensure` adds its argument to the offset in 64-bit arithmetic, so the sum may wrap;
the model keeps that.  The reader carries `offset ≤ data.size` as a field: the wrapped sum is
the value that is tested and the value that is stored, so no operation can leave the buffer.
-/

namespace Ppnt.Native

/-- `std::endian`. -/
inductive Endian where
  | little
  | big
deriving DecidableEq, Repr

/-- A `std::span<const uint8_t>`.  No C++ object is larger than `PTRDIFF_MAX` bytes. -/
structure Span where
  bytes : List UInt8
  size_lt : bytes.length < 2 ^ 63
deriving DecidableEq

/-- Number of bytes of a span. -/
def Span.size (s : Span) : Nat := s.bytes.length

/-- `subspan(offset, n)`. -/
def Span.subspan (s : Span) (offset n : Nat) : Span where
  bytes := (s.bytes.drop offset).take n
  size_lt := by
    have h := s.size_lt
    simp only [List.length_take, List.length_drop]
    omega

/-! ## Object representation and byte swapping -/

/-- The bytes in memory of an `n`-byte unsigned integer on a host of byte order `native`. -/
def memBytes (native : Endian) (n v : Nat) : List UInt8 :=
  match native with
  | .little => Bytes.toLE n v
  | .big => Bytes.toBE n v

/-- The unsigned integer whose object representation is `bs` on a host of byte order `native`. -/
def ofMemBytes (native : Endian) (bs : List UInt8) : Nat :=
  match native with
  | .little => Bytes.ofLE bs
  | .big => Bytes.ofBE bs

/-- `byteswap` on an `n`-byte integer. -/
def byteswap (n v : Nat) : Nat := Bytes.ofLE (Bytes.toLE n v).reverse

/-- `byteswap_if_needed`: swap unless the requested order is the host's. -/
def byteswapIfNeeded (native endian : Endian) (n v : Nat) : Nat :=
  if endian = native then v else byteswap n v

/-! ## `BinartWriter` -/

/-- `BinartWriter`: a growing byte buffer. -/
structure BinartWriter where
  buffer : List UInt8 := []

namespace BinartWriter

def size (w : BinartWriter) : Nat := w.buffer.length

def writeU8 (w : BinartWriter) (b : UInt8) : BinartWriter :=
  { buffer := w.buffer ++ [b] }

def writeBytes (w : BinartWriter) (bytes : List UInt8) : BinartWriter :=
  { buffer := w.buffer ++ bytes }

/-- The common body of `write_u16`, `write_u32` and `write_u64`: swap, then copy the object. -/
def writeUInt (native : Endian) (n : Nat) (w : BinartWriter) (v : Nat) (endian : Endian) :
    BinartWriter :=
  w.writeBytes (memBytes native n (byteswapIfNeeded native endian n v))

def writeU16 (native : Endian) (w : BinartWriter) (v : UInt16) (endian : Endian := .big) :
    BinartWriter :=
  w.writeUInt native 2 v.toNat endian

def writeU32 (native : Endian) (w : BinartWriter) (v : UInt32) (endian : Endian := .big) :
    BinartWriter :=
  w.writeUInt native 4 v.toNat endian

def writeU64 (native : Endian) (w : BinartWriter) (v : UInt64) (endian : Endian := .big) :
    BinartWriter :=
  w.writeUInt native 8 v.toNat endian

/-- `write_u24` stores the bytes one by one, so the host does not matter. -/
def writeU24 (w : BinartWriter) (v : UInt32) (endian : Endian := .big) : BinartWriter :=
  let high := ((v >>> 16) &&& 0xff).toUInt8
  let middle := ((v >>> 8) &&& 0xff).toUInt8
  let low := (v &&& 0xff).toUInt8
  match endian with
  | .big => ((w.writeU8 high).writeU8 middle).writeU8 low
  | .little => ((w.writeU8 low).writeU8 middle).writeU8 high

def writeU8LengthPrefixed (w : BinartWriter) (data : List UInt8) : BinartWriter :=
  (w.writeU8 (UInt8.ofNat data.length)).writeBytes data

/-- The overload of `write_u16_length_prefixed` for a span. -/
def writeU16LengthPrefixedBytes (native : Endian) (w : BinartWriter) (data : List UInt8)
    (endian : Endian := .big) : BinartWriter :=
  (w.writeU16 native (UInt16.ofNat data.length) endian).writeBytes data

def writeU24LengthPrefixed (w : BinartWriter) (data : List UInt8) : BinartWriter :=
  (w.writeU24 (UInt32.ofNat data.length)).writeBytes data

def writeString (w : BinartWriter) (s : List UInt8) : BinartWriter :=
  if s = [] then w else w.writeBytes s

def writeU16LengthPrefixedString (native : Endian) (w : BinartWriter) (s : List UInt8) :
    BinartWriter :=
  (w.writeU16 native (UInt16.ofNat s.length)).writeString s

/-- The function-argument overload of `write_u16_length_prefixed`: reserve two bytes, run the
    block, then patch the two bytes with the number of bytes the block added. -/
def writeU16LengthPrefixed (native : Endian) (w : BinartWriter)
    (blockWriter : BinartWriter → BinartWriter) : BinartWriter :=
  let lenPos := w.size
  let w₁ := w.writeU16 native 0
  let startPos := w₁.size
  let w₂ := blockWriter w₁
  let dataLen := w₂.size - startPos
  { buffer := (w₂.buffer.set lenPos (UInt8.ofNat (dataLen >>> 8))).set (lenPos + 1)
      (UInt8.ofNat dataLen) }

end BinartWriter

/-! ## `BinaryReader` -/

/-- `BinaryReader`: a span and an offset into it. -/
structure BinaryReader where
  data : Span
  offset : Nat
  offset_le : offset ≤ data.size

namespace BinaryReader

/-- `BinaryReader(data)`. -/
def ofSpan (data : Span) : BinaryReader := ⟨data, 0, Nat.zero_le _⟩

def eof (r : BinaryReader) : Bool := r.data.size ≤ r.offset

def remaining (r : BinaryReader) : Nat := r.data.size - r.offset

/-- `offset_ + n` in `size_t` arithmetic. -/
def advanced (r : BinaryReader) (n : UInt64) : Nat := (r.offset + n.toNat) % 2 ^ 64

/-- `ensure(n)`: `offset_ + n <= data_.size()`. -/
def ensure (r : BinaryReader) (n : UInt64) : Prop := r.advanced n ≤ r.data.size

instance (r : BinaryReader) (n : UInt64) : Decidable (r.ensure n) :=
  inferInstanceAs (Decidable (_ ≤ _))

/-- The reader after `offset_ += n`, for an `n` that passed `ensure`. -/
def advance (r : BinaryReader) (n : UInt64) (h : r.ensure n) : BinaryReader :=
  ⟨r.data, r.advanced n, h⟩

/-- A small request cannot wrap: buffers are far below `2 ^ 64` bytes. -/
theorem advanced_eq (r : BinaryReader) (n : UInt64) (hn : n.toNat < 2 ^ 63) :
    r.advanced n = r.offset + n.toNat := by
  have h₁ := r.offset_le
  have h₂ := r.data.size_lt
  rw [Span.size] at h₁
  rw [advanced, Nat.mod_eq_of_lt (by omega)]

theorem remaining_advance (r : BinaryReader) (n : UInt64) (hn : n.toNat < 2 ^ 63) (h : r.ensure n) :
    (r.advance n h).remaining + n.toNat = r.remaining := by
  have hle : r.advanced n ≤ r.data.size := h
  rw [advanced_eq r n hn] at hle
  show r.data.size - r.advanced n + n.toNat = r.data.size - r.offset
  rw [advanced_eq r n hn]
  omega

def seek (r : BinaryReader) (pos : UInt64) : Bool × BinaryReader :=
  if h : pos.toNat ≤ r.data.size then (true, ⟨r.data, pos.toNat, h⟩) else (false, r)

def skip (r : BinaryReader) (n : UInt64) : Bool × BinaryReader :=
  if h : r.ensure n then (true, r.advance n h) else (false, r)

def readBytes (r : BinaryReader) (n : UInt64) : Option Span × BinaryReader :=
  if h : r.ensure n then
    (some (r.data.subspan r.offset n.toNat), r.advance n h)
  else (none, r)

def readU8 (r : BinaryReader) : Option UInt8 × BinaryReader :=
  if h : r.ensure 1 then (r.data.bytes[r.offset]?, r.advance 1 h) else (none, r)

/-- The common body of `read_u16`, `read_u32` and `read_u64`: copy the object, then swap. -/
def readUInt (native : Endian) (n : UInt64) (r : BinaryReader) (endian : Endian) :
    Option Nat × BinaryReader :=
  if h : r.ensure n then
    let v := ofMemBytes native (r.data.subspan r.offset n.toNat).bytes
    (some (byteswapIfNeeded native endian n.toNat v), r.advance n h)
  else (none, r)

def readU16 (native : Endian) (r : BinaryReader) (endian : Endian := .big) :
    Option UInt16 × BinaryReader :=
  let (v, r) := r.readUInt native 2 endian
  (v.map UInt16.ofNat, r)

def readU32 (native : Endian) (r : BinaryReader) (endian : Endian := .big) :
    Option UInt32 × BinaryReader :=
  let (v, r) := r.readUInt native 4 endian
  (v.map UInt32.ofNat, r)

def readU64 (native : Endian) (r : BinaryReader) (endian : Endian := .big) :
    Option UInt64 × BinaryReader :=
  let (v, r) := r.readUInt native 8 endian
  (v.map UInt64.ofNat, r)

/-- `data_[offset_ + i]`, behind a test that there is such a byte. -/
def byteAt (r : BinaryReader) (i : Nat) : UInt32 := (r.data.bytes.getD (r.offset + i) 0).toUInt32

def readU24 (r : BinaryReader) (endian : Endian := .big) : Option UInt32 × BinaryReader :=
  if h : r.ensure 3 then
    let v := match endian with
      | .big => (r.byteAt 0 <<< 16) ||| (r.byteAt 1 <<< 8) ||| r.byteAt 2
      | .little => (r.byteAt 2 <<< 16) ||| (r.byteAt 1 <<< 8) ||| r.byteAt 0
    (some v, r.advance 3 h)
  else (none, r)

/-! ### Spans by their place -/

/-- The place of a span in the buffer. -/
structure Extent where
  start : Nat
  count : Nat
deriving DecidableEq, Repr

/-- The bytes of a span. -/
def Extent.span (e : Extent) (data : Span) : Span := data.subspan e.start e.count

/-- `read_bytes` with the place of the span.  `subspan` does not test it: if the sum in `ensure`
    wraps, the span is not inside the buffer. -/
def readExtent (r : BinaryReader) (n : UInt64) : Option Extent × BinaryReader :=
  if h : r.ensure n then (some ⟨r.offset, n.toNat⟩, r.advance n h) else (none, r)

/-- The common body of the reads with a length prefix: read the length, then that many bytes. -/
def readLengthPrefixed (len : Option UInt64 × BinaryReader) : Option Extent × BinaryReader :=
  match len with
  | (none, r) => (none, r)
  | (some n, r) => r.readExtent n

def readU8LengthPrefixed (r : BinaryReader) : Option Extent × BinaryReader :=
  readLengthPrefixed (r.readU8.map (Option.map UInt8.toUInt64) id)

def readU16LengthPrefixed (native : Endian) (r : BinaryReader) (endian : Endian := .big) :
    Option Extent × BinaryReader :=
  readLengthPrefixed ((r.readU16 native endian).map (Option.map UInt16.toUInt64) id)

def readU24LengthPrefixed (r : BinaryReader) : Option Extent × BinaryReader :=
  readLengthPrefixed (r.readU24.map (Option.map UInt32.toUInt64) id)

/-- `read_string` returns a view of the bytes that `read_bytes` returns. -/
def readString (r : BinaryReader) (n : UInt64) : Option Extent × BinaryReader := r.readExtent n

def readU16LengthPrefixedString (native : Endian) (r : BinaryReader) :
    Option Extent × BinaryReader :=
  r.readU16LengthPrefixed native

end BinaryReader

end Ppnt.Native
