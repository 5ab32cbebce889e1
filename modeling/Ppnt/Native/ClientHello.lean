import Ppnt.Native.BinaryUtil
import Ppnt.Native.Err

/-!
# ClientHello rewriting

Model of `ClientHelloRewriter::rewrite` in `ppnt-io/src/net/pptls.cpp`.  The C++ function
parses the original handshake message and then re-encodes it under a `ClientHelloSpec`; the
two halves are `parseOriginal` and `encodeHello`, and `rewrite` runs one after the other.
-/

namespace Ppnt.Native

/-- `TlsExtensionConfig::Strategy`. -/
inductive Strategy where
  | auto
  | forceData
  | drop
deriving DecidableEq, Repr

/-- `TlsExtensionConfig`. -/
structure TlsExtensionConfig where
  id : UInt16
  strategy : Strategy := .auto
  data : List UInt8 := []
deriving DecidableEq, Repr

/-- `ClientHelloSpec`. -/
structure ClientHelloSpec where
  cipherSuites : List UInt16 := []
  compressionMethod : List UInt8 := [0x00]
  extensions : List TlsExtensionConfig := []
deriving DecidableEq, Repr

/-- The local variables of `rewrite` that are live once the original has been parsed. -/
structure ParsedHello where
  legacyVer : UInt16
  random : Span
  sessionIdLen : UInt8
  sessionId : Span
  parsedExtensions : List (UInt16 × Span)
deriving DecidableEq

/-! ## Parsing the original -/

/-- `make_err_result(std::errc::bad_message, msg)`. -/
def badMessage {α : Type} (message : String) : Except Error α :=
  makeErrResult .badMessage message

/-- One iteration of the extension loop.  Both header fields are read before either is
    tested. -/
def readExtension (native : Endian) (exReader : BinaryReader) :
    Except Error ((UInt16 × Span) × BinaryReader) :=
  let (type, r₁) := exReader.readU16 native
  let (len, r₂) := r₁.readU16 native
  match type, len with
  | some type, some len =>
    match r₂.readBytes len.toUInt64 with
    | (some data, r₃) => .ok ((type, data), r₃)
    | (none, _) => badMessage "cannot read data"
  | _, _ => badMessage "cannot read type or len"

/-- The extension loop makes progress: every entry takes at least its id. -/
private theorem readExtension_remaining_lt {native : Endian} {r r' : BinaryReader}
    {entry : UInt16 × Span} (h : readExtension native r = .ok (entry, r')) :
    r'.remaining < r.remaining := by
  -- a read that returns something has advanced the reader
  have hu16 : ∀ {r r' : BinaryReader} {v : UInt16}, r.readU16 native = (some v, r') →
      r'.remaining + 2 = r.remaining := by
    intro r r' v hread
    simp only [BinaryReader.readU16, BinaryReader.readUInt] at hread
    split at hread
    case isTrue hok =>
      obtain ⟨-, rfl⟩ := Prod.mk.inj hread
      exact r.remaining_advance 2 (by decide) hok
    case isFalse => simp at hread
  have hbytes : ∀ {r r' : BinaryReader} {len : UInt16} {data : Span},
      r.readBytes len.toUInt64 = (some data, r') → r'.remaining ≤ r.remaining := by
    intro r r' len data hread
    have hlen : len.toUInt64.toNat < 2 ^ 63 := by
      rw [UInt16.toNat_toUInt64]
      exact Nat.lt_trans len.toNat_lt (by decide)
    unfold BinaryReader.readBytes at hread
    split at hread
    case isTrue hok =>
      obtain ⟨-, rfl⟩ := Prod.mk.inj hread
      exact Nat.le.intro (r.remaining_advance _ hlen hok)
    case isFalse => simp at hread
  unfold readExtension at h
  cases htype : r.readU16 native with
  | mk type r₁ =>
    cases hlen : r₁.readU16 native with
    | mk len r₂ =>
      simp only [htype, hlen] at h
      cases type <;> cases len <;> simp only [badMessage, makeErrResult, reduceCtorEq] at h
      case some.some type len =>
        split at h
        case h_1 data r₃ hread =>
          obtain ⟨-, rfl⟩ := Prod.mk.inj (Except.ok.inj h)
          have h₁ := hu16 htype
          have h₂ := hu16 hlen
          have h₃ := hbytes hread
          omega
        case h_2 => simp at h

/-- The loop `while (ex_reader.remaining())` over the extension block. -/
def readExtensions (native : Endian) (exReader : BinaryReader)
    (parsedExtensions : List (UInt16 × Span)) : Except Error (List (UInt16 × Span)) :=
  if exReader.remaining = 0 then .ok parsedExtensions
  else
    match _h : readExtension native exReader with
    | .ok (entry, exReader') => readExtensions native exReader' (parsedExtensions ++ [entry])
    | .error e => .error e
termination_by exReader.remaining
decreasing_by exact readExtension_remaining_lt _h

/-- `auto x = ...; if (!x) return make_err_result(std::errc::bad_message, msg);` -/
def expect {α : Type} (x : Option α × BinaryReader) (message : String) :
    Except Error (α × BinaryReader) :=
  match x with
  | (some a, reader) => .ok (a, reader)
  | (none, _) => badMessage message

/-- The three tests on the handshake type and length, which are read together. -/
def checkHandshake (handshakeType : Option UInt8) (handshakeLen : Option Span) :
    Except Error Unit :=
  match handshakeType with
  | none => badMessage "cannot read handshake type"
  | some handshakeType =>
    if handshakeType ≠ 0x01 then badMessage "not a client hello"
    else if handshakeLen.isNone then badMessage "cannot read handshake len"
    else .ok ()

/-- The parsing half of `rewrite`. -/
def parseOriginal (native : Endian) (original : Span) : Except Error ParsedHello := do
  let (handshakeType, reader) := (BinaryReader.ofSpan original).readU8
  let (handshakeLen, reader) := reader.readBytes 3
  checkHandshake handshakeType handshakeLen
  let (legacyVer, reader) ← expect (reader.readU16 native) "cannot read legacy version"
  let (random, reader) ← expect (reader.readBytes 32) "cannot read random"
  let (sessionIdLen, reader) ← expect reader.readU8 "cannot read session id len"
  let (sessionId, reader) ←
    expect (reader.readBytes sessionIdLen.toUInt64) "cannot read session id"
  let (ciphersLen, reader) ← expect (reader.readU16 native) "cannot read ciphers len"
  let (_, reader) ← expect (reader.readBytes ciphersLen.toUInt64) "cannot read ciphers"
  let (compLen, reader) ← expect reader.readU8 "cannot read compress len"
  let (_, reader) ← expect (reader.readBytes compLen.toUInt64) "cannot read compress"
  let (extBlockLen, reader) ←
    expect (reader.readU16 native) "cannot read extension block len"
  let (extBlockData, _) ←
    expect (reader.readBytes extBlockLen.toUInt64) "cannot read ext_block_data"
  let parsedExtensions ← readExtensions native (BinaryReader.ofSpan extBlockData) []
  return { legacyVer, random, sessionIdLen, sessionId, parsedExtensions }

/-! ## Encoding -/

/-- Write one extension: id, 16-bit payload size, payload. -/
def writeExtension (native : Endian) (writer : BinartWriter) (id : UInt16)
    (payload : List UInt8) : BinartWriter :=
  ((writer.writeU16 native id).writeU16 native (UInt16.ofNat payload.length)).writeBytes payload

/-- Body of the loop over `spec.extensions`: the writer and `handled_ext_ids` are updated. -/
def writeConfigured (native : Endian) (parsedExtensions : List (UInt16 × Span))
    (acc : BinartWriter × List UInt16) (extCfg : TlsExtensionConfig) :
    BinartWriter × List UInt16 :=
  let handled := acc.2 ++ [extCfg.id]
  match extCfg.strategy with
  | .drop => (acc.1, handled)
  | .forceData => (writeExtension native acc.1 extCfg.id extCfg.data, handled)
  | .auto =>
    match parsedExtensions.find? (fun p => p.1 == extCfg.id) with
    | some it => (writeExtension native acc.1 extCfg.id it.2.bytes, handled)
    | none => (acc.1, handled)

/-- Body of the loop over `parsed_extensions`: copy what the spec does not mention. -/
def writeUnhandled (native : Endian) (handled : List UInt16) (writer : BinartWriter)
    (entry : UInt16 × Span) : BinartWriter :=
  if entry.1 ∈ handled then writer else writeExtension native writer entry.1 entry.2.bytes

/-- The block written under the extension length prefix. -/
def writeExtensions (native : Endian) (parsedExtensions : List (UInt16 × Span))
    (extensions : List TlsExtensionConfig) (writer : BinartWriter) : BinartWriter :=
  let (writer, handled) := extensions.foldl (writeConfigured native parsedExtensions) (writer, [])
  parsedExtensions.foldl (writeUnhandled native handled) writer

/-- Everything `rewrite` writes between `body_start_idx` and `body_end_idx`. -/
def writeBody (native : Endian) (hello : ParsedHello) (spec : ClientHelloSpec)
    (writer : BinartWriter) : BinartWriter :=
  let writer := writer.writeU16 native hello.legacyVer
  let writer := writer.writeBytes hello.random.bytes
  let writer := writer.writeU8 hello.sessionIdLen
  let writer := writer.writeBytes hello.sessionId.bytes
  let writer := writer.writeU16LengthPrefixed native fun w =>
    spec.cipherSuites.foldl (fun w cipher => w.writeU16 native cipher) w
  let writer := writer.writeU8 (UInt8.ofNat spec.compressionMethod.length)
  let writer := writer.writeBytes spec.compressionMethod
  writer.writeU16LengthPrefixed native
    (writeExtensions native hello.parsedExtensions spec.extensions)

/-- The encoding half of `rewrite`.  The 24-bit body length is patched at the end. -/
def encodeHello (native : Endian) (hello : ParsedHello) (spec : ClientHelloSpec) : List UInt8 :=
  let writer : BinartWriter := {}
  let writer := writer.writeU8 0x01
  let lenPosIdx := writer.size
  let writer := ((writer.writeU8 0).writeU8 0).writeU8 0
  let bodyStartIdx := writer.size
  let writer := writeBody native hello spec writer
  let bodyEndIdx := writer.size
  let bodyLen := bodyEndIdx - bodyStartIdx
  ((writer.buffer.set lenPosIdx (UInt8.ofNat (bodyLen >>> 16))).set (lenPosIdx + 1)
    (UInt8.ofNat (bodyLen >>> 8))).set (lenPosIdx + 2) (UInt8.ofNat bodyLen)

/-- `ClientHelloRewriter::rewrite`. -/
def rewrite (native : Endian) (original : Span) (spec : ClientHelloSpec) :
    Except Error (List UInt8) := do
  let hello ← parseOriginal native original
  return encodeHello native hello spec

end Ppnt.Native
