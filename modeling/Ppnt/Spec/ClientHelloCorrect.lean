import Ppnt.Spec.ClientHelloGrammar

/-!
# ClientHello rewriting is exact

`rewrite` parses a handshake message and encodes it again under a spec.  This file states what
the result is in terms of the TLS message format of `Ppnt.Spec.ClientHello`.
-/

namespace Ppnt.Spec

open Ppnt.Native

/-! ## What the extension merge is meant to produce -/

/-- The entry an extension config contributes, given the original's extensions. -/
def configured (original : List Extension) (cfg : TlsExtensionConfig) : List Extension :=
  match cfg.strategy with
  | .drop => []
  | .forceData => [(cfg.id, cfg.data)]
  | .auto => (original.find? (fun e => e.1 == cfg.id)).toList

/-- The spec's entries in the spec's order, then the original's others in their own order. -/
def mergeExtensions (cfgs : List TlsExtensionConfig) (original : List Extension) :
    List Extension :=
  cfgs.flatMap (configured original) ++
    original.filter (fun e => e.1 ∉ cfgs.map (·.id))

/-- The message `rewrite` has to produce. -/
def rewritten (hello : ParsedHello) (spec : ClientHelloSpec) : ClientHello where
  legacyVersion := hello.legacyVer
  random := hello.random.bytes
  sessionId := hello.sessionId.bytes
  cipherSuites := spec.cipherSuites
  compressionMethods := spec.compressionMethod
  extensions := mergeExtensions spec.extensions (extensionsOf hello)

/-- `hello` is what stands in `original`: the message fields in wire format after the type byte
    and three length bytes, with anything behind the extension block. -/
structure Describes (hello : ParsedHello) (original : Span) : Prop where
  wire : ∃ len ciphers compression trailing : List UInt8,
    len.length = 3 ∧
    original.bytes = 0x01 :: len ++ ClientHello.encodeU16 hello.legacyVer ++ hello.random.bytes ++
      Wire.encodeVec 1 hello.sessionId.bytes ++ Wire.encodeVec 2 ciphers ++
      Wire.encodeVec 1 compression ++
      Wire.encodeVec 2 ((extensionsOf hello).flatMap ClientHello.encodeExtension) ++ trailing
  random : hello.random.size = 32
  sessionId : hello.sessionId.size = hello.sessionIdLen.toNat

/-! ## Parsing -/

/-- What `parseOriginal` accepts is a ClientHello in wire format. -/
theorem parseOriginal_describes {native : Endian} {original : Span} {hello : ParsedHello}
    (h : parseOriginal native original = .ok hello) : Describes hello original := by
  obtain ⟨s, hbytes, hholds⟩ := parseOriginal_syntax h
  refine ⟨⟨s.handshakeLen, s.ciphers, s.compression, s.trailing, s.handshakeLen_length, ?_⟩,
    (congrArg List.length hholds.random).symm.trans s.random_length, hholds.sessionIdLen⟩
  rw [hbytes, HelloSyntax.bytes, hholds.legacyVersion, hholds.random, hholds.sessionId,
    hholds.extensions]

/-! ## Encoding -/

/-- Truncating a size to 16 bits before writing it does not change the two bytes written. -/
private theorem toBE_two_ofNat (v : Nat) :
    Bytes.toBE 2 (UInt16.ofNat v).toNat = Bytes.toBE 2 v := by
  rw [Bytes.toBE_two, Bytes.toBE_two, UInt16.toNat_ofNat']
  congr 1
  · apply UInt8.toNat_inj.mp
    simp only [UInt8.toNat_ofNat', Nat.shiftRight_eq_div_pow]
    omega
  · congr 1
    apply UInt8.toNat_inj.mp
    simp only [UInt8.toNat_ofNat']
    omega

private theorem writeExtension_buffer (native : Endian) (w : BinartWriter) (id : UInt16)
    (payload : List UInt8) : (writeExtension native w id payload).buffer =
      w.buffer ++ ClientHello.encodeExtension (id, payload) := by
  rw [writeExtension, BinartWriter.writeBytes_buffer, BinartWriter.writeU16_buffer,
    BinartWriter.writeU16_buffer, toBE_two_ofNat]
  simp [ClientHello.encodeExtension, ClientHello.encodeU16, Wire.encodeVec]

/-- Looking an id up among the parsed spans or among the plain payloads is the same. -/
private theorem find?_extensionsOf (exts : List (UInt16 × Span)) (id : UInt16) :
    (exts.map fun p => (p.1, p.2.bytes)).find? (fun e => e.1 == id) =
      (exts.find? (fun p => p.1 == id)).map fun p => (p.1, p.2.bytes) := by
  rw [List.find?_map]
  rfl

/-- One iteration of the first loop appends what the config contributes and records its id. -/
private theorem writeConfigured_eq (native : Endian) (exts : List (UInt16 × Span))
    (acc : BinartWriter × List UInt16) (cfg : TlsExtensionConfig) :
    (writeConfigured native exts acc cfg).1.buffer = acc.1.buffer ++
        (configured (exts.map fun p => (p.1, p.2.bytes)) cfg).flatMap
          ClientHello.encodeExtension ∧
      (writeConfigured native exts acc cfg).2 = acc.2 ++ [cfg.id] := by
  cases hs : cfg.strategy with
  | drop => simp [writeConfigured, configured, hs]
  | forceData => simp [writeConfigured, configured, hs, writeExtension_buffer]
  | auto =>
    have hcfg : configured (exts.map fun p => (p.1, p.2.bytes)) cfg =
        ((exts.find? (fun p => p.1 == cfg.id)).map fun p => (p.1, p.2.bytes)).toList := by
      simp only [configured, hs]
      rw [find?_extensionsOf]
    rw [hcfg]
    cases hf : exts.find? (fun p => p.1 == cfg.id) with
    | none => simp [writeConfigured, hs, hf]
    | some it =>
      have hid : it.1 = cfg.id := by simpa using List.find?_some hf
      simp [writeConfigured, hs, hf, writeExtension_buffer, hid]

/-- The first loop: every config's entries in order, and all their ids. -/
private theorem foldl_writeConfigured (native : Endian) (exts : List (UInt16 × Span))
    (cfgs : List TlsExtensionConfig) (acc : BinartWriter × List UInt16) :
    (cfgs.foldl (writeConfigured native exts) acc).1.buffer = acc.1.buffer ++
        (cfgs.flatMap (configured (exts.map fun p => (p.1, p.2.bytes)))).flatMap
          ClientHello.encodeExtension ∧
      (cfgs.foldl (writeConfigured native exts) acc).2 = acc.2 ++ cfgs.map (·.id) := by
  induction cfgs generalizing acc with
  | nil => simp
  | cons cfg cfgs ih =>
    obtain ⟨hbuf, hids⟩ := writeConfigured_eq native exts acc cfg
    obtain ⟨hbuf', hids'⟩ := ih (writeConfigured native exts acc cfg)
    rw [List.foldl_cons, hbuf', hids', hbuf, hids]
    simp

/-- The second loop: the original's entries whose id was not handled, in order. -/
private theorem foldl_writeUnhandled (native : Endian) (handled : List UInt16)
    (exts : List (UInt16 × Span)) (w : BinartWriter) :
    (exts.foldl (writeUnhandled native handled) w).buffer = w.buffer ++
      ((exts.map fun p => (p.1, p.2.bytes)).filter (fun e => e.1 ∉ handled)).flatMap
        ClientHello.encodeExtension := by
  induction exts generalizing w with
  | nil => simp
  | cons entry exts ih =>
    rw [List.foldl_cons, ih]
    by_cases hmem : entry.1 ∈ handled
    · simp [writeUnhandled, hmem]
    · simp [writeUnhandled, hmem, writeExtension_buffer]

/-- The extension block is the encoding of the merged list. -/
private theorem writeExtensions_buffer (native : Endian) (exts : List (UInt16 × Span))
    (cfgs : List TlsExtensionConfig) (w : BinartWriter) :
    (writeExtensions native exts cfgs w).buffer = w.buffer ++
      (mergeExtensions cfgs (exts.map fun p => (p.1, p.2.bytes))).flatMap
        ClientHello.encodeExtension := by
  obtain ⟨hbuf, hids⟩ := foldl_writeConfigured native exts cfgs (w, [])
  simp only [writeExtensions]
  rw [foldl_writeUnhandled, hbuf, hids, mergeExtensions, List.flatMap_append]
  simp

private theorem foldl_writeU16_buffer (native : Endian) (vs : List UInt16) (w : BinartWriter) :
    (vs.foldl (fun w v => w.writeU16 native v) w).buffer =
      w.buffer ++ vs.flatMap ClientHello.encodeU16 := by
  induction vs generalizing w with
  | nil => simp
  | cons v vs ih =>
    rw [List.foldl_cons, ih, BinartWriter.writeU16_buffer, List.flatMap_cons,
      ClientHello.encodeU16]
    simp

/-- The body the code writes is the body of the rewritten message. -/
private theorem writeBody_buffer (native : Endian) (hello : ParsedHello) (spec : ClientHelloSpec)
    (hsid : hello.sessionId.size = hello.sessionIdLen.toNat) (w : BinartWriter) :
    (writeBody native hello spec w).buffer = w.buffer ++ (rewritten hello spec).encodeBody := by
  have hciphers := fun w => foldl_writeU16_buffer native spec.cipherSuites w
  have hexts := fun w => writeExtensions_buffer native hello.parsedExtensions spec.extensions w
  have hsidLen : Bytes.toBE 1 hello.sessionId.bytes.length = [hello.sessionIdLen] := by
    rw [Bytes.toBE_one, show hello.sessionId.bytes.length = hello.sessionIdLen.toNat from hsid,
      UInt8.ofNat_toNat]
  simp only [writeBody, BinartWriter.writeU16LengthPrefixed_buffer native _ _ _ hexts,
    BinartWriter.writeU16LengthPrefixed_buffer native _ _ _ hciphers,
    BinartWriter.writeBytes_buffer, BinartWriter.writeU8_buffer, BinartWriter.writeU16_buffer]
  simp only [ClientHello.encodeBody, rewritten, extensionsOf, Wire.encodeVec, hsidLen,
    ClientHello.encodeU16, Bytes.toBE_one, List.append_assoc]

/-- The encoder writes the rewritten message; no fit is needed, lengths are truncated alike. -/
theorem encodeHello_eq (native : Endian) (hello : ParsedHello) (spec : ClientHelloSpec)
    (hsid : hello.sessionId.size = hello.sessionIdLen.toNat) :
    encodeHello native hello spec = (rewritten hello spec).encode := by
  have hbody := writeBody_buffer native hello spec hsid
  have hlen : ((0x01 :: 0 :: 0 :: 0 :: (rewritten hello spec).encodeBody).length -
      [(0x01 : UInt8), 0, 0, 0].length) = (rewritten hello spec).encodeBody.length := by
    simp
  -- the buffer before the patch is the type byte, three zero bytes and the body
  simp only [encodeHello, BinartWriter.size, hbody, BinartWriter.writeU8_buffer, List.nil_append,
    List.cons_append, hlen]
  rw [ClientHello.encode, Wire.encodeVec, Bytes.toBE_three]
  rfl

/-! ## The whole function -/

/-- The parts of the output that come from the spec fit their length fields. -/
structure PartsFit (hello : ParsedHello) (spec : ClientHelloSpec) : Prop where
  cipherSuites : 2 * spec.cipherSuites.length < 2 ^ 16
  compressionMethod : spec.compressionMethod.length < 2 ^ 8
  extensions : ((mergeExtensions spec.extensions (extensionsOf hello)).flatMap
    ClientHello.encodeExtension).length < 2 ^ 16

/-- The rewritten message fits its length fields when the spec's parts do; the original's parts
    always fit, having been read behind such fields. -/
theorem rewritten_fits_iff {hello : ParsedHello} {original : Span}
    (hdesc : Describes hello original) (spec : ClientHelloSpec) :
    (rewritten hello spec).Fits ↔ PartsFit hello spec := by
  constructor
  · exact fun h => ⟨h.cipherSuites, h.compressionMethods, h.extensions⟩
  · intro h
    have hsessionId := hello.sessionIdLen.toNat_lt
    rw [← hdesc.sessionId] at hsessionId
    exact ⟨hdesc.random, hsessionId, h.cipherSuites, h.compressionMethod, h.extensions⟩

/-- The output of `rewrite`, whatever the sizes are. -/
theorem rewrite_eq {native : Endian} {original : Span} {hello : ParsedHello}
    (hparse : parseOriginal native original = .ok hello) (spec : ClientHelloSpec) :
    rewrite native original spec = .ok (rewritten hello spec).encode := by
  simp only [rewrite, hparse]
  exact congrArg Except.ok
    (encodeHello_eq native hello spec (parseOriginal_describes hparse).sessionId)

/-- If the original parses and the encoded cipher list, the compression list and the extension block
    of the result fit their length fields, then `rewrite` succeeds and its output decodes strictly
    (every length field exact, no byte left over) to the original's version, random and session id
    with the spec's ciphers, compression list and merged extensions. -/
theorem rewrite_exact (native : Endian) (original : Span) (spec : ClientHelloSpec)
    (hello : ParsedHello) (hparse : parseOriginal native original = .ok hello)
    (hciphers : (spec.cipherSuites.flatMap ClientHello.encodeU16).length < 2 ^ 16)
    (hcomp : spec.compressionMethod.length < 2 ^ 8)
    (hblock : ((mergeExtensions spec.extensions (extensionsOf hello)).flatMap
      ClientHello.encodeExtension).length < 2 ^ 16) :
    Describes hello original ∧
    ∃ out, rewrite native original spec = .ok out ∧
      ClientHello.decode out = some {
        legacyVersion := hello.legacyVer
        random := hello.random.bytes
        sessionId := hello.sessionId.bytes
        cipherSuites := spec.cipherSuites
        compressionMethods := spec.compressionMethod
        extensions := mergeExtensions spec.extensions (extensionsOf hello) } := by
  have hdesc := parseOriginal_describes hparse
  rw [ClientHello.length_flatMap_encodeU16] at hciphers
  have hfits := (rewritten_fits_iff hdesc spec).mpr ⟨hciphers, hcomp, hblock⟩
  exact ⟨hdesc, (rewritten hello spec).encode, rewrite_eq hparse spec,
    ClientHello.decode_encode hfits⟩

/-- A small original: TLS 1.2, no session id, one cipher, extensions 10 and 43. -/
def sampleOriginal : Span where
  bytes := [1, 0, 0, 0, 3, 3] ++ List.replicate 32 7 ++ [0, 0, 2, 0x13, 1, 1, 0] ++
    [0, 10, 0, 10, 0, 1, 9, 0, 43, 0, 1, 5]
  size_lt := by decide

/-- What parsing `sampleOriginal` yields. -/
def sampleHello : ParsedHello where
  legacyVer := 0x0303
  random := ⟨List.replicate 32 7, by decide⟩
  sessionIdLen := 0
  sessionId := ⟨[], by decide⟩
  parsedExtensions := [(10, ⟨[9], by decide⟩), (43, ⟨[5], by decide⟩)]

/-- A spec that forces one extension, drops another and keeps a third. -/
def sampleSpec : ClientHelloSpec where
  cipherSuites := [0x1302, 0x1301]
  extensions := [{ id := 43 }, { id := 16, strategy := .forceData, data := [1, 2] },
    { id := 10, strategy := .drop }]

theorem rewrite_exact_sample :
    Describes sampleHello sampleOriginal ∧
    ∃ out, rewrite .little sampleOriginal sampleSpec = .ok out ∧
      ClientHello.decode out = some {
        legacyVersion := 0x0303
        random := List.replicate 32 7
        sessionId := []
        cipherSuites := [0x1302, 0x1301]
        compressionMethods := [0]
        extensions := [(43, [5]), (16, [1, 2])] } :=
  rewrite_exact .little sampleOriginal sampleSpec sampleHello (by decide +kernel) (by decide)
    (by decide) (by decide)

end Ppnt.Spec
