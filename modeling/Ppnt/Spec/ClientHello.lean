import Ppnt.ForStd.Wire

/-!
# The TLS ClientHello message

The handshake message of RFC 8446 §4.1.2 as a value, its encoding, and a strict decoder: the
decoder accepts a byte string only if every length field is exact and no byte is left over.

- `ClientHello.decode_encode`: a message whose parts fit their length fields reads back
- `ClientHello.encode_of_decode`: the decoder accepts nothing but encodings of such messages
-/

namespace Ppnt.Spec

/-- An extension: its id and its payload. -/
abbrev Extension := UInt16 × List UInt8

/-- The contents of a ClientHello handshake message. -/
structure ClientHello where
  legacyVersion : UInt16
  random : List UInt8
  sessionId : List UInt8
  cipherSuites : List UInt16
  compressionMethods : List UInt8
  extensions : List Extension
deriving DecidableEq, Repr

namespace ClientHello

/-- One 16-bit code point. -/
def encodeU16 (v : UInt16) : List UInt8 := Bytes.toBE 2 v.toNat

def decodeU16 (bs : List UInt8) : Option (UInt16 × List UInt8) :=
  (Wire.uint 2 bs).map fun p => (UInt16.ofNat p.1, p.2)

/-- One extension: id, then the payload behind a 16-bit length. -/
def encodeExtension (e : Extension) : List UInt8 := encodeU16 e.1 ++ Wire.encodeVec 2 e.2

def decodeExtension (bs : List UInt8) : Option (Extension × List UInt8) :=
  (decodeU16 bs).bind fun p => (Wire.vec 2 p.2).map fun q => ((p.1, q.1), q.2)

/-- The handshake body. -/
def encodeBody (h : ClientHello) : List UInt8 :=
  encodeU16 h.legacyVersion ++ h.random ++ Wire.encodeVec 1 h.sessionId ++
    Wire.encodeVec 2 (h.cipherSuites.flatMap encodeU16) ++
    Wire.encodeVec 1 h.compressionMethods ++
    Wire.encodeVec 2 (h.extensions.flatMap encodeExtension)

/-- The handshake message: type 1, a 24-bit length, the body. -/
def encode (h : ClientHello) : List UInt8 := 0x01 :: Wire.encodeVec 3 h.encodeBody

/-- Decode a body; nothing may follow the extension block. -/
def decodeBody (bs : List UInt8) : Option ClientHello := do
  let (legacyVersion, bs) ← decodeU16 bs
  let (random, bs) ← Wire.take 32 bs
  let (sessionId, bs) ← Wire.vec 1 bs
  let (cipherBlock, bs) ← Wire.vec 2 bs
  let cipherSuites ← Wire.many decodeU16 cipherBlock.length cipherBlock
  let (compressionMethods, bs) ← Wire.vec 1 bs
  let (extensionBlock, bs) ← Wire.vec 2 bs
  let extensions ← Wire.many decodeExtension extensionBlock.length extensionBlock
  guard (bs = [])
  return { legacyVersion, random, sessionId, cipherSuites, compressionMethods, extensions }

/-- Decode a handshake message; nothing may follow the body. -/
def decode (bs : List UInt8) : Option ClientHello := do
  let (type, bs) ← Wire.uint 1 bs
  guard (type = 1)
  let (body, bs) ← Wire.vec 3 bs
  guard (bs = [])
  decodeBody body

/-- Every variable-length part fits its length field. -/
structure Fits (h : ClientHello) : Prop where
  random : h.random.length = 32
  sessionId : h.sessionId.length < 2 ^ 8
  cipherSuites : 2 * h.cipherSuites.length < 2 ^ 16
  compressionMethods : h.compressionMethods.length < 2 ^ 8
  extensions : (h.extensions.flatMap encodeExtension).length < 2 ^ 16

/-! ## Reading back the parts -/

theorem decodeU16_append (v : UInt16) (rest : List UInt8) :
    decodeU16 (encodeU16 v ++ rest) = some (v, rest) := by
  have hv : v.toNat < 256 ^ 2 := v.toNat_lt
  rw [decodeU16, encodeU16, Wire.uint_append hv]
  simp

private theorem encodeU16_ne_nil (v : UInt16) : encodeU16 v ≠ [] := by
  intro h
  have := congrArg List.length h
  simp [encodeU16] at this

theorem length_flatMap_encodeU16 (vs : List UInt16) :
    (vs.flatMap encodeU16).length = 2 * vs.length := by
  induction vs with
  | nil => rfl
  | cons v vs ih =>
    rw [List.flatMap_cons, List.length_append, ih, encodeU16, Bytes.length_toBE,
      List.length_cons]
    omega

private theorem decodeExtension_append (e : Extension) (he : e.2.length < 2 ^ 16)
    (rest : List UInt8) : decodeExtension (encodeExtension e ++ rest) = some (e, rest) := by
  rw [decodeExtension, encodeExtension, List.append_assoc, decodeU16_append, Option.bind_some,
    Wire.vec_append he, Option.map_some]

theorem encodeExtension_ne_nil (e : Extension) : encodeExtension e ≠ [] := by
  intro h
  have := congrArg List.length h
  simp [encodeExtension, encodeU16] at this

/-- A payload inside a block that fits its length field fits its own. -/
theorem length_payload_lt {es : List Extension} {e : Extension} (he : e ∈ es) :
    e.2.length ≤ (es.flatMap encodeExtension).length := by
  induction es with
  | nil => simp at he
  | cons x xs ih =>
    rw [List.flatMap_cons, List.length_append]
    rcases List.mem_cons.mp he with rfl | hmem
    · simp only [encodeExtension, List.length_append, Wire.length_encodeVec]
      omega
    · have := ih hmem
      omega

private theorem many_cipherSuites (vs : List UInt16) :
    Wire.many decodeU16 (vs.flatMap encodeU16).length (vs.flatMap encodeU16) = some vs :=
  Wire.many_flatMap vs _ (fun v _ rest => decodeU16_append v rest)
    (fun v _ => encodeU16_ne_nil v)
    (Wire.length_le_length_flatMap vs fun v _ => encodeU16_ne_nil v)

private theorem many_extensions (es : List Extension)
    (h : (es.flatMap encodeExtension).length < 2 ^ 16) :
    Wire.many decodeExtension (es.flatMap encodeExtension).length (es.flatMap encodeExtension)
      = some es := by
  refine Wire.many_flatMap es _ ?_ (fun e _ => encodeExtension_ne_nil e)
    (Wire.length_le_length_flatMap es fun e _ => encodeExtension_ne_nil e)
  intro e he rest
  have hle := length_payload_lt he
  exact decodeExtension_append e (by omega) rest

/-! ## Reading back the message -/

/-- The body of a fitting message is far below the 24-bit limit. -/
theorem Fits.length_encodeBody {h : ClientHello} (hf : h.Fits) :
    h.encodeBody.length < 2 ^ 24 := by
  have h₁ := hf.random
  have h₂ := hf.sessionId
  have h₃ := hf.cipherSuites
  have h₄ := hf.compressionMethods
  have h₅ := hf.extensions
  simp only [encodeBody, List.length_append, Wire.length_encodeVec, length_flatMap_encodeU16,
    encodeU16, Bytes.length_toBE]
  omega

private theorem decodeBody_encodeBody {h : ClientHello} (hf : h.Fits) :
    decodeBody h.encodeBody = some h := by
  have hsession : h.sessionId.length < 256 ^ 1 := hf.sessionId
  have hciphers : (h.cipherSuites.flatMap encodeU16).length < 256 ^ 2 := by
    rw [length_flatMap_encodeU16]
    exact hf.cipherSuites
  have hcomp : h.compressionMethods.length < 256 ^ 1 := hf.compressionMethods
  simp only [decodeBody, encodeBody, List.append_assoc, decodeU16_append, Option.bind_eq_bind,
    Option.bind_some, Wire.take_append_of_length hf.random, Wire.vec_append hsession,
    Wire.vec_append hciphers, many_cipherSuites, Wire.vec_append hcomp]
  have hlast := Wire.vec_append (n := 2) hf.extensions []
  rw [List.append_nil] at hlast
  rw [hlast, Option.bind_some, many_extensions _ hf.extensions]
  rfl

/-- The strict decoder inverts the encoder on every message whose parts fit. -/
theorem decode_encode {h : ClientHello} (hf : h.Fits) : decode h.encode = some h := by
  have hbody : h.encodeBody.length < 256 ^ 3 := hf.length_encodeBody
  have htype : h.encode = Bytes.toBE 1 1 ++ Wire.encodeVec 3 h.encodeBody := rfl
  have hvec := Wire.vec_append (n := 3) hbody []
  rw [List.append_nil] at hvec
  simp only [decode, htype, Wire.uint_append (show 1 < 256 ^ 1 by decide), Option.bind_eq_bind,
    Option.bind_some, hvec, decodeBody_encodeBody hf]
  rfl

/-! ## What the strict decoder accepts -/

private theorem eq_of_decodeU16 {bs rest : List UInt8} {v : UInt16}
    (h : decodeU16 bs = some (v, rest)) : bs = encodeU16 v ++ rest := by
  obtain ⟨⟨n, rest'⟩, huint, heq⟩ := Option.map_eq_some_iff.mp h
  obtain ⟨rfl, rfl⟩ := Prod.mk.inj heq
  obtain ⟨rfl, hlt⟩ := Wire.eq_of_uint huint
  have hn : (UInt16.ofNat n).toNat = n := UInt16.toNat_ofNat_of_lt' hlt
  rw [encodeU16, hn]

private theorem eq_of_decodeExtension {bs rest : List UInt8} {e : Extension}
    (h : decodeExtension bs = some (e, rest)) : bs = encodeExtension e ++ rest := by
  obtain ⟨⟨id, bs'⟩, hid, hvec⟩ := Option.bind_eq_some_iff.mp h
  obtain ⟨⟨payload, rest'⟩, hpayload, heq⟩ := Option.map_eq_some_iff.mp hvec
  obtain ⟨rfl, rfl⟩ := Prod.mk.inj heq
  obtain ⟨rfl, -⟩ := Wire.eq_of_vec hpayload
  rw [eq_of_decodeU16 hid, encodeExtension, List.append_assoc]

/-- A body that is decoded is the encoding of what it is decoded to. -/
private theorem encodeBody_of_decodeBody {bs : List UInt8} {h : ClientHello}
    (hdecode : decodeBody bs = some h) : bs = h.encodeBody ∧ h.Fits := by
  simp only [decodeBody, Option.bind_eq_bind, Option.bind_eq_some_iff, Prod.exists] at hdecode
  obtain ⟨version, bs₁, h₁, random, bs₂, h₂, sessionId, bs₃, h₃, block, bs₄, h₄, ciphers, h₅,
    compression, bs₅, h₆, block', bs₆, h₇, extensions, h₈, _, hnil, hret⟩ := hdecode
  obtain rfl := Option.some.inj hret
  obtain ⟨rfl, hrandom⟩ := Wire.eq_of_take h₂
  obtain ⟨rfl, hsessionId⟩ := Wire.eq_of_vec h₃
  obtain ⟨rfl, hciphers⟩ := Wire.eq_of_vec h₄
  obtain ⟨rfl, hcompression⟩ := Wire.eq_of_vec h₆
  obtain ⟨rfl, hextensions⟩ := Wire.eq_of_vec h₇
  obtain rfl := Wire.eq_of_many encodeU16 (fun _ _ _ => eq_of_decodeU16) h₅
  obtain rfl := Wire.eq_of_many encodeExtension (fun _ _ _ => eq_of_decodeExtension) h₈
  obtain rfl : bs₆ = [] := by
    by_contra hne
    simp [guard, hne] at hnil
  rw [length_flatMap_encodeU16] at hciphers
  refine ⟨?_, hrandom, hsessionId, hciphers, hcompression, hextensions⟩
  rw [eq_of_decodeU16 h₁]
  simp only [encodeBody, List.append_assoc, List.append_nil]

/-- The strict decoder accepts encodings only. -/
theorem encode_of_decode {bs : List UInt8} {h : ClientHello} (hdecode : decode bs = some h) :
    bs = h.encode ∧ h.Fits := by
  simp only [decode, Option.bind_eq_bind, Option.bind_eq_some_iff, Prod.exists] at hdecode
  obtain ⟨type, bs₁, h₁, _, htype, body, bs₂, h₂, _, hnil, h₃⟩ := hdecode
  obtain ⟨rfl, -⟩ := Wire.eq_of_uint h₁
  obtain ⟨rfl, -⟩ := Wire.eq_of_vec h₂
  obtain ⟨rfl, hfits⟩ := encodeBody_of_decodeBody h₃
  obtain rfl : type = 1 := by
    by_contra hne
    simp [guard, hne] at htype
  obtain rfl : bs₂ = [] := by
    by_contra hne
    simp [guard, hne] at hnil
  exact ⟨by rw [List.append_nil]; rfl, hfits⟩

end ClientHello

end Ppnt.Spec
