import Ppnt.Spec.ClientHelloCorrect

/-!
# The length fields of a rewritten ClientHello

The five length fields that `rewrite` writes are cut to 8, 16 or 24 bits without a test.
`LengthField` says where they stand and what they cover.
-/

namespace Ppnt.Spec

open Ppnt.Native

namespace ClientHello

/-- The message in front of the session id. -/
def frontSessionId (m : ClientHello) : List UInt8 :=
  0x01 :: Bytes.toBE 3 m.encodeBody.length ++ encodeU16 m.legacyVersion ++ m.random

def frontCipherSuites (m : ClientHello) : List UInt8 :=
  m.frontSessionId ++ Wire.encodeVec 1 m.sessionId

def frontCompression (m : ClientHello) : List UInt8 :=
  m.frontCipherSuites ++ Wire.encodeVec 2 (m.cipherSuites.flatMap encodeU16)

def frontExtensions (m : ClientHello) : List UInt8 :=
  m.frontCompression ++ Wire.encodeVec 1 m.compressionMethods

/-- A length field of a message: the bytes in front of it, its width and the bytes that it
    covers. -/
inductive LengthField (m : ClientHello) : List UInt8 → Nat → List UInt8 → Prop
  | body : LengthField m [0x01] 3 m.encodeBody
  | sessionId : LengthField m m.frontSessionId 1 m.sessionId
  | cipherSuites : LengthField m m.frontCipherSuites 2 (m.cipherSuites.flatMap encodeU16)
  | compressionMethods : LengthField m m.frontCompression 1 m.compressionMethods
  | extensionBlock : LengthField m m.frontExtensions 2 (m.extensions.flatMap encodeExtension)
  | extension {before after : List Extension} {e : Extension}
      (h : m.extensions = before ++ e :: after) :
      LengthField m (m.frontExtensions ++
        Bytes.toBE 2 (m.extensions.flatMap encodeExtension).length ++
        before.flatMap encodeExtension ++ encodeU16 e.1) 2 e.2

/-- Every length field of the message stands in `out` and holds the number of bytes it covers. -/
def LengthsExact (m : ClientHello) (out : List UInt8) : Prop :=
  ∀ front width covered, LengthField m front width covered → ∃ field rest,
    out = front ++ field ++ covered ++ rest ∧ field.length = width ∧
      Bytes.ofBE field = covered.length

/-- Where a length field stands, and what follows it. -/
private theorem LengthField.layout {m : ClientHello} {front covered : List UInt8} {width : Nat}
    (h : LengthField m front width covered) :
    ∃ rest, m.encode = front ++ Bytes.toBE width covered.length ++ covered ++ rest := by
  cases h with
  | body => exact ⟨[], by simp [encode, Wire.encodeVec]⟩
  | sessionId =>
    refine ⟨Wire.encodeVec 2 (m.cipherSuites.flatMap encodeU16) ++
      Wire.encodeVec 1 m.compressionMethods ++
      Wire.encodeVec 2 (m.extensions.flatMap encodeExtension), ?_⟩
    simp [encode, encodeBody, frontSessionId, Wire.encodeVec]
  | cipherSuites =>
    refine ⟨Wire.encodeVec 1 m.compressionMethods ++
      Wire.encodeVec 2 (m.extensions.flatMap encodeExtension), ?_⟩
    simp [encode, encodeBody, frontCipherSuites, frontSessionId, Wire.encodeVec]
  | compressionMethods =>
    refine ⟨Wire.encodeVec 2 (m.extensions.flatMap encodeExtension), ?_⟩
    simp [encode, encodeBody, frontCompression, frontCipherSuites, frontSessionId, Wire.encodeVec]
  | extensionBlock =>
    refine ⟨[], ?_⟩
    simp [encode, encodeBody, frontExtensions, frontCompression, frontCipherSuites, frontSessionId,
      Wire.encodeVec]
  | @extension before after e h =>
    refine ⟨after.flatMap encodeExtension, ?_⟩
    have hblock : m.extensions.flatMap encodeExtension = before.flatMap encodeExtension ++
        (encodeU16 e.1 ++ (Bytes.toBE 2 e.2.length ++ (e.2 ++ after.flatMap encodeExtension))) := by
      rw [h]
      simp [encodeExtension, Wire.encodeVec]
    have hencode : m.encode = m.frontExtensions ++
        Wire.encodeVec 2 (m.extensions.flatMap encodeExtension) := by
      simp [encode, encodeBody, frontExtensions, frontCompression, frontCipherSuites,
        frontSessionId, Wire.encodeVec]
    rw [hencode, Wire.encodeVec]
    -- the length in front of the block keeps its form
    nth_rewrite 2 [hblock]
    simp only [List.append_assoc]

private theorem lengthsExact_encode_iff (m : ClientHello) :
    LengthsExact m m.encode ↔
      ∀ front width covered, LengthField m front width covered → covered.length < 256 ^ width := by
  refine forall_congr' fun front => forall_congr' fun width => forall_congr' fun covered =>
    imp_congr_right fun hfield => ?_
  obtain ⟨rest, hlayout⟩ := hfield.layout
  rw [← Bytes.ofBE_toBE_iff]
  constructor
  · rintro ⟨field, rest', hout, hwidth, hvalue⟩
    -- the field stands behind the same bytes in both layouts
    rw [hlayout] at hout
    simp only [List.append_assoc] at hout
    obtain ⟨rfl, -⟩ := List.append_inj (List.append_cancel_left hout) (by rw [hwidth]; simp)
    exact hvalue
  · exact fun hvalue => ⟨_, rest, hlayout, Bytes.length_toBE width _, hvalue⟩

/-- The length fields are right if and only if the parts fit. -/
private theorem lengthsExact_iff_fits {m : ClientHello} (hrandom : m.random.length = 32) :
    LengthsExact m m.encode ↔ m.Fits := by
  rw [lengthsExact_encode_iff]
  constructor
  · intro h
    have hciphers := h _ _ _ .cipherSuites
    rw [length_flatMap_encodeU16] at hciphers
    exact ⟨hrandom, h _ _ _ .sessionId, hciphers, h _ _ _ .compressionMethods,
      h _ _ _ .extensionBlock⟩
  · intro hfits front width covered hfield
    cases hfield with
    | body => exact hfits.length_encodeBody
    | sessionId => exact hfits.sessionId
    | cipherSuites =>
      rw [length_flatMap_encodeU16]
      exact hfits.cipherSuites
    | compressionMethods => exact hfits.compressionMethods
    | extensionBlock => exact hfits.extensions
    | @extension before after e h =>
      have hmem : e ∈ m.extensions := by simp [h]
      exact lt_of_le_of_lt (length_payload_lt hmem) hfits.extensions

end ClientHello

/-! ## The output of `rewrite` -/

private theorem lengthsExact_rewritten_iff {hello : ParsedHello} {original : Span}
    (hdesc : Describes hello original) (spec : ClientHelloSpec) :
    (rewritten hello spec).LengthsExact (rewritten hello spec).encode ↔ PartsFit hello spec := by
  have hrandom : (rewritten hello spec).random.length = 32 := hdesc.random
  rw [ClientHello.lengthsExact_iff_fits hrandom, rewritten_fits_iff hdesc]

/-- `rewrite` returns a message whenever the original parses, whatever the sizes are.  All length
    fields of the message hold the numbers of bytes that they cover if and only if the cipher list,
    the compression list and the extension block fit 16, 8 and 16 bits. -/
theorem lengths_exact_iff (native : Endian) (original : Span) (spec : ClientHelloSpec)
    (hello : ParsedHello) (hparse : parseOriginal native original = .ok hello) :
    ∃ out, rewrite native original spec = .ok out ∧
      ((rewritten hello spec).LengthsExact out ↔ PartsFit hello spec) := by
  exact ⟨(rewritten hello spec).encode, rewrite_eq hparse spec,
    lengthsExact_rewritten_iff (parseOriginal_describes hparse) spec⟩

theorem lengths_exact_iff_sample :
    parseOriginal .little sampleOriginal = .ok sampleHello ∧ PartsFit sampleHello sampleSpec ∧
      ∃ out, rewrite .little sampleOriginal sampleSpec = .ok out ∧
        ((rewritten sampleHello sampleSpec).LengthsExact out ↔ PartsFit sampleHello sampleSpec) :=
  ⟨by decide +kernel, ⟨by decide, by decide, by decide⟩,
    lengths_exact_iff .little sampleOriginal sampleSpec sampleHello (by decide +kernel)⟩

/-- A compression list that is one byte too long. -/
def longCompression : ClientHelloSpec where
  cipherSuites := [0x1301]
  compressionMethod := List.replicate 256 0

/-- `rewrite` accepts a compression list of 256 bytes and writes 0 as its length. -/
theorem compression_overflows :
    ∃ out front covered, rewrite .little sampleOriginal longCompression = .ok out ∧
      (rewritten sampleHello longCompression).LengthField front 1 covered ∧
      covered.length = 256 ∧ (out.drop front.length).take 1 = [0] ∧
      ¬(rewritten sampleHello longCompression).LengthsExact out := by
  have hparse : parseOriginal .little sampleOriginal = .ok sampleHello := by decide +kernel
  refine ⟨(rewritten sampleHello longCompression).encode,
    (rewritten sampleHello longCompression).frontCompression, _, rewrite_eq hparse longCompression,
    .compressionMethods, List.length_replicate, by decide +kernel, ?_⟩
  rw [lengthsExact_rewritten_iff (parseOriginal_describes hparse)]
  intro h
  have hlt : (List.replicate 256 (0 : UInt8)).length < 2 ^ 8 := h.compressionMethod
  rw [List.length_replicate] at hlt
  omega

end Ppnt.Spec
