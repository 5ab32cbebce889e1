import Ppnt.Native.ClientHello
import Ppnt.Spec.BinaryUtilCorrect
import Ppnt.Spec.ClientHello

/-!
# The grammar of the ClientHello parser

What the parsing half of `rewrite` accepts.  `HelloSyntax` is a byte string cut into the parts of
the grammar, with the size of every part; the handshake length is three bytes that nothing looks at,
and anything may follow the extension block.
-/

namespace Ppnt.Spec

open Ppnt.Native

/-- The extensions of a parsed message as plain values. -/
def extensionsOf (hello : ParsedHello) : List Extension :=
  hello.parsedExtensions.map fun p => (p.1, p.2.bytes)

/-- A byte string in the parts that `rewrite` reads. -/
structure HelloSyntax where
  handshakeLen : List UInt8
  legacyVersion : List UInt8
  random : List UInt8
  sessionId : List UInt8
  ciphers : List UInt8
  compression : List UInt8
  extensions : List Extension
  trailing : List UInt8
  handshakeLen_length : handshakeLen.length = 3
  legacyVersion_length : legacyVersion.length = 2
  random_length : random.length = 32
  sessionId_length : sessionId.length < 2 ^ 8
  ciphers_length : ciphers.length < 2 ^ 16
  compression_length : compression.length < 2 ^ 8
  extensions_length : (extensions.flatMap ClientHello.encodeExtension).length < 2 ^ 16

def HelloSyntax.bytes (s : HelloSyntax) : List UInt8 :=
  0x01 :: s.handshakeLen ++ s.legacyVersion ++ s.random ++ Wire.encodeVec 1 s.sessionId ++
    Wire.encodeVec 2 s.ciphers ++ Wire.encodeVec 1 s.compression ++
    Wire.encodeVec 2 (s.extensions.flatMap ClientHello.encodeExtension) ++ s.trailing

/-- The parts that `rewrite` keeps are those of the parsed message. -/
structure HelloSyntax.Holds (s : HelloSyntax) (hello : ParsedHello) : Prop where
  legacyVersion : s.legacyVersion = ClientHello.encodeU16 hello.legacyVer
  random : s.random = hello.random.bytes
  sessionId : s.sessionId = hello.sessionId.bytes
  sessionIdLen : hello.sessionId.size = hello.sessionIdLen.toNat
  extensions : s.extensions = extensionsOf hello

/-! ## What is accepted is in the grammar -/

variable {native : Endian} {r r' : BinaryReader} {α : Type} {message : String} {n : UInt64}
  {s original : Span} {rest bs : List UInt8}

/-- An entry that was read is the next part of the block: id, payload size, payload. -/
private theorem readExtension_rest {entry : UInt16 × Span}
    (h : readExtension native r = .ok (entry, r')) :
    r.rest = Bytes.toBE 2 entry.1.toNat ++ Bytes.toBE 2 entry.2.size ++ entry.2.bytes ++
      r'.rest := by
  rcases BinaryReader.readU16_spec native r with ⟨type, r₁, h₁, hr₁⟩ | ⟨h₁, -⟩
  · rcases BinaryReader.readU16_spec native r₁ with ⟨len, r₂, h₂, hr₂⟩ | ⟨h₂, -⟩
    · rcases BinaryReader.readBytes_spec r₂ len.toUInt64 (BinaryReader.toNat_u16_lt len) with
        ⟨data, r₃, h₃, hlen, hr₃⟩ | ⟨h₃, -⟩
      · simp only [readExtension, h₁, h₂, h₃, Except.ok.injEq, Prod.mk.injEq] at h
        obtain ⟨rfl, rfl⟩ := h
        rw [UInt16.toNat_toUInt64] at hlen
        rw [hr₁, hr₂, hr₃, Span.size, hlen]
        simp only [List.append_assoc]
      · simp [readExtension, h₁, h₂, h₃, badMessage, makeErrResult] at h
    · simp [readExtension, h₁, h₂, badMessage, makeErrResult] at h
  · simp [readExtension, h₁, badMessage, makeErrResult] at h

/-- Peel one step off a computation that succeeded. -/
private theorem except_bind_eq_ok {ε β : Type} {x : Except ε α} {f : α → Except ε β} {b : β} :
    (x >>= f) = .ok b ↔ ∃ a, x = .ok a ∧ f a = .ok b := by
  cases x <;> simp [bind, Except.bind]

private theorem expect_eq_ok {x : Option α × BinaryReader} {p : α × BinaryReader}
    (h : expect x message = .ok p) : x = (some p.1, p.2) := by
  obtain ⟨o, r⟩ := x
  cases o with
  | none => simp [expect, badMessage, makeErrResult] at h
  | some a =>
    simp only [expect, Except.ok.injEq] at h
    rw [← h]

private theorem expect_readU16 {v : UInt16} (h : expect (r.readU16 native) message = .ok (v, r')) :
    r.rest = ClientHello.encodeU16 v ++ r'.rest := by
  rcases BinaryReader.readU16_spec native r with ⟨w, r₁, h₁, hrest⟩ | ⟨h₁, -⟩
  · have heq := expect_eq_ok h
    rw [h₁] at heq
    simp only [Prod.mk.injEq, Option.some.injEq] at heq
    obtain ⟨rfl, rfl⟩ := heq
    exact hrest
  · have heq := expect_eq_ok h
    rw [h₁] at heq
    simp at heq

private theorem expect_readU8 {v : UInt8} (h : expect r.readU8 message = .ok (v, r')) :
    r.rest = v :: r'.rest := by
  rcases BinaryReader.readU8_spec r with ⟨w, r₁, h₁, hrest⟩ | ⟨h₁, -⟩
  · have heq := expect_eq_ok h
    rw [h₁] at heq
    simp only [Prod.mk.injEq, Option.some.injEq] at heq
    obtain ⟨rfl, rfl⟩ := heq
    exact hrest
  · have heq := expect_eq_ok h
    rw [h₁] at heq
    simp at heq

private theorem expect_readBytes (hn : n.toNat < 2 ^ 63)
    (h : expect (r.readBytes n) message = .ok (s, r')) :
    s.size = n.toNat ∧ r.rest = s.bytes ++ r'.rest := by
  rcases BinaryReader.readBytes_spec r n hn with ⟨w, r₁, h₁, hlen, hrest⟩ | ⟨h₁, -⟩
  · have heq := expect_eq_ok h
    rw [h₁] at heq
    simp only [Prod.mk.injEq, Option.some.injEq] at heq
    obtain ⟨rfl, rfl⟩ := heq
    exact ⟨hlen, hrest⟩
  · have heq := expect_eq_ok h
    rw [h₁] at heq
    simp at heq

/-- A length byte and the bytes it announces are a one-byte vector. -/
private theorem cons_eq_encodeVec {n : UInt8} (h : s.size = n.toUInt64.toNat) :
    n :: s.bytes = Wire.encodeVec 1 s.bytes := by
  rw [UInt8.toNat_toUInt64, Span.size] at h
  rw [Wire.encodeVec, Bytes.toBE_one, h, UInt8.ofNat_toNat]
  rfl

/-- A 16-bit length and the bytes it announces are a two-byte vector. -/
private theorem u16_append_eq_encodeVec {n : UInt16} (h : s.size = n.toUInt64.toNat) :
    ClientHello.encodeU16 n ++ s.bytes = Wire.encodeVec 2 s.bytes := by
  rw [UInt16.toNat_toUInt64, Span.size] at h
  rw [Wire.encodeVec, ClientHello.encodeU16, h]

/-- The extension loop returns the entries the block is the concatenation of. -/
private theorem readExtensions_rest (r : BinaryReader) (parsed : List (UInt16 × Span))
    {result : List (UInt16 × Span)} (h : readExtensions native r parsed = .ok result) :
    ∃ entries, result = parsed ++ entries ∧
      r.rest = entries.flatMap fun p => ClientHello.encodeExtension (p.1, p.2.bytes) := by
  fun_induction readExtensions native r parsed with
  | case1 r parsed hzero =>
    refine ⟨[], by simpa using (Except.ok.inj h).symm, ?_⟩
    apply List.eq_nil_of_length_eq_zero
    rw [BinaryReader.length_rest]
    exact hzero
  | case2 r parsed _ entry r' hread ih =>
    obtain ⟨entries, hresult, hrest⟩ := ih h
    refine ⟨entry :: entries, by simpa using hresult, ?_⟩
    rw [readExtension_rest hread, hrest, List.flatMap_cons]
    simp [ClientHello.encodeExtension, ClientHello.encodeU16, Wire.encodeVec, Span.size]
  | case3 r parsed _ e _ => simp at h

private theorem checkHandshake_eq_ok {type : Option UInt8} {len : Option Span}
    (h : checkHandshake type len = .ok ()) : type = some 0x01 ∧ ∃ s, len = some s := by
  cases type with
  | none => simp [checkHandshake, badMessage, makeErrResult] at h
  | some t =>
    by_cases ht : t = 0x01
    · cases len with
      | none => simp [checkHandshake, ht, badMessage, makeErrResult] at h
      | some s => exact ⟨by rw [ht], s, rfl⟩
    · simp [checkHandshake, ht, badMessage, makeErrResult] at h

/-- The type byte and the three length bytes, which are read before either is tested. -/
private theorem readHandshake_rest
    (h : checkHandshake (BinaryReader.ofSpan original).readU8.1 ((BinaryReader.ofSpan
      original).readU8.2.readBytes 3).1 = .ok ()) :
    ∃ len : List UInt8, len.length = 3 ∧ original.bytes =
      0x01 :: len ++ ((BinaryReader.ofSpan original).readU8.2.readBytes 3).2.rest := by
  obtain ⟨htype, s, hlen⟩ := checkHandshake_eq_ok h
  rcases BinaryReader.readU8_spec (BinaryReader.ofSpan original) with
    ⟨t, r₁, h₁, hr₁⟩ | ⟨h₁, -⟩
  · rw [h₁] at htype hlen ⊢
    rcases BinaryReader.readBytes_spec r₁ 3 (by decide) with ⟨s', r₂, h₂, hl₂, hr₂⟩ | ⟨h₂, -⟩
    · rw [h₂]
      refine ⟨s'.bytes, hl₂, ?_⟩
      rw [BinaryReader.rest_ofSpan] at hr₁
      rw [hr₁, hr₂, Option.some.inj htype]
      rfl
    · rw [h₂] at hlen
      simp at hlen
  · rw [h₁] at htype
    simp at htype

private theorem size_lt_of_u8 {n : UInt8} (h : s.size = n.toUInt64.toNat) :
    s.bytes.length < 2 ^ 8 := by
  rw [Span.size] at h
  rw [h, UInt8.toNat_toUInt64]
  exact n.toNat_lt

private theorem size_lt_of_u16 {n : UInt16} (h : s.size = n.toUInt64.toNat) :
    s.bytes.length < 2 ^ 16 := by
  rw [Span.size] at h
  rw [h, UInt16.toNat_toUInt64]
  exact n.toNat_lt

/-- What `parseOriginal` accepts is in the grammar, and it returns the parts. -/
theorem parseOriginal_syntax {hello : ParsedHello} (h : parseOriginal native original = .ok hello) :
    ∃ s : HelloSyntax, original.bytes = s.bytes ∧ s.Holds hello := by
  simp only [parseOriginal, except_bind_eq_ok, Prod.exists] at h
  obtain ⟨_, h₀, ver, r₁, h₁, random, r₂, h₂, sidLen, r₃, h₃, sid, r₄, h₄, cLen, r₅, h₅,
    ciphers, r₆, h₆, mLen, r₇, h₇, compression, r₈, h₈, eLen, r₉, h₉, block, r₁₀, h₁₀,
    exts, h₁₁, hret⟩ := h
  obtain ⟨len, hlen, hr₀⟩ := readHandshake_rest h₀
  -- each successful read splits the bytes that remained before it
  have hr₁ := expect_readU16 h₁
  obtain ⟨hrandom, hr₂⟩ := expect_readBytes (by decide) h₂
  have hr₃ := expect_readU8 h₃
  obtain ⟨hsid, hr₄⟩ := expect_readBytes (BinaryReader.toNat_u8_lt sidLen) h₄
  have hr₅ := expect_readU16 h₅
  obtain ⟨hciphers, hr₆⟩ := expect_readBytes (BinaryReader.toNat_u16_lt cLen) h₆
  have hr₇ := expect_readU8 h₇
  obtain ⟨hcomp, hr₈⟩ := expect_readBytes (BinaryReader.toNat_u8_lt mLen) h₈
  have hr₉ := expect_readU16 h₉
  obtain ⟨hblock, hr₁₀⟩ := expect_readBytes (BinaryReader.toNat_u16_lt eLen) h₁₀
  obtain ⟨entries, hentries, hexts⟩ := readExtensions_rest _ _ h₁₁
  obtain rfl := Except.ok.inj hret
  have hflat : (extensionsOf ⟨ver, random, sidLen, sid, exts⟩).flatMap
      ClientHello.encodeExtension = block.bytes := by
    rw [extensionsOf, hentries, List.nil_append, List.flatMap_map, ← hexts]
    rfl
  refine ⟨⟨len, ClientHello.encodeU16 ver, random.bytes, sid.bytes, ciphers.bytes,
    compression.bytes,
    extensionsOf ⟨ver, random, sidLen, sid, exts⟩, r₁₀.rest, hlen, Bytes.length_toBE 2 _, hrandom,
    size_lt_of_u8 hsid, size_lt_of_u16 hciphers, size_lt_of_u8 hcomp,
    hflat ▸ size_lt_of_u16 hblock⟩, ?_, rfl, rfl, rfl, ?_, rfl⟩
  · simp only [HelloSyntax.bytes]
    rw [hr₀, hr₁, hr₂, hr₃, hr₄, hr₅, hr₆, hr₇, hr₈, hr₉, hr₁₀, hflat,
      ← cons_eq_encodeVec hsid, ← u16_append_eq_encodeVec hciphers, ← cons_eq_encodeVec hcomp,
      ← u16_append_eq_encodeVec hblock]
    simp only [List.append_assoc, List.cons_append]
  · rw [hsid, UInt8.toNat_toUInt64]

/-! ## What is in the grammar is accepted -/

private theorem readExtension_complete (native : Endian) {e : Extension} (he : e.2.length < 2 ^ 16)
    (hrest : r.rest = ClientHello.encodeExtension e ++ rest) :
    ∃ data r', readExtension native r = .ok ((e.1, data), r') ∧ data.bytes = e.2 ∧
      r'.rest = rest := by
  have hlen : (UInt16.ofNat e.2.length).toNat = e.2.length := by
    rw [UInt16.toNat_ofNat', Nat.mod_eq_of_lt he]
  rw [ClientHello.encodeExtension, Wire.encodeVec, ClientHello.encodeU16, ← hlen] at hrest
  simp only [List.append_assoc] at hrest
  obtain ⟨r₁, h₁, hr₁⟩ := BinaryReader.readU16_complete native r hrest
  obtain ⟨r₂, h₂, hr₂⟩ := BinaryReader.readU16_complete native r₁ hr₁
  obtain ⟨data, r₃, h₃, hdata, hr₃⟩ := BinaryReader.readBytes_complete r₂
    (UInt16.ofNat e.2.length).toUInt64 (BinaryReader.toNat_u16_lt _)
    (by rw [UInt16.toNat_toUInt64, hlen]) hr₂
  exact ⟨data, r₃, by simp only [readExtension, h₁, h₂, h₃], hdata, hr₃⟩

/-- The loop reads all extensions that are there. -/
private theorem readExtensions_complete (native : Endian) (es : List Extension) (r : BinaryReader)
    (parsed : List (UInt16 × Span)) (hes : ∀ e ∈ es, e.2.length < 2 ^ 16)
    (hrest : r.rest = es.flatMap ClientHello.encodeExtension) :
    ∃ entries, readExtensions native r parsed = .ok (parsed ++ entries) ∧
      entries.map (fun p => (p.1, p.2.bytes)) = es := by
  induction es generalizing r parsed with
  | nil =>
    have hzero : r.remaining = 0 := by rw [← BinaryReader.length_rest, hrest]; rfl
    refine ⟨[], ?_, rfl⟩
    rw [readExtensions, if_pos hzero, List.append_nil]
  | cons e es ih =>
    rw [List.flatMap_cons] at hrest
    obtain ⟨data, r', hread, hdata, hr'⟩ :=
      readExtension_complete native (hes e List.mem_cons_self) hrest
    -- an extension has a header of four bytes, so the loop goes on
    have hpos : r.remaining ≠ 0 := by
      rw [← BinaryReader.length_rest, hrest, List.length_append]
      have := List.length_pos_of_ne_nil (ClientHello.encodeExtension_ne_nil e)
      omega
    obtain ⟨entries, hrec, hentries⟩ := ih r' (parsed ++ [(e.1, data)])
      (fun e' he' => hes e' (List.mem_cons_of_mem e he')) hr'
    refine ⟨(e.1, data) :: entries, ?_, by rw [List.map_cons, hentries, hdata]⟩
    rw [readExtensions, if_neg hpos]
    split
    case h_1 entry r'' heq =>
      obtain ⟨rfl, rfl⟩ := Prod.mk.inj (Except.ok.inj (hread.symm.trans heq))
      rw [hrec, List.append_assoc, List.singleton_append]
    case h_2 e' heq => simp [hread] at heq

private theorem expect_ok {x : Option α × BinaryReader} {a : α} (h : x = (some a, r))
    (message : String) : expect x message = .ok (a, r) := by
  rw [h]
  rfl

/-- A vector behind a length byte is read in two steps. -/
private theorem readVec8_complete (hlen : bs.length < 2 ^ 8)
    (hrest : r.rest = Wire.encodeVec 1 bs ++ rest) :
    ∃ (n : UInt8) (r₁ r₂ : BinaryReader) (s : Span), r.readU8 = (some n, r₁) ∧
      r₁.readBytes n.toUInt64 = (some s, r₂) ∧ s.bytes = bs ∧ s.size = n.toNat ∧
        r₂.rest = rest := by
  have hn : (UInt8.ofNat bs.length).toNat = bs.length := by
    rw [UInt8.toNat_ofNat', Nat.mod_eq_of_lt hlen]
  rw [Wire.encodeVec, Bytes.toBE_one, List.append_assoc, List.singleton_append] at hrest
  obtain ⟨r₁, h₁, hr₁⟩ := BinaryReader.readU8_complete r hrest
  obtain ⟨s, r₂, h₂, hs, hr₂⟩ := BinaryReader.readBytes_complete r₁ (UInt8.ofNat bs.length).toUInt64
    (BinaryReader.toNat_u8_lt _) (by rw [UInt8.toNat_toUInt64, hn]) hr₁
  exact ⟨_, r₁, r₂, s, h₁, h₂, hs, by rw [Span.size, hs, hn], hr₂⟩

/-- A vector behind a 16-bit length is read in two steps. -/
private theorem readVec16_complete (native : Endian) (hlen : bs.length < 2 ^ 16)
    (hrest : r.rest = Wire.encodeVec 2 bs ++ rest) :
    ∃ (n : UInt16) (r₁ r₂ : BinaryReader) (s : Span), r.readU16 native = (some n, r₁) ∧
      r₁.readBytes n.toUInt64 = (some s, r₂) ∧ s.bytes = bs ∧ r₂.rest = rest := by
  have hn : (UInt16.ofNat bs.length).toNat = bs.length := by
    rw [UInt16.toNat_ofNat', Nat.mod_eq_of_lt hlen]
  rw [Wire.encodeVec, ← hn, List.append_assoc] at hrest
  obtain ⟨r₁, h₁, hr₁⟩ := BinaryReader.readU16_complete native r hrest
  obtain ⟨s, r₂, h₂, hs, hr₂⟩ := BinaryReader.readBytes_complete r₁
    (UInt16.ofNat bs.length).toUInt64 (BinaryReader.toNat_u16_lt _)
    (by rw [UInt16.toNat_toUInt64, hn]) hr₁
  exact ⟨_, r₁, r₂, s, h₁, h₂, hs, hr₂⟩

/-- Two bytes are the encoding of a 16-bit number. -/
private theorem exists_encodeU16 (h : bs.length = 2) :
    ∃ v, bs = ClientHello.encodeU16 v := by
  have hlt : Bytes.ofBE bs < 2 ^ 16 := by
    have hlt := Bytes.ofBE_lt bs
    rwa [h] at hlt
  refine ⟨UInt16.ofNat (Bytes.ofBE bs), ?_⟩
  rw [ClientHello.encodeU16, UInt16.toNat_ofNat', Nat.mod_eq_of_lt hlt, ← h, Bytes.toBE_ofBE]

/-- What is in the grammar is accepted. -/
theorem parseOriginal_complete (native : Endian) (s : HelloSyntax)
    (hbytes : original.bytes = s.bytes) :
    ∃ hello, parseOriginal native original = .ok hello ∧ s.Holds hello := by
  obtain ⟨ver, hver⟩ := exists_encodeU16 s.legacyVersion_length
  rw [HelloSyntax.bytes, hver] at hbytes
  simp only [List.append_assoc, List.cons_append] at hbytes
  -- the reads of `parseOriginal` in their order
  obtain ⟨r₀, h₀, hr₀⟩ := BinaryReader.readU8_complete (BinaryReader.ofSpan original) hbytes
  obtain ⟨len, r₁, h₁, -, hr₁⟩ := BinaryReader.readBytes_complete r₀ 3 (by decide)
    s.handshakeLen_length hr₀
  obtain ⟨r₂, h₂, hr₂⟩ := BinaryReader.readU16_complete native r₁ hr₁
  obtain ⟨random, r₃, h₃, hrandom, hr₃⟩ := BinaryReader.readBytes_complete r₂ 32 (by decide)
    s.random_length hr₂
  obtain ⟨sidLen, r₄, r₅, sid, h₄, h₅, hsid, hsidLen, hr₅⟩ :=
    readVec8_complete s.sessionId_length hr₃
  obtain ⟨cLen, r₆, r₇, _, h₆, h₇, -, hr₇⟩ := readVec16_complete native s.ciphers_length hr₅
  obtain ⟨mLen, r₈, r₉, _, h₈, h₉, -, -, hr₉⟩ := readVec8_complete s.compression_length hr₇
  obtain ⟨eLen, r₁₀, r₁₁, block, h₁₀, h₁₁, hblock, -⟩ :=
    readVec16_complete native s.extensions_length hr₉
  obtain ⟨exts, hread, hexts⟩ := readExtensions_complete native s.extensions
    (BinaryReader.ofSpan block) [] (fun e he => lt_of_le_of_lt (ClientHello.length_payload_lt he)
      s.extensions_length) hblock
  refine ⟨⟨ver, random, sidLen, sid, exts⟩, ?_, hver, hrandom.symm, hsid.symm, hsidLen, hexts.symm⟩
  rw [List.nil_append] at hread
  have hcheck : checkHandshake (BinaryReader.ofSpan original).readU8.1
      ((BinaryReader.ofSpan original).readU8.2.readBytes 3).1 = .ok () := by
    rw [h₀, h₁]
    rfl
  simp only [parseOriginal, except_bind_eq_ok, Prod.exists]
  refine ⟨(), hcheck, ver, r₂, ?_, random, r₃, expect_ok h₃ _, sidLen, r₄, expect_ok h₄ _, sid, r₅,
    expect_ok h₅ _, cLen, r₆, expect_ok h₆ _, _, r₇, expect_ok h₇ _, mLen, r₈, expect_ok h₈ _, _,
    r₉, expect_ok h₉ _, eLen, r₁₀, expect_ok h₁₀ _, block, r₁₁, expect_ok h₁₁ _, exts, hread, rfl⟩
  rw [h₀, h₁]
  exact expect_ok h₂ _

/-! ## The whole function -/

/-- The byte string begins with a ClientHello. -/
def InGrammar (bs : List UInt8) : Prop := ∃ s : HelloSyntax, bs = s.bytes

/-- A read of `n` bytes from `r` that succeeded: it ends inside of the bytes that the reader was
    made for, and the reader stands behind it. -/
structure InsideRead (r r' : BinaryReader) (n : Nat) : Prop where
  inside : r.offset + n ≤ r.data.size
  data : r'.data = r.data
  offset : r'.offset = r.offset + n

private theorem insideRead_advance (hn : n.toNat < 2 ^ 63) (h : r.ensure n) :
    InsideRead r (r.advance n h) n.toNat := by
  have hoffset : (r.advance n h).offset = r.offset + n.toNat := BinaryReader.advanced_eq r n hn
  exact ⟨hoffset ▸ (r.advance n h).offset_le, rfl, hoffset⟩

private theorem insideRead_readBytes (hn : n.toNat < 2 ^ 63) (h : r.readBytes n = (some s, r')) :
    InsideRead r r' n.toNat := by
  rw [BinaryReader.readBytes] at h
  split at h
  case isTrue hensure => exact (Prod.mk.inj h).2 ▸ insideRead_advance hn hensure
  case isFalse => simp at h

private theorem insideRead_readU8 {b : UInt8} (h : r.readU8 = (some b, r')) :
    InsideRead r r' 1 := by
  rw [BinaryReader.readU8] at h
  split at h
  case isTrue hensure => exact (Prod.mk.inj h).2 ▸ insideRead_advance (by decide) hensure
  case isFalse => simp at h

private theorem insideRead_readU16 {v : UInt16} (h : r.readU16 native = (some v, r')) :
    InsideRead r r' 2 := by
  by_cases hensure : r.ensure 2
  · simp only [BinaryReader.readU16, BinaryReader.readUInt, dif_pos hensure] at h
    exact (Prod.mk.inj h).2 ▸ insideRead_advance (by decide) hensure
  · simp [BinaryReader.readU16, BinaryReader.readUInt, dif_neg hensure] at h

private theorem rewrite_eq_ok_iff (native : Endian) (original : Span) (spec : ClientHelloSpec) :
    (∃ out, rewrite native original spec = .ok out) ↔ InGrammar original.bytes := by
  constructor
  · rintro ⟨out, h⟩
    simp only [rewrite, except_bind_eq_ok] at h
    obtain ⟨hello, hparse, -⟩ := h
    obtain ⟨s, hbytes, -⟩ := parseOriginal_syntax hparse
    exact ⟨s, hbytes⟩
  · rintro ⟨s, hbytes⟩
    obtain ⟨hello, hparse, -⟩ := parseOriginal_complete native s hbytes
    exact ⟨encodeHello native hello spec, by simp only [rewrite, hparse]; rfl⟩

/-- `rewrite` returns a message if and only if the original begins with a ClientHello, and an error
    otherwise.  Whatever a reader has read before, a read of as many bytes as a length field of 16
    bits can ask for, of one byte or of two stays inside of the bytes that the reader was made for.
    An iteration of the extension loop that goes on takes at least four of the bytes that remain. -/
theorem rewrite_ok_iff (native : Endian) (original : Span) (spec : ClientHelloSpec) :
    ((∃ out, rewrite native original spec = .ok out) ↔ InGrammar original.bytes) ∧
    ((∃ e, rewrite native original spec = .error e) ↔ ¬InGrammar original.bytes) ∧
    (∀ (r r' : BinaryReader) (n : UInt64) (s : Span), n.toNat < 2 ^ 16 →
      r.readBytes n = (some s, r') → InsideRead r r' n.toNat ∧ s.size = n.toNat) ∧
    (∀ (r r' : BinaryReader) (b : UInt8), r.readU8 = (some b, r') → InsideRead r r' 1) ∧
    (∀ (r r' : BinaryReader) (v : UInt16), r.readU16 native = (some v, r') → InsideRead r r' 2) ∧
    (∀ (r r' : BinaryReader) (entry : UInt16 × Span),
      readExtension native r = .ok (entry, r') → r'.remaining + 4 ≤ r.remaining) := by
  refine ⟨rewrite_eq_ok_iff native original spec, ?_, fun r r' n s hn hread => ?_,
    fun _ _ _ => insideRead_readU8, fun _ _ _ => insideRead_readU16, fun r r' entry hread => ?_⟩
  · rw [← rewrite_eq_ok_iff native original spec]
    cases rewrite native original spec <;> simp
  · have hn' : n.toNat < 2 ^ 63 := by omega
    refine ⟨insideRead_readBytes hn' hread, ?_⟩
    rcases BinaryReader.readBytes_spec r n hn' with ⟨s', r₁, h₁, hlen, -⟩ | ⟨h₁, -⟩
    · obtain ⟨hs, -⟩ := Prod.mk.inj (h₁.symm.trans hread)
      rw [← Option.some.inj hs]
      exact hlen
    · simp [h₁] at hread
  · rw [← BinaryReader.length_rest, ← BinaryReader.length_rest, readExtension_rest hread]
    simp only [List.length_append, Bytes.length_toBE]
    omega

end Ppnt.Spec
