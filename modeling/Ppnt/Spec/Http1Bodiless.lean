import Ppnt.Spec.Http1ClientCorrect

/-!
# Responses that end with their header section

The answer to HEAD and a 2xx answer to CONNECT end with their header section, whatever their fields
say. A response parser does not know the method of the request.  llhttp has to be told by the result
of `on_headers_complete`, which is always 0 here, and the session does not keep the method.  So the
status code and the fields decide what follows the header section, and whatever shares a read with
its last byte has gone to the parser.
-/

namespace Ppnt.Spec

open Ppnt.Native Spans

/-! ## Header sections of responses -/

/-- The header section of a response.  There is at most one length, and not together with a transfer
    coding: llhttp refuses any other response. -/
structure ResponseHead where
  version : H1Version
  code : Nat
  reason : Option (List UInt8)
  headers : List HeaderLine
  code_range : 100 ≤ code ∧ code ≤ 999
  reason_text : (reason.getD []).all isFieldByte = true
  one_length : (fieldValues "content-length" headers).length ≤ 1
  length_number : ∀ v ∈ fieldValues "content-length" headers,
    IsNumber (decimalValue (trimOws v)) (trimOws v) ∧ decimalValue (trimOws v) < 2 ^ 64
  one_framing : fieldValues "content-length" headers = [] ∨
    hasValue "transfer-encoding" headers = false

namespace ResponseHead

/-- The length of the body, 0 if there is none. -/
def contentLength (r : ResponseHead) : Nat :=
  ((fieldValues "content-length" r.headers).map fun v => decimalValue (trimOws v)).sum

/-- The transfer coding that was applied last, as llhttp finds it.  It passes over empty values. -/
def lastCoding (r : ResponseHead) : Option (List UInt8) :=
  ((((fieldValues "transfer-encoding" r.headers).filter (· ≠ [])).flatMap flagElements).map
    toLowerAsciiStr).getLast?

/-- The parser behind the last header line.  `on_headers_complete` does not ask for `skipbody`. -/
def fields (r : ResponseHead) : LlhttpFields where
  type := .response
  httpMinor := r.version.minor
  statusCode := r.code
  contentLength := r.contentLength
  flags := {
    connectionKeepAlive := connectionFlag "keep-alive" r.headers
    connectionClose := connectionFlag "close" r.headers
    connectionUpgrade := connectionFlag "upgrade" r.headers
    upgrade := hasValue "upgrade" r.headers
    chunked := r.lastCoding = some (ascii "chunked")
    transferEncoding := hasValue "transfer-encoding" r.headers
    contentLength := fieldValues "content-length" r.headers ≠ [] }

def afterHeaders (r : ResponseHead) : AfterHeaders :=
  r.fields.beforeHeadersComplete.afterHeadersComplete

/-- Does the parser take the message for complete? -/
def framing (r : ResponseHead) : Framing :=
  if r.afterHeaders = .noBody ∨ r.afterHeaders = .otherProtocol then .none else .suppressed

def lineToks (r : ResponseHead) : List HTok := statusToks r.version.minor r.code r.reason

def toks (r : ResponseHead) : List HTok := messageToks r.lineToks r.headers r.framing

/-- What the parser returns behind the header section. -/
def errno (r : ResponseHead) : LlhttpErrno :=
  if r.afterHeaders = .otherProtocol then .error "HPE_PAUSED_UPGRADE" else .ok

/-- The response has no body by its status code and its fields. -/
def SaysNoBody (r : ResponseHead) : Prop :=
  r.code ∈ [100, 102, 103, 204, 304] ∨
    r.code ≠ 101 ∧ hasValue "transfer-encoding" r.headers = false ∧
    if fieldValues "content-length" r.headers = [] then r.code / 100 = 1 else r.contentLength = 0

instance (r : ResponseHead) : Decidable r.SaysNoBody := by
  unfold SaysNoBody
  infer_instance

end ResponseHead

/-- What is assumed of llhttp for the header section of a response. -/
def ParsesHead (P : Llhttp) (r : ResponseHead) : Prop := Parses P (fun _ => True) r.errno r.toks

variable {r : ResponseHead}

/-- A response changes the protocol only with the code 101. -/
private theorem upgrade_eq_false (h : r.code ≠ 101) : r.fields.beforeHeadersComplete.upgrade =
    false := by
  simp [LlhttpFields.beforeHeadersComplete, ResponseHead.fields, httpConnect, h]

/-- What follows a header section, in the order in which llhttp decides it. -/
theorem afterHeaders_eq (r : ResponseHead) :
    r.afterHeaders =
      if r.code = 101 then .otherProtocol
      else if r.code ∈ [100, 102, 103, 204, 304] then .noBody
      else if r.lastCoding = some (ascii "chunked") then .chunkSizeStart
      else if hasValue "transfer-encoding" r.headers = true then .bodyIdentityEof
      else if fieldValues "content-length" r.headers = [] then
        if r.code / 100 = 1 then .noBody else .bodyIdentityEof
      else if r.contentLength = 0 then .noBody
      else .bodyIdentity := by
  by_cases h101 : r.code = 101
  · simp [ResponseHead.afterHeaders, LlhttpFields.afterHeadersComplete,
      LlhttpFields.beforeHeadersComplete, ResponseHead.fields, h101]
  · have hupgrade := upgrade_eq_false h101
    unfold ResponseHead.afterHeaders LlhttpFields.afterHeadersComplete
    rw [hupgrade]
    simp only [LlhttpFields.beforeHeadersComplete, ResponseHead.fields,
      LlhttpFields.messageNeedsEof, h101]
    -- then the codes that have no body, and then the fields
    by_cases hcode : r.code ∈ [100, 102, 103, 204, 304]
    · have h := hcode
      simp only [List.mem_cons, List.not_mem_nil, or_false] at h
      rcases h with h | h | h | h | h <;> simp [h]
    · have h := hcode
      simp only [List.mem_cons, List.not_mem_nil, or_false, not_or] at h
      by_cases hchunked : r.lastCoding = some (ascii "chunked")
      · simp [h, hcode, hchunked]
      · by_cases hcoding : hasValue "transfer-encoding" r.headers = false
        · by_cases hlength : fieldValues "content-length" r.headers = []
          · by_cases hinterim : r.code / 100 = 1 <;>
              simp [h, hcode, hchunked, hcoding, hlength, hinterim]
          · simp [h, hcode, hchunked, hcoding, hlength]
        · simp [h, hcode, hchunked, hcoding]

/-- Without a value there is no transfer coding. -/
private theorem lastCoding_eq_none (h : hasValue "transfer-encoding" r.headers = false) :
    r.lastCoding = none := by
  have hempty : (fieldValues "transfer-encoding" r.headers).filter (· ≠ []) = [] := by
    rw [hasValue, List.any_eq_false] at h
    exact List.filter_eq_nil_iff.mpr h
  rw [ResponseHead.lastCoding, hempty]
  rfl

private theorem afterHeaders_eq_noBody_iff : r.afterHeaders = .noBody ↔ r.SaysNoBody := by
  rw [afterHeaders_eq, ResponseHead.SaysNoBody]
  by_cases h101 : r.code = 101
  · simp [h101]
  · by_cases hcode : r.code ∈ [100, 102, 103, 204, 304]
    · simp only [h101, hcode, if_true, if_false, true_or]
    · by_cases hcoding : hasValue "transfer-encoding" r.headers = false
      · -- without a transfer coding the length decides
        have hplain : r.lastCoding = none := lastCoding_eq_none hcoding
        by_cases hlength : fieldValues "content-length" r.headers = []
        · simp [h101, hcode, hcoding, hplain, hlength]
        · simp [h101, hcode, hcoding, hplain, hlength]
      · rw [Bool.not_eq_false] at hcoding
        simp only [h101, hcode, hcoding, if_false, if_true, false_or, Bool.true_eq_false, false_and,
          and_false, iff_false]
        split <;> simp

private theorem afterHeaders_eq_otherProtocol_iff : r.afterHeaders = .otherProtocol ↔
    r.code = 101 := by
  rw [afterHeaders_eq]
  split
  · simpa
  · next h =>
    simp only [h, iff_false]
    repeat' split
    all_goals simp

/-! ## The end of the message -/

variable {P : Llhttp}

/-- The bytes that the reads hold. -/
def delivered (reads : List Read) : List UInt8 := reads.flatMap fun read => read.toOption.getD []

/-- `request` takes the message to end with its header section: `body_full` returns an empty body
    and does not read, and the bytes `follow` behind the header section are left to the owner of the
    stream. -/
def MessageEndsAtHead (s : Http1Session P) (reads : List Read) (follow : List UInt8) : Prop :=
  ∃ head s₁ reads₁, Http1Session.request s (.ok ()) reads = (.ok head, s₁, reads₁) ∧
    (∀ next, ∃ s₂, Http1Session.bodyFull s₁ next = (.ok [], s₂, next)) ∧
    delivered (Http1Session.leakStream s₁ reads₁) = follow

private theorem isLine_head (r : ResponseHead) :
    IsLine P clientStart r.lineToks
      ((r.reason.map fun reason => .span (.onStatus r.code) reason).toList)
      ((r.reason.map fun reason => ⟨r.code, reason⟩).getD {}) :=
  isLine_status r.version.minor r.code r.reason

variable {cs : List (List HTok)}

/-- The header section is complete with the last piece. -/
private theorem bodyPieces_head (P : Llhttp) (hcs : Pieces r.toks cs) :
    bodyPieces cs = [] := by
  have hf : r.framing.toks = [] := by
    unfold ResponseHead.framing
    split <;> rfl
  exact bodyPieces_eq_nil (isLine_head (P := P) r) hcs hf

/-- `request` leaves what its loop leaves. -/
private theorem request_reads (s : Http1Session P) (reads : List Read) :
    (Http1Session.request s (.ok ()) reads).2.2 =
      ((H1Session.resetState P clientStart).readUntil clientStart .onHeadersComplete
        reads).2.2 := by
  simp only [Http1Session.request]
  rcases (H1Session.resetState P clientStart).readUntil clientStart .onHeadersComplete reads with
    ⟨exit, s', reads'⟩
  cases exit <;> rfl

/-- Bytes that share a read with the end of the header section are lost, whatever the parser makes
    of them. -/
private theorem extra_eq_nil_of_kept (hcs : Pieces r.toks cs) (hparses : ParsesHead P r)
    (s : Http1Session P) {extra : List UInt8} {more : List Read} {result : Except Error HeadParts}
    {s₁ : Http1Session P} {reads₁ : List Read}
    (hrequest : Http1Session.request s (.ok ()) (readsWith extra cs ++ more) = (result, s₁, reads₁))
    (hkept : delivered (Http1Session.leakStream s₁ reads₁) = extra ++ delivered more) :
    extra = [] := by
  have hnil : cs ≠ [] := by
    rintro rfl
    exact absurd (headersComplete_mem hcs) (by simp)
  have hrest := rest_readsWith (L := clientStart) .onHeadersComplete extra more (hparses cs hcs)
    hcs.ne_nil (s := H1Session.resetState P clientStart) rfl hnil (bodyPieces_head P hcs)
  rw [← request_reads s, hrequest] at hrest
  -- what is left is an end of `more`, and has no room for `extra`
  obtain ⟨taken, rfl⟩ := hrest
  have hlen := congrArg List.length hkept
  simp only [Http1Session.leakStream, delivered, List.flatMap_append, List.length_append] at hlen
  exact List.eq_nil_of_length_eq_zero (by omega)

/-- `request` on a header section in reads of its own. -/
private theorem request_of_head (hcs : Pieces r.toks cs) (hparses : ParsesHead P r)
    (h101 : r.code ≠ 101) (s : Http1Session P) (more : List Read) :
    ∃ head s₁, Http1Session.request s (.ok ()) (readsOf cs ++ more) = (.ok head, s₁, more) ∧
      (s₁.messageComplete = true ↔ r.SaysNoBody) ∧ s₁.bodyBuffer = [] := by
  have hbody := bodyPieces_head P hcs
  have hline := isLine_head (P := P) r
  have hupgrade : r.afterHeaders ≠ .otherProtocol :=
    fun h => h101 (afterHeaders_eq_otherProtocol_iff.mp h)
  have hok : r.errno = .ok := if_neg hupgrade
  unfold ParsesHead at hparses
  rw [hok] at hparses
  obtain ⟨p, hhead, -, -⟩ := headLoop (L := clientStart) hcs hparses more fun _ => rfl
  rw [hbody] at hhead
  -- all pieces belong to the head loop
  obtain ⟨hflag, hbuffer⟩ := afterHeadLoop_body P clientStart cs p ⟨{}, []⟩
  have hall := headPieces_append cs
  rw [hbody, List.append_nil] at hall
  rw [hall, messageComplete_mem_iff hline hcs] at hflag
  rw [hall, collect_pieces hline hcs] at hbuffer
  refine ⟨_, _, by simp only [Http1Session.request, hhead]; rfl, hflag.trans ?_, hbuffer.trans ?_⟩
  · by_cases hno : r.SaysNoBody <;>
      simp [ResponseHead.framing, afterHeaders_eq_noBody_iff, hno, hupgrade, Framing.selfDelimiting]
  · unfold ResponseHead.framing
    split <;> rfl

/-- Behind a code that changes the protocol the parser stops with an error, and `request` fails. -/
private theorem request_of_head_switching (hcs : Pieces r.toks cs) (hparses : ParsesHead P r)
    (h101 : r.code = 101) (s : Http1Session P) (more : List Read) :
    (Http1Session.request s (.ok ()) (readsOf cs ++ more)).1 =
      makeErrResult .badMessage "http1 request" := by
  have herror : r.errno = .error "HPE_PAUSED_UPGRADE" :=
    if_pos (afterHeaders_eq_otherProtocol_iff.mpr h101)
  unfold ParsesHead at hparses
  rw [herror] at hparses
  obtain ⟨s', hloop⟩ := headLoop_error (L := clientStart) hcs hparses more (bodyPieces_head P hcs)
  simp only [Http1Session.request, hloop]

/-- `body_full` returns an empty body at once. -/
private theorem bodyFull_at_once_iff (s : Http1Session P) :
    (∀ next, ∃ s', Http1Session.bodyFull s next = (.ok [], s', next)) ↔
      s.messageComplete = true ∧ s.bodyBuffer = [] := by
  constructor
  · intro h
    by_cases hcomplete : s.messageComplete = true
    · obtain ⟨s', hs'⟩ := h []
      rw [Http1Session.bodyFull, readUntil_of_flag (m := .onMessageComplete) hcomplete] at hs'
      simp only [Prod.mk.injEq, Except.ok.injEq] at hs'
      exact ⟨hcomplete, hs'.1⟩
    · -- the loop takes the next read, whatever it is
      obtain ⟨s', hs'⟩ := h [.error ⟨.ioError, ""⟩]
      simp [Http1Session.bodyFull, H1Session.readUntil, H1Session.flag, hcomplete] at hs'
  · rintro ⟨hcomplete, hbuffer⟩ next
    refine ⟨{ s with bodyBuffer := [] }, ?_⟩
    rw [Http1Session.bodyFull, readUntil_of_flag (m := .onMessageComplete) hcomplete]
    simp only [hbuffer]

/-- A header section in reads of its own. -/
private theorem messageEndsAtHead_iff_saysNoBody (hcs : Pieces r.toks cs) (hparses : ParsesHead P r)
    (s : Http1Session P) (more : List Read) :
    MessageEndsAtHead s (readsOf cs ++ more) (delivered more) ↔ r.SaysNoBody := by
  by_cases h101 : r.code = 101
  · -- the parser pauses behind the header section
    have hno : ¬r.SaysNoBody := by simp [ResponseHead.SaysNoBody, h101]
    have hfail := request_of_head_switching hcs hparses h101 s more
    simp only [hno, iff_false]
    rintro ⟨head, s₁, reads₁, hrequest, -⟩
    rw [hrequest] at hfail
    exact nomatch hfail
  · obtain ⟨head, s₁, hrequest, hcomplete, hbuffer⟩ := request_of_head hcs hparses h101 s more
    constructor
    · rintro ⟨head', s₁', reads₁, hrequest', hend, -⟩
      rw [hrequest] at hrequest'
      obtain ⟨-, rfl, rfl⟩ := hrequest'
      exact hcomplete.mp ((bodyFull_at_once_iff s₁).mp hend).1
    · intro hno
      exact ⟨head, s₁, more, hrequest, (bodyFull_at_once_iff s₁).mpr ⟨hcomplete.mpr hno, hbuffer⟩,
        rfl⟩

/-- When a response ends with its header section. -/
theorem messageEndsAtHead_iff (hcs : Pieces r.toks cs) (hparses : ParsesHead P r)
    (s : Http1Session P) (extra : List UInt8) (more : List Read) :
    MessageEndsAtHead s (readsWith extra cs ++ more) (extra ++ delivered more) ↔
      r.SaysNoBody ∧ extra = [] := by
  have hown := messageEndsAtHead_iff_saysNoBody hcs hparses s more
  constructor
  · rintro ⟨head, s₁, reads₁, hrequest, hend, hkept⟩
    obtain rfl := extra_eq_nil_of_kept hcs hparses s hrequest hkept
    rw [readsWith_nil] at hrequest
    exact ⟨hown.mp ⟨head, s₁, reads₁, hrequest, hend, hkept⟩, rfl⟩
  · rintro ⟨hno, rfl⟩
    rw [readsWith_nil]
    exact hown.mpr hno

/-- A tunnel keeps its bytes exactly if none of them shares a read with the end of the header
    section. -/
theorem tunnel_kept_iff (hcs : Pieces r.toks cs) (hparses : ParsesHead P r) (h101 : r.code ≠ 101)
    (s : Http1Session P) (extra : List UInt8) (more : List Read) :
    (∃ head s₁ reads₁,
        Http1Session.request s (.ok ()) (readsWith extra cs ++ more) = (.ok head, s₁, reads₁) ∧
        delivered (Http1Session.leakStream s₁ reads₁) = extra ++ delivered more) ↔ extra = [] := by
  constructor
  · rintro ⟨head, s₁, reads₁, hrequest, hkept⟩
    exact extra_eq_nil_of_kept hcs hparses s hrequest hkept
  · rintro rfl
    obtain ⟨head, s₁, hrequest, -, -⟩ := request_of_head hcs hparses h101 s more
    rw [readsWith_nil]
    exact ⟨head, s₁, more, hrequest, rfl⟩

/-- The response to a request with this method has no body, whatever its fields say. -/
def EndsAtHead (method : List UInt8) (code : Nat) : Prop :=
  method = ascii "HEAD" ∨ method = ascii "CONNECT" ∧ code / 100 = 2

instance (method : List UInt8) (code : Nat) : Decidable (EndsAtHead method code) :=
  inferInstanceAs (Decidable (_ ∨ _))

/-- A parser that knows the header section of one response. -/
def headParser (r : ResponseHead) : Llhttp := oneMessage r.toks [] r.errno

private theorem headParser_parses (r : ResponseHead) : ParsesHead (headParser r) r :=
  oneMessage_parses r.toks [] r.errno fun _ => trivial

/-- `204 No Content`. -/
def noContent : ResponseHead where
  version := .http11
  code := 204
  reason := some (ascii "No Content")
  headers := []
  code_range := by decide
  reason_text := by decide
  one_length := by decide
  length_number := by decide
  one_framing := by decide

/-- `200 OK` with the length of the body that GET would have got. -/
def lengthOk : ResponseHead where
  version := .http11
  code := 200
  reason := some (ascii "OK")
  headers := [lengthLine]
  code_range := sampleOk.code_range
  reason_text := sampleOk.reason_text
  one_length := by decide
  length_number := by decide
  one_framing := by decide

/-- `200 OK` and the first bytes of a tunnel, as the parser sees them. -/
def tunnelOk : Response where
  version := .http11
  code := 200
  reason := some (ascii "OK")
  headers := []
  framing := .untilEof (ascii "hi")
  code_range := sampleOk.code_range
  reason_text := sampleOk.reason_text
  framing_announced := by
    rw [if_neg (by decide)]
    exact ⟨by decide, by simp⟩

end Ppnt.Spec
