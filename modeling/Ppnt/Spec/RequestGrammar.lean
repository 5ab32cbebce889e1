import Ppnt.Spec.Http1Grammar
import Ppnt.Spec.RequestEncoding

/-!
# What a server reads of a serialized request

`serialize_to_h1` checks nothing: every part of the request is copied into the message.  `sent` is
the message that a request stands for, and `H1.decode` is its receiver.
-/

namespace Ppnt.Spec

open Ppnt.Native OutgoingRequest H1

/-- The port of a CONNECT target. -/
def connectPort (url : Url) : Int :=
  if url.portOrDefault ≠ 0 then url.portOrDefault
  else if url.scheme = ascii "https" ∨ url.scheme = ascii "wss" then 443 else 80

/-- The message that the request stands for. -/
def sent (r : OutgoingRequest) : Message where
  method := r.method
  target :=
    if r.method = ascii "CONNECT" then r.url.host ++ ascii ":" ++ formatInt (connectPort r.url)
    else (if r.url.path = [] then ascii "/" else r.url.path) ++
      if r.url.query = [] then [] else ascii "?" ++ r.url.query
  headers := h1Headers r
  body := r.bodyBytes

theorem requestTarget_eq (r : OutgoingRequest) : r.requestTarget = (sent r).target := by
  simp only [requestTarget, isConnect, sent, decide_eq_true_eq, connectPort, ite_not,
    Bool.or_eq_true]

private theorem writeLine_eq : writeLine = encodeField := rfl

/-- The bytes are those of the message. -/
theorem encode_sent (r : OutgoingRequest) : r.serializeToH1 = (sent r).encode := by
  have hversion : ascii " HTTP/1.1\r\n" = ascii " HTTP/1.1" ++ crlf := by decide
  have hend : ascii "\r\n" = crlf := by decide
  rw [serializeToH1_eq, requestTarget_eq, hversion, hend, writeLine_eq]
  simp [Message.encode, sent]

/-! ## Requests that make one message -/

/-- What a request needs for its message to be well-formed. -/
structure Sendable (r : OutgoingRequest) : Prop where
  method : IsToken r.method
  target : (sent r).target.all isVisible = true
  fields : ∀ h ∈ r.headers, IsField h
  host : HasField r "host" ∨ IsFieldValue r.defaultHost
  transferEncoding : ¬HasField r "transfer-encoding"
  contentLength : ∀ h ∈ r.headers, Named "content-length" h →
    StatesLength r.bodyBytes.length h.value

theorem target_ne_nil (r : OutgoingRequest) : (sent r).target ≠ [] := by
  unfold sent
  dsimp only
  split
  · simp [ascii]
  · split
    · simp [ascii]
    · simp [*]

/-- The header lines are well formed if the given ones and `Host` are. -/
theorem fields_iff (r : OutgoingRequest) :
    (∀ h ∈ h1Headers r, IsField h) ↔
      (∀ h ∈ r.headers, IsField h) ∧ (HasField r "host" ∨ IsFieldValue r.defaultHost) := by
  have hhost : IsToken (ascii "Host") := by decide
  have hname : IsToken (ascii "Content-Length") := by decide
  have hlength : IsField ⟨ascii "Content-Length", decimal r.bodyBytes.length⟩ :=
    ⟨hname, isFieldValue_decimal _⟩
  constructor
  · intro h
    refine ⟨fun f hf => h f (by simp [h1Headers, hf]), ?_⟩
    by_cases hown : HasField r "host"
    · exact .inl hown
    · exact .inr (h ⟨ascii "Host", r.defaultHost⟩ (by simp [h1Headers, hown])).2
  · rintro ⟨hfields, hhost'⟩ f hf
    simp only [h1Headers, List.mem_append] at hf
    rcases hf with (hf | hf) | hf
    · exact hfields f hf
    · -- the `Host` that is added
      split at hf
      · exact absurd hf List.not_mem_nil
      case isFalse hown =>
        rw [List.mem_singleton.mp hf]
        exact ⟨hhost, hhost'.resolve_left hown⟩
    · -- the `Content-Length` that is added
      split at hf
      · rw [List.mem_singleton.mp hf]
        exact hlength
      · exact absurd hf List.not_mem_nil

theorem fieldLines_eq_nil_iff (name : String) (hs : List HttpHeader) :
    fieldLines name hs = [] ↔ ¬∃ h ∈ hs, Named name h := by
  simp [fieldLines, Named]

private theorem fieldLines_append (name : String) (hs hs' : List HttpHeader) :
    fieldLines name (hs ++ hs') = fieldLines name hs ++ fieldLines name hs' := by
  simp [fieldLines]

/-- The lines that are added do not change the transfer coding. -/
theorem fieldLines_transferEncoding (r : OutgoingRequest) :
    fieldLines "transfer-encoding" (h1Headers r) = fieldLines "transfer-encoding" r.headers := by
  have hhost : fieldLines "transfer-encoding"
      (if HasField r "host" then [] else [⟨ascii "Host", r.defaultHost⟩]) = [] := by
    split <;> rfl
  have hlength : fieldLines "transfer-encoding"
      (if r.bodyBytes ≠ [] ∧ ¬HasField r "content-length" then
        [⟨ascii "Content-Length", decimal r.bodyBytes.length⟩] else []) = [] := by
    split <;> rfl
  rw [h1Headers, fieldLines_append, fieldLines_append, hhost, hlength, List.append_nil,
    List.append_nil]

/-- The length that is added is the one that is missing. -/
theorem fieldLines_contentLength (r : OutgoingRequest) :
    fieldLines "content-length" (h1Headers r) =
      if r.bodyBytes ≠ [] ∧ ¬HasField r "content-length" then [decimal r.bodyBytes.length]
      else fieldLines "content-length" r.headers := by
  have hhost : fieldLines "content-length"
      (if HasField r "host" then [] else [⟨ascii "Host", r.defaultHost⟩]) = [] := by
    split <;> rfl
  rw [h1Headers, fieldLines_append, fieldLines_append, hhost, List.append_nil]
  split
  case isTrue hmissing =>
    rw [(fieldLines_eq_nil_iff _ _).mpr hmissing.2]
    rfl
  case isFalse => exact List.append_nil _

private theorem mem_fieldLines {name : String} {hs : List HttpHeader} {value : List UInt8} :
    value ∈ fieldLines name hs ↔ ∃ h ∈ hs, Named name h ∧ h.value = value := by
  simp [fieldLines, Named, and_assoc]

/-- When the framing that is announced is that of the body. -/
private theorem framing_iff (r : OutgoingRequest) :
    framing (h1Headers r) = some (.fixed r.bodyBytes.length) ↔
      ¬HasField r "transfer-encoding" ∧
        ∀ h ∈ r.headers, Named "content-length" h → StatesLength r.bodyBytes.length h.value := by
  rw [framing_eq_fixed_iff, fieldLines_transferEncoding, fieldLines_eq_nil_iff,
    fieldLines_contentLength]
  refine and_congr_right fun _ => ?_
  by_cases hown : HasField r "content-length"
  · -- the request's own lines decide
    have hne : fieldLines "content-length" r.headers ≠ [] := by
      rw [ne_eq, fieldLines_eq_nil_iff, not_not]
      exact hown
    rw [if_neg (fun h => h.2 hown), contentLength_eq_some_iff hne]
    constructor
    · exact fun h f hf hname => h f.value (mem_fieldLines.mpr ⟨f, hf, hname, rfl⟩)
    · intro h value hvalue
      obtain ⟨f, hf, hname, rfl⟩ := mem_fieldLines.mp hvalue
      exact h f hf hname
  · -- no line, or the one that is added: both give the length of the body
    have hright : ∀ h ∈ r.headers, Named "content-length" h →
        StatesLength r.bodyBytes.length h.value :=
      fun h hh hname => absurd ⟨h, hh, hname⟩ hown
    refine iff_of_true ?_ hright
    by_cases hbody : r.bodyBytes = []
    · rw [if_neg (fun h => h.1 hbody), (fieldLines_eq_nil_iff _ _).mpr hown, hbody]
      exact contentLength_nil
    · rw [if_pos ⟨hbody, hown⟩, contentLength_eq_some_iff (by simp)]
      intro value hvalue
      rw [List.mem_singleton.mp hvalue]
      exact statesLength_decimal _

theorem wellFormed_sent_iff (r : OutgoingRequest) : (sent r).WellFormed ↔ Sendable r := by
  constructor
  · intro h
    obtain ⟨hfields, hhost⟩ := (fields_iff r).mp h.headers
    obtain ⟨htransfer, hlength⟩ := (framing_iff r).mp h.body
    exact ⟨h.method, h.target.2, hfields, hhost, htransfer, hlength⟩
  · intro h
    exact ⟨⟨h.method, ⟨target_ne_nil r, h.target⟩, (fields_iff r).mpr ⟨h.fields, h.host⟩⟩,
      (framing_iff r).mpr ⟨h.transferEncoding, h.contentLength⟩⟩

/-- The receiver reads the request that was meant, from all the bytes, if and only if the request is
    sendable; `serialize_to_h1` refuses none. -/
theorem one_message_iff (r : OutgoingRequest) :
    H1.decode r.serializeToH1 = some (sent r) ↔ Sendable r := by
  rw [encode_sent, decode_encode_iff, wellFormed_sent_iff]

/-- A request for `http://a/` whose own `Content-Length` is 0. -/
def lengthZero (body : List UInt8) : OutgoingRequest where
  url := { scheme := ascii "http", host := ascii "a", path := ascii "/" }
  headers := [⟨ascii "Content-Length", ascii "0"⟩]
  body := some body

/-- A request that the caller did not mean to send. -/
def hiddenGet : Message where
  method := ascii "GET"
  target := ascii "/x"
  headers := [⟨ascii "Host", ascii "a"⟩]
  body := []

/-- With a `Content-Length` of 0 the receiver reads a message without a body, and then the body as a
    message of its own. -/
theorem request_split :
    ∃ first, (lengthZero hiddenGet.encode).serializeToH1 = first ++ hiddenGet.encode ∧
      H1.decode first = some (sent (lengthZero [])) ∧
      H1.decode hiddenGet.encode = some hiddenGet ∧
      H1.decode (lengthZero hiddenGet.encode).serializeToH1 ≠
        some (sent (lengthZero hiddenGet.encode)) := by
  refine ⟨(lengthZero []).serializeToH1, by decide, by decide +kernel, by decide +kernel, ?_⟩
  rw [ne_eq, encode_sent, decode_encode_iff, wellFormed_sent_iff]
  intro h
  have hlength := h.contentLength ⟨ascii "Content-Length", ascii "0"⟩ (by decide) (by decide)
  exact absurd hlength (by decide)

/-! ## Plain requests -/

/-- The method and the names are tokens, the target has no blanks and control characters, the values
    have no line ends and no white space around them, and the framing fields are right. -/
structure PlainRequest (r : OutgoingRequest) : Prop where
  method : IsToken r.method
  path : r.url.path.all isVisible = true
  query : r.url.query.all isVisible = true
  names : ∀ h ∈ r.headers, IsToken h.name
  values : ∀ h ∈ r.headers, 13 ∉ h.value ∧ 10 ∉ h.value ∧ trimOws h.value = h.value
  transferEncoding : ¬HasField r "transfer-encoding"
  contentLength : ∀ h ∈ r.headers, Named "content-length" h →
    StatesLength r.bodyBytes.length h.value

/-- The host keeps to the grammar where it is written: in the target of CONNECT and in a `Host` line
    that is added. -/
def HostPlain (r : OutgoingRequest) : Prop :=
  if r.method = ascii "CONNECT" then r.url.host.all isVisible = true
  else HasField r "host" ∨ IsFieldValue r.defaultHost

private theorem isVisible_of_mem_formatInt {v : Int} {b : UInt8} (hb : b ∈ formatInt v) :
    isVisible b = true := by
  rcases mem_formatInt hb with rfl | hdigit
  · decide
  · exact isVisible_of_isDigit hdigit

/-- Only the target of a CONNECT holds the host. -/
private theorem target_iff {r : OutgoingRequest} (h : PlainRequest r) :
    (sent r).target.all isVisible = true ↔
      (r.method = ascii "CONNECT" → r.url.host.all isVisible = true) := by
  unfold sent
  dsimp only
  split
  case isTrue hconnect =>
    have hport : (formatInt (connectPort r.url)).all isVisible = true :=
      List.all_eq_true.mpr fun b => isVisible_of_mem_formatInt
    have hcolon : (ascii ":").all isVisible = true := by decide
    simp only [List.all_append, hcolon, hport, Bool.and_true, hconnect, forall_const]
  case isFalse hconnect =>
    simp only [hconnect, false_implies, iff_true, List.all_append, Bool.and_eq_true]
    constructor
    · split
      · decide
      · exact h.path
    · split
      · rfl
      · rw [List.all_append, h.query]
        decide

/-- A visible target is also a field value. -/
private theorem host_iff {r : OutgoingRequest} (hconnect : r.method = ascii "CONNECT")
    (htarget : (sent r).target.all isVisible = true) : IsFieldValue r.defaultHost := by
  rw [defaultHost, isConnect, decide_eq_true hconnect, if_pos rfl, requestTarget_eq]
  exact isFieldValue_of_forall (List.all_eq_true.mp htarget)

/-- What is left to check for a request that is built in code. -/
private theorem sendable_iff {r : OutgoingRequest} (h : PlainRequest r) :
    Sendable r ↔ HostPlain r ∧ ∀ f ∈ r.headers, f.value.all isFieldByte = true := by
  constructor
  · intro hsend
    refine ⟨?_, fun f hf => (hsend.fields f hf).2.1⟩
    unfold HostPlain
    split
    case isTrue hconnect => exact (target_iff h).mp hsend.target hconnect
    case isFalse => exact hsend.host
  · rintro ⟨hhost, hvalues⟩
    unfold HostPlain at hhost
    have htarget : (sent r).target.all isVisible = true := by
      rw [target_iff h]
      intro hconnect
      rwa [if_pos hconnect] at hhost
    refine ⟨h.method, htarget, ?_, ?_, h.transferEncoding, h.contentLength⟩
    · intro f hf
      exact ⟨h.names f hf, hvalues f hf, (h.values f hf).2.2⟩
    · -- the `Host` of CONNECT is the target
      split at hhost
      case isTrue hconnect => exact .inr (host_iff hconnect htarget)
      case isFalse => exact hhost

/-- Plain requests are read back if and only if the host is plain where it is written and no value
    has a control character. -/
theorem plain_request_iff (r : OutgoingRequest) (h : PlainRequest r) :
    H1.decode r.serializeToH1 = some (sent r) ↔
      HostPlain r ∧ ∀ f ∈ r.headers, f.value.all isFieldByte = true := by
  rw [encode_sent, decode_encode_iff, wellFormed_sent_iff, sendable_iff h]

/-- A POST whose body has an empty line in it. -/
def plainPost : OutgoingRequest where
  url := { scheme := ascii "http", host := ascii "a", port := 8080, path := [], query := ascii "q" }
  method := ascii "POST"
  headers := [⟨ascii "Accept", ascii "text/html, */*"⟩]
  body := some (ascii "x\r\n\r\ny")

theorem plain_request_iff_plainPost :
    PlainRequest plainPost ∧ HostPlain plainPost ∧
      H1.decode plainPost.serializeToH1 = some ⟨ascii "POST", ascii "/?q",
        [⟨ascii "Accept", ascii "text/html, */*"⟩, ⟨ascii "Host", ascii "a:8080"⟩,
          ⟨ascii "Content-Length", ascii "6"⟩], ascii "x\r\n\r\ny"⟩ := by
  have hplain : PlainRequest plainPost :=
    ⟨by decide, by decide, by decide, by decide, by decide, by decide, by decide⟩
  have hhost : HostPlain plainPost := .inr (by decide)
  refine ⟨hplain, hhost, ?_⟩
  exact (plain_request_iff plainPost hplain).mpr ⟨hhost, by decide⟩

/-- A GET for a URL whose host has a line end in it. -/
def brokenHost : OutgoingRequest where
  url := { scheme := ascii "http", host := ascii "a\r\nx", port := 1, path := ascii "/" }

/-- `Url::parse` accepts a line end in the host, and the `Host` line that is written with it is read
    as two fields. -/
theorem host_adds_field :
    Url.parse (ascii "http://a\r\nx:1/") = .ok brokenHost.url ∧ PlainRequest brokenHost ∧
      H1.decode brokenHost.serializeToH1 = some ⟨ascii "GET", ascii "/",
        [⟨ascii "Host", ascii "a"⟩, ⟨ascii "x", ascii "1"⟩], []⟩ ∧
      H1.decode brokenHost.serializeToH1 ≠ some (sent brokenHost) := by
  have hdecode : H1.decode brokenHost.serializeToH1 = some ⟨ascii "GET", ascii "/",
      [⟨ascii "Host", ascii "a"⟩, ⟨ascii "x", ascii "1"⟩], []⟩ := by
    decide +kernel
  refine ⟨by decide +kernel, ?_, hdecode, ?_⟩
  · exact ⟨by decide, by decide, by decide, by decide, by decide, by decide, by decide⟩
  · rw [hdecode]
    decide

end Ppnt.Spec
