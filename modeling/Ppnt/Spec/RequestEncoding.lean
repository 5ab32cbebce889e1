import Ppnt.Native.Http2

/-!
# One request in HTTP/1 and in HTTP/2

ALPN decides whether a request is written by `serialize_to_h1` or submitted to nghttp2.  This file
takes `serialize_to_h1` as what the request means: its target, its header lines and its body are
read off (`serializeToH1_eq`), and `SameRequest` says that a submission carries the same.
-/

namespace Ppnt.Spec

open Ppnt.Native OutgoingRequest

/-- The header field has the name, in any case. -/
def Named (name : String) (h : HttpHeader) : Prop := ignoreCaseEqual h.name (ascii name) = true

instance (name : String) : DecidablePred (Named name) :=
  fun _ => inferInstanceAs (Decidable (_ = true))

/-- The request has a header field with the name. -/
def HasField (r : OutgoingRequest) (name : String) : Prop := ∃ h ∈ r.headers, Named name h

instance (r : OutgoingRequest) (name : String) : Decidable (HasField r name) :=
  inferInstanceAs (Decidable (∃ h ∈ _, _))

/-! ## The HTTP/1 message -/

/-- The lines of the header section. -/
def h1Headers (r : OutgoingRequest) : List HttpHeader :=
  r.headers ++ (if HasField r "host" then [] else [⟨ascii "Host", r.defaultHost⟩]) ++
    if r.bodyBytes ≠ [] ∧ ¬HasField r "content-length" then
      [⟨ascii "Content-Length", decimal r.bodyBytes.length⟩]
    else []

private theorem any_iff_hasField (r : OutgoingRequest) (name : String) :
    (r.headers.any fun h => ignoreCaseEqual h.name (ascii name)) = true ↔ HasField r name :=
  List.any_eq_true

/-- `serialize_to_h1` writes a request line, header lines and a body. -/
theorem serializeToH1_eq (r : OutgoingRequest) :
    r.serializeToH1 = r.method ++ ascii " " ++ r.requestTarget ++ ascii " HTTP/1.1\r\n" ++
      (h1Headers r).flatMap writeLine ++ ascii "\r\n" ++ r.bodyBytes := by
  have hlength : (r.bodyBytes ≠ [] && !r.headers.any fun h =>
      ignoreCaseEqual h.name (ascii "content-length")) = true ↔
      r.bodyBytes ≠ [] ∧ ¬HasField r "content-length" := by
    rw [Bool.and_eq_true, decide_eq_true_eq, Bool.not_eq_true', ← any_iff_hasField,
      Bool.not_eq_true]
  simp only [serializeToH1, h1Headers, any_iff_hasField, hlength, List.flatMap_append,
    apply_ite (List.flatMap writeLine), List.flatMap_singleton, List.flatMap_nil, List.append_assoc]

/-- The value of the first `Host` line. -/
def h1Host (r : OutgoingRequest) : Option (List UInt8) := headerGet (h1Headers r) (ascii "host")

private theorem headerGet_append (hs hs' : List HttpHeader) (name : List UInt8) :
    headerGet (hs ++ hs') name = (headerGet hs name).or (headerGet hs' name) := by
  unfold headerGet
  rw [List.find?_append]
  cases hs.find? fun h => ignoreCaseEqual h.name name <;> rfl

theorem hasField_iff_headerGet (r : OutgoingRequest) (name : String) :
    HasField r name ↔ headerGet r.headers (ascii name) ≠ none := by
  simp [headerGet, HasField, Named]

/-- The host that is sent is the request's own, or that of its URL. -/
theorem h1Host_eq (r : OutgoingRequest) :
    h1Host r = some ((headerGet r.headers (ascii "host")).getD r.defaultHost) := by
  unfold h1Host h1Headers
  rw [headerGet_append, headerGet_append]
  cases hget : headerGet r.headers (ascii "host") with
  | some value => simp
  | none =>
    have hhost : ¬HasField r "host" := by rw [hasField_iff_headerGet, hget]; simp
    rw [if_neg hhost]
    rfl

/-! ## The HTTP/2 submission -/

/-- Fields that belong to an HTTP/1 connection. -/
def connectionFields : List String :=
  ["connection", "keep-alive", "proxy-connection", "transfer-encoding", "upgrade"]

def lowerName (h : HttpHeader) : HttpHeader := ⟨toLowerAsciiStr h.name, h.value⟩

/-- The submission carries the request that `serialize_to_h1` writes. -/
def SameRequest (r : OutgoingRequest) (submission : H2Submission) : Prop :=
  (∃ scheme authority, h1Host r = some authority ∧
    submission.fields =
      [⟨ascii ":method", r.method⟩, ⟨ascii ":scheme", scheme⟩, ⟨ascii ":path", r.requestTarget⟩,
        ⟨ascii ":authority", authority⟩] ++
      (r.headers.filter fun h => ∀ name ∈ "host" :: connectionFields, ¬Named name h).map
        lowerName) ∧
    submission.data.getD [] = r.bodyBytes

/-- What HTTP/2 can carry. -/
structure Carried (r : OutgoingRequest) : Prop where
  query : r.url.query = []
  host : HasField r "host" ∨ r.url.portOrDefault ∈ [(0 : Int), 80, 443]
  proxyConnection : ¬HasField r "proxy-connection"
  transferEncoding : ¬HasField r "transfer-encoding"
  body : r.bodyBytes = []

private theorem path_eq_iff {r : OutgoingRequest} (hmethod : r.method ≠ ascii "CONNECT") :
    (if r.url.path = [] then ascii "/" else r.url.path) = r.requestTarget ↔ r.url.query = [] := by
  simp only [requestTarget, isConnect, hmethod, decide_false, Bool.false_eq_true, if_false,
    List.self_eq_append_right]
  by_cases hquery : r.url.query = []
  · simp [hquery]
  · simp [hquery, ascii]

private theorem authority_eq_iff {r : OutgoingRequest} (hmethod : r.method ≠ ascii "CONNECT") :
    (headerGet r.headers (ascii "host")).getD r.url.host =
        (headerGet r.headers (ascii "host")).getD r.defaultHost ↔
      HasField r "host" ∨ r.url.portOrDefault ∈ [(0 : Int), 80, 443] := by
  have hhost := hasField_iff_headerGet r "host"
  cases hget : headerGet r.headers (ascii "host") with
  | some value => simp [hhost, hget]
  | none =>
    have hhost : ¬HasField r "host" := by simp [hhost, hget]
    simp only [Option.getD_none, defaultHost, isConnect, hmethod, decide_false, Bool.false_eq_true,
      if_false, hhost, false_or]
    split
    case isTrue hport => simp_all [ascii]
    case isFalse hport => simp_all; tauto

/-- Filters of which one lets less through. -/
private theorem map_filter_eq_iff {α β : Type} (f : α → β) {p q : α → Bool} (l : List α)
    (himp : ∀ x ∈ l, q x = true → p x = true) :
    (l.filter p).map f = (l.filter q).map f ↔ ∀ x ∈ l, p x = true → q x = true := by
  have hfilter : (l.filter p).filter q = l.filter q := by
    rw [List.filter_filter]
    refine List.filter_congr fun x hx => ?_
    cases hq : q x <;> simp_all
  constructor
  · intro heq x hx hp
    have hlength : ((l.filter p).filter q).length = (l.filter p).length := by
      rw [hfilter]
      simpa using (congrArg List.length heq).symm
    have hself := List.filter_sublist.eq_of_length hlength
    exact List.filter_eq_self.mp hself x (List.mem_filter.mpr ⟨hx, hp⟩)
  · intro hall
    have hself : (l.filter p).filter q = l.filter p := List.filter_eq_self.mpr fun x hx =>
      hall x (List.mem_filter.mp hx).1 (List.mem_filter.mp hx).2
    rw [← hself, hfilter]

/-- A field has one name. -/
theorem Named.unique {name name' : String} {h : HttpHeader} (hname : Named name h)
    (hname' : Named name' h) : toLowerAsciiStr (ascii name) = toLowerAsciiStr (ascii name') := by
  simp only [Named, ignoreCaseEqual, decide_eq_true_eq] at hname hname'
  exact hname.symm.trans hname'

/-- The fields that `Http2Session::request` leaves out. -/
def droppedFields : List String := ["host", "connection", "keep-alive", "upgrade"]

private theorem kept_iff (h : HttpHeader) :
    (!(ignoreCaseEqual h.name (ascii "host") || ignoreCaseEqual h.name (ascii "connection") ||
        ignoreCaseEqual h.name (ascii "keep-alive") ||
        ignoreCaseEqual h.name (ascii "upgrade"))) = true ↔ ∀ name ∈ droppedFields,
        ¬Named name h := by
  simp [droppedFields, Named, and_assoc]

/-- A field with another name is kept. -/
private theorem kept_of_named {name : String} {h : HttpHeader} (hname : Named name h)
    (hother : ∀ name' ∈ droppedFields,
      toLowerAsciiStr (ascii name) ≠ toLowerAsciiStr (ascii name')) :
    ∀ name' ∈ droppedFields, ¬Named name' h :=
  fun name' hmem hname' => hother name' hmem (hname.unique hname')

/-- The fields that are sent are the right ones if none of the two that are kept is set. -/
private theorem fields_eq_iff (r : OutgoingRequest) :
    (r.headers.filter fun h =>
        !(ignoreCaseEqual h.name (ascii "host") || ignoreCaseEqual h.name (ascii "connection") ||
          ignoreCaseEqual h.name (ascii "keep-alive") ||
          ignoreCaseEqual h.name (ascii "upgrade"))).map lowerName =
        (r.headers.filter fun h => ∀ name ∈ "host" :: connectionFields, ¬Named name h).map
          lowerName ↔
      ¬HasField r "proxy-connection" ∧ ¬HasField r "transfer-encoding" := by
  have hsub : ∀ name ∈ droppedFields, name ∈ "host" :: connectionFields := by decide
  -- two of the fields to be dropped are not
  have hrest : ∀ name ∈ "host" :: connectionFields,
      name ∈ droppedFields ∨ name = "proxy-connection" ∨ name = "transfer-encoding" := by decide
  rw [map_filter_eq_iff]
  · simp only [kept_iff, decide_eq_true_eq]
    constructor
    · intro hall
      constructor
      · rintro ⟨h, hmem, hname⟩
        exact hall h hmem (kept_of_named hname (by decide)) _ (by decide) hname
      · rintro ⟨h, hmem, hname⟩
        exact hall h hmem (kept_of_named hname (by decide)) _ (by decide) hname
    · rintro ⟨hproxy, htransfer⟩ h hmem hkept name hin hname
      rcases hrest name hin with hdropped | rfl | rfl
      · exact hkept name hdropped hname
      · exact hproxy ⟨h, hmem, hname⟩
      · exact htransfer ⟨h, hmem, hname⟩
  · simp only [kept_iff, decide_eq_true_eq]
    exact fun h _ hall name hin => hall name (hsub name hin)

/-- A request other than CONNECT is submitted as `serialize_to_h1` writes it if and only if it has
    no query, no port that `Host` would have to carry, no `Proxy-Connection` and `Transfer-Encoding`
    fields, and no body. -/
theorem submitRequest_same_iff (r : OutgoingRequest) (hmethod : r.method ≠ ascii "CONNECT")
    (scheme : List UInt8) : SameRequest r (submitRequest scheme r) ↔ Carried r := by
  constructor
  · rintro ⟨⟨scheme', authority, hhost, hfields⟩, hdata⟩
    rw [h1Host_eq] at hhost
    obtain rfl := Option.some.inj hhost
    simp only [submitRequest, List.cons_append, List.nil_append, List.cons.injEq,
      HttpHeader.mk.injEq, true_and] at hfields
    obtain ⟨-, hpath, hauthority, hfields⟩ := hfields
    obtain ⟨hproxy, htransfer⟩ := (fields_eq_iff r).mp hfields
    exact ⟨(path_eq_iff hmethod).mp hpath, (authority_eq_iff hmethod).mp hauthority, hproxy,
      htransfer, hdata.symm⟩
  · intro h
    refine ⟨⟨scheme, _, h1Host_eq r, ?_⟩, h.body.symm⟩
    rw [← (path_eq_iff hmethod).mpr h.query, ← (authority_eq_iff hmethod).mpr h.host,
      ← (fields_eq_iff r).mpr ⟨h.proxyConnection, h.transferEncoding⟩]
    rfl

/-- A request without a query and with a field that belongs to the connection. -/
def plainGet : OutgoingRequest where
  url := { scheme := ascii "https", host := ascii "a", path := ascii "/b" }
  headers := [⟨ascii "Connection", ascii "close"⟩, ⟨ascii "Accept", ascii "text/html"⟩]

theorem submitRequest_same_iff_plainGet :
    plainGet.method ≠ ascii "CONNECT" ∧ Url.parse (ascii "https://a/b") = .ok plainGet.url ∧
      (SameRequest plainGet (submitRequest (ascii "https") plainGet) ↔ Carried plainGet) ∧
      Carried plainGet :=
  ⟨by decide, by decide +kernel, submitRequest_same_iff plainGet (by decide) _,
    ⟨rfl, by decide, by decide, by decide, rfl⟩⟩

/-- The request for `https://a/b?c`. -/
def queryGet : OutgoingRequest where
  url := { scheme := ascii "https", host := ascii "a", path := ascii "/b", query := ascii "c" }

/-- The HTTP/1 request for `https://a/b?c` asks for `/b?c`, and the HTTP/2 request for `/b`. -/
theorem query_lost :
    Url.parse (ascii "https://a/b?c") = .ok queryGet.url ∧
      queryGet.requestTarget = ascii "/b?c" ∧
      ⟨ascii ":path", ascii "/b"⟩ ∈ (submitRequest (ascii "https") queryGet).fields ∧
      ¬SameRequest queryGet (submitRequest (ascii "https") queryGet) := by
  refine ⟨by decide +kernel, by decide, by decide, ?_⟩
  rintro ⟨⟨scheme, authority, -, hfields⟩, -⟩
  simp only [submitRequest, List.cons_append, List.cons.injEq, HttpHeader.mk.injEq] at hfields
  exact absurd hfields.2.2.1.2 (by decide)

end Ppnt.Spec
