import Ppnt.Native.Http1
import Ppnt.Native.Url

/-!
# Requests of a client

Model of `HttpRequest::serialize_to_h1` (`ppnt-http/src/http_types/request.ixx`) and of the lookup
in an `HttpHeaderList` (`ppnt-http/src/http_types/header.ixx`).
-/

namespace Ppnt.Native

/-- `HttpRequest` as a client fills it in.  The timeouts are left out. -/
structure OutgoingRequest where
  url : Url
  method : List UInt8 := ascii "GET"
  headers : List HttpHeader := []
  body : Option (List UInt8) := none
deriving DecidableEq, Repr

/-- `HttpHeaderList::get`. -/
def headerGet (headers : List HttpHeader) (name : List UInt8) : Option (List UInt8) :=
  (headers.find? fun h => ignoreCaseEqual h.name name).map HttpHeader.value

/-- `HttpHeaderList::contains`. -/
def headerContains (headers : List HttpHeader) (name : List UInt8) : Bool :=
  (headerGet headers name).isSome

namespace OutgoingRequest

def isConnect (r : OutgoingRequest) : Bool := r.method = ascii "CONNECT"

/-- `request_target`. -/
def requestTarget (r : OutgoingRequest) : List UInt8 :=
  if r.isConnect then
    let port := r.url.portOrDefault
    let port :=
      if port = 0 then
        if r.url.scheme = ascii "https" || r.url.scheme = ascii "wss" then 443 else 80
      else port
    r.url.host ++ ascii ":" ++ formatInt port
  else
    (if r.url.path = [] then ascii "/" else r.url.path) ++
      if r.url.query = [] then [] else ascii "?" ++ r.url.query

/-- `writer.write_string(std::format("\x7b\x7d: \x7b\x7d\r\n", name, value))`. -/
def writeLine (h : HttpHeader) : List UInt8 := h.name ++ ascii ": " ++ h.value ++ ascii "\r\n"

/-- The `Host` that is written if the headers have none. -/
def defaultHost (r : OutgoingRequest) : List UInt8 :=
  if r.isConnect then r.requestTarget
  else
    let port := r.url.portOrDefault
    if port ≠ 0 && port ≠ 80 && port ≠ 443 then r.url.host ++ ascii ":" ++ formatInt port
    else r.url.host

/-- `body`, where an empty one and none are the same. -/
def bodyBytes (r : OutgoingRequest) : List UInt8 := r.body.getD []

def serializeToH1 (r : OutgoingRequest) : List UInt8 :=
  let hasContentLength := r.headers.any fun h => ignoreCaseEqual h.name (ascii "content-length")
  let hasHost := r.headers.any fun h => ignoreCaseEqual h.name (ascii "host")
  r.method ++ ascii " " ++ r.requestTarget ++ ascii " HTTP/1.1\r\n" ++
    r.headers.flatMap writeLine ++
    (if hasHost then [] else writeLine ⟨ascii "Host", r.defaultHost⟩) ++
    (if r.bodyBytes ≠ [] && !hasContentLength then
      writeLine ⟨ascii "Content-Length", decimal r.bodyBytes.length⟩ else []) ++
    ascii "\r\n" ++ r.bodyBytes

end OutgoingRequest

end Ppnt.Native
