import Ppnt.Native.Err
import Ppnt.Native.Llhttp

/-!
# HTTP/1 sessions

Model of `Http1ServerSession` (`ppnt-http/src/server.ixx`), of `Http1Session`
(`ppnt-http/src/http1.ixx`) and of `make_proxy_stream` (`ppnt-http/src/session.cpp`).  The two
classes have the same members and the same callbacks but for the start line: the server installs
`on_url` and the client `on_status`.  The shared part is `H1Session`, over what the start line
stores.

A connection is the list of results its successive `read` calls give.  Zero bytes mean end of
stream, and so does the end of the list.
-/

namespace Ppnt.Native

/-- `HttpHeader`. -/
structure HttpHeader where
  name : List UInt8
  value : List UInt8
deriving DecidableEq, Repr

/-- `HttpStatus`. -/
structure HttpStatus where
  code : Nat := 0
  message : List UInt8 := []
deriving DecidableEq, Repr

/-- The members of `HttpRequest` that a server session fills in.  The other members keep their
    defaults. -/
structure HttpRequest where
  method : List UInt8
  path : List UInt8
  headers : List HttpHeader
deriving DecidableEq, Repr

/-- `HeadParts` without the constant version. -/
structure HeadParts where
  status : HttpStatus
  headers : List HttpHeader
deriving DecidableEq, Repr

/-- What a session installs for the start line, and what `request_` or `response_` holds before
    any callback.  `none` is a null pointer in `llhttp_settings_t`. -/
structure StartLine (σ : Type) where
  initial : σ
  onUrl : Option (List UInt8 → σ)
  onStatus : Option (Nat → List UInt8 → σ)

/-- The part of `request_` or `response_` that callbacks write. -/
structure MessageHead (σ : Type) where
  start : σ
  headers : List HttpHeader := []
deriving DecidableEq, Repr

/-- The members both session classes have, without the connection. -/
structure H1Session (P : Llhttp) (σ : Type) where
  parser : P.State
  head : MessageHead σ
  bodyBuffer : List UInt8 := []
  tempHeaderName : List UInt8 := []
  tempHeaderValue : List UInt8 := []
  lastWasValue : Bool := false
  headersComplete : Bool := false
  messageComplete : Bool := false

/-- The result of one `connection_.read`. -/
abbrev Read := Except Error (List UInt8)

namespace H1Session

variable {P : Llhttp} {σ : Type}

/-- `reset_state`: every member is assigned, so nothing of the old state is left. -/
def resetState (P : Llhttp) (L : StartLine σ) : H1Session P σ where
  parser := P.init
  head := { start := L.initial }

/-! ## Callbacks -/

def commitHeader (s : H1Session P σ) : H1Session P σ :=
  if s.tempHeaderName ≠ [] then
    { s with
      head := { s.head with
        headers := s.head.headers ++ [⟨s.tempHeaderName, s.tempHeaderValue⟩] }
      tempHeaderName := []
      tempHeaderValue := [] }
  else s

/-- `on_url` and `on_status`: store the span, whatever was stored before. -/
def onStart (s : H1Session P σ) (x : Option σ) : H1Session P σ :=
  match x with
  | some x => { s with head := { s.head with start := x } }
  | none => s

def onHeaderField (s : H1Session P σ) (data : List UInt8) : H1Session P σ :=
  let s := if s.lastWasValue then { s.commitHeader with lastWasValue := false } else s
  { s with tempHeaderName := s.tempHeaderName ++ data }

def onHeaderValue (s : H1Session P σ) (data : List UInt8) : H1Session P σ :=
  { s with lastWasValue := true, tempHeaderValue := s.tempHeaderValue ++ data }

def onHeadersComplete (s : H1Session P σ) : H1Session P σ :=
  let s := if s.lastWasValue then s.commitHeader else s
  { s with headersComplete := true }

def onBody (s : H1Session P σ) (data : List UInt8) : H1Session P σ :=
  { s with bodyBuffer := s.bodyBuffer ++ data }

def onMessageComplete (s : H1Session P σ) : H1Session P σ :=
  { s with messageComplete := true }

/-- `set_callback_fn`: which handler a callback reaches. -/
def callback (L : StartLine σ) (s : H1Session P σ) : Callback → H1Session P σ
  | .span .onUrl data => s.onStart (L.onUrl.map fun f => f data)
  | .span (.onStatus code) data => s.onStart (L.onStatus.map fun f => f code data)
  | .span .onHeaderField data => s.onHeaderField data
  | .span .onHeaderValue data => s.onHeaderValue data
  | .span .onBody data => s.onBody data
  | .mark .onHeadersComplete => s.onHeadersComplete
  | .mark .onMessageComplete => s.onMessageComplete

/-! ## The read loop -/

/-- `llhttp_execute(&parser_, buf.data(), n)`. -/
def execute (L : StartLine σ) (s : H1Session P σ) (bytes : List UInt8) :
    H1Session P σ × LlhttpErrno :=
  let r := P.execute s.parser bytes
  ({ r.2.1.foldl (callback L) s with parser := r.1 }, r.2.2)

/-- How a read loop ends. -/
inductive LoopExit where
  | done
  | eof
  | readError (e : Error)
  | parseError (name : String)
deriving DecidableEq, Repr

/-- The flag a read loop waits for. -/
def flag (m : Cb) (s : H1Session P σ) : Bool :=
  match m with
  | .onHeadersComplete => s.headersComplete
  | .onMessageComplete => s.messageComplete

/-- `while (!flag) { read; execute }`, with what is left of the connection. -/
def readUntil (L : StartLine σ) (m : Cb) (s : H1Session P σ) (reads : List Read) :
    LoopExit × H1Session P σ × List Read :=
  if s.flag m then (.done, s, reads)
  else
    match reads with
    | [] => (.eof, s, [])
    | .error e :: reads => (.readError e, s, reads)
    | .ok bytes :: reads =>
      if bytes = [] then (.eof, s, reads)
      else
        match s.execute L bytes with
        | (s, .ok) => readUntil L m s reads
        | (s, .error name) => (.parseError name, s, reads)

end H1Session

/-! ## `Http1ServerSession` -/

/-- `HttpRequest{}` has the path `/`; the server installs `on_url`. -/
def serverStart : StartLine (List UInt8) where
  initial := [0x2f]
  onUrl := some fun path => path
  onStatus := none

abbrev Http1ServerSession (P : Llhttp) := H1Session P (List UInt8)

namespace Http1ServerSession

variable {P : Llhttp}

/-- `receive_request`.  The request is moved out of the session. -/
def receiveRequest (_s : Http1ServerSession P) (reads : List Read) :
    Except Error HttpRequest × Http1ServerSession P × List Read :=
  match (H1Session.resetState P serverStart).readUntil serverStart .onHeadersComplete reads with
  | (.done, s, reads) =>
    (.ok ⟨P.methodName s.parser, s.head.start, s.head.headers⟩, { s with head := ⟨[], []⟩ }, reads)
  | (.eof, s, reads) =>
    (makeErrResult .connectionAborted "eof before headers complete", s, reads)
  | (.readError e, s, reads) => (.error e, s, reads)
  | (.parseError name, s, reads) => (makeErrResult .badMessage name, s, reads)

/-- `receive_body`.  End of stream ends the body without an error. -/
def receiveBody (s : Http1ServerSession P) (reads : List Read) :
    Except Error (List UInt8) × Http1ServerSession P × List Read :=
  match s.readUntil serverStart .onMessageComplete reads with
  | (.done, s, reads) => (.ok s.bodyBuffer, { s with bodyBuffer := [] }, reads)
  | (.eof, s, reads) => (.ok s.bodyBuffer, { s with bodyBuffer := [] }, reads)
  | (.readError e, s, reads) => (.error e, s, reads)
  | (.parseError _, s, reads) => (makeErrResult .badMessage "http1 request body", s, reads)

/-- `send_response`, given the result of writing the serialised response: its result, and whether it
    closes the connection. -/
def sendResponse {P : LlhttpParser} (s : Http1ServerSession P.toLlhttp)
    (written : Except Error Unit) : Except Error Unit × Bool :=
  match written with
  | .error e => (.error e, false)
  | .ok () => (.ok (), !(P.fields s.parser).shouldKeepAlive)

/-- `n` times `receive_request` and then `receive_body` on one session. -/
def receivePairs : Nat → Http1ServerSession P → List Read →
    List (Except Error HttpRequest × Except Error (List UInt8))
  | 0, _, _ => []
  | n + 1, s, reads =>
    let (request, s, reads) := receiveRequest s reads
    let (body, s, reads) := receiveBody s reads
    (request, body) :: receivePairs n s reads

end Http1ServerSession

/-! ## `Http1Session` -/

/-- `HttpStatus{}` has code 0 and no message; the client installs `on_status`. -/
def clientStart : StartLine HttpStatus where
  initial := {}
  onUrl := none
  onStatus := some HttpStatus.mk

abbrev Http1Session (P : Llhttp) := H1Session P HttpStatus

namespace Http1Session

variable {P : Llhttp}

/-- `request`, given the result of writing the serialised request.  End of stream ends the loop
    without an error.  The response is moved out of the session. -/
def request (_s : Http1Session P) (written : Except Error Unit) (reads : List Read) :
    Except Error HeadParts × Http1Session P × List Read :=
  let s := H1Session.resetState P clientStart
  match written with
  | .error e => (.error e, s, reads)
  | .ok () =>
    match s.readUntil clientStart .onHeadersComplete reads with
    | (.done, s, reads) => (.ok ⟨s.head.start, s.head.headers⟩, { s with head := ⟨{}, []⟩ }, reads)
    | (.eof, s, reads) => (.ok ⟨s.head.start, s.head.headers⟩, { s with head := ⟨{}, []⟩ }, reads)
    | (.readError e, s, reads) => (.error e, s, reads)
    | (.parseError _, s, reads) => (makeErrResult .badMessage "http1 request", s, reads)

/-- `body_full`.  The body is moved out of the session. -/
def bodyFull (s : Http1Session P) (reads : List Read) :
    Except Error (List UInt8) × Http1Session P × List Read :=
  match s.readUntil clientStart .onMessageComplete reads with
  | (.done, s, reads) => (.ok s.bodyBuffer, { s with bodyBuffer := [] }, reads)
  | (.eof, s, reads) => (.ok s.bodyBuffer, { s with bodyBuffer := [] }, reads)
  | (.readError e, s, reads) => (.error e, s, reads)
  | (.parseError _, s, reads) => (makeErrResult .badMessage "http1 body", s, reads)

/-- `leak_stream`. -/
def leakStream (_s : Http1Session P) (reads : List Read) : List Read := reads

/-- `make_proxy_stream` behind the connection to the proxy. -/
def makeProxyStream (s : Http1Session P) (written : Except Error Unit) (reads : List Read) :
    Except Error (List Read) :=
  match request s written reads with
  | (.error e, _, _) => .error e
  | (.ok head, s, reads) =>
    if head.status.code = 200 then .ok (leakStream s reads)
    else makeErrResult .notConnected ("Proxy connect: " ++ toString head.status.code)

/-- `request`, and then `body_full` on the response it returned. -/
def requestThenBody (s : Http1Session P) (written : Except Error Unit) (reads : List Read) :
    Except Error (HeadParts × List UInt8) × List Read :=
  match request s written reads with
  | (.error e, _, reads) => (.error e, reads)
  | (.ok head, s, reads) =>
    match bodyFull s reads with
    | (.error e, _, reads) => (.error e, reads)
    | (.ok body, _, reads) => (.ok (head, body), reads)

end Http1Session

end Ppnt.Native
