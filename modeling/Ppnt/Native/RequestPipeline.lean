import Ppnt.Native.HttpWrite

/-!
# Requests on their way to an HTTP/1 session

Model of `HttpTimeout` (`ppnt-http/src/http_types/connection.ixx`), of the special members of
`HttpRequest` (`ppnt-http/src/http_types/request.ixx`), and of how a request gets from
`HttpClient::request` (`ppnt-http/src/client.cpp`) through `SessionWrapper::request`
(`ppnt-http/src/session.ixx`) to the operations of `Http1Session::request`
(`ppnt-http/src/http1.ixx`).

Requests are passed by value.  An argument `std::move(req)` is one construction, and the copy of a
parameter in a coroutine frame is another one, which a compiler may leave out.
-/

namespace Ppnt.Native

/-- `HttpTimeout`, in milliseconds. -/
structure HttpTimeout where
  connectionTimeout : UInt32 := 5000
  readTimeout : UInt32 := 5000
  writeTimeout : UInt32 := 5000
deriving DecidableEq, Repr

/-- `HttpRequest` with all its members. -/
structure TimedRequest extends OutgoingRequest where
  timeout : HttpTimeout := {}
deriving DecidableEq, Repr

namespace TimedRequest

/-- `HttpRequest(HttpRequest &&other)`.  There is no initialiser for `timeout`. -/
def moveConstruct (other : TimedRequest) : TimedRequest :=
  { method := other.method, url := other.url, headers := other.headers, body := other.body }

/-- `operator=(HttpRequest &&other)` of another object.  It does not assign `timeout`. -/
def moveAssign (self other : TimedRequest) : TimedRequest :=
  { self with
    method := other.method
    url := other.url
    headers := other.headers
    body := other.body }

end TimedRequest

/-- A move of a request into a new object or into one that exists. -/
inductive RequestMove where
  | construct
  | assign (self : TimedRequest)
deriving DecidableEq, Repr

def RequestMove.apply (r : TimedRequest) : RequestMove → TimedRequest
  | .construct => r.moveConstruct
  | .assign self => self.moveAssign r

/-- The request behind some moves. -/
def TimedRequest.moved (r : TimedRequest) (moves : List RequestMove) : TimedRequest :=
  moves.foldl RequestMove.apply r

/-- The copy of the parameter in a coroutine frame. -/
def frameCopy (copied : Bool) : List RequestMove := if copied then [.construct] else []

/-- The moves between the parameter of `HttpClient::request` and the request that
    `Http1Session::request` uses: the frames of the three coroutines, and the arguments of two
    calls. -/
def clientMoves (copied : Bool × Bool × Bool) : List RequestMove :=
  frameCopy copied.1 ++ [.construct] ++ frameCopy copied.2.1 ++ [.construct] ++ frameCopy copied.2.2

/-! ## The operations of an exchange -/

/-- An operation on a connection. -/
inductive ConnectionOp where
  | write (payload : List UInt8) (timeoutMs : UInt32)
  | read (timeoutMs : UInt32)
deriving DecidableEq, Repr

/-- `H1Session.readUntil`, with the reads that it makes. -/
def H1Session.tracedReadUntil {P : Llhttp} {σ : Type} (timeoutMs : UInt32) (L : StartLine σ)
    (m : Cb) (s : H1Session P σ) (reads : List Read) :
    (H1Session.LoopExit × H1Session P σ × List Read) × List ConnectionOp :=
  if s.flag m then ((.done, s, reads), [])
  else
    match reads with
    | [] => ((.eof, s, []), [.read timeoutMs])
    | .error e :: reads => ((.readError e, s, reads), [.read timeoutMs])
    | .ok bytes :: reads =>
      if bytes = [] then ((.eof, s, reads), [.read timeoutMs])
      else
        match s.execute L bytes with
        | (s, .ok) => (tracedReadUntil timeoutMs L m s reads).map id (.read timeoutMs :: ·)
        | (s, .error name) => ((.parseError name, s, reads), [.read timeoutMs])

/-- The operations of `Http1Session::request`, given the results of the write and of the reads. -/
def Http1Session.requestOps (P : Llhttp) (request : TimedRequest) (written : Except Error Unit)
    (reads : List Read) : List ConnectionOp :=
  .write request.serializeToH1 request.timeout.writeTimeout ::
    match written with
    | .error _ => []
    | .ok () => ((H1Session.resetState P clientStart).tracedReadUntil request.timeout.readTimeout
        clientStart .onHeadersComplete reads).2

end Ppnt.Native
