import Ppnt.Native.Http1
import Ppnt.Native.HttpClient

/-!
# The client with what its HTTP/1 sessions read

`HttpClient` leaves open what is read on a connection.  Here each of its HTTP/1 sessions has the
members of `Http1Session` (`ppnt-http/src/http1.ixx`), and llhttp is run on the bytes that the loops
of `request` and `body_full` read.  One read is one step, so another coroutine may go on between two
reads.
-/

namespace Ppnt.Native

/-- An HTTP/1 session: the request that was sent on it last, what was read since then, and whether
    the connection has ended. -/
structure Wire (P : Llhttp) where
  request : RequestId
  session : Http1Session P
  received : List UInt8 := []
  ended : Bool := false

/-- The client with its HTTP/1 sessions, from the first request on each of them. -/
structure WiredClient (P : Llhttp) where
  client : HttpClient
  wires : SessionId → Option (Wire P)

/-- A step of the client, or the return of `connection_.read` in `request` or in `body_full`. -/
inductive WireLabel where
  | client (l : ClientLabel)
  | headRead (q : RequestId) (bytes : List UInt8)
  | bodyRead (c : CallId) (bytes : List UInt8)

namespace WiredClient

variable {P : Llhttp}

def isH1At (σ : WiredClient P) (s : SessionId) : Bool :=
  ((σ.client.sessions.get? s).map fun session => isH1 session.httpVersion) = some true

def setWire (σ : WiredClient P) (s : SessionId) (w : Option (Wire P)) : WiredClient P :=
  { σ with wires := Function.update σ.wires s w }

/-- `reset_state`, with which `Http1Session::request` begins. -/
def resetState (σ : WiredClient P) (q : RequestId) : WiredClient P :=
  match σ.client.requests.get? q with
  | some (.exchanging _ s) =>
    if σ.isH1At s then
      σ.setWire s (some
        { request := q
          session := .resetState P clientStart
          ended := (σ.wires s).any Wire.ended })
    else σ
  | _ => σ

/-- `return std::move(response_)`. -/
def takeHead (σ : WiredClient P) (q : RequestId) : WiredClient P :=
  match σ.client.requests.get? q with
  | some (.exchanging _ s) =>
    σ.setWire s ((σ.wires s).map fun w => { w with session := { w.session with head := ⟨{}, []⟩ } })
  | _ => σ

/-- `return std::move(body_buffer_)`, unless there was an error. -/
def takeBody (σ : WiredClient P) (c : CallId) (outcome : BodyOutcome) : WiredClient P :=
  match σ.client.calls c with
  | some (.running _ s) =>
    if outcome = .failed then σ
    else σ.setWire s
      ((σ.wires s).map fun w => { w with session := { w.session with bodyBuffer := [] } })
  | _ => σ

/-- The loop of `request` may end. -/
def headEnds (σ : WiredClient P) (q : RequestId) : Bool :=
  match σ.client.requests.get? q with
  | some (.exchanging _ s) =>
    !σ.isH1At s || (σ.wires s).any fun w => w.session.headersComplete || w.ended
  | _ => true

/-- The loop of `body_full` may end in this way. -/
def bodyEnds (σ : WiredClient P) (c : CallId) (outcome : BodyOutcome) : Bool :=
  match σ.client.calls c with
  | some (.running _ s) =>
    !σ.isH1At s ||
      match outcome with
      | .complete => (σ.wires s).any fun w => w.session.messageComplete
      | .eof => (σ.wires s).any Wire.ended
      | .failed => true
  | _ => true

/-- A step of the client and what it does to its HTTP/1 sessions. -/
def stepClient (σ : WiredClient P) (l : ClientLabel) : Option (WiredClient P) :=
  match l with
  | .request q _ _ _ _ | .established q _ =>
    (σ.client.step l).map fun client => { σ with client }.resetState q
  | .responded q _ =>
    if σ.headEnds q then (σ.client.step l).map fun client => { σ.takeHead q with client } else none
  | .bodyDone c outcome _ =>
    if σ.bodyEnds c outcome then
      (σ.client.step l).map fun client => { σ.takeBody c outcome with client }
    else none
  | _ => (σ.client.step l).map fun client => { σ with client }

/-- One read on a session that has not been destroyed, and the `llhttp_execute` behind it.  No bytes
    are the end of the connection. -/
def read (σ : WiredClient P) (s : SessionId) (bytes : List UInt8) :
    Option (WiredClient P × LlhttpErrno) :=
  match σ.wires s with
  | none => none
  | some w =>
    if !σ.isH1At s then none
    else if bytes = [] then some (σ.setWire s (some { w with ended := true }), .ok)
    else if w.ended then none
    else
      match w.session.execute clientStart bytes with
      | (session, errno) =>
        some (σ.setWire s (some { w with session, received := w.received ++ bytes }), errno)

def step (σ : WiredClient P) : WireLabel → Option (WiredClient P)
  | .client l => σ.stepClient l
  | .headRead q bytes =>
    match σ.client.requests.get? q with
    | some (.exchanging _ s) =>
      match σ.read s bytes with
      | some (σ', .ok) => some σ'
      -- `co_return make_err_result(std::errc::bad_message, "http1 request")`
      | some (σ', .error _) => σ'.stepClient (.requestFailed q)
      | none => none
    | _ => none
  | .bodyRead c bytes =>
    match σ.client.calls c with
    | some (.running _ s) =>
      match σ.read s bytes with
      | some (σ', .ok) => some σ'
      -- `co_return make_err_result(std::errc::bad_message, "http1 body")`
      | some (σ', .error _) => σ'.stepClient (.bodyDone c .failed [])
      | none => none
    | _ => none

def initial (P : Llhttp) : WiredClient P := ⟨.initial, fun _ => none⟩

end WiredClient

end Ppnt.Native
