import Ppnt.Native.HttpClient

/-!
# The contents of HTTP/1 sessions in an HTTP client

`HttpClient` leaves open what is read on a connection.  Here the client runs together with the
members of its HTTP/1 sessions that the reads fill in: `response_`, `body_buffer_`,
`headers_complete_` and `message_complete_` of `Http1Session` (`ppnt-http/src/http1.ixx`).

One read of the loops in `request` and `body_full` is one step.  What llhttp makes of the bytes is
part of the label, and each callback comes with the HTTP message that its bytes belong to, so that
it can be seen where the bytes of a body come from.
-/

namespace Ppnt.Native

/-- A response message that a peer sends. -/
abbrev MessageId := Nat

/-- What the callbacks have stored in an HTTP/1 session: the messages that the status line and the
    header fields in `response_` come from, and the bytes of `body_buffer_`, each with its
    message. -/
structure H1Contents where
  head : List MessageId := []
  bodyBuffer : List (MessageId × UInt8) := []
  headersComplete : Bool := false
  messageComplete : Bool := false
deriving DecidableEq, Repr

namespace H1Contents

def callback (contents : H1Contents) (call : MessageId × Callback) : H1Contents :=
  match call.2 with
  | .span .onBody data =>
    { contents with bodyBuffer := contents.bodyBuffer ++ data.map fun byte => (call.1, byte) }
  | .span _ _ => { contents with head := contents.head ++ [call.1] }
  | .mark .onHeadersComplete => { contents with headersComplete := true }
  | .mark .onMessageComplete => { contents with messageComplete := true }

/-- `llhttp_execute`. -/
def execute (contents : H1Contents) (calls : List (MessageId × Callback)) : H1Contents :=
  calls.foldl callback contents

end H1Contents

/-- The client with the contents of its HTTP/1 sessions.  `heads` are the messages that the head of
    the response to a request was made from, `callers` the request whose response a `body_full` was
    called on, and `results` what it returned. -/
structure HttpExchange where
  client : HttpClient
  contents : SessionId → H1Contents
  heads : RequestId → List MessageId
  callers : CallId → Option RequestId
  results : CallId → Option (List (MessageId × UInt8))

inductive ExchangeLabel where
  | client (l : ClientLabel)
  | headRead (q : RequestId) (calls : List (MessageId × Callback))
  | bodyRead (c : CallId) (calls : List (MessageId × Callback))

namespace HttpExchange

def isH1At (σ : HttpExchange) (s : SessionId) : Bool :=
  ((σ.client.sessions.get? s).map fun session => isH1 session.httpVersion) = some true

def setContents (σ : HttpExchange) (s : SessionId) (contents : H1Contents) : HttpExchange :=
  { σ with contents := Function.update σ.contents s contents }

/-- `reset_state`, with which `Http1Session::request` begins. -/
def resetState (σ : HttpExchange) (q : RequestId) : HttpExchange :=
  match σ.client.requests.get? q with
  | some (.exchanging _ s) => if σ.isH1At s then σ.setContents s {} else σ
  | _ => σ

/-- `return std::move(response_)`. -/
def takeHead (σ : HttpExchange) (q : RequestId) : HttpExchange :=
  match σ.client.requests.get? q with
  | some (.exchanging _ s) =>
    if σ.isH1At s then
      { σ.setContents s { σ.contents s with head := [] } with
        heads := Function.update σ.heads q (σ.contents s).head }
    else σ
  | _ => σ

/-- `return std::move(body_buffer_)`, unless there was an error. -/
def takeBody (σ : HttpExchange) (c : CallId) (outcome : BodyOutcome) : HttpExchange :=
  match σ.client.calls c with
  | some (.running _ s) =>
    if σ.isH1At s && outcome ≠ .failed then
      { σ.setContents s { σ.contents s with bodyBuffer := [] } with
        results := Function.update σ.results c (some (σ.contents s).bodyBuffer) }
    else σ
  | _ => σ

/-- The loop of `body_full` ends as it does. -/
def loopEnds (σ : HttpExchange) (c : CallId) (outcome : BodyOutcome) : Bool :=
  match σ.client.calls c with
  | some (.running _ s) =>
    !σ.isH1At s || outcome = .failed || (σ.contents s).messageComplete =
      (outcome = .complete : Bool)
  | _ => true

/-- A step of the client and what it does to the contents of the sessions. -/
def stepClient (σ : HttpExchange) (l : ClientLabel) : Option HttpExchange :=
  match l with
  | .request q _ _ _ _ | .established q _ =>
    (σ.client.step l).map fun client => { σ with client := client }.resetState q
  | .responded q _ => (σ.client.step l).map fun client => { σ.takeHead q with client := client }
  | .bodyFull c o =>
    (σ.client.step l).map fun client => { σ with
      client := client
      callers := Function.update σ.callers c ((σ.client.responses.get? o).bind (·.head)) }
  | .bodyDone c outcome _ =>
    if σ.loopEnds c outcome then
      (σ.client.step l).map fun client => { σ.takeBody c outcome with client := client }
    else none
  | _ => (σ.client.step l).map fun client => { σ with client := client }

def step (σ : HttpExchange) : ExchangeLabel → Option HttpExchange
  | .client l => σ.stepClient l
  | .headRead q calls =>
    match σ.client.requests.get? q with
    | some (.exchanging _ s) =>
      if σ.isH1At s && !(σ.contents s).headersComplete then
        some (σ.setContents s ((σ.contents s).execute calls))
      else none
    | _ => none
  | .bodyRead c calls =>
    match σ.client.calls c with
    | some (.running _ s) =>
      if σ.isH1At s && !(σ.contents s).messageComplete then
        some (σ.setContents s ((σ.contents s).execute calls))
      else none
    | _ => none

def initial : HttpExchange where
  client := .initial
  contents _ := {}
  heads _ := []
  callers _ := none
  results _ := none

end HttpExchange

end Ppnt.Native
