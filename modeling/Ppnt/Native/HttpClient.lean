import Ppnt.ForStd.OrderedMap
import Ppnt.ForStd.Store
import Ppnt.Native.Http2
import Ppnt.Native.SessionKey

/-!
# HTTP client and session pool

Model of `SessionPool` (`ppnt-http/src/session.cpp`), `HttpClient::request`
(`ppnt-http/src/client.cpp`) and `HttpResponse` (`ppnt-http/src/http_types/response.ixx`) as a
transition system.  Everything runs on one event loop, so a step is what happens between two
suspension points of a coroutine, or a move or the destruction of a response by its user.

What the peer, the kernel and the sessions answer is part of the label: which sessions `is_valid`
rejects although their descriptor is open, whether a connection attempt or an exchange succeeds, and
how a body ended.

A session is destroyed when its last `shared_ptr` goes away (`reap`).  `~Http2Session` closes its
connection; `Http1Session`, `TlsStream` and `TcpStream` have no destructor that closes a
descriptor.  Steps with undefined behaviour (a coroutine that goes on with a destroyed object) are
not steps of the model.
-/

namespace Ppnt.Native

inductive Version where
  | http10
  | http11
  | http2
  | http3
deriving DecidableEq, Repr

def isH1 (version : Version) : Bool := version = .http11 || version = .http10

abbrev SessionId := Nat

abbrev SocketId := Nat

abbrev RequestId := Nat

/-- A response object in the memory of a user. -/
abbrev ResponseId := Nat

/-- A call of `close_async`. -/
abbrev CloserId := Nat

/-- A descriptor opened by `TcpStream::connect`. -/
inductive SocketState where
  | unused
  | opened
  | closed
deriving DecidableEq, Repr

/-- `AnySession`: what the pool and the client see of a session. -/
structure AnySession where
  httpVersion : Version
  sessionKey : SessionKey
  socket : SocketId
deriving DecidableEq, Repr

structure HostGroup where
  h2Session : Option SessionId := none
  h1Idle : List SessionId := []
deriving DecidableEq, Repr

/-- A `shared_ptr` of the group points to the session. -/
def HostGroup.Holds (group : HostGroup) (s : SessionId) : Prop :=
  group.h2Session = some s ∨ s ∈ group.h1Idle

instance (group : HostGroup) (s : SessionId) : Decidable (group.Holds s) :=
  inferInstanceAs (Decidable (_ ∨ _))

/-- `HttpResponse<AnySession>`.  `session` is both `session_` and `session_owner_`, which
    `set_session` sets together, `bodyConsumedHook` is the key that the hook has captured, and
    `head` is the request whose response has been moved into `head_`.  The default is a moved-from
    response. -/
structure HttpResponse where
  session : Option SessionId := none
  bodyConsumedHook : Option SessionKey := none
  bodyConsumed : Bool := false
  head : Option RequestId := none
  id : Option StreamId := none
deriving DecidableEq, Repr

/-- Where a coroutine of `HttpClient::request` is: suspended in `TcpStream::connect` on a new
    descriptor, in the CONNECT exchange or the TLS handshake on it, in the `request` of a session,
    or finished.  The first two also hold the reference `group`, which is valid until the next
    `sessions_.clear()`. -/
inductive ExchangePhase where
  | connecting (key : SessionKey) (cleared : Nat) (socket : SocketId)
  | establishing (key : SessionKey) (cleared : Nat) (socket : SocketId)
  | exchanging (key : SessionKey) (session : SessionId)
  | finished
deriving DecidableEq, Repr

/-- The session a request holds. -/
def ExchangePhase.session? : ExchangePhase → Option SessionId
  | .exchanging _ s => some s
  | _ => none

/-- The descriptor a request holds while it has no session. -/
def ExchangePhase.socket? : ExchangePhase → Option SocketId
  | .connecting _ _ d | .establishing _ _ d => some d
  | _ => none

/-- A call of `HttpResponse::body_full`. -/
inductive CallPhase where
  | running (response : ResponseId) (session : SessionId)
  | finished
deriving DecidableEq, Repr

/-- Where a `close_async` is: suspended in the `close_async` of the HTTP/2 session of a group, or
    finished. -/
inductive CloserPhase where
  | closing (key : SessionKey) (cleared : Nat) (session : SessionId)
  | finished
deriving DecidableEq, Repr

/-- How `session_->body_full` ended: with a complete message, with what arrived before the end of
    the connection, or with an error. -/
inductive BodyOutcome where
  | complete
  | eof
  | failed
deriving DecidableEq, Repr

structure HttpClient where
  pool : Std.TreeMap SessionKey HostGroup SessionKey.cmp
  cleared : Nat
  sessions : Store AnySession
  nextSession : SessionId
  sockets : SocketId → SocketState
  requests : Store ExchangePhase
  responses : Store HttpResponse
  nextResponse : ResponseId
  calls : CallId → Option CallPhase
  closers : CloserId → Option CloserPhase

inductive ClientLabel where
  | request (q : RequestId) (key : SessionKey) (dead dead' : List SessionId)
      (socket : Option SocketId)
  | connectFailed (q : RequestId)
  | connected (q : RequestId)
  | establishFailed (q : RequestId)
  | established (q : RequestId) (useH2 : Bool)
  | requestFailed (q : RequestId)
  | responded (q : RequestId) (id : Option StreamId)
  | bodyFull (c : CallId) (o : ResponseId)
  | bodyDone (c : CallId) (outcome : BodyOutcome) (dead : List SessionId)
  | move (o : ResponseId)
  | assign (target source : ResponseId)
  | drop (o : ResponseId)
  | closeAsync (x : CloserId)
  | closeResumed (x : CloserId) (success : Bool)
deriving DecidableEq, Repr

/-- `session_connect` returns a session. -/
def ClientLabel.opensSession : ClientLabel → Bool
  | .established _ _ => true
  | _ => false

namespace HttpClient

/-! ## Sessions -/

/-- `is_valid`: the descriptor is open and the peek on it, or nghttp2, finds nothing wrong. -/
def isValid (σ : HttpClient) (dead : List SessionId) (s : SessionId) : Bool :=
  match σ.sessions.get? s with
  | some session => σ.sockets session.socket = .opened && s ∉ dead
  | none => false

def setSocket (σ : HttpClient) (d : SocketId) (state : SocketState) : HttpClient :=
  { σ with sockets := Function.update σ.sockets d state }

/-- `close` of a session. -/
def close (σ : HttpClient) (s : SessionId) : HttpClient :=
  match σ.sessions.get? s with
  | some session => σ.setSocket session.socket .closed
  | none => σ

/-- Some `shared_ptr` points to the session. -/
def Owned (σ : HttpClient) (s : SessionId) : Prop :=
  (∃ entry ∈ σ.pool.toList, entry.2.Holds s) ∨
    σ.requests.Any (fun phase => phase.session? = some s) ∨
    σ.responses.Any (fun response => response.session = some s)

instance (σ : HttpClient) (s : SessionId) : Decidable (σ.Owned s) :=
  inferInstanceAs (Decidable (_ ∨ _ ∨ _))

/-- A descriptor that the destructor of a session closes. -/
def ClosedByDestructor (σ : HttpClient) (d : SocketId) : Prop :=
  ∃ s ∈ σ.sessions.ids, ∃ session ∈ σ.sessions.get? s,
    ¬σ.Owned s ∧ session.httpVersion = .http2 ∧ session.socket = d

instance (σ : HttpClient) (d : SocketId) : Decidable (σ.ClosedByDestructor d) :=
  inferInstanceAs (Decidable (∃ s ∈ _, ∃ session ∈ _, _ ∧ _ ∧ _))

/-- Destroy the sessions that nothing points to. -/
def reap (σ : HttpClient) : HttpClient :=
  { σ with
    sessions := σ.sessions.filter fun s => σ.Owned s
    sockets := fun d => if σ.ClosedByDestructor d then .closed else σ.sockets d }

/-! ## The pool -/

/-- The group of a key, empty if there is none. -/
def group (σ : HttpClient) (key : SessionKey) : HostGroup := σ.pool.getD key {}

/-- Assign to `sessions_[key]`.  The map keeps the key it has. -/
def setGroup (σ : HttpClient) (key : SessionKey) (group : HostGroup) : HttpClient :=
  { σ with pool := OrderedMap.assign σ.pool {} key group }

/-- The loop of `acquire_session`: the first valid session and what is left behind it. -/
def popValid (valid : SessionId → Bool) : List SessionId → Option SessionId × List SessionId
  | [] => (none, [])
  | s :: rest => if valid s then (some s, rest) else popValid valid rest

/-- `acquire_session` up to `session_connect`.  `is_valid` is asked once per idle session for
    pruning and again for the session that is taken, so there are two sets of dead sessions. -/
def acquireSession (σ : HttpClient) (key : SessionKey) (dead dead' : List SessionId) :
    HttpClient × Option SessionId :=
  let h2Session := (σ.group key).h2Session.filter (σ.isValid dead)
  let h1Idle := (σ.group key).h1Idle.filter (σ.isValid dead)
  match h2Session with
  | some s => (σ.setGroup key ⟨some s, h1Idle⟩, some s)
  | none =>
    match popValid (σ.isValid dead') h1Idle with
    | (found, rest) => (σ.setGroup key ⟨none, rest⟩, found)

def releaseH1Session (σ : HttpClient) (key : SessionKey) (s : SessionId)
    (dead : List SessionId) : HttpClient :=
  if !σ.isValid dead s then σ
  else if ((σ.sessions.get? s).map fun session => isH1 session.httpVersion) = some true then
    if (σ.group key).h1Idle.length < 100 then
      σ.setGroup key { σ.group key with h1Idle := (σ.group key).h1Idle ++ [s] }
    else (σ.setGroup key (σ.group key)).close s
  else σ

/-- The hook that `HttpClient::request` installs. -/
def bodyConsumed (σ : HttpClient) (key : SessionKey) (held : Option SessionId) (success : Bool)
    (dead : List SessionId) : HttpClient :=
  match held with
  | none => σ
  | some s => if success then σ.releaseH1Session key s dead else σ.close s

/-- `close_async` of the idle sessions of a group.  `BoxedStream` has no `shutdown`, so this is
    `close`. -/
def drain (σ : HttpClient) (key : SessionKey) : HttpClient :=
  ((σ.group key).h1Idle.foldl close σ).setGroup key { σ.group key with h1Idle := [] }

/-- The loop of `SessionPool::close_async` over the groups that are left, up to its next suspension:
    the group of an HTTP/2 session that is being closed, or none behind `sessions_.clear()`. -/
def closeGroups (σ : HttpClient) : List SessionKey → HttpClient × Option (SessionKey × SessionId)
  | [] => ({ σ with pool := ∅, cleared := σ.cleared + 1 }, none)
  | key :: keys =>
    match (σ.group key).h2Session with
    | some s => (σ.close s, some (key, s))
    | none => closeGroups (σ.drain key) keys

def setCloser (σ : HttpClient) (x : CloserId) (phase : CloserPhase) : HttpClient :=
  { σ with closers := Function.update σ.closers x (some phase) }

/-- Go on with `close_async`. -/
def closeFrom (σ : HttpClient) (x : CloserId) (keys : List SessionKey) : HttpClient :=
  match σ.closeGroups keys with
  | (σ', some (key, s)) => σ'.setCloser x (.closing key σ.cleared s)
  | (σ', none) => σ'.setCloser x .finished

/-! ## Steps -/

def setRequest (σ : HttpClient) (q : RequestId) (phase : ExchangePhase) : HttpClient :=
  { σ with requests := σ.requests.set q phase }

def setResponse (σ : HttpClient) (o : ResponseId) (response : HttpResponse) : HttpClient :=
  { σ with responses := σ.responses.set o response }

/-- A response in a new object. -/
def newResponse (σ : HttpClient) (response : HttpResponse) : HttpClient :=
  { σ.setResponse σ.nextResponse response with nextResponse := σ.nextResponse + 1 }

def setCall (σ : HttpClient) (c : CallId) (phase : CallPhase) : HttpClient :=
  { σ with calls := Function.update σ.calls c (some phase) }

/-- A session on an established connection. -/
def newSession (σ : HttpClient) (session : AnySession) : HttpClient :=
  { σ with
    sessions := σ.sessions.set σ.nextSession session
    nextSession := σ.nextSession + 1 }

/-- `HttpResponse::body_full` behind `session_->body_full`. -/
def consume (σ : HttpClient) (o : ResponseId) (response : HttpResponse) (success : Bool)
    (dead : List SessionId) : HttpClient :=
  if response.bodyConsumed then σ
  else
    match response.bodyConsumedHook with
    | none => σ.setResponse o { response with bodyConsumed := true }
    | some key =>
      (σ.setResponse o { response with bodyConsumed := true }).bodyConsumed key response.session
        success dead

/-- One step, but for the destructors of sessions. -/
def act (σ : HttpClient) : ClientLabel → Option HttpClient
  | .request q key dead dead' socket =>
    if σ.requests.get? q = none then
      match σ.acquireSession key dead dead' with
      | (σ', some s) => some (σ'.setRequest q (.exchanging key s))
      | (σ', none) =>
        match socket with
        -- no address, or no descriptor
        | none => some (σ'.setRequest q .finished)
        | some d =>
          if σ.sockets d = .unused then
            some ((σ'.setSocket d .opened).setRequest q (.connecting key σ.cleared d))
          else none
    else none
  | .connectFailed q =>
    match σ.requests.get? q with
    | some (.connecting _ _ d) => some ((σ.setSocket d .closed).setRequest q .finished)
    | _ => none
  | .connected q =>
    match σ.requests.get? q with
    | some (.connecting key cleared d) => some (σ.setRequest q (.establishing key cleared d))
    | _ => none
  | .establishFailed q =>
    match σ.requests.get? q with
    | some (.establishing key _ _) =>
      -- only a CONNECT exchange or a TLS handshake can fail
      if key.proxy.isSome || key.isSsl then some (σ.setRequest q .finished) else none
    | _ => none
  | .established q useH2 =>
    match σ.requests.get? q with
    | some (.establishing key cleared d) =>
      if useH2 then
        if key.isSsl ∧ cleared = σ.cleared then
          some (((σ.newSession ⟨.http2, key, d⟩).setGroup key
            { σ.group key with h2Session := some σ.nextSession }).setRequest q
              (.exchanging key σ.nextSession))
        else none
      else
        some ((σ.newSession ⟨.http11, key, d⟩).setRequest q (.exchanging key σ.nextSession))
    | _ => none
  | .requestFailed q =>
    match σ.requests.get? q with
    | some (.exchanging _ _) => some (σ.setRequest q .finished)
    | _ => none
  | .responded q id =>
    match σ.requests.get? q with
    | some (.exchanging key s) =>
      match σ.sessions.get? s with
      | some session =>
        let hook := if isH1 session.httpVersion then some key else none
        some ((σ.setRequest q .finished).newResponse
          { session := some s, bodyConsumedHook := hook, head := some q, id := id })
      | none => none
    | _ => none
  | .bodyFull c o =>
    match σ.calls c, σ.responses.get? o with
    | none, some response =>
      match response.session with
      | some s => some (σ.setCall c (.running o s))
      | none => none
    | _, _ => none
  | .bodyDone c outcome dead =>
    match σ.calls c with
    | some (.running o s) =>
      match σ.responses.get? o, σ.sessions.get? s with
      | some response, some _ =>
        some ((σ.consume o response (outcome ≠ .failed) dead).setCall c .finished)
      | _, _ => none
    | _ => none
  | .move o =>
    match σ.responses.get? o with
    | some response => some ((σ.newResponse response).setResponse o {})
    | none => none
  | .assign target source =>
    match σ.responses.get? target, σ.responses.get? source with
    | some _, some response =>
      if target = source then some σ
      else some ((σ.setResponse target response).setResponse source {})
    | _, _ => none
  | .drop o =>
    match σ.responses.get? o with
    | some _ => some { σ with responses := σ.responses.erase o }
    | none => none
  | .closeAsync x =>
    if σ.closers x = none then some (σ.closeFrom x σ.pool.keys) else none
  | .closeResumed x success =>
    match σ.closers x with
    | some (.closing key cleared s) =>
      -- the iterator and the session that is being closed must still be there
      if cleared = σ.cleared ∧ σ.sessions.get? s ≠ none then
        if success then
          let σ' := σ.setGroup key { σ.group key with h2Session := none }
          some ((σ'.drain key).closeFrom x
            (σ.pool.keys.filter fun key' => SessionKey.cmp key key' = .lt))
        else some (σ.setCloser x .finished)
      else none
    | _ => none

def step (σ : HttpClient) (l : ClientLabel) : Option HttpClient := (σ.act l).map reap

/-- A new client. -/
def initial : HttpClient where
  pool := ∅
  cleared := 0
  sessions := .empty
  nextSession := 0
  sockets _ := .unused
  requests := .empty
  responses := .empty
  nextResponse := 0
  calls _ := none
  closers _ := none

end HttpClient

end Ppnt.Native
