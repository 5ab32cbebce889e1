import Ppnt.Native.SessionConnect

/-!
# The client with its connections

`HttpClient` says of a new session that there is one.  Here it comes from `session_connect`, which
runs with the key of its request on the descriptor that the request has opened, and the calls that
it makes are kept with the session (`opened`).
-/

namespace Ppnt.Native

/-- The client, and the calls that were made for each of its sessions. -/
structure RoutedClient where
  client : HttpClient
  opened : SessionId → List ConnectCall

/-- A step of the client, or the return of `session_connect` with what the resolver, the kernel, the
    proxy and the SSL library have answered. -/
inductive RoutedLabel where
  | client (l : ClientLabel)
  | established (q : RequestId) (a : ConnectAnswers) (timeoutMs : UInt32)
      (tlsCtx : Option TlsContext)

namespace RoutedClient

variable (P : Llhttp)

def step (r : RoutedClient) : RoutedLabel → Option RoutedClient
  | .client l =>
    -- a session is not opened in any other way
    if l.opensSession then none else (r.client.step l).map fun client => { r with client }
  | .established q a timeoutMs tlsCtx =>
    match r.client.requests.get? q with
    | some (.establishing key _ d) =>
      match sessionConnect P a key timeoutMs tlsCtx with
      | ⟨calls, .ok session⟩ =>
        if session.socket = d then
          (r.client.step (.established q (session.httpVersion = .http2))).map fun client =>
            ⟨client, Function.update r.opened r.client.nextSession calls⟩
        else none
      | _ => none
    | _ => none

def initial : RoutedClient := ⟨.initial, fun _ => []⟩

end RoutedClient

end Ppnt.Native
