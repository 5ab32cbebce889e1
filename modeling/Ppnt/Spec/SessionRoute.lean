import Ppnt.Spec.Http1Bodiless
import Ppnt.Spec.TunnelRequest

/-!
# Where a session leads

The calls of `session_connect` in terms of a network: a stream leads to the endpoint that was
resolved before the connection was made, and behind a CONNECT request to the endpoint that the
request names.  A session is to lead to the host and the port of its key, whether there is a proxy
or not.
-/

namespace Ppnt.Spec

open Ppnt.Native OutgoingRequest H1 Spans

/-! ## The network -/

structure Endpoint where
  host : List UInt8
  port : Int
deriving DecidableEq, Repr

/-- The host of an authority: an address in brackets, or a name without colons. -/
def readHost (text : List UInt8) : Option (List UInt8) :=
  if Url.unbracket text ≠ text then some (Url.unbracket text)
  else if 58 ∈ text then none
  else some text

/-- How a proxy reads the target of a CONNECT request: the port behind the last colon is a
    number. -/
def readAuthority (text : List UInt8) : Option Endpoint :=
  (rfind 58 text).bind fun colon =>
    let digits := text.drop (colon + 1)
    if digits ≠ [] ∧ digits.all isDigit = true then
      (readHost (text.take colon)).map (⟨·, decimalValue digits⟩)
    else none

/-- The endpoint that was resolved last, and where the streams lead. -/
structure Network where
  resolved : Option Endpoint := none
  peer : SocketId → Option Endpoint := fun _ => none

/-- A proxy that reads a CONNECT request connects the stream to the endpoint that is named. -/
def tunnelled (accepted : List UInt8) (peer : Option Endpoint) : Option Endpoint :=
  match H1.decode accepted with
  | some message => if message.method = ascii "CONNECT" then readAuthority message.target else peer
  | none => peer

def Network.call (n : Network) : ConnectCall → Network
  | .resolve host port => { n with resolved := some ⟨host, port⟩ }
  | .connect d _ _ => { n with peer := Function.update n.peer d n.resolved }
  | .closeFd d => { n with peer := Function.update n.peer d none }
  | .exchange d _ accepted =>
    { n with peer := Function.update n.peer d (tunnelled accepted (n.peer d)) }
  | .handshake _ _ => n

/-- Where a stream leads behind some calls. -/
def peerBehind (calls : List ConnectCall) (d : SocketId) : Option Endpoint :=
  (calls.foldl Network.call {}).peer d

/-- The names that the peers of handshakes are asked for. -/
def serverName : ConnectCall → Option (SocketId × List UInt8)
  | .handshake d hostName => some (d, hostName)
  | _ => none

/-! ## The target -/

private theorem readAuthority_append {host digits : List UInt8} (hne : digits ≠ [])
    (hdigits : digits.all isDigit = true) :
    readAuthority (host ++ ascii ":" ++ digits) =
      (readHost host).map (⟨·, decimalValue digits⟩) := by
  have hcolon : 58 ∉ digits := fun hmem => absurd (List.all_eq_true.mp hdigits 58 hmem) (by decide)
  have htext : host ++ ascii ":" ++ digits = host ++ 58 :: digits := by simp [ascii]
  rw [readAuthority, htext, rfind_append_cons host hcolon, Option.bind_some]
  simp only [List.drop_length_add_append, List.drop_one, List.tail_cons, List.take_left]
  rw [if_pos ⟨hne, hdigits⟩]

private theorem readAuthority_negative (host : List UInt8) (n : Nat) :
    readAuthority (host ++ ascii ":" ++ formatInt (.negSucc n)) = none := by
  have hcolon : 58 ∉ formatInt (.negSucc n) := not_mem_formatInt (by decide) _
  have htext : host ++ ascii ":" ++ formatInt (.negSucc n) = host ++
    58 :: formatInt (.negSucc n) := by
    simp [ascii]
  have hminus : (formatInt (.negSucc n)).all isDigit = false := by
    have hsign : (ascii "-").all isDigit = false := by decide
    rw [formatInt, List.all_append, hsign, Bool.false_and]
  rw [readAuthority, htext, rfind_append_cons host hcolon, Option.bind_some]
  simp only [List.drop_length_add_append, List.drop_one, List.tail_cons, hminus]
  simp

/-- The host and the port that are asked for are those of the key. -/
structure KeyNamed (key : SessionKey) : Prop where
  port : 0 < key.port
  userInfo : 64 ∉ key.host
  colon : 58 ∉ key.host
  brackets : Url.unbracket key.host = key.host

private theorem length_unbracket_lt {host : List UInt8} (h : Url.unbracket host ≠ host) :
    (Url.unbracket host).length < host.length := by
  unfold Url.unbracket at h ⊢
  split
  case isTrue hbrackets =>
    simp only [Bool.and_eq_true, decide_eq_true_eq] at hbrackets
    rw [List.length_dropLast, List.length_tail]
    omega
  case isFalse hplain => exact absurd (if_neg hplain) h

/-- Whatever is taken off the host makes it shorter, so a host that is read back has lost
    nothing. -/
private theorem readHost_tunnelHost_iff (host : List UInt8) :
    readHost (tunnelHost host) = some host ↔ 64 ∉ host ∧ 58 ∉ host ∧ Url.unbracket host = host := by
  have hle : (tunnelHost host).length ≤ (behindUserInfo host).length := length_unbracket_le _
  have hle' := length_behindUserInfo_le host
  unfold readHost
  constructor
  · intro h
    split at h
    case isTrue hbrackets =>
      have hlt := length_unbracket_lt hbrackets
      rw [Option.some.inj h] at hlt
      omega
    case isFalse =>
      split at h
      case isTrue => cases h
      case isFalse hcolon =>
        have heq : tunnelHost host = host := Option.some.inj h
        -- a user info would have been taken off
        have hat : 64 ∉ host := by
          intro hmem
          have hlt := length_behindUserInfo_lt hmem
          rw [heq] at hle
          omega
        rw [heq] at hcolon
        rw [tunnelHost, behindUserInfo_of_not_mem hat] at heq
        exact ⟨hat, hcolon, heq⟩
  · rintro ⟨hat, hcolon, hbrackets⟩
    have heq : tunnelHost host = host := by
      rw [tunnelHost, behindUserInfo_of_not_mem hat, hbrackets]
    rw [heq, if_neg (by simp [hbrackets]), if_neg hcolon]

/-- When the target of a CONNECT request stands for the key. -/
theorem readAuthority_tunnelTarget_iff (key : SessionKey) :
    readAuthority (tunnelTarget key) = some ⟨key.host, key.port⟩ ↔ KeyNamed key := by
  cases hport : key.port with
  | negSucc n =>
    have htarget : tunnelPort key.port = .negSucc n := by rw [hport]; rfl
    rw [tunnelTarget, htarget, readAuthority_negative]
    constructor
    · intro h
      cases h
    · intro h
      have hpos := h.port
      omega
  | ofNat n =>
    -- port 0 is asked for as 80
    have htarget : tunnelPort key.port = .ofNat (if n = 0 then 80 else n) := by
      rw [hport, tunnelPort]
      cases n <;> rfl
    have hdigits : (decimal (if n = 0 then 80 else n)).all isDigit = true :=
      List.all_eq_true.mpr fun _ hb => isDigit_of_mem_decimal hb
    rw [tunnelTarget, htarget, formatInt, readAuthority_append (decimal_ne_nil _) hdigits,
      decimalValue_decimal]
    constructor
    · intro h
      obtain ⟨host, hhost, heq⟩ := Option.map_eq_some_iff.mp h
      obtain ⟨rfl, hn⟩ := Endpoint.mk.inj heq
      obtain ⟨hat, hcolon, hbrackets⟩ := (readHost_tunnelHost_iff key.host).mp hhost
      refine ⟨?_, hat, hcolon, hbrackets⟩
      have hne : n ≠ 0 := by
        rintro rfl
        exact absurd hn (by decide)
      rw [hport]
      exact Int.ofNat_lt.mpr (Nat.pos_of_ne_zero hne)
    · rintro ⟨hpos, hat, hcolon, hbrackets⟩
      have hne : n ≠ 0 := by
        rintro rfl
        rw [hport] at hpos
        exact absurd hpos (by decide)
      rw [(readHost_tunnelHost_iff key.host).mpr ⟨hat, hcolon, hbrackets⟩, if_neg hne]
      rfl

/-! ## The calls of a session that is opened -/

variable {d : SocketId} {calls : List ConnectCall} {a : ConnectAnswers} {key : SessionKey}
  {tlsCtx : Option TlsContext} {timeoutMs : UInt32}

private theorem returns_tlsStream {tls : TlsAnswers} {ctx : TlsContext} {hostName : List UInt8}
    {useH2 : Bool} (h : (TlsStream.connect tls ctx d hostName).Returns calls useH2) :
    calls = [.handshake d hostName] ∧ useH2 = isH2Negotiated tls.alpnSelected := by
  unfold TlsStream.connect at h
  repeat' split at h
  all_goals first | exact absurd h Calls.not_returns_fail | skip
  obtain ⟨rest, hrest, rfl⟩ := Calls.returns_call_bind_iff.mp h
  obtain ⟨_, -, hpure⟩ := Calls.returns_ofExcept_bind_iff.mp hrest
  obtain ⟨rfl, hh2⟩ := Calls.returns_pure_iff.mp hpure
  exact ⟨rfl, hh2.symm⟩

private theorem returns_client {tls : TlsAnswers} {ctx : TlsContext}
    (h : (TlsContext.client tls).Returns calls ctx) : calls = [] := by
  unfold TlsContext.client at h
  repeat' split at h
  all_goals first | exact absurd h Calls.not_returns_fail | exact (Calls.returns_pure_iff.mp h).1

theorem returns_connectTls {useH2 : Bool} (h : (connectTls a key tlsCtx d).Returns calls useH2) :
    calls = (if key.isSsl then [.handshake d key.host] else []) ∧
      useH2 = (key.isSsl && isH2Negotiated a.tls.alpnSelected) := by
  unfold connectTls at h
  split at h
  case isTrue hssl =>
    rw [if_pos hssl, hssl, Bool.true_and]
    split at h
    · exact returns_tlsStream h
    · obtain ⟨first, ctx, rest, hclient, hrest, rfl⟩ := Calls.returns_bind_iff.mp h
      rw [returns_client hclient, List.nil_append]
      exact returns_tlsStream hrest
  case isFalse hssl =>
    obtain ⟨rfl, rfl⟩ := Calls.returns_pure_iff.mp h
    rw [if_neg hssl, Bool.eq_false_iff.mpr hssl, Bool.false_and]
    exact ⟨rfl, rfl⟩

variable {P : Llhttp}

theorem returns_sessionConnect {session : AnySession}
    (h : (sessionConnect P a key timeoutMs tlsCtx).Returns calls session) :
    ∃ tcp, (connectTcp P a key timeoutMs).Returns tcp session.socket ∧
      calls = tcp ++ (if key.isSsl then [.handshake session.socket key.host] else []) ∧
      session.sessionKey = key ∧ session.httpVersion =
        if key.isSsl && isH2Negotiated a.tls.alpnSelected then .http2 else .http11 := by
  unfold sessionConnect at h
  obtain ⟨tcp, d, _, htcp, hrest, rfl⟩ := Calls.returns_bind_iff.mp h
  obtain ⟨_, useH2, _, htls, hpure, rfl⟩ := Calls.returns_bind_iff.mp hrest
  obtain ⟨rfl, rfl⟩ := Calls.returns_pure_iff.mp hpure
  obtain ⟨rfl, rfl⟩ := returns_connectTls htls
  rw [List.append_nil]
  exact ⟨tcp, htcp, rfl, rfl, rfl⟩

/-! ## Where the session leads -/

/-- What is written in an exchange is accepted as a whole. -/
def AcceptedWhole : ConnectCall → Prop
  | .exchange _ ops accepted => ∀ op ∈ ops, ∀ payload ∈ payload? op, accepted = payload
  | _ => True

instance : DecidablePred AcceptedWhole
  | .exchange _ ops accepted =>
    inferInstanceAs (Decidable (∀ op ∈ ops, ∀ payload ∈ payload? op, accepted = payload))
  | .resolve _ _ | .connect _ _ _ | .closeFd _ | .handshake _ _ => .isTrue trivial

/-- A handshake does not lead anywhere else. -/
private theorem peerBehind_append_handshake (calls : List ConnectCall) (ssl : Bool) (d : SocketId)
    (hostName : List UInt8) :
    peerBehind (calls ++ if ssl then [.handshake d hostName] else []) d = peerBehind calls d := by
  rw [peerBehind, List.foldl_append]
  cases ssl <;> rfl

private theorem tunnelled_connect {accepted : List UInt8} {message : Message}
    (hdecode : H1.decode accepted = some message) (hmethod : message.method = ascii "CONNECT")
    (peer : Option Endpoint) : tunnelled accepted peer = readAuthority message.target := by
  rw [tunnelled, hdecode]
  exact if_pos hmethod

/-- Where the stream of a key leads. -/
private theorem peerBehind_connectTcp (hkey : ParsedKey key)
    (hplain : ∀ proxy ∈ key.proxy, PlainProxy proxy ∧ key.host.all isVisible = true)
    (hwhole : ∀ c ∈ calls, AcceptedWhole c) (h : (connectTcp P a key timeoutMs).Returns calls d) :
    peerBehind calls d =
        (if key.proxy = none then some ⟨key.host, key.port⟩ else readAuthority (tunnelTarget key)) ∧
      calls.filterMap serverName = [] := by
  unfold connectTcp at h
  cases hproxy : key.proxy with
  | none =>
    simp only [hproxy] at h
    obtain ⟨_, hresolved, rfl⟩ := Calls.returns_call_bind_iff.mp h
    obtain ⟨addr, -, hconnect⟩ := Calls.returns_ofExcept_bind_iff.mp hresolved
    rw [returns_connect hconnect, if_pos rfl]
    exact ⟨by simp [peerBehind, Network.call], rfl⟩
  | some proxy =>
    obtain ⟨target, hparse, hhost, hport, hscheme⟩ := parse_targetText hkey
    obtain ⟨hplain, hvisible⟩ := hplain proxy hproxy
    simp only [hproxy, hparse] at h
    obtain ⟨url, hurl, hstream⟩ := Calls.returns_ofExcept_bind_iff.mp h
    obtain rfl : target = url := Except.ok.inj hurl
    obtain ⟨addr, request, hrequest, rfl⟩ := returns_makeProxyStream P hstream
    rw [connectRequest_eq fun _ => hplain.length_credentials_lt] at hrequest
    -- the whole request was accepted, so the proxy reads the message
    have haccepted :=
      hwhole _ (List.mem_cons_of_mem _ (List.mem_cons_of_mem _ List.mem_cons_self)) _
      List.mem_cons_self _ rfl
    have hdecode : H1.decode request.serializeToH1 = some (tunnelMessage key proxy) := by
      rw [← Except.ok.inj hrequest]
      exact decode_tunnelRequest hhost hport hkey.port_ne hscheme hplain hvisible
    rw [← haccepted] at hdecode
    rw [if_neg (by simp)]
    refine ⟨?_, rfl⟩
    simp only [peerBehind, exchangeOf, List.foldl_cons, List.foldl_nil, Network.call,
      Function.update_self]
    rw [tunnelled_connect hdecode rfl]
    rfl

/-- A proxy that opens the tunnel to a peer with HTTP/2. -/
def tunnelToH2 : ConnectAnswers where
  resolve := .ok [⟨"10.0.0.1:3128"⟩]
  socket := .ok 3
  write := .ok 72
  reads := [.ok (bytesOf tunnelOk.toks)]
  tls := { alpnSelected := ascii "h2" }

/-- The calls lead to the host and the port of the key over the proxy of the key: either the stream
    is connected to them, or it is connected to the proxy, which has read a CONNECT request with
    that target, the credentials and the headers of its configuration.  With TLS the peer is asked
    for the host. -/
def OpenedFor (key : SessionKey) (d : SocketId) (calls : List ConnectCall) : Prop :=
  ∃ (endpoint : Endpoint) (addr : SocketAddress) (timeoutMs : UInt32) (tunnel : List ConnectCall),
    calls = .resolve endpoint.host endpoint.port :: .connect d addr timeoutMs :: tunnel ++
      (if key.isSsl then [.handshake d key.host] else []) ∧
    match key.proxy with
    | none => endpoint = ⟨key.host, key.port⟩ ∧ tunnel = []
    | some proxy => endpoint = ⟨proxy.host, proxy.port⟩ ∧
        readAuthority (tunnelMessage key proxy).target = some ⟨key.host, key.port⟩ ∧
        ∃ ops, tunnel = [.exchange d ops (tunnelMessage key proxy).encode]

/-- A key of a URL whose target the proxy `proxy` can be asked for. -/
structure NamesTarget (key : SessionKey) (proxy : ProxyConfig) : Prop where
  parsed : ∃ input url, Url.parse input = .ok url ∧ key = .ofUrl url (some proxy)
  named : KeyNamed key
  credentials : ∀ auth ∈ proxy.auth, (credentials auth).length < 2 ^ 31

/-- A session that `session_connect` returns has the route of its key. -/
theorem openedFor_of_connect {session : AnySession}
    (hnames : ∀ proxy ∈ key.proxy, NamesTarget key proxy)
    (h : (sessionConnect P a key timeoutMs tlsCtx).Returns calls session)
    (hwhole : ∀ c ∈ calls, AcceptedWhole c) : OpenedFor key session.socket calls := by
  obtain ⟨tcp, htcp, rfl, -, -⟩ := returns_sessionConnect h
  unfold connectTcp at htcp
  unfold OpenedFor
  cases hproxy : key.proxy with
  | none =>
    simp only [hproxy] at htcp
    obtain ⟨_, hresolved, rfl⟩ := Calls.returns_call_bind_iff.mp htcp
    obtain ⟨addr, -, hconnect⟩ := Calls.returns_ofExcept_bind_iff.mp hresolved
    rw [returns_connect hconnect]
    exact ⟨⟨key.host, key.port⟩, addr, timeoutMs, [], rfl, rfl, rfl⟩
  | some proxy =>
    obtain ⟨⟨input, url, hparse, hkey⟩, hnamed, hauth⟩ := hnames proxy hproxy
    have hparsed : ParsedKey key := hkey ▸ parsedKey_ofUrl hparse (some proxy)
    obtain ⟨target, htarget, hhost, hport, hscheme⟩ := parse_targetText hparsed
    simp only [hproxy, htarget] at htcp
    obtain ⟨_, hurl, hstream⟩ := Calls.returns_ofExcept_bind_iff.mp htcp
    obtain rfl := Except.ok.inj hurl
    obtain ⟨addr, request, hrequest, rfl⟩ := returns_makeProxyStream P hstream
    rw [connectRequest_eq hauth] at hrequest
    -- the proxy has read the bytes of the message
    have haccepted := hwhole _ (List.mem_append_left _ (List.mem_cons_of_mem _
      (List.mem_cons_of_mem _ List.mem_cons_self))) _ List.mem_cons_self _ rfl
    have hbytes : request.serializeToH1 = (tunnelMessage key proxy).encode := by
      rw [← sent_tunnelRequest hhost hport hparsed.port_ne hscheme, ← encode_sent,
        ← Except.ok.inj hrequest]
      rfl
    rw [hbytes] at haccepted
    have hexchange : ∃ ops, exchangeOf P a session.socket request =
        .exchange session.socket ops (tunnelMessage key proxy).encode :=
      ⟨_, by rw [← haccepted]; rfl⟩
    obtain ⟨ops, hexchange⟩ := hexchange
    rw [hexchange]
    exact ⟨⟨proxy.host, proxy.port⟩, addr, 0, _, rfl, rfl,
      (readAuthority_tunnelTarget_iff key).mpr hnamed, ops, rfl⟩

end Ppnt.Spec
