import Ppnt.Native.SessionConnect
import Ppnt.Spec.Base64Correct
import Ppnt.Spec.RequestAuthority
import Ppnt.Spec.RequestGrammar
import Ppnt.Spec.RequestTimeouts

/-!
# What a proxy reads

`session_connect` makes a URL of the host and the port of a key, parses it, and asks the proxy for
that URL. The user info and the brackets that `parse` looks for are looked for once more in the host
that it has given before, and port 0 becomes 80.  `tunnelMessage` is what the proxy reads.
-/

namespace Ppnt.Spec

open Ppnt.Native OutgoingRequest H1

/-! ## The target -/

/-- What `parse` leaves in a key. -/
structure ParsedKey (key : SessionKey) : Prop where
  lower : toLowerAsciiStr key.host = key.host
  host : InAuthority key.host
  port : -2 ^ 31 ≤ key.port ∧ key.port < 2 ^ 31
  port_ne : key.port ≠ -1

theorem parsedKey_ofUrl {input : List UInt8} {url : Url} (h : Url.parse input = .ok url)
    (proxy : Option ProxyConfig) : ParsedKey (.ofUrl url proxy) := by
  obtain ⟨hlower, hhost, hport⟩ := parsedHost_of_parse h
  have hrange : (-2 ^ 31 ≤ url.portOrDefault ∧ url.portOrDefault < 2 ^ 31) ∧
    url.portOrDefault ≠ -1 := by
    unfold Url.portOrDefault
    split
    case isTrue hne => exact ⟨hport, hne⟩
    case isFalse =>
      split
      · decide
      · split <;> decide
  exact ⟨hlower, hhost, hrange.1, hrange.2⟩

/-- The host that the proxy is asked for. -/
def tunnelHost (host : List UInt8) : List UInt8 := Url.unbracket (behindUserInfo host)

def tunnelPort (port : Int) : Int := if port = 0 then 80 else port

def tunnelTarget (key : SessionKey) : List UInt8 :=
  tunnelHost key.host ++ ascii ":" ++ formatInt (tunnelPort key.port)

private theorem mem_of_mem_tunnelHost {b : UInt8} {host : List UInt8} (h : b ∈ tunnelHost host) :
    b ∈ host :=
  mem_of_mem_behindUserInfo (mem_of_mem_unbracket h)

/-- A part of a text in lower case is in lower case. -/
private theorem toLowerAsciiStr_behindUserInfo {host : List UInt8}
    (h : toLowerAsciiStr host = host) :
    toLowerAsciiStr (behindUserInfo host) = behindUserInfo host := by
  have hfix : ∀ b ∈ host, toLowerAscii b = b := by
    intro b hb
    obtain ⟨i, hi, rfl⟩ := List.mem_iff_getElem.mp hb
    have hget := congrArg (·[i]?) h
    simp only [toLowerAsciiStr, List.getElem?_map, List.getElem?_eq_getElem hi, Option.map_some,
      Option.some.injEq] at hget
    exact hget
  calc toLowerAsciiStr (behindUserInfo host)
    _ = (behindUserInfo host).map id :=
      List.map_congr_left fun b hb => hfix b (mem_of_mem_behindUserInfo hb)
    _ = behindUserInfo host := List.map_id _

/-- The URL that is made of a key. -/
theorem parse_targetText {key : SessionKey} (h : ParsedKey key) :
    ∃ target, Url.parse (ascii "http://" ++ key.host ++ ascii ":" ++ formatInt key.port) =
      .ok target ∧
      target.host = tunnelHost key.host ∧ target.port = key.port ∧
        target.scheme = ascii "http" := by
  have hends : ∀ d ∈ ascii "/?#", d ∈ delimiters ∧ d ≠ 58 := by simp [delimiters, ascii]
  -- the host has no `/`, `?` or `#`, and a port has only digits and a sign
  have hauthority : InAuthority (key.host ++ ascii ":" ++ formatInt key.port) := by
    intro b hb hend
    rw [List.append_assoc, List.mem_append] at hb
    rcases hb with hhost | hport
    · exact h.host b hhost hend
    · rcases List.mem_cons.mp hport with rfl | hmem
      · exact (hends 58 hend).2 rfl
      · exact not_mem_formatInt (hends b hend).1 key.port hmem
  have hport : PortPart (behindUserInfo (key.host ++ ascii ":" ++ formatInt key.port))
      (behindUserInfo key.host) (formatInt key.port) := by
    have hnot : 64 ∉ ascii ":" ++ formatInt key.port := by
      rw [List.mem_append, not_or]
      exact ⟨by decide, not_mem_formatInt (by decide) key.port⟩
    rw [List.append_assoc, behindUserInfo_append hnot]
    exact ⟨rfl, not_mem_formatInt (by decide) _, not_mem_formatInt (by decide) _⟩
  have hrest : BehindAuthority [] := by decide
  have hscheme : 58 ∉ ascii "http" := by decide
  have hparse := parse_absolute hscheme hauthority hrest
  obtain ⟨userInfo, heq⟩ := parseAuthority_eq (key.host ++ ascii ":" ++ formatInt key.port)
  have hvalid : validScheme (toLowerAsciiStr (ascii "http")) = true := by decide
  rw [if_pos hvalid, heq, parseHostPort_of_port hport, fromChars?_formatInt h.port.1 h.port.2,
    toLowerAsciiStr_behindUserInfo h.lower] at hparse
  have htext : ascii "http" ++ ascii "://" ++ (key.host ++ ascii ":" ++ formatInt key.port) ++ [] =
      ascii "http://" ++ key.host ++ ascii ":" ++ formatInt key.port := by
    simp [ascii]
  rw [htext] at hparse
  exact ⟨_, hparse, rfl, rfl, rfl⟩

/-! ## The header section -/

/-- The credentials as one text. -/
def credentials (auth : ProxyAuth) : List UInt8 := auth.username ++ ascii ":" ++ auth.password

/-- The header line with the credentials. -/
def authLine (auth : ProxyAuth) : HttpHeader :=
  ⟨ascii "Authorization", ascii "Basic " ++ standardEncode (credentials auth)⟩

/-- Headers that make a message, and credentials whose encoding has an `int` for its length. -/
structure PlainProxy (proxy : ProxyConfig) : Prop where
  fields : ∀ h ∈ proxy.headers, IsField h
  transferEncoding : ∀ h ∈ proxy.headers, ¬Named "transfer-encoding" h
  contentLength : ∀ h ∈ proxy.headers, Named "content-length" h → StatesLength 0 h.value
  auth : ∀ auth ∈ proxy.auth, (standardEncode (credentials auth)).length < 2 ^ 31

theorem PlainProxy.length_credentials_lt {proxy : ProxyConfig} (h : PlainProxy proxy)
    {auth : ProxyAuth} (hauth : auth ∈ proxy.auth) : (credentials auth).length < 2 ^ 31 := by
  have hlen := h.auth auth hauth
  rw [length_standardEncode] at hlen
  omega

/-- The length of the credentials is an `int`. -/
private theorem authHeaders_eq {proxy : ProxyConfig}
    (h : ∀ auth ∈ proxy.auth, (credentials auth).length < 2 ^ 31) (a : Vector UInt8 3) :
    proxy.authHeaders a = .ok (proxy.auth.toList.map authLine) := by
  unfold ProxyConfig.authHeaders
  cases hauth : proxy.auth with
  | none => rfl
  | some auth =>
    have hencode := encode_eq (h auth hauth) a
    unfold credentials at hencode
    simp only [ProxyAuth.basicHeader, ProxyAuth.basicAuthValue, hencode]
    rfl

private theorem isVisible_of_mem_standardEncode {b : UInt8} {bs : List UInt8}
    (h : b ∈ standardEncode bs) : isVisible b = true := by
  rcases List.mem_append.mp h with hletter | hpad
  · have hmem := (mem_chars_iff b).mp (mem_chars_of_mem_letters hletter)
    simp only [isVisible, Bool.and_eq_true, decide_eq_true_eq, UInt8.le_iff_toNat_le]
    refine ⟨?_, ?_⟩
    · have hlow : (33 : UInt8).toNat = 33 := rfl
      omega
    · rintro rfl
      have hdel : (127 : UInt8).toNat = 127 := rfl
      omega
  · rw [List.eq_of_mem_replicate hpad]
    decide

/-- White space is only taken off the ends. -/
private theorem trimOws_of_ends {b c : UInt8} {bs : List UInt8} (hb : isOws b = false)
    (hc : isOws c = false) : trimOws (b :: bs ++ [c]) = b :: bs ++ [c] := by
  rw [trimOws, List.cons_append, List.dropWhile_cons_of_neg (by simp [hb]), ← List.cons_append,
    List.rdropWhile_concat_neg _ _ _ (by simp [hc])]

private theorem standardEncode_credentials_ne_nil (auth : ProxyAuth) :
    standardEncode (credentials auth) ≠ [] := by
  rw [← List.length_pos_iff, length_standardEncode, credentials, List.length_append,
    List.length_append]
  have hcolon : (ascii ":").length = 1 := by decide
  omega

/-- Credentials are written in Base64, so the line is well formed. -/
private theorem isField_authLine (auth : ProxyAuth) : IsField (authLine auth) := by
  have hname : IsToken (ascii "Authorization") := by decide
  refine ⟨hname, ?_, ?_⟩
  · rw [authLine, List.all_append, Bool.and_eq_true]
    refine ⟨by decide, List.all_eq_true.mpr fun b hb => ?_⟩
    rw [isFieldByte, isVisible_of_mem_standardEncode hb, Bool.true_or]
  · -- the blank behind `Basic` is not at an end
    obtain ⟨bs, c, hbs⟩ := List.eq_nil_or_concat (standardEncode (credentials auth)) |>.resolve_left
      (standardEncode_credentials_ne_nil auth)
    have hc : isVisible c = true := isVisible_of_mem_standardEncode (by rw [hbs]; simp)
    have hvalue : (authLine auth).value = 66 :: (ascii "asic " ++ bs) ++ [c] := by
      simp [authLine, hbs, ascii]
    rw [hvalue]
    refine trimOws_of_ends (by decide) ?_
    cases hows : isOws c with
    | false => rfl
    | true =>
      have hblank : c = 32 ∨ c = 9 := by simpa [isOws] using hows
      rcases hblank with rfl | rfl <;> exact absurd hc (by decide)

/-! ## The message -/

/-- The proxy is told the target in a `Host` line unless it has one of its own. -/
def tunnelMessage (key : SessionKey) (proxy : ProxyConfig) : Message where
  method := ascii "CONNECT"
  target := tunnelTarget key
  headers := proxy.auth.toList.map authLine ++ proxy.headers ++
    if ∃ h ∈ proxy.headers, Named "host" h then [] else [⟨ascii "Host", tunnelTarget key⟩]
  body := []

private theorem not_named_authLine (auth : ProxyAuth) :
    ¬Named "host" (authLine auth) ∧ ¬Named "transfer-encoding" (authLine auth) ∧
      ¬Named "content-length" (authLine auth) := by
  have hname : ∀ name, Named name (authLine auth) ↔
      ignoreCaseEqual (ascii "Authorization") (ascii name) = true := fun _ => Iff.rfl
  rw [hname, hname, hname]
  decide

section

variable {key : SessionKey} {proxy : ProxyConfig} {target : Url} {r : TimedRequest}
  {a : Vector UInt8 3}

theorem connectRequest_eq (hauth : ∀ auth ∈ proxy.auth, (credentials auth).length < 2 ^ 31)
    (a : Vector UInt8 3) (target : Url) :
    connectRequest a target proxy = .ok
      { url := target
        method := ascii "CONNECT"
        headers := proxy.auth.toList.map authLine ++ proxy.headers } := by
  rw [connectRequest, authHeaders_eq hauth]
  rfl

/-- The request line and the `Host` line have the target of the key. -/
private theorem connectPort_eq (hport : target.port = key.port) (hne : key.port ≠ -1)
    (hscheme : target.scheme = ascii "http") : connectPort target = tunnelPort key.port := by
  have hdefault : target.portOrDefault = key.port := by
    rw [Url.portOrDefault, hport, if_pos hne]
  have hother : ¬(target.scheme = ascii "https" ∨ target.scheme = ascii "wss") := by
    rw [hscheme]
    decide
  rw [connectPort, hdefault, tunnelPort, if_neg hother]
  split <;> simp_all

private theorem isVisible_tunnelTarget (hvisible : key.host.all isVisible = true) :
    ∀ b ∈ tunnelTarget key, isVisible b = true := by
  intro b hb
  rcases List.mem_append.mp hb with hfront | hport
  · rcases List.mem_append.mp hfront with hhost | hcolon
    · exact List.all_eq_true.mp hvisible b (mem_of_mem_tunnelHost hhost)
    · rw [List.mem_singleton.mp hcolon]
      decide
  · rcases mem_formatInt hport with rfl | hdigit
    · decide
    · exact isVisible_of_isDigit hdigit

/-- The request of `make_proxy_stream` for a key. -/
def tunnelRequest (target : Url) (proxy : ProxyConfig) : OutgoingRequest where
  url := target
  method := ascii "CONNECT"
  headers := proxy.auth.toList.map authLine ++ proxy.headers

private theorem hasField_tunnelRequest_iff {name : String}
    (hauth : ∀ auth, ¬Named name (authLine auth)) :
    HasField (tunnelRequest target proxy) name ↔ ∃ h ∈ proxy.headers, Named name h := by
  constructor
  · rintro ⟨h, hmem, hname⟩
    rcases List.mem_append.mp hmem with hline | hown
    · obtain ⟨auth, -, rfl⟩ := List.mem_map.mp hline
      exact absurd hname (hauth auth)
    · exact ⟨h, hown, hname⟩
  · rintro ⟨h, hmem, hname⟩
    exact ⟨h, List.mem_append_right _ hmem, hname⟩

variable (hhost : target.host = tunnelHost key.host) (hport : target.port = key.port)
  (hne : key.port ≠ -1) (hscheme : target.scheme = ascii "http")

include hhost hport hne hscheme

/-- What a CONNECT sends. -/
theorem sent_tunnelRequest (proxy : ProxyConfig) :
    sent (tunnelRequest target proxy) = tunnelMessage key proxy := by
  have htarget : (sent (tunnelRequest target proxy)).target = tunnelTarget key := by
    rw [tunnelTarget, ← connectPort_eq hport hne hscheme, ← hhost]
    rfl
  have hline : (tunnelRequest target proxy).defaultHost = tunnelTarget key := by
    rw [← htarget, ← requestTarget_eq]
    rfl
  have hheaders : h1Headers (tunnelRequest target proxy) = (tunnelMessage key proxy).headers := by
    have hbody : (tunnelRequest target proxy).bodyBytes = [] := rfl
    rw [h1Headers, hbody, hline]
    simp only [hasField_tunnelRequest_iff fun auth => (not_named_authLine auth).1, ne_eq,
      not_true_eq_false, false_and, if_false, List.append_nil]
    rfl
  calc sent (tunnelRequest target proxy)
    _ = ⟨ascii "CONNECT", (sent (tunnelRequest target proxy)).target,
          h1Headers (tunnelRequest target proxy), []⟩ := rfl
    _ = tunnelMessage key proxy := by rw [htarget, hheaders]; rfl

/-- The CONNECT request of a plain proxy can be sent. -/
private theorem sendable_tunnelRequest (hplain : PlainProxy proxy)
    (hvisible : key.host.all isVisible = true) : Sendable (tunnelRequest target proxy) := by
  have htarget : (sent (tunnelRequest target proxy)).target = tunnelTarget key := by
    rw [sent_tunnelRequest hhost hport hne hscheme]
    rfl
  have hbytes := isVisible_tunnelTarget hvisible
  have hmethod : IsToken (ascii "CONNECT") := by decide
  refine ⟨hmethod, ?_, ?_, .inr ?_, ?_, ?_⟩
  · rw [htarget]
    exact List.all_eq_true.mpr hbytes
  · intro h hmem
    -- the line with the credentials, or one of the proxy
    rcases List.mem_append.mp hmem with hline | hown
    · obtain ⟨auth, -, rfl⟩ := List.mem_map.mp hline
      exact isField_authLine auth
    · exact hplain.fields h hown
  · have hline : (tunnelRequest target proxy).defaultHost = tunnelTarget key := by
      rw [← htarget, ← requestTarget_eq]
      rfl
    rw [hline]
    exact isFieldValue_of_forall hbytes
  · rw [hasField_tunnelRequest_iff fun auth => (not_named_authLine auth).2.1]
    rintro ⟨h, hmem, hname⟩
    exact hplain.transferEncoding h hmem hname
  · intro h hmem hname
    rcases List.mem_append.mp hmem with hline | hown
    · obtain ⟨auth, -, rfl⟩ := List.mem_map.mp hline
      exact absurd hname (not_named_authLine auth).2.2
    · exact hplain.contentLength h hown hname

/-- The bytes of the request are one message. -/
theorem decode_tunnelRequest (hplain : PlainProxy proxy)
    (hvisible : key.host.all isVisible = true) :
    H1.decode (tunnelRequest target proxy).serializeToH1 = some (tunnelMessage key proxy) := by
  rw [encode_sent, ← sent_tunnelRequest hhost hport hne hscheme, decode_encode_iff,
    wellFormed_sent_iff]
  exact sendable_tunnelRequest hhost hport hne hscheme hplain hvisible

end

/-! ## The calls -/

def isExchange : ConnectCall → Bool
  | .exchange _ _ _ => true
  | _ => false

/-- What an operation on a connection writes. -/
def payload? : ConnectionOp → Option (List UInt8)
  | .write payload _ => some payload
  | .read _ => none

/-- The calls of a connection that is made. -/
theorem returns_connect {a : ConnectAnswers} {addr : SocketAddress} {timeoutMs : UInt32}
    {calls : List ConnectCall} {d : SocketId}
    (h : (TcpStream.connect a addr timeoutMs).Returns calls d) :
    calls = [.connect d addr timeoutMs] := by
  unfold TcpStream.connect at h
  split at h
  · exact absurd h Calls.not_returns_fail
  · obtain ⟨rest, hrest, rfl⟩ := Calls.returns_call_bind_iff.mp h
    split at hrest
    · obtain ⟨rfl, rfl⟩ := Calls.returns_pure_iff.mp hrest
      rfl
    · obtain ⟨_, hfail, -⟩ := Calls.returns_call_bind_iff.mp hrest
      exact absurd hfail Calls.not_returns_fail

/-- Making a connection writes nothing. -/
private theorem always_connect (a : ConnectAnswers) (addr : SocketAddress) (timeoutMs : UInt32) :
    (TcpStream.connect a addr timeoutMs).Always (isExchange · = false) := by
  unfold TcpStream.connect
  split
  · exact Calls.always_fail _
  · refine .bind (Calls.always_call_iff.mpr rfl) fun _ _ => ?_
    split
    · exact Calls.always_pure _
    · exact .bind (Calls.always_call_iff.mpr rfl) fun _ _ => Calls.always_fail _

/-- The TLS part of `session_connect` makes no other call than the handshake. -/
private theorem always_connectTls (a : ConnectAnswers) (key : SessionKey)
    (tlsCtx : Option TlsContext)
    (d : SocketId) : (connectTls a key tlsCtx d).Always (· = .handshake d key.host) := by
  have hstream : ∀ ctx,
      (TlsStream.connect a.tls ctx d key.host).Always (· = .handshake d key.host) := by
    intro ctx
    unfold TlsStream.connect
    repeat' split
    all_goals first | exact Calls.always_fail _ | skip
    refine .bind (Calls.always_call_iff.mpr rfl) fun _ _ => ?_
    exact .bind (Calls.always_ofExcept _) fun _ _ => Calls.always_pure _
  have hclient : (TlsContext.client a.tls).Always (· = .handshake d key.host) := by
    unfold TlsContext.client
    repeat' split
    all_goals first | exact Calls.always_fail _ | exact Calls.always_pure _
  unfold connectTls
  split
  · split
    · exact hstream _
    · exact hclient.bind fun ctx _ => hstream ctx
  · exact Calls.always_pure _

variable (P : Llhttp)

/-- The exchange writes the request, once. -/
private theorem filterMap_requestOps (r : TimedRequest) (written : Except Error Unit)
    (reads : List Read) :
    (Http1Session.requestOps P r written reads).filterMap payload? = [r.serializeToH1] := by
  have hreads : ∀ ops : List ConnectionOp, (∀ op ∈ ops, ∃ t, op = .read t) →
      ops.filterMap payload? = [] := by
    intro ops h
    refine List.filterMap_eq_nil_iff.mpr fun op hop => ?_
    obtain ⟨t, rfl⟩ := h op hop
    rfl
  cases written with
  | error e => rfl
  | ok _ =>
    exact congrArg (r.serializeToH1 :: ·) (hreads _ fun op hop => ⟨_, eq_read_of_mem _ _ _ hop⟩)

/-- The transport accepts the front of what is written. -/
private theorem accepted_prefix (r : OutgoingRequest) (write : Write) :
    (sendRequest r write).2 <+: r.serializeToH1 := by
  unfold sendRequest
  split
  · exact List.nil_prefix
  · exact List.take_prefix _ _

/-- Renaming an error makes no value. -/
private theorem ok_of_mapError {ε ε' α : Type} {r : Except ε α} {f : ε → ε'} {a : α}
    (h : r.mapError f = .ok a) : r = .ok a := by
  cases r with
  | error e => cases h
  | ok a' => rw [Except.ok.inj h]

/-- The entry of the exchange in which a request is sent. -/
def exchangeOf (a : ConnectAnswers) (d : SocketId) (request : TimedRequest) : ConnectCall :=
  let sent := sendRequest request.toOutgoingRequest a.write
  .exchange d (Http1Session.requestOps P request sent.1 a.reads) sent.2

/-- The calls of `make_proxy_stream`, if it comes to the exchange. -/
private theorem calls_makeProxyStream {a : ConnectAnswers} {target : Url} {proxy : ProxyConfig}
    {c : ConnectCall}
    (hmem : c ∈ (makeProxyStream P a target proxy).calls) (hc : isExchange c = true) :
    ∃ d addr request, connectRequest a.charArray3 target proxy = .ok request ∧
      c = exchangeOf P a d request ∧
      (makeProxyStream P a target proxy).calls =
        [.resolve proxy.host proxy.port, .connect d addr 0, c] := by
  -- none of the calls in front of the exchange is one, so each of them has returned
  have hother : ∀ c', isExchange c' = false → c ≠ c' := by
    rintro c' hc' rfl
    exact nomatch hc.symm.trans hc'
  unfold makeProxyStream at hmem ⊢
  obtain ⟨_, -, hmem, hcalls⟩ := Calls.exists_of_mem_bind hmem
    fun h => hother _ rfl (List.mem_singleton.mp h)
  rw [hcalls]
  obtain ⟨addr, -, hmem, hcalls⟩ := Calls.exists_of_mem_bind hmem fun h => nomatch h
  rw [hcalls]
  obtain ⟨d, hd, hmem, hcalls⟩ := Calls.exists_of_mem_bind hmem
    fun h => hother c (always_connect a addr 0 c h) rfl
  rw [hcalls, returns_connect hd]
  obtain ⟨request, hrequest, hmem, hcalls⟩ := Calls.exists_of_mem_bind hmem fun h => nomatch h
  rw [hcalls]
  obtain ⟨-, hok⟩ := hrequest
  -- behind the exchange nothing is called
  have hlast : ∀ (r : Except Error (List Read)) (c' : ConnectCall),
      (Calls.call c' >>= fun _ => ConnectM.ofResult r >>= fun _ =>
        pure d : ConnectM SocketId).calls = [c'] := by
    intro r c'
    cases r <;> rfl
  rw [hlast] at hmem ⊢
  obtain rfl := List.mem_singleton.mp hmem
  exact ⟨d, addr, request, ok_of_mapError hok, rfl, rfl⟩

/-- The calls of `make_proxy_stream`, if it returns. -/
theorem returns_makeProxyStream {a : ConnectAnswers} {target : Url} {proxy : ProxyConfig}
    {calls : List ConnectCall} {d : SocketId}
    (h : (makeProxyStream P a target proxy).Returns calls d) :
    ∃ addr request, connectRequest a.charArray3 target proxy = .ok request ∧
      calls = [.resolve proxy.host proxy.port, .connect d addr 0, exchangeOf P a d request] := by
  unfold makeProxyStream at h
  obtain ⟨_, hresolved, rfl⟩ := Calls.returns_call_bind_iff.mp h
  obtain ⟨addr, -, haddr⟩ := Calls.returns_ofExcept_bind_iff.mp hresolved
  obtain ⟨_, d', _, hconnect, hconnected, rfl⟩ := Calls.returns_bind_iff.mp haddr
  obtain ⟨request, hrequest, hexchange⟩ := Calls.returns_ofExcept_bind_iff.mp hconnected
  obtain ⟨_, htunnel, rfl⟩ := Calls.returns_call_bind_iff.mp hexchange
  obtain ⟨_, -, hpure⟩ := Calls.returns_ofExcept_bind_iff.mp htunnel
  obtain ⟨rfl, rfl⟩ := Calls.returns_pure_iff.mp hpure
  rw [returns_connect hconnect]
  exact ⟨addr, request, ok_of_mapError hrequest, rfl⟩

/-- The calls up to the stream, if there is an exchange among them. -/
private theorem calls_connectTcp {a : ConnectAnswers} {key : SessionKey} {timeoutMs : UInt32}
    {c : ConnectCall}
    (hkey : ParsedKey key) (hmem : c ∈ (connectTcp P a key timeoutMs).calls)
    (hc : isExchange c = true) : ∃ proxy target d addr request, key.proxy = some proxy ∧
      Url.parse (ascii "http://" ++ key.host ++ ascii ":" ++ formatInt key.port) = .ok target ∧
      connectRequest a.charArray3 target proxy = .ok request ∧ c = exchangeOf P a d request ∧
      (connectTcp P a key timeoutMs).calls =
        [.resolve proxy.host proxy.port, .connect d addr 0, c] ∧
      ∀ d', (connectTcp P a key timeoutMs).result = .ok d' → d' = d := by
  unfold connectTcp at hmem ⊢
  cases hproxy : key.proxy with
  | none =>
    -- nothing is written to a stream that leads to the host
    simp only [hproxy] at hmem
    have halways : (Calls.call (.resolve key.host key.port) >>= fun _ =>
        ConnectM.ofResult (resolveFirst a.resolve) >>= fun addr =>
          TcpStream.connect a addr timeoutMs : ConnectM SocketId).Always (isExchange · = false) :=
      .bind (Calls.always_call_iff.mpr rfl) fun _ _ =>
        .bind (Calls.always_ofExcept _) fun addr _ => always_connect a addr timeoutMs
    exact nomatch hc.symm.trans (halways c hmem)
  | some proxy =>
    obtain ⟨target, hparse, -⟩ := parse_targetText hkey
    have hstream : (ConnectM.ofResult
        (Url.parse (ascii "http://" ++ key.host ++ ascii ":" ++ formatInt key.port)) >>=
        fun target =>
          makeProxyStream P a target proxy) = makeProxyStream P a target proxy := by
      rw [hparse]
      rfl
    simp only [hproxy, hstream] at hmem ⊢
    obtain ⟨d, addr, request, hrequest, rfl, hcalls⟩ := calls_makeProxyStream P hmem hc
    refine ⟨proxy, target, d, addr, request, rfl, hparse, hrequest, rfl, hcalls, fun d' hd' => ?_⟩
    obtain ⟨addr', request', -, hcalls'⟩ := returns_makeProxyStream P (Calls.returns_of_result hd')
    have hconnect := (List.cons.inj (List.cons.inj (hcalls.symm.trans hcalls')).2).1
    exact (ConnectCall.connect.inj hconnect).1.symm

/-- If `session_connect` writes in front of a handshake, it does so once, to the proxy of its key,
    and then makes no call but the handshake on the same stream. -/
theorem calls_of_exchange {a : ConnectAnswers} {key : SessionKey} {timeoutMs : UInt32}
    {tlsCtx : Option TlsContext} {c : ConnectCall} (hkey : ParsedKey key)
    (hmem : c ∈ (sessionConnect P a key timeoutMs tlsCtx).calls) (hc : isExchange c = true) :
    ∃ proxy target d addr request tail, key.proxy = some proxy ∧
      Url.parse (ascii "http://" ++ key.host ++ ascii ":" ++ formatInt key.port) = .ok target ∧
      connectRequest a.charArray3 target proxy = .ok request ∧ c = exchangeOf P a d request ∧
      (sessionConnect P a key timeoutMs tlsCtx).calls =
        [.resolve proxy.host proxy.port, .connect d addr 0, c] ++ tail ∧
      ∀ c' ∈ tail, c' = .handshake d key.host := by
  have htls : ∀ d, (connectTls a key tlsCtx d >>= fun useH2 =>
      (pure ⟨if useH2 then .http2 else .http11, key, d⟩ : ConnectM AnySession)).Always
        (· = .handshake d key.host) :=
    fun d => (always_connectTls a key tlsCtx d).bind fun _ _ => Calls.always_pure _
  unfold sessionConnect at hmem ⊢
  by_cases htcp : c ∈ (connectTcp P a key timeoutMs).calls
  · obtain ⟨proxy, target, d, addr, request, hproxy, hparse, hrequest, hexchange, hcalls, hd⟩ :=
      calls_connectTcp P hkey htcp hc
    refine ⟨proxy, target, d, addr, request, _, hproxy, hparse, hrequest, hexchange,
      (Calls.calls_bind _ _).trans (by rw [hcalls]), fun c' hc' => ?_⟩
    cases hresult : (connectTcp P a key timeoutMs).result with
    | error e => simp [hresult] at hc'
    | ok d' =>
      obtain rfl := hd d' hresult
      simp only [hresult] at hc'
      exact htls d' c' hc'
  · -- a handshake is not an exchange
    obtain ⟨d, -, hmem, -⟩ := Calls.exists_of_mem_bind hmem htcp
    rw [htls d c hmem] at hc
    cases hc

/-- For the key of a URL, all that `session_connect` writes on a connection in front of a TLS
    handshake is one CONNECT request on a stream that was connected to the proxy of the key.  The
    proxy reads the header fields of its configuration, with a `Host` line if there is none, and the
    credentials can be decoded again.  It does so whether the session is opened or not. -/
theorem proxy_reads_request (a : ConnectAnswers) (input : List UInt8) (url : Url)
    (hparse : Url.parse input = .ok url) (hvisible : url.host.all isVisible = true)
    (proxy : Option ProxyConfig) (hplain : ∀ p ∈ proxy, PlainProxy p) (timeoutMs : UInt32)
    (tlsCtx : Option TlsContext) (d : SocketId) (ops : List ConnectionOp) (accepted : List UInt8)
    (hcall : .exchange d ops accepted ∈
      (sessionConnect P a (.ofUrl url proxy) timeoutMs tlsCtx).calls) :
    ∃ p addr tail payload, proxy = some p ∧
      (sessionConnect P a (.ofUrl url proxy) timeoutMs tlsCtx).calls =
        [.resolve p.host p.port, .connect d addr 0, .exchange d ops accepted] ++ tail ∧
      (∀ c ∈ tail, c = .handshake d url.host) ∧
      ops.filterMap payload? = [payload] ∧
      H1.decode payload = some (tunnelMessage (.ofUrl url proxy) p) ∧ accepted <+: payload ∧
      ∀ auth ∈ p.auth, ∃ value,
        ⟨ascii "Authorization", ascii "Basic " ++ value⟩ ∈
          (tunnelMessage (.ofUrl url proxy) p).headers ∧
        ∀ charArray4, Base64.decode charArray4 value = .ok (credentials auth) := by
  have hkey := parsedKey_ofUrl hparse proxy
  obtain ⟨p, target, d', addr, request, tail, hp, htarget, hrequest, hexchange, hcalls, htail⟩ :=
    calls_of_exchange P hkey hcall rfl
  obtain ⟨rfl, rfl, rfl⟩ := ConnectCall.exchange.inj hexchange
  have hplain := hplain p hp
  -- the request is the one whose bytes are known
  obtain ⟨target', htarget', hhost, hport, hscheme⟩ := parse_targetText hkey
  obtain rfl := Except.ok.inj (htarget'.symm.trans htarget)
  have hr : request.toOutgoingRequest = tunnelRequest target' p := by
    rw [← Except.ok.inj ((connectRequest_eq (fun _ => hplain.length_credentials_lt) a.charArray3
      target').symm.trans hrequest)]
    rfl
  refine ⟨p, addr, tail, request.serializeToH1, hp, hcalls, htail,
    filterMap_requestOps P request _ _, ?_, accepted_prefix _ _, fun auth hauth => ?_⟩
  · rw [hr]
    exact decode_tunnelRequest hhost hport hkey.port_ne hscheme hplain hvisible
  · refine ⟨standardEncode (credentials auth), ?_, fun charArray4 => ?_⟩
    · refine List.mem_append_left _ (List.mem_append_left _ ?_)
      exact List.mem_map.mpr ⟨auth, by simpa using hauth, rfl⟩
    · rw [decode_eq (hplain.auth auth hauth), standardDecode_standardEncode]

/-- A proxy with credentials. -/
def authProxy : ProxyConfig where
  host := ascii "p"
  port := 3128
  auth := some ⟨ascii "u", ascii "w"⟩
  headers := [⟨ascii "X", ascii "y"⟩]

/-- A proxy that accepts the request and closes the connection. -/
def closedByProxy : ConnectAnswers where
  resolve := .ok [⟨"10.0.0.1:3128"⟩]
  socket := .ok 3

theorem plainProxy_authProxy : PlainProxy authProxy :=
  ⟨by decide, by decide, by decide, by decide +kernel⟩

/-- The proxy has read the request when it closes the connection. -/
theorem proxy_reads_request_authProxy :
    let P : Llhttp := ⟨Unit, (), fun _ _ => ((), [], .ok), fun _ => []⟩
    let key : SessionKey := ⟨ascii "a", 443, true, some authProxy⟩
    ∃ d addr ops accepted payload, (sessionConnect P closedByProxy key 5000 none).calls =
        [.resolve (ascii "p") 3128, .connect d addr 0, .exchange d ops accepted] ∧
      ops.filterMap payload? = [payload] ∧ H1.decode payload = some ⟨ascii "CONNECT", ascii "a:443",
        [⟨ascii "Authorization", ascii "Basic dTp3"⟩, ⟨ascii "X", ascii "y"⟩,
          ⟨ascii "Host", ascii "a:443"⟩], []⟩ := by
  intro P key
  have hparse : Url.parse (ascii "https://a/") =
      .ok { scheme := ascii "https", host := ascii "a", path := ascii "/" } := by decide +kernel
  have hany : (sessionConnect P closedByProxy key 5000 none).calls.any isExchange = true := by
    decide +kernel
  have hlength : (sessionConnect P closedByProxy key 5000 none).calls.length = 3 := by
    decide +kernel
  obtain ⟨c, hmem, hc⟩ := List.any_eq_true.mp hany
  cases c with
  | exchange d ops accepted =>
    obtain ⟨p, addr, tail, payload, hp, hcalls, -, hops, hdecode, -⟩ :=
      proxy_reads_request P closedByProxy _ _ hparse (by decide) (some authProxy)
        (by rintro _ ⟨⟩; exact plainProxy_authProxy) 5000 none d ops accepted hmem
    cases hp
    -- the tunnel is not opened, so there is no handshake
    have htail : tail = [] := by
      have := (congrArg List.length hcalls).symm.trans hlength
      simpa using this
    rw [htail, List.append_nil] at hcalls
    exact ⟨d, addr, ops, accepted, payload, hcalls, hops, hdecode⟩
  | _ => cases hc

end Ppnt.Spec
