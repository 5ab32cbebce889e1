import Ppnt.ForStd.Calls
import Ppnt.Native.Base64
import Ppnt.Native.HttpClient
import Ppnt.Native.RequestPipeline

/-!
# Opening a session

Model of `session_connect` and `make_proxy_stream` (`ppnt-http/src/session.cpp`), with what they use
of `ProxyAuth` (`ppnt-http/src/proxy.ixx`), `resolve_first` (`ppnt-io/src/net/addr.ixx`),
`TcpStream::connect` (`ppnt-io/src/net/tcp_stream.ixx`), `TlsContext::client` and
`TlsStream::connect` (`ppnt-io/src/net/ssl.ixx`).  The key of a request is that of
`HttpClient::request` (`ppnt-http/src/client.cpp`).

The functions give the calls that leave the program, in their order, and their result.  What the
calls answer is a parameter: each of them is made at most once.  The exchange with a proxy is one
entry, with the operations of `Http1Session::request` and the bytes that the connection has
accepted.
-/

namespace Ppnt.Native

/-- The key that `HttpClient::request` makes. -/
def SessionKey.ofUrl (url : Url) (proxy : Option ProxyConfig) : SessionKey where
  host := url.host
  port := url.portOrDefault
  isSsl := url.scheme = ascii "https"
  proxy := proxy

/-! ## Calls and answers -/

/-- A `SocketAddress`, as it is printed. -/
structure SocketAddress where
  text : String
deriving DecidableEq, Repr

/-- `ConnectFailure.undefined` is no error that is returned, but undefined behaviour of
    `Base64::encode`. -/
inductive ConnectFailure where
  | error (e : Error)
  | undefined (failure : Base64.Failure)
deriving DecidableEq, Repr

inductive ConnectCall where
  | resolve (host : List UInt8) (port : Int)
  | connect (socket : SocketId) (addr : SocketAddress) (timeoutMs : UInt32)
  | closeFd (socket : SocketId)
  | exchange (socket : SocketId) (ops : List ConnectionOp) (accepted : List UInt8)
  | handshake (socket : SocketId) (hostName : List UInt8)
deriving DecidableEq, Repr

/-- What the SSL library answers: whether its constructors succeed, the result of the handshake and
    the protocol that was selected, empty if there is none. -/
structure TlsAnswers where
  sslCtxNew : Bool := true
  setCipherList : Bool := true
  sslNew : Bool := true
  setAlpnProtos : Bool := true
  newSpec : Bool := true
  bioPair : Bool := true
  handshake : Except Error Unit := .ok ()
  alpnSelected : List UInt8 := []

/-- `charArray3` is the memory that `Base64::encode` finds. -/
structure ConnectAnswers where
  resolve : Except Error (List SocketAddress)
  socket : Except Nat SocketId
  connect : Except Error Unit := .ok ()
  charArray3 : Vector UInt8 3 := .replicate 3 0
  write : Write := .ok 0
  reads : List Read := []
  tls : TlsAnswers := {}

abbrev ConnectM := Calls ConnectCall ConnectFailure

/-- Go on with a `Result`. -/
def ConnectM.ofResult {α : Type} (r : Except Error α) : ConnectM α := .ofExcept (r.mapError .error)

def ConnectM.error {α : Type} (ec : Errc) (message : String) : ConnectM α :=
  .fail (.error ⟨ec, message⟩)

/-! ## Streams -/

def Errc.notEnoughMemory : Errc := .system 12
def Errc.protocolError : Errc := .system 71
def Errc.destinationAddressRequired : Errc := .system 89
def Errc.wrongProtocolType : Errc := .system 91

/-- `resolve_first`, given what the resolver finds. -/
def resolveFirst : Except Error (List SocketAddress) → Except Error SocketAddress
  | .error e => .error e
  | .ok [] => makeErrResult .destinationAddressRequired ""
  | .ok (addr :: _) => .ok addr

def TcpStream.connect (a : ConnectAnswers) (addr : SocketAddress) (timeoutMs : UInt32) :
    ConnectM SocketId :=
  match a.socket with
  | .error errno => .error (.system errno) ""
  | .ok d => do
    .call (.connect d addr timeoutMs)
    match a.connect with
    | .ok () => pure d
    | .error cause => do
      .call (.closeFd d)
      .error cause.ec ("cannot connect to " ++ addr.text)

structure TlsContext where
  specFactory : Bool
deriving DecidableEq, Repr

/-- `TlsContext::client`, without a factory. -/
def TlsContext.client (tls : TlsAnswers) : ConnectM TlsContext :=
  if !tls.sslCtxNew then .error .protocolError ""
  else if !tls.setCipherList then .error .wrongProtocolType "SSL_CTX_set_cipher_list ALL failed"
  else pure ⟨false⟩

def isH2Negotiated (alpnSelected : List UInt8) : Bool := alpnSelected = ascii "h2"

/-- `TlsStream::connect` with a handshake, and `is_h2` of the stream.  No path closes the inner
    stream. -/
def TlsStream.connect (tls : TlsAnswers) (ctx : TlsContext) (d : SocketId) (hostName : List UInt8) :
    ConnectM Bool :=
  if !tls.sslNew then .error .notEnoughMemory "tls connect"
  else if !tls.setAlpnProtos then .error .invalidArgument "SSL_set_alpn_protos"
  else if ctx.specFactory && !tls.newSpec then .error .notEnoughMemory "alloc tls spec"
  else if !tls.bioPair then .error .ioError "tls connect: cant create bio pare"
  else do
    .call (.handshake d hostName)
    ConnectM.ofResult tls.handshake
    pure (isH2Negotiated tls.alpnSelected)

/-! ## The proxy -/

namespace ProxyAuth

def basicAuthValue (charArray3 : Vector UInt8 3) (auth : ProxyAuth) :
    Except Base64.Failure (List UInt8) :=
  (Base64.encode charArray3 (auth.username ++ ascii ":" ++ auth.password)).map (ascii "Basic " ++ ·)

def basicHeader (charArray3 : Vector UInt8 3) (auth : ProxyAuth) :
    Except Base64.Failure HttpHeader :=
  (auth.basicAuthValue charArray3).map fun value => ⟨ascii "Authorization", value⟩

end ProxyAuth

/-- The header that `make_proxy_stream` adds for the credentials. -/
def ProxyConfig.authHeaders (charArray3 : Vector UInt8 3) (proxy : ProxyConfig) :
    Except Base64.Failure (List HttpHeader) :=
  match proxy.auth with
  | none => .ok []
  | some auth => (auth.basicHeader charArray3).map fun header => [header]

/-- The request of `make_proxy_stream`, behind the move into `request`. -/
def connectRequest (charArray3 : Vector UInt8 3) (target : Url) (proxy : ProxyConfig) :
    Except Base64.Failure TimedRequest :=
  (proxy.authHeaders charArray3).map fun auth =>
    let request : TimedRequest :=
      { url := target, method := ascii "CONNECT", headers := auth ++ proxy.headers }
    request.moveConstruct

variable (P : Llhttp)

/-- `make_proxy_stream`.  The connection to the proxy has no timeout. -/
def makeProxyStream (a : ConnectAnswers) (target : Url) (proxy : ProxyConfig) :
    ConnectM SocketId := do
  .call (.resolve proxy.host proxy.port)
  let addr ← ConnectM.ofResult (resolveFirst a.resolve)
  let d ← TcpStream.connect a addr 0
  let request ← .ofExcept ((connectRequest a.charArray3 target proxy).mapError .undefined)
  let sent := sendRequest request.toOutgoingRequest a.write
  .call (.exchange d (Http1Session.requestOps P request sent.1 a.reads) sent.2)
  let _ ← ConnectM.ofResult
    (Http1Session.makeProxyStream (H1Session.resetState P clientStart) sent.1 a.reads)
  pure d

/-! ## Sessions -/

/-- `session_connect` up to its `TcpStream`. -/
def connectTcp (a : ConnectAnswers) (key : SessionKey) (timeoutMs : UInt32) : ConnectM SocketId :=
  match key.proxy with
  | some proxy => do
    let target ← ConnectM.ofResult
      (Url.parse (ascii "http://" ++ key.host ++ ascii ":" ++ formatInt key.port))
    makeProxyStream P a target proxy
  | none => do
    .call (.resolve key.host key.port)
    let addr ← ConnectM.ofResult (resolveFirst a.resolve)
    TcpStream.connect a addr timeoutMs

/-- The TLS part of `session_connect`: does the session use HTTP/2? -/
def connectTls (a : ConnectAnswers) (key : SessionKey) (tlsCtx : Option TlsContext) (d : SocketId) :
    ConnectM Bool :=
  if key.isSsl then
    match tlsCtx with
    | some ctx => TlsStream.connect a.tls ctx d key.host
    | none => do
      let ctx ← TlsContext.client a.tls
      TlsStream.connect a.tls ctx d key.host
  else pure false

def sessionConnect (a : ConnectAnswers) (key : SessionKey) (timeoutMs : UInt32)
    (tlsCtx : Option TlsContext) : ConnectM AnySession := do
  let d ← connectTcp P a key timeoutMs
  let useH2 ← connectTls a key tlsCtx d
  pure ⟨if useH2 then .http2 else .http11, key, d⟩

end Ppnt.Native
