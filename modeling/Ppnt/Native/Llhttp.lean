import Ppnt.ForStd.Spans

/-!
# The interface of llhttp

llhttp (`third-party/llhttp`) is a generated parser and is not modelled: the sessions are stated
over any parser with its interface.  The callbacks the sessions install all return 0, so they never
influence the parser, and `llhttp_execute` can be described by the list of callbacks it makes.  The
functions of `http.c`, which decide what follows a header section and whether a connection may be
used again, are modelled over the members of `llhttp_t` that they read.
-/

namespace Ppnt.Native

/-- The `llhttp_data_cb` members of `llhttp_settings_t` that a session installs.  `on_status`
    handlers read `parser->status_code`, which is part of the callback here. -/
inductive DataCb where
  | onUrl
  | onStatus (statusCode : Nat)
  | onHeaderField
  | onHeaderValue
  | onBody
deriving DecidableEq, Repr

/-- The `llhttp_cb` members that a session installs and that do anything. -/
inductive Cb where
  | onHeadersComplete
  | onMessageComplete
deriving DecidableEq, Repr

/-- One call of a callback. -/
abbrev Callback := Spans.Event DataCb Cb

/-- `llhttp_errno`: `HPE_OK`, or an error with its `llhttp_errno_name`. -/
inductive LlhttpErrno where
  | ok
  | error (name : String)
deriving DecidableEq, Repr

/-- A parser with llhttp's interface. -/
structure Llhttp where
  State : Type
  /-- The state behind `llhttp_init` and `llhttp_reset`. -/
  init : State
  /-- `llhttp_execute`: new state, callbacks in order, result. -/
  execute : State → List UInt8 → State × List Callback × LlhttpErrno
  /-- `llhttp_method_name(parser->method)`. -/
  methodName : State → List UInt8

/-! ## `http.c` -/

/-- `llhttp_type`. -/
inductive LlhttpType where
  | request
  | response
deriving DecidableEq, Repr

/-- The bits of `flags` that `http.c` looks at. -/
structure LlhttpFlags where
  connectionKeepAlive : Bool := false
  connectionClose : Bool := false
  connectionUpgrade : Bool := false
  chunked : Bool := false
  upgrade : Bool := false
  contentLength : Bool := false
  skipbody : Bool := false
  transferEncoding : Bool := false
deriving DecidableEq, Repr

/-- `HTTP_CONNECT`. -/
def httpConnect : Nat := 5

/-- The members of `llhttp_t` that `http.c` looks at.  `lenient_flags` is 0. -/
structure LlhttpFields where
  type : LlhttpType
  method : Nat := 0
  httpMajor : Nat := 1
  httpMinor : Nat := 1
  statusCode : Nat := 0
  flags : LlhttpFlags := {}
  contentLength : Nat := 0
  upgrade : Bool := false
deriving DecidableEq, Repr

/-- The result of `llhttp__after_headers_complete`, 0 to 5. -/
inductive AfterHeaders where
  | noBody
  | otherProtocol
  | chunkSizeStart
  | bodyIdentity
  | bodyIdentityEof
  | invalidTransferEncoding
deriving DecidableEq, Repr

namespace LlhttpFields

/-- `llhttp__before_headers_complete`. -/
def beforeHeadersComplete (p : LlhttpFields) : LlhttpFields :=
  { p with
    upgrade :=
      if p.flags.upgrade && p.flags.connectionUpgrade then p.type = .request || p.statusCode = 101
      else p.method = httpConnect }

/-- `llhttp_message_needs_eof`. -/
def messageNeedsEof (p : LlhttpFields) : Bool :=
  if p.type = .request then false
  else if p.statusCode / 100 = 1 || p.statusCode = 204 || p.statusCode = 304 ||
      p.flags.skipbody then
    false
  else if p.flags.transferEncoding && !p.flags.chunked then true
  else if p.flags.chunked || p.flags.contentLength then false
  else true

/-- `llhttp__after_headers_complete`. -/
def afterHeadersComplete (p : LlhttpFields) : AfterHeaders :=
  let hasBody := p.flags.chunked || p.contentLength > 0
  if p.upgrade && (p.method = httpConnect || p.flags.skipbody || !hasBody) ||
      p.type = .response && p.statusCode = 101 then .otherProtocol
  else if p.type = .response && p.statusCode = 100 then .noBody
  else if p.flags.skipbody ||
      p.type = .response && (p.statusCode = 102 || p.statusCode = 103 || p.statusCode = 204 ||
        p.statusCode = 304) then .noBody
  else if p.flags.chunked then .chunkSizeStart
  else if p.flags.transferEncoding then
    if p.type = .request then .invalidTransferEncoding else .bodyIdentityEof
  else if !p.flags.contentLength then
    if !p.messageNeedsEof then .noBody else .bodyIdentityEof
  else if p.contentLength = 0 then .noBody
  else .bodyIdentity

/-- `llhttp_should_keep_alive`. -/
def shouldKeepAlive (p : LlhttpFields) : Bool :=
  if p.httpMajor > 0 && p.httpMinor > 0 then
    if p.flags.connectionClose then false else !p.messageNeedsEof
  else if !p.flags.connectionKeepAlive then false
  else !p.messageNeedsEof

/-- `llhttp__after_message_complete`. -/
def afterMessageComplete (p : LlhttpFields) : LlhttpFields := { p with flags := {} }

end LlhttpFields

/-- A parser with llhttp's interface, and the members that `http.c` looks at. -/
structure LlhttpParser extends Llhttp where
  fields : State → LlhttpFields

end Ppnt.Native
