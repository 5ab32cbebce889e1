import Mathlib.Logic.Function.Basic
import Ppnt.Native.Err
import Ppnt.Native.HttpRequest

/-!
# HTTP/2 session

Model of `Http2Session` (`ppnt-http/src/http2.ixx`) as a transition system.  Everything runs on
one event loop, so a step is what happens between two suspension points: a coroutine of `request`
or `body_full` up to its next `co_await`, one nghttp2 callback inside the driver's
`nghttp2_session_mem_recv`, or the driver's tear-down.  A waker does not run the continuation but
posts it (`SuspendCoroutineAwaiter`), so waking and resuming are two steps.

Stream contexts are shared between `streams_` and the coroutines and outlive their entry in
`streams_`.  nghttp2 numbers the streams of a session and never reuses a number.
-/

namespace Ppnt.Native

abbrev StreamId := Nat

/-- A call of `body_full`. -/
abbrev CallId := Nat

/-- `Http2StreamContext`.  `headerWaker` holds the continuation of the stream's `request`, and
    `bodyWaker` that of a `body_full` call. -/
structure Http2StreamContext where
  statusCode : Int := -1
  headers : List HttpHeader := []
  bodyBuffer : List UInt8 := []
  headerComplete : Bool := false
  streamClosed : Bool := false
  headerWaker : Bool := false
  bodyWaker : Option CallId := none
deriving DecidableEq, Repr

/-- What `request` puts into its `HttpResponse`. -/
structure H2Response where
  id : StreamId
  statusCode : Int
  headers : List HttpHeader
deriving DecidableEq, Repr

/-- Where a `request` coroutine is: suspended inside `flush_writes`, suspended on `header_waker`,
    posted with the value passed to the waker, or returned. -/
inductive RequestPhase where
  | flushing
  | suspended
  | resumed (success : Bool)
  | returned (result : Except Error H2Response)
deriving DecidableEq, Repr

/-- Where a `body_full` coroutine is. -/
inductive BodyPhase where
  | suspended
  | resumed (data : List UInt8)
  | returned (result : Except Error (List UInt8))
deriving DecidableEq, Repr

/-- nghttp2's state of a client stream.  `opening` ends with the first HEADERS frame. -/
inductive NgStream where
  | idle
  | opening
  | opened
  | closed
deriving DecidableEq, Repr

/-- `nghttp2_headers_category` of a HEADERS frame a client receives. -/
inductive HeadersCategory where
  | response
  | headers
deriving DecidableEq, Repr

structure Http2Session where
  streams : StreamId → Bool
  contexts : StreamId → Http2StreamContext
  requests : StreamId → Option RequestPhase
  bodies : CallId → Option (StreamId × BodyPhase)
  nghttp2 : StreamId → NgStream
  driverExited : Bool

inductive H2Label where
  | submit (s : StreamId)
  | flushed (s : StreamId)
  | flushFailed (s : StreamId)
  | resume (s : StreamId)
  | bodyFull (c : CallId) (s : StreamId)
  | bodyResume (c : CallId)
  | onHeader (s : StreamId) (name value : List UInt8)
  | onFrameRecv (s : StreamId) (cat : HeadersCategory)
  | onDataChunkRecv (s : StreamId) (data : List UInt8)
  | onStreamClose (s : StreamId) (errorCode : Nat)
  | driverExit
deriving DecidableEq, Repr

/-- A call of one of the four callbacks.  `isHeaders` says whether the frame is a HEADERS frame. -/
inductive StreamCallback where
  | onHeader (s : StreamId) (isHeaders : Bool) (name value : List UInt8)
  | onDataChunkRecv (s : StreamId) (data : List UInt8)
  | onStreamClose (s : StreamId) (errorCode : Nat)
  | onFrameRecv (s : StreamId) (isHeaders : Bool) (cat : HeadersCategory)
deriving DecidableEq, Repr

/-- An invocation of a waker with its argument. -/
inductive Invocation where
  | headerWaker (s : StreamId) (success : Bool)
  | bodyWaker (s : StreamId) (c : CallId) (data : List UInt8)
deriving DecidableEq, Repr

def StreamCallback.stream : StreamCallback → StreamId
  | .onHeader s _ _ _ | .onDataChunkRecv s _ | .onStreamClose s _ | .onFrameRecv s _ _ => s

/-! ## Requests -/

/-- What `nghttp2_submit_request` gets: the field list, and the data of the data provider if there
    is one. -/
structure H2Submission where
  fields : List HttpHeader
  data : Option (List UInt8)
deriving DecidableEq, Repr

/-- `request` up to `nghttp2_submit_request`.  The view of `:scheme` is one of a temporary that is
    gone when nghttp2 reads it, so `scheme` is whatever its memory holds then. -/
def submitRequest (scheme : List UInt8) (r : OutgoingRequest) : H2Submission where
  fields :=
    [⟨ascii ":method", r.method⟩, ⟨ascii ":scheme", scheme⟩,
      ⟨ascii ":path", if r.url.path = [] then ascii "/" else r.url.path⟩,
      ⟨ascii ":authority", (headerGet r.headers (ascii "host")).getD r.url.host⟩] ++
    (r.headers.filter fun h =>
      !(ignoreCaseEqual h.name (ascii "host") || ignoreCaseEqual h.name (ascii "connection") ||
        ignoreCaseEqual h.name (ascii "keep-alive") ||
        ignoreCaseEqual h.name (ascii "upgrade"))).map fun h =>
      ⟨toLowerAsciiStr h.name, h.value⟩
  data := none

/-! ## Callbacks -/

/-- `:status` -/
def statusField : List UInt8 := [58, 115, 116, 97, 116, 117, 115]

namespace Http2StreamContext

/-- `on_header_callback` on a registered stream. -/
def onHeader (ctx : Http2StreamContext) (name value : List UInt8) : Http2StreamContext :=
  if name = statusField then { ctx with statusCode := fromChars value ctx.statusCode }
  else if name.head? ≠ some 58 then { ctx with headers := ctx.headers ++ [⟨name, value⟩] }
  else ctx

/-- What `request` returns when its continuation runs. -/
def finish (ctx : Http2StreamContext) (s : StreamId) (success : Bool) :
    Except Error H2Response :=
  if !success || (ctx.streamClosed && ctx.statusCode = -1) then
    makeErrResult .connectionAborted "Stream closed or failed"
  else .ok ⟨s, ctx.statusCode, ctx.headers⟩

end Http2StreamContext

namespace Http2Session

/-- Replace the context of a stream. -/
def setContext (σ : Http2Session) (s : StreamId) (ctx : Http2StreamContext) : Http2Session :=
  { σ with contexts := Function.update σ.contexts s ctx }

def setRequest (σ : Http2Session) (s : StreamId) (phase : RequestPhase) : Http2Session :=
  { σ with requests := Function.update σ.requests s (some phase) }

def setBody (σ : Http2Session) (c : CallId) (s : StreamId) (phase : BodyPhase) : Http2Session :=
  { σ with bodies := Function.update σ.bodies c (some (s, phase)) }

/-- `streams_.erase(stream_id)`. -/
def erase (σ : Http2Session) (s : StreamId) : Http2Session :=
  { σ with streams := Function.update σ.streams s false }

def setNghttp2 (σ : Http2Session) (s : StreamId) (st : NgStream) : Http2Session :=
  { σ with nghttp2 := Function.update σ.nghttp2 s st }

/-- `if (ctx->header_waker) { ...; waker(success); }` -/
def wakeHeader (σ : Http2Session) (s : StreamId) (success : Bool) : Http2Session :=
  if (σ.contexts s).headerWaker then
    (σ.setContext s { σ.contexts s with headerWaker := false }).setRequest s (.resumed success)
  else σ

/-- `if (ctx->body_waker) { ...; waker(std::move(ctx->body_buffer)); }` -/
def wakeBody (σ : Http2Session) (s : StreamId) : Http2Session :=
  match (σ.contexts s).bodyWaker with
  | some c =>
    (σ.setContext s { σ.contexts s with bodyWaker := none, bodyBuffer := [] }).setBody c s
      (.resumed (σ.contexts s).bodyBuffer)
  | none => σ

/-- `on_frame_recv_callback` for a HEADERS frame. -/
def onFrameRecv (σ : Http2Session) (s : StreamId) (cat : HeadersCategory) : Http2Session :=
  if cat = .response && σ.streams s then
    (σ.setContext s { σ.contexts s with headerComplete := true }).wakeHeader s true
  else σ

/-- `on_stream_close_callback`. -/
def onStreamClose (σ : Http2Session) (s : StreamId) : Http2Session :=
  if σ.streams s then
    ((σ.setContext s { σ.contexts s with streamClosed := true, headerComplete := true }).wakeHeader
      s false).wakeBody s
  else σ

/-- The loop behind the driver's main loop.  Each iteration only touches its own stream. -/
def tearDown (σ : Http2Session) : Http2Session where
  streams _ := false
  contexts s :=
    if σ.streams s then
      { σ.contexts s with
        streamClosed := true
        headerWaker := false
        bodyWaker := none
        bodyBuffer :=
          if (σ.contexts s).bodyWaker.isSome then [] else (σ.contexts s).bodyBuffer }
    else σ.contexts s
  requests s :=
    if σ.streams s && (σ.contexts s).headerWaker then some (.resumed false) else σ.requests s
  bodies c :=
    match σ.bodies c with
    | some (s, phase) =>
      if σ.streams s && (σ.contexts s).bodyWaker = some c then
        some (s, .resumed (σ.contexts s).bodyBuffer)
      else some (s, phase)
    | none => none
  nghttp2 := σ.nghttp2
  driverExited := true

/-! ## Callbacks and what they invoke -/

/-- What `wakeHeader` invokes. -/
def invokedHeader (σ : Http2Session) (s : StreamId) (success : Bool) : List Invocation :=
  if (σ.contexts s).headerWaker then [.headerWaker s success] else []

/-- What `wakeBody` invokes. -/
def invokedBody (σ : Http2Session) (s : StreamId) : List Invocation :=
  match (σ.contexts s).bodyWaker with
  | some c => [.bodyWaker s c (σ.contexts s).bodyBuffer]
  | none => []

/-- A callback, with the wakers that it invokes in order. -/
def onCallback (σ : Http2Session) : StreamCallback → Http2Session × List Invocation
  | .onHeader s isHeaders name value =>
    (if isHeaders && σ.streams s then σ.setContext s ((σ.contexts s).onHeader name value) else σ,
      [])
  | .onDataChunkRecv s data =>
    (if σ.streams s then
      σ.setContext s { σ.contexts s with bodyBuffer := (σ.contexts s).bodyBuffer ++ data }
    else σ, [])
  | .onStreamClose s _ =>
    (σ.onStreamClose s,
      if σ.streams s then σ.invokedHeader s false ++ σ.invokedBody s else [])
  | .onFrameRecv s isHeaders cat =>
    (if isHeaders then σ.onFrameRecv s cat else σ,
      if isHeaders && cat = .response && σ.streams s then σ.invokedHeader s true else [])

/-- A sequence of callbacks, with all invocations. -/
def runCallbacks (σ : Http2Session) : List StreamCallback → Http2Session × List Invocation
  | [] => (σ, [])
  | cb :: cbs =>
    (((σ.onCallback cb).1.runCallbacks cbs).1,
      (σ.onCallback cb).2 ++ ((σ.onCallback cb).1.runCallbacks cbs).2)

/-! ## Steps -/

/-- `body_full` up to its suspension, for a response of stream `s`. -/
def bodyFull (σ : Http2Session) (c : CallId) (s : StreamId) : Http2Session :=
  if σ.streams s then
    if (σ.contexts s).streamClosed then
      ((σ.setContext s { σ.contexts s with bodyBuffer := [] }).erase s).setBody c s
        (.returned (.ok (σ.contexts s).bodyBuffer))
    else (σ.setContext s { σ.contexts s with bodyWaker := some c }).setBody c s .suspended
  else σ.setBody c s (.returned (makeErrResult .invalidArgument "Stream id not found"))

/-- One step.  Callbacks only come from the running driver and, for each stream, in the order of
    nghttp2's stream states; only a stream that this side resets is closed by
    `nghttp2_session_mem_send`, which `request` calls too.  `body_full` is called on a response that
    `request` returned. -/
def step (σ : Http2Session) : H2Label → Option Http2Session
  | .submit s =>
    if σ.requests s = none ∧ σ.nghttp2 s = .idle then
      some (({ σ with streams := Function.update σ.streams s true }.setContext s {}).setRequest s
        .flushing |>.setNghttp2 s .opening)
    else none
  | .flushed s =>
    if σ.requests s = some .flushing then
      some ((σ.setContext s { σ.contexts s with headerWaker := true }).setRequest s .suspended)
    else none
  | .flushFailed s =>
    if σ.requests s = some .flushing then
      -- the stream is erased, so later callbacks find no context
      some ((σ.erase s).setRequest s (.returned (makeErrResult .ioError "Failed to send request")))
    else none
  | .resume s =>
    match σ.requests s with
    | some (.resumed success) =>
      match (σ.contexts s).finish s success with
      | .error e => some ((σ.erase s).setRequest s (.returned (.error e)))
      | .ok response =>
        some ((σ.setContext s { σ.contexts s with headers := [] }).setRequest s
          (.returned (.ok response)))
    | _ => none
  | .bodyFull c s =>
    match σ.requests s, σ.bodies c with
    | some (.returned (.ok _)), none => some (σ.bodyFull c s)
    | _, _ => none
  | .bodyResume c =>
    match σ.bodies c with
    | some (s, .resumed data) => some ((σ.erase s).setBody c s (.returned (.ok data)))
    | _ => none
  | .onHeader s name value =>
    if !σ.driverExited ∧ (σ.nghttp2 s = .opening ∨ σ.nghttp2 s = .opened) then
      -- the callback returns early for a stream that is not in `streams_`
      some (if σ.streams s then σ.setContext s ((σ.contexts s).onHeader name value) else σ)
    else none
  | .onFrameRecv s cat =>
    if !σ.driverExited ∧ σ.nghttp2 s = (if cat = .response then .opening else .opened) then
      some ((σ.onFrameRecv s cat).setNghttp2 s .opened)
    else none
  | .onDataChunkRecv s data =>
    if !σ.driverExited ∧ σ.nghttp2 s = .opened then
      some (if σ.streams s then
        σ.setContext s { σ.contexts s with bodyBuffer := (σ.contexts s).bodyBuffer ++ data }
      else σ)
    else none
  | .onStreamClose s errorCode =>
    if (!σ.driverExited ∨ errorCode ≠ 0) ∧ (σ.nghttp2 s = .opening ∨ σ.nghttp2 s = .opened) then
      some ((σ.onStreamClose s).setNghttp2 s .closed)
    else none
  | .driverExit => if σ.driverExited then none else some σ.tearDown

/-- A new session. -/
def initial : Http2Session where
  streams _ := false
  contexts _ := {}
  requests _ := none
  bodies _ := none
  nghttp2 _ := .idle
  driverExited := false

end Http2Session

end Ppnt.Native
