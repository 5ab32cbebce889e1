import Ppnt.ForStd.Run
import Ppnt.Native.Http2

/-!
# What is received on an HTTP/2 stream

The behaviour of `Http2Session` is specified by what nghttp2 reports for a stream, independently of
what the session does with it: `received s h` is what the callbacks in the history `h` amount to
for the stream `s`.

The first HEADERS frame on a stream belongs to the response, or to an interim response; later ones
are further interim responses, the final response, or trailers.  `Received.final` is the first
header block with a final status.
-/

namespace Ppnt.Spec

open Ppnt.Native

/-- The value of a `:status` field: three digits. -/
def statusValue (value : List UInt8) : Option Nat :=
  if value.length = 3 ∧ value.all (fun b => 48 ≤ b && b ≤ 57) then some (decimalValue value)
  else none

/-- The header block of a final response: its status and its regular fields. -/
def finalResponse (block : List HttpHeader) : Option (Nat × List HttpHeader) :=
  match block.filter fun h => h.name = statusField with
  | [field] =>
    match statusValue field.value with
    | some code =>
      if 200 ≤ code then some (code, block.filter fun h => h.name.head? ≠ some 58) else none
    | none => none
  | _ => none

/-- What has been reported for a stream. -/
structure Received where
  /-- The fields of the header block that is being received. -/
  block : List HttpHeader := []
  /-- The final response, once its HEADERS frame has been processed. -/
  final : Option (Nat × List HttpHeader) := none
  /-- Has a HEADERS frame of category RESPONSE been processed? -/
  responded : Bool := false
  /-- All DATA chunks. -/
  data : List UInt8 := []
  /-- The error code the stream was closed with. -/
  closed : Option Nat := none
deriving DecidableEq, Repr

def Received.next (s : StreamId) (r : Received) : H2Label → Received
  | .onHeader s' name value =>
    if s' = s then { r with block := r.block ++ [⟨name, value⟩] } else r
  | .onFrameRecv s' cat =>
    if s' = s then
      { r with
        block := []
        final := if r.final.isSome then r.final else finalResponse r.block
        responded := r.responded || cat = .response }
    else r
  | .onDataChunkRecv s' data => if s' = s then { r with data := r.data ++ data } else r
  | .onStreamClose s' errorCode => if s' = s then { r with closed := some errorCode } else r
  | _ => r

/-- What the callbacks of a history amount to for one stream. -/
def received (s : StreamId) (h : List H2Label) : Received := h.foldl (Received.next s) {}

@[simp] theorem received_nil (s : StreamId) : received s [] = {} := rfl

theorem received_concat (s : StreamId) (h : List H2Label) (l : H2Label) :
    received s (h ++ [l]) = (received s h).next s l := by
  simp [received]

/-! ## The session's updates -/

attribute [simp] Http2Session.setContext Http2Session.setRequest Http2Session.setBody
  Http2Session.erase Http2Session.setNghttp2 Function.update_apply

section Updates

variable (σ : Http2Session) (s s' : StreamId) (success : Bool)

@[simp] theorem wakeHeader_contexts :
    (σ.wakeHeader s success).contexts s' =
      if s' = s then { σ.contexts s with headerWaker := false } else σ.contexts s' := by
  unfold Http2Session.wakeHeader
  split
  · simp
  · by_cases hs : s' = s
    · subst hs
      -- nothing is installed, so clearing the waker changes nothing
      cases hctx : σ.contexts s'
      simp_all
    · simp [hs]

@[simp] theorem wakeHeader_requests :
    (σ.wakeHeader s success).requests s' =
      if s' = s ∧ (σ.contexts s).headerWaker = true then some (.resumed success)
      else σ.requests s' := by
  unfold Http2Session.wakeHeader
  split
  · simp_all
  · simp_all

@[simp] theorem wakeHeader_rest :
    (σ.wakeHeader s success).streams = σ.streams ∧
      (σ.wakeHeader s success).bodies = σ.bodies ∧
      (σ.wakeHeader s success).nghttp2 = σ.nghttp2 ∧
      (σ.wakeHeader s success).driverExited = σ.driverExited := by
  unfold Http2Session.wakeHeader
  split <;> simp

@[simp] theorem wakeBody_contexts :
    (σ.wakeBody s).contexts s' =
      if s' = s then
        { σ.contexts s with
          bodyWaker := none
          bodyBuffer :=
            if (σ.contexts s).bodyWaker.isSome then [] else (σ.contexts s).bodyBuffer }
      else σ.contexts s' := by
  unfold Http2Session.wakeBody
  split
  case h_1 c hc => simp [hc]
  case h_2 hc =>
    by_cases hs : s' = s
    · subst hs
      cases hctx : σ.contexts s'
      simp_all
    · simp [hs]

@[simp] theorem wakeBody_bodies (c : CallId) :
    (σ.wakeBody s).bodies c =
      if (σ.contexts s).bodyWaker = some c then some (s, .resumed (σ.contexts s).bodyBuffer)
      else σ.bodies c := by
  unfold Http2Session.wakeBody
  split
  case h_1 c' hc =>
    by_cases h : c = c'
    · simp [hc, h]
    · simp [hc, h, Ne.symm h]
  case h_2 hc => simp [hc]

@[simp] theorem wakeBody_rest :
    (σ.wakeBody s).streams = σ.streams ∧ (σ.wakeBody s).requests = σ.requests ∧
      (σ.wakeBody s).nghttp2 = σ.nghttp2 ∧ (σ.wakeBody s).driverExited = σ.driverExited := by
  unfold Http2Session.wakeBody
  split <;> simp

end Updates

/-! ## Header fields -/

/-- The regular fields of a block, as `on_header_callback` keeps them. -/
def regularFields (block : List HttpHeader) : List HttpHeader :=
  block.filter fun h => h.name.head? ≠ some 58

/-- What `on_header_callback` makes of the status fields of a block. -/
def parsedStatus (block : List HttpHeader) : Int :=
  (block.filter fun h => h.name = statusField).foldl (fun n h => fromChars h.value n) (-1)

@[simp] theorem onHeader_rest (ctx : Http2StreamContext) (name value : List UInt8) :
    (ctx.onHeader name value).headerWaker = ctx.headerWaker ∧
      (ctx.onHeader name value).bodyWaker = ctx.bodyWaker ∧
      (ctx.onHeader name value).bodyBuffer = ctx.bodyBuffer ∧
      (ctx.onHeader name value).streamClosed = ctx.streamClosed := by
  unfold Http2StreamContext.onHeader
  split <;> [skip; split] <;> simp

theorem onHeader_fields {ctx : Http2StreamContext} {block : List HttpHeader}
    (hstatus : ctx.statusCode = parsedStatus block) (hfields : ctx.headers = regularFields block)
    (name value : List UInt8) :
    (ctx.onHeader name value).statusCode = parsedStatus (block ++ [⟨name, value⟩]) ∧
      (ctx.onHeader name value).headers = regularFields (block ++ [⟨name, value⟩]) := by
  by_cases hname : name = statusField
  · simp [Http2StreamContext.onHeader, hname, parsedStatus, regularFields, statusField,
      hstatus, hfields]
  · by_cases hcolon : name.head? = some 58
    · simp [Http2StreamContext.onHeader, hname, hcolon, parsedStatus, regularFields, hstatus,
        hfields]
    · simp [Http2StreamContext.onHeader, hname, hcolon, parsedStatus, regularFields, hstatus,
        hfields]

/-- A status of three digits is parsed as it should be. -/
private theorem fromChars_of_statusValue {value : List UInt8} {code : Nat}
    (h : statusValue value = some code) (old : Int) : fromChars value old = code := by
  simp only [statusValue] at h
  split at h
  case isFalse => simp at h
  case isTrue hv =>
    obtain ⟨hlen, hdigits⟩ := hv
    obtain rfl := Option.some.inj h
    match value, hlen with
    | [a, b, c], _ =>
      simp only [List.all_cons, List.all_nil, Bool.and_true, Bool.and_eq_true,
        decide_eq_true_eq] at hdigits
      have hlead : leadingDigits [a, b, c] = [a, b, c] := by
        simp [leadingDigits, hdigits]
      simp only [UInt8.le_iff_toNat_le] at hdigits
      have hminus : a ≠ 45 := by
        rintro rfl
        simp at hdigits
      -- three digits do not overflow
      have hsmall : decimalValue [a, b, c] < 1000 := by
        simp only [decimalValue, List.foldl_cons, List.foldl_nil]
        have h57 : (57 : UInt8).toNat = 57 := rfl
        omega
      simp only [fromChars, List.head?_cons, Option.some.injEq, hminus, if_false, hlead]
      rw [if_neg]
      simp
      omega

/-- A block with a final status is read off correctly. -/
theorem finalResponse_eq {block : List HttpHeader} {code : Nat} {hs : List HttpHeader}
    (h : finalResponse block = some (code, hs)) :
    parsedStatus block = code ∧ regularFields block = hs := by
  simp only [finalResponse] at h
  split at h
  case h_2 => simp at h
  case h_1 field hfield =>
    split at h
    case h_2 => simp at h
    case h_1 n hn =>
      split at h
      case isFalse => simp at h
      case isTrue =>
        obtain ⟨rfl, rfl⟩ := Prod.mk.inj (Option.some.inj h)
        refine ⟨?_, rfl⟩
        rw [parsedStatus, hfield, List.foldl_cons, List.foldl_nil, fromChars_of_statusValue hn]

end Ppnt.Spec
