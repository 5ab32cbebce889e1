import Mathlib.Data.List.DropRight
import Ppnt.Native.Http1
import Ppnt.Spec.UtilCorrect

/-!
# HTTP/1.1 messages

Well-formed requests and responses by the grammar of RFC 9110 and RFC 9112: characters, header
lines, the framing of a body and how the header fields announce it.  Line folding is left out, as it
is obsolete.

A few fields are also read by llhttp, with rules of its own.  `fieldValues` are the values as llhttp
reports them, with the white space behind them.  `listsToken` reads such a value as the RFC says,
`connectionFlag` as llhttp does.
-/

namespace Ppnt.Spec

open Ppnt.Native

/-! ## Characters -/

def crlf : List UInt8 := [13, 10]

/-- `tchar`: visible ASCII but for the delimiters. -/
def isTchar (b : UInt8) : Bool :=
  33 ≤ b && b ≤ 126 &&
    b ∉ [34, 40, 41, 44, 47, 58, 59, 60, 61, 62, 63, 64, 91, 92, 93, 123, 125]

/-- `VCHAR` or `obs-text`. -/
def isVisible (b : UInt8) : Bool := 33 ≤ b && b ≠ 127

/-- Optional white space: a blank or a tab. -/
def isOws (b : UInt8) : Bool := b = 32 || b = 9

def isFieldByte (b : UInt8) : Bool := isVisible b || isOws b

/-- The text between the white space around it. -/
def trimOws (bs : List UInt8) : List UInt8 := (bs.dropWhile isOws).rdropWhile isOws

def IsToken (bs : List UInt8) : Prop := bs ≠ [] ∧ bs.all isTchar = true

instance (bs : List UInt8) : Decidable (IsToken bs) := inferInstanceAs (Decidable (_ ∧ _))

def IsTarget (bs : List UInt8) : Prop := bs ≠ [] ∧ bs.all isVisible = true

instance (bs : List UInt8) : Decidable (IsTarget bs) := inferInstanceAs (Decidable (_ ∧ _))

def IsFieldValue (bs : List UInt8) : Prop := bs.all isFieldByte = true ∧ trimOws bs = bs

instance (bs : List UInt8) : Decidable (IsFieldValue bs) := inferInstanceAs (Decidable (_ ∧ _))

/-! ## Numbers -/

def IsNumber (n : Nat) (bs : List UInt8) : Prop :=
  bs ≠ [] ∧ bs.all isDigit = true ∧ decimalValue bs = n

instance (n : Nat) (bs : List UInt8) : Decidable (IsNumber n bs) :=
  inferInstanceAs (Decidable (_ ∧ _))

def hexDigit (b : UInt8) : Option Nat :=
  if isDigit b then some (b.toNat - 48)
  else if 65 ≤ b && b ≤ 70 then some (b.toNat - 55)
  else if 97 ≤ b && b ≤ 102 then some (b.toNat - 87)
  else none

def hexValue (ds : List UInt8) : Nat := ds.foldl (fun n d => 16 * n + (hexDigit d).getD 0) 0

/-! ## Header lines -/

/-- A header or trailer line `name ":" ows value trailing CRLF`. -/
structure HeaderLine where
  name : List UInt8
  ows : List UInt8
  value : List UInt8
  /-- The white space behind the value. -/
  trailing : List UInt8
  name_token : IsToken name
  ows_blank : ows.all isOws = true
  value_field : IsFieldValue value
  trailing_blank : trailing.all isOws = true
  /-- All white space of a line without a value stands in front of it. -/
  trailing_value : value = [] → trailing = []

namespace HeaderLine

theorem name_ne_nil (h : HeaderLine) : h.name ≠ [] := h.name_token.1

/-- The field that the line is. -/
def toHeader (h : HeaderLine) : HttpHeader := ⟨h.name, h.value⟩

/-- What llhttp reports as the value: it runs to the end of the line. -/
def text (h : HeaderLine) : List UInt8 := h.value ++ h.trailing

/-- The field that llhttp reports. -/
def reported (h : HeaderLine) : HttpHeader := ⟨h.name, h.text⟩

theorem reported_eq_iff (h : HeaderLine) : h.reported = h.toHeader ↔ h.trailing = [] := by
  simp [reported, toHeader, text]

/-- No line has white space behind its value. -/
def Trimmed (hs : List HeaderLine) : Prop := ∀ h ∈ hs, h.trailing = []

instance (hs : List HeaderLine) : Decidable (Trimmed hs) :=
  inferInstanceAs (Decidable (∀ h ∈ hs, h.trailing = []))

theorem map_reported_eq_iff (hs : List HeaderLine) :
    hs.map reported = hs.map toHeader ↔ Trimmed hs := by
  rw [List.map_inj_left]
  exact forall₂_congr fun h _ => h.reported_eq_iff

end HeaderLine

/-- `content-length: 2`, a line of the sample messages. -/
def lengthLine : HeaderLine :=
  ⟨ascii "content-length", [32], ascii "2",
    [], by decide, by decide, by decide, by decide, by decide⟩

/-- The same line with a blank behind the value. -/
def blankLengthLine : HeaderLine :=
  { lengthLine with trailing := [32], trailing_blank := by decide, trailing_value := by decide }

/-- `connection: close`. -/
def closeLine : HeaderLine :=
  ⟨ascii "connection", [32], ascii "close",
    [], by decide, by decide, by decide, by decide, by decide⟩

/-- The values of all fields with a name. -/
def fieldLines (name : String) (hs : List HttpHeader) : List (List UInt8) :=
  (hs.filter fun h => ignoreCaseEqual h.name (ascii name)).map HttpHeader.value

/-- The values that llhttp reports of all lines with a name. -/
def fieldValues (name : String) (hs : List HeaderLine) : List (List UInt8) :=
  fieldLines name (hs.map HeaderLine.reported)

/-- The elements of a comma separated list. -/
def listElements (value : List UInt8) : List (List UInt8) :=
  (value.splitOnP (· == 44)).map trimOws

/-- Does a comma separated field list a token? -/
def listsToken (name token : String) (hs : List HeaderLine) : Bool :=
  (fieldValues name hs).any fun v => (listElements v).any fun e => toLowerAsciiStr e = ascii token

/-! ## What llhttp reads from the fields -/

/-- llhttp takes blanks and tabs in front of an element, and only blanks behind it. -/
def flagElement (bs : List UInt8) : List UInt8 := (bs.dropWhile isOws).rdropWhile (· = 32)

def flagElements (value : List UInt8) : List (List UInt8) :=
  (value.splitOnP (· == 44)).map flagElement

/-- Does llhttp set the connection flag of a token?  It takes `Proxy-Connection` for
    `Connection`. -/
def connectionFlag (token : String) (hs : List HeaderLine) : Bool :=
  (fieldValues "connection" hs ++ fieldValues "proxy-connection" hs).any fun v =>
    (flagElements v).any fun e => toLowerAsciiStr e = ascii token

/-- llhttp sets the flag of `Upgrade` or `Transfer-Encoding` at the first byte of a value. -/
def hasValue (name : String) (hs : List HeaderLine) : Bool :=
  (fieldValues name hs).any fun v => v ≠ []

private theorem dropWhile_congr {p q : UInt8 → Bool} {bs : List UInt8} (h : ∀ b ∈ bs, p b = q b) :
    bs.dropWhile p = bs.dropWhile q := by
  induction bs with
  | nil => rfl
  | cons b bs ih =>
    rw [List.dropWhile_cons, List.dropWhile_cons, h b List.mem_cons_self,
      ih fun c hc => h c (List.mem_cons_of_mem b hc)]

/-- A piece of a list has its elements from the list. -/
private theorem subset_of_mem_splitOnP {p : UInt8 → Bool} {bs e : List UInt8}
    (he : e ∈ bs.splitOnP p) : e ⊆ bs := by
  induction bs generalizing e with
  | nil =>
    rw [List.splitOnP_nil, List.mem_singleton] at he
    rw [he]
    exact List.nil_subset _
  | cons b bs ih =>
    rw [List.splitOnP_cons_eq_if_modifyHead] at he
    split at he
    · rcases List.mem_cons.mp he with rfl | he
      · exact List.nil_subset _
      · exact List.Subset.trans (ih he) (List.subset_cons_self b bs)
    · -- only the first piece grows
      cases hsplit : bs.splitOnP p with
      | nil => exact absurd hsplit (List.splitOnP_ne_nil p bs)
      | cons first rest =>
        rw [hsplit, List.modifyHead_cons] at he
        rcases List.mem_cons.mp he with rfl | he
        · exact List.cons_subset_cons b (ih (hsplit ▸ List.mem_cons_self))
        · exact List.Subset.trans (ih (hsplit ▸ List.mem_cons_of_mem _ he))
            (List.subset_cons_self b bs)

/-- Without tabs both rules find the same elements. -/
theorem flagElements_eq_listElements {value : List UInt8} (h : 9 ∉ value) :
    flagElements value = listElements value := by
  rw [flagElements, listElements]
  refine List.map_congr_left fun e he => ?_
  have hblank : ∀ b ∈ (e.dropWhile isOws).reverse, (decide (b = 32)) = isOws b := by
    intro b hb
    have hb : b ∈ value :=
      subset_of_mem_splitOnP he (List.dropWhile_subset isOws (List.mem_reverse.mp hb))
    have hne : b ≠ 9 := fun heq => h (heq ▸ hb)
    simp [isOws, hne]
  rw [flagElement, trimOws, List.rdropWhile, List.rdropWhile, dropWhile_congr hblank]

/-! ## Framing -/

/-- The line in front of a chunk: its size in hexadecimal digits, and extensions behind a
    semicolon. -/
structure ChunkLine where
  size : List UInt8
  extensions : List UInt8
  size_ne_nil : size ≠ []
  size_hex : size.all (fun b => (hexDigit b).isSome) = true
  extensions_start : extensions.head?.all (· = 59) = true
  extensions_text : extensions.all isFieldByte = true

def ChunkLine.bytes (c : ChunkLine) : List UInt8 := c.size ++ c.extensions ++ crlf

/-- A chunk of a chunked body. -/
structure Chunk extends ChunkLine where
  data : List UInt8
  data_ne_nil : data ≠ []
  size_eq : hexValue size = data.length

/-- The chunk without data that ends a chunked body. -/
structure LastChunk extends ChunkLine where
  size_eq : hexValue size = 0

/-- How the end of a message is found.  `suppressed` is the answer to a HEAD request whose fields
    announce a body that is not sent. -/
inductive Framing where
  | none
  | fixed (body : List UInt8)
  | chunked (chunks : List Chunk) (last : LastChunk) (trailers : List HeaderLine)
  | untilEof (body : List UInt8)
  | suppressed

/-- The transfer codings of a message, in the order in which they were applied. -/
def codings (hs : List HeaderLine) : List (List UInt8) :=
  (((fieldValues "transfer-encoding" hs).flatMap listElements).filter (· ≠ [])).map toLowerAsciiStr

/-- There is one length, and it is `n`. -/
def LengthIs (n : Nat) (hs : List HeaderLine) : Prop :=
  match fieldValues "content-length" hs with
  | [v] => IsNumber n (trimOws v)
  | _ => False

instance (n : Nat) (hs : List HeaderLine) : Decidable (LengthIs n hs) := by
  unfold LengthIs
  split <;> infer_instance

namespace Framing

def body : Framing → List UInt8
  | none => []
  | fixed body => body
  | chunked chunks _ _ => chunks.flatMap Chunk.data
  | untilEof body => body
  | suppressed => []

/-- Can the parser tell where the message ends? -/
def selfDelimiting : Framing → Bool
  | none | fixed _ | chunked _ _ _ => true
  | untilEof _ | suppressed => false

/-- The header fields announce the framing. -/
def Announced (hs : List HeaderLine) : Framing → Prop
  | none => fieldValues "content-length" hs = [] ∧ codings hs = []
  | fixed body => LengthIs body.length hs ∧ codings hs = []
  | chunked _ _ _ => fieldValues "content-length" hs = [] ∧
      (codings hs).getLast? = some (ascii "chunked")
  | untilEof _ => fieldValues "content-length" hs = [] ∧
      (codings hs).getLast? ≠ some (ascii "chunked")
  | suppressed => ¬(LengthIs 0 hs ∧ codings hs = [])

instance (hs : List HeaderLine) : (f : Framing) → Decidable (f.Announced hs)
  | none => inferInstanceAs (Decidable (_ ∧ _))
  | fixed _ => inferInstanceAs (Decidable (_ ∧ _))
  | chunked _ _ _ => inferInstanceAs (Decidable (_ ∧ _))
  | untilEof _ => inferInstanceAs (Decidable (_ ∧ _))
  | suppressed => inferInstanceAs (Decidable (¬_))

end Framing

/-! ## Requests and responses -/

/-- The versions that llhttp takes for HTTP/1. -/
inductive H1Version where
  | http10
  | http11
deriving DecidableEq, Repr

/-- `http_minor` -/
def H1Version.minor : H1Version → Nat
  | .http10 => 0
  | .http11 => 1

/-- `HTTP/1.0` or `HTTP/1.1`. -/
def versionText (minor : Nat) : List UInt8 := ascii "HTTP/1." ++ [UInt8.ofNat (48 + minor)]

/-- A well-formed request of HTTP/1.1 or HTTP/1.0. -/
structure Request where
  method : List UInt8
  target : List UInt8
  version : H1Version
  headers : List HeaderLine
  framing : Framing
  method_token : IsToken method
  target_visible : IsTarget target
  framing_announced : framing.Announced headers
  framing_end : framing.selfDelimiting = true

theorem Request.target_ne_nil (r : Request) : r.target ≠ [] := r.target_visible.1

/-- The request asks to leave HTTP/1.1: llhttp pauses behind it with `HPE_PAUSED_UPGRADE`. -/
def Request.isUpgrade (r : Request) : Bool :=
  r.method = ascii "CONNECT" || (hasValue "upgrade" r.headers && connectionFlag "upgrade" r.headers)

/-- What llhttp returns behind the request. -/
def Request.errno (r : Request) : LlhttpErrno :=
  if r.isUpgrade then .error "HPE_PAUSED_UPGRADE" else .ok

/-- A well-formed response of HTTP/1.1 or HTTP/1.0.  `reason = none` is a status line that ends
    behind the code, without the space before the reason phrase. -/
structure Response where
  version : H1Version
  code : Nat
  reason : Option (List UInt8)
  headers : List HeaderLine
  framing : Framing
  code_range : 100 ≤ code ∧ code ≤ 999
  reason_text : (reason.getD []).all isFieldByte = true
  framing_announced : if code < 200 ∨ code = 204 ∨ code = 304 then framing = .none
    else framing.Announced headers ∧ framing ≠ .none

end Ppnt.Spec
