import Ppnt.Spec.Http1Syntax

/-!
# A receiver of HTTP/1.1 requests

`H1.decode` reads one request by the grammar of RFC 9112: the request line, header lines up to an
empty line, and a body that `Content-Length` or the chunked coding delimits.  It takes all bytes or
none.  A field value is what stands between the white space around it.  A message whose framing
fields contradict each other is refused.  Which characters a request target may have beyond being
visible is not checked, nor what the other fields mean.
-/

namespace Ppnt.Spec.H1

open Ppnt.Native

/-- A request as its receiver sees it. -/
structure Message where
  method : List UInt8
  target : List UInt8
  headers : List HttpHeader
  body : List UInt8
deriving DecidableEq

/-! ## Lines -/

/-- The text in front of the first CRLF and behind it. -/
def splitLine : List UInt8 → Option (List UInt8 × List UInt8)
  | [] => none
  | b :: bs =>
    if crlf.isPrefixOf (b :: bs) then some ([], bs.drop 1)
    else (splitLine bs).map fun p => (b :: p.1, p.2)

variable {bs line rest : List UInt8} {b : UInt8} {hs : List HttpHeader}

private theorem eq_of_splitLine (h : splitLine bs = some (line, rest)) :
    bs = line ++ crlf ++ rest := by
  induction bs generalizing line with
  | nil => exact absurd h (by simp [splitLine])
  | cons b bs ih =>
    rw [splitLine] at h
    split at h
    case isTrue hcrlf =>
      obtain ⟨tail, htail⟩ := List.isPrefixOf_iff_prefix.mp hcrlf
      obtain ⟨rfl, rfl⟩ := Prod.mk.inj (Option.some.inj h)
      obtain ⟨rfl, rfl⟩ := List.cons.inj htail
      rfl
    case isFalse =>
      obtain ⟨⟨line', rest'⟩, hsplit, heq⟩ := Option.map_eq_some_iff.mp h
      obtain ⟨rfl, rfl⟩ := Prod.mk.inj heq
      rw [ih hsplit]
      rfl

private theorem splitLine_append (hline : 13 ∉ line) (rest : List UInt8) :
    splitLine (line ++ crlf ++ rest) = some (line, rest) := by
  induction line with
  | nil => simp [splitLine, crlf]
  | cons b line ih =>
    have hb : b ≠ 13 := fun h => hline (h ▸ List.mem_cons_self)
    have hrest := ih fun h => hline (List.mem_cons_of_mem b h)
    rw [List.cons_append, List.cons_append, splitLine, hrest]
    simp [crlf, hb.symm]

private theorem length_of_splitLine (h : splitLine bs = some (line, rest)) :
    rest.length < bs.length := by
  rw [eq_of_splitLine h]
  simp [crlf]
  omega

/-- Method and target of a request line. -/
def parseRequestLine (line : List UInt8) : Option (List UInt8 × List UInt8) :=
  match find 32 line with
  | none => none
  | some i =>
    let rest := line.drop (i + 1)
    match find 32 rest with
    | none => none
    | some j =>
      if IsToken (line.take i) ∧ IsTarget (rest.take j) ∧ rest.drop (j + 1) = ascii "HTTP/1.1" then
        some (line.take i, rest.take j)
      else none

def parseField (line : List UInt8) : Option HttpHeader :=
  match find 58 line with
  | none => none
  | some i =>
    let value := trimOws (line.drop (i + 1))
    if IsToken (line.take i) ∧ value.all isFieldByte = true then some ⟨line.take i, value⟩ else none

/-- Field lines up to an empty line, and what follows it. -/
def readFields (bs : List UInt8) : Option (List HttpHeader × List UInt8) :=
  match _h : splitLine bs with
  | none => none
  | some (line, rest) =>
    if line = [] then some ([], rest)
    else
      match parseField line with
      | none => none
      | some field => (readFields rest).map fun p => (field :: p.1, p.2)
termination_by bs.length
decreasing_by exact length_of_splitLine _h

/-! ## Framing -/

/-- How the receiver finds the end of the body. -/
inductive BodyFraming where
  | fixed (length : Nat)
  | chunked
deriving DecidableEq

/-- `Content-Length` lines may repeat one number and nothing else. -/
def contentLength (values : List (List UInt8)) : Option Nat :=
  match values.flatMap listElements with
  | [] => some 0
  | e :: es =>
    if ∀ x ∈ e :: es, IsNumber (decimalValue e) x then some (decimalValue e) else none

def framing (hs : List HttpHeader) : Option BodyFraming :=
  let codings := fieldLines "transfer-encoding" hs
  let lengths := fieldLines "content-length" hs
  if codings = [] then (contentLength lengths).map .fixed
  else if lengths = [] ∧
      (codings.flatMap listElements).map toLowerAsciiStr = [ascii "chunked"] then some .chunked
  else none

/-- The size in front of a chunk's extensions. -/
def chunkSize (line : List UInt8) : Option Nat :=
  let ds := line.takeWhile fun b => (hexDigit b).isSome
  let extensions := line.drop ds.length
  if ds ≠ [] ∧ extensions.head?.all (· = 59) = true ∧ extensions.all isFieldByte = true then
    some (hexValue ds)
  else none

/-- The data of a chunked body, and what follows the body. -/
def readChunks (bs : List UInt8) : Option (List UInt8 × List UInt8) :=
  match _h : splitLine bs with
  | none => none
  | some (line, rest) =>
    match chunkSize line with
    | none => none
    | some 0 => (readFields rest).map fun p => ([], p.2)
    | some (n + 1) =>
      if crlf.isPrefixOf (rest.drop (n + 1)) then
        (readChunks (rest.drop (n + 3))).map fun p => (rest.take (n + 1) ++ p.1, p.2)
      else none
termination_by bs.length
decreasing_by
  have := length_of_splitLine _h
  rw [List.length_drop]
  omega

/-- The body that is all of `rest`. -/
def readBody (hs : List HttpHeader) (rest : List UInt8) : Option (List UInt8) :=
  match framing hs with
  | none => none
  | some (.fixed n) => if rest.length = n then some rest else none
  | some .chunked =>
    match readChunks rest with
    | some (body, []) => some body
    | _ => none

/-- The request that is all of `bs`. -/
def decode (bs : List UInt8) : Option Message := do
  let (line, rest) ← splitLine bs
  let (method, target) ← parseRequestLine line
  let (headers, rest) ← readFields rest
  let body ← readBody headers rest
  return ⟨method, target, headers, body⟩

/-! ## Writing a message -/

def encodeField (h : HttpHeader) : List UInt8 := h.name ++ ascii ": " ++ h.value ++ crlf

def Message.encode (m : Message) : List UInt8 :=
  m.method ++ ascii " " ++ m.target ++ ascii " HTTP/1.1" ++ crlf ++ m.headers.flatMap encodeField ++
    crlf ++ m.body

def IsField (h : HttpHeader) : Prop := IsToken h.name ∧ IsFieldValue h.value

instance : DecidablePred IsField := fun _ => inferInstanceAs (Decidable (_ ∧ _))

/-- The request line and the fields keep to the grammar. -/
structure Message.HeadOk (m : Message) : Prop where
  method : IsToken m.method
  target : IsTarget m.target
  headers : ∀ h ∈ m.headers, IsField h

/-- So does the body. -/
structure Message.WellFormed (m : Message) : Prop extends m.HeadOk where
  body : framing m.headers = some (.fixed m.body.length)

/-! ## White space -/

private theorem dropWhile_rdropWhile {p : UInt8 → Bool} {l : List UInt8} (h : l.dropWhile p = l) :
    (l.rdropWhile p).dropWhile p = l.rdropWhile p := by
  obtain ⟨t, ht⟩ := List.rdropWhile_prefix p l
  cases hr : l.rdropWhile p with
  | nil => rfl
  | cons x xs =>
    rw [hr, List.cons_append] at ht
    rw [← ht, List.dropWhile_cons] at h
    split at h
    · -- dropping `x` would shorten the list
      have hle := (List.dropWhile_sublist (l := xs ++ t) p).length_le
      rw [h, List.length_cons] at hle
      omega
    · rw [List.dropWhile_cons, if_neg ‹_›]

private theorem trimOws_trimOws (bs : List UInt8) : trimOws (trimOws bs) = trimOws bs := by
  unfold trimOws
  rw [dropWhile_rdropWhile (List.dropWhile_idempotent isOws bs), List.rdropWhile_idempotent]

private theorem trimOws_of_forall (h : ∀ b ∈ bs, isOws b = false) : trimOws bs = bs := by
  have hdrop : bs.dropWhile isOws = bs := by
    rw [List.dropWhile_eq_self_iff]
    intro hl
    simp [h _ (List.getElem_mem hl)]
  rw [trimOws, hdrop, List.rdropWhile_eq_self_iff]
  intro hne
  simp [h _ (List.getLast_mem hne)]

private theorem trimOws_blank (bs : List UInt8) : trimOws (32 :: bs) = trimOws bs := rfl

/-! ## What the readers return -/

private theorem not_mem_of_isToken (h : IsToken bs) (hb : isTchar b = false) :
    b ∉ bs := by
  intro hmem
  rw [List.all_eq_true.mp h.2 b hmem] at hb
  exact Bool.noConfusion hb

private theorem not_mem_of_isTarget (h : IsTarget bs) (hb : isVisible b = false) : b ∉ bs := by
  intro hmem
  rw [List.all_eq_true.mp h.2 b hmem] at hb
  exact Bool.noConfusion hb

private theorem not_mem_of_isFieldValue (h : IsFieldValue bs) (hb : isFieldByte b = false) :
    b ∉ bs := by
  intro hmem
  rw [List.all_eq_true.mp h.1 b hmem] at hb
  exact Bool.noConfusion hb

private theorem parseRequestLine_append {method target : List UInt8} (hmethod : IsToken method)
    (htarget : IsTarget target) :
    parseRequestLine (method ++ ascii " " ++ target ++ ascii " HTTP/1.1") =
      some (method, target) := by
  have hline : method ++ ascii " " ++ target ++ ascii " HTTP/1.1" =
      method ++ 32 :: (target ++ 32 :: ascii "HTTP/1.1") := by simp [ascii]
  -- neither the method nor the target has a blank
  have hfirst := find_append_cons (not_mem_of_isToken hmethod (b := 32) (by decide))
    (target ++ 32 :: ascii "HTTP/1.1")
  have hsecond := find_append_cons (not_mem_of_isTarget htarget (b := 32) (by decide))
    (ascii "HTTP/1.1")
  rw [hline]
  simp [parseRequestLine, hfirst, hsecond, hmethod, htarget]

private theorem of_parseRequestLine {method target : List UInt8}
    (h : parseRequestLine line = some (method, target)) : IsToken method ∧ IsTarget target := by
  unfold parseRequestLine at h
  split at h
  · exact absurd h (by simp)
  · dsimp only at h
    split at h
    · exact absurd h (by simp)
    · split at h
      case isTrue hparts =>
        obtain ⟨rfl, rfl⟩ := Prod.mk.inj (Option.some.inj h)
        exact ⟨hparts.1, hparts.2.1⟩
      case isFalse => exact absurd h (by simp)

private theorem parseField_append {h : HttpHeader} (hfield : IsField h) :
    parseField (h.name ++ ascii ": " ++ h.value) = some h := by
  have hline : h.name ++ ascii ": " ++ h.value = h.name ++ 58 :: 32 :: h.value := by simp [ascii]
  have hcolon :=
    find_append_cons (not_mem_of_isToken hfield.1 (b := 58) (by decide)) (32 :: h.value)
  rw [hline]
  simp [parseField, hcolon, trimOws_blank, hfield.1, hfield.2.1, hfield.2.2]

private theorem isField_of_parseField {h : HttpHeader} (hparse : parseField line = some h) :
    IsField h := by
  unfold parseField at hparse
  split at hparse
  · exact absurd hparse (by simp)
  · dsimp only at hparse
    split at hparse
    case isTrue hparts =>
      obtain rfl := Option.some.inj hparse
      exact ⟨hparts.1, hparts.2, trimOws_trimOws _⟩
    case isFalse => exact absurd hparse (by simp)

private theorem readFields_of_splitLine (h : splitLine bs = some (line, rest)) :
    readFields bs = if line = [] then some ([], rest) else
      (parseField line).bind fun field =>
        (readFields rest).map fun p => (field :: p.1, p.2) := by
  rw [readFields]
  split
  case h_1 hnone => exact absurd (h.symm.trans hnone) (by simp)
  case h_2 line' rest' hsome =>
    obtain ⟨rfl, rfl⟩ := Prod.mk.inj (Option.some.inj (h.symm.trans hsome))
    cases parseField line <;> rfl

/-- Fields are read back up to the empty line. -/
private theorem readFields_encode (hfields : ∀ h ∈ hs, IsField h) (rest : List UInt8) :
    readFields (hs.flatMap encodeField ++ crlf ++ rest) = some (hs, rest) := by
  induction hs with
  | nil =>
    have hline : splitLine (crlf ++ rest) = some ([], rest) :=
      splitLine_append List.not_mem_nil rest
    rw [List.flatMap_nil, List.nil_append, readFields_of_splitLine hline]
    rfl
  | cons h hs ih =>
    have hfield := hfields h List.mem_cons_self
    -- the line ends at the CRLF that is written behind it
    have hcr : 13 ∉ h.name ++ ascii ": " ++ h.value := by
      simp only [List.mem_append, not_or]
      exact ⟨⟨not_mem_of_isToken hfield.1 (by decide), by decide⟩,
        not_mem_of_isFieldValue hfield.2 (by decide)⟩
    have hne : h.name ++ ascii ": " ++ h.value ≠ [] := by simp [ascii]
    have hbytes : (h :: hs).flatMap encodeField ++ crlf ++ rest =
        (h.name ++ ascii ": " ++ h.value) ++ crlf ++ (hs.flatMap encodeField ++ crlf ++ rest) := by
      simp [encodeField]
    rw [hbytes, readFields_of_splitLine (splitLine_append hcr _), if_neg hne,
      parseField_append hfield, ih fun h' hh' => hfields h' (List.mem_cons_of_mem h hh')]
    rfl

private theorem isField_of_readFields (h : readFields bs = some (hs, rest)) :
    ∀ h ∈ hs, IsField h := by
  fun_induction readFields bs generalizing hs with
  | case1 | case3 => exact absurd h (by simp)
  | case2 bs rest' hline =>
    obtain ⟨rfl, -⟩ := Prod.mk.inj (Option.some.inj h)
    exact fun h hmem => absurd hmem List.not_mem_nil
  | case4 bs line rest' hline hne field hparse ih =>
    obtain ⟨⟨hs', rest''⟩, hread, heq⟩ := Option.map_eq_some_iff.mp h
    obtain ⟨rfl, rfl⟩ := Prod.mk.inj heq
    intro h' hmem
    rcases List.mem_cons.mp hmem with rfl | hmem
    · exact isField_of_parseField hparse
    · exact ih hread h' hmem

private theorem length_of_readFields (h : readFields bs = some (hs, rest)) :
    rest.length < bs.length := by
  fun_induction readFields bs generalizing hs with
  | case1 | case3 => exact absurd h (by simp)
  | case2 bs rest' hline =>
    obtain ⟨-, rfl⟩ := Prod.mk.inj (Option.some.inj h)
    exact length_of_splitLine hline
  | case4 bs line rest' hline hne field hparse ih =>
    obtain ⟨⟨hs', rest''⟩, hread, heq⟩ := Option.map_eq_some_iff.mp h
    obtain ⟨rfl, rfl⟩ := Prod.mk.inj heq
    have hlt := ih hread
    have hline := length_of_splitLine hline
    omega

/-- A chunked body is longer than its data. -/
private theorem length_of_readChunks {data : List UInt8} (h : readChunks bs = some (data, rest)) :
    data.length + rest.length < bs.length := by
  fun_induction readChunks bs generalizing data with
  | case1 | case2 => exact absurd h (by simp)
  | case3 bs line rest' hline hsize =>
    obtain ⟨⟨hs, rest''⟩, hread, heq⟩ := Option.map_eq_some_iff.mp h
    obtain ⟨rfl, rfl⟩ := Prod.mk.inj heq
    have hlt := length_of_readFields hread
    have hline := length_of_splitLine hline
    simp only [List.length_nil]
    omega
  | case4 bs line rest' hline n hsize hcrlf ih =>
    obtain ⟨⟨data', rest''⟩, hread, heq⟩ := Option.map_eq_some_iff.mp h
    obtain ⟨rfl, rfl⟩ := Prod.mk.inj heq
    have hlt := ih hread
    have hline := length_of_splitLine hline
    simp only [List.length_append, List.length_take, List.length_drop] at *
    omega
  | case5 => exact absurd h (by simp)

/-! ## Framing by length -/

/-- A field value that repeats one number. -/
def StatesLength (n : Nat) (value : List UInt8) : Prop := ∀ e ∈ listElements value, IsNumber n e

instance (n : Nat) (value : List UInt8) : Decidable (StatesLength n value) :=
  inferInstanceAs (Decidable (∀ e ∈ _, _))

private theorem listElements_ne_nil (value : List UInt8) : listElements value ≠ [] := by
  rw [listElements, ne_eq, List.map_eq_nil_iff]
  exact List.splitOnP_ne_nil _ value

theorem contentLength_nil : contentLength [] = some 0 := rfl

/-- All fields have to state one length. -/
theorem contentLength_eq_some_iff {values : List (List UInt8)} {n : Nat} (hvalues : values ≠ []) :
    contentLength values = some n ↔ ∀ v ∈ values, StatesLength n v := by
  have hall : (∀ v ∈ values, StatesLength n v) ↔
      ∀ x ∈ values.flatMap listElements, IsNumber n x := by
    simp only [StatesLength, List.mem_flatMap]
    exact ⟨fun h x ⟨v, hv, hx⟩ => h v hv x hx, fun h v hv x hx => h x ⟨v, hv, hx⟩⟩
  rw [hall, contentLength]
  split
  case h_1 hnil =>
    obtain ⟨v, hv⟩ := List.exists_mem_of_ne_nil values hvalues
    exact absurd (List.flatMap_eq_nil_iff.mp hnil v hv) (listElements_ne_nil v)
  case h_2 e es hcons =>
    rw [hcons, Option.ite_none_right_eq_some]
    constructor
    · rintro ⟨hnumbers, hvalue⟩
      rw [← Option.some.inj hvalue]
      exact hnumbers
    · intro hnumbers
      obtain ⟨-, -, hvalue⟩ := hnumbers e List.mem_cons_self
      rw [hvalue]
      exact ⟨hnumbers, rfl⟩

theorem framing_eq_fixed_iff {n : Nat} :
    framing hs = some (.fixed n) ↔
      fieldLines "transfer-encoding" hs = [] ∧
        contentLength (fieldLines "content-length" hs) = some n := by
  simp only [framing]
  split
  case isTrue hcodings => simp [hcodings, Option.map_eq_some_iff]
  case isFalse hcodings =>
    simp only [hcodings, false_and, iff_false]
    split <;> simp

theorem isFieldValue_of_forall (h : ∀ b ∈ bs, isVisible b = true) :
    IsFieldValue bs := by
  refine ⟨List.all_eq_true.mpr fun b hb => ?_, trimOws_of_forall fun b hb => ?_⟩
  · rw [isFieldByte, h b hb, Bool.true_or]
  · have hvisible := h b hb
    cases hows : isOws b with
    | false => rfl
    | true =>
      have hblank : b = 32 ∨ b = 9 := by simpa [isOws] using hows
      rcases hblank with rfl | rfl <;> exact absurd hvisible (by decide)

theorem isVisible_of_isDigit (h : isDigit b = true) : isVisible b = true := by
  simp only [isDigit, isVisible, Bool.and_eq_true, decide_eq_true_eq, UInt8.le_iff_toNat_le] at *
  refine ⟨?_, fun h127 => ?_⟩
  · exact Nat.le_trans (by decide) h.1
  · exact absurd h.2 (by rw [h127]; decide)

theorem isFieldValue_decimal (n : Nat) : IsFieldValue (decimal n) :=
  isFieldValue_of_forall fun _ hb => isVisible_of_isDigit (isDigit_of_mem_decimal hb)

theorem statesLength_decimal (n : Nat) : StatesLength n (decimal n) := by
  have hcomma : ∀ b ∈ decimal n, (b == 44) = false := by
    intro b hb
    rw [beq_eq_false_iff_ne]
    rintro rfl
    exact absurd (isDigit_of_mem_decimal hb) (by decide)
  intro e he
  rw [listElements, List.splitOnP_eq_singleton hcomma, List.map_singleton, List.mem_singleton,
    (isFieldValue_decimal n).2] at he
  rw [he]
  exact ⟨decimal_ne_nil n, List.all_eq_true.mpr fun _ => isDigit_of_mem_decimal,
    decimalValue_decimal n⟩

/-! ## Reading a message back -/

/-- The bytes of a well-formed head are read up to the body. -/
theorem decode_encode {m : Message} (hhead : m.HeadOk) :
    decode m.encode = (readBody m.headers m.body).map fun body => { m with body := body } := by
  have hcr : 13 ∉ m.method ++ ascii " " ++ m.target ++ ascii " HTTP/1.1" := by
    simp only [List.mem_append, not_or]
    exact ⟨⟨⟨not_mem_of_isToken hhead.method (by decide), by decide⟩,
      not_mem_of_isTarget hhead.target (by decide)⟩, by decide⟩
  have hline := splitLine_append hcr (m.headers.flatMap encodeField ++ crlf ++ m.body)
  have hbytes : m.encode = m.method ++ ascii " " ++ m.target ++ ascii " HTTP/1.1" ++ crlf ++
      (m.headers.flatMap encodeField ++ crlf ++ m.body) := by
    simp [Message.encode]
  rw [decode, hbytes, hline]
  simp only [Option.bind_eq_bind, Option.bind_some,
    parseRequestLine_append hhead.method hhead.target, readFields_encode hhead.headers]
  cases readBody m.headers m.body <;> rfl

/-- A body that is not chunked is read as it is. -/
private theorem readBody_self_iff (hs : List HttpHeader) (body : List UInt8) :
    readBody hs body = some body ↔ framing hs = some (.fixed body.length) := by
  unfold readBody
  split
  case h_1 hframing => simp [hframing]
  case h_2 n hframing => simp [hframing, eq_comm]
  case h_3 hframing =>
    simp only [hframing, Option.some.injEq, reduceCtorEq, iff_false]
    split
    case h_1 data hchunks =>
      -- the data of the chunks is shorter
      have hlt := length_of_readChunks hchunks
      intro heq
      rw [← Option.some.inj heq] at hlt
      simp at hlt
    case h_2 => simp

private theorem headOk_of_decode {m : Message} (h : decode bs = some m) : m.HeadOk := by
  simp only [decode, Option.bind_eq_bind, Option.bind_eq_some_iff, Prod.exists] at h
  obtain ⟨line, rest, -, method, target, hline, headers, rest', hfields, body, -, ⟨⟩⟩ := h
  exact ⟨(of_parseRequestLine hline).1, (of_parseRequestLine hline).2,
    isField_of_readFields hfields⟩

/-- Messages are read back if and only if they are well-formed. -/
theorem decode_encode_iff (m : Message) : decode m.encode = some m ↔ m.WellFormed := by
  constructor
  · intro h
    have hhead := headOk_of_decode h
    rw [decode_encode hhead, Option.map_eq_some_iff] at h
    obtain ⟨body, hbody, heq⟩ := h
    have hbody' : readBody m.headers m.body = some m.body := by
      rw [hbody, ← congrArg Message.body heq]
    exact ⟨hhead, (readBody_self_iff m.headers m.body).mp hbody'⟩
  · intro h
    rw [decode_encode h.toHeadOk, (readBody_self_iff m.headers m.body).mpr h.body]
    rfl

end Ppnt.Spec.H1
