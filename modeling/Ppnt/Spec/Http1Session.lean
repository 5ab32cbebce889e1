import Ppnt.Spec.Http1Wire

/-!
# The callback state machine of an HTTP/1 session

What the two session classes share: what is assumed of llhttp and what the callbacks do to a
session.
-/

namespace Ppnt.Spec

open Ppnt.Native Spans

/-! ## What is assumed of llhttp -/

/-- Fed the pieces of one message, the parser makes the callbacks `deliver` computes and returns
    `HPE_OK`, but for `final` on the last piece.  `atHead` holds of its state when the header
    section has just been completed. -/
def Tracks (P : Llhttp) (atHead : P.State → Prop) (final : LlhttpErrno) :
    P.State → Option DataCb → List (List HTok) → Prop
  | _, _, [] => True
  | st, o, c :: cs =>
    (P.execute st (bytesOf c)).2.1 = deliver o (opsOf c) ∧
    (P.execute st (bytesOf c)).2.2 = (if cs = [] then final else .ok) ∧
    (.mark .onHeadersComplete ∈ opsOf c → atHead (P.execute st (bytesOf c)).1) ∧
    Tracks P atHead final (P.execute st (bytesOf c)).1 (openAfter o (opsOf c)) cs

/-- A message cut into non-empty pieces. -/
structure Pieces (m : List HTok) (cs : List (List HTok)) : Prop where
  flatten_eq : cs.flatten = m
  ne_nil : ∀ c ∈ cs, c ≠ []

/-- The parser parses the message `m` correctly from a fresh state, however it is cut. -/
def Parses (P : Llhttp) (atHead : P.State → Prop) (final : LlhttpErrno) (m : List HTok) : Prop :=
  ∀ cs, Pieces m cs → Tracks P atHead final P.init none cs

/-- What is assumed of llhttp for a request.  Behind a request that asks for another protocol it
    stops with an error code. -/
def ParsesRequest (P : Llhttp) (r : Request) : Prop :=
  Parses P (fun st => P.methodName st = r.method) r.errno r.toks

/-- The pieces of a message, with bytes behind the last one that nothing is reported for. -/
def withExtra (extra : List UInt8) : List (List HTok) → List (List HTok)
  | [] => []
  | [c] => [c ++ plain extra]
  | c :: c' :: cs => c :: withExtra extra (c' :: cs)

theorem withExtra_nil (cs : List (List HTok)) : withExtra [] cs = cs := by
  induction cs with
  | nil => rfl
  | cons c cs ih =>
    cases cs with
    | nil => simp [withExtra, plain]
    | cons c' cs => exact congrArg (c :: ·) ih

theorem flatten_withExtra (extra : List UInt8) {cs : List (List HTok)} (h : cs ≠ []) :
    (withExtra extra cs).flatten = cs.flatten ++ plain extra := by
  induction cs with
  | nil => exact absurd rfl h
  | cons c cs ih =>
    cases cs with
    | nil => simp [withExtra]
    | cons c' cs => rw [withExtra, List.flatten_cons, ih (by simp), List.flatten_cons (l := c),
        List.append_assoc]

theorem ne_nil_of_mem_withExtra {extra : List UInt8} {cs : List (List HTok)}
    (h : ∀ c ∈ cs, c ≠ []) : ∀ c ∈ withExtra extra cs, c ≠ [] := by
  induction cs with
  | nil => exact h
  | cons c cs ih =>
    have hc := h c List.mem_cons_self
    cases cs with
    | nil => simp [withExtra, hc]
    | cons c' cs =>
      intro d hd
      rcases List.mem_cons.mp hd with rfl | hd
      · exact hc
      · exact ih (fun x hx => h x (List.mem_cons_of_mem c hx)) d hd

/-- What is assumed of llhttp for a response with `extra` behind it in its last read: it reports the
    response, and nothing for `extra`.  So it does for line ends, and for the beginning of a status
    line. -/
def ParsesResponse (P : Llhttp) (r : Response) (extra : List UInt8) : Prop :=
  ∀ cs, Pieces r.toks cs → Tracks P (fun _ => True) .ok P.init none (withExtra extra cs)

/-- A parser that knows one message: its state is the number of bytes it has seen. -/
def oneMessage (m : List HTok) (method : List UInt8) (final : LlhttpErrno) : Llhttp where
  State := Nat
  init := 0
  execute n bytes :=
    let c := (m.drop n).take bytes.length
    if bytesOf c = bytes then
      (n + bytes.length, deliver (openAfter none (opsOf (m.take n))) (opsOf c),
        if n + bytes.length = m.length then final else .ok)
    else (n, [], .error "HPE_INVALID_METHOD")
  methodName _ := method

/-- The parser that knows one message parses it in all pieces. -/
theorem oneMessage_parses (m : List HTok) (method : List UInt8) (final : LlhttpErrno)
    {atHead : Nat → Prop} (hhead : ∀ n, atHead n) :
    Parses (oneMessage m method final) atHead final m := by
  -- the state is the length of the pieces already fed
  have hgen : ∀ cs pre : List (List HTok), (pre ++ cs).flatten = m → (∀ c ∈ cs, c ≠ []) →
      Tracks (oneMessage m method final) atHead final pre.flatten.length
        (openAfter none (opsOf pre.flatten)) cs := by
    intro cs
    induction cs with
    | nil => intros; trivial
    | cons c cs ih =>
      intro pre hm hne
      have hmeq : m = pre.flatten ++ (c ++ cs.flatten) := by rw [← hm]; simp
      have htake : m.take pre.flatten.length = pre.flatten := by rw [hmeq]; simp
      have hdrop : (m.drop pre.flatten.length).take c.length = c := by rw [hmeq]; simp
      have hlast : (pre.flatten.length + c.length = m.length) ↔ cs = [] := by
        constructor
        · intro hlen
          cases cs with
          | nil => rfl
          | cons c' cs =>
            have hpos := List.length_pos_iff.mpr (hne c' (by simp))
            rw [hmeq] at hlen
            simp only [List.length_append, List.flatten_cons] at hlen
            omega
        · intro hnil
          rw [hmeq, hnil]
          simp
      have hexec : (oneMessage m method final).execute pre.flatten.length (bytesOf c) =
          (pre.flatten.length + c.length, deliver (openAfter none (opsOf pre.flatten)) (opsOf c),
            if cs = [] then final else .ok) := by
        simp only [oneMessage, length_bytesOf, hdrop, htake, if_true, hlast]
      have hrest := ih (pre ++ [c]) (by rw [← hm]; simp) fun c' hc' => hne c' (by simp [hc'])
      simp only [List.flatten_append, List.flatten_cons, List.flatten_nil, List.append_nil,
        List.length_append, opsOf_append, openAfter_append] at hrest
      simp only [Tracks, hexec]
      exact ⟨trivial, trivial, fun _ => hhead _, hrest⟩
  intro cs hcs
  exact hgen cs [] hcs.flatten_eq hcs.ne_nil

/-- A parser that knows a response and the bytes behind it. -/
theorem oneMessage_parsesResponse (r : Response) (extra : List UInt8) :
    ParsesResponse (oneMessage (r.toks ++ plain extra) [] .ok) r extra := by
  intro cs hcs
  have hne : cs ≠ [] := by
    rintro rfl
    have hnil : opsOf r.toks = [] := by rw [← hcs.flatten_eq]; rfl
    rw [Response.toks, opsOf_messageToks, headOps] at hnil
    simp at hnil
  have hhead : ∀ n : Nat, (fun _ => True) n := fun _ => trivial
  refine oneMessage_parses _ [] .ok hhead (withExtra extra cs) ⟨?_, ?_⟩
  · rw [flatten_withExtra extra hne, hcs.flatten_eq]
  · exact ne_nil_of_mem_withExtra hcs.ne_nil

/-! ## Callbacks -/

section Callbacks

variable {P : Llhttp} {σ : Type} (L : StartLine σ)

/-- The start line element of a session is stored, not appended. -/
def overwrites : DataCb → Bool
  | .onUrl => L.onUrl.isSome
  | .onStatus _ => L.onStatus.isSome
  | _ => false

private theorem callback_setParser (s : H1Session P σ) (p : P.State) (ev : Callback) :
    H1Session.callback L { s with parser := p } ev =
      { H1Session.callback L s ev with parser := p } := by
  obtain ⟨e, d⟩ | m := ev
  · cases e with
    | onUrl => cases h : L.onUrl <;> simp [H1Session.callback, H1Session.onStart, h]
    | onStatus code => cases h : L.onStatus <;> simp [H1Session.callback, H1Session.onStart, h]
    | onHeaderField =>
      simp only [H1Session.callback, H1Session.onHeaderField, H1Session.commitHeader]
      split <;> [split; skip] <;> rfl
    | onHeaderValue => rfl
    | onBody => rfl
  · cases m with
    | onHeadersComplete =>
      simp only [H1Session.callback, H1Session.onHeadersComplete, H1Session.commitHeader]
      split <;> [split; skip] <;> rfl
    | onMessageComplete => rfl

/-- Callbacks neither read nor write the parser. -/
theorem foldl_callback_setParser (s : H1Session P σ) (p : P.State) (evs : List Callback) :
    evs.foldl (H1Session.callback L) { s with parser := p } =
      { evs.foldl (H1Session.callback L) s with parser := p } := by
  induction evs generalizing s with
  | nil => rfl
  | cons ev evs ih => rw [List.foldl_cons, callback_setParser, ih, List.foldl_cons]

@[simp] theorem commitHeader_bodyBuffer (s : H1Session P σ) :
    s.commitHeader.bodyBuffer = s.bodyBuffer := by
  simp only [H1Session.commitHeader]; split <;> rfl

@[simp] theorem commitHeader_flag (s : H1Session P σ) (m : Cb) :
    s.commitHeader.flag m = s.flag m := by
  cases m <;> simp only [H1Session.flag, H1Session.commitHeader] <;> split <;> rfl

@[simp] theorem commitHeader_start (s : H1Session P σ) :
    s.commitHeader.head.start = s.head.start := by
  simp only [H1Session.commitHeader]; split <;> rfl

/-- The flags record which of the two marks has been seen. -/
theorem foldl_callback_flag (m : Cb) (s : H1Session P σ) (evs : List Callback) :
    (evs.foldl (H1Session.callback L) s).flag m = true ↔ s.flag m = true ∨ .mark m ∈ evs := by
  induction evs generalizing s with
  | nil => simp
  | cons ev evs ih =>
    -- one callback raises the flag of its own mark and no other
    have hone : (H1Session.callback L s ev).flag m = true ↔ s.flag m = true ∨ .mark m = ev := by
      obtain ⟨e, d⟩ | m' := ev
      · have hsame : (H1Session.callback L s (.span e d)).flag m = s.flag m := by
          cases e with
          | onUrl => cases h : L.onUrl <;> cases m <;> simp [H1Session.callback, H1Session.onStart,
              H1Session.flag, h]
          | onStatus code => cases h : L.onStatus <;> cases m <;> simp [H1Session.callback,
              H1Session.onStart, H1Session.flag, h]
          | onHeaderField =>
            have hc := commitHeader_flag s m
            cases m <;> simp only [H1Session.callback, H1Session.onHeaderField, H1Session.flag]
              at hc ⊢
              <;> split <;> simp [hc]
          | onHeaderValue => cases m <;> rfl
          | onBody => cases m <;> rfl
        simp [hsame]
      · have hc := commitHeader_flag s
        cases m <;> cases m' <;> simp only [H1Session.callback, H1Session.onHeadersComplete,
          H1Session.onMessageComplete, H1Session.flag] at hc ⊢
        · simp
        · simp
        · split <;> simp [hc .onMessageComplete]
        · simp
    rw [List.foldl_cons, ih, hone, List.mem_cons, or_assoc]

/-- The body buffer collects the body data. -/
theorem foldl_callback_bodyBuffer (s : H1Session P σ) (evs : List Callback) :
    (evs.foldl (H1Session.callback L) s).bodyBuffer = s.bodyBuffer ++ collect .onBody evs := by
  induction evs generalizing s with
  | nil => simp [collect]
  | cons ev evs ih =>
    have hone : (H1Session.callback L s ev).bodyBuffer =
        s.bodyBuffer ++ ev.dataFor .onBody := by
      obtain ⟨e, d⟩ | m := ev
      · cases e with
        | onUrl => cases h : L.onUrl <;> simp [H1Session.callback, H1Session.onStart,
            Event.dataFor, h]
        | onStatus code => cases h : L.onStatus <;> simp [H1Session.callback, H1Session.onStart,
            Event.dataFor, h]
        | onHeaderField =>
          simp only [H1Session.callback, H1Session.onHeaderField]
          split <;> simp [Event.dataFor]
        | onHeaderValue => simp [H1Session.callback, H1Session.onHeaderValue, Event.dataFor]
        | onBody => simp [H1Session.callback, H1Session.onBody, Event.dataFor]
      · cases m with
        | onHeadersComplete =>
          simp only [H1Session.callback, H1Session.onHeadersComplete]
          split <;> simp [Event.dataFor]
        | onMessageComplete => simp [H1Session.callback, H1Session.onMessageComplete, Event.dataFor]
    rw [List.foldl_cons, ih, hone]
    simp [collect]

/-- Every callback but the start line's appends. -/
private theorem additive_callback {e : DataCb} (h : overwrites L e = false) :
    Additive (H1Session.callback (P := P) L) e := by
  intro s a b
  cases e with
  | onUrl =>
    have hnone : L.onUrl = none := by simpa [overwrites] using h
    simp [H1Session.callback, H1Session.onStart, hnone]
  | onStatus code =>
    have hnone : L.onStatus = none := by simpa [overwrites] using h
    simp [H1Session.callback, H1Session.onStart, hnone]
  | onHeaderField =>
    -- the first of the two spans leaves `last_was_value_` unset
    cases hl : s.lastWasValue <;> simp [H1Session.callback, H1Session.onHeaderField, hl]
  | onHeaderValue => simp [H1Session.callback, H1Session.onHeaderValue]
  | onBody => simp [H1Session.callback, H1Session.onBody]

/-- No cut falls where the element `e` is open. -/
def Uncut (e : DataCb) (cs : List (List HTok)) : Prop :=
  ∀ k, openAfter none (opsOf (cs.take k).flatten) ≠ some e

instance (e : DataCb) (cs : List (List HTok)) : Decidable (Uncut e cs) :=
  decidable_of_iff (∀ k ≤ cs.length, openAfter none (opsOf (cs.take k).flatten) ≠ some e)
    ⟨fun h k => by
      rw [List.take_eq_take_min]
      exact h _ (Nat.min_le_right _ _),
    fun h k _ => h k⟩

/-- Pieces that do not cut the start line element leave the state the uncut input leaves. -/
theorem foldl_callback_cut (s : H1Session P σ) (cs : List (List HTok))
    (h : ∀ e, overwrites L e = true → Uncut e cs) :
    (deliverAll none (cs.map opsOf)).foldl (H1Session.callback L) s =
      (deliver none (opsOf cs.flatten)).foldl (H1Session.callback L) s := by
  rw [opsOf_flatten]
  apply foldl_deliverAll
  intro k e hopen
  apply additive_callback
  cases hover : overwrites L e with
  | false => rfl
  | true =>
    rw [← List.map_take, ← opsOf_flatten] at hopen
    exact absurd hopen (h e hover k)

/-- Elements that overwrite nothing leave the start line. -/
theorem foldl_callback_start (s : H1Session P σ) (evs : List Callback)
    (h : ∀ e d, .span e d ∈ evs → overwrites L e = false) :
    (evs.foldl (H1Session.callback L) s).head.start = s.head.start := by
  induction evs generalizing s with
  | nil => rfl
  | cons ev evs ih =>
    rw [List.foldl_cons, ih _ fun e d hd => h e d (by simp [hd])]
    obtain ⟨e, d⟩ | m := ev
    · have hover := h e d (by simp)
      cases e with
      | onUrl =>
        have hnone : L.onUrl = none := by simpa [overwrites] using hover
        simp [H1Session.callback, H1Session.onStart, hnone]
      | onStatus code =>
        have hnone : L.onStatus = none := by simpa [overwrites] using hover
        simp [H1Session.callback, H1Session.onStart, hnone]
      | onHeaderField =>
        simp only [H1Session.callback, H1Session.onHeaderField]
        split <;> simp
      | onHeaderValue => rfl
      | onBody => rfl
    · cases m with
      | onHeadersComplete =>
        simp only [H1Session.callback, H1Session.onHeadersComplete]
        split <;> simp
      | onMessageComplete => rfl

/-! ## Headers -/

/-- A callback adds at most the header that is being collected. -/
private theorem callback_headers (s : H1Session P σ) (ev : Callback) :
    (H1Session.callback L s ev).head.headers = s.head.headers ∨
      (H1Session.callback L s ev).head.headers =
        s.head.headers ++ [⟨s.tempHeaderName, s.tempHeaderValue⟩] := by
  have hcommit : s.commitHeader.head.headers = s.head.headers ∨ s.commitHeader.head.headers =
      s.head.headers ++ [⟨s.tempHeaderName, s.tempHeaderValue⟩] := by
    simp only [H1Session.commitHeader]
    split
    · exact .inr rfl
    · exact .inl rfl
  obtain ⟨e, d⟩ | m := ev
  · cases e with
    | onUrl => cases h : L.onUrl <;> simp [H1Session.callback, H1Session.onStart, h]
    | onStatus code => cases h : L.onStatus <;> simp [H1Session.callback, H1Session.onStart, h]
    | onHeaderField =>
      simp only [H1Session.callback, H1Session.onHeaderField]
      split
      · exact hcommit
      · exact .inl rfl
    | onHeaderValue | onBody => exact .inl rfl
  · cases m with
    | onHeadersComplete =>
      simp only [H1Session.callback, H1Session.onHeadersComplete]
      split
      · exact hcommit
      · exact .inl rfl
    | onMessageComplete => exact .inl rfl

/-- Headers are only ever appended. -/
theorem headers_le_foldl_callback (s : H1Session P σ) (evs : List Callback) :
    s.head.headers <+: (evs.foldl (H1Session.callback L) s).head.headers := by
  induction evs generalizing s with
  | nil => exact List.prefix_rfl
  | cons ev evs ih =>
    have hone : s.head.headers <+: (H1Session.callback L s ev).head.headers := by
      rcases callback_headers L s ev with h | h
      · exact h ▸ List.prefix_rfl
      · exact h ▸ List.prefix_append _ _
    exact hone.trans (ih _)

/-- Only a field name or the end of the header section commits a header. -/
private theorem callback_quiet (s : H1Session P σ) {ev : Callback}
    (hfield : ∀ d, ev ≠ .span .onHeaderField d) (hmark : ev ≠ .mark .onHeadersComplete) :
    (H1Session.callback L s ev).head.headers = s.head.headers ∧
      (H1Session.callback L s ev).tempHeaderName = s.tempHeaderName := by
  obtain ⟨e, d⟩ | m := ev
  · cases e with
    | onUrl => cases h : L.onUrl <;> simp [H1Session.callback, H1Session.onStart, h]
    | onStatus code => cases h : L.onStatus <;> simp [H1Session.callback, H1Session.onStart, h]
    | onHeaderField => exact absurd rfl (hfield d)
    | onHeaderValue | onBody => exact ⟨rfl, rfl⟩
  · cases m with
    | onHeadersComplete => exact absurd rfl hmark
    | onMessageComplete => exact ⟨rfl, rfl⟩

/-- A field name commits nothing when no header is being assembled. -/
private theorem onHeaderField_headers (s : H1Session P σ) (d : List UInt8)
    (h : s.tempHeaderName = []) : (s.onHeaderField d).head.headers = s.head.headers := by
  simp only [H1Session.onHeaderField, H1Session.commitHeader, h]
  split <;> rfl

/-- Behind the header section at most one header is added per field name, and none for the first
    one. -/
private theorem length_headers_le (s : H1Session P σ) (evs : List Callback)
    (hmark : .mark .onHeadersComplete ∉ evs) :
    (evs.foldl (H1Session.callback L) s).head.headers.length ≤ s.head.headers.length +
      (spans .onHeaderField evs - if s.tempHeaderName = [] then 1 else 0) := by
  induction evs generalizing s with
  | nil => simp
  | cons ev evs ih =>
    have hih := ih (H1Session.callback L s ev) fun h => hmark (List.mem_cons_of_mem _ h)
    have hne : ev ≠ .mark .onHeadersComplete := fun h => hmark (by simp [h])
    rw [List.foldl_cons]
    -- a name stores the header before it, if there is one
    by_cases hfield : ∃ d, ev = .span .onHeaderField d
    · obtain ⟨d, rfl⟩ := hfield
      have hcount : spans .onHeaderField (Event.span (M := Cb) DataCb.onHeaderField d :: evs) =
          spans .onHeaderField evs + 1 := by
        simp [spans]
      by_cases hnil : s.tempHeaderName = []
      · rw [H1Session.callback, onHeaderField_headers s d hnil] at hih
        rw [if_pos hnil, hcount]
        refine Nat.le_trans hih ?_
        split <;> omega
      · have hlen : (H1Session.callback L s (.span .onHeaderField d)).head.headers.length ≤
            s.head.headers.length + 1 := by
          rcases callback_headers L s (.span .onHeaderField d) with h | h <;> simp [h]
        rw [if_neg hnil, hcount]
        refine Nat.le_trans hih ?_
        split <;> omega
    · have hquiet := callback_quiet L s (fun d h => hfield ⟨d, h⟩) hne
      have hcount : spans .onHeaderField (ev :: evs) = spans .onHeaderField evs := by
        obtain ⟨e, d⟩ | m := ev
        · have he : e ≠ .onHeaderField := fun h => hfield ⟨d, by rw [h]⟩
          simp [spans, he]
        · simp [spans]
      rw [hcount, ← hquiet.1, ← hquiet.2]
      exact hih

/-- The callbacks of one header that is not cut. -/
def headerCalls (h : HttpHeader) : List Callback :=
  [.span .onHeaderField h.name, .span .onHeaderValue h.value]

/-- A session behind some headers: all but the last are committed. -/
def atHeaders (s : H1Session P σ) (hs : List HttpHeader) : H1Session P σ :=
  match hs.getLast? with
  | none => s
  | some h =>
    { s with
      head := { s.head with headers := hs.dropLast }
      tempHeaderName := h.name
      tempHeaderValue := h.value
      lastWasValue := true }

/-- The session behind `reset_state` and a header section. -/
def afterHead (P : Llhttp) (start : σ) (hs : List HeaderLine) : H1Session P σ where
  parser := P.init
  head := { start, headers := hs.map HeaderLine.reported }
  lastWasValue := !hs.isEmpty
  headersComplete := true

/-- A fresh session, but for what the start line stored. -/
def afterLine (P : Llhttp) (start : σ) : H1Session P σ where
  parser := P.init
  head := { start }

/-- Headers that are delivered in one piece are collected one by one. -/
private theorem foldl_headerCalls (start : σ) (hs : List HttpHeader) (hne : ∀ h ∈ hs, h.name ≠ []) :
    (hs.flatMap headerCalls).foldl (H1Session.callback L) (afterLine P start) =
      atHeaders (afterLine P start) hs := by
  induction hs using List.reverseRecOn with
  | nil => rfl
  | append_singleton hs h ih =>
    rw [List.flatMap_append, List.foldl_append, ih fun g hg => hne g (by simp [hg])]
    -- the field name of `h` commits the header before it, if there is one
    cases hl : hs.getLast? with
    | none =>
      obtain rfl := List.getLast?_eq_none_iff.mp hl
      simp [atHeaders, afterLine, headerCalls, H1Session.callback, H1Session.onHeaderField,
        H1Session.onHeaderValue]
    | some g =>
      obtain ⟨init, rfl⟩ := List.getLast?_eq_some_iff.mp hl
      have hg := hne g (by simp)
      simp [atHeaders, afterLine, headerCalls, H1Session.callback, H1Session.onHeaderField,
        H1Session.onHeaderValue, H1Session.commitHeader, hg]

/-- The callbacks of headers and of the end of their section, behind those of the start line. -/
private theorem foldl_sectionCalls (start : σ) (hs : List HttpHeader)
    (hne : ∀ h ∈ hs, h.name ≠ []) :
    (hs.flatMap headerCalls ++ [Event.mark Cb.onHeadersComplete]).foldl (H1Session.callback L)
      (afterLine P start) =
    { afterLine P start with
      head := { start, headers := hs }, lastWasValue := !hs.isEmpty, headersComplete := true } := by
  rw [List.foldl_append, foldl_headerCalls L start hs hne]
  cases hl : hs.getLast? with
  | none =>
    obtain rfl := List.getLast?_eq_none_iff.mp hl
    rfl
  | some g =>
    obtain ⟨init, rfl⟩ := List.getLast?_eq_some_iff.mp hl
    have hg := hne g (by simp)
    simp [atHeaders, afterLine, H1Session.callback, H1Session.onHeadersComplete,
      H1Session.commitHeader, hg]

/-- The callbacks of a header section, behind those of the start line. -/
theorem foldl_headEvents (start : σ) (hs : List HeaderLine) :
    (hs.flatMap headerEvents ++ [Event.mark Cb.onHeadersComplete]).foldl (H1Session.callback L)
      (afterLine P start) = afterHead P start hs := by
  have hcalls : hs.flatMap headerEvents = (hs.map HeaderLine.reported).flatMap headerCalls := by
    rw [List.flatMap_map]
    rfl
  have hne : ∀ h ∈ hs.map HeaderLine.reported, h.name ≠ [] := by
    intro h hmem
    obtain ⟨line, -, rfl⟩ := List.mem_map.mp hmem
    exact line.name_ne_nil
  rw [hcalls, foldl_sectionCalls L start _ hne, List.isEmpty_map]
  rfl

/-- Body data and one whole header, followed by another field name, add that header. -/
private theorem foldl_callback_second_header (s : H1Session P σ) (hname : s.tempHeaderName = [])
    (hvalue : s.tempHeaderValue = []) (chunks : List Chunk) (t : HeaderLine) (d : List UInt8) :
    ((chunkEvents chunks ++ headerEvents t ++ [Event.span DataCb.onHeaderField d]).foldl
        (H1Session.callback L) s).head.headers =
      s.head.headers ++ [t.reported] := by
  have hbody : ∃ body, (chunkEvents chunks).foldl (H1Session.callback L) s =
      { s with bodyBuffer := body } := by
    induction chunks generalizing s with
    | nil => exact ⟨s.bodyBuffer, rfl⟩
    | cons c chunks ih => exact ih (s.onBody c.data) hname hvalue
  obtain ⟨body, hbody⟩ := hbody
  rw [List.foldl_append, List.foldl_append, hbody]
  cases hl : s.lastWasValue <;>
    simp [headerEvents, H1Session.callback, H1Session.onHeaderField, H1Session.onHeaderValue,
      H1Session.commitHeader, hname, hvalue, t.name_ne_nil, HeaderLine.reported]

/-- Behind the header section the header list changes exactly when a second trailer is opened. -/
theorem headers_tail (s : H1Session P σ) (hname : s.tempHeaderName = [])
    (hvalue : s.tempHeaderValue = []) {f : Framing} {q : List HOp} (hq : q <+: tailOps f) :
    ((deliver none q).foldl (H1Session.callback L) s).head.headers = s.head.headers ↔
      starts .onHeaderField q ≤ 1 := by
  constructor
  · intro heq
    by_contra hgt
    obtain ⟨chunks, last, t, rest, rfl⟩ := tailOps_second_trailer hq (by omega)
    obtain ⟨d, evs, hd⟩ := deliver_start (M := Cb) DataCb.onHeaderField rest
    have hclosed := closed_append (closed_chunkOps chunks last) (closed_headerOps t)
    rw [deliver_append_of_closed hclosed, hd, List.append_cons, List.foldl_append] at heq
    have hsecond := foldl_callback_second_header L s hname hvalue chunks t d
    have hgrow := (headers_le_foldl_callback L ((chunkEvents chunks ++ headerEvents t ++
      [Event.span DataCb.onHeaderField d]).foldl (H1Session.callback L) s) evs).length_le
    rw [heq, hsecond, List.length_append, List.length_singleton] at hgrow
    omega
  · intro hle
    have hmark : .mark .onHeadersComplete ∉ deliver none q := fun h =>
      headersComplete_not_mem_tailOps f (hq.subset ((mark_mem_deliver none _ q).mp h))
    have hlen := length_headers_le L s (deliver none q) hmark
    have hspans := spans_deliver_le DataCb.onHeaderField q
    rw [if_pos hname] at hlen
    exact ((headers_le_foldl_callback L s _).eq_of_length_le (by omega)).symm

end Callbacks

/-! ## Header assembly -/

/-- A header as llhttp reports it: the spans of its name and those of its value. -/
structure HeaderSpans where
  name : List (List UInt8)
  value : List (List UInt8)

namespace HeaderSpans

/-- The spans are a cut of the header. -/
structure CutOf (c : HeaderSpans) (h : HttpHeader) : Prop where
  name_ne_nil : c.name ≠ []
  value_ne_nil : c.value ≠ []
  name_eq : c.name.flatten = h.name
  value_eq : c.value.flatten = h.value

def calls (c : HeaderSpans) : List Callback :=
  c.name.map (.span .onHeaderField) ++ c.value.map (.span .onHeaderValue)

end HeaderSpans

/-- The session that `reset_state`, the spans of some headers and `on_headers_complete` leave. -/
def assembled (P : Llhttp) {σ : Type} (L : StartLine σ) (cuts : List HeaderSpans) : H1Session P σ :=
  (cuts.flatMap HeaderSpans.calls ++ [Event.mark Cb.onHeadersComplete]).foldl (H1Session.callback L)
    (H1Session.resetState P L)

section Assembly

variable {P : Llhttp} {σ : Type} (L : StartLine σ)

/-- The spans of a header do what the uncut header does. -/
private theorem foldl_calls_of_cut {c : HeaderSpans} {h : HttpHeader} (hcut : c.CutOf h)
    (s : H1Session P σ) :
    c.calls.foldl (H1Session.callback L) s = (headerCalls h).foldl (H1Session.callback L) s := by
  have hname :=
    (additive_callback (P := P) L (e := .onHeaderField) rfl).foldl_spans s hcut.name_ne_nil
  have hvalue (s' : H1Session P σ) :=
    (additive_callback (P := P) L (e := .onHeaderValue) rfl).foldl_spans s' hcut.value_ne_nil
  rw [HeaderSpans.calls, List.foldl_append, hname, hvalue, hcut.name_eq, hcut.value_eq]
  rfl

private theorem assembled_headers {cuts : List HeaderSpans} {headers : List HttpHeader}
    (hcut : List.Forall₂ HeaderSpans.CutOf cuts headers) (hne : ∀ h ∈ headers, h.name ≠ []) :
    (assembled P L cuts).head.headers = headers := by
  have huncut (s : H1Session P σ) :
    (cuts.flatMap HeaderSpans.calls).foldl (H1Session.callback L) s =
      (headers.flatMap headerCalls).foldl (H1Session.callback L) s := by
    clear hne
    induction hcut generalizing s with
    | nil => rfl
    | cons hc _ ih =>
      rw [List.flatMap_cons, List.flatMap_cons, List.foldl_append, List.foldl_append,
        foldl_calls_of_cut L hc, ih]
  have hsection := foldl_sectionCalls (P := P) L L.initial headers hne
  rw [List.foldl_append] at hsection
  rw [assembled, List.foldl_append, huncut]
  exact congrArg (fun s : H1Session P σ => s.head.headers) hsection

end Assembly

/-- Both sessions collect exactly the headers they are given, in order, however names and values are
    cut. -/
theorem header_assembly (P : Llhttp) {cuts : List HeaderSpans} {headers : List HttpHeader}
    (hcut : List.Forall₂ HeaderSpans.CutOf cuts headers) (hne : ∀ h ∈ headers, h.name ≠ []) :
    (assembled P clientStart cuts).head.headers = headers ∧
      (assembled P serverStart cuts).head.headers = headers :=
  ⟨assembled_headers clientStart hcut hne, assembled_headers serverStart hcut hne⟩

/-- A header that is cut, and one that is given twice with an empty value. -/
theorem header_assembly_twice :
    let P := oneMessage [] [] .ok
    let cuts : List HeaderSpans :=
      [⟨[ascii "a", ascii "b"], [ascii "x", [], ascii "y"]⟩, ⟨[ascii "c"], [[]]⟩,
        ⟨[ascii "c"], [[], []]⟩]
    let headers : List HttpHeader := [⟨ascii "ab", ascii "xy"⟩, ⟨ascii "c", []⟩, ⟨ascii "c", []⟩]
    (assembled P clientStart cuts).head.headers = headers ∧
      (assembled P serverStart cuts).head.headers = headers := by
  intro P cuts headers
  have hcut : List.Forall₂ HeaderSpans.CutOf cuts headers := by
    refine .cons ?_ (.cons ?_ (.cons ?_ .nil)) <;> constructor <;> decide
  exact header_assembly P hcut (by decide)

end Ppnt.Spec
