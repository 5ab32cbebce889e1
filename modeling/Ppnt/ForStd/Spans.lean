import Mathlib.Data.List.Induction

/-!
# Span callbacks of an incremental parser

A push parser reports the elements of its input as *spans*: it is handed the input in pieces, and
at the end of each piece it reports the part of the open element it has seen so far.  One element
may therefore be reported as several consecutive spans, and a piece that starts with the
terminator of an open element makes it report an empty one.

The input is described as a list of operations: bytes, and the points at which an element opens
or closes or at which the parser has something else to say (a *mark*).  `deliver` computes the
events for one piece and `deliverAll` for a list of pieces.

## Key results

- `deliver_append`, `foldl_deliverAll`: a handler that only ever appends what it is given cannot
  tell how the input was cut
- `collect_deliverAll`: so the data delivered for one element is always the same
- `mark_mem_deliver`, `spans_deliver_le`: marks are never lost, and uncut input gives at
  most one span per opened element
-/

namespace Spans

variable {E M : Type}

/-- What the parser meets in its input. -/
inductive Op (E M : Type) where
  | start (e : E)
  | byte (b : UInt8)
  | stop
  | mark (m : M)
deriving DecidableEq, Repr

/-- What the parser reports. -/
inductive Event (E M : Type) where
  | span (e : E) (data : List UInt8)
  | mark (m : M)
deriving DecidableEq, Repr

/-- The report of the open element, if there is one. -/
def pending : Option (E × List UInt8) → List (Event E M)
  | some p => [.span p.1 p.2]
  | none => []

/-- One operation: the element that is open afterwards, with its data, and the events.  Whatever
    opens, closes or marks also ends the element that was open. -/
def step (o : Option (E × List UInt8)) : Op E M → Option (E × List UInt8) × List (Event E M)
  | .start e => (some (e, []), pending o)
  | .byte b => (o.map fun p => (p.1, p.2 ++ [b]), [])
  | .stop => (none, pending o)
  | .mark m => (none, pending o ++ [.mark m])

/-- A list of operations without a cut. -/
def scan (o : Option (E × List UInt8)) :
    List (Op E M) → Option (E × List UInt8) × List (Event E M)
  | [] => (o, [])
  | x :: l => ((scan (step o x).1 l).1, (step o x).2 ++ (scan (step o x).1 l).2)

/-- The events for one piece of input that starts with `o` open. -/
def deliver (o : Option E) (l : List (Op E M)) : List (Event E M) :=
  (scan (o.map fun e => (e, [])) l).2 ++ pending (scan (M := M) (o.map fun e => (e, [])) l).1

/-- The element that is open behind a piece of input. -/
def openAfter (o : Option E) (l : List (Op E M)) : Option E :=
  (scan (o.map fun e => (e, [])) l).1.map Prod.fst

/-- The events for successive pieces. -/
def deliverAll (o : Option E) : List (List (Op E M)) → List (Event E M)
  | [] => []
  | c :: cs => deliver o c ++ deliverAll (openAfter o c) cs

/-! ## Scanning -/

theorem scan_append (o : Option (E × List UInt8)) (l₁ l₂ : List (Op E M)) :
    scan o (l₁ ++ l₂) =
      ((scan (scan o l₁).1 l₂).1, (scan o l₁).2 ++ (scan (scan o l₁).1 l₂).2) := by
  induction l₁ generalizing o with
  | nil => simp [scan]
  | cons x l₁ ih => simp [scan, ih]

/-- Which element is open does not depend on the data collected for it. -/
theorem scan_fst (o o' : Option (E × List UInt8)) (h : o.map Prod.fst = o'.map Prod.fst)
    (l : List (Op E M)) : (scan o l).1.map Prod.fst = (scan o' l).1.map Prod.fst := by
  induction l generalizing o o' with
  | nil => exact h
  | cons x l ih =>
    simp only [scan]
    apply ih
    cases x with
    | byte b => simpa [step, Option.map_map, Function.comp_def] using h
    | start e => rfl
    | stop => rfl
    | mark m => rfl

theorem map_fst_open (o : Option E) :
    (o.map fun e => (e, ([] : List UInt8))).map Prod.fst = o := by
  cases o <;> rfl

theorem openAfter_append (o : Option E) (l₁ l₂ : List (Op E M)) :
    openAfter o (l₁ ++ l₂) = openAfter (openAfter o l₁) l₂ := by
  simp only [openAfter, scan_append]
  apply scan_fst
  rw [map_fst_open]

@[simp] theorem openAfter_nil (o : Option E) : openAfter (M := M) o [] = o := map_fst_open o

/-- A list that closes what it opens can be scanned on its own. -/
theorem deliver_append_of_closed {l₁ : List (Op E M)} {evs : List (Event E M)}
    (h : scan none l₁ = (none, evs)) (l₂ : List (Op E M)) :
    deliver none (l₁ ++ l₂) = evs ++ deliver none l₂ := by
  simp only [deliver, Option.map_none, scan_append, h, List.append_assoc]

theorem openAfter_of_closed {l : List (Op E M)} {evs : List (Event E M)}
    (h : scan none l = (none, evs)) : openAfter none l = none := by
  simp [openAfter, h]

theorem closed_append {l₁ l₂ : List (Op E M)} {evs₁ evs₂ : List (Event E M)}
    (h₁ : scan none l₁ = (none, evs₁)) (h₂ : scan none l₂ = (none, evs₂)) :
    scan none (l₁ ++ l₂) = (none, evs₁ ++ evs₂) := by
  rw [scan_append, h₁]
  simp [h₂]

theorem closed_flatMap {α : Type} {f : α → List (Op E M)} {g : α → List (Event E M)}
    (xs : List α) (h : ∀ x ∈ xs, scan none (f x) = (none, g x)) :
    scan none (xs.flatMap f) = (none, xs.flatMap g) := by
  induction xs with
  | nil => rfl
  | cons x xs ih =>
    rw [List.flatMap_cons, List.flatMap_cons]
    exact closed_append (h x (by simp)) (ih fun y hy => h y (by simp [hy]))

/-- Bytes extend the open element. -/
theorem scan_bytes (o : Option (E × List UInt8)) (bs : List UInt8) :
    scan (M := M) o (bs.map .byte) = (o.map fun p => (p.1, p.2 ++ bs), []) := by
  induction bs generalizing o with
  | nil => cases o <;> simp [scan]
  | cons b bs ih => cases o <;> simp [scan, step, ih]

/-- Bytes outside every element are not reported. -/
theorem closed_bytes (bs : List UInt8) : scan (E := E) (M := M) none (bs.map .byte) = (none, []) :=
  scan_bytes none bs

/-- Nor are bytes behind a piece that leaves nothing open. -/
theorem deliver_append_bytes {o : Option E} {l : List (Op E M)} (h : openAfter o l = none)
    (bs : List UInt8) : deliver o (l ++ bs.map .byte) = deliver o l := by
  have hnone : (scan (M := M) (o.map fun e => (e, [])) l).1 = none := Option.map_eq_none_iff.mp h
  simp only [deliver, scan_append, hnone, closed_bytes, List.append_nil]

/-- An element that is not cut is reported as one span. -/
theorem closed_elem (e : E) (bs : List UInt8) :
    scan (M := M) none (.start e :: bs.map .byte ++ [.stop]) = (none, [.span e bs]) := by
  rw [scan_append]
  simp [scan, step, scan_bytes, pending]

/-- An element that is open is the next thing to be reported. -/
theorem scan_open (e : E) (a : List UInt8) (l : List (Op E M)) :
    ∃ d evs, (scan (some (e, a)) l).2 ++ pending (scan (M := M) (some (e, a)) l).1 =
      .span e d :: evs := by
  induction l generalizing a with
  | nil => exact ⟨a, [], rfl⟩
  | cons x l ih =>
    cases x with
    | byte b => simpa [scan, step] using ih (a ++ [b])
    | start e' => exact ⟨a, _, rfl⟩
    | stop => exact ⟨a, _, rfl⟩
    | mark m => exact ⟨a, _, rfl⟩

theorem deliver_start (e : E) (l : List (Op E M)) :
    ∃ d evs, deliver none (.start e :: l) = .span e d :: evs :=
  scan_open e [] l

/-! ## Cutting the input -/

/-- `h` treats two spans of `e` in a row like one. -/
def Additive {S : Type} (h : S → Event E M → S) (e : E) : Prop :=
  ∀ s a b, h (h s (.span e a)) (.span e b) = h s (.span e (a ++ b))

/-- So it treats any number of them like one. -/
theorem Additive.foldl_spans {S : Type} {h : S → Event E M → S} {e : E} (hadd : Additive h e)
    (s : S) {spans : List (List UInt8)} (hne : spans ≠ []) :
    (spans.map (.span e)).foldl h s = h s (.span e spans.flatten) := by
  induction spans generalizing s with
  | nil => exact absurd rfl hne
  | cons d ds ih =>
    rw [List.map_cons, List.foldl_cons]
    cases ds with
    | nil => simp
    | cons d' ds =>
      rw [ih (h s (.span e d)) (List.cons_ne_nil d' ds), hadd]
      rfl

/-- Data held back from the open element can be reported early. -/
theorem foldl_scan_held {S : Type} {h : S → Event E M → S} {e : E} (hadd : Additive h e) (s : S)
    (a b : List UInt8) (l : List (Op E M)) :
    ((scan (some (e, a ++ b)) l).2 ++ pending (scan (M := M) (some (e, a ++ b)) l).1).foldl h s =
      ((scan (some (e, b)) l).2 ++ pending (scan (M := M) (some (e, b)) l).1).foldl h
        (h s (.span e a)) := by
  -- only `byte` leaves the element open; every other operation reports it first
  induction l generalizing b with
  | nil => simp [scan, pending, hadd s a b]
  | cons x l ih =>
    cases x with
    | byte c =>
      have hstep := ih (b ++ [c])
      rw [← List.append_assoc] at hstep
      simpa [scan, step] using hstep
    | start e' => simp [scan, step, pending, hadd s a b]
    | stop => simp [scan, step, pending, hadd s a b]
    | mark m => simp [scan, step, pending, hadd s a b]

/-- A cut is invisible to a handler that is additive in the element that is open there. -/
theorem deliver_append {S : Type} {h : S → Event E M → S} (s : S) (o : Option E)
    (l₁ l₂ : List (Op E M)) (hadd : ∀ e, openAfter o l₁ = some e → Additive h e) :
    (deliver (openAfter o l₁) l₂).foldl h ((deliver o l₁).foldl h s) =
      (deliver o (l₁ ++ l₂)).foldl h s := by
  cases hscan : (scan (o.map fun e => (e, [])) l₁).1 with
  | none => simp [deliver, openAfter, scan_append, hscan, pending]
  | some p =>
    have hopen : openAfter o l₁ = some p.1 := by simp [openAfter, hscan]
    have hheld := foldl_scan_held (hadd p.1 hopen)
      ((scan (o.map fun e => (e, [])) l₁).2.foldl h s) p.2 [] l₂
    rw [List.append_nil] at hheld
    rw [hopen]
    simp only [deliver, scan_append, hscan, List.append_assoc, List.foldl_append, Option.map_some,
      pending, List.foldl_cons, List.foldl_nil] at hheld ⊢
    exact hheld.symm

theorem deliverAll_append (o : Option E) (cs cs' : List (List (Op E M))) :
    deliverAll o (cs ++ cs') = deliverAll o cs ++ deliverAll (openAfter o cs.flatten) cs' := by
  induction cs generalizing o with
  | nil => simp [deliverAll]
  | cons c cs ih => simp [deliverAll, ih, openAfter_append]

/-- A handler that is additive in every element that is open at a cut ends in the state it ends in
    for the uncut input. -/
theorem foldl_deliverAll {S : Type} {h : S → Event E M → S} (s : S) (cs : List (List (Op E M)))
    (hadd : ∀ k e, openAfter none (cs.take k).flatten = some e → Additive h e) :
    (deliverAll none cs).foldl h s = (deliver none cs.flatten).foldl h s := by
  -- from the right: the last piece is delivered behind the uncut rest
  induction cs using List.reverseRecOn with
  | nil => rfl
  | append_singleton cs c ih =>
    have htake : ∀ k, (cs ++ [c]).take (min k cs.length) = cs.take k := fun k => by
      rw [List.take_append_of_le_length (Nat.min_le_right _ _), ← List.take_eq_take_min]
    have ih' := ih fun k e hk => hadd (min k cs.length) e (by rw [htake]; exact hk)
    have hlast := hadd (min cs.length cs.length)
    rw [htake, List.take_length] at hlast
    rw [deliverAll_append, List.foldl_append, ih', List.flatten_append]
    simp only [deliverAll, List.append_nil, List.flatten_cons, List.flatten_nil]
    exact deliver_append s none cs.flatten c hlast

/-! ## Marks, data and span counts -/

/-- A prefix of `l₁ ++ x :: l₂` either stops before `x` or contains it. -/
theorem prefix_or_extends {α : Type} {p l₁ l₂ : List α} {x : α} (hp : p <+: l₁ ++ x :: l₂) :
    p <+: l₁ ∨ l₁ ++ [x] <+: p := by
  have hl : l₁ ++ [x] <+: l₁ ++ x :: l₂ := ⟨l₂, by simp⟩
  rcases Nat.lt_or_ge p.length (l₁ ++ [x]).length with hlt | hge
  · rw [List.length_append, List.length_singleton] at hlt
    exact .inl (List.prefix_of_prefix_length_le hp (List.prefix_append _ _) (by omega))
  · exact .inr (List.prefix_of_prefix_length_le hl hp hge)

theorem mark_mem_scan (o : Option (E × List UInt8)) (m : M) (l : List (Op E M)) :
    Event.mark m ∈ (scan o l).2 ↔ Op.mark m ∈ l := by
  have hpending : ∀ o : Option (E × List UInt8), Event.mark m ∉ pending o := by
    intro o
    cases o <;> simp [pending]
  induction l generalizing o with
  | nil => simp [scan]
  | cons x l ih => cases x <;> simp [scan, step, ih, hpending]

/-- Marks are neither lost nor invented. -/
theorem mark_mem_deliver (o : Option E) (m : M) (l : List (Op E M)) :
    Event.mark m ∈ deliver o l ↔ Op.mark m ∈ l := by
  rw [deliver, List.mem_append, mark_mem_scan]
  cases (scan (M := M) (o.map fun e => (e, [])) l).1 <;> simp [pending]

theorem mark_mem_deliverAll (o : Option E) (m : M) (cs : List (List (Op E M))) :
    Event.mark m ∈ deliverAll o cs ↔ Op.mark m ∈ cs.flatten := by
  induction cs generalizing o with
  | nil => simp [deliverAll]
  | cons c cs ih => simp only [deliverAll, List.mem_append, mark_mem_deliver, ih, List.flatten_cons]

/-- A span is reported for an element that was open or is opened. -/
theorem span_mem_scan {o : Option (E × List UInt8)} {e : E} {d : List UInt8}
    {l : List (Op E M)}
    (h : Event.span e d ∈ (scan o l).2 ++ pending (M := M) (scan (M := M) o l).1) :
    o.map Prod.fst = some e ∨ Op.start e ∈ l := by
  have hpending : ∀ o : Option (E × List UInt8), Event.span e d ∈ pending (M := M) o →
      o.map Prod.fst = some e := by
    intro o ho
    cases o <;> simp_all [pending]
  induction l generalizing o with
  | nil => exact .inl (hpending o (by simpa [scan] using h))
  | cons x l ih =>
    simp only [scan, List.append_assoc, List.mem_append] at h
    rcases h with h | h
    · cases x <;> simp only [step, List.mem_append, List.mem_singleton, reduceCtorEq, or_false,
        List.not_mem_nil] at h <;> exact .inl (hpending o h)
    · rcases ih (List.mem_append.mpr h) with hopen | hstart
      · cases x <;> simp_all [step, Option.map_map, Function.comp_def]
      · exact .inr (List.mem_cons_of_mem _ hstart)

/-- Only an element that was opened is reported. -/
theorem span_mem_deliver {e : E} {d : List UInt8} {l : List (Op E M)}
    (h : Event.span e d ∈ deliver none l) : Op.start e ∈ l := by
  simpa using span_mem_scan h

/-- Only an element that was opened is open. -/
theorem start_mem_of_open {o : Option E} {e : E} {l : List (Op E M)}
    (h : openAfter o l = some e) : o = some e ∨ Op.start e ∈ l := by
  obtain ⟨p, hp, rfl⟩ := Option.map_eq_some_iff.mp h
  have hmem : Event.span p.1 p.2 ∈ (scan (o.map fun e => (e, [])) l).2 ++
      pending (M := M) (scan (M := M) (o.map fun e => (e, [])) l).1 := by
    simp [hp, pending]
  rw [← map_fst_open o]
  exact span_mem_scan hmem

theorem span_mem_deliverAll {o : Option E} {e : E} {d : List UInt8} {cs : List (List (Op E M))}
    (h : Event.span e d ∈ deliverAll o cs) : o = some e ∨ Op.start e ∈ cs.flatten := by
  induction cs generalizing o with
  | nil => simp [deliverAll] at h
  | cons c cs ih =>
    have hc : ∀ {x : Prop}, x ∨ Op.start e ∈ c → x ∨ Op.start e ∈ (c :: cs).flatten :=
      fun hx => hx.imp_right fun hc => by simp [hc]
    rcases List.mem_append.mp h with h | h
    · rw [← map_fst_open o]
      exact hc (span_mem_scan h)
    · rcases ih h with hopen | hstart
      · exact hc (start_mem_of_open hopen)
      · exact .inr (by simp [hstart])

variable [DecidableEq E]

/-- The data an event carries for `e`. -/
def Event.dataFor (e : E) : Event E M → List UInt8
  | .span e' d => if e' = e then d else []
  | .mark _ => []

/-- The data delivered for `e`, in order. -/
def collect (e : E) (evs : List (Event E M)) : List UInt8 := evs.flatMap (Event.dataFor e)

@[simp] theorem collect_append (e : E) (evs evs' : List (Event E M)) :
    collect e (evs ++ evs') = collect e evs ++ collect e evs' := by
  simp [collect]

theorem collect_eq_nil {e : E} {evs : List (Event E M)} (h : ∀ d, Event.span e d ∉ evs) :
    collect e evs = [] := by
  rw [collect, List.flatMap_eq_nil_iff]
  intro ev hev
  obtain ⟨e', d⟩ | m := ev
  · have hne : e' ≠ e := fun heq => h d (heq ▸ hev)
    simp [Event.dataFor, hne]
  · rfl

private theorem foldl_dataFor (e : E) (evs : List (Event E M)) (acc : List UInt8) :
    evs.foldl (fun acc ev => acc ++ ev.dataFor e) acc = acc ++ collect e evs := by
  induction evs generalizing acc with
  | nil => simp [collect]
  | cons ev evs ih => simp [ih, collect]

/-- The data delivered for an element does not depend on the cuts. -/
theorem collect_deliverAll (e : E) (cs : List (List (Op E M))) :
    collect e (deliverAll none cs) = collect e (deliver none cs.flatten) := by
  have hcut := foldl_deliverAll (h := fun acc (ev : Event E M) => acc ++ ev.dataFor e) [] cs
    fun _ e' _ s a b => by
      by_cases he : e' = e <;> simp [Event.dataFor, he]
  simpa only [foldl_dataFor, List.nil_append] using hcut

/-- How many spans of `e` there are. -/
def spans (e : E) (evs : List (Event E M)) : Nat :=
  evs.countP fun ev => match ev with | .span e' _ => e' = e | .mark _ => false

@[simp] theorem spans_append (e : E) (evs evs' : List (Event E M)) :
    spans e (evs ++ evs') = spans e evs + spans e evs' := List.countP_append

/-- How often `e` is opened. -/
def starts (e : E) (l : List (Op E M)) : Nat :=
  l.countP fun x => match x with | .start e' => e' = e | _ => false

@[simp] theorem starts_append (e : E) (l₁ l₂ : List (Op E M)) :
    starts e (l₁ ++ l₂) = starts e l₁ + starts e l₂ := List.countP_append

theorem starts_eq_zero {e : E} {l : List (Op E M)} (h : Op.start e ∉ l) : starts e l = 0 := by
  rw [starts, List.countP_eq_zero]
  intro x hx
  cases x with
  | start e' =>
    have hne : e' ≠ e := fun heq => h (heq ▸ hx)
    simpa using hne
  | byte b | stop | mark m => simp

theorem starts_le_of_isPrefix {e : E} {p l : List (Op E M)} (h : p <+: l) :
    starts e p ≤ starts e l := h.sublist.countP_le

/-- A prefix in which `e` is opened more often than in `l₁` reaches beyond `l₁`. -/
theorem prefix_of_starts_lt {e : E} {p l₁ l₂ : List (Op E M)} {x : Op E M}
    (hp : p <+: l₁ ++ x :: l₂) (h : starts e l₁ < starts e p) : l₁ ++ [x] <+: p := by
  rcases prefix_or_extends hp with hle | hge
  · have hstarts := starts_le_of_isPrefix (e := e) hle
    omega
  · exact hge

/-- One span at most is reported for each opening. -/
private theorem spans_scan_le (e : E) (o : Option (E × List UInt8)) (l : List (Op E M)) :
    spans e (scan o l).2 + spans e (pending (M := M) (scan (M := M) o l).1) ≤
      spans e (pending (M := M) o) + starts e l := by
  induction l generalizing o with
  | nil => simp [scan, starts, spans]
  | cons x l ih =>
    have hl := ih (step o x).1
    simp only [scan, spans_append] at hl ⊢
    -- an open element is counted once, by the operation that ends it
    cases x with
    | byte b =>
      have hdata : spans e (pending (M := M) (step (M := M) o (.byte b)).1) =
          spans e (pending (M := M) o) := by
        cases o <;> simp [step, pending, spans]
      have hstarts : starts e (Op.byte b :: l) = starts e l := by simp [starts]
      have hnone : spans e (step (M := M) o (.byte b)).2 = 0 := rfl
      omega
    | stop =>
      have hstarts : starts e (Op.stop :: l) = starts e l := by simp [starts]
      have hnone : spans e (pending (M := M) (step (M := M) o .stop).1) = 0 := rfl
      have hsome : spans e (step (M := M) o .stop).2 = spans e (pending (M := M) o) := rfl
      omega
    | mark m =>
      have hstarts : starts e (Op.mark m :: l) = starts e l := by simp [starts]
      have hnone : spans e (pending (M := M) (step o (.mark m)).1) = 0 := rfl
      have hsome : spans e (step o (.mark m)).2 = spans e (pending (M := M) o) := by
        simp [step, spans]
      omega
    | start e' =>
      have hstarts : starts e (Op.start e' :: l) =
          starts e l + spans e (pending (M := M) (step (M := M) o (.start e')).1) := by
        simp [starts, step, pending, spans, List.countP_cons]
      have hsome : spans e (step (M := M) o (.start e')).2 = spans e (pending (M := M) o) := rfl
      omega

/-- Uncut input gives at most one span for each time the element opens. -/
theorem spans_deliver_le (e : E) (l : List (Op E M)) : spans e (deliver none l) ≤ starts e l := by
  have h := spans_scan_le (M := M) e none l
  simpa [deliver, pending, spans] using h

/-! ## Input bytes with their operations

Input can only be cut between bytes.  A token is a byte with the operations the parser performs
when it sees the byte and before it takes it (`before`), and those it performs once it has taken
it (`after`). -/

omit [DecidableEq E]

/-- A byte of the input and what the parser does around it. -/
structure Tok (E M : Type) where
  byte : UInt8
  before : List (Op E M) := []
  after : List (Op E M) := []

def Tok.ops (t : Tok E M) : List (Op E M) := t.before ++ .byte t.byte :: t.after

def opsOf (ts : List (Tok E M)) : List (Op E M) := ts.flatMap Tok.ops

def bytesOf (ts : List (Tok E M)) : List UInt8 := ts.map Tok.byte

/-- Bytes without operations. -/
def plain (bs : List UInt8) : List (Tok E M) := bs.map fun b => { byte := b }

/-- Operations performed on seeing the first byte. -/
def onFirst (ops : List (Op E M)) : List (Tok E M) → List (Tok E M)
  | [] => []
  | t :: ts => { t with before := ops ++ t.before } :: ts

/-- Operations performed once the last byte is taken. -/
def onLast (ops : List (Op E M)) : List (Tok E M) → List (Tok E M)
  | [] => []
  | [t] => [{ t with after := t.after ++ ops }]
  | t :: t' :: ts => t :: onLast ops (t' :: ts)

@[simp] theorem opsOf_nil : opsOf ([] : List (Tok E M)) = [] := rfl

@[simp] theorem opsOf_append (ts ts' : List (Tok E M)) :
    opsOf (ts ++ ts') = opsOf ts ++ opsOf ts' := by
  simp [opsOf]

theorem opsOf_flatten (cs : List (List (Tok E M))) :
    opsOf cs.flatten = (cs.map opsOf).flatten := by
  induction cs with
  | nil => rfl
  | cons c cs ih => simp [ih]

theorem opsOf_isPrefix {ts ts' : List (Tok E M)} (h : ts <+: ts') : opsOf ts <+: opsOf ts' := by
  obtain ⟨r, rfl⟩ := h
  exact ⟨opsOf r, (opsOf_append ts r).symm⟩

theorem eq_nil_of_opsOf {ts : List (Tok E M)} (h : opsOf ts = []) : ts = [] := by
  cases ts with
  | nil => rfl
  | cons t ts => simp [opsOf, Tok.ops] at h

theorem opsOf_flatMap {α : Type} (xs : List α) (f : α → List (Tok E M)) :
    opsOf (xs.flatMap f) = xs.flatMap fun x => opsOf (f x) := by
  simp [opsOf, List.flatMap_assoc]

@[simp] theorem opsOf_plain (bs : List UInt8) :
    opsOf (plain bs : List (Tok E M)) = bs.map .byte := by
  induction bs with
  | nil => rfl
  | cons b bs ih => simpa [plain, opsOf, Tok.ops] using ih

theorem opsOf_onFirst (ops : List (Op E M)) {ts : List (Tok E M)} (h : ts ≠ []) :
    opsOf (onFirst ops ts) = ops ++ opsOf ts := by
  cases ts with
  | nil => exact absurd rfl h
  | cons t ts => simp [onFirst, opsOf, Tok.ops]

theorem opsOf_onLast (ops : List (Op E M)) {ts : List (Tok E M)} (h : ts ≠ []) :
    opsOf (onLast ops ts) = opsOf ts ++ ops := by
  induction ts with
  | nil => exact absurd rfl h
  | cons t ts ih =>
    cases ts with
    | nil => simp [onLast, opsOf, Tok.ops]
    | cons t' ts =>
      have hrest := ih (List.cons_ne_nil _ _)
      simp only [onLast, opsOf, List.flatMap_cons] at hrest ⊢
      rw [hrest]
      simp

@[simp] theorem bytesOf_append (ts ts' : List (Tok E M)) :
    bytesOf (ts ++ ts') = bytesOf ts ++ bytesOf ts' := by
  simp [bytesOf]

@[simp] theorem bytesOf_plain (bs : List UInt8) : bytesOf (plain bs : List (Tok E M)) = bs := by
  rw [bytesOf, plain, List.map_map]
  exact List.map_id bs

@[simp] theorem length_bytesOf (ts : List (Tok E M)) : (bytesOf ts).length = ts.length := by
  simp [bytesOf]

theorem plain_ne_nil {bs : List UInt8} (h : bs ≠ []) : (plain bs : List (Tok E M)) ≠ [] := by
  simpa [plain] using h

theorem onFirst_ne_nil {ops : List (Op E M)} {ts : List (Tok E M)} (h : ts ≠ []) :
    onFirst ops ts ≠ [] := by
  cases ts with
  | nil => exact absurd rfl h
  | cons t ts => simp [onFirst]

/-- Elements open when a byte is seen, never behind one. -/
def OpensOnBytes (ts : List (Tok E M)) : Prop := ∀ t ∈ ts, ∀ e, Op.start e ∉ t.after

theorem opensOnBytes_plain (bs : List UInt8) : OpensOnBytes (plain bs : List (Tok E M)) := by
  intro t ht e
  obtain ⟨b, -, rfl⟩ := List.mem_map.mp ht
  exact List.not_mem_nil

theorem OpensOnBytes.append {ts ts' : List (Tok E M)} (h : OpensOnBytes ts)
    (h' : OpensOnBytes ts') : OpensOnBytes (ts ++ ts') := by
  intro t ht
  rcases List.mem_append.mp ht with ht | ht
  · exact h t ht
  · exact h' t ht

theorem OpensOnBytes.onFirst {ts : List (Tok E M)} (h : OpensOnBytes ts) (ops : List (Op E M)) :
    OpensOnBytes (onFirst ops ts) := by
  cases ts with
  | nil => exact h
  | cons t ts =>
    intro t' ht'
    rcases List.mem_cons.mp ht' with rfl | ht'
    · exact h t (List.mem_cons_self ..)
    · exact h t' (List.mem_cons_of_mem _ ht')

theorem OpensOnBytes.onLast {ts : List (Tok E M)} (h : OpensOnBytes ts) {ops : List (Op E M)}
    (hops : ∀ e, Op.start e ∉ ops) : OpensOnBytes (onLast ops ts) := by
  induction ts with
  | nil => exact h
  | cons t ts ih =>
    have hts : OpensOnBytes ts := fun t' ht' => h t' (List.mem_cons_of_mem _ ht')
    cases ts with
    | nil =>
      intro t' ht' e
      obtain rfl := List.mem_singleton.mp ht'
      rw [List.mem_append]
      exact not_or.mpr ⟨h t (List.mem_cons_self ..) e, hops e⟩
    | cons t' ts =>
      intro u hu
      rcases List.mem_cons.mp hu with rfl | hu
      · exact h u (List.mem_cons_self ..)
      · exact ih hts u hu

private theorem scan_fst_of_no_start {o : Option (E × List UInt8)} {e : E} {d : List UInt8}
    {l : List (Op E M)} (hl : ∀ e', Op.start e' ∉ l) (h : (scan o l).1 = some (e, d)) :
    ∃ d₀, o = some (e, d₀) ∧ d₀ <+: d := by
  induction l generalizing o with
  | nil => exact ⟨d, h, List.prefix_rfl⟩
  | cons x l ih =>
    obtain ⟨d₁, hd₁, hpre⟩ := ih (fun e' he' => hl e' (List.mem_cons_of_mem _ he')) h
    cases x with
    | start e' => exact absurd (List.mem_cons_self ..) (hl e')
    | stop => simp [step] at hd₁
    | mark m => simp [step] at hd₁
    | byte b =>
      obtain ⟨p, rfl, hp⟩ := Option.map_eq_some_iff.mp hd₁
      simp only [Prod.mk.injEq] at hp
      obtain ⟨rfl, rfl⟩ := hp
      exact ⟨p.2, rfl, (List.prefix_append _ _).trans hpre⟩

variable [DecidableEq E]

/-- Where elements open on a byte, an element that is open at a cut has at least one byte before
    the cut. -/
theorem collect_ne_nil_of_open {ts : List (Tok E M)} {e : E} (hts : OpensOnBytes ts)
    (h : openAfter none (opsOf ts) = some e) : collect e (deliver none (opsOf ts)) ≠ [] := by
  cases ts using List.reverseRecOn with
  | nil => simp at h
  | append_singleton ts t =>
    obtain ⟨⟨e', d⟩, hopen, rfl⟩ := Option.map_eq_some_iff.mp h
    have hsplit : opsOf (ts ++ [t]) = (opsOf ts ++ t.before) ++ .byte t.byte :: t.after := by
      simp [opsOf, Tok.ops]
    have hscan := hopen
    rw [hsplit, scan_append] at hscan
    obtain ⟨d₀, hd₀, hpre⟩ := scan_fst_of_no_start (hts t (by simp)) hscan
    obtain ⟨p, -, hp⟩ := Option.map_eq_some_iff.mp hd₀
    simp only [Prod.mk.injEq] at hp
    -- the element was open when the last byte was taken, so that byte is part of it
    have hne : d ≠ [] := by
      rintro rfl
      have hnil := List.prefix_nil.mp hpre
      rw [← hp.2] at hnil
      simp at hnil
    rw [deliver, hopen, collect_append]
    simp [collect, pending, Event.dataFor, hne]

end Spans
