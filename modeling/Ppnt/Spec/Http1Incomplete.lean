import Ppnt.Spec.Http1ClientCorrect
import Ppnt.Spec.Http1ServerCorrect

/-!
# Streams that end early

What `request`, `body_full`, `receive_request` and `receive_body` return when the connection ends
before the message is complete.  Whether it is complete is said of the parser alone: `parseAll`
feeds the reads to a fresh one and collects its callbacks.  The two calls take the reads up to the
first one with the mark that they wait for (`Taken`).  What they have taken is whole unless it goes
on with a part of a further message, as when an interim response and the beginning of the final one
come in one read.  A response that neither `Content-Length` nor `Transfer-Encoding` gives an end is
complete when the stream ends behind its header section.  Nothing is assumed of the parser here.

The reads of a stream have bytes, and where the list ends the stream ends: a connection that has
returned no bytes does not return any later.
-/

namespace Ppnt.Spec

open Ppnt.Native Spans

/-! ## Streams -/

variable {cbs cbs' : List Callback} {bytes : List UInt8} {pieces : List (List UInt8)}
  {reads reads' reads₁ : List Read} {exit : H1Session.LoopExit}

section Stream

variable {P : Llhttp} {m : Cb}

/-- What the parser makes of pieces of a stream, its state and the callbacks, unless it finds an
    error. -/
def parseAll (P : Llhttp) (st : P.State) : List (List UInt8) → Option (P.State × List Callback)
  | [] => some (st, [])
  | piece :: pieces =>
    match P.execute st piece with
    | (st', cbs, .ok) => (parseAll P st' pieces).map fun r => (r.1, cbs ++ r.2)
    | (_, _, .error _) => none

/-- A fresh parser takes the pieces, with these callbacks. -/
def Accepts (P : Llhttp) (pieces : List (List UInt8)) (cbs : List Callback) : Prop :=
  ∃ st, parseAll P P.init pieces = some (st, cbs)

/-- The marks up to `m` have been reported. -/
def Seen : Cb → List Callback → Prop
  | .onHeadersComplete, cbs => .mark .onHeadersComplete ∈ cbs
  | .onMessageComplete, cbs => .mark .onHeadersComplete ∈ cbs ∧ .mark .onMessageComplete ∈ cbs

instance : (m : Cb) → (cbs : List Callback) → Decidable (Seen m cbs)
  | .onHeadersComplete, _ => inferInstanceAs (Decidable (_ ∈ _))
  | .onMessageComplete, _ => inferInstanceAs (Decidable (_ ∧ _))

/-- The callbacks behind the last message that is complete. -/
def unfinished (cbs : List Callback) : List Callback :=
  (cbs.reverse.takeWhile (· ≠ .mark .onMessageComplete)).reverse

/-- A message that has been begun is complete up to `m`. -/
def Whole : Cb → List Callback → Prop
  | .onHeadersComplete, cbs => unfinished cbs = [] ∨ .mark .onHeadersComplete ∈ unfinished cbs
  | .onMessageComplete, cbs => unfinished cbs = []

instance : (m : Cb) → (cbs : List Callback) → Decidable (Whole m cbs)
  | .onHeadersComplete, _ => inferInstanceAs (Decidable (_ ∨ _))
  | .onMessageComplete, _ => inferInstanceAs (Decidable (_ = _))

/-- The callbacks for the reads up to the first one by which the marks up to `m` have been
    reported. -/
def Taken (P : Llhttp) (m : Cb) (reads : List Read) (cbs : List Callback) : Prop :=
  ∃ front last rest cbs₀, reads = (front ++ [last]).map .ok ++ rest ∧ Accepts P front cbs₀ ∧
    ¬Seen m cbs₀ ∧ Accepts P (front ++ [last]) cbs ∧ Seen m cbs

/-- The message is complete up to `m`. -/
def Completes (P : Llhttp) (m : Cb) (reads : List Read) : Prop :=
  ∃ cbs, Taken P m reads cbs ∧ Whole m cbs

/-- The read with `m` goes on with a part of a further message. -/
def RunsOn (P : Llhttp) (m : Cb) (reads : List Read) : Prop :=
  ∃ cbs, Taken P m reads cbs ∧ ¬Whole m cbs

/-- The stream ends, and the parser has not reported `m`. -/
def EndsBefore (P : Llhttp) (m : Cb) (reads : List Read) : Prop :=
  ∃ pieces cbs, reads = pieces.map .ok ∧ Accepts P pieces cbs ∧ ¬Seen m cbs

theorem Seen.mono (h : Seen m cbs) (hpre : cbs <+: cbs') : Seen m cbs' := by
  cases m with
  | onHeadersComplete => exact hpre.subset h
  | onMessageComplete => exact ⟨hpre.subset h.1, hpre.subset h.2⟩

private theorem parseAll_append (st : P.State) (a b : List (List UInt8)) :
    parseAll P st (a ++ b) =
      (parseAll P st a).bind fun r => (parseAll P r.1 b).map fun r' => (r'.1, r.2 ++ r'.2) := by
  induction a generalizing st with
  | nil => simp [parseAll]
  | cons piece a ih =>
    rw [List.cons_append, parseAll, parseAll]
    rcases P.execute st piece with ⟨st', cbs, errno⟩
    cases errno with
    | ok => simp [ih, Option.map_bind, Option.bind_map, Function.comp_def]
    | error name => rfl

/-- Fewer pieces, fewer callbacks. -/
private theorem Accepts.isPrefix {a b : List (List UInt8)} (ha : Accepts P a cbs)
    (hb : Accepts P b cbs') (hab : a <+: b) : cbs <+: cbs' := by
  obtain ⟨st, ha⟩ := ha
  obtain ⟨st', hb⟩ := hb
  obtain ⟨tail, rfl⟩ := hab
  rw [parseAll_append, ha, Option.bind_some, Option.map_eq_some_iff] at hb
  obtain ⟨r, -, heq⟩ := hb
  exact ⟨r.2, (Prod.mk.inj heq).2⟩

private theorem accepts_one (h : (P.execute P.init bytes).2.2 = .ok) :
    Accepts P [bytes] (P.execute P.init bytes).2.1 := by
  rcases hexec : P.execute P.init bytes with ⟨st, cbs, errno⟩
  rw [hexec] at h
  obtain rfl : errno = .ok := h
  exact ⟨st, by simp [parseAll, hexec]⟩

private theorem Accepts.unique (h : Accepts P pieces cbs) (h' : Accepts P pieces cbs') :
    cbs = cbs' := by
  obtain ⟨st, hparse⟩ := h
  obtain ⟨st', hparse'⟩ := h'
  exact (Prod.mk.inj (Option.some.inj (hparse.symm.trans hparse'))).2

/-- Pieces at the front of one stream: the shorter list is the beginning of the longer one. -/
private theorem isPrefix_or_next {a b : List (List UInt8)} {rest : List Read}
    (h : a.map .ok ++ reads = b.map .ok ++ rest) :
    b <+: a ∨ ∃ bytes tail reads', b = a ++ bytes :: tail ∧ reads = .ok bytes :: reads' := by
  have hinj : Function.Injective (Except.ok : List UInt8 → Read) := fun _ _ => Except.ok.inj
  rcases List.append_eq_append_iff.mp h with ⟨next, hb, hreads⟩ | ⟨next, ha, -⟩
  · obtain ⟨a', tail, rfl, ha', rfl⟩ := List.map_eq_append_iff.mp hb
    obtain rfl := hinj.list_map ha'
    cases tail with
    | nil => exact .inl (by simp)
    | cons bytes tail => exact .inr ⟨bytes, tail, _, rfl, hreads⟩
  · obtain ⟨b', tail, rfl, hb', -⟩ := List.map_eq_append_iff.mp ha
    obtain rfl := hinj.list_map hb'
    exact .inl (List.prefix_append _ _)

/-- What is taken from a stream is determined. -/
private theorem taken_unique (h : Taken P m reads cbs) (h' : Taken P m reads cbs') :
    cbs = cbs' := by
  -- a shorter front would be a part of what was read before the mark
  have hle : ∀ {front last rest cbs₀ front' last' rest' cbs'},
      reads = (front ++ [last]).map .ok ++ rest → Accepts P front cbs₀ → ¬Seen m cbs₀ →
      reads = (front' ++ [last']).map .ok ++ rest' → Accepts P (front' ++ [last']) cbs' →
      Seen m cbs' → front ++ [last] <+: front' ++ [last'] := by
    intro front last rest cbs₀ front' last' rest' cbs' hreads hfront hnot hreads' haccepts hseen
    rcases isPrefix_or_next (hreads'.symm.trans hreads) with hpre | ⟨bytes, tail, _, heq, -⟩
    · exact hpre
    · have hpre : front' ++ [last'] <+: front := by
        refine List.prefix_of_prefix_length_le (List.prefix_append _ _)
          (heq ▸ List.prefix_append front [last]) ?_
        have hlen := congrArg List.length heq
        simp only [List.length_append, List.length_cons, List.length_nil] at hlen ⊢
        omega
      exact absurd (hseen.mono (haccepts.isPrefix hfront hpre)) hnot
  obtain ⟨front, last, rest, cbs₀, hreads, hfront, hnot, haccepts, hseen⟩ := h
  obtain ⟨front', last', rest', cbs₀', hreads', hfront', hnot', haccepts', hseen'⟩ := h'
  have hone := hle hreads hfront hnot hreads' haccepts' hseen'
  have htwo := hle hreads' hfront' hnot' hreads haccepts hseen
  have hfirst := haccepts.isPrefix haccepts' hone
  have hsecond := haccepts'.isPrefix haccepts htwo
  exact hfirst.eq_of_length (Nat.le_antisymm hfirst.length_le hsecond.length_le)

private theorem RunsOn.not_completes (h : RunsOn P m reads) : ¬Completes P m reads := by
  obtain ⟨cbs, htaken, hpart⟩ := h
  rintro ⟨cbs', htaken', hwhole⟩
  exact hpart (taken_unique htaken htaken' ▸ hwhole)

private theorem completes_or_runsOn (h : Taken P m reads cbs) :
    Completes P m reads ∨ RunsOn P m reads := by
  by_cases hwhole : Whole m cbs
  · exact .inl ⟨cbs, h, hwhole⟩
  · exact .inr ⟨cbs, h, hwhole⟩

private theorem EndsBefore.not_taken (h : EndsBefore P m reads) (cbs : List Callback) :
    ¬Taken P m reads cbs := by
  rintro ⟨front, last, rest, cbs₀, hreads', -, -, haccepts', hseen⟩
  obtain ⟨pieces, cbs', hreads, haccepts, hnot⟩ := h
  rw [← List.append_nil (pieces.map _)] at hreads
  rcases isPrefix_or_next (hreads.symm.trans hreads') with hpre | ⟨_, _, _, -, hnil⟩
  · exact hnot (hseen.mono (haccepts'.isPrefix haccepts hpre))
  · exact nomatch hnil

end Stream

/-! ## Read loops -/

section Loop

variable {P : Llhttp} {σ : Type} {L : StartLine σ} {m : Cb}

/-- The session has been given the pieces. -/
def HasParsed (pieces : List (List UInt8)) (s : H1Session P σ) : Prop :=
  ∃ cbs, parseAll P P.init pieces = some (s.parser, cbs) ∧ ∀ m, s.flag m = true ↔ .mark m ∈ cbs

private theorem hasParsed_reset (P : Llhttp) (L : StartLine σ) :
    HasParsed [] (H1Session.resetState P L) :=
  ⟨[], rfl, fun m => by cases m <;> simp [H1Session.flag, H1Session.resetState]⟩

theorem HasParsed.congr {s s' : H1Session P σ} (h : HasParsed pieces s)
    (hparser : s'.parser = s.parser) (hflag : ∀ m, s'.flag m = s.flag m) : HasParsed pieces s' := by
  obtain ⟨cbs, hparse, hcbs⟩ := h
  exact ⟨cbs, by rw [hparser]; exact hparse, fun m => by rw [hflag]; exact hcbs m⟩

/-- One more piece. -/
private theorem HasParsed.execute {s s₁ : H1Session P σ} (h : HasParsed pieces s)
    (hexec : s.execute L bytes = (s₁, .ok)) : HasParsed (pieces ++ [bytes]) s₁ := by
  obtain ⟨cbs, hparse, hcbs⟩ := h
  obtain ⟨rfl, herrno⟩ := Prod.mk.inj hexec
  rcases hP : P.execute s.parser bytes with ⟨st, cbs', errno⟩
  rw [hP] at herrno
  obtain rfl : errno = .ok := herrno
  refine ⟨cbs ++ cbs', ?_, fun m => ?_⟩
  · rw [parseAll_append, hparse]
    simp [parseAll, hP]
  · have hflag := foldl_callback_flag L m s cbs'
    rw [hcbs m] at hflag
    rw [List.mem_append, ← hflag]
    cases m <;> rfl

/-- The parser finds an error in the next piece. -/
private theorem HasParsed.not_accepts {tail : List (List UInt8)} {s s₁ : H1Session P σ}
    {name : String} (h : HasParsed pieces s) (hexec : s.execute L bytes = (s₁, .error name)) :
    ¬Accepts P (pieces ++ bytes :: tail) cbs := by
  rintro ⟨st, hall⟩
  obtain ⟨cbs', hparse, -⟩ := h
  obtain ⟨-, herrno⟩ := Prod.mk.inj hexec
  rcases hP : P.execute s.parser bytes with ⟨st', cbs₁, errno⟩
  rw [hP] at herrno
  obtain rfl : errno = .error name := herrno
  rw [parseAll_append, hparse] at hall
  simp [parseAll, hP] at hall

/-- A loop that is done, or that has come to the end of the stream, has given the session what it
    has taken from the stream.  If it is done, it has taken nothing, or the last read was the first
    one with the mark. -/
theorem LoopRun.given {s s' : H1Session P σ} (h : LoopRun L m s reads exit s' reads')
    (hs : HasParsed pieces s) (hreads : .ok [] ∉ reads) (hexit : exit = .done ∨ exit = .eof) :
    ∃ pieces', pieces.map .ok ++ reads = pieces'.map .ok ++ reads' ∧ HasParsed pieces' s' ∧
      pieces <+: pieces' ∧ (exit = .eof → reads' = [] ∧ s'.flag m = false) ∧
      (exit = .done → s'.flag m = true ∧ (pieces' = pieces ∨
        ∃ front last cbs₀, pieces' = front ++ [last] ∧ Accepts P front cbs₀ ∧ .mark m ∉ cbs₀)) := by
  -- on the run: the stream stays the same, and a step moves one piece of it to the session
  induction h generalizing pieces with
  | done hup => exact ⟨pieces, rfl, hs, List.prefix_rfl, by simp, fun _ => ⟨hup, .inl rfl⟩⟩
  | noReads hdown => exact ⟨pieces, rfl, hs, List.prefix_rfl, fun _ => ⟨rfl, hdown⟩, by simp⟩
  | readError | parseError => exact absurd hexit (by simp)
  | eof => exact absurd List.mem_cons_self hreads
  | @step s s₁ s' bytes reads reads' exit hdown hbytes hexec hrest ih =>
    obtain ⟨pieces', heq, hparsed, hpre, heof, hdone⟩ :=
      ih (hs.execute hexec) (fun hmem => hreads (List.mem_cons_of_mem _ hmem)) hexit
    refine ⟨pieces', by simpa using heq, hparsed, (List.prefix_append _ _).trans hpre, heof,
      fun hexit => ?_⟩
    obtain ⟨hup, hlast⟩ := hdone hexit
    refine ⟨hup, .inr ?_⟩
    rcases hlast with rfl | hlast
    · -- the mark has come with this piece
      obtain ⟨cbs, hparse, hcbs⟩ := hs
      refine ⟨pieces, bytes, cbs, rfl, ⟨_, hparse⟩, ?_⟩
      rw [← hcbs m, hdown]
      simp
    · exact hlast

/-- The parser can be given no more than these pieces of the stream, and `m` is not reported for
    them. -/
def Stuck (P : Llhttp) (m : Cb) (stream : List Read) : Prop :=
  ∃ pieces rest cbs, stream = pieces.map .ok ++ rest ∧ rest ≠ [] ∧ Accepts P pieces cbs ∧
    .mark m ∉ cbs ∧ ∀ b rest' cbs', stream = b.map .ok ++ rest' → Accepts P b cbs' → b <+: pieces

private theorem not_seen_of_not_mem (h : .mark m ∉ cbs) : ¬Seen m cbs := by
  cases m with
  | onHeadersComplete => exact h
  | onMessageComplete => exact fun hseen => h hseen.2

private theorem Stuck.not_taken {stream : List Read} (h : Stuck P m stream) (cbs : List Callback) :
    ¬Taken P m stream cbs := by
  obtain ⟨pieces, rest, cbs₁, -, -, haccepts, hmark, hall⟩ := h
  rintro ⟨front, last, rest', cbs₀, hstream, -, -, htaken, hseen⟩
  have hpre := hall _ rest' cbs hstream htaken
  exact not_seen_of_not_mem hmark (hseen.mono (htaken.isPrefix haccepts hpre))

private theorem Stuck.not_endsBefore {stream : List Read} (h : Stuck P m stream) :
    ¬EndsBefore P m stream := by
  obtain ⟨pieces, rest, cbs, hstream, hrest, -, -, hall⟩ := h
  rintro ⟨b, cbs', hb, haccepts, -⟩
  -- all of the stream would have to be in the pieces
  have hle := (hall b [] cbs' (by rw [List.append_nil]; exact hb) haccepts).length_le
  have hlen := congrArg List.length (hstream.symm.trans hb)
  simp only [List.length_append, List.length_map] at hlen
  exact hrest (List.eq_nil_of_length_eq_zero (by omega))

/-- A loop that fails has met a read that the parser cannot be given. -/
theorem LoopRun.stuck {s s' : H1Session P σ} (h : LoopRun L m s reads exit s' reads')
    (hs : HasParsed pieces s) (hexit : exit ≠ .done ∧ exit ≠ .eof) :
    Stuck P m (pieces.map .ok ++ reads) := by
  induction h generalizing pieces with
  | done => exact absurd rfl hexit.1
  | noReads | eof => exact absurd rfl hexit.2
  | readError hdown =>
    obtain ⟨cbs, hparse, hcbs⟩ := hs
    refine ⟨pieces, _, cbs, rfl, by simp, ⟨_, hparse⟩, ?_, fun b rest' cbs' heq _ => ?_⟩
    · rw [← hcbs m, hdown]
      simp
    · exact (isPrefix_or_next heq).resolve_right fun ⟨_, _, _, _, hcons⟩ => nomatch hcons
  | parseError hdown hbytes hexec =>
    have hparsed := hs
    obtain ⟨cbs, hparse, hcbs⟩ := hs
    refine ⟨pieces, _, cbs, rfl, by simp, ⟨_, hparse⟩, ?_, fun b rest' cbs' heq haccepts => ?_⟩
    · rw [← hcbs m, hdown]
      simp
    · refine (isPrefix_or_next heq).resolve_right fun ⟨bytes, tail, _, hb, hcons⟩ => ?_
      obtain ⟨hread, -⟩ := List.cons.inj hcons
      obtain rfl := Except.ok.inj hread
      exact hparsed.not_accepts hexec (hb ▸ haccepts)
  | step hdown hbytes hexec hrest ih => simpa using ih (hs.execute hexec) hexit

end Loop

/-! ## Two loops on one stream -/

section Calls

variable {P : Llhttp} {σ : Type} {L : StartLine σ}

/-- The loop for the header section returns if the section is complete or the stream ends before. -/
private theorem head_ok_iff {s' : H1Session P σ}
    (h : LoopRun L .onHeadersComplete (.resetState P L) reads exit s' reads')
    (hreads : .ok [] ∉ reads) :
    (exit = .done ↔ ∃ cbs, Taken P .onHeadersComplete reads cbs) ∧
      (exit = .eof ↔ EndsBefore P .onHeadersComplete reads) := by
  have hs := hasParsed_reset P L
  by_cases hexit : exit = .done ∨ exit = .eof
  · obtain ⟨pieces, heq, ⟨cbs, hparse, hcbs⟩, -, heof, hdone⟩ := h.given hs hreads hexit
    rw [List.map_nil, List.nil_append] at heq
    rcases hexit with rfl | rfl
    · obtain ⟨hup, hlast⟩ := hdone rfl
      have hmem := (hcbs _).mp hup
      have htaken : Taken P .onHeadersComplete reads cbs := by
        rcases hlast with rfl | ⟨front, last, cbs₀, rfl, hfront, hnot⟩
        · -- nothing has been read, so nothing has been reported
          obtain ⟨-, rfl⟩ := Prod.mk.inj (Option.some.inj hparse)
          exact absurd hmem (by simp)
        · exact ⟨front, last, reads', cbs₀, heq, hfront, hnot, ⟨_, hparse⟩, hmem⟩
      exact ⟨iff_of_true rfl ⟨cbs, htaken⟩, iff_of_false (by simp) fun hends =>
        hends.not_taken cbs htaken⟩
    · obtain ⟨rfl, hdown⟩ := heof rfl
      have hends : EndsBefore P .onHeadersComplete reads := by
        refine ⟨pieces, cbs, by rw [heq, List.append_nil], ⟨_, hparse⟩, fun hseen => ?_⟩
        have hup := (hcbs _).mpr hseen
        simp [hdown] at hup
      exact ⟨iff_of_false (by simp) fun ⟨cbs', htaken⟩ => hends.not_taken cbs' htaken,
        iff_of_true rfl hends⟩
  · have hstuck := h.stuck hs (not_or.mp hexit)
    rw [List.map_nil, List.nil_append] at hstuck
    rw [not_or] at hexit
    exact ⟨iff_of_false hexit.1 fun ⟨cbs, htaken⟩ => hstuck.not_taken cbs htaken,
      iff_of_false hexit.2 hstuck.not_endsBefore⟩

/-- The loop for the body, on what the loop for the header section has left, returns if the message
    is complete or the stream ends before. -/
private theorem body_ok_iff {s₁ s₂ s' : H1Session P σ} {exit₁ : H1Session.LoopExit}
    (hhead : LoopRun L .onHeadersComplete (.resetState P L) reads exit₁ s₁ reads₁)
    (hexit₁ : exit₁ = .done ∨ exit₁ = .eof) (hparser : s₂.parser = s₁.parser)
    (hflag : ∀ m, s₂.flag m = s₁.flag m)
    (hbody : LoopRun L .onMessageComplete s₂ reads₁ exit s' reads') (hreads : .ok [] ∉ reads) :
    (exit = .done ∨ exit = .eof) ↔
      (∃ cbs, Taken P .onMessageComplete reads cbs) ∨ EndsBefore P .onMessageComplete reads := by
  obtain ⟨pieces₁, heq₁, hparsed₁, -, heof₁, hdone₁⟩ :=
    hhead.given (hasParsed_reset P L) hreads hexit₁
  rw [List.map_nil, List.nil_append] at heq₁
  have hparsed := hparsed₁.congr hparser hflag
  have hreads₁ : .ok [] ∉ reads₁ := fun hmem => hreads (heq₁ ▸ List.mem_append_right _ hmem)
  constructor
  · intro hexit
    obtain ⟨pieces, heq, ⟨cbs, hparse, hcbs⟩, hpre, heof, hdone⟩ :=
      hbody.given hparsed hreads₁ hexit
    have hstream : reads = pieces.map .ok ++ reads' := heq₁.trans heq
    rcases hexit₁ with rfl | rfl
    · -- the header section is complete, so the second mark decides
      obtain ⟨hup₁, hlast₁⟩ := hdone₁ rfl
      obtain ⟨cbs₁, hparse₁, hcbs₁⟩ := hparsed₁
      have hheader : .mark .onHeadersComplete ∈ cbs :=
        (Accepts.isPrefix ⟨_, hparse₁⟩ ⟨_, hparse⟩ hpre).subset ((hcbs₁ _).mp hup₁)
      rcases hexit with rfl | rfl
      · obtain ⟨hup, hlast⟩ := hdone rfl
        have hseen : Seen .onMessageComplete cbs := ⟨hheader, (hcbs _).mp hup⟩
        left
        rcases hlast with rfl | ⟨front, last, cbs₀, rfl, hfront, hnot⟩
        · rcases hlast₁ with rfl | ⟨front, last, cbs₀, rfl, hfront, hnot⟩
          · obtain ⟨-, rfl⟩ := Prod.mk.inj (Option.some.inj hparse)
            exact absurd hheader (by simp)
          · exact ⟨cbs, front, last, reads', cbs₀, hstream, hfront, fun h => hnot h.1, ⟨_, hparse⟩,
              hseen⟩
        · exact ⟨cbs, front, last, reads', cbs₀, hstream, hfront, fun h => hnot h.2, ⟨_, hparse⟩,
            hseen⟩
      · obtain ⟨rfl, hdown⟩ := heof rfl
        refine .inr ⟨pieces, cbs, by rw [hstream, List.append_nil], ⟨_, hparse⟩, fun hseen => ?_⟩
        have hup := (hcbs _).mpr hseen.2
        simp [hdown] at hup
    · -- the stream has ended in the header section
      obtain ⟨rfl, hdown₁⟩ := heof₁ rfl
      obtain ⟨cbs₁, hparse₁, hcbs₁⟩ := hparsed₁
      refine .inr ⟨pieces₁, cbs₁, by rw [heq₁, List.append_nil], ⟨_, hparse₁⟩, fun hseen => ?_⟩
      have hup := (hcbs₁ _).mpr hseen.1
      simp [hdown₁] at hup
  · intro hends
    by_contra hexit
    have hstuck := hbody.stuck hparsed (not_or.mp hexit)
    rw [← heq₁] at hstuck
    exact hends.elim (fun ⟨cbs, htaken⟩ => hstuck.not_taken cbs htaken) hstuck.not_endsBefore

end Calls

/-! ## The end of a response -/

/-- The names of the fields of a header section, put together from their spans. -/
structure NameScan where
  names : List (List UInt8) := []
  /-- The name that is being reported. -/
  current : Option (List UInt8) := none
  closed : Bool := false

def NameScan.callback (n : NameScan) (cb : Callback) : NameScan :=
  if n.closed then n
  else match cb with
    | .span .onHeaderField data => { n with current := some (n.current.getD [] ++ data) }
    | .mark .onHeadersComplete => ⟨n.names ++ n.current.toList, none, true⟩
    | _ => ⟨n.names ++ n.current.toList, none, false⟩

/-- The names of the fields that the parser has reported. -/
def fieldNames (cbs : List Callback) : List (List UInt8) := (cbs.foldl NameScan.callback {}).names

/-- No field says where the body ends. -/
def NoLength (names : List (List UInt8)) : Prop :=
  ∀ name ∈ names, ignoreCaseEqual name (ascii "content-length") = false ∧
    ignoreCaseEqual name (ascii "transfer-encoding") = false

instance (names : List (List UInt8)) : Decidable (NoLength names) :=
  inferInstanceAs (Decidable (∀ name ∈ names, _))

/-- The stream ends, and with it the body of a response that has no other end. -/
def EndsBody (P : Llhttp) (reads : List Read) : Prop :=
  ∃ pieces cbs, reads = pieces.map .ok ∧ Accepts P pieces cbs ∧ .mark .onHeadersComplete ∈ cbs ∧
    .mark .onMessageComplete ∉ cbs ∧ NoLength (fieldNames cbs)

private theorem EndsBody.endsBefore {P : Llhttp} (h : EndsBody P reads) :
    EndsBefore P .onMessageComplete reads := by
  obtain ⟨pieces, cbs, hreads, haccepts, -, hmark, -⟩ := h
  exact ⟨pieces, cbs, hreads, haccepts, fun hseen => hmark hseen.2⟩

section Names

private theorem callback_closed {n : NameScan} (h : n.closed = true) (cb : Callback) :
    n.callback cb = n := by
  unfold NameScan.callback
  rw [if_pos h]

private theorem foldl_closed {n : NameScan} (h : n.closed = true) (cbs : List Callback) :
    cbs.foldl NameScan.callback n = n := by
  induction cbs with
  | nil => rfl
  | cons cb cbs ih => rw [List.foldl_cons, callback_closed h, ih]

/-- Names are put together however they are cut. -/
private theorem additive_nameScan (e : DataCb) : Additive NameScan.callback e := by
  intro n a b
  cases hclosed : n.closed with
  | true => rw [callback_closed hclosed, callback_closed hclosed, callback_closed hclosed]
  | false => cases e <;> simp [NameScan.callback, hclosed]

private theorem foldl_headerEvents (names : List (List UInt8)) (hs : List HeaderLine) :
    (hs.flatMap headerEvents).foldl NameScan.callback ⟨names, none, false⟩ =
      ⟨names ++ hs.map HeaderLine.name, none, false⟩ := by
  induction hs generalizing names with
  | nil => simp
  | cons h hs ih =>
    rw [List.flatMap_cons, List.foldl_append]
    have hone : (headerEvents h).foldl NameScan.callback ⟨names, none, false⟩ =
        ⟨names ++ [h.name], none, false⟩ := by
      simp [headerEvents, NameScan.callback]
    rw [hone, ih]
    simp

/-- A start line reports no field. -/
private theorem foldl_line {evs : List Callback} (hmark : ∀ m, .mark m ∉ evs)
    (hfield : ∀ d, .span .onHeaderField d ∉ evs) :
    evs.foldl NameScan.callback {} = {} := by
  induction evs with
  | nil => rfl
  | cons ev evs ih =>
    have hone : NameScan.callback {} ev = {} := by
      obtain ⟨e, d⟩ | m := ev
      · cases e with
        | onHeaderField => exact absurd List.mem_cons_self (hfield d)
        | _ => rfl
      · exact absurd List.mem_cons_self (hmark m)
    rw [List.foldl_cons, hone]
    exact ih (fun m h => hmark m (List.mem_cons_of_mem ev h)) fun d h =>
      hfield d (List.mem_cons_of_mem ev h)

variable {P : Llhttp} {σ : Type} {L : StartLine σ} {line : List HTok} {evs : List Callback}
  {start : σ} {hs : List HeaderLine} {f : Framing} {cs : List (List HTok)}

/-- The fields that are reported of a message are those of its header lines, however it is cut. -/
theorem fieldNames_message (hline : IsLine P L line evs start)
    (hcs : Pieces (messageToks line hs f) cs) :
    fieldNames (deliverAll none (cs.map opsOf)) = hs.map HeaderLine.name := by
  have hfield : ∀ d, .span .onHeaderField d ∉ evs := by
    intro d hd
    have hdeliver : .span .onHeaderField d ∈ deliver none (opsOf line) := by
      rw [← List.append_nil (opsOf line), deliver_append_of_closed hline.closed]
      exact List.mem_append_left _ hd
    have hnone := List.countP_eq_zero.mp hline.no_field _ (span_mem_deliver hdeliver)
    simp at hnone
  -- uncut, the header section closes the list, and what follows does not count
  have hlines := foldl_headerEvents [] hs
  rw [List.nil_append] at hlines
  rw [fieldNames, foldl_deliverAll _ _ fun k e _ => additive_nameScan e, ← opsOf_flatten,
    hcs.flatten_eq,
    opsOf_messageToks, deliver_append_of_closed (closed_headOps hline.closed hs), List.foldl_append,
    List.foldl_append, List.foldl_append, foldl_line hline.no_mark hfield, hlines,
    foldl_closed (by rfl)]
  simp [NameScan.callback]

end Names

/-! ## Well-formed messages -/

section Message

variable {P : Llhttp} {atHead : P.State → Prop} {final : LlhttpErrno} {m : Cb}
  {cs cs' : List (List HTok)}

/-- In front of further pieces a parser that tracks a message finds no error. -/
private theorem Tracks.first {st : P.State} {o : Option DataCb} (hne : cs' ≠ [])
    (h : Tracks P atHead final st o (cs ++ cs')) : Tracks P atHead .ok st o cs := by
  induction cs generalizing st o with
  | nil => trivial
  | cons c cs ih =>
    obtain ⟨hevents, herrno, hhead, hrest⟩ := h
    refine ⟨hevents, ?_, hhead, ih hrest⟩
    rw [herrno, if_neg (by simp [hne])]
    split <;> rfl

private theorem parseAll_of_tracks {st : P.State} {o : Option DataCb}
    (h : Tracks P atHead .ok st o cs) :
    ∃ st', parseAll P st (cs.map bytesOf) = some (st', deliverAll o (cs.map opsOf)) := by
  induction cs generalizing st o with
  | nil => exact ⟨st, rfl⟩
  | cons c cs ih =>
    obtain ⟨hevents, herrno, -, hrest⟩ := h
    obtain ⟨st', hparse⟩ := ih hrest
    have hok : (P.execute st (bytesOf c)).2.2 = .ok := by
      rw [herrno]
      split <;> rfl
    refine ⟨st', ?_⟩
    rcases hexec : P.execute st (bytesOf c) with ⟨st₁, cbs, errno⟩
    simp only [hexec] at hevents hok hparse
    simp [parseAll, hexec, hok, hparse, hevents, deliverAll]

private theorem readsOf_eq_map (cs : List (List HTok)) : readsOf cs = (cs.map bytesOf).map .ok := by
  rw [readsOf, List.map_map]
  rfl

/-- The callbacks for a stream are determined by its bytes. -/
private theorem callbacks_of_tracks (h : Tracks P atHead .ok P.init none cs)
    (hreads : readsOf cs = pieces.map .ok) (haccepts : Accepts P pieces cbs) :
    cbs = deliverAll none (cs.map opsOf) := by
  have hinj : Function.Injective (Except.ok : List UInt8 → Read) := fun _ _ => Except.ok.inj
  rw [readsOf_eq_map] at hreads
  obtain rfl := hinj.list_map hreads
  obtain ⟨st, hparse⟩ := haccepts
  obtain ⟨st', hparse'⟩ := parseAll_of_tracks h
  rw [hparse'] at hparse
  exact (Prod.mk.inj (Option.some.inj hparse)).2.symm

/-- A message of which a part is missing ends before its end. -/
private theorem endsBefore_of_cut {σ : Type} {L : StartLine σ} {line : List HTok}
    {evs : List Callback} {start : σ}
    {hs : List HeaderLine} {f : Framing} (hline : IsLine P L line evs start)
    (hparses : Parses P atHead final (messageToks line hs f))
    (hcs : Pieces (messageToks line hs f) (cs ++ cs'))
    (hne : cs' ≠ []) : EndsBefore P .onMessageComplete (readsOf cs) := by
  refine ⟨cs.map bytesOf, _, readsOf_eq_map cs,
    parseAll_of_tracks (Tracks.first hne (hparses _ hcs)), ?_⟩
  rintro ⟨-, hmem⟩
  rw [mark_mem_deliverAll, ← opsOf_flatten] at hmem
  exact hne (rest_eq_nil hline hcs rfl hmem)

/-- No line of the header section has one of the two names. -/
private theorem noLength_iff (hs : List HeaderLine) :
    NoLength (hs.map HeaderLine.name) ↔
      fieldValues "content-length" hs = [] ∧ fieldValues "transfer-encoding" hs = [] := by
  have hnone : ∀ name : String, fieldValues name hs = [] ↔
      ∀ h ∈ hs, ignoreCaseEqual h.name (ascii name) = false := by
    intro name
    simp [fieldValues, fieldLines, HeaderLine.reported]
  rw [hnone, hnone, NoLength, List.forall_mem_map]
  exact ⟨fun h => ⟨fun x hx => (h x hx).1, fun x hx => (h x hx).2⟩, fun h x hx =>
    ⟨h.1 x hx, h.2 x hx⟩⟩

/-- Which whole responses the end of the stream completes. -/
private theorem endsBody_response_iff {r : Response} (hparses : ParsesResponse P r [])
    (hcs : Pieces r.toks cs) : EndsBody P (readsOf cs) ↔ r.framing.selfDelimiting = false ∧
      fieldValues "content-length" r.headers = [] ∧ fieldValues "transfer-encoding" r.headers =
        [] := by
  have hline := isLine_response (P := P) r
  have htrack : Tracks P (fun _ => True) .ok P.init none cs := by
    simpa only [withExtra_nil] using hparses cs hcs
  have hmark : ∀ m, .mark m ∈ deliverAll none (cs.map opsOf) ↔ .mark m ∈ opsOf cs.flatten :=
    fun m => by
    rw [mark_mem_deliverAll, opsOf_flatten]
  have hcomplete : .mark .onMessageComplete ∉ deliverAll none (cs.map opsOf) ↔
      r.framing.selfDelimiting = false := by
    rw [hmark, messageComplete_mem_iff hline hcs, Bool.not_eq_true]
  have hnames := fieldNames_message hline hcs
  rw [← noLength_iff, ← hcomplete, ← hnames]
  constructor
  · rintro ⟨pieces, cbs, hreads, haccepts, -, hrest⟩
    rwa [← callbacks_of_tracks htrack hreads haccepts]
  · rintro hrest
    exact ⟨cs.map bytesOf, _, readsOf_eq_map cs, parseAll_of_tracks htrack,
      (hmark _).mpr (headersComplete_mem hcs), hrest⟩

end Message

/-! ## What is taken for a message -/

/-- The result is an error unless the message is complete. -/
def ErrorUnless {α : Type} (complete : Prop) (result : Except Error α) : Prop :=
  ¬complete → ∃ e, result = .error e

/-- A call that fails unless it has taken the message or the stream has ended.  `also` are early
    ends that complete the message. -/
private theorem errorUnless_iff {P : Llhttp} {m : Cb} {α : Type} {also : Prop}
    {result : Except Error α}
    (hresult : (∃ e, result = .error e) ↔ ¬((∃ cbs, Taken P m reads cbs) ∨ EndsBefore P m reads))
    (halso : also → EndsBefore P m reads) :
    ErrorUnless (Completes P m reads ∨ also) result ↔
      ¬(EndsBefore P m reads ∧ ¬also) ∧ ¬RunsOn P m reads := by
  rw [ErrorUnless, hresult]
  constructor
  · intro herror
    constructor
    · rintro ⟨hends, hnot⟩
      refine herror (not_or.mpr ⟨?_, hnot⟩) (.inr hends)
      exact fun ⟨cbs, htaken, _⟩ => hends.not_taken cbs htaken
    · intro hruns
      obtain ⟨cbs, htaken, -⟩ := id hruns
      refine herror (not_or.mpr ⟨hruns.not_completes, fun h => ?_⟩) (.inl ⟨cbs, htaken⟩)
      exact (halso h).not_taken cbs htaken
  · rintro ⟨hends, hruns⟩ hnot (⟨cbs, htaken⟩ | hend)
    · exact hnot (.inl ((completes_or_runsOn htaken).resolve_right hruns))
    · exact hends ⟨hend, fun h => hnot (.inr h)⟩

/-- The same without other ends. -/
private theorem errorUnless_completes_iff {P : Llhttp} {m : Cb} {α : Type} {result : Except Error α}
    (hresult : (∃ e, result = .error e) ↔ ¬((∃ cbs, Taken P m reads cbs) ∨ EndsBefore P m reads)) :
    ErrorUnless (Completes P m reads) result ↔ ¬EndsBefore P m reads ∧ ¬RunsOn P m reads := by
  have hiff := errorUnless_iff hresult False.elim
  simpa using hiff

section Results

variable {P : Llhttp}

/-- The loop of `request`, and what the call makes of it. -/
private theorem request_result (s : Http1Session P) (reads : List Read) :
    ∃ exit s' reads',
      LoopRun clientStart .onHeadersComplete (.resetState P clientStart) reads exit s' reads' ∧
      ((∃ e, (Http1Session.request s (.ok ()) reads).1 = .error e) ↔ exit ≠ .done ∧ exit ≠ .eof) ∧
      (Http1Session.request s (.ok ()) reads).2.1.parser = s'.parser ∧
      (∀ m, (Http1Session.request s (.ok ()) reads).2.1.flag m = s'.flag m) ∧
      (Http1Session.request s (.ok ()) reads).2.2 = reads' := by
  refine ⟨_, _, _, loopRun .onHeadersComplete (.resetState P clientStart) reads, ?_⟩
  simp only [Http1Session.request]
  rcases H1Session.readUntil clientStart .onHeadersComplete (.resetState P clientStart) reads with
    ⟨exit, s', rest⟩
  cases exit <;> simp [makeErrResult] <;> intro m <;> cases m <;> rfl

private theorem bodyFull_error_iff (s : Http1Session P) (reads : List Read) :
    (∃ e, (Http1Session.bodyFull s reads).1 = .error e) ↔
      (s.readUntil clientStart .onMessageComplete reads).1 ≠ .done ∧
        (s.readUntil clientStart .onMessageComplete reads).1 ≠ .eof := by
  unfold Http1Session.bodyFull
  rcases s.readUntil clientStart .onMessageComplete reads with ⟨exit, s', rest⟩
  cases exit <;> simp [makeErrResult]

private theorem receiveRequest_result (s : Http1ServerSession P) (reads : List Read) :
    ∃ exit s' reads',
      LoopRun serverStart .onHeadersComplete (.resetState P serverStart) reads exit s' reads' ∧
      ((∃ e, (Http1ServerSession.receiveRequest s reads).1 = .error e) ↔ exit ≠ .done) ∧
      (Http1ServerSession.receiveRequest s reads).2.1.parser = s'.parser ∧
      (∀ m, (Http1ServerSession.receiveRequest s reads).2.1.flag m = s'.flag m) ∧
      (Http1ServerSession.receiveRequest s reads).2.2 = reads' := by
  refine ⟨_, _, _, loopRun .onHeadersComplete (.resetState P serverStart) reads, ?_⟩
  unfold Http1ServerSession.receiveRequest
  rcases H1Session.readUntil serverStart .onHeadersComplete (.resetState P serverStart) reads with
    ⟨exit, s', rest⟩
  cases exit <;> simp [makeErrResult]
  intro m
  cases m <;> rfl

private theorem receiveBody_error_iff (s : Http1ServerSession P) (reads : List Read) :
    (∃ e, (Http1ServerSession.receiveBody s reads).1 = .error e) ↔
      (s.readUntil serverStart .onMessageComplete reads).1 ≠ .done ∧
        (s.readUntil serverStart .onMessageComplete reads).1 ≠ .eof := by
  unfold Http1ServerSession.receiveBody
  rcases s.readUntil serverStart .onMessageComplete reads with ⟨exit, s', rest⟩
  cases exit <;> simp [makeErrResult]

/-- `body_full` on what `request` has left. -/
private theorem bodyFull_result {s s₁ : Http1Session P} {head : HeadParts} (hreads : .ok [] ∉ reads)
    (hrequest : Http1Session.request s (.ok ()) reads = (.ok head, s₁, reads₁)) :
    (∃ e, (Http1Session.bodyFull s₁ reads₁).1 = .error e) ↔
      ¬((∃ cbs, Taken P .onMessageComplete reads cbs) ∨ EndsBefore P .onMessageComplete reads) := by
  obtain ⟨exit, s', reads', hrun, herror, hparser, hflag, hrest⟩ := request_result s reads
  rw [hrequest] at herror hparser hflag hrest
  have hexit : exit = .done ∨ exit = .eof := by
    by_contra hnot
    obtain ⟨e, he⟩ := herror.mpr (not_or.mp hnot)
    exact nomatch he
  obtain rfl : reads₁ = reads' := hrest
  rw [bodyFull_error_iff,
    ← body_ok_iff hrun hexit hparser hflag (loopRun .onMessageComplete s₁ reads₁) hreads, not_or]

/-- `receive_body` on what `receive_request` has left. -/
private theorem receiveBody_result {s s₁ : Http1ServerSession P} {request : HttpRequest}
    (hreads : .ok [] ∉ reads)
    (hrequest : Http1ServerSession.receiveRequest s reads = (.ok request, s₁, reads₁)) :
    (∃ e, (Http1ServerSession.receiveBody s₁ reads₁).1 = .error e) ↔
      ¬((∃ cbs, Taken P .onMessageComplete reads cbs) ∨ EndsBefore P .onMessageComplete reads) := by
  obtain ⟨exit, s', reads', hrun, herror, hparser, hflag, hrest⟩ := receiveRequest_result s reads
  rw [hrequest] at herror hparser hflag hrest
  have hexit : exit = .done := by
    by_contra hnot
    obtain ⟨e, he⟩ := herror.mpr hnot
    exact nomatch he
  obtain rfl : reads₁ = reads' := hrest
  rw [receiveBody_error_iff,
    ← body_ok_iff hrun (.inl hexit) hparser hflag (loopRun .onMessageComplete s₁ reads₁)
      hreads, not_or]

end Results

/-- The sample response without its last byte. -/
def truncatedOk : List UInt8 := bytesOf sampleOk.toks.dropLast

private theorem endsBefore_truncatedOk : EndsBefore okParser .onMessageComplete [.ok truncatedOk] :=
  ⟨[truncatedOk], (okParser.execute okParser.init truncatedOk).2.1, rfl,
    accepts_one (by decide +kernel), by decide +kernel⟩

/-- It has a length. -/
private theorem not_endsBody_truncatedOk : ¬EndsBody okParser [.ok truncatedOk] := by
  rintro ⟨pieces, cbs, hreads, haccepts, -, -, hnone⟩
  have hinj : Function.Injective (Except.ok : List UInt8 → Read) := fun _ _ => Except.ok.inj
  obtain rfl : [truncatedOk] = pieces := hinj.list_map hreads
  obtain rfl := (accepts_one (by decide +kernel)).unique haccepts
  exact absurd hnone (by decide +kernel)

/-- `100 Continue` and the truncated response in one read. -/
def continuedOk : List UInt8 := bytesOf sampleContinue.toks ++ truncatedOk

/-- A parser for both. -/
def continueParser : Llhttp := oneMessage (sampleContinue.toks ++ sampleOk.toks) [] .ok

end Ppnt.Spec
