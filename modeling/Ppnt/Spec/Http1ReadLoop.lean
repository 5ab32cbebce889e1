import Ppnt.Spec.Http1Session

/-!
# The read loop of an HTTP/1 session

How far the loops of `receive_request`, `receive_body`, `request` and `body_full` get on a message
that arrives in pieces, and in which state they leave the session.
-/

namespace Ppnt.Spec

open Ppnt.Native Spans

/-! ## The read loop -/

variable {m : Cb} {reads reads' : List Read} {exit : H1Session.LoopExit} {o : Option DataCb}
  {name : String} {e : DataCb} {q : List HOp}

section ReadLoop

variable {P : Llhttp} {σ : Type} {L : StartLine σ} {atHead : P.State → Prop}
  {final : LlhttpErrno}

/-- The pieces up to and including the one with the mark `m`, and the others. -/
def cutAt (m : Cb) : List (List HTok) → List (List HTok) × List (List HTok)
  | [] => ([], [])
  | c :: cs => if .mark m ∈ opsOf c then ([c], cs) else (c :: (cutAt m cs).1, (cutAt m cs).2)

private theorem cutAt_append (m : Cb) (cs : List (List HTok)) :
    (cutAt m cs).1 ++ (cutAt m cs).2 = cs := by
  induction cs with
  | nil => rfl
  | cons c cs ih =>
    simp only [cutAt]
    split
    · rfl
    · simp [ih]

/-- The reads that deliver the pieces. -/
def readsOf (cs : List (List HTok)) : List Read := cs.map fun c => .ok (bytesOf c)

/-- A loop whose flag is up does not read. -/
theorem readUntil_of_flag {s : H1Session P σ} (h : s.flag m = true) (reads : List Read) :
    s.readUntil L m reads = (.done, s, reads) := by
  unfold H1Session.readUntil
  rw [if_pos h]

/-- How a loop runs, from the session and the reads it starts with to how it ends, the session it
    leaves and the reads that are left. -/
inductive LoopRun (L : StartLine σ) (m : Cb) :
    H1Session P σ → List Read → H1Session.LoopExit → H1Session P σ → List Read → Prop where
  | done {s : H1Session P σ} {reads : List Read} (hflag : s.flag m = true) :
    LoopRun L m s reads .done s reads
  | noReads {s : H1Session P σ} (hflag : s.flag m = false) : LoopRun L m s [] .eof s []
  | readError {s : H1Session P σ} {e : Error} {reads : List Read} (hflag : s.flag m = false) :
    LoopRun L m s (.error e :: reads) (.readError e) s reads
  | eof {s : H1Session P σ} {reads : List Read} (hflag : s.flag m = false) :
    LoopRun L m s (.ok [] :: reads) .eof s reads
  | parseError {s s' : H1Session P σ} {bytes : List UInt8} {reads : List Read} {name : String}
    (hflag : s.flag m = false) (hbytes : bytes ≠ [])
    (hexec : s.execute L bytes = (s', .error name)) :
    LoopRun L m s (.ok bytes :: reads) (.parseError name) s' reads
  | step {s s₁ s' : H1Session P σ} {bytes : List UInt8} {reads reads' : List Read}
    {exit : H1Session.LoopExit} (hflag : s.flag m = false) (hbytes : bytes ≠ [])
    (hexec : s.execute L bytes = (s₁, .ok)) (hrest : LoopRun L m s₁ reads exit s' reads') :
    LoopRun L m s (.ok bytes :: reads) exit s' reads'

/-- How a loop runs, whatever it reads. -/
theorem loopRun (m : Cb) (s : H1Session P σ) (reads : List Read) :
    LoopRun L m s reads (s.readUntil L m reads).1 (s.readUntil L m reads).2.1
      (s.readUntil L m reads).2.2 := by
  induction reads generalizing s with
  | nil =>
    by_cases hflag : s.flag m = true
    · rw [readUntil_of_flag hflag]
      exact .done hflag
    · rw [H1Session.readUntil, if_neg hflag]
      exact .noReads (Bool.eq_false_iff.mpr hflag)
  | cons read reads ih =>
    by_cases hup : s.flag m = true
    · rw [readUntil_of_flag hup]
      exact .done hup
    · have hflag := Bool.eq_false_iff.mpr hup
      -- the flag is down, so the loop reads
      cases read with
      | error e =>
        rw [H1Session.readUntil, if_neg hup]
        exact .readError hflag
      | ok bytes =>
        rw [H1Session.readUntil, if_neg hup]
        by_cases hbytes : bytes = []
        · subst hbytes
          exact .eof hflag
        · rcases hexec : s.execute L bytes with ⟨s₁, errno⟩
          rw [if_neg hbytes]
          cases errno with
          | ok => exact .step hflag hbytes hexec (ih s₁)
          | error name => exact .parseError hflag hbytes hexec

/-- A loop leaves an end of the reads. -/
private theorem LoopRun.suffix {s s' : H1Session P σ} (h : LoopRun L m s reads exit s' reads') :
    reads' <:+ reads := by
  induction h with
  | done | noReads => exact List.suffix_rfl
  | readError | eof | parseError => exact List.suffix_cons _ _
  | step _ _ _ _ ih => exact ih.trans (List.suffix_cons _ _)

/-- A loop whose flag is down takes a read. -/
private theorem LoopRun.suffix_tail {s s' : H1Session P σ} {read : Read}
    (h : LoopRun L m s (read :: reads) exit s' reads') (hdown : s.flag m = false) :
    reads' <:+ reads := by
  cases h with
  | done hflag => simp [hdown] at hflag
  | readError | eof | parseError => exact List.suffix_rfl
  | step _ _ _ hrest => exact hrest.suffix

/-- A loop that is done has seen the mark. -/
theorem LoopRun.flag {s s' : H1Session P σ} (h : LoopRun L m s reads exit s' reads')
    (hexit : exit = .done) :
    s'.flag m = true := by
  induction h with
  | done hflag => exact hflag
  | step _ _ _ _ ih => exact ih hexit
  | _ => exact nomatch hexit

private theorem readsOf_cons_append (c : List HTok) (cs : List (List HTok)) (more : List Read) :
    readsOf (c :: cs) ++ more = .ok (bytesOf c) :: (readsOf cs ++ more) := rfl

/-- One iteration. -/
private theorem readUntil_cons (m : Cb) {s : H1Session P σ} {c : List HTok} {cs : List (List HTok)}
    (reads : List Read) (htrack : Tracks P atHead final s.parser o (c :: cs)) (hc : c ≠ [])
    (hflag : s.flag m = false) :
    s.readUntil L m (.ok (bytesOf c) :: reads) =
      match (if cs = [] then final else .ok) with
      | .ok => H1Session.readUntil L m { (deliver o (opsOf c)).foldl (H1Session.callback L) s with
          parser := (P.execute s.parser (bytesOf c)).1 } reads
      | .error name => (.parseError name,
          { (deliver o (opsOf c)).foldl (H1Session.callback L) s with
            parser := (P.execute s.parser (bytesOf c)).1 }, reads) := by
  obtain ⟨hcbs, herrno, -, -⟩ := htrack
  have hbytes : bytesOf c ≠ [] := by simpa [bytesOf] using hc
  rw [H1Session.readUntil]
  simp only [hflag, Bool.false_eq_true, if_false, hbytes, H1Session.execute, hcbs, herrno]
  generalize (if cs = [] then final else .ok) = errno
  cases errno <;> rfl

/-- Two batches of callbacks with the parser updated in between. -/
private theorem foldl_callback_append (s : H1Session P σ) (p q : P.State)
    (evs evs' : List Callback) :
    { evs'.foldl (H1Session.callback L)
        { evs.foldl (H1Session.callback L) s with parser := p } with parser := q } =
      { (evs ++ evs').foldl (H1Session.callback L) s with parser := q } := by
  rw [foldl_callback_setParser, List.foldl_append]

private theorem flag_setParser (s : H1Session P σ) (p : P.State) (m : Cb) :
    ({ s with parser := p } : H1Session P σ).flag m = s.flag m := by
  cases m <;> rfl

/-- An iteration on a piece without the mark goes on to the next piece. -/
private theorem readUntil_continue {s : H1Session P σ} {c : List HTok} {cs : List (List HTok)}
    (reads : List Read) (htrack : Tracks P atHead final s.parser o (c :: cs)) (hc : c ≠ [])
    (hflag : s.flag m = false) (hm : .mark m ∉ opsOf c) (hok : cs = [] → final = .ok) :
    ∃ s', s' = { (deliver o (opsOf c)).foldl (H1Session.callback L) s with
        parser := (P.execute s.parser (bytesOf c)).1 } ∧
      s.readUntil L m (.ok (bytesOf c) :: reads) = s'.readUntil L m reads ∧
      s'.flag m = false := by
  refine ⟨_, rfl, ?_, ?_⟩
  · have herrno : (if cs = [] then final else .ok) = LlhttpErrno.ok := by
      split
      · exact hok ‹_›
      · rfl
    rw [readUntil_cons m reads htrack hc hflag, herrno]
  · rw [flag_setParser, Bool.eq_false_iff, Ne, foldl_callback_flag, mark_mem_deliver, hflag]
    simp [hm]

/-- The loop stops behind the piece that holds the mark. -/
theorem readUntil_done (m : Cb) {s : H1Session P σ} {cs : List (List HTok)} (more : List Read)
    (htrack : Tracks P atHead final s.parser o cs) (hne : ∀ c ∈ cs, c ≠ [])
    (hflag : s.flag m = false) (hmark : .mark m ∈ opsOf cs.flatten)
    (hfinal : (cutAt m cs).2 = [] → final = .ok) :
    ∃ p, s.readUntil L m (readsOf cs ++ more) =
        (.done, { (deliverAll o ((cutAt m cs).1.map opsOf)).foldl (H1Session.callback L) s with
          parser := p }, readsOf (cutAt m cs).2 ++ more) ∧
      Tracks P atHead final p (openAfter o (opsOf (cutAt m cs).1.flatten)) (cutAt m cs).2 ∧
      (m = .onHeadersComplete → atHead p) := by
  induction cs generalizing s o with
  | nil => simp at hmark
  | cons c cs ih =>
    by_cases hm : .mark m ∈ opsOf c
    · -- the mark is in this piece: the flag is up when the loop tests it
      have hstep := readUntil_cons (L := L) m (readsOf cs ++ more) htrack (hne c (by simp)) hflag
      obtain ⟨-, -, hhead, hrest⟩ := htrack
      simp only [cutAt, hm, if_true] at hfinal ⊢
      have hok : (if cs = [] then final else .ok) = LlhttpErrno.ok := by
        split
        · exact hfinal ‹_›
        · rfl
      refine ⟨(P.execute s.parser (bytesOf c)).1, ?_, ?_, ?_⟩
      · have hup := (foldl_callback_flag L m s (deliver o (opsOf c))).mpr
          (.inr ((mark_mem_deliver o m _).mpr hm))
        rw [readsOf_cons_append, hstep, hok]
        simp only
        rw [readUntil_of_flag (by rw [flag_setParser]; exact hup)]
        simp [deliverAll]
      · simpa using hrest
      · rintro rfl
        exact hhead hm
    · have hcs : .mark m ∈ opsOf cs.flatten := by simpa [hm] using hmark
      have hcsne : cs ≠ [] := fun h => by simp [h] at hcs
      obtain ⟨s', hs', hloop, hdown⟩ := readUntil_continue (L := L) (readsOf cs ++ more) htrack
        (hne c (by simp)) hflag hm fun h => absurd h hcsne
      obtain ⟨-, -, -, hrest⟩ := htrack
      simp only [cutAt, hm, if_false] at hfinal ⊢
      obtain ⟨p, hp, htr, hat⟩ := ih (s := s') (by rw [hs']; exact hrest)
        (fun c' h => hne c' (by simp [h])) hdown hcs hfinal
      refine ⟨p, ?_, ?_, hat⟩
      · rw [readsOf_cons_append, hloop, hp, hs']
        simp only [foldl_callback_append, deliverAll, List.map_cons]
      · simpa [openAfter_append] using htr

/-- If the parser stops with an error behind the message and the mark is in its last piece, the
    loop ends with that error. -/
theorem readUntil_error (m : Cb) {s : H1Session P σ} {cs : List (List HTok)} (more : List Read)
    (htrack : Tracks P atHead (.error name) s.parser o cs) (hne : ∀ c ∈ cs, c ≠ [])
    (hflag : s.flag m = false) (hmark : .mark m ∈ opsOf cs.flatten) (hlast : (cutAt m cs).2 = []) :
    ∃ s', s.readUntil L m (readsOf cs ++ more) = (.parseError name, s', more) := by
  induction cs generalizing s o with
  | nil => simp at hmark
  | cons c cs ih =>
    by_cases hm : .mark m ∈ opsOf c
    · simp only [cutAt, hm, if_true] at hlast
      subst hlast
      rw [readsOf_cons_append, readUntil_cons m _ htrack (hne c (by simp)) hflag]
      exact ⟨_, rfl⟩
    · have hcs : .mark m ∈ opsOf cs.flatten := by simpa [hm] using hmark
      have hcsne : cs ≠ [] := fun h => by simp [h] at hcs
      obtain ⟨s', hs', hloop, hdown⟩ := readUntil_continue (L := L) (readsOf cs ++ more) htrack
        (hne c (by simp)) hflag hm fun h => absurd h hcsne
      obtain ⟨-, -, -, hrest⟩ := htrack
      simp only [cutAt, hm, if_false] at hlast
      rw [readsOf_cons_append, hloop]
      exact ih (by rw [hs']; exact hrest) (fun c' h => hne c' (by simp [h])) hdown hcs hlast

/-- Without the mark the loop reads to the end of the stream. -/
theorem readUntil_eof (m : Cb) {s : H1Session P σ} {cs : List (List HTok)}
    (htrack : Tracks P atHead .ok s.parser o cs) (hne : ∀ c ∈ cs, c ≠ []) (hflag : s.flag m = false)
    (hmark : .mark m ∉ opsOf cs.flatten) :
    ∃ p, s.readUntil L m (readsOf cs) =
      (.eof, { (deliverAll o (cs.map opsOf)).foldl (H1Session.callback L) s with parser := p },
        []) := by
  induction cs generalizing s o with
  | nil =>
    refine ⟨s.parser, ?_⟩
    simp [readsOf, H1Session.readUntil, hflag, deliverAll]
  | cons c cs ih =>
    have hm : .mark m ∉ opsOf c := fun h => hmark (by simp [h])
    have hcs : .mark m ∉ opsOf cs.flatten := fun h => hmark (by simp [h])
    obtain ⟨s', hs', hloop, hdown⟩ := readUntil_continue (L := L) (readsOf cs) htrack
      (hne c (by simp)) hflag hm fun _ => rfl
    obtain ⟨-, -, -, hrest⟩ := htrack
    obtain ⟨p, hp⟩ := ih (s := s') (by rw [hs']; exact hrest) (fun c' h => hne c' (by simp [h]))
      hdown hcs
    refine ⟨p, ?_⟩
    rw [readsOf, List.map_cons, ← readsOf, hloop, hp, hs']
    simp only [foldl_callback_append, deliverAll, List.map_cons]

/-- The reads that deliver the pieces, with `extra` behind them in the last read. -/
def readsWith (extra : List UInt8) : List (List HTok) → List Read
  | [] => []
  | [c] => [.ok (bytesOf c ++ extra)]
  | c :: cs => .ok (bytesOf c) :: readsWith extra cs

theorem readsWith_nil (cs : List (List HTok)) : readsWith [] cs = readsOf cs := by
  induction cs with
  | nil => rfl
  | cons c cs ih =>
    cases cs with
    | nil => simp [readsWith, readsOf]
    | cons c' cs => exact congrArg _ ih

private theorem readsOf_withExtra (extra : List UInt8) (cs : List (List HTok)) :
    readsOf (withExtra extra cs) = readsWith extra cs := by
  induction cs with
  | nil => rfl
  | cons c cs ih =>
    cases cs with
    | nil => simp [withExtra, readsOf, readsWith]
    | cons c' cs => exact congrArg (Except.ok (bytesOf c) :: ·) ih

/-- Bytes behind the last piece are cut off with it. -/
private theorem cutAt_withExtra (m : Cb) (extra : List UInt8) (cs : List (List HTok)) :
    cutAt m (withExtra extra cs) =
      (if (cutAt m cs).2 = [] then withExtra extra (cutAt m cs).1 else (cutAt m cs).1,
        withExtra extra (cutAt m cs).2) := by
  induction cs with
  | nil => rfl
  | cons c cs ih =>
    cases cs with
    | nil => simp [withExtra, cutAt]
    | cons c' cs =>
      by_cases hm : .mark m ∈ opsOf c
      · simp [withExtra, cutAt, hm]
      · have hne : (cutAt m (c' :: cs)).1 ≠ [] := by
          rw [cutAt]
          split <;> simp
        obtain ⟨d, ds, hcons⟩ := List.exists_cons_of_ne_nil hne
        have hstep : cutAt m (c :: c' :: cs) =
            (c :: (cutAt m (c' :: cs)).1, (cutAt m (c' :: cs)).2) := by
          rw [cutAt, if_neg hm]
        rw [withExtra, cutAt, if_neg hm, ih, hstep, hcons]
        split <;> rfl

private theorem deliverAll_withExtra {cs : List (List HTok)}
    (h : openAfter o (opsOf cs.flatten) = none) (extra : List UInt8) :
    deliverAll o ((withExtra extra cs).map opsOf) = deliverAll o (cs.map opsOf) := by
  induction cs generalizing o with
  | nil => rfl
  | cons c cs ih =>
    cases cs with
    | nil =>
      have hclosed : openAfter o (opsOf c) = none := by simpa using h
      simp [withExtra, deliverAll, deliver_append_bytes hclosed]
    | cons c' cs =>
      rw [List.flatten_cons, opsOf_append, openAfter_append] at h
      rw [withExtra, List.map_cons, deliverAll, ih h]
      rfl

/-- `readUntil_done` with bytes behind the last piece, which leaves nothing open. -/
private theorem readUntil_extra (m : Cb) {s : H1Session P σ} {cs : List (List HTok)}
    (extra : List UInt8) (more : List Read)
    (htrack : Tracks P atHead .ok s.parser o (withExtra extra cs)) (hne : ∀ c ∈ cs, c ≠ [])
    (hflag : s.flag m = false) (hmark : .mark m ∈ opsOf cs.flatten)
    (hclosed : openAfter o (opsOf cs.flatten) = none) :
    ∃ p, s.readUntil L m (readsWith extra cs ++ more) =
        (.done, { (deliverAll o ((cutAt m cs).1.map opsOf)).foldl (H1Session.callback L) s with
          parser := p }, readsWith extra (cutAt m cs).2 ++ more) ∧
      Tracks P atHead .ok p (openAfter o (opsOf (cutAt m cs).1.flatten))
        (withExtra extra (cutAt m cs).2) := by
  have hnil : cs ≠ [] := fun h => by simp [h] at hmark
  have hmark' : .mark m ∈ opsOf (withExtra extra cs).flatten := by
    rw [flatten_withExtra extra hnil, opsOf_append]
    exact List.mem_append_left _ hmark
  obtain ⟨p, hloop, hrest, -⟩ := readUntil_done (L := L) m more htrack (ne_nil_of_mem_withExtra hne)
    hflag hmark' fun _ => rfl
  rw [readsOf_withExtra, cutAt_withExtra, readsOf_withExtra] at hloop
  rw [cutAt_withExtra] at hrest
  refine ⟨p, ?_⟩
  by_cases hlast : (cutAt m cs).2 = []
  · -- the loop has taken the bytes as well
    have hall : (cutAt m cs).1 = cs := by
      have happend := cutAt_append m cs
      rwa [hlast, List.append_nil] at happend
    rw [if_pos hlast, hall, deliverAll_withExtra hclosed] at hloop
    rw [hall, hlast]
    exact ⟨by rw [hloop, hlast], trivial⟩
  · rw [if_neg hlast] at hloop hrest
    exact ⟨hloop, hrest⟩

/-- A loop that finds its mark in the last piece takes the bytes behind that piece, too. -/
theorem rest_readsWith (m : Cb) {s : H1Session P σ} {cs : List (List HTok)} (extra : List UInt8)
    (more : List Read) (htrack : Tracks P atHead final s.parser o cs) (hne : ∀ c ∈ cs, c ≠ [])
    (hflag : s.flag m = false) (hnil : cs ≠ []) (hlast : (cutAt m cs).2 = []) :
    (s.readUntil L m (readsWith extra cs ++ more)).2.2 <:+ more := by
  induction cs generalizing s o with
  | nil => exact absurd rfl hnil
  | cons c cs ih =>
    cases cs with
    | nil =>
      exact (loopRun m s (.ok (bytesOf c ++ extra) :: more)).suffix_tail hflag
    | cons c' cs =>
      have hm : .mark m ∉ opsOf c := by
        intro hm
        rw [cutAt, if_pos hm] at hlast
        exact nomatch hlast
      obtain ⟨s', hs', hloop, hdown⟩ := readUntil_continue (L := L)
        (readsWith extra (c' :: cs) ++ more) htrack (hne c (by simp)) hflag hm (by simp)
      obtain ⟨-, -, -, hrest⟩ := htrack
      rw [cutAt, if_neg hm] at hlast
      show (s.readUntil L m (.ok (bytesOf c) :: (readsWith extra (c' :: cs) ++ more))).2.2 <:+ more
      rw [hloop]
      exact ih (by rw [hs']; exact hrest) (fun c'' h => hne c'' (by simp [h])) hdown (by simp) hlast

end ReadLoop

/-! ## A whole message -/

section Message

variable {P : Llhttp} {σ : Type} {L : StartLine σ} {line : List HTok} {evs : List Callback}
  {start : σ} {hs : List HeaderLine} {f : Framing} {cs : List (List HTok)}

/-- `line` is a start line: uncut it makes the callbacks `evs`, which store `start`. -/
structure IsLine (P : Llhttp) (L : StartLine σ) (line : List HTok) (evs : List Callback)
    (start : σ) : Prop where
  closed : scan none (opsOf line) = (none, evs)
  stored : evs.foldl (H1Session.callback L) (H1Session.resetState P L) = afterLine P start
  no_mark : ∀ m, .mark m ∉ evs
  no_field : starts .onHeaderField (opsOf line) = 0
  no_body : collect .onBody evs = []
  opens : OpensOnBytes line

/-- The pieces the head loop reads: up to the one that completes the header section. -/
def headPieces (cs : List (List HTok)) : List (List HTok) := (cutAt .onHeadersComplete cs).1

/-- The pieces the head loop leaves for the body loop. -/
def bodyPieces (cs : List (List HTok)) : List (List HTok) := (cutAt .onHeadersComplete cs).2

theorem headPieces_append (cs : List (List HTok)) : headPieces cs ++ bodyPieces cs = cs :=
  cutAt_append _ cs

private theorem mark_mem_cutAt (h : .mark m ∈ opsOf cs.flatten) :
    .mark m ∈ opsOf (cutAt m cs).1.flatten := by
  induction cs with
  | nil => simp at h
  | cons c cs ih =>
    simp only [cutAt]
    split
    · simpa using ‹_›
    · have hcs : .mark m ∈ opsOf cs.flatten := by simpa [‹.mark m ∉ opsOf c›] using h
      simpa using Or.inr (ih hcs)

theorem headersComplete_mem (hcs : Pieces (messageToks line hs f) cs) :
    .mark .onHeadersComplete ∈ opsOf cs.flatten := by
  rw [hcs.flatten_eq, opsOf_messageToks, headOps]
  simp

/-- The head loop reads the header section and a part of the tail. -/
theorem opsOf_headPieces (hline : IsLine P L line evs start)
    (hcs : Pieces (messageToks line hs f) cs) :
    ∃ q, opsOf (headPieces cs).flatten = headOps line hs ++ q ∧ q <+: tailOps f := by
  have hpre : opsOf (headPieces cs).flatten <+: headOps line hs ++ tailOps f := by
    rw [← opsOf_messageToks, ← hcs.flatten_eq]
    apply opsOf_isPrefix
    conv => rhs; rw [← headPieces_append cs, List.flatten_append]
    exact List.prefix_append _ _
  have hlines := closed_append (closed_append hline.closed
    (closed_flatMap hs fun h _ => closed_headerOps h)) (closed_bytes crlf)
  have hnot : .mark .onHeadersComplete ∉ opsOf line ++ hs.flatMap headerOps ++ crlf.map .byte := by
    rw [← mark_mem_scan none, hlines]
    have hno := hline.no_mark .onHeadersComplete
    simp [hno, headerEvents]
  have hmem := mark_mem_cutAt (headersComplete_mem hcs)
  -- the mark stands at the end of the header section, so the pieces reach that far
  have hpre' := hpre
  rw [headOps, List.append_assoc _ [_] _, List.singleton_append] at hpre'
  rcases prefix_or_extends hpre' with hle | hge
  · exact absurd (hle.subset hmem) hnot
  · obtain ⟨q, hq⟩ := hge
    refine ⟨q, by rw [← hq, headOps], ?_⟩
    rw [← hq, ← headOps] at hpre
    exact (List.prefix_append_right_inj _).mp hpre

/-- A message without anything behind its header section ends with the piece that completes it. -/
theorem bodyPieces_eq_nil (hline : IsLine P L line evs start)
    (hcs : Pieces (messageToks line hs f) cs) (hf : f.toks = []) : bodyPieces cs = [] := by
  obtain ⟨q, hops, -⟩ := opsOf_headPieces hline hcs
  have hall : headOps line hs ++ tailOps f =
      headOps line hs ++ (q ++ opsOf (bodyPieces cs).flatten) := by
    rw [← opsOf_messageToks, ← hcs.flatten_eq, ← List.append_assoc, ← hops, ← opsOf_append,
      ← List.flatten_append, headPieces_append]
  have htail := List.append_cancel_left hall
  cases hpieces : bodyPieces cs with
  | nil => rfl
  | cons c rest =>
    -- a further piece would have a byte, and behind the header section there is none
    have hc : c ≠ [] := hcs.ne_nil c (by rw [← headPieces_append cs, hpieces]; simp)
    obtain ⟨t, ts, rfl⟩ := List.exists_cons_of_ne_nil hc
    have hbyte : .byte t.byte ∈ tailOps f := by
      rw [htail, hpieces]
      simp [opsOf, Tok.ops]
    rw [tailOps, hf] at hbyte
    split at hbyte <;> simp at hbyte

theorem starts_headOps (hline : IsLine P L line evs start) :
    starts .onHeaderField (headOps line hs) = hs.length := by
  have hlines : ∀ hs : List HeaderLine,
      starts .onHeaderField (hs.flatMap headerOps) = hs.length := by
    intro hs
    induction hs with
    | nil => rfl
    | cons h hs ih => simp [starts_headerOps, ih]; omega
  have hrest :
      starts .onHeaderField (crlf.map .byte ++ [.mark .onHeadersComplete] : List HOp) = 0 :=
    rfl
  rw [headOps, List.append_assoc, starts_append, starts_append, hline.no_field, hlines, hrest]
  omega

/-- The session behind the head loop, but for the parser. -/
def afterHeadLoop (P : Llhttp) (L : StartLine σ) (cs : List (List HTok)) : H1Session P σ :=
  (deliverAll none ((headPieces cs).map opsOf)).foldl (H1Session.callback L)
    (H1Session.resetState P L)

theorem Uncut.headPieces (h : Uncut e cs) : Uncut e (headPieces cs) := by
  have htake : ∀ a b, a ++ b = cs → ∀ k, cs.take (min k a.length) = a.take k := by
    rintro a b rfl k
    rw [List.take_append_of_le_length (Nat.min_le_right _ _), ← List.take_eq_take_min]
  intro k
  rw [← htake _ _ (headPieces_append cs) k]
  exact h _

/-- In the tail no start line element is reported. -/
private theorem overwrites_tail (hq : q <+: tailOps f) {d : List UInt8}
    (h : .span e d ∈ deliver none q) : overwrites L e = false := by
  have htail := start_mem_tailOps (hq.subset (span_mem_deliver h))
  rcases htail with rfl | rfl | rfl <;> rfl

/-- A header list that starts with the fields as llhttp reports them. -/
private theorem headers_eq_iff {headers : List HttpHeader}
    (hpre : hs.map HeaderLine.reported <+: headers) :
    headers = hs.map HeaderLine.toHeader ↔
      headers = hs.map HeaderLine.reported ∧ HeaderLine.Trimmed hs := by
  rw [← HeaderLine.map_reported_eq_iff]
  constructor
  · intro heq
    -- a longer list could not be that of the fields
    have hsame : hs.map HeaderLine.reported = headers := hpre.eq_of_length (by simp [heq])
    exact ⟨hsame.symm, hsame.trans heq⟩
  · rintro ⟨heq, htrimmed⟩
    exact heq.trans htrimmed

/-- If the start line element is not cut, the start line is right, and the header list is right
    exactly when at most one trailer has been opened and no value has white space behind it. -/
theorem head_of_uncut (hline : IsLine P L line evs start)
    (hcs : Pieces (messageToks line hs f) cs)
    (huncut : ∀ e, overwrites L e = true → Uncut e cs) :
    (afterHeadLoop P L cs).head.start = start ∧
      ((afterHeadLoop P L cs).head.headers = hs.map HeaderLine.toHeader ↔
        starts .onHeaderField (opsOf (headPieces cs).flatten) ≤ hs.length + 1 ∧
          HeaderLine.Trimmed hs) := by
  obtain ⟨q, hops, hq⟩ := opsOf_headPieces hline hcs
  -- uncut elements are delivered as if the head had come in one piece
  have hstate : afterHeadLoop P L cs =
      (deliver none q).foldl (H1Session.callback L) (afterHead P start hs) := by
    have hhead := foldl_headEvents (P := P) L start hs
    rw [List.foldl_append] at hhead
    rw [afterHeadLoop, foldl_callback_cut L _ _ fun e he => (huncut e he).headPieces, hops,
      deliver_append_of_closed (closed_headOps hline.closed hs)]
    simp only [List.foldl_append, hline.stored, hhead]
  rw [hstate]
  constructor
  · rw [foldl_callback_start L _ _ fun e d h => overwrites_tail hq h]
    rfl
  · have htail := headers_tail L (afterHead P start hs) rfl rfl hq
    have hpre := headers_le_foldl_callback L (afterHead P start hs) (deliver none q)
    have hhead : (afterHead P start hs).head.headers = hs.map HeaderLine.reported := rfl
    rw [hhead] at htail hpre
    rw [headers_eq_iff hpre, htail, hops, starts_append, starts_headOps hline]
    refine and_congr_left' ?_
    omega

/-! ### A start line element that is cut -/

variable {size : σ → Nat}

/-- `size` measures what the start line callbacks store. -/
structure Measures (L : StartLine σ) (size : σ → Nat) : Prop where
  url : ∀ g, L.onUrl = some g → ∀ d, size (g d) = d.length
  status : ∀ g, L.onStatus = some g → ∀ c d, size (g c d) = d.length

/-- A stored element replaces whatever was stored. -/
private theorem size_callback (hsize : Measures L size) (hover : overwrites L e = true)
    (s : H1Session P σ) (d : List UInt8) :
    size (H1Session.callback L s (.span e d)).head.start = d.length := by
  cases e with
  | onUrl =>
    obtain ⟨g, hg⟩ := Option.isSome_iff_exists.mp hover
    simp [H1Session.callback, H1Session.onStart, hg, hsize.url g hg]
  | onStatus c =>
    obtain ⟨g, hg⟩ := Option.isSome_iff_exists.mp hover
    simp [H1Session.callback, H1Session.onStart, hg, hsize.status g hg]
  | onHeaderField | onHeaderValue | onBody => simp [overwrites] at hover

/-- What is stored is no longer than what was stored before or all that was delivered. -/
private theorem size_start_le (hsize : Measures L size) (s : H1Session P σ) (evs : List Callback)
    (honly : ∀ e' d, .span e' d ∈ evs → overwrites L e' = true → e' = e) :
    size (evs.foldl (H1Session.callback L) s).head.start ≤
      max (size s.head.start) (collect e evs).length := by
  induction evs generalizing s with
  | nil => exact Nat.le_max_left _ _
  | cons ev evs ih =>
    have hih := ih (H1Session.callback L s ev) fun e' d h => honly e' d (by simp [h])
    have hone : size (H1Session.callback L s ev).head.start ≤
        max (size s.head.start) (ev.dataFor e).length := by
      -- an element that is stored replaces the earlier one, any other leaves it
      by_cases hover : ∃ e' d, ev = .span e' d ∧ overwrites L e' = true
      · obtain ⟨e', d, rfl, he'⟩ := hover
        obtain rfl := honly e' d (by simp) he'
        rw [size_callback hsize he', Event.dataFor, if_pos rfl]
        exact Nat.le_max_right _ _
      · have hsame := foldl_callback_start L s [ev] fun e' d h => by
          rw [List.mem_singleton] at h
          by_contra hne
          exact hover ⟨e', d, h.symm, by simpa using hne⟩
        rw [List.foldl_cons, List.foldl_nil] at hsame
        rw [hsame]
        exact Nat.le_max_left _ _
    have hcollect : (collect e (ev :: evs)).length =
        (ev.dataFor e).length + (collect e evs).length := by
      simp [collect]
    rw [List.foldl_cons, hcollect]
    omega

/-- Only the start line opens an element that is stored. -/
theorem overwrites_head (hq : q <+: tailOps f) (h : .start e ∈ headOps line hs ++ q)
    (hover : overwrites L e = true) :
    .start e ∈ opsOf line := by
  simp only [headOps, List.mem_append, List.mem_flatMap, List.mem_map, reduceCtorEq, and_false,
    exists_false, List.mem_singleton, or_false] at h
  rcases h with (h | ⟨x, -, hx⟩) | h
  · exact h
  · have hspan : ∃ d, .span e d ∈ headerEvents x := by
      simp only [headerOps] at hx
      split at hx <;> simp at hx <;> rcases hx with rfl | rfl <;> simp [headerEvents]
    obtain ⟨d, hd⟩ := hspan
    simp only [headerEvents, List.mem_cons, Event.span.injEq, List.not_mem_nil, or_false] at hd
    rcases hd with ⟨rfl, -⟩ | ⟨rfl, -⟩ <;> simp [overwrites] at hover
  · rcases start_mem_tailOps (hq.subset h) with rfl | rfl | rfl <;> simp [overwrites] at hover

/-- An element that the message does not open is not cut. -/
theorem uncut_of_not_opened {m : List HTok} (hcs : Pieces m cs) (h : .start e ∉ opsOf m) :
    Uncut e cs := by
  intro k hk
  have hstart := (start_mem_of_open hk).resolve_left (by simp)
  apply h
  rw [← hcs.flatten_eq]
  apply (opsOf_isPrefix _).subset hstart
  conv => rhs; rw [← List.take_append_drop k cs, List.flatten_append]
  exact List.prefix_append _ _

/-- Uncut, the head loop's pieces deliver for a start line element what the line delivers. -/
private theorem collect_head (hline : IsLine P L line evs start) (hq : q <+: tailOps f)
    (hover : overwrites L e = true) :
    collect e (deliver none (headOps line hs ++ q)) = collect e evs := by
  have hlines : collect e (hs.flatMap headerEvents ++ [Event.mark Cb.onHeadersComplete]) = [] := by
    apply collect_eq_nil
    intro d hd
    simp only [headerEvents, List.mem_append, List.mem_flatMap, List.mem_cons, Event.span.injEq,
      List.not_mem_nil, or_false, reduceCtorEq] at hd
    obtain ⟨x, -, ⟨rfl, -⟩ | ⟨rfl, -⟩⟩ := hd <;> simp [overwrites] at hover
  have htail : collect e (deliver none q) = [] := by
    apply collect_eq_nil
    intro d hd
    have hnot := overwrites_tail (L := L) hq hd
    rw [hover] at hnot
    cases hnot
  rw [deliver_append_of_closed (closed_headOps hline.closed hs), List.append_assoc evs,
    collect_append, collect_append, hlines, htail]
  simp

/-- Where a start line element is open, the head loop has not finished. -/
private theorem lt_length_headPieces (hline : IsLine P L line evs start)
    (hcs : Pieces (messageToks line hs f) cs) (hover : overwrites L e = true) {k : Nat}
    (hk : openAfter none (opsOf (cs.take k).flatten) = some e) : k < (headPieces cs).length := by
  by_contra hge
  obtain ⟨q, hops, -⟩ := opsOf_headPieces hline hcs
  -- otherwise the first `k` pieces hold the header section and a part of the tail
  obtain ⟨r, hr⟩ : headPieces cs <+: cs.take k :=
    List.prefix_of_prefix_length_le ⟨bodyPieces cs, headPieces_append cs⟩ (List.take_prefix k cs)
      (by
        have hlen := congrArg List.length (headPieces_append cs)
        rw [List.length_append] at hlen
        rw [List.length_take]
        omega)
  have hpre : headOps line hs ++ (q ++ opsOf r.flatten) <+: headOps line hs ++ tailOps f := by
    rw [← List.append_assoc, ← hops, ← opsOf_append, ← List.flatten_append, hr,
      ← opsOf_messageToks, ← hcs.flatten_eq]
    apply opsOf_isPrefix
    conv => rhs; rw [← List.take_append_drop k cs, List.flatten_append]
    exact List.prefix_append _ _
  rw [← hr, List.flatten_append, opsOf_append, hops, List.append_assoc, openAfter_append,
    openAfter_of_closed (closed_headOps hline.closed hs)] at hk
  have hstart := (start_mem_of_open hk).resolve_left (by simp)
  have htail := start_mem_tailOps (((List.prefix_append_right_inj _).mp hpre).subset hstart)
  rcases htail with rfl | rfl | rfl <;> simp [overwrites] at hover

/-- Of a start line element that is cut, the head loop ends with less than the whole. -/
theorem start_of_cut (hline : IsLine P L line evs start) (hcs : Pieces (messageToks line hs f) cs)
    (hsize : Measures L size) (hover : overwrites L e = true)
    (honly : ∀ e', .start e' ∈ opsOf line → overwrites L e' = true → e' = e) (hcut : ¬ Uncut e cs) :
    size (afterHeadLoop P L cs).head.start < (collect e evs).length := by
  obtain ⟨k, hk⟩ : ∃ k, openAfter none (opsOf (cs.take k).flatten) = some e := by
    simpa [Uncut] using hcut
  obtain ⟨q, hops, hq⟩ := opsOf_headPieces hline hcs
  have hlt := lt_length_headPieces hline hcs hover hk
  -- the pieces before the cut, and the one after it
  obtain ⟨a, c, b, hsplit, ha⟩ : ∃ a c b, headPieces cs = a ++ c :: b ∧ a = cs.take k := by
    refine ⟨(headPieces cs).take k, (headPieces cs)[k], (headPieces cs).drop (k + 1), ?_, ?_⟩
    · rw [List.getElem_cons_drop, List.take_append_drop]
    · conv => rhs; rw [← headPieces_append cs]
      rw [List.take_append_of_le_length (Nat.le_of_lt hlt)]
  rw [← ha] at hk
  obtain ⟨d, evs₁, hd⟩ := scan_open (M := Cb) e [] (opsOf c)
  have hdeliver : deliver (some e) (opsOf c) = .span e d :: evs₁ := hd
  have hevents : deliverAll none ((headPieces cs).map opsOf) = deliverAll none (a.map opsOf) ++
      .span e d :: (evs₁ ++ deliverAll (openAfter (some e) (opsOf c)) (b.map opsOf)) := by
    rw [hsplit, List.map_append, deliverAll_append, ← opsOf_flatten, hk, List.map_cons, deliverAll,
      hdeliver, List.cons_append]
  -- what was delivered before the cut is not empty, and is missing behind it
  have hopens : OpensOnBytes a.flatten := by
    intro t ht
    apply opensOnBytes_messageToks hline.opens hs f t
    rw [← hcs.flatten_eq, ← List.take_append_drop k cs, List.flatten_append, ← ha]
    exact List.mem_append_left _ ht
  have hbefore := collect_ne_nil_of_open hopens hk
  rw [opsOf_flatten, ← collect_deliverAll] at hbefore
  have htotal := collect_deliverAll e ((headPieces cs).map opsOf)
  rw [← opsOf_flatten, hops, collect_head hline hq hover, hevents, collect_append] at htotal
  have hstart : ∀ e' d', .span e' d' ∈ evs₁ ++ deliverAll (openAfter (some e) (opsOf c))
      (b.map opsOf) → overwrites L e' = true → e' = e := by
    intro e' d' hmem hover'
    have hall : .span e' d' ∈ deliverAll none ((headPieces cs).map opsOf) := by
      rw [hevents]
      exact List.mem_append_right _ (List.mem_cons_of_mem _ hmem)
    have hopen := (span_mem_deliverAll hall).resolve_left (by simp)
    rw [← opsOf_flatten, hops] at hopen
    exact honly e' (overwrites_head hq hopen hover') hover'
  have hbound := size_start_le hsize (e := e) (H1Session.callback L
    ((deliverAll none (a.map opsOf)).foldl (H1Session.callback L) (H1Session.resetState P L))
    (.span e d)) _ hstart
  rw [size_callback hsize hover] at hbound
  have hcons : ∀ evs : List Callback, (collect e (.span e d :: evs)).length =
      d.length + (collect e evs).length := by
    intro evs
    simp [collect, Event.dataFor]
  have hpos := List.length_pos_iff.mpr hbefore
  have hlen := congrArg List.length htotal
  rw [List.length_append, hcons] at hlen
  rw [afterHeadLoop, hevents, List.foldl_append, List.foldl_cons]
  omega

/-! ### The body -/

/-- The body is right, however it arrives. -/
theorem collect_pieces (hline : IsLine P L line evs start)
    (hcs : Pieces (messageToks line hs f) cs) :
    collect .onBody (deliverAll none (cs.map opsOf)) = f.body := by
  have hlines : collect .onBody (hs.flatMap headerEvents ++ [Event.mark Cb.onHeadersComplete]) =
      [] := by
    apply collect_eq_nil
    simp [headerEvents]
  rw [collect_deliverAll, ← opsOf_flatten, hcs.flatten_eq, opsOf_messageToks,
    deliver_append_of_closed (closed_headOps hline.closed hs), List.append_assoc evs,
    collect_append, collect_append, hline.no_body, hlines, collect_tailOps]
  rfl

/-- The message ends with its only `on_message_complete`. -/
private theorem messageComplete_last (hline : IsLine P L line evs start) (hs : List HeaderLine)
    (f : Framing) :
    .mark .onMessageComplete ∉ headOps line hs ++ opsOf f.toks := by
  rw [List.mem_append, not_or]
  refine ⟨?_, mark_not_mem_toks f _⟩
  rw [← mark_mem_scan none, closed_headOps hline.closed hs]
  have hno := hline.no_mark .onMessageComplete
  simp [hno, headerEvents]

/-- The parser reports the end of a message if it can tell it. -/
theorem messageComplete_mem_iff (hline : IsLine P L line evs start)
    (hcs : Pieces (messageToks line hs f) cs) :
    .mark .onMessageComplete ∈ opsOf cs.flatten ↔ f.selfDelimiting = true := by
  have hlast := messageComplete_last hline hs f
  rw [List.mem_append, not_or] at hlast
  rw [hcs.flatten_eq, opsOf_messageToks, tailOps]
  by_cases hself : f.selfDelimiting = true <;> simp [hself, hlast.1, hlast.2]

/-- Nothing follows the piece that completes the message. -/
theorem rest_eq_nil (hline : IsLine P L line evs start)
    (hcs : Pieces (messageToks line hs f) cs) {a b : List (List HTok)} (hab : a ++ b = cs)
    (h : .mark .onMessageComplete ∈ opsOf a.flatten) : b = [] := by
  have hops : opsOf a.flatten ++ opsOf b.flatten =
      (headOps line hs ++ opsOf f.toks) ++
        if f.selfDelimiting then [.mark .onMessageComplete] else [] := by
    rw [← opsOf_append, ← List.flatten_append, hab, hcs.flatten_eq, opsOf_messageToks, tailOps,
      List.append_assoc]
  have hlast := messageComplete_last hline hs f
  -- the mark is the last call of the message, so none is left for `b`
  have hnil : opsOf b.flatten = [] := by
    split at hops
    · rcases prefix_or_extends ⟨_, hops⟩ with hle | hge
      · exact absurd (hle.subset h) hlast
      · have hlen := congrArg List.length hops
        have hle := hge.length_le
        simp only [List.length_append, List.length_singleton] at hlen hle
        exact List.eq_nil_of_length_eq_zero (by omega)
    · rw [List.append_nil] at hops
      exact absurd (hops ▸ List.mem_append_left _ h) hlast
  cases b with
  | nil => rfl
  | cons c b =>
    have hc : c ≠ [] := hcs.ne_nil c (by simp [← hab])
    have hflat := eq_nil_of_opsOf hnil
    rw [List.flatten_cons] at hflat
    exact absurd (List.append_eq_nil_iff.mp hflat).1 hc

section Loops

variable {atHead : P.State → Prop} {final : LlhttpErrno}

/-- The head loop on a message. -/
theorem headLoop (hcs : Pieces (messageToks line hs f) cs)
    (hparses : Parses P atHead final (messageToks line hs f)) (more : List Read)
    (hfinal : bodyPieces cs = [] → final = .ok) :
    ∃ p, (H1Session.resetState P L).readUntil L .onHeadersComplete (readsOf cs ++ more) =
        (.done, { afterHeadLoop P L cs with parser := p }, readsOf (bodyPieces cs) ++ more) ∧
      Tracks P atHead final p (openAfter none (opsOf (headPieces cs).flatten)) (bodyPieces cs) ∧
      atHead p := by
  obtain ⟨p, hloop, htrack, hhead⟩ := readUntil_done (L := L) .onHeadersComplete more
    (hparses cs hcs) hcs.ne_nil (s := H1Session.resetState P L) rfl (headersComplete_mem hcs)
    hfinal
  exact ⟨p, hloop, htrack, hhead rfl⟩

/-- The head loop when the parser stops with an error in the piece that completes the head. -/
theorem headLoop_error (hcs : Pieces (messageToks line hs f) cs)
    (hparses : Parses P atHead (.error name) (messageToks line hs f)) (more : List Read)
    (hlast : bodyPieces cs = []) :
    ∃ s', (H1Session.resetState P L).readUntil L .onHeadersComplete (readsOf cs ++ more) =
      (.parseError name, s', more) :=
  readUntil_error .onHeadersComplete more (hparses cs hcs) hcs.ne_nil rfl (headersComplete_mem hcs)
    hlast

/-- What the body loop starts with: the flag, and the body data delivered so far. -/
theorem afterHeadLoop_body (P : Llhttp) (L : StartLine σ) (cs : List (List HTok))
    (p : P.State) (head : MessageHead σ) :
    let s : H1Session P σ := { afterHeadLoop P L cs with parser := p, head }
    (s.flag .onMessageComplete = true ↔
        .mark .onMessageComplete ∈ opsOf (headPieces cs).flatten) ∧
      s.bodyBuffer = collect .onBody (deliverAll none ((headPieces cs).map opsOf)) := by
  have hflag := foldl_callback_flag L .onMessageComplete (H1Session.resetState P L)
    (deliverAll none ((headPieces cs).map opsOf))
  rw [mark_mem_deliverAll, ← opsOf_flatten] at hflag
  refine ⟨hflag.trans (or_iff_right (by simp [H1Session.flag, H1Session.resetState])), ?_⟩
  exact (foldl_callback_bodyBuffer L (H1Session.resetState P L) _).trans (by
    rw [H1Session.resetState, List.nil_append])

/-- All body data, in the order of the pieces. -/
private theorem collect_headPieces_append (cs : List (List HTok)) :
    collect .onBody (deliverAll none ((headPieces cs).map opsOf)) ++
        collect .onBody (deliverAll (openAfter none (opsOf (headPieces cs).flatten))
          ((bodyPieces cs).map opsOf)) =
      collect .onBody (deliverAll none (cs.map opsOf)) := by
  rw [← collect_append, opsOf_flatten, ← deliverAll_append, ← List.map_append, headPieces_append]

private theorem bodyPieces_ne_nil (hcs : Pieces (messageToks line hs f) cs) :
    ∀ c ∈ bodyPieces cs, c ≠ [] := fun c hc =>
  hcs.ne_nil c (by rw [← headPieces_append cs]; exact List.mem_append_right _ hc)

/-- If the head loop does not get the end of the message, the body loop does. -/
private theorem messageComplete_mem_bodyPieces (hcs : Pieces (messageToks line hs f) cs)
    (hself : f.selfDelimiting = true)
    (hm : .mark .onMessageComplete ∉ opsOf (headPieces cs).flatten) :
    .mark .onMessageComplete ∈ opsOf (bodyPieces cs).flatten := by
  have hmsg : .mark .onMessageComplete ∈ opsOf cs.flatten := by
    rw [hcs.flatten_eq, opsOf_messageToks, tailOps, if_pos hself]
    simp
  rw [← headPieces_append cs, List.flatten_append, opsOf_append, List.mem_append] at hmsg
  exact hmsg.resolve_left hm

private theorem cutAt_bodyPieces (hline : IsLine P L line evs start)
    (hcs : Pieces (messageToks line hs f) cs)
    (hmem : .mark .onMessageComplete ∈ opsOf (bodyPieces cs).flatten) :
    cutAt .onMessageComplete (bodyPieces cs) = (bodyPieces cs, []) := by
  have hlast : (cutAt .onMessageComplete (bodyPieces cs)).2 = [] := by
    apply rest_eq_nil hline hcs (a := headPieces cs ++ (cutAt .onMessageComplete (bodyPieces cs)).1)
    · rw [List.append_assoc, cutAt_append, headPieces_append]
    · rw [List.flatten_append, opsOf_append]
      exact List.mem_append_right _ (mark_mem_cutAt hmem)
  have hall := cutAt_append .onMessageComplete (bodyPieces cs)
  rw [hlast, List.append_nil] at hall
  exact Prod.ext hall hlast

/-- A message whose end the parser can tell leaves nothing open. -/
private theorem openAfter_message (hcs : Pieces (messageToks line hs f) cs)
    (hself : f.selfDelimiting = true) : openAfter none (opsOf cs.flatten) = none := by
  rw [hcs.flatten_eq, opsOf_messageToks, tailOps, if_pos hself, ← List.append_assoc,
    openAfter_append]
  rfl

/-- The head loop on a message with bytes behind it. -/
theorem headLoop_extra (hcs : Pieces (messageToks line hs f) cs) (hself : f.selfDelimiting = true)
    (extra : List UInt8) (more : List Read)
    (htrack : Tracks P atHead .ok P.init none (withExtra extra cs)) :
    ∃ p, (H1Session.resetState P L).readUntil L .onHeadersComplete (readsWith extra cs ++ more) =
        (.done, { afterHeadLoop P L cs with parser := p },
          readsWith extra (bodyPieces cs) ++ more) ∧
      Tracks P atHead .ok p (openAfter none (opsOf (headPieces cs).flatten))
        (withExtra extra (bodyPieces cs)) :=
  readUntil_extra .onHeadersComplete extra more htrack hcs.ne_nil rfl (headersComplete_mem hcs)
    (openAfter_message hcs hself)

/-- The body loop on a message whose end the parser can tell, with bytes behind it. -/
theorem bodyLoop_extra (hline : IsLine P L line evs start)
    (hcs : Pieces (messageToks line hs f) cs) (hself : f.selfDelimiting = true) {p : P.State}
    (head : MessageHead σ) (extra : List UInt8) (more : List Read)
    (htrack : Tracks P atHead .ok p (openAfter none (opsOf (headPieces cs).flatten))
      (withExtra extra (bodyPieces cs))) :
    ∃ s', H1Session.readUntil L .onMessageComplete
        { afterHeadLoop P L cs with parser := p, head } (readsWith extra (bodyPieces cs) ++ more) =
      (.done, s', more) ∧ s'.bodyBuffer = f.body := by
  obtain ⟨hflag, hbody⟩ := afterHeadLoop_body P L cs p head
  have hall := collect_headPieces_append cs
  rw [collect_pieces hline hcs] at hall
  by_cases hm : .mark .onMessageComplete ∈ opsOf (headPieces cs).flatten
  · -- the head loop has read the whole message
    have hnil := rest_eq_nil hline hcs (headPieces_append cs) hm
    refine ⟨_, by rw [readUntil_of_flag (hflag.mpr hm), hnil]; rfl, ?_⟩
    rw [hbody, ← hall, hnil]
    simp [deliverAll, collect]
  · have hmem := messageComplete_mem_bodyPieces hcs hself hm
    have hcut := cutAt_bodyPieces hline hcs hmem
    have hdown : H1Session.flag .onMessageComplete
        { afterHeadLoop P L cs with parser := p, head } = false := by
      rw [Bool.eq_false_iff, Ne, hflag]
      exact hm
    have hclosed := openAfter_message hcs hself
    rw [← headPieces_append cs, List.flatten_append, opsOf_append, openAfter_append] at hclosed
    obtain ⟨p', hloop, -⟩ := readUntil_extra (L := L) .onMessageComplete extra more
      (s := { afterHeadLoop P L cs with parser := p, head }) htrack (bodyPieces_ne_nil hcs) hdown
      hmem hclosed
    rw [hcut] at hloop
    refine ⟨_, hloop, ?_⟩
    simp only
    rw [foldl_callback_bodyBuffer, hbody]
    exact hall

/-- The body loop on a message whose end the parser can tell. -/
theorem bodyLoop (hline : IsLine P L line evs start) (hcs : Pieces (messageToks line hs f) cs)
    (hself : f.selfDelimiting = true) {p : P.State} (head : MessageHead σ) (more : List Read)
    (htrack : Tracks P atHead .ok p (openAfter none (opsOf (headPieces cs).flatten))
      (bodyPieces cs)) :
    ∃ s', H1Session.readUntil L .onMessageComplete
        { afterHeadLoop P L cs with parser := p, head } (readsOf (bodyPieces cs) ++ more) =
      (.done, s', more) ∧ s'.bodyBuffer = f.body := by
  rw [← readsWith_nil]
  exact bodyLoop_extra hline hcs hself head [] more (by rwa [withExtra_nil])

/-- The body loop when the parser stops with an error behind the message. -/
theorem bodyLoop_error (hline : IsLine P L line evs start) (hcs : Pieces (messageToks line hs f) cs)
    (hself : f.selfDelimiting = true) {p : P.State} (head : MessageHead σ) (more : List Read)
    (hrest : bodyPieces cs ≠ [])
    (htrack : Tracks P atHead (.error name) p (openAfter none (opsOf (headPieces cs).flatten))
      (bodyPieces cs)) :
    ∃ s', H1Session.readUntil L .onMessageComplete
        { afterHeadLoop P L cs with parser := p, head } (readsOf (bodyPieces cs) ++ more) =
      (.parseError name, s', more) := by
  have hflag := (afterHeadLoop_body P L cs p head).1
  have hm : .mark .onMessageComplete ∉ opsOf (headPieces cs).flatten := fun h =>
    hrest (rest_eq_nil hline hcs (headPieces_append cs) h)
  have hmem := messageComplete_mem_bodyPieces hcs hself hm
  apply readUntil_error .onMessageComplete more htrack (bodyPieces_ne_nil hcs) _ hmem
  · rw [cutAt_bodyPieces hline hcs hmem]
  · rw [Bool.eq_false_iff, Ne, hflag]
    exact hm

/-- The body loop on a message that the end of the stream ends. -/
theorem bodyLoop_eof (hline : IsLine P L line evs start)
    (hcs : Pieces (messageToks line hs f) cs) (hself : f.selfDelimiting = false) {p : P.State}
    (head : MessageHead σ)
    (htrack : Tracks P atHead .ok p (openAfter none (opsOf (headPieces cs).flatten))
      (bodyPieces cs)) :
    ∃ s', H1Session.readUntil L .onMessageComplete
        { afterHeadLoop P L cs with parser := p, head } (readsOf (bodyPieces cs)) =
      (.eof, s', []) ∧ s'.bodyBuffer = f.body := by
  obtain ⟨hflag, hbody⟩ := afterHeadLoop_body P L cs p head
  have hall := collect_headPieces_append cs
  rw [collect_pieces hline hcs] at hall
  have hno : .mark .onMessageComplete ∉ opsOf cs.flatten := by
    rw [messageComplete_mem_iff hline hcs, hself]
    simp
  rw [← headPieces_append cs, List.flatten_append, opsOf_append, List.mem_append, not_or] at hno
  obtain ⟨p', hloop⟩ := readUntil_eof (L := L) .onMessageComplete htrack (bodyPieces_ne_nil hcs)
    (s := { afterHeadLoop P L cs with parser := p, head }) (by
      rw [Bool.eq_false_iff, Ne, hflag]
      exact hno.1) hno.2
  refine ⟨_, hloop, ?_⟩
  simp only
  rw [foldl_callback_bodyBuffer, hbody]
  exact hall

end Loops

end Message

end Ppnt.Spec
