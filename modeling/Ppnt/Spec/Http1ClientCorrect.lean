import Ppnt.Spec.Http1ReadLoop

/-!
# Responses of the HTTP/1 client session

`request` and `body_full` on a connection that delivers one well-formed final response.  The read
with its last byte may go on with bytes for which llhttp reports nothing, such as a line end.  The
body is always right and whatever follows stays on the connection.  The head is right exactly when
the status line has room for a reason phrase, the phrase and its delimiter arrive in one read, the
read that completes the header section does not also open a second trailer, and no field value has
white space behind it: `on_status` stores a span, is the only place that stores the status code, and
is not called for a status line that ends behind the code, and llhttp reports a value up to the end
of its line.

The session has no notion of an interim response: the first header section it sees is the response.
-/

namespace Ppnt.Spec

open Ppnt.Native Spans

variable {P : Llhttp}

/-- The head as the session should return it. -/
def Response.toHeadParts (r : Response) : HeadParts :=
  ⟨⟨r.code, r.reason.getD []⟩, r.headers.map HeaderLine.toHeader⟩

/-- How the head of a response has to arrive. -/
structure HeadArrivesWell (r : Response) (cs : List (List HTok)) : Prop where
  reason : r.reason.isSome = true
  status : Uncut (.onStatus r.code) cs
  trailers : starts .onHeaderField (opsOf (headPieces cs).flatten) ≤ r.headers.length + 1
  values : HeaderLine.Trimmed r.headers

instance (r : Response) (cs : List (List HTok)) : Decidable (HeadArrivesWell r cs) :=
  decidable_of_iff (r.reason.isSome = true ∧ Uncut (.onStatus r.code) cs ∧
      starts .onHeaderField (opsOf (headPieces cs).flatten) ≤ r.headers.length + 1 ∧
      HeaderLine.Trimmed r.headers)
    ⟨fun h => ⟨h.1, h.2.1, h.2.2.1, h.2.2.2⟩, fun h => ⟨h.1, h.2, h.3, h.4⟩⟩

/-- What the status line stores, uncut. -/
def Response.storedStatus (r : Response) : HttpStatus :=
  (r.reason.map fun reason => ⟨r.code, reason⟩).getD {}

/-- A status line opens at most the reason phrase. -/
private theorem start_mem_statusToks {minor code : Nat} {reason : Option (List UInt8)}
    {e : DataCb} (h : .start e ∈ opsOf (statusToks minor code reason)) :
    e = .onStatus code ∧ reason.isSome = true := by
  have hne : (plain crlf : List HTok) ≠ [] := by simp [plain, crlf]
  unfold statusToks at h
  rw [opsOf_append, opsOf_plain] at h
  cases reason with
  | none => simp at h
  | some reason =>
    by_cases hnil : reason = []
    · simp [hnil, opsOf_onFirst _ hne] at h
      exact ⟨h, rfl⟩
    · simp [hnil, opsOf_onFirst _ hne, opsOf_onFirst _ (plain_ne_nil hnil)] at h
      exact ⟨h, rfl⟩

theorem isLine_status (minor code : Nat) (reason : Option (List UInt8)) :
    IsLine P clientStart (statusToks minor code reason)
      ((reason.map fun reason => .span (.onStatus code) reason).toList)
      ((reason.map fun reason => ⟨code, reason⟩).getD {}) where
  closed := closed_statusToks minor code reason
  stored := by cases reason <;> rfl
  no_mark := by cases reason <;> simp
  no_field := starts_eq_zero fun h => by
    have helem := (start_mem_statusToks h).1
    cases helem
  no_body := by cases reason <;> simp [collect, Event.dataFor]
  opens := opensOnBytes_statusToks minor code reason

theorem isLine_response (r : Response) :
    IsLine P clientStart r.lineToks
      ((r.reason.map fun reason => .span (.onStatus r.code) reason).toList) r.storedStatus :=
  isLine_status r.version.minor r.code r.reason

private theorem measures_client : Measures clientStart fun status => status.message.length where
  url g hg := by simp [clientStart] at hg
  status g hg c d := by
    obtain rfl : HttpStatus.mk = g := Option.some.inj hg
    rfl

/-- The head is right exactly when it arrives well. -/
private theorem headParts_eq_iff {r : Response} {cs : List (List HTok)} (hcs : Pieces r.toks cs) :
    (⟨(afterHeadLoop P clientStart cs).head.start,
        (afterHeadLoop P clientStart cs).head.headers⟩ : HeadParts) = r.toHeadParts ↔
      HeadArrivesWell r cs := by
  have hline := isLine_response (P := P) r
  have hopen : ∀ e, .start e ∈ opsOf r.toks → overwrites clientStart e = true →
      e = .onStatus r.code ∧ r.reason.isSome = true := by
    intro e he hover
    rw [Response.toks, opsOf_messageToks] at he
    exact start_mem_statusToks (overwrites_head List.prefix_rfl he hover)
  -- apart from the reason phrase nothing that is stored can be cut
  have huncut := fun h : Uncut (.onStatus r.code) cs => head_of_uncut hline hcs fun e he => by
    by_cases hstart : .start e ∈ opsOf r.toks
    · exact (hopen e hstart he).1 ▸ h
    · exact uncut_of_not_opened hcs hstart
  rw [Response.toHeadParts, HeadParts.mk.injEq]
  constructor
  · rintro ⟨hstart, hheaders⟩
    by_cases hcut : Uncut (.onStatus r.code) cs
    · obtain ⟨htrailers, hvalues⟩ := (huncut hcut).2.mp hheaders
      refine ⟨?_, hcut, htrailers, hvalues⟩
      rw [(huncut hcut).1, Response.storedStatus] at hstart
      cases hr : r.reason with
      | some reason => rfl
      | none =>
        -- the code is only stored with the reason phrase
        have hcode := r.code_range.1
        rw [hr] at hstart
        simp only [Option.map_none, Option.getD_none, HttpStatus.mk.injEq] at hstart
        omega
    · have hlt := start_of_cut hline hcs measures_client rfl
        (fun e he _ => (start_mem_statusToks he).1) hcut
      rw [hstart] at hlt
      cases hr : r.reason <;> simp [hr, collect, Event.dataFor] at hlt
  · rintro ⟨hreason, hcut, htrailers, hvalues⟩
    refine ⟨?_, (huncut hcut).2.mpr ⟨htrailers, hvalues⟩⟩
    obtain ⟨reason, hr⟩ := Option.isSome_iff_exists.mp hreason
    rw [(huncut hcut).1, Response.storedStatus, hr]
    rfl

/-- The two calls on a response.  If the parser cannot tell the end of the message, the connection
    ends there.  Only the head depends on the reads. -/
private theorem requestThenBody_eq {r : Response} {cs : List (List HTok)} {extra : List UInt8}
    (hcs : Pieces r.toks cs) (hparses : ParsesResponse P r extra) (s : Http1Session P)
    (more : List Read) (hend : r.framing.selfDelimiting = false → extra = [] ∧ more = []) :
    Http1Session.requestThenBody s (.ok ()) (readsWith extra cs ++ more) =
      (.ok (⟨(afterHeadLoop P clientStart cs).head.start,
        (afterHeadLoop P clientStart cs).head.headers⟩, r.framing.body), more) := by
  have hline := isLine_response (P := P) r
  cases hself : r.framing.selfDelimiting with
  | true =>
    obtain ⟨p, hhead, htrack⟩ := headLoop_extra (L := clientStart) hcs hself extra more
      (hparses cs hcs)
    obtain ⟨s', hbody, hbuf⟩ := bodyLoop_extra hline hcs hself ⟨{}, []⟩ extra more htrack
    simp only [Http1Session.requestThenBody, Http1Session.request, hhead, Http1Session.bodyFull,
      hbody, hbuf]
  | false =>
    obtain ⟨rfl, rfl⟩ := hend hself
    have hall : Parses P (fun _ => True) .ok r.toks := fun cs hcs => by
      simpa only [withExtra_nil] using hparses cs hcs
    obtain ⟨p, hhead, htrack, -⟩ := headLoop (L := clientStart) hcs hall [] fun _ => rfl
    obtain ⟨s', hbody, hbuf⟩ := bodyLoop_eof hline hcs hself ⟨{}, []⟩ htrack
    rw [List.append_nil] at hhead
    rw [readsWith_nil, List.append_nil]
    simp only [Http1Session.requestThenBody, Http1Session.request, hhead, List.append_nil,
      Http1Session.bodyFull, hbody, hbuf]

/-- `200 OK` with two bytes of body. -/
def sampleOk : Response where
  version := .http11
  code := 200
  reason := some (ascii "OK")
  headers := [lengthLine]
  framing := .fixed (ascii "hi")
  code_range := by decide
  reason_text := by decide
  framing_announced := by
    rw [if_neg (by decide)]
    exact ⟨by decide, by simp⟩

/-- A parser for that response. -/
def okParser : Llhttp := oneMessage sampleOk.toks [] .ok

theorem okParser_parses : ParsesResponse okParser sampleOk [] := by
  have hparses := oneMessage_parsesResponse sampleOk []
  rwa [plain, List.map_nil, List.append_nil] at hparses

/-- `100 Continue`. -/
def sampleContinue : Response where
  version := .http11
  code := 100
  reason := some (ascii "Continue")
  headers := []
  framing := .none
  code_range := by decide
  reason_text := by decide
  framing_announced := by rw [if_pos (by decide)]

/-- The same answer as `sampleOk` without a reason phrase. -/
def sampleNoReason : Response :=
  { sampleOk with reason := none, reason_text := by decide }

/-- The same answer with a blank behind its length. -/
def sampleBlank : Response :=
  { sampleOk with
    headers := [blankLengthLine]
    framing_announced := by
      rw [if_neg (by decide)]
      exact ⟨by decide, by simp [sampleOk]⟩ }

end Ppnt.Spec
