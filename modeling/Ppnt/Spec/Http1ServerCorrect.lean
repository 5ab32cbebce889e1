import Ppnt.Spec.Http1ReadLoop

/-!
# Request framing of the HTTP/1 server session

`receive_request` and `receive_body` on a connection that delivers well-formed requests, each in
reads of its own.  The body is always right and the connection is left at the next request.  The
head is right exactly when the request target and its delimiter arrive in one read, the read that
completes the header section does not also open a second trailer, no field value has white space
behind it, and the request does not ask for another protocol: `on_url` stores a span where the
header callbacks append one, `commit_header` adds trailers to the list that is returned, llhttp
reports a value up to the end of its line, and it stops with an error code behind an upgrade.
-/

namespace Ppnt.Spec

open Ppnt.Native Spans

variable {P : Llhttp}

/-- The request as the session should return it. -/
def Request.toHttpRequest (r : Request) : HttpRequest :=
  ⟨r.method, r.target, r.headers.map HeaderLine.toHeader⟩

/-- How a request has to arrive. -/
structure ArrivesWell (r : Request) (cs : List (List HTok)) : Prop where
  not_upgrade : r.isUpgrade = false
  target : Uncut .onUrl cs
  trailers : starts .onHeaderField (opsOf (headPieces cs).flatten) ≤ r.headers.length + 1
  values : HeaderLine.Trimmed r.headers

instance (r : Request) (cs : List (List HTok)) : Decidable (ArrivesWell r cs) :=
  decidable_of_iff (r.isUpgrade = false ∧ Uncut .onUrl cs ∧
      starts .onHeaderField (opsOf (headPieces cs).flatten) ≤ r.headers.length + 1 ∧
      HeaderLine.Trimmed r.headers)
    ⟨fun h => ⟨h.1, h.2.1, h.2.2.1, h.2.2.2⟩, fun h => ⟨h.1, h.2, h.3, h.4⟩⟩

theorem isLine_request (r : Request) :
    IsLine P serverStart r.lineToks [.span .onUrl r.target] r.target where
  closed := closed_requestLine r
  stored := rfl
  no_mark := by simp
  no_field := starts_eq_zero (by
    rw [Request.lineToks, opsOf_append, opsOf_append,
      opsOf_onFirst _ (plain_ne_nil r.target_ne_nil), opsOf_onFirst _ (plain_ne_nil (by simp))]
    simp)
  no_body := by simp [collect, Event.dataFor]
  opens := opensOnBytes_requestLine r

private theorem measures_server : Measures serverStart List.length where
  url g hg d := by
    obtain rfl : (fun path => path) = g := Option.some.inj hg
    rfl
  status g hg := by simp [serverStart] at hg

/-- The head is right exactly when the target is not cut, at most one trailer is open and no value
    has white space behind it. -/
theorem head_eq_iff {r : Request} {cs : List (List HTok)} (hcs : Pieces r.toks cs) :
    ((afterHeadLoop P serverStart cs).head.start = r.target ∧
        (afterHeadLoop P serverStart cs).head.headers = r.headers.map HeaderLine.toHeader) ↔
      Uncut .onUrl cs ∧
        starts .onHeaderField (opsOf (headPieces cs).flatten) ≤ r.headers.length + 1 ∧
          HeaderLine.Trimmed r.headers := by
  have honly : ∀ e, overwrites serverStart e = true → e = .onUrl := by
    intro e he
    cases e <;> simp_all [overwrites, serverStart]
  have huncut := fun h : Uncut .onUrl cs =>
    head_of_uncut (isLine_request (P := P) r) hcs fun e he => honly e he ▸ h
  constructor
  · rintro ⟨hstart, hheaders⟩
    by_cases hcut : Uncut .onUrl cs
    · exact ⟨hcut, (huncut hcut).2.mp hheaders⟩
    · -- a cut leaves less than the target
      have hlt := start_of_cut (isLine_request (P := P) r) hcs measures_server rfl
        (fun e _ he => honly e he) hcut
      rw [hstart] at hlt
      simp [collect, Event.dataFor] at hlt
  · rintro ⟨hcut, hheaders⟩
    exact ⟨(huncut hcut).1, (huncut hcut).2.mpr hheaders⟩

/-- One pair of calls on a request that does not ask for another protocol: the head depends on
    the reads, the body and the rest of the connection do not. -/
theorem receive_request_body {r : Request} {cs : List (List HTok)} (hcs : Pieces r.toks cs)
    (hparses : ParsesRequest P r) (hup : r.isUpgrade = false) (s : Http1ServerSession P)
    (more : List Read) :
    ∃ s₁ reads s₂,
      Http1ServerSession.receiveRequest s (readsOf cs ++ more) =
        (.ok ⟨r.method, (afterHeadLoop P serverStart cs).head.start,
          (afterHeadLoop P serverStart cs).head.headers⟩, s₁, reads) ∧
      Http1ServerSession.receiveBody s₁ reads = (.ok r.framing.body, s₂, more) := by
  rw [ParsesRequest, Request.errno, hup] at hparses
  obtain ⟨p, hhead, htrack, hmethod⟩ := headLoop (L := serverStart) hcs hparses more fun _ => rfl
  obtain ⟨s', hbody, hbuf⟩ := bodyLoop (isLine_request (P := P) r) hcs r.framing_end ⟨[], []⟩ more
    htrack
  refine ⟨{ afterHeadLoop P serverStart cs with parser := p, head := ⟨[], []⟩ },
    readsOf (bodyPieces cs) ++ more, { s' with bodyBuffer := [] }, ?_, ?_⟩
  · rw [Http1ServerSession.receiveRequest, hhead]
    simp only [hmethod]
  · rw [Http1ServerSession.receiveBody, hbody]
    simp only [hbuf]

/-- An upgrade makes one of the two calls fail. -/
theorem receive_upgrade {r : Request} {cs : List (List HTok)} (hcs : Pieces r.toks cs)
    (hparses : ParsesRequest P r) (hup : r.isUpgrade = true) (s : Http1ServerSession P)
    (more : List Read) :
    ∀ request s₁ reads, Http1ServerSession.receiveRequest s (readsOf cs ++ more) =
      (.ok request, s₁, reads) → ∃ e s₂ reads',
        Http1ServerSession.receiveBody s₁ reads = (.error e, s₂, reads') := by
  rw [ParsesRequest, Request.errno, hup] at hparses
  intro request s₁ reads hreq
  by_cases hrest : bodyPieces cs = []
  · obtain ⟨s', hloop⟩ := headLoop_error (L := serverStart) hcs hparses more hrest
    rw [Http1ServerSession.receiveRequest, hloop] at hreq
    simp [makeErrResult] at hreq
  · obtain ⟨p, hhead, htrack, -⟩ := headLoop (L := serverStart) hcs hparses more
      fun h => absurd h hrest
    obtain ⟨s', hbody⟩ := bodyLoop_error (isLine_request (P := P) r) hcs r.framing_end ⟨[], []⟩ more
      hrest htrack
    rw [Http1ServerSession.receiveRequest, hhead] at hreq
    simp only [Prod.mk.injEq] at hreq
    obtain ⟨-, rfl, rfl⟩ := hreq
    refine ⟨⟨.badMessage, "http1 request body"⟩, s', more, ?_⟩
    rw [Http1ServerSession.receiveBody, hbody]
    rfl

/-- For any requests, each delivered in reads of its own, the pairs of calls return them all
    correctly if and only if every one of them arrives well. -/
theorem receivePairs_eq_iff (s : Http1ServerSession P)
    (xs : List (Request × List (List HTok))) (hpieces : ∀ x ∈ xs, Pieces x.1.toks x.2)
    (hparses : ∀ x ∈ xs, ParsesRequest P x.1) :
    Http1ServerSession.receivePairs xs.length s (xs.flatMap fun x => readsOf x.2) =
        xs.map (fun x => (.ok x.1.toHttpRequest, .ok x.1.framing.body)) ↔
      ∀ x ∈ xs, ArrivesWell x.1 x.2 := by
  induction xs generalizing s with
  | nil => simp [Http1ServerSession.receivePairs]
  | cons x xs ih =>
    have hx := hpieces x (by simp)
    have hP := hparses x (by simp)
    have ih' := fun s => ih s (fun y hy => hpieces y (by simp [hy]))
      (fun y hy => hparses y (by simp [hy]))
    simp only [List.length_cons, List.flatMap_cons, List.map_cons, List.forall_mem_cons]
    by_cases hup : x.1.isUpgrade = true
    · -- the pair for `x` cannot be right
      refine iff_of_false (fun heq => ?_) fun h => by simpa [hup] using h.1.not_upgrade
      have hfail := receive_upgrade hx hP hup s (xs.flatMap fun x => readsOf x.2)
      simp only [Http1ServerSession.receivePairs, List.cons.injEq, Prod.mk.injEq] at heq
      obtain ⟨⟨hreq, hbody⟩, -⟩ := heq
      obtain ⟨e, s₂, reads', herr⟩ := hfail _ _ _ (Prod.ext hreq rfl)
      rw [herr] at hbody
      cases hbody
    · have hup' : x.1.isUpgrade = false := by simpa using hup
      obtain ⟨s₁, reads, s₂, hreq, hbody⟩ := receive_request_body hx hP hup' s
        (xs.flatMap fun x => readsOf x.2)
      have hhead : (⟨x.1.method, (afterHeadLoop P serverStart x.2).head.start,
          (afterHeadLoop P serverStart x.2).head.headers⟩ : HttpRequest) = x.1.toHttpRequest ↔
          ArrivesWell x.1 x.2 := by
        rw [Request.toHttpRequest, HttpRequest.mk.injEq, eq_self, true_and, head_eq_iff hx]
        exact ⟨fun h => ⟨hup', h.1, h.2.1, h.2.2⟩, fun h => ⟨h.2, h.3, h.4⟩⟩
      simp only [Http1ServerSession.receivePairs, hreq, hbody, List.cons.injEq, Prod.mk.injEq,
        Except.ok.injEq, and_true, hhead, ih' s₂]

/-- `POST /ab` with two bytes of body. -/
def samplePost : Request where
  method := ascii "POST"
  target := ascii "/ab"
  version := .http11
  headers := [lengthLine]
  framing := .fixed (ascii "hi")
  method_token := by decide
  target_visible := by decide
  framing_announced := by decide
  framing_end := rfl

/-- A parser for that request. -/
def postParser : Llhttp := oneMessage samplePost.toks (ascii "POST") .ok

private theorem postParser_parses : ParsesRequest postParser samplePost := by
  have hup : samplePost.isUpgrade = false := by decide
  rw [ParsesRequest, Request.errno, hup]
  exact oneMessage_parses samplePost.toks (ascii "POST") .ok fun _ => rfl

theorem receivePairs_eq_iff_samplePost :
    Http1ServerSession.receivePairs (P := postParser) 2 (H1Session.resetState _ serverStart)
        (readsOf [samplePost.toks.take 9, samplePost.toks.drop 9] ++
          readsOf [samplePost.toks.take 41, samplePost.toks.drop 41]) =
      [(.ok samplePost.toHttpRequest, .ok (ascii "hi")),
        (.ok samplePost.toHttpRequest, .ok (ascii "hi"))] := by
  refine (receivePairs_eq_iff (P := postParser) (H1Session.resetState _ serverStart)
    [(samplePost, [samplePost.toks.take 9, samplePost.toks.drop 9]),
      (samplePost, [samplePost.toks.take 41, samplePost.toks.drop 41])] ?_ ?_).mpr ?_
  · simp only [List.forall_mem_cons, List.not_mem_nil, false_imp_iff, implies_true, and_true]
    exact ⟨⟨by simp, by decide⟩, ⟨by simp, by decide⟩⟩
  · simpa using postParser_parses
  · decide

/-- The same request with a blank behind its length. -/
def blankPost : Request :=
  { samplePost with
    headers := [blankLengthLine]
    framing_announced := by decide }

/-- A read boundary inside the target loses its beginning, the blank behind a value is taken for a
    part of it, and two requests in one read are returned as one, with the headers and bodies of
    both. -/
theorem receivePairs_misframed :
    Pieces samplePost.toks [samplePost.toks.take 7, samplePost.toks.drop 7] ∧
    ParsesRequest postParser samplePost ∧
    Http1ServerSession.receivePairs (P := postParser) 1 (H1Session.resetState _ serverStart)
        (readsOf [samplePost.toks.take 7, samplePost.toks.drop 7]) =
      [(.ok ⟨ascii "POST", ascii "b", [⟨ascii "content-length", ascii "2"⟩]⟩,
        .ok (ascii "hi"))] ∧
    Http1ServerSession.receivePairs (P := oneMessage blankPost.toks (ascii "POST") .ok) 1
        (H1Session.resetState _ serverStart) (readsOf [blankPost.toks]) =
      [(.ok ⟨ascii "POST", ascii "/ab", [⟨ascii "content-length", ascii "2 "⟩]⟩,
        .ok (ascii "hi"))] ∧
    Http1ServerSession.receivePairs (P := oneMessage (samplePost.toks ++ samplePost.toks)
        (ascii "POST") .ok) 2 (H1Session.resetState _ serverStart)
        (readsOf [samplePost.toks ++ samplePost.toks]) =
      [(.ok ⟨ascii "POST", ascii "/ab",
          [⟨ascii "content-length", ascii "2"⟩, ⟨ascii "content-length", ascii "2"⟩]⟩,
        .ok (ascii "hihi")),
        (.error ⟨.connectionAborted, "eof before headers complete"⟩, .ok [])] := by
  exact ⟨⟨by simp, by decide⟩,
    postParser_parses, by decide +kernel, by decide +kernel, by decide +kernel⟩

end Ppnt.Spec
