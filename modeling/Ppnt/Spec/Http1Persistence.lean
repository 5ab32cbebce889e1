import Ppnt.Spec.Http1Feed
import Ppnt.Spec.Http1ServerCorrect

/-!
# Persistence of a server's connection

`send_response` closes the connection unless `llhttp_should_keep_alive` tells it not to, which looks
at the version and the connection flags of the parser.  llhttp sets them for `Proxy-Connection`,
too, does not set them for an option with a tab behind it, and clears them when a message is
complete, unless it asks for another protocol.  So the answer is about the request only as long as a
part of it is still to come.

No read goes on behind the request: what follows it in the same read goes to the parser as well, and
`send_response` would answer for that.
-/

namespace Ppnt.Spec

open Ppnt.Native Spans

/-! ## The pieces of a request -/

variable {cs a b : List (List HTok)} {reads : List Read}

section Feed

variable {P : Llhttp} {σ : Type} {L : StartLine σ} {atHead : P.State → Prop} {final : LlhttpErrno}

/-- The reads deliver the pieces in this order.  Any read may fail, the connection may end early,
    and anything may follow the pieces. -/
def PiecesArrive : List (List HTok) → List Read → Prop
  | [], _ => True
  | _ :: _, [] => True
  | c :: cs, .error _ :: reads => PiecesArrive (c :: cs) reads
  | c :: cs, .ok bytes :: reads =>
    bytes = [] ∧ PiecesArrive (c :: cs) reads ∨ bytes = bytesOf c ∧ PiecesArrive cs reads

/-- The session has got the pieces `a` of a message, and the parser expects the pieces `b`. -/
structure Fed (L : StartLine σ) (atHead : P.State → Prop) (final : LlhttpErrno)
    (a b : List (List HTok)) (s : H1Session P σ) : Prop where
  parser : s.parser = feed P a
  flag : ∀ m, s.flag m = true ↔ .mark m ∈ opsOf a.flatten
  tracks : Tracks P atHead final s.parser (openAfter none (opsOf a.flatten)) b
  ne_nil : ∀ c ∈ b, c ≠ []

private theorem fed_reset {m : List HTok} (hparses : Parses P atHead final m) (hcs : Pieces m cs) :
    Fed L atHead final [] cs (H1Session.resetState P L) where
  parser := rfl
  flag m := by cases m <;> simp [H1Session.flag, H1Session.resetState]
  tracks := hparses cs hcs
  ne_nil := hcs.ne_nil

/-- One piece. -/
theorem Fed.execute {c : List HTok} {s : H1Session P σ} (h : Fed L atHead final a (c :: b) s) :
    Fed L atHead final (a ++ [c]) b (s.execute L (bytesOf c)).1 := by
  obtain ⟨hcbs, -, -, hrest⟩ := h.tracks
  -- the flags come from the callbacks of the piece, the rest from what is assumed of the parser
  refine ⟨?_, fun m => ?_, ?_, fun c' hc' => h.ne_nil c' (List.mem_cons_of_mem c hc')⟩
  · simp [H1Session.execute, h.parser, feed]
  · have hflag := foldl_callback_flag L m s (P.execute s.parser (bytesOf c)).2.1
    rw [hcbs, mark_mem_deliver, h.flag m] at hflag
    have hparser : (s.execute L (bytesOf c)).1.flag m =
        ((deliver (openAfter none (opsOf a.flatten)) (opsOf c)).foldl (H1Session.callback L) s).flag
        m := by
      cases m <;> simp [H1Session.execute, H1Session.flag, hcbs]
    rw [hparser, hflag]
    simp
  · simpa [openAfter_append, H1Session.execute] using hrest

/-- Where a mark has still to come there is a piece to come. -/
private theorem Fed.exists_piece {m : Cb} {s : H1Session P σ} (h : Fed L atHead final a b s)
    (hmark : .mark m ∈ opsOf (a ++ b).flatten) (hflag : s.flag m = false) :
    ∃ c b', b = c :: b' := by
  cases b with
  | nil =>
    have hup := (h.flag m).mpr (by simpa using hmark)
    simp [hflag] at hup
  | cons c b => exact ⟨c, b, rfl⟩

/-- The next read that has bytes has those of the next piece. -/
theorem Fed.arrived {c : List HTok} {s : H1Session P σ} (h : Fed L atHead final a (c :: b) s)
    {bytes : List UInt8} (hreads : PiecesArrive (c :: b) (.ok bytes :: reads)) :
    bytes = [] ∧ PiecesArrive (c :: b) reads ∨
      bytes ≠ [] ∧ bytes = bytesOf c ∧ PiecesArrive b reads := by
  have hc : bytesOf c ≠ [] := by simpa [bytesOf] using h.ne_nil c List.mem_cons_self
  rcases hreads with hskip | ⟨rfl, hrest⟩
  · exact .inl hskip
  · exact .inr ⟨hc, rfl, hrest⟩

/-- A read loop feeds the parser some of the pieces that are to come. -/
theorem Fed.run {m : Cb} {s s' : H1Session P σ} {reads' : List Read} {exit : H1Session.LoopExit}
    (h : Fed L atHead final a b s) (hrun : LoopRun L m s reads exit s' reads')
    (hmark : .mark m ∈ opsOf (a ++ b).flatten) (hreads : PiecesArrive b reads) :
    ∃ a' b', a ++ a' ++ b' = a ++ b ∧ Fed L atHead final (a ++ a') b' s' ∧
      PiecesArrive b' reads' := by
  -- on the run; while the flag is down the mark is to come, so there is a piece for the next read
  induction hrun generalizing a b with
  | done | noReads => exact ⟨[], b, by simp, by simpa using h, hreads⟩
  | readError hflag =>
    obtain ⟨c, b, rfl⟩ := h.exists_piece hmark hflag
    exact ⟨[], c :: b, by simp, by simpa using h, hreads⟩
  | eof hflag =>
    obtain ⟨c, b, rfl⟩ := h.exists_piece hmark hflag
    rcases h.arrived hreads with ⟨-, hrest⟩ | ⟨hne, -⟩
    · exact ⟨[], c :: b, by simp, by simpa using h, hrest⟩
    · exact absurd rfl hne
  | parseError hflag hbytes hexec =>
    obtain ⟨c, b, rfl⟩ := h.exists_piece hmark hflag
    rcases h.arrived hreads with ⟨hnil, -⟩ | ⟨-, rfl, hrest⟩
    · exact absurd hnil hbytes
    · have hfed := h.execute
      rw [hexec] at hfed
      exact ⟨[c], b, by simp, hfed, hrest⟩
  | step hflag hbytes hexec _ ih =>
    obtain ⟨c, b, rfl⟩ := h.exists_piece hmark hflag
    rcases h.arrived hreads with ⟨hnil, -⟩ | ⟨-, rfl, hrest⟩
    · exact absurd hnil hbytes
    · have hfed := h.execute
      rw [hexec] at hfed
      obtain ⟨a', b', hab, hfed', harrive⟩ := ih hfed (by simpa using hmark) hrest
      exact ⟨c :: a', b', by simpa using hab, by simpa using hfed', harrive⟩

/-- What becomes of the head and the body does not matter. -/
theorem Fed.congr {s s' : H1Session P σ} (h : Fed L atHead final a b s)
    (hparser : s'.parser = s.parser) (hflag : ∀ m, s'.flag m = s.flag m) :
    Fed L atHead final a b s' where
  parser := hparser.trans h.parser
  flag m := by rw [hflag m]; exact h.flag m
  tracks := by rw [hparser]; exact h.tracks
  ne_nil := h.ne_nil

end Feed

/-! ## Persistence -/

namespace Request

/-- The connection is to be closed behind the response. -/
def AsksToClose (r : Request) : Prop :=
  if r.version = .http11 then listsToken "connection" "close" r.headers = true
  else listsToken "connection" "keep-alive" r.headers = false

instance (r : Request) : Decidable r.AsksToClose := by
  unfold AsksToClose
  infer_instance

/-- The connection flags say that it is to be closed. -/
def FlaggedToClose (r : Request) : Prop :=
  if r.version = .http11 then connectionFlag "close" r.headers = true
  else connectionFlag "keep-alive" r.headers = false

/-- Without `Proxy-Connection`, and without tabs in `Connection`, the flags are right. -/
theorem flaggedToClose_iff {r : Request} (hproxy : fieldValues "proxy-connection" r.headers = [])
    (htab : ∀ v ∈ fieldValues "connection" r.headers, 9 ∉ v) :
      r.FlaggedToClose ↔ r.AsksToClose := by
  have hflag : ∀ token, connectionFlag token r.headers =
    listsToken "connection" token r.headers := by
    intro token
    rw [connectionFlag, listsToken, hproxy, List.append_nil, Bool.eq_iff_iff, List.any_eq_true,
      List.any_eq_true]
    exact exists_congr fun v =>
      and_congr_right fun hv => by rw [flagElements_eq_listElements (htab v hv)]
  rw [FlaggedToClose, AsksToClose, hflag, hflag]

end Request

/-- What a parser knows of a request whose header section it has seen. -/
structure KnowsRequest (r : Request) (p : LlhttpFields) : Prop where
  type : p.type = .request
  version : p.httpMajor = 1 ∧ p.httpMinor = r.version.minor
  close : p.flags.connectionClose = connectionFlag "close" r.headers
  keepAlive : p.flags.connectionKeepAlive = connectionFlag "keep-alive" r.headers

/-- What is assumed of llhttp for the members that `llhttp_should_keep_alive` reads.  Behind the
    request it calls `llhttp__after_message_complete`, unless it pauses there. -/
structure ParsesFields (P : LlhttpParser) (r : Request) : Prop where
  parses : ParsesRequest P.toLlhttp r
  fields : ∀ cs, Pieces r.toks cs → ∀ a b, a ++ b = cs →
    .mark .onHeadersComplete ∈ opsOf a.flatten → ∃ p, KnowsRequest r p ∧
      P.fields (feed P.toLlhttp a) =
        if .mark .onMessageComplete ∈ opsOf a.flatten ∧ r.isUpgrade = false then
          p.afterMessageComplete
        else p

/-! ## Closing the connection -/

variable {P : LlhttpParser} {r : Request}

/-- Any number of calls of `receive_body`. -/
def receiveBodies {P : Llhttp} : Nat → Http1ServerSession P → List Read →
    Http1ServerSession P × List Read
  | 0, s, reads => (s, reads)
  | n + 1, s, reads =>
    let (_, s, reads) := Http1ServerSession.receiveBody s reads
    receiveBodies n s reads

/-- A session that has got a request, and the rest of it on the connection. -/
structure GotRequest (P : LlhttpParser) (r : Request) (cs : List (List HTok))
    (a : List (List HTok)) (s : Http1ServerSession P.toLlhttp) (reads : List Read) : Prop where
  header : .mark .onHeadersComplete ∈ opsOf a.flatten
  rest : ∃ b, a ++ b = cs ∧ Fed serverStart (fun st => P.methodName st = r.method) r.errno a b s ∧
    PiecesArrive b reads

/-- Both marks are in the message. -/
private theorem mark_mem_request (hcs : Pieces r.toks cs) (m : Cb) :
    .mark m ∈ opsOf cs.flatten := by
  rw [hcs.flatten_eq, Request.toks, opsOf_messageToks, headOps, tailOps,
    if_pos r.framing_end]
  cases m <;> simp

/-- `receive_request`. -/
private theorem gotRequest_of_receiveRequest (hcs : Pieces r.toks cs) (hparses : ParsesFields P r)
    {s₀ s₁ : Http1ServerSession P.toLlhttp} {reads₁ : List Read} {request : HttpRequest}
    (hreads : PiecesArrive cs reads)
    (h : Http1ServerSession.receiveRequest s₀ reads = (.ok request, s₁, reads₁)) :
    ∃ a, GotRequest P r cs a s₁ reads₁ := by
  have hreset : Fed serverStart (fun st => P.methodName st = r.method) r.errno [] cs
      (H1Session.resetState P.toLlhttp serverStart) := fed_reset hparses.parses hcs
  have hrun := loopRun (L := serverStart) .onHeadersComplete
    (H1Session.resetState P.toLlhttp serverStart) reads
  unfold Http1ServerSession.receiveRequest at h
  split at h <;> simp only [makeErrResult, Prod.mk.injEq, reduceCtorEq, false_and] at h
  next s' reads' hloop =>
  obtain ⟨-, rfl, rfl⟩ := h
  rw [hloop] at hrun
  obtain ⟨a, b, hab, hfed, harrive⟩ := hreset.run hrun (mark_mem_request hcs _) hreads
  have hheader := (hfed.flag .onHeadersComplete).mp (hrun.flag rfl)
  exact ⟨a, hheader, b, hab, hfed.congr rfl fun m => by cases m <;> rfl, harrive⟩

/-- `receive_body`, whether it gets the whole body or fails on the way. -/
private theorem GotRequest.receiveBodies (hcs : Pieces r.toks cs)
    {s : Http1ServerSession P.toLlhttp} (h : GotRequest P r cs a s reads) (n : Nat) :
    ∃ a', GotRequest P r cs a' (receiveBodies n s reads).1 (receiveBodies n s reads).2 := by
  induction n generalizing a s reads with
  | zero => exact ⟨a, h⟩
  | succ n ih =>
    obtain ⟨hheader, b, hab, hfed, harrive⟩ := h
    obtain ⟨a', b', hab', hfed', harrive'⟩ := hfed.run (loopRun .onMessageComplete s reads)
      (by rw [hab]; exact mark_mem_request hcs _) harrive
    -- apart from the body, which is moved out, the call leaves what its loop leaves
    have hcall : (Http1ServerSession.receiveBody s reads).2.1.parser =
          (s.readUntil serverStart .onMessageComplete reads).2.1.parser ∧
        (∀ m, (Http1ServerSession.receiveBody s reads).2.1.flag m =
          (s.readUntil serverStart .onMessageComplete reads).2.1.flag m) ∧
        (Http1ServerSession.receiveBody s reads).2.2 =
          (s.readUntil serverStart .onMessageComplete reads).2.2 := by
      unfold Http1ServerSession.receiveBody
      rcases s.readUntil serverStart .onMessageComplete reads with ⟨exit, s', reads'⟩
      cases exit <;> exact ⟨rfl, fun m => by cases m <;> rfl, rfl⟩
    have hnext : GotRequest P r cs (a ++ a') (Http1ServerSession.receiveBody s reads).2.1
        (Http1ServerSession.receiveBody s reads).2.2 := by
      refine ⟨?_, b', hab'.trans hab,
        hfed'.congr hcall.1 hcall.2.1, by rw [hcall.2.2]; exact harrive'⟩
      rw [List.flatten_append, opsOf_append]
      exact List.mem_append_left _ hheader
    exact ih hnext

/-- What `llhttp_should_keep_alive` says of a request that the parser knows, and behind it. -/
theorem shouldKeepAlive_of_knows {p : LlhttpFields} (h : KnowsRequest r p) :
    (p.shouldKeepAlive = false ↔ r.FlaggedToClose) ∧
      (p.afterMessageComplete.shouldKeepAlive = false ↔ r.version = .http10) := by
  obtain ⟨htype, ⟨hmajor, hminor⟩, hclose, hkeep⟩ := h
  have heof : p.messageNeedsEof = false := by simp [LlhttpFields.messageNeedsEof, htype]
  have heof' : p.afterMessageComplete.messageNeedsEof = false := by
    simp [LlhttpFields.messageNeedsEof, LlhttpFields.afterMessageComplete, htype]
  -- HTTP/1.1 stays open without the flag `close`, HTTP/1.0 only with the flag `keep-alive`
  cases hversion : r.version with
  | http11 =>
    rw [hversion] at hminor
    have hone : p.httpMinor = 1 := hminor
    constructor
    · simp [LlhttpFields.shouldKeepAlive, hmajor, hone, hversion, heof, hclose,
        Request.FlaggedToClose]
    · simp [LlhttpFields.shouldKeepAlive, heof']
      simp [LlhttpFields.afterMessageComplete, hmajor, hone]
  | http10 =>
    rw [hversion] at hminor
    have hzero : p.httpMinor = 0 := hminor
    constructor
    · simp [LlhttpFields.shouldKeepAlive, hzero, hversion, heof, hkeep, Request.FlaggedToClose]
    · simp [LlhttpFields.shouldKeepAlive, LlhttpFields.afterMessageComplete, hzero]

/-- What a parser knows of one request. -/
def Request.known (r : Request) : LlhttpFields where
  type := .request
  httpMinor := r.version.minor
  flags := {
    connectionClose := connectionFlag "close" r.headers
    connectionKeepAlive := connectionFlag "keep-alive" r.headers }

/-- A parser that knows one request. -/
def oneRequest (r : Request) : LlhttpParser where
  toLlhttp := oneMessage r.toks r.method r.errno
  fields n :=
    if (opsOf (r.toks.take n)).contains (.mark .onMessageComplete) ∧ r.isUpgrade = false then
      r.known.afterMessageComplete
    else r.known

/-- The state of such a parser is the number of bytes. -/
private theorem feed_oneMessage {m : List HTok} {method : List UInt8} {final : LlhttpErrno}
    (hm : (a ++ b).flatten = m) :
    feed (oneMessage m method final) a = a.flatten.length := by
  induction a using List.reverseRecOn generalizing b with
  | nil => rfl
  | append_singleton a c ih =>
    have hbefore := ih (b := c :: b) (by rw [← hm]; simp)
    have hdrop : (m.drop a.flatten.length).take c.length = c := by rw [← hm]; simp
    rw [feed, List.foldl_append, List.foldl_cons, List.foldl_nil, ← feed, hbefore]
    simp only [oneMessage, length_bytesOf, hdrop, if_true]
    simp

private theorem oneRequest_parses (r : Request) : ParsesFields (oneRequest r) r where
  parses := oneMessage_parses _ _ _ fun _ => rfl
  fields cs hcs a b hab _ := by
    have hfeed : feed (oneRequest r).toLlhttp a = a.flatten.length :=
      feed_oneMessage (by rw [hab, hcs.flatten_eq])
    have htake : r.toks.take a.flatten.length = a.flatten := by
      rw [← hcs.flatten_eq, ← hab]
      simp
    refine ⟨r.known, ⟨rfl, ⟨rfl, rfl⟩, rfl, rfl⟩, ?_⟩
    rw [hfeed]
    simp only [oneRequest, htake, List.contains_iff_mem]

/-- `POST /` with `Connection: close` and two bytes of body. -/
def closingPost : Request where
  method := ascii "POST"
  target := ascii "/"
  headers := [closeLine, lengthLine]
  framing := .fixed (ascii "hi")
  version := .http11
  method_token := samplePost.method_token
  target_visible := by decide
  framing_announced := by decide
  framing_end := samplePost.framing_end

/-- `GET /` with `Connection: close`. -/
def closingGet : Request where
  method := ascii "GET"
  target := ascii "/"
  headers := [closeLine]
  framing := .none
  version := .http11
  method_token := by decide
  target_visible := by decide
  framing_announced := by decide
  framing_end := rfl

end Ppnt.Spec
