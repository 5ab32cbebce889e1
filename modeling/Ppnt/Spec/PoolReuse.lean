import Ppnt.Native.WiredClient
import Ppnt.Spec.ClientSockets
import Ppnt.Spec.Http1ClientCorrect
import Ppnt.Spec.Http1Feed
import Ppnt.Spec.PoolLease

/-!
# Reuse of HTTP/1 connections

A session goes back to the pool when `body_full` has returned a body and the peek on its descriptor
finds nothing.  Neither looks at what the response says about the connection, and an interim
response ends the loops of `request` and `body_full` as the final one does.

The peer's answer to each request is a parameter.  Whether it has been received is read off the
bytes that have arrived on the session since the request, not off `message_complete_`.
-/

namespace Ppnt.Spec

open Ppnt.Native Spans

/-- The connection may be used for another request behind the response. -/
def Response.Persistent (r : Response) : Prop :=
  (if r.version = .http11 then listsToken "connection" "close" r.headers = false
    else listsToken "connection" "keep-alive" r.headers = true) ∧
  ∀ body, r.framing ≠ .untilEof body

/-- What a peer sends to answer a request: interim responses and the final one. -/
structure Answer where
  interim : List Response
  final : Response
  interim_code : ∀ r ∈ interim, r.code < 200
  final_code : 200 ≤ final.code

def Answer.bytes (a : Answer) : List UInt8 :=
  a.interim.flatMap (fun r => bytesOf r.toks) ++ bytesOf a.final.toks

/-- An answer without interim responses is the final response. -/
private theorem Answer.bytes_eq {a : Answer} (h : a.interim = []) :
    a.bytes = bytesOf a.final.toks := by
  simp [Answer.bytes, h]

section Conditions

variable {P : Llhttp}

/-- What is read on a session is the answer to its request, or goes on behind it. -/
def Answered (peer : RequestId → Answer) (σ : WiredClient P) (s : SessionId)
    (bytes : List UInt8) : Prop :=
  ∀ w, σ.wires s = some w → w.received ++ bytes <+: (peer w.request).bytes ∨
    (peer w.request).bytes <+: w.received ++ bytes

/-- What has to hold when a first `body_full` on a response returns a body: the response has not
    been moved to another session meanwhile, `is_valid` fails on a connection that has ended, and it
    fails or the answer is a single response that permits persistence. -/
def Reusable (peer : RequestId → Answer) (σ : WiredClient P) (c : CallId)
    (dead : List SessionId) : Prop :=
  ∀ o s response, σ.client.calls c = some (.running o s) →
    σ.client.responses.get? o = some response → response.bodyConsumed = false →
    response.session = some s ∧ (∀ w, σ.wires s = some w → w.ended = true → s ∈ dead) ∧
      ∀ q, response.head = some q → ((peer q).interim = [] ∧ (peer q).final.Persistent) ∨ s ∈ dead

/-- What has to hold at a step. -/
def Fits (peer : RequestId → Answer) (σ : WiredClient P) : WireLabel → Prop
  | .headRead q bytes => ∀ key s, σ.client.requests.get? q = some (.exchanging key s) →
      Answered peer σ s bytes
  | .bodyRead c bytes => ∀ o s, σ.client.calls c = some (.running o s) → Answered peer σ s bytes
  | .client (.bodyDone c outcome dead) => outcome ≠ .failed → Reusable peer σ c dead
  | .client _ => True

end Conditions

/-! ## Steps of the client -/

section Steps

variable {P : Llhttp} {σ σ' : WiredClient P} {l : ClientLabel}

private theorem setWire_self {s : SessionId} {w : Option (Wire P)} : (σ.setWire s w).wires s = w :=
  Function.update_self ..

private theorem setWire_of_ne {s s₀ : SessionId} {w : Option (Wire P)} (h : s ≠ s₀) :
    (σ.setWire s₀ w).wires s = σ.wires s :=
  Function.update_of_ne h ..

private theorem isH1At_iff_isH1 {s : SessionId} : σ.isH1At s = true ↔ IsH1 σ.client s := by
  simp [WiredClient.isH1At, IsH1]

/-- Nothing has been read between the two, and no flag has been changed. -/
private structure Wire.Same (w w' : Wire P) : Prop where
  request : w'.request = w.request
  received : w'.received = w.received
  parser : w'.session.parser = w.session.parser
  flag : ∀ m, w'.session.flag m = w.session.flag m

private theorem Wire.Same.refl (w : Wire P) : Wire.Same w w := ⟨rfl, rfl, rfl, fun _ => rfl⟩

private theorem hasRead_of_same {m : List HTok} {w w' : Wire P} (h : Wire.Same w w')
    (hread : HasRead m w.received w.session) : HasRead m w'.received w'.session := by
  obtain ⟨a, rest, hm, hne, hreceived, hparser, hflag⟩ := hread
  refine ⟨a, rest, hm, hne, h.received.trans hreceived, h.parser.trans hparser, fun mark => ?_⟩
  rw [h.flag mark]
  exact hflag mark

/-- What a step of the client does to one session: `reset_state` if a request begins on it, and
    otherwise nothing that a later read depends on. -/
private inductive WireStep (σ : WiredClient P) (l : ClientLabel) (σ' : WiredClient P)
    (s : SessionId) : Prop
  | kept (hsame : ∀ w', σ'.wires s = some w' → ∃ w, σ.wires s = some w ∧ Wire.Same w w')
      (hstays : ∀ w, σ.wires s = some w → ∃ w', σ'.wires s = some w' ∧ Wire.Same w w')
      (hbegins : ∀ q key, Begins q l → σ'.client.requests.get? q = some (.exchanging key s) →
        ¬IsH1 σ'.client s)
  | reset {q : RequestId} {key : SessionKey} {ended : Bool} (hbegins : Begins q l)
      (hphase : σ'.client.requests.get? q = some (.exchanging key s))
      (hwire : σ'.wires s = some ⟨q, .resetState P clientStart, [], ended⟩)

/-- A step that leaves the sessions alone. -/
private theorem wireStep_client (client : HttpClient) (s : SessionId)
    (hbegins : ∀ q key, Begins q l → client.requests.get? q = some (.exchanging key s) →
      ¬IsH1 client s) : WireStep σ l { σ with client } s :=
  .kept (fun w hw => ⟨w, hw, .refl w⟩) (fun w hw => ⟨w, hw, .refl w⟩) hbegins

/-- A step that moves something out of one session. -/
private theorem wireStep_take {s₀ : SessionId} {f : Wire P → Wire P} (hf : ∀ w, Wire.Same w (f w))
    (client : HttpClient) (hnot : ∀ q, ¬Begins q l) (s : SessionId) :
    WireStep σ l { σ.setWire s₀ ((σ.wires s₀).map f) with client } s := by
  by_cases hs : s = s₀
  · subst hs
    refine .kept (fun w' hw' => ?_) (fun w hw => ?_) fun q _ hq => absurd hq (hnot q)
    · obtain ⟨w, hw, rfl⟩ := Option.map_eq_some_iff.mp (setWire_self.symm.trans hw')
      exact ⟨w, hw, hf w⟩
    · exact ⟨f w, setWire_self.trans (by rw [hw]; rfl), hf w⟩
  · exact .kept (fun w hw => ⟨w, (setWire_of_ne hs).symm.trans hw, .refl w⟩)
      (fun w hw => ⟨w, (setWire_of_ne hs).trans hw, .refl w⟩) fun q _ hq => absurd hq (hnot q)

/-- `reset_state` starts the parser of the session anew. -/
private theorem wireStep_resetState {q : RequestId} (client : HttpClient)
    (hbegins : ∀ q', Begins q' l ↔ q' = q) (s : SessionId) :
    WireStep σ l ({ σ with client }.resetState q) s := by
  unfold WiredClient.resetState
  split
  case h_2 hnone =>
    refine wireStep_client client s fun q' key hq' hphase => absurd hphase ?_
    rw [(hbegins q').mp hq']
    exact hnone key s
  case h_1 key s₀ hphase =>
    by_cases hs : s = s₀
    · subst hs
      split
      case isTrue => exact .reset ((hbegins q).mpr rfl) hphase setWire_self
      case isFalse hnot =>
        exact wireStep_client client s fun _ _ _ _ hh1 => hnot (isH1At_iff_isH1.mpr hh1)
    · -- another session
      have hother : ∀ q' key', Begins q' l → client.requests.get? q' = some (.exchanging key' s) →
        False := by
        intro q' key' hq' hphase'
        rw [(hbegins q').mp hq', hphase] at hphase'
        exact hs (ExchangePhase.exchanging.inj (Option.some.inj hphase')).2.symm
      split
      case isTrue =>
        exact .kept (fun w hw => ⟨w, (setWire_of_ne hs).symm.trans hw, .refl w⟩)
          (fun w hw => ⟨w, (setWire_of_ne hs).trans hw, .refl w⟩)
          fun q' key' hq' hphase' => (hother q' key' hq' hphase').elim
      case isFalse =>
        exact wireStep_client client s fun q' key' hq' hphase' => (hother q' key' hq' hphase').elim

/-- What a step of the client does to the sessions. -/
private theorem wireStep_of_stepClient (hstep : σ.stepClient l = some σ') :
    σ.client.step l = some σ'.client ∧ ∀ s, WireStep σ l σ' s := by
  cases l with
  -- the two steps after which `request` calls `reset_state`
  | request q | established q =>
    obtain ⟨client, hclient, rfl⟩ := Option.map_eq_some_iff.mp hstep
    have hsame : ({ σ with client }.resetState q).client = client := by
      unfold WiredClient.resetState
      split <;> [split; skip] <;> rfl
    refine ⟨?_, wireStep_resetState client fun _ => eq_comm⟩
    rw [hsame, hclient]
  | responded q id =>
    obtain ⟨-, hstep⟩ := Option.ite_none_right_eq_some.mp hstep
    obtain ⟨client, hclient, rfl⟩ := Option.map_eq_some_iff.mp hstep
    have hnot : ∀ q', ¬Begins q' (.responded q id) := by simp [Begins]
    refine ⟨hclient, fun s => ?_⟩
    unfold WiredClient.takeHead
    split
    case h_1 =>
      refine wireStep_take (fun w => ?_) client hnot s
      exact ⟨rfl, rfl, rfl, fun m => by cases m <;> rfl⟩
    case h_2 => exact wireStep_client client s (by simp [Begins])
  | bodyDone c outcome dead =>
    obtain ⟨-, hstep⟩ := Option.ite_none_right_eq_some.mp hstep
    obtain ⟨client, hclient, rfl⟩ := Option.map_eq_some_iff.mp hstep
    have hnot : ∀ q', ¬Begins q' (.bodyDone c outcome dead) := by simp [Begins]
    refine ⟨hclient, fun s => ?_⟩
    unfold WiredClient.takeBody
    split <;> [split; skip]
    case h_1.isFalse =>
      refine wireStep_take (fun w => ?_) client hnot s
      exact ⟨rfl, rfl, rfl, fun m => by cases m <;> rfl⟩
    all_goals exact wireStep_client client s (by simp [Begins])
  | _ =>
    obtain ⟨client, hclient, rfl⟩ := Option.map_eq_some_iff.mp hstep
    exact ⟨hclient, fun s => wireStep_client client s (by simp [Begins])⟩

/-- `body_full` returns a body if the message was complete or the connection has ended. -/
private theorem bodyDone_ends {c : CallId} {outcome : BodyOutcome} {dead : List SessionId}
    {o : ResponseId}
    {s : SessionId} {w : Wire P} (hstep : σ.stepClient (.bodyDone c outcome dead) = some σ')
    (hok : outcome ≠ .failed) (hcall : σ.client.calls c = some (.running o s))
    (hh1 : IsH1 σ.client s)
    (hw : σ.wires s = some w) : w.session.messageComplete = true ∨ w.ended = true := by
  obtain ⟨hends, -⟩ := Option.ite_none_right_eq_some.mp hstep
  simp only [WiredClient.bodyEnds, hcall, isH1At_iff_isH1.mpr hh1, Bool.not_true, Bool.false_or, hw,
    Option.any_some] at hends
  cases outcome with
  | complete => exact .inl hends
  | eof => exact .inr hends
  | failed => exact absurd rfl hok

/-- What a read does. -/
private theorem read_eq {s : SessionId} {bytes : List UInt8} {errno : LlhttpErrno}
    (hread : σ.read s bytes = some (σ', errno)) :
    ∃ w w', σ.wires s = some w ∧ σ' = σ.setWire s (some w') ∧ w'.request = w.request ∧
      (w'.received = w.received ∧ w'.session = w.session ∨
        bytes ≠ [] ∧ w'.received = w.received ++ bytes ∧
          w'.session = (w.session.execute clientStart bytes).1) := by
  unfold WiredClient.read at hread
  split at hread
  case h_1 => simp at hread
  case h_2 w hw =>
    split at hread <;> [skip; split at hread <;> [skip; split at hread]]
    · simp at hread
    · obtain ⟨rfl, -⟩ := Prod.mk.inj (Option.some.inj hread)
      exact ⟨w, _, hw, rfl, rfl, .inl ⟨rfl, rfl⟩⟩
    · simp at hread
    case isFalse hbytes _ =>
      obtain ⟨rfl, -⟩ := Prod.mk.inj (Option.some.inj hread)
      exact ⟨w, _, hw, rfl, rfl, .inr ⟨hbytes, rfl, rfl⟩⟩

end Steps

/-! ## The invariant -/

structure ReuseInv {P : Llhttp} (peer : RequestId → Answer) (σ : WiredClient P) : Prop where
  idle : ∀ key s, s ∈ (σ.client.group key).h1Idle → ∃ w, σ.wires s = some w ∧
    (peer w.request).bytes <+: w.received ∧ (peer w.request).final.Persistent
  /-- The request that uses a session is the last one that was sent on it. -/
  exchanging : ∀ q key s, σ.client.requests.get? q = some (.exchanging key s) → IsH1 σ.client s →
    ∃ w, σ.wires s = some w ∧ w.request = q
  /-- A response whose body is unread answers the last request on its session. -/
  response : ∀ o response s, σ.client.responses.get? o = some response → response.session = some s →
    IsH1 σ.client s → response.bodyConsumed = false →
    ∃ w, σ.wires s = some w ∧ response.head = some w.request
  /-- Unless all of a single response has been read, the parser is inside it. -/
  fed : ∀ s w, σ.wires s = some w → (peer w.request).interim = [] →
    (peer w.request).bytes <+: w.received ∨ HasRead (peer w.request).final.toks w.received w.session

section Invariant

variable {P : Llhttp} {peer : RequestId → Answer} {σ σ' : WiredClient P}

/-- A session on which no request begins keeps its request and what it has read. -/
private theorem ReuseInv.keeps {l : ClientLabel} {s : SessionId} {w : Wire P}
    (hwire : WireStep σ l σ' s) (hw : σ.wires s = some w) (hnot : ∀ q key, Begins q l →
      σ'.client.requests.get? q ≠ some (.exchanging key s)) :
    ∃ w', σ'.wires s = some w' ∧ Wire.Same w w' := by
  cases hwire with
  | kept _ hstays => exact hstays w hw
  | reset hbegins hphase => exact absurd hphase (hnot _ _ hbegins)

/-- A place that is not a request excludes one. -/
private theorem not_exchanging {σ : HttpClient} {s : SessionId} (hlease : LeaseInv σ)
    (hh1 : IsH1 σ s)
    {p : Place} (hat : At σ s p) (hp : ∀ q, p ≠ .request q) (q : RequestId) (key : SessionKey) :
    σ.requests.get? q ≠ some (.exchanging key s) := fun hphase =>
  hp q (hlease.unique s hh1 p (.request q) hat ⟨key, hphase⟩)

/-- The first `body_full` on an answer that permits it: the answer has been received. -/
private theorem received_of_released {c : CallId} {outcome : BodyOutcome} {dead : List SessionId}
    {o : ResponseId} {s₀ s : SessionId} {response : HttpResponse} (h : ReuseInv peer σ)
    (hrefs : RefsInv σ.client) (hstep : σ.stepClient (.bodyDone c outcome dead) = some σ')
    (hreuse : Reusable peer σ c dead) (hcall : σ.client.calls c = some (.running o s₀))
    (ho : σ.client.responses.get? o = some response) (hunread : response.bodyConsumed = false)
    (hsession : response.session = some s) (hhook : response.bodyConsumedHook ≠ none)
    (hok : outcome ≠ .failed) (hvalid : σ.client.isValid dead s = true) :
    ∃ w, σ.wires s = some w ∧ (peer w.request).bytes <+: w.received ∧
      (peer w.request).final.Persistent := by
  obtain ⟨hsame, hended, hpersistent⟩ := hreuse o s₀ response hcall ho hunread
  obtain rfl := Option.some.inj (hsame.symm.trans hsession)
  have halive : s₀ ∉ dead := by
    intro hmem
    unfold HttpClient.isValid at hvalid
    split at hvalid <;> simp [hmem] at hvalid
  obtain ⟨session, hs₀, hh1⟩ := hrefs.response o response s₀ ho hsession
  have hh1 : IsH1 σ.client s₀ := ⟨session, hs₀, hh1.mp hhook⟩
  obtain ⟨w, hw, hhead⟩ := h.response o response s₀ ho hsession hh1 hunread
  obtain ⟨hinterim, hpersistent⟩ := (hpersistent w.request hhead).resolve_right halive
  refine ⟨w, hw, ?_, hpersistent⟩
  -- the connection has not ended, so the end of the message was reported
  have hcomplete : w.session.messageComplete = true :=
    (bodyDone_ends hstep hok hcall hh1 hw).resolve_right fun hw' => halive (hended w hw hw')
  rcases h.fed s₀ w hw hinterim with hall | hread
  · exact hall
  · rw [Answer.bytes_eq hinterim, hread.whole (isLine_response _) hcomplete]
    exact List.prefix_rfl

/-- A step of the client keeps the invariant. -/
private theorem reuseInv_stepClient {l : ClientLabel}
    (h : (RefsInv σ.client ∧ LeaseInv σ.client) ∧ ReuseInv peer σ) (hfits : Fits peer σ (.client l))
    (hstep : σ.stepClient l = some σ') :
    (RefsInv σ'.client ∧ LeaseInv σ'.client) ∧ ReuseInv peer σ' := by
  obtain ⟨hleases, hinv⟩ := h
  have hrefs := hleases.1
  obtain ⟨hclient, hwires⟩ := wireStep_of_stepClient hstep
  obtain ⟨hrefs', hlease'⟩ := leases_step _ l σ'.client hleases hclient
  obtain ⟨σ₁, hacts, hreap⟩ := acts_of_step hclient
  have hbefore : ∀ s, IsH1 σ'.client s → σ.client.sessions.get? s ≠ none → IsH1 σ.client s :=
    fun s hh1 hexists => IsH1.before hrefs hacts hexists (hreap ▸ hh1)
  refine ⟨⟨hrefs', hlease'⟩, ?_, ?_, ?_, ?_⟩
  · -- idle sessions
    intro key s hs
    have hplace := not_exchanging hlease' (hrefs'.h1Idle key s hs) (p := .idle) ⟨key, hs⟩ (by simp)
    have hread : ∃ w, σ.wires s = some w ∧ (peer w.request).bytes <+: w.received ∧
        (peer w.request).final.Persistent := by
      rw [hreap] at hs
      rcases acts_idle hacts hs with hold | hnew
      · exact hinv.idle key s hold
      · obtain ⟨c, outcome, dead, o, s₀, response, rfl, hcall, ho, hunread, hsession, hhook, hok,
          hvalid⟩ := hnew
        exact received_of_released hinv hrefs hstep (hfits hok) hcall ho hunread hsession hhook hok
          hvalid
    obtain ⟨w, hw, hreceived, hpersistent⟩ := hread
    obtain ⟨w', hw', hsame⟩ := ReuseInv.keeps (hwires s) hw fun q key' _ => hplace q key'
    exact ⟨w', hw', by rw [hsame.request, hsame.received]; exact hreceived,
      hsame.request ▸ hpersistent⟩
  · -- sessions in use
    intro q key s hphase hh1
    cases hwires s with
    | reset hbegins hphase' hwire =>
      have hplaces := hlease'.unique s hh1 (.request q) (.request _) ⟨key, hphase⟩ ⟨_, hphase'⟩
      exact ⟨_, hwire, (Place.request.inj hplaces).symm⟩
    | kept _ hstays hbegins =>
      have hold : σ₁.requests.get? q = some (.exchanging key s) := by
        rw [hreap] at hphase; exact hphase
      rcases acts_exchanging hacts hold with hphase₀ | hnew
      · have hh1₀ := hbefore s hh1 (hrefs.request q key s hphase₀)
        obtain ⟨w, hw, hq⟩ := hinv.exchanging q key s hphase₀ hh1₀
        obtain ⟨w', hw', hsame⟩ := hstays w hw
        exact ⟨w', hw', hsame.request.trans hq⟩
      · exact absurd hh1 (hbegins q key hnew hphase)
  · -- responses
    intro o response s ho hs hh1 hunread
    have hplace :=
      not_exchanging hlease' hh1 (p := .response o) ⟨response, ho, hs, hunread⟩ (by simp)
    have hread : ∃ w, σ.wires s = some w ∧ response.head = some w.request := by
      rw [hreap] at ho
      rcases acts_response hacts ho hs with ⟨o₀, response₀, ho₀, hs₀, hhead, hunread₀⟩ | hnew
      · obtain ⟨session, hsession, -⟩ := hrefs.response o₀ response₀ s ho₀ hs₀
        have hh1₀ := hbefore s hh1 (by simp [hsession])
        obtain ⟨w, hw, hq⟩ := hinv.response o₀ response₀ s ho₀ hs₀ hh1₀ (hunread₀ hunread)
        exact ⟨w, hw, hhead ▸ hq⟩
      · obtain ⟨q, id, key, rfl, hphase, hhead⟩ := hnew
        have hh1₀ := hbefore s hh1 (hrefs.request q key s hphase)
        obtain ⟨w, hw, rfl⟩ := hinv.exchanging q key s hphase hh1₀
        exact ⟨w, hw, hhead⟩
    obtain ⟨w, hw, hhead⟩ := hread
    obtain ⟨w', hw', hsame⟩ := ReuseInv.keeps (hwires s) hw fun q key' _ => hplace q key'
    exact ⟨w', hw', hsame.request ▸ hhead⟩
  · -- what has been read
    intro s w' hw' hinterim
    cases hwires s with
    | reset _ _ hwire =>
      obtain rfl := Option.some.inj (hwire.symm.trans hw')
      exact .inr (hasRead_reset _)
    | kept hsame =>
      obtain ⟨w, hw, hsame⟩ := hsame w' hw'
      rw [hsame.request] at hinterim ⊢
      rcases hinv.fed s w hw hinterim with hall | hread
      · exact .inl (hsame.received ▸ hall)
      · exact .inr (hasRead_of_same hsame hread)

/-- A read keeps the invariant. -/
private theorem reuseInv_read {s : SessionId} {bytes : List UInt8} {errno : LlhttpErrno}
    (hparses : ∀ q, ParsesResponse P (peer q).final []) (h : ReuseInv peer σ)
    (hanswered : Answered peer σ s bytes) (hread : σ.read s bytes = some (σ', errno)) :
    ReuseInv peer σ' := by
  obtain ⟨w, w', hw, rfl, hrequest, hbytes⟩ := read_eq hread
  have hgrows : w.received <+: w'.received := by
    rcases hbytes with ⟨heq, -⟩ | ⟨-, heq, -⟩
    · rw [heq]
    · rw [heq]
      exact List.prefix_append _ _
  -- every wire keeps its request and loses nothing
  have hwires : ∀ s₁ w₁, σ.wires s₁ = some w₁ → ∃ w₂, (σ.setWire s (some w')).wires s₁ = some w₂ ∧
      w₂.request = w₁.request ∧ w₁.received <+: w₂.received := by
    intro s₁ w₁ hw₁
    by_cases hs : s₁ = s
    · subst hs
      obtain rfl := Option.some.inj (hw.symm.trans hw₁)
      exact ⟨w', setWire_self, hrequest, hgrows⟩
    · exact ⟨w₁, (setWire_of_ne hs).trans hw₁, rfl, List.prefix_rfl⟩
  refine ⟨fun key s₁ hs₁ => ?_, fun q key s₁ hphase hh1 => ?_,
    fun o response s₁ ho hs₁ hh1 hunread => ?_, fun s₁ w₁ hw₁ hinterim => ?_⟩
  · obtain ⟨w₁, hw₁, hreceived, hpersistent⟩ := h.idle key s₁ hs₁
    obtain ⟨w₂, hw₂, hq, hmore⟩ := hwires s₁ w₁ hw₁
    exact ⟨w₂, hw₂, hq ▸ hreceived.trans hmore, hq ▸ hpersistent⟩
  · obtain ⟨w₁, hw₁, rfl⟩ := h.exchanging q key s₁ hphase hh1
    obtain ⟨w₂, hw₂, hq, -⟩ := hwires s₁ w₁ hw₁
    exact ⟨w₂, hw₂, hq⟩
  · obtain ⟨w₁, hw₁, hhead⟩ := h.response o response s₁ ho hs₁ hh1 hunread
    obtain ⟨w₂, hw₂, hq, -⟩ := hwires s₁ w₁ hw₁
    exact ⟨w₂, hw₂, hq ▸ hhead⟩
  · by_cases hs : s₁ = s
    · subst hs
      obtain rfl := Option.some.inj (setWire_self.symm.trans hw₁)
      rw [hrequest] at hinterim ⊢
      rcases h.fed s₁ w hw hinterim with hall | hold
      · exact .inl (hall.trans hgrows)
      rcases hbytes with ⟨hreceived, hsession⟩ | ⟨hne, hreceived, hsession⟩
      · rw [hreceived, hsession]
        exact .inr hold
      · rw [hreceived, hsession]
        rcases hanswered w hw with hinside | hall
        · rw [Answer.bytes_eq hinterim] at hinside
          have hparses : Parses P (fun _ => True) .ok (peer w.request).final.toks :=
            fun cs hcs => by
            have := hparses w.request cs hcs
            rwa [withExtra_nil] at this
          exact .inr (hold.execute hparses hne hinside)
        · exact .inl hall
    · exact h.fed s₁ w₁ ((setWire_of_ne hs).symm.trans hw₁) hinterim

/-- Each step that fits the answers keeps `ReuseInv`. -/
private theorem reuseInv_step (hparses : ∀ q, ParsesResponse P (peer q).final [])
    (σ : WiredClient P)
    (l : WireLabel) (σ' : WiredClient P)
    (h : (RefsInv σ.client ∧ LeaseInv σ.client) ∧ ReuseInv peer σ)
    (hfits : Fits peer σ l) (hstep : σ.step l = some σ') :
    (RefsInv σ'.client ∧ LeaseInv σ'.client) ∧ ReuseInv peer σ' := by
  -- behind a read the client is as it was
  have hafter : ∀ {s bytes σ₁ errno}, Answered peer σ s bytes → σ.read s bytes = some (σ₁, errno) →
      (RefsInv σ₁.client ∧ LeaseInv σ₁.client) ∧ ReuseInv peer σ₁ := by
    intro s bytes σ₁ errno hanswered hread
    refine ⟨?_, reuseInv_read hparses h.2 hanswered hread⟩
    obtain ⟨w, w', -, rfl, -⟩ := read_eq hread
    exact h.1
  cases l with
  | client l => exact reuseInv_stepClient h hfits hstep
  | headRead q bytes =>
    simp only [WiredClient.step] at hstep
    split at hstep
    case h_2 => simp at hstep
    case h_1 key s hphase =>
      have hanswered := hfits key s hphase
      split at hstep
      case h_1 σ₁ hread => exact Option.some.inj hstep ▸ hafter hanswered hread
      case h_2 σ₁ name hread =>
        exact reuseInv_stepClient (l := .requestFailed q) (hafter hanswered hread) trivial hstep
      case h_3 => simp at hstep
  | bodyRead c bytes =>
    simp only [WiredClient.step] at hstep
    split at hstep
    case h_2 => simp at hstep
    case h_1 o s hcall =>
      have hanswered := hfits o s hcall
      split at hstep
      case h_1 σ₁ hread => exact Option.some.inj hstep ▸ hafter hanswered hread
      case h_2 σ₁ name hread =>
        exact reuseInv_stepClient (l := .bodyDone c .failed []) (hafter hanswered hread)
          (fun hok => absurd rfl hok) hstep
      case h_3 => simp at hstep

private theorem reuseInv_initial : ReuseInv peer (WiredClient.initial P) where
  idle key s hs := by simp [WiredClient.initial] at hs
  exchanging q key s hphase := by simp [WiredClient.initial, HttpClient.initial] at hphase
  response o response s ho := by simp [WiredClient.initial, HttpClient.initial] at ho
  fed s w hw := by simp [WiredClient.initial] at hw

end Invariant

private theorem sampleOk_persistent : sampleOk.Persistent := ⟨by decide, by simp [sampleOk]⟩

/-- `sampleOk` and nothing in front of it. -/
def okAnswer : Answer := ⟨[], sampleOk, by simp, by decide⟩

/-- One exchange, with what is read in it. -/
def oneExchange (bytes : List UInt8) : List WireLabel :=
  [.client (.request 0 plainKey [] [] (some 5)), .client (.connected 0),
    .client (.established 0 false),
    .headRead 0 bytes, .client (.responded 0 none), .client (.bodyFull 0 0),
    .client (.bodyDone 0 .complete [])]

/-- The same response with `Connection: close`. -/
def closingOk : Response :=
  { sampleOk with
    headers := [lengthLine, closeLine]
    framing_announced := by
      rw [if_neg (by decide)]
      exact ⟨by decide, by simp [sampleOk]⟩ }

/-- `100 Continue` in front of the response. -/
def continuedAnswer : Answer := ⟨[sampleContinue], sampleOk, by decide, by decide⟩

end Ppnt.Spec
