import Ppnt.Native.HttpExchange
import Ppnt.Spec.ClientSockets
import Ppnt.Spec.Http2Data
import Ppnt.Spec.PoolLease

/-!
# Bodies of different users of a pooled connection

A response keeps the pointer to its session when the session has gone back to the pool, and
`body_full` reads on that session before it looks at `body_consumed_`.  This file says which calls
are safe (`Separate`), and proves that then the bytes of a body belong to the message whose head the
response carries and that the calls on one response do not touch what another one will read.
-/

namespace Ppnt.Spec

open Ppnt.Native

/-! ## Contents without the messages -/

/-- The contents are those of an HTTP/1 session. -/
structure Matches {P : Llhttp} (contents : H1Contents) (session : Http1Session P) : Prop where
  bodyBuffer : contents.bodyBuffer.map Prod.snd = session.bodyBuffer
  headersComplete : contents.headersComplete = session.headersComplete
  messageComplete : contents.messageComplete = session.messageComplete

private theorem commitHeader_rest {P : Llhttp} (session : Http1Session P) :
    session.commitHeader.bodyBuffer = session.bodyBuffer ∧
      session.commitHeader.headersComplete = session.headersComplete ∧
      session.commitHeader.messageComplete = session.messageComplete := by
  unfold H1Session.commitHeader
  split <;> simp

/-- A callback does the same with and without the messages. -/
theorem matches_callback {P : Llhttp} {contents : H1Contents} {session : Http1Session P}
    (h : Matches contents session) (m : MessageId) (call : Callback) :
    Matches (contents.callback (m, call)) (session.callback clientStart call) := by
  obtain ⟨hbody, hheaders, hmessage⟩ := commitHeader_rest session
  obtain ⟨h₁, h₂, h₃⟩ := h
  cases call with
  | span e data =>
    cases e with
    | onUrl => exact ⟨h₁, h₂, h₃⟩
    | onStatus code => exact ⟨h₁, h₂, h₃⟩
    | onHeaderField =>
      simp only [H1Contents.callback, H1Session.callback, H1Session.onHeaderField]
      split
      · exact ⟨h₁.trans hbody.symm, h₂.trans hheaders.symm, h₃.trans hmessage.symm⟩
      · exact ⟨h₁, h₂, h₃⟩
    | onHeaderValue => exact ⟨h₁, h₂, h₃⟩
    | onBody =>
      refine ⟨?_, h₂, h₃⟩
      simp [H1Contents.callback, H1Session.callback, H1Session.onBody, ← h₁, Function.comp_def]
  | mark m =>
    cases m with
    | onHeadersComplete =>
      simp only [H1Contents.callback, H1Session.callback, H1Session.onHeadersComplete]
      split
      · exact ⟨h₁.trans hbody.symm, rfl, h₃.trans hmessage.symm⟩
      · exact ⟨h₁, rfl, h₃⟩
    | onMessageComplete => exact ⟨h₁, h₂, rfl⟩

/-! ## Safe use -/

/-- No call of `body_full` runs on the object. -/
def NotCalled (σ : HttpExchange) (o : ResponseId) : Prop :=
  ∀ c s, σ.client.calls c ≠ some (.running o s)

/-- Uses that keep the users apart: `body_full` is called once on a response, which stays where it
    is meanwhile, and the peer sends nothing but the message that answers the request. -/
def Separate (message : RequestId → MessageId) (σ : HttpExchange) : ExchangeLabel → Prop
  | .headRead q calls => ∀ call ∈ calls, call.1 = message q
  | .bodyRead c calls => ∀ q, σ.callers c = some q → ∀ call ∈ calls, call.1 = message q
  | .client (.bodyFull _ o) => NotCalled σ o ∧
      ∀ response, σ.client.responses.get? o = some response → response.bodyConsumed = false
  | .client (.move o) => NotCalled σ o
  | .client (.drop o) => NotCalled σ o
  | .client (.assign target source) => NotCalled σ target ∧ NotCalled σ source
  | .client _ => True

/-- Every piece of the contents comes from one message. -/
structure Own (m : MessageId) (contents : H1Contents) : Prop where
  head : ∀ m' ∈ contents.head, m' = m
  bodyBuffer : ∀ byte ∈ contents.bodyBuffer, byte.1 = m

variable {m : MessageId} {calls : List (MessageId × Callback)} {s : SessionId} {q : RequestId}
  {c : CallId}

/-- A body that callbacks of one message are added to. -/
private theorem bodyBuffer_execute {contents : H1Contents}
    (hbody : ∀ byte ∈ contents.bodyBuffer, byte.1 = m) (hcalls : ∀ call ∈ calls, call.1 = m) :
    ∀ byte ∈ (contents.execute calls).bodyBuffer, byte.1 = m := by
  induction calls generalizing contents with
  | nil => exact hbody
  | cons call calls ih =>
    refine ih ?_ fun call' hmem => hcalls call' (List.mem_cons_of_mem call hmem)
    unfold H1Contents.callback
    split
    case h_1 data _ =>
      intro byte hbyte
      rcases List.mem_append.mp hbyte with hold | hnew
      · exact hbody byte hold
      · obtain ⟨b, -, rfl⟩ := List.mem_map.mp hnew
        exact hcalls call List.mem_cons_self
    all_goals exact hbody

private theorem head_execute {contents : H1Contents} (hhead : ∀ m' ∈ contents.head, m' = m)
    (hcalls : ∀ call ∈ calls, call.1 = m) :
    ∀ m' ∈ (contents.execute calls).head, m' = m := by
  induction calls generalizing contents with
  | nil => exact hhead
  | cons call calls ih =>
    refine ih ?_ fun call' hmem => hcalls call' (List.mem_cons_of_mem call hmem)
    unfold H1Contents.callback
    split
    case h_2 =>
      intro m' hm'
      rcases List.mem_append.mp hm' with hold | hnew
      · exact hhead m' hold
      · exact (List.mem_singleton.mp hnew).trans (hcalls call List.mem_cons_self)
    all_goals exact hhead

structure IsolationInv (message : RequestId → MessageId) (σ : HttpExchange) : Prop where
  request : ∀ q key s, σ.client.requests.get? q = some (.exchanging key s) → IsH1 σ.client s →
    Own (message q) (σ.contents s)
  response : ∀ o response s, σ.client.responses.get? o = some response →
    response.session = some s → ∃ q, response.head = some q ∧
      (IsH1 σ.client s → response.bodyConsumed = false →
        ∀ byte ∈ (σ.contents s).bodyBuffer, byte.1 = message q)
  /-- A call runs on an unread response. -/
  call : ∀ c o s, σ.client.calls c = some (.running o s) → ∃ response,
    σ.client.responses.get? o = some response ∧ response.session = some s ∧
      response.bodyConsumed = false ∧ response.head = σ.callers c
  callUnique : ∀ c c' o s s', σ.client.calls c = some (.running o s) →
    σ.client.calls c' = some (.running o s') → c = c'
  heads : ∀ q, ∀ m ∈ σ.heads q, m = message q
  fresh : ∀ c, σ.client.calls c = none → σ.results c = none
  results : ∀ c bytes, σ.results c = some bytes →
    ∃ q, σ.callers c = some q ∧ ∀ byte ∈ bytes, byte.1 = message q

/-! ## Steps of the client -/

private theorem isH1At_iff {σ : HttpExchange} :
    σ.isH1At s = true ↔ IsH1 σ.client s := by
  simp [HttpExchange.isH1At, IsH1]

section Client

variable {σ σ' : HttpExchange} {l : ClientLabel}

/-- What a step of the client does to the rest of the state. -/
private inductive Exchanges (σ : HttpExchange) : ClientLabel → HttpExchange → Prop
  | plain {l : ClientLabel} (client : HttpClient) (hfull : ∀ c o, l ≠ .bodyFull c o)
      (hbegins : ∀ q key s, Begins q l → client.requests.get? q = some (.exchanging key s) →
        ¬IsH1 client s) :
      Exchanges σ l { σ with client := client }
  | reset {l : ClientLabel} {q : RequestId} {key : SessionKey} {s : SessionId}
      (client : HttpClient) (hbegins : Begins q l)
      (hphase : client.requests.get? q = some (.exchanging key s)) :
      Exchanges σ l ({ σ with client := client }.setContents s {})
  | head {q : RequestId} {id : Option Nat} {key : SessionKey} {s : SessionId} (client : HttpClient)
      (hphase : σ.client.requests.get? q = some (.exchanging key s)) (hh1 : IsH1 σ.client s) :
      Exchanges σ (.responded q id)
        { σ.setContents s { σ.contents s with head := [] } with
          client := client
          heads := Function.update σ.heads q (σ.contents s).head }
  | called {c : CallId} {o : ResponseId} (client : HttpClient) :
      Exchanges σ (.bodyFull c o)
        { σ with
          client := client
          callers := Function.update σ.callers c ((σ.client.responses.get? o).bind (·.head)) }
  | body {c : CallId} {outcome : BodyOutcome} {dead : List SessionId} {o : ResponseId}
      {s : SessionId} (client : HttpClient) (hcall : σ.client.calls c = some (.running o s))
      (hh1 : IsH1 σ.client s) :
      Exchanges σ (.bodyDone c outcome dead)
        { σ.setContents s { σ.contents s with bodyBuffer := [] } with
          client := client
          results := Function.update σ.results c (some (σ.contents s).bodyBuffer) }

private theorem exchanges_resetState (client : HttpClient) (hbegins : ∀ q', Begins q' l ↔ q' = q)
    (hfull : ∀ c o, l ≠ .bodyFull c o) :
    Exchanges σ l ({ σ with client := client }.resetState q) := by
  have hplain : (∀ key s, client.requests.get? q = some (.exchanging key s) → ¬IsH1 client s) →
      Exchanges σ l { σ with client := client } := fun hnot =>
    .plain client hfull fun q' key s hq' hphase => hnot key s ((hbegins q').mp hq' ▸ hphase)
  unfold HttpExchange.resetState
  split
  case h_1 key s hphase =>
    split
    case isTrue => exact .reset client ((hbegins q).mpr rfl) hphase
    case isFalse hnot =>
      refine hplain fun key' s' hphase' hh1 => hnot (isH1At_iff.mpr ?_)
      obtain ⟨-, rfl⟩ := ExchangePhase.exchanging.inj (Option.some.inj (hphase'.symm.trans hphase))
      exact hh1
  case h_2 hnone => exact hplain fun key s hphase => absurd hphase (hnone key s)

/-- A step of the client, and what it does to the exchanges. -/
private theorem exchanges_of_stepClient (hstep : σ.stepClient l = some σ') :
    σ.client.step l = some σ'.client ∧ Exchanges σ l σ' := by
  cases l with
  | request q | established q =>
    obtain ⟨client, hclient, rfl⟩ := Option.map_eq_some_iff.mp hstep
    have hsame : ({ σ with client := client }.resetState q).client = client := by
      unfold HttpExchange.resetState
      split <;> [split; skip] <;> rfl
    refine ⟨?_, exchanges_resetState client (fun _ => eq_comm) (by simp)⟩
    rw [hsame, hclient]
  | responded q id =>
    obtain ⟨client, hclient, rfl⟩ := Option.map_eq_some_iff.mp hstep
    refine ⟨hclient, ?_⟩
    unfold HttpExchange.takeHead
    split <;> [split; skip]
    case h_1.isTrue key s hphase hh1 => exact .head client hphase (isH1At_iff.mp hh1)
    all_goals exact .plain client (by simp) (by simp [Begins])
  | bodyFull c o =>
    obtain ⟨client, hclient, rfl⟩ := Option.map_eq_some_iff.mp hstep
    exact ⟨hclient, .called client⟩
  | bodyDone c outcome dead =>
    obtain ⟨-, hstep⟩ := Option.ite_none_right_eq_some.mp hstep
    obtain ⟨client, hclient, rfl⟩ := Option.map_eq_some_iff.mp hstep
    refine ⟨hclient, ?_⟩
    unfold HttpExchange.takeBody
    split <;> [split; skip]
    -- a call that returns the body has taken the buffer
    case h_1.isTrue o s hcall hok =>
      exact .body client hcall (isH1At_iff.mp (Bool.and_eq_true_iff.mp hok).1)
    all_goals exact .plain client (by simp) (by simp [Begins])
  | _ =>
    obtain ⟨client, hclient, rfl⟩ := Option.map_eq_some_iff.mp hstep
    exact ⟨hclient, .plain client (by simp) (by simp [Begins])⟩

private theorem step_headRead (hstep : σ.step (.headRead q calls) = some σ') :
    ∃ key s, σ.client.requests.get? q = some (.exchanging key s) ∧
      σ' = σ.setContents s ((σ.contents s).execute calls) := by
  simp only [HttpExchange.step] at hstep
  split at hstep
  case h_2 => simp at hstep
  case h_1 key s hphase =>
    obtain ⟨-, hstep⟩ := Option.ite_none_right_eq_some.mp hstep
    exact ⟨key, s, hphase, (Option.some.inj hstep).symm⟩

private theorem step_bodyRead (hstep : σ.step (.bodyRead c calls) = some σ') :
    ∃ o s, σ.client.calls c = some (.running o s) ∧ IsH1 σ.client s ∧
      σ' = σ.setContents s ((σ.contents s).execute calls) := by
  simp only [HttpExchange.step] at hstep
  split at hstep
  case h_2 => simp at hstep
  case h_1 o s hcall =>
    obtain ⟨hok, hstep⟩ := Option.ite_none_right_eq_some.mp hstep
    exact ⟨o, s, hcall, isH1At_iff.mp (Bool.and_eq_true_iff.mp hok).1, (Option.some.inj hstep).symm⟩

/-- A step is one of the client or leaves the client alone. -/
private theorem step_client {l : ExchangeLabel} (hstep : σ.step l = some σ') :
    σ'.client = σ.client ∨ ∃ l, σ.client.step l = some σ'.client := by
  cases l with
  | client l => exact .inr ⟨l, (exchanges_of_stepClient hstep).1⟩
  | headRead q calls =>
    obtain ⟨key, s, -, rfl⟩ := step_headRead hstep
    exact .inl rfl
  | bodyRead c calls =>
    obtain ⟨o, s, -, -, rfl⟩ := step_bodyRead hstep
    exact .inl rfl

/-- A step of the client only takes away from the contents of a session. -/
private theorem Exchanges.contents (h : Exchanges σ l σ') (s : SessionId) :
    ((σ'.contents s).head = (σ.contents s).head ∨ (σ'.contents s).head = []) ∧
      ((σ'.contents s).bodyBuffer = (σ.contents s).bodyBuffer ∨
        (σ'.contents s).bodyBuffer = []) := by
  cases h with
  | plain | called => exact ⟨.inl rfl, .inl rfl⟩
  | reset | head | body =>
    simp only [HttpExchange.setContents, Function.update_apply]
    split <;> simp_all

private theorem Own.exchanges (h : Own m (σ.contents s)) (hstep : Exchanges σ l σ') :
    Own m (σ'.contents s) := by
  obtain ⟨hhead, hbody⟩ := hstep.contents s
  constructor
  · intro m' hm'
    rcases hhead with heq | heq
    · exact h.head m' (heq ▸ hm')
    · simp [heq] at hm'
  · intro byte hbyte
    rcases hbody with heq | heq
    · exact h.bodyBuffer byte (heq ▸ hbyte)
    · simp [heq] at hbyte

/-- A request that gets a session begins with `reset_state`. -/
private theorem Exchanges.contents_of_begins {key : SessionKey} (h : Exchanges σ l σ')
    (hl : Begins q l) (hq : σ'.client.requests.get? q = some (.exchanging key s))
    (hh1 : IsH1 σ'.client s) :
    σ'.contents s = {} := by
  cases h with
  | plain client _ hbegins => exact absurd hh1 (hbegins q key s hl hq)
  | @reset _ q' _ s' client hbegins hphase =>
    obtain rfl := hl.unique hbegins
    obtain ⟨-, rfl⟩ := ExchangePhase.exchanging.inj (Option.some.inj (hq.symm.trans hphase))
    simp [HttpExchange.setContents]
  | head | called | body => exact hl.elim

/-- What a step of the client records: the messages of a head, the response of a call, and the body
    that it returns. -/
private theorem Exchanges.heads (h : Exchanges σ l σ') (q : RequestId) :
    σ'.heads q = σ.heads q ∨ ∃ key s, σ.client.requests.get? q = some (.exchanging key s) ∧
      IsH1 σ.client s ∧ σ'.heads q = (σ.contents s).head := by
  cases h with
  | @head q' _ key s client hphase hh1 =>
    by_cases hne : q = q'
    · subst hne
      exact .inr ⟨key, s, hphase, hh1, by simp⟩
    · exact .inl (by simp [hne])
  | _ => exact .inl rfl

private theorem Exchanges.callers (h : Exchanges σ l σ') (hl : ∀ o, l ≠ .bodyFull c o) :
    σ'.callers c = σ.callers c := by
  cases h with
  | @called c' o client =>
    have hne : c ≠ c' := fun heq => hl o (by rw [heq])
    simp [hne]
  | _ => rfl

private theorem Exchanges.callers_bodyFull {o : ResponseId} (h : Exchanges σ (.bodyFull c o) σ') :
    σ'.callers c = (σ.client.responses.get? o).bind (·.head) := by
  cases h with
  | plain _ hfull => exact absurd rfl (hfull c o)
  | reset _ hbegins => exact hbegins.elim
  | called => simp

private theorem Exchanges.results (h : Exchanges σ l σ') (c : CallId) :
    σ'.results c = σ.results c ∨ ∃ outcome dead o s, l = .bodyDone c outcome dead ∧
      σ.client.calls c = some (.running o s) ∧ IsH1 σ.client s ∧
      σ'.results c = some (σ.contents s).bodyBuffer := by
  cases h with
  | @body c' outcome dead o s client hcall hh1 =>
    by_cases hne : c = c'
    · subst hne
      exact .inr ⟨outcome, dead, o, s, rfl, hcall, hh1, by simp⟩
    · exact .inl (by simp [hne])
  | _ => exact .inl rfl

end Client

section Invariant

variable {message : RequestId → MessageId} {σ σ' : HttpExchange} {l : ClientLabel}

/-- A call that goes on has its response where it was. -/
private theorem call_untouched (h : IsolationInv message σ)
    (hseparate : Separate message σ (.client l)) {o : ResponseId}
    (hcall : σ.client.calls c = some (.running o s))
    (hdone : ∀ outcome dead, l ≠ .bodyDone c outcome dead) : ¬Touches σ.client o l := by
  intro htouches
  cases l with
  | move o' | drop o' =>
    obtain rfl : o' = o := htouches
    exact hseparate c s hcall
  | assign target source =>
    rcases htouches with rfl | rfl
    · exact hseparate.1 c s hcall
    · exact hseparate.2 c s hcall
  | bodyDone c' outcome dead =>
    obtain ⟨s', hcall'⟩ := htouches
    obtain rfl := h.callUnique c c' o s s' hcall hcall'
    exact hdone outcome dead rfl
  | _ => exact htouches

/-- The calls that run behind a step of the client. -/
private theorem running_before {σ₁ : HttpClient} (hacts : Acts σ.client l σ₁) {o : ResponseId}
    (hcall : σ₁.calls c = some (.running o s)) :
    (σ.client.calls c = some (.running o s) ∧ (∀ o', l ≠ .bodyFull c o') ∧
        ∀ outcome dead, l ≠ .bodyDone c outcome dead) ∨
      ∃ response, l = .bodyFull c o ∧ σ.client.calls c = none ∧
        σ.client.responses.get? o = some response ∧ response.session = some s := by
  rcases acts_calls hacts c with hsame | ⟨o₀, response, s₀, rfl, hnone, ho, hs, hnew⟩ |
    ⟨outcome, dead, rfl, hfinished⟩
  · have hold : σ.client.calls c = some (.running o s) := hsame ▸ hcall
    refine .inl ⟨hold, ?_, ?_⟩
    · rintro o' rfl
      cases hacts with
      | bodyFull hfresh => simp [hfresh] at hold
    · rintro outcome dead rfl
      cases hacts with
      | bodyDone => simp at hcall
  · obtain ⟨rfl, rfl⟩ := CallPhase.running.inj (Option.some.inj (hnew.symm.trans hcall))
    exact .inr ⟨response, rfl, hnone, ho, hs⟩
  · simp [hfinished] at hcall

/-- A step of the client keeps the messages apart. -/
private theorem isolationInv_client (hrefs : RefsInv σ.client) (h : IsolationInv message σ)
    (hseparate : Separate message σ (.client l)) (hstep : σ.stepClient l = some σ') :
    IsolationInv message σ' := by
  obtain ⟨hclient, hex⟩ := exchanges_of_stepClient hstep
  obtain ⟨σ₁, hacts, hreap⟩ := acts_of_step hclient
  have hrequests : σ'.client.requests = σ₁.requests := by rw [hreap]; rfl
  have hresponses : σ'.client.responses = σ₁.responses := by rw [hreap]; rfl
  have hcalls : σ'.client.calls = σ₁.calls := by rw [hreap]; rfl
  have hbefore : ∀ s, σ.client.sessions.get? s ≠ none → IsH1 σ'.client s → IsH1 σ.client s :=
    fun s hs hh1 => (hreap ▸ hh1).before hrefs hacts hs
  have hcaller : ∀ c, (∀ o, l ≠ .bodyFull c o) → σ'.callers c = σ.callers c :=
    fun _ => hex.callers
  constructor
  case request =>
    intro q key s hq hh1
    rcases acts_exchanging hacts (hrequests ▸ hq) with hold | hnew
    · exact (h.request q key s hold (hbefore s (hrefs.request q key s hold) hh1)).exchanges hex
    · rw [hex.contents_of_begins hnew hq hh1]
      exact ⟨by simp, by simp⟩
  -- the bytes stay, or the buffer is emptied
  case response =>
    intro o response s ho hs
    have hkept : ∀ m, (∀ byte ∈ (σ.contents s).bodyBuffer, byte.1 = m) →
        ∀ byte ∈ (σ'.contents s).bodyBuffer, byte.1 = m := by
      intro m hall byte hbyte
      rcases (hex.contents s).2 with heq | heq
      · exact hall byte (heq ▸ hbyte)
      · simp [heq] at hbyte
    rcases acts_response hacts (hresponses ▸ ho) hs with
      ⟨o₀, response₀, ho₀, hs₀, hhead, hunread⟩ | ⟨q, id, key, rfl, hphase, hhead⟩
    · obtain ⟨q, hq, hbytes⟩ := h.response o₀ response₀ s ho₀ hs₀
      obtain ⟨session, hsession, -⟩ := hrefs.response o₀ response₀ s ho₀ hs₀
      exact ⟨q, hhead ▸ hq, fun hh1 hconsumed =>
        hkept _ (hbytes (hbefore s (by simp [hsession]) hh1) (hunread hconsumed))⟩
    · exact ⟨q, hhead, fun hh1 _ =>
        hkept _ (h.request q key s hphase
          (hbefore s (hrefs.request q key s hphase) hh1)).bodyBuffer⟩
  case call =>
    intro c o s hcall
    rcases running_before hacts (hcalls ▸ hcall) with ⟨hold, hnotFull, hnotDone⟩ |
      ⟨response, rfl, -, ho, hs⟩
    · obtain ⟨response, ho, hs, hunread, hhead⟩ := h.call c o s hold
      have ho' := acts_untouched hrefs hacts ho (call_untouched h hseparate hold hnotDone)
      exact ⟨response, hresponses ▸ ho', hs, hunread, hhead.trans (hcaller c hnotFull).symm⟩
    · have ho' := acts_untouched hrefs hacts ho (fun htouches => htouches)
      refine ⟨response, hresponses ▸ ho', hs, hseparate.2 response ho, ?_⟩
      rw [hex.callers_bodyFull, ho]
      rfl
  -- a second call for a response is what `Separate` excludes
  case callUnique =>
    intro c c' o s s' hcall hcall'
    rcases running_before hacts (hcalls ▸ hcall) with ⟨hold, hnotFull, -⟩ | ⟨-, rfl, -⟩
    · rcases running_before hacts (hcalls ▸ hcall') with ⟨hold', -⟩ | ⟨-, rfl, -⟩
      · exact h.callUnique c c' o s s' hold hold'
      · exact absurd hold (hseparate.1 c s)
    · rcases running_before hacts (hcalls ▸ hcall') with ⟨hold', -⟩ | ⟨-, hl, -⟩
      · exact absurd hold' (hseparate.1 c' s')
      · exact (ClientLabel.bodyFull.inj hl).1
  case heads =>
    intro q m hm
    rcases hex.heads q with hsame | ⟨key, s, hphase, hh1, hnew⟩
    · exact h.heads q m (hsame ▸ hm)
    · exact (h.request q key s hphase hh1).head m (hnew ▸ hm)
  case fresh =>
    intro c hnone
    have hold : σ.client.calls c = none := by
      rw [hcalls] at hnone
      rcases acts_calls hacts c with hsame | ⟨o, response, s, -, -, -, -, hnew⟩ | ⟨-, -, -, hnew⟩
      · exact hsame ▸ hnone
      · simp [hnew] at hnone
      · simp [hnew] at hnone
    rcases hex.results c with hsame | ⟨outcome, dead, o, s, -, hcall, -⟩
    · rw [hsame, h.fresh c hold]
    · simp [hold] at hcall
  case results =>
    intro c bytes hbytes
    rcases hex.results c with hsame | ⟨outcome, dead, o, s, rfl, hcall, hh1, hnew⟩
    · obtain ⟨q, hq, hown⟩ := h.results c bytes (hsame ▸ hbytes)
      refine ⟨q, ?_, hown⟩
      rw [hcaller c, hq]
      rintro o rfl
      cases hacts with
      | bodyFull hfresh => simp [hsame, h.fresh c hfresh] at hbytes
    · obtain rfl := Option.some.inj (hnew.symm.trans hbytes)
      -- the call returns what its response has collected
      obtain ⟨response, ho, hs, hunread, hhead⟩ := h.call c o s hcall
      obtain ⟨q, hq, hown⟩ := h.response o response s ho hs
      exact ⟨q, by rw [hcaller c (by simp), ← hhead, hq], hown hh1 hunread⟩

/-! ## Reads -/

/-- The contents of a session with one user change. -/
private theorem isolationInv_setContents (h : IsolationInv message σ) {contents : H1Contents}
    (hrequest : ∀ q key, σ.client.requests.get? q = some (.exchanging key s) → IsH1 σ.client s →
      Own (message q) contents)
    (hresponse : ∀ o response q, σ.client.responses.get? o = some response →
      response.session = some s → response.head = some q → IsH1 σ.client s →
      response.bodyConsumed = false → ∀ byte ∈ contents.bodyBuffer, byte.1 = message q) :
    IsolationInv message (σ.setContents s contents) where
  request q key s' hq hh1 := by
    by_cases hne : s' = s
    · subst hne
      simpa [HttpExchange.setContents] using hrequest q key hq hh1
    · simpa [HttpExchange.setContents, hne] using h.request q key s' hq hh1
  response o response s' ho hs := by
    obtain ⟨q, hq, hbytes⟩ := h.response o response s' ho hs
    refine ⟨q, hq, fun hh1 hunread => ?_⟩
    by_cases hne : s' = s
    · subst hne
      simpa [HttpExchange.setContents] using hresponse o response q ho hs hq hh1 hunread
    · simpa [HttpExchange.setContents, hne] using hbytes hh1 hunread
  call := h.call
  callUnique := h.callUnique
  heads := h.heads
  fresh := h.fresh
  results := h.results

private theorem isolationInv_headRead (hlease : LeaseInv σ.client) (h : IsolationInv message σ)
    {key : SessionKey} (hphase : σ.client.requests.get? q = some (.exchanging key s))
    (hown : ∀ call ∈ calls, call.1 = message q) :
    IsolationInv message (σ.setContents s ((σ.contents s).execute calls)) := by
  refine isolationInv_setContents h (fun q' key' hq' hh1 => ?_)
    fun o response q' ho hs _ hh1 hunread => ?_
  · -- the request is the only user of its session
    have hplace := hlease.unique s hh1 (.request q') (.request q) ⟨key', hq'⟩ ⟨key, hphase⟩
    obtain rfl := Place.request.inj hplace
    have hold := h.request q' key s hphase hh1
    exact ⟨head_execute hold.head hown, bodyBuffer_execute hold.bodyBuffer hown⟩
  · have hplace := hlease.unique s hh1 (.response o) (.request q) ⟨response, ho, hs, hunread⟩
      ⟨key, hphase⟩
    simp at hplace

private theorem isolationInv_bodyRead (hlease : LeaseInv σ.client) (h : IsolationInv message σ)
    {o : ResponseId} (hcall : σ.client.calls c = some (.running o s))
    (hown : ∀ q, σ.callers c = some q → ∀ call ∈ calls, call.1 = message q) :
    IsolationInv message (σ.setContents s ((σ.contents s).execute calls)) := by
  obtain ⟨response, ho, hs, hunread, hhead⟩ := h.call c o s hcall
  have hat : At σ.client s (.response o) := ⟨response, ho, hs, hunread⟩
  refine isolationInv_setContents h (fun q' key' hq' hh1 => ?_)
    fun o' response' q' ho' hs' hq' hh1 hunread' => ?_
  · have hplace := hlease.unique s hh1 (.request q') (.response o) ⟨key', hq'⟩ hat
    simp at hplace
  · have hplace := hlease.unique s hh1 (.response o') (.response o) ⟨response', ho', hs', hunread'⟩
      hat
    obtain rfl := Place.response.inj hplace
    obtain rfl := Option.some.inj (ho'.symm.trans ho)
    obtain ⟨q, hq, hbytes⟩ := h.response o' response' s ho hs
    obtain rfl := Option.some.inj (hq'.symm.trans hq)
    exact bodyBuffer_execute (hbytes hh1 hunread) (hown q' (hhead.symm.trans hq))

private theorem isolationInv_step (hrefs : RefsInv σ.client) (hlease : LeaseInv σ.client)
    (h : IsolationInv message σ) {l : ExchangeLabel} (hseparate : Separate message σ l)
    (hstep : σ.step l = some σ') : IsolationInv message σ' := by
  cases l with
  | client l => exact isolationInv_client hrefs h hseparate hstep
  | headRead q calls =>
    obtain ⟨key, s, hphase, rfl⟩ := step_headRead hstep
    exact isolationInv_headRead hlease h hphase hseparate
  | bodyRead c calls =>
    obtain ⟨o, s, hcall, -, rfl⟩ := step_bodyRead hstep
    exact isolationInv_bodyRead hlease h hcall hseparate

end Invariant

/-! ## What a call leaves alone -/

/-- The label is a step of a `body_full` on the object. -/
def BodyStep (σ : HttpExchange) (o : ResponseId) : ExchangeLabel → Prop
  | .client (.bodyFull _ o') => o' = o
  | .client (.bodyDone c _ _) => ∃ s, σ.client.calls c = some (.running o s)
  | .bodyRead c _ => ∃ s, σ.client.calls c = some (.running o s)
  | _ => False

/-- What a `body_full` on the response in an object depends on is the same: the response, its
    session, the contents of the session and the state of its descriptor. -/
structure SameFor (σ σ' : HttpExchange) (o : ResponseId) (s : SessionId) : Prop where
  response : σ'.client.responses.get? o = σ.client.responses.get? o
  contents : σ'.contents s = σ.contents s
  session : σ'.client.sessions.get? s = σ.client.sessions.get? s
  socket : ∀ session, σ.client.sessions.get? s = some session →
    σ'.client.sockets session.socket = σ.client.sockets session.socket

/-- The destructors of sessions leave alone what a response holds. -/
private theorem reap_held {σ : HttpClient} (hapart : SocketsApart σ) {o : ResponseId}
    {response : HttpResponse} (ho : σ.responses.get? o = some response)
    (hs : response.session = some s) :
    σ.reap.sessions.get? s = σ.sessions.get? s ∧
      ∀ session, σ.sessions.get? s = some session →
        σ.reap.sockets session.socket = σ.sockets session.socket := by
  have howned : σ.Owned s := .inr (.inr ⟨o, response, ho, hs⟩)
  refine ⟨by rw [reap_sessions, if_pos howned], fun session hsession => ?_⟩
  refine if_neg ?_
  rintro ⟨s', -, session', hs', hunowned, -, hsocket⟩
  obtain rfl := hapart.session s' s session' session hs' hsession hsocket
  exact hunowned howned

section Frame

variable {message : RequestId → MessageId} {σ σ' : HttpExchange} {o o' : ResponseId}
  {response' : HttpResponse} {s' : SessionId}

/-- The session of a running call is not that of another unread response, if it is an HTTP/1
    session. -/
private theorem running_apart (hlease : LeaseInv σ.client) (h : IsolationInv message σ)
    (hcall : σ.client.calls c = some (.running o s)) (hh1 : IsH1 σ.client s) (hne : o' ≠ o)
    (ho' : σ.client.responses.get? o' = some response') (hs' : response'.session = some s')
    (hunread' : response'.bodyConsumed = false) : s' ≠ s := by
  rintro rfl
  obtain ⟨response, ho, hs, hunread, -⟩ := h.call c o s' hcall
  have hplace := hlease.unique s' hh1 (.response o') (.response o) ⟨response', ho', hs', hunread'⟩
    ⟨response, ho, hs, hunread⟩
  exact hne (Place.response.inj hplace)

/-- The hook of a response does not close the descriptor of another session. -/
private theorem consumed_elsewhere {σ σ₁ : HttpClient} (hapart : SocketsApart σ)
    {response : HttpResponse} {success : Bool} {dead : List SessionId}
    (hconsumed : Consumed σ o response success dead σ₁)
    (hother : ∀ s, response.session = some s → response.bodyConsumedHook ≠ none → s ≠ s')
    {session' : AnySession} (hsession' : σ.sessions.get? s' = some session') :
    σ₁.sockets session'.socket = σ.sockets session'.socket := by
  cases hconsumed with
  | again | kept | pooled => rfl
  | closed key s σ₂ _ hhook hsession hsame =>
    have hsessions : σ₂.sessions = σ.sessions := by rcases hsame with rfl | rfl <;> rfl
    have hsockets : σ₂.sockets = σ.sockets := by rcases hsame with rfl | rfl <;> rfl
    unfold HttpClient.close
    split
    case h_2 => rw [hsockets]
    case h_1 session hs =>
      rw [hsessions] at hs
      have hne : session'.socket ≠ session.socket := fun heq =>
        hother s hsession (by simp [hhook])
          (hapart.session s s' session session' hs hsession' heq.symm)
      simp [HttpClient.setSocket, hne, hsockets]

private theorem sameFor_client (hrefs : RefsInv σ.client) (hused : UsedInv σ.client)
    (hapart : SocketsApart σ.client) {l : ClientLabel} (hstep : σ.stepClient l = some σ')
    (ho' : σ.client.responses.get? o' = some response') (hs' : response'.session = some s')
    (hnot : ¬Touches σ.client o' l) (hcontents : σ'.contents s' = σ.contents s')
    (hsockets : ∀ σ₁ session, Acts σ.client l σ₁ → σ.client.sessions.get? s' = some session →
      σ₁.sockets session.socket = σ.client.sockets session.socket) : SameFor σ σ' o' s' := by
  obtain ⟨σ₁, hacts, hreap⟩ := acts_of_step (exchanges_of_stepClient hstep).1
  have ho₁ : σ₁.responses.get? o' = some response' := acts_untouched hrefs hacts ho' hnot
  obtain ⟨session, hsession, -⟩ := hrefs.response o' response' s' ho' hs'
  have hsession₁ := acts_sessions hrefs hacts hsession
  obtain ⟨hkept, hopen⟩ := reap_held (socketsApart_acts hused hapart hacts) ho₁ hs'
  refine ⟨?_, hcontents, ?_, fun session' hsession' => ?_⟩
  · rw [hreap, ho']
    exact ho₁
  · rw [hreap, hkept, hsession₁, hsession]
  · obtain rfl := Option.some.inj (hsession.symm.trans hsession')
    rw [hreap, hopen session hsession₁, hsockets σ₁ session hacts hsession]

/-- A call on one response leaves alone what a call on another one depends on. -/
private theorem sameFor_bodyStep (hrefs : RefsInv σ.client) (hlease : LeaseInv σ.client)
    (hused : UsedInv σ.client) (hapart : SocketsApart σ.client) (h : IsolationInv message σ)
    {l : ExchangeLabel} (hbody : BodyStep σ o l) (hstep : σ.step l = some σ') (hne : o' ≠ o)
    (ho' : σ.client.responses.get? o' = some response') (hs' : response'.session = some s')
    (hunread' : response'.bodyConsumed = false) : SameFor σ σ' o' s' := by
  -- an HTTP/1 session has one user, so the other response has another session
  match l, hbody with
  | .bodyRead c calls, ⟨s, hcall⟩ =>
    obtain ⟨_, _, hcall', hh1, rfl⟩ := step_bodyRead hstep
    obtain ⟨rfl, rfl⟩ := CallPhase.running.inj (Option.some.inj (hcall'.symm.trans hcall))
    have hother := running_apart hlease h hcall hh1 hne ho' hs' hunread'
    exact ⟨rfl, by simp [HttpExchange.setContents, hother], rfl, fun _ _ => rfl⟩
  | .client (.bodyFull c _), rfl =>
    have hstep : σ.stepClient (.bodyFull c o) = some σ' := hstep
    refine sameFor_client hrefs hused hapart hstep ho' hs' (fun htouches => htouches) ?_ ?_
    · obtain ⟨client, -, rfl⟩ := Option.map_eq_some_iff.mp hstep
      rfl
    · intro σ₁ session hacts _
      cases hacts
      rfl
  | .client (.bodyDone c outcome dead), ⟨s, hcall⟩ =>
    have hstep : σ.stepClient (.bodyDone c outcome dead) = some σ' := hstep
    refine sameFor_client hrefs hused hapart hstep ho' hs' ?_ ?_ ?_
    · rintro ⟨s₀, hcall'⟩
      exact hne (CallPhase.running.inj (Option.some.inj (hcall'.symm.trans hcall))).1
    · cases (exchanges_of_stepClient hstep).2 with
      | plain => rfl
      | reset _ hbegins => exact hbegins.elim
      | body _ hcall' hh1 =>
        obtain ⟨rfl, rfl⟩ := CallPhase.running.inj (Option.some.inj (hcall'.symm.trans hcall))
        have hother := running_apart hlease h hcall hh1 hne ho' hs' hunread'
        simp [HttpExchange.setContents, hother]
    · intro σ₁ session' hacts hsession'
      obtain ⟨response, ho, hs, hunread, -⟩ := h.call c o s hcall
      cases hacts with
      | bodyDone hcall' hresponse hsession hconsumed =>
        obtain ⟨rfl, rfl⟩ := CallPhase.running.inj (Option.some.inj (hcall.symm.trans hcall'))
        obtain rfl := Option.some.inj (ho.symm.trans hresponse)
        -- the descriptor that may be closed belongs to the session of the call
        refine consumed_elsewhere hapart hconsumed (fun s₀ hs₀ hhook => ?_) hsession'
        obtain rfl := Option.some.inj (hs.symm.trans hs₀)
        obtain ⟨session, hsession, hh1⟩ := hrefs.response o response s ho hs
        exact (running_apart hlease h hcall ⟨session, hsession, hh1.mp hhook⟩ hne ho' hs'
          hunread').symm

/-- A call on one response does not change what calls on other ones have returned. -/
private theorem results_bodyStep {l : ExchangeLabel} (hbody : BodyStep σ o l)
    (hstep : σ.step l = some σ') (hother : ∀ s, σ.client.calls c ≠ some (.running o s)) :
    σ'.results c = σ.results c := by
  match l, hbody with
  | .bodyRead c' calls, ⟨s, hcall⟩ =>
    obtain ⟨_, _, -, -, rfl⟩ := step_bodyRead hstep
    rfl
  | .client (.bodyFull c' _), rfl =>
    obtain ⟨client, -, rfl⟩ := Option.map_eq_some_iff.mp hstep
    rfl
  | .client (.bodyDone c' outcome dead), ⟨s, hcall⟩ =>
    have hstep : σ.stepClient (.bodyDone c' outcome dead) = some σ' := hstep
    rcases (exchanges_of_stepClient hstep).2.results c with
      hsame | ⟨_, _, _, _, hl, -⟩
    · exact hsame
    · obtain ⟨rfl, -, -⟩ := ClientLabel.bodyDone.inj hl
      exact absurd hcall (hother s)

end Frame

/-! ## Isolation -/

private theorem isolation_step (message : RequestId → MessageId) (σ : HttpExchange)
    (l : ExchangeLabel) (σ' : HttpExchange)
    (h : (RefsInv σ.client ∧ LeaseInv σ.client) ∧ UsedInv σ.client ∧ SocketsApart σ.client ∧
      IsolationInv message σ)
    (hseparate : Separate message σ l) (hstep : σ.step l = some σ') :
    (RefsInv σ'.client ∧ LeaseInv σ'.client) ∧ UsedInv σ'.client ∧ SocketsApart σ'.client ∧
      IsolationInv message σ' := by
  obtain ⟨hleases, hused, hapart, hisolation⟩ := h
  have hnext := isolationInv_step hleases.1 hleases.2 hisolation hseparate hstep
  rcases step_client hstep with hclient | ⟨l, hclient⟩
  · rw [hclient] at *
    exact ⟨hleases, hused, hapart, hnext⟩
  · refine ⟨leases_step _ l _ hleases hclient, usedInv_step hused hclient, ?_, hnext⟩
    obtain ⟨σ₁, hacts, hreap⟩ := acts_of_step hclient
    rw [hreap]
    exact (socketsApart_acts hused hapart hacts).reap

private theorem isolationInv_initial (message : RequestId → MessageId) :
    IsolationInv message HttpExchange.initial := by
  constructor <;> simp [HttpExchange.initial, HttpClient.initial]

/-- If the users call `body_full` once on each response and peers send nothing but their answers,
    then a body consists of bytes of the message whose head the response carries, and a call on one
    response changes neither what a call on another one depends on nor what it has returned.  On an
    HTTP/2 session this needs no condition. -/
theorem body_isolated (message : RequestId → MessageId) :
    (∀ ls σ, Run.Along HttpExchange.step (fun _ => Separate message) [] HttpExchange.initial ls →
        Run.run HttpExchange.step HttpExchange.initial ls = some σ →
        (∀ c bytes, σ.results c = some bytes → ∃ q, σ.callers c = some q ∧
          (∀ m ∈ σ.heads q, m = message q) ∧ ∀ byte ∈ bytes, byte.1 = message q) ∧
        ∀ o l σ', BodyStep σ o l → σ.step l = some σ' →
          (∀ o' response s, o' ≠ o → σ.client.responses.get? o' = some response →
            response.session = some s → response.bodyConsumed = false → SameFor σ σ' o' s) ∧
          ∀ c, (∀ s, σ.client.calls c ≠ some (.running o s)) → σ'.results c = σ.results c) ∧
      ∀ ls σ, Run.run Http2Session.step Http2Session.initial ls = some σ →
        (∀ c s body, σ.bodies c = some (s, .returned (.ok body)) →
          body.Sublist (received s ls).data) ∧
        ∀ l σ' s s', (∃ c, l = .bodyFull c s ∨ l = .bodyResume c) → streamOf σ l = some s →
          σ.step l = some σ' → s' ≠ s → SameAt s' σ σ' := by
  constructor
  · intro ls σ hseparate hrun
    obtain ⟨⟨hrefs, hlease⟩, hused, hapart, h⟩ := Run.stateInvariant_along (isolation_step message)
      ⟨⟨refsInv_initial, leaseInv_initial⟩, usedInv_initial, socketsApart_initial,
        isolationInv_initial message⟩ hseparate hrun
    refine ⟨fun c bytes hbytes => ?_, fun o l σ' hbody hstep => ⟨?_, ?_⟩⟩
    · obtain ⟨q, hq, hown⟩ := h.results c bytes hbytes
      exact ⟨q, hq, h.heads q, hown⟩
    · intro o' response s hne ho' hs' hunread'
      exact sameFor_bodyStep hrefs hlease hused hapart h hbody hstep hne ho' hs' hunread'
    · exact fun c hother => results_bodyStep hbody hstep hother
  · -- HTTP/2: each stream has its own context
    intro ls σ hrun
    have hinv := dataInv_run hrun
    refine ⟨fun c s body hc => (hinv.2 s).call c _ hc, fun l σ' s s' _ hl hstep hne => ?_⟩
    exact (step_elsewhere hinv.1 hstep hl hne).1

/-- What llhttp reports for a response with a body, each callback with its message. -/
def wholeMessage (m : MessageId) (body : List UInt8) : List (MessageId × Callback) :=
  [(m, .span (.onStatus 200) [79, 75]), (m, .mark .onHeadersComplete), (m, .span .onBody body),
    (m, .mark .onMessageComplete)]

/-- Two exchanges, the second one on the connection of the first.  The body of each response comes
    with its head. -/
def twoExchanges : List ExchangeLabel :=
  [.client (.request 0 plainKey [] [] (some 5)), .client (.connected 0),
    .client (.established 0 false), .headRead 0 (wholeMessage 0 [104]), .client (.responded 0 none),
    .client (.bodyFull 0 0), .client (.bodyDone 0 .complete []),
    .client (.request 1 plainKey [] [] none), .headRead 1 (wholeMessage 1 [105]),
    .client (.responded 1 none)]

theorem body_isolated_twoExchanges :
    ∃ σ, Run.Along HttpExchange.step (fun _ => Separate id) [] HttpExchange.initial twoExchanges ∧
      Run.run HttpExchange.step HttpExchange.initial twoExchanges = some σ ∧
      σ.results 0 = some [(0, 104)] ∧
      ∃ q, σ.callers 0 = some q ∧ (∀ m ∈ σ.heads q, m = q) ∧
        ∀ byte ∈ [((0 : MessageId), (104 : UInt8))], byte.1 = q := by
  have hwhole : ∀ m body, ∀ call ∈ wholeMessage m body, call.1 = m := by
    intro m body call hcall
    simp only [wholeMessage, List.mem_cons, List.not_mem_nil, or_false] at hcall
    rcases hcall with rfl | rfl | rfl | rfl <;> rfl
  have halong : Run.Along HttpExchange.step (fun _ => Separate id) [] HttpExchange.initial
      twoExchanges := by
    refine .cons rfl trivial <| .cons rfl trivial <| .cons rfl trivial <|
      .cons rfl (hwhole 0 [104]) <| .cons rfl trivial <| .cons rfl ?_ <| .cons rfl trivial <|
      .cons rfl trivial <| .cons rfl (hwhole 1 [105]) <| .cons rfl trivial trivial
    refine ⟨fun c s => ?_, fun response ho => ?_⟩
    · exact (show (none : Option CallPhase) ≠ some (.running 0 s) from nofun)
    · obtain rfl := Option.some.inj ho
      rfl
  have hrun : ∃ σ, Run.run HttpExchange.step HttpExchange.initial twoExchanges = some σ ∧
      σ.results 0 = some [(0, 104)] := ⟨_, rfl, rfl⟩
  obtain ⟨σ, hrun, hresult⟩ := hrun
  exact ⟨σ, halong, hrun, hresult,
    ((body_isolated id).1 twoExchanges σ halong hrun).1 0 _ hresult⟩

/-- When the connection has been leased again, a second `body_full` on the first response returns
    the body of the second one. -/
theorem body_mixed :
    ∃ σ, Run.run HttpExchange.step HttpExchange.initial
        (twoExchanges ++ [.client (.bodyFull 1 0), .client (.bodyDone 1 .complete [])]) = some σ ∧
      σ.callers 1 = some 0 ∧ σ.heads 0 = [0] ∧ σ.results 1 = some [(1, 105)] :=
  ⟨_, rfl, rfl, rfl, rfl⟩

end Ppnt.Spec
