import Ppnt.Spec.SessionPool

/-!
# Steps of the HTTP client

What a step of `HttpClient` can do, as an inductive relation with one case for each way through the
code.  The invariants of the client are proved by cases on it.
-/

namespace Ppnt.Spec

open Ppnt.Native

/-- The ways through the code, without the destructors of sessions. -/
inductive Acts (σ : HttpClient) : ClientLabel → HttpClient → Prop
  | acquired {q key dead dead' socket s σ'} (hfresh : σ.requests.get? q = none)
      (hacquired : Acquired σ key dead dead' (σ', some s)) :
      Acts σ (.request q key dead dead' socket) (σ'.setRequest q (.exchanging key s))
  | unconnected {q key dead dead' σ'} (hfresh : σ.requests.get? q = none)
      (hacquired : Acquired σ key dead dead' (σ', none)) :
      Acts σ (.request q key dead dead' none) (σ'.setRequest q .finished)
  | connecting {q key dead dead' d σ'} (hfresh : σ.requests.get? q = none)
      (hacquired : Acquired σ key dead dead' (σ', none)) (hunused : σ.sockets d = .unused) :
      Acts σ (.request q key dead dead' (some d))
        ((σ'.setSocket d .opened).setRequest q (.connecting key σ.cleared d))
  | connectFailed {q key cleared d}
      (hphase : σ.requests.get? q = some (.connecting key cleared d)) :
      Acts σ (.connectFailed q) ((σ.setSocket d .closed).setRequest q .finished)
  | connected {q key cleared d} (hphase : σ.requests.get? q = some (.connecting key cleared d)) :
      Acts σ (.connected q) (σ.setRequest q (.establishing key cleared d))
  | establishFailed {q key cleared d}
      (hphase : σ.requests.get? q = some (.establishing key cleared d)) :
      Acts σ (.establishFailed q) (σ.setRequest q .finished)
  | establishedH2 {q key cleared d}
      (hphase : σ.requests.get? q = some (.establishing key cleared d)) :
      Acts σ (.established q true) (((σ.newSession ⟨.http2, key, d⟩).setGroup key
        { σ.group key with h2Session := some σ.nextSession }).setRequest q
          (.exchanging key σ.nextSession))
  | establishedH1 {q key cleared d}
      (hphase : σ.requests.get? q = some (.establishing key cleared d)) :
      Acts σ (.established q false)
        ((σ.newSession ⟨.http11, key, d⟩).setRequest q (.exchanging key σ.nextSession))
  | requestFailed {q key s} (hphase : σ.requests.get? q = some (.exchanging key s)) :
      Acts σ (.requestFailed q) (σ.setRequest q .finished)
  | responded {q key s session id} (hphase : σ.requests.get? q = some (.exchanging key s))
      (hsession : σ.sessions.get? s = some session) :
      Acts σ (.responded q id) ((σ.setRequest q .finished).newResponse
        { session := some s
          bodyConsumedHook := if isH1 session.httpVersion then some key else none
          head := some q
          id := id })
  | bodyFull {c o response s} (hfresh : σ.calls c = none)
      (hresponse : σ.responses.get? o = some response) (hsession : response.session = some s) :
      Acts σ (.bodyFull c o) (σ.setCall c (.running o s))
  | bodyDone {c outcome dead o s response session σ'} (hcall : σ.calls c = some (.running o s))
      (hresponse : σ.responses.get? o = some response)
      (hsession : σ.sessions.get? s = some session)
      (hconsumed : Consumed σ o response (outcome ≠ .failed) dead σ') :
      Acts σ (.bodyDone c outcome dead) (σ'.setCall c .finished)
  | move {o response} (hresponse : σ.responses.get? o = some response) :
      Acts σ (.move o) ((σ.newResponse response).setResponse o {})
  | assignSelf {o} : Acts σ (.assign o o) σ
  | assign {target source old response} (hold : σ.responses.get? target = some old)
      (hresponse : σ.responses.get? source = some response) (hne : target ≠ source) :
      Acts σ (.assign target source) ((σ.setResponse target response).setResponse source {})
  | drop {o response} (hresponse : σ.responses.get? o = some response) :
      Acts σ (.drop o) { σ with responses := σ.responses.erase o }
  | closeAsync {x} : Acts σ (.closeAsync x) (σ.closeFrom x σ.pool.keys)
  | closeFailed {x} : Acts σ (.closeResumed x false) (σ.setCloser x .finished)
  | closeResumed {x key cleared s} (hcloser : σ.closers x = some (.closing key cleared s)) :
      Acts σ (.closeResumed x true)
        (((σ.setGroup key { σ.group key with h2Session := none }).drain key).closeFrom x
          (σ.pool.keys.filter fun key' => SessionKey.cmp key key' = .lt))

/-! ## Every step is one of them -/

section Cases

variable {σ σ' : HttpClient}

/-- A request takes a session from the pool, or opens a descriptor if there is one to open. -/
private theorem acts_of_request {q : RequestId} {key : SessionKey} {dead dead' : List SessionId}
    {socket : Option SocketId} (h : σ.act (.request q key dead dead' socket) = some σ') :
    Acts σ (.request q key dead dead' socket) σ' := by
  obtain ⟨hfresh, h⟩ := Option.ite_none_right_eq_some.mp h
  have hacquired := acquireSession_eq σ key dead dead'
  split at h
  case h_1 σ₁ s heq =>
    rw [heq] at hacquired
    obtain rfl := Option.some.inj h
    exact .acquired hfresh hacquired
  case h_2 σ₁ heq =>
    rw [heq] at hacquired
    split at h
    case h_1 =>
      obtain rfl := Option.some.inj h
      exact .unconnected hfresh hacquired
    case h_2 d =>
      obtain ⟨hunused, ⟨⟩⟩ := Option.ite_none_right_eq_some.mp h
      exact .connecting hfresh hacquired hunused

/-- `session_connect` returns a session of either version. -/
private theorem acts_of_established {q : RequestId} {useH2 : Bool}
    (h : σ.act (.established q useH2) = some σ') : Acts σ (.established q useH2) σ' := by
  simp only [HttpClient.act] at h
  split at h
  case h_2 => simp at h
  case h_1 key cleared d hphase =>
    cases useH2 with
    | true =>
      obtain ⟨-, ⟨⟩⟩ := Option.ite_none_right_eq_some.mp h
      exact .establishedH2 hphase
    | false =>
      obtain rfl := Option.some.inj h
      exact .establishedH1 hphase

private theorem acts_of_responded {q : RequestId} {id : Option StreamId}
    (h : σ.act (.responded q id) = some σ') : Acts σ (.responded q id) σ' := by
  simp only [HttpClient.act] at h
  split at h
  case h_2 => simp at h
  case h_1 key s hphase =>
    split at h
    case h_1 session hsession =>
      obtain rfl := Option.some.inj h
      exact .responded hphase hsession
    case h_2 => simp at h

private theorem acts_of_bodyFull {c : CallId} {o : ResponseId}
    (h : σ.act (.bodyFull c o) = some σ') : Acts σ (.bodyFull c o) σ' := by
  simp only [HttpClient.act] at h
  split at h
  case h_2 => simp at h
  case h_1 response hfresh hresponse =>
    split at h
    case h_1 s hsession =>
      obtain rfl := Option.some.inj h
      exact .bodyFull hfresh hresponse hsession
    case h_2 => simp at h

/-- The end of a `body_full`, with the hook behind it. -/
private theorem acts_of_bodyDone {c : CallId} {outcome : BodyOutcome} {dead : List SessionId}
    (h : σ.act (.bodyDone c outcome dead) = some σ') : Acts σ (.bodyDone c outcome dead) σ' := by
  simp only [HttpClient.act] at h
  split at h
  case h_2 => simp at h
  case h_1 o s hcall =>
    split at h
    case h_2 => simp at h
    case h_1 response session hresponse hsession =>
      obtain rfl := Option.some.inj h
      exact .bodyDone hcall hresponse hsession (consume_eq σ o response _ dead)

/-- An assignment of a response to itself does nothing. -/
private theorem acts_of_assign {target source : ResponseId}
    (h : σ.act (.assign target source) = some σ') : Acts σ (.assign target source) σ' := by
  simp only [HttpClient.act] at h
  split at h
  case h_2 => simp at h
  case h_1 old response hold hresponse =>
    split at h
    case isTrue heq =>
      obtain rfl := Option.some.inj h
      exact heq ▸ .assignSelf
    case isFalse hne =>
      obtain rfl := Option.some.inj h
      exact .assign hold hresponse hne

/-- `close_async` goes on with the groups behind the one it was suspended in, or gives up. -/
private theorem acts_of_closeResumed {x : CloserId} {success : Bool}
    (h : σ.act (.closeResumed x success) = some σ') : Acts σ (.closeResumed x success) σ' := by
  simp only [HttpClient.act] at h
  split at h
  case h_2 => simp at h
  case h_1 key cleared s hcloser =>
    obtain ⟨-, h⟩ := Option.ite_none_right_eq_some.mp h
    cases success with
    | true =>
      obtain rfl := Option.some.inj h
      exact .closeResumed hcloser
    | false =>
      obtain rfl := Option.some.inj h
      exact .closeFailed

/-- Every step of the model is one of the cases. -/
theorem acts_of_act {l : ClientLabel} (h : σ.act l = some σ') : Acts σ l σ' := by
  cases l with
  | request => exact acts_of_request h
  | connectFailed q =>
    simp only [HttpClient.act] at h
    split at h
    case h_1 key cleared d hphase =>
      obtain rfl := Option.some.inj h
      exact .connectFailed hphase
    case h_2 => simp at h
  | connected q =>
    simp only [HttpClient.act] at h
    split at h
    case h_1 key cleared d hphase =>
      obtain rfl := Option.some.inj h
      exact .connected hphase
    case h_2 => simp at h
  | establishFailed q =>
    simp only [HttpClient.act] at h
    split at h
    case h_1 key cleared d hphase =>
      obtain ⟨-, ⟨⟩⟩ := Option.ite_none_right_eq_some.mp h
      exact .establishFailed hphase
    case h_2 => simp at h
  | established => exact acts_of_established h
  | requestFailed q =>
    simp only [HttpClient.act] at h
    split at h
    case h_1 key s hphase =>
      obtain rfl := Option.some.inj h
      exact .requestFailed hphase
    case h_2 => simp at h
  | responded => exact acts_of_responded h
  | bodyFull => exact acts_of_bodyFull h
  | bodyDone => exact acts_of_bodyDone h
  | move o =>
    simp only [HttpClient.act] at h
    split at h
    case h_1 response hresponse =>
      obtain rfl := Option.some.inj h
      exact .move hresponse
    case h_2 => simp at h
  | assign => exact acts_of_assign h
  | drop o =>
    simp only [HttpClient.act] at h
    split at h
    case h_1 response hresponse =>
      obtain rfl := Option.some.inj h
      exact .drop hresponse
    case h_2 => simp at h
  | closeAsync x =>
    obtain ⟨-, ⟨⟩⟩ := Option.ite_none_right_eq_some.mp h
    exact .closeAsync
  | closeResumed => exact acts_of_closeResumed h

end Cases

/-! ## Destructors -/

/-- A session survives if and only if something points to it. -/
theorem reap_sessions (σ : HttpClient) (s : SessionId) :
    σ.reap.sessions.get? s = if σ.Owned s then σ.sessions.get? s else none := by
  simp [HttpClient.reap]

theorem mem_of_reap {σ : HttpClient} {s : SessionId} {session : AnySession}
    (hs : σ.reap.sessions.get? s = some session) :
    σ.sessions.get? s = some session ∧ σ.Owned s := by
  rw [reap_sessions] at hs
  split at hs
  case isTrue howned => exact ⟨hs, howned⟩
  case isFalse => simp at hs

/-- A step is one of the ways through the code with the destructors behind it. -/
theorem acts_of_step {σ σ' : HttpClient} {l : ClientLabel} (h : σ.step l = some σ') :
    ∃ σ₁, Acts σ l σ₁ ∧ σ' = σ₁.reap := by
  obtain ⟨σ₁, hact, rfl⟩ := Option.map_eq_some_iff.mp h
  exact ⟨σ₁, acts_of_act hact, rfl⟩

end Ppnt.Spec
