import Ppnt.Spec.ClientSteps

/-!
# References of the HTTP client

Every session that the pool, a request or a response refers to exists, the pool keeps HTTP/1
sessions apart from HTTP/2 sessions, and a response has a hook if and only if its session is an
HTTP/1 session.
-/

namespace Ppnt.Spec

open Ppnt.Native

/-- The session exists and is an HTTP/1 session. -/
def IsH1 (σ : HttpClient) (s : SessionId) : Prop :=
  ∃ session, σ.sessions.get? s = some session ∧ isH1 session.httpVersion = true

/-- The session exists and is an HTTP/2 session. -/
def IsH2 (σ : HttpClient) (s : SessionId) : Prop :=
  ∃ session, σ.sessions.get? s = some session ∧ session.httpVersion = .http2

structure RefsInv (σ : HttpClient) : Prop where
  sessions : ∀ s, σ.nextSession ≤ s → σ.sessions.get? s = none
  responses : ∀ o, σ.nextResponse ≤ o → σ.responses.get? o = none
  h1Idle : ∀ key s, s ∈ (σ.group key).h1Idle → IsH1 σ s
  h2Session : ∀ key s, (σ.group key).h2Session = some s → IsH2 σ s
  request : ∀ q key s, σ.requests.get? q = some (.exchanging key s) → σ.sessions.get? s ≠ none
  response : ∀ o response s, σ.responses.get? o = some response → response.session = some s →
    ∃ session, σ.sessions.get? s = some session ∧
      (response.bodyConsumedHook ≠ none ↔ isH1 session.httpVersion = true)

theorem not_isH2_of_isH1 {σ : HttpClient} {s : SessionId} (h : IsH1 σ s) : ¬IsH2 σ s := by
  rintro ⟨session, hs, hversion⟩
  obtain ⟨session', hs', h1⟩ := h
  obtain rfl := Option.some.inj (hs.symm.trans hs')
  simp [isH1, hversion] at h1

/-! ## Updates -/

variable {σ' : HttpClient} {key : SessionKey} {o : ResponseId} {response : HttpResponse}
  {dead : List SessionId}

section Updates

variable {σ : HttpClient} (h : RefsInv σ)

include h

theorem RefsInv.shrinks (hshrinks : Shrinks σ σ') : RefsInv σ' where
  sessions s hs := hshrinks.users.sessions ▸ h.sessions s (hshrinks.users.nextSession ▸ hs)
  responses o ho := hshrinks.users.responses ▸ h.responses o (hshrinks.users.nextResponse ▸ ho)
  h1Idle key s hs := by
    rw [IsH1, hshrinks.users.sessions]
    exact h.h1Idle key s ((hshrinks.h1Idle key).subset hs)
  h2Session key s hs := by
    rw [IsH2, hshrinks.users.sessions]
    rcases hshrinks.h2Session key with hnone | hsame
    · simp [hnone] at hs
    · exact h.h2Session key s (hsame ▸ hs)
  request q key s hq := hshrinks.users.sessions ▸ h.request q key s (hshrinks.users.requests ▸ hq)
  response o response s ho hs := by
    rw [hshrinks.users.sessions]
    exact h.response o response s (hshrinks.users.responses ▸ ho) hs

theorem RefsInv.setSocket (d : SocketId) (state : SocketState) : RefsInv (σ.setSocket d state) :=
  ⟨h.sessions, h.responses, h.h1Idle, h.h2Session, h.request, h.response⟩

theorem RefsInv.setCall (c : CallId) (phase : CallPhase) : RefsInv (σ.setCall c phase) :=
  ⟨h.sessions, h.responses, h.h1Idle, h.h2Session, h.request, h.response⟩

theorem RefsInv.setRequest {q : RequestId} {phase : ExchangePhase}
    (hphase : ∀ key s, phase = .exchanging key s → σ.sessions.get? s ≠ none) :
    RefsInv (σ.setRequest q phase) where
  sessions := h.sessions
  responses := h.responses
  h1Idle := h.h1Idle
  h2Session := h.h2Session
  request q' key s hq := by
    by_cases hne : q' = q
    · exact hphase key s (by simpa [hne] using hq)
    · exact h.request q' key s (by simpa [hne] using hq)
  response := h.response

/-- A session that nothing refers to yet. -/
theorem RefsInv.newSession (session : AnySession) : RefsInv (σ.newSession session) := by
  -- an id that is in use is below `nextSession`
  have hold : ∀ s, σ.sessions.get? s ≠ none →
      (σ.newSession session).sessions.get? s = σ.sessions.get? s := by
    intro s hs
    have hne : s ≠ σ.nextSession := fun heq => hs (heq ▸ h.sessions _ le_rfl)
    simp [hne]
  constructor
  case sessions =>
    intro s hs
    have hne : s ≠ σ.nextSession := Nat.ne_of_gt hs
    simpa [hne] using h.sessions s (Nat.le_of_succ_le hs)
  case responses => exact h.responses
  case h1Idle =>
    intro key s hs
    obtain ⟨old, hold', hv⟩ := h.h1Idle key s hs
    exact ⟨old, by rw [hold s (by simp [hold']), hold'], hv⟩
  case h2Session =>
    intro key s hs
    obtain ⟨old, hold', hv⟩ := h.h2Session key s hs
    exact ⟨old, by rw [hold s (by simp [hold']), hold'], hv⟩
  case request =>
    intro q key s hq
    have hs := h.request q key s hq
    rw [hold s hs]
    exact hs
  case response =>
    intro o response s ho hs
    obtain ⟨old, hold', hv⟩ := h.response o response s ho hs
    exact ⟨old, by rw [hold s (by simp [hold']), hold'], hv⟩

theorem RefsInv.setGroup {g : HostGroup} (h1 : ∀ s ∈ g.h1Idle, IsH1 σ s)
    (h2 : ∀ s, g.h2Session = some s → IsH2 σ s) :
    RefsInv (σ.setGroup key g) where
  sessions := h.sessions
  responses := h.responses
  h1Idle key' s hs := by
    rw [group_setGroup] at hs
    split at hs
    · exact h1 s hs
    · exact h.h1Idle key' s hs
  h2Session key' s hs := by
    rw [group_setGroup] at hs
    split at hs
    · exact h2 s hs
    · exact h.h2Session key' s hs
  request := h.request
  response := h.response

/-- Store a response in an object that exists. -/
theorem RefsInv.setResponse (ho : o < σ.nextResponse)
    (hresponse : ∀ s, response.session = some s → ∃ session, σ.sessions.get? s = some session ∧
      (response.bodyConsumedHook ≠ none ↔ isH1 session.httpVersion = true)) :
    RefsInv (σ.setResponse o response) where
  sessions := h.sessions
  responses o' ho' := by
    have hne : o' ≠ o := Nat.ne_of_gt (Nat.lt_of_lt_of_le ho ho')
    simpa [hne] using h.responses o' ho'
  h1Idle := h.h1Idle
  h2Session := h.h2Session
  request := h.request
  response o' response' s ho' hs := by
    by_cases hne : o' = o
    · obtain rfl : response = response' := by simpa [hne] using ho'
      exact hresponse s hs
    · exact h.response o' response' s (by simpa [hne] using ho') hs

theorem RefsInv.newResponse
    (hresponse : ∀ s, response.session = some s → ∃ session, σ.sessions.get? s = some session ∧
      (response.bodyConsumedHook ≠ none ↔ isH1 session.httpVersion = true)) :
    RefsInv (σ.newResponse response) := by
  -- first make room for the object
  have hroom : RefsInv { σ with nextResponse := σ.nextResponse + 1 } :=
    ⟨h.sessions, fun o ho => h.responses o (Nat.le_of_succ_le ho), h.h1Idle, h.h2Session, h.request,
      h.response⟩
  exact hroom.setResponse (o := σ.nextResponse) (Nat.lt_succ_self _) hresponse

theorem RefsInv.lt_nextResponse (ho : σ.responses.get? o = some response) : o < σ.nextResponse := by
  by_contra hge
  simp [h.responses o (Nat.le_of_not_lt hge)] at ho

end Updates

/-! ## Steps -/

/-- Nothing that is owned is destroyed. -/
theorem RefsInv.reap {σ : HttpClient} (h : RefsInv σ) : RefsInv σ.reap := by
  have hkept : ∀ s, σ.Owned s → σ.reap.sessions.get? s = σ.sessions.get? s := fun s hs => by
    rw [reap_sessions, if_pos hs]
  constructor
  case sessions =>
    intro s hs
    rw [reap_sessions, h.sessions s hs]
    split <;> rfl
  case responses => exact h.responses
  case h1Idle =>
    intro key s hs
    rw [IsH1, hkept s ((owned_iff σ s).mpr (.inl ⟨key, .inr hs⟩))]
    exact h.h1Idle key s hs
  case h2Session =>
    intro key s hs
    rw [IsH2, hkept s ((owned_iff σ s).mpr (.inl ⟨key, .inl hs⟩))]
    exact h.h2Session key s hs
  case request =>
    intro q key s hq
    rw [hkept s ((owned_iff σ s).mpr (.inr (.inl ⟨q, _, hq, rfl⟩)))]
    exact h.request q key s hq
  case response =>
    intro o response s ho hs
    rw [hkept s ((owned_iff σ s).mpr (.inr (.inr ⟨o, response, ho, hs⟩)))]
    exact h.response o response s ho hs

/-- The group that `acquire_session` leaves behind is part of the old one, and the session that it
    returns exists. -/
theorem shrinks_of_acquired {σ : HttpClient} {dead' : List SessionId}
    {result : HttpClient × Option SessionId} (h : Acquired σ key dead dead' result) :
    Shrinks σ result.1 := by
  cases h with
  | h2 s h1Idle hgroup hsub => exact shrinks_setGroup hsub (.inr hgroup.symm)
  | h1 s rest hsub => exact shrinks_setGroup ((List.sublist_cons_self s rest).trans hsub) (.inl rfl)
  | none => exact shrinks_setGroup (List.nil_sublist _) (.inl rfl)

theorem RefsInv.acquired {σ : HttpClient} {dead' : List SessionId} {s : SessionId} (h : RefsInv σ)
    (hacquired : Acquired σ key dead dead' (σ', some s)) :
    σ.sessions.get? s ≠ none := by
  cases hacquired with
  | h2 _ _ hgroup =>
    obtain ⟨session, hs, -⟩ := h.h2Session key s hgroup
    simp [hs]
  | h1 _ rest hsub =>
    obtain ⟨session, hs, -⟩ := h.h1Idle key s (hsub.subset List.mem_cons_self)
    simp [hs]

/-- What `body_full` leaves refers to sessions that exist. -/
private theorem refsInv_consumed {σ : HttpClient} {success : Bool} (h : RefsInv σ)
    (ho : σ.responses.get? o = some response) (hconsumed : Consumed σ o response success dead σ') :
    RefsInv σ' := by
  have hmark : RefsInv (markConsumed σ o response) :=
    h.setResponse (h.lt_nextResponse ho) fun s hs => h.response o response s ho hs
  cases hconsumed with
  | again => exact h
  | kept => exact hmark
  | pooled key s _ hhook hsession =>
    obtain ⟨session, hs, hh1⟩ := h.response o response s ho hsession
    refine hmark.setGroup (fun s' hs' => ?_) fun s' hs' => h.h2Session key s' hs'
    rcases List.mem_append.mp hs' with hold | hnew
    · exact h.h1Idle key s' hold
    · obtain rfl := List.mem_singleton.mp hnew
      exact ⟨session, hs, hh1.mp (by simp [hhook])⟩
  | closed key s σ₁ _ _ _ hsame =>
    refine RefsInv.shrinks ?_ (shrinks_close σ₁ s)
    rcases hsame with rfl | rfl
    · exact hmark
    · exact hmark.setGroup (fun s' hs' => h.h1Idle key s' hs') fun s' hs' => h.h2Session key s' hs'

/-- Each act keeps the references right. -/
private theorem refsInv_acts {σ : HttpClient} {l : ClientLabel} (h : RefsInv σ)
    (hacts : Acts σ l σ') :
    RefsInv σ' := by
  cases hacts with
  | acquired _ hacquired =>
    have hshrinks := shrinks_of_acquired hacquired
    refine (h.shrinks hshrinks).setRequest fun key s hphase => ?_
    obtain ⟨-, rfl⟩ := ExchangePhase.exchanging.inj hphase
    rw [hshrinks.users.sessions]
    exact h.acquired hacquired
  | unconnected _ hacquired =>
    exact (h.shrinks (shrinks_of_acquired hacquired)).setRequest (by simp)
  | connecting _ hacquired =>
    exact ((h.shrinks (shrinks_of_acquired hacquired)).setSocket _ _).setRequest (by simp)
  | connectFailed => exact (h.setSocket _ _).setRequest (by simp)
  | connected | establishFailed => exact h.setRequest (by simp)
  | @establishedH2 q key cleared d hphase =>
    have hnew := h.newSession ⟨.http2, key, d⟩
    have hself : IsH2 (σ.newSession ⟨.http2, key, d⟩) σ.nextSession :=
      ⟨⟨.http2, key, d⟩, by simp, rfl⟩
    have hgroup : RefsInv ((σ.newSession ⟨.http2, key, d⟩).setGroup key
        { σ.group key with h2Session := some σ.nextSession }) := by
      refine hnew.setGroup (fun s hs => hnew.h1Idle key s hs) fun s hs => ?_
      obtain rfl := Option.some.inj hs
      exact hself
    refine hgroup.setRequest fun key' s hphase' => ?_
    obtain ⟨-, rfl⟩ := ExchangePhase.exchanging.inj hphase'
    simp [HttpClient.setGroup]
  | @establishedH1 q key cleared d hphase =>
    refine (h.newSession ⟨.http11, key, d⟩).setRequest fun key' s hphase' => ?_
    obtain ⟨-, rfl⟩ := ExchangePhase.exchanging.inj hphase'
    simp
  | requestFailed => exact h.setRequest (by simp)
  -- only the response of an HTTP/1 session gets a hook
  | @responded q key s session id hphase hsession =>
    refine (h.setRequest (by simp)).newResponse fun s' hs' => ?_
    obtain rfl := Option.some.inj hs'
    refine ⟨session, hsession, ?_⟩
    by_cases h1 : isH1 session.httpVersion = true <;> simp [h1]
  | bodyFull => exact h.setCall _ _
  | bodyDone _ hresponse _ hconsumed => exact (refsInv_consumed h hresponse hconsumed).setCall _ _
  | move hresponse =>
    have hnew := h.newResponse fun s hs => h.response _ _ s hresponse hs
    exact hnew.setResponse (Nat.lt_succ_of_lt (h.lt_nextResponse hresponse)) (by simp)
  | assignSelf => exact h
  | assign hold hresponse hne =>
    have hset := h.setResponse (h.lt_nextResponse hold) fun s hs => h.response _ _ s hresponse hs
    exact hset.setResponse (h.lt_nextResponse hresponse) (by simp)
  | drop hresponse =>
    refine ⟨h.sessions, fun o ho => ?_, h.h1Idle, h.h2Session, h.request, fun o response s ho => ?_⟩
    · simp [h.responses o ho]
    · obtain ⟨-, ho⟩ : _ ∧ σ.responses.get? o = some response := by simpa using ho
      exact h.response o response s ho
  | closeAsync => exact h.shrinks (shrinks_closeFrom σ _ _)
  | closeFailed =>
    exact ⟨h.sessions, h.responses, h.h1Idle, h.h2Session, h.request, h.response⟩
  | closeResumed => exact h.shrinks (shrinks_closeResumed σ _ _ _)

theorem refsInv_step {σ : HttpClient} {l : ClientLabel} (h : RefsInv σ)
    (hstep : σ.step l = some σ') : RefsInv σ' := by
  obtain ⟨σ₁, hacts, rfl⟩ := acts_of_step hstep
  exact (refsInv_acts h hacts).reap

@[simp] theorem group_initial (key : SessionKey) : HttpClient.initial.group key = {} :=
  Std.TreeMap.getD_emptyc

theorem refsInv_initial : RefsInv HttpClient.initial where
  sessions _ _ := rfl
  responses _ _ := rfl
  h1Idle key s hs := by simp at hs
  h2Session key s hs := by simp at hs
  request q key s hq := by simp [HttpClient.initial] at hq
  response o response s ho := by simp [HttpClient.initial] at ho

end Ppnt.Spec
