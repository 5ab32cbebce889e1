import Ppnt.Spec.ClientRefs

/-!
# HTTP/1 sessions are leased exclusively

A session that is not shared between requests has to be in one place at a time: idle in the pool,
in use by a request, or with a response whose body is still to be read.
-/

namespace Ppnt.Spec

open Ppnt.Native

/-- Where a session can be used from. -/
inductive Place where
  | idle
  | request (q : RequestId)
  | response (o : ResponseId)
deriving DecidableEq, Repr

/-- The session is in a queue of idle sessions, in use by a request that is under way, or held by a
    response whose body has not been consumed. -/
def At (σ : HttpClient) (s : SessionId) : Place → Prop
  | .idle => ∃ key, s ∈ (σ.group key).h1Idle
  | .request q => ∃ key, σ.requests.get? q = some (.exchanging key s)
  | .response o => ∃ response, σ.responses.get? o = some response ∧ response.session = some s ∧
      response.bodyConsumed = false

structure LeaseInv (σ : HttpClient) : Prop where
  unique : ∀ s, IsH1 σ s → ∀ p p', At σ s p → At σ s p' → p = p'
  nodup : ∀ key, (σ.group key).h1Idle.Nodup
  disjoint : ∀ key key' s, s ∈ (σ.group key).h1Idle → s ∈ (σ.group key').h1Idle →
    SessionKey.cmp key key' = .eq
  length : ∀ key, (σ.group key).h1Idle.length ≤ 100

variable {σ σ' : HttpClient} {s s₀ : SessionId} {p : Place} {q : RequestId} {phase : ExchangePhase}
  {o : ResponseId} {response : HttpResponse} {key : SessionKey} {dead : List SessionId}
  {success : Bool} {l : ClientLabel} {log : List RequestId}

/-- What is in a place exists. -/
theorem RefsInv.at (h : RefsInv σ) (hat : At σ s p) :
    σ.sessions.get? s ≠ none := by
  cases p with
  | idle =>
    obtain ⟨key, hs⟩ := hat
    obtain ⟨session, hs, -⟩ := h.h1Idle key s hs
    simp [hs]
  | request q =>
    obtain ⟨key, hq⟩ := hat
    exact h.request q key s hq
  | response o =>
    obtain ⟨response, ho, hs, -⟩ := hat
    obtain ⟨session, hs, -⟩ := h.response o response s ho hs
    simp [hs]

/-- It is enough that a session stays where it is or moves to one new place. -/
private theorem unique_of_moved (h : LeaseInv σ)
    (hmoved : ∀ s, IsH1 σ' s → (IsH1 σ s ∧ ∀ p, At σ' s p → At σ s p) ∨ ∃ p₀, ∀ p, At σ' s p →
      p = p₀) :
    ∀ s, IsH1 σ' s → ∀ p p', At σ' s p → At σ' s p' → p = p' := by
  intro s hs p p' hp hp'
  rcases hmoved s hs with ⟨hold, hsub⟩ | ⟨p₀, hnew⟩
  · exact h.unique s hold p p' (hsub p hp) (hsub p' hp')
  · rw [hnew p hp, hnew p' hp']

/-- What a request holds after an update. -/
private theorem at_setRequest (hat : At (σ.setRequest q phase) s p) :
    (p = .request q ∧ phase.session? = some s) ∨ (p ≠ .request q ∧ At σ s p) := by
  cases p with
  | idle | response o => exact .inr ⟨by simp, hat⟩
  | request q' =>
    obtain ⟨key, hq⟩ := hat
    by_cases hne : q' = q
    · obtain rfl : phase = .exchanging key s := by simpa [hne] using hq
      exact .inl ⟨by rw [hne], rfl⟩
    · exact .inr ⟨by simpa using hne, key, by simpa [hne] using hq⟩

/-- What a response holds after an update. -/
private theorem at_setResponse (hat : At (σ.setResponse o response) s p) :
    (p = .response o ∧ response.session = some s ∧ response.bodyConsumed = false) ∨
      (p ≠ .response o ∧ At σ s p) := by
  cases p with
  | idle | request q => exact .inr ⟨by simp, hat⟩
  | response o' =>
    obtain ⟨response', ho, hs⟩ := hat
    by_cases hne : o' = o
    · obtain rfl : response = response' := by simpa [hne] using ho
      exact .inl ⟨by rw [hne], hs⟩
    · exact .inr ⟨by simpa using hne, response', by simpa [hne] using ho, hs⟩

private theorem at_newResponse (hat : At (σ.newResponse response) s p) :
    (p = .response σ.nextResponse ∧ response.session = some s ∧ response.bodyConsumed = false) ∨
      (p ≠ .response σ.nextResponse ∧ At σ s p) := by
  have hset : At (σ.setResponse σ.nextResponse response) s p := by cases p <;> exact hat
  exact at_setResponse hset

/-! ## Steps that take away -/

private theorem at_of_shrinks (hshrinks : Shrinks σ σ') (hat : At σ' s p) : At σ s p := by
  cases p with
  | idle =>
    obtain ⟨key, hs⟩ := hat
    exact ⟨key, (hshrinks.h1Idle key).subset hs⟩
  | request q =>
    obtain ⟨key, hq⟩ := hat
    exact ⟨key, hshrinks.users.requests ▸ hq⟩
  | response o =>
    obtain ⟨response, ho, hs⟩ := hat
    exact ⟨response, hshrinks.users.responses ▸ ho, hs⟩

private theorem LeaseInv.shrinks (h : LeaseInv σ) (hshrinks : Shrinks σ σ') :
    LeaseInv σ' where
  unique := by
    refine unique_of_moved h fun s hs => .inl ⟨?_, fun p => at_of_shrinks hshrinks⟩
    rwa [IsH1, hshrinks.users.sessions] at hs
  nodup key := (h.nodup key).sublist (hshrinks.h1Idle key)
  disjoint key key' s hs hs' :=
    h.disjoint key key' s ((hshrinks.h1Idle key).subset hs) ((hshrinks.h1Idle key').subset hs')
  length key := (hshrinks.h1Idle key).length_le.trans (h.length key)

/-- A step that leaves the idle sessions alone. -/
private theorem LeaseInv.of_users (h : LeaseInv σ)
    (hgroup : ∀ key, (σ'.group key).h1Idle = (σ.group key).h1Idle)
    (hmoved : ∀ s, IsH1 σ' s → (IsH1 σ s ∧ ∀ p, At σ' s p → At σ s p) ∨ ∃ p₀, ∀ p, At σ' s p →
      p = p₀) :
    LeaseInv σ' where
  unique := unique_of_moved h hmoved
  nodup key := hgroup key ▸ h.nodup key
  disjoint key key' s hs hs' := h.disjoint key key' s (hgroup key ▸ hs) (hgroup key' ▸ hs')
  length key := hgroup key ▸ h.length key

/-- A request that does not hold a session any more. -/
private theorem LeaseInv.setRequest (h : LeaseInv σ) (hphase : phase.session? = none) :
    LeaseInv (σ.setRequest q phase) := by
  refine h.of_users (fun _ => rfl) fun s hs => .inl ⟨hs, fun p hat => ?_⟩
  rcases at_setRequest hat with ⟨-, hsome⟩ | ⟨-, hold⟩
  · simp [hphase] at hsome
  · exact hold

private theorem LeaseInv.setSocket (h : LeaseInv σ) (d : SocketId) (state : SocketState) :
    LeaseInv (σ.setSocket d state) :=
  ⟨h.unique, h.nodup, h.disjoint, h.length⟩

private theorem LeaseInv.setCall (h : LeaseInv σ) (c : CallId) (phase : CallPhase) :
    LeaseInv (σ.setCall c phase) :=
  ⟨h.unique, h.nodup, h.disjoint, h.length⟩

private theorem LeaseInv.reap (h : LeaseInv σ) : LeaseInv σ.reap := by
  refine h.of_users (fun _ => rfl) fun s hs => .inl ⟨?_, fun p hat => ?_⟩
  · obtain ⟨session, hs, hv⟩ := hs
    exact ⟨session, (mem_of_reap hs).1, hv⟩
  · cases p <;> exact hat

/-! ## Steps that move a session -/

/-- A session moves to a request, when it is nowhere else. -/
private theorem LeaseInv.toRequest (h : LeaseInv σ) (hnowhere : IsH1 σ s₀ → ∀ p, ¬At σ s₀ p) :
    LeaseInv (σ.setRequest q (.exchanging key s₀)) := by
  refine h.of_users (fun _ => rfl) fun s hs => ?_
  by_cases hs₀ : s = s₀
  · refine .inr ⟨.request q, fun p hat => ?_⟩
    rcases at_setRequest hat with ⟨rfl, -⟩ | ⟨-, hold⟩
    · rfl
    · exact absurd (hs₀ ▸ hold) (hnowhere (hs₀ ▸ hs) p)
  · refine .inl ⟨hs, fun p hat => ?_⟩
    rcases at_setRequest hat with ⟨-, heq⟩ | ⟨-, hold⟩
    · exact absurd (Option.some.inj heq).symm hs₀
    · exact hold

/-- `acquire_session` hands an idle session to a request, or the shared HTTP/2 session. -/
private theorem leaseInv_acquired {dead' : List SessionId} (hrefs : RefsInv σ) (h : LeaseInv σ)
    (hacquired : Acquired σ key dead dead' (σ', some s)) :
    LeaseInv (σ'.setRequest q (.exchanging key s)) := by
  have hshrinks : Shrinks σ σ' := shrinks_of_acquired hacquired
  refine (h.shrinks hshrinks).toRequest fun hs p hat => ?_
  rw [IsH1, hshrinks.users.sessions, ← IsH1] at hs
  cases hacquired with
  | h2 _ _ hgroup => exact not_isH2_of_isH1 hs (hrefs.h2Session key s hgroup)
  | h1 _ rest hsub =>
    -- it was idle, so it can only be idle, and it has been taken out of its queue
    have hmem : s ∈ (σ.group key).h1Idle := hsub.subset List.mem_cons_self
    obtain rfl := h.unique s hs p .idle (at_of_shrinks hshrinks hat) ⟨key, hmem⟩
    obtain ⟨key', hmem'⟩ := hat
    rw [group_setGroup] at hmem'
    split at hmem'
    · exact (List.nodup_cons.mp ((h.nodup key).sublist hsub)).1 hmem'
    · rename_i hne
      exact hne (h.disjoint key key' s hmem hmem')

/-- A new session is nowhere. -/
private theorem leaseInv_newSession (hrefs : RefsInv σ) (h : LeaseInv σ) (session : AnySession) :
    LeaseInv (σ.newSession session) ∧ ∀ p, ¬At (σ.newSession session) σ.nextSession p := by
  have hat : ∀ s p, At (σ.newSession session) s p → At σ s p := fun s p hat => by
    cases p <;> exact hat
  have hnowhere : ∀ p, ¬At (σ.newSession session) σ.nextSession p := fun p hp =>
    hrefs.at (hat _ p hp) (hrefs.sessions _ le_rfl)
  refine ⟨h.of_users (fun _ => rfl) fun s hs => ?_, hnowhere⟩
  by_cases hnew : s = σ.nextSession
  · exact .inr ⟨.idle, fun p hp => absurd (hnew ▸ hp) (hnowhere p)⟩
  · obtain ⟨session', hs, hv⟩ := hs
    exact .inl ⟨⟨session', by simpa [hnew] using hs, hv⟩, hat s⟩

/-- A session moves to a response, when it is nowhere else. -/
private theorem LeaseInv.toResponse (h : LeaseInv σ) (o : ResponseId) (response : HttpResponse)
    (hgroup : ∀ key, (σ'.group key).h1Idle = (σ.group key).h1Idle)
    (hsessions : σ'.sessions = σ.sessions)
    (hat : ∀ s p, At σ' s p → (p = .response o ∧ response.session = some s) ∨ At σ s p)
    (hnowhere : ∀ s, IsH1 σ s → response.session = some s → ∀ p, At σ' s p → p = .response o) :
    LeaseInv σ' := by
  refine h.of_users hgroup fun s hs => ?_
  rw [IsH1, hsessions, ← IsH1] at hs
  by_cases hs₀ : response.session = some s
  · exact .inr ⟨.response o, hnowhere s hs hs₀⟩
  · refine .inl ⟨hs, fun p hp => ?_⟩
    rcases hat s p hp with ⟨-, heq⟩ | hold
    · exact absurd heq hs₀
    · exact hold

/-- A response takes the session of its request over. -/
private theorem leaseInv_responded (h : LeaseInv σ)
    (hphase : σ.requests.get? q = some (.exchanging key s₀))
      (hsession : response.session = some s₀) :
    LeaseInv ((σ.setRequest q .finished).newResponse response) := by
  have hat : ∀ s p, At ((σ.setRequest q .finished).newResponse response) s p →
      (p = .response σ.nextResponse ∧ response.session = some s) ∨
        (p ≠ .request q ∧ At σ s p) := by
    intro s p hp
    rcases at_newResponse hp with ⟨rfl, hs, -⟩ | ⟨-, hold⟩
    · exact .inl ⟨rfl, hs⟩
    · rcases at_setRequest hold with ⟨-, hnone⟩ | hold
      · simp [ExchangePhase.session?] at hnone
      · exact .inr hold
  refine h.toResponse σ.nextResponse response (fun _ => rfl) rfl
    (fun s p hp => (hat s p hp).imp_right And.right) ?_
  intro s hs hs₀ p hp
  obtain rfl := Option.some.inj (hs₀.symm.trans hsession)
  rcases hat s p hp with ⟨rfl, -⟩ | ⟨hne, hold⟩
  · rfl
  · exact absurd (h.unique s hs p (.request q) hold ⟨key, hphase⟩) hne

/-- A response moves from an object to another one. -/
private theorem LeaseInv.handOver (h : LeaseInv σ) (o' : ResponseId)
    (ho : σ.responses.get? o = some response)
    (hgroup : ∀ key, (σ'.group key).h1Idle = (σ.group key).h1Idle)
    (hsessions : σ'.sessions = σ.sessions)
    (hat : ∀ s p, At σ' s p → (p = .response o' ∧ response.session = some s ∧
      response.bodyConsumed = false) ∨ (p ≠ .response o ∧ At σ s p)) :
    LeaseInv σ' := by
  by_cases hconsumed : response.bodyConsumed = false
  · refine h.toResponse o' response hgroup hsessions
      (fun s p hp => (hat s p hp).imp (fun hnew => ⟨hnew.1, hnew.2.1⟩) And.right) ?_
    intro s hs hs₀ p hp
    rcases hat s p hp with ⟨rfl, -⟩ | ⟨hne, hold⟩
    · rfl
    · exact absurd (h.unique s hs p (.response o) hold ⟨response, ho, hs₀, hconsumed⟩) hne
  · refine h.of_users hgroup fun s hs => .inl ⟨?_, fun p hp => ?_⟩
    · rwa [IsH1, hsessions, ← IsH1] at hs
    · rcases hat s p hp with ⟨-, -, hfalse⟩ | ⟨-, hold⟩
      · exact absurd hfalse hconsumed
      · exact hold

/-- `body_full` returns the session of its response to the pool. -/
private theorem leaseInv_pooled (h : LeaseInv σ) (hs₀ : IsH1 σ s₀) (ho : At σ s₀ (.response o))
    (hlength : (σ.group key).h1Idle.length < 100) :
    LeaseInv ((markConsumed σ o response).setGroup key
      { σ.group key with h1Idle := (σ.group key).h1Idle ++ [s₀] }) := by
  have hnotIdle : ∀ key', s₀ ∉ (σ.group key').h1Idle := fun key' hmem => by
    have := h.unique s₀ hs₀ .idle (.response o) ⟨key', hmem⟩ ho
    simp at this
  have hmem : ∀ key' s, s ∈ (((markConsumed σ o response).setGroup key
      { σ.group key with h1Idle := (σ.group key).h1Idle ++ [s₀] }).group key').h1Idle →
      s ∈ (σ.group key').h1Idle ∨ (s = s₀ ∧ SessionKey.cmp key key' = .eq) := by
    intro key' s hs
    rw [group_setGroup] at hs
    split at hs
    case isFalse => exact .inl hs
    case isTrue hcmp =>
      rcases List.mem_append.mp hs with hold | hnew
      · exact .inl (group_congr σ hcmp ▸ hold)
      · exact .inr ⟨List.mem_singleton.mp hnew, hcmp⟩
  constructor
  case unique =>
    refine unique_of_moved h fun s hs => ?_
    -- `s₀` has come to the pool and left its response; nothing else has moved
    have hat : ∀ p, At ((markConsumed σ o response).setGroup key
        { σ.group key with h1Idle := (σ.group key).h1Idle ++ [s₀] }) s p →
        p = .idle ∧ s = s₀ ∨ (p ≠ .response o ∧ At σ s p) := by
      intro p hp
      cases p with
      | idle =>
        obtain ⟨key', hmem'⟩ := hp
        rcases hmem key' s hmem' with hold | ⟨rfl, -⟩
        · exact .inr ⟨by simp, key', hold⟩
        · exact .inl ⟨rfl, rfl⟩
      | request q => exact .inr ⟨by simp, hp⟩
      | response o' =>
        have hmark : At (markConsumed σ o response) s (.response o') := hp
        rcases at_setResponse hmark with ⟨-, -, hfalse⟩ | hold
        · simp at hfalse
        · exact .inr hold
    by_cases heq : s = s₀
    · refine .inr ⟨.idle, fun p hp => ?_⟩
      rcases hat p hp with ⟨rfl, -⟩ | ⟨hne, hold⟩
      · rfl
      · exact absurd (h.unique s₀ hs₀ p (.response o) (heq ▸ hold) ho) hne
    · refine .inl ⟨hs, fun p hp => ?_⟩
      rcases hat p hp with ⟨-, hfalse⟩ | ⟨-, hold⟩
      · exact absurd hfalse heq
      · exact hold
  case nodup =>
    intro key'
    rw [group_setGroup]
    split
    · refine List.nodup_append.mpr ⟨h.nodup key, List.nodup_singleton _, fun a ha b hb hab => ?_⟩
      obtain rfl := List.mem_singleton.mp hb
      exact hnotIdle key (hab ▸ ha)
    · exact h.nodup key'
  -- `s₀` was in no group, so two groups that hold it now are the one of `key`
  case disjoint =>
    intro key₁ key₂ s hs₁ hs₂
    rcases hmem key₁ s hs₁ with hold₁ | ⟨rfl, hcmp₁⟩
    · rcases hmem key₂ s hs₂ with hold₂ | ⟨rfl, -⟩
      · exact h.disjoint key₁ key₂ s hold₁ hold₂
      · exact absurd hold₁ (hnotIdle key₁)
    · rcases hmem key₂ s hs₂ with hold₂ | ⟨-, hcmp₂⟩
      · exact absurd hold₂ (hnotIdle key₂)
      · exact Std.TransCmp.eq_trans (Std.OrientedCmp.eq_symm hcmp₁) hcmp₂
  case length =>
    intro key'
    rw [group_setGroup]
    split
    · rw [List.length_append]
      exact hlength
    · exact h.length key'

/-- `body_full` leaves each session with one user. -/
private theorem leaseInv_consumed (hrefs : RefsInv σ) (h : LeaseInv σ)
    (ho : σ.responses.get? o = some response) (hconsumed : Consumed σ o response success dead σ') :
    LeaseInv σ' := by
  have hmark : LeaseInv (markConsumed σ o response) := by
    refine h.of_users (fun _ => rfl) fun s hs => .inl ⟨hs, fun p hp => ?_⟩
    rcases at_setResponse hp with ⟨-, -, hfalse⟩ | ⟨-, hold⟩
    · simp at hfalse
    · exact hold
  cases hconsumed with
  | again => exact h
  | kept => exact hmark
  | pooled key s hunread hhook hsession _ _ hlength =>
    obtain ⟨session, hs, hh1⟩ := hrefs.response o response s ho hsession
    exact leaseInv_pooled h ⟨session, hs, hh1.mp (by simp [hhook])⟩
      ⟨response, ho, hsession, hunread⟩ hlength
  | closed key s σ₁ _ _ _ hsame =>
    refine LeaseInv.shrinks ?_ (shrinks_close σ₁ s)
    rcases hsame with rfl | rfl
    · exact hmark
    · exact hmark.shrinks (shrinks_setGroup (List.Sublist.refl _) (Or.inr rfl))

/-! ## All steps -/

/-- Each act leaves a session with one user. -/
private theorem leaseInv_acts (hrefs : RefsInv σ) (h : LeaseInv σ) (hacts : Acts σ l σ') :
    LeaseInv σ' := by
  cases hacts with
  | acquired _ hacquired => exact leaseInv_acquired hrefs h hacquired
  | unconnected _ hacquired => exact (h.shrinks (shrinks_of_acquired hacquired)).setRequest rfl
  | connecting _ hacquired =>
    exact ((h.shrinks (shrinks_of_acquired hacquired)).setSocket _ _).setRequest rfl
  | connectFailed => exact (h.setSocket _ _).setRequest rfl
  | connected | establishFailed => exact h.setRequest rfl
  | @establishedH2 q key cleared d hphase =>
    obtain ⟨hnew, hnowhere⟩ := leaseInv_newSession hrefs h ⟨.http2, key, d⟩
    -- `h2_session` is no place of an HTTP/1 session
    have hidle : ∀ key', (((σ.newSession ⟨.http2, key, d⟩).setGroup key
        { σ.group key with h2Session := some σ.nextSession }).group key').h1Idle =
        ((σ.newSession ⟨.http2, key, d⟩).group key').h1Idle :=
      fun key' => h1Idle_setGroup (σ.newSession ⟨.http2, key, d⟩) key key' rfl
    have hat : ∀ s p, At ((σ.newSession ⟨.http2, key, d⟩).setGroup key
        { σ.group key with h2Session := some σ.nextSession }) s p →
        At (σ.newSession ⟨.http2, key, d⟩) s p := by
      intro s p hp
      cases p with
      | idle =>
        obtain ⟨key', hmem⟩ := hp
        exact ⟨key', hidle key' ▸ hmem⟩
      | request q => exact hp
      | response o => exact hp
    have hgroup := hnew.of_users hidle fun s hs => .inl ⟨hs, hat s⟩
    exact hgroup.toRequest fun _ p hp => hnowhere p (hat _ p hp)
  | @establishedH1 q key cleared d hphase =>
    obtain ⟨hnew, hnowhere⟩ := leaseInv_newSession hrefs h ⟨.http11, key, d⟩
    exact hnew.toRequest fun _ => hnowhere
  | requestFailed => exact h.setRequest rfl
  | responded hphase hsession => exact leaseInv_responded h hphase rfl
  | bodyFull => exact h.setCall _ _
  | bodyDone _ hresponse _ hconsumed =>
    exact (leaseInv_consumed hrefs h hresponse hconsumed).setCall _ _
  -- the session goes with the response, and the old object has none
  | @move o response hresponse =>
    refine h.handOver σ.nextResponse hresponse (fun _ => rfl) rfl fun s p hp => ?_
    rcases at_setResponse hp with ⟨-, hnone, -⟩ | ⟨hne, hp⟩
    · simp at hnone
    · rcases at_newResponse hp with hnew | ⟨-, hold⟩
      · exact .inl hnew
      · exact .inr ⟨hne, hold⟩
  | assignSelf => exact h
  | @assign target source old response hold hresponse hne =>
    refine h.handOver target hresponse (fun _ => rfl) rfl fun s p hp => ?_
    rcases at_setResponse hp with ⟨-, hnone, -⟩ | ⟨hne, hp⟩
    · simp at hnone
    · rcases at_setResponse hp with hnew | ⟨-, hold⟩
      · exact .inl hnew
      · exact .inr ⟨hne, hold⟩
  | drop hresponse =>
    refine h.of_users (fun _ => rfl) fun s hs => .inl ⟨hs, fun p hp => ?_⟩
    cases p with
    | idle => exact hp
    | request q => exact hp
    | response o' =>
      obtain ⟨response', ho', hs'⟩ := hp
      obtain ⟨-, ho'⟩ : _ ∧ σ.responses.get? o' = some response' := by simpa using ho'
      exact ⟨response', ho', hs'⟩
  | closeAsync => exact h.shrinks (shrinks_closeFrom σ _ _)
  | closeFailed => exact ⟨h.unique, h.nodup, h.disjoint, h.length⟩
  | closeResumed => exact h.shrinks (shrinks_closeResumed σ _ _ _)

/-! ## Hooks -/

/-- The request whose response runs its hook in a step. -/
def hookCall (σ : HttpClient) : ClientLabel → Option RequestId
  | .bodyDone c _ _ =>
    match σ.calls c with
    | some (.running o _) => (σ.responses.get? o).bind fun response =>
        if response.bodyConsumed || response.bodyConsumedHook = none then none else response.head
    | _ => none
  | _ => none

/-- The hooks that run along a run, in order. -/
def hookCalls (σ : HttpClient) : List ClientLabel → List RequestId
  | [] => []
  | l :: ls =>
    match σ.step l with
    | some σ' => (hookCall σ l).toList ++ hookCalls σ' ls
    | none => []

/-- A response belongs to a request that is finished and is in one object only, and if its hook has
    run its body has been consumed. -/
structure HeadInv (σ : HttpClient) (log : List RequestId) : Prop where
  finished : ∀ o response q, σ.responses.get? o = some response → response.head = some q →
    σ.requests.get? q = some .finished
  unique : ∀ o o' response response' q, σ.responses.get? o = some response →
    σ.responses.get? o' = some response' → response.head = some q → response'.head = some q → o = o'
  logged : ∀ q ∈ log, σ.requests.get? q = some .finished ∧
    ∀ o response, σ.responses.get? o = some response → response.head = some q →
      response.bodyConsumed = true

/-- A step that does not touch the responses. -/
private theorem HeadInv.of_responses (h : HeadInv σ log) (hresponses : σ'.responses = σ.responses)
    (hfinished : ∀ q, σ.requests.get? q = some .finished → σ'.requests.get? q = some .finished) :
    HeadInv σ' log where
  finished o response q ho hq := hfinished q (h.finished o response q (hresponses ▸ ho) hq)
  unique o o' response response' q ho ho' :=
    h.unique o o' response response' q (hresponses ▸ ho) (hresponses ▸ ho')
  logged q hq := ⟨hfinished q (h.logged q hq).1, fun o response ho =>
    (h.logged q hq).2 o response (hresponses ▸ ho)⟩

private theorem HeadInv.setRequest (h : HeadInv σ log) (hresponses : σ'.responses = σ.responses)
    (hrequests : σ'.requests = σ.requests.set q phase)
    (hphase : σ.requests.get? q ≠ some .finished) : HeadInv σ' log := by
  refine h.of_responses hresponses fun q' hq' => ?_
  have hne : q' ≠ q := fun heq => hphase (heq ▸ hq')
  simpa [hrequests, hne] using hq'

private theorem HeadInv.shrinks (h : HeadInv σ log) (hshrinks : Shrinks σ σ') : HeadInv σ' log :=
  h.of_responses hshrinks.users.responses fun _ hq => hshrinks.users.requests ▸ hq

/-- A response moves, or is marked, or goes away. -/
private theorem HeadInv.moved (h : HeadInv σ log) (hrequests : σ'.requests = σ.requests)
    (f : ResponseId → ResponseId)
    (hinj : ∀ o o' response response' q, σ'.responses.get? o = some response →
      σ'.responses.get? o' = some response' → response.head = some q → response'.head = some q →
      f o = f o' → o = o')
    (hmoved : ∀ o response q, σ'.responses.get? o = some response → response.head = some q →
      ∃ old, σ.responses.get? (f o) = some old ∧ old.head = some q ∧ (old.bodyConsumed = true →
      response.bodyConsumed = true)) :
    HeadInv σ' log where
  finished o response q ho hq := by
    obtain ⟨old, hold, hhead, -⟩ := hmoved o response q ho hq
    rw [hrequests]
    exact h.finished (f o) old q hold hhead
  unique o o' response response' q ho ho' hq hq' := by
    obtain ⟨old, hold, hhead, -⟩ := hmoved o response q ho hq
    obtain ⟨old', hold', hhead', -⟩ := hmoved o' response' q ho' hq'
    exact hinj o o' response response' q ho ho' hq hq'
      (h.unique (f o) (f o') old old' q hold hold' hhead hhead')
  logged q hq := by
    refine ⟨hrequests ▸ (h.logged q hq).1, fun o response ho hhead => ?_⟩
    obtain ⟨old, hold, hhead', hconsumed⟩ := hmoved o response q ho hhead
    exact hconsumed ((h.logged q hq).2 (f o) old hold hhead')

/-- A new response has the head of the request that ends. -/
private theorem headInv_responded (h : HeadInv σ log)
    (hphase : σ.requests.get? q = some (.exchanging key s)) (hhead : response.head = some q) :
    HeadInv ((σ.setRequest q .finished).newResponse response) log := by
  -- the request was under way, so no response and no hook belongs to it
  have hnone : ∀ o old, σ.responses.get? o = some old → old.head ≠ some q := by
    intro o old ho hq
    have := h.finished o old q ho hq
    simp [hphase] at this
  have hset : HeadInv (σ.setRequest q .finished) log := h.setRequest rfl rfl (by simp [hphase])
  have hfinished : (σ.setRequest q .finished).requests.get? q = some .finished := by simp
  constructor
  case finished =>
    intro o response' q' ho hq'
    by_cases hne : o = σ.nextResponse
    · obtain rfl : response = response' := by simpa [hne] using ho
      obtain rfl := Option.some.inj (hhead.symm.trans hq')
      exact hfinished
    · exact hset.finished o response' q' (by simpa [hne] using ho) hq'
  case unique =>
    intro o o' response₁ response₂ q' ho ho' hq₁ hq₂
    by_cases hne : o = σ.nextResponse
    · by_cases hne' : o' = σ.nextResponse
      · rw [hne, hne']
      · obtain rfl : response = response₁ := by simpa [hne] using ho
        obtain rfl := Option.some.inj (hhead.symm.trans hq₁)
        exact absurd hq₂ (hnone o' response₂ (by simpa [hne'] using ho'))
    · by_cases hne' : o' = σ.nextResponse
      · obtain rfl : response = response₂ := by simpa [hne'] using ho'
        obtain rfl := Option.some.inj (hhead.symm.trans hq₂)
        exact absurd hq₁ (hnone o response₁ (by simpa [hne] using ho))
      · exact h.unique o o' response₁ response₂ q' (by simpa [hne] using ho)
          (by simpa [hne'] using ho') hq₁ hq₂
  case logged =>
    intro q' hq'
    have hne : q' ≠ q := by
      rintro rfl
      have := (h.logged q' hq').1
      simp [hphase] at this
    refine ⟨(hset.logged q' hq').1, fun o response' ho hq => ?_⟩
    by_cases hnew : o = σ.nextResponse
    · obtain rfl : response = response' := by simpa [hnew] using ho
      exact absurd (Option.some.inj (hq.symm.trans hhead)) hne
    · exact (h.logged q' hq').2 o response' (by simpa [hnew] using ho) hq

private theorem headInv_consumed (h : HeadInv σ log) (ho : σ.responses.get? o = some response)
    (hconsumed : Consumed σ o response success dead σ') :
    HeadInv σ' log := by
  rcases consumed_users hconsumed with ⟨-, husers⟩ | ⟨-, husers⟩ <;>
    refine h.moved husers.requests id (fun _ _ _ _ _ _ _ _ _ heq => heq) fun o' response' q ho'
    hq =>
      ?_ <;>
    rw [husers.responses] at ho'
  · exact ⟨response', ho', hq, id⟩
  · by_cases hne : o' = o
    · obtain rfl : { response with bodyConsumed := true } = response' := by
        simpa [markConsumed, hne] using ho'
      exact ⟨response, hne ▸ ho, hq, fun _ => rfl⟩
    · exact ⟨response', by simpa [markConsumed, hne] using ho', hq, id⟩

/-- A response is moved to another object. -/
private theorem headInv_handOver {o' : ResponseId} (h : HeadInv σ log)
    (ho : σ.responses.get? o = some response) (hne : o' ≠ o) (hrequests : σ'.requests = σ.requests)
    (hresponses : σ'.responses = (σ.responses.set o' response).set o {}) : HeadInv σ' log := by
  -- the moved-from object has no head any more
  have hsource : ∀ x response' q, σ'.responses.get? x = some response' →
      response'.head = some q → x ≠ o := by
    rintro x response' q hx hq rfl
    obtain rfl : ({} : HttpResponse) = response' := by simpa [hresponses] using hx
    simp at hq
  refine h.moved hrequests (fun x => if x = o' then o else x) ?_ ?_
  · intro x x' response₁ response₂ q hx hx' hq hq' heq
    have hx₀ := hsource x response₁ q hx hq
    have hx₀' := hsource x' response₂ q hx' hq'
    by_cases h₁ : x = o' <;> by_cases h₂ : x' = o' <;> simp_all
  · intro x response' q hx hq
    have hx₀ := hsource x response' q hx hq
    by_cases h₁ : x = o'
    · obtain rfl : response = response' := by simpa [hresponses, hx₀, h₁, hne] using hx
      exact ⟨response, by simpa [h₁] using ho, hq, id⟩
    · exact ⟨response', by simpa [hresponses, hx₀, h₁] using hx, hq, id⟩

/-- Each act keeps the heads apart. -/
private theorem headInv_acts (hrefs : RefsInv σ) (h : HeadInv σ log) (hacts : Acts σ l σ') :
    HeadInv σ' log := by
  cases hacts with
  | acquired hfresh hacquired | unconnected hfresh hacquired | connecting hfresh hacquired =>
    have husers := (shrinks_of_acquired hacquired).users
    exact h.setRequest husers.responses (by rw [← husers.requests]; rfl) (by simp [hfresh])
  | connectFailed hphase | connected hphase | establishFailed hphase | establishedH2 hphase
  | establishedH1 hphase | requestFailed hphase =>
    exact h.setRequest rfl rfl (by simp [hphase])
  | responded hphase => exact headInv_responded h hphase rfl
  | bodyFull | closeFailed => exact h.of_responses rfl fun _ hq => hq
  | bodyDone _ hresponse _ hconsumed =>
    exact (headInv_consumed h hresponse hconsumed).of_responses rfl fun _ hq => hq
  | move hresponse =>
    exact headInv_handOver h hresponse (Nat.ne_of_gt (hrefs.lt_nextResponse hresponse)) rfl rfl
  | assignSelf => exact h
  | assign _ hresponse hne => exact headInv_handOver h hresponse hne rfl rfl
  | @drop o response hresponse =>
    refine h.moved rfl id (fun _ _ _ _ _ _ _ _ _ heq => heq) fun o' response' q ho' hq => ?_
    obtain ⟨-, ho'⟩ : _ ∧ σ.responses.get? o' = some response' := by simpa using ho'
    exact ⟨response', ho', hq, id⟩
  | closeAsync => exact h.shrinks (shrinks_closeFrom σ _ _)
  | closeResumed => exact h.shrinks (shrinks_closeResumed σ _ _ _)

/-- The hook that runs in a step has not run before, and cannot run again. -/
private theorem headInv_step (hrefs : RefsInv σ) (h : HeadInv σ log) (hstep : σ.step l = some σ') :
    HeadInv σ' (log ++ (hookCall σ l).toList) ∧ ∀ q, hookCall σ l = some q → q ∉ log := by
  obtain ⟨σ₁, hacts, rfl⟩ := acts_of_step hstep
  have hacts' : HeadInv σ₁.reap log := (headInv_acts hrefs h hacts).of_responses rfl fun _ hq => hq
  cases hcall : hookCall σ l with
  | none => exact ⟨by simpa using hacts', by simp⟩
  | some q =>
    -- only `body_full` runs a hook
    cases hacts with
    | @bodyDone c outcome dead o s response session σ₂ hrunning hresponse hsession hconsumed =>
      simp only [hookCall, hrunning, hresponse, Option.bind_some] at hcall
      split at hcall
      case isTrue => simp at hcall
      case isFalse hcond =>
        have hunread : response.bodyConsumed = false := by
          by_contra hc
          simp [hc] at hcond
        have hnew : q ∉ log := fun hmem => by
          simpa [hunread] using (h.logged q hmem).2 o response hresponse hcall
        obtain ⟨-, husers⟩ := (consumed_users hconsumed).resolve_left (by simp [hunread])
        refine ⟨⟨hacts'.finished, hacts'.unique, fun q' hq' => ?_⟩, fun q' hq' => ?_⟩
        · rcases List.mem_append.mp hq' with hold | hself
          · exact hacts'.logged q' hold
          · obtain rfl : q' = q := by simpa using hself
            refine ⟨?_, fun o' response' ho' hhead => ?_⟩
            · show σ₂.requests.get? q' = _
              rw [husers.requests]
              exact h.finished o response q' hresponse hcall
            · have ho' : σ₂.responses.get? o' = some response' := ho'
              rw [husers.responses] at ho'
              by_cases hne : o' = o
              · obtain rfl : { response with bodyConsumed := true } = response' := by
                  simpa [markConsumed, hne] using ho'
                rfl
              · exact absurd (h.unique o' o response' response q'
                  (by simpa [markConsumed, hne] using ho') hresponse hhead hcall) hne
        · obtain rfl := Option.some.inj hq'
          exact hnew
    | _ => simp [hookCall] at hcall

/-- In a run the hook is called once for each request. -/
private theorem nodup_hookCalls (hrefs : RefsInv σ) (h : HeadInv σ log) (hlog : log.Nodup)
    (ls : List ClientLabel) :
    (log ++ hookCalls σ ls).Nodup := by
  induction ls generalizing σ log with
  | nil => simpa [hookCalls] using hlog
  | cons l ls ih =>
    simp only [hookCalls]
    cases hstep : σ.step l with
    | none => simpa using hlog
    | some σ' =>
      obtain ⟨hσ', hnew⟩ := headInv_step hrefs h hstep
      have hnodup : (log ++ (hookCall σ l).toList).Nodup := by
        cases hcall : hookCall σ l with
        | none => simpa using hlog
        | some q =>
          refine List.nodup_append.mpr ⟨hlog, by simp, fun a ha b hb hab => hnew q hcall ?_⟩
          obtain rfl : b = q := by simpa using hb
          exact hab ▸ ha
      simpa using ih (refsInv_step hrefs hstep) hσ' hnodup

/-! ## Whole runs -/

theorem leaseInv_initial : LeaseInv HttpClient.initial where
  unique s hs := by
    obtain ⟨session, hs, -⟩ := hs
    simp [HttpClient.initial] at hs
  nodup key := by simp
  disjoint key key' s hs := by simp at hs
  length key := by simp

/-- Every step keeps the references and the leases of the client. -/
theorem leases_step (σ : HttpClient) (l : ClientLabel) (σ' : HttpClient)
    (h : RefsInv σ ∧ LeaseInv σ) (hstep : σ.step l = some σ') : RefsInv σ' ∧ LeaseInv σ' := by
  refine ⟨refsInv_step h.1 hstep, ?_⟩
  obtain ⟨σ₁, hacts, rfl⟩ := acts_of_step hstep
  exact (leaseInv_acts h.1 h.2 hacts).reap

private theorem leases_run {ls : List ClientLabel}
    (hrun : Run.run HttpClient.step HttpClient.initial ls = some σ) : RefsInv σ ∧ LeaseInv σ :=
  Run.stateInvariant_of_run leases_step ⟨refsInv_initial, leaseInv_initial⟩ hrun

/-- The queues of all entries together hold no session twice. -/
private theorem LeaseInv.nodup_queues (h : LeaseInv σ) :
    (σ.pool.toList.map fun entry => entry.2.h1Idle).flatten.Nodup := by
  have hgroup : ∀ entry ∈ σ.pool.toList, σ.group entry.1 = entry.2 := fun entry hmem =>
    OrderedMap.getD_of_mem_toList hmem {}
  refine List.nodup_flatten.mpr ⟨?_, ?_⟩
  · intro queue hqueue
    obtain ⟨entry, hmem, rfl⟩ := List.mem_map.mp hqueue
    rw [← hgroup entry hmem]
    exact h.nodup entry.1
  · refine List.pairwise_map.mpr (List.Pairwise.imp_of_mem ?_ Std.TreeMap.distinct_keys_toList)
    intro entry entry' hmem hmem' hne s hs hs'
    rw [← hgroup entry hmem] at hs
    rw [← hgroup entry' hmem'] at hs'
    exact hne (h.disjoint entry.1 entry'.1 s hs hs')

/-- In every state that a run reaches, no session is twice in the queues of idle sessions; each
    HTTP/1 session is idle, in use by one request or with one response whose body has not been
    consumed, and in one of these places only; no queue has more than 100 entries; and along the run
    no response has run its hook, which releases the session, more than once. -/
theorem exclusive_lease (ls : List ClientLabel) (σ : HttpClient)
    (hrun : Run.run HttpClient.step HttpClient.initial ls = some σ) :
    (σ.pool.toList.map fun entry => entry.2.h1Idle).flatten.Nodup ∧
      (∀ s, IsH1 σ s → ∀ p p', At σ s p → At σ s p' → p = p') ∧
      (∀ entry ∈ σ.pool.toList, entry.2.h1Idle.length ≤ 100) ∧
      (hookCalls HttpClient.initial ls).Nodup := by
  obtain ⟨-, hlease⟩ := leases_run hrun
  refine ⟨hlease.nodup_queues, hlease.unique, fun entry hmem => ?_, ?_⟩
  · have hgroup : σ.group entry.1 = entry.2 := OrderedMap.getD_of_mem_toList hmem {}
    rw [← hgroup]
    exact hlease.length entry.1
  · have hhead : HeadInv HttpClient.initial [] := by
      constructor <;> simp [HttpClient.initial]
    simpa using nodup_hookCalls refsInv_initial hhead List.nodup_nil ls

/-- Two requests after each other on one connection, with a repeated `body_full` and a move. -/
def twoLeases : List ClientLabel :=
  [.request 0 plainKey [] [] (some 5), .connected 0, .established 0 false, .responded 0 none,
    .move 0, .bodyFull 0 1, .bodyFull 1 1, .bodyDone 0 .complete [], .bodyDone 1 .complete [],
    .request 1 plainKey [] [] none, .responded 1 none]

theorem exclusive_lease_twoLeases :
    ∃ σ, Run.run HttpClient.step HttpClient.initial twoLeases = some σ ∧ IsH1 σ 0 ∧
      At σ 0 (.response 2) ∧ (∀ p, At σ 0 p → p = .response 2) ∧
      hookCalls HttpClient.initial twoLeases = [0] := by
  have hrun : ∃ σ, Run.run HttpClient.step HttpClient.initial twoLeases = some σ ∧
      σ.sessions.get? 0 = some ⟨.http11, plainKey, 5⟩ ∧
      σ.responses.get? 2 = some ⟨some 0, some plainKey, false, some 1, none⟩ := ⟨_, rfl, rfl, rfl⟩
  obtain ⟨σ, hrun, hsession, hresponse⟩ := hrun
  have hh1 : IsH1 σ 0 := ⟨_, hsession, rfl⟩
  have hat : At σ 0 (.response 2) := ⟨_, hresponse, rfl, rfl⟩
  exact ⟨σ, hrun, hh1, hat, fun p hp => (exclusive_lease _ σ hrun).2.1 0 hh1 p _ hp hat, by decide⟩

end Ppnt.Spec
