import Ppnt.Spec.ClientRefs

/-!
# Sessions, descriptors, requests and responses in a step

What a step of the client can do to one session, one descriptor, one request and one response.
-/

namespace Ppnt.Spec

open Ppnt.Native

variable {o : ResponseId} {response : HttpResponse} {s : SessionId} {q : RequestId}

section Acts

variable {σ σ₁ : HttpClient} {l : ClientLabel}

/-- Only the return of `session_connect` creates a session, which is that of its request. -/
theorem acts_opens (hacts : Acts σ l σ₁) :
    (l.opensSession = false ∧ σ₁.sessions = σ.sessions ∧ σ₁.nextSession = σ.nextSession) ∨
      ∃ q useH2 key cleared d, l = .established q useH2 ∧
        σ.requests.get? q = some (.establishing key cleared d) ∧
        σ₁.sessions = σ.sessions.set σ.nextSession ⟨if useH2 then .http2 else .http11, key, d⟩ ∧
        σ₁.nextSession = σ.nextSession + 1 ∧
        σ₁.requests.get? q = some (.exchanging key σ.nextSession) := by
  cases hacts with
  | acquired _ hacquired | unconnected _ hacquired | connecting _ hacquired =>
    obtain ⟨hsessions, hnext, -⟩ := (shrinks_of_acquired hacquired).users
    exact .inl ⟨rfl, hsessions, hnext⟩
  | @establishedH2 q key cleared d hphase =>
    exact .inr ⟨q, true, key, cleared, d, rfl, hphase, rfl, rfl, by simp⟩
  | @establishedH1 q key cleared d hphase =>
    exact .inr ⟨q, false, key, cleared, d, rfl, hphase, rfl, rfl, by simp⟩
  | bodyDone _ _ _ hconsumed =>
    rcases consumed_users hconsumed with ⟨-, husers⟩ | ⟨-, husers⟩
    all_goals exact .inl ⟨rfl, husers.sessions, husers.nextSession⟩
  | closeAsync =>
    obtain ⟨hsessions, hnext, -⟩ := (shrinks_closeFrom σ _ _).users
    exact .inl ⟨rfl, hsessions, hnext⟩
  | closeResumed =>
    obtain ⟨hsessions, hnext, -⟩ := (shrinks_closeResumed σ _ _ _).users
    exact .inl ⟨rfl, hsessions, hnext⟩
  | _ => exact .inl ⟨rfl, rfl, rfl⟩

/-- A step creates sessions but changes none. -/
theorem acts_sessions (hrefs : RefsInv σ) (hacts : Acts σ l σ₁) {session : AnySession}
    (hs : σ.sessions.get? s = some session) : σ₁.sessions.get? s = some session := by
  rcases acts_opens hacts with ⟨-, hsame, -⟩ | ⟨q, useH2, key, cleared, d, -, -, hset, -⟩
  · rwa [hsame]
  · have hold : s ≠ σ.nextSession := by
      rintro rfl
      simp [hrefs.sessions _ le_rfl] at hs
    rwa [hset, Store.get?_set, if_neg hold]

/-- A session that existed has the version it had. -/
theorem IsH1.before (hrefs : RefsInv σ) (hacts : Acts σ l σ₁) (hexists : σ.sessions.get? s ≠ none)
    (hh1 : IsH1 σ₁.reap s) : IsH1 σ s := by
  obtain ⟨session, hs⟩ := Option.ne_none_iff_exists'.mp hexists
  obtain ⟨session₁, hs₁, hversion⟩ := hh1
  rw [reap_sessions, acts_sessions hrefs hacts hs] at hs₁
  split at hs₁
  · obtain rfl := Option.some.inj hs₁
    exact ⟨session, hs, hversion⟩
  · simp at hs₁

/-- What a step does to the descriptors: `TcpStream::connect` opens one, others are closed. -/
theorem acts_sockets (hacts : Acts σ l σ₁) (d : SocketId) :
    σ₁.sockets d = σ.sockets d ∨ σ₁.sockets d = .closed ∨
      (σ.sockets d = .unused ∧
        ∃ q key cleared, σ₁.requests.get? q = some (.connecting key cleared d)) := by
  cases hacts with
  | acquired _ hacquired | unconnected _ hacquired =>
    exact ((shrinks_of_acquired hacquired).sockets d).imp_right .inl
  | @connecting q key _ _ d' σ' _ hacquired hunused =>
    by_cases hd : d = d'
    · refine .inr (.inr ⟨hd ▸ hunused, q, key, σ.cleared, ?_⟩)
      simp [hd]
    · have hother := (shrinks_of_acquired hacquired).sockets d
      simp only [HttpClient.setRequest, HttpClient.setSocket, Function.update_of_ne hd]
      exact hother.imp_right .inl
  | @connectFailed q key cleared d' =>
    by_cases hd : d = d'
    · exact .inr (.inl (by simp [hd]))
    · exact .inl (by simp [hd])
  | bodyDone _ _ _ hconsumed => exact (consumed_sockets hconsumed d).imp_right .inl
  | closeAsync => exact ((shrinks_closeFrom σ _ _).sockets d).imp_right .inl
  | closeResumed => exact ((shrinks_closeResumed σ _ _ _).sockets d).imp_right .inl
  | _ => exact .inl rfl

/-- The session of a connection that is ready: its request had the descriptor and has it no more. -/
theorem acts_handover (hacts : Acts σ l σ₁) {session : AnySession}
    (hs : σ₁.sessions.get? s = some session) :
    σ.sessions.get? s = some session ∨
      (s = σ.nextSession ∧ ∃ q phase, σ.requests.get? q = some phase ∧
        phase.socket? = some session.socket ∧
        ∀ phase₁, σ₁.requests.get? q = some phase₁ → phase₁.socket? = none) := by
  rcases acts_opens hacts with ⟨-, hsame, -⟩ | ⟨q, useH2, key, cleared, d, -, hphase, hset, -, hq⟩
  · exact .inl (hsame ▸ hs)
  · rw [hset, Store.get?_set] at hs
    split at hs
    case isTrue heq =>
      obtain rfl := Option.some.inj hs
      refine .inr ⟨heq, q, _, hphase, rfl, fun phase₁ hq₁ => ?_⟩
      obtain rfl := Option.some.inj (hq.symm.trans hq₁)
      rfl
    case isFalse => exact .inl hs

end Acts

/-- What a step does to the request `q`: the coroutine of `HttpClient::request` as an automaton,
    with what becomes of the descriptor of a request that has no session yet. -/
inductive PhaseStep (σ σ₁ : HttpClient) (q : RequestId) :
    ClientLabel → Option ExchangePhase → Option ExchangePhase → Prop
  | same (l phase) : PhaseStep σ σ₁ q l phase phase
  | acquired (key dead dead' socket s) :
      PhaseStep σ σ₁ q (.request q key dead dead' socket) none (some (.exchanging key s))
  | unconnected (key dead dead') :
      PhaseStep σ σ₁ q (.request q key dead dead' none) none (some .finished)
  | connecting (key dead dead' cleared d) (hunused : σ.sockets d = .unused)
      (hopen : σ₁.sockets d = .opened) (hgroup : (σ₁.group key).h2Session = none) :
      PhaseStep σ σ₁ q (.request q key dead dead' (some d)) none (some (.connecting key cleared d))
  | connectFailed (key cleared d) (hclosed : σ₁.sockets d = .closed) :
      PhaseStep σ σ₁ q (.connectFailed q) (some (.connecting key cleared d)) (some .finished)
  | connected (key cleared d) : PhaseStep σ σ₁ q (.connected q) (some (.connecting key cleared d))
      (some (.establishing key cleared d))
  | establishFailed (key cleared d) :
      PhaseStep σ σ₁ q (.establishFailed q) (some (.establishing key cleared d)) (some .finished)
  | established (useH2 version key cleared d s)
      (hsession : σ₁.sessions.get? s = some ⟨version, key, d⟩) :
      PhaseStep σ σ₁ q (.established q useH2) (some (.establishing key cleared d))
        (some (.exchanging key s))
  | done (l key s) : PhaseStep σ σ₁ q l (some (.exchanging key s)) (some .finished)

/-- Every request but one is as before. -/
private theorem phaseStep_of_set {σ σ₁ : HttpClient} {l : ClientLabel} {old : Option ExchangePhase}
    {phase : ExchangePhase} (hold : σ.requests.get? q = old)
    (hset : σ₁.requests = σ.requests.set q phase) (hself : PhaseStep σ σ₁ q l old (some phase))
    (q' : RequestId) : PhaseStep σ σ₁ q' l (σ.requests.get? q') (σ₁.requests.get? q') := by
  rw [hset, Store.get?_set]
  split
  case isTrue heq =>
    subst heq
    rw [hold]
    exact hself
  case isFalse => exact .same _ _

/-- `acquire_session` does not touch the requests. -/
private theorem set_of_acquired {σ : HttpClient} {key : SessionKey} {dead dead' : List SessionId}
    {result : HttpClient × Option SessionId} (hacquired : Acquired σ key dead dead' result)
    (q : RequestId) (phase : ExchangePhase) :
    result.1.requests.set q phase = σ.requests.set q phase := by
  rw [(shrinks_of_acquired hacquired).users.requests]

/-- The coroutine of `HttpClient::request` as an automaton. -/
theorem acts_phases {σ σ₁ : HttpClient} {l : ClientLabel} (hacts : Acts σ l σ₁)
    (q : RequestId) : PhaseStep σ σ₁ q l (σ.requests.get? q) (σ₁.requests.get? q) := by
  cases hacts with
  | @acquired q₀ key _ _ _ s σ' hfresh hacquired =>
    exact phaseStep_of_set hfresh (set_of_acquired hacquired q₀ _) (.acquired _ _ _ _ s) q
  | @unconnected q₀ _ _ _ σ' hfresh hacquired =>
    exact phaseStep_of_set hfresh (set_of_acquired hacquired q₀ _) (.unconnected _ _ _) q
  | @connecting q₀ key _ _ d σ' hfresh hacquired hunused =>
    refine phaseStep_of_set hfresh (set_of_acquired hacquired q₀ (.connecting key σ.cleared d))
      (.connecting key _ _ _ d hunused (by simp) ?_) q
    -- it has found no session to use
    show (σ'.group key).h2Session = none
    cases hacquired with
    | none => rw [group_setGroup, if_pos Std.ReflCmp.compare_self]
  | connectFailed hphase => exact phaseStep_of_set hphase rfl (.connectFailed _ _ _ (by simp)) q
  | connected hphase => exact phaseStep_of_set hphase rfl (.connected _ _ _) q
  | establishFailed hphase => exact phaseStep_of_set hphase rfl (.establishFailed _ _ _) q
  | establishedH2 hphase =>
    exact phaseStep_of_set hphase rfl
      (.established true .http2 _ _ _ _ (by simp [HttpClient.setGroup])) q
  | establishedH1 hphase =>
    exact phaseStep_of_set hphase rfl (.established false .http11 _ _ _ _ (by simp)) q
  | requestFailed hphase | responded hphase => exact phaseStep_of_set hphase rfl (.done _ _ _) q
  | @bodyDone c _ _ _ _ _ _ σ' _ _ _ hconsumed =>
    have hrequests : (σ'.setCall c .finished).requests = σ.requests := by
      rcases consumed_users hconsumed with ⟨-, husers⟩ | ⟨-, husers⟩ <;> exact husers.requests
    rw [hrequests]
    exact .same _ _
  | closeAsync =>
    rw [(shrinks_closeFrom σ _ _).users.requests]
    exact .same _ _
  | closeResumed =>
    rw [(shrinks_closeResumed σ _ _ _).users.requests]
    exact .same _ _
  | _ => exact .same _ _

/-! ## Idle sessions and responses -/

section Holders

variable {σ σ₁ : HttpClient} {l : ClientLabel}

/-- A session becomes idle when the first `body_full` on its response returns. -/
theorem acts_idle (hacts : Acts σ l σ₁) {key : SessionKey} (hs : s ∈ (σ₁.group key).h1Idle) :
    s ∈ (σ.group key).h1Idle ∨
      ∃ c outcome dead o s₀ response, l = .bodyDone c outcome dead ∧
        σ.calls c = some (.running o s₀) ∧ σ.responses.get? o = some response ∧
        response.bodyConsumed = false ∧ response.session = some s ∧
        response.bodyConsumedHook ≠ none ∧ outcome ≠ .failed ∧ σ.isValid dead s = true := by
  cases hacts with
  | acquired _ hacquired | unconnected _ hacquired | connecting _ hacquired =>
    exact .inl (((shrinks_of_acquired hacquired).h1Idle key).subset hs)
  | @establishedH2 q key₀ cleared d hphase =>
    have hidle := h1Idle_setGroup (σ.newSession ⟨.http2, key₀, d⟩) key₀ key
      (g := { σ.group key₀ with h2Session := some σ.nextSession }) rfl
    exact .inl (hidle ▸ hs)
  | @bodyDone c outcome dead o s₀ response session σ' hcall hresponse _ hconsumed =>
    have hs : s ∈ (σ'.group key).h1Idle := hs
    cases hconsumed with
    | again => exact .inl hs
    | kept => exact .inl hs
    -- the session is put behind the idle ones of its group
    | pooled key₀ s' hunread hhook hsession hsuccess hvalid =>
      rw [group_setGroup] at hs
      split at hs
      case isFalse => exact .inl hs
      case isTrue hcmp =>
        rcases List.mem_append.mp hs with hold | hnew
        · exact .inl (group_congr σ hcmp ▸ hold)
        · obtain rfl := List.mem_singleton.mp hnew
          exact .inr ⟨c, outcome, dead, o, s₀, response, rfl, hcall, hresponse, hunread, hsession,
            by simp [hhook], by simpa using hsuccess, hvalid⟩
    | closed key₀ s' σ₂ _ _ _ hsame =>
      rw [group_close] at hs
      rcases hsame with rfl | rfl
      · exact .inl hs
      · have hidle := h1Idle_setGroup (markConsumed σ o response) key₀ key (g := σ.group key₀) rfl
        exact .inl (hidle ▸ hs)
  | closeAsync => exact .inl (((shrinks_closeFrom σ _ _).h1Idle key).subset hs)
  | closeResumed => exact .inl (((shrinks_closeResumed σ _ _ _).h1Idle key).subset hs)
  | _ => exact .inl hs

/-- A response was there with its session and its head, maybe in another object and maybe with its
    body unread. -/
def WasHeld (σ : HttpClient) (response : HttpResponse) (s : SessionId) : Prop :=
  ∃ o₀ response₀, σ.responses.get? o₀ = some response₀ ∧ response₀.session = some s ∧
    response₀.head = response.head ∧
    (response.bodyConsumed = false → response₀.bodyConsumed = false)

/-- Where a response with a session comes from: it was there, or it is new. -/
theorem acts_response (hacts : Acts σ l σ₁) (ho : σ₁.responses.get? o = some response)
    (hs : response.session = some s) :
    WasHeld σ response s ∨
      ∃ q id key, l = .responded q id ∧ σ.requests.get? q = some (.exchanging key s) ∧
        response.head = some q := by
  have hsame : σ.responses.get? o = some response → WasHeld σ response s :=
    fun ho => ⟨o, response, ho, hs, rfl, id⟩
  have hmarked : ∀ {o₀ : ResponseId} {response₀ : HttpResponse},
      σ.responses.get? o₀ = some response₀ →
      (markConsumed σ o₀ response₀).responses.get? o = some response → WasHeld σ response s := by
    intro o₀ response₀ ho₀ hget
    by_cases hne : o = o₀
    · obtain rfl : _ = response := by simpa [markConsumed, hne] using hget
      exact ⟨o₀, response₀, ho₀, hs, rfl, by simp⟩
    · exact hsame (by simpa [markConsumed, hne] using hget)
  cases hacts with
  | acquired _ hacquired =>
    exact .inl (hsame ((shrinks_of_acquired hacquired).users.responses ▸ ho))
  | unconnected _ hacquired | connecting _ hacquired =>
    exact .inl (hsame ((shrinks_of_acquired hacquired).users.responses ▸ ho))
  | @responded q key s₀ session id hphase hsession =>
    by_cases hne : o = σ.nextResponse
    · obtain rfl : _ = response := by simpa [hne] using ho
      obtain rfl := Option.some.inj hs
      exact .inr ⟨q, id, key, rfl, hphase, rfl⟩
    · exact .inl (hsame (by simpa [hne] using ho))
  | @bodyDone c outcome dead o₀ s₀ response₀ session σ' hcall hresponse _ hconsumed =>
    have ho : σ'.responses.get? o = some response := ho
    left
    rcases consumed_users hconsumed with ⟨-, husers⟩ | ⟨-, husers⟩
    · exact hsame (husers.responses ▸ ho)
    · exact hmarked hresponse (husers.responses ▸ ho)
  | @move o₀ response₀ hresponse =>
    left
    by_cases hold : o = o₀
    · obtain rfl : _ = response := by simpa [hold] using ho
      simp at hs
    · by_cases hnew : o = σ.nextResponse
      · have hne : σ.nextResponse ≠ o₀ := hnew ▸ hold
        obtain rfl : response₀ = response := by simpa [hnew, hne] using ho
        exact ⟨o₀, response₀, hresponse, hs, rfl, id⟩
      · exact hsame (by simpa [hold, hnew] using ho)
  | @assign target source old response₀ _ hresponse hne =>
    left
    by_cases hsource : o = source
    · obtain rfl : _ = response := by simpa [hsource] using ho
      simp at hs
    · by_cases htarget : o = target
      · obtain rfl : response₀ = response := by simpa [hsource, htarget, hne] using ho
        exact ⟨source, response₀, hresponse, hs, rfl, id⟩
      · exact hsame (by simpa [hsource, htarget] using ho)
  | drop =>
    obtain ⟨-, ho⟩ : _ ∧ σ.responses.get? o = some response := by simpa using ho
    exact .inl (hsame ho)
  | closeAsync => exact .inl (hsame ((shrinks_closeFrom σ _ _).users.responses ▸ ho))
  | closeResumed => exact .inl (hsame ((shrinks_closeResumed σ _ _ _).users.responses ▸ ho))
  | _ => exact .inl (hsame ho)

/-- The labels that can give a request its session. -/
def Begins (q : RequestId) : ClientLabel → Prop
  | .request q' _ _ _ _ | .established q' _ => q' = q
  | _ => False

theorem Begins.unique {q' : RequestId} (h : Begins q l) (h' : Begins q' l) : q = q' := by
  cases l with
  | request | established => exact h.symm.trans h'
  | _ => exact h.elim

/-- A request gets a session from the pool or from its own connection. -/
theorem acts_exchanging (hacts : Acts σ l σ₁) {key : SessionKey}
    (hq : σ₁.requests.get? q = some (.exchanging key s)) :
    σ.requests.get? q = some (.exchanging key s) ∨ Begins q l := by
  have hphase := acts_phases hacts q
  rw [hq] at hphase
  generalize σ.requests.get? q = old at hphase ⊢
  cases hphase with
  | same => exact .inl rfl
  | acquired | established => exact .inr rfl

/-- The labels that change a response that exists. -/
def Touches (σ : HttpClient) (o : ResponseId) : ClientLabel → Prop
  | .move o' | .drop o' => o' = o
  | .assign target source => target = o ∨ source = o
  | .bodyDone c _ _ => ∃ s, σ.calls c = some (.running o s)
  | _ => False

/-- A step leaves a response that it does not touch. -/
theorem acts_untouched (hrefs : RefsInv σ) (hacts : Acts σ l σ₁)
    (ho : σ.responses.get? o = some response) (hnot : ¬Touches σ o l) :
    σ₁.responses.get? o = some response := by
  -- a new response gets a new object
  have hold : o ≠ σ.nextResponse := Nat.ne_of_lt (hrefs.lt_nextResponse ho)
  cases hacts with
  | acquired _ hacquired | unconnected _ hacquired | connecting _ hacquired =>
    exact (shrinks_of_acquired hacquired).users.responses ▸ ho
  | responded => simpa [hold] using ho
  | @bodyDone c outcome dead o₀ s₀ response₀ session σ' hcall _ _ hconsumed =>
    have hne : o ≠ o₀ := by
      rintro rfl
      exact hnot ⟨s₀, hcall⟩
    have hmark : (markConsumed σ o₀ response₀).responses.get? o = some response := by
      simpa [markConsumed, hne] using ho
    show σ'.responses.get? o = some response
    rcases consumed_users hconsumed with ⟨-, husers⟩ | ⟨-, husers⟩
    · exact husers.responses ▸ ho
    · exact husers.responses ▸ hmark
  | @move o₀ response₀ =>
    have hne : o ≠ o₀ := fun heq => hnot heq.symm
    simpa [hne, hold] using ho
  | @assign target source =>
    have htarget : o ≠ target := fun heq => hnot (.inl heq.symm)
    have hsource : o ≠ source := fun heq => hnot (.inr heq.symm)
    simpa [htarget, hsource] using ho
  | @drop o₀ =>
    have hne : o ≠ o₀ := fun heq => hnot heq.symm
    simpa [hne] using ho
  | closeAsync => exact (shrinks_closeFrom σ _ _).users.responses ▸ ho
  | closeResumed => exact (shrinks_closeResumed σ _ _ _).users.responses ▸ ho
  | _ => exact ho

/-- The calls of `body_full` behind a step. -/
theorem acts_calls (hacts : Acts σ l σ₁) (c : CallId) :
    σ₁.calls c = σ.calls c ∨
      (∃ o response s, l = .bodyFull c o ∧ σ.calls c = none ∧
        σ.responses.get? o = some response ∧ response.session = some s ∧
        σ₁.calls c = some (.running o s)) ∨
      ∃ outcome dead, l = .bodyDone c outcome dead ∧ σ₁.calls c = some .finished := by
  cases hacts with
  | acquired _ hacquired | unconnected _ hacquired | connecting _ hacquired =>
    exact .inl (congrFun (shrinks_of_acquired hacquired).users.calls c)
  | @bodyFull c₀ o response s hfresh hresponse hsession =>
    by_cases hne : c = c₀
    · subst hne
      exact .inr (.inl ⟨o, response, s, rfl, hfresh, hresponse, hsession, by simp⟩)
    · exact .inl (by simp [hne])
  | @bodyDone c₀ outcome dead o₀ s₀ response₀ session σ' _ _ _ hconsumed =>
    by_cases hne : c = c₀
    · subst hne
      exact .inr (.inr ⟨outcome, dead, rfl, by simp⟩)
    · have hcalls : σ'.calls = σ.calls := by
        rcases consumed_users hconsumed with ⟨-, husers⟩ | ⟨-, husers⟩
        all_goals exact husers.calls
      exact .inl (by simp [hne, hcalls])
  | closeAsync => exact .inl (congrFun (shrinks_closeFrom σ _ _).users.calls c)
  | closeResumed => exact .inl (congrFun (shrinks_closeResumed σ _ _ _).users.calls c)
  | _ => exact .inl rfl

end Holders

/-! ## Descriptors have been opened -/

structure UsedInv (σ : HttpClient) : Prop where
  session : ∀ s session, σ.sessions.get? s = some session → σ.sockets session.socket ≠ .unused
  request : ∀ q phase d, σ.requests.get? q = some phase → phase.socket? = some d →
    σ.sockets d ≠ .unused

section Used

variable {σ σ₁ : HttpClient} {l : ClientLabel}

/-- A descriptor that has been opened is open or closed. -/
private theorem used_acts (hacts : Acts σ l σ₁) {d : SocketId} (hd : σ.sockets d ≠ .unused) :
    σ₁.reap.sockets d ≠ .unused := by
  show (if σ₁.ClosedByDestructor d then SocketState.closed else σ₁.sockets d) ≠ .unused
  split
  case isTrue => simp
  case isFalse =>
    rcases acts_sockets hacts d with hsame | hclosed | ⟨hunused, -⟩
    · rwa [hsame]
    · simp [hclosed]
    · exact absurd hunused hd

/-- Each step keeps `UsedInv`. -/
private theorem usedInv_acts (h : UsedInv σ) (hacts : Acts σ l σ₁) : UsedInv σ₁.reap where
  session s session hs := by
    obtain ⟨hs, -⟩ := mem_of_reap hs
    rcases acts_handover hacts hs with hold | ⟨-, q, phase, hq, hd, -⟩
    · exact used_acts hacts (h.session s session hold)
    · exact used_acts hacts (h.request q phase _ hq hd)
  request q phase d hq hd := by
    have hphase := acts_phases hacts q
    have hq₁ : σ₁.requests.get? q = some phase := hq
    rw [hq₁] at hphase
    generalize hq₀ : σ.requests.get? q = phase₀ at hphase
    cases hphase with
    | same => exact used_acts hacts (h.request q phase d hq₀ hd)
    | connecting key _ _ cleared d' _ hopen =>
      obtain rfl := Option.some.inj hd
      show (if σ₁.ClosedByDestructor d' then SocketState.closed else σ₁.sockets d') ≠ .unused
      rw [hopen]
      split <;> simp
    | connected => exact used_acts hacts (h.request q _ d hq₀ hd)
    | _ => simp [ExchangePhase.socket?] at hd

/-- A session or a request only has a descriptor that has been opened. -/
theorem usedInv_step {σ' : HttpClient} (h : UsedInv σ) (hstep : σ.step l = some σ') :
    UsedInv σ' := by
  obtain ⟨σ₁, hacts, rfl⟩ := acts_of_step hstep
  exact usedInv_acts h hacts

theorem usedInv_initial : UsedInv HttpClient.initial where
  session s session hs := by simp [HttpClient.initial] at hs
  request q phase d hq := by simp [HttpClient.initial] at hq

end Used

/-! ## Descriptors are not shared -/

/-- A descriptor belongs to one session, or to one request that is connecting. -/
structure SocketsApart (σ : HttpClient) : Prop where
  session : ∀ s s' session session', σ.sessions.get? s = some session →
    σ.sessions.get? s' = some session' → session.socket = session'.socket → s = s'
  request : ∀ q q' phase phase' d, σ.requests.get? q = some phase →
    σ.requests.get? q' = some phase' → phase.socket? = some d → phase'.socket? = some d → q = q'
  apart : ∀ s q session phase, σ.sessions.get? s = some session → σ.requests.get? q = some phase →
    phase.socket? ≠ some session.socket

section Apart

variable {σ σ₁ : HttpClient} {l : ClientLabel}

/-- Where the descriptor of a request comes from. -/
private theorem acts_requestSocket (hacts : Acts σ l σ₁) {phase : ExchangePhase} {d : SocketId}
    (hq : σ₁.requests.get? q = some phase) (hd : phase.socket? = some d) :
    (∃ phase₀, σ.requests.get? q = some phase₀ ∧ phase₀.socket? = some d) ∨
      (σ.sockets d = .unused ∧ ∃ key dead dead' socket, l = .request q key dead dead' socket) := by
  have hphase := acts_phases hacts q
  rw [hq] at hphase
  generalize σ.requests.get? q = old at hphase ⊢
  cases hphase with
  | same => exact .inl ⟨phase, rfl, hd⟩
  | connecting key dead dead' cleared d' hunused =>
    obtain rfl := Option.some.inj hd
    exact .inr ⟨hunused, key, dead, dead', some d', rfl⟩
  | connected key cleared d' => exact .inl ⟨.connecting key cleared d', rfl, hd⟩
  | _ => simp [ExchangePhase.socket?] at hd

/-- No two of them have the same one. -/
theorem socketsApart_acts (hused : UsedInv σ) (h : SocketsApart σ) (hacts : Acts σ l σ₁) :
    SocketsApart σ₁ := by
  constructor
  case session =>
    intro s s' session session' hs hs' hsocket
    rcases acts_handover hacts hs with hold | ⟨rfl, q, phase, hq, hd, -⟩
    · rcases acts_handover hacts hs' with hold' | ⟨-, q, phase, hq, hd, -⟩
      · exact h.session s s' session session' hold hold' hsocket
      · exact absurd (hsocket ▸ hd) (h.apart s q session phase hold hq)
    · rcases acts_handover hacts hs' with hold' | ⟨rfl, -⟩
      · exact absurd (hsocket ▸ hd) (h.apart s' q session' phase hold' hq)
      · rfl
  case request =>
    intro q q' phase phase' d hq hq' hd hd'
    rcases acts_requestSocket hacts hq hd with ⟨phase₀, hq₀, hd₀⟩ | ⟨hunused, _, _, _, _, rfl⟩
    · rcases acts_requestSocket hacts hq' hd' with ⟨phase₀', hq₀', hd₀'⟩ | ⟨hunused, -⟩
      · exact h.request q q' phase₀ phase₀' d hq₀ hq₀' hd₀ hd₀'
      · exact absurd hunused (hused.request q phase₀ d hq₀ hd₀)
    · rcases acts_requestSocket hacts hq' hd' with ⟨phase₀', hq₀', hd₀'⟩ | ⟨-, _, _, _, _, hl⟩
      · exact absurd hunused (hused.request q' phase₀' d hq₀' hd₀')
      · exact (ClientLabel.request.inj hl).1
  case apart =>
    intro s q session phase hs hq hd
    rcases acts_requestSocket hacts hq hd with ⟨phase₀, hq₀, hd₀⟩ | ⟨hunused, -⟩
    · rcases acts_handover hacts hs with hold | ⟨-, q', phase', hq', hd', hgone⟩
      · exact h.apart s q session phase₀ hold hq₀ hd₀
      · -- the request that had the descriptor has it no more
        obtain rfl := h.request q q' phase₀ phase' _ hq₀ hq' hd₀ hd'
        simp [hgone phase hq] at hd
    · rcases acts_handover hacts hs with hold | ⟨-, q', phase', hq', hd', -⟩
      · exact hused.session s session hold hunused
      · exact hused.request q' phase' _ hq' hd' hunused

theorem SocketsApart.reap (h : SocketsApart σ) : SocketsApart σ.reap := by
  exact ⟨fun s s' session session' hs hs' =>
    h.session s s' session session' (mem_of_reap hs).1 (mem_of_reap hs').1, h.request,
    fun s q session phase hs => h.apart s q session phase (mem_of_reap hs).1⟩

theorem socketsApart_initial : SocketsApart HttpClient.initial where
  session s s' session session' hs := by simp [HttpClient.initial] at hs
  request q q' phase phase' d hq := by simp [HttpClient.initial] at hq
  apart s q session phase hs := by simp [HttpClient.initial] at hs

end Apart

end Ppnt.Spec
