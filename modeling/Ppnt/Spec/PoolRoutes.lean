import Ppnt.Native.RoutedClient
import Ppnt.Spec.ClientSockets
import Ppnt.Spec.SessionRoute

/-!
# Routes of pooled sessions

`session_connect` opens a session for the key of the request that connects, and the pool gives it to
every request whose key compares equal.  The comparison does not look at the CONNECT headers of a
proxy (`cmp_eq_iff`), so the session has the key of the request if keys that differ in them are not
mixed (`SameHeaders`).  The route is read off the calls that were made when the session was opened
(`OpenedFor`): it is that of the key if a proxy is asked for the host and the port of the key
(`NamesTargets`) and reads the whole request (`WholeConnect`).
-/

namespace Ppnt.Spec

open Ppnt.Native Spans

/-- The key of a request. -/
def labelKey : ClientLabel → Option SessionKey
  | .request _ key _ _ _ => some key
  | _ => none

/-! ## Sessions have a key that compares equal -/

structure RouteInv (σ : HttpClient) : Prop where
  group : ∀ key s session, (σ.group key).Holds s → σ.sessions.get? s = some session →
    SessionKey.cmp key session.sessionKey = .eq
  request : ∀ q key s session, σ.requests.get? q = some (.exchanging key s) →
    σ.sessions.get? s = some session → SessionKey.cmp key session.sessionKey = .eq
  response : ∀ o response key s session, σ.responses.get? o = some response →
    response.bodyConsumedHook = some key → response.session = some s →
    σ.sessions.get? s = some session → SessionKey.cmp key session.sessionKey = .eq

variable {q : RequestId} {key : SessionKey} {o : ResponseId} {response : HttpResponse}
  {dead : List SessionId} {s : SessionId} {session : AnySession} {l : ClientLabel}
  {keys : List SessionKey}

section Updates

variable {σ σ' : HttpClient} (h : RouteInv σ)

include h

private theorem RouteInv.shrinks (hshrinks : Shrinks σ σ') : RouteInv σ' where
  group key s session hs hsession := by
    rw [hshrinks.users.sessions] at hsession
    refine h.group key s session ?_ hsession
    rcases hs with h2 | h1
    · rcases hshrinks.h2Session key with hnone | hsame
      · simp [hnone] at h2
      · exact .inl (hsame ▸ h2)
    · exact .inr ((hshrinks.h1Idle key).subset h1)
  request q key s session hq hsession :=
    h.request q key s session (hshrinks.users.requests ▸ hq) (hshrinks.users.sessions ▸ hsession)
  response o response key s session ho hkey hs hsession :=
    h.response o response key s session (hshrinks.users.responses ▸ ho) hkey hs
      (hshrinks.users.sessions ▸ hsession)

private theorem RouteInv.setSocket (d : SocketId) (state : SocketState) :
    RouteInv (σ.setSocket d state) :=
  ⟨h.group, h.request, h.response⟩

private theorem RouteInv.setRequest {phase : ExchangePhase}
    (hphase : ∀ key s session, phase = .exchanging key s → σ.sessions.get? s = some session →
      SessionKey.cmp key session.sessionKey = .eq) :
    RouteInv (σ.setRequest q phase) where
  group := h.group
  request q' key s session hq hsession := by
    by_cases hne : q' = q
    · exact hphase key s session (by simpa [hne] using hq) hsession
    · exact h.request q' key s session (by simpa [hne] using hq) hsession
  response := h.response

private theorem RouteInv.setGroup {g : HostGroup}
    (hgroup : ∀ s session, g.Holds s → σ.sessions.get? s = some session →
      SessionKey.cmp key session.sessionKey = .eq) :
    RouteInv (σ.setGroup key g) where
  group key' s session hs hsession := by
    rw [group_setGroup] at hs
    split at hs
    case isTrue hcmp =>
      exact Std.TransCmp.eq_trans (Std.OrientedCmp.eq_symm hcmp) (hgroup s session hs hsession)
    case isFalse => exact h.group key' s session hs hsession
  request := h.request
  response := h.response

private theorem RouteInv.setResponse
    (hresponse : ∀ key s session, response.bodyConsumedHook = some key →
      response.session = some s → σ.sessions.get? s = some session →
      SessionKey.cmp key session.sessionKey = .eq) :
    RouteInv (σ.setResponse o response) where
  group := h.group
  request := h.request
  response o' response' key s session ho hkey hs hsession := by
    by_cases hne : o' = o
    · obtain rfl : response = response' := by simpa [hne] using ho
      exact hresponse key s session hkey hs hsession
    · exact h.response o' response' key s session (by simpa [hne] using ho) hkey hs hsession

private theorem RouteInv.newResponse
    (hresponse : ∀ key s session, response.bodyConsumedHook = some key →
      response.session = some s → σ.sessions.get? s = some session →
      SessionKey.cmp key session.sessionKey = .eq) :
    RouteInv (σ.newResponse response) :=
  let hset := h.setResponse (o := σ.nextResponse) hresponse
  ⟨hset.group, hset.request, hset.response⟩

/-- Nothing refers to a new session. -/
private theorem RouteInv.newSession (hrefs : RefsInv σ) (session : AnySession) :
    RouteInv (σ.newSession session) := by
  have hold : ∀ s session', σ.sessions.get? s ≠ none →
      (σ.newSession session).sessions.get? s = some session' →
      σ.sessions.get? s = some session' := by
    intro s session' hs hget
    have hne : s ≠ σ.nextSession := fun heq => hs (heq ▸ hrefs.sessions _ le_rfl)
    simpa [hne] using hget
  constructor
  case group =>
    intro key s session' hs hget
    refine h.group key s session' hs (hold s session' ?_ hget)
    rcases hs with h2 | h1
    · obtain ⟨old, hs, -⟩ := hrefs.h2Session key s h2
      simp [hs]
    · obtain ⟨old, hs, -⟩ := hrefs.h1Idle key s h1
      simp [hs]
  case request =>
    intro q key s session' hq hget
    exact h.request q key s session' hq (hold s session' (hrefs.request q key s hq) hget)
  case response =>
    intro o response key s session' ho hkey hs hget
    refine h.response o response key s session' ho hkey hs (hold s session' ?_ hget)
    obtain ⟨old, hold, -⟩ := hrefs.response o response s ho hs
    simp [hold]

/-- The session that `acquire_session` returns. -/
private theorem RouteInv.acquired {dead' : List SessionId}
    (hacquired : Acquired σ key dead dead' (σ', some s))
    (hsession : σ.sessions.get? s = some session) :
    SessionKey.cmp key session.sessionKey = .eq := by
  refine h.group key s session ?_ hsession
  cases hacquired with
  | h2 _ _ hgroup => exact .inl hgroup
  | h1 _ rest hsub => exact .inr (hsub.subset List.mem_cons_self)

/-- `body_full` returns a session under the key of its response. -/
private theorem RouteInv.consumed {success : Bool} (ho : σ.responses.get? o = some response)
    (hconsumed : Consumed σ o response success dead σ') : RouteInv σ' := by
  have hmark : RouteInv (markConsumed σ o response) :=
    h.setResponse fun key s session hkey hs => h.response o response key s session ho hkey hs
  cases hconsumed with
  | again => exact h
  | kept => exact hmark
  | pooled key s _ hhook hsession =>
    refine hmark.setGroup fun s' session hs' hget => ?_
    rcases hs' with h2 | h1
    · exact h.group key s' session (.inl h2) hget
    · rcases List.mem_append.mp h1 with hold | hnew
      · exact h.group key s' session (.inr hold) hget
      · obtain rfl := List.mem_singleton.mp hnew
        exact h.response o response key s' session ho hhook hsession hget
  | closed key s σ₁ _ _ _ hsame =>
    refine RouteInv.shrinks ?_ (shrinks_close σ₁ s)
    rcases hsame with rfl | rfl
    · exact hmark
    · exact hmark.setGroup fun s' session hs' hget => h.group key s' session hs' hget

private theorem RouteInv.reap : RouteInv σ.reap where
  group key s session hs hget := h.group key s session hs (mem_of_reap hget).1
  request q key s session hq hget := h.request q key s session hq (mem_of_reap hget).1
  response o response key s session ho hkey hs hget :=
    h.response o response key s session ho hkey hs (mem_of_reap hget).1

end Updates

/-- A session is handed on only under a key that is equal to its own. -/
private theorem routeInv_acts {σ σ' : HttpClient} (hrefs : RefsInv σ) (h : RouteInv σ)
    (hacts : Acts σ l σ') : RouteInv σ' := by
  cases hacts with
  | acquired _ hacquired =>
    have hshrinks := shrinks_of_acquired hacquired
    refine (h.shrinks hshrinks).setRequest fun key s session hphase hget => ?_
    obtain ⟨rfl, rfl⟩ := ExchangePhase.exchanging.inj hphase
    exact h.acquired hacquired (hshrinks.users.sessions ▸ hget)
  | unconnected _ hacquired =>
    exact (h.shrinks (shrinks_of_acquired hacquired)).setRequest (by simp)
  | connecting _ hacquired =>
    exact ((h.shrinks (shrinks_of_acquired hacquired)).setSocket _ _).setRequest (by simp)
  | connectFailed => exact (h.setSocket _ _).setRequest (by simp)
  | connected | establishFailed => exact h.setRequest (by simp)
  | @establishedH2 q key cleared d hphase =>
    -- the session is opened with the key of its request
    have hself : ∀ session, (σ.newSession ⟨.http2, key, d⟩).sessions.get? σ.nextSession =
        some session → SessionKey.cmp key session.sessionKey = .eq := by
      intro session hget
      obtain rfl : _ = session := by simpa using hget
      exact Std.ReflCmp.compare_self
    have hnew := h.newSession hrefs ⟨.http2, key, d⟩
    have hgroup : RouteInv ((σ.newSession ⟨.http2, key, d⟩).setGroup key
        { σ.group key with h2Session := some σ.nextSession }) := by
      refine hnew.setGroup fun s session hs hget => ?_
      rcases hs with h2 | h1
      · obtain rfl := Option.some.inj h2
        exact hself session hget
      · exact hnew.group key s session (.inr h1) hget
    refine hgroup.setRequest fun key' s session hphase' hget => ?_
    obtain ⟨rfl, rfl⟩ := ExchangePhase.exchanging.inj hphase'
    exact hself session hget
  | @establishedH1 q key cleared d hphase =>
    refine (h.newSession hrefs ⟨.http11, key, d⟩).setRequest fun key' s session hphase' hget => ?_
    obtain ⟨rfl, rfl⟩ := ExchangePhase.exchanging.inj hphase'
    obtain rfl : _ = session := by simpa using hget
    exact Std.ReflCmp.compare_self
  | requestFailed => exact h.setRequest (by simp)
  | @responded q key s session id hphase hsession =>
    refine (h.setRequest (by simp)).newResponse fun key' s' session' hkey hs hget => ?_
    obtain rfl := Option.some.inj hs
    obtain ⟨-, rfl⟩ : _ ∧ key = key' := by simpa using hkey
    exact h.request q key s session' hphase hget
  | bodyFull | closeFailed => exact ⟨h.group, h.request, h.response⟩
  | bodyDone _ hresponse _ hconsumed =>
    have hσ := h.consumed hresponse hconsumed
    exact ⟨hσ.group, hσ.request, hσ.response⟩
  | move hresponse =>
    refine (h.newResponse fun key s session hkey hs => ?_).setResponse (by simp)
    exact h.response _ _ key s session hresponse hkey hs
  | assignSelf => exact h
  | assign hold hresponse hne =>
    refine (h.setResponse fun key s session hkey hs => ?_).setResponse (by simp)
    exact h.response _ _ key s session hresponse hkey hs
  | drop hresponse =>
    refine ⟨h.group, h.request, fun o response key s session ho => ?_⟩
    obtain ⟨-, ho⟩ : _ ∧ σ.responses.get? o = some response := by simpa using ho
    exact h.response o response key s session ho
  | closeAsync => exact h.shrinks (shrinks_closeFrom σ _ _)
  | closeResumed => exact h.shrinks (shrinks_closeResumed σ _ _ _)

/-! ## All keys come from requests -/

/-- The key of a request that is under way. -/
def phaseKey : ExchangePhase → Option SessionKey
  | .connecting key _ _ | .establishing key _ _ | .exchanging key _ => some key
  | .finished => none

/-- Every key in the state has the property. -/
structure AllKeys (K : SessionKey → Prop) (σ : HttpClient) : Prop where
  pool : ∀ key ∈ σ.pool.keys, K key
  session : ∀ s session, σ.sessions.get? s = some session → K session.sessionKey
  request : ∀ q phase, σ.requests.get? q = some phase → ∀ key ∈ phaseKey phase, K key
  response : ∀ o response, σ.responses.get? o = some response →
    ∀ key ∈ response.bodyConsumedHook, K key
  closer : ∀ x key cleared s, σ.closers x = some (.closing key cleared s) → K key

section Keys

variable {K : SessionKey → Prop} {σ σ' : HttpClient} (h : AllKeys K σ)

include h

private theorem AllKeys.setGroup {g : HostGroup} (hkey : K key) :
    AllKeys K (σ.setGroup key g) where
  pool key' hmem := by
    rcases OrderedMap.mem_keys_assign hmem with rfl | hold
    · exact hkey
    · exact h.pool key' hold
  session := h.session
  request := h.request
  response := h.response
  closer := h.closer

private theorem AllKeys.setSocket (d : SocketId) (state : SocketState) :
    AllKeys K (σ.setSocket d state) :=
  ⟨h.pool, h.session, h.request, h.response, h.closer⟩

private theorem AllKeys.setCall (c : CallId) (phase : CallPhase) : AllKeys K (σ.setCall c phase) :=
  ⟨h.pool, h.session, h.request, h.response, h.closer⟩

private theorem AllKeys.close (s : SessionId) : AllKeys K (σ.close s) := by
  unfold HttpClient.close
  split
  · exact h.setSocket _ _
  · exact h

private theorem AllKeys.setRequest {phase : ExchangePhase}
    (hphase : ∀ key ∈ phaseKey phase, K key) : AllKeys K (σ.setRequest q phase) where
  pool := h.pool
  session := h.session
  request q' phase' hq := by
    by_cases hne : q' = q
    · obtain rfl : phase = phase' := by simpa [hne] using hq
      exact hphase
    · exact h.request q' phase' (by simpa [hne] using hq)
  response := h.response
  closer := h.closer

private theorem AllKeys.newSession (hsession : K session.sessionKey) :
    AllKeys K (σ.newSession session) where
  pool := h.pool
  session s session' hs := by
    by_cases hne : s = σ.nextSession
    · obtain rfl : session = session' := by simpa [hne] using hs
      exact hsession
    · exact h.session s session' (by simpa [hne] using hs)
  request := h.request
  response := h.response
  closer := h.closer

private theorem AllKeys.setResponse (hresponse : ∀ key ∈ response.bodyConsumedHook, K key) :
    AllKeys K (σ.setResponse o response) where
  pool := h.pool
  session := h.session
  request := h.request
  response o' response' ho := by
    by_cases hne : o' = o
    · obtain rfl : response = response' := by simpa [hne] using ho
      exact hresponse
    · exact h.response o' response' (by simpa [hne] using ho)
  closer := h.closer

private theorem AllKeys.newResponse (hresponse : ∀ key ∈ response.bodyConsumedHook, K key) :
    AllKeys K (σ.newResponse response) :=
  let hset := h.setResponse (o := σ.nextResponse) hresponse
  ⟨hset.pool, hset.session, hset.request, hset.response, hset.closer⟩

private theorem AllKeys.setCloser {x : CloserId} {phase : CloserPhase}
    (hphase : ∀ key cleared s, phase = .closing key cleared s → K key) :
    AllKeys K (σ.setCloser x phase) where
  pool := h.pool
  session := h.session
  request := h.request
  response := h.response
  closer x' key cleared s hx := by
    by_cases hne : x' = x
    · exact hphase key cleared s (by simpa [hne] using hx)
    · exact h.closer x' key cleared s (by simpa [hne] using hx)

private theorem AllKeys.acquired {dead' : List SessionId} {found : Option SessionId} (hkey : K key)
    (hacquired : Acquired σ key dead dead' (σ', found)) : AllKeys K σ' := by
  cases hacquired <;> exact h.setGroup hkey

private theorem AllKeys.consumed {success : Bool} (ho : σ.responses.get? o = some response)
    (hconsumed : Consumed σ o response success dead σ') : AllKeys K σ' := by
  have hmark : AllKeys K (markConsumed σ o response) := h.setResponse (h.response o response ho)
  cases hconsumed with
  | again => exact h
  | kept => exact hmark
  | pooled key s _ hhook => exact hmark.setGroup (h.response o response ho key hhook)
  | closed key s σ₁ _ hhook _ hsame =>
    rcases hsame with rfl | rfl
    · exact hmark.close s
    · exact (hmark.setGroup (h.response o response ho key hhook)).close s

private theorem AllKeys.drain (hkey : K key) : AllKeys K (σ.drain key) := by
  have hclose : ∀ (l : List SessionId) (σ₁ : HttpClient), AllKeys K σ₁ →
      AllKeys K (l.foldl HttpClient.close σ₁) := by
    intro l
    induction l with
    | nil => exact fun _ h₁ => h₁
    | cons s l ih => exact fun σ₁ h₁ => ih (σ₁.close s) (h₁.close s)
  exact (hclose _ σ h).setGroup hkey

private theorem AllKeys.reap : AllKeys K σ.reap where
  pool := h.pool
  session s session hs := h.session s session (mem_of_reap hs).1
  request := h.request
  response := h.response
  closer := h.closer

end Keys

private theorem allKeys_closeGroups {K : SessionKey → Prop} (keys : List SessionKey)
    (σ : HttpClient) (h : AllKeys K σ) (hkeys : ∀ key ∈ keys, K key) :
    AllKeys K (σ.closeGroups keys).1 ∧ ∀ found ∈ (σ.closeGroups keys).2, K found.1 := by
  induction keys generalizing σ with
  | nil =>
    refine ⟨⟨fun key hkey => ?_, h.session, h.request, h.response, h.closer⟩, by
      simp [HttpClient.closeGroups]⟩
    rw [OrderedMap.mem_keys_iff] at hkey
    simp [HttpClient.closeGroups] at hkey
  | cons key keys ih =>
    simp only [HttpClient.closeGroups]
    split
    · refine ⟨h.close _, fun found hfound => ?_⟩
      obtain rfl := Option.some.inj hfound
      exact hkeys key List.mem_cons_self
    · exact ih _ (h.drain (hkeys key List.mem_cons_self))
        fun key' hkey' => hkeys key' (List.mem_cons_of_mem key hkey')

private theorem AllKeys.closeFrom {K : SessionKey → Prop} {σ : HttpClient} {x : CloserId}
    (h : AllKeys K σ) (hkeys : ∀ key ∈ keys, K key) :
    AllKeys K (σ.closeFrom x keys) := by
  obtain ⟨hgroups, hfound⟩ := allKeys_closeGroups keys σ h hkeys
  unfold HttpClient.closeFrom
  split
  case h_1 σ' key s heq =>
    rw [heq] at hgroups hfound
    refine AllKeys.setCloser hgroups fun key' cleared s' hphase => ?_
    obtain ⟨rfl, -, -⟩ := CloserPhase.closing.inj hphase
    exact hfound _ rfl
  case h_2 σ' heq =>
    rw [heq] at hgroups
    exact AllKeys.setCloser hgroups (by simp)

/-- A step brings no key but that of its label. -/
private theorem allKeys_acts {K : SessionKey → Prop} {σ σ' : HttpClient} (h : AllKeys K σ)
    (hlabel : ∀ key ∈ labelKey l, K key) (hacts : Acts σ l σ') :
    AllKeys K σ' := by
  cases hacts with
  | @acquired q key _ _ _ s σ₁ _ hacquired =>
    have hkey : K key := hlabel key rfl
    exact (h.acquired hkey hacquired).setRequest (by simpa [phaseKey] using hkey)
  | @unconnected q key _ _ σ₁ _ hacquired =>
    exact (h.acquired (hlabel key rfl) hacquired).setRequest (by simp [phaseKey])
  | @connecting q key _ _ d σ₁ _ hacquired =>
    have hkey : K key := hlabel key rfl
    exact ((h.acquired hkey hacquired).setSocket _ _).setRequest (by simpa [phaseKey] using hkey)
  | connectFailed => exact (h.setSocket _ _).setRequest (by simp [phaseKey])
  | connected hphase => exact h.setRequest fun key hkey => h.request _ _ hphase key hkey
  | establishFailed | requestFailed => exact h.setRequest (by simp [phaseKey])
  | @establishedH2 q key cleared d hphase =>
    have hkey : K key := h.request _ _ hphase key rfl
    exact ((h.newSession hkey).setGroup hkey).setRequest (by simpa [phaseKey] using hkey)
  | @establishedH1 q key cleared d hphase =>
    have hkey : K key := h.request _ _ hphase key rfl
    exact (h.newSession hkey).setRequest (by simpa [phaseKey] using hkey)
  | @responded q key s session id hphase hsession =>
    have hkey : K key := h.request _ _ hphase key rfl
    refine (h.setRequest (by simp [phaseKey])).newResponse fun key' hkey' => ?_
    obtain ⟨-, rfl⟩ : _ ∧ key = key' := by simpa using hkey'
    exact hkey
  | bodyFull => exact h.setCall _ _
  | bodyDone _ hresponse _ hconsumed => exact (h.consumed hresponse hconsumed).setCall _ _
  | move hresponse => exact (h.newResponse (h.response _ _ hresponse)).setResponse (by simp)
  | assignSelf => exact h
  | assign hold hresponse hne =>
    exact (h.setResponse (h.response _ _ hresponse)).setResponse (by simp)
  | drop hresponse =>
    refine ⟨h.pool, h.session, h.request, fun o response ho => ?_, h.closer⟩
    obtain ⟨-, ho⟩ : _ ∧ σ.responses.get? o = some response := by simpa using ho
    exact h.response o response ho
  | closeAsync => exact h.closeFrom h.pool
  | closeFailed => exact h.setCloser (by simp)
  -- the keys behind `key` are some of those of the pool
  | @closeResumed x key cleared s hcloser =>
    have hkey : K key := h.closer x key cleared s hcloser
    refine ((h.setGroup hkey).drain hkey).closeFrom fun key' hkey' => ?_
    exact h.pool key' (List.mem_filter.mp hkey').1

/-! ## Runs -/

private theorem routeInv_step (σ : HttpClient) (l : ClientLabel) (σ' : HttpClient)
    (h : RefsInv σ ∧ RouteInv σ) (hstep : σ.step l = some σ') : RefsInv σ' ∧ RouteInv σ' := by
  obtain ⟨σ₁, hacts, rfl⟩ := acts_of_step hstep
  exact ⟨refsInv_step h.1 hstep, (routeInv_acts h.1 h.2 hacts).reap⟩

private theorem routeInv_initial : RouteInv HttpClient.initial where
  group key s session hs := by simp [HostGroup.Holds] at hs
  request q key s session hq := by simp [HttpClient.initial] at hq
  response o response key s session ho := by simp [HttpClient.initial] at ho

/-- Whatever the requests are, target, TLS flag, proxy and credentials are never mixed. -/
theorem routes_agree (ls : List ClientLabel) (σ : HttpClient)
    (hrun : Run.run HttpClient.step HttpClient.initial ls = some σ)
    (hq : σ.requests.get? q = some (.exchanging key s)) (hs : σ.sessions.get? s = some session) :
    withoutHeaders session.sessionKey = withoutHeaders key := by
  have hinv : RefsInv σ ∧ RouteInv σ :=
    Run.stateInvariant_of_run routeInv_step ⟨refsInv_initial, routeInv_initial⟩ hrun
  exact (cmp_eq_iff.mp (hinv.2.request q key s session hq hs)).symm

/-- The keys of the requests so far: they are apart, and the state has no others. -/
private structure KeysInv (keys : List SessionKey) (σ : HttpClient) : Prop where
  refs : RefsInv σ
  route : RouteInv σ
  allKeys : AllKeys (· ∈ keys) σ
  apart : ∀ key ∈ keys, ∀ key' ∈ keys, SessionKey.cmp key key' = .eq → key = key'

/-- The keys of the requests stay apart, and every key in the client is one of them. -/
private theorem keysInv_step {σ σ' : HttpClient} (hinv : KeysInv keys σ)
    (hsame : ∀ key ∈ labelKey l, ∀ key' ∈ keys, SessionKey.cmp key' key = .eq → key' = key)
    (hstep : σ.step l = some σ') : KeysInv (keys ++ (labelKey l).toList) σ' := by
  obtain ⟨hrefs, hroute⟩ := routeInv_step σ l σ' ⟨hinv.refs, hinv.route⟩ hstep
  obtain ⟨σ₁, hacts, rfl⟩ := acts_of_step hstep
  have hmem : ∀ key, key ∈ keys ++ (labelKey l).toList ↔ key ∈ keys ∨ labelKey l = some key := by
    intro key
    rw [List.mem_append, Option.mem_toList]
  refine ⟨hrefs, hroute, ?_, ?_⟩
  · have hold : AllKeys (· ∈ keys ++ (labelKey l).toList) σ :=
      ⟨fun key hkey => (hmem key).mpr (.inl (hinv.allKeys.pool key hkey)),
        fun s session hs => (hmem _).mpr (.inl (hinv.allKeys.session s session hs)),
        fun q phase hq key hkey => (hmem key).mpr (.inl (hinv.allKeys.request q phase hq key hkey)),
        fun o response ho key hkey =>
          (hmem key).mpr (.inl (hinv.allKeys.response o response ho key hkey)),
        fun x key cleared s hx => (hmem key).mpr (.inl (hinv.allKeys.closer x key cleared s hx))⟩
    exact (allKeys_acts hold (fun key hkey => (hmem key).mpr (.inr hkey)) hacts).reap
  · intro key hkey key' hkey' hcmp
    -- a new key is equal to an old one only if it is the same
    rcases (hmem key).mp hkey with hold | hnew
    · rcases (hmem key').mp hkey' with hold' | hnew'
      · exact hinv.apart key hold key' hold' hcmp
      · exact hsame key' hnew' key hold hcmp
    · rcases (hmem key').mp hkey' with hold' | hnew'
      · exact (hsame key hnew key' hold' (Std.OrientedCmp.eq_symm hcmp)).symm
      · exact Option.some.inj (hnew.symm.trans hnew')

private theorem keysInv_initial : KeysInv [] HttpClient.initial := by
  refine ⟨refsInv_initial, routeInv_initial, ⟨fun key hkey => ?_, ?_, ?_, ?_, ?_⟩, by simp⟩
  · rw [OrderedMap.mem_keys_iff] at hkey
    simp [HttpClient.initial] at hkey
  all_goals simp [HttpClient.initial]

/-- A session in the pool has the key that it is stored under. -/
private theorem KeysInv.pool_key {σ : HttpClient} (hinv : KeysInv keys σ)
    {entry : SessionKey × HostGroup} (hentry : entry ∈ σ.pool.toList) (hs : entry.2.Holds s) :
    ∃ session, σ.sessions.get? s = some session ∧ session.sessionKey = entry.1 := by
  have hgroup : σ.group entry.1 = entry.2 := OrderedMap.getD_of_mem_toList hentry {}
  rw [← hgroup] at hs
  have hstored : entry.1 ∈ keys := by
    refine hinv.allKeys.pool entry.1 ?_
    rw [← Std.TreeMap.map_fst_toList_eq_keys]
    exact List.mem_map_of_mem hentry
  have hsession : ∃ session, σ.sessions.get? s = some session := by
    rcases hs with h2 | h1
    · obtain ⟨session, hs, -⟩ := hinv.refs.h2Session entry.1 s h2
      exact ⟨session, hs⟩
    · obtain ⟨session, hs, -⟩ := hinv.refs.h1Idle entry.1 s h1
      exact ⟨session, hs⟩
  obtain ⟨session, hsession⟩ := hsession
  have hcmp := hinv.route.group entry.1 s session hs hsession
  exact ⟨session, hsession,
    (hinv.apart _ hstored _ (hinv.allKeys.session s session hsession) hcmp).symm⟩

/-- A session that a request has been given has the key of the request. -/
private theorem KeysInv.request_key {σ : HttpClient} (hinv : KeysInv keys σ)
    (hq : σ.requests.get? q = some (.exchanging key s)) :
    ∃ session, σ.sessions.get? s = some session ∧ session.sessionKey = key := by
  obtain ⟨session, hsession⟩ := Option.ne_none_iff_exists'.mp (hinv.refs.request q key s hq)
  have hcmp := hinv.route.request q key s session hq hsession
  exact ⟨session, hsession, (hinv.apart _ (hinv.allKeys.request q _ hq key rfl) _
    (hinv.allKeys.session s session hsession) hcmp).symm⟩

/-! ## Sessions that are opened -/

def routedKey : RoutedLabel → Option SessionKey
  | .client l => labelKey l
  | .established _ _ _ _ => none

/-- A request has the CONNECT headers of the earlier requests with the same target, proxy and
    credentials. -/
def SameHeaders (h : List RoutedLabel) (_ : RoutedClient) (l : RoutedLabel) : Prop :=
  ∀ key ∈ routedKey l, ∀ key' ∈ h.filterMap routedKey, SessionKey.cmp key' key = .eq → key' = key

/-- A request over a proxy is made for a URL whose host and port the proxy is asked for. -/
def NamesTargets (_ : List RoutedLabel) (_ : RoutedClient) (l : RoutedLabel) : Prop :=
  ∀ key ∈ routedKey l, ∀ proxy ∈ key.proxy, NamesTarget key proxy

variable (P : Llhttp)

/-- The connection to a proxy accepts the CONNECT request as a whole. -/
def WholeConnect (_ : List RoutedLabel) (r : RoutedClient) : RoutedLabel → Prop
  | .client _ => True
  | .established q a timeoutMs tlsCtx => ∀ key cleared d,
      r.client.requests.get? q = some (.establishing key cleared d) →
      ∀ c ∈ (sessionConnect P a key timeoutMs tlsCtx).calls, AcceptedWhole c

private structure RoutedInv (h : List RoutedLabel) (r : RoutedClient) : Prop where
  keys : KeysInv (h.filterMap routedKey) r.client
  named : ∀ key ∈ h.filterMap routedKey, ∀ proxy ∈ key.proxy, NamesTarget key proxy
  opened : ∀ s session, r.client.sessions.get? s = some session →
    OpenedFor session.sessionKey session.socket (r.opened s)

variable {P}

/-- What a step is: one of the client that opens no session, or the return of `session_connect`. -/
private theorem routed_cases {r r' : RoutedClient} {l : RoutedLabel} (h : r.step P l = some r') :
    (∃ l', l = .client l' ∧ l'.opensSession = false ∧ r.client.step l' = some r'.client ∧
        r'.opened = r.opened) ∨
      ∃ q a timeoutMs tlsCtx key cleared session, l = .established q a timeoutMs tlsCtx ∧
        r.client.requests.get? q = some (.establishing key cleared session.socket) ∧
        (sessionConnect P a key timeoutMs tlsCtx).result = .ok session ∧
        r.client.step (.established q (session.httpVersion = .http2)) = some r'.client ∧
        r'.opened = Function.update r.opened r.client.nextSession
          (sessionConnect P a key timeoutMs tlsCtx).calls := by
  cases l with
  | client l =>
    simp only [RoutedClient.step] at h
    split at h
    case isTrue => cases h
    case isFalse hopens =>
      obtain ⟨client, hclient, rfl⟩ := Option.map_eq_some_iff.mp h
      exact .inl ⟨l, rfl, by simpa using hopens, hclient, rfl⟩
  | established q a timeoutMs tlsCtx =>
    simp only [RoutedClient.step] at h
    split at h
    case h_2 => cases h
    case h_1 key cleared d hphase =>
      split at h
      case h_2 => cases h
      case h_1 calls session hconnect =>
        obtain ⟨hsocket, hmap⟩ := Option.ite_none_right_eq_some.mp h
        obtain ⟨client, hclient, rfl⟩ := Option.map_eq_some_iff.mp hmap
        -- the session has the descriptor that the request has connected
        subst hsocket
        refine .inr ⟨q, a, timeoutMs, tlsCtx, key, cleared, session, rfl, hphase, ?_, hclient, ?_⟩
        · rw [hconnect]
        · rw [hconnect]

/-- The session that the client gets is the one that `session_connect` has returned. -/
private theorem session_of_established {σ σ₁ : HttpClient} {useH2 : Bool} {cleared : Nat}
    {d : SocketId} (hphase : σ.requests.get? q = some (.establishing key cleared d))
    (hacts : Acts σ (.established q useH2) σ₁) (hs : σ₁.sessions.get? s = some session) :
    (s = σ.nextSession ∧ session.sessionKey = key ∧ session.socket = d) ∨
      (s ≠ σ.nextSession ∧ σ.sessions.get? s = some session) := by
  rcases acts_opens hacts with ⟨hl, -⟩ | ⟨q', useH2', key', cleared', d', hl, hphase', hset, -⟩
  · cases hl
  · obtain ⟨rfl, rfl⟩ := ClientLabel.established.inj hl
    obtain ⟨rfl, -, rfl⟩ :=
      ExchangePhase.establishing.inj (Option.some.inj (hphase.symm.trans hphase'))
    rw [hset, Store.get?_set] at hs
    split at hs
    case isTrue heq =>
      obtain rfl := Option.some.inj hs
      exact .inl ⟨heq, rfl, rfl⟩
    case isFalse hne => exact .inr ⟨hne, hs⟩

/-- Each step leaves every session on the route of its key. -/
private theorem routedInv_step (h : List RoutedLabel) (r : RoutedClient) (l : RoutedLabel)
    (r' : RoutedClient) (hinv : RoutedInv h r)
    (hcond : (SameHeaders h r l ∧ NamesTargets h r l) ∧ WholeConnect P h r l)
    (hstep : r.step P l = some r') : RoutedInv (h ++ [l]) r' := by
  obtain ⟨⟨hsame, hnames⟩, hwhole⟩ := hcond
  have hkeys : (h ++ [l]).filterMap routedKey = h.filterMap routedKey ++ (routedKey l).toList := by
    rw [List.filterMap_append]
    cases hl : routedKey l <;> simp [hl]
  have hnamed : ∀ key ∈ (h ++ [l]).filterMap routedKey, ∀ proxy ∈ key.proxy,
    NamesTarget key proxy := by
    intro key hkey
    rw [hkeys, List.mem_append, Option.mem_toList] at hkey
    rcases hkey with hold | hnew
    · exact hinv.named key hold
    · exact hnames key hnew
  rcases routed_cases hstep with ⟨l', rfl, hopens, hclient, hopened⟩ |
    ⟨q, a, timeoutMs, tlsCtx, key, cleared, session, rfl, hphase, hok, hclient, hopened⟩
  · refine ⟨hkeys ▸ keysInv_step hinv.keys hsame hclient, hnamed, fun s session hs => ?_⟩
    obtain ⟨σ₁, hacts, hreap⟩ := acts_of_step hclient
    rw [hreap] at hs
    have hs := (mem_of_reap hs).1
    rcases acts_opens hacts with ⟨-, hsessions, -⟩ | ⟨_, _, _, _, _, rfl, -⟩
    case inr => cases hopens
    rw [hsessions] at hs
    rw [hopened]
    exact hinv.opened s session hs
  · refine ⟨hkeys ▸ keysInv_step hinv.keys (by simp [labelKey]) hclient, hnamed,
      fun s session' hs => ?_⟩
    obtain ⟨σ₁, hacts, hreap⟩ := acts_of_step hclient
    rw [hreap] at hs
    rw [hopened]
    rcases session_of_established hphase hacts (mem_of_reap hs).1 with
      ⟨rfl, hkey, hsocket⟩ | ⟨hne, hold⟩
    · -- the new session has the calls of `session_connect`
      rw [Function.update_self, hkey, hsocket]
      have hproxy := hinv.named key (hinv.keys.allKeys.request q _ hphase key rfl)
      exact openedFor_of_connect hproxy (Calls.returns_of_result hok)
        (hwhole key cleared session.socket hphase)
    · rw [Function.update_of_ne hne]
      exact hinv.opened s session' hold

private theorem routedInv_initial : RoutedInv [] RoutedClient.initial :=
  ⟨keysInv_initial, by simp, fun s session hs => by
    simp [RoutedClient.initial, HttpClient.initial] at hs⟩

instance (h : List RoutedLabel) (r : RoutedClient) (l : RoutedLabel) :
    Decidable (SameHeaders h r l) :=
  inferInstanceAs (Decidable (∀ key ∈ routedKey l, ∀ key' ∈ h.filterMap routedKey,
    SessionKey.cmp key' key = .eq → key' = key))

/-- A host over a proxy, with a CONNECT header. -/
def proxyKey (host : String) (value : UInt8) : SessionKey :=
  ⟨ascii host, 80, false, some ⟨ascii "p", 3128, none, [⟨ascii "X", [value]⟩]⟩⟩

/-- A proxy that accepts the 43 bytes of a request and opens the tunnel. -/
def opensTunnel : ConnectAnswers where
  resolve := .ok [⟨"10.0.0.1:3128"⟩]
  socket := .ok 5
  write := .ok 43
  reads := [.ok (bytesOf tunnelOk.toks)]

/-- A tunnel is used by a request and, after it, by another one. -/
def reusedTunnel (key key' : SessionKey) : List RoutedLabel :=
  [.client (.request 0 key [] [] (some 5)), .client (.connected 0),
    .established 0 opensTunnel 5000 none,
    .client (.responded 0 none), .client (.bodyFull 0 0), .client (.bodyDone 0 .complete []),
    .client (.request 1 key' [] [] none)]

/-- What the proxies have been told when the sessions were opened. -/
def toldProxy (calls : List ConnectCall) : List (List UInt8) :=
  calls.filterMap fun
    | .exchange _ _ accepted => some accepted
    | _ => none

end Ppnt.Spec
