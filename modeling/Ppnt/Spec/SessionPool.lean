import Ppnt.ForStd.Run
import Ppnt.Native.HttpClient

/-!
# The session pool as a map

`sessions_` is an ordered map, and only `SessionKey.cmp` decides which entry a key belongs to.  This
file says what the comparison identifies, and describes the operations of the pool by the groups
they leave behind (`HttpClient.group`).
-/

namespace Ppnt.Spec

open Ppnt.Native

/-! ## Comparison of keys -/

instance : Std.TransCmp ProxyAuth.cmp := inferInstanceAs (Std.TransCmp (compareLex _ _))

instance : Std.TransOrd ProxyAuth := inferInstanceAs (Std.TransCmp ProxyAuth.cmp)

instance : Std.TransCmp ProxyConfig.cmp := inferInstanceAs (Std.TransCmp (compareLex _ _))

instance : Std.TransOrd ProxyConfig := inferInstanceAs (Std.TransCmp ProxyConfig.cmp)

instance : Std.TransCmp SessionKey.cmp := inferInstanceAs (Std.TransCmp (compareLex _ _))

private theorem proxyAuth_cmp_eq_iff {a b : ProxyAuth} : ProxyAuth.cmp a b = .eq ↔ a = b := by
  obtain ⟨u, p⟩ := a
  obtain ⟨u', p'⟩ := b
  simp [ProxyAuth.cmp, compareLex_eq_eq, compareOn]

instance : Std.LawfulEqOrd ProxyAuth where
  eq_of_compare h := proxyAuth_cmp_eq_iff.mp h

/-- `operator<=>` of `ProxyConfig` ignores the headers. -/
private theorem proxyConfig_cmp_eq_iff {a b : ProxyConfig} :
    ProxyConfig.cmp a b = .eq ↔ a.host = b.host ∧ a.port = b.port ∧ a.auth = b.auth := by
  simp [ProxyConfig.cmp, compareLex_eq_eq, compareOn]

/-- A key without the CONNECT headers of its proxy. -/
def withoutHeaders (key : SessionKey) : SessionKey :=
  { key with proxy := key.proxy.map fun proxy => { proxy with headers := [] } }

/-- Two keys belong to the same entry of the pool if and only if they agree in everything but the
    CONNECT headers. -/
theorem cmp_eq_iff {key key' : SessionKey} :
    SessionKey.cmp key key' = .eq ↔ withoutHeaders key = withoutHeaders key' := by
  obtain ⟨host, port, isSsl, proxy⟩ := key
  obtain ⟨host', port', isSsl', proxy'⟩ := key'
  have hproxy : compare proxy proxy' = .eq ↔
      proxy.map (fun proxy => { proxy with headers := [] }) =
        proxy'.map (fun proxy => { proxy with headers := [] }) := by
    cases proxy with
    | none => cases proxy' <;> simp [compare]
    | some p =>
      cases proxy' with
      | none => simp [compare]
      | some p' =>
        have hcmp : compare (some p) (some p') = ProxyConfig.cmp p p' := rfl
        rw [hcmp, proxyConfig_cmp_eq_iff]
        simp
  simp [SessionKey.cmp, compareLex_eq_eq, compareOn, withoutHeaders, hproxy]

/-- A plain HTTP connection without a proxy. -/
def plainKey : SessionKey := ⟨[97], 80, false, none⟩

/-! ## Groups -/

section Groups

variable (σ : HttpClient)

theorem group_congr {key key' : SessionKey} (h : SessionKey.cmp key key' = .eq) :
    σ.group key = σ.group key' :=
  Std.TreeMap.getD_congr h

/-- An assignment to `sessions_[key]` changes the group of the keys that compare equal. -/
theorem group_setGroup (key key' : SessionKey) (g : HostGroup) :
    (σ.setGroup key g).group key' =
      if SessionKey.cmp key key' = .eq then g else σ.group key' :=
  OrderedMap.getD_assign σ.pool {} key key' g

/-- An assignment that keeps the idle sessions of its group keeps those of all groups. -/
theorem h1Idle_setGroup (key key' : SessionKey) {g : HostGroup}
    (hg : g.h1Idle = (σ.group key).h1Idle) :
    ((σ.setGroup key g).group key').h1Idle = (σ.group key').h1Idle := by
  rw [group_setGroup]
  split
  case isTrue hcmp => rw [hg, group_congr σ hcmp]
  case isFalse => rfl

/-- A group that is not empty has a key in the pool. -/
theorem exists_mem_keys {key : SessionKey} {s : SessionId} (hs : (σ.group key).Holds s) :
    ∃ key₀ ∈ σ.pool.keys, SessionKey.cmp key₀ key = .eq := by
  have hne : σ.pool.getD key {} ≠ {} := by
    intro heq
    rw [HttpClient.group, heq] at hs
    simp [HostGroup.Holds] at hs
  obtain ⟨entry, hmem, hcmp, -⟩ := OrderedMap.exists_entry hne
  refine ⟨entry.1, ?_, hcmp⟩
  rw [← Std.TreeMap.map_fst_toList_eq_keys]
  exact List.mem_map_of_mem hmem

/-- A session is owned by a group, by a request or by a response. -/
theorem owned_iff (s : SessionId) :
    σ.Owned s ↔ (∃ key, (σ.group key).Holds s) ∨
      (∃ q phase, σ.requests.get? q = some phase ∧ phase.session? = some s) ∨
      ∃ o response, σ.responses.get? o = some response ∧ response.session = some s := by
  have hpool : (∃ entry ∈ σ.pool.toList, entry.2.Holds s) ↔ ∃ key, (σ.group key).Holds s :=
    OrderedMap.exists_mem_toList_iff (p := fun g : HostGroup => g.Holds s)
      (by simp [HostGroup.Holds])
  rw [HttpClient.Owned, hpool]
  rfl

@[simp] theorem group_close (s : SessionId) (key : SessionKey) :
    (σ.close s).group key = σ.group key := by
  unfold HttpClient.close
  split <;> rfl

end Groups

attribute [simp] HttpClient.setRequest HttpClient.setResponse HttpClient.newResponse
  HttpClient.setSocket HttpClient.setCall HttpClient.setCloser HttpClient.newSession

/-! ## Steps that only take away from the pool -/

/-- Everything but the pool, the descriptors and the closers is the same. -/
structure SameUsers (σ σ' : HttpClient) : Prop where
  sessions : σ'.sessions = σ.sessions
  nextSession : σ'.nextSession = σ.nextSession
  requests : σ'.requests = σ.requests
  responses : σ'.responses = σ.responses
  nextResponse : σ'.nextResponse = σ.nextResponse
  calls : σ'.calls = σ.calls

theorem SameUsers.trans {σ₁ σ₂ σ₃ : HttpClient} (h : SameUsers σ₁ σ₂) (h' : SameUsers σ₂ σ₃) :
    SameUsers σ₁ σ₃ :=
  ⟨h'.sessions.trans h.sessions, h'.nextSession.trans h.nextSession, h'.requests.trans h.requests,
    h'.responses.trans h.responses, h'.nextResponse.trans h.nextResponse, h'.calls.trans h.calls⟩

/-- The pool loses entries and descriptors are closed. -/
structure Shrinks (σ σ' : HttpClient) : Prop where
  users : SameUsers σ σ'
  h1Idle : ∀ key, (σ'.group key).h1Idle.Sublist (σ.group key).h1Idle
  h2Session : ∀ key, (σ'.group key).h2Session = none ∨
    (σ'.group key).h2Session = (σ.group key).h2Session
  sockets : ∀ d, σ'.sockets d = σ.sockets d ∨ σ'.sockets d = .closed

theorem Shrinks.refl (σ : HttpClient) : Shrinks σ σ :=
  ⟨⟨rfl, rfl, rfl, rfl, rfl, rfl⟩, fun _ => .refl _, fun _ => .inr rfl, fun _ => .inl rfl⟩

theorem Shrinks.trans {σ₁ σ₂ σ₃ : HttpClient} (h : Shrinks σ₁ σ₂) (h' : Shrinks σ₂ σ₃) :
    Shrinks σ₁ σ₃ where
  users := h.users.trans h'.users
  h1Idle key := (h'.h1Idle key).trans (h.h1Idle key)
  h2Session key := by
    rcases h'.h2Session key with hnone | hsame
    · exact .inl hnone
    · rw [hsame]
      exact h.h2Session key
  sockets d := by
    rcases h'.sockets d with hsame | hclosed
    · rw [hsame]
      exact h.sockets d
    · exact .inr hclosed

theorem shrinks_setGroup {σ : HttpClient} {key : SessionKey} {g : HostGroup}
    (h1 : g.h1Idle.Sublist (σ.group key).h1Idle)
    (h2 : g.h2Session = none ∨ g.h2Session = (σ.group key).h2Session) :
    Shrinks σ (σ.setGroup key g) where
  users := ⟨rfl, rfl, rfl, rfl, rfl, rfl⟩
  h1Idle key' := by
    rw [group_setGroup]
    split
    case isTrue hcmp => rwa [← group_congr σ hcmp]
    case isFalse => exact .refl _
  h2Session key' := by
    rw [group_setGroup]
    split
    case isTrue hcmp => rwa [← group_congr σ hcmp]
    case isFalse => exact .inr rfl
  sockets _ := .inl rfl

theorem shrinks_close (σ : HttpClient) (s : SessionId) : Shrinks σ (σ.close s) := by
  unfold HttpClient.close
  split
  · refine ⟨⟨rfl, rfl, rfl, rfl, rfl, rfl⟩, fun _ => .refl _, fun _ => .inr rfl, fun d => ?_⟩
    simp only [HttpClient.setSocket, Function.update_apply]
    split <;> simp
  · exact .refl σ

theorem shrinks_foldl_close (l : List SessionId) (σ : HttpClient) :
    Shrinks σ (l.foldl HttpClient.close σ) := by
  induction l generalizing σ with
  | nil => exact .refl σ
  | cons s l ih => exact (shrinks_close σ s).trans (ih (σ.close s))

@[simp] theorem group_foldl_close (l : List SessionId) (σ : HttpClient) (key : SessionKey) :
    (l.foldl HttpClient.close σ).group key = σ.group key := by
  induction l generalizing σ with
  | nil => rfl
  | cons s l ih => rw [List.foldl_cons, ih, group_close]

theorem shrinks_drain (σ : HttpClient) (key : SessionKey) : Shrinks σ (σ.drain key) :=
  (shrinks_foldl_close _ σ).trans (shrinks_setGroup (by simp) (.inr (by simp)))

theorem shrinks_closeGroups (keys : List SessionKey) (σ : HttpClient) :
    Shrinks σ (σ.closeGroups keys).1 := by
  induction keys generalizing σ with
  | nil =>
    refine ⟨⟨rfl, rfl, rfl, rfl, rfl, rfl⟩, fun key => ?_, fun key => .inl ?_, fun _ => .inl rfl⟩
    · simp [HttpClient.closeGroups, HttpClient.group]
    · simp [HttpClient.closeGroups, HttpClient.group]
  | cons key keys ih =>
    simp only [HttpClient.closeGroups]
    split
    · exact shrinks_close σ _
    · exact (shrinks_drain σ key).trans (ih _)

/-- A run of the loop of `close_async`. -/
theorem shrinks_closeFrom (σ : HttpClient) (x : CloserId) (keys : List SessionKey) :
    Shrinks σ (σ.closeFrom x keys) := by
  have h := shrinks_closeGroups keys σ
  unfold HttpClient.closeFrom
  split
  all_goals
    rename_i heq
    rw [heq] at h
    exact ⟨⟨h.users.1, h.users.2, h.users.3, h.users.4, h.users.5, h.users.6⟩, h.h1Idle,
      h.h2Session, h.sockets⟩

/-- `close_async` behind the HTTP/2 session of a group. -/
theorem shrinks_closeResumed (σ : HttpClient) (x : CloserId) (key : SessionKey)
    (keys : List SessionKey) :
    Shrinks σ (((σ.setGroup key { σ.group key with h2Session := none }).drain key).closeFrom x
      keys) := by
  have hreset : Shrinks σ (σ.setGroup key { σ.group key with h2Session := none }) :=
    shrinks_setGroup (List.Sublist.refl _) (Or.inl rfl)
  exact (hreset.trans (shrinks_drain _ key)).trans (shrinks_closeFrom _ x keys)

/-! ## What the other operations can do -/

/-- The loop of `acquire_session` skips invalid sessions only. -/
private theorem popValid_spec (valid : SessionId → Bool) (l : List SessionId) :
    (∃ s rest, HttpClient.popValid valid l = (some s, rest) ∧ (s :: rest).Sublist l ∧
        valid s = true ∧ ∀ s' ∈ l, s' = s ∨ s' ∈ rest ∨ valid s' = false) ∨
      (HttpClient.popValid valid l = (none, []) ∧ ∀ s' ∈ l, valid s' = false) := by
  induction l with
  | nil => exact .inr ⟨rfl, by simp⟩
  | cons s l ih =>
    by_cases hs : valid s = true
    · refine .inl ⟨s, l, by simp [HttpClient.popValid, hs], .refl _, hs, fun s' hs' => ?_⟩
      rcases List.mem_cons.mp hs' with rfl | hmem
      · exact .inl rfl
      · exact .inr (.inl hmem)
    · have hs : valid s = false := by simpa using hs
      rcases ih with ⟨t, rest, heq, hsub, ht, hskip⟩ | ⟨heq, hskip⟩
      · refine .inl ⟨t, rest, by simp [HttpClient.popValid, hs, heq], hsub.cons s, ht, ?_⟩
        intro s' hs'
        rcases List.mem_cons.mp hs' with rfl | hmem
        · exact .inr (.inr hs)
        · exact hskip s' hmem
      · refine .inr ⟨by simp [HttpClient.popValid, hs, heq], fun s' hs' => ?_⟩
        rcases List.mem_cons.mp hs' with rfl | hmem
        · exact hs
        · exact hskip s' hmem

section Operations

variable (σ : HttpClient)

/-- A session that `acquire_session` has found invalid. -/
def Rejected (dead dead' : List SessionId) (s : SessionId) : Prop :=
  σ.isValid dead s = false ∨ σ.isValid dead' s = false

/-- `acquire_session` finds the HTTP/2 session of the group, takes an idle session, or has to
    connect. -/
inductive Acquired (key : SessionKey) (dead dead' : List SessionId) :
    HttpClient × Option SessionId → Prop
  | h2 (s : SessionId) (h1Idle : List SessionId) (hgroup : (σ.group key).h2Session = some s)
      (hsub : h1Idle.Sublist (σ.group key).h1Idle)
      (hpruned : ∀ s' ∈ (σ.group key).h1Idle, s' ∈ h1Idle ∨ Rejected σ dead dead' s') :
      Acquired key dead dead' (σ.setGroup key ⟨some s, h1Idle⟩, some s)
  | h1 (s : SessionId) (rest : List SessionId)
      (hsub : (s :: rest).Sublist (σ.group key).h1Idle)
      (hpruned : ∀ s' ∈ (σ.group key).h1Idle, s' = s ∨ s' ∈ rest ∨ Rejected σ dead dead' s')
      (hstale : ∀ s', (σ.group key).h2Session = some s' → σ.isValid dead s' = false) :
      Acquired key dead dead' (σ.setGroup key ⟨none, rest⟩, some s)
  | none (hpruned : ∀ s' ∈ (σ.group key).h1Idle, Rejected σ dead dead' s')
      (hstale : ∀ s', (σ.group key).h2Session = some s' → σ.isValid dead s' = false) :
      Acquired key dead dead' (σ.setGroup key ⟨Option.none, []⟩, Option.none)

/-- What `acquire_session` does. -/
theorem acquireSession_eq (key : SessionKey) (dead dead' : List SessionId) :
    Acquired σ key dead dead' (σ.acquireSession key dead dead') := by
  have hkept : ∀ s' ∈ (σ.group key).h1Idle,
      s' ∈ (σ.group key).h1Idle.filter (σ.isValid dead) ∨ Rejected σ dead dead' s' := by
    intro s' hs'
    by_cases hv : σ.isValid dead s' = true
    · exact .inl (List.mem_filter.mpr ⟨hs', hv⟩)
    · exact .inr (.inl (by simpa using hv))
  unfold HttpClient.acquireSession
  simp only
  split
  case h_1 s hs =>
    obtain ⟨hgroup, -⟩ := Option.filter_eq_some_iff.mp hs
    exact .h2 s _ hgroup List.filter_sublist hkept
  case h_2 hs =>
    have hstale : ∀ s', (σ.group key).h2Session = some s' → σ.isValid dead s' = false := by
      intro s' hs'
      simpa using Option.filter_eq_none_iff.mp hs s' hs'
    -- no HTTP/2 session: the last idle one that is still valid is taken
    rcases popValid_spec (σ.isValid dead') ((σ.group key).h1Idle.filter (σ.isValid dead)) with
      ⟨s, rest, heq, hsub, -, hskip⟩ | ⟨heq, hskip⟩
    · rw [heq]
      refine .h1 s rest (hsub.trans List.filter_sublist) (fun s' hs' => ?_) hstale
      rcases hkept s' hs' with hmem | hrej
      · rcases hskip s' hmem with rfl | hrest | hv
        · exact .inl rfl
        · exact .inr (.inl hrest)
        · exact .inr (.inr (.inr hv))
      · exact .inr (.inr hrej)
    · rw [heq]
      refine .none (fun s' hs' => ?_) hstale
      rcases hkept s' hs' with hmem | hrej
      · exact .inr (hskip s' hmem)
      · exact hrej

/-- The response `o` after its first `body_full`. -/
def markConsumed (o : ResponseId) (response : HttpResponse) : HttpClient :=
  σ.setResponse o { response with bodyConsumed := true }

/-- What `body_full` does with the session of its response: nothing if the body has been consumed
    before, or it keeps it, returns it to the pool, or closes it. -/
inductive Consumed (o : ResponseId) (response : HttpResponse) (success : Bool)
    (dead : List SessionId) : HttpClient → Prop
  | again (hconsumed : response.bodyConsumed = true) : Consumed o response success dead σ
  | kept (hconsumed : response.bodyConsumed = false) :
      Consumed o response success dead (markConsumed σ o response)
  | pooled (key : SessionKey) (s : SessionId) (hconsumed : response.bodyConsumed = false)
      (hhook : response.bodyConsumedHook = some key) (hsession : response.session = some s)
      (hsuccess : success = true) (hvalid : σ.isValid dead s = true)
      (hlength : (σ.group key).h1Idle.length < 100) :
      Consumed o response success dead ((markConsumed σ o response).setGroup key
        { σ.group key with h1Idle := (σ.group key).h1Idle ++ [s] })
  | closed (key : SessionKey) (s : SessionId) (σ₁ : HttpClient)
      (hconsumed : response.bodyConsumed = false)
      (hhook : response.bodyConsumedHook = some key) (hsession : response.session = some s)
      (hsame : σ₁ = markConsumed σ o response ∨
        σ₁ = (markConsumed σ o response).setGroup key (σ.group key)) :
      Consumed o response success dead (σ₁.close s)

/-- What `body_full` does. -/
theorem consume_eq (o : ResponseId) (response : HttpResponse) (success : Bool)
    (dead : List SessionId) :
    Consumed σ o response success dead (σ.consume o response success dead) := by
  unfold HttpClient.consume
  split
  case isTrue hconsumed => exact .again hconsumed
  case isFalse hconsumed =>
    have hconsumed : response.bodyConsumed = false := by simpa using hconsumed
    split
    case h_1 => exact .kept hconsumed
    case h_2 key hhook =>
      unfold HttpClient.bodyConsumed
      split
      case h_1 => exact .kept hconsumed
      case h_2 s hsession =>
        split
        case isFalse => exact .closed key s _ hconsumed hhook hsession (.inl rfl)
        case isTrue hsuccess =>
          unfold HttpClient.releaseH1Session
          split
          case isTrue => exact .kept hconsumed
          case isFalse hvalid =>
            -- the flag of the response does not matter for `is_valid`
            have hvalid : ¬(!σ.isValid dead s) = true := hvalid
            have hvalid : σ.isValid dead s = true := by simpa using hvalid
            split
            case isFalse => exact .kept hconsumed
            case isTrue =>
              split
              case isTrue hlength =>
                exact .pooled key s hconsumed hhook hsession hsuccess hvalid hlength
              case isFalse => exact .closed key s _ hconsumed hhook hsession (.inr rfl)

variable {σ} {o : ResponseId} {response : HttpResponse} {success : Bool} {dead : List SessionId}
  {σ₁ : HttpClient}

/-- The first `body_full` marks its response.  Otherwise only the pool and the descriptors change.
    -/
theorem consumed_users (hconsumed : Consumed σ o response success dead σ₁) :
    (response.bodyConsumed = true ∧ SameUsers σ σ₁) ∨
      (response.bodyConsumed = false ∧ SameUsers (markConsumed σ o response) σ₁) := by
  cases hconsumed with
  | again hconsumed => exact .inl ⟨hconsumed, (Shrinks.refl σ).users⟩
  | kept hconsumed => exact .inr ⟨hconsumed, (Shrinks.refl _).users⟩
  | pooled key s hconsumed => exact .inr ⟨hconsumed, rfl, rfl, rfl, rfl, rfl, rfl⟩
  | closed key s σ₂ hconsumed _ _ hsame =>
    rcases hsame with rfl | rfl
    · exact .inr ⟨hconsumed, (shrinks_close _ s).users⟩
    · obtain ⟨h₁, h₂, h₃, h₄, h₅, h₆⟩ := (shrinks_close
        ((markConsumed σ o response).setGroup key (σ.group key)) s).users
      exact .inr ⟨hconsumed, h₁, h₂, h₃, h₄, h₅, h₆⟩

theorem consumed_sockets (hconsumed : Consumed σ o response success dead σ₁) (d : SocketId) :
    σ₁.sockets d = σ.sockets d ∨ σ₁.sockets d = .closed := by
  cases hconsumed with
  | again | kept | pooled => exact .inl rfl
  | closed key s σ₂ _ _ _ hsame =>
    have hsockets := (shrinks_close σ₂ s).sockets d
    rcases hsame with rfl | rfl <;> exact hsockets

end Operations

end Ppnt.Spec
