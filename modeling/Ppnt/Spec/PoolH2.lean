import Ppnt.Spec.ClientSockets

/-!
# The HTTP/2 session of a group

`acquire_session` looks for an HTTP/2 session, suspends in `session_connect` and stores the session
it gets without looking again.  What it finds in the group behind the suspension are the sessions
that other callers of the key have stored since it looked (`StoredSince`).  If none of them is still
valid (`NoneStored`), nothing valid is overwritten, so the valid HTTP/2 session of a key is the one
in its group and there is at most one.
-/

namespace Ppnt.Spec

open Ppnt.Native

/-- When the sessions become invalid: after which labels `is_valid` answers `false` although the
    descriptor is open, because nghttp2 wants neither to read nor to write, or the driver has ended.
    That does not change back. -/
structure Validity where
  invalid : List ClientLabel → SessionId → Prop
  mono : ∀ h l s, invalid h s → invalid (h ++ [l]) s

/-- `is_valid` of an HTTP/2 session. -/
def ValidH2 (V : Validity) (h : List ClientLabel) (σ : HttpClient) (s : SessionId) : Prop :=
  ∃ session, σ.sessions.get? s = some session ∧ session.httpVersion = .http2 ∧
    σ.sockets session.socket = .opened ∧ ¬V.invalid h s

/-! ## Interleavings -/

/-- `is_valid` finds an HTTP/2 session with an open descriptor dead only if it has become
    invalid. -/
def Answers (V : Validity) (h : List ClientLabel) (σ : HttpClient) : ClientLabel → Prop
  | .request _ _ dead _ _ => ∀ s ∈ dead, IsH2 σ s → V.invalid h s
  | _ => True

/-- The key of a request. -/
def requestKey (h : List ClientLabel) (q : RequestId) : Option SessionKey :=
  h.findSome? fun
    | .request q' key _ _ _ => if q' = q then some key else none
    | _ => none

/-- The number of sessions that have been opened, which is the name of the next one. -/
def sessionsOpened (h : List ClientLabel) : SessionId := h.countP ClientLabel.opensSession

/-- The call of `acquire_session` in which the request looks at its group. -/
def Looks (q : RequestId) : ClientLabel → Prop
  | .request q' _ _ _ _ => q' = q
  | _ => False

/-- Behind the call in which the request looked, a caller of the key has stored the HTTP/2 session
    `s`. -/
def StoredSince (q : RequestId) (h : List ClientLabel) (key : SessionKey) (s : SessionId) : Prop :=
  ∃ before q' key' after, h = before ++ .established q' true :: after ∧ (∃ l ∈ before, Looks q l) ∧
    requestKey before q' = some key' ∧ SessionKey.cmp key' key = .eq ∧ s = sessionsOpened before

/-- Since the request looked, no other caller of its key has stored an HTTP/2 session that is still
    valid when the request stores its own.  `close_async`, which resets the groups, does not run. -/
def NoneStored (V : Validity) (h : List ClientLabel) (σ : HttpClient) : ClientLabel → Prop
  | .established q true => ∀ key s, requestKey h q = some key → StoredSince q h key s →
      ¬ValidH2 V h σ s
  | .closeAsync _ | .closeResumed _ _ => False
  | _ => True

section Histories

variable {h : List ClientLabel} {l : ClientLabel} {q : RequestId} {key : SessionKey} {s : SessionId}

private theorem requestKey_of_before (hkey : requestKey h q = some key) :
    requestKey (h ++ [l]) q = some key := by
  rw [requestKey, List.findSome?_append]
  rw [requestKey] at hkey
  rw [hkey]
  rfl

private theorem requestKey_of_not_looks (hkey : requestKey h q = none)
    (hl : ¬Looks q l) : requestKey (h ++ [l]) q = none := by
  rw [requestKey] at hkey
  rw [requestKey, List.findSome?_append, hkey]
  cases l with
  | request q' => simpa [Looks] using hl
  | _ => rfl

private theorem StoredSince.snoc (hstored : StoredSince q h key s) :
    StoredSince q (h ++ [l]) key s := by
  obtain ⟨before, q', key', after, rfl, hrest⟩ := hstored
  exact ⟨before, q', key', after ++ [l], by simp, hrest⟩

end Histories

/-- The steps that overwrite or reset no valid HTTP/2 session. -/
private def KeepsValid (V : Validity) (h : List ClientLabel) (σ : HttpClient) : ClientLabel → Prop
  | .request _ key dead _ _ => ∀ s ∈ dead, (σ.group key).h2Session = some s → V.invalid h s
  | .established q true => ∀ key cleared d s,
      σ.requests.get? q = some (.establishing key cleared d) →
      (σ.group key).h2Session = some s → ¬ValidH2 V h σ s
  | .closeAsync _ | .closeResumed _ _ => False
  | _ => True

/-! ## One step -/

section Step

variable {V : Validity} {h : List ClientLabel} {σ σ₁ : HttpClient} {l : ClientLabel}
  {key : SessionKey} {s : SessionId}

/-- `acquire_session` resets an HTTP/2 session that is not valid. -/
private theorem h2Session_acquired {key₀ : SessionKey} {dead dead' : List SessionId}
    {found : Option SessionId} (hacquired : Acquired σ key₀ dead dead' (σ₁, found))
    (hstored : (σ.group key).h2Session = some s)
    (hvalid : SessionKey.cmp key₀ key = .eq → σ.isValid dead s = true) :
    (σ₁.group key).h2Session = some s := by
  by_cases hcmp : SessionKey.cmp key₀ key = .eq
  case neg => cases hacquired <;> simpa [group_setGroup, hcmp] using hstored
  case pos =>
    have hgroup : (σ.group key₀).h2Session = some s := by rwa [group_congr σ hcmp]
    cases hacquired with
    | h2 s' _ hs' =>
      rw [group_setGroup, if_pos hcmp]
      exact hs'.symm.trans hgroup
    | h1 _ _ _ _ hstale | none _ hstale => exact absurd (hvalid hcmp) (by simp [hstale s hgroup])

/-- `body_full` returns HTTP/1 sessions only. -/
private theorem h2Session_consumed {o : ResponseId} {response : HttpResponse} {success : Bool}
    {dead : List SessionId} (hconsumed : Consumed σ o response success dead σ₁) (key : SessionKey) :
    (σ₁.group key).h2Session = (σ.group key).h2Session := by
  have hset : ∀ (key₀ : SessionKey) (h1Idle : List SessionId),
      (((markConsumed σ o response).setGroup key₀
        { σ.group key₀ with h1Idle := h1Idle }).group key).h2Session = (σ.group key).h2Session := by
    intro key₀ h1Idle
    rw [group_setGroup]
    split
    case isTrue hcmp => rw [group_congr σ hcmp]
    case isFalse => rfl
  cases hconsumed with
  | again => rfl
  | kept => rfl
  | pooled key₀ => exact hset key₀ _
  | closed key₀ s' σ₂ _ _ _ hor =>
    rw [group_close]
    rcases hor with rfl | rfl
    · rfl
    · exact hset key₀ _

/-- A valid HTTP/2 session stays in its group. -/
private theorem h2Session_acts (hkeeps : KeepsValid V h σ l) (hacts : Acts σ l σ₁)
    (hstored : (σ.group key).h2Session = some s) (hvalid : ValidH2 V h σ s) :
    (σ₁.group key).h2Session = some s := by
  -- a request that comes with a key of this group asks `is_valid`
  have hasked : ∀ {q key₀ dead dead' socket}, KeepsValid V h σ (.request q key₀ dead dead' socket) →
      SessionKey.cmp key₀ key = .eq → σ.isValid dead s = true := by
    intro q key₀ dead dead' socket hmeans hcmp
    obtain ⟨session, hs, -, hopen, hnot⟩ := hvalid
    have hdead : s ∉ dead := fun hmem => hnot (hmeans s hmem (by rwa [group_congr σ hcmp]))
    simp [HttpClient.isValid, hs, hopen, hdead]
  cases hacts with
  | acquired _ hacquired | unconnected _ hacquired | connecting _ hacquired =>
    have hkept := h2Session_acquired hacquired hstored (hasked hkeeps)
    exact hkept
  | @establishedH2 q key₀ cleared d hphase =>
    have hcmp : SessionKey.cmp key₀ key ≠ .eq := by
      intro hcmp
      exact hkeeps key₀ cleared d s hphase (by rwa [group_congr σ hcmp]) hvalid
    have hgroup := group_setGroup (σ.newSession ⟨.http2, key₀, d⟩) key₀ key
      { σ.group key₀ with h2Session := some σ.nextSession }
    rw [if_neg hcmp] at hgroup
    show (((σ.newSession ⟨.http2, key₀, d⟩).setGroup key₀ _).group key).h2Session = some s
    rw [hgroup]
    exact hstored
  | bodyDone _ _ _ hconsumed => exact (h2Session_consumed hconsumed key).trans hstored
  | closeAsync | closeFailed | closeResumed => exact hkeeps.elim
  | _ => exact hstored

/-- A new HTTP/2 session is in its group. -/
private theorem newH2_acts (hacts : Acts σ l σ₁) {session : AnySession}
    (hs : σ₁.sessions.get? s = some session) (hversion : session.httpVersion = .http2) :
    σ.sessions.get? s = some session ∨
      (σ₁.group session.sessionKey).h2Session = some s := by
  rcases acts_opens hacts with ⟨-, hsame, -⟩ | ⟨q, useH2, key₀, cleared, d, rfl, hphase, hset, -⟩
  · exact .inl (hsame ▸ hs)
  · rw [hset, Store.get?_set] at hs
    split at hs
    case isFalse => exact .inl hs
    case isTrue heq =>
      obtain rfl := Option.some.inj hs
      right
      cases hacts with
      | establishedH1 => cases hversion
      | establishedH2 hphase' =>
        obtain ⟨rfl, rfl, rfl⟩ :=
          ExchangePhase.establishing.inj (Option.some.inj (hphase.symm.trans hphase'))
        have hgroup := group_setGroup (σ.newSession ⟨.http2, key₀, d⟩) key₀ key₀
          { σ.group key₀ with h2Session := some σ.nextSession }
        rw [if_pos Std.ReflCmp.compare_self] at hgroup
        rw [heq]
        exact congrArg HostGroup.h2Session hgroup

/-- A session that is valid behind a step and existed before was valid before. -/
private theorem ValidH2.before (hrefs : RefsInv σ) (hused : UsedInv σ) (hacts : Acts σ l σ₁)
    {session : AnySession} (hs : σ.sessions.get? s = some session)
    (hvalid : ValidH2 V (h ++ [l]) σ₁ s) : ValidH2 V h σ s := by
  obtain ⟨session', hs', hversion, hopen, hnot⟩ := hvalid
  obtain rfl := Option.some.inj ((acts_sessions hrefs hacts hs).symm.trans hs')
  refine ⟨session, hs, hversion, ?_, fun hinvalid => hnot (V.mono h l s hinvalid)⟩
  rcases acts_sockets hacts session.socket with hsame | hclosed | ⟨hunused, -⟩
  · rw [← hsame, hopen]
  · simp [hclosed] at hopen
  · exact absurd hunused (hused.session s session hs)

/-- The destructors make no session valid. -/
private theorem ValidH2.of_reap (hvalid : ValidH2 V h σ.reap s) : ValidH2 V h σ s := by
  obtain ⟨session, hs, hversion, hopen, hnot⟩ := hvalid
  refine ⟨session, (mem_of_reap hs).1, hversion, ?_, hnot⟩
  have hsockets : σ.reap.sockets session.socket =
      if σ.ClosedByDestructor session.socket then .closed else σ.sockets session.socket := rfl
  rw [hsockets] at hopen
  split at hopen
  · simp at hopen
  · exact hopen

end Step

/-! ## What a suspended coroutine finds -/

/-- The key of a request that is suspended in `session_connect`. -/
private def connectKey : ExchangePhase → Option SessionKey
  | .connecting key _ _ | .establishing key _ _ => some key
  | _ => none

section Suspended

variable {σ σ₁ : HttpClient} {l : ClientLabel} {key : SessionKey} {s : SessionId}

private theorem acts_nextSession (hacts : Acts σ l σ₁) :
    σ₁.nextSession = σ.nextSession + if l.opensSession then 1 else 0 := by
  rcases acts_opens hacts with ⟨hl, -, hnext⟩ | ⟨q, useH2, key, cleared, d, rfl, -, -, hnext, -⟩
  · rw [hnext, hl]
    rfl
  · exact hnext

/-- An HTTP/2 session in a group was there before, or it has just been stored. -/
private theorem acts_h2Session (hacts : Acts σ l σ₁) (hs : (σ₁.group key).h2Session = some s) :
    (σ.group key).h2Session = some s ∨
      ∃ q key₀ cleared d, l = .established q true ∧
        σ.requests.get? q = some (.establishing key₀ cleared d) ∧
        SessionKey.cmp key₀ key = .eq ∧ s = σ.nextSession := by
  -- what takes away from the pool stores nothing
  have hshrinks : ∀ {σ'}, Shrinks σ σ' → (σ'.group key).h2Session = some s →
      (σ.group key).h2Session = some s := by
    intro σ' h hs'
    rcases h.h2Session key with hnone | hsame
    · simp [hnone] at hs'
    · exact hsame ▸ hs'
  cases hacts with
  | acquired _ hacquired | unconnected _ hacquired | connecting _ hacquired =>
    exact .inl (hshrinks (shrinks_of_acquired hacquired) hs)
  | @establishedH2 q key₀ cleared d hphase =>
    have hgroup := group_setGroup (σ.newSession ⟨.http2, key₀, d⟩) key₀ key
      { σ.group key₀ with h2Session := some σ.nextSession }
    have hs : (((σ.newSession ⟨.http2, key₀, d⟩).setGroup key₀
        { σ.group key₀ with h2Session := some σ.nextSession }).group key).h2Session = some s := hs
    rw [hgroup] at hs
    split at hs
    case isTrue hcmp =>
      exact .inr ⟨q, key₀, cleared, d, rfl, hphase, hcmp, (Option.some.inj hs).symm⟩
    case isFalse => exact .inl hs
  | bodyDone _ _ _ hconsumed => exact .inl ((h2Session_consumed hconsumed key).symm.trans hs)
  | closeAsync => exact .inl (hshrinks (shrinks_closeFrom σ _ _) hs)
  | closeResumed => exact .inl (hshrinks (shrinks_closeResumed σ _ _ _) hs)
  | _ => exact .inl hs

/-- A request that is suspended in `session_connect` was there before, or it has just looked and
    found no session. -/
private theorem acts_connectKey (hacts : Acts σ l σ₁) {q : RequestId} {phase : ExchangePhase}
    (hphase : σ₁.requests.get? q = some phase) (hkey : connectKey phase = some key) :
    (∃ phase₀, σ.requests.get? q = some phase₀ ∧ connectKey phase₀ = some key) ∨
      (∃ dead dead' socket, l = .request q key dead dead' socket) ∧ σ.requests.get? q = none ∧
        (σ₁.group key).h2Session = none := by
  have hstep := acts_phases hacts q
  rw [hphase] at hstep
  generalize σ.requests.get? q = old at hstep ⊢
  cases hstep with
  | same => exact .inl ⟨phase, rfl, hkey⟩
  | connecting key₀ dead dead' cleared d _ _ hgroup =>
    obtain rfl := Option.some.inj hkey
    exact .inr ⟨⟨dead, dead', some d, rfl⟩, rfl, hgroup⟩
  | connected key₀ cleared d => exact .inl ⟨.connecting key₀ cleared d, rfl, hkey⟩
  | _ => simp [connectKey] at hkey

/-- A request that has not been made has not been made before. -/
private theorem not_looks_of_acts (hacts : Acts σ l σ₁) {q : RequestId}
    (hnone : σ₁.requests.get? q = none) : σ.requests.get? q = none ∧ ¬Looks q l := by
  have hold : σ.requests.get? q = none := by
    have hphase := acts_phases hacts q
    rw [hnone] at hphase
    generalize σ.requests.get? q = phase at hphase
    cases hphase
    rfl
  refine ⟨hold, fun hlooks => ?_⟩
  cases hacts with
  | @acquired q₀ | @unconnected q₀ | @connecting q₀ => simp [show q₀ = q from hlooks] at hnone
  | _ => exact hlooks

end Suspended

/-! ### The invariant -/

/-- What is known about the group of a suspended request: since it has looked, HTTP/2 sessions have
    only come in by being stored. -/
private structure StoredInv (h : List ClientLabel) (σ : HttpClient) : Prop where
  opened : σ.nextSession = sessionsOpened h
  fresh : ∀ q, σ.requests.get? q = none → requestKey h q = none
  connecting : ∀ q phase key, σ.requests.get? q = some phase → connectKey phase = some key →
    requestKey h q = some key ∧ (∃ l ∈ h, Looks q l) ∧
      ∀ s, (σ.group key).h2Session = some s → StoredSince q h key s

section StoredInv

variable {h : List ClientLabel} {σ σ₁ : HttpClient} {l : ClientLabel}

/-- A request that was suspended before the step: what has come into its group has been stored by
    the step. -/
private theorem StoredInv.connecting_of_acts (hinv : StoredInv h σ) (hacts : Acts σ l σ₁)
    {q : RequestId} {phase : ExchangePhase} {key : SessionKey}
    (hphase : σ₁.requests.get? q = some phase) (hkey : connectKey phase = some key) :
    requestKey (h ++ [l]) q = some key ∧ (∃ l' ∈ h ++ [l], Looks q l') ∧
      ∀ s, (σ₁.group key).h2Session = some s → StoredSince q (h ++ [l]) key s := by
  rcases acts_connectKey hacts hphase hkey with
    ⟨phase₀, hphase₀, hkey₀⟩ | ⟨⟨dead, dead', d, rfl⟩, hfresh, hnone⟩
  · obtain ⟨hrequest, ⟨l', hmem, hlooks⟩, hstored⟩ := hinv.connecting q phase₀ key hphase₀ hkey₀
    refine ⟨requestKey_of_before hrequest, ⟨l', List.mem_append_left _ hmem, hlooks⟩, fun s hs =>
      ?_⟩
    rcases acts_h2Session hacts hs with hold | ⟨q', key₀, cleared, d, rfl, hphase', hcmp, rfl⟩
    · exact (hstored s hold).snoc
    · have hkey' := (hinv.connecting q' _ key₀ hphase' rfl).1
      exact ⟨h, q', key₀, [], rfl, ⟨l', hmem, hlooks⟩, hkey', hcmp, hinv.opened⟩
  · -- the request has just looked
    have hnew := hinv.fresh q hfresh
    refine ⟨?_, ⟨_, List.mem_append_right h (List.mem_singleton_self _), rfl⟩,
      fun s hs => by simp [hnone] at hs⟩
    rw [requestKey] at hnew
    rw [requestKey, List.findSome?_append, hnew]
    simp

private theorem storedInv_step (hinv : StoredInv h σ) (hacts : Acts σ l σ₁) :
    StoredInv (h ++ [l]) σ₁.reap where
  opened := by
    show σ₁.nextSession = sessionsOpened (h ++ [l])
    rw [acts_nextSession hacts, hinv.opened, sessionsOpened, sessionsOpened, List.countP_append,
      List.countP_singleton]
  fresh q hnone := by
    have hnone : σ₁.requests.get? q = none := hnone
    obtain ⟨hold, hl⟩ := not_looks_of_acts hacts hnone
    exact requestKey_of_not_looks (hinv.fresh q hold) hl
  connecting _ _ _ hphase hkey := hinv.connecting_of_acts hacts hphase hkey

private theorem storedInv_initial : StoredInv [] HttpClient.initial where
  opened := rfl
  fresh _ _ := rfl
  connecting q phase key hphase := by simp [HttpClient.initial] at hphase

end StoredInv

/-! ## Runs -/

private structure H2Inv (V : Validity) (h : List ClientLabel) (σ : HttpClient) : Prop where
  refs : RefsInv σ
  used : UsedInv σ
  suspended : StoredInv h σ
  stored : ∀ s session, σ.sessions.get? s = some session → ValidH2 V h σ s →
    (σ.group session.sessionKey).h2Session = some s

/-- What a coroutine overwrites behind its suspension has been stored since, so the interleaving
    keeps the valid sessions. -/
private theorem keepsValid_of_noneStored {V : Validity} {h : List ClientLabel} {σ : HttpClient}
    {l : ClientLabel} (hinv : H2Inv V h σ) (hanswers : Answers V h σ l)
    (hnone : NoneStored V h σ l) : KeepsValid V h σ l := by
  cases l with
  | request q key dead dead' socket =>
    intro s hdead hs
    exact hanswers s hdead (hinv.refs.h2Session key s hs)
  | established q useH2 =>
    cases useH2 with
    | false => trivial
    | true =>
      intro key cleared d s hphase hs
      obtain ⟨hkey, -, hstored⟩ := hinv.suspended.connecting q _ key hphase rfl
      exact hnone key s hkey (hstored s hs)
  | closeAsync | closeResumed => exact hnone
  | _ => trivial

private theorem h2Inv_step (V : Validity) (h : List ClientLabel) (σ : HttpClient) (l : ClientLabel)
    (σ' : HttpClient) (hinv : H2Inv V h σ) (hcond : Answers V h σ l ∧ NoneStored V h σ l)
    (hstep : σ.step l = some σ') : H2Inv V (h ++ [l]) σ' := by
  have hkeeps := keepsValid_of_noneStored hinv hcond.1 hcond.2
  have hrefs := refsInv_step hinv.refs hstep
  have hused := usedInv_step hinv.used hstep
  obtain ⟨σ₁, hacts, rfl⟩ := acts_of_step hstep
  refine ⟨hrefs, hused, storedInv_step hinv.suspended hacts, fun s session hs hvalid => ?_⟩
  have hvalid₁ := hvalid.of_reap
  obtain ⟨session₁, hs₁, hversion, -⟩ := id hvalid₁
  obtain rfl := Option.some.inj (hs₁.symm.trans (mem_of_reap hs).1)
  show (σ₁.group session₁.sessionKey).h2Session = some s
  rcases newH2_acts hacts hs₁ hversion with hold | hnew
  · have hvalid₀ := hvalid₁.before hinv.refs hinv.used hacts hold
    exact h2Session_acts hkeeps hacts (hinv.stored s session₁ hold hvalid₀) hvalid₀
  · exact hnew

private theorem h2Inv_initial (V : Validity) : H2Inv V [] HttpClient.initial :=
  ⟨refsInv_initial, usedInv_initial, storedInv_initial,
    fun s session hs => by simp [HttpClient.initial] at hs⟩

/-- A valid HTTP/2 session is not displaced: in every interleaving of requests in which no caller
    stores its session behind another caller of its key whose session is still valid, every valid
    HTTP/2 session is the one in the group of its key, and no key has two of them.  The condition on
    `is_valid` says what its answers mean. -/
theorem h2_not_displaced (V : Validity) (ls : List ClientLabel) (σ : HttpClient)
    (hanswers : Run.Along HttpClient.step (Answers V) [] HttpClient.initial ls)
    (hnone : Run.Along HttpClient.step (NoneStored V) [] HttpClient.initial ls)
    (hrun : Run.run HttpClient.step HttpClient.initial ls = some σ) :
    (∀ s session, σ.sessions.get? s = some session → ValidH2 V ls σ s →
      (σ.group session.sessionKey).h2Session = some s) ∧
    ∀ s s' session session', σ.sessions.get? s = some session →
      σ.sessions.get? s' = some session' →
      SessionKey.cmp session.sessionKey session'.sessionKey = .eq →
      ValidH2 V ls σ s → ValidH2 V ls σ s' → s = s' := by
  have hinv : H2Inv V ls σ :=
    Run.invariant_of_run (h2Inv_step V) (h2Inv_initial V) (hanswers.and hnone) hrun
  refine ⟨hinv.stored, fun s s' session session' hs hs' hcmp hvalid hvalid' => ?_⟩
  have hstored := hinv.stored s session hs hvalid
  have hstored' := hinv.stored s' session' hs' hvalid'
  rw [group_congr σ hcmp] at hstored
  exact Option.some.inj (hstored.symm.trans hstored')

/-- A TLS connection without a proxy. -/
def tlsKey : SessionKey := { plainKey with isSsl := true }

/-- Sessions that stay valid as long as they are open. -/
def alwaysValid : Validity := ⟨fun _ _ => False, fun _ _ _ h => h⟩

/-- Two requests share a session. -/
def sharedSession : List ClientLabel :=
  [.request 0 tlsKey [] [] (some 5), .connected 0, .established 0 true,
    .request 1 tlsKey [] [] none]

theorem h2_not_displaced_sharedSession :
    ∃ σ, Run.Along HttpClient.step (NoneStored alwaysValid) [] HttpClient.initial sharedSession ∧
      Run.run HttpClient.step HttpClient.initial sharedSession = some σ ∧
      ValidH2 alwaysValid sharedSession σ 0 ∧ (σ.group tlsKey).h2Session = some 0 := by
  have hanswers :
      Run.Along HttpClient.step (Answers alwaysValid) [] HttpClient.initial sharedSession :=
    .cons rfl (by simp [Answers]) <| .cons rfl trivial <| .cons rfl trivial <|
      .cons rfl (by simp [Answers]) trivial
  have hnone :
      Run.Along HttpClient.step (NoneStored alwaysValid) [] HttpClient.initial sharedSession := by
    refine .cons rfl trivial <| .cons rfl trivial <| .cons rfl ?_ <| .cons rfl trivial trivial
    -- nobody has stored anything in front of the first session
    rintro key s - ⟨before, q, key', after, heq, -⟩
    have hmem : ClientLabel.established q true ∈ before ++ .established q true :: after := by simp
    rw [← heq] at hmem
    simp at hmem
  have hrun : ∃ σ, Run.run HttpClient.step HttpClient.initial sharedSession = some σ ∧
      σ.sessions.get? 0 = some ⟨.http2, tlsKey, 5⟩ ∧ σ.sockets 5 = .opened := ⟨_, rfl, rfl, rfl⟩
  obtain ⟨σ, hrun, hs, hopen⟩ := hrun
  have hvalid : ValidH2 alwaysValid sharedSession σ 0 := ⟨_, hs, rfl, hopen, id⟩
  exact ⟨σ, hnone, hrun, hvalid,
    (h2_not_displaced alwaysValid sharedSession σ hanswers hnone hrun).1 0 _ hs hvalid⟩

/-- Two requests connect at the same time: the session that becomes ready last replaces the first
    one, which is valid and in use. -/
theorem h2_displaced :
    let ls : List ClientLabel :=
      [.request 0 tlsKey [] [] (some 5), .request 1 tlsKey [] [] (some 6), .connected 0,
        .connected 1, .established 0 true, .established 1 true]
    ∃ σ, Run.run HttpClient.step HttpClient.initial ls = some σ ∧
      ValidH2 alwaysValid ls σ 0 ∧ ValidH2 alwaysValid ls σ 1 ∧
      (σ.group tlsKey).h2Session = some 1 :=
  ⟨_, rfl, ⟨⟨.http2, tlsKey, 5⟩, rfl, rfl, rfl, id⟩, ⟨⟨.http2, tlsKey, 6⟩, rfl, rfl, rfl, id⟩, rfl⟩

end Ppnt.Spec
