import Ppnt.Spec.ClientSockets

/-!
# Descriptors of the session pool

`TcpStream` has no destructor, so a descriptor is lost when the last owner of an HTTP/1 session goes
away without `close`, or when `session_connect` fails behind `TcpStream::connect`.  This file says
which steps avoid that (`Tidy`) and proves that then every open descriptor has an owner.
-/

namespace Ppnt.Spec

open Ppnt.Native

/-- The descriptor is stored in a session that the pool, a request under way or a response owns, or
    held by a request that is still connecting. -/
def Held (σ : HttpClient) (d : SocketId) : Prop :=
  (∃ s session, σ.sessions.get? s = some session ∧ session.socket = d ∧
      ((∃ key, (σ.group key).Holds s) ∨
        (∃ q phase, σ.requests.get? q = some phase ∧ phase.session? = some s) ∨
        ∃ o response, σ.responses.get? o = some response ∧ response.session = some s)) ∨
    ∃ q phase, σ.requests.get? q = some phase ∧ phase.socket? = some d

/-- The session has an open descriptor that its destructor does not close. -/
def OpenH1 (σ : HttpClient) (s : SessionId) : Prop :=
  ∃ session, σ.sessions.get? s = some session ∧ session.httpVersion ≠ .http2 ∧
    σ.sockets session.socket = .opened

/-- Some response other than `o` refers to the session. -/
def HeldByOther (σ : HttpClient) (o : ResponseId) (s : SessionId) : Prop :=
  (∃ key, (σ.group key).Holds s) ∨
    (∃ q phase, σ.requests.get? q = some phase ∧ phase.session? = some s) ∨
    ∃ o' response, o' ≠ o ∧ σ.responses.get? o' = some response ∧ response.session = some s

/-- Some response refers to the session. -/
def HeldByResponse (σ : HttpClient) (s : SessionId) : Prop :=
  ∃ o response, σ.responses.get? o = some response ∧ response.session = some s

/-- The steps that lose no descriptor.  `acquire_session` drops no idle session with an open
    descriptor, connecting does not fail behind `TcpStream::connect`, no HTTP/1 request fails with
    an open descriptor, the last owner of an open HTTP/1 session is not dropped with a response, and
    nothing has been released into the groups that `close_async` has behind it. -/
def Tidy (σ : HttpClient) : ClientLabel → Prop
  | .request _ key dead dead' _ => ∀ s ∈ (σ.group key).h1Idle, Rejected σ dead dead' s →
      OpenH1 σ s → HeldByResponse σ s
  | .establishFailed _ => False
  | .requestFailed q => ∀ key s, σ.requests.get? q = some (.exchanging key s) → OpenH1 σ s →
      HeldByResponse σ s
  | .drop o => ∀ response s, σ.responses.get? o = some response → response.session = some s →
      OpenH1 σ s → HeldByOther σ o s
  | .assign target source => target ≠ source → ∀ response s,
      σ.responses.get? target = some response → response.session = some s → OpenH1 σ s →
      HeldByOther σ target s
  | .closeResumed x true => ∀ key cleared s, σ.closers x = some (.closing key cleared s) →
      ∀ key', SessionKey.cmp key' key = .lt → ∀ s' ∈ (σ.group key').h1Idle, OpenH1 σ s' →
        HeldByResponse σ s'
  | _ => True

/-! ## Owners -/

private theorem held_iff {σ : HttpClient} {d : SocketId} :
    Held σ d ↔
      (∃ s session, σ.sessions.get? s = some session ∧ session.socket = d ∧ σ.Owned s) ∨
        ∃ q phase, σ.requests.get? q = some phase ∧ phase.socket? = some d := by
  simp only [Held, owned_iff]

variable {key key' : SessionKey} {dead : List SessionId}

section Owners

variable {σ : HttpClient} {s : SessionId}

private theorem owned_of_idle (h : s ∈ (σ.group key).h1Idle) : σ.Owned s :=
  (owned_iff σ s).mpr (.inl ⟨key, .inr h⟩)

private theorem owned_of_request {q : RequestId}
    (h : σ.requests.get? q = some (.exchanging key s)) : σ.Owned s :=
  (owned_iff σ s).mpr (.inr (.inl ⟨q, _, h, rfl⟩))

private theorem owned_of_response (h : HeldByResponse σ s) : σ.Owned s :=
  (owned_iff σ s).mpr (.inr (.inr h))

/-- The owners of an HTTP/1 session. -/
private theorem owned_cases {σ₁ : HttpClient} (hrefs : RefsInv σ) (hopen : OpenH1 σ s)
    (howned : σ.Owned s) (hidle : ∀ key, s ∈ (σ.group key).h1Idle → σ₁.Owned s)
    (hrequest : ∀ q key, σ.requests.get? q = some (.exchanging key s) → σ₁.Owned s)
    (hresponse : ∀ o response, σ.responses.get? o = some response → response.session = some s →
      σ₁.Owned s) : σ₁.Owned s := by
  rcases (owned_iff σ s).mp howned with ⟨key, hkey⟩ | ⟨q, phase, hq, hs⟩ | ⟨o, response, ho, hs⟩
  · rcases hkey with h2 | h1
    · obtain ⟨session, hs, hversion, -⟩ := hopen
      obtain ⟨session', hs', hversion'⟩ := hrefs.h2Session key s h2
      obtain rfl := Option.some.inj (hs.symm.trans hs')
      exact absurd hversion' hversion
    · exact hidle key h1
  · cases phase with
    | exchanging key s' =>
      obtain rfl : s' = s := by simpa [ExchangePhase.session?] using hs
      exact hrequest q key hq
    | _ => simp [ExchangePhase.session?] at hs
  · exact hresponse o response ho hs

end Owners

/-! ## Closing -/

section Closing

variable {σ σ' : HttpClient} {s : SessionId}

private theorem OpenH1.of_shrinks (hshrinks : Shrinks σ σ') (h : OpenH1 σ' s) : OpenH1 σ s := by
  obtain ⟨session, hs, hversion, hopen⟩ := h
  refine ⟨session, hshrinks.users.sessions ▸ hs, hversion, ?_⟩
  rcases hshrinks.sockets session.socket with hsame | hclosed
  · rw [← hsame, hopen]
  · simp [hclosed] at hopen

private theorem not_openH1_close (σ : HttpClient) (s : SessionId) : ¬OpenH1 (σ.close s) s := by
  rintro ⟨session, hs, -, hopen⟩
  rw [(shrinks_close σ s).users.sessions] at hs
  simp [HttpClient.close, hs] at hopen

private theorem not_openH1_foldl_close (l : List SessionId) (σ : HttpClient) (hs : s ∈ l) :
    ¬OpenH1 (l.foldl HttpClient.close σ) s := by
  induction l generalizing σ with
  | nil => simp at hs
  | cons s' l ih =>
    intro hopen
    rcases List.mem_cons.mp hs with rfl | hmem
    · exact not_openH1_close σ s (hopen.of_shrinks (shrinks_foldl_close l _))
    · exact ih _ hmem hopen

private theorem not_openH1_drain (hs : s ∈ (σ.group key).h1Idle) :
    ¬OpenH1 (σ.drain key) s :=
  not_openH1_foldl_close _ σ hs

/-- The loop of `close_async` closes the sessions of the groups that it goes through. -/
private theorem closeGroups_idle (keys : List SessionKey) (σ : HttpClient)
    (hs : s ∈ (σ.group key').h1Idle) (hopen : OpenH1 (σ.closeGroups keys).1 s) :
    s ∈ ((σ.closeGroups keys).1.group key').h1Idle ∨
      ∀ key ∈ keys, SessionKey.cmp key key' ≠ .eq := by
  induction keys generalizing σ with
  | nil => exact .inr (by simp)
  | cons key keys ih =>
    simp only [HttpClient.closeGroups] at hopen ⊢
    split at hopen
    case h_1 =>
      rw [group_close]
      exact .inl hs
    case h_2 =>
      by_cases hcmp : SessionKey.cmp key key' = .eq
      · rw [← group_congr σ hcmp] at hs
        exact absurd (hopen.of_shrinks (shrinks_closeGroups keys _)) (not_openH1_drain hs)
      · have hdrain : (σ.drain key).group key' = σ.group key' := by
          simp [HttpClient.drain, group_setGroup, hcmp]
        refine (ih (σ.drain key) (hdrain ▸ hs) hopen).imp id fun hrest key₁ hkey₁ => ?_
        rcases List.mem_cons.mp hkey₁ with rfl | hmem
        · exact hcmp
        · exact hrest key₁ hmem

private theorem closeFrom_idle (x : CloserId) (keys : List SessionKey) (σ : HttpClient)
    (hs : s ∈ (σ.group key').h1Idle) (hopen : OpenH1 (σ.closeFrom x keys) s) :
    s ∈ ((σ.closeFrom x keys).group key').h1Idle ∨
      ∀ key ∈ keys, SessionKey.cmp key key' ≠ .eq := by
  have h := closeGroups_idle keys σ hs
  unfold HttpClient.closeFrom at hopen ⊢
  split at hopen
  all_goals
    rename_i heq
    rw [heq] at h
    exact h hopen

end Closing

section Acts

variable {σ σ₁ : HttpClient} {l : ClientLabel}

/-! ## No HTTP/1 session with an open descriptor loses its last owner -/

/-- The idle sessions that `acquire_session` takes out of the pool. -/
private theorem acquired_idle {dead' : List SessionId} {found : Option SessionId} {s : SessionId}
    (hacquired : Acquired σ key dead dead' (σ₁, found)) (hs : s ∈ (σ.group key').h1Idle) :
    s ∈ (σ₁.group key').h1Idle ∨ found = some s ∨
      (s ∈ (σ.group key).h1Idle ∧ Rejected σ dead dead' s) := by
  by_cases hcmp : SessionKey.cmp key key' = .eq
  case neg =>
    -- another group
    refine .inl ?_
    cases hacquired <;> simpa [group_setGroup, hcmp] using hs
  case pos =>
    rw [← group_congr σ hcmp] at hs
    cases hacquired with
    | h2 s' h1Idle _ _ hpruned =>
      rcases hpruned s hs with hkept | hrejected
      · exact .inl (by simpa [group_setGroup, hcmp] using hkept)
      · exact .inr (.inr ⟨hs, hrejected⟩)
    | h1 s' rest _ hpruned =>
      rcases hpruned s hs with rfl | hkept | hrejected
      · exact .inr (.inl rfl)
      · exact .inl (by simpa [group_setGroup, hcmp] using hkept)
      · exact .inr (.inr ⟨hs, hrejected⟩)
    | none hpruned => exact .inr (.inr ⟨hs, hpruned s hs⟩)

/-- `acquire_session` keeps the owners of a session, but for the request that gets it. -/
private theorem owned_acquired {dead' : List SessionId} {found : Option SessionId} {s : SessionId}
    {q : RequestId} {socket : Option SocketId} {σ' : HttpClient} (hrefs : RefsInv σ)
    (hfresh : σ.requests.get? q = none) (hacquired : Acquired σ key dead dead' (σ', found))
    (htidy : Tidy σ (.request q key dead dead' socket)) (hopen : OpenH1 σ s) (howned : σ.Owned s)
    (hpool : σ₁.pool = σ'.pool) (hresponses : σ₁.responses = σ'.responses)
    (hrequests : ∀ q', q' ≠ q → σ₁.requests.get? q' = σ'.requests.get? q')
    (hfound : found = some s → σ₁.Owned s) : σ₁.Owned s := by
  have husers := (shrinks_of_acquired hacquired).users
  have hresponse : HeldByResponse σ s → σ₁.Owned s := fun ⟨o, response, ho, hs⟩ =>
    owned_of_response ⟨o, response, by rw [hresponses, husers.responses, ho], hs⟩
  refine owned_cases hrefs hopen howned (fun key' hs => ?_) (fun q' key' hq => ?_)
    fun o response ho hs => hresponse ⟨o, response, ho, hs⟩
  · rcases acquired_idle hacquired hs with hkept | hgiven | ⟨hmem, hrejected⟩
    · exact owned_of_idle (by simpa [HttpClient.group, hpool] using hkept)
    · exact hfound hgiven
    · exact hresponse (htidy s hmem hrejected hopen)
  · have hne : q' ≠ q := by
      rintro rfl
      simp [hfresh] at hq
    exact owned_of_request (by rw [hrequests q' hne, husers.requests, hq])

/-- `body_full` keeps the owners of a session. -/
private theorem owned_consumed {o : ResponseId} {response : HttpResponse} {success : Bool}
    {s : SessionId} (hrefs : RefsInv σ) (hopen : OpenH1 σ s) (howned : σ.Owned s)
    (ho : σ.responses.get? o = some response) (hconsumed : Consumed σ o response success dead σ₁) :
    σ₁.Owned s := by
  -- only the response changes, and it keeps its session
  have hkept : ∀ {σ' : HttpClient}, σ'.requests = σ.requests →
      σ'.responses = (markConsumed σ o response).responses →
      (∀ key, s ∈ (σ.group key).h1Idle → s ∈ (σ'.group key).h1Idle) → σ'.Owned s := by
    intro σ' hrequests hresponses hidle
    refine owned_cases hrefs hopen howned (fun key hs => owned_of_idle (hidle key hs))
      (fun q key hq => owned_of_request (hrequests ▸ hq)) fun o' response' ho' hs => ?_
    by_cases hne : o' = o
    · subst hne
      obtain rfl := Option.some.inj (ho.symm.trans ho')
      exact owned_of_response ⟨o', { response with bodyConsumed := true },
        by rw [hresponses]; simp [markConsumed], hs⟩
    · exact owned_of_response ⟨o', response', by rw [hresponses]; simp [markConsumed, hne, ho'], hs⟩
  cases hconsumed with
  | again => exact howned
  | kept => exact hkept rfl rfl fun _ hs => hs
  | pooled key s' =>
    refine hkept rfl rfl fun key' hs => ?_
    rw [group_setGroup]
    split
    case isTrue hcmp => exact List.mem_append_left _ (group_congr σ hcmp ▸ hs)
    case isFalse => exact hs
  | closed key s' σ₂ _ _ _ hsame =>
    have husers := (shrinks_close σ₂ s').users
    rcases hsame with rfl | rfl
    · exact hkept husers.requests husers.responses fun key' hs => by rwa [group_close]
    · refine hkept husers.requests husers.responses fun key' hs => ?_
      rw [group_close, h1Idle_setGroup (markConsumed σ o response) key key' (g := σ.group key) rfl]
      exact hs

/-- A request that goes on keeps the owners of a session, if it did not own it itself. -/
private theorem owned_requests {s : SessionId} (q : RequestId) (hrefs : RefsInv σ)
    (hopen : OpenH1 σ s) (howned : σ.Owned s)
    (hidle : ∀ key, s ∈ (σ.group key).h1Idle → s ∈ (σ₁.group key).h1Idle)
    (hresponses : HeldByResponse σ s → HeldByResponse σ₁ s)
    (hrequests : ∀ q', q' ≠ q → σ₁.requests.get? q' = σ.requests.get? q')
    (hself : ∀ key, σ.requests.get? q = some (.exchanging key s) → σ₁.Owned s) : σ₁.Owned s := by
  refine owned_cases hrefs hopen howned (fun key hs => owned_of_idle (hidle key hs))
    (fun q' key hq => ?_) fun o response ho hs =>
    owned_of_response (hresponses ⟨o, response, ho, hs⟩)
  by_cases hne : q' = q
  · exact hself key (hne ▸ hq)
  · exact owned_of_request (by rw [hrequests q' hne, hq])

/-- A response that goes away keeps the owners of a session, if something else owns it. -/
private theorem owned_responses {s : SessionId} (o : ResponseId) (hrefs : RefsInv σ)
    (hopen : OpenH1 σ s) (howned : σ.Owned s) (hpool : σ₁.pool = σ.pool)
    (hrequests : σ₁.requests = σ.requests)
    (hresponses : ∀ o' response, o' ≠ o → σ.responses.get? o' = some response →
      response.session = some s → HeldByResponse σ₁ s)
    (hself : ∀ response, σ.responses.get? o = some response → response.session = some s →
      HeldByResponse σ₁ s ∨ HeldByOther σ o s) : σ₁.Owned s := by
  have hidle : ∀ key, (σ.group key).Holds s → σ₁.Owned s := fun key hs =>
    (owned_iff σ₁ s).mpr (.inl ⟨key, by simpa [HttpClient.group, hpool] using hs⟩)
  have hrequest : ∀ q phase, σ.requests.get? q = some phase → phase.session? = some s →
      σ₁.Owned s := fun q phase hq hs =>
    (owned_iff σ₁ s).mpr (.inr (.inl ⟨q, phase, hrequests ▸ hq, hs⟩))
  refine owned_cases hrefs hopen howned (fun key hs => hidle key (.inr hs))
    (fun q key hq => hrequest q _ hq rfl) fun o' response ho' hs => ?_
  by_cases hne : o' = o
  · subst hne
    rcases hself response ho' hs with hheld | ⟨key, hkey⟩ | ⟨q, phase, hq, hs⟩ | hother
    · exact owned_of_response hheld
    · exact hidle key hkey
    · exact hrequest q phase hq hs
    · obtain ⟨o₂, response₂, hne₂, ho₂, hs₂⟩ := hother
      exact owned_of_response (hresponses o₂ response₂ hne₂ ho₂ hs₂)
  · exact owned_of_response (hresponses o' response hne ho' hs)

/-- Closing the pool drops sessions behind their `close` only. -/
private theorem owned_closing {s : SessionId} (hrefs : RefsInv σ) (hopen : OpenH1 σ s)
    (howned : σ.Owned s) (hshrinks : Shrinks σ σ₁)
    (hidle : ∀ key, s ∈ (σ.group key).h1Idle →
      s ∈ (σ₁.group key).h1Idle ∨ HeldByResponse σ s) : σ₁.Owned s := by
  have hresponse : HeldByResponse σ s → σ₁.Owned s := fun ⟨o, response, ho, hs⟩ =>
    owned_of_response ⟨o, response, hshrinks.users.responses ▸ ho, hs⟩
  refine owned_cases hrefs hopen howned (fun key hs => ?_)
    (fun q key hq => owned_of_request (hshrinks.users.requests ▸ hq))
    fun o response ho hs => hresponse ⟨o, response, ho, hs⟩
  rcases hidle key hs with hkept | hheld
  · exact owned_of_idle hkept
  · exact hresponse hheld

/-- An idle session that is still open when `close_async` has gone on is kept, or the loop had its
    group behind it. -/
private theorem closeResumed_idle (x : CloserId) {s : SessionId} (hs : s ∈ (σ.group key').h1Idle)
    (hopen₁ : OpenH1 (((σ.setGroup key { σ.group key with h2Session := none }).drain key).closeFrom
      x (σ.pool.keys.filter fun key' => SessionKey.cmp key key' = .lt)) s) :
    s ∈ ((((σ.setGroup key { σ.group key with h2Session := none }).drain key).closeFrom x
        (σ.pool.keys.filter fun key' => SessionKey.cmp key key' = .lt)).group key').h1Idle ∨
      SessionKey.cmp key' key = .lt := by
  by_cases hcmp : SessionKey.cmp key key' = .eq
  · -- the rest of the group at which the loop was suspended
    rw [← group_congr σ hcmp] at hs
    have hclosed : ¬OpenH1 ((σ.setGroup key { σ.group key with h2Session := none }).drain key) s :=
      not_openH1_drain (by rwa [group_setGroup, if_pos Std.ReflCmp.compare_self])
    exact absurd (hopen₁.of_shrinks (shrinks_closeFrom _ x _)) hclosed
  · have hgroup : ((σ.setGroup key { σ.group key with h2Session := none }).drain key).group key' =
        σ.group key' := by
      simp [HttpClient.drain, group_setGroup, hcmp]
    rcases closeFrom_idle x _ _ (hgroup ▸ hs) hopen₁ with hkept | hnone
    · exact .inl hkept
    · -- the group is not among those that are left
      obtain ⟨key₁, hkey₁, hcmp₁⟩ := exists_mem_keys σ (.inr hs)
      have hnlt : SessionKey.cmp key key' ≠ .lt := by
        intro hlt
        have hlt₁ : SessionKey.cmp key key₁ = .lt :=
          Std.TransCmp.lt_of_lt_of_eq hlt (Std.OrientedCmp.eq_symm hcmp₁)
        exact hnone key₁ (List.mem_filter.mpr ⟨hkey₁, by simpa using hlt₁⟩) hcmp₁
      cases hc : SessionKey.cmp key key' with
      | lt => exact absurd hc hnlt
      | eq => exact absurd hc hcmp
      | gt => exact .inr (Std.OrientedCmp.lt_of_gt hc)

/-- A tidy step leaves an owner to each open session. -/
private theorem owned_acts {s : SessionId} (hrefs : RefsInv σ) (hacts : Acts σ l σ₁)
    (htidy : Tidy σ l) (hopen : OpenH1 σ s) (hopen₁ : OpenH1 σ₁ s) (howned : σ.Owned s) :
    σ₁.Owned s := by
  cases hacts with
  | @acquired q key _ _ _ s' σ' hfresh hacquired =>
    refine owned_acquired hrefs hfresh hacquired htidy hopen howned rfl rfl
      (fun q' hne => by simp [hne]) fun hgiven => ?_
    obtain rfl := Option.some.inj hgiven
    have hself : (σ'.setRequest q (.exchanging key s')).requests.get? q =
        some (.exchanging key s') := by simp
    exact owned_of_request hself
  | unconnected hfresh hacquired | connecting hfresh hacquired =>
    exact owned_acquired hrefs hfresh hacquired htidy hopen howned rfl rfl
      (fun q' hne => by simp [hne]) (by simp)
  | @connectFailed q key cleared d hphase | @connected q key cleared d hphase =>
    exact owned_requests q hrefs hopen howned (fun _ hs => hs) id (fun q' hne => by simp [hne])
      fun key' hq => by simp [hphase] at hq
  -- a failure behind `TcpStream::connect` loses the descriptor, which `Tidy` excludes
  | establishFailed => exact htidy.elim
  | @establishedH2 q key cleared d hphase =>
    refine owned_requests q hrefs hopen howned (fun key' hs => ?_) id
      (fun q' hne => by simp [HttpClient.setGroup, hne]) fun key' hq => by simp [hphase] at hq
    -- only `h2_session` of the group changes
    have hidle := h1Idle_setGroup (σ.newSession ⟨.http2, key, d⟩) key key'
      (g := { σ.group key with h2Session := some σ.nextSession }) rfl
    exact hidle.symm ▸ hs
  | @establishedH1 q key cleared d hphase =>
    exact owned_requests q hrefs hopen howned (fun _ hs => hs) id (fun q' hne => by simp [hne])
      fun key' hq => by simp [hphase] at hq
  | @requestFailed q key s' hphase =>
    exact owned_requests q hrefs hopen howned (fun _ hs => hs) id (fun q' hne => by simp [hne])
      fun key' hq => owned_of_response (htidy key' s hq hopen)
  | @responded q key s' session id hphase hsession =>
    refine owned_requests q hrefs hopen howned (fun _ hs => hs) (fun hheld => ?_)
      (fun q' hne => by simp [hne]) fun key' hq => ?_
    · obtain ⟨o, response, ho, hs⟩ := hheld
      have hne : o ≠ σ.nextResponse := Nat.ne_of_lt (hrefs.lt_nextResponse ho)
      exact ⟨o, response, by simp [hne, ho], hs⟩
    · obtain ⟨-, rfl⟩ := ExchangePhase.exchanging.inj (Option.some.inj (hphase.symm.trans hq))
      exact owned_of_response ⟨σ.nextResponse, _, by simp; rfl, rfl⟩
  | bodyFull | assignSelf | closeFailed => exact howned
  | bodyDone _ hresponse _ hconsumed =>
    have howned₁ := owned_consumed hrefs hopen howned hresponse hconsumed
    exact howned₁
  | @move o response hresponse =>
    have hne : σ.nextResponse ≠ o := Nat.ne_of_gt (hrefs.lt_nextResponse hresponse)
    refine owned_responses o hrefs hopen howned rfl rfl (fun o' response' hne' ho' hs => ?_)
      fun response' ho hs => .inl ⟨σ.nextResponse, response', ?_, hs⟩
    · have hold : o' ≠ σ.nextResponse := Nat.ne_of_lt (hrefs.lt_nextResponse ho')
      exact ⟨o', response', by simp [hne', hold, ho'], hs⟩
    · simpa [hne, hresponse] using ho
  -- by `Tidy` something else holds the session that the target had
  | @assign target source old response hold hresponse hne =>
    refine owned_responses target hrefs hopen howned rfl rfl
      (fun o' response' hne' ho' hs => ?_) fun response' ho hs =>
        .inr (htidy hne response' s ho hs hopen)
    by_cases hsource : o' = source
    · subst hsource
      obtain rfl := Option.some.inj (hresponse.symm.trans ho')
      exact ⟨target, response, by simp [hne], hs⟩
    · exact ⟨o', response', by simp [hne', hsource, ho'], hs⟩
  | @drop o response hresponse =>
    exact owned_responses o hrefs hopen howned rfl rfl
      (fun o' response' hne' ho' hs => ⟨o', response', by simp [hne', ho'], hs⟩)
      fun response' ho hs => .inr (htidy response' s ho hs hopen)
  | @closeAsync x =>
    refine owned_closing hrefs hopen howned (shrinks_closeFrom σ x _) fun key' hs => .inl ?_
    rcases closeFrom_idle x _ σ hs hopen₁ with hkept | hnone
    · exact hkept
    · obtain ⟨key, hkey, hcmp⟩ := exists_mem_keys σ (.inr hs)
      exact absurd hcmp (hnone key hkey)
  | @closeResumed x key cleared s' hcloser =>
    refine owned_closing hrefs hopen howned (shrinks_closeResumed σ x key _) fun key' hs => ?_
    rcases closeResumed_idle x hs hopen₁ with hkept | hlt
    · exact .inl hkept
    · exact .inr (htidy key cleared s' hcloser key' hlt s hs hopen)

end Acts

/-! ## Runs -/

/-- Every open descriptor has an owner. -/
def SocketInv (σ : HttpClient) : Prop :=
  ∀ d, σ.sockets d = .opened →
    (∃ s session, σ.sessions.get? s = some session ∧ session.socket = d ∧ σ.Owned s) ∨
      ∃ q phase, σ.requests.get? q = some phase ∧ phase.socket? = some d

section Step

variable {σ σ₁ : HttpClient} {l : ClientLabel}

variable (hrefs : RefsInv σ) (h : SocketInv σ) (hacts : Acts σ l σ₁)

include hrefs h hacts

/-- Before the destructors, an open descriptor belongs to something that is owned or to an HTTP/2
    session. -/
private theorem held_acts (htidy : Tidy σ l) {d : SocketId} (hopen : σ₁.sockets d = .opened) :
    (∃ s session, σ₁.sessions.get? s = some session ∧ session.socket = d ∧
        (σ₁.Owned s ∨ session.httpVersion = .http2)) ∨
      ∃ q phase, σ₁.requests.get? q = some phase ∧ phase.socket? = some d := by
  rcases acts_sockets hacts d with hsame | hclosed | ⟨-, q, key, cleared, hq⟩
  case inr.inl => simp [hclosed] at hopen
  case inr.inr => exact .inr ⟨q, _, hq, rfl⟩
  rcases h d (hsame ▸ hopen) with ⟨s, session, hs, rfl, howned⟩ | ⟨q, phase, hq, hd⟩
  · have hs₁ := acts_sessions hrefs hacts hs
    refine .inl ⟨s, session, hs₁, rfl, ?_⟩
    by_cases hversion : session.httpVersion = .http2
    · exact .inr hversion
    · exact .inl (owned_acts hrefs hacts htidy ⟨session, hs, hversion, hsame ▸ hopen⟩
        ⟨session, hs₁, hversion, hopen⟩ howned)
  · -- the descriptor is that of a request which connects
    have hphase := acts_phases hacts q
    rw [hq] at hphase
    generalize hq₁ : σ₁.requests.get? q = phase₁ at hphase
    cases hphase with
    | same => exact .inr ⟨q, phase, hq₁, hd⟩
    | connectFailed key cleared d' hclosed =>
      obtain rfl := Option.some.inj hd
      simp [hclosed] at hopen
    | connected => exact .inr ⟨q, _, hq₁, hd⟩
    | establishFailed => exact htidy.elim
    | established _ version key cleared d' s hsession =>
      obtain rfl := Option.some.inj hd
      exact .inl ⟨s, _, hsession, rfl, .inl (owned_of_request hq₁)⟩
    | done => simp [ExchangePhase.socket?] at hd

private theorem socketInv_acts (htidy : Tidy σ l) : SocketInv σ₁.reap := by
  intro d hd
  have hnot : ¬σ₁.ClosedByDestructor d := by
    intro hclosed
    simp [HttpClient.reap, hclosed] at hd
  have hopen : σ₁.sockets d = .opened := by simpa [HttpClient.reap, hnot] using hd
  rcases held_acts hrefs h hacts htidy hopen with ⟨s, session, hs, rfl, howner⟩ | hrequest
  · have howned : σ₁.Owned s := by
      by_contra hno
      have hversion := howner.resolve_left hno
      exact hnot ⟨s, σ₁.sessions.mem_ids s (by simp [hs]), session, hs, hno, hversion, rfl⟩
    exact .inl ⟨s, session, by rw [reap_sessions, if_pos howned, hs], rfl, howned⟩
  · exact .inr hrequest

end Step

private theorem socketInv_step (σ : HttpClient) (l : ClientLabel) (σ' : HttpClient)
    (h : RefsInv σ ∧ SocketInv σ) (htidy : Tidy σ l) (hstep : σ.step l = some σ') :
    RefsInv σ' ∧ SocketInv σ' := by
  obtain ⟨σ₁, hacts, rfl⟩ := acts_of_step hstep
  exact ⟨refsInv_step h.1 hstep, socketInv_acts h.1 h.2 hacts htidy⟩

private theorem socketInv_initial : SocketInv HttpClient.initial := by
  intro d hd
  simp [HttpClient.initial] at hd

instance (σ : HttpClient) (d : SocketId) : Decidable (Held σ d) :=
  decidable_of_iff ((∃ s ∈ σ.sessions.ids, ∃ session ∈ σ.sessions.get? s,
      session.socket = d ∧ σ.Owned s) ∨ σ.requests.Any fun phase => phase.socket? = some d) <| by
    rw [held_iff]
    refine or_congr ⟨?_, ?_⟩ Iff.rfl
    · rintro ⟨s, -, session, hs, hd⟩
      exact ⟨s, session, hs, hd⟩
    · rintro ⟨s, session, hs, hd⟩
      exact ⟨s, σ.sessions.mem_ids s (by simp [hs]), session, hs, hd⟩

/-- A connection is used, returned to the pool and closed with it. -/
def usedAndClosed : List ClientLabel :=
  [.request 0 plainKey [] [] (some 5), .connected 0, .established 0 false, .responded 0 none,
    .bodyFull 0 0, .bodyDone 0 .complete [], .closeAsync 0]

end Ppnt.Spec
