import Ppnt.Native.Accept
import Ppnt.Spec.DriverInvariant

/-!
# Connections are served once

The operation of an acceptor is shared by all completions of its entry, and its reference count only
lasts for one.  It is set again when the handler has returned, which is before `run_one` looks at
the next completion.
-/

namespace Ppnt.Spec

open Ppnt.Native Run TaggedPtr AcceptLoop

/-! ## Steps -/

/-- An iteration of `run_one`, and what it resumes. -/
private theorem step_cqe_accept {s s' : State} {c : Cqe} (h : step s (.ring (.cqe c)) = some s') :
    s.serving = none ∧ s.ring.step (.cqe c) = some s'.ring ∧
      (s' = { s with ring := s'.ring } ∨
        ∃ a fd op, s.acceptors (untag c.userData) = some a ∧
          s' = { s with
            ring := s'.ring
            acceptors := Function.update s.acceptors (untag c.userData)
              (some { a with calls := a.calls ++ [fd] })
            serving := some (untag c.userData, op) }) := by
  obtain ⟨hserving, h⟩ := Option.ite_none_right_eq_some.mp h
  obtain ⟨ring, hring, h⟩ := Option.bind_eq_some_iff.mp h
  refine ⟨hserving, ?_⟩
  -- what is new in the log is the coroutine that awaited at the address
  have hlog : ∀ r, (ring.resumed.drop s.ring.resumed.length).head? = some r →
      r.addr = untag c.userData := by
    intro r hr
    obtain ⟨rest, _, ⟨_, rfl⟩ | ⟨_, _, rfl⟩ | ⟨_, _, op, _, rfl⟩⟩ := step_cqe hring
    · simp at hr
    · simp at hr
    · cases hwoken : (op.onCqe (isTagged c.userData) c).woken <;> simp [hwoken, Ring.setOperation]
        at hr
      rw [← hr]
  split at h
  · obtain rfl := Option.some.inj h
    exact ⟨hring, .inl rfl⟩
  · next r hr =>
    unfold resume at h
    split at h
    · obtain rfl := Option.some.inj h
      exact ⟨hring, .inl rfl⟩
    · next a ha =>
      obtain ⟨fd, _, rfl⟩ := Option.map_eq_some_iff.mp h
      rw [hlog r hr] at ha ⊢
      exact ⟨hring, .inr ⟨a, fd, r.operation, ha, rfl⟩⟩

/-- The other steps of the ring. -/
private theorem step_ring_accept {s s' : State} {l : RingLabel} (hl : ∀ c, l ≠ .cqe c)
    (h : step s (.ring l) = some s') :
    s' = { s with ring := s'.ring } ∧
      (s.ring.step l = some s'.ring ∨
        ∃ c, l = .complete c ∧ s.acceptors c.userData ≠ none ∧
          s'.ring = { s.ring with cq := s.ring.cq ++ [c] }) := by
  cases l with
  | awaitSuspend ptr handle timeoutMs bufferSelect =>
    obtain ⟨_, h⟩ := Option.ite_none_right_eq_some.mp h
    obtain ⟨ring, hring, rfl⟩ := Option.map_eq_some_iff.mp h
    exact ⟨rfl, .inl hring⟩
  | complete c =>
    simp only [AcceptLoop.step] at h
    split at h
    · next hmore =>
      obtain ⟨_, ⟨⟩⟩ := Option.ite_none_right_eq_some.mp h
      exact ⟨rfl, .inr ⟨c, rfl, hmore.1, rfl⟩⟩
    · obtain ⟨ring, hring, rfl⟩ := Option.map_eq_some_iff.mp h
      exact ⟨rfl, .inl hring⟩
  | cqe c => exact absurd rfl (hl c)
  | runOne | cqAdvance =>
    obtain ⟨_, h⟩ := Option.ite_none_right_eq_some.mp h
    obtain ⟨ring, hring, rfl⟩ := Option.map_eq_some_iff.mp h
    exact ⟨rfl, .inl hring⟩

/-- What a step of the ring does to the ring. -/
private theorem ring_of_accept {s s' : State} {l : RingLabel} (h : step s (.ring l) = some s') :
    s.ring.step l = some s'.ring ∨
      ∃ c, l = .complete c ∧ s.acceptors c.userData ≠ none ∧
        s'.ring = { s.ring with cq := s.ring.cq ++ [c] } := by
  by_cases hl : ∃ c, l = .cqe c
  · obtain ⟨c, rfl⟩ := hl
    exact .inl (step_cqe_accept h).2.1
  · push Not at hl
    exact (step_ring_accept hl h).2

/-- The operation that an acceptor waits with. -/
def acceptOperation (h : Handle) : Operation := { handle := some h }

/-- The start of an acceptor. -/
private theorem step_runAcceptLoop {s s' : State} {ptr : OperationPtr} {h : Handle}
    (hstep : step s (.runAcceptLoop ptr h) = some s') :
    (ptr ≠ s.ring.evOp ∧ s.ring.operations ptr.addr = none ∧ s.acceptors ptr.addr = none) ∧
      SameBut (s.ring.setOperation ptr.addr (some (acceptOperation h))) s'.ring ∧
      (∀ p : Addr → Bool, outstanding p s'.ring = outstanding p s.ring + (p ptr.addr).toNat) ∧
      s'.acceptors = Function.update s.acceptors ptr.addr (some { handle := h }) ∧
      s'.serving = s.serving := by
  obtain ⟨hfresh, hstart⟩ := Option.ite_none_right_eq_some.mp hstep
  obtain ⟨⟨ring, op⟩, hsubmit, ⟨⟩⟩ := Option.bind_eq_some_iff.mp hstart
  obtain ⟨hsame, rfl, _⟩ := submit_spec (p := fun _ => true) hsubmit
  refine ⟨hfresh, ⟨hsame.evOp, ?_, hsame.cq, hsame.resumed⟩, fun p => ?_, rfl, rfl⟩
  · simp only [Ring.setOperation, hsame.operations]
    rfl
  · have hcount := (submit_spec (p := p) hsubmit).2.2
    exact hcount

private theorem step_handlerReturns {s s' : State} (h : step s .handlerReturns = some s') :
    ∃ addr op a, s.serving = some (addr, op) ∧ s.acceptors addr = some a ∧
      s' = { s with
        ring := s.ring.setOperation addr (some (rearm op a.handle)), serving := none } := by
  simp only [AcceptLoop.step] at h
  split at h
  · exact nomatch h
  · next addr op hserving =>
    obtain ⟨a, ha, rfl⟩ := Option.map_eq_some_iff.mp h
    exact ⟨addr, op, a, hserving, ha, rfl⟩

/-! ## Addresses without an acceptor -/

/-- Acceptors are at addresses of operations, and all other addresses have a right count. -/
structure AcceptInv (s : State) : Prop where
  ptr : ∀ addr a, s.acceptors addr = some a → ∃ ptr, ptr ≠ s.ring.evOp ∧ ptr.addr = addr
  refCount : ∀ addr, addr ≠ s.ring.evOp.addr → addr ≠ 0#64 → s.acceptors addr = none →
    RefCounted s.ring addr
  serving : ∀ addr op, s.serving = some (addr, op) → s.acceptors addr ≠ none

/-- A completion of an acceptor is not one of another address. -/
private theorem untag_ne_of_acceptor {s : State} (hinv : AcceptInv s) {data addr : Addr}
    (hdata : s.acceptors data ≠ none) (haddr : s.acceptors addr = none) : untag data ≠ addr := by
  obtain ⟨a, ha⟩ := Option.ne_none_iff_exists'.mp hdata
  obtain ⟨ptr, _, rfl⟩ := hinv.ptr data a ha
  rw [untag_of_free (addr_free ptr)]
  rintro rfl
  exact hdata haddr

/-- A completion that the entry outlives changes nothing at other addresses. -/
private theorem unchangedAt_more {σ : Ring} {c : Cqe} {addr : Addr}
    (hat : untag c.userData ≠ addr) : UnchangedAt addr σ { σ with cq := σ.cq ++ [c] } := by
  refine ⟨rfl, by simp [cqAt, hat], fun p hp => ?_⟩
  have hfalse : p c.userData = false := Bool.eq_false_iff.mpr fun h => hat (hp _ h)
  simp [outstanding, hfalse]

/-- A new acceptor changes nothing at other addresses. -/
private theorem unchangedAt_runAcceptLoop {s s' : State} {ptr : OperationPtr} {h : Handle}
    {addr : Addr} (hstep : step s (.runAcceptLoop ptr h) = some s') (hat : ptr.addr ≠ addr) :
    UnchangedAt addr s.ring s'.ring := by
  obtain ⟨_, hsame, hcount, _⟩ := step_runAcceptLoop hstep
  refine ⟨?_, by rw [cqAt, hsame.cq]; rfl, fun p hp => ?_⟩
  · rw [hsame.operations]
    simp [Ring.setOperation, Ne.symm hat]
  · have hfalse : p ptr.addr = false := by
      apply Bool.eq_false_iff.mpr
      intro h
      exact hat (by simpa [untag_of_free (addr_free ptr)] using hp _ h)
    rw [hcount p, hfalse]
    rfl

private theorem unchangedAt_setOperation {σ : Ring} {op : Option Operation} {addr addr' : Addr}
    (hat : addr' ≠ addr) : UnchangedAt addr σ (σ.setOperation addr' op) :=
  ⟨by simp [Ring.setOperation, Ne.symm hat], rfl, fun _ _ => rfl⟩

private theorem evOp_of_accept {s s' : State} {l : Label} (hstep : step s l = some s') :
    s'.ring.evOp = s.ring.evOp := by
  cases l with
  | ring l =>
    rcases ring_of_accept hstep with hring | ⟨c, _, _, hring⟩
    · exact evOp_of_step hring
    · rw [hring]
  | runAcceptLoop ptr h => exact (step_runAcceptLoop hstep).2.1.evOp
  | handlerReturns =>
    obtain ⟨addr, op, a, _, _, rfl⟩ := step_handlerReturns hstep
    rfl

/-- Acceptors stay, and a new one is at a new operation. -/
private theorem acceptors_of_step {s s' : State} {l : Label} (hstep : step s l = some s')
    (addr : Addr) : (s.acceptors addr ≠ none → s'.acceptors addr ≠ none) ∧
      (s'.acceptors addr ≠ none → s.acceptors addr ≠ none ∨
        ∃ ptr, ptr ≠ s.ring.evOp ∧ ptr.addr = addr) := by
  cases l with
  | ring l =>
    by_cases hl : ∃ c, l = .cqe c
    · obtain ⟨c, rfl⟩ := hl
      obtain ⟨_, _, heq | ⟨a, fd, op, ha, heq⟩⟩ := step_cqe_accept hstep
      · rw [heq]
        exact ⟨id, .inl⟩
      · rw [heq]
        -- a connection is counted at the acceptor that it is for
        by_cases hat : addr = untag c.userData
        · subst hat
          simp [ha]
        · simp only [Function.update_of_ne hat]
          exact ⟨id, .inl⟩
    · push Not at hl
      rw [(step_ring_accept hl hstep).1]
      exact ⟨id, .inl⟩
  | runAcceptLoop ptr h =>
    obtain ⟨⟨hne, _⟩, _, _, hacceptors, _⟩ := step_runAcceptLoop hstep
    rw [hacceptors]
    by_cases hat : addr = ptr.addr
    · subst hat
      exact ⟨fun _ => by simp, fun _ => .inr ⟨ptr, hne, rfl⟩⟩
    · rw [Function.update_of_ne hat]
      exact ⟨id, .inl⟩
  | handlerReturns =>
    obtain ⟨addr, op, a, _, _, rfl⟩ := step_handlerReturns hstep
    exact ⟨id, .inl⟩

/-- Each step keeps `AcceptInv`. -/
private theorem acceptInv_step (s : State) (l : Label) (s' : State) (hinv : AcceptInv s)
    (hstep : step s l = some s') : AcceptInv s' := by
  have hev := evOp_of_accept hstep
  refine ⟨fun addr a ha => ?_, fun addr haddr hnull hnone => ?_, fun addr op hserving => ?_⟩
  · rw [hev]
    rcases (acceptors_of_step hstep addr).2 (by simp [ha]) with hold | hptr
    · obtain ⟨a', ha'⟩ := Option.ne_none_iff_exists'.mp hold
      exact hinv.ptr addr a' ha'
    · exact hptr
  · -- acceptors stay, so the address had none before the step
    rw [hev] at haddr
    have hnone' : s.acceptors addr = none := by
      by_contra hold
      exact (acceptors_of_step hstep addr).1 hold hnone
    have hcounted := hinv.refCount addr haddr hnull hnone'
    cases l with
    | ring l =>
      rcases ring_of_accept hstep with hring | ⟨c, _, hacceptor, hring⟩
      · exact refCounted_step haddr hnull hcounted hring
      · -- the entry stays in flight, so the count of its own address would be wrong
        rw [hring]
        exact (unchangedAt_more (untag_ne_of_acceptor hinv hacceptor hnone')).refCounted hcounted
    | runAcceptLoop ptr h =>
      have hat : ptr.addr ≠ addr := by
        rintro rfl
        rw [(step_runAcceptLoop hstep).2.2.2.1] at hnone
        simp at hnone
      exact (unchangedAt_runAcceptLoop hstep hat).refCounted hcounted
    | handlerReturns =>
      obtain ⟨addr', op, a, _, ha, rfl⟩ := step_handlerReturns hstep
      have hat : addr' ≠ addr := by
        rintro rfl
        simp [ha] at hnone'
      exact (unchangedAt_setOperation hat).refCounted hcounted
  · apply (acceptors_of_step hstep addr).1
    cases l with
    | ring l =>
      by_cases hl : ∃ c, l = .cqe c
      · obtain ⟨c, rfl⟩ := hl
        obtain ⟨hnone, _, heq | ⟨a, fd, op', ha, heq⟩⟩ := step_cqe_accept hstep
        · rw [heq, hnone] at hserving
          exact nomatch hserving
        · rw [heq] at hserving
          obtain ⟨rfl, _⟩ := Prod.mk.inj (Option.some.inj hserving)
          simp [ha]
      · push Not at hl
        rw [(step_ring_accept hl hstep).1] at hserving
        exact hinv.serving addr op hserving
    | runAcceptLoop ptr h =>
      rw [(step_runAcceptLoop hstep).2.2.2.2] at hserving
      exact hinv.serving addr op hserving
    | handlerReturns =>
      obtain ⟨_, _, _, _, _, rfl⟩ := step_handlerReturns hstep
      exact nomatch hserving

/-- Every other address has a right reference count, so a new acceptor finds no completions that are
    left over. -/
theorem acceptInv_run {evOp : OperationPtr} {entries : Nat} {ls : List Label} {s : State}
    (hrun : run step (AcceptLoop.initial evOp entries) ls = some s) : AcceptInv s := by
  apply stateInvariant_of_run acceptInv_step _ hrun
  exact {
    ptr := fun _ _ h => nomatch h
    refCount := fun addr hne hnull _ => (ringInv_initial evOp entries).refCounted hne hnull
    serving := fun _ _ h => nomatch h }

/-! ## One acceptor -/

/-- The kernel keeps the entry, and there is a connection. -/
def Accepted (c : Cqe) : Prop := c.flags &&& cqeFMore ≠ 0 ∧ 0 ≤ c.res

instance : DecidablePred Accepted := fun _ => inferInstanceAs (Decidable (_ ∧ _))

/-- The completions of an address that the kernel posts. -/
def postedOf (addr : Addr) (ls : List Label) : List Cqe :=
  ls.filterMap fun l => match l with
    | .ring (.complete c) => if untag c.userData = addr then some c else none
    | _ => none

/-- The completions of an address that `run_one` takes. -/
def handledOf (addr : Addr) (ls : List Label) : List Cqe :=
  ls.filterMap fun l => match l with
    | .ring (.cqe c) => if untag c.userData = addr then some c else none
    | _ => none

private theorem postedOf_append (addr : Addr) (ls ls' : List Label) :
    postedOf addr (ls ++ ls') = postedOf addr ls ++ postedOf addr ls' := List.filterMap_append

private theorem handledOf_append (addr : Addr) (ls ls' : List Label) :
    handledOf addr (ls ++ ls') = handledOf addr ls ++ handledOf addr ls' := List.filterMap_append

/-- An acceptor between two steps. -/
structure Serves (ptr : OperationPtr) (h : Handle) (ls : List Label) (s : State) : Prop where
  evOp : ptr ≠ s.ring.evOp
  acceptor : s.acceptors ptr.addr =
    some { handle := h, calls := (handledOf ptr.addr ls).map Cqe.res }
  order : postedOf ptr.addr ls = handledOf ptr.addr ls ++ cqAt ptr.addr s.ring
  /-- Nothing with the tag of a timeout is to come. -/
  plain : outstanding (fun data => untag data = ptr.addr && data ≠ ptr.addr) s.ring = 0
  waiting : (∀ op, s.serving ≠ some (ptr.addr, op)) → ∃ op,
    s.ring.operations ptr.addr = some op ∧ op.refCount = 1 ∧ op.handle = some h

section

variable {ptr : OperationPtr} {h : Handle} {ls : List Label} {s s' : State} {l : Label}

theorem Serves.addr_ne (hs : Serves ptr h ls s) : ptr.addr ≠ s.ring.evOp.addr :=
  fun heq => hs.evOp (addr_injective heq)

/-- Steps that do not concern the acceptor. -/
theorem Serves.frame (hs : Serves ptr h ls s) (hev : s'.ring.evOp = s.ring.evOp)
    (hsame : UnchangedAt ptr.addr s.ring s'.ring)
    (hacceptor : s'.acceptors ptr.addr = s.acceptors ptr.addr)
    (hserving : ∀ op, s.serving = some (ptr.addr, op) → s'.serving = some (ptr.addr, op))
    (hposted : postedOf ptr.addr [l] = []) (hhandled : handledOf ptr.addr [l] = []) :
    Serves ptr h (ls ++ [l]) s' := by
  refine ⟨by rw [hev]; exact hs.evOp, ?_, ?_, ?_, fun hidle => ?_⟩
  · rw [hacceptor, hs.acceptor, handledOf_append, hhandled, List.append_nil]
  · rw [postedOf_append, handledOf_append, hposted, hhandled, List.append_nil, List.append_nil,
      hsame.cq]
    exact hs.order
  · rw [hsame.outstanding _ (by simp +contextual)]
    exact hs.plain
  · rw [hsame.operation]
    exact hs.waiting fun op hop => hidle op (hserving op hop)

/-- The user data of an entry of the acceptor is its address. -/
private theorem Serves.userData_eq_of_cq (hs : Serves ptr h ls s) {c : Cqe} (hmem : c ∈ s.ring.cq)
    (hc : untag c.userData = ptr.addr) : c.userData = ptr.addr := by
  by_contra hne
  have hpos : 0 < outstanding (fun data => untag data = ptr.addr && data ≠ ptr.addr) s.ring :=
    outstanding_pos_of_mem_cq hmem (by simp [hc, hne])
  have hplain := hs.plain
  omega

private theorem Serves.userData_eq_of_inFlight (hs : Serves ptr h ls s) {data : Addr}
    (hmem : data ∈ s.ring.inFlight) (hdata : untag data = ptr.addr) : data = ptr.addr := by
  by_contra hne
  have hpos : 0 < outstanding (fun data => untag data = ptr.addr && data ≠ ptr.addr) s.ring :=
    outstanding_pos_of_mem_inFlight hmem (by simp [hdata, hne])
  have hplain := hs.plain
  omega

/-- What the loop finds in the operation behind a completion. -/
private theorem accepted_onCqe {c : Cqe} (hc : Accepted c) (op : Operation) :
    accepted (op.onCqe false c) = some c.res := by
  have hres : c.res ≠ -eCanceled := by
    have hnonneg := hc.2
    unfold eCanceled
    omega
  have hflags : (op.onCqe false c).cqeFlags = c.flags := by
    simp only [Operation.onCqe, Bool.false_eq_true, if_false]
    split_ifs <;> rfl
  have hresult : (op.onCqe false c).result = c.res := by simp [onCqe_result, hres]
  rw [accepted, hflags, hresult, if_neg hc.1, if_pos hc.2]

/-- A completion resumes the acceptor, and the handler is called. -/
theorem step_accepted (hs : Serves ptr h ls s) (hserving : s.serving = none)
    (hrearm : s.ring.needRearm ≠ none) {c : Cqe} {rest : List Cqe} (hcq : s.ring.cq = c :: rest)
    (hc : untag c.userData = ptr.addr) (haccepted : Accepted c) :
    ∃ op, step s (.ring (.cqe c)) = some { s with
      ring := { s.ring.setOperation ptr.addr none with
        cq := rest
        resumed := s.ring.resumed ++ [⟨ptr.addr, h, op⟩] }
      acceptors := Function.update s.acceptors ptr.addr
        (some { handle := h, calls := (handledOf ptr.addr ls).map Cqe.res ++ [c.res] })
      serving := some (ptr.addr, op) } := by
  have hdata := hs.userData_eq_of_cq (by simp [hcq]) hc
  have htag : isTagged c.userData = false := by rw [hdata]; exact isTagged_of_free (addr_free ptr)
  -- the operation has one reference, so this completion resumes the coroutine
  obtain ⟨op, hop, hcount, hhandle⟩ := hs.waiting fun op hop => by simp [hserving] at hop
  obtain ⟨b, hb⟩ := Option.ne_none_iff_exists'.mp hrearm
  have hwoken : (op.onCqe false c).woken = some h := by rw [woken_onCqe, if_pos hcount, hhandle]
  have hring : s.ring.step (.cqe c) = some { s.ring.setOperation ptr.addr none with
      cq := rest
      resumed := s.ring.resumed ++ [⟨ptr.addr, h, op.onCqe false c⟩] } := by
    simp only [Ring.step, hb, hcq, if_true, onCqe_eq, hc, htag, hs.addr_ne, if_false, ptr.ne_null,
      ne_eq, not_false_eq_true, hop, hwoken]
    simp [Ring.setOperation, hb]
  refine ⟨op.onCqe false c, ?_⟩
  rw [AcceptLoop.step, if_pos hserving, hring]
  simp only [Option.bind_eq_bind, Option.bind_some, List.drop_left, List.head?_cons, resume,
    hs.acceptor, accepted_onCqe haccepted, Option.map_some]

/-- The kernel completes an entry. -/
private theorem step_complete_accept {c : Cqe} (hstep : step s (.ring (.complete c)) = some s') :
    c.userData ∈ s.ring.inFlight ∧ ∃ inFlight,
      s' = { s with ring := { s.ring with inFlight := inFlight, cq := s.ring.cq ++ [c] } } ∧
        (inFlight = s.ring.inFlight ∨
          inFlight = s.ring.inFlight.erase c.userData ∧
            ¬(s.acceptors c.userData ≠ none ∧ c.flags &&& cqeFMore ≠ 0)) := by
  simp only [AcceptLoop.step] at hstep
  split at hstep
  · obtain ⟨hmem, ⟨⟩⟩ := Option.ite_none_right_eq_some.mp hstep
    exact ⟨List.contains_iff_mem.mp hmem, _, rfl, .inl rfl⟩
  · next hnot =>
    obtain ⟨ring, hring, rfl⟩ := Option.map_eq_some_iff.mp hstep
    obtain ⟨hmem, ⟨⟩⟩ := Option.ite_none_right_eq_some.mp hring
    exact ⟨hmem, _, rfl, .inr ⟨rfl, hnot⟩⟩

/-- The kernel posts a completion of the acceptor. -/
theorem Serves.posted (hs : Serves ptr h ls s) {c : Cqe}
    (hstep : step s (.ring (.complete c)) = some s') (hc : untag c.userData = ptr.addr)
    (haccepted : Accepted c) : Serves ptr h (ls ++ [.ring (.complete c)]) s' := by
  obtain ⟨hmem, inFlight, rfl, hinFlight⟩ := step_complete_accept hstep
  have hdata := hs.userData_eq_of_inFlight hmem hc
  have hposted : postedOf ptr.addr [.ring (.complete c)] = [c] := by simp [postedOf, hc]
  have hhandled : handledOf ptr.addr [.ring (.complete c)] = [] := rfl
  -- the entry is the acceptor's, so it stays in flight
  have hstays : inFlight = s.ring.inFlight := by
    rcases hinFlight with heq | ⟨_, hnot⟩
    · exact heq
    · exact absurd ⟨by simp [hdata, hs.acceptor], haccepted.1⟩ hnot
  refine ⟨hs.evOp, ?_, ?_, ?_, hs.waiting⟩
  · rw [handledOf_append, hhandled, List.append_nil]
    exact hs.acceptor
  · rw [postedOf_append, handledOf_append, hposted, hhandled, List.append_nil, hs.order,
      List.append_assoc]
    simp [cqAt, hc]
  · have hplain := hs.plain
    simp only [outstanding, hstays, List.countP_append, List.countP_singleton, hdata] at hplain ⊢
    simpa using hplain

/-- `run_one` takes a completion of the acceptor. -/
theorem Serves.handled (hs : Serves ptr h ls s) {c : Cqe}
    (hstep : step s (.ring (.cqe c)) = some s') (hc : untag c.userData = ptr.addr)
    (hposted : ∀ c ∈ postedOf ptr.addr ls, Accepted c) :
    Serves ptr h (ls ++ [.ring (.cqe c)]) s' := by
  obtain ⟨hserving, hring, _⟩ := step_cqe_accept hstep
  obtain ⟨rest, hcq, _⟩ := step_cqe hring
  have hrearm : s.ring.needRearm ≠ none := by
    intro hnone
    simp [Ring.step, hnone] at hring
  have hwaiting : cqAt ptr.addr s.ring = c :: rest.filter fun c => untag c.userData = ptr.addr := by
    simp [cqAt, hcq, hc]
  -- it is the first one that waits, so the kernel has posted it
  have haccepted : Accepted c := hposted c (by rw [hs.order, hwaiting]; simp)
  have hlabel : postedOf ptr.addr [.ring (.cqe c)] = [] := rfl
  have hhandled : handledOf ptr.addr [.ring (.cqe c)] = [c] := by simp [handledOf, hc]
  obtain ⟨op, hnext⟩ := step_accepted hs hserving hrearm hcq hc haccepted
  obtain rfl := Option.some.inj (hnext.symm.trans hstep)
  refine ⟨hs.evOp, ?_, ?_, ?_, fun hidle => absurd rfl (hidle op)⟩
  · simp [handledOf_append, hhandled]
  · rw [postedOf_append, handledOf_append, hlabel, hhandled, List.append_nil, hs.order, hwaiting,
      List.append_assoc]
    rfl
  · have hplain := hs.plain
    simp only [outstanding, hcq, List.countP_cons] at hplain ⊢
    simp only [Ring.setOperation]
    omega

/-- The handler of the acceptor returns, and its operation is ready again. -/
theorem Serves.returned (hs : Serves ptr h ls s) {op : Operation}
    (hserving : s.serving = some (ptr.addr, op)) (hstep : step s .handlerReturns = some s') :
    Serves ptr h (ls ++ [.handlerReturns]) s' := by
  obtain ⟨addr, op', a, hserving', ha, rfl⟩ := step_handlerReturns hstep
  obtain ⟨rfl, rfl⟩ := Prod.mk.inj (Option.some.inj (hserving'.symm.trans hserving))
  have hhandle : a.handle = h := by rw [Option.some.inj (ha.symm.trans hs.acceptor)]
  have hposted : postedOf ptr.addr [.handlerReturns] = [] := rfl
  have hhandled : handledOf ptr.addr [.handlerReturns] = [] := rfl
  refine ⟨hs.evOp, ?_, ?_, hs.plain, fun _ => ⟨rearm op' a.handle, ?_, rfl, by rw [← hhandle]; rfl⟩⟩
  · rw [handledOf_append, hhandled, List.append_nil]
    exact hs.acceptor
  · rw [postedOf_append, handledOf_append, hposted, hhandled, List.append_nil, List.append_nil]
    exact hs.order
  · simp [Ring.setOperation]

/-- Each step keeps `Serves`, if the kernel reports only accepted connections. -/
private theorem serves_step (hs : Serves ptr h ls s)
    (hposted : ∀ c ∈ postedOf ptr.addr (ls ++ [l]), Accepted c)
    (hstep : step s l = some s') : Serves ptr h (ls ++ [l]) s' := by
  rw [postedOf_append] at hposted
  have hev := evOp_of_accept hstep
  cases l with
  | ring l =>
    cases l with
    | awaitSuspend ptr' handle timeoutMs bufferSelect =>
      obtain ⟨hnone, hnext⟩ := Option.ite_none_right_eq_some.mp hstep
      obtain ⟨ring, hring, rfl⟩ := Option.map_eq_some_iff.mp hnext
      -- an operation is awaited at an address without acceptor
      have hat : ¬Concerns ptr.addr (.awaitSuspend ptr' handle timeoutMs bufferSelect) := by
        intro heq
        rw [show ptr'.addr = ptr.addr from heq, hs.acceptor] at hnone
        exact nomatch hnone
      exact hs.frame hev (unchangedAt_step hs.addr_ne hat hring) rfl (fun _ h => h) rfl rfl
    | complete c =>
      by_cases hc : untag c.userData = ptr.addr
      · exact hs.posted hstep hc (hposted c (by simp [postedOf, hc]))
      · have hother : ¬Concerns ptr.addr (.complete c) := hc
        obtain ⟨hsame, hring⟩ := step_ring_accept (by simp) hstep
        have hunchanged : UnchangedAt ptr.addr s.ring s'.ring := by
          rcases hring with hring | ⟨c', heq, _, hring⟩
          · exact unchangedAt_step hs.addr_ne hother hring
          · obtain rfl := RingLabel.complete.inj heq
            rw [hring]
            exact unchangedAt_more hc
        exact hs.frame hev hunchanged (by rw [hsame]) (fun _ h => by rw [hsame]; exact h)
          (by simp [postedOf, hc]) rfl
    | cqe c =>
      by_cases hc : untag c.userData = ptr.addr
      · exact hs.handled hstep hc fun c hc => hposted c (List.mem_append_left _ hc)
      · have hother : ¬Concerns ptr.addr (.cqe c) := hc
        obtain ⟨hserving, hring, hnext⟩ := step_cqe_accept hstep
        have hunchanged := unchangedAt_step hs.addr_ne hother hring
        have hacceptor : s'.acceptors ptr.addr = s.acceptors ptr.addr := by
          rcases hnext with heq | ⟨a, fd, op, _, heq⟩
          · rw [heq]
          · rw [heq]
            simp [Ne.symm hc]
        exact hs.frame hev hunchanged hacceptor (fun op hop => by simp [hserving] at hop) rfl
          (by simp [handledOf, hc])
    | runOne =>
      obtain ⟨_, hnext⟩ := Option.ite_none_right_eq_some.mp hstep
      obtain ⟨ring, hring, rfl⟩ := Option.map_eq_some_iff.mp hnext
      exact hs.frame hev (unchangedAt_step hs.addr_ne id hring) rfl (fun _ h => h) rfl rfl
    | cqAdvance =>
      obtain ⟨_, hnext⟩ := Option.ite_none_right_eq_some.mp hstep
      obtain ⟨ring, hring, rfl⟩ := Option.map_eq_some_iff.mp hnext
      exact hs.frame hev (unchangedAt_step hs.addr_ne id hring) rfl (fun _ h => h) rfl rfl
  | runAcceptLoop ptr' h' =>
    obtain ⟨⟨_, _, hnone⟩, _, _, hacceptors, hserving⟩ := step_runAcceptLoop hstep
    have hat : ptr'.addr ≠ ptr.addr := by
      intro heq
      rw [heq, hs.acceptor] at hnone
      exact nomatch hnone
    have hacceptor : s'.acceptors ptr.addr = s.acceptors ptr.addr := by
      rw [hacceptors, Function.update_of_ne (Ne.symm hat)]
    exact hs.frame hev (unchangedAt_runAcceptLoop hstep hat) hacceptor
      (fun _ h => by rw [hserving]; exact h) rfl rfl
  | handlerReturns =>
    obtain ⟨addr, op, a, hserving, _, heq⟩ := step_handlerReturns hstep
    by_cases hat : addr = ptr.addr
    · subst hat
      exact hs.returned hserving hstep
    · subst heq
      refine hs.frame hev (unchangedAt_setOperation hat) rfl (fun op' hop' => ?_) rfl rfl
      rw [hserving] at hop'
      exact absurd (Prod.mk.inj (Option.some.inj hop')).1 hat

/-- A new acceptor finds nothing that is left over at its address. -/
private theorem serves_start (hinv : AcceptInv s)
    (hstep : step s (.runAcceptLoop ptr h) = some s') : Serves ptr h [] s' := by
  obtain ⟨⟨hne, hfresh, hnone⟩, hsame, hcount, hacceptors, _⟩ := step_runAcceptLoop hstep
  have haddr : ptr.addr ≠ s.ring.evOp.addr := fun heq => hne (addr_injective heq)
  -- there was no operation at the address, so no completion for it is to come
  have hzero : outstanding (fun data => untag data = ptr.addr) s.ring = 0 := by
    rw [(hinv.refCount ptr.addr haddr ptr.ne_null hnone).count, hfresh]
    rfl
  have hempty : cqAt ptr.addr s'.ring = [] := by
    rw [cqAt, hsame.cq, List.filter_eq_nil_iff]
    intro c hmem hc
    have hpos : 0 < outstanding (fun data => untag data = ptr.addr) s.ring :=
      outstanding_pos_of_mem_cq hmem hc
    omega
  refine ⟨by rw [hsame.evOp]; exact hne, by simp [hacceptors, handledOf], ?_, ?_, fun _ => ?_⟩
  · rw [hempty]
    rfl
  · have hle : outstanding (fun data => untag data = ptr.addr && data ≠ ptr.addr) s.ring ≤
        outstanding (fun data => untag data = ptr.addr) s.ring :=
      outstanding_mono (by simp +contextual)
    have hself : (decide (untag ptr.addr = ptr.addr) && decide (ptr.addr ≠ ptr.addr)) = false := by
      simp
    rw [hcount, hself, Bool.toNat_false]
    omega
  · refine ⟨acceptOperation h, ?_, rfl, rfl⟩
    rw [hsame.operations]
    simp [Ring.setOperation]

end

/-! ## Whole runs -/

/-- The handler has been called once for each completion that `run_one` has taken, with its
    descriptor; the completions that the kernel has posted are these and then those that wait, in
    this order.  Between two completions the operation has one reference and the acceptor's handle.
    Neither `run_one` nor the loop gets stuck. -/
structure ServedOnce (ptr : OperationPtr) (h : Handle) (ls : List Label) (s : State) : Prop where
  calls : s.acceptors ptr.addr =
    some { handle := h, calls := (handledOf ptr.addr ls).map Cqe.res }
  order : postedOf ptr.addr ls = handledOf ptr.addr ls ++ cqAt ptr.addr s.ring
  between : (∀ op, s.serving ≠ some (ptr.addr, op)) → ∃ op,
    s.ring.operations ptr.addr = some op ∧ op.refCount = 1 ∧ op.handle = some h
  next : ∀ c rest, s.serving = none → s.ring.needRearm ≠ none → s.ring.cq = c :: rest →
    untag c.userData = ptr.addr → ∃ s', step s (.ring (.cqe c)) = some s' ∧
      ∃ op, s'.serving = some (ptr.addr, op)
  returns : s.serving ≠ none → ∃ s', step s .handlerReturns = some s' ∧ s'.serving = none

/-- Every connection is served once.  The acceptor is started in any state, and then any steps
    follow in which the completions of its entry carry `IORING_CQE_F_MORE` and a descriptor. -/
theorem accepted_served_once {evOp : OperationPtr} {entries : Nat} {past ls : List Label}
    {s₀ s₁ s : State} {ptr : OperationPtr} {h : Handle}
    (hpast : run step (AcceptLoop.initial evOp entries) past = some s₀)
    (hstart : step s₀ (.runAcceptLoop ptr h) = some s₁) (hrun : run step s₁ ls = some s)
    (hposted : ∀ c ∈ postedOf ptr.addr ls, Accepted c) : ServedOnce ptr h ls s := by
  have hinv₀ := acceptInv_run hpast
  have hinv : AcceptInv s :=
    stateInvariant_of_run acceptInv_step (acceptInv_step s₀ _ s₁ hinv₀ hstart) hrun
  -- the completions are a part of the history, and so is what is assumed of them
  have hkeep : ∀ ls s l s', ((∀ c ∈ postedOf ptr.addr ls, Accepted c) → Serves ptr h ls s) →
      step s l = some s' →
      (∀ c ∈ postedOf ptr.addr (ls ++ [l]), Accepted c) → Serves ptr h (ls ++ [l]) s' := by
    intro ls s l s' hs hstep hposted
    refine serves_step (hs fun c hc => hposted c ?_) hposted hstep
    rw [postedOf_append]
    exact List.mem_append_left _ hc
  have hs := invariant_of_steps hkeep (fun _ => serves_start hinv₀ hstart) hrun hposted
  refine ⟨hs.acceptor, hs.order, hs.waiting, ?_, ?_⟩
  · intro c rest hserving hrearm hcq hc
    have haccepted : Accepted c := by
      apply hposted
      rw [hs.order]
      simp [cqAt, hcq, hc]
    obtain ⟨op, hstep⟩ := step_accepted hs hserving hrearm hcq hc haccepted
    exact ⟨_, hstep, op, rfl⟩
  · intro hserving
    obtain ⟨⟨addr, op⟩, hop⟩ := Option.ne_none_iff_exists'.mp hserving
    obtain ⟨a, ha⟩ := Option.ne_none_iff_exists'.mp (hinv.serving addr op hop)
    exact ⟨_, by simp only [AcceptLoop.step, hop, ha, Option.map_some]; rfl, rfl⟩

/-- Two connections in one batch; the first handler awaits an operation of its own. -/
def twoAccepted : List Label :=
  [.ring .runOne, .ring (.complete ⟨16#64, 5, 2⟩), .ring (.complete ⟨16#64, 6, 2⟩),
    .ring (.cqe ⟨16#64, 5, 2⟩), .ring (.awaitSuspend ⟨24#64, rfl, by decide⟩ 8 100 false),
    .handlerReturns, .ring (.cqe ⟨16#64, 6, 2⟩), .handlerReturns, .ring .cqAdvance]

theorem accepted_served_once_twoAccepted :
    let ptr : OperationPtr := ⟨16#64, rfl, by decide⟩
    let s₀ := AcceptLoop.initial ⟨8#64, rfl, by decide⟩ 4
    ∃ s₁ s, run step s₀ [] = some s₀ ∧ step s₀ (.runAcceptLoop ptr 7) = some s₁ ∧
      run step s₁ twoAccepted = some s ∧ (∀ c ∈ postedOf ptr.addr twoAccepted, Accepted c) ∧
      ServedOnce ptr 7 twoAccepted s ∧ s.acceptors ptr.addr = some ⟨7, [5, 6]⟩ := by
  intro ptr s₀
  have heval :
      ((step s₀ (.runAcceptLoop ptr 7)).bind fun s₁ => run step s₁ twoAccepted).isSome = true := by
    decide +kernel
  obtain ⟨s, hs⟩ := Option.isSome_iff_exists.mp heval
  obtain ⟨s₁, hstart, hrun⟩ := Option.bind_eq_some_iff.mp hs
  have hposted : ∀ c ∈ postedOf ptr.addr twoAccepted, Accepted c := by decide +kernel
  have hpast : run step s₀ [] = some s₀ := rfl
  have hserved := accepted_served_once hpast hstart hrun hposted
  exact ⟨s₁, s, hpast, hstart, hrun, hposted, hserved, hserved.calls⟩

end Ppnt.Spec
