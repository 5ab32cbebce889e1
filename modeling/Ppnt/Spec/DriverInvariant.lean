import Mathlib.Data.List.Count
import Ppnt.ForStd.Run
import Ppnt.ForStd.TaggedPtr
import Ppnt.Native.Driver

/-!
# Invariants of the io_uring driver

Every operation of a suspended coroutine is the target of as many completions to come as its
reference count says.  A completion is told to be the timeout's by the lowest bit of its user data,
which is free because operations are aligned.
-/

namespace Ppnt.Spec

open Ppnt.Native Run TaggedPtr

/-! ## Operations -/

/-- `Operation` is `alignas(8)`. -/
theorem addr_free (ptr : OperationPtr) : ptr.addr.getLsbD 0 = false := by
  have h := congrArg (·.getLsbD 0) ptr.aligned
  simpa using h

theorem addr_injective : Function.Injective OperationPtr.addr := by
  rintro ⟨a, _, _⟩ ⟨b, _, _⟩ rfl
  rfl

@[simp] theorem onCqe_refCount (op : Operation) (isTimeoutCqe : Bool) (c : Cqe) :
    (op.onCqe isTimeoutCqe c).refCount = op.refCount - 1 := by
  simp only [Operation.onCqe]
  split_ifs <;> rfl

/-- A completion takes one reference, and the counter does not wrap. -/
theorem onCqe_refCount_toNat {op : Operation} (h : 0 < op.refCount.toNat) (isTimeoutCqe : Bool)
    (c : Cqe) : (op.onCqe isTimeoutCqe c).refCount.toNat = op.refCount.toNat - 1 := by
  rw [onCqe_refCount]
  exact UInt8.toNat_sub_of_le _ _ (UInt8.le_iff_toNat_le.mpr h)

@[simp] theorem onCqe_handle (op : Operation) (isTimeoutCqe : Bool) (c : Cqe) :
    (op.onCqe isTimeoutCqe c).handle = op.handle := by
  simp only [Operation.onCqe]
  split_ifs <;> rfl

theorem onCqe_result (op : Operation) (isTimeoutCqe : Bool) (c : Cqe) :
    (op.onCqe isTimeoutCqe c).result =
      if isTimeoutCqe then if c.res = -eTime then -eTime else op.result
      else if c.res ≠ -eCanceled then c.res else op.result := by
  simp only [Operation.onCqe]
  split_ifs <;> rfl

/-- An operation is resumed by the completion that takes the last reference. -/
theorem woken_onCqe (op : Operation) (isTimeoutCqe : Bool) (c : Cqe) :
    (op.onCqe isTimeoutCqe c).woken = if op.refCount = 1 then op.handle else none := by
  have hcount : (op.onCqe isTimeoutCqe c).refCount = 0 ↔ op.refCount = 1 := by
    rw [onCqe_refCount, UInt8.sub_eq_iff_eq_add, UInt8.zero_add]
  simp only [Operation.woken, onCqe_handle, hcount]

/-! ## Submission -/

/-- How many entries with user data in `p` have a completion to come. -/
def outstanding (p : Addr → Bool) (σ : Ring) : Nat :=
  σ.sq.countP (fun sqe => p sqe.userData) + σ.inFlight.countP p +
    σ.cq.countP fun c => p c.userData

variable {c : Cqe} {h : Handle} {timeoutMs : UInt32} {l : RingLabel}

section Queues

variable {σ τ : Ring} {p : Addr → Bool}

@[simp] theorem outstanding_ioUringSubmit : outstanding p σ.ioUringSubmit = outstanding p σ := by
  simp only [outstanding, Ring.ioUringSubmit, List.countP_nil, List.countP_append, List.countP_map]
  simp only [Function.comp_def]
  omega

theorem outstanding_mono {q : Addr → Bool} (h : ∀ data, p data = true → q data = true) :
    outstanding p σ ≤ outstanding q σ := by
  have hsq := List.countP_mono_left (l := σ.sq) fun sqe _ => h sqe.userData
  have hinFlight := List.countP_mono_left (l := σ.inFlight) fun data _ => h data
  have hcq := List.countP_mono_left (l := σ.cq) fun c _ => h c.userData
  simp only [outstanding]
  omega

theorem outstanding_pos_of_mem_cq (hc : c ∈ σ.cq) (h : p c.userData = true) :
    0 < outstanding p σ := by
  have : 0 < σ.cq.countP fun c => p c.userData := List.countP_pos_iff.mpr ⟨c, hc, h⟩
  simp only [outstanding]
  omega

theorem outstanding_pos_of_mem_inFlight {data : Addr} (hdata : data ∈ σ.inFlight)
    (h : p data = true) : 0 < outstanding p σ := by
  have : 0 < σ.inFlight.countP p := List.countP_pos_iff.mpr ⟨data, hdata, h⟩
  simp only [outstanding]
  omega

theorem two_le_outstanding {data : Addr} (hdata : data ∈ σ.inFlight) (hc : c ∈ σ.cq)
    (h : p data = true) (h' : p c.userData = true) : 2 ≤ outstanding p σ := by
  have hinFlight : 0 < σ.inFlight.countP p := List.countP_pos_iff.mpr ⟨data, hdata, h⟩
  have hcq : 0 < σ.cq.countP fun c => p c.userData := List.countP_pos_iff.mpr ⟨c, hc, h'⟩
  simp only [outstanding]
  omega

/-- What a new entry leaves alone. -/
structure SameBut (σ τ : Ring) : Prop where
  evOp : τ.evOp = σ.evOp
  operations : τ.operations = σ.operations
  cq : τ.cq = σ.cq
  resumed : τ.resumed = σ.resumed

theorem SameBut.refl (σ : Ring) : SameBut σ σ := ⟨rfl, rfl, rfl, rfl⟩

theorem SameBut.trans {υ : Ring} (h : SameBut σ τ) (h' : SameBut τ υ) : SameBut σ υ :=
  ⟨h'.evOp.trans h.evOp, h'.operations.trans h.operations, h'.cq.trans h.cq,
    h'.resumed.trans h.resumed⟩

private theorem toNat_eq_ite (b : Bool) : b.toNat = if b = true then 1 else 0 := by
  cases b <;> rfl

private theorem getSqe_spec {sqe : Sqe} (h : σ.getSqe sqe = some τ) :
    SameBut σ τ ∧ outstanding p τ = outstanding p σ + (p sqe.userData).toNat := by
  obtain ⟨_, ⟨⟩⟩ := Option.ite_none_right_eq_some.mp h
  refine ⟨⟨rfl, rfl, rfl, rfl⟩, ?_⟩
  simp only [outstanding, List.countP_append, List.countP_singleton, toNat_eq_ite]
  omega

theorem getSqeOrSubmit_spec {sqe : Sqe} (h : σ.getSqeOrSubmit sqe = some τ) :
    SameBut σ τ ∧ outstanding p τ = outstanding p σ + (p sqe.userData).toNat := by
  rcases Option.or_eq_some_iff.mp h with h | ⟨_, h⟩
  · exact getSqe_spec h
  · obtain ⟨hsame, hpending⟩ := getSqe_spec (p := p) h
    exact ⟨⟨hsame.evOp, hsame.operations, hsame.cq, hsame.resumed⟩,
      hpending.trans (by rw [outstanding_ioUringSubmit])⟩

/-- The operation that `submit` leaves. -/
def submittedOp (op : Operation) : Operation :=
  if op.timer.ms > 0 then
    { op with
      timer := .ts ⟨op.timer.ms.toNat / 1000, op.timer.ms.toNat % 1000 * 1000000⟩
      refCount := 2
      flags := op.flags ||| Operation.fIsLinked }
  else op

/-- Specification of `submit`: one entry, and one more for a timeout. -/
theorem submit_spec {addr : Addr} {op op' : Operation} {prep : Opcode}
    (h : σ.submit addr op prep = some (τ, op')) :
    SameBut σ τ ∧ op' = submittedOp op ∧
      outstanding p τ = outstanding p σ + (p addr).toNat +
        if op.timer.ms > 0 then (p (tag addr)).toNat else 0 := by
  obtain ⟨σ₁, hfirst, h⟩ := Option.bind_eq_some_iff.mp h
  obtain ⟨hsame, hpending⟩ := getSqeOrSubmit_spec (p := p) hfirst
  split at h
  case isTrue htimed =>
    obtain ⟨σ₂, hsecond, h⟩ := Option.bind_eq_some_iff.mp h
    obtain ⟨rfl, rfl⟩ := Prod.mk.inj (Option.some.inj h)
    obtain ⟨hsame', hpending'⟩ := getSqe_spec (p := p) hsecond
    refine ⟨hsame.trans hsame', ?_, ?_⟩
    · simp [submittedOp, htimed]
    · rw [hpending', hpending, if_pos htimed]
      rfl
  case isFalse htimed =>
    obtain ⟨rfl, rfl⟩ := Prod.mk.inj (Option.some.inj h)
    refine ⟨hsame, ?_, ?_⟩
    · simp [submittedOp, htimed]
    · rw [hpending, if_neg htimed]
      rfl

end Queues

/-- The operation of a coroutine that awaits. -/
def awaited (h : Handle) (timeoutMs : UInt32) : Operation :=
  submittedOp { AsyncOp.operation timeoutMs with handle := some h }

theorem awaited_untimed (ht : ¬timeoutMs > 0) :
    awaited h timeoutMs = { handle := some h, timer := .timeoutMs timeoutMs } :=
  if_neg ht

theorem awaited_timed (ht : timeoutMs > 0) :
    awaited h timeoutMs =
      { handle := some h
        refCount := 2
        flags := 0 ||| Operation.fIsLinked
        timer := .ts ⟨timeoutMs.toNat / 1000, timeoutMs.toNat % 1000 * 1000000⟩ } :=
  (if_pos ht).trans rfl

theorem awaited_live (h : Handle) (timeoutMs : UInt32) :
    (awaited h timeoutMs).handle = some h ∧
      (awaited h timeoutMs).refCount.toNat = 1 + if timeoutMs > 0 then 1 else 0 := by
  by_cases ht : timeoutMs > 0
  · simp [awaited_timed ht, ht]
  · simp [awaited_untimed ht, ht]

theorem awaitSuspend_spec {σ τ : Ring} {ptr : OperationPtr} {bufferSelect : Bool} (p : Addr → Bool)
    (hstep : σ.step (.awaitSuspend ptr h timeoutMs bufferSelect) = some τ) :
    (ptr ≠ σ.evOp ∧ σ.operations ptr.addr = none) ∧
      SameBut (σ.setOperation ptr.addr (some (awaited h timeoutMs))) τ ∧
      outstanding p τ = outstanding p σ + (p ptr.addr).toNat +
        if timeoutMs > 0 then (p (tag ptr.addr)).toNat else 0 := by
  obtain ⟨hfresh, hsuspend⟩ := Option.ite_none_right_eq_some.mp hstep
  obtain ⟨⟨σ₁, op⟩, hsubmit, ⟨⟩⟩ := Option.bind_eq_some_iff.mp hsuspend
  obtain ⟨hsame, rfl, hpending⟩ := submit_spec (p := p) hsubmit
  refine ⟨hfresh, ⟨hsame.evOp, ?_, hsame.cq, hsame.resumed⟩, hpending⟩
  simp only [Ring.setOperation, hsame.operations]
  rfl

/-- `run_one` before and behind its loop. -/
theorem quiet_step {σ τ : Ring} (hl : l = .runOne ∨ l = .cqAdvance) (hstep : σ.step l = some τ) :
    SameBut σ τ ∧
      ∀ p : Addr → Bool, p σ.evOp.addr = false → outstanding p τ = outstanding p σ := by
  rcases hl with rfl | rfl
  · obtain ⟨_, ⟨⟩⟩ := Option.ite_none_right_eq_some.mp hstep
    exact ⟨⟨rfl, rfl, rfl, rfl⟩, fun p _ => outstanding_ioUringSubmit⟩
  · simp only [Ring.step] at hstep
    split at hstep
    · obtain ⟨hsame, _⟩ := getSqeOrSubmit_spec (p := fun _ => true) hstep
      refine ⟨⟨hsame.evOp, hsame.operations, hsame.cq, hsame.resumed⟩, fun p hp => ?_⟩
      rw [(getSqeOrSubmit_spec (p := p) hstep).2]
      simp only [hp, Bool.toNat_false, Nat.add_zero]
      rfl
    · obtain rfl := Option.some.inj hstep
      exact ⟨⟨rfl, rfl, rfl, rfl⟩, fun _ _ => rfl⟩
    · cases hstep

/-! ## Completions -/

/-- What the loop makes of a completion. -/
theorem onCqe_eq (σ : Ring) (c : Cqe) :
    σ.onCqe c =
      if untag c.userData = σ.evOp.addr then ({ σ with needRearm := some true }, none)
      else if untag c.userData ≠ 0#64 then
        match σ.operations (untag c.userData) with
        | none => (σ, none)
        | some op =>
          match (op.onCqe (isTagged c.userData) c).woken with
          | some h =>
            (σ.setOperation (untag c.userData) none,
              some ⟨untag c.userData, h, op.onCqe (isTagged c.userData) c⟩)
          | none =>
            (σ.setOperation (untag c.userData) (some (op.onCqe (isTagged c.userData) c)), none)
      else (σ, none) :=
  rfl

/-- The cases of an iteration. -/
theorem step_cqe {σ τ : Ring} (h : σ.step (.cqe c) = some τ) :
    ∃ rest, σ.cq = c :: rest ∧
      ((untag c.userData = σ.evOp.addr ∧
          τ = { σ with cq := rest, needRearm := some true }) ∨
        (untag c.userData ≠ σ.evOp.addr ∧
          (untag c.userData = 0#64 ∨ σ.operations (untag c.userData) = none) ∧
          τ = { σ with cq := rest }) ∨
        (untag c.userData ≠ σ.evOp.addr ∧ untag c.userData ≠ 0#64 ∧
          ∃ op, σ.operations (untag c.userData) = some op ∧
            τ = match (op.onCqe (isTagged c.userData) c).woken with
              | some h =>
                { σ.setOperation (untag c.userData) none with
                  cq := rest
                  resumed := σ.resumed ++
                    [⟨untag c.userData, h, op.onCqe (isTagged c.userData) c⟩] }
              | none =>
                { σ.setOperation (untag c.userData) (some (op.onCqe (isTagged c.userData) c)) with
                  cq := rest })) := by
  simp only [Ring.step] at h
  split at h
  case h_2 => cases h
  case h_1 c' rest hrearm hcq =>
    obtain ⟨rfl, h⟩ := Option.ite_none_right_eq_some.mp h
    refine ⟨rest, hcq, ?_⟩
    obtain rfl := Option.some.inj h
    simp only [onCqe_eq]
    -- `run_one` looks for the eventfd first, then for a null pointer
    by_cases hev : untag c'.userData = σ.evOp.addr
    · exact .inl ⟨hev, by simp [hev]⟩
    · by_cases hnull : untag c'.userData = 0#64
      · exact .inr (.inl ⟨hev, .inl hnull, by rw [if_neg hev]; simp [hnull]⟩)
      · cases hop : σ.operations (untag c'.userData) with
        | none => exact .inr (.inl ⟨hev, .inr rfl, by simp [hev, hnull]⟩)
        | some op =>
          refine .inr (.inr ⟨hev, hnull, op, rfl, ?_⟩)
          cases hwoken : (op.onCqe (isTagged c'.userData) c').woken <;>
            simp [hev, hnull, hwoken, Ring.setOperation]

/-- The completions of an operation that a run handles. -/
def cqesOf (addr : Addr) (ls : List RingLabel) : List Cqe :=
  ls.filterMap fun l => match l with
    | .cqe c => if untag c.userData = addr then some c else none
    | _ => none

/-- The resumptions that awaited at an address. -/
def resumedOf (addr : Addr) (σ : Ring) : List Resumption := σ.resumed.filter (·.addr = addr)

section Frame

variable {σ τ : Ring} {addr : Addr} {op : Operation}

theorem resumedOf_congr (h : τ.resumed = σ.resumed) : resumedOf addr τ = resumedOf addr σ := by
  rw [resumedOf, h, resumedOf]

/-- A step that handles no completion of an operation leaves it alone. -/
theorem step_frame (hop : σ.operations addr = some op) (hl : cqesOf addr [l] = [])
    (hstep : σ.step l = some τ) :
    τ.operations addr = some op ∧ resumedOf addr τ = resumedOf addr σ ∧ τ.evOp = σ.evOp := by
  cases l with
  | awaitSuspend ptr h timeoutMs bufferSelect =>
    obtain ⟨⟨_, hfresh⟩, hsame, _⟩ := awaitSuspend_spec (fun _ => true) hstep
    -- an operation that is pending is not submitted again
    have hne : addr ≠ ptr.addr := fun h => by simp [← h, hop] at hfresh
    refine ⟨?_, resumedOf_congr hsame.resumed, hsame.evOp⟩
    rw [hsame.operations]
    simpa [Ring.setOperation, hne] using hop
  | complete c =>
    obtain ⟨_, ⟨⟩⟩ := Option.ite_none_right_eq_some.mp hstep
    exact ⟨hop, rfl, rfl⟩
  | runOne =>
    obtain ⟨hsame, _⟩ := quiet_step (.inl rfl) hstep
    exact ⟨hsame.operations ▸ hop, resumedOf_congr hsame.resumed, hsame.evOp⟩
  | cqe c =>
    have hne : untag c.userData ≠ addr := fun h => by simp [cqesOf, h] at hl
    obtain ⟨rest, _, ⟨_, rfl⟩ | ⟨_, _, rfl⟩ | ⟨_, _, op', _, rfl⟩⟩ := step_cqe hstep
    · exact ⟨hop, rfl, rfl⟩
    · exact ⟨hop, rfl, rfl⟩
    · cases (op'.onCqe (isTagged c.userData) c).woken <;>
        simp [Ring.setOperation, Ne.symm hne, hop, resumedOf, hne]
  | cqAdvance =>
    obtain ⟨hsame, _⟩ := quiet_step (.inr rfl) hstep
    exact ⟨hsame.operations ▸ hop, resumedOf_congr hsame.resumed, hsame.evOp⟩

/-- What the handling of a completion does to its operation. -/
theorem step_handled (hev : addr ≠ σ.evOp.addr) (hnull : addr ≠ 0#64)
    (hop : σ.operations addr = some op) (hc : untag c.userData = addr)
    (hstep : σ.step (.cqe c) = some τ) :
    τ.evOp = σ.evOp ∧
      match (op.onCqe (isTagged c.userData) c).woken with
      | some h =>
        τ.operations addr = none ∧
          resumedOf addr τ = resumedOf addr σ ++ [⟨addr, h, op.onCqe (isTagged c.userData) c⟩]
      | none =>
        τ.operations addr = some (op.onCqe (isTagged c.userData) c) ∧
          resumedOf addr τ = resumedOf addr σ := by
  subst hc
  obtain ⟨rest, _, ⟨h, _⟩ | ⟨_, h, _⟩ | ⟨_, _, op', hop', rfl⟩⟩ := step_cqe hstep
  · exact absurd h hev
  · simp [hnull, hop] at h
  · obtain rfl := Option.some.inj (hop.symm.trans hop')
    cases (op.onCqe (isTagged c.userData) c).woken <;> simp [Ring.setOperation, resumedOf]

end Frame

/-! ## The invariant -/

/-- The reference counts.  The user data of an entry that no coroutine waits for is null. -/
structure RingInv (σ : Ring) : Prop where
  refCount : ∀ addr, addr ≠ σ.evOp.addr → addr ≠ 0#64 →
    outstanding (fun data => untag data = addr) σ = (σ.operations addr).elim 0 (·.refCount.toNat)
  live : ∀ addr op, σ.operations addr = some op →
    (∃ ptr, ptr ≠ σ.evOp ∧ ptr.addr = addr) ∧ 0 < op.refCount.toNat ∧ op.handle ≠ none

/-- What an iteration does to the operation of its completion, if it has one. -/
structure CqeStep (σ : Ring) (c : Cqe) (τ : Ring) : Prop where
  cq : σ.cq = c :: τ.cq
  sq : τ.sq = σ.sq
  inFlight : τ.inFlight = σ.inFlight
  evOp : τ.evOp = σ.evOp
  operation :
    (σ.operations (untag c.userData) = none ∧ τ.operations = σ.operations ∧
      τ.resumed = σ.resumed) ∨
    ∃ op, σ.operations (untag c.userData) = some op ∧
      ((∃ h, op.refCount = 1 ∧ τ.operations = Function.update σ.operations (untag c.userData) none ∧
          τ.resumed = σ.resumed ++
            [⟨untag c.userData, h, op.onCqe (isTagged c.userData) c⟩]) ∨
        (op.refCount ≠ 1 ∧
          τ.operations = Function.update σ.operations (untag c.userData)
            (some (op.onCqe (isTagged c.userData) c)) ∧
          τ.resumed = σ.resumed))

/-- One address of the invariant. -/
structure RefCounted (σ : Ring) (addr : Addr) : Prop where
  count : outstanding (fun data => untag data = addr) σ =
    (σ.operations addr).elim 0 (·.refCount.toNat)
  live : ∀ op, σ.operations addr = some op → 0 < op.refCount.toNat ∧ op.handle ≠ none

theorem RingInv.refCounted {σ : Ring} (hinv : RingInv σ) {addr : Addr} (hev : addr ≠ σ.evOp.addr)
    (hnull : addr ≠ 0#64) : RefCounted σ addr :=
  ⟨hinv.refCount addr hev hnull, fun op hop => (hinv.live addr op hop).2⟩

/-- No operation is at the address of `ev_op_` or at null. -/
theorem RingInv.operations_eq_none {σ : Ring} (hinv : RingInv σ) {addr : Addr}
    (haddr : addr = σ.evOp.addr ∨ addr = 0#64) : σ.operations addr = none := by
  apply Option.eq_none_iff_forall_ne_some.mpr
  intro op hop
  obtain ⟨⟨ptr, hne, hptr⟩, -⟩ := hinv.live addr op hop
  rcases haddr with hev | hnull
  · exact hne (addr_injective (hptr.trans hev))
  · exact ptr.ne_null (hptr.trans hnull)

/-- An iteration, if what it finds at its address has a handle. -/
private theorem cqeStep_of_live {σ τ : Ring}
    (hlive : ∀ op, σ.operations (untag c.userData) = some op → op.handle ≠ none)
    (hgone : untag c.userData = σ.evOp.addr ∨ untag c.userData = 0#64 →
      σ.operations (untag c.userData) = none)
    (hstep : σ.step (.cqe c) = some τ) : CqeStep σ c τ := by
  obtain ⟨rest, hcq, ⟨hev, rfl⟩ | ⟨_, hnone, rfl⟩ | ⟨_, _, op, hop, rfl⟩⟩ := step_cqe hstep
  · exact ⟨hcq, rfl, rfl, rfl, .inl ⟨hgone (.inl hev), rfl, rfl⟩⟩
  · have hnone : σ.operations (untag c.userData) = none :=
      hnone.elim (fun hnull => hgone (.inr hnull)) id
    exact ⟨hcq, rfl, rfl, rfl, .inl ⟨hnone, rfl, rfl⟩⟩
  · obtain ⟨h, hh⟩ := Option.ne_none_iff_exists'.mp (hlive op hop)
    rw [woken_onCqe]
    by_cases hone : op.refCount = 1
    · simp only [hone, if_true, hh]
      exact ⟨hcq, rfl, rfl, rfl, .inr ⟨op, hop, .inl ⟨h, hone, rfl, rfl⟩⟩⟩
    · simp only [hone, if_false]
      exact ⟨hcq, rfl, rfl, rfl, .inr ⟨op, hop, .inr ⟨hone, rfl, rfl⟩⟩⟩

theorem RingInv.cqeStep {σ τ : Ring} (hinv : RingInv σ) (hstep : σ.step (.cqe c) = some τ) :
    CqeStep σ c τ :=
  cqeStep_of_live (fun op hop => (hinv.live _ op hop).2.2) hinv.operations_eq_none hstep

theorem outstanding_complete {σ : Ring} (p : Addr → Bool) (h : c.userData ∈ σ.inFlight) :
    outstanding p { σ with inFlight := σ.inFlight.erase c.userData, cq := σ.cq ++ [c] } =
      outstanding p σ := by
  have hperm := (List.perm_cons_erase h).countP_eq p
  simp only [outstanding, List.countP_append, List.countP_cons, List.countP_nil] at hperm ⊢
  omega

private theorem outstanding_handled {σ τ : Ring} (p : Addr → Bool) (hsq : τ.sq = σ.sq)
    (hinFlight : τ.inFlight = σ.inFlight) (hcq : σ.cq = c :: τ.cq) :
    outstanding p σ = outstanding p τ + (p c.userData).toNat := by
  simp only [outstanding, hsq, hinFlight, hcq, List.countP_cons, toNat_eq_ite]
  omega

theorem CqeStep.operations_of_ne {σ τ : Ring} (h : CqeStep σ c τ) {addr : Addr}
    (hat : addr ≠ untag c.userData) : τ.operations addr = σ.operations addr := by
  rcases h.operation with ⟨_, h, _⟩ | ⟨_, _, ⟨_, _, h, _⟩ | ⟨_, h, _⟩⟩ <;> simp [h, hat]

/-- An operation behind an iteration. -/
theorem CqeStep.operations_eq {σ τ : Ring} (h : CqeStep σ c τ) {addr : Addr} {op' : Operation}
    (hop' : τ.operations addr = some op') :
    σ.operations addr = some op' ∧ addr ≠ untag c.userData ∨
      addr = untag c.userData ∧ ∃ op, σ.operations addr = some op ∧
        op' = op.onCqe (isTagged c.userData) c := by
  by_cases hat : addr = untag c.userData
  · subst hat
    rcases h.operation with ⟨hnone, heq, _⟩ | ⟨op, hop, ⟨_, _, heq, _⟩ | ⟨_, heq, _⟩⟩
    · rw [heq, hnone] at hop'
      cases hop'
    · simp [heq] at hop'
    · exact .inr ⟨rfl, op, hop, by simpa [heq] using hop'.symm⟩
  · exact .inl ⟨h.operations_of_ne hat ▸ hop', hat⟩

theorem CqeStep.outstanding_eq {σ τ : Ring} (h : CqeStep σ c τ) (p : Addr → Bool) :
    outstanding p σ = outstanding p τ + (p c.userData).toNat :=
  outstanding_handled p h.sq h.inFlight h.cq

/-- An iteration leaves the operations at other addresses alone. -/
theorem operations_of_ne {σ τ : Ring} {addr : Addr} (hstep : σ.step (.cqe c) = some τ)
    (hat : addr ≠ untag c.userData) : τ.operations addr = σ.operations addr := by
  obtain ⟨rest, _, ⟨_, rfl⟩ | ⟨_, _, rfl⟩ | ⟨_, _, op, _, rfl⟩⟩ := step_cqe hstep
  · rfl
  · rfl
  · cases (op.onCqe (isTagged c.userData) c).woken <;> simp [Ring.setOperation, hat]

/-- A completion that is handled is no longer to come. -/
theorem outstanding_cqe {σ τ : Ring} (p : Addr → Bool) (hstep : σ.step (.cqe c) = some τ) :
    outstanding p σ = outstanding p τ + (p c.userData).toNat := by
  obtain ⟨rest, hcq, ⟨_, rfl⟩ | ⟨_, _, rfl⟩ | ⟨_, _, op, _, rfl⟩⟩ := step_cqe hstep
  · exact outstanding_handled p rfl rfl hcq
  · exact outstanding_handled p rfl rfl hcq
  · cases (op.onCqe (isTagged c.userData) c).woken <;> exact outstanding_handled p rfl rfl hcq

/-- The reference that a completion takes is its own. -/
private theorem RefCounted.of_cqeStep {σ τ : Ring} (h : RefCounted σ (untag c.userData))
    (hcqe : CqeStep σ c τ) : RefCounted τ (untag c.userData) := by
  have houtstanding := hcqe.outstanding_eq fun data => untag data = untag c.userData
  rw [decide_eq_true rfl, Bool.toNat_true, h.count] at houtstanding
  rcases hcqe.operation
    with ⟨hnone, _⟩ | ⟨op, hop, ⟨_, hone, hoperations, _⟩ | ⟨hone, hoperations, _⟩⟩
  · simp [hnone] at houtstanding
  · simp only [hop, Option.elim_some, hone] at houtstanding
    refine ⟨by simpa [hoperations] using houtstanding, fun op' hop' => ?_⟩
    simp [hoperations] at hop'
  · obtain ⟨hpos, hhandle⟩ := h.live op hop
    simp only [hop, Option.elim_some] at houtstanding
    constructor
    · simp only [hoperations, Function.update_self, Option.elim_some, onCqe_refCount_toNat hpos]
      omega
    · intro op' hop'
      obtain rfl : op.onCqe (isTagged c.userData) c = op' := by simpa [hoperations] using hop'
      -- the last reference is taken together with the operation
      have hne : op.refCount.toNat ≠ 1 := fun h => hone (UInt8.toNat_inj.mp h)
      rw [onCqe_refCount_toNat hpos, onCqe_handle]
      exact ⟨by omega, hhandle⟩

theorem evOp_of_step {σ τ : Ring} (hstep : σ.step l = some τ) : τ.evOp = σ.evOp := by
  cases l with
  | awaitSuspend ptr handle timeoutMs bufferSelect =>
    exact (awaitSuspend_spec (fun _ => true) hstep).2.1.evOp
  | complete c =>
    obtain ⟨_, ⟨⟩⟩ := Option.ite_none_right_eq_some.mp hstep
    rfl
  | runOne => exact (quiet_step (.inl rfl) hstep).1.evOp
  | cqe c =>
    obtain ⟨rest, _, ⟨_, rfl⟩ | ⟨_, _, rfl⟩ | ⟨_, _, op, _, rfl⟩⟩ := step_cqe hstep
    · rfl
    · rfl
    · cases (op.onCqe (isTagged c.userData) c).woken <;> rfl
  | cqAdvance => exact (quiet_step (.inr rfl) hstep).1.evOp

/-- The labels that mean something to an address. -/
def Concerns (addr : Addr) : RingLabel → Prop
  | .awaitSuspend ptr _ _ _ => ptr.addr = addr
  | .complete c => untag c.userData = addr
  | .cqe c => untag c.userData = addr
  | .runOne => False
  | .cqAdvance => False

/-- The completions of an address that are waiting. -/
def cqAt (addr : Addr) (σ : Ring) : List Cqe := σ.cq.filter fun c => untag c.userData = addr

/-- An address that nothing has happened to. -/
structure UnchangedAt (addr : Addr) (σ τ : Ring) : Prop where
  operation : τ.operations addr = σ.operations addr
  cq : cqAt addr τ = cqAt addr σ
  outstanding : ∀ p : Addr → Bool, (∀ data, p data = true → untag data = addr) →
    outstanding p τ = outstanding p σ

theorem UnchangedAt.refCounted {σ τ : Ring} {addr : Addr} (hsame : UnchangedAt addr σ τ)
    (h : RefCounted σ addr) : RefCounted τ addr := by
  constructor
  · rw [hsame.outstanding _ fun data => of_decide_eq_true, hsame.operation]
    exact h.count
  · intro op hop
    rw [hsame.operation] at hop
    exact h.live op hop

/-- Every step leaves an address alone that it does not concern. -/
theorem unchangedAt_step {σ τ : Ring} {addr : Addr} (hev : addr ≠ σ.evOp.addr)
    (hl : ¬Concerns addr l) (hstep : σ.step l = some τ) : UnchangedAt addr σ τ := by
  -- what counts entries of `addr` counts none of another address
  have hfalse : ∀ p : Addr → Bool, (∀ data, p data = true → untag data = addr) →
      ∀ data, untag data ≠ addr → p data = false := fun p hp data hne =>
    Bool.eq_false_iff.mpr fun h => hne (hp data h)
  have hevOp : untag σ.evOp.addr ≠ addr := by
    rw [untag_of_free (addr_free σ.evOp)]
    exact Ne.symm hev
  cases l with
  | awaitSuspend ptr handle timeoutMs bufferSelect =>
    obtain ⟨_, hsame, _⟩ := awaitSuspend_spec (fun _ => true) hstep
    have hat : ptr.addr ≠ addr := hl
    refine ⟨?_, by rw [cqAt, hsame.cq]; rfl, fun p hp => ?_⟩
    · rw [hsame.operations]
      simp [Ring.setOperation, Ne.symm hat]
    · have hdata := hfalse p hp ptr.addr (by rwa [untag_of_free (addr_free ptr)])
      have htag := hfalse p hp (tag ptr.addr) (by rwa [untag_tag (addr_free ptr)])
      rw [(awaitSuspend_spec p hstep).2.2, hdata, htag]
      simp
  | complete c =>
    obtain ⟨hmem, ⟨⟩⟩ := Option.ite_none_right_eq_some.mp hstep
    have hat : untag c.userData ≠ addr := hl
    exact ⟨rfl, by simp [cqAt, hat], fun p _ => outstanding_complete p hmem⟩
  | runOne =>
    obtain ⟨hsame, hpending⟩ := quiet_step (.inl rfl) hstep
    exact ⟨by rw [hsame.operations], by rw [cqAt, hsame.cq]; rfl,
      fun p hp => hpending p (hfalse p hp _ hevOp)⟩
  | cqe c =>
    have hat : untag c.userData ≠ addr := hl
    refine ⟨operations_of_ne hstep (Ne.symm hat), ?_, fun p hp => ?_⟩
    · obtain ⟨rest, hcq, ⟨_, rfl⟩ | ⟨_, _, rfl⟩ | ⟨_, _, op, _, rfl⟩⟩ := step_cqe hstep
      · simp [cqAt, hcq, hat]
      · simp [cqAt, hcq, hat]
      · cases (op.onCqe (isTagged c.userData) c).woken <;> simp [cqAt, hcq, hat]
    · rw [outstanding_cqe p hstep, hfalse p hp _ hat]
      simp
  | cqAdvance =>
    obtain ⟨hsame, hpending⟩ := quiet_step (.inr rfl) hstep
    exact ⟨by rw [hsame.operations], by rw [cqAt, hsame.cq]; rfl,
      fun p hp => hpending p (hfalse p hp _ hevOp)⟩

/-- Every step keeps the count of an address, whatever is at the others. -/
theorem refCounted_step {σ τ : Ring} {addr : Addr} (hev : addr ≠ σ.evOp.addr) (hnull : addr ≠ 0#64)
    (h : RefCounted σ addr) (hstep : σ.step l = some τ) : RefCounted τ addr := by
  by_cases hl : Concerns addr l
  case neg => exact (unchangedAt_step hev hl hstep).refCounted h
  case pos =>
    cases l with
    | awaitSuspend ptr handle timeoutMs bufferSelect =>
      obtain rfl : ptr.addr = addr := hl
      obtain ⟨⟨_, hfresh⟩, hsame, hpending⟩ :=
        awaitSuspend_spec (fun data => untag data = ptr.addr) hstep
      -- one entry, or two with a timeout
      have hlive := awaited_live handle timeoutMs
      have hop : τ.operations ptr.addr = some (awaited handle timeoutMs) := by
        rw [hsame.operations]
        simp [Ring.setOperation]
      simp only [untag_of_free (addr_free ptr), untag_tag (addr_free ptr)] at hpending
      constructor
      · rw [hpending, h.count, hfresh, hop]
        by_cases ht : timeoutMs > 0 <;> simp [hlive.2, ht]
      · intro op hop'
        obtain rfl := Option.some.inj (hop.symm.trans hop')
        exact ⟨by omega, by simp [hlive.1]⟩
    | complete c =>
      obtain ⟨hmem, ⟨⟩⟩ := Option.ite_none_right_eq_some.mp hstep
      exact ⟨(outstanding_complete _ hmem).trans h.count, h.live⟩
    | cqe c =>
      obtain rfl : untag c.userData = addr := hl
      refine h.of_cqeStep (cqeStep_of_live (fun op hop => (h.live op hop).2) ?_ hstep)
      exact fun hgone => absurd hgone (not_or.mpr ⟨hev, hnull⟩)
    | runOne | cqAdvance => exact hl.elim

/-- An operation is there before the step, or awaited in it. -/
private theorem operations_of_step {σ τ : Ring} {addr : Addr} {op : Operation}
    (hstep : σ.step l = some τ) (hop : τ.operations addr = some op) :
    (∃ op', σ.operations addr = some op') ∨ ∃ ptr, ptr ≠ σ.evOp ∧ ptr.addr = addr := by
  cases l with
  | awaitSuspend ptr handle timeoutMs bufferSelect =>
    obtain ⟨⟨hne, _⟩, hsame, _⟩ := awaitSuspend_spec (fun _ => true) hstep
    by_cases hat : ptr.addr = addr
    · exact .inr ⟨ptr, hne, hat⟩
    · rw [hsame.operations] at hop
      exact .inl ⟨op, by simpa [Ring.setOperation, Ne.symm hat] using hop⟩
  | complete c =>
    obtain ⟨_, ⟨⟩⟩ := Option.ite_none_right_eq_some.mp hstep
    exact .inl ⟨op, hop⟩
  | runOne => exact .inl ⟨op, (quiet_step (.inl rfl) hstep).1.operations ▸ hop⟩
  | cqe c =>
    by_cases hat : addr = untag c.userData
    · subst hat
      obtain ⟨rest, _, ⟨_, rfl⟩ | ⟨_, _, rfl⟩ | ⟨_, _, op', hop', _⟩⟩ := step_cqe hstep
      · exact .inl ⟨op, hop⟩
      · exact .inl ⟨op, hop⟩
      · exact .inl ⟨op', hop'⟩
    · exact .inl ⟨op, operations_of_ne hstep hat ▸ hop⟩
  | cqAdvance => exact .inl ⟨op, (quiet_step (.inr rfl) hstep).1.operations ▸ hop⟩

theorem ringInv_step (σ : Ring) (l : RingLabel) (τ : Ring) (hinv : RingInv σ)
    (hstep : σ.step l = some τ) : RingInv τ := by
  have hev := evOp_of_step hstep
  constructor
  · intro addr haddr hnull
    rw [hev] at haddr
    exact (refCounted_step haddr hnull (hinv.refCounted haddr hnull) hstep).count
  · intro addr op hop
    have hptr : ∃ ptr, ptr ≠ σ.evOp ∧ ptr.addr = addr := by
      rcases operations_of_step hstep hop with ⟨op', hop'⟩ | hptr
      · exact (hinv.live addr op' hop').1
      · exact hptr
    obtain ⟨ptr, hne, rfl⟩ := hptr
    have haddr : ptr.addr ≠ σ.evOp.addr := fun h => hne (addr_injective h)
    have hcounted := refCounted_step haddr ptr.ne_null (hinv.refCounted haddr ptr.ne_null) hstep
    exact ⟨⟨ptr, by rwa [hev], rfl⟩, hcounted.live op hop⟩

theorem ringInv_initial (evOp : OperationPtr) (entries : Nat) :
    RingInv (.initial evOp entries) := by
  refine ⟨fun addr hne _ => ?_, fun addr op h => nomatch h⟩
  have hne : evOp.addr ≠ addr := Ne.symm hne
  simp [outstanding, Ring.initial, untag_of_free (addr_free evOp), hne]

/-- The invariant `RingInv` in every reachable state. -/
theorem ringInv_run {evOp : OperationPtr} {entries : Nat} {ls : List RingLabel} {σ : Ring}
    (hrun : run Ring.step (.initial evOp entries) ls = some σ) : RingInv σ :=
  stateInvariant_of_run ringInv_step (ringInv_initial evOp entries) hrun

end Ppnt.Spec
