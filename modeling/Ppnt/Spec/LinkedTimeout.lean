import Ppnt.Spec.DriverInvariant

/-!
# Linked timeouts

An operation with a timeout has two entries, and its coroutine is resumed when both are completed,
with one result.  An operation starts with the result 0 and a cancelled entry leaves the result as
it is, so that a cancellation that is not the timeout's is reported as 0: a read at the end of the
file, or a successful connect.

The two entries have to be queued together, and the second one is asked for without a submission in
between: with one free place in the queue there is none.
-/

namespace Ppnt.Spec

open Ppnt.Native Run TaggedPtr

/-! ## The pair in the queue -/

/-- The entries of a timed operation are queued one behind the other, and those before them are
    submitted or still in front. -/
structure QueuedAsPair (σ : Ring) (addr : Addr) (op : Operation) (prep : Opcode) (τ : Ring)
    (op' : Operation) : Prop where
  refCount : op'.refCount = 2
  queued : ∃ earlier ts, op'.timer = .ts ts ∧ ts.tvNsec < 1000000000 ∧
    ts.tvSec * 1000000000 + ts.tvNsec = op.timer.ms.toNat * 1000000 ∧
    τ.sq = earlier ++ [{ userData := addr, ioLink := true, opcode := prep },
      { userData := tag addr, opcode := .linkTimeout ts }] ∧
    σ.inFlight ++ σ.sq.map (·.userData) = τ.inFlight ++ earlier.map (·.userData)

section Pair

variable {σ τ : Ring} {addr : Addr} {op : Operation} {prep : Opcode} {sqe : Sqe}

private theorem getSqe_of_lt (h : σ.sq.length < σ.entries) :
    σ.getSqe sqe = some { σ with sq := σ.sq ++ [sqe] } :=
  if_pos h

private theorem getSqe_of_le (h : σ.entries ≤ σ.sq.length) : σ.getSqe sqe = none :=
  if_neg (by omega)

/-- A queue that is full is empty behind its submission. -/
private theorem getSqeOrSubmit_eq (hentries : 0 < σ.entries) (sqe : Sqe) :
    σ.getSqeOrSubmit sqe = some
      (if σ.sq.length < σ.entries then { σ with sq := σ.sq ++ [sqe] }
        else { σ.ioUringSubmit with sq := [sqe] }) := by
  rw [Ring.getSqeOrSubmit]
  by_cases hfree : σ.sq.length < σ.entries
  · rw [getSqe_of_lt hfree, if_pos hfree, Option.some_or]
  · have hroom : σ.ioUringSubmit.sq.length < σ.ioUringSubmit.entries := hentries
    rw [getSqe_of_le (by omega), if_neg hfree, Option.none_or, getSqe_of_lt hroom]
    rfl

/-- The timeout of an operation, in seconds and nanoseconds. -/
def timespecOf (ms : UInt32) : Timespec := ⟨ms.toNat / 1000, ms.toNat % 1000 * 1000000⟩

private theorem timespecOf_eq (ms : UInt32) : (timespecOf ms).tvNsec < 1000000000 ∧
    (timespecOf ms).tvSec * 1000000000 + (timespecOf ms).tvNsec = ms.toNat * 1000000 := by
  simp only [timespecOf]
  omega

/-- What `submit` does once the first entry is there. -/
private theorem submit_eq_of_first (htimed : op.timer.ms > 0)
    (hfirst : σ.getSqeOrSubmit { userData := addr, ioLink := true, opcode := prep } = some τ) :
    σ.submit addr op prep =
      (τ.getSqe { userData := tag addr, opcode := .linkTimeout (timespecOf op.timer.ms) }).map
        fun υ => (υ, submittedOp op) := by
  simp only [Ring.submit, htimed, decide_true, hfirst, submittedOp, if_true]
  rw [Option.map_eq_bind]
  rfl

/-- Timed operations are queued as a pair, exactly if there is not just one free place. -/
theorem submit_pair_iff (hentries : 2 ≤ σ.entries) (hsq : σ.sq.length ≤ σ.entries)
    (htimed : op.timer.ms > 0) :
    (∃ τ op', σ.submit addr op prep = some (τ, op') ∧ QueuedAsPair σ addr op prep τ op') ↔
      σ.sq.length + 1 ≠ σ.entries := by
  have hfirst := getSqeOrSubmit_eq (σ := σ) (by omega)
    { userData := addr, ioLink := true, opcode := prep }
  have hcount : (submittedOp op).refCount = 2 := by simp [submittedOp, htimed]
  have htimer : (submittedOp op).timer = .ts (timespecOf op.timer.ms) := by
    simp [submittedOp, htimed, timespecOf]
  obtain ⟨hnsec, hsec⟩ := timespecOf_eq op.timer.ms
  rw [submit_eq_of_first htimed hfirst]
  by_cases hfree : σ.sq.length < σ.entries
  · rw [if_pos hfree]
    by_cases hone : σ.sq.length + 1 = σ.entries
    · -- the entry has taken the last place
      rw [getSqe_of_le (by simp [hone])]
      simp [hone]
    · rw [getSqe_of_lt (by simp; omega)]
      refine iff_of_true ⟨_, _, rfl, hcount, σ.sq, _, htimer, hnsec, hsec, ?_, rfl⟩ hone
      simp
  · -- the submission has made room for both
    rw [if_neg hfree, getSqe_of_lt (by simp [Ring.ioUringSubmit]; omega)]
    refine iff_of_true ⟨_, _, rfl, hcount, [], _, htimer, hnsec, hsec, rfl, ?_⟩ (by omega)
    simp [Ring.ioUringSubmit]

end Pair

/-- A ring with room for four entries, of which one is taken. -/
theorem submit_pair_iff_room :
    let σ := Ring.initial ⟨8#64, rfl, by decide⟩ 4
    let op : Operation := AsyncOp.operation 1000
    2 ≤ σ.entries ∧ σ.sq.length ≤ σ.entries ∧ op.timer.ms > 0 ∧
      ∃ τ op', σ.submit 16#64 op (.io false) = some (τ, op') ∧
        QueuedAsPair σ 16#64 op (.io false) τ op' := by
  intro σ op
  exact ⟨by decide, by decide, by decide,
    (submit_pair_iff (by decide) (by decide) (by decide)).mpr (by decide)⟩

/-- The constructor's read of the event descriptor and the entry of the operation, flagged to be
    followed by a timeout, fill a queue of two. -/
theorem timeout_without_entry :
    let σ := Ring.initial ⟨8#64, rfl, by decide⟩ 2
    let op : Operation := AsyncOp.operation 1000
    (∃ τ, σ.getSqe { userData := 16#64, ioLink := true, opcode := .io false } = some τ ∧
      τ.sq = [{ userData := 8#64, opcode := .eventfdRead },
        { userData := 16#64, ioLink := true, opcode := .io false }] ∧
      τ.getSqe { userData := 17#64, opcode := .linkTimeout ⟨1, 0⟩ } = none) ∧
      σ.submit 16#64 op (.io false) = none := by
  intro σ op
  exact ⟨⟨_, rfl, rfl, rfl⟩, rfl⟩

/-! ## One operation -/

/-- An operation behind some of its completions. -/
def opAfter (op : Operation) (cs : List Cqe) : Operation :=
  cs.foldl (fun op c => op.onCqe (isTagged c.userData) c) op

private theorem cqesOf_cons (addr : Addr) (l : RingLabel) (ls : List RingLabel) :
    cqesOf addr (l :: ls) = cqesOf addr [l] ++ cqesOf addr ls := by
  rw [← List.singleton_append, cqesOf, List.filterMap_append]
  rfl

private theorem cqesOf_singleton (addr : Addr) (l : RingLabel) :
    cqesOf addr [l] = [] ∨ ∃ c, l = .cqe c ∧ untag c.userData = addr ∧ cqesOf addr [l] = [c] := by
  cases l with
  | cqe c => by_cases h : untag c.userData = addr <;> simp [cqesOf, h]
  | _ => exact .inl rfl

/-- As long as completions are missing, the operation only collects them. -/
theorem live_of_run {σ τ : Ring} {addr : Addr} {op : Operation} {ls : List RingLabel}
    (hev : addr ≠ σ.evOp.addr) (hnull : addr ≠ 0#64) (hop : σ.operations addr = some op)
    (hcount : (cqesOf addr ls).length < op.refCount.toNat) (hrun : run Ring.step σ ls = some τ) :
    τ.operations addr = some (opAfter op (cqesOf addr ls)) ∧
      resumedOf addr τ = resumedOf addr σ ∧ τ.evOp = σ.evOp := by
  -- on the steps: each completion takes a reference, and the others do not touch the operation
  induction ls generalizing σ op with
  | nil =>
    obtain rfl := Option.some.inj hrun
    exact ⟨hop, rfl, rfl⟩
  | cons l ls ih =>
    obtain ⟨σ₁, hstep, hrest⟩ := Option.bind_eq_some_iff.mp hrun
    rw [cqesOf_cons] at hcount ⊢
    rcases cqesOf_singleton addr l with hl | ⟨c, rfl, hc, hl⟩
    · rw [hl, List.nil_append] at hcount ⊢
      obtain ⟨hop₁, hresumed, hevOp⟩ := step_frame hop hl hstep
      obtain ⟨hopτ, hresumedτ, hevOpτ⟩ := ih (hevOp ▸ hev) hop₁ hcount hrest
      exact ⟨hopτ, hresumedτ.trans hresumed, hevOpτ.trans hevOp⟩
    · rw [hl, List.singleton_append] at hcount ⊢
      rw [List.length_cons] at hcount
      -- another completion is to come, so this one does not wake the coroutine
      have hone : op.refCount ≠ 1 := fun h => by simp [h] at hcount
      have hstep' := step_handled hev hnull hop hc hstep
      rw [woken_onCqe, if_neg hone] at hstep'
      obtain ⟨hevOp, hop₁, hresumed⟩ := hstep'
      have hcount₁ : (cqesOf addr ls).length <
          (op.onCqe (isTagged c.userData) c).refCount.toNat := by
        rw [onCqe_refCount_toNat (by omega)]
        omega
      obtain ⟨hopτ, hresumedτ, hevOpτ⟩ := ih (hevOp ▸ hev) hop₁ hcount₁ hrest
      exact ⟨hopτ, hresumedτ.trans hresumed, hevOpτ.trans hevOp⟩

private theorem opAfter_refCount (op : Operation) (cs : List Cqe)
    (h : cs.length ≤ op.refCount.toNat) :
    (opAfter op cs).refCount.toNat = op.refCount.toNat - cs.length := by
  induction cs generalizing op with
  | nil => rfl
  | cons c cs ih =>
    rw [List.length_cons] at h ⊢
    have hone := onCqe_refCount_toNat (show 0 < op.refCount.toNat by omega) (isTagged c.userData) c
    have hrest := ih (op.onCqe (isTagged c.userData) c) (by omega)
    rw [hone] at hrest
    rw [show opAfter op (c :: cs) = opAfter (op.onCqe (isTagged c.userData) c) cs from rfl, hrest]
    omega

private theorem opAfter_handle (op : Operation) (cs : List Cqe) :
    (opAfter op cs).handle = op.handle := by
  induction cs generalizing op with
  | nil => rfl
  | cons c cs ih => exact (ih _).trans (onCqe_handle op _ c)

/-! ## The result -/

section Result

variable (ptr : OperationPtr) (ioRes timeoutRes : Int) (ioFlags timeoutFlags : UInt32)

/-- The completions of an operation, in one of the two orders if there is a timeout. -/
def arrivals (timed timeoutFirst : Bool) : List Cqe :=
  let io : Cqe := ⟨ptr.addr, ioRes, ioFlags⟩
  let timeout : Cqe := ⟨tag ptr.addr, timeoutRes, timeoutFlags⟩
  if timed then if timeoutFirst then [timeout, io] else [io, timeout] else [io]

/-- What the coroutine is to see: the result of an entry that was not cancelled, that the timeout
    expired, and never success for a cancelled entry. -/
structure Reported (timed : Bool) (result : Int) : Prop where
  done : ioRes ≠ -eCanceled → result = ioRes
  expired : timed = true → timeoutRes = -eTime → result = -eTime
  canceled : ioRes = -eCanceled → result < 0

/-- The result that the completions of an operation leave. -/
private theorem arrivals_result (h : Handle) (timeoutMs : UInt32) (timeoutFirst : Bool)
    (hkernel : timeoutRes = -eTime → ioRes = -eCanceled) :
    (opAfter (awaited h timeoutMs)
        (arrivals ptr ioRes timeoutRes ioFlags timeoutFlags (timeoutMs > 0) timeoutFirst)).result =
      if ioRes ≠ -eCanceled then ioRes
      else if timeoutMs > 0 ∧ timeoutRes = -eTime then -eTime else 0 := by
  have hstart : (awaited h timeoutMs).result = 0 := by
    by_cases ht : timeoutMs > 0
    · rw [awaited_timed ht]
    · rw [awaited_untimed ht]
  have hio : isTagged ptr.addr = false := isTagged_of_free (addr_free ptr)
  have htimeout : isTagged (tag ptr.addr) = true := isTagged_tag (by decide)
  by_cases ht : timeoutMs > 0
  · simp only [arrivals, ht, decide_true, if_true, true_and]
    -- the order matters only if the timeout expired and the entry was not cancelled
    cases timeoutFirst with
    | false =>
      simp only [opAfter, onCqe_result, hio, htimeout, hstart, List.foldl_cons, List.foldl_nil,
        if_true, if_false, Bool.false_eq_true]
      split_ifs <;> simp_all
    | true =>
      simp only [opAfter, onCqe_result, hio, htimeout, hstart, List.foldl_cons, List.foldl_nil,
        if_true, if_false, Bool.false_eq_true]
  · simp only [arrivals, ht, opAfter, onCqe_result, hio, hstart, List.foldl_cons, List.foldl_nil,
      decide_false, if_false, Bool.false_eq_true, false_and]

private theorem reported_iff (timed : Bool) (hkernel : timeoutRes = -eTime → ioRes = -eCanceled) :
    Reported ioRes timeoutRes timed
        (if ioRes ≠ -eCanceled then ioRes
          else if timed = true ∧ timeoutRes = -eTime then -eTime else 0) ↔
      ioRes ≠ -eCanceled ∨ (timed = true ∧ timeoutRes = -eTime) := by
  by_cases hio : ioRes = -eCanceled
  · by_cases hexpired : timed = true ∧ timeoutRes = -eTime
    · simp only [hio, ne_eq, not_true, if_false, hexpired, and_self, if_true, or_true, iff_true]
      exact ⟨fun h => absurd rfl h, fun _ _ => rfl, fun _ => by decide⟩
    · -- the result that the operation started with
      simp only [hio, ne_eq, not_true, if_false, hexpired, or_false, iff_false]
      exact fun h => absurd (h.canceled rfl) (lt_irrefl 0)
  · simp only [ne_eq, hio, not_false_eq_true, if_true, true_or, iff_true]
    exact ⟨fun _ => rfl, fun _ h => absurd (hkernel h) hio, fun h => absurd h hio⟩

end Result

/-! ## Whole runs -/

/-- The coroutine of an operation is resumed once from the operation's submission on, by the last
    completion, and no completion is left that could resume it again. -/
structure ResumedOnce (ptr : OperationPtr) (h : Handle) (timed : Bool) (ioRes timeoutRes : Int)
    (σ υ ω : Ring) : Prop where
  notBefore : resumedOf ptr.addr υ = resumedOf ptr.addr σ
  once : ∃ op, resumedOf ptr.addr ω = resumedOf ptr.addr σ ++ [⟨ptr.addr, h, op⟩] ∧
    Reported ioRes timeoutRes timed (AsyncOp.awaitResume op)
  noneLeft : outstanding (fun data => untag data = ptr.addr) ω = 0

section Run

variable {evOp ptr : OperationPtr} {entries : Nat} {ls₀ ls : List RingLabel} {σ τ υ ω : Ring}
  {h : Handle} {timeoutMs : UInt32} {bufferSelect timeoutFirst : Bool} {c : Cqe}
  {ioRes timeoutRes : Int} {ioFlags timeoutFlags : UInt32}

private theorem length_arrivals :
    (arrivals ptr ioRes timeoutRes ioFlags timeoutFlags (timeoutMs > 0) timeoutFirst).length =
      (awaited h timeoutMs).refCount.toNat := by
  rw [(awaited_live h timeoutMs).2]
  unfold arrivals
  by_cases ht : timeoutMs > 0 <;> cases timeoutFirst <;> simp [ht]

private theorem untag_of_mem_arrivals {timed : Bool}
    (hc : c ∈ arrivals ptr ioRes timeoutRes ioFlags timeoutFlags timed timeoutFirst) :
    untag c.userData = ptr.addr := by
  unfold arrivals at hc
  split_ifs at hc <;> simp only [List.mem_cons, List.not_mem_nil, or_false] at hc <;>
    rcases hc with rfl | rfl <;>
    first | exact untag_of_free (addr_free ptr) | exact untag_tag (addr_free ptr)

/-- The last completion resumes the coroutine. -/
private theorem resumed_by_last (hreach : run Ring.step (.initial evOp entries) ls₀ = some σ)
    (hsubmit : σ.step (.awaitSuspend ptr h timeoutMs bufferSelect) = some τ)
    (hrun : run Ring.step τ ls = some υ) (hlast : υ.step (.cqe c) = some ω)
    (hcqes : cqesOf ptr.addr ls ++ [c] =
      arrivals ptr ioRes timeoutRes ioFlags timeoutFlags (timeoutMs > 0) timeoutFirst) :
    resumedOf ptr.addr υ = resumedOf ptr.addr σ ∧
      resumedOf ptr.addr ω = resumedOf ptr.addr σ ++ [⟨ptr.addr, h, opAfter (awaited h timeoutMs)
        (arrivals ptr ioRes timeoutRes ioFlags timeoutFlags (timeoutMs > 0) timeoutFirst)⟩] ∧
      outstanding (fun data => untag data = ptr.addr) ω = 0 := by
  obtain ⟨⟨hne, _⟩, hsame, _⟩ := awaitSuspend_spec (fun _ => true) hsubmit
  have hop : τ.operations ptr.addr = some (awaited h timeoutMs) := by
    simp [hsame.operations, Ring.setOperation]
  have hev : ptr.addr ≠ τ.evOp.addr := fun h => by
    rw [hsame.evOp] at h
    exact hne (addr_injective h)
  have hcount : (cqesOf ptr.addr ls).length + 1 = (awaited h timeoutMs).refCount.toNat := by
    rw [← length_arrivals, ← hcqes, List.length_append, List.length_singleton]
  have hc : untag c.userData = ptr.addr := untag_of_mem_arrivals (by rw [← hcqes]; simp)
  -- up to the last completion
  obtain ⟨hopυ, hresumedυ, hevOpυ⟩ := live_of_run hev ptr.ne_null hop (by omega) hrun
  replace hresumedυ : resumedOf ptr.addr υ = resumedOf ptr.addr σ :=
    hresumedυ.trans (resumedOf_congr hsame.resumed)
  have hone : (opAfter (awaited h timeoutMs) (cqesOf ptr.addr ls)).refCount = 1 := by
    refine UInt8.toNat_inj.mp ?_
    rw [opAfter_refCount _ _ (by omega), ← hcount, Nat.add_sub_cancel_left]
    rfl
  have hhandle : (opAfter (awaited h timeoutMs) (cqesOf ptr.addr ls)).handle = some h :=
    (opAfter_handle _ _).trans (awaited_live h timeoutMs).1
  -- the last completion
  have hstep := step_handled (hevOpυ ▸ hev) ptr.ne_null hopυ hc hlast
  rw [woken_onCqe, if_pos hone, hhandle] at hstep
  obtain ⟨hevOpω, hgone, hresumedω⟩ := hstep
  refine ⟨hresumedυ, ?_, ?_⟩
  · rw [hresumedω, hresumedυ, ← hcqes]
    simp [opAfter]
  · have hinv : RingInv ω := ringInv_step υ _ ω (stateInvariant_of_run ringInv_step
      (ringInv_step σ _ τ (ringInv_run hreach) hsubmit) hrun) hlast
    rw [hinv.refCount ptr.addr (by rwa [hevOpω, hevOpυ]) ptr.ne_null, hgone]
    rfl

/-- `σ` is a ring in which the operation is submitted and `υ` the ring before its last completion is
    handled.  What else happens in between, and in how many calls of `run_one`, is arbitrary. -/
theorem completion_reported_iff (hreach : run Ring.step (.initial evOp entries) ls₀ = some σ)
    (hsubmit : σ.step (.awaitSuspend ptr h timeoutMs bufferSelect) = some τ)
    (hrun : run Ring.step τ ls = some υ) (hlast : υ.step (.cqe c) = some ω)
    (hcqes : cqesOf ptr.addr ls ++ [c] =
      arrivals ptr ioRes timeoutRes ioFlags timeoutFlags (timeoutMs > 0) timeoutFirst)
    (hkernel : timeoutRes = -eTime → ioRes = -eCanceled) :
    ResumedOnce ptr h (timeoutMs > 0) ioRes timeoutRes σ υ ω ↔
      ioRes ≠ -eCanceled ∨ (timeoutMs > 0 ∧ timeoutRes = -eTime) := by
  obtain ⟨hbefore, hresumed, hnone⟩ := resumed_by_last hreach hsubmit hrun hlast hcqes
  have hresult := arrivals_result ptr ioRes timeoutRes ioFlags timeoutFlags h timeoutMs timeoutFirst
    hkernel
  have hreported := reported_iff ioRes timeoutRes (timeoutMs > 0) hkernel
  simp only [decide_eq_true_eq] at hreported
  rw [← hreported, ← hresult]
  constructor
  · rintro ⟨_, ⟨op, hop, hop'⟩, _⟩
    rw [hresumed] at hop
    obtain rfl := (Resumption.mk.inj (List.singleton_inj.mp (List.append_cancel_left hop))).2.2
    exact hop'
  · exact fun h => ⟨hbefore, ⟨_, hresumed, h⟩, hnone⟩

end Run

/-- A read of 1 s that ends in time, with its timeout's completion in a later call of `run_one`. -/
theorem completion_reported_iff_inTime :
    ∃ τ υ ω, (Ring.initial ⟨8#64, rfl, by decide⟩ 4).step
        (.awaitSuspend ⟨16#64, rfl, by decide⟩ 1 1000 false) = some τ ∧
      run Ring.step τ [.runOne, .complete ⟨16#64, 42, 0⟩, .cqe ⟨16#64, 42, 0⟩, .cqAdvance, .runOne,
        .complete ⟨17#64, -eCanceled, 0⟩] = some υ ∧
      υ.step (.cqe ⟨17#64, -eCanceled, 0⟩) = some ω ∧
      ResumedOnce ⟨16#64, rfl, by decide⟩ 1 true 42 (-eCanceled)
        (.initial ⟨8#64, rfl, by decide⟩ 4) υ ω := by
  obtain ⟨τ, υ, ω, hτ, hυ, hω⟩ : ∃ τ υ ω, (Ring.initial ⟨8#64, rfl, by decide⟩ 4).step
        (.awaitSuspend ⟨16#64, rfl, by decide⟩ 1 1000 false) = some τ ∧
      run Ring.step τ [.runOne, .complete ⟨16#64, 42, 0⟩, .cqe ⟨16#64, 42, 0⟩, .cqAdvance, .runOne,
        .complete ⟨17#64, -eCanceled, 0⟩] = some υ ∧
      υ.step (.cqe ⟨17#64, -eCanceled, 0⟩) = some ω := ⟨_, _, _, rfl, rfl, rfl⟩
  refine ⟨τ, υ, ω, hτ, hυ, hω, ?_⟩
  have hreach : run Ring.step (.initial ⟨8#64, rfl, by decide⟩ 4) [] =
      some (.initial ⟨8#64, rfl, by decide⟩ 4) := rfl
  have hcqes : cqesOf 16#64 [.runOne, .complete ⟨16#64, 42, 0⟩, .cqe ⟨16#64, 42, 0⟩, .cqAdvance,
        .runOne, .complete ⟨17#64, -eCanceled, 0⟩] ++ [⟨17#64, -eCanceled, 0⟩] =
      arrivals ⟨16#64, rfl, by decide⟩ 42 (-eCanceled) 0 0 ((1000 : UInt32) > 0) false := rfl
  exact (completion_reported_iff hreach hτ hυ hω hcqes (by decide)).mpr (.inl (by decide))

/-- A read of 1 s whose two entries are cancelled reads 0 bytes. -/
theorem cancellation_read_as_eof :
    ∃ τ υ ω, (Ring.initial ⟨8#64, rfl, by decide⟩ 4).step
        (.awaitSuspend ⟨16#64, rfl, by decide⟩ 1 1000 false) = some τ ∧
      run Ring.step τ [.runOne, .complete ⟨16#64, -eCanceled, 0⟩, .complete ⟨17#64, -eCanceled, 0⟩,
        .cqe ⟨16#64, -eCanceled, 0⟩] = some υ ∧
      υ.step (.cqe ⟨17#64, -eCanceled, 0⟩) = some ω ∧
      (resumedOf 16#64 ω).map (fun r => AsyncOp.awaitResume r.operation) = [0] ∧
      ¬ResumedOnce ⟨16#64, rfl, by decide⟩ 1 true (-eCanceled) (-eCanceled)
        (.initial ⟨8#64, rfl, by decide⟩ 4) υ ω := by
  obtain ⟨τ, υ, ω, hτ, hυ, hω, hresults⟩ : ∃ τ υ ω, (Ring.initial ⟨8#64, rfl, by decide⟩ 4).step
        (.awaitSuspend ⟨16#64, rfl, by decide⟩ 1 1000 false) = some τ ∧
      run Ring.step τ [.runOne, .complete ⟨16#64, -eCanceled, 0⟩, .complete ⟨17#64, -eCanceled, 0⟩,
        .cqe ⟨16#64, -eCanceled, 0⟩] = some υ ∧
      υ.step (.cqe ⟨17#64, -eCanceled, 0⟩) = some ω ∧
      (resumedOf 16#64 ω).map (fun r => AsyncOp.awaitResume r.operation) = [0] :=
    ⟨_, _, _, rfl, rfl, rfl, rfl⟩
  refine ⟨τ, υ, ω, hτ, hυ, hω, hresults, ?_⟩
  rintro ⟨_, ⟨op, hop, hreported⟩, _⟩
  rw [hop] at hresults
  have hzero : AsyncOp.awaitResume op = 0 := List.singleton_inj.mp hresults
  rw [hzero] at hreported
  exact absurd (hreported.canceled rfl) (lt_irrefl 0)

end Ppnt.Spec
