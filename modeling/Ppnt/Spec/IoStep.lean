import Ppnt.ForStd.Simulation
import Ppnt.Native.IoSystem
import Ppnt.Spec.DriverInvariant
import Ppnt.Spec.PoolResults
import Ppnt.Spec.TaskOwnership

/-!
# Steps of the runtime

What a step of the runtime does to tasks, ring and posts, as one inductive relation with a case for
each way in which the definition goes on, and what follows for each of the three alone.
-/

namespace Ppnt.Spec

open Ppnt.Native Run TaggedPtr

variable {V E : Type}

/-! ## Operations and who awaits them -/

/-- The coroutine whose operation is at an address. -/
def awaiterAt (ring : Ring) (addr : Addr) : Option Handle := (ring.operations addr).bind (·.handle)

variable {ptr : OperationPtr} {h : Handle} {timeoutMs : UInt32} {bufferSelect : Bool} {c : Cqe}

section Awaiter

variable {ring ring' : Ring}

theorem awaiterAt_congr (h : ring'.operations = ring.operations) (addr : Addr) :
    awaiterAt ring' addr = awaiterAt ring addr := by
  rw [awaiterAt, h, awaiterAt]

theorem awaiterAt_awaitSuspend
    (hstep : ring.step (.awaitSuspend ptr h timeoutMs bufferSelect) = some ring') :
    awaiterAt ring ptr.addr = none ∧
      ∀ addr, awaiterAt ring' addr = if addr = ptr.addr then some h else awaiterAt ring addr := by
  obtain ⟨⟨-, hfresh⟩, hsame, -⟩ := awaitSuspend_spec (fun _ => true) hstep
  refine ⟨by simp [awaiterAt, hfresh], fun addr => ?_⟩
  rw [awaiterAt, hsame.operations]
  by_cases haddr : addr = ptr.addr
  · simp [Ring.setOperation, haddr, (awaited_live h timeoutMs).1]
  · simp [Ring.setOperation, haddr, awaiterAt]

/-- An iteration either resumes nothing and leaves every operation with its coroutine, or it resumes
    the coroutine of its operation, which is gone then. -/
theorem awaiterAt_cqe (hstep : ring.step (.cqe c) = some ring') :
    (IoSystem.resumption ring ring' = none ∧ ∀ addr, awaiterAt ring' addr = awaiterAt ring addr) ∨
      ∃ r, IoSystem.resumption ring ring' = some r ∧
        awaiterAt ring (untag c.userData) = some r.handle ∧
        ∀ addr, awaiterAt ring' addr = if addr = untag c.userData then none
          else awaiterAt ring addr := by
  obtain ⟨rest, -, ⟨-, rfl⟩ | ⟨-, -, rfl⟩ | ⟨-, -, op, hop, rfl⟩⟩ := step_cqe hstep
  · exact .inl ⟨by simp [IoSystem.resumption], fun _ => rfl⟩
  · exact .inl ⟨by simp [IoSystem.resumption], fun _ => rfl⟩
  · cases hwoken : (op.onCqe (isTagged c.userData) c).woken with
    | none =>
      refine .inl ⟨by simp [IoSystem.resumption, Ring.setOperation], fun addr => ?_⟩
      by_cases haddr : addr = untag c.userData
      · simp [awaiterAt, Ring.setOperation, haddr, hop]
      · simp [awaiterAt, Ring.setOperation, haddr]
    | some h =>
      -- what is woken is the handle in the operation
      have hop' : op.handle = some h := by
        rw [woken_onCqe] at hwoken
        exact (Option.ite_none_right_eq_some.mp hwoken).2
      refine .inr ⟨⟨untag c.userData, h, op.onCqe (isTagged c.userData) c⟩, ?_, ?_, fun addr => ?_⟩
      · simp [IoSystem.resumption]
      · simp [awaiterAt, hop, hop']
      · by_cases haddr : addr = untag c.userData
        · simp [awaiterAt, Ring.setOperation, haddr]
        · simp [awaiterAt, Ring.setOperation, haddr]

/-- The completion of the eventfd's read is no operation's. -/
theorem operations_of_evCqe (hev : untag c.userData = ring.evOp.addr)
    (hstep : ring.step (.cqe c) = some ring') : ring'.operations = ring.operations := by
  obtain ⟨rest, -, ⟨-, rfl⟩ | ⟨hne, -⟩ | ⟨hne, -⟩⟩ := step_cqe hstep
  · rfl
  · exact absurd hev hne
  · exact absurd hev hne

/-- What a coroutine waits for has a completion to come. -/
theorem RingInv.outstanding_pos (hinv : RingInv ring) {addr : Addr}
    (hawaiter : awaiterAt ring addr = some h) :
    0 < outstanding (fun data => untag data = addr) ring := by
  obtain ⟨op, hop, -⟩ := Option.bind_eq_some_iff.mp hawaiter
  have hnone : ∀ haddr : addr = ring.evOp.addr ∨ addr = 0#64, False := by
    intro haddr
    rw [hinv.operations_eq_none haddr] at hop
    cases hop
  rw [hinv.refCount addr (fun h => hnone (.inl h)) fun h => hnone (.inr h), hop]
  exact (hinv.live addr op hop).2.1

end Awaiter

/-! ## The read of the eventfd -/

/-- The entries of the eventfd's read with a completion to come, and those whose completion is
    there. -/
def evEntries (ring : Ring) : Nat × Nat :=
  (outstanding (fun data => untag data = ring.evOp.addr) ring, (cqAt ring.evOp.addr ring).length)

section EvEntries

variable {ring ring' : Ring}

/-- What a new entry leaves alone too. -/
structure SameLoop (ring ring' : Ring) : Prop where
  needRearm : ring'.needRearm = ring.needRearm
  entries : ring'.entries = ring.entries

theorem SameLoop.trans {ring₁ : Ring} (h : SameLoop ring ring₁) (h' : SameLoop ring₁ ring') :
    SameLoop ring ring' :=
  ⟨h'.needRearm.trans h.needRearm, h'.entries.trans h.entries⟩

private theorem getSqe_sameLoop {sqe : Sqe} (h : ring.getSqe sqe = some ring') :
    SameLoop ring ring' := by
  obtain ⟨-, ⟨⟩⟩ := Option.ite_none_right_eq_some.mp h
  exact ⟨rfl, rfl⟩

private theorem getSqeOrSubmit_sameLoop {sqe : Sqe} (h : ring.getSqeOrSubmit sqe = some ring') :
    SameLoop ring ring' := by
  rcases Option.or_eq_some_iff.mp h with h | ⟨-, h⟩
  · exact getSqe_sameLoop h
  · have hsubmit : SameLoop ring ring.ioUringSubmit := ⟨rfl, rfl⟩
    exact hsubmit.trans (getSqe_sameLoop h)

/-- A submission makes room. -/
theorem getSqeOrSubmit_isSome (ring : Ring) (hentries : 0 < ring.entries) (sqe : Sqe) :
    (ring.getSqeOrSubmit sqe).isSome := by
  simp only [Ring.getSqeOrSubmit, Ring.getSqe, Ring.ioUringSubmit, Option.isSome_or]
  simp [hentries]

theorem awaitSuspend_sameLoop
    (hstep : ring.step (.awaitSuspend ptr h timeoutMs bufferSelect) = some ring') :
    SameLoop ring ring' := by
  obtain ⟨-, hsuspend⟩ := Option.ite_none_right_eq_some.mp hstep
  obtain ⟨⟨ring₂, op⟩, hsubmit, ⟨⟩⟩ := Option.bind_eq_some_iff.mp hsuspend
  obtain ⟨ring₁, hfirst, hsubmit⟩ := Option.bind_eq_some_iff.mp hsubmit
  have hfirst := getSqeOrSubmit_sameLoop hfirst
  split at hsubmit
  · obtain ⟨ring₂', hsecond, hsubmit⟩ := Option.bind_eq_some_iff.mp hsubmit
    obtain ⟨rfl, -⟩ := Prod.mk.inj (Option.some.inj hsubmit)
    have hboth := hfirst.trans (getSqe_sameLoop hsecond)
    exact ⟨hboth.needRearm, hboth.entries⟩
  · obtain ⟨rfl, -⟩ := Prod.mk.inj (Option.some.inj hsubmit)
    exact ⟨hfirst.needRearm, hfirst.entries⟩

/-- The ring keeps its size. -/
theorem entries_of_step {l : RingLabel} (hstep : ring.step l = some ring') :
    ring'.entries = ring.entries := by
  cases l with
  | awaitSuspend ptr h timeoutMs bufferSelect => exact (awaitSuspend_sameLoop hstep).entries
  | complete c | runOne =>
    obtain ⟨-, ⟨⟩⟩ := Option.ite_none_right_eq_some.mp hstep
    rfl
  | cqe c =>
    obtain ⟨rest, -, ⟨-, rfl⟩ | ⟨-, -, rfl⟩ | ⟨-, -, op, -, rfl⟩⟩ := step_cqe hstep
    · rfl
    · rfl
    · cases (op.onCqe (isTagged c.userData) c).woken <;> rfl
  | cqAdvance =>
    simp only [Ring.step] at hstep
    split at hstep
    · exact (getSqeOrSubmit_sameLoop hstep).entries
    · obtain rfl := Option.some.inj hstep
      rfl
    · cases hstep

private theorem evEntries_eq {n : Nat} (hev : ring'.evOp = ring.evOp)
    (hout : outstanding (fun data => untag data = ring.evOp.addr) ring' =
      outstanding (fun data => untag data = ring.evOp.addr) ring + n)
    (hcq : ring'.cq = ring.cq) : evEntries ring' = evEntries ring + (n, 0) := by
  simp only [evEntries, hev, hout, cqAt, hcq, Prod.mk_add_mk, Nat.add_zero]

theorem evEntries_awaitSuspend
    (hstep : ring.step (.awaitSuspend ptr h timeoutMs bufferSelect) = some ring') :
    evEntries ring' = evEntries ring := by
  obtain ⟨⟨hne, -⟩, hsame, hout⟩ :=
    awaitSuspend_spec (fun data => untag data = ring.evOp.addr) hstep
  have haddr : ptr.addr ≠ ring.evOp.addr := fun heq => hne (addr_injective heq)
  simp only [untag_of_free (addr_free ptr), untag_tag (addr_free ptr), haddr, decide_false,
    Bool.toNat_false, ite_self, Nat.add_zero] at hout
  exact evEntries_eq (n := 0) hsame.evOp hout hsame.cq

theorem evEntries_complete (hstep : ring.step (.complete c) = some ring') :
    evEntries ring' = evEntries ring + (0, if untag c.userData = ring.evOp.addr then 1 else 0) := by
  obtain ⟨hmem, ⟨⟩⟩ := Option.ite_none_right_eq_some.mp hstep
  have hout := outstanding_complete (fun data => untag data = ring.evOp.addr) hmem
  simp only [evEntries, hout, cqAt, List.filter_append, List.length_append, Prod.mk_add_mk,
    Nat.add_zero]
  by_cases hev : untag c.userData = ring.evOp.addr <;> simp [hev]

theorem evEntries_runOne (hstep : ring.step .runOne = some ring') :
    evEntries ring' = evEntries ring ∧ ring.needRearm = none ∧ ring'.needRearm = some false := by
  obtain ⟨hrearm, ⟨⟩⟩ := Option.ite_none_right_eq_some.mp hstep
  exact ⟨evEntries_eq (n := 0) rfl outstanding_ioUringSubmit rfl, hrearm, rfl⟩

/-- An iteration takes an entry of the eventfd read out of the queue, or another one. -/
theorem evEntries_cqe (hstep : ring.step (.cqe c) = some ring') :
    (if untag c.userData = ring.evOp.addr then
      evEntries ring = evEntries ring' + (1, 1) ∧ ring'.needRearm = some true
    else evEntries ring = evEntries ring' ∧ ring'.needRearm = ring.needRearm) := by
  have hout := outstanding_cqe (fun data => untag data = ring.evOp.addr) hstep
  have hev := evOp_of_step hstep
  obtain ⟨rest, hcq, hcases⟩ := step_cqe hstep
  have hrest : ring'.cq = rest := by
    rcases hcases with ⟨-, rfl⟩ | ⟨-, -, rfl⟩ | ⟨-, -, op, -, rfl⟩
    · rfl
    · rfl
    · cases (op.onCqe (isTagged c.userData) c).woken <;> rfl
  split
  case isTrue hc =>
    refine ⟨?_, ?_⟩
    · simp [evEntries, hout, hev, cqAt, hcq, hrest, hc]
    · rcases hcases with ⟨-, rfl⟩ | ⟨hne, -⟩ | ⟨hne, -⟩
      · rfl
      · exact absurd hc hne
      · exact absurd hc hne
  case isFalse hc =>
    refine ⟨?_, ?_⟩
    · simp [evEntries, hout, hev, cqAt, hcq, hrest, hc]
    · rcases hcases with ⟨hev, -⟩ | ⟨-, -, rfl⟩ | ⟨-, -, op, -, rfl⟩
      · exact absurd hev hc
      · rfl
      · cases (op.onCqe (isTagged c.userData) c).woken <;> rfl

theorem evEntries_cqAdvance (hstep : ring.step .cqAdvance = some ring') :
    evEntries ring' = evEntries ring + (if ring.needRearm = some true then 1 else 0, 0) ∧
      ring.needRearm ≠ none ∧ ring'.needRearm = none := by
  simp only [Ring.step] at hstep
  split at hstep
  case h_1 hrearm =>
    obtain ⟨hsame, hout⟩ := getSqeOrSubmit_spec (p := fun data => untag data = ring.evOp.addr) hstep
    refine ⟨evEntries_eq hsame.evOp ?_ hsame.cq, by simp [hrearm],
      (getSqeOrSubmit_sameLoop hstep).needRearm⟩
    rw [hout]
    simp [hrearm, untag_of_free (addr_free ring.evOp), outstanding]
  case h_2 hrearm =>
    obtain rfl := Option.some.inj hstep
    exact ⟨evEntries_eq rfl (by simp [hrearm, outstanding]) rfl, by simp [hrearm], rfl⟩
  case h_3 => cases hstep

end EvEntries

/-! ## Steps -/

/-- What a step does: one case for each way in which `act` goes on. -/
inductive IoStep (σ : IoSystem V E) : IoLabel V E → IoSystem V E → Prop
  | code {l tasks} (hl : σ.ofCode l = true) (htasks : σ.tasks.step l = some tasks) :
    IoStep σ (.code l) { σ with tasks }
  | awaitSuspend {ptr timeoutMs bufferSelect c rest ring tasks}
      (hstack : σ.tasks.stack = .coroutine c :: rest)
      (hring : σ.ring.step (.awaitSuspend ptr c timeoutMs bufferSelect) = some ring)
      (htasks : σ.tasks.step .suspend = some tasks) :
    IoStep σ (.awaitSuspend ptr timeoutMs bufferSelect) { σ with tasks, ring }
  | suspendCoroutine {c rest tasks} (hstack : σ.tasks.stack = .coroutine c :: rest)
      (htasks : σ.tasks.step .suspend = some tasks) :
    IoStep σ .suspendCoroutine { σ with tasks, continuations := σ.continuations ++ [c] }
  | resumeCb {t h post} (hpost : σ.post.step (.push t (some h)) = some post) :
    IoStep σ (.resumeCb t h) { σ with post, continuations := σ.continuations.erase h }
  /-- A posting thread behind the lock. -/
  | thread {l t l' post} (hl' : l' = .exchange t ∨ l' = .write t)
      (hpost : σ.post.step l' = some post) :
    IoStep σ l { σ with post }
  | kernel {c ring} (hc : untag c.userData ≠ σ.ring.evOp.addr)
      (hring : σ.ring.step (.complete c) = some ring) : IoStep σ (.kernel c) { σ with ring }
  | read {c ring post} (hc : untag c.userData = σ.ring.evOp.addr)
      (hring : σ.ring.step (.complete c) = some ring) (hpost : σ.post.readDone c.res = some post) :
    IoStep σ (.kernel c) { σ with ring, post }
  | runOne {ring} (hring : σ.ring.step .runOne = some ring) : IoStep σ .runOne { σ with ring }
  | cqe {c ring} (hc : untag c.userData ≠ σ.ring.evOp.addr)
      (hring : σ.ring.step (.cqe c) = some ring)
      (hawaiter : ∀ addr, awaiterAt ring addr = awaiterAt σ.ring addr) :
      IoStep σ (.cqe c) { σ with ring }
  /-- The last completion of an operation. -/
  | resumeOp {c ring root h} (hroot : σ.tasks.blockedOn = some root)
      (hc : untag c.userData ≠ σ.ring.evOp.addr) (hring : σ.ring.step (.cqe c) = some ring)
      (hh : awaiterAt σ.ring (untag c.userData) = some h)
      (hawaiter : ∀ addr,
        awaiterAt ring addr = if addr = untag c.userData then none else awaiterAt σ.ring addr) :
    IoStep σ (.cqe c) { σ with tasks := σ.tasks.resumeHandle h, ring }
  | evCqe {c ring post} (hc : untag c.userData = σ.ring.evOp.addr)
      (hring : σ.ring.step (.cqe c) = some ring) (hpost : σ.post.step .cqe = some post) :
    IoStep σ (.cqe c) { σ with ring, post }
  | external {l l' post} (hl' : l' = .store ∨ l' = .swap) (hpost : σ.post.step l' = some post) :
    IoStep σ l { σ with post }
  | resumeTask {root h turns post} (hroot : σ.tasks.blockedOn = some root)
      (hphase : σ.post.phase = .resuming (some h :: turns)) (hdone : σ.tasks.done h = false)
      (hpost : σ.post.step (.resume false) = some post) :
    IoStep σ .resumeTask { σ with tasks := σ.tasks.resumeHandle h, post }
  /-- A turn that resumes nothing. -/
  | skip {turn turns ls post} (hphase : σ.post.phase = .resuming (turn :: turns))
      (hturn : ∀ h, turn = some h → σ.tasks.done h = true)
      (hpost : run PostState.step σ.post ls = some post) : IoStep σ .resumeTask { σ with post }
  | advance {ring} (hrearm : σ.ring.needRearm ≠ some true)
      (hring : σ.ring.step .cqAdvance = some ring) :
    IoStep σ .cqAdvance { σ with ring }
  | arm {ring post} (hrearm : σ.ring.needRearm = some true)
      (hring : σ.ring.step .cqAdvance = some ring)
      (hpost : σ.post.step .arm = some post) : IoStep σ .cqAdvance { σ with ring, post }

section Steps

variable {σ τ : IoSystem V E} {l : IoLabel V E}

private theorem onRing_eq_some {tasks : TaskSystem V E} {c : FrameId} (h : tasks.onRing = some c) :
    ∃ rest, tasks.stack = .coroutine c :: rest := by
  simp only [TaskSystem.onRing] at h
  split at h
  case h_1 c' rest hstack =>
    obtain ⟨-, ⟨⟩⟩ := Option.ite_none_right_eq_some.mp h
    exact ⟨rest, hstack⟩
  all_goals cases h

private theorem inBlockOn_eq_some {next : Option (IoSystem V E)} (h : σ.inBlockOn next = some τ) :
    ∃ root, σ.tasks.blockedOn = some root ∧ next = some τ := by
  obtain ⟨hroot, h⟩ := Option.ite_none_right_eq_some.mp h
  obtain ⟨root, hroot⟩ := Option.isSome_iff_exists.mp hroot
  exact ⟨root, hroot, h⟩

private theorem ioStep_onCqe {root : FrameId} (hroot : σ.tasks.blockedOn = some root)
    (h : σ.onCqe c = some τ) : IoStep σ (.cqe c) τ := by
  obtain ⟨ring, hring, h⟩ := Option.bind_eq_some_iff.mp h
  split at h
  case isTrue hc =>
    obtain ⟨post, hpost, ⟨⟩⟩ := Option.bind_eq_some_iff.mp h
    exact .evCqe hc hring hpost
  case isFalse hc =>
    rcases awaiterAt_cqe hring with ⟨hnone, hawaiter⟩ | ⟨r, hr, hh, hawaiter⟩
    · rw [hnone] at h
      obtain rfl := Option.some.inj h
      exact .cqe hc hring hawaiter
    · rw [hr] at h
      obtain rfl := Option.some.inj h
      exact .resumeOp hroot hc hring hh hawaiter

/-- A turn of `run_external_tasks`. -/
private theorem ioStep_onTask {root : FrameId} (hroot : σ.tasks.blockedOn = some root)
    (h : σ.onTask = some τ) : IoStep σ .resumeTask τ := by
  simp only [IoSystem.onTask] at h
  split at h
  case h_1 x turns hphase =>
    split at h
    case isTrue hdone =>
      obtain ⟨mid, hmid, h⟩ := Option.bind_eq_some_iff.mp h
      obtain ⟨post, hpost, ⟨⟩⟩ := Option.bind_eq_some_iff.mp h
      refine .skip hphase ?_
        (show run PostState.step σ.post [.finish x, .resume false] = some post by
        simp [run, hmid, hpost])
      rintro _ ⟨⟩
      exact hdone
    case isFalse hdone =>
      obtain ⟨post, hpost, ⟨⟩⟩ := Option.bind_eq_some_iff.mp h
      exact .resumeTask hroot hphase (by simpa using hdone) hpost
  case h_2 turns hphase =>
    obtain ⟨post, hpost, rfl⟩ := Option.map_eq_some_iff.mp h
    exact .skip hphase (by simp) (run_singleton hpost)
  all_goals cases h

/-- What a step does. -/
theorem ioStep_of_step (hstep : σ.step l = some τ) : IoStep σ l τ := by
  obtain ⟨-, hact⟩ := Option.ite_none_right_eq_some.mp hstep
  cases l with
  | code l =>
    obtain ⟨hl, hact⟩ := Option.ite_none_right_eq_some.mp hact
    obtain ⟨tasks, htasks, rfl⟩ := Option.map_eq_some_iff.mp hact
    exact .code hl htasks
  | awaitSuspend ptr timeoutMs bufferSelect =>
    obtain ⟨c, hc, hact⟩ := Option.bind_eq_some_iff.mp hact
    obtain ⟨ring, hring, hact⟩ := Option.bind_eq_some_iff.mp hact
    obtain ⟨tasks, htasks, ⟨⟩⟩ := Option.bind_eq_some_iff.mp hact
    obtain ⟨rest, hstack⟩ := onRing_eq_some hc
    exact .awaitSuspend hstack hring htasks
  | suspendCoroutine =>
    obtain ⟨c, hc, hact⟩ := Option.bind_eq_some_iff.mp hact
    obtain ⟨tasks, htasks, ⟨⟩⟩ := Option.bind_eq_some_iff.mp hact
    obtain ⟨rest, hstack⟩ := onRing_eq_some hc
    exact .suspendCoroutine hstack htasks
  | resumeCb t h =>
    obtain ⟨post, hpost, ⟨⟩⟩ := Option.bind_eq_some_iff.mp hact
    exact .resumeCb hpost
  | exchange t =>
    obtain ⟨post, hpost, rfl⟩ := Option.map_eq_some_iff.mp hact
    exact .thread (.inl rfl) hpost
  | write t =>
    obtain ⟨post, hpost, rfl⟩ := Option.map_eq_some_iff.mp hact
    exact .thread (.inr rfl) hpost
  -- a completion of the read on the eventfd is also one for `Ring::post`
  | kernel c =>
    obtain ⟨ring, hring, hact⟩ := Option.bind_eq_some_iff.mp hact
    split at hact
    case isTrue hc =>
      obtain ⟨post, hpost, ⟨⟩⟩ := Option.bind_eq_some_iff.mp hact
      exact .read hc hring hpost
    case isFalse hc =>
      obtain rfl := Option.some.inj hact
      exact .kernel hc hring
  | runOne =>
    obtain ⟨root, -, hact⟩ := Option.bind_eq_some_iff.mp hact
    obtain ⟨-, hact⟩ := Option.ite_none_left_eq_some.mp hact
    obtain ⟨ring, hring, ⟨⟩⟩ := Option.bind_eq_some_iff.mp hact
    exact .runOne hring
  | cqe c =>
    obtain ⟨-, hact⟩ := Option.ite_none_right_eq_some.mp hact
    obtain ⟨root, hroot, hnext⟩ := inBlockOn_eq_some hact
    exact ioStep_onCqe hroot hnext
  | store =>
    obtain ⟨-, hact⟩ := Option.ite_none_right_eq_some.mp hact
    obtain ⟨root, -, hnext⟩ := inBlockOn_eq_some hact
    obtain ⟨post, hpost, rfl⟩ := Option.map_eq_some_iff.mp hnext
    exact .external (.inl rfl) hpost
  | swap =>
    obtain ⟨root, -, hnext⟩ := inBlockOn_eq_some hact
    obtain ⟨post, hpost, rfl⟩ := Option.map_eq_some_iff.mp hnext
    exact .external (.inr rfl) hpost
  | resumeTask =>
    obtain ⟨root, hroot, hnext⟩ := inBlockOn_eq_some hact
    exact ioStep_onTask hroot hnext
  | cqAdvance =>
    obtain ⟨root, -, hnext⟩ := inBlockOn_eq_some hact
    obtain ⟨ring, hring, hnext⟩ := Option.bind_eq_some_iff.mp hnext
    -- the read on the eventfd is submitted again
    split at hnext
    case isTrue hrearm =>
      obtain ⟨post, hpost, ⟨⟩⟩ := Option.bind_eq_some_iff.mp hnext
      exact .arm hrearm hring hpost
    case isFalse hrearm =>
      obtain rfl := Option.some.inj hnext
      exact .advance hrearm hring

/-! ## Ring and posts -/

theorem ring_of_ioStep (hstep : IoStep σ l τ) : ∃ ls, run Ring.step σ.ring ls = some τ.ring := by
  cases hstep with
  | code | suspendCoroutine | resumeCb | thread | external | resumeTask | skip => exact ⟨[], rfl⟩
  | awaitSuspend hstack hring htasks | kernel hc hring | read hc hring hpost | runOne hring
  | cqe hc hring hawaiter | resumeOp hroot hc hring hh hawaiter | evCqe hc hring hpost
  | advance hrearm hring | arm hrearm hring hpost =>
    exact ⟨_, run_singleton hring⟩

private theorem run_readDone {post post' : PostState} {res : Int}
    (h : post.readDone res = some post') : ∃ ls, run PostState.step post ls = some post' := by
  obtain ⟨mid, hmid, h⟩ := Option.bind_eq_some_iff.mp h
  split at hmid
  · exact ⟨[.submit, if 0 ≤ res then .readComplete else .readFail], by simp [run, hmid, h]⟩
  · obtain rfl := Option.some.inj hmid
    exact ⟨[_], run_singleton h⟩

theorem post_of_ioStep (hstep : IoStep σ l τ) :
    ∃ ls, run PostState.step σ.post ls = some τ.post := by
  cases hstep with
  | code | awaitSuspend | suspendCoroutine | kernel | runOne | cqe | resumeOp | advance =>
    exact ⟨[], rfl⟩
  | resumeCb hpost | thread hl' hpost => exact ⟨_, run_singleton hpost⟩
  | read hc hring hpost => exact run_readDone hpost
  | evCqe hc hring hpost | external hl' hpost | resumeTask hroot hphase hdone hpost =>
    exact ⟨_, run_singleton hpost⟩
  | skip hphase hturn hpost => exact ⟨_, hpost⟩
  | arm hrearm hring hpost => exact ⟨_, run_singleton hpost⟩

end Steps

end Ppnt.Spec
