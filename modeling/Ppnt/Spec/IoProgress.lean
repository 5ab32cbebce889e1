import Ppnt.Spec.IoWaits

/-!
# `block_on` goes on

The loop of `block_on` has nothing to do when the root waits and no completion is there; then
`run_one` sleeps in the kernel.  What wakes it up is a completion of an entry, and for a posted
handle that of the eventfd's read.  The models of tasks, ring and posts may only move together, and
none of them keeps the others from a step that the source makes.
-/

namespace Ppnt.Spec

open Ppnt.Native Run TaggedPtr

variable {V E : Type}

/-! ## What resumes a coroutine -/

/-- Something leads to the posted handles: the thread is in `run_external_tasks` or on its way
    there, or the read of the eventfd is an entry of the ring that is completed, or is going to be
    when the posting threads go on. -/
def WakeAhead (σ : IoSystem V E) : Prop :=
  σ.ring.needRearm = some true ∨
    0 < outstanding (fun data => untag data = σ.ring.evOp.addr) σ.ring ∧
      (σ.post.exchanging ≠ [] ∨ σ.post.writing ≠ [] ∨ 0 < σ.post.counter ∨
        cqAt σ.ring.evOp.addr σ.ring ≠ [])

/-- What is going to resume a coroutine. -/
def ResumedBy (σ : IoSystem V E) (f : FrameId) : Prop :=
  (∃ addr, awaiterAt σ.ring addr = some f ∧
    0 < outstanding (fun data => untag data = addr) σ.ring) ∨
    f ∈ σ.continuations ∨ some f ∈ σ.post.turns ∧ WakeAhead σ

section Resumed

variable {σ : IoSystem V E}

private theorem done_eq_true {tasks : TaskSystem V E} {f : FrameId} :
    tasks.done f = true ↔ phaseAt tasks.frames f = some .finalSuspend := by
  simp [TaskSystem.done, phaseAt_eq_some, Option.any_eq_true]

/-- A handle that is posted has a wake-up ahead. -/
private theorem IoInv.wakeAhead (hinv : IoInv σ) {f : FrameId} (hf : some f ∈ σ.post.turns) :
    WakeAhead σ := by
  obtain ⟨hwake, hentries, hrearm⟩ := hinv.read
  by_cases hphase : σ.post.phase = .running
  case neg => exact .inl (hrearm.mpr hphase)
  case pos =>
    have htasks : σ.post.externalTasks ≠ [] := by
      intro hempty
      simp [PostState.turns, hphase, hempty] at hf
    -- the read of `Ring::post` is the entry of the ring for the eventfd
    have hout := congrArg Prod.fst hentries
    have hcq := congrArg Prod.snd hentries
    have hread := hwake.read.mp hphase
    refine .inr ⟨?_, ?_⟩
    · cases hpost : σ.post.read <;> simp_all [evEntries, readEntries]
    · rcases hwake.tasks htasks with h | h | h | h
      · exact .inl h
      · rcases hwake.notified h with h | h | h | h
        · exact .inr (.inl h)
        · exact .inr (.inr (.inl h))
        · refine .inr (.inr (.inr fun hnil => ?_))
          simp [evEntries, readEntries, h, hnil] at hcq
        · simp [hphase] at h
      · simp [hphase] at h
      · simp [hphase] at h

/-- What is going to resume a coroutine that waits. -/
theorem IoInv.resumedBy (hinv : IoInv σ) {f : FrameId} (hf : f ∈ σ.tasks.pending) :
    ResumedBy σ f := by
  obtain ⟨place, hplace, -⟩ := hinv.waiting.unique f hf
  cases place with
  | operation addr => exact .inl ⟨addr, hplace, hinv.ring.outstanding_pos hplace⟩
  | continuation => exact .inr (.inl hplace)
  | posted => exact .inr (.inr ⟨hplace, hinv.wakeAhead hplace⟩)

end Resumed

/-! ## Steps that are possible -/

section Progress

variable {σ : IoSystem V E}

private theorem step_eq_act (hinv : IoInv σ) (l : IoLabel V E) : σ.step l = σ.act l := by
  rw [IoSystem.step, if_pos hinv.tasks.fault]

/-- A read that the kernel completes is one that waits for it. -/
private theorem IoInv.read_of_mem_inFlight (hinv : IoInv σ) {data : Addr}
    (hdata : data ∈ σ.ring.inFlight)
    (hev : untag data = σ.ring.evOp.addr) : σ.post.read = .queued ∨ σ.post.read = .armed := by
  have hpos :=
    outstanding_pos_of_mem_inFlight (p := fun data => untag data = σ.ring.evOp.addr) hdata
    (by simpa using hev)
  have hentries := hinv.read.entries
  cases hread : σ.post.read with
  | queued => exact .inl rfl
  | armed => exact .inr rfl
  | idle =>
    simp only [evEntries, hread, readEntries, Prod.mk.injEq] at hentries
    omega
  | completed =>
    simp only [evEntries, hread, readEntries, Prod.mk.injEq] at hentries
    obtain ⟨c, hc⟩ := List.length_eq_one_iff.mp hentries.2
    have hmem : c ∈ cqAt σ.ring.evOp.addr σ.ring := by simp [hc]
    obtain ⟨hcq, hcev⟩ := List.mem_filter.mp hmem
    have htwo := two_le_outstanding (p := fun data => untag data = σ.ring.evOp.addr) hdata hcq
      (by simpa using hev) (by simpa using hcev)
    omega

private theorem readDone_isSome {post : PostState} {res : Int}
    (hread : post.read = .queued ∨ post.read = .armed)
    (hres : 0 ≤ res → 0 < post.counter) : (post.readDone res).isSome := by
  by_cases h : 0 ≤ res
  · rcases hread with hread | hread <;> simp [PostState.readDone, PostState.step, hread, h, hres h]
  · rcases hread with hread | hread <;> simp [PostState.readDone, PostState.step, hread, h]

theorem IoInv.kernel_isSome (hinv : IoInv σ) {c : Cqe} (hc : c.userData ∈ σ.ring.inFlight)
    (hres : untag c.userData = σ.ring.evOp.addr → 0 ≤ c.res → 0 < σ.post.counter) :
    (σ.step (.kernel c)).isSome := by
  have hring : ∃ ring, σ.ring.step (.complete c) = some ring := ⟨_, if_pos hc⟩
  obtain ⟨ring, hring⟩ := hring
  rw [step_eq_act hinv, IoSystem.act, hring]
  by_cases hev : c.op = σ.ring.evOp.addr
  · have hdone := readDone_isSome (hinv.read_of_mem_inFlight hc hev) (hres hev)
    obtain ⟨post, hpost⟩ := Option.isSome_iff_exists.mp hdone
    simp [hev, hpost]
  · simp [hev]

/-- A completion in the queue can be handled. -/
theorem IoInv.cqe_isSome (hinv : IoInv σ) {root : FrameId} {c : Cqe} {rest : List Cqe}
    (hroot : σ.tasks.blockedOn = some root) (hcq : σ.ring.cq = c :: rest)
    (hrearm : σ.ring.needRearm ≠ none)
    (hphase : σ.post.phase = .running ∨ σ.post.phase = .store) : (σ.step (.cqe c)).isSome := by
  have hring : ∃ ring, σ.ring.step (.cqe c) = some ring := by
    obtain ⟨b, hb⟩ := Option.ne_none_iff_exists'.mp hrearm
    simp [Ring.step, hb, hcq]
  obtain ⟨ring, hring⟩ := hring
  have hblocked : σ.tasks.blockedOn.isSome = true := by simp [hroot]
  rw [step_eq_act hinv, IoSystem.act, if_pos hphase, IoSystem.inBlockOn, if_pos hblocked,
    IoSystem.onCqe, hring]
  by_cases hev : c.op = σ.ring.evOp.addr
  · have hmem : c ∈ cqAt σ.ring.evOp.addr σ.ring := by
      simp only [cqAt, hcq, List.mem_filter, List.mem_cons, true_or, true_and]
      exact decide_eq_true hev
    have hlength := List.length_pos_of_mem hmem
    have hentries := congrArg Prod.snd hinv.read.entries
    have hread : σ.post.read = .completed := by
      cases hread : σ.post.read <;> simp_all [evEntries, readEntries]
    have hrunning : σ.post.phase = .running := hinv.read.wake.read.mpr (by simp [hread])
    simp [hev, PostState.step, hread, hrunning]
  · cases hresumption : IoSystem.resumption σ.ring ring <;> simp [hev, hresumption]

/-- The rest of `run_one`. -/
theorem IoInv.runOne_isSome (hinv : IoInv σ) {root : FrameId}
    (hroot : σ.tasks.blockedOn = some root) (hentries : 0 < σ.ring.entries) :
    (σ.ring.needRearm = none ∧ σ.tasks.done root = true) ∨
      ∃ l ∈ ([.runOne, .store, .swap, .resumeTask, .cqAdvance] : List (IoLabel V E)),
        (σ.step l).isSome = true := by
  simp only [step_eq_act hinv]
  cases hrearm : σ.ring.needRearm with
  | none =>
    -- `run_one` has returned: `block_on` calls it again unless the root has ended
    cases hdone : σ.tasks.done root with
    | true => exact .inl ⟨rfl, rfl⟩
    | false =>
      exact .inr ⟨.runOne, by simp, by simp [IoSystem.act, hroot, hdone, Ring.step, hrearm]⟩
  | some needRearm =>
    refine .inr ?_
    cases needRearm with
    | false =>
      exact ⟨.cqAdvance, by simp, by simp [IoSystem.act, IoSystem.inBlockOn, hroot, Ring.step,
        hrearm]⟩
    | true =>
      have hphase := hinv.read.rearm.mp hrearm
      cases hpost : σ.post.phase with
      | running => exact absurd hpost hphase
      | store =>
        exact ⟨.store, by simp, by
          simp [IoSystem.act, IoSystem.inBlockOn, hroot, hrearm, PostState.step, hpost]⟩
      | swap =>
        exact ⟨.swap, by simp, by simp [IoSystem.act, IoSystem.inBlockOn, hroot, PostState.step,
          hpost]⟩
      | resuming turns =>
        -- the handles that were posted, and then the read is submitted again
        cases turns with
        | nil =>
          have harm : ({ σ.ring with needRearm := none } : Ring).armEventfdRead.isSome :=
            getSqeOrSubmit_isSome { σ.ring with needRearm := none } hentries _
          obtain ⟨ring, hring⟩ := Option.isSome_iff_exists.mp harm
          have hadvance : σ.ring.step .cqAdvance = some ring := by
            simpa [Ring.step, hrearm] using hring
          exact ⟨.cqAdvance, by simp, by
            simp [IoSystem.act, IoSystem.inBlockOn, hroot, hadvance, hrearm, PostState.step, hpost]⟩
        | cons turn turns =>
          refine ⟨.resumeTask, by simp, ?_⟩
          simp only [IoSystem.act, IoSystem.inBlockOn, hroot, Option.isSome_some, if_true,
            IoSystem.onTask, hpost]
          cases turn with
          | none => simp [PostState.step, hpost]
          | some h => by_cases hdone : σ.tasks.done h <;> simp [hdone, PostState.step, hpost]

end Progress

/-- In a ring with room for an entry: the thread in its loop either returns because the root is
    done, or has a step to do in `run_one`; a completion that is there can be handled, and the
    kernel can complete every entry it has, the read of the eventfd with success if something has
    been written. While the root is not done, it waits through the coroutines that it awaits for one
    that an operation's entry, a continuation or a post with its wake-up is going to resume. -/
theorem loop_never_stuck (evOp : OperationPtr) (entries : Nat) (hentries : 0 < entries)
    (ls : List (IoLabel V E)) (σ : IoSystem V E) (root : FrameId)
    (hd : Along IoSystem.step (fun _ => IoDisciplined) [] (.initial evOp entries) ls)
    (hrun : run IoSystem.step (.initial evOp entries) ls = some σ)
    (hroot : σ.tasks.blockedOn = some root) :
    ((σ.ring.needRearm = none ∧ σ.tasks.done root = true) ∨
        ∃ l ∈ ([.runOne, .store, .swap, .resumeTask, .cqAdvance] : List (IoLabel V E)),
          (σ.step l).isSome = true) ∧
      (∀ c rest, σ.ring.cq = c :: rest → σ.ring.needRearm ≠ none →
        σ.post.phase = .running ∨ σ.post.phase = .store → (σ.step (.cqe c)).isSome = true) ∧
      (∀ c : Cqe, c.userData ∈ σ.ring.inFlight →
        (untag c.userData = σ.ring.evOp.addr → 0 ≤ c.res → 0 < σ.post.counter) →
          (σ.step (.kernel c)).isSome = true) ∧
      (σ.tasks.done root = false →
        ∃ f, Chain.Reaches (awaitedTask σ.tasks) root f ∧ ResumedBy σ f) := by
  have hinv := ioInv_of_run hd hrun
  -- no step changes the size of the ring
  have hsize : 0 < σ.ring.entries := by
    obtain ⟨rs, hrs⟩ := exists_run (f := IoSystem.ring)
      (fun σ l τ hstep => ring_of_ioStep (ioStep_of_step hstep)) hrun
    have hkeep : ∀ (ring : Ring) l ring', 0 < ring.entries → ring.step l = some ring' →
      0 < ring'.entries :=
      fun ring l ring' hpos hstep => by rwa [entries_of_step hstep]
    exact stateInvariant_of_run hkeep hentries hrs
  refine ⟨hinv.runOne_isSome hroot hsize, fun c rest hcq hrearm hphase => ?_, fun c hc hres => ?_,
    fun hdone => ?_⟩
  · exact hinv.cqe_isSome hroot hcq hrearm hphase
  · exact hinv.kernel_isSome hc hres
  · obtain ⟨rest, hstack⟩ := blockedOn_eq_some.mp hroot
    obtain rfl := hinv.bottom [] root rest hstack
    have hfinal : phaseAt σ.tasks.frames root ≠ some .finalSuspend := by
      rw [Ne, ← done_eq_true, hdone]
      simp
    -- the chain of awaits ends in a coroutine that waits for the ring
    obtain ⟨f, hf, hreach⟩ := hinv.tasks.pending_of_blockOn hinv.started hstack hfinal
    exact ⟨f, hreach, hinv.resumedBy hf⟩

theorem loop_never_stuck_twoWaits :
    ∃ σ, run IoSystem.step (.initial ringPtr 4) twoWaits = some σ ∧ σ.tasks.blockedOn = some 0 ∧
      σ.tasks.done 0 = false ∧ ∃ f, Chain.Reaches (awaitedTask σ.tasks) 0 f ∧ ResumedBy σ f := by
  have hd : Along IoSystem.step (fun _ => IoDisciplined) [] (.initial ringPtr 4) twoWaits := by
    decide
  have hresult := loop_never_stuck ringPtr 4 (by decide) twoWaits _ 0 hd rfl rfl
  exact ⟨_, rfl, rfl, rfl, hresult.2.2.2 rfl⟩

end Ppnt.Spec
