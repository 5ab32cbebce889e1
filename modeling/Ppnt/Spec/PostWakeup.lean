import Mathlib.Data.List.Count
import Ppnt.ForStd.Run
import Ppnt.Native.RingPost

/-!
# Posting loses no wake-up

Only the thread that finds `notified_` false writes to the eventfd.  `notified_` is set back before
the posted handles are taken, and a handle is posted before `notified_` is looked at: a handle that
misses the swap finds `notified_` false, or set by a thread whose write is to come or not yet read.

`run_external_tasks` resumes neither null handles nor coroutines that have finished.
-/

namespace Ppnt.Spec

open Ppnt.Native Run

/-! ## The wake-up -/

/-- Whoever has set `notified_` still has a wake-up ahead, and a posted handle has one too. -/
structure WakeInv (σ : PostState) : Prop where
  notified : σ.notified = true →
    σ.writing ≠ [] ∨ 0 < σ.counter ∨ σ.read = .completed ∨ σ.phase = .store
  tasks : σ.externalTasks ≠ [] →
    σ.exchanging ≠ [] ∨ σ.notified = true ∨ σ.phase = .store ∨ σ.phase = .swap
  read : σ.phase = .running ↔ σ.read ≠ .idle

theorem wakeInv_initial : WakeInv .initial where
  notified h := nomatch h
  tasks h := absurd rfl h
  read := by decide

private theorem eventfdWrite_pos (counter : Nat) : 0 < eventfdWrite counter := by
  unfold eventfdWrite
  split
  · exact Nat.succ_pos counter
  · have : 0 < eventfdMax := by decide
    omega

@[simp] theorem resume_rest (σ : PostState) (h : Option Handle) (finishes : Bool) :
    (σ.resume h finishes).externalTasks = σ.externalTasks ∧
      (σ.resume h finishes).notified = σ.notified ∧ (σ.resume h finishes).counter = σ.counter ∧
      (σ.resume h finishes).exchanging = σ.exchanging ∧
      (σ.resume h finishes).writing = σ.writing ∧ (σ.resume h finishes).read = σ.read := by
  cases h with
  | none => simp [PostState.resume]
  | some x => simp only [PostState.resume]; split <;> simp

theorem postStep_resume {σ τ : PostState} {finishes : Bool}
    (hstep : σ.step (.resume finishes) = some τ) :
    ∃ h tasks, σ.phase = .resuming (h :: tasks) ∧
      τ = { σ.resume h finishes with phase := .resuming tasks } := by
  simp only [PostState.step] at hstep
  split at hstep
  case h_2 => cases hstep
  case h_1 h tasks hphase => exact ⟨h, tasks, hphase, (Option.some.inj hstep).symm⟩

/-- A posted handle keeps a step of some thread or of the kernel ahead. -/
theorem wakeInv_step (σ : PostState) (l : PostLabel) (τ : PostState) (hinv : WakeInv σ)
    (hstep : σ.step l = some τ) : WakeInv τ := by
  obtain ⟨hnotified, htasks, hread⟩ := hinv
  cases l with
  | push t h =>
    obtain ⟨_, ⟨⟩⟩ := Option.ite_none_right_eq_some.mp hstep
    exact ⟨hnotified, fun _ => .inl (by simp), hread⟩
  | exchange t =>
    obtain ⟨_, ⟨⟩⟩ := Option.ite_none_right_eq_some.mp hstep
    refine ⟨fun _ => ?_, fun _ => .inr (.inl rfl), hread⟩
    -- the thread that sets the flag is the one that writes
    cases hflag : σ.notified with
    | false => exact .inl (by simp)
    | true => simpa [hflag] using hnotified hflag
  | write t =>
    obtain ⟨_, ⟨⟩⟩ := Option.ite_none_right_eq_some.mp hstep
    exact ⟨fun _ => .inr (.inl (eventfdWrite_pos σ.counter)), htasks, hread⟩
  | submit =>
    obtain ⟨hqueued, ⟨⟩⟩ := Option.ite_none_right_eq_some.mp hstep
    refine ⟨fun hflag => ?_, htasks, by simp [hread, hqueued]⟩
    simpa [hqueued] using hnotified hflag
  | readComplete =>
    obtain ⟨⟨harmed, _⟩, ⟨⟩⟩ := Option.ite_none_right_eq_some.mp hstep
    exact ⟨fun _ => .inr (.inr (.inl rfl)), htasks, by simp [hread, harmed]⟩
  | readFail =>
    obtain ⟨harmed, ⟨⟩⟩ := Option.ite_none_right_eq_some.mp hstep
    exact ⟨fun _ => .inr (.inr (.inl rfl)), htasks, by simp [hread, harmed]⟩
  | cqe =>
    obtain ⟨_, ⟨⟩⟩ := Option.ite_none_right_eq_some.mp hstep
    exact ⟨fun _ => .inr (.inr (.inr rfl)), fun _ => .inr (.inr (.inl rfl)), by simp⟩
  | store =>
    obtain ⟨hphase, ⟨⟩⟩ := Option.ite_none_right_eq_some.mp hstep
    refine ⟨fun hflag => ?_, fun _ => .inr (.inr (.inr rfl)), by simpa [hphase] using hread⟩
    cases hflag
  | swap =>
    obtain ⟨hphase, ⟨⟩⟩ := Option.ite_none_right_eq_some.mp hstep
    refine ⟨fun hflag => ?_, fun h => absurd rfl h, by simpa [hphase] using hread⟩
    simpa [hphase] using hnotified hflag
  | resume finishes =>
    obtain ⟨h, tasks, hphase, rfl⟩ := postStep_resume hstep
    constructor
    · simpa [hphase] using hnotified
    · simpa [hphase] using htasks
    · simpa [hphase] using hread
  | arm =>
    obtain ⟨hphase, ⟨⟩⟩ := Option.ite_none_right_eq_some.mp hstep
    have hidle : σ.read = .idle := by simpa [hphase] using hread
    refine ⟨fun hflag => ?_, fun h => ?_, by simp⟩
    · simpa [hphase, hidle] using hnotified hflag
    · simpa [hphase] using htasks h
  | finish h =>
    obtain rfl := Option.some.inj hstep
    exact ⟨hnotified, htasks, hread⟩

/-! ## What becomes of a post -/

/-- The posted handles. -/
def posts (ls : List PostLabel) : List (Option Handle) :=
  ls.filterMap fun l => match l with
    | .push _ h => some h
    | _ => none

/-- The swapped handles whose turn is to come. -/
def swapped : RingPhase → List (Option Handle)
  | .resuming tasks => tasks
  | _ => []

/-- Each post is resumed, skipped or waiting, and only finished coroutines are skipped. -/
structure PostInv (ls : List PostLabel) (σ : PostState) : Prop where
  count : ∀ h, (posts ls).count h = (σ.resumed.map some).count h + σ.skipped.count h +
    (swapped σ.phase).count h + σ.externalTasks.count h
  skipped : ∀ h ∈ σ.skipped, h = none ∨ ∃ x, h = some x ∧ σ.done x = true

private theorem postInv_initial : PostInv [] .initial := by
  constructor
  · intro h
    rfl
  · intro h hh
    cases hh

section PostStep

variable {ls : List PostLabel} {σ τ : PostState} {l : PostLabel}

private theorem posts_snoc (ls : List PostLabel) (l : PostLabel) :
    posts (ls ++ [l]) = posts ls ++ posts [l] := by
  simp [posts]

/-- A step that takes no turn keeps what is waiting. -/
theorem PostInv.keep (hinv : PostInv ls σ) (hl : posts [l] = []) (hresumed : τ.resumed = σ.resumed)
    (hskipped : τ.skipped = σ.skipped) (hdone : ∀ x, σ.done x = true → τ.done x = true)
    (hwaiting : ∀ h, (swapped τ.phase).count h + τ.externalTasks.count h =
      (swapped σ.phase).count h + σ.externalTasks.count h) : PostInv (ls ++ [l]) τ := by
  refine ⟨fun h => ?_, fun h hh => ?_⟩
  · have := hinv.count h
    have := hwaiting h
    rw [posts_snoc, hl, List.append_nil, hresumed, hskipped]
    omega
  · rw [hskipped] at hh
    rcases hinv.skipped h hh with h | ⟨x, hx, hdonex⟩
    · exact .inl h
    · exact .inr ⟨x, hx, hdone x hdonex⟩

/-- A turn. -/
theorem PostInv.turn {h : Option Handle} {tasks : List (Option Handle)} {finishes : Bool}
    (hinv : PostInv ls σ) (hphase : σ.phase = .resuming (h :: tasks)) (hl : posts [l] = []) :
    PostInv (ls ++ [l]) { σ.resume h finishes with phase := .resuming tasks } := by
  have hcount := hinv.count
  have hskipped := hinv.skipped
  -- the turn's handle leaves the queue for one of the two logs
  simp only [hphase, swapped, List.count_cons] at hcount
  have hskip : (h = none ∨ ∃ x, h = some x ∧ σ.done x = true) →
      PostInv (ls ++ [l]) { σ with skipped := σ.skipped ++ [h], phase := .resuming tasks } := by
    intro hfinished
    refine ⟨fun h' => ?_, fun h' hh' => ?_⟩
    · have := hcount h'
      rw [posts_snoc, hl, List.append_nil]
      simp only [swapped, List.count_append, List.count_singleton]
      omega
    · rcases List.mem_append.mp hh' with hh' | hh'
      · exact hskipped h' hh'
      · rwa [List.mem_singleton.mp hh']
  cases h with
  | none => exact hskip (.inl rfl)
  | some x =>
    cases hdone : σ.done x with
    | true => simpa [PostState.resume, hdone] using hskip (.inr ⟨x, rfl, hdone⟩)
    | false =>
      simp only [PostState.resume, hdone, Bool.false_eq_true, if_false]
      refine ⟨fun h' => ?_, fun h' hh' => ?_⟩
      · have := hcount h'
        rw [posts_snoc, hl, List.append_nil]
        simp only [swapped, List.map_append, List.map_cons, List.map_nil, List.count_append,
          List.count_singleton]
        omega
      · rcases hskipped h' hh' with h' | ⟨y, hy, hdoney⟩
        · exact .inl h'
        · have hne : y ≠ x := fun h => by simp [h, hdone] at hdoney
          exact .inr ⟨y, hy, by simpa [hne] using hdoney⟩

/-- Each post is resumed, skipped or waiting, once. -/
theorem postInv_step (ls : List PostLabel) (σ : PostState) (l : PostLabel) (τ : PostState)
    (hinv : PostInv ls σ) (hstep : σ.step l = some τ) : PostInv (ls ++ [l]) τ := by
  cases l with
  | push t h =>
    obtain ⟨_, h'⟩ := Option.ite_none_right_eq_some.mp hstep
    obtain rfl := Option.some.inj h'
    refine ⟨fun x => ?_, hinv.skipped⟩
    have := hinv.count x
    rw [posts_snoc, List.count_append, List.count_append]
    simp only [posts, List.filterMap_cons, List.filterMap_nil] at this ⊢
    omega
  -- none of these touches a post
  | exchange | write | submit | readComplete | readFail =>
    obtain ⟨_, ⟨⟩⟩ := Option.ite_none_right_eq_some.mp hstep
    exact hinv.keep rfl rfl rfl (fun _ h => h) fun _ => rfl
  | cqe =>
    obtain ⟨⟨hphase, _⟩, ⟨⟩⟩ := Option.ite_none_right_eq_some.mp hstep
    exact hinv.keep rfl rfl rfl (fun _ h => h) fun _ => by rw [hphase]; rfl
  | store | arm =>
    obtain ⟨hphase, ⟨⟩⟩ := Option.ite_none_right_eq_some.mp hstep
    exact hinv.keep rfl rfl rfl (fun _ h => h) fun _ => by rw [hphase]; rfl
  | swap =>
    obtain ⟨hphase, ⟨⟩⟩ := Option.ite_none_right_eq_some.mp hstep
    exact hinv.keep rfl rfl rfl (fun _ h => h) fun _ => by simp [hphase, swapped]
  | resume finishes =>
    obtain ⟨h, tasks, hphase, rfl⟩ := postStep_resume hstep
    exact hinv.turn hphase rfl
  | finish x =>
    obtain rfl := Option.some.inj hstep
    refine hinv.keep rfl rfl rfl (fun y h => ?_) fun _ => rfl
    by_cases hy : y = x <;> simp [hy, h]

end PostStep

/-! ## Progress -/

/-- A step that some thread or the kernel has to do: no new post, no failing read, and not the end
    of a coroutine. -/
def isDue : PostLabel → Bool
  | .push .. | .readFail | .finish _ => false
  | _ => true

/-- How many steps are due for the read, and for the phase of the ring thread. -/
def EventfdRead.due : EventfdRead → Nat
  | .idle | .armed => 0
  | .queued => 1
  | .completed => 5

def RingPhase.due : RingPhase → Nat
  | .running => 0
  | .store => 4
  | .swap => 3
  | .resuming tasks => tasks.length + 2

/-- A bound for the steps that are due. -/
def due (σ : PostState) : Nat :=
  8 * σ.exchanging.length + 7 * σ.writing.length + (if 0 < σ.counter then 6 else 0) +
    EventfdRead.due σ.read + RingPhase.due σ.phase + σ.externalTasks.length

/-- Without new posts, the threads have only finitely many steps to do. -/
theorem due_step (σ : PostState) (l : PostLabel) (τ : PostState) (hstep : σ.step l = some τ) :
    if isDue l then due τ < due σ else due τ ≤ due σ + 9 := by
  cases l with
  -- eight for the exchange of the thread, and one for the handle in the queue
  | push t h =>
    obtain ⟨_, h'⟩ := Option.ite_none_right_eq_some.mp hstep
    obtain rfl := Option.some.inj h'
    simp only [isDue, due, List.length_append, List.length_singleton]
    simp only [Bool.false_eq_true, if_false]
    omega
  | exchange t =>
    obtain ⟨hmem, ⟨⟩⟩ := Option.ite_none_right_eq_some.mp hstep
    have hpos := List.length_pos_of_mem hmem
    have hlength := List.length_erase_of_mem hmem
    cases σ.notified <;> simp [isDue, due, hlength] <;> omega
  | write t =>
    obtain ⟨hmem, ⟨⟩⟩ := Option.ite_none_right_eq_some.mp hstep
    have hpos := List.length_pos_of_mem hmem
    have hlength := List.length_erase_of_mem hmem
    simp only [isDue, due, hlength, eventfdWrite_pos, if_true]
    -- a counter that was positive has its read due already
    split <;> omega
  | submit =>
    obtain ⟨hread, ⟨⟩⟩ := Option.ite_none_right_eq_some.mp hstep
    simp [isDue, due, hread, EventfdRead.due]
  | readComplete =>
    obtain ⟨⟨hread, hcounter⟩, ⟨⟩⟩ := Option.ite_none_right_eq_some.mp hstep
    simp [isDue, due, hread, hcounter, EventfdRead.due]
  | readFail =>
    obtain ⟨hread, ⟨⟩⟩ := Option.ite_none_right_eq_some.mp hstep
    simp only [isDue, due, hread, EventfdRead.due, Bool.false_eq_true, if_false]
    omega
  | cqe =>
    obtain ⟨⟨hphase, hread⟩, ⟨⟩⟩ := Option.ite_none_right_eq_some.mp hstep
    simp only [isDue, due, hphase, hread, EventfdRead.due, RingPhase.due, if_true]
    omega
  | store =>
    obtain ⟨hphase, ⟨⟩⟩ := Option.ite_none_right_eq_some.mp hstep
    simp [isDue, due, hphase, RingPhase.due]
  | swap =>
    obtain ⟨hphase, ⟨⟩⟩ := Option.ite_none_right_eq_some.mp hstep
    simp only [isDue, due, hphase, RingPhase.due, if_true, List.length_nil]
    omega
  | resume finishes =>
    obtain ⟨h, tasks, hphase, rfl⟩ := postStep_resume hstep
    simp [isDue, due, hphase, RingPhase.due]
  | arm =>
    obtain ⟨hphase, ⟨⟩⟩ := Option.ite_none_right_eq_some.mp hstep
    simp only [isDue, due, hphase, EventfdRead.due, RingPhase.due, if_true, List.length_nil]
    omega
  | finish x =>
    obtain rfl := Option.some.inj hstep
    simp [isDue, due]

/-- When no step is due, nothing waits. -/
theorem WakeInv.nothing_waits {σ : PostState} (hinv : WakeInv σ)
    (hdue : ∀ l, isDue l = true → σ.step l = none) :
    swapped σ.phase = [] ∧ σ.externalTasks = [] := by
  have hphase : σ.phase = .running := by
    cases hphase : σ.phase with
    | running => rfl
    | store => simpa [PostState.step, hphase] using hdue .store rfl
    | swap => simpa [PostState.step, hphase] using hdue .swap rfl
    | resuming tasks =>
      cases tasks with
      | nil => simpa [PostState.step, hphase] using hdue .arm rfl
      | cons h tasks => simpa [PostState.step, hphase] using hdue (.resume false) rfl
  have hexchanging : σ.exchanging = [] := List.eq_nil_iff_forall_not_mem.mpr fun t ht => by
    simpa [PostState.step, ht] using hdue (.exchange t) rfl
  have hwriting : σ.writing = [] := List.eq_nil_iff_forall_not_mem.mpr fun t ht => by
    simpa [PostState.step, ht] using hdue (.write t) rfl
  have hread : σ.read = .armed := by
    cases hread : σ.read with
    | idle => exact absurd hread (hinv.read.mp hphase)
    | queued => simpa [PostState.step, hread] using hdue .submit rfl
    | armed => rfl
    | completed => simpa [PostState.step, hread, hphase] using hdue .cqe rfl
  have hcounter : ¬0 < σ.counter := fun hpos => by
    simpa [PostState.step, hread, hpos] using hdue .readComplete rfl
  refine ⟨by rw [hphase]; rfl, ?_⟩
  by_contra htasks
  -- whoever is to wake the ring thread up would have a step
  rcases hinv.tasks htasks with h | h | h | h
  · exact h hexchanging
  · rcases hinv.notified h with h | h | h | h
    · exact h hwriting
    · exact hcounter h
    · simp [hread] at h
    · simp [hphase] at h
  · simp [hphase] at h
  · simp [hphase] at h

/-! ## Whole runs -/

/-- In every reachable state: each post is resumed once, or skipped once because its handle is null
    or its coroutine has finished, or waiting; a handle that waits for the swap has a wake-up ahead;
    and no handle waits when no step is due.  The steps that are due end: their number is bounded by
    that of the posts and of the other steps that no thread has to do. -/
theorem post_keeps_wakeups {ls : List PostLabel} {σ : PostState}
    (hrun : run PostState.step .initial ls = some σ) :
    ((∀ h, (posts ls).count h = (σ.resumed.map some).count h + σ.skipped.count h +
        (swapped σ.phase).count h + σ.externalTasks.count h) ∧
      ∀ h ∈ σ.skipped, h = none ∨ ∃ x, h = some x ∧ σ.done x = true) ∧
    (σ.externalTasks ≠ [] → 0 < σ.counter ∨ σ.read = .completed ∨ σ.exchanging ≠ [] ∨
      σ.writing ≠ [] ∨ σ.phase = .store ∨ σ.phase = .swap) ∧
    ((∀ l, isDue l = true → σ.step l = none) → swapped σ.phase = [] ∧ σ.externalTasks = []) ∧
    ls.countP isDue ≤ 1 + 9 * ls.countP fun l => !isDue l := by
  have hwake := stateInvariant_of_run wakeInv_step wakeInv_initial hrun
  have hposts := invariant_of_steps postInv_step postInv_initial hrun
  refine ⟨⟨hposts.count, hposts.skipped⟩, fun htasks => ?_, hwake.nothing_waits, ?_⟩
  · -- a thread is before its exchange, or the flag is set and a wake-up is on its way
    rcases hwake.tasks htasks with h | h | h | h
    · exact .inr (.inr (.inl h))
    · rcases hwake.notified h with h | h | h | h
      · exact .inr (.inr (.inr (.inl h)))
      · exact .inl h
      · exact .inr (.inl h)
      · exact .inr (.inr (.inr (.inr (.inl h))))
    · exact .inr (.inr (.inr (.inr (.inl h))))
    · exact .inr (.inr (.inr (.inr (.inr h))))
  · have hdue := countP_le_of_measure due_step hrun
    have hinitial : due .initial = 1 := rfl
    omega

/-- Two threads post; the second finds the flag set and leaves the write to the first. -/
theorem post_keeps_wakeups_twoThreads :
    ∃ σ, run PostState.step .initial
      [.push 0 (some 1), .exchange 0, .push 1 (some 2), .exchange 1] =
        some σ ∧ σ.externalTasks = [some 1, some 2] ∧ σ.exchanging = [] ∧ σ.writing = [0] ∧
      (0 < σ.counter ∨ σ.read = .completed ∨ σ.exchanging ≠ [] ∨ σ.writing ≠ [] ∨
        σ.phase = .store ∨ σ.phase = .swap) := by
  obtain ⟨σ, hrun, htasks, hexchanging, hwriting⟩ : ∃ σ, run PostState.step .initial
      [.push 0 (some 1), .exchange 0, .push 1 (some 2), .exchange 1] = some σ ∧
      σ.externalTasks = [some 1, some 2] ∧ σ.exchanging = [] ∧ σ.writing = [0] :=
    ⟨_, rfl, rfl, rfl, rfl⟩
  exact ⟨σ, hrun, htasks, hexchanging, hwriting,
    (post_keeps_wakeups hrun).2.1 (by simp [htasks])⟩

/-- A handle is posted twice and its coroutine finishes in its first turn: the second post resumes
    nothing, although no step is due any more. -/
theorem finished_coroutine_skipped :
    ∃ σ, run PostState.step .initial [.push 0 (some 1), .exchange 0, .write 0, .push 0 (some 1),
        .exchange 0, .submit, .readComplete, .cqe, .store, .swap, .resume true, .resume false, .arm,
        .submit] = some σ ∧
      (∀ l, isDue l = true → σ.step l = none) ∧
      (posts [.push 0 (some 1), .exchange 0, .write 0, .push 0 (some 1),
        .exchange 0, .submit, .readComplete, .cqe, .store, .swap, .resume true, .resume false, .arm,
        .submit]).count (some 1) = 2 ∧ σ.resumed.count 1 = 1 := by
  refine ⟨_, rfl, fun l hl => ?_, rfl, rfl⟩
  cases l <;> first | rfl | cases hl

end Ppnt.Spec
