import Ppnt.Spec.IoStep
import Ppnt.Spec.TaskResults

/-!
# Who resumes whom

`run_one` resumes the handle that stands in an operation, and `run_external_tasks` the handles that
were posted; neither asks where that coroutine is.  The model of tasks, on the other hand, lets the
ring resume a coroutine only if it is suspended.  The three models fit: every coroutine that waits
is waited for in exactly one place.
-/

namespace Ppnt.Spec

open Ppnt.Native Run TaggedPtr

variable {V E : Type}

/-! ## Posts -/

variable {h : Handle} {turns : List (Option Handle)} {root : FrameId} {place : WaitPlace}

section Post

variable {post post' : PostState}

private theorem push_rest {t : ThreadId} {h : Option Handle}
    (hstep : post.step (.push t h) = some post') :
    post'.phase = post.phase ∧ post'.read = post.read := by
  obtain ⟨-, ⟨⟩⟩ := Option.ite_none_right_eq_some.mp hstep
  exact ⟨rfl, rfl⟩

private theorem thread_spec {l : PostLabel} {t : ThreadId} (hl : l = .exchange t ∨ l = .write t)
    (hstep : post.step l = some post') :
    post'.phase = post.phase ∧ post'.read = post.read ∧ post'.turns = post.turns ∧
      post'.done = post.done := by
  rcases hl with rfl | rfl
  · obtain ⟨-, ⟨⟩⟩ := Option.ite_none_right_eq_some.mp hstep
    exact ⟨rfl, rfl, rfl, rfl⟩
  · obtain ⟨-, ⟨⟩⟩ := Option.ite_none_right_eq_some.mp hstep
    exact ⟨rfl, rfl, rfl, rfl⟩

private theorem external_spec {l : PostLabel} (hl : l = .store ∨ l = .swap)
    (hstep : post.step l = some post') :
    post.phase ≠ .running ∧ post'.phase ≠ .running ∧ post'.read = post.read ∧
      post'.turns = post.turns ∧ post'.done = post.done := by
  have hturns : post'.turns = post.turns := by
    apply turns_of_quiet _ _ hstep
    · rcases hl with rfl | rfl <;> simp
    · rcases hl with rfl | rfl <;> simp
  rcases hl with rfl | rfl
  · obtain ⟨hphase, ⟨⟩⟩ := Option.ite_none_right_eq_some.mp hstep
    exact ⟨by simp [hphase], by simp, rfl, hturns, rfl⟩
  · obtain ⟨hphase, ⟨⟩⟩ := Option.ite_none_right_eq_some.mp hstep
    exact ⟨by simp [hphase], by simp, rfl, hturns, rfl⟩

/-- Specification of `readDone`. -/
private theorem readDone_spec {res : Int} (h : post.readDone res = some post') :
    (post.read = .queued ∨ post.read = .armed) ∧ post'.read = .completed ∧
      post'.phase = post.phase ∧ post'.turns = post.turns ∧ post'.done = post.done := by
  obtain ⟨mid, hmid, h⟩ := Option.bind_eq_some_iff.mp h
  have hsubmit : (post.read = .queued ∨ mid.read = post.read) ∧ mid.phase = post.phase ∧
      mid.turns = post.turns ∧ mid.done = post.done := by
    split at hmid
    case isTrue hread =>
      obtain ⟨-, ⟨⟩⟩ := Option.ite_none_right_eq_some.mp hmid
      exact ⟨.inl hread, rfl, rfl, rfl⟩
    case isFalse =>
      obtain rfl := Option.some.inj hmid
      exact ⟨.inr rfl, rfl, rfl, rfl⟩
  have hdone : mid.read = .armed ∧ post'.read = .completed ∧ post'.phase = mid.phase ∧
      post'.turns = mid.turns ∧ post'.done = mid.done := by
    split at h
    · obtain ⟨⟨hread, -⟩, ⟨⟩⟩ := Option.ite_none_right_eq_some.mp h
      exact ⟨hread, rfl, rfl, rfl, rfl⟩
    · obtain ⟨hread, ⟨⟩⟩ := Option.ite_none_right_eq_some.mp h
      exact ⟨hread, rfl, rfl, rfl, rfl⟩
  obtain ⟨hread, hphase, hturns, hdone₁⟩ := hsubmit
  obtain ⟨harmed, hcompleted, hphase', hturns', hdone₂⟩ := hdone
  have hwaits := hread.imp id fun heq => heq.symm.trans harmed
  exact ⟨hwaits, hcompleted, hphase'.trans hphase, hturns'.trans hturns, hdone₂.trans hdone₁⟩

private theorem evCqe_spec (hstep : post.step .cqe = some post') :
    (post.read = .completed ∧ post.phase = .running) ∧ post'.read = .idle ∧ post'.phase = .store ∧
      post'.turns = post.turns ∧ post'.done = post.done := by
  have hturns := turns_of_quiet (by simp) (by simp) hstep
  obtain ⟨⟨hphase, hread⟩, ⟨⟩⟩ := Option.ite_none_right_eq_some.mp hstep
  exact ⟨⟨hread, hphase⟩, rfl, rfl, hturns, rfl⟩

private theorem arm_spec (hstep : post.step .arm = some post') :
    post.phase = .resuming [] ∧ post'.read = .queued ∧ post'.phase = .running ∧
      post'.turns = post.turns ∧ post'.done = post.done := by
  have hturns := turns_of_quiet (by simp) (by simp) hstep
  obtain ⟨hphase, ⟨⟩⟩ := Option.ite_none_right_eq_some.mp hstep
  exact ⟨hphase, rfl, rfl, hturns, rfl⟩

private theorem turn_spec (hphase : post.phase = .resuming (some h :: turns))
    (hdone : ∀ x, post.done x = false) (hstep : post.step (.resume false) = some post') :
    post'.phase = .resuming turns ∧ post'.read = post.read ∧ post.turns = some h :: post'.turns ∧
      ∀ x, post'.done x = false := by
  obtain ⟨turn, tasks, hphase', rfl⟩ := postStep_resume hstep
  obtain ⟨rfl, rfl⟩ : turn = some h ∧ tasks = turns := by simpa [hphase'] using hphase
  refine ⟨rfl, by simp, by simp [PostState.turns, hphase'], fun x => ?_⟩
  by_cases hx : x = h
  · simp [PostState.resume, hdone, hx]
  · simp [PostState.resume, hdone, hx]

end Post

/-! ## The stack -/

section Stack

variable {σ τ : TaskSystem V E} {l : TaskLabel V E}

theorem blockedOn_eq_some :
    σ.blockedOn = some root ↔ ∃ rest, σ.stack = .blockOn root :: rest := by
  rw [TaskSystem.blockedOn]
  split <;> simp_all

/-- Above a part of the stack that was there, a step leaves coroutines and calls of `spawn`, unless
    it is a call of `block_on`. -/
private theorem stack_of_taskStep (hstep : TaskStep σ l τ) (hl : ∀ o, l ≠ .blockOn o) :
    ∃ above rest, τ.stack = above ++ rest ∧ rest <:+ σ.stack ∧ ∀ e ∈ above,
      e.isBlockOn = false := by
  cases hstep with
  | blockOn ho => exact absurd rfl (hl _)
  | spawnEmpty ho => exact ⟨[_], _, rfl, List.suffix_refl _, by simp [StackEntry.isBlockOn]⟩
  | @spawn o f ho =>
    exact ⟨[.coroutine f, .spawn (some f)], _, rfl,
      List.suffix_refl _, by simp [StackEntry.isBlockOn]⟩
  | spawnReturn hstack hfree | blockOnValue hstack hframe hphase hvalue =>
    exact ⟨[], _, rfl, hstack ▸ List.suffix_cons .., by simp⟩
  | blockOnException hstack hframe hphase hvalue =>
    exact ⟨[], _, rfl, hstack ▸ List.suffix_cons .., by simp⟩
  | awaitTask hstack ho =>
    exact ⟨[_], _, rfl, hstack ▸ List.suffix_cons .., by simp [StackEntry.isBlockOn]⟩
  | awaitJoinHandle hstack ho hchild hphase | suspend hstack =>
    exact ⟨[], _, rfl, hstack ▸ List.suffix_cons .., by simp⟩
  | complete hstack hf => exact ⟨[_], _, rfl, List.suffix_refl _, by simp [StackEntry.isBlockOn]⟩
  | finishRoot hstack hframe hparent => exact ⟨[], _, rfl, hstack ▸ List.suffix_cons .., by simp⟩
  | finishAwaited hstack hframe hparent =>
    exact ⟨[_], _, rfl, hstack ▸ List.suffix_cons .., by simp [StackEntry.isBlockOn]⟩
  | _ => exact ⟨[], _, rfl, List.suffix_refl _, by simp⟩

private theorem pending_of_taskStep (hstep : TaskStep σ l τ) (hsuspend : l ≠ .suspend)
    (hcomplete : ∀ f, l ≠ .complete f) : τ.pending = σ.pending := by
  cases hstep with
  | suspend hstack => exact absurd rfl hsuspend
  | complete hstack hf => exact absurd rfl (hcomplete _)
  | _ => rfl

private theorem pending_of_suspend (hstep : TaskStep σ .suspend τ) {c : FrameId}
    {rest : List StackEntry}
    (hstack : σ.stack = .coroutine c :: rest) : τ.pending = σ.pending ++ [c] := by
  cases hstep with
  | suspend hstack' =>
    obtain ⟨⟨⟩, -⟩ := List.cons.inj (hstack.symm.trans hstack')
    rfl

private theorem pending_of_complete {f : FrameId} (hstep : TaskStep σ (.complete f) τ) :
    τ.pending = σ.pending.erase f := by
  cases hstep
  rfl

/-- What is above the old part of the stack is no `block_on`. -/
private theorem bottom_of_suffix {stack stack' above' rest' : List StackEntry}
    (hbottom : ∀ above root rest, stack = above ++ .blockOn root :: rest → rest = [])
    (hstack' : stack' = above' ++ rest') (hrest' : rest' <:+ stack)
    (habove' : ∀ e ∈ above', e.isBlockOn = false) (above : List StackEntry) (root : FrameId)
    (rest : List StackEntry) (h : stack' = above ++ .blockOn root :: rest) : rest = [] := by
  obtain ⟨front, rfl⟩ := hrest'
  have hold : ∀ between, rest' = between ++ .blockOn root :: rest → rest = [] :=
    fun between hrest' =>
    hbottom (front ++ between) root rest (by rw [hrest', List.append_assoc])
  rw [hstack'] at h
  rcases List.append_eq_append_iff.mp h with ⟨between, -, hrest'⟩ | ⟨between, rfl, hrest'⟩
  · exact hold between hrest'
  · cases between with
    | nil => exact hold [] hrest'.symm
    | cons e between =>
      obtain ⟨rfl, -⟩ := List.cons.inj hrest'
      have hblockOn := habove' (.blockOn root) (by simp)
      simp [StackEntry.isBlockOn] at hblockOn

private theorem bottom_of_two {f : FrameId} (above : List StackEntry) (root : FrameId)
    (rest : List StackEntry)
    (h : [StackEntry.coroutine f, .blockOn f] = above ++ .blockOn root :: rest) : rest = [] := by
  rcases above with - | ⟨e, - | ⟨e', above⟩⟩
  · cases h
  · simp only [List.cons_append, List.nil_append, List.cons.injEq] at h
    exact h.2.2.symm
  · simp at h

end Stack

/-! ## The invariant -/

/-- Where a suspended coroutine is waited for. -/
inductive WaitPlace where
  | operation (addr : Addr)
  | continuation
  | posted
deriving DecidableEq

def WaitsAt (σ : IoSystem V E) (f : FrameId) : WaitPlace → Prop
  | .operation addr => awaiterAt σ.ring addr = some f
  | .continuation => f ∈ σ.continuations
  | .posted => some f ∈ σ.post.turns

/-- The entries of the ring that a read of the eventfd is. -/
def readEntries : EventfdRead → Nat × Nat
  | .idle => (0, 0)
  | .queued => (1, 0)
  | .armed => (1, 0)
  | .completed => (1, 1)

/-- What the code on the thread has to see to, and that whoever gets a continuation calls it
    once. -/
def IoDisciplined (σ : IoSystem V E) : IoLabel V E → Prop
  | .code l => Disciplined σ.tasks l
  | .resumeCb _ h => h ∈ σ.continuations
  | .awaitSuspend _ _ _ | .suspendCoroutine | .exchange _ | .write _ | .kernel _ | .runOne | .cqe _
  | .store | .swap | .resumeTask | .cqAdvance => True

instance (σ : IoSystem V E) (l : IoLabel V E) : Decidable (IoDisciplined σ l) := by
  cases l <;> unfold IoDisciplined <;> infer_instance

/-- The read of the eventfd is one entry of the ring. -/
structure ReadInv (ring : Ring) (post : PostState) : Prop where
  wake : WakeInv post
  entries : evEntries ring = readEntries post.read
  rearm : ring.needRearm = some true ↔ post.phase ≠ .running

/-- Tasks, ring and posts fit. -/
structure IoInv (σ : IoSystem V E) : Prop where
  tasks : TaskInv σ.tasks
  started : StartedInv σ.tasks
  ring : RingInv σ.ring
  read : ReadInv σ.ring σ.post
  /-- `block_on` has been called by what is not a coroutine. -/
  bottom : ∀ above root rest, σ.tasks.stack = above ++ .blockOn root :: rest → rest = []
  done : ∀ h, σ.post.done h = false
  continuations : σ.continuations.Nodup
  turns : σ.post.turns.Nodup
  named : none ∉ σ.post.turns
  waiting : InOnePlace (· ∈ σ.tasks.pending) (WaitsAt σ)

section Invariant

variable {σ τ : IoSystem V E} {l : IoLabel V E}

/-- A thread on which nothing has run. -/
private theorem ioInv_initial (evOp : OperationPtr) (entries : Nat) :
    IoInv (IoSystem.initial evOp entries : IoSystem V E) where
  tasks := taskInv_initial
  started f hf := by cases hf
  ring := ringInv_initial evOp entries
  read := by
    refine ⟨wakeInv_initial, ?_, by simp [IoSystem.initial, Ring.initial, PostState.initial]⟩
    simp [evEntries, outstanding, cqAt, IoSystem.initial, Ring.initial, PostState.initial,
      readEntries, untag_of_free (addr_free evOp)]
  bottom above root rest h := by simp [IoSystem.initial, TaskSystem.initial] at h
  done h := rfl
  continuations := List.nodup_nil
  turns := List.nodup_nil
  named := by simp [IoSystem.initial, PostState.initial, PostState.turns]
  waiting := by
    constructor
    · intro f hf
      cases hf
    · intro f place hf
      cases place <;> cases hf

private theorem IoInv.done_of_waiting (hinv : IoInv σ) (hh : WaitsAt σ h place) :
    h ∈ σ.tasks.pending ∧ σ.tasks.done h = false := by
  have hmem : h ∈ σ.tasks.pending := hinv.waiting.known h place hh
  obtain ⟨frame, hframe, hphase⟩ := phaseAt_eq_some.mp ((hinv.tasks.pending h).mp hmem)
  exact ⟨hmem, by simp [TaskSystem.done, hframe, hphase]⟩

/-- Who is resumed is suspended. -/
private theorem IoInv.step_resumeHandle (hinv : IoInv σ) (hroot : σ.tasks.blockedOn = some root)
    (hh : WaitsAt σ h place) :
    σ.tasks.step (.complete h) = some (σ.tasks.resumeHandle h) := by
  obtain ⟨rest, hstack⟩ := blockedOn_eq_some.mp hroot
  obtain ⟨hmem, -⟩ := hinv.done_of_waiting hh
  simp [TaskSystem.step, TaskSystem.act, hinv.tasks.fault, hstack, hmem, TaskSystem.resumeHandle]

private theorem IoInv.taskStep_resumeHandle (hinv : IoInv σ) (hroot : σ.tasks.blockedOn = some root)
    (hh : WaitsAt σ h place) :
    TaskStep σ.tasks (.complete h) (σ.tasks.resumeHandle h) :=
  taskStep_of_step (l := .complete h) hinv.tasks trivial (hinv.step_resumeHandle hroot hh)

private theorem waitsAt_of_turn (hphase : σ.post.phase = .resuming (some h :: turns)) :
    WaitsAt σ h .posted := by
  simp [WaitsAt, PostState.turns, hphase]

/-- Every turn resumes a coroutine. -/
private theorem IoInv.not_skip (hinv : IoInv σ) {turn : Option Handle}
    (hphase : σ.post.phase = .resuming (turn :: turns))
    (hturn : ∀ h, turn = some h → σ.tasks.done h = true) :
    False := by
  cases turn with
  | none => exact hinv.named (by simp [PostState.turns, hphase])
  | some h =>
    have hdone := (hinv.done_of_waiting (waitsAt_of_turn hphase)).2
    simp [hturn h rfl] at hdone

/-- A step is at most one step of the tasks. -/
theorem tasks_of_ioStep (hinv : IoInv σ) (hd : IoDisciplined σ l) (hstep : IoStep σ l τ) :
    τ.tasks = σ.tasks ∨ ∃ l', Disciplined σ.tasks l' ∧ σ.tasks.step l' = some τ.tasks := by
  cases hstep with
  | code hl htasks => exact .inr ⟨_, hd, htasks⟩
  | awaitSuspend hstack hring htasks | suspendCoroutine hstack htasks =>
    exact .inr ⟨.suspend, trivial, htasks⟩
  | @resumeOp c ring root h hroot hc hring hh hawaiter =>
    have hplace : WaitsAt σ h (.operation (untag c.userData)) := hh
    exact .inr ⟨.complete h, trivial, hinv.step_resumeHandle hroot hplace⟩
  | @resumeTask root h turns post hroot hphase hdone hpost =>
    exact .inr ⟨.complete h, trivial, hinv.step_resumeHandle hroot (waitsAt_of_turn hphase)⟩
  | _ => exact .inl rfl

/-- `block_on` is called with nothing below it, and what else a step puts on the stack is no
    `block_on`. -/
private theorem bottom_of_ioStep (hinv : IoInv σ) (hd : IoDisciplined σ l) (hstep : IoStep σ l τ) :
    ∀ above root rest, τ.tasks.stack = above ++ .blockOn root :: rest → rest = [] := by
  have hkeep : ∀ l', TaskStep σ.tasks l' τ.tasks → (∀ o, l' ≠ .blockOn o) →
      ∀ above root rest, τ.tasks.stack = above ++ .blockOn root :: rest → rest = [] := by
    intro l' htask hl'
    obtain ⟨above', rest', hstack, hrest', habove'⟩ := stack_of_taskStep htask hl'
    exact bottom_of_suffix hinv.bottom hstack hrest' habove'
  cases hstep with
  | @code l tasks hl htasks =>
    have htask : TaskStep σ.tasks l tasks := taskStep_of_step hinv.tasks hd htasks
    by_cases hblockOn : ∃ o, l = .blockOn o
    · obtain ⟨o, rfl⟩ := hblockOn
      -- `block_on` is called where no coroutine runs
      have hempty : σ.tasks.stack = [] := by simpa [IoSystem.ofCode] using hl
      cases htask with
      | @blockOn _ f ho =>
        intro above root rest h
        exact bottom_of_two above root rest (by simpa [hempty] using h)
    · exact hkeep l htask fun o ho => hblockOn ⟨o, ho⟩
  | awaitSuspend hstack hring htasks | suspendCoroutine hstack htasks =>
    exact hkeep _ (taskStep_of_step (l := .suspend) hinv.tasks trivial htasks) (by simp)
  | @resumeOp c ring root h hroot hc hring hh hawaiter =>
    have hplace : WaitsAt σ h (.operation (untag c.userData)) := hh
    exact hkeep _ (hinv.taskStep_resumeHandle hroot hplace) (by simp)
  | resumeTask hroot hphase hdone hpost =>
    exact hkeep _ (hinv.taskStep_resumeHandle hroot (waitsAt_of_turn hphase)) (by simp)
  | _ => exact hinv.bottom

private theorem complete_needRearm {ring ring' : Ring} {c : Cqe}
    (hstep : ring.step (.complete c) = some ring') :
    ring'.needRearm = ring.needRearm ∧ ring'.operations = ring.operations := by
  obtain ⟨-, ⟨⟩⟩ := Option.ite_none_right_eq_some.mp hstep
  exact ⟨rfl, rfl⟩

/-- The read of `Ring::post` and the entry of the ring stay in step. -/
private theorem readInv_of_ioStep (hinv : IoInv σ) (hstep : IoStep σ l τ) :
    ReadInv τ.ring τ.post := by
  suffices hread : evEntries τ.ring = readEntries τ.post.read ∧
      (τ.ring.needRearm = some true ↔ τ.post.phase ≠ .running) by
    obtain ⟨ls, hls⟩ := post_of_ioStep hstep
    exact ⟨stateInvariant_of_run wakeInv_step hinv.read.wake hls, hread.1, hread.2⟩
  obtain ⟨hwake, hentries, hrearm⟩ := hinv.read
  cases hstep with
  | code | suspendCoroutine => exact ⟨hentries, hrearm⟩
  | awaitSuspend hstack hring htasks =>
    rw [evEntries_awaitSuspend hring, (awaitSuspend_sameLoop hring).needRearm]
    exact ⟨hentries, hrearm⟩
  | resumeCb hpost =>
    obtain ⟨hphase, hread⟩ := push_rest hpost
    rw [hphase, hread]
    exact ⟨hentries, hrearm⟩
  | thread hl' hpost =>
    obtain ⟨hphase, hread, -⟩ := thread_spec hl' hpost
    rw [hphase, hread]
    exact ⟨hentries, hrearm⟩
  | kernel hc hring =>
    have hcomplete := evEntries_complete hring
    rw [if_neg hc] at hcomplete
    rw [hcomplete, (complete_needRearm hring).1]
    exact ⟨hentries, hrearm⟩
  | read hc hring hpost =>
    have hcomplete := evEntries_complete hring
    rw [if_pos hc] at hcomplete
    obtain ⟨hread, hread', hphase, -⟩ := readDone_spec hpost
    rw [hcomplete, hentries, (complete_needRearm hring).1, hread', hphase]
    refine ⟨?_, hrearm⟩
    rcases hread with hread | hread <;> simp [hread, readEntries]
  | runOne hring =>
    obtain ⟨hsame, hnone, hfalse⟩ := evEntries_runOne hring
    rw [hsame, hfalse]
    refine ⟨hentries, ?_⟩
    simpa [hnone] using hrearm
  | cqe hc hring hawaiter | resumeOp hroot hc hring hh hawaiter =>
    have hcqe := evEntries_cqe hring
    rw [if_neg hc] at hcqe
    rw [← hcqe.1, hcqe.2]
    exact ⟨hentries, hrearm⟩
  | @evCqe c ring post hc hring hpost =>
    have hcqe := evEntries_cqe hring
    rw [if_pos hc] at hcqe
    obtain ⟨⟨hread, -⟩, hread', hphase, -⟩ := evCqe_spec hpost
    rw [hcqe.1, hread] at hentries
    rw [hread', hcqe.2, hphase]
    refine ⟨?_, by simp⟩
    have hfst := congrArg Prod.fst hentries
    have hsnd := congrArg Prod.snd hentries
    simp only [readEntries, Prod.fst_add, Prod.snd_add] at hfst hsnd
    exact Prod.ext (by simp only [readEntries]; omega) (by simp only [readEntries]; omega)
  | external hl' hpost =>
    obtain ⟨hphase, hphase', hread, -⟩ := external_spec hl' hpost
    rw [hread]
    exact ⟨hentries, iff_of_true (hrearm.mpr hphase) hphase'⟩
  | resumeTask hroot hphase hdone hpost =>
    obtain ⟨hphase', hread, -⟩ := turn_spec hphase hinv.done hpost
    rw [hread, hphase']
    exact ⟨hentries, iff_of_true (hrearm.mpr (by simp [hphase])) (by simp)⟩
  | skip hphase hturn hpost => exact (hinv.not_skip hphase hturn).elim
  | advance hne hring =>
    obtain ⟨hadvance, -, hnone⟩ := evEntries_cqAdvance hring
    rw [if_neg hne] at hadvance
    rw [hadvance, hnone]
    exact ⟨hentries, iff_of_false (by simp) fun hphase => hne (hrearm.mpr hphase)⟩
  | arm heq hring hpost =>
    obtain ⟨hadvance, -, hnone⟩ := evEntries_cqAdvance hring
    rw [if_pos heq] at hadvance
    obtain ⟨hphase, hread', hphase', -⟩ := arm_spec hpost
    -- the read is not armed while its completion is handled
    have hidle : σ.post.read = .idle := by simpa [hphase] using hwake.read
    rw [hadvance, hentries, hnone, hread', hphase', hidle]
    exact ⟨rfl, by simp⟩

/-- A coroutine that runs does not wait. -/
private theorem IoInv.not_pending_of_top (hinv : IoInv σ) {c : FrameId} {rest : List StackEntry}
    (hstack : σ.tasks.stack = .coroutine c :: rest) : c ∉ σ.tasks.pending := by
  rw [hinv.tasks.pending, hinv.tasks.running_of_top hstack]
  simp

/-- Handles are posted once, and none is null. -/
private theorem turns_of_ioStep (hinv : IoInv σ) (hd : IoDisciplined σ l) (hstep : IoStep σ l τ) :
    (∀ h, τ.post.done h = false) ∧ τ.continuations.Nodup ∧ τ.post.turns.Nodup ∧
      none ∉ τ.post.turns := by
  have hsame : ∀ post : PostState, post.turns = σ.post.turns → post.done = σ.post.done →
      (∀ h, post.done h = false) ∧ σ.continuations.Nodup ∧ post.turns.Nodup ∧
      none ∉ post.turns := by
    intro post hturns hdone
    rw [hturns, hdone]
    exact ⟨hinv.done, hinv.continuations, hinv.turns, hinv.named⟩
  cases hstep with
  | code | awaitSuspend | kernel | runOne | cqe | resumeOp | advance => exact hsame σ.post rfl rfl
  | @suspendCoroutine c rest tasks hstack htasks =>
    refine ⟨hinv.done, ?_, hinv.turns, hinv.named⟩
    have hnot : c ∉ σ.continuations := fun hmem =>
      hinv.not_pending_of_top hstack (hinv.waiting.known c .continuation hmem)
    exact List.nodup_append.mpr ⟨hinv.continuations, List.nodup_singleton c, by
      rintro x hx y hy rfl
      exact hnot (List.mem_singleton.mp hy ▸ hx)⟩
  | @resumeCb t h post hpost =>
    obtain ⟨hturns, hdone⟩ := push_spec hpost
    -- a continuation is not posted before it is called
    have hnot : some h ∉ σ.post.turns := by
      intro hmem
      have hplace := hinv.waiting.eq (p := .continuation) (q := .posted) hd hmem
      cases hplace
    refine ⟨by rw [hdone]; exact hinv.done, hinv.continuations.erase h, ?_, ?_⟩
    · rw [hturns]
      exact List.nodup_append.mpr ⟨hinv.turns, List.nodup_singleton _, by
        rintro x hx y hy rfl
        exact hnot (List.mem_singleton.mp hy ▸ hx)⟩
    · simpa [hturns] using hinv.named
  | thread hl' hpost =>
    obtain ⟨-, -, hturns, hdone⟩ := thread_spec hl' hpost
    exact hsame _ hturns hdone
  | read hc hring hpost =>
    obtain ⟨-, -, -, hturns, hdone⟩ := readDone_spec hpost
    exact hsame _ hturns hdone
  | evCqe hc hring hpost =>
    obtain ⟨-, -, -, hturns, hdone⟩ := evCqe_spec hpost
    exact hsame _ hturns hdone
  | external hl' hpost =>
    obtain ⟨-, -, -, hturns, hdone⟩ := external_spec hl' hpost
    exact hsame _ hturns hdone
  | resumeTask hroot hphase hdone hpost =>
    obtain ⟨-, -, hturns, hdone'⟩ := turn_spec hphase hinv.done hpost
    have hnodup := hinv.turns
    have hnamed := hinv.named
    rw [hturns] at hnodup hnamed
    exact ⟨hdone', hinv.continuations, (List.nodup_cons.mp hnodup).2,
      fun hmem => hnamed (List.mem_cons_of_mem _ hmem)⟩
  | skip hphase hturn hpost => exact (hinv.not_skip hphase hturn).elim
  | arm hrearm hring hpost =>
    obtain ⟨-, -, -, hturns, hdone⟩ := arm_spec hpost
    exact hsame _ hturns hdone

/-- Each coroutine that is pending waits in one place, after each step. -/
private theorem waiting_of_ioStep (hinv : IoInv σ) (hd : IoDisciplined σ l) (hstep : IoStep σ l τ) :
    InOnePlace (· ∈ τ.tasks.pending) (WaitsAt τ) := by
  -- most steps move no coroutine from one place to another
  have hkeep : ∀ (ring : Ring) (post : PostState),
    (∀ addr, awaiterAt ring addr = awaiterAt σ.ring addr) →
      post.turns = σ.post.turns →
      InOnePlace (· ∈ σ.tasks.pending) (WaitsAt { σ with ring, post }) := by
    intro ring post hawaiter hturns
    refine hinv.waiting.keep fun f place => ?_
    cases place with
    | operation addr => simp only [WaitsAt, hawaiter]
    | continuation => exact Iff.rfl
    | posted => simp only [WaitsAt, hturns]
  cases hstep with
  | @code l tasks hl htasks =>
    have htask : TaskStep σ.tasks l tasks := taskStep_of_step hinv.tasks hd htasks
    have hpending : tasks.pending = σ.tasks.pending := by
      apply pending_of_taskStep htask
      · rintro rfl
        simp [IoSystem.ofCode] at hl
      · rintro f rfl
        simp [IoSystem.ofCode] at hl
    simp only [hpending]
    exact hinv.waiting.keep fun f place => by cases place <;> exact Iff.rfl
  -- the operation had no awaiter, and has `c`
  | @awaitSuspend ptr timeoutMs bufferSelect c rest ring tasks hstack hring htasks =>
    obtain ⟨hfree, hawaiter⟩ := awaiterAt_awaitSuspend hring
    have hpending :=
      pending_of_suspend (taskStep_of_step (l := .suspend) hinv.tasks trivial htasks) hstack
    refine hinv.waiting.insert (t := c) (p := .operation ptr.addr) (hinv.not_pending_of_top hstack)
      (fun f => by simp [hpending]) fun f place => ?_
    cases place with
    | operation addr =>
      simp only [WaitsAt, hawaiter, WaitPlace.operation.injEq]
      by_cases haddr : addr = ptr.addr
      · simp [haddr, hfree, eq_comm]
      · simp [haddr]
    | continuation => simp [WaitsAt]
    | posted => simp [WaitsAt]
  | @suspendCoroutine c rest tasks hstack htasks =>
    have hpending :=
      pending_of_suspend (taskStep_of_step (l := .suspend) hinv.tasks trivial htasks) hstack
    refine hinv.waiting.insert (t := c) (p := .continuation) (hinv.not_pending_of_top hstack)
      (fun f => by simp [hpending]) fun f place => ?_
    cases place <;> simp [WaitsAt]
  -- from the continuations to the handles that are posted
  | @resumeCb t h post hpost =>
    have hcontinuation : h ∈ σ.continuations := hd
    refine hinv.waiting.move (· = h) .continuation .posted fun f place => ?_
    cases place with
    | operation addr => simp [WaitsAt]
    | continuation => simp [WaitsAt, hinv.continuations.mem_erase_iff, and_comm]
    | posted =>
      simp only [WaitsAt, (push_spec hpost).1, List.mem_append, List.mem_singleton,
        Option.some.injEq]
      by_cases hf : f = h
      · simp [hf, hcontinuation]
      · simp [hf]
  | thread hl' hpost => exact hkeep σ.ring _ (fun _ => rfl) (thread_spec hl' hpost).2.2.1
  | kernel hc hring => exact hkeep _ σ.post (awaiterAt_congr (complete_needRearm hring).2) rfl
  | read hc hring hpost =>
    exact hkeep _ _ (awaiterAt_congr (complete_needRearm hring).2) (readDone_spec hpost).2.2.2.1
  | runOne hring =>
    exact hkeep _ σ.post (awaiterAt_congr (quiet_step (.inl rfl) hring).1.operations) rfl
  | cqe hc hring hawaiter => exact hkeep _ σ.post hawaiter rfl
  | @resumeOp c ring root h hroot hc hring hh hawaiter =>
    have hplace : WaitsAt σ h (.operation (untag c.userData)) := hh
    have hpending := pending_of_complete (hinv.taskStep_resumeHandle hroot hplace)
    refine hinv.waiting.remove hplace (fun f => ?_) fun f place => ?_
    · rw [hpending, hinv.tasks.pendingNodup.mem_erase_iff, and_comm]
    · cases place with
      | operation addr =>
        simp only [WaitsAt, hawaiter, WaitPlace.operation.injEq]
        by_cases haddr : addr = untag c.userData
        · simp [haddr, hh, eq_comm]
        · simp [haddr]
      | continuation => simp [WaitsAt]
      | posted => simp [WaitsAt]
  | evCqe hc hring hpost =>
    exact hkeep _ _ (awaiterAt_congr (operations_of_evCqe hc hring)) (evCqe_spec hpost).2.2.2.1
  | external hl' hpost => exact hkeep σ.ring _ (fun _ => rfl) (external_spec hl' hpost).2.2.2.1
  | @resumeTask root h turns post hroot hphase hdone hpost =>
    have hplace : WaitsAt σ h .posted := waitsAt_of_turn hphase
    have hpending := pending_of_complete (hinv.taskStep_resumeHandle hroot hplace)
    refine hinv.waiting.remove hplace (fun f => ?_) fun f place => ?_
    · rw [hpending, hinv.tasks.pendingNodup.mem_erase_iff, and_comm]
    · cases place with
      | operation addr => simp [WaitsAt]
      | continuation => simp [WaitsAt]
      | posted =>
        obtain ⟨-, -, hturns, -⟩ := turn_spec hphase hinv.done hpost
        -- a handle is posted once, so it is not also among the later turns
        have hnodup := hinv.turns
        rw [hturns, List.nodup_cons] at hnodup
        simp only [WaitsAt, hturns, List.mem_cons, Option.some.injEq, and_true]
        by_cases hf : f = h
        · simp [hf, hnodup.1]
        · simp [hf]
  | skip hphase hturn hpost => exact (hinv.not_skip hphase hturn).elim
  | advance hrearm hring =>
    exact hkeep _ σ.post (awaiterAt_congr (quiet_step (.inr rfl) hring).1.operations) rfl
  | arm hrearm hring hpost =>
    exact hkeep _ _ (awaiterAt_congr (quiet_step (.inr rfl) hring).1.operations)
      (arm_spec hpost).2.2.2.1

/-- The invariant of tasks, ring and posts together. -/
theorem ioInv_step (σ : IoSystem V E) (l : IoLabel V E) (τ : IoSystem V E) (hinv : IoInv σ)
    (hd : IoDisciplined σ l) (hstep : σ.step l = some τ) : IoInv τ := by
  have hio := ioStep_of_step hstep
  have htasks : TaskInv τ.tasks ∧ StartedInv τ.tasks := by
    rcases tasks_of_ioStep hinv hd hio with hsame | ⟨l', hd', htasks⟩
    · rw [hsame]
      exact ⟨hinv.tasks, hinv.started⟩
    · have htask := taskStep_of_step hinv.tasks hd' htasks
      exact ⟨taskInv_of_taskStep hinv.tasks htask, startedInv_of_taskStep hinv.started htask⟩
  have hring : RingInv τ.ring := by
    obtain ⟨ls, hls⟩ := ring_of_ioStep hio
    exact stateInvariant_of_run ringInv_step hinv.ring hls
  obtain ⟨hdone, hcontinuations, hturns, hnamed⟩ := turns_of_ioStep hinv hd hio
  exact ⟨htasks.1, htasks.2, hring, readInv_of_ioStep hinv hio, bottom_of_ioStep hinv hd hio, hdone,
    hcontinuations, hturns, hnamed, waiting_of_ioStep hinv hd hio⟩

theorem ioInv_of_run {evOp : OperationPtr} {entries : Nat} {ls : List (IoLabel V E)}
    (hd : Along IoSystem.step (fun _ => IoDisciplined) [] (.initial evOp entries) ls)
    (hrun : run IoSystem.step (.initial evOp entries) ls = some σ) : IoInv σ :=
  stateInvariant_along ioInv_step (ioInv_initial evOp entries) hd hrun

end Invariant

/-- Whatever coroutines do, in whatever order the kernel completes entries and threads call
    continuations, each of them once: the tasks do what the model of tasks alone allows, without a
    fault, the ring what that of the driver allows and the posts what that of posting does; a
    suspended coroutine either has one operation in the ring, or its continuation has not been
    called, or its handle is posted, and nobody else is waited for; and the read of the eventfd is
    one entry of the ring. -/
theorem waiting_resumed (evOp : OperationPtr) (entries : Nat) (ls : List (IoLabel V E))
    (σ : IoSystem V E)
    (hd : Along IoSystem.step (fun _ => IoDisciplined) [] (.initial evOp entries) ls)
    (hrun : run IoSystem.step (.initial evOp entries) ls = some σ) :
    σ.tasks.fault = none ∧
      (∃ ts, Along TaskSystem.step (fun _ => Disciplined) [] TaskSystem.initial ts ∧
        run TaskSystem.step TaskSystem.initial ts = some σ.tasks) ∧
      (∃ rs, run Ring.step (.initial evOp entries) rs = some σ.ring) ∧
      (∃ ps, run PostState.step .initial ps = some σ.post) ∧
      InOnePlace (· ∈ σ.tasks.pending) (WaitsAt σ) ∧
      evEntries σ.ring = readEntries σ.post.read := by
  have hinv := ioInv_of_run hd hrun
  refine ⟨hinv.tasks.fault, ?_, ?_, ?_, hinv.waiting, hinv.read.entries⟩
  · refine exists_run_of_steps (f := IoSystem.tasks) ioInv_step (fun k σ l τ hinv hd hstep => ?_)
      (ioInv_initial evOp entries) hd hrun
    rcases tasks_of_ioStep hinv hd (ioStep_of_step hstep) with hsame | ⟨l', hd', htasks⟩
    · exact ⟨[], trivial, by rw [hsame]; rfl⟩
    · exact ⟨[l'], .cons htasks hd' trivial, run_singleton htasks⟩
  -- of these two a step is a run whatever has been before
  · exact exists_run (f := IoSystem.ring)
      (fun σ l τ hstep => ring_of_ioStep (ioStep_of_step hstep)) hrun
  · exact exists_run (f := IoSystem.post)
      (fun σ l τ hstep => post_of_ioStep (ioStep_of_step hstep)) hrun

def ringPtr : OperationPtr := ⟨16#64, rfl, by decide⟩

def timerPtr : OperationPtr := ⟨8#64, rfl, by decide⟩

/-- The root awaits one of two spawned coroutines.  That one waits for an operation with a timeout,
    and the other for a thread, which has posted its handle; `run_one` has just taken it. -/
def twoWaits : List (IoLabel Nat Nat) :=
  [.code (.call 0), .code (.blockOn 0), .code (.call 1), .code (.spawn 1),
    .awaitSuspend timerPtr 5 false,
    .code (.spawnReturn 2), .code (.call 3), .code (.spawn 3), .suspendCoroutine,
    .code (.spawnReturn 4),
    .code (.await 2), .resumeCb 7 2, .exchange 7, .write 7, .runOne, .kernel ⟨16#64, 8, 0⟩,
    .cqe ⟨16#64, 8, 0⟩, .store, .swap]

theorem waiting_resumed_twoWaits :
    ∃ σ, run IoSystem.step (.initial ringPtr 4) twoWaits = some σ ∧ σ.tasks.pending = [1, 2] ∧
      WaitsAt σ 1 (.operation 8#64) ∧ WaitsAt σ 2 .posted ∧ σ.tasks.fault = none ∧
      InOnePlace (· ∈ σ.tasks.pending) (WaitsAt σ) := by
  have hd : Along IoSystem.step (fun _ => IoDisciplined) [] (.initial ringPtr 4) twoWaits := by
    decide
  have hresult := waiting_resumed ringPtr 4 twoWaits _ hd rfl
  exact ⟨_, rfl, rfl, rfl, List.mem_singleton_self _, rfl, hresult.2.2.2.2.1⟩

end Ppnt.Spec
