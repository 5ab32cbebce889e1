import Ppnt.ForStd.Places
import Ppnt.Native.Task

/-!
# Steps of the task system

The handle of a coroutine is in exactly one place: in a `Task` or a `JoinHandle`, in the awaiter of
the coroutine that waits for it, in a local of `spawn` or `block_on`, or it is lost.  `TaskInv` says
this, and which coroutine is where.  Where it holds, and the code that uses tasks is `Disciplined`,
a step is one of those of `TaskStep`, none of which faults.

`Disciplined` asks for two things: an empty handle is not awaited, and a `JoinHandle` is destroyed
or assigned to only when its coroutine has ended.
-/

namespace Ppnt.Spec

open Ppnt.Native

variable {V E : Type}

/-! ## Frames -/

def phaseAt (frames : FrameId → Option (TaskFrame V E)) (f : FrameId) : Option FramePhase :=
  (frames f).map (·.phase)

def parentAt (frames : FrameId → Option (TaskFrame V E)) (f : FrameId) : Option FrameId :=
  (frames f).bind (·.promise.parent)

/-- The handle that a `Task` or a `JoinHandle` has. -/
def handleAt (owners : OwnerId → Option TaskOwner) (o : OwnerId) : Option FrameId :=
  (owners o).bind (·.handle)

section Frames

variable {σ : TaskSystem V E} {f g : FrameId}

private theorem phaseAt_eq_none : phaseAt σ.frames f = none ↔ σ.frames f = none := by
  simp [phaseAt]

theorem phaseAt_eq_some {phase : FramePhase} :
    phaseAt σ.frames f = some phase ↔ ∃ frame, σ.frames f = some frame ∧ frame.phase = phase := by
  simp [phaseAt]

@[simp] theorem frames_setFrame (frame : Option (TaskFrame V E)) :
    (σ.setFrame g frame).frames f = if f = g then frame else σ.frames f := by
  simp [TaskSystem.setFrame, Function.update_apply]

@[simp] theorem frames_setPhase (phase : FramePhase) :
    (σ.setPhase g phase).frames f =
      if f = g then (σ.frames g).map fun frame => { frame with phase } else σ.frames f :=
  frames_setFrame _

@[simp] theorem phaseAt_setFrame (frame : Option (TaskFrame V E)) :
    phaseAt (σ.setFrame g frame).frames f =
      if f = g then frame.map (·.phase) else phaseAt σ.frames f := by
  by_cases h : f = g <;> simp [TaskSystem.setFrame, phaseAt, h]

@[simp] theorem phaseAt_setPhase (phase : FramePhase) :
    phaseAt (σ.setPhase g phase).frames f =
      if f = g then (phaseAt σ.frames g).map fun _ => phase else phaseAt σ.frames f := by
  by_cases h : f = g <;>
    simp [TaskSystem.setPhase, TaskSystem.modifyFrame, TaskSystem.setFrame, phaseAt, h]
  rfl

@[simp] theorem phaseAt_setParent (p : FrameId) :
    phaseAt (σ.setParent g p).frames f = phaseAt σ.frames f := by
  by_cases h : f = g <;>
    simp [TaskSystem.setParent, TaskSystem.modifyFrame, TaskSystem.setFrame, phaseAt, h]
  rfl

@[simp] theorem parentAt_setFrame (frame : Option (TaskFrame V E)) :
    parentAt (σ.setFrame g frame).frames f =
      if f = g then frame.bind (·.promise.parent) else parentAt σ.frames f := by
  by_cases h : f = g <;> simp [TaskSystem.setFrame, parentAt, h]

@[simp] theorem parentAt_setPhase (phase : FramePhase) :
    parentAt (σ.setPhase g phase).frames f = parentAt σ.frames f := by
  by_cases h : f = g <;>
    simp [TaskSystem.setPhase, TaskSystem.modifyFrame, TaskSystem.setFrame, parentAt, h]
  cases σ.frames g <;> rfl

@[simp] theorem parentAt_setParent (p : FrameId) :
    parentAt (σ.setParent g p).frames f =
      if f = g then (phaseAt σ.frames g).map fun _ => p else parentAt σ.frames f := by
  by_cases h : f = g <;>
    simp [TaskSystem.setParent, TaskSystem.modifyFrame, TaskSystem.setFrame, parentAt, phaseAt, h]
  cases σ.frames g <;> rfl

@[simp] theorem setFrame_rest (frame : Option (TaskFrame V E)) :
    (σ.setFrame f frame).nextFrame = σ.nextFrame ∧ (σ.setFrame f frame).owners = σ.owners ∧
      (σ.setFrame f frame).stack = σ.stack ∧ (σ.setFrame f frame).pending = σ.pending ∧
      (σ.setFrame f frame).fault = σ.fault ∧ (σ.setFrame f frame).leaked = σ.leaked :=
  ⟨rfl, rfl, rfl, rfl, rfl, rfl⟩

@[simp] theorem setPhase_rest (phase : FramePhase) :
    (σ.setPhase f phase).nextFrame = σ.nextFrame ∧ (σ.setPhase f phase).owners = σ.owners ∧
      (σ.setPhase f phase).stack = σ.stack ∧ (σ.setPhase f phase).pending = σ.pending ∧
      (σ.setPhase f phase).fault = σ.fault ∧ (σ.setPhase f phase).leaked = σ.leaked :=
  ⟨rfl, rfl, rfl, rfl, rfl, rfl⟩

@[simp] theorem setParent_rest (p : FrameId) :
    (σ.setParent f p).nextFrame = σ.nextFrame ∧ (σ.setParent f p).owners = σ.owners ∧
      (σ.setParent f p).stack = σ.stack ∧ (σ.setParent f p).pending = σ.pending ∧
      (σ.setParent f p).fault = σ.fault ∧ (σ.setParent f p).leaked = σ.leaked :=
  ⟨rfl, rfl, rfl, rfl, rfl, rfl⟩

@[simp] theorem setOwner_rest (o : OwnerId) (owner : Option TaskOwner) :
    (σ.setOwner o owner).frames = σ.frames ∧ (σ.setOwner o owner).nextFrame = σ.nextFrame ∧
      (σ.setOwner o owner).stack = σ.stack ∧ (σ.setOwner o owner).pending = σ.pending ∧
      (σ.setOwner o owner).fault = σ.fault ∧ (σ.setOwner o owner).leaked = σ.leaked :=
  ⟨rfl, rfl, rfl, rfl, rfl, rfl⟩

@[simp] theorem owners_setOwner (o o' : OwnerId) (owner : Option TaskOwner) :
    (σ.setOwner o owner).owners o' = if o' = o then owner else σ.owners o' := by
  simp [TaskSystem.setOwner, Function.update_apply]

@[simp] theorem handleAt_setOwner (o o' : OwnerId) (owner : Option TaskOwner) :
    handleAt (σ.setOwner o owner).owners o' =
      if o' = o then owner.bind (·.handle) else handleAt σ.owners o' := by
  by_cases h : o' = o <;> simp [handleAt, h]

@[simp] theorem takeFrom_rest (o : OwnerId) (owner : TaskOwner) :
    (σ.takeFrom o owner).frames = σ.frames ∧ (σ.takeFrom o owner).nextFrame = σ.nextFrame ∧
      (σ.takeFrom o owner).stack = σ.stack ∧ (σ.takeFrom o owner).pending = σ.pending ∧
      (σ.takeFrom o owner).fault = σ.fault ∧ (σ.takeFrom o owner).leaked = σ.leaked :=
  ⟨rfl, rfl, rfl, rfl, rfl, rfl⟩

@[simp] theorem owners_takeFrom (o o' : OwnerId) (owner : TaskOwner) :
    (σ.takeFrom o owner).owners o' =
      if o' = o then some { owner with handle := none } else σ.owners o' := by
  simp [TaskSystem.takeFrom]

@[simp] theorem handleAt_takeFrom (o o' : OwnerId) (owner : TaskOwner) :
    handleAt (σ.takeFrom o owner).owners o' = if o' = o then none else handleAt σ.owners o' := by
  by_cases h : o' = o <;> simp [handleAt, h]

theorem handleAt_of_owner {o : OwnerId} {owner : TaskOwner} (ho : σ.owners o = some owner) :
    handleAt σ.owners o = owner.handle := by
  simp [handleAt, ho]

end Frames

/-! ## The invariant -/

/-- The handles in locals of `spawn` and `block_on`. -/
@[simp] def handlesOn : List StackEntry → List FrameId
  | [] => []
  | .coroutine _ :: rest => handlesOn rest
  | .spawn handle :: rest => handle.toList ++ handlesOn rest
  | .blockOn f :: rest => f :: handlesOn rest

/-- The coroutines that run. -/
@[simp] def coroutinesOn : List StackEntry → List FrameId
  | [] => []
  | .coroutine f :: rest => f :: coroutinesOn rest
  | .spawn _ :: rest => coroutinesOn rest
  | .blockOn _ :: rest => coroutinesOn rest

inductive FramePlace where
  | gone
  | owner (o : OwnerId)
  | awaiter (p : FrameId)
  | stack
  | leaked
deriving DecidableEq

/-- Where the handle of a coroutine is.  A coroutine that does not exist, or no longer, is gone. -/
def OwnedAt (σ : TaskSystem V E) (f : FrameId) : FramePlace → Prop
  | .gone => phaseAt σ.frames f = none
  | .owner o => handleAt σ.owners o = some f
  | .awaiter p => phaseAt σ.frames p = some (.awaiting f)
  | .stack => f ∈ handlesOn σ.stack
  | .leaked => f ∈ σ.leaked

/-- Where handles and coroutines are. -/
structure TaskInv (σ : TaskSystem V E) : Prop where
  fault : σ.fault = none
  fresh : ∀ f, σ.nextFrame ≤ f → phaseAt σ.frames f = none
  place : InOnePlace (fun _ => True) (OwnedAt σ)
  handles : (handlesOn σ.stack).Nodup
  coroutines : (coroutinesOn σ.stack).Nodup
  running : ∀ f, f ∈ coroutinesOn σ.stack ↔ phaseAt σ.frames f = some .running
  pendingNodup : σ.pending.Nodup
  pending : ∀ f, f ∈ σ.pending ↔ phaseAt σ.frames f = some .suspended
  /-- A task has not been started. -/
  task : ∀ o f, σ.owners o = some ⟨.task, some f⟩ → phaseAt σ.frames f = some .initialSuspend
  parent : ∀ f p, parentAt σ.frames f = some p ↔ phaseAt σ.frames p = some (.awaiting f)
  /-- Who awaits a coroutine has been resumed when it ended. -/
  final : ∀ f, phaseAt σ.frames f = some .finalSuspend → parentAt σ.frames f = none

/-- What the code that uses tasks has to see to. -/
def Disciplined (σ : TaskSystem V E) : TaskLabel V E → Prop
  | .await o => ∀ owner ∈ σ.owners o, owner.handle ≠ none
  | .destroy o => ∀ owner ∈ σ.owners o, owner.kind = .joinHandle →
      ∀ f ∈ owner.handle, phaseAt σ.frames f = some .finalSuspend
  | .moveAssign o other => o ≠ other → ∀ owner ∈ σ.owners o, owner.kind = .joinHandle →
      ∀ f ∈ owner.handle, phaseAt σ.frames f = some .finalSuspend
  | .call _ | .emptyJoinHandle _ | .moveConstruct _ _ | .takeHandle _ | .spawn _ | .spawnReturn _
  | .blockOn _ | .blockOnReturn | .suspend | .complete _ | .finish _ => True

instance (σ : TaskSystem V E) (l : TaskLabel V E) : Decidable (Disciplined σ l) := by
  cases l <;> unfold Disciplined <;> infer_instance

theorem taskInv_initial : TaskInv (TaskSystem.initial : TaskSystem V E) where
  fault := rfl
  fresh _ _ := rfl
  place := by
    refine ⟨fun f _ => ⟨.gone, rfl, fun p hp => ?_⟩, fun _ _ _ => trivial⟩
    cases p <;> simp [OwnedAt, TaskSystem.initial, phaseAt, handleAt] at hp ⊢
  handles := List.nodup_nil
  coroutines := List.nodup_nil
  running := by simp [TaskSystem.initial, phaseAt]
  pendingNodup := List.nodup_nil
  pending := by simp [TaskSystem.initial, phaseAt]
  task _ _ h := by cases h
  parent := by simp [TaskSystem.initial, phaseAt, parentAt]
  final _ h := by cases h

/-! ## Ways through the code -/

/-- What a step does, whatever the state is: one case for each way through `act`. -/
inductive TaskAct (σ : TaskSystem V E) : TaskLabel V E → TaskSystem V E → Prop
  | call {o} (hfree : σ.owners o = none) :
    TaskAct σ (.call o)
      { (σ.setFrame σ.nextFrame (some {})).setOwner o (some ⟨.task, some σ.nextFrame⟩) with
        nextFrame := σ.nextFrame + 1 }
  | emptyJoinHandle {o} (hfree : σ.owners o = none) :
    TaskAct σ (.emptyJoinHandle o) (σ.setOwner o (some ⟨.joinHandle, none⟩))
  | moveConstruct {o other owner} (hfree : σ.owners o = none)
      (hother : σ.owners other = some owner) :
    TaskAct σ (.moveConstruct o other) ((σ.takeFrom other owner).setOwner o (some owner))
  | assignSelf {o} : TaskAct σ (.moveAssign o o) σ
  | assignTask {o other owner old} (hne : o ≠ other) (ho : σ.owners o = some ⟨.task, old⟩)
      (hother : σ.owners other = some owner) (hkind : owner.kind = .task) :
    TaskAct σ (.moveAssign o other)
      { (σ.takeFrom other owner).setOwner o (some owner) with leaked := σ.leaked ++ old.toList }
  | assignJoinHandle {o other owner old} (hne : o ≠ other)
      (ho : σ.owners o = some ⟨.joinHandle, old⟩) (hother : σ.owners other = some owner)
      (hkind : owner.kind = .joinHandle) :
    TaskAct σ (.moveAssign o other)
      (((σ.takeFrom other owner).setOwner o (some owner)).dropHandle old)
  | destroy {o kind handle} (ho : σ.owners o = some ⟨kind, handle⟩) :
    TaskAct σ (.destroy o) ((σ.setOwner o none).dropHandle handle)
  | takeHandle {o handle} (ho : σ.owners o = some ⟨.joinHandle, handle⟩) :
    TaskAct σ (.takeHandle o)
      { σ.takeFrom o ⟨.joinHandle, handle⟩ with leaked := σ.leaked ++ handle.toList }
  | spawnEmpty {o} (ho : σ.owners o = some ⟨.task, none⟩) :
    TaskAct σ (.spawn o) { σ.takeFrom o ⟨.task, none⟩ with stack := .spawn none :: σ.stack }
  | spawn {o f} (ho : σ.owners o = some ⟨.task, some f⟩) :
    TaskAct σ (.spawn o)
      ({ σ.takeFrom o ⟨.task, some f⟩ with stack := .spawn (some f) :: σ.stack }.resume f)
  | spawnReturn {o handle rest} (hstack : σ.stack = .spawn handle :: rest)
      (hfree : σ.owners o = none) :
    TaskAct σ (.spawnReturn o) { σ.setOwner o (some ⟨.joinHandle, handle⟩) with stack := rest }
  | blockOn {o f} (ho : σ.owners o = some ⟨.task, some f⟩) :
    TaskAct σ (.blockOn o)
      ({ σ.takeFrom o ⟨.task, some f⟩ with stack := .blockOn f :: σ.stack }.resume f)
  | blockOnGone {f rest} (hstack : σ.stack = .blockOn f :: rest) (hframe : σ.frames f = none) :
    TaskAct σ .blockOnReturn (σ.setFault .useAfterFree)
  | blockOnValue {f rest frame v} (hstack : σ.stack = .blockOn f :: rest)
      (hframe : σ.frames f = some frame) (hphase : frame.phase = .finalSuspend)
      (hvalue : frame.promise.getValue = .ok v) :
    TaskAct σ .blockOnReturn ({ σ with stack := rest }.receive none f)
  | blockOnException {f rest frame e} (hstack : σ.stack = .blockOn f :: rest)
      (hframe : σ.frames f = some frame) (hphase : frame.phase = .finalSuspend)
      (hvalue : frame.promise.getValue = .error e) :
    TaskAct σ .blockOnReturn
      { σ with
        stack := rest
        received := σ.received ++ [⟨none, f, .error e⟩]
        leaked := σ.leaked ++ [f] }
  | await {o c rest kind handle} (hstack : σ.stack = .coroutine c :: rest)
      (ho : σ.owners o = some ⟨kind, handle⟩) :
    TaskAct σ (.await o) ((σ.takeFrom o ⟨kind, handle⟩).awaitHandle c rest kind handle)
  | suspend {c rest} (hstack : σ.stack = .coroutine c :: rest) :
    TaskAct σ .suspend { σ.setPhase c .suspended with stack := rest, pending := σ.pending ++ [c] }
  | complete {f root rest} (hstack : σ.stack = .blockOn root :: rest) (hf : f ∈ σ.pending) :
    TaskAct σ (.complete f) ({ σ with pending := σ.pending.erase f }.resume f)
  | finishGone {c rest ending} (hstack : σ.stack = .coroutine c :: rest)
      (hframe : σ.frames c = none) :
    TaskAct σ (.finish ending) (σ.setFault .useAfterFree)
  | finish {c rest frame ending} (hstack : σ.stack = .coroutine c :: rest)
      (hframe : σ.frames c = some frame) :
    TaskAct σ (.finish ending)
      ({ σ.setFrame c (some ⟨frame.promise.setEnd ending, .finalSuspend⟩) with
        ended := σ.ended ++ [(c, ending)] }.finalSuspend rest frame.promise.parent)

section ActOf

variable {σ τ : TaskSystem V E}

/-- A move assignment, to itself or to another owner. -/
private theorem taskAct_of_moveAssign {o other : OwnerId}
    (hact : σ.act (.moveAssign o other) = some τ) : TaskAct σ (.moveAssign o other) τ := by
  simp only [TaskSystem.act] at hact
  split at hact
  case h_2 => cases hact
  case h_1 old owner ho hother =>
    obtain ⟨⟨-, hkind⟩, hact⟩ := Option.ite_none_right_eq_some.mp hact
    split at hact
    case isTrue heq =>
      obtain rfl := Option.some.inj hact
      exact heq ▸ .assignSelf
    case isFalse hne =>
      obtain ⟨kind, handle⟩ := old
      cases kind with
      | task =>
        obtain rfl := Option.some.inj hact
        exact .assignTask hne ho hother hkind.symm
      | joinHandle =>
        obtain rfl := Option.some.inj hact
        exact .assignJoinHandle hne ho hother hkind.symm

private theorem taskAct_of_spawn {o : OwnerId} (hact : σ.act (.spawn o) = some τ) :
    TaskAct σ (.spawn o) τ := by
  simp only [TaskSystem.act] at hact
  split at hact
  case h_2 => cases hact
  case h_1 owner ho =>
    obtain ⟨⟨-, hkind⟩, hact⟩ := Option.ite_none_right_eq_some.mp hact
    obtain ⟨kind, handle⟩ := owner
    subst hkind
    cases handle with
    | none =>
      obtain rfl := Option.some.inj hact
      exact .spawnEmpty ho
    | some f =>
      obtain rfl := Option.some.inj hact
      exact .spawn ho

private theorem taskAct_of_blockOn {o : OwnerId} (hact : σ.act (.blockOn o) = some τ) :
    TaskAct σ (.blockOn o) τ := by
  simp only [TaskSystem.act] at hact
  split at hact
  case h_2 => cases hact
  case h_1 owner ho =>
    obtain ⟨⟨-, hkind⟩, hact⟩ := Option.ite_none_right_eq_some.mp hact
    obtain ⟨kind, handle⟩ := owner
    subst hkind
    cases handle with
    -- `std::terminate`
    | none => cases hact
    | some f =>
      obtain rfl := Option.some.inj hact
      exact .blockOn ho

private theorem taskAct_of_blockOnReturn (hact : σ.act .blockOnReturn = some τ) :
    TaskAct σ .blockOnReturn τ := by
  simp only [TaskSystem.act] at hact
  split at hact
  case h_2 => cases hact
  case h_1 f rest hstack =>
    split at hact
    case h_1 hframe =>
      obtain rfl := Option.some.inj hact
      exact .blockOnGone hstack hframe
    case h_2 frame hframe =>
      obtain ⟨hphase, hact⟩ := Option.ite_none_right_eq_some.mp hact
      split at hact
      case h_1 v hvalue =>
        obtain rfl := Option.some.inj hact
        exact .blockOnValue hstack hframe hphase hvalue
      case h_2 e hvalue =>
        obtain rfl := Option.some.inj hact
        exact .blockOnException hstack hframe hphase hvalue

/-- The only place where `step` is taken apart. -/
theorem taskAct_of_step {l : TaskLabel V E} (hstep : σ.step l = some τ) : TaskAct σ l τ := by
  -- a step runs only while there is no fault
  obtain ⟨-, hact⟩ := Option.ite_none_right_eq_some.mp hstep
  cases l with
  | call o =>
    obtain ⟨⟨-, hfree⟩, ⟨⟩⟩ := Option.ite_none_right_eq_some.mp hact
    exact .call hfree
  | emptyJoinHandle o =>
    obtain ⟨⟨-, hfree⟩, ⟨⟩⟩ := Option.ite_none_right_eq_some.mp hact
    exact .emptyJoinHandle hfree
  | moveConstruct o other =>
    simp only [TaskSystem.act] at hact
    split at hact
    case h_2 => cases hact
    case h_1 owner hfree hother =>
      obtain ⟨-, ⟨⟩⟩ := Option.ite_none_right_eq_some.mp hact
      exact .moveConstruct hfree hother
  | moveAssign o other => exact taskAct_of_moveAssign hact
  | destroy o =>
    simp only [TaskSystem.act] at hact
    split at hact
    case h_2 => cases hact
    case h_1 owner ho =>
      obtain ⟨-, ⟨⟩⟩ := Option.ite_none_right_eq_some.mp hact
      exact .destroy ho
  | takeHandle o =>
    simp only [TaskSystem.act] at hact
    split at hact
    case h_2 => cases hact
    case h_1 owner ho =>
      obtain ⟨⟨-, hkind⟩, ⟨⟩⟩ := Option.ite_none_right_eq_some.mp hact
      obtain ⟨kind, handle⟩ := owner
      subst hkind
      exact .takeHandle ho
  | spawn o => exact taskAct_of_spawn hact
  | spawnReturn o =>
    simp only [TaskSystem.act] at hact
    split at hact
    case h_2 => cases hact
    case h_1 handle rest hstack hfree =>
      obtain rfl := Option.some.inj hact
      exact .spawnReturn hstack hfree
  | blockOn o => exact taskAct_of_blockOn hact
  | blockOnReturn => exact taskAct_of_blockOnReturn hact
  | await o =>
    simp only [TaskSystem.act] at hact
    split at hact
    case h_2 => cases hact
    case h_1 c rest owner hstack ho =>
      obtain rfl := Option.some.inj hact
      exact .await hstack ho
  | suspend =>
    simp only [TaskSystem.act] at hact
    split at hact
    case h_2 => cases hact
    case h_1 c rest hstack =>
      obtain rfl := Option.some.inj hact
      exact .suspend hstack
  | complete f =>
    simp only [TaskSystem.act] at hact
    split at hact
    case h_2 => cases hact
    case h_1 root rest hstack =>
      obtain ⟨hf, ⟨⟩⟩ := Option.ite_none_right_eq_some.mp hact
      exact .complete hstack hf
  | finish ending =>
    simp only [TaskSystem.act] at hact
    split at hact
    case h_2 => cases hact
    case h_1 c rest hstack =>
      split at hact
      case h_1 hframe =>
        obtain rfl := Option.some.inj hact
        exact .finishGone hstack hframe
      case h_2 frame hframe =>
        obtain rfl := Option.some.inj hact
        exact .finish hstack hframe

end ActOf

/-! ## Steps without faults -/

/-- What a step does: one case for each way in which `act` goes on. -/
inductive TaskStep (σ : TaskSystem V E) : TaskLabel V E → TaskSystem V E → Prop
  | call {o} (hfree : σ.owners o = none) :
    TaskStep σ (.call o)
      { (σ.setFrame σ.nextFrame (some {})).setOwner o (some ⟨.task, some σ.nextFrame⟩) with
        nextFrame := σ.nextFrame + 1 }
  | emptyJoinHandle {o} (hfree : σ.owners o = none) :
    TaskStep σ (.emptyJoinHandle o) (σ.setOwner o (some ⟨.joinHandle, none⟩))
  | moveConstruct {o other owner} (hfree : σ.owners o = none)
      (hother : σ.owners other = some owner) :
    TaskStep σ (.moveConstruct o other) ((σ.takeFrom other owner).setOwner o (some owner))
  | assignSelf {o} : TaskStep σ (.moveAssign o o) σ
  /-- A `Task` loses the handle that it had. -/
  | assignTask {o other owner old} (hne : o ≠ other) (ho : σ.owners o = some ⟨.task, old⟩)
      (hother : σ.owners other = some owner) (hkind : owner.kind = .task) :
    TaskStep σ (.moveAssign o other)
      { (σ.takeFrom other owner).setOwner o (some owner) with leaked := σ.leaked ++ old.toList }
  | assignEmpty {o other owner} (hne : o ≠ other) (ho : σ.owners o = some ⟨.joinHandle, none⟩)
      (hother : σ.owners other = some owner) (hkind : owner.kind = .joinHandle) :
    TaskStep σ (.moveAssign o other) ((σ.takeFrom other owner).setOwner o (some owner))
  | assignEnded {o other owner f} (hne : o ≠ other) (ho : σ.owners o = some ⟨.joinHandle, some f⟩)
      (hother : σ.owners other = some owner) (hkind : owner.kind = .joinHandle)
      (hf : phaseAt σ.frames f = some .finalSuspend) :
    TaskStep σ (.moveAssign o other)
      { ((σ.takeFrom other owner).setOwner o (some owner)).setFrame f none with
        dropped := σ.dropped ++ [f] }
  | destroyEmpty {o kind} (ho : σ.owners o = some ⟨kind, none⟩) :
    TaskStep σ (.destroy o) (σ.setOwner o none)
  /-- A task that has not been started, or a coroutine that has ended. -/
  | destroy {o kind f phase} (ho : σ.owners o = some ⟨kind, some f⟩)
      (hf : phaseAt σ.frames f = some phase)
      (hphase : phase = .initialSuspend ∨ phase = .finalSuspend) :
    TaskStep σ (.destroy o)
      { (σ.setOwner o none).setFrame f none with dropped := σ.dropped ++ [f] }
  | takeHandle {o handle} (ho : σ.owners o = some ⟨.joinHandle, handle⟩) :
    TaskStep σ (.takeHandle o)
      { σ.takeFrom o ⟨.joinHandle, handle⟩ with leaked := σ.leaked ++ handle.toList }
  | spawnEmpty {o} (ho : σ.owners o = some ⟨.task, none⟩) :
    TaskStep σ (.spawn o) { σ.takeFrom o ⟨.task, none⟩ with stack := .spawn none :: σ.stack }
  | spawn {o f} (ho : σ.owners o = some ⟨.task, some f⟩) :
    TaskStep σ (.spawn o)
      { (σ.takeFrom o ⟨.task, some f⟩).setPhase f .running with
        stack := .coroutine f :: .spawn (some f) :: σ.stack }
  | spawnReturn {o handle rest} (hstack : σ.stack = .spawn handle :: rest)
      (hfree : σ.owners o = none) :
    TaskStep σ (.spawnReturn o) { σ.setOwner o (some ⟨.joinHandle, handle⟩) with stack := rest }
  | blockOn {o f} (ho : σ.owners o = some ⟨.task, some f⟩) :
    TaskStep σ (.blockOn o)
      { (σ.takeFrom o ⟨.task, some f⟩).setPhase f .running with
        stack := .coroutine f :: .blockOn f :: σ.stack }
  | blockOnValue {f rest frame v} (hstack : σ.stack = .blockOn f :: rest)
      (hframe : σ.frames f = some frame) (hphase : frame.phase = .finalSuspend)
      (hvalue : frame.promise.getValue = .ok v) :
    TaskStep σ .blockOnReturn
      { σ.setFrame f none with
        stack := rest
        received := σ.received ++ [⟨none, f, .ok v⟩] }
  | blockOnException {f rest frame e} (hstack : σ.stack = .blockOn f :: rest)
      (hframe : σ.frames f = some frame) (hphase : frame.phase = .finalSuspend)
      (hvalue : frame.promise.getValue = .error e) :
    TaskStep σ .blockOnReturn
      { σ with
        stack := rest
        received := σ.received ++ [⟨none, f, .error e⟩]
        leaked := σ.leaked ++ [f] }
  | awaitEnded {o c rest kind child frame} (hstack : σ.stack = .coroutine c :: rest)
      (ho : σ.owners o = some ⟨kind, some child⟩) (hframe : σ.frames child = some frame)
      (hphase : frame.phase = .finalSuspend) :
    TaskStep σ (.await o)
      { (σ.takeFrom o ⟨kind, some child⟩).setFrame child none with
        received := σ.received ++ [⟨some c, child, frame.promise.getValue⟩] }
  | awaitTask {o c rest child} (hstack : σ.stack = .coroutine c :: rest)
      (ho : σ.owners o = some ⟨.task, some child⟩) :
    TaskStep σ (.await o)
      { (((σ.takeFrom o ⟨.task, some child⟩).setParent child c).setPhase c
        (.awaiting child)).setPhase
          child .running with
        stack := .coroutine child :: rest }
  | awaitJoinHandle {o c rest child phase} (hstack : σ.stack = .coroutine c :: rest)
      (ho : σ.owners o = some ⟨.joinHandle, some child⟩)
      (hchild : phaseAt σ.frames child = some phase) (hphase : phase ≠ .finalSuspend) :
    TaskStep σ (.await o)
      { ((σ.takeFrom o ⟨.joinHandle, some child⟩).setParent child c).setPhase c
          (.awaiting child) with
        stack := rest }
  | suspend {c rest} (hstack : σ.stack = .coroutine c :: rest) :
    TaskStep σ .suspend
      { σ.setPhase c .suspended with stack := rest, pending := σ.pending ++ [c] }
  | complete {f root rest} (hstack : σ.stack = .blockOn root :: rest) (hf : f ∈ σ.pending) :
    TaskStep σ (.complete f)
      { σ.setPhase f .running with pending := σ.pending.erase f, stack := .coroutine f :: σ.stack }
  | finishRoot {c rest frame ending} (hstack : σ.stack = .coroutine c :: rest)
      (hframe : σ.frames c = some frame) (hparent : frame.promise.parent = none) :
    TaskStep σ (.finish ending)
      { σ.setFrame c (some ⟨frame.promise.setEnd ending, .finalSuspend⟩) with
        ended := σ.ended ++ [(c, ending)]
        stack := rest }
  | finishAwaited {c p rest frame ending} (hstack : σ.stack = .coroutine c :: rest)
      (hframe : σ.frames c = some frame) (hparent : frame.promise.parent = some p) :
    TaskStep σ (.finish ending)
      { (σ.setFrame c none).setPhase p .running with
        ended := σ.ended ++ [(c, ending)]
        received := σ.received ++ [⟨some p, c, (frame.promise.setEnd ending).getValue⟩]
        stack := .coroutine p :: rest }

section StepOf

variable {σ τ : TaskSystem V E}

private theorem destroy_eq {f : FrameId} (phase : FramePhase) (hf : phaseAt σ.frames f = some phase)
    (hphase : phase = .initialSuspend ∨ phase = .finalSuspend) :
      σ.destroy f = σ.setFrame f none := by
  obtain ⟨frame, hframe, rfl⟩ := phaseAt_eq_some.mp hf
  rcases hphase with hphase | hphase <;>
    simp [TaskSystem.destroy, TaskSystem.destroyFrame, hframe, hphase]

private theorem resume_eq {f : FrameId} (phase : FramePhase) (hf : phaseAt σ.frames f = some phase)
    (hrunning : phase ≠ .running) (hfinal : phase ≠ .finalSuspend) :
    σ.resume f = { σ.setPhase f .running with stack := .coroutine f :: σ.stack } := by
  obtain ⟨frame, hframe, rfl⟩ := phaseAt_eq_some.mp hf
  simp [TaskSystem.resume, hframe, hrunning, hfinal]

private theorem receive_eq {receiver : Option FrameId} {f : FrameId} {frame : TaskFrame V E}
    (hframe : σ.frames f = some frame) (hphase : frame.phase = .finalSuspend) :
    σ.receive receiver f =
      { σ.setFrame f none with
        received := σ.received ++ [⟨receiver, f, frame.promise.getValue⟩] } := by
  simp only [TaskSystem.receive, hframe]
  rw [destroy_eq .finalSuspend (by simp [phaseAt, hframe, hphase]) (.inr rfl)]
  rfl

private theorem dropHandle_eq {f : FrameId} {phase : FramePhase}
    (hf : phaseAt σ.frames f = some phase)
    (hphase : phase = .initialSuspend ∨ phase = .finalSuspend) :
    σ.dropHandle (some f) = { σ.setFrame f none with dropped := σ.dropped ++ [f] } := by
  have hf' : phaseAt { σ with dropped := σ.dropped ++ [f] }.frames f = some phase := hf
  rw [TaskSystem.dropHandle, destroy_eq phase hf' hphase]
  rfl

theorem TaskInv.running_of_top (hinv : TaskInv σ) {c : FrameId} {rest : List StackEntry}
    (hstack : σ.stack = .coroutine c :: rest) : phaseAt σ.frames c = some .running :=
  (hinv.running c).mp (by simp [hstack])

/-- The coroutine that an owner has is there. -/
private theorem TaskInv.exists_of_owner (hinv : TaskInv σ) {o : OwnerId} {kind : OwnerKind}
    {f : FrameId} (ho : σ.owners o = some ⟨kind, some f⟩) : ∃ frame, σ.frames f = some frame := by
  refine Option.ne_none_iff_exists'.mp fun hnone => ?_
  have hgone : OwnedAt σ f .gone := phaseAt_eq_none.mpr hnone
  have hplace := hinv.place.eq (q := .owner o) hgone (handleAt_of_owner ho)
  cases hplace

/-- A `JoinHandle` that is assigned to has none, or that of a coroutine that has ended. -/
private theorem taskStep_assignJoinHandle {o other : OwnerId} {owner : TaskOwner}
    {old : Option FrameId} (hd : Disciplined σ (.moveAssign o other)) (hne : o ≠ other)
    (ho : σ.owners o = some ⟨.joinHandle, old⟩) (hother : σ.owners other = some owner)
    (hkind : owner.kind = .joinHandle) :
    TaskStep σ (.moveAssign o other)
      (((σ.takeFrom other owner).setOwner o (some owner)).dropHandle old) := by
  cases old with
  | none => exact .assignEmpty hne ho hother hkind
  | some f =>
    have hf := hd hne _ ho rfl f rfl
    rw [dropHandle_eq (σ := (σ.takeFrom other owner).setOwner o (some owner)) hf (.inr rfl)]
    exact .assignEnded hne ho hother hkind hf

private theorem taskStep_destroy {o : OwnerId} {kind : OwnerKind} {handle : Option FrameId}
    (hinv : TaskInv σ) (hd : Disciplined σ (.destroy o)) (ho : σ.owners o = some ⟨kind, handle⟩) :
    TaskStep σ (.destroy o) ((σ.setOwner o none).dropHandle handle) := by
  cases handle with
  | none => exact .destroyEmpty ho
  | some f =>
    obtain ⟨phase, hf, hphase⟩ : ∃ phase, phaseAt σ.frames f = some phase ∧
        (phase = .initialSuspend ∨ phase = .finalSuspend) := by
      cases kind with
      | task => exact ⟨_, hinv.task o f ho, .inl rfl⟩
      | joinHandle => exact ⟨_, hd _ ho rfl f rfl, .inr rfl⟩
    rw [dropHandle_eq (σ := σ.setOwner o none) hf hphase]
    exact .destroy ho hf hphase

/-- The cases of `co_await`. -/
private theorem taskStep_await {o : OwnerId} {c : FrameId} {rest : List StackEntry}
    {kind : OwnerKind} {handle : Option FrameId} (hinv : TaskInv σ) (hd : Disciplined σ (.await o))
    (hstack : σ.stack = .coroutine c :: rest) (ho : σ.owners o = some ⟨kind, handle⟩) :
    TaskStep σ (.await o) ((σ.takeFrom o ⟨kind, handle⟩).awaitHandle c rest kind handle) := by
  obtain ⟨child, rfl⟩ := Option.ne_none_iff_exists'.mp (hd _ ho)
  obtain ⟨frame, hframe⟩ := hinv.exists_of_owner ho
  have hchild : (σ.takeFrom o ⟨kind, some child⟩).frames child = some frame := hframe
  simp only [TaskSystem.awaitHandle, hchild]
  split
  case isTrue hphase =>
    rw [receive_eq hchild hphase]
    exact .awaitEnded hstack ho hframe hphase
  case isFalse hphase =>
    cases kind with
    | task =>
      have hinitial := hinv.task o child ho
      have hne : child ≠ c := by
        rintro rfl
        simp [hinv.running_of_top hstack] at hinitial
      rw [resume_eq .initialSuspend (by simpa [hne] using hinitial) (by simp) (by simp)]
      exact .awaitTask hstack ho
    | joinHandle =>
      exact .awaitJoinHandle hstack ho (phaseAt_eq_some.mpr ⟨frame, hframe, rfl⟩) hphase

/-- A coroutine that is awaited ends: `await_resume` of its parent takes the result and destroys
    it. -/
private theorem taskStep_finishAwaited {c p : FrameId} {rest : List StackEntry}
    {frame : TaskFrame V E}
    {ending : TaskEnd V E} (hinv : TaskInv σ) (hstack : σ.stack = .coroutine c :: rest)
    (hframe : σ.frames c = some frame) (hparent : frame.promise.parent = some p) :
    TaskStep σ (.finish ending)
      ({ σ.setFrame c (some ⟨frame.promise.setEnd ending, .finalSuspend⟩) with
        ended := σ.ended ++ [(c, ending)] }.finalSuspend rest (some p)) := by
  have hrunning := hinv.running_of_top hstack
  have hawaiting : phaseAt σ.frames p = some (.awaiting c) :=
    (hinv.parent c p).mp (by simp [parentAt, hframe, hparent])
  have hne : p ≠ c := by
    rintro rfl
    simp [hrunning] at hawaiting
  -- `c` is at its end when `p` looks at its promise
  let σ₁ : TaskSystem V E :=
    { σ.setFrame c (some ⟨frame.promise.setEnd ending, .finalSuspend⟩) with
      ended := σ.ended ++ [(c, ending)]
      stack := rest }
  have hp₁ : phaseAt σ₁.frames p = some (.awaiting c) := by simpa [σ₁, hne] using hawaiting
  have hresume := resume_eq _ hp₁ (by simp) (by simp)
  have hc₁ : (σ₁.resume p).frames c = some ⟨frame.promise.setEnd ending, .finalSuspend⟩ := by
    rw [hresume]
    simp [σ₁, hne.symm]
  obtain ⟨pframe, hp, hpphase⟩ := phaseAt_eq_some.mp hawaiting
  have hfinal : { σ.setFrame c (some ⟨frame.promise.setEnd ending, .finalSuspend⟩) with
      ended := σ.ended ++ [(c, ending)] }.finalSuspend rest (some p) =
        (σ₁.resume p).receive (some p) c := by
    have hp' : (σ.setFrame c (some ⟨frame.promise.setEnd ending, .finalSuspend⟩)).frames p =
        some pframe := by
      simp [hne, hp]
    simp only [TaskSystem.finalSuspend, hp', hpphase]
    rfl
  have hframes : ((σ₁.setPhase p .running).setFrame c none).frames =
      ((σ.setFrame c none).setPhase p .running).frames := by
    funext g
    by_cases hgc : g = c <;> by_cases hgp : g = p <;> simp_all [σ₁]
  rw [hfinal, receive_eq hc₁ rfl, hresume]
  have hstate : TaskStep σ (.finish ending) _ := .finishAwaited hstack hframe hparent
  dsimp only at hstate
  rw [← hframes] at hstate
  exact hstate

/-- Where the invariant holds, no way through the code faults. -/
theorem taskStep_of_step {l : TaskLabel V E} (hinv : TaskInv σ) (hd : Disciplined σ l)
    (hstep : σ.step l = some τ) : TaskStep σ l τ := by
  cases taskAct_of_step hstep with
  | call hfree => exact .call hfree
  | emptyJoinHandle hfree => exact .emptyJoinHandle hfree
  | moveConstruct hfree hother => exact .moveConstruct hfree hother
  | assignSelf => exact .assignSelf
  | assignTask hne ho hother hkind => exact .assignTask hne ho hother hkind
  | assignJoinHandle hne ho hother hkind => exact taskStep_assignJoinHandle hd hne ho hother hkind
  | destroy ho => exact taskStep_destroy hinv hd ho
  | takeHandle ho => exact .takeHandle ho
  | spawnEmpty ho => exact .spawnEmpty ho
  | @spawn o f ho =>
    rw [resume_eq .initialSuspend (by exact hinv.task o f ho) (by simp) (by simp)]
    exact .spawn ho
  | spawnReturn hstack hfree => exact .spawnReturn hstack hfree
  | @blockOn o f ho =>
    rw [resume_eq .initialSuspend (by exact hinv.task o f ho) (by simp) (by simp)]
    exact .blockOn ho
  | @blockOnGone f rest hstack hframe =>
    -- the handle of `block_on` is that of a frame
    have hplace := hinv.place.eq (p := .gone) (q := .stack) (phaseAt_eq_none.mpr hframe)
      (show f ∈ handlesOn σ.stack by simp [hstack])
    cases hplace
  | @blockOnValue f rest frame v hstack hframe hphase hvalue =>
    rw [receive_eq (σ := { σ with stack := rest }) hframe hphase, hvalue]
    exact .blockOnValue hstack hframe hphase hvalue
  | blockOnException hstack hframe hphase hvalue =>
    exact .blockOnException hstack hframe hphase hvalue
  | await hstack ho => exact taskStep_await hinv hd hstack ho
  | suspend hstack => exact .suspend hstack
  | @complete f root rest hstack hf =>
    rw [resume_eq .suspended (by exact (hinv.pending f).mp hf) (by simp) (by simp)]
    exact .complete hstack hf
  | finishGone hstack hframe =>
    -- the coroutine on the stack runs
    have hrunning := hinv.running_of_top hstack
    rw [phaseAt_eq_none.mpr hframe] at hrunning
    cases hrunning
  | @finish c rest frame ending hstack hframe =>
    cases hparent : frame.promise.parent with
    | none => exact .finishRoot hstack hframe hparent
    | some p => exact taskStep_finishAwaited hinv hstack hframe hparent

end StepOf

end Ppnt.Spec
