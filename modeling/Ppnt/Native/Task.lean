import Mathlib.Logic.Function.Basic
import Ppnt.Native.Runtime

/-!
# Tasks

Model of `Task`, `JoinHandle`, their promise and their awaiters (`ppnt-io/src/task.ixx`) and of
`spawn` and `block_on` (`ppnt-io/src/runtime.ixx`) on one thread.

A coroutine is its frame: the promise, and where it is suspended.  What its body does is a run of
labels, in any order that the thread's stack allows: it calls other coroutines, moves and destroys
the objects that own their handles, awaits and spawns them, waits for something else and ends.
`Task` and `JoinHandle` objects may live anywhere, so they are not part of a frame; the awaiter of a
`co_await` is. `block_on` runs the ring, which resumes a coroutine when what it waits for is there.

What C++ leaves undefined is a fault, behind which there is no step.
-/

namespace Ppnt.Native

/-- A `Task` or `JoinHandle` object. -/
abbrev OwnerId := Nat

/-- What `get_value` throws: the exception of the coroutine, or `std::bad_optional_access`. -/
inductive Thrown (E : Type) where
  | exception (e : E)
  | badOptionalAccess
deriving DecidableEq, Repr

/-- The end of a coroutine: `return_value`, `return_void` or `unhandled_exception`. -/
inductive TaskEnd (V E : Type) where
  | returnValue (v : V)
  | unhandledException (e : E)
deriving DecidableEq, Repr

/-- `BaseTaskPromise`. -/
structure TaskPromise (V E : Type) where
  value : Option V := none
  parent : Option FrameId := none
  exception : Option E := none
deriving DecidableEq, Repr

namespace TaskPromise

variable {V E : Type}

def setEnd (promise : TaskPromise V E) : TaskEnd V E → TaskPromise V E
  | .returnValue v => { promise with value := some v }
  | .unhandledException e => { promise with exception := some e }

/-- `get_value`, with `check_error`. -/
def getValue (promise : TaskPromise V E) : Except (Thrown E) V :=
  match promise.exception with
  | some e => .error (.exception e)
  | none =>
    match promise.value with
    | some v => .ok v
    | none => .error .badOptionalAccess

end TaskPromise

/-- Where a coroutine is.  `running` is on the thread's stack; `awaiting` is suspended with an
    awaiter of the other coroutine in its frame; `suspended` waits for something that is not a
    task. -/
inductive FramePhase where
  | initialSuspend
  | running
  | awaiting (child : FrameId)
  | suspended
  | finalSuspend
deriving DecidableEq, Repr

structure TaskFrame (V E : Type) where
  promise : TaskPromise V E := {}
  phase : FramePhase := .initialSuspend
deriving DecidableEq, Repr

inductive OwnerKind where
  | task
  | joinHandle
deriving DecidableEq, Repr

/-- A `Task` or `JoinHandle` with its `handle`. -/
structure TaskOwner where
  kind : OwnerKind
  handle : Option FrameId
deriving DecidableEq, Repr

/-- The thread's stack: a coroutine that runs, and calls of `spawn` and `block_on` with their local
    `handle`. -/
inductive StackEntry where
  | coroutine (frame : FrameId)
  | spawn (handle : Option FrameId)
  | blockOn (handle : FrameId)
deriving DecidableEq, Repr

inductive TaskFault where
  /-- `promise()` of a null handle. -/
  | nullHandle
  /-- A frame that is destroyed is used. -/
  | useAfterFree
  /-- A coroutine is resumed that is running or at its end. -/
  | notSuspended
  /-- A coroutine is destroyed that is running. -/
  | destroyRunning
deriving DecidableEq, Repr

/-- What a `co_await`, or `block_on` if there is no receiver, got from a coroutine. -/
structure Receipt (V E : Type) where
  receiver : Option FrameId
  sender : FrameId
  result : Except (Thrown E) V

structure TaskSystem (V E : Type) where
  frames : FrameId → Option (TaskFrame V E)
  nextFrame : FrameId
  owners : OwnerId → Option TaskOwner
  stack : List StackEntry
  /-- The coroutines that something has been asked to resume. -/
  pending : List FrameId
  fault : Option TaskFault
  /-- The coroutines that have ended, and how. -/
  ended : List (FrameId × TaskEnd V E)
  received : List (Receipt V E)
  /-- The coroutines that a `Task` or a `JoinHandle` has destroyed. -/
  dropped : List FrameId
  /-- The handles that have been dropped without `destroy()`. -/
  leaked : List FrameId

inductive TaskLabel (V E : Type) where
  /-- A coroutine is called, which gives a `Task`. -/
  | call (o : OwnerId)
  /-- `JoinHandle(nullptr)`. -/
  | emptyJoinHandle (o : OwnerId)
  | moveConstruct (o other : OwnerId)
  | moveAssign (o other : OwnerId)
  | destroy (o : OwnerId)
  /-- `std::move(join_handle).take_handle()`, whose result is not used. -/
  | takeHandle (o : OwnerId)
  /-- `spawn(std::move(task))` up to `resume()`. -/
  | spawn (o : OwnerId)
  /-- `spawn` behind `resume()`. -/
  | spawnReturn (o : OwnerId)
  | blockOn (o : OwnerId)
  /-- `block_on` when `handle.done()`. -/
  | blockOnReturn
  /-- `co_await` of a `Task` or of a `JoinHandle`. -/
  | await (o : OwnerId)
  /-- `co_await` of something else. -/
  | suspend
  /-- The ring resumes a coroutine. -/
  | complete (frame : FrameId)
  | finish (ending : TaskEnd V E)
deriving DecidableEq, Repr

namespace TaskSystem

variable {V E : Type}

def setFrame (σ : TaskSystem V E) (f : FrameId) (frame : Option (TaskFrame V E)) : TaskSystem V E :=
  { σ with frames := Function.update σ.frames f frame }

def modifyFrame (σ : TaskSystem V E) (f : FrameId) (g : TaskFrame V E → TaskFrame V E) :
    TaskSystem V E :=
  σ.setFrame f ((σ.frames f).map g)

def setPhase (σ : TaskSystem V E) (f : FrameId) (phase : FramePhase) : TaskSystem V E :=
  σ.modifyFrame f fun frame => { frame with phase }

def setParent (σ : TaskSystem V E) (f parent : FrameId) : TaskSystem V E :=
  σ.modifyFrame f fun frame =>
    { frame with promise := { frame.promise with parent := some parent } }

def setOwner (σ : TaskSystem V E) (o : OwnerId) (owner : Option TaskOwner) : TaskSystem V E :=
  { σ with owners := Function.update σ.owners o owner }

def setFault (σ : TaskSystem V E) (fault : TaskFault) : TaskSystem V E :=
  { σ with fault := some fault }

/-- Code that is not the ring's runs: that of a coroutine, or what calls `block_on`. -/
def codeRuns (σ : TaskSystem V E) : Bool :=
  match σ.stack with
  | [] => true
  | .coroutine _ :: _ => true
  | .spawn _ :: _ => false
  | .blockOn _ :: _ => false

/-- `handle.resume()`, or the transfer to a coroutine. -/
def resume (σ : TaskSystem V E) (f : FrameId) : TaskSystem V E :=
  match σ.frames f with
  | none => σ.setFault .useAfterFree
  | some frame =>
    if frame.phase = .running ∨ frame.phase = .finalSuspend then σ.setFault .notSuspended
    else { σ.setPhase f .running with stack := .coroutine f :: σ.stack }

/-- `handle.destroy()`.  A frame that is suspended in a `co_await` has the awaiter in it, whose
    destructor destroys the awaited coroutine. -/
def destroyFrame : Nat → TaskSystem V E → FrameId → TaskSystem V E
  | 0, σ, _ => σ.setFault .useAfterFree
  | fuel + 1, σ, f =>
    match σ.frames f with
    | none => σ.setFault .useAfterFree
    | some frame =>
      match frame.phase with
      | .running => σ.setFault .destroyRunning
      | .awaiting child => destroyFrame fuel (σ.setFrame f none) child
      | .initialSuspend | .suspended | .finalSuspend => σ.setFrame f none

/-- There are less than `nextFrame` frames, and each destroyed one is gone. -/
def destroy (σ : TaskSystem V E) (f : FrameId) : TaskSystem V E :=
  destroyFrame (σ.nextFrame + 1) σ f

/-- `if (handle) handle.destroy();` -/
def dropHandle (σ : TaskSystem V E) : Option FrameId → TaskSystem V E
  | none => σ
  | some f => { σ with dropped := σ.dropped ++ [f] }.destroy f

/-- `await_resume` and the destructor of the awaiter. -/
def receive (σ : TaskSystem V E) (receiver : Option FrameId) (sender : FrameId) : TaskSystem V E :=
  match σ.frames sender with
  | none => σ.setFault .useAfterFree
  | some frame =>
    let receipt : Receipt V E := ⟨receiver, sender, frame.promise.getValue⟩
    { σ with received := σ.received ++ [receipt] }.destroy sender

/-- `co_await` in the coroutine `c`, which is the top of the stack.  A `Task` is entered, and a
    `JoinHandle` leaves the stack to whoever has resumed `c`. -/
def awaitHandle (σ : TaskSystem V E) (c : FrameId) (rest : List StackEntry) (kind : OwnerKind)
    (handle : Option FrameId) : TaskSystem V E :=
  match handle with
  -- `await_ready`
  | none => σ.setFault .nullHandle
  | some child =>
    match σ.frames child with
    | none => σ.setFault .useAfterFree
    | some frame =>
      if frame.phase = .finalSuspend then σ.receive (some c) child
      else
        -- `await_suspend`
        let σ := { (σ.setParent child c).setPhase c (.awaiting child) with stack := rest }
        match kind with
        | .task => σ.resume child
        | .joinHandle => σ

/-- `final_suspend` of the coroutine `c`: the transfer to `parent`, whose awaiter gives it the
    result. -/
def finalSuspend (σ : TaskSystem V E) (rest : List StackEntry) (parent : Option FrameId) :
    TaskSystem V E :=
  match parent with
  | none => { σ with stack := rest }
  | some p =>
    match σ.frames p with
    | none => σ.setFault .useAfterFree
    | some frame =>
      match frame.phase with
      | .awaiting child => ({ σ with stack := rest }.resume p).receive (some p) child
      | .initialSuspend | .running | .suspended | .finalSuspend => σ.setFault .notSuspended

/-- `std::exchange(other.handle, nullptr)`. -/
def takeFrom (σ : TaskSystem V E) (o : OwnerId) (owner : TaskOwner) : TaskSystem V E :=
  σ.setOwner o (some { owner with handle := none })

def act (σ : TaskSystem V E) : TaskLabel V E → Option (TaskSystem V E)
  | .call o =>
    if σ.codeRuns ∧ σ.owners o = none then
      some { (σ.setFrame σ.nextFrame (some {})).setOwner o (some ⟨.task, some σ.nextFrame⟩) with
        nextFrame := σ.nextFrame + 1 }
    else none
  | .emptyJoinHandle o =>
    if σ.codeRuns ∧ σ.owners o = none then some (σ.setOwner o (some ⟨.joinHandle, none⟩)) else none
  | .moveConstruct o other =>
    match σ.owners o, σ.owners other with
    | none, some owner =>
      if σ.codeRuns then some ((σ.takeFrom other owner).setOwner o (some owner)) else none
    | _, _ => none
  | .moveAssign o other =>
    match σ.owners o, σ.owners other with
    | some old, some owner =>
      if σ.codeRuns ∧ old.kind = owner.kind then
        -- `this != &other`
        if o = other then some σ
        else
          match old.kind with
          | .task =>
            some { (σ.takeFrom other owner).setOwner o (some owner) with
              leaked := σ.leaked ++ old.handle.toList }
          | .joinHandle =>
            some (((σ.takeFrom other owner).setOwner o (some owner)).dropHandle old.handle)
      else none
    | _, _ => none
  | .destroy o =>
    match σ.owners o with
    | some owner => if σ.codeRuns then some ((σ.setOwner o none).dropHandle owner.handle) else none
    | none => none
  | .takeHandle o =>
    match σ.owners o with
    | some owner =>
      if σ.codeRuns ∧ owner.kind = .joinHandle then
        some { σ.takeFrom o owner with leaked := σ.leaked ++ owner.handle.toList }
      else none
    | none => none
  | .spawn o =>
    match σ.owners o with
    | some owner =>
      if σ.codeRuns ∧ owner.kind = .task then
        let σ := { σ.takeFrom o owner with stack := .spawn owner.handle :: σ.stack }
        match owner.handle with
        | none => some σ
        | some f => some (σ.resume f)
      else none
    | none => none
  | .spawnReturn o =>
    match σ.stack, σ.owners o with
    | .spawn handle :: rest, none =>
      some { σ.setOwner o (some ⟨.joinHandle, handle⟩) with stack := rest }
    | _, _ => none
  | .blockOn o =>
    match σ.owners o with
    | some owner =>
      if σ.codeRuns ∧ owner.kind = .task then
        match owner.handle with
        -- `std::terminate`
        | none => none
        | some f => some ({ σ.takeFrom o owner with stack := .blockOn f :: σ.stack }.resume f)
      else none
    | none => none
  | .blockOnReturn =>
    match σ.stack with
    | .blockOn f :: rest =>
      match σ.frames f with
      | none => some (σ.setFault .useAfterFree)
      | some frame =>
        if frame.phase = .finalSuspend then
          match frame.promise.getValue with
          | .ok _ => some ({ σ with stack := rest }.receive none f)
          -- the exception leaves `block_on` before `handle.destroy()`
          | .error e =>
            some { σ with
              stack := rest
              received := σ.received ++ [⟨none, f, .error e⟩]
              leaked := σ.leaked ++ [f] }
        else none
    | _ => none
  | .await o =>
    match σ.stack, σ.owners o with
    | .coroutine c :: rest, some owner =>
      some ((σ.takeFrom o owner).awaitHandle c rest owner.kind owner.handle)
    | _, _ => none
  | .suspend =>
    match σ.stack with
    | .coroutine c :: rest =>
      some { σ.setPhase c .suspended with stack := rest, pending := σ.pending ++ [c] }
    | _ => none
  | .complete f =>
    match σ.stack with
    | .blockOn _ :: _ =>
      if f ∈ σ.pending then some ({ σ with pending := σ.pending.erase f }.resume f) else none
    | _ => none
  | .finish ending =>
    match σ.stack with
    | .coroutine c :: rest =>
      match σ.frames c with
      | none => some (σ.setFault .useAfterFree)
      | some frame =>
        some ({ σ.setFrame c (some ⟨frame.promise.setEnd ending, .finalSuspend⟩) with
          ended := σ.ended ++ [(c, ending)] }.finalSuspend rest frame.promise.parent)
    | _ => none

def step (σ : TaskSystem V E) (l : TaskLabel V E) : Option (TaskSystem V E) :=
  if σ.fault = none then σ.act l else none

/-- A thread without tasks. -/
def initial : TaskSystem V E where
  frames _ := none
  nextFrame := 0
  owners _ := none
  stack := []
  pending := []
  fault := none
  ended := []
  received := []
  dropped := []
  leaked := []

end TaskSystem

end Ppnt.Native
