import Ppnt.Native.RingPost
import Ppnt.Native.Task

/-!
# The runtime

Model of one call of `block_on` (`ppnt-io/src/runtime.ixx`) as a whole: the models of tasks, of the
driver and of `Ring::post` side by side.  What a coroutine awaits other than a task is an operation
of the ring (`ppnt-io/src/ops.ixx`), or somebody who calls its continuation: a thread of a pool for
`run_in_pool`, and whoever has got it for `suspend_coroutine`.  `Ring::run_one` resumes the handle
that it finds in an operation, and `run_external_tasks` the handles that were posted, whichever
coroutines these are.

The read of the eventfd is an entry of the ring like others.  When it is submitted is the ring's
matter, so a read that the model of posting has as queued may be with the kernel.

The caller may have made tasks, and run them, before it calls `block_on`; there is no ring for them
then, and `Ring::current` terminates the program.  A `block_on` inside has a ring of its own and is
left out, and so is what follows the return, when the ring is gone.
-/

namespace Ppnt.Native

structure IoSystem (V E : Type) where
  tasks : TaskSystem V E
  ring : Ring
  post : PostState
  /-- The coroutines in `run_in_pool` and `suspend_coroutine` whose continuation has not been
      called. -/
  continuations : List Handle

inductive IoLabel (V E : Type) where
  /-- The code on the thread does something with tasks. -/
  | code (l : TaskLabel V E)
  /-- The running coroutine awaits an `AsyncOp`. -/
  | awaitSuspend (ptr : OperationPtr) (timeoutMs : UInt32) (bufferSelect : Bool)
  /-- The running coroutine awaits `run_in_pool` or `suspend_coroutine`. -/
  | suspendCoroutine
  /-- The thread `t` has the result for a coroutine and posts its handle, up to the lock. -/
  | resumeCb (t : ThreadId) (h : Handle)
  /-- The rest of `post`. -/
  | exchange (t : ThreadId)
  | write (t : ThreadId)
  /-- The kernel completes an entry. -/
  | kernel (cqe : Cqe)
  /-- The loop of `block_on` calls `run_one`. -/
  | runOne
  | cqe (cqe : Cqe)
  /-- `run_external_tasks`, step by step. -/
  | store
  | swap
  | resumeTask
  | cqAdvance
deriving DecidableEq

def StackEntry.isBlockOn : StackEntry → Bool
  | .blockOn _ => true
  | .coroutine _ => false
  | .spawn _ => false

namespace TaskSystem

variable {V E : Type}

/-- `h()` in `run_one` and in `run_external_tasks`. -/
def resumeHandle (σ : TaskSystem V E) (h : Handle) : TaskSystem V E :=
  { σ with pending := σ.pending.erase h }.resume h

/-- The root whose `block_on` is where the thread is, in its loop or in `run_one`. -/
def blockedOn (σ : TaskSystem V E) : Option FrameId :=
  match σ.stack with
  | .blockOn root :: _ => some root
  | .coroutine _ :: _ | .spawn _ :: _ | [] => none

/-- The running coroutine, if there is a ring that `Ring::current` gives it. -/
def onRing (σ : TaskSystem V E) : Option FrameId :=
  match σ.stack with
  | .coroutine c :: rest => if rest.any (·.isBlockOn) then some c else none
  | .blockOn _ :: _ | .spawn _ :: _ | [] => none

/-- `handle.done()`. -/
def done (σ : TaskSystem V E) (f : FrameId) : Bool :=
  (σ.frames f).any fun frame => frame.phase = .finalSuspend

end TaskSystem

/-- The kernel completes the read of the eventfd.  It succeeds only if something has been
    written. -/
def PostState.readDone (σ : PostState) (res : Int) : Option PostState :=
  (if σ.read = .queued then σ.step .submit else some σ).bind fun σ =>
    σ.step (if 0 ≤ res then .readComplete else .readFail)

namespace IoSystem

variable {V E : Type}

/-- The labels that are code's own.  The others come from the ring, or are about another ring. -/
def ofCode (σ : IoSystem V E) : TaskLabel V E → Bool
  | .blockOn _ => σ.tasks.stack.isEmpty
  | .blockOnReturn | .suspend | .complete _ => false
  | .call _ | .emptyJoinHandle _ | .moveConstruct _ _ | .moveAssign _ _ | .destroy _ | .takeHandle _
  | .spawn _ | .spawnReturn _ | .await _ | .finish _ => true

/-- The resumption that an iteration has added to the log. -/
def resumption (ring ring' : Ring) : Option Resumption :=
  (ring'.resumed.drop ring.resumed.length).head?

/-- One iteration of the loop of `run_one`. -/
def onCqe (σ : IoSystem V E) (cqe : Cqe) : Option (IoSystem V E) := do
  let ring ← σ.ring.step (.cqe cqe)
  if cqe.op = σ.ring.evOp.addr then
    let post ← σ.post.step .cqe
    return { σ with ring, post }
  else
    match resumption σ.ring ring with
    | some r => return { σ with tasks := σ.tasks.resumeHandle r.handle, ring }
    | none => return { σ with ring }

/-- One iteration of the loop of `run_external_tasks`. -/
def onTask (σ : IoSystem V E) : Option (IoSystem V E) :=
  match σ.post.phase with
  | .resuming (some h :: _) =>
    -- `if (h && !h.done()) h();`
    if σ.tasks.done h then do
      let post ← σ.post.step (.finish h)
      let post ← post.step (.resume false)
      return { σ with post }
    else do
      let post ← σ.post.step (.resume false)
      return { σ with tasks := σ.tasks.resumeHandle h, post }
  | .resuming (none :: _) => (σ.post.step (.resume false)).map fun post => { σ with post }
  | .resuming [] | .running | .store | .swap => none

/-- A step of the thread of `block_on` in its loop. -/
def inBlockOn (σ : IoSystem V E) (next : Option (IoSystem V E)) : Option (IoSystem V E) :=
  if σ.tasks.blockedOn.isSome then next else none

def act (σ : IoSystem V E) : IoLabel V E → Option (IoSystem V E)
  | .code l => if σ.ofCode l then (σ.tasks.step l).map fun tasks => { σ with tasks } else none
  | .awaitSuspend ptr timeoutMs bufferSelect => do
    let c ← σ.tasks.onRing
    let ring ← σ.ring.step (.awaitSuspend ptr c timeoutMs bufferSelect)
    let tasks ← σ.tasks.step .suspend
    return { σ with tasks, ring }
  | .suspendCoroutine => do
    let c ← σ.tasks.onRing
    let tasks ← σ.tasks.step .suspend
    return { σ with tasks, continuations := σ.continuations ++ [c] }
  | .resumeCb t h => do
    let post ← σ.post.step (.push t (some h))
    return { σ with post, continuations := σ.continuations.erase h }
  | .exchange t => (σ.post.step (.exchange t)).map fun post => { σ with post }
  | .write t => (σ.post.step (.write t)).map fun post => { σ with post }
  | .kernel cqe => do
    let ring ← σ.ring.step (.complete cqe)
    if cqe.op = σ.ring.evOp.addr then
      let post ← σ.post.readDone cqe.res
      return { σ with ring, post }
    else return { σ with ring }
  | .runOne => do
    let root ← σ.tasks.blockedOn
    -- `while (!handle.done())`
    if σ.tasks.done root then none
    else
      let ring ← σ.ring.step .runOne
      return { σ with ring }
  | .cqe cqe =>
    -- the loop is not over
    if σ.post.phase = .running ∨ σ.post.phase = .store then σ.inBlockOn (σ.onCqe cqe) else none
  | .store =>
    -- `if (need_rearm)`
    if σ.ring.needRearm = some true then
      σ.inBlockOn ((σ.post.step .store).map fun post => { σ with post })
    else none
  | .swap => σ.inBlockOn ((σ.post.step .swap).map fun post => { σ with post })
  | .resumeTask => σ.inBlockOn σ.onTask
  | .cqAdvance => σ.inBlockOn do
    let ring ← σ.ring.step .cqAdvance
    if σ.ring.needRearm = some true then
      let post ← σ.post.step .arm
      return { σ with ring, post }
    else return { σ with ring }

def step (σ : IoSystem V E) (l : IoLabel V E) : Option (IoSystem V E) :=
  if σ.tasks.fault = none then σ.act l else none

def initial (evOp : OperationPtr) (entries : Nat) : IoSystem V E where
  tasks := .initial
  ring := .initial evOp entries
  post := .initial
  continuations := []

end IoSystem

end Ppnt.Native
