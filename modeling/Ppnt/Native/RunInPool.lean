import Ppnt.Native.Err
import Ppnt.Native.RingPost

/-!
# Functions in a thread pool

Model of `RunInPoolAwaiter` (`ppnt-io/src/runtime.ixx`) over the model of `Ring::post`: a coroutine
suspends until a thread of the pool has run its function and posted its handle, and then takes the
result from the awaiter in its frame.

When the pool runs a function, and on which thread, is left open.  Handles are also posted by other
awaiters, though not those of coroutines that are suspended here; and while a handle waits for its
turn, its coroutine is suspended.
-/

namespace Ppnt.Native

/-- `std::errc::interrupted`, as `EINTR` on Linux. -/
def Errc.interrupted : Errc := .system 4

/-- What a function throws: a `std::exception` with its `what()`, or something else. -/
inductive PoolException where
  | std (what : String)
  | other
deriving DecidableEq, Repr

/-- The end of a function. -/
inductive FuncEnd (V : Type) where
  | value (v : V)
  | exception (e : PoolException)
deriving DecidableEq, Repr

/-- `RunInPoolAwaiter`. -/
structure RunInPoolAwaiter (V : Type) where
  res : Option V := none
  err : Option PoolException := none
deriving DecidableEq, Repr

namespace RunInPoolAwaiter

variable {V : Type}

/-- What the pool's thread does around `func_()`. -/
def store (awaiter : RunInPoolAwaiter V) : FuncEnd V → RunInPoolAwaiter V
  | .value v => { awaiter with res := some v }
  | .exception e => { awaiter with err := some e }

/-- `await_resume`.  There is no result if `res_` is empty. -/
def awaitResume (awaiter : RunInPoolAwaiter V) : Option (Except Error V) :=
  match awaiter.err with
  | some (.std what) => some (makeErrResult .interrupted what)
  | some .other => some (makeErrResult .interrupted "run_in_pool unknown err")
  | none => awaiter.res.map .ok

end RunInPoolAwaiter

/-- Where the function of a suspended coroutine is: in the pool's queue, running, behind the end
    with its result in the awaiter, or with the handle posted. -/
inductive JobPhase where
  | queued
  | running
  | stored
  | posted
deriving DecidableEq, Repr

structure PoolState (V : Type) where
  post : PostState
  /-- The coroutines that are suspended in `run_in_pool`. -/
  jobs : Handle → Option JobPhase
  awaiters : Handle → RunInPoolAwaiter V
  /-- How the functions have ended. -/
  ended : List (Handle × FuncEnd V)
  /-- What the coroutines have got. -/
  received : List (Handle × Option (Except Error V))

inductive PoolLabel (V : Type) where
  /-- `await_suspend`. -/
  | suspend (h : Handle)
  | start (h : Handle)
  | funcEnd (h : Handle) (ending : FuncEnd V)
  /-- `ring_->post(h)`, up to the lock. -/
  | push (t : ThreadId) (h : Handle)
  | ring (l : PostLabel)
deriving DecidableEq, Repr

/-- The posted handles that wait for their turn. -/
def PostState.turns (σ : PostState) : List (Option Handle) :=
  match σ.phase with
  | .resuming tasks => tasks ++ σ.externalTasks
  | .running | .store | .swap => σ.externalTasks

namespace PoolState

variable {V : Type}

def setJob (σ : PoolState V) (h : Handle) (job : Option JobPhase) : PoolState V :=
  { σ with jobs := Function.update σ.jobs h job }

/-- The label is not about a coroutine that is suspended in `run_in_pool`. -/
def elsewhere (σ : PoolState V) : PostLabel → Bool
  | .push _ (some h) => (σ.jobs h).isNone
  | .finish h => (σ.jobs h).isNone
  | _ => true

/-- The coroutine that a step of the ring resumes from `run_in_pool`. -/
def resumes (σ : PoolState V) : PostLabel → Option Handle
  | .resume _ =>
    match σ.post.phase with
    | .resuming (some h :: _) => if σ.post.done h = false ∧ (σ.jobs h).isSome then some h else none
    | _ => none
  | _ => none

def step (σ : PoolState V) : PoolLabel V → Option (PoolState V)
  | .suspend h =>
    if σ.jobs h = none ∧ σ.post.done h = false ∧ some h ∉ σ.post.turns then
      some { σ.setJob h (some .queued) with awaiters := Function.update σ.awaiters h {} }
    else none
  | .start h => if σ.jobs h = some .queued then some (σ.setJob h (some .running)) else none
  | .funcEnd h ending =>
    if σ.jobs h = some .running then
      some { σ.setJob h (some .stored) with
        awaiters := Function.update σ.awaiters h ((σ.awaiters h).store ending)
        ended := σ.ended ++ [(h, ending)] }
    else none
  | .push t h =>
    if σ.jobs h = some .stored then
      (σ.post.step (.push t (some h))).map fun post => { σ.setJob h (some .posted) with post }
    else none
  | .ring l =>
    if σ.elsewhere l then
      (σ.post.step l).map fun post =>
        match σ.resumes l with
        | some h =>
          { σ.setJob h none with
            post
            received := σ.received ++ [(h, (σ.awaiters h).awaitResume)] }
        | none => { σ with post }
    else none

def initial : PoolState V where
  post := .initial
  jobs _ := none
  awaiters _ := {}
  ended := []
  received := []

end PoolState

end Ppnt.Native
