import Mathlib.Algebra.Group.Nat.Defs
import Mathlib.Logic.Function.Basic
import Ppnt.Native.Driver

/-!
# Posting to a ring

Model of `Ring::post` and `Ring::run_external_tasks` from `ppnt-io/src/driver.cpp`, with
`arm_eventfd_read` and what `run_one` does with the completion of that read.

Every atomic step of a posting thread and of the ring thread is a label, so that a run is an
interleaving of any number of threads.  The mutex makes the push and the swap atomic, and
`notified_` is sequentially consistent.  A coroutine on the ring thread that posts is a posting
thread too.

A handle stands for one coroutine, which stays finished once it is.
-/

namespace Ppnt.Native

abbrev ThreadId := Nat

/-- The largest value of an eventfd. -/
def eventfdMax : Nat := 2 ^ 64 - 2

/-- A write of 1 to an eventfd.  As the descriptor is nonblocking, it fails at the largest value. -/
def eventfdWrite (counter : Nat) : Nat :=
  if counter < eventfdMax then counter + 1 else counter

/-- The read of the eventfd. -/
inductive EventfdRead where
  /-- Its completion is handled and it is not armed again. -/
  | idle
  /-- It is in the submission queue. -/
  | queued
  | armed
  /-- Its completion is in the completion queue. -/
  | completed
deriving DecidableEq, Repr

/-- Where the ring thread is. -/
inductive RingPhase where
  /-- In `run_one` before it has `need_rearm`, or outside. -/
  | running
  /-- Before `notified_.store(false)`. -/
  | store
  /-- Before `tasks.swap(external_tasks_)`. -/
  | swap
  /-- In the loop over the swapped handles. -/
  | resuming (tasks : List (Option Handle))
deriving DecidableEq, Repr

structure PostState where
  externalTasks : List (Option Handle)
  notified : Bool
  /-- The counter of `ev_fd_`. -/
  counter : Nat
  /-- The posting threads before `notified_.exchange(true)`. -/
  exchanging : List ThreadId
  /-- The posting threads before the write to `ev_fd_`. -/
  writing : List ThreadId
  phase : RingPhase
  read : EventfdRead
  /-- The coroutines at their final suspension point. -/
  done : Handle → Bool
  /-- The handles that `run_external_tasks` has resumed. -/
  resumed : List Handle
  /-- The handles that it has not. -/
  skipped : List (Option Handle)

inductive PostLabel where
  /-- `external_tasks_.push_back(h)` under the lock. -/
  | push (t : ThreadId) (h : Option Handle)
  /-- `notified_.exchange(true)`. -/
  | exchange (t : ThreadId)
  /-- `write(ev_fd_, &buf, sizeof(buf))`. -/
  | write (t : ThreadId)
  /-- The entry of the read is submitted. -/
  | submit
  /-- The read succeeds. -/
  | readComplete
  /-- The read fails.  `run_one` does not look at its result. -/
  | readFail
  /-- `run_one` handles the completion of the read. -/
  | cqe
  /-- `notified_.store(false)`. -/
  | store
  /-- `tasks.swap(external_tasks_)` under the lock. -/
  | swap
  /-- One iteration of the loop; a resumed coroutine runs to its end or suspends again. -/
  | resume (finishes : Bool)
  /-- `arm_eventfd_read`. -/
  | arm
  /-- A coroutine finishes that was resumed elsewhere. -/
  | finish (h : Handle)
deriving DecidableEq, Repr

namespace PostState

/-- `if (h && !h.done()) h();` -/
def resume (σ : PostState) (h : Option Handle) (finishes : Bool) : PostState :=
  match h with
  | some x =>
    if σ.done x then { σ with skipped := σ.skipped ++ [h] }
    else
      { σ with
        resumed := σ.resumed ++ [x]
        done := Function.update σ.done x finishes }
  | none => { σ with skipped := σ.skipped ++ [h] }

def step (σ : PostState) : PostLabel → Option PostState
  | .push t h =>
    if t ∉ σ.exchanging ∧ t ∉ σ.writing then
      some { σ with externalTasks := σ.externalTasks ++ [h], exchanging := σ.exchanging ++ [t] }
    else none
  | .exchange t =>
    if t ∈ σ.exchanging then
      some { σ with
        exchanging := σ.exchanging.erase t
        -- only who finds the flag clear writes to the eventfd
        writing := if σ.notified then σ.writing else σ.writing ++ [t]
        notified := true }
    else none
  | .write t =>
    if t ∈ σ.writing then
      some { σ with
        writing := σ.writing.erase t
        counter := eventfdWrite σ.counter }
    else none
  | .submit => if σ.read = .queued then some { σ with read := .armed } else none
  | .readComplete =>
    if σ.read = .armed ∧ 0 < σ.counter then some { σ with read := .completed, counter := 0 }
    else none
  | .readFail => if σ.read = .armed then some { σ with read := .completed } else none
  | .cqe =>
    if σ.phase = .running ∧ σ.read = .completed then some { σ with phase := .store, read := .idle }
    else none
  | .store => if σ.phase = .store then some { σ with phase := .swap, notified := false } else none
  | .swap =>
    if σ.phase = .swap then
      some { σ with phase := .resuming σ.externalTasks, externalTasks := [] }
    else none
  | .resume finishes =>
    match σ.phase with
    | .resuming (h :: tasks) => some { σ.resume h finishes with phase := .resuming tasks }
    | _ => none
  | .arm =>
    if σ.phase = .resuming [] then some { σ with phase := .running, read := .queued } else none
  | .finish h => some { σ with done := Function.update σ.done h true }

/-- A ring behind its constructor. -/
def initial : PostState where
  externalTasks := []
  notified := false
  counter := 0
  exchanging := []
  writing := []
  phase := .running
  read := .queued
  done _ := false
  resumed := []
  skipped := []

end PostState

end Ppnt.Native
