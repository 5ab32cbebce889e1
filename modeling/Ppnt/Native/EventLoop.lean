import Mathlib.Algebra.Group.Int.Defs
import Mathlib.Algebra.Group.Nat.Defs
import Mathlib.Data.Finset.Basic
import Ppnt.ForStd.PriorityQueue

/-!
# Timers

Model of `EventLoop` (`ppnt-jr/src/event_loop.ixx`).  A `tick` is a run of steps, because the
callbacks it calls use the loop themselves: `tick` reads the clock, `loop` is one turn of its
`while` up to the call of a callback, and `callbackDone` is the rest of the turn.  In between, while
the callback and the microtasks behind it run, any timers may be set and cancelled.
`run_until_empty`, which calls `tick` again and again, is a system of its own over these steps
(`Runner`).

The clock counts nanoseconds in 64 bits.  An addition that overflows is undefined; it is modelled as
the machine does it.
-/

namespace Ppnt.Native

def toInt64 (n : Int) : Int := n.bmod (2 ^ 64)

def toInt32 (n : Int) : Int := n.bmod (2 ^ 32)

/-- `time + std::chrono::milliseconds(ms)`. -/
def addMilliseconds (time ms : Int) : Int := toInt64 (time + toInt64 (ms * 1000000))

structure TimerKey where
  deadline : Int
  id : Int
deriving DecidableEq, Repr

/-- `std::greater<>`, through the `operator<=>` that looks at the deadline only. -/
def TimerKey.greater (a b : TimerKey) : Bool := b.deadline < a.deadline

instance : StrictWeakOrder TimerKey.greater where
  asymm h := by
    simp only [TimerKey.greater, decide_eq_true_eq, decide_eq_false_iff_not] at *
    omega
  not_trans h h' := by
    simp only [TimerKey.greater, decide_eq_false_iff_not] at *
    omega

/-- What a timer calls: `is_native` tells a task from a function with its arguments.  Functions,
    values and tasks are handles. -/
inductive TimerCallback where
  | js (callback : Nat) (args : List Nat)
  | native (task : Nat)
deriving DecidableEq, Repr

structure TimerData where
  callback : TimerCallback
  isInterval : Bool
  intervalMs : Int
deriving DecidableEq, Repr

structure EventLoop where
  nextId : Int := 1
  timerHeap : PriorityQueue TimerKey.greater := .empty
  timerMap : Std.TreeMap Int TimerData := ∅

namespace EventLoop

def clearAll (l : EventLoop) : EventLoop := { l with timerMap := ∅, timerHeap := .empty }

def cancel (l : EventLoop) (id : Int) : EventLoop := { l with timerMap := l.timerMap.erase id }

def hasPending (l : EventLoop) : Bool := !l.timerMap.isEmpty

def normalizeDelay (delayMs : Int) : Int := max 0 delayMs

/-- `schedule_js` and `schedule_task`, which differ in what they store to be called. -/
def schedule (callback : TimerCallback) (delayMs : Int) (isInterval : Bool) (now : Int)
    (l : EventLoop) : EventLoop :=
  let id := l.nextId
  let normalized := normalizeDelay delayMs
  { nextId := toInt32 (l.nextId + 1)
    timerHeap := l.timerHeap.push ⟨addMilliseconds now normalized, id⟩
    timerMap := l.timerMap.insertIfNew id
      ⟨callback, isInterval, if isInterval then max 1 normalized else normalized⟩ }

def scheduleJs (callback : Nat) (args : List Nat) (delayMs : Int) (isInterval : Bool) :
    Int → EventLoop → EventLoop :=
  schedule (.js callback args) delayMs isInterval

def scheduleTask (task : Nat) (delayMs : Int) (isInterval : Bool) : Int → EventLoop → EventLoop :=
  schedule (.native task) delayMs isInterval

def setTimeout (callback : Nat) (args : List Nat) (delayMs : Int) : Int → EventLoop → EventLoop :=
  scheduleJs callback args delayMs false

def setInterval (callback : Nat) (args : List Nat) (intervalMs : Int) :
    Int → EventLoop → EventLoop :=
  scheduleJs callback args (max 1 intervalMs) true

def setTimeoutTask (task : Nat) (delayMs : Int) : Int → EventLoop → EventLoop :=
  scheduleTask task delayMs false

def setIntervalTask (task : Nat) (intervalMs : Int) : Int → EventLoop → EventLoop :=
  scheduleTask task (max 1 intervalMs) true

/-- The time until which `wait_for_next` sleeps, if it does. -/
def waitForNext (l : EventLoop) (now : Int) : Option Int :=
  match l.timerHeap.top with
  | none => none
  | some key => if now < key.deadline then some key.deadline else none

/-! ## Steps -/

/-- Where the thread is: outside of `tick`, in its loop, or in a callback that the loop has
    called. -/
inductive Phase where
  | idle
  | ticking (now : Int)
  | calling (now : Int) (key : TimerKey) (isInterval : Bool)
deriving DecidableEq, Repr

/-- A timer as it was set. -/
structure SetTimer where
  id : Int
  callback : TimerCallback
  delayMs : Int
  isInterval : Bool
  clock : Int
deriving DecidableEq, Repr

/-- What happened.  The program does not keep this. -/
inductive Event where
  | scheduled (timer : SetTimer)
  | cancelled (id : Int)
  | cleared
  | ticked (now : Int)
  | skipped (key : TimerKey)
  | fired (key : TimerKey) (callback : TimerCallback) (now : Int)
  | finished (key : TimerKey)
  | returned (now : Int) (pending : Bool)
deriving DecidableEq, Repr

structure State where
  loop : EventLoop := {}
  phase : Phase := .idle
  events : List Event := []

/-- The steps, with what the clock shows where it is read. -/
inductive Label where
  | setTimeout (callback : Nat) (args : List Nat) (delayMs clock : Int)
  | setInterval (callback : Nat) (args : List Nat) (intervalMs clock : Int)
  | setTimeoutTask (task : Nat) (delayMs clock : Int)
  | setIntervalTask (task : Nat) (intervalMs clock : Int)
  | cancel (id : Int)
  | clearAll
  | tick (clock : Int)
  | loop
  | callbackDone
deriving DecidableEq, Repr

/-- Callers run outside of `tick` and in the callbacks. -/
def State.act (s : State) (l : EventLoop) (e : Event) : Option State :=
  match s.phase with
  | .ticking _ => none
  | _ => some ⟨l, s.phase, s.events ++ [e]⟩

/-- A turn of the loop of `tick`, up to the callback. -/
def State.turn (s : State) (now : Int) : State :=
  match s.loop.timerHeap.top with
  | none =>
    let pending := !s.loop.timerMap.isEmpty
    ⟨s.loop, .idle, s.events ++ [.returned now pending]⟩
  | some key =>
    if now < key.deadline then ⟨s.loop, .idle, s.events ++ [.returned now true]⟩
    else
      let timerHeap := s.loop.timerHeap.pop
      match s.loop.timerMap[key.id]? with
      -- `cancel` has left the key in the heap
      | none => ⟨{ s.loop with timerHeap := timerHeap }, .ticking now, s.events ++ [.skipped key]⟩
      | some data =>
        -- a timeout is gone before it is called; an interval can still be cancelled in its callback
        let timerMap := if data.isInterval then s.loop.timerMap else s.loop.timerMap.erase key.id
        ⟨{ s.loop with timerHeap := timerHeap, timerMap := timerMap },
          .calling now key data.isInterval, s.events ++ [.fired key data.callback now]⟩

/-- The turn behind the callback. -/
def State.refresh (s : State) (now : Int) (key : TimerKey) (isInterval : Bool) : State :=
  let timerHeap :=
    -- the period is counted from the deadline, not from the time of the call
    if isInterval then
      match s.loop.timerMap[key.id]? with
      | none => s.loop.timerHeap
      | some data => s.loop.timerHeap.push ⟨addMilliseconds key.deadline data.intervalMs, key.id⟩
    else s.loop.timerHeap
  ⟨{ s.loop with timerHeap := timerHeap }, .ticking now, s.events ++ [.finished key]⟩

def step (s : State) : Label → Option State
  | .setTimeout callback args delayMs clock =>
    s.act (s.loop.setTimeout callback args delayMs clock)
      (.scheduled ⟨s.loop.nextId, .js callback args, delayMs, false, clock⟩)
  | .setInterval callback args intervalMs clock =>
    s.act (s.loop.setInterval callback args intervalMs clock)
      (.scheduled ⟨s.loop.nextId, .js callback args, intervalMs, true, clock⟩)
  | .setTimeoutTask task delayMs clock =>
    s.act (s.loop.setTimeoutTask task delayMs clock)
      (.scheduled ⟨s.loop.nextId, .native task, delayMs, false, clock⟩)
  | .setIntervalTask task intervalMs clock =>
    s.act (s.loop.setIntervalTask task intervalMs clock)
      (.scheduled ⟨s.loop.nextId, .native task, intervalMs, true, clock⟩)
  | .cancel id => s.act (s.loop.cancel id) (.cancelled id)
  | .clearAll => s.act s.loop.clearAll .cleared
  | .tick now =>
    match s.phase with
    | .idle => some ⟨s.loop, .ticking now, s.events ++ [.ticked now]⟩
    | _ => none
  | .loop =>
    match s.phase with
    | .ticking now => some (s.turn now)
    | _ => none
  | .callbackDone =>
    match s.phase with
    | .calling now key isInterval => some (s.refresh now key isInterval)
    | _ => none

end EventLoop

/-! ## `run_until_empty` -/

/-- Where `run_until_empty` is: in `tick`, in front of `wait_for_next` or behind its loop. -/
inductive RunnerPhase where
  | tick
  | wait
  | done
deriving DecidableEq, Repr

structure Runner where
  state : EventLoop.State
  phase : RunnerPhase := .tick
  /-- The times until which the thread has slept. -/
  sleeps : List Int := []

inductive RunnerLabel where
  | loop (l : EventLoop.Label)
  /-- `wait_for_next`, with what the clock shows. -/
  | waitForNext (clock : Int)
deriving DecidableEq, Repr

namespace Runner

/-- What `run_until_empty` does behind a step: it looks at what `tick` has returned. -/
def phaseAfter : Option EventLoop.Event → RunnerPhase
  | some (.returned _ true) => .wait
  | some (.returned _ false) => .done
  | _ => .tick

/-- One step.  Outside of the loop of `tick` only the microtasks run that `tick` starts with, and
    what they do is a step of the event loop as well. -/
def step (r : Runner) : RunnerLabel → Option Runner
  | .loop l =>
    match r.phase with
    | .tick => do
      let s ← EventLoop.step r.state l
      return { r with state := s, phase := phaseAfter s.events.getLast? }
    | _ => none
  | .waitForNext clock =>
    match r.phase with
    | .wait => some { r with
        phase := .tick
        sleeps := r.sleeps ++ (r.state.loop.waitForNext clock).toList }
    | _ => none

end Runner

end Ppnt.Native
