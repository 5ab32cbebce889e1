import Mathlib.Logic.Function.Basic
import Ppnt.Native.HttpClient

/-!
# The background driver of an HTTP/2 session

Model of `ensure_background_driver`, `background_driver`, `close`, `close_async` and `~Http2Session`
(`ppnt-http/src/http2.ixx`): when there is a driver, who owns its coroutine, and when the session
may be destroyed.  What the driver does to the streams is in `Ppnt.Native.Http2`.

A driver is its coroutine frame, which `back_task_` owns until a `close_async` has moved it into an
awaiter of its own.  While the driver waits for a read or a write, the kernel will have it resumed,
whether its frame is still there or not: closing the descriptor does not cancel the operation.  What
nghttp2 and the kernel answer is part of the label.

The callers of `request` and `close_async` hold the session, so these are not called on a session
that is destroyed.  A driver that is resumed behind its destruction, or that of its session, is a
fault.
-/

namespace Ppnt.Native

abbrev DriverId := Nat

/-- Where a `background_driver` coroutine is suspended: in `connection_.read`, in a
    `connection_.write` of `flush_writes`, or at its end. -/
inductive DriverPhase where
  | reading
  | writing
  | finalSuspend
deriving DecidableEq, Repr

/-- The frame of a driver.  `parent` is that of its promise, the `close_async` that awaits it. -/
structure DriverFrame where
  phase : DriverPhase
  parent : Option CloserId := none
deriving DecidableEq, Repr

/-- Where a `close_async` is: suspended in the `co_await` of a driver, or returned. -/
inductive CloseCall where
  | awaiting (driver : DriverId)
  | returned
deriving DecidableEq, Repr

/-- What the driver finds when it is resumed.  `received` has the answer of
    `nghttp2_session_mem_recv`, and `wantsWrite` says whether there is something to write behind
    it. -/
inductive DriverInput where
  | readFailed
  | readEof
  | received (recvFailed wantsWrite : Bool)
  | writeFailed
  | written (wantsWrite : Bool)
deriving DecidableEq, Repr

/-- The operation that the input is a result of. -/
def DriverInput.phase : DriverInput → DriverPhase
  | .readFailed | .readEof | .received _ _ => .reading
  | .writeFailed | .written _ => .writing

structure H2Driver where
  alive : Bool
  connection : SocketState
  shouldClose : Bool
  backTask : Option DriverId
  frames : DriverId → Option DriverFrame
  nextDriver : DriverId
  /-- The drivers whose operation the kernel has not completed. -/
  inFlight : List DriverId
  closers : CloserId → Option CloseCall
  fault : Bool

inductive DriverLabel where
  | request
  | close
  | closeAsync (x : CloserId)
  | complete (d : DriverId) (input : DriverInput)
  | destroy
deriving DecidableEq, Repr

namespace H2Driver

def setFrame (σ : H2Driver) (d : DriverId) (frame : Option DriverFrame) : H2Driver :=
  { σ with frames := Function.update σ.frames d frame }

def setCloser (σ : H2Driver) (x : CloserId) (call : CloseCall) : H2Driver :=
  { σ with closers := Function.update σ.closers x (some call) }

/-- The driver awaits an operation. -/
def suspend (σ : H2Driver) (d : DriverId) (frame : DriverFrame) (phase : DriverPhase) : H2Driver :=
  { σ.setFrame d (some { frame with phase }) with inFlight := σ.inFlight ++ [d] }

/-- The driver ends.  A `close_async` that awaits it goes on, destroys the frame and returns. -/
def finish (σ : H2Driver) (d : DriverId) (frame : DriverFrame) : H2Driver :=
  match frame.parent with
  | none => σ.setFrame d (some { frame with phase := .finalSuspend })
  | some x => (σ.setFrame d none).setCloser x .returned

/-- `while (!should_close_)`, and the tear-down behind the loop. -/
def loop (σ : H2Driver) (d : DriverId) (frame : DriverFrame) : H2Driver :=
  if σ.shouldClose then σ.finish d frame else σ.suspend d frame .reading

/-- `should_close_ = true; break;` -/
def giveUp (σ : H2Driver) (d : DriverId) (frame : DriverFrame) : H2Driver :=
  { σ with shouldClose := true }.finish d frame

/-- `flush_writes` up to its next write, and the loop if there is none. -/
def flush (σ : H2Driver) (d : DriverId) (frame : DriverFrame) (wantsWrite : Bool) : H2Driver :=
  if wantsWrite then σ.suspend d frame .writing else σ.loop d frame

/-- The driver goes on. -/
def resume (σ : H2Driver) (d : DriverId) (frame : DriverFrame) : DriverInput → H2Driver
  | .readFailed | .readEof | .received true _ | .writeFailed => σ.giveUp d frame
  | .received false wantsWrite | .written wantsWrite => σ.flush d frame wantsWrite

/-- `should_close_ = true; connection_.close();` -/
def closeConnection (σ : H2Driver) : H2Driver :=
  { σ with shouldClose := true, connection := .closed }

/-- `if (!back_task_) back_task_ = io::spawn(background_driver());` -/
def ensureBackgroundDriver (σ : H2Driver) : H2Driver :=
  match σ.backTask with
  | some _ => σ
  | none =>
    { σ.loop σ.nextDriver ⟨.reading, none⟩ with
      backTask := some σ.nextDriver
      nextDriver := σ.nextDriver + 1 }

/-- `close_async` behind `connection_.close()`. -/
def joinDriver (σ : H2Driver) (x : CloserId) : H2Driver :=
  match σ.backTask with
  | none => σ.setCloser x .returned
  | some d =>
    -- `std::exchange(handle, nullptr)`
    let σ := { σ with backTask := none }
    match σ.frames d with
    | none => { σ with fault := true }
    | some frame =>
      -- `await_ready`
      if frame.phase = .finalSuspend then (σ.setFrame d none).setCloser x .returned
      else (σ.setFrame d (some { frame with parent := some x })).setCloser x (.awaiting d)

/-- `~Http2Session` and the destructor of `back_task_`. -/
def destructor (σ : H2Driver) : H2Driver :=
  { σ.closeConnection with
    alive := false
    backTask := none
    frames := fun d => if σ.backTask = some d then none else σ.frames d }

def act (σ : H2Driver) : DriverLabel → Option H2Driver
  | .request => if σ.alive then some σ.ensureBackgroundDriver else none
  | .close => if σ.alive then some σ.closeConnection else none
  | .closeAsync x =>
    if σ.alive ∧ σ.closers x = none then some (σ.closeConnection.joinDriver x) else none
  | .complete d input =>
    if d ∈ σ.inFlight then
      let σ := { σ with inFlight := σ.inFlight.erase d }
      match σ.frames d with
      | none => some { σ with fault := true }
      | some frame =>
        if input.phase ≠ frame.phase then none
        else if σ.alive then some (σ.resume d frame input)
        else some { σ with fault := true }
    else none
  | .destroy => if σ.alive then some σ.destructor else none

def step (σ : H2Driver) (l : DriverLabel) : Option H2Driver := if σ.fault then none else σ.act l

/-- A session behind its constructor. -/
def initial : H2Driver where
  alive := true
  connection := .opened
  shouldClose := false
  backTask := none
  frames _ := none
  nextDriver := 0
  inFlight := []
  closers _ := none
  fault := false

end H2Driver

end Ppnt.Native
