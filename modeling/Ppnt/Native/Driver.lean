import Mathlib.Logic.Function.Basic

/-!
# The io_uring driver

Model of `Operation` and of `Ring::submit` and `Ring::run_one` from `ppnt-io/src/driver.ixx` and
`driver.cpp`, and of `AsyncOp` from `ops.ixx`.

A ring is a state with the submission queue, the entries that the kernel has not completed and the
completion queue.  `Ring.step` is one step of the ring thread, of a coroutine on it or of the
kernel: any list of steps is a run, whichever coroutines there are and however completions are
spread over calls of `run_one`.  What runs between two completions is left open: a resumed coroutine
shows in the log `resumed`, and what it awaits next is a step of its own.

`libc::e_time` and `libc::e_canceled` have their values on Linux.  The tasks that `run_one` takes
from other threads are in the model of `Ring::post`.
-/

namespace Ppnt.Native

def eTime : Int := 62

def eCanceled : Int := 125

/-- `IORING_CQE_F_BUFFER`. -/
def cqeFBuffer : UInt32 := 1

/-- `std::uintptr_t`. -/
abbrev Addr := BitVec 64

/-- A `std::coroutine_handle<>` other than null. -/
abbrev Handle := Nat

/-- `__kernel_timespec`. -/
structure Timespec where
  tvSec : Nat
  tvNsec : Nat
deriving DecidableEq, Repr

/-! ## Operations -/

/-- The union of an operation. -/
inductive Timer where
  | timeoutMs (ms : UInt32)
  | ts (ts : Timespec)
deriving DecidableEq, Repr

/-- `timeout_ms` of the union, which shares its bytes with the low half of `tv_sec`. -/
def Timer.ms : Timer → UInt32
  | .timeoutMs ms => ms
  | .ts t => UInt32.ofNat t.tvSec

structure Operation where
  handle : Option Handle := none
  result : Int := 0
  bid : UInt16 := 0
  refCount : UInt8 := 1
  flags : UInt8 := 0
  cqeFlags : UInt32 := 0
  timer : Timer := .timeoutMs 0
deriving DecidableEq, Repr

/-- A completion queue entry. -/
structure Cqe where
  userData : Addr
  res : Int
  flags : UInt32 := 0
deriving DecidableEq, Repr

/-- `is_timeout_cqe` -/
def Cqe.isTimeoutCqe (cqe : Cqe) : Bool := cqe.userData &&& 1#64 ≠ 0#64

/-- The address of the operation. -/
def Cqe.op (cqe : Cqe) : Addr := cqe.userData &&& ~~~1#64

namespace Operation

def fHasBuffer : UInt8 := 1

def fIsLinked : UInt8 := 2

def reset (op : Operation) (tMs : UInt32) : Operation :=
  { op with
    handle := none, result := 0, bid := 0, refCount := 1, flags := 0, timer := .timeoutMs tMs }

/-- What `run_one` does to the operation of a completion. -/
def onCqe (op : Operation) (isTimeoutCqe : Bool) (cqe : Cqe) : Operation :=
  let op :=
    if isTimeoutCqe then
      if cqe.res = -eTime then { op with result := -eTime } else op
    else
      let op := { op with cqeFlags := cqe.flags }
      if cqe.res ≠ -eCanceled then
        let op := { op with result := cqe.res }
        if cqe.flags &&& cqeFBuffer ≠ 0 then
          { op with bid := (cqe.flags >>> 16).toUInt16, flags := op.flags ||| fHasBuffer }
        else op
      else op
  { op with refCount := op.refCount - 1 }

/-- The coroutine that is resumed behind the decrement. -/
def woken (op : Operation) : Option Handle :=
  if op.refCount = 0 then op.handle else none

end Operation

/-- The address of an `Operation`, which is `alignas(8)`. -/
structure OperationPtr where
  addr : Addr
  aligned : addr &&& 7#64 = 0#64
  ne_null : addr ≠ 0#64
deriving DecidableEq

/-! ## The ring -/

/-- What an entry asks for: what `prep` sets up, or one of the driver's own requests. -/
inductive Opcode where
  | io (bufferSelect : Bool)
  | linkTimeout (ts : Timespec)
  | eventfdRead
  | provideBuffers (bid : UInt16)
deriving DecidableEq, Repr

/-- A submission queue entry. -/
structure Sqe where
  userData : Addr
  ioLink : Bool := false
  opcode : Opcode
deriving DecidableEq, Repr

/-- A coroutine that continues behind its `co_await`, with the operation as `await_resume` finds
    it. -/
structure Resumption where
  addr : Addr
  handle : Handle
  operation : Operation
deriving DecidableEq, Repr

structure Ring where
  /-- `&ev_op_` -/
  evOp : OperationPtr
  /-- The size of the submission queue. -/
  entries : Nat
  /-- The operations in the frames of suspended coroutines. -/
  operations : Addr → Option Operation
  /-- Queued entries that are not submitted yet. -/
  sq : List Sqe
  /-- The user data of submitted entries that are not completed. -/
  inFlight : List Addr
  cq : List Cqe
  /-- `need_rearm`, while `run_one` is running. -/
  needRearm : Option Bool
  resumed : List Resumption

namespace Ring

def setOperation (σ : Ring) (addr : Addr) (op : Option Operation) : Ring :=
  { σ with operations := Function.update σ.operations addr op }

/-- `io_uring_submit`. -/
def ioUringSubmit (σ : Ring) : Ring :=
  { σ with sq := [], inFlight := σ.inFlight ++ σ.sq.map (·.userData) }

/-- `io_uring_get_sqe`, with the entry that is filled in. -/
def getSqe (σ : Ring) (sqe : Sqe) : Option Ring :=
  if σ.sq.length < σ.entries then some { σ with sq := σ.sq ++ [sqe] } else none

/-- `io_uring_get_sqe`, again after a submission if there is no entry.  The program terminates if
    there is none then. -/
def getSqeOrSubmit (σ : Ring) (sqe : Sqe) : Option Ring :=
  (σ.getSqe sqe).or (σ.ioUringSubmit.getSqe sqe)

/-- `submit`.  There is no result if the program terminates, or writes through the entry of the
    timeout when there is none. -/
def submit (σ : Ring) (addr : Addr) (op : Operation) (prep : Opcode) :
    Option (Ring × Operation) := do
  let ms := op.timer.ms
  let σ ← σ.getSqeOrSubmit { userData := addr, ioLink := ms > 0, opcode := prep }
  if ms > 0 then
    let ts : Timespec := ⟨ms.toNat / 1000, ms.toNat % 1000 * 1000000⟩
    let σ ← σ.getSqe { userData := addr ||| 1#64, opcode := .linkTimeout ts }
    return (σ, { op with
      timer := .ts ts, refCount := 2, flags := op.flags ||| Operation.fIsLinked })
  else return (σ, op)

/-- `arm_eventfd_read`. -/
def armEventfdRead (σ : Ring) : Option Ring :=
  σ.getSqeOrSubmit { userData := σ.evOp.addr, opcode := .eventfdRead }

/-- The loop body of `run_one`, with the coroutine that it resumes. -/
def onCqe (σ : Ring) (cqe : Cqe) : Ring × Option Resumption :=
  let addr := cqe.op
  if addr = σ.evOp.addr then ({ σ with needRearm := some true }, none)
  else if addr ≠ 0#64 then
    match σ.operations addr with
    -- an operation that is gone: `Spec.RingInv` rules it out
    | none => (σ, none)
    | some op =>
      let op := op.onCqe cqe.isTimeoutCqe cqe
      match op.woken with
      | some h => (σ.setOperation addr none, some ⟨addr, h, op⟩)
      | none => (σ.setOperation addr (some op), none)
  else (σ, none)

end Ring

/-! ## Awaiters -/

namespace AsyncOp

/-- `operation_` of a new `AsyncOp`, or of a new `AsyncBufferOp`. -/
def operation (timeoutMs : UInt32) : Operation := ({} : Operation).reset timeoutMs

def awaitResume (op : Operation) : Int := op.result

end AsyncOp

/-! ## Steps -/

inductive RingLabel where
  /-- A coroutine awaits a new operation: `await_suspend`. -/
  | awaitSuspend (ptr : OperationPtr) (h : Handle) (timeoutMs : UInt32) (bufferSelect : Bool)
  /-- The kernel completes an entry. -/
  | complete (cqe : Cqe)
  /-- `run_one` up to its loop. -/
  | runOne
  /-- One iteration of the loop. -/
  | cqe (cqe : Cqe)
  /-- `run_one` behind its loop. -/
  | cqAdvance
deriving DecidableEq

namespace Ring

def awaitSuspend (σ : Ring) (ptr : OperationPtr) (h : Handle) (timeoutMs : UInt32)
    (bufferSelect : Bool) : Option Ring := do
  let op := { AsyncOp.operation timeoutMs with handle := some h }
  let (σ, op) ← σ.submit ptr.addr op (.io bufferSelect)
  return σ.setOperation ptr.addr (some op)

/-- One step.  A new operation is not where `ev_op_` or another suspended coroutine's operation is.
    The kernel completes each entry once, and `run_one` takes the completions in order. -/
def step (σ : Ring) : RingLabel → Option Ring
  | .awaitSuspend ptr h timeoutMs bufferSelect =>
    if ptr ≠ σ.evOp ∧ σ.operations ptr.addr = none then
      σ.awaitSuspend ptr h timeoutMs bufferSelect
    else none
  | .complete cqe =>
    if cqe.userData ∈ σ.inFlight then
      some { σ with inFlight := σ.inFlight.erase cqe.userData, cq := σ.cq ++ [cqe] }
    else none
  | .runOne =>
    if σ.needRearm = none then some { σ.ioUringSubmit with needRearm := some false } else none
  | .cqe cqe =>
    match σ.needRearm, σ.cq with
    | some _, c :: rest =>
      if c = cqe then
        let (τ, resumption) := { σ with cq := rest }.onCqe cqe
        some { τ with resumed := τ.resumed ++ resumption.toList }
      else none
    | _, _ => none
  | .cqAdvance =>
    match σ.needRearm with
    | some true => ({ σ with needRearm := none } : Ring).armEventfdRead
    | some false => some { σ with needRearm := none }
    | none => none

/-- A ring behind its constructor. -/
def initial (evOp : OperationPtr) (entries : Nat) : Ring where
  evOp := evOp
  entries := entries
  operations _ := none
  sq := [{ userData := evOp.addr, opcode := .eventfdRead }]
  inFlight := []
  cq := []
  needRearm := none
  resumed := []

end Ring

end Ppnt.Native
