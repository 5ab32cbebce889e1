import Ppnt.Native.Driver

/-!
# Provided buffers

Model of `IOResult` and `AsyncBufferOp` from `ppnt-io/src/ops.ixx`, and of `Ring::get_buffer` and
`Ring::recycle_buffer` from `driver.cpp`.

`BufferState` adds the buffers and the live `IOResult` objects to the ring.  A coroutine that
`async_recv_bs` suspended gets its `IOResult` in the step that resumes it.  What it does with the
object is steps of its own: moves, move-assignments and the destructor.

The kernel selects a buffer when it completes a receive.  What is assumed of it is
`BufferState.allows`: it selects available buffers only, only for a receive that asks for one and
only with a result that is not negative; and a timeout only expires if it cancels its receive.
-/

namespace Ppnt.Native

/-- `Ring::BUF_SIZE`. -/
def bufSize : Nat := 4096

/-- `Ring::BUF_COUNT`. -/
def bufCount : Nat := 512

def allBuffers : List UInt16 := (List.range bufCount).map UInt16.ofNat

/-- `get_buffer`, as the offset in `buffer_mem_`. -/
def getBuffer (bid : UInt16) : Nat := bid.toNat * bufSize

/-- The entry selected a buffer. -/
def Cqe.hasBuffer (cqe : Cqe) : Bool := cqe.flags &&& cqeFBuffer ≠ 0

def Cqe.bid (cqe : Cqe) : UInt16 := (cqe.flags >>> 16).toUInt16

structure IoResult where
  result : Int := 0
  buffer : Option Nat := none
  bid : UInt16 := 0
deriving DecidableEq, Repr

/-- The move constructor: the new object and the old one. -/
def IoResult.moved (other : IoResult) : IoResult × IoResult :=
  (⟨other.result, other.buffer, other.bid⟩, { other with buffer := none })

/-- `AsyncBufferOp::await_resume`. -/
def AsyncBufferOp.awaitResume (op : Operation) : IoResult :=
  if op.result ≥ 0 ∧ op.flags &&& Operation.fHasBuffer ≠ 0 then
    { result := op.result, buffer := some (getBuffer op.bid), bid := op.bid }
  else { result := op.result }

/-- An `IOResult` object. -/
abbrev ResultId := Nat

structure BufferState where
  ring : Ring
  /-- `using_buf_ring_` -/
  usingBufRing : Bool
  /-- The buffers that the kernel has, with those in the queue of entries to it. -/
  available : List UInt16
  results : ResultId → Option IoResult
  /-- The operation is a receive that asks for a buffer. -/
  bufferSelect : Addr → Bool
  /-- With what the kernel completed the entry of an operation. -/
  ioRes : Addr → Option Int
  /-- With what it completed the timeout. -/
  timeoutRes : Addr → Option Int

inductive BufferLabel where
  | awaitSuspend (ptr : OperationPtr) (h : Handle) (timeoutMs : UInt32) (bufferSelect : Bool)
  | complete (cqe : Cqe)
  | runOne
  /-- An iteration of `run_one`.  If it resumes a receive, the result is the object `i`. -/
  | cqe (cqe : Cqe) (i : ResultId)
  | cqAdvance
  /-- `IOResult()` -/
  | construct (i : ResultId)
  /-- `IOResult(IOResult &&other)` -/
  | moveConstruct (i other : ResultId)
  /-- `operator=(IOResult &&other)` -/
  | moveAssign (i other : ResultId)
  /-- `~IOResult()` -/
  | destroy (i : ResultId)
deriving DecidableEq

namespace BufferState

/-- What the kernel is assumed to do. -/
def allows (σ : BufferState) (cqe : Cqe) : Bool :=
  (!cqe.hasBuffer || (!cqe.isTimeoutCqe && σ.bufferSelect cqe.op && cqe.res ≥ 0 &&
    σ.available.contains cqe.bid)) &&
  if cqe.isTimeoutCqe then
    cqe.res ≠ -eTime || σ.ioRes cqe.op = none || σ.ioRes cqe.op = some (-eCanceled)
  else σ.timeoutRes cqe.op ≠ some (-eTime) || cqe.res = -eCanceled

def setResult (σ : BufferState) (i : ResultId) (r : Option IoResult) : BufferState :=
  { σ with results := Function.update σ.results i r }

/-- `recycle_buffer`: into the buffer ring, or with an entry of the submission queue. -/
def recycleBuffer (σ : BufferState) (bid : UInt16) : Option BufferState :=
  if σ.usingBufRing then some { σ with available := σ.available ++ [bid] }
  else
    (σ.ring.getSqeOrSubmit { userData := 0#64, opcode := .provideBuffers bid }).map fun ring =>
      { σ with ring, available := σ.available ++ [bid] }

/-- `if (buffer) Ring::current().recycle_buffer(bid);` -/
def recycle (σ : BufferState) (r : IoResult) : Option BufferState :=
  if r.buffer ≠ none then σ.recycleBuffer r.bid else some σ

/-- The ring with the completion of the kernel. -/
def onComplete (σ : BufferState) (ring : Ring) (cqe : Cqe) : BufferState :=
  let σ := { σ with
    ring
    available := if cqe.hasBuffer then σ.available.erase cqe.bid else σ.available }
  if cqe.isTimeoutCqe then
    { σ with timeoutRes := Function.update σ.timeoutRes cqe.op (some cqe.res) }
  else { σ with ioRes := Function.update σ.ioRes cqe.op (some cqe.res) }

/-- The ring behind an iteration of `run_one`, with the result of the receive that it resumes. -/
def onCqe (σ : BufferState) (ring : Ring) (i : ResultId) : BufferState :=
  match ring.resumed.drop σ.ring.resumed.length with
  | r :: _ =>
    if σ.bufferSelect r.addr then
      { σ with ring }.setResult i (some (AsyncBufferOp.awaitResume r.operation))
    else { σ with ring }
  | [] => { σ with ring }

def step (σ : BufferState) : BufferLabel → Option BufferState
  | .awaitSuspend ptr h timeoutMs bufferSelect =>
    (σ.ring.step (.awaitSuspend ptr h timeoutMs bufferSelect)).map fun ring =>
      { σ with
        ring
        bufferSelect := Function.update σ.bufferSelect ptr.addr bufferSelect
        ioRes := Function.update σ.ioRes ptr.addr none
        timeoutRes := Function.update σ.timeoutRes ptr.addr none }
  | .complete cqe =>
    if σ.allows cqe then (σ.ring.step (.complete cqe)).map fun ring => σ.onComplete ring cqe
    else none
  | .runOne => (σ.ring.step .runOne).map fun ring => { σ with ring }
  | .cqe cqe i =>
    if σ.results i = none then (σ.ring.step (.cqe cqe)).map fun ring => σ.onCqe ring i else none
  | .cqAdvance => (σ.ring.step .cqAdvance).map fun ring => { σ with ring }
  | .construct i => if σ.results i = none then some (σ.setResult i (some {})) else none
  | .moveConstruct i other =>
    match σ.results i, σ.results other with
    | none, some r => some ((σ.setResult i (some r.moved.1)).setResult other (some r.moved.2))
    | _, _ => none
  | .moveAssign i other =>
    match σ.results i, σ.results other with
    | some r, some r' =>
      -- `this != &other`
      if i = other then some σ
      else (σ.recycle r).map fun σ =>
        (σ.setResult i (some r'.moved.1)).setResult other (some r'.moved.2)
    | _, _ => none
  | .destroy i =>
    match σ.results i with
    | some r => (σ.recycle r).map (·.setResult i none)
    | none => none

/-- A ring behind its constructor, which gives the kernel all buffers: in the buffer ring, or with
    an entry that it submits. -/
def initial (evOp : OperationPtr) (entries : Nat) (usingBufRing : Bool) : BufferState where
  ring := { Ring.initial evOp entries with inFlight := if usingBufRing then [] else [0#64] }
  usingBufRing := usingBufRing
  available := allBuffers
  results _ := none
  bufferSelect _ := false
  ioRes _ := none
  timeoutRes _ := none

end BufferState

end Ppnt.Native
