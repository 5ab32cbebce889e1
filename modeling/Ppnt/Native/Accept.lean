import Ppnt.Native.Driver

/-!
# The accept loop

Model of `run_accept_loop` and `prep_accept` (`ppnt-io/src/net/accept.ixx`, `accept.cpp`) on top of
the ring.  One entry asks for any number of connections: the kernel posts a completion for each, and
the entry stays in flight as long as the completions carry `IORING_CQE_F_MORE`.  All of them go to
the one `Operation` in the promise of the coroutine.

`io::spawn` starts the handler at once, so it runs inside the iteration of `run_one` that has
resumed the loop, until it suspends for the first time.  Meanwhile it may submit operations or start
other loops, and the kernel goes on, but `run_one` does not.  The socket is not modelled, and
neither is the rest of the handler's coroutine, which goes on like any other.
-/

namespace Ppnt.Native

/-- `IORING_CQE_F_MORE`. -/
def cqeFMore : UInt32 := 2

namespace AcceptLoop

/-- A coroutine of `run_accept_loop`. -/
structure Acceptor where
  handle : Handle
  /-- The descriptors that the handler has been called with. -/
  calls : List Int := []
deriving DecidableEq, Repr

structure State where
  ring : Ring
  /-- The acceptors, by the address of `promise->operation`. -/
  acceptors : Addr → Option Acceptor := fun _ => none
  /-- The acceptor whose handler is running, with its operation. -/
  serving : Option (Addr × Operation) := none

inductive Label where
  /-- A step of the ring, of a coroutine on it or of the kernel. -/
  | ring (l : RingLabel)
  /-- `run_accept_loop` up to its loop, at an operation of its promise. -/
  | runAcceptLoop (ptr : OperationPtr) (h : Handle)
  /-- `io::spawn` returns. -/
  | handlerReturns
deriving DecidableEq

/-- `prep_accept`. -/
def prepAccept (ring : Ring) (addr : Addr) (op : Operation) : Option (Ring × Operation) :=
  ring.submit addr op (.io false)

/-- The front of `run_accept_loop`. -/
def start (s : State) (ptr : OperationPtr) (h : Handle) : Option State := do
  let op : Operation := { handle := some h }
  let (ring, op) ← prepAccept s.ring ptr.addr op
  return { s with
    ring := ring.setOperation ptr.addr (some op)
    acceptors := Function.update s.acceptors ptr.addr (some { handle := h }) }

/-- The loop body up to the call of the handler: the descriptor.  The program terminates if the
    entry is no longer in flight or the result is an error. -/
def accepted (op : Operation) : Option Int :=
  if op.cqeFlags &&& cqeFMore = 0 then none
  else if op.result ≥ 0 then some op.result
  else none

/-- The loop body behind the call of the handler. -/
def rearm (op : Operation) (h : Handle) : Operation := { op.reset 0 with handle := some h }

/-- What a coroutine does that an iteration of `run_one` has resumed, if it is an acceptor. -/
def resume (s : State) (r : Resumption) : Option State :=
  match s.acceptors r.addr with
  | none => some s
  | some a =>
    (accepted r.operation).map fun fd =>
      { s with
        acceptors := Function.update s.acceptors r.addr (some { a with calls := a.calls ++ [fd] })
        serving := some (r.addr, r.operation) }

/-- One step.  `run_one` goes on when the handler has returned. -/
def step (s : State) : Label → Option State
  | .ring (.awaitSuspend ptr h timeoutMs bufferSelect) =>
    if s.acceptors ptr.addr = none then
      (s.ring.step (.awaitSuspend ptr h timeoutMs bufferSelect)).map fun ring =>
        { s with ring := ring }
    else none
  | .ring (.complete c) =>
    -- a multishot accept stays in flight as long as more completions follow
    if s.acceptors c.userData ≠ none ∧ c.flags &&& cqeFMore ≠ 0 then
      if s.ring.inFlight.contains c.userData then
        some { s with ring := { s.ring with cq := s.ring.cq ++ [c] } }
      else none
    else (s.ring.step (.complete c)).map fun ring => { s with ring := ring }
  | .ring (.cqe c) =>
    if s.serving = none then do
      let ring ← s.ring.step (.cqe c)
      match (ring.resumed.drop s.ring.resumed.length).head? with
      | none => return { s with ring := ring }
      | some r => resume { s with ring := ring } r
    else none
  | .ring l =>
    if s.serving = none then (s.ring.step l).map fun ring => { s with ring := ring } else none
  | .runAcceptLoop ptr h =>
    if ptr ≠ s.ring.evOp ∧ s.ring.operations ptr.addr = none ∧ s.acceptors ptr.addr = none then
      start s ptr h
    else none
  | .handlerReturns =>
    match s.serving with
    | none => none
    | some (addr, op) =>
      (s.acceptors addr).map fun a =>
        { s with ring := s.ring.setOperation addr (some (rearm op a.handle)), serving := none }

/-- A ring behind its constructor. -/
def initial (evOp : OperationPtr) (entries : Nat) : State where
  ring := .initial evOp entries

end AcceptLoop

end Ppnt.Native
