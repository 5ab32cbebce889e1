import Mathlib.Logic.Function.Basic

/-!
# Writes of an HTTP/2 session

Model of `Http2Session::flush_writes` (`ppnt-http/src/http2.ixx`) as a transition system.  It is
called by every `request` and by `background_driver`, so any number of calls runs on one session.

A step is what happens between two suspension points, or a transfer by the connection.  What
`nghttp2_session_mem_send` returns is part of the label: a buffer, or nothing.  nghttp2 reuses its
buffer with the next call of `mem_send`, so a write that is carried out behind that finds other
bytes there.  A write that is carried out accepts all its bytes.
-/

namespace Ppnt.Native

/-- A call of `flush_writes`. -/
abbrev FlushId := Nat

/-- Where a call is: suspended in a write of the buffer of a `mem_send`, with its number, not
    resumed yet although the write has been carried out, or returned. -/
inductive FlushPhase where
  | writing (data : List UInt8) (generation : Nat)
  | written
  | returned (success : Bool)
deriving DecidableEq, Repr

/-- `generation` counts the calls of `mem_send` that returned a buffer, `produced` is the
    concatenation of the buffers, and `output` what the connection has carried. -/
structure Http2Writer where
  generation : Nat
  calls : FlushId → Option FlushPhase
  produced : List UInt8
  output : List UInt8

inductive WriterLabel where
  | flush (c : FlushId) (next : Option (List UInt8))
  | transfer (c : FlushId) (stale : List UInt8)
  | resume (c : FlushId) (next : Option (List UInt8))
  | writeFailed (c : FlushId)
deriving DecidableEq, Repr

namespace Http2Writer

def setCall (σ : Http2Writer) (c : FlushId) (phase : FlushPhase) : Http2Writer :=
  { σ with calls := Function.update σ.calls c (some phase) }

/-- An iteration of the loop, up to its write.  Nothing is returned if the session does not want to
    write or `mem_send` has nothing. -/
def memSend (σ : Http2Writer) (c : FlushId) (next : Option (List UInt8)) : Http2Writer :=
  match next with
  | none => σ.setCall c (.returned true)
  | some data =>
    { σ with generation := σ.generation + 1, produced := σ.produced ++ data }.setCall c
      (.writing data (σ.generation + 1))

def step (σ : Http2Writer) : WriterLabel → Option Http2Writer
  | .flush c next =>
    if σ.calls c = none ∧ next ≠ some [] then some (σ.memSend c next) else none
  | .transfer c stale =>
    match σ.calls c with
    | some (.writing data generation) =>
      if stale.length = data.length then
        some ({ σ with
          output := σ.output ++ if generation = σ.generation then data else stale }.setCall c
            .written)
      else none
    | _ => none
  | .resume c next =>
    match σ.calls c with
    | some .written => if next ≠ some [] then some (σ.memSend c next) else none
    | _ => none
  | .writeFailed c =>
    match σ.calls c with
    | some (.writing _ _) => some (σ.setCall c (.returned false))
    | _ => none

/-- A new session. -/
def initial : Http2Writer where
  generation := 0
  calls _ := none
  produced := []
  output := []

end Http2Writer

end Ppnt.Native
