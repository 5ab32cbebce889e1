import Mathlib.Logic.Function.Basic

/-!
# TLS streams

Model of `run_ssl_op`, `flush_bio_to_tcp` and `fill_bio_from_tcp` of `TlsStream`
(`ppnt-io/src/net/ssl.ixx`) with `TcpStream::write_all` inside, as a transition system.  `read`,
`write`, `handshake` and `shutdown` are all `run_ssl_op` with another operation, and any number of
them runs on one stream.

A step is what happens between two suspension points, or a transfer by the kernel: a write that has
been submitted reads its bytes from the memory of `io_buffer_` when it is carried out.  What the SSL
library, the kernel and the peer do is part of the label: which bytes an operation puts into the BIO
and what it returns, and how many bytes a write accepts.
-/

namespace Ppnt.Native

/-- A call of `run_ssl_op`. -/
abbrev TlsCallId := Nat

/-- What an operation returns: a positive number, or what `SSL_get_error` makes of it. -/
inductive SslOutcome where
  | done
  | wantRead
  | wantWrite
  | zeroReturn
  | failed
deriving DecidableEq, Repr

/-- Where a call is.  `ready` is in front of an operation; `writing n total` is suspended in a write
    of the bytes `total` to `n` of `io_buffer_`, and in `written n total` the kernel has carried out
    that write, so that `total` bytes have been accepted by now; `filling` is suspended in
    `read_bs`. -/
inductive TlsPhase where
  | ready
  | writing (n total : Nat) (outcome : SslOutcome)
  | written (n total : Nat) (outcome : SslOutcome)
  | filling
  | returned
deriving DecidableEq, Repr

/-- `bio` is what `BIO_read` on `network_bio_` finds.  `produced` is everything that SSL has put
    there, and `output` everything that the inner stream has been handed. -/
structure TlsStream where
  bio : List UInt8
  ioBuffer : List UInt8
  calls : TlsCallId → Option TlsPhase
  produced : List UInt8
  output : List UInt8

inductive TlsLabel where
  | op (c : TlsCallId) (bytes : List UInt8) (outcome : SslOutcome)
  | transfer (c : TlsCallId) (k : Nat)
  | resume (c : TlsCallId)
  | writeFailed (c : TlsCallId)
  | filled (c : TlsCallId) (success : Bool)
deriving DecidableEq, Repr

/-- The sizes of `io_buffer_` and of the BIO. -/
def ioBufferSize : Nat := 16384

namespace TlsStream

def setCall (σ : TlsStream) (c : TlsCallId) (phase : TlsPhase) : TlsStream :=
  { σ with calls := Function.update σ.calls c (some phase) }

/-- `run_ssl_op` behind `flush_bio_to_tcp`. -/
def afterFlush : SslOutcome → TlsPhase
  | .wantRead => .filling
  | .wantWrite => .ready
  | .done | .zeroReturn | .failed => .returned

/-- An iteration of `flush_bio_to_tcp`, up to its first write. -/
def flushBioToTcp (σ : TlsStream) (c : TlsCallId) (outcome : SslOutcome) : TlsStream :=
  if σ.bio = [] then σ.setCall c (afterFlush outcome)
  else
    let data := σ.bio.take ioBufferSize
    { σ with
      bio := σ.bio.drop ioBufferSize
      ioBuffer := data ++ σ.ioBuffer.drop data.length }.setCall c (.writing data.length 0 outcome)

def step (σ : TlsStream) : TlsLabel → Option TlsStream
  | .op c bytes outcome =>
    if (σ.calls c = none ∨ σ.calls c = some .ready) ∧
        σ.bio.length + bytes.length ≤ ioBufferSize then
      some ({ σ with bio := σ.bio ++ bytes, produced := σ.produced ++ bytes }.flushBioToTcp c
        outcome)
    else none
  | .transfer c k =>
    match σ.calls c with
    | some (.writing n total outcome) =>
      if 1 ≤ k ∧ total + k ≤ n then
        some ({ σ with output := σ.output ++ ((σ.ioBuffer.take n).drop total).take k }.setCall c
          (.written n (total + k) outcome))
      else none
    | _ => none
  | .resume c =>
    match σ.calls c with
    | some (.written n total outcome) =>
      -- `write_all` goes on with the rest, or `flush_bio_to_tcp` with what is in the BIO by now
      if total < n then some (σ.setCall c (.writing n total outcome))
      else some (σ.flushBioToTcp c outcome)
    | _ => none
  | .writeFailed c =>
    -- or the write accepts nothing
    match σ.calls c with
    | some (.writing _ _ _) => some (σ.setCall c .returned)
    | _ => none
  | .filled c success =>
    match σ.calls c with
    | some .filling => some (σ.setCall c (if success then .ready else .returned))
    | _ => none

/-- A new stream. -/
def initial : TlsStream where
  bio := []
  ioBuffer := List.replicate ioBufferSize 0
  calls _ := none
  produced := []
  output := []

end TlsStream

end Ppnt.Native
