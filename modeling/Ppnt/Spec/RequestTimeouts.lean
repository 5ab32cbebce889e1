import Mathlib.Data.List.Induction
import Ppnt.Native.RequestPipeline

/-!
# The timeouts of a request

A move of an `HttpRequest` carries four of its five members.  `timeoutBehind` is what becomes of the
fifth one.
-/

namespace Ppnt.Spec

open Ppnt.Native

/-! ## Moves -/

/-- A move keeps everything but the timeouts. -/
private theorem apply_toOutgoingRequest (r : TimedRequest) (move : RequestMove) :
    (move.apply r).toOutgoingRequest = r.toOutgoingRequest := by
  cases move <;> rfl

theorem moved_toOutgoingRequest (r : TimedRequest) (moves : List RequestMove) :
    (r.moved moves).toOutgoingRequest = r.toOutgoingRequest := by
  induction moves generalizing r with
  | nil => rfl
  | cons move moves ih => exact (ih (move.apply r)).trans (apply_toOutgoingRequest r move)

/-- The timeouts behind some moves: only the last move matters. -/
def timeoutBehind (r : TimedRequest) (moves : List RequestMove) : HttpTimeout :=
  match moves.getLast? with
  | none => r.timeout
  | some .construct => {}
  | some (.assign self) => self.timeout

theorem moved_timeout (r : TimedRequest) (moves : List RequestMove) :
    (r.moved moves).timeout = timeoutBehind r moves := by
  induction moves using List.reverseRecOn with
  | nil => rfl
  | append_singleton moves move _ =>
    rw [TimedRequest.moved, List.foldl_append, timeoutBehind, List.getLast?_concat]
    cases move <;> rfl

/-- The last move of a client is a construction, whatever a compiler leaves out. -/
private theorem timeoutBehind_clientMoves (r : TimedRequest) (moves : List RequestMove)
    (copied : Bool × Bool × Bool) : timeoutBehind r (moves ++ clientMoves copied) = {} := by
  obtain ⟨first, second, third⟩ := copied
  have hlast : (moves ++ clientMoves (first, second, third)).getLast? = some .construct := by
    rw [clientMoves]
    cases third <;> simp [frameCopy, ← List.append_assoc, List.getLast?_append]
  rw [timeoutBehind, hlast]

/-! ## Operations -/

section Operations

variable {P : Llhttp} {σ : Type} (timeoutMs : UInt32) (L : StartLine σ) (m : Cb)

/-- The traced loop is the loop. -/
theorem tracedReadUntil_fst (s : H1Session P σ) (reads : List Read) :
    (s.tracedReadUntil timeoutMs L m reads).1 = s.readUntil L m reads := by
  induction reads generalizing s with
  | nil =>
    unfold H1Session.tracedReadUntil H1Session.readUntil
    split <;> rfl
  | cons read reads ih =>
    unfold H1Session.tracedReadUntil H1Session.readUntil
    split
    · rfl
    · cases read with
      | error e => rfl
      | ok bytes =>
        simp only
        split
        · rfl
        · obtain ⟨s', errno⟩ := s.execute L bytes
          cases errno with
          | ok => exact ih s'
          | error name => rfl

/-- A read loop only reads, each time with the timeout of the call. -/
theorem eq_read_of_mem {s : H1Session P σ} {reads : List Read} {op : ConnectionOp}
    (h : op ∈ (s.tracedReadUntil timeoutMs L m reads).2) : op = .read timeoutMs := by
  induction reads generalizing s with
  | nil =>
    unfold H1Session.tracedReadUntil at h
    split at h
    · simp at h
    · exact List.mem_singleton.mp h
  | cons read reads ih =>
    unfold H1Session.tracedReadUntil at h
    split at h
    · simp at h
    · cases read with
      | error e => exact List.mem_singleton.mp h
      | ok bytes =>
        simp only at h
        split at h
        · exact List.mem_singleton.mp h
        · split at h
          · rcases List.mem_cons.mp h with hfirst | hrest
            · exact hfirst
            · exact ih hrest
          · exact List.mem_singleton.mp h

end Operations

/-- The operations of an exchange are those that `r` asks for. -/
def ExchangeFor (r : TimedRequest) (ops : List ConnectionOp) : Prop :=
  ∀ op ∈ ops, match op with
    | .write payload timeoutMs => payload = r.serializeToH1 ∧ timeoutMs = r.timeout.writeTimeout
    | .read timeoutMs => timeoutMs = r.timeout.readTimeout

/-- Whatever the connection does, the operations have the timeouts of the request that arrives. -/
private theorem exchangeFor_iff (P : Llhttp) {r arrived : TimedRequest}
    (hsame : arrived.toOutgoingRequest = r.toOutgoingRequest) :
    (∀ written reads, ExchangeFor r (Http1Session.requestOps P arrived written reads)) ↔
      arrived.timeout.writeTimeout = r.timeout.writeTimeout ∧
        arrived.timeout.readTimeout = r.timeout.readTimeout := by
  constructor
  · intro h
    -- a connection that is closed at once: one write and one read
    have hops := h (.ok ()) []
    have hwrite := hops (.write arrived.serializeToH1 arrived.timeout.writeTimeout) (by
      simp [Http1Session.requestOps])
    have hread := hops (.read arrived.timeout.readTimeout) (by
      unfold Http1Session.requestOps H1Session.tracedReadUntil
      simp [H1Session.flag, H1Session.resetState])
    exact ⟨hwrite.2, hread⟩
  · rintro ⟨hwrite, hread⟩ written reads op hop
    rcases List.mem_cons.mp hop with rfl | hloop
    · exact ⟨by rw [hsame], hwrite⟩
    · cases written with
      | error e => simp at hloop
      | ok _ =>
        obtain rfl := eq_read_of_mem _ _ _ hloop
        exact hread

/-- The timeouts of a request are used exactly if the last move on its way does not lose them;
    through a client the default timeouts are used.  The bytes are those of the original request. -/
theorem request_timeouts_iff (P : Llhttp) (r : TimedRequest) (moves : List RequestMove) :
    ((∀ written reads, ExchangeFor r (Http1Session.requestOps P (r.moved moves) written reads)) ↔
      (timeoutBehind r moves).writeTimeout = r.timeout.writeTimeout ∧
        (timeoutBehind r moves).readTimeout = r.timeout.readTimeout) ∧
    (∀ copied, (∀ written reads, ExchangeFor r
        (Http1Session.requestOps P (r.moved (moves ++ clientMoves copied)) written reads)) ↔
      r.timeout.writeTimeout = 5000 ∧ r.timeout.readTimeout = 5000) ∧
    (∀ write, sendRequest (r.moved moves).toOutgoingRequest write =
      sendRequest r.toOutgoingRequest write) ∧
    (r.moved moves = r ↔ timeoutBehind r moves = r.timeout) := by
  have hsame := moved_toOutgoingRequest r
  refine ⟨?_, fun copied => ?_, fun write => by rw [hsame], ?_⟩
  · rw [exchangeFor_iff P (hsame moves), moved_timeout]
  · rw [exchangeFor_iff P (hsame _), moved_timeout, timeoutBehind_clientMoves]
    exact and_congr eq_comm eq_comm
  · rw [← moved_timeout]
    constructor
    · exact fun h => congrArg TimedRequest.timeout h
    · intro h
      have hrequest := hsame moves
      generalize r.moved moves = arrived at h hrequest
      cases arrived
      cases r
      simp_all

/-- A request with timeouts of 100 ms and 200 ms reaches the session with the defaults, and is
    written and read with 5 s. -/
theorem timeouts_lost :
    let P : Llhttp := ⟨Unit, (), fun _ _ => ((), [], .ok), fun _ => []⟩
    let r : TimedRequest := { url := {}, timeout := ⟨5000, 200, 100⟩ }
    let ops := Http1Session.requestOps P (r.moved (clientMoves (true, true, true))) (.ok ()) []
    ops = [.write r.serializeToH1 5000, .read 5000] ∧ ¬ExchangeFor r ops ∧
      r.moved [.construct] ≠ r := by
  intro P r ops
  have hops : ops = [.write r.serializeToH1 5000, .read 5000] := by decide +kernel
  refine ⟨hops, fun h => ?_, by decide⟩
  have hread := h (.read 5000) (by simp [hops])
  exact absurd hread (by decide)

end Ppnt.Spec
