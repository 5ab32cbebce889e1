import Ppnt.ForStd.Pipe
import Ppnt.ForStd.Run
import Ppnt.Native.TlsStream

/-!
# The output of a TLS stream

All calls on a `TlsStream` share `io_buffer_`, and `flush_bio_to_tcp` suspends between filling it
and having written it.  As long as no operation leaves bytes in the BIO while a write is pending
(`Exclusive`), the stream is a pipe from the BIO to the inner stream.
-/

namespace Ppnt.Spec

open Ppnt.Native

/-- What the write of a call still has to hand over. -/
def TlsPhase.remaining (ioBuffer : List UInt8) : TlsPhase → Option (List UInt8)
  | .writing n total _ | .written n total _ => some ((ioBuffer.take n).drop total)
  | .ready | .filling | .returned => none

/-- What the pending write of a call still has to hand over. -/
def remaining (σ : TlsStream) (c : TlsCallId) : Option (List UInt8) :=
  (σ.calls c).bind (TlsPhase.remaining σ.ioBuffer)

/-- No write fails, and an operation leaves bytes in the BIO only while no write is pending. -/
def Exclusive (σ : TlsStream) : TlsLabel → Prop
  | .op _ bytes _ => σ.bio ++ bytes = [] ∨ ∀ c, remaining σ c = none
  | .writeFailed _ => False
  | _ => True

/-- The stream stands for a pipe. -/
structure Carries (σ : TlsStream) (p : Pipe UInt8) : Prop where
  queue : p.queue = σ.bio
  output : p.output = σ.output
  produced : p.produced = σ.produced
  held : p.HeldBy (remaining σ)

section Step

variable {σ : TlsStream} {p : Pipe UInt8} {c : TlsCallId}

private theorem remaining_setCall (σ : TlsStream) (c c' : TlsCallId) (phase : TlsPhase) :
    remaining (σ.setCall c phase) c' =
      if c' = c then TlsPhase.remaining σ.ioBuffer phase else remaining σ c' := by
  simp only [remaining, TlsStream.setCall, Function.update_apply]
  split <;> rfl

/-- A write that is not pending is not pending in any memory. -/
private theorem remaining_eq_none (ioBuffer : List UInt8) {c : TlsCallId}
    (h : remaining σ c = none) : (σ.calls c).bind (TlsPhase.remaining ioBuffer) = none := by
  unfold remaining at h
  rcases hc : σ.calls c with - | phase
  · rfl
  · rw [hc] at h
    cases phase <;> first | rfl | simp [TlsPhase.remaining] at h

/-- A call whose write is pending neither before nor behind the step. -/
private theorem Carries.setCall (h : Carries σ p) {phase : TlsPhase}
    (hphase : TlsPhase.remaining σ.ioBuffer phase = none) (hself : remaining σ c = none) :
    Carries (σ.setCall c phase) p := by
  have hsame : ∀ c', remaining (σ.setCall c phase) c' = remaining σ c' := by
    intro c'
    rw [remaining_setCall]
    split
    case isTrue heq => rw [hphase, heq, hself]
    case isFalse => rfl
  exact ⟨h.queue, h.output, h.produced, h.held.congr hsame⟩

private theorem Carries.produce (h : Carries σ p) (bytes : List UInt8) :
    Carries { σ with bio := σ.bio ++ bytes, produced := σ.produced ++ bytes } (p.produce bytes) :=
  ⟨by simp [Pipe.produce, h.queue], h.output, by simp [h.produced],
    h.held.loaded, h.held.idle, h.held.unique⟩

/-- When nothing is loaded and no other write is pending, a flush loads the pipe. -/
private theorem carries_flush (h : Carries σ p) (hloaded : p.loaded = [])
    (hother : ∀ c', c' ≠ c → remaining σ c' = none) (outcome : SslOutcome) :
    ∃ p', Carries (σ.flushBioToTcp c outcome) p' := by
  unfold TlsStream.flushBioToTcp
  split
  case isTrue =>
    refine ⟨p, h.queue, h.output, h.produced, .of_single (c := c) (fun c' hne => ?_) ?_⟩
    · rw [remaining_setCall, if_neg hne, hother c' hne]
    · rw [remaining_setCall, if_pos rfl, hloaded]
      cases outcome <;> rfl
  case isFalse =>
    refine ⟨p.load ioBufferSize, ?_, h.output, ?_, .of_single (c := c) (fun c' hne => ?_) ?_⟩
    · simp [Pipe.load, TlsStream.setCall, h.queue]
    · rw [Pipe.produced_load]
      exact h.produced
    · rw [remaining_setCall, if_neg hne]
      exact remaining_eq_none (σ := σ) _ (hother c' hne)
    · rw [remaining_setCall, if_pos rfl]
      simp [Pipe.load, hloaded, h.queue, TlsPhase.remaining]

/-- Each step of one writer at a time keeps the order of the records. -/
private theorem carries_step (σ : TlsStream) (l : TlsLabel) (σ' : TlsStream)
    (h : ∃ p, Carries σ p) (hexclusive : Exclusive σ l) (hstep : σ.step l = some σ') :
    ∃ p, Carries σ' p := by
  obtain ⟨p, h⟩ := h
  cases l with
  | op c bytes outcome =>
    obtain ⟨⟨hready, -⟩, ⟨⟩⟩ := Option.ite_none_right_eq_some.mp hstep
    have hself : remaining σ c = none := by
      rcases hready with hnone | hready
      · simp [remaining, hnone]
      · simp [remaining, hready, TlsPhase.remaining]
    have hproduce := h.produce bytes
    rcases hexclusive with hempty | hnone
    · -- nothing to flush
      rw [TlsStream.flushBioToTcp, if_pos hempty]
      exact ⟨_, hproduce.setCall (by cases outcome <;> rfl) hself⟩
    · exact carries_flush hproduce (h.held.idle hnone) (fun c' _ => hnone c') outcome
  | transfer c k =>
    simp only [TlsStream.step] at hstep
    split at hstep
    case h_2 => simp at hstep
    case h_1 n total outcome hcall =>
      obtain ⟨-, ⟨⟩⟩ := Option.ite_none_right_eq_some.mp hstep
      have hself : remaining σ c = some ((σ.ioBuffer.take n).drop total) := by
        simp [remaining, hcall, TlsPhase.remaining]
      have hloaded := h.held.loaded c _ hself
      refine ⟨p.deliver k, h.queue, ?_, ?_, .of_single (c := c) (fun c' hne => ?_) ?_⟩
      · simp [Pipe.deliver, TlsStream.setCall, h.output, hloaded]
      · rw [Pipe.produced_deliver]
        exact h.produced
      · rw [remaining_setCall, if_neg hne]
        exact h.held.other hself hne
      · rw [remaining_setCall, if_pos rfl]
        simp [Pipe.deliver, hloaded, TlsPhase.remaining, List.drop_drop]
  | resume c =>
    simp only [TlsStream.step] at hstep
    split at hstep
    case h_2 => simp at hstep
    case h_1 n total outcome hcall =>
      have hself : remaining σ c = some ((σ.ioBuffer.take n).drop total) := by
        simp [remaining, hcall, TlsPhase.remaining]
      have hloaded := h.held.loaded c _ hself
      split at hstep
      case isTrue =>
        obtain rfl := Option.some.inj hstep
        refine ⟨p, h.queue, h.output, h.produced, .of_single (c := c) (fun c' hne => ?_) ?_⟩
        · rw [remaining_setCall, if_neg hne]
          exact h.held.other hself hne
        · rw [remaining_setCall, if_pos rfl, hloaded]
          rfl
      case isFalse hall =>
        obtain rfl := Option.some.inj hstep
        have hempty : p.loaded = [] := by
          rw [hloaded, List.drop_eq_nil_iff, List.length_take]
          omega
        exact carries_flush h hempty (fun _ => h.held.other hself) outcome
  | writeFailed c => exact hexclusive.elim
  | filled c success =>
    simp only [TlsStream.step] at hstep
    split at hstep
    case h_2 => simp at hstep
    case h_1 hcall =>
      obtain rfl := Option.some.inj hstep
      have hself : remaining σ c = none := by simp [remaining, hcall, TlsPhase.remaining]
      exact ⟨p, h.setCall (by cases success <;> rfl) hself⟩

end Step

private theorem carries_initial : Carries TlsStream.initial Pipe.empty :=
  ⟨rfl, rfl, rfl, .of_single (c := 0) (fun _ _ => rfl) rfl⟩

/-- If no write fails and no operation leaves bytes in the BIO while a write is pending, then in
    every state the bytes that the inner stream has been handed, those that the pending write has
    still to hand over and those in the BIO are together what SSL has produced. -/
theorem tls_output_in_order (ls : List TlsLabel) (σ : TlsStream)
    (hexclusive : Run.Along TlsStream.step (fun _ => Exclusive) [] TlsStream.initial ls)
    (hrun : Run.run TlsStream.step TlsStream.initial ls = some σ) :
    ∃ loaded, σ.output ++ loaded ++ σ.bio = σ.produced ∧
      (∀ c rest, remaining σ c = some rest → loaded = rest) ∧
      ((∀ c, remaining σ c = none) → loaded = []) := by
  obtain ⟨p, h⟩ := Run.stateInvariant_along carries_step ⟨Pipe.empty, carries_initial⟩ hexclusive
    hrun
  refine ⟨p.loaded, ?_, h.held.loaded, h.held.idle⟩
  rw [← h.output, ← h.queue, ← h.produced]
  rfl

/-- Two calls one after the other, the first with a short write. -/
def oneAfterTheOther : List TlsLabel :=
  [.op 0 [1, 2] .done, .transfer 0 1, .resume 0, .transfer 0 1, .resume 0, .op 1 [3] .done,
    .transfer 1 1]

theorem tls_output_in_order_oneAfterTheOther :
    ∃ σ, Run.Along TlsStream.step (fun _ => Exclusive) [] TlsStream.initial oneAfterTheOther ∧
      Run.run TlsStream.step TlsStream.initial oneAfterTheOther = some σ ∧
      σ.produced = [1, 2, 3] ∧ ∃ loaded, σ.output ++ loaded ++ σ.bio = [1, 2, 3] := by
  have halong : Run.Along TlsStream.step (fun _ => Exclusive) [] TlsStream.initial
      oneAfterTheOther := by
    refine .cons rfl (.inr fun c => rfl) <| .cons rfl trivial <| .cons rfl trivial <|
      .cons rfl trivial <| .cons rfl trivial <| .cons rfl (.inr fun c => ?_) <|
      .cons rfl trivial trivial
    cases c <;> rfl
  have hrun : ∃ σ, Run.run TlsStream.step TlsStream.initial oneAfterTheOther = some σ ∧
      σ.produced = [1, 2, 3] := ⟨_, rfl, rfl⟩
  obtain ⟨σ, hrun, hproduced⟩ := hrun
  obtain ⟨loaded, hall, -⟩ := tls_output_in_order oneAfterTheOther σ halong hrun
  exact ⟨σ, halong, hrun, hproduced, loaded, hproduced ▸ hall⟩

/-- The second call fills `io_buffer_` while the write of the first one is pending: the second
    record is sent twice, and the first never. -/
theorem ciphertext_overwritten :
    ∃ σ, Run.run TlsStream.step TlsStream.initial
        [.op 0 [1, 2] .done, .op 1 [3, 4] .done, .transfer 0 2, .transfer 1 2, .resume 0,
          .resume 1] = some σ ∧
      σ.produced = [1, 2, 3, 4] ∧ σ.output = [3, 4, 3, 4] ∧ σ.bio = [] ∧
      ∀ c, c = 0 ∨ c = 1 → σ.calls c = some .returned :=
  ⟨_, rfl, rfl, rfl, rfl, by rintro c (rfl | rfl) <;> rfl⟩

end Ppnt.Spec
