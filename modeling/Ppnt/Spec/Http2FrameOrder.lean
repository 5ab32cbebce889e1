import Ppnt.ForStd.Pipe
import Ppnt.ForStd.Run
import Ppnt.Native.Http2Writer

/-!
# The order of HTTP/2 frames

`flush_writes` suspends between `mem_send` and the end of the write of what it returned, and nothing
keeps another call from doing the same meanwhile.  If `mem_send` is only called while no write is
pending (`Sequential`), the session is a pipe from nghttp2 to the connection.
-/

namespace Ppnt.Spec

open Ppnt.Native

/-- What a call has to hand over. -/
def FlushPhase.unwritten : FlushPhase → Option (List UInt8)
  | .writing data _ => some data
  | .written | .returned _ => none

/-- What the pending write of a call has to hand over. -/
def unwritten (σ : Http2Writer) (c : FlushId) : Option (List UInt8) :=
  (σ.calls c).bind FlushPhase.unwritten

/-- No write fails, and `mem_send` returns a buffer only while no write is pending. -/
def Sequential (σ : Http2Writer) : WriterLabel → Prop
  | .flush _ (some _) | .resume _ (some _) => ∀ c, unwritten σ c = none
  | .writeFailed _ => False
  | _ => True

/-- The session stands for a pipe, and the buffer of a pending write is valid. -/
structure Flows (σ : Http2Writer) (p : Pipe UInt8) : Prop where
  queue : p.queue = []
  output : p.output = σ.output
  produced : p.produced = σ.produced
  held : p.HeldBy (unwritten σ)
  valid : ∀ c data generation, σ.calls c = some (.writing data generation) →
    generation = σ.generation

section Step

variable {σ : Http2Writer} {p : Pipe UInt8} {c : FlushId}

private theorem unwritten_setCall (σ : Http2Writer) (c c' : FlushId) (phase : FlushPhase) :
    unwritten (σ.setCall c phase) c' =
      if c' = c then FlushPhase.unwritten phase else unwritten σ c' := by
  simp only [unwritten, Http2Writer.setCall, Function.update_apply]
  split <;> rfl

/-- A call whose write is pending neither before nor behind the step. -/
private theorem Flows.setCall (h : Flows σ p) {phase : FlushPhase} (hself : unwritten σ c = none)
    (hphase : FlushPhase.unwritten phase = none) : Flows (σ.setCall c phase) p := by
  refine ⟨h.queue, h.output, h.produced, h.held.congr fun c' => ?_, fun c' data generation hc => ?_⟩
  · rw [unwritten_setCall]
    split
    case isTrue heq => rw [heq, hself, hphase]
    case isFalse => rfl
  · simp only [Http2Writer.setCall, Function.update_apply] at hc
    split at hc
    · simp [Option.some.inj hc, FlushPhase.unwritten] at hphase
    · exact h.valid c' data generation hc

/-- A buffer that `mem_send` returns while no write is pending. -/
private theorem flows_memSend (h : Flows σ p) {next : Option (List UInt8)}
    (hself : unwritten σ c = none)
    (hnone : next ≠ none → ∀ c', unwritten σ c' = none) : ∃ p', Flows (σ.memSend c next) p' := by
  cases next with
  | none => exact ⟨p, h.setCall hself rfl⟩
  | some data =>
    have hnone := hnone (by simp)
    have hloaded := h.held.idle hnone
    refine ⟨(p.produce data).load data.length, ?_, h.output, ?_,
      .of_single (c := c) (fun c' hne => ?_) ?_, fun c' data' generation hc => ?_⟩
    · simp [Pipe.load, Pipe.produce, h.queue]
    · rw [Pipe.produced_load, Pipe.produced_produce, h.produced]
      rfl
    · rw [Http2Writer.memSend, unwritten_setCall, if_neg hne]
      exact hnone c'
    · rw [Http2Writer.memSend, unwritten_setCall, if_pos rfl]
      simp [Pipe.load, Pipe.produce, h.queue, hloaded, FlushPhase.unwritten]
    · simp only [Http2Writer.memSend, Http2Writer.setCall, Function.update_apply] at hc ⊢
      split at hc
      · exact (FlushPhase.writing.inj (Option.some.inj hc)).2.symm
      · have := hnone c'
        simp [unwritten, hc, FlushPhase.unwritten] at this

/-- Each step of one flush at a time keeps the order of the frames. -/
private theorem flows_step (σ : Http2Writer) (l : WriterLabel) (σ' : Http2Writer)
    (h : ∃ p, Flows σ p) (hsequential : Sequential σ l) (hstep : σ.step l = some σ') :
    ∃ p, Flows σ' p := by
  obtain ⟨p, h⟩ := h
  cases l with
  | flush c next =>
    obtain ⟨⟨hfresh, -⟩, ⟨⟩⟩ := Option.ite_none_right_eq_some.mp hstep
    refine flows_memSend h (by simp [unwritten, hfresh]) fun hnext => ?_
    obtain ⟨data, rfl⟩ := Option.ne_none_iff_exists'.mp hnext
    exact hsequential
  | transfer c stale =>
    simp only [Http2Writer.step] at hstep
    split at hstep
    case h_2 => simp at hstep
    case h_1 data generation hcall =>
      obtain ⟨-, ⟨⟩⟩ := Option.ite_none_right_eq_some.mp hstep
      -- the only call that holds bytes gives them to the connection
      have hself : unwritten σ c = some data := by simp [unwritten, hcall, FlushPhase.unwritten]
      have hloaded := h.held.loaded c data hself
      have hvalid := h.valid c data generation hcall
      refine ⟨p.deliver data.length, h.queue, ?_, ?_, .of_single (c := c) (fun c' hne => ?_) ?_,
        fun c' data' generation' hc => ?_⟩
      · simp [Pipe.deliver, Http2Writer.setCall, h.output, hloaded, hvalid]
      · rw [Pipe.produced_deliver]
        exact h.produced
      · rw [unwritten_setCall, if_neg hne]
        exact h.held.other hself hne
      · rw [unwritten_setCall, if_pos rfl]
        simp [Pipe.deliver, hloaded, FlushPhase.unwritten]
      · simp only [Http2Writer.setCall, Function.update_apply] at hc
        split at hc
        · simp at hc
        · exact h.valid c' data' generation' hc
  | resume c next =>
    simp only [Http2Writer.step] at hstep
    split at hstep
    case h_2 => simp at hstep
    case h_1 hcall =>
      obtain ⟨-, ⟨⟩⟩ := Option.ite_none_right_eq_some.mp hstep
      refine flows_memSend h (by simp [unwritten, hcall, FlushPhase.unwritten]) fun hnext => ?_
      obtain ⟨data, rfl⟩ := Option.ne_none_iff_exists'.mp hnext
      exact hsequential
  | writeFailed c => exact hsequential.elim

end Step

/-- If no write fails and `mem_send` is called only while no write is pending, then in every state
    the bytes on the connection and those of the pending write are together what nghttp2 has
    produced. -/
theorem frames_in_order (ls : List WriterLabel) (σ : Http2Writer)
    (hsequential : Run.Along Http2Writer.step (fun _ => Sequential) [] Http2Writer.initial ls)
    (hrun : Run.run Http2Writer.step Http2Writer.initial ls = some σ) :
    ∃ pending, σ.output ++ pending = σ.produced ∧
      (∀ c data, unwritten σ c = some data → pending = data) ∧
      ((∀ c, unwritten σ c = none) → pending = []) := by
  have hinitial : Flows Http2Writer.initial Pipe.empty :=
    ⟨rfl, rfl, rfl, .of_single (c := 0) (fun _ _ => rfl) rfl, by simp [Http2Writer.initial]⟩
  obtain ⟨p, h⟩ := Run.stateInvariant_along flows_step ⟨Pipe.empty, hinitial⟩ hsequential hrun
  refine ⟨p.loaded, ?_, h.held.loaded, h.held.idle⟩
  rw [← h.output, ← h.produced, Pipe.produced, h.queue, List.append_nil]

/-- A request and the driver, one after the other. -/
def oneFlushAfterTheOther : List WriterLabel :=
  [.flush 0 (some [1, 2]), .transfer 0 [0, 0], .flush 1 (some [3]), .transfer 1 [0], .resume 0 none,
    .resume 1 (some [4])]

theorem frames_in_order_oneFlushAfterTheOther :
    ∃ σ, Run.Along Http2Writer.step (fun _ => Sequential) [] Http2Writer.initial
        oneFlushAfterTheOther ∧
      Run.run Http2Writer.step Http2Writer.initial oneFlushAfterTheOther = some σ ∧
      σ.produced = [1, 2, 3, 4] ∧ ∃ pending, σ.output ++ pending = [1, 2, 3, 4] := by
  have halong : Run.Along Http2Writer.step (fun _ => Sequential) [] Http2Writer.initial
      oneFlushAfterTheOther := by
    refine .cons rfl (fun c => rfl) <| .cons rfl trivial <| .cons rfl (fun c => ?_) <|
      .cons rfl trivial <| .cons rfl trivial <| .cons rfl (fun c => ?_) trivial
    · cases c <;> rfl
    · match c with
      | 0 | 1 | _ + 2 => rfl
  have hrun : ∃ σ, Run.run Http2Writer.step Http2Writer.initial oneFlushAfterTheOther = some σ ∧
      σ.produced = [1, 2, 3, 4] := ⟨_, rfl, rfl⟩
  obtain ⟨σ, hrun, hproduced⟩ := hrun
  obtain ⟨pending, hall, -⟩ := frames_in_order oneFlushAfterTheOther σ halong hrun
  exact ⟨σ, halong, hrun, hproduced, pending, hproduced ▸ hall⟩

/-- With two pending writes the connection may carry out the second one first, and the buffer of the
    first one has been reused. -/
theorem frames_swapped :
    ∃ σ, Run.run Http2Writer.step Http2Writer.initial
        [.flush 0 (some [1, 2]), .flush 1 (some [3, 4]), .transfer 1 [3, 4], .transfer 0 [3, 4],
          .resume 0 none, .resume 1 none] = some σ ∧
      σ.produced = [1, 2, 3, 4] ∧ σ.output = [3, 4, 3, 4] ∧
      ∀ c, c = 0 ∨ c = 1 → σ.calls c = some (.returned true) :=
  ⟨_, rfl, rfl, rfl, by rintro c (rfl | rfl) <;> rfl⟩

end Ppnt.Spec
