/-!
# Pipes

A pipe carries elements from a producer to an output: they wait in a queue, a part of the queue is
loaded, and what is loaded is delivered piece by piece.  A pipe has one loaded part at a time, so
what comes out is what was produced, in order (`produced`).

An implementation with several writers is shown to keep the order by giving, for each of its states,
the pipe that the state stands for.  `HeldBy` says that the loaded part is what the one writer that
is under way has still to deliver.

## Key results

- `produced_produce`, `produced_load`, `produced_deliver`: the operations only add what is produced
- `HeldBy.of_single`, `HeldBy.other`: there is one writer under way
-/

/-- A pipe.  The next element to come out is the first one of `loaded`. -/
structure Pipe (α : Type) where
  queue : List α
  loaded : List α
  output : List α

namespace Pipe

variable {α C : Type} (p : Pipe α)

/-- Everything that has gone into the pipe. -/
def produced : List α := p.output ++ p.loaded ++ p.queue

def empty : Pipe α := ⟨[], [], []⟩

def produce (as : List α) : Pipe α := { p with queue := p.queue ++ as }

/-- Load the first `n` elements of the queue. -/
def load (n : Nat) : Pipe α :=
  { p with queue := p.queue.drop n, loaded := p.loaded ++ p.queue.take n }

/-- Deliver the first `n` loaded elements. -/
def deliver (n : Nat) : Pipe α :=
  { p with loaded := p.loaded.drop n, output := p.output ++ p.loaded.take n }

@[simp] theorem produced_empty : (empty : Pipe α).produced = [] := rfl

@[simp] theorem produced_produce (as : List α) : (p.produce as).produced = p.produced ++ as := by
  simp [produced, produce]

@[simp] theorem produced_load (n : Nat) : (p.load n).produced = p.produced := by
  simp [produced, load]

@[simp] theorem produced_deliver (n : Nat) : (p.deliver n).produced = p.produced := by
  simp [produced, deliver]

/-! ## Writers -/

/-- At most one writer has something to deliver, and the pipe has loaded it. -/
structure HeldBy (remaining : C → Option (List α)) : Prop where
  loaded : ∀ c as, remaining c = some as → p.loaded = as
  idle : (∀ c, remaining c = none) → p.loaded = []
  unique : ∀ c c' as as', remaining c = some as → remaining c' = some as' → c = c'

variable {p} {remaining remaining' : C → Option (List α)}

theorem HeldBy.congr (h : p.HeldBy remaining) (hsame : ∀ c, remaining' c = remaining c) :
    p.HeldBy remaining' := by
  obtain rfl : remaining' = remaining := funext hsame
  exact h

/-- There is one writer that may have something to deliver. -/
theorem HeldBy.of_single {c : C} (hother : ∀ c', c' ≠ c → remaining c' = none)
    (hself : p.loaded = (remaining c).getD []) : p.HeldBy remaining := by
  have honly : ∀ c' as, remaining c' = some as → c' = c := by
    intro c' as hc
    refine Classical.byContradiction fun hne => ?_
    rw [hother c' hne] at hc
    exact absurd hc (by simp)
  refine ⟨fun c' as hc => ?_, fun hnone => ?_,
    fun c₁ c₂ as₁ as₂ h₁ h₂ => (honly c₁ as₁ h₁).trans (honly c₂ as₂ h₂).symm⟩
  · obtain rfl := honly c' as hc
    rw [hself, hc]
    rfl
  · rw [hself, hnone c]
    rfl

/-- A writer with something to deliver is the only one. -/
theorem HeldBy.other (h : p.HeldBy remaining) {c c' : C} {as : List α} (hc : remaining c = some as)
    (hne : c' ≠ c) : remaining c' = none := by
  rw [Option.eq_none_iff_forall_ne_some]
  exact fun as' hc' => hne (h.unique c' c as' as hc' hc)

end Pipe
