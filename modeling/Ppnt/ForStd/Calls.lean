/-!
# Computations that make calls

A computation that may fail and that calls its environment on the way is taken as the calls that it
makes and its result.  Two ways to reason about one are given here: which calls a computation that
returns has made (`Returns`), and what holds of every call, whether it returns or fails (`Always`).

## Key results

- `Calls.returns_bind_iff`: the calls of one computation behind another
- `Calls.Always.bind`: what holds of the calls of both
- `Calls.exists_of_mem_bind`: a call that the first computation does not make
-/

structure Calls (κ ε α : Type) where
  calls : List κ
  result : Except ε α

namespace Calls

variable {κ ε α β : Type}

instance : Monad (Calls κ ε) where
  pure a := ⟨[], .ok a⟩
  bind m f :=
    match m.result with
    | .ok a => ⟨m.calls ++ (f a).calls, (f a).result⟩
    | .error e => ⟨m.calls, .error e⟩

/-- Make a call. -/
def call (c : κ) : Calls κ ε Unit := ⟨[c], .ok ()⟩

/-- Go on with a result. -/
def ofExcept (r : Except ε α) : Calls κ ε α := ⟨[], r⟩

def fail (e : ε) : Calls κ ε α := ⟨[], .error e⟩

/-- What is called behind a computation depends on its result. -/
theorem calls_bind (m : Calls κ ε α) (f : α → Calls κ ε β) :
    (m >>= f).calls = m.calls ++ match m.result with
      | .ok a => (f a).calls
      | .error _ => [] := by
  cases h : m.result <;> simp [bind, h]

/-! ## Computations that return -/

/-- The computation makes these calls and returns this value. -/
def Returns (m : Calls κ ε α) (calls : List κ) (a : α) : Prop := m.calls = calls ∧ m.result = .ok a

theorem returns_of_result {m : Calls κ ε α} {a : α} (h : m.result = .ok a) : m.Returns m.calls a :=
  ⟨rfl, h⟩

@[simp] theorem returns_pure_iff {calls : List κ} {a b : α} :
    (pure b : Calls κ ε α).Returns calls a ↔ calls = [] ∧ b = a := by
  simp [Returns, pure, eq_comm]

@[simp] theorem returns_call_iff {c : κ} {calls : List κ} {u : Unit} :
    (call c : Calls κ ε Unit).Returns calls u ↔ calls = [c] := by
  simp [Returns, call, eq_comm]

@[simp] theorem returns_ofExcept_iff {r : Except ε α} {calls : List κ} {a : α} :
    (ofExcept r).Returns calls a ↔ calls = [] ∧ r = .ok a := by
  simp [Returns, ofExcept, eq_comm]

@[simp] theorem not_returns_fail {e : ε} {calls : List κ} {a : α} :
    ¬(fail e : Calls κ ε α).Returns calls a := by
  simp [Returns, fail]

theorem returns_bind_iff {m : Calls κ ε α} {f : α → Calls κ ε β} {calls : List κ} {b : β} :
    (m >>= f).Returns calls b ↔
      ∃ first a rest, m.Returns first a ∧ (f a).Returns rest b ∧ calls = first ++ rest := by
  unfold Returns
  constructor
  · rintro ⟨rfl, hresult⟩
    cases hm : m.result with
    | error e => simp [bind, hm] at hresult
    | ok a =>
      simp only [bind, hm] at hresult ⊢
      exact ⟨m.calls, a, (f a).calls, ⟨rfl, rfl⟩, ⟨rfl, hresult⟩, rfl⟩
  · rintro ⟨_, a, _, ⟨rfl, hm⟩, ⟨rfl, hf⟩, rfl⟩
    simp [bind, hm, hf]

theorem returns_call_bind_iff {c : κ} {f : Unit → Calls κ ε β} {calls : List κ} {b : β} :
    (call c >>= f).Returns calls b ↔ ∃ rest, (f ()).Returns rest b ∧ calls = c :: rest := by
  rw [returns_bind_iff]
  constructor
  · rintro ⟨first, _, rest, hcall, hrest, rfl⟩
    rw [returns_call_iff.mp hcall]
    exact ⟨rest, hrest, rfl⟩
  · rintro ⟨rest, hrest, rfl⟩
    exact ⟨[c], (), rest, returns_call_iff.mpr rfl, hrest, rfl⟩

theorem returns_ofExcept_bind_iff {r : Except ε α} {f : α → Calls κ ε β} {calls : List κ} {b : β} :
    (ofExcept r >>= f).Returns calls b ↔ ∃ a, r = .ok a ∧ (f a).Returns calls b := by
  rw [returns_bind_iff]
  constructor
  · rintro ⟨first, a, rest, hresult, hrest, rfl⟩
    obtain ⟨rfl, hr⟩ := returns_ofExcept_iff.mp hresult
    exact ⟨a, hr, hrest⟩
  · rintro ⟨a, hr, hrest⟩
    exact ⟨[], a, calls, returns_ofExcept_iff.mpr ⟨rfl, hr⟩, hrest, rfl⟩

/-- A call that only the second computation makes: the first one has returned. -/
theorem exists_of_mem_bind {m : Calls κ ε α} {f : α → Calls κ ε β} {c : κ} (h : c ∈ (m >>= f).calls)
    (hm : c ∉ m.calls) :
    ∃ a, m.Returns m.calls a ∧ c ∈ (f a).calls ∧ (m >>= f).calls = m.calls ++ (f a).calls := by
  rw [calls_bind] at h ⊢
  cases hresult : m.result with
  | error e =>
    simp only [hresult, List.append_nil] at h
    exact absurd h hm
  | ok a =>
    simp only [hresult] at h ⊢
    exact ⟨a, ⟨rfl, hresult⟩, (List.mem_append.mp h).resolve_left hm, rfl⟩

/-! ## All calls -/

/-- Every call of the computation meets `p`. -/
def Always (m : Calls κ ε α) (p : κ → Prop) : Prop := ∀ c ∈ m.calls, p c

variable {p : κ → Prop}

@[simp] theorem always_pure (a : α) : (pure a : Calls κ ε α).Always p := by simp [Always, pure]

@[simp] theorem always_call_iff {c : κ} : (call c : Calls κ ε Unit).Always p ↔ p c := by
  simp [Always, call]

@[simp] theorem always_ofExcept (r : Except ε α) : (ofExcept r : Calls κ ε α).Always p := by
  simp [Always, ofExcept]

@[simp] theorem always_fail (e : ε) : (fail e : Calls κ ε α).Always p := by simp [Always, fail]

theorem Always.bind {m : Calls κ ε α} {f : α → Calls κ ε β} (hm : m.Always p)
    (hf : ∀ a, m.result = .ok a → (f a).Always p) : (m >>= f).Always p := by
  intro c hc
  cases hresult : m.result with
  | error e =>
    simp only [Bind.bind, hresult] at hc
    exact hm c hc
  | ok a =>
    simp only [Bind.bind, hresult, List.mem_append] at hc
    rcases hc with hfirst | hrest
    · exact hm c hfirst
    · exact hf a hresult c hrest

end Calls
