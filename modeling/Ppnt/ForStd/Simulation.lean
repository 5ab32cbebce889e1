import Ppnt.ForStd.Run

/-!
# Runs of two levels

A lower level of a system does what a higher one does if each of its steps is a run of the higher
one, seen through a function `f` that gives the higher state of a lower one.  A step of the lower
level may be none of the higher one, or several.

## Key results

- `run_append`, `Along.append`: runs one after the other
- `exists_run`: a run of the lower level is a run of the higher one
- `exists_run_of_steps`: the same with an invariant and with conditions on the labels
-/

namespace Run

variable {S A L M : Type} {step : S → L → Option S} {step' : A → M → Option A}

theorem run_append (s : S) (ls ls' : List L) :
    run step s (ls ++ ls') = (run step s ls).bind fun s' => run step s' ls' := by
  induction ls generalizing s with
  | nil => rfl
  | cons l ls ih => simp only [List.cons_append, run, ih, Option.bind_assoc]

theorem Along.append {cond : S → L → Prop} {h : List L} {s s' : S} {ls ls' : List L}
    (hls : Along step (fun _ => cond) h s ls) (hrun : run step s ls = some s')
    (hls' : Along step (fun _ => cond) (h ++ ls) s' ls') :
      Along step (fun _ => cond) h s (ls ++ ls') := by
  induction ls generalizing h s with
  | nil =>
    obtain rfl := Option.some.inj hrun
    simpa using hls'
  | cons l ls ih =>
    obtain ⟨s₁, hs₁, hrest⟩ := Option.bind_eq_some_iff.mp hrun
    refine .cons hs₁ hls.1 (ih (hls.2 s₁ hs₁) hrest ?_)
    simpa using hls'

theorem run_singleton {s s' : S} {l : L} (h : step s l = some s') : run step s [l] = some s' := by
  simp [run, h]

/-- A run of a level whose steps are runs of a higher level is a run of the higher level. -/
theorem exists_run {f : S → A}
    (hstep : ∀ s l s', step s l = some s' → ∃ ms, run step' (f s) ms = some (f s')) {s s' : S}
    {ls : List L} (hrun : run step s ls = some s') : ∃ ms, run step' (f s) ms = some (f s') := by
  induction ls generalizing s with
  | nil =>
    obtain rfl := Option.some.inj hrun
    exact ⟨[], rfl⟩
  | cons l ls ih =>
    obtain ⟨s₁, hs₁, hrest⟩ := Option.bind_eq_some_iff.mp hrun
    obtain ⟨ms, hms⟩ := hstep s l s₁ hs₁
    obtain ⟨ms', hms'⟩ := ih hrest
    exact ⟨ms ++ ms', by rw [run_append, hms, Option.bind_some, hms']⟩

/-- The same with an invariant, and with conditions on the labels of both levels. -/
theorem exists_run_of_steps {f : S → A} {inv : S → Prop} {cond : S → L → Prop}
    {cond' : A → M → Prop} (hinv : ∀ s l s', inv s → cond s l → step s l = some s' → inv s')
    (hstep : ∀ k s l s', inv s → cond s l → step s l = some s' →
      ∃ ms, Along step' (fun _ => cond') k (f s) ms ∧ run step' (f s) ms = some (f s'))
    {h : List L} {k : List M} {s s' : S} {ls : List L} (hs : inv s)
    (hcond : Along step (fun _ => cond) h s ls) (hrun : run step s ls = some s') :
    ∃ ms, Along step' (fun _ => cond') k (f s) ms ∧ run step' (f s) ms = some (f s') := by
  induction ls generalizing h k s with
  | nil =>
    obtain rfl := Option.some.inj hrun
    exact ⟨[], trivial, rfl⟩
  | cons l ls ih =>
    obtain ⟨s₁, hs₁, hrest⟩ := Option.bind_eq_some_iff.mp hrun
    have hnext := hinv s l s₁ hs hcond.1 hs₁
    obtain ⟨ms, hms, hrun'⟩ := hstep k s l s₁ hs hcond.1 hs₁
    obtain ⟨ms', hms', hrun''⟩ := ih (k := k ++ ms) hnext (hcond.2 s₁ hs₁) hrest
    exact ⟨ms ++ ms', hms.append hrun' hms', by rw [run_append, hrun', Option.bind_some, hrun'']⟩

end Run
