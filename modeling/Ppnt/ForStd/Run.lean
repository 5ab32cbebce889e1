import Mathlib.Data.List.Induction
import Mathlib.Order.Monotone.Basic

/-!
# Runs of a labelled transition system

A system is a partial step function `step : S → L → Option S`: `none` means that the label is not
possible in the state.  A run is a list of labels.

## Key results

- `invariant_of_run`: what every step keeps along a run holds in every state the run reaches.
  The invariant may speak about the labels so far, and so may a condition that every step of the
  run has to meet (`Along`)
- `invariant_of_steps`: the same over steps that need no condition
- `stateInvariant_along`, `stateInvariant_of_run`: the same for the states alone, with and without
  a condition
- `countP_le_of_measure`: steps that lower a measure end if the steps that raise it do
- `exists_of_measure`: an infinite run that keeps lowering a measure on its way to a goal gets there
-/

namespace Run

variable {S L : Type} (step : S → L → Option S)

/-- The state behind a list of labels. -/
def run (s : S) : List L → Option S
  | [] => some s
  | l :: ls => (step s l).bind fun s' => run s' ls

/-- Every step of the run meets `cond`, which may look at the labels so far. -/
def Along (cond : List L → S → L → Prop) (h : List L) (s : S) : List L → Prop
  | [] => True
  | l :: ls => cond h s l ∧ ∀ s', step s l = some s' → Along cond (h ++ [l]) s' ls

instance decidableAlong (cond : List L → S → L → Prop) [∀ h s l, Decidable (cond h s l)] :
    ∀ h s ls, Decidable (Along step cond h s ls)
  | _, _, [] => isTrue trivial
  | h, s, l :: ls =>
    match hstep : step s l with
    | none => decidable_of_iff (cond h s l) (by simp [Along, hstep])
    | some s' =>
      have := decidableAlong cond (h ++ [l]) s' ls
      decidable_of_iff (cond h s l ∧ Along step cond (h ++ [l]) s' ls) (by simp [Along, hstep])

variable {step}

theorem Along.cons {cond : List L → S → L → Prop} {h : List L} {s s' : S} {l : L} {ls : List L}
    (hstep : step s l = some s') (hcond : cond h s l) (hrest : Along step cond (h ++ [l]) s' ls) :
    Along step cond h s (l :: ls) := by
  refine ⟨hcond, fun s₁ hs₁ => ?_⟩
  obtain rfl := Option.some.inj (hstep.symm.trans hs₁)
  exact hrest

theorem Along.and {cond cond' : List L → S → L → Prop} {h : List L} {s : S} {ls : List L}
    (hcond : Along step cond h s ls) (hcond' : Along step cond' h s ls) :
    Along step (fun h s l => cond h s l ∧ cond' h s l) h s ls := by
  induction ls generalizing h s with
  | nil => trivial
  | cons l ls ih =>
    exact ⟨⟨hcond.1, hcond'.1⟩, fun s' hs' => ih (hcond.2 s' hs') (hcond'.2 s' hs')⟩

theorem along_congr {cond cond' : List L → S → L → Prop} (hiff : ∀ h s l, cond h s l ↔ cond' h s l)
    (h : List L) (s : S) (ls : List L) : Along step cond h s ls ↔ Along step cond' h s ls := by
  induction ls generalizing h s with
  | nil => exact Iff.rfl
  | cons l ls ih => exact and_congr (hiff h s l) (forall₂_congr fun s' _ => ih (h ++ [l]) s')

/-- A condition that another one implies wherever the run makes a step. -/
theorem Along.imp_of_run {cond cond' : List L → S → L → Prop} {h : List L} {s s' : S} {ls : List L}
    (hcond : Along step cond h s ls) (hrun : run step s ls = some s')
    (himp : ∀ h s l s₁, step s l = some s₁ → cond h s l → cond' h s l) :
    Along step cond' h s ls := by
  induction ls generalizing h s with
  | nil => trivial
  | cons l ls ih =>
    obtain ⟨s₁, hs₁, hrest⟩ := Option.bind_eq_some_iff.mp hrun
    exact .cons hs₁ (himp h s l s₁ hs₁ hcond.1) (ih (hcond.2 s₁ hs₁) hrest)

/-- An invariant over the labels so far and the state reached. -/
theorem invariant_of_run {inv : List L → S → Prop} {cond : List L → S → L → Prop}
    (hstep : ∀ h s l s', inv h s → cond h s l → step s l = some s' → inv (h ++ [l]) s')
    {h : List L} {s s' : S} {ls : List L} (hinit : inv h s) (hcond : Along step cond h s ls)
    (hrun : run step s ls = some s') : inv (h ++ ls) s' := by
  induction ls generalizing h s with
  | nil =>
    obtain rfl := Option.some.inj hrun
    rwa [List.append_nil]
  | cons l ls ih =>
    obtain ⟨s₁, hs₁, hrest⟩ := Option.bind_eq_some_iff.mp hrun
    have hnext := ih (hstep h s l s₁ hinit hcond.1 hs₁) (hcond.2 s₁ hs₁) hrest
    rwa [List.append_assoc, List.singleton_append] at hnext

/-- A condition that the labels of the run meet in every state. -/
theorem along_of_forall {cond : List L → S → L → Prop} {ls : List L}
    (hcond : ∀ l ∈ ls, ∀ h s, cond h s l) (h : List L) (s : S) : Along step cond h s ls := by
  induction ls generalizing h s with
  | nil => trivial
  | cons l ls ih =>
    have hrest := ih fun l' hl' => hcond l' (List.mem_cons_of_mem l hl')
    exact ⟨hcond l List.mem_cons_self h s, fun s' _ => hrest (h ++ [l]) s'⟩

/-- An invariant over the labels so far, over steps that need no condition. -/
theorem invariant_of_steps {inv : List L → S → Prop}
    (hstep : ∀ h s l s', inv h s → step s l = some s' → inv (h ++ [l]) s') {s s' : S} {ls : List L}
    (hinit : inv [] s) (hrun : run step s ls = some s') : inv ls s' :=
  invariant_of_run (fun h s l s' hinv _ => hstep h s l s' hinv) hinit
    (along_of_forall (fun _ _ _ _ => trivial) [] s) hrun

/-- An invariant of the states alone, over steps that meet a condition. -/
theorem stateInvariant_along {inv : S → Prop} {cond : S → L → Prop}
    (hstep : ∀ s l s', inv s → cond s l → step s l = some s' → inv s') {h : List L} {s s' : S}
    {ls : List L} (hinit : inv s) (hcond : Along step (fun _ => cond) h s ls)
    (hrun : run step s ls = some s') : inv s' :=
  invariant_of_run (fun _ => hstep) hinit hcond hrun

/-- An invariant of the states alone, over steps that need no condition. -/
theorem stateInvariant_of_run {inv : S → Prop}
    (hstep : ∀ s l s', inv s → step s l = some s' → inv s') {s s' : S} {ls : List L}
    (hinit : inv s) (hrun : run step s ls = some s') : inv s' :=
  invariant_of_steps (fun _ => hstep) hinit hrun

/-- The labels in `p` lower a measure and each other label raises it by at most `k`. -/
theorem countP_le_of_measure {μ : S → Nat} {p : L → Bool} {k : Nat}
    (hstep : ∀ s l s', step s l = some s' → if p l then μ s' < μ s else μ s' ≤ μ s + k)
    {s s' : S} {ls : List L} (hrun : run step s ls = some s') :
    ls.countP p + μ s' ≤ μ s + k * ls.countP fun l => !p l := by
  induction ls generalizing s with
  | nil =>
    obtain rfl := Option.some.inj hrun
    simp
  | cons l ls ih =>
    obtain ⟨s₁, hs₁, hrest⟩ := Option.bind_eq_some_iff.mp hrun
    have hl := hstep s l s₁ hs₁
    have hls := ih hrest
    cases hp : p l <;> simp only [hp, if_true, Bool.false_eq_true, if_false] at hl <;>
      simp only [List.countP_cons, hp, Bool.not_true, Bool.not_false, Bool.false_eq_true, if_true,
        if_false, Nat.add_zero, Nat.mul_add, Nat.mul_one] <;>
      omega

/-! ## Infinite runs -/

/-- An infinite run: its states and its labels. -/
def Execution (step : S → L → Option S) (exec : Nat → S) (label : Nat → L) : Prop :=
  ∀ n, step (exec n) (label n) = some (exec (n + 1))

theorem Execution.stateInvariant {exec : Nat → S} {label : Nat → L} {inv : S → Prop}
    (hexec : Execution step exec label) (hstep : ∀ s l s', inv s → step s l = some s' → inv s')
    (hinit : inv (exec 0)) (n : Nat) : inv (exec n) := by
  induction n with
  | zero => exact hinit
  | succ n ih => exact hstep (exec n) (label n) (exec (n + 1)) ih (hexec n)

/-- Short of the goal a measure never grows, and it is lowered again and again. -/
theorem exists_of_measure (exec : Nat → S) (goal : S → Prop) (μ : S → Nat)
    (hle : (∀ n, ¬goal (exec n)) → ∀ n, μ (exec (n + 1)) ≤ μ (exec n))
    (hlt : (∀ n, ¬goal (exec n)) → ∀ n, ∃ m, n ≤ m ∧ μ (exec (m + 1)) < μ (exec m)) :
    ∃ n, goal (exec n) := by
  by_contra hno
  have hnever : ∀ n, ¬goal (exec n) := fun n hn => hno ⟨n, hn⟩
  have hanti : Antitone fun n => μ (exec n) := antitone_nat_of_succ_le (hle hnever)
  have hbelow : ∀ k n, μ (exec n) < k → False := by
    intro k
    induction k with
    | zero => intro n hn; omega
    | succ k ih =>
      intro n hn
      obtain ⟨m, hnm, hm⟩ := hlt hnever n
      have := hanti hnm
      exact ih (m + 1) (by simp only at this; omega)
  exact hbelow _ 0 (Nat.lt_succ_self _)

end Run
