import Mathlib.Data.Multiset.AddSub
import Ppnt.Native.Timeout
import Ppnt.Spec.TimerInvariant

/-!
# Deadlines

A delay is any 64-bit number of milliseconds.  It is turned into nanoseconds and added to the clock,
or to the last deadline of an interval, in 64 bits and without a check.
-/

namespace Ppnt.Spec

open Ppnt.Native EventLoop

/-! ## What a script can pass -/

/-- A delay is any 64-bit integer. -/
theorem parseDelay_range (info : List JsValue) (index : Nat) : InRange (parseDelay info index) := by
  unfold parseDelay
  split
  · decide
  · split
    · decide
    · split
      · decide
      · unfold InRange longMax longMin
        split
        · omega
        · split <;> omega

/-- The bounds of `parse_delay` do nothing. -/
theorem parseDelay_of_number {info : List JsValue} {index : Nat} {arg : JsValue} {n : Int}
    (harg : info[index]? = some arg) (hnumber : arg.isNumber = true)
    (hn : arg.integerValue = some n) : parseDelay info index = n := by
  have hrange := arg.integerValue_range n hn
  have hmax : ¬n > longMax := by rw [longMax]; omega
  have hmin : ¬n < longMin := by rw [longMin]; omega
  simp [parseDelay, harg, hnumber, hn, hmax, hmin]

/-! ## One deadline -/

/-- The time and the milliseconds that a step adds. -/
def operandsOf (s : State) : Label → Option (Int × Int)
  | .callbackDone =>
    match s.phase with
    | .calling _ key true => (findTimer s key.id).map fun data => (key.deadline, data.intervalMs)
    | _ => none
  | l => (timerSet s l).map fun t => (t.clock, periodMs t)

/-- Neither the nanoseconds nor the sum overflow. -/
def Representable (s : State) (l : Label) : Prop :=
  ∀ p ∈ operandsOf s l, InRange (p.2 * 1000000) ∧ InRange (p.1 + p.2 * 1000000)

instance (s : State) (l : Label) : Decidable (Representable s l) :=
  inferInstanceAs (Decidable (∀ p ∈ operandsOf s l, _ ∧ _))

/-- The step turns its milliseconds into nanoseconds without overflow, and the key that it pushes
    has their sum with the time as its deadline. -/
def DeadlineExact (s : State) (l : Label) (s' : State) : Prop :=
  ∀ p ∈ operandsOf s l, toInt64 (p.2 * 1000000) = p.2 * 1000000 ∧
    ∃ id, (keysOf s').Perm (⟨p.1 + p.2 * 1000000, id⟩ :: keysOf s)

private theorem toInt64_eq_iff (n : Int) : toInt64 n = n ↔ InRange n := by
  rw [toInt64, InRange]
  constructor
  · intro h
    have hle := Int.le_bmod (x := n) (m := 2 ^ 64) (by decide)
    have hlt := Int.bmod_lt (x := n) (m := 2 ^ 64) (by decide)
    rw [h] at hle hlt
    omega
  · intro h
    exact Int.bmod_eq_of_le (by omega) (by omega)

private theorem addMilliseconds_eq_iff (time ms : Int) :
    addMilliseconds time ms = time + ms * 1000000 ↔ InRange (time + ms * 1000000) := by
  rw [← toInt64_eq_iff, addMilliseconds, toInt64, toInt64, toInt64, Int.add_bmod_bmod]

/-- The key that a step pushes. -/
private theorem pushed_of_step {s s' : State} {l : Label} {time ms : Int}
    (hoperands : operandsOf s l = some (time, ms)) (hstep : step s l = some s') :
    ∃ id, (keysOf s').Perm (⟨addMilliseconds time ms, id⟩ :: keysOf s) := by
  -- an interval is pushed again, or a timer is set
  by_cases hdone : l = .callbackDone
  · subst hdone
    simp only [operandsOf] at hoperands
    split at hoperands
    · next now key hphase =>
      obtain ⟨data, hdata, hp⟩ := Option.map_eq_some_iff.mp hoperands
      obtain ⟨rfl, rfl⟩ := Prod.mk.inj hp
      simp only [step, hphase] at hstep
      obtain rfl := Option.some.inj hstep
      rw [findTimer] at hdata
      refine ⟨key.id, ?_⟩
      simp only [keysOf, State.refresh, hdata, if_true]
      exact PriorityQueue.push_perm _ _
    · cases hoperands
  · have hset : (timerSet s l).map (fun t => (t.clock, periodMs t)) = some (time, ms) := by
      cases l <;> first | exact hoperands | exact absurd rfl hdone
    obtain ⟨t, ht, hp⟩ := Option.map_eq_some_iff.mp hset
    obtain ⟨rfl, rfl⟩ := Prod.mk.inj hp
    obtain ⟨-, -, hact⟩ := step_timerSet ht
    obtain ⟨-, rfl⟩ := act_eq_some (hact.symm.trans hstep)
    refine ⟨s.loop.nextId, ?_⟩
    rw [← (normalizeDelay_eq t).1]
    exact PriorityQueue.push_perm _ _

/-- A step computes its deadline right exactly if it does not leave this range. -/
theorem deadlineExact_iff {s s' : State} {l : Label} (hstep : step s l = some s') :
    DeadlineExact s l s' ↔ Representable s l := by
  refine forall₂_congr fun p hp => ?_
  obtain ⟨id, hpushed⟩ := pushed_of_step hp hstep
  rw [toInt64_eq_iff, ← addMilliseconds_eq_iff]
  refine and_congr_right fun _ => ?_
  constructor
  · rintro ⟨id', hperm⟩
    -- the heap has grown by one key only
    have hsame := Multiset.coe_eq_coe.mpr (hpushed.symm.trans hperm)
    exact congrArg TimerKey.deadline
      ((Multiset.cons_inj_left (keysOf s : Multiset TimerKey)).mp hsame)
  · intro h
    exact ⟨id, by rwa [← h]⟩

/-! ## Runs -/

/-- The deadlines that a run computes are exact. -/
def DeadlinesExact (labels : List Label) : Prop :=
  Run.Along step (fun _ s l => ∀ s', step s l = some s' → DeadlineExact s l s') [] {} labels

/-- Nothing fires before the time that was asked for. -/
def NeverEarly (s : State) : Prop :=
  ∀ key callback now, .fired key callback now ∈ s.events →
    ∃ t ∈ timers s.events, t.id = key.id ∧ callback = t.callback ∧
      t.clock + periodMs t * 1000000 ≤ now

/-- A deadline that can be stored does not overflow. -/
private theorem noOverflow_of_representable {s : State} {l : Label} (h : Representable s l) :
    NoOverflow s l := by
  have hdeadline : deadlineOf s l = (operandsOf s l).map fun p => p.1 + p.2 * 1000000 := by
    cases l with
    | callbackDone =>
      cases hphase : s.phase with
      | calling now key isInterval =>
        cases isInterval with
        | true =>
          simp only [deadlineOf, operandsOf, hphase, Option.map_map]
          rfl
        | false => simp [deadlineOf, operandsOf, hphase]
      | _ => simp [deadlineOf, operandsOf, hphase]
    | _ => rfl
  intro time htime
  rw [hdeadline] at htime
  obtain ⟨p, hp, rfl⟩ := Option.map_eq_some_iff.mp htime
  exact (h p hp).2

private theorem StoreInvariant.neverEarly {s : State} (hinv : StoreInvariant s) : NeverEarly s := by
  intro key callback now hfired
  have hf := mem_firings hfired
  obtain ⟨t, ht, hid, hcallback, hdue⟩ := hinv.onSchedule.onTime key.id _ hf
  refine ⟨t, ht, hid, hcallback, ?_⟩
  rw [← hid] at hf
  obtain ⟨k, -, hdeadline⟩ := hinv.exists_dueAt ht hf
  have hfirst : dueAt t 0 ≤ dueAt t k := dueAt_mono t (Nat.zero_le k)
  rw [dueAt_zero] at hfirst
  simp only at hdue hdeadline
  omega

/-- Deadlines do not wrap, exactly if none of them leaves the range of the clock.  Then no timer
    fires before its delay has elapsed. -/
theorem deadlines_exact_iff {labels : List Label} {s : State}
    (hrun : Run.run step {} labels = some s) :
    (DeadlinesExact labels ↔ Run.Along step (fun _ => Representable) [] {} labels) ∧
      (Run.Along step (fun _ => Representable) [] {} labels → (timers s.events).length < 2 ^ 31 →
        NeverEarly s) := by
  refine ⟨⟨fun h => ?_, fun h => ?_⟩, fun h hcount => ?_⟩
  · exact h.imp_of_run hrun fun _ s l s' hstep hexact =>
      (deadlineExact_iff hstep).mp (hexact s' hstep)
  · exact h.imp_of_run hrun fun _ s l _ _ hrepr s' hstep => (deadlineExact_iff hstep).mpr hrepr
  · have hexact := h.imp_of_run hrun fun _ s l _ _ hrepr => noOverflow_of_representable hrepr
    exact (storeInvariant_of_run hrun hexact hcount).neverEarly

/-- An interval of 10 ms that is called for its first two deadlines. -/
theorem deadlines_exact_iff_oneInterval :
    let labels : List Label := [.setInterval 1 [] 10 0, .tick 20000000, .loop, .callbackDone, .loop]
    ∃ s, Run.run step {} labels = some s ∧ DeadlinesExact labels ∧ NeverEarly s := by
  intro labels
  have hevents : (Run.run step {} labels).map (fun s => (timers s.events).length) = some 1 := by
    decide +kernel
  have hrepr : Run.Along step (fun _ => Representable) [] {} labels := by decide +kernel
  obtain ⟨s, hrun, hlength⟩ := Option.map_eq_some_iff.mp hevents
  obtain ⟨hiff, hnever⟩ := deadlines_exact_iff hrun
  exact ⟨s, hrun, hiff.mpr hrepr, hnever hrepr (by omega)⟩

/-- v8 makes the largest 64-bit integer of the delay, and 5 ms after the clock's start the deadline
    is 1 ms in the past. -/
theorem endless_timeout_wraps :
    let info : List JsValue := [{ handle := 1, isFunction := true },
      { handle := 2, isNumber := true, integerValue := some (2 ^ 63 - 1) }]
    let labels : List Label := [.setTimeout 1 [] (2 ^ 63 - 1) 5000000, .tick 5000000, .loop]
    jsSetTimeout true info 5000000 = .ok (.setTimeout 1 [] (2 ^ 63 - 1) 5000000) ∧
      addMilliseconds 5000000 (2 ^ 63 - 1) = 4000000 ∧ ¬DeadlinesExact labels ∧
      ∃ s, Run.run step {} labels = some s ∧ ¬NeverEarly s := by
  intro info labels
  let t : SetTimer := ⟨1, .js 1 [], 2 ^ 63 - 1, false, 5000000⟩
  have hevents : (Run.run step {} labels).map State.events =
      some [.scheduled t, .ticked 5000000, .fired ⟨4000000, 1⟩ t.callback 5000000] := by
    decide +kernel
  obtain ⟨s, hrun, hs⟩ := Option.map_eq_some_iff.mp hevents
  refine ⟨rfl, by decide, fun h => ?_, s, hrun, fun h => ?_⟩
  · obtain ⟨s₁, hstep⟩ : ∃ s₁, step {} (.setTimeout 1 [] (2 ^ 63 - 1) 5000000) = some s₁ := ⟨_, rfl⟩
    exact absurd ((deadlineExact_iff hstep).mp (h.1 s₁ hstep)) (by decide)
  · obtain ⟨t', ht', -, -, hlate⟩ := h ⟨4000000, 1⟩ t.callback 5000000 (by simp [hs])
    obtain rfl : t' = t := by simpa [hs, timers] using ht'
    exact absurd hlate (by decide)

end Ppnt.Spec
