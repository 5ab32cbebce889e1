import Ppnt.Spec.TimerStore

/-!
# A tick ends

The loop of `tick` pushes into the heap that it empties: an interval that is overdue is pushed again
for its next deadline, and callbacks set timers.  What is left is the number of deadlines up to the
time of the tick (`turnsLeft`).  A timer that is set after this time is not among them, and an
interval loses one each time it is called, since its period is 1 ms at least.

The period is looked up by id behind the callback.  A callback that cancels its own interval, and
sets so many timers that the counter comes round to its id, can put a timer without period in its
place, and the key is pushed again for the same deadline (`rearmsInPlace`).
-/

namespace Ppnt.Spec

open Ppnt.Native EventLoop

/-! ## Periods -/

/-- A period is not negative, and that of an interval is 1 ms at least. -/
def PeriodsRight (s : State) : Prop :=
  ∀ id data, findTimer s id = some data →
    0 ≤ data.intervalMs ∧ (data.isInterval = true → 1 ≤ data.intervalMs)

private theorem periodsRight_step (s : State) (l : Label) (s' : State) (h : PeriodsRight s)
    (hstep : step s l = some s') : PeriodsRight s' := by
  intro id data hdata
  cases find_of_step hstep hdata with
  | inl hold => exact h id data hold
  | inr hnew =>
    obtain ⟨t, rfl⟩ := hnew
    refine ⟨periodMs_nonneg t, fun hinterval => ?_⟩
    have hperiod : (dataOf t).intervalMs = max 1 t.delayMs := by
      simp [dataOf, periodMs, show t.isInterval = true from hinterval]
    omega

private theorem periodsRight_init : PeriodsRight {} := by
  intro id data hdata
  simp [findTimer] at hdata

/-! ## The measure -/

/-- The turns that are left, with the one that a replaced interval takes twice. -/
def turnsBudget (now : Int) (s : State) : Nat := turnsLeft now s + rearmsInPlace s

/-- The timer that the event sets gets the id of the timer that is being called. -/
def takesCalledId (s : State) : Event → Nat
  | .scheduled t => (callingIds s.phase).count t.id
  | _ => 0

private theorem takesCalledId_le (s : State) (e : Event) :
    takesCalledId s e ≤ (timerOf e).toList.length := by
  cases e with
  | scheduled t =>
    cases hphase : s.phase with
    | calling now key isInterval =>
      simp only [takesCalledId, hphase, callingIds, timerOf, Option.toList_some]
      exact List.count_le_length
    | _ => simp [takesCalledId, hphase]
  | _ => exact Nat.zero_le _

private theorem rearmsInPlace_le_one (s : State) : rearmsInPlace s ≤ 1 := by
  unfold rearmsInPlace
  split
  · next now key hphase =>
    cases findTimer s key.id with
    | none => exact Nat.zero_le 1
    | some data =>
      simp only [Option.elim_some]
      split <;> omega
  · exact Nat.zero_le 1

/-- The interval that is being called has kept its timer or lost it. -/
private theorem rearmsInPlace_le_of_kept {s s' : State} (hphase : s'.phase = s.phase)
    (hkept : ∀ now key, s.phase = .calling now key true →
      findTimer s' key.id = findTimer s key.id ∨ findTimer s' key.id = none) :
    rearmsInPlace s' ≤ rearmsInPlace s := by
  unfold rearmsInPlace
  rw [hphase]
  split
  · next now key hcall =>
    cases hkept now key hcall with
    | inl hsame => rw [hsame]
    | inr hgone => simp [hgone]
  · exact le_rfl

/-- Only a timer that takes the id of the interval that is being called can replace it. -/
private theorem Does.rearmsInPlace_le {s s' : State} (h : Does s s') (hperiods : PeriodsRight s)
    {e : Event} (hevents : s'.events = s.events ++ [e]) :
    rearmsInPlace s' + (if isFinished e then rearmsInPlace s else 0) ≤
      rearmsInPlace s + takesCalledId s e := by
  cases h with
  | @schedule t l hphase hid hnext hkeys hfind =>
    obtain rfl := event_eq hevents rfl
    simp only [isFinished, Bool.false_eq_true, if_false, Nat.add_zero]
    -- the counter has wrapped: the timer takes the id of the one being called
    by_cases hsame : t.id ∈ callingIds s.phase
    · have hone : 1 ≤ takesCalledId s (.scheduled t) := List.one_le_count_iff.mpr hsame
      have hle := rearmsInPlace_le_one ⟨l, s.phase, s.events ++ [.scheduled t]⟩
      omega
    · have hle : rearmsInPlace ⟨l, s.phase, s.events ++ [.scheduled t]⟩ ≤ rearmsInPlace s := by
        apply rearmsInPlace_le_of_kept
        · rfl
        · intro now key hcall
          have hne : key.id ≠ t.id := by simpa [hcall, eq_comm] using hsame
          exact .inl ((hfind key.id).trans (if_neg fun hc => hne hc.1))
      omega
  | @cancel id l hphase hnext hkeys hfind =>
    obtain rfl := event_eq hevents rfl
    show rearmsInPlace ⟨l, s.phase, s.events ++ [.cancelled id]⟩ ≤ rearmsInPlace s
    apply rearmsInPlace_le_of_kept
    · rfl
    · intro now key hcall
      by_cases hsame : key.id = id
      · exact .inr ((hfind key.id).trans (if_pos hsame))
      · exact .inl ((hfind key.id).trans (if_neg hsame))
  | @clear l hphase hnext hkeys hfind =>
    obtain rfl := event_eq hevents rfl
    show rearmsInPlace ⟨l, s.phase, s.events ++ [.cleared]⟩ ≤ rearmsInPlace s
    apply rearmsInPlace_le_of_kept
    · rfl
    · exact fun now key hcall => .inr (hfind key.id)
  | tick hphase | returns hphase hlate | skip hphase htop hdue hnone hnext hkeys hfind =>
    obtain rfl := event_eq hevents rfl
    exact Nat.zero_le _
  | @fire now key data l hphase htop hdue hsome hnext hkeys hfind =>
    obtain rfl := event_eq hevents rfl
    -- a timer is called with the interval that was set, at least 1 ms
    have hnone : rearmsInPlace ⟨l, .calling now key data.isInterval,
        s.events ++ [.fired key data.callback now]⟩ = 0 := by
      cases hinterval : data.isInterval with
      | false => rfl
      | true =>
        have hkept : l.timerMap[key.id]? = some data := by simp [hfind, hinterval, hsome]
        have hone := (hperiods key.id data hsome).2 hinterval
        simp only [rearmsInPlace, findTimer, hkept, Option.elim_some]
        exact if_neg (by omega)
    simp only [isFinished, Bool.false_eq_true, if_false]
    omega
  | rearm hphase hsome hnext hkeys hfind | finish hphase hnone =>
    obtain rfl := event_eq hevents rfl
    show 0 + rearmsInPlace s ≤ rearmsInPlace s + 0
    omega

private theorem newlyDue_of_later {now : Int} {e : Event}
    (hlater : ∀ t, e = .scheduled t → now < t.clock) : newlyDue now e = 0 := by
  cases e with
  | scheduled t =>
    have hclock := hlater t rfl
    have hdue := clock_le_dueAt_zero t
    exact if_neg (show ¬dueAt t 0 ≤ now by omega)
  | _ => rfl

/-- A step of a tick. -/
theorem Does.turnsBudget_le {s s' : State} (h : Does s s') (hperiods : PeriodsRight s) {now : Int}
    (hduring : During now s.phase) {e : Event} (hevents : s'.events = s.events ++ [e])
    (htick : ∀ now', e ≠ .ticked now') (hlater : ∀ t, e = .scheduled t → now < t.clock) :
    During now s'.phase ∧
      turnsBudget now s' + (if isTurn e then 1 else 0) ≤ turnsBudget now s + takesCalledId s e := by
  obtain ⟨hduring', hturns⟩ :=
    h.turnsLeft_le_add (fun id data hd => (hperiods id data hd).1) hduring hevents htick
  have hplace := h.rearmsInPlace_le hperiods hevents
  rw [newlyDue_of_later hlater] at hturns
  simp only [turnsBudget]
  exact ⟨hduring', by omega⟩

/-- In its loop, a tick takes a turn. -/
private theorem Does.isTurn_of_ticking {s s' : State} (h : Does s s') {now : Int}
    (hphase : s.phase = .ticking now) {e : Event} (hevents : s'.events = s.events ++ [e]) :
    isTurn e = true := by
  cases h with
  | returns | skip | fire =>
    obtain rfl := List.singleton_inj.mp (List.append_cancel_left hevents)
    rfl
  | schedule hcall | cancel hcall | clear hcall => exact absurd hphase (hcall now)
  | tick hp | rearm hp | finish hp => cases hp.symm.trans hphase

/-! ## Infinite runs -/

/-- Up to the `n`-th state the tick has not returned. -/
def TickUpTo (exec : Nat → State) (n : Nat) : Prop := ∀ m ≤ n, (exec m).phase ≠ .idle

/-- What is assumed of the callbacks while a tick that has read `now` has not returned. -/
structure CallbacksEnd (now : Int) (exec : Nat → State) (label : Nat → Label) : Prop where
  /-- A callback ends. -/
  ends : ∀ n now' key isInterval, TickUpTo exec n → (exec n).phase = .calling now' key isInterval →
    ∃ m, n ≤ m ∧ label m = .callbackDone
  /-- The clock shows a later time when a callback sets a timer. -/
  later : ∀ n t, TickUpTo exec n → timerSet (exec n) (label n) = some t → now < t.clock
  /-- No deadline overflows. -/
  exact : ∀ n, TickUpTo exec n → NoOverflow (exec n) (label n)
  /-- Finitely many timers are set.  There may be infinitely many if the counter of ids does not
      come round to the timer that is being called. -/
  finite : (∃ bound, ∀ n, TickUpTo exec n → (timers (exec n).events).length ≤ bound) ∨
    ∀ n t, TickUpTo exec n → timerSet (exec n) (label n) = some t → t.id ∉ callingIds (exec n).phase

section Execution

variable {s : State} {now : Int} {exec : Nat → State} {label : Nat → Label}

/-- What the `n`-th step does, as long as the tick has not returned. -/
theorem CallbacksEnd.step (hexec : Run.Execution step exec label)
    (hcalls : CallbacksEnd now exec label)
    (hnever : ∀ n, (exec n).phase ≠ .idle) (hperiods : ∀ n, PeriodsRight (exec n)) (n : Nat)
    (hduring : During now (exec n).phase) :
    ∃ e, (exec (n + 1)).events = (exec n).events ++ [e] ∧ timerOf e = timerSet (exec n) (label n) ∧
      During now (exec (n + 1)).phase ∧
      turnsBudget now (exec (n + 1)) + (if isTurn e then 1 else 0) ≤
        turnsBudget now (exec n) + takesCalledId (exec n) e ∧
      ∀ now', (exec n).phase = .ticking now' → isTurn e = true := by
  have hup : TickUpTo exec n := fun m _ => hnever m
  have h := does_of_step (hcalls.exact n hup) (hexec n)
  obtain ⟨e, hevents, hset, hticked, -⟩ := event_of_step (hexec n)
  obtain ⟨hduring', hle⟩ := h.turnsBudget_le (hperiods n) hduring hevents
    (fun now' he => hnever n (hticked now' he))
    (fun t he => hcalls.later n t hup (by rw [← hset, he, timerOf]))
  exact ⟨e, hevents, hset, hduring', hle, fun now' hphase => h.isTurn_of_ticking hphase hevents⟩

/-- As long as the tick has not returned, its loop makes turns. -/
private theorem CallbacksEnd.exists_ticking (hexec : Run.Execution EventLoop.step exec label)
    (hcalls : CallbacksEnd now exec label) (hnever : ∀ n, (exec n).phase ≠ .idle) (n : Nat) :
    ∃ m now', n ≤ m ∧ (exec m).phase = .ticking now' := by
  cases hphase : (exec n).phase with
  | idle => exact absurd hphase (hnever n)
  | ticking now' => exact ⟨n, now', le_rfl, hphase⟩
  | calling now' key isInterval =>
    obtain ⟨m, hnm, hdone⟩ := hcalls.ends n now' key isInterval (fun m _ => hnever m) hphase
    -- behind its callback the tick is in its loop
    have hstep := hexec m
    rw [hdone] at hstep
    simp only [EventLoop.step] at hstep
    split at hstep
    · next now'' key' isInterval' _ =>
      have hnext := Option.some.inj hstep
      exact ⟨m + 1, now'', by omega, by rw [← hnext]; rfl⟩
    · cases hstep

/-- The tick returns if the turns that timers with the id of the called one bring are paid for by a
    `slack` that only falls. -/
private theorem CallbacksEnd.returns_of_slack (hexec : Run.Execution EventLoop.step exec label)
    (hcalls : CallbacksEnd now exec label) (hperiods : ∀ n, PeriodsRight (exec n))
    (hduring : During now (exec 0).phase) (slack : State → Nat)
    (hslack : (∀ n, (exec n).phase ≠ .idle) → ∀ n e,
      (exec (n + 1)).events = (exec n).events ++ [e] → timerOf e = timerSet (exec n) (label n) →
      takesCalledId (exec n) e + slack (exec (n + 1)) ≤ slack (exec n)) :
    ∃ n, (exec n).phase = .idle := by
  have hall : (∀ n, (exec n).phase ≠ .idle) → ∀ n, During now (exec n).phase := by
    intro hnever n
    induction n with
    | zero => exact hduring
    | succ n ih =>
      obtain ⟨e, -, -, hduring', -⟩ := hcalls.step hexec hnever hperiods n ih
      exact hduring'
  apply Run.exists_of_measure exec (fun s => s.phase = .idle) fun s => turnsBudget now s + slack s
  · intro hnever n
    obtain ⟨e, hevents, hset, -, hle, -⟩ := hcalls.step hexec hnever hperiods n (hall hnever n)
    have hpaid := hslack hnever n e hevents hset
    omega
  · -- a turn of the loop takes one from the budget
    intro hnever n
    obtain ⟨m, now', hnm, hticking⟩ := hcalls.exists_ticking hexec hnever n
    obtain ⟨e, hevents, hset, -, hle, hturn⟩ := hcalls.step hexec hnever hperiods m (hall hnever m)
    have hpaid := hslack hnever m e hevents hset
    rw [if_pos (hturn now' hticking)] at hle
    exact ⟨m, hnm, by omega⟩

/-- In a state that any run reaches, a tick whose callbacks end returns, however many intervals are
    overdue and whatever the callbacks set and cancel. -/
theorem tick_terminates {past : List Label} (hreach : Run.run step {} past = some s)
    (hduring : During now s.phase) (hstart : exec 0 = s) (hexec : Run.Execution step exec label)
    (hcalls : CallbacksEnd now exec label) : ∃ n, (exec n).phase = .idle := by
  subst hstart
  have hperiods : ∀ n, PeriodsRight (exec n) := hexec.stateInvariant periodsRight_step
    (Run.stateInvariant_of_run periodsRight_step periodsRight_init hreach)
  cases hcalls.finite with
  | inl hfinite =>
    -- a timer that is set may bring a turn, but there are only finitely many
    obtain ⟨bound, hbound⟩ := hfinite
    apply hcalls.returns_of_slack hexec hperiods hduring fun s => bound - (timers s.events).length
    intro hnever n e hevents _
    have htakes := takesCalledId_le (exec n) e
    have hcount := hbound (n + 1) fun m _ => hnever m
    simp only [hevents, timers_snoc, List.length_append] at hcount ⊢
    omega
  | inr hfresh =>
    -- no timer takes the id of the called one
    apply hcalls.returns_of_slack hexec hperiods hduring fun _ => 0
    intro hnever n e _ hset
    cases e with
    | scheduled t =>
      have hzero := List.count_eq_zero.mpr (hfresh n t (fun m _ => hnever m) hset.symm)
      exact hzero.le
    | _ => exact le_rfl

end Execution

/-- An interval of 2 ms that is called twice in a tick at 5 ms, and sets a timeout. -/
def overduePast : List Label := [.setInterval 1 [] 2 0, .tick 5000000]

def overdueLabels : Nat → Label
  | 0 => .loop
  | 1 => .setTimeout 2 [] 0 6000000
  | 2 => .callbackDone
  | 3 => .loop
  | 4 => .callbackDone
  | 5 => .loop
  | _ => .clearAll

def overdueStates : Nat → State
  | 0 => (Run.run step {} overduePast).getD {}
  | n + 1 => (step (overdueStates n) (overdueLabels n)).getD (overdueStates n)

theorem tick_terminates_overdue :
    ∃ s, Run.run step {} overduePast = some s ∧ During 5000000 s.phase ∧ overdueStates 0 = s ∧
      Run.Execution step overdueStates overdueLabels ∧
      CallbacksEnd 5000000 overdueStates overdueLabels ∧ ∃ n, (overdueStates n).phase = .idle := by
  have hphases : (List.range 7).map (fun n => (overdueStates n).phase) =
      [.ticking 5000000, .calling 5000000 ⟨2000000, 1⟩ true, .calling 5000000 ⟨2000000, 1⟩ true,
        .ticking 5000000, .calling 5000000 ⟨4000000, 1⟩ true, .ticking 5000000, .idle] := by
    decide +kernel
  have hsome : ∀ n < 6, (step (overdueStates n) (overdueLabels n)).isSome := by decide +kernel
  -- from there on `clear_all` is called for ever
  have hidle : ∀ n, (overdueStates (n + 6)).phase = .idle := by
    intro n
    induction n with
    | zero => exact congrArg (fun l => l.getLast?.getD (.ticking 0)) hphases
    | succ n ih =>
      show ((step (overdueStates (n + 6)) .clearAll).getD _).phase = .idle
      simp [step, State.act, ih]
  have hexec : Run.Execution step overdueStates overdueLabels := by
    intro n
    obtain ⟨s', hs'⟩ : ∃ s', step (overdueStates n) (overdueLabels n) = some s' := by
      by_cases hn : n < 6
      · exact Option.isSome_iff_exists.mp (hsome n hn)
      · obtain ⟨k, rfl⟩ : ∃ k, n = k + 6 := ⟨n - 6, by omega⟩
        exact ⟨_, by simp [overdueLabels, step, State.act, hidle k]; rfl⟩
    rw [hs', overdueStates, hs']
    rfl
  -- only the first six states belong to the tick
  have hup : ∀ n, TickUpTo overdueStates n → n < 6 := by
    intro n h
    by_contra hge
    exact h 6 (by omega) (hidle 0)
  have hcalls : CallbacksEnd 5000000 overdueStates overdueLabels := by
    constructor
    · intro n now' key isInterval h hphase
      have hlt : n ≠ 5 := by
        rintro rfl
        have hfive : (overdueStates 5).phase = .ticking 5000000 :=
          Option.some.inj (congrArg (fun l => l[5]?) hphases)
        cases hfive.symm.trans hphase
      exact ⟨4, by have := hup n h; omega, rfl⟩
    · intro n t h ht
      have hclock : ∀ n < 6, ∀ t ∈ timerSet (overdueStates n) (overdueLabels n),
        5000000 < t.clock := by
        decide +kernel
      exact hclock n (hup n h) t ht
    · intro n h
      have hexact : ∀ n < 6, NoOverflow (overdueStates n) (overdueLabels n) := by decide +kernel
      exact hexact n (hup n h)
    · have hcount : ∀ n < 6, (timers (overdueStates n).events).length ≤ 2 := by decide +kernel
      exact .inl ⟨2, fun n h => hcount n (hup n h)⟩
  obtain ⟨s, hs⟩ : ∃ s, Run.run step {} overduePast = some s := ⟨_, rfl⟩
  have hstart : overdueStates 0 = s := by rw [overdueStates, hs]; rfl
  have hduring : During 5000000 s.phase := by
    rw [← hstart, show (overdueStates 0).phase = .ticking 5000000 from
      Option.some.inj (congrArg (fun l => l[0]?) hphases)]
    rfl
  exact ⟨s, hs, hduring, hstart, hexec, hcalls, tick_terminates hs hduring hstart hexec hcalls⟩

end Ppnt.Spec
