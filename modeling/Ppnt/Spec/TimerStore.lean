import Ppnt.Spec.TimerInvariant

/-!
# The timer store
-/

namespace Ppnt.Spec

open Ppnt.Native EventLoop

/-! ## Turns of a tick -/

/-- How often the key can be taken by `now`: an interval is 1 ms at least. -/
def dueBy (now : Int) (key : TimerKey) : Nat :=
  if key.deadline ≤ now then ((now - key.deadline) / 1000000).toNat + 1 else 0

/-- The turns that are left to the loop.  The key of the timer that is being called has had one. -/
def turnsLeft (now : Int) (s : State) : Nat :=
  ((keysOf s).map (dueBy now)).sum +
    match s.phase with
    | .idle => 0
    | .ticking _ => 1
    | .calling _ key _ => max 1 (dueBy now key)

/-- The event ends a turn of the loop or the part of it in front of the callback. -/
def isTurn : Event → Bool
  | .returned _ _ | .skipped _ | .fired _ _ _ => true
  | _ => false

/-- The event can happen in the tick that has read `now`: the clock does not go back. -/
def inTick (now : Int) : Event → Bool
  | .ticked _ => false
  | .scheduled t => now ≤ t.clock
  | _ => true

/-- The tick that has read `now` is going on or has returned. -/
def During (now : Int) : Phase → Prop
  | .idle => True
  | .ticking now' => now' = now
  | .calling now' _ _ => now' = now

private theorem dueBy_le_one {now : Int} {key : TimerKey} (h : now ≤ key.deadline) :
    dueBy now key ≤ 1 := by
  unfold dueBy
  split <;> omega

private theorem dueBy_pos {now : Int} {key : TimerKey} (h : key.deadline ≤ now) :
    0 < dueBy now key := by
  simp [dueBy, h]

/-- A period later there is one turn less, unless the period is 0. -/
private theorem dueBy_rearm (now : Int) (key : TimerKey) {ms : Int} (hms : 0 ≤ ms) :
    dueBy now ⟨key.deadline + ms * 1000000, key.id⟩ + 1 ≤
      max 1 (dueBy now key) + if ms < 1 then 1 else 0 := by
  unfold dueBy
  split <;> split <;> split <;> simp_all <;> omega

/-- The turns that a new timer brings. -/
def newlyDue (now : Int) : Event → Nat
  | .scheduled t => dueBy now ⟨dueAt t 0, t.id⟩
  | _ => 0

def isFinished : Event → Bool
  | .finished _ => true
  | _ => false

/-- The interval that is being called has been replaced, under its own id, by a timer without
    period: it will be pushed again for the same deadline. -/
def rearmsInPlace (s : State) : Nat :=
  match s.phase with
  | .calling _ key true =>
    (findTimer s key.id).elim 0 fun data => if data.intervalMs < 1 then 1 else 0
  | _ => 0

/-- A step makes one event. -/
theorem event_eq {s s' : State} {e e' : Event} (h : s'.events = s.events ++ [e])
    (h' : s'.events = s.events ++ [e']) : e = e' := by
  simpa using h.symm.trans h'

/-- What a step of a tick does to the turns that are left. -/
theorem Does.turnsLeft_le_add {s s' : State} (h : Does s s')
    (hnonneg : ∀ id data, findTimer s id = some data → 0 ≤ data.intervalMs) {now : Int}
    (hduring : During now s.phase) {e : Event} (hevents : s'.events = s.events ++ [e])
    (htick : ∀ now', e ≠ .ticked now') :
    During now s'.phase ∧
      turnsLeft now s' + (if isTurn e then 1 else 0) ≤
        turnsLeft now s + newlyDue now e + if isFinished e then rearmsInPlace s else 0 := by
  cases h with
  | @schedule t l hphase hid hnext hkeys hfind =>
    obtain rfl := event_eq hevents rfl
    refine ⟨hduring, ?_⟩
    have hsum := (hkeys.map (dueBy now)).sum_nat
    simp only [turnsLeft, keysOf, isTurn, newlyDue, isFinished, List.map_cons, List.sum_cons,
      Bool.false_eq_true, if_false] at hsum ⊢
    omega
  | @cancel id l hphase hnext hkeys hfind | @clear l hphase hnext hkeys hfind =>
    obtain rfl := event_eq hevents rfl
    refine ⟨hduring, ?_⟩
    simp [turnsLeft, keysOf, hkeys, isTurn, newlyDue, isFinished]
  | @tick now' hphase =>
    obtain rfl := event_eq hevents rfl
    exact absurd rfl (htick now')
  | returns hphase hlate =>
    obtain rfl := event_eq hevents rfl
    refine ⟨trivial, ?_⟩
    simp [turnsLeft, keysOf, hphase, isTurn, newlyDue, isFinished]
  | @skip now' key l hphase htop hdue hnone hnext hkeys hfind =>
    obtain rfl : now' = now := by simpa [hphase, During] using hduring
    obtain rfl := event_eq hevents rfl
    refine ⟨rfl, ?_⟩
    have hpos := dueBy_pos hdue
    have hsum := (hkeys.map (dueBy now')).sum_nat
    simp only [turnsLeft, keysOf, isTurn, newlyDue, hphase, List.map_cons, List.sum_cons,
      if_true] at hsum ⊢
    omega
  | @fire now' key data l hphase htop hdue hsome hnext hkeys hfind =>
    -- the turn is taken from the key, which is now in the phase
    obtain rfl : now' = now := by simpa [hphase, During] using hduring
    obtain rfl := event_eq hevents rfl
    refine ⟨rfl, ?_⟩
    have hpos := dueBy_pos hdue
    have hsum := (hkeys.map (dueBy now')).sum_nat
    simp only [turnsLeft, keysOf, isTurn, newlyDue, hphase, List.map_cons, List.sum_cons,
      if_true] at hsum ⊢
    omega
  | @rearm now' key data l hphase hsome hnext hkeys hfind =>
    obtain rfl : now' = now := by simpa [hphase, During] using hduring
    obtain rfl := event_eq hevents rfl
    refine ⟨rfl, ?_⟩
    have hdue := dueBy_rearm now' key (hnonneg key.id data hsome)
    have hplace : rearmsInPlace s = if data.intervalMs < 1 then 1 else 0 := by
      simp [rearmsInPlace, hphase, hsome]
    have hsum := (hkeys.map (dueBy now')).sum_nat
    simp only [turnsLeft, keysOf, isTurn, newlyDue, isFinished, hphase, hplace, List.map_cons,
      List.sum_cons, Bool.false_eq_true, if_false, if_true] at hsum ⊢
    omega
  | @finish now' key isInterval hphase hnone =>
    obtain rfl : now' = now := by simpa [hphase, During] using hduring
    obtain rfl := event_eq hevents rfl
    refine ⟨rfl, ?_⟩
    simp only [turnsLeft, keysOf, hphase, isTurn, newlyDue, Bool.false_eq_true, if_false]
    omega

/-- A turn uses up one of the turns that are left, and a new timer adds one. -/
private theorem Does.turnsLeft_le {s s' : State} (h : Does s s') (hinv : StoreInvariant s)
    {now : Int} (hduring : During now s.phase) {e : Event} (hevents : s'.events = s.events ++ [e])
    (htick : inTick now e = true) :
    During now s'.phase ∧
      turnsLeft now s' + (if isTurn e then 1 else 0) ≤
        turnsLeft now s + (timerOf e).toList.length := by
  have hnonneg : ∀ id data, findTimer s id = some data → 0 ≤ data.intervalMs := by
    intro id data hdata
    obtain ⟨t, -, -, rfl⟩ := hinv.stored.find id data hdata
    exact periodMs_nonneg t
  -- as ids are not used twice, the interval that is called is still itself
  have hplace : rearmsInPlace s = 0 := by
    unfold rearmsInPlace
    split
    · next now' key hphase =>
      cases hdata : findTimer s key.id with
      | none => rfl
      | some data =>
        have hone := hinv.one_le_intervalMs hphase hdata
        exact if_neg (by omega)
    · rfl
  -- a new timer is due at most once, and only at `now`
  have hnew : newlyDue now e ≤ (timerOf e).toList.length := by
    cases e with
    | scheduled t => exact dueBy_le_one ((of_decide_eq_true htick).trans (clock_le_dueAt_zero t))
    | _ => exact Nat.zero_le _
  obtain ⟨hduring', hle⟩ := h.turnsLeft_le_add hnonneg hduring hevents fun now' he => by
    simp [he, inTick] at htick
  refine ⟨hduring', ?_⟩
  rw [hplace, ite_self] at hle
  omega

/-- The loop of a tick makes as many turns as there were due at most, and one more for each timer
    that is set in the meantime.  So it ends if the callbacks do. -/
def TickEnds (s : State) : Prop :=
  ∀ now, s.phase = .ticking now → ∀ labels s' new, Run.run step s labels = some s' →
    Run.Along step (fun _ => NoOverflow) [] s labels → (timers s'.events).length < 2 ^ 31 →
    s'.events = s.events ++ new → (∀ e ∈ new, inTick now e = true) →
    new.countP isTurn ≤ turnsLeft now s + (timers new).length

/-- The turns that have been made and those that are left. -/
def TurnsBound (now : Int) (s₀ s : State) : Prop :=
  ∃ new, s.events = s₀.events ++ new ∧ ((∀ e ∈ new, inTick now e = true) →
    During now s.phase ∧
      new.countP isTurn + turnsLeft now s ≤ turnsLeft now s₀ + (timers new).length)

theorem TurnsBound.does {s₀ s s' : State} {now : Int} (hb : TurnsBound now s₀ s)
    (hinv : StoreInvariant s) (h : Does s s') : TurnsBound now s₀ s' := by
  obtain ⟨new, hnew, hbound⟩ := hb
  obtain ⟨e, hevents⟩ := h.events
  refine ⟨new ++ [e], by rw [hevents, hnew, List.append_assoc], fun htick => ?_⟩
  obtain ⟨hduring, hle⟩ := hbound fun e' he' => htick e' (List.mem_append_left _ he')
  obtain ⟨hduring', hle'⟩ := h.turnsLeft_le hinv hduring hevents (htick e (by simp))
  refine ⟨hduring', ?_⟩
  rw [List.countP_append, List.countP_singleton, timers_snoc, List.length_append]
  omega

private theorem StoreInvariant.tickEnds {s : State} (hinv : StoreInvariant s) : TickEnds s := by
  intro now hphase labels s' new hrun hexact hcount hnew htick
  let inv (s₁ : State) : Prop :=
    (timers s₁.events).length < 2 ^ 31 → StoreInvariant s₁ ∧ TurnsBound now s s₁
  have hkeep : ∀ s₁ l s₂, inv s₁ → NoOverflow s₁ l → step s₁ l = some s₂ → inv s₂ := by
    intro s₁ l s₂ ih hexact hstep hcount
    have h := does_of_step hexact hstep
    obtain ⟨hstore, hbound⟩ := ih (h.length_timers_le.trans_lt hcount)
    exact ⟨hstore.does h hcount, hbound.does hstore h⟩
  have hinit : inv s := fun _ => ⟨hinv, [], by simp, fun _ => ⟨by simp [During, hphase], by simp⟩⟩
  obtain ⟨-, new', hnew', hbound⟩ := Run.stateInvariant_along hkeep hinit hexact hrun hcount
  obtain rfl := List.append_cancel_left (hnew'.symm.trans hnew)
  have := (hbound htick).2
  omega

/-! ## What the loop is for -/

/-- The store and the firings are as they should be. -/
structure TimersRight (s : State) : Prop where
  /-- Outside of a callback, an id in the map has exactly one key in the heap. -/
  oneKey : (∀ now key isInterval, s.phase ≠ .calling now key isInterval) →
    ∀ id, findTimer s id ≠ none → (heapIds s).count id = 1
  /-- No id has two keys. -/
  nodup : (heapIds s).Nodup
  /-- A timer is known by its id. -/
  ids : ((timers s.events).map SetTimer.id).Nodup
  /-- What is fired is a timer, with its own callback, for one of its deadlines, which is not after
      the time of the tick.  A timeout has one deadline. -/
  onTime : ∀ key callback now, .fired key callback now ∈ s.events →
    ∃ t ∈ timers s.events, t.id = key.id ∧ callback = t.callback ∧ key.deadline ≤ now ∧
      ∃ k, key.deadline = dueAt t k ∧ (t.isInterval = false → k = 0)
  /-- A timeout fires at most once. -/
  once : ∀ t ∈ timers s.events, t.isInterval = false → (firings t.id s.events).length ≤ 1
  /-- A timer does not fire after it was cancelled. -/
  cancelled : ∀ pre e post id, s.events = pre ++ e :: post → ends id e = true →
    id ∈ (timers pre).map SetTimer.id → firings id post = []
  /-- When a tick returns, an interval that was not cancelled has fired once for each deadline up to
      the time of the tick, in order. -/
  interval : ∀ pre now pending, s.events = pre ++ [.returned now pending] →
    ∀ t ∈ timers s.events, t.isInterval = true → ¬EndedIn t.id s.events →
      ∃ n, (firings t.id s.events).map Firing.deadline = (List.range n).map (dueAt t) ∧
        now < dueAt t n

private theorem StoreInvariant.length_firings_le {s : State} (hinv : StoreInvariant s)
    {t : SetTimer} (ht : t ∈ timers s.events) (hshot : t.isInterval = false) :
    (firings t.id s.events).length ≤ 1 := by
  cases hinv.onSchedule.oneShot t ht hshot with
  | inl hnil => simp [hnil]
  | inr hone => omega

private theorem StoreInvariant.mem_heapIds {s : State} (hinv : StoreInvariant s)
    (hphase : ∀ now key isInterval, s.phase ≠ .calling now key isInterval) {id : Int}
    (hfind : findTimer s id ≠ none) : id ∈ heapIds s := by
  obtain ⟨data, hdata⟩ := Option.ne_none_iff_exists'.mp hfind
  have hheld := hinv.stored.held id data hdata
  cases hp : s.phase with
  | calling now key isInterval => exact absurd hp (hphase now key isInterval)
  | idle | ticking now => simpa [heldIds, hp] using hheld

/-- In every run whose deadlines do not overflow, the store and the firings are right, and the turns
    of a tick are bounded by what was due and what its callbacks set. -/
theorem timers_right {labels : List Label} {s : State} (hrun : Run.run step {} labels = some s)
    (hexact : Run.Along step (fun _ => NoOverflow) [] {} labels)
    (hcount : (timers s.events).length < 2 ^ 31) : TimersRight s ∧ TickEnds s := by
  have hinv := storeInvariant_of_run hrun hexact hcount
  refine ⟨?_, hinv.tickEnds⟩
  constructor
  · intro hphase id hfind
    exact List.count_eq_one_of_mem hinv.nodup_heapIds (hinv.mem_heapIds hphase hfind)
  · exact hinv.nodup_heapIds
  · exact hinv.numbered.nodup
  · intro key callback now hmem
    have hf := mem_firings hmem
    obtain ⟨t, ht, hid, hcallback, hdue⟩ := hinv.onSchedule.onTime key.id _ hf
    rw [← hid] at hf
    obtain ⟨k, hk, hdeadline⟩ := hinv.exists_dueAt ht hf
    refine ⟨t, ht, hid, hcallback, hdue, k, hdeadline, fun hshot => ?_⟩
    have := hinv.length_firings_le ht hshot
    omega
  · intro t ht hshot
    exact hinv.length_firings_le ht hshot
  · intro pre e post id hevents hends hmem
    exact (hinv.endsRight.ended pre e post id hevents hends hmem).2
  · intro pre now pending hevents t ht hinterval hopen
    obtain ⟨hidle, hlate⟩ := hinv.returned pre now pending hevents
    have hfind := hinv.endsRight.live t ht hinterval hopen
    have hmem := hinv.mem_heapIds (fun _ _ _ hcall => nomatch hidle.symm.trans hcall) hfind
    obtain ⟨key, hkey, hid⟩ := List.mem_map.mp hmem
    -- the key that is left in the heap has the next deadline
    have hnext := hinv.onSchedule.key key hkey t ht hid.symm
    exact ⟨_, hinv.onSchedule.fired t ht, hnext ▸ hlate key hkey⟩

/-- A tick that fires an interval twice and a timeout once. -/
def twoTimers : List Label :=
  [.setInterval 1 [] 10 0, .setTimeout 2 [] 20 0, .tick 20000000, .loop, .callbackDone, .loop,
    .callbackDone, .loop, .callbackDone, .loop]

theorem timers_right_twoTimers :
    ∃ s, Run.run step {} twoTimers = some s ∧
      Run.Along step (fun _ => NoOverflow) [] {} twoTimers ∧
      (timers s.events).length < 2 ^ 31 ∧ TimersRight s ∧ TickEnds s := by
  have hevents : ((Run.run step {} twoTimers).map fun s => (timers s.events).length) = some 2 := by
    decide +kernel
  have halong : Run.Along step (fun _ => NoOverflow) [] {} twoTimers := by decide +kernel
  obtain ⟨s, hrun, hlength⟩ := Option.map_eq_some_iff.mp hevents
  have hcount : (timers s.events).length < 2 ^ 31 := by omega
  exact ⟨s, hrun, halong, hcount, timers_right hrun halong hcount⟩

/-- The delay is the longest there is, and the deadline overflows. -/
theorem infinite_timeout_fires :
    let t : SetTimer := ⟨1, .js 1 [], 2 ^ 63 - 1, false, 5000000⟩
    let labels : List Label := [.setTimeout 1 [] (2 ^ 63 - 1) 5000000, .tick 5000000, .loop]
    5000000 < dueAt t 0 ∧ ∃ s, Run.run step {} labels = some s ∧
      s.events = [.scheduled t, .ticked 5000000, .fired ⟨4000000, 1⟩ t.callback 5000000] ∧
      ¬TimersRight s := by
  intro t labels
  have hevents : (Run.run step {} labels).map State.events =
      some [.scheduled t, .ticked 5000000, .fired ⟨4000000, 1⟩ t.callback 5000000] := by
    decide +kernel
  obtain ⟨s, hrun, hs⟩ := Option.map_eq_some_iff.mp hevents
  refine ⟨by decide, s, hrun, hs, fun hright => ?_⟩
  -- 4 ms is not a deadline of the timer
  obtain ⟨t', ht', -, -, -, k, hdeadline, hshot⟩ :=
    hright.onTime ⟨4000000, 1⟩ t.callback 5000000 (by simp [hs])
  have hmem : t' = t := by simpa [hs, timers] using ht'
  subst hmem
  obtain rfl := hshot rfl
  exact absurd hdeadline (by decide)

end Ppnt.Spec
