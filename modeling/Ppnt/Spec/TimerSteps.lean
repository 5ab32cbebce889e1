import Mathlib.Tactic.Ring
import Ppnt.ForStd.Run
import Ppnt.Native.EventLoop

/-!
# What a step of the event loop does

`Does` lists what a step can do, with the heap as a list in any order and the map as a function.
The invariants are proved from this list alone.

The log of events says what was meant: `timers` are the timers that were set, `dueAt` their
deadlines, and `firings` the calls that were made.
-/

namespace Ppnt.Spec

open Ppnt.Native EventLoop

/-! ## The log -/

/-- The delay of a timeout, or the period of an interval. -/
def periodMs (t : SetTimer) : Int := if t.isInterval then max 1 t.delayMs else max 0 t.delayMs

/-- The deadlines of a timer.  A timeout has the first one only. -/
def dueAt (t : SetTimer) (k : Nat) : Int := t.clock + (k + 1) * (periodMs t * 1000000)

/-- What the map holds for the timer. -/
def dataOf (t : SetTimer) : TimerData := ⟨t.callback, t.isInterval, periodMs t⟩

def timerOf : Event → Option SetTimer
  | .scheduled t => some t
  | _ => none

def timers (es : List Event) : List SetTimer := es.filterMap timerOf

/-- A call of a timer, in a tick that has read `now` from the clock. -/
structure Firing where
  deadline : Int
  now : Int
  callback : TimerCallback

def firingOf (id : Int) : Event → Option Firing
  | .fired key callback now => if key.id = id then some ⟨key.deadline, now, callback⟩ else none
  | _ => none

def firings (id : Int) (es : List Event) : List Firing := es.filterMap (firingOf id)

/-- The event ends the timer. -/
def ends (id : Int) : Event → Bool
  | .cancelled id' => id' = id
  | .cleared => true
  | _ => false

/-- The timer was set, and then cancelled. -/
def EndedIn (id : Int) (es : List Event) : Prop :=
  ∃ pre e post, es = pre ++ e :: post ∧ ends id e = true ∧ id ∈ (timers pre).map SetTimer.id

@[simp] theorem timers_snoc (es : List Event) (e : Event) :
    timers (es ++ [e]) = timers es ++ (timerOf e).toList := by
  cases h : timerOf e <;> simp [timers, h]

@[simp] theorem firings_snoc (id : Int) (es : List Event) (e : Event) :
    firings id (es ++ [e]) = firings id es ++ (firingOf id e).toList := by
  cases h : firingOf id e <;> simp [firings, h]

attribute [simp] timerOf firingOf

variable {key : TimerKey} {now id : Int} {s s' : State} {data : TimerData} {l : Label}

theorem mem_firings {callback : TimerCallback} {es : List Event}
    (h : .fired key callback now ∈ es) : ⟨key.deadline, now, callback⟩ ∈ firings key.id es := by
  apply List.mem_filterMap.mpr
  exact ⟨_, h, by simp⟩

/-! ## The state -/

def keysOf (s : State) : List TimerKey := s.loop.timerHeap.toList

def heapIds (s : State) : List Int := (keysOf s).map TimerKey.id

/-- The id of the timer that is being called. -/
@[simp] def callingIds : Phase → List Int
  | .calling _ key _ => [key.id]
  | _ => []

/-- The ids that have a key, which is in the heap or the one of the timer that is being called. -/
def heldIds (s : State) : List Int := callingIds s.phase ++ heapIds s

def findTimer (s : State) (id : Int) : Option TimerData := s.loop.timerMap[id]?

/-! ## Arithmetic -/

/-- A time that 64 bits can hold. -/
def InRange (time : Int) : Prop := -2 ^ 63 ≤ time ∧ time < 2 ^ 63

instance (time : Int) : Decidable (InRange time) := inferInstanceAs (Decidable (_ ∧ _))

private theorem addMilliseconds_eq {time ms : Int} (h : InRange (time + ms * 1000000)) :
    addMilliseconds time ms = time + ms * 1000000 := by
  rw [addMilliseconds, toInt64, toInt64, Int.add_bmod_bmod]
  exact Int.bmod_eq_of_le h.1 h.2

theorem dueAt_zero (t : SetTimer) : dueAt t 0 = t.clock + periodMs t * 1000000 := by
  simp [dueAt]

theorem dueAt_succ (t : SetTimer) (k : Nat) :
    dueAt t (k + 1) = dueAt t k + periodMs t * 1000000 := by
  simp only [dueAt]
  push_cast
  ring

theorem periodMs_nonneg (t : SetTimer) : 0 ≤ periodMs t := by
  unfold periodMs
  split <;> omega

theorem dueAt_mono (t : SetTimer) {m n : Nat} (h : m ≤ n) : dueAt t m ≤ dueAt t n := by
  induction n, h using Nat.le_induction with
  | base => exact le_rfl
  | succ n _ ih =>
    have := periodMs_nonneg t
    rw [dueAt_succ]
    omega

theorem clock_le_dueAt_zero (t : SetTimer) : t.clock ≤ dueAt t 0 := by
  have := periodMs_nonneg t
  rw [dueAt_zero]
  omega

/-! ## Steps -/

/-- What a step can do. -/
inductive Does (s : State) : State → Prop
  | schedule {t : SetTimer} {l : EventLoop} (hphase : ∀ now, s.phase ≠ .ticking now)
      (hid : t.id = s.loop.nextId) (hnext : l.nextId = toInt32 (s.loop.nextId + 1))
      (hkeys : l.timerHeap.toList.Perm (⟨dueAt t 0, t.id⟩ :: keysOf s))
      (hfind : ∀ id : Int, l.timerMap[id]? =
        if id = t.id ∧ findTimer s id = none then some (dataOf t) else findTimer s id) :
      Does s ⟨l, s.phase, s.events ++ [.scheduled t]⟩
  | cancel {id : Int} {l : EventLoop} (hphase : ∀ now, s.phase ≠ .ticking now)
      (hnext : l.nextId = s.loop.nextId) (hkeys : l.timerHeap.toList = keysOf s)
      (hfind : ∀ id' : Int, l.timerMap[id']? = if id' = id then none else findTimer s id') :
      Does s ⟨l, s.phase, s.events ++ [.cancelled id]⟩
  | clear {l : EventLoop} (hphase : ∀ now, s.phase ≠ .ticking now)
      (hnext : l.nextId = s.loop.nextId) (hkeys : l.timerHeap.toList = [])
      (hfind : ∀ id : Int, l.timerMap[id]? = none) :
      Does s ⟨l, s.phase, s.events ++ [.cleared]⟩
  | tick {now : Int} (hphase : s.phase = .idle) :
      Does s ⟨s.loop, .ticking now, s.events ++ [.ticked now]⟩
  | returns {now : Int} {pending : Bool} (hphase : s.phase = .ticking now)
      (hlate : ∀ key ∈ keysOf s, now < key.deadline) :
      Does s ⟨s.loop, .idle, s.events ++ [.returned now pending]⟩
  | skip {now : Int} {key : TimerKey} {l : EventLoop} (hphase : s.phase = .ticking now)
      (htop : s.loop.timerHeap.top = some key) (hdue : key.deadline ≤ now)
      (hnone : findTimer s key.id = none) (hnext : l.nextId = s.loop.nextId)
      (hkeys : (keysOf s).Perm (key :: l.timerHeap.toList)) (hfind : l.timerMap = s.loop.timerMap) :
      Does s ⟨l, .ticking now, s.events ++ [.skipped key]⟩
  | fire {now : Int} {key : TimerKey} {data : TimerData} {l : EventLoop}
      (hphase : s.phase = .ticking now) (htop : s.loop.timerHeap.top = some key)
      (hdue : key.deadline ≤ now) (hsome : findTimer s key.id = some data)
      (hnext : l.nextId = s.loop.nextId) (hkeys : (keysOf s).Perm (key :: l.timerHeap.toList))
      (hfind : ∀ id : Int, l.timerMap[id]? =
        if id = key.id ∧ data.isInterval = false then none else findTimer s id) :
      Does s ⟨l, .calling now key data.isInterval, s.events ++ [.fired key data.callback now]⟩
  | rearm {now : Int} {key : TimerKey} {data : TimerData} {l : EventLoop}
      (hphase : s.phase = .calling now key true) (hsome : findTimer s key.id = some data)
      (hnext : l.nextId = s.loop.nextId)
      (hkeys : l.timerHeap.toList.Perm
        (⟨key.deadline + data.intervalMs * 1000000, key.id⟩ :: keysOf s))
      (hfind : l.timerMap = s.loop.timerMap) :
      Does s ⟨l, .ticking now, s.events ++ [.finished key]⟩
  | finish {now : Int} {key : TimerKey} {isInterval : Bool}
      (hphase : s.phase = .calling now key isInterval)
      (hnone : isInterval = false ∨ findTimer s key.id = none) :
      Does s ⟨s.loop, .ticking now, s.events ++ [.finished key]⟩

/-- A step writes one event. -/
theorem Does.events (h : Does s s') : ∃ e, s'.events = s.events ++ [e] := by
  cases h <;> exact ⟨_, rfl⟩

/-- Where an entry of the map comes from. -/
theorem Does.find_cases (h : Does s s') (hdata : findTimer s' id = some data) :
    findTimer s id = some data ∨
      ∃ t, s'.events = s.events ++ [.scheduled t] ∧ id = t.id ∧ data = dataOf t := by
  cases h with
  | @schedule t l hphase hid hnext hkeys hfind =>
    rw [findTimer, hfind] at hdata
    split at hdata
    · next hnew => exact .inr ⟨t, rfl, hnew.1, (Option.some.inj hdata).symm⟩
    · exact .inl hdata
  | cancel hphase hnext hkeys hfind | fire hphase htop hdue hsome hnext hkeys hfind =>
    rw [findTimer, hfind] at hdata
    split at hdata
    · exact nomatch hdata
    · exact .inl hdata
  | clear hphase hnext hkeys hfind => exact nomatch (hfind id).symm.trans hdata
  | skip hphase htop hdue hnone hnext hkeys hfind | rearm hphase hsome hnext hkeys hfind =>
    rw [findTimer, hfind] at hdata
    exact .inl hdata
  | tick hphase | returns hphase hlate | finish hphase hnone => exact .inl hdata

/-- Nothing comes into the map where no timer is set. -/
theorem Does.find_of_timers (h : Does s s') (htimers : timers s'.events = timers s.events)
    (hdata : findTimer s' id = some data) : findTimer s id = some data := by
  cases h.find_cases hdata with
  | inl hold => exact hold
  | inr hnew =>
    obtain ⟨t, hevents, -⟩ := hnew
    simp [hevents] at htimers

theorem Does.find_none_of_timers (h : Does s s') (htimers : timers s'.events = timers s.events)
    (hnone : findTimer s id = none) :
    findTimer s' id = none := by
  rw [Option.eq_none_iff_forall_ne_some]
  intro data hdata
  exact nomatch hnone.symm.trans (h.find_of_timers htimers hdata)

/-- The deadline that the step computes. -/
def deadlineOf (s : State) : Label → Option Int
  | .setTimeout _ _ delayMs clock => some (clock + max 0 delayMs * 1000000)
  | .setInterval _ _ intervalMs clock => some (clock + max 1 intervalMs * 1000000)
  | .setTimeoutTask _ delayMs clock => some (clock + max 0 delayMs * 1000000)
  | .setIntervalTask _ intervalMs clock => some (clock + max 1 intervalMs * 1000000)
  | .callbackDone =>
    match s.phase with
    | .calling _ key true =>
      (findTimer s key.id).map fun data => key.deadline + data.intervalMs * 1000000
    | _ => none
  | _ => none

/-- It does not overflow. -/
def NoOverflow (s : State) (l : Label) : Prop := ∀ time ∈ deadlineOf s l, InRange time

instance (s : State) (l : Label) : Decidable (NoOverflow s l) :=
  inferInstanceAs (Decidable (∀ time ∈ deadlineOf s l, InRange time))

/-! ### The operations -/

@[simp] theorem cancel_find (l : EventLoop) (id id' : Int) :
    (l.cancel id).timerMap[id']? = if id' = id then none else l.timerMap[id']? := by
  simp only [EventLoop.cancel, Std.TreeMap.getElem?_erase, Std.compare_eq_iff_eq, @eq_comm _ id]

private theorem schedule_find (l : EventLoop) (callback : TimerCallback) (delayMs : Int)
    (isInterval : Bool) (now id : Int) :
    (l.schedule callback delayMs isInterval now).timerMap[id]? =
      if id = l.nextId ∧ l.timerMap[id]? = none then
        some ⟨callback, isInterval,
          if isInterval then max 1 (normalizeDelay delayMs) else normalizeDelay delayMs⟩
      else l.timerMap[id]? := by
  simp only [EventLoop.schedule, Std.TreeMap.getElem?_insertIfNew, Std.compare_eq_iff_eq]
  by_cases hid : id = l.nextId
  · subst hid
    simp
  · simp [hid, Ne.symm hid]

theorem act_eq_some {l : EventLoop} {e : Event} (h : s.act l e = some s') :
    (∀ now, s.phase ≠ .ticking now) ∧ s' = ⟨l, s.phase, s.events ++ [e]⟩ := by
  unfold State.act at h
  split at h
  · exact nomatch h
  · next hphase => exact ⟨hphase, (Option.some.inj h).symm⟩

/-- The timer that a step sets. -/
def timerSet (s : State) : Label → Option SetTimer
  | .setTimeout callback args delayMs clock =>
    some ⟨s.loop.nextId, .js callback args, delayMs, false, clock⟩
  | .setInterval callback args intervalMs clock =>
    some ⟨s.loop.nextId, .js callback args, intervalMs, true, clock⟩
  | .setTimeoutTask task delayMs clock =>
    some ⟨s.loop.nextId, .native task, delayMs, false, clock⟩
  | .setIntervalTask task intervalMs clock =>
    some ⟨s.loop.nextId, .native task, intervalMs, true, clock⟩
  | _ => none

/-- The four functions that set a timer do the same: an interval has been raised to 1 ms. -/
theorem step_timerSet {t : SetTimer} (h : timerSet s l = some t) :
    t.id = s.loop.nextId ∧ deadlineOf s l = some (t.clock + periodMs t * 1000000) ∧
      step s l = s.act
        (s.loop.schedule t.callback (if t.isInterval then max 1 t.delayMs else t.delayMs)
        t.isInterval t.clock) (.scheduled t) := by
  cases l <;> simp only [timerSet, reduceCtorEq] at h <;> obtain rfl := Option.some.inj h <;>
    exact ⟨rfl, rfl, rfl⟩

/-- The bounds are applied twice: by the function that was called and by `schedule`. -/
theorem normalizeDelay_eq (t : SetTimer) :
    normalizeDelay (if t.isInterval then max 1 t.delayMs else t.delayMs) = periodMs t ∧
      (if t.isInterval then max 1 (periodMs t) else periodMs t) = periodMs t := by
  rw [normalizeDelay, periodMs]
  split <;> omega

/-- What the map holds behind `schedule`. -/
private theorem schedule_find_timer (l : EventLoop) (t : SetTimer) (hid : t.id = l.nextId)
    (id : Int) :
    (l.schedule t.callback (if t.isInterval then max 1 t.delayMs else t.delayMs) t.isInterval
        t.clock).timerMap[id]? =
      if id = t.id ∧ l.timerMap[id]? = none then some (dataOf t) else l.timerMap[id]? := by
  obtain ⟨hnormal, hstored⟩ := normalizeDelay_eq t
  rw [schedule_find, hnormal, hstored, ← hid]
  rfl

private theorem does_schedule {t : SetTimer} (hset : timerSet s l = some t)
    (hexact : NoOverflow s l) (hstep : step s l = some s') : Does s s' := by
  obtain ⟨hid, hdeadline, hact⟩ := step_timerSet hset
  have hdue : addMilliseconds t.clock (periodMs t) = dueAt t 0 := by
    rw [addMilliseconds_eq (hexact _ hdeadline), dueAt_zero]
  obtain ⟨hphase, rfl⟩ := act_eq_some (hact.symm.trans hstep)
  refine .schedule hphase hid rfl ?_ (schedule_find_timer s.loop t hid)
  rw [← hdue, ← (normalizeDelay_eq t).1, hid]
  exact PriorityQueue.push_perm _ _

/-- The top of the heap has the smallest deadline. -/
theorem top_le {key' : TimerKey} (htop : s.loop.timerHeap.top = some key) (hmem : key' ∈ keysOf s) :
    key.deadline ≤ key'.deadline := by
  have hfirst := PriorityQueue.not_comp_top htop hmem
  simp only [TimerKey.greater, decide_eq_false_iff_not] at hfirst
  omega

/-- A turn of the loop in `tick`. -/
private theorem does_turn (hphase : s.phase = .ticking now) : Does s (s.turn now) := by
  unfold State.turn
  split
  · next htop =>
    -- the heap is empty
    refine .returns hphase fun key hkey => ?_
    rw [PriorityQueue.top_eq_none_iff] at htop
    simp [keysOf, htop] at hkey
  · next key htop =>
    split
    · next hlate =>
      refine .returns hphase fun key' hkey' => ?_
      have := top_le htop hkey'
      omega
    · next hdue =>
      have hkeys := PriorityQueue.pop_perm htop
      split
      · next hnone => exact .skip hphase htop (by omega) hnone rfl hkeys rfl
      · next data hsome =>
        refine .fire hphase htop (by omega) hsome rfl hkeys fun id => ?_
        -- the map loses a timeout and keeps an interval
        cases hinterval : data.isInterval with
        | true => simp [findTimer]
        | false => simpa [findTimer, EventLoop.cancel] using cancel_find s.loop key.id id

/-- What follows a callback. -/
private theorem does_refresh {isInterval : Bool} (hphase : s.phase = .calling now key isInterval)
    (hexact : isInterval = true → ∀ data ∈ findTimer s key.id, InRange (key.deadline +
      data.intervalMs * 1000000)) :
    Does s (s.refresh now key isInterval) := by
  cases isInterval with
  | false => exact .finish hphase (.inl rfl)
  | true =>
    cases hfind : findTimer s key.id with
    | none =>
      -- cancelled in the callback
      have hrefresh :
        s.refresh now key true = ⟨s.loop, .ticking now, s.events ++ [.finished key]⟩ := by
        rw [findTimer] at hfind
        simp [State.refresh, hfind]
      rw [hrefresh]
      exact .finish hphase (.inr hfind)
    | some data =>
      have hdeadline := addMilliseconds_eq (hexact rfl data hfind)
      let next : TimerKey := ⟨addMilliseconds key.deadline data.intervalMs, key.id⟩
      have hrefresh :
        s.refresh now key true = ⟨{ s.loop with timerHeap := s.loop.timerHeap.push next },
          .ticking now, s.events ++ [.finished key]⟩ := by
        rw [findTimer] at hfind
        simp [State.refresh, hfind, next]
      rw [hrefresh]
      refine .rearm hphase hfind rfl ?_ rfl
      rw [← hdeadline]
      exact PriorityQueue.push_perm _ _

/-- The list is complete. -/
theorem does_of_step (hexact : NoOverflow s l) (hstep : step s l = some s') : Does s s' := by
  cases l with
  | setTimeout callback args delayMs clock | setInterval callback args intervalMs clock
  | setTimeoutTask task delayMs clock | setIntervalTask task intervalMs clock =>
    exact does_schedule rfl hexact hstep
  | cancel id =>
    obtain ⟨hphase, rfl⟩ := act_eq_some hstep
    exact .cancel hphase rfl rfl (cancel_find s.loop id)
  | clearAll =>
    obtain ⟨hphase, rfl⟩ := act_eq_some hstep
    refine .clear hphase rfl PriorityQueue.toList_empty fun id => ?_
    simp [EventLoop.clearAll]
  | tick now =>
    simp only [step] at hstep
    split at hstep
    · next hphase =>
      obtain rfl := Option.some.inj hstep
      exact .tick hphase
    · exact nomatch hstep
  | loop =>
    simp only [step] at hstep
    split at hstep
    · next now hphase =>
      obtain rfl := Option.some.inj hstep
      exact does_turn hphase
    · exact nomatch hstep
  | callbackDone =>
    simp only [step] at hstep
    split at hstep
    · next now key isInterval hphase =>
      obtain rfl := Option.some.inj hstep
      refine does_refresh hphase fun hinterval => ?_
      subst hinterval
      simpa [NoOverflow, deadlineOf, hphase] using hexact
    · exact nomatch hstep

/-- The event that a step writes. -/
theorem event_of_step (hstep : step s l = some s') :
    ∃ e, s'.events = s.events ++ [e] ∧ timerOf e = timerSet s l ∧
      (∀ now, e = .ticked now → s.phase = .idle) ∧
      ∀ now pending, e = .returned now pending → l = .loop := by
  -- a step that sets a timer writes it, whatever the label is
  cases hset : timerSet s l with
  | some t =>
    obtain ⟨-, -, hact⟩ := step_timerSet hset
    obtain ⟨-, rfl⟩ := act_eq_some (hact.symm.trans hstep)
    exact ⟨.scheduled t, rfl, rfl, (fun _ h => by cases h), fun _ _ h => by cases h⟩
  | none =>
    cases l with
    | cancel id =>
      obtain ⟨-, rfl⟩ := act_eq_some hstep
      exact ⟨.cancelled id, rfl, rfl, (fun _ h => by cases h), fun _ _ h => by cases h⟩
    | clearAll =>
      obtain ⟨-, rfl⟩ := act_eq_some hstep
      exact ⟨.cleared, rfl, rfl, (fun _ h => by cases h), fun _ _ h => by cases h⟩
    | tick now =>
      simp only [step] at hstep
      split at hstep
      · next hphase =>
        obtain rfl := Option.some.inj hstep
        exact ⟨.ticked now, rfl, rfl, fun _ _ => hphase, fun _ _ h => by cases h⟩
      · cases hstep
    | loop =>
      simp only [step] at hstep
      split at hstep
      · next now hphase =>
        obtain rfl := Option.some.inj hstep
        unfold State.turn
        split
        · exact ⟨_, rfl, rfl, (fun _ h => by cases h), fun _ _ _ => rfl⟩
        · split
          · exact ⟨_, rfl, rfl, (fun _ h => by cases h), fun _ _ _ => rfl⟩
          · split
            · exact ⟨_, rfl, rfl, (fun _ h => by cases h), fun _ _ _ => rfl⟩
            · exact ⟨_, rfl, rfl, (fun _ h => by cases h), fun _ _ _ => rfl⟩
      · cases hstep
    | callbackDone =>
      simp only [step] at hstep
      split at hstep
      · obtain rfl := Option.some.inj hstep
        exact ⟨_, rfl, rfl, (fun _ h => by cases h), fun _ _ h => by cases h⟩
      · cases hstep
    | _ => simp [timerSet] at hset

/-- Where an entry of the map comes from.  Deadlines have nothing to do with it. -/
theorem find_of_step (hstep : step s l = some s') (hdata : findTimer s' id = some data) :
    findTimer s id = some data ∨ ∃ t, data = dataOf t := by
  cases hset : timerSet s l with
  | some t =>
    obtain ⟨hid, -, hact⟩ := step_timerSet hset
    obtain ⟨-, rfl⟩ := act_eq_some (hact.symm.trans hstep)
    rw [findTimer, schedule_find_timer s.loop t hid] at hdata
    split at hdata
    · exact .inr ⟨t, (Option.some.inj hdata).symm⟩
    · exact .inl hdata
  | none =>
    by_cases hdone : l = .callbackDone
    · subst hdone
      simp only [step] at hstep
      split at hstep
      · obtain rfl := Option.some.inj hstep
        exact .inl hdata
      · cases hstep
    · -- no deadline is computed
      have hexact : NoOverflow s l := by
        intro time htime
        cases l <;> simp [deadlineOf, timerSet] at htime hset hdone
      rcases (does_of_step hexact hstep).find_cases hdata with hold | ⟨t, -, -, h⟩
      · exact .inl hold
      · exact .inr ⟨t, h⟩

end Ppnt.Spec
