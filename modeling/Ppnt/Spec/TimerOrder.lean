import Ppnt.Spec.TimerInvariant

/-!
# The order of the timers

The heap compares deadlines only.  Where the clock does not go back, every key in it is at or after
what has been fired, so the deadlines come in order; the order of equal ones is left to the heap.
-/

namespace Ppnt.Spec

open Ppnt.Native EventLoop

/-! ## The log -/

def clockOf : Event → Option Int
  | .scheduled t => some t.clock
  | .ticked now => some now
  | _ => none

/-- What the clock has shown. -/
def clocks (es : List Event) : List Int := es.filterMap clockOf

def firedKey : Event → Option TimerKey
  | .fired key _ _ => some key
  | _ => none

/-- What has been fired. -/
def firedKeys (es : List Event) : List TimerKey := es.filterMap firedKey

@[simp] theorem clocks_snoc (es : List Event) (e : Event) :
    clocks (es ++ [e]) = clocks es ++ (clockOf e).toList := by
  cases h : clockOf e <;> simp [clocks, h]

@[simp] theorem firedKeys_snoc (es : List Event) (e : Event) :
    firedKeys (es ++ [e]) = firedKeys es ++ (firedKey e).toList := by
  cases h : firedKey e <;> simp [firedKeys, h]

attribute [simp] clockOf firedKey

/-- The time of the tick that is going on. -/
@[simp] def tickTime : Phase → Option Int
  | .idle => none
  | .ticking now => some now
  | .calling now _ _ => some now

/-! ## Deadlines -/

/-- Nothing that is left is before what has been fired. -/
structure DeadlineOrder (s : State) : Prop where
  sorted : (firedKeys s.events).Pairwise fun a b => a.deadline ≤ b.deadline
  left : ∀ f ∈ firedKeys s.events, ∀ key ∈ keysOf s, f.deadline ≤ key.deadline
  called : ∀ now key isInterval, s.phase = .calling now key isInterval →
    ∀ f ∈ firedKeys s.events, f.deadline ≤ key.deadline
  past : ∀ f ∈ firedKeys s.events, ∃ time ∈ clocks s.events, f.deadline ≤ time
  time : ∀ now ∈ tickTime s.phase, now ∈ clocks s.events
  period : ∀ id data, findTimer s id = some data → 0 ≤ data.intervalMs

variable {s s' : State} {labels : List Label}

/-- The periods that are stored are not negative. -/
private theorem DeadlineOrder.period_does (hd : DeadlineOrder s) (h : Does s s') :
    ∀ id data, findTimer s' id = some data → 0 ≤ data.intervalMs := by
  intro id data hdata
  cases h.find_cases hdata with
  | inl hold => exact hd.period id data hold
  | inr hnew =>
    obtain ⟨t, -, -, rfl⟩ := hnew
    exact periodMs_nonneg t

/-- Nothing fires, and no key comes in front of what has been fired. -/
theorem DeadlineOrder.frame (hd : DeadlineOrder s) (hstep : Does s s')
    (hfired : firedKeys s'.events = firedKeys s.events)
    (hclocks : ∀ time ∈ clocks s.events, time ∈ clocks s'.events)
    (hkeys : ∀ key ∈ keysOf s', key ∈ keysOf s ∨ ∀ f ∈ firedKeys s.events, f.deadline ≤
      key.deadline)
    (hphase : ∀ now key isInterval, s'.phase = .calling now key isInterval →
      s.phase = .calling now key isInterval)
    (htime : ∀ now ∈ tickTime s'.phase, now ∈ tickTime s.phase ∨ now ∈ clocks s'.events) :
    DeadlineOrder s' := by
  constructor
  · rw [hfired]
    exact hd.sorted
  · intro f hf key hkey
    rw [hfired] at hf
    -- a key that is new is not before what has been fired
    cases hkeys key hkey with
    | inl hold => exact hd.left f hf key hold
    | inr hnew => exact hnew f hf
  · intro now key isInterval hcall f hf
    rw [hfired] at hf
    exact hd.called now key isInterval (hphase now key isInterval hcall) f hf
  · intro f hf
    rw [hfired] at hf
    obtain ⟨time, htime, hle⟩ := hd.past f hf
    exact ⟨time, hclocks time htime, hle⟩
  · intro now hnow
    cases htime now hnow with
    | inl hold => exact hclocks now (hd.time now hold)
    | inr hnew => exact hnew
  · exact hd.period_does hstep

private theorem pairwise_fired {R : TimerKey → TimerKey → Prop} {es : List Event} {key : TimerKey}
    (hsorted : (firedKeys es).Pairwise R) (hlast : ∀ f ∈ firedKeys es, R f key)
    (callback : TimerCallback) (now : Int) :
    (firedKeys (es ++ [.fired key callback now])).Pairwise R := by
  simpa [List.pairwise_append] using ⟨hsorted, hlast⟩

/-- Each step keeps the order of deadlines, as long as the clock does not go back. -/
theorem DeadlineOrder.does (hd : DeadlineOrder s) (h : Does s s')
    (hclock : (clocks s'.events).Pairwise (· ≤ ·)) : DeadlineOrder s' := by
  have hstep := h
  cases h with
  | @schedule t l hphase hid hnext hkeys hfind =>
    -- what has been fired was due at a time that the clock has shown before
    have hnew : ∀ f ∈ firedKeys s.events, f.deadline ≤ dueAt t 0 := by
      intro f hf
      obtain ⟨time, htime, hle⟩ := hd.past f hf
      simp only [clocks_snoc, clockOf, Option.toList_some, List.pairwise_append] at hclock
      have hlater := hclock.2.2 time htime t.clock (by simp)
      have := clock_le_dueAt_zero t
      omega
    refine hd.frame hstep (by simp) (fun _ h => by simp [h]) (fun key hkey => ?_) (fun _ _ _ h => h)
      fun _ h => .inl h
    cases List.mem_cons.mp (hkeys.mem_iff.mp hkey) with
    | inl heq => exact .inr (heq ▸ hnew)
    | inr hold => exact .inl hold
  | cancel hphase hnext hkeys hfind =>
    exact hd.frame hstep (by simp) (fun _ h => by simp [h]) (fun key hkey => .inl (hkeys ▸ hkey))
      (fun _ _ _ h => h) fun _ h => .inl h
  | clear hphase hnext hkeys hfind =>
    refine hd.frame hstep (by simp) (fun _ h => by simp [h]) (fun key hkey => ?_)
      (fun _ _ _ h => h) fun _ h => .inl h
    rw [keysOf, hkeys] at hkey
    cases hkey
  -- the time of the tick is the last that the clock has shown
  | tick hphase =>
    exact hd.frame hstep (by simp) (fun _ h => by simp [h]) (fun _ h => .inl h)
      (fun _ _ _ h => by cases h) fun _ h => .inr (by simp [Option.some.inj h])
  | returns hphase hlate =>
    exact hd.frame hstep (by simp) (fun _ h => by simp [h]) (fun _ h => .inl h)
      (fun _ _ _ h => by cases h) fun _ h => by cases h
  | skip hphase htop hdue hnone hnext hkeys hfind =>
    exact hd.frame hstep (by simp) (fun _ h => by simp [h])
      (fun key' hkey => .inl (hkeys.mem_iff.mpr (List.mem_cons_of_mem _ hkey)))
      (fun _ _ _ h => by cases h) fun _ h => .inl (by simpa [hphase] using h)
  | @fire now key data l hphase htop hdue hsome hnext hkeys hfind =>
    -- the fired key was the top, behind everything fired before and in front of all others
    have hkey : key ∈ keysOf s := hkeys.mem_iff.mpr List.mem_cons_self
    have hbefore : ∀ f ∈ firedKeys (s.events ++ [.fired key data.callback now]),
        f.deadline ≤ key.deadline := by
      intro f hf
      simp only [firedKeys_snoc, firedKey, Option.toList_some, List.mem_append,
        List.mem_singleton] at hf
      cases hf with
      | inl hold => exact hd.left f hold key hkey
      | inr hnew => rw [hnew]
    have hclocks : clocks (s.events ++ [.fired key data.callback now]) = clocks s.events := by simp
    have hnow : now ∈ clocks s.events := hd.time now (by simp [hphase])
    constructor
    · exact pairwise_fired hd.sorted (fun f hf => hd.left f hf key hkey) data.callback now
    · intro f hf key' hkey'
      have hle := hbefore f hf
      have hnext := top_le htop (hkeys.mem_iff.mpr (List.mem_cons_of_mem _ hkey'))
      omega
    · intro now' key' isInterval hcall f hf
      obtain ⟨-, rfl, -⟩ := Phase.calling.inj hcall
      exact hbefore f hf
    · intro f hf
      have hle := hbefore f hf
      exact ⟨now, hclocks ▸ hnow, by omega⟩
    · intro now' hnow'
      obtain rfl : now = now' := by simpa using hnow'
      exact hclocks ▸ hnow
    · exact hd.period_does hstep
  -- the deadline of an interval moves by its period, so not to the front
  | @rearm now key data l hphase hsome hnext hkeys hfind =>
    refine hd.frame hstep (by simp) (fun _ h => by simp [h]) (fun key' hkey => ?_)
      (fun _ _ _ h => by cases h) fun _ h => .inl (by simpa [hphase] using h)
    cases List.mem_cons.mp (hkeys.mem_iff.mp hkey) with
    | inr hold => exact .inl hold
    | inl heq =>
      refine .inr fun f hf => ?_
      have hle := hd.called now key true hphase f hf
      have hperiod := hd.period key.id data hsome
      subst heq
      show f.deadline ≤ key.deadline + data.intervalMs * 1000000
      omega
  | finish hphase hnone =>
    exact hd.frame hstep (by simp) (fun _ h => by simp [h]) (fun _ h => .inl h)
      (fun _ _ _ h => by cases h) fun _ h => .inl (by simpa [hphase] using h)

/-! ## Equal deadlines -/

/-- The order in which timers should fire. -/
def FiresBefore (a b : TimerKey) : Prop :=
  a.deadline < b.deadline ∨ a.deadline = b.deadline ∧ a.id < b.id

/-- No two timers that are due at a turn of the loop, and have not been cancelled, wait for one
    deadline. -/
def NoTies (s : State) : Prop :=
  ∀ now, s.phase = .ticking now → ∀ key ∈ keysOf s, ∀ key' ∈ keysOf s, key.deadline ≤ now →
    findTimer s key.id ≠ none → findTimer s key'.id ≠ none → key.deadline = key'.deadline →
      key = key'

/-- What has been fired is in order, and no timer that is left belongs in front of it. -/
structure TieOrder (s : State) : Prop where
  sorted : (firedKeys s.events).Pairwise FiresBefore
  left : ∀ f ∈ firedKeys s.events, ∀ key ∈ keysOf s, findTimer s key.id ≠ none → FiresBefore f key

/-- Nothing fires, and no key comes in front of what has been fired. -/
theorem TieOrder.frame (hties : TieOrder s) (hfired : firedKeys s'.events = firedKeys s.events)
    (hkeys : ∀ key ∈ keysOf s', findTimer s' key.id ≠ none →
      (key ∈ keysOf s ∧ findTimer s key.id ≠ none) ∨ ∀ f ∈ firedKeys s.events, FiresBefore f key) :
    TieOrder s' := by
  constructor
  · rw [hfired]
    exact hties.sorted
  · intro f hf key hkey hfind
    rw [hfired] at hf
    cases hkeys key hkey hfind with
    | inl hold => exact hties.left f hf key hold.1 hold.2
    | inr hnew => exact hnew f hf

/-- What has been fired is known. -/
private theorem StoreInvariant.firedKeys_known (hinv : StoreInvariant s) {f : TimerKey}
    (hf : f ∈ firedKeys s.events) : f.id ∈ (timers s.events).map SetTimer.id := by
  obtain ⟨e, he, hkey⟩ := List.mem_filterMap.mp hf
  cases e with
  | fired key callback now =>
    obtain rfl := Option.some.inj hkey
    obtain ⟨t, ht, hid, -⟩ := hinv.onSchedule.onTime _ _ (mem_firings he)
    exact List.mem_map.mpr ⟨t, ht, hid⟩
  | _ => exact nomatch hkey

/-- Each step from a state without ties keeps the firings in order. -/
theorem TieOrder.does (hties : TieOrder s) (hinv : StoreInvariant s) (hd : DeadlineOrder s)
    (hd' : DeadlineOrder s') (h : Does s s') (hcount : (timers s'.events).length < 2 ^ 31)
    (hdistinct : NoTies s) : TieOrder s' := by
  have hstep := h
  cases h with
  | @schedule t l hphase hid hnext hkeys hfind =>
    have hlt := hinv.numbered.lt_of_schedule hid hcount
    refine hties.frame (by simp) fun key hkey hlive => ?_
    cases List.mem_cons.mp (hkeys.mem_iff.mp hkey) with
    | inl heq =>
      -- the new key may have a deadline that has been fired, but its id is greater
      refine .inr fun f hf => ?_
      have hle := hd'.left f (by simpa using hf) key hkey
      have hknown := hlt f.id (hinv.firedKeys_known hf)
      have hidEq : key.id = t.id := congrArg TimerKey.id heq
      unfold FiresBefore
      omega
    | inr hold =>
      have hheld : key.id ∈ heldIds s := List.mem_append_right _ (List.mem_map_of_mem hold)
      have hne := (hlt key.id (hinv.stored.known _ hheld)).ne
      rw [findTimer, hfind, if_neg (fun hc => hne hc.1)] at hlive
      exact .inl ⟨hold, hlive⟩
  | @cancel id l hphase hnext hkeys hfind =>
    refine hties.frame (by simp) fun key hkey hlive => .inl ⟨hkeys ▸ hkey, fun hnone => hlive ?_⟩
    exact hstep.find_none_of_timers (by simp) hnone
  | clear hphase hnext hkeys hfind =>
    exact hties.frame (by simp) fun key _ hlive => absurd (hfind _) hlive
  | tick hphase | returns hphase hlate =>
    exact hties.frame (by simp) fun key hkey hlive => .inl ⟨hkey, hlive⟩
  | skip hphase htop hdue hnone hnext hkeys hfind =>
    refine hties.frame (by simp) fun key hkey hlive => ?_
    rw [findTimer, hfind] at hlive
    exact .inl ⟨hkeys.mem_iff.mpr (List.mem_cons_of_mem _ hkey), hlive⟩
  | @fire now key data l hphase htop hdue hsome hnext hkeys hfind =>
    have hkey : key ∈ keysOf s := hkeys.mem_iff.mpr List.mem_cons_self
    have hlive : findTimer s key.id ≠ none := by simp [hsome]
    constructor
    · exact pairwise_fired hties.sorted (fun f hf => hties.left f hf key hkey hlive) data.callback
        now
    · intro f hf key' hkey' hlive'
      have hold : key' ∈ keysOf s := hkeys.mem_iff.mpr (List.mem_cons_of_mem _ hkey')
      have hlive'' : findTimer s key'.id ≠ none :=
        fun hnone => hlive' (hstep.find_none_of_timers (by simp) hnone)
      simp only [firedKeys_snoc, firedKey, Option.toList_some, List.mem_append,
        List.mem_singleton] at hf
      cases hf with
      | inl hf => exact hties.left f hf key' hold hlive''
      | inr heq =>
        subst heq
        have hle := top_le htop hold
        -- no other key has the id, so the two are not one and their deadlines differ
        have hnodup := hinv.nodup_heapIds
        rw [heapIds, (hkeys.map _).nodup_iff, List.map_cons, List.nodup_cons] at hnodup
        have hne : f.deadline ≠ key'.deadline := by
          intro hdeadline
          have hsame := hdistinct now hphase f hkey key' hold hdue hlive hlive'' hdeadline
          exact hnodup.1 (hsame ▸ List.mem_map_of_mem hkey')
        exact .inl (by omega)
  | @rearm now key data l hphase hsome hnext hkeys hfind =>
    refine hties.frame (by simp) fun key' hkey' hlive => ?_
    rw [findTimer, hfind] at hlive
    cases List.mem_cons.mp (hkeys.mem_iff.mp hkey') with
    | inr hold => exact .inl ⟨hold, hlive⟩
    | inl heq =>
      -- the period is positive, so the next deadline is after all that has been fired
      refine .inr fun f hf => .inl ?_
      have hperiod := hinv.one_le_intervalMs hphase hsome
      have hle := hd.called now key true hphase f hf
      subst heq
      show f.deadline < key.deadline + data.intervalMs * 1000000
      omega
  | finish hphase hnone => exact hties.frame (by simp) fun key hkey hlive => .inl ⟨hkey, hlive⟩

/-! ## Runs -/

private theorem Does.clocks_pairwise (h : Does s s')
    (hclock : (clocks s'.events).Pairwise (· ≤ ·)) : (clocks s.events).Pairwise (· ≤ ·) := by
  obtain ⟨e, hevents⟩ := h.events
  rw [hevents, clocks_snoc, List.pairwise_append] at hclock
  exact hclock.1

private theorem deadlineOrder_init : DeadlineOrder {} := by
  constructor <;> simp [firedKeys, findTimer]

private theorem deadlineOrder_of_run (hrun : Run.run step {} labels = some s)
    (hexact : Run.Along step (fun _ => NoOverflow) [] {} labels)
    (hclock : (clocks s.events).Pairwise (· ≤ ·)) : DeadlineOrder s :=
  invariant_of_does (B := fun events => (clocks events).Pairwise (· ≤ ·))
    (fun h hclock => h.clocks_pairwise hclock) (fun ih h hclock => ih.does h hclock)
    deadlineOrder_init hrun hexact hclock

private theorem tieOrder_of_run (hrun : Run.run step {} labels = some s)
    (hexact : Run.Along step (fun _ => NoOverflow) [] {} labels)
    (hdistinct : Run.Along step (fun _ s _ => NoTies s) [] {} labels)
    (hclock : (clocks s.events).Pairwise (· ≤ ·)) (hcount : (timers s.events).length < 2 ^ 31) :
    TieOrder s := by
  let inv (s : State) : Prop :=
    (clocks s.events).Pairwise (· ≤ ·) → (timers s.events).length < 2 ^ 31 →
      StoreInvariant s ∧ DeadlineOrder s ∧ TieOrder s
  have hkeep : ∀ s l s', inv s → NoOverflow s l ∧ NoTies s → step s l = some s' → inv s' := by
    intro s l s' ih hcond hstep hclock hcount
    have h := does_of_step hcond.1 hstep
    obtain ⟨hinv, hd, hties⟩ := ih (h.clocks_pairwise hclock) (h.length_timers_le.trans_lt hcount)
    have hd' := hd.does h hclock
    exact ⟨hinv.does h hcount, hd', hties.does hinv hd hd' h hcount hcond.2⟩
  have hinit : inv {} := fun _ _ =>
    ⟨storeInvariant_init, deadlineOrder_init, by constructor <;> simp [firedKeys]⟩
  exact (Run.stateInvariant_along hkeep hinit (hexact.and hdistinct) hrun hclock hcount).2.2

/-- Timers fire in the order of their deadlines, and those of one deadline in the order in which
    they were set, if no two that are due at a turn of the loop share their deadline.  What is left
    of equal deadlines then is a timer that is set for a time that has just been fired. -/
theorem fires_in_order (hrun : Run.run step {} labels = some s)
    (hexact : Run.Along step (fun _ => NoOverflow) [] {} labels)
    (hclock : (clocks s.events).Pairwise (· ≤ ·)) :
    ((firedKeys s.events).Pairwise fun a b => a.deadline ≤ b.deadline) ∧
      ((timers s.events).length < 2 ^ 31 →
        Run.Along step (fun _ s _ => NoTies s) [] {} labels →
        (firedKeys s.events).Pairwise FiresBefore) :=
  ⟨(deadlineOrder_of_run hrun hexact hclock).sorted,
    fun hcount hdistinct => (tieOrder_of_run hrun hexact hdistinct hclock hcount).sorted⟩

instance (s : State) : Decidable (NoTies s) :=
  match hphase : s.phase with
  | .ticking now =>
    decidable_of_iff (∀ key ∈ keysOf s, ∀ key' ∈ keysOf s, key.deadline ≤ now →
      findTimer s key.id ≠ none → findTimer s key'.id ≠ none → key.deadline = key'.deadline →
        key = key') (by simp [NoTies, hphase])
  | .idle => isTrue fun _ h => nomatch hphase.symm.trans h
  | .calling _ _ _ => isTrue fun _ h => nomatch hphase.symm.trans h

/-- Two timeouts, and a task that the first callback sets for the very time it is called at. -/
def taskAtOnce : List Label :=
  [.setTimeout 1 [] 20 0, .setTimeout 2 [] 10 0, .tick 20000000, .loop, .callbackDone, .loop,
    .setTimeoutTask 3 0 20000000, .callbackDone, .loop, .callbackDone, .loop]

/-- The task has the deadline that has just been fired, and a greater id. -/
theorem fires_in_order_taskAtOnce :
    ∃ s, Run.run step {} taskAtOnce = some s ∧
      Run.Along step (fun _ => NoOverflow) [] {} taskAtOnce ∧
      Run.Along step (fun _ s _ => NoTies s) [] {} taskAtOnce ∧
      (clocks s.events).Pairwise (· ≤ ·) ∧
      firedKeys s.events = [⟨10000000, 2⟩, ⟨20000000, 1⟩, ⟨20000000, 3⟩] ∧
      (firedKeys s.events).Pairwise FiresBefore := by
  have hlog : ((Run.run step {} taskAtOnce).map fun s =>
      (clocks s.events, (timers s.events).length, firedKeys s.events)) =
        some ([0, 0, 20000000, 20000000], 3, [⟨10000000, 2⟩, ⟨20000000, 1⟩, ⟨20000000, 3⟩]) := by
    decide +kernel
  have hexact : Run.Along step (fun _ => NoOverflow) [] {} taskAtOnce := by decide +kernel
  have hdistinct : Run.Along step (fun _ s _ => NoTies s) [] {} taskAtOnce := by decide +kernel
  obtain ⟨s, hrun, hs⟩ := Option.map_eq_some_iff.mp hlog
  simp only [Prod.mk.injEq] at hs
  have hclock : (clocks s.events).Pairwise (· ≤ ·) := by
    rw [hs.1]
    decide
  have hcount : (timers s.events).length < 2 ^ 31 := by omega
  exact ⟨s, hrun, hexact, hdistinct, hclock, hs.2.2,
    (fires_in_order hrun hexact hclock).2 hcount hdistinct⟩

/-- Equal deadlines in the wrong order.  When the first of four equal keys is popped, the heap takes
    the right child up although the left one is as small and was set before it. -/
theorem equal_timeouts_reordered :
    let labels : List Label :=
      [.setTimeout 1 [] 10 0, .setTimeout 2 [] 10 0, .setTimeout 3 [] 10 0, .setTimeout 4 [] 10 0,
        .tick 10000000, .loop, .callbackDone, .loop, .callbackDone, .loop, .callbackDone, .loop,
        .callbackDone, .loop]
    ((Run.run step {} labels).map fun s => (clocks s.events, firedKeys s.events)) =
      some ([0, 0, 0, 0, 10000000],
        [⟨10000000, 1⟩, ⟨10000000, 3⟩, ⟨10000000, 2⟩, ⟨10000000, 4⟩]) ∧
    ¬FiresBefore ⟨10000000, 3⟩ ⟨10000000, 2⟩ := by
  refine ⟨by decide +kernel, ?_⟩
  simp [FiresBefore]

end Ppnt.Spec
