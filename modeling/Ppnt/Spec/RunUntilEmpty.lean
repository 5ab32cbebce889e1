import Ppnt.ForStd.Simulation
import Ppnt.Spec.TimerOrder

/-!
# How long the loop runs

`tick` returns from its loop when the heap is empty, with whether there are timers in the map, or at
the first key that is not due, with `true`.  `cancel` leaves the key of the timer in the heap, so
such a key can be one that nobody waits for any more.  `wait_for_next` then sleeps until its
deadline.

What should happen is said on the log: `WaitsFor` are the timers that wait for a deadline, and
`CancelledAt` are the deadlines that a timer waited for when it was cancelled.  The heap holds the
deadlines of the former, and of the latter those that no tick has come to (`WaitInvariant`).
-/

namespace Ppnt.Spec

open Ppnt.Native EventLoop

/-! ## Waiting timers -/

/-- The timer that is being called, from the log. -/
def calledId (es : List Event) : Option Int :=
  es.foldl (fun called e =>
    match e with
    | .fired key _ _ => some key.id
    | .finished _ => none
    | _ => called) none

@[simp] theorem calledId_snoc (es : List Event) (e : Event) :
    calledId (es ++ [e]) =
      match e with
      | .fired key _ _ => some key.id
      | .finished _ => none
      | _ => calledId es := by
  simp only [calledId, List.foldl_append, List.foldl_cons, List.foldl_nil]

/-- The deadline behind those that the timer has been called for. -/
def nextDue (es : List Event) (t : SetTimer) : Int := dueAt t (firings t.id es).length

/-- The timer waits for its next deadline: it was set and not cancelled, a timeout has not been
    called, and an interval is not being called. -/
structure WaitsFor (es : List Event) (t : SetTimer) : Prop where
  set : t ∈ timers es
  notEnded : ¬EndedIn t.id es
  unfired : t.isInterval = false → firings t.id es = []
  notCalled : calledId es ≠ some t.id

/-- A timer waits for the time. -/
def LiveDeadline (es : List Event) (time : Int) : Prop := ∃ t, WaitsFor es t ∧ nextDue es t = time

/-- A timer waited for the time when it was cancelled, and `clear_all` has not been called since. -/
def CancelledAt (es : List Event) (time : Int) : Prop :=
  ∃ pre t post, es = pre ++ .cancelled t.id :: post ∧ WaitsFor pre t ∧ nextDue pre t = time ∧
    .cleared ∉ post

variable {es : List Event} {time now : Int} {e : Event} {s s' : State} {r : Runner}

/-- An abandoned deadline stays one. -/
theorem CancelledAt.snoc (h : CancelledAt es time) (hcleared : e ≠ .cleared) :
    CancelledAt (es ++ [e]) time := by
  obtain ⟨pre, t, post, rfl, hwaits, htime, hpost⟩ := h
  refine ⟨pre, t, post ++ [e], by simp, hwaits, htime, ?_⟩
  simp [hpost, hcleared.symm]

/-- Where an abandoned deadline comes from: a timer that has just been cancelled, or an earlier
    one. -/
private theorem CancelledAt.of_snoc (h : CancelledAt (es ++ [e]) time) :
    (∃ t, e = .cancelled t.id ∧ WaitsFor es t ∧ nextDue es t = time) ∨
      CancelledAt es time ∧ e ≠ .cleared := by
  obtain ⟨pre, t, post, hevents, hwaits, htime, hpost⟩ := h
  cases snoc_eq_append_cons hevents with
  | inl hlast =>
    obtain ⟨-, rfl, rfl⟩ := hlast
    exact .inl ⟨t, rfl, hwaits, htime⟩
  | inr hbefore =>
    obtain ⟨post', rfl, heq⟩ := hbefore
    simp only [List.mem_append, List.mem_singleton, not_or] at hpost
    exact .inr ⟨⟨pre, t, post', heq, hwaits, htime, hpost.1⟩, Ne.symm hpost.2⟩

/-! ## The ticks -/

/-- The time that a tick has read. -/
def tickOf : Event → Option Int
  | .ticked now => some now
  | _ => none

/-- The times that the ticks have read. -/
def ticks (es : List Event) : List Int := es.filterMap tickOf

@[simp] theorem ticks_snoc (es : List Event) (e : Event) :
    ticks (es ++ [e]) = ticks es ++ (tickOf e).toList := by
  cases h : tickOf e <;> simp [ticks, h]

attribute [simp] tickOf

/-- The times of the ticks are among what the clock has shown. -/
private theorem ticks_sublist_clocks (es : List Event) : (ticks es).Sublist (clocks es) := by
  induction es using List.reverseRecOn with
  | nil => exact List.Sublist.slnil
  | append_singleton es e ih =>
    rw [ticks_snoc, clocks_snoc]
    refine ih.append ?_
    cases e <;> simp

/-- If the clock does not go back, the last tick is the latest. -/
private theorem le_of_mem_ticks (hclock : (clocks es).Pairwise (· ≤ ·))
    (hlast : (ticks es).getLast? = some now) (hmem : time ∈ ticks es) : time ≤ now := by
  have hsorted := hclock.sublist (ticks_sublist_clocks es)
  obtain ⟨init, hinit⟩ := List.getLast?_eq_some_iff.mp hlast
  rw [hinit, List.pairwise_append] at hsorted
  rw [hinit, List.mem_append, List.mem_singleton] at hmem
  cases hmem with
  | inl hbefore => exact hsorted.2.2 time hbefore now (List.mem_singleton.mpr rfl)
  | inr heq => exact heq.le

/-- The tick that is going on, or has just returned, is the last one. -/
structure LastTick (s : State) : Prop where
  ticking : ∀ now ∈ tickTime s.phase, (ticks s.events).getLast? = some now
  returned : ∀ pre now pending, s.events = pre ++ [.returned now pending] →
    (ticks s.events).getLast? = some now

/-- The step reads no time for a tick. -/
theorem LastTick.frame (ht : LastTick s) (hevents : s'.events = s.events ++ [e])
    (htick : tickOf e = none) (hphase : ∀ now ∈ tickTime s'.phase, now ∈ tickTime s.phase)
    (hreturned : ∀ now pending, e = .returned now pending → now ∈ tickTime s.phase) :
    LastTick s' := by
  have hticks : ticks s'.events = ticks s.events := by rw [hevents, ticks_snoc, htick]; simp
  constructor
  · intro now hnow
    rw [hticks]
    exact ht.ticking now (hphase now hnow)
  · intro pre now pending hlast
    rw [hevents] at hlast
    obtain ⟨-, he⟩ := List.append_inj' hlast rfl
    rw [hticks]
    exact ht.ticking now (hreturned now pending (List.singleton_inj.mp he))

theorem LastTick.does (ht : LastTick s) (h : Does s s') : LastTick s' := by
  cases h with
  | tick hphase =>
    exact ⟨fun now hnow => by simpa using hnow, fun pre now pending hlast => by simp at hlast⟩
  | returns hphase hlate =>
    exact ht.frame rfl rfl (fun _ h => nomatch h) fun _ _ h => by
      simp [hphase, (Event.returned.inj h).1]
  | skip hphase htop hdue hnone hnext hkeys hfind | fire hphase htop hdue hsome hnext hkeys hfind
  | rearm hphase hsome hnext hkeys hfind | finish hphase hnone =>
    exact ht.frame rfl rfl (fun _ h => by simpa [hphase] using h) fun _ _ h => nomatch h
  | schedule hphase hid hnext hkeys hfind | cancel hphase hnext hkeys hfind
  | clear hphase hnext hkeys hfind =>
    exact ht.frame rfl rfl (fun _ h => h) fun _ _ h => nomatch h

/-! ## The log and the store -/

/-- What the log says about the phase and the map: who is being called, and that a timeout which has
    been neither cancelled nor called is in the map. -/
structure LogInvariant (s : State) : Prop where
  called : calledId s.events = (callingIds s.phase).head?
  timeout : ∀ t ∈ timers s.events, t.isInterval = false → ¬EndedIn t.id s.events →
    firings t.id s.events = [] → findTimer s t.id ≠ none

/-- An entry of the map goes when its timer is cancelled or called. -/
private theorem Does.find_kept (h : Does s s') (hevents : s'.events = s.events ++ [e]) {id : Int}
    {data : TimerData} (hsome : findTimer s id = some data) (hends : ends id e = false)
    (hquiet : firingOf id e = none) : findTimer s' id ≠ none := by
  have hlive : findTimer s id ≠ none := by simp [hsome]
  cases h with
  | schedule hphase hid hnext hkeys hfind =>
    rw [findTimer, hfind, hsome]
    simp
  | @cancel id' l hphase hnext hkeys hfind =>
    obtain rfl : .cancelled id' = e := by simpa using hevents
    have hne : ¬id = id' := fun heq => of_decide_eq_false hends heq.symm
    rw [findTimer, hfind, if_neg hne, hsome]
    simp
  | clear hphase hnext hkeys hfind =>
    obtain rfl : Event.cleared = e := by simpa using hevents
    cases hends
  | @fire now key data' l hphase htop hdue hsome' hnext hkeys hfind =>
    obtain rfl : .fired key data'.callback now = e := by simpa using hevents
    -- it fires for another id, as it writes no firing of `id`
    have hne : ¬(id = key.id ∧ data'.isInterval = false) := fun hc => by simp [hc.1] at hquiet
    rw [findTimer, hfind, if_neg hne, hsome]
    simp
  | skip hphase htop hdue hnone hnext hkeys hfind | rearm hphase hsome' hnext hkeys hfind =>
    rw [findTimer, hfind, ← findTimer]
    exact hlive
  | tick hphase | returns hphase hlate | finish hphase hnone => exact hlive

/-- Each step keeps the map in agreement with the log. -/
theorem LogInvariant.does (hl : LogInvariant s) (hn : Numbered s) (h : Does s s')
    (hcount : (timers s'.events).length < 2 ^ 31) : LogInvariant s' := by
  constructor
  · have hcalled := hl.called
    cases h with
    | schedule hphase hid hnext hkeys hfind | cancel hphase hnext hkeys hfind
    | clear hphase hnext hkeys hfind =>
      simpa using hcalled
    | tick hphase | returns hphase hlate | skip hphase htop hdue hnone hnext hkeys hfind =>
      simpa [hphase] using hcalled
    | fire hphase htop hdue hsome hnext hkeys hfind => simp
    | rearm hphase hsome hnext hkeys hfind => simp
    | finish hphase hnone => simp
  · intro t ht hshot hopen hunfired
    obtain ⟨e, hlogs⟩ := h.logs hn hcount
    rw [hlogs.events, timers_snoc, List.mem_append, Option.mem_toList] at ht
    rw [hlogs.events] at hopen hunfired
    cases ht with
    | inl hold =>
      rw [firings_snoc, List.append_eq_nil_iff, Option.toList_eq_nil_iff] at hunfired
      have hsome := hl.timeout t hold hshot (fun hended => hopen (hended.snoc e)) hunfired.1
      obtain ⟨data, hdata⟩ := Option.ne_none_iff_exists'.mp hsome
      refine h.find_kept hlogs.events hdata ?_ hunfired.2
      -- the event would have ended the timer
      rw [Bool.eq_false_iff]
      exact fun hends => hopen ⟨s.events, e, [], rfl, hends, List.mem_map_of_mem hold⟩
    | inr hnew =>
      refine hlogs.set t ?_
      cases e <;> simp_all

/-- The key of a timer that is in the map has the deadline the timer waits for. -/
private theorem waits_of_key (hinv : StoreInvariant s) (hl : LogInvariant s) {key : TimerKey}
    (hkey : key ∈ keysOf s) (hlive : findTimer s key.id ≠ none) :
    ∃ t, WaitsFor s.events t ∧ t.id = key.id ∧ nextDue s.events t = key.deadline := by
  obtain ⟨data, hdata⟩ := Option.ne_none_iff_exists'.mp hlive
  obtain ⟨t, ht, hid, rfl⟩ := hinv.stored.find key.id data hdata
  refine ⟨t, ⟨ht, ?_, ?_, ?_⟩, hid, (hinv.onSchedule.key key hkey t ht hid).symm⟩
  · rintro ⟨pre, e, post, hevents, hends, hmem⟩
    exact hlive (hid ▸ (hinv.endsRight.ended pre e post t.id hevents hends hmem).1)
  · intro hshot
    exact (hinv.onSchedule.oneShot t ht hshot).resolve_right fun hgone => hlive (hid ▸ hgone.2)
  · -- the key of the timer that is being called is not in the heap
    intro hcalled
    rw [hl.called, hid] at hcalled
    have hheld := hinv.stored.nodup
    rw [heldIds, List.nodup_append] at hheld
    exact hheld.2.2 key.id (List.mem_of_mem_head? hcalled) key.id (List.mem_map_of_mem hkey) rfl

/-- A timer that waits is in the map and has a key. -/
private theorem key_of_waits (hinv : StoreInvariant s) (hl : LogInvariant s) {t : SetTimer}
    (hwaits : WaitsFor s.events t) :
    findTimer s t.id ≠ none ∧ ∃ key ∈ keysOf s, key.id = t.id ∧
      key.deadline = nextDue s.events t := by
  have hlive : findTimer s t.id ≠ none := by
    cases hinterval : t.isInterval with
    | true => exact hinv.endsRight.live t hwaits.set hinterval hwaits.notEnded
    | false => exact hl.timeout t hwaits.set hinterval hwaits.notEnded (hwaits.unfired hinterval)
  refine ⟨hlive, ?_⟩
  obtain ⟨data, hdata⟩ := Option.ne_none_iff_exists'.mp hlive
  have hheld := hinv.stored.held t.id data hdata
  rw [heldIds, List.mem_append] at hheld
  cases hheld with
  | inl hcalling =>
    -- only one timer is being called, so the log names it
    have hcalled : calledId s.events = some t.id := by
      rw [hl.called]
      cases hphase : s.phase <;> simp_all
    exact absurd hcalled hwaits.notCalled
  | inr hheap =>
    obtain ⟨key, hkey, hid⟩ := List.mem_map.mp hheap
    exact ⟨key, hkey, hid, hinv.onSchedule.key key hkey t hwaits.set hid.symm⟩

/-! ## What the heap holds -/

/-- A key whose timer is gone has an abandoned deadline, and an abandoned deadline is in the heap
    until a tick has come to it. -/
structure WaitInvariant (s : State) : Prop where
  dead : ∀ key ∈ keysOf s, findTimer s key.id = none → CancelledAt s.events key.deadline
  kept : ∀ time, CancelledAt s.events time →
    (∃ key ∈ keysOf s, key.deadline = time) ∨ ∃ now ∈ ticks s.events, time ≤ now

/-- A key without a timer is that of a cancelled one. -/
private theorem WaitInvariant.dead_does (hw : WaitInvariant s) (hinv : StoreInvariant s)
    (hl : LogInvariant s) (h : Does s s') :
    ∀ key ∈ keysOf s', findTimer s' key.id = none → CancelledAt s'.events key.deadline := by
  intro key hkey hdead
  cases h with
  | @schedule t l hphase hid hnext hkeys hfind =>
    rw [findTimer, hfind] at hdead
    cases List.mem_cons.mp (hkeys.mem_iff.mp hkey) with
    | inl heq =>
      -- the new timer is in the map
      subst heq
      split at hdead
      · cases hdead
      · next hc => exact absurd ⟨rfl, hdead⟩ hc
    | inr hold =>
      split at hdead
      · cases hdead
      · exact (hw.dead key hold hdead).snoc (by simp)
  | @cancel id l hphase hnext hkeys hfind =>
    have hold : key ∈ keysOf s := hkeys ▸ hkey
    by_cases hlive : findTimer s key.id = none
    · exact (hw.dead key hold hlive).snoc (by simp)
    · -- this is the timer that is cancelled, and it waited for the deadline of its key
      obtain ⟨t, hwaits, htid, hdue⟩ := waits_of_key hinv hl hold hlive
      have hid : key.id = id := by
        by_contra hne
        rw [findTimer, hfind, if_neg hne] at hdead
        exact hlive hdead
      exact ⟨s.events, t, [], by rw [htid, hid], hwaits, hdue, by simp⟩
  | clear hphase hnext hkeys hfind =>
    rw [keysOf, hkeys] at hkey
    cases hkey
  | tick hphase | returns hphase hlate => exact (hw.dead key hkey hdead).snoc (by simp)
  | skip hphase htop hdue hnone hnext hkeys hfind =>
    have hold := hkeys.mem_iff.mpr (List.mem_cons_of_mem _ hkey)
    rw [findTimer, hfind] at hdead
    exact (hw.dead key hold hdead).snoc (by simp)
  | @fire now top data l hphase htop hdue hsome hnext hkeys hfind =>
    have hold := hkeys.mem_iff.mpr (List.mem_cons_of_mem _ hkey)
    -- the heap has no other key of the timer that is called
    have hnodup := hinv.nodup_heapIds
    rw [heapIds, (hkeys.map _).nodup_iff, List.map_cons, List.nodup_cons] at hnodup
    have hne : key.id ≠ top.id := fun heq => hnodup.1 (heq ▸ List.mem_map_of_mem hkey)
    rw [findTimer, hfind, if_neg (fun hc => hne hc.1)] at hdead
    exact (hw.dead key hold hdead).snoc (by simp)
  | @rearm now top data l hphase hsome hnext hkeys hfind =>
    rw [findTimer, hfind, ← findTimer] at hdead
    cases List.mem_cons.mp (hkeys.mem_iff.mp hkey) with
    | inl heq =>
      subst heq
      simp [hdead] at hsome
    | inr hold => exact (hw.dead key hold hdead).snoc (by simp)
  | finish hphase hnone => exact (hw.dead key hkey hdead).snoc (by simp)

/-- A key leaves the heap when a tick has come to it, or with all others. -/
private theorem Does.key_kept (h : Does s s') (ht : LastTick s) {key : TimerKey}
    (hkey : key ∈ keysOf s) :
    key ∈ keysOf s' ∨ (∃ now ∈ ticks s.events, key.deadline ≤ now) ∨
      s'.events = s.events ++ [.cleared] := by
  cases h with
  | schedule hphase hid hnext hkeys hfind =>
    exact .inl (hkeys.mem_iff.mpr (List.mem_cons_of_mem _ hkey))
  | @cancel id l hphase hnext hkeys hfind =>
    exact .inl (show key ∈ l.timerHeap.toList from hkeys ▸ hkey)
  | clear hphase hnext hkeys hfind => exact .inr (.inr rfl)
  | tick hphase | returns hphase hlate => exact .inl hkey
  | @skip now top l hphase htop hdue hnone hnext hkeys hfind
  | @fire now top data l hphase htop hdue hsome hnext hkeys hfind =>
    have hlast := ht.ticking now (by simp [hphase])
    cases List.mem_cons.mp (hkeys.mem_iff.mp hkey) with
    | inl heq => exact .inr (.inl ⟨now, List.mem_of_getLast? hlast, heq ▸ hdue⟩)
    | inr hrest => exact .inl hrest
  | rearm hphase hsome hnext hkeys hfind =>
    exact .inl (hkeys.mem_iff.mpr (List.mem_cons_of_mem _ hkey))
  | finish hphase hnone => exact .inl hkey

/-- The key of a cancelled timer stays in the heap until its deadline has passed. -/
private theorem WaitInvariant.kept_does (hw : WaitInvariant s) (hinv : StoreInvariant s)
    (hl : LogInvariant s) (ht : LastTick s) (h : Does s s') (time : Int)
    (hcancelled : CancelledAt s'.events time) :
    (∃ key ∈ keysOf s', key.deadline = time) ∨ ∃ now ∈ ticks s'.events, time ≤ now := by
  obtain ⟨e, hevents⟩ := h.events
  have hticks : ∀ now ∈ ticks s.events, now ∈ ticks s'.events := fun now hnow => by
    simp [hevents, hnow]
  rw [hevents] at hcancelled
  -- a deadline that is cancelled now was that of a timer, with its key in the heap
  have hbefore : ((∃ key ∈ keysOf s, key.deadline = time) ∨ ∃ now ∈ ticks s.events, time ≤ now) ∧
      e ≠ .cleared := by
    cases hcancelled.of_snoc with
    | inl hnow =>
      obtain ⟨t, rfl, hwaits, hdue⟩ := hnow
      obtain ⟨-, key, hkey, -, hdeadline⟩ := key_of_waits hinv hl hwaits
      exact ⟨.inl ⟨key, hkey, hdeadline.trans hdue⟩, fun h => nomatch h⟩
    | inr hold => exact ⟨hw.kept time hold.1, hold.2⟩
  obtain ⟨hplace, hcleared⟩ := hbefore
  cases hplace with
  | inl hheap =>
    obtain ⟨key, hkey, rfl⟩ := hheap
    rcases h.key_kept ht hkey with hkept | ⟨now, hnow, hle⟩ | hall
    · exact .inl ⟨key, hkept, rfl⟩
    · exact .inr ⟨now, hticks now hnow, hle⟩
    · exact absurd (by simpa [hevents] using hall) hcleared
  | inr hpast =>
    obtain ⟨now, hnow, hle⟩ := hpast
    exact .inr ⟨now, hticks now hnow, hle⟩

/-- All that the log says about the heap. -/
structure LoopInvariant (s : State) : Prop where
  store : StoreInvariant s
  log : LogInvariant s
  tick : LastTick s
  wait : WaitInvariant s

private theorem loopInvariant_init : LoopInvariant {} := by
  refine ⟨storeInvariant_init, ⟨rfl, ?_⟩, ⟨?_, ?_⟩, ⟨?_, ?_⟩⟩
  · simp [timers]
  · simp
  · simp
  · simp [keysOf]
  · simp [CancelledAt]

theorem LoopInvariant.does (hinv : LoopInvariant s) (h : Does s s')
    (hcount : (timers s'.events).length < 2 ^ 31) : LoopInvariant s' where
  store := hinv.store.does h hcount
  log := hinv.log.does hinv.store.numbered h hcount
  tick := hinv.tick.does h
  wait := ⟨hinv.wait.dead_does hinv.store hinv.log h,
    hinv.wait.kept_does hinv.store hinv.log hinv.tick h⟩

/-- What the heap holds, in every run. -/
theorem loopInvariant_of_run {labels : List Label} (hrun : Run.run step {} labels = some s)
    (hexact : Run.Along step (fun _ => NoOverflow) [] {} labels)
    (hcount : (timers s.events).length < 2 ^ 31) : LoopInvariant s :=
  invariant_of_does (B := fun events => (timers events).length < 2 ^ 31)
    (fun h hcount => h.length_timers_le.trans_lt hcount) (fun ih h hcount => ih.does h hcount)
    loopInvariant_init hrun hexact hcount

/-! ## Pending timers -/

theorem hasPending_of_find {id : Int} (h : findTimer s id ≠ none) :
    s.loop.hasPending = true := by
  obtain ⟨data, hdata⟩ := Option.ne_none_iff_exists'.mp h
  cases hempty : s.loop.timerMap.isEmpty with
  | false => simp [EventLoop.hasPending, hempty]
  | true =>
    rw [findTimer, Std.TreeMap.getElem?_of_isEmpty hempty] at hdata
    cases hdata

/-! ## A tick that has returned -/

/-- What `tick` has returned says about the heap and the map. -/
structure TickReturned (s : State) (now : Int) (pending : Bool) : Prop where
  key : ∀ top, s.loop.timerHeap.top = some top → now < top.deadline ∧ pending = true
  empty : s.loop.timerHeap.top = none → pending = s.loop.hasPending

/-- What a turn that returns tells its caller. -/
private theorem tickReturned_turn (s : State) (now now' : Int) (pending : Bool) :
    (s.turn now).events.getLast? = some (.returned now' pending) →
      TickReturned (s.turn now) now' pending := by
  unfold State.turn
  split
  · next htop =>
    intro h
    obtain ⟨rfl, rfl⟩ : now = now' ∧ (!s.loop.timerMap.isEmpty) = pending := by simpa using h
    exact ⟨(fun top h => by cases htop.symm.trans h), fun _ => rfl⟩
  · next key htop =>
    split
    · next hlate =>
      intro h
      obtain ⟨rfl, rfl⟩ : now = now' ∧ true = pending := by simpa using h
      refine ⟨fun top h => ?_, fun h => by cases htop.symm.trans h⟩
      obtain rfl := Option.some.inj (htop.symm.trans h)
      exact ⟨hlate, rfl⟩
    · -- the tick goes on
      split <;> intro h <;> simp at h

theorem tickReturned_of_step {l : Label} {pending : Bool} (hstep : step s l = some s')
    (h : s'.events.getLast? = some (.returned now pending)) :
    TickReturned s' now pending := by
  obtain ⟨e, hevents, -, -, hloop⟩ := event_of_step hstep
  rw [hevents, List.getLast?_concat] at h
  obtain rfl := hloop now pending (Option.some.inj h)
  simp only [step] at hstep
  split at hstep
  · obtain rfl := Option.some.inj hstep
    exact tickReturned_turn s _ now pending (by rw [hevents, List.getLast?_concat, h])
  · cases hstep

/-! ## `run_until_empty` -/

/-- Behind `tick`, `run_until_empty` is where it should be for what was returned. -/
def BehindTick (r : Runner) : Prop :=
  r.phase ≠ .tick → ∃ now pending, r.state.events.getLast? = some (.returned now pending) ∧
    TickReturned r.state now (r.phase = .wait)

/-- Each step of `run_until_empty` keeps `BehindTick`. -/
private theorem behindTick_step (r : Runner) (l : RunnerLabel) (r' : Runner) (_ : BehindTick r)
    (hstep : r.step l = some r') : BehindTick r' := by
  intro hback
  cases l with
  | loop l =>
    simp only [Runner.step] at hstep
    split at hstep
    · obtain ⟨s, hs, ⟨⟩⟩ := Option.bind_eq_some_iff.mp hstep
      -- `tick` has returned in this step
      cases hlast : s.events.getLast? with
      | none => exact absurd (by simp [hlast, Runner.phaseAfter]) hback
      | some e =>
        cases e with
        | returned now pending =>
          refine ⟨now, pending, rfl, ?_⟩
          have hphase : decide (Runner.phaseAfter (some (.returned now pending)) = .wait) =
            pending := by
            cases pending <;> rfl
          simp only [hphase]
          exact tickReturned_of_step hs hlast
        | _ => exact absurd (by simp [hlast, Runner.phaseAfter]) hback
    · exact nomatch hstep
  | waitForNext clock =>
    simp only [Runner.step] at hstep
    split at hstep
    · obtain rfl := Option.some.inj hstep
      exact absurd rfl hback
    · exact nomatch hstep

/-- The steps of the event loop among those of `run_until_empty`. -/
def loopLabels (labels : List RunnerLabel) : List Label :=
  labels.filterMap fun
    | .loop l => some l
    | .waitForNext _ => none

/-- A run of `run_until_empty` is a run of the event loop with pauses. -/
private theorem run_loopLabels {r' : Runner} {labels : List RunnerLabel}
    (hrun : Run.run Runner.step r labels = some r') :
    Run.run step r.state (loopLabels labels) = some r'.state := by
  induction labels generalizing r with
  | nil =>
    obtain rfl := Option.some.inj hrun
    rfl
  | cons l labels ih =>
    obtain ⟨r₁, hstep, hrest⟩ := Option.bind_eq_some_iff.mp hrun
    have hnext := ih hrest
    cases l with
    | loop l =>
      simp only [Runner.step] at hstep
      split at hstep
      · obtain ⟨s, hs, ⟨⟩⟩ := Option.bind_eq_some_iff.mp hstep
        exact Option.bind_eq_some_iff.mpr ⟨s, hs, hnext⟩
      · exact nomatch hstep
    | waitForNext clock =>
      simp only [Runner.step] at hstep
      split at hstep
      · obtain rfl := Option.some.inj hstep
        exact hnext
      · exact nomatch hstep

/-- `run_until_empty` goes on if and only if there are timers, and sleeps until one of them is
    due. -/
structure RunsWhilePending (r : Runner) : Prop where
  returned : r.phase = .wait ↔ r.state.loop.hasPending = true
  sleeps : ∀ clock r' time, r.step (.waitForNext clock) = some r' → r'.sleeps = r.sleeps ++ [time] →
    LiveDeadline r.state.events time

/-- No timer was cancelled whose deadline is still to come and before those of all that wait. -/
def NoneAhead (es : List Event) (now : Int) : Prop :=
  ∀ time, CancelledAt es time → now < time → ∃ time' ≤ time, LiveDeadline es time'

/-- What `wait_for_next` does. -/
private theorem step_waitForNext {clock : Int} (h : r.phase = .wait) :
    r.step (.waitForNext clock) = some { r with
      phase := .tick
      sleeps := r.sleeps ++ (r.state.loop.waitForNext clock).toList } := by
  simp [Runner.step, h]

/-- `wait_for_next` sleeps until the first deadline of the heap. -/
private theorem top_of_sleep {r' : Runner} {clock : Int}
    (hstep : r.step (.waitForNext clock) = some r') (hsleeps : r'.sleeps = r.sleeps ++ [time]) :
    ∃ top, r.state.loop.timerHeap.top = some top ∧ top.deadline = time := by
  have hwait : r.phase = .wait := by
    by_contra hne
    simp [Runner.step] at hstep
  rw [step_waitForNext hwait] at hstep
  obtain rfl := Option.some.inj hstep
  -- it has slept, so there is a key
  have htime : r.state.loop.waitForNext clock = some time := by
    cases h : r.state.loop.waitForNext clock with
    | none => simp [h] at hsleeps
    | some time' => simpa [h] using hsleeps
  unfold EventLoop.waitForNext at htime
  split at htime
  · exact nomatch htime
  · next key htop =>
    split at htime
    · exact ⟨key, htop, Option.some.inj htime⟩
    · exact nomatch htime

/-- If no abandoned deadline is ahead, the first key of the heap has the deadline of a timer. -/
private theorem liveDeadline_top (hinv : LoopInvariant s) {top : TimerKey}
    (htop : s.loop.timerHeap.top = some top) (hlate : now < top.deadline)
    (hahead : NoneAhead s.events now) : LiveDeadline s.events top.deadline := by
  have hmem : top ∈ keysOf s := (PriorityQueue.pop_perm htop).mem_iff.mpr List.mem_cons_self
  by_cases hfind : findTimer s top.id = none
  · -- its timer was cancelled, and one that waits is not later
    obtain ⟨time, hle, t, hwaits, hdue⟩ := hahead _ (hinv.wait.dead top hmem hfind) hlate
    obtain ⟨-, key, hkey, -, hdeadline⟩ := key_of_waits hinv.store hinv.log hwaits
    have hfirst := top_le htop hkey
    have heq : time = top.deadline := by omega
    exact heq ▸ ⟨t, hwaits, hdue⟩
  · obtain ⟨t, hwaits, -, hdue⟩ := waits_of_key hinv.store hinv.log hmem hfind
    exact ⟨t, hwaits, hdue⟩

/-- Behind a tick, the loop goes on as long as there are timers and sleeps for them only, exactly if
    no timer was cancelled while it waited for a deadline that is later than the tick and earlier
    than those of all timers that wait. -/
theorem runs_while_pending_iff {before : List Label} {s₀ : State} {labels : List RunnerLabel}
    (hbefore : Run.run step {} before = some s₀)
    (hrun : Run.run Runner.step { state := s₀ } labels = some r) (hback : r.phase ≠ .tick)
    (hexact : Run.Along step (fun _ => NoOverflow) [] {} (before ++ loopLabels labels))
    (hclock : (clocks r.state.events).Pairwise (· ≤ ·))
    (hcount : (timers r.state.events).length < 2 ^ 31) {pending : Bool}
    (hlast : r.state.events.getLast? = some (.returned now pending)) :
    RunsWhilePending r ↔ NoneAhead r.state.events now := by
  have hloop : Run.run step {} (before ++ loopLabels labels) = some r.state := by
    rw [Run.run_append, hbefore]
    exact run_loopLabels hrun
  have hinv := loopInvariant_of_run hloop hexact hcount
  have hbehind : BehindTick r :=
    Run.stateInvariant_of_run behindTick_step (fun h => absurd rfl h) hrun
  obtain ⟨now', pending', hlast', hkey, hempty⟩ := hbehind hback
  obtain ⟨rfl, -⟩ := Event.returned.inj (Option.some.inj (hlast'.symm.trans hlast))
  constructor
  · intro h time hcancelled hlate
    -- the deadline is in the heap, so `wait_for_next` sleeps, and not longer than until it
    obtain ⟨key, hmem, rfl⟩ : ∃ key ∈ keysOf r.state, key.deadline = time := by
      refine (hinv.wait.kept time hcancelled).resolve_right ?_
      rintro ⟨now, hnow, hle⟩
      obtain ⟨pre, hpre⟩ := List.getLast?_eq_some_iff.mp hlast
      have := le_of_mem_ticks hclock (hinv.tick.returned pre now' pending hpre) hnow
      omega
    cases htop : r.state.loop.timerHeap.top with
    | none =>
      rw [PriorityQueue.top_eq_none_iff] at htop
      simp [keysOf, htop] at hmem
    | some top =>
      obtain ⟨hfuture, hwait⟩ := hkey top htop
      have hsleep : r.state.loop.waitForNext now' = some top.deadline := by
        simp [EventLoop.waitForNext, htop, hfuture]
      exact ⟨top.deadline, top_le htop hmem,
        h.sleeps now' _ top.deadline (step_waitForNext (of_decide_eq_true hwait))
        (by simp [hsleep])⟩
  · intro hahead
    constructor
    · cases htop : r.state.loop.timerHeap.top with
      | none => rw [← hempty htop, decide_eq_true_eq]
      | some top =>
        obtain ⟨hlate, hwait⟩ := hkey top htop
        obtain ⟨t, hwaits, -⟩ := liveDeadline_top hinv htop hlate hahead
        have hfind := (key_of_waits hinv.store hinv.log hwaits).1
        exact iff_of_true (of_decide_eq_true hwait) (hasPending_of_find hfind)
    · intro clock r' time hstep hsleeps
      obtain ⟨top, htop, rfl⟩ := top_of_sleep hstep hsleeps
      exact liveDeadline_top hinv htop (hkey top htop).1 hahead

/-- A timeout of 1 s and one of 2 s that was cancelled, in front of a tick. -/
def cancelledBehind : List Label :=
  [.setTimeout 1 [] 1000 0, .setTimeout 2 [] 2000 0, .cancel 2]

/-- The cancelled timeout is behind the other, so the loop sleeps for that one. -/
theorem runs_while_pending_iff_cancelledBehind :
    let labels : List RunnerLabel := [.loop (.tick 0), .loop .loop]
    ∃ s₀ r, Run.run step {} cancelledBehind = some s₀ ∧
      Run.run Runner.step { state := s₀ } labels = some r ∧ r.phase ≠ .tick ∧
      CancelledAt r.state.events 2000000000 ∧ RunsWhilePending r := by
  intro labels
  have heval : ((Run.run step {} cancelledBehind).bind fun s₀ =>
      (Run.run Runner.step { state := s₀ } labels).map fun r => (r.phase, keysOf r.state,
        [1, 2].map fun id => (findTimer r.state id).isSome, clocks r.state.events)) =
      some (.wait, [⟨1000000000, 1⟩, ⟨2000000000, 2⟩], [true, false], [0, 0, 0]) := by
    decide +kernel
  have hlog : ((Run.run step {} cancelledBehind).bind fun s₀ =>
      (Run.run Runner.step { state := s₀ } labels).map fun r => (r.state.events.getLast?,
        (timers r.state.events).length, ticks r.state.events)) =
      some (some (.returned 0 true), 2, [0]) := by
    decide +kernel
  have hexact : Run.Along step (fun _ => NoOverflow) [] {}
    (cancelledBehind ++ loopLabels labels) := by
    decide +kernel
  obtain ⟨s₀, hbefore, hr⟩ := Option.bind_eq_some_iff.mp heval
  obtain ⟨r, hrun, hr⟩ := Option.map_eq_some_iff.mp hr
  rw [hbefore, Option.bind_some, hrun, Option.map_some] at hlog
  simp only [Prod.mk.injEq, List.map_cons, List.map_nil, List.cons.injEq, Option.some.injEq]
    at hr hlog
  obtain ⟨hphase, hkeys, ⟨hfirst, hsecond, -⟩, hclocks⟩ := hr
  obtain ⟨hlast, hlength, hticks⟩ := hlog
  have hback : r.phase ≠ .tick := by simp [hphase]
  have hclock : (clocks r.state.events).Pairwise (· ≤ ·) := by simp [hclocks]
  have hcount : (timers r.state.events).length < 2 ^ 31 := by omega
  have hloop : Run.run step {} (cancelledBehind ++ loopLabels labels) = some r.state := by
    rw [Run.run_append, hbefore]
    exact run_loopLabels hrun
  have hinv := loopInvariant_of_run hloop hexact hcount
  -- the timeout in front is not cancelled
  have hlive : LiveDeadline r.state.events 1000000000 := by
    have hmem : ⟨1000000000, 1⟩ ∈ keysOf r.state := by simp [hkeys]
    obtain ⟨t, hwaits, -, hdue⟩ :=
      waits_of_key hinv.store hinv.log hmem (Option.isSome_iff_ne_none.mp hfirst)
    exact ⟨t, hwaits, hdue⟩
  have hahead : NoneAhead r.state.events 0 := by
    intro time hcancelled hlate
    refine ⟨1000000000, ?_, hlive⟩
    rcases hinv.wait.kept time hcancelled with ⟨key, hmem, rfl⟩ | ⟨now, hnow, hle⟩
    · simp only [hkeys, List.mem_cons, List.not_mem_nil, or_false] at hmem
      rcases hmem with rfl | rfl <;> decide
    · simp only [hticks, List.mem_singleton] at hnow
      omega
  exact ⟨s₀, r, hbefore, hrun, hback,
    hinv.wait.dead ⟨2000000000, 2⟩ (by simp [hkeys])
    (Option.not_isSome_iff_eq_none.mp (by simp [hsecond])),
    (runs_while_pending_iff hbefore hrun hback hexact hclock hcount hlast).mpr hahead⟩

/-- A timer that was cancelled keeps the loop.  There is no timer, but `tick` returns `true` and the
    thread sleeps for a second. -/
theorem cancelled_timeout_waited_for :
    let labels : List RunnerLabel := [.loop (.setTimeout 1 [] 1000 0), .loop (.cancel 1),
      .loop (.tick 0), .loop .loop]
    ∃ r r', Run.run Runner.step { state := {} } labels = some r ∧ r.phase = .wait ∧
      r.state.loop.hasPending = false ∧ r.step (.waitForNext 0) = some r' ∧
      r'.sleeps = [1000000000] ∧ ¬RunsWhilePending r := by
  intro labels
  have heval : (Run.run Runner.step { state := {} } labels).map (fun r =>
      (r.phase, r.state.loop.hasPending, (r.step (.waitForNext 0)).map Runner.sleeps)) =
      some (.wait, false, some [1000000000]) := by
    decide +kernel
  obtain ⟨r, hrun, hr⟩ := Option.map_eq_some_iff.mp heval
  simp only [Prod.mk.injEq] at hr
  obtain ⟨hwait, hpending, hsleep⟩ := hr
  obtain ⟨r', hstep, hsleeps⟩ := Option.map_eq_some_iff.mp hsleep
  refine ⟨r, r', hrun, hwait, hpending, hstep, hsleeps, fun h => ?_⟩
  exact nomatch (h.returned.mp hwait).symm.trans hpending

end Ppnt.Spec
