import Ppnt.Spec.TimerSteps

/-!
# The invariant of the timer store

What holds of the heap, the map and the log in every state that the loop reaches.  Each group is
kept by every step (`Does`), with what the groups before it say.
-/

namespace Ppnt.Spec

open Ppnt.Native EventLoop

/-! ## Ids -/

/-- The timers are numbered from 1. -/
structure Numbered (s : State) : Prop where
  nextId : s.loop.nextId = toInt32 ((timers s.events).length + 1)
  ids : (timers s.events).map SetTimer.id =
    (List.range (timers s.events).length).map fun i : Nat => (i : Int) + 1

private theorem toInt32_eq {n : Nat} (h : n < 2 ^ 31) : toInt32 n = n :=
  Int.bmod_eq_of_le (by omega) (by omega)

variable {s s' : State} {t : SetTimer} {e : Event}

/-- No timer is set. -/
theorem Numbered.frame (hn : Numbered s) (hnext : s'.loop.nextId = s.loop.nextId)
    (htimers : timers s'.events = timers s.events) : Numbered s' :=
  ⟨by rw [hnext, htimers, hn.nextId], by rw [htimers, hn.ids]⟩

/-- Ids are given in order, until the counter wraps. -/
theorem Numbered.does (hn : Numbered s) (h : Does s s')
    (hcount : (timers s'.events).length < 2 ^ 31) : Numbered s' := by
  cases h with
  | schedule hphase hid hnext hkeys hfind =>
    simp only [timers_snoc, timerOf, Option.toList_some, List.length_append, List.length_singleton]
      at hcount
    have hfresh := toInt32_eq hcount
    constructor
    · show _ = toInt32 _
      rw [hnext, hn.nextId, toInt32, toInt32, toInt32, Int.bmod_add_bmod]
      simp
    · simp only [timers_snoc, timerOf, Option.toList_some, List.map_append, List.length_append,
        List.length_singleton, List.range_succ, hn.ids, List.map_singleton, hid, hn.nextId]
      rw [← Nat.cast_succ, hfresh]
  | cancel hphase hnext hkeys hfind | clear hphase hnext hkeys hfind =>
    exact hn.frame hnext (by simp)
  | tick hphase | returns hphase hlate => exact hn.frame rfl (by simp)
  | skip hphase htop hdue hnone hnext hkeys hfind | fire hphase htop hdue hsome hnext hkeys hfind
  | rearm hphase hsome hnext hkeys hfind =>
    exact hn.frame hnext (by simp)
  | finish hphase hnone => exact hn.frame rfl (by simp)

theorem Numbered.nodup (hn : Numbered s) : ((timers s.events).map SetTimer.id).Nodup := by
  rw [hn.ids]
  apply List.Nodup.map _ List.nodup_range
  intro i j hij
  simpa using hij

/-- A timer is known by its id. -/
private theorem Numbered.eq_of_id (hn : Numbered s) {t' : SetTimer} (ht : t ∈ timers s.events)
    (ht' : t' ∈ timers s.events) (hid : t.id = t'.id) : t = t' :=
  List.inj_on_of_nodup_map hn.nodup ht ht' hid

/-- A new timer has a greater id than those before it. -/
theorem Numbered.lt_of_schedule (hn : Numbered s) (hid : t.id = s.loop.nextId)
    (hcount : (timers (s.events ++ [.scheduled t])).length < 2 ^ 31) :
    ∀ id ∈ (timers s.events).map SetTimer.id, id < t.id := by
  intro id hmem
  simp only [timers_snoc, timerOf, Option.toList_some, List.length_append, List.length_singleton]
    at hcount
  have hnew : t.id = (timers s.events).length + 1 := by
    rw [hid, hn.nextId, ← Nat.cast_succ, toInt32_eq hcount]
  rw [hn.ids] at hmem
  obtain ⟨i, hi, rfl⟩ := List.mem_map.mp hmem
  have := List.mem_range.mp hi
  omega

private theorem Numbered.fresh_of_schedule (hn : Numbered s) (hid : t.id = s.loop.nextId)
    (hcount : (timers (s.events ++ [.scheduled t])).length < 2 ^ 31) :
    t.id ∉ (timers s.events).map SetTimer.id :=
  fun hmem => lt_irrefl _ (hn.lt_of_schedule hid hcount t.id hmem)

/-! ## Keys -/

/-- A timer in the map has one key, and an id has no two. -/
structure Stored (s : State) : Prop where
  find : ∀ id data, findTimer s id = some data →
    ∃ t ∈ timers s.events, t.id = id ∧ data = dataOf t
  held : ∀ id data, findTimer s id = some data → id ∈ heldIds s
  known : ∀ id ∈ heldIds s, id ∈ (timers s.events).map SetTimer.id
  nodup : (heldIds s).Nodup
  called : ∀ now key, s.phase = .calling now key false → findTimer s key.id = none

/-- The keys move or go, and so do the entries of the map. -/
private theorem Stored.shrink (hs : Stored s) (hstep : Does s s')
    (htimers : timers s'.events = timers s.events)
    (hids : ∃ ids, (heldIds s).Perm (ids ++ heldIds s') ∧ ∀ id ∈ ids, findTimer s' id = none)
    (hcalled : ∀ now key, s'.phase = .calling now key false → findTimer s' key.id = none) :
    Stored s' := by
  obtain ⟨ids, hperm, hgone⟩ := hids
  constructor
  · intro id data h
    rw [htimers]
    exact hs.find id data (hstep.find_of_timers htimers h)
  · intro id data h
    have hmem := hperm.mem_iff.mp (hs.held id data (hstep.find_of_timers htimers h))
    -- an id that has lost its key is not in the map any more
    cases List.mem_append.mp hmem with
    | inl hid => exact nomatch (hgone id hid).symm.trans h
    | inr hid => exact hid
  · intro id hid
    rw [htimers]
    exact hs.known id (hperm.mem_iff.mpr (List.mem_append_right _ hid))
  · exact (List.nodup_append.mp (hperm.nodup_iff.mp hs.nodup)).2.1
  · exact hcalled

/-- The map holds the timers that were set. -/
theorem Stored.does (hs : Stored s) (hn : Numbered s) (h : Does s s')
    (hcount : (timers s'.events).length < 2 ^ 31) : Stored s' := by
  have hstep := h
  cases h with
  | @schedule t l hphase hid hnext hkeys hfind =>
    have hfresh := hn.fresh_of_schedule hid hcount
    have hheld : (heldIds ⟨l, s.phase, s.events ++ [.scheduled t]⟩).Perm (t.id :: heldIds s) := by
      have := (hkeys.map TimerKey.id).append_left (callingIds s.phase)
      exact this.trans List.perm_middle
    have hentry : ∀ id data, l.timerMap[id]? = some data →
        findTimer s id = some data ∨ id = t.id ∧ data = dataOf t := by
      intro id data h
      refine (hstep.find_cases h).imp_right fun ⟨t', hevents, hnew⟩ => ?_
      obtain rfl : t = t' := by simpa using hevents
      exact hnew
    constructor
    · intro id data h
      simp only [timers_snoc, timerOf, Option.toList_some, List.mem_append, List.mem_singleton]
      cases hentry id data h with
      | inl hold =>
        obtain ⟨t', ht', hid', hdata⟩ := hs.find id data hold
        exact ⟨t', .inl ht', hid', hdata⟩
      | inr hnew => exact ⟨t, .inr rfl, hnew.1.symm, hnew.2⟩
    · intro id data h
      rw [hheld.mem_iff, List.mem_cons]
      exact (hentry id data h).symm.imp And.left (hs.held id data)
    · intro id hmem
      rw [hheld.mem_iff, List.mem_cons] at hmem
      simp only [timers_snoc, timerOf, Option.toList_some, List.map_append, List.mem_append,
        List.map_singleton, List.mem_singleton]
      exact hmem.symm.imp_left (hs.known id)
    · -- every id that has a key is an earlier one
      rw [hheld.nodup_iff, List.nodup_cons]
      exact ⟨fun hmem => hfresh (hs.known _ hmem), hs.nodup⟩
    · intro now key hcall
      have hknown : key.id ∈ heldIds s := by simp [heldIds, show s.phase = _ from hcall]
      have hne : key.id ≠ t.id := fun heq => hfresh (heq ▸ hs.known _ hknown)
      show l.timerMap[key.id]? = none
      rw [hfind, if_neg (fun hc => hne hc.1)]
      exact hs.called now key hcall
  | cancel hphase hnext hkeys hfind =>
    refine hs.shrink hstep (by simp) ⟨[], ?_, by simp⟩ fun now key hcall => ?_
    · simp [heldIds, heapIds, keysOf, hkeys]
    · exact hstep.find_none_of_timers (by simp) (hs.called now key hcall)
  | clear hphase hnext hkeys hfind =>
    refine hs.shrink hstep (by simp) ⟨heapIds s, ?_, fun id _ => hfind id⟩ fun now key _ =>
      hfind key.id
    simp only [heldIds, heapIds, keysOf, hkeys, List.map_nil, List.append_nil]
    exact List.perm_append_comm
  | tick hphase | returns hphase hlate =>
    refine hs.shrink hstep (by simp) ⟨[], ?_, by simp⟩ fun now key hcall => nomatch hcall
    simp [heldIds, hphase, heapIds, keysOf]
  | @skip now key l hphase htop hdue hnone hnext hkeys hfind =>
    refine hs.shrink hstep (by simp) ⟨[key.id], ?_, ?_⟩ fun now key hcall => nomatch hcall
    · simpa [heldIds, heapIds, keysOf, hphase] using hkeys.map TimerKey.id
    · intro id hid
      rw [List.mem_singleton.mp hid]
      exact hstep.find_none_of_timers (by simp) hnone
  | @fire now key data l hphase htop hdue hsome hnext hkeys hfind =>
    -- the key goes from the heap to the call
    refine hs.shrink hstep (by simp) ⟨[], ?_, by simp⟩ fun now key' hcall => ?_
    · simpa [heldIds, heapIds, keysOf, hphase] using hkeys.map TimerKey.id
    · obtain ⟨rfl, rfl, hshot⟩ := Phase.calling.inj hcall
      show l.timerMap[key.id]? = none
      rw [hfind, if_pos ⟨rfl, hshot⟩]
  | rearm hphase hsome hnext hkeys hfind =>
    -- and back into the heap
    refine hs.shrink hstep (by simp) ⟨[], ?_, by simp⟩ fun now key hcall => nomatch hcall
    simpa [heldIds, heapIds, keysOf, hphase] using (hkeys.map TimerKey.id).symm
  | @finish now key isInterval hphase hnone =>
    -- the key is dropped with the timer: it was a timeout, or it has been cancelled in its callback
    refine hs.shrink hstep (by simp) ⟨[key.id], ?_, ?_⟩ fun now key hcall => nomatch hcall
    · simp [heldIds, hphase, heapIds, keysOf]
    · intro id hid
      rw [List.mem_singleton.mp hid]
      cases hnone with
      | inl hshot =>
        subst hshot
        exact hs.called now key hphase
      | inr hnone => exact hnone

/-! ## Firings -/

/-- The firings of a timer are for its deadlines, one after another, and its key has the next
    one. -/
structure OnSchedule (s : State) : Prop where
  fired : ∀ t ∈ timers s.events, (firings t.id s.events).map Firing.deadline =
    (List.range (firings t.id s.events).length).map (dueAt t)
  onTime : ∀ id, ∀ f ∈ firings id s.events,
    ∃ t ∈ timers s.events, t.id = id ∧ f.callback = t.callback ∧ f.deadline ≤ f.now
  key : ∀ key ∈ keysOf s, ∀ t ∈ timers s.events, t.id = key.id →
    key.deadline = dueAt t (firings t.id s.events).length
  called : ∀ now key isInterval, s.phase = .calling now key isInterval →
    ∀ t ∈ timers s.events, t.id = key.id → t.isInterval = isInterval ∧
      ∃ n, (firings t.id s.events).length = n + 1 ∧ key.deadline = dueAt t n
  oneShot : ∀ t ∈ timers s.events, t.isInterval = false →
    firings t.id s.events = [] ∨
      (firings t.id s.events).length = 1 ∧ findTimer s t.id = none

private theorem OnSchedule.firings_eq_nil (ho : OnSchedule s) {id : Int}
    (hid : id ∉ (timers s.events).map SetTimer.id) : firings id s.events = [] := by
  rw [List.eq_nil_iff_forall_not_mem]
  intro f hf
  obtain ⟨t, ht, rfl, -⟩ := ho.onTime id f hf
  exact hid (List.mem_map_of_mem ht)

/-- Nothing is set and nothing fires. -/
theorem OnSchedule.frame (ho : OnSchedule s) (hstep : Does s s')
    (htimers : timers s'.events = timers s.events)
    (hfirings : ∀ id, firings id s'.events = firings id s.events)
    (hkey : ∀ key ∈ keysOf s', key ∈ keysOf s ∨ ∀ t ∈ timers s.events, t.id = key.id →
      key.deadline = dueAt t (firings t.id s.events).length)
    (hphase : ∀ now key isInterval, s'.phase = .calling now key isInterval →
      s.phase = .calling now key isInterval) :
    OnSchedule s' := by
  constructor
  · intro t ht
    rw [htimers] at ht
    rw [hfirings]
    exact ho.fired t ht
  · intro id f hf
    rw [hfirings] at hf
    rw [htimers]
    exact ho.onTime id f hf
  · intro key hmem t ht hid
    rw [htimers] at ht
    rw [hfirings]
    cases hkey key hmem with
    | inl hold => exact ho.key key hold t ht hid
    | inr hnew => exact hnew t ht hid
  · intro now key isInterval hcall t ht hid
    rw [htimers] at ht
    rw [hfirings]
    exact ho.called now key isInterval (hphase now key isInterval hcall) t ht hid
  · intro t ht hshot
    rw [htimers] at ht
    rw [hfirings]
    exact (ho.oneShot t ht hshot).imp_right (And.imp_right (hstep.find_none_of_timers htimers))

/-- A timer is set: its id is new. -/
theorem OnSchedule.schedule (ho : OnSchedule s) (hs : Stored s)
    (hfresh : t.id ∉ (timers s.events).map SetTimer.id)
    (htimers : timers s'.events = timers s.events ++ [t])
    (hfirings : ∀ id, firings id s'.events = firings id s.events)
    (hfind : ∀ id ≠ t.id, findTimer s' id = findTimer s id)
    (hkey : ∀ key ∈ keysOf s', key ∈ keysOf s ∨ key = ⟨dueAt t 0, t.id⟩)
    (hphase : s'.phase = s.phase) : OnSchedule s' := by
  have hnil := ho.firings_eq_nil hfresh
  have hold : ∀ id, id ∈ (timers s.events).map SetTimer.id → id ≠ t.id :=
    fun id hid heq => hfresh (heq ▸ hid)
  constructor
  · intro t' ht'
    rw [htimers, List.mem_append, List.mem_singleton] at ht'
    rw [hfirings]
    cases ht' with
    | inl hmem => exact ho.fired t' hmem
    | inr heq => simp [heq, hnil]
  · intro id f hf
    rw [hfirings] at hf
    obtain ⟨t', ht', h⟩ := ho.onTime id f hf
    exact ⟨t', htimers ▸ List.mem_append_left _ ht', h⟩
  · intro key hmem t' ht' hid
    rw [htimers, List.mem_append, List.mem_singleton] at ht'
    rw [hfirings]
    cases hkey key hmem with
    | inl hmem =>
      -- an old key is not the new timer's
      have hheld : key.id ∈ heldIds s := List.mem_append_right _ (List.mem_map_of_mem hmem)
      cases ht' with
      | inl ht' => exact ho.key key hmem t' ht' hid
      | inr heq => exact absurd (heq ▸ hid).symm (hold _ (hs.known _ hheld))
    | inr heq =>
      subst heq
      cases ht' with
      | inl ht' => exact absurd hid (hold _ (List.mem_map_of_mem ht'))
      | inr heq => simp [heq, hnil]
  · intro now key isInterval hcall t' ht' hid
    rw [hphase] at hcall
    rw [htimers, List.mem_append, List.mem_singleton] at ht'
    rw [hfirings]
    have hheld : key.id ∈ heldIds s := by simp [heldIds, hcall]
    cases ht' with
    | inl ht' => exact ho.called now key isInterval hcall t' ht' hid
    | inr heq => exact absurd (heq ▸ hid).symm (hold _ (hs.known _ hheld))
  · intro t' ht' hshot
    rw [htimers, List.mem_append, List.mem_singleton] at ht'
    rw [hfirings]
    cases ht' with
    | inl ht' =>
      rw [hfind _ (hold _ (List.mem_map_of_mem ht'))]
      exact ho.oneShot t' ht' hshot
    | inr heq => exact .inl (heq ▸ hnil)

/-- The timer at the top fires. -/
theorem OnSchedule.fire (ho : OnSchedule s) (hn : Numbered s) (hs : Stored s) {now : Int}
    {key : TimerKey} {data : TimerData} (hphase : s.phase = .ticking now)
    (hdue : key.deadline ≤ now) (hsome : findTimer s key.id = some data)
    (hkeys : (keysOf s).Perm (key :: keysOf s'))
    (hfind : ∀ id, findTimer s' id = if id = key.id ∧
      data.isInterval = false then none else findTimer s id)
    (hphase' : s'.phase = .calling now key data.isInterval)
    (hevents : s'.events = s.events ++ [.fired key data.callback now]) : OnSchedule s' := by
  obtain ⟨t, ht, hid, rfl⟩ := hs.find key.id data hsome
  have htimers : timers s'.events = timers s.events := by simp [hevents]
  have hself : firings t.id s'.events = firings t.id s.events ++
    [⟨key.deadline, now, t.callback⟩] := by
    simp [hevents, hid, dataOf]
  have hother : ∀ id, id ≠ t.id → firings id s'.events = firings id s.events := by
    intro id hne
    simp [hevents, ← hid, hne.symm]
  have hdeadline := ho.key key (hkeys.mem_iff.mpr List.mem_cons_self) t ht hid
  have hunique : ∀ t' ∈ timers s.events, t'.id = t.id → t' = t :=
    fun t' ht' heq => hn.eq_of_id ht' ht heq
  constructor
  · intro t' ht'
    rw [htimers] at ht'
    by_cases heq : t'.id = t.id
    · obtain rfl := hunique t' ht' heq
      simp [hself, List.range_succ, ho.fired t' ht', ← hdeadline]
    · rw [hother _ heq]
      exact ho.fired t' ht'
  · intro id f hf
    rw [htimers]
    by_cases heq : id = t.id
    · subst heq
      rw [hself, List.mem_append, List.mem_singleton] at hf
      cases hf with
      | inl hold => exact ho.onTime _ f hold
      | inr hnew =>
        subst hnew
        exact ⟨t, ht, rfl, rfl, hdue⟩
    · rw [hother _ heq] at hf
      exact ho.onTime id f hf
  · intro key' hmem t' ht' hid'
    rw [htimers] at ht'
    -- the heap has no other key of the timer
    have hne : key'.id ≠ key.id := by
      have hnodup := hs.nodup
      simp only [heldIds, hphase, callingIds, List.nil_append] at hnodup
      rw [heapIds, (hkeys.map _).nodup_iff, List.map_cons, List.nodup_cons] at hnodup
      exact fun heq => hnodup.1 (heq ▸ List.mem_map_of_mem hmem)
    rw [hother _ (by rw [hid', hid]; exact hne)]
    exact ho.key key' (hkeys.mem_iff.mpr (List.mem_cons_of_mem _ hmem)) t' ht' hid'
  · intro now' key' isInterval hcall t' ht' hid'
    rw [htimers] at ht'
    obtain ⟨rfl, rfl, rfl⟩ := Phase.calling.inj (hphase'.symm.trans hcall)
    obtain rfl := hunique t' ht' (hid'.trans hid.symm)
    exact ⟨rfl, _, by rw [hself, List.length_append, List.length_singleton], hdeadline⟩
  · intro t' ht' hshot
    rw [htimers] at ht'
    by_cases heq : t'.id = t.id
    · obtain rfl := hunique t' ht' heq
      -- it was in the map, so this is the first time
      have hfirst : firings t'.id s.events = [] := by
        cases ho.oneShot t' ht' hshot with
        | inl hnil => exact hnil
        | inr hgone => exact nomatch (hid ▸ hgone.2).symm.trans hsome
      refine .inr ⟨by simp [hself, hfirst], ?_⟩
      rw [hfind, if_pos ⟨hid, hshot⟩]
    · rw [hother _ heq, hfind, if_neg (fun hc => heq (hc.1.trans hid.symm))]
      exact ho.oneShot t' ht' hshot

/-- Firings and keys stay on the schedule of their timer. -/
theorem OnSchedule.does (ho : OnSchedule s) (hn : Numbered s) (hs : Stored s) (h : Does s s')
    (hcount : (timers s'.events).length < 2 ^ 31) : OnSchedule s' := by
  have hstep := h
  cases h with
  | @schedule t l hphase hid hnext hkeys hfind =>
    have hfresh := hn.fresh_of_schedule hid hcount
    refine ho.schedule hs hfresh (by simp) (by simp) (fun id hne => ?_) (fun key hmem => ?_) rfl
    · show l.timerMap[id]? = _
      rw [hfind, if_neg (fun hc => hne hc.1)]
    · exact (List.mem_cons.mp (hkeys.mem_iff.mp hmem)).symm
  | cancel hphase hnext hkeys hfind =>
    exact ho.frame hstep (by simp) (by simp) (fun key hmem => .inl (hkeys ▸ hmem)) fun _ _ _ h => h
  | clear hphase hnext hkeys hfind =>
    refine ho.frame hstep (by simp) (by simp) (fun key hmem => ?_) fun _ _ _ h => h
    rw [keysOf, hkeys] at hmem
    cases hmem
  | tick hphase | returns hphase hlate =>
    exact ho.frame hstep (by simp) (by simp) (fun _ => .inl) fun _ _ _ h => by cases h
  | skip hphase htop hdue hnone hnext hkeys hfind =>
    refine ho.frame hstep (by simp) (by simp) (fun key' hmem => ?_) fun _ _ _ h => by cases h
    exact .inl (hkeys.mem_iff.mpr (List.mem_cons_of_mem _ hmem))
  | fire hphase htop hdue hsome hnext hkeys hfind =>
    exact ho.fire hn hs hphase hdue hsome hkeys hfind rfl rfl
  | @rearm now key data l hphase hsome hnext hkeys hfind =>
    refine ho.frame hstep (by simp) (by simp) (fun key' hmem => ?_) fun _ _ _ h => by cases h
    cases List.mem_cons.mp (hkeys.mem_iff.mp hmem) with
    | inr hold => exact .inl hold
    | inl hnew =>
      -- the deadline behind the one that has just been fired
      refine .inr fun t ht hid => ?_
      subst hnew
      obtain ⟨t', ht', hid', rfl⟩ := hs.find key.id data hsome
      obtain rfl := hn.eq_of_id ht' ht (hid'.trans hid.symm)
      obtain ⟨-, n, hlength, hdeadline⟩ := ho.called now key true hphase t' ht' hid
      rw [hlength, dueAt_succ, ← hdeadline]
      rfl
  | finish hphase hnone =>
    exact ho.frame hstep (by simp) (by simp) (fun _ => .inl) fun _ _ _ h => by cases h

/-! ## Cancelled timers -/

/-- A timer that was cancelled is not in the map and does not fire; an interval that was not is. -/
structure EndsRight (s : State) : Prop where
  ended : ∀ pre e post id, s.events = pre ++ e :: post → ends id e = true →
    id ∈ (timers pre).map SetTimer.id → findTimer s id = none ∧ firings id post = []
  live : ∀ t ∈ timers s.events, t.isInterval = true → ¬EndedIn t.id s.events →
    findTimer s t.id ≠ none

/-- What a step does to the map, next to what it writes into the log. -/
structure Logs (s s' : State) (e : Event) : Prop where
  events : s'.events = s.events ++ [e]
  ended : ∀ id, ends id e = true → findTimer s' id = none
  absent : ∀ id ∈ (timers s.events).map SetTimer.id, findTimer s id = none →
    findTimer s' id = none ∧ firingOf id e = none
  interval : ∀ id data, findTimer s id = some data → data.isInterval = true → ends id e = false →
    findTimer s' id ≠ none
  set : ∀ t, e = .scheduled t → findTimer s' t.id ≠ none

/-- The map stays as it is. -/
theorem Logs.frame (hevents : s'.events = s.events ++ [e])
    (hfind : s'.loop.timerMap = s.loop.timerMap) (hends : ∀ id, ends id e = false)
    (hfiring : ∀ id, firingOf id e = none) (hset : timerOf e = none) : Logs s s' e := by
  have hsame : ∀ id, findTimer s' id = findTimer s id :=
    fun id => by rw [findTimer, hfind, findTimer]
  constructor
  · exact hevents
  · intro id h
    cases (hends id).symm.trans h
  · intro id _ hnone
    exact ⟨(hsame id).trans hnone, hfiring id⟩
  · intro id data hsome _ _
    rw [hsame, hsome]
    simp
  · intro t heq
    subst heq
    cases hset

/-- What a step writes in the log. -/
theorem Does.logs (h : Does s s') (hn : Numbered s) (hcount : (timers s'.events).length < 2 ^ 31) :
    ∃ e, Logs s s' e := by
  cases h with
  | @schedule t l hphase hid hnext hkeys hfind =>
    -- the id is new, as the counter has not wrapped
    have hfresh := hn.fresh_of_schedule hid hcount
    refine ⟨.scheduled t, rfl, ?_, ?_, ?_, ?_⟩
    · intro id h
      exact nomatch h
    · intro id hmem hnone
      have hne : id ≠ t.id := fun heq => hfresh (heq ▸ hmem)
      refine ⟨?_, rfl⟩
      show l.timerMap[id]? = none
      rw [hfind, if_neg (fun hc => hne hc.1), hnone]
    · intro id data hsome _ _
      show l.timerMap[id]? ≠ none
      simp [hfind, hsome]
    · intro t' ht'
      obtain rfl := Event.scheduled.inj ht'
      show l.timerMap[t.id]? ≠ none
      rw [hfind]
      split
      · simp
      · next hc => exact fun hnone => hc ⟨rfl, hnone⟩
  | @cancel id l hphase hnext hkeys hfind =>
    refine ⟨.cancelled id, rfl, ?_, ?_, ?_, ?_⟩
    · intro id' h
      show l.timerMap[id']? = none
      rw [hfind, if_pos (of_decide_eq_true h).symm]
    · intro id' _ hnone
      refine ⟨?_, rfl⟩
      show l.timerMap[id']? = none
      rw [hfind, hnone, ite_self]
    · intro id' data hsome _ h
      show l.timerMap[id']? ≠ none
      rw [hfind, if_neg (fun heq => of_decide_eq_false h heq.symm), hsome]
      simp
    · intro t h
      exact nomatch h
  | clear hphase hnext hkeys hfind =>
    refine ⟨.cleared, rfl, ?_, ?_, ?_, ?_⟩
    · exact fun id _ => hfind id
    · exact fun id _ _ => ⟨hfind id, rfl⟩
    · exact fun id data _ _ h => nomatch h
    · exact fun t h => nomatch h
  | tick hphase | returns hphase hlate =>
    exact ⟨_, .frame rfl rfl (fun _ => rfl) (fun _ => rfl) rfl⟩
  | skip hphase htop hdue hnone hnext hkeys hfind | rearm hphase hsome hnext hkeys hfind =>
    exact ⟨_, .frame rfl hfind (fun _ => rfl) (fun _ => rfl) rfl⟩
  | @fire now key data l hphase htop hdue hsome hnext hkeys hfind =>
    refine ⟨.fired key data.callback now, rfl, ?_, ?_, ?_, ?_⟩
    · intro id h
      exact nomatch h
    · intro id _ hnone
      have hne : key.id ≠ id := fun heq => nomatch (heq ▸ hsome).symm.trans hnone
      refine ⟨?_, by simp [hne]⟩
      show l.timerMap[id]? = none
      rw [hfind, hnone, ite_self]
    · intro id data' hsome' hinterval _
      show l.timerMap[id]? ≠ none
      -- an interval stays in the map when it fires
      have hkept : ¬(id = key.id ∧ data.isInterval = false) := by
        rintro ⟨rfl, hshot⟩
        obtain rfl := Option.some.inj (hsome.symm.trans hsome')
        exact nomatch hshot.symm.trans hinterval
      rw [hfind, if_neg hkept, hsome']
      simp
    · intro t h
      exact nomatch h
  | finish hphase hnone => exact ⟨_, .frame rfl rfl (fun _ => rfl) (fun _ => rfl) rfl⟩

/-- Where an event of a log that has grown by one stands. -/
theorem snoc_eq_append_cons {es : List Event} {e' : Event} {pre post : List Event}
    (h : es ++ [e'] = pre ++ e :: post) :
    (post = [] ∧ e = e' ∧ pre = es) ∨ ∃ post', post = post' ++ [e'] ∧ es = pre ++ e :: post' := by
  induction post using List.reverseRecOn with
  | nil =>
    obtain ⟨rfl, hlast⟩ := List.append_inj' h rfl
    exact .inl ⟨rfl, (List.singleton_inj.mp hlast).symm, rfl⟩
  | append_singleton post' e'' _ =>
    rw [← List.cons_append, ← List.append_assoc] at h
    obtain ⟨hes, hlast⟩ := List.append_inj' h rfl
    exact .inr ⟨post', by rw [List.singleton_inj.mp hlast], hes⟩

theorem EndedIn.snoc {id : Int} {es : List Event} (h : EndedIn id es) (e : Event) :
    EndedIn id (es ++ [e]) := by
  obtain ⟨pre, e', post, rfl, hends, hmem⟩ := h
  exact ⟨pre, e', post ++ [e], by simp, hends, hmem⟩

/-- A timer that has ended does not fire again. -/
theorem EndsRight.logs (he : EndsRight s) (hn : Numbered s) (hs : Stored s) (h : Logs s s' e) :
    EndsRight s' := by
  constructor
  · intro pre e' post id hevents hends hmem
    rw [h.events] at hevents
    cases snoc_eq_append_cons hevents with
    | inl hlast =>
      obtain ⟨rfl, rfl, rfl⟩ := hlast
      exact ⟨h.ended id hends, rfl⟩
    | inr hbefore =>
      obtain ⟨post', rfl, heq⟩ := hbefore
      obtain ⟨hnone, hnil⟩ := he.ended pre e' post' id heq hends hmem
      have hknown : id ∈ (timers s.events).map SetTimer.id := by
        simp only [heq, timers, List.filterMap_append, List.map_append, List.mem_append]
        exact .inl hmem
      obtain ⟨hnone', hquiet⟩ := h.absent id hknown hnone
      refine ⟨hnone', ?_⟩
      rw [firings_snoc, hnil, hquiet]
      rfl
  · intro t ht hinterval hopen
    rw [h.events] at ht hopen
    rw [timers_snoc, List.mem_append, Option.mem_toList] at ht
    cases ht with
    | inl hold =>
      have hsome := he.live t hold hinterval (fun hended => hopen (hended.snoc e))
      obtain ⟨data, hdata⟩ := Option.ne_none_iff_exists'.mp hsome
      obtain ⟨t', ht', hid, rfl⟩ := hs.find t.id data hdata
      obtain rfl := hn.eq_of_id ht' hold hid
      apply h.interval t'.id _ hdata hinterval
      -- the event would have ended the timer
      rw [Bool.eq_false_iff]
      exact fun hends => hopen ⟨s.events, e, [], rfl, hends, List.mem_map_of_mem hold⟩
    | inr hnew =>
      apply h.set t
      cases e <;> simp_all

/-! ## A tick that has returned -/

/-- No key is due when a tick returns. -/
def Returned (s : State) : Prop :=
  ∀ pre now pending, s.events = pre ++ [.returned now pending] →
    s.phase = .idle ∧ ∀ key ∈ keysOf s, now < key.deadline

theorem Does.returned (h : Does s s') : Returned s' := by
  intro pre now pending hevents
  cases h with
  | returns hphase hlate =>
    obtain ⟨-, hlast⟩ := List.append_inj' hevents rfl
    obtain ⟨rfl, rfl⟩ := Event.returned.inj (List.singleton_inj.mp hlast)
    exact ⟨rfl, hlate⟩
  | _ => simp at hevents

/-! ## Runs -/

/-- All of it. -/
structure StoreInvariant (s : State) : Prop where
  numbered : Numbered s
  stored : Stored s
  onSchedule : OnSchedule s
  endsRight : EndsRight s
  returned : Returned s

theorem StoreInvariant.nodup_heapIds (hinv : StoreInvariant s) : (heapIds s).Nodup :=
  (List.nodup_append.mp hinv.stored.nodup).2.1

/-- What is called as an interval is one, so its period is positive. -/
theorem StoreInvariant.one_le_intervalMs (hinv : StoreInvariant s) {now : Int} {key : TimerKey}
    {data : TimerData} (hphase : s.phase = .calling now key true)
    (hsome : findTimer s key.id = some data) : 1 ≤ data.intervalMs := by
  obtain ⟨t, ht, hid, rfl⟩ := hinv.stored.find key.id data hsome
  have hinterval := (hinv.onSchedule.called now key true hphase t ht hid).1
  simp [dataOf, periodMs, hinterval]

/-- A firing is for the deadline that its place among the firings says. -/
theorem StoreInvariant.exists_dueAt (hinv : StoreInvariant s) (ht : t ∈ timers s.events)
    {f : Firing} (hf : f ∈ firings t.id s.events) :
    ∃ k < (firings t.id s.events).length, f.deadline = dueAt t k := by
  have hmem := List.mem_map_of_mem (f := Firing.deadline) hf
  rw [hinv.onSchedule.fired t ht] at hmem
  obtain ⟨k, hk, heq⟩ := List.mem_map.mp hmem
  exact ⟨k, List.mem_range.mp hk, heq.symm⟩

theorem storeInvariant_init : StoreInvariant {} := by
  refine ⟨⟨by decide, rfl⟩, ?_, ?_, ?_, ?_⟩
  · constructor <;> simp [findTimer, heldIds, heapIds, keysOf]
  · constructor <;> simp [timers, firings, keysOf]
  · constructor <;> simp [timers]
  · intro pre now pending hevents
    simp at hevents

theorem StoreInvariant.does (hinv : StoreInvariant s) (h : Does s s')
    (hcount : (timers s'.events).length < 2 ^ 31) : StoreInvariant s' := by
  obtain ⟨hn, hs, ho, he, -⟩ := hinv
  obtain ⟨e, hlogs⟩ := h.logs hn hcount
  exact ⟨hn.does h hcount, hs.does hn h hcount, ho.does hn hs h hcount, he.logs hn hs hlogs,
    h.returned⟩

/-- The log only grows. -/
theorem Does.length_timers_le (h : Does s s') :
    (timers s.events).length ≤ (timers s'.events).length := by
  cases h <;> simp

/-- What every step keeps as long as the log is in a bound, which it then was before. -/
theorem invariant_of_does {I : State → Prop} {B : List Event → Prop}
    (hbound : ∀ {s s' : State}, Does s s' → B s'.events → B s.events)
    (hkeep : ∀ {s s' : State}, I s → Does s s' → B s'.events → I s') (hinit : I {})
    {labels : List Label} (hrun : Run.run step {} labels = some s)
    (hexact : Run.Along step (fun _ => NoOverflow) [] {} labels) (hend : B s.events) : I s := by
  let inv (s : State) : Prop := B s.events → I s
  have hstep : ∀ s l s', inv s → NoOverflow s l → step s l = some s' → inv s' := by
    intro s l s' ih hexact hstep hend
    have h := does_of_step hexact hstep
    exact hkeep (ih (hbound h hend)) h hend
  have hempty : inv {} := fun _ => hinit
  exact Run.stateInvariant_along hstep hempty hexact hrun hend

/-- All of it, in every run whose deadlines do not overflow. -/
theorem storeInvariant_of_run {labels : List Label} (hrun : Run.run step {} labels = some s)
    (hexact : Run.Along step (fun _ => NoOverflow) [] {} labels)
    (hcount : (timers s.events).length < 2 ^ 31) : StoreInvariant s :=
  invariant_of_does (B := fun events => (timers events).length < 2 ^ 31)
    (fun h hcount => h.length_timers_le.trans_lt hcount) (fun ih h hcount => ih.does h hcount)
    storeInvariant_init hrun hexact hcount

end Ppnt.Spec
