import Ppnt.Native.RunInPool
import Ppnt.Spec.PostWakeup

/-!
# Results of the thread pool

A coroutine that awaits `run_in_pool` is resumed once for each call, behind the end of its function,
and gets what that function has returned or thrown.
-/

namespace Ppnt.Spec

open Ppnt.Native Run

variable {V : Type}

/-- What `co_await run_in_pool(…)` gives. -/
def poolResult : FuncEnd V → Except Error V
  | .value v => .ok v
  | .exception (.std what) => makeErrResult .interrupted what
  | .exception .other => makeErrResult .interrupted "run_in_pool unknown err"

private theorem awaitResume_store (ending : FuncEnd V) :
    (({} : RunInPoolAwaiter V).store ending).awaitResume = some (poolResult ending) := by
  cases ending with
  | value v => rfl
  | exception e => cases e <;> rfl

/-- The entries of a log about a coroutine. -/
def about {α : Type} (h : Handle) (log : List (Handle × α)) : List α :=
  log.filterMap fun entry => if entry.1 = h then some entry.2 else none

private theorem about_append {α : Type} (h : Handle) (log : List (Handle × α)) (x : Handle)
    (a : α) : about h (log ++ [(x, a)]) = about h log ++ if x = h then [a] else [] := by
  by_cases hx : x = h <;> simp [about, hx]

/-- A coroutine that is suspended, with what its awaiter holds and which of its results are to
    come. -/
structure JobInv (σ : PoolState V) (h : Handle) : Prop where
  done : σ.jobs h ≠ none → σ.post.done h = false
  turns : σ.jobs h ≠ none → σ.post.turns.count (some h) = if σ.jobs h = some .posted then 1 else 0
  fresh : σ.jobs h = some .queued ∨ σ.jobs h = some .running → σ.awaiters h = {}
  idle : σ.jobs h ≠ some .stored → σ.jobs h ≠ some .posted →
    about h σ.received = (about h σ.ended).map fun ending => some (poolResult ending)
  ended : σ.jobs h = some .stored ∨ σ.jobs h = some .posted →
    ∃ before ending, about h σ.ended = before ++ [ending] ∧
    σ.awaiters h = ({} : RunInPoolAwaiter V).store ending ∧
      about h σ.received = before.map fun ending => some (poolResult ending)

/-- Where the handle of a suspended coroutine is, and what its awaiter holds. -/
structure PoolInv (σ : PoolState V) : Prop where
  wake : WakeInv σ.post
  job : ∀ h, JobInv σ h

private theorem poolInv_initial : PoolInv (PoolState.initial : PoolState V) where
  wake := wakeInv_initial
  job h := by
    constructor <;> simp [PoolState.initial, about]

section Step

variable {σ τ : PoolState V} {h x : Handle}

/-- Another coroutine's job changes. -/
theorem JobInv.congr (hjob : JobInv σ h) (hjobs : τ.jobs h = σ.jobs h)
    (hawaiter : τ.awaiters h = σ.awaiters h)
    (hdone : σ.jobs h ≠ none → τ.post.done h = σ.post.done h)
    (hturns : σ.jobs h ≠ none → τ.post.turns.count (some h) = σ.post.turns.count (some h))
    (hended : about h τ.ended = about h σ.ended)
    (hreceived : about h τ.received = about h σ.received) : JobInv τ h := by
  constructor
  case done => rw [hjobs]; exact fun hne => (hdone hne).trans (hjob.done hne)
  case turns => rw [hjobs]; exact fun hne => (hturns hne).trans (hjob.turns hne)
  case fresh => rw [hjobs, hawaiter]; exact hjob.fresh
  case idle => rw [hjobs, hended, hreceived]; exact hjob.idle
  case ended => rw [hjobs, hawaiter, hended, hreceived]; exact hjob.ended

/-- `post` of a handle. -/
theorem push_spec {post post' : PostState} {t : ThreadId} {h : Option Handle}
    (hstep : post.step (.push t h) = some post') :
    post'.turns = post.turns ++ [h] ∧ post'.done = post.done := by
  obtain ⟨-, ⟨⟩⟩ := Option.ite_none_right_eq_some.mp hstep
  refine ⟨?_, rfl⟩
  unfold PostState.turns
  cases post.phase <;> simp

/-- The steps of the ring that neither post nor resume a handle. -/
theorem turns_of_quiet {post post' : PostState} {l : PostLabel} (hpush : ∀ t h, l ≠ .push t h)
    (hresume : ∀ finishes, l ≠ .resume finishes) (hstep : post.step l = some post') :
    post'.turns = post.turns := by
  cases l with
  | push t h => exact absurd rfl (hpush t h)
  | resume finishes => exact absurd rfl (hresume finishes)
  | exchange | write | submit | readComplete | readFail =>
    obtain ⟨-, ⟨⟩⟩ := Option.ite_none_right_eq_some.mp hstep
    rfl
  | cqe =>
    obtain ⟨⟨hphase, -⟩, ⟨⟩⟩ := Option.ite_none_right_eq_some.mp hstep
    simp [PostState.turns, hphase]
  | store | swap | arm =>
    obtain ⟨hphase, ⟨⟩⟩ := Option.ite_none_right_eq_some.mp hstep
    simp [PostState.turns, hphase]
  | finish h =>
    obtain rfl := Option.some.inj hstep
    rfl

/-- A turn. -/
private theorem resume_spec {post post' : PostState} {finishes : Bool}
    (hstep : post.step (.resume finishes) = some post') :
    ∃ turn tasks, post.phase = .resuming (turn :: tasks) ∧ post.turns = turn :: post'.turns ∧
      ∀ h, turn ≠ some h → post'.done h = post.done h := by
  obtain ⟨turn, tasks, hphase, rfl⟩ := postStep_resume hstep
  refine ⟨turn, tasks, hphase, ?_, fun h hne => ?_⟩
  · simp [PostState.turns, hphase]
  · cases turn with
    | none => rfl
    | some y =>
      have hy : h ≠ y := fun heq => hne (heq ▸ rfl)
      simp only [PostState.resume]
      split
      · rfl
      · simp [hy]

/-- What the ring does leaves a suspended coroutine alone that it does not resume. -/
private theorem ring_keeps {l : PostLabel} {post : PostState} (hjob : JobInv σ h)
    (hh : σ.jobs h ≠ none)
    (helse : σ.elsewhere l = true) (hstep : σ.post.step l = some post)
    (hres : σ.resumes l ≠ some h) :
    post.done h = σ.post.done h ∧ post.turns.count (some h) = σ.post.turns.count (some h) := by
  cases l with
  | push t turn =>
    obtain ⟨hturns, hdone⟩ := push_spec hstep
    -- only its own thread of the pool posts `h`
    have hne : turn ≠ some h := by
      rintro rfl
      exact hh (by simpa [PoolState.elsewhere] using helse)
    simp [hturns, hdone, hne]
  | resume finishes =>
    obtain ⟨turn, tasks, hphase, hturns, hdone⟩ := resume_spec hstep
    have hne : turn ≠ some h := by
      rintro rfl
      refine hres ?_
      simp [PoolState.resumes, hphase, hjob.done hh, Option.isSome_iff_ne_none.mpr hh]
    exact ⟨hdone h hne, by simp [hturns, hne]⟩
  | finish y =>
    have hy : h ≠ y := by
      rintro rfl
      exact hh (by simpa [PoolState.elsewhere] using helse)
    refine ⟨?_, by rw [turns_of_quiet (by simp) (by simp) hstep]⟩
    obtain rfl := Option.some.inj hstep
    simp [hy]
  | exchange | write | submit | readComplete | readFail | cqe | store | swap | arm =>
    refine ⟨?_, by rw [turns_of_quiet (by simp) (by simp) hstep]⟩
    obtain ⟨-, ⟨⟩⟩ := Option.ite_none_right_eq_some.mp hstep
    rfl

/-- Only a coroutine whose handle has been posted is resumed. -/
private theorem posted_of_resumes {l : PostLabel} (hjob : JobInv σ h)
    (hres : σ.resumes l = some h) : σ.jobs h = some .posted := by
  cases l with
  | resume finishes =>
    simp only [PoolState.resumes] at hres
    split at hres
    case h_2 => cases hres
    case h_1 y tasks hphase =>
      obtain ⟨⟨-, hsome⟩, ⟨⟩⟩ := Option.ite_none_right_eq_some.mp hres
      have hcount := hjob.turns (Option.isSome_iff_ne_none.mp hsome)
      by_contra hne
      simp [PostState.turns, hphase, hne] at hcount
  | _ => cases hres

/-- Each step keeps the invariant of each job. -/
private theorem jobInv_step {l : PoolLabel V} (hinv : PoolInv σ) (hstep : σ.step l = some τ)
    (x : Handle) : JobInv τ x := by
  -- each step is about one coroutine `h`, and leaves the job of every other as it is
  have hjob := hinv.job x
  cases l with
  | suspend h =>
    obtain ⟨⟨hnone, hdone, hturn⟩, ⟨⟩⟩ := Option.ite_none_right_eq_some.mp hstep
    by_cases hx : x = h
    · subst hx
      have hidle := hjob.idle (by simp [hnone]) (by simp [hnone])
      constructor <;> simp_all [PoolState.setJob, List.count_eq_zero]
    · exact hjob.congr (by simp [PoolState.setJob, hx]) (by simp [hx]) (fun _ => rfl)
        (fun _ => rfl) rfl rfl
  | start h =>
    obtain ⟨hqueued, ⟨⟩⟩ := Option.ite_none_right_eq_some.mp hstep
    by_cases hx : x = h
    · subst hx
      have hidle := hjob.idle (by simp [hqueued]) (by simp [hqueued])
      have hturns := hjob.turns (by simp [hqueued])
      have hdone := hjob.done (by simp [hqueued])
      have hawaiter := hjob.fresh (.inl hqueued)
      constructor <;> simp_all [PoolState.setJob]
    · exact hjob.congr (by simp [PoolState.setJob, hx]) rfl (fun _ => rfl) (fun _ => rfl) rfl rfl
  | funcEnd h ending =>
    obtain ⟨hrunning, ⟨⟩⟩ := Option.ite_none_right_eq_some.mp hstep
    by_cases hx : x = h
    · subst hx
      have hidle := hjob.idle (by simp [hrunning]) (by simp [hrunning])
      have hturns := hjob.turns (by simp [hrunning])
      have hdone := hjob.done (by simp [hrunning])
      have hawaiter := hjob.fresh (.inr hrunning)
      constructor
      case ended =>
        intro _
        exact ⟨about x σ.ended, ending, by simp [about_append],
          by simp [hawaiter], hidle⟩
      all_goals simp_all [PoolState.setJob]
    · exact hjob.congr (by simp [PoolState.setJob, hx]) (by simp [hx]) (fun _ => rfl) (fun _ => rfl)
        (by simp [about_append, Ne.symm hx]) rfl
  | push t h =>
    obtain ⟨hstored, hstep⟩ := Option.ite_none_right_eq_some.mp hstep
    obtain ⟨post, hpost, rfl⟩ := Option.map_eq_some_iff.mp hstep
    obtain ⟨hturns', hdone'⟩ := push_spec hpost
    by_cases hx : x = h
    · subst hx
      have hended := hjob.ended (.inl hstored)
      have hturns := hjob.turns (by simp [hstored])
      have hdone := hjob.done (by simp [hstored])
      constructor
      case ended => exact fun _ => hended
      all_goals simp_all [PoolState.setJob]
    · refine hjob.congr (by simp [PoolState.setJob, hx]) rfl (fun _ => by simp [hdone'])
        (fun _ => ?_) rfl rfl
      simp [hturns', Ne.symm hx]
  | ring l =>
    obtain ⟨helse, hstep⟩ := Option.ite_none_right_eq_some.mp hstep
    obtain ⟨post, hpost, rfl⟩ := Option.map_eq_some_iff.mp hstep
    cases hres : σ.resumes l with
    | none =>
      have hkeep := fun hne => ring_keeps hjob hne helse hpost (by simp [hres])
      exact hjob.congr rfl rfl (fun hne => (hkeep hne).1) (fun hne => (hkeep hne).2) rfl rfl
    | some h =>
      by_cases hx : x = h
      · subst hx
        have hposted := posted_of_resumes hjob hres
        -- the awaiter holds how the function has ended, and the coroutine takes it
        obtain ⟨before, ending, hended, hawaiter, hreceived⟩ := hjob.ended (.inr hposted)
        constructor
        case idle =>
          intro _ _
          simp [PoolState.setJob, about_append, hreceived, hended, hawaiter, awaitResume_store]
        all_goals simp [PoolState.setJob]
      · have hkeep := fun hne => ring_keeps hjob hne helse hpost (by simp [hres, Ne.symm hx])
        exact hjob.congr (by simp [PoolState.setJob, hx]) rfl (fun hne => (hkeep hne).1)
          (fun hne => (hkeep hne).2) rfl (by simp [about_append, Ne.symm hx])

/-- The ring makes one of its own steps, or none. -/
private theorem post_of_step {l : PoolLabel V} (hstep : σ.step l = some τ) :
    τ.post = σ.post ∨ ∃ l', σ.post.step l' = some τ.post := by
  cases l with
  | suspend h | start h | funcEnd h ending =>
    obtain ⟨-, ⟨⟩⟩ := Option.ite_none_right_eq_some.mp hstep
    exact .inl rfl
  | push t h =>
    obtain ⟨-, hstep⟩ := Option.ite_none_right_eq_some.mp hstep
    obtain ⟨post, hpost, rfl⟩ := Option.map_eq_some_iff.mp hstep
    exact .inr ⟨_, hpost⟩
  | ring l =>
    obtain ⟨-, hstep⟩ := Option.ite_none_right_eq_some.mp hstep
    obtain ⟨post, hpost, rfl⟩ := Option.map_eq_some_iff.mp hstep
    refine .inr ⟨l, hpost.trans ?_⟩
    cases σ.resumes l <;> rfl

private theorem poolInv_step (σ : PoolState V) (l : PoolLabel V) (τ : PoolState V)
    (hinv : PoolInv σ) (hstep : σ.step l = some τ) : PoolInv τ := by
  refine ⟨?_, jobInv_step hinv hstep⟩
  rcases post_of_step hstep with hpost | ⟨l', hpost⟩
  · rw [hpost]
    exact hinv.wake
  · exact wakeInv_step σ.post l' τ.post hinv.wake hpost

end Step

/-- The turns of a ring that has nothing to do. -/
private theorem turns_eq_nil {σ : PostState} (hswapped : swapped σ.phase = [])
    (htasks : σ.externalTasks = []) : σ.turns = [] := by
  unfold PostState.turns
  cases hphase : σ.phase <;> simp_all [swapped]

/-- In every run, what a coroutine has got from its calls of `run_in_pool` is what their functions
    have returned or thrown, in order, but for the last one while it is still suspended in it; and
    when no thread of the pool and no step of the ring has anything to do, no coroutine is suspended
    in `run_in_pool`. -/
theorem pool_results_delivered (ls : List (PoolLabel V)) (σ : PoolState V)
    (hrun : run PoolState.step .initial ls = some σ) :
    (∀ h, ∃ pending, about h σ.received ++ pending =
        (about h σ.ended).map (fun ending => some (poolResult ending)) ∧
      pending.length = if σ.jobs h = some .stored ∨ σ.jobs h = some .posted then 1 else 0) ∧
    ((∀ h, σ.jobs h = none ∨ σ.jobs h = some .posted) →
      (∀ l, isDue l = true → σ.post.step l = none) → ∀ h, σ.jobs h = none) := by
  have hinv := stateInvariant_of_run poolInv_step poolInv_initial hrun
  refine ⟨fun h => ?_, fun hpool hring h => ?_⟩
  · have hjob := hinv.job h
    by_cases hwait : σ.jobs h = some .stored ∨ σ.jobs h = some .posted
    · obtain ⟨before, ending, hended, -, hreceived⟩ := hjob.ended hwait
      exact ⟨[some (poolResult ending)], by simp [hended, hreceived], by simp [hwait]⟩
    · have hidle := hjob.idle (fun hs => hwait (.inl hs)) (fun hp => hwait (.inr hp))
      exact ⟨[], by simp [hidle], by simp [hwait]⟩
  · refine (hpool h).resolve_right fun hposted => ?_
    obtain ⟨hswapped, htasks⟩ := hinv.wake.nothing_waits hring
    have hcount := (hinv.job h).turns (by simp [hposted])
    simp [turns_eq_nil hswapped htasks, hposted] at hcount

/-- Two coroutines in the pool; the second one's function throws, and is done first. -/
def twoJobs : List (PoolLabel Nat) :=
  [.suspend 1, .suspend 2, .start 1, .start 2, .funcEnd 2 (.exception (.std "boom")), .push 7 2,
    .funcEnd 1 (.value 5), .ring (.exchange 7), .ring (.write 7), .push 8 1, .ring .submit,
    .ring .readComplete, .ring .cqe, .ring .store, .ring .swap, .ring (.resume false),
    .ring (.resume true)]

theorem pool_results_delivered_twoJobs :
    ∃ σ, run PoolState.step .initial twoJobs = some σ ∧
      σ.received = [(2, some (makeErrResult .interrupted "boom")), (1, some (.ok 5))] ∧
      ∀ h, ∃ pending, about h σ.received ++ pending =
          (about h σ.ended).map (fun ending => some (poolResult ending)) ∧
        pending.length = if σ.jobs h = some .stored ∨ σ.jobs h = some .posted then 1 else 0 := by
  exact ⟨_, rfl, rfl, (pool_results_delivered twoJobs _ rfl).1⟩

end Ppnt.Spec
