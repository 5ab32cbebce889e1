import Ppnt.Spec.TaskOwnership

/-!
# Results of coroutines

What a coroutine returns or throws reaches the coroutine that awaits it, or the caller of
`block_on`, once and unchanged, unless its owner destroys it unread or loses it.  And `block_on`
waits for the ring only while the ring has something to resume that the root waits for.
-/

namespace Ppnt.Spec

open Ppnt.Native Run

variable {V E : Type}

/-- What `co_await` gives for a coroutine that has ended so. -/
def taskOutcome : TaskEnd V E → Except (Thrown E) V
  | .returnValue v => .ok v
  | .unhandledException e => .error (.exception e)

private theorem getValue_setEnd (ending : TaskEnd V E) :
    (({} : TaskPromise V E).setEnd ending).getValue = taskOutcome ending := by
  cases ending <;> rfl

/-- Whether a coroutine has ended, and its promise but for who awaits it. -/
def viewAt (frames : FrameId → Option (TaskFrame V E)) (f : FrameId) :
    Option (Bool × TaskPromise V E) :=
  (frames f).map fun frame => (frame.phase == .finalSuspend, { frame.promise with parent := none })

section View

variable {σ : TaskSystem V E} {f g : FrameId}

private theorem viewAt_of_frame {frame : TaskFrame V E} (hframe : σ.frames f = some frame) :
    viewAt σ.frames f =
      some (frame.phase == .finalSuspend, { frame.promise with parent := none }) := by
  simp [viewAt, hframe]

private theorem viewAt_of_phaseAt {phase : FramePhase} (hf : phaseAt σ.frames f = some phase) :
    ∃ promise, viewAt σ.frames f = some (phase == .finalSuspend, promise) := by
  obtain ⟨frame, hframe, rfl⟩ := phaseAt_eq_some.mp hf
  exact ⟨_, viewAt_of_frame hframe⟩

private theorem viewAt_setFrame (frame : Option (TaskFrame V E)) :
    viewAt (σ.setFrame f frame).frames = Function.update (viewAt σ.frames) f
      (frame.map fun frame =>
        (frame.phase == .finalSuspend, { frame.promise with parent := none })) := by
  funext g
  by_cases hgf : g = f <;> simp [viewAt, hgf, TaskSystem.setFrame]

/-- A coroutine that does not end goes on or stops. -/
private theorem viewAt_setPhase {old phase : FramePhase} (hf : phaseAt σ.frames f = some old)
    (hold : old ≠ .finalSuspend) (hphase : phase ≠ .finalSuspend) :
    viewAt (σ.setPhase f phase).frames = viewAt σ.frames := by
  obtain ⟨frame, hframe, rfl⟩ := phaseAt_eq_some.mp hf
  funext g
  by_cases hgf : g = f
  · simp [viewAt, hgf, hframe, hold, hphase]
  · simp [viewAt, hgf]

private theorem viewAt_setParent (p : FrameId) :
    viewAt (σ.setParent f p).frames = viewAt σ.frames := by
  funext g
  by_cases hgf : g = f
  · simp only [viewAt, TaskSystem.setParent, TaskSystem.modifyFrame, frames_setFrame, hgf, if_true]
    cases σ.frames f <;> rfl
  · simp [viewAt, TaskSystem.setParent, TaskSystem.modifyFrame, hgf]

end View

/-- The coroutines whose result has been received. -/
def senders (σ : TaskSystem V E) : List FrameId := σ.received.map (·.sender)

/-- What a step is for the results. -/
inductive TaskEvent (σ τ : TaskSystem V E) : Prop
  | quiet (hview : viewAt τ.frames = viewAt σ.frames) (hnext : τ.nextFrame = σ.nextFrame)
      (hended : τ.ended = σ.ended) (hreceived : τ.received = σ.received)
      (hdropped : τ.dropped = σ.dropped)
  | born (hview : viewAt τ.frames = Function.update (viewAt σ.frames) σ.nextFrame
      (some (false, {}))) (hnext : τ.nextFrame = σ.nextFrame + 1) (hended : τ.ended = σ.ended)
      (hreceived : τ.received = σ.received) (hdropped : τ.dropped = σ.dropped)
  | finished (c : FrameId) (ending : TaskEnd V E) (promise : TaskPromise V E)
      (hc : viewAt σ.frames c = some (false, promise))
      (hview : viewAt τ.frames =
        Function.update (viewAt σ.frames) c (some (true, promise.setEnd ending)))
      (hnext : τ.nextFrame = σ.nextFrame) (hended : τ.ended = σ.ended ++ [(c, ending)])
      (hreceived : τ.received = σ.received) (hdropped : τ.dropped = σ.dropped)
  /-- The coroutine ends, and goes on in the one that awaits it. -/
  | delivered (p c : FrameId) (ending : TaskEnd V E) (promise : TaskPromise V E)
      (hc : viewAt σ.frames c = some (false, promise))
      (hview : viewAt τ.frames = Function.update (viewAt σ.frames) c none)
      (hnext : τ.nextFrame = σ.nextFrame) (hended : τ.ended = σ.ended ++ [(c, ending)])
      (hreceived : τ.received = σ.received ++ [⟨some p, c, (promise.setEnd ending).getValue⟩])
      (hdropped : τ.dropped = σ.dropped)
  | received (receiver : Option FrameId) (c : FrameId) (promise : TaskPromise V E)
      (hc : viewAt σ.frames c = some (true, promise)) (hfresh : c ∉ σ.leaked)
      (hview : viewAt τ.frames = Function.update (viewAt σ.frames) c none ∨
        viewAt τ.frames = viewAt σ.frames ∧ c ∈ τ.leaked)
      (hnext : τ.nextFrame = σ.nextFrame) (hended : τ.ended = σ.ended)
      (hreceived : τ.received = σ.received ++ [⟨receiver, c, promise.getValue⟩])
      (hdropped : τ.dropped = σ.dropped)
  | dropped (c : FrameId) (view : Bool × TaskPromise V E) (hc : viewAt σ.frames c = some view)
      (hfresh : c ∉ σ.leaked) (hview : viewAt τ.frames = Function.update (viewAt σ.frames) c none)
      (hnext : τ.nextFrame = σ.nextFrame) (hended : τ.ended = σ.ended)
      (hreceived : τ.received = σ.received) (hdropped : τ.dropped = σ.dropped ++ [c])

section Event

variable {σ τ : TaskSystem V E} {l : TaskLabel V E}

private theorem leaked_of_taskStep (hstep : TaskStep σ l τ) : ∀ f ∈ σ.leaked, f ∈ τ.leaked := by
  intro f hf
  cases hstep <;> first | exact hf | exact List.mem_append_left _ hf

/-- A handle that is somewhere is not lost. -/
private theorem TaskInv.not_leaked (hinv : TaskInv σ) {f : FrameId} {q : FramePlace}
    (hq : OwnedAt σ f q) (hne : q ≠ .leaked) : f ∉ σ.leaked :=
  fun hf => hne (hinv.place.eq (q := .leaked) hq hf)

/-- What each step is for the results. -/
theorem taskEvent_of_taskStep (hinv : TaskInv σ) (hstep : TaskStep σ l τ) : TaskEvent σ τ := by
  cases hstep with
  | call hfree => exact .born (viewAt_setFrame _) rfl rfl rfl rfl
  | emptyJoinHandle hfree | moveConstruct hfree hother | assignSelf
  | assignTask hne ho hother hkind | assignEmpty hne ho hother hkind =>
    exact .quiet rfl rfl rfl rfl rfl
  | @assignEnded o _ _ f hne ho hother hkind hf | @destroy o _ f phase ho hf hphase =>
    obtain ⟨promise, hview⟩ := viewAt_of_phaseAt hf
    exact .dropped f _ hview (hinv.not_leaked (q := .owner o) (handleAt_of_owner ho) (by simp))
      (viewAt_setFrame none) rfl rfl rfl rfl
  | destroyEmpty ho => exact .quiet rfl rfl rfl rfl rfl
  | takeHandle ho | spawnEmpty ho => exact .quiet rfl rfl rfl rfl rfl
  | spawn ho | blockOn ho =>
    exact .quiet (viewAt_setPhase (hinv.task _ _ ho) (by simp) (by simp)) rfl rfl rfl rfl
  | spawnReturn hstack hfree => exact .quiet rfl rfl rfl rfl rfl
  | @blockOnValue f rest frame v hstack hframe hphase hvalue =>
    have hview := viewAt_of_frame hframe
    rw [hphase] at hview
    refine .received none f _ hview
      (hinv.not_leaked (q := .stack) (by simp [OwnedAt, hstack]) (by simp))
      (.inl (viewAt_setFrame none)) rfl rfl ?_ rfl
    rw [← hvalue]
    rfl
  | @blockOnException f rest frame e hstack hframe hphase hvalue =>
    have hview := viewAt_of_frame hframe
    rw [hphase] at hview
    refine .received none f _ hview
      (hinv.not_leaked (q := .stack) (by simp [OwnedAt, hstack]) (by simp))
      (.inr ⟨rfl, by simp⟩) rfl rfl ?_ rfl
    rw [← hvalue]
    rfl
  | @awaitEnded o c rest kind child frame hstack ho hframe hphase =>
    have hview := viewAt_of_frame hframe
    rw [hphase] at hview
    exact .received (some c) child _ hview
      (hinv.not_leaked (q := .owner o) (handleAt_of_owner ho) (by simp))
      (.inl (viewAt_setFrame none)) rfl rfl rfl rfl
  | @awaitTask o c rest child hstack ho =>
    have hinitial := hinv.task o child ho
    have hc := hinv.running_of_top hstack
    have hne : child ≠ c := by
      rintro rfl
      simp [hc] at hinitial
    refine .quiet ?_ rfl rfl rfl rfl
    refine (viewAt_setPhase (by simpa [hne] using hinitial) (by simp) (by simp)).trans ?_
    refine (viewAt_setPhase (by simpa using hc) (by simp) (by simp)).trans ?_
    exact viewAt_setParent c
  | awaitJoinHandle hstack ho hchild hphase =>
    refine .quiet ?_ rfl rfl rfl rfl
    refine (viewAt_setPhase (by simpa using hinv.running_of_top hstack) (by simp) (by simp)).trans
      ?_
    exact viewAt_setParent _
  | suspend hstack =>
    exact .quiet (viewAt_setPhase (hinv.running_of_top hstack) (by simp) (by simp)) rfl rfl rfl rfl
  | complete hstack hf =>
    exact .quiet (viewAt_setPhase ((hinv.pending _).mp hf) (by simp) (by simp)) rfl rfl rfl rfl
  | @finishRoot c rest frame ending hstack hframe hparent =>
    have hview := viewAt_of_frame hframe
    obtain ⟨_, hframe', hphase⟩ := phaseAt_eq_some.mp (hinv.running_of_top hstack)
    obtain rfl := Option.some.inj (hframe.symm.trans hframe')
    rw [hphase] at hview
    refine .finished c ending _ hview ?_ rfl rfl rfl rfl
    refine (viewAt_setFrame _).trans ?_
    cases ending <;> rfl
  | @finishAwaited c p rest frame ending hstack hframe hparent =>
    have hc := hinv.running_of_top hstack
    have hview := viewAt_of_frame hframe
    obtain ⟨_, hframe', hphase⟩ := phaseAt_eq_some.mp hc
    obtain rfl := Option.some.inj (hframe.symm.trans hframe')
    rw [hphase] at hview
    have hp : phaseAt σ.frames p = some (.awaiting c) :=
      (hinv.parent c p).mp (by simp [parentAt, hframe, hparent])
    have hne : p ≠ c := by
      rintro rfl
      simp [hc] at hp
    refine .delivered p c ending _ hview ?_ rfl rfl ?_ rfl
    · exact (viewAt_setPhase (by simpa [hne] using hp) (by simp) (by simp)).trans
        (viewAt_setFrame none)
    · cases ending <;> rfl

end Event

/-! ## Fates -/

inductive Fate where
  | unborn
  | live
  | held
  | received
  | dropped
deriving DecidableEq

/-- What has become of a coroutine.  The result of one that has ended is held in its promise until
    it is received or its owner destroys it. -/
def FateAt (σ : TaskSystem V E) (f : FrameId) : Fate → Prop
  | .unborn => σ.nextFrame ≤ f
  | .live => ∃ promise, viewAt σ.frames f = some (false, promise)
  | .held => (∃ promise, viewAt σ.frames f = some (true, promise)) ∧ f ∉ senders σ
  | .received => f ∈ senders σ
  | .dropped => f ∈ σ.dropped

/-- The frame of a coroutine, and what the logs hold of it, for each fate. -/
inductive ResultAt (σ : TaskSystem V E) (f : FrameId) : Fate → Prop
  | unborn (hnext : σ.nextFrame ≤ f) (hview : viewAt σ.frames f = none)
      (hended : f ∉ σ.ended.map Prod.fst) (hsent : f ∉ senders σ) (hkept : f ∉ σ.dropped) :
      ResultAt σ f .unborn
  | live (hborn : f < σ.nextFrame) (hview : viewAt σ.frames f = some (false, {}))
      (hended : f ∉ σ.ended.map Prod.fst) (hsent : f ∉ senders σ) (hkept : f ∉ σ.dropped) :
      ResultAt σ f .live
  | held (ending : TaskEnd V E) (hborn : f < σ.nextFrame)
      (hview : viewAt σ.frames f = some (true, ({} : TaskPromise V E).setEnd ending))
      (hended : (f, ending) ∈ σ.ended) (hsent : f ∉ senders σ) (hkept : f ∉ σ.dropped) :
      ResultAt σ f .held
  /-- Where the frame is still there, `block_on` has thrown and lost it. -/
  | received (ending : TaskEnd V E) (hborn : f < σ.nextFrame)
      (hview : viewAt σ.frames f = none ∨
        (∃ promise, viewAt σ.frames f = some (true, promise)) ∧ f ∈ σ.leaked)
      (hended : (f, ending) ∈ σ.ended) (hsent : f ∈ senders σ)
      (hresult : ∀ r ∈ σ.received, r.sender = f → r.result = taskOutcome ending)
      (hkept : f ∉ σ.dropped) : ResultAt σ f .received
  | dropped (hborn : f < σ.nextFrame) (hview : viewAt σ.frames f = none) (hsent : f ∉ senders σ)
      (hdropped : f ∈ σ.dropped) : ResultAt σ f .dropped

structure ResultInv (σ : TaskSystem V E) : Prop where
  each : ∀ f, ∃ fate, ResultAt σ f fate
  endedNodup : (σ.ended.map Prod.fst).Nodup
  sendersNodup : (senders σ).Nodup

private theorem resultInv_initial : ResultInv (TaskSystem.initial : TaskSystem V E) where
  each f := ⟨.unborn, .unborn (Nat.zero_le f) rfl List.not_mem_nil List.not_mem_nil
    List.not_mem_nil⟩
  endedNodup := List.nodup_nil
  sendersNodup := List.nodup_nil

/-- A step leaves the frame of a coroutine, and the logs hold of it what they held. -/
structure SameResultAt (f : FrameId) (σ τ : TaskSystem V E) : Prop where
  view : viewAt τ.frames f = viewAt σ.frames f
  next : τ.nextFrame ≤ f ↔ σ.nextFrame ≤ f
  ended : ∀ ending, (f, ending) ∈ τ.ended ↔ (f, ending) ∈ σ.ended
  received : ∀ r, r.sender = f → (r ∈ τ.received ↔ r ∈ σ.received)
  dropped : f ∈ τ.dropped ↔ f ∈ σ.dropped
  leaked : f ∈ σ.leaked → f ∈ τ.leaked

section Fates

variable {σ τ : TaskSystem V E} {f c : FrameId} {fate : Fate}

private theorem ResultAt.fateAt_iff (h : ResultAt σ f fate) (q : Fate) :
    FateAt σ f q ↔ q = fate := by
  cases h with
  | unborn hnext hview hended hsent hkept => cases q <;> simp [FateAt, hnext, hview, hsent, hkept]
  | live hborn hview hended hsent hkept | held ending hborn hview hended hsent hkept =>
    cases q <;> simp [FateAt, hborn, hview, hsent, hkept]
  | received ending hborn hview hended hsent hresult hkept =>
    cases q with
    | live => rcases hview with hview | ⟨⟨promise, hview⟩, -⟩ <;> simp [FateAt, hview]
    | unborn | held | received | dropped => simp [FateAt, hborn, hsent, hkept]
  | dropped hborn hview hsent hdropped => cases q <;> simp [FateAt, hborn, hview, hsent, hdropped]

private theorem ResultInv.inOnePlace (h : ResultInv σ) : InOnePlace (fun _ => True) (FateAt σ) := by
  refine ⟨fun f _ => ?_, fun _ _ _ => trivial⟩
  obtain ⟨fate, hfate⟩ := h.each f
  exact ⟨fate, (hfate.fateAt_iff fate).mpr rfl, fun q hq => (hfate.fateAt_iff q).mp hq⟩

private theorem ResultInv.receipts (h : ResultInv σ) (r : Receipt V E) (hr : r ∈ σ.received) :
    ∃ ending, (r.sender, ending) ∈ σ.ended ∧ r.result = taskOutcome ending := by
  have hsender : r.sender ∈ senders σ := List.mem_map_of_mem hr
  obtain ⟨fate, hfate⟩ := h.each r.sender
  obtain rfl := (hfate.fateAt_iff .received).mp hsender
  cases hfate with
  | received ending hborn hview hended hsent hresult hkept =>
    exact ⟨ending, hended, hresult r hr rfl⟩

/-- A coroutine that a step is not about keeps its fate. -/
theorem ResultAt.keep (h : ResultAt σ f fate) (hsame : SameResultAt f σ τ) : ResultAt τ f fate := by
  have hended_iff : f ∈ τ.ended.map Prod.fst ↔ f ∈ σ.ended.map Prod.fst := by simp [hsame.ended]
  have hsent_iff : f ∈ senders τ ↔ f ∈ senders σ := by
    simp only [senders, List.mem_map]
    exact exists_congr fun r => and_congr_left (hsame.received r)
  have hborn_iff : f < τ.nextFrame ↔ f < σ.nextFrame := by simpa using hsame.next.not
  cases h with
  | unborn hnext hview hended hsent hkept =>
    exact .unborn (hsame.next.mpr hnext) (hsame.view.trans hview) (hended_iff.not.mpr hended)
      (hsent_iff.not.mpr hsent) (hsame.dropped.not.mpr hkept)
  | live hborn hview hended hsent hkept =>
    exact .live (hborn_iff.mpr hborn) (hsame.view.trans hview) (hended_iff.not.mpr hended)
      (hsent_iff.not.mpr hsent) (hsame.dropped.not.mpr hkept)
  | held ending hborn hview hended hsent hkept =>
    exact .held ending (hborn_iff.mpr hborn) (hsame.view.trans hview)
      ((hsame.ended ending).mpr hended) (hsent_iff.not.mpr hsent) (hsame.dropped.not.mpr hkept)
  | received ending hborn hview hended hsent hresult hkept =>
    rw [← hsame.view] at hview
    exact .received ending (hborn_iff.mpr hborn) (hview.imp_right (.imp_right hsame.leaked))
      ((hsame.ended ending).mpr hended) (hsent_iff.mpr hsent)
      (fun r hr hf => hresult r ((hsame.received r hf).mp hr) hf) (hsame.dropped.not.mpr hkept)
  | dropped hborn hview hsent hdropped =>
    exact .dropped (hborn_iff.mpr hborn) (hsame.view.trans hview) (hsent_iff.not.mpr hsent)
      (hsame.dropped.mpr hdropped)

/-- A step that is about one coroutine. -/
private theorem ResultInv.of_one (h : ResultInv σ) (c : FrameId)
    (hsame : ∀ f, f ≠ c → SameResultAt f σ τ)
    (hc : ResultAt τ c fate) (hended : (τ.ended.map Prod.fst).Nodup)
    (hsenders : (senders τ).Nodup) : ResultInv τ := by
  refine ⟨fun f => ?_, hended, hsenders⟩
  by_cases hf : f = c
  · exact ⟨fate, hf ▸ hc⟩
  · exact (h.each f).imp fun _ hfate => hfate.keep (hsame f hf)

/-- A coroutine that has not ended. -/
private theorem ResultInv.live (h : ResultInv σ) {promise : TaskPromise V E}
    (hc : viewAt σ.frames c = some (false, promise)) :
    c < σ.nextFrame ∧ promise = {} ∧ c ∉ σ.ended.map Prod.fst ∧ c ∉ senders σ ∧ c ∉ σ.dropped := by
  obtain ⟨fate, hfate⟩ := h.each c
  obtain rfl := (hfate.fateAt_iff .live).mp ⟨promise, hc⟩
  cases hfate with
  | live hborn hview hended hsent hkept =>
    have hpromise : promise = {} := by simpa [hview, eq_comm] using hc
    exact ⟨hborn, hpromise, hended, hsent, hkept⟩

/-- A coroutine whose frame is there, and whose handle is not lost. -/
private theorem ResultInv.not_sender (h : ResultInv σ) {view : Bool × TaskPromise V E}
    (hc : viewAt σ.frames c = some view) (hfresh : c ∉ σ.leaked) :
    c < σ.nextFrame ∧ c ∉ senders σ ∧ c ∉ σ.dropped := by
  obtain ⟨fate, hfate⟩ := h.each c
  cases hfate with
  | unborn _ hview | dropped _ hview => simp [hc] at hview
  | live hborn _ _ hsent hkept | held _ hborn _ _ hsent hkept => exact ⟨hborn, hsent, hkept⟩
  | received _ _ hview => simp [hc, hfresh] at hview

/-- What a step adds to the logs is about `c`, and no other frame changes. -/
private theorem sameResultAt_of_ne (hleaked : ∀ f ∈ σ.leaked, f ∈ τ.leaked)
    (hview : ∀ f, f ≠ c → viewAt τ.frames f = viewAt σ.frames f)
    (hnext : ∀ f, f ≠ c → (τ.nextFrame ≤ f ↔ σ.nextFrame ≤ f))
    (hended : τ.ended = σ.ended ∨ ∃ ending, τ.ended = σ.ended ++ [(c, ending)])
    (hreceived : τ.received = σ.received ∨
      ∃ receiver result, τ.received = σ.received ++ [⟨receiver, c, result⟩])
    (hdropped : τ.dropped = σ.dropped ∨ τ.dropped = σ.dropped ++ [c]) (f : FrameId) (hf : f ≠ c) :
    SameResultAt f σ τ := by
  refine ⟨hview f hf, hnext f hf, fun ending => ?_, fun r hr => ?_, ?_, hleaked f⟩
  · rcases hended with hended | ⟨ending', hended⟩ <;> simp [hended, hf]
  · rcases hreceived with hreceived | ⟨receiver, result, hreceived⟩
    · rw [hreceived]
    · have hne : r ≠ ⟨receiver, c, result⟩ := by
        rintro rfl
        exact hf hr.symm
      simp [hreceived, hne]
  · rcases hdropped with hdropped | hdropped <;> simp [hdropped, hf]

/-- The result of a coroutine is received, which has then ended. -/
private theorem ResultInv.of_received (h : ResultInv σ) {receiver : Option FrameId}
    {ending : TaskEnd V E} (hsame : ∀ f, f ≠ c → SameResultAt f σ τ) (hborn : c < τ.nextFrame)
    (hview : viewAt τ.frames c = none ∨
      (∃ promise, viewAt τ.frames c = some (true, promise)) ∧ c ∈ τ.leaked)
    (hended : (c, ending) ∈ τ.ended) (hnodup : (τ.ended.map Prod.fst).Nodup) (hsent : c ∉ senders σ)
    (hreceived : τ.received = σ.received ++ [⟨receiver, c, taskOutcome ending⟩])
    (hkept : c ∉ τ.dropped) : ResultInv τ := by
  have hsenders : senders τ = (senders σ).concat c := by simp [senders, hreceived]
  refine h.of_one c hsame (.received ending hborn hview hended (by simp [hsenders]) ?_ hkept) hnodup
    ?_
  · intro r hr hc
    rw [hreceived, List.mem_append, List.mem_singleton] at hr
    rcases hr with hr | rfl
    · exact absurd (List.mem_map.mpr ⟨r, hr, hc⟩) hsent
    · rfl
  · rw [hsenders]
    exact h.sendersNodup.concat hsent

private theorem ResultInv.nodup_ended (h : ResultInv σ) {ending : TaskEnd V E}
    (hended : τ.ended = σ.ended ++ [(c, ending)]) (hc : c ∉ σ.ended.map Prod.fst) :
    (τ.ended.map Prod.fst).Nodup := by
  rw [hended, List.map_append, List.map_singleton, ← List.concat_eq_append]
  exact h.endedNodup.concat hc

/-- Each event moves one coroutine from one fate to another. -/
private theorem resultInv_of_event (h : ResultInv σ) (hleaked : ∀ f ∈ σ.leaked, f ∈ τ.leaked)
    (hevent : TaskEvent σ τ) : ResultInv τ := by
  cases hevent with
  | quiet hview hnext hended hreceived hdropped =>
    refine ⟨fun f => (h.each f).imp fun _ hfate => hfate.keep ?_, hended ▸ h.endedNodup, ?_⟩
    · exact ⟨by rw [hview], by rw [hnext], by simp [hended], by simp [hreceived], by rw [hdropped],
        hleaked f⟩
    · rw [senders, hreceived]
      exact h.sendersNodup
  | born hview hnext hended hreceived hdropped =>
    have hsenders : senders τ = senders σ := by rw [senders, hreceived, senders]
    obtain ⟨fate, hfate⟩ := h.each σ.nextFrame
    obtain rfl := (hfate.fateAt_iff .unborn).mp le_rfl
    cases hfate with
    | unborn _ _ hended' hsent hkept =>
      have hsame := sameResultAt_of_ne hleaked (c := σ.nextFrame) (fun f hf => by simp [hview, hf])
        (fun f hf => by rw [hnext, Nat.succ_le_iff, Nat.lt_iff_le_and_ne,
          and_iff_left (Ne.symm hf)]) (.inl hended) (.inl hreceived) (.inl hdropped)
      exact h.of_one σ.nextFrame hsame (.live (by simp [hnext]) (by simp [hview]) (hended ▸ hended')
        (hsenders ▸ hsent) (hdropped ▸ hkept)) (hended ▸ h.endedNodup) (hsenders ▸ h.sendersNodup)
  | finished c ending promise hc hview hnext hended hreceived hdropped =>
    have hsenders : senders τ = senders σ := by rw [senders, hreceived, senders]
    obtain ⟨hborn, rfl, hended', hsent, hkept⟩ := h.live hc
    have hsame := sameResultAt_of_ne hleaked (c := c) (fun f hf => by simp [hview, hf])
      (fun f hf => by rw [hnext]) (.inr ⟨ending, hended⟩) (.inl hreceived) (.inl hdropped)
    exact h.of_one c hsame (.held ending (hnext ▸ hborn) (by simp [hview]) (by simp [hended])
      (hsenders ▸ hsent) (hdropped ▸ hkept)) (h.nodup_ended hended hended')
      (hsenders ▸ h.sendersNodup)
  | delivered p c ending promise hc hview hnext hended hreceived hdropped =>
    obtain ⟨hborn, rfl, hended', hsent, hkept⟩ := h.live hc
    rw [getValue_setEnd] at hreceived
    have hsame := sameResultAt_of_ne hleaked (c := c) (fun f hf => by simp [hview, hf])
      (fun f hf => by rw [hnext]) (.inr ⟨ending, hended⟩) (.inr ⟨_, _, hreceived⟩) (.inl hdropped)
    exact h.of_received hsame (hnext ▸ hborn) (.inl (by simp [hview])) (by simp [hended])
      (h.nodup_ended hended hended') hsent hreceived (hdropped ▸ hkept)
  | received receiver c promise hc hfresh hview hnext hended hreceived hdropped =>
    obtain ⟨hborn, hsent, hkept⟩ := h.not_sender hc hfresh
    obtain ⟨fate, hfate⟩ := h.each c
    obtain rfl := (hfate.fateAt_iff .held).mp ⟨⟨promise, hc⟩, hsent⟩
    cases hfate with
    | held ending _ hheld hmem _ _ =>
      -- the result is still in the promise that the coroutine ended with
      obtain rfl : promise = ({} : TaskPromise V E).setEnd ending := by
        simpa [hc] using hheld
      rw [getValue_setEnd] at hreceived
      have hsame := sameResultAt_of_ne hleaked (c := c)
        (fun f hf => by rcases hview with hview | ⟨hview, -⟩ <;> simp [hview, hf])
        (fun f hf => by rw [hnext]) (.inl hended) (.inr ⟨_, _, hreceived⟩) (.inl hdropped)
      refine h.of_received hsame (hnext ▸ hborn) ?_ (hended ▸ hmem) (hended ▸ h.endedNodup) hsent
        hreceived (hdropped ▸ hkept)
      rcases hview with hview | ⟨hview, hlost⟩
      · exact .inl (by simp [hview])
      · exact .inr ⟨⟨_, hview ▸ hc⟩, hlost⟩
  | dropped c view hc hfresh hview hnext hended hreceived hdropped =>
    have hsenders : senders τ = senders σ := by rw [senders, hreceived, senders]
    obtain ⟨hborn, hsent, hkept⟩ := h.not_sender hc hfresh
    have hsame := sameResultAt_of_ne hleaked (c := c) (fun f hf => by simp [hview, hf])
      (fun f hf => by rw [hnext]) (.inl hended) (.inl hreceived) (.inr hdropped)
    exact h.of_one c hsame (.dropped (hnext ▸ hborn) (by simp [hview]) (hsenders ▸ hsent)
      (by simp [hdropped])) (hended ▸ h.endedNodup) (hsenders ▸ h.sendersNodup)

end Fates

private theorem resultInv_of_run {σ : TaskSystem V E} {ls : List (TaskLabel V E)}
    (hd : Along TaskSystem.step (fun _ => Disciplined) [] TaskSystem.initial ls)
    (hrun : run TaskSystem.step TaskSystem.initial ls = some σ) : ResultInv σ := by
  have hkeep : ∀ (σ : TaskSystem V E) l τ, TaskInv σ ∧ ResultInv σ → Disciplined σ l →
      σ.step l = some τ → TaskInv τ ∧ ResultInv τ := by
    rintro σ l τ ⟨hinv, h⟩ hd hstep
    have htask := taskStep_of_step hinv hd hstep
    exact ⟨taskInv_of_taskStep hinv htask,
      resultInv_of_event h (leaked_of_taskStep htask) (taskEvent_of_taskStep hinv htask)⟩
  exact (stateInvariant_along hkeep ⟨taskInv_initial, resultInv_initial⟩ hd hrun).2

/-- In every run of disciplined code, a coroutine ends at most once, its result is received at most
    once and is then what it has returned or thrown, and each coroutine that has ended holds its
    result, or it has been received, or the coroutine has been destroyed. -/
theorem results_delivered_once (ls : List (TaskLabel V E)) (σ : TaskSystem V E)
    (hd : Along TaskSystem.step (fun _ => Disciplined) [] TaskSystem.initial ls)
    (hrun : run TaskSystem.step TaskSystem.initial ls = some σ) :
    (σ.ended.map Prod.fst).Nodup ∧ (senders σ).Nodup ∧
      (∀ r ∈ σ.received, ∃ ending, (r.sender, ending) ∈ σ.ended ∧ r.result = taskOutcome ending) ∧
      InOnePlace (fun _ => True) (FateAt σ) :=
  have h := resultInv_of_run hd hrun
  ⟨h.endedNodup, h.sendersNodup, h.receipts, h.inOnePlace⟩

/-- A coroutine throws in the one that awaits it, which returns. -/
def throwAndCatch : List (TaskLabel Nat Nat) :=
  [.call 0, .blockOn 0, .call 1, .await 1, .suspend, .complete 1, .finish (.unhandledException 5),
    .finish (.returnValue 8), .blockOnReturn]

theorem results_delivered_once_throwAndCatch :
    ∃ σ, run TaskSystem.step TaskSystem.initial throwAndCatch = some σ ∧
      σ.ended = [(1, .unhandledException 5), (0, .returnValue 8)] ∧ senders σ = [1, 0] ∧
      (σ.ended.map Prod.fst).Nodup ∧ (senders σ).Nodup ∧
      (∀ r ∈ σ.received, ∃ ending, (r.sender, ending) ∈ σ.ended ∧ r.result = taskOutcome ending) ∧
      InOnePlace (fun _ => True) (FateAt σ) := by
  have hd : Along TaskSystem.step (fun _ => Disciplined) [] TaskSystem.initial throwAndCatch := by
    decide
  exact ⟨_, rfl, rfl, rfl, results_delivered_once throwAndCatch _ hd rfl⟩

/-! ## Progress -/

section Progress

variable {σ τ : TaskSystem V E} {l : TaskLabel V E}

/-- A coroutine that has not been started is still in a `Task`, or lost. -/
def StartedInv (σ : TaskSystem V E) : Prop :=
  ∀ f, phaseAt σ.frames f = some .initialSuspend →
    f ∈ σ.leaked ∨ ∃ o, σ.owners o = some ⟨.task, some f⟩

private theorem initialSuspend_of_setPhase {f g : FrameId} {phase : FramePhase}
    (hphase : phase ≠ .initialSuspend)
    (hf : phaseAt (σ.setPhase g phase).frames f = some .initialSuspend) :
    phaseAt σ.frames f = some .initialSuspend := by
  by_cases hfg : f = g
  · simp [hfg, hphase] at hf
  · simpa [hfg] using hf

private theorem initialSuspend_of_setFrame {f g : FrameId} {frame : Option (TaskFrame V E)}
    (hframe : frame.map (·.phase) ≠ some .initialSuspend)
    (hf : phaseAt (σ.setFrame g frame).frames f = some .initialSuspend) :
    phaseAt σ.frames f = some .initialSuspend := by
  by_cases hfg : f = g
  · simp [hfg, hframe] at hf
  · simpa [hfg] using hf

/-- Only a call makes a coroutine that has not been started. -/
private theorem initialSuspend_of_taskStep (hstep : TaskStep σ l τ) (hcall : ∀ o, l ≠ .call o)
    {f : FrameId} (hf : phaseAt τ.frames f = some .initialSuspend) :
    phaseAt σ.frames f = some .initialSuspend := by
  cases hstep with
  | call => exact absurd rfl (hcall _)
  | emptyJoinHandle | moveConstruct | assignSelf | assignTask | assignEmpty | destroyEmpty
  | takeHandle
  | spawnEmpty | spawnReturn | blockOnException => exact hf
  -- a frame is destroyed, or its coroutine ends
  | assignEnded | destroy | blockOnValue | awaitEnded | finishRoot =>
    exact initialSuspend_of_setFrame (by simp) hf
  -- a coroutine is started, resumed or suspended
  | spawn | blockOn | suspend | complete => exact initialSuspend_of_setPhase (by simp) hf
  | awaitTask =>
    simpa using initialSuspend_of_setPhase (by simp) (initialSuspend_of_setPhase (by simp) hf)
  | awaitJoinHandle => simpa using initialSuspend_of_setPhase (by simp) hf
  | finishAwaited =>
    exact initialSuspend_of_setFrame (by simp) (initialSuspend_of_setPhase (by simp) hf)

/-- A task is where it was, or has been moved. -/
private theorem task_of_move {o other o' : OwnerId} {owner : TaskOwner} {f : FrameId}
    (hother : σ.owners other = some owner) (ho' : σ.owners o' = some ⟨.task, some f⟩)
    (hne : o' ≠ o) :
    ∃ o'', ((σ.takeFrom other owner).setOwner o (some owner)).owners o'' =
      some ⟨.task, some f⟩ := by
  by_cases hto : o' = other
  · exact ⟨o, by simpa [hto, hother] using ho'⟩
  · exact ⟨o', by simpa [hne, hto] using ho'⟩

/-- The `Task` of a coroutine that is not started by a step keeps it, or has lost it. -/
private theorem task_of_taskStep (hstep : TaskStep σ l τ) {o' : OwnerId} {f : FrameId}
    (ho' : σ.owners o' = some ⟨.task, some f⟩) (hf : phaseAt τ.frames f = some .initialSuspend) :
    f ∈ τ.leaked ∨ ∃ o, τ.owners o = some ⟨.task, some f⟩ := by
  cases hstep with
  | assignSelf | blockOnValue | blockOnException | suspend | complete | finishRoot
  | finishAwaited =>
    exact .inr ⟨o', ho'⟩
  | @call o hfree | @emptyJoinHandle o hfree | @spawnReturn o handle rest hstack hfree =>
    have hne : o' ≠ o := by
      rintro rfl
      simp [hfree] at ho'
    exact .inr ⟨o', by simpa [hne] using ho'⟩
  | @moveConstruct o other owner hfree hother =>
    refine .inr (task_of_move hother ho' ?_)
    rintro rfl
    simp [hfree] at ho'
  | @assignTask o other owner old hne ho hother hkind =>
    by_cases hoo : o' = o
    · have hold : old = some f := by simpa [hoo, ho] using ho'
      exact .inl (by simp [hold])
    · exact .inr (task_of_move hother ho' hoo)
  | @assignEmpty o other owner hne ho hother hkind
  | @assignEnded o other owner g hne ho hother hkind hg =>
    refine .inr (task_of_move hother ho' ?_)
    rintro rfl
    simp [ho] at ho'
  -- here `o` is not the task, or the coroutine is no longer before its start
  | @destroyEmpty o kind ho | @destroy o kind g phase ho hg hphase | @takeHandle o handle ho
  | @spawnEmpty o ho | @spawn o g ho | @blockOn o g ho
  | @awaitEnded o c rest kind child frame hstack ho hframe hphase
  | @awaitTask o c rest child hstack ho
  | @awaitJoinHandle o c rest child phase hstack ho hchild hphase =>
    have hne : o' ≠ o := by
      rintro rfl
      rw [ho] at ho'
      simp_all
    exact .inr ⟨o', by simpa [hne] using ho'⟩

theorem startedInv_of_taskStep (h : StartedInv σ) (hstep : TaskStep σ l τ) : StartedInv τ := by
  intro f hf
  by_cases hcall : ∃ o, l = .call o
  · -- the new coroutine is in the `Task` that the call returns
    obtain ⟨o, rfl⟩ := hcall
    cases hstep with
    | call hfree =>
      by_cases hnew : f = σ.nextFrame
      · exact .inr ⟨o, by simp [hnew]⟩
      · rcases h f (by simpa [hnew] using hf) with hmem | ⟨o', ho'⟩
        · exact .inl hmem
        · exact task_of_taskStep (.call hfree) ho' hf
  · rcases h f (initialSuspend_of_taskStep hstep (fun o hl => hcall ⟨o, hl⟩) hf) with hmem | ⟨o, ho⟩
    · exact .inl (leaked_of_taskStep hstep f hmem)
    · exact task_of_taskStep hstep ho hf

/-- A coroutine that has been started and has not ended. -/
def Underway (σ : TaskSystem V E) (f : FrameId) : Prop :=
  ∃ phase, phaseAt σ.frames f = some phase ∧ phase ≠ .initialSuspend ∧ phase ≠ .finalSuspend

private theorem underway_of_place (hinv : TaskInv σ) (h : StartedInv σ) {f : FrameId}
    {q : FramePlace}
    (hq : OwnedAt σ f q) (hgone : q ≠ .gone) (howner : ∀ o, q ≠ .owner o) (hleaked : q ≠ .leaked)
    (hfinal : phaseAt σ.frames f ≠ some .finalSuspend) : Underway σ f := by
  cases hf : phaseAt σ.frames f with
  | none => exact absurd (hinv.place.eq (q := .gone) hq hf) hgone
  | some phase =>
    refine ⟨phase, hf, ?_, fun hphase => hfinal (hphase ▸ hf)⟩
    rintro rfl
    rcases h f hf with hmem | ⟨o, ho⟩
    · exact hleaked (hinv.place.eq (q := .leaked) hq hmem)
    · exact howner o (hinv.place.eq (q := .owner o) hq (handleAt_of_owner ho))

private theorem underway_of_awaitedTask (hinv : TaskInv σ) (h : StartedInv σ) {p c : FrameId}
    (hpc : awaitedTask σ p = some c) : Underway σ c := by
  have hp := awaitedTask_eq_some.mp hpc
  refine underway_of_place hinv h (q := .awaiter p) hp (by simp) (by simp) (by simp) fun hc => ?_
  have hparent := (hinv.parent c p).mpr hp
  simp [hinv.final c hc] at hparent

private theorem underway_of_reaches (hinv : TaskInv σ) (h : StartedInv σ) {root f : FrameId}
    (hroot : Underway σ root) (hreach : Chain.Reaches (awaitedTask σ) root f) : Underway σ f := by
  rcases hreach.cases_tail with rfl | ⟨p, -, hp⟩
  · exact hroot
  · exact underway_of_awaitedTask hinv h hp

private theorem Underway.lt_nextFrame (hinv : TaskInv σ) {f : FrameId} (hf : Underway σ f) :
    f < σ.nextFrame := by
  obtain ⟨phase, hphase, -⟩ := hf
  refine Nat.lt_of_not_le fun hle => ?_
  simp [hinv.fresh f hle] at hphase

/-- The chain of awaits from a root that has not ended leads to a coroutine that waits for the
    ring. -/
theorem TaskInv.pending_of_blockOn (hinv : TaskInv σ) (hstarted : StartedInv σ) {root : FrameId}
    (hstack : σ.stack = [.blockOn root]) (hroot : phaseAt σ.frames root ≠ some .finalSuspend) :
    ∃ f ∈ σ.pending, Chain.Reaches (awaitedTask σ) root f := by
  have hplace : OwnedAt σ root .stack := by simp [OwnedAt, hstack]
  have hunderway := underway_of_place hinv hstarted hplace (by simp) (by simp) (by simp) hroot
  obtain ⟨f, hreach, -, hend⟩ := Chain.exists_end (fun _ _ _ => hinv.awaitedTask_inj)
    (Finset.range σ.nextFrame)
    (fun p _ c hc =>
      Finset.mem_range.mpr ((underway_of_awaitedTask hinv hstarted hc).lt_nextFrame hinv))
    (Finset.mem_range.mpr (hunderway.lt_nextFrame hinv))
    (fun p _ hp => hinv.not_awaited hplace (by simp) p (awaitedTask_eq_some.mp hp))
  obtain ⟨phase, hf, hinitial, hfinal⟩ := underway_of_reaches hinv hstarted hunderway hreach
  refine ⟨f, (hinv.pending f).mpr ?_, hreach⟩
  cases phase with
  | suspended => exact hf
  | initialSuspend => exact absurd rfl hinitial
  | finalSuspend => exact absurd rfl hfinal
  | running =>
    -- nothing runs but `block_on`
    have hmem := (hinv.running f).mpr hf
    simp [hstack] at hmem
  | awaiting c => simp [awaitedTask_eq_some.mpr hf] at hend

end Progress

end Ppnt.Spec
