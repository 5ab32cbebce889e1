import Ppnt.Spec.Http2Events

/-!
# Streams do not interfere

nghttp2 reports the frames of all streams of a session to the same four callbacks.  What they do to
a stream, and which of its wakers they invoke, is determined by the callbacks for that stream.
-/

namespace Ppnt.Spec

open Ppnt.Native Http2Session

def Invocation.stream : Invocation → StreamId
  | .headerWaker s _ | .bodyWaker s _ _ => s

/-! ## One callback -/

/-- The session has the same entry and the same context for a stream. -/
structure AgreeAt (s : StreamId) (σ τ : Http2Session) : Prop where
  streams : τ.streams s = σ.streams s
  contexts : τ.contexts s = σ.contexts s

variable {cb : StreamCallback} {i : Invocation}

section Callback

variable {σ τ : Http2Session} {s : StreamId}

/-- A callback for an unregistered stream does nothing. -/
private theorem onCallback_unregistered (h : σ.streams cb.stream = false) :
    σ.onCallback cb = (σ, []) := by
  cases cb <;> simp_all [StreamCallback.stream, onCallback, Http2Session.onStreamClose,
    Http2Session.onFrameRecv]

private theorem mem_invokedHeader {success : Bool} :
    i ∈ σ.invokedHeader s success ↔
      (σ.contexts s).headerWaker = true ∧ i = .headerWaker s success := by
  unfold invokedHeader
  split <;> simp_all

private theorem mem_invokedBody :
    i ∈ σ.invokedBody s ↔
      ∃ c, (σ.contexts s).bodyWaker = some c ∧ i = .bodyWaker s c (σ.contexts s).bodyBuffer := by
  unfold invokedBody
  split <;> simp_all

/-- What a callback invokes. -/
private theorem mem_invoked (h : i ∈ (σ.onCallback cb).2) :
    σ.streams cb.stream = true ∧
      match cb with
      | .onHeader .. | .onDataChunkRecv .. => False
      | .onStreamClose s _ => i ∈ σ.invokedHeader s false ∨ i ∈ σ.invokedBody s
      | .onFrameRecv s isHeaders cat =>
        isHeaders = true ∧ cat = .response ∧ i ∈ σ.invokedHeader s true := by
  cases cb with
  | onHeader | onDataChunkRecv => simp [onCallback] at h
  | onStreamClose s errorCode =>
    simp only [onCallback] at h
    split at h
    · exact ⟨‹_›, List.mem_append.mp h⟩
    · simp at h
  | onFrameRecv s isHeaders cat =>
    simp only [onCallback] at h
    split at h <;> simp_all [StreamCallback.stream]

/-- A callback invokes wakers of its stream only. -/
private theorem stream_of_invoked (h : i ∈ (σ.onCallback cb).2) :
    Invocation.stream i = cb.stream := by
  obtain ⟨_, hi⟩ := mem_invoked h
  cases cb with
  | onHeader | onDataChunkRecv => exact hi.elim
  | onStreamClose s errorCode =>
    rcases hi with hi | hi
    · rw [(mem_invokedHeader.mp hi).2]
      rfl
    · obtain ⟨c, _, rfl⟩ := mem_invokedBody.mp hi
      rfl
  | onFrameRecv s isHeaders cat =>
    rw [(mem_invokedHeader.mp hi.2.2).2]
    rfl

/-- A callback for another stream leaves a stream alone. -/
private theorem agreeAt_onCallback_of_ne (hne : cb.stream ≠ s) :
    AgreeAt s σ (σ.onCallback cb).1 := by
  have hne := Ne.symm hne
  cases cb with
  | onHeader s' isHeaders name value | onDataChunkRecv s' data =>
    simp only [onCallback]
    split <;> constructor <;> simp_all [StreamCallback.stream]
  | onStreamClose s' errorCode =>
    simp only [onCallback, Http2Session.onStreamClose]
    split <;> constructor <;> simp_all [StreamCallback.stream]
  | onFrameRecv s' isHeaders cat =>
    simp only [onCallback, Http2Session.onFrameRecv]
    split <;> [split; skip] <;> constructor <;> simp_all [StreamCallback.stream]

/-- A callback does the same to a stream in every session that agrees at the stream. -/
private theorem agreeAt_onCallback (h : AgreeAt cb.stream σ τ) :
    AgreeAt cb.stream (σ.onCallback cb).1 (τ.onCallback cb).1 ∧
      (τ.onCallback cb).2 = (σ.onCallback cb).2 := by
  obtain ⟨hstreams, hcontexts⟩ := h
  cases cb with
  | onHeader s' isHeaders name value | onDataChunkRecv s' data =>
    simp only [StreamCallback.stream] at hstreams hcontexts
    simp only [onCallback, hstreams, hcontexts]
    refine ⟨?_, trivial⟩
    split <;> constructor <;> simp [StreamCallback.stream, hstreams, hcontexts]
  | onStreamClose s' errorCode =>
    simp only [StreamCallback.stream] at hstreams hcontexts
    simp only [onCallback, Http2Session.onStreamClose, invokedHeader, invokedBody, hstreams,
      hcontexts]
    refine ⟨?_, trivial⟩
    split <;> constructor <;> simp [StreamCallback.stream, hstreams, hcontexts]
  | onFrameRecv s' isHeaders cat =>
    simp only [StreamCallback.stream] at hstreams hcontexts
    simp only [onCallback, Http2Session.onFrameRecv, invokedHeader, hstreams, hcontexts]
    refine ⟨?_, trivial⟩
    split <;> [split; skip] <;> constructor <;> simp [StreamCallback.stream, hstreams, hcontexts]

end Callback

/-! ## Sequences of callbacks -/

/-- The projection law. -/
private theorem agreeAt_runCallbacks {s : StreamId} {σ τ : Http2Session} (h : AgreeAt s σ τ)
    (cbs : List StreamCallback) :
    AgreeAt s (σ.runCallbacks cbs).1
        (τ.runCallbacks (cbs.filter fun cb => cb.stream = s)).1 ∧
      (σ.runCallbacks cbs).2.filter (fun i => Invocation.stream i = s) =
        (τ.runCallbacks (cbs.filter fun cb => cb.stream = s)).2 := by
  induction cbs generalizing σ τ with
  | nil => exact ⟨h, rfl⟩
  | cons cb cbs ih =>
    by_cases hs : cb.stream = s
    · subst hs
      obtain ⟨hagree, hinvoked⟩ := agreeAt_onCallback h
      obtain ⟨hrest, hfilter⟩ := ih hagree
      rw [List.filter_cons_of_pos (by simp)]
      refine ⟨hrest, ?_⟩
      have hall : (σ.onCallback cb).2.filter (fun i => Invocation.stream i = cb.stream) =
          (σ.onCallback cb).2 :=
        List.filter_eq_self.mpr fun i hi => by simpa using stream_of_invoked hi
      simp only [runCallbacks, List.filter_append, hall, hfilter, hinvoked]
    · -- a callback of another stream is filtered out on the right
      have hframe := agreeAt_onCallback_of_ne (σ := σ) hs
      have hagree : AgreeAt s (σ.onCallback cb).1 τ :=
        ⟨h.streams.trans hframe.streams.symm, h.contexts.trans hframe.contexts.symm⟩
      obtain ⟨hrest, hfilter⟩ := ih hagree
      rw [List.filter_cons_of_neg (by simpa using hs)]
      refine ⟨hrest, ?_⟩
      have hnone : (σ.onCallback cb).2.filter (fun i => Invocation.stream i = s) = [] :=
        List.filter_eq_nil_iff.mpr fun i hi => by simpa [stream_of_invoked hi] using hs
      simp only [runCallbacks, List.filter_append, hnone, hfilter, List.nil_append]

/-! ## Invocations of a waker -/

/-- A waker, by its owner. -/
inductive Waker where
  | header (s : StreamId)
  | body (s : StreamId) (c : CallId)
deriving DecidableEq, Repr

def Invocation.waker : Invocation → Waker
  | .headerWaker s _ => .header s
  | .bodyWaker s c _ => .body s c

/-- The waker is installed. -/
def installed (σ : Http2Session) : Waker → Bool
  | .header s => (σ.contexts s).headerWaker
  | .body s c => (σ.contexts s).bodyWaker = some c

/-- A callback, or a coroutine that installs its waker. -/
inductive StreamEvent where
  | callback (cb : StreamCallback)
  | install (w : Waker)

def setWaker (σ : Http2Session) : Waker → Http2Session
  | .header s => σ.setContext s { σ.contexts s with headerWaker := true }
  | .body s c => σ.setContext s { σ.contexts s with bodyWaker := some c }

def runEvents (σ : Http2Session) : List StreamEvent → List Invocation
  | [] => []
  | .callback cb :: es => (σ.onCallback cb).2 ++ runEvents (σ.onCallback cb).1 es
  | .install w :: es => runEvents (setWaker σ w) es

/-- How often a waker occurs among the invocations. -/
def invocations (w : Waker) (is : List Invocation) : Nat := (is.map Invocation.waker).count w

def installs (w : Waker) (es : List StreamEvent) : Nat :=
  es.countP fun e => match e with
    | .install w' => w' = w
    | .callback _ => false

private theorem invocations_append (w : Waker) (is is' : List Invocation) :
    invocations w (is ++ is') = invocations w is + invocations w is' := by
  simp [invocations]

@[simp] theorem invocations_nil (w : Waker) : invocations w [] = 0 := rfl

theorem invocations_invokedHeader (σ : Http2Session) (s : StreamId) (success : Bool) (w : Waker) :
    invocations w (σ.invokedHeader s success) =
      if w = .header s then (installed σ w).toNat else 0 := by
  unfold invokedHeader
  split
  · by_cases hw : w = .header s
    · subst hw
      simp_all [invocations, Invocation.waker, installed]
    · simp [invocations, Invocation.waker, hw, Ne.symm hw]
  · by_cases hw : w = .header s
    · subst hw
      simp_all [installed]
    · simp [hw]

private theorem invocations_invokedBody (σ : Http2Session) (s s' : StreamId) (c : CallId) :
    invocations (.body s' c) (σ.invokedBody s) =
      if s' = s then (installed σ (.body s' c)).toNat else 0 := by
  unfold invokedBody
  by_cases hs : s' = s
  · subst hs
    split <;> rename_i hw
    · rename_i c'
      by_cases hc : c' = c <;> simp [invocations, Invocation.waker, installed, hw, hc]
    · simp [installed, hw]
  · split
    · simp [invocations, Invocation.waker, hs, Ne.symm hs]
    · simp [hs]

private theorem invocations_header_invokedBody (σ : Http2Session) (s s' : StreamId) :
    invocations (.header s') (σ.invokedBody s) = 0 := by
  unfold invokedBody
  split <;> simp [invocations, Invocation.waker]

/-- A waker that is invoked was installed and is not any more. -/
private theorem invocations_onCallback (σ : Http2Session) (cb : StreamCallback) (w : Waker) :
    invocations w (σ.onCallback cb).2 + (installed (σ.onCallback cb).1 w).toNat ≤
      (installed σ w).toNat := by
  -- a callback that invokes nothing leaves the wakers
  have hkeep : ∀ {s ctx}, ctx.headerWaker = (σ.contexts s).headerWaker →
      ctx.bodyWaker = (σ.contexts s).bodyWaker →
      installed (σ.setContext s ctx) w = installed σ w := by
    intro s ctx hheader hbody
    cases w <;> simp only [installed, setContext, Function.update_apply] <;> split <;> simp_all
  cases cb with
  | onHeader s isHeaders name value =>
    simp only [onCallback]
    split
    · rw [hkeep (s := s) (by simp) (by simp)]
      simp
    · simp
  | onDataChunkRecv s data =>
    simp only [onCallback]
    split
    · rw [hkeep (s := s) (by rfl) (by rfl)]
      simp
    · simp
  | onStreamClose s errorCode =>
    simp only [onCallback, Http2Session.onStreamClose]
    split
    case isFalse => simp
    case isTrue =>
      -- the only callback that can invoke both kinds
      rw [invocations_append, invocations_invokedHeader]
      cases w with
      | header s' =>
        rw [invocations_header_invokedBody]
        by_cases hs : s' = s <;> simp [installed, hs]
      | body s' c =>
        rw [invocations_invokedBody]
        by_cases hs : s' = s <;> simp [installed, hs]
  | onFrameRecv s isHeaders cat =>
    simp only [onCallback, Http2Session.onFrameRecv]
    cases isHeaders with
    | false => simp
    | true =>
      simp only [Bool.true_and, if_true]
      split
      case isFalse => simp
      case isTrue =>
        rw [invocations_invokedHeader]
        cases w with
        | header s' => by_cases hs : s' = s <;> simp [installed, hs]
        | body s' c => by_cases hs : s' = s <;> simp [installed, hs]

private theorem installed_setWaker (σ : Http2Session) (w w' : Waker) :
    (installed (setWaker σ w') w).toNat ≤ (installed σ w).toNat + if w' = w then 1 else 0 := by
  by_cases hw : w' = w
  · subst hw
    have := Bool.toNat_le (installed (setWaker σ w') w')
    simp only [if_true]
    omega
  · -- another waker of the stream stays, or is replaced
    simp only [hw, if_false, Nat.add_zero]
    cases w <;> cases w' <;> simp only [installed, setWaker, setContext, Function.update_apply] <;>
      split <;> simp_all

/-- A waker is invoked at most as often as it is installed. -/
private theorem invocations_runEvents (σ : Http2Session) (es : List StreamEvent) (w : Waker) :
    invocations w (runEvents σ es) ≤ (installed σ w).toNat + installs w es := by
  induction es generalizing σ with
  | nil => simp [runEvents, invocations]
  | cons e es ih =>
    cases e with
    | callback cb =>
      have hcallback := invocations_onCallback σ cb w
      have hrest := ih (σ.onCallback cb).1
      simp only [runEvents, invocations_append, installs, List.countP_cons, Bool.false_eq_true,
        if_false, Nat.add_zero]
      simp only [installs] at hrest
      omega
    | install w' =>
      have hset := installed_setWaker σ w w'
      have hrest := ih (setWaker σ w')
      simp only [runEvents, installs, List.countP_cons, decide_eq_true_eq]
      simp only [installs] at hrest
      omega

/-- For each stream, its context and the invocations of its wakers are what the callbacks for the
    stream give alone.  A callback for a stream without entry has no effect.  However callbacks and
    installations of wakers follow each other, no waker is invoked more often than it was
    installed. -/
theorem callbacks_project (σ : Http2Session) (cbs : List StreamCallback) :
    (∀ s, (σ.runCallbacks cbs).1.contexts s =
          (σ.runCallbacks (cbs.filter fun cb => cb.stream = s)).1.contexts s ∧
        (σ.runCallbacks cbs).2.filter (fun i => Invocation.stream i = s) =
          (σ.runCallbacks (cbs.filter fun cb => cb.stream = s)).2) ∧
      (∀ cb, σ.streams cb.stream = false → σ.onCallback cb = (σ, [])) ∧
      ∀ es w, invocations w (runEvents σ es) ≤ (installed σ w).toNat + installs w es := by
  refine ⟨fun s => ?_, fun cb => onCallback_unregistered, invocations_runEvents σ⟩
  obtain ⟨hagree, hinvoked⟩ := agreeAt_runCallbacks (s := s) (σ := σ) ⟨rfl, rfl⟩ cbs
  exact ⟨hagree.contexts.symm, hinvoked⟩

/-! ## Connection with the session's steps -/

/-- The callback behind a step, if nghttp2 triggers it. -/
def callback : H2Label → Option StreamCallback
  | .onHeader s name value => some (.onHeader s true name value)
  | .onFrameRecv s cat => some (.onFrameRecv s true cat)
  | .onDataChunkRecv s data => some (.onDataChunkRecv s data)
  | .onStreamClose s errorCode => some (.onStreamClose s errorCode)
  | _ => none

/-- Apart from nghttp2's own record of the stream's state, such a step is its callback. -/
theorem step_onCallback {σ τ : Http2Session} {l : H2Label} (hcb : callback l = some cb)
    (hstep : σ.step l = some τ) :
    τ = { (σ.onCallback cb).1 with nghttp2 := τ.nghttp2 } := by
  cases l <;> cases hcb <;>
    obtain ⟨_, ⟨⟩⟩ := Option.ite_none_right_eq_some.mp hstep <;>
  all_goals simp [onCallback, setNghttp2]

/-- An invoked waker passes its argument to the coroutine that installed it. -/
theorem posted_of_invoked {σ : Http2Session} (h : i ∈ (σ.onCallback cb).2) :
    match i with
    | .headerWaker s success => (σ.onCallback cb).1.requests s = some (.resumed success)
    | .bodyWaker s c data => (σ.onCallback cb).1.bodies c = some (s, .resumed data) := by
  obtain ⟨hregistered, hi⟩ := mem_invoked h
  cases cb with
  | onHeader | onDataChunkRecv => exact hi.elim
  | onStreamClose s errorCode =>
    replace hregistered : σ.streams s = true := hregistered
    rcases hi with hi | hi
    · obtain ⟨hwaker, rfl⟩ := mem_invokedHeader.mp hi
      simp [onCallback, Http2Session.onStreamClose, hregistered, hwaker]
    · obtain ⟨c, hwaker, rfl⟩ := mem_invokedBody.mp hi
      simp [onCallback, Http2Session.onStreamClose, hregistered, hwaker]
  | onFrameRecv s isHeaders cat =>
    replace hregistered : σ.streams s = true := hregistered
    obtain ⟨rfl, rfl, hi⟩ := hi
    obtain ⟨hwaker, rfl⟩ := mem_invokedHeader.mp hi
    simp [onCallback, Http2Session.onFrameRecv, hregistered, hwaker]

end Ppnt.Spec
