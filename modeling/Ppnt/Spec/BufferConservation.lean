import Ppnt.ForStd.Places
import Ppnt.Spec.BufferInvariant

/-!
# Provided buffers are conserved

A buffer goes from the kernel to the operation of a receive, from there to the `IOResult` that
`await_resume` constructs, through moves to other objects, and back to the kernel from the
destructor or the move assignment of its last owner.
-/

namespace Ppnt.Spec

open Ppnt.Native Run TaggedPtr

/-! ## Places -/

inductive BufferPlace where
  | kernel
  | operation (addr : Addr)
  | result (i : ResultId)
deriving DecidableEq

/-- The operation, or its completion in the queue, has the buffer. -/
def holds (op : Operation) (cq : List Cqe) (addr : Addr) (b : UInt16) : Prop :=
  hasBuf op = true ∧ op.bid = b ∨
    ∃ c ∈ cq, c.userData = addr ∧ c.hasBuffer = true ∧ c.bid = b

/-- The buffer is at the place: with the kernel, with an operation that is completed and whose
    coroutine is not resumed, or with a live `IOResult`. -/
def Located (σ : BufferState) (b : UInt16) : BufferPlace → Prop
  | .kernel => b ∈ σ.available
  | .operation addr => ∃ op, σ.ring.operations addr = some op ∧ holds op σ.ring.cq addr b
  | .result i => ∃ r, σ.results i = some r ∧ r.buffer ≠ none ∧ r.bid = b

/-- The kernel has no buffer twice, and each buffer is in one place. -/
structure PlaceInv (σ : BufferState) : Prop where
  nodup : σ.available.Nodup
  place : InOnePlace (fun b : UInt16 => b.toNat < bufCount) (Located σ)

private theorem nodup_allBuffers : allBuffers.Nodup := by
  unfold allBuffers
  refine List.Nodup.map_on (fun m hm n hn heq => ?_) List.nodup_range
  have hm := List.mem_range.mp hm
  have hn := List.mem_range.mp hn
  have hnat := congrArg UInt16.toNat heq
  simp only [UInt16.toNat_ofNat'] at hnat
  simp only [bufCount] at hm hn
  omega

private theorem mem_allBuffers {b : UInt16} : b ∈ allBuffers ↔ b.toNat < bufCount := by
  unfold allBuffers
  refine ⟨fun hb => ?_, fun hb =>
    List.mem_map.mpr ⟨b.toNat, List.mem_range.mpr hb, UInt16.ofNat_toNat⟩⟩
  obtain ⟨n, hn, rfl⟩ := List.mem_map.mp hb
  have hn := List.mem_range.mp hn
  rw [UInt16.toNat_ofNat']
  simp only [bufCount] at hn ⊢
  omega

/-- At first all buffers are in the ring. -/
private theorem placeInv_initial (evOp : OperationPtr) (entries : Nat) (usingBufRing : Bool) :
    PlaceInv (.initial evOp entries usingBufRing) := by
  have havailable : (BufferState.initial evOp entries usingBufRing).available = allBuffers := by
    simp only [BufferState.initial]
  have hkernel : ∀ b p, Located (.initial evOp entries usingBufRing) b p →
      p = .kernel ∧ b.toNat < bufCount := by
    rintro b (_ | addr | i) h
    · simp only [Located, havailable] at h
      exact ⟨rfl, mem_allBuffers.mp h⟩
    · obtain ⟨op, hop, _⟩ := h
      cases hop
    · obtain ⟨r, hr, _⟩ := h
      cases hr
  refine ⟨by rw [havailable]; exact nodup_allBuffers, fun b hb => ⟨.kernel, ?_, ?_⟩, ?_⟩
  · simp only [Located, havailable]
    exact mem_allBuffers.mpr hb
  · exact fun p h => (hkernel b p h).1
  · exact fun b p h => (hkernel b p h).2

section Step

variable {σ τ : BufferState}

/-- A step that moves nothing. -/
theorem PlaceInv.keep (hinv : PlaceInv σ) (havailable : τ.available = σ.available)
    (hoperations : ∀ addr b, Located τ b (.operation addr) ↔ Located σ b (.operation addr))
    (hresults : ∀ i b, Located τ b (.result i) ↔ Located σ b (.result i)) : PlaceInv τ := by
  refine ⟨havailable ▸ hinv.nodup, hinv.place.keep fun b p => ?_⟩
  cases p with
  | kernel => simp only [Located, havailable]
  | operation addr => exact hoperations addr b
  | result i => exact hresults i b

private theorem PlaceInv.keep_of_same (hinv : PlaceInv σ) (hsame : SameBut σ.ring τ.ring)
    (havailable : τ.available = σ.available) (hresults : τ.results = σ.results) : PlaceInv τ :=
  hinv.keep havailable (fun addr b => by simp only [Located, hsame.operations, hsame.cq])
    fun i b => by simp only [Located, hresults]

/-! ## The ring -/

/-- A new operation has no buffer. -/
theorem PlaceInv.awaitSuspend {ptr : OperationPtr} {h : Handle} {timeoutMs : UInt32}
    {bufferSelect : Bool} (hinv : PlaceInv σ) (hkernel : KernelInv σ)
    (hstep : σ.step (.awaitSuspend ptr h timeoutMs bufferSelect) = some τ) : PlaceInv τ := by
  obtain ⟨ring, hring, rfl⟩ := Option.map_eq_some_iff.mp hstep
  obtain ⟨⟨hne, hfresh⟩, hsame, _⟩ := awaitSuspend_spec (fun _ => true) hring
  refine hinv.keep rfl (fun addr b => ?_) fun i b => Iff.rfl
  simp only [Located, hsame.operations, hsame.cq, Ring.setOperation]
  by_cases hat : addr = ptr.addr
  · subst hat
    -- the new operation has no buffer, and there is no completion for it yet
    have hcq : ∀ c ∈ σ.ring.cq, c.userData ≠ ptr.addr := fun c hc heq => by
      have hpos :=
        outstanding_pos_of_mem_cq (p := fun data => data = ptr.addr) hc (by simpa using heq)
      have hzero := hkernel.not_outstanding hne hfresh (fun data => data = ptr.addr)
        (by simp [untag_of_free (addr_free ptr)])
      omega
    simp only [hfresh, Function.update_self, Option.some.injEq, exists_eq_left', holds,
      hasBuf_awaited, Bool.false_eq_true, false_and, false_or, reduceCtorEq, exists_false,
      iff_false]
    rintro ⟨c, hc, heq, _⟩
    exact hcq c hc heq
  · simp [hat]

private theorem holds_append (op : Operation) (cq : List Cqe) (c : Cqe) (addr : Addr) (b : UInt16) :
    holds op (cq ++ [c]) addr b ↔
      holds op cq addr b ∨ (c.userData = addr ∧ c.hasBuffer = true ∧ c.bid = b) := by
  simp only [holds, List.mem_append, List.mem_singleton, or_and_right, exists_or, exists_eq_left,
    or_assoc]

/-- The kernel takes a buffer out of the ring for a completion. -/
theorem PlaceInv.complete {c : Cqe} (hinv : PlaceInv σ) (hkernel : KernelInv σ)
    (hstep : σ.step (.complete c) = some τ) : PlaceInv τ := by
  obtain ⟨hallows, h⟩ := Option.ite_none_right_eq_some.mp hstep
  obtain ⟨ring, hring, rfl⟩ := Option.map_eq_some_iff.mp h
  obtain ⟨hmem, ⟨⟩⟩ := Option.ite_none_right_eq_some.mp hring
  obtain ⟨hring', _, hresults', havailable', _⟩ := onComplete_spec σ
    { σ.ring with inFlight := σ.ring.inFlight.erase c.userData, cq := σ.ring.cq ++ [c] } c
  cases hbuffer : c.hasBuffer with
  | false =>
    refine hinv.keep (by rw [havailable', hbuffer]; rfl) (fun addr b => ?_) fun i b => ?_
    · simp only [Located, hring', holds_append, hbuffer, Bool.false_eq_true, false_and, and_false,
        or_false]
    · simp only [Located, hresults']
  | true =>
    rw [hbuffer, if_pos rfl] at havailable'
    obtain ⟨htag, hselect, _, havailable⟩ := (allows_spec hallows).1 hbuffer
    have hdata : c.userData = untag c.userData := (untag_of_free (free_of_not_isTagged htag)).symm
    -- the receive is one that a coroutine waits for
    obtain ⟨op, hop⟩ : ∃ op, σ.ring.operations c.userData = some op := by
      rw [← hdata] at hselect
      obtain ⟨hev, hnull, _⟩ := addr_ne (hkernel.select _ hselect)
      have hpos := outstanding_pos_of_mem_inFlight (p := fun data => untag data = c.userData) hmem
        (by simpa using hdata.symm)
      rw [hkernel.ring.refCount _ hev hnull] at hpos
      cases hop : σ.ring.operations c.userData with
      | none => simp [hop] at hpos
      | some op => exact ⟨op, rfl⟩
    refine ⟨by rw [havailable']; exact hinv.nodup.erase _, ?_⟩
    refine hinv.place.move (fun b => b = c.bid) .kernel (.operation c.userData)
      fun b q => ?_
    cases q with
    | kernel =>
      simp only [Located, havailable', hinv.nodup.mem_erase_iff]
      simp [and_comm]
    | operation addr =>
      simp only [Located, hring', holds_append, hbuffer, true_and, BufferPlace.operation.injEq,
        reduceCtorEq, false_and, not_false_eq_true, and_true, and_or_left, exists_or]
      rw [or_comm]
      refine or_congr ⟨?_, ?_⟩ Iff.rfl
      · rintro ⟨_, _, rfl, rfl⟩
        exact ⟨rfl, rfl, havailable⟩
      · rintro ⟨rfl, rfl, _⟩
        exact ⟨op, hop, rfl, rfl⟩
    | result i =>
      simp only [Located, hresults']
      simp

/-! ## Handling a completion -/

/-- A completion in the queue concerns the operation that it points to. -/
private theorem holds_of_ne {c : Cqe} {op : Operation} {rest : List Cqe} {addr : Addr} {b : UInt16}
    (hkernel : KernelInv σ) (hc : c ∈ σ.ring.cq) (hne : addr ≠ untag c.userData) :
    holds op (c :: rest) addr b ↔ holds op rest addr b := by
  have hnot : ¬(c.userData = addr ∧ c.hasBuffer = true ∧ c.bid = b) := by
    rintro ⟨rfl, hbuffer, _⟩
    obtain ⟨htag, _⟩ := hkernel.selected c hc hbuffer
    exact hne (untag_of_free (free_of_not_isTagged htag)).symm
  simp only [holds, List.mem_cons, or_and_right, exists_or, exists_eq_left, hnot, false_or]

/-- Handling a completion leaves a buffer with its operation. -/
theorem holds_onCqe {c : Cqe} {op : Operation} {ring : Ring} {b : UInt16} (hkernel : KernelInv σ)
    (hcqe : CqeStep σ.ring c ring) (hop : σ.ring.operations (untag c.userData) = some op) :
    holds op σ.ring.cq (untag c.userData) b ↔
      holds (op.onCqe (isTagged c.userData) c) ring.cq (untag c.userData) b := by
  have hc : c ∈ σ.ring.cq := by simp [hcqe.cq]
  simp only [holds, hcqe.cq, List.mem_cons, or_and_right, exists_or, exists_eq_left, onCqe_hasBuf,
    onCqe_bid]
  cases hgives : gives c with
  | false =>
    -- a buffer that the entry selected is taken over
    have hbuffer : c.hasBuffer = false := by
      by_contra hbuffer
      obtain ⟨htag, _, hres⟩ := hkernel.selected c hc (by simpa using hbuffer)
      have hne : c.res ≠ -eCanceled := fun h => absurd (h ▸ hres) (by decide)
      simp [gives, htag, hne] at hgives
      exact hbuffer (by simpa using hgives)
    simp [hbuffer]
  | true =>
    simp only [gives, Bool.and_eq_true, Bool.not_eq_true', decide_eq_true_eq] at hgives
    obtain ⟨⟨htag, _⟩, hbuffer⟩ := hgives
    have hdata : c.userData = untag c.userData := (untag_of_free (free_of_not_isTagged htag)).symm
    have hpending := hcqe.outstanding_eq fun data => data = untag c.userData
    have hone := (hkernel.once _ op hop).1
    rw [decide_eq_true hdata, Bool.toNat_true] at hpending
    have hbuf : hasBuf op = false := by
      by_contra hbuf
      have := (hkernel.attached _ op hop (by simpa using hbuf)).1
      omega
    simp only [hbuf, Bool.false_eq_true, false_and, false_or, ← hdata, hbuffer, true_and,
      Bool.or_true, if_true]

/-- `await_resume` takes over the buffer of the operation. -/
private theorem awaitResume_owns {op : Operation} (hres : hasBuf op = true → 0 ≤ op.result)
    (b : UInt16) :
    ((AsyncBufferOp.awaitResume op).buffer ≠ none ∧ (AsyncBufferOp.awaitResume op).bid = b) ↔
      hasBuf op = true ∧ op.bid = b := by
  unfold AsyncBufferOp.awaitResume
  cases hbuf : hasBuf op with
  | true =>
    have hflag : op.flags &&& Operation.fHasBuffer ≠ 0 := of_decide_eq_true hbuf
    simp [hflag, hres hbuf]
  | false =>
    have hflag : ¬op.flags &&& Operation.fHasBuffer ≠ 0 := of_decide_eq_false hbuf
    simp only [hflag, and_false, if_false]
    simp

/-- Nothing is left of an operation whose coroutine is resumed. -/
private theorem holds_of_resumed {op : Operation} {ring : Ring} {addr : Addr} {b : UInt16}
    (hring : RingInv ring) (hptr : ∃ ptr : OperationPtr, ptr ≠ ring.evOp ∧ ptr.addr = addr)
    (hgone : ring.operations addr = none) :
    holds op ring.cq addr b ↔ hasBuf op = true ∧ op.bid = b := by
  obtain ⟨hev, hnull, hfree⟩ := addr_ne hptr
  have hzero := hring.refCount addr hev hnull
  rw [hgone] at hzero
  refine ⟨fun h => h.resolve_right ?_, .inl⟩
  rintro ⟨d, hd, heq, _⟩
  have := outstanding_pos_of_mem_cq (p := fun data => untag data = addr) hd
    (by simp [heq, untag_of_free hfree])
  simp only [Option.elim_none] at hzero
  omega

/-- The buffer of a completion goes to its operation, or to the result. -/
theorem PlaceInv.cqe {c : Cqe} {i : ResultId} (hinv : PlaceInv σ) (hkernel : KernelInv σ)
    (hstep : σ.step (.cqe c i) = some τ) : PlaceInv τ := by
  obtain ⟨hi, h⟩ := Option.ite_none_right_eq_some.mp hstep
  obtain ⟨ring, hring, rfl⟩ := Option.map_eq_some_iff.mp h
  have hcqe := hkernel.ring.cqeStep hring
  have hc : c ∈ σ.ring.cq := by simp [hcqe.cq]
  obtain ⟨hring', _, havailable', _, _⟩ := onCqe_rest σ ring i
  -- operations at other addresses
  have hother : ∀ addr b, addr ≠ untag c.userData →
      (Located (σ.onCqe ring i) b (.operation addr) ↔ Located σ b (.operation addr)) := by
    intro addr b hat
    simp only [Located, hring', hcqe.operations_of_ne hat, hcqe.cq, holds_of_ne hkernel hc hat]
  rcases hcqe.operation with ⟨hnone, hoperations, hresumed⟩ | ⟨op, hop, hop'⟩
  · have hresults : (σ.onCqe ring i).results = σ.results := by simp [BufferState.onCqe, hresumed]
    refine hinv.keep havailable' (fun addr b => ?_) fun j b => by simp only [Located, hresults]
    by_cases hat : addr = untag c.userData
    · subst hat
      simp [Located, hring', hoperations, hnone]
    · exact hother addr b hat
  · rcases hop' with ⟨h, hone, hoperations, hresumed⟩ | ⟨_, hoperations, hresumed⟩
    · have hptr := (hkernel.ring.live _ op hop).1
      have hgone : ring.operations (untag c.userData) = none := by simp [hoperations]
      have howns : ∀ b, Located σ b (.operation (untag c.userData)) ↔
          hasBuf (op.onCqe (isTagged c.userData) c) = true ∧
            (op.onCqe (isTagged c.userData) c).bid = b := fun b => by
        simp only [Located, hop, Option.some.injEq, exists_eq_left', holds_onCqe hkernel hcqe hop]
        exact holds_of_resumed (ringInv_step _ _ _ hkernel.ring hring) (hcqe.evOp ▸ hptr) hgone
      cases hselect : σ.bufferSelect (untag c.userData) with
      | true =>
        have hresults : (σ.onCqe ring i).results = Function.update σ.results i
            (some (AsyncBufferOp.awaitResume (op.onCqe (isTagged c.userData) c))) := by
          simp [BufferState.onCqe, hresumed, hselect, BufferState.setResult]
        refine ⟨havailable' ▸ hinv.nodup, hinv.place.move (fun _ => True)
          (.operation (untag c.userData)) (.result i) fun b q => ?_⟩
        cases q with
        | kernel => simp [Located, havailable']
        | operation addr =>
          by_cases hat : addr = untag c.userData
          · subst hat
            simp [Located, hring', hgone]
          · rw [hother addr b hat]
            simp [hat]
        | result j =>
          by_cases hj : j = i
          · subst hj
            rw [howns b, ← awaitResume_owns fun hbuf => (hkernel.attached_onCqe hc hop hbuf).2.2.1]
            simp [Located, hresults, hi]
          · simp [Located, hresults, hj]
      | false =>
        -- another operation has no buffer
        have hbuf : hasBuf (op.onCqe (isTagged c.userData) c) = false := by
          by_contra hbuf
          have := (hkernel.attached_onCqe hc hop (by simpa using hbuf)).2.1
          simp [hselect] at this
        have hresults : (σ.onCqe ring i).results = σ.results := by
          simp [BufferState.onCqe, hresumed, hselect]
        refine hinv.keep havailable' (fun addr b => ?_) fun j b => by simp only [Located, hresults]
        by_cases hat : addr = untag c.userData
        · subst hat
          rw [howns b]
          simp [Located, hring', hgone, hbuf]
        · exact hother addr b hat
    · have hresults : (σ.onCqe ring i).results = σ.results := by simp [BufferState.onCqe, hresumed]
      refine hinv.keep havailable' (fun addr b => ?_) fun j b => by simp only [Located, hresults]
      by_cases hat : addr = untag c.userData
      · subst hat
        simp only [Located, hring', hoperations, Function.update_self, Option.some.injEq,
          exists_eq_left', hop]
        exact (holds_onCqe hkernel hcqe hop).symm
      · exact hother addr b hat

/-! ## Results -/

/-- An object gives its buffer back, and is then gone or without a buffer. -/
theorem PlaceInv.recycle {σ₁ : BufferState} {i : ResultId} {r : IoResult} (hinv : PlaceInv σ)
    (hr : σ.results i = some r) (hrecycle : σ.recycle r = some σ₁) :
    PlaceInv (σ₁.setResult i none) := by
  have hrecycled := recycle_spec hrecycle
  have howns : ∀ b, Located σ b (.result i) ↔ r.buffer ≠ none ∧ r.bid = b := fun b => by
    simp only [Located, hr, Option.some.injEq, exists_eq_left']
  constructor
  · show σ₁.available.Nodup
    rw [hrecycled.available]
    split
    case isTrue => exact hinv.nodup
    case isFalse hbuffer =>
      -- the buffer is with the object, so the kernel does not have it
      refine List.nodup_append.mpr ⟨hinv.nodup, List.nodup_singleton _, ?_⟩
      rintro b hb _ hb' rfl
      obtain rfl := List.mem_singleton.mp hb'
      have := hinv.place.eq (p := .kernel) hb ((howns _).mpr ⟨hbuffer, rfl⟩)
      cases this
  · refine hinv.place.move (fun _ => True) (.result i) .kernel fun b q => ?_
    cases q with
    | kernel =>
      rw [howns b]
      simp only [Located, BufferState.setResult, hrecycled.available]
      by_cases hbuffer : r.buffer = none
      · simp [hbuffer]
      · simp [hbuffer, or_comm, eq_comm]
    | operation addr =>
      simp [Located, BufferState.setResult, hrecycled.ring.operations, hrecycled.ring.cq]
    | result j =>
      by_cases hj : j = i
      · simp [Located, BufferState.setResult, hj]
      · simp [Located, BufferState.setResult, hj, hrecycled.results]

/-- The move of an object to one that has no buffer. -/
theorem PlaceInv.moved {i other : ResultId} {r : IoResult} (hinv : PlaceInv σ) (hne : i ≠ other)
    (hi : σ.results i = none) (hr : σ.results other = some r) :
    PlaceInv ((σ.setResult i (some r.moved.1)).setResult other (some r.moved.2)) := by
  refine ⟨hinv.nodup, hinv.place.move (fun _ => True) (.result other) (.result i)
    fun b q => ?_⟩
  cases q with
  | kernel | operation addr => simp [Located, BufferState.setResult]
  | result j =>
    by_cases hother : j = other
    · subst hother
      simp [Located, BufferState.setResult, IoResult.moved, Ne.symm hne]
    · by_cases hj : j = i
      · subst hj
        simp [Located, BufferState.setResult, IoResult.moved, hother, hi, hr]
      · simp [Located, BufferState.setResult, hother, hj]

/-- Each step leaves every buffer in one place. -/
private theorem placeInv_step {l : BufferLabel} (hinv : PlaceInv σ) (hkernel : KernelInv σ)
    (hstep : σ.step l = some τ) : PlaceInv τ := by
  cases l with
  | awaitSuspend ptr h timeoutMs bufferSelect => exact hinv.awaitSuspend hkernel hstep
  | complete c => exact hinv.complete hkernel hstep
  | runOne =>
    obtain ⟨ring, hring, rfl⟩ := Option.map_eq_some_iff.mp hstep
    exact hinv.keep_of_same (quiet_step (.inl rfl) hring).1 rfl rfl
  | cqe c i => exact hinv.cqe hkernel hstep
  | cqAdvance =>
    obtain ⟨ring, hring, rfl⟩ := Option.map_eq_some_iff.mp hstep
    exact hinv.keep_of_same (quiet_step (.inr rfl) hring).1 rfl rfl
  | construct i =>
    obtain ⟨hi, ⟨⟩⟩ := Option.ite_none_right_eq_some.mp hstep
    refine hinv.keep rfl (fun addr b => Iff.rfl) fun j b => ?_
    by_cases hj : j = i
    · simp [Located, BufferState.setResult, hj, hi]
    · simp [Located, BufferState.setResult, hj]
  | moveConstruct i other =>
    simp only [BufferState.step] at hstep
    split at hstep
    case h_2 => cases hstep
    case h_1 r hi hr =>
      obtain rfl := Option.some.inj hstep
      exact hinv.moved (fun heq => by simp [heq, hr] at hi) hi hr
  | moveAssign i other =>
    simp only [BufferState.step] at hstep
    split at hstep
    case h_2 => cases hstep
    case h_1 r r' hi hr =>
      split at hstep
      case isTrue =>
        obtain rfl := Option.some.inj hstep
        exact hinv
      case isFalse hne =>
        obtain ⟨σ₁, hrecycle, rfl⟩ := Option.map_eq_some_iff.mp hstep
        -- the assignment as a return of the own buffer and a move
        have hgone := hinv.recycle hi hrecycle
        have hother : (σ₁.setResult i none).results other = some r' := by
          simp [BufferState.setResult, Ne.symm hne, (recycle_spec hrecycle).results, hr]
        have hmoved := hgone.moved hne (by simp [BufferState.setResult]) hother
        simpa [BufferState.setResult] using hmoved
  | destroy i =>
    simp only [BufferState.step] at hstep
    split at hstep
    case h_2 => cases hstep
    case h_1 r hr =>
      obtain ⟨σ₁, hrecycle, rfl⟩ := Option.map_eq_some_iff.mp hstep
      exact hinv.recycle hr hrecycle

end Step

/-! ## Whole runs -/

/-- In every reachable state each of the `BUF_COUNT` buffers is in exactly one place: available to
    the kernel, which has it once, with one operation that is completed and not resumed, or with one
    live `IOResult`. -/
theorem buffers_conserved {evOp : OperationPtr} {entries : Nat} {usingBufRing : Bool}
    {ls : List BufferLabel} {σ : BufferState}
    (hrun : run BufferState.step (.initial evOp entries usingBufRing) ls = some σ) :
    σ.available.Nodup ∧ ∀ b : UInt16, b.toNat < bufCount → ∃! p, Located σ b p := by
  have hstep : ∀ σ l τ, KernelInv σ ∧ PlaceInv σ → BufferState.step σ l = some τ →
      KernelInv τ ∧ PlaceInv τ := fun σ l τ hinv hstep =>
    ⟨kernelInv_step σ l τ hinv.1 hstep, placeInv_step hinv.2 hinv.1 hstep⟩
  have hinv := stateInvariant_of_run hstep
    ⟨kernelInv_initial evOp entries usingBufRing, placeInv_initial evOp entries usingBufRing⟩ hrun
  exact ⟨hinv.2.nodup, hinv.2.place.unique⟩

/-- A receive of 100 bytes into buffer 5 whose timeout's completion comes first.  The result is
    moved to another object. -/
theorem buffers_conserved_receive :
    ∃ σ, run BufferState.step (.initial ⟨8#64, rfl, by decide⟩ 4 true)
        [.construct 1, .awaitSuspend ⟨16#64, rfl, by decide⟩ 7 1000 true, .runOne,
          .complete ⟨17#64, -eCanceled, 0⟩, .complete ⟨16#64, 100, 0x50001⟩,
          .cqe ⟨17#64, -eCanceled, 0⟩ 0, .cqe ⟨16#64, 100, 0x50001⟩ 0, .moveAssign 1 0] = some σ ∧
      σ.results 1 = some ⟨100, some 20480, 5⟩ ∧ σ.results 0 = some ⟨100, none, 5⟩ ∧
      ∃! p, Located σ 5 p := by
  have hfinal : (run BufferState.step (.initial ⟨8#64, rfl, by decide⟩ 4 true)
        [.construct 1, .awaitSuspend ⟨16#64, rfl, by decide⟩ 7 1000 true, .runOne,
          .complete ⟨17#64, -eCanceled, 0⟩, .complete ⟨16#64, 100, 0x50001⟩,
          .cqe ⟨17#64, -eCanceled, 0⟩ 0, .cqe ⟨16#64, 100, 0x50001⟩ 0, .moveAssign 1 0]).map
        (fun σ => (σ.results 1, σ.results 0)) =
      some (some ⟨100, some 20480, 5⟩, some ⟨100, none, 5⟩) := by decide +kernel
  obtain ⟨σ, hrun, hresults⟩ := Option.map_eq_some_iff.mp hfinal
  exact ⟨σ, hrun, (Prod.mk.inj hresults).1, (Prod.mk.inj hresults).2,
    (buffers_conserved hrun).2 5 (by decide)⟩

end Ppnt.Spec
