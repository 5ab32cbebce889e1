import Ppnt.Native.IoResult
import Ppnt.Spec.DriverInvariant

/-!
# Completions and buffers

What holds of an operation between the completion of its entry and its resumption: the entry is
completed once, and a buffer that it selected stays with the operation, whose result is not replaced
by the timeout's.
-/

namespace Ppnt.Spec

open Ppnt.Native Run TaggedPtr

/-! ## The buffer of an operation -/

/-- The operation has a buffer. -/
def hasBuf (op : Operation) : Bool := op.flags &&& Operation.fHasBuffer ≠ 0

/-- The completion gives its operation a buffer. -/
def gives (c : Cqe) : Bool := !isTagged c.userData && c.res ≠ -eCanceled && c.hasBuffer

private theorem hasBuf_or (flags : UInt8) :
    (flags ||| Operation.fHasBuffer) &&& Operation.fHasBuffer ≠ 0 := by
  intro h
  have hbit : (flags.toBitVec ||| 1#8) &&& 1#8 = 0#8 := by
    simpa [Operation.fHasBuffer] using congrArg UInt8.toBitVec h
  have htag := isTagged_tag (p := flags.toBitVec) (by decide)
  simp [isTagged, tag, hbit] at htag

theorem onCqe_hasBuf (op : Operation) (c : Cqe) :
    hasBuf (op.onCqe (isTagged c.userData) c) = (hasBuf op || gives c) := by
  have hor := hasBuf_or op.flags
  simp only [Operation.onCqe, hasBuf, gives, Cqe.hasBuffer]
  split_ifs <;> simp_all

theorem onCqe_bid (op : Operation) (c : Cqe) :
    (op.onCqe (isTagged c.userData) c).bid = if gives c then c.bid else op.bid := by
  simp only [Operation.onCqe, gives, Cqe.hasBuffer, Cqe.bid]
  split_ifs <;> simp_all

theorem hasBuf_awaited (h : Handle) (timeoutMs : UInt32) :
    hasBuf (awaited h timeoutMs) = false := by
  by_cases ht : timeoutMs > 0
  · rw [awaited_timed ht]
    show decide ((0 ||| Operation.fIsLinked) &&& Operation.fHasBuffer ≠ 0) = false
    decide
  · rw [awaited_untimed ht]
    show decide (0 &&& Operation.fHasBuffer ≠ 0) = false
    decide

/-! ## The invariant -/

/-- The invariant. -/
structure KernelInv (σ : BufferState) : Prop where
  ring : RingInv σ.ring
  select : ∀ addr, σ.bufferSelect addr = true →
    ∃ ptr : OperationPtr, ptr ≠ σ.ring.evOp ∧ ptr.addr = addr
  /-- An operation has one entry, and at most one timeout. -/
  once : ∀ addr op, σ.ring.operations addr = some op →
    outstanding (fun data => data = addr) σ.ring ≤ 1 ∧
    outstanding (fun data => data = tag addr) σ.ring ≤ 1
  /-- What the kernel remembers is what is in the completion queue. -/
  results : ∀ c ∈ σ.ring.cq, σ.ring.operations (untag c.userData) ≠ none →
    if isTagged c.userData then σ.timeoutRes (untag c.userData) = some c.res
    else σ.ioRes (untag c.userData) = some c.res
  selected : ∀ c ∈ σ.ring.cq, c.hasBuffer = true →
    isTagged c.userData = false ∧ σ.bufferSelect (untag c.userData) = true ∧ 0 ≤ c.res
  /-- An operation with a buffer is one whose entry is completed. -/
  attached : ∀ addr op, σ.ring.operations addr = some op → hasBuf op = true →
    outstanding (fun data => data = addr) σ.ring = 0 ∧ σ.bufferSelect addr = true ∧ 0 ≤ op.result ∧
      ∃ r, σ.ioRes addr = some r ∧ 0 ≤ r
  /-- A timeout that expires cancels the entry. -/
  pair : ∀ addr, σ.timeoutRes addr = some (-eTime) →
    σ.ioRes addr = none ∨ σ.ioRes addr = some (-eCanceled)

theorem kernelInv_initial (evOp : OperationPtr) (entries : Nat) (usingBufRing : Bool) :
    KernelInv (.initial evOp entries usingBufRing) where
  ring := by
    refine ⟨fun addr hne hnull => ?_, fun addr op h => nomatch h⟩
    have hev : evOp.addr ≠ addr := Ne.symm hne
    have hzero : untag (0#64) ≠ addr := Ne.symm hnull
    cases usingBufRing <;>
      simp [outstanding, BufferState.initial, Ring.initial, untag_of_free (addr_free evOp), hev,
        hzero]
  select _ h := nomatch h
  once _ _ h := nomatch h
  results _ h := nomatch h
  selected _ h := nomatch h
  attached _ _ h := nomatch h
  pair _ h := nomatch h

section Step

variable {σ τ : BufferState}

/-- The address of an operation that a coroutine waits for, or that is a receive. -/
theorem addr_ne {σ : Ring} {addr : Addr}
    (h : ∃ ptr : OperationPtr, ptr ≠ σ.evOp ∧ ptr.addr = addr) :
    addr ≠ σ.evOp.addr ∧ addr ≠ 0#64 ∧ addr.getLsbD 0 = false := by
  obtain ⟨ptr, hne, rfl⟩ := h
  exact ⟨fun h => hne (addr_injective h), ptr.ne_null, addr_free ptr⟩

/-- User data with a tag is not a pointer. -/
private theorem tag_ne {addr addr' : Addr} (h : addr'.getLsbD 0 = false) : tag addr ≠ addr' :=
  fun heq => by
  have htag := isTagged_tag (p := addr) (by decide)
  rw [heq, isTagged_of_free h] at htag
  cases htag

/-- A step of the ring that only concerns entries nobody waits for. -/
private theorem KernelInv.of_same (hinv : KernelInv σ) (hsame : SameBut σ.ring τ.ring)
    (hpending : ∀ p : Addr → Bool, p 0#64 = false → p σ.ring.evOp.addr = false →
      outstanding p τ.ring = outstanding p σ.ring)
    (hselect : τ.bufferSelect = σ.bufferSelect) (hio : τ.ioRes = σ.ioRes)
    (htimeout : τ.timeoutRes = σ.timeoutRes) : KernelInv τ := by
  -- a live operation is neither the eventfd operation nor null
  have hio' : ∀ addr op, σ.ring.operations addr = some op →
      outstanding (fun data => data = addr) τ.ring =
      outstanding (fun data => data = addr) σ.ring := by
    intro addr op hop
    obtain ⟨hev, hnull, _⟩ := addr_ne (hinv.ring.live addr op hop).1
    exact hpending _ (by simpa using Ne.symm hnull) (by simpa using Ne.symm hev)
  constructor
  case ring =>
    refine ⟨fun addr hev hnull => ?_, ?_⟩
    · rw [hsame.evOp] at hev
      rw [hpending _ (by simpa [untag] using Ne.symm hnull)
        (by simpa [untag_of_free (addr_free σ.ring.evOp)] using Ne.symm hev), hsame.operations]
      exact hinv.ring.refCount addr hev hnull
    · rw [hsame.operations, hsame.evOp]
      exact hinv.ring.live
  case select =>
    rw [hselect, hsame.evOp]
    exact hinv.select
  case once =>
    rw [hsame.operations]
    intro addr op hop
    rw [hio' addr op hop, hpending (fun data => data = tag addr)
      (by simpa using Ne.symm (tag_ne (by simp)))
      (by simpa using Ne.symm (tag_ne (addr_free σ.ring.evOp)))]
    exact hinv.once addr op hop
  case results =>
    rw [hsame.cq, hsame.operations, hio, htimeout]
    exact hinv.results
  case selected =>
    rw [hsame.cq, hselect]
    exact hinv.selected
  case attached =>
    rw [hsame.operations, hselect, hio]
    intro addr op hop hbuf
    rw [hio' addr op hop]
    exact hinv.attached addr op hop hbuf
  case pair =>
    rw [hio, htimeout]
    exact hinv.pair

/-- Nothing is outstanding for an address without operation. -/
theorem KernelInv.not_outstanding (hinv : KernelInv σ) {ptr : OperationPtr}
    (hne : ptr ≠ σ.ring.evOp) (hfresh : σ.ring.operations ptr.addr = none) (p : Addr → Bool)
    (hp : ∀ data, p data = true → untag data = ptr.addr) : outstanding p σ.ring = 0 := by
  have hzero := hinv.ring.refCount ptr.addr (fun h => hne (addr_injective h)) ptr.ne_null
  rw [hfresh] at hzero
  have hle := outstanding_mono (σ := σ.ring) (p := p) (q := fun data => untag data = ptr.addr)
    fun data hdata => by simpa using hp data hdata
  exact Nat.eq_zero_of_le_zero (hle.trans_eq hzero)

/-- A new operation has its entries in flight, and no result. -/
theorem KernelInv.awaitSuspend {ptr : OperationPtr} {h : Handle} {timeoutMs : UInt32}
    {bufferSelect : Bool} (hinv : KernelInv σ)
    (hstep : σ.step (.awaitSuspend ptr h timeoutMs bufferSelect) = some τ) : KernelInv τ := by
  obtain ⟨ring, hring, rfl⟩ := Option.map_eq_some_iff.mp hstep
  obtain ⟨⟨hne, hfresh⟩, hsame, _⟩ := awaitSuspend_spec (fun _ => true) hring
  have hpending := fun p => (awaitSuspend_spec p hring).2.2
  have hnone := hinv.not_outstanding hne hfresh
  -- completions in the queue are not for the new operation
  have hcq : ∀ c ∈ σ.ring.cq, untag c.userData ≠ ptr.addr := by
    intro c hc heq
    have hpos :=
      outstanding_pos_of_mem_cq (p := fun data => untag data = ptr.addr) hc (by simpa using heq)
    rw [hnone _ (by simp)] at hpos
    cases hpos
  have hringInv := ringInv_step _ _ _ hinv.ring hring
  have hother : ∀ addr op, addr ≠ ptr.addr → ring.operations addr = some op →
      σ.ring.operations addr = some op ∧
        outstanding (fun data => data = addr) ring = outstanding (fun data => data = addr) σ.ring ∧
        outstanding (fun data => data = tag addr) ring =
          outstanding (fun data => data = tag addr) σ.ring := by
    intro addr op hat hop
    obtain ⟨hev, -, hfree⟩ := addr_ne (hringInv.live addr op hop).1
    replace hev : addr ≠ σ.ring.evOp.addr := hsame.evOp ▸ hev
    have hnot : ¬Concerns addr (.awaitSuspend ptr h timeoutMs bufferSelect) := Ne.symm hat
    have hunchanged := unchangedAt_step hev hnot hring
    refine ⟨hunchanged.operation ▸ hop, hunchanged.outstanding _ fun data hdata => ?_,
      hunchanged.outstanding _ fun data hdata => ?_⟩
    · rw [of_decide_eq_true hdata, untag_of_free hfree]
    · rw [of_decide_eq_true hdata, untag_tag hfree]
  constructor
  case ring => exact hringInv
  case select =>
    intro addr hselect
    by_cases hat : addr = ptr.addr
    · exact ⟨ptr, by rw [hsame.evOp]; exact hne, hat.symm⟩
    · rw [hsame.evOp]
      exact hinv.select addr (by simpa [hat] using hselect)
  case once =>
    intro addr op hop
    by_cases hat : addr = ptr.addr
    · subst hat
      rw [hpending, hpending, hnone _ (by simp [untag_of_free (addr_free ptr)]),
        hnone _ (by simp [untag_tag (addr_free ptr)])]
      have hne' : tag ptr.addr ≠ ptr.addr := tag_ne (addr_free ptr)
      by_cases ht : timeoutMs > 0 <;> simp [ht, hne', Ne.symm hne']
    · obtain ⟨hold, hio, htimeout⟩ := hother addr op hat hop
      rw [hio, htimeout]
      exact hinv.once addr op hold
  case results =>
    intro c hc hlive
    rw [hsame.cq] at hc
    rw [hsame.operations] at hlive
    have hat := hcq c hc
    simpa [hat] using hinv.results c hc (by simpa [Ring.setOperation, hat] using hlive)
  case selected =>
    intro c hc hbuffer
    rw [hsame.cq] at hc
    simpa [hcq c hc] using hinv.selected c hc hbuffer
  case attached =>
    intro addr op hop hbuf
    by_cases hat : addr = ptr.addr
    · subst hat
      rw [hsame.operations] at hop
      obtain rfl : awaited h timeoutMs = op := by simpa [Ring.setOperation] using hop
      rw [hasBuf_awaited] at hbuf
      cases hbuf
    · obtain ⟨hold, hio, -⟩ := hother addr op hat hop
      rw [hio]
      simpa [hat] using hinv.attached addr op hold hbuf
  case pair =>
    intro addr htimeout
    by_cases hat : addr = ptr.addr
    · simp [hat] at htimeout
    · simpa [hat] using hinv.pair addr (by simpa [hat] using htimeout)

/-! ### The kernel's completions -/

/-- What the kernel may post. -/
theorem allows_spec {c : Cqe} (h : σ.allows c = true) :
    (c.hasBuffer = true → isTagged c.userData = false ∧ σ.bufferSelect (untag c.userData) = true ∧
        0 ≤ c.res ∧ c.bid ∈ σ.available) ∧
      (isTagged c.userData = true → c.res = -eTime →
        σ.ioRes (untag c.userData) = none ∨ σ.ioRes (untag c.userData) = some (-eCanceled)) ∧
      (isTagged c.userData = false → σ.timeoutRes (untag c.userData) = some (-eTime) →
        c.res = -eCanceled) := by
  obtain ⟨hbuffer, hpair⟩ := Bool.and_eq_true_iff.mp h
  refine ⟨fun hb => ?_, fun ht hres => ?_, fun ht htimeout => ?_⟩
  · simp only [hb, Bool.not_true, Bool.false_or, Bool.and_eq_true, Bool.not_eq_true',
      decide_eq_true_eq, List.contains_iff_mem] at hbuffer
    exact ⟨hbuffer.1.1.1, hbuffer.1.1.2, hbuffer.1.2, hbuffer.2⟩
  · rw [show c.isTimeoutCqe = true from ht] at hpair
    simp only [hres, ne_eq, not_true, decide_false, Bool.false_or, if_true, Bool.or_eq_true,
      decide_eq_true_eq] at hpair
    exact hpair
  · rw [show c.isTimeoutCqe = false from ht] at hpair
    rcases Bool.or_eq_true_iff.mp hpair with hpair | hpair
    · exact absurd htimeout (of_decide_eq_true hpair)
    · exact of_decide_eq_true hpair

/-- What a completion changes outside the ring. -/
theorem onComplete_spec (σ : BufferState) (ring : Ring) (c : Cqe) :
    (σ.onComplete ring c).ring = ring ∧ (σ.onComplete ring c).bufferSelect = σ.bufferSelect ∧
      (σ.onComplete ring c).results = σ.results ∧
      (σ.onComplete ring c).available =
        (if c.hasBuffer then σ.available.erase c.bid else σ.available) ∧
      (σ.onComplete ring c).ioRes =
        (if isTagged c.userData then σ.ioRes
          else Function.update σ.ioRes (untag c.userData) (some c.res)) ∧
      (σ.onComplete ring c).timeoutRes =
        (if isTagged c.userData then Function.update σ.timeoutRes (untag c.userData) (some c.res)
          else σ.timeoutRes) := by
  simp only [BufferState.onComplete]
  cases ht : isTagged c.userData with
  | true =>
    rw [show c.isTimeoutCqe = true from ht]
    exact ⟨rfl, rfl, rfl, rfl, rfl, rfl⟩
  | false =>
    rw [show c.isTimeoutCqe = false from ht]
    exact ⟨rfl, rfl, rfl, rfl, rfl, rfl⟩

/-- The completion of an entry that is in flight is not in the queue yet. -/
private theorem KernelInv.ne_of_mem_inFlight (hinv : KernelInv σ) {data : Addr}
    (hmem : data ∈ σ.ring.inFlight)
    {d : Cqe} (hd : d ∈ σ.ring.cq) (hlive : σ.ring.operations (untag d.userData) ≠ none) :
    d.userData ≠ data := by
  intro heq
  obtain ⟨op, hop⟩ := Option.ne_none_iff_exists'.mp hlive
  have htwo : 2 ≤ outstanding (fun data => data = d.userData) σ.ring :=
    two_le_outstanding hmem hd (by simp [heq]) (by simp)
  obtain ⟨hio, htimeout⟩ := hinv.once _ op hop
  rcases eq_untag_or_eq_tag (by decide) d.userData with h | h
  · rw [← h] at hio
    omega
  · rw [← h] at htimeout
    omega

/-- A completion that the kernel may post. -/
theorem KernelInv.complete {c : Cqe} (hinv : KernelInv σ)
    (hstep : σ.step (.complete c) = some τ) : KernelInv τ := by
  obtain ⟨hallows, h⟩ := Option.ite_none_right_eq_some.mp hstep
  obtain ⟨ring, hring, rfl⟩ := Option.map_eq_some_iff.mp h
  have hringInv := ringInv_step _ _ _ hinv.ring hring
  obtain ⟨hmem, ⟨⟩⟩ := Option.ite_none_right_eq_some.mp hring
  obtain ⟨hbuffer, hexpired, hcanceled⟩ := allows_spec hallows
  obtain ⟨hring', hselect', hresults', havailable', hio', htimeout'⟩ := onComplete_spec σ
    { σ.ring with inFlight := σ.ring.inFlight.erase c.userData, cq := σ.ring.cq ++ [c] } c
  have hpending := fun p => outstanding_complete (c := c) p hmem
  constructor
  case ring => rwa [hring']
  case select =>
    rw [hselect', hring']
    exact hinv.select
  case once =>
    rw [hring']
    intro addr op hop
    rw [hpending, hpending]
    exact hinv.once addr op hop
  case results =>
    rw [hring', hio', htimeout']
    intro d hd hlive
    rcases List.mem_append.mp hd with hd | hd
    · have hold := hinv.results d hd hlive
      have hne : isTagged d.userData = isTagged c.userData → untag d.userData ≠ untag c.userData :=
        fun htag huntag => hinv.ne_of_mem_inFlight hmem hd hlive (eq_of_untag huntag htag)
      cases htd : isTagged d.userData <;> cases htc : isTagged c.userData <;> simp_all
    · obtain rfl := List.mem_singleton.mp hd
      cases htag : isTagged d.userData <;> simp
  case selected =>
    rw [hring', hselect']
    intro d hd hb
    rcases List.mem_append.mp hd with hd | hd
    · exact hinv.selected d hd hb
    · obtain rfl := List.mem_singleton.mp hd
      obtain ⟨htag, hselect, hres, _⟩ := hbuffer hb
      exact ⟨htag, hselect, hres⟩
  case attached =>
    rw [hring', hselect', hio']
    intro addr op hop hbuf
    rw [hpending]
    obtain ⟨hzero, hselect, hres, r, hr, hpos⟩ := hinv.attached addr op hop hbuf
    refine ⟨hzero, hselect, hres, r, ?_, hpos⟩
    cases htag : isTagged c.userData with
    | true => simpa using hr
    | false =>
      -- the entry of the operation is completed already
      have hne : addr ≠ untag c.userData := fun heq => by
        rw [untag_of_free (free_of_not_isTagged htag)] at heq
        have := outstanding_pos_of_mem_inFlight (p := fun data => data = addr) hmem (by simp [heq])
        omega
      simpa [hne] using hr
  case pair =>
    rw [hio', htimeout']
    intro addr htimeout
    cases htag : isTagged c.userData with
    | true =>
      simp only [htag, if_true] at htimeout ⊢
      by_cases hat : addr = untag c.userData
      · subst hat
        exact hexpired htag (by simpa using htimeout)
      · exact hinv.pair addr (by simpa [hat] using htimeout)
    | false =>
      simp only [htag, Bool.false_eq_true, if_false] at htimeout ⊢
      by_cases hat : addr = untag c.userData
      · subst hat
        exact .inr (by simp [hcanceled htag htimeout])
      · simpa [hat] using hinv.pair addr htimeout

/-! ### Handling a completion -/

theorem onCqe_rest (σ : BufferState) (ring : Ring) (i : ResultId) :
    (σ.onCqe ring i).ring = ring ∧ (σ.onCqe ring i).bufferSelect = σ.bufferSelect ∧
      (σ.onCqe ring i).available = σ.available ∧ (σ.onCqe ring i).ioRes = σ.ioRes ∧
      (σ.onCqe ring i).timeoutRes = σ.timeoutRes := by
  simp only [BufferState.onCqe]
  split
  · split <;> exact ⟨rfl, rfl, rfl, rfl, rfl⟩
  · exact ⟨rfl, rfl, rfl, rfl, rfl⟩

/-- An operation that has a buffer behind a completion: the entry selected it, and the timeout did
    not replace the result. -/
theorem KernelInv.attached_onCqe {c : Cqe} {op : Operation} (hinv : KernelInv σ)
    (hc : c ∈ σ.ring.cq) (hop : σ.ring.operations (untag c.userData) = some op)
    (hbuf : hasBuf (op.onCqe (isTagged c.userData) c) = true) :
    outstanding (fun data => data = untag c.userData) σ.ring =
        (decide (c.userData = untag c.userData)).toNat ∧
      σ.bufferSelect (untag c.userData) = true ∧
      0 ≤ (op.onCqe (isTagged c.userData) c).result ∧
      ∃ r, σ.ioRes (untag c.userData) = some r ∧ 0 ≤ r := by
  have hresults := hinv.results c hc (by simp [hop])
  rw [onCqe_hasBuf, Bool.or_eq_true_iff] at hbuf
  rw [onCqe_result]
  cases hgives : gives c with
  | true =>
    simp only [gives, Bool.and_eq_true, Bool.not_eq_true', decide_eq_true_eq] at hgives
    obtain ⟨⟨htag, hres⟩, hbuffer⟩ := hgives
    obtain ⟨_, hselect, hpos⟩ := hinv.selected c hc hbuffer
    have hdata : c.userData = untag c.userData := (untag_of_free (free_of_not_isTagged htag)).symm
    have hone := (hinv.once _ op hop).1
    have hpending := outstanding_pos_of_mem_cq (p := fun data => data = untag c.userData) hc
      (by simpa using hdata)
    simp only [htag, Bool.false_eq_true, if_false] at hresults
    refine ⟨?_, hselect, ?_, c.res, hresults, hpos⟩
    · rw [decide_eq_true hdata]
      simp only [Bool.toNat_true]
      omega
    · simpa [htag, hres] using hpos
  | false =>
    obtain ⟨hzero, hselect, hpos, r, hr, hr'⟩ :=
      hinv.attached _ op hop (hbuf.resolve_right (by simp [hgives]))
    have hdata : c.userData ≠ untag c.userData := fun hdata => by
      have := outstanding_pos_of_mem_cq (p := fun data => data = untag c.userData) hc
        (by simpa using hdata)
      omega
    have htag : isTagged c.userData = true := by
      by_contra htag
      exact hdata (untag_of_free (free_of_not_isTagged (by simpa using htag))).symm
    simp only [htag, if_true] at hresults ⊢
    refine ⟨by simp [hzero, hdata], hselect, ?_, r, hr, hr'⟩
    split
    case isTrue hexpired =>
      -- a timeout that expired has cancelled the entry
      rcases hinv.pair _ (hexpired ▸ hresults) with hio | hio
      · simp [hio] at hr
      · rw [hio] at hr
        obtain rfl := Option.some.inj hr
        exact absurd hr' (by decide)
    case isFalse => exact hpos

/-- An iteration over the completion queue. -/
theorem KernelInv.cqe {c : Cqe} {i : ResultId} (hinv : KernelInv σ)
    (hstep : σ.step (.cqe c i) = some τ) : KernelInv τ := by
  obtain ⟨_, h⟩ := Option.ite_none_right_eq_some.mp hstep
  obtain ⟨ring, hring, rfl⟩ := Option.map_eq_some_iff.mp h
  have hcqe := hinv.ring.cqeStep hring
  obtain ⟨hring', hselect', _, hio', htimeout'⟩ := onCqe_rest σ ring i
  have hmem : ∀ d ∈ ring.cq, d ∈ σ.ring.cq := fun d hd => by
    rw [hcqe.cq]
    exact List.mem_cons_of_mem c hd
  -- a completion creates no operation
  have hlive : ∀ addr, ring.operations addr ≠ none → ∃ op, σ.ring.operations addr = some op := by
    intro addr hlive
    obtain ⟨op', hop'⟩ := Option.ne_none_iff_exists'.mp hlive
    rcases hcqe.operations_eq hop' with ⟨hop, _⟩ | ⟨_, op, hop, _⟩
    · exact ⟨op', hop⟩
    · exact ⟨op, hop⟩
  constructor
  case ring =>
    rw [hring']
    exact ringInv_step _ _ _ hinv.ring hring
  case select =>
    rw [hselect', hring', hcqe.evOp]
    exact hinv.select
  case once =>
    rw [hring']
    intro addr op' hop'
    obtain ⟨op, hop⟩ := hlive addr (by simp [hop'])
    have hio := hcqe.outstanding_eq fun data => data = addr
    have htimeout := hcqe.outstanding_eq fun data => data = tag addr
    have honce := hinv.once addr op hop
    omega
  case results =>
    rw [hring', hio', htimeout']
    intro d hd hlive'
    obtain ⟨op, hop⟩ := hlive _ hlive'
    exact hinv.results d (hmem d hd) (by simp [hop])
  case selected =>
    rw [hring', hselect']
    exact fun d hd => hinv.selected d (hmem d hd)
  case attached =>
    rw [hring', hselect', hio']
    intro addr op' hop' hbuf
    have hpending := hcqe.outstanding_eq fun data => data = addr
    rcases hcqe.operations_eq hop' with ⟨hop, _⟩ | ⟨rfl, op, hop, rfl⟩
    · obtain ⟨hzero, hselect, hres, hio⟩ := hinv.attached addr op' hop hbuf
      exact ⟨by omega, hselect, hres, hio⟩
    · -- the buffer was selected for this completion
      have hc : c ∈ σ.ring.cq := by simp [hcqe.cq]
      obtain ⟨hone, hselect, hres, hio⟩ := hinv.attached_onCqe hc hop hbuf
      exact ⟨by omega, hselect, hres, hio⟩
  case pair =>
    rw [hio', htimeout']
    exact hinv.pair

/-! ### Results -/

/-- What the return of a buffer leaves alone. -/
structure Recycled (σ τ : BufferState) (r : IoResult) : Prop where
  ring : SameBut σ.ring τ.ring
  outstanding : ∀ p : Addr → Bool, p 0#64 = false → outstanding p τ.ring = outstanding p σ.ring
  available : τ.available = if r.buffer = none then σ.available else σ.available ++ [r.bid]
  results : τ.results = σ.results
  bufferSelect : τ.bufferSelect = σ.bufferSelect
  ioRes : τ.ioRes = σ.ioRes
  timeoutRes : τ.timeoutRes = σ.timeoutRes

theorem recycle_spec {r : IoResult} (h : σ.recycle r = some τ) : Recycled σ τ r := by
  unfold BufferState.recycle BufferState.recycleBuffer at h
  by_cases hbuffer : r.buffer = none
  · rw [if_neg (by simpa using hbuffer)] at h
    obtain rfl := Option.some.inj h
    exact ⟨.refl _, fun _ _ => rfl, by simp [hbuffer], rfl, rfl, rfl, rfl⟩
  · rw [if_pos hbuffer] at h
    split at h
    · obtain rfl := Option.some.inj h
      exact ⟨.refl _, fun _ _ => rfl, by simp [hbuffer], rfl, rfl, rfl, rfl⟩
    · obtain ⟨ring, hring, rfl⟩ := Option.map_eq_some_iff.mp h
      refine ⟨(getSqeOrSubmit_spec (p := fun _ => true) hring).1, fun p hp => ?_, by simp [hbuffer],
        rfl, rfl, rfl, rfl⟩
      rw [(getSqeOrSubmit_spec (p := p) hring).2, hp]
      rfl

theorem KernelInv.recycle {r : IoResult} (hinv : KernelInv σ) (h : σ.recycle r = some τ) :
    KernelInv τ := by
  have hrecycled := recycle_spec h
  exact hinv.of_same hrecycled.ring (fun p hp _ => hrecycled.outstanding p hp)
    hrecycled.bufferSelect hrecycled.ioRes hrecycled.timeoutRes

theorem KernelInv.setResult (hinv : KernelInv σ) (i : ResultId) (r : Option IoResult) :
    KernelInv (σ.setResult i r) :=
  hinv.of_same (.refl _) (fun _ _ _ => rfl) rfl rfl rfl

/-- Each step keeps it. -/
theorem kernelInv_step (σ : BufferState) (l : BufferLabel) (τ : BufferState) (hinv : KernelInv σ)
    (hstep : σ.step l = some τ) : KernelInv τ := by
  cases l with
  | awaitSuspend ptr h timeoutMs bufferSelect => exact hinv.awaitSuspend hstep
  | complete c => exact hinv.complete hstep
  | runOne =>
    obtain ⟨ring, hring, rfl⟩ := Option.map_eq_some_iff.mp hstep
    obtain ⟨hsame, hpending⟩ := quiet_step (.inl rfl) hring
    exact hinv.of_same hsame (fun p _ hp => hpending p hp) rfl rfl rfl
  | cqe c i => exact hinv.cqe hstep
  | cqAdvance =>
    obtain ⟨ring, hring, rfl⟩ := Option.map_eq_some_iff.mp hstep
    obtain ⟨hsame, hpending⟩ := quiet_step (.inr rfl) hring
    exact hinv.of_same hsame (fun p _ hp => hpending p hp) rfl rfl rfl
  | construct i =>
    obtain ⟨_, ⟨⟩⟩ := Option.ite_none_right_eq_some.mp hstep
    exact hinv.setResult i _
  | moveConstruct i other =>
    simp only [BufferState.step] at hstep
    split at hstep
    case h_2 => cases hstep
    case h_1 r _ _ =>
      obtain rfl := Option.some.inj hstep
      exact (hinv.setResult i _).setResult other _
  | moveAssign i other =>
    simp only [BufferState.step] at hstep
    split at hstep
    case h_2 => cases hstep
    case h_1 r r' _ _ =>
      split at hstep
      · obtain rfl := Option.some.inj hstep
        exact hinv
      · obtain ⟨σ₁, hrecycle, rfl⟩ := Option.map_eq_some_iff.mp hstep
        exact ((hinv.recycle hrecycle).setResult i _).setResult other _
  | destroy i =>
    simp only [BufferState.step] at hstep
    split at hstep
    case h_2 => cases hstep
    case h_1 r _ =>
      obtain ⟨σ₁, hrecycle, rfl⟩ := Option.map_eq_some_iff.mp hstep
      exact (hinv.recycle hrecycle).setResult i _

end Step

end Ppnt.Spec
