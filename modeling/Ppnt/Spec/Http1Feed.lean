import Ppnt.Spec.Http1ReadLoop

/-!
# Feeding a parser

A session reads a message piece by piece, and nobody knows in advance where the next read ends.
`HasRead` says what is known of the session at each point: the parser has been fed the pieces so
far, and the flags are up whose marks are among them.
-/

namespace Ppnt.Spec

open Ppnt.Native Spans

variable {P : Llhttp} {σ : Type} {L : StartLine σ} {atHead : P.State → Prop} {final : LlhttpErrno}

/-- The state of the parser behind the pieces. -/
def feed (P : Llhttp) (a : List (List HTok)) : P.State :=
  a.foldl (fun st c => (P.execute st (bytesOf c)).1) P.init

/-- A parser that tracks a message tracks the rest of it behind the first pieces. -/
private theorem tracks_append {st : P.State} {o : Option DataCb} {a b : List (List HTok)}
    (h : Tracks P atHead final st o (a ++ b)) :
    Tracks P atHead final (a.foldl (fun st c => (P.execute st (bytesOf c)).1) st)
      (openAfter o (opsOf a.flatten)) b := by
  induction a generalizing st o with
  | nil => simpa using h
  | cons c a ih =>
    obtain ⟨-, -, -, hrest⟩ := h
    simpa [openAfter_append] using ih hrest

/-- Some pieces of a message, and the rest of it as one more. -/
private theorem exists_pieces {m rest : List HTok} {a : List (List HTok)} (hne : ∀ c ∈ a, c ≠ [])
    (hm : a.flatten ++ rest = m) : ∃ b, Pieces m (a ++ b) := by
  by_cases hrest : rest = []
  · exact ⟨[], by simpa [hrest] using hm, by simpa using hne⟩
  · refine ⟨[rest], by simpa using hm, fun c hc => ?_⟩
    rcases List.mem_append.mp hc with hc | hc
    · exact hne c hc
    · exact List.mem_singleton.mp hc ▸ hrest

/-- The session has read `received` since `reset_state`, which is the beginning of the message
    `m`. -/
def HasRead (m : List HTok) (received : List UInt8) (s : H1Session P σ) : Prop :=
  ∃ a rest, a.flatten ++ rest = m ∧ (∀ c ∈ a, c ≠ []) ∧ received = bytesOf a.flatten ∧
    s.parser = feed P a ∧ ∀ mark, s.flag mark = true ↔ .mark mark ∈ opsOf a.flatten

theorem hasRead_reset (m : List HTok) : HasRead m [] (H1Session.resetState P L) :=
  ⟨[], m, rfl, by simp, rfl, rfl, fun mark => by cases mark <;>
    simp [H1Session.flag, H1Session.resetState]⟩

/-- One more read. -/
theorem HasRead.execute {m : List HTok} {received bytes : List UInt8} {s : H1Session P σ}
    (hparses : Parses P atHead final m) (h : HasRead m received s) (hbytes : bytes ≠ [])
    (hpre : received ++ bytes <+: bytesOf m) :
    HasRead m (received ++ bytes) (s.execute L bytes).1 := by
  obtain ⟨a, rest, rfl, hne, rfl, hparser, hflag⟩ := h
  -- the tokens of the bytes that are read
  have hrest : bytes <+: bytesOf rest := by
    rw [bytesOf_append] at hpre
    exact (List.prefix_append_right_inj _).mp hpre
  obtain ⟨c, rest', rfl, rfl⟩ : ∃ c rest', c ++ rest' = rest ∧ bytesOf c = bytes := by
    refine ⟨rest.take bytes.length, rest.drop bytes.length, List.take_append_drop _ _, ?_⟩
    rw [bytesOf, List.map_take, ← bytesOf]
    exact (List.prefix_iff_eq_take.mp hrest).symm
  have hc : c ≠ [] := fun hnil => hbytes (by simp [hnil, bytesOf])
  have hne' : ∀ c' ∈ a ++ [c], c' ≠ [] := fun c' hc' => by
    rcases List.mem_append.mp hc' with hmem | hmem
    · exact hne c' hmem
    · exact List.mem_singleton.mp hmem ▸ hc
  have hm : (a ++ [c]).flatten ++ rest' = a.flatten ++ (c ++ rest') := by simp
  obtain ⟨b, hpieces⟩ := exists_pieces hne' hm
  have htracks := hparses _ hpieces
  rw [List.append_assoc] at htracks
  obtain ⟨hcbs, -⟩ := tracks_append htracks
  rw [← feed, ← hparser] at hcbs
  refine ⟨a ++ [c], rest', by simp, hne', by simp, ?_, fun mark => ?_⟩
  · simp [H1Session.execute, hparser, feed]
  · -- the marks of this read are added
    have hadd := foldl_callback_flag L mark s (P.execute s.parser (bytesOf c)).2.1
    rw [hcbs, mark_mem_deliver, hflag mark] at hadd
    have hsame : (s.execute L (bytesOf c)).1.flag mark =
        ((deliver (openAfter none (opsOf a.flatten)) (opsOf c)).foldl (H1Session.callback L) s).flag
        mark := by
      cases mark <;> simp [H1Session.execute, H1Session.flag, hcbs]
    rw [hsame, hadd]
    simp

/-- The end of a message is reported with its last byte. -/
theorem HasRead.whole {line : List HTok} {evs : List Callback} {start : σ} {hs : List HeaderLine}
    {f : Framing} {received : List UInt8} {s : H1Session P σ} (hline : IsLine P L line evs start)
    (h : HasRead (messageToks line hs f) received s) (hcomplete : s.messageComplete = true) :
    received = bytesOf (messageToks line hs f) := by
  obtain ⟨a, rest, hm, hne, rfl, -, hflag⟩ := h
  have hmark := (hflag .onMessageComplete).mp hcomplete
  by_cases hrest : rest = []
  · rw [← hm, hrest, List.append_nil]
  · have hpieces : Pieces (messageToks line hs f) (a ++ [rest]) := by
      refine ⟨by simpa using hm, fun c hc => ?_⟩
      rcases List.mem_append.mp hc with hc | hc
      · exact hne c hc
      · exact List.mem_singleton.mp hc ▸ hrest
    exact absurd (rest_eq_nil hline hpieces rfl hmark) (by simp)

end Ppnt.Spec
