import Mathlib.Data.List.TakeDrop
import Ppnt.Native.HttpWrite

/-!
# Short writes

A write may accept a part of what it is offered.  `write_all` goes on with the rest, while
`Http1Session::request` and `flush_writes` do not look at the count.
-/

namespace Ppnt.Spec

open Ppnt.Native

/-- What a write of some bytes may return: an error, or a number of bytes that is neither zero nor
    more than it was offered. -/
def MayReturn (data : List UInt8) (write : Write) : Prop :=
  ∀ n, write = .ok n → 1 ≤ n ∧ n ≤ data.length

/-- `write_all` returns when everything has been accepted. -/
theorem writeAll_sent (buf : List UInt8) (writes : List Write)
    (hok : (writeAll buf writes).1 = some (.ok ())) : (writeAll buf writes).2 = buf := by
  induction writes generalizing buf with
  | nil =>
    simp only [writeAll] at hok ⊢
    split at hok
    case isTrue hempty => exact hempty.symm
    case isFalse => simp at hok
  | cons write writes ih =>
    unfold writeAll at hok ⊢
    split at hok
    case isTrue hempty => simp [hempty]
    case isFalse hne =>
      cases write with
      | error e => simp at hok
      | ok n =>
        simp only at hok
        split at hok
        case isTrue => simp [makeErrResult] at hok
        case isFalse hpos =>
          simp only [hne, hpos, if_false]
          rw [ih _ hok, List.take_append_drop]

/-- Everything that a flush has sent was produced, and nothing more. -/
private theorem length_flushWrites_le (sends : List (List UInt8)) (writes : List Write) :
    (flushWrites sends writes).2.length ≤ sends.flatten.length := by
  induction sends generalizing writes with
  | nil => simp [flushWrites]
  | cons data sends ih =>
    match writes with
    | [] => simp [flushWrites]
    | .error e :: writes => simp [flushWrites]
    | .ok n :: writes =>
      have := ih writes
      simp only [flushWrites, List.length_append, List.length_take, List.flatten_cons]
      omega

/-- A flush sends everything if and only if no write is short. -/
private theorem flushWrites_sent_iff (sends : List (List UInt8)) (writes : List Write)
    (hmay : ∀ pair ∈ sends.zip writes, MayReturn pair.1 pair.2)
    (hok : (flushWrites sends writes).1 = some (.ok ())) :
    (flushWrites sends writes).2 = sends.flatten ↔
      ∀ pair ∈ sends.zip writes, pair.2 = .ok pair.1.length := by
  induction sends generalizing writes with
  | nil => simp [flushWrites]
  | cons data sends ih =>
    match writes with
    | [] => simp [flushWrites] at hok
    | .error e :: writes => simp [flushWrites] at hok
    | .ok n :: writes =>
      have hle : n ≤ data.length := (hmay (data, .ok n) (by simp) n rfl).2
      have hrest := ih writes (fun pair hpair => hmay pair (by simp [hpair])) hok
      simp only [flushWrites, List.flatten_cons, List.zip_cons_cons, List.forall_mem_cons, ← hrest,
        Except.ok.injEq]
      constructor
      · intro heq
        -- by length: what follows is at most what was to follow
        have hlength := congrArg List.length heq
        have hshort := length_flushWrites_le sends writes
        simp only [List.length_append, List.length_take] at hlength
        have hfull : n = data.length := by omega
        refine ⟨hfull, ?_⟩
        rw [hfull, List.take_length] at heq
        exact List.append_cancel_left heq
      · rintro ⟨rfl, heq⟩
        rw [List.take_length, heq]

/-- When `request` goes on to read the response the transport has accepted the whole request, and
    when `flush_writes` returns it has accepted all that nghttp2 produced, exactly if each write has
    accepted all it was offered. -/
theorem sent_exactly_iff (r : OutgoingRequest) (write : Write) (sends : List (List UInt8))
    (writes : List Write) :
    (MayReturn r.serializeToH1 write → (sendRequest r write).1 = .ok () →
        ((sendRequest r write).2 = r.serializeToH1 ↔ write = .ok r.serializeToH1.length)) ∧
      ((∀ pair ∈ sends.zip writes, MayReturn pair.1 pair.2) →
        (flushWrites sends writes).1 = some (.ok ()) →
        ((flushWrites sends writes).2 = sends.flatten ↔
          ∀ pair ∈ sends.zip writes, pair.2 = .ok pair.1.length)) := by
  refine ⟨fun hmay hok => ?_, flushWrites_sent_iff sends writes⟩
  cases write with
  | error e => simp [sendRequest] at hok
  | ok n =>
    have hle := (hmay n rfl).2
    rw [sendRequest, Except.ok.injEq]
    exact ⟨fun heq => hle.antisymm ((List.take_eq_self_iff _).mp heq), fun heq => by simp [heq]⟩

/-- A request that is written at once, and two frames in two writes. -/
theorem sent_exactly_iff_whole :
    (sendRequest { url := {} } (.ok (OutgoingRequest.serializeToH1 { url := {} }).length)).2 =
        OutgoingRequest.serializeToH1 { url := {} } ∧
      (flushWrites [[1, 2], [3]] [.ok 2, .ok 1]).2 = [1, 2, 3] := by
  obtain ⟨hrequest, hframes⟩ := sent_exactly_iff { url := {} }
    (.ok (OutgoingRequest.serializeToH1 { url := {} }).length) [[1, 2], [3]] [.ok 2, .ok 1]
  refine ⟨(hrequest ?_ rfl).mpr rfl, (hframes ?_ rfl).mpr (by decide)⟩
  · rintro n hn
    obtain rfl := Except.ok.inj hn
    decide
  · simp [MayReturn]

/-- The kernel takes one byte of a request, and one of a frame of two. -/
theorem bytes_lost :
    sendRequest { url := {} } (.ok 1) = (.ok (), ascii "G") ∧
      flushWrites [[1, 2], [3]] [.ok 1, .ok 1] = (some (.ok ()), [1, 3]) := by
  exact ⟨by decide, rfl⟩

end Ppnt.Spec
