import Ppnt.ForStd.Bytes

/-!
# Decoders for length-prefixed wire formats

Decoders are functions `List UInt8 → Option (α × List UInt8)` that return the bytes they did
not consume.  Each decoder comes with the lemma that it reads back what its encoder wrote and
leaves the following bytes alone; `many` reads a whole block as a sequence of items.  The lemmas
`eq_of_` say that a decoder accepts nothing else.
-/

namespace Wire

/-- Split off the first `n` bytes, when there are that many. -/
def take (n : Nat) (bs : List UInt8) : Option (List UInt8 × List UInt8) :=
  if n ≤ bs.length then some (bs.take n, bs.drop n) else none

/-- An `n`-byte unsigned integer in network order. -/
def uint (n : Nat) (bs : List UInt8) : Option (Nat × List UInt8) :=
  (take n bs).map fun p => (Bytes.ofBE p.1, p.2)

/-- A byte vector whose length stands before it in `n` bytes. -/
def vec (n : Nat) (bs : List UInt8) : Option (List UInt8 × List UInt8) :=
  (uint n bs).bind fun p => take p.1 p.2

/-- The encoding `vec` reads. -/
def encodeVec (n : Nat) (payload : List UInt8) : List UInt8 :=
  Bytes.toBE n payload.length ++ payload

/-- Read items until no byte is left; `fuel` bounds the number of items. -/
def many {α : Type} (item : List UInt8 → Option (α × List UInt8)) :
    Nat → List UInt8 → Option (List α)
  | _, [] => some []
  | 0, _ :: _ => none
  | fuel + 1, b :: bs =>
    (item (b :: bs)).bind fun p => (many item fuel p.2).map (p.1 :: ·)

@[simp] theorem take_append (front rest : List UInt8) :
    take front.length (front ++ rest) = some (front, rest) := by
  simp [take]

/-- `take_append` for a width known only up to an equation. -/
theorem take_append_of_length {n : Nat} {front : List UInt8} (h : front.length = n)
    (rest : List UInt8) : take n (front ++ rest) = some (front, rest) := by
  subst h
  exact take_append front rest

theorem uint_append {n v : Nat} (h : v < 256 ^ n) (rest : List UInt8) :
    uint n (Bytes.toBE n v ++ rest) = some (v, rest) := by
  rw [uint, take_append_of_length (Bytes.length_toBE n v), Option.map_some, Bytes.ofBE_toBE h]

theorem vec_append {n : Nat} {payload : List UInt8} (h : payload.length < 256 ^ n)
    (rest : List UInt8) : vec n (encodeVec n payload ++ rest) = some (payload, rest) := by
  rw [vec, encodeVec, List.append_assoc, uint_append h, Option.bind_some, take_append]

@[simp] theorem length_encodeVec (n : Nat) (payload : List UInt8) :
    (encodeVec n payload).length = n + payload.length := by
  simp [encodeVec]

/-- A block of encoded items reads back as exactly those items. -/
theorem many_flatMap {α : Type} {item : List UInt8 → Option (α × List UInt8)}
    {enc : α → List UInt8} (xs : List α) (fuel : Nat)
    (hitem : ∀ x ∈ xs, ∀ rest, item (enc x ++ rest) = some (x, rest))
    (hne : ∀ x ∈ xs, enc x ≠ []) (hfuel : xs.length ≤ fuel) :
    many item fuel (xs.flatMap enc) = some xs := by
  induction xs generalizing fuel with
  | nil => cases fuel <;> rfl
  | cons x xs ih =>
    cases fuel with
    | zero => simp at hfuel
    | succ fuel =>
      have hx := hitem x List.mem_cons_self (xs.flatMap enc)
      have hrec := ih fuel (fun y hy => hitem y (List.mem_cons_of_mem x hy))
        (fun y hy => hne y (List.mem_cons_of_mem x hy)) (by simpa using hfuel)
      rw [List.flatMap_cons]
      -- the block is not empty, so `many` runs the item decoder on it
      cases henc : enc x with
      | nil => exact absurd henc (hne x List.mem_cons_self)
      | cons b bs =>
        rw [henc] at hx
        rw [List.cons_append] at hx ⊢
        rw [many, hx, Option.bind_some, hrec, Option.map_some]

/-- Every item takes at least one byte, so the block's length is fuel enough. -/
theorem length_le_length_flatMap {α : Type} {enc : α → List UInt8} (xs : List α)
    (hne : ∀ x ∈ xs, enc x ≠ []) : xs.length ≤ (xs.flatMap enc).length := by
  induction xs with
  | nil => simp
  | cons x xs ih =>
    have hx := List.length_pos_of_ne_nil (hne x List.mem_cons_self)
    have hxs := ih fun y hy => hne y (List.mem_cons_of_mem x hy)
    rw [List.flatMap_cons, List.length_append, List.length_cons]
    omega

/-! ## What a decoder accepts -/

theorem eq_of_take {n : Nat} {bs front rest : List UInt8} (h : take n bs = some (front, rest)) :
    bs = front ++ rest ∧ front.length = n := by
  simp only [take] at h
  split at h
  case isTrue hle =>
    obtain ⟨rfl, rfl⟩ := Prod.mk.inj (Option.some.inj h)
    exact ⟨(List.take_append_drop n bs).symm, List.length_take_of_le hle⟩
  case isFalse => simp at h

theorem eq_of_uint {n v : Nat} {bs rest : List UInt8} (h : uint n bs = some (v, rest)) :
    bs = Bytes.toBE n v ++ rest ∧ v < 256 ^ n := by
  obtain ⟨⟨front, rest'⟩, htake, heq⟩ := Option.map_eq_some_iff.mp h
  obtain ⟨rfl, rfl⟩ := Prod.mk.inj heq
  obtain ⟨rfl, rfl⟩ := eq_of_take htake
  exact ⟨by rw [Bytes.toBE_ofBE], Bytes.ofBE_lt front⟩

theorem eq_of_vec {n : Nat} {bs payload rest : List UInt8} (h : vec n bs = some (payload, rest)) :
    bs = encodeVec n payload ++ rest ∧ payload.length < 256 ^ n := by
  obtain ⟨⟨v, rest'⟩, huint, htake⟩ := Option.bind_eq_some_iff.mp h
  obtain ⟨rfl, hlt⟩ := eq_of_uint huint
  obtain ⟨rfl, rfl⟩ := eq_of_take htake
  exact ⟨by rw [encodeVec, List.append_assoc], hlt⟩

/-- A block that is read as items is their concatenation. -/
theorem eq_of_many {α : Type} {item : List UInt8 → Option (α × List UInt8)}
    (enc : α → List UInt8) (hitem : ∀ bs x rest, item bs = some (x, rest) → bs = enc x ++ rest)
    {fuel : Nat} {bs : List UInt8} {xs : List α} (h : many item fuel bs = some xs) :
    bs = xs.flatMap enc := by
  induction fuel generalizing bs xs with
  | zero =>
    cases bs with
    | nil =>
      obtain rfl := Option.some.inj h
      rfl
    | cons b bs => simp [many] at h
  | succ fuel ih =>
    cases bs with
    | nil =>
      obtain rfl := Option.some.inj h
      rfl
    | cons b bs =>
      obtain ⟨⟨x, rest⟩, hx, hrest⟩ := Option.bind_eq_some_iff.mp h
      obtain ⟨xs', hxs', rfl⟩ := Option.map_eq_some_iff.mp hrest
      rw [hitem _ _ _ hx, List.flatMap_cons]
      exact congrArg (enc x ++ ·) (ih hxs')

end Wire
