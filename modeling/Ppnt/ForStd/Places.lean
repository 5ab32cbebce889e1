import Mathlib.Logic.ExistsUnique

/-!
# Things in one place

A relation tells where a thing is.  What moves things from one place to another leaves each of them
in exactly one place.

## Key results

- `InOnePlace.eq`: two places of a thing are one
- `InOnePlace.keep`, `InOnePlace.move`: nothing moves, or some of the things at a place move
- `InOnePlace.insert`, `InOnePlace.remove`: a thing comes or goes
-/

/-- The things in `ts` are in exactly one place each, and there are no other things. -/
structure InOnePlace {T P : Type} (ts : T → Prop) (loc : T → P → Prop) : Prop where
  unique : ∀ t, ts t → ∃! p, loc t p
  known : ∀ t p, loc t p → ts t

namespace InOnePlace

variable {T P : Type} {ts ts' : T → Prop} {loc loc' : T → P → Prop}

theorem eq (h : InOnePlace ts loc) {t : T} {p q : P} (hp : loc t p) (hq : loc t q) : p = q :=
  (h.unique t (h.known t p hp)).unique hp hq

theorem keep (h : InOnePlace ts loc) (hsame : ∀ t p, loc' t p ↔ loc t p) : InOnePlace ts loc' where
  unique t ht := (existsUnique_congr fun p => hsame t p).mpr (h.unique t ht)
  known t p hp := h.known t p ((hsame t p).mp hp)

/-- The things in `m` at `p` move to `p'`. -/
theorem move (h : InOnePlace ts loc) (m : T → Prop) (p p' : P)
    (hmoved : ∀ t q, loc' t q ↔ (q = p' ∧ m t ∧ loc t p) ∨ (loc t q ∧ ¬(q = p ∧ m t))) :
    InOnePlace ts loc' := by
  constructor
  · intro t ht
    obtain ⟨q₀, hq₀, hunique⟩ := h.unique t ht
    by_cases hp : m t ∧ loc t p
    · -- the thing is at `p` and nowhere else
      refine ⟨p', (hmoved t p').mpr (.inl ⟨rfl, hp⟩), fun q hq => ?_⟩
      rcases (hmoved t q).mp hq with ⟨hq, _⟩ | ⟨hq, hne⟩
      · exact hq
      · exact absurd ⟨h.eq hq hp.2, hp.1⟩ hne
    · refine ⟨q₀, (hmoved t q₀).mpr (.inr ⟨hq₀, fun hq => hp ⟨hq.2, hq.1 ▸ hq₀⟩⟩), fun q hq => ?_⟩
      rcases (hmoved t q).mp hq with ⟨_, hm, hp'⟩ | ⟨hq, _⟩
      · exact absurd ⟨hm, hp'⟩ hp
      · exact hunique q hq
  · intro t q hq
    rcases (hmoved t q).mp hq with ⟨_, _, hp⟩ | ⟨hq, _⟩
    · exact h.known t p hp
    · exact h.known t q hq

/-- A new thing is put at `p`. -/
theorem insert (h : InOnePlace ts loc) {t : T} {p : P} (hnew : ¬ts t)
    (hts : ∀ u, ts' u ↔ ts u ∨ u = t)
    (hloc : ∀ u q, loc' u q ↔ loc u q ∨ u = t ∧ q = p) : InOnePlace ts' loc' := by
  constructor
  · intro u hu
    by_cases hut : u = t
    · subst hut
      refine ⟨p, (hloc u p).mpr (.inr ⟨rfl, rfl⟩), fun q hq => ?_⟩
      rcases (hloc u q).mp hq with hq | ⟨-, hq⟩
      · exact absurd (h.known u q hq) hnew
      · exact hq
    · have hold := ((hts u).mp hu).resolve_right hut
      have hsame : ∀ q, loc' u q ↔ loc u q := fun q => (hloc u q).trans (by simp [hut])
      exact (existsUnique_congr hsame).mpr (h.unique u hold)
  · intro u q hq
    rcases (hloc u q).mp hq with hq | ⟨hut, -⟩
    · exact (hts u).mpr (.inl (h.known u q hq))
    · exact (hts u).mpr (.inr hut)

/-- The thing at `p` is taken away. -/
theorem remove (h : InOnePlace ts loc) {t : T} {p : P} (hp : loc t p)
    (hts : ∀ u, ts' u ↔ ts u ∧ u ≠ t)
    (hloc : ∀ u q, loc' u q ↔ loc u q ∧ ¬(u = t ∧ q = p)) : InOnePlace ts' loc' := by
  constructor
  · intro u hu
    obtain ⟨hold, hut⟩ := (hts u).mp hu
    have hsame : ∀ q, loc' u q ↔ loc u q := fun q => (hloc u q).trans (by simp [hut])
    exact (existsUnique_congr hsame).mpr (h.unique u hold)
  · intro u q hq
    obtain ⟨hq, hne⟩ := (hloc u q).mp hq
    refine (hts u).mpr ⟨h.known u q hq, ?_⟩
    rintro rfl
    exact hne ⟨rfl, h.eq hq hp⟩

end InOnePlace
