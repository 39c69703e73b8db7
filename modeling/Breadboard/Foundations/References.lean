import Mathlib.Data.Fintype.EquivFin
import Mathlib.Data.List.Range
import Mathlib.Logic.Function.Basic
import Mathlib.Tactic.Common

/-!
# Resources with one reference each

A resource in use has an owner, and somewhere there is a reference to it: in a slot
of a table, or in the hands of a task that is about to record or to release it.
When every resource in use has exactly one reference, and every reference names the
owner of a resource in use, then a reference can be passed on, a free resource taken
by whoever has no reference, and a resource released by whoever holds its reference.

Main results:

- Theorems `Borne.take`, `Borne.pass` and `Borne.drop`: the three
  operations keep the references exact.
- Theorem `Borne.exists_free`: a table with a slot for each resource has a free
  slot for a reference that is held elsewhere.
-/

namespace Breadboard
namespace Foundations

universe u v w

/-! ## Tables of slots -/

section Tables

variable {α : Type u}

/-- The first free slot of a table of `n` slots. -/
def allocSlot (n : Nat) (table : Nat → Option α) : Option Nat :=
  (List.range n).find? fun j => (table j).isNone

/-- The first used slot of a table of `n` slots that matches. -/
def findSlot (n : Nat) (table : Nat → Option α) (p : α → Bool) : Option (Nat × α) :=
  (List.range n).findSome? fun j =>
    match table j with
    | none => none
    | some slot => if p slot then some (j, slot) else none

variable {n j : Nat} {table : Nat → Option α} {p : α → Bool} {slot : α}

theorem allocSlot_eq_some (h : allocSlot n table = some j) : j < n ∧ table j = none := by
  refine ⟨List.mem_range.mp (List.mem_of_find?_eq_some h), ?_⟩
  simpa using List.find?_some h

theorem allocSlot_eq_none (h : allocSlot n table = none) (hj : j < n) : table j ≠ none := by
  have hused := List.find?_eq_none.mp h j (List.mem_range.mpr hj)
  simpa using hused

theorem findSlot_eq_some (h : findSlot n table p = some (j, slot)) :
    table j = some slot ∧ p slot = true := by
  obtain ⟨k, _, hk⟩ := List.exists_of_findSome?_eq_some h
  split at hk
  · cases hk
  · rename_i slot' hslot
    split at hk
    · rename_i hp
      cases hk
      exact ⟨hslot, hp⟩
    · cases hk

theorem findSlot_eq_none (h : findSlot n table p = none) (hj : j < n)
    (hslot : table j = some slot) : p slot = false := by
  have hnone := List.findSome?_eq_none_iff.mp h j (List.mem_range.mpr hj)
  rw [hslot] at hnone
  by_contra hp
  simp [Bool.eq_true_of_not_eq_false hp] at hnone

end Tables

/-! ## One reference each -/

section Borne

variable {ι : Type u} {κ : Type v} {ω : Type w}

/-- Each resource in use has exactly one reference, and references name its owner. -/
structure Borne (owner : κ → Option ω) (refers : ι → Option (κ × ω)) : Prop where
  inj : ∀ v w k a b, refers v = some (k, a) → refers w = some (k, b) → v = w
  owned : ∀ v k a, refers v = some (k, a) → owner k = some a
  total : ∀ k a, owner k = some a → ∃ v, refers v = some (k, a)

namespace Borne

variable {owner owner' : κ → Option ω} {refers refers' : ι → Option (κ × ω)} {v w : ι} {k : κ}
  {a : ω}

theorem congr (h : Borne owner refers) (howner : ∀ k, owner' k = owner k)
    (hrefers : ∀ u, refers' u = refers u) : Borne owner' refers' := by
  have howner' : owner' = owner := funext howner
  have hrefers' : refers' = refers := funext hrefers
  rw [howner', hrefers']
  exact h

/-- A free resource is taken, with a first reference. -/
theorem take (h : Borne owner refers) (hfree : owner k = none) (hv : refers v = none)
    (hown : owner' k = some a) (hkeep : ∀ q, q ≠ k → owner' q = owner q)
    (href : refers' v = some (k, a)) (hsame : ∀ u, u ≠ v → refers' u = refers u) :
    Borne owner' refers' := by
  have hother {u : ι} {q : κ} {b : ω} (hu : refers' u = some (q, b)) :
      (u = v ∧ q = k ∧ b = a) ∨ (u ≠ v ∧ q ≠ k ∧ refers u = some (q, b)) := by
    by_cases huv : u = v
    · rw [huv, href] at hu
      cases hu
      exact Or.inl ⟨huv, rfl, rfl⟩
    · rw [hsame u huv] at hu
      refine Or.inr ⟨huv, ?_, hu⟩
      rintro rfl
      have hused := h.owned u q b hu
      rw [hfree] at hused
      cases hused
  refine ⟨fun u w q b c hu hw => ?_, fun u q b hu => ?_, fun q b hq => ?_⟩
  · rcases hother hu with ⟨rfl, rfl, -⟩ | ⟨-, hq, hu⟩
    · rcases hother hw with ⟨rfl, -, -⟩ | ⟨-, hq, -⟩
      · rfl
      · exact absurd rfl hq
    · rcases hother hw with ⟨-, rfl, -⟩ | ⟨-, -, hw⟩
      · exact absurd rfl hq
      · exact h.inj u w q b c hu hw
  · rcases hother hu with ⟨-, rfl, rfl⟩ | ⟨-, hq, hu⟩
    · exact hown
    · rw [hkeep q hq]
      exact h.owned u q b hu
  · by_cases hqk : q = k
    · rw [hqk, hown] at hq
      cases hq
      exact ⟨v, hqk ▸ href⟩
    · rw [hkeep q hqk] at hq
      obtain ⟨u, hu⟩ := h.total q b hq
      refine ⟨u, ?_⟩
      rw [hsame u, hu]
      rintro rfl
      rw [hv] at hu
      cases hu

/-- A reference passes from one bearer to another that has none. -/
theorem pass (h : Borne owner refers) (hv : refers v = some (k, a)) (hw : refers w = none)
    (howner : ∀ q, owner' q = owner q) (hv' : refers' v = none) (hw' : refers' w = some (k, a))
    (hsame : ∀ u, u ≠ v → u ≠ w → refers' u = refers u) : Borne owner' refers' := by
  have hne : v ≠ w := by
    rintro rfl
    rw [hv] at hw
    cases hw
  have hother {u : ι} {q : κ} {b : ω} (hu : refers' u = some (q, b)) :
      (u = w ∧ q = k ∧ b = a) ∨ (u ≠ w ∧ u ≠ v ∧ refers u = some (q, b)) := by
    by_cases huw : u = w
    · rw [huw, hw'] at hu
      cases hu
      exact Or.inl ⟨huw, rfl, rfl⟩
    · by_cases huv : u = v
      · rw [huv, hv'] at hu
        cases hu
      · exact Or.inr ⟨huw, huv, (hsame u huv huw).symm.trans hu⟩
  refine ⟨fun u u' q b c hu hu' => ?_, fun u q b hu => ?_, fun q b hq => ?_⟩
  · rcases hother hu with ⟨rfl, rfl, -⟩ | ⟨-, huv, hu⟩
    · rcases hother hu' with ⟨rfl, -, -⟩ | ⟨-, huv', hu'⟩
      · rfl
      · exact absurd (h.inj u' v q c a hu' hv) huv'
    · rcases hother hu' with ⟨-, rfl, -⟩ | ⟨-, -, hu'⟩
      · exact absurd (h.inj u v q b a hu hv) huv
      · exact h.inj u u' q b c hu hu'
  · rw [howner q]
    rcases hother hu with ⟨-, rfl, rfl⟩ | ⟨-, -, hu⟩
    · exact h.owned v q b hv
    · exact h.owned u q b hu
  · rw [howner q] at hq
    obtain ⟨u, hu⟩ := h.total q b hq
    by_cases huv : u = v
    · rw [huv, hv] at hu
      cases hu
      exact ⟨w, hw'⟩
    · refine ⟨u, ?_⟩
      rw [hsame u huv, hu]
      rintro rfl
      rw [hw] at hu
      cases hu

/-- Whoever holds the reference releases the resource. -/
theorem drop (h : Borne owner refers) (hv : refers v = some (k, a)) (hfree : owner' k = none)
    (hkeep : ∀ q, q ≠ k → owner' q = owner q) (hv' : refers' v = none)
    (hsame : ∀ u, u ≠ v → refers' u = refers u) : Borne owner' refers' := by
  have hother {u : ι} {q : κ} {b : ω} (hu : refers' u = some (q, b)) :
      q ≠ k ∧ refers u = some (q, b) := by
    by_cases huv : u = v
    · rw [huv, hv'] at hu
      cases hu
    · rw [hsame u huv] at hu
      refine ⟨?_, hu⟩
      rintro rfl
      exact huv (h.inj u v q b a hu hv)
  refine ⟨fun u u' q b c hu hu' => h.inj u u' q b c (hother hu).2 (hother hu').2,
    fun u q b hu => ?_, fun q b hq => ?_⟩
  · rw [hkeep q (hother hu).1]
    exact h.owned u q b (hother hu).2
  · have hqk : q ≠ k := by
      rintro rfl
      rw [hfree] at hq
      cases hq
    rw [hkeep q hqk] at hq
    obtain ⟨u, hu⟩ := h.total q b hq
    refine ⟨u, ?_⟩
    rw [hsame u, hu]
    rintro rfl
    rw [hv] at hu
    cases hu
    exact hqk rfl

/-- With a slot for each resource, a reference held elsewhere finds a free slot. -/
theorem exists_free {owner : Nat → Option ω} {refers : ι → Option (Nat × ω)} {n i : Nat} {a : ω}
    (h : Borne owner refers) (slot : Nat → ι) (hslot : Function.Injective slot)
    (hlt : ∀ k, owner k ≠ none → k < n) (hv : refers v = some (i, a)) (hapart : ∀ j, slot j ≠ v) :
    ∃ j, j < n ∧ refers (slot j) = none := by
  by_contra hfull
  have hused (j : Fin n) : ∃ r, refers (slot j) = some r := by
    cases hr : refers (slot j) with
    | none => exact absurd ⟨j, j.isLt, hr⟩ hfull
    | some r => exact ⟨r, rfl⟩
  choose r hr using hused
  have hr_lt (j : Fin n) : (r j).1 < n := by
    apply hlt
    rw [h.owned (slot j) (r j).1 (r j).2 (hr j)]
    nofun
  -- the resources of the slots are distinct, so they are all there are
  have hinj : Function.Injective fun j : Fin n => (⟨(r j).1, hr_lt j⟩ : Fin n) := by
    intro j j' hjj'
    have hk : (r j).1 = (r j').1 := congrArg Fin.val hjj'
    have hr' : refers (slot j') = some ((r j).1, (r j').2) := by rw [hr j', hk]
    exact Fin.ext (hslot (h.inj (slot j) (slot j') (r j).1 _ _ (hr j) hr'))
  have hi : i < n := by
    apply hlt
    rw [h.owned v i a hv]
    nofun
  obtain ⟨j, hj⟩ := Finite.injective_iff_surjective.mp hinj ⟨i, hi⟩
  have hji : (r j).1 = i := congrArg Fin.val hj
  have hr' : refers (slot j) = some (i, (r j).2) := by rw [hr j, ← hji]
  exact hapart j (h.inj (slot j) v i _ a hr' hv)

end Borne

end Borne

end Foundations
end Breadboard
