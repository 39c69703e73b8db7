import Mathlib.Logic.Function.Basic
import Mathlib.Tactic.Common

/-!
# A resource with at most one owner

Each party is at a control point, and some control points own the resource.  The
resource is in order when at most one party owns it, and the flag that says it is taken
agrees.  A step of one party keeps it, takes it while it is free, drops it, or hands it
to another party.

Main results:

- Theorem `Sole.effect`: a step with an effect on the resource keeps it in order.
- Theorem `Sole.handed`: so does a step that hands it on.
-/

namespace Breadboard
namespace Foundations

universe u v

variable {τ : Type u} {π : Type v} {owns : π → Prop} {pcs : τ → π} {taken taken' : Prop}

/-- At most one party owns the resource, and one does exactly when it is taken. -/
structure Sole (owns : π → Prop) (pcs : τ → π) (taken : Prop) : Prop where
  unique : ∀ t u, owns (pcs t) → owns (pcs u) → t = u
  taken_iff : taken ↔ ∃ t, owns (pcs t)

/-- What a step from one control point to another may do with the resource. -/
inductive Effect (owns : π → Prop) (p q : π) (taken taken' : Prop) : Prop where
  | keep (howns : owns q ↔ owns p) (htaken : taken' ↔ taken)
  | take (hfree : ¬ taken) (howns : owns q) (htaken : taken')
  | drop (howns : owns p) (hnot : ¬ owns q) (hfree : ¬ taken')

theorem sole_of_none (hnone : ∀ t, ¬ owns (pcs t)) (hfree : ¬ taken) : Sole owns pcs taken where
  unique t _ ht := absurd ht (hnone t)
  taken_iff := ⟨fun h => absurd h hfree, fun ⟨t, ht⟩ => absurd ht (hnone t)⟩

theorem Sole.none_of_free (h : Sole owns pcs taken) (hfree : ¬ taken) (t : τ) : ¬ owns (pcs t) :=
  fun ht => hfree (h.taken_iff.mpr ⟨t, ht⟩)

theorem Sole.others (h : Sole owns pcs taken) {t u : τ} (ht : owns (pcs t)) (hne : u ≠ t) :
    ¬ owns (pcs u) :=
  fun hu => hne (h.unique u t hu ht)

variable [DecidableEq τ]

theorem Sole.effect (h : Sole owns pcs taken) {t : τ} {q : π}
    (heffect : Effect owns (pcs t) q taken taken') :
    Sole owns (Function.update pcs t q) taken' := by
  cases heffect with
  | keep howns htaken =>
    have hsame : ∀ u, owns (Function.update pcs t q u) ↔ owns (pcs u) := by
      intro u
      by_cases hu : u = t
      · rw [hu, Function.update_self]
        exact howns
      · rw [Function.update_of_ne hu]
    refine ⟨fun u v hu hv => h.unique u v ((hsame u).mp hu) ((hsame v).mp hv), ?_⟩
    rw [htaken, h.taken_iff]
    exact exists_congr fun u => (hsame u).symm
  | take hfree howns htaken =>
    have hself : ∀ u, owns (Function.update pcs t q u) → u = t := by
      intro u hu
      by_contra hne
      rw [Function.update_of_ne hne] at hu
      exact h.none_of_free hfree u hu
    refine ⟨fun u v hu hv => (hself u hu).trans (hself v hv).symm, iff_of_true htaken ⟨t, ?_⟩⟩
    rw [Function.update_self]
    exact howns
  | drop howns hnot hfree =>
    refine sole_of_none (fun u hu => ?_) hfree
    by_cases hne : u = t
    · rw [hne, Function.update_self] at hu
      exact hnot hu
    · rw [Function.update_of_ne hne] at hu
      exact h.others howns hne hu

/-- One party gives the resource to another that did not own it. -/
theorem Sole.handed (h : Sole owns pcs taken) {t v : τ} {q r : π}
    (howns : owns (pcs t)) (hnot : ¬ owns q) (hnew : owns r) :
    Sole owns (Function.update (Function.update pcs t q) v r) taken := by
  have hself : ∀ u, owns (Function.update (Function.update pcs t q) v r u) → u = v := by
    intro u hu
    by_contra huv
    rw [Function.update_of_ne huv] at hu
    by_cases hut : u = t
    · rw [hut, Function.update_self] at hu
      exact hnot hu
    · rw [Function.update_of_ne hut] at hu
      exact h.others howns hut hu
  refine ⟨fun u w hu hw => (hself u hu).trans (hself w hw).symm,
    iff_of_true (h.taken_iff.mpr ⟨t, howns⟩) ⟨v, ?_⟩⟩
  rw [Function.update_self]
  exact hnew

end Foundations
end Breadboard
