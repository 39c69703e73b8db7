import Mathlib.Data.List.Sort
import Mathlib.Order.Defs.LinearOrder

/-!
# Selecting in rank order

Elements stand at positions.  One is before another when its rank is lower, or its rank is
the same and it stands further left.  Taking the next element in this order, again and
again, gives the stable sort by rank.

Main results:

- Theorem `ranked_pairwise`: a stable sort is sorted by rank and position.
- Theorem `isNext_of_ranked`: what comes next in the stable sort is the next element.
-/

namespace Breadboard
namespace Foundations
namespace StableSelect

universe u

variable {α : Type u} (rank : α → Nat)

/-- The order of an element and its position. -/
def Before (a b : α × Nat) : Prop :=
  rank a.1 < rank b.1 ∨ rank a.1 = rank b.1 ∧ a.2 < b.2

instance (a b : α × Nat) : Decidable (Before rank a b) :=
  inferInstanceAs (Decidable (_ ∨ _))

/-- The stable sort by rank. -/
def ranked (xs : List (α × Nat)) : List (α × Nat) :=
  xs.mergeSort fun a b => decide (rank a.1 ≤ rank b.1)

/-- The element comes after the last one taken. -/
def After (last : Option (α × Nat)) (x : α × Nat) : Prop :=
  ∀ p ∈ last, Before rank p x

/-- The first element after the last one taken. -/
structure IsNext (xs : List (α × Nat)) (last : Option (α × Nat)) (x : α × Nat) : Prop where
  mem : x ∈ xs
  after : After rank last x
  least : ∀ y ∈ xs, After rank last y → y = x ∨ Before rank x y

variable {rank} {xs : List (α × Nat)}

theorem Before.irrefl (a : α × Nat) : ¬ Before rank a a := by
  rintro (h | h)
  · exact Nat.lt_irrefl _ h
  · exact Nat.lt_irrefl _ h.2

theorem Before.trans {a b c : α × Nat} (h : Before rank a b) (h' : Before rank b c) :
    Before rank a c := by
  unfold Before at *
  omega

theorem Before.asymm {a b : α × Nat} (h : Before rank a b) : ¬ Before rank b a :=
  fun h' => Before.irrefl a (h.trans h')

theorem mem_ranked {x : α × Nat} : x ∈ ranked rank xs ↔ x ∈ xs :=
  List.mem_mergeSort

theorem length_ranked (xs : List (α × Nat)) : (ranked rank xs).length = xs.length :=
  List.length_mergeSort xs

/-- Sorting and forgetting the positions is sorting the elements. -/
theorem map_fst_ranked (xs : List (α × Nat)) : (ranked rank xs).map Prod.fst =
    (xs.map Prod.fst).mergeSort fun a b => decide (rank a ≤ rank b) :=
  List.map_mergeSort fun _ _ _ _ => rfl

theorem rank_total (a b : α × Nat) :
    (decide (rank a.1 ≤ rank b.1) || decide (rank b.1 ≤ rank a.1)) = true := by
  simp only [Bool.or_eq_true, decide_eq_true_eq]
  omega

theorem rank_trans (a b c : α × Nat) (hab : decide (rank a.1 ≤ rank b.1) = true)
    (hbc : decide (rank b.1 ≤ rank c.1) = true) : decide (rank a.1 ≤ rank c.1) = true := by
  simp only [decide_eq_true_eq] at *
  omega

theorem nodup_of_positions (h : xs.Pairwise fun a b => a.2 < b.2) : xs.Nodup := by
  refine h.imp ?_
  rintro a b hlt rfl
  exact Nat.lt_irrefl _ hlt

/-- Two elements of a list stand in it in one order or in the other. -/
theorem pair_sublist {ys : List (α × Nat)} {a b : α × Nat} (ha : a ∈ ys) (hb : b ∈ ys)
    (hne : a ≠ b) : [a, b].Sublist ys ∨ [b, a].Sublist ys := by
  induction ys with
  | nil => cases ha
  | cons y ys ih =>
    rcases List.mem_cons.mp ha with rfl | ha
    · rcases List.mem_cons.mp hb with rfl | hb
      · exact absurd rfl hne
      · exact .inl ((List.singleton_sublist.mpr hb).cons_cons a)
    · rcases List.mem_cons.mp hb with heq | hb
      · rw [heq]
        exact .inr ((List.singleton_sublist.mpr ha).cons_cons y)
      · exact (ih ha hb).imp (·.cons y) (·.cons y)

/-- Elements of a list without repetition stand in it in one order only. -/
theorem not_swapped {ys : List (α × Nat)} (hnodup : ys.Nodup) {a b : α × Nat} (hne : a ≠ b)
    (hab : [a, b].Sublist ys) : ¬ [b, a].Sublist ys := by
  induction ys with
  | nil => cases hab
  | cons y ys ih =>
    obtain ⟨hnew, hnodup⟩ := List.nodup_cons.mp hnodup
    intro hba
    rcases List.sublist_cons_iff.mp hab with hleft | ⟨r, heq, -⟩
    · rcases List.sublist_cons_iff.mp hba with hright | ⟨r, heq, -⟩
      · exact ih hnodup hleft hright
      · cases heq
        exact hnew (hleft.subset (List.mem_cons_of_mem a (List.mem_singleton_self _)))
    · cases heq
      rcases List.sublist_cons_iff.mp hba with hright | ⟨r, heq, -⟩
      · exact hnew (hright.subset (List.mem_cons_of_mem b (List.mem_singleton_self _)))
      · cases heq
        exact hne rfl

/-- A stable sort of elements at increasing positions is sorted by rank and position. -/
theorem ranked_pairwise (h : xs.Pairwise fun a b => a.2 < b.2) :
    (ranked rank xs).Pairwise (Before rank) := by
  have hnodup : (ranked rank xs).Nodup :=
    (List.mergeSort_perm xs _).nodup_iff.mpr (nodup_of_positions h)
  rw [List.pairwise_iff_forall_sublist]
  intro a b hab
  have hrank : rank a.1 ≤ rank b.1 := by
    have hsorted := List.pairwise_iff_forall_sublist.mp
      (List.pairwise_mergeSort rank_trans rank_total xs) hab
    exact of_decide_eq_true hsorted
  have ha : a ∈ xs := mem_ranked.mp (hab.subset (List.mem_cons_self ..))
  have hb : b ∈ xs := mem_ranked.mp (hab.subset (List.mem_cons_of_mem _ (List.mem_singleton_self _)))
  have hne : a ≠ b := by
    rintro rfl
    exact (List.nodup_iff_sublist.mp hnodup a) hab
  rcases Nat.lt_or_eq_of_le hrank with hlt | heq
  · exact .inl hlt
  refine .inr ⟨heq, ?_⟩
  rcases pair_sublist ha hb hne with hleft | hright
  · exact List.pairwise_iff_forall_sublist.mp h hleft
  · -- Of equal rank they would keep the order of their positions.
    have hkept := List.pair_sublist_mergeSort rank_trans rank_total
      (decide_eq_true heq.symm.le) hright
    exact absurd hkept (not_swapped hnodup hne hab)

theorem IsNext.unique {last : Option (α × Nat)} {x y : α × Nat} (hx : IsNext rank xs last x)
    (hy : IsNext rank xs last y) : x = y := by
  rcases hx.least y hy.mem hy.after with heq | hxy
  · exact heq.symm
  · rcases hy.least x hx.mem hx.after with heq | hyx
    · exact heq
    · exact absurd hyx hxy.asymm

/-- Nothing that was taken comes after the last one taken. -/
theorem not_after {pre : List (α × Nat)} (hsorted : pre.Pairwise (Before rank)) {y : α × Nat}
    (hy : y ∈ pre) : ¬ After rank pre.getLast? y := by
  intro hafter
  obtain ⟨init, last, rfl⟩ : ∃ init last, pre = init ++ [last] :=
    ⟨pre.dropLast, pre.getLast (List.ne_nil_of_mem hy), (List.dropLast_append_getLast _).symm⟩
  have hlast := hafter last (by simp)
  rcases List.mem_append.mp hy with hinit | hlast'
  · exact hlast.asymm ((List.pairwise_append.mp hsorted).2.2 y hinit last (List.mem_singleton_self _))
  · rw [List.mem_singleton.mp hlast'] at hlast
    exact hlast.irrefl

/-- What comes next in the stable sort is the next element. -/
theorem isNext_of_ranked (h : xs.Pairwise fun a b => a.2 < b.2) {pre post : List (α × Nat)}
    {x : α × Nat} (hranked : ranked rank xs = pre ++ x :: post) :
    IsNext rank xs pre.getLast? x := by
  have hsorted : (ranked rank xs).Pairwise (Before rank) := ranked_pairwise h
  rw [hranked, List.pairwise_append] at hsorted
  obtain ⟨hpre, hrest, hcross⟩ := hsorted
  have hmem : ∀ {y}, y ∈ xs → y ∈ pre ∨ y = x ∨ y ∈ post := by
    intro y hy
    have hy' : y ∈ ranked rank xs := mem_ranked.mpr hy
    rw [hranked] at hy'
    simpa using hy'
  refine ⟨?_, fun p hp => ?_, fun y hy hafter => ?_⟩
  · have hx : x ∈ ranked rank xs := by
      rw [hranked]
      exact List.mem_append_right _ (List.mem_cons_self ..)
    exact mem_ranked.mp hx
  · exact hcross p (List.mem_of_mem_getLast? hp) x (List.mem_cons_self ..)
  · rcases hmem hy with hypre | heq | hypost
    · -- What was taken before does not come after the last one taken.
      exact absurd hafter (not_after hpre hypre)
    · exact .inl heq
    · exact .inr ((List.pairwise_cons.mp hrest).1 y hypost)

end StableSelect
end Foundations
end Breadboard
