import Breadboard.Foundations.Runs

/-!
# Unending schedules and fairness

A schedule gives the action of every instant; the trajectory is the state before
each instant.  What happens sooner or later is stated about instants, so that a
property may speak of the state and of the action together.

Main results:

- Theorem `trajectory_good_iff_along`: a condition that is exact at every step is
  exact over a schedule.
- Theorem `leadsTo_of_helpful`: the rule of a helpful action that keeps coming.
- Theorem `leadsTo_of_measure`: the rule of a measure that keeps falling.
-/

namespace Breadboard
namespace Foundations

universe u v

variable {σ : Type u} {α : Type v} (step : σ → α → σ)

/-- The state before each instant of a schedule. -/
def trajectory (s : σ) (acts : Nat → α) : Nat → σ
  | 0 => s
  | k + 1 => step (trajectory s acts k) (acts k)

@[simp] theorem trajectory_zero (s : σ) (acts : Nat → α) : trajectory step s acts 0 = s :=
  rfl

variable {step}

/-- The invariant rule along a schedule whose first `k` steps meet a condition. -/
theorem trajectory_invariant {I : σ → Prop} {P : σ → α → Prop}
    (hstep : ∀ s a, I s → P s a → I (step s a)) {s : σ} (hinit : I s) {acts : Nat → α} :
    ∀ k, (∀ j, j < k → P (trajectory step s acts j) (acts j)) → I (trajectory step s acts k)
  | 0, _ => hinit
  | k + 1, hcond =>
    hstep _ _ (trajectory_invariant hstep hinit k fun j hj => hcond j (by omega))
      (hcond k (Nat.lt_succ_self k))

/-- The exactness rule along a schedule. -/
theorem trajectory_good_iff_along {I Good : σ → Prop} {P : σ → α → Prop}
    (hstep : ∀ s a, I s → P s a → I (step s a)) (hgood : ∀ s, I s → Good s)
    (hbad : ∀ s a, I s → ¬ P s a → ¬ Good (step s a)) {s : σ} (hinit : I s) (acts : Nat → α) :
    (∀ k, Good (trajectory step s acts k)) ↔
      ∀ k, P (trajectory step s acts k) (acts k) := by
  constructor
  · intro hall k
    induction k using Nat.strongRecOn with
    | ind k ih =>
      have hinv : I (trajectory step s acts k) := trajectory_invariant hstep hinit k ih
      by_contra hnot
      exact hbad _ _ hinv hnot (hall (k + 1))
  · intro hcond k
    exact hgood _ (trajectory_invariant hstep hinit k fun j _ => hcond j)

/-! ## Sooner or later -/

/-- It happens again and again. -/
def InfinitelyOften (H : Nat → Prop) : Prop :=
  ∀ k, ∃ m, k ≤ m ∧ H m

/-- Whenever the first holds, the second holds at that instant or later. -/
def LeadsTo (P Q : Nat → Prop) : Prop :=
  ∀ k, P k → ∃ m, k ≤ m ∧ Q m

variable {P Q R H : Nat → Prop}

theorem LeadsTo.trans (hpq : LeadsTo P Q) (hqr : LeadsTo Q R) : LeadsTo P R := by
  intro k hk
  obtain ⟨m, hkm, hm⟩ := hpq k hk
  obtain ⟨n, hmn, hn⟩ := hqr m hm
  exact ⟨n, Nat.le_trans hkm hmn, hn⟩

theorem leadsTo_of_next (h : ∀ k, P k → Q (k + 1)) : LeadsTo P Q :=
  fun k hk => ⟨k + 1, k.le_succ, h k hk⟩

/--
What stays until the helpful action comes is met by the helpful action, when that action
keeps coming.
-/
theorem leadsTo_of_helpful (hkeep : ∀ k, P k → ¬ H k → P (k + 1)) (hfair : InfinitelyOften H) :
    LeadsTo P fun k => P k ∧ H k := by
  intro k hk
  obtain ⟨m, hkm, hm⟩ := hfair k
  obtain ⟨d, rfl⟩ := Nat.exists_eq_add_of_le hkm
  -- The distance to the next helpful action falls with each instant.
  induction d generalizing k with
  | zero => exact ⟨k, k.le_refl, hk, hm⟩
  | succ d ih =>
    by_cases hnow : H k
    · exact ⟨k, k.le_refl, hk, hnow⟩
    · have hshift : k + 1 + d = k + (d + 1) := by omega
      obtain ⟨n, hkn, hn⟩ := ih (k + 1) (hkeep k hk hnow) (by omega) (by rwa [hshift])
      exact ⟨n, by omega, hn⟩

/-- A measure that falls until the goal is met meets the goal. -/
theorem leadsTo_of_measure (μ : Nat → Nat)
    (hfall : ∀ n, LeadsTo (fun k => P k ∧ μ k = n) fun k => Q k ∨ P k ∧ μ k < n) :
    LeadsTo P Q := by
  intro k hk
  induction hn : μ k using Nat.strongRecOn generalizing k with
  | ind n ih =>
    obtain ⟨m, hkm, hgoal | ⟨hm, hless⟩⟩ := hfall n k ⟨hk, hn⟩
    · exact ⟨m, hkm, hgoal⟩
    · obtain ⟨j, hmj, hj⟩ := ih (μ m) hless m hm rfl
      exact ⟨j, Nat.le_trans hkm hmj, hj⟩

end Foundations
end Breadboard
