import Mathlib.Order.Interval.Set.UnorderedInterval
import Mathlib.Tactic.Common
import Mathlib.Order.Lattice.Nat

/-!
# Interpolation in whole numbers

From one level to another in so many steps, rounded towards where it began.  It stays between the
two, and moves from the one to the other.

Main results:

- Theorem `lerp_mem_uIcc`: every step lies between the two levels.
- Theorem `lerp_mem_uIcc_lerp`: a later step lies between an earlier one and the end.
- Theorem `add_tdiv_eq_lerp`: it is what a signed product and a truncating division compute.
-/

namespace Breadboard
namespace Foundations
namespace Interpolation

/-- Step `e` of `n` on the way from `a` to `b`. -/
def lerp (a b n e : Nat) : Nat :=
  if a ≤ b then a + (b - a) * e / n else a - (a - b) * e / n

variable {a b n e e' : Nat}

theorem lerp_of_le (h : a ≤ b) : lerp a b n e = a + (b - a) * e / n :=
  if_pos h

theorem lerp_of_ge (h : b ≤ a) : lerp a b n e = a - (a - b) * e / n := by
  obtain rfl | hlt := Nat.eq_or_lt_of_le h
  · rw [lerp_of_le h, Nat.sub_self, Nat.zero_mul, Nat.zero_div, Nat.add_zero, Nat.sub_zero]
  · exact if_neg (Nat.not_le.mpr hlt)

/-- What is gone of a way is no more than the way. -/
theorem part_le (d : Nat) (he : e ≤ n) : d * e / n ≤ d :=
  Nat.div_le_of_le_mul (by rw [Nat.mul_comm n d]; exact Nat.mul_le_mul_left d he)

theorem part_mono (d : Nat) (h : e ≤ e') : d * e / n ≤ d * e' / n :=
  Nat.div_le_div_right (Nat.mul_le_mul_left d h)

/-- Every step lies between the two levels. -/
theorem lerp_mem_uIcc (he : e ≤ n) : lerp a b n e ∈ Set.uIcc a b := by
  rw [Set.mem_uIcc]
  obtain h | h := Nat.le_total a b
  · have hpart := part_le (b - a) he
    rw [lerp_of_le h]
    generalize (b - a) * e / n = part at hpart ⊢
    omega
  · have hpart := part_le (a - b) he
    rw [lerp_of_ge h]
    generalize (a - b) * e / n = part at hpart ⊢
    omega

/-- A later step lies between an earlier one and the end. -/
theorem lerp_mem_uIcc_lerp (h : e ≤ e') (he : e' ≤ n) :
    lerp a b n e' ∈ Set.uIcc (lerp a b n e) b := by
  rw [Set.mem_uIcc]
  obtain hab | hab := Nat.le_total a b
  · have hmono := part_mono (n := n) (b - a) h
    have hpart := part_le (b - a) he
    rw [lerp_of_le hab, lerp_of_le hab]
    omega
  · have hmono := part_mono (n := n) (a - b) h
    have hpart := part_le (a - b) he
    rw [lerp_of_ge hab, lerp_of_ge hab]
    omega

/-- What a signed product and a truncating division compute. -/
theorem add_tdiv_eq_lerp (he : e ≤ n) :
    (a : Int) + (((b : Int) - a) * e).tdiv n = lerp a b n e := by
  obtain h | h := Nat.le_total a b
  · have hspan : ((b : Int) - a) * e = ((b - a) * e : Nat) := by
      rw [Int.natCast_mul, Int.natCast_sub h]
    rw [lerp_of_le h, hspan, Int.natCast_tdiv_eq_ediv, ← Int.natCast_ediv, ← Int.natCast_add]
  · have hspan : ((b : Int) - a) * e = -((a - b) * e : Nat) := by
      rw [Int.natCast_mul, Int.natCast_sub h, ← Int.neg_mul, Int.neg_sub]
    have hpart : (a - b) * e / n ≤ a := Nat.le_trans (part_le (a - b) he) (Nat.sub_le a b)
    rw [lerp_of_ge h, hspan, Int.neg_tdiv, Int.natCast_tdiv_eq_ediv, ← Int.natCast_ediv,
      Int.natCast_sub hpart, Int.sub_eq_add_neg]

end Interpolation
end Foundations
end Breadboard
