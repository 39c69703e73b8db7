import Mathlib.Data.Int.Basic
import Mathlib.Tactic.Common
import Mathlib.Algebra.Group.Nat.Defs
import Mathlib.Algebra.Group.Int.Defs

/-!
# Serial numbers compared by signed difference

A 32-bit counter that wraps is compared by casting the difference to a signed
word.  The comparison agrees with the unbounded counters exactly while their
true distance stays within half of the range.

Main results:

- Theorem `signedDiff_ofNat`: the signed difference is the true difference
  of the unbounded counters, reduced to the balanced residue.
- Theorem `signedDiff_neg_iff_lt`: within half the range the sign test
  decides the order of the unbounded counters.
-/

namespace Breadboard
namespace Foundations

/-- The C expression `(int32_t)(a - b)` on two `uint32_t` values. -/
def signedDiff (a b : UInt32) : Int :=
  (a - b).toBitVec.toInt

/-- The signed difference is the balanced residue of the unbounded difference. -/
theorem signedDiff_ofNat (a b : Nat) :
    signedDiff (UInt32.ofNat a) (UInt32.ofNat b) = ((a : Int) - b).bmod (2 ^ 32) := by
  have hbv : (UInt32.ofNat a - UInt32.ofNat b).toBitVec =
      BitVec.ofNat 32 a - BitVec.ofNat 32 b := rfl
  rw [signedDiff, hbv, BitVec.toInt_sub]
  simp only [BitVec.toInt_eq_toNat_bmod, BitVec.toNat_ofNat, Int.bmod_def]
  split <;> split <;> omega

/-- A counter that is behind by at most half the range reads as negative. -/
theorem signedDiff_neg_of_lt {a b : Nat} (hlt : a < b) (hdist : b - a ≤ 2 ^ 31) :
    signedDiff (UInt32.ofNat a) (UInt32.ofNat b) < 0 := by
  rw [signedDiff_ofNat, Int.bmod_def]
  split <;> omega

/-- A counter that is level or ahead by less than half the range reads as nonnegative. -/
theorem signedDiff_nonneg_of_le {a b : Nat} (hle : b ≤ a) (hdist : a - b < 2 ^ 31) :
    ¬ signedDiff (UInt32.ofNat a) (UInt32.ofNat b) < 0 := by
  rw [signedDiff_ofNat, Int.bmod_def]
  split <;> omega

/-- Within half the range the sign test decides the order of the unbounded counters. -/
theorem signedDiff_neg_iff_lt {a b : Nat} (hbehind : b ≤ a + 2 ^ 31) (hahead : a < b + 2 ^ 31) :
    signedDiff (UInt32.ofNat a) (UInt32.ofNat b) < 0 ↔ a < b := by
  constructor
  · intro hneg
    by_contra hle
    exact signedDiff_nonneg_of_le (by omega) (by omega) hneg
  · intro hlt
    exact signedDiff_neg_of_lt hlt (by omega)

/-- The positive test, with no bound on the distance: a condition on the residue. -/
theorem signedDiff_pos_iff (a b : Nat) :
    0 < signedDiff (UInt32.ofNat a) (UInt32.ofNat b) ↔
      0 < ((a : Int) - b) % 2 ^ 32 ∧ ((a : Int) - b) % 2 ^ 32 < 2 ^ 31 := by
  rw [signedDiff_ofNat, Int.bmod_def]
  split <;> omega

/-- The negative test on any two words: the unsigned difference is in the upper half. -/
theorem signedDiff_neg_iff (a b : UInt32) : signedDiff a b < 0 ↔ 2 ^ 31 ≤ (a - b).toNat := by
  unfold signedDiff
  rw [BitVec.toInt_neg_iff]
  simp only [UInt32.toNat_toBitVec]
  omega

/-- A counter that starts behind another and counts up to it reads as negative until it is level. -/
theorem signedDiff_count_neg_iff {start limit : UInt32} {i : Nat} (hle : i ≤ (limit - start).toNat)
    (hnear : (limit - start).toNat < 2 ^ 31) :
    signedDiff (start + UInt32.ofNat i) limit < 0 ↔ i < (limit - start).toNat := by
  have hstart := start.toNat_lt
  have hlimit := limit.toNat_lt
  rw [signedDiff_neg_iff]
  simp only [UInt32.toNat_sub, UInt32.toNat_add, UInt32.toNat_ofNat'] at hle hnear ⊢
  omega

/-- The counter that starts at `start` is level with `limit` after their difference. -/
theorem add_ofNat_toNat_sub (start limit : UInt32) :
    start + UInt32.ofNat (limit - start).toNat = limit := by
  rw [UInt32.ofNat_toNat, UInt32.add_comm, UInt32.sub_add_cancel]

/-- The unsigned difference is the true difference while that fits the word. -/
theorem toNat_ofNat_sub {a b : Nat} (hle : b ≤ a) (hdist : a - b < 2 ^ 32) :
    (UInt32.ofNat a - UInt32.ofNat b).toNat = a - b := by
  rw [UInt32.toNat_sub, UInt32.toNat_ofNat', UInt32.toNat_ofNat']
  omega

end Foundations
end Breadboard
