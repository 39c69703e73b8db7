import Mathlib.Tactic.Common
import Mathlib.Data.Nat.Bitwise
import Mathlib.Logic.Function.Basic

/-!
# Bitmaps

One bit per index, eight bits to a byte.  The operations are the usual shifts
and masks; their meaning is that of a set of indices.

Main results:

- Theorem `test_set`: setting a bit adds its index.
- Theorem `test_clear`: clearing a bit removes its index.
-/

namespace Breadboard
namespace Foundations

/-- A byte array holding one bit per index. -/
abbrev Bitmap := Nat → UInt8

namespace Bitmap

/-- The mask of an index within its byte. -/
def mask (idx : Nat) : UInt8 :=
  1 <<< UInt8.ofNat (idx % 8)

/-- All bits clear. -/
def zero : Bitmap :=
  fun _ => 0

def test (bm : Bitmap) (idx : Nat) : Bool :=
  bm (idx / 8) &&& mask idx ≠ 0

def set (bm : Bitmap) (idx : Nat) : Bitmap :=
  Function.update bm (idx / 8) (bm (idx / 8) ||| mask idx)

def clear (bm : Bitmap) (idx : Nat) : Bitmap :=
  Function.update bm (idx / 8) (bm (idx / 8) &&& ~~~ mask idx)

theorem toNat_mask (idx : Nat) : (mask idx).toNat = 2 ^ (idx % 8) := by
  have hlt : idx % 8 < 8 := Nat.mod_lt _ (by decide)
  unfold mask
  generalize idx % 8 = k at hlt
  revert hlt k
  decide

theorem test_eq_testBit (bm : Bitmap) (idx : Nat) :
    bm.test idx = (bm (idx / 8)).toNat.testBit (idx % 8) := by
  unfold test
  rw [Bool.eq_iff_iff, decide_eq_true_iff, Ne, ← UInt8.toNat_inj, UInt8.toNat_and, toNat_mask,
    Nat.and_two_pow]
  cases (bm (idx / 8)).toNat.testBit (idx % 8) <;> simp

/-- Indices of one byte are equal exactly when they share their bit. -/
theorem bit_eq_iff {i j : Nat} (hbyte : j / 8 = i / 8) : i % 8 = j % 8 ↔ i = j := by
  omega

@[simp] theorem test_zero (idx : Nat) : zero.test idx = false := by
  simp [test, zero]

@[simp] theorem test_set (bm : Bitmap) (i j : Nat) :
    (bm.set i).test j = (decide (i = j) || bm.test j) := by
  rw [test_eq_testBit, test_eq_testBit, set]
  by_cases hbyte : j / 8 = i / 8
  · rw [hbyte, Function.update_self, UInt8.toNat_or, toNat_mask, Nat.testBit_or,
      Nat.testBit_two_pow, Bool.or_comm]
    congr 2
    exact propext (bit_eq_iff hbyte)
  · have hne : i ≠ j := fun h => hbyte (by rw [h])
    rw [Function.update_of_ne hbyte]
    simp [hne]

@[simp] theorem test_clear (bm : Bitmap) (i j : Nat) :
    (bm.clear i).test j = (!decide (i = j) && bm.test j) := by
  rw [test_eq_testBit, test_eq_testBit, clear]
  have hlt : j % 8 < 8 := Nat.mod_lt _ (by decide)
  by_cases hbyte : j / 8 = i / 8
  · have hpow : 2 ^ (i % 8) < 2 ^ 8 := Nat.pow_lt_pow_right (by decide) (Nat.mod_lt _ (by decide))
    have hcompl : UInt8.size - 1 - 2 ^ (i % 8) = 2 ^ 8 - (2 ^ (i % 8) + 1) := by
      rw [Nat.sub_sub, Nat.add_comm 1]
      rfl
    rw [hbyte, Function.update_self, UInt8.toNat_and, UInt8.toNat_not, toNat_mask, hcompl,
      Nat.testBit_and, Nat.testBit_two_pow_sub_succ hpow, Nat.testBit_two_pow, Bool.and_comm,
      decide_eq_true hlt, Bool.true_and]
    congr 3
    exact propext (bit_eq_iff hbyte)
  · have hne : i ≠ j := fun h => hbyte (by rw [h])
    rw [Function.update_of_ne hbyte]
    simp [hne]

end Bitmap
end Foundations
end Breadboard
