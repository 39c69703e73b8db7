import Mathlib.Tactic.Common
import Mathlib.Algebra.Group.Nat.Defs

/-!
# Decimal numerals as byte strings

Printing a natural number in base ten by repeated division, least digit first,
and reading a digit string back by Horner's rule.

Main results:

- Theorem `value_decimal`: reading a printed number gives the number back.
- Theorem `length_decimal_le`: the printed length of a bounded number.
-/

namespace Breadboard
namespace Foundations
namespace Decimal

/-- The ASCII digit `0` to `9`. -/
def isDigit (b : UInt8) : Bool :=
  48 ≤ b.toNat ∧ b.toNat ≤ 57

/-- The ASCII byte of a digit below ten. -/
def digitByte (d : Nat) : UInt8 :=
  UInt8.ofNat (48 + d)

/-- The digits of a number, least significant first; the fuel bounds the divisions. -/
def digitsRev : Nat → Nat → List UInt8
  | 0, _ => []
  | fuel + 1, n =>
    if n < 10 then [digitByte n] else digitByte (n % 10) :: digitsRev fuel (n / 10)

/-- The decimal text of a natural number. -/
def decimal (n : Nat) : List UInt8 :=
  (digitsRev (n + 1) n).reverse

/-- The value of a digit string, most significant digit first. -/
def value (s : List UInt8) : Nat :=
  s.foldl (fun acc b => acc * 10 + (b.toNat - 48)) 0

theorem toNat_digitByte {d : Nat} (hd : d < 10) : (digitByte d).toNat = 48 + d := by
  simp only [digitByte, UInt8.toNat_ofNat']
  omega

theorem isDigit_digitByte {d : Nat} (hd : d < 10) : isDigit (digitByte d) = true := by
  simp only [isDigit, toNat_digitByte hd, decide_eq_true_eq]
  omega

/-- Every printed byte is a digit. -/
theorem isDigit_of_mem_digitsRev {fuel n : Nat} {b : UInt8} (hb : b ∈ digitsRev fuel n) :
    isDigit b = true := by
  induction fuel generalizing n with
  | zero => cases hb
  | succ fuel ih =>
    unfold digitsRev at hb
    split at hb
    · rename_i hlt
      rw [List.mem_singleton.mp hb]
      exact isDigit_digitByte hlt
    · rcases List.mem_cons.mp hb with rfl | hrest
      · exact isDigit_digitByte (Nat.mod_lt _ (by decide))
      · exact ih hrest

theorem isDigit_of_mem_decimal {n : Nat} {b : UInt8} (hb : b ∈ decimal n) : isDigit b = true :=
  isDigit_of_mem_digitsRev (List.mem_reverse.mp hb)

theorem value_append_singleton (s : List UInt8) (b : UInt8) :
    value (s ++ [b]) = value s * 10 + (b.toNat - 48) := by
  simp [value]

theorem value_digitsRev {fuel n : Nat} (hfuel : n < fuel) :
    value (digitsRev fuel n).reverse = n := by
  induction fuel generalizing n with
  | zero => omega
  | succ fuel ih =>
    unfold digitsRev
    split
    · rename_i hlt
      simp only [value, List.reverse_cons, List.reverse_nil, List.nil_append, List.foldl_cons,
        List.foldl_nil, toNat_digitByte hlt]
      omega
    · rw [List.reverse_cons, value_append_singleton, ih (by omega),
        toNat_digitByte (Nat.mod_lt _ (by decide))]
      omega

/-- Reading a printed number gives the number back. -/
theorem value_decimal (n : Nat) : value (decimal n) = n :=
  value_digitsRev (Nat.lt_succ_self n)

theorem digitsRev_ne_nil {fuel n : Nat} (hfuel : 0 < fuel) : digitsRev fuel n ≠ [] := by
  obtain ⟨m, rfl⟩ : ∃ m, fuel = m + 1 := ⟨fuel - 1, by omega⟩
  unfold digitsRev
  split <;> simp

theorem decimal_ne_nil (n : Nat) : decimal n ≠ [] := by
  simpa [decimal] using @digitsRev_ne_nil (n + 1) n (Nat.succ_pos n)

theorem length_digitsRev_le {fuel n m : Nat} (hn : n < 10 ^ (m + 1)) :
    (digitsRev fuel n).length ≤ m + 1 := by
  induction fuel generalizing n m with
  | zero => simp [digitsRev]
  | succ fuel ih =>
    unfold digitsRev
    split
    · simp
    · cases m with
      | zero => omega
      | succ m =>
        have hdiv : n / 10 < 10 ^ (m + 1) := by
          rw [Nat.div_lt_iff_lt_mul (by decide)]
          rwa [Nat.pow_succ] at hn
        simpa using ih hdiv

/-- A number below `10^(m+1)` prints in at most `m+1` digits. -/
theorem length_decimal_le {n m : Nat} (hn : n < 10 ^ (m + 1)) :
    (decimal n).length ≤ m + 1 := by
  simpa [decimal] using length_digitsRev_le hn

end Decimal
end Foundations
end Breadboard
