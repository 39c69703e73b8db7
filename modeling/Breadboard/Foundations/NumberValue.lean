import Breadboard.Foundations.JsonText
import Mathlib.Algebra.Order.Field.Rat
import Mathlib.Tactic.NormNum

/-!
# The value of a JSON number

A number text denotes a rational: a signed decimal numeral with a fraction, scaled by a
power of ten.  A text without fraction and exponent denotes an integer.

Main results:

- Theorem `hasValue_iff_of_plain`: the value of a plain number is its integer.
-/

namespace Breadboard
namespace Foundations
namespace JsonText

/-- The sign of a number. -/
def signOf : Text → ℚ
  | [] => 1
  | _ => -1

/-- The value of a fraction with its point. -/
def fractionOf : Text → ℚ
  | [] => 0
  | _ :: d => (Decimal.value d : ℚ) / 10 ^ d.length

/-- The value of an exponent with its letter. -/
def exponentOf : Text → ℤ
  | [] => 0
  | _ :: 45 :: d => -(Decimal.value d : ℤ)
  | _ :: 43 :: d => (Decimal.value d : ℤ)
  | _ :: d => (Decimal.value d : ℤ)

/-- The text is a number, and `q` is its value. -/
def HasValue (text : Text) (q : ℚ) : Prop :=
  ∃ sign int frac exp, text = sign ++ (int ++ (frac ++ exp)) ∧ Sign sign ∧ Digits int ∧
    Fraction frac ∧ Exponent exp ∧
    q = signOf sign * (Decimal.value int + fractionOf frac) * 10 ^ exponentOf exp

/-- A text without fraction and exponent. -/
def Plain (text : Text) : Prop :=
  46 ∉ text ∧ 101 ∉ text ∧ 69 ∉ text

instance (text : Text) : Decidable (Plain text) :=
  inferInstanceAs (Decidable (_ ∧ _))

/-- The integer a plain number denotes. -/
def intValue : Text → ℤ
  | 45 :: digits => -(Decimal.value digits : ℤ)
  | digits => (Decimal.value digits : ℤ)

/-- A plain number is a sign and digits. -/
theorem digits_of_plain {sign int frac exp : Text} (hfrac : Fraction frac) (hexp : Exponent exp)
    (h : Plain (sign ++ (int ++ (frac ++ exp)))) : frac = [] ∧ exp = [] := by
  obtain ⟨hpoint, hlower, hupper⟩ := h
  constructor
  · rcases hfrac with rfl | ⟨d, rfl, -⟩
    · rfl
    · simp at hpoint
  · rcases hexp with rfl | ⟨e, esign, d, rfl, rfl | rfl, -⟩
    · rfl
    · simp at hlower
    · simp at hupper

theorem intValue_of_digits {digits : Text} (h : Digits digits) :
    intValue digits = Decimal.value digits := by
  unfold intValue
  split
  next rest =>
    have hminus : Decimal.isDigit 45 = true := h.2 45 List.mem_cons_self
    simp [Decimal.isDigit] at hminus
  next => rfl

/-- The value of a plain number is its integer. -/
theorem hasValue_iff_of_plain {text : Text} (htext : LaxNumber text) (hplain : Plain text) (q : ℚ) :
    HasValue text q ↔ q = intValue text := by
  have hall (sign int : Text) (hsign : Sign sign) (hint : Digits int) :
      signOf sign * (Decimal.value int + fractionOf []) * 10 ^ exponentOf [] =
        (intValue (sign ++ int) : ℚ) := by
    rcases hsign with rfl | rfl
    · rw [List.nil_append, intValue_of_digits hint]
      simp [signOf, fractionOf, exponentOf]
    · simp [signOf, fractionOf, exponentOf, intValue]
  constructor
  · rintro ⟨sign, int, frac, exp, rfl, hsign, hint, hfrac, hexp, rfl⟩
    obtain ⟨rfl, rfl⟩ := digits_of_plain hfrac hexp hplain
    rw [List.append_nil, List.append_nil]
    exact hall sign int hsign hint
  · rintro rfl
    obtain ⟨sign, int, frac, exp, rfl, hsign, hint, hfrac, hexp⟩ := htext
    obtain ⟨rfl, rfl⟩ := digits_of_plain hfrac hexp hplain
    refine ⟨sign, int, [], [], rfl, hsign, hint, .inl rfl, .inl rfl, ?_⟩
    rw [List.append_nil, List.append_nil]
    exact (hall sign int hsign hint).symm

end JsonText
end Foundations
end Breadboard
