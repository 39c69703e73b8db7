import Mathlib.Tactic.Common
import Mathlib.Algebra.BigOperators.Group.List.Basic
import Mathlib.Algebra.GroupWithZero.Nat

/-!
# Bounded FIFO contents

What a first-in first-out store with an entry limit and an optional weight
budget does to its contents, as lists with the oldest element first.  Making
room for a new element removes the shortest prefix of oldest elements after
which the new one fits.

Main results:

- Theorem `evictedFor_append_makeRoom`: evicted and kept elements are a
  split of the old contents.
- Theorem `makeRoom_fits`: after making room, an element within the budget
  fits.
-/

namespace Breadboard
namespace Foundations
namespace BoundedFifo

universe u

variable {α : Type u} (weight : α → Nat) (limit budget : Nat)

/-- Total weight of the stored elements. -/
def totalWeight (l : List α) : Nat :=
  (l.map weight).sum

@[simp] theorem totalWeight_nil : totalWeight weight [] = 0 :=
  rfl

@[simp] theorem totalWeight_cons (a : α) (l : List α) :
    totalWeight weight (a :: l) = weight a + totalWeight weight l := by
  simp [totalWeight]

@[simp] theorem totalWeight_append (l m : List α) :
    totalWeight weight (l ++ m) = totalWeight weight l + totalWeight weight m := by
  simp [totalWeight]

/-- An element of weight `w` can be added.  A budget of zero is no budget. -/
def Fits (l : List α) (w : Nat) : Prop :=
  l.length < limit ∧ (0 < budget → totalWeight weight l + w ≤ budget)

instance (l : List α) (w : Nat) : Decidable (Fits weight limit budget l w) :=
  inferInstanceAs (Decidable (_ ∧ _))

/-- Remove oldest elements until one of weight `w` fits, or none is left. -/
def makeRoom (w : Nat) : List α → List α
  | [] => []
  | a :: l => if Fits weight limit budget (a :: l) w then a :: l else makeRoom w l

/-- The oldest elements that making room removes. -/
def evictedFor (w : Nat) : List α → List α
  | [] => []
  | a :: l => if Fits weight limit budget (a :: l) w then [] else a :: evictedFor w l

example : evictedFor weight 2 0 1 [] = [] ∧ makeRoom weight 2 0 1 [] = [] := by
  simp [evictedFor, makeRoom]

variable {weight limit budget}

theorem makeRoom_of_fits {w : Nat} {l : List α} (h : Fits weight limit budget l w) :
    makeRoom weight limit budget w l = l := by
  cases l with
  | nil => rfl
  | cons a l => simp [makeRoom, h]

theorem evictedFor_of_fits {w : Nat} {l : List α} (h : Fits weight limit budget l w) :
    evictedFor weight limit budget w l = [] := by
  cases l with
  | nil => rfl
  | cons a l => simp [evictedFor, h]

/-- Making room past an element that must go is making room in the rest. -/
theorem makeRoom_tail {w : Nat} {l : List α} (h : ¬ Fits weight limit budget l w) :
    makeRoom weight limit budget w l = makeRoom weight limit budget w l.tail := by
  cases l with
  | nil => rfl
  | cons a l => simp [makeRoom, h]

/-- Eviction splits the contents: a removed prefix and a kept suffix. -/
theorem evictedFor_append_makeRoom (w : Nat) (l : List α) :
    evictedFor weight limit budget w l ++ makeRoom weight limit budget w l = l := by
  induction l with
  | nil => rfl
  | cons a l ih =>
    by_cases h : Fits weight limit budget (a :: l) w
    · simp [evictedFor, makeRoom, h]
    · simp [evictedFor, makeRoom, h, ih]

theorem mem_of_mem_makeRoom {w : Nat} {l : List α} {a : α}
    (h : a ∈ makeRoom weight limit budget w l) : a ∈ l := by
  rw [← @evictedFor_append_makeRoom α weight limit budget w l]
  exact List.mem_append_right _ h

/-- With a positive limit and an element within the budget, making room succeeds. -/
theorem makeRoom_fits {w : Nat} (hlimit : 0 < limit) (hw : 0 < budget → w ≤ budget)
    (l : List α) : Fits weight limit budget (makeRoom weight limit budget w l) w := by
  induction l with
  | nil => exact ⟨by simpa [makeRoom] using hlimit, by simpa [makeRoom] using hw⟩
  | cons a l ih =>
    by_cases h : Fits weight limit budget (a :: l) w
    · simp [makeRoom, h]
    · simpa [makeRoom, h] using ih

/-- Without a budget, making room in a store within its limit removes at most one element. -/
theorem length_le_makeRoom_succ {w : Nat} {l : List α} (hlen : l.length ≤ limit) :
    l.length ≤ (makeRoom weight limit 0 w l).length + 1 := by
  cases l with
  | nil => exact Nat.zero_le _
  | cons a l =>
    by_cases h : Fits weight limit 0 (a :: l) w
    · rw [makeRoom_of_fits h]
      exact Nat.le_succ _
    · have htail : Fits weight limit 0 l w := ⟨hlen, fun hpos => absurd hpos (Nat.lt_irrefl 0)⟩
      rw [makeRoom_tail h, List.tail_cons, makeRoom_of_fits htail]
      exact Nat.le_refl _

end BoundedFifo
end Foundations
end Breadboard
