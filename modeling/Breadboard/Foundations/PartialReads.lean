import Mathlib.Tactic.Common

/-!
# A body that arrives in parts

Each read of a source may fail; if it does not, it gives some of what is left, at most as much as
it is asked for, and nothing only at the end.  The reads are numbered, and what read number
`k` is ready to give does not depend on how much it is asked for.

Main results:

- Theorem `take_append_read`: one read more lengthens the prefix that has been read.
- Theorem `read_eq_nil`: a read that gives nothing is at the end.
-/

namespace Breadboard
namespace Foundations

universe u

/-- A body, and for each read the number of elements after the first that it is ready to give. -/
structure Source (α : Type u) where
  body : List α
  grant : Nat → Option Nat

namespace Source

variable {α : Type u} (s : Source α)

/-- Read number `k`, when `pos` elements have been read and `len` are asked for. -/
def read (k pos len : Nat) : Option (List α) :=
  (s.grant k).map fun n => (s.body.drop pos).take (min (n + 1) len)

/-- What the first reads have offered, of which at most `lim` at a time is taken. -/
def offered (lim : Nat) : Nat → Nat
  | 0 => 0
  | k + 1 => offered lim k + min ((s.grant k).elim 0 (· + 1)) lim

/-- The reads before number `k` have not failed. -/
def Fine (k : Nat) : Prop :=
  ∀ j < k, s.grant j ≠ none

variable {s} {k pos len lim room n : Nat}

theorem read_of_none (h : s.grant k = none) : s.read k pos len = none := by
  rw [read, h, Option.map_none]

theorem read_of_some (h : s.grant k = some n) :
    s.read k pos len = some ((s.body.drop pos).take (min (n + 1) len)) := by
  rw [read, h, Option.map_some]

theorem offered_succ (h : s.grant k = some n) :
    s.offered lim (k + 1) = s.offered lim k + min (n + 1) lim := by
  rw [offered, h, Option.elim_some]

theorem offered_mono {j : Nat} (h : j ≤ k) : s.offered lim j ≤ s.offered lim k := by
  induction h with
  | refl => exact Nat.le_refl _
  | step _ ih => exact Nat.le_trans ih (Nat.le_add_right _ _)

theorem Fine.succ (h : s.Fine k) (hn : s.grant k = some n) : s.Fine (k + 1) := by
  intro j hj
  obtain hlt | rfl := Nat.lt_succ_iff_lt_or_eq.mp hj
  · exact h j hlt
  · rw [hn]
    simp

/-- A read that gives nothing, though something is asked for, is at the end. -/
theorem read_eq_nil (hlen : 0 < len) (h : s.read k pos len = some []) : s.body.length ≤ pos := by
  obtain ⟨n, _, hread⟩ := Option.map_eq_some_iff.mp h
  have hlength := congrArg List.length hread
  rw [List.length_take, List.length_drop, List.length_nil] at hlength
  omega

/-- One read more lengthens the prefix that has been read. -/
theorem take_append_read (body : List α) (pos more : Nat) :
    body.take pos ++ (body.drop pos).take more = body.take (pos + more) :=
  List.take_add.symm

end Source

end Foundations
end Breadboard
