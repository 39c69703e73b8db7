import Mathlib.Logic.Function.Basic
import Mathlib.Tactic.Common

/-!
# The live window of a ring buffer

A ring of `cap` cells holds `n` live items from index `head` on, wrapping at the
end.  Read in that order they are a list, and the two operations of a ring are the two
ends of the list: writing the cell after the last item appends, stepping the head past
the first item removes it.

Main results:

- Theorem `window_write`: writing behind the last item appends it.
- Theorem `window_overwrite`: writing the head of a full ring evicts the first item.
-/

namespace Breadboard
namespace Foundations
namespace RingBuffer

universe u

variable {α : Type u}

/-- The `n` live items of a ring from its head on. -/
def window (cells : Nat → α) (cap head n : Nat) : List α :=
  (List.range n).map fun i => cells ((head + i) % cap)

@[simp] theorem window_zero (cells : Nat → α) (cap head : Nat) : window cells cap head 0 = [] :=
  rfl

@[simp] theorem length_window (cells : Nat → α) (cap head n : Nat) :
    (window cells cap head n).length = n := by
  simp [window]

variable {cells : Nat → α} {cap head n : Nat}

/-- The first live item is at the head, the others start at the next index. -/
theorem window_succ (hhead : head < cap) :
    window cells cap head (n + 1) = cells head :: window cells cap ((head + 1) % cap) n := by
  have hfirst : (head + 0) % cap = head := Nat.mod_eq_of_lt hhead
  have hshift (i : Nat) : (head + (i + 1)) % cap = ((head + 1) % cap + i) % cap := by
    rw [Nat.mod_add_mod, Nat.add_assoc, Nat.add_comm 1 i]
  rw [window, window, List.range_succ_eq_map, List.map_cons, List.map_map, hfirst]
  congr 1
  exact List.map_congr_left fun i _ => congrArg cells (hshift i)

/-- In a ring with a free cell the live cells differ from the one behind the last item. -/
theorem index_ne {i : Nat} (hi : i < n) (hroom : n < cap) :
    (head + i) % cap ≠ (head + n) % cap := by
  intro heq
  have hzero := Nat.sub_mod_eq_zero_of_mod_eq heq.symm
  have hdist : head + n - (head + i) = n - i := by omega
  rw [hdist, Nat.mod_eq_of_lt (by omega)] at hzero
  omega

/-- Writing the cell behind the last item appends. -/
theorem window_write (hroom : n < cap) (x : α) :
    window (Function.update cells ((head + n) % cap) x) cap head (n + 1) =
      window cells cap head n ++ [x] := by
  rw [window, window, List.range_succ, List.map_append, List.map_singleton, Function.update_self]
  congr 1
  refine List.map_congr_left fun i hi => ?_
  exact Function.update_of_ne (index_ne (List.mem_range.mp hi) hroom) _ _

/-- Overwriting the first item of a full ring and stepping past it evicts it and appends. -/
theorem window_overwrite (hhead : head < cap) (x : α) :
    window (Function.update cells head x) cap ((head + 1) % cap) cap =
      (window cells cap head cap).tail ++ [x] := by
  cases cap with
  | zero => omega
  | succ n =>
    have hlast : ((head + 1) % (n + 1) + n) % (n + 1) = head := by
      rw [Nat.mod_add_mod, Nat.add_assoc, Nat.add_comm 1 n, Nat.add_mod_right]
      exact Nat.mod_eq_of_lt hhead
    have hwrite := @window_write α cells (n + 1) ((head + 1) % (n + 1)) n (Nat.lt_succ_self n) x
    rw [hlast] at hwrite
    rw [hwrite, window_succ hhead, List.tail_cons]

end RingBuffer
end Foundations
end Breadboard
