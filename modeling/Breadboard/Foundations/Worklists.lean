import Mathlib.Data.List.Perm.Basic
import Mathlib.Tactic.Common

/-!
# Workers working off lists

Any number of workers each have a list of things to do, and take them up one by
one from the front, in any interleaving.  A worker is a position of the outer
list; one that has finished has nothing left.

Main results:

- Theorem `takeHead_perm`: taking an item up removes it, and no other, from what
  is still to be done.
- Theorem `takeHead_filterMap`: so it is for the items of one kind.
-/

namespace Breadboard
namespace Foundations

universe u v

variable {α : Type u} {β : Type v}

/-- Worker `k` takes up its next item. -/
def takeHead (work : List (List α)) (k : Nat) : Option (α × List (List α)) :=
  match work[k]? with
  | some (a :: rest) => some (a, work.set k rest)
  | _ => none

/-- Lists of at most one item that are permutations are equal. -/
theorem perm_eq_of_length_le_one {l l' : List α} (hperm : l.Perm l') (hlen : l.length ≤ 1) :
    l = l' := by
  match l, hlen with
  | [], _ => exact hperm.nil_eq
  | [a], _ => exact hperm.singleton_eq

/-- Taking an item up removes it, and no other, from what is still to be done. -/
theorem takeHead_perm {work work' : List (List α)} {k : Nat} {a : α}
    (h : takeHead work k = some (a, work')) : work.flatten.Perm (a :: work'.flatten) := by
  unfold takeHead at h
  split at h
  next b rest hget =>
    cases h
    have hswap : ((a :: rest) :: work.set k rest).Perm (rest :: work) := by
      simpa [hget] using List.getD_set_perm_cons work k rest
    have hflat := hswap.flatten
    rw [List.flatten_cons, List.flatten_cons, List.cons_append] at hflat
    have hmiddle : (rest ++ a :: (work.set k rest).flatten).Perm (rest ++ work.flatten) :=
      List.perm_middle.trans hflat
    exact ((List.perm_append_left_iff rest).mp hmiddle).symm
  next => cases h

theorem takeHead_mem {work work' : List (List α)} {k : Nat} {a : α}
    (h : takeHead work k = some (a, work')) {b : α} :
    b ∈ work.flatten ↔ b = a ∨ b ∈ work'.flatten := by
  rw [(takeHead_perm h).mem_iff, List.mem_cons]

/-- What a view of the items sees when one of them is taken up. -/
theorem takeHead_filterMap {work work' : List (List α)} {k : Nat} {a : α}
    (h : takeHead work k = some (a, work')) (f : α → Option β) :
    (work.flatten.filterMap f).Perm ((f a).toList ++ work'.flatten.filterMap f) := by
  have hperm := (takeHead_perm h).filterMap f
  rw [List.filterMap_cons] at hperm
  cases hfa : f a with
  | none => simpa [hfa] using hperm
  | some b => simpa [hfa] using hperm

end Foundations
end Breadboard
