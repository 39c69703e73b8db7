import Mathlib.Tactic.Common
import Mathlib.Data.List.Pairwise

/-!
# Blocks of memory

A ledger of the blocks that an allocator has handed out: address and length of
each.  Two blocks are apart when one ends before the other starts, and a ledger
is apart when its blocks are, pair by pair.

Main results:

- Theorem `Apart.ptr_ne`: blocks with bytes that are apart have different addresses.
- Theorem `fill_inside`: what filling a block sets.
-/

namespace Breadboard
namespace Foundations

universe u

/-- An address and a length. -/
structure Block where
  ptr : Nat
  len : Nat
  deriving Repr, DecidableEq

namespace Block

/-- The address after the block. -/
def stop (b : Block) : Nat :=
  b.ptr + b.len

/-- One of the blocks ends before the other starts. -/
def Apart (b c : Block) : Prop :=
  b.stop ≤ c.ptr ∨ c.stop ≤ b.ptr

instance (b c : Block) : Decidable (b.Apart c) :=
  inferInstanceAs (Decidable (_ ∨ _))

/-- Blocks with bytes that are apart start at different addresses. -/
theorem Apart.ptr_ne {b c : Block} (h : b.Apart c) (hb : 0 < b.len) (hc : 0 < c.len) :
    b.ptr ≠ c.ptr := by
  unfold Apart stop at h
  omega

end Block

/-- Set every byte of a block. -/
def fill {β : Type u} (mem : Nat → β) (b : Block) (v : β) : Nat → β :=
  fun addr => if b.ptr ≤ addr ∧ addr < b.stop then v else mem addr

theorem fill_inside {β : Type u} {mem : Nat → β} {b : Block} {v : β} {addr : Nat}
    (hstart : b.ptr ≤ addr) (hstop : addr < b.stop) : fill mem b v addr = v :=
  if_pos ⟨hstart, hstop⟩

end Foundations
end Breadboard
