import Mathlib.Tactic.Common

/-!
# A message in pieces

A piece is part of a message and says at which offset.  Pieces are in order when each begins
where those before it end; in order and long enough, they give back the message they are cut
from.

Main results:

- Theorem `content_eq_of_cut`: what is cut out of a message in order and has its length
  is the message.
- Theorem `take_overwrite`: writing a piece behind what has been written.
-/

namespace Breadboard
namespace Foundations

universe u v

/-- Some bytes of a message, and where they are in it. -/
structure Piece (ι : Type u) (α : Type v) where
  msg : ι
  offset : Nat
  data : List α

section Pieces

variable {ι : Type u} {α : Type v} {m : ι}

/-- Pieces of one message, each where the one before ends; the first at the offset given. -/
def InOrder (m : ι) : Nat → List (Piece ι α) → Prop
  | _, [] => True
  | off, p :: rest => p.msg = m ∧ p.offset = off ∧ InOrder m (off + p.data.length) rest

/-- The bytes of some pieces. -/
def content (ps : List (Piece ι α)) : List α :=
  ps.flatMap Piece.data

@[simp] theorem content_nil : content ([] : List (Piece ι α)) = [] :=
  rfl

@[simp] theorem content_cons (p : Piece ι α) (ps : List (Piece ι α)) :
    content (p :: ps) = p.data ++ content ps :=
  rfl

theorem content_append (ps qs : List (Piece ι α)) :
    content (ps ++ qs) = content ps ++ content qs :=
  List.flatMap_append

theorem inOrder_append {off : Nat} {ps : List (Piece ι α)} {p : Piece ι α}
    (h : InOrder m off ps) (hmsg : p.msg = m) (hoffset : p.offset = off + (content ps).length) :
    InOrder m off (ps ++ [p]) := by
  induction ps generalizing off with
  | nil => exact ⟨hmsg, hoffset, trivial⟩
  | cons q ps ih =>
    refine ⟨h.1, h.2.1, ih h.2.2 ?_⟩
    rw [hoffset, content_cons, List.length_append, Nat.add_assoc]

/-- A piece cut out of its message. -/
def Piece.Cut (p : Piece ι α) (message : ι → List α) : Prop :=
  p.data = ((message p.msg).drop p.offset).take p.data.length

theorem content_eq_take_of_cut {message : ι → List α} {off : Nat} {ps : List (Piece ι α)}
    (h : InOrder m off ps) (hcut : ∀ p ∈ ps, p.Cut message) :
    content ps = ((message m).drop off).take (content ps).length := by
  induction ps generalizing off with
  | nil => rw [content_nil, List.length_nil, List.take_zero]
  | cons p ps ih =>
    obtain ⟨hmsg, hoffset, hrest⟩ := h
    have hfirst : p.data = ((message m).drop off).take p.data.length := by
      have hp := hcut p List.mem_cons_self
      rwa [Piece.Cut, hmsg, hoffset] at hp
    have hothers := ih hrest fun q hq => hcut q (List.mem_cons_of_mem p hq)
    rw [content_cons, List.length_append, List.take_add, List.drop_drop, ← hfirst, ← hothers]

/-- In order from the start and with the length of the message, they are the message. -/
theorem content_eq_of_cut {message : ι → List α} {ps : List (Piece ι α)} (h : InOrder m 0 ps)
    (hcut : ∀ p ∈ ps, p.Cut message) (hlength : (content ps).length = (message m).length) :
    content ps = message m := by
  have htake := content_eq_take_of_cut h hcut
  rwa [List.drop_zero, hlength, List.take_length] at htake

end Pieces

section Overwrite

variable {α : Type v}

/-- Write a list into another one from an offset on. -/
def overwrite (xs : List α) (off : Nat) (ys : List α) : List α :=
  xs.take off ++ ys ++ xs.drop (off + ys.length)

theorem length_overwrite {xs ys : List α} {off : Nat} (hroom : off + ys.length ≤ xs.length) :
    (overwrite xs off ys).length = xs.length := by
  rw [overwrite, List.length_append, List.length_append, List.length_take, List.length_drop,
    Nat.min_eq_left (by omega)]
  omega

theorem take_overwrite {xs ys : List α} {off : Nat} (hroom : off + ys.length ≤ xs.length) :
    (overwrite xs off ys).take (off + ys.length) = xs.take off ++ ys := by
  refine List.take_left' ?_
  rw [List.length_append, List.length_take, Nat.min_eq_left (by omega)]

end Overwrite

end Foundations
end Breadboard
