import Mathlib.Tactic.Common

/-!
# Output through a bounded buffer

Pieces are pushed into a buffer of a fixed capacity.  Before a piece that does not fit, what is
pending is handed over as one parcel.  Every parcel is answered, by its number, and the first
answer that is not `good` becomes the status, which ends the output.

Main results:

- Theorem `Emits.written`: with a good status everything pushed is sent or pending.
- Theorem `Emits.sound`: parcels are neither empty nor too large, and after a bad answer
  there is none.
-/

namespace Breadboard
namespace Foundations
namespace BoundedOutput

universe u v

/-- What is pending, the parcels so far, and the status. -/
structure Output (α : Type u) (ε : Type v) where
  pending : List α
  sent : List (List α)
  status : ε

section

variable {α : Type u} {ε : Type v} [DecidableEq ε]

/-- All that was pushed, as far as it is not lost. -/
def Output.written (o : Output α ε) : List α :=
  o.sent.flatten ++ o.pending

variable (good : ε) (cap : Nat) (answer : Nat → ε)

/-- Hand over what is pending. -/
def flush (o : Output α ε) : Output α ε :=
  if o.status = good then ⟨[], o.sent ++ [o.pending], answer o.sent.length⟩ else o

/-- Take a piece, after a flush if it does not fit. -/
def push (o : Output α ε) (piece : List α) : Output α ε :=
  if o.status = good then
    if cap < o.pending.length + piece.length then
      let o' := flush good answer o
      if o'.status = good then { o' with pending := o'.pending ++ piece } else o'
    else { o with pending := o.pending ++ piece }
  else o

/-- Pieces that fit the buffer and make up `w` lead from one output to the other. -/
inductive Emits : Output α ε → List α → Output α ε → Prop where
  | nil (o : Output α ε) : Emits o [] o
  | push {o o' : Output α ε} {piece w : List α} (hfits : piece.length ≤ cap)
      (h : Emits (push good cap answer o piece) w o') : Emits o (piece ++ w) o'

/-- Parcels are not empty and fit the buffer; one with a bad answer is the last. -/
structure Sound (o : Output α ε) : Prop where
  parcels : ∀ p ∈ o.sent, p ≠ [] ∧ p.length ≤ cap
  room : o.pending.length ≤ cap
  answered : ∀ k, k < o.sent.length → answer k ≠ good →
    k + 1 = o.sent.length ∧ o.status = answer k

variable {good cap answer} {o o' o'' : Output α ε} {piece w w' : List α}

/-! ## One piece -/

theorem push_of_bad (h : o.status ≠ good) (piece : List α) : push good cap answer o piece = o := by
  rw [push, if_neg h]

theorem push_of_fits (h : o.status = good) (hfits : o.pending.length + piece.length ≤ cap) :
    push good cap answer o piece = { o with pending := o.pending ++ piece } := by
  rw [push, if_pos h, if_neg (Nat.not_lt.mpr hfits)]

theorem flush_of_good (h : o.status = good) :
    flush good answer o = ⟨[], o.sent ++ [o.pending], answer o.sent.length⟩ := by
  rw [flush, if_pos h]

/-- A piece that does not fit, when the parcel before it is taken well or badly. -/
theorem push_of_overflow (h : o.status = good) (hfull : cap < o.pending.length + piece.length) :
    push good cap answer o piece =
      if answer o.sent.length = good then
        ⟨piece, o.sent ++ [o.pending], answer o.sent.length⟩
      else ⟨[], o.sent ++ [o.pending], answer o.sent.length⟩ := by
  rw [push, if_pos h, if_pos hfull, flush_of_good h]
  rfl

theorem written_push (h : (push good cap answer o piece).status = good) :
    o.status = good ∧ (push good cap answer o piece).written = o.written ++ piece := by
  by_cases hgood : o.status = good
  swap
  · rw [push_of_bad hgood] at h
    exact absurd h hgood
  refine ⟨hgood, ?_⟩
  by_cases hfull : cap < o.pending.length + piece.length
  · rw [push_of_overflow hgood hfull] at h ⊢
    by_cases hanswer : answer o.sent.length = good
    · rw [if_pos hanswer]
      simp [Output.written]
    · rw [if_neg hanswer] at h
      exact absurd h hanswer
  · rw [push_of_fits hgood (Nat.not_lt.mp hfull)]
    simp [Output.written]

/-- What is pushed last is pending. -/
theorem pending_push_ne (h : (push good cap answer o piece).status = good) (hne : piece ≠ []) :
    (push good cap answer o piece).pending ≠ [] := by
  have hgood := (written_push h).1
  by_cases hfull : cap < o.pending.length + piece.length
  · rw [push_of_overflow hgood hfull] at h ⊢
    by_cases hanswer : answer o.sent.length = good
    · rw [if_pos hanswer]
      exact hne
    · rw [if_neg hanswer] at h
      exact absurd h hanswer
  · rw [push_of_fits hgood (Nat.not_lt.mp hfull)]
    exact List.append_ne_nil_of_right_ne_nil _ hne

/-- A push leaves the status good, or makes it the answer of a parcel. -/
theorem push_status (h : o.status = good) :
    (push good cap answer o piece).status = good ∨
      ∃ k, k < (push good cap answer o piece).sent.length ∧
        (push good cap answer o piece).status = answer k := by
  by_cases hfull : cap < o.pending.length + piece.length
  · right
    refine ⟨o.sent.length, ?_⟩
    rw [push_of_overflow h hfull]
    split
    · exact ⟨by rw [List.length_append]; exact Nat.lt_succ_self _, rfl⟩
    · exact ⟨by rw [List.length_append]; exact Nat.lt_succ_self _, rfl⟩
  · rw [push_of_fits h (Nat.not_lt.mp hfull)]
    exact Or.inl h

theorem good_push (hanswer : ∀ k, answer k = good) (h : o.status = good) (piece : List α) :
    (push good cap answer o piece).status = good := by
  by_cases hfull : cap < o.pending.length + piece.length
  · rw [push_of_overflow h hfull, if_pos (hanswer _)]
    exact hanswer _
  · rw [push_of_fits h (Nat.not_lt.mp hfull)]
    exact h

/-! ## Soundness -/

/-- With a good status all parcels so far were taken well. -/
theorem Sound.taken (hs : Sound good cap answer o) (h : o.status = good) {k : Nat}
    (hk : k < o.sent.length) : answer k = good := by
  by_contra hbad
  exact hbad ((hs.answered k hk hbad).2.symm.trans h)

/-- One more parcel. -/
theorem Sound.parcel (hs : Sound good cap answer o) (h : o.status = good) (hne : o.pending ≠ [])
    {rest : List α} (hrest : rest.length ≤ cap) :
    Sound good cap answer ⟨rest, o.sent ++ [o.pending], answer o.sent.length⟩ := by
  constructor
  · intro p hp
    rcases List.mem_append.mp hp with hold | hnew
    · exact hs.parcels p hold
    · rw [List.mem_singleton.mp hnew]
      exact ⟨hne, hs.room⟩
  · exact hrest
  · intro k hk hbad
    dsimp only at hk ⊢
    rw [List.length_append, List.length_singleton] at hk ⊢
    by_cases hlast : k = o.sent.length
    · rw [hlast]
      exact ⟨rfl, rfl⟩
    · exact absurd (hs.taken h (by omega)) hbad

theorem Sound.flush (hs : Sound good cap answer o) (hne : o.status = good → o.pending ≠ []) :
    Sound good cap answer (flush good answer o) := by
  by_cases h : o.status = good
  · rw [flush_of_good h]
    exact hs.parcel h (hne h) (Nat.zero_le cap)
  · rw [BoundedOutput.flush, if_neg h]
    exact hs

theorem Sound.push (hs : Sound good cap answer o) (hfits : piece.length ≤ cap) :
    Sound good cap answer (push good cap answer o piece) := by
  by_cases h : o.status = good
  swap
  · rw [push_of_bad h]
    exact hs
  by_cases hfull : cap < o.pending.length + piece.length
  · -- a piece that fits the buffer overflows only one that is not empty
    have hne : o.pending ≠ [] := by
      intro hempty
      rw [hempty, List.length_nil] at hfull
      omega
    rw [push_of_overflow h hfull]
    split
    · exact hs.parcel h hne hfits
    · exact hs.parcel h hne (Nat.zero_le cap)
  · rw [push_of_fits h (Nat.not_lt.mp hfull)]
    refine ⟨hs.parcels, ?_, hs.answered⟩
    rw [List.length_append]
    exact Nat.not_lt.mp hfull

/-- The status may also turn bad for another reason. -/
theorem Sound.fail (hs : Sound good cap answer o) (h : o.status = good) (e : ε) :
    Sound good cap answer { o with status := e } :=
  ⟨hs.parcels, hs.room, fun _ hk hbad => absurd (hs.taken h hk) hbad⟩

/-! ## Many pieces -/

namespace Emits

theorem single (o : Output α ε) (hfits : piece.length ≤ cap) :
    Emits good cap answer o piece (BoundedOutput.push good cap answer o piece) := by
  have hone := Emits.push (o := o) hfits (Emits.nil (BoundedOutput.push good cap answer o piece))
  rw [List.append_nil] at hone
  exact hone

theorem trans (h : Emits good cap answer o w o') (h' : Emits good cap answer o' w' o'') :
    Emits good cap answer o (w ++ w') o'' := by
  induction h with
  | nil o => exact h'
  | push hfits _ ih =>
    rw [List.append_assoc]
    exact .push hfits (ih h')

/-- With a bad status nothing is pushed, whatever it is. -/
theorem idle (hcap : 0 < cap) (h : o.status ≠ good) (w : List α) : Emits good cap answer o w o := by
  induction w with
  | nil => exact .nil o
  | cons a w ih =>
    have hstay : BoundedOutput.push good cap answer o [a] = o := push_of_bad h [a]
    apply @Emits.push α ε _ good cap answer o o [a] w hcap
    rw [hstay]
    exact ih

theorem written (h : Emits good cap answer o w o') (hgood : o'.status = good) :
    o.status = good ∧ o'.written = o.written ++ w := by
  induction h with
  | nil o => exact ⟨hgood, (List.append_nil _).symm⟩
  | push _ _ ih =>
    rcases ih hgood with ⟨hpushed, hrest⟩
    rcases written_push hpushed with ⟨hfirst, hwritten⟩
    refine ⟨hfirst, ?_⟩
    rw [hrest, hwritten, List.append_assoc]

theorem sound (h : Emits good cap answer o w o') (hs : Sound good cap answer o) :
    Sound good cap answer o' := by
  induction h with
  | nil o => exact hs
  | push hfits _ ih => exact ih (hs.push hfits)

theorem good_of_answers (h : Emits good cap answer o w o') (hanswer : ∀ k, answer k = good)
    (hgood : o.status = good) : o'.status = good := by
  induction h with
  | nil o => exact hgood
  | @push o _ piece _ _ _ ih => exact ih (good_push hanswer hgood piece)

end Emits

end

end BoundedOutput
end Foundations
end Breadboard
