import Mathlib.Tactic.Common

/-!
# Calls over durable state that power loss may cut short

A call is straight-line code over durable state.  Every durable operation of a
call is atomic and meets a fate: it lands, it fails and changes nothing, or
power is lost right before or right after it.  A call that loses power returns
nothing, and what it left on the medium stays.  The fates are a script the call
consumes, one entry an operation; a script that runs out lets every further
operation land.

A statement about a call therefore has two ends: a postcondition for the runs
that return, and a crash condition for the runs that do not.

Main results:

- Theorem `wp_bind`: calls compose, and a crash of either part is a crash.
- Theorem `wp_attempt`: one durable operation, one case a fate.
-/

namespace Breadboard
namespace Foundations

/-! ## Calls -/

/-- What becomes of one durable operation. -/
inductive Fate (ε : Type) where
  | done
  | failed (e : ε)
  | lostBefore
  | lostAfter
  deriving Repr, DecidableEq

/-- Durable state, with the fates still ahead. -/
structure Medium (ε σ : Type) where
  state : σ
  fates : List (Fate ε)

/-- A call: its answer, or nothing when power is lost, and the medium it leaves. -/
def Call (ε σ α : Type) : Type :=
  Medium ε σ → Option α × Medium ε σ

section Calls

variable {ε σ α β : Type}

instance : Monad (Call ε σ) where
  pure a := fun m => (some a, m)
  bind c f := fun m =>
    match c m with
    | (some a, m') => f a m'
    | (none, m') => (none, m')

/-- One atomic durable operation, under the next fate of the script. -/
def attempt (f : σ → α × σ) : Call ε σ (Except ε α) := fun m =>
  match m.fates.headD .done with
  | .done => (some (.ok (f m.state).1), ⟨(f m.state).2, m.fates.tail⟩)
  | .failed e => (some (.error e), ⟨m.state, m.fates.tail⟩)
  | .lostBefore => (none, ⟨m.state, m.fates.tail⟩)
  | .lostAfter => (none, ⟨(f m.state).2, m.fates.tail⟩)

/-- An effect that is no durable operation: it always happens. -/
def effect (f : σ → σ) : Call ε σ Unit := fun m =>
  (some (), ⟨f m.state, m.fates⟩)

/-! ## Weakest preconditions -/

/--
Run from `m`, the call returns only answers and media that satisfy
`Q`, and power loss leaves only states that satisfy `C`.
-/
def wp (c : Call ε σ α) (m : Medium ε σ) (Q : α → Medium ε σ → Prop) (C : σ → Prop) : Prop :=
  match c m with
  | (some a, m') => Q a m'
  | (none, m') => C m'.state

variable {m m' : Medium ε σ} {Q : α → Medium ε σ → Prop} {C : σ → Prop}

@[simp] theorem wp_pure (a : α) : wp (pure a : Call ε σ α) m Q C ↔ Q a m :=
  Iff.rfl

@[simp] theorem wp_bind {c : Call ε σ β} {f : β → Call ε σ α} :
    wp (c >>= f) m Q C ↔ wp c m (fun b m' => wp (f b) m' Q C) C := by
  simp only [wp, bind]
  cases c m with
  | mk answer m' => cases answer <;> rfl

@[simp] theorem wp_effect {f : σ → σ} {Q : Unit → Medium ε σ → Prop} :
    wp (effect f) m Q C ↔ Q () ⟨f m.state, m.fates⟩ :=
  Iff.rfl

/-- One durable operation: every fate the script may hold for it. -/
theorem wp_attempt {f : σ → α × σ} {Q : Except ε α → Medium ε σ → Prop}
    (hdone : m.fates.headD .done = .done →
      Q (.ok (f m.state).1) ⟨(f m.state).2, m.fates.tail⟩)
    (hfailed : ∀ e, m.fates.headD .done = .failed e →
      Q (.error e) ⟨m.state, m.fates.tail⟩)
    (hbefore : m.fates.headD .done = .lostBefore → C m.state)
    (hafter : m.fates.headD .done = .lostAfter → C (f m.state).2) :
    wp (attempt f) m Q C := by
  simp only [wp, attempt]
  cases hfate : m.fates.headD .done with
  | done => exact hdone hfate
  | failed e => exact hfailed e hfate
  | lostBefore => exact hbefore hfate
  | lostAfter => exact hafter hfate

/-- What a statement says of the outcome of a run. -/
theorem wp_elim {c : Call ε σ α} (h : wp c m Q C) :
    (∃ a m', c m = (some a, m') ∧ Q a m') ∨ (∃ m', c m = (none, m') ∧ C m'.state) := by
  simp only [wp] at h
  cases hrun : c m with
  | mk answer m' =>
    rw [hrun] at h
    cases answer with
    | none => exact Or.inr ⟨m', rfl, h⟩
    | some a => exact Or.inl ⟨a, m', rfl, h⟩

end Calls

end Foundations
end Breadboard
