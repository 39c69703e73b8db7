import Mathlib.Tactic.Common

/-!
# Starts and stops of a resource

A resource is started, which may fail, and stopped.  Starts and stops are paired
when the resource is down at every start and up at every stop: between a start
that succeeded and the next start there is exactly one stop.

Main results:

- Theorem `paired_append`: pairing of two histories, one after the other.
-/

namespace Breadboard
namespace Foundations

/-- One call on a resource. -/
inductive StartStop where
  | started
  | startFailed
  | stopped
  deriving Repr, DecidableEq

/-- Whether the resource is up after a history. -/
def upAfter (up : Bool) : List StartStop → Bool
  | [] => up
  | .started :: rest => upAfter true rest
  | .startFailed :: rest => upAfter up rest
  | .stopped :: rest => upAfter false rest

/-- The resource is down at every start and up at every stop. -/
def Paired (up : Bool) : List StartStop → Prop
  | [] => True
  | .started :: rest => up = false ∧ Paired true rest
  | .startFailed :: rest => up = false ∧ Paired up rest
  | .stopped :: rest => up = true ∧ Paired false rest

@[simp] theorem upAfter_append (up : Bool) (l m : List StartStop) :
    upAfter up (l ++ m) = upAfter (upAfter up l) m := by
  induction l generalizing up with
  | nil => rfl
  | cons e rest ih => cases e <;> simp [upAfter, ih]

theorem paired_append (up : Bool) (l m : List StartStop) :
    Paired up (l ++ m) ↔ Paired up l ∧ Paired (upAfter up l) m := by
  induction l generalizing up with
  | nil => simp [Paired, upAfter]
  | cons e rest ih => cases e <;> simp [Paired, upAfter, ih, and_assoc]

end Foundations
end Breadboard
