import Breadboard.Foundations.Runs
import Mathlib.Logic.Function.Basic
import Mathlib.Data.List.Nodup
import Mathlib.Algebra.GroupWithZero.Nat

/-!
# What a condition variable promises

A condition variable as its callers see it: a waiter registers, releases the
lock it came with, and comes back either woken or timed out.  A signal wakes one
registered waiter if there is one, a broadcast wakes all of them.  The order of
these observations is the contract: an implementation is correct when each of
its runs puts out a sequence that `Allows` admits step by step.

Main results:

- Theorem `wakes_eq_woken_add`: in an admitted sequence every wake-up of a
  waiter is matched by exactly one return of it as woken.
-/

namespace Breadboard
namespace Foundations
namespace ConditionVariable

universe u

variable {τ : Type u}

/-- Where a waiter stands; `given` says whether its wake-up has been delivered. -/
inductive Phase where
  | away
  | registered
  | expired
  | signalled (given : Bool)
  deriving DecidableEq, Repr

/-- How a wait ends. -/
inductive Outcome where
  | woken
  | timedOut
  deriving DecidableEq, Repr

/-- What happens at a condition variable. -/
inductive Obs (τ : Type u) where
  /-- A waiter registers. -/
  | register (w : τ)
  /-- A waiter releases the lock it came with. -/
  | release (w : τ)
  /-- A signal wakes the given waiter, or found none. -/
  | signal (woken : Option τ)
  /-- A broadcast wakes the given waiters. -/
  | broadcast (woken : List τ)
  /-- The wake-up of a waiter is delivered to it. -/
  | give (w : τ)
  /-- A waiter gives up. -/
  | expire (w : τ)
  /-- A wait returns. -/
  | back (w : τ) (outcome : Outcome)

/-- The contract: when an observation may happen. -/
def Allows (ph : τ → Phase) : Obs τ → Prop
  | .register w => ph w = .away
  | .release w => ph w ≠ .away
  | .signal none => ∀ w, ph w ≠ .registered
  | .signal (some w) => ph w = .registered
  | .broadcast ws => ws.Nodup ∧ ∀ w, w ∈ ws ↔ ph w = .registered
  | .give w => ph w = .signalled false
  | .expire w => ph w = .registered
  | .back w .woken => ph w = .signalled true
  | .back w .timedOut => ph w = .expired

variable [DecidableEq τ]

/-- The phases after an observation. -/
def next (ph : τ → Phase) : Obs τ → τ → Phase
  | .register w => Function.update ph w .registered
  | .release _ => ph
  | .signal none => ph
  | .signal (some w) => Function.update ph w (.signalled false)
  | .broadcast ws => fun w => if w ∈ ws then .signalled false else ph w
  | .give w => Function.update ph w (.signalled true)
  | .expire w => Function.update ph w .expired
  | .back w _ => Function.update ph w .away

/-- Number of times an observation wakes `w`. -/
def wakes (w : τ) : Obs τ → Nat
  | .signal (some v) => if v = w then 1 else 0
  | .broadcast ws => ws.count w
  | _ => 0

/-- Number of times an observation is a return of `w` as woken. -/
def wokenReturns (w : τ) : Obs τ → Nat
  | .back v .woken => if v = w then 1 else 0
  | _ => 0

/-- One if the waiter has been woken and has not returned. -/
def Phase.owed : Phase → Nat
  | .signalled _ => 1
  | _ => 0

/-- One observation changes what is owed by the wake-ups less the returns. -/
theorem owed_next {ph : τ → Phase} {o : Obs τ} (h : Allows ph o) (w : τ) :
    wakes w o + (ph w).owed = wokenReturns w o + (next ph o w).owed := by
  cases o with
  | register v =>
    by_cases hv : w = v
    · subst hv
      have haway : ph w = .away := h
      simp [wakes, wokenReturns, next, haway, Phase.owed]
    · simp [wakes, wokenReturns, next, Function.update_of_ne hv]
  | release v => simp [wakes, wokenReturns, next]
  | signal woken =>
    cases woken with
    | none => simp [wakes, wokenReturns, next]
    | some v =>
      by_cases hv : w = v
      · subst hv
        have hreg : ph w = .registered := h
        simp [wakes, wokenReturns, next, hreg, Phase.owed]
      · have hv' : ¬ v = w := fun heq => hv heq.symm
        simp [wakes, wokenReturns, next, Function.update_of_ne hv, hv']
  | broadcast ws =>
    by_cases hmem : w ∈ ws
    · have hreg : ph w = .registered := (h.2 w).mp hmem
      simp [wakes, wokenReturns, next, hmem, hreg, Phase.owed, List.count_eq_one_of_mem h.1 hmem]
    · simp [wakes, wokenReturns, next, hmem, List.count_eq_zero_of_not_mem hmem]
  | give v =>
    by_cases hv : w = v
    · subst hv
      have hsig : ph w = .signalled false := h
      simp [wakes, wokenReturns, next, hsig, Phase.owed]
    · simp [wakes, wokenReturns, next, Function.update_of_ne hv]
  | expire v =>
    by_cases hv : w = v
    · subst hv
      have hreg : ph w = .registered := h
      simp [wakes, wokenReturns, next, hreg, Phase.owed]
    · simp [wakes, wokenReturns, next, Function.update_of_ne hv]
  | back v outcome =>
    by_cases hv : w = v
    · subst hv
      cases outcome with
      | woken =>
        have hsig : ph w = .signalled true := h
        simp [wakes, wokenReturns, next, hsig, Phase.owed]
      | timedOut =>
        have hexp : ph w = .expired := h
        simp [wakes, wokenReturns, next, hexp, Phase.owed]
    · have hv' : ¬ v = w := fun heq => hv heq.symm
      cases outcome <;> simp [wakes, wokenReturns, next, Function.update_of_ne hv, hv']

/-- In an admitted sequence every wake-up is matched by one return or is still owed. -/
theorem wakes_eq_woken_add {ph : τ → Phase} {os : List (Obs τ)} (h : Along next Allows ph os)
    (w : τ) :
    (os.map (wakes w)).sum + (ph w).owed =
      (os.map (wokenReturns w)).sum + (run next ph os w).owed := by
  induction os generalizing ph with
  | nil => simp
  | cons o os ih =>
    have hstep := owed_next h.1 w
    have hrest := ih h.2
    simp only [List.map_cons, List.sum_cons, run_cons]
    omega

end ConditionVariable
end Foundations
end Breadboard
