import Breadboard.Fsm.Engine
import Mathlib.Data.List.Nodup
import Mathlib.Logic.Function.Basic

/-!
# bb_fsm - the timer slots as a table of delays

What is armed is a table: to each event the delay it is armed with.  A call of
`bb_fsm_arm_timer` or `bb_fsm_disarm_timer` that succeeds sets one entry, and no
two slots ever carry one event.

Main results:

- Theorem `armTimer_spec`: what an arm does to the table, and when it fails.
- Theorem `afterCalls_spec`: the same for a sequence of calls.
-/

namespace Breadboard
namespace Fsm

variable {E : Type} {timers : List (Timer E)}

/-! ## The slots -/

section Slots

variable [DecidableEq E]

/-- `bb_fsm_disarm_timer`. -/
def disarmTimer (timeoutEvent : E) : List (Timer E) → List (Timer E)
  | [] => []
  | t :: rest =>
    if t.armed ∧ t.event = timeoutEvent then { t with armed := false } :: rest
    else t :: disarmTimer timeoutEvent rest

/-- The delay under which an event is armed. -/
def delay (timers : List (Timer E)) (event : E) : Option Nat :=
  (timers.find? fun t => t.armed ∧ t.event = event).map Timer.ms

omit [DecidableEq E] in
/-- No two armed slots carry the same event. -/
def Distinct (timers : List (Timer E)) : Prop :=
  ((armed timers).map Prod.fst).Nodup

omit [DecidableEq E] in
/-- `bb_fsm_timer_count`. -/
def timerCount (timers : List (Timer E)) : Nat :=
  timers.countP (·.armed)

omit [DecidableEq E] in
/-- `bb_fsm_timer_at`. -/
def timerAt : List (Timer E) → Nat → Option (E × Nat)
  | [], _ => none
  | t :: rest, i =>
    if t.armed then
      match i with
      | 0 => some (t.event, t.ms)
      | i + 1 => timerAt rest i
    else timerAt rest i

@[simp] theorem delay_nil (event : E) : delay ([] : List (Timer E)) event = none :=
  rfl

theorem delay_cons (t : Timer E) (rest : List (Timer E)) (event : E) : delay (t :: rest) event =
    if t.armed ∧ t.event = event then some t.ms else delay rest event := by
  unfold delay
  by_cases h : t.armed = true ∧ t.event = event
  · rw [List.find?_cons_of_pos (by simpa using h), if_pos h]
    rfl
  · rw [List.find?_cons_of_neg (by simpa using h), if_neg h]

@[simp] theorem delay_clearTimers (event : E) : delay (clearTimers timers) event = none := by
  induction timers with
  | nil => rfl
  | cons t rest ih =>
    have hcons : clearTimers (t :: rest) = { t with armed := false } :: clearTimers rest := rfl
    rw [hcons, delay_cons, if_neg (by simp), ih]

omit [DecidableEq E] in
theorem distinct_clearTimers : Distinct (clearTimers timers) := by
  rw [Distinct, armed_clearTimers]
  exact List.nodup_nil

theorem delay_eq_none_iff {event : E} :
    delay timers event = none ↔ event ∉ (armed timers).map Prod.fst := by
  induction timers with
  | nil => simp [armed]
  | cons t rest ih =>
    rw [delay_cons, armed_cons]
    cases harmed : t.armed with
    | false => simpa using ih
    | true =>
      by_cases hevent : t.event = event
      · simp [hevent]
      · have hne : event ≠ t.event := fun h => hevent h.symm
        simp only [hevent, and_false, if_false, ih, if_true, List.map_cons, List.mem_cons, hne, false_or]

omit [DecidableEq E] in
theorem Distinct.tail {t : Timer E} {rest : List (Timer E)} (h : Distinct (t :: rest)) :
    Distinct rest := by
  rw [Distinct, armed_cons] at h
  split at h
  · exact (List.nodup_cons.mp h).2
  · exact h

theorem distinct_cons_iff {t : Timer E} {rest : List (Timer E)} :
    Distinct (t :: rest) ↔ (t.armed = true → delay rest t.event = none) ∧ Distinct rest := by
  rw [Distinct, armed_cons, delay_eq_none_iff]
  cases t.armed with
  | false => simp [Distinct]
  | true => simp [Distinct]

end Slots

/-! ## One call -/

section Call

variable [DecidableEq E] {event : E} {ms : Nat}

/-- The delays other than that of one event are left alone. -/
theorem delay_cons_update {t : Timer E} {rest rest' : List (Timer E)} {v : Option Nat}
    (hne : ¬ (t.armed = true ∧ t.event = event))
    (h : delay rest' = Function.update (delay rest) event v) :
    delay (t :: rest') = Function.update (delay (t :: rest)) event v := by
  funext e
  rw [delay_cons, h]
  by_cases he : e = event
  · rw [he, Function.update_self, Function.update_self, if_neg hne]
  · rw [Function.update_of_ne he, Function.update_of_ne he, delay_cons]

theorem rearm_eq_none_iff : rearm event ms timers = none ↔ delay timers event = none := by
  induction timers with
  | nil => simp [rearm]
  | cons t rest ih =>
    rw [rearm, delay_cons]
    split
    · simp
    · rw [Option.map_eq_none_iff, ih]

theorem delay_disarm (h : Distinct timers) :
    delay (disarmTimer event timers) = Function.update (delay timers) event none := by
  induction timers with
  | nil =>
    funext e
    simp [disarmTimer, Function.update]
  | cons t rest ih =>
    rw [disarmTimer]
    split
    next heq =>
      obtain ⟨hnone, -⟩ := distinct_cons_iff.mp h
      funext e
      rw [delay_cons, if_neg (by simp)]
      by_cases he : e = event
      · rw [he, Function.update_self, ← heq.2]
        exact hnone heq.1
      · rw [Function.update_of_ne he, delay_cons, if_neg fun ht => he (ht.2.symm.trans heq.2)]
    next hne => exact delay_cons_update hne (ih h.tail)

omit [DecidableEq E] in
theorem Distinct.sublist {timers' : List (Timer E)} (h : Distinct timers)
    (hsub : (armed timers').Sublist (armed timers)) : Distinct timers' :=
  (hsub.map Prod.fst).nodup h

theorem armed_disarm_sublist : (armed (disarmTimer event timers)).Sublist (armed timers) := by
  induction timers with
  | nil => exact List.Sublist.slnil
  | cons t rest ih =>
    rw [disarmTimer]
    split
    next heq =>
      rw [armed_cons, armed_cons, if_neg (by simp), if_pos heq.1]
      exact List.sublist_cons_self _ _
    next =>
      rw [armed_cons, armed_cons]
      split
      · exact ih.cons_cons _
      · exact ih

theorem rearm_zero {timers' : List (Timer E)} (h : rearm event 0 timers = some timers') :
    timers' = disarmTimer event timers := by
  induction timers generalizing timers' with
  | nil => cases h
  | cons t rest ih =>
    rw [rearm] at h
    rw [disarmTimer]
    split at h
    next heq =>
      rw [if_pos heq]
      exact (Option.some.inj h).symm
    next hne =>
      obtain ⟨rest', hrest, rfl⟩ := Option.map_eq_some_iff.mp h
      rw [if_neg hne, ih hrest]

/-- Arming again changes one delay and no event. -/
theorem rearm_spec {timers' : List (Timer E)} (hms : ms ≠ 0)
    (h : rearm event ms timers = some timers') :
    delay timers' = Function.update (delay timers) event (some ms) ∧
      (armed timers').map Prod.fst = (armed timers).map Prod.fst := by
  induction timers generalizing timers' with
  | nil => cases h
  | cons t rest ih =>
    rw [rearm] at h
    split at h
    next heq =>
      cases h
      constructor
      · funext e
        rw [delay_cons]
        by_cases he : e = event
        · rw [he, Function.update_self, if_pos heq]
        · have hother : ¬ (t.armed = true ∧ t.event = e) := fun ht => he (ht.2.symm.trans heq.2)
          rw [Function.update_of_ne he, delay_cons, if_neg hother, if_neg hother]
      · rw [armed_cons, armed_cons, if_pos heq.1, if_pos heq.1]
        rfl
    next hne =>
      obtain ⟨rest', hrest, rfl⟩ := Option.map_eq_some_iff.mp h
      obtain ⟨hdelay, harmed⟩ := ih hrest
      refine ⟨delay_cons_update hne hdelay, ?_⟩
      rw [armed_cons, armed_cons]
      split
      · rw [List.map_cons, List.map_cons, harmed]
      · exact harmed

/-- Taking a free slot adds one event. -/
theorem armFree_spec {timers' : List (Timer E)} (hnone : delay timers event = none)
    (h : armFree event ms timers = some timers') :
    delay timers' = Function.update (delay timers) event (some ms) ∧
      ((armed timers').map Prod.fst).Perm (event :: (armed timers).map Prod.fst) := by
  induction timers generalizing timers' with
  | nil => cases h
  | cons t rest ih =>
    rw [armFree] at h
    rw [delay_cons] at hnone
    split at h
    next harmed =>
      obtain ⟨rest', hrest, rfl⟩ := Option.map_eq_some_iff.mp h
      split at hnone
      · cases hnone
      next hne =>
        obtain ⟨hdelay, hperm⟩ := ih hnone hrest
        refine ⟨delay_cons_update hne hdelay, ?_⟩
        rw [armed_cons, armed_cons, if_pos harmed, if_pos harmed]
        exact (hperm.cons _).trans (List.Perm.swap ..)
    next hfree =>
      cases h
      constructor
      · funext e
        rw [delay_cons]
        by_cases he : e = event
        · rw [he, Function.update_self, if_pos ⟨rfl, rfl⟩]
        · rw [Function.update_of_ne he, delay_cons, if_neg fun ht => he ht.2.symm,
            if_neg fun ht => hfree ht.1]
      · rw [armed_cons, armed_cons, if_pos rfl, if_neg hfree]
        exact List.Perm.refl _

omit [DecidableEq E] in
theorem armFree_eq_none_iff : armFree event ms timers = none ↔ timerCount timers = timers.length := by
  induction timers with
  | nil => simp [armFree, timerCount]
  | cons t rest ih =>
    have hle : rest.countP (·.armed) ≤ rest.length := List.countP_le_length
    rw [armFree, timerCount, List.countP_cons, List.length_cons]
    rw [timerCount] at ih
    split
    · rw [Option.map_eq_none_iff, ih]
      omega
    · constructor
      · simp
      · intro hfull
        omega

/-- What an arm does to the table, and when it fails. -/
theorem armTimer_spec (h : Distinct timers) (event : E) (ms : Nat) :
    Distinct (armTimer timers event ms).2 ∧
      ((armTimer timers event ms).1 = .ok ∧ delay (armTimer timers event ms).2 =
          Function.update (delay timers) event (if ms = 0 then none else some ms) ∨
        (armTimer timers event ms) = (.noSpace, timers) ∧ ms ≠ 0 ∧ delay timers event = none ∧
          timerCount timers = timers.length) := by
  unfold armTimer
  split
  next timers' hrearm =>
    by_cases hms : ms = 0
    · rw [hms] at hrearm ⊢
      rw [rearm_zero hrearm]
      exact ⟨h.sublist armed_disarm_sublist, .inl ⟨rfl, delay_disarm h⟩⟩
    · obtain ⟨hdelay, harmed⟩ := rearm_spec hms hrearm
      rw [if_neg hms]
      refine ⟨?_, .inl ⟨rfl, hdelay⟩⟩
      rw [Distinct, harmed]
      exact h
  next hrearm =>
    have hnone := rearm_eq_none_iff.mp hrearm
    split
    next hms =>
      rw [← hnone, Function.update_eq_self]
      exact ⟨h, .inl ⟨rfl, rfl⟩⟩
    next hms =>
      split
      next timers' hfree =>
        obtain ⟨hdelay, hperm⟩ := armFree_spec hnone hfree
        refine ⟨?_, .inl ⟨rfl, hdelay⟩⟩
        exact hperm.nodup_iff.mpr (List.nodup_cons.mpr ⟨delay_eq_none_iff.mp hnone, h⟩)
      next hfull => exact ⟨h, .inr ⟨rfl, hms, hnone, armFree_eq_none_iff.mp hfull⟩⟩

end Call

/-! ## Sequences of calls -/

section Calls

variable [DecidableEq E]

omit [DecidableEq E] in
/-- A call of an action or a hook. -/
inductive TimerCall (E : Type) where
  | arm (event : E) (ms : Nat)
  | disarm (event : E)
  deriving Repr, DecidableEq

def TimerCall.run (timers : List (Timer E)) : TimerCall E → BbErr × List (Timer E)
  | .arm event ms => armTimer timers event ms
  | .disarm event => (.ok, disarmTimer event timers)

/-- The slots after a sequence of calls. -/
def afterCalls (timers : List (Timer E)) (calls : List (TimerCall E)) : List (Timer E) :=
  calls.foldl (fun timers call => (call.run timers).2) timers

/-- What a call that returned `rc` does to the table. -/
def TimerCall.set (table : E → Option Nat) (rc : BbErr) : TimerCall E → E → Option Nat
  | .arm event ms =>
    if rc = .ok then Function.update table event (if ms = 0 then none else some ms) else table
  | .disarm event => Function.update table event none

/-- The table after a sequence of calls on slots: what the successful calls have set. -/
def tableAfter (table : E → Option Nat) : List (Timer E) → List (TimerCall E) → E → Option Nat
  | _, [] => table
  | timers, call :: calls =>
    tableAfter (call.set table (call.run timers).1) (call.run timers).2 calls

theorem run_spec (h : Distinct timers) (call : TimerCall E) :
    Distinct (call.run timers).2 ∧
      delay (call.run timers).2 = call.set (delay timers) (call.run timers).1 := by
  cases call with
  | arm event ms =>
    obtain ⟨hdistinct, ⟨hok, hdelay⟩ | ⟨hfull, -, -, -⟩⟩ := armTimer_spec h event ms
    · refine ⟨hdistinct, ?_⟩
      rw [TimerCall.run, TimerCall.set, if_pos hok]
      exact hdelay
    · rw [TimerCall.run, TimerCall.set, hfull]
      exact ⟨h, rfl⟩
  | disarm event => exact ⟨h.sublist armed_disarm_sublist, delay_disarm h⟩

/-- A sequence of calls keeps the events distinct, and sets what its successful calls set. -/
theorem afterCalls_spec (h : Distinct timers) (calls : List (TimerCall E)) :
    Distinct (afterCalls timers calls) ∧
      delay (afterCalls timers calls) = tableAfter (delay timers) timers calls := by
  induction calls generalizing timers with
  | nil => exact ⟨h, rfl⟩
  | cons call calls ih =>
    obtain ⟨hdistinct, hdelay⟩ := run_spec h call
    rw [tableAfter, ← hdelay]
    exact ih hdistinct

end Calls

end Fsm
end Breadboard
