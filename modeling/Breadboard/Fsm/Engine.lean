import Breadboard.Core.Basics

/-!
# bb_fsm - table-driven state machines

A machine is a table of rows (state, event, guard, action, next state), entry
and exit hooks, and a fixed array of timer slots that the actions and hooks arm
and the owner's event loop turns into real timers.  Guards see the context of
the owner and may read its clock, so they return the context too; actions and
hooks also get the timers.

Main results:

- Theorem `armed_armTimer_of_none`, `armed_armTimer_of_same`: what arming a timer
  leaves armed.
- Theorem `armed_clearTimers`: nothing stays armed after a clear.
-/

namespace Breadboard
namespace Fsm

/-- One slot of the `timers` array. -/
structure Timer (E : Type) where
  event : E
  ms : Nat
  armed : Bool
  deriving Repr, DecidableEq

/-- What an action or a hook works on: the owner's context and the timers. -/
structure Body (σ E : Type) where
  ctx : σ
  timers : List (Timer E)

/-- The `next` of a row: a state or one of the sentinels SAME and TERMINAL. -/
inductive Next (S : Type) where
  | same
  | terminal
  | to (state : S)
  deriving Repr, DecidableEq

/-- `bb_fsm_row_t`; a state of `none` is BB_FSM_STATE_ANY, `D` is the event data. -/
structure Row (σ S E D : Type) where
  state : Option S
  event : E
  guard : Option (σ → D → Bool × σ)
  action : Option (Body σ E → D → Body σ E)
  next : Next S

/-- `bb_fsm_state_desc_t`. -/
structure StateDesc (σ S E : Type) where
  state : S
  onEntry : Option (Body σ E → Body σ E)
  onExit : Option (Body σ E → Body σ E)

/-- `bb_fsm_desc_t`; the context is part of the machine here. -/
structure Desc (σ S E D : Type) where
  rows : List (Row σ S E D)
  states : List (StateDesc σ S E)

/-- `struct bb_fsm` with the owner's context. -/
structure Machine (σ S E : Type) where
  current : S
  terminal : Bool
  body : Body σ E

variable {σ S E D : Type}

/-! ## Timers -/

section Timers

/-- `clear_timers`. -/
def clearTimers (timers : List (Timer E)) : List (Timer E) :=
  timers.map fun t => { t with armed := false }

variable [DecidableEq E]

/-- Overwrite or disarm the slot armed under an event, if there is one. -/
def rearm (timeoutEvent : E) (ms : Nat) : List (Timer E) → Option (List (Timer E))
  | [] => none
  | t :: rest =>
    if t.armed ∧ t.event = timeoutEvent then
      some ((if ms = 0 then { t with armed := false } else { t with ms := ms }) :: rest)
    else (rearm timeoutEvent ms rest).map (t :: ·)

/-- Arm the first free slot. -/
def armFree (timeoutEvent : E) (ms : Nat) : List (Timer E) → Option (List (Timer E))
  | [] => none
  | t :: rest =>
    if t.armed then (armFree timeoutEvent ms rest).map (t :: ·)
    else some ({ event := timeoutEvent, ms := ms, armed := true } :: rest)

/-- `bb_fsm_arm_timer`. -/
def armTimer (timers : List (Timer E)) (timeoutEvent : E) (ms : Nat) :
    BbErr × List (Timer E) :=
  match rearm timeoutEvent ms timers with
  | some timers' => (.ok, timers')
  | none =>
    if ms = 0 then (.ok, timers)
    else
      match armFree timeoutEvent ms timers with
      | some timers' => (.ok, timers')
      | none => (.noSpace, timers)

omit [DecidableEq E] in
/-- The armed timers, in slot order: what `bb_fsm_timer_at` enumerates. -/
def armed (timers : List (Timer E)) : List (E × Nat) :=
  timers.filterMap fun t => if t.armed then some (t.event, t.ms) else none

/-- `bb_fsm_arm_timer` for an action or a hook, which ignore its status. -/
def Body.arm (b : Body σ E) (timeoutEvent : E) (ms : Nat) : Body σ E :=
  { b with timers := (armTimer b.timers timeoutEvent ms).2 }

end Timers

/-! ## The engine -/

section Engine

variable [DecidableEq S] [DecidableEq E] (desc : Desc σ S E D)

/-- `find_state_desc`. -/
def findStateDesc (state : S) : Option (StateDesc σ S E) :=
  desc.states.find? fun sd => sd.state = state

/-- `run_entry`. -/
def runEntry (state : S) (b : Body σ E) : Body σ E :=
  match (findStateDesc desc state).bind StateDesc.onEntry with
  | some onEntry => onEntry b
  | none => b

/-- `run_exit`. -/
def runExit (state : S) (b : Body σ E) : Body σ E :=
  match (findStateDesc desc state).bind StateDesc.onExit with
  | some onExit => onExit b
  | none => b

/-- `find_row`: the first row that matches and whose guard passes. -/
def findRow (current : S) (event : E) (data : D) :
    List (Row σ S E D) → σ → Option (Row σ S E D) × σ
  | [], ctx => (none, ctx)
  | row :: rest, ctx =>
    if (row.state = some current ∨ row.state = none) ∧ row.event = event then
      match row.guard with
      | none => (some row, ctx)
      | some guard =>
        if (guard ctx data).1 then (some row, (guard ctx data).2)
        else findRow current event data rest (guard ctx data).2
    else findRow current event data rest ctx

/-- `bb_fsm_init` on a context and timer slots with any content. -/
def init (initial : S) (b : Body σ E) : Machine σ S E :=
  { current := initial
    terminal := false
    body := runEntry desc initial { b with timers := clearTimers b.timers } }

/-- The action of a row, if it has one. -/
def runAction (row : Row σ S E D) (b : Body σ E) (data : D) : Body σ E :=
  match row.action with
  | some action => action b data
  | none => b

/-- What `bb_fsm_step` does with the `next` of the row after its action. -/
def transition (m : Machine σ S E) (next : Next S) : Machine σ S E :=
  match next with
  | .same => m
  | .terminal =>
    { m with terminal := true, body := { m.body with timers := clearTimers m.body.timers } }
  | .to state =>
    let left := runExit desc m.current m.body
    { m with
      current := state
      body := runEntry desc state { left with timers := clearTimers left.timers } }

/-- `bb_fsm_step`. -/
def step (m : Machine σ S E) (event : E) (data : D) : BbErr × Machine σ S E :=
  if m.terminal then (.invalidState, m)
  else
    match findRow m.current event data desc.rows m.body.ctx with
    | (none, ctx) => (.notFound, { m with body := { m.body with ctx := ctx } })
    | (some row, ctx) =>
      let body := runAction row { m.body with ctx := ctx } data
      (.ok, transition desc { m with body := body } row.next)

end Engine

/-! ## What is armed -/

section Armed

variable {timers : List (Timer E)}

@[simp] theorem armed_nil : armed ([] : List (Timer E)) = [] :=
  rfl

@[simp] theorem armed_clearTimers : armed (clearTimers timers) = [] := by
  simp [armed, clearTimers]

@[simp] theorem length_clearTimers : (clearTimers timers).length = timers.length := by
  simp [clearTimers]

theorem armed_cons (t : Timer E) (rest : List (Timer E)) :
    armed (t :: rest) = if t.armed then (t.event, t.ms) :: armed rest else armed rest := by
  cases h : t.armed <;> simp [armed, h]

variable [DecidableEq E] {event : E} {ms : Nat}

theorem rearm_of_none (h : armed timers = []) : rearm event ms timers = none := by
  induction timers with
  | nil => rfl
  | cons t rest ih =>
    rw [armed_cons] at h
    split at h
    · cases h
    · rename_i hoff
      rw [rearm, if_neg (by simp [hoff]), ih h, Option.map_none]

/-- Arming a timer when none is armed: it becomes the only one, unless its delay is 0. -/
theorem armed_armTimer_of_none (h : armed timers = []) (hslots : timers ≠ []) :
    armed (armTimer timers event ms).2 = if ms = 0 then [] else [(event, ms)] := by
  rw [armTimer, rearm_of_none h]
  by_cases hms : ms = 0
  · simp only [if_pos hms]
    exact h
  · simp only [if_neg hms]
    cases timers with
    | nil => exact absurd rfl hslots
    | cons t rest =>
      rw [armed_cons] at h
      split at h
      · cases h
      · rename_i hoff
        rw [armFree, if_neg hoff]
        simp [armed_cons, h]

/-- Arming again under the event that is armed changes its delay. -/
theorem armed_armTimer_of_same {old : Nat} (h : armed timers = [(event, old)]) (hms : ms ≠ 0) :
    armed (armTimer timers event ms).2 = [(event, ms)] := by
  have hrearm : ∃ timers', rearm event ms timers = some timers' ∧ armed timers' = [(event, ms)] := by
    induction timers with
    | nil => cases h
    | cons t rest ih =>
      rw [armed_cons] at h
      split at h
      · rename_i hon
        obtain ⟨hhead, hrest⟩ := List.cons.inj h
        obtain ⟨rfl, rfl⟩ := Prod.mk.inj hhead
        refine ⟨{ t with ms := ms } :: rest, ?_, ?_⟩
        · simp [rearm, hon, hms]
        · simp [armed_cons, hon, hrest]
      · rename_i hoff
        obtain ⟨timers', hsome, harmed⟩ := ih h
        refine ⟨t :: timers', ?_, ?_⟩
        · simp [rearm, hoff, hsome]
        · simp [armed_cons, hoff, harmed]
  obtain ⟨timers', hsome, harmed⟩ := hrearm
  rw [armTimer, hsome]
  exact harmed

theorem length_rearm {timers' : List (Timer E)} (h : rearm event ms timers = some timers') :
    timers'.length = timers.length := by
  induction timers generalizing timers' with
  | nil => cases h
  | cons t rest ih =>
    rw [rearm] at h
    split at h
    · cases h
      rfl
    · obtain ⟨rest', hrest, rfl⟩ := Option.map_eq_some_iff.mp h
      rw [List.length_cons, List.length_cons, ih hrest]

omit [DecidableEq E] in
theorem length_armFree {timers' : List (Timer E)} (h : armFree event ms timers = some timers') :
    timers'.length = timers.length := by
  induction timers generalizing timers' with
  | nil => cases h
  | cons t rest ih =>
    rw [armFree] at h
    split at h
    · obtain ⟨rest', hrest, rfl⟩ := Option.map_eq_some_iff.mp h
      rw [List.length_cons, List.length_cons, ih hrest]
    · cases h
      rfl

@[simp] theorem length_armTimer : (armTimer timers event ms).2.length = timers.length := by
  unfold armTimer
  split
  · rename_i h
    exact length_rearm h
  split
  · rfl
  split
  · rename_i h
    exact length_armFree h
  · rfl

end Armed

end Fsm
end Breadboard
