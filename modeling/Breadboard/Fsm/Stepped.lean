import Breadboard.Fsm.Timers
import Breadboard.Foundations.Runs

/-!
# bb_fsm - what a step does

The rows, the states and the guards are arbitrary; of the actions and the hooks
it is only known that they reach the timers through `bb_fsm_arm_timer` and
`bb_fsm_disarm_timer`.  A step is then one of five things, and each says which row it
took and how the table of delays came about.

Main results:

- Theorem `findRow_spec`: the row found is the first one in table order that applies.
- Theorem `stepped_throughout`: every step after every event sequence is one of the five.
-/

namespace Breadboard
namespace Fsm

open Foundations

variable {σ S E D : Type}

/-! ## The row of a step -/

section Rows

/-- State (or wildcard) and event of a row match. -/
def Row.Applies (row : Row σ S E D) (current : S) (event : E) : Prop :=
  (row.state = some current ∨ row.state = none) ∧ row.event = event

/-- The answer of a row's guard, and the context it leaves; no guard always passes. -/
def Row.asked (row : Row σ S E D) (ctx : σ) (data : D) : Bool × σ :=
  match row.guard with
  | none => (true, ctx)
  | some guard => guard ctx data

/-- No row matches and passes; the guards that were asked take the context along. -/
inductive Skipped (current : S) (event : E) (data : D) : List (Row σ S E D) → σ → σ → Prop where
  | nil (ctx : σ) : Skipped current event data [] ctx ctx
  | unmatched {row : Row σ S E D} {rest : List (Row σ S E D)} {ctx ctx' : σ}
      (hrow : ¬ row.Applies current event) (hrest : Skipped current event data rest ctx ctx') :
      Skipped current event data (row :: rest) ctx ctx'
  | guarded {row : Row σ S E D} {rest : List (Row σ S E D)} {ctx ctx' : σ}
      (hrow : row.Applies current event) (hguard : (row.asked ctx data).1 = false)
      (hrest : Skipped current event data rest (row.asked ctx data).2 ctx') :
      Skipped current event data (row :: rest) ctx ctx'

/-- A row of the table matches and passes, and none before it does. -/
inductive Taken (current : S) (event : E) (data : D) (rows : List (Row σ S E D)) (ctx : σ)
    (row : Row σ S E D) (ctx' : σ) : Prop where
  | mk {earlier later : List (Row σ S E D)} {mid : σ} (hrows : rows = earlier ++ row :: later)
      (hearlier : Skipped current event data earlier ctx mid) (hrow : row.Applies current event)
      (hasked : row.asked mid data = (true, ctx'))

variable {current : S} {event : E} {data : D} {rows : List (Row σ S E D)} {ctx ctx' : σ}
  {row : Row σ S E D}

theorem Taken.mem (h : Taken current event data rows ctx row ctx') : row ∈ rows := by
  obtain ⟨rfl, -, -, -⟩ := h
  simp

theorem Taken.unmatched {first : Row σ S E D} (hfirst : ¬ first.Applies current event)
    (h : Taken current event data rows ctx row ctx') :
    Taken current event data (first :: rows) ctx row ctx' := by
  obtain ⟨rfl, hearlier, hrow, hasked⟩ := h
  exact ⟨List.cons_append.symm, .unmatched hfirst hearlier, hrow, hasked⟩

theorem Taken.guarded {first : Row σ S E D} (hfirst : first.Applies current event)
    (hguard : (first.asked ctx data).1 = false)
    (h : Taken current event data rows (first.asked ctx data).2 row ctx') :
    Taken current event data (first :: rows) ctx row ctx' := by
  obtain ⟨rfl, hearlier, hrow, hasked⟩ := h
  exact ⟨List.cons_append.symm, .guarded hfirst hguard hearlier, hrow, hasked⟩

/-- Guards that leave the context alone leave it alone over the whole table. -/
theorem Skipped.ctx_eq (h : Skipped current event data rows ctx ctx')
    (hpure : ∀ row ∈ rows, ∀ ctx, (row.asked ctx data).2 = ctx) : ctx' = ctx := by
  induction h with
  | nil => rfl
  | unmatched hrow hrest ih => exact ih fun row hmem => hpure row (List.mem_cons_of_mem _ hmem)
  | @guarded row rest ctx ctx' hrow hguard hrest ih =>
    rw [ih fun row hmem => hpure row (List.mem_cons_of_mem _ hmem)]
    exact hpure row List.mem_cons_self ctx

variable [DecidableEq S] [DecidableEq E]

theorem findRow_cons (rest : List (Row σ S E D)) :
    (¬ row.Applies current event ∧
      findRow current event data (row :: rest) ctx = findRow current event data rest ctx) ∨
    (row.Applies current event ∧ (row.asked ctx data).1 = true ∧
      findRow current event data (row :: rest) ctx = (some row, (row.asked ctx data).2)) ∨
    (row.Applies current event ∧ (row.asked ctx data).1 = false ∧
      findRow current event data (row :: rest) ctx =
        findRow current event data rest (row.asked ctx data).2) := by
  rw [findRow]
  unfold Row.asked
  split
  next hrow =>
    cases row.guard with
    | none => exact .inr (.inl ⟨hrow, rfl, rfl⟩)
    | some guard =>
      by_cases hpass : (guard ctx data).1 = true
      · exact .inr (.inl ⟨hrow, hpass, if_pos hpass⟩)
      · exact .inr (.inr ⟨hrow, by simpa using hpass, if_neg hpass⟩)
  next hrow => exact .inl ⟨hrow, rfl⟩

instance (row : Row σ S E D) (current : S) (event : E) : Decidable (row.Applies current event) :=
  inferInstanceAs (Decidable (_ ∧ _))

/-- Only the rows that are for the state and the event matter, in table order. -/
theorem findRow_filter (current : S) (event : E) (data : D) (rows : List (Row σ S E D)) (ctx : σ) :
    findRow current event data rows ctx =
      findRow current event data (rows.filter (Row.Applies · current event)) ctx := by
  induction rows generalizing ctx with
  | nil => rfl
  | cons row rest ih =>
    by_cases hrow : row.Applies current event
    · have hkept : (row :: rest).filter (Row.Applies · current event) =
          row :: rest.filter (Row.Applies · current event) :=
        List.filter_cons_of_pos (by simpa using hrow)
      rw [hkept]
      simp only [findRow, ih]
    · have hdropped : (row :: rest).filter (Row.Applies · current event) =
          rest.filter (Row.Applies · current event) :=
        List.filter_cons_of_neg (by simpa using hrow)
      rw [hdropped, ← ih]
      exact if_neg hrow

/-- A row for the state and the event is taken when its guard passes. -/
theorem findRow_guarded (guard : σ → D → Bool × σ) (action : Option (Body σ E → D → Body σ E))
    (next : Next S) (rest : List (Row σ S E D)) :
    findRow current event data (⟨some current, event, some guard, action, next⟩ :: rest) ctx =
      if (guard ctx data).1 = true then
        (some ⟨some current, event, some guard, action, next⟩, (guard ctx data).2)
      else findRow current event data rest (guard ctx data).2 :=
  if_pos ⟨.inl rfl, rfl⟩

/-- A row for the state and the event without a guard is taken. -/
theorem findRow_unguarded (action : Option (Body σ E → D → Body σ E)) (next : Next S)
    (rest : List (Row σ S E D)) :
    findRow current event data (⟨some current, event, none, action, next⟩ :: rest) ctx =
      (some ⟨some current, event, none, action, next⟩, ctx) :=
  if_pos ⟨.inl rfl, rfl⟩

/-- The row that `find_row` returns is the first that applies; NULL means that none does. -/
theorem findRow_spec (current : S) (event : E) (data : D) (rows : List (Row σ S E D)) (ctx : σ) :
    (∃ ctx', findRow current event data rows ctx = (none, ctx') ∧
      Skipped current event data rows ctx ctx') ∨
    ∃ row ctx', findRow current event data rows ctx = (some row, ctx') ∧
      Taken current event data rows ctx row ctx' := by
  induction rows generalizing ctx with
  | nil => exact .inl ⟨ctx, rfl, .nil ctx⟩
  | cons row rest ih =>
    obtain ⟨hrow, hfind⟩ | ⟨hrow, hpass, hfind⟩ | ⟨hrow, hfail, hfind⟩ :=
      @findRow_cons σ S E D current event data ctx row _ _ rest
    · obtain ⟨ctx', hrest, hskipped⟩ | ⟨taken, ctx', hrest, htaken⟩ := ih ctx
      · exact .inl ⟨ctx', hfind.trans hrest, .unmatched hrow hskipped⟩
      · exact .inr ⟨taken, ctx', hfind.trans hrest, htaken.unmatched hrow⟩
    · exact .inr ⟨row, _, hfind, List.nil_append _ |>.symm, .nil ctx, hrow, Prod.ext hpass rfl⟩
    · obtain ⟨ctx', hrest, hskipped⟩ | ⟨taken, ctx', hrest, htaken⟩ := ih (row.asked ctx data).2
      · exact .inl ⟨ctx', hfind.trans hrest, .guarded hrow hfail hskipped⟩
      · exact .inr ⟨taken, ctx', hfind.trans hrest, htaken.guarded hrow hfail⟩

end Rows

/-! ## Actions and hooks that only arm and disarm -/

section Hooks

variable [DecidableEq E]

/-- The timers change by calls of arm and disarm only; which, may depend on what is seen. -/
def OnlyTimers (f : Body σ E → Body σ E) : Prop :=
  ∀ b, ∃ calls, (f b).timers = afterCalls b.timers calls

/-- A descriptor all of whose actions and hooks are so. -/
structure Desc.OnlyTimers (desc : Desc σ S E D) : Prop where
  action : ∀ row ∈ desc.rows, ∀ f, row.action = some f → ∀ data, Fsm.OnlyTimers (f · data)
  onEntry : ∀ sd ∈ desc.states, ∀ f, sd.onEntry = some f → Fsm.OnlyTimers f
  onExit : ∀ sd ∈ desc.states, ∀ f, sd.onExit = some f → Fsm.OnlyTimers f

/-- From one table to another by calls, no event being armed twice on the way. -/
structure Performs (calls : List (TimerCall E)) (before after : List (Timer E)) : Prop where
  slots : after = afterCalls before calls
  distinct : ∀ made, made <+: calls → Distinct (afterCalls before made)
  table : delay after = tableAfter (delay before) before calls

omit [DecidableEq E] in
theorem delay_clearTimers_eq [DecidableEq E] {timers : List (Timer E)} :
    delay (clearTimers timers) = fun _ => none :=
  funext fun _ => delay_clearTimers _

theorem performs_of_eq {before after : List (Timer E)} {calls : List (TimerCall E)}
    (h : Distinct before) (hafter : after = afterCalls before calls) :
    Performs calls before after where
  slots := hafter
  distinct made _ := (afterCalls_spec h made).1
  table := hafter ▸ (afterCalls_spec h calls).2

theorem Performs.distinct_after {before after : List (Timer E)} {calls : List (TimerCall E)}
    (h : Performs calls before after) : Distinct after :=
  h.slots ▸ h.distinct calls (List.prefix_refl calls)

variable {desc : Desc σ S E D}

theorem only_runAction (hdesc : desc.OnlyTimers) {row : Row σ S E D} (hrow : row ∈ desc.rows)
    (data : D) : OnlyTimers (runAction row · data) := by
  intro b
  unfold runAction
  split
  next action haction => exact hdesc.action row hrow action haction data b
  next => exact ⟨[], rfl⟩

variable [DecidableEq S]

omit [DecidableEq E] in
theorem mem_of_findStateDesc {state : S} {sd : StateDesc σ S E}
    (h : findStateDesc desc state = some sd) : sd ∈ desc.states :=
  List.mem_of_find?_eq_some h

theorem only_runEntry (hdesc : desc.OnlyTimers) (state : S) : OnlyTimers (runEntry desc state) := by
  intro b
  unfold runEntry
  split
  next onEntry hentry =>
    obtain ⟨sd, hsd, hhook⟩ := Option.bind_eq_some_iff.mp hentry
    exact hdesc.onEntry sd (mem_of_findStateDesc hsd) onEntry hhook b
  next => exact ⟨[], rfl⟩

theorem only_runExit (hdesc : desc.OnlyTimers) (state : S) : OnlyTimers (runExit desc state) := by
  intro b
  unfold runExit
  split
  next onExit hexit =>
    obtain ⟨sd, hsd, hhook⟩ := Option.bind_eq_some_iff.mp hexit
    exact hdesc.onExit sd (mem_of_findStateDesc hsd) onExit hhook b
  next => exact ⟨[], rfl⟩

theorem performs_of_only {f : Body σ E → Body σ E} (hf : OnlyTimers f) {b : Body σ E}
    (h : Distinct b.timers) : ∃ calls, Performs calls b.timers (f b).timers := by
  obtain ⟨calls, hcalls⟩ := hf b
  exact ⟨calls, performs_of_eq h hcalls⟩

end Hooks

/-! ## The moves -/

section Moves

variable [DecidableEq S] [DecidableEq E]

/-- What is armed on entry to a state: what its entry hook arms, on a table of nothing. -/
structure Entered (desc : Desc σ S E D) (state : S) (calls : List (TimerCall E))
    (before after : Body σ E) : Prop where
  hook : after = runEntry desc state { before with timers := clearTimers before.timers }
  performs : Performs calls (clearTimers before.timers) after.timers
  armed : delay after.timers = tableAfter (fun _ => none) (clearTimers before.timers) calls

/-- What `bb_fsm_step` can do. -/
inductive Moves (desc : Desc σ S E D) (m : Machine σ S E) (event : E) (data : D) :
    BbErr → Machine σ S E → Prop where
  | refused (hterminal : m.terminal = true) : Moves desc m event data .invalidState m
  | notFound {ctx : σ} (hlive : m.terminal = false)
      (hskipped : Skipped m.current event data desc.rows m.body.ctx ctx) :
      Moves desc m event data .notFound { m with body := { m.body with ctx := ctx } }
  | same {row : Row σ S E D} {ctx : σ} {acted : Body σ E} {calls : List (TimerCall E)}
      (hlive : m.terminal = false)
      (htaken : Taken m.current event data desc.rows m.body.ctx row ctx) (hnext : row.next = .same)
      (hacted : acted = runAction row { m.body with ctx := ctx } data)
      (hcalls : Performs calls m.body.timers acted.timers) :
      Moves desc m event data .ok { m with body := acted }
  | terminal {row : Row σ S E D} {ctx : σ} {acted : Body σ E} {calls : List (TimerCall E)}
      (hlive : m.terminal = false)
      (htaken : Taken m.current event data desc.rows m.body.ctx row ctx)
      (hnext : row.next = .terminal)
      (hacted : acted = runAction row { m.body with ctx := ctx } data)
      (hcalls : Performs calls m.body.timers acted.timers) :
      Moves desc m event data .ok
        { m with terminal := true, body := { acted with timers := clearTimers acted.timers } }
  | moved {row : Row σ S E D} {ctx : σ} {state : S} {acted left entered : Body σ E}
      {calls leaving entering : List (TimerCall E)} (hlive : m.terminal = false)
      (htaken : Taken m.current event data desc.rows m.body.ctx row ctx)
      (hnext : row.next = .to state)
      (hacted : acted = runAction row { m.body with ctx := ctx } data)
      (hcalls : Performs calls m.body.timers acted.timers)
      (hleft : left = runExit desc m.current acted)
      (hleaving : Performs leaving acted.timers left.timers)
      (hentered : Entered desc state entering left entered) :
      Moves desc m event data .ok { m with current := state, body := entered }

variable {desc : Desc σ S E D}

theorem entered_runEntry (hdesc : desc.OnlyTimers) (state : S) (b : Body σ E) :
    ∃ calls, Entered desc state calls b
      (runEntry desc state { b with timers := clearTimers b.timers }) := by
  have hcleared : Distinct ({ b with timers := clearTimers b.timers } : Body σ E).timers :=
    distinct_clearTimers
  obtain ⟨calls, hcalls⟩ := performs_of_only (only_runEntry hdesc state) hcleared
  refine ⟨calls, rfl, hcalls, ?_⟩
  rw [hcalls.table]
  exact congrArg (tableAfter · _ calls) delay_clearTimers_eq

theorem moves_step (hdesc : desc.OnlyTimers) {m : Machine σ S E} (h : Distinct m.body.timers)
    (event : E) (data : D) :
    Moves desc m event data (step desc m event data).1 (step desc m event data).2 := by
  unfold step
  split
  next hterminal => exact .refused hterminal
  next hlive =>
    have hlive : m.terminal = false := by simpa using hlive
    obtain ⟨ctx, hfind, hskipped⟩ | ⟨row, ctx, hfind, htaken⟩ :=
      findRow_spec m.current event data desc.rows m.body.ctx
    · rw [hfind]
      exact .notFound hlive hskipped
    · rw [hfind]
      have hbefore : Distinct ({ m.body with ctx := ctx } : Body σ E).timers := h
      obtain ⟨calls, hcalls⟩ := performs_of_only (only_runAction hdesc htaken.mem data) hbefore
      dsimp only
      match hnext : row.next with
      | .same => exact .same hlive htaken hnext rfl hcalls
      | .terminal => exact .terminal hlive htaken hnext rfl hcalls
      | .to state =>
        obtain ⟨leaving, hleaving⟩ :=
          performs_of_only (only_runExit hdesc m.current) hcalls.distinct_after
        obtain ⟨entering, hentering⟩ := entered_runEntry hdesc state
          (runExit desc m.current (runAction row { m.body with ctx := ctx } data))
        exact .moved hlive htaken hnext rfl hcalls rfl hleaving hentering

/-- What holds between the steps: no event twice, and nothing armed once terminal. -/
structure Settled (m : Machine σ S E) : Prop where
  distinct : Distinct m.body.timers
  none_armed : m.terminal = true → Fsm.armed m.body.timers = []

theorem settled_init (hdesc : desc.OnlyTimers) (initial : S) (b : Body σ E) :
    Settled (init desc initial b) := by
  obtain ⟨calls, hentered⟩ := entered_runEntry hdesc initial b
  exact ⟨hentered.performs.distinct_after, nofun⟩

theorem Moves.settled {m m' : Machine σ S E} {event : E} {data : D} {rc : BbErr}
    (hm : Settled m) (h : Moves desc m event data rc m') : Settled m' := by
  cases h with
  | refused hterminal => exact hm
  | notFound hlive hskipped => exact ⟨hm.distinct, hm.none_armed⟩
  | same hlive htaken hnext hacted hcalls =>
    refine ⟨hcalls.distinct_after, fun hterminal => ?_⟩
    rw [hlive] at hterminal
    cases hterminal
  | terminal => exact ⟨distinct_clearTimers, fun _ => armed_clearTimers⟩
  | moved hlive htaken hnext hacted hcalls hleft hleaving hentered =>
    refine ⟨hentered.performs.distinct_after, fun hterminal => ?_⟩
    rw [hlive] at hterminal
    cases hterminal

/-- With guards that change nothing, a step that finds no row changes nothing. -/
theorem Moves.eq_of_notFound {m m' : Machine σ S E} {event : E} {data : D} {rc : BbErr}
    (h : Moves desc m event data rc m')
    (hpure : ∀ row ∈ desc.rows, ∀ ctx data, (row.asked ctx data).2 = ctx) (hrc : rc = .notFound) :
    m' = m := by
  cases h with
  | notFound hlive hskipped => rw [hskipped.ctx_eq fun row hrow ctx => hpure row hrow ctx data]
  | refused => cases hrc
  | same => cases hrc
  | terminal => cases hrc
  | moved => cases hrc

/-- A machine fed with an event. -/
def fed (desc : Desc σ S E D) (m : Machine σ S E) (input : E × D) : Machine σ S E :=
  (step desc m input.1 input.2).2

theorem step_of_terminal {m : Machine σ S E} (h : m.terminal = true) (event : E) (data : D) :
    step desc m event data = (.invalidState, m) :=
  if_pos h

/-- Once terminal, always terminal: no later event does anything. -/
theorem run_of_terminal {m : Machine σ S E} (h : m.terminal = true) (inputs : List (E × D)) :
    run (fed desc) m inputs = m := by
  induction inputs with
  | nil => rfl
  | cons input inputs ih =>
    rw [run_cons, fed, step_of_terminal h]
    exact ih

theorem settled_run (hdesc : desc.OnlyTimers) (initial : S) (b : Body σ E)
    (inputs : List (E × D)) : Settled (run (fed desc) (init desc initial b) inputs) :=
  run_invariant (fun _ input hm => (moves_step hdesc hm.distinct input.1 input.2).settled hm)
    (settled_init hdesc initial b) inputs

/-- After every event sequence, for every further event. -/
theorem stepped_throughout (hdesc : desc.OnlyTimers) (initial : S) (b : Body σ E)
    (inputs : List (E × D)) :
    let m := run (fed desc) (init desc initial b) inputs
    (∃ calls, Entered desc initial calls b (init desc initial b).body) ∧
      Distinct m.body.timers ∧
      (∀ event data,
        Moves desc m event data (step desc m event data).1 (step desc m event data).2) ∧
      ((∀ row ∈ desc.rows, ∀ ctx data, (row.asked ctx data).2 = ctx) → ∀ event data,
        (step desc m event data).1 = .notFound → (step desc m event data).2 = m) ∧
      (m.terminal = true → Fsm.armed m.body.timers = [] ∧ ∀ later event data,
        run (fed desc) m later = m ∧ step desc m event data = (.invalidState, m)) := by
  intro m
  have hsettled : Settled m := settled_run hdesc initial b inputs
  refine ⟨entered_runEntry hdesc initial b, hsettled.distinct,
    moves_step hdesc hsettled.distinct, fun hpure event data => ?_, fun hterminal => ?_⟩
  · exact (moves_step hdesc hsettled.distinct event data).eq_of_notFound hpure
  · refine ⟨hsettled.none_armed hterminal, fun later event data => ?_⟩
    exact ⟨run_of_terminal hterminal later, step_of_terminal hterminal event data⟩

/-- Event 0 leaves for a state that arms a timeout, and the timeout comes back. -/
def blink : Desc Unit Bool Nat Unit where
  rows :=
    [{ state := some false, event := 0, guard := none, action := some fun b _ => b.arm 7 10,
       next := .to true },
     { state := none, event := 5, guard := none, action := none, next := .to false }]
  states := [{ state := true, onEntry := some fun b => b.arm 5 100, onExit := none }]

theorem onlyTimers_arm (event ms : Nat) : OnlyTimers (fun b : Body Unit Nat => b.arm event ms) :=
  fun _ => ⟨[.arm event ms], rfl⟩

theorem blink_onlyTimers : blink.OnlyTimers where
  action row hrow f hf data := by
    rcases List.mem_pair.mp hrow with rfl | rfl
    · cases hf
      exact onlyTimers_arm 7 10
    · cases hf
  onEntry sd hsd f hf := by
    cases List.mem_singleton.mp hsd
    cases hf
    exact onlyTimers_arm 5 100
  onExit sd hsd f hf := by
    cases List.mem_singleton.mp hsd
    cases hf

/-- A run of it, from a slot that was left armed. -/
def blinked : Machine Unit Bool Nat :=
  run (fed blink) (init blink false ⟨(), [⟨3, 4, true⟩]⟩) [(0, ()), (5, ()), (0, ())]

theorem blink_stepped : Fsm.armed blinked.body.timers = [(5, 100)] ∧ Distinct blinked.body.timers :=
  ⟨by decide,
    (stepped_throughout blink_onlyTimers false ⟨(), [⟨3, 4, true⟩]⟩ [(0, ()), (5, ()), (0, ())]).2.1⟩

end Moves

end Fsm
end Breadboard
