import Breadboard.Foundations.Runs
import Breadboard.Foundations.StartStop
import Breadboard.Fsm.Engine

/-!
# bb_wifi_prov - access point, portal and timer in step with the state

The adapter answers the two starts in the order they are asked for; every call
through it is recorded in the context.  An entry attempt takes up to three steps:
the entry event starts the access point, and the driver posts two synthetic
events, one after each start that succeeded.

Between two calls of the driver the access point and the portal are up exactly
in the two states after the idle one, since the portal keeps serving while a
saved form settles; the active flag and the settle timer follow the state too.
Inside an entry attempt this does not hold: the access point is up while the
machine is still idle, and the driver either goes on or has rolled it back.

The synthetic events belong to the driver.  Posted by anybody else they start
the portal, or leave the idle state, with nothing behind them.

Main results:

- Theorem `inStep_driveEntry`: an entry attempt keeps everything in step.
- Theorem `inStep_run`: so does every run of posted events and entry attempts.
-/

namespace Breadboard
namespace WifiProv

open Fsm Foundations

/-! ## The machine -/

/-- `wp_state_t`. -/
inductive WpState where
  | idle
  | active
  | closing
  deriving Repr, DecidableEq

/-- `wp_event_t`. -/
inductive WpEvent where
  | entryFirstBoot
  | entryDeprovAnomaly
  | entryUserRequested
  | apStartOk
  | provStartOk
  | saveSuccess
  | settleTimeout
  deriving Repr, DecidableEq

/-- `wifi_prov_log_evt_t`. -/
inductive LogEvt where
  | entryFirstBoot
  | entryDeprovAnomaly
  | entryUserRequested
  | entryAlreadyActive
  | apStartFailed
  | provStartFailed
  | portalOpen
  | portalClosed
  deriving Repr, DecidableEq

/-- A call through the adapter, with the outcome of a start. -/
inductive AdapterCall where
  | apStart (ok : Bool)
  | apStop
  | provStart (ok : Bool)
  | provStop
  | credsArrivedNotify
  | log (evt : LogEvt)
  | provActiveSet (active : Bool)
  deriving Repr, DecidableEq

/-- `wifi_prov_adapter_t`: the n-th answers of `ap_start_fn` and `prov_start_fn`. -/
structure Adapter where
  apStart : Nat → BbErr
  provStart : Nat → BbErr

/-- `wifi_prov_ctx_t`, with how often the starts were called and the calls made so far. -/
structure Ctx where
  lastOpOk : Bool
  settleMs : Nat
  apStarts : Nat
  provStarts : Nat
  calls : List AdapterCall

abbrev WpBody := Body Ctx WpEvent

abbrev WpMachine := Machine Ctx WpState WpEvent

/-- Record a call. -/
def Ctx.tell (ctx : Ctx) (c : AdapterCall) : Ctx :=
  { ctx with calls := ctx.calls ++ [c] }

/-- `settle_ms_floor`. -/
def settleMsFloor (ms : Nat) : Nat :=
  if ms = 0 then 1 else ms

/-- `entry_log_evt`. -/
def entryLogEvt (event : WpEvent) : LogEvt :=
  if event = .entryFirstBoot then .entryFirstBoot
  else if event = .entryDeprovAnomaly then .entryDeprovAnomaly
  else .entryUserRequested

variable (ad : Adapter)

/-! ## Actions -/

/-- `act_try_ap_start`. -/
def actTryApStart (event : WpEvent) (b : WpBody) (_ : Unit) : WpBody :=
  let ok := decide (ad.apStart b.ctx.apStarts = .ok)
  let ctx := (b.ctx.tell (.log (entryLogEvt event))).tell (.apStart ok)
  let ctx := { ctx with lastOpOk := ok, apStarts := ctx.apStarts + 1 }
  { b with ctx := if ok then ctx else ctx.tell (.log .apStartFailed) }

/-- `act_try_prov_start`: a failure takes the access point down again. -/
def actTryProvStart (b : WpBody) (_ : Unit) : WpBody :=
  let ok := decide (ad.provStart b.ctx.provStarts = .ok)
  let ctx := b.ctx.tell (.provStart ok)
  let ctx := { ctx with lastOpOk := ok, provStarts := ctx.provStarts + 1 }
  { b with ctx := if ok then ctx else (ctx.tell .apStop).tell (.log .provStartFailed) }

/-- `act_reentry_noop`. -/
def actReentryNoop (b : WpBody) (_ : Unit) : WpBody :=
  { b with ctx := b.ctx.tell (.log .entryAlreadyActive) }

/-- `act_close_portal`. -/
def actClosePortal (b : WpBody) (_ : Unit) : WpBody :=
  { b with
    ctx := (((b.ctx.tell .provStop).tell .apStop).tell .credsArrivedNotify).tell
      (.log .portalClosed) }

/-! ## Hooks -/

/-- `wp_active_on_entry`. -/
def wpActiveOnEntry (b : WpBody) : WpBody :=
  { b with ctx := (b.ctx.tell (.log .portalOpen)).tell (.provActiveSet true) }

/-- `wp_idle_on_entry`. -/
def wpIdleOnEntry (b : WpBody) : WpBody :=
  { b with ctx := b.ctx.tell (.provActiveSet false) }

/-- `wp_closing_on_entry`. -/
def wpClosingOnEntry (b : WpBody) : WpBody :=
  b.arm .settleTimeout (settleMsFloor b.ctx.settleMs)

/-! ## The table -/

/-- `wp_rows`. -/
def wpRows : List (Row Ctx WpState WpEvent Unit) :=
  [ ⟨some .idle, .entryFirstBoot, none, some (actTryApStart ad .entryFirstBoot), .same⟩,
    ⟨some .idle, .entryDeprovAnomaly, none, some (actTryApStart ad .entryDeprovAnomaly), .same⟩,
    ⟨some .idle, .entryUserRequested, none, some (actTryApStart ad .entryUserRequested), .same⟩,
    ⟨some .idle, .apStartOk, none, some (actTryProvStart ad), .same⟩,
    ⟨some .idle, .provStartOk, none, none, .to .active⟩,
    ⟨some .active, .entryUserRequested, none, some actReentryNoop, .same⟩,
    ⟨some .active, .saveSuccess, none, none, .to .closing⟩,
    ⟨some .closing, .settleTimeout, none, some actClosePortal, .to .idle⟩ ]

/-- `wp_states`. -/
def wpStates : List (StateDesc Ctx WpState WpEvent) :=
  [ ⟨.idle, some wpIdleOnEntry, none⟩,
    ⟨.active, some wpActiveOnEntry, none⟩,
    ⟨.closing, some wpClosingOnEntry, none⟩ ]

/-- The description that `wifi_prov_fsm_init` fills in. -/
def wpDesc : Desc Ctx WpState WpEvent Unit :=
  { rows := wpRows ad, states := wpStates }

/-- `wifi_prov_fsm_init`, before any call, with timer slots of any content. -/
def wifiProvFsmInit (initial : WpState) (settleMs : Nat) (timers : List (Timer WpEvent)) :
    WpMachine :=
  Fsm.init (wpDesc ad) initial
    { ctx :=
        { lastOpOk := false
          settleMs := settleMsFloor settleMs
          apStarts := 0
          provStarts := 0
          calls := [] }
      timers := timers }

/-- `bb_fsm_step` on the provisioning machine. -/
def wpStep (m : WpMachine) (event : WpEvent) : BbErr × WpMachine :=
  Fsm.step (wpDesc ad) m event ()

/-- `ctx->last_op_ok = false` at the start of the driver. -/
def forgetOp (m : WpMachine) : WpMachine :=
  { m with body := { m.body with ctx := { m.body.ctx with lastOpOk := false } } }

/-- `wifi_prov_fsm_drive_entry`. -/
def driveEntry (m : WpMachine) (entryEvent : WpEvent) : WpMachine :=
  let hop1 := wpStep ad (forgetOp m) entryEvent
  if hop1.1 ≠ .ok then hop1.2
  else if hop1.2.current ≠ .idle then hop1.2
  else if hop1.2.body.ctx.lastOpOk = false then hop1.2
  else
    let hop2 := (wpStep ad hop1.2 .apStartOk).2
    if hop2.body.ctx.lastOpOk = false then hop2
    else (wpStep ad hop2 .provStartOk).2

/-- The part of a call that concerns the access point. -/
def AdapterCall.ap : AdapterCall → Option StartStop
  | .apStart true => some .started
  | .apStart false => some .startFailed
  | .apStop => some .stopped
  | _ => none

/-- The part of a call that concerns the portal. -/
def AdapterCall.portal : AdapterCall → Option StartStop
  | .provStart true => some .started
  | .provStart false => some .startFailed
  | .provStop => some .stopped
  | _ => none

/-- The active flag after a history of calls. -/
def flagAfter (flag : Bool) : List AdapterCall → Bool
  | [] => flag
  | .provActiveSet active :: rest => flagAfter active rest
  | _ :: rest => flagAfter flag rest

/-- The history of the access point. -/
def apHistory (m : WpMachine) : List StartStop :=
  m.body.ctx.calls.filterMap AdapterCall.ap

/-- The history of the portal. -/
def portalHistory (m : WpMachine) : List StartStop :=
  m.body.ctx.calls.filterMap AdapterCall.portal

/-- Everything the machine drives agrees with its state. -/
structure InStep (m : WpMachine) : Prop where
  apUp : upAfter false (apHistory m) = decide (m.current ≠ .idle)
  portalUp : upAfter false (portalHistory m) = decide (m.current ≠ .idle)
  activeFlag : flagAfter false m.body.ctx.calls = decide (m.current ≠ .idle)
  timer : armed m.body.timers =
    if m.current = .closing then [(.settleTimeout, settleMsFloor m.body.ctx.settleMs)] else []
  apPaired : Paired false (apHistory m)
  portalPaired : Paired false (portalHistory m)

/-- What the owner of the machine does. -/
inductive Input where
  | post (event : WpEvent)
  | driveEntry (entryEvent : WpEvent)
  deriving Repr, DecidableEq

/-- Events only the driver posts. -/
def WpEvent.Synthetic (event : WpEvent) : Prop :=
  event = .apStartOk ∨ event = .provStartOk

instance (event : WpEvent) : Decidable event.Synthetic :=
  inferInstanceAs (Decidable (_ ∨ _))

/-- Events that start an entry attempt. -/
def WpEvent.Entry (event : WpEvent) : Prop :=
  event = .entryFirstBoot ∨ event = .entryDeprovAnomaly ∨ event = .entryUserRequested

instance (event : WpEvent) : Decidable event.Entry :=
  inferInstanceAs (Decidable (_ ∨ _))

/-- The owner leaves the synthetic events to the driver, and drives entry events. -/
def Input.Proper : Input → Prop
  | .post event => ¬ event.Synthetic ∧ ¬ event.Entry
  | .driveEntry entryEvent => ¬ entryEvent.Synthetic

variable (ad : Adapter)

/-- One call of the owner. -/
def feed (m : WpMachine) : Input → WpMachine
  | .post event => (wpStep ad m event).2
  | .driveEntry entryEvent => driveEntry ad m entryEvent

/-- In step, and able to go on. -/
structure Ready (m : WpMachine) : Prop extends InStep m where
  running : m.terminal = false
  slots : m.body.timers ≠ []

variable {ad} {m : WpMachine}

/-! ## Histories -/

theorem flagAfter_append (flag : Bool) (l k : List AdapterCall) :
    flagAfter flag (l ++ k) = flagAfter (flagAfter flag l) k := by
  induction l generalizing flag with
  | nil => rfl
  | cons c rest ih => cases c <;> simp [flagAfter, ih]

/-- After more calls, everything is in step if the calls lead from the old state to the new one. -/
theorem inStep_of_calls (h : InStep m) {m' : WpMachine} {extra : List AdapterCall}
    (hcalls : m'.body.ctx.calls = m.body.ctx.calls ++ extra)
    (hap : upAfter (decide (m.current ≠ .idle)) (extra.filterMap AdapterCall.ap) =
      decide (m'.current ≠ .idle))
    (hportal : upAfter (decide (m.current ≠ .idle)) (extra.filterMap AdapterCall.portal) =
      decide (m'.current ≠ .idle))
    (hflag : flagAfter (decide (m.current ≠ .idle)) extra = decide (m'.current ≠ .idle))
    (htimer : armed m'.body.timers =
      if m'.current = .closing then [(.settleTimeout, settleMsFloor m'.body.ctx.settleMs)] else [])
    (happaired : Paired (decide (m.current ≠ .idle)) (extra.filterMap AdapterCall.ap))
    (hportalpaired : Paired (decide (m.current ≠ .idle)) (extra.filterMap AdapterCall.portal)) :
    InStep m' where
  apUp := by
    rw [apHistory, hcalls, List.filterMap_append, upAfter_append, ← apHistory, h.apUp]
    exact hap
  portalUp := by
    rw [portalHistory, hcalls, List.filterMap_append, upAfter_append, ← portalHistory, h.portalUp]
    exact hportal
  activeFlag := by
    rw [hcalls, flagAfter_append, h.activeFlag]
    exact hflag
  timer := htimer
  apPaired := by
    rw [apHistory, hcalls, List.filterMap_append, paired_append, ← apHistory, h.apUp]
    exact ⟨h.apPaired, happaired⟩
  portalPaired := by
    rw [portalHistory, hcalls, List.filterMap_append, paired_append, ← portalHistory, h.portalUp]
    exact ⟨h.portalPaired, hportalpaired⟩

/-! ## The rows -/

/-- Entering a state: the timers are cleared before its hook runs. -/
def entered (m : WpMachine) (state : WpState) (hook : WpBody → WpBody) (b : WpBody) : WpMachine :=
  { m with current := state, body := hook { b with timers := clearTimers b.timers } }

/-- What a step can do, row by row. -/
inductive Steps (ad : Adapter) (m : WpMachine) : WpEvent → BbErr × WpMachine → Prop where
  | noRow (event : WpEvent) : Steps ad m event (.notFound, m)
  | tryAp (event : WpEvent) (hidle : m.current = .idle) (hentry : event.Entry) :
      Steps ad m event (.ok, { m with body := actTryApStart ad event m.body () })
  | tryProv (hidle : m.current = .idle) :
      Steps ad m .apStartOk (.ok, { m with body := actTryProvStart ad m.body () })
  | opened (hidle : m.current = .idle) :
      Steps ad m .provStartOk (.ok, entered m .active wpActiveOnEntry m.body)
  | reentry (hactive : m.current = .active) :
      Steps ad m .entryUserRequested (.ok, { m with body := actReentryNoop m.body () })
  | saved (hactive : m.current = .active) :
      Steps ad m .saveSuccess (.ok, entered m .closing wpClosingOnEntry m.body)
  | closed (hclosing : m.current = .closing) :
      Steps ad m .settleTimeout
        (.ok, entered m .idle wpIdleOnEntry (actClosePortal m.body ()))

example (hrun : m.terminal = false) (hactive : m.current = .active) :
    (wpStep ad m .saveSuccess).2.current = (entered m .closing wpClosingOnEntry m.body).current := by
  simp [wpStep, Fsm.step, hrun, hactive, wpDesc, wpRows, findRow, runAction, transition, runExit,
    runEntry, findStateDesc, wpStates, entered]

theorem wpStep_idle_entry (hrun : m.terminal = false) (hidle : m.current = .idle)
    {event : WpEvent} (hentry : event.Entry) :
    wpStep ad m event = (.ok, { m with body := actTryApStart ad event m.body () }) := by
  rcases hentry with rfl | rfl | rfl
  all_goals
    simp [wpStep, Fsm.step, hrun, hidle, wpDesc, wpRows, findRow, runAction, transition]

theorem wpStep_idle_apStartOk (hrun : m.terminal = false) (hidle : m.current = .idle) :
    wpStep ad m .apStartOk = (.ok, { m with body := actTryProvStart ad m.body () }) := by
  simp [wpStep, Fsm.step, hrun, hidle, wpDesc, wpRows, findRow, runAction, transition]

theorem wpStep_idle_provStartOk (hrun : m.terminal = false) (hidle : m.current = .idle) :
    wpStep ad m .provStartOk = (.ok, entered m .active wpActiveOnEntry m.body) := by
  simp [wpStep, Fsm.step, hrun, hidle, wpDesc, wpRows, findRow, runAction, transition, runExit,
    runEntry, findStateDesc, wpStates, entered]

theorem wpStep_active_saveSuccess (hrun : m.terminal = false) (hactive : m.current = .active) :
    wpStep ad m .saveSuccess = (.ok, entered m .closing wpClosingOnEntry m.body) := by
  simp [wpStep, Fsm.step, hrun, hactive, wpDesc, wpRows, findRow, runAction, transition, runExit,
    runEntry, findStateDesc, wpStates, entered]

theorem wpStep_closing_settleTimeout (hrun : m.terminal = false) (hclosing : m.current = .closing) :
    wpStep ad m .settleTimeout =
      (.ok, entered m .idle wpIdleOnEntry (actClosePortal m.body ())) := by
  simp [wpStep, Fsm.step, hrun, hclosing, wpDesc, wpRows, findRow, runAction, transition, runExit,
    runEntry, findStateDesc, wpStates, entered]

theorem wpStep_noRow (hrun : m.terminal = false) {event : WpEvent}
    (hnone : findRow m.current event () (wpRows ad) m.body.ctx = (none, m.body.ctx)) :
    wpStep ad m event = (.notFound, m) := by
  obtain ⟨current, terminal, body⟩ := m
  cases hrun
  simp only [wpStep, Fsm.step, wpDesc, hnone, Bool.false_eq_true, if_false]

theorem steps_wpStep (hrun : m.terminal = false) (event : WpEvent) :
    Steps ad m event (wpStep ad m event) := by
  cases hcur : m.current with
  | idle =>
    cases event with
    | entryFirstBoot | entryDeprovAnomaly | entryUserRequested =>
      rw [wpStep_idle_entry hrun hcur (by decide)]
      exact .tryAp _ hcur (by decide)
    | apStartOk =>
      rw [wpStep_idle_apStartOk hrun hcur]
      exact .tryProv hcur
    | provStartOk =>
      rw [wpStep_idle_provStartOk hrun hcur]
      exact .opened hcur
    | saveSuccess | settleTimeout =>
      rw [wpStep_noRow hrun (by simp [hcur, wpRows, findRow])]
      exact .noRow _
  | active =>
    cases event with
    | entryUserRequested =>
      simpa [wpStep, Fsm.step, hrun, hcur, wpDesc, wpRows, findRow, runAction, transition] using
        Steps.reentry hcur
    | saveSuccess =>
      rw [wpStep_active_saveSuccess hrun hcur]
      exact .saved hcur
    | entryFirstBoot | entryDeprovAnomaly | apStartOk | provStartOk | settleTimeout =>
      rw [wpStep_noRow hrun (by simp [hcur, wpRows, findRow])]
      exact .noRow _
  | closing =>
    cases event with
    | settleTimeout =>
      rw [wpStep_closing_settleTimeout hrun hcur]
      exact .closed hcur
    | entryFirstBoot | entryDeprovAnomaly | entryUserRequested | apStartOk | provStartOk
    | saveSuccess =>
      rw [wpStep_noRow hrun (by simp [hcur, wpRows, findRow])]
      exact .noRow _

/-! ## Each input keeps everything in step -/

theorem clear_slots {timers : List (Timer WpEvent)} (hslots : timers ≠ []) :
    clearTimers timers ≠ [] := by
  rw [← List.length_pos_iff] at hslots ⊢
  simpa using hslots

theorem settleMsFloor_ne_zero (ms : Nat) : settleMsFloor ms ≠ 0 := by
  unfold settleMsFloor
  split <;> omega

/-- A saved form: the portal stays up, and the settle timer is the only one. -/
theorem ready_saved (h : Ready m) (hactive : m.current = .active) :
    Ready (entered m .closing wpClosingOnEntry m.body) := by
  have hclear := clear_slots h.slots
  have harmed := @armed_armTimer_of_none _ _ _ WpEvent.settleTimeout
    (settleMsFloor m.body.ctx.settleMs) (@armed_clearTimers _ m.body.timers) hclear
  rw [if_neg (settleMsFloor_ne_zero _)] at harmed
  refine ⟨@inStep_of_calls m h.toInStep _ [] ?_ ?_ ?_ ?_ ?_ ?_ ?_, h.running, ?_⟩
  · exact (List.append_nil _).symm
  · rw [hactive]
    rfl
  · rw [hactive]
    rfl
  · rw [hactive]
    rfl
  · exact harmed
  · trivial
  · trivial
  · rw [← List.length_pos_iff] at hclear ⊢
    simpa [entered, wpClosingOnEntry, Body.arm] using hclear

/-- The settle timeout: portal and access point are stopped, once each. -/
theorem ready_closed (h : Ready m) (hclosing : m.current = .closing) :
    Ready (entered m .idle wpIdleOnEntry (actClosePortal m.body ())) := by
  refine ⟨@inStep_of_calls m h.toInStep _
    [.provStop, .apStop, .credsArrivedNotify, .log .portalClosed, .provActiveSet false]
    ?_ ?_ ?_ ?_ ?_ ?_ ?_, h.running, clear_slots h.slots⟩
  · simp [entered, wpIdleOnEntry, actClosePortal, Ctx.tell]
  · rw [hclosing]
    rfl
  · rw [hclosing]
    rfl
  · rw [hclosing]
    rfl
  · simp [entered, wpIdleOnEntry]
  · rw [hclosing]
    exact ⟨rfl, trivial⟩
  · rw [hclosing]
    exact ⟨rfl, trivial⟩

/-- An entry request while the portal is open only logs. -/
theorem ready_reentry (h : Ready m) (hactive : m.current = .active) :
    Ready { m with body := actReentryNoop m.body () } := by
  have htimer := h.timer
  rw [if_neg (by simp [hactive])] at htimer
  refine ⟨@inStep_of_calls m h.toInStep _ [.log .entryAlreadyActive] ?_ ?_ ?_ ?_ ?_ ?_ ?_,
    h.running, h.slots⟩
  · simp [actReentryNoop, Ctx.tell]
  · rfl
  · rfl
  · rfl
  · simpa [hactive, actReentryNoop] using htimer
  · trivial
  · trivial

/-- One posted event. -/
theorem ready_post (h : Ready m) {event : WpEvent} (hproper : (Input.post event).Proper) :
    Ready (wpStep ad m event).2 := by
  obtain ⟨hnotsynthetic, hnotentry⟩ := hproper
  generalize hresult : wpStep ad m event = result
  cases hresult ▸ @steps_wpStep ad _ h.running event with
  | noRow => exact h
  | tryAp _ _ hentry => exact absurd hentry hnotentry
  | tryProv => exact absurd (Or.inl rfl) hnotsynthetic
  | opened => exact absurd (Or.inr rfl) hnotsynthetic
  | reentry hactive => exact ready_reentry h hactive
  | saved hactive => exact ready_saved h hactive
  | closed hclosing => exact ready_closed h hclosing

/-! ### An entry attempt -/

/-- The access point could not be started. -/
theorem ready_ap_failed (h : Ready m) (hidle : m.current = .idle) {event : WpEvent}
    (hfail : ad.apStart m.body.ctx.apStarts ≠ .ok) :
    Ready { m with body := actTryApStart ad event m.body () } := by
  have htimer := h.timer
  rw [if_neg (by simp [hidle])] at htimer
  refine ⟨@inStep_of_calls m h.toInStep _
    [.log (entryLogEvt event), .apStart false, .log .apStartFailed] ?_ ?_ ?_ ?_ ?_ ?_ ?_,
    h.running, h.slots⟩
  · simp [actTryApStart, hfail, Ctx.tell]
  · rw [hidle]
    rfl
  · rw [hidle]
    rfl
  · rw [hidle]
    rfl
  · simpa [hidle, actTryApStart] using htimer
  · rw [hidle]
    exact ⟨rfl, trivial⟩
  · trivial

/-- The portal could not be started: the access point is down again. -/
theorem ready_prov_failed (h : Ready m) (hidle : m.current = .idle) {event : WpEvent}
    (hok : ad.apStart m.body.ctx.apStarts = .ok) (hfail : ad.provStart m.body.ctx.provStarts ≠ .ok) :
    Ready { m with body := actTryProvStart ad (actTryApStart ad event m.body ()) () } := by
  have htimer := h.timer
  rw [if_neg (by simp [hidle])] at htimer
  refine ⟨@inStep_of_calls m h.toInStep _
    [.log (entryLogEvt event), .apStart true, .provStart false, .apStop, .log .provStartFailed]
    ?_ ?_ ?_ ?_ ?_ ?_ ?_, h.running, h.slots⟩
  · simp [actTryApStart, actTryProvStart, hok, hfail, Ctx.tell]
  · rw [hidle]
    rfl
  · rw [hidle]
    rfl
  · rw [hidle]
    rfl
  · simpa [hidle, actTryApStart, actTryProvStart] using htimer
  · rw [hidle]
    exact ⟨rfl, rfl, trivial⟩
  · rw [hidle]
    exact ⟨rfl, trivial⟩

/-- Both starts succeeded: the portal is open. -/
theorem ready_opened (h : Ready m) (hidle : m.current = .idle) {event : WpEvent}
    (hap : ad.apStart m.body.ctx.apStarts = .ok) (hprov : ad.provStart m.body.ctx.provStarts = .ok) :
    Ready (entered m .active wpActiveOnEntry
      (actTryProvStart ad (actTryApStart ad event m.body ()) ())) := by
  refine ⟨@inStep_of_calls m h.toInStep _
    [.log (entryLogEvt event), .apStart true, .provStart true, .log .portalOpen,
      .provActiveSet true] ?_ ?_ ?_ ?_ ?_ ?_ ?_, h.running, clear_slots ?_⟩
  · simp [entered, wpActiveOnEntry, actTryApStart, actTryProvStart, hap, hprov, Ctx.tell]
  · rw [hidle]
    rfl
  · rw [hidle]
    rfl
  · rw [hidle]
    rfl
  · simp [entered, wpActiveOnEntry]
  · rw [hidle]
    exact ⟨rfl, trivial⟩
  · rw [hidle]
    exact ⟨rfl, trivial⟩
  · exact h.slots

theorem ready_forgetOp (h : Ready m) : Ready (forgetOp m) :=
  ⟨⟨h.apUp, h.portalUp, h.activeFlag, h.timer, h.apPaired, h.portalPaired⟩, h.running, h.slots⟩

/-- An entry attempt from the idle state: three hops, each of which may be the last. -/
theorem ready_attempt (h : Ready m) (hidle : m.current = .idle) {event : WpEvent}
    (hentry : event.Entry) : Ready (driveEntry ad m event) := by
  have hm : Ready (forgetOp m) := ready_forgetOp h
  have hop1 : wpStep ad (forgetOp m) event =
      (.ok, { forgetOp m with body := actTryApStart ad event (forgetOp m).body () }) :=
    wpStep_idle_entry hm.running hidle hentry
  unfold driveEntry
  simp only [hop1, ne_eq, not_true_eq_false, if_false]
  rw [if_neg (by simp [forgetOp, hidle])]
  by_cases hap : ad.apStart (forgetOp m).body.ctx.apStarts = .ok
  · rw [if_neg (by simp [actTryApStart, hap])]
    have hop2 : wpStep ad { forgetOp m with body := actTryApStart ad event (forgetOp m).body () }
        .apStartOk =
        (.ok, { forgetOp m with
          body := actTryProvStart ad (actTryApStart ad event (forgetOp m).body ()) () }) :=
      wpStep_idle_apStartOk hm.running hidle
    simp only [hop2]
    have hstarts : (actTryApStart ad event (forgetOp m).body ()).ctx.provStarts =
        (forgetOp m).body.ctx.provStarts := by
      simp [actTryApStart, hap, Ctx.tell]
    by_cases hprov : ad.provStart (forgetOp m).body.ctx.provStarts = .ok
    · rw [if_neg (by simp [actTryProvStart, hstarts, hprov])]
      have hop3 := @wpStep_idle_provStartOk ad
        { forgetOp m with
          body := actTryProvStart ad (actTryApStart ad event (forgetOp m).body ()) () }
        hm.running hidle
      rw [hop3]
      exact ready_opened hm hidle hap hprov
    · rw [if_pos (by simp [actTryProvStart, hstarts, hprov, Ctx.tell])]
      exact ready_prov_failed hm hidle hap hprov
  · rw [if_pos (by simp [actTryApStart, hap, Ctx.tell])]
    exact ready_ap_failed hm hidle hap

/-- An entry attempt keeps everything in step, whatever the adapter answers. -/
theorem inStep_driveEntry (h : Ready m) {event : WpEvent} (hproper : ¬ event.Synthetic) :
    Ready (driveEntry ad m event) := by
  have hm : Ready (forgetOp m) := ready_forgetOp h
  by_cases hattempt : m.current = .idle ∧ event.Entry
  · exact ready_attempt h hattempt.1 hattempt.2
  generalize hresult : wpStep ad (forgetOp m) event = result
  unfold driveEntry
  simp only [hresult]
  cases hresult ▸ @steps_wpStep ad _ hm.running event with
  | noRow => exact hm
  | tryAp _ hidle hentry => exact absurd ⟨hidle, hentry⟩ hattempt
  | tryProv => exact absurd (Or.inl rfl) hproper
  | opened => exact absurd (Or.inr rfl) hproper
  | reentry hactive =>
    simp only [ne_eq, not_true_eq_false, if_false]
    rw [if_pos (by simp [hactive])]
    exact ready_reentry hm hactive
  | saved hactive =>
    simp only [ne_eq, not_true_eq_false, if_false]
    rw [if_pos (by simp [entered])]
    exact ready_saved hm hactive
  | closed hclosing =>
    -- The driver stops: its first hop has started nothing.
    simp only [ne_eq, not_true_eq_false, if_false]
    rw [if_neg (by simp [entered])]
    rw [if_pos (by simp [entered, wpIdleOnEntry, actClosePortal, Ctx.tell, forgetOp])]
    exact ready_closed hm hclosing

theorem ready_feed (m : WpMachine) (input : Input) (h : Ready m) (hproper : input.Proper) :
    Ready (feed ad m input) := by
  cases input with
  | post event => exact ready_post h hproper
  | driveEntry event => exact inStep_driveEntry h hproper

theorem ready_init (settleMs : Nat) {timers : List (Timer WpEvent)} (hslots : timers ≠ []) :
    Ready (wifiProvFsmInit ad .idle settleMs timers) where
  apUp := rfl
  portalUp := rfl
  activeFlag := rfl
  timer := by
    simp [wifiProvFsmInit, Fsm.init, runEntry, findStateDesc, wpDesc, wpStates, wpIdleOnEntry]
  apPaired := trivial
  portalPaired := trivial
  running := rfl
  slots := clear_slots hslots

variable (ad)

/--
From the idle state, whatever the adapter answers, every run of entry attempts and of posted
events that are not the driver's leaves access point, portal, flag and timer in step.
-/
theorem inStep_run (settleMs : Nat) {timers : List (Timer WpEvent)} (hslots : timers ≠ [])
    {inputs : List Input} (hproper : ∀ input ∈ inputs, input.Proper) :
    InStep (run (feed ad) (wifiProvFsmInit ad .idle settleMs timers) inputs) := by
  have halong : Along (feed ad) (fun _ input => input.Proper)
      (wifiProvFsmInit ad .idle settleMs timers) inputs := along_of_forall _ _ hproper
  exact (run_invariant_along ready_feed (ready_init settleMs hslots) halong).toInStep

/-- Every start succeeds. -/
def Adapter.allOk : Adapter where
  apStart := fun _ => .ok
  provStart := fun _ => .ok

/-- Two free timer slots. -/
def noTimers : List (Timer WpEvent) :=
  List.replicate 2 { event := .settleTimeout, ms := 0, armed := false }

theorem inStep_run_saved :
    noTimers ≠ [] ∧
      (∀ input ∈ [Input.driveEntry .entryFirstBoot, .post .saveSuccess], input.Proper) ∧
      InStep (run (feed .allOk) (wifiProvFsmInit .allOk .idle 2000 noTimers)
        [.driveEntry .entryFirstBoot, .post .saveSuccess]) := by
  have hproper : ∀ input ∈ [Input.driveEntry .entryFirstBoot, .post .saveSuccess],
      input.Proper := by
    simp [Input.Proper, WpEvent.Synthetic, WpEvent.Entry]
  exact ⟨by decide, hproper, inStep_run .allOk 2000 (by decide) hproper⟩

/--
The portal runs while the machine settles, so not only in the active state; and a synthetic
event that is not the driver's starts the portal in the idle state, without an access point.
-/
theorem portal_beyond_active :
    (¬ ∀ inputs : List Input,
      upAfter false (portalHistory
          (run (feed .allOk) (wifiProvFsmInit .allOk .idle 2000 noTimers) inputs)) =
        decide ((run (feed .allOk) (wifiProvFsmInit .allOk .idle 2000 noTimers) inputs).current =
          .active)) ∧
      (run (feed .allOk) (wifiProvFsmInit .allOk .idle 2000 noTimers)
        [.driveEntry .entryFirstBoot, .post .saveSuccess]).current = .closing ∧
      upAfter false (portalHistory (run (feed .allOk) (wifiProvFsmInit .allOk .idle 2000 noTimers)
        [.driveEntry .entryFirstBoot, .post .saveSuccess])) = true ∧
      (run (feed .allOk) (wifiProvFsmInit .allOk .idle 2000 noTimers)
        [.post .apStartOk]).current = .idle ∧
      upAfter false (portalHistory (run (feed .allOk) (wifiProvFsmInit .allOk .idle 2000 noTimers)
        [.post .apStartOk])) = true ∧
      upAfter false (apHistory (run (feed .allOk) (wifiProvFsmInit .allOk .idle 2000 noTimers)
        [.post .apStartOk])) = false := by
  refine ⟨fun hall => ?_, by decide +kernel, by decide +kernel, by decide +kernel,
    by decide +kernel, by decide +kernel⟩
  have hclosing := hall [.driveEntry .entryFirstBoot, .post .saveSuccess]
  revert hclosing
  decide +kernel

end WifiProv
end Breadboard
