import Breadboard.Core.Basics

/-!
# bb_button_events - the state machine behind the gestures

The button hands over its debounced edges as they come; everything that depends on time alone
waits for a tick.  Every clock value and every elapsed time is a `uint32_t` of
milliseconds.  What a step hands to the callback is returned beside the handle.
-/

namespace Breadboard
namespace ButtonEvents

/-- `bb_button_events_kind_t`. -/
inductive Kind where
  | click
  | doubleClick
  | longPressStart
  | longPressEnd
  | repeat_
  deriving Repr, DecidableEq

/-- `bb_button_events_event_t`. -/
structure Event where
  kind : Kind
  timestampMs : UInt32
  heldMs : UInt32
  deriving Repr, DecidableEq

/-- `btn_evt_state_t`. -/
inductive BtnEvtState where
  | idle
  | pressedPending
  | waitDouble
  | longHeld
  deriving Repr, DecidableEq

/-- The five durations, of the configuration and of the handle alike. -/
structure Durations where
  clickMaxMs : UInt16
  doubleClickWindowMs : UInt16
  longPressMs : UInt16
  repeatIntervalMs : UInt16
  tickPeriodMs : UInt16
  deriving Repr, DecidableEq

/-- `bb_button_events_cfg_t`; pointers are only tested against NULL. -/
structure Cfg extends Durations where
  button : Bool
  autoStartTimer : Bool
  cb : Bool
  deriving Repr, DecidableEq

/-- `struct bb_button_events`. -/
structure Handle extends Durations where
  cb : Bool
  timer : Bool
  state : BtnEvtState
  pressMs : UInt32
  releaseMs : UInt32
  lastRepeatMs : UInt32
  lastTickMs : UInt32
  deriving Repr, DecidableEq

/-! ## Attaching -/

/-- The value of a field, or its default where the field is 0. -/
def orDefault (field dflt : UInt16) : UInt16 :=
  if field = 0 then dflt else field

/-- The durations that `bb_button_events_attach` stores for those of the configuration. -/
def Durations.withDefaults (d : Durations) : Durations :=
  { clickMaxMs := orDefault d.clickMaxMs 400
    doubleClickWindowMs := orDefault d.doubleClickWindowMs 400
    longPressMs := orDefault d.longPressMs 800
    repeatIntervalMs := orDefault d.repeatIntervalMs 100
    tickPeriodMs := orDefault d.tickPeriodMs 20 }

/-- What the allocator and the timer service answer. -/
structure Host where
  calloc : Bool
  timerCreate : Bool
  timerStart : Bool
  deriving Repr, DecidableEq

/-- `bb_button_events_attach` on a host with timers. -/
def attach (cfg : Option Cfg) (out : Bool) (host : Host) (now : UInt32) : Except BbErr Handle :=
  match cfg with
  | none => .error .invalidArg
  | some cfg =>
      if !out || !cfg.button then .error .invalidArg
      else if !host.calloc then .error .noSpace
      else if cfg.autoStartTimer && (!host.timerCreate || !host.timerStart) then
        .error .invalidState
      else
        .ok { toDurations := cfg.toDurations.withDefaults
              cb := cfg.cb
              timer := cfg.autoStartTimer
              state := .idle
              pressMs := 0
              releaseMs := 0
              lastRepeatMs := 0
              lastTickMs := now }

/-! ## Steps -/

/-- `emit`: nothing is said without a callback. -/
def emit (h : Handle) (kind : Kind) (timestampMs heldMs : UInt32) : List Event :=
  if h.cb then [⟨kind, timestampMs, heldMs⟩] else []

/-- `do_step`: the transitions that time alone brings. -/
def doStep (h : Handle) (now : UInt32) : List Event × Handle :=
  let h' := { h with lastTickMs := now }
  match h.state with
  | .idle => ([], h')
  | .pressedPending =>
      if h.longPressMs.toUInt32 ≤ now - h.pressMs then
        (emit h .longPressStart now 0, { h' with lastRepeatMs := now, state := .longHeld })
      else ([], h')
  | .waitDouble =>
      if h.doubleClickWindowMs.toUInt32 < now - h.releaseMs then
        (emit h .click now 0, { h' with state := .idle })
      else ([], h')
  | .longHeld =>
      if h.repeatIntervalMs.toUInt32 ≤ now - h.lastRepeatMs then
        (emit h .repeat_ now (now - h.pressMs), { h' with lastRepeatMs := now })
      else ([], h')

/-- `btn_raw_cb` on `BB_BTN_PRESSED`. -/
def pressedCb (h : Handle) (ts : UInt32) : List Event × Handle :=
  match h.state with
  | .idle => ([], { h with pressMs := ts, state := .pressedPending })
  | .waitDouble =>
      -- the press itself is forgotten, whether or not it came within the window
      if ts - h.releaseMs ≤ h.doubleClickWindowMs.toUInt32 then
        (emit h .doubleClick ts 0, { h with state := .idle })
      else ([], { h with state := .idle })
  | _ => ([], h)

/-- `btn_raw_cb` on `BB_BTN_RELEASED`. -/
def releasedCb (h : Handle) (ts : UInt32) : List Event × Handle :=
  match h.state with
  | .pressedPending =>
      if ts - h.pressMs ≤ h.clickMaxMs.toUInt32 then
        ([], { h with releaseMs := ts, state := .waitDouble })
      else ([], { h with state := .idle })
  | .longHeld =>
      (emit h .longPressEnd ts (ts - h.pressMs), { h with state := .idle })
  | _ => ([], h)

/-- `bb_button_events_tick`. -/
def tick (h : Handle) (now : UInt32) : List Event × Handle :=
  if now - h.lastTickMs < h.tickPeriodMs.toUInt32 then ([], h) else doStep h now

/-! ## Inputs -/

/-- What reaches the machine, with its time on a clock that does not wrap. -/
inductive Input where
  | press (t : Nat)
  | release (t : Nat)
  /-- The timer's callback, which is not throttled. -/
  | timer (t : Nat)
  /-- A call of `bb_button_events_tick`. -/
  | poll (t : Nat)
  deriving Repr, DecidableEq

/-- When an input comes. -/
def Input.time : Input → Nat
  | .press t | .release t | .timer t | .poll t => t

/-- The machine's answer to an input; the code sees the time modulo `2^32`. -/
def Handle.feed (h : Handle) : Input → List Event × Handle
  | .press t => pressedCb h (UInt32.ofNat t)
  | .release t => releasedCb h (UInt32.ofNat t)
  | .timer t => doStep h (UInt32.ofNat t)
  | .poll t => tick h (UInt32.ofNat t)

/-! ## What no step changes -/

@[simp] theorem emit_of_cb {h : Handle} (hcb : h.cb = true) (kind : Kind) (ts held : UInt32) :
    emit h kind ts held = [⟨kind, ts, held⟩] := by
  simp [emit, hcb]

theorem doStep_frame (h : Handle) (now : UInt32) :
    (doStep h now).2.toDurations = h.toDurations ∧ (doStep h now).2.cb = h.cb := by
  unfold doStep
  cases h.state with
  | idle => exact ⟨rfl, rfl⟩
  | pressedPending => dsimp only; split <;> exact ⟨rfl, rfl⟩
  | waitDouble => dsimp only; split <;> exact ⟨rfl, rfl⟩
  | longHeld => dsimp only; split <;> exact ⟨rfl, rfl⟩

/-- The durations and the callback are fixed when the layer is attached. -/
theorem feed_frame (h : Handle) (i : Input) :
    (h.feed i).2.toDurations = h.toDurations ∧ (h.feed i).2.cb = h.cb := by
  cases i with
  | press t =>
      dsimp only [Handle.feed, pressedCb]
      cases h.state with
      | waitDouble => dsimp only; split <;> exact ⟨rfl, rfl⟩
      | _ => exact ⟨rfl, rfl⟩
  | release t =>
      dsimp only [Handle.feed, releasedCb]
      cases h.state with
      | pressedPending => dsimp only; split <;> exact ⟨rfl, rfl⟩
      | _ => exact ⟨rfl, rfl⟩
  | timer t => exact doStep_frame h _
  | poll t =>
      dsimp only [Handle.feed, tick]
      split
      · exact ⟨rfl, rfl⟩
      · exact doStep_frame h _

/-- A handle starts idle, with the defaults filled in. -/
theorem attach_ok {cfg : Cfg} {out : Bool} {host : Host} {now : UInt32} {h : Handle}
    (hok : attach (some cfg) out host now = .ok h) :
    h.state = .idle ∧ h.toDurations = cfg.toDurations.withDefaults ∧ h.cb = cfg.cb := by
  unfold attach at hok
  dsimp only at hok
  split at hok
  · cases hok
  split at hok
  · cases hok
  split at hok
  · cases hok
  · cases hok
    exact ⟨rfl, rfl, rfl⟩

end ButtonEvents
end Breadboard
