import Breadboard.Fsm.Engine
import Breadboard.Wifi.Policy

/-!
# bb_wifi - the reconnect state machine

States, events, guards, actions, hooks and rows of the reconnect machine.  The
adapter is what the outside answers: the readings of the clock and the answers
of the reboot safeguard, each in the order they are asked for.  The calls the
other way (connect, disconnect, reboot, emit) are recorded in the context.
-/

namespace Breadboard
namespace Wifi

open Fsm

/-- `wr_state_t`. -/
inductive WrState where
  | noCreds
  | connecting
  | connected
  | backoff
  | escalateReboot
  | left
  deriving Repr, DecidableEq

/-- `wr_event_t`. -/
inductive WrEvent where
  | gotIp
  | staDisconnected
  | connectingTimeout
  | backoffTimeout
  | credsArrived
  | reconnectRequested
  deriving Repr, DecidableEq

/-- The event data: a pointer to an esp reason code, or NULL. -/
abbrev EvtData := Option UInt8

/-- The net events the machine emits. -/
inductive NetEvent where
  | rebootDenied
  | reconnectParked
  deriving Repr, DecidableEq

/-- A call through the adapter that only has an effect. -/
inductive Effect where
  | connect
  | disconnect
  | connectFresh
  | reboot
  | emitNetEvent (evt : NetEvent) (reason : DiscReason)
  deriving Repr, DecidableEq

/-- `wifi_reconn_adapter_t`: the n-th clock reading and the n-th safeguard answer. -/
structure Adapter where
  nowUs : Nat → Int
  rebootAllowed : Nat → Bool

/-- `wifi_reconn_ctx_t`, with how often the adapter was asked and what it was told. -/
structure Ctx where
  policy : ReconnState
  pendingBackoffMs : Nat
  selfDisconnect : Bool
  reads : Nat
  asks : Nat
  effects : List Effect

/-- The body of the machine. -/
abbrev WrBody := Body Ctx WrEvent

/-- The machine. -/
abbrev WrMachine := Machine Ctx WrState WrEvent

/-- `wr_evt_reason`. -/
def wrEvtReason (data : EvtData) : UInt8 :=
  data.getD 0

/-- The mapped reason of an event. -/
def evtReason (data : EvtData) : DiscReason :=
  mapEspReason (wrEvtReason data)

namespace Ctx

/-- Record a call. -/
def tell (ctx : Ctx) (e : Effect) : Ctx :=
  { ctx with effects := ctx.effects ++ [e] }

/-- The clock is read. -/
def tick (ctx : Ctx) : Ctx :=
  { ctx with reads := ctx.reads + 1 }

/-- The safeguard is asked. -/
def ask (ctx : Ctx) : Ctx :=
  { ctx with asks := ctx.asks + 1 }

end Ctx

variable (cfg : Kconfig) (ad : Adapter)

/-! ## Guards -/

/-- `wr_disconnect_would_escalate` and `wr_timeout_would_escalate` with their clock read. -/
def peekEscalate (ctx : Ctx) : Bool × Ctx :=
  (wouldEscalate cfg ctx.policy (ad.nowUs ctx.reads), ctx.tick)

/-- The escalate-allowed guards. -/
def guardEscalateAllowed (ctx : Ctx) : Bool × Ctx :=
  let peek := peekEscalate cfg ad ctx
  if peek.1 then (ad.rebootAllowed peek.2.asks, peek.2.ask) else (false, peek.2)

/-- `guard_disc_escalate_allowed`. -/
def guardDiscEscalateAllowed (ctx : Ctx) (_ : EvtData) : Bool × Ctx :=
  guardEscalateAllowed cfg ad ctx

/-- `guard_disc_escalate_denied`. -/
def guardDiscEscalateDenied (ctx : Ctx) (_ : EvtData) : Bool × Ctx :=
  peekEscalate cfg ad ctx

/-- `guard_disc_reconnect_now`. -/
def guardDiscReconnectNow (ctx : Ctx) (data : EvtData) : Bool × Ctx :=
  (disconnectWouldReconnectNow cfg ctx.policy (evtReason data), ctx)

/-- `guard_timeout_escalate_allowed`. -/
def guardTimeoutEscalateAllowed (ctx : Ctx) (_ : EvtData) : Bool × Ctx :=
  guardEscalateAllowed cfg ad ctx

/-- `guard_timeout_escalate_denied`. -/
def guardTimeoutEscalateDenied (ctx : Ctx) (_ : EvtData) : Bool × Ctx :=
  peekEscalate cfg ad ctx

/-- `guard_disc_is_assoc_leave`. -/
def guardDiscIsAssocLeave (ctx : Ctx) (data : EvtData) : Bool × Ctx :=
  (evtReason data = .assocLeave, ctx)

/-! ## Actions -/

/-- The call of `wifi_reconn_policy_on_disconnect`; `backoff_ms` starts at 0. -/
def noteDisconnect (ctx : Ctx) (data : EvtData) : Nat × Ctx :=
  let out := onDisconnect cfg ctx.policy (ad.nowUs ctx.reads) (evtReason data)
  (out.1.2.getD 0, { ctx.tick with policy := out.2 })

/-- The call of `wifi_reconn_policy_on_connect_timeout`. -/
def noteTimeout (ctx : Ctx) : Nat × Ctx :=
  let out := onConnectTimeout cfg ctx.policy (ad.nowUs ctx.reads)
  (out.1.2.getD 0, { ctx.tick with policy := out.2 })

/-- `act_reset_state`. -/
def actResetState (b : WrBody) (_ : EvtData) : WrBody :=
  { b with ctx := { b.ctx with policy := .reset, selfDisconnect := false }.tell .connect }

/-- `act_creds_arrived_connect`. -/
def actCredsArrivedConnect (b : WrBody) (_ : EvtData) : WrBody :=
  { b with ctx := { b.ctx with policy := .reset, selfDisconnect := false }.tell .connectFresh }

/-- `act_on_got_ip`. -/
def actOnGotIp (b : WrBody) (_ : EvtData) : WrBody :=
  { b with ctx := { b.ctx with policy := onGotIp b.ctx.policy, pendingBackoffMs := 0 } }

/-- `act_note_disconnect`. -/
def actNoteDisconnect (b : WrBody) (data : EvtData) : WrBody :=
  { b with ctx := (noteDisconnect cfg ad b.ctx data).2 }

/-- `act_disconnect_denied`. -/
def actDisconnectDenied (b : WrBody) (data : EvtData) : WrBody :=
  let ctx := (noteDisconnect cfg ad b.ctx data).2
  { b with
    ctx := { ctx with pendingBackoffMs := cfg.genericBackoffPauseMs }.tell
      (.emitNetEvent .rebootDenied (evtReason data)) }

/-- `act_disconnect_park_no_reconnect`. -/
def actDisconnectParkNoReconnect (b : WrBody) (data : EvtData) : WrBody :=
  { b with
    ctx := (noteDisconnect cfg ad b.ctx data).2.tell
      (.emitNetEvent .reconnectParked (evtReason data)) }

/-- `act_disconnect_reconnect_now`. -/
def actDisconnectReconnectNow (b : WrBody) (data : EvtData) : WrBody :=
  let noted : WrBody := { b with ctx := (noteDisconnect cfg ad b.ctx data).2.tell .connect }
  noted.arm .connectingTimeout cfg.connectingTimeoutMs

/-- `act_disconnect_backoff`. -/
def actDisconnectBackoff (b : WrBody) (data : EvtData) : WrBody :=
  let noted := noteDisconnect cfg ad b.ctx data
  { b with ctx := { noted.2 with pendingBackoffMs := noted.1 } }

/-- `act_note_timeout`. -/
def actNoteTimeout (b : WrBody) (_ : EvtData) : WrBody :=
  { b with ctx := (noteTimeout cfg ad b.ctx).2 }

/-- `act_timeout_denied`. -/
def actTimeoutDenied (b : WrBody) (_ : EvtData) : WrBody :=
  let ctx := (noteTimeout cfg ad b.ctx).2
  { b with
    ctx := { ctx with pendingBackoffMs := cfg.genericBackoffPauseMs }.tell
      (.emitNetEvent .rebootDenied .unknown) }

/-- `act_timeout_reattempt`. -/
def actTimeoutReattempt (b : WrBody) (_ : EvtData) : WrBody :=
  let ctx := (noteTimeout cfg ad b.ctx).2
  let told : WrBody :=
    { b with ctx := ({ ctx with selfDisconnect := true }.tell .disconnect).tell .connect }
  told.arm .connectingTimeout cfg.connectingTimeoutMs

/-- `act_backoff_elapsed`. -/
def actBackoffElapsed (b : WrBody) (_ : EvtData) : WrBody :=
  { b with ctx := b.ctx.tell .connect }

/-! ## Hooks -/

/-- `wr_connecting_on_entry`. -/
def wrConnectingOnEntry (b : WrBody) : WrBody :=
  b.arm .connectingTimeout cfg.connectingTimeoutMs

/-- `wr_backoff_on_entry`. -/
def wrBackoffOnEntry (b : WrBody) : WrBody :=
  b.arm .backoffTimeout b.ctx.pendingBackoffMs

/-- `wr_escalate_on_entry`. -/
def wrEscalateOnEntry (b : WrBody) : WrBody :=
  { b with ctx := b.ctx.tell .reboot }

/-! ## The table -/

/-- `wr_rows`. -/
def wrRows : List (Row Ctx WrState WrEvent EvtData) :=
  [ ⟨some .noCreds, .credsArrived, none, some actCredsArrivedConnect, .to .connecting⟩,
    ⟨some .connecting, .gotIp, none, some actOnGotIp, .to .connected⟩,
    ⟨some .connecting, .staDisconnected, some guardDiscIsAssocLeave,
      some (actDisconnectParkNoReconnect cfg ad), .to .left⟩,
    ⟨some .connecting, .staDisconnected, some (guardDiscEscalateAllowed cfg ad),
      some (actNoteDisconnect cfg ad), .to .escalateReboot⟩,
    ⟨some .connecting, .staDisconnected, some (guardDiscEscalateDenied cfg ad),
      some (actDisconnectDenied cfg ad), .to .backoff⟩,
    ⟨some .connecting, .staDisconnected, some (guardDiscReconnectNow cfg),
      some (actDisconnectReconnectNow cfg ad), .same⟩,
    ⟨some .connecting, .staDisconnected, none, some (actDisconnectBackoff cfg ad), .to .backoff⟩,
    ⟨some .connecting, .connectingTimeout, some (guardTimeoutEscalateAllowed cfg ad),
      some (actNoteTimeout cfg ad), .to .escalateReboot⟩,
    ⟨some .connecting, .connectingTimeout, some (guardTimeoutEscalateDenied cfg ad),
      some (actTimeoutDenied cfg ad), .to .backoff⟩,
    ⟨some .connecting, .connectingTimeout, none, some (actTimeoutReattempt cfg ad), .same⟩,
    ⟨some .connected, .staDisconnected, some guardDiscIsAssocLeave,
      some (actDisconnectParkNoReconnect cfg ad), .to .left⟩,
    ⟨some .connected, .staDisconnected, some (guardDiscReconnectNow cfg),
      some (actDisconnectReconnectNow cfg ad), .to .connecting⟩,
    ⟨some .connected, .staDisconnected, none, some (actDisconnectBackoff cfg ad), .to .backoff⟩,
    ⟨some .backoff, .backoffTimeout, none, some actBackoffElapsed, .to .connecting⟩,
    ⟨some .backoff, .staDisconnected, none, none, .same⟩,
    ⟨some .left, .reconnectRequested, none, some actResetState, .to .connecting⟩ ]

/-- `wr_states`. -/
def wrStates : List (StateDesc Ctx WrState WrEvent) :=
  [ ⟨.connecting, some (wrConnectingOnEntry cfg), none⟩,
    ⟨.backoff, some wrBackoffOnEntry, none⟩,
    ⟨.escalateReboot, some wrEscalateOnEntry, none⟩ ]

/-- The description `wifi_reconn_fsm_init` fills in. -/
def wrDesc : Desc Ctx WrState WrEvent EvtData :=
  { rows := wrRows cfg ad, states := wrStates cfg }

/-- `wifi_reconn_fsm_init`. -/
def wifiReconnFsmInit (initial : WrState) (b : WrBody) : WrMachine :=
  Fsm.init (wrDesc cfg ad) initial b

/-- `bb_fsm_step` on the reconnect machine. -/
def wrStep (m : WrMachine) (input : WrEvent × EvtData) : WrMachine :=
  (Fsm.step (wrDesc cfg ad) m input.1 input.2).2

end Wifi
end Breadboard
