import Mathlib.Logic.Function.Basic
import Breadboard.Core.Basics

/-!
# bb_wifi - reconnect policy

Counting failed connection attempts and turning them into a backoff delay or,
after a window of persistent failure, into a reboot.  The clock is read through
an adapter; here each function takes the reading it makes as an argument.

Main results:

- Theorem `computeBackoffMs_peek`: the guards' preview of the backoff is the
  backoff the action computes.
- Theorem `onDisconnect_backoff`: when a disconnect leaves a delay of 0.
-/

namespace Breadboard
namespace Wifi

/-- The Kconfig constants of the policy, with their ranges. -/
structure Kconfig where
  connectingTimeoutMs : Nat
  persistentFailWindowS : Nat
  handshakeFastRetryLimit : Int
  handshakeTier2Limit : Int
  handshakeBackoffTier2Ms : Nat
  handshakeBackoffTier3Ms : Nat
  genericFastRetryLimit : Int
  genericBackoffPauseMs : Nat
  slowTier1Limit : Int
  slowBackoffTier1Ms : Nat
  slowBackoffTier2Ms : Nat
  connectingTimeoutMs_range : 5000 ≤ connectingTimeoutMs ∧ connectingTimeoutMs ≤ 120000
  persistentFailWindowS_range : 60 ≤ persistentFailWindowS ∧ persistentFailWindowS ≤ 3600
  handshakeFastRetryLimit_range : 0 ≤ handshakeFastRetryLimit ∧ handshakeFastRetryLimit ≤ 50
  handshakeTier2Limit_range : 0 ≤ handshakeTier2Limit ∧ handshakeTier2Limit ≤ 100
  handshakeBackoffTier2Ms_range : 1000 ≤ handshakeBackoffTier2Ms ∧ handshakeBackoffTier2Ms ≤ 120000
  handshakeBackoffTier3Ms_range : 1000 ≤ handshakeBackoffTier3Ms ∧ handshakeBackoffTier3Ms ≤ 300000
  genericFastRetryLimit_range : 0 ≤ genericFastRetryLimit ∧ genericFastRetryLimit ≤ 50
  genericBackoffPauseMs_range : 1000 ≤ genericBackoffPauseMs ∧ genericBackoffPauseMs ≤ 120000
  slowTier1Limit_range : 0 ≤ slowTier1Limit ∧ slowTier1Limit ≤ 50
  slowBackoffTier1Ms_range : 1000 ≤ slowBackoffTier1Ms ∧ slowBackoffTier1Ms ≤ 120000
  slowBackoffTier2Ms_range : 1000 ≤ slowBackoffTier2Ms ∧ slowBackoffTier2Ms ≤ 300000

/-- The defaults. -/
def Kconfig.default : Kconfig where
  connectingTimeoutMs := 30000
  persistentFailWindowS := 300
  handshakeFastRetryLimit := 3
  handshakeTier2Limit := 6
  handshakeBackoffTier2Ms := 10000
  handshakeBackoffTier3Ms := 30000
  genericFastRetryLimit := 10
  genericBackoffPauseMs := 5000
  slowTier1Limit := 3
  slowBackoffTier1Ms := 30000
  slowBackoffTier2Ms := 120000
  connectingTimeoutMs_range := by decide
  persistentFailWindowS_range := by decide
  handshakeFastRetryLimit_range := by decide
  handshakeTier2Limit_range := by decide
  handshakeBackoffTier2Ms_range := by decide
  handshakeBackoffTier3Ms_range := by decide
  genericFastRetryLimit_range := by decide
  genericBackoffPauseMs_range := by decide
  slowTier1Limit_range := by decide
  slowBackoffTier1Ms_range := by decide
  slowBackoffTier2Ms_range := by decide

/-- `WIFI_RECONN_PERSISTENT_FAIL_WINDOW_US`. -/
def Kconfig.persistentFailWindowUs (cfg : Kconfig) : Int :=
  cfg.persistentFailWindowS * 1000000

/-- `bb_wifi_disc_reason_t`. -/
inductive DiscReason where
  | unknown
  | authFail
  | assocFail
  | handshakeTimeout
  | connectionLost
  | noApFound
  | inactivity
  | deauth
  | beaconTimeout
  | bbLostIp
  | bbEgressDead
  | bbNoIpWatchdog
  | assocLeave
  deriving Repr, DecidableEq

/-- `bb_wifi_map_esp_reason`. -/
def mapEspReason (espCode : UInt8) : DiscReason :=
  match espCode.toNat with
  | 2 => .authFail
  | 3 => .deauth
  | 4 => .inactivity
  | 8 => .assocLeave
  | 15 => .handshakeTimeout
  | 23 => .authFail
  | 200 => .beaconTimeout
  | 201 => .noApFound
  | 202 => .authFail
  | 203 => .assocFail
  | 204 => .handshakeTimeout
  | 205 => .connectionLost
  | 210 => .noApFound
  | 211 => .noApFound
  | 212 => .noApFound
  | _ => .unknown

/-- `wifi_reconn_state_t`. -/
structure ReconnState where
  handshakeFailCount : Int
  genericFailCount : Int
  slowFailCount : Int
  firstFailUs : Int
  retryCount : Int
  lastReason : DiscReason
  lastDisconnectUs : Int
  reasonHistogram : DiscReason → Nat
  lostIpCount : Nat
  lastLostIpUs : Int

/-- `wifi_reconn_action_t`. -/
inductive Action where
  | none
  | reconnectNow
  | scheduleBackoff
  | reboot
  deriving Repr, DecidableEq

/-- `wifi_reconn_state_reset`. -/
def ReconnState.reset : ReconnState where
  handshakeFailCount := 0
  genericFailCount := 0
  slowFailCount := 0
  firstFailUs := 0
  retryCount := 0
  lastReason := .unknown
  lastDisconnectUs := 0
  reasonHistogram := fun _ => 0
  lostIpCount := 0
  lastLostIpUs := 0

/-- Reasons in the slow tier: bad credentials or an absent access point. -/
def DiscReason.isSlow (reason : DiscReason) : Bool :=
  reason = .authFail ∨ reason = .noApFound

/-- `compute_backoff_ms`. -/
def computeBackoffMs (cfg : Kconfig) (st : ReconnState) (reason : DiscReason) : Nat :=
  if reason = .handshakeTimeout then
    if st.handshakeFailCount ≤ cfg.handshakeFastRetryLimit then 0
    else if st.handshakeFailCount ≤ cfg.handshakeTier2Limit then cfg.handshakeBackoffTier2Ms
    else cfg.handshakeBackoffTier3Ms
  else if reason.isSlow then
    if st.slowFailCount ≤ cfg.slowTier1Limit then cfg.slowBackoffTier1Ms
    else cfg.slowBackoffTier2Ms
  else if st.genericFailCount ≤ cfg.genericFastRetryLimit then 0
  else cfg.genericBackoffPauseMs

/-- The failure counter of a reason goes up by one. -/
def ReconnState.countFail (st : ReconnState) (reason : DiscReason) : ReconnState :=
  if reason = .handshakeTimeout then { st with handshakeFailCount := st.handshakeFailCount + 1 }
  else if reason.isSlow then { st with slowFailCount := st.slowFailCount + 1 }
  else { st with genericFailCount := st.genericFailCount + 1 }

/-- Increment a histogram cell, up to `UINT16_MAX`. -/
def ReconnState.bumpHistogram (st : ReconnState) (reason : DiscReason) : ReconnState :=
  if st.reasonHistogram reason < 65535 then
    { st with
      reasonHistogram :=
        Function.update st.reasonHistogram reason (st.reasonHistogram reason + 1) }
  else st

/-- The first failure of a window sets its start; a start of 0 is none. -/
def ReconnState.openWindow (st : ReconnState) (now : Int) : ReconnState :=
  if st.firstFailUs = 0 then { st with firstFailUs := now } else st

/-- The verdict after the counters are updated: the action and, unless it is a reboot, the delay. -/
def decideRetry (cfg : Kconfig) (st : ReconnState) (now : Int) (reason : DiscReason) :
    Action × Option Nat :=
  if cfg.persistentFailWindowUs < now - st.firstFailUs then (.reboot, none)
  else
    let backoffMs := computeBackoffMs cfg st reason
    (if backoffMs = 0 then .reconnectNow else .scheduleBackoff, some backoffMs)

/--
`wifi_reconn_policy_on_disconnect` at a clock reading: the action, what is stored in
`backoff_ms_out` if anything, and the state after the call.
-/
def onDisconnect (cfg : Kconfig) (st : ReconnState) (now : Int) (reason : DiscReason) :
    (Action × Option Nat) × ReconnState :=
  let st := { st with lastReason := reason, lastDisconnectUs := now }
  let st := st.bumpHistogram reason
  let st := { st with retryCount := st.retryCount + 1 }
  let st := (st.openWindow now).countFail reason
  (decideRetry cfg st now reason, st)

/-- `wifi_reconn_policy_on_connect_timeout`. -/
def onConnectTimeout (cfg : Kconfig) (st : ReconnState) (now : Int) :
    (Action × Option Nat) × ReconnState :=
  let st :=
    { st with
      lastDisconnectUs := now
      retryCount := st.retryCount + 1
      genericFailCount := st.genericFailCount + 1 }
  let st := st.openWindow now
  (decideRetry cfg st now .unknown, st)

/-- `wifi_reconn_policy_on_got_ip`. -/
def onGotIp (st : ReconnState) : ReconnState :=
  { st with
    handshakeFailCount := 0
    genericFailCount := 0
    slowFailCount := 0
    firstFailUs := 0
    retryCount := 0 }

/-- `wr_would_escalate` at a clock reading. -/
def wouldEscalate (cfg : Kconfig) (st : ReconnState) (now : Int) : Bool :=
  cfg.persistentFailWindowUs < now - (if st.firstFailUs ≠ 0 then st.firstFailUs else now)

/-- `wr_disconnect_would_reconnect_now`: on a copy of the state with the counter bumped. -/
def disconnectWouldReconnectNow (cfg : Kconfig) (st : ReconnState) (reason : DiscReason) : Bool :=
  computeBackoffMs cfg (st.countFail reason) reason = 0

/-! ## The preview and the action agree -/

variable {cfg : Kconfig} {st : ReconnState} {now : Int} {reason : DiscReason}

theorem persistentFailWindowUs_pos (cfg : Kconfig) : 0 < cfg.persistentFailWindowUs := by
  have := cfg.persistentFailWindowS_range
  unfold Kconfig.persistentFailWindowUs
  omega

/-- The backoff only depends on the failure counters. -/
theorem computeBackoffMs_congr {st' : ReconnState}
    (hhandshake : st'.handshakeFailCount = st.handshakeFailCount)
    (hgeneric : st'.genericFailCount = st.genericFailCount)
    (hslow : st'.slowFailCount = st.slowFailCount) :
    computeBackoffMs cfg st' reason = computeBackoffMs cfg st reason := by
  unfold computeBackoffMs
  rw [hhandshake, hgeneric, hslow]

/-- What a disconnect does to the counters and the window, whatever the other fields. -/
theorem onDisconnect_counters (cfg : Kconfig) (st : ReconnState) (now : Int)
    (reason : DiscReason) :
    computeBackoffMs cfg (onDisconnect cfg st now reason).2 reason =
        computeBackoffMs cfg (st.countFail reason) reason ∧
      (onDisconnect cfg st now reason).2.firstFailUs =
        if st.firstFailUs = 0 then now else st.firstFailUs := by
  have hbump (s : ReconnState) : (s.bumpHistogram reason).handshakeFailCount = s.handshakeFailCount ∧
      (s.bumpHistogram reason).genericFailCount = s.genericFailCount ∧
      (s.bumpHistogram reason).slowFailCount = s.slowFailCount ∧
      (s.bumpHistogram reason).firstFailUs = s.firstFailUs := by
    unfold ReconnState.bumpHistogram
    split <;> exact ⟨rfl, rfl, rfl, rfl⟩
  have hopen (s : ReconnState) : (s.openWindow now).handshakeFailCount = s.handshakeFailCount ∧
      (s.openWindow now).genericFailCount = s.genericFailCount ∧
      (s.openWindow now).slowFailCount = s.slowFailCount ∧
      (s.openWindow now).firstFailUs = if s.firstFailUs = 0 then now else s.firstFailUs := by
    unfold ReconnState.openWindow
    split <;> exact ⟨rfl, rfl, rfl, rfl⟩
  have hcount (s : ReconnState) : (s.countFail reason).firstFailUs = s.firstFailUs := by
    unfold ReconnState.countFail
    split
    · rfl
    split <;> rfl
  constructor
  · unfold onDisconnect ReconnState.countFail
    split
    · apply computeBackoffMs_congr <;> simp [hopen, hbump]
    split <;> apply computeBackoffMs_congr <;> simp [hopen, hbump]
  · simp [onDisconnect, hcount, hopen, hbump]

/-- A disconnect past the window stores no delay; before, it stores the delay the guard saw. -/
theorem onDisconnect_backoff (cfg : Kconfig) (st : ReconnState) (now : Int)
    (reason : DiscReason) :
    (onDisconnect cfg st now reason).1.2 =
      if wouldEscalate cfg st now = true then none
      else some (computeBackoffMs cfg (st.countFail reason) reason) := by
  obtain ⟨hbackoff, hfirst⟩ := onDisconnect_counters cfg st now reason
  have hwindow : wouldEscalate cfg st now = true ↔
      cfg.persistentFailWindowUs < now - (onDisconnect cfg st now reason).2.firstFailUs := by
    rw [hfirst, wouldEscalate, decide_eq_true_eq]
    by_cases hzero : st.firstFailUs = 0 <;> simp [hzero]
  have hdecide : (onDisconnect cfg st now reason).1 =
      decideRetry cfg (onDisconnect cfg st now reason).2 now reason := rfl
  rw [hdecide, decideRetry]
  by_cases hlate : cfg.persistentFailWindowUs < now - (onDisconnect cfg st now reason).2.firstFailUs
  · rw [if_pos hlate, if_pos (hwindow.mpr hlate)]
  · rw [if_neg hlate, if_neg (hwindow.not.mpr hlate), hbackoff]

/-- Without an open window nothing escalates. -/
theorem wouldEscalate_of_no_window (hfirst : st.firstFailUs = 0) :
    wouldEscalate cfg st now = false := by
  have hpos := persistentFailWindowUs_pos cfg
  simp only [wouldEscalate, hfirst, ne_eq, not_true_eq_false, if_false, decide_eq_false_iff_not]
  omega

/-- Escalation stays due as the clock advances. -/
theorem wouldEscalate_mono {later : Int} (hle : now ≤ later)
    (hnow : wouldEscalate cfg st now = true) : wouldEscalate cfg st later = true := by
  by_cases hfirst : st.firstFailUs = 0
  · rw [wouldEscalate_of_no_window hfirst] at hnow
    cases hnow
  · simp only [wouldEscalate, ne_eq, hfirst, not_false_eq_true, if_true, decide_eq_true_eq] at hnow ⊢
    omega

end Wifi
end Breadboard
