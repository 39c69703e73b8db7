import Mathlib
import Breadboard.Foundations.Runs
import Breadboard.Fsm.Stepped
import Breadboard.Wifi.Table

/-!
# bb_wifi - when the reconnect machine cannot get stuck

A waiting state of the reconnect machine is left by its timer: the watchdog
while connecting, the delay while backing off.  The delay passes from an action
to the entry hook of the backoff state, and the action reads the clock again
after the guards have: when the failure window closes in between, the action
leaves no delay behind and the backoff state is entered without a timer.

Main results:

- Theorem `step_inv`: one step keeps the timers right while the window stays open.
- Theorem `timers_right_iff_window_holds`: over whole runs, exactly then.
-/

namespace Breadboard
namespace Wifi

open Fsm Foundations

/-- The timers a state needs, and no others. -/
def TimersRight (m : WrMachine) : Prop :=
  match m.current with
  | .connecting => ∃ ms, armed m.body.timers = [(.connectingTimeout, ms)]
  | .backoff => ∃ ms, ms ≠ 0 ∧ armed m.body.timers = [(.backoffTimeout, ms)]
  | _ => armed m.body.timers = []

/--
The failure window does not close between the last clock reading of the guards and the
reading of the action, on a disconnect that is to be followed by a delay.
-/
def WindowHolds (cfg : Kconfig) (ad : Adapter) (m : WrMachine) (input : WrEvent × EvtData) :
    Prop :=
  m.current = .connecting → input.1 = .staDisconnected → evtReason input.2 ≠ .assocLeave →
    disconnectWouldReconnectNow cfg m.body.ctx.policy (evtReason input.2) = false →
      wouldEscalate cfg m.body.ctx.policy (ad.nowUs (m.body.ctx.reads + 2)) = true →
        wouldEscalate cfg m.body.ctx.policy (ad.nowUs (m.body.ctx.reads + 1)) = true

instance (cfg : Kconfig) (ad : Adapter) (m : WrMachine) (input : WrEvent × EvtData) :
    Decidable (WindowHolds cfg ad m input) :=
  inferInstanceAs (Decidable (_ → _ → _ → _ → _ → _))

/-- The invariant: timers are right, and a connected machine has no failure window open. -/
structure Inv (m : WrMachine) : Prop where
  running : m.terminal = false
  slots : m.body.timers ≠ []
  timers : TimersRight m
  no_window : m.current = .connected → m.body.ctx.policy.firstFailUs = 0

variable {cfg : Kconfig} {ad : Adapter} {m : WrMachine} {data : EvtData}

/-! ## Entering a state -/

theorem arm_slots {b : WrBody} (hslots : b.timers ≠ []) (ev : WrEvent) (ms : Nat) :
    (b.arm ev ms).timers ≠ [] := by
  rw [← List.length_pos_iff] at hslots ⊢
  simpa [Body.arm] using hslots

theorem clear_slots {timers : List (Timer WrEvent)} (hslots : timers ≠ []) :
    clearTimers timers ≠ [] := by
  rw [← List.length_pos_iff] at hslots ⊢
  simpa using hslots

/-- Entering a state with cleared timers arms what the state needs. -/
theorem runEntry_inv {b : WrBody} (hslots : b.timers ≠ []) (hclear : armed b.timers = [])
    {s : WrState} (hbackoff : s = .backoff → b.ctx.pendingBackoffMs ≠ 0)
    (hconnected : s = .connected → b.ctx.policy.firstFailUs = 0) :
    Inv { current := s, terminal := false, body := runEntry (wrDesc cfg ad) s b } := by
  have htimeout : cfg.connectingTimeoutMs ≠ 0 := by
    have := cfg.connectingTimeoutMs_range
    omega
  cases s with
  | connecting =>
    refine ⟨rfl, arm_slots hslots _ _, ⟨cfg.connectingTimeoutMs, ?_⟩, by simp⟩
    have harmed := @armed_armTimer_of_none _ _ _ WrEvent.connectingTimeout cfg.connectingTimeoutMs
      hclear hslots
    rw [if_neg htimeout] at harmed
    exact harmed
  | backoff =>
    refine ⟨rfl, arm_slots hslots _ _, ⟨b.ctx.pendingBackoffMs, hbackoff rfl, ?_⟩, by simp⟩
    have harmed := @armed_armTimer_of_none _ _ _ WrEvent.backoffTimeout b.ctx.pendingBackoffMs
      hclear hslots
    rw [if_neg (hbackoff rfl)] at harmed
    exact harmed
  | noCreds => exact ⟨rfl, hslots, hclear, by simp⟩
  | connected => exact ⟨rfl, hslots, hclear, fun _ => hconnected rfl⟩
  | escalateReboot => exact ⟨rfl, hslots, hclear, by simp⟩
  | left => exact ⟨rfl, hslots, hclear, by simp⟩

theorem transition_inv (hrun : m.terminal = false) (hslots : m.body.timers ≠ []) {s : WrState}
    (hbackoff : s = .backoff → m.body.ctx.pendingBackoffMs ≠ 0)
    (hconnected : s = .connected → m.body.ctx.policy.firstFailUs = 0) :
    Inv (transition (wrDesc cfg ad) m (.to s)) := by
  have hexit : runExit (wrDesc cfg ad) m.current m.body = m.body := by
    cases m.current <;> rfl
  rw [transition, hexit, hrun]
  exact runEntry_inv (clear_slots hslots) armed_clearTimers hbackoff hconnected

/-- Entering the backoff state without a delay arms nothing. -/
theorem transition_backoff_zero (hzero : m.body.ctx.pendingBackoffMs = 0)
    (hslots : m.body.timers ≠ []) :
    ¬ TimersRight (transition (wrDesc cfg ad) m (.to .backoff)) := by
  have hexit : runExit (wrDesc cfg ad) m.current m.body = m.body := by
    cases m.current <;> rfl
  rw [transition, hexit]
  rintro ⟨ms, -, harmed⟩
  have hnone := @armed_armTimer_of_none _ _ _ WrEvent.backoffTimeout m.body.ctx.pendingBackoffMs
    (@armed_clearTimers _ m.body.timers) (clear_slots hslots)
  rw [if_pos hzero] at hnone
  have hboth := hnone.symm.trans harmed
  simp at hboth

/-! ## Which row is taken -/

theorem wrStep_of_none (hrun : m.terminal = false) {input : WrEvent × EvtData} {ctx : Ctx}
    (hrow : findRow m.current input.1 input.2 (wrRows cfg ad) m.body.ctx = (none, ctx)) :
    wrStep cfg ad m input = { m with body := { m.body with ctx := ctx } } := by
  have hdesc : findRow m.current input.1 input.2 (wrDesc cfg ad).rows m.body.ctx = (none, ctx) :=
    hrow
  rw [wrStep, Fsm.step, if_neg (by simp [hrun]), hdesc]

theorem wrStep_of_some (hrun : m.terminal = false) {input : WrEvent × EvtData} {ctx : Ctx}
    {row : Row Ctx WrState WrEvent EvtData}
    (hrow : findRow m.current input.1 input.2 (wrRows cfg ad) m.body.ctx = (some row, ctx)) :
    wrStep cfg ad m input =
      transition (wrDesc cfg ad)
        { m with body := runAction row { m.body with ctx := ctx } input.2 } row.next := by
  have hdesc : findRow m.current input.1 input.2 (wrDesc cfg ad).rows m.body.ctx =
      (some row, ctx) := hrow
  rw [wrStep, Fsm.step, if_neg (by simp [hrun]), hdesc]

/-- A row whose action is `action` and whose next state is `next` is taken with `ctx`. -/
def Takes (cfg : Kconfig) (ad : Adapter) (m : WrMachine) (input : WrEvent × EvtData)
    (action : WrBody → EvtData → WrBody) (next : Next WrState) (ctx : Ctx) : Prop :=
  wrStep cfg ad m input =
    transition (wrDesc cfg ad)
      { m with body := action { m.body with ctx := ctx } input.2 } next

theorem takes_of_findRow (hrun : m.terminal = false) {current : WrState}
    (hcur : m.current = current) {input : WrEvent × EvtData} {ctx : Ctx}
    {state : Option WrState} {event : WrEvent} {guard : Option (Ctx → EvtData → Bool × Ctx)}
    {action : WrBody → EvtData → WrBody} {next : Next WrState}
    (hrow : findRow current input.1 input.2 (wrRows cfg ad) m.body.ctx =
      (some ⟨state, event, guard, some action, next⟩, ctx)) :
    Takes cfg ad m input action next ctx := by
  subst hcur
  exact wrStep_of_some hrun hrow

theorem guardEscalateAllowed_spec (ctx : Ctx) :
    (guardEscalateAllowed cfg ad ctx).2.policy = ctx.policy ∧
      (guardEscalateAllowed cfg ad ctx).2.reads = ctx.reads + 1 ∧
      ((guardEscalateAllowed cfg ad ctx).1 = true →
        wouldEscalate cfg ctx.policy (ad.nowUs ctx.reads) = true) := by
  unfold guardEscalateAllowed peekEscalate
  dsimp only
  split
  · rename_i hesc
    exact ⟨rfl, rfl, fun _ => hesc⟩
  · exact ⟨rfl, rfl, fun h => by cases h⟩

theorem rows_disconnected_connecting :
    (wrRows cfg ad).filter (Row.Applies · .connecting .staDisconnected) =
      [ ⟨some .connecting, .staDisconnected, some guardDiscIsAssocLeave,
          some (actDisconnectParkNoReconnect cfg ad), .to .left⟩,
        ⟨some .connecting, .staDisconnected, some (guardDiscEscalateAllowed cfg ad),
          some (actNoteDisconnect cfg ad), .to .escalateReboot⟩,
        ⟨some .connecting, .staDisconnected, some (guardDiscEscalateDenied cfg ad),
          some (actDisconnectDenied cfg ad), .to .backoff⟩,
        ⟨some .connecting, .staDisconnected, some (guardDiscReconnectNow cfg),
          some (actDisconnectReconnectNow cfg ad), .same⟩,
        ⟨some .connecting, .staDisconnected, none, some (actDisconnectBackoff cfg ad),
          .to .backoff⟩ ] :=
  rfl

theorem rows_timeout_connecting :
    (wrRows cfg ad).filter (Row.Applies · .connecting .connectingTimeout) =
      [ ⟨some .connecting, .connectingTimeout, some (guardTimeoutEscalateAllowed cfg ad),
          some (actNoteTimeout cfg ad), .to .escalateReboot⟩,
        ⟨some .connecting, .connectingTimeout, some (guardTimeoutEscalateDenied cfg ad),
          some (actTimeoutDenied cfg ad), .to .backoff⟩,
        ⟨some .connecting, .connectingTimeout, none, some (actTimeoutReattempt cfg ad), .same⟩ ] :=
  rfl

theorem rows_disconnected_connected :
    (wrRows cfg ad).filter (Row.Applies · .connected .staDisconnected) =
      [ ⟨some .connected, .staDisconnected, some guardDiscIsAssocLeave,
          some (actDisconnectParkNoReconnect cfg ad), .to .left⟩,
        ⟨some .connected, .staDisconnected, some (guardDiscReconnectNow cfg),
          some (actDisconnectReconnectNow cfg ad), .to .connecting⟩,
        ⟨some .connected, .staDisconnected, none, some (actDisconnectBackoff cfg ad),
          .to .backoff⟩ ] :=
  rfl

/-- What a disconnect does while connecting: one row after the other, with their guards. -/
theorem disconnected_connecting (hrun : m.terminal = false) (hcur : m.current = .connecting) :
    let esc := fun n => wouldEscalate cfg m.body.ctx.policy (ad.nowUs (m.body.ctx.reads + n))
    let reason := evtReason data
    let now := disconnectWouldReconnectNow cfg m.body.ctx.policy reason
    ∃ ctx, ctx.policy = m.body.ctx.policy ∧
      (reason = .assocLeave ∧
          Takes cfg ad m (.staDisconnected, data) (actDisconnectParkNoReconnect cfg ad)
            (.to .left) ctx ∨
        esc 0 = true ∧
          Takes cfg ad m (.staDisconnected, data) (actNoteDisconnect cfg ad)
            (.to .escalateReboot) ctx ∨
        esc 1 = true ∧
          Takes cfg ad m (.staDisconnected, data) (actDisconnectDenied cfg ad) (.to .backoff) ctx ∨
        now = true ∧
          Takes cfg ad m (.staDisconnected, data) (actDisconnectReconnectNow cfg ad) .same ctx ∨
        reason ≠ .assocLeave ∧ esc 1 = false ∧ now = false ∧ ctx.reads = m.body.ctx.reads + 2 ∧
          Takes cfg ad m (.staDisconnected, data) (actDisconnectBackoff cfg ad)
            (.to .backoff) ctx) := by
  intro esc reason now
  obtain ⟨out, hout⟩ : ∃ out,
      findRow .connecting .staDisconnected data (wrRows cfg ad) m.body.ctx = out := ⟨_, rfl⟩
  obtain ⟨hpolicy, hreads, hallowed⟩ := @guardEscalateAllowed_spec cfg ad m.body.ctx
  have hfind := hout
  rw [findRow_filter, rows_disconnected_connecting, findRow_guarded] at hfind
  split at hfind
  · rename_i hleave
    subst hfind
    refine ⟨_, rfl, .inl ⟨by simpa [guardDiscIsAssocLeave] using hleave, ?_⟩⟩
    exact takes_of_findRow hrun hcur hout
  rename_i hleave
  rw [findRow_guarded] at hfind
  split at hfind
  · rename_i hesc
    subst hfind
    exact ⟨_, hpolicy, .inr (.inl ⟨hallowed hesc, takes_of_findRow hrun hcur hout⟩)⟩
  have hpeek : (peekEscalate cfg ad (guardEscalateAllowed cfg ad m.body.ctx).2).1 = esc 1 := by
    rw [peekEscalate, hpolicy, hreads]
  rw [findRow_guarded] at hfind
  split at hfind
  · rename_i hesc
    subst hfind
    refine ⟨_, ?_, .inr (.inr (.inl ⟨hpeek.symm.trans hesc, takes_of_findRow hrun hcur hout⟩))⟩
    exact hpolicy
  rename_i hesc
  have hnow : (guardDiscReconnectNow cfg
      (peekEscalate cfg ad (guardEscalateAllowed cfg ad m.body.ctx).2).2 data).1 = now := by
    simp only [guardDiscReconnectNow, peekEscalate, Ctx.tick, hpolicy]
    rfl
  rw [findRow_guarded] at hfind
  split at hfind
  · rename_i hfast
    subst hfind
    refine ⟨_, ?_,
      .inr (.inr (.inr (.inl ⟨hnow.symm.trans hfast, takes_of_findRow hrun hcur hout⟩)))⟩
    exact hpolicy
  · rename_i hslow
    rw [findRow_unguarded] at hfind
    subst hfind
    refine ⟨_, ?_, .inr (.inr (.inr (.inr ⟨?_, ?_, ?_, ?_, takes_of_findRow hrun hcur hout⟩)))⟩
    · exact hpolicy
    · simpa [guardDiscIsAssocLeave] using hleave
    · exact hpeek.symm.trans (Bool.not_eq_true _ ▸ hesc)
    · exact hnow.symm.trans (Bool.not_eq_true _ ▸ hslow)
    · simp only [guardDiscReconnectNow, guardDiscEscalateDenied, peekEscalate, Ctx.tick]
      exact congrArg (· + 1) hreads

/-- What the watchdog does while connecting. -/
theorem timeout_connecting (hrun : m.terminal = false) (hcur : m.current = .connecting) :
    ∃ ctx, ctx.policy = m.body.ctx.policy ∧
      (Takes cfg ad m (.connectingTimeout, data) (actNoteTimeout cfg ad) (.to .escalateReboot) ctx ∨
        Takes cfg ad m (.connectingTimeout, data) (actTimeoutDenied cfg ad) (.to .backoff) ctx ∨
        Takes cfg ad m (.connectingTimeout, data) (actTimeoutReattempt cfg ad) .same ctx) := by
  obtain ⟨out, hout⟩ : ∃ out,
      findRow .connecting .connectingTimeout data (wrRows cfg ad) m.body.ctx = out := ⟨_, rfl⟩
  obtain ⟨hpolicy, -, -⟩ := @guardEscalateAllowed_spec cfg ad m.body.ctx
  have hfind := hout
  rw [findRow_filter, rows_timeout_connecting, findRow_guarded] at hfind
  split at hfind
  · subst hfind
    exact ⟨_, hpolicy, .inl (takes_of_findRow hrun hcur hout)⟩
  rw [findRow_guarded] at hfind
  split at hfind
  · subst hfind
    refine ⟨_, ?_, .inr (.inl (takes_of_findRow hrun hcur hout))⟩
    exact hpolicy
  · rw [findRow_unguarded] at hfind
    subst hfind
    refine ⟨_, ?_, .inr (.inr (takes_of_findRow hrun hcur hout))⟩
    exact hpolicy

/-- What a disconnect does while connected. -/
theorem disconnected_connected (hrun : m.terminal = false) (hcur : m.current = .connected) :
    let now := disconnectWouldReconnectNow cfg m.body.ctx.policy (evtReason data)
    Takes cfg ad m (.staDisconnected, data) (actDisconnectParkNoReconnect cfg ad) (.to .left)
        m.body.ctx ∨
      Takes cfg ad m (.staDisconnected, data) (actDisconnectReconnectNow cfg ad) (.to .connecting)
        m.body.ctx ∨
      now = false ∧
        Takes cfg ad m (.staDisconnected, data) (actDisconnectBackoff cfg ad) (.to .backoff)
          m.body.ctx := by
  intro now
  obtain ⟨out, hout⟩ : ∃ out,
      findRow .connected .staDisconnected data (wrRows cfg ad) m.body.ctx = out := ⟨_, rfl⟩
  have hfind := hout
  rw [findRow_filter, rows_disconnected_connected, findRow_guarded] at hfind
  split at hfind
  · subst hfind
    exact .inl (takes_of_findRow hrun hcur hout)
  rw [findRow_guarded] at hfind
  split at hfind
  · subst hfind
    exact .inr (.inl (takes_of_findRow hrun hcur hout))
  · rename_i hslow
    rw [findRow_unguarded] at hfind
    subst hfind
    exact .inr (.inr ⟨Bool.not_eq_true _ ▸ hslow, takes_of_findRow hrun hcur hout⟩)

/-! ## One step -/

/-- An event no row is for changes nothing. -/
theorem ignored_inv (hinv : Inv m) {input : WrEvent × EvtData}
    (hrow : findRow m.current input.1 input.2 (wrRows cfg ad) m.body.ctx = (none, m.body.ctx)) :
    Inv (wrStep cfg ad m input) := by
  rw [wrStep_of_none hinv.running hrow]
  exact hinv

/-- A row that goes to a state, by what its action leaves in the context. -/
theorem goes_inv (hinv : Inv m) {input : WrEvent × EvtData} {action : WrBody → EvtData → WrBody}
    {s : WrState} {ctx : Ctx} (htakes : Takes cfg ad m input action (.to s) ctx)
    (hslots : (action { m.body with ctx := ctx } input.2).timers ≠ [])
    (hbackoff : s = .backoff →
      (action { m.body with ctx := ctx } input.2).ctx.pendingBackoffMs ≠ 0)
    (hconnected : s = .connected →
      (action { m.body with ctx := ctx } input.2).ctx.policy.firstFailUs = 0) :
    Inv (wrStep cfg ad m input) := by
  rw [htakes]
  exact @transition_inv cfg ad { m with body := action { m.body with ctx := ctx } input.2 }
    hinv.running hslots s hbackoff hconnected

/-- A row that stays in the connecting state arms its watchdog again. -/
theorem stays_inv (hinv : Inv m) (hcur : m.current = .connecting) {input : WrEvent × EvtData}
    {action : WrBody → EvtData → WrBody} {ctx ctx' : Ctx}
    (htakes : Takes cfg ad m input action .same ctx)
    (harm : action { m.body with ctx := ctx } input.2 =
      Body.arm { m.body with ctx := ctx' } .connectingTimeout cfg.connectingTimeoutMs) :
    Inv (wrStep cfg ad m input) := by
  have htimeout : cfg.connectingTimeoutMs ≠ 0 := by
    have := cfg.connectingTimeoutMs_range
    omega
  have hold : ∃ ms, armed m.body.timers = [(.connectingTimeout, ms)] := by
    have htimers := hinv.timers
    rwa [TimersRight, hcur] at htimers
  obtain ⟨ms, hms⟩ := hold
  rw [htakes, harm]
  refine ⟨hinv.running, arm_slots hinv.slots _ _, ?_, ?_⟩
  · simp only [transition, TimersRight, hcur]
    exact ⟨_, armed_armTimer_of_same hms htimeout⟩
  · simp [transition, hcur]

/-- The delay a disconnect leaves is the one the guards previewed, unless it escalates. -/
theorem noteDisconnect_delay (ctx : Ctx) (data : EvtData) :
    (noteDisconnect cfg ad ctx data).1 =
      if wouldEscalate cfg ctx.policy (ad.nowUs ctx.reads) = true then 0
      else computeBackoffMs cfg (ctx.policy.countFail (evtReason data)) (evtReason data) := by
  rw [noteDisconnect, onDisconnect_backoff]
  split <;> rfl

theorem genericPause_ne_zero (cfg : Kconfig) : cfg.genericBackoffPauseMs ≠ 0 := by
  have := cfg.genericBackoffPauseMs_range
  omega

/-- One step keeps the invariant when the failure window holds. -/
theorem step_inv (m : WrMachine) (input : WrEvent × EvtData)
    (hinv : Inv m) (hholds : WindowHolds cfg ad m input) : Inv (wrStep cfg ad m input) := by
  obtain ⟨event, data⟩ := input
  have hpause := genericPause_ne_zero cfg
  cases hcur : m.current with
  | noCreds =>
    cases event with
    | credsArrived =>
      have htakes : Takes cfg ad m (.credsArrived, data) actCredsArrivedConnect (.to .connecting)
          m.body.ctx := takes_of_findRow hinv.running hcur rfl
      exact goes_inv hinv htakes hinv.slots (by simp) (by simp)
    | _ => exact ignored_inv hinv (by rw [hcur]; rfl)
  | connecting =>
    cases event with
    | gotIp =>
      have htakes : Takes cfg ad m (.gotIp, data) actOnGotIp (.to .connected) m.body.ctx :=
        takes_of_findRow hinv.running hcur rfl
      exact goes_inv hinv htakes hinv.slots (by simp) fun _ => rfl
    | staDisconnected =>
      obtain ⟨ctx, hpolicy, hrow⟩ := @disconnected_connecting cfg ad m data hinv.running hcur
      rcases hrow with ⟨-, ht⟩ | ⟨-, ht⟩ | ⟨-, ht⟩ | ⟨-, ht⟩ | ⟨hleave, hesc, hslow, hreads, ht⟩
      · exact goes_inv hinv ht hinv.slots (by simp) (by simp)
      · exact goes_inv hinv ht hinv.slots (by simp) (by simp)
      · exact goes_inv hinv ht hinv.slots (fun _ => hpause) (by simp)
      · exact stays_inv hinv hcur ht rfl
      · refine goes_inv hinv ht hinv.slots (fun _ => ?_) (by simp)
        have hlate : wouldEscalate cfg m.body.ctx.policy
            (ad.nowUs (m.body.ctx.reads + 2)) ≠ true := by
          intro hcross
          have hbefore := hholds hcur rfl hleave hslow hcross
          exact absurd (hesc.symm.trans hbefore) (by simp)
        simp only [actDisconnectBackoff, noteDisconnect_delay, hpolicy, hreads, if_neg hlate]
        simpa [disconnectWouldReconnectNow] using hslow
    | connectingTimeout =>
      obtain ⟨ctx, -, hrow⟩ := @timeout_connecting cfg ad m data hinv.running hcur
      rcases hrow with ht | ht | ht
      · exact goes_inv hinv ht hinv.slots (by simp) (by simp)
      · exact goes_inv hinv ht hinv.slots (fun _ => hpause) (by simp)
      · exact stays_inv hinv hcur ht rfl
    | _ => exact ignored_inv hinv (by rw [hcur]; rfl)
  | connected =>
    have hfirst := hinv.no_window hcur
    cases event with
    | staDisconnected =>
      rcases @disconnected_connected cfg ad m data hinv.running hcur with ht | ht | ⟨hslow, ht⟩
      · exact goes_inv hinv ht hinv.slots (by simp) (by simp)
      · exact goes_inv hinv ht (arm_slots hinv.slots _ _) (by simp) (by simp)
      · refine goes_inv hinv ht hinv.slots (fun _ => ?_) (by simp)
        simp only [actDisconnectBackoff, noteDisconnect_delay, wouldEscalate_of_no_window hfirst,
          Bool.false_eq_true, if_false]
        simpa [disconnectWouldReconnectNow] using hslow
    | _ => exact ignored_inv hinv (by rw [hcur]; rfl)
  | backoff =>
    cases event with
    | backoffTimeout =>
      have htakes : Takes cfg ad m (.backoffTimeout, data) actBackoffElapsed (.to .connecting)
          m.body.ctx := takes_of_findRow hinv.running hcur rfl
      exact goes_inv hinv htakes hinv.slots (by simp) (by simp)
    | staDisconnected =>
      have hrow : findRow m.current .staDisconnected data (wrRows cfg ad) m.body.ctx =
          (some ⟨some .backoff, .staDisconnected, none, none, .same⟩, m.body.ctx) := by
        rw [hcur]
        rfl
      rw [wrStep_of_some hinv.running hrow]
      exact hinv
    | _ => exact ignored_inv hinv (by rw [hcur]; rfl)
  | escalateReboot =>
    cases event <;> exact ignored_inv hinv (by rw [hcur]; rfl)
  | left =>
    cases event with
    | reconnectRequested =>
      have htakes : Takes cfg ad m (.reconnectRequested, data) actResetState (.to .connecting)
          m.body.ctx := takes_of_findRow hinv.running hcur rfl
      exact goes_inv hinv htakes hinv.slots (by simp) (by simp)
    | _ => exact ignored_inv hinv (by rw [hcur]; rfl)

/-- When the window closes between guard and action, the backoff state is entered untimed. -/
theorem step_wedges (m : WrMachine) (input : WrEvent × EvtData) (hmono : Monotone ad.nowUs)
    (hinv : Inv m) (hcross : ¬ WindowHolds cfg ad m input) :
    ¬ TimersRight (wrStep cfg ad m input) := by
  obtain ⟨event, data⟩ := input
  simp only [WindowHolds, Classical.not_imp] at hcross
  obtain ⟨hcur, rfl, hleave, hslow, hlate, hearly⟩ := hcross
  obtain ⟨ctx, hpolicy, hrow⟩ := @disconnected_connecting cfg ad m data hinv.running hcur
  have hfirst : wouldEscalate cfg m.body.ctx.policy (ad.nowUs (m.body.ctx.reads + 0)) ≠ true :=
    fun h => hearly (wouldEscalate_mono (hmono (by omega)) h)
  rcases hrow with ⟨h, -⟩ | ⟨h, -⟩ | ⟨h, -⟩ | ⟨h, -⟩ | ⟨-, -, -, hreads, ht⟩
  · exact absurd h hleave
  · exact absurd h hfirst
  · exact absurd h hearly
  · exact absurd (hslow.symm.trans h) (by simp)
  · rw [ht]
    refine @transition_backoff_zero cfg ad
      { m with body := actDisconnectBackoff cfg ad { m.body with ctx := ctx } data } ?_ hinv.slots
    simp only [actDisconnectBackoff, noteDisconnect_delay, hpolicy, hreads, if_pos hlate]

/-! ## Whole runs -/

theorem init_inv {initial : WrState} (hinitial : initial = .connecting ∨ initial = .noCreds)
    {b : WrBody} (hslots : b.timers ≠ []) : Inv (wifiReconnFsmInit cfg ad initial b) := by
  refine runEntry_inv (clear_slots hslots) armed_clearTimers ?_ ?_ <;>
    rcases hinitial with rfl | rfl <;> simp

/--
From either initial state, with any reason codes, safeguard answers and non-decreasing
clock: every state reached has the timers it needs and no others exactly when, in every
step, the failure window does not close between the guards and the action of a
disconnect that is to be followed by a delay.
-/
theorem timers_right_iff_window_holds (hmono : Monotone ad.nowUs) {initial : WrState}
    (hinitial : initial = .connecting ∨ initial = .noCreds) {b : WrBody} (hslots : b.timers ≠ [])
    (inputs : List (WrEvent × EvtData)) :
    (∀ pre, pre <+: inputs →
        TimersRight (run (wrStep cfg ad) (wifiReconnFsmInit cfg ad initial b) pre)) ↔
      Along (wrStep cfg ad) (WindowHolds cfg ad) (wifiReconnFsmInit cfg ad initial b) inputs :=
  good_throughout_iff_along step_inv (fun _ h => h.timers)
    (fun m input => step_wedges m input hmono) (init_inv hinitial hslots) inputs

/-- The context at power-on: all zero, with one timer slot. -/
def powerOn : WrBody :=
  { ctx :=
      { policy := .reset
        pendingBackoffMs := 0
        selfDisconnect := false
        reads := 0
        asks := 0
        effects := [] }
    timers := [{ event := .gotIp, ms := 0, armed := false }] }

/-- A bad password, the slow delay, and a second failure past the window: the safeguard decides. -/
theorem timers_right_iff_window_holds_denied :
    TimersRight (run (wrStep .default ⟨fun n => 1 + 200000000 * n, fun _ => false⟩)
      (wifiReconnFsmInit .default ⟨fun n => 1 + 200000000 * n, fun _ => false⟩ .connecting powerOn)
      [(.staDisconnected, some 2), (.backoffTimeout, none), (.staDisconnected, some 2)]) := by
  have hmono : Monotone fun n : Nat => 1 + 200000000 * (n : Int) := by
    intro a b hab
    simp only
    omega
  refine (timers_right_iff_window_holds hmono (.inl rfl) (by simp [powerOn]) _).mpr ?_ _
    List.prefix_rfl
  decide

/-- The window closes between the guards and the action: a backoff state with no timer. -/
theorem backoff_without_timer :
    let nowUs : Nat → Int := fun n => if n < 3 then 1 else if n < 5 then 300000001 else 300000002
    Monotone nowUs ∧
      ¬ TimersRight (run (wrStep .default ⟨nowUs, fun _ => false⟩)
        (wifiReconnFsmInit .default ⟨nowUs, fun _ => false⟩ .connecting powerOn)
        [(.staDisconnected, some 2), (.backoffTimeout, none), (.staDisconnected, some 2)]) := by
  dsimp only
  constructor
  · intro a b hab
    simp only
    split <;> split <;> (try split) <;> (try split) <;> omega
  · rintro ⟨ms, -, harmed⟩
    cases harmed

end Wifi
end Breadboard
