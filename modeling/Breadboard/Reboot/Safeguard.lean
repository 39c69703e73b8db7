import Breadboard.Foundations.Runs
import Breadboard.Reboot.Codec

/-!
# Safeguard reboots over boots

The storage-backed half of `bb_system_reboot_budget.c`, the facade
`bb_system_safeguard_reboot.c` over it, and a device that runs them boot
after boot.  RAM is lost at every restart, so only the stored text of each
cause's budget and the boot-fail count carry over.

The platform resolves the clock anew at each use: one attempt reads it when it
asks, reads the sync flag when it accounts, and reads the clock again when the
budget is recorded.

Main results:

- Theorem `holds_step`: each step appends to a cause's history exactly the
  stamp it recorded for that cause.
- Theorem `holds_run`: after every run each cause's budget is the one its own
  recorded stamps give.
-/

namespace Breadboard
namespace Reboot

open Foundations

/-! ## Storage and cache -/

/-- The real members of `bb_reboot_cause_t`. -/
inductive Cause where
  | wifiSafeguard
  | egressTier3
  deriving DecidableEq, Repr

/-- `cause_key`. -/
def causeKey : Cause → String
  | .wifiSafeguard => "budget_wifi"
  | .egressTier3 => "budget_egress"

/--
What the `bb_reboot` namespace of the storage backend keeps across a restart: the
budget texts with their terminator, and the u8 boot-fail count under its own key.
-/
structure Flash where
  budget : String → Option Bytes
  bootCnt : Nat

/-- The stored state and the RAM of `bb_system_reboot_budget.c`. -/
structure Device where
  flash : Flash
  cache : Cause → BudgetState
  loaded : Cause → Bool

/-- RAM as it is right after a boot. -/
def Device.boot (flash : Flash) : Device where
  flash := flash
  cache := fun _ => BudgetState.zero
  loaded := fun _ => false

/-- The string in the load buffer, whose last byte is overwritten with a terminator. -/
def cString (v : Bytes) : Bytes :=
  (v.take (stateStrMax - 1)).takeWhile (· ≠ 0)

/-- `reboot_budget_load`: anything that is not a well-formed text loads as zero. -/
def rebootBudgetLoad (flash : Flash) (cause : Cause) : BudgetState :=
  match flash.budget (causeKey cause) with
  | none => BudgetState.zero
  | some v =>
    if v.length = 0 ∨ stateStrMax < v.length then BudgetState.zero
    else (stateDecode (cString v)).getD BudgetState.zero

/-- `reboot_budget_save`, the stored value including its terminator. -/
def rebootBudgetSave (flash : Flash) (cause : Cause) (st : BudgetState) : Flash :=
  match stateEncode st stateStrMax with
  | none => flash
  | some buf =>
    { flash with budget := Function.update flash.budget (causeKey cause) (some (buf ++ [0])) }

/-- `cache_get`: the slot is filled from storage on its first use. -/
def cacheGet (d : Device) (cause : Cause) : Device :=
  if d.loaded cause then d
  else
    { d with
      cache := Function.update d.cache cause (rebootBudgetLoad d.flash cause)
      loaded := Function.update d.loaded cause true }

/-! ## Budget decisions -/

/-- One reading of `bb_ntp_is_synced()` and `time(NULL)`. -/
structure Clock where
  synced : Bool
  nowS : UInt32
  deriving DecidableEq, Repr

/-- `bb_system_reboot_budget_allows_at`: the answer, and the cache it may have filled. -/
def rebootBudgetAllowsAt (cfg : Config) (d : Device) (cause : Cause) (clock : Clock) :
    Bool × Device :=
  if ¬ clock.synced then (true, d)
  else
    let d := cacheGet d cause
    (shouldAllow clock.nowS cfg.minIntervalS cfg.dailyCap (d.cache cause), d)

/-- `bb_system_reboot_budget_record_at`. -/
def rebootBudgetRecordAt (d : Device) (cause : Cause) (clock : Clock) : Device :=
  if ¬ clock.synced then d
  else
    let d := cacheGet d cause
    let st := stateRecord (d.cache cause) clock.nowS
    { d with
      cache := Function.update d.cache cause st
      flash := rebootBudgetSave d.flash cause st }

/-! ## The boot-fail count -/

/-- `bb_system_boot_count_increment`: the count saturates at the largest u8. -/
def bootCountIncrement (d : Device) : Device :=
  let val := d.flash.bootCnt
  { d with flash := { d.flash with bootCnt := if val < 255 then val + 1 else val } }

/-- `bb_system_boot_count_reset`. -/
def bootCountReset (d : Device) : Device :=
  { d with flash := { d.flash with bootCnt := 0 } }

/-- `bb_system_boot_fail_count_over`. -/
def bootFailCountOver (count threshold : Nat) : Bool :=
  threshold ≤ count

/-! ## The facade -/

/-- `bb_system_safeguard_reboot_should_increment`. -/
def safeguardRebootShouldIncrement (otaValidated synced : Bool) : Bool :=
  !(synced && otaValidated)

/-- `bb_system_safeguard_reboot_allowed_at`. -/
def safeguardRebootAllowedAt (cfg : Config) (d : Device) (cause : Cause) (clock : Clock) :
    Bool × Device :=
  if clock.synced then rebootBudgetAllowsAt cfg d cause clock
  else (!bootFailCountOver d.flash.bootCnt cfg.bootFailThreshold, d)

/--
`bb_system_safeguard_reboot_account`.  The platform's `bb_system_reboot_budget_record`
resolves the clock itself, so its reading is separate from `synced`.
-/
def safeguardRebootAccount (d : Device) (cause : Cause) (otaValidated synced : Bool)
    (clock : Clock) : Device :=
  let d := if safeguardRebootShouldIncrement otaValidated synced then bootCountIncrement d else d
  rebootBudgetRecordAt d cause clock

/-! ## Boots -/

/-- One attempt of a cause, with the clock readings it takes. -/
structure Attempt where
  cause : Cause
  ask : Clock
  otaValidated : Bool
  accountSynced : Bool
  record : Clock
  deriving DecidableEq, Repr

/-- What happens to the device. -/
inductive Event where
  /-- A cause asks and, when allowed, accounts and restarts. -/
  | attempt (a : Attempt)
  /-- A restart for any other reason. -/
  | restart
  /-- A successful connect or OTA validation clears the boot-fail count. -/
  | bootCountReset
  deriving DecidableEq, Repr

/-- One event. -/
def step (cfg : Config) (d : Device) : Event → Device
  | .attempt a =>
    let asked := safeguardRebootAllowedAt cfg d a.cause a.ask
    if asked.1 then
      Device.boot
        (safeguardRebootAccount asked.2 a.cause a.otaValidated a.accountSynced a.record).flash
    else asked.2
  | .restart => Device.boot d.flash
  | .bootCountReset => bootCountReset d

/-- The safeguard reboot an event makes, if any. -/
def granted (cfg : Config) (d : Device) : Event → List Attempt
  | .attempt a => if (safeguardRebootAllowedAt cfg d a.cause a.ask).1 then [a] else []
  | _ => []

/-- The safeguard reboots of a run, in order. -/
def reboots (cfg : Config) (d : Device) (events : List Event) : List Attempt :=
  outputs (step cfg) (granted cfg) d events

/-- A clock reading counts while it is synced. -/
def Clock.reading (clock : Clock) : List UInt32 :=
  if clock.synced then [clock.nowS] else []

/-- The synced epoch readings an event takes; a refused attempt records nothing. -/
def eventReadings (cfg : Config) (d : Device) : Event → List UInt32
  | .attempt a =>
    a.ask.reading ++
      if (safeguardRebootAllowedAt cfg d a.cause a.ask).1 then a.record.reading else []
  | _ => []

/-- The synced epoch readings of a run, in order. -/
def readings (cfg : Config) (d : Device) (events : List Event) : List UInt32 :=
  outputs (step cfg) (eventReadings cfg) d events

/-- The stamp a reboot recorded in the budget of `cause`. -/
def recordedStamp (cause : Cause) (a : Attempt) : Option UInt32 :=
  if a.cause = cause ∧ a.record.synced then some a.record.nowS else none

/-- The stamps recorded for `cause` during a run. -/
def ownStamps (cfg : Config) (cause : Cause) (d : Device) (events : List Event) : List UInt32 :=
  (reboots cfg d events).filterMap (recordedStamp cause)

/-! ## Storage round trip -/

theorem causeKey_injective {c c' : Cause} (h : causeKey c = causeKey c') : c = c' := by
  cases c <;> cases c' <;> first | rfl | exact absurd h (by decide)

theorem ne_zero_of_isDigit {b : UInt8} (h : Decimal.isDigit b = true) : b ≠ 0 := by
  intro hzero
  rw [hzero] at h
  exact absurd h (by decide)

theorem ne_zero_of_mem_stampsText {sep b : UInt8} {l : List UInt32} (hsep : sep ≠ 0)
    (hb : b ∈ stampsText sep l) : b ≠ 0 := by
  induction l generalizing sep with
  | nil => cases hb
  | cons ts rest ih =>
    rcases List.mem_append.mp hb with hpiece | hrest
    · rcases List.mem_cons.mp hpiece with heq | hdigit
      · rw [heq]
        exact hsep
      · exact ne_zero_of_isDigit (Decimal.isDigit_of_mem_decimal hdigit)
    · exact ih (by decide) hrest

theorem ne_zero_of_mem_stateText {st : BudgetState} {b : UInt8} (hb : b ∈ stateText st) :
    b ≠ 0 := by
  have hdigit : ∀ n, b ∈ Decimal.decimal n → b ≠ 0 := fun n hmem =>
    ne_zero_of_isDigit (Decimal.isDigit_of_mem_decimal hmem)
  have hbar : bar ≠ 0 := by decide
  simp only [stateText, headerText, List.mem_append, List.mem_cons] at hb
  have hsep : b = bar → b ≠ 0 := fun heq => heq ▸ hbar
  rcases hb with hheader | hstamps
  · rcases hheader with (hlast | hsep₁ | hhead) | hsep₂ | hcount
    · exact hdigit _ hlast
    · exact hsep hsep₁
    · exact hdigit _ hhead
    · exact hsep hsep₂
    · exact hdigit _ hcount
  · exact ne_zero_of_mem_stampsText hbar hstamps

/-- The terminated text of a state reads back as that text. -/
theorem cString_stateText {st : BudgetState} (hfit : (stateText st).length < stateStrMax) :
    cString (stateText st ++ [0]) = stateText st := by
  have hle : (stateText st).length ≤ stateStrMax - 1 := by omega
  have hnonzero : ∀ b ∈ stateText st, decide (b ≠ 0) = true := by
    intro b hb
    exact decide_eq_true (ne_zero_of_mem_stateText hb)
  rw [cString, List.take_append, List.take_of_length_le hle,
    List.takeWhile_append_of_pos hnonzero]
  cases (stateStrMax - 1 - (stateText st).length) <;> simp

/-- What was saved is loaded back. -/
theorem rebootBudgetLoad_save_self (flash : Flash) (c : Cause) {st : BudgetState}
    (hcount : st.ringCount ≤ capMax) :
    rebootBudgetLoad (rebootBudgetSave flash c st) c = st := by
  have hfits := stateEncode_fits hcount
  have hlen : ¬ ((stateText st ++ [0]).length = 0 ∨
      stateStrMax < (stateText st ++ [0]).length) := by
    rw [List.length_append, List.length_singleton]
    omega
  simp only [rebootBudgetLoad, rebootBudgetSave, hfits.1, Function.update_self, if_neg hlen]
  rw [cString_stateText hfits.2, stateDecode_stateText hcount]
  rfl

/-- Saving one cause's state leaves the other's text alone. -/
theorem rebootBudgetLoad_save_of_ne (flash : Flash) {c c' : Cause} (hne : c' ≠ c)
    (st : BudgetState) : rebootBudgetLoad (rebootBudgetSave flash c st) c' =
      rebootBudgetLoad flash c' := by
  have hkey : causeKey c' ≠ causeKey c := fun heq => hne (causeKey_injective heq)
  unfold rebootBudgetSave
  split
  · rfl
  · simp only [rebootBudgetLoad, Function.update_of_ne hkey]

theorem bootCnt_rebootBudgetSave (flash : Flash) (c : Cause) (st : BudgetState) :
    (rebootBudgetSave flash c st).bootCnt = flash.bootCnt := by
  unfold rebootBudgetSave
  split <;> rfl

/-! ## The history behind each budget -/

/-- Storage, and where it is loaded the cache, hold the budget of each cause's history. -/
structure Holds (h : Cause → List UInt32) (d : Device) : Prop where
  stored : ∀ c, rebootBudgetLoad d.flash c = recordAll (h c)
  cached : ∀ c, d.loaded c = true → d.cache c = recordAll (h c)

theorem rebootBudgetLoad_congr {f f' : Flash} (h : f.budget = f'.budget) (c : Cause) :
    rebootBudgetLoad f c = rebootBudgetLoad f' c := by
  unfold rebootBudgetLoad
  rw [h]

variable {cfg : Config} {d : Device} {h : Cause → List UInt32}

theorem holds_boot (hold : Holds h d) : Holds h (Device.boot d.flash) :=
  ⟨hold.stored, fun _ hl => (nomatch hl)⟩

theorem holds_of_budget_eq {d' : Device} (hold : Holds h d)
    (hbudget : d'.flash.budget = d.flash.budget) (hcache : d'.cache = d.cache)
    (hloaded : d'.loaded = d.loaded) : Holds h d' := by
  constructor
  · intro c
    rw [rebootBudgetLoad_congr hbudget]
    exact hold.stored c
  · intro c hl
    rw [hcache]
    rw [hloaded] at hl
    exact hold.cached c hl

@[simp] theorem flash_cacheGet (d : Device) (c : Cause) : (cacheGet d c).flash = d.flash := by
  unfold cacheGet
  split <;> rfl

theorem holds_cacheGet (hold : Holds h d) (c : Cause) : Holds h (cacheGet d c) := by
  constructor
  · intro c'
    rw [flash_cacheGet]
    exact hold.stored c'
  · intro c' hl
    unfold cacheGet at hl ⊢
    split
    · rename_i hloaded
      rw [if_pos hloaded] at hl
      exact hold.cached c' hl
    · rename_i hloaded
      rw [if_neg hloaded] at hl
      by_cases heq : c' = c
      · subst heq
        simp only [Function.update_self]
        exact hold.stored c'
      · simp only [Function.update_of_ne heq] at hl ⊢
        exact hold.cached c' hl

/-- After a lookup the cached state is the budget of the cause's history. -/
theorem cache_cacheGet (hold : Holds h d) (c : Cause) :
    (cacheGet d c).cache c = recordAll (h c) := by
  apply (holds_cacheGet hold c).cached c
  unfold cacheGet
  split
  · assumption
  · simp

/-- The budget's answer is the one of the cause's own history. -/
theorem rebootBudgetAllowsAt_fst (hold : Holds h d) (c : Cause) (nowS : UInt32) :
    (rebootBudgetAllowsAt cfg d c ⟨true, nowS⟩).1 =
      shouldAllow nowS cfg.minIntervalS cfg.dailyCap (recordAll (h c)) := by
  simp [rebootBudgetAllowsAt, cache_cacheGet hold]

theorem flash_safeguardRebootAllowedAt (c : Cause) (clock : Clock) :
    (safeguardRebootAllowedAt cfg d c clock).2.flash = d.flash := by
  unfold safeguardRebootAllowedAt rebootBudgetAllowsAt
  split_ifs <;> simp

theorem holds_safeguardRebootAllowedAt (hold : Holds h d) (c : Cause) (clock : Clock) :
    Holds h (safeguardRebootAllowedAt cfg d c clock).2 := by
  unfold safeguardRebootAllowedAt rebootBudgetAllowsAt
  by_cases hs : clock.synced = true
  · simp only [hs, not_true, if_true, if_false]
    exact holds_cacheGet hold c
  · simp only [hs, Bool.false_eq_true, if_false]
    exact hold

theorem holds_bootCountIncrement (hold : Holds h d) : Holds h (bootCountIncrement d) :=
  holds_of_budget_eq hold rfl rfl rfl

/-- The history after a recording: the cause's own one grows by a synced stamp. -/
def extend (h : Cause → List UInt32) (cause : Cause) (clock : Clock) : Cause → List UInt32 :=
  fun c => if c = cause then h c ++ clock.reading else h c

theorem holds_rebootBudgetRecordAt (hold : Holds h d) (c : Cause) (clock : Clock) :
    Holds (extend h c clock) (rebootBudgetRecordAt d c clock) := by
  unfold rebootBudgetRecordAt
  by_cases hs : clock.synced = true
  · have hcount := (wf_stateRecord (wf_recordAll (h c)) clock.nowS).count_le
    have hext : recordAll (extend h c clock c) = stateRecord (recordAll (h c)) clock.nowS := by
      simp [extend, Clock.reading, hs]
    rw [if_neg (by simpa using hs)]
    simp only [cache_cacheGet hold, flash_cacheGet]
    constructor
    · intro c'
      by_cases heq : c' = c
      · subst heq
        rw [hext]
        exact rebootBudgetLoad_save_self d.flash c' hcount
      · rw [extend, if_neg heq, rebootBudgetLoad_save_of_ne d.flash heq]
        exact hold.stored c'
    · intro c' hl
      by_cases heq : c' = c
      · subst heq
        rw [hext]
        exact Function.update_self ..
      · simp only [extend, if_neg heq, Function.update_of_ne heq]
        exact (holds_cacheGet hold c).cached c' hl
  · have hext : extend h c clock = h := by
      funext c'
      simp [extend, Clock.reading, hs]
    rw [if_pos hs, hext]
    exact hold

theorem holds_safeguardRebootAccount (hold : Holds h d) (c : Cause) (otaValidated synced : Bool)
    (clock : Clock) :
    Holds (extend h c clock) (safeguardRebootAccount d c otaValidated synced clock) := by
  unfold safeguardRebootAccount
  apply holds_rebootBudgetRecordAt
  split
  · exact holds_bootCountIncrement hold
  · exact hold

/-- A step appends to each history the stamp it recorded there, and nothing else. -/
theorem holds_step (hold : Holds h d) (e : Event) :
    Holds (fun c => h c ++ (granted cfg d e).filterMap (recordedStamp c)) (step cfg d e) := by
  cases e with
  | attempt a =>
    have hasked : Holds h (safeguardRebootAllowedAt cfg d a.cause a.ask).2 :=
      holds_safeguardRebootAllowedAt hold a.cause a.ask
    by_cases hok : (safeguardRebootAllowedAt cfg d a.cause a.ask).1 = true
    · have hext : (fun c => h c ++ (granted cfg d (.attempt a)).filterMap (recordedStamp c)) =
          extend h a.cause a.record := by
        funext c
        have hgranted : granted cfg d (.attempt a) = [a] := if_pos hok
        rw [hgranted]
        by_cases hc : c = a.cause
        · by_cases hs : a.record.synced = true <;>
            simp [recordedStamp, extend, Clock.reading, hc, hs]
        · have hc' : ¬ a.cause = c := fun heq => hc heq.symm
          simp [recordedStamp, extend, hc, hc']
      rw [hext]
      simp only [step, hok, if_true]
      exact holds_boot (holds_safeguardRebootAccount hasked _ _ _ _)
    · simp only [granted, step, hok, Bool.false_eq_true, if_false, List.filterMap_nil,
        List.append_nil]
      exact hasked
  | restart =>
    simp only [granted, List.filterMap_nil, List.append_nil]
    exact holds_boot hold
  | bootCountReset =>
    simp only [granted, List.filterMap_nil, List.append_nil]
    exact holds_of_budget_eq hold rfl rfl rfl

/-- After a run each cause's budget is the one its own recorded stamps give. -/
theorem holds_run (hold : Holds h d) (events : List Event) :
    Holds (fun c => h c ++ ownStamps cfg c d events) (run (step cfg) d events) := by
  induction events generalizing d h with
  | nil => simpa [ownStamps, reboots] using hold
  | cons e events ih =>
    have hstep := @holds_step cfg d h hold e
    simpa [ownStamps, reboots, List.append_assoc] using ih hstep

end Reboot
end Breadboard
