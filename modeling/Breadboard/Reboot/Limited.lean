import Breadboard.Reboot.Safeguard

/-!
# Safeguard reboots are rate limited

What the two throttles guarantee over whole lifetimes of a device: any sequence
of attempts, other restarts and boot-count resets, from erased storage, with the
sync flag and the validation flag changing at will.

A reboot is a synced one when the attempt found the clock synced both when it
asked and when it recorded, and an unsynced one when it found it unsynced both
when it asked and when it accounted.

Main result:

- Theorem `safeguard_reboots_rate_limited`: spacing and daily cap of the synced
  reboots of a cause, the bound on unsynced ones, and that each cause's budget is
  a function of its own recorded reboots.
-/

namespace Breadboard
namespace Reboot

open Foundations
open RateLimit

/-! ## The reboots of a run -/

/-- The stamp of a synced reboot of `cause`. -/
def syncedStamp (cause : Cause) (a : Attempt) : Option UInt32 :=
  if a.cause = cause ∧ a.ask.synced ∧ a.record.synced then some a.record.nowS else none

/-- The stamps of the synced reboots of `cause` during a run. -/
def syncedStamps (cfg : Config) (cause : Cause) (d : Device) (events : List Event) :
    List UInt32 :=
  (reboots cfg d events).filterMap (syncedStamp cause)

/-- A reboot that was allowed and accounted without a synced clock. -/
def Attempt.unsynced (a : Attempt) : Bool :=
  !a.ask.synced && !a.accountSynced

/-- A device with erased budgets, right after a boot. -/
def erased (bootCnt : Nat) : Device :=
  Device.boot { budget := fun _ => none, bootCnt := bootCnt }

variable {cfg : Config} {d : Device}

theorem holds_erased (bootCnt : Nat) : Holds (fun _ => []) (erased bootCnt) :=
  ⟨fun _ => rfl, fun _ hl => (nomatch hl)⟩

/-- Every recorded stamp is a clock reading of the run, in the same order. -/
theorem ownStamps_sublist_readings (c : Cause) (d : Device) (events : List Event) :
    (ownStamps cfg c d events).Sublist (readings cfg d events) := by
  rw [ownStamps, reboots, filterMap_outputs]
  apply outputs_sublist
  intro d e
  cases e with
  | attempt a =>
    by_cases hok : (safeguardRebootAllowedAt cfg d a.cause a.ask).1 = true
    · simp only [granted, eventReadings, hok, if_true]
      apply List.Sublist.trans _ (List.sublist_append_right _ _)
      by_cases hrec : a.cause = c ∧ a.record.synced = true
      · simp [recordedStamp, Clock.reading, hrec.1, hrec.2]
      · simp [recordedStamp, hrec]
    · simp [granted, hok]
  | restart => exact List.Sublist.refl _
  | bootCountReset => exact List.Sublist.refl _

/-- The synced reboots are among the recorded ones. -/
theorem syncedStamps_sublist_ownStamps (c : Cause) (d : Device) (events : List Event) :
    (syncedStamps cfg c d events).Sublist (ownStamps cfg c d events) := by
  rw [syncedStamps, ownStamps, reboots, filterMap_outputs, filterMap_outputs]
  apply outputs_sublist
  intro d e
  cases e with
  | attempt a =>
    by_cases hok : (safeguardRebootAllowedAt cfg d a.cause a.ask).1 = true
    · simp only [granted, hok, if_true, List.filterMap_cons, List.filterMap_nil]
      by_cases hall : a.cause = c ∧ a.ask.synced = true ∧ a.record.synced = true
      · have hsynced : syncedStamp c a = some a.record.nowS := if_pos hall
        have hrecorded : recordedStamp c a = some a.record.nowS := if_pos ⟨hall.1, hall.2.2⟩
        simp [hsynced, hrecorded]
      · rw [syncedStamp, if_neg hall]
        exact List.nil_sublist _
    · simp [granted, hok]
  | restart => exact List.Sublist.refl _
  | bootCountReset => exact List.Sublist.refl _

/-! ## The synced throttle -/

/-- What the budget checked before a synced reboot, in terms of the cause's history. -/
structure Checked (cfg : Config) (h : List Nat) (ask now : Nat) : Prop where
  past : ∀ t ∈ h, t ≤ ask
  ask_le : ask ≤ now
  cooldown : ∀ t ∈ h, t ≠ 0 → t + cfg.minIntervalS ≤ ask
  room : h.countP (recent daySeconds ask) < cfg.dailyCap

/-- In a sorted history the last entry is the largest. -/
theorem le_getLast_of_mem {h : List UInt32} (hsorted : (instants h).Pairwise (· ≤ ·))
    {t : Nat} (ht : t ∈ instants h) : t ≤ (h.getLast?.getD 0).toNat := by
  induction h using List.reverseRecOn with
  | nil => cases ht
  | append_singleton h last _ =>
    simp only [instants, List.map_append, List.map_cons, List.map_nil] at hsorted ht
    rw [List.getLast?_append]
    rcases List.mem_append.mp ht with hold | hnew
    · exact (List.pairwise_append.mp hsorted).2.2 t hold _ (List.mem_singleton.mpr rfl)
    · exact Nat.le_of_eq (List.mem_singleton.mp hnew)

/-- A budget that allows a reboot has checked it against the whole history. -/
theorem checked_of_shouldAllow {h : List UInt32} {ask now : UInt32}
    (hsorted : (instants h).Pairwise (· ≤ ·)) (hpast : ∀ t ∈ instants h, t ≤ ask.toNat)
    (hask : ask.toNat ≤ now.toNat)
    (hok : shouldAllow ask cfg.minIntervalS cfg.dailyCap (recordAll h) = true) :
    Checked cfg (instants h) ask.toNat now.toNat := by
  have hcheck := (shouldAllow_recordAll hsorted hpast cfg.dailyCap_le).mp hok
  refine ⟨hpast, hask, ?_, hcheck.2⟩
  intro t ht hne
  have hlast := le_getLast_of_mem hsorted ht
  have hlast_ne : h.getLast?.getD 0 ≠ 0 := by
    intro hzero
    rw [hzero] at hlast
    exact hne (Nat.le_zero.mp hlast)
  have hcool := hcheck.1 hlast_ne
  have hmem : h.getLast?.getD 0 ∈ h := by
    cases hgl : h.getLast? with
    | none =>
      rw [hgl] at hlast_ne
      exact absurd rfl hlast_ne
    | some last => exact List.mem_of_getLast? hgl
  have hlast_past := hpast _ (List.mem_map_of_mem hmem)
  omega

/-- The last step of a run, if it makes a synced reboot of `c`, was checked. -/
theorem checked_of_syncedStamp {events : List Event} {e : Event} {c : Cause} {bootCnt : Nat}
    {stamp : UInt32}
    (hclock : (instants (readings cfg (erased bootCnt) (events ++ [e]))).Pairwise (· ≤ ·))
    (hstamp : (granted cfg (run (step cfg) (erased bootCnt) events) e).filterMap
      (syncedStamp c) = [stamp]) :
    ∃ ask, Checked cfg (instants (ownStamps cfg c (erased bootCnt) events)) ask stamp.toNat := by
  have hhold := @holds_run cfg _ _ (holds_erased bootCnt) events
  have hown := @ownStamps_sublist_readings cfg c (erased bootCnt) events
  simp only [List.nil_append] at hhold
  generalize hd : run (step cfg) (erased bootCnt) events = d at hhold hstamp
  cases e with
  | attempt a =>
    by_cases hok : (safeguardRebootAllowedAt cfg d a.cause a.ask).1 = true
    · simp only [granted, hok, if_true, List.filterMap_cons, List.filterMap_nil, syncedStamp]
        at hstamp
      by_cases hall : a.cause = c ∧ a.ask.synced = true ∧ a.record.synced = true
      · obtain ⟨hcause, hask, hrec⟩ := hall
        simp only [hcause, hask, hrec, and_self, if_true, List.cons.injEq, and_true] at hstamp
        have hreads : readings cfg (erased bootCnt) (events ++ [.attempt a]) =
            readings cfg (erased bootCnt) events ++ [a.ask.nowS, stamp] := by
          simp [readings, hd, eventReadings, hok, Clock.reading, hask, hrec, hstamp]
        rw [hreads, instants, List.map_append] at hclock
        have hparts := List.pairwise_append.mp hclock
        have hsorted : (instants (ownStamps cfg c (erased bootCnt) events)).Pairwise (· ≤ ·) :=
          List.Pairwise.sublist (hown.map _) hparts.1
        have hpast : ∀ t ∈ instants (ownStamps cfg c (erased bootCnt) events),
            t ≤ a.ask.nowS.toNat := by
          intro t ht
          exact hparts.2.2 t ((hown.map _).subset ht) _ (by simp)
        have hle : a.ask.nowS.toNat ≤ stamp.toNat := by
          simpa using hparts.2.1
        have hclockEq : a.ask = ⟨true, a.ask.nowS⟩ := by
          rw [← hask]
        refine ⟨a.ask.nowS.toNat, checked_of_shouldAllow hsorted hpast hle ?_⟩
        rw [← rebootBudgetAllowsAt_fst hhold c a.ask.nowS, ← hclockEq, ← hcause]
        simpa [safeguardRebootAllowedAt, hask] using hok
      · simp [hall] at hstamp
    · simp [granted, hok] at hstamp
  | restart => cases hstamp
  | bootCountReset => cases hstamp

/-- The synced reboots of a longer run are the earlier ones and at most one more. -/
theorem syncedStamps_append_singleton (c : Cause) (events : List Event) (e : Event) :
    syncedStamps cfg c d (events ++ [e]) = syncedStamps cfg c d events ++
      (granted cfg (run (step cfg) d events) e).filterMap (syncedStamp c) := by
  simp [syncedStamps, reboots]

theorem filterMap_granted_cases (d : Device) (e : Event) (c : Cause) :
    (granted cfg d e).filterMap (syncedStamp c) = [] ∨
      ∃ stamp, (granted cfg d e).filterMap (syncedStamp c) = [stamp] := by
  cases e with
  | attempt a =>
    simp only [granted]
    split_ifs
    · simp only [List.filterMap_cons, List.filterMap_nil]
      cases syncedStamp c a with
      | none => exact .inl rfl
      | some stamp => exact .inr ⟨stamp, rfl⟩
    · exact .inl rfl
  | restart => exact .inl rfl
  | bootCountReset => exact .inl rfl

theorem pairwise_readings_before {events : List Event} {e : Event}
    (hclock : (instants (readings cfg d (events ++ [e]))).Pairwise (· ≤ ·)) :
    (instants (readings cfg d events)).Pairwise (· ≤ ·) := by
  refine List.Pairwise.sublist ?_ hclock
  apply List.Sublist.map
  rw [readings, readings, outputs_append]
  exact List.sublist_append_left _ _

/-- Synced reboots of one cause keep the minimum interval. -/
theorem syncedStamps_spaced (c : Cause) (bootCnt : Nat) (events : List Event)
    (hclock : (instants (readings cfg (erased bootCnt) events)).Pairwise (· ≤ ·)) :
    (instants (syncedStamps cfg c (erased bootCnt) events)).Pairwise
      fun t u => t ≠ 0 → t + cfg.minIntervalS ≤ u := by
  induction events using List.reverseRecOn with
  | nil => exact List.Pairwise.nil
  | append_singleton events e ih =>
    have hprev := ih (pairwise_readings_before hclock)
    rw [syncedStamps_append_singleton]
    rcases filterMap_granted_cases (run (step cfg) (erased bootCnt) events) e c with
      hnone | ⟨stamp, hstamp⟩
    · rwa [hnone, List.append_nil]
    · obtain ⟨ask, hchecked⟩ := checked_of_syncedStamp hclock hstamp
      rw [hstamp, instants, List.map_append]
      refine List.pairwise_append.mpr ⟨hprev, List.pairwise_singleton _ _, ?_⟩
      intro t ht u hu hne
      rw [List.map_singleton, List.mem_singleton] at hu
      have hmem := ((syncedStamps_sublist_ownStamps c _ events).map _).subset ht
      have hcool := hchecked.cooldown t hmem hne
      rw [hu]
      exact Nat.le_trans hcool hchecked.ask_le

/-- Synced reboots of one cause keep the daily cap in every window. -/
theorem syncedStamps_windowBound (c : Cause) (bootCnt : Nat) (events : List Event)
    (hclock : (instants (readings cfg (erased bootCnt) events)).Pairwise (· ≤ ·)) :
    WindowBound daySeconds cfg.dailyCap
      (instants (syncedStamps cfg c (erased bootCnt) events)) := by
  induction events using List.reverseRecOn with
  | nil => exact windowBound_nil
  | append_singleton events e ih =>
    have hprev := ih (pairwise_readings_before hclock)
    rw [syncedStamps_append_singleton]
    rcases filterMap_granted_cases (run (step cfg) (erased bootCnt) events) e c with
      hnone | ⟨stamp, hstamp⟩
    · rwa [hnone, List.append_nil]
    · obtain ⟨ask, hchecked⟩ := checked_of_syncedStamp hclock hstamp
      have hsub := (@syncedStamps_sublist_ownStamps cfg c (erased bootCnt) events).map UInt32.toNat
      rw [hstamp, instants, List.map_append]
      apply windowBound_append hprev (fun t ht => hchecked.past t (hsub.subset ht))
        hchecked.ask_le
      exact Nat.lt_of_le_of_lt hsub.countP_le hchecked.room

/-! ## The unsynced throttle -/

theorem bootCnt_rebootBudgetRecordAt (d : Device) (c : Cause) (clock : Clock) :
    (rebootBudgetRecordAt d c clock).flash.bootCnt = d.flash.bootCnt := by
  unfold rebootBudgetRecordAt
  split
  · rfl
  · simp only [bootCnt_rebootBudgetSave, flash_cacheGet]

theorem bootCnt_safeguardRebootAccount (d : Device) (c : Cause) (otaValidated synced : Bool)
    (clock : Clock) :
    d.flash.bootCnt ≤ (safeguardRebootAccount d c otaValidated synced clock).flash.bootCnt ∧
      (synced = false → d.flash.bootCnt < 255 →
        (safeguardRebootAccount d c otaValidated synced clock).flash.bootCnt =
          d.flash.bootCnt + 1) := by
  simp only [safeguardRebootAccount, bootCnt_rebootBudgetRecordAt, bootCountIncrement]
  constructor
  · split
    · simp only
      split <;> omega
    · exact Nat.le_refl _
  · intro hs hlt
    simp [hs, safeguardRebootShouldIncrement, hlt]

/-- A step that is no reset never lowers the count, and an unsynced reboot raises it. -/
theorem bootCnt_step (d : Device) {e : Event} (hreset : e ≠ .bootCountReset) :
    d.flash.bootCnt ≤ (step cfg d e).flash.bootCnt ∧
      (0 < (granted cfg d e).countP Attempt.unsynced →
        d.flash.bootCnt < cfg.bootFailThreshold ∧
          (step cfg d e).flash.bootCnt = d.flash.bootCnt + 1) := by
  cases e with
  | attempt a =>
    have hflash := @flash_safeguardRebootAllowedAt cfg d a.cause a.ask
    by_cases hok : (safeguardRebootAllowedAt cfg d a.cause a.ask).1 = true
    · have hcount := bootCnt_safeguardRebootAccount
        (safeguardRebootAllowedAt cfg d a.cause a.ask).2 a.cause a.otaValidated a.accountSynced
        a.record
      rw [hflash] at hcount
      simp only [step, granted, hok, if_true, Device.boot]
      refine ⟨hcount.1, ?_⟩
      intro hpos
      have hunsynced : a.unsynced = true := by
        by_contra hnot
        simp [hnot] at hpos
      simp only [Attempt.unsynced, Bool.and_eq_true, Bool.not_eq_true'] at hunsynced
      have hbelow : d.flash.bootCnt < cfg.bootFailThreshold := by
        simpa [safeguardRebootAllowedAt, hunsynced.1, bootFailCountOver] using hok
      have hthreshold := cfg.threshold_le
      exact ⟨hbelow, hcount.2 hunsynced.2 (by omega)⟩
    · simp only [step, granted, hok, Bool.false_eq_true, if_false]
      refine ⟨Nat.le_of_eq (congrArg Flash.bootCnt hflash).symm, ?_⟩
      intro hpos
      simp at hpos
  | restart => exact ⟨Nat.le_refl _, fun hpos => absurd hpos (by simp [granted])⟩
  | bootCountReset => exact absurd rfl hreset

theorem length_granted_le (d : Device) (e : Event) : (granted cfg d e).length ≤ 1 := by
  unfold granted
  split
  · split <;> simp
  · simp

/-- Between two resets, unsynced reboots use up the distance of the count to the threshold. -/
theorem unsynced_reboots_le (d : Device) {events : List Event}
    (hreset : Event.bootCountReset ∉ events) :
    (reboots cfg d events).countP Attempt.unsynced ≤
      cfg.bootFailThreshold - d.flash.bootCnt := by
  induction events generalizing d with
  | nil => simp [reboots]
  | cons e events ih =>
    have hhead : e ≠ .bootCountReset := fun heq => hreset (heq ▸ List.mem_cons_self)
    have hrest := ih (step cfg d e) fun hmem => hreset (List.mem_cons_of_mem _ hmem)
    have hcount := @bootCnt_step cfg d e hhead
    have hone := Nat.le_trans (List.countP_le_length (p := Attempt.unsynced))
      (@length_granted_le cfg d e)
    rw [reboots, outputs_cons, List.countP_append]
    rw [reboots] at hrest
    by_cases hpos : 0 < (granted cfg d e).countP Attempt.unsynced
    · have hraised := hcount.2 hpos
      omega
    · have hle := hcount.1
      omega

/-! ## Whole lifetimes -/

/--
Safeguard reboots are rate limited over every run from erased budgets whose synced clock
readings never go back: the synced reboots of a cause are `minIntervalS` apart
unless the earlier one is stamped 0, no `daySeconds` window holds more than
`dailyCap` of them, no stretch without a boot-count reset holds more than
`bootFailThreshold` unsynced ones, and a cause's budget answers as its own recorded
stamps say.
-/
theorem safeguard_reboots_rate_limited (cfg : Config) (bootCnt : Nat) (events : List Event)
    (hclock : (instants (readings cfg (erased bootCnt) events)).Pairwise (· ≤ ·)) :
    (∀ c, (instants (syncedStamps cfg c (erased bootCnt) events)).Pairwise
      fun t u => t ≠ 0 → t + cfg.minIntervalS ≤ u) ∧
    (∀ c, WindowBound daySeconds cfg.dailyCap
      (instants (syncedStamps cfg c (erased bootCnt) events))) ∧
    (∀ pre seg post, events = pre ++ seg ++ post → Event.bootCountReset ∉ seg →
      (reboots cfg (run (step cfg) (erased bootCnt) pre) seg).countP Attempt.unsynced ≤
        cfg.bootFailThreshold) ∧
    (∀ c nowS, (rebootBudgetAllowsAt cfg (run (step cfg) (erased bootCnt) events) c
      ⟨true, nowS⟩).1 = shouldAllow nowS cfg.minIntervalS cfg.dailyCap
        (recordAll (ownStamps cfg c (erased bootCnt) events))) := by
  refine ⟨fun c => syncedStamps_spaced c bootCnt events hclock,
    fun c => syncedStamps_windowBound c bootCnt events hclock, ?_, ?_⟩
  · intro pre seg post _ hreset
    exact Nat.le_trans (unsynced_reboots_le _ hreset) (Nat.sub_le _ _)
  · intro c nowS
    have hhold := @holds_run cfg _ _ (holds_erased bootCnt) events
    simpa using @rebootBudgetAllowsAt_fst cfg _ _ hhold c nowS

/-- An attempt of the WiFi safeguard that finds the clock synced throughout. -/
def syncedAttempt (nowS : UInt32) : Event :=
  .attempt
    { cause := .wifiSafeguard
      ask := ⟨true, nowS⟩
      otaValidated := true
      accountSynced := true
      record := ⟨true, nowS⟩ }

example : syncedStamps Config.standard .wifiSafeguard (erased 0)
    [syncedAttempt 5, syncedAttempt 1804] = [5] := by decide +kernel

/-- A reboot at epoch second 5, a refused attempt and a granted one after the cooldown. -/
theorem safeguard_reboots_rate_limited_run :
    syncedStamps Config.standard .wifiSafeguard (erased 0)
        [syncedAttempt 5, syncedAttempt 6, syncedAttempt 1805] = [5, 1805] ∧
      WindowBound daySeconds Config.standard.dailyCap
        (instants (syncedStamps Config.standard .wifiSafeguard (erased 0)
          [syncedAttempt 5, syncedAttempt 6, syncedAttempt 1805])) :=
  ⟨by decide +kernel, (safeguard_reboots_rate_limited Config.standard 0
    [syncedAttempt 5, syncedAttempt 6, syncedAttempt 1805] (by decide +kernel)).2.1 _⟩

/-- A reboot recorded at epoch second 0 reads as "never": the next one follows at once. -/
theorem cooldown_skipped_at_epoch_zero :
    (instants (readings Config.standard (erased 0)
        [syncedAttempt 0, syncedAttempt 1])).Pairwise (· ≤ ·) ∧
      ¬ (instants (syncedStamps Config.standard .wifiSafeguard (erased 0)
        [syncedAttempt 0, syncedAttempt 1])).Pairwise
          (fun t u => t + Config.standard.minIntervalS ≤ u) := by
  decide +kernel

end Reboot
end Breadboard
