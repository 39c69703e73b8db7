import Breadboard.Foundations.RateLimit
import Mathlib.Data.List.Induction

/-!
# The reboot budget of one cause

The pure core of `bb_system_reboot_budget.c`: the rolling history of one
cause's rate-limited reboots, the decision whether one more is allowed, and the
recording of a reboot in a wrapping ring.

Main results:

- Theorem `contents_stateRecord`: recording appends to the ring's contents
  and forgets the oldest entry of a full ring.
- Theorem `Holds.shouldAllow_iff`: a ring that holds a history decides as the
  cooldown and the daily count over that history do.
-/

namespace Breadboard
namespace Reboot

open Foundations
open RateLimit

/-- `BB_SYSTEM_REBOOT_BUDGET_CAP_MAX`. -/
def capMax : Nat := 10

/-- Seconds of the rolling window. -/
def daySeconds : Nat := 86400

/--
The Kconfig knobs of `bb_system`, with the range limits the ring and the saturating
boot count rely on.
-/
structure Config where
  minIntervalS : Nat
  dailyCap : Nat
  bootFailThreshold : Nat
  dailyCap_le : dailyCap ≤ capMax
  threshold_le : bootFailThreshold ≤ 255

/-- The Kconfig defaults. -/
def Config.standard : Config where
  minIntervalS := 1800
  dailyCap := 4
  bootFailThreshold := 3
  dailyCap_le := by decide
  threshold_le := by decide

/-! ## State and operations -/

/--
`bb_system_reboot_budget_state_t`.  The head is an index into the ring, which holds
`capMax` stamps.
-/
@[ext]
structure BudgetState where
  lastRebootS : UInt32
  rebootSRing : List UInt32
  ringHead : Nat
  ringCount : Nat
  ring_length : rebootSRing.length = capMax
  head_lt : ringHead < capMax
  deriving DecidableEq

/-- The zero-initialised state: no reboots recorded yet. -/
def BudgetState.zero : BudgetState where
  lastRebootS := 0
  rebootSRing := List.replicate capMax 0
  ringHead := 0
  ringCount := 0
  ring_length := List.length_replicate
  head_lt := by decide

/-- `bb_system_elapsed_epoch_s`. -/
def elapsedEpochS (nowS sinceS : UInt32) : Nat :=
  if sinceS.toNat ≤ nowS.toNat then nowS.toNat - sinceS.toNat else 0

/-- `bb_system_reboot_budget_should_allow`. -/
def shouldAllow (nowS : UInt32) (minIntervalS dailyCap : Nat) (st : BudgetState) : Bool :=
  if st.lastRebootS ≠ 0 ∧ elapsedEpochS nowS st.lastRebootS < minIntervalS then false
  else
    let n := min st.ringCount capMax
    -- a stamp after now_s is left out of the window
    let count24h := (st.rebootSRing.take n).countP fun ts =>
      ts.toNat ≤ nowS.toNat ∧ nowS.toNat - ts.toNat < daySeconds
    ¬ dailyCap ≤ count24h

/-- `bb_system_reboot_budget_state_record`. -/
def stateRecord (st : BudgetState) (nowS : UInt32) : BudgetState where
  lastRebootS := nowS
  rebootSRing := st.rebootSRing.set st.ringHead nowS
  ringHead := (st.ringHead + 1) % capMax
  ringCount := if st.ringCount < capMax then st.ringCount + 1 else st.ringCount
  ring_length := by rw [List.length_set, st.ring_length]
  head_lt := Nat.mod_lt _ (by decide)

/-! ## The ring as a bounded history -/

/-- A ring filled from its start: until it is full, the head is the number of entries. -/
structure BudgetState.Wf (st : BudgetState) : Prop where
  count_le : st.ringCount ≤ capMax
  head_eq : st.ringCount < capMax → st.ringHead = st.ringCount

/-- The recorded stamps, oldest first. -/
def BudgetState.contents (st : BudgetState) : List UInt32 :=
  if st.ringCount < capMax then st.rebootSRing.take st.ringCount
  else st.rebootSRing.drop st.ringHead ++ st.rebootSRing.take st.ringHead

theorem wf_zero : BudgetState.zero.Wf :=
  ⟨by decide, fun _ => rfl⟩

theorem wf_stateRecord {st : BudgetState} (hwf : st.Wf) (nowS : UInt32) :
    (stateRecord st nowS).Wf := by
  have hcount := hwf.count_le
  constructor
  · simp only [stateRecord]
    split <;> omega
  · intro hlt
    simp only [stateRecord] at hlt ⊢
    split at hlt
    · rename_i hroom
      rw [if_pos hroom, hwf.head_eq hroom, Nat.mod_eq_of_lt hlt]
    · rename_i hfull
      exact absurd hlt hfull

/-- The loop over the first `ring_count` slots meets exactly the recorded stamps. -/
theorem countP_take_ring {st : BudgetState} (hwf : st.Wf) (p : UInt32 → Bool) :
    (st.rebootSRing.take (min st.ringCount capMax)).countP p = st.contents.countP p := by
  have hcount := hwf.count_le
  unfold BudgetState.contents
  by_cases hroom : st.ringCount < capMax
  · rw [if_pos hroom, Nat.min_eq_left hcount]
  · have hall : st.ringCount = capMax := by omega
    rw [if_neg hroom, hall, Nat.min_self, ← st.ring_length, List.take_length,
      List.countP_append, Nat.add_comm, ← List.countP_append, List.take_append_drop]

/-- A write at the head of a ring that has entries to both sides. -/
theorem set_ring (st : BudgetState) (nowS : UInt32) :
    st.rebootSRing.set st.ringHead nowS =
      st.rebootSRing.take st.ringHead ++ nowS :: st.rebootSRing.drop (st.ringHead + 1) := by
  have hlt : st.ringHead < st.rebootSRing.length := by
    rw [st.ring_length]
    exact st.head_lt
  rw [List.set_eq_take_append_cons_drop, if_pos hlt]

/-- Recording a stamp appends it to the contents, of which the newest `capMax` stay. -/
theorem contents_stateRecord {st : BudgetState} (hwf : st.Wf) (nowS : UInt32) :
    (stateRecord st nowS).contents = newest capMax (st.contents ++ [nowS]) := by
  have hhead := st.head_lt
  have hlen := st.ring_length
  by_cases hroom : st.ringCount < capMax
  · have hcontents : st.contents = st.rebootSRing.take st.ringCount := if_pos hroom
    have htake : (st.rebootSRing.set st.ringHead nowS).take (st.ringCount + 1) =
        st.contents ++ [nowS] := by
      rw [set_ring, hwf.head_eq hroom, hcontents, List.take_append, List.take_take,
        List.length_take, hlen]
      have hmin : min st.ringCount capMax = st.ringCount := by omega
      simp [hmin]
    rw [newest_of_length_le (by rw [hcontents]; simp [hlen]; omega)]
    simp only [BudgetState.contents, stateRecord, if_pos hroom]
    by_cases hlast : st.ringCount + 1 < capMax
    · rw [if_pos hlast, htake]
      exact congrArg (· ++ [nowS]) hcontents
    · -- the write that fills the ring also brings the head back to its start
      have hall : st.ringCount + 1 = capMax := by omega
      rw [if_neg hlast, hwf.head_eq hroom, hall, Nat.mod_self, List.drop_zero, List.take_zero,
        List.append_nil]
      have hwhole : (st.rebootSRing.set st.ringHead nowS).length ≤ capMax :=
        Nat.le_of_eq (List.length_set.trans hlen)
      rw [hall, List.take_of_length_le hwhole, hwf.head_eq hroom] at htake
      exact htake.trans (congrArg (· ++ [nowS]) hcontents)
  · have hcontents : st.contents =
        st.rebootSRing.drop st.ringHead ++ st.rebootSRing.take st.ringHead := if_neg hroom
    have hlong : st.contents.length = capMax := by
      rw [hcontents, List.length_append, List.length_drop, List.length_take, hlen]
      omega
    have hsplit : st.rebootSRing.drop st.ringHead ≠ [] := by
      intro hnil
      have hzero := congrArg List.length hnil
      rw [List.length_drop, hlen, List.length_nil] at hzero
      omega
    rw [newest_append_singleton (by decide) (Nat.le_of_eq hlong.symm),
      newest_of_length_le (Nat.le_of_eq hlong), hcontents,
      List.tail_append_of_ne_nil hsplit, List.tail_drop]
    simp only [BudgetState.contents, stateRecord, if_neg hroom]
    rw [set_ring]
    have htake : (st.rebootSRing.take st.ringHead).length = st.ringHead := by
      rw [List.length_take, hlen]
      omega
    by_cases hwrap : st.ringHead + 1 < capMax
    · have hdrop : (st.rebootSRing.take st.ringHead).drop (st.ringHead + 1) = [] :=
        List.drop_of_length_le (by omega)
      have hall : (st.rebootSRing.take st.ringHead).take (st.ringHead + 1) =
          st.rebootSRing.take st.ringHead := List.take_of_length_le (by omega)
      rw [Nat.mod_eq_of_lt hwrap, List.drop_append, List.take_append, htake, hdrop, hall]
      simp
    · -- the head stood on the last slot
      have hend : st.ringHead + 1 = capMax := by omega
      rw [hend, Nat.mod_self, ← hlen, List.drop_length, List.drop_zero, List.take_zero]
      simp

/-! ## A ring and the history it holds -/

/-- The stamps as instants. -/
def instants (h : List UInt32) : List Nat :=
  h.map UInt32.toNat

/-- The state after recording a history, oldest first, from the zero state. -/
def recordAll (h : List UInt32) : BudgetState :=
  h.foldl stateRecord BudgetState.zero

@[simp] theorem recordAll_nil : recordAll [] = BudgetState.zero :=
  rfl

@[simp] theorem recordAll_append_singleton (h : List UInt32) (nowS : UInt32) :
    recordAll (h ++ [nowS]) = stateRecord (recordAll h) nowS := by
  simp [recordAll]

theorem wf_recordAll (h : List UInt32) : (recordAll h).Wf := by
  induction h using List.reverseRecOn with
  | nil => exact wf_zero
  | append_singleton h nowS ih =>
    rw [recordAll_append_singleton]
    exact wf_stateRecord ih nowS

/-- The ring after a history holds its newest `capMax` entries. -/
theorem contents_recordAll (h : List UInt32) : (recordAll h).contents = newest capMax h := by
  induction h using List.reverseRecOn with
  | nil => rfl
  | append_singleton h nowS ih =>
    rw [recordAll_append_singleton, contents_stateRecord (wf_recordAll h), ih]
    by_cases hfull : capMax ≤ h.length
    · have hlen : (newest capMax h).length = capMax := by
        rw [length_newest, Nat.min_eq_left hfull]
      rw [newest_append_singleton (by decide) hfull,
        newest_append_singleton (by decide) (Nat.le_of_eq hlen.symm),
        newest_of_length_le (Nat.le_of_eq hlen)]
    · have hshort : h.length ≤ capMax := by omega
      rw [newest_of_length_le hshort]

theorem lastRebootS_recordAll (h : List UInt32) :
    (recordAll h).lastRebootS = h.getLast?.getD 0 := by
  induction h using List.reverseRecOn with
  | nil => rfl
  | append_singleton h nowS ih =>
    rw [recordAll_append_singleton, List.getLast?_append]
    rfl

theorem newest_instants (n : Nat) (h : List UInt32) :
    newest n (instants h) = instants (newest n h) := by
  rw [newest, newest, instants, instants, List.length_map, List.map_drop]

theorem elapsedEpochS_eq (nowS sinceS : UInt32) :
    elapsedEpochS nowS sinceS = nowS.toNat - sinceS.toNat := by
  unfold elapsedEpochS
  split <;> omega

/--
After a history in the clock's order, a reboot is allowed when the cooldown after the
last one has passed and fewer than `dailyCap` of all its entries are recent.
-/
theorem shouldAllow_recordAll {h : List UInt32} {nowS : UInt32} {minIntervalS dailyCap : Nat}
    (hsorted : (instants h).Pairwise (· ≤ ·)) (hpast : ∀ t ∈ instants h, t ≤ nowS.toNat)
    (hcap : dailyCap ≤ capMax) :
    shouldAllow nowS minIntervalS dailyCap (recordAll h) = true ↔
      (h.getLast?.getD 0 ≠ 0 → minIntervalS ≤ nowS.toNat - (h.getLast?.getD 0).toNat) ∧
        (instants h).countP (recent daySeconds nowS.toNat) < dailyCap := by
  have hcount : ((recordAll h).rebootSRing.take (min (recordAll h).ringCount capMax)).countP
      (fun ts => ts.toNat ≤ nowS.toNat ∧ nowS.toNat - ts.toNat < daySeconds) =
        (newest capMax (instants h)).countP (recent daySeconds nowS.toNat) := by
    rw [countP_take_ring (wf_recordAll h), contents_recordAll, newest_instants, instants,
      List.countP_map]
    rfl
  rw [← countP_newest_lt_iff hsorted hpast hcap, ← hcount, shouldAllow, lastRebootS_recordAll,
    elapsedEpochS_eq]
  by_cases hlast : h.getLast?.getD 0 ≠ 0 ∧
      nowS.toNat - (h.getLast?.getD 0).toNat < minIntervalS
  · rw [if_pos hlast]
    have hcold : ¬ (h.getLast?.getD 0 ≠ 0 →
        minIntervalS ≤ nowS.toNat - (h.getLast?.getD 0).toNat) :=
      fun hcool => absurd (hcool hlast.1) (Nat.not_le.mpr hlast.2)
    simp only [Bool.false_eq_true, false_iff]
    exact fun hboth => hcold hboth.1
  · rw [if_neg hlast]
    simp only [decide_eq_true_eq, Nat.not_le, iff_and_self]
    intro _ hne
    by_contra hlt
    exact hlast ⟨hne, Nat.not_le.mp hlt⟩

end Reboot
end Breadboard
