import Breadboard.Foundations.Runs
import Mathlib.Logic.Function.Basic
import Mathlib.Data.Fintype.Basic
import Breadboard.Core.Basics

/-!
# bb_wdt - timeout changes and core claims by several tasks

Every call stores its own change in one lock section: the timeout, or the mask
of claimed cores.  Then it reads the other input and writes both to the hardware
watchdog, outside either lock.  One lock section, one read of the claimed mask
and one `esp_task_wdt_reconfigure` are one step each, and the calls of
different tasks interleave freely.

The platform takes a mask of the cores whose idle task it monitors.  Inside
`bb_wdt` a set bit excuses a core, and `do_reconfigure` turns the masks around.

Main results:

- Theorem `converges_of_last_current`: the watchdog has the stored timeout and
  monitors the unclaimed cores whenever no call is in progress, in the runs in which
  the last call to apply still holds what is stored.
-/

namespace Breadboard
namespace Wdt

open Foundations

/-! ## Core masks -/

/-- A `uint32_t` with one bit for each core. -/
abbrev CoreMask := BitVec 32

/-- `bb_wdt_derive_excused_mask`. -/
def deriveExcusedMask (excusedSeed claimedMask : CoreMask) : CoreMask :=
  excusedSeed ||| claimedMask

/-- `bb_wdt_clamp_core_mask`. -/
def clampCoreMask (mask : CoreMask) (numCores : Int) : CoreMask :=
  if numCores ≤ 0 then 0
  else if 32 ≤ numCores then mask
  else mask &&& ((1#32 <<< numCores.toNat) - 1#32)

/-- `bb_wdt_invert_core_mask`. -/
def invertCoreMask (mask : CoreMask) (numCores : Int) : CoreMask :=
  let full := clampCoreMask (~~~ 0#32) numCores
  full &&& ~~~ mask

/-- What the build fixes: the number of cores and the Kconfig symbols of the task watchdog. -/
structure Board where
  numCores : Nat
  checkIdleTaskCpu0 : Bool
  checkIdleTaskCpu1 : Bool
  taskWdtTimeoutS : BitVec 32
  taskWdtPanic : Bool
  numCores_pos : 0 < numCores
  /-- The second symbol exists only on targets with two cores. -/
  cpu1_exists : checkIdleTaskCpu1 = true → 2 ≤ numCores
  timeoutMs_fits : taskWdtTimeoutS.toNat * 1000 < 2 ^ 32

variable (board : Board)

/-- `kconfig_default_idle_mask`: a set bit means that the core is monitored. -/
def kconfigDefaultIdleMask : CoreMask :=
  (if board.checkIdleTaskCpu0 then 1#32 <<< 0 else 0#32) |||
    (if board.checkIdleTaskCpu1 then 1#32 <<< 1 else 0#32)

/-- The mask that `do_reconfigure` writes for the claimed mask it has read. -/
def monitoredMask (claimedMask : CoreMask) : CoreMask :=
  let excusedSeed := invertCoreMask (kconfigDefaultIdleMask board) board.numCores
  let excused := clampCoreMask (deriveExcusedMask excusedSeed claimedMask) board.numCores
  invertCoreMask excused board.numCores

/-! ## The bits -/

/-- The low bits of a word. -/
theorem lowBits_bit {n : Nat} (hn : n < 32) (i : Nat) :
    ((1#32 <<< n) - 1#32).getLsbD i = decide (i < n) := by
  have hpow : 2 ^ n < 2 ^ 32 := Nat.pow_lt_pow_right (by decide) hn
  have hpos : 0 < 2 ^ n := Nat.two_pow_pos n
  have hval : ((1#32 <<< n) - 1#32).toNat = 2 ^ n - 1 := by
    have hshift : (1#32 <<< n).toNat = 2 ^ n := by
      rw [BitVec.toNat_shiftLeft, Nat.shiftLeft_eq]
      simpa using Nat.mod_eq_of_lt hpow
    rw [BitVec.toNat_sub_of_le (by rw [BitVec.le_def, hshift]; exact hpos), hshift]
    rfl
  rw [BitVec.getLsbD, hval, Nat.testBit_two_pow_sub_one]

/-- Clamping cuts a mask to the cores that exist. -/
theorem clampCoreMask_bit (mask : CoreMask) {n : Nat} (hn : 0 < n) (i : Nat) :
    (clampCoreMask mask n).getLsbD i = (mask.getLsbD i && decide (i < n)) := by
  unfold clampCoreMask
  rw [if_neg (by omega)]
  split
  · rename_i hwide
    by_cases hi : i < 32
    · have hin : i < n := by omega
      simp [hin]
    · have hoff : mask.getLsbD i = false := BitVec.getLsbD_of_ge mask i (by omega)
      simp [hoff]
  · rename_i hnarrow
    rw [BitVec.getLsbD_and, Int.toNat_natCast, lowBits_bit (by omega)]

theorem invertCoreMask_bit (mask : CoreMask) {n : Nat} (hn : 0 < n) {i : Nat} (hi : i < 32) :
    (invertCoreMask mask n).getLsbD i = (decide (i < n) && !mask.getLsbD i) := by
  unfold invertCoreMask
  simp only [BitVec.getLsbD_and, clampCoreMask_bit _ hn, BitVec.getLsbD_not, BitVec.getLsbD_zero]
  simp only [hi, decide_true, Bool.not_false, Bool.true_and]

/-- The default monitors only cores that exist. -/
theorem lt_of_default_bit {i : Nat} (h : (kconfigDefaultIdleMask board).getLsbD i = true) :
    i < board.numCores := by
  have hpos := board.numCores_pos
  unfold kconfigDefaultIdleMask at h
  rw [BitVec.getLsbD_or, Bool.or_eq_true] at h
  rcases h with h | h
  · split at h
    · have hi : i = 0 := by simpa using h
      omega
    · simp at h
  · split at h
    · rename_i hcpu1
      have htwo := board.cpu1_exists hcpu1
      have hi : i = 1 := by
        rw [BitVec.getLsbD_shiftLeft] at h
        simp at h
        omega
      omega
    · simp at h

/-- The written mask has exactly the cores of the default that are not claimed. -/
theorem monitored_bit (claimedMask : CoreMask) {i : Nat} (hi : i < 32) :
    (monitoredMask board claimedMask).getLsbD i =
      ((kconfigDefaultIdleMask board).getLsbD i && !claimedMask.getLsbD i) := by
  have hpos := board.numCores_pos
  unfold monitoredMask deriveExcusedMask
  rw [invertCoreMask_bit _ hpos hi, clampCoreMask_bit _ hpos, BitVec.getLsbD_or,
    invertCoreMask_bit _ hpos hi]
  by_cases hlt : i < board.numCores
  · cases (kconfigDefaultIdleMask board).getLsbD i <;> simp [hlt]
  · have hoff : (kconfigDefaultIdleMask board).getLsbD i = false := by
      cases hbit : (kconfigDefaultIdleMask board).getLsbD i with
      | false => rfl
      | true => exact absurd (lt_of_default_bit board hbit) hlt
    simp [hlt, hoff]

/-! ## The calls -/

/-- `esp_task_wdt_config_t`. -/
structure TaskWdtConfig where
  timeoutMs : BitVec 32
  idleCoreMask : CoreMask
  triggerPanic : Bool
  deriving DecidableEq

/-- The calls that change what the watchdog is configured to. -/
inductive Call where
  | setTimeout (timeoutS : BitVec 32)
  | extendBegin (extendedS : BitVec 32)
  | extendEnd
  | claimCore (core : Int)
  | claimCoreExclusive (core : Int)
  | releaseCore (core : Int)
  deriving DecidableEq

/-- Where a task is in its call. -/
inductive Pc where
  | idle
  /-- `bb_wdt_priv_reapply` is about to read the timeout. -/
  | reapply
  /-- `do_reconfigure` is about to read the claimed mask. -/
  | reconfigure (timeoutS : BitVec 32)
  /-- `do_reconfigure` is about to write the configuration. -/
  | apply (timeoutS : BitVec 32) (claimedMask : CoreMask)
  deriving DecidableEq

/-- The two stored inputs, the watchdog, and the tasks. -/
structure State (τ : Type) where
  lastTimeoutS : BitVec 32
  claimedMask : CoreMask
  hardware : TaskWdtConfig
  pc : τ → Pc

inductive Action (τ : Type) where
  | call (t : τ) (c : Call)
  | advance (t : τ)
  deriving DecidableEq

variable {τ : Type} [DecidableEq τ] (board : Board)

/-- The configuration that `do_reconfigure` builds. -/
def configOf (timeoutS : BitVec 32) (claimedMask : CoreMask) : TaskWdtConfig where
  timeoutMs := timeoutS * 1000#32
  idleCoreMask := monitoredMask board claimedMask
  triggerPanic := board.taskWdtPanic

/-- The state at boot: the platform has set the watchdog up from the same symbols. -/
def State.boot (τ : Type) : State τ where
  lastTimeoutS := board.taskWdtTimeoutS
  claimedMask := 0
  hardware := configOf board board.taskWdtTimeoutS 0
  pc := fun _ => .idle

/-- The task goes on at another point. -/
def State.goto (w : State τ) (t : τ) (pc : Pc) : State τ :=
  { w with pc := Function.update w.pc t pc }

/-- The locked part of `bb_wdt_set_timeout`. -/
def storeTimeout (w : State τ) (t : τ) (timeoutS : BitVec 32) : State τ :=
  { w with lastTimeoutS := timeoutS }.goto t (.reconfigure timeoutS)

/-- `1U << core`. -/
def coreBit (core : Int) : CoreMask :=
  1#32 <<< core.toNat

/-- The locked part of `bb_wdt_claim_core`; another core than 0 and 1 is refused. -/
def claimCore (w : State τ) (t : τ) (core : Int) : State τ :=
  if core ≠ 0 ∧ core ≠ 1 then w
  else { w with claimedMask := w.claimedMask ||| coreBit core }.goto t .reapply

/-- The locked part of `bb_wdt_claim_core_exclusive`. -/
def claimCoreExclusive (w : State τ) (t : τ) (core : Int) : State τ :=
  if core ≠ 0 ∧ core ≠ 1 then w
  else if w.claimedMask &&& coreBit core ≠ 0 then w
  else { w with claimedMask := w.claimedMask ||| coreBit core }.goto t .reapply

/-- The locked part of `bb_wdt_release_core`. -/
def releaseCore (w : State τ) (t : τ) (core : Int) : State τ :=
  if core ≠ 0 ∧ core ≠ 1 then w
  else { w with claimedMask := w.claimedMask &&& ~~~ coreBit core }.goto t .reapply

/-- The first lock section of a call. -/
def enter (w : State τ) (t : τ) : Call → State τ
  | .setTimeout timeoutS => storeTimeout w t timeoutS
  | .extendBegin extendedS => storeTimeout w t extendedS
  | .extendEnd => storeTimeout w t board.taskWdtTimeoutS
  | .claimCore core => claimCore w t core
  | .claimCoreExclusive core => claimCoreExclusive w t core
  | .releaseCore core => releaseCore w t core

/-- One step; a task is in one call at a time. -/
def step (w : State τ) : Action τ → State τ
  | .call t c =>
    match w.pc t with
    | .idle => enter board w t c
    | _ => w
  | .advance t =>
    match w.pc t with
    | .idle => w
    | .reapply => w.goto t (.reconfigure w.lastTimeoutS)
    | .reconfigure timeoutS => w.goto t (.apply timeoutS w.claimedMask)
    | .apply timeoutS claimedMask =>
      { w with hardware := configOf board timeoutS claimedMask }.goto t .idle

omit [DecidableEq τ] in
/-- No call is in progress. -/
def Quiet (w : State τ) : Prop :=
  ∀ t, w.pc t = .idle

omit [DecidableEq τ] in
/-- The watchdog has the stored timeout and monitors the unclaimed cores of the default. -/
def Applied (w : State τ) : Prop :=
  w.hardware.timeoutMs.toNat = w.lastTimeoutS.toNat * 1000 ∧
    ∀ i, i < 32 → w.hardware.idleCoreMask.getLsbD i =
      ((kconfigDefaultIdleMask board).getLsbD i && !w.claimedMask.getLsbD i)

omit [DecidableEq τ] in
/-- Whenever no call is in progress, the watchdog is configured as requested. -/
def Converged (w : State τ) : Prop :=
  Quiet w → Applied board w

omit [DecidableEq τ] in
/-- What a task is about to apply is stored, and its milliseconds fit a word. -/
def Pc.Current (w : State τ) : Pc → Prop
  | .apply timeoutS claimedMask =>
    timeoutS = w.lastTimeoutS ∧ timeoutS.toNat < 4294968 ∧
      ∀ i, i < 32 → (kconfigDefaultIdleMask board).getLsbD i = true →
        claimedMask.getLsbD i = w.claimedMask.getLsbD i
  | _ => True

omit [DecidableEq τ] in
/--
The call that applies while no other is in progress has read the timeout and the claims
that are stored; claims on cores the default does not monitor play no part.
-/
def LastIsCurrent (w : State τ) : Action τ → Prop
  | .call _ _ => True
  | .advance t => (∀ u, u ≠ t → w.pc u = .idle) → (w.pc t).Current board w

omit [DecidableEq τ] in
instance Pc.decidableCurrent (w : State τ) : ∀ pc : Pc, Decidable (pc.Current board w)
  | .apply _ _ => inferInstanceAs (Decidable (_ ∧ _ ∧ ∀ i, i < 32 → _ → _))
  | .idle => isTrue trivial
  | .reapply => isTrue trivial
  | .reconfigure _ => isTrue trivial

instance [Fintype τ] (w : State τ) : DecidablePred (LastIsCurrent board w)
  | .call _ _ => isTrue trivial
  | .advance t => inferInstanceAs (Decidable ((∀ u, u ≠ t → w.pc u = .idle) → _))

instance [Fintype τ] (w : State τ) : Decidable (Quiet w) :=
  inferInstanceAs (Decidable (∀ t, w.pc t = .idle))

omit [DecidableEq τ] in
instance (w : State τ) : Decidable (Applied board w) :=
  inferInstanceAs (Decidable (_ ∧ ∀ i, i < 32 → _))

/-! ## Steps that leave no call in progress -/

theorem goto_not_quiet (w : State τ) (t : τ) {pc : Pc} (hpc : pc ≠ .idle) :
    ¬ Quiet (w.goto t pc) := by
  intro hquiet
  exact hpc (by simpa [State.goto] using hquiet t)

/-- A call that has stored something is in progress. -/
theorem enter_quiet {w : State τ} {t : τ} {c : Call} (h : Quiet (enter board w t c)) :
    enter board w t c = w := by
  cases c with
  | setTimeout timeoutS | extendBegin timeoutS =>
    exact absurd h (goto_not_quiet { w with lastTimeoutS := timeoutS } t (by simp))
  | extendEnd => exact absurd h (goto_not_quiet { w with lastTimeoutS := _ } t (by simp))
  | claimCore core | releaseCore core =>
    simp only [enter, claimCore, releaseCore] at h ⊢
    split at h
    · rename_i hcore
      rw [if_pos hcore]
    · exact absurd h (goto_not_quiet { w with claimedMask := _ } t (by simp))
  | claimCoreExclusive core =>
    simp only [enter, claimCoreExclusive] at h ⊢
    split at h
    · rename_i hcore
      rw [if_pos hcore]
    · rename_i hcore
      rw [if_neg hcore]
      split at h
      · rename_i htaken
        rw [if_pos htaken]
      · exact absurd h (goto_not_quiet { w with claimedMask := _ } t (by simp))

/-- A step that leaves no call in progress changes nothing, or is the last apply. -/
theorem quiet_step {w : State τ} {a : Action τ} (h : Quiet (step board w a)) :
    step board w a = w ∨
      ∃ t timeoutS claimedMask, a = .advance t ∧ w.pc t = .apply timeoutS claimedMask ∧
        ∀ u, u ≠ t → w.pc u = .idle := by
  cases a with
  | call t c =>
    cases hpc : w.pc t with
    | idle =>
      simp only [step, hpc] at h ⊢
      exact Or.inl (enter_quiet board h)
    | reapply | reconfigure | apply => exact Or.inl (by simp only [step, hpc])
  | advance t =>
    cases hpc : w.pc t with
    | idle => exact Or.inl (by simp only [step, hpc])
    | reapply =>
      simp only [step, hpc] at h
      exact absurd h (goto_not_quiet w t (by simp))
    | reconfigure timeoutS =>
      simp only [step, hpc] at h
      exact absurd h (goto_not_quiet w t (by simp))
    | apply timeoutS claimedMask =>
      refine Or.inr ⟨t, timeoutS, claimedMask, rfl, hpc, fun u hu => ?_⟩
      have hidle := h u
      simpa only [step, hpc, State.goto, Function.update_of_ne hu] using hidle

omit [DecidableEq τ] in
/-- A configuration of current values is the requested one. -/
theorem applied_of_current {w : State τ} {timeoutS : BitVec 32} {claimedMask : CoreMask}
    (hconfig : w.hardware = configOf board timeoutS claimedMask)
    (hcurrent : (Pc.apply timeoutS claimedMask).Current board w) : Applied board w := by
  obtain ⟨htimeout, hfits, hclaims⟩ := hcurrent
  constructor
  · have hword : (timeoutS * 1000#32).toNat = timeoutS.toNat * 1000 := by
      rw [BitVec.toNat_mul]
      exact Nat.mod_eq_of_lt (by simp only [BitVec.toNat_ofNat]; omega)
    rw [hconfig, ← htimeout]
    exact hword
  · intro i hi
    rw [hconfig, configOf, monitored_bit board claimedMask hi]
    cases hdefault : (kconfigDefaultIdleMask board).getLsbD i with
    | false => rfl
    | true => rw [hclaims i hi hdefault]

/-- One step keeps the watchdog converged when the last apply is current. -/
theorem converged_step (w : State τ) (a : Action τ) (h : Converged board w)
    (hcurrent : LastIsCurrent board w a) : Converged board (step board w a) := by
  intro hquiet
  rcases quiet_step board hquiet with hsame | ⟨t, timeoutS, claimedMask, rfl, hpc, hothers⟩
  · rw [hsame] at hquiet ⊢
    exact h hquiet
  · have happly := hcurrent hothers
    rw [hpc] at happly
    simp only [step, hpc]
    exact applied_of_current board rfl happly

omit [DecidableEq τ] in
theorem converged_boot : Converged board (State.boot board τ) := by
  intro _
  have hfits := board.timeoutMs_fits
  exact applied_of_current board rfl ⟨rfl, by show board.taskWdtTimeoutS.toNat < _; omega, fun _ _ _ => rfl⟩

/--
In every run in which the call that applies last still holds what is stored, the watchdog is
configured as requested whenever no call is in progress.
-/
theorem converges_of_last_current {as : List (Action τ)}
    (hrun : Along (step board) (LastIsCurrent board) (State.boot board τ) as) :
    ∀ pre, pre <+: as → Converged board (run (step board) (State.boot board τ) pre) := by
  rintro pre ⟨rest, rfl⟩
  exact run_invariant_along (converged_step board) (converged_boot board)
    ((along_append _ _ _ _ _).mp hrun).1

/-- A board with two monitored cores and a timeout of five seconds. -/
def dualCore : Board where
  numCores := 2
  checkIdleTaskCpu0 := true
  checkIdleTaskCpu1 := true
  taskWdtTimeoutS := 5
  taskWdtPanic := false
  numCores_pos := Nat.two_pos
  cpu1_exists := by decide
  timeoutMs_fits := by decide

/-- One call after the other: a longer timeout, then a claim. -/
def inTurn : List (Action Bool) :=
  [.call false (.setTimeout 60), .advance false, .advance false,
    .call true (.claimCore 1), .advance true, .advance true, .advance true]

/--
The timeout change of the first task reads the claims before the second task claims core 1,
and applies after it.
-/
def staleApply : List (Action Bool) :=
  [.call false (.setTimeout 60), .advance false,
    .call true (.claimCore 1), .advance true, .advance true, .advance true, .advance false]

theorem converges_of_last_current_inTurn :
    Along (step dualCore) (LastIsCurrent dualCore) (State.boot dualCore Bool) inTurn ∧
      ∀ pre, pre <+: inTurn →
        Converged dualCore (run (step dualCore) (State.boot dualCore Bool) pre) := by
  have hrun : Along (step dualCore) (LastIsCurrent dualCore) (State.boot dualCore Bool) inTurn := by
    decide +kernel
  exact ⟨hrun, converges_of_last_current dualCore hrun⟩

theorem staleApply_not_converged :
    ¬ ∀ as : List (Action Bool),
      Converged dualCore (run (step dualCore) (State.boot dualCore Bool) as) := by
  intro hall
  have hquiet : Quiet (run (step dualCore) (State.boot dualCore Bool) staleApply) := by
    decide +kernel
  have hnot : ¬ Applied dualCore (run (step dualCore) (State.boot dualCore Bool) staleApply) := by
    decide +kernel
  exact hnot (hall staleApply hquiet)

end Wdt
end Breadboard
