import Mathlib.Algebra.Group.Nat.Defs
import Breadboard.Foundations.RateLimit
import Breadboard.Foundations.Runs

/-!
# bb_power_health - the core voltage watchdog

One call looks at one reading of the rail and answers what the caller should do.
Recoveries are counted in a window that opens with the first of them, so two windows
in a row can meet inside any one window's length: what the counter promises there is
one less than twice the burst limit.  A long enough healthy streak and an explicit
clear of the fault latch forget the recoveries before them.

Main results:

- Theorem `eval_cases`: what one call does to the burst counter.
- Theorem `recoveries_bounded`: the bound on recoveries over every run.
-/

namespace Breadboard
namespace PowerHealth

open Foundations RateLimit

/-! ## The evaluator -/

/-- The thresholds of the component's Kconfig. -/
structure Kconfig where
  warmupMs : UInt64
  okMv : Int
  collapseMv : Int
  collapsePolls : Nat
  healthyResetMs : UInt64
  burstMax : Nat
  windowMs : UInt64

/-- The fallbacks of `bb_power_health.h`. -/
def Kconfig.default : Kconfig where
  warmupMs := 60000
  okMv := 800
  collapseMv := 500
  collapsePolls := 3
  healthyResetMs := 300000
  burstMax := 3
  windowMs := 600000

/-- `bb_vcore_wd_action_t`. -/
inductive Action where
  | none
  | recover
  | backoff
  | faultHold
  deriving Repr, DecidableEq

/-- `bb_vcore_wd_input_t`. -/
structure Input where
  vcoreMv : Int
  railEnabled : Bool
  uptimeMs : UInt64
  ocFault : Bool

/-- `bb_vcore_wd_state_t`; all zero at first. -/
structure State where
  consecLow : Nat := 0
  burstCount : Nat := 0
  burstWindowStartMs : UInt64 := 0
  healthySinceMs : UInt64 := 0
  inHealthyStreak : Bool := false
  faultHeld : Bool := false

variable (cfg : Kconfig)

/-- The healthy streak has lasted long enough to reset the burst state. -/
def healthyLongEnough (st : State) (rail : Input) : Bool :=
  st.inHealthyStreak && cfg.healthyResetMs ≤ rail.uptimeMs - st.healthySinceMs

/-- The healthy path of `bb_vcore_wd_eval`. -/
def evalHealthy (st : State) (rail : Input) : State :=
  if !st.inHealthyStreak then
    { st with consecLow := 0, inHealthyStreak := true, healthySinceMs := rail.uptimeMs }
  else if healthyLongEnough cfg st rail then
    { st with
      consecLow := 0
      burstCount := 0
      burstWindowStartMs := 0
      healthySinceMs := rail.uptimeMs }
  else { st with consecLow := 0 }

/-- The burst window is over. -/
def windowExpired (st : State) (rail : Input) : Bool :=
  0 < st.burstCount && cfg.windowMs < rail.uptimeMs - st.burstWindowStartMs

/-- A confirmed collapse without an over-current fault. -/
def evalRecoverable (st : State) (rail : Input) : State × Action :=
  let st :=
    if windowExpired cfg st rail then { st with burstCount := 0, burstWindowStartMs := 0 } else st
  if st.burstCount < cfg.burstMax then
    ({ st with
        burstWindowStartMs := if st.burstCount = 0 then rail.uptimeMs else st.burstWindowStartMs
        burstCount := st.burstCount + 1
        consecLow := 0 }, .recover)
  else (st, .backoff)

/-- `bb_vcore_wd_eval`. -/
def eval (st : State) (rail : Input) : State × Action :=
  if st.faultHeld then (st, .faultHold)
  else if rail.uptimeMs < cfg.warmupMs then (st, .none)
  else if cfg.okMv ≤ rail.vcoreMv then (evalHealthy cfg st rail, .none)
  else
    let st := { st with inHealthyStreak := false, healthySinceMs := 0 }
    if !rail.railEnabled then (st, .none)
    else if rail.vcoreMv < cfg.collapseMv then
      let st := { st with consecLow := st.consecLow + 1 }
      if st.consecLow < cfg.collapsePolls then (st, .none)
      else if rail.ocFault then ({ st with faultHeld := true }, .faultHold)
      else evalRecoverable cfg st rail
    else ({ st with consecLow := 0 }, .none)

/-- `bb_vcore_wd_clear_hold`. -/
def clearHold (st : State) : State :=
  { st with
    faultHeld := false
    consecLow := 0
    inHealthyStreak := false
    healthySinceMs := 0
    burstCount := 0
    burstWindowStartMs := 0 }

/-- The call resets the burst state for a long healthy streak. -/
def forgives (st : State) (rail : Input) : Bool :=
  !st.faultHeld && !(rail.uptimeMs < cfg.warmupMs) && cfg.okMv ≤ rail.vcoreMv &&
    healthyLongEnough cfg st rail

/-- What one call does to the burst counter, and what it answers. -/
inductive Bursts (st : State) (rail : Input) : State × Action → Prop where
  | kept {st' : State} {act : Action} (hact : act ≠ .recover) (hnot : forgives cfg st rail = false)
      (hcount : st'.burstCount = st.burstCount)
      (hstart : st'.burstWindowStartMs = st.burstWindowStartMs) : Bursts st rail (st', act)
  | forgiven {st' : State} {act : Action} (hact : act ≠ .recover)
      (hforgives : forgives cfg st rail = true) (hcount : st'.burstCount = 0) :
      Bursts st rail (st', act)
  | opened {st' : State} (hidle : st.burstCount = 0 ∨ windowExpired cfg st rail = true)
      (hmax : 0 < cfg.burstMax) (hcount : st'.burstCount = 1)
      (hstart : st'.burstWindowStartMs = rail.uptimeMs) : Bursts st rail (st', .recover)
  | continued {st' : State} (hpos : 0 < st.burstCount) (hmax : st.burstCount < cfg.burstMax)
      (hcount : st'.burstCount = st.burstCount + 1)
      (hstart : st'.burstWindowStartMs = st.burstWindowStartMs) : Bursts st rail (st', .recover)

variable {cfg} {st : State} {rail : Input}

theorem evalRecoverable_cases (hmax : st.burstCount ≤ cfg.burstMax)
    (hnot : forgives cfg st rail = false) {low : State} (hcount : low.burstCount = st.burstCount)
    (hstart : low.burstWindowStartMs = st.burstWindowStartMs) :
    Bursts cfg st rail (evalRecoverable cfg low rail) := by
  have hexpired : windowExpired cfg low rail = windowExpired cfg st rail := by
    rw [windowExpired, windowExpired, hcount, hstart]
  unfold evalRecoverable
  rw [hexpired]
  by_cases hover : windowExpired cfg st rail = true
  · have hpos : 0 < st.burstCount := by simp_all [windowExpired]
    have hroom : 0 < cfg.burstMax := Nat.lt_of_lt_of_le hpos hmax
    simp only [hover, if_true, hroom]
    exact .opened (.inr hover) hroom rfl rfl
  · simp only [hover, Bool.false_eq_true, if_false, hcount]
    split
    · by_cases hzero : st.burstCount = 0
      · exact .opened (.inl hzero) (by omega) (by simp [hzero]) (by simp [hzero])
      · exact .continued (Nat.pos_of_ne_zero hzero) ‹_› rfl (by simp [hzero, hstart])
    · exact .kept (by simp) hnot hcount hstart

theorem eval_cases (rail : Input) (hmax : st.burstCount ≤ cfg.burstMax) :
    Bursts cfg st rail (eval cfg st rail) := by
  unfold eval
  split
  · exact .kept (by simp) (by simp [forgives, *]) rfl rfl
  split
  · exact .kept (by simp) (by simp [forgives, *]) rfl rfl
  split
  · rename_i hheld hwarm hok
    have hforgives : forgives cfg st rail = healthyLongEnough cfg st rail := by
      simp [forgives, hheld, hwarm, hok]
    unfold evalHealthy
    split
    · exact .kept (by simp) (by simp_all [healthyLongEnough]) rfl rfl
    split
    · exact .forgiven (by simp) (by rwa [hforgives]) rfl
    · exact .kept (by simp) (by simp_all) rfl rfl
  · rename_i hlow
    have hnot : forgives cfg st rail = false := by simp [forgives, hlow]
    dsimp only
    split
    · exact .kept (by simp) hnot rfl rfl
    split
    · split
      · exact .kept (by simp) hnot rfl rfl
      split
      · exact .kept (by simp) hnot rfl rfl
      · exact evalRecoverable_cases hmax hnot rfl rfl
    · exact .kept (by simp) hnot rfl rfl

/-! ## Runs -/

/-- What the caller does. -/
inductive Op where
  | poll (rail : Input)
  | clear

/--
The watchdog with its history.  Proof-only: `now`, the uptime of the last reading, and
`recoveries`, the uptimes of the recoveries since the last reset of the burst state.
-/
structure Watched where
  st : State
  now : Nat
  recoveries : List Nat

/-- The state after boot. -/
def Watched.init : Watched :=
  ⟨{}, 0, []⟩

/-- One call. -/
def Watched.step (cfg : Kconfig) (w : Watched) : Op → Watched
  | .poll rail =>
    { st := (eval cfg w.st rail).1
      now := rail.uptimeMs.toNat
      recoveries :=
        if (eval cfg w.st rail).2 = .recover then w.recoveries ++ [rail.uptimeMs.toNat]
        else if forgives cfg w.st rail then []
        else w.recoveries }
  | .clear => { w with st := clearHold w.st, recoveries := [] }

/-- The uptime does not run backwards. -/
def Forward (w : Watched) : Op → Prop
  | .poll rail => w.now ≤ rail.uptimeMs.toNat
  | .clear => True

instance (w : Watched) : ∀ op, Decidable (Forward w op)
  | .poll rail => inferInstanceAs (Decidable (w.now ≤ rail.uptimeMs.toNat))
  | .clear => inferInstanceAs (Decidable True)

/-- The length of a window, its ends included. -/
def Kconfig.span (cfg : Kconfig) : Nat :=
  cfg.windowMs.toNat + 1

/-- The recoveries of the open window and, before it, those that can still be recent. -/
structure Window (cfg : Kconfig) (w : Watched) (old rest : List Nat) : Prop where
  split : w.recoveries = old ++ w.st.burstWindowStartMs.toNat :: rest
  count : w.st.burstCount = rest.length + 1
  old_le : ∀ t ∈ old, t ≤ w.st.burstWindowStartMs.toNat
  few : old.countP (recent cfg.span w.st.burstWindowStartMs.toNat) < cfg.burstMax

structure Inv (cfg : Kconfig) (w : Watched) : Prop where
  count_le : w.st.burstCount ≤ cfg.burstMax
  past : ∀ t ∈ w.recoveries, t ≤ w.now
  bound : WindowBound cfg.span (2 * cfg.burstMax - 1) w.recoveries
  idle : w.st.burstCount = 0 → w.recoveries = []
  window : 0 < w.st.burstCount → ∃ old rest, Window cfg w old rest

variable {w : Watched}

/-- When the window is over, what it counted is recent no more, apart from less than a burst. -/
theorem Inv.recent_of_idle (h : Inv cfg w) (hforward : w.now ≤ rail.uptimeMs.toNat)
    (hidle : w.st.burstCount = 0 ∨ windowExpired cfg w.st rail = true) (hmax : 0 < cfg.burstMax) :
    w.recoveries.countP (recent cfg.span rail.uptimeMs.toNat) < cfg.burstMax := by
  rcases hidle with hzero | hexpired
  · rw [h.idle hzero]
    exact hmax
  · simp only [windowExpired, Bool.and_eq_true, decide_eq_true_eq] at hexpired
    obtain ⟨hpos, hlong⟩ := hexpired
    obtain ⟨old, rest, hsplit, hcount, hold, -⟩ := h.window hpos
    have hstart : w.st.burstWindowStartMs.toNat ≤ w.now := h.past _ (by simp [hsplit])
    have hspan : cfg.span ≤ rail.uptimeMs.toNat - w.st.burstWindowStartMs.toNat := by
      rw [UInt64.lt_iff_toNat_lt, UInt64.toNat_sub_of_le _ _
        (UInt64.le_iff_toNat_le.mpr (Nat.le_trans hstart hforward))] at hlong
      exact hlong
    have hgone : old.countP (recent cfg.span rail.uptimeMs.toNat) = 0 := by
      refine List.countP_eq_zero.mpr fun s hs => ?_
      have := hold s hs
      simp only [recent, decide_eq_true_eq, not_and, Nat.not_lt]
      omega
    have hfirst : recent cfg.span rail.uptimeMs.toNat w.st.burstWindowStartMs.toNat = false := by
      simp only [recent, decide_eq_false_iff_not, not_and, Nat.not_lt]
      omega
    rw [hsplit, List.countP_append, hgone, List.countP_cons, hfirst]
    have hrest : rest.countP (recent cfg.span rail.uptimeMs.toNat) ≤ rest.length :=
      List.countP_le_length
    have := h.count_le
    simp only [Bool.false_eq_true, if_false]
    omega

/-- Inside the window: what was recent when it opened, and what it has counted. -/
theorem Window.recent_of_continued {old rest : List Nat} (h : Window cfg w old rest)
    (hroom : w.st.burstCount < cfg.burstMax) {now : Nat}
    (hnow : w.st.burstWindowStartMs.toNat ≤ now) :
    w.recoveries.countP (recent cfg.span now) < 2 * cfg.burstMax - 1 := by
  have hold : old.countP (recent cfg.span now) ≤
      old.countP (recent cfg.span w.st.burstWindowStartMs.toNat) := by
    refine List.countP_mono_left fun s hs hrecent => ?_
    have := h.old_le s hs
    simp only [recent, decide_eq_true_eq] at hrecent ⊢
    omega
  have hwindow : (w.st.burstWindowStartMs.toNat :: rest).countP (recent cfg.span now) ≤
      rest.length + 1 := List.countP_le_length
  have hrecent := h.few
  have hcount := h.count
  rw [h.split, List.countP_append]
  omega

theorem inv_step (h : Inv cfg w) {op : Op} (hforward : Forward w op) :
    Inv cfg (w.step cfg op) := by
  cases op with
  | clear =>
    exact
      { count_le := Nat.zero_le _
        past := by simp [Watched.step]
        bound := windowBound_nil
        idle := fun _ => rfl
        window := fun hpos => absurd hpos (Nat.lt_irrefl 0) }
  | poll rail =>
    have hpast : ∀ t ∈ w.recoveries, t ≤ rail.uptimeMs.toNat := fun t ht =>
      Nat.le_trans (h.past t ht) hforward
    have hpast' : ∀ t ∈ w.recoveries ++ [rail.uptimeMs.toNat], t ≤ rail.uptimeMs.toNat := by
      intro t ht
      rcases List.mem_append.mp ht with hold | hnew
      · exact hpast t hold
      · exact Nat.le_of_eq (List.mem_singleton.mp hnew)
    have hcases := eval_cases rail h.count_le
    unfold Watched.step
    dsimp only
    generalize eval cfg w.st rail = out at hcases
    cases hcases with
    | kept hact hnot hcount hstart =>
      simp only [hact, if_false, hnot, Bool.false_eq_true]
      refine ⟨hcount ▸ h.count_le, hpast, h.bound, fun hz => h.idle (hcount ▸ hz), fun hpos => ?_⟩
      obtain ⟨old, rest, hwin⟩ := h.window (hcount ▸ hpos)
      exact ⟨old, rest, by rw [hstart]; exact hwin.split, hcount.trans hwin.count,
        by rw [hstart]; exact hwin.old_le, by rw [hstart]; exact hwin.few⟩
    | forgiven hact hforgives hcount =>
      simp only [hact, if_false, hforgives, if_true]
      exact
        { count_le := hcount ▸ Nat.zero_le _
          past := fun _ ht => absurd ht List.not_mem_nil
          bound := windowBound_nil
          idle := fun _ => rfl
          window := fun hpos => absurd hcount (Nat.ne_of_gt hpos) }
    | opened hidle hmax hcount hstart =>
      have hrecent := h.recent_of_idle hforward hidle hmax
      simp only [if_true]
      refine ⟨hcount ▸ hmax, hpast', windowBound_append h.bound hpast (Nat.le_refl _) (by omega),
        fun hz => absurd (hcount.symm.trans hz) (by decide), fun _ => ?_⟩
      exact ⟨w.recoveries, [], by rw [hstart], hcount, by rw [hstart]; exact hpast,
        by rw [hstart]; exact hrecent⟩
    | continued hpos hroom hcount hstart =>
      obtain ⟨old, rest, hwin⟩ := h.window hpos
      have hopened : w.st.burstWindowStartMs.toNat ≤ rail.uptimeMs.toNat :=
        hpast _ (by simp [hwin.split])
      simp only [if_true]
      refine ⟨hcount ▸ hroom, hpast',
        windowBound_append h.bound hpast (Nat.le_refl _) (hwin.recent_of_continued hroom hopened),
        fun hz => absurd (hcount.symm.trans hz) (Nat.succ_ne_zero _), fun _ => ?_⟩
      refine ⟨old, rest ++ [rail.uptimeMs.toNat], ?_, ?_, ?_, ?_⟩
      · rw [hstart, hwin.split, List.append_assoc, List.cons_append]
      · rw [hcount, hwin.count, List.length_append, List.length_singleton]
      · rw [hstart]
        exact hwin.old_le
      · rw [hstart]
        exact hwin.few

theorem inv_init (cfg : Kconfig) : Inv cfg .init where
  count_le := Nat.zero_le _
  past := fun _ ht => absurd ht List.not_mem_nil
  bound := windowBound_nil
  idle := fun _ => rfl
  window := fun hpos => absurd hpos (Nat.lt_irrefl 0)

/--
In every run whose uptimes do not run backwards, less than two bursts of recoveries fall
into any window since the last reset of the burst state.
-/
theorem recoveries_bounded (cfg : Kconfig) (ops : List Op)
    (hrun : Along (Watched.step cfg) Forward .init ops) :
    WindowBound cfg.span (2 * cfg.burstMax - 1) (run (Watched.step cfg) .init ops).recoveries :=
  (run_invariant_along (I := Inv cfg) (fun _ _ h hforward => inv_step h hforward)
    (inv_init cfg) hrun).bound

/-- A collapsed rail, after warm-up. -/
def collapsedAt (uptimeMs : UInt64) : Op :=
  .poll ⟨0, true, uptimeMs, false⟩

/-- One recovery opens a window; two more close it, and the next window meets them. -/
def twoBursts : List Op :=
  [60001, 60002, 60003, 660001, 660002, 660003, 660003, 660003, 660003, 660004, 660004, 660004,
    660005, 660005, 660005, 660006, 660006, 660006].map collapsedAt

/-- The bound is met: five of the six recoveries are less than a window apart. -/
theorem recoveries_bounded_twoBursts :
    WindowBound 600001 5 (run (Watched.step .default) .init twoBursts).recoveries ∧
      (run (Watched.step .default) .init twoBursts).recoveries =
        [60003, 660003, 660003, 660004, 660005, 660006] :=
  ⟨recoveries_bounded .default twoBursts (by decide), by decide⟩

end PowerHealth
end Breadboard
