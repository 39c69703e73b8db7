import Breadboard.Foundations.Interpolation
import Breadboard.LedAnim.Animator

/-!
# bb_led_anim - levels in range

The abstract animator computes levels without a limit: a pattern has a target at every moment, and
a transition moves from one level to the target in a straight line.  The code does so wherever its
products fit; a fade also needs a time of less than a turn of the clock, and the level on record to
be the one that the LEDs show.

Main results:

- Theorem `emitLevel_eq`: a fade whose product fits is the straight line.
- Theorem `levels_in_range`: the levels along every run whose steps fit.
- Theorem `long_fade_turns_back`: a fade of a minute does not.
-/

namespace Breadboard
namespace LedAnim

open Foundations.Interpolation

/-! ## Arithmetic that fits -/

section Checked

variable {α β : Type}

@[simp] theorem Checked.val_pure (a : α) : (pure a : Checked α).val = a :=
  rfl

@[simp] theorem Checked.fits_pure (a : α) : (pure a : Checked α).fits = true :=
  rfl

@[simp] theorem Checked.val_bind (c : Checked α) (f : α → Checked β) :
    (c >>= f).val = (f c.val).val :=
  rfl

@[simp] theorem Checked.fits_bind (c : Checked α) (f : α → Checked β) :
    (c >>= f).fits = (c.fits && (f c.val).fits) :=
  rfl

@[simp] theorem Checked.pure_bind (a : α) (f : α → Checked β) :
    ((pure a : Checked α) >>= f) = f a :=
  rfl

theorem mulU32_eq {a b : Nat} (h : a * b < 2 ^ 32) : mulU32 a b = pure (a * b) := by
  rw [mulU32, Nat.mod_eq_of_lt h, decide_eq_true h]
  rfl

theorem addU32_eq {a b : Nat} (h : a + b < 2 ^ 32) : addU32 a b = pure (a + b) := by
  rw [addU32, Nat.mod_eq_of_lt h, decide_eq_true h]
  rfl

theorem mulU32_eq_of_le {a b m n : Nat} (ha : a ≤ m) (hb : b ≤ n) (h : m * n < 2 ^ 32) :
    mulU32 a b = pure (a * b) :=
  mulU32_eq (Nat.lt_of_le_of_lt (Nat.mul_le_mul ha hb) h)

theorem mulI32_eq {a b : Int} (h : (a * b).natAbs < 2 ^ 31) : mulI32 a b = pure (a * b) := by
  have hin : -2 ^ 31 ≤ a * b ∧ a * b < 2 ^ 31 := by omega
  have hbmod : (a * b).bmod (2 ^ 32) = a * b := Int.bmod_eq_of_le_mul_two (by omega) (by omega)
  rw [mulI32, hbmod, decide_eq_true hin]
  rfl

/-- A difference of clock readings is the time between, less than a turn of the clock. -/
theorem subU32_clock {s t : Nat} (hle : s ≤ t) (hlt : t < s + 2 ^ 32) :
    subU32 (t % 2 ^ 32) (s % 2 ^ 32) = t - s := by
  unfold subU32
  omega

theorem subU32_clock_le {s t : Nat} (hle : s ≤ t) :
    subU32 (t % 2 ^ 32) (s % 2 ^ 32) ≤ t - s := by
  unfold subU32
  omega

end Checked

/-! ## The exact animator -/

/-- A percentage as a level. -/
def levelOf (pct : Nat) : Nat :=
  pct * 65535 / 100

/-- The level that a pattern is at, without a limit on what is computed. -/
def Pattern.target (pat : Pattern) (elapsed : Nat) : Option Nat :=
  match pat with
  | .solid _ pct => some (levelOf pct)
  | .blink periodMs dutyPct levelPct =>
      let period := periodOr periodMs blinkPeriodDefaultMs
      if levelPct = 0 then none
      else some (if elapsed % period < period * dutyPct / 100 then levelOf levelPct else 0)
  | .breathe periodMs minPct maxPct =>
      let period := periodOr periodMs breathePeriodDefaultMs
      let s := sin8 (elapsed % period * 256 / period)
      some (levelOf minPct + s * (levelOf maxPct - levelOf minPct) / 255)
  | .pulse periodMs peakPct decayMs =>
      let period := periodOr periodMs pulsePeriodDefaultMs
      let decay := periodOr decayMs (period / 2)
      let phase := elapsed % period
      let ramp := rampMs period decay
      some (if phase < ramp then phase * levelOf peakPct / ramp
        else if phase < ramp + decay then levelOf peakPct * (decay - (phase - ramp)) / decay
        else 0)
  | .colorCycle _ _ _ | .chase _ _ _ => none

/-- The least and the greatest level that a pattern is set to. -/
def Pattern.bounds : Pattern → Nat × Nat
  | .solid _ pct => (levelOf pct, levelOf pct)
  | .blink _ _ levelPct => (0, levelOf levelPct)
  | .breathe _ minPct maxPct => (levelOf minPct, levelOf maxPct)
  | .pulse _ peakPct _ => (0, levelOf peakPct)
  | .colorCycle _ _ _ | .chase _ _ _ => (0, 0)

/-- A pattern that is there at once, in a transition too. -/
def Pattern.isSolid : Pattern → Bool
  | .solid _ _ => true
  | _ => false

/-- The fields of a pattern are of their types, and percentages are at most a hundred. -/
def Pattern.Typed : Pattern → Prop
  | .solid color pct => (color.r < 256 ∧ color.g < 256 ∧ color.b < 256) ∧ pct ≤ 100
  | .blink periodMs dutyPct levelPct => periodMs < 2 ^ 32 ∧ dutyPct ≤ 100 ∧ levelPct ≤ 100
  | .breathe periodMs minPct maxPct => periodMs < 2 ^ 32 ∧ minPct ≤ 100 ∧ maxPct ≤ 100
  | .pulse periodMs peakPct decayMs => periodMs < 2 ^ 32 ∧ peakPct ≤ 100 ∧ decayMs < 2 ^ 32
  | .colorCycle periodMs satPct valPct => periodMs < 2 ^ 32 ∧ satPct ≤ 100 ∧ valPct ≤ 100
  | .chase periodMs color tailLen =>
      periodMs < 2 ^ 32 ∧ (color.r < 256 ∧ color.g < 256 ∧ color.b < 256) ∧ tailLen < 256

/-- What a pattern multiplies, and the end of a pulse, fit 32 bits. -/
def Pattern.Fits (pat : Pattern) (count elapsed : Nat) : Prop :=
  match pat with
  | .solid _ _ => True
  | .blink periodMs dutyPct _ => periodOr periodMs blinkPeriodDefaultMs * dutyPct < 2 ^ 32
  | .breathe periodMs _ _ => elapsed % periodOr periodMs breathePeriodDefaultMs * 256 < 2 ^ 32
  | .pulse periodMs peakPct decayMs =>
      let period := periodOr periodMs pulsePeriodDefaultMs
      let decay := periodOr decayMs (period / 2)
      let phase := elapsed % period
      let ramp := rampMs period decay
      (phase < ramp → phase * levelOf peakPct < 2 ^ 32) ∧
        (ramp ≤ phase → ramp + decay < 2 ^ 32 ∧
          (phase < ramp + decay → levelOf peakPct * (decay - (phase - ramp)) < 2 ^ 32))
  | .colorCycle periodMs _ _ => elapsed % periodOr periodMs colorCyclePeriodDefaultMs * 360 < 2 ^ 32
  | .chase periodMs _ _ => elapsed % periodOr periodMs chasePeriodDefaultMs * count < 2 ^ 32

/-- What a fade multiplies fits 31 bits, and its duration does not turn the division around. -/
def FadeFits (fadeFrom target fadeMs elapsed : Nat) : Prop :=
  ((target : Int) - fadeFrom).natAbs * elapsed < min (2 ^ 31) (2 ^ 32 - fadeMs)

section Exact

variable {pat : Pattern} {elapsed target : Nat}

theorem sin8_le (phase : Nat) : sin8 phase ≤ 255 :=
  Nat.le_of_lt_succ (UInt8.toNat_lt _)

theorem levelOf_le {pct : Nat} (h : pct ≤ 100) : levelOf pct ≤ 65535 := by
  unfold levelOf
  omega

/-- A pattern is between the levels it is set to. -/
theorem target_mem_bounds (h : pat.target elapsed = some target) :
    target ∈ Set.uIcc pat.bounds.1 pat.bounds.2 := by
  cases pat with
  | solid color pct =>
      cases h
      exact Set.left_mem_uIcc
  | blink periodMs dutyPct levelPct =>
      simp only [Pattern.target] at h
      split at h
      · cases h
      · split at h
        · cases h
          exact Set.right_mem_uIcc
        · cases h
          exact Set.left_mem_uIcc
  | breathe periodMs minPct maxPct =>
      cases h
      have hpart : sin8 (elapsed % periodOr periodMs breathePeriodDefaultMs * 256 /
          periodOr periodMs breathePeriodDefaultMs) * (levelOf maxPct - levelOf minPct) / 255 ≤
            levelOf maxPct - levelOf minPct :=
        Nat.div_le_of_le_mul (Nat.mul_le_mul_right _ (sin8_le _))
      rw [Set.mem_uIcc, Pattern.bounds]
      omega
  | pulse periodMs peakPct decayMs =>
      cases h
      rw [Set.mem_uIcc, Pattern.bounds]
      refine Or.inl ⟨Nat.zero_le _, ?_⟩
      dsimp only
      split
      · next hramp =>
          rw [Nat.mul_comm]
          exact part_le _ (Nat.le_of_lt hramp)
      · split
        · exact part_le _ (Nat.sub_le _ _)
        · exact Nat.zero_le _
  | colorCycle periodMs satPct valPct => cases h
  | chase periodMs color tailLen => cases h

theorem target_lt (htyped : pat.Typed) (h : pat.target elapsed = some target) : target < 2 ^ 16 := by
  have hmem := Set.mem_uIcc.mp (target_mem_bounds h)
  have hbounds : pat.bounds.1 ≤ 65535 ∧ pat.bounds.2 ≤ 65535 := by
    cases pat with
    | solid color pct => exact ⟨levelOf_le htyped.2, levelOf_le htyped.2⟩
    | blink periodMs dutyPct levelPct => exact ⟨Nat.zero_le _, levelOf_le htyped.2.2⟩
    | breathe periodMs minPct maxPct => exact ⟨levelOf_le htyped.2.1, levelOf_le htyped.2.2⟩
    | pulse periodMs peakPct decayMs => exact ⟨Nat.zero_le _, levelOf_le htyped.2.1⟩
    | colorCycle periodMs satPct valPct => exact ⟨Nat.zero_le _, Nat.zero_le _⟩
    | chase periodMs color tailLen => exact ⟨Nat.zero_le _, Nat.zero_le _⟩
  omega

/-! ## The code where everything fits -/

theorem periodOr_pos {periodMs default : Nat} (h : 0 < default) : 0 < periodOr periodMs default := by
  unfold periodOr
  split
  · exact h
  · exact Nat.pos_of_ne_zero ‹_›

theorem pctLevel_eq {pct : Nat} (h : pct ≤ 100) : pctLevel pct = pure (levelOf pct) := by
  have hlevel := levelOf_le h
  have hmod : levelOf pct % 2 ^ 16 = levelOf pct := Nat.mod_eq_of_lt (by omega)
  rw [pctLevel, mulU32_eq_of_le h (Nat.le_refl 65535) (by decide), Checked.pure_bind]
  exact congrArg pure hmod

theorem blinkOn_eq {periodMs dutyPct : Nat}
    (h : periodOr periodMs blinkPeriodDefaultMs * dutyPct < 2 ^ 32) :
    blinkOn elapsed periodMs dutyPct =
      pure (decide (elapsed % periodOr periodMs blinkPeriodDefaultMs <
        periodOr periodMs blinkPeriodDefaultMs * dutyPct / 100)) := by
  rw [blinkOn, mulU32_eq h]
  rfl

theorem breatheLevel_eq {periodMs minPct maxPct count : Nat}
    (htyped : (Pattern.breathe periodMs minPct maxPct).Typed)
    (hfits : (Pattern.breathe periodMs minPct maxPct).Fits count elapsed)
    (h : (Pattern.breathe periodMs minPct maxPct).target elapsed = some target) :
    breatheLevel elapsed periodMs minPct maxPct = pure target := by
  have htarget := target_lt htyped h
  cases h
  have hperiod : 0 < periodOr periodMs breathePeriodDefaultMs := periodOr_pos (by decide)
  unfold breatheLevel
  change elapsed % periodOr periodMs breathePeriodDefaultMs * 256 < 2 ^ 32 at hfits
  generalize periodOr periodMs breathePeriodDefaultMs = period at hperiod hfits htarget ⊢
  have hindex : elapsed % period * 256 / period < 256 := by
    rw [Nat.div_lt_iff_lt_mul hperiod, Nat.mul_comm 256]
    exact Nat.mul_lt_mul_of_pos_right (Nat.mod_lt _ hperiod) (by decide)
  have hrange : (if levelOf minPct < levelOf maxPct then levelOf maxPct - levelOf minPct else 0) =
      levelOf maxPct - levelOf minPct := by
    split <;> omega
  have hlevel : levelOf maxPct - levelOf minPct ≤ 65535 :=
    Nat.le_trans (Nat.sub_le _ _) (levelOf_le htyped.2.2)
  dsimp only
  rw [mulU32_eq hfits, Checked.pure_bind, Nat.mod_eq_of_lt hindex, pctLevel_eq htyped.2.1,
    Checked.pure_bind, pctLevel_eq htyped.2.2, Checked.pure_bind, hrange,
    mulU32_eq_of_le (sin8_le _) hlevel (by decide), Checked.pure_bind, Nat.mod_eq_of_lt htarget]

theorem pulseLevel_eq {periodMs peakPct decayMs count : Nat}
    (htyped : (Pattern.pulse periodMs peakPct decayMs).Typed)
    (hfits : (Pattern.pulse periodMs peakPct decayMs).Fits count elapsed)
    (h : (Pattern.pulse periodMs peakPct decayMs).target elapsed = some target) :
    pulseLevel elapsed periodMs peakPct decayMs = pure target := by
  have htarget := target_lt htyped h
  cases h
  unfold pulseLevel
  unfold Pattern.Fits at hfits
  dsimp only at hfits htarget ⊢
  obtain ⟨hup, hdown⟩ := hfits
  rw [pctLevel_eq htyped.2.1, Checked.pure_bind]
  split at htarget
  · next hramp =>
      rw [if_pos hramp, if_pos hramp, mulU32_eq (hup hramp), Checked.pure_bind,
        Nat.mod_eq_of_lt htarget]
  · next hramp =>
      obtain ⟨hsum, hdecay⟩ := hdown (Nat.not_lt.mp hramp)
      rw [if_neg hramp, if_neg hramp, addU32_eq hsum, Checked.pure_bind]
      split at htarget
      · next hin =>
          rw [if_pos hin, if_pos hin, mulU32_eq (hdecay hin), Checked.pure_bind,
            Nat.mod_eq_of_lt htarget]
      · next hin => rw [if_neg hin, if_neg hin]

/-- The fade divides as the straight line does, also where its duration is read as negative. -/
theorem tdiv_toI32 {fadeMs : Nat} {p : Int} (hms : fadeMs < 2 ^ 32)
    (hp : p.natAbs < min (2 ^ 31) (2 ^ 32 - fadeMs)) : p.tdiv (toI32 fadeMs) = p.tdiv fadeMs := by
  unfold toI32
  split
  · rfl
  · next hlarge =>
      have hsmall : p.natAbs < ((fadeMs : Int) - 2 ^ 32).natAbs := by omega
      have hsmall' : p.natAbs < (fadeMs : Int).natAbs := by omega
      have hzero {q : Int} (hq : p.natAbs < q.natAbs) : p.tdiv q = 0 := by
        have hnat : (p.tdiv q).natAbs = 0 := by
          rw [Int.natAbs_tdiv]
          exact Nat.div_eq_of_lt hq
        exact Int.natAbs_eq_zero.mp hnat
      rw [hzero hsmall, hzero hsmall']

/-- **Theorem (The fade)**: Where its product fits it is the straight line, and ends at the target. -/
theorem emitLevel_eq {σ : Type} (d : Driver σ) {now : Nat} {h : Anim} (led : σ)
    (htarget : target < 2 ^ 16) (hfrom : h.fadeFrom < 2 ^ 16) (hms : h.fadeMs < 2 ^ 32)
    (hfits : subU32 now h.fadeStartMs < h.fadeMs →
      FadeFits h.fadeFrom target h.fadeMs (subU32 now h.fadeStartMs)) :
    emitLevel d now h led target =
      if h.fadeMs ≤ subU32 now h.fadeStartMs then
        pure (emitted d { h with fadeMs := 0 } led target)
      else
        pure (emitted d h led (lerp h.fadeFrom target h.fadeMs (subU32 now h.fadeStartMs))) := by
  unfold emitLevel
  dsimp only
  by_cases hzero : h.fadeMs = 0
  · have hsame : { h with fadeMs := 0 } = h := by rw [← hzero]
    rw [if_pos hzero, if_pos (by omega), hsame]
  rw [if_neg hzero]
  generalize subU32 now h.fadeStartMs = fe at hfits ⊢
  split
  · rfl
  · next hlt =>
      have hproduct := hfits (Nat.not_le.mp hlt)
      unfold FadeFits at hproduct
      -- a span of nothing hides a time that is read as negative
      have hspan : ((target : Int) - h.fadeFrom) * toI32 fe = ((target : Int) - h.fadeFrom) * fe := by
        unfold toI32
        split
        · rfl
        · next hlarge =>
            have hnone : (target : Int) - h.fadeFrom = 0 := by
              by_contra hne
              have hone : 1 ≤ ((target : Int) - h.fadeFrom).natAbs := by omega
              have hmul := Nat.mul_le_mul_right fe hone
              omega
            rw [hnone, Int.zero_mul, Int.zero_mul]
      have hnatAbs : (((target : Int) - h.fadeFrom) * fe).natAbs <
          min (2 ^ 31) (2 ^ 32 - h.fadeMs) := by
        rw [Int.natAbs_mul, Int.natAbs_natCast]
        exact hproduct
      have hi32 : (((target : Int) - h.fadeFrom) * toI32 fe).natAbs < 2 ^ 31 := by
        rw [hspan]
        omega
      have hmem := Set.mem_uIcc.mp
        (lerp_mem_uIcc (a := h.fadeFrom) (b := target) (Nat.le_of_lt (Nat.not_le.mp hlt)))
      have hlerp : lerp h.fadeFrom target h.fadeMs fe < 2 ^ 16 := by omega
      rw [mulI32_eq hi32, Checked.pure_bind, hspan, tdiv_toI32 hms hnatAbs,
        add_tdiv_eq_lerp (Nat.le_of_lt (Nat.not_le.mp hlt))]
      have hval : (((lerp h.fadeFrom target h.fadeMs fe : Nat) : Int) % 2 ^ 16).toNat =
          lerp h.fadeFrom target h.fadeMs fe := by omega
      rw [hval]

theorem mulU32_fits {a b m n : Nat} (ha : a ≤ m) (hb : b ≤ n) (h : m * n < 2 ^ 32) :
    (mulU32 a b).fits = true := by
  rw [mulU32_eq_of_le ha hb h, Checked.fits_pure]

theorem hsvToRgb_fits {h s v : Nat} (hs : s ≤ 255) (hv : v ≤ 255) :
    (hsvToRgb h s v).fits = true := by
  have hsub (n : Nat) : 255 - n ≤ 255 := Nat.sub_le 255 n
  have hf : (mulU32 (h % 60) 255).val / 60 ≤ 255 := by
    have hmod : h % 60 < 60 := Nat.mod_lt _ (by decide)
    rw [mulU32_eq_of_le (Nat.le_of_lt hmod) (Nat.le_refl 255) (by decide), Checked.val_pure]
    omega
  have hh : h % 60 ≤ 60 := Nat.le_of_lt (Nat.mod_lt _ (by decide))
  unfold hsvToRgb
  split
  · rfl
  · simp only [Checked.fits_bind, Bool.and_eq_true]
    refine ⟨mulU32_fits hh (Nat.le_refl 255) (by decide), mulU32_fits hv (hsub _) (by decide),
      mulU32_fits hf hs (by decide), mulU32_fits hv (hsub _) (by decide),
      mulU32_fits (hsub _) hs (by decide), mulU32_fits hv (hsub _) (by decide), ?_⟩
    split <;> rfl

theorem chaseColor_fits {color : Color} {cnt head tail i : Nat}
    (hcolor : color.r < 256 ∧ color.g < 256 ∧ color.b < 256) (htail : tail < 256) :
    (chaseColor color cnt head tail i).fits = true := by
  have hbyte (n : Nat) : n % 256 ≤ 255 := Nat.le_of_lt_succ (Nat.mod_lt n (by decide))
  unfold chaseColor
  dsimp only
  split
  · rfl
  · split
    · simp only [Checked.fits_bind, Bool.and_eq_true]
      have hlen : tail - (cnt + head - i) % cnt % 2 ^ 16 + 1 ≤ 256 := by omega
      exact ⟨mulU32_fits hlen (Nat.le_refl 255) (by decide),
        mulU32_fits (Nat.le_of_lt_succ hcolor.1) (hbyte _) (by decide),
        mulU32_fits (Nat.le_of_lt_succ hcolor.2.1) (hbyte _) (by decide),
        mulU32_fits (Nat.le_of_lt_succ hcolor.2.2) (hbyte _) (by decide), rfl⟩
    · rfl

theorem foldlM_fits {α β : Type} {f : β → α → Checked β} (hf : ∀ b a, (f b a).fits = true)
    (l : List α) (b : β) : (l.foldlM f b).fits = true := by
  induction l generalizing b with
  | nil => rfl
  | cons a l ih =>
      rw [List.foldlM_cons, Checked.fits_bind, hf, Bool.true_and]
      exact ih _

end Exact

/-! ## A step -/

/-- The level that is given to the LEDs on the way to a target. -/
def faded (now : Nat) (h : Anim) (target : Nat) : Nat :=
  if h.pat.isSolid = true ∨ h.fadeMs ≤ subU32 now h.fadeStartMs then target
  else lerp h.fadeFrom target h.fadeMs (subU32 now h.fadeStartMs)

/-- What a step at a clock reading makes of an animator: nothing is drawn, or a level is. -/
inductive Drawn (now : Nat) (h : Anim) : Anim → Option Nat → Prop where
  | nothing {h' : Anim} (hpat : h'.pat = h.pat) (hstart : h'.fadeStartMs = h.fadeStartMs)
      (hfrom : h'.fadeFrom = h.fadeFrom) (hms : h'.fadeMs = h.fadeMs)
      (hlast : h'.lastLevel = h.lastLevel) : Drawn now h h' none
  | level {h' : Anim} {t : Nat} (htarget : h.pat.target (subU32 now h.startMs) = some t)
      (hpat : h'.pat = h.pat) (hstart : h'.fadeStartMs = h.fadeStartMs)
      (hfrom : h'.fadeFrom = h.fadeFrom)
      (hms : h'.fadeMs = h.fadeMs ∨
        (h'.fadeMs = 0 ∧ h.fadeMs ≤ subU32 now h.fadeStartMs))
      (hlast : h'.lastLevel = faded now h t) : Drawn now h h' (some (faded now h t))

section Step

variable {σ : Type} (d : Driver σ) {now target : Nat} {h : Anim} (led : σ)

theorem emitLevel_drawn (hsolid : h.pat.isSolid = false)
    (htarget : h.pat.target (subU32 now h.startMs) = some target) (hlt : target < 2 ^ 16)
    (hfrom : h.fadeFrom < 2 ^ 16) (hms : h.fadeMs < 2 ^ 32)
    (hfade : subU32 now h.fadeStartMs < h.fadeMs →
      FadeFits h.fadeFrom target h.fadeMs (subU32 now h.fadeStartMs)) :
    (emitLevel d now h led target).fits = true ∧
      Drawn now h (emitLevel d now h led target).val.anim
        (emitLevel d now h led target).val.level := by
  rw [emitLevel_eq d led hlt hfrom hms hfade]
  have hnot : ¬ h.pat.isSolid = true := by simp [hsolid]
  split
  · next hover =>
      have hfaded : target = faded now h target := (if_pos (Or.inr hover)).symm
      refine ⟨rfl, ?_⟩
      have hdrawn : Drawn now h (emitted d { h with fadeMs := 0 } led target).anim
          (some (faded now h target)) :=
        .level htarget rfl rfl rfl (Or.inr ⟨rfl, hover⟩) hfaded
      rwa [← hfaded] at hdrawn
  · next hover =>
      have hfaded : lerp h.fadeFrom target h.fadeMs (subU32 now h.fadeStartMs) =
          faded now h target := (if_neg (not_or.mpr ⟨hnot, hover⟩)).symm
      refine ⟨rfl, ?_⟩
      rw [hfaded]
      exact .level htarget rfl rfl rfl (Or.inl rfl) rfl

theorem stepSolid_drawn {color : Color} {pct : Nat} (hpat : h.pat = .solid color pct)
    (hpct : pct ≤ 100) :
    (stepSolid d h led color pct).fits = true ∧
      Drawn now h (stepSolid d h led color pct).val.anim
        (stepSolid d h led color pct).val.level := by
  have htarget : h.pat.target (subU32 now h.startMs) = some (levelOf pct) := by
    rw [hpat]
    rfl
  have hfaded : levelOf pct = faded now h (levelOf pct) := by
    rw [faded, hpat]
    exact (if_pos (Or.inl rfl)).symm
  unfold stepSolid
  split
  · exact ⟨rfl, .nothing rfl rfl rfl rfl rfl⟩
  · dsimp only
    split
    · rw [pctLevel_eq hpct, Checked.pure_bind]
      refine ⟨rfl, ?_⟩
      rw [hfaded]
      exact .level htarget rfl rfl rfl (Or.inl rfl) rfl
    · split
      · exact ⟨rfl, .nothing rfl rfl rfl rfl rfl⟩
      · exact ⟨rfl, .nothing rfl rfl rfl rfl rfl⟩

theorem stepColorCycle_drawn {periodMs satPct valPct elapsed : Nat} (hsat : satPct ≤ 100)
    (hval : valPct ≤ 100)
    (hfits : elapsed % periodOr periodMs colorCyclePeriodDefaultMs * 360 < 2 ^ 32) :
    (stepColorCycle d h led elapsed periodMs satPct valPct).fits = true ∧
      Drawn now h (stepColorCycle d h led elapsed periodMs satPct valPct).val.anim
        (stepColorCycle d h led elapsed periodMs satPct valPct).val.level := by
  have hbyte (n : Nat) : n % 256 ≤ 255 := Nat.le_of_lt_succ (Nat.mod_lt n (by decide))
  refine ⟨?_, .nothing rfl rfl rfl rfl rfl⟩
  unfold stepColorCycle
  simp only [Checked.fits_bind, Bool.and_eq_true]
  refine ⟨?_, mulU32_fits hsat (Nat.le_refl 255) (by decide),
    mulU32_fits hval (Nat.le_refl 255) (by decide), hsvToRgb_fits (hbyte _) (hbyte _), rfl⟩
  rw [mulU32_eq hfits, Checked.fits_pure]

theorem stepChase_drawn {periodMs tailLen elapsed : Nat} {color : Color}
    (hcolor : color.r < 256 ∧ color.g < 256 ∧ color.b < 256) (htail : tailLen < 256)
    (hfits : elapsed % periodOr periodMs chasePeriodDefaultMs * d.count < 2 ^ 32) :
    (stepChase d h led elapsed periodMs color tailLen).fits = true ∧
      Drawn now h (stepChase d h led elapsed periodMs color tailLen).val.anim
        (stepChase d h led elapsed periodMs color tailLen).val.level := by
  have htail' : (if tailLen = 0 then 3 else tailLen) < 256 := by
    split
    · decide
    · exact htail
  refine ⟨?_, .nothing rfl rfl rfl rfl rfl⟩
  unfold stepChase
  simp only [Checked.fits_bind, Bool.and_eq_true]
  refine ⟨?_, foldlM_fits (fun led i => ?_) _ _, rfl⟩
  · rw [mulU32_eq hfits, Checked.fits_pure]
  · rw [Checked.fits_bind, chaseColor_fits hcolor htail', Bool.true_and]
    rfl

/-- What the pattern that is set draws, where everything fits. -/
theorem stepPattern_drawn (htyped : h.pat.Typed)
    (hfits : h.pat.Fits d.count (subU32 now h.startMs)) (hfrom : h.fadeFrom < 2 ^ 16)
    (hms : h.fadeMs < 2 ^ 32)
    (hfade : h.pat.isSolid = false → ∀ t, h.pat.target (subU32 now h.startMs) = some t →
      subU32 now h.fadeStartMs < h.fadeMs →
        FadeFits h.fadeFrom t h.fadeMs (subU32 now h.fadeStartMs)) :
    (stepPattern d now h led).fits = true ∧
      Drawn now h (stepPattern d now h led).val.anim (stepPattern d now h led).val.level := by
  -- the patterns with a level draw what `emitLevel` makes of their target
  have hemit {t : Nat} (hsolid : h.pat.isSolid = false)
      (htarget : h.pat.target (subU32 now h.startMs) = some t) :
      (emitLevel d now h led t).fits = true ∧
        Drawn now h (emitLevel d now h led t).val.anim (emitLevel d now h led t).val.level :=
    emitLevel_drawn d led hsolid htarget (target_lt htyped htarget) hfrom hms
      (hfade hsolid t htarget)
  unfold stepPattern
  dsimp only
  cases hpat : h.pat with
  | solid color pct =>
      rw [hpat] at htyped
      exact stepSolid_drawn d led hpat htyped.2
  | blink periodMs dutyPct levelPct =>
      rw [hpat] at htyped hfits
      dsimp only
      rw [stepBlink, blinkOn_eq hfits, Checked.pure_bind]
      split
      · next hlevel =>
          have htarget : h.pat.target (subU32 now h.startMs) =
              some (if subU32 now h.startMs % periodOr periodMs blinkPeriodDefaultMs <
                periodOr periodMs blinkPeriodDefaultMs * dutyPct / 100 then levelOf levelPct
                else 0) := by
            rw [hpat]
            exact if_neg hlevel
          have hblink := hemit (by rw [hpat]; rfl) htarget
          simp only [decide_eq_true_eq]
          split at hblink
          · next hon =>
              rw [if_pos hon, pctLevel_eq htyped.2.2]
              exact hblink
          · next hon =>
              rw [if_neg hon]
              exact hblink
      · exact ⟨rfl, .nothing rfl rfl rfl rfl rfl⟩
  | breathe periodMs minPct maxPct =>
      rw [hpat] at htyped hfits
      obtain ⟨t, ht⟩ : ∃ t, (Pattern.breathe periodMs minPct maxPct).target (subU32 now h.startMs) =
          some t := ⟨_, rfl⟩
      dsimp only
      rw [stepBreathe, breatheLevel_eq htyped hfits ht, Checked.pure_bind]
      exact hemit (by rw [hpat]; rfl) (by rw [hpat]; exact ht)
  | pulse periodMs peakPct decayMs =>
      rw [hpat] at htyped hfits
      obtain ⟨t, ht⟩ : ∃ t, (Pattern.pulse periodMs peakPct decayMs).target (subU32 now h.startMs) =
          some t := ⟨_, rfl⟩
      dsimp only
      rw [stepPulse, pulseLevel_eq htyped hfits ht, Checked.pure_bind]
      exact hemit (by rw [hpat]; rfl) (by rw [hpat]; exact ht)
  | colorCycle periodMs satPct valPct =>
      rw [hpat] at htyped hfits
      exact stepColorCycle_drawn d led htyped.2.1 htyped.2.2 hfits
  | chase periodMs color tailLen =>
      rw [hpat] at htyped hfits
      exact stepChase_drawn d led htyped.2.1 htyped.2.2 hfits

/-- **Lemma (A step)**: Where everything fits it draws nothing, or the level on the way. -/
theorem doStep_drawn (htyped : h.pat.Typed)
    (hfits : h.paused = false → h.hasPattern = true →
      h.pat.Fits d.count (subU32 now h.startMs))
    (hfrom : h.fadeFrom < 2 ^ 16) (hms : h.fadeMs < 2 ^ 32)
    (hfade : h.paused = false → h.hasPattern = true → h.pat.isSolid = false → ∀ t,
      h.pat.target (subU32 now h.startMs) = some t → subU32 now h.fadeStartMs < h.fadeMs →
        FadeFits h.fadeFrom t h.fadeMs (subU32 now h.fadeStartMs)) :
    (doStep d now h led).fits = true ∧
      Drawn now h (doStep d now h led).val.anim (doStep d now h led).val.level := by
  unfold doStep
  split
  · exact ⟨rfl, .nothing rfl rfl rfl rfl rfl⟩
  · next hgo =>
      rw [not_or, Bool.not_eq_true, Bool.not_eq_false] at hgo
      obtain ⟨hok, hdrawn⟩ := stepPattern_drawn d led htyped (hfits hgo.1 hgo.2) hfrom hms
        (hfade hgo.1 hgo.2)
      refine ⟨by rw [Checked.fits_bind, hok]; rfl, ?_⟩
      rw [Checked.val_bind, Checked.val_pure]
      cases hlevel : (stepPattern d now h led).val.level with
      | none =>
          rw [hlevel] at hdrawn
          cases hdrawn with
          | nothing hpat hstart hfrom hms hlast => exact .nothing hpat hstart hfrom hms hlast
      | some out =>
          rw [hlevel] at hdrawn
          cases hdrawn with
          | level htarget hpat hstart hfrom hms hlast =>
              exact .level htarget hpat hstart hfrom hms hlast

end Step

/-! ## Runs -/

/-- A transition as it was set: the levels the LEDs showed, and the one on record. -/
structure Transition where
  pat : Pattern
  setAt : Nat
  ms : Nat
  recorded : Nat
  shown : List Nat

/-- A level that was given to the LEDs. -/
structure Emission where
  time : Nat
  pat : Pattern
  elapsed : Nat
  level : Nat
  transition : Option Transition

/-- An animator on its LEDs at a time in milliseconds, with what was seen of it. -/
structure Run (σ : Type) where
  time : Nat
  anim : Anim
  led : σ
  transition : Option Transition
  emissions : List Emission
  fits : Bool

/-- What happens to an animator. -/
inductive Call where
  | wait (ms : Nat)
  | set (pat : Option Pattern)
  | setTransition (pat : Option Pattern) (fadeMs : Nat)
  | pause
  | resume
  | tick
  | timer

section Run

variable {σ : Type}

/-- `now_ms`. -/
def Run.clock (r : Run σ) : Nat :=
  r.time % 2 ^ 32

/-- The time that the pattern counts. -/
def Run.elapsed (r : Run σ) : Nat :=
  subU32 r.clock r.anim.startMs

/-- What is seen of a step. -/
def Run.draw (r : Run σ) (c : Checked (Stepped σ)) : Run σ where
  time := r.time
  anim := c.val.anim
  led := c.val.led
  transition := r.transition
  emissions :=
    match c.val.level with
    | none => r.emissions
    | some level => r.emissions ++ [⟨r.time, r.anim.pat, r.elapsed, level, r.transition⟩]
  fits := r.fits && c.fits

/-- One thing happens. -/
def Run.call (d : Driver σ) (r : Run σ) : Call → Run σ
  | .wait ms => { r with time := r.time + ms }
  | .set pat =>
      match set d r.clock r.anim pat with
      | (.ok, h) => { r with anim := h, transition := none }
      | (_, h) => { r with anim := h }
  | .setTransition pat fadeMs =>
      match setTransition d r.clock r.anim pat fadeMs with
      | (.ok, h) =>
          { r with
            anim := h
            transition := some ⟨h.pat, r.time, fadeMs, r.anim.lastLevel, d.levels r.led⟩ }
      | (_, h) => { r with anim := h }
  | .pause => { r with anim := pause r.anim }
  | .resume => { r with anim := resume r.anim }
  | .tick => r.draw (tick d r.clock r.anim r.led)
  | .timer => r.draw (doStep d r.clock r.anim r.led)

/-- An animator is attached. -/
def Run.start (led : σ) (time tickPeriodMs : Nat) : Run σ where
  time := time
  anim := attach (time % 2 ^ 32) tickPeriodMs
  led := led
  transition := none
  emissions := []
  fits := true

/-- What is passed is of its type, with percentages of at most a hundred. -/
def Call.Typed : Call → Prop
  | .set (some pat) => pat.Typed
  | .setTransition (some pat) fadeMs => pat.Typed ∧ fadeMs < 2 ^ 32
  | _ => True

/-! ## Good levels -/

/-- A level given to the LEDs is in range. -/
def Emission.InRange (e : Emission) : Prop :=
  ∃ t, e.pat.target e.elapsed = some t ∧
    match e.transition with
    | none => e.level ∈ Set.uIcc e.pat.bounds.1 e.pat.bounds.2
    | some tr =>
        if e.time < tr.setAt + tr.ms then ∀ x ∈ tr.shown, e.level ∈ Set.uIcc x t
        else e.level = t ∧ e.level ∈ Set.uIcc e.pat.bounds.1 e.pat.bounds.2

/-- In one transition and with one target a later level is on the way from an earlier one. -/
def Emission.Toward (e e' : Emission) : Prop :=
  ∀ tr t, e.transition = some tr → e'.transition = some tr → e.pat.target e.elapsed = some t →
    e'.pat.target e'.elapsed = some t → e'.level ∈ Set.uIcc e.level t

/-- All that was computed fits, and all levels that were given are good. -/
structure Run.Good (r : Run σ) : Prop where
  fits : r.fits = true
  inRange : ∀ e ∈ r.emissions, e.InRange
  toward : r.emissions.Pairwise Emission.Toward

/-! ## Runs that fit -/

/-- What a step of the pattern multiplies fits, and a fade is over within a turn of the clock. -/
def Run.DrawFits (d : Driver σ) (r : Run σ) : Prop :=
  r.anim.paused = false → r.anim.hasPattern = true →
    r.anim.pat.Fits d.count r.elapsed ∧
      (r.anim.pat.isSolid = false → r.anim.fadeMs ≠ 0 → ∀ tr t, r.transition = some tr →
        r.anim.pat.target r.elapsed = some t →
          r.time < tr.setAt + 2 ^ 32 ∧
            (r.time < tr.setAt + tr.ms → FadeFits tr.recorded t tr.ms (r.time - tr.setAt)))

/-- A step of the pattern fits, and a fade begins at the level that the LEDs show. -/
def Run.CallFits (d : Driver σ) (r : Run σ) : Call → Prop
  | .setTransition _ fadeMs => fadeMs ≠ 0 → ∀ x ∈ d.levels r.led, x = r.anim.lastLevel
  | .tick => r.anim.tickPeriodMs ≤ subU32 r.clock r.anim.lastTickMs → r.DrawFits d
  | .timer => r.DrawFits d
  | _ => True

/-- Every step of a run fits. -/
def FitsAlong (d : Driver σ) : Run σ → List Call → Prop
  | _, [] => True
  | r, c :: calls => r.CallFits d c ∧ FitsAlong d (r.call d c) calls

/-- The level of a transition at a time. -/
def Transition.levelAt (tr : Transition) (t time : Nat) : Nat :=
  if tr.pat.isSolid = true ∨ tr.setAt + tr.ms ≤ time then t
  else lerp tr.recorded t tr.ms (time - tr.setAt)

theorem Transition.levelAt_toward (tr : Transition) {t time time' : Nat} (hset : tr.setAt ≤ time)
    (hle : time ≤ time') : tr.levelAt t time' ∈ Set.uIcc (tr.levelAt t time) t := by
  by_cases hover : tr.pat.isSolid = true ∨ tr.setAt + tr.ms ≤ time'
  · have hend : tr.levelAt t time' = t := if_pos hover
    rw [hend]
    exact Set.right_mem_uIcc
  · have hover' : ¬ (tr.pat.isSolid = true ∨ tr.setAt + tr.ms ≤ time) := by
      intro h
      exact hover (h.imp_right fun hms => Nat.le_trans hms hle)
    have hnow : tr.levelAt t time' = lerp tr.recorded t tr.ms (time' - tr.setAt) := if_neg hover
    have hthen : tr.levelAt t time = lerp tr.recorded t tr.ms (time - tr.setAt) := if_neg hover'
    rw [hnow, hthen]
    rw [not_or, Nat.not_le] at hover
    exact lerp_mem_uIcc_lerp (by omega) (by omega)

/-- A level in a transition is the one of its time. -/
def Emission.Follows (e : Emission) : Prop :=
  ∀ tr, e.transition = some tr → e.pat = tr.pat ∧ tr.setAt ≤ e.time ∧
    ∃ t, e.pat.target e.elapsed = some t ∧ e.level = tr.levelAt t e.time

theorem toward_of_follows {e e' : Emission} (h : e.Follows) (h' : e'.Follows)
    (hle : e.time ≤ e'.time) : e.Toward e' := by
  intro tr t htr htr' ht ht'
  obtain ⟨_, hset, t₁, ht₁, hlevel⟩ := h tr htr
  obtain ⟨_, _, t₂, ht₂, hlevel'⟩ := h' tr htr'
  rw [ht] at ht₁
  rw [ht'] at ht₂
  cases ht₁
  cases ht₂
  rw [hlevel, hlevel']
  exact tr.levelAt_toward hset hle

/-- A transition that the animator is in, or was in. -/
structure Run.Fading (r : Run σ) (tr : Transition) : Prop where
  pat : r.anim.pat = tr.pat
  setAt : tr.setAt ≤ r.time
  shown : tr.ms ≠ 0 → ∀ x ∈ tr.shown, x = tr.recorded
  state : (r.anim.fadeMs = tr.ms ∧ r.anim.fadeStartMs = tr.setAt % 2 ^ 32 ∧
      r.anim.fadeFrom = tr.recorded) ∨ (r.anim.fadeMs = 0 ∧ tr.setAt + tr.ms ≤ r.time)

/-- The invariant of a run that fits. -/
structure Run.Inv (r : Run σ) : Prop where
  good : r.Good
  typed : r.anim.pat.Typed
  last : r.anim.lastLevel < 2 ^ 16
  fadeFrom : r.anim.fadeFrom < 2 ^ 16
  fadeMs : r.anim.fadeMs < 2 ^ 32
  follows : ∀ e ∈ r.emissions, e.time ≤ r.time ∧ e.Follows
  idle : r.transition = none → r.anim.fadeMs = 0
  fading : ∀ tr, r.transition = some tr → r.Fading tr

variable {d : Driver σ} {r : Run σ}

/-- What is drawn is the level of the transition at its time. -/
theorem Run.Fading.faded_eq {tr : Transition} (h : r.Fading tr) (t : Nat)
    (hturn : r.anim.pat.isSolid = false → r.anim.fadeMs ≠ 0 → r.time < tr.setAt + 2 ^ 32) :
    faded r.clock r.anim t = tr.levelAt t r.time := by
  unfold faded Transition.levelAt
  rw [← h.pat]
  by_cases hsolid : r.anim.pat.isSolid = true
  · rw [if_pos (Or.inl hsolid), if_pos (Or.inl hsolid)]
  obtain ⟨hms, hstart, hfrom⟩ | ⟨hzero, hover⟩ := h.state
  · by_cases hnone : tr.ms = 0
    · have hset := h.setAt
      rw [if_pos (Or.inr (by omega)), if_pos (Or.inr (by omega))]
    · have hclock : subU32 r.clock r.anim.fadeStartMs = r.time - tr.setAt := by
        rw [hstart]
        exact subU32_clock h.setAt (hturn (Bool.eq_false_iff.mpr hsolid) (hms ▸ hnone))
      have hset := h.setAt
      have hiff : tr.ms ≤ r.time - tr.setAt ↔ tr.setAt + tr.ms ≤ r.time := by omega
      rw [hclock, hms, hfrom]
      simp only [hiff]
  · rw [if_pos (Or.inr (by rw [hzero]; exact Nat.zero_le _)), if_pos (Or.inr hover)]

/-- A level at its time of a transition is in range. -/
theorem inRange_of_levelAt {e : Emission} {tr : Transition} {t : Nat}
    (htr : e.transition = some tr) (ht : e.pat.target e.elapsed = some t)
    (hset : tr.setAt ≤ e.time) (hlevel : e.level = tr.levelAt t e.time)
    (hshown : tr.ms ≠ 0 → ∀ x ∈ tr.shown, x = tr.recorded) : e.InRange := by
  refine ⟨t, ht, ?_⟩
  rw [htr]
  dsimp only
  split
  · next hin =>
      intro x hx
      rw [hlevel, hshown (by omega) x hx, Transition.levelAt]
      split
      · exact Set.right_mem_uIcc
      · exact lerp_mem_uIcc (by omega)
  · next hin =>
      have hend : e.level = t := by
        rw [hlevel]
        exact if_pos (Or.inr (Nat.not_lt.mp hin))
      refine ⟨hend, ?_⟩
      rw [hend]
      exact target_mem_bounds ht

/-- What is drawn next to good levels is good. -/
theorem Run.Inv.good_append (h : r.Inv) {e : Emission} (htime : e.time = r.time)
    (hrange : e.InRange) (hfollows : e.Follows) :
    (∀ e' ∈ r.emissions ++ [e], e'.InRange) ∧
      (r.emissions ++ [e]).Pairwise Emission.Toward ∧
      ∀ e' ∈ r.emissions ++ [e], e'.time ≤ r.time ∧ e'.Follows := by
  refine ⟨?_, ?_, ?_⟩
  · intro e' he'
    obtain hold | hnew := List.mem_append.mp he'
    · exact h.good.inRange e' hold
    · rw [List.mem_singleton.mp hnew]
      exact hrange
  · refine List.pairwise_append.mpr ⟨h.good.toward, List.pairwise_singleton _ _, ?_⟩
    intro e' he' e'' he''
    rw [List.mem_singleton.mp he'']
    obtain ⟨hle, hfollows'⟩ := h.follows e' he'
    exact toward_of_follows hfollows' hfollows (htime ▸ hle)
  · intro e' he'
    obtain hold | hnew := List.mem_append.mp he'
    · exact h.follows e' hold
    · rw [List.mem_singleton.mp hnew]
      exact ⟨Nat.le_of_eq htime, hfollows⟩

/-- A transition goes on while the animator keeps its pattern and its fade. -/
theorem Run.Fading.kept {r' : Run σ} {tr : Transition} (h : r.Fading tr)
    (hpat : r'.anim.pat = r.anim.pat) (htime : r.time ≤ r'.time)
    (hstart : r'.anim.fadeStartMs = r.anim.fadeStartMs) (hfrom : r'.anim.fadeFrom = r.anim.fadeFrom)
    (hms : r'.anim.fadeMs = r.anim.fadeMs) : r'.Fading tr where
  pat := hpat.trans h.pat
  setAt := Nat.le_trans h.setAt htime
  shown := h.shown
  state := by
    rw [hms, hstart, hfrom]
    exact h.state.imp_right fun hover => ⟨hover.1, Nat.le_trans hover.2 htime⟩

theorem faded_lt {now t : Nat} {h : Anim} (ht : t < 2 ^ 16) (hfrom : h.fadeFrom < 2 ^ 16) :
    faded now h t < 2 ^ 16 := by
  unfold faded
  split
  · exact ht
  · next hnot =>
      rw [not_or, Nat.not_le] at hnot
      have hmem := Set.mem_uIcc.mp (lerp_mem_uIcc (a := h.fadeFrom) (b := t) (Nat.le_of_lt hnot.2))
      omega

/-- The level that is drawn is in range, and follows its transition. -/
theorem Run.Inv.emission (h : r.Inv) {t : Nat} (ht : r.anim.pat.target r.elapsed = some t)
    (hturn : r.anim.pat.isSolid = false → r.anim.fadeMs ≠ 0 →
      ∀ tr, r.transition = some tr → r.time < tr.setAt + 2 ^ 32) {e : Emission}
    (he : e = ⟨r.time, r.anim.pat, r.elapsed, faded r.clock r.anim t, r.transition⟩) :
    e.InRange ∧ e.Follows := by
  subst he
  cases htr : r.transition with
  | none =>
      have hfaded : faded r.clock r.anim t = t :=
        if_pos (Or.inr (by rw [h.idle htr]; exact Nat.zero_le _))
      rw [hfaded]
      exact ⟨⟨t, ht, target_mem_bounds ht⟩, fun tr hnone => nomatch hnone⟩
  | some tr =>
      have hfading := h.fading tr htr
      have hlevel := hfading.faded_eq t fun hsolid hms => hturn hsolid hms tr htr
      refine ⟨inRange_of_levelAt rfl ht hfading.setAt hlevel hfading.shown, ?_⟩
      intro tr' htr'
      cases htr'
      exact ⟨hfading.pat, hfading.setAt, t, ht, hlevel⟩

/-- A step that fits and draws keeps the invariant. -/
theorem Run.Inv.draw (h : r.Inv) {c : Checked (Stepped σ)} (hfits : c.fits = true)
    (hdrawn : Drawn r.clock r.anim c.val.anim c.val.level)
    (hturn : c.val.level ≠ none → ∀ t, r.anim.pat.target r.elapsed = some t →
      r.anim.pat.isSolid = false → r.anim.fadeMs ≠ 0 → ∀ tr, r.transition = some tr →
        r.time < tr.setAt + 2 ^ 32) : (r.draw c).Inv := by
  have hok : (r.draw c).fits = true := by
    have hr := h.good.fits
    simp [Run.draw, hr, hfits]
  cases hlevel : c.val.level with
  | none =>
      rw [hlevel] at hdrawn
      have hsame : (r.draw c).emissions = r.emissions := by simp only [Run.draw, hlevel]
      cases hdrawn with
      | nothing hpat hstart hfrom hms hlast =>
          exact {
            good := ⟨hok, hsame ▸ h.good.inRange, hsame ▸ h.good.toward⟩
            typed := (congrArg Pattern.Typed hpat).mpr h.typed
            last := Nat.lt_of_le_of_lt (Nat.le_of_eq hlast) h.last
            fadeFrom := Nat.lt_of_le_of_lt (Nat.le_of_eq hfrom) h.fadeFrom
            fadeMs := Nat.lt_of_le_of_lt (Nat.le_of_eq hms) h.fadeMs
            follows := hsame ▸ h.follows
            idle := fun hnone => hms.trans (h.idle hnone)
            fading := fun tr htr =>
              (h.fading tr htr).kept hpat (Nat.le_refl _) hstart hfrom hms }
  | some level =>
      have hturn' := hturn (by rw [hlevel]; exact Option.some_ne_none _)
      rw [hlevel] at hdrawn
      have hsame : (r.draw c).emissions =
          r.emissions ++ [⟨r.time, r.anim.pat, r.elapsed, level, r.transition⟩] := by
        simp only [Run.draw, hlevel]
      cases hdrawn with
      | level htarget hpat hstart hfrom hms hlast =>
          obtain ⟨hrange, hfollows⟩ := h.emission htarget (hturn' _ htarget) rfl
          obtain ⟨hranges, htoward, hall⟩ := h.good_append rfl hrange hfollows
          have htarget' := target_lt h.typed htarget
          have hzero (h0 : r.anim.fadeMs = 0) : c.val.anim.fadeMs = 0 :=
            hms.elim (fun hsame => hsame.trans h0) And.left
          refine {
            good := ⟨hok, hsame ▸ hranges, hsame ▸ htoward⟩
            typed := (congrArg Pattern.Typed hpat).mpr h.typed
            last := hlast ▸ faded_lt htarget' h.fadeFrom
            fadeFrom := Nat.lt_of_le_of_lt (Nat.le_of_eq hfrom) h.fadeFrom
            fadeMs := ?_
            follows := hsame ▸ hall
            idle := fun hnone => hzero (h.idle hnone)
            fading := fun tr htr => ?_ }
          · obtain hms | ⟨hms, _⟩ := hms
            · exact Nat.lt_of_le_of_lt (Nat.le_of_eq hms) h.fadeMs
            · exact Nat.lt_of_le_of_lt (Nat.le_of_eq hms) (by decide)
          · have hfading := h.fading tr htr
            obtain hms | ⟨hms, hover⟩ := hms
            · exact hfading.kept hpat (Nat.le_refl _) hstart hfrom hms
            · refine ⟨hpat.trans hfading.pat, hfading.setAt, hfading.shown, Or.inr ⟨hms, ?_⟩⟩
              obtain ⟨hwas, hbegan, _⟩ | hended := hfading.state
              · have hclock : subU32 r.clock r.anim.fadeStartMs ≤ r.time - tr.setAt := by
                  rw [hbegan]
                  exact subU32_clock_le hfading.setAt
                have hset := hfading.setAt
                change tr.setAt + tr.ms ≤ r.time
                omega
              · exact hended.2

/-- A step of the pattern whose products fit keeps the invariant. -/
theorem Run.Inv.draw_doStep (h : r.Inv) (hfits : r.DrawFits d) :
    (r.draw (doStep d r.clock r.anim r.led)).Inv := by
  obtain ⟨hok, hdrawn⟩ := doStep_drawn d r.led h.typed
    (fun hpaused hpattern => (hfits hpaused hpattern).1) h.fadeFrom h.fadeMs <| by
      intro hpaused hpattern hsolid t ht hlt
      have hms : r.anim.fadeMs ≠ 0 := by omega
      cases htr : r.transition with
      | none => exact absurd (h.idle htr) hms
      | some tr =>
          have hfading := h.fading tr htr
          obtain ⟨hsame, hstart, hfrom⟩ | ⟨hzero, _⟩ := hfading.state
          · obtain ⟨hturn, hfade⟩ := (hfits hpaused hpattern).2 hsolid hms tr t htr ht
            have hclock : subU32 r.clock r.anim.fadeStartMs = r.time - tr.setAt := by
              rw [hstart]
              exact subU32_clock hfading.setAt hturn
            rw [hclock, hsame] at hlt ⊢
            rw [hfrom]
            have hset := hfading.setAt
            exact hfade (by omega)
          · exact absurd hzero hms
  refine h.draw hok hdrawn fun hlevel t ht hsolid hms tr htr => ?_
  by_cases hidle : r.anim.paused = true ∨ r.anim.hasPattern = false
  · exact absurd (by rw [doStep, if_pos hidle]; rfl) hlevel
  · rw [not_or, Bool.not_eq_true, Bool.not_eq_false] at hidle
    exact ((hfits hidle.1 hidle.2).2 hsolid hms tr t htr ht).1

/-- A pattern that is applied is there from now on; one that is not changes nothing. -/
theorem animApply_cases (d : Driver σ) (now : Nat) (h : Anim) (pat : Option Pattern) :
    (∃ p, pat = some p ∧ animApply d now h pat = (.ok, { h with
        pat := p
        startMs := now
        lastTickMs := now
        hasPattern := true
        dirty := true })) ∨
      ∃ err, err ≠ .ok ∧ animApply d now h pat = (err, h) := by
  cases pat with
  | none => exact Or.inr ⟨.invalidArg, nofun, rfl⟩
  | some p =>
      unfold animApply
      dsimp only
      split
      · exact Or.inr ⟨.unsupported, nofun, rfl⟩
      · split
        · exact Or.inr ⟨.unsupported, nofun, rfl⟩
        · exact Or.inl ⟨p, rfl, rfl⟩

/-- What is not looked at may change. -/
theorem Run.Inv.with_anim (h : r.Inv) {h' : Anim} (hpat : h'.pat = r.anim.pat)
    (hstart : h'.fadeStartMs = r.anim.fadeStartMs) (hfrom : h'.fadeFrom = r.anim.fadeFrom)
    (hms : h'.fadeMs = r.anim.fadeMs) (hlast : h'.lastLevel = r.anim.lastLevel) :
    Run.Inv { r with anim := h' } where
  good := ⟨h.good.fits, h.good.inRange, h.good.toward⟩
  typed := (congrArg Pattern.Typed hpat).mpr h.typed
  last := Nat.lt_of_le_of_lt (Nat.le_of_eq hlast) h.last
  fadeFrom := Nat.lt_of_le_of_lt (Nat.le_of_eq hfrom) h.fadeFrom
  fadeMs := Nat.lt_of_le_of_lt (Nat.le_of_eq hms) h.fadeMs
  follows := h.follows
  idle := fun hnone => hms.trans (h.idle hnone)
  fading := fun tr htr => (h.fading tr htr).kept hpat (Nat.le_refl _) hstart hfrom hms

theorem Run.Inv.wait (h : r.Inv) (ms : Nat) : Run.Inv { r with time := r.time + ms } where
  good := ⟨h.good.fits, h.good.inRange, h.good.toward⟩
  typed := h.typed
  last := h.last
  fadeFrom := h.fadeFrom
  fadeMs := h.fadeMs
  follows := fun e he =>
    ⟨Nat.le_trans (h.follows e he).1 (Nat.le_add_right _ _), (h.follows e he).2⟩
  idle := h.idle
  fading := fun tr htr => (h.fading tr htr).kept rfl (Nat.le_add_right _ _) rfl rfl rfl

/-- **Lemma (One call)**: What fits keeps the invariant. -/
theorem Run.Inv.call (h : r.Inv) {c : Call} (htyped : c.Typed) (hfits : r.CallFits d c) :
    (r.call d c).Inv := by
  cases c with
  | wait ms => exact h.wait ms
  | pause => exact h.with_anim rfl rfl rfl rfl rfl
  | resume => exact h.with_anim rfl rfl rfl rfl rfl
  | timer => exact h.draw_doStep hfits
  | tick =>
      rw [Run.call, tick]
      split
      · exact h.draw rfl (.nothing rfl rfl rfl rfl rfl) fun hnone => absurd rfl hnone
      · next hdue => exact h.draw_doStep (hfits (Nat.not_lt.mp hdue))
  | set pat =>
      obtain ⟨p, rfl, happly⟩ | ⟨err, herr, happly⟩ := animApply_cases d r.clock r.anim pat
      · have hset : set d r.clock r.anim (some p) = (.ok, { r.anim with
            pat := p
            startMs := r.clock
            lastTickMs := r.clock
            hasPattern := true
            dirty := true
            fadeMs := 0 }) := by
          rw [set, happly]
        rw [Run.call, hset]
        exact {
          good := ⟨h.good.fits, h.good.inRange, h.good.toward⟩
          typed := htyped
          last := h.last
          fadeFrom := h.fadeFrom
          fadeMs := Nat.two_pow_pos 32
          follows := h.follows
          idle := fun _ => rfl
          fading := fun tr htr => nomatch htr }
      · have hset : set d r.clock r.anim pat = (err, r.anim) := by
          rw [set, happly]
          cases err <;> first | rfl | exact absurd rfl herr
        rw [Run.call, hset]
        cases err <;> first | exact h | exact absurd rfl herr
  | setTransition pat fadeMs =>
      obtain ⟨p, rfl, happly⟩ | ⟨err, herr, happly⟩ := animApply_cases d r.clock r.anim pat
      · have hset : setTransition d r.clock r.anim (some p) fadeMs = (.ok, { r.anim with
            pat := p
            startMs := r.clock
            lastTickMs := r.clock
            hasPattern := true
            dirty := true
            fadeFrom := r.anim.lastLevel
            fadeStartMs := r.clock
            fadeMs := fadeMs }) := by
          rw [setTransition, happly]
        rw [Run.call, hset]
        exact {
          good := ⟨h.good.fits, h.good.inRange, h.good.toward⟩
          typed := htyped.1
          last := h.last
          fadeFrom := h.last
          fadeMs := htyped.2
          follows := h.follows
          idle := fun hnone => nomatch hnone
          fading := by
            rintro tr ⟨⟩
            exact ⟨rfl, Nat.le_refl _, hfits, Or.inl ⟨rfl, rfl, rfl⟩⟩ }
      · have hset : setTransition d r.clock r.anim pat fadeMs = (err, r.anim) := by
          rw [setTransition, happly]
          cases err <;> first | rfl | exact absurd rfl herr
        rw [Run.call, hset]
        cases err <;> first | exact h | exact absurd rfl herr

theorem Run.Inv.calls (h : r.Inv) {calls : List Call} (htyped : ∀ c ∈ calls, c.Typed)
    (hfits : FitsAlong d r calls) : (calls.foldl (Run.call d) r).Inv := by
  induction calls generalizing r with
  | nil => exact h
  | cons c calls ih =>
      rw [List.forall_mem_cons] at htyped
      exact ih (h.call htyped.1 hfits.1) htyped.2 hfits.2

theorem inv_start (led : σ) (time tickPeriodMs : Nat) :
    (Run.start led time tickPeriodMs).Inv where
  good := ⟨rfl, nofun, List.Pairwise.nil⟩
  typed := ⟨⟨by decide, by decide, by decide⟩, Nat.zero_le 100⟩
  last := Nat.two_pow_pos 16
  fadeFrom := Nat.two_pow_pos 16
  fadeMs := Nat.two_pow_pos 32
  follows := nofun
  idle := fun _ => rfl
  fading := nofun

/--
**Theorem (Levels in range)**: Along a run whose steps all fit, nothing overflows, every level is
in its range or on its way, and a fade moves towards its target and ends there.
-/
theorem levels_in_range (d : Driver σ) (led : σ) (time tickPeriodMs : Nat) (calls : List Call)
    (htyped : ∀ c ∈ calls, c.Typed)
    (hfits : FitsAlong d (Run.start led time tickPeriodMs) calls) :
    (calls.foldl (Run.call d) (Run.start led time tickPeriodMs)).Good :=
  ((inv_start led time tickPeriodMs).calls htyped hfits).good

end Run

/-! ## A fade that turns back -/

/-- One LED with a level, as `bb_led_pwm` drives it. -/
def pwm : Driver Nat where
  caps := 3
  count := 1
  setOn _ on _ := if on = true then 65535 else 0
  setLevel _ level _ := level
  setColor _ _ led := led
  fillColor _ led := led
  flush led := led
  level led _ := led

/-- From dark to full, looked at twice. -/
def fadeCalls (fadeMs wait wait' : Nat) : List Call :=
  [.setTransition (some (.blink 1000 100 100)) fadeMs, .wait wait, .tick, .wait wait', .tick]

theorem typed_fadeCalls {fadeMs : Nat} (h : fadeMs < 2 ^ 32) (wait wait' : Nat) :
    ∀ c ∈ fadeCalls fadeMs wait wait', c.Typed := by
  intro c hc
  simp only [fadeCalls, List.mem_cons, List.not_mem_nil, or_false] at hc
  obtain rfl | rfl | rfl | rfl | rfl := hc
  · exact ⟨⟨by decide, by decide, by decide⟩, h⟩
  · trivial
  · trivial
  · trivial
  · trivial

/-- A step in a transition towards a level fits. -/
theorem drawFits_of_transition {σ : Type} {d : Driver σ} {r : Run σ} {tr : Transition} {t : Nat}
    (htr : r.transition = some tr) (ht : r.anim.pat.target r.elapsed = some t)
    (hpat : r.anim.pat.Fits d.count r.elapsed) (hturn : r.time < tr.setAt + 2 ^ 32)
    (hfade : r.time < tr.setAt + tr.ms → FadeFits tr.recorded t tr.ms (r.time - tr.setAt)) :
    r.DrawFits d := by
  refine fun _ _ => ⟨hpat, fun _ _ tr' t' htr' ht' => ?_⟩
  rw [htr] at htr'
  rw [ht] at ht'
  cases htr'
  cases ht'
  exact ⟨hturn, hfade⟩

/-- A fade of a second fits. -/
theorem fitsAlong_fadeCalls : FitsAlong pwm (Run.start 0 0 20) (fadeCalls 1000 500 600) := by
  have hpat : 1000 * 100 < 2 ^ 32 := by decide
  have hhalf : FadeFits 0 65535 1000 500 := by unfold FadeFits; decide
  refine ⟨fun _ => by decide, trivial, fun _ => ?_, trivial, fun _ => ?_, trivial⟩
  · exact drawFits_of_transition rfl (by decide) hpat (by decide) fun _ => hhalf
  · exact drawFits_of_transition (t := 65535) rfl (by decide) hpat (by decide) fun hlt =>
      absurd hlt (by decide)

/-- The levels of a fade of a second. -/
theorem levels_in_range_second :
    ((fadeCalls 1000 500 600).foldl (Run.call pwm) (Run.start 0 0 20)).Good :=
  levels_in_range pwm 0 0 20 (fadeCalls 1000 500 600) (typed_fadeCalls (by decide) 500 600)
    fitsAlong_fadeCalls

/-- **Counterexample**: A fade of a minute overflows after 33 seconds, and gets darker. -/
theorem long_fade_turns_back :
    (∀ c ∈ fadeCalls 60000 32768 232, c.Typed) ∧
      ((fadeCalls 60000 32768 232).foldl (Run.call pwm) (Run.start 0 0 20)).fits = false ∧
      ((fadeCalls 60000 32768 232).foldl (Run.call pwm) (Run.start 0 0 20)).emissions.map
        Emission.level = [35790, 29998] ∧
      ¬ ((fadeCalls 60000 32768 232).foldl (Run.call pwm) (Run.start 0 0 20)).emissions.Pairwise
        Emission.Toward := by
  refine ⟨typed_fadeCalls (by decide) 32768 232, by decide, by decide, fun h => ?_⟩
  obtain ⟨hfirst, _⟩ := List.pairwise_cons.mp h
  have htoward := hfirst _ (List.mem_singleton_self _) _ 65535 rfl rfl (by decide) (by decide)
  exact absurd (Set.mem_uIcc.mp htoward) (by decide)

end LedAnim
end Breadboard
