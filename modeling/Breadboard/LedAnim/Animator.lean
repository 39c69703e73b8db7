import Breadboard.Core.Basics

/-!
# bb_led_anim - the animator

A pattern is stepped by a clock of milliseconds in 32 bits; the brightness patterns compute a
level of 16 bits, and a transition fades from the last level to the one of the new pattern.  Every
product, and the sums that are not bounded by their operands' types, say whether they fit.

The LEDs are a parameter: what the calls of `bb_led` do to them, and the level each of them
shows.  Log lines, the creation of the timer and what a failing LED call returns are left out.
-/

namespace Breadboard
namespace LedAnim

/-! ## Arithmetic -/

/-- A value, and whether what it was computed from fits its types. -/
structure Checked (α : Type) where
  val : α
  fits : Bool

instance : Monad Checked where
  pure a := ⟨a, true⟩
  bind c f := ⟨(f c.val).val, c.fits && (f c.val).fits⟩

/-- A product of two `uint32_t`. -/
def mulU32 (a b : Nat) : Checked Nat :=
  ⟨a * b % 2 ^ 32, decide (a * b < 2 ^ 32)⟩

/-- A sum of two `uint32_t`. -/
def addU32 (a b : Nat) : Checked Nat :=
  ⟨(a + b) % 2 ^ 32, decide (a + b < 2 ^ 32)⟩

/-- A difference of two clock readings, which wraps by intent. -/
def subU32 (a b : Nat) : Nat :=
  (a + 2 ^ 32 - b) % 2 ^ 32

/-- A `uint32_t` as an `int32_t`. -/
def toI32 (a : Nat) : Int :=
  if a < 2 ^ 31 then a else (a : Int) - 2 ^ 32

/-- A product of two `int32_t`. -/
def mulI32 (a b : Int) : Checked Int :=
  ⟨(a * b).bmod (2 ^ 32), decide (-2 ^ 31 ≤ a * b ∧ a * b < 2 ^ 31)⟩

/-! ## The LEDs -/

/-- `BB_LED_CAP_ONOFF`. -/
def capOnoff : Nat := 1

/-- `BB_LED_CAP_BRIGHTNESS`. -/
def capBrightness : Nat := 2

/-- `BB_LED_CAP_RGB`. -/
def capRgb : Nat := 4

/-- A colour. -/
structure Color where
  r : Nat
  g : Nat
  b : Nat
  deriving Repr, DecidableEq

/-- The LEDs behind a handle, with the level that each of them shows. -/
structure Driver (σ : Type) where
  caps : Nat
  count : Nat
  setOn : Nat → Bool → σ → σ
  setLevel : Nat → Nat → σ → σ
  setColor : Nat → Color → σ → σ
  fillColor : Color → σ → σ
  flush : σ → σ
  level : σ → Nat → Nat

variable {σ : Type}

/-- The loop that sets every LED to a level. -/
def Driver.setLevels (d : Driver σ) (level : Nat) (led : σ) : σ :=
  (List.range d.count).foldl (fun led i => d.setLevel i level led) led

/-- The loop that switches every LED. -/
def Driver.setOns (d : Driver σ) (on : Bool) (led : σ) : σ :=
  (List.range d.count).foldl (fun led i => d.setOn i on led) led

/-- The levels that the LEDs show. -/
def Driver.levels (d : Driver σ) (led : σ) : List Nat :=
  (List.range d.count).map (d.level led)

/-! ## Patterns -/

/-- `bb_led_anim_pattern_t`. -/
inductive Pattern where
  | solid (color : Color) (brightnessPct : Nat)
  | blink (periodMs dutyPct levelPct : Nat)
  | breathe (periodMs minPct maxPct : Nat)
  | pulse (periodMs peakPct decayMs : Nat)
  | colorCycle (periodMs satPct valPct : Nat)
  | chase (periodMs : Nat) (color : Color) (tailLen : Nat)
  deriving Repr, DecidableEq

/-- A period, or its default where it is zero. -/
def periodOr (periodMs default : Nat) : Nat :=
  if periodMs = 0 then default else periodMs

/-- `BB_LED_ANIM_BLINK_PERIOD_DEFAULT_MS`. -/
def blinkPeriodDefaultMs : Nat := 1000

/-- `BB_LED_ANIM_BREATHE_PERIOD_DEFAULT_MS`. -/
def breathePeriodDefaultMs : Nat := 2000

/-- `BB_LED_ANIM_PULSE_PERIOD_DEFAULT_MS`. -/
def pulsePeriodDefaultMs : Nat := 1000

/-- `BB_LED_ANIM_COLOR_CYCLE_PERIOD_DEFAULT_MS`. -/
def colorCyclePeriodDefaultMs : Nat := 3000

/-- `BB_LED_ANIM_CHASE_PERIOD_DEFAULT_MS`. -/
def chasePeriodDefaultMs : Nat := 1000

/-- `BB_LED_ANIM_TICK_DEFAULT_MS`. -/
def tickDefaultMs : Nat := 20

/-- `s_sin8`. -/
def sSin8 : List UInt8 :=
  [128, 131, 134, 137, 140, 143, 146, 149, 152, 155, 158, 162, 165, 167, 170, 173, 176, 179, 182,
   185, 188, 190, 193, 196, 198, 201, 203, 206, 208, 211, 213, 215, 218, 220, 222, 224, 226, 228,
   230, 232, 234, 235, 237, 238, 240, 241, 243, 244, 245, 246, 247, 248, 249, 250, 250, 251, 252,
   252, 253, 253, 253, 254, 254, 254, 254, 254, 254, 254, 253, 253, 253, 252, 252, 251, 250, 250,
   249, 248, 247, 246, 245, 244, 243, 241, 240, 238, 237, 235, 234, 232, 230, 228, 226, 224, 222,
   220, 218, 215, 213, 211, 208, 206, 203, 201, 198, 196, 193, 190, 188, 185, 182, 179, 176, 173,
   170, 167, 165, 162, 158, 155, 152, 149, 146, 143, 140, 137, 134, 131, 128, 124, 121, 118, 115,
   112, 109, 106, 103, 100, 97, 93, 90, 88, 85, 82, 79, 76, 73, 70, 67, 65, 62, 59, 57, 54, 52, 49,
   47, 44, 42, 40, 37, 35, 33, 31, 29, 27, 25, 23, 21, 20, 18, 17, 15, 14, 12, 11, 10, 9, 8, 7, 6,
   5, 5, 4, 3, 3, 2, 2, 2, 1, 1, 1, 1, 1, 1, 1, 2, 2, 2, 3, 3, 4, 5, 5, 6, 7, 8, 9, 10, 11, 12, 14,
   15, 17, 18, 20, 21, 23, 25, 27, 29, 31, 33, 35, 37, 40, 42, 44, 47, 49, 52, 54, 57, 59, 62, 65,
   67, 70, 73, 76, 79, 82, 85, 88, 90, 93, 97, 100, 103, 106, 109, 112, 115, 118, 121, 124]

/-- `sin8`. -/
def sin8 (phase : Nat) : Nat :=
  (sSin8.getD phase 0).toNat

/-- `hsv_to_rgb`. -/
def hsvToRgb (h s v : Nat) : Checked Color :=
  if s = 0 then pure ⟨v, v, v⟩
  else do
    let hi := h / 60 % 6
    let f := (← mulU32 (h % 60) 255) / 60
    let p := (← mulU32 v (255 - s)) / 255 % 256
    let q := (← mulU32 v (255 - (← mulU32 f s) / 255)) / 255 % 256
    let t := (← mulU32 v (255 - (← mulU32 (255 - f) s) / 255)) / 255 % 256
    match hi with
    | 0 => pure ⟨v, t, p⟩
    | 1 => pure ⟨q, v, p⟩
    | 2 => pure ⟨p, v, t⟩
    | 3 => pure ⟨p, q, v⟩
    | 4 => pure ⟨t, p, v⟩
    | _ => pure ⟨v, p, q⟩

/-- A percentage as a level of 16 bits. -/
def pctLevel (pct : Nat) : Checked Nat := do
  return (← mulU32 pct 65535) / 100 % 2 ^ 16

/-! ## The animator -/

/-- `struct bb_led_anim`, without the handles. -/
structure Anim where
  pat : Pattern
  tickPeriodMs : Nat
  startMs : Nat
  lastTickMs : Nat
  paused : Bool
  hasPattern : Bool
  dirty : Bool
  lastLevel : Nat
  fadeMs : Nat
  fadeStartMs : Nat
  fadeFrom : Nat
  deriving Repr, DecidableEq

/-- What a step leaves, and the level it gave to the LEDs. -/
structure Stepped (σ : Type) where
  anim : Anim
  led : σ
  level : Option Nat

/-- A level is given to the LEDs and recorded. -/
def emitted (d : Driver σ) (h : Anim) (led : σ) (out : Nat) : Stepped σ where
  anim := { h with lastLevel := out }
  led := d.flush (d.setLevels out led)
  level := some out

/-- `emit_level` at clock reading `now`. -/
def emitLevel (d : Driver σ) (now : Nat) (h : Anim) (led : σ) (target : Nat) :
    Checked (Stepped σ) :=
  let fe := subU32 now h.fadeStartMs
  if h.fadeMs = 0 then pure (emitted d h led target)
  -- the fade is complete
  else if h.fadeMs ≤ fe then pure (emitted d { h with fadeMs := 0 } led target)
  else do
    let span := (target : Int) - h.fadeFrom
    let product ← mulI32 span (toI32 fe)
    let out := ((h.fadeFrom + product.tdiv (toI32 h.fadeMs)) % 2 ^ 16).toNat
    pure (emitted d h led out)

/-- `step_solid`: an LED with brightness is not switched as well. -/
def stepSolid (d : Driver σ) (h : Anim) (led : σ) (color : Color) (brightnessPct : Nat) :
    Checked (Stepped σ) :=
  if h.dirty = false then pure ⟨h, led, none⟩
  else
    let led := if d.caps &&& capRgb ≠ 0 then d.fillColor color led else led
    let h := { h with dirty := false }
    if d.caps &&& capBrightness ≠ 0 then do
      let lvl ← pctLevel brightnessPct
      pure (emitted d h led lvl)
    else if d.caps &&& capOnoff ≠ 0 then pure ⟨h, d.flush (d.setOns true led), none⟩
    else pure ⟨h, d.flush led, none⟩

/-- Whether a blinking LED is on. -/
def blinkOn (elapsed periodMs dutyPct : Nat) : Checked Bool := do
  let period := periodOr periodMs blinkPeriodDefaultMs
  let phase := elapsed % period
  return decide (phase < (← mulU32 period dutyPct) / 100)

/-- `step_blink`; without a level it is on and off. -/
def stepBlink (d : Driver σ) (now : Nat) (h : Anim) (led : σ) (elapsed : Nat)
    (periodMs dutyPct levelPct : Nat) : Checked (Stepped σ) := do
  let on ← blinkOn elapsed periodMs dutyPct
  if levelPct ≠ 0 then
    let level ← if on = true then pctLevel levelPct else pure 0
    emitLevel d now h led level
  else pure ⟨h, d.flush (d.setOns on led), none⟩

/-- The level of a breathing LED. -/
def breatheLevel (elapsed periodMs minPct maxPct : Nat) : Checked Nat := do
  let period := periodOr periodMs breathePeriodDefaultMs
  let phaseMs := elapsed % period
  let sinIdx := (← mulU32 phaseMs 256) / period % 256
  let s := sin8 sinIdx
  let minLevel ← pctLevel minPct
  let maxLevel ← pctLevel maxPct
  let range := if minLevel < maxLevel then maxLevel - minLevel else 0
  return (minLevel + (← mulU32 s range) / 255) % 2 ^ 16

/-- `step_breathe`. -/
def stepBreathe (d : Driver σ) (now : Nat) (h : Anim) (led : σ) (elapsed : Nat)
    (periodMs minPct maxPct : Nat) : Checked (Stepped σ) := do
  let level ← breatheLevel elapsed periodMs minPct maxPct
  emitLevel d now h led level

/-- The ramp of a pulse, which goes before the decay. -/
def rampMs (period decay : Nat) : Nat :=
  if decay < period then (period - decay) / 2 else 1

/-- The level of a pulsing LED. -/
def pulseLevel (elapsed periodMs peakPct decayMs : Nat) : Checked Nat := do
  let period := periodOr periodMs pulsePeriodDefaultMs
  let decay := periodOr decayMs (period / 2)
  let phase := elapsed % period
  let ramp := rampMs period decay
  let peak ← pctLevel peakPct
  if phase < ramp then
    return (← mulU32 phase peak) / ramp % 2 ^ 16
  else if phase < (← addU32 ramp decay) then
    return (← mulU32 peak (decay - (phase - ramp))) / decay % 2 ^ 16
  else return 0

/-- `step_pulse`. -/
def stepPulse (d : Driver σ) (now : Nat) (h : Anim) (led : σ) (elapsed : Nat)
    (periodMs peakPct decayMs : Nat) : Checked (Stepped σ) := do
  let level ← pulseLevel elapsed periodMs peakPct decayMs
  emitLevel d now h led level

/-- `step_color_cycle`. -/
def stepColorCycle (d : Driver σ) (h : Anim) (led : σ) (elapsed : Nat)
    (periodMs satPct valPct : Nat) : Checked (Stepped σ) := do
  let period := periodOr periodMs colorCyclePeriodDefaultMs
  let hue := (← mulU32 (elapsed % period) 360) / period % 2 ^ 16
  let sat := (← mulU32 satPct 255) / 100 % 256
  let val := (← mulU32 valPct 255) / 100 % 256
  let color ← hsvToRgb hue sat val
  pure ⟨h, d.flush (d.fillColor color led), none⟩

/-- The colour of LED `i` behind the head of a chase. -/
def chaseColor (color : Color) (cnt head tail i : Nat) : Checked Color :=
  let dist := (cnt + head - i) % cnt % 2 ^ 16
  if dist = 0 then pure color
  else if dist ≤ tail then do
    let fade := (← mulU32 (tail - dist + 1) 255) / (tail + 1) % 256
    let r := (← mulU32 color.r fade) / 255 % 256
    let g := (← mulU32 color.g fade) / 255 % 256
    let b := (← mulU32 color.b fade) / 255 % 256
    pure ⟨r, g, b⟩
  else pure ⟨0, 0, 0⟩

/-- `step_chase`. -/
def stepChase (d : Driver σ) (h : Anim) (led : σ) (elapsed : Nat)
    (periodMs : Nat) (color : Color) (tailLen : Nat) : Checked (Stepped σ) := do
  let period := periodOr periodMs chasePeriodDefaultMs
  let head := (← mulU32 (elapsed % period) d.count) / period % 2 ^ 16
  let tail := if tailLen = 0 then 3 else tailLen
  let led ← (List.range d.count).foldlM (fun led i => do
    let c ← chaseColor color d.count head tail i
    pure (d.setColor i c led)) led
  pure ⟨h, d.flush led, none⟩

/-- The step of the pattern that is set. -/
def stepPattern (d : Driver σ) (now : Nat) (h : Anim) (led : σ) : Checked (Stepped σ) :=
  let elapsed := subU32 now h.startMs
  match h.pat with
  | .solid color pct => stepSolid d h led color pct
  | .blink period duty level => stepBlink d now h led elapsed period duty level
  | .breathe period lo hi => stepBreathe d now h led elapsed period lo hi
  | .pulse period peak decay => stepPulse d now h led elapsed period peak decay
  | .colorCycle period sat val => stepColorCycle d h led elapsed period sat val
  | .chase period color tail => stepChase d h led elapsed period color tail

/-- `do_step`, which the timer calls. -/
def doStep (d : Driver σ) (now : Nat) (h : Anim) (led : σ) : Checked (Stepped σ) :=
  if h.paused = true ∨ h.hasPattern = false then pure ⟨h, led, none⟩
  else do
    let s ← stepPattern d now h led
    pure { s with anim := { s.anim with lastTickMs := now } }

/-- `bb_led_anim_tick`. -/
def tick (d : Driver σ) (now : Nat) (h : Anim) (led : σ) : Checked (Stepped σ) :=
  if subU32 now h.lastTickMs < h.tickPeriodMs then pure ⟨h, led, none⟩
  else doStep d now h led

/-- `bb_led_anim_attach`. -/
def attach (now tickPeriodMs : Nat) : Anim where
  pat := .solid ⟨0, 0, 0⟩ 0
  tickPeriodMs := periodOr tickPeriodMs tickDefaultMs
  startMs := now
  lastTickMs := now
  paused := false
  hasPattern := false
  dirty := false
  lastLevel := 0
  fadeMs := 0
  fadeStartMs := 0
  fadeFrom := 0

/-- `pattern_required_caps`. -/
def patternRequiredCaps (pat : Pattern) (ledCount : Nat) : Nat :=
  match pat with
  | .solid _ _ => capOnoff
  | .blink _ _ levelPct => if levelPct ≠ 0 then capBrightness else capOnoff
  | .breathe _ _ _ | .pulse _ _ _ => capBrightness
  | .colorCycle _ _ _ => capRgb
  | .chase _ _ _ => if 1 < ledCount then capRgb else 255

/-- A chase, which needs more than one LED. -/
def Pattern.isChase : Pattern → Bool
  | .chase _ _ _ => true
  | _ => false

/-- `anim_apply`. -/
def animApply (d : Driver σ) (now : Nat) (h : Anim) (pat : Option Pattern) : BbErr × Anim :=
  match pat with
  | none => (.invalidArg, h)
  | some pat =>
      let need := patternRequiredCaps pat d.count
      if pat.isChase = true ∧ d.count ≤ 1 then (.unsupported, h)
      else if d.caps &&& need ≠ need then (.unsupported, h)
      else
        (.ok, { h with
          pat := pat
          startMs := now
          lastTickMs := now
          hasPattern := true
          dirty := true })

/-- `bb_led_anim_set`: the new pattern is there at once. -/
def set (d : Driver σ) (now : Nat) (h : Anim) (pat : Option Pattern) : BbErr × Anim :=
  match animApply d now h pat with
  | (.ok, h) => (.ok, { h with fadeMs := 0 })
  | (err, h) => (err, h)

/-- `bb_led_anim_set_transition`: from the last level that was recorded. -/
def setTransition (d : Driver σ) (now : Nat) (h : Anim) (pat : Option Pattern) (fadeMs : Nat) :
    BbErr × Anim :=
  match animApply d now h pat with
  | (.ok, h') =>
      (.ok, { h' with fadeFrom := h.lastLevel, fadeStartMs := h'.startMs, fadeMs := fadeMs })
  | (err, h') => (err, h')

/-- `bb_led_anim_pause`. -/
def pause (h : Anim) : Anim :=
  { h with paused := true }

/-- `bb_led_anim_resume`. -/
def resume (h : Anim) : Anim :=
  { h with paused := false }

end LedAnim
end Breadboard
