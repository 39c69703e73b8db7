import Breadboard.Foundations.JsonTokens
import Breadboard.SerializeJson.Scan
import Mathlib.Order.Nat

/-!
# bb_serialize_json_scan - escapes, numbers and literals

The token-level functions of the scanner, stated with the grammar's token machines: the
16-bit code unit arithmetic and the UTF-8 encoder, the escape phases, and the number
phases.

Main results:

- Theorem `utf8Encode_eq`: the encoder writes the UTF-8 encoding of a code point.
- Theorem `numStep_spec`: the phase-transition table is the number machine.
-/

namespace Breadboard
namespace SerializeJson

open Foundations
open Foundations.JsonText (Esc NumPlace IsHigh IsLow strStep utf8 pairPoint hexDigit? shortEscape?)

/-! ## Bytes -/

theorem isWs_eq (c : UInt8) : isWs c = JsonText.isWs c := rfl

theorem isDigit_iff (c : UInt8) : (48 ≤ c ∧ c ≤ 57) ↔ Decimal.isDigit c = true := by
  simp only [Decimal.isDigit, decide_eq_true_eq, UInt8.le_iff_toNat_le]
  rfl

theorem simpleEscape_eq (c : UInt8) : simpleEscape c = shortEscape? c := rfl

/-- `hex_val` is the value of a hexadecimal digit. -/
theorem hexVal_cases (c : UInt8) :
    (hexVal c = none ∧ hexDigit? c = none) ∨
      ∃ hv, hexVal c = some hv ∧ hexDigit? c = some hv.toNat ∧ hv.toNat < 16 := by
  have h : ∀ n < 256, (hexVal (UInt8.ofNat n)).map UInt8.toNat = hexDigit? (UInt8.ofNat n) ∧
      (hexVal (UInt8.ofNat n)).all (fun hv => hv.toNat < 16) = true := by decide +kernel
  have hc := h c.toNat c.toNat_lt
  rw [UInt8.ofNat_toNat] at hc
  cases hv : hexVal c with
  | none => exact .inl ⟨rfl, by simpa [hv] using hc.1.symm⟩
  | some hv' => exact .inr ⟨hv', rfl, by simpa [hv, eq_comm] using hc⟩

/-! ## Code units and UTF-8 -/

/-- One more hexadecimal digit of a code unit that has room for it. -/
theorem toNat_unit_digit {unit : UInt16} {hv : UInt8} (hunit : unit.toNat < 4096)
    (hhv : hv.toNat < 16) :
    ((unit <<< 4) ||| hv.toUInt16).toNat = unit.toNat * 16 + hv.toNat := by
  have hshift : (unit <<< 4).toNat = unit.toNat <<< 4 := by
    rw [UInt16.toNat_shiftLeft]
    apply Nat.mod_eq_of_lt
    rw [show (4 : UInt16).toNat % 16 = 4 from rfl, Nat.shiftLeft_eq]
    omega
  rw [UInt16.toNat_or, hshift, UInt8.toNat_toUInt16, ← Nat.shiftLeft_add_eq_or_of_lt (i := 4) hhv,
    Nat.shiftLeft_eq]

/-- A marker with free low bits, or-ed with a value that fits them. -/
theorem toUInt8_marker {m x : UInt32} {i k : Nat} (hm : m.toNat = 2 ^ i * k) (hx : x.toNat < 2 ^ i) :
    UInt32.toUInt8 (m ||| x) = UInt8.ofNat (m.toNat + x.toNat) := by
  apply UInt8.toNat_inj.mp
  rw [UInt32.toNat_toUInt8, UInt32.toNat_or, hm, ← Nat.two_pow_add_eq_or_of_lt hx, UInt8.toNat_ofNat']

theorem toNat_low_six (cp : UInt32) : (cp &&& 0x3F).toNat = cp.toNat % 64 := by
  rw [UInt32.toNat_and]
  exact Nat.and_two_pow_sub_one_eq_mod cp.toNat 6

theorem toNat_shiftRight_six (cp : UInt32) : (cp >>> 6).toNat = cp.toNat / 64 := by
  rw [UInt32.toNat_shiftRight]
  exact Nat.shiftRight_eq_div_pow _ 6

theorem toNat_shiftRight_twelve (cp : UInt32) : (cp >>> 12).toNat = cp.toNat / 4096 := by
  rw [UInt32.toNat_shiftRight]
  exact Nat.shiftRight_eq_div_pow _ 12

theorem toNat_shiftRight_eighteen (cp : UInt32) : (cp >>> 18).toNat = cp.toNat / 262144 := by
  rw [UInt32.toNat_shiftRight]
  exact Nat.shiftRight_eq_div_pow _ 18

/-- A continuation byte. -/
theorem toUInt8_continuation (x : UInt32) :
    UInt32.toUInt8 ((0x80 : UInt32) ||| (x &&& 0x3F)) = UInt8.ofNat (128 + x.toNat % 64) := by
  rw [toUInt8_marker (i := 7) (k := 1) rfl, toNat_low_six]
  · rfl
  · rw [toNat_low_six]
    omega

/-- The encoder writes the UTF-8 encoding of a code point. -/
theorem utf8Encode_eq {cp : UInt32} (hcp : cp.toNat < 1114112) : utf8Encode cp = utf8 cp.toNat := by
  have hle7 : cp ≤ 0x7F ↔ cp.toNat ≤ 127 := UInt32.le_iff_toNat_le
  have hle11 : cp ≤ 0x7FF ↔ cp.toNat ≤ 2047 := UInt32.le_iff_toNat_le
  have hle16 : cp ≤ 0xFFFF ↔ cp.toNat ≤ 65535 := UInt32.le_iff_toNat_le
  unfold utf8Encode utf8
  simp only [hle7, hle11, hle16, toUInt8_continuation]
  split_ifs with h7 h11 h16
  · exact congrArg (fun b => [b]) (UInt8.toNat_inj.mp (by simp))
  · rw [toUInt8_marker (i := 6) (k := 3) rfl (by rw [toNat_shiftRight_six]; omega),
      toNat_shiftRight_six]
    rfl
  · rw [toUInt8_marker (i := 5) (k := 7) rfl (by rw [toNat_shiftRight_twelve]; omega),
      toNat_shiftRight_twelve, toNat_shiftRight_six]
    rfl
  · rw [toUInt8_marker (i := 4) (k := 15) rfl (by rw [toNat_shiftRight_eighteen]; omega),
      toNat_shiftRight_eighteen, toNat_shiftRight_twelve, toNat_shiftRight_six]
    rfl

/-- The code point of a surrogate pair, as the scanner computes it. -/
theorem toNat_pair {high low : UInt16} (hhigh : IsHigh high.toNat) (hlow : IsLow low.toNat) :
    ((0x10000 : UInt32) + ((high.toUInt32 - 0xD800) <<< 10) + (low.toUInt32 - 0xDC00)).toNat =
      pairPoint high.toNat low.toNat := by
  unfold IsHigh at hhigh
  unfold IsLow at hlow
  have hsub : (high.toUInt32 - 0xD800).toNat = high.toNat - 55296 := by
    have hle : (0xD800 : UInt32) ≤ high.toUInt32 := UInt32.le_iff_toNat_le.mpr hhigh.1
    rw [UInt32.toNat_sub_of_le _ _ hle]
    rfl
  have hsub' : (low.toUInt32 - 0xDC00).toNat = low.toNat - 56320 := by
    have hle : (0xDC00 : UInt32) ≤ low.toUInt32 := UInt32.le_iff_toNat_le.mpr hlow.1
    rw [UInt32.toNat_sub_of_le _ _ hle]
    rfl
  have hshift : ((high.toUInt32 - 0xD800) <<< 10).toNat = (high.toNat - 55296) * 1024 := by
    rw [UInt32.toNat_shiftLeft, hsub, show (10 : UInt32).toNat % 32 = 10 from rfl,
      Nat.shiftLeft_eq]
    apply Nat.mod_eq_of_lt
    omega
  rw [UInt32.toNat_add, UInt32.toNat_add, hshift, hsub']
  have hbase : (0x10000 : UInt32).toNat = 65536 := by decide
  generalize (0x10000 : UInt32).toNat = base at hbase
  unfold pairPoint
  omega

theorem pairPoint_lt {high low : Nat} (hhigh : IsHigh high) (hlow : IsLow low) :
    pairPoint high low < 1114112 := by
  unfold IsHigh at hhigh
  unfold IsLow at hlow
  unfold pairPoint
  omega

/-! ## Escapes -/

/-- Where an escape phase stands in a string, given the two code units. -/
def EscPhase.esc (unit high : UInt16) : EscPhase → Esc
  | .none => .plain
  | .backslash => .backslash
  | .u1 => .unit 0 unit.toNat
  | .u2 => .unit 1 unit.toNat
  | .u3 => .unit 2 unit.toNat
  | .u4 => .unit 3 unit.toNat
  | .lowBackslash => .lowBackslash high.toNat
  | .lowU => .lowU high.toNat
  | .lowU1 => .lowUnit high.toNat 0 unit.toNat
  | .lowU2 => .lowUnit high.toNat 1 unit.toNat
  | .lowU3 => .lowUnit high.toNat 2 unit.toNat
  | .lowU4 => .lowUnit high.toNat 3 unit.toNat

/-- A code unit has room for the digits still to come, and a stashed surrogate is a high one. -/
def EscPhase.Ok (unit high : UInt16) : EscPhase → Prop
  | .none => True
  | .backslash => True
  | .u1 => unit.toNat < 1
  | .u2 => unit.toNat < 16
  | .u3 => unit.toNat < 256
  | .u4 => unit.toNat < 4096
  | .lowBackslash => IsHigh high.toNat
  | .lowU => IsHigh high.toNat
  | .lowU1 => IsHigh high.toNat ∧ unit.toNat < 1
  | .lowU2 => IsHigh high.toNat ∧ unit.toNat < 16
  | .lowU3 => IsHigh high.toNat ∧ unit.toNat < 256
  | .lowU4 => IsHigh high.toNat ∧ unit.toNat < 4096

/-- Where a scan state stands in a string. -/
def ScanState.esc (s : ScanState) : Esc := s.escPhase.esc s.escCodeUnit s.escHighSurrogate

def ScanState.EscOk (s : ScanState) : Prop := s.escPhase.Ok s.escCodeUnit s.escHighSurrogate

/-- The same scan state but for its escape fields. -/
def ScanState.withEsc (s : ScanState) (p : EscPhase) (unit high : UInt16) : ScanState :=
  { s with escPhase := p, escCodeUnit := unit, escHighSurrogate := high }

/-- What an escape byte does to the string. -/
structure EscStep (s : ScanState) (c : UInt8) (s' : ScanState) (out : Bytes) : Prop where
  step : strStep s.esc c = some (some (s'.esc, out))
  escOk : s'.EscOk
  plain : out ≠ [] → s'.escPhase = .none
  frame : ∃ p unit high, s' = s.withEsc p unit high

/-- An escape byte that decodes nothing yet. -/
theorem EscStep.silent {s : ScanState} {c : UInt8} (p : EscPhase) (unit high : UInt16)
    (hstep : strStep s.esc c = some (some (p.esc unit high, []))) (hok : p.Ok unit high) :
    EscStep s c (s.withEsc p unit high) [] where
  step := hstep
  escOk := hok
  plain := fun h => absurd rfl h
  frame := ⟨p, unit, high, rfl⟩

/-- An escape byte that completes the escape. -/
theorem EscStep.done {s : ScanState} {c : UInt8} {out : Bytes} (unit : UInt16)
    (hstep : strStep s.esc c = some (some (.plain, out))) :
    EscStep s c (s.withEsc .none unit s.escHighSurrogate) out where
  step := hstep
  escOk := trivial
  plain := fun _ => rfl
  frame := ⟨.none, unit, s.escHighSurrogate, rfl⟩

theorem isHigh_iff (unit : UInt16) : (0xD800 ≤ unit ∧ unit ≤ 0xDBFF) ↔ IsHigh unit.toNat := by
  simp only [UInt16.le_iff_toNat_le, IsHigh]
  rfl

theorem isLow_iff (unit : UInt16) : (0xDC00 ≤ unit ∧ unit ≤ 0xDFFF) ↔ IsLow unit.toNat := by
  simp only [UInt16.le_iff_toNat_le, IsLow]
  rfl

theorem not_isLow_iff (unit : UInt16) : (unit < 0xDC00 ∨ 0xDFFF < unit) ↔ ¬ IsLow unit.toNat := by
  rw [← isLow_iff]
  simp only [UInt16.le_iff_toNat_le, UInt16.lt_iff_toNat_lt]
  omega

/-- The byte after a backslash. -/
theorem scanEscapeByte_backslash {s : ScanState} (hphase : s.escPhase = .backslash) (c : UInt8) :
    match scanEscapeByte s c with
    | .error _ => strStep s.esc c = none
    | .ok (s', out) => EscStep s c s' out := by
  have hesc : s.esc = .backslash := by rw [ScanState.esc, hphase, EscPhase.esc]
  simp only [scanEscapeByte, hphase, simpleEscape_eq]
  cases hshort : shortEscape? c with
  | some b =>
    apply EscStep.done
    simp [hesc, strStep, hshort]
  | none =>
    by_cases hu : c = 117
    · subst hu
      simp only [if_true]
      apply EscStep.silent .u1 0 s.escHighSurrogate
      · simp [hesc, strStep, hshort, EscPhase.esc]
      · simp [EscPhase.Ok]
    · simp [hesc, strStep, hshort, hu]

/-- A code unit with fewer than three digits has room for another. -/
theorem room_lt {unit : UInt16} {digits : Nat} (hunit : unit.toNat < 16 ^ digits)
    (hdigits : digits < 3) : unit.toNat < 4096 := by
  calc unit.toNat < 16 ^ digits := hunit
    _ ≤ 16 ^ 3 := Nat.pow_le_pow_right (by decide) (by omega)

/-- A digit of a code unit that is not its last, as a silent step to the next phase. -/
theorem EscStep.digit {s : ScanState} {c hv : UInt8} {digits : Nat}
    (hroom : s.escCodeUnit.toNat < 16 ^ digits) (hdigits : digits < 3) (hlt : hv.toNat < 16)
    (hstep : strStep s.esc c =
      some (some (s.escPhase.succ.esc (s.escCodeUnit <<< 4 ||| hv.toUInt16) s.escHighSurrogate, [])))
    (hok : ∀ unit : UInt16, unit.toNat < 16 ^ (digits + 1) →
      s.escPhase.succ.Ok unit s.escHighSurrogate) :
    EscStep s c (s.withEsc s.escPhase.succ (s.escCodeUnit <<< 4 ||| hv.toUInt16) s.escHighSurrogate)
      [] := by
  apply EscStep.silent _ _ _ hstep
  apply hok
  rw [toNat_unit_digit (room_lt hroom hdigits) hlt, Nat.pow_succ]
  omega

/-- A digit of the first code unit, not its last. -/
theorem scanEscapeByte_unit {s : ScanState} {digits : Nat}
    (hphase : s.escPhase = .u1 ∧ digits = 0 ∨ s.escPhase = .u2 ∧ digits = 1 ∨
      s.escPhase = .u3 ∧ digits = 2) (hok : s.EscOk) (c : UInt8) :
    match scanEscapeByte s c with
    | .error _ => strStep s.esc c = none
    | .ok (s', out) => EscStep s c s' out := by
  rcases hexVal_cases c with ⟨hval, hd⟩ | ⟨hv, hval, hd, hlt⟩
  · rcases hphase with ⟨h, rfl⟩ | ⟨h, rfl⟩ | ⟨h, rfl⟩ <;>
      simp [scanEscapeByte, h, hval, ScanState.esc, EscPhase.esc, strStep, hd]
  · have hstep : scanEscapeByte s c = .ok (s.withEsc s.escPhase.succ
        (s.escCodeUnit <<< 4 ||| hv.toUInt16) s.escHighSurrogate, []) := by
      rcases hphase with ⟨h, rfl⟩ | ⟨h, rfl⟩ | ⟨h, rfl⟩ <;>
        simp [scanEscapeByte, h, hval, ScanState.withEsc]
    have hesc : s.esc = .unit digits s.escCodeUnit.toNat := by
      rcases hphase with ⟨h, rfl⟩ | ⟨h, rfl⟩ | ⟨h, rfl⟩ <;> rw [ScanState.esc, h, EscPhase.esc]
    have hesc' : ∀ unit high, s.escPhase.succ.esc unit high = .unit (digits + 1) unit.toNat := by
      rcases hphase with ⟨h, rfl⟩ | ⟨h, rfl⟩ | ⟨h, rfl⟩ <;> rw [h] <;> exact fun _ _ => rfl
    have hroom : s.escCodeUnit.toNat < 16 ^ digits := by
      rcases hphase with ⟨h, rfl⟩ | ⟨h, rfl⟩ | ⟨h, rfl⟩ <;>
        · rw [ScanState.EscOk, h] at hok
          exact hok
    have hok' : ∀ unit : UInt16, unit.toNat < 16 ^ (digits + 1) →
        s.escPhase.succ.Ok unit s.escHighSurrogate := by
      rcases hphase with ⟨h, rfl⟩ | ⟨h, rfl⟩ | ⟨h, rfl⟩ <;> rw [h] <;> exact fun _ hunit => hunit
    have hdigits : digits < 3 := by omega
    have hunit := toNat_unit_digit (room_lt hroom hdigits) hlt
    rw [hstep]
    apply EscStep.digit hroom hdigits hlt _ hok'
    simp [hesc, hesc', strStep, hd, hdigits, hunit]

/-- A digit of the second code unit, not its last. -/
theorem scanEscapeByte_lowUnit {s : ScanState} {digits : Nat}
    (hphase : s.escPhase = .lowU1 ∧ digits = 0 ∨ s.escPhase = .lowU2 ∧ digits = 1 ∨
      s.escPhase = .lowU3 ∧ digits = 2) (hok : s.EscOk) (c : UInt8) :
    match scanEscapeByte s c with
    | .error _ => strStep s.esc c = none
    | .ok (s', out) => EscStep s c s' out := by
  rcases hexVal_cases c with ⟨hval, hd⟩ | ⟨hv, hval, hd, hlt⟩
  · rcases hphase with ⟨h, rfl⟩ | ⟨h, rfl⟩ | ⟨h, rfl⟩ <;>
      simp [scanEscapeByte, h, hval, ScanState.esc, EscPhase.esc, strStep, hd]
  · have hstep : scanEscapeByte s c = .ok (s.withEsc s.escPhase.succ
        (s.escCodeUnit <<< 4 ||| hv.toUInt16) s.escHighSurrogate, []) := by
      rcases hphase with ⟨h, rfl⟩ | ⟨h, rfl⟩ | ⟨h, rfl⟩ <;>
        simp [scanEscapeByte, h, hval, ScanState.withEsc]
    have hesc : s.esc = .lowUnit s.escHighSurrogate.toNat digits s.escCodeUnit.toNat := by
      rcases hphase with ⟨h, rfl⟩ | ⟨h, rfl⟩ | ⟨h, rfl⟩ <;> rw [ScanState.esc, h, EscPhase.esc]
    have hesc' : ∀ unit high, s.escPhase.succ.esc unit high =
        .lowUnit high.toNat (digits + 1) unit.toNat := by
      rcases hphase with ⟨h, rfl⟩ | ⟨h, rfl⟩ | ⟨h, rfl⟩ <;> rw [h] <;> exact fun _ _ => rfl
    have hroom : IsHigh s.escHighSurrogate.toNat ∧ s.escCodeUnit.toNat < 16 ^ digits := by
      rcases hphase with ⟨h, rfl⟩ | ⟨h, rfl⟩ | ⟨h, rfl⟩ <;>
        · rw [ScanState.EscOk, h] at hok
          exact hok
    have hok' : ∀ unit : UInt16, unit.toNat < 16 ^ (digits + 1) →
        s.escPhase.succ.Ok unit s.escHighSurrogate := by
      rcases hphase with ⟨h, rfl⟩ | ⟨h, rfl⟩ | ⟨h, rfl⟩ <;> rw [h] <;>
        exact fun _ hunit => ⟨hroom.1, hunit⟩
    have hdigits : digits < 3 := by omega
    have hunit := toNat_unit_digit (room_lt hroom.2 hdigits) hlt
    rw [hstep]
    apply EscStep.digit hroom.2 hdigits hlt _ hok'
    simp [hesc, hesc', strStep, hd, hdigits, hunit]

/-- The last digit of the first code unit. -/
theorem scanEscapeByte_u4 {s : ScanState} (hphase : s.escPhase = .u4) (hok : s.EscOk) (c : UInt8) :
    match scanEscapeByte s c with
    | .error _ => strStep s.esc c = none
    | .ok (s', out) => EscStep s c s' out := by
  have hesc : s.esc = .unit 3 s.escCodeUnit.toNat := by rw [ScanState.esc, hphase, EscPhase.esc]
  rw [ScanState.EscOk, hphase, EscPhase.Ok] at hok
  rcases hexVal_cases c with ⟨hval, hd⟩ | ⟨hv, hval, hd, hlt⟩
  · simp [scanEscapeByte, hphase, hval, hesc, strStep, hd]
  have hunit := toNat_unit_digit hok hlt
  simp only [scanEscapeByte, hphase, hval, ne_eq, not_true_eq_false, if_false, isHigh_iff, isLow_iff]
  generalize (s.escCodeUnit <<< 4) ||| hv.toUInt16 = unit at hunit
  by_cases hhigh : IsHigh unit.toNat
  · rw [if_pos hhigh]
    apply EscStep.silent .lowBackslash unit unit
    · simp [hesc, strStep, hd, ← hunit, hhigh, EscPhase.esc]
    · exact hhigh
  rw [if_neg hhigh]
  by_cases hlow : IsLow unit.toNat
  · rw [if_pos hlow]
    simp [hesc, strStep, hd, ← hunit, hhigh, hlow]
  · rw [if_neg hlow]
    apply EscStep.done unit
    have hcp : unit.toUInt32.toNat < 1114112 := Nat.lt_trans unit.toNat_lt (by decide)
    rw [utf8Encode_eq hcp]
    simp [hesc, strStep, hd, ← hunit, hhigh, hlow]

/-- The last digit of the second code unit. -/
theorem scanEscapeByte_lowU4 {s : ScanState} (hphase : s.escPhase = .lowU4) (hok : s.EscOk)
    (c : UInt8) :
    match scanEscapeByte s c with
    | .error _ => strStep s.esc c = none
    | .ok (s', out) => EscStep s c s' out := by
  have hesc : s.esc = .lowUnit s.escHighSurrogate.toNat 3 s.escCodeUnit.toNat := by
    rw [ScanState.esc, hphase, EscPhase.esc]
  rw [ScanState.EscOk, hphase, EscPhase.Ok] at hok
  rcases hexVal_cases c with ⟨hval, hd⟩ | ⟨hv, hval, hd, hlt⟩
  · simp [scanEscapeByte, hphase, hval, hesc, strStep, hd]
  have hunit := toNat_unit_digit hok.2 hlt
  simp only [scanEscapeByte, hphase, hval, ne_eq, not_true_eq_false, if_false, not_isLow_iff]
  generalize (s.escCodeUnit <<< 4) ||| hv.toUInt16 = unit at hunit
  by_cases hlow : IsLow unit.toNat
  · rw [if_neg (not_not_intro hlow)]
    apply EscStep.done unit
    have hcp := toNat_pair hok.1 hlow
    rw [utf8Encode_eq (hcp ▸ pairPoint_lt hok.1 hlow), hcp]
    simp [hesc, strStep, hd, ← hunit, hlow]
  · rw [if_pos hlow]
    simp [hesc, strStep, hd, ← hunit, hlow]

/-- An escape byte is a step of the string machine. -/
theorem scanEscapeByte_spec {s : ScanState} (hesc : s.escPhase ≠ .none) (hok : s.EscOk) (c : UInt8) :
    match scanEscapeByte s c with
    | .error _ => strStep s.esc c = none
    | .ok (s', out) => EscStep s c s' out := by
  cases hphase : s.escPhase with
  | none => exact absurd hphase hesc
  | backslash => exact scanEscapeByte_backslash hphase c
  | u1 => exact scanEscapeByte_unit (.inl ⟨hphase, rfl⟩) hok c
  | u2 => exact scanEscapeByte_unit (.inr (.inl ⟨hphase, rfl⟩)) hok c
  | u3 => exact scanEscapeByte_unit (.inr (.inr ⟨hphase, rfl⟩)) hok c
  | u4 => exact scanEscapeByte_u4 hphase hok c
  | lowBackslash =>
    have hesc : s.esc = .lowBackslash s.escHighSurrogate.toNat := by
      rw [ScanState.esc, hphase, EscPhase.esc]
    rw [ScanState.EscOk, hphase, EscPhase.Ok] at hok
    by_cases hc : c = 92
    · simp only [scanEscapeByte, hphase, hc, ne_eq, not_true_eq_false, if_false]
      apply EscStep.silent .lowU s.escCodeUnit s.escHighSurrogate
      · simp [hesc, strStep, EscPhase.esc]
      · exact hok
    · simp [scanEscapeByte, hphase, hesc, strStep, hc]
  | lowU =>
    have hesc : s.esc = .lowU s.escHighSurrogate.toNat := by
      rw [ScanState.esc, hphase, EscPhase.esc]
    rw [ScanState.EscOk, hphase, EscPhase.Ok] at hok
    by_cases hc : c = 117
    · simp only [scanEscapeByte, hphase, hc, ne_eq, not_true_eq_false, if_false]
      apply EscStep.silent .lowU1 0 s.escHighSurrogate
      · simp [hesc, strStep, EscPhase.esc]
      · exact ⟨hok, by decide⟩
    · simp [scanEscapeByte, hphase, hesc, strStep, hc]
  | lowU1 => exact scanEscapeByte_lowUnit (.inl ⟨hphase, rfl⟩) hok c
  | lowU2 => exact scanEscapeByte_lowUnit (.inr (.inl ⟨hphase, rfl⟩)) hok c
  | lowU3 => exact scanEscapeByte_lowUnit (.inr (.inr ⟨hphase, rfl⟩)) hok c
  | lowU4 => exact scanEscapeByte_lowU4 hphase hok c

/-- An escape byte is only ever refused as malformed. -/
theorem scanEscapeByte_error {s : ScanState} {c : UInt8} {e : BbErr}
    (h : scanEscapeByte s c = .error e) : e = .parseGrammar := by
  revert h
  unfold scanEscapeByte
  dsimp only
  split <;> (repeat' split) <;> intro h <;> cases h <;> rfl

/-! ## Numbers and literals -/

/-- Where a number phase stands in a number. -/
def NumPhase.place : NumPhase → NumPlace
  | .start => .start
  | .intDigits => .intDigits
  | .fracStart => .fracStart
  | .fracDigits => .fracDigits
  | .expStart => .expStart
  | .expSign => .expSign
  | .expDigits => .expDigits

theorem isTerminal_eq (p : NumPhase) : p.isTerminal = p.place.ends := by
  cases p <;> rfl

/-- The phase-transition table is the number machine. -/
theorem numStep_spec (p : NumPhase) (c : UInt8) :
    match numStep p c with
    | .malformed => JsonText.numStep p.place c = none ∧ p.isTerminal = false
    | .finished => JsonText.numStep p.place c = none ∧ p.isTerminal = true
    | .next p' => JsonText.numStep p.place c = some p'.place := by
  simp only [numStep, isDigit_iff]
  by_cases hd : Decimal.isDigit c = true
  · have hsign : ¬ (c = 43 ∨ c = 45) := by simp [JsonText.isDigit_ne hd]
    cases p <;> simp [hd, hsign, JsonText.numStep, NumPhase.place]
  · by_cases hsign : c = 43 ∨ c = 45
    · have hne : c ≠ 46 ∧ ¬ (c = 101 ∨ c = 69) := by
        rcases hsign with rfl | rfl <;> decide
      cases p <;> simp [hd, hsign, hne, JsonText.numStep, NumPhase.place, NumPhase.isTerminal]
    · by_cases hdot : c = 46
      · subst hdot
        cases p <;> simp [hd, JsonText.numStep, NumPhase.place, NumPhase.isTerminal]
      · by_cases hexp : c = 101 ∨ c = 69 <;>
          cases p <;> simp [hd, hsign, hdot, hexp, JsonText.numStep, NumPhase.place, NumPhase.isTerminal]

end SerializeJson
end Breadboard
