import Breadboard.Foundations.Decimal
import Breadboard.Core.Basics
import Breadboard.Reboot.Budget

/-!
# The stored text of a reboot budget

`bb_system_reboot_budget_state_encode` and its decoder: one delimited line
`last|head|count|ts0,ts1,...` written by `snprintf` into a bounded buffer and
read back by `sscanf`.

Main results:

- Theorem `stateDecode_stateText`: what the encoder wrote is decoded back.
- Theorem `stateEncode_fits`: the buffer the callers pass is always large enough.
-/

namespace Breadboard
namespace Reboot

open Foundations.Decimal

/-- `BB_SYSTEM_REBOOT_BUDGET_STATE_STR_MAX`. -/
def stateStrMax : Nat := 192

/-! ## Writing -/

/-- The separators `|` and `,`. -/
def bar : UInt8 := 124

def comma : UInt8 := 44

/-- The text of the three leading fields. -/
def headerText (st : BudgetState) : Bytes :=
  decimal st.lastRebootS.toNat ++ bar :: decimal st.ringHead ++ bar :: decimal st.ringCount

/-- The ring loop of the encoder, each stamp after its separator. -/
def appendStamps (bufLen : Nat) : Bytes → UInt8 → List UInt32 → Option Bytes
  | buf, _, [] => some buf
  | buf, sep, ts :: rest =>
    let piece := sep :: decimal ts.toNat
    if bufLen - buf.length ≤ piece.length then none
    else appendStamps bufLen (buf ++ piece) comma rest

/--
`bb_system_reboot_budget_state_encode`: the written string, or none where
`snprintf` would have truncated it.
-/
def stateEncode (st : BudgetState) (bufLen : Nat) : Option Bytes :=
  if bufLen = 0 then none
  else
    let header := headerText st
    if bufLen ≤ header.length then none
    else appendStamps bufLen header bar st.rebootSRing

/-! ## Reading -/

/-- `isspace`, which `sscanf` skips before a number. -/
def isSpace (b : UInt8) : Bool :=
  b = 32 ∨ (9 ≤ b.toNat ∧ b.toNat ≤ 13)

/-- An optional sign: whether it is a minus, and what follows it. -/
def scanSign : Bytes → Bool × Bytes
  | [] => (false, [])
  | b :: rest =>
    if b = 43 then (false, rest) else if b = 45 then (true, rest) else (false, b :: rest)

/--
The conversion `%u`: optional blanks, an optional sign, and at least one digit.  A
value past the type is clamped, as a 32-bit `strtoul` does.
-/
def scanU (s : Bytes) : Option (Nat × Bytes) :=
  let signed := scanSign (s.dropWhile isSpace)
  let digits := signed.2.takeWhile isDigit
  if digits = [] then none
  else
    let v := min (value digits) (2 ^ 32 - 1)
    some (if signed.1 then (2 ^ 32 - v) % 2 ^ 32 else v, signed.2.dropWhile isDigit)

/-- A literal character of a format, or the test of `*p` against it. -/
def literal (c : UInt8) : Bytes → Option Bytes
  | b :: rest => if b = c then some rest else none
  | [] => none

/-- The three leading fields.  A missing last bar leaves `%n` at zero: no header. -/
def scanHeader (s : Bytes) : Option (Nat × Nat × Nat × Bytes) := do
  let (last, s) ← scanU s
  let s ← literal bar s
  let (head, s) ← scanU s
  let s ← literal bar s
  let (count, s) ← scanU s
  let s ← literal bar s
  return (last, head, count, s)

/-- The comma after a stamp, which the last one does not have. -/
def skipComma (left : Nat) (p : Bytes) : Option Bytes :=
  if left = 0 then some p else literal comma p

/-- The ring loop of the decoder: `n` stamps with a comma between them. -/
def scanStamps : Nat → Bytes → Option (List UInt32)
  | 0, _ => some []
  | n + 1, p => do
    let (ts, p) ← scanU p
    let p ← skipComma n p
    let rest ← scanStamps n p
    return ts.toUInt32 :: rest

theorem length_scanStamps {n : Nat} {p : Bytes} {l : List UInt32} (h : scanStamps n p = some l) :
    l.length = n := by
  induction n generalizing p l with
  | zero => cases h; rfl
  | succ n ih =>
    simp only [scanStamps, Option.bind_eq_bind, Option.bind_eq_some_iff, Option.pure_def,
      Option.some.injEq] at h
    obtain ⟨ts, _, p', _, rest, hrest, rfl⟩ := h
    rw [List.length_cons, ih hrest]

/-- `bb_system_reboot_budget_state_decode`. -/
def stateDecode (str : Bytes) : Option BudgetState :=
  match scanHeader str with
  | none => none
  | some (last, head, count, p) =>
    if hrange : head < capMax ∧ count ≤ capMax then
      match hstamps : scanStamps capMax p with
      | none => none
      | some ring =>
        some
          { lastRebootS := last.toUInt32
            rebootSRing := ring
            ringHead := head
            ringCount := count
            ring_length := length_scanStamps hstamps
            head_lt := hrange.1 }
    else none

/-! ## Round trip -/

/-- The text of the ring, each stamp after its separator. -/
def stampsText (sep : UInt8) : List UInt32 → Bytes
  | [] => []
  | ts :: rest => sep :: decimal ts.toNat ++ stampsText comma rest

theorem appendStamps_eq {bufLen : Nat} (buf : Bytes) (sep : UInt8) (l : List UInt32)
    (hfit : buf.length + (stampsText sep l).length < bufLen) :
    appendStamps bufLen buf sep l = some (buf ++ stampsText sep l) := by
  induction l generalizing buf sep with
  | nil => simp [appendStamps, stampsText]
  | cons ts rest ih =>
    simp only [stampsText, List.length_append, List.length_cons] at hfit
    have hroom : ¬ bufLen - buf.length ≤ (sep :: decimal ts.toNat).length := by
      simp only [List.length_cons]
      omega
    have htail := ih (buf ++ (sep :: decimal ts.toNat)) comma
      (by simp only [List.length_append, List.length_cons]; omega)
    simp only [appendStamps, if_neg hroom, htail, stampsText, List.append_assoc]

theorem length_decimal_uint32 (v : UInt32) : (decimal v.toNat).length ≤ 10 := by
  apply length_decimal_le
  have hlt := v.toNat_lt
  omega

theorem length_stampsText_le (sep : UInt8) (l : List UInt32) :
    (stampsText sep l).length ≤ 11 * l.length := by
  induction l generalizing sep with
  | nil => simp [stampsText]
  | cons ts rest ih =>
    have hpiece := length_decimal_uint32 ts
    have htail := ih comma
    simp only [stampsText, List.length_append, List.length_cons]
    omega

/-- The whole text of a state. -/
def stateText (st : BudgetState) : Bytes :=
  headerText st ++ stampsText bar st.rebootSRing

/-- The buffer of the callers holds the text of every state the ring code builds. -/
theorem stateEncode_fits {st : BudgetState} (hcount : st.ringCount ≤ capMax) :
    stateEncode st stateStrMax = some (stateText st) ∧ (stateText st).length < stateStrMax := by
  have hhead := st.head_lt
  have hlast := length_decimal_uint32 st.lastRebootS
  have hheadLen : (decimal st.ringHead).length ≤ 2 := by
    apply length_decimal_le
    simp only [capMax] at hhead
    omega
  have hcountLen : (decimal st.ringCount).length ≤ 2 := by
    apply length_decimal_le
    simp only [capMax] at hcount
    omega
  have hstamps := length_stampsText_le bar st.rebootSRing
  rw [st.ring_length] at hstamps
  have hheader : (headerText st).length ≤ 16 := by
    simp only [headerText, List.length_append, List.length_cons]
    omega
  simp only [capMax] at hstamps
  have htotal : (headerText st).length + (stampsText bar st.rebootSRing).length < stateStrMax := by
    simp only [stateStrMax]
    omega
  constructor
  · have hzero : ¬ stateStrMax = 0 := by decide
    have hroom : ¬ stateStrMax ≤ (headerText st).length := by omega
    simp only [stateEncode, if_neg hzero, if_neg hroom]
    exact appendStamps_eq _ _ _ htotal
  · rw [stateText, List.length_append]
    exact htotal

theorem isSpace_of_isDigit {b : UInt8} (h : isDigit b = true) : isSpace b = false := by
  simp only [isDigit, decide_eq_true_eq] at h
  have hne : b ≠ 32 := by
    intro heq
    rw [heq] at h
    simp at h
  simp only [isSpace, decide_eq_false_iff_not, not_or]
  exact ⟨hne, by omega⟩

/-- Reading a printed number that is followed by something else than a digit. -/
theorem scanU_decimal {n : Nat} (hn : n < 2 ^ 32) {rest : Bytes}
    (hrest : ∀ b ∈ rest.head?, isDigit b = false) :
    scanU (decimal n ++ rest) = some (n, rest) := by
  have hdigits : ∀ b ∈ decimal n, isDigit b = true := fun b hb => isDigit_of_mem_decimal hb
  have htake : (decimal n ++ rest).takeWhile isDigit = decimal n := by
    rw [List.takeWhile_append_of_pos hdigits]
    cases rest with
    | nil => simp
    | cons b rest => simp [hrest b rfl]
  have hdrop : (decimal n ++ rest).dropWhile isDigit = rest := by
    rw [List.dropWhile_append_of_pos hdigits]
    cases rest with
    | nil => rfl
    | cons b rest => simp [hrest b rfl]
  cases hdec : decimal n with
  | nil => exact absurd hdec (decimal_ne_nil n)
  | cons d ds =>
    have hd : isDigit d = true := hdigits d (by rw [hdec]; exact List.mem_cons_self)
    have hspace := isSpace_of_isDigit hd
    have hplus : d ≠ 43 := by
      intro heq
      rw [heq] at hd
      simp [isDigit] at hd
    have hminus : d ≠ 45 := by
      intro heq
      rw [heq] at hd
      simp [isDigit] at hd
    have hskip : (d :: ds ++ rest).dropWhile isSpace = d :: ds ++ rest := by
      simp [hspace]
    have hsign : scanSign (d :: ds ++ rest) = (false, d :: ds ++ rest) := by
      simp [scanSign, hplus, hminus]
    have hvalue : min (value (d :: ds)) (2 ^ 32 - 1) = n := by
      rw [← hdec, value_decimal]
      omega
    rw [hdec] at htake hdrop
    unfold scanU
    simp only [hskip, hsign, htake, hdrop, hvalue]
    simp

theorem isDigit_bar : isDigit bar = false := by decide

theorem isDigit_comma : isDigit comma = false := by decide

theorem scanU_decimal_cons {n : Nat} (hn : n < 2 ^ 32) {c : UInt8} (hc : isDigit c = false)
    (rest : Bytes) : scanU (decimal n ++ c :: rest) = some (n, c :: rest) := by
  apply scanU_decimal hn
  intro b hb
  cases hb
  exact hc

theorem literal_self (c : UInt8) (rest : Bytes) : literal c (c :: rest) = some rest :=
  if_pos rfl

/-- The stamps the encoder wrote after the first separator are read back. -/
theorem scanStamps_stampsText (sep : UInt8) (l : List UInt32) :
    scanStamps l.length (stampsText sep l).tail = some l := by
  induction l generalizing sep with
  | nil => rfl
  | cons ts rest ih =>
    have hts := ts.toNat_lt
    cases rest with
    | nil =>
      have hscan := @scanU_decimal ts.toNat (by omega) [] (fun b hb => (nomatch hb))
      rw [List.append_nil] at hscan
      simp [stampsText, scanStamps, skipComma, hscan]
    | cons ts' rest =>
      have hscan := scanU_decimal_cons (n := ts.toNat) (by omega) isDigit_comma
        (stampsText comma (ts' :: rest)).tail
      have hcons : stampsText comma (ts' :: rest) =
          comma :: (stampsText comma (ts' :: rest)).tail := rfl
      have htail := ih comma
      rw [List.length_cons, stampsText, List.tail_append_of_ne_nil (by simp), List.tail_cons,
        hcons, scanStamps, hscan]
      rw [List.length_cons] at htail
      simp [skipComma, literal_self, htail]

theorem scanHeader_stateText {st : BudgetState} (hcount : st.ringCount ≤ capMax) :
    scanHeader (stateText st) = some (st.lastRebootS.toNat, st.ringHead, st.ringCount,
      (stampsText bar st.rebootSRing).tail) := by
  have hhead := st.head_lt
  have hlast := st.lastRebootS.toNat_lt
  have hlen := st.ring_length
  simp only [capMax] at hhead hcount hlen
  have hne : st.rebootSRing ≠ [] := by
    intro hnil
    rw [hnil] at hlen
    cases hlen
  have hcons : stampsText bar st.rebootSRing = bar :: (stampsText bar st.rebootSRing).tail := by
    cases hring : st.rebootSRing with
    | nil => exact absurd hring hne
    | cons ts rest => rfl
  rw [stateText, headerText, hcons]
  simp only [List.append_assoc, List.cons_append, List.tail_cons]
  rw [scanHeader, scanU_decimal_cons (by omega) isDigit_bar]
  simp only [Option.bind_eq_bind, Option.bind_some, literal_self]
  rw [scanU_decimal_cons (by omega) isDigit_bar]
  simp only [Option.bind_some, literal_self]
  rw [scanU_decimal_cons (by omega) isDigit_bar]
  simp [literal_self]

/-- The text of a state is decoded back to it. -/
theorem stateDecode_stateText {st : BudgetState} (hcount : st.ringCount ≤ capMax) :
    stateDecode (stateText st) = some st := by
  have hstamps := scanStamps_stampsText bar st.rebootSRing
  rw [st.ring_length] at hstamps
  unfold stateDecode
  rw [scanHeader_stateText hcount]
  simp only
  rw [dif_pos ⟨st.head_lt, hcount⟩]
  split
  · rename_i hnone
    rw [hstamps] at hnone
    cases hnone
  · rename_i ring hsome
    rw [hstamps] at hsome
    apply congrArg some
    apply BudgetState.ext
    · simp
    · exact (Option.some.inj hsome).symm
    · rfl
    · rfl

end Reboot
end Breadboard
