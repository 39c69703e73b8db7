import Mathlib.Tactic.Common

/-!
# Lines of keys and values

A line of logfmt is `key=value key=value`.  A value that could be misread is put between
double quotes, with a backslash before what ends or escapes and `\xHH` for the other control
bytes.  The reader splits a line at the spaces outside quotes, takes a piece's key up to its
first equals sign, and unescapes a value that begins with a quote.

Main results:

- Theorem `unescape_quoted`: a quoted value reads back, byte for byte.
- Theorem `readLine_line`: so does a line whose keys are plain.
-/

namespace Breadboard
namespace Foundations
namespace Logfmt

/-! ## Writing -/

/-- What cannot stand in a value without quotes. -/
def mustQuote (b : UInt8) : Bool :=
  b == 32 || b == 34 || b == 61 || b == 92 || b < 32

/-- A value that is written between quotes. -/
def needsQuote (s : List UInt8) : Bool :=
  s.isEmpty || s.any mustQuote

/-- The lower-case hexadecimal digit of a number below 16. -/
def hexDigit (n : Nat) : UInt8 :=
  if n < 10 then UInt8.ofNat (48 + n) else UInt8.ofNat (87 + n)

/-- What stands for a byte between quotes. -/
def escapeByte (b : UInt8) : List UInt8 :=
  if b = 34 then [92, 34]
  else if b = 92 then [92, 92]
  else if b = 10 then [92, 110]
  else if b = 13 then [92, 114]
  else if b = 9 then [92, 116]
  else if b < 32 then [92, 120, hexDigit (b.toNat / 16), hexDigit (b.toNat % 16)]
  else [b]

/-- A value between quotes. -/
def quoted (s : List UInt8) : List UInt8 :=
  34 :: s.flatMap escapeByte ++ [34]

/-- A value, between quotes where it must be. -/
def valueText (s : List UInt8) : List UInt8 :=
  if needsQuote s then quoted s else s

/-- A key and its value. -/
abbrev Entry := List UInt8 × List UInt8

def entryText (f : Entry) : List UInt8 :=
  f.1 ++ 61 :: valueText f.2

/-- Entries with a space between them. -/
def line : List Entry → List UInt8
  | [] => []
  | f :: fs => entryText f ++ fs.flatMap fun g => 32 :: entryText g

theorem line_append_singleton (fs : List Entry) (f : Entry) :
    line (fs ++ [f]) = (if fs = [] then [] else line fs ++ [32]) ++ entryText f := by
  cases fs with
  | nil => simp [line]
  | cons g fs => simp [line]

theorem line_eq_nil_iff (fs : List Entry) : line fs = [] ↔ fs = [] := by
  cases fs with
  | nil => simp [line]
  | cons f fs => simp [line, entryText]

/-- A value that needs no quotes stands for itself. -/
theorem valueText_of_plain {s : List UInt8} (hne : s ≠ []) (hs : ∀ b ∈ s, mustQuote b = false) :
    valueText s = s := by
  have hany : s.any mustQuote = false := List.any_eq_false.mpr fun b hb => by simp [hs b hb]
  rw [valueText, needsQuote, hany, List.isEmpty_eq_false_iff.mpr hne]
  rfl

/-! ## Splitting -/

/-- Where a reader stands in a line. -/
inductive Place where
  | outside
  | inside
  /-- Behind a backslash between quotes. -/
  | escaped
  deriving Repr, DecidableEq

def Place.next : Place → UInt8 → Place
  | .outside, b => if b = 34 then .inside else .outside
  | .inside, b => if b = 34 then .outside else if b = 92 then .escaped else .inside
  | .escaped, _ => .inside

/-- Cut at the spaces outside quotes. -/
def split : Place → List UInt8 → List (List UInt8)
  | _, [] => [[]]
  | p, b :: s =>
      if p = .outside ∧ b = 32 then [] :: split .outside s
      else (split (p.next b) s).modifyHead (b :: ·)

/-- A text without a cut leads from one place to another. -/
def Spans : Place → List UInt8 → Place → Prop
  | p, [], q => p = q
  | p, b :: s, q => ¬ (p = .outside ∧ b = 32) ∧ Spans (p.next b) s q

theorem Spans.append {p q r : Place} {s t : List UInt8} (hs : Spans p s q) (ht : Spans q t r) :
    Spans p (s ++ t) r := by
  induction s generalizing p with
  | nil =>
      obtain rfl : p = q := hs
      exact ht
  | cons b s ih => exact ⟨hs.1, ih hs.2⟩

/-- A text without a cut stays in one piece. -/
theorem Spans.split_append {p q : Place} {s : List UInt8} (hs : Spans p s q) (rest : List UInt8) :
    split p (s ++ rest) = (split q rest).modifyHead (s ++ ·) := by
  induction s generalizing p with
  | nil =>
      obtain rfl : p = q := hs
      cases h : split p rest <;> simp [h]
  | cons b s ih =>
      rw [List.cons_append, split, if_neg hs.1, ih hs.2]
      cases split q rest <;> simp

/-- Neither a space nor a quote. -/
theorem spans_plain {s : List UInt8} (hs : ∀ b ∈ s, b ≠ 32 ∧ b ≠ 34) :
    Spans .outside s .outside := by
  induction s with
  | nil => rfl
  | cons b s ih =>
      obtain ⟨hb, hs⟩ := List.forall_mem_cons.mp hs
      refine ⟨fun h => hb.1 h.2, ?_⟩
      rw [Place.next, if_neg hb.2]
      exact ih hs

theorem hexDigit_ne {n : Nat} (hn : n < 16) : hexDigit n ≠ 34 ∧ hexDigit n ≠ 92 :=
  (by decide : ∀ k < 16, hexDigit k ≠ 34 ∧ hexDigit k ≠ 92) n hn

/-- Between quotes a byte that is written as it is. -/
theorem spans_inside {b : UInt8} (hquote : b ≠ 34) (hslash : b ≠ 92) :
    Spans .inside [b] .inside := by
  refine ⟨by simp, ?_⟩
  simp [Spans, Place.next, hquote, hslash]

theorem spans_escaped (b : UInt8) : Spans .inside [92, b] .inside := by
  refine ⟨by simp, by simp [Place.next], ?_⟩
  simp [Spans, Place.next]

/-- Nothing that stands for a byte ends the quotes. -/
theorem spans_escapeByte (b : UInt8) : Spans .inside (escapeByte b) .inside := by
  unfold escapeByte
  split_ifs with hquote hslash hn hr ht hcontrol
  · exact spans_escaped 34
  · exact spans_escaped 92
  · exact spans_escaped 110
  · exact spans_escaped 114
  · exact spans_escaped 116
  · have hb : b.toNat < 256 := b.toNat_lt
    have hhigh := hexDigit_ne (n := b.toNat / 16) (by omega)
    have hlow := hexDigit_ne (n := b.toNat % 16) (by omega)
    exact (spans_escaped 120).append
      ((spans_inside hhigh.1 hhigh.2).append (spans_inside hlow.1 hlow.2))
  · exact spans_inside hquote hslash

theorem spans_quoted (s : List UInt8) : Spans .outside (quoted s) .outside := by
  have hbody : Spans .inside (s.flatMap escapeByte) .inside := by
    induction s with
    | nil => rfl
    | cons b s ih =>
        rw [List.flatMap_cons]
        exact (spans_escapeByte b).append ih
  have hopen : Spans .outside [34] .inside := ⟨by simp, rfl⟩
  have hclose : Spans .inside [34] .outside := ⟨by simp, rfl⟩
  exact hopen.append (hbody.append hclose)

theorem plain_of_not_needsQuote {s : List UInt8} (h : needsQuote s = false) :
    s ≠ [] ∧ ∀ b ∈ s, b ≠ 32 ∧ b ≠ 34 := by
  rw [needsQuote, Bool.or_eq_false_iff] at h
  refine ⟨by simpa using h.1, fun b hb => ?_⟩
  have hplain := List.any_eq_false.mp h.2 b hb
  simp only [mustQuote, Bool.or_eq_true, beq_iff_eq, not_or] at hplain
  exact ⟨hplain.1.1.1.1, hplain.1.1.1.2⟩

theorem spans_valueText (s : List UInt8) : Spans .outside (valueText s) .outside := by
  unfold valueText
  split
  · exact spans_quoted s
  · rename_i h
    exact spans_plain (plain_of_not_needsQuote (Bool.not_eq_true _ ▸ h)).2

/-! ## Unescaping -/

/-- The value of a lower-case hexadecimal digit. -/
def hexValue (b : UInt8) : Option Nat :=
  if 48 ≤ b ∧ b ≤ 57 then some (b.toNat - 48)
  else if 97 ≤ b ∧ b ≤ 102 then some (b.toNat - 87)
  else none

/-- What a letter behind a backslash stands for. -/
def unescapeByte (b : UInt8) : Option UInt8 :=
  if b = 34 then some 34
  else if b = 92 then some 92
  else if b = 110 then some 10
  else if b = 114 then some 13
  else if b = 116 then some 9
  else none

/-- Where a reader stands in a quoted value. -/
inductive Reading where
  | body
  | escape
  | hex
  | hexLow (high : Nat)
  | closed
  deriving Repr, DecidableEq

/-- The value from behind its opening quote to the closing one, which ends it. -/
def unescape : Reading → List UInt8 → Option (List UInt8)
  | .closed, [] => some []
  | _, [] => none
  | .body, b :: s =>
      if b = 34 then unescape .closed s
      else if b = 92 then unescape .escape s
      else (unescape .body s).map (b :: ·)
  | .escape, b :: s =>
      if b = 120 then unescape .hex s
      else (unescapeByte b).bind fun c => (unescape .body s).map (c :: ·)
  | .hex, b :: s => (hexValue b).bind fun high => unescape (.hexLow high) s
  | .hexLow high, b :: s =>
      (hexValue b).bind fun low => (unescape .body s).map (UInt8.ofNat (16 * high + low) :: ·)
  | .closed, _ :: _ => none

theorem hexValue_hexDigit {n : Nat} (hn : n < 16) : hexValue (hexDigit n) = some n :=
  (by decide : ∀ k < 16, hexValue (hexDigit k) = some k) n hn

/-- One byte read back. -/
theorem unescape_escapeByte (b : UInt8) (s : List UInt8) :
    unescape .body (escapeByte b ++ s) = (unescape .body s).map (b :: ·) := by
  unfold escapeByte
  split_ifs with hquote hslash hn hr ht hcontrol
  · subst hquote
    rfl
  · subst hslash
    rfl
  · subst hn
    rfl
  · subst hr
    rfl
  · subst ht
    rfl
  · have hb : b.toNat < 256 := b.toNat_lt
    have hhigh := hexValue_hexDigit (n := b.toNat / 16) (by omega)
    have hlow := hexValue_hexDigit (n := b.toNat % 16) (by omega)
    have hval : UInt8.ofNat (16 * (b.toNat / 16) + b.toNat % 16) = b := by
      rw [Nat.div_add_mod, UInt8.ofNat_toNat]
    calc unescape .body ([92, 120, hexDigit (b.toNat / 16), hexDigit (b.toNat % 16)] ++ s)
        = (hexValue (hexDigit (b.toNat / 16))).bind fun high =>
            (hexValue (hexDigit (b.toNat % 16))).bind fun low =>
              (unescape .body s).map (UInt8.ofNat (16 * high + low) :: ·) := rfl
      _ = (unescape .body s).map (b :: ·) := by
            rw [hhigh, hlow, Option.bind_some, Option.bind_some, hval]
  · rw [List.singleton_append, unescape, if_neg hquote, if_neg hslash]

/-- A quoted value reads back, byte for byte. -/
theorem unescape_quoted (s : List UInt8) :
    unescape .body (s.flatMap escapeByte ++ [34]) = some s := by
  induction s with
  | nil => rfl
  | cons b s ih => rw [List.flatMap_cons, List.append_assoc, unescape_escapeByte, ih, Option.map_some]

/-! ## Reading -/

/-- A value, unescaped if it begins with a quote. -/
def readValue (v : List UInt8) : Option (List UInt8) :=
  if v.head? = some 34 then unescape .body v.tail else some v

/-- The key up to the first equals sign, and the value behind it. -/
def readEntry (piece : List UInt8) : Option Entry :=
  (readValue (piece.dropWhile (· != 61)).tail).map fun v => (piece.takeWhile (· != 61), v)

/-- The pieces of a line, read one by one. -/
def readLine (s : List UInt8) : Option (List Entry) :=
  ((split .outside s).filter (· ≠ [])).mapM readEntry

theorem readValue_valueText (s : List UInt8) : readValue (valueText s) = some s := by
  unfold valueText
  split
  · exact unescape_quoted s
  · rename_i h
    obtain ⟨hne, hplain⟩ := plain_of_not_needsQuote (Bool.not_eq_true _ ▸ h)
    obtain ⟨b, s, rfl⟩ := List.exists_cons_of_ne_nil hne
    have hb : b ≠ 34 := (hplain b List.mem_cons_self).2
    simp [readValue, hb]

/-- A key that stands for itself. -/
def PlainKey (key : List UInt8) : Prop :=
  key ≠ [] ∧ ∀ b ∈ key, b ≠ 32 ∧ b ≠ 34 ∧ b ≠ 61 ∧ ¬ b < 32

theorem readEntry_entryText {f : Entry} (hkey : PlainKey f.1) :
    readEntry (entryText f) = some f := by
  have hall : ∀ b ∈ f.1, (b != 61) = true := fun b hb => by
    simpa using (hkey.2 b hb).2.2.1
  have hdrop : (entryText f).dropWhile (· != 61) = 61 :: valueText f.2 := by
    rw [entryText, List.dropWhile_append_of_pos hall]
    rfl
  have htake : (entryText f).takeWhile (· != 61) = f.1 := by
    rw [entryText, List.takeWhile_append_of_pos hall]
    simp
  rw [readEntry, hdrop, htake, List.tail_cons, readValue_valueText, Option.map_some]

theorem spans_entryText {f : Entry} (hkey : PlainKey f.1) :
    Spans .outside (entryText f) .outside := by
  have hname : Spans .outside f.1 .outside :=
    spans_plain fun b hb => ⟨(hkey.2 b hb).1, (hkey.2 b hb).2.1⟩
  have hequals : Spans .outside [61] .outside := ⟨by simp, rfl⟩
  exact hname.append (hequals.append (spans_valueText f.2))

/-- The pieces of a line are its entries. -/
theorem split_line {f : Entry} {fs : List Entry} (hkeys : ∀ g ∈ f :: fs, PlainKey g.1) :
    split .outside (line (f :: fs)) = (f :: fs).map entryText := by
  induction fs generalizing f with
  | nil =>
      have hspans := spans_entryText (hkeys f List.mem_cons_self)
      have hsplit := hspans.split_append []
      simpa [line, split] using hsplit
  | cons g fs ih =>
      have hspans := spans_entryText (hkeys f List.mem_cons_self)
      have hrest := ih fun k hk => hkeys k (List.mem_cons_of_mem f hk)
      have hline : line (f :: g :: fs) = entryText f ++ 32 :: line (g :: fs) := by
        simp [line]
      rw [hline, hspans.split_append, split, if_pos ⟨rfl, rfl⟩, hrest]
      simp

theorem mapM_readEntry {fs : List Entry} (hkeys : ∀ f ∈ fs, PlainKey f.1) :
    (fs.map entryText).mapM readEntry = some fs := by
  induction fs with
  | nil => rfl
  | cons f fs ih =>
      have hf := readEntry_entryText (hkeys f List.mem_cons_self)
      have hfs := ih fun g hg => hkeys g (List.mem_cons_of_mem f hg)
      rw [List.map_cons, List.mapM_cons, hf, hfs]
      rfl

/-- A line whose keys are plain reads back, entry by entry. -/
theorem readLine_line {fs : List Entry} (hkeys : ∀ f ∈ fs, PlainKey f.1) :
    readLine (line fs) = some fs := by
  cases fs with
  | nil => rfl
  | cons f fs =>
      have hne : ((f :: fs).map entryText).filter (· ≠ []) = (f :: fs).map entryText := by
        rw [List.filter_eq_self]
        intro t ht
        obtain ⟨g, _, rfl⟩ := List.mem_map.mp ht
        simp [entryText]
      rw [readLine, split_line hkeys, hne, mapM_readEntry hkeys]

/-! ## No byte of a line is zero -/

theorem escapeByte_ne_zero (b : UInt8) : ∀ c ∈ escapeByte b, c ≠ 0 := by
  unfold escapeByte
  split_ifs with hquote hslash hn hr ht hcontrol
  · simp
  · simp
  · simp
  · simp
  · simp
  · have hdigit : ∀ n < 16, hexDigit n ≠ 0 := by decide
    have hb : b.toNat < 256 := b.toNat_lt
    simp [hdigit (b.toNat / 16) (by omega), hdigit (b.toNat % 16) (by omega)]
  · rintro c hc rfl
    rw [← List.mem_singleton.mp hc] at hcontrol
    exact hcontrol (by decide)

theorem valueText_ne_zero (s : List UInt8) : ∀ c ∈ valueText s, c ≠ 0 := by
  unfold valueText
  split
  · intro c hc
    obtain rfl | hc := List.mem_cons.mp hc
    · decide
    obtain hc | hc := List.mem_append.mp hc
    · obtain ⟨b, _, hb⟩ := List.mem_flatMap.mp hc
      exact escapeByte_ne_zero b c hb
    · rw [List.mem_singleton.mp hc]
      decide
  · rename_i h
    rintro c hc rfl
    rw [needsQuote, Bool.or_eq_true, not_or] at h
    exact h.2 (List.any_eq_true.mpr ⟨0, hc, rfl⟩)

/-- A line is a C string. -/
theorem line_ne_zero {fs : List Entry} (hkeys : ∀ f ∈ fs, PlainKey f.1) : ∀ c ∈ line fs, c ≠ 0 := by
  have hentry : ∀ f ∈ fs, ∀ c ∈ entryText f, c ≠ 0 := by
    intro f hf c hc
    obtain hc | hc := List.mem_append.mp hc
    · rintro rfl
      exact ((hkeys f hf).2 0 hc).2.2.2 (by decide)
    · obtain rfl | hc := List.mem_cons.mp hc
      · decide
      · exact valueText_ne_zero f.2 c hc
  cases fs with
  | nil => simp [line]
  | cons f fs =>
      intro c hc
      obtain hc | hc := List.mem_append.mp hc
      · exact hentry f List.mem_cons_self c hc
      · obtain ⟨g, hg, hc⟩ := List.mem_flatMap.mp hc
        obtain rfl | hc := List.mem_cons.mp hc
        · decide
        · exact hentry g (List.mem_cons_of_mem f hg) c hc

end Logfmt
end Foundations
end Breadboard
