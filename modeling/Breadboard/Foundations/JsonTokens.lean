import Breadboard.Foundations.JsonText

/-!
# Strings and numbers of a JSON text, byte by byte

The two tokens whose end is not known from their start, as machines that take one byte
at a time: a string after its opening quote, with its escapes, and a number after its
first byte.  Both are tied to the grammar they read.

Main results:

- Theorem `stringBody_iff`: the string machine reads exactly the strings of the grammar.
- Theorem `laxNumber_iff`: the number machine reads exactly the numbers with
  superfluous leading zeros allowed.
-/

namespace Breadboard
namespace Foundations
namespace JsonText

/-! ## Strings -/

/-- Where a string stands: between characters, or inside an escape. -/
inductive Esc where
  | plain
  | backslash
  | unit (digits acc : Nat)
  | lowBackslash (high : Nat)
  | lowU (high : Nat)
  | lowUnit (high digits acc : Nat)
  deriving Repr, DecidableEq

/-- One byte of a string: refused, the closing quote, or the new place and the decoded bytes. -/
def strStep : Esc → UInt8 → Option (Option (Esc × Text))
  | .plain, b =>
    if b = 34 then some none
    else if b = 92 then some (some (.backslash, []))
    else if isPlain b = true then some (some (.plain, [b]))
    else none
  | .backslash, b =>
    match shortEscape? b with
    | some c => some (some (.plain, [c]))
    | none => if b = 117 then some (some (.unit 0 0, [])) else none
  | .unit digits acc, b =>
    match hexDigit? b with
    | none => none
    | some d =>
      if digits < 3 then some (some (.unit (digits + 1) (acc * 16 + d), []))
      else if IsHigh (acc * 16 + d) then some (some (.lowBackslash (acc * 16 + d), []))
      else if IsLow (acc * 16 + d) then none
      else some (some (.plain, utf8 (acc * 16 + d)))
  | .lowBackslash high, b => if b = 92 then some (some (.lowU high, [])) else none
  | .lowU high, b => if b = 117 then some (some (.lowUnit high 0 0, [])) else none
  | .lowUnit high digits acc, b =>
    match hexDigit? b with
    | none => none
    | some d =>
      if digits < 3 then some (some (.lowUnit high (digits + 1) (acc * 16 + d), []))
      else if IsLow (acc * 16 + d) then
        some (some (.plain, utf8 (pairPoint high (acc * 16 + d))))
      else none

/-- The rest of a string's value, and what follows the closing quote. -/
def readString : Esc → Text → Option (Text × Text)
  | _, [] => none
  | esc, b :: s =>
    match strStep esc b with
    | none => none
    | some none => some ([], s)
    | some (some (esc', out)) =>
      (readString esc' s).map fun p => (out ++ p.1, p.2)

example : readString .plain [34] = some ([], []) := by simp [readString, strStep]

theorem codeUnit?_eq_some {a b c d : UInt8} {u : Nat} :
    codeUnit? a b c d = some u ↔ ∃ a' b' c' d', hexDigit? a = some a' ∧ hexDigit? b = some b' ∧
      hexDigit? c = some c' ∧ hexDigit? d = some d' ∧
      u = ((a' * 16 + b') * 16 + c') * 16 + d' := by
  simp only [codeUnit?, Option.bind_eq_bind, Option.bind_eq_some_iff, Option.some.injEq]
  constructor
  · rintro ⟨a', ha, b', hb, c', hc, d', hd, rfl⟩
    exact ⟨a', b', c', d', ha, hb, hc, hd, rfl⟩
  · rintro ⟨a', b', c', d', ha, hb, hc, hd, rfl⟩
    exact ⟨a', ha, b', hb, c', hc, d', hd, rfl⟩

/-- A byte that keeps the string open. -/
theorem readString_cons {esc e : Esc} {b : UInt8} {o s : Text}
    (h : strStep esc b = some (some (e, o))) :
    readString esc (b :: s) = (readString e s).map fun p => (o ++ p.1, p.2) := by
  rw [readString, h]

/-- A byte that keeps the string open without adding to its value. -/
theorem readString_cons_silent {esc e : Esc} {b : UInt8} {s : Text}
    (h : strStep esc b = some (some (e, []))) :
    readString esc (b :: s) = readString e s := by
  rw [readString_cons h]
  simp

/-- What is read after some decoded bytes. -/
theorem exists_of_map_append {x : Option (Text × Text)} {out v rest : Text}
    (h : (x.map fun p => (out ++ p.1, p.2)) = some (v, rest)) :
    ∃ v', x = some (v', rest) ∧ v = out ++ v' := by
  obtain ⟨⟨v', rest'⟩, hx, heq⟩ := Option.map_eq_some_iff.mp h
  rw [Prod.mk.injEq] at heq
  exact ⟨v', heq.2 ▸ hx, heq.1.symm⟩

/-- Four hexadecimal digits of a code unit. -/
theorem readString_unit {a b c d : UInt8} {u : Nat} (hu : codeUnit? a b c d = some u) (s : Text) :
    readString (.unit 0 0) (a :: b :: c :: d :: s) =
      if IsHigh u then readString (.lowBackslash u) s
      else if IsLow u then none
      else (readString .plain s).map fun p => (utf8 u ++ p.1, p.2) := by
  obtain ⟨a', b', c', d', ha, hb, hc, hd, rfl⟩ := codeUnit?_eq_some.mp hu
  rw [readString_cons_silent (e := .unit 1 a') (by simp [strStep, ha]),
    readString_cons_silent (e := .unit 2 (a' * 16 + b')) (by simp [strStep, hb]),
    readString_cons_silent (e := .unit 3 ((a' * 16 + b') * 16 + c')) (by simp [strStep, hc])]
  by_cases hhigh : IsHigh (((a' * 16 + b') * 16 + c') * 16 + d')
  · rw [readString_cons_silent (e := .lowBackslash _) (by simp [strStep, hd, hhigh]; rfl),
      if_pos hhigh]
  · rw [if_neg hhigh]
    by_cases hlow : IsLow (((a' * 16 + b') * 16 + c') * 16 + d')
    · simp [readString, strStep, hd, hhigh, hlow]
    · rw [readString_cons (e := .plain) (by simp [strStep, hd, hhigh, hlow]; rfl), if_neg hlow]

/-- Four hexadecimal digits of the second code unit of a pair. -/
theorem readString_lowUnit {a b c d : UInt8} {u : Nat} (hu : codeUnit? a b c d = some u)
    (high : Nat) (s : Text) :
    readString (.lowUnit high 0 0) (a :: b :: c :: d :: s) =
      if IsLow u then (readString .plain s).map fun p => (utf8 (pairPoint high u) ++ p.1, p.2)
      else none := by
  obtain ⟨a', b', c', d', ha, hb, hc, hd, rfl⟩ := codeUnit?_eq_some.mp hu
  rw [readString_cons_silent (e := .lowUnit high 1 a') (by simp [strStep, ha]),
    readString_cons_silent (e := .lowUnit high 2 (a' * 16 + b')) (by simp [strStep, hb]),
    readString_cons_silent (e := .lowUnit high 3 ((a' * 16 + b') * 16 + c'))
      (by simp [strStep, hc])]
  by_cases hlow : IsLow (((a' * 16 + b') * 16 + c') * 16 + d')
  · rw [readString_cons (e := .plain) (by simp [strStep, hd, hlow]; rfl), if_pos hlow]
  · simp [readString, strStep, hd, hlow]

/-- The machine reads every string of the grammar. -/
theorem StringBody.read {s v rest : Text} (h : StringBody s v rest) :
    readString .plain s = some (v, rest) := by
  induction h with
  | close rest => rfl
  | @plain b s v rest hb _ ih =>
    have hstep : strStep .plain b = some (some (.plain, [b])) := by
      have hb' := hb
      simp only [isPlain, decide_eq_true_eq] at hb'
      simp [strStep, hb, hb'.1, hb'.2.1]
    rw [readString_cons hstep, ih]
    rfl
  | @short b c s v rest hb _ ih =>
    have hstep : strStep .backslash b = some (some (.plain, [c])) := by
      simp [strStep, hb]
    rw [readString_cons_silent (e := .backslash) rfl, readString_cons hstep, ih]
    rfl
  | @unit a b c d u s v rest hu hhigh hlow _ ih =>
    rw [readString_cons_silent (e := .backslash) rfl,
      readString_cons_silent (e := .unit 0 0) rfl, readString_unit hu, if_neg hhigh,
      if_neg hlow, ih]
    rfl
  | @pair a b c d a' b' c' d' u u' s v rest hu hhigh hu' hlow _ ih =>
    rw [readString_cons_silent (e := .backslash) rfl,
      readString_cons_silent (e := .unit 0 0) rfl, readString_unit hu, if_pos hhigh,
      readString_cons_silent (e := .lowU u) rfl,
      readString_cons_silent (e := .lowUnit u 0 0) rfl, readString_lowUnit hu', if_pos hlow, ih]
    rfl

/-- A digit that is read inside a code unit. -/
theorem exists_hex_of_readString {next : Nat → Option (Option (Esc × Text))} {esc : Esc} {s : Text}
    {p : Text × Text}
    (hesc : ∀ b, strStep esc b = match hexDigit? b with
      | none => none
      | some d => next d)
    (h : readString esc s = some p) :
    ∃ b s' d, s = b :: s' ∧ hexDigit? b = some d := by
  cases s with
  | nil => cases h
  | cons b s' =>
    cases hd : hexDigit? b with
    | none => simp [readString, hesc, hd] at h
    | some d => exact ⟨b, s', d, rfl, hd⟩

/-- A code unit that is read has four hexadecimal digits. -/
theorem exists_unit_of_readString {s : Text} {p : Text × Text}
    (h : readString (.unit 0 0) s = some p) :
    ∃ a b c d s' u, s = a :: b :: c :: d :: s' ∧ codeUnit? a b c d = some u := by
  obtain ⟨a, s, a', rfl, ha⟩ := exists_hex_of_readString (fun _ => rfl) h
  rw [readString_cons_silent (e := .unit 1 a') (by simp [strStep, ha])] at h
  obtain ⟨b, s, b', rfl, hb⟩ := exists_hex_of_readString (fun _ => rfl) h
  rw [readString_cons_silent (e := .unit 2 (a' * 16 + b')) (by simp [strStep, hb])] at h
  obtain ⟨c, s, c', rfl, hc⟩ := exists_hex_of_readString (fun _ => rfl) h
  rw [readString_cons_silent (e := .unit 3 ((a' * 16 + b') * 16 + c'))
    (by simp [strStep, hc])] at h
  obtain ⟨d, s, d', rfl, hd⟩ := exists_hex_of_readString (fun _ => rfl) h
  exact ⟨a, b, c, d, s, _, rfl, codeUnit?_eq_some.mpr ⟨a', b', c', d', ha, hb, hc, hd, rfl⟩⟩

theorem exists_lowUnit_of_readString {high : Nat} {s : Text} {p : Text × Text}
    (h : readString (.lowUnit high 0 0) s = some p) :
    ∃ a b c d s' u, s = a :: b :: c :: d :: s' ∧ codeUnit? a b c d = some u := by
  obtain ⟨a, s, a', rfl, ha⟩ := exists_hex_of_readString (fun _ => rfl) h
  rw [readString_cons_silent (e := .lowUnit high 1 a') (by simp [strStep, ha])] at h
  obtain ⟨b, s, b', rfl, hb⟩ := exists_hex_of_readString (fun _ => rfl) h
  rw [readString_cons_silent (e := .lowUnit high 2 (a' * 16 + b'))
    (by simp [strStep, hb])] at h
  obtain ⟨c, s, c', rfl, hc⟩ := exists_hex_of_readString (fun _ => rfl) h
  rw [readString_cons_silent (e := .lowUnit high 3 ((a' * 16 + b') * 16 + c'))
    (by simp [strStep, hc])] at h
  obtain ⟨d, s, d', rfl, hd⟩ := exists_hex_of_readString (fun _ => rfl) h
  exact ⟨a, b, c, d, s, _, rfl, codeUnit?_eq_some.mpr ⟨a', b', c', d', ha, hb, hc, hd, rfl⟩⟩

/-- A byte that a silent step needs. -/
theorem exists_byte_of_readString {c : UInt8} {next : Option (Esc × Text)} {esc : Esc} {s : Text}
    {p : Text × Text} (hesc : ∀ b, strStep esc b = if b = c then some next else none)
    (h : readString esc s = some p) : ∃ s', s = c :: s' := by
  cases s with
  | nil => cases h
  | cons b s' =>
    by_cases hb : b = c
    · exact ⟨s', by rw [hb]⟩
    · simp [readString, hesc, hb] at h

/-- What the machine reads after a backslash is an escape of the grammar. -/
theorem stringBody_of_backslash {s v rest : Text}
    (h : readString .backslash s = some (v, rest))
    (ih : ∀ s' v', s'.length < s.length → readString .plain s' = some (v', rest) →
      StringBody s' v' rest) :
    StringBody (92 :: s) v rest := by
  cases s with
  | nil => cases h
  | cons b s =>
    cases hb : shortEscape? b with
    | some c =>
      rw [readString_cons (e := .plain) (o := [c]) (by simp [strStep, hb])] at h
      obtain ⟨v', hv, rfl⟩ := exists_of_map_append h
      exact .short hb (ih s v' (Nat.lt_succ_self _) hv)
    | none =>
      by_cases hu : b = 117
      · subst hu
        have hopen : strStep .backslash 117 = some (some (.unit 0 0, [])) := rfl
        rw [readString_cons_silent hopen] at h
        obtain ⟨a, b, c, d, s, u, rfl, hunit⟩ := exists_unit_of_readString h
        rw [readString_unit hunit] at h
        by_cases hhigh : IsHigh u
        · rw [if_pos hhigh] at h
          obtain ⟨s, rfl⟩ := exists_byte_of_readString (fun _ => rfl) h
          rw [readString_cons_silent (e := .lowU u) rfl] at h
          obtain ⟨s, rfl⟩ := exists_byte_of_readString (fun _ => rfl) h
          rw [readString_cons_silent (e := .lowUnit u 0 0) rfl] at h
          obtain ⟨a', b', c', d', s, u', rfl, hunit'⟩ := exists_lowUnit_of_readString h
          rw [readString_lowUnit hunit'] at h
          by_cases hlow : IsLow u'
          · rw [if_pos hlow] at h
            obtain ⟨v', hv, heq⟩ := exists_of_map_append h
            rw [heq]
            exact .pair hunit hhigh hunit' hlow
              (ih s v' (by simp only [List.length_cons]; omega) hv)
          · rw [if_neg hlow] at h
            cases h
        · rw [if_neg hhigh] at h
          by_cases hlow : IsLow u
          · rw [if_pos hlow] at h
            cases h
          · rw [if_neg hlow] at h
            obtain ⟨v', hv, rfl⟩ := exists_of_map_append h
            exact .unit hunit hhigh hlow (ih s v' (by simp only [List.length_cons]; omega) hv)
      · simp [readString, strStep, hb, hu] at h

/-- Everything the machine reads is a string of the grammar. -/
theorem stringBody_of_readString {s v rest : Text} (h : readString .plain s = some (v, rest)) :
    StringBody s v rest := by
  induction hn : s.length using Nat.strongRecOn generalizing s v with
  | _ n ih =>
    subst hn
    cases s with
    | nil => cases h
    | cons b s =>
      by_cases hquote : b = 34
      · subst hquote
        cases h
        exact .close _
      by_cases hesc : b = 92
      · subst hesc
        rw [readString_cons_silent (e := .backslash) rfl] at h
        apply stringBody_of_backslash h
        intro s' v' hlt h'
        exact ih s'.length (Nat.lt_succ_of_lt hlt) h' rfl
      by_cases hplain : isPlain b = true
      · rw [readString_cons (e := .plain) (o := [b])
          (by simp [strStep, hquote, hesc, hplain])] at h
        obtain ⟨v', hv, rfl⟩ := exists_of_map_append h
        exact .plain hplain (ih s.length (Nat.lt_succ_self _) hv rfl)
      · simp [readString, strStep, hquote, hesc, hplain] at h

/-- The string machine reads exactly the strings of the grammar. -/
theorem stringBody_iff {s v rest : Text} :
    StringBody s v rest ↔ readString .plain s = some (v, rest) :=
  ⟨StringBody.read, stringBody_of_readString⟩

/-! ## Numbers -/

/-- Where a number stands after its first byte. -/
inductive NumPlace where
  | start
  | intDigits
  | fracStart
  | fracDigits
  | expStart
  | expSign
  | expDigits
  deriving Repr, DecidableEq

/-- The place after one more byte of the number. -/
def numStep : NumPlace → UInt8 → Option NumPlace
  | .start, b => if Decimal.isDigit b = true then some .intDigits else none
  | .intDigits, b =>
    if Decimal.isDigit b = true then some .intDigits
    else if b = 46 then some .fracStart
    else if b = 101 ∨ b = 69 then some .expStart
    else none
  | .fracStart, b => if Decimal.isDigit b = true then some .fracDigits else none
  | .fracDigits, b =>
    if Decimal.isDigit b = true then some .fracDigits
    else if b = 101 ∨ b = 69 then some .expStart
    else none
  | .expStart, b =>
    if b = 43 ∨ b = 45 then some .expSign
    else if Decimal.isDigit b = true then some .expDigits
    else none
  | .expSign, b => if Decimal.isDigit b = true then some .expDigits else none
  | .expDigits, b => if Decimal.isDigit b = true then some .expDigits else none

/-- The number may end here. -/
def NumPlace.ends : NumPlace → Bool
  | .intDigits => true
  | .fracDigits => true
  | .expDigits => true
  | _ => false

/-- `s` completes a number that stands at the given place. -/
def numTail : NumPlace → Text → Bool
  | place, [] => place.ends
  | place, b :: s =>
    match numStep place b with
    | some place' => numTail place' s
    | none => false

example : numTail .intDigits [46] = false := by
  simp [numTail, numStep, NumPlace.ends, Decimal.isDigit]

/-- Digits, possibly none. -/
def AllDigits (s : Text) : Prop := ∀ b ∈ s, Decimal.isDigit b = true

theorem allDigits_nil : AllDigits [] := by simp [AllDigits]

theorem allDigits_cons {b : UInt8} {s : Text} :
    AllDigits (b :: s) ↔ Decimal.isDigit b = true ∧ AllDigits s := by
  simp [AllDigits]

theorem digits_cons {b : UInt8} {s : Text} :
    Digits (b :: s) ↔ Decimal.isDigit b = true ∧ AllDigits s := by
  simp [Digits, AllDigits]

theorem not_digits_nil : ¬ Digits [] := fun h => h.1 rfl

theorem numTail_expDigits (s : Text) : numTail .expDigits s = true ↔ AllDigits s := by
  induction s with
  | nil => simp [numTail, NumPlace.ends, allDigits_nil]
  | cons b s ih =>
    rw [allDigits_cons]
    by_cases hb : Decimal.isDigit b = true
    · simp [numTail, numStep, hb, ih]
    · simp [numTail, numStep, hb]

/-- A place that needs a digit, after which any number of digits and a tail follow. -/
theorem numTail_of_digit {place next : NumPlace} {T : Text → Prop}
    (hstep : ∀ b, numStep place b = if Decimal.isDigit b = true then some next else none)
    (hends : place.ends = false)
    (hnext : ∀ s, numTail next s = true ↔ ∃ d t, s = d ++ t ∧ AllDigits d ∧ T t) (s : Text) :
    numTail place s = true ↔ ∃ d t, s = d ++ t ∧ Digits d ∧ T t := by
  cases s with
  | nil =>
    simp only [numTail, hends, Bool.false_eq_true, false_iff]
    rintro ⟨d, t, hnil, hd, -⟩
    exact not_digits_nil ((List.append_eq_nil_iff.mp hnil.symm).1 ▸ hd)
  | cons b s =>
    by_cases hb : Decimal.isDigit b = true
    · simp only [numTail, hstep, hb, if_true, hnext]
      constructor
      · rintro ⟨d, t, rfl, hd, ht⟩
        exact ⟨b :: d, t, rfl, digits_cons.mpr ⟨hb, hd⟩, ht⟩
      · rintro ⟨d, t, hs, hd, ht⟩
        cases d with
        | nil => exact absurd hd not_digits_nil
        | cons c d =>
          rw [List.cons_append, List.cons.injEq] at hs
          exact ⟨d, t, hs.2, (digits_cons.mp hd).2, ht⟩
    · simp only [numTail, hstep, hb, Bool.false_eq_true, if_false, false_iff]
      rintro ⟨d, t, hs, hd, -⟩
      cases d with
      | nil => exact not_digits_nil hd
      | cons c d =>
        rw [List.cons_append, List.cons.injEq] at hs
        exact hb (hs.1 ▸ (digits_cons.mp hd).1)

theorem numTail_expSign (s : Text) : numTail .expSign s = true ↔ Digits s := by
  rw [numTail_of_digit (T := fun t => t = []) (fun _ => rfl) rfl]
  · simp
  · intro s
    rw [numTail_expDigits]
    simp

/-- A digit is none of the other bytes of a number. -/
theorem isDigit_ne {b : UInt8} (hb : Decimal.isDigit b = true) :
    b ≠ 43 ∧ b ≠ 45 ∧ b ≠ 46 ∧ b ≠ 69 ∧ b ≠ 101 := by
  refine ⟨?_, ?_, ?_, ?_, ?_⟩ <;>
    · rintro rfl
      revert hb
      decide

/-- The part of an exponent after its letter. -/
def ExponentBody (s : Text) : Prop :=
  ∃ sign d, s = sign ++ d ∧ (sign = [] ∨ sign = [43] ∨ sign = [45]) ∧ Digits d

theorem exponent_iff {s : Text} :
    Exponent s ↔ s = [] ∨ ∃ e t, s = e :: t ∧ (e = 101 ∨ e = 69) ∧ ExponentBody t := by
  constructor
  · rintro (rfl | ⟨e, sign, d, rfl, he, hsign, hd⟩)
    · exact .inl rfl
    · exact .inr ⟨e, _, rfl, he, sign, d, rfl, hsign, hd⟩
  · rintro (rfl | ⟨e, _, rfl, he, sign, d, rfl, hsign, hd⟩)
    · exact .inl rfl
    · exact .inr ⟨e, sign, d, rfl, he, hsign, hd⟩

theorem numTail_expStart (s : Text) : numTail .expStart s = true ↔ ExponentBody s := by
  cases s with
  | nil =>
    simp only [numTail, NumPlace.ends, Bool.false_eq_true, false_iff]
    rintro ⟨sign, d, hs, -, hd⟩
    exact not_digits_nil ((List.append_eq_nil_iff.mp hs.symm).2 ▸ hd)
  | cons b s =>
    by_cases hsign : b = 43 ∨ b = 45
    · simp only [numTail, numStep, hsign, if_true, numTail_expSign]
      constructor
      · intro hd
        exact ⟨[b], s, rfl, .inr (by simpa using hsign), hd⟩
      · rintro ⟨sign, d, hs, rfl | rfl | rfl, hd⟩
        · have hd' : Digits (b :: s) := hs.symm ▸ hd
          have hb : Decimal.isDigit b = true := (digits_cons.mp hd').1
          exact absurd hsign (by simp [isDigit_ne hb])
        · simp only [List.cons_append, List.nil_append, List.cons.injEq] at hs
          exact hs.2 ▸ hd
        · simp only [List.cons_append, List.nil_append, List.cons.injEq] at hs
          exact hs.2 ▸ hd
    · have hbody : ExponentBody (b :: s) ↔ Digits (b :: s) := by
        constructor
        · rintro ⟨sign, d, hs, rfl | rfl | rfl, hd⟩
          · simpa [hs] using hd
          · simp only [List.cons_append, List.cons.injEq] at hs
            exact absurd (.inl hs.1) hsign
          · simp only [List.cons_append, List.cons.injEq] at hs
            exact absurd (.inr hs.1) hsign
        · intro hd
          exact ⟨[], b :: s, rfl, .inl rfl, hd⟩
      rw [hbody, digits_cons]
      by_cases hb : Decimal.isDigit b = true
      · simp [numTail, numStep, hsign, hb, numTail_expDigits]
      · simp [numTail, numStep, hsign, hb]

/-- A place inside a run of digits, which the tail ends. -/
theorem numTail_of_digits {place : NumPlace} {Tail : Text → Prop}
    (hstep : ∀ b, Decimal.isDigit b = true → numStep place b = some place)
    (hnil : place.ends = true ∧ Tail [])
    (hother : ∀ b s, Decimal.isDigit b ≠ true → (numTail place (b :: s) = true ↔ Tail (b :: s)))
    (htail : ∀ b s, Tail (b :: s) → Decimal.isDigit b ≠ true) (s : Text) :
    numTail place s = true ↔ ∃ d t, s = d ++ t ∧ AllDigits d ∧ Tail t := by
  induction s with
  | nil =>
    simp only [numTail, hnil.1, true_iff]
    exact ⟨[], [], rfl, allDigits_nil, hnil.2⟩
  | cons b s ih =>
    by_cases hb : Decimal.isDigit b = true
    · simp only [numTail, hstep b hb, ih]
      constructor
      · rintro ⟨d, t, rfl, hd, ht⟩
        exact ⟨b :: d, t, rfl, allDigits_cons.mpr ⟨hb, hd⟩, ht⟩
      · rintro ⟨d, t, hs, hd, ht⟩
        cases d with
        | nil => exact absurd hb (htail b s (by simpa [hs] using ht))
        | cons c d =>
          rw [List.cons_append, List.cons.injEq] at hs
          exact ⟨d, t, hs.2, (allDigits_cons.mp hd).2, ht⟩
    · rw [hother b s hb]
      constructor
      · intro ht
        exact ⟨[], b :: s, rfl, allDigits_nil, ht⟩
      · rintro ⟨d, t, hs, hd, ht⟩
        cases d with
        | nil => simpa [hs] using ht
        | cons c d =>
          rw [List.cons_append, List.cons.injEq] at hs
          exact absurd (hs.1 ▸ (allDigits_cons.mp hd).1) hb

theorem exponent_head {b : UInt8} {s : Text} (h : Exponent (b :: s)) : b = 101 ∨ b = 69 := by
  rcases exponent_iff.mp h with hnil | ⟨e, t, hs, he, -⟩
  · cases hnil
  · rw [List.cons.injEq] at hs
    exact hs.1 ▸ he

theorem exponent_cons {b : UInt8} {s : Text} :
    Exponent (b :: s) ↔ (b = 101 ∨ b = 69) ∧ numTail .expStart s = true := by
  rw [exponent_iff, numTail_expStart]
  constructor
  · rintro (hnil | ⟨e, t, hs, he, ht⟩)
    · cases hnil
    · rw [List.cons.injEq] at hs
      exact ⟨hs.1 ▸ he, hs.2 ▸ ht⟩
  · rintro ⟨hb, hs⟩
    exact .inr ⟨b, s, rfl, hb, hs⟩

theorem not_isDigit_of_exponent {b : UInt8} {s : Text} (h : Exponent (b :: s)) :
    Decimal.isDigit b ≠ true := by
  intro hb
  rcases exponent_head h with rfl | rfl <;> exact absurd hb (by decide)

theorem numTail_fracDigits (s : Text) :
    numTail .fracDigits s = true ↔ ∃ d t, s = d ++ t ∧ AllDigits d ∧ Exponent t := by
  apply numTail_of_digits
  · intro b hb
    simp [numStep, hb]
  · exact ⟨rfl, .inl rfl⟩
  · intro b s hb
    rw [exponent_cons]
    by_cases he : b = 101 ∨ b = 69
    · simp [numTail, numStep, hb, he]
    · simp [numTail, numStep, hb, he]
  · intro b s
    exact not_isDigit_of_exponent

theorem numTail_fracStart (s : Text) :
    numTail .fracStart s = true ↔ ∃ d t, s = d ++ t ∧ Digits d ∧ Exponent t :=
  numTail_of_digit (fun _ => rfl) rfl numTail_fracDigits s

/-- A fraction and an exponent, each possibly empty. -/
def FractionExponent (s : Text) : Prop := ∃ f e, s = f ++ e ∧ Fraction f ∧ Exponent e

theorem fractionExponent_cons {b : UInt8} {s : Text} :
    FractionExponent (b :: s) ↔ (b = 46 ∧ numTail .fracStart s = true) ∨ Exponent (b :: s) := by
  rw [numTail_fracStart]
  constructor
  · rintro ⟨f, e, hs, rfl | ⟨d, rfl, hd⟩, he⟩
    · exact .inr (by simpa [hs] using he)
    · rw [List.cons_append, List.cons.injEq] at hs
      exact .inl ⟨hs.1, d, e, hs.2, hd, he⟩
  · rintro (⟨rfl, d, e, rfl, hd, he⟩ | he)
    · exact ⟨46 :: d, e, rfl, .inr ⟨d, rfl, hd⟩, he⟩
    · exact ⟨[], b :: s, rfl, .inl rfl, he⟩

theorem numTail_intDigits (s : Text) :
    numTail .intDigits s = true ↔ ∃ d t, s = d ++ t ∧ AllDigits d ∧ FractionExponent t := by
  apply numTail_of_digits
  · intro b hb
    simp [numStep, hb]
  · exact ⟨rfl, [], [], rfl, .inl rfl, .inl rfl⟩
  · intro b s hb
    rw [fractionExponent_cons, exponent_cons]
    by_cases hdot : b = 46
    · have hdigit : Decimal.isDigit 46 = false := by decide
      simp [numTail, numStep, hdot, hdigit]
    · by_cases he : b = 101 ∨ b = 69
      · simp [numTail, numStep, hb, hdot, he]
      · simp [numTail, numStep, hb, hdot, he]
  · intro b s h
    rcases fractionExponent_cons.mp h with ⟨rfl, -⟩ | he
    · decide
    · exact not_isDigit_of_exponent he

theorem numTail_start (s : Text) :
    numTail .start s = true ↔ ∃ d t, s = d ++ t ∧ Digits d ∧ FractionExponent t :=
  numTail_of_digit (fun _ => rfl) rfl numTail_intDigits s

/-- The place a number stands at after its first byte. -/
def numFirst (b : UInt8) : Option NumPlace :=
  if b = 45 then some .start
  else if Decimal.isDigit b = true then some .intDigits
  else none

/-- The number machine reads exactly the numbers, superfluous leading zeros allowed. -/
theorem laxNumber_iff {n : Text} :
    LaxNumber n ↔ ∃ b s place, n = b :: s ∧ numFirst b = some place ∧ numTail place s = true := by
  constructor
  · rintro ⟨sign, int, frac, exp, rfl, rfl | rfl, hint, hfrac, hexp⟩
    · cases int with
      | nil => exact absurd hint not_digits_nil
      | cons b int =>
        obtain ⟨hb, hint⟩ := digits_cons.mp hint
        exact ⟨b, _, .intDigits, rfl, by simp [numFirst, isDigit_ne hb, hb],
          (numTail_intDigits _).mpr ⟨int, _, rfl, hint, frac, exp, rfl, hfrac, hexp⟩⟩
    · exact ⟨45, _, .start, rfl, rfl,
        (numTail_start _).mpr ⟨int, _, rfl, hint, frac, exp, rfl, hfrac, hexp⟩⟩
  · rintro ⟨b, s, place, rfl, hfirst, htail⟩
    by_cases hminus : b = 45
    · subst hminus
      cases hfirst
      obtain ⟨int, _, rfl, hint, frac, exp, rfl, hfrac, hexp⟩ := (numTail_start _).mp htail
      exact ⟨[45], int, frac, exp, rfl, .inr rfl, hint, hfrac, hexp⟩
    · by_cases hb : Decimal.isDigit b = true
      · simp only [numFirst, hminus, hb, if_false, if_true, Option.some.injEq] at hfirst
        subst hfirst
        obtain ⟨int, _, rfl, hint, frac, exp, rfl, hfrac, hexp⟩ := (numTail_intDigits _).mp htail
        exact ⟨[], b :: int, frac, exp, rfl, .inl rfl, digits_cons.mpr ⟨hb, hint⟩, hfrac, hexp⟩
      · simp [numFirst, hminus, hb] at hfirst

end JsonText
end Foundations
end Breadboard
