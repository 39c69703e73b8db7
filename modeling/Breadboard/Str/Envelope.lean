import Breadboard.Core.Basics
import Breadboard.Foundations.BraceBalance
import Breadboard.Foundations.FirstMatch
import Mathlib.Data.List.TakeWhile

/-!
# bb_str_envelope_split

The envelope around a cached value is split into its time stamp and its data
object by scanning the raw bytes: the keys are found as plain substrings, the
time stamp as a run of digits, the data object by its braces.

Pointers are offsets into the payload, and a read outside of it is no value at
all, so the results say of every read that it is inside.

Main results:

- Theorem `envelopeFindKeyValue_eq`: the search finds the value behind the first key.
- Theorem `envelopeSplit_cases`: what the split answers, for every payload.
- Theorem `splitsAsClaimed_iff`: the payloads it splits as its contract says.
-/

namespace Breadboard
namespace Str

open Foundations Foundations.JsonText Foundations.BraceBalance Foundations.Decimal

/-! ## The code -/

/-- The two ranges of the output: starts are offsets into the payload. -/
structure Ranges where
  tsStart : Nat
  tsLen : Nat
  dataStart : Nat
  dataLen : Nat
  deriving Repr, DecidableEq

/-- The `n` bytes from an offset on, all of them inside the payload. -/
def readBytes (payload : Bytes) (q n : Nat) : Option Bytes :=
  if q + n ≤ payload.length then some ((payload.drop q).take n) else none

/-- The loop `while (v < end && test(*v)) v++`. -/
def skipWhile (payload : Bytes) (test : UInt8 → Bool) : Nat → Nat → Option Nat
  | 0, _ => none
  | fuel + 1, v =>
    if v < payload.length then do
      let b ← payload[v]?
      if test b then skipWhile payload test fuel (v + 1) else some v
    else some v

/-- The loop of `bb_str_envelope_find_key_value`. -/
def findKeyLoop (payload key : Bytes) : Nat → Nat → Option (Option Nat)
  | 0, _ => none
  | fuel + 1, q =>
    if q + key.length ≤ payload.length then do
      let window ← readBytes payload q key.length
      if window = key then do
        let v ← skipWhile payload isWs (payload.length + 1) (q + key.length)
        some (some v)
      else findKeyLoop payload key fuel (q + 1)
    else some none

/-- `bb_str_envelope_find_key_value`: the offset of the value, if the key is there. -/
def envelopeFindKeyValue (payload key : Bytes) : Option (Option Nat) :=
  findKeyLoop payload key (payload.length + 1) 0

/-- The brace scan: the offset and the depth at its end. -/
def braceLoop (payload : Bytes) : Nat → Nat → Nat → Bool → Option (Nat × Nat)
  | 0, _, _, _ => none
  | fuel + 1, p, depth, inStr =>
    if p < payload.length then do
      let b ← payload[p]?
      if inStr then
        if b = 92 then braceLoop payload fuel (p + 2) depth true
        else braceLoop payload fuel (p + 1) depth (b ≠ 34)
      else if b = 34 then braceLoop payload fuel (p + 1) depth true
      else if b = 123 then braceLoop payload fuel (p + 1) (depth + 1) false
      else if b = 125 then
        -- the scan starts on a brace, so there is one to take back
        if depth - 1 = 0 then some (p + 1, 0)
        else braceLoop payload fuel (p + 1) (depth - 1) false
      else braceLoop payload fuel (p + 1) depth false
    else some (p, depth)

/-- The key of the time stamp, with its quotes and colon. -/
def tsKey : Bytes := [34, 116, 115, 95, 109, 115, 34, 58]

/-- The key of the data object. -/
def dataKey : Bytes := [34, 100, 97, 116, 97, 34, 58]

/-- The end of the integer at an offset, or none where there is no digit. -/
def scanInteger (payload : Bytes) (tsV : Nat) : Option (Option Nat) := do
  let signed ← if tsV < payload.length then do
      let b ← payload[tsV]?
      some (b = 45 : Bool)
    else some false
  let tsEnd ← skipWhile payload isDigit (payload.length + 1) (if signed then tsV + 1 else tsV)
  if tsEnd = tsV then some none
  else if tsEnd = tsV + 1 then do
    let b ← payload[tsV]?
    if b = 45 then some none else some (some tsEnd)
  else some (some tsEnd)

/-- The end of the object at an offset, or none where there is no balanced one. -/
def scanObject (payload : Bytes) (dataV : Nat) : Option (Option Nat) :=
  if payload.length ≤ dataV then some none
  else do
    let b ← payload[dataV]?
    if b ≠ 123 then some none
    else do
      let (p, depth) ← braceLoop payload (payload.length + 2) dataV 0 false
      if depth ≠ 0 then some none else some (some p)

/--
`bb_str_envelope_split`: its answer and the output after it, or none where it would read
outside the payload.
-/
def envelopeSplit (payload : Bytes) (out : Ranges) : Option (Bool × Ranges) := do
  if payload.length = 0 then some (false, out)
  else
    match ← envelopeFindKeyValue payload tsKey with
    | none => some (false, out)
    | some tsV =>
      match ← scanInteger payload tsV with
      | none => some (false, out)
      | some tsEnd =>
        match ← envelopeFindKeyValue payload dataKey with
        | none => some (false, out)
        | some dataV =>
          match ← scanObject payload dataV with
          | none => some (false, out)
          | some p =>
            some (true,
              { tsStart := tsV
                tsLen := tsEnd - tsV
                dataStart := dataV
                dataLen := p - dataV })

/-! ## Offsets and what is left behind them -/

/-- The offset is inside the payload or at its end, and `s` is left from there on. -/
def At (payload : Bytes) (v : Nat) (s : Bytes) : Prop :=
  v ≤ payload.length ∧ payload.drop v = s

section

variable {payload key s : Bytes} {v : Nat} {b : UInt8}

theorem at_zero (payload : Bytes) : At payload 0 payload :=
  ⟨Nat.zero_le _, rfl⟩

theorem At.add_length (h : At payload v s) : v + s.length = payload.length := by
  have hlen := congrArg List.length h.2
  have hle := h.1
  rw [List.length_drop] at hlen
  omega

theorem At.eq_end (h : At payload v []) : v = payload.length := by
  have hlen := h.add_length
  rw [List.length_nil, Nat.add_zero] at hlen
  exact hlen

/-- A byte that is left is inside the payload, and reading it gives it. -/
theorem At.cons (h : At payload v (b :: s)) :
    v < payload.length ∧ payload[v]? = some b ∧ At payload (v + 1) s := by
  have hlen := h.add_length
  rw [List.length_cons] at hlen
  have hget : payload[v]? = some b := by
    have hhead := congrArg List.head? h.2
    rw [List.head?_drop] at hhead
    exact hhead
  have htail : payload.drop (v + 1) = s := by
    rw [← List.tail_drop, h.2, List.tail_cons]
  exact ⟨by omega, hget, by omega, htail⟩

theorem At.append {w : Bytes} (h : At payload v (w ++ s)) : At payload (v + w.length) s := by
  have hlen := h.add_length
  rw [List.length_append] at hlen
  have hdrop : payload.drop (v + w.length) = s := by
    rw [← List.drop_drop, h.2, List.drop_left]
  exact ⟨by omega, hdrop⟩

/-- Two offsets with the same bytes left are the same. -/
theorem At.unique {v' : Nat} (h : At payload v s) (h' : At payload v' s) : v = v' := by
  have hlen := h.add_length
  have hlen' := h'.add_length
  omega

/-- A loop over the bytes that pass a test stops at the first that does not. -/
theorem skipWhile_eq (test : UInt8 → Bool) {fuel : Nat} (h : At payload v s)
    (hfuel : s.length < fuel) :
    ∃ v', skipWhile payload test fuel v = some v' ∧ At payload v' (s.dropWhile test) := by
  induction fuel generalizing v s with
  | zero => omega
  | succ fuel ih =>
    unfold skipWhile
    cases s with
    | nil =>
      rw [if_neg (by rw [h.eq_end]; exact Nat.lt_irrefl _)]
      exact ⟨v, rfl, h⟩
    | cons b s =>
      rcases h.cons with ⟨hlt, hget, hnext⟩
      rw [if_pos hlt, hget, List.dropWhile_cons]
      change ∃ v', (if test b = true then skipWhile payload test fuel (v + 1) else some v) = some v' ∧ _
      cases htest : test b with
      | true =>
        rw [List.length_cons] at hfuel
        exact ih hnext (by omega)
      | false => exact ⟨v, rfl, h⟩

/-! ## Keys -/

/-- The bytes from the value behind the first occurrence of a key on. -/
def valueAfter (key payload : Bytes) : Option Bytes :=
  (afterFirst key payload).map (List.dropWhile isWs)

/-- The answer of a search: nothing, or the offset of what it found. -/
def Finds (payload : Bytes) : Option Bytes → Option Nat → Prop
  | none, found => found = none
  | some s, found => ∃ v, found = some v ∧ At payload v s

theorem readBytes_eq {n : Nat} (h : At payload v s) (hn : n ≤ s.length) :
    readBytes payload v n = some (s.take n) := by
  have hlen := h.add_length
  unfold readBytes
  rw [if_pos (by omega), h.2]

theorem findKeyLoop_eq (hkey : key ≠ []) {fuel : Nat} (h : At payload v s)
    (hfuel : s.length < fuel) :
    ∃ found, findKeyLoop payload key fuel v = some found ∧
      Finds payload ((afterFirst key s).map (List.dropWhile isWs)) found := by
  induction fuel generalizing v s with
  | zero => omega
  | succ fuel ih =>
    have hlen := h.add_length
    have hpos := List.length_pos_iff.mpr hkey
    unfold findKeyLoop
    cases s with
    | nil =>
      rw [List.length_nil] at hlen
      rw [if_neg (by omega), afterFirst_nil hkey]
      exact ⟨none, rfl, rfl⟩
    | cons b s =>
      by_cases hroom : key.length ≤ (b :: s).length
      · rw [if_pos (by omega), readBytes_eq h hroom, afterFirst_cons]
        by_cases hmatch : key <+: b :: s
        · have hwindow : (b :: s).take key.length = key := (List.prefix_iff_eq_take.mp hmatch).symm
          have hsplit : At payload v (key ++ (b :: s).drop key.length) := by
            have happend := List.take_append_drop key.length (b :: s)
            rw [hwindow] at happend
            rw [happend]
            exact h
          have hvalue := hsplit.append
          have hshort : ((b :: s).drop key.length).length < payload.length + 1 := by
            rw [List.length_drop]
            omega
          rcases skipWhile_eq isWs hvalue hshort with ⟨v', hskip, hat⟩
          rw [if_pos hmatch]
          refine ⟨some v', ?_, v', rfl, hat⟩
          simp [hwindow, hskip]
        · have hwindow : (b :: s).take key.length ≠ key := by
            intro heq
            exact hmatch (List.prefix_iff_eq_take.mpr heq.symm)
          rw [List.length_cons] at hfuel
          rcases ih h.cons.2.2 (by omega) with ⟨found, hfound, hspec⟩
          rw [if_neg hmatch]
          refine ⟨found, ?_, hspec⟩
          simp [hwindow, hfound]
      · rw [if_neg (by omega)]
        refine ⟨none, rfl, ?_⟩
        have hnone : afterFirst key (b :: s) = none :=
          afterFirst_of_length_lt hkey (Nat.not_le.mp hroom)
        rw [hnone]
        rfl

/-- The search reads inside the payload and finds the value behind the first key. -/
theorem envelopeFindKeyValue_eq (hkey : key ≠ []) :
    ∃ found, envelopeFindKeyValue payload key = some found ∧
      Finds payload (valueAfter key payload) found :=
  findKeyLoop_eq hkey (at_zero payload) (Nat.lt_succ_self _)

/-! ## The integer -/

/-- An integer literal: an optional minus sign and digits. -/
def IntegerLiteral (n : Bytes) : Prop :=
  ∃ sign digits, n = sign ++ digits ∧ Sign sign ∧ Digits digits

/-- The text starts with an integer literal, and no further digit follows. -/
def StartsInteger (t n rest : Bytes) : Prop :=
  t = n ++ rest ∧ IntegerLiteral n ∧ ∀ b ∈ rest.head?, isDigit b = false

theorem head?_dropWhile_not (test : UInt8 → Bool) (w : Bytes) :
    ∀ b ∈ (w.dropWhile test).head?, test b = false := by
  induction w with
  | nil => simp
  | cons c w ih =>
    rw [List.dropWhile_cons]
    cases htest : test c with
    | true => exact ih
    | false =>
      intro b hb
      cases hb
      exact htest

/-- Digits behind an optional sign are an integer literal. -/
theorem startsInteger_of_digits {sign t : Bytes} (hsign : Sign sign)
    (hdigits : t.takeWhile isDigit ≠ []) :
    StartsInteger (sign ++ t) (sign ++ t.takeWhile isDigit) (t.dropWhile isDigit) := by
  refine ⟨?_, ⟨sign, t.takeWhile isDigit, rfl, hsign, hdigits, ?_⟩, head?_dropWhile_not isDigit t⟩
  · rw [List.append_assoc, List.takeWhile_append_dropWhile]
  · intro b hb
    exact List.mem_takeWhile_imp hb

theorem takeWhile_ne_nil_of_digits {digits rest : Bytes} (h : Digits digits) :
    (digits ++ rest).takeWhile isDigit ≠ [] := by
  rcases h with ⟨hne, hall⟩
  cases digits with
  | nil => exact absurd rfl hne
  | cons d ds => simp [hall d List.mem_cons_self]

/-- Without a digit behind the optional sign there is no integer literal. -/
theorem not_startsInteger {b : UInt8} {t : Bytes}
    (hminus : b = 45 → t.takeWhile isDigit = []) (hplain : b ≠ 45 → isDigit b = false) :
    ¬ ∃ n rest, StartsInteger (b :: t) n rest := by
  intro h
  rcases h with ⟨n, rest, happend, ⟨sign, digits, rfl, hsign, hdigits⟩, _⟩
  rcases hsign with rfl | rfl
  · rcases hdigits with ⟨hne, hall⟩
    cases digits with
    | nil => exact hne rfl
    | cons d ds =>
      have hhead : b = d := by injection happend
      have hd := hall d List.mem_cons_self
      by_cases hb : b = 45
      · rw [← hhead, hb] at hd
        revert hd
        decide
      · rw [← hhead, hplain hb] at hd
        cases hd
  · have hb : b = 45 := by injection happend
    have ht : t = digits ++ rest := by
      rw [List.append_assoc, List.singleton_append] at happend
      injection happend
    have hnone := hminus hb
    rw [ht] at hnone
    exact takeWhile_ne_nil_of_digits hdigits hnone

/-- The scan of the time stamp reads inside the payload and finds the integer, if there is one. -/
theorem scanInteger_eq {t : Bytes} (h : At payload v t) :
    ∃ found, scanInteger payload v = some found ∧
      (found = none ∧ (¬ ∃ n rest, StartsInteger t n rest) ∨
        ∃ n rest v', found = some v' ∧ StartsInteger t n rest ∧ At payload v' rest) := by
  have hlen := h.add_length
  unfold scanInteger
  cases t with
  | nil =>
    have hend : ¬ v < payload.length := by
      rw [h.eq_end]
      exact Nat.lt_irrefl _
    rcases skipWhile_eq isDigit h (Nat.succ_pos payload.length) with ⟨v', hskip, hat⟩
    have hv : v' = v := hat.unique h
    refine ⟨none, by simp [hend, hskip, hv], Or.inl ⟨rfl, ?_⟩⟩
    intro hstarts
    rcases hstarts with ⟨n, rest, happend, ⟨sign, digits, rfl, _, hdigits⟩, _⟩
    have hnil := (List.append_eq_nil_iff.mp (List.append_eq_nil_iff.mp happend.symm).1).2
    exact hdigits.1 hnil
  | cons b t =>
    rcases h.cons with ⟨hlt, hget, hnext⟩
    have hbyte : payload[v] = b := (List.getElem?_eq_some_iff.mp hget).2
    rw [List.length_cons] at hlen
    by_cases hb : b = 45
    · rcases skipWhile_eq isDigit hnext (show t.length < payload.length + 1 by omega) with
        ⟨v', hskip, hat⟩
      have hend := hat.add_length
      have hsplit := List.takeWhile_append_dropWhile (p := isDigit) (l := t)
      have hcount := congrArg List.length hsplit
      rw [List.length_append] at hcount
      by_cases hdigits : t.takeWhile isDigit = []
      · rw [hdigits, List.length_nil] at hcount
        have hv : v' = v + 1 := by omega
        refine ⟨none, by simp [hlt, hbyte, hb, hskip, hv], Or.inl ⟨rfl, ?_⟩⟩
        exact not_startsInteger (fun _ => hdigits) fun hne => absurd hb hne
      · have hpos := List.length_pos_iff.mpr hdigits
        have hne : v' ≠ v := by omega
        have hne' : v' ≠ v + 1 := by omega
        have hstarts := @startsInteger_of_digits [45] t (Or.inr rfl) hdigits
        rw [← hb] at hstarts
        refine ⟨some v', by simp [hlt, hbyte, hb, hskip, hne, hne'], Or.inr ?_⟩
        exact ⟨_, _, v', rfl, hstarts, hat⟩
    · have hfuel : (b :: t).length < payload.length + 1 := by
        rw [List.length_cons]
        omega
      rcases skipWhile_eq isDigit h hfuel with ⟨v', hskip, hat⟩
      have hend := hat.add_length
      have hsplit := List.takeWhile_append_dropWhile (p := isDigit) (l := b :: t)
      have hcount := congrArg List.length hsplit
      rw [List.length_append, List.length_cons] at hcount
      by_cases hdigits : (b :: t).takeWhile isDigit = []
      · rw [hdigits, List.length_nil] at hcount
        have hv : v' = v := by omega
        refine ⟨none, by simp [hlt, hbyte, hb, hskip, hv], Or.inl ⟨rfl, ?_⟩⟩
        apply not_startsInteger fun hminus => absurd hminus hb
        intro _
        cases hdigit : isDigit b with
        | false => rfl
        | true => simp [hdigit] at hdigits
      · have hpos := List.length_pos_iff.mpr hdigits
        have hne : v' ≠ v := by omega
        have hstarts := @startsInteger_of_digits [] (b :: t) (Or.inl rfl) hdigits
        refine ⟨some v', by simp [hlt, hbyte, hb, hskip, hne], Or.inr ?_⟩
        exact ⟨_, _, v', rfl, hstarts, hat⟩

/-! ## The object -/

/-- The brace scan over the payload is the scan over the bytes left. -/
theorem braceLoop_eq {fuel depth : Nat} {inStr : Bool} (h : At payload v s)
    (hfuel : s.length < fuel) :
    ∃ p depth', braceLoop payload fuel v (depth + 1) inStr = some (p, depth') ∧
      match closing inStr (depth + 1) s with
      | none => depth' ≠ 0
      | some rest => depth' = 0 ∧ At payload p rest := by
  induction fuel generalizing v s depth inStr with
  | zero => omega
  | succ fuel ih =>
    have hlen := h.add_length
    unfold braceLoop
    cases s with
    | nil =>
      rw [if_neg (by rw [h.eq_end]; exact Nat.lt_irrefl _), closing_nil]
      exact ⟨v, depth + 1, rfl, Nat.succ_ne_zero depth⟩
    | cons b s =>
      rcases h.cons with ⟨hlt, hget, hnext⟩
      rw [List.length_cons] at hfuel
      have hshort : s.length < fuel := by omega
      rw [if_pos hlt, hget]
      cases inStr with
      | true =>
        rw [closing_true_cons]
        by_cases hslash : b = 92
        · simp only [hslash, if_true, Option.bind_eq_bind, Option.bind_some]
          cases s with
          | nil =>
            -- a backslash at the end takes the scan past the end, where it stops
            have hend := hnext.eq_end
            cases fuel with
            | zero => omega
            | succ fuel =>
              refine ⟨v + 2, depth + 1, ?_, Nat.succ_ne_zero depth⟩
              unfold braceLoop
              rw [if_neg (by omega)]
          | cons c s =>
            rw [List.length_cons] at hshort
            exact ih hnext.cons.2.2 (by omega)
        · by_cases hquote : b = 34
          · simpa [hslash, hquote] using @ih _ _ depth false hnext hshort
          · simpa [hslash, hquote] using @ih _ _ depth true hnext hshort
      | false =>
        rw [closing_false_cons]
        by_cases hquote : b = 34
        · simpa [hquote] using @ih _ _ depth true hnext hshort
        · by_cases hopen : b = 123
          · simpa [hopen] using @ih _ _ (depth + 1) false hnext hshort
          · by_cases hclose : b = 125
            · cases depth with
              | zero => simp [hclose, hnext]
              | succ depth => simpa [hclose] using @ih _ _ depth false hnext hshort
            · simpa [hquote, hopen, hclose] using @ih _ _ depth false hnext hshort

/-- The scan of the data reads inside the payload and finds the object, if there is one. -/
theorem scanObject_eq {d : Bytes} (h : At payload v d) :
    ∃ found, scanObject payload v = some found ∧
      (found = none ∧ (¬ ∃ rest, BraceObject d rest) ∨
        ∃ rest p, found = some p ∧ BraceObject d rest ∧ At payload p rest) := by
  have hlen := h.add_length
  unfold scanObject
  cases d with
  | nil =>
    rw [if_pos (Nat.le_of_eq h.eq_end.symm)]
    refine ⟨none, rfl, Or.inl ⟨rfl, ?_⟩⟩
    intro hobject
    rcases hobject with ⟨rest, inner, hcons, _⟩
    cases hcons
  | cons b d =>
    rcases h.cons with ⟨hlt, hget, hnext⟩
    rw [List.length_cons] at hlen
    rw [if_neg (by omega), hget]
    by_cases hopen : b = 123
    · subst hopen
      have hloop := @braceLoop_eq payload d (v + 1) (payload.length + 1) 0 false hnext (by omega)
      have hfirst : braceLoop payload (payload.length + 2) v 0 false =
          braceLoop payload (payload.length + 1) (v + 1) 1 false := by
        rw [braceLoop, if_pos hlt, hget]
        rfl
      rcases hloop with ⟨p, depth', hrun, hspec⟩
      cases hclosing : closing false (0 + 1) d with
      | none =>
        rw [hclosing] at hspec
        refine ⟨none, by simp [hfirst, hrun, hspec], Or.inl ⟨rfl, ?_⟩⟩
        intro hobject
        rcases hobject with ⟨rest, hobject⟩
        rw [Nat.zero_add, closing_eq_some_iff.mpr hobject] at hclosing
        cases hclosing
      | some rest =>
        rw [hclosing] at hspec
        refine ⟨some p, by simp [hfirst, hrun, hspec.1], Or.inr ?_⟩
        exact ⟨rest, p, rfl, closing_eq_some_iff.mp hclosing, hspec.2⟩
    · refine ⟨none, by simp [hopen], Or.inl ⟨rfl, ?_⟩⟩
      intro hobject
      rcases hobject with ⟨rest, inner, hcons, _⟩
      injection hcons with hhead _
      exact hopen hhead

/-! ## The split -/

/--
The payload has an integer literal `n` behind the first time stamp key and a balanced object
behind the first data key: `ts` and `data` are what is left from the two values on,
`tsRest` and `dataRest` what follows them.
-/
structure Pieces (payload ts n tsRest data dataRest : Bytes) : Prop where
  ts_value : valueAfter tsKey payload = some ts
  integer : StartsInteger ts n tsRest
  data_value : valueAfter dataKey payload = some data
  object : BraceObject data dataRest

/-- The split reads inside the payload and succeeds exactly where the two pieces are. -/
theorem envelopeSplit_cases (payload : Bytes) (out : Ranges) :
    (envelopeSplit payload out = some (false, out) ∧
      ¬ ∃ ts n tsRest data dataRest, Pieces payload ts n tsRest data dataRest) ∨
    ∃ ts n tsRest data dataRest tsV dataV p, Pieces payload ts n tsRest data dataRest ∧
      At payload tsV ts ∧ At payload dataV data ∧ At payload p dataRest ∧
      envelopeSplit payload out = some (true,
        { tsStart := tsV
          tsLen := n.length
          dataStart := dataV
          dataLen := p - dataV }) := by
  have hts := @envelopeFindKeyValue_eq payload tsKey (by decide)
  have hdata := @envelopeFindKeyValue_eq payload dataKey (by decide)
  rcases hts with ⟨foundTs, hfindTs, hspecTs⟩
  rcases hdata with ⟨foundData, hfindData, hspecData⟩
  by_cases hempty : payload.length = 0
  · left
    have hnil := List.length_eq_zero_iff.mp hempty
    subst hnil
    refine ⟨rfl, ?_⟩
    intro hpieces
    rcases hpieces with ⟨ts, _, _, _, _, hpieces⟩
    have hvalue := hpieces.ts_value
    cases hvalue
  unfold envelopeSplit
  rw [if_neg hempty, hfindTs]
  cases hvalueTs : valueAfter tsKey payload with
  | none =>
    rw [hvalueTs] at hspecTs
    subst hspecTs
    left
    refine ⟨rfl, ?_⟩
    intro hpieces
    rcases hpieces with ⟨ts, _, _, _, _, hpieces⟩
    have hvalue := hpieces.ts_value
    rw [hvalueTs] at hvalue
    cases hvalue
  | some ts =>
    rw [hvalueTs] at hspecTs
    rcases hspecTs with ⟨tsV, rfl, hatTs⟩
    rcases scanInteger_eq hatTs with ⟨foundEnd, hscan, hspecEnd⟩
    simp only [Option.bind_eq_bind, Option.bind_some, hscan]
    rcases hspecEnd with ⟨rfl, hnone⟩ | ⟨n, tsRest, tsEnd, rfl, hstarts, hatEnd⟩
    · left
      refine ⟨rfl, ?_⟩
      intro hpieces
      rcases hpieces with ⟨ts', n, tsRest, _, _, hpieces⟩
      have hvalue := hpieces.ts_value
      rw [hvalueTs] at hvalue
      injection hvalue with hvalue
      exact hnone ⟨n, tsRest, hvalue ▸ hpieces.integer⟩
    simp only [hfindData]
    cases hvalueData : valueAfter dataKey payload with
    | none =>
      rw [hvalueData] at hspecData
      subst hspecData
      left
      refine ⟨rfl, ?_⟩
      intro hpieces
      rcases hpieces with ⟨_, _, _, data, _, hpieces⟩
      have hvalue := hpieces.data_value
      rw [hvalueData] at hvalue
      cases hvalue
    | some data =>
      rw [hvalueData] at hspecData
      rcases hspecData with ⟨dataV, rfl, hatData⟩
      rcases scanObject_eq hatData with ⟨foundObject, hobject, hspecObject⟩
      simp only [Option.bind_some, hobject]
      rcases hspecObject with ⟨rfl, hnone⟩ | ⟨dataRest, p, rfl, hbrace, hatRest⟩
      · left
        refine ⟨rfl, ?_⟩
        intro hpieces
        rcases hpieces with ⟨_, _, _, data', dataRest, hpieces⟩
        have hvalue := hpieces.data_value
        rw [hvalueData] at hvalue
        injection hvalue with hvalue
        exact hnone ⟨dataRest, hvalue ▸ hpieces.object⟩
      · right
        have hlenTs := hatTs.add_length
        have hlenEnd := hatEnd.add_length
        rw [hstarts.1, List.length_append] at hlenTs
        have hlen : tsEnd - tsV = n.length := by omega
        exact ⟨ts, n, tsRest, data, dataRest, tsV, dataV, p,
          ⟨hvalueTs, hstarts, hvalueData, hbrace⟩, hatTs, hatData, hatRest, by rw [hlen]⟩

end

end Str
end Breadboard
