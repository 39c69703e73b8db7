import Breadboard.Str.Envelope

/-!
# The contract of bb_str_envelope_split

An envelope of an integer literal and a JSON object is split into the two.  A
payload whose time stamp is no bare integer literal should not be split at all,
but the scan only looks at the digits: it never checks that the number ends where
they do.

Main results:

- Theorem `envelopeSplit_envelope`: an envelope is split into its two pieces.
- Theorem `splitsAsClaimed_iff`: the payloads split as the contract says.
-/

namespace Breadboard
namespace Str

open Foundations Foundations.JsonText Foundations.BraceBalance Foundations.Decimal

/-! ## Integer literals -/

/-- The bytes of an integer literal are digits and the minus sign. -/
theorem mem_integerLiteral {n : Bytes} (h : IntegerLiteral n) {b : UInt8} (hb : b ∈ n) :
    b = 45 ∨ isDigit b = true := by
  rcases h with ⟨sign, digits, rfl, hsign, hdigits⟩
  rcases List.mem_append.mp hb with hb | hb
  · rcases hsign with rfl | rfl
    · cases hb
    · exact Or.inl (List.mem_singleton.mp hb)
  · exact Or.inr (hdigits.2 b hb)

theorem IntegerLiteral.ne_nil {n : Bytes} (h : IntegerLiteral n) : n ≠ [] := by
  rcases h with ⟨sign, digits, rfl, _, hdigits⟩
  intro hnil
  exact hdigits.1 (List.append_eq_nil_iff.mp hnil).2

/-- What follows the integer a text starts with: the digits are dropped behind the sign. -/
theorem StartsInteger.rest_eq {t n rest : Bytes} (h : StartsInteger t n rest) :
    rest = (if t.head? = some 45 then t.tail else t).dropWhile isDigit := by
  rcases h with ⟨rfl, ⟨sign, digits, rfl, hsign, hne, hall⟩, hrest⟩
  have hdrop : (digits ++ rest).dropWhile isDigit = rest := by
    rw [List.dropWhile_append_of_pos hall]
    cases rest with
    | nil => rfl
    | cons b rest =>
      have hb := hrest b rfl
      rw [List.dropWhile_cons, if_neg (by rw [hb]; exact Bool.false_ne_true)]
  rcases hsign with rfl | rfl
  · cases digits with
    | nil => exact absurd rfl hne
    | cons d ds =>
      have hd : d ≠ 45 := by
        intro heq
        have hdigit := hall d List.mem_cons_self
        rw [heq] at hdigit
        revert hdigit
        decide
      have hhead : ¬ ([] ++ d :: ds ++ rest).head? = some 45 := by
        intro heq
        injection heq with heq
        exact hd heq
      rw [if_neg hhead, List.nil_append, hdrop]
  · have hhead : ([45] ++ digits ++ rest).head? = some 45 := rfl
    rw [if_pos hhead]
    exact hdrop.symm

/-- A text starts with at most one integer literal in this way. -/
theorem StartsInteger.unique {t n rest n' rest' : Bytes} (h : StartsInteger t n rest)
    (h' : StartsInteger t n' rest') : n = n' ∧ rest = rest' := by
  have hrest : rest = rest' := by rw [h.rest_eq, h'.rest_eq]
  have happend : n ++ rest = n' ++ rest := by rw [← h.1, h'.1, hrest]
  exact ⟨List.append_cancel_right happend, hrest⟩

/-! ## The contract -/

/-- A byte that numbers are written with. -/
def isNumberByte (b : UInt8) : Bool :=
  isDigit b ∨ b ∈ ([43, 45, 46, 69, 101] : Bytes)

/-- The text starts with an integer literal that a byte of no number ends. -/
def BareInteger (t : Bytes) : Prop :=
  ∃ n c rest, t = n ++ c :: rest ∧ IntegerLiteral n ∧ isNumberByte c = false

/-- The envelope of a time stamp and a data object. -/
def envelope (n d : Bytes) : Bytes :=
  123 :: (tsKey ++ (n ++ (44 :: (dataKey ++ (d ++ [125])))))

/-- The two ranges of an envelope. -/
def envelopeRanges (n d : Bytes) : Ranges where
  tsStart := 9
  tsLen := n.length
  dataStart := 17 + n.length
  dataLen := d.length

/-- What the contract says of one call. -/
structure SplitsAsClaimed (payload : Bytes) (out : Ranges) : Prop where
  /-- The envelope of an integer literal and a JSON object is split into the two. -/
  roundTrip : ∀ n d evs, IntegerLiteral n → Reads RfcNumber .objBody d evs [] →
    payload = envelope n (123 :: d) →
      envelopeSplit payload out = some (true, envelopeRanges n (123 :: d))
  /-- Nothing outside the payload is read. -/
  inside : envelopeSplit payload out ≠ none
  /-- Without a bare integer and a balanced object, the answer is false and the output kept. -/
  refuses : (¬ ∃ ts data rest, valueAfter tsKey payload = some ts ∧ BareInteger ts ∧
      valueAfter dataKey payload = some data ∧ BraceObject data rest) →
    envelopeSplit payload out = some (false, out)

section

variable {payload : Bytes} {out : Ranges}

/-- A bare integer is an integer literal that no further byte of a number follows. -/
theorem startsInteger_of_bareInteger {t : Bytes} (h : BareInteger t) :
    ∃ n c rest, StartsInteger t n (c :: rest) ∧ isNumberByte c = false := by
  rcases h with ⟨n, c, rest, happend, hn, hc⟩
  refine ⟨n, c, rest, ⟨happend, hn, ?_⟩, hc⟩
  intro b hb
  injection hb with hb
  cases hdigit : isDigit b with
  | false => rfl
  | true => simp [isNumberByte, hb, hdigit] at hc

/-- White space is no part of an integer literal. -/
theorem isWs_of_mem_integerLiteral {n : Bytes} (h : IntegerLiteral n) {b : UInt8} (hb : b ∈ n) :
    isWs b = false := by
  rcases mem_integerLiteral h hb with rfl | hdigit
  · decide
  · cases hws : isWs b with
    | false => rfl
    | true =>
      simp only [isWs, decide_eq_true_eq] at hws
      rcases hws with rfl | rfl | rfl | rfl <;> exact absurd hdigit (by decide)

/-- The values behind the two keys of an envelope. -/
theorem valueAfter_envelope {n d : Bytes} (hn : IntegerLiteral n) :
    valueAfter tsKey (envelope n (123 :: d)) = some (n ++ (44 :: (dataKey ++ (123 :: d ++ [125])))) ∧
      valueAfter dataKey (envelope n (123 :: d)) = some (123 :: d ++ [125]) := by
  have hopen : ∀ b ∈ ([123] : Bytes), b ≠ 34 := by
    intro b hb
    rw [List.mem_singleton.mp hb]
    decide
  constructor
  · have hfirst : afterFirst tsKey (envelope n (123 :: d)) =
        some (n ++ (44 :: (dataKey ++ (123 :: d ++ [125])))) := by
      have hskip := @afterFirst_append UInt8 _ tsKey 34 rfl [123] hopen
      exact (hskip _).trans (afterFirst_self (by decide) _)
    rw [valueAfter, hfirst, Option.map_some]
    cases n with
    | nil => exact absurd rfl hn.ne_nil
    | cons b n =>
      have hb := isWs_of_mem_integerLiteral hn List.mem_cons_self
      rw [List.cons_append, List.dropWhile_cons, if_neg (by rw [hb]; exact Bool.false_ne_true)]
  · have hkey : ∀ w, afterFirst dataKey (123 :: (tsKey ++ w)) = afterFirst dataKey w := by
      intro w
      simp [afterFirst_cons, tsKey, dataKey, List.cons_prefix_cons]
    have hint : ∀ b ∈ n ++ [44], b ≠ 34 := by
      intro b hb
      rcases List.mem_append.mp hb with hb | hb
      · rcases mem_integerLiteral hn hb with rfl | hdigit
        · decide
        · intro hquote
          rw [hquote] at hdigit
          exact absurd hdigit (by decide)
      · rw [List.mem_singleton.mp hb]
        decide
    have hskip := @afterFirst_append UInt8 _ dataKey 34 rfl (n ++ [44]) hint
      (dataKey ++ (123 :: d ++ [125]))
    rw [List.append_assoc, List.singleton_append] at hskip
    rw [valueAfter, envelope, hkey, hskip, afterFirst_self (by decide)]
    rfl

/-- An envelope of an integer literal and a balanced object has these two pieces. -/
theorem pieces_envelope {n d : Bytes} (hn : IntegerLiteral n) (hd : BraceObject (123 :: d) []) :
    Pieces (envelope n (123 :: d)) (n ++ (44 :: (dataKey ++ (123 :: d ++ [125])))) n
      (44 :: (dataKey ++ (123 :: d ++ [125]))) (123 :: d ++ [125]) [125] := by
  rcases @valueAfter_envelope n d hn with ⟨hts, hdata⟩
  refine ⟨hts, ⟨rfl, hn, ?_⟩, hdata, hd.append [125]⟩
  intro b hb
  injection hb with hb
  rw [← hb]
  decide

/-- A payload has its pieces in one way. -/
theorem Pieces.unique {ts n tsRest data dataRest ts' n' tsRest' data' dataRest' : Bytes}
    (h : Pieces payload ts n tsRest data dataRest)
    (h' : Pieces payload ts' n' tsRest' data' dataRest') :
    ts = ts' ∧ n = n' ∧ tsRest = tsRest' ∧ data = data' ∧ dataRest = dataRest' := by
  have hts : ts = ts' := Option.some.inj (h.ts_value.symm.trans h'.ts_value)
  have hdata : data = data' := Option.some.inj (h.data_value.symm.trans h'.data_value)
  subst hts hdata
  rcases h.integer.unique h'.integer with ⟨hn, htsRest⟩
  exact ⟨rfl, hn, htsRest, rfl, h.object.unique h'.object⟩

/-- An envelope of an integer literal and a JSON object is split into the two. -/
theorem envelopeSplit_envelope {n d : Bytes} {evs : List Event} (hn : IntegerLiteral n)
    (hd : Reads RfcNumber .objBody d evs []) (out : Ranges) :
    envelopeSplit (envelope n (123 :: d)) out = some (true, envelopeRanges n (123 :: d)) := by
  have hpieces := pieces_envelope hn (braceObject_of_reads hd.lax)
  have hatTs : At (envelope n (123 :: d)) 9 (n ++ (44 :: (dataKey ++ (123 :: d ++ [125])))) :=
    @At.append (envelope n (123 :: d)) _ 0 (123 :: tsKey) (at_zero _)
  have hatData : At (envelope n (123 :: d)) (9 + n.length + 8) (123 :: d ++ [125]) :=
    @At.append (envelope n (123 :: d)) _ _ (44 :: dataKey) hatTs.append
  have hatRest : At (envelope n (123 :: d)) (9 + n.length + 8 + (123 :: d).length) [125] :=
    hatData.append
  rcases envelopeSplit_cases (envelope n (123 :: d)) out with ⟨_, hnone⟩ |
      ⟨ts, m, tsRest, data, dataRest, tsV, dataV, p, hpieces', hts, hdata, hrest, hsplit⟩
  · exact absurd ⟨_, _, _, _, _, hpieces⟩ hnone
  · rcases hpieces'.unique hpieces with ⟨rfl, rfl, rfl, rfl, rfl⟩
    have htsV := hts.unique hatTs
    have hdataV := hdata.unique hatData
    have hp := hrest.unique hatRest
    have hlen : p - dataV = (123 :: d).length := by omega
    have hstart : dataV = 17 + m.length := by omega
    rw [hsplit, hlen, htsV, hstart]
    rfl

/-- The split reads nothing outside the payload. -/
theorem envelopeSplit_ne_none (payload : Bytes) (out : Ranges) :
    envelopeSplit payload out ≠ none := by
  intro hnone
  rcases envelopeSplit_cases payload out with ⟨hsplit, _⟩ | ⟨_, _, _, _, _, _, _, _, _, _, _, _, hsplit⟩
  · rw [hnone] at hsplit
    cases hsplit
  · rw [hnone] at hsplit
    cases hsplit

/--
A call keeps the contract, unless the time stamp is an integer literal that a byte of a number or
the end of the payload follows while the data is a balanced object.
-/
theorem splitsAsClaimed_iff (payload : Bytes) (out : Ranges) :
    SplitsAsClaimed payload out ↔
      ¬ ∃ ts n tsRest data dataRest, Pieces payload ts n tsRest data dataRest ∧
        ∀ c ∈ tsRest.head?, isNumberByte c = true := by
  constructor
  · intro h hrun
    rcases hrun with ⟨ts, n, tsRest, data, dataRest, hpieces, hhead⟩
    have hrefused := h.refuses fun hbare => by
      rcases hbare with ⟨ts', data', rest', hts, hbare, _, _⟩
      have hvalue : ts' = ts := Option.some.inj (hts.symm.trans hpieces.ts_value)
      rcases startsInteger_of_bareInteger hbare with ⟨m, c, mRest, hstarts, hc⟩
      rw [hvalue] at hstarts
      have hrest := (hstarts.unique hpieces.integer).2
      have hnumber := hhead c (by rw [← hrest]; rfl)
      rw [hc] at hnumber
      cases hnumber
    rcases envelopeSplit_cases payload out with ⟨_, hnone⟩ |
        ⟨_, _, _, _, _, _, _, _, _, _, _, _, hsplit⟩
    · exact hnone ⟨ts, n, tsRest, data, dataRest, hpieces⟩
    · rw [hrefused] at hsplit
      cases hsplit
  · intro hends
    refine ⟨?_, envelopeSplit_ne_none payload out, ?_⟩
    · intro n d evs hn hd henvelope
      rw [henvelope]
      exact envelopeSplit_envelope hn hd out
    · intro hbare
      rcases envelopeSplit_cases payload out with ⟨hsplit, _⟩ |
          ⟨ts, n, tsRest, data, dataRest, _, _, _, hpieces, _⟩
      · exact hsplit
      · exfalso
        cases hrest : tsRest with
        | nil =>
          apply hends
          refine ⟨ts, n, tsRest, data, dataRest, hpieces, ?_⟩
          rw [hrest]
          intro c hc
          cases hc
        | cons c cs =>
          cases hnumber : isNumberByte c with
          | true =>
            apply hends
            refine ⟨ts, n, tsRest, data, dataRest, hpieces, ?_⟩
            rw [hrest]
            intro c' hc'
            injection hc' with hc'
            rw [← hc']
            exact hnumber
          | false =>
            apply hbare
            have happend := hpieces.integer.1
            rw [hrest] at happend
            exact ⟨ts, data, dataRest, hpieces.ts_value,
              ⟨n, c, cs, happend, hpieces.integer.2.1, hnumber⟩,
              hpieces.data_value, hpieces.object⟩

/-- The time stamp 1.5 is no integer, and the envelope is split all the same. -/
theorem fraction_split :
    ¬ SplitsAsClaimed
      (123 :: (tsKey ++ ([49, 46, 53] ++ (44 :: (dataKey ++ ([123, 125] ++ [125]))))))
      { tsStart := 0
        tsLen := 0
        dataStart := 0
        dataLen := 0 } := by
  intro h
  have hrefused := h.refuses fun hbare => by
    rcases hbare with ⟨ts, _, _, hts, ⟨n, c, rest, happend, hn, hc⟩, _, _⟩
    have hvalue : ts = [49, 46, 53, 44, 34, 100, 97, 116, 97, 34, 58, 123, 125, 125] := by
      injection hts.symm
    rw [hvalue] at happend
    cases n with
    | nil => exact absurd rfl hn.ne_nil
    | cons b n =>
      injection happend with _ htail
      cases n with
      | nil =>
        injection htail with hhead _
        rw [← hhead] at hc
        exact absurd hc (by decide)
      | cons b' n =>
        injection htail with hhead _
        have hdot := mem_integerLiteral hn (List.mem_cons_of_mem b List.mem_cons_self)
        rw [← hhead] at hdot
        exact absurd hdot (by decide)
  have hsplit : envelopeSplit
      (123 :: (tsKey ++ ([49, 46, 53] ++ (44 :: (dataKey ++ ([123, 125] ++ [125]))))))
      { tsStart := 0
        tsLen := 0
        dataStart := 0
        dataLen := 0 } =
      some (true,
        { tsStart := 9
          tsLen := 1
          dataStart := 20
          dataLen := 2 }) := by decide
  rw [hrefused] at hsplit
  cases hsplit

end

end Str
end Breadboard
