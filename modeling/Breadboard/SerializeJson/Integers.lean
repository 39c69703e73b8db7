import Breadboard.Foundations.NumberValue
import Breadboard.SerializeJson.TokFaithful
import Mathlib.Data.List.TakeWhile

/-!
# bb_serialize_json - integers that are read back

A number with a fraction or an exponent is refused.  What is left goes through
`strtoll`, which clamps without a word, and `get_u64` casts the result: so a
number is read back as its value exactly when that value is in the range of the signed type,
and for `get_u64` not negative either.

Main results:

- Theorem `strtoll_of_plain`: `strtoll` is the value, clamped.
- Theorem `integers_exact_iff`: when the integer getters hand back the value.
-/

namespace Breadboard
namespace SerializeJson

open Foundations Serialize
open Foundations.JsonText (Json Event IsText LaxNumber HasValue Plain intValue Digits elemsEvents
  membersEvents hasValue_iff_of_plain)

/-! ## strtoll -/

/-- The clamp of an `ERANGE`. -/
def clampI64 (v : Int) : Int :=
  if v < -2 ^ 63 then -2 ^ 63 else if 2 ^ 63 - 1 < v then 2 ^ 63 - 1 else v

theorem strtoll_of_digits {digits : Bytes} (h : Digits digits) :
    strtoll digits = clampI64 (Decimal.value digits) ∧
      strtoll (45 :: digits) = clampI64 (-Decimal.value digits) := by
  have hall : digits.takeWhile Decimal.isDigit = digits := List.takeWhile_eq_self_iff.mpr h.2
  constructor
  · unfold strtoll
    dsimp only
    split
    next rest =>
      have hminus : Decimal.isDigit 45 = true := h.2 45 List.mem_cons_self
      simp [Decimal.isDigit] at hminus
    next rest _ =>
      have hplus : Decimal.isDigit 43 = true := h.2 43 List.mem_cons_self
      simp [Decimal.isDigit] at hplus
    next =>
      rw [hall]
      rfl
  · have hminus : strtoll (45 :: digits) =
        clampI64 (-(Decimal.value (digits.takeWhile Decimal.isDigit) : Int)) := rfl
    rw [hminus, hall]

/-- `strtoll` on a number without fraction and exponent: its value, clamped. -/
theorem strtoll_of_plain {text : Bytes} (htext : LaxNumber text) (hplain : Plain text) :
    strtoll text = clampI64 (intValue text) := by
  obtain ⟨sign, int, frac, exp, rfl, hsign, hint, hfrac, hexp⟩ := htext
  obtain ⟨rfl, rfl⟩ := JsonText.digits_of_plain hfrac hexp hplain
  rw [List.append_nil, List.append_nil]
  rcases hsign with rfl | rfl
  · rw [List.nil_append, JsonText.intValue_of_digits hint]
    exact (strtoll_of_digits hint).1
  · exact (strtoll_of_digits hint).2

theorem clampI64_eq_iff (v : Int) : clampI64 v = v ↔ -2 ^ 63 ≤ v ∧ v < 2 ^ 63 := by
  unfold clampI64
  split
  · omega
  split <;> omega

/-! ## The getters -/

section Getters

variable {lib : Libc} {cfg : Kconfig} {pool : List Tok}

/-- `bb_serialize_json_tok_get_i64` hands back the value of the text, if it hands back any. -/
def ReadsI64 (pool : List Tok) (i : Nat) (text : Bytes) : Prop :=
  ∀ v, tokGetI64 pool (some i) = some v → HasValue text v

/-- The same for `populate_get_u64`. -/
def ReadsU64 (st : Cursor) (key text : Bytes) : Prop :=
  ∀ v, (populateSource.getU64 st key).1 = some v → HasValue text v.toNat

/-- A value that is an integer within bounds, if it is written as one. -/
def FitsIn (low high : Int) (text : Bytes) : Prop :=
  Plain text → low ≤ intValue text ∧ intValue text < high

theorem tokNumInexact_eq_false_iff {text : Bytes} (hlen : text.length ≤ cfg.scratchMaxBytes) :
    tokNumInexact cfg text = false ↔ Plain text := by
  unfold tokNumInexact Plain
  rw [List.take_of_length_le hlen]
  simp [and_assoc]

/-- What `get_i64` answers for the token of a number. -/
theorem tokGetI64_of_num {i : Nat} {text : Bytes} (h : Represents lib cfg pool i (.num text))
    (htext : LaxNumber text) (hlen : text.length ≤ cfg.scratchMaxBytes) :
    tokGetI64 pool (some i) = if Plain text then some (clampI64 (intValue text)) else none := by
  cases h with
  | @num _ _ t htok hval hinexact =>
    obtain ⟨val, key, numInexact, childCount, parent⟩ := t
    dsimp only at hval hinexact
    subst hval
    subst hinexact
    unfold tokGetI64 tokAt
    rw [Option.bind_some, htok]
    cases hplain : tokNumInexact cfg text with
    | false =>
      have htext' := (tokNumInexact_eq_false_iff hlen).mp hplain
      rw [if_pos htext', ← strtoll_of_plain htext htext']
      simp [tokParseNum, List.take_of_length_le hlen]
    | true =>
      rw [if_neg fun hnot => by
        rw [(tokNumInexact_eq_false_iff hlen).mpr hnot] at hplain
        cases hplain]
      simp [tokParseNum]

theorem readsI64_iff {i : Nat} {text : Bytes} (h : Represents lib cfg pool i (.num text))
    (htext : LaxNumber text) (hlen : text.length ≤ cfg.scratchMaxBytes) :
    ReadsI64 pool i text ↔ FitsIn (-2 ^ 63) (2 ^ 63) text := by
  unfold ReadsI64 FitsIn
  rw [tokGetI64_of_num h htext hlen]
  by_cases hplain : Plain text
  · rw [if_pos hplain]
    constructor
    · intro hread _
      have hvalue := (hasValue_iff_of_plain htext hplain _).mp (hread _ rfl)
      exact (clampI64_eq_iff _).mp (by exact_mod_cast hvalue)
    · intro hfits v hv
      cases hv
      rw [hasValue_iff_of_plain htext hplain, (clampI64_eq_iff _).mpr (hfits hplain)]
  · rw [if_neg hplain]
    exact ⟨fun _ hnot => absurd hnot hplain, fun _ => nofun⟩

/-- The unsigned value behind the bits of a clamped integer. -/
theorem toNat_clamp_eq_iff (v : Int) :
    ((BitVec.ofInt 64 (clampI64 v)).toNat : Int) = v ↔ 0 ≤ v ∧ v < 2 ^ 63 := by
  rw [BitVec.toNat_ofInt]
  unfold clampI64
  split
  · omega
  split <;> omega

theorem readsU64_iff {i : Nat} {text key : Bytes} {st : Cursor} (hpool : st.pool = pool)
    (hget : tokObjGet st.pool st.top.idx key = some i)
    (h : Represents lib cfg pool i (.num text)) (htext : LaxNumber text)
    (hlen : text.length ≤ cfg.scratchMaxBytes) :
    ReadsU64 st key text ↔ FitsIn 0 (2 ^ 63) text := by
  have hanswer : (populateSource.getU64 st key).1 =
      (tokGetI64 pool (some i)).map (BitVec.ofInt 64) := by
    show (tokGetI64 st.pool (tokObjGet st.pool st.top.idx key)).map _ = _
    rw [hget, hpool]
  unfold ReadsU64 FitsIn
  rw [hanswer, tokGetI64_of_num h htext hlen]
  by_cases hplain : Plain text
  · rw [if_pos hplain, Option.map_some]
    constructor
    · intro hread _
      have hvalue := (hasValue_iff_of_plain htext hplain _).mp (hread _ rfl)
      exact (toNat_clamp_eq_iff _).mp (by exact_mod_cast hvalue)
    · intro hfits v hv
      cases hv
      rw [hasValue_iff_of_plain htext hplain]
      exact_mod_cast (toNat_clamp_eq_iff _).mpr (hfits hplain)
  · rw [if_neg hplain]
    exact ⟨fun _ hnot => absurd hnot hplain, fun _ => nofun⟩

end Getters

/-! ## The numbers of a document -/

section Numbers

mutual

/-- A number of a document is one of its events. -/
theorem num_mem_events {text : Bytes} (key : Bytes) : ∀ j : Json, .num text ∈ preorder j →
    ∃ key', Event.num key' text ∈ j.events key
  | .null, h => by simp [preorder] at h
  | .bool _, h => by simp [preorder] at h
  | .str _, h => by simp [preorder] at h
  | .num own, h => by
    rw [Json.events]
    obtain rfl : text = own := by simpa [preorder] using h
    exact ⟨key, List.mem_singleton_self _⟩
  | .arr elems, h => by
    rw [preorder, List.mem_cons] at h
    rw [Json.events]
    obtain ⟨key', hmem⟩ := num_mem_elemsEvents elems (h.resolve_left nofun)
    exact ⟨key', List.mem_cons_of_mem _ hmem⟩
  | .obj members, h => by
    rw [preorder, List.mem_cons] at h
    rw [Json.events]
    obtain ⟨key', hmem⟩ := num_mem_membersEvents members (h.resolve_left nofun)
    exact ⟨key', List.mem_cons_of_mem _ hmem⟩

theorem num_mem_elemsEvents {text : Bytes} : ∀ js : List Json, .num text ∈ elemsPreorder js →
    ∃ key', Event.num key' text ∈ elemsEvents js
  | [], h => by simp [elemsPreorder] at h
  | j :: js, h => by
    rw [elemsPreorder, List.mem_append] at h
    rw [elemsEvents]
    rcases h with hhead | hrest
    · obtain ⟨key', hmem⟩ := num_mem_events [] j hhead
      exact ⟨key', List.mem_append_left _ hmem⟩
    · obtain ⟨key', hmem⟩ := num_mem_elemsEvents js hrest
      exact ⟨key', List.mem_append_right _ hmem⟩

theorem num_mem_membersEvents {text : Bytes} : ∀ ms : List (Bytes × Json),
    .num text ∈ membersPreorder ms → ∃ key', Event.num key' text ∈ membersEvents ms
  | [], h => by simp [membersPreorder] at h
  | (key, j) :: ms, h => by
    rw [membersPreorder, List.mem_append] at h
    rw [membersEvents]
    rcases h with hhead | hrest
    · obtain ⟨key', hmem⟩ := num_mem_events key j hhead
      exact ⟨key', List.mem_append_left _ hmem⟩
    · obtain ⟨key', hmem⟩ := num_mem_membersEvents ms hrest
      exact ⟨key', List.mem_append_right _ hmem⟩

end

variable (lib : Libc) (cfg : Kconfig)

/-- The number texts of a scanned document follow the grammar and fit the scratch. -/
theorem num_of_scanned {buf text : Bytes} {j : Json} {i : Nat}
    (htext : IsText LaxNumber buf (j.events [])) (hlimits : WithinLimits cfg (j.events []))
    (hnum : (preorder j)[i]? = some (.num text)) :
    LaxNumber text ∧ text.length ≤ cfg.scratchMaxBytes := by
  obtain ⟨key, hmem⟩ := num_mem_events [] j (List.mem_of_getElem? hnum)
  obtain ⟨w, s, w', -, -, hreads, -⟩ := htext
  exact ⟨hreads.num_mem hmem, Nat.le_trans (Nat.le_add_left _ _) (hlimits.2 _ hmem)⟩

/--
In every scanned document, each number is read back by `get_i64` as its value exactly when
it is written with a fraction or an exponent, or fits the signed type; and by `get_u64`
exactly when it is so and not negative.
-/
theorem integers_exact_iff (poolCap arenaCap : Nat) (buf : Bytes) (r : Recorder)
    (h : scanBounded cfg (tokSink lib cfg) (.init poolCap arenaCap) buf = (r, .ok)) :
    ∃ j : Json, IsText LaxNumber buf (j.events []) ∧ WithinLimits cfg (j.events []) ∧
      ∀ i text, (preorder j)[i]? = some (.num text) →
        (ReadsI64 r.pool i text ↔ FitsIn (-2 ^ 63) (2 ^ 63) text) ∧
        ∀ (st : Cursor) (key : Bytes), st.pool = r.pool →
          tokObjGet st.pool st.top.idx key = some i →
          (ReadsU64 st key text ↔ FitsIn 0 (2 ^ 63) text) := by
  obtain ⟨j, htext, hlimits, hpool⟩ := pool_of_scan_ok h
  refine ⟨j, htext, hlimits, fun i text hnum => ?_⟩
  obtain ⟨hlax, hlen⟩ := num_of_scanned cfg htext hlimits hnum
  have hrep : Represents lib cfg r.pool i (.num text) := hpool ▸ represents_preorder j hnum
  exact ⟨readsI64_iff hrep hlax hlen, fun st key hst hget => readsU64_iff hst hget hrep hlax hlen⟩

/-- The object with the member `"n":-1`. -/
def minusOne : Bytes :=
  [123, 34, 110, 34, 58, 45, 49, 125]

theorem integers_exact_minusOne :
    ∃ j : Json, IsText LaxNumber minusOne (j.events []) ∧ WithinLimits .default (j.events []) ∧
      ∀ i text, (preorder j)[i]? = some (.num text) →
        (ReadsI64 (scanBounded .default (tokSink noNumbers .default) (.init 8 0) minusOne).1.pool i
          text ↔ FitsIn (-2 ^ 63) (2 ^ 63) text) ∧
        ∀ (st : Cursor) (key : Bytes),
          st.pool = (scanBounded .default (tokSink noNumbers .default) (.init 8 0) minusOne).1.pool →
          tokObjGet st.pool st.top.idx key = some i →
          (ReadsU64 st key text ↔ FitsIn 0 (2 ^ 63) text) :=
  integers_exact_iff noNumbers .default 8 0 minusOne _ (Prod.ext rfl (by decide +kernel))

/-- The number 2^63 as a document. -/
def twoPow63 : Bytes :=
  [57, 50, 50, 51, 51, 55, 50, 48, 51, 54, 56, 53, 52, 55, 55, 53, 56, 48, 56]

/-- What the recorder has of a document without strings. -/
def recorded (buf : Bytes) : List Tok :=
  (scanBounded .default (tokSink noNumbers .default) (.init 8 0) buf).1.pool

/-- 2^63 is read back as 2^63 - 1, and -1 as 2^64 - 1. -/
theorem integers_clamped_and_wrapped :
    ¬ ReadsI64 (recorded twoPow63) 0 twoPow63 ∧
      ¬ ReadsU64 (populateFromTok (recorded minusOne)) [110] [45, 49] := by
  constructor
  · intro hread
    have hanswer : tokGetI64 (recorded twoPow63) (some 0) = some (2 ^ 63 - 1) := by decide +kernel
    have hlax : LaxNumber twoPow63 :=
      ⟨[], twoPow63, [], [], by simp, .inl rfl, ⟨by decide, by simp [twoPow63, Decimal.isDigit]⟩,
        .inl rfl, .inl rfl⟩
    have hvalue := (hasValue_iff_of_plain hlax (by decide) _).mp (hread _ hanswer)
    have hreal : intValue twoPow63 = 2 ^ 63 := by decide
    rw [hreal] at hvalue
    norm_num at hvalue
  · intro hread
    have hanswer : (populateSource.getU64 (populateFromTok (recorded minusOne)) [110]).1 =
        some (BitVec.ofNat 64 (2 ^ 64 - 1)) := by decide +kernel
    have hlax : LaxNumber [45, 49] :=
      ⟨[45], [49], [], [], rfl, .inr rfl, ⟨by decide, by simp [Decimal.isDigit]⟩, .inl rfl, .inl rfl⟩
    have hvalue := (hasValue_iff_of_plain hlax (by decide) _).mp (hread _ hanswer)
    have hreal : intValue [45, 49] = -1 := by decide
    rw [hreal] at hvalue
    norm_num at hvalue

end Numbers

end SerializeJson
end Breadboard
