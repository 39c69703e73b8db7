import Breadboard.Foundations.JsonText
import Breadboard.SerializeJson.WriterText

/-!
# bb_serialize_json - the text the writer denotes is a JSON text

Each call of the walker is an event of the JSON text that the writer puts for it: escapes
are string bodies, decimals and both kinds of `double` are numbers, and the commas and
keys of the level stack are those of the grammar.

Main results:

- Theorem `reads_textOf`: a well-bracketed sequence of calls reads back as its events.
- Theorem `documentText_isText`: a document is a JSON text with the walker's events.
-/

namespace Breadboard
namespace SerializeJson

open Foundations Serialize
open Foundations.JsonText (Event Reads Kind IsText StringBody LaxNumber Digits isPlain shortEscape?
  codeUnit? utf8)
open Foundations.Decimal (decimal)

/-! ## Strings -/

/-- The four digits of an escaped control character are its code. -/
theorem codeUnit?_control {ch : UInt8} (h : ch < 32) :
    codeUnit? 48 48 (hexNibble (ch.toNat / 16 % 16)) (hexNibble (ch.toNat % 16)) = some ch.toNat := by
  have hall : ∀ n < 32, codeUnit? 48 48 (hexNibble (n / 16 % 16)) (hexNibble (n % 16)) = some n := by
    decide
  exact hall ch.toNat h

theorem utf8_control {ch : UInt8} (h : ch < 32) : utf8 ch.toNat = [ch] := by
  have hlt : ch.toNat < 32 := h
  rw [utf8, if_pos (by omega), UInt8.ofNat_toNat]

/-- The bytes put for one byte of a string read back as that byte. -/
theorem stringBody_escapeByte (ch : UInt8) {s v rest : Bytes} (h : StringBody s v rest) :
    StringBody (escapeByte ch ++ s) (ch :: v) rest := by
  unfold escapeByte
  split
  · next hch =>
    subst hch
    exact .short rfl h
  split
  · next hch =>
    subst hch
    exact .short rfl h
  split
  · next hch =>
    subst hch
    exact .short rfl h
  split
  · next hch =>
    subst hch
    exact .short rfl h
  split
  · next hch =>
    subst hch
    exact .short rfl h
  split
  · next hch =>
    subst hch
    exact .short rfl h
  split
  · next hch =>
    subst hch
    exact .short rfl h
  split
  · next hctl =>
    have hlt : ch.toNat < 32 := hctl
    have hunit := StringBody.unit (codeUnit?_control hctl) (fun hhigh => by
      have := hhigh.1
      omega) (fun hlow => by
      have := hlow.1
      omega) h
    rwa [utf8_control hctl] at hunit
  · next hquote hback _ _ _ _ _ hctl =>
    have hplain : isPlain ch = true := by
      simp only [isPlain, decide_eq_true_eq]
      exact ⟨hquote, hback, UInt8.not_lt.mp hctl⟩
    exact .plain hplain h

/-- An escaped string reads back as itself. -/
theorem stringBody_escape (s rest : Bytes) : StringBody (escape s ++ 34 :: rest) s rest := by
  induction s with
  | nil => exact .close rest
  | cons ch s ih =>
    rw [escape, List.flatMap_cons, List.append_assoc]
    exact stringBody_escapeByte ch ih

/-! ## Numbers -/

theorem digits_decimal (n : Nat) : Digits (decimal n) :=
  ⟨Decimal.decimal_ne_nil n, fun _ hb => Decimal.isDigit_of_mem_decimal hb⟩

/-- The first digits of a numeral are digits. -/
theorem digits_u64ToDec {cap : Nat} (hcap : 2 ≤ cap) (v : Nat) : Digits (u64ToDec cap v) := by
  constructor
  · have hne := Decimal.decimal_ne_nil v
    rw [u64ToDec, ne_eq, List.take_eq_nil_iff, not_or]
    exact ⟨by omega, hne⟩
  · intro b hb
    exact Decimal.isDigit_of_mem_decimal (List.mem_of_mem_take hb)

theorem laxNumber_of_digits {sign s : Bytes} (hsign : JsonText.Sign sign) (h : Digits s) :
    LaxNumber (sign ++ s) :=
  ⟨sign, s, [], [], by simp, hsign, h, .inl rfl, .inl rfl⟩

theorem laxNumber_i64ToDec {cap : Nat} (hcap : 3 ≤ cap) (v : Int) : LaxNumber (i64ToDec cap v) := by
  unfold i64ToDec
  rw [if_neg (by omega)]
  split
  · exact @laxNumber_of_digits [] _ (.inl rfl) (digits_u64ToDec (by omega) _)
  · rw [if_neg (by omega)]
    exact @laxNumber_of_digits [45] _ (.inr rfl) (digits_u64ToDec (by omega) _)

theorem digits_fracDigits {n : Nat} (hn : 1 ≤ n) (frac : Nat) : Digits (fracDigits n frac) := by
  have hdigit (n frac : Nat) : ∀ b ∈ fracDigits n frac, Decimal.isDigit b = true := by
    induction n generalizing frac with
    | zero => intro b hb; cases hb
    | succ n ih =>
      intro b hb
      rcases List.mem_append.mp hb with hb | hb
      · exact ih _ b hb
      · rw [List.mem_singleton.mp hb]
        exact Decimal.isDigit_digitByte (Nat.mod_lt _ (by decide))
  obtain ⟨n, rfl⟩ : ∃ k, n = k + 1 := ⟨n - 1, by omega⟩
  exact ⟨by simp [fracDigits], hdigit _ _⟩

/-- `%.*g` prints a finite value as a JSON number. -/
def Libc.PrintsNumbers (lib : Libc) : Prop :=
  ∀ precision v, v.isNaN = false → v.isInf = false → LaxNumber (lib.printG precision v)

section Text

variable (lib : Libc) (cfg : Kconfig) (f64Shortest : Bool)

theorem fixedText_cases (v : Float) : fixedText cfg v = nullText ∨ LaxNumber (fixedText cfg v) := by
  unfold fixedText
  split
  · exact .inl rfl
  dsimp only
  generalize (if decide (v < 0) = true then -v else v) = mag
  split
  · exact .inl rfl
  · refine .inr ⟨if decide (v < 0) then [45] else [], u64ToDec 21 (f64Parts cfg mag).1.toNat,
      46 :: fracDigits cfg.f64Decimals (f64Parts cfg mag).2.toNat, [], by simp, ?_,
      digits_u64ToDec (by decide) _, ?_, .inl rfl⟩
    · split
      · exact .inr rfl
      · exact .inl rfl
    · exact .inr ⟨_, rfl, digits_fracDigits cfg.f64Decimals_range.1 _⟩

theorem shortestText_number {lib : Libc} (hlib : lib.PrintsNumbers) {v : Float}
    (hnan : v.isNaN = false) (hinf : v.isInf = false) : LaxNumber (shortestText lib v) := by
  unfold shortestText
  dsimp only
  split
  · exact laxNumber_i64ToDec (by decide) _
  · generalize (if v.abs < (lib.strtod (lib.printG 15 v)).abs then
      (lib.strtod (lib.printG 15 v)).abs else v.abs) = maxAbs
    split
    · exact hlib 17 v hnan hinf
    · exact hlib 15 v hnan hinf

/-- A `double` is `null` or a number. -/
theorem f64Text_cases {lib : Libc} (hlib : lib.PrintsNumbers) (v : Float) :
    f64Text lib cfg f64Shortest v = nullText ∨ LaxNumber (f64Text lib cfg f64Shortest v) := by
  unfold f64Text
  split
  · split
    · exact .inl rfl
    · next hfinite =>
      rw [Bool.or_eq_true, not_or] at hfinite
      exact .inr (shortestText_number hlib (Bool.eq_false_iff.mpr hfinite.1)
        (Bool.eq_false_iff.mpr hfinite.2))
  · exact fixedText_cases cfg v

/-! ## Values -/

/-- The text of the value of a call, without what stands before it. -/
def valueText : Emit → Bytes
  | .beginObj _ => [123]
  | .endObj => [125]
  | .beginArr _ => [91]
  | .endArr => [93]
  | .i64 _ v => i64ToDec 22 v
  | .u64 _ v => u64ToDec 21 v
  | .f64 _ v => f64Text lib cfg f64Shortest v
  | .bool _ v => if v then [116, 114, 117, 101] else [102, 97, 108, 115, 101]
  | .str _ s => 34 :: escape s ++ [34]
  | .null _ => nullText

/-- The decimal text of an integer. -/
def intText (v : Int) : Bytes :=
  if 0 ≤ v then decimal v.toNat else 45 :: decimal v.natAbs

/-- The event of a call; a `double` without a number text is a null. -/
def eventOf : Emit → Event
  | .beginObj key => .beginObj (key.getD [])
  | .endObj => .endObj
  | .beginArr key => .beginArr (key.getD [])
  | .endArr => .endArr
  | .i64 key v => .num (key.getD []) (intText v)
  | .u64 key v => .num (key.getD []) (decimal v)
  | .f64 key v =>
    if f64Text lib cfg f64Shortest v = nullText then .null (key.getD [])
    else .num (key.getD []) (f64Text lib cfg f64Shortest v)
  | .bool key v => .bool (key.getD []) v
  | .str key s => .str (key.getD []) s
  | .null key => .null (key.getD [])

/-- The integers of a call are 64 bits wide. -/
def InRange : Emit → Prop
  | .i64 _ v => -2 ^ 63 ≤ v ∧ v < 2 ^ 63
  | .u64 _ v => v < 2 ^ 64
  | _ => True

end Text

theorem u64ToDec_eq {cap v : Nat} (hv : v < 10 ^ 20) (hcap : 21 ≤ cap) : u64ToDec cap v = decimal v := by
  have hlen : (decimal v).length ≤ 20 := Decimal.length_decimal_le hv
  rw [u64ToDec, List.take_of_length_le (by omega)]

theorem i64ToDec_eq {cap : Nat} (hcap : 22 ≤ cap) {v : Int} (hv : -2 ^ 63 ≤ v ∧ v < 2 ^ 63) :
    i64ToDec cap v = intText v := by
  unfold i64ToDec intText
  rw [if_neg (by omega)]
  split
  · rw [u64ToDec_eq (by omega) (by omega)]
  · rw [if_neg (by omega), u64ToDec_eq (by omega) (by omega)]

section Text

variable {lib : Libc} {cfg : Kconfig} {f64Shortest : Bool}

/-- A scalar reads back as its event. -/
theorem reads_leaf (hlib : lib.PrintsNumbers) {e : Emit} {key : Option Bytes}
    (hleaf : e.leafKey = some key) (hrange : InRange e) (rest : Bytes) :
    Reads LaxNumber (.value (key.getD [])) (valueText lib cfg f64Shortest e ++ rest)
      [eventOf lib cfg f64Shortest e] rest := by
  cases e with
  | i64 key v =>
    cases hleaf
    have hnum := @laxNumber_i64ToDec 22 (by decide) v
    rw [i64ToDec_eq (by decide) hrange] at hnum
    rw [valueText, i64ToDec_eq (by decide) hrange]
    exact .num rest hnum
  | u64 key v =>
    cases hleaf
    have hdec : u64ToDec 21 v = decimal v := by
      apply u64ToDec_eq _ (by decide)
      have hlt : v < 2 ^ 64 := hrange
      omega
    have hnum := @laxNumber_of_digits [] _ (.inl rfl) (digits_decimal v)
    rw [valueText, hdec]
    exact .num rest hnum
  | f64 key v =>
    cases hleaf
    rw [valueText, eventOf]
    by_cases hnull : f64Text lib cfg f64Shortest v = nullText
    · rw [if_pos hnull, hnull]
      exact .litNull _ rest
    · rw [if_neg hnull]
      exact .num rest ((f64Text_cases cfg f64Shortest hlib v).resolve_left hnull)
  | bool key v =>
    cases hleaf
    cases v
    · exact .litFalse _ rest
    · exact .litTrue _ rest
  | str key s =>
    cases hleaf
    rw [valueText, eventOf, List.cons_append, List.cons_append, List.append_assoc]
    exact .str (stringBody_escape s rest)
  | null key =>
    cases hleaf
    exact .litNull _ rest
  | _ => cases hleaf

/-! ## Containers -/

/-- What may stand next in the container of a level. -/
def bodyKind (level : Level) : Kind :=
  if level.isArray then if level.haveChild then .arrTail else .arrBody
  else if level.haveChild then .objTail else .objBody

/-- A value with what the writer puts before it. -/
theorem reads_item {N : Bytes → Prop} {top : Level} {key : Option Bytes}
    (hkey : key.isNone = top.isArray) {text rest tail : Bytes} {evs evs' : List Event}
    (hvalue : Reads N (.value (key.getD [])) text evs rest)
    (htail : Reads N (bodyKind top.withChild) rest evs' tail) :
    Reads N (bodyKind top) (preText top key ++ text) (evs ++ evs') tail := by
  obtain ⟨isArray, haveChild⟩ := top
  dsimp only at hkey
  cases isArray with
  | true =>
    obtain rfl : key = none := by simpa using hkey
    cases haveChild with
    | true => exact .arrNext (.element hvalue htail)
    | false => exact .arrFirst hvalue htail
  | false =>
    have hmember : Reads N (.colon (key.getD [])) (58 :: text) (evs ++ evs') tail :=
      .colon (.memberValue hvalue htail)
    have hbody := stringBody_escape (key.getD []) (58 :: text)
    cases haveChild with
    | true =>
      have hnext := Reads.objNext (.key hbody hmember)
      simpa [preText, bodyKind] using hnext
    | false =>
      have hfirst := Reads.objFirst hbody hmember
      simpa [preText, bodyKind] using hfirst

/-- A level after a sequence of items. -/
def afterItems (top : Level) (es : List Emit) : Level :=
  if es.isEmpty then top else top.withChild

theorem afterItems_withChild (top : Level) (es : List Emit) :
    afterItems top.withChild es = top.withChild := by
  unfold afterItems
  split <;> rfl

theorem afterItems_append_cons (top : Level) (es es' : List Emit) (e : Emit) :
    afterItems top (es ++ e :: es') = top.withChild := by
  unfold afterItems
  cases es <;> rfl

theorem emitText_eq {top : Level} {e : Emit} {key : Option Bytes} (h : e.leafKey = some key) :
    emitText lib cfg f64Shortest top e = preText top key ++ valueText lib cfg f64Shortest e := by
  cases e <;> cases h <;> rfl

theorem levelsAfter_leaf {top : Level} {below : List Level} {e : Emit} {key : Option Bytes}
    (h : e.leafKey = some key) : levelsAfter top below e = (top.withChild, below) := by
  cases e <;> cases h <;> rfl

/-- The end of a container. -/
theorem reads_close {N : Bytes → Prop} (isArray : Bool) (inner : List Emit) (rest : Bytes) :
    Reads N (bodyKind (afterItems ⟨isArray, false⟩ inner)) ((if isArray then 93 else 125) :: rest)
      [if isArray then .endArr else .endObj] rest := by
  cases isArray <;> cases inner
  · exact .objEmpty rest
  · exact .objEnd rest
  · exact .arrEmpty rest
  · exact .arrEnd rest

/-- A well-bracketed sequence of calls reads back as its events. -/
theorem reads_textOf (hlib : lib.PrintsNumbers) {isArray : Bool} {n : Nat} {es : List Emit}
    (h : Nested isArray n es) (hrange : ∀ e ∈ es, InRange e) {top : Level} {below : List Level}
    (htop : top.isArray = isArray) {es' : List Emit} {rest tail : Bytes} {evs : List Event}
    (hrest : Reads LaxNumber (bodyKind (afterItems top es))
      (textOf lib cfg f64Shortest (afterItems top es) below es' ++ rest) evs tail) :
    Reads LaxNumber (bodyKind top) (textOf lib cfg f64Shortest top below (es ++ es') ++ rest)
      (es.map (eventOf lib cfg f64Shortest) ++ evs) tail := by
  induction h generalizing top below es' rest tail evs with
  | nil => exact hrest
  | @leaf isArray n e key es hleaf hkey hes ih =>
    have hnext := @ih (fun e he => hrange e (List.mem_cons_of_mem _ he)) top.withChild below htop es'
      rest tail evs (by rwa [afterItems_withChild])
    have hvalue := @reads_leaf lib cfg f64Shortest hlib e key hleaf
      (hrange e (List.mem_cons_self ..))
      (textOf lib cfg f64Shortest top.withChild below (es ++ es') ++ rest)
    have hitem := reads_item (hkey.trans htop.symm) hvalue hnext
    rw [List.cons_append, textOf, levelsAfter_leaf hleaf, emitText_eq hleaf, List.append_assoc,
      List.append_assoc]
    exact hitem
  | @obj isArray n key inner es hkey hinner hes ihinner ih =>
    have hinnerRange : ∀ e ∈ inner, InRange e := fun e he => hrange e (by simp [he])
    have hesRange : ∀ e ∈ es, InRange e := fun e he => hrange e (by simp [he])
    have hnext := @ih hesRange top.withChild below htop es' rest tail evs (by
      rwa [afterItems_append_cons, ← afterItems_withChild top es] at hrest)
    have hclose := @reads_close LaxNumber false inner
      (textOf lib cfg f64Shortest top.withChild below (es ++ es') ++ rest)
    have hbody := @ihinner hinnerRange ⟨false, false⟩ (top.withChild :: below) rfl
      (.endObj :: (es ++ es')) rest _ _ hclose
    have hitem := reads_item (hkey.trans htop.symm) (Reads.obj hbody) hnext
    simpa [textOf, emitText, levelsAfter, eventOf] using hitem
  | @arr isArray n key inner es hkey hinner hes ihinner ih =>
    have hinnerRange : ∀ e ∈ inner, InRange e := fun e he => hrange e (by simp [he])
    have hesRange : ∀ e ∈ es, InRange e := fun e he => hrange e (by simp [he])
    have hnext := @ih hesRange top.withChild below htop es' rest tail evs (by
      rwa [afterItems_append_cons, ← afterItems_withChild top es] at hrest)
    have hclose := @reads_close LaxNumber true inner
      (textOf lib cfg f64Shortest top.withChild below (es ++ es') ++ rest)
    have hbody := @ihinner hinnerRange ⟨true, false⟩ (top.withChild :: below) rfl
      (.endArr :: (es ++ es')) rest _ _ hclose
    have hitem := reads_item (hkey.trans htop.symm) (Reads.arr hbody) hnext
    simpa [textOf, emitText, levelsAfter, eventOf] using hitem

/-- The events of a document. -/
def documentEvents (lib : Libc) (cfg : Kconfig) (f64Shortest : Bool) (es : List Emit) : List Event :=
  .beginObj [] :: es.map (eventOf lib cfg f64Shortest) ++ [.endObj]

/-- A document is a JSON text with the walker's events. -/
theorem documentText_isText (hlib : lib.PrintsNumbers) {n : Nat} {es : List Emit}
    (h : Nested false n es) (hrange : ∀ e ∈ es, InRange e) :
    IsText LaxNumber (documentText lib cfg f64Shortest es)
      (documentEvents lib cfg f64Shortest es) := by
  have hclose := @reads_close LaxNumber false es []
  have hbody := @reads_textOf lib cfg f64Shortest hlib false n es h hrange rootLevel [] rfl [] [125]
    [] _ hclose
  rw [List.append_nil] at hbody
  exact ⟨[], _, [], rfl, by simp, .obj hbody, by simp⟩

end Text

end SerializeJson
end Breadboard
