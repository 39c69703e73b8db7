import Breadboard.Foundations.Logfmt
import Breadboard.Foundations.Pieces
import Breadboard.SerializeJson.RoundTrip

/-!
# bb_serialize_logfmt - one line for a flat descriptor

Every byte of the line goes through `bb_logfmt_put`, which writes a piece whole or not at
all and remembers the first piece that did not fit.  The last byte of the buffer is kept for the
terminator.

Main results:

- Theorem `tracks_logfmtEmitAll`: the buffer holds the text of the calls, or they do not fit.
- Theorem `render_reads_back`: a line that is rendered reads back to the fields shown, and
  one that does not fit leaves an empty string.
-/

namespace Breadboard
namespace SerializeLogfmt

open Foundations Serialize

/-! ## The writer -/

/-- `bb_serialize_logfmt_ctx_t`. -/
structure Ctx where
  buf : Bytes
  cap : Nat
  len : Nat
  err : BbErr
  deriving Repr, DecidableEq

/-- `bb_serialize_logfmt_ctx_init`. -/
def Ctx.init (buf : Bytes) (cap : Nat) : Ctx where
  buf := buf
  cap := cap
  len := 0
  err := .ok

/-- `bb_logfmt_put`; the lengths of two objects in memory add up without wrapping. -/
def logfmtPut (c : Ctx) (s : Bytes) : Ctx :=
  if c.err ≠ .ok then c
  else if c.cap < c.len + s.length then { c with err := .noSpace }
  else { c with buf := overwrite c.buf c.len s, len := c.len + s.length }

/-- `bb_logfmt_putc`. -/
def logfmtPutc (c : Ctx) (ch : UInt8) : Ctx :=
  logfmtPut c [ch]

/-- `bb_logfmt_needs_quote`. -/
def logfmtNeedsQuote (s : Bytes) : Bool :=
  if s.length = 0 then true
  else s.any fun c => c == 32 || c == 34 || c == 61 || c == 92 || c < 32

/-- The digits `bb_logfmt_write_quoted` looks up. -/
def hexTable : Bytes :=
  [48, 49, 50, 51, 52, 53, 54, 55, 56, 57, 97, 98, 99, 100, 101, 102]

/-- What `bb_logfmt_write_quoted` puts for one byte. -/
def escapedByte (c : UInt8) : Bytes :=
  if c = 34 then [92, 34]
  else if c = 92 then [92, 92]
  else if c = 10 then [92, 110]
  else if c = 13 then [92, 114]
  else if c = 9 then [92, 116]
  else if c < 32 then
    [92, 120, hexTable.getD (c.toNat / 16 % 16) 0, hexTable.getD (c.toNat % 16) 0]
  else [c]

/-- `bb_logfmt_write_quoted`. -/
def logfmtWriteQuoted (c : Ctx) (s : Bytes) : Ctx :=
  logfmtPutc (s.foldl (fun c ch => logfmtPut c (escapedByte ch)) (logfmtPutc c 34)) 34

/-- `bb_logfmt_write_str`. -/
def logfmtWriteStr (c : Ctx) (s : Bytes) : Ctx :=
  if logfmtNeedsQuote s then logfmtWriteQuoted c s else logfmtPut c s

/-- `bb_logfmt_write_u64`. -/
def logfmtWriteU64 (c : Ctx) (v : Nat) : Ctx :=
  logfmtPut c (SerializeJson.u64ToDec 21 v)

/-- `bb_logfmt_write_i64`. -/
def logfmtWriteI64 (c : Ctx) (v : Int) : Ctx :=
  logfmtPut c (SerializeJson.i64ToDec 22 v)

/-- `null`. -/
def nullText : Bytes := [110, 117, 108, 108]

/-- `bb_logfmt_write_f64`, with `BB_SERIALIZE_LOGFMT_F64_DECIMALS`. -/
def logfmtWriteF64 (decimals : Nat) (c : Ctx) (v : Float) : Ctx :=
  if v.isNaN || v.isInf then logfmtPut c nullText
  else
    let neg := decide (v < 0)
    let mag := if neg then -v else v
    if 18446744073709551616.0 ≤ mag then logfmtPut c nullText
    else
      let intPart := mag.toUInt64
      let scale := SerializeJson.pow10.getD decimals 1
      let fracI := ((mag - intPart.toFloat) * scale + 0.5).toUInt64
      let carry := decide (scale.toUInt64 ≤ fracI)
      let c := if neg then logfmtPutc c 45 else c
      let c := logfmtWriteU64 c (if carry then intPart + 1 else intPart).toNat
      let c := logfmtPutc c 46
      logfmtPut c (SerializeJson.fracDigits decimals
        (if carry then fracI - scale.toUInt64 else fracI).toNat)

/-- `bb_logfmt_pre_value`. -/
def logfmtPreValue (c : Ctx) (key : Option Bytes) : Ctx :=
  let c := if 0 < c.len then logfmtPutc c 32 else c
  match key with
  | none => c
  | some key => logfmtPutc (logfmtPut c key) 61

/-- The emit callbacks; containers leave no trace. -/
def logfmtEmit (decimals : Nat) (c : Ctx) : Emit → Ctx
  | .beginObj _ | .endObj | .beginArr _ | .endArr => c
  | .i64 key v => logfmtWriteI64 (logfmtPreValue c key) v
  | .u64 key v => logfmtWriteU64 (logfmtPreValue c key) v
  | .f64 key v => logfmtWriteF64 decimals (logfmtPreValue c key) v
  | .bool key v =>
      if v then logfmtPut (logfmtPreValue c key) [116, 114, 117, 101]
      else logfmtPut (logfmtPreValue c key) [102, 97, 108, 115, 101]
  | .str key s => logfmtWriteStr (logfmtPreValue c key) s
  | .null key => logfmtPut (logfmtPreValue c key) nullText

/-- What a render answers, `*out_len` and the buffer as it leaves them. -/
structure Rendered where
  err : BbErr
  outLen : Nat
  buf : Bytes
  deriving Repr, DecidableEq

/--
`bb_serialize_logfmt_render` into a buffer of as many bytes as `cap` says; NULL is a
buffer without any.
-/
def logfmtRender (P : Program) (decimals : Nat) (m : Mem) (fields : List Field) (snap : Nat)
    (buf : Option Bytes) : Rendered :=
  match buf with
  | none => ⟨.noSpace, 0, []⟩
  | some buf =>
      if buf.length = 0 then ⟨.noSpace, 0, buf⟩
      else
        let c := (walk P Resolver.none m fields snap).foldl (logfmtEmit decimals)
          (Ctx.init buf (buf.length - 1))
        if c.err ≠ .ok then ⟨c.err, 0, overwrite c.buf 0 [0]⟩
        else ⟨.ok, c.len, overwrite c.buf c.len [0]⟩

/-- The bytes before the terminator. -/
def cString (buf : Bytes) : Bytes :=
  buf.takeWhile (· ≠ 0)

/-! ## What the writer escapes -/

theorem logfmtNeedsQuote_eq (s : Bytes) : logfmtNeedsQuote s = Logfmt.needsQuote s := by
  cases s with
  | nil => rfl
  | cons b s => rfl

theorem hexTable_getD {n : Nat} (hn : n < 16) : hexTable.getD n 0 = Logfmt.hexDigit n :=
  (by decide : ∀ k < 16, hexTable.getD k 0 = Logfmt.hexDigit k) n hn

theorem escapedByte_eq (c : UInt8) : escapedByte c = Logfmt.escapeByte c := by
  have hc : c.toNat < 256 := c.toNat_lt
  have hhigh : hexTable.getD (c.toNat / 16 % 16) 0 = Logfmt.hexDigit (c.toNat / 16) := by
    rw [hexTable_getD (Nat.mod_lt _ (by decide)), Nat.mod_eq_of_lt (by omega)]
  have hlow : hexTable.getD (c.toNat % 16) 0 = Logfmt.hexDigit (c.toNat % 16) :=
    hexTable_getD (Nat.mod_lt _ (by decide))
  rw [escapedByte, Logfmt.escapeByte, hhigh, hlow]

/-! ## What the buffer holds -/

/--
The text was put piece by piece: it is all in the buffer, or it does not fit and the context
says so.
-/
structure Tracks (n : Nat) (c : Ctx) (text : Bytes) : Prop where
  size : c.buf.length = n
  cap_succ : c.cap + 1 = n
  holds : (c.err = .ok ∧ c.len = text.length ∧ text.length ≤ c.cap ∧ c.buf.take c.len = text) ∨
    (c.err = .noSpace ∧ c.cap < text.length)

variable {n : Nat} {c : Ctx} {text : Bytes}

theorem tracks_init (buf : Bytes) (hne : buf.length ≠ 0) :
    Tracks buf.length (Ctx.init buf (buf.length - 1)) [] where
  size := rfl
  cap_succ := Nat.sub_add_cancel (Nat.pos_of_ne_zero hne)
  holds := Or.inl ⟨rfl, rfl, Nat.zero_le _, List.take_zero⟩

theorem logfmtPut_of_noSpace (herr : c.err = .noSpace) (s : Bytes) : logfmtPut c s = c := by
  rw [logfmtPut, if_pos (by rw [herr]; decide)]

/-- A piece more. -/
theorem Tracks.put (h : Tracks n c text) (s : Bytes) : Tracks n (logfmtPut c s) (text ++ s) := by
  obtain ⟨hok, hlen, hfits, hbuf⟩ | ⟨herr, hover⟩ := h.holds
  · rw [logfmtPut, if_neg (not_not_intro hok)]
    by_cases hroom : c.cap < c.len + s.length
    · rw [if_pos hroom]
      refine ⟨h.size, h.cap_succ, Or.inr ⟨rfl, ?_⟩⟩
      rw [List.length_append, ← hlen]
      exact hroom
    · rw [if_neg hroom]
      have hin : c.len + s.length ≤ c.buf.length := by
        have := h.size
        have := h.cap_succ
        omega
      refine ⟨(length_overwrite hin).trans h.size, h.cap_succ, Or.inl ⟨hok, ?_, ?_, ?_⟩⟩
      · rw [List.length_append, ← hlen]
      · rw [List.length_append, ← hlen]
        exact Nat.not_lt.mp hroom
      · show (overwrite c.buf c.len s).take (c.len + s.length) = text ++ s
        rw [take_overwrite hin, hbuf]
  · rw [logfmtPut_of_noSpace herr]
    refine ⟨h.size, h.cap_succ, Or.inr ⟨herr, ?_⟩⟩
    rw [List.length_append]
    exact Nat.lt_add_right _ hover

theorem Tracks.puts (h : Tracks n c text) (f : UInt8 → Bytes) (s : Bytes) :
    Tracks n (s.foldl (fun c ch => logfmtPut c (f ch)) c) (text ++ s.flatMap f) := by
  induction s generalizing c text with
  | nil => simpa using h
  | cons ch s ih =>
      rw [List.flatMap_cons, ← List.append_assoc]
      exact ih (h.put (f ch))

theorem Tracks.writeStr (h : Tracks n c text) (s : Bytes) :
    Tracks n (logfmtWriteStr c s) (text ++ Logfmt.valueText s) := by
  rw [logfmtWriteStr, logfmtNeedsQuote_eq, Logfmt.valueText]
  split
  · have hbody : s.flatMap escapedByte = s.flatMap Logfmt.escapeByte :=
      congrArg s.flatMap (funext escapedByte_eq)
    have hquoted := ((h.put [34]).puts escapedByte s).put [34]
    rw [hbody] at hquoted
    simpa [Logfmt.quoted, logfmtWriteQuoted, logfmtPutc] using hquoted
  · exact h.put s

/-- The separator and the key. -/
theorem Tracks.preValue (h : Tracks n c text) (key : Bytes) :
    Tracks n (logfmtPreValue c (some key))
      ((if text = [] then [] else text ++ [32]) ++ key ++ [61]) := by
  have hsep : Tracks n (if 0 < c.len then logfmtPutc c 32 else c)
      (if text = [] then [] else text ++ [32]) := by
    obtain ⟨hok, hlen, hfits, hbuf⟩ | ⟨herr, hover⟩ := h.holds
    · by_cases hnil : text = []
      · rw [if_pos hnil, if_neg (by rw [hlen, hnil]; exact Nat.lt_irrefl 0)]
        rw [hnil] at h
        exact h
      · rw [if_neg hnil, if_pos (by rw [hlen]; exact List.length_pos_iff.mpr hnil)]
        exact h.put [32]
    · have hne : text ≠ [] := List.length_pos_iff.mp (Nat.lt_of_le_of_lt (Nat.zero_le _) hover)
      have hsame : (if 0 < c.len then logfmtPutc c 32 else c) = c := by
        rw [logfmtPutc, logfmtPut_of_noSpace herr, ite_self]
      rw [hsame, if_neg hne]
      refine ⟨h.size, h.cap_succ, Or.inr ⟨herr, ?_⟩⟩
      rw [List.length_append]
      exact Nat.lt_add_right _ hover
  exact (hsep.put key).put [61]

/-- A key and a value that follow a line. -/
theorem Tracks.entry {fs : List Logfmt.Entry} (h : Tracks n c (Logfmt.line fs)) (key v : Bytes)
    {c' : Ctx} (hvalue : ∀ {text}, Tracks n (logfmtPreValue c (some key)) text →
      Tracks n c' (text ++ Logfmt.valueText v)) :
    Tracks n c' (Logfmt.line (fs ++ [(key, v)])) := by
  have hpre := hvalue (h.preValue key)
  rw [Logfmt.line_append_singleton]
  simpa [Logfmt.entryText, Logfmt.line_eq_nil_iff] using hpre

/-! ## The fields of a flat descriptor -/

/-- The types of the fields that a line can show. -/
def Flat (f : Field) : Prop :=
  f.type = .i64 ∨ f.type = .u64 ∨ f.type = .bool ∨ f.type = .str ∨ f.type = .strN

/-- The text of a field's value in a snapshot. -/
def valueOf (P : Program) (m : Mem) (snap : Nat) (f : Field) : Bytes :=
  let p := snap + f.offset
  match f.type with
  | .i64 => SerializeJson.intText (loadI64 m p)
  | .u64 => Decimal.decimal (load m p 8)
  | .bool => if loadBool m p then [116, 114, 117, 101] else [102, 97, 108, 115, 101]
  | .str => loadStr m p f.maxLen
  | .strN =>
      if load m p P.wordBytes ≠ 0 then
        loadBytes m (load m p P.wordBytes) (load m (p + P.wordBytes) P.wordBytes)
      else nullText
  | _ => []

/-- The fields that are present, with the texts of their values. -/
def shown (P : Program) (m : Mem) (snap : Nat) (fields : List Field) : List Logfmt.Entry :=
  (fields.filter fun f => f.present.elim true fun g => P.present g m snap).map fun f =>
    (f.key, valueOf P m snap f)

theorem mustQuote_of_isDigit {b : UInt8} (hb : Decimal.isDigit b = true) :
    Logfmt.mustQuote b = false := by
  rw [Decimal.isDigit, decide_eq_true_eq] at hb
  have hne : ∀ k : UInt8, (k.toNat < 48 ∨ 57 < k.toNat) → (b == k) = false := by
    rintro k hk
    rw [beq_eq_false_iff_ne]
    rintro rfl
    omega
  have hlt : ¬ b < 32 := by
    rw [UInt8.lt_iff_toNat_lt]
    have : (32 : UInt8).toNat = 32 := rfl
    omega
  rw [Logfmt.mustQuote, hne 32 (by decide), hne 34 (by decide), hne 61 (by decide),
    hne 92 (by decide), decide_eq_false hlt]
  rfl

theorem valueText_decimal (v : Nat) :
    Logfmt.valueText (Decimal.decimal v) = Decimal.decimal v :=
  Logfmt.valueText_of_plain (Decimal.decimal_ne_nil v) fun _ hb =>
    mustQuote_of_isDigit (Decimal.isDigit_of_mem_decimal hb)

theorem valueText_intText (v : Int) :
    Logfmt.valueText (SerializeJson.intText v) = SerializeJson.intText v := by
  unfold SerializeJson.intText
  split
  · exact valueText_decimal _
  · refine Logfmt.valueText_of_plain (List.cons_ne_nil _ _) fun b hb => ?_
    obtain rfl | hb := List.mem_cons.mp hb
    · rfl
    · exact mustQuote_of_isDigit (Decimal.isDigit_of_mem_decimal hb)

/-- A value that needs no quotes is put as it is. -/
theorem Tracks.plain {v : Bytes} (h : Tracks n c text) (hv : Logfmt.valueText v = v) :
    Tracks n (logfmtPut c v) (text ++ Logfmt.valueText v) := by
  rw [hv]
  exact h.put v

/-- The call that the walker makes for a flat field. -/
def leafOf (P : Program) (m : Mem) (snap : Nat) (f : Field) : Emit :=
  let p := snap + f.offset
  match f.type with
  | .i64 => .i64 (some f.key) (loadI64 m p)
  | .u64 => .u64 (some f.key) (load m p 8)
  | .bool => .bool (some f.key) (loadBool m p)
  | .str => .str (some f.key) (loadStr m p f.maxLen)
  | _ =>
      if load m p P.wordBytes ≠ 0 then
        .str (some f.key)
          (loadBytes m (load m p P.wordBytes) (load m (p + P.wordBytes) P.wordBytes))
      else .null (some f.key)

section Fields

variable {P : Program} {m : Mem} {snap decimals : Nat} {f : Field}
  (nested : Option (Mem → List Field → Nat → List Emit))

theorem walkField_absent (hpresent : (f.present.elim true fun g => P.present g m snap) = false) :
    walkField P Resolver.none nested m snap f = [] := by
  simp only [walkField, hpresent, if_true]

theorem walkField_flat (hflat : Flat f)
    (hpresent : (f.present.elim true fun g => P.present g m snap) = true) :
    walkField P Resolver.none nested m snap f = [leafOf P m snap f] := by
  obtain htype | htype | htype | htype | htype := hflat
  · simp [walkField, leafOf, hpresent, htype]
  · simp [walkField, leafOf, hpresent, htype]
  · simp [walkField, leafOf, hpresent, htype]
  · simp [walkField, leafOf, hpresent, htype]
  · by_cases hptr : load m (snap + f.offset) P.wordBytes = 0
    · simp [walkField, leafOf, hpresent, htype, hptr]
    · simp [walkField, leafOf, hpresent, htype, hptr]

/-- The call for a flat field adds the field's entry to the line. -/
theorem tracks_leaf (hflat : Flat f) {fs : List Logfmt.Entry} (h : Tracks n c (Logfmt.line fs)) :
    Tracks n (logfmtEmit decimals c (leafOf P m snap f))
      (Logfmt.line (fs ++ [(f.key, valueOf P m snap f)])) := by
  refine h.entry f.key _ fun {text} hpre => ?_
  obtain htype | htype | htype | htype | htype := hflat
  · have hdigits : SerializeJson.i64ToDec 22 (loadI64 m (snap + f.offset)) =
        SerializeJson.intText (loadI64 m (snap + f.offset)) :=
      SerializeJson.i64ToDec_eq (by decide) (SerializeJson.loadI64_range _ _)
    simp only [leafOf, valueOf, htype, logfmtEmit, logfmtWriteI64, hdigits]
    exact hpre.plain (valueText_intText _)
  · have hdigits : SerializeJson.u64ToDec 21 (load m (snap + f.offset) 8) =
        Decimal.decimal (load m (snap + f.offset) 8) := by
      have hword := load_lt m (snap + f.offset) 8
      exact SerializeJson.u64ToDec_eq (by omega) (by decide)
    simp only [leafOf, valueOf, htype, logfmtEmit, logfmtWriteU64, hdigits]
    exact hpre.plain (valueText_decimal _)
  · simp only [leafOf, valueOf, htype, logfmtEmit]
    cases loadBool m (snap + f.offset) with
    | false => exact hpre.plain rfl
    | true => exact hpre.plain rfl
  · simp only [leafOf, valueOf, htype, logfmtEmit]
    exact hpre.writeStr _
  · simp only [leafOf, valueOf, htype]
    by_cases hptr : load m (snap + f.offset) P.wordBytes = 0
    · rw [if_neg (not_not_intro hptr), if_neg (not_not_intro hptr)]
      exact hpre.plain rfl
    · rw [if_pos hptr, if_pos hptr]
      exact hpre.writeStr _

/-- A field of a flat descriptor adds its entry to the line, if it is present. -/
theorem tracks_field (hflat : Flat f) {fs : List Logfmt.Entry}
    (h : Tracks n c (Logfmt.line fs)) :
    Tracks n ((walkField P Resolver.none nested m snap f).foldl (logfmtEmit decimals) c)
      (Logfmt.line (fs ++ shown P m snap [f])) := by
  cases hpresent : f.present.elim true fun g => P.present g m snap with
  | false =>
      rw [walkField_absent nested hpresent]
      simpa [shown, hpresent] using h
  | true =>
      rw [walkField_flat nested hflat hpresent]
      have hshown : shown P m snap [f] = [(f.key, valueOf P m snap f)] := by
        simp [shown, hpresent]
      rw [hshown]
      exact tracks_leaf hflat h

theorem shown_cons (f : Field) (fields : List Field) :
    shown P m snap (f :: fields) = shown P m snap [f] ++ shown P m snap fields := by
  unfold shown
  rw [← List.map_append, ← List.filter_append, List.singleton_append]

theorem tracks_fields {fields : List Field} (hflat : ∀ f ∈ fields, Flat f)
    {fs : List Logfmt.Entry} (h : Tracks n c (Logfmt.line fs)) :
    Tracks n ((fields.flatMap (walkField P Resolver.none nested m snap)).foldl
        (logfmtEmit decimals) c)
      (Logfmt.line (fs ++ shown P m snap fields)) := by
  induction fields generalizing c fs with
  | nil => simpa [shown] using h
  | cons f fields ih =>
      rw [List.flatMap_cons, List.foldl_append, shown_cons, ← List.append_assoc]
      exact ih (fun g hg => hflat g (List.mem_cons_of_mem f hg))
        (tracks_field nested (hflat f List.mem_cons_self) h)

end Fields

/-! ## Rendering -/

section Render

variable {P : Program} {decimals : Nat} {m : Mem} {snap : Nat} {fields : List Field}

/-- The buffer holds the line, or the line does not fit. -/
theorem tracks_walk (decimals : Nat) (hflat : ∀ f ∈ fields, Flat f) {buf : Bytes}
    (hne : buf.length ≠ 0) :
    Tracks buf.length
      ((walk P Resolver.none m fields snap).foldl (logfmtEmit decimals)
        (Ctx.init buf (buf.length - 1)))
      (Logfmt.line (shown P m snap fields)) := by
  have hwalk : walk P Resolver.none m fields snap =
      fields.flatMap (walkField P Resolver.none (some (walkFields P Resolver.none 7)) m snap) := rfl
  have hinit : Tracks buf.length (Ctx.init buf (buf.length - 1)) (Logfmt.line []) :=
    tracks_init buf hne
  rw [hwalk]
  exact tracks_fields (some (walkFields P Resolver.none 7)) hflat hinit

/-- A text before its terminator is the string. -/
theorem cString_overwrite {buf s : Bytes} {k : Nat} (htake : buf.take k = s)
    (hs : ∀ b ∈ s, b ≠ 0) : cString (overwrite buf k [0]) = s := by
  have hall : ∀ b ∈ s, (decide (b ≠ 0)) = true := fun b hb => decide_eq_true (hs b hb)
  rw [cString, overwrite, htake, List.append_assoc, List.takeWhile_append_of_pos hall]
  simp

/--
A rendered line reads back to the fields shown, in order and byte for byte; it is rendered just
when it fits with its terminator, and otherwise an empty string is left.
-/
theorem render_reads_back (P : Program) (decimals : Nat) (m : Mem) (snap : Nat)
    (fields : List Field) (buf : Bytes)
    (hfields : ∀ f ∈ fields, Flat f ∧ Logfmt.PlainKey f.key) :
    let r := logfmtRender P decimals m fields snap (some buf)
    (r.err = .ok ↔ (Logfmt.line (shown P m snap fields)).length < buf.length) ∧
      (r.err = .ok → r.outLen = (cString r.buf).length ∧
        Logfmt.readLine (cString r.buf) = some (shown P m snap fields)) ∧
      (r.err ≠ .ok → r.err = .noSpace ∧ r.outLen = 0 ∧ cString r.buf = []) := by
  intro r
  by_cases hempty : buf.length = 0
  · have hr : r = ⟨.noSpace, 0, buf⟩ := if_pos hempty
    rw [hr, List.length_eq_zero_iff.mp hempty]
    exact ⟨by simp, by simp, fun _ => ⟨rfl, rfl, rfl⟩⟩
  have htracks : Tracks buf.length _ (Logfmt.line (shown P m snap fields)) :=
    tracks_walk decimals (fun f hf => (hfields f hf).1) hempty
  have hkeys : ∀ e ∈ shown P m snap fields, Logfmt.PlainKey e.1 := by
    intro e he
    obtain ⟨f, hf, rfl⟩ := List.mem_map.mp he
    exact (hfields f (List.mem_of_mem_filter hf)).2
  have hr : r = logfmtRender P decimals m fields snap (some buf) := rfl
  rw [logfmtRender] at hr
  dsimp only at hr
  rw [if_neg hempty] at hr
  generalize (walk P Resolver.none m fields snap).foldl (logfmtEmit decimals)
    (Ctx.init buf (buf.length - 1)) = c at htracks hr
  have hsize := htracks.size
  have hcap := htracks.cap_succ
  obtain ⟨hok, hlen, hfits, hbuf⟩ | ⟨herr, hover⟩ := htracks.holds
  · rw [if_neg (not_not_intro hok)] at hr
    have hstring : cString r.buf = Logfmt.line (shown P m snap fields) := by
      rw [hr]
      exact cString_overwrite hbuf (Logfmt.line_ne_zero hkeys)
    rw [hstring, hr]
    refine ⟨⟨fun _ => by omega, fun _ => rfl⟩, fun _ => ⟨hlen, Logfmt.readLine_line hkeys⟩, ?_⟩
    intro hne
    exact absurd rfl hne
  · rw [if_pos (by rw [herr]; decide)] at hr
    have hstring : cString r.buf = [] := by
      rw [hr]
      exact cString_overwrite List.take_zero (by simp)
    rw [hstring, hr]
    dsimp only
    rw [herr]
    refine ⟨⟨nofun, fun h => ?_⟩, nofun, fun _ => ⟨rfl, rfl, rfl⟩⟩
    omega

end Render

/-! ## A line -/

/-- A count and a string behind a pointer. -/
def sampleFields : List Field :=
  [{ key := [110], type := .u64, offset := 0, present := none, children := 0, maxLen := 0,
     maxItems := 0, elemType := .u64, elemSize := 0, cardinality := .fixed, refKey := [] },
   { key := [115], type := .strN, offset := 8, present := none, children := 0, maxLen := 0,
     maxItems := 0, elemType := .u64, elemSize := 0, cardinality := .fixed, refKey := [] }]

/-- The number 7, and three bytes at address 32: a letter, a space and a quote. -/
def sampleMem : Mem := fun a =>
  [7, 0, 0, 0, 0, 0, 0, 0, 32, 0, 0, 0, 3, 0, 0, 0, 0, 0, 0, 0, 0, 0, 0, 0, 0, 0, 0, 0, 0, 0, 0, 0,
    97, 32, 34].getD a 0

/-- A program without nested tables, predicates and rows. -/
def sampleProgram : Program where
  wordBytes := 4
  tables := fun _ => []
  present := fun _ _ _ => true
  rows := fun _ _ _ => []

theorem render_reads_back_sample :
    (logfmtRender sampleProgram 6 sampleMem sampleFields 0 (some (List.replicate 20 1))).err = .ok ∧
      Logfmt.readLine (cString
        (logfmtRender sampleProgram 6 sampleMem sampleFields 0 (some (List.replicate 20 1))).buf) =
        some [([110], [55]), ([115], [97, 32, 34])] := by
  have hfields : ∀ f ∈ sampleFields, Flat f ∧ Logfmt.PlainKey f.key := by
    intro f hf
    obtain rfl | hf := List.mem_cons.mp hf
    · exact ⟨Or.inr (Or.inl rfl), by simp [Logfmt.PlainKey]⟩
    · rw [List.mem_singleton.mp hf]
      exact ⟨Or.inr (Or.inr (Or.inr (Or.inr rfl))), by simp [Logfmt.PlainKey]⟩
  have hback := render_reads_back sampleProgram 6 sampleMem 0 sampleFields (List.replicate 20 1)
    hfields
  have hok := hback.1.mpr (by decide)
  exact ⟨hok, (hback.2.1 hok).2⟩

end SerializeLogfmt
end Breadboard
