import Breadboard.SerializeJson.Writer

/-!
# bb_serialize_json - the text the writer denotes

What a writer has put so far is what it flushed and what is in its buffer.  Every
routine either ends in an error or has appended its text to that, wherever the
flushes fell; with room in the buffer, or a flush function that never fails, it does
not end in an error.

Main results:

- Theorem `jsonEmit_writes`: one callback appends its text and moves the levels.
- Theorem `jsonDocument_writes`: the same over a whole document.
- Theorem `jsonDocument_ok`: with room, a document that nests within the level
  stack ends without an error.
-/

namespace Breadboard
namespace SerializeJson

open Foundations Serialize

/-! ## The reference text -/

/-- A string with its escapes. -/
def escape (s : Bytes) : Bytes :=
  s.flatMap escapeByte

/-- The comma and the key before a value. -/
def preText (level : Level) (key : Option Bytes) : Bytes :=
  (if level.haveChild then [44] else []) ++
    if level.isArray then [] else 34 :: escape (key.getD []) ++ [34, 58]

/-- The text of a fixed-decimal `double`. -/
def fixedText (cfg : Kconfig) (v : Float) : Bytes :=
  if v.isNaN || v.isInf then nullText
  else
    let mag := if decide (v < 0) then -v else v
    if 18446744073709551616.0 ≤ mag then nullText
    else
      (if decide (v < 0) then [45] else []) ++ u64ToDec 21 (f64Parts cfg mag).1.toNat ++ [46] ++
        fracDigits cfg.f64Decimals (f64Parts cfg mag).2.toNat

/-- The text of a `double` in either mode. -/
def f64Text (lib : Libc) (cfg : Kconfig) (f64Shortest : Bool) (v : Float) : Bytes :=
  if f64Shortest then if v.isNaN || v.isInf then nullText else shortestText lib v
  else fixedText cfg v

section Text

variable (lib : Libc) (cfg : Kconfig) (f64Shortest : Bool)

/-- The text of a call at a level. -/
def emitText (top : Level) : Emit → Bytes
  | .beginObj key => preText top key ++ [123]
  | .endObj => [125]
  | .beginArr key => preText top key ++ [91]
  | .endArr => [93]
  | .i64 key v => preText top key ++ i64ToDec 22 v
  | .u64 key v => preText top key ++ u64ToDec 21 v
  | .f64 key v => preText top key ++ f64Text lib cfg f64Shortest v
  | .bool key v =>
    preText top key ++ if v then [116, 114, 117, 101] else [102, 97, 108, 115, 101]
  | .str key s => preText top key ++ (34 :: escape s ++ [34])
  | .null key => preText top key ++ nullText

/-- A level once it has a child. -/
def Level.withChild (level : Level) : Level :=
  { level with haveChild := true }

/-- The levels after a call. -/
def levelsAfter (top : Level) (below : List Level) : Emit → Level × List Level
  | .beginObj _ => ({ isArray := false, haveChild := false }, top.withChild :: below)
  | .beginArr _ => ({ isArray := true, haveChild := false }, top.withChild :: below)
  | .endObj => (below.headD top, below.tail)
  | .endArr => (below.headD top, below.tail)
  | _ => (top.withChild, below)

/-- The text of a sequence of calls. -/
def textOf : Level → List Level → List Emit → Bytes
  | _, _, [] => []
  | top, below, e :: es =>
    emitText lib cfg f64Shortest top e ++
      textOf (levelsAfter top below e).1 (levelsAfter top below e).2 es

/-- The level of the root. -/
def rootLevel : Level where
  isArray := false
  haveChild := false

/-- The document around a walk. -/
def documentText (es : List Emit) : Bytes :=
  123 :: textOf lib cfg f64Shortest rootLevel [] es ++ [125]

end Text

/-! ## Puts -/

/-- What was flushed and what is in the buffer. -/
def Ctx.written (c : Ctx) : Bytes :=
  c.flushed.flatten ++ c.buf

/-- The text fits the buffer, or can be flushed. -/
def Roomy (c : Ctx) (bs : Bytes) : Prop :=
  c.err = .ok ∧ (c.flushFn = none → c.buf.length + bs.length ≤ c.cap) ∧
    (c.flushFn ≠ none → 32 ≤ c.cap)

/-- `*flush_failed` has read true. -/
def Failed (c : Ctx) : Prop :=
  ∃ failed k, c.flushFn = some failed ∧ k < c.flushed.length ∧ failed k = true

/--
From `c` to `c'` the text `bs` is put: unless an error ends it, it is
appended, and with room only a failed flush ends it.
-/
structure Puts (c c' : Ctx) (bs : Bytes) : Prop where
  flushFn_eq : c'.flushFn = c.flushFn
  cap_eq : c'.cap = c.cap
  f64Shortest_eq : c'.f64Shortest = c.f64Shortest
  mono : c.flushed.length ≤ c'.flushed.length
  wrote : c'.err = .ok → c.err = .ok ∧ c'.written = c.written ++ bs ∧
    (c.flushFn = none → c'.flushed = c.flushed)
  ok : Roomy c bs → c'.err = .ok ∨ Failed c'

/-- A put leaves the levels alone. -/
structure SameLevels (c c' : Ctx) : Prop where
  top_eq : c'.top = c.top
  below_eq : c'.below = c.below

theorem SameLevels.trans {c c' c'' : Ctx} (h : SameLevels c c') (h' : SameLevels c' c'') :
    SameLevels c c'' where
  top_eq := h'.top_eq.trans h.top_eq
  below_eq := h'.below_eq.trans h.below_eq

section Puts

variable {c c' c'' : Ctx} {bs bs' : Bytes}

theorem Roomy.left (h : Roomy c (bs ++ bs')) : Roomy c bs := by
  refine ⟨h.1, fun hnone => ?_, h.2.2⟩
  have := h.2.1 hnone
  rw [List.length_append] at this
  omega

/-- What is left of the room after a put. -/
theorem Puts.roomy (hputs : Puts c c' bs) (h : Roomy c (bs ++ bs')) (hok : c'.err = .ok) :
    Roomy c' bs' := by
  obtain ⟨-, hwritten, hflushed⟩ := hputs.wrote hok
  refine ⟨hok, fun hnone => ?_, fun hsome => ?_⟩
  · rw [hputs.flushFn_eq] at hnone
    have hbuf : c'.buf = c.buf ++ bs := by
      unfold Ctx.written at hwritten
      rw [hflushed hnone, List.append_assoc] at hwritten
      exact List.append_cancel_left hwritten
    have hroom := h.2.1 hnone
    rw [hputs.cap_eq, hbuf]
    simp only [List.length_append] at hroom ⊢
    omega
  · rw [hputs.flushFn_eq] at hsome
    rw [hputs.cap_eq]
    exact h.2.2 hsome

/-- A flush that has failed stays failed. -/
theorem Failed.mono (h : Failed c) (hflushFn : c'.flushFn = c.flushFn)
    (hmono : c.flushed.length ≤ c'.flushed.length) : Failed c' := by
  obtain ⟨failed, k, hsome, hk, hfailed⟩ := h
  exact ⟨failed, k, hflushFn.trans hsome, Nat.lt_of_lt_of_le hk hmono, hfailed⟩

theorem Puts.trans (h : Puts c c' bs) (h' : Puts c' c'' bs') : Puts c c'' (bs ++ bs') where
  flushFn_eq := h'.flushFn_eq.trans h.flushFn_eq
  cap_eq := h'.cap_eq.trans h.cap_eq
  f64Shortest_eq := h'.f64Shortest_eq.trans h.f64Shortest_eq
  mono := Nat.le_trans h.mono h'.mono
  wrote := fun hok => by
    obtain ⟨hok', hwritten', hflushed'⟩ := h'.wrote hok
    obtain ⟨hok'', hwritten, hflushed⟩ := h.wrote hok'
    refine ⟨hok'', ?_, fun hnone => ?_⟩
    · rw [hwritten', hwritten, List.append_assoc]
    · rw [hflushed' (h.flushFn_eq.trans hnone), hflushed hnone]
  ok := fun hroom => by
    rcases h.ok hroom.left with hok | hfailed
    · exact h'.ok (h.roomy hroom hok)
    · exact .inr (hfailed.mono h'.flushFn_eq h'.mono)

/-- Nothing is put, and nothing else changes but the levels. -/
theorem Puts.levels (c : Ctx) (top : Level) (below : List Level) :
    Puts c { c with top := top, below := below } [] where
  flushFn_eq := rfl
  cap_eq := rfl
  f64Shortest_eq := rfl
  mono := Nat.le_refl _
  wrote := fun hok => ⟨hok, (List.append_nil _).symm, fun _ => rfl⟩
  ok := fun h => .inl h.1

theorem Puts.refl (c : Ctx) : Puts c c [] :=
  .levels c c.top c.below

/-- A flush that does not fail moves the buffer to what was flushed. -/
theorem jsonFlush_written (h : (jsonFlush c).err = .ok) :
    c.err = .ok ∧ (jsonFlush c).written = c.written ∧
      (c.flushFn ≠ none → (jsonFlush c).buf = []) := by
  unfold jsonFlush at h ⊢
  split
  · rename_i hnone
    rw [hnone] at h
    exact ⟨h, rfl, fun hsome => absurd hnone hsome⟩
  · rename_i failed hsome
    simp only [hsome] at h
    split at h
    · rename_i hidle
      rw [if_pos hidle]
      exact ⟨h, rfl, fun _ => hidle.resolve_left (not_not.mpr h)⟩
    · rename_i hbusy
      rw [if_neg hbusy]
      refine ⟨by_contra fun hne => hbusy (.inl hne), ?_, fun _ => rfl⟩
      simp [Ctx.written]

theorem jsonFlush_same (c : Ctx) :
    (jsonFlush c).flushFn = c.flushFn ∧ (jsonFlush c).cap = c.cap ∧
      (jsonFlush c).f64Shortest = c.f64Shortest ∧ (jsonFlush c).top = c.top ∧
      (jsonFlush c).below = c.below := by
  unfold jsonFlush
  split
  · exact ⟨rfl, rfl, rfl, rfl, rfl⟩
  · split <;> exact ⟨rfl, rfl, rfl, rfl, rfl⟩

theorem jsonFlush_mono (c : Ctx) : c.flushed.length ≤ (jsonFlush c).flushed.length := by
  unfold jsonFlush
  repeat' split
  all_goals simp

/-- A flush ends in an error only when it fails. -/
theorem jsonFlush_ok (hok : c.err = .ok) :
    (jsonFlush c).err = .ok ∨ Failed (jsonFlush c) := by
  unfold jsonFlush
  split
  · exact .inl hok
  rename_i failed hsome
  split
  · exact .inl hok
  · cases hfailed : failed c.flushed.length with
    | false => exact .inl (by simpa using hok)
    | true => exact .inr ⟨failed, c.flushed.length, hsome, by simp, hfailed⟩

theorem jsonPut_flushFn (c : Ctx) (s : Bytes) :
    (jsonPut c s).flushFn = c.flushFn ∧ (jsonPut c s).cap = c.cap := by
  obtain ⟨hflushFn, hcap, -⟩ := jsonFlush_same c
  unfold jsonPut
  split
  · exact ⟨rfl, rfl⟩
  split
  · split
    · exact ⟨rfl, rfl⟩
    dsimp only
    split
    · exact ⟨hflushFn, hcap⟩
    split <;> exact ⟨hflushFn, hcap⟩
  · exact ⟨rfl, rfl⟩

theorem jsonPut_sameLevels (c : Ctx) (s : Bytes) : SameLevels c (jsonPut c s) := by
  obtain ⟨-, -, -, htop, hbelow⟩ := jsonFlush_same c
  unfold jsonPut
  split
  · exact ⟨rfl, rfl⟩
  split
  · split
    · exact ⟨rfl, rfl⟩
    dsimp only
    split
    · exact ⟨htop, hbelow⟩
    split <;> exact ⟨htop, hbelow⟩
  · exact ⟨rfl, rfl⟩

/-- One `bb_json_put` of at most 32 bytes. -/
theorem puts_jsonPut (c : Ctx) (s : Bytes) (hs : s.length ≤ 32) : Puts c (jsonPut c s) s := by
  obtain ⟨hflushFn, hcap, hshortest, -, -⟩ := jsonFlush_same c
  unfold jsonPut
  split
  · rename_i herr
    exact ⟨rfl, rfl, rfl, Nat.le_refl _, fun hok => absurd hok herr,
      fun hroom => absurd hroom.1 herr⟩
  rename_i hok
  have hok : c.err = .ok := not_not.mp hok
  have hflush := jsonFlush_ok hok
  have hmono := jsonFlush_mono c
  split
  · rename_i hover
    split
    · rename_i hnone
      refine ⟨rfl, rfl, rfl, Nat.le_refl _, (fun herr => by cases herr), fun hroom => ?_⟩
      have := hroom.2.1 (Option.isNone_iff_eq_none.mp hnone)
      omega
    rename_i hsome
    have hsome : c.flushFn ≠ none := fun h => hsome (Option.isNone_iff_eq_none.mpr h)
    dsimp only
    split
    · rename_i herr
      exact ⟨hflushFn, hcap, hshortest, hmono, fun hok' => absurd hok' herr, fun _ => hflush⟩
    rename_i herr
    have herr : (jsonFlush c).err = .ok := not_not.mp herr
    split
    · refine ⟨hflushFn, hcap, hshortest, hmono, (fun hok' => by cases hok'), fun hroom => ?_⟩
      have := hroom.2.2 hsome
      omega
    · refine ⟨hflushFn, hcap, hshortest, hmono, fun _ => ⟨hok, ?_, fun h => absurd h hsome⟩,
        fun _ => .inl herr⟩
      show (jsonFlush c).flushed.flatten ++ ((jsonFlush c).buf ++ s) = _
      rw [← List.append_assoc]
      exact congrArg (· ++ s) (jsonFlush_written herr).2.1
  · refine ⟨rfl, rfl, rfl, Nat.le_refl _, fun _ => ⟨hok, ?_, fun _ => rfl⟩, fun _ => .inl hok⟩
    exact (List.append_assoc _ _ _).symm

theorem puts_jsonPutc (c : Ctx) (ch : UInt8) : Puts c (jsonPutc c ch) [ch] :=
  puts_jsonPut c [ch] (by simp)

theorem jsonPutc_sameLevels (c : Ctx) (ch : UInt8) : SameLevels c (jsonPutc c ch) :=
  jsonPut_sameLevels c [ch]

theorem length_escapeByte_le (ch : UInt8) : (escapeByte ch).length ≤ 6 := by
  unfold escapeByte
  repeat' split
  all_goals simp

theorem puts_jsonEscapeWrite (c : Ctx) (s : Bytes) :
    Puts c (jsonEscapeWrite c s) (escape s) := by
  induction s generalizing c with
  | nil => exact .refl c
  | cons ch s ih =>
    have hch := length_escapeByte_le ch
    exact (puts_jsonPut c (escapeByte ch) (by omega)).trans (ih _)

theorem jsonEscapeWrite_sameLevels (c : Ctx) (s : Bytes) :
    SameLevels c (jsonEscapeWrite c s) := by
  induction s generalizing c with
  | nil => exact ⟨rfl, rfl⟩
  | cons ch s ih => exact (jsonPut_sameLevels c _).trans (ih _)

end Puts

/-! ## Numbers -/

section Numbers

variable {c : Ctx}

theorem length_u64ToDec_le (cap v : Nat) : (u64ToDec cap v).length ≤ cap - 1 := by
  unfold u64ToDec
  rw [List.length_take]
  exact Nat.min_le_left _ _

theorem length_i64ToDec_le (cap : Nat) (v : Int) : (i64ToDec cap v).length ≤ cap - 1 := by
  unfold i64ToDec
  split
  · exact Nat.zero_le _
  split
  · exact length_u64ToDec_le cap v.toNat
  split
  · exact Nat.zero_le _
  · have := length_u64ToDec_le (cap - 1) v.natAbs
    rw [List.length_cons]
    omega

theorem length_fracDigits (n frac : Nat) : (fracDigits n frac).length = n := by
  induction n generalizing frac with
  | zero => rfl
  | succ n ih => rw [fracDigits, List.length_append, ih, List.length_singleton]

theorem puts_jsonWriteU64 (c : Ctx) (v : Nat) : Puts c (jsonWriteU64 c v) (u64ToDec 21 v) := by
  have := length_u64ToDec_le 21 v
  exact puts_jsonPut c _ (by omega)

theorem puts_jsonWriteI64 (c : Ctx) (v : Int) : Puts c (jsonWriteI64 c v) (i64ToDec 22 v) := by
  have := length_i64ToDec_le 22 v
  exact puts_jsonPut c _ (by omega)

theorem puts_jsonWriteF64 (cfg : Kconfig) (c : Ctx) (v : Float) :
    Puts c (jsonWriteF64 cfg c v) (fixedText cfg v) := by
  have hnull : Puts c (jsonPut c nullText) nullText := puts_jsonPut c nullText (by decide)
  unfold jsonWriteF64 fixedText
  split
  · exact hnull
  dsimp only
  generalize (if decide (v < 0) = true then -v else v) = mag
  split
  · exact hnull
  have hsign (c : Ctx) : Puts c (if decide (v < 0) = true then jsonPutc c 45 else c)
      (if decide (v < 0) = true then [45] else []) := by
    split
    · exact puts_jsonPutc c 45
    · exact .refl c
  have hdecimals := cfg.f64Decimals_range.2
  refine (((hsign c).trans (puts_jsonWriteU64 _ _)).trans (puts_jsonPutc _ 46)).trans ?_
  exact puts_jsonPut _ _ (by rw [length_fracDigits]; omega)

theorem length_shortestText_le (lib : Libc) (v : Float) : (shortestText lib v).length ≤ 32 := by
  unfold shortestText
  dsimp only
  split
  · have := length_i64ToDec_le 32 (saturateI32 v).toInt
    omega
  · have h15 := lib.length_printG_le 15 v (by decide)
    have h17 := lib.length_printG_le 17 v (by decide)
    repeat' split
    all_goals omega

theorem puts_jsonWriteF64Shortest (lib : Libc) (c : Ctx) (v : Float) :
    Puts c (jsonWriteF64Shortest lib c v)
      (if v.isNaN || v.isInf then nullText else shortestText lib v) := by
  unfold jsonWriteF64Shortest
  split
  · exact puts_jsonPut c nullText (by decide)
  · exact puts_jsonPut c _ (length_shortestText_le lib v)

theorem jsonWriteF64_sameLevels (cfg : Kconfig) (c : Ctx) (v : Float) :
    SameLevels c (jsonWriteF64 cfg c v) := by
  unfold jsonWriteF64
  split
  · exact jsonPut_sameLevels c _
  dsimp only
  generalize (if decide (v < 0) = true then -v else v) = mag
  split
  · exact jsonPut_sameLevels c _
  have hsign (c : Ctx) : SameLevels c (if decide (v < 0) = true then jsonPutc c 45 else c) := by
    split
    · exact jsonPutc_sameLevels c 45
    · exact ⟨rfl, rfl⟩
  exact (((hsign c).trans (jsonPut_sameLevels _ _)).trans (jsonPutc_sameLevels _ _)).trans
    (jsonPut_sameLevels _ _)

theorem jsonWriteF64Shortest_sameLevels (lib : Libc) (c : Ctx) (v : Float) :
    SameLevels c (jsonWriteF64Shortest lib c v) := by
  unfold jsonWriteF64Shortest
  split <;> exact jsonPut_sameLevels c _

end Numbers

/-! ## Callbacks -/

/-- The comma and the key. -/
theorem puts_jsonPreValue (c : Ctx) (key : Option Bytes) :
    Puts c (jsonPreValue c key) (preText c.top key) := by
  have hcomma : Puts c
      (if c.top.haveChild then jsonPutc c 44
        else { c with top := { c.top with haveChild := true } })
      (if c.top.haveChild then [44] else []) := by
    split
    · exact puts_jsonPutc c 44
    · exact .levels c _ c.below
  have htop : (if c.top.haveChild then jsonPutc c 44
      else { c with top := { c.top with haveChild := true } }).top.isArray = c.top.isArray := by
    split
    · rw [(jsonPutc_sameLevels c 44).top_eq]
    · rfl
  unfold jsonPreValue preText
  dsimp only
  rw [htop]
  split
  · exact hcomma.trans (.refl _)
  · refine hcomma.trans ?_
    exact ((puts_jsonPutc _ 34).trans (puts_jsonEscapeWrite _ _)).trans
      (puts_jsonPut _ [34, 58] (by decide))

/-- After the comma and the key the level has a child. -/
theorem jsonPreValue_levels (c : Ctx) (key : Option Bytes) :
    (jsonPreValue c key).top = c.top.withChild ∧ (jsonPreValue c key).below = c.below := by
  have hcomma : (if c.top.haveChild then jsonPutc c 44
        else { c with top := { c.top with haveChild := true } }).top = c.top.withChild ∧
      (if c.top.haveChild then jsonPutc c 44
        else { c with top := { c.top with haveChild := true } }).below = c.below := by
    split
    · rename_i hchild
      rw [(jsonPutc_sameLevels c 44).top_eq, (jsonPutc_sameLevels c 44).below_eq]
      refine ⟨?_, rfl⟩
      unfold Level.withChild
      rw [← hchild]
    · exact ⟨rfl, rfl⟩
  unfold jsonPreValue
  dsimp only
  generalize (if c.top.haveChild then jsonPutc c 44
    else { c with top := { c.top with haveChild := true } }) = start at hcomma ⊢
  split
  · exact hcomma
  · have hkey := ((jsonPutc_sameLevels start 34).trans
      (jsonEscapeWrite_sameLevels _ (key.getD []))).trans
      (jsonPut_sameLevels _ [34, 58])
    exact ⟨hkey.top_eq.trans hcomma.1, hkey.below_eq.trans hcomma.2⟩

/-- What a callback does to the level stack after its puts. -/
def levelStep (c : Ctx) : Emit → Ctx
  | .beginObj _ => jsonPushLevel c false
  | .beginArr _ => jsonPushLevel c true
  | .endObj => jsonPopLevel c
  | .endArr => jsonPopLevel c
  | _ => c

/-- The top level once the text of a call is put. -/
def topAfter (top : Level) : Emit → Level
  | .endObj => top
  | .endArr => top
  | _ => top.withChild

section Callbacks

variable (lib : Libc) (cfg : Kconfig)

/-- A callback puts its text, then moves the levels. -/
theorem jsonEmit_eq (c : Ctx) (e : Emit) :
    ∃ body, jsonEmit lib cfg c e = levelStep body e ∧
      Puts c body (emitText lib cfg c.f64Shortest c.top e) ∧
      body.top = topAfter c.top e ∧ body.below = c.below := by
  have hpre := puts_jsonPreValue c
  have hlevels := jsonPreValue_levels c
  have hwith {c' : Ctx} (key : Option Bytes) (h : SameLevels (jsonPreValue c key) c') :
      c'.top = c.top.withChild ∧ c'.below = c.below :=
    ⟨h.top_eq.trans (hlevels key).1, h.below_eq.trans (hlevels key).2⟩
  cases e with
  | beginObj key =>
    exact ⟨_, rfl, (hpre key).trans (puts_jsonPutc _ 123), hwith key (jsonPutc_sameLevels _ _)⟩
  | beginArr key =>
    exact ⟨_, rfl, (hpre key).trans (puts_jsonPutc _ 91), hwith key (jsonPutc_sameLevels _ _)⟩
  | endObj =>
    have hsame := jsonPutc_sameLevels c 125
    exact ⟨_, rfl, puts_jsonPutc c 125, hsame.top_eq, hsame.below_eq⟩
  | endArr =>
    have hsame := jsonPutc_sameLevels c 93
    exact ⟨_, rfl, puts_jsonPutc c 93, hsame.top_eq, hsame.below_eq⟩
  | i64 key v =>
    exact ⟨_, rfl, (hpre key).trans (puts_jsonWriteI64 _ v), hwith key (jsonPut_sameLevels _ _)⟩
  | u64 key v =>
    exact ⟨_, rfl, (hpre key).trans (puts_jsonWriteU64 _ v), hwith key (jsonPut_sameLevels _ _)⟩
  | f64 key v =>
    refine ⟨_, rfl, (hpre key).trans ?_, hwith key ?_⟩
    · unfold f64Text
      rw [(hpre key).f64Shortest_eq]
      split
      · exact puts_jsonWriteF64Shortest lib _ v
      · exact puts_jsonWriteF64 cfg _ v
    · split
      · exact jsonWriteF64Shortest_sameLevels lib _ v
      · exact jsonWriteF64_sameLevels cfg _ v
  | bool key v =>
    refine ⟨_, rfl, (hpre key).trans ?_, hwith key ?_⟩
    · split <;> exact puts_jsonPut _ _ (by decide)
    · split <;> exact jsonPut_sameLevels _ _
  | str key s =>
    refine ⟨_, rfl, (hpre key).trans ?_, hwith key ?_⟩
    · exact ((puts_jsonPutc _ 34).trans (puts_jsonEscapeWrite _ s)).trans (puts_jsonPutc _ 34)
    · exact ((jsonPutc_sameLevels _ _).trans (jsonEscapeWrite_sameLevels _ s)).trans
        (jsonPutc_sameLevels _ _)
  | null key =>
    exact ⟨_, rfl, (hpre key).trans (puts_jsonPut _ _ (by decide)), hwith key (jsonPut_sameLevels _ _)⟩

theorem jsonPushLevel_of_ok {c : Ctx} {isArray : Bool} (h : (jsonPushLevel c isArray).err = .ok) :
    c.err = .ok ∧ jsonPushLevel c isArray =
      { c with top := { isArray := isArray, haveChild := false }, below := c.top :: c.below } := by
  unfold jsonPushLevel at h ⊢
  split at h
  · exact absurd h ‹_›
  rename_i hok
  rw [if_neg hok]
  split at h
  · cases h
  · rename_i hroom
    rw [if_neg hroom]
    exact ⟨not_not.mp hok, rfl⟩

theorem jsonPopLevel_eq (c : Ctx) :
    jsonPopLevel c = { c with top := c.below.headD c.top, below := c.below.tail } := by
  unfold jsonPopLevel
  split <;> rename_i hbelow
  · show c = { c with top := c.below.headD c.top, below := c.below.tail }
    rw [hbelow, List.headD_nil, List.tail_nil, ← hbelow]
  · rw [hbelow]
    rfl

/-- The levels after a call that ends without an error. -/
theorem levelStep_of_ok {c : Ctx} {e : Emit} {top : Level} (htop : c.top = topAfter top e)
    (h : (levelStep c e).err = .ok) :
    c.err = .ok ∧ levelStep c e =
      { c with
        top := (levelsAfter top c.below e).1
        below := (levelsAfter top c.below e).2 } := by
  cases e with
  | beginObj key =>
    obtain ⟨hok, heq⟩ := jsonPushLevel_of_ok h
    refine ⟨hok, heq.trans ?_⟩
    rw [htop]
    rfl
  | beginArr key =>
    obtain ⟨hok, heq⟩ := jsonPushLevel_of_ok h
    refine ⟨hok, heq.trans ?_⟩
    rw [htop]
    rfl
  | endObj =>
    have heq := jsonPopLevel_eq c
    rw [htop] at heq
    exact ⟨(congrArg Ctx.err heq).symm.trans h, heq⟩
  | endArr =>
    have heq := jsonPopLevel_eq c
    rw [htop] at heq
    exact ⟨(congrArg Ctx.err heq).symm.trans h, heq⟩
  | _ =>
    refine ⟨h, ?_⟩
    show c = { c with top := top.withChild, below := c.below }
    rw [show top.withChild = c.top from htop.symm]

/-- A call ends without an error when the stack has room for what it opens. -/
theorem levelStep_ok {c : Ctx} {e : Emit} (hok : c.err = .ok)
    (hroom : e.opens = true → c.below.length + 1 < stackSize) : (levelStep c e).err = .ok := by
  have hpush (isArray : Bool) (h : c.below.length + 1 < stackSize) :
      (jsonPushLevel c isArray).err = .ok := by
    unfold jsonPushLevel
    rw [if_neg (not_not.mpr hok), if_neg (Nat.not_le.mpr h)]
    exact hok
  have hpop : (jsonPopLevel c).err = .ok := by
    rw [jsonPopLevel_eq]
    exact hok
  cases e with
  | beginObj key => exact hpush _ (hroom rfl)
  | beginArr key => exact hpush _ (hroom rfl)
  | endObj => exact hpop
  | endArr => exact hpop
  | _ => exact hok

/-- A sequence of calls writes its text: the state after it, unless an error ended it. -/
structure Writes (c c' : Ctx) (bs : Bytes) (levels : Level × List Level) : Prop where
  flushFn_eq : c'.flushFn = c.flushFn
  cap_eq : c'.cap = c.cap
  f64Shortest_eq : c'.f64Shortest = c.f64Shortest
  ok : c.err = .ok
  written : c'.written = c.written ++ bs
  flushed : c.flushFn = none → c'.flushed = c.flushed
  top_eq : c'.top = levels.1
  below_eq : c'.below = levels.2

/-- One callback appends its text and moves the levels. -/
theorem jsonEmit_writes {c : Ctx} {e : Emit} (h : (jsonEmit lib cfg c e).err = .ok) :
    Writes c (jsonEmit lib cfg c e) (emitText lib cfg c.f64Shortest c.top e)
      (levelsAfter c.top c.below e) := by
  obtain ⟨body, heq, hputs, htop, hbelow⟩ := jsonEmit_eq lib cfg c e
  rw [heq] at h ⊢
  obtain ⟨hbody, hstep⟩ := levelStep_of_ok htop h
  obtain ⟨hok, hwritten, hflushed⟩ := hputs.wrote hbody
  rw [hstep, hbelow]
  exact ⟨hputs.flushFn_eq, hputs.cap_eq, hputs.f64Shortest_eq, hok, hwritten, hflushed, rfl, rfl⟩

/-- The levels after a sequence of calls. -/
def levelsAfterAll (levels : Level × List Level) (es : List Emit) : Level × List Level :=
  es.foldl (fun l e => levelsAfter l.1 l.2 e) levels

theorem jsonEmitAll_writes {c : Ctx} {es : List Emit} (h : (jsonEmitAll lib cfg c es).err = .ok) :
    Writes c (jsonEmitAll lib cfg c es) (textOf lib cfg c.f64Shortest c.top c.below es)
      (levelsAfterAll (c.top, c.below) es) := by
  induction es generalizing c with
  | nil => exact ⟨rfl, rfl, rfl, h, (List.append_nil _).symm, fun _ => rfl, rfl, rfl⟩
  | cons e es ih =>
    have hrest := ih h
    have hfirst := jsonEmit_writes lib cfg hrest.ok
    have htext : textOf lib cfg c.f64Shortest c.top c.below (e :: es) =
        emitText lib cfg c.f64Shortest c.top e ++
          textOf lib cfg (jsonEmit lib cfg c e).f64Shortest (jsonEmit lib cfg c e).top
            (jsonEmit lib cfg c e).below es := by
      rw [hfirst.f64Shortest_eq, hfirst.top_eq, hfirst.below_eq]
      rfl
    refine ⟨hrest.flushFn_eq.trans hfirst.flushFn_eq, hrest.cap_eq.trans hfirst.cap_eq,
      hrest.f64Shortest_eq.trans hfirst.f64Shortest_eq, hfirst.ok, ?_, fun hnone => ?_, ?_, ?_⟩
    · rw [htext, ← List.append_assoc, ← hfirst.written]
      exact hrest.written
    · exact (hrest.flushed (hfirst.flushFn_eq.trans hnone)).trans (hfirst.flushed hnone)
    · have := hrest.top_eq
      rw [hfirst.top_eq, hfirst.below_eq] at this
      exact this
    · have := hrest.below_eq
      rw [hfirst.top_eq, hfirst.below_eq] at this
      exact this

/-- A document that ends without an error is the document's text. -/
theorem jsonDocument_writes {cap : Nat} {flushFn : Option (Nat → Bool)} {f64Shortest : Bool}
    {es : List Emit}
    (h : (jsonDocument lib cfg (.init cap flushFn f64Shortest) es).err = .ok) :
    (jsonDocument lib cfg (.init cap flushFn f64Shortest) es).written =
        documentText lib cfg f64Shortest es ∧
      (flushFn = none → (jsonDocument lib cfg (.init cap flushFn f64Shortest) es).flushed = []) := by
  unfold jsonDocument at h ⊢
  have hopen := puts_jsonPutc (.init cap flushFn f64Shortest) 123
  have hopenLevels := jsonPutc_sameLevels (.init cap flushFn f64Shortest) 123
  generalize jsonPutc (.init cap flushFn f64Shortest) 123 = start at h hopen hopenLevels ⊢
  have hclose := puts_jsonPutc (jsonEmitAll lib cfg start es) 125
  obtain ⟨hok, hwritten, hflushed⟩ := hclose.wrote h
  have hall := jsonEmitAll_writes lib cfg hok
  obtain ⟨-, hstart, hstartFlushed⟩ := hopen.wrote hall.ok
  constructor
  · rw [hwritten, hall.written, hstart, hopen.f64Shortest_eq, hopenLevels.top_eq,
      hopenLevels.below_eq]
    rfl
  · intro hnone
    have hstartNone : start.flushFn = none := hopen.flushFn_eq.trans hnone
    rw [hflushed (hall.flushFn_eq.trans hstartNone), hall.flushed hstartNone]
    exact hstartFlushed hnone

/-! ## Ending without an error -/

/-- The depth after a call. -/
def depthAfter (d : Nat) : Emit → Nat
  | .beginObj _ => d + 1
  | .beginArr _ => d + 1
  | .endObj => d - 1
  | .endArr => d - 1
  | _ => d

/-- The level stack has room for every container of a sequence of calls. -/
def StackFits : Nat → List Emit → Prop
  | _, [] => True
  | d, e :: es => (e.opens = true → d + 1 < stackSize) ∧ StackFits (depthAfter d e) es

theorem length_levelsAfter (top : Level) (below : List Level) (e : Emit) :
    (levelsAfter top below e).2.length = depthAfter below.length e := by
  cases e <;> simp [levelsAfter, depthAfter]

/-- What nests within the stack fits it. -/
theorem stackFits_of_nested {isArray : Bool} {n d : Nat} {es rest : List Emit}
    (h : Nested isArray n es) (hd : d + n < stackSize) (hrest : StackFits d rest) :
    StackFits d (es ++ rest) := by
  induction h generalizing d rest with
  | nil => exact hrest
  | @leaf _ _ e _ _ hleaf _ _ ih =>
    have hopens : e.opens = false ∧ depthAfter d e = d := by
      cases e <;> first | exact ⟨rfl, rfl⟩ | cases hleaf
    refine ⟨fun h => ?_, ?_⟩
    · rw [hopens.1] at h
      cases h
    · rw [hopens.2]
      exact ih hd hrest
  | @obj _ n _ _ _ _ _ _ ihinner ih =>
    simp only [List.cons_append, List.append_assoc]
    have hinner : d + 1 + n < stackSize := by omega
    exact ⟨fun _ => by omega, ihinner hinner ⟨(fun h => by cases h), ih hd hrest⟩⟩
  | @arr _ n _ _ _ _ _ _ ihinner ih =>
    simp only [List.cons_append, List.append_assoc]
    have hinner : d + 1 + n < stackSize := by omega
    exact ⟨fun _ => by omega, ihinner hinner ⟨(fun h => by cases h), ih hd hrest⟩⟩

/-- Moving the levels does not undo a failed flush. -/
theorem Failed.levelStep {c : Ctx} (h : Failed c) (e : Emit) : Failed (levelStep c e) := by
  have hsame : (SerializeJson.levelStep c e).flushFn = c.flushFn ∧
      (SerializeJson.levelStep c e).flushed = c.flushed := by
    cases e <;> simp only [SerializeJson.levelStep, jsonPopLevel_eq, jsonPushLevel, and_self] <;>
      (repeat' split) <;> exact ⟨rfl, rfl⟩
  exact h.mono hsame.1 (Nat.le_of_eq (congrArg List.length hsame.2.symm))

/-- A callback with room, in the buffer and on the stack. -/
theorem jsonEmit_ok {c : Ctx} {e : Emit} {bs : Bytes}
    (hroom : Roomy c (emitText lib cfg c.f64Shortest c.top e ++ bs))
    (hstack : e.opens = true → c.below.length + 1 < stackSize) :
    (jsonEmit lib cfg c e).err = .ok ∧ Roomy (jsonEmit lib cfg c e) bs ∨
      Failed (jsonEmit lib cfg c e) := by
  obtain ⟨body, heq, hputs, htop, hbelow⟩ := jsonEmit_eq lib cfg c e
  rw [heq]
  rcases hputs.ok hroom.left with hok | hfailed
  · have hstep := levelStep_ok hok (by rwa [hbelow])
    have hroom' := hputs.roomy hroom hok
    refine .inl ⟨hstep, ?_⟩
    rw [(levelStep_of_ok htop hstep).2]
    exact hroom'
  · exact .inr (hfailed.levelStep e)

/-- Later calls do not undo a failed flush. -/
theorem jsonEmitAll_failed {c : Ctx} (es : List Emit) (h : Failed c) :
    Failed (jsonEmitAll lib cfg c es) := by
  induction es generalizing c with
  | nil => exact h
  | cons e es ih =>
    refine ih ?_
    obtain ⟨body, heq, hputs, -, -⟩ := jsonEmit_eq lib cfg c e
    rw [heq]
    exact (h.mono hputs.flushFn_eq hputs.mono).levelStep e

theorem jsonEmitAll_ok {c : Ctx} {es : List Emit} {bs : Bytes}
    (hroom : Roomy c (textOf lib cfg c.f64Shortest c.top c.below es ++ bs))
    (hstack : StackFits c.below.length es) :
    (jsonEmitAll lib cfg c es).err = .ok ∧ Roomy (jsonEmitAll lib cfg c es) bs ∨
      Failed (jsonEmitAll lib cfg c es) := by
  induction es generalizing c with
  | nil => exact .inl ⟨hroom.1, hroom⟩
  | cons e es ih =>
    rw [textOf, List.append_assoc] at hroom
    rcases jsonEmit_ok lib cfg hroom hstack.1 with ⟨hok, hroom'⟩ | hfailed
    · have hfirst := jsonEmit_writes lib cfg hok
      refine ih ?_ ?_
      · rw [hfirst.f64Shortest_eq, hfirst.top_eq, hfirst.below_eq]
        exact hroom'
      · rw [hfirst.below_eq, length_levelsAfter]
        exact hstack.2
    · exact .inr (jsonEmitAll_failed lib cfg es hfailed)

/-- With room, only a failed flush ends a document that fits the stack. -/
theorem jsonDocument_ok {cap : Nat} {flushFn : Option (Nat → Bool)} {f64Shortest : Bool}
    {es : List Emit} (hnone : flushFn = none → (documentText lib cfg f64Shortest es).length ≤ cap)
    (hsome : flushFn ≠ none → 32 ≤ cap) (hstack : StackFits 0 es) :
    (jsonDocument lib cfg (.init cap flushFn f64Shortest) es).err = .ok ∨
      Failed (jsonDocument lib cfg (.init cap flushFn f64Shortest) es) := by
  unfold jsonDocument
  have hopen := puts_jsonPutc (.init cap flushFn f64Shortest) 123
  have hopenLevels := jsonPutc_sameLevels (.init cap flushFn f64Shortest) 123
  have hroom : Roomy (.init cap flushFn f64Shortest)
      ([123] ++ (textOf lib cfg f64Shortest rootLevel [] es ++ [125])) := by
    refine ⟨rfl, fun h => ?_, hsome⟩
    have hlen : (Ctx.init cap flushFn f64Shortest).buf.length = 0 := rfl
    rw [hlen, Nat.zero_add]
    exact hnone h
  generalize jsonPutc (.init cap flushFn f64Shortest) 123 = start at hopen hopenLevels ⊢
  have hclose := puts_jsonPutc (jsonEmitAll lib cfg start es) 125
  have hlater (h : Failed (jsonEmitAll lib cfg start es)) :
      Failed (jsonPutc (jsonEmitAll lib cfg start es) 125) :=
    h.mono hclose.flushFn_eq hclose.mono
  rcases hopen.ok hroom.left with hok | hfailed
  · have hroom' := hopen.roomy hroom hok
    have hall : (jsonEmitAll lib cfg start es).err = .ok ∧
        Roomy (jsonEmitAll lib cfg start es) [125] ∨ Failed (jsonEmitAll lib cfg start es) := by
      refine jsonEmitAll_ok lib cfg ?_ ?_
      · rw [hopen.f64Shortest_eq, hopenLevels.top_eq, hopenLevels.below_eq]
        exact hroom'
      · rw [hopenLevels.below_eq]
        exact hstack
    rcases hall with ⟨-, hroom''⟩ | hfailed
    · exact hclose.ok hroom''
    · exact .inr (hlater hfailed)
  · exact .inr (hlater (jsonEmitAll_failed lib cfg es hfailed))

/-! ## What every put keeps -/

/-- What puts, level changes and an overflow keep, a document keeps. -/
theorem jsonDocument_induct {I : Ctx → Prop} (hput : ∀ c s, I c → I (jsonPut c s))
    (hlevels : ∀ c top below, I c → I { c with top := top, below := below })
    (herr : ∀ c, I c → I { c with err := .noSpace }) {c : Ctx} (hc : I c) (es : List Emit) :
    I (jsonDocument lib cfg c es) := by
  have hescape (s : Bytes) {c : Ctx} (hc : I c) : I (jsonEscapeWrite c s) := by
    induction s generalizing c with
    | nil => exact hc
    | cons ch s ih => exact ih (hput c _ hc)
  have hpre {c : Ctx} (key : Option Bytes) (hc : I c) : I (jsonPreValue c key) := by
    unfold jsonPreValue
    dsimp only
    have hcomma : I (if c.top.haveChild then jsonPutc c 44
        else { c with top := { c.top with haveChild := true } }) := by
      split
      · exact hput c _ hc
      · exact hlevels c _ c.below hc
    generalize (if c.top.haveChild then jsonPutc c 44
      else { c with top := { c.top with haveChild := true } }) = start at hcomma ⊢
    split
    · exact hcomma
    · exact hput _ _ (hescape _ (hput _ _ hcomma))
  have hpush {c : Ctx} (isArray : Bool) (hc : I c) : I (jsonPushLevel c isArray) := by
    unfold jsonPushLevel
    repeat' split
    · exact hc
    · exact herr c hc
    · exact hlevels c _ _ hc
  have hpop {c : Ctx} (hc : I c) : I (jsonPopLevel c) := by
    rw [jsonPopLevel_eq]
    exact hlevels c _ _ hc
  have hfixed {c : Ctx} (v : Float) (hc : I c) : I (jsonWriteF64 cfg c v) := by
    unfold jsonWriteF64
    split
    · exact hput c _ hc
    dsimp only
    generalize (if decide (v < 0) = true then -v else v) = mag
    split
    · exact hput c _ hc
    refine hput _ _ (hput _ _ (hput _ _ ?_))
    split
    · exact hput c _ hc
    · exact hc
  have hshortest {c : Ctx} (v : Float) (hc : I c) : I (jsonWriteF64Shortest lib c v) := by
    unfold jsonWriteF64Shortest
    split <;> exact hput c _ hc
  have hemit {c : Ctx} (e : Emit) (hc : I c) : I (jsonEmit lib cfg c e) := by
    cases e with
    | beginObj key => exact hpush _ (hput _ _ (hpre key hc))
    | beginArr key => exact hpush _ (hput _ _ (hpre key hc))
    | endObj => exact hpop (hput _ _ hc)
    | endArr => exact hpop (hput _ _ hc)
    | i64 key v => exact hput _ _ (hpre key hc)
    | u64 key v => exact hput _ _ (hpre key hc)
    | f64 key v =>
      unfold jsonEmit
      dsimp only
      split
      · exact hshortest v (hpre key hc)
      · exact hfixed v (hpre key hc)
    | bool key v =>
      unfold jsonEmit
      dsimp only
      split <;> exact hput _ _ (hpre key hc)
    | str key s => exact hput _ _ (hescape s (hput _ _ (hpre key hc)))
    | null key => exact hput _ _ (hpre key hc)
  have hall (es : List Emit) {c : Ctx} (hc : I c) : I (jsonEmitAll lib cfg c es) := by
    induction es generalizing c with
    | nil => exact hc
    | cons e es ih => exact ih (hemit e hc)
  exact hput _ _ (hall es (hput _ _ hc))

end Callbacks

end SerializeJson
end Breadboard
