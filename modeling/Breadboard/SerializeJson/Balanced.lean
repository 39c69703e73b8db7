import Breadboard.Foundations.JsonTree
import Breadboard.SerializeJson.RoundTrip

/-!
# bb_serialize_json - the level stack is large enough and balanced

A level of the walker costs the writer one container or two, an array at the depth limit
still one: `2 * maxDepth + 1` above the root, the last slot of `stack`.  What the
walker opens it closes, so every push has its pop and a render can only fail for want of
room in the buffer.  The numbers are those of RFC 8259, without the leading zeros that the
scanner would let pass.

Main results:

- Theorem `nested_placed`: every begin call has its end and every end call its begin.
- Theorem `render_balanced`: a plain render fails exactly when the document does not
  fit the buffer.
-/

namespace Breadboard
namespace SerializeJson

open Foundations Serialize
open Foundations.JsonText (Event Json Integer RfcNumber Digits IsText)
open Foundations.Decimal (decimal digitsRev digitByte)

/-! ## Numbers without leading zeros -/

/-- The leading digit of a positive number is not zero. -/
theorem getLast?_digitsRev_ne {fuel n : Nat} (hfuel : n < fuel) (hn : 0 < n) :
    (digitsRev fuel n).getLast? ≠ some 48 := by
  induction fuel generalizing n with
  | zero => omega
  | succ fuel ih =>
    unfold digitsRev
    split
    · rename_i hlt
      intro hlast
      have hbyte : digitByte n = 48 := by simpa using hlast
      have hnat : (digitByte n).toNat = 48 := by rw [hbyte]; rfl
      rw [Decimal.toNat_digitByte hlt] at hnat
      omega
    · have hrest : digitsRev fuel (n / 10) ≠ [] := Decimal.digitsRev_ne_nil (by omega)
      obtain ⟨b, l, hl⟩ := List.exists_cons_of_ne_nil hrest
      have hlast := @ih (n / 10) (by omega) (by omega)
      rw [hl] at hlast ⊢
      rwa [List.getLast?_cons_cons]

theorem integer_decimal (n : Nat) : Integer (decimal n) := by
  refine ⟨digits_decimal n, fun hhead => ?_⟩
  rcases Nat.eq_zero_or_pos n with rfl | hn
  · rfl
  · rw [decimal, List.head?_reverse] at hhead
    exact absurd hhead (getLast?_digitsRev_ne (Nat.lt_succ_self n) hn)

theorem rfcNumber_of_integer {sign s : Bytes} (hsign : JsonText.Sign sign) (h : Integer s) :
    RfcNumber (sign ++ s) :=
  ⟨sign, s, [], [], by simp, hsign, h, .inl rfl, .inl rfl⟩

theorem rfcNumber_intText (v : Int) : RfcNumber (intText v) := by
  unfold intText
  split
  · exact @rfcNumber_of_integer [] _ (.inl rfl) (integer_decimal _)
  · exact @rfcNumber_of_integer [45] _ (.inr rfl) (integer_decimal _)

/-- `%.*g` prints a finite value as a number of RFC 8259. -/
def Libc.PrintsRfcNumbers (lib : Libc) : Prop :=
  ∀ precision v, v.isNaN = false → v.isInf = false → RfcNumber (lib.printG precision v)

theorem Libc.PrintsRfcNumbers.lax {lib : Libc} (h : lib.PrintsRfcNumbers) : lib.PrintsNumbers :=
  fun precision v hnan hinf => (h precision v hnan hinf).lax

section Text

variable {lib : Libc} (cfg : Kconfig) (f64Shortest : Bool)

theorem fixedText_rfc (v : Float) : fixedText cfg v = nullText ∨ RfcNumber (fixedText cfg v) := by
  unfold fixedText
  split
  · exact .inl rfl
  dsimp only
  generalize (if decide (v < 0) = true then -v else v) = mag
  split
  · exact .inl rfl
  have hint : u64ToDec 21 (f64Parts cfg mag).1.toNat = decimal (f64Parts cfg mag).1.toNat := by
    have hlt := (f64Parts cfg mag).1.toNat_lt
    exact u64ToDec_eq (by omega) (by decide)
  rw [hint]
  refine .inr ⟨if decide (v < 0) then [45] else [], decimal (f64Parts cfg mag).1.toNat,
    46 :: fracDigits cfg.f64Decimals (f64Parts cfg mag).2.toNat, [], by simp, ?_,
    integer_decimal _, ?_, .inl rfl⟩
  · split
    · exact .inr rfl
    · exact .inl rfl
  · exact .inr ⟨_, rfl, digits_fracDigits cfg.f64Decimals_range.1 _⟩

theorem shortestText_rfc (hlib : lib.PrintsRfcNumbers) {v : Float} (hnan : v.isNaN = false)
    (hinf : v.isInf = false) : RfcNumber (shortestText lib v) := by
  unfold shortestText
  dsimp only
  split
  · have hlo := (saturateI32 v).le_toInt
    have hhi := (saturateI32 v).toInt_lt
    rw [i64ToDec_eq (by decide) ⟨by omega, by omega⟩]
    exact rfcNumber_intText _
  · generalize (if v.abs < (lib.strtod (lib.printG 15 v)).abs then
      (lib.strtod (lib.printG 15 v)).abs else v.abs) = maxAbs
    split
    · exact hlib 17 v hnan hinf
    · exact hlib 15 v hnan hinf

theorem f64Text_rfc (hlib : lib.PrintsRfcNumbers) (v : Float) :
    f64Text lib cfg f64Shortest v = nullText ∨ RfcNumber (f64Text lib cfg f64Shortest v) := by
  unfold f64Text
  split
  · split
    · exact .inl rfl
    · next hfinite =>
      rw [Bool.or_eq_true, not_or] at hfinite
      exact .inr (shortestText_rfc hlib (Bool.eq_false_iff.mpr hfinite.1)
        (Bool.eq_false_iff.mpr hfinite.2))
  · exact fixedText_rfc cfg v

variable {cfg f64Shortest}

/-- The numbers of a call. -/
theorem rfcNumber_eventOf (hlib : lib.PrintsRfcNumbers) {e : Emit} {key n : Bytes}
    (h : eventOf lib cfg f64Shortest e = .num key n) : RfcNumber n := by
  cases e with
  | i64 k v =>
    cases h
    exact rfcNumber_intText v
  | u64 k v =>
    cases h
    exact @rfcNumber_of_integer [] _ (.inl rfl) (integer_decimal v)
  | f64 k v =>
    rw [eventOf] at h
    split at h
    · cases h
    · next hnull =>
      cases h
      exact (f64Text_rfc cfg f64Shortest hlib v).resolve_left hnull
  | _ => cases h

/-- A document is the text of one JSON object. -/
theorem documentText_object (hlib : lib.PrintsRfcNumbers) {n : Nat} {es : List Emit}
    (h : Nested false n es) (hrange : ∀ e ∈ es, InRange e) :
    ∃ ms, IsText RfcNumber (documentText lib cfg f64Shortest es) ((Json.obj ms).events []) := by
  obtain ⟨w, s, w', hs, hw, hreads, hw'⟩ :=
    @documentText_isText lib cfg f64Shortest hlib.lax n es h hrange
  have hrfc : IsText RfcNumber (documentText lib cfg f64Shortest es)
      (documentEvents lib cfg f64Shortest es) := by
    refine ⟨w, s, w', hs, hw, hreads.change fun key n hmem _ => ?_, hw'⟩
    rcases List.mem_append.mp hmem with hmem | hend
    · rcases List.mem_cons.mp hmem with heq | hmem
      · cases heq
      · obtain ⟨e, -, he⟩ := List.mem_map.mp hmem
        exact rfcNumber_eventOf hlib he
    · cases List.mem_singleton.mp hend
  obtain ⟨j, hj⟩ := hrfc.exists_json
  rw [hj] at hrfc
  cases j with
  | obj ms => exact ⟨ms, hrfc⟩
  | _ => simp [documentEvents, Json.events] at hj

end Text

/-! ## Begin and end calls -/

/-- The end call of a begin call. -/
inductive Closes : Emit → Emit → Prop where
  | obj (key : Option Bytes) : Closes (.beginObj key) .endObj
  | arr (key : Option Bytes) : Closes (.beginArr key) .endArr

/-- Calls that close all they open, and nothing else. -/
def Bracketed (es : List Emit) : Prop := ∃ isArray n, Nested isArray n es

/-- The place of a call between what is before it and after it: a value, the begin of a
container whose end follows, or the end of one whose begin is before. -/
inductive Placed (pre : List Emit) (e : Emit) (post : List Emit) : Prop where
  | value {key : Option Bytes} (hleaf : e.leafKey = some key)
  | opening {inner post' : List Emit} {closing : Emit} (hpost : post = inner ++ closing :: post')
      (hcloses : Closes e closing) (hinner : Bracketed inner)
  | closing {pre' inner : List Emit} {opening : Emit} (hpre : pre = pre' ++ opening :: inner)
      (hcloses : Closes opening e) (hinner : Bracketed inner)

theorem Placed.extend {pre post : List Emit} {e : Emit} (h : Placed pre e post)
    (before after : List Emit) : Placed (before ++ pre) e (post ++ after) := by
  cases h with
  | value hleaf => exact .value hleaf
  | @opening inner post' closing hpost hcloses hinner =>
    have hpost' : post ++ after = inner ++ closing :: (post' ++ after) := by
      rw [hpost, List.append_assoc, List.cons_append]
    exact .opening hpost' hcloses hinner
  | @closing pre' inner opening hpre hcloses hinner =>
    have hpre' : before ++ pre = (before ++ pre') ++ opening :: inner := by
      rw [hpre, List.append_assoc]
    exact .closing hpre' hcloses hinner

/-- A container between its two ends, with what follows it. -/
theorem placed_container {opening closing : Emit} {inner es : List Emit}
    (hcloses : Closes opening closing) (hinner : Bracketed inner)
    (hin : ∀ pre e post, inner = pre ++ e :: post → Placed pre e post)
    (hafter : ∀ pre e post, es = pre ++ e :: post → Placed pre e post)
    {pre post : List Emit} {e : Emit}
    (h : opening :: inner ++ closing :: es = pre ++ e :: post) : Placed pre e post := by
  cases pre with
  | nil =>
    obtain ⟨rfl, rfl⟩ := List.cons.inj h
    exact .opening rfl hcloses hinner
  | cons first pre =>
    have hfirst : first = opening := (List.cons.inj h).1.symm
    have hrest : inner ++ closing :: es = pre ++ e :: post := (List.cons.inj h).2
    subst hfirst
    rcases List.append_eq_append_iff.mp hrest with ⟨mid, hpre, hmid⟩ | ⟨mid, hmid, htail⟩
    · cases mid with
      | nil =>
        obtain ⟨rfl, -⟩ := List.cons.inj hmid
        rw [hpre, List.append_nil]
        exact @Placed.closing _ _ _ [] inner first rfl hcloses hinner
      | cons first' mid =>
        obtain ⟨rfl, hes⟩ := List.cons.inj hmid
        have hplaced := (hafter mid e post hes).extend (first :: inner ++ [closing]) []
        rw [hpre]
        simpa using hplaced
    · cases mid with
      | nil =>
        obtain ⟨rfl, -⟩ := List.cons.inj htail
        rw [List.append_nil] at hmid
        rw [← hmid]
        exact @Placed.closing _ _ _ [] inner first rfl hcloses hinner
      | cons first' mid =>
        obtain ⟨rfl, rfl⟩ := List.cons.inj htail
        exact (hin pre e mid hmid).extend [first] (closing :: es)

/-- Every begin call has its end and every end call its begin. -/
theorem nested_placed {isArray : Bool} {n : Nat} {es : List Emit} (h : Nested isArray n es)
    {pre post : List Emit} {e : Emit} (hes : es = pre ++ e :: post) : Placed pre e post := by
  induction h generalizing pre e post with
  | nil => simp at hes
  | leaf hleaf _ _ ih =>
    cases pre with
    | nil =>
      obtain ⟨rfl, -⟩ := List.cons.inj hes
      exact .value hleaf
    | cons first pre =>
      have hplaced := (ih (List.cons.inj hes).2).extend [first] []
      simpa using hplaced
  | obj _ hinner _ ihinner ih =>
    exact placed_container (.obj _) ⟨_, _, hinner⟩ (fun _ _ _ h => ihinner h)
      (fun _ _ _ h => ih h) hes
  | arr _ hinner _ ihinner ih =>
    exact placed_container (.arr _) ⟨_, _, hinner⟩ (fun _ _ _ h => ihinner h)
      (fun _ _ _ h => ih h) hes

/-! ## The level stack over a walk -/

theorem levelsAfterAll_append (levels : Level × List Level) (es es' : List Emit) :
    levelsAfterAll levels (es ++ es') = levelsAfterAll (levelsAfterAll levels es) es' :=
  List.foldl_append

/-- A container leaves the levels of a value. -/
theorem levelsAfterAll_container {opening closing : Emit} (hcloses : Closes opening closing)
    {inner : List Emit}
    (hinner : ∀ top below, levelsAfterAll (top, below) inner = (afterItems top inner, below))
    (top : Level) (below : List Level) (es : List Emit) :
    levelsAfterAll (top, below) (opening :: inner ++ closing :: es) =
      levelsAfterAll (top.withChild, below) es := by
  rw [levelsAfterAll_append]
  cases hcloses with
  | obj key =>
    have hbegin : levelsAfterAll (top, below) (.beginObj key :: inner) =
        levelsAfterAll (⟨false, false⟩, top.withChild :: below) inner := rfl
    rw [hbegin, hinner]
    rfl
  | arr key =>
    have hbegin : levelsAfterAll (top, below) (.beginArr key :: inner) =
        levelsAfterAll (⟨true, false⟩, top.withChild :: below) inner := rfl
    rw [hbegin, hinner]
    rfl

/-- A bracketed sequence leaves the levels below alone. -/
theorem levelsAfterAll_nested {isArray : Bool} {n : Nat} {es : List Emit}
    (h : Nested isArray n es) (top : Level) (below : List Level) :
    levelsAfterAll (top, below) es = (afterItems top es, below) := by
  induction h generalizing top below with
  | nil => rfl
  | @leaf _ _ e _ es hleaf _ _ ih =>
    have hfirst : levelsAfterAll (top, below) (e :: es) =
        levelsAfterAll (levelsAfter top below e) es := rfl
    rw [hfirst, levelsAfter_leaf hleaf, ih, afterItems_withChild]
    rfl
  | obj _ _ _ ihinner ih =>
    rw [levelsAfterAll_container (.obj _) ihinner, ih, afterItems_withChild,
      afterItems_append_cons]
  | arr _ _ _ ihinner ih =>
    rw [levelsAfterAll_container (.arr _) ihinner, ih, afterItems_withChild,
      afterItems_append_cons]

theorem foldl_depthAfter_nested {isArray : Bool} {n : Nat} {es : List Emit}
    (h : Nested isArray n es) (d : Nat) : es.foldl depthAfter d = d := by
  induction h generalizing d with
  | nil => rfl
  | @leaf _ _ e _ es hleaf _ _ ih =>
    have hsame : depthAfter d e = d := by cases e <;> first | rfl | cases hleaf
    rw [List.foldl_cons, hsame, ih]
  | obj _ _ _ ihinner ih =>
    rw [List.foldl_append, List.foldl_cons, List.foldl_cons, ihinner]
    exact ih d
  | arr _ _ _ ihinner ih =>
    rw [List.foldl_append, List.foldl_cons, List.foldl_cons, ihinner]
    exact ih d

theorem StackFits.room {d : Nat} {pre post : List Emit} {e : Emit}
    (h : StackFits d (pre ++ e :: post)) (hopens : e.opens = true) :
    pre.foldl depthAfter d + 1 < stackSize := by
  induction pre generalizing d with
  | nil => exact h.1 hopens
  | cons first pre ih => exact ih h.2

theorem depthAfter_mono {d d' : Nat} (h : d ≤ d') (e : Emit) : depthAfter d e ≤ depthAfter d' e := by
  cases e <;> simp only [depthAfter] <;> omega

section Callbacks

variable (lib : Libc) (cfg : Kconfig)

/-- A skipped push leaves the stack lower than the calls, never higher. -/
theorem length_below_levelStep_le (c : Ctx) (e : Emit) :
    (levelStep c e).below.length ≤ depthAfter c.below.length e := by
  have hpush (isArray : Bool) : (jsonPushLevel c isArray).below.length ≤ c.below.length + 1 := by
    unfold jsonPushLevel
    split
    · exact Nat.le_succ _
    split
    · exact Nat.le_succ _
    · exact Nat.le_refl _
  have hpop : (jsonPopLevel c).below.length ≤ c.below.length - 1 := by
    unfold jsonPopLevel
    split
    · next hbelow => rw [hbelow]; exact Nat.le_refl _
    · next hbelow => rw [hbelow]; exact Nat.le_refl _
  cases e with
  | beginObj key => exact hpush false
  | beginArr key => exact hpush true
  | endObj => exact hpop
  | endArr => exact hpop
  | _ => exact Nat.le_refl _

/-- Failed or not, the stack is no deeper than the calls. -/
theorem length_below_jsonEmitAll_le {c : Ctx} {d : Nat} (hd : c.below.length ≤ d)
    (es : List Emit) : (jsonEmitAll lib cfg c es).below.length ≤ es.foldl depthAfter d := by
  induction es generalizing c d with
  | nil => exact hd
  | cons e es ih =>
    refine ih ?_
    obtain ⟨body, heq, -, -, hbelow⟩ := jsonEmit_eq lib cfg c e
    rw [heq]
    refine (length_below_levelStep_le body e).trans ?_
    rw [hbelow]
    exact depthAfter_mono hd e

/-! ## A plain render -/

/-- The context of `bb_json_render_impl` after the first calls of its walk. -/
def rendering (cap : Nat) (f64Shortest : Bool) (pre : List Emit) : Ctx :=
  jsonEmitAll lib cfg (jsonPutc (.init (cap - 1) none f64Shortest) 123) pre

/-- What a begin call hands to `bb_json_push_level`. -/
def pushContext (c : Ctx) : Emit → Option Ctx
  | .beginObj key => some (jsonPutc (jsonPreValue c key) 123)
  | .beginArr key => some (jsonPutc (jsonPreValue c key) 91)
  | _ => none

theorem pushContext_below {c c' : Ctx} {e : Emit} (h : pushContext c e = some c') :
    e.opens = true ∧ c'.below = c.below := by
  cases e with
  | beginObj key =>
    cases h
    exact ⟨rfl, (jsonPutc_sameLevels _ _).below_eq.trans (jsonPreValue_levels c key).2⟩
  | beginArr key =>
    cases h
    exact ⟨rfl, (jsonPutc_sameLevels _ _).below_eq.trans (jsonPreValue_levels c key).2⟩
  | _ => cases h

theorem rendering_append (cap : Nat) (f64Shortest : Bool) (es es' : List Emit) :
    rendering lib cfg cap f64Shortest (es ++ es') =
      jsonEmitAll lib cfg (rendering lib cfg cap f64Shortest es) es' :=
  List.foldl_append

/-- The level stack of a render whose walk makes the calls `es`. -/
structure StackBalanced (es : List Emit) (cap : Nat) (f64Shortest : Bool) : Prop where
  /-- The capacity check of a push, `next >= sizeof(stack) / sizeof(stack[0])`, never holds. -/
  never_full : ∀ pre e post c, es = pre ++ e :: post →
    pushContext (rendering lib cfg cap f64Shortest pre) e = some c → c.below.length + 1 < stackSize
  /-- Every begin call has its end call, and every end call its begin call. -/
  placed : ∀ pre e post, es = pre ++ e :: post → Placed pre e post
  /-- What a begin call pushed its end call pops, unless the buffer was full before. -/
  popped : ∀ pre opening inner closing post, es = pre ++ (opening :: inner ++ closing :: post) →
    Closes opening closing → Bracketed inner →
    (rendering lib cfg cap f64Shortest (pre ++ (opening :: inner ++ [closing]))).err = .ok →
    (rendering lib cfg cap f64Shortest (pre ++ (opening :: inner))).below =
        (rendering lib cfg cap f64Shortest pre).top.withChild ::
          (rendering lib cfg cap f64Shortest pre).below ∧
      (rendering lib cfg cap f64Shortest (pre ++ (opening :: inner ++ [closing]))).top =
        (rendering lib cfg cap f64Shortest pre).top.withChild ∧
      (rendering lib cfg cap f64Shortest (pre ++ (opening :: inner ++ [closing]))).below =
        (rendering lib cfg cap f64Shortest pre).below
  /-- In the end nothing is left on the stack, also when the buffer was full before. -/
  at_root : (rendering lib cfg cap f64Shortest es).below = []

/-- The end of a container finds the stack as its begin left it. -/
theorem jsonEmitAll_container {opening closing : Emit} (hcloses : Closes opening closing)
    {inner : List Emit} (hinner : Bracketed inner) {c : Ctx}
    (hok : (jsonEmitAll lib cfg c (opening :: inner ++ [closing])).err = .ok) :
    (jsonEmitAll lib cfg c (opening :: inner)).below = c.top.withChild :: c.below ∧
      (jsonEmitAll lib cfg c (opening :: inner ++ [closing])).top = c.top.withChild ∧
      (jsonEmitAll lib cfg c (opening :: inner ++ [closing])).below = c.below := by
  obtain ⟨isArray, n, hinner⟩ := hinner
  have hwhole := jsonEmitAll_writes lib cfg hok
  have hlevels : levelsAfterAll (c.top, c.below) (opening :: inner ++ [closing]) =
      (c.top.withChild, c.below) :=
    levelsAfterAll_container hcloses (levelsAfterAll_nested hinner) c.top c.below []
  have hsplit : jsonEmitAll lib cfg c (opening :: inner ++ [closing]) =
      jsonEmitAll lib cfg (jsonEmitAll lib cfg c (opening :: inner)) [closing] := List.foldl_append
  rw [hsplit] at hok
  have hmid := jsonEmitAll_writes lib cfg (jsonEmitAll_writes lib cfg hok).ok
  refine ⟨?_, by rw [hwhole.top_eq, hlevels], by rw [hwhole.below_eq, hlevels]⟩
  rw [hmid.below_eq]
  cases hcloses with
  | obj key => exact congrArg Prod.snd (levelsAfterAll_nested hinner ⟨false, false⟩ _)
  | arr key => exact congrArg Prod.snd (levelsAfterAll_nested hinner ⟨true, false⟩ _)

/-- What nests within the stack keeps it balanced. -/
theorem stackBalanced_of_nested {n : Nat} {es : List Emit} (h : Nested false n es)
    (hn : n < stackSize) (cap : Nat) (f64Shortest : Bool) :
    StackBalanced lib cfg es cap f64Shortest := by
  have hstart : (jsonPutc (.init (cap - 1) none f64Shortest) 123).below.length ≤ 0 := by
    rw [(jsonPutc_sameLevels _ _).below_eq]
    exact Nat.le_refl 0
  have hfits : StackFits 0 (es ++ []) := stackFits_of_nested h (by omega) trivial
  rw [List.append_nil] at hfits
  refine ⟨fun pre e post c hes hpush => ?_, fun pre e post hes => nested_placed h hes,
    fun pre opening inner closing post _ hcloses hinner hok => ?_, ?_⟩
  · obtain ⟨hopens, hbelow⟩ := pushContext_below hpush
    rw [hes] at hfits
    have hroom := hfits.room hopens
    have hdepth := length_below_jsonEmitAll_le lib cfg hstart pre
    rw [hbelow]
    exact (Nat.succ_le_succ hdepth).trans_lt hroom
  · rw [rendering_append] at hok
    rw [rendering_append, rendering_append]
    exact jsonEmitAll_container lib cfg hcloses hinner hok
  · have hdepth := length_below_jsonEmitAll_le lib cfg hstart es
    rw [foldl_depthAfter_nested h] at hdepth
    exact List.eq_nil_of_length_eq_zero (Nat.le_zero.mp hdepth)

/-- Without a flush function the only error is a full buffer. -/
def BufferOnly (c : Ctx) : Prop :=
  c.flushFn = none ∧ (c.err = .ok ∨ c.err = .noSpace)

theorem BufferOnly.put {c : Ctx} (h : BufferOnly c) (s : Bytes) : BufferOnly (jsonPut c s) := by
  refine ⟨(jsonPut_flushFn c s).1.trans h.1, ?_⟩
  unfold jsonPut
  rw [h.1]
  split
  · exact h.2
  split
  · exact .inr rfl
  · exact h.2

variable (P : Program)

/-- A render gives the whole document, or nothing for want of room. -/
theorem render_eq_ite (resolve : Resolver) (m : Mem) (fields : List Field) (snap cap : Nat)
    (f64Shortest : Bool) :
    render lib cfg P resolve m fields snap cap f64Shortest =
      if (documentText lib cfg f64Shortest (walk P resolve m fields snap)).length < cap then
        (.ok, documentText lib cfg f64Shortest (walk P resolve m fields snap))
      else (.noSpace, []) := by
  split
  · rename_i hroom
    exact render_eq lib cfg P resolve m fields snap f64Shortest hroom
  rename_i hfull
  unfold render
  split
  · rfl
  rename_i hcap
  have hbuffer : BufferOnly (bufferedDocument lib cfg (cap - 1) f64Shortest
      (walk P resolve m fields snap)) :=
    jsonDocument_induct lib cfg (fun _ s h => h.put s) (fun _ _ _ h => h)
      (fun _ h => ⟨h.1, .inr rfl⟩) ⟨rfl, .inl rfl⟩ _
  have hbounded : Bounded (bufferedDocument lib cfg (cap - 1) f64Shortest
      (walk P resolve m fields snap)) :=
    jsonDocument_induct lib cfg (fun _ s h => h.put s) (fun _ _ _ h => h) (fun _ h => h)
      ⟨Nat.zero_le _, fun _ h => nomatch h⟩ _
  have herr : (bufferedDocument lib cfg (cap - 1) f64Shortest
      (walk P resolve m fields snap)).err = .noSpace := by
    refine hbuffer.2.resolve_left fun hok => hfull ?_
    have hlen := hbounded.1
    rw [bufferedDocument_buf lib cfg hok, (jsonDocument_same lib cfg _ _).2] at hlen
    have hinit : (Ctx.init (cap - 1) none f64Shortest).cap = cap - 1 := rfl
    omega
  dsimp only
  rw [if_pos (by rw [herr]; decide), herr]

/--
A plain render of any descriptor: the capacity check of the level stack never holds, what
is pushed is popped, and there is a JSON object that every buffer with room for it gets
and every other buffer answers with `BB_ERR_NO_SPACE`.
-/
theorem render_balanced (hlib : lib.PrintsRfcNumbers) (resolve : Resolver) (m : Mem)
    (fields : List Field) (snap : Nat) (f64Shortest : Bool) :
    ∃ doc ms, IsText RfcNumber doc ((Json.obj ms).events []) ∧
      ∀ cap, StackBalanced lib cfg (walk P resolve m fields snap) cap f64Shortest ∧
        render lib cfg P resolve m fields snap cap f64Shortest =
          if doc.length < cap then (.ok, doc) else (.noSpace, []) := by
  have hnested : Nested false (2 * maxDepth + 1) (walk P resolve m fields snap) :=
    walkFields_nested maxDepth m fields snap
  obtain ⟨ms, hobject⟩ := @documentText_object lib cfg f64Shortest hlib _ _ hnested
    (walk_inRange m fields snap)
  exact ⟨_, ms, hobject, fun cap => ⟨stackBalanced_of_nested lib cfg hnested (by decide) cap _,
    render_eq_ite lib cfg P resolve m fields snap cap f64Shortest⟩⟩

/-- An array of objects whose rows are described by the table the array is in. -/
def ownRows : Field :=
  { flagField with type := .arr, elemType := .obj, offset := 3 }

/-- The table is its own child. -/
def circularProgram : Program :=
  { flatProgram with tables := fun _ => [ownRows] }

/-- From address 1 on every array is at 1 and has one row. -/
def oneRowEach : Mem := fun a => if a % 4 = 0 then 1 else 0

theorem render_balanced_circular :
    ∃ doc ms, IsText RfcNumber doc ((Json.obj ms).events []) ∧
      ∀ cap, StackBalanced zeroFloats .default
          (walk circularProgram .none oneRowEach [ownRows] 1) cap false ∧
        render zeroFloats .default circularProgram .none oneRowEach [ownRows] 1 cap false =
          if doc.length < cap then (.ok, doc) else (.noSpace, []) := by
  have hlib : zeroFloats.PrintsRfcNumbers := fun _ _ _ _ =>
    @rfcNumber_of_integer [] [48] (.inl rfl) (integer_decimal 0)
  exact render_balanced zeroFloats .default circularProgram hlib .none oneRowEach [ownRows] 1 false

/-- The last slot is used: an array at the depth limit still opens a frame. -/
example : (rendering zeroFloats .default 200 false
    ((walk circularProgram .none oneRowEach [ownRows] 1).take 17)).below.length + 1 =
      stackSize := by
  decide +kernel

end Callbacks

end SerializeJson
end Breadboard
