import Breadboard.SerializeJson.RoundTrip
import Mathlib.Algebra.GroupWithZero.Nat

/-!
# bb_serialize_json - the sizing bound

`bb_serialize_json_bound` sums a worst case over a descriptor, in `size_t`.  Each
call of the walker takes at most its room: a comma, the escaped key and the value.  The
rooms of a walk sum to the worst case, but for the elements of a scalar array, which are
charged as if they were empty objects.

Main results:

- Theorem `agrees_boundFields`: without a wrap-around the bound is the sum.
- Theorem `render_jsonBound`: a buffer of the bound holds the document when the elements
  of scalar arrays are short.
-/

namespace Breadboard
namespace SerializeJson

open Foundations Serialize
open Foundations.Decimal (decimal)

/-! ## The bound -/

/-- The number of values of `size_t`. -/
def sizeValues (P : Program) : Nat := 2 ^ (8 * P.wordBytes)

/-- `SIZE_MAX`. -/
def sizeMax (P : Program) : Nat := sizeValues P - 1

/-- Arithmetic in `size_t` wraps around. -/
def toSize (P : Program) (n : Nat) : Nat := n % sizeValues P

section Bound

variable (cfg : Kconfig) (P : Program)

/-- The string case of `bb_json_bound_elem` and of `bb_json_bound_value`. -/
def boundStr (f : Field) : Nat :=
  if f.maxLen = 0 then sizeMax P else toSize P (6 * f.maxLen + 2)

/-- The object case of both; without `nested` the depth is used up. -/
def boundObj (nested : Option (List Field → Nat)) (f : Field) : Nat :=
  match nested with
  | none => 2
  | some bound =>
    let c := bound (P.tables f.children)
    if c = sizeMax P then sizeMax P else toSize P (2 + c)

/-- `bb_json_bound_elem`. -/
def boundElem (nested : Option (List Field → Nat)) (f : Field) : Nat :=
  -- every other element type is charged as an object, scalars included
  if f.elemType = .str then boundStr P f else boundObj P nested f

/-- `bb_json_bound_value`. -/
def boundValue (nested : Option (List Field → Nat)) (f : Field) : Nat :=
  match f.type with
  | .i64 => 20
  | .u64 => 20
  | .f64 => 24 + cfg.f64Decimals
  | .bool => 5
  | .str => boundStr P f
  | .strN => boundStr P f
  | .obj => boundObj P nested f
  | .arr =>
    if f.cardinality = .stream then sizeMax P
    else if f.maxItems = 0 then sizeMax P
    else
      let eb := boundElem P nested f
      if eb = sizeMax P then sizeMax P else toSize P (2 + f.maxItems * (eb + 1))
  | .ref => sizeMax P

/-- `bb_json_bound_field`. -/
def boundField (nested : Option (List Field → Nat)) (f : Field) : Nat :=
  let vmax := boundValue cfg P nested f
  if vmax = sizeMax P then sizeMax P else toSize P (6 * f.key.length + 3 + vmax + 1)

/-- The loop of `bb_json_bound_fields`. -/
def boundLoop (nested : Option (List Field → Nat)) : Nat → List Field → Nat
  | total, [] => total
  | total, f :: fields =>
    let c := boundField cfg P nested f
    if c = sizeMax P then sizeMax P else boundLoop nested (toSize P (total + c)) fields

/-- `bb_json_bound_fields`, with the number of levels still allowed. -/
def boundFields : Nat → List Field → Nat
  | 0, fields => boundLoop cfg P none 0 fields
  | n + 1, fields => boundLoop cfg P (some (boundFields n)) 0 fields

/-- `bb_serialize_json_bound`. -/
def jsonBound (fields : List Field) : Nat :=
  let total := boundFields cfg P maxDepth fields
  if total = sizeMax P then sizeMax P else toSize P (2 + total + 1)

/-! ## The worst case without wrap-around -/

/-- The worst case of a string; none when `max_len` is left at 0. -/
def worstStr (f : Field) : Option Nat :=
  if f.maxLen = 0 then none else some (6 * f.maxLen + 2)

/-- The worst case of an object; braces alone where the depth is used up. -/
def worstObj (nested : Option (List Field → Option Nat)) (f : Field) : Option Nat :=
  match nested with
  | none => some 2
  | some worst => (worst (P.tables f.children)).map (2 + ·)

/-- What an array element is charged. -/
def worstElem (nested : Option (List Field → Option Nat)) (f : Field) : Option Nat :=
  if f.elemType = .str then worstStr f else worstObj P nested f

/-- What a value is charged; none for a value of unknown size. -/
def worstValue (nested : Option (List Field → Option Nat)) (f : Field) : Option Nat :=
  match f.type with
  | .i64 => some 20
  | .u64 => some 20
  | .f64 => some (24 + cfg.f64Decimals)
  | .bool => some 5
  | .str => worstStr f
  | .strN => worstStr f
  | .obj => worstObj P nested f
  | .arr =>
    if f.cardinality = .stream ∨ f.maxItems = 0 then none
    else (worstElem P nested f).map fun eb => 2 + f.maxItems * (eb + 1)
  | .ref => none

/-- What a field is charged, with its key, its colon and a comma. -/
def worstField (nested : Option (List Field → Option Nat)) (f : Field) : Option Nat :=
  (worstValue cfg P nested f).map fun v => 6 * f.key.length + 3 + v + 1

/-- The sum over a table. -/
def worstSum (nested : Option (List Field → Option Nat)) : List Field → Option Nat
  | [] => some 0
  | f :: fields =>
    (worstField cfg P nested f).bind fun c => (worstSum nested fields).map (c + ·)

/-- The worst case of a table, with the number of levels still allowed. -/
def worstFields : Nat → List Field → Option Nat
  | 0, fields => worstSum cfg P none fields
  | n + 1, fields => worstSum cfg P (some (worstFields n)) fields

/-- The worst case of a document and its terminator. -/
def worstDocument (fields : List Field) : Option Nat :=
  (worstFields cfg P maxDepth fields).map fun total => 2 + total + 1

end Bound

/-- The computed size is the sum up to `SIZE_MAX`, and `SIZE_MAX` without a sum. -/
structure Agrees (P : Program) (b : Nat) (worst : Option Nat) : Prop where
  unbounded : worst = none → b = sizeMax P
  bounded : ∀ w, worst = some w → w ≤ sizeMax P → b = w

section Bound

variable {cfg : Kconfig} {P : Program}

theorem toSize_of_le {n : Nat} (h : n ≤ sizeMax P) : toSize P n = n := by
  have hpos : 0 < sizeValues P := Nat.two_pow_pos _
  unfold sizeMax at h
  exact Nat.mod_eq_of_lt (by omega)

/-- A sum that starts from an agreeing size. -/
theorem Agrees.map {b : Nat} {worst : Option Nat} (h : Agrees P b worst) {g : Nat → Nat}
    (hg : ∀ n, n ≤ g n) :
    Agrees P (if b = sizeMax P then sizeMax P else toSize P (g b)) (worst.map g) where
  unbounded hnone := by
    rw [Option.map_eq_none_iff] at hnone
    rw [if_pos (h.unbounded hnone)]
  bounded w hw hle := by
    obtain ⟨v, hv, rfl⟩ := Option.map_eq_some_iff.mp hw
    have hgrows := hg v
    have hb : b = v := h.bounded v hv (by omega)
    rw [hb, toSize_of_le hle]
    split
    · omega
    · rfl

theorem agrees_const (n : Nat) : Agrees P n (some n) where
  unbounded h := nomatch h
  bounded _ hw _ := Option.some.inj hw

theorem agrees_none : Agrees P (sizeMax P) none where
  unbounded _ := rfl
  bounded _ hw _ := nomatch hw

theorem agrees_boundStr (f : Field) : Agrees P (boundStr P f) (worstStr f) := by
  unfold boundStr worstStr
  split
  · exact agrees_none
  · refine ⟨fun h => (nomatch h), fun w hw hle => ?_⟩
    obtain rfl := Option.some.inj hw
    exact toSize_of_le hle

/-- The sizes of nested tables agree, and are there for the same levels. -/
def AgreesNested (P : Program) (bound : Option (List Field → Nat))
    (worst : Option (List Field → Option Nat)) : Prop :=
  match bound, worst with
  | none, none => True
  | some bound, some worst => ∀ fields, Agrees P (bound fields) (worst fields)
  | _, _ => False

variable {bound : Option (List Field → Nat)} {worst : Option (List Field → Option Nat)}

theorem agrees_boundObj (h : AgreesNested P bound worst) (f : Field) :
    Agrees P (boundObj P bound f) (worstObj P worst f) := by
  unfold boundObj worstObj
  cases bound with
  | none =>
    cases worst with
    | none => exact agrees_const 2
    | some worst => exact h.elim
  | some bound =>
    cases worst with
    | none => exact h.elim
    | some worst => exact (h (P.tables f.children)).map fun n => by omega

theorem agrees_boundElem (h : AgreesNested P bound worst) (f : Field) :
    Agrees P (boundElem P bound f) (worstElem P worst f) := by
  unfold boundElem worstElem
  split
  · exact agrees_boundStr f
  · exact agrees_boundObj h f

theorem agrees_boundValue (h : AgreesNested P bound worst) (f : Field) :
    Agrees P (boundValue cfg P bound f) (worstValue cfg P worst f) := by
  unfold boundValue worstValue
  cases f.type with
  | i64 => exact agrees_const 20
  | u64 => exact agrees_const 20
  | f64 => exact agrees_const _
  | bool => exact agrees_const 5
  | str => exact agrees_boundStr f
  | strN => exact agrees_boundStr f
  | obj => exact agrees_boundObj h f
  | arr =>
    dsimp only
    by_cases hstream : f.cardinality = .stream
    · rw [if_pos hstream, if_pos (.inl hstream)]
      exact agrees_none
    by_cases hitems : f.maxItems = 0
    · rw [if_neg hstream, if_pos hitems, if_pos (.inr hitems)]
      exact agrees_none
    · rw [if_neg hstream, if_neg hitems, if_neg (not_or.mpr ⟨hstream, hitems⟩)]
      refine (agrees_boundElem h f).map (g := fun n => 2 + f.maxItems * (n + 1)) fun n => ?_
      have hle : n + 1 ≤ f.maxItems * (n + 1) := Nat.le_mul_of_pos_left _ (by omega)
      omega
  | ref => exact agrees_none

theorem agrees_boundField (h : AgreesNested P bound worst) (f : Field) :
    Agrees P (boundField cfg P bound f) (worstField cfg P worst f) :=
  (agrees_boundValue h f).map (g := fun n => 6 * f.key.length + 3 + n + 1) fun n => by omega

/-- The loop adds up to the sum, or stops at a field without one. -/
theorem agrees_boundLoop (h : AgreesNested P bound worst) (total : Nat) (fields : List Field) :
    Agrees P (boundLoop cfg P bound total fields)
      ((worstSum cfg P worst fields).map (total + ·)) := by
  induction fields generalizing total with
  | nil => exact agrees_const total
  | cons f fields ih =>
    have hfield : Agrees P (boundField cfg P bound f) (worstField cfg P worst f) :=
      agrees_boundField h f
    constructor
    · intro hnone
      rw [boundLoop]
      split
      · rfl
      · rename_i hne
        refine (ih _).unbounded ?_
        cases hf : worstField cfg P worst f with
        | none => exact absurd (hfield.unbounded hf) hne
        | some c => simpa [worstSum, hf] using hnone
    · intro w hw hle
      obtain ⟨sum, hsum, rfl⟩ := Option.map_eq_some_iff.mp hw
      obtain ⟨c, hc, hrest⟩ := Option.bind_eq_some_iff.mp hsum
      obtain ⟨r, hr, rfl⟩ := Option.map_eq_some_iff.mp hrest
      have hb : boundField cfg P bound f = c := hfield.bounded c hc (by omega)
      rw [boundLoop, hb, toSize_of_le (by omega)]
      split
      · omega
      · exact (ih _).bounded _ (by rw [hr, Option.map_some, Nat.add_assoc]) hle

/-- Without a wrap-around the bound of a table is its sum. -/
theorem agrees_boundFields (n : Nat) (fields : List Field) :
    Agrees P (boundFields cfg P n fields) (worstFields cfg P n fields) := by
  induction n generalizing fields with
  | zero =>
    have hloop := @agrees_boundLoop cfg P none none trivial 0 fields
    simpa [boundFields, worstFields] using hloop
  | succ n ih =>
    have hloop := @agrees_boundLoop cfg P (some (boundFields cfg P n)) (some (worstFields cfg P n))
      ih 0 fields
    simpa [boundFields, worstFields] using hloop

/-- Without a wrap-around the bound is the worst case. -/
theorem agrees_jsonBound (fields : List Field) :
    Agrees P (jsonBound cfg P fields) (worstDocument cfg P fields) :=
  (agrees_boundFields maxDepth fields).map (g := fun n => 2 + n + 1) fun n => by omega

end Bound

/-! ## The room of a call -/

/-- The room of an escaped key with its quotes and its colon. -/
def keyRoom : Option Bytes → Nat
  | none => 0
  | some key => 6 * key.length + 3

/-- The room of what stands before a value: a comma and the key. -/
def preRoom : Emit → Nat
  | .endObj => 0
  | .endArr => 0
  | .beginObj key => 1 + keyRoom key
  | .beginArr key => 1 + keyRoom key
  | .i64 key _ => 1 + keyRoom key
  | .u64 key _ => 1 + keyRoom key
  | .f64 key _ => 1 + keyRoom key
  | .bool key _ => 1 + keyRoom key
  | .str key _ => 1 + keyRoom key
  | .null key => 1 + keyRoom key

theorem length_escape_le (s : Bytes) : (escape s).length ≤ 6 * s.length := by
  induction s with
  | nil => exact Nat.le_refl 0
  | cons ch s ih =>
    have hbyte := length_escapeByte_le ch
    unfold escape at ih ⊢
    rw [List.flatMap_cons, List.length_append, List.length_cons]
    omega

theorem length_preText_le {top : Level} {key : Option Bytes} (hkey : key.isNone = top.isArray) :
    (preText top key).length ≤ 1 + keyRoom key := by
  obtain ⟨isArray, haveChild⟩ := top
  dsimp only at hkey
  have hcomma : (if haveChild = true then [44] else [] : Bytes).length ≤ 1 := by
    split <;> decide
  cases key with
  | none =>
    obtain rfl : isArray = true := hkey.symm
    simpa [preText, keyRoom] using hcomma
  | some key =>
    obtain rfl : isArray = false := hkey.symm
    have hescape := length_escape_le key
    simp only [preText, keyRoom, Option.getD_some, List.length_append, List.length_cons,
      List.length_nil, Bool.false_eq_true, if_false]
    omega

section Room

variable (lib : Libc) (cfg : Kconfig) (f64Shortest : Bool)

/-- The bytes a call takes at most. -/
def callRoom (e : Emit) : Nat :=
  preRoom e + (valueText lib cfg f64Shortest e).length

/-- The bytes a sequence of calls takes at most. -/
def room (es : List Emit) : Nat :=
  (es.map (callRoom lib cfg f64Shortest)).sum

end Room

section Room

variable {lib : Libc} {cfg : Kconfig} {f64Shortest : Bool}

@[simp] theorem room_nil : room lib cfg f64Shortest [] = 0 := rfl

@[simp] theorem room_cons (e : Emit) (es : List Emit) :
    room lib cfg f64Shortest (e :: es) = callRoom lib cfg f64Shortest e +
      room lib cfg f64Shortest es := by
  simp [room]

@[simp] theorem room_append (es es' : List Emit) :
    room lib cfg f64Shortest (es ++ es') = room lib cfg f64Shortest es +
      room lib cfg f64Shortest es' := by
  simp [room]

theorem room_le_of_forall {es : List Emit} {k : Nat}
    (h : ∀ e ∈ es, callRoom lib cfg f64Shortest e ≤ k) :
    room lib cfg f64Shortest es ≤ es.length * k := by
  induction es with
  | nil => exact Nat.zero_le _
  | cons e es ih =>
    have hfirst := h e List.mem_cons_self
    have hrest := ih fun e' he' => h e' (List.mem_cons_of_mem e he')
    rw [room_cons, List.length_cons, Nat.succ_mul]
    omega

theorem room_flatMap_le {α : Type} {l : List α} {g : α → List Emit} {k : Nat}
    (h : ∀ x ∈ l, room lib cfg f64Shortest (g x) ≤ k) :
    room lib cfg f64Shortest (l.flatMap g) ≤ l.length * k := by
  induction l with
  | nil => exact Nat.zero_le _
  | cons x l ih =>
    have hfirst := h x List.mem_cons_self
    have hrest := ih fun y hy => h y (List.mem_cons_of_mem x hy)
    rw [List.flatMap_cons, room_append, List.length_cons, Nat.succ_mul]
    omega

theorem callRoom_leaf {e : Emit} {key : Option Bytes} (h : e.leafKey = some key) :
    callRoom lib cfg f64Shortest e =
      1 + keyRoom key + (valueText lib cfg f64Shortest e).length := by
  cases e <;> cases h <;> rfl

/-- A text is no longer than the rooms of its calls. -/
theorem length_textOf_le {isArray : Bool} {n : Nat} {es : List Emit} (h : Nested isArray n es)
    {top : Level} {below : List Level} (htop : top.isArray = isArray) (es' : List Emit) :
    (textOf lib cfg f64Shortest top below (es ++ es')).length ≤ room lib cfg f64Shortest es +
      (textOf lib cfg f64Shortest (afterItems top es) below es').length := by
  induction h generalizing top below es' with
  | nil => simp [afterItems]
  | @leaf isArray n e key es hleaf hkey hes ih =>
    have hnext := @ih top.withChild below htop es'
    have hpre := length_preText_le (hkey.trans htop.symm)
    have hafter : afterItems top (e :: es) = afterItems top.withChild es :=
      (afterItems_withChild top es).symm
    rw [List.cons_append, textOf, levelsAfter_leaf hleaf, emitText_eq hleaf, room_cons,
      callRoom_leaf hleaf, hafter, List.length_append, List.length_append]
    dsimp only
    omega
  | @obj isArray n key inner es hkey hinner hes ihinner ih =>
    have hnext := @ih top.withChild below htop es'
    have hbody := @ihinner ⟨false, false⟩ (top.withChild :: below) rfl (.endObj :: (es ++ es'))
    have hpre := length_preText_le (hkey.trans htop.symm)
    have hafter : afterItems top (.beginObj key :: inner ++ .endObj :: es) =
        afterItems top.withChild es :=
      (afterItems_append_cons top _ es .endObj).trans (afterItems_withChild top es).symm
    rw [hafter]
    simp [textOf, emitText, levelsAfter, callRoom, preRoom, valueText] at hbody hnext hpre ⊢
    omega
  | @arr isArray n key inner es hkey hinner hes ihinner ih =>
    have hnext := @ih top.withChild below htop es'
    have hbody := @ihinner ⟨true, false⟩ (top.withChild :: below) rfl (.endArr :: (es ++ es'))
    have hpre := length_preText_le (hkey.trans htop.symm)
    have hafter : afterItems top (.beginArr key :: inner ++ .endArr :: es) =
        afterItems top.withChild es :=
      (afterItems_append_cons top _ es .endArr).trans (afterItems_withChild top es).symm
    rw [hafter]
    simp [textOf, emitText, levelsAfter, callRoom, preRoom, valueText] at hbody hnext hpre ⊢
    omega

/-- A document is no longer than its braces and the rooms of its calls. -/
theorem length_documentText_le {n : Nat} {es : List Emit} (h : Nested false n es) :
    (documentText lib cfg f64Shortest es).length ≤ 2 + room lib cfg f64Shortest es := by
  have htext := @length_textOf_le lib cfg f64Shortest false n es h rootLevel [] rfl []
  rw [List.append_nil] at htext
  simp only [documentText, textOf, List.length_append, List.length_cons, List.length_nil,
    Nat.add_zero] at htext ⊢
  omega

/-! ## The room of a value -/

theorem length_u64ToDec_le_20 (cap : Nat) {v : Nat} (hv : v < 2 ^ 64) :
    (u64ToDec cap v).length ≤ 20 := by
  have hlen : (decimal v).length ≤ 20 := Decimal.length_decimal_le (by omega)
  exact Nat.le_trans (List.length_take_le' _ _) hlen

theorem length_i64ToDec_le_20 (cap : Nat) {v : Int} (hv : -2 ^ 63 ≤ v ∧ v < 2 ^ 63) :
    (i64ToDec cap v).length ≤ 20 := by
  unfold i64ToDec
  split
  · exact Nat.zero_le _
  split
  · exact length_u64ToDec_le_20 cap (by omega)
  split
  · exact Nat.zero_le _
  · have hlen : (decimal v.natAbs).length ≤ 19 := Decimal.length_decimal_le (by omega)
    have htake : (u64ToDec (cap - 1) v.natAbs).length ≤ (decimal v.natAbs).length :=
      List.length_take_le' _ _
    rw [List.length_cons]
    omega

theorem length_fixedText_le (cfg : Kconfig) (v : Float) :
    (fixedText cfg v).length ≤ 24 + cfg.f64Decimals := by
  have hnull : nullText.length ≤ 24 + cfg.f64Decimals :=
    Nat.le_trans (by decide : nullText.length ≤ 24) (Nat.le_add_right 24 _)
  unfold fixedText
  split
  · exact hnull
  dsimp only
  generalize (if decide (v < 0) = true then -v else v) = mag
  split
  · exact hnull
  · have hsign : (if decide (v < 0) = true then [45] else [] : Bytes).length ≤ 1 := by
      split <;> decide
    have hint := length_u64ToDec_le 21 (f64Parts cfg mag).1.toNat
    simp only [List.length_append, length_fracDigits, List.length_cons, List.length_nil]
    omega

theorem length_shortestText_le_24 (lib : Libc) (v : Float) : (shortestText lib v).length ≤ 24 := by
  unfold shortestText
  dsimp only
  split
  · have hlow := (saturateI32 v).le_toInt
    have hhigh := (saturateI32 v).toInt_lt
    exact Nat.le_trans (length_i64ToDec_le_20 32 (by omega)) (by decide)
  · generalize (if v.abs < (lib.strtod (lib.printG 15 v)).abs then
      (lib.strtod (lib.printG 15 v)).abs else v.abs) = maxAbs
    split
    · exact lib.length_printG_le 17 v (by decide)
    · exact lib.length_printG_le 15 v (by decide)

theorem length_f64Text_le (lib : Libc) (cfg : Kconfig) (f64Shortest : Bool) (v : Float) :
    (f64Text lib cfg f64Shortest v).length ≤ 24 + cfg.f64Decimals := by
  unfold f64Text
  split
  · split
    · exact Nat.le_trans (by decide : nullText.length ≤ 24) (Nat.le_add_right 24 _)
    · exact Nat.le_trans (length_shortestText_le_24 lib v) (Nat.le_add_right 24 _)
  · exact length_fixedText_le cfg v

theorem length_valueText_str_le {key : Option Bytes} {s : Bytes} {n : Nat} (hs : s.length ≤ n) :
    (valueText lib cfg f64Shortest (.str key s)).length ≤ 6 * n + 2 := by
  have hescape := length_escape_le s
  simp only [valueText, List.length_append, List.length_cons, List.length_nil]
  omega

end Room

/-! ## Snapshots within their hints -/

section Snapshot

variable (P : Program) (m : Mem)

/-- The field is printed. -/
def Shown (snap : Nat) (f : Field) : Prop :=
  (f.present.elim true fun g => P.present g m snap) = true

/-- The places where the walker enters the children of a field at `p`. -/
inductive Enters (f : Field) (p : Nat) : Nat → Prop where
  | obj (htype : f.type = .obj) : Enters f p p
  | element (htype : f.type = .arr) (hfixed : f.cardinality = .fixed) (helem : f.elemType = .obj)
      (hitems : load m p P.wordBytes ≠ 0) {j : Nat}
      (hj : j < load m (p + P.wordBytes) P.wordBytes) :
      Enters f p (load m p P.wordBytes + j * f.elemSize)

/-- The walker prints field `f` from `p`, with `n` levels still allowed. -/
inductive Visits : Nat → List Field → Nat → Field → Nat → Prop where
  | here {n : Nat} {fields : List Field} {snap : Nat} {f : Field} (hf : f ∈ fields)
      (hshown : Shown P m snap f) : Visits n fields snap f (snap + f.offset)
  | inside {n : Nat} {fields : List Field} {snap snap' : Nat} {f g : Field} {p : Nat}
      (hf : f ∈ fields) (hshown : Shown P m snap f) (henters : Enters P m f (snap + f.offset) snap')
      (hg : Visits n (P.tables f.children) snap' g p) : Visits (n + 1) fields snap g p

/-- An array is no longer than `max_items`, and a counted string than `max_len`. -/
structure WithinHints (f : Field) (p : Nat) : Prop where
  array : f.type = .arr → f.cardinality = .fixed → load m p P.wordBytes ≠ 0 →
    load m (p + P.wordBytes) P.wordBytes ≤ f.maxItems
  countedStr : f.type = .strN → load m p P.wordBytes ≠ 0 →
    load m (p + P.wordBytes) P.wordBytes ≤ f.maxLen

/--
The elements of a scalar array are printed in two characters at most: a number from
`-9` to `99`, never a `bool`.
-/
def ShortScalars (lib : Libc) (cfg : Kconfig) (f64Shortest : Bool) (f : Field) (p : Nat) : Prop :=
  f.type = .arr → f.cardinality = .fixed → f.elemType ≠ .obj → f.elemType ≠ .str →
    load m p P.wordBytes ≠ 0 →
    ∀ e ∈ walkItems P none m f (load m p P.wordBytes) (load m (p + P.wordBytes) P.wordBytes),
      (valueText lib cfg f64Shortest e).length ≤ 2

end Snapshot

section Walk

variable {lib : Libc} {cfg : Kconfig} {f64Shortest : Bool} {P : Program} {resolve : Resolver}
  {m : Mem} {f : Field} {nested : Option (Mem → List Field → Nat → List Emit)}
  {worst : Option (List Field → Option Nat)}

/-- The rooms of a nested walk stay below the worst case of the table. -/
def RoomNested (lib : Libc) (cfg : Kconfig) (f64Shortest : Bool) (P : Program) (m : Mem) (f : Field)
    (p : Nat) (nested : Option (Mem → List Field → Nat → List Emit))
    (worst : Option (List Field → Option Nat)) : Prop :=
  match nested, worst with
  | none, none => True
  | some walk, some worst => ∀ snap', Enters P m f p snap' →
      ∀ w, worst (P.tables f.children) = some w →
        room lib cfg f64Shortest (walk m (P.tables f.children) snap') ≤ w
  | _, _ => False

/-- The elements of a scalar array are values without a key, one for each item. -/
theorem walkItems_scalar (hobj : f.elemType ≠ .obj) (hstr : f.elemType ≠ .str)
    (items count : Nat) :
    walkItems P nested m f items count = walkItems P none m f items count ∧
      (walkItems P none m f items count).length ≤ count ∧
      ∀ e ∈ walkItems P none m f items count, e.leafKey = some none := by
  have hleaves {g : Nat → Emit} (hg : ∀ j, (g j).leafKey = some none) :
      ((List.range count).map g).length ≤ count ∧
        ∀ e ∈ (List.range count).map g, e.leafKey = some none := by
    refine ⟨by rw [List.length_map, List.length_range], fun e he => ?_⟩
    obtain ⟨j, -, rfl⟩ := List.mem_map.mp he
    exact hg j
  have hempty : ([] : List Emit).length ≤ count ∧
      ∀ e ∈ ([] : List Emit), e.leafKey = some none :=
    ⟨Nat.zero_le _, fun _ he => nomatch he⟩
  unfold walkItems
  cases helem : f.elemType with
  | obj => exact absurd helem hobj
  | str => exact absurd helem hstr
  | i64 => exact ⟨rfl, hleaves fun _ => rfl⟩
  | u64 => exact ⟨rfl, hleaves fun _ => rfl⟩
  | f64 => exact ⟨rfl, hleaves fun _ => rfl⟩
  | bool => exact ⟨rfl, hleaves fun _ => rfl⟩
  | strN => exact ⟨rfl, hempty⟩
  | arr => exact ⟨rfl, hempty⟩
  | ref => exact ⟨rfl, hempty⟩

/-- The braces of an object alone are charged. -/
theorem two_le_worstObj {w : Nat} (h : worstObj P worst f = some w) : 2 ≤ w := by
  unfold worstObj at h
  split at h
  · exact Nat.le_of_eq (Option.some.inj h)
  · obtain ⟨v, -, rfl⟩ := Option.map_eq_some_iff.mp h
    exact Nat.le_add_right 2 v

/-- A nested object takes its braces and what is inside. -/
theorem room_object (key : Option Bytes) (es : List Emit) :
    room lib cfg f64Shortest (.beginObj key :: es ++ [.endObj]) =
      1 + keyRoom key + 2 + room lib cfg f64Shortest es := by
  simp [callRoom, preRoom, valueText]
  omega

/-- The elements of an array stay below what they are charged. -/
theorem room_walkItems_le {p : Nat} (hnested : RoomNested lib cfg f64Shortest P m f p nested worst)
    (hshort : ShortScalars P m lib cfg f64Shortest f p) (htype : f.type = .arr)
    (hfixed : f.cardinality = .fixed) (hitems : load m p P.wordBytes ≠ 0) {eb : Nat}
    (heb : worstElem P worst f = some eb) :
    room lib cfg f64Shortest (walkItems P nested m f (load m p P.wordBytes)
      (load m (p + P.wordBytes) P.wordBytes)) ≤
        load m (p + P.wordBytes) P.wordBytes * (eb + 1) := by
  by_cases hobj : f.elemType = .obj
  · have hworst : worstObj P worst f = some eb := by
      rwa [worstElem, if_neg (by rw [hobj]; decide)] at heb
    unfold walkItems
    rw [hobj]
    dsimp only
    cases nested with
    | none => exact Nat.zero_le _
    | some walk =>
      cases worst with
      | none => exact hnested.elim
      | some worst =>
        obtain ⟨w, hw, rfl⟩ := Option.map_eq_some_iff.mp hworst
        have helements := @room_flatMap_le lib cfg f64Shortest Nat
          (List.range (load m (p + P.wordBytes) P.wordBytes))
          (fun j => .beginObj none :: walk m (P.tables f.children)
            (load m p P.wordBytes + j * f.elemSize) ++ [.endObj]) (2 + w + 1) (by
              intro j hj
              have hinner := hnested _ (.element htype hfixed hobj hitems (List.mem_range.mp hj)) w hw
              rw [room_object, keyRoom]
              omega)
        rwa [List.length_range] at helements
  by_cases hstr : f.elemType = .str
  · have heb : worstStr f = some eb := by
      rwa [worstElem, if_pos hstr] at heb
    have hlen : f.maxLen ≠ 0 ∧ 6 * f.maxLen + 2 = eb := by
      unfold worstStr at heb
      split at heb
      · cases heb
      · exact ⟨‹_›, Option.some.inj heb⟩
    unfold walkItems
    rw [hstr]
    dsimp only
    have helements := @room_le_of_forall lib cfg f64Shortest
      ((List.range (load m (p + P.wordBytes) P.wordBytes)).map fun j =>
        if load m (load m p P.wordBytes + j * P.wordBytes) P.wordBytes ≠ 0 then
          .str none (loadStr m (load m (load m p P.wordBytes + j * P.wordBytes) P.wordBytes) f.maxLen)
        else .null none) (eb + 1) (by
          intro e he
          obtain ⟨j, -, rfl⟩ := List.mem_map.mp he
          split
          · have hvalue := @length_valueText_str_le lib cfg f64Shortest none _ _ (length_loadStr_le m
              (load m (load m p P.wordBytes + j * P.wordBytes) P.wordBytes) f.maxLen)
            rw [callRoom_leaf rfl, keyRoom]
            omega
          · rw [callRoom_leaf rfl, keyRoom]
            have hnull : nullText.length = 4 := rfl
            simp only [valueText]
            omega)
    rwa [List.length_map, List.length_range] at helements
  · obtain ⟨heq, hcount, hleaf⟩ := @walkItems_scalar P m f nested hobj hstr (load m p P.wordBytes)
      (load m (p + P.wordBytes) P.wordBytes)
    have htwo : 2 ≤ eb := two_le_worstObj (by rwa [worstElem, if_neg hstr] at heb)
    rw [heq]
    refine Nat.le_trans (room_le_of_forall fun e he => ?_) (Nat.mul_le_mul_right (eb + 1) hcount)
    have hvalue := hshort htype hfixed hobj hstr hitems e he
    rw [callRoom_leaf (hleaf e he), keyRoom]
    omega

/-- A value of a scalar type takes its key and its text. -/
theorem room_leaf_le {e : Emit} (hleaf : e.leafKey = some (some f.key)) {w : Nat}
    (hvalue : (valueText lib cfg f64Shortest e).length ≤ w) :
    room lib cfg f64Shortest [e] ≤ 6 * f.key.length + 3 + w + 1 := by
  rw [room_cons, room_nil, callRoom_leaf hleaf, keyRoom]
  omega

/-- A field stays below what it is charged. -/
theorem room_walkField_le {snap : Nat}
    (hnested : Shown P m snap f →
      RoomNested lib cfg f64Shortest P m f (snap + f.offset) nested worst)
    (hhints : Shown P m snap f → WithinHints P m f (snap + f.offset))
    (hshort : Shown P m snap f → ShortScalars P m lib cfg f64Shortest f (snap + f.offset)) {w : Nat}
    (hw : worstField cfg P worst f = some w) :
    room lib cfg f64Shortest (walkField P resolve nested m snap f) ≤ w := by
  obtain ⟨v, hv, rfl⟩ := Option.map_eq_some_iff.mp hw
  unfold walkField
  dsimp only
  split
  · exact Nat.zero_le _
  rename_i habsent
  have hshown : Shown P m snap f := by simpa [Shown] using habsent
  have hnested := hnested hshown
  have hhints := hhints hshown
  have hshort := hshort hshown
  unfold worstValue at hv
  have hstr {s : Bytes} (hs : s.length ≤ f.maxLen) (hv : worstStr f = some v) :
      room lib cfg f64Shortest [.str (some f.key) s] ≤ 6 * f.key.length + 3 + v + 1 := by
    refine room_leaf_le rfl (Nat.le_trans (length_valueText_str_le hs) ?_)
    unfold worstStr at hv
    split at hv
    · cases hv
    · exact Nat.le_of_eq (Option.some.inj hv)
  cases htype : f.type with
  | i64 =>
    rw [htype] at hv
    cases hv
    have hlen : (i64ToDec 22 (loadI64 m (snap + f.offset))).length ≤ 20 :=
      length_i64ToDec_le_20 22 (loadI64_range m _)
    refine room_leaf_le (f := f) (w := 20) rfl ?_
    rwa [valueText]
  | u64 =>
    rw [htype] at hv
    cases hv
    have hlen : (u64ToDec 21 (load m (snap + f.offset) 8)).length ≤ 20 :=
      length_u64ToDec_le_20 21 (load_inRange m _)
    refine room_leaf_le (f := f) (w := 20) rfl ?_
    rwa [valueText]
  | f64 =>
    rw [htype] at hv
    cases hv
    exact room_leaf_le rfl (length_f64Text_le lib cfg f64Shortest _)
  | bool =>
    rw [htype] at hv
    cases hv
    refine room_leaf_le (f := f) (w := 5) rfl ?_
    rw [valueText]
    split <;> decide
  | str =>
    rw [htype] at hv
    exact hstr (length_loadStr_le m _ _) hv
  | strN =>
    rw [htype] at hv
    dsimp only
    split
    · rename_i hptr
      refine hstr ?_ hv
      rw [length_loadBytes]
      exact hhints.countedStr htype hptr
    · refine room_leaf_le rfl ?_
      dsimp only at hv
      unfold worstStr at hv
      split at hv
      · cases hv
      · have hnull : nullText.length = 4 := rfl
        have hlen := Option.some.inj hv
        simp only [valueText]
        omega
  | obj =>
    rw [htype] at hv
    dsimp only at hv ⊢
    cases nested with
    | none => exact Nat.zero_le _
    | some walk =>
      cases worst with
      | none => exact hnested.elim
      | some worst =>
        obtain ⟨c, hc, rfl⟩ := Option.map_eq_some_iff.mp hv
        have hinner := hnested _ (.obj htype) c hc
        dsimp only
        rw [room_object, keyRoom]
        omega
  | arr =>
    rw [htype] at hv
    dsimp only at hv ⊢
    split at hv
    · cases hv
    rename_i hknown
    rw [not_or] at hknown
    obtain ⟨eb, heb, rfl⟩ := Option.map_eq_some_iff.mp hv
    have hfixed : f.cardinality = .fixed := by
      cases hcard : f.cardinality with
      | fixed => rfl
      | stream => exact absurd hcard hknown.1
    have hitems : room lib cfg f64Shortest
        (if load m (snap + f.offset) P.wordBytes = 0 then []
          else walkItems P nested m f (load m (snap + f.offset) P.wordBytes)
            (load m (snap + f.offset + P.wordBytes) P.wordBytes)) ≤ f.maxItems * (eb + 1) := by
      split
      · exact Nat.zero_le _
      · rename_i hptr
        exact Nat.le_trans (room_walkItems_le hnested hshort htype hfixed hptr heb)
          (Nat.mul_le_mul_right _ (hhints.array htype hfixed hptr))
    rw [if_neg hknown.1]
    simp only [List.cons_append, room_cons, room_append, room_nil, callRoom, preRoom, valueText,
      keyRoom, List.length_cons, List.length_nil]
    omega
  | ref =>
    rw [htype] at hv
    cases hv

/-- The fields of a table stay below its sum. -/
theorem room_flatMap_walkField_le {snap : Nat} {fields : List Field}
    (hfields : ∀ f ∈ fields, Shown P m snap f →
      RoomNested lib cfg f64Shortest P m f (snap + f.offset) nested worst ∧
        WithinHints P m f (snap + f.offset) ∧
        ShortScalars P m lib cfg f64Shortest f (snap + f.offset)) {w : Nat}
    (hw : worstSum cfg P worst fields = some w) :
    room lib cfg f64Shortest (fields.flatMap (walkField P resolve nested m snap)) ≤ w := by
  induction fields generalizing w with
  | nil => exact Nat.zero_le _
  | cons f fields ih =>
    obtain ⟨c, hc, hrest⟩ := Option.bind_eq_some_iff.mp hw
    obtain ⟨r, hr, rfl⟩ := Option.map_eq_some_iff.mp hrest
    have hf := hfields f List.mem_cons_self
    have hfield := @room_walkField_le lib cfg f64Shortest P resolve m f nested worst snap
      (fun hshown => (hf hshown).1) (fun hshown => (hf hshown).2.1)
      (fun hshown => (hf hshown).2.2) c hc
    have hothers := ih (fun g hg => hfields g (List.mem_cons_of_mem f hg)) hr
    rw [List.flatMap_cons, room_append]
    omega

/-- The rooms of a walk stay below the worst case of the table. -/
theorem room_walkFields_le (n : Nat) {fields : List Field} {snap : Nat}
    (hhints : ∀ f p, Visits P m n fields snap f p → WithinHints P m f p)
    (hshort : ∀ f p, Visits P m n fields snap f p → ShortScalars P m lib cfg f64Shortest f p)
    {w : Nat} (hw : worstFields cfg P n fields = some w) :
    room lib cfg f64Shortest (walkFields P resolve n m fields snap) ≤ w := by
  induction n generalizing fields snap w with
  | zero =>
    refine room_flatMap_walkField_le (fun f hf hshown => ?_) hw
    exact ⟨trivial, hhints f _ (.here hf hshown), hshort f _ (.here hf hshown)⟩
  | succ n ih =>
    refine room_flatMap_walkField_le (fun f hf hshown => ?_) hw
    refine ⟨fun snap' henters c hc => ?_, hhints f _ (.here hf hshown),
      hshort f _ (.here hf hshown)⟩
    exact ih (fun g p hg => hhints g p (.inside hf hshown henters hg))
      (fun g p hg => hshort g p (.inside hf hshown henters hg)) hc

end Walk

/-! ## The bound is enough -/

section Enough

variable (lib : Libc) (cfg : Kconfig) (P : Program)

/--
A buffer of the bound holds the document of every snapshot within its hints, in either
`double` mode, when the elements of scalar arrays are short and the sum does not wrap
around.
-/
theorem render_jsonBound (resolve : Resolver) (m : Mem) (fields : List Field) (snap : Nat)
    (f64Shortest : Bool) (hbound : jsonBound cfg P fields ≠ sizeMax P)
    (hhints : ∀ f p, Visits P m maxDepth fields snap f p → WithinHints P m f p)
    (hshort : ∀ f p, Visits P m maxDepth fields snap f p →
      ShortScalars P m lib cfg f64Shortest f p)
    (hnoWrap : ∀ w, worstDocument cfg P fields = some w → w ≤ sizeMax P) :
    (render lib cfg P resolve m fields snap (jsonBound cfg P fields) f64Shortest).1 = .ok := by
  have hagrees := @agrees_jsonBound cfg P fields
  cases hworst : worstDocument cfg P fields with
  | none => exact absurd (hagrees.unbounded hworst) hbound
  | some w =>
    have hle := hnoWrap w hworst
    rw [hagrees.bounded w hworst hle]
    obtain ⟨total, htotal, rfl⟩ := Option.map_eq_some_iff.mp hworst
    have hroom := @room_walkFields_le lib cfg f64Shortest P resolve m maxDepth fields snap hhints
      hshort total htotal
    have htext := @length_documentText_le lib cfg f64Shortest (2 * maxDepth + 1)
      (walk P resolve m fields snap) (walkFields_nested maxDepth m fields snap)
    have hwalk : walk P resolve m fields snap = walkFields P resolve maxDepth m fields snap := rfl
    rw [hwalk] at htext
    rw [render_eq lib cfg P resolve m fields snap f64Shortest (by rw [hwalk]; omega)]

/-- A `BB_TYPE_ARR` field of at most one `int64_t`. -/
def numbersField : Field :=
  { flagField with type := .arr, maxItems := 1, elemType := .i64 }

/-- One number at address 16, whose last byte is `high` and first byte `low`. -/
def oneNumber (low high : UInt8) : Mem := fun a =>
  if a = 0 then 16 else if a = 4 then 1 else if a = 16 then low else if a = 23 then high else 0

/-- Only the fields of a flat descriptor are visited. -/
theorem visits_flat {P : Program} {m : Mem} {n : Nat} {fields : List Field} {snap : Nat}
    (hflat : ∀ f ∈ fields, f.type ≠ .obj ∧ f.elemType ≠ .obj) {f : Field} {p : Nat}
    (h : Visits P m n fields snap f p) : f ∈ fields ∧ p = snap + f.offset := by
  cases h with
  | here hf _ => exact ⟨hf, rfl⟩
  | inside hf _ henters _ =>
    cases henters with
    | obj htype => exact absurd htype (hflat _ hf).1
    | element _ _ helem _ _ => exact absurd helem (hflat _ hf).2

/-- One digit in the array: 18 bytes and the string are enough. -/
theorem render_jsonBound_digit :
    (render zeroFloats .default flatProgram .none (oneNumber 7 0)
      [numbersField, { flagField with key := [98], type := .str, offset := 16, maxLen := 3 }] 0
      (jsonBound .default flatProgram
        [numbersField, { flagField with key := [98], type := .str, offset := 16, maxLen := 3 }])
      true).1 = .ok := by
  have hvisits {f : Field} {p : Nat} (h : Visits flatProgram (oneNumber 7 0) maxDepth
      [numbersField, { flagField with key := [98], type := .str, offset := 16, maxLen := 3 }] 0 f p) :=
    visits_flat (by decide) h
  refine render_jsonBound zeroFloats .default flatProgram .none (oneNumber 7 0) _ 0 true
    (by decide +kernel) (fun f p h => ?_) (fun f p h => ?_) (by decide +kernel)
  · obtain ⟨hf, rfl⟩ := hvisits h
    simp only [List.mem_cons, List.not_mem_nil, or_false] at hf
    rcases hf with rfl | rfl
    · exact ⟨fun _ _ _ => by decide, fun h => (nomatch h)⟩
    · exact ⟨fun h => (nomatch h), fun h => (nomatch h)⟩
  · obtain ⟨hf, rfl⟩ := hvisits h
    simp only [List.mem_cons, List.not_mem_nil, or_false] at hf
    rcases hf with rfl | rfl
    · exact fun _ _ _ _ _ => by decide +kernel
    · exact fun h => (nomatch h)

/-- The least `int64_t` in the array: 28 bytes of text, and a bound of 18. -/
theorem jsonBound_scalarArray_tooSmall :
    jsonBound .default flatProgram [numbersField] = 18 ∧ 18 ≠ sizeMax flatProgram ∧
      (∀ f p, Visits flatProgram (oneNumber 0 128) maxDepth [numbersField] 0 f p →
        WithinHints flatProgram (oneNumber 0 128) f p) ∧
      (render zeroFloats .default flatProgram .none (oneNumber 0 128) [numbersField] 0 18
        false).1 = .noSpace := by
  refine ⟨by decide +kernel, by decide +kernel, fun f p h => ?_, by decide +kernel⟩
  obtain ⟨hf, rfl⟩ := visits_flat (by decide) h
  rw [List.mem_singleton.mp hf]
  exact ⟨fun _ _ _ => by decide, fun h => (nomatch h)⟩

end Enough

end SerializeJson
end Breadboard
