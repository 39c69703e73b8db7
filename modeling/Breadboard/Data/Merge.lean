import Breadboard.SerializeJson.Graft
import Mathlib.Data.List.TakeWhile

/-!
# bb_data - a snapshot overlaid with a body

What a body says about a snapshot: a scalar or string field takes the value of the first
member with its key, when that has the kind of the field and fits; an object merges member
by member; an array is replaced by its leading convertible elements; everything else stays.
The scatter of a body does this on the bodies whose values the getters carry over exactly.

Main results:

- Theorem `graftFields_eq_overlay`: the scatter of an exact body is its overlay.
-/

namespace Breadboard
namespace Data

open Foundations Serialize SerializeJson
open Foundations.JsonText (Json Members Event LaxNumber field? elemsEvents membersEvents
  mem_events_member mem_events_elem)

/-! ## The overlay -/

section Overlay

variable (P : Program) (lib : Libc)

/-- The value of an integer; a number with a fraction or an exponent is none. -/
def intOf (text : Bytes) : Option Int :=
  if text.contains 46 || text.contains 101 || text.contains 69 then none
  else
    match text with
    | 45 :: digits => some (-(Decimal.value digits : Nat))
    | digits => some (Decimal.value digits : Nat)

/-- A string in a buffer, with a terminator when there is room. -/
def cString (cap : Nat) (s : Bytes) : Bytes :=
  if s.length < cap then s ++ [0] else s

/-- The bytes of an integer from `low` on and below `high`. -/
def intBytes (low high : Int) (text : Bytes) : Option Bytes :=
  (intOf text).bind fun v =>
    if low ≤ v ∧ v < high then some (leBytes 8 (BitVec.ofInt 64 v).toNat) else none

/-- A value as the bytes of a scalar or a string, when it has that kind and fits. -/
def valueBytes (type : Ty) (cap : Nat) (j : Json) : Option Bytes :=
  match type, j with
  | .i64, .num text => intBytes (-2 ^ 63) (2 ^ 63) text
  | .u64, .num text => intBytes 0 (2 ^ 64) text
  | .f64, .num text => some (leBytes 8 (lib.strtod text).toBits.toBitVec.toNat)
  | .bool, .bool v => some [if v then 1 else 0]
  | .str, .str s => if s.length ≤ cap then some (cString cap s) else none
  | _, _ => none

/-- The size of a scalar in an array. -/
def scalarSize : Ty → Nat
  | .bool => 1
  | _ => 8

/-- The leading values that a step takes: how many, and what they make of the memory. -/
def leading (step : Nat → Json → Mem → Option Mem) : List Json → Nat → Mem → Nat × Mem
  | [], k, m => (k, m)
  | j :: js, k, m =>
    match step k j m with
    | none => (k, m)
    | some m => leading step js (k + 1) m

example (step : Nat → Json → Mem → Option Mem) (m : Mem) : leading step [] 0 m = (0, m) := by
  rw [leading]

/-- One element of an array, when it converts. -/
def overlayElem (overlay : Members → Nat → Mem → Mem) (f : Field) (items k : Nat) (j : Json)
    (m : Mem) : Option Mem :=
  match f.elemType with
  | .obj =>
    match j with
    | .obj members => some (overlay members (items + k * f.elemSize) m)
    | _ => none
  | .str =>
    (valueBytes lib .str f.maxLen j).map
      (storeBytes m (load m (items + k * P.wordBytes) P.wordBytes))
  | type => (valueBytes lib type 0 j).map (storeBytes m (items + k * scalarSize type))

/-- An array: its leading elements, and their number in the carrier. -/
def overlayArr (overlay : List Field → Members → Nat → Mem → Mem) (f : Field) (p : Nat)
    (elems : List Json) (m : Mem) : Mem :=
  let items := load m p P.wordBytes
  let r := leading (overlayElem P lib (overlay (P.tables f.children)) f items)
    (elems.take f.maxItems) 0 m
  storeBytes r.2 p (leBytes P.wordBytes items ++ leBytes P.wordBytes r.1)

/-- One field: what the first member with its key says about it. -/
def overlayField (nested : Option (List Field → Members → Nat → Mem → Mem)) (dst : Nat)
    (members : Members) (m : Mem) (f : Field) : Mem :=
  match nested, f.type, field? f.key members with
  | some overlay, .obj, some (.obj members') =>
    overlay (P.tables f.children) members' (dst + f.offset) m
  | some overlay, .arr, some (.arr elems) => overlayArr P lib overlay f (dst + f.offset) elems m
  | _, type, found => storeOpt m (dst + f.offset) (found.bind (valueBytes lib type f.maxLen))

/-- A snapshot overlaid with the members of a body, to a number of levels below the first. -/
def overlayFields : Nat → List Field → Members → Nat → Mem → Mem
  | 0, fields, members, dst, m => fields.foldl (overlayField P lib none dst members) m
  | n + 1, fields, members, dst, m =>
    fields.foldl (overlayField P lib (some (overlayFields n)) dst members) m

end Overlay

/-! ## What the getters carry over exactly -/

section Exact

variable (P : Program) (lib : Libc)

/-- A string that fits, over a buffer that ends where the string does. -/
def ExactStr (cap : Nat) (s : Bytes) (p : Nat) (m : Mem) : Prop :=
  s.length ≤ cap ∧ (s.length < cap → m (p + s.length) = 0)

/-- An integer a signed parse gives the right bytes for, or a string that is exact. -/
def ExactValue (type : Ty) (cap p : Nat) (j : Json) (m : Mem) : Prop :=
  match type, j with
  | .i64, .num text => ∀ v, intOf text = some v → -2 ^ 63 ≤ v ∧ v < 2 ^ 63
  | .u64, .num text => ∀ v, intOf text = some v → 0 ≤ v ∧ v < 2 ^ 63
  | .str, .str s => ExactStr cap s p m
  | _, _ => True

/-- One element: there is a buffer for a string, and no scalar is asked for. -/
def ExactElem (exact : Members → Nat → Mem → Prop) (f : Field) (items k : Nat) (j : Json)
    (m : Mem) : Prop :=
  match f.elemType with
  | .obj =>
    match j with
    | .obj members => exact members (items + k * f.elemSize) m
    | _ => True
  | .str =>
    match j with
    | .str s =>
      load m (items + k * P.wordBytes) P.wordBytes ≠ 0 ∧
        ExactStr f.maxLen s (load m (items + k * P.wordBytes) P.wordBytes) m
    | _ => True
  | type => (∀ s, j ≠ .str s) ∧ valueBytes lib type 0 j = none

example {f : Field} (h : f.elemType = .obj) (exact : Members → Nat → Mem → Prop) (m : Mem) :
    ExactElem P lib exact f 0 0 .null m ∧ overlayElem P lib (fun _ _ m => m) f 0 0 .null m = none := by
  simp [ExactElem, overlayElem, h]

/-- Each of the leading elements is exact in the memory it meets. -/
def ExactLeading (exact : Nat → Json → Mem → Prop) (step : Nat → Json → Mem → Option Mem) :
    List Json → Nat → Mem → Prop
  | [], _, _ => True
  | j :: js, k, m => exact k j m ∧
    match step k j m with
    | none => True
    | some m => ExactLeading exact step js (k + 1) m

/-- An array that has a place for its elements, or no element that converts. -/
def ExactArr (exact : List Field → Members → Nat → Mem → Prop)
    (overlay : List Field → Members → Nat → Mem → Mem) (f : Field) (p : Nat) (elems : List Json)
    (m : Mem) : Prop :=
  let items := load m p P.wordBytes
  let step := overlayElem P lib (overlay (P.tables f.children)) f items
  if items = 0 then ∀ j, (elems.take f.maxItems).head? = some j → step 0 j m = none
  else
    ExactLeading (ExactElem P lib (exact (P.tables f.children)) f items) step
      (elems.take f.maxItems) 0 m

/-- What the first member with a field's key says about it is exact. -/
def ExactField (nested : Option ((List Field → Members → Nat → Mem → Prop) ×
      (List Field → Members → Nat → Mem → Mem))) (dst : Nat) (members : Members) (m : Mem)
    (f : Field) : Prop :=
  match nested, f.type, field? f.key members with
  | some nested, .obj, some (.obj members') =>
    nested.1 (P.tables f.children) members' (dst + f.offset) m
  | some nested, .arr, some (.arr elems) =>
    ExactArr P lib nested.1 nested.2 f (dst + f.offset) elems m
  | _, type, some j => ExactValue type f.maxLen (dst + f.offset) j m
  | _, _, none => True

/-- Each field is exact in the memory it meets. -/
def ExactEach (exact : Mem → Field → Prop) (step : Mem → Field → Mem) : List Field → Mem → Prop
  | [], _ => True
  | f :: fields, m => exact m f ∧ ExactEach exact step fields (step m f)

/-- The members of a body are exact for a snapshot. -/
def ExactFields : Nat → List Field → Members → Nat → Mem → Prop
  | 0, fields, members, dst, m =>
    ExactEach (ExactField P lib none dst members) (overlayField P lib none dst members) fields m
  | n + 1, fields, members, dst, m =>
    ExactEach (ExactField P lib (some (ExactFields n, overlayFields P lib n)) dst members)
      (overlayField P lib (some (overlayFields P lib n)) dst members) fields m

end Exact

/-! ## The scatter of an exact body -/

/-- The numbers among the events are numbers of the grammar, in full. -/
def Legible (cfg : Kconfig) (evs : List Event) : Prop :=
  ∀ key n, Event.num key n ∈ evs → LaxNumber n ∧ n.length ≤ cfg.scratchMaxBytes

section Scatter

variable {P : Program} {lib : Libc} {cfg : Kconfig}

/-- A number with a value is a sign and digits. -/
theorem digits_of_intOf {text : Bytes} (htext : LaxNumber text) {v : Int}
    (hv : intOf text = some v) : ∃ sign digits, text = sign ++ digits ∧ (sign = [] ∨ sign = [45]) ∧
      JsonText.Digits digits := by
  obtain ⟨sign, int, frac, exp, rfl, hsign, hint, hfrac, hexp⟩ := htext
  unfold intOf at hv
  split at hv
  · cases hv
  rename_i hplain
  simp only [List.contains_eq_mem, Bool.or_eq_true, decide_eq_true_eq, List.mem_append, not_or]
    at hplain
  have hnofrac : frac = [] := by
    rcases hfrac with rfl | ⟨d, rfl, -⟩
    · rfl
    · simp at hplain
  have hnoexp : exp = [] := by
    rcases hexp with rfl | ⟨e, esign, d, rfl, he, -⟩
    · rfl
    · rcases he with rfl | rfl <;> simp at hplain
  subst hnofrac
  subst hnoexp
  exact ⟨sign, int, by simp, hsign, hint⟩

/-- What `strtoll` makes of an integer in the range of its result. -/
theorem strtoll_of_intOf {text : Bytes} (htext : LaxNumber text) {v : Int} (hv : intOf text = some v)
    (hlow : -2 ^ 63 ≤ v) (hhigh : v < 2 ^ 63) : strtoll text = v := by
  obtain ⟨sign, digits, rfl, hsign, hne, hdigits⟩ := digits_of_intOf htext hv
  have hall : digits.takeWhile Decimal.isDigit = digits :=
    List.takeWhile_eq_self_iff.mpr hdigits
  unfold intOf at hv
  rw [if_neg (fun hinexact => by rw [if_pos hinexact] at hv; cases hv)] at hv
  rcases hsign with rfl | rfl
  · unfold strtoll
    cases digits with
    | nil => exact absurd rfl hne
    | cons d digits =>
      have hd : Decimal.isDigit d = true := hdigits d List.mem_cons_self
      have hminus : d ≠ 45 := by
        rintro rfl
        simp [Decimal.isDigit] at hd
      have hplus : d ≠ 43 := by
        rintro rfl
        simp [Decimal.isDigit] at hd
      rw [List.nil_append] at hv ⊢
      dsimp only
      split at hv
      · rename_i heq
        exact absurd (List.cons.inj heq).1 hminus
      cases hv
      split
      · rename_i heq
        exact absurd (List.cons.inj heq).1 hminus
      · rename_i heq
        exact absurd (List.cons.inj heq).1 hplus
      · rw [hall, if_neg (by omega), if_neg (by omega)]
  · rw [List.singleton_append] at hv ⊢
    cases hv
    have hvalue : strtoll (45 :: digits) =
        if -(Decimal.value (digits.takeWhile Decimal.isDigit) : Int) < -2 ^ 63 then -2 ^ 63
        else if 2 ^ 63 - 1 < -(Decimal.value (digits.takeWhile Decimal.isDigit) : Int) then 2 ^ 63 - 1
        else -(Decimal.value (digits.takeWhile Decimal.isDigit) : Int) := rfl
    rw [hvalue, hall, if_neg (by omega), if_neg (by omega)]

/-- A signed parse gives the bytes of an integer in its range. -/
theorem i64Of_intBytes {text : Bytes} (htext : LaxNumber text)
    (hlength : text.length ≤ cfg.scratchMaxBytes) {low high : Int}
    (hrange : ∀ v, intOf text = some v → (-2 ^ 63 ≤ v ∧ v < 2 ^ 63) ∧ low ≤ v ∧ v < high) :
    ((i64Of cfg (.num text)).map fun v => leBytes 8 v.toNat) = intBytes low high text := by
  unfold i64Of tokNumInexact intBytes
  dsimp only
  rw [List.take_of_length_le hlength]
  cases hv : intOf text with
  | none =>
    rw [if_pos]
    · rfl
    · unfold intOf at hv
      split at hv
      · assumption
      · split at hv <;> cases hv
  | some v =>
    obtain ⟨hfits, hbounds⟩ := hrange v hv
    rw [if_neg, strtoll_of_intOf htext hv hfits.1 hfits.2, Option.bind_some, if_pos hbounds]
    · rfl
    · intro hinexact
      unfold intOf at hv
      rw [if_pos hinexact] at hv
      cases hv

/-- A shorter string over a buffer that ends there already. -/
theorem storeBytes_cString {cap p : Nat} {s : Bytes} {m : Mem} (h : ExactStr cap s p m) :
    storeBytes m p (s.take cap) = storeBytes m p (cString cap s) := by
  rw [List.take_of_length_le h.1]
  unfold cString
  split
  · rename_i hlt
    funext x
    unfold storeBytes
    rw [List.length_append, List.length_singleton]
    by_cases hx : p ≤ x ∧ x < p + s.length
    · rw [if_pos hx, if_pos (by omega), List.getD_append _ _ _ _ (by omega)]
    · rw [if_neg hx]
      by_cases hend : x = p + s.length
      · subst hend
        rw [if_pos (by omega), h.2 hlt, Nat.add_sub_cancel_left]
        simp
      · rw [if_neg (by omega)]
  · rfl

/-- A scalar or a string field that is exact. -/
theorem storeOpt_scalarBytes {f : Field} {j : Json} {own : Bytes} {p : Nat} {m : Mem}
    (hlegible : Legible cfg (j.events own)) (hexact : ExactValue f.type f.maxLen p j m) :
    storeOpt m p (scalarBytes lib cfg f j) = storeOpt m p (valueBytes lib f.type f.maxLen j) := by
  unfold scalarBytes
  cases htype : f.type <;> rw [htype] at hexact <;> cases j <;> try rfl
  case i64.num text =>
    obtain ⟨htext, hlength⟩ := hlegible own text (List.mem_singleton_self _)
    dsimp only
    rw [i64Of_intBytes htext hlength fun v hv => ⟨hexact v hv, hexact v hv⟩]
    rfl
  case u64.num text =>
    obtain ⟨htext, hlength⟩ := hlegible own text (List.mem_singleton_self _)
    have hrange : ∀ v, intOf text = some v → 0 ≤ v ∧ v < 2 ^ 63 := hexact
    dsimp only
    rw [@i64Of_intBytes cfg text htext hlength 0 (2 ^ 64) fun v hv => by
      have := hrange v hv
      omega]
    rfl
  case f64.num text =>
    obtain ⟨-, hlength⟩ := hlegible own text (List.mem_singleton_self _)
    unfold f64Of valueBytes
    dsimp only
    rw [List.take_of_length_le hlength]
    rfl
  case str.str s =>
    show storeOpt m p (some (s.take f.maxLen)) =
      storeOpt m p (if s.length ≤ f.maxLen then some (cString f.maxLen s) else none)
    rw [if_pos hexact.1]
    exact storeBytes_cString hexact

/-- What holds of the members of an object at a nested table. -/
def Carries (cfg : Kconfig) (graft overlay : Members → Nat → Mem → Mem)
    (exact : Members → Nat → Mem → Prop) : Prop :=
  ∀ members base m, Legible cfg (membersEvents members) → exact members base m →
    graft members base m = overlay members base m

theorem overlayElem_of_obj {overlay : Members → Nat → Mem → Mem} {f : Field}
    (helem : f.elemType = .obj) (items k : Nat) (j : Json) (m : Mem) :
    overlayElem P lib overlay f items k j m =
      match j with
      | .obj members => some (overlay members (items + k * f.elemSize) m)
      | _ => none := by
  unfold overlayElem
  rw [helem]

theorem overlayElem_of_str {overlay : Members → Nat → Mem → Mem} {f : Field}
    (helem : f.elemType = .str) (items k : Nat) (j : Json) (m : Mem) :
    overlayElem P lib overlay f items k j m = (valueBytes lib .str f.maxLen j).map
      (storeBytes m (load m (items + k * P.wordBytes) P.wordBytes)) := by
  unfold overlayElem
  rw [helem]

/-- The leading objects of an array. -/
theorem graftObjs_eq {graft overlay : Members → Nat → Mem → Mem}
    {exact : Members → Nat → Mem → Prop} (hcarries : Carries cfg graft overlay exact) {f : Field}
    (helem : f.elemType = .obj) {items : Nat} {js : List Json} {k : Nat} {m : Mem}
    (hlegible : ∀ j ∈ js, Legible cfg (j.events []))
    (hexact : ExactLeading (ExactElem P lib exact f items) (overlayElem P lib overlay f items)
      js k m) :
    graftObjs graft f items js k m = leading (overlayElem P lib overlay f items) js k m := by
  induction js generalizing k m with
  | nil => rfl
  | cons j js ih =>
    obtain ⟨hfirst, hrest⟩ := hexact
    rw [leading]
    unfold ExactElem at hfirst
    rw [helem] at hfirst
    rw [overlayElem_of_obj helem] at hrest ⊢
    cases j with
    | obj members =>
      have hmembers : Legible cfg (membersEvents members) := fun key n hn =>
        hlegible _ List.mem_cons_self key n (List.mem_cons_of_mem _ hn)
      rw [graftObjs, hcarries members _ m hmembers hfirst]
      exact ih (fun j hj => hlegible j (List.mem_cons_of_mem _ hj)) hrest
    | _ => rfl

/-- The leading strings of an array of strings. -/
theorem graftStrs_eq {overlay : Members → Nat → Mem → Mem} {exact : Members → Nat → Mem → Prop}
    {f : Field} (helem : f.elemType = .str) {items : Nat} {js : List Json} {k : Nat} {m : Mem}
    (hexact : ExactLeading (ExactElem P lib exact f items) (overlayElem P lib overlay f items)
      js k m) :
    graftStrs P f items js k m = leading (overlayElem P lib overlay f items) js k m := by
  induction js generalizing k m with
  | nil => rfl
  | cons j js ih =>
    obtain ⟨hfirst, hrest⟩ := hexact
    rw [leading]
    unfold ExactElem at hfirst
    rw [helem] at hfirst
    rw [overlayElem_of_str helem] at hrest ⊢
    cases j with
    | str s =>
      have hbytes : valueBytes lib .str f.maxLen (.str s) = some (cString f.maxLen s) :=
        if_pos hfirst.2.1
      rw [hbytes] at hrest ⊢
      rw [graftStrs, storeBytes_cString hfirst.2]
      exact ih hrest
    | _ => rfl

/-- In an array of scalars nothing converts, to either. -/
theorem graftStrs_eq_of_scalar {overlay : Members → Nat → Mem → Mem}
    {exact : Members → Nat → Mem → Prop} {f : Field} (hobj : f.elemType ≠ .obj)
    (hstr : f.elemType ≠ .str) {items : Nat} {js : List Json} {k : Nat} {m : Mem}
    (hexact : ExactLeading (ExactElem P lib exact f items) (overlayElem P lib overlay f items)
      js k m) :
    graftStrs P f items js k m = leading (overlayElem P lib overlay f items) js k m := by
  cases js with
  | nil => rfl
  | cons j js =>
    have hfirst : (∀ s, j ≠ .str s) ∧ valueBytes lib f.elemType 0 j = none := by
      have hexact := hexact.1
      unfold ExactElem at hexact
      cases helem : f.elemType <;> rw [helem] at hexact <;> first
        | exact absurd helem hobj
        | exact absurd helem hstr
        | exact hexact
    have hstep : overlayElem P lib overlay f items k j m = none := by
      unfold overlayElem
      cases helem : f.elemType <;> rw [helem] at hfirst <;> first
        | exact absurd helem hobj
        | exact absurd helem hstr
        | exact congrArg (Option.map _) hfirst.2
    rw [leading, hstep]
    cases j with
    | str s => exact absurd rfl (hfirst.1 s)
    | _ => rfl

/-- An array that is exact. -/
theorem graftArr_eq {graft overlay : List Field → Members → Nat → Mem → Mem}
    {exact : List Field → Members → Nat → Mem → Prop} {f : Field}
    (hcarries : Carries cfg (graft (P.tables f.children)) (overlay (P.tables f.children))
      (exact (P.tables f.children))) {p : Nat} {elems : List Json} {m : Mem}
    (hlegible : ∀ j ∈ elems, Legible cfg (j.events []))
    (hexact : ExactArr P lib exact overlay f p elems m) :
    graftArr P graft f p elems m = overlayArr P lib overlay f p elems m := by
  unfold graftArr overlayArr
  unfold ExactArr at hexact
  dsimp only at hexact ⊢
  have hleading : ∀ j ∈ elems.take f.maxItems, Legible cfg (j.events []) :=
    fun j hj => hlegible j (List.mem_of_mem_take hj)
  by_cases hnull : load m p P.wordBytes = 0
  · rw [if_pos hnull] at hexact ⊢
    have hnone : leading (overlayElem P lib (overlay (P.tables f.children)) f
        (load m p P.wordBytes)) (elems.take f.maxItems) 0 m = (0, m) := by
      cases htake : elems.take f.maxItems with
      | nil => rfl
      | cons j js =>
        rw [leading, hexact j (by rw [htake]; rfl)]
    rw [hnone]
  rw [if_neg hnull] at hexact ⊢
  by_cases hobj : f.elemType = .obj
  · rw [if_pos hobj, graftObjs_eq hcarries hobj hleading hexact]
  rw [if_neg hobj]
  by_cases hstr : f.elemType = .str
  · rw [graftStrs_eq hstr hexact]
  · rw [graftStrs_eq_of_scalar hobj hstr hexact]

/-- A level of nested tables: what the scatter and the overlay do there, and when it is exact. -/
structure Level where
  graft : List Field → Members → Nat → Mem → Mem
  exact : List Field → Members → Nat → Mem → Prop
  overlay : List Field → Members → Nat → Mem → Mem

/-- A field that is exact. -/
theorem graftField_eq {level : Option Level}
    (hcarries : ∀ l, level = some l → ∀ fields,
      Carries cfg (l.graft fields) (l.overlay fields) (l.exact fields))
    {dst : Nat} {members : Members} {m : Mem} {f : Field}
    (hlegible : Legible cfg (membersEvents members))
    (hexact : ExactField P lib (level.map fun l => (l.exact, l.overlay)) dst members m f) :
    graftField P lib cfg (level.map Level.graft) dst members m f =
      overlayField P lib (level.map Level.overlay) dst members m f := by
  unfold graftField overlayField
  unfold ExactField at hexact
  cases hfound : field? f.key members with
  | none => cases level <;> cases f.type <;> rfl
  | some j =>
    rw [hfound] at hexact
    have hmember : Legible cfg (j.events f.key) := fun key n hn =>
      hlegible key n (mem_events_member hfound hn)
    have hvalue (h : ExactValue f.type f.maxLen (dst + f.offset) j m) :
        storeOpt m (dst + f.offset) ((some j).bind (scalarBytes lib cfg f)) =
          storeOpt m (dst + f.offset) ((some j).bind (valueBytes lib f.type f.maxLen)) :=
      storeOpt_scalarBytes hmember h
    cases level with
    | none => exact hvalue hexact
    | some l =>
      cases htype : f.type <;> rw [htype] at hexact hvalue <;> try exact hvalue hexact
      case obj =>
        cases j with
        | obj members' =>
          have hinner : Legible cfg (membersEvents members') := fun key n hn =>
            hmember key n (List.mem_cons_of_mem _ hn)
          exact hcarries l rfl _ members' _ m hinner hexact
        | _ => exact hvalue hexact
      case arr =>
        cases j with
        | arr elems =>
          have helems : ∀ j ∈ elems, Legible cfg (j.events []) := fun j hj key n hn =>
            hmember key n (List.mem_cons_of_mem _ (mem_events_elem hj hn))
          exact graftArr_eq (hcarries l rfl _) helems hexact
        | _ => exact hvalue hexact

/-- Fields after one another, each exact in the memory it meets. -/
theorem foldl_eq_of_exactEach {graft overlay : Mem → Field → Mem} {exact : Mem → Field → Prop}
    {fields : List Field} (hstep : ∀ m f, exact m f → graft m f = overlay m f) {m : Mem}
    (hexact : ExactEach exact overlay fields m) : fields.foldl graft m = fields.foldl overlay m := by
  induction fields generalizing m with
  | nil => rfl
  | cons f fields ih =>
    rw [List.foldl_cons, List.foldl_cons, hstep m f hexact.1]
    exact ih hexact.2

/-- The scatter of an exact body is its overlay. -/
theorem graftFields_eq_overlay (n : Nat) (fields : List Field) :
    Carries cfg (graftFields P lib cfg n fields) (overlayFields P lib n fields)
      (ExactFields P lib n fields) := by
  induction n generalizing fields with
  | zero =>
    intro members base m hlegible hexact
    refine foldl_eq_of_exactEach (fun m f hf => ?_) hexact
    exact @graftField_eq P lib cfg none nofun base members m f hlegible hf
  | succ n ih =>
    intro members base m hlegible hexact
    refine foldl_eq_of_exactEach (fun m f hf => ?_) hexact
    refine @graftField_eq P lib cfg (some ⟨graftFields P lib cfg n, ExactFields P lib n,
      overlayFields P lib n⟩) (fun l hl => ?_) base members m f hlegible hf
    cases hl
    exact ih

end Scatter

end Data
end Breadboard
