import Breadboard.Foundations.JsonOpen
import Breadboard.HttpServer.JsonObj
import Breadboard.SerializeJson.Balanced

/-!
# bb_http_server - what the calls on a JSON object mean

Calls that nest well, with keys in objects and none in arrays, have the text of a JSON object
between the braces of begin and end, and it means what the calls say: every key and string
is the one that was given.  Only a number can spoil it, one that `%g` prints by name.

Main results:

- Theorem `reads_textOf`: what well-nested calls still append closes what is open.
- Theorem `isText_objectText`: the text of all of them is that of an object.
-/

namespace Breadboard
namespace HttpServer
namespace JsonObj

open Foundations.JsonText
open SerializeJson (Libc i64ToDec i64ToDec_eq intText nullText)

/-! ## Strings -/

/-- What is appended for one byte reads back as that byte. -/
theorem stringBody_objEscape (c : UInt8) {s v rest : Bytes} (h : StringBody s v rest) :
    StringBody (objEscape c ++ s) (c :: v) rest := by
  unfold objEscape
  split
  · rename_i hc
    subst hc
    exact .short rfl h
  split
  · rename_i hc
    subst hc
    exact .short rfl h
  split
  · rename_i hc
    subst hc
    exact .short rfl h
  split
  · rename_i hc
    subst hc
    exact .short rfl h
  split
  · rename_i hc
    subst hc
    exact .short rfl h
  split
  · rename_i hc
    have hunit := SerializeJson.codeUnit?_control hc
    have hlt : c.toNat < 32 := hc
    have hread := StringBody.unit hunit (by unfold IsHigh; omega) (by unfold IsLow; omega) h
    rw [SerializeJson.utf8_control hc] at hread
    exact hread
  · rename_i hquote hslash _ _ _ hcontrol
    apply StringBody.plain _ h
    unfold isPlain
    exact decide_eq_true ⟨hquote, hslash, UInt8.not_lt.mp hcontrol⟩

/-- A string reads back as itself. -/
theorem stringBody_quoted (str rest : Bytes) :
    StringBody (str.flatMap objEscape ++ 34 :: rest) str rest := by
  induction str with
  | nil => exact .close rest
  | cons c str ih =>
    rw [List.flatMap_cons, List.append_assoc]
    exact stringBody_objEscape c ih

/-! ## Well-nested calls -/

/-- A call stands where it may: with a key in an object, without in an array. -/
def Placed (isArray : Bool) (below : List Bool) : Call → Prop
  | .setStr key _ => key.isNone = isArray
  | .setNum key _ => key.isNone = isArray
  | .setInt key _ => key.isNone = isArray
  | .setBool key _ => key.isNone = isArray
  | .setNull key => key.isNone = isArray
  | .setRaw key raw => key.isNone = isArray ∧ ∃ text evs, raw = some text ∧ IsText RfcNumber text evs
  | .setObjBegin key => key.isNone = isArray
  | .setObjEnd => isArray = false ∧ below ≠ []
  | .setArrBegin key => key.isNone = isArray
  | .setArrEnd => isArray = true ∧ below ≠ []

/-- The open containers after a call: of each, from the innermost, whether it is an array. -/
def containersAfter (containers : List Bool) : Call → List Bool
  | .setObjBegin _ => false :: containers
  | .setArrBegin _ => true :: containers
  | .setObjEnd => containers.tail
  | .setArrEnd => containers.tail
  | _ => containers

/-- Calls that close what is open, and open and close the rest, up to the root object. -/
def WellNested : List Bool → List Call → Prop
  | containers, [] => containers = [false]
  | [], _ :: _ => False
  | isArray :: below, c :: cs =>
    Placed isArray below c ∧ WellNested (containersAfter (isArray :: below) c) cs

section

variable (lib : Libc)

/-- What a call means; a number is what `%g` prints. -/
def CallMeans : Call → List Event → Prop
  | .setStr key none, evs => evs = [.null (key.getD [])]
  | .setStr key (some val), evs => evs = [.str (key.getD []) val]
  | .setNum key val, evs => evs = [.num (key.getD []) (lib.printG 6 val)]
  | .setInt key val, evs => evs = [.num (key.getD []) (intText val.toInt)]
  | .setBool key val, evs => evs = [.bool (key.getD []) val]
  | .setNull key, evs => evs = [.null (key.getD [])]
  | .setRaw key raw, evs =>
    ∃ whole, IsText RfcNumber (raw.getD []) whole ∧ evs = rekey (key.getD []) whole
  | .setObjBegin key, evs => evs = [.beginObj (key.getD [])]
  | .setObjEnd, evs => evs = [.endObj]
  | .setArrBegin key, evs => evs = [.beginArr (key.getD [])]
  | .setArrEnd, evs => evs = [.endArr]

/-- What calls mean, one after the other. -/
inductive Means : List Call → List Event → Prop where
  | nil : Means [] []
  | cons {c : Call} {cs : List Call} {own evs : List Event} (hown : CallMeans lib c own)
      (h : Means cs evs) : Means (c :: cs) (own ++ evs)

/-- The text of calls, from the commas that are needed. -/
def textOf : List Bool → List Call → Bytes
  | _, [] => []
  | commas, c :: cs => callText lib (commas.headD false) c ++ textOf (commasAfter commas c) cs

/-- The number has a number text. -/
def Finite (val : Float) : Prop :=
  val.isNaN = false ∧ val.isInf = false

/-- All numbers of the calls are finite. -/
def NumbersFinite (cs : List Call) : Prop :=
  ∀ key val, .setNum key val ∈ cs → Finite val

end

/-! ## Readings -/

section

variable {lib : Libc} {f : Frame} {fs : List Frame} {key : Option Bytes} {rest : Bytes}
  {evs : List Event}

/-- The comma and the key are those of the container. -/
theorem keyText_eq (hkey : key.isNone = f.isArray) :
    ∃ label, f.Labels (key.getD []) label ∧ keyText f.haveChild key = f.comma ++ label := by
  cases key with
  | none => exact ⟨[], .element hkey.symm, rfl⟩
  | some key =>
    refine ⟨34 :: (key.flatMap objEscape ++ [34] ++ [58]), .member hkey.symm ?_, rfl⟩
    intro rest
    rw [List.append_assoc]
    exact stringBody_quoted key rest

/-- A value of the calls in front of what is still to come. -/
theorem readsOpen_value (hkey : key.isNone = f.isArray) {v : Bytes} {own : List Event}
    (hvalue : Reads RfcNumber (.value (key.getD [])) (v ++ rest) own rest)
    (h : ReadsOpen RfcNumber (f.withChild :: fs) rest evs) :
    ReadsOpen RfcNumber (f :: fs) (keyText f.haveChild key ++ v ++ rest) (own ++ evs) := by
  rcases keyText_eq hkey with ⟨label, hlabel, htext⟩
  have hchild := @ReadsOpen.child RfcNumber f fs (key.getD []) label rest evs [] (v ++ rest) [] own
    hlabel (fun b hb => absurd hb List.not_mem_nil) hvalue
    (fun b hb => absurd hb List.not_mem_nil) h
  rw [htext, List.append_assoc, List.append_assoc]
  exact hchild

/-- A text that is spliced in, with the white space around it. -/
theorem readsOpen_raw (hkey : key.isNone = f.isArray) {text : Bytes} {whole : List Event}
    (htext : IsText RfcNumber text whole) (h : ReadsOpen RfcNumber (f.withChild :: fs) rest evs) :
    ReadsOpen RfcNumber (f :: fs) (keyText f.haveChild key ++ text ++ rest)
      (rekey (key.getD []) whole ++ evs) := by
  rcases keyText_eq hkey with ⟨label, hlabel, hlabelText⟩
  rcases htext with ⟨w, s, w', hsplit, hw, hreads, hw'⟩
  have hvalue := (hreads.append_right rest).rekey (key.getD [])
  have hchild := ReadsOpen.child hlabel hw hvalue hw' h
  rw [hlabelText, hsplit, List.append_assoc, List.append_assoc, List.append_assoc]
  exact hchild

theorem readsOpen_begin (hkey : key.isNone = f.isArray) (isArray : Bool)
    (h : ReadsOpen RfcNumber (⟨isArray, false⟩ :: f.withChild :: fs) rest evs) :
    ReadsOpen RfcNumber (f :: fs)
      (keyText f.haveChild key ++ [Frame.opening ⟨isArray, false⟩] ++ rest)
      (Frame.beginEvent ⟨isArray, false⟩ (key.getD []) :: evs) := by
  rcases keyText_eq hkey with ⟨label, hlabel, htext⟩
  rw [htext, List.append_assoc, List.append_assoc]
  exact ReadsOpen.opens hlabel rfl h

theorem intText_toInt (val : Int64) : i64ToDec 24 val.toInt = intText val.toInt := by
  apply i64ToDec_eq (by decide)
  have hlo := val.le_toInt
  have hhi := val.toInt_lt
  constructor
  · omega
  · omega

/-- What well-nested calls and the end still append closes what is open. -/
theorem reads_textOf (hlib : lib.PrintsRfcNumbers) {cs : List Call} {frames : List Frame}
    (hnested : WellNested (frames.map Frame.isArray) cs) (hmeans : Means lib cs evs)
    (hfinite : NumbersFinite cs) :
    ReadsOpen RfcNumber frames (textOf lib (frames.map Frame.haveChild) cs ++ [125])
      (evs ++ [.endObj]) := by
  induction cs generalizing frames evs with
  | nil =>
    cases hmeans
    cases frames with
    | nil => cases hnested
    | cons f fs =>
      rcases f with ⟨isArray, haveChild⟩
      have hroot : isArray :: fs.map Frame.isArray = [false] := hnested
      rw [List.cons.injEq, List.map_eq_nil_iff] at hroot
      rcases hroot with ⟨harray, hfs⟩
      subst harray hfs
      exact ReadsOpen.closes ⟨rfl, rfl⟩
  | cons c cs ih =>
    cases frames with
    | nil => exact absurd hnested id
    | cons f fs =>
      cases hmeans with
      | @cons _ _ own evs hown hmeans =>
      rcases hnested with ⟨hplaced, hnested⟩
      have hrest : NumbersFinite cs :=
        fun key val hmem => hfinite key val (List.mem_cons_of_mem c hmem)
      have hnext : ∀ frames' : List Frame,
          frames'.map Frame.isArray = containersAfter (f.isArray :: fs.map Frame.isArray) c →
          frames'.map Frame.haveChild = commasAfter (f.haveChild :: fs.map Frame.haveChild) c →
          ReadsOpen RfcNumber frames'
            (textOf lib (commasAfter (f.haveChild :: fs.map Frame.haveChild) c) cs ++ [125])
            (evs ++ [.endObj]) := by
        intro frames' harrays hcommas
        rw [← hcommas]
        apply ih _ hmeans hrest
        rw [harrays]
        exact hnested
      change ReadsOpen RfcNumber (f :: fs) (callText lib f.haveChild c ++ _ ++ [125]) _
      rw [List.append_assoc, List.append_assoc]
      cases c with
      | setStr key val =>
        have htail := hnext (f.withChild :: fs) rfl rfl
        cases val with
        | none =>
          rw [hown]
          exact readsOpen_value hplaced (.litNull _ _) htail
        | some val =>
          rw [hown]
          apply readsOpen_value hplaced _ htail
          rw [quoted, List.cons_append, List.append_assoc]
          exact .str (stringBody_quoted val _)
      | setNum key val =>
        rw [hown]
        have hval := hfinite key val List.mem_cons_self
        exact readsOpen_value hplaced (.num _ (hlib 6 val hval.1 hval.2))
          (hnext (f.withChild :: fs) rfl rfl)
      | setInt key val =>
        rw [hown]
        apply readsOpen_value hplaced _ (hnext (f.withChild :: fs) rfl rfl)
        rw [intText_toInt]
        exact .num _ (SerializeJson.rfcNumber_intText _)
      | setBool key val =>
        rw [hown]
        apply readsOpen_value hplaced _ (hnext (f.withChild :: fs) rfl rfl)
        cases val with
        | true => exact .litTrue _ _
        | false => exact .litFalse _ _
      | setNull key =>
        rw [hown]
        exact readsOpen_value hplaced (.litNull _ _) (hnext (f.withChild :: fs) rfl rfl)
      | setRaw key raw =>
        rcases hown with ⟨whole, htext, hown⟩
        rw [hown]
        exact readsOpen_raw hplaced.1 htext (hnext (f.withChild :: fs) rfl rfl)
      | setObjBegin key =>
        rw [hown]
        exact readsOpen_begin hplaced false (hnext (⟨false, false⟩ :: f.withChild :: fs) rfl rfl)
      | setArrBegin key =>
        rw [hown]
        exact readsOpen_begin hplaced true (hnext (⟨true, false⟩ :: f.withChild :: fs) rfl rfl)
      | setObjEnd =>
        rw [hown]
        rcases f with ⟨isArray, haveChild⟩
        have hobject : isArray = false := hplaced.1
        subst hobject
        exact ReadsOpen.closes (hnext fs rfl rfl)
      | setArrEnd =>
        rw [hown]
        rcases f with ⟨isArray, haveChild⟩
        have harray : isArray = true := hplaced.1
        subst harray
        exact ReadsOpen.closes (hnext fs rfl rfl)

/-- The text of well-nested calls between the braces of begin and end. -/
def objectText (lib : Libc) (cs : List Call) : Bytes :=
  123 :: (textOf lib [false] cs ++ [125])

theorem isText_objectText (hlib : lib.PrintsRfcNumbers) {cs : List Call}
    (hnested : WellNested [false] cs) (hmeans : Means lib cs evs) (hfinite : NumbersFinite cs) :
    IsText RfcNumber (objectText lib cs) (.beginObj [] :: (evs ++ [.endObj])) := by
  apply ReadsOpen.isText
  exact @reads_textOf lib evs hlib cs [⟨false, false⟩] hnested hmeans hfinite

/-- Well-nested calls mean something. -/
theorem exists_means (lib : Libc) {containers : List Bool} {cs : List Call}
    (h : WellNested containers cs) : ∃ evs, Means lib cs evs := by
  induction cs generalizing containers with
  | nil => exact ⟨[], .nil⟩
  | cons c cs ih =>
    cases containers with
    | nil => exact absurd h id
    | cons isArray below =>
      rcases h with ⟨hplaced, hrest⟩
      rcases ih hrest with ⟨evs, hmeans⟩
      have hcall : ∃ own, CallMeans lib c own := by
        cases c with
        | setRaw key raw =>
          rcases hplaced.2 with ⟨text, whole, hraw, htext⟩
          subst hraw
          exact ⟨_, whole, htext, rfl⟩
        | setStr key val =>
          cases val with
          | none => exact ⟨_, rfl⟩
          | some val => exact ⟨_, rfl⟩
        | _ => exact ⟨_, rfl⟩
      rcases hcall with ⟨own, hown⟩
      exact ⟨own ++ evs, .cons hown hmeans⟩

/-- Every number of the calls is in what they mean. -/
theorem Means.num_mem {cs : List Call} (h : Means lib cs evs) {key : Option Bytes} {val : Float}
    (hmem : .setNum key val ∈ cs) : Event.num (key.getD []) (lib.printG 6 val) ∈ evs := by
  induction h with
  | nil => cases hmem
  | @cons c cs own evs hown _ ih =>
    rcases List.mem_cons.mp hmem with hfirst | hrest
    · subst hfirst
      rw [hown]
      exact List.mem_append_left _ List.mem_cons_self
    · exact List.mem_append_right own (ih hrest)

end

end JsonObj
end HttpServer
end Breadboard
