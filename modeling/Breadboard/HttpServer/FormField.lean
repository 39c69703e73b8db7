import Breadboard.Core.Basics
import Breadboard.Foundations.FirstMatch
import Breadboard.Foundations.JsonText
import Breadboard.Reboot.Codec
import Mathlib.Data.List.TakeWhile

/-!
# bb_url_decode_field

One field of an URL-encoded body is found by searching the whole body for the name
and its equals sign, and then decoded up to the next ampersand.  The search does not
know where fields begin, so it also stops at a longer name with the same end and inside
a value.

Main results:

- Theorem `urlDecodeField_eq`: what is found in a form, field by field.
- Theorem `decodesAsClaimed_iff`: the names that are decoded as the contract says.
-/

namespace Breadboard
namespace HttpServer

open Foundations Foundations.JsonText

/-! ## The code -/

/-- The value of hexadecimal digits up to the first byte that is none. -/
def hexValue (v : Nat) : Bytes → Nat
  | [] => v
  | b :: s =>
    match hexDigit? b with
    | some d => hexValue (v * 16 + d) s
    | none => v

/-- `strtoul(s, NULL, 16)` for a text too short to overflow: blanks, a sign, `0x`, digits. -/
def strtoul16 (s : Bytes) : Nat :=
  let signed := Reboot.scanSign (s.dropWhile Reboot.isSpace)
  let digits :=
    match signed.2 with
    | 48 :: x :: d :: rest =>
      if (x = 120 ∨ x = 88) ∧ (hexDigit? d).isSome then d :: rest else signed.2
    | _ => signed.2
  let v := hexValue 0 digits
  if signed.1 then (2 ^ 64 - v) % 2 ^ 64 else v

/-- The decoding loop over the bytes up to `end`, with `room` left in the buffer. -/
def decodeLoop : Nat → Bytes → Bytes
  | 0, _ => []
  | _ + 1, [] => []
  | room + 1, b :: s =>
    if b = 43 then 32 :: decodeLoop room s
    else if b = 37 then
      match s with
      | hi :: lo :: s' => UInt8.ofNat (strtoul16 [hi, lo]) :: decodeLoop room s'
      | _ => b :: decodeLoop room s
    else b :: decodeLoop room s

/-- `bb_url_decode_field`: the string in the buffer of `outSize` bytes after it. -/
def urlDecodeField (body field : Bytes) (outSize : Nat) : Bytes :=
  -- the key is built in a buffer of 64 bytes
  let key := (field ++ [61]).take 63
  match firstMatch key body with
  | none => []
  | some found =>
    let start := found.drop key.length
    decodeLoop (outSize - 1) (start.takeWhile (· ≠ 38))

/-! ## Forms -/

/-- A byte that needs no escape: not NUL, a blank or one of `% & + =`. -/
def needsNoEscape (b : UInt8) : Bool :=
  b ∉ ([0, 32, 37, 38, 43, 61] : Bytes)

/-- A field name: at most 62 bytes that need no escape. -/
structure FieldName where
  bytes : Bytes
  plain : ∀ b ∈ bytes, needsNoEscape b = true
  short : bytes.length ≤ 62

/--
A text is an encoding of a value without NUL: every byte stands for itself, unless it is one of
`% & +`, or is written as a percent triple, and a blank may be a plus.
-/
inductive Encodes : Bytes → Bytes → Prop where
  | nil : Encodes [] []
  | plain {b : UInt8} {text value : Bytes} (hb : b ∉ ([0, 37, 38, 43] : Bytes))
      (h : Encodes text value) : Encodes (b :: text) (b :: value)
  | plus {text value : Bytes} (h : Encodes text value) : Encodes (43 :: text) (32 :: value)
  | percent {hi lo b : UInt8} {x y : Nat} {text value : Bytes} (hhi : hexDigit? hi = some x)
      (hlo : hexDigit? lo = some y) (hb : b.toNat = x * 16 + y) (hnul : b ≠ 0)
      (h : Encodes text value) : Encodes (37 :: hi :: lo :: text) (b :: value)

/-- A field of a form, with the encoding chosen for its value. -/
structure Field where
  name : FieldName
  value : Bytes
  text : Bytes
  encodes : Encodes text value

/-- The fields joined into a body. -/
def formBody : List Field → Bytes
  | [] => []
  | [f] => f.name.bytes ++ 61 :: f.text
  | f :: rest => f.name.bytes ++ 61 :: (f.text ++ 38 :: formBody rest)

/-- What the contract says of a form and a name, for every size of the buffer. -/
structure DecodesAsClaimed (fields : List Field) (name : FieldName) : Prop where
  /-- The name of a field gives the field's value, cut to the buffer. -/
  listed : ∀ f ∈ fields, f.name = name → ∀ outSize, 1 ≤ outSize →
    urlDecodeField (formBody fields) name.bytes outSize = f.value.take (outSize - 1)
  /-- Another name gives nothing. -/
  unlisted : (∀ f ∈ fields, f.name ≠ name) → ∀ outSize, 1 ≤ outSize →
    urlDecodeField (formBody fields) name.bytes outSize = []

/-! ## Decoding -/

section

variable {text value : Bytes}

/-- The hexadecimal digits as numbers. -/
theorem hexDigit?_range {b : UInt8} {x : Nat} (h : hexDigit? b = some x) :
    (48 ≤ b.toNat ∧ b.toNat ≤ 57 ∧ x = b.toNat - 48) ∨
      (97 ≤ b.toNat ∧ b.toNat ≤ 102 ∧ x = b.toNat - 87) ∨
      (65 ≤ b.toNat ∧ b.toNat ≤ 70 ∧ x = b.toNat - 55) := by
  unfold hexDigit? at h
  split at h
  · rename_i hrange
    injection h with h
    exact Or.inl ⟨UInt8.le_iff_toNat_le.mp hrange.1, UInt8.le_iff_toNat_le.mp hrange.2, h.symm⟩
  · split at h
    · rename_i hrange
      injection h with h
      exact Or.inr (Or.inl
        ⟨UInt8.le_iff_toNat_le.mp hrange.1, UInt8.le_iff_toNat_le.mp hrange.2, h.symm⟩)
    · split at h
      · rename_i hrange
        injection h with h
        exact Or.inr (Or.inr
          ⟨UInt8.le_iff_toNat_le.mp hrange.1, UInt8.le_iff_toNat_le.mp hrange.2, h.symm⟩)
      · cases h

/-- A byte up to the colon is no hexadecimal digit, if it is no decimal one. -/
theorem ne_of_hexDigit?_low {b c : UInt8} {x : Nat} (h : hexDigit? b = some x)
    (hlow : c.toNat < 48 ∨ 57 < c.toNat ∧ c.toNat < 65) : b ≠ c := by
  intro heq
  subst heq
  rcases hexDigit?_range h with hrange | hrange | hrange <;> omega

/-- A percent triple is read as the byte it stands for. -/
theorem strtoul16_pair {hi lo : UInt8} {x y : Nat} (hhi : hexDigit? hi = some x)
    (hlo : hexDigit? lo = some y) : strtoul16 [hi, lo] = x * 16 + y := by
  have hspace : Reboot.isSpace hi = false := by
    have hblank : hi ≠ 32 := ne_of_hexDigit?_low hhi (Or.inl (by decide))
    have hrange := hexDigit?_range hhi
    simp only [Reboot.isSpace, hblank, false_or, decide_eq_false_iff_not]
    omega
  have hplus : hi ≠ 43 := ne_of_hexDigit?_low hhi (Or.inl (by decide))
  have hminus : hi ≠ 45 := ne_of_hexDigit?_low hhi (Or.inl (by decide))
  have hsigned : Reboot.scanSign ([hi, lo].dropWhile Reboot.isSpace) = (false, [hi, lo]) := by
    rw [List.dropWhile_cons, if_neg (by rw [hspace]; exact Bool.false_ne_true), Reboot.scanSign,
      if_neg hplus, if_neg hminus]
  have hvalue : hexValue 0 [hi, lo] = x * 16 + y := by
    simp [hexValue, hhi, hlo]
  unfold strtoul16
  rw [hsigned]
  simp [hvalue]

theorem decodeLoop_cons (room : Nat) (b : UInt8) (s : Bytes) :
    decodeLoop (room + 1) (b :: s) =
      if b = 43 then 32 :: decodeLoop room s
      else if b = 37 then
        match s with
        | hi :: lo :: s' => UInt8.ofNat (strtoul16 [hi, lo]) :: decodeLoop room s'
        | _ => b :: decodeLoop room s
      else b :: decodeLoop room s := by
  rcases s with _ | ⟨hi, _ | ⟨lo, s⟩⟩ <;> rfl

/-- The decoding undoes every encoding, up to the room there is. -/
theorem decodeLoop_of_encodes (h : Encodes text value) (room : Nat) :
    decodeLoop room text = value.take room := by
  induction h generalizing room with
  | nil => cases room <;> rfl
  | @plain b text value hb _ ih =>
    cases room with
    | zero => rfl
    | succ room =>
      have hplus : b ≠ 43 := by
        intro heq
        exact hb (by rw [heq]; decide)
      have hpercent : b ≠ 37 := by
        intro heq
        exact hb (by rw [heq]; decide)
      rw [decodeLoop_cons, if_neg hplus, if_neg hpercent, ih, List.take_succ_cons]
  | plus _ ih =>
    cases room with
    | zero => rfl
    | succ room => rw [decodeLoop_cons, if_pos rfl, ih, List.take_succ_cons]
  | @percent hi lo b x y text value hhi hlo hb _ _ ih =>
    cases room with
    | zero => rfl
    | succ room =>
      have hbyte : UInt8.ofNat (strtoul16 [hi, lo]) = b := by
        rw [strtoul16_pair hhi hlo, ← hb, UInt8.ofNat_toNat]
      rw [decodeLoop_cons, if_neg (by decide), if_pos rfl]
      change UInt8.ofNat (strtoul16 [hi, lo]) :: decodeLoop room text = (b :: value).take (room + 1)
      rw [hbyte, ih, List.take_succ_cons]

/-- An encoding has no ampersand. -/
theorem not_mem_of_encodes (h : Encodes text value) : (38 : UInt8) ∉ text := by
  induction h with
  | nil => exact List.not_mem_nil
  | plain hb _ ih =>
    intro hmem
    rcases List.mem_cons.mp hmem with heq | hmem
    · exact hb (by rw [← heq]; decide)
    · exact ih hmem
  | plus _ ih =>
    intro hmem
    rcases List.mem_cons.mp hmem with heq | hmem
    · cases heq
    · exact ih hmem
  | percent hhi hlo _ _ _ ih =>
    intro hmem
    rcases List.mem_cons.mp hmem with heq | hmem
    · cases heq
    rcases List.mem_cons.mp hmem with heq | hmem
    · exact ne_of_hexDigit?_low hhi (Or.inl (by decide)) heq.symm
    rcases List.mem_cons.mp hmem with heq | hmem
    · exact ne_of_hexDigit?_low hlo (Or.inl (by decide)) heq.symm
    · exact ih hmem

/-- What follows an equals sign in an encoding is an encoding too. -/
theorem encodes_of_append (h : Encodes text value) {pre rest : Bytes}
    (happend : text = pre ++ 61 :: rest) : ∃ v, Encodes rest v := by
  induction h generalizing pre with
  | nil => simp at happend
  | @plain b text value hb h ih =>
    cases pre with
    | nil =>
      injection happend with _ htail
      exact ⟨value, htail ▸ h⟩
    | cons c pre =>
      injection happend with _ htail
      exact ih htail
  | plus _ ih =>
    cases pre with
    | nil => cases happend
    | cons c pre =>
      injection happend with _ htail
      exact ih htail
  | percent hhi hlo _ _ _ ih =>
    cases pre with
    | nil => cases happend
    | cons c pre =>
      injection happend with _ htail
      cases pre with
      | nil =>
        injection htail with hhead _
        exact absurd hhead (ne_of_hexDigit?_low hhi (Or.inr (by decide)))
      | cons c' pre =>
        injection htail with _ htail
        cases pre with
        | nil =>
          injection htail with hhead _
          exact absurd hhead (ne_of_hexDigit?_low hlo (Or.inr (by decide)))
        | cons c'' pre =>
          injection htail with _ htail
          exact ih htail

end

/-! ## Searching -/

/-- The key that is searched for. -/
def FieldName.key (name : FieldName) : Bytes :=
  name.bytes ++ [61]

section

variable {name : FieldName} {fields : List Field} {f : Field}

theorem FieldName.not_mem {b : UInt8} (name : FieldName) (hb : needsNoEscape b = false) :
    b ∉ name.bytes := by
  intro hmem
  rw [name.plain b hmem] at hb
  cases hb

theorem FieldName.key_ne_nil (name : FieldName) : name.key ≠ [] := by
  intro hnil
  exact absurd (List.append_eq_nil_iff.mp hnil).2 (List.cons_ne_nil _ _)

theorem FieldName.not_mem_key (name : FieldName) : (38 : UInt8) ∉ name.key := by
  intro hmem
  rcases List.mem_append.mp hmem with hmem | hmem
  · exact name.not_mem (by decide) hmem
  · cases List.mem_singleton.mp hmem

/-- What a field has behind the first occurrence of a key in it. -/
def behindKey (name : FieldName) (f : Field) : Option Bytes :=
  if name.bytes <:+ f.name.bytes then some f.text else afterFirst name.key f.text

/-- What the first field with an occurrence of a key has behind it. -/
def foundText (name : FieldName) (fields : List Field) : Option Bytes :=
  fields.findSome? (behindKey name)

/-- A field alone is searched up to its end. -/
theorem afterFirst_field (name : FieldName) (f : Field) :
    afterFirst name.key (f.name.bytes ++ 61 :: f.text) = behindKey name f :=
  afterFirst_terminated (name.not_mem (by decide)) (f.name.not_mem (by decide)) f.text

/-- What is behind the key in a field has no ampersand. -/
theorem not_mem_behindKey {w : Bytes} (h : behindKey name f = some w) : (38 : UInt8) ∉ w := by
  have htext := not_mem_of_encodes f.encodes
  unfold behindKey at h
  split at h
  · injection h with h
    rw [← h]
    exact htext
  · rcases append_of_afterFirst name.key_ne_nil h with ⟨pre, happend⟩
    intro hmem
    apply htext
    rw [happend]
    exact List.mem_append_right pre (List.mem_append_right name.key hmem)

/-- The bytes up to the next ampersand. -/
theorem takeWhile_of_not_mem {w : Bytes} (hw : (38 : UInt8) ∉ w) (rest : Bytes) :
    (w ++ 38 :: rest).takeWhile (· ≠ 38) = w ∧ w.takeWhile (· ≠ 38) = w := by
  have hall : ∀ b ∈ w, (decide (b ≠ 38)) = true := by
    intro b hb
    apply decide_eq_true
    intro heq
    exact hw (heq ▸ hb)
  constructor
  · rw [List.takeWhile_append_of_pos hall]
    simp
  · exact List.takeWhile_eq_self_iff.mpr hall

/-- The search in a form is the search field by field. -/
theorem afterFirst_formBody (name : FieldName) (fields : List Field) :
    (afterFirst name.key (formBody fields)).map (List.takeWhile (· ≠ 38)) =
      foundText name fields := by
  induction fields with
  | nil =>
    rw [formBody, afterFirst_nil name.key_ne_nil]
    rfl
  | cons f rest ih =>
    have hhere : ∀ tail : Bytes, (behindKey name f).map
        (fun w => (w ++ 38 :: tail).takeWhile (· ≠ 38)) = behindKey name f ∧
        (behindKey name f).map (List.takeWhile (· ≠ 38)) = behindKey name f := by
      intro tail
      cases hbehind : behindKey name f with
      | none => exact ⟨rfl, rfl⟩
      | some w =>
        have hw := takeWhile_of_not_mem (not_mem_behindKey hbehind) tail
        exact ⟨congrArg some hw.1, congrArg some hw.2⟩
    cases rest with
    | nil =>
      rw [formBody, afterFirst_field, (hhere []).2, foundText, List.findSome?_cons]
      cases behindKey name f <;> rfl
    | cons g rest =>
      have hsplit : formBody (f :: g :: rest) =
          (f.name.bytes ++ 61 :: f.text) ++ 38 :: formBody (g :: rest) := by
        rw [formBody, List.append_assoc, List.cons_append]
        exact List.cons_ne_nil _ _
      rw [hsplit, afterFirst_separated name.key_ne_nil name.not_mem_key, afterFirst_field,
        foundText, List.findSome?_cons]
      cases hbehind : behindKey name f with
      | none =>
        rw [Option.map_none, Option.none_or, ih]
        rfl
      | some w =>
        have hw := takeWhile_of_not_mem (not_mem_behindKey hbehind) (formBody (g :: rest))
        exact congrArg some hw.1

/-- What is found in a form is decoded. -/
theorem urlDecodeField_eq (fields : List Field) (name : FieldName) (outSize : Nat) :
    urlDecodeField (formBody fields) name.bytes outSize =
      ((foundText name fields).map (decodeLoop (outSize - 1))).getD [] := by
  have hkey : (name.bytes ++ [61]).take 63 = name.key := by
    apply List.take_of_length_le
    have hshort := name.short
    rw [List.length_append, List.length_singleton]
    omega
  rw [← afterFirst_formBody]
  unfold urlDecodeField afterFirst
  rw [hkey]
  dsimp only
  cases firstMatch name.key (formBody fields) with
  | none => rfl
  | some found => rfl

/-! ## The contract -/

/--
The first field with an occurrence of the name and its equals sign has `v` behind it: its whole
value if its own name ends in the name, and else what its value has behind.
-/
inductive FirstFound (name : FieldName) : List Field → Bytes → Prop where
  | ending {f : Field} {rest : List Field} (hname : name.bytes <:+ f.name.bytes) :
      FirstFound name (f :: rest) f.value
  | inside {f : Field} {rest : List Field} {w v : Bytes} (hname : ¬ name.bytes <:+ f.name.bytes)
      (htext : afterFirst name.key f.text = some w) (hv : Encodes w v) :
      FirstFound name (f :: rest) v
  | later {f : Field} {rest : List Field} {v : Bytes} (hname : ¬ name.bytes <:+ f.name.bytes)
      (htext : afterFirst name.key f.text = none) (h : FirstFound name rest v) :
      FirstFound name (f :: rest) v

/-- A text encodes at most one value. -/
theorem encodes_unique {text v v' : Bytes} (h : Encodes text v) (h' : Encodes text v') :
    v = v' := by
  have hcut : ∀ room, v.take room = v'.take room := by
    intro room
    rw [← decodeLoop_of_encodes h, ← decodeLoop_of_encodes h']
  have hall := hcut (max v.length v'.length)
  rw [List.take_of_length_le (Nat.le_max_left ..), List.take_of_length_le (Nat.le_max_right ..)]
    at hall
  exact hall

/-- The search finds an encoding of what the first occurrence has behind it, if there is one. -/
theorem foundText_cases (name : FieldName) (fields : List Field) :
    (foundText name fields = none ∧ ∀ v, ¬ FirstFound name fields v) ∨
      ∃ w v, foundText name fields = some w ∧ Encodes w v ∧ FirstFound name fields v ∧
        ∀ v', FirstFound name fields v' → v' = v := by
  induction fields with
  | nil =>
    left
    refine ⟨rfl, ?_⟩
    intro v h
    cases h
  | cons f rest ih =>
    rw [foundText, List.findSome?_cons, behindKey]
    by_cases hname : name.bytes <:+ f.name.bytes
    · right
      rw [if_pos hname]
      refine ⟨f.text, f.value, rfl, f.encodes, .ending hname, ?_⟩
      intro v' h
      cases h with
      | ending _ => rfl
      | inside hnot _ _ => exact absurd hname hnot
      | later hnot _ _ => exact absurd hname hnot
    rw [if_neg hname]
    cases htext : afterFirst name.key f.text with
    | some w =>
      right
      rcases append_of_afterFirst name.key_ne_nil htext with ⟨pre, happend⟩
      have hsplit : f.text = (pre ++ name.bytes) ++ 61 :: w := by
        rw [happend, FieldName.key]
        simp only [List.append_assoc, List.singleton_append]
      rcases encodes_of_append f.encodes hsplit with ⟨v, hv⟩
      refine ⟨w, v, rfl, hv, .inside hname htext hv, ?_⟩
      intro v' h
      cases h with
      | ending hends => exact absurd hends hname
      | inside _ htext' hv' =>
        rw [htext] at htext'
        injection htext' with hw
        exact encodes_unique (hw ▸ hv') hv
      | later _ hnone _ =>
        rw [htext] at hnone
        cases hnone
    | none =>
      have hlater : ∀ v, FirstFound name (f :: rest) v ↔ FirstFound name rest v := by
        intro v
        constructor
        · intro h
          cases h with
          | ending hends => exact absurd hends hname
          | inside _ hsome _ =>
            rw [htext] at hsome
            cases hsome
          | later _ _ h => exact h
        · intro h
          exact .later hname htext h
      rcases ih with ⟨hnone, hnever⟩ | ⟨w, v, hfound, hv, hfirst, honly⟩
      · left
        exact ⟨hnone, fun v h => hnever v ((hlater v).mp h)⟩
      · right
        exact ⟨w, v, hfound, hv, (hlater v).mpr hfirst, fun v' h => honly v' ((hlater v').mp h)⟩

/-- The name of a field is found somewhere. -/
theorem foundText_ne_none (hf : f ∈ fields) : foundText f.name fields ≠ none := by
  intro hnone
  have hbehind := List.findSome?_eq_none_iff.mp hnone f hf
  rw [behindKey, if_pos (List.suffix_refl _)] at hbehind
  cases hbehind

/--
A name is decoded as the contract says exactly if what the first occurrence has behind it is the
name's own value, or nothing for a name that no field has.
-/
theorem decodesAsClaimed_iff (fields : List Field) (name : FieldName) :
    DecodesAsClaimed fields name ↔
      ∀ v, FirstFound name fields v →
        (∀ f ∈ fields, f.name = name → v = f.value) ∧ ((∀ f ∈ fields, f.name ≠ name) → v = []) := by
  have hresult : ∀ {w v : Bytes}, foundText name fields = some w → Encodes w v → ∀ outSize,
      urlDecodeField (formBody fields) name.bytes outSize = v.take (outSize - 1) := by
    intro w v hfound hv outSize
    rw [urlDecodeField_eq, hfound, ← decodeLoop_of_encodes hv]
    rfl
  rcases foundText_cases name fields with ⟨hnone, hnever⟩ | ⟨w, v, hfound, hv, hfirst, honly⟩
  · constructor
    · intro _ v hfirst
      exact absurd hfirst (hnever v)
    · intro _
      constructor
      · intro f hf hname
        subst hname
        exact absurd hnone (foundText_ne_none hf)
      · intro _ outSize _
        rw [urlDecodeField_eq, hnone]
        rfl
  · constructor
    · intro h v' hfirst'
      rw [honly v' hfirst']
      constructor
      · intro f hf hname
        have hcut := h.listed f hf hname (max v.length f.value.length + 1) (Nat.succ_pos _)
        rw [hresult hfound hv, Nat.add_sub_cancel, List.take_of_length_le (Nat.le_max_left ..),
          List.take_of_length_le (Nat.le_max_right ..)] at hcut
        exact hcut
      · intro hunlisted
        have hcut := h.unlisted hunlisted (v.length + 1) (Nat.succ_pos _)
        rw [hresult hfound hv, Nat.add_sub_cancel, List.take_length] at hcut
        exact hcut
    · intro h
      rcases h v hfirst with ⟨hlisted, hunlisted⟩
      constructor
      · intro f hf hname outSize _
        rw [hresult hfound hv, hlisted f hf hname]
      · intro hname outSize _
        rw [hresult hfound hv, hunlisted hname, List.take_nil]

end

/-- With `bssid=1&ssid=2`, the name `ssid` gives the value of `bssid`. -/
theorem longer_name_shadows :
    ∃ (bssid ssid : Field), bssid.name ≠ ssid.name ∧ ¬ DecodesAsClaimed [bssid, ssid] ssid.name := by
  let bssid : Field :=
    { name :=
        { bytes := [98, 115, 115, 105, 100]
          plain := List.all_eq_true.mp rfl
          short := by decide }
      value := [49]
      text := [49]
      encodes := .plain (by decide) .nil }
  let ssid : Field :=
    { name :=
        { bytes := [115, 115, 105, 100]
          plain := List.all_eq_true.mp rfl
          short := by decide }
      value := [50]
      text := [50]
      encodes := .plain (by decide) .nil }
  refine ⟨bssid, ssid, ?_, ?_⟩
  · intro heq
    exact absurd (congrArg FieldName.bytes heq) (by decide)
  · intro h
    have hvalue := h.listed ssid (List.mem_cons_of_mem _ List.mem_cons_self) rfl 64 (by decide)
    exact absurd hvalue (by decide)

end HttpServer
end Breadboard
