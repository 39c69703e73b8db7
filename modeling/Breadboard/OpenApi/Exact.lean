import Breadboard.OpenApi.Validate

/-!
# bb_openapi - what the validator decides

A validation reaches a subschema together with each part of the value that it is about.  The
value satisfies the schema when no keyword is broken at any place reached.  Some ways to break a
keyword are overlooked: a required name that is there in another case only, members beside
`additionalProperties: false` where there is no object of properties, a list of types, and
the schema `false`.

Main results:

- Theorem `validateNode_none_iff`: the walk answers for what it looks at.
- Theorem `validate_exact_iff`: it answers for the schema just when nothing is overlooked, or
  something else is broken.
-/

namespace Breadboard
namespace OpenApi

open Foundations.JsonValue

section Meaning

variable {ν : Type}

/-! ## The meaning of the keywords -/

/-- The names of types. -/
def Known (t : Bytes) : Prop :=
  t ∈ [tString, tInteger, tNumber, tBoolean, tNull, tObject, tArray]

/-- The values of a type; any number is an integer. -/
def Fits (t : Bytes) : Json ν → Prop
  | .str _ => t = tString
  | .num _ => t = tInteger ∨ t = tNumber
  | .bool _ => t = tBoolean
  | .null => t = tNull
  | .obj _ => t = tObject
  | .arr _ => t = tArray

/-- The value is not of the type that is named. -/
def TypeBroken (s v : Json ν) : Prop :=
  ∃ t, Has s kType (.str t) ∧ Known t ∧ ¬ Fits t v

/-- The value is of none of the types that are listed. -/
def TypesBroken (s v : Json ν) : Prop :=
  ∃ ts, Has s kType (.arr ts) ∧ ts ≠ [] ∧ ∀ x ∈ ts, ∃ t, x = .str t ∧ Known t ∧ ¬ Fits t v

/-- The value is none of those that are listed. -/
def EnumBroken [DecidableEq ν] (s v : Json ν) : Prop :=
  ∃ entries, Has s kEnum (.arr entries) ∧ ∀ entry ∈ entries, same v entry = false

/-- A required name is missing, by this notion of two names being the same. -/
def RequiredBroken (eqv : Bytes → Bytes → Prop) (s v : Json ν) : Prop :=
  ∃ keys key members, Has s kRequired (.arr keys) ∧ .str key ∈ keys ∧ v = .obj members ∧
    ∀ m ∈ members, ¬ eqv m.1 key

/-- A member has a name that is not among the properties. -/
def AdditionalBroken (s v : Json ν) : Prop :=
  Has s kAdditional (.bool false) ∧ ∃ members, v = .obj members ∧ ∃ m ∈ members,
    ∀ props, Has s kProperties (.obj props) → ∀ p ∈ props, p.1 ≠ m.1

/-- A keyword is broken, or the schema is false. -/
def Breaks [DecidableEq ν] (s v : Json ν) : Prop :=
  TypeBroken s v ∨ TypesBroken s v ∨ EnumBroken s v ∨ RequiredBroken (· = ·) s v ∨
    AdditionalBroken s v ∨ s = .bool false

/-- The places that a schema and a value lead to. -/
inductive Reaches : Json ν → Json ν → Json ν → Json ν → Prop where
  | here (s v : Json ν) : Reaches s v s v
  | property {s v s' v' s'' v'' : Json ν} {props : List (Bytes × Json ν)} {key : Bytes}
      (hprops : Has s kProperties (.obj props)) (hkey : (key, s') ∈ props) (hvalue : Has v key v')
      (h : Reaches s' v' s'' v'') : Reaches s v s'' v''
  | item {s e s' s'' v'' : Json ν} {elems : List (Json ν)} (hitems : Has s kItems s')
      (helem : e ∈ elems) (h : Reaches s' e s'' v'') : Reaches s (.arr elems) s'' v''

/-- The value satisfies the schema. -/
def Satisfies [DecidableEq ν] (s v : Json ν) : Prop :=
  ∀ s' v', Reaches s v s' v' → ¬ Breaks s' v'

/-! ## What is looked at -/

/-- A keyword is broken in a way that is looked at. -/
def Seen [DecidableEq ν] (s v : Json ν) : Prop :=
  TypeBroken s v ∨ EnumBroken s v ∨ RequiredBroken SameUpToCase s v ∨
    (AdditionalBroken s v ∧ ∃ props, Has s kProperties (.obj props))

/-- A keyword is broken in a way that is not looked at. -/
def Overlooked (s v : Json ν) : Prop :=
  (∃ keys key members, Has s kRequired (.arr keys) ∧ .str key ∈ keys ∧ v = .obj members ∧
      (∀ m ∈ members, m.1 ≠ key) ∧ ∃ m ∈ members, SameUpToCase m.1 key) ∨
    (AdditionalBroken s v ∧ ¬ ∃ props, Has s kProperties (.obj props)) ∨
    TypesBroken s v ∨ s = .bool false

variable [DecidableEq ν] {s v : Json ν}

theorem breaks_of_seen (h : Seen s v) : Breaks s v := by
  obtain htype | henum | hrequired | hadditional := h
  · exact Or.inl htype
  · exact Or.inr (Or.inr (Or.inl henum))
  · obtain ⟨keys, key, members, hkeys, hkey, hv, hmissing⟩ := hrequired
    have hexact : ∀ m ∈ members, ¬ m.1 = key := by
      rintro m hm rfl
      exact hmissing m hm rfl
    exact Or.inr (Or.inr (Or.inr (Or.inl ⟨keys, key, members, hkeys, hkey, hv, hexact⟩)))
  · exact Or.inr (Or.inr (Or.inr (Or.inr (Or.inl hadditional.1))))

/-- What is broken is looked at or overlooked. -/
theorem breaks_iff : Breaks s v ↔ Seen s v ∨ Overlooked s v := by
  constructor
  · rintro (htype | htypes | henum | hrequired | hadditional | hfalse)
    · exact Or.inl (Or.inl htype)
    · exact Or.inr (Or.inr (Or.inr (Or.inl htypes)))
    · exact Or.inl (Or.inr (Or.inl henum))
    · obtain ⟨keys, key, members, hkeys, hkey, hv, hmissing⟩ := hrequired
      by_cases hother : ∃ m ∈ members, SameUpToCase m.1 key
      · exact Or.inr (Or.inl ⟨keys, key, members, hkeys, hkey, hv, hmissing, hother⟩)
      · have hnone : ∀ m ∈ members, ¬ SameUpToCase m.1 key := fun m hm h => hother ⟨m, hm, h⟩
        exact Or.inl (Or.inr (Or.inr (Or.inl ⟨keys, key, members, hkeys, hkey, hv, hnone⟩)))
    · by_cases hprops : ∃ props, Has s kProperties (.obj props)
      · exact Or.inl (Or.inr (Or.inr (Or.inr ⟨hadditional, hprops⟩)))
      · exact Or.inr (Or.inr (Or.inl ⟨hadditional, hprops⟩))
    · exact Or.inr (Or.inr (Or.inr (Or.inr hfalse)))
  · rintro (hseen | ⟨keys, key, members, hkeys, hkey, hv, hmissing, _⟩ | hadditional | htypes |
      hfalse)
    · exact breaks_of_seen hseen
    · exact Or.inr (Or.inr (Or.inr (Or.inl ⟨keys, key, members, hkeys, hkey, hv, hmissing⟩)))
    · exact Or.inr (Or.inr (Or.inr (Or.inr (Or.inl hadditional.1))))
    · exact Or.inr (Or.inl htypes)
    · exact Or.inr (Or.inr (Or.inr (Or.inr (Or.inr hfalse))))

omit [DecidableEq ν] in
/-- What holds wherever one gets holds here and wherever one gets from the parts. -/
theorem forall_reaches_iff {P : Json ν → Json ν → Prop} :
    (∀ s' v', Reaches s v s' v' → P s' v') ↔ P s v ∧
      (∀ props key s' v', Has s kProperties (.obj props) → (key, s') ∈ props → Has v key v' →
        ∀ s'' v'', Reaches s' v' s'' v'' → P s'' v'') ∧
      (∀ s' elems e, Has s kItems s' → v = .arr elems → e ∈ elems →
        ∀ s'' v'', Reaches s' e s'' v'' → P s'' v'') := by
  constructor
  · intro h
    refine ⟨h s v (.here s v), fun props key s' v' hprops hkey hv s'' v'' hr => ?_,
      fun s' elems e hitems hv he s'' v'' hr => ?_⟩
    · exact h s'' v'' (.property hprops hkey hv hr)
    · subst hv
      exact h s'' v'' (.item hitems he hr)
  · rintro ⟨hhere, hproperties, hitems⟩ s' v' hr
    cases hr with
    | here => exact hhere
    | property hprops hkey hvalue h => exact hproperties _ _ _ _ hprops hkey hvalue _ _ h
    | item hitem helem h => exact hitems _ _ _ hitem rfl helem _ _ h

omit [DecidableEq ν] in
/-- A type that is checked. -/
theorem valueMatchesType_iff (t : Bytes) : valueMatchesType v t = true ↔ (Known t → Fits t v) := by
  by_cases hknown : Known t
  · have hcases := hknown
    simp only [Known, List.mem_cons, List.not_mem_nil, or_false] at hcases
    obtain rfl | rfl | rfl | rfl | rfl | rfl | rfl := hcases
    · cases v <;> simp [valueMatchesType, Known, Fits] <;> decide
    · cases v <;> simp [valueMatchesType, Known, Fits] <;> decide
    · cases v <;> simp [valueMatchesType, Known, Fits] <;> decide
    · cases v <;> simp [valueMatchesType, Known, Fits] <;> decide
    · cases v <;> simp [valueMatchesType, Known, Fits] <;> decide
    · cases v <;> simp [valueMatchesType, Known, Fits] <;> decide
    · cases v <;> simp [valueMatchesType, Known, Fits] <;> decide
  · have hne := hknown
    simp only [Known, List.mem_cons, List.not_mem_nil, or_false, not_or] at hne
    obtain ⟨h1, h2, h3, h4, h5, h6, h7⟩ := hne
    simp [valueMatchesType, h1, h2, h3, h4, h5, h6, h7, hknown]

end Meaning

/-! ## The checks -/

section Checks

variable {ν : Type} [DecidableEq ν] {lib : CJson ν} (hlib : lib.Documented)
  {schema value : Json ν} {ps : PathStack}

include hlib

theorem checkType_none_iff (hs : Distinct schema) :
    checkType lib schema value ps = none ↔ ¬ TypeBroken schema value := by
  rw [checkType]
  cases hget : lib.getObjectItemCaseSensitive schema kType with
  | none =>
      refine iff_of_true rfl ?_
      rintro ⟨t, hhas, _⟩
      rw [(hlib.get schema kType _ hs).mpr hhas] at hget
      cases hget
  | some x =>
      have hx := (hlib.get schema kType x hs).mp hget
      cases x with
      | str t =>
          have hbroken : TypeBroken schema value ↔ ¬ valueMatchesType value t = true := by
            rw [valueMatchesType_iff]
            constructor
            · rintro ⟨t', hhas, hknown, hfits⟩ h
              cases Has.unique hs hx hhas
              exact hfits (h hknown)
            · intro h
              rw [Classical.not_imp] at h
              exact ⟨t, hx, h.1, h.2⟩
          rw [hbroken, not_not]
          dsimp only
          split
          · exact iff_of_true rfl ‹_›
          · exact iff_of_false nofun ‹_›
      | null | bool _ | num _ | arr _ | obj _ =>
          refine iff_of_true rfl ?_
          rintro ⟨t, hhas, _⟩
          cases Has.unique hs hx hhas

theorem checkEnum_none_iff (hs : Distinct schema) (hv : Distinct value) :
    checkEnum lib schema value ps = none ↔ ¬ EnumBroken schema value := by
  rw [checkEnum]
  cases hget : lib.getObjectItemCaseSensitive schema kEnum with
  | none =>
      refine iff_of_true rfl ?_
      rintro ⟨entries, hhas, _⟩
      rw [(hlib.get schema kEnum _ hs).mpr hhas] at hget
      cases hget
  | some x =>
      have hx := (hlib.get schema kEnum x hs).mp hget
      cases x with
      | arr entries =>
          have hcompare : ∀ entry ∈ entries, lib.compare value entry = same value entry :=
            fun entry hentry => hlib.compare value entry hv ((hs.member hx).elem hentry)
          have hbroken : EnumBroken schema value ↔
              ¬ (entries.any fun entry => lib.compare value entry) = true := by
            rw [List.any_eq_true, not_exists]
            constructor
            · rintro ⟨entries', hhas, hnone⟩ entry ⟨hentry, hsame⟩
              cases Has.unique hs hx hhas
              rw [hcompare entry hentry, hnone entry hentry] at hsame
              cases hsame
            · intro h
              refine ⟨entries, hx, fun entry hentry => ?_⟩
              rw [← hcompare entry hentry]
              exact Bool.eq_false_iff.mpr fun hsame => h entry ⟨hentry, hsame⟩
          rw [hbroken, not_not]
          dsimp only
          split
          · exact iff_of_true rfl ‹_›
          · exact iff_of_false nofun ‹_›
      | null | bool _ | num _ | str _ | obj _ =>
          refine iff_of_true rfl ?_
          rintro ⟨entries, hhas, _⟩
          cases Has.unique hs hx hhas

theorem requiredLoop_none_iff {members : List (Bytes × Json ν)} (hv : Distinct (.obj members))
    (keys : List (Json ν)) :
    requiredLoop lib (.obj members) ps keys = none ↔
      ∀ key, .str key ∈ keys → ∃ m ∈ members, SameUpToCase m.1 key := by
  have hhas (key : Bytes) : lib.hasObjectItem (.obj members) key = true ↔
      ∃ m ∈ members, SameUpToCase m.1 key := by
    rw [hlib.has _ _ hv]
    constructor
    · rintro ⟨name, x, ⟨ms, heq, hmem⟩, hsame⟩
      cases heq
      exact ⟨(name, x), hmem, hsame⟩
    · rintro ⟨m, hmem, hsame⟩
      exact ⟨m.1, m.2, ⟨members, rfl, hmem⟩, hsame⟩
  induction keys with
  | nil => simp [requiredLoop]
  | cons x keys ih =>
      cases x with
      | str key =>
          rw [requiredLoop]
          by_cases hkey : lib.hasObjectItem (.obj members) key = true
          · rw [if_pos hkey]
            refine ih.trans ⟨?_, ?_⟩
            · intro h key' hkey'
              obtain heq | hmem := List.mem_cons.mp hkey'
              · cases heq
                exact (hhas key).mp hkey
              · exact h key' hmem
            · intro h key' hkey'
              exact h key' (List.mem_cons_of_mem _ hkey')
          · rw [if_neg hkey]
            refine iff_of_false nofun fun h => hkey ((hhas key).mpr (h key List.mem_cons_self))
      | null | bool _ | num _ | arr _ | obj _ =>
          refine ih.trans ⟨?_, ?_⟩
          · intro h key hkey
            obtain heq | hmem := List.mem_cons.mp hkey
            · cases heq
            · exact h key hmem
          · intro h key hkey
            exact h key (List.mem_cons_of_mem _ hkey)

theorem checkRequired_none_iff (hs : Distinct schema) (hv : Distinct value) :
    checkRequired lib schema value ps = none ↔ ¬ RequiredBroken SameUpToCase schema value := by
  unfold checkRequired
  cases hget : lib.getObjectItemCaseSensitive schema kRequired with
  | none =>
      refine iff_of_true rfl ?_
      rintro ⟨keys, key, members, hhas, _⟩
      rw [(hlib.get schema kRequired _ hs).mpr hhas] at hget
      cases hget
  | some x =>
      have hx := (hlib.get schema kRequired x hs).mp hget
      cases x with
      | arr keys =>
          cases value with
          | obj members =>
              dsimp only
              rw [requiredLoop_none_iff hlib hv]
              constructor
              · rintro h ⟨keys', key, members', hhas, hkey, heq, hmissing⟩
                cases heq
                cases Has.unique hs hx hhas
                obtain ⟨m, hm, hsame⟩ := h key hkey
                exact hmissing m hm hsame
              · intro h key hkey
                by_contra hnone
                exact h ⟨keys, key, members, hx, hkey, rfl, fun m hm hsame => hnone ⟨m, hm, hsame⟩⟩
          | null | bool _ | num _ | str _ | arr _ =>
              refine iff_of_true rfl ?_
              rintro ⟨keys', key, members, _, _, heq, _⟩
              cases heq
      | null | bool _ | num _ | str _ | obj _ =>
          refine iff_of_true rfl ?_
          rintro ⟨keys, key, members, hhas, _⟩
          cases Has.unique hs hx hhas

theorem rejectExtra_iff (hs : Distinct schema) :
    rejectExtra lib schema = true ↔ Has schema kAdditional (.bool false) := by
  rw [← hlib.get schema kAdditional _ hs]
  unfold rejectExtra
  cases hget : lib.getObjectItemCaseSensitive schema kAdditional with
  | none => simp
  | some x =>
      cases x with
      | bool b => cases b <;> simp
      | null | num _ | str _ | arr _ | obj _ => simp

theorem extraLoop_none_iff {props : List (Bytes × Json ν)} (hprops : Distinct (.obj props))
    (members : List (Bytes × Json ν)) :
    extraLoop lib (.obj props) ps members = none ↔
      ∀ m ∈ members, ∃ p ∈ props, p.1 = m.1 := by
  have hget (key : Bytes) : lib.getObjectItemCaseSensitive (.obj props) key = none ↔
      ¬ ∃ p ∈ props, p.1 = key := by
    rw [Option.eq_none_iff_forall_ne_some, not_exists]
    constructor
    · rintro h p ⟨hmem, rfl⟩
      exact h p.2 ((hlib.get _ _ _ hprops).mpr ⟨props, rfl, hmem⟩)
    · intro h x hx
      obtain ⟨ms, heq, hmem⟩ := (hlib.get _ _ _ hprops).mp hx
      cases heq
      exact h (key, x) ⟨hmem, rfl⟩
  induction members with
  | nil => simp [extraLoop]
  | cons m members ih =>
      obtain ⟨key, x⟩ := m
      rw [List.forall_mem_cons, extraLoop]
      cases hkey : lib.getObjectItemCaseSensitive (.obj props) key with
      | none => exact iff_of_false nofun fun h => (hget key).mp hkey h.1
      | some y =>
          have hin : ∃ p ∈ props, p.1 = key := by
            by_contra hno
            rw [(hget key).mpr hno] at hkey
            cases hkey
          exact ih.trans ⟨fun h => ⟨hin, h⟩, And.right⟩

/-- The declared properties that the value has are all validated. -/
theorem propertiesLoop_none_iff {node : Node ν} (hv : Distinct value)
    {P : Json ν → Json ν → Prop} (props : List (Bytes × Json ν))
    (hnode : ∀ p ∈ props, ∀ v', Has value p.1 v' → ∀ ps, (node p.2 v' ps).1 = none ↔ P p.2 v')
    (ps : PathStack) :
    (propertiesLoop lib node value props ps).1 = none ↔
      ∀ key s' v', (key, s') ∈ props → Has value key v' → P s' v' := by
  induction props generalizing ps with
  | nil => simp [propertiesLoop]
  | cons p props ih =>
      obtain ⟨key, s'⟩ := p
      have hrest := ih fun q hq => hnode q (List.mem_cons_of_mem _ hq)
      rw [propertiesLoop]
      cases hget : lib.getObjectItemCaseSensitive value key with
      | none =>
          refine (hrest ps).trans ⟨?_, ?_⟩
          · intro h key' s'' v' hmem hhas
            obtain heq | hmem := List.mem_cons.mp hmem
            · cases heq
              rw [(hlib.get value key v' hv).mpr hhas] at hget
              cases hget
            · exact h key' s'' v' hmem hhas
          · intro h key' s'' v' hmem hhas
            exact h key' s'' v' (List.mem_cons_of_mem _ hmem) hhas
      | some v' =>
          have hhas := (hlib.get value key v' hv).mp hget
          have hhere := hnode (key, s') List.mem_cons_self v' hhas (ps.push key)
          dsimp only at hhere ⊢
          generalize node s' v' (ps.push key) = res at hhere ⊢
          obtain ⟨err, ps'⟩ := res
          cases err with
          | some err =>
              refine iff_of_false nofun fun h => ?_
              exact absurd (hhere.mpr (h key s' v' List.mem_cons_self hhas)) nofun
          | none =>
              have hp : P s' v' := hhere.mp rfl
              refine (hrest _).trans ⟨?_, ?_⟩
              · intro h key' s'' v'' hmem hhas'
                obtain heq | hmem := List.mem_cons.mp hmem
                · cases heq
                  rw [← Has.unique hv hhas hhas']
                  exact hp
                · exact h key' s'' v'' hmem hhas'
              · intro h key' s'' v'' hmem hhas'
                exact h key' s'' v'' (List.mem_cons_of_mem _ hmem) hhas'

omit [DecidableEq ν] hlib in
/-- The elements of an array are all validated. -/
theorem itemsLoop_none_iff {node : Node ν} {s' : Json ν} {P : Json ν → Prop}
    (elems : List (Json ν)) (hnode : ∀ e ∈ elems, ∀ ps, (node s' e ps).1 = none ↔ P e)
    (idx : Nat) (ps : PathStack) :
    (itemsLoop node s' idx elems ps).1 = none ↔ ∀ e ∈ elems, P e := by
  induction elems generalizing idx ps with
  | nil => simp [itemsLoop]
  | cons e elems ih =>
      have hhere := hnode e List.mem_cons_self (ps.pushIndex idx)
      rw [itemsLoop, List.forall_mem_cons]
      generalize node s' e (ps.pushIndex idx) = res at hhere ⊢
      obtain ⟨err, ps'⟩ := res
      cases err with
      | some err => exact iff_of_false nofun fun h => absurd (hhere.mpr h.1) nofun
      | none =>
          have hp : P e := hhere.mp rfl
          exact (ih (fun x hx => hnode x (List.mem_cons_of_mem _ hx)) _ _).trans
            ⟨fun h => ⟨hp, h⟩, And.right⟩

/-- The members of an object are checked against the properties, and validated. -/
theorem checkProperties_none_iff {node : Node ν} (hs : Distinct schema) (hv : Distinct value)
    {P : Json ν → Json ν → Prop}
    (hnode : ∀ props, Has schema kProperties (.obj props) → ∀ p ∈ props, ∀ v', Has value p.1 v' →
      ∀ ps, (node p.2 v' ps).1 = none ↔ P p.2 v') :
    (checkProperties lib node schema value ps).1 = none ↔
      ¬ (AdditionalBroken schema value ∧ ∃ props, Has schema kProperties (.obj props)) ∧
        ∀ props key s' v', Has schema kProperties (.obj props) → (key, s') ∈ props →
          Has value key v' → P s' v' := by
  unfold checkProperties
  have hnothing (hno : ¬ ∃ props, Has schema kProperties (.obj props)) :
      ¬ (AdditionalBroken schema value ∧ ∃ props, Has schema kProperties (.obj props)) ∧
        ∀ props key s' v', Has schema kProperties (.obj props) → (key, s') ∈ props →
          Has value key v' → P s' v' :=
    ⟨fun h => hno h.2, fun props _ _ _ hprops => absurd ⟨props, hprops⟩ hno⟩
  cases hget : lib.getObjectItemCaseSensitive schema kProperties with
  | none =>
      refine iff_of_true rfl (hnothing ?_)
      rintro ⟨props, hhas⟩
      rw [(hlib.get schema kProperties _ hs).mpr hhas] at hget
      cases hget
  | some x =>
      have hx := (hlib.get schema kProperties x hs).mp hget
      cases x with
      | obj props =>
          have honly {props'} (h : Has schema kProperties (.obj props')) : props' = props := by
            cases Has.unique hs hx h
            rfl
          cases value with
          | obj members =>
              have hadditional : AdditionalBroken schema (.obj members) ↔
                  rejectExtra lib schema = true ∧ ¬ extraLoop lib (.obj props) ps members = none := by
                rw [rejectExtra_iff hlib hs, extraLoop_none_iff hlib (hs.member hx)]
                constructor
                · rintro ⟨hfalse, members', heq, m, hm, hextra⟩
                  cases heq
                  refine ⟨hfalse, fun h => ?_⟩
                  obtain ⟨p, hp, hname⟩ := h m hm
                  exact hextra props hx p hp hname
                · rintro ⟨hfalse, hextra⟩
                  simp only [not_forall, not_exists, not_and] at hextra
                  obtain ⟨m, hm, hextra⟩ := hextra
                  refine ⟨hfalse, members, rfl, m, hm, fun props' hprops' p hp => ?_⟩
                  rw [honly hprops'] at hp
                  exact hextra p hp
              have hloop := propertiesLoop_none_iff hlib hv props (hnode props hx) ps
              dsimp only
              cases hextra : if rejectExtra lib schema = true then
                  extraLoop lib (.obj props) ps members else none with
              | some err =>
                  refine iff_of_false nofun fun h => h.1 ⟨hadditional.mpr ?_, props, hx⟩
                  by_cases hreject : rejectExtra lib schema = true
                  · rw [if_pos hreject] at hextra
                    exact ⟨hreject, by simp [hextra]⟩
                  · rw [if_neg hreject] at hextra
                    cases hextra
              | none =>
                  refine hloop.trans ⟨fun h => ⟨fun hbroken => ?_, ?_⟩, fun h => ?_⟩
                  · obtain ⟨hreject, hno⟩ := hadditional.mp hbroken.1
                    rw [if_pos hreject] at hextra
                    exact hno hextra
                  · intro props' key s' v' hprops' hmem hhas
                    rw [honly hprops'] at hmem
                    exact h key s' v' hmem hhas
                  · intro key s' v' hmem hhas
                    exact h.2 props key s' v' hx hmem hhas
          | null | bool _ | num _ | str _ | arr _ =>
              refine iff_of_true rfl ⟨?_, ?_⟩
              · rintro ⟨⟨_, members, heq, _⟩, _⟩
                cases heq
              · rintro _ _ _ _ _ _ ⟨ms, heq, _⟩
                cases heq
      | null | bool _ | num _ | str _ | arr _ =>
          refine iff_of_true rfl (hnothing ?_)
          rintro ⟨props, hhas⟩
          cases Has.unique hs hx hhas

theorem checkItems_none_iff {node : Node ν} (hs : Distinct schema) {P : Json ν → Json ν → Prop}
    (hnode : ∀ s', Has schema kItems s' → ∀ elems, value = .arr elems → ∀ e ∈ elems, ∀ ps,
      (node s' e ps).1 = none ↔ P s' e) :
    (checkItems lib node schema value ps).1 = none ↔
      ∀ s' elems e, Has schema kItems s' → value = .arr elems → e ∈ elems → P s' e := by
  unfold checkItems
  cases hget : lib.getObjectItemCaseSensitive schema kItems with
  | none =>
      refine iff_of_true rfl fun s' elems e hhas => ?_
      rw [(hlib.get schema kItems _ hs).mpr hhas] at hget
      cases hget
  | some s' =>
      have hx := (hlib.get schema kItems s' hs).mp hget
      cases value with
      | arr elems =>
          have hloop := itemsLoop_none_iff elems (hnode s' hx elems rfl) 0 ps
          refine hloop.trans ⟨fun h => ?_, fun h e he => h s' elems e hx rfl he⟩
          intro s'' elems' e hhas heq he
          cases heq
          rw [← Has.unique hs hx hhas]
          exact h e he
      | null | bool _ | num _ | str _ | obj _ =>
          refine iff_of_true rfl fun s'' elems e _ heq => ?_
          cases heq

omit hlib in
/-- Where the schema is no object nothing is looked at. -/
theorem not_seen_of_ne_obj (hs : ∀ ms, schema ≠ .obj ms) : ¬ Seen schema value := by
  have hhas {name : Bytes} {x : Json ν} : ¬ Has schema name x := fun ⟨ms, heq, _⟩ => hs ms heq
  rintro (⟨t, h, _⟩ | ⟨entries, h, _⟩ | ⟨keys, key, members, h, _⟩ | ⟨⟨h, _⟩, _⟩)
  · exact hhas h
  · exact hhas h
  · exact hhas h
  · exact hhas h

omit [DecidableEq ν] hlib in
/-- One level of the walk. -/
theorem validateNode_succ_none_iff {n : Nat} {ms : List (Bytes × Json ν)} :
    (validateNode lib (n + 1) (.obj ms) value ps).1 = none ↔
      checkType lib (.obj ms) value ps = none ∧ checkEnum lib (.obj ms) value ps = none ∧
        checkRequired lib (.obj ms) value ps = none ∧
        (checkProperties lib (validateNode lib n) (.obj ms) value ps).1 = none ∧
        (checkItems lib (validateNode lib n) (.obj ms) value
          (checkProperties lib (validateNode lib n) (.obj ms) value ps).2).1 = none := by
  rw [validateNode]
  cases htype : checkType lib (.obj ms) value ps with
  | some err => simp
  | none =>
      cases henum : checkEnum lib (.obj ms) value ps with
      | some err => simp
      | none =>
          cases hrequired : checkRequired lib (.obj ms) value ps with
          | some err => simp
          | none =>
              generalize checkProperties lib (validateNode lib n) (.obj ms) value ps = res
              obtain ⟨err, ps'⟩ := res
              cases err with
              | some err => simp
              | none => simp

/-- **Theorem (The walk)**: It passes just when no place reached has a keyword broken in a way
that is looked at. -/
theorem validateNode_none_iff (n : Nat) (schema value : Json ν) (ps : PathStack)
    (hn : schema.size ≤ n) (hs : Distinct schema) (hv : Distinct value) :
    (validateNode lib n schema value ps).1 = none ↔
      ∀ s' v', Reaches schema value s' v' → ¬ Seen s' v' := by
  -- the parts of a schema are smaller than it is
  induction n generalizing schema value ps with
  | zero => exact absurd hn (Nat.not_le.mpr schema.size_pos)
  | succ n ih =>
      rw [forall_reaches_iff]
      cases schema with
      | obj ms =>
          have hpart {name : Bytes} {x : Json ν} (hx : Has (.obj ms) name x) : x.size ≤ n :=
            Nat.le_of_lt_succ (Nat.lt_of_lt_of_le hx.size_lt hn)
          have hproperty : ∀ props, Has (.obj ms) kProperties (.obj props) → ∀ p ∈ props,
              ∀ v', Has value p.1 v' → ∀ ps, (validateNode lib n p.2 v' ps).1 = none ↔
                ∀ s'' v'', Reaches p.2 v' s'' v'' → ¬ Seen s'' v'' := by
            intro props hprops p hp v' hv' ps
            have hmember : Has (.obj props) p.1 p.2 := ⟨props, rfl, hp⟩
            have hsize : p.2.size ≤ n := Nat.le_trans (Nat.le_of_lt hmember.size_lt) (hpart hprops)
            exact ih p.2 v' ps hsize ((hs.member hprops).member hmember) (hv.member hv')
          have hitem : ∀ s', Has (.obj ms) kItems s' → ∀ elems, value = .arr elems → ∀ e ∈ elems,
              ∀ ps, (validateNode lib n s' e ps).1 = none ↔
                ∀ s'' v'', Reaches s' e s'' v'' → ¬ Seen s'' v'' := by
            rintro s' hitems elems rfl e he ps
            exact ih s' e ps (hpart hitems) (hs.member hitems) (hv.elem he)
          rw [validateNode_succ_none_iff, checkType_none_iff hlib hs,
            checkEnum_none_iff hlib hs hv, checkRequired_none_iff hlib hs hv,
            checkProperties_none_iff hlib hs hv
              (P := fun s v => ∀ s' v', Reaches s v s' v' → ¬ Seen s' v') hproperty,
            checkItems_none_iff hlib hs
              (P := fun s v => ∀ s' v', Reaches s v s' v' → ¬ Seen s' v') hitem,
            Seen, not_or, not_or, not_or]
          constructor
          · rintro ⟨htype, henum, hrequired, ⟨hadditional, hproperties⟩, hitems⟩
            exact ⟨⟨htype, henum, hrequired, hadditional⟩, hproperties, hitems⟩
          · rintro ⟨⟨htype, henum, hrequired, hadditional⟩, hproperties, hitems⟩
            exact ⟨htype, henum, hrequired, ⟨hadditional, hproperties⟩, hitems⟩
      | null | bool _ | num _ | str _ | arr _ =>
          refine iff_of_true rfl ⟨not_seen_of_ne_obj nofun, ?_, ?_⟩
          · rintro _ _ _ _ ⟨_, heq, _⟩
            cases heq
          · rintro _ _ _ ⟨_, heq, _⟩
            cases heq

end Checks

/-! ## The decision -/

section Decision

variable {ν : Type} [DecidableEq ν]

/--
**Theorem (The decision of the validator)**: It is right just when no place reached has a keyword
broken in a way that is overlooked, or some place has one broken in a way that is looked at.
-/
theorem validate_exact_iff (lib : CJson ν) (hlib : lib.Documented) (text : Bytes)
    (schema value : Json ν) (hparse : lib.parse text = some schema) (hs : Distinct schema)
    (hv : Distinct value) :
    ((validate lib (some text) (some value)).1 = .ok ↔ Satisfies schema value) ↔
      ((∃ s v, Reaches schema value s v ∧ Overlooked s v) →
        ∃ s v, Reaches schema value s v ∧ Seen s v) := by
  have hok : (validate lib (some text) (some value)).1 = .ok ↔
      ∀ s v, Reaches schema value s v → ¬ Seen s v := by
    rw [← validateNode_none_iff hlib schema.size schema value [] Nat.le.refl hs hv, validate, hparse]
    dsimp only
    cases (validateNode lib schema.size schema value []).1 with
    | none => simp
    | some err => simp
  rw [hok]
  constructor
  · rintro hiff ⟨s, v, hr, hover⟩
    by_contra hnone
    have hnone' : ∀ s v, Reaches schema value s v → ¬ Seen s v :=
      fun s v hr hseen => hnone ⟨s, v, hr, hseen⟩
    exact hiff.mp hnone' s v hr (breaks_iff.mpr (Or.inr hover))
  · intro hwhen
    constructor
    · intro hnone s v hr hbreaks
      obtain hseen | hover := breaks_iff.mp hbreaks
      · exact hnone s v hr hseen
      · obtain ⟨s', v', hr', hseen⟩ := hwhen ⟨s, v, hr, hover⟩
        exact hnone s' v' hr' hseen
    · intro hsat s v hr hseen
      exact hsat s v hr (breaks_of_seen hseen)

end Decision

/-! ## A name in another case -/

/-- `{"required":["A"]}`. -/
def requiredText : Bytes :=
  [123, 34, 114, 101, 113, 117, 105, 114, 101, 100, 34, 58, 91, 34, 65, 34, 93, 125]

/-- What that text says. -/
def requiredSchema : Json Nat :=
  .obj [(kRequired, .arr [.str [65]])]

/-- The members of an object. -/
def membersOf : Json Nat → List (Bytes × Json Nat)
  | .obj members => members
  | _ => []

/-- cJSON over the natural numbers, parsing that text. -/
def plain : CJson Nat where
  parse text := if text = requiredText then some requiredSchema else none
  getObjectItemCaseSensitive j name := lookup name (membersOf j)
  hasObjectItem j name := (membersOf j).any fun m => decide (SameUpToCase m.1 name)
  compare := same
  typeCode
    | .bool false => 1
    | .bool true => 2
    | .null => 4
    | .num _ => 8
    | .str _ => 16
    | .arr _ => 32
    | .obj _ => 64
  printG := Foundations.Decimal.decimal

theorem has_iff_mem_membersOf {j x : Json Nat} {name : Bytes} :
    Has j name x ↔ (name, x) ∈ membersOf j := by
  cases j with
  | obj members =>
      constructor
      · rintro ⟨ms, heq, hmem⟩
        cases heq
        exact hmem
      · exact fun hmem => ⟨members, rfl, hmem⟩
  | null | bool _ | num _ | str _ | arr _ =>
      refine iff_of_false ?_ List.not_mem_nil
      rintro ⟨ms, heq, _⟩
      cases heq

theorem documented_plain : plain.Documented where
  get j name x hj := by
    rw [has_iff_mem_membersOf]
    refine lookup_eq_some_iff ?_
    cases j with
    | obj members => exact hj.names
    | null | bool _ | num _ | str _ | arr _ => exact List.nodup_nil
  has j name _ := by
    refine List.any_eq_true.trans ⟨?_, ?_⟩
    · rintro ⟨m, hmem, hsame⟩
      exact ⟨m.1, m.2, has_iff_mem_membersOf.mpr hmem, of_decide_eq_true hsame⟩
    · rintro ⟨name', x, hhas, hsame⟩
      exact ⟨(name', x), has_iff_mem_membersOf.mp hhas, decide_eq_true hsame⟩
  compare _ _ _ _ := rfl

theorem distinct_requiredSchema : Distinct requiredSchema := by
  refine .obj (by simp) fun m hm => ?_
  cases List.mem_singleton.mp hm
  refine .arr fun x hx => ?_
  cases List.mem_singleton.mp hx
  exact .str _

/-- `{"a":1}`. -/
def otherCase : Json Nat :=
  .obj [([97], .num 1)]

theorem distinct_otherCase : Distinct otherCase := by
  refine .obj (by simp) fun m hm => ?_
  cases List.mem_singleton.mp hm
  exact .num _

/-- The decision on a name in another case. -/
theorem validate_exact_iff_otherCase :
    ((validate plain (some requiredText) (some otherCase)).1 = .ok ↔
        Satisfies requiredSchema otherCase) ↔
      ((∃ s v, Reaches requiredSchema otherCase s v ∧ Overlooked s v) →
        ∃ s v, Reaches requiredSchema otherCase s v ∧ Seen s v) :=
  validate_exact_iff plain documented_plain requiredText requiredSchema otherCase rfl
    distinct_requiredSchema distinct_otherCase

/-- **Counterexample**: The name `A` is required and `a` is there. -/
theorem other_case_is_ok :
    plain.Documented ∧ plain.parse requiredText = some requiredSchema ∧ Distinct requiredSchema ∧
      Distinct otherCase ∧ (validate plain (some requiredText) (some otherCase)).1 = .ok ∧
      ¬ Satisfies requiredSchema otherCase := by
  refine ⟨documented_plain, rfl, distinct_requiredSchema, distinct_otherCase, by decide, fun h => ?_⟩
  have hmissing : RequiredBroken (· = ·) requiredSchema otherCase := by
    refine ⟨[.str [65]], [65], [([97], .num 1)], ⟨_, rfl, List.mem_singleton_self _⟩,
      List.mem_singleton_self _, rfl, fun m hm => ?_⟩
    cases List.mem_singleton.mp hm
    decide
  exact h _ _ (.here _ _) (Or.inr (Or.inr (Or.inr (Or.inl hmissing))))

end OpenApi
end Breadboard
