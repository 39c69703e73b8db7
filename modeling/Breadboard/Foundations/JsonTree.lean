import Breadboard.Foundations.JsonText

/-!
# JSON values as trees

The tree behind the events of a text: `Json.events` is the walk of a value, and every
text that can be read at all is the walk of exactly the value it denotes.

Main results:

- Theorems `values_events`, `depthAfter_events`: the events of a value start its
  values and leave the nesting depth as it was.
- Theorems `IsText.exists_json`, `events_injective`: every JSON text denotes a value,
  and no two values have the same events.
- Theorem `field?_eq_some_iff`: with distinct names a member is found wherever it stands.
-/

namespace Breadboard
namespace Foundations
namespace JsonText

/-- A JSON value; a number is its text and an object its members in order. -/
inductive Json where
  | null
  | bool (v : Bool)
  | num (text : Text)
  | str (value : Text)
  | arr (elems : List Json)
  | obj (members : List (Text × Json))

abbrev Members := List (Text × Json)

mutual

/-- The events of a value under a key. -/
def Json.events (key : Text) : Json → List Event
  | .null => [.null key]
  | .bool v => [.bool key v]
  | .num text => [.num key text]
  | .str value => [.str key value]
  | .arr elems => .beginArr key :: elemsEvents elems
  | .obj members => .beginObj key :: membersEvents members

/-- The events of the elements of an array, and its end. -/
def elemsEvents : List Json → List Event
  | [] => [.endArr]
  | j :: js => j.events [] ++ elemsEvents js

/-- The events of the members of an object, and its end. -/
def membersEvents : List (Text × Json) → List Event
  | [] => [.endObj]
  | (key, j) :: ms => j.events key ++ membersEvents ms

end

mutual

/-- The number of values in a value, itself included. -/
def Json.size : Json → Nat
  | .null => 1
  | .bool _ => 1
  | .num _ => 1
  | .str _ => 1
  | .arr elems => 1 + elemsSize elems
  | .obj members => 1 + membersSize members

/-- The number of values in the elements of an array. -/
def elemsSize : List Json → Nat
  | [] => 0
  | j :: js => j.size + elemsSize js

/-- The number of values in the members of an object. -/
def membersSize : List (Text × Json) → Nat
  | [] => 0
  | (_, j) :: ms => j.size + membersSize ms

end

theorem Json.size_pos (j : Json) : 0 < j.size := by
  cases j <;> simp only [Json.size] <;> omega

/-- The number of values that start in some events. -/
def values : List Event → Nat
  | [] => 0
  | .beginObj _ :: evs => 1 + values evs
  | .beginArr _ :: evs => 1 + values evs
  | .endObj :: evs => values evs
  | .endArr :: evs => values evs
  | .num _ _ :: evs => 1 + values evs
  | .bool _ _ :: evs => 1 + values evs
  | .null _ :: evs => 1 + values evs
  | .str _ _ :: evs => 1 + values evs

theorem values_append (evs evs' : List Event) : values (evs ++ evs') = values evs + values evs' := by
  induction evs with
  | nil => simp [values]
  | cons e evs ih => cases e <;> simp [values, ih, Nat.add_assoc]

mutual

theorem values_events (key : Text) : ∀ j : Json, values (j.events key) = j.size
  | .null => by rw [Json.events, Json.size]; rfl
  | .bool _ => by rw [Json.events, Json.size]; rfl
  | .num _ => by rw [Json.events, Json.size]; rfl
  | .str _ => by rw [Json.events, Json.size]; rfl
  | .arr elems => by rw [Json.events, Json.size, values, values_elemsEvents elems]
  | .obj members => by rw [Json.events, Json.size, values, values_membersEvents members]

theorem values_elemsEvents : ∀ js : List Json, values (elemsEvents js) = elemsSize js
  | [] => by rw [elemsEvents, elemsSize]; rfl
  | j :: js => by
    rw [elemsEvents, elemsSize, values_append, values_events [] j, values_elemsEvents js]

theorem values_membersEvents :
    ∀ ms : List (Text × Json), values (membersEvents ms) = membersSize ms
  | [] => by rw [membersEvents, membersSize]; rfl
  | (key, j) :: ms => by
    rw [membersEvents, membersSize, values_append, values_events key j, values_membersEvents ms]

end

/-- The first event of a value ends nothing. -/
theorem events_eq_cons (key : Text) (j : Json) :
    ∃ e evs, j.events key = e :: evs ∧ e ≠ .endObj ∧ e ≠ .endArr := by
  cases j <;> rw [Json.events] <;> exact ⟨_, _, rfl, nofun, nofun⟩

mutual

/-- The events of a value determine it, its key and what comes after. -/
theorem events_inj {key key' : Text} : ∀ (j j' : Json) {rest rest' : List Event},
    j.events key ++ rest = j'.events key' ++ rest' → j = j' ∧ key = key' ∧ rest = rest'
  | .null, j', rest, rest', h => by cases j' <;> simp_all [Json.events]
  | .bool _, j', rest, rest', h => by cases j' <;> simp_all [Json.events]
  | .num _, j', rest, rest', h => by cases j' <;> simp_all [Json.events]
  | .str _, j', rest, rest', h => by cases j' <;> simp_all [Json.events]
  | .arr elems, j', rest, rest', h => by
    cases j' with
    | arr elems' =>
      rw [Json.events, Json.events, List.cons_append, List.cons_append, List.cons.injEq] at h
      obtain ⟨hkey, hinner⟩ := h
      cases hkey
      obtain ⟨rfl, rfl⟩ := elemsEvents_inj elems elems' hinner
      exact ⟨rfl, rfl, rfl⟩
    | _ => simp [Json.events] at h
  | .obj members, j', rest, rest', h => by
    cases j' with
    | obj members' =>
      rw [Json.events, Json.events, List.cons_append, List.cons_append, List.cons.injEq] at h
      obtain ⟨hkey, hinner⟩ := h
      cases hkey
      obtain ⟨rfl, rfl⟩ := membersEvents_inj members members' hinner
      exact ⟨rfl, rfl, rfl⟩
    | _ => simp [Json.events] at h

theorem elemsEvents_inj : ∀ (js js' : List Json) {rest rest' : List Event},
    elemsEvents js ++ rest = elemsEvents js' ++ rest' → js = js' ∧ rest = rest'
  | [], [], rest, rest', h => by simpa [elemsEvents] using h
  | [], j' :: js', rest, rest', h => by
    obtain ⟨e, evs, hevents, -, hne⟩ := events_eq_cons [] j'
    simp only [elemsEvents, hevents, List.cons_append, List.cons.injEq] at h
    exact absurd h.1.symm hne
  | j :: js, [], rest, rest', h => by
    obtain ⟨e, evs, hevents, -, hne⟩ := events_eq_cons [] j
    simp only [elemsEvents, hevents, List.cons_append, List.cons.injEq] at h
    exact absurd h.1 hne
  | j :: js, j' :: js', rest, rest', h => by
    rw [elemsEvents, elemsEvents, List.append_assoc, List.append_assoc] at h
    obtain ⟨rfl, -, htail⟩ := events_inj j j' h
    obtain ⟨rfl, rfl⟩ := elemsEvents_inj js js' htail
    exact ⟨rfl, rfl⟩

theorem membersEvents_inj : ∀ (ms ms' : List (Text × Json)) {rest rest' : List Event},
    membersEvents ms ++ rest = membersEvents ms' ++ rest' → ms = ms' ∧ rest = rest'
  | [], [], rest, rest', h => by simpa [membersEvents] using h
  | [], (key', j') :: ms', rest, rest', h => by
    obtain ⟨e, evs, hevents, hne, -⟩ := events_eq_cons key' j'
    simp only [membersEvents, hevents, List.cons_append, List.cons.injEq] at h
    exact absurd h.1.symm hne
  | (key, j) :: ms, [], rest, rest', h => by
    obtain ⟨e, evs, hevents, hne, -⟩ := events_eq_cons key j
    simp only [membersEvents, hevents, List.cons_append, List.cons.injEq] at h
    exact absurd h.1 hne
  | (key, j) :: ms, (key', j') :: ms', rest, rest', h => by
    rw [membersEvents, membersEvents, List.append_assoc, List.append_assoc] at h
    obtain ⟨rfl, rfl, htail⟩ := events_inj j j' h
    obtain ⟨rfl, rfl⟩ := membersEvents_inj ms ms' htail
    exact ⟨rfl, rfl⟩

end

theorem events_injective {key : Text} {j j' : Json} (h : j.events key = j'.events key) : j = j' :=
  (events_inj j j' (congrArg (· ++ []) h)).1

mutual

/-- A value leaves the nesting depth as it was. -/
theorem depthAfter_events (d : Nat) (key : Text) : ∀ j : Json, depthAfter d (j.events key) = d
  | .null => by rw [Json.events]; rfl
  | .bool _ => by rw [Json.events]; rfl
  | .num _ => by rw [Json.events]; rfl
  | .str _ => by rw [Json.events]; rfl
  | .arr elems => by rw [Json.events, depthAfter, depthAfter_elemsEvents d elems]
  | .obj members => by rw [Json.events, depthAfter, depthAfter_membersEvents d members]

theorem depthAfter_elemsEvents (d : Nat) :
    ∀ js : List Json, depthAfter (d + 1) (elemsEvents js) = d
  | [] => by rw [elemsEvents]; rfl
  | j :: js => by
    rw [elemsEvents, depthAfter_append, depthAfter_events (d + 1) [] j, depthAfter_elemsEvents d js]

theorem depthAfter_membersEvents (d : Nat) :
    ∀ ms : List (Text × Json), depthAfter (d + 1) (membersEvents ms) = d
  | [] => by rw [membersEvents]; rfl
  | (key, j) :: ms => by
    rw [membersEvents, depthAfter_append, depthAfter_events (d + 1) key j,
      depthAfter_membersEvents d ms]

end

/-! ## Texts denote values -/

/-- The events of a piece of a text, in terms of values. -/
def Kind.Denotes : Kind → List Event → Prop
  | .value key, evs => ∃ j : Json, evs = j.events key
  | .colon key, evs => ∃ (j : Json) (ms : Members), evs = j.events key ++ membersEvents ms
  | .memberValue key, evs => ∃ (j : Json) (ms : Members), evs = j.events key ++ membersEvents ms
  | .objBody, evs => ∃ ms, evs = membersEvents ms
  | .member, evs => ∃ ms, evs = membersEvents ms
  | .objTail, evs => ∃ ms, evs = membersEvents ms
  | .arrBody, evs => ∃ js, evs = elemsEvents js
  | .element, evs => ∃ js, evs = elemsEvents js
  | .arrTail, evs => ∃ js, evs = elemsEvents js

/-- What is read are the events of values. -/
theorem Reads.denotes {N : Text → Prop} {kind : Kind} {s : Text} {evs : List Event} {rest : Text}
    (h : Reads N kind s evs rest) : kind.Denotes evs := by
  induction h with
  | ws _ _ _ ih => exact ih
  | @str key _ v _ _ => exact ⟨.str v, by rw [Json.events]⟩
  | @num key n _ _ => exact ⟨.num n, by rw [Json.events]⟩
  | litTrue key _ => exact ⟨.bool true, by rw [Json.events]⟩
  | litFalse key _ => exact ⟨.bool false, by rw [Json.events]⟩
  | litNull key _ => exact ⟨.null, by rw [Json.events]⟩
  | obj _ ih =>
    obtain ⟨ms, rfl⟩ := ih
    exact ⟨.obj ms, by rw [Json.events]⟩
  | arr _ ih =>
    obtain ⟨js, rfl⟩ := ih
    exact ⟨.arr js, by rw [Json.events]⟩
  | objEmpty _ => exact ⟨[], by rw [membersEvents]⟩
  | objEnd _ => exact ⟨[], by rw [membersEvents]⟩
  | arrEmpty _ => exact ⟨[], by rw [elemsEvents]⟩
  | arrEnd _ => exact ⟨[], by rw [elemsEvents]⟩
  | @objFirst _ key _ _ _ _ _ ih =>
    obtain ⟨j, ms, rfl⟩ := ih
    exact ⟨(key, j) :: ms, by rw [membersEvents]⟩
  | @key _ key _ _ _ _ _ ih =>
    obtain ⟨j, ms, rfl⟩ := ih
    exact ⟨(key, j) :: ms, by rw [membersEvents]⟩
  | colon _ ih => exact ih
  | memberValue _ _ ihv ih =>
    obtain ⟨j, rfl⟩ := ihv
    obtain ⟨ms, rfl⟩ := ih
    exact ⟨j, ms, rfl⟩
  | objNext _ ih => exact ih
  | arrFirst _ _ ihv ih =>
    obtain ⟨j, rfl⟩ := ihv
    obtain ⟨js, rfl⟩ := ih
    exact ⟨j :: js, by rw [elemsEvents]⟩
  | element _ _ ihv ih =>
    obtain ⟨j, rfl⟩ := ihv
    obtain ⟨js, rfl⟩ := ih
    exact ⟨j :: js, by rw [elemsEvents]⟩
  | arrNext _ ih => exact ih

/-- Every JSON text denotes a value. -/
theorem IsText.exists_json {N : Text → Prop} {s : Text} {evs : List Event} (h : IsText N s evs) :
    ∃ j : Json, evs = j.events [] := by
  obtain ⟨w, s', w', -, -, hreads, -⟩ := h
  exact hreads.denotes

/-! ## Members by name -/

/-- No two members have the same name. -/
def Members.Distinct (ms : Members) : Prop := (ms.map Prod.fst).Nodup

theorem Members.Distinct.split {pre post : Members} {m : Text × Json}
    (h : Members.Distinct (pre ++ m :: post)) :
    m.1 ∉ pre.map Prod.fst ∧ m.1 ∉ post.map Prod.fst ∧ Members.Distinct post := by
  unfold Members.Distinct at *
  rw [List.map_append, List.map_cons] at h
  obtain ⟨-, hrest, hdisjoint⟩ := List.nodup_append.mp h
  obtain ⟨hpost, hdistinct⟩ := List.nodup_cons.mp hrest
  exact ⟨fun hmem => hdisjoint _ hmem _ (List.mem_cons_self ..) rfl, hpost, hdistinct⟩

/-- The member of a name. -/
def field? (key : Text) (ms : Members) : Option Json :=
  (ms.find? fun m => m.1 = key).map Prod.snd

/-- The member of a name, when it is a string. -/
def strField? (key : Text) (ms : Members) : Option Text :=
  match field? key ms with
  | some (.str v) => some v
  | _ => none

theorem field?_nil (key : Text) : field? key [] = none := rfl

theorem field?_cons (key : Text) (m : Text × Json) (ms : Members) :
    field? key (m :: ms) = if m.1 = key then some m.2 else field? key ms := by
  unfold field?
  rw [List.find?_cons]
  by_cases hkey : m.1 = key <;> simp [hkey]

theorem field?_eq_none_iff {key : Text} {ms : Members} :
    field? key ms = none ↔ key ∉ ms.map Prod.fst := by
  induction ms with
  | nil => simp [field?_nil]
  | cons m ms ih =>
    rw [field?_cons]
    by_cases hkey : m.1 = key
    · simp [hkey]
    · have hne : key ≠ m.1 := fun h => hkey h.symm
      simp only [if_neg hkey, ih, List.map_cons, List.mem_cons, hne, false_or]

/-- With distinct names a member is found wherever it stands. -/
theorem field?_eq_some_iff {key : Text} {ms : Members} (h : ms.Distinct) {j : Json} :
    field? key ms = some j ↔ (key, j) ∈ ms := by
  induction ms with
  | nil => simp [field?_nil]
  | cons m ms ih =>
    obtain ⟨hnew, hrest⟩ := List.nodup_cons.mp h
    rw [field?_cons, List.mem_cons]
    by_cases hkey : m.1 = key
    · subst hkey
      have habsent : ∀ j, (m.1, j) ∉ ms := fun j hmem =>
        hnew (List.mem_map.mpr ⟨(m.1, j), hmem, rfl⟩)
      constructor
      · intro hj
        rw [if_pos rfl, Option.some.injEq] at hj
        exact .inl (Prod.ext rfl hj.symm)
      · rintro (heq | hmem)
        · rw [if_pos rfl, ← heq]
        · exact absurd hmem (habsent j)
    · rw [if_neg hkey, ih hrest]
      constructor
      · exact .inr
      · rintro (heq | hmem)
        · exact absurd (congrArg Prod.fst heq).symm hkey
        · exact hmem

/-- A member nests no deeper than the object does. -/
theorem nests_member {limit d : Nat} {ms : Members} (h : Nests limit (d + 1) (membersEvents ms))
    {key : Text} {j : Json} (hj : field? key ms = some j) :
    Nests limit (d + 1) (j.events key) := by
  induction ms with
  | nil => cases hj
  | cons m ms ih =>
    obtain ⟨k, j'⟩ := m
    rw [membersEvents, nests_append, depthAfter_events] at h
    rw [field?_cons] at hj
    by_cases hkey : k = key
    · rw [if_pos hkey] at hj
      cases hj
      rw [← hkey]
      exact h.1
    · rw [if_neg hkey] at hj
      exact ih h.2 hj

/-- An element nests no deeper than the array does. -/
theorem nests_elem {limit d : Nat} {js : List Json} (h : Nests limit (d + 1) (elemsEvents js))
    {j : Json} (hj : j ∈ js) : Nests limit (d + 1) (j.events []) := by
  induction js with
  | nil => cases hj
  | cons j' js ih =>
    rw [elemsEvents, nests_append, depthAfter_events] at h
    rcases List.mem_cons.mp hj with rfl | hj
    · exact h.1
    · exact ih h.2 hj

/-- The events of a member are among those of the object. -/
theorem mem_events_member {ms : Members} {key : Text} {j : Json} (hj : field? key ms = some j)
    {e : Event} (he : e ∈ j.events key) : e ∈ membersEvents ms := by
  induction ms with
  | nil => cases hj
  | cons m ms ih =>
    obtain ⟨k, j'⟩ := m
    rw [membersEvents, List.mem_append]
    rw [field?_cons] at hj
    by_cases hkey : k = key
    · rw [if_pos hkey] at hj
      cases hj
      rw [hkey]
      exact .inl he
    · rw [if_neg hkey] at hj
      exact .inr (ih hj)

/-- The events of an element are among those of the array. -/
theorem mem_events_elem {js : List Json} {j : Json} (hj : j ∈ js) {e : Event}
    (he : e ∈ j.events []) : e ∈ elemsEvents js := by
  induction js with
  | nil => cases hj
  | cons j' js ih =>
    rw [elemsEvents, List.mem_append]
    rcases List.mem_cons.mp hj with rfl | hj
    · exact .inl he
    · exact .inr (ih hj)

theorem strField?_eq_some_iff {key : Text} {ms : Members} (h : ms.Distinct) {v : Text} :
    strField? key ms = some v ↔ (key, .str v) ∈ ms := by
  rw [← field?_eq_some_iff h]
  unfold strField?
  constructor
  · intro hv
    split at hv
    · next v' heq =>
      cases hv
      exact heq
    · cases hv
  · intro hv
    rw [hv]

theorem strField?_cons (key : Text) (m : Text × Json) (ms : Members) :
    strField? key (m :: ms) =
      if m.1 = key then (match m.2 with | .str v => some v | _ => none) else strField? key ms := by
  unfold strField?
  rw [field?_cons]
  by_cases hkey : m.1 = key
  · simp only [if_pos hkey]
    cases m.2 <;> rfl
  · simp only [if_neg hkey]

end JsonText
end Foundations
end Breadboard
