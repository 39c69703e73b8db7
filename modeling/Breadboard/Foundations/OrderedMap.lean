import Mathlib.Data.List.Nodup

/-!
# Insertion-ordered maps

A map that remembers the order in which its elements came: a list of elements with
distinct keys.  The key is a function of the element, and distinctness is a field, so
that an operation has to say why it keeps it.

Main results:

- Definitions `OrderedMap.insert` and `OrderedMap.erase`: the operations, with what they keep.
- Theorem `OrderedMap.erase_of_findIdx`: erasing drops one position and keeps the order.
-/

namespace Breadboard
namespace Foundations

universe u v

/-- A list of elements with distinct keys. -/
structure OrderedMap {ε : Type u} {κ : Type v} (key : ε → κ) where
  elems : List ε
  distinct : (elems.map key).Nodup

namespace OrderedMap

variable {ε : Type u} {κ : Type v} {key : ε → κ}

/-- The map without elements. -/
def empty (key : ε → κ) : OrderedMap key where
  elems := []
  distinct := List.nodup_nil

@[simp] theorem elems_empty : (empty key).elems = [] :=
  rfl

variable [DecidableEq κ]

/-- Some element has the key. -/
def contains (m : OrderedMap key) (k : κ) : Bool :=
  m.elems.any fun e => key e = k

/-- The element with the key. -/
def find? (m : OrderedMap key) (k : κ) : Option ε :=
  m.elems.find? fun e => key e = k

/-- The map with a new element at its end. -/
def insert (m : OrderedMap key) (e : ε) (h : m.contains (key e) = false) : OrderedMap key where
  elems := m.elems ++ [e]
  distinct := by
    have hnew : key e ∉ m.elems.map key := by
      intro hmem
      rcases List.mem_map.mp hmem with ⟨e', he', hkey⟩
      have hany : m.contains (key e) = true :=
        List.any_eq_true.mpr ⟨e', he', decide_eq_true hkey⟩
      rw [h] at hany
      cases hany
    rw [List.map_append, List.map_singleton]
    exact List.nodup_append.mpr ⟨m.distinct, List.nodup_singleton _, by
      intro k hk k' hk'
      rw [List.mem_singleton.mp hk']
      intro heq
      exact hnew (heq ▸ hk)⟩

@[simp] theorem elems_insert (m : OrderedMap key) (e : ε) (h : m.contains (key e) = false) :
    (m.insert e h).elems = m.elems ++ [e] :=
  rfl

/-- The map without the element that has the key. -/
def erase (m : OrderedMap key) (k : κ) : OrderedMap key where
  elems := m.elems.eraseP fun e => key e = k
  distinct := m.distinct.sublist ((List.eraseP_sublist).map key)

/-- Erasing drops one position and keeps the others in order. -/
theorem erase_of_findIdx {m : OrderedMap key} {k : κ} {i : Nat}
    (h : m.elems.findIdx? (fun e => key e = k) = some i) :
    (m.erase k).elems = m.elems.eraseIdx i := by
  unfold erase
  dsimp only
  rw [List.eraseP_eq_eraseIdx, h]

/-- A key is in the map when the search finds a position. -/
theorem contains_eq_isSome (m : OrderedMap key) (k : κ) :
    m.contains k = (m.elems.findIdx? fun e => key e = k).isSome := by
  unfold contains
  rw [List.findIdx?_isSome]

/-- The search finds the element at the position found. -/
theorem find?_of_findIdx {m : OrderedMap key} {k : κ} {i : Nat}
    (h : m.elems.findIdx? (fun e => key e = k) = some i) : m.find? k = m.elems[i]? := by
  unfold find?
  rw [List.find?_eq_bind_findIdx?_getElem?, h]
  rfl

/-- The search finds nothing without a position. -/
theorem find?_of_findIdx_none {m : OrderedMap key} {k : κ}
    (h : m.elems.findIdx? (fun e => key e = k) = none) : m.find? k = none := by
  unfold find?
  rw [List.find?_eq_bind_findIdx?_getElem?, h]
  rfl

end OrderedMap

end Foundations
end Breadboard
