import Breadboard.Foundations.JsonTree
import Breadboard.SerializeJson.Tok

/-!
# bb_serialize_json_tok - a value as a pool of tokens

A value laid out in pre-order, from an index on: its own token, then the tokens of its
children, each of which names the index of its parent.  Navigation reads the value back:
the scan for a member skips the descendants of earlier members, as their parents lie
further on.

Main results:

- Theorem `names_objGet`: the member found is the first one with the key.
- Theorem `names_arrAt`: the element found is the one with the number.
-/

namespace Breadboard
namespace SerializeJson

open Foundations
open Foundations.JsonText (Json Members elemsSize membersSize field? field?_cons)

section Layout

variable (lib : Libc) (cfg : Kconfig)

/-- The payload of a value's token. -/
def tokVal : Json → TokVal
  | .null => .null
  | .bool v => .bool v
  | .num text => tokParseNum lib cfg text
  | .str s => .str s
  | .arr _ => .arr
  | .obj _ => .obj

/-- The token of a value under a key. -/
def valueTok (parent : Option Nat) (key : Bytes) (j : Json) : Tok where
  val := tokVal lib cfg j
  key := key
  numInexact :=
    match j with
    | .num text => tokNumInexact cfg text
    | _ => false
  childCount :=
    match j with
    | .arr elems => elems.length
    | .obj members => members.length
    | _ => 0
  parent := parent

mutual

/-- The tokens behind that of a value at index `i`. -/
def inside (i : Nat) : Json → List Tok
  | .null => []
  | .bool _ => []
  | .num _ => []
  | .str _ => []
  | .arr elems => layElems i (i + 1) elems
  | .obj members => layMembers i (i + 1) members

/-- The tokens of the elements of an array from index `i` on. -/
def layElems (parent i : Nat) : List Json → List Tok
  | [] => []
  | j :: js => valueTok lib cfg (some parent) [] j :: inside i j ++ layElems parent (i + j.size) js

/-- The tokens of the members of an object from index `i` on. -/
def layMembers (parent i : Nat) : List (Bytes × Json) → List Tok
  | [] => []
  | (key, j) :: ms =>
    valueTok lib cfg (some parent) key j :: inside i j ++ layMembers parent (i + j.size) ms

end

@[simp] theorem valueTok_key (parent : Option Nat) (key : Bytes) (j : Json) :
    (valueTok lib cfg parent key j).key = key :=
  rfl

@[simp] theorem valueTok_parent (parent : Option Nat) (key : Bytes) (j : Json) :
    (valueTok lib cfg parent key j).parent = parent :=
  rfl

/-- The tokens of a value at index `i`. -/
def lay (parent : Option Nat) (key : Bytes) (i : Nat) (j : Json) : List Tok :=
  valueTok lib cfg parent key j :: inside lib cfg i j

theorem layElems_cons (parent i : Nat) (j : Json) (js : List Json) :
    layElems lib cfg parent i (j :: js) =
      lay lib cfg (some parent) [] i j ++ layElems lib cfg parent (i + j.size) js := by
  rw [layElems]
  rfl

theorem layMembers_cons (parent i : Nat) (key : Bytes) (j : Json) (ms : Members) :
    layMembers lib cfg parent i ((key, j) :: ms) =
      lay lib cfg (some parent) key i j ++ layMembers lib cfg parent (i + j.size) ms := by
  rw [layMembers]
  rfl

mutual

theorem length_inside (i : Nat) : ∀ j : Json, (inside lib cfg i j).length + 1 = j.size
  | .null => by rw [inside, Json.size]; rfl
  | .bool _ => by rw [inside, Json.size]; rfl
  | .num _ => by rw [inside, Json.size]; rfl
  | .str _ => by rw [inside, Json.size]; rfl
  | .arr elems => by rw [inside, Json.size, length_layElems i (i + 1) elems, Nat.add_comm]
  | .obj members => by rw [inside, Json.size, length_layMembers i (i + 1) members, Nat.add_comm]

theorem length_layElems (parent i : Nat) :
    ∀ js : List Json, (layElems lib cfg parent i js).length = elemsSize js
  | [] => by rw [layElems, elemsSize]; rfl
  | j :: js => by
    rw [layElems, elemsSize, List.length_append, List.length_cons, length_inside i j,
      length_layElems parent (i + j.size) js]

theorem length_layMembers (parent i : Nat) :
    ∀ ms : List (Bytes × Json), (layMembers lib cfg parent i ms).length = membersSize ms
  | [] => by rw [layMembers, membersSize]; rfl
  | (key, j) :: ms => by
    rw [layMembers, membersSize, List.length_append, List.length_cons, length_inside i j,
      length_layMembers parent (i + j.size) ms]

end

@[simp] theorem length_lay (parent : Option Nat) (key : Bytes) (i : Nat) (j : Json) :
    (lay lib cfg parent key i j).length = j.size := by
  rw [lay, List.length_cons, length_inside]

mutual

/-- The parents of the tokens behind a value's own lie at it or further on. -/
theorem parent_inside (i : Nat) :
    ∀ j : Json, ∀ t ∈ inside lib cfg i j, ∃ q, t.parent = some q ∧ i ≤ q
  | .null => by rw [inside]; exact nofun
  | .bool _ => by rw [inside]; exact nofun
  | .num _ => by rw [inside]; exact nofun
  | .str _ => by rw [inside]; exact nofun
  | .arr elems => by
    intro t ht
    rw [inside] at ht
    rcases parent_layElems i (i + 1) elems t ht with hown | ⟨q, hq, hle⟩
    · exact ⟨i, hown, Nat.le_refl i⟩
    · exact ⟨q, hq, by omega⟩
  | .obj members => by
    intro t ht
    rw [inside] at ht
    rcases parent_layMembers i (i + 1) members t ht with hown | ⟨q, hq, hle⟩
    · exact ⟨i, hown, Nat.le_refl i⟩
    · exact ⟨q, hq, by omega⟩

theorem parent_layElems (parent i : Nat) :
    ∀ js : List Json, ∀ t ∈ layElems lib cfg parent i js,
      t.parent = some parent ∨ ∃ q, t.parent = some q ∧ i ≤ q
  | [] => by rw [layElems]; exact nofun
  | j :: js => by
    intro t ht
    rw [layElems, List.cons_append] at ht
    rcases List.mem_cons.mp ht with rfl | ht
    · exact .inl rfl
    rcases List.mem_append.mp ht with ht | ht
    · exact .inr (parent_inside i j t ht)
    · rcases parent_layElems parent (i + j.size) js t ht with hown | ⟨q, hq, hle⟩
      · exact .inl hown
      · exact .inr ⟨q, hq, by omega⟩

theorem parent_layMembers (parent i : Nat) :
    ∀ ms : List (Bytes × Json), ∀ t ∈ layMembers lib cfg parent i ms,
      t.parent = some parent ∨ ∃ q, t.parent = some q ∧ i ≤ q
  | [] => by rw [layMembers]; exact nofun
  | (key, j) :: ms => by
    intro t ht
    rw [layMembers, List.cons_append] at ht
    rcases List.mem_cons.mp ht with rfl | ht
    · exact .inl rfl
    rcases List.mem_append.mp ht with ht | ht
    · exact .inr (parent_inside i j t ht)
    · rcases parent_layMembers parent (i + j.size) ms t ht with hown | ⟨q, hq, hle⟩
      · exact .inl hown
      · exact .inr ⟨q, hq, by omega⟩

end

/-! ## Navigation -/

/-- A value is laid out at index `i` of the pool. -/
def LaidAt (pool : List Tok) (i : Nat) (j : Json) : Prop :=
  ∃ parent key rest, pool.drop i = lay lib cfg parent key i j ++ rest

/-- The index names the value, or there is neither. -/
inductive Names (pool : List Tok) : Option Nat → Option Json → Prop where
  | absent : Names pool none none
  | found {i : Nat} {j : Json} (h : LaidAt lib cfg pool i j) : Names pool (some i) (some j)

variable {lib cfg} {pool : List Tok}

theorem LaidAt.tok {i : Nat} {j : Json} (h : LaidAt lib cfg pool i j) :
    ∃ parent key, pool[i]? = some (valueTok lib cfg parent key j) := by
  obtain ⟨parent, key, rest, hdrop⟩ := h
  refine ⟨parent, key, ?_⟩
  have hhead : (pool.drop i)[0]? = some (valueTok lib cfg parent key j) := by
    rw [hdrop]
    rfl
  rwa [List.getElem?_drop, Nat.add_zero] at hhead

theorem LaidAt.drop_inside {i : Nat} {j : Json} (h : LaidAt lib cfg pool i j) :
    ∃ rest, pool.drop (i + 1) = inside lib cfg i j ++ rest := by
  obtain ⟨parent, key, rest, hdrop⟩ := h
  refine ⟨rest, ?_⟩
  rw [← List.drop_drop, hdrop]
  rfl

/-- Tokens of other parents are passed over. -/
theorem objScan_skip {obj : Nat} {key : Bytes} {ts : List Tok} (h : ∀ t ∈ ts, t.parent ≠ some obj)
    (i remaining : Nat) (rest : List Tok) :
    objScan obj key i remaining (ts ++ rest) = objScan obj key (i + ts.length) remaining rest := by
  induction ts generalizing i with
  | nil => rfl
  | cons t ts ih =>
    rw [List.cons_append, objScan]
    split
    · rename_i hzero
      subst hzero
      cases rest <;> simp [objScan]
    · rw [if_pos (h t List.mem_cons_self), ih (fun u hu => h u (List.mem_cons_of_mem t hu)),
        List.length_cons]
      congr 1
      omega

/-- Where the first member with a key lies, when the members start at index `i`. -/
def memberAt (key : Bytes) (i : Nat) : Members → Option Nat
  | [] => none
  | (k, j) :: ms => if k = key then some i else memberAt key (i + j.size) ms

theorem not_parent_of_inside {obj i : Nat} (hlt : obj < i) {j : Json} {t : Tok}
    (ht : t ∈ inside lib cfg i j) : t.parent ≠ some obj := by
  obtain ⟨q, hq, hle⟩ := parent_inside lib cfg i j t ht
  rw [hq]
  intro heq
  cases heq
  omega

/-- The scan finds the first member with the key. -/
theorem objScan_layMembers {obj i : Nat} (hlt : obj < i) (key : Bytes) (ms : Members)
    (rest : List Tok) :
    objScan obj key i ms.length (layMembers lib cfg obj i ms ++ rest) = memberAt key i ms := by
  induction ms generalizing i with
  | nil =>
    rw [layMembers, memberAt]
    cases rest <;> simp [objScan]
  | cons m ms ih =>
    obtain ⟨k, j⟩ := m
    rw [layMembers, List.cons_append, List.cons_append, objScan, if_neg (by simp),
      if_neg (by simp), valueTok_key, memberAt]
    by_cases hkey : k = key
    · rw [if_pos hkey, if_pos hkey]
    · rw [if_neg hkey, if_neg hkey, List.append_assoc,
        objScan_skip (fun t ht => not_parent_of_inside hlt ht), List.length_cons,
        Nat.add_sub_cancel]
      have hnext : i + 1 + (inside lib cfg i j).length = i + j.size := by
        have hsize := length_inside lib cfg i j
        omega
      rw [hnext]
      exact ih (by omega)

theorem names_memberAt (key : Bytes) {i obj : Nat} (ms : Members) {rest : List Tok}
    (h : pool.drop i = layMembers lib cfg obj i ms ++ rest) :
    Names lib cfg pool (memberAt key i ms) (field? key ms) := by
  induction ms generalizing i with
  | nil => exact .absent
  | cons m ms ih =>
    obtain ⟨k, j⟩ := m
    rw [layMembers_cons, List.append_assoc] at h
    rw [memberAt, field?_cons]
    by_cases hkey : k = key
    · rw [if_pos hkey, if_pos hkey]
      exact .found ⟨some obj, k, _, h⟩
    · rw [if_neg hkey, if_neg hkey]
      apply ih
      rw [← List.drop_drop, h]
      exact List.drop_left' (length_lay lib cfg (some obj) k i j)

theorem tokIsObj_of_laidAt {i : Nat} {j : Json} (h : LaidAt lib cfg pool i j) :
    tokIsObj pool (some i) = (match j with | .obj _ => true | _ => false) := by
  obtain ⟨parent, key, htok⟩ := h.tok
  unfold tokIsObj tokAt
  rw [Option.bind_some, htok]
  cases j <;> rfl

theorem tokIsArr_of_laidAt {i : Nat} {j : Json} (h : LaidAt lib cfg pool i j) :
    tokIsArr pool (some i) = (match j with | .arr _ => true | _ => false) := by
  obtain ⟨parent, key, htok⟩ := h.tok
  unfold tokIsArr tokAt
  rw [Option.bind_some, htok]
  cases j <;> rfl

/-- The members of a value; only an object has any. -/
def membersOf : Json → Members
  | .obj members => members
  | _ => []

/-- The member found is the first one with the key. -/
theorem names_objGet {i : Nat} {j : Json} (h : LaidAt lib cfg pool i j) (key : Bytes) :
    Names lib cfg pool (tokObjGet pool (some i) key) (field? key (membersOf j)) := by
  unfold tokObjGet
  rw [tokIsObj_of_laidAt h]
  cases j with
  | obj members =>
    obtain ⟨parent, k, htok⟩ := h.tok
    obtain ⟨rest, hdrop⟩ := h.drop_inside
    rw [inside] at hdrop
    rw [if_neg (by simp), Option.bind_some, htok, hdrop]
    show Names lib cfg pool (objScan i key (i + 1) members.length _) _
    rw [objScan_layMembers (Nat.lt_succ_self i)]
    exact names_memberAt key members hdrop
  | _ => exact .absent

theorem arrScan_skip {arr : Nat} {ts : List Tok} (h : ∀ t ∈ ts, t.parent ≠ some arr)
    (elemIdx i seen : Nat) (rest : List Tok) :
    arrScan arr elemIdx i seen (ts ++ rest) = arrScan arr elemIdx (i + ts.length) seen rest := by
  induction ts generalizing i with
  | nil => rfl
  | cons t ts ih =>
    rw [List.cons_append, arrScan, if_pos (h t List.mem_cons_self),
      ih (fun u hu => h u (List.mem_cons_of_mem t hu)), List.length_cons]
    congr 1
    omega

/-- The scan finds the element with the number. -/
theorem names_arrScan {arr i seen n : Nat} (hlt : arr < i) (js : List Json) {rest : List Tok}
    (h : pool.drop i = layElems lib cfg arr i js ++ rest) {j : Json} (hj : js[n]? = some j) :
    Names lib cfg pool
      (arrScan arr (seen + n) i seen (layElems lib cfg arr i js ++ rest)) (some j) := by
  induction js generalizing i seen n with
  | nil => cases hj
  | cons j₀ js ih =>
    have hstart := h
    rw [layElems_cons, List.append_assoc] at hstart
    rw [layElems, List.cons_append, List.cons_append, arrScan, if_neg (by simp)]
    cases n with
    | zero =>
      cases hj
      rw [Nat.add_zero, if_pos rfl]
      exact .found ⟨some arr, [], _, hstart⟩
    | succ n =>
      rw [if_neg (by omega), List.append_assoc,
        arrScan_skip (fun t ht => not_parent_of_inside hlt ht)]
      have hnext : i + 1 + (inside lib cfg i j₀).length = i + j₀.size := by
        have hsize := length_inside lib cfg i j₀
        omega
      have hdrop : pool.drop (i + j₀.size) = layElems lib cfg arr (i + j₀.size) js ++ rest := by
        rw [← List.drop_drop, hstart]
        exact List.drop_left' (length_lay lib cfg (some arr) [] i j₀)
      rw [hnext, show seen + (n + 1) = seen + 1 + n by omega]
      exact ih (by omega) hdrop hj

/-- The element found is the one with the number. -/
theorem names_arrAt {i n : Nat} {js : List Json} (h : LaidAt lib cfg pool i (.arr js)) {j : Json}
    (hj : js[n]? = some j) : Names lib cfg pool (tokArrAt pool (some i) n) (some j) := by
  obtain ⟨rest, hdrop⟩ := h.drop_inside
  rw [inside] at hdrop
  unfold tokArrAt
  rw [tokIsArr_of_laidAt h, if_neg (by simp), Option.bind_some, hdrop]
  have hfound := @names_arrScan lib cfg pool i (i + 1) 0 n (Nat.lt_succ_self i) js rest hdrop j hj
  rwa [Nat.zero_add] at hfound

end Layout

end SerializeJson
end Breadboard
