import Mathlib.Data.List.Basic
import Mathlib.Data.List.Nodup
import Mathlib.Tactic.Common

/-!
# Fixed tables of keyed slots

A table of a fixed number of slots, each free or holding one key with its value.
A write goes to the first slot that holds the key, else to the first free slot,
else nowhere.  A table of staged writes is applied to another table slot by
slot; it fits exactly when the keys new to the target are no more than its free
slots, which can be counted before the first write.

Main results:

- Theorem `lookup_put`: a write changes the value of its key and of no other.
- Theorem `exists_put`: a write finds a slot unless its key is new and the
  table is full.
- Theorem `putAll_spec`: staged writes that were counted to fit all land, and
  the target then reads as the staged table over its old self.
-/

namespace Breadboard
namespace Foundations

universe u v

/-- A table of slots, each free or holding a key with its value. -/
abbrev Slots (κ : Type u) (υ : Type v) : Type (max u v) :=
  List (Option (κ × υ))

namespace Slots

variable {κ : Type u} {υ : Type v} [DecidableEq κ]

/-- The slot is used and holds this key. -/
def holds (k : κ) : Option (κ × υ) → Bool
  | some (k', _) => k' = k
  | none => false

/-- The first slot that holds the key. -/
def findEntry (t : Slots κ υ) (k : κ) : Option Nat :=
  t.findIdx? (holds k)

omit [DecidableEq κ] in
/-- The first free slot. -/
def findFree (t : Slots κ υ) : Option Nat :=
  t.findIdx? Option.isNone

/-- The value of a key. -/
def lookup : Slots κ υ → κ → Option υ
  | [], _ => none
  | some (k', v) :: t, k => if k' = k then some v else lookup t k
  | none :: t, k => lookup t k

/-- Write a key: over its entry if it has one, else into the first free slot. -/
def put (t : Slots κ υ) (k : κ) (v : υ) : Option (Slots κ υ) :=
  match t.findEntry k with
  | some i => some (t.set i (some (k, v)))
  | none =>
    match t.findFree with
    | some i => some (t.set i (some (k, v)))
    | none => none

omit [DecidableEq κ] in
/-- The number of free slots. -/
def free (t : Slots κ υ) : Nat :=
  t.countP Option.isNone

omit [DecidableEq κ] in
/-- The stored keys. -/
def keys (t : Slots κ υ) : List κ :=
  t.filterMap fun slot => slot.map Prod.fst

/-! ## One write -/

@[simp] theorem lookup_nil (k : κ) : lookup ([] : Slots κ υ) k = none :=
  rfl

@[simp] theorem lookup_cons_none (t : Slots κ υ) (k : κ) :
    lookup (none :: t) k = lookup t k :=
  rfl

@[simp] theorem lookup_cons_some (t : Slots κ υ) (k' k : κ) (v : υ) :
    lookup (some (k', v) :: t) k = if k' = k then some v else lookup t k :=
  rfl

theorem findEntry_cons (slot : Option (κ × υ)) (t : Slots κ υ) (k : κ) :
    findEntry (slot :: t) k = if holds k slot then some 0 else (findEntry t k).map (· + 1) := by
  simp [findEntry, List.findIdx?_cons]

omit [DecidableEq κ] in
theorem findFree_cons (slot : Option (κ × υ)) (t : Slots κ υ) :
    findFree (slot :: t) = if slot.isNone then some 0 else (findFree t).map (· + 1) := by
  simp [findFree, List.findIdx?_cons]

theorem findEntry_eq_none_iff (t : Slots κ υ) (k : κ) :
    t.findEntry k = none ↔ t.lookup k = none := by
  induction t with
  | nil => simp [findEntry]
  | cons slot t ih =>
    rw [findEntry_cons]
    cases slot with
    | none => simpa [holds] using ih
    | some entry =>
      obtain ⟨k', v⟩ := entry
      by_cases hk : k' = k
      · simp [holds, hk]
      · simpa [holds, hk] using ih

theorem findEntry_eq_none_iff_keys (t : Slots κ υ) (k : κ) :
    t.findEntry k = none ↔ k ∉ t.keys := by
  induction t with
  | nil => simp [findEntry, keys]
  | cons slot t ih =>
    rw [findEntry_cons]
    cases slot with
    | none => simpa [holds, keys] using ih
    | some entry =>
      obtain ⟨k', v⟩ := entry
      by_cases hk : k' = k
      · simp [holds, keys, hk]
      · simpa [holds, keys, hk, Ne.symm hk] using ih

theorem exists_of_findEntry {t : Slots κ υ} {k : κ} {i : Nat} (h : t.findEntry k = some i) :
    ∃ v, t[i]? = some (some (k, v)) := by
  obtain ⟨hi, hholds, _⟩ := List.findIdx?_eq_some_iff_getElem.mp h
  rw [List.getElem?_eq_getElem hi]
  cases hslot : t[i] with
  | none =>
    rw [hslot] at hholds
    cases hholds
  | some entry =>
    have hk : entry.1 = k := by simpa [hslot, holds] using hholds
    exact ⟨entry.2, by rw [← hk]⟩

theorem getElem?_ne_of_findEntry_none {t : Slots κ υ} {k : κ} (h : t.findEntry k = none) (i : Nat)
    (v : υ) : t[i]? ≠ some (some (k, v)) := by
  intro hslot
  have hmem := List.mem_of_getElem? hslot
  have hnot := List.findIdx?_eq_none_iff.mp h _ hmem
  simp [holds] at hnot

omit [DecidableEq κ] in
theorem getElem?_of_findFree {t : Slots κ υ} {i : Nat} (h : t.findFree = some i) :
    t[i]? = some none := by
  obtain ⟨hi, hfree, _⟩ := List.findIdx?_eq_some_iff_getElem.mp h
  rw [List.getElem?_eq_getElem hi, Option.isNone_iff_eq_none.mp hfree]

/-- Overwriting the entry of a key. -/
theorem lookup_set_entry {t : Slots κ υ} {k : κ} {i : Nat} (h : t.findEntry k = some i) (v : υ)
    (q : κ) : lookup (t.set i (some (k, v))) q = if k = q then some v else t.lookup q := by
  induction t generalizing i with
  | nil => simp [findEntry] at h
  | cons slot t ih =>
    rw [findEntry_cons] at h
    by_cases hslot : holds k slot = true
    · rw [if_pos hslot] at h
      cases h
      cases slot with
      | none => cases hslot
      | some entry =>
        obtain ⟨k', v'⟩ := entry
        have hk : k' = k := by simpa [holds] using hslot
        by_cases hq : k = q <;> simp [hk, hq]
    · rw [if_neg hslot, Option.map_eq_some_iff] at h
      obtain ⟨j, hj, rfl⟩ := h
      cases slot with
      | none => simpa using ih hj
      | some entry =>
        obtain ⟨k', v'⟩ := entry
        have hk : k' ≠ k := by simpa [holds] using hslot
        by_cases hq : k' = q
        · have hne : k ≠ q := fun hkq => hk (hq.trans hkq.symm)
          simp [hq, hne]
        · simpa [hq] using ih hj

/-- Filling a free slot with a new key. -/
theorem lookup_set_free {t : Slots κ υ} {k : κ} {i : Nat} (hnew : t.findEntry k = none)
    (h : t.findFree = some i) (v : υ) (q : κ) :
    lookup (t.set i (some (k, v))) q = if k = q then some v else t.lookup q := by
  induction t generalizing i with
  | nil => simp [findFree] at h
  | cons slot t ih =>
    rw [findEntry_cons] at hnew
    rw [findFree_cons] at h
    cases slot with
    | none =>
      cases h
      simp
    | some entry =>
      obtain ⟨k', v'⟩ := entry
      have hk : k' ≠ k := by
        intro hk
        simp [holds, hk] at hnew
      have hrest : findEntry t k = none := by simpa [holds, hk] using hnew
      simp only [Option.isNone_some, Bool.false_eq_true, if_false, Option.map_eq_some_iff] at h
      obtain ⟨j, hj, rfl⟩ := h
      by_cases hq : k' = q
      · have hne : k ≠ q := fun hkq => hk (hq.trans hkq.symm)
        simp [hq, hne]
      · simpa [hq] using ih hrest hj

/-- A write sets its key and leaves every other. -/
theorem lookup_put {t t' : Slots κ υ} {k : κ} {v : υ} (h : t.put k v = some t') (q : κ) :
    t'.lookup q = if k = q then some v else t.lookup q := by
  rw [put] at h
  cases hentry : t.findEntry k with
  | some i =>
    simp only [hentry, Option.some.injEq] at h
    rw [← h]
    exact lookup_set_entry hentry v q
  | none =>
    cases hfree : t.findFree with
    | none => simp [hentry, hfree] at h
    | some i =>
      simp only [hentry, hfree, Option.some.injEq] at h
      rw [← h]
      exact lookup_set_free hentry hfree v q

/-! ## Room -/

omit [DecidableEq κ] in
theorem free_eq_zero_of_findFree {t : Slots κ υ} (h : t.findFree = none) : t.free = 0 := by
  rw [findFree, List.findIdx?_eq_none_iff] at h
  rw [free, List.countP_eq_zero]
  intro slot hslot
  simp [h slot hslot]

/-- A write finds a slot when its key is stored or a slot is free. -/
theorem exists_put {t : Slots κ υ} {k : κ} (v : υ) (h : t.lookup k ≠ none ∨ 0 < t.free) :
    ∃ t', t.put k v = some t' := by
  rw [put]
  cases hentry : t.findEntry k with
  | some i => exact ⟨_, rfl⟩
  | none =>
    have hroom := h.resolve_left fun hstored => hstored ((findEntry_eq_none_iff t k).mp hentry)
    cases hfree : t.findFree with
    | some i => exact ⟨_, rfl⟩
    | none =>
      rw [free_eq_zero_of_findFree hfree] at hroom
      exact absurd hroom (Nat.lt_irrefl 0)

omit [DecidableEq κ] in
theorem free_set {t : Slots κ υ} {i : Nat} (hi : i < t.length) (entry : κ × υ) :
    free (t.set i (some entry)) + (if t[i].isNone then 1 else 0) = t.free := by
  induction t generalizing i with
  | nil => simp at hi
  | cons slot t ih =>
    cases i with
    | zero => cases slot <;> simp [free]
    | succ i =>
      have h := ih (i := i) (by simpa using hi)
      cases slot <;> simp [free] at h ⊢ <;> omega

/-- Writing a stored key takes no room; a new key takes one slot. -/
theorem free_put {t t' : Slots κ υ} {k : κ} {v : υ} (h : t.put k v = some t') :
    t'.free + (if t.lookup k = none then 1 else 0) = t.free := by
  rw [put] at h
  cases hentry : t.findEntry k with
  | some i =>
    simp only [hentry, Option.some.injEq] at h
    rw [← h]
    have hstored : t.lookup k ≠ none := by
      rw [ne_eq, ← findEntry_eq_none_iff, hentry]
      nofun
    obtain ⟨hi, hholds, _⟩ := List.findIdx?_eq_some_iff_getElem.mp hentry
    have hfree := free_set hi (k, v)
    cases hslot : t[i] with
    | none =>
      rw [hslot] at hholds
      cases hholds
    | some entry =>
      rw [hslot] at hfree
      simpa [hstored] using hfree
  | none =>
    cases hfree : t.findFree with
    | none => simp [hentry, hfree] at h
    | some i =>
      simp only [hentry, hfree, Option.some.injEq] at h
      rw [← h]
      obtain ⟨hi, hnone, _⟩ := List.findIdx?_eq_some_iff_getElem.mp hfree
      have hroom := free_set hi (k, v)
      rw [hnone] at hroom
      simpa [(findEntry_eq_none_iff t k).mp hentry] using hroom

/-! ## Applying staged writes -/

/-- Write every used slot of a staged table, in slot order. -/
def putAll (t : Slots κ υ) : Slots κ υ → Option (Slots κ υ)
  | [] => some t
  | none :: staged => putAll t staged
  | some (k, v) :: staged =>
    match t.put k v with
    | some t' => putAll t' staged
    | none => none

/-- The staged keys the target does not hold. -/
def newKeys (t staged : Slots κ υ) : Nat :=
  staged.countP fun slot =>
    match slot with
    | some (k, _) => (t.findEntry k).isNone
    | none => false

theorem keys_set_entry {t : Slots κ υ} {k : κ} {i : Nat} (h : t.findEntry k = some i) (v : υ) :
    keys (t.set i (some (k, v))) = t.keys := by
  induction t generalizing i with
  | nil => simp [findEntry] at h
  | cons slot t ih =>
    rw [findEntry_cons] at h
    by_cases hslot : holds k slot = true
    · rw [if_pos hslot] at h
      cases h
      cases slot with
      | none => cases hslot
      | some entry =>
        have hk : entry.1 = k := by simpa [holds] using hslot
        simp [keys, hk]
    · rw [if_neg hslot, Option.map_eq_some_iff] at h
      obtain ⟨j, hj, rfl⟩ := h
      have hrest := ih hj
      cases slot <;> simpa [keys] using hrest

omit [DecidableEq κ] in
theorem keys_set_free {t : Slots κ υ} {i : Nat} (h : t.findFree = some i) (k : κ) (v : υ) :
    (keys (t.set i (some (k, v)))).Perm (k :: t.keys) := by
  induction t generalizing i with
  | nil => simp [findFree] at h
  | cons slot t ih =>
    rw [findFree_cons] at h
    cases slot with
    | none =>
      cases h
      simp [keys]
    | some entry =>
      simp only [Option.isNone_some, Bool.false_eq_true, if_false, Option.map_eq_some_iff] at h
      obtain ⟨j, hj, rfl⟩ := h
      have hrest := (ih hj).cons entry.1
      exact hrest.trans (List.Perm.swap k entry.1 _)

/-- Writes keep the stored keys distinct. -/
theorem nodup_put {t t' : Slots κ υ} {k : κ} {v : υ} (h : t.put k v = some t')
    (hnodup : t.keys.Nodup) : t'.keys.Nodup := by
  rw [put] at h
  cases hentry : t.findEntry k with
  | some i =>
    simp only [hentry, Option.some.injEq] at h
    rwa [← h, keys_set_entry hentry]
  | none =>
    cases hfree : t.findFree with
    | none => simp [hentry, hfree] at h
    | some i =>
      simp only [hentry, hfree, Option.some.injEq] at h
      rw [← h, (keys_set_free hfree k v).nodup_iff]
      exact List.nodup_cons.mpr ⟨(findEntry_eq_none_iff_keys t k).mp hentry, hnodup⟩

theorem lookup_of_notMem_keys {t : Slots κ υ} {k : κ} (h : k ∉ t.keys) : t.lookup k = none :=
  (findEntry_eq_none_iff t k).mp ((findEntry_eq_none_iff_keys t k).mpr h)

theorem newKeys_congr {t t' staged : Slots κ υ}
    (h : ∀ q ∈ staged.keys, t'.lookup q = t.lookup q) : newKeys t' staged = newKeys t staged := by
  apply List.countP_congr
  intro slot hslot
  cases slot with
  | none => rfl
  | some entry =>
    have hmem : entry.1 ∈ staged.keys := List.mem_filterMap.mpr ⟨some entry, hslot, rfl⟩
    simp only [Option.isNone_iff_eq_none, findEntry_eq_none_iff, h entry.1 hmem]

/-- Applying staged writes whose new keys fit: the target then reads as both tables together. -/
theorem putAll_spec {t staged : Slots κ υ} (hnodup : staged.keys.Nodup)
    (hroom : newKeys t staged ≤ t.free) :
    ∃ t', t.putAll staged = some t' ∧
      ∀ q, t'.lookup q = (staged.lookup q).or (t.lookup q) := by
  induction staged generalizing t with
  | nil => exact ⟨t, rfl, fun q => rfl⟩
  | cons slot staged ih =>
    cases slot with
    | none => exact ih hnodup (by simpa [newKeys] using hroom)
    | some entry =>
      obtain ⟨k, v⟩ := entry
      simp only [keys, List.filterMap_cons, Option.map_some, List.nodup_cons] at hnodup
      obtain ⟨hfresh, hrest⟩ := hnodup
      have hcount : newKeys t (some (k, v) :: staged) =
          newKeys t staged + (if t.lookup k = none then 1 else 0) := by
        have hiff := findEntry_eq_none_iff t k
        simp only [newKeys, List.countP_cons, Option.isNone_iff_eq_none, hiff]
      obtain ⟨t', hput⟩ : ∃ t', t.put k v = some t' := by
        apply exists_put
        by_cases hstored : t.lookup k = none
        · rw [hcount, if_pos hstored] at hroom
          exact Or.inr (Nat.lt_of_lt_of_le (Nat.succ_pos _) hroom)
        · exact Or.inl hstored
      -- the keys of the other staged slots are as new as before this write
      have hsame : newKeys t' staged = newKeys t staged := by
        apply newKeys_congr
        intro q hq
        have hne : k ≠ q := fun hkq => hfresh (hkq ▸ hq)
        rw [lookup_put hput, if_neg hne]
      have hroom' : newKeys t' staged ≤ t'.free := by
        have hfree := free_put hput
        omega
      obtain ⟨t'', hall, hlookup⟩ := ih hrest hroom'
      refine ⟨t'', by simp [putAll, hput, hall], fun q => ?_⟩
      rw [hlookup, lookup_put hput, lookup_cons_some]
      by_cases hq : k = q
      · subst hq
        rw [if_pos rfl, if_pos rfl, lookup_of_notMem_keys hfresh]
        rfl
      · rw [if_neg hq, if_neg hq]

end Slots
end Foundations
end Breadboard
