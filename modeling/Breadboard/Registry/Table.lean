import Breadboard.Core.Basics
import Breadboard.Foundations.Runs

/-!
# bb_registry

A table of a fixed capacity from names to values.  Entries stand in the order in
which they were registered; removing one shifts those behind it down.  A table is
keyed either by what the names spell or by the name pointers themselves.

Main results:

- Theorem `registryFindIndex_eq`: the search finds the first entry with the key.
- Theorem `take_copyOut`: the copy in the buffer holds the entries.
-/

namespace Breadboard
namespace Registry

open Foundations

/-- A pointer; 0 is the null pointer. -/
abbrev Ptr := Nat

/-- `bb_registry_entry_t`. -/
structure Entry where
  name : Ptr
  value : Ptr
  deriving Repr, DecidableEq, Inhabited

/-- `BB_REGISTRY_SNAPSHOT_MAX`. -/
def snapshotMax : Nat := 64

/-- `bb_registry_t`; `lockReady` says that its lock has been initialized. -/
structure RegistryTable where
  entries : List Entry
  capacity : Nat
  count : Nat
  frozen : Bool
  hwmWarned : Bool
  lockReady : Bool
  deriving Repr, DecidableEq

/-- `BB_REGISTRY_DEFINE`, with its static assertion. -/
def registryDefine (cap : Nat) (_hassert : cap ≤ snapshotMax) : RegistryTable where
  entries := List.replicate cap default
  capacity := cap
  count := 0
  frozen := false
  hwmWarned := false
  lockReady := false

/--
`registry_ensure_lock`: `lock` says whether the lock could be initialized now, if it
has not been before.
-/
def registryEnsureLock (r : RegistryTable) (lock : Bool) : BbErr × RegistryTable :=
  if r.lockReady then (.ok, r)
  else if lock then (.ok, { r with lockReady := true })
  else (.noMem, r)

section

variable (str : Ptr → Bytes) (byPtr : Bool)

/-- The comparison of two names: the pointers, or what they spell. -/
def sameKey (name key : Ptr) : Bool :=
  if byPtr then name = key else str name = str key

/-- The loop of `registry_find_index`, with `n` entries left to look at. -/
def findIndexLoop (entries : List Entry) (key : Ptr) : Nat → Nat → Option Nat
  | 0, _ => none
  | n + 1, i =>
    if sameKey str byPtr (entries.getD i default).name key then some i
    else findIndexLoop entries key n (i + 1)

/-- `registry_find_index`. -/
def registryFindIndex (r : RegistryTable) (key : Ptr) : Option Nat :=
  findIndexLoop str byPtr r.entries key r.count 0

/-- The table after the append, with the high-water mark. -/
def appended (r : RegistryTable) (key value : Ptr) : RegistryTable :=
  { r with
    entries := r.entries.set r.count { name := key, value := value }
    count := r.count + 1
    hwmWarned := r.hwmWarned || r.count + 1 = (r.capacity + 65535) % 65536 }

/-- `registry_register_common`. -/
def registryRegisterCommon (r : RegistryTable) (key value : Ptr) (lock : Bool) :
    BbErr × RegistryTable :=
  match registryEnsureLock r lock with
  | (.ok, r) =>
    if r.frozen then (.invalidState, r)
    else if (registryFindIndex str byPtr r key).isSome then (.invalidState, r)
    else if r.capacity ≤ r.count then (.noSpace, r)
    else (.ok, appended r key value)
  | (rc, r) => (rc, r)

/-- The loop that shifts the entries behind a slot down. -/
def shiftDown (entries : List Entry) (idx tail : Nat) : List Entry :=
  forRange (fun es k => es.set (idx + k) (es.getD (idx + k + 1) default)) entries (tail - idx)

/-- `registry_deregister_common`. -/
def registryDeregisterCommon (r : RegistryTable) (key : Ptr) (lock : Bool) :
    BbErr × RegistryTable :=
  match registryEnsureLock r lock with
  | (.ok, r) =>
    if r.frozen then (.invalidState, r)
    else
      match registryFindIndex str byPtr r key with
      | none => (.notFound, r)
      | some idx =>
        (.ok,
          { r with
            entries := shiftDown r.entries idx (r.count - 1)
            count := r.count - 1 })
  | (rc, r) => (rc, r)

/-- `registry_lookup_common`. -/
def registryLookupCommon (r : RegistryTable) (key : Ptr) (lock : Bool) : Ptr × RegistryTable :=
  match registryEnsureLock r lock with
  | (.ok, r) =>
    match registryFindIndex str byPtr r key with
    | none => (0, r)
    | some idx => ((r.entries.getD idx default).value, r)
  | (_, r) => (0, r)

/-- `bb_registry_register`, and with `byPtr` its pointer-keyed variant. -/
def registryRegister (r : RegistryTable) (name value : Ptr) (lock : Bool) : BbErr × RegistryTable :=
  if name = 0 ∨ value = 0 then (.invalidArg, r)
  else registryRegisterCommon str byPtr r name value lock

/-- `bb_registry_deregister`, and with `byPtr` its pointer-keyed variant. -/
def registryDeregister (r : RegistryTable) (name : Ptr) (lock : Bool) : BbErr × RegistryTable :=
  if name = 0 then (.invalidArg, r) else registryDeregisterCommon str byPtr r name lock

/-- `bb_registry_lookup`, and with `byPtr` its pointer-keyed variant. -/
def registryLookup (r : RegistryTable) (name : Ptr) (lock : Bool) : Ptr × RegistryTable :=
  if name = 0 then (0, r) else registryLookupCommon str byPtr r name lock

end

/-- `bb_registry_freeze`. -/
def registryFreeze (r : RegistryTable) (lock : Bool) : RegistryTable :=
  match registryEnsureLock r lock with
  | (.ok, r) => { r with frozen := true }
  | (_, r) => r

/-- The loop that copies the entries into the buffer on the stack. -/
def copyOut (entries : List Entry) (count : Nat) : List Entry :=
  forRange (fun snapshot i => snapshot.set i (entries.getD i default))
    (List.replicate snapshotMax default) count

/-- `registry_snapshot`, of which the callbacks see the first entries. -/
def registrySnapshot (r : RegistryTable) (lock : Bool) : List Entry × RegistryTable :=
  match registryEnsureLock r lock with
  | (.ok, r) => ((copyOut r.entries r.count).take r.count, r)
  | (_, r) => ([], r)

/-- `bb_registry_count`. -/
def registryCount (r : RegistryTable) (lock : Bool) : Nat × RegistryTable :=
  match registryEnsureLock r lock with
  | (.ok, r) => (r.count, r)
  | (_, r) => (0, r)

/-- `bb_registry_get_by_index`, which `out` gives room for the entry. -/
def registryGetByIndex (r : RegistryTable) (idx : Nat) (out : Bool) (lock : Bool) :
    (BbErr × Option Entry) × RegistryTable :=
  if !out then ((.invalidArg, none), r)
  else
    match registryEnsureLock r lock with
    | (.ok, r) =>
      if r.count ≤ idx then ((.notFound, none), r)
      else ((.ok, some (r.entries.getD idx default)), r)
    | (rc, r) => ((rc, none), r)

/-! ## The entries in a table -/

/-- The slots in use. -/
def RegistryTable.present (r : RegistryTable) : List Entry :=
  r.entries.take r.count

section

variable {str : Ptr → Bytes} {byPtr : Bool} {entries : List Entry}

theorem getD_eq_getElem {i : Nat} (h : i < entries.length) :
    entries.getD i default = entries[i] := by
  rw [List.getD_eq_getElem?_getD, List.getElem?_eq_getElem h]
  rfl

theorem findIndexLoop_eq (key : Ptr) {n i : Nat} (h : i + n ≤ entries.length) :
    findIndexLoop str byPtr entries key n i =
      (((entries.drop i).take n).findIdx? fun e => sameKey str byPtr e.name key).map (· + i) := by
  induction n generalizing i with
  | zero => rfl
  | succ n ih =>
    have hi : i < entries.length := by omega
    rw [findIndexLoop, getD_eq_getElem hi, List.drop_eq_getElem_cons hi, List.take_succ_cons,
      List.findIdx?_cons, ih (by omega)]
    cases sameKey str byPtr entries[i].name key with
    | true => simp
    | false =>
      simp only [Bool.false_eq_true, if_false, Option.map_map]
      congr 1
      funext j
      simp only [Function.comp_apply]
      omega

/-- The search finds the first entry with the key. -/
theorem registryFindIndex_eq (r : RegistryTable) (key : Ptr) (h : r.count ≤ r.entries.length) :
    registryFindIndex str byPtr r key =
      r.present.findIdx? fun e => sameKey str byPtr e.name key := by
  unfold registryFindIndex RegistryTable.present
  rw [findIndexLoop_eq key (by omega), List.drop_zero]
  exact Option.map_id'

/-- After some rounds the slots from `idx` on have the entry of the next. -/
theorem getElem?_shiftDown {idx n : Nat} (h : idx + n < entries.length) (j : Nat) :
    (forRange (fun es k => es.set (idx + k) (es.getD (idx + k + 1) default)) entries n)[j]? =
      if idx ≤ j ∧ j < idx + n then entries[j + 1]? else entries[j]? := by
  induction n generalizing j with
  | zero => rw [forRange_zero, if_neg (by omega)]
  | succ n ih =>
    have hsofar := ih (by omega)
    have hlen : (forRange (fun es k => es.set (idx + k) (es.getD (idx + k + 1) default))
        entries n).length = entries.length := by
      clear hsofar ih h
      induction n with
      | zero => rfl
      | succ n ih => rw [forRange_succ, List.length_set, ih]
    rw [forRange_succ, List.getElem?_set, hlen]
    by_cases hj : idx + n = j
    · subst hj
      have hnext : idx + n + 1 < entries.length := by omega
      rw [if_pos rfl, if_pos (by omega), if_pos (by omega), List.getD_eq_getElem?_getD,
        hsofar (idx + n + 1), if_neg (by omega), List.getElem?_eq_getElem hnext]
      rfl
    · rw [if_neg hj, hsofar j]
      by_cases hin : idx ≤ j ∧ j < idx + n
      · rw [if_pos hin, if_pos (by omega)]
      · rw [if_neg hin, if_neg (by omega)]

@[simp] theorem length_shiftDown (idx tail : Nat) :
    (shiftDown entries idx tail).length = entries.length := by
  have hkeep := @forRange_invariant (List Entry) (fun es => es.length = entries.length)
    (fun es k => es.set (idx + k) (es.getD (idx + k + 1) default)) entries (tail - idx) rfl
  apply hkeep
  intro k es _ hes
  rw [List.length_set, hes]

/-- Shifting drops one entry and keeps the others in order. -/
theorem take_shiftDown {idx count : Nat} (hidx : idx < count) (hcount : count ≤ entries.length) :
    (shiftDown entries idx (count - 1)).take (count - 1) = (entries.take count).eraseIdx idx := by
  apply List.ext_getElem?
  intro j
  rw [List.getElem?_take, List.getElem?_eraseIdx, List.getElem?_take, List.getElem?_take]
  unfold shiftDown
  rw [getElem?_shiftDown (by omega)]
  by_cases hj : j < count - 1
  · rw [if_pos hj, if_pos (show j < count by omega), if_pos (show j + 1 < count by omega)]
    by_cases hbehind : idx ≤ j
    · rw [if_pos (by omega), if_neg (by omega)]
    · rw [if_neg (by omega), if_pos (by omega)]
  · rw [if_neg hj, if_neg (show ¬ j < idx by omega), if_neg (show ¬ j + 1 < count by omega)]

/-- The copy in the buffer holds the entries that were copied. -/
theorem take_copyOut {count : Nat} (hcount : count ≤ entries.length) (hroom : count ≤ snapshotMax) :
    (copyOut entries count).take count = entries.take count := by
  have hcopied := @forRange_induct (List Entry)
    (fun k es => es.length = snapshotMax ∧ es.take k = entries.take k)
    (fun snapshot i => snapshot.set i (entries.getD i default))
    (List.replicate snapshotMax default) count ⟨List.length_replicate, rfl⟩
  refine (hcopied ?_).2
  intro k es hk hes
  have hlt : k < (es.set k (entries.getD k default)).length := by
    rw [List.length_set, hes.1]
    omega
  refine ⟨by rw [List.length_set, hes.1], ?_⟩
  rw [List.take_succ_eq_append_getElem hlt, List.take_set_of_le (Nat.le_refl k), hes.2,
    List.getElem_set_self, List.take_succ_eq_append_getElem (show k < entries.length by omega),
    getD_eq_getElem]

end

end Registry
end Breadboard
