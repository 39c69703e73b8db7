import Breadboard.Registry.Table
import Breadboard.Foundations.OrderedMap
import Breadboard.Foundations.Sessions

/-!
# bb_registry - an insertion-ordered map

What a registry is for: an insertion-ordered map with unique keys, of a fixed
capacity, that can be frozen.  A client that makes calls and iterates, with
callbacks that do the same, cannot tell a table from such a map.

Main results:

- Theorem `tableMachine_simulates`: a call on the table is the call on the map.
- Theorem `registry_refines`: any session on a table is the session on the map.
-/

namespace Breadboard
namespace Registry

open Foundations Foundations.Sessions

/-! ## Calls -/

/-- The calls of a client; `lock` says whether a lock that is due could be initialized. -/
inductive Call where
  | register (name value : Ptr) (lock : Bool)
  | deregister (name : Ptr) (lock : Bool)
  | lookup (name : Ptr) (lock : Bool)
  | freeze (lock : Bool)
  | count (lock : Bool)
  | getByIndex (idx : Nat) (out lock : Bool)

inductive Reply where
  | code (rc : BbErr)
  | pointer (p : Ptr)
  | number (n : Nat)
  | entry (rc : BbErr) (e : Option Entry)
  | done
  deriving DecidableEq

/-- The reply says that the call has failed. -/
def Reply.failed : Reply → Prop
  | .code rc => rc ≠ .ok
  | .entry rc _ => rc ≠ .ok
  | .pointer _ | .number _ | .done => False

/-- A table as an object: its calls, and the snapshot that an iteration takes. -/
def tableMachine (str : Ptr → Bytes) (byPtr : Bool) :
    Machine RegistryTable Call Reply Bool Entry where
  call r
    | .register name value lock =>
      let x := registryRegister str byPtr r name value lock
      (.code x.1, x.2)
    | .deregister name lock =>
      let x := registryDeregister str byPtr r name lock
      (.code x.1, x.2)
    | .lookup name lock =>
      let x := registryLookup str byPtr r name lock
      (.pointer x.1, x.2)
    | .freeze lock => (.done, registryFreeze r lock)
    | .count lock =>
      let x := registryCount r lock
      (.number x.1, x.2)
    | .getByIndex idx out lock =>
      let x := registryGetByIndex r idx out lock
      (.entry x.1.1 x.1.2, x.2)
  snapshot r lock := registrySnapshot r lock
  contents := RegistryTable.present

/-! ## The map -/

/-- The key of a name: what it spells, or the pointer itself. -/
inductive Key where
  | spelled (s : Bytes)
  | pointer (p : Ptr)
  deriving DecidableEq

def keyOf (str : Ptr → Bytes) (byPtr : Bool) (name : Ptr) : Key :=
  if byPtr then .pointer name else .spelled (str name)

section

variable (str : Ptr → Bytes) (byPtr : Bool)

/-- The key of an entry. -/
def entryKey (e : Entry) : Key :=
  keyOf str byPtr e.name

/-- A registry: an ordered map of at most `capacity` entries. -/
structure Listing where
  map : OrderedMap (entryKey str byPtr)
  capacity : Nat
  frozen : Bool
  ready : Bool

/-- The registry without entries. -/
def Listing.new (capacity : Nat) : Listing str byPtr where
  map := .empty _
  capacity := capacity
  frozen := false
  ready := false

end

section

variable {str : Ptr → Bytes} {byPtr : Bool}

/-- The registry when it can be locked. -/
def Listing.locked (l : Listing str byPtr) (lock : Bool) : Option (Listing str byPtr) :=
  if l.ready ∨ lock then some { l with ready := true } else none

/-- A new entry goes to the end, if there is room and the key is new. -/
def Listing.register (l : Listing str byPtr) (e : Entry) : BbErr × Listing str byPtr :=
  if l.frozen then (.invalidState, l)
  else if h : l.map.contains (entryKey str byPtr e) = false then
    if l.map.elems.length < l.capacity then (.ok, { l with map := l.map.insert e h })
    else (.noSpace, l)
  else (.invalidState, l)

/-- The entry with a key goes, the others keep their order. -/
def Listing.deregister (l : Listing str byPtr) (k : Key) : BbErr × Listing str byPtr :=
  if l.frozen then (.invalidState, l)
  else if l.map.contains k then (.ok, { l with map := l.map.erase k })
  else (.notFound, l)

/-- The calls on a registry as an ordered map. -/
def listingMachine (str : Ptr → Bytes) (byPtr : Bool) :
    Machine (Listing str byPtr) Call Reply Bool Entry where
  call l
    | .register name value lock =>
      if name = 0 ∨ value = 0 then (.code .invalidArg, l)
      else
        match l.locked lock with
        | none => (.code .noMem, l)
        | some l =>
          let x := l.register { name := name, value := value }
          (.code x.1, x.2)
    | .deregister name lock =>
      if name = 0 then (.code .invalidArg, l)
      else
        match l.locked lock with
        | none => (.code .noMem, l)
        | some l =>
          let x := l.deregister (keyOf str byPtr name)
          (.code x.1, x.2)
    | .lookup name lock =>
      if name = 0 then (.pointer 0, l)
      else
        match l.locked lock with
        | none => (.pointer 0, l)
        | some l => (.pointer (((l.map.find? (keyOf str byPtr name)).map Entry.value).getD 0), l)
    | .freeze lock =>
      match l.locked lock with
      | none => (.done, l)
      | some l => (.done, { l with frozen := true })
    | .count lock =>
      match l.locked lock with
      | none => (.number 0, l)
      | some l => (.number l.map.elems.length, l)
    | .getByIndex idx out lock =>
      if out = false then (.entry .invalidArg none, l)
      else
        match l.locked lock with
        | none => (.entry .noMem none, l)
        | some l =>
          match l.map.elems[idx]? with
          | none => (.entry .notFound none, l)
          | some e => (.entry .ok (some e), l)
  snapshot l lock :=
    match l.locked lock with
    | none => ([], l)
    | some l => (l.map.elems, l)
  contents l := l.map.elems

/-- An iteration starts from the entries, if the registry can be locked. -/
theorem snapshot_listing (l : Listing str byPtr) (lock : Bool) :
    ((listingMachine str byPtr).snapshot l lock).1 =
      if l.ready ∨ lock then l.map.elems else [] := by
  simp only [listingMachine, Listing.locked]
  by_cases hready : l.ready = true ∨ lock = true
  · rw [if_pos hready, if_pos hready]
  · rw [if_neg hready, if_neg hready]

/-! ## The table holds the map -/

/-- The slots in use are the entries of the map, in order. -/
structure Represents (r : RegistryTable) (l : Listing str byPtr) : Prop where
  present : r.present = l.map.elems
  count : r.count = l.map.elems.length
  bounded : r.count ≤ r.capacity
  slots : r.entries.length = r.capacity
  small : r.capacity ≤ snapshotMax
  capacity : r.capacity = l.capacity
  frozen : r.frozen = l.frozen
  ready : r.lockReady = l.ready

theorem represents_define {cap : Nat} (hcap : cap ≤ snapshotMax) :
    Represents (registryDefine cap hcap) (Listing.new str byPtr cap) where
  present := rfl
  count := rfl
  bounded := Nat.zero_le _
  slots := List.length_replicate
  small := hcap
  capacity := rfl
  frozen := rfl
  ready := rfl

theorem Represents.fits {r : RegistryTable} {l : Listing str byPtr} (h : Represents r l) :
    r.count ≤ r.entries.length := by
  rw [h.slots]
  exact h.bounded

/-- Locking the table is locking the map. -/
theorem Represents.ensureLock {r : RegistryTable} {l : Listing str byPtr} (h : Represents r l)
    (lock : Bool) :
    (l.locked lock = none ∧ registryEnsureLock r lock = (.noMem, r)) ∨
      ∃ l' r', l.locked lock = some l' ∧ registryEnsureLock r lock = (.ok, r') ∧
        Represents r' l' := by
  unfold registryEnsureLock Listing.locked
  rw [h.ready]
  cases hready : l.ready with
  | true =>
    right
    refine ⟨{ l with ready := true }, r, by simp, by simp, ?_⟩
    exact { h with ready := by rw [h.ready, hready] }
  | false =>
    cases lock with
    | true =>
      right
      exact ⟨{ l with ready := true }, { r with lockReady := true }, by simp, by simp,
        { h with ready := rfl }⟩
    | false =>
      left
      exact ⟨by simp, by simp⟩

/-- Names are compared by their keys. -/
theorem sameKey_eq (name key : Ptr) :
    sameKey str byPtr name key = decide (keyOf str byPtr name = keyOf str byPtr key) := by
  unfold sameKey keyOf
  cases byPtr with
  | true => simp
  | false => simp

/-- The search in the table is the search in the map. -/
theorem Represents.findIndex {r : RegistryTable} {l : Listing str byPtr} (h : Represents r l)
    (key : Ptr) :
    registryFindIndex str byPtr r key =
      l.map.elems.findIdx? fun e => entryKey str byPtr e = keyOf str byPtr key := by
  rw [registryFindIndex_eq r key h.fits, h.present]
  congr 1
  funext e
  rw [sameKey_eq]
  rfl

/-- The append to the table is the insertion into the map. -/
theorem Represents.appended {r : RegistryTable} {l : Listing str byPtr} (h : Represents r l)
    (hroom : r.count < r.capacity) {key value : Ptr}
    (hnew : l.map.contains (entryKey str byPtr { name := key, value := value }) = false) :
    Represents (appended r key value)
      { l with map := l.map.insert { name := key, value := value } hnew } where
  present := by
    have hlt : r.count < (r.entries.set r.count { name := key, value := value }).length := by
      rw [List.length_set, h.slots]
      exact hroom
    unfold RegistryTable.present Registry.appended
    dsimp only
    rw [List.take_succ_eq_append_getElem hlt, List.take_set_of_le (Nat.le_refl _),
      List.getElem_set_self, OrderedMap.elems_insert, ← h.present]
    rfl
  count := by
    rw [OrderedMap.elems_insert, List.length_append, ← h.count]
    rfl
  bounded := hroom
  slots := (List.length_set ..).trans h.slots
  small := h.small
  capacity := h.capacity
  frozen := h.frozen
  ready := h.ready

/-- Shifting the table down is erasing from the map. -/
theorem Represents.shifted {r : RegistryTable} {l : Listing str byPtr} (h : Represents r l)
    {key : Ptr} {idx : Nat} (hfound : registryFindIndex str byPtr r key = some idx) :
    Represents
      { r with
        entries := shiftDown r.entries idx (r.count - 1)
        count := r.count - 1 }
      { l with map := l.map.erase (keyOf str byPtr key) } := by
  rw [h.findIndex] at hfound
  have hidx : idx < r.count := by
    rw [h.count]
    exact (List.findIdx?_eq_some_iff_getElem.mp hfound).1
  have helems := OrderedMap.erase_of_findIdx hfound
  have hbounded := h.bounded
  constructor
  · unfold RegistryTable.present
    dsimp only
    rw [take_shiftDown hidx h.fits, helems, ← h.present]
    rfl
  · dsimp only
    rw [helems, List.length_eraseIdx, ← h.count, if_pos hidx]
  · dsimp only
    omega
  · dsimp only
    rw [length_shiftDown]
    exact h.slots
  · exact h.small
  · exact h.capacity
  · exact h.frozen
  · exact h.ready

/-- A call on the table replies as on the map and leaves the two related. -/
def CallAgrees (r : RegistryTable) (l : Listing str byPtr) (c : Call) : Prop :=
  ((tableMachine str byPtr).call r c).1 = ((listingMachine str byPtr).call l c).1 ∧
    Represents ((tableMachine str byPtr).call r c).2 ((listingMachine str byPtr).call l c).2

section

variable {r : RegistryTable} {l : Listing str byPtr}

theorem register_agrees (h : Represents r l) (name value : Ptr) (lock : Bool) :
    CallAgrees r l (.register name value lock) := by
  simp only [CallAgrees, tableMachine, listingMachine, registryRegister]
  by_cases hnull : name = 0 ∨ value = 0
  · rw [if_pos hnull, if_pos hnull]
    exact ⟨rfl, h⟩
  rw [if_neg hnull, if_neg hnull]
  unfold registryRegisterCommon
  rcases h.ensureLock lock with ⟨hlocked, hensure⟩ | ⟨l', r', hlocked, hensure, h'⟩
  · rw [hlocked, hensure]
    exact ⟨rfl, h⟩
  rw [hlocked, hensure]
  dsimp only
  have hcontains := OrderedMap.contains_eq_isSome l'.map (keyOf str byPtr name)
  rw [← h'.findIndex] at hcontains
  unfold Listing.register
  by_cases hfrozen : l'.frozen = true
  · rw [if_pos hfrozen, if_pos (h'.frozen.trans hfrozen)]
    exact ⟨rfl, h'⟩
  rw [if_neg hfrozen, if_neg (by rw [h'.frozen]; exact hfrozen), ← hcontains]
  by_cases hnew : l'.map.contains (entryKey str byPtr { name := name, value := value }) = false
  · have hkey : ¬ l'.map.contains (keyOf str byPtr name) = true := by
      intro hold
      rw [show l'.map.contains (keyOf str byPtr name) = false from hnew] at hold
      cases hold
    have hcount := h'.count
    have hcapacity := h'.capacity
    rw [dif_pos hnew, if_neg hkey]
    by_cases hroom : r'.count < r'.capacity
    · rw [if_neg (Nat.not_le.mpr hroom), if_pos (show l'.map.elems.length < l'.capacity by omega)]
      exact ⟨rfl, h'.appended hroom hnew⟩
    · rw [if_pos (Nat.not_lt.mp hroom), if_neg (show ¬ l'.map.elems.length < l'.capacity by omega)]
      exact ⟨rfl, h'⟩
  · have hold : l'.map.contains (keyOf str byPtr name) = true := eq_true_of_ne_false hnew
    rw [dif_neg hnew, if_pos hold]
    exact ⟨rfl, h'⟩

theorem deregister_agrees (h : Represents r l) (name : Ptr) (lock : Bool) :
    CallAgrees r l (.deregister name lock) := by
  simp only [CallAgrees, tableMachine, listingMachine, registryDeregister]
  by_cases hnull : name = 0
  · rw [if_pos hnull, if_pos hnull]
    exact ⟨rfl, h⟩
  rw [if_neg hnull, if_neg hnull]
  unfold registryDeregisterCommon
  rcases h.ensureLock lock with ⟨hlocked, hensure⟩ | ⟨l', r', hlocked, hensure, h'⟩
  · rw [hlocked, hensure]
    exact ⟨rfl, h⟩
  rw [hlocked, hensure]
  dsimp only
  have hcontains := OrderedMap.contains_eq_isSome l'.map (keyOf str byPtr name)
  rw [← h'.findIndex] at hcontains
  unfold Listing.deregister
  by_cases hfrozen : l'.frozen = true
  · rw [if_pos hfrozen, if_pos (h'.frozen.trans hfrozen)]
    exact ⟨rfl, h'⟩
  rw [if_neg hfrozen, if_neg (by rw [h'.frozen]; exact hfrozen), hcontains]
  cases hfound : registryFindIndex str byPtr r' name with
  | none => exact ⟨rfl, h'⟩
  | some idx => exact ⟨rfl, h'.shifted hfound⟩

theorem lookup_agrees (h : Represents r l) (name : Ptr) (lock : Bool) :
    CallAgrees r l (.lookup name lock) := by
  simp only [CallAgrees, tableMachine, listingMachine, registryLookup]
  by_cases hnull : name = 0
  · rw [if_pos hnull, if_pos hnull]
    exact ⟨rfl, h⟩
  rw [if_neg hnull, if_neg hnull]
  unfold registryLookupCommon
  rcases h.ensureLock lock with ⟨hlocked, hensure⟩ | ⟨l', r', hlocked, hensure, h'⟩
  · rw [hlocked, hensure]
    exact ⟨rfl, h⟩
  rw [hlocked, hensure]
  dsimp only
  cases hfound : registryFindIndex str byPtr r' name with
  | none =>
    rw [h'.findIndex] at hfound
    rw [OrderedMap.find?_of_findIdx_none hfound]
    exact ⟨rfl, h'⟩
  | some idx =>
    rw [h'.findIndex] at hfound
    have hidx : idx < r'.count := by
      rw [h'.count]
      exact (List.findIdx?_eq_some_iff_getElem.mp hfound).1
    have hread : l'.map.elems[idx]? = some (r'.entries.getD idx default) := by
      have hfits := h'.fits
      have hlt : idx < r'.entries.length := by omega
      rw [← h'.present, RegistryTable.present, List.getElem?_take, if_pos hidx, getD_eq_getElem hlt,
        List.getElem?_eq_getElem hlt]
    rw [OrderedMap.find?_of_findIdx hfound, hread]
    exact ⟨rfl, h'⟩

theorem freeze_agrees (h : Represents r l) (lock : Bool) : CallAgrees r l (.freeze lock) := by
  simp only [CallAgrees, tableMachine, listingMachine, registryFreeze]
  rcases h.ensureLock lock with ⟨hlocked, hensure⟩ | ⟨l', r', hlocked, hensure, h'⟩
  · rw [hlocked, hensure]
    exact ⟨rfl, h⟩
  · rw [hlocked, hensure]
    exact ⟨rfl, { h' with frozen := rfl }⟩

theorem count_agrees (h : Represents r l) (lock : Bool) : CallAgrees r l (.count lock) := by
  simp only [CallAgrees, tableMachine, listingMachine, registryCount]
  rcases h.ensureLock lock with ⟨hlocked, hensure⟩ | ⟨l', r', hlocked, hensure, h'⟩
  · rw [hlocked, hensure]
    exact ⟨rfl, h⟩
  · rw [hlocked, hensure]
    exact ⟨congrArg Reply.number h'.count, h'⟩

theorem getByIndex_agrees (h : Represents r l) (idx : Nat) (out lock : Bool) :
    CallAgrees r l (.getByIndex idx out lock) := by
  simp only [CallAgrees, tableMachine, listingMachine, registryGetByIndex]
  cases out with
  | false => exact ⟨rfl, h⟩
  | true =>
    simp only [Bool.not_true, Bool.false_eq_true, if_false, Bool.true_eq_false]
    rcases h.ensureLock lock with ⟨hlocked, hensure⟩ | ⟨l', r', hlocked, hensure, h'⟩
    · rw [hlocked, hensure]
      exact ⟨rfl, h⟩
    rw [hlocked, hensure]
    dsimp only
    rw [← h'.present, RegistryTable.present, List.getElem?_take]
    by_cases hidx : idx < r'.count
    · have hfits := h'.fits
      have hlt : idx < r'.entries.length := by omega
      rw [if_neg (Nat.not_le.mpr hidx), if_pos hidx, List.getElem?_eq_getElem hlt,
        getD_eq_getElem hlt]
      exact ⟨rfl, h'⟩
    · rw [if_pos (Nat.not_lt.mp hidx), if_neg hidx]
      exact ⟨rfl, h'⟩

end

/-- A call on the table is the call on the map. -/
theorem tableMachine_simulates :
    Simulates (tableMachine str byPtr) (listingMachine str byPtr) Represents where
  call r l c h := by
    cases c with
    | register name value lock => exact register_agrees h name value lock
    | deregister name lock => exact deregister_agrees h name lock
    | lookup name lock => exact lookup_agrees h name lock
    | freeze lock => exact freeze_agrees h lock
    | count lock => exact count_agrees h lock
    | getByIndex idx out lock => exact getByIndex_agrees h idx out lock
  snapshot r l lock h := by
    simp only [tableMachine, listingMachine, registrySnapshot]
    rcases h.ensureLock lock with ⟨hlocked, hensure⟩ | ⟨l', r', hlocked, hensure, h'⟩
    · rw [hlocked, hensure]
      exact ⟨rfl, h⟩
    · rw [hlocked, hensure]
      have hroom : r'.count ≤ snapshotMax := Nat.le_trans h'.bounded h'.small
      exact ⟨(take_copyOut h'.fits hroom).trans h'.present, h'⟩
  contents r l h := h.present

/-! ## Failing calls -/

/-- A call that fails leaves the entries as they were. -/
def ChangesNothingOnFailure : Event Call Reply Entry → Prop
  | .call _ reply before after => reply.failed → after = before
  | .visit _ _ => True

theorem locked_elems {l l' : Listing str byPtr} {lock : Bool} (h : l.locked lock = some l') :
    l'.map = l.map := by
  unfold Listing.locked at h
  split at h
  · injection h with h
    rw [← h]
  · cases h

/-- On the map, a call that fails changes nothing. -/
theorem listing_failure (l : Listing str byPtr) (c : Call)
    (h : ((listingMachine str byPtr).call l c).1.failed) :
    ((listingMachine str byPtr).call l c).2.map = l.map := by
  cases c with
  | register name value lock =>
    simp only [listingMachine] at h ⊢
    split
    · rfl
    · rename_i hnull
      rw [if_neg hnull] at h
      cases hlocked : l.locked lock with
      | none => rfl
      | some l' =>
        rw [hlocked] at h
        have hmap := locked_elems hlocked
        dsimp only [Reply.failed] at h ⊢
        unfold Listing.register at h ⊢
        split
        · exact hmap
        · rename_i hfrozen
          rw [if_neg hfrozen] at h
          split
          · rename_i hnew
            rw [dif_pos hnew] at h
            split
            · rename_i hroom
              rw [if_pos hroom] at h
              exact absurd rfl h
            · exact hmap
          · exact hmap
  | deregister name lock =>
    simp only [listingMachine] at h ⊢
    split
    · rfl
    · rename_i hnull
      rw [if_neg hnull] at h
      cases hlocked : l.locked lock with
      | none => rfl
      | some l' =>
        rw [hlocked] at h
        have hmap := locked_elems hlocked
        dsimp only [Reply.failed] at h ⊢
        unfold Listing.deregister at h ⊢
        split
        · exact hmap
        · rename_i hfrozen
          rw [if_neg hfrozen] at h
          split
          · rename_i hold
            rw [if_pos hold] at h
            exact absurd rfl h
          · exact hmap
  | lookup name lock =>
    simp only [listingMachine] at h
    split at h
    · exact absurd h id
    · split at h <;> exact absurd h id
  | freeze lock =>
    simp only [listingMachine] at h
    split at h <;> exact absurd h id
  | count lock =>
    simp only [listingMachine] at h
    split at h <;> exact absurd h id
  | getByIndex idx out lock =>
    simp only [listingMachine] at h ⊢
    split
    · rfl
    · cases hlocked : l.locked lock with
      | none => rfl
      | some l' =>
        have hmap := locked_elems hlocked
        dsimp only
        split
        · exact hmap
        · exact hmap

/-! ## Sessions -/

/--
What a client finds of a registry of some capacity: it is an insertion-ordered map in every session,
a call that fails changes no entry, and an iteration after any session visits what is there.
-/
structure RefinesOrderedMap (str : Ptr → Bytes) (byPtr : Bool) (r₀ : RegistryTable) : Prop where
  /-- The client finds the same, with the same entries before and after every call. -/
  session : ∀ (σ : Type) (p : Session Call Reply Bool Entry σ),
    (exec (tableMachine str byPtr) 0 p r₀).Agrees Represents
      (exec (listingMachine str byPtr) 0 p (.new str byPtr r₀.capacity))
  failure : ∀ (σ : Type) (p : Session Call Reply Bool Entry σ),
    ∀ ev ∈ (exec (tableMachine str byPtr) 0 p r₀).trace, ChangesNothingOnFailure ev
  /-- The callback may do anything, also to the registry. -/
  iteration : ∀ (σ τ : Type) (p : Session Call Reply Bool Entry σ) (depth : Nat) (lock : Bool)
    (ctx : τ) (cb : τ → Entry → Session Call Reply Bool Entry τ),
    let r := (exec (tableMachine str byPtr) 0 p r₀).state
    visits depth (exec (tableMachine str byPtr) depth (.foreach lock ctx cb .ret) r).trace =
      if r.lockReady ∨ lock then r.present else []

/-- A table as it is defined refines the insertion-ordered map with unique keys. -/
theorem registry_refines (str : Ptr → Bytes) (byPtr : Bool) (cap : Nat)
    (hcap : cap ≤ snapshotMax) : RefinesOrderedMap str byPtr (registryDefine cap hcap) := by
  have hstart := @represents_define str byPtr cap hcap
  have hsession : ∀ (σ : Type) (p : Session Call Reply Bool Entry σ),
      (exec (tableMachine str byPtr) 0 p (registryDefine cap hcap)).Agrees Represents
        (exec (listingMachine str byPtr) 0 p (.new str byPtr cap)) :=
    fun σ p => exec_simulates tableMachine_simulates p 0 hstart
  have hkeeps : Keeps (listingMachine str byPtr) (fun _ => True) ChangesNothingOnFailure := by
    constructor
    · intro l c _
      refine ⟨trivial, ?_⟩
      intro hfailed
      exact congrArg OrderedMap.elems (listing_failure l c hfailed)
    · intro l lock _
      trivial
    · intro depth e
      trivial
  constructor
  · exact hsession
  · intro σ p ev hev
    rw [(hsession σ p).2.1] at hev
    exact (exec_preserves hkeeps p 0 trivial).2 ev hev
  · intro σ τ p depth lock ctx cb
    dsimp only
    have hreached := (hsession σ p).2.2
    rw [visits_foreach, (tableMachine_simulates.snapshot _ _ lock hreached).1, snapshot_listing,
      hreached.present, hreached.ready]

/-- A registry of three entries, keyed by what the names spell. -/
theorem registry_refines_three :
    3 ≤ snapshotMax ∧
      RefinesOrderedMap (fun p => [UInt8.ofNat p]) false (registryDefine 3 (by decide)) :=
  ⟨by decide, registry_refines (fun p => [UInt8.ofNat p]) false 3 (by decide)⟩

end

end Registry
end Breadboard
