import Breadboard.Core.Basics
import Breadboard.Foundations.KeyedSlots

/-!
# The entry table of the cache

`bb_cache_espidf.c` keeps a fixed table of entries and a generation counter
for each slot, which counts every filling and every freeing of the slot.  A caller
looks a key up under the registry lock, remembers the slot and its generation,
and compares both again under the lock of the entry.

Each function here is the body of one lock section, or of the part of it that
concerns one entry.  The counters of a slot's fillings and of an entry's writes are
natural numbers that the code sees modulo `2 ^ 32`.  The clock is a natural
number of milliseconds that the code sees modulo `2 ^ 64`.
-/

namespace Breadboard
namespace Cache

open Foundations

/-! ## Records -/

/-- `BB_CACHE_KEY_MAX`. -/
def keyMax : Nat := 96

/-- A registry key: the bytes of a C string. -/
abbrev Key := Bytes

/-- The bytes a pointer leads to. -/
abbrev Memory := Nat → UInt8

/-- What `memcpy` takes from a pointer. -/
def copyOf (size : Nat) (src : Memory) : Bytes :=
  (List.range size).map src

/-- `bb_cache_evict_policy_t`. -/
inductive EvictPolicy where
  | pinned
  | ageOut
  deriving Repr, DecidableEq

/-- `bb_cache_eviction_t`. -/
structure Eviction where
  policy : EvictPolicy
  staleAgeMs : UInt32
  evictAgeMs : UInt32
  deriving Repr, DecidableEq

/-- `bb_cache_config_t`; `snapshot` says whether a getter is given. -/
structure Config where
  key : Key
  snapshot : Bool
  snapSize : Nat
  eviction : Eviction
  deriving Repr, DecidableEq

/-- `bb_cache_update_t`. -/
structure UpdateReq where
  key : Key
  snap : Memory
  tsMs : Int64

/--
`bb_cache_entry_t` without its key and generation.  `registeredAt` is not in
the source: it remembers the clock of the registration for the statements about age.
-/
structure Entry where
  snapshot : Bool
  owned : Option Bytes
  size : Nat
  hasValue : Bool
  fallbackSeeded : Bool
  tsMs : Int64
  eviction : Eviction
  stateVersion : Nat
  registeredAt : Nat
  deriving Repr, DecidableEq

/-- `s_entries`: a slot is free when its key is empty. -/
structure Table where
  entries : Slots Key Entry
  generation : Nat → Nat

/-- `do_init`: every slot free at generation zero. -/
def Table.init (maxTopics : Nat) : Table where
  entries := List.replicate maxTopics none
  generation := fun _ => 0

/-- `entry_ref_t`. -/
structure EntryRef where
  slot : Nat
  generation : Nat
  deriving Repr, DecidableEq

/-- The slot is used, for this key and entry. -/
def Table.Stored (t : Table) (slot : Nat) (key : Key) (e : Entry) : Prop :=
  t.entries[slot]? = some (some (key, e))

/-! ## Finding an entry -/

/-- The generation of a slot as a reference to what it now holds. -/
def Table.refOf (t : Table) (slot : Nat) : EntryRef where
  slot := slot
  generation := t.generation slot

/-- `find_entry_locked_ref`. -/
def Table.findEntryLockedRef (t : Table) (key : Key) : Option EntryRef :=
  (t.entries.findEntry key).map t.refOf

/-- Two counters the 32-bit comparison takes for one. -/
def SameGeneration (a b : Nat) : Prop :=
  UInt32.ofNat a = UInt32.ofNat b

instance (a b : Nat) : Decidable (SameGeneration a b) :=
  inferInstanceAs (Decidable (UInt32.ofNat a = UInt32.ofNat b))

/-- `entry_matches_locked`, with the entry it lets the caller use. -/
def Table.entryMatches (t : Table) (ref : EntryRef) (key : Key) : Option Entry :=
  match t.entries[ref.slot]? with
  | some (some (k, e)) =>
    if SameGeneration (t.generation ref.slot) ref.generation ∧ k = key then some e else none
  | _ => none

/-- Store back an entry that was changed under its lock. -/
def Table.setEntry (t : Table) (slot : Nat) (key : Key) (e : Entry) : Table :=
  { t with entries := t.entries.set slot (some (key, e)) }

theorem Table.stored_of_findEntry {t : Table} {key : Key} {slot : Nat}
    (h : t.entries.findEntry key = some slot) : ∃ e, t.Stored slot key e :=
  Slots.exists_of_findEntry h

theorem Table.not_stored_of_findEntry {t : Table} {key : Key} (h : t.entries.findEntry key = none)
    (slot : Nat) (e : Entry) : ¬ t.Stored slot key e :=
  Slots.getElem?_ne_of_findEntry_none h slot e

theorem Table.stored_of_entryMatches {t : Table} {ref : EntryRef} {key : Key} {e : Entry}
    (h : t.entryMatches ref key = some e) :
    t.Stored ref.slot key e ∧ SameGeneration (t.generation ref.slot) ref.generation := by
  unfold Table.entryMatches at h
  split at h
  · rename_i k e' hslot
    split at h
    · rename_i hmatch
      obtain ⟨hgen, rfl⟩ := hmatch
      cases h
      exact ⟨hslot, hgen⟩
    · cases h
  · cases h

/-! ## Registering and deleting -/

/-- The argument checks of `bb_cache_register`. -/
def Config.valid (cfg : Config) : Bool :=
  if keyMax ≤ cfg.key.length then false
  else if cfg.eviction.policy = .ageOut then
    if cfg.eviction.evictAgeMs = 0 then false
    else if cfg.eviction.evictAgeMs ≤ cfg.eviction.staleAgeMs then false
    else !cfg.snapshot
  else true

/-- The fields `bb_cache_register` writes into a free slot. -/
def Config.entry (cfg : Config) (owned : Option Bytes) (now : Nat) : Entry where
  snapshot := cfg.snapshot
  owned := owned
  size := cfg.snapSize
  hasValue := false
  fallbackSeeded := false
  tsMs := 0
  eviction := cfg.eviction
  stateVersion := 0
  registeredAt := now

/-- Fill a free slot; an empty key leaves it free. -/
def Table.fill (t : Table) (slot : Nat) (key : Key) (e : Entry) : Table where
  entries := t.entries.set slot (if key = [] then none else some (key, e))
  generation := Function.update t.generation slot (t.generation slot + 1)

/--
`bb_cache_register`, its result and `*out_first_time`.  `allocated` says
whether the buffer of an owned entry can be had.
-/
def Table.register (t : Table) (cfg : Config) (allocated : Bool) (now : Nat) :
    BbErr × Bool × Table :=
  if cfg.valid = false then (.invalidArg, false, t)
  else
    match t.entries.findEntry cfg.key with
    | some _ => (.ok, false, t)
    | none =>
      match t.entries.findFree with
      | none => (.noSpace, false, t)
      | some slot =>
        if 0 < cfg.snapSize then
          if allocated then
            let owned := some (List.replicate cfg.snapSize 0)
            (.ok, true, t.fill slot cfg.key (cfg.entry owned now))
          else (.noSpace, false, t)
        else if cfg.snapshot then (.ok, true, t.fill slot cfg.key (cfg.entry none now))
        else (.invalidArg, false, t)

/-- `teardown_found_entry_locked`. -/
def Table.teardown (t : Table) (slot : Nat) : Table where
  entries := t.entries.set slot none
  generation := Function.update t.generation slot (t.generation slot + 1)

/-- The section of `bb_cache_delete`, and the slot it freed. -/
def Table.delete (t : Table) (key : Key) : Option EntryRef × Table :=
  match t.entries.findEntry key with
  | none => (none, t)
  | some slot => (some (t.refOf slot), t.teardown slot)

/-- The section of `bb_cache_delete_if_generation`, and the slot it freed. -/
def Table.deleteIfGeneration (t : Table) (key : Key) (expectedGen : Nat) :
    Option EntryRef × Table :=
  match t.entries.findEntry key with
  | none => (none, t)
  | some slot =>
    if SameGeneration (t.generation slot) expectedGen then
      (some (t.refOf slot), t.teardown slot)
    else (none, t)

/-! ## The slots after a change -/

theorem le_bump (gen : Nat → Nat) (i j : Nat) : gen j ≤ Function.update gen i (gen i + 1) j := by
  by_cases hij : j = i
  · subst hij
    simp
  · simp [Function.update_of_ne hij]

theorem Table.stored_setEntry {t : Table} {i : Nat} {k : Key} {e : Entry} (h : t.Stored i k e)
    (e' : Entry) (j : Nat) (k' : Key) (e'' : Entry) :
    (t.setEntry i k e').Stored j k' e'' ↔
      if i = j then k = k' ∧ e' = e'' else t.Stored j k' e'' := by
  have hi : i < t.entries.length := (List.getElem?_eq_some_iff.mp h).1
  unfold Table.Stored Table.setEntry
  by_cases hij : i = j
  · subst hij
    simp [hi]
  · simp [hij]

theorem Table.stored_fill {t : Table} {i : Nat} {k : Key} (hfree : t.entries.findFree = some i)
    (hk : k ≠ []) (e : Entry) (j : Nat) (k' : Key) (e' : Entry) :
    (t.fill i k e).Stored j k' e' ↔ if i = j then k = k' ∧ e = e' else t.Stored j k' e' := by
  have hi : i < t.entries.length :=
    (List.getElem?_eq_some_iff.mp (Slots.getElem?_of_findFree hfree)).1
  unfold Table.Stored Table.fill
  by_cases hij : i = j
  · subst hij
    simp [hi, hk]
  · simp [hij]

theorem Table.stored_fill_nil {t : Table} {i : Nat} (hfree : t.entries.findFree = some i)
    (e : Entry) (j : Nat) (k : Key) (e' : Entry) :
    (t.fill i [] e).Stored j k e' ↔ t.Stored j k e' := by
  obtain ⟨hi, hnone⟩ := List.getElem?_eq_some_iff.mp (Slots.getElem?_of_findFree hfree)
  unfold Table.Stored Table.fill
  by_cases hij : i = j
  · subst hij
    simp [hi, hnone]
  · simp [hij]

theorem Table.stored_teardown (t : Table) (i j : Nat) (k : Key) (e : Entry) :
    (t.teardown i).Stored j k e ↔ i ≠ j ∧ t.Stored j k e := by
  unfold Table.Stored Table.teardown
  by_cases hij : i = j
  · subst hij
    simp only [List.getElem?_set_self', ne_eq, not_true_eq_false, false_and, iff_false]
    cases t.entries[i]? <;> simp
  · simp [hij]

/-- What a registration does to the table. -/
theorem Table.register_cases (t : Table) (cfg : Config) (allocated : Bool) (now : Nat) :
    (∃ err, err ≠ .ok ∧ t.register cfg allocated now = (err, false, t)) ∨
    (∃ slot, t.entries.findEntry cfg.key = some slot ∧
      t.register cfg allocated now = (.ok, false, t)) ∨
    (∃ slot owned, t.entries.findEntry cfg.key = none ∧ t.entries.findFree = some slot ∧
      cfg.valid = true ∧
      owned = (if 0 < cfg.snapSize then some (List.replicate cfg.snapSize 0) else none) ∧
      t.register cfg allocated now =
        (.ok, true, t.fill slot cfg.key (cfg.entry owned now))) := by
  unfold Table.register
  by_cases hvalid : cfg.valid = false
  · exact Or.inl ⟨.invalidArg, nofun, by rw [if_pos hvalid]⟩
  · rw [if_neg hvalid]
    cases hfind : t.entries.findEntry cfg.key with
    | some slot => exact Or.inr (Or.inl ⟨slot, rfl, rfl⟩)
    | none =>
      cases hfree : t.entries.findFree with
      | none => exact Or.inl ⟨.noSpace, nofun, rfl⟩
      | some slot =>
        by_cases hsize : 0 < cfg.snapSize
        · cases allocated with
          | false => exact Or.inl ⟨.noSpace, nofun, by simp [hsize]⟩
          | true =>
            refine Or.inr (Or.inr ⟨slot, _, rfl, rfl, by simpa using hvalid, rfl, ?_⟩)
            simp [hsize]
        · cases hgetter : cfg.snapshot with
          | false => exact Or.inl ⟨.invalidArg, nofun, by simp [hsize]⟩
          | true =>
            refine Or.inr (Or.inr ⟨slot, _, rfl, rfl, by simpa using hvalid, rfl, ?_⟩)
            simp [hsize]

theorem Table.findEntry_fill {t : Table} {i : Nat} {k : Key} (hnew : t.entries.findEntry k = none)
    (hfree : t.entries.findFree = some i) (hk : k ≠ []) (e : Entry) :
    (t.fill i k e).entries.findEntry k = some i := by
  cases hfind : (t.fill i k e).entries.findEntry k with
  | none =>
    have hstored := (Table.stored_fill hfree hk e i k e).mpr (by simp)
    exact absurd hstored (Table.not_stored_of_findEntry hfind i e)
  | some j =>
    obtain ⟨e', hj⟩ := Table.stored_of_findEntry hfind
    rw [Table.stored_fill hfree hk] at hj
    by_cases hij : i = j
    · rw [hij]
    · rw [if_neg hij] at hj
      exact absurd hj (Table.not_stored_of_findEntry hnew j e')

theorem Table.findEntry_fill_nil {t : Table} {k : Key} (hnew : t.entries.findEntry k = none)
    {i : Nat} (hfree : t.entries.findFree = some i) (hk : k = []) (e : Entry) :
    (t.fill i k e).entries.findEntry k = none := by
  subst hk
  cases hfind : (t.fill i [] e).entries.findEntry [] with
  | none => rfl
  | some j =>
    obtain ⟨e', hj⟩ := Table.stored_of_findEntry hfind
    rw [Table.stored_fill_nil hfree] at hj
    exact absurd hj (Table.not_stored_of_findEntry hnew j e')

theorem Table.deleteIfGeneration_freed {t : Table} {key : Key} {gen : Nat} {id : EntryRef}
    (h : (t.deleteIfGeneration key gen).1 = some id) :
    ∃ slot, t.entries.findEntry key = some slot ∧ SameGeneration (t.generation slot) gen ∧
      id = t.refOf slot := by
  unfold Table.deleteIfGeneration at h
  split at h
  · cases h
  · rename_i slot hfind
    split at h
    · rename_i hgen
      cases h
      exact ⟨slot, hfind, hgen, rfl⟩
    · cases h

/-! ## One entry under its lock -/

/-- What `bb_cache_update` reports: `*out_changed`, and the version for its hook. -/
structure Updated where
  changed : Bool
  notified : Option UInt32
  deriving Repr, DecidableEq

/-- The sample time of an update: the caller's, or the clock. -/
def UpdateReq.stamp (req : UpdateReq) (now : Nat) : Int64 :=
  if req.tsMs ≠ 0 then req.tsMs else Int64.ofNat now

/-- A signed word read as an unsigned one. -/
theorem toUInt64_eq_emod (x : Int64) : (x.toUInt64.toNat : Int) = x.toInt % 2 ^ 64 := by
  have hint : x.toInt = x.toBitVec.toInt := rfl
  have hnat : x.toUInt64.toNat = x.toBitVec.toNat := rfl
  have hlt := x.toBitVec.isLt
  rw [hint, hnat, BitVec.toInt_eq_toNat_bmod, Int.bmod_def]
  split <;> omega

theorem toUInt64_ofNat_eq_emod (n : Nat) :
    ((Int64.ofNat n).toUInt64.toNat : Int) = (n : Int) % 2 ^ 64 := by
  have hword : (Int64.ofNat n).toUInt64 = UInt64.ofNat n := rfl
  rw [hword]
  simp

/-- The locked part of `bb_cache_update` on an entry that matched. -/
def Entry.update (e : Entry) (req : UpdateReq) (now : Nat) : Updated × Entry :=
  match e.owned with
  | none => ({ changed := false, notified := none }, e)
  | some old =>
    let new := copyOf e.size req.snap
    let version := e.stateVersion + 1
    ({ changed := !e.hasValue || new != old, notified := some (UInt32.ofNat version) },
      { e with owned := some new, hasValue := true, tsMs := req.stamp now,
               stateVersion := version })

/-- `bb_cache_evaluate_age`. -/
def evaluateAge (ageMs : UInt64) (staleAgeMs evictAgeMs : UInt32) : AgeState :=
  ageClassify ageMs.toNat staleAgeMs.toNat evictAgeMs.toNat

/-- The age test of `evict_if_aged_out_locked`. -/
def Entry.agedOut (e : Entry) (now : Nat) : Bool :=
  if e.eviction.policy ≠ .ageOut then false
  else
    let age := UInt64.ofNat now - e.tsMs.toUInt64
    evaluateAge age e.eviction.staleAgeMs e.eviction.evictAgeMs = .evict

/-- `maybe_seed_fallback`; `snap` is what the getter returns if it is called. -/
def Entry.maybeSeedFallback (e : Entry) (snap : Option Memory) (now : Nat) : Entry :=
  if e.snapshot = false then e
  else if e.hasValue || e.fallbackSeeded then e
  else
    match snap with
    | some src =>
      { e with owned := some (copyOf e.size src), tsMs := Int64.ofNat now,
               fallbackSeeded := true }
    | none => { e with fallbackSeeded := true }

/-- The bytes, size and version `copy_owned_and_capture_locked` hands out. -/
structure Captured where
  bytes : Bytes
  size : Nat
  version : UInt32
  deriving Repr, DecidableEq

/-- `copy_owned_and_capture_locked`. -/
def Entry.copyOwnedAndCapture (e : Entry) (cap : Nat) (snap : Option Memory) (now : Nat) :
    Except BbErr Captured × Entry :=
  if e.owned = none then (.error .invalidState, e)
  else if cap < e.size then (.error .noSpace, e)
  else
    let seeded := e.maybeSeedFallback snap now
    (.ok { bytes := seeded.owned.getD [], size := seeded.size,
           version := UInt32.ofNat seeded.stateVersion }, seeded)

end Cache
end Breadboard
