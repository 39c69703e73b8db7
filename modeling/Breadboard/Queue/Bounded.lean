import Breadboard.Queue.Contents

/-!
# bb_queue - rings that carry their invariant

The rings of this development are all evict-oldest rings without a maximum age.
`BoundedRing` packages such a ring with its representation invariant and
its limits, so that every later proof works on the contents alone.

Main results:

- Theorem `BoundedRing.push_contents`: the bounded-FIFO reading of a push.
- Theorem `BoundedRing.push_contents_of_hasRoom`: after the caller-side room
  check a push only appends.
-/

namespace Breadboard
namespace Queue

open Foundations

/-- The limits of an evict-oldest ring without age eviction. -/
structure Limits where
  capacityEntries : Nat
  maxEntryBytes : Nat
  maxBytes : Nat
  deriving Repr, DecidableEq

/-- The ring configuration with these limits. -/
def Limits.toCfg (lim : Limits) : QueueCfg :=
  { capacityEntries := lim.capacityEntries
    maxEntryBytes := lim.maxEntryBytes
    policy := .evictOldest
    maxBytes := lim.maxBytes
    maxAge := 0 }

/-- A ring together with its representation invariant and its fixed limits. -/
structure BoundedRing (γ : Type) (lim : Limits) where
  ring : Ring γ
  wellFormed : ring.WellFormed
  capacity_eq : ring.capacity = lim.capacityEntries
  maxEntry_eq : ring.maxEntry = lim.maxEntryBytes
  maxBytes_eq : ring.maxBytes = lim.maxBytes

namespace BoundedRing

variable {γ : Type} {lim : Limits}

/-- `bb_queue_create` with the given limits. -/
def create (lim : Limits) (blank : Entry γ) : Except BbErr (BoundedRing γ lim) :=
  match h : Ring.create lim.toCfg blank with
  | .error e => .error e
  | .ok r =>
    .ok
      { ring := r
        wellFormed := Ring.create_wellFormed rfl rfl h
        capacity_eq := (Ring.create_limits h).1
        maxEntry_eq := (Ring.create_limits h).2.1
        maxBytes_eq := (Ring.create_limits h).2.2 }

/-- The live entries, oldest first. -/
def contents (q : BoundedRing γ lim) : List (Entry γ) :=
  q.ring.contents

/-- `bb_queue_count`. -/
def count (q : BoundedRing γ lim) : Nat :=
  q.ring.count

/-- `bb_queue_bytes_used`. -/
def bytesUsed (q : BoundedRing γ lim) : Nat :=
  q.ring.bytesUsed

/-- `bb_queue_push`. -/
def push (q : BoundedRing γ lim) (e : Entry γ) : BoundedRing γ lim where
  ring := (q.ring.push e).2
  wellFormed := Ring.push_wellFormed q.wellFormed e
  capacity_eq := (Ring.push_limits q.wellFormed e).1.trans q.capacity_eq
  maxEntry_eq := (Ring.push_limits q.wellFormed e).2.1.trans q.maxEntry_eq
  maxBytes_eq := (Ring.push_limits q.wellFormed e).2.2.trans q.maxBytes_eq

/-- `bb_queue_pop_oldest`. -/
def popOldest (q : BoundedRing γ lim) : BoundedRing γ lim where
  ring := q.ring.popOldest
  wellFormed := Ring.popOldest_wellFormed q.wellFormed
  capacity_eq := (Ring.popOldest_limits q.ring).1.trans q.capacity_eq
  maxEntry_eq := (Ring.popOldest_limits q.ring).2.1.trans q.maxEntry_eq
  maxBytes_eq := (Ring.popOldest_limits q.ring).2.2.trans q.maxBytes_eq

/-- `bb_queue_peek_oldest`. -/
def peekOldest (q : BoundedRing γ lim) : Except BbErr (Entry γ) :=
  q.ring.peekOldest

/-- `bb_queue_peek_at`. -/
def peekAt (q : BoundedRing γ lim) (index : Nat) : Except BbErr (Entry γ) :=
  q.ring.peekAt index

/-- A caller's check that `len` bytes fit without eviction, under its byte budget. -/
def hasRoom (q : BoundedRing γ lim) (len budget : Nat) : Bool :=
  if q.ring.capacity ≤ q.count then false else q.bytesUsed + len ≤ budget

/-- The entries a push of `len` bytes would evict. -/
def evicted (q : BoundedRing γ lim) (len : Nat) : List (Entry γ) :=
  BoundedFifo.evictedFor Entry.len lim.capacityEntries lim.maxBytes len q.contents

/-- The entries a push of `len` bytes keeps. -/
def kept (q : BoundedRing γ lim) (len : Nat) : List (Entry γ) :=
  BoundedFifo.makeRoom Entry.len lim.capacityEntries lim.maxBytes len q.contents

/-! ## Contents of each operation -/

@[simp] theorem length_contents (q : BoundedRing γ lim) : q.contents.length = q.count :=
  Ring.length_contents q.ring

theorem bytesUsed_eq (q : BoundedRing γ lim) :
    q.bytesUsed = BoundedFifo.totalWeight Entry.len q.contents :=
  q.wellFormed.bytesUsed_eq

theorem entry_len_le (q : BoundedRing γ lim) {e : Entry γ} (he : e ∈ q.contents) :
    e.len ≤ lim.maxEntryBytes :=
  q.maxEntry_eq ▸ q.wellFormed.entries_le e he

theorem count_le (q : BoundedRing γ lim) : q.count ≤ lim.capacityEntries :=
  q.capacity_eq ▸ q.wellFormed.count_le

@[simp] theorem create_contents {blank : Entry γ} {q : BoundedRing γ lim}
    (h : create lim blank = .ok q) : q.contents = [] := by
  unfold create at h
  split at h
  · cases h
  · rename_i r hr
    cases h
    exact Ring.create_contents hr

/-- Creation succeeds exactly for limits that can hold an entry of the maximum size. -/
theorem create_isOk (lim : Limits) (blank : Entry γ) (hcap : 0 < lim.capacityEntries)
    (hentry : 0 < lim.maxEntryBytes) (hmax : 0 < lim.maxBytes → lim.maxEntryBytes ≤ lim.maxBytes)
    (err : BbErr) : create lim blank ≠ .error err := by
  intro h
  unfold create at h
  split at h
  · rename_i e he
    unfold Ring.create at he
    split at he
    · rename_i hzero
      simp only [Limits.toCfg] at hzero
      omega
    split at he
    · rename_i hbudget
      simp only [Limits.toCfg] at hbudget
      have := hmax hbudget.1
      omega
    · cases he
  · cases h

/-- A push evicts what it must, keeps the rest in order, and appends the new entry. -/
theorem push_contents (q : BoundedRing γ lim) {e : Entry γ} (hlen : e.len ≤ lim.maxEntryBytes) :
    (q.push e).contents = q.kept e.len ++ [e] := by
  have hspec := (Ring.push_spec q.wellFormed (q.maxEntry_eq ▸ hlen)).2.2.1
  rwa [q.capacity_eq, q.maxBytes_eq] at hspec

/-- Evicted and kept entries are the contents before the push. -/
theorem evicted_append_kept (q : BoundedRing γ lim) (len : Nat) :
    q.evicted len ++ q.kept len = q.contents :=
  BoundedFifo.evictedFor_append_makeRoom len q.contents

/-- The room check implies that nothing needs to be evicted. -/
theorem fits_of_hasRoom {q : BoundedRing γ lim} {len budget : Nat}
    (hbudget : 0 < lim.maxBytes → budget ≤ lim.maxBytes) (h : q.hasRoom len budget = true) :
    BoundedFifo.Fits Entry.len lim.capacityEntries lim.maxBytes q.contents len := by
  unfold hasRoom at h
  split at h
  · cases h
  · rename_i hcap
    have hbytes : q.bytesUsed + len ≤ budget := by simpa using h
    rw [q.capacity_eq] at hcap
    rw [q.bytesUsed_eq] at hbytes
    exact ⟨by simpa using hcap, fun hmax => by have := hbudget hmax; omega⟩

/-- A push that passed the room check only appends. -/
theorem push_contents_of_hasRoom (q : BoundedRing γ lim) {e : Entry γ} {budget : Nat}
    (hlen : e.len ≤ lim.maxEntryBytes) (hbudget : 0 < lim.maxBytes → budget ≤ lim.maxBytes)
    (h : q.hasRoom e.len budget = true) : (q.push e).contents = q.contents ++ [e] := by
  rw [push_contents q hlen, kept, BoundedFifo.makeRoom_of_fits (fits_of_hasRoom hbudget h)]

@[simp] theorem popOldest_contents (q : BoundedRing γ lim) :
    q.popOldest.contents = q.contents.tail :=
  Ring.popOldest_contents q.wellFormed.valid

theorem peekOldest_ok_iff (q : BoundedRing γ lim) (e : Entry γ) :
    q.peekOldest = .ok e ↔ q.contents.head? = some e := by
  have hpeek : q.peekOldest = (q.contents.head?).elim (.error .notFound) .ok :=
    Ring.peekOldest_eq q.wellFormed.valid
  rw [hpeek]
  cases q.contents.head? <;> simp

theorem peekAt_ok_iff (q : BoundedRing γ lim) (index : Nat) (e : Entry γ) :
    q.peekAt index = .ok e ↔ q.contents[index]? = some e := by
  have hpeek : q.peekAt index = (q.contents[index]?).elim (.error .notFound) .ok :=
    Ring.peekAt_eq q.ring index
  rw [hpeek]
  cases q.contents[index]? <;> simp

end BoundedRing
end Queue
end Breadboard
