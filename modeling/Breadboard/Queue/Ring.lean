import Breadboard.Core.Basics

/-!
# bb_queue - the ring buffer

A circular buffer of variable-length entries with an entry capacity, an
optional byte budget, an optional maximum age, and one of two policies for a
full ring.  The metadata array and the payload buffer of the C struct are one
slot array here: slot `i` holds the id, the timestamp and the payload
bytes of entry `i`.

Each entry also carries a `tag`.  No operation reads it: it is provenance
for the proofs about what becomes of an entry.
-/

namespace Breadboard
namespace Queue

/-- `bb_queue_full_policy_t`. -/
inductive FullPolicy where
  | evictOldest
  | rejectNew
  deriving Repr, DecidableEq

/-- `bb_queue_cfg_t`; a `maxBytes` or `maxAge` of zero disables that limit. -/
structure QueueCfg where
  capacityEntries : Nat
  maxEntryBytes : Nat
  policy : FullPolicy
  maxBytes : Nat
  maxAge : Nat
  deriving Repr, DecidableEq

/-- One slot: metadata and payload, with the proof-only tag. -/
structure Entry (γ : Type) where
  id : UInt32
  ts : Int
  data : Bytes
  tag : γ
  deriving Repr, DecidableEq

/-- The stored length of an entry. -/
def Entry.len {γ : Type} (e : Entry γ) : Nat :=
  e.data.length

variable {γ : Type}

/-- `struct bb_queue`. -/
structure Ring (γ : Type) where
  capacity : Nat
  maxEntry : Nat
  slots : Nat → Entry γ
  head : Nat
  tail : Nat
  count : Nat
  bytesUsed : Nat
  dropped : Nat
  truncated : Nat
  maxBytes : Nat
  maxAge : Nat
  policy : FullPolicy

namespace Ring

/-- `bb_queue_create`; `blank` is the content of a zeroed slot. -/
def create (cfg : QueueCfg) (blank : Entry γ) : Except BbErr (Ring γ) :=
  if cfg.capacityEntries = 0 ∨ cfg.maxEntryBytes = 0 then
    .error .invalidArg
  else if 0 < cfg.maxBytes ∧ cfg.maxBytes < cfg.maxEntryBytes then
    .error .invalidArg
  else
    .ok
      { capacity := cfg.capacityEntries
        maxEntry := cfg.maxEntryBytes
        slots := fun _ => blank
        head := 0
        tail := 0
        count := 0
        bytesUsed := 0
        dropped := 0
        truncated := 0
        maxBytes := cfg.maxBytes
        maxAge := cfg.maxAge
        policy := cfg.policy }

/-- `bb_queue_bytes_used_sub`: subtraction clamped at zero. -/
def bytesUsedSub (bytesUsed len : Nat) : Nat :=
  if len ≤ bytesUsed then bytesUsed - len else 0

/-- Remove the oldest entry and count it as dropped: the body of both eviction loops. -/
def evictOne (r : Ring γ) : Ring γ :=
  { r with
    bytesUsed := bytesUsedSub r.bytesUsed (r.slots r.tail).len
    tail := (r.tail + 1) % r.capacity
    count := r.count - 1
    dropped := r.dropped + 1 }

/-- The loop of `bb_queue_evict_aged`, bounded by the live entry count. -/
def evictAgedLoop (now : Int) : Nat → Ring γ → Ring γ
  | 0, r => r
  | fuel + 1, r =>
    let age := (now - (r.slots r.tail).ts).toNat
    if ageClassify age 0 r.maxAge = .evict then evictAgedLoop now fuel (evictOne r) else r

/-- `bb_queue_evict_aged`: a negative age counts as zero. -/
def evictAged (r : Ring γ) (now : Int) : Ring γ :=
  if r.maxAge = 0 then r else evictAgedLoop now r.count r

/-- Space is exhausted for `len` more bytes: `over_capacity || over_bytes`. -/
def noRoomFor (r : Ring γ) (len : Nat) : Bool :=
  r.count = r.capacity ∨ (0 < r.maxBytes ∧ r.maxBytes < r.bytesUsed + len)

/-- The evict-oldest loop of `bb_queue_push`, bounded by the live entry count. -/
def evictForLoop (len : Nat) : Nat → Ring γ → Ring γ
  | 0, r => r
  | fuel + 1, r => if r.noRoomFor len then evictForLoop len fuel (evictOne r) else r

/-- The final part of `bb_queue_push`: write at the head taken before eviction. -/
def writeAt (r : Ring γ) (writeIdx : Nat) (e : Entry γ) : Ring γ :=
  { r with
    count := r.count + 1
    slots := Function.update r.slots writeIdx e
    bytesUsed := r.bytesUsed + e.len
    head := (r.head + 1) % r.capacity }

/-- `bb_queue_push`: the status code and the ring after the call. -/
def push (r : Ring γ) (e : Entry γ) : BbErr × Ring γ :=
  if r.maxEntry < e.len then
    (.invalidArg, { r with truncated := r.truncated + 1 })
  else
    let aged := if 0 < r.maxAge then r.evictAged e.ts else r
    if aged.noRoomFor e.len ∧ aged.policy = .rejectNew then
      (.noSpace, { aged with dropped := aged.dropped + 1 })
    else
      (.ok, (evictForLoop e.len aged.count aged).writeAt aged.head e)

/-- `bb_queue_peek_at`. -/
def peekAt (r : Ring γ) (index : Nat) : Except BbErr (Entry γ) :=
  if r.count = 0 ∨ r.count ≤ index then .error .notFound
  else .ok (r.slots ((r.tail + index) % r.capacity))

/-- `bb_queue_peek_oldest`. -/
def peekOldest (r : Ring γ) : Except BbErr (Entry γ) :=
  if r.count = 0 then .error .notFound else .ok (r.slots r.tail)

/-- `bb_queue_pop_oldest`: the ring is unchanged when it is empty. -/
def popOldest (r : Ring γ) : Ring γ :=
  if r.count = 0 then r
  else
    { r with
      bytesUsed := bytesUsedSub r.bytesUsed (r.slots r.tail).len
      tail := (r.tail + 1) % r.capacity
      count := r.count - 1 }

end Ring
end Queue
end Breadboard
