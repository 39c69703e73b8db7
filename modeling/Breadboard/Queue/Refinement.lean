import Mathlib.Logic.Function.Iterate
import Breadboard.Foundations.Runs
import Breadboard.Queue.Contents

/-!
# bb_queue - refinement of a bounded list

The whole call interface of a ring, for either policy and with any byte budget
and maximum age, against a list of entries with three counters.  The list says
what the ring is for: a push drops the expired prefix, then makes room or is
refused; everything else reads or shortens the list.

Main results:

- Theorem `exec_refines`: one call.
- Theorem `queue_refines_fifo`: every run of calls on a created ring.
-/

namespace Breadboard
namespace Queue

open Foundations

variable {γ : Type}

/-- The calls on a ring; `bufCap` is the room in the caller's buffer, 0 without one. -/
inductive Op (γ : Type) where
  | push (e : Entry γ)
  | popOldest
  | peekOldest (bufCap : Nat)
  | peekAt (index bufCap : Nat)
  | evictExpired (now : Int)
  | clear
  deriving Repr, DecidableEq

/-- What a call reports to its caller. -/
inductive Reply where
  | status (err : BbErr)
  | found (len : Nat) (ts : Int) (id : UInt32) (buf : Bytes)
  | evicted (n : Nat)
  | none
  deriving Repr, DecidableEq

/-- The out-parameters of a peek: the payload is cut to the caller's buffer. -/
def Reply.ofPeek (bufCap : Nat) : Except BbErr (Entry γ) → Reply
  | .error err => .status err
  | .ok e => .found e.len e.ts e.id (e.data.take bufCap)

/-! ## The ring under its calls -/

namespace Ring

/-- `bb_queue_pop_oldest` with its status. -/
def pop (r : Ring γ) : BbErr × Ring γ :=
  if r.count = 0 then (.notFound, r) else (.ok, r.popOldest)

/-- The `evicted` counter of the loop of `bb_queue_evict_aged`. -/
def evictAgedCount (now : Int) : Nat → Ring γ → Nat
  | 0, _ => 0
  | fuel + 1, r =>
    let age := (now - (r.slots r.tail).ts).toNat
    if ageClassify age 0 r.maxAge = .evict then evictAgedCount now fuel (evictOne r) + 1 else 0

/-- `bb_queue_evict_expired`: the number of entries evicted and the ring after the call. -/
def evictExpired (r : Ring γ) (now : Int) : Nat × Ring γ :=
  (if r.maxAge = 0 then 0 else evictAgedCount now r.count r, r.evictAged now)

/-- `bb_queue_clear`: the cumulative counters stay. -/
def clear (r : Ring γ) : Ring γ :=
  { r with head := 0, tail := 0, count := 0, bytesUsed := 0 }

/-- One call on a ring. -/
def exec (r : Ring γ) : Op γ → Reply × Ring γ
  | .push e => (.status (r.push e).1, (r.push e).2)
  | .popOldest => (.status r.pop.1, r.pop.2)
  | .peekOldest bufCap => (.ofPeek bufCap r.peekOldest, r)
  | .peekAt index bufCap => (.ofPeek bufCap (r.peekAt index), r)
  | .evictExpired now => (.evicted (r.evictExpired now).1, (r.evictExpired now).2)
  | .clear => (.none, r.clear)

end Ring

/-! ## The bounded list -/

/-- An entry has reached the maximum age; a maximum age of zero is none. -/
def Expired (maxAge : Nat) (now : Int) (e : Entry γ) : Prop :=
  0 < maxAge ∧ maxAge ≤ (now - e.ts).toNat

instance (maxAge : Nat) (now : Int) (e : Entry γ) : Decidable (Expired maxAge now e) :=
  inferInstanceAs (Decidable (_ ∧ _))

/-- The abstract store: the live entries, oldest first, and what was lost on the way. -/
structure Fifo (γ : Type) where
  entries : List (Entry γ)
  evictions : Nat
  refusals : Nat
  oversized : Nat

namespace Fifo

/-- The store after creation. -/
def empty : Fifo γ :=
  { entries := [], evictions := 0, refusals := 0, oversized := 0 }

/-- Remove the expired prefix. -/
def expire (cfg : QueueCfg) (q : Fifo γ) (now : Int) : Fifo γ :=
  { q with
    entries := q.entries.dropWhile fun e => Expired cfg.maxAge now e
    evictions := q.evictions + (q.entries.takeWhile fun e => Expired cfg.maxAge now e).length }

/-- Append an entry after removing the shortest prefix that makes room for it. -/
def append (cfg : QueueCfg) (q : Fifo γ) (e : Entry γ) : Fifo γ :=
  { q with
    entries :=
      BoundedFifo.makeRoom Entry.len cfg.capacityEntries cfg.maxBytes e.len q.entries ++ [e]
    evictions := q.evictions +
      (BoundedFifo.evictedFor Entry.len cfg.capacityEntries cfg.maxBytes e.len q.entries).length }

/-- A push: oversized entries are turned away before anything else happens. -/
def push (cfg : QueueCfg) (q : Fifo γ) (e : Entry γ) : BbErr × Fifo γ :=
  if cfg.maxEntryBytes < e.len then
    (.invalidArg, { q with oversized := q.oversized + 1 })
  else
    let live := q.expire cfg e.ts
    if cfg.policy = .rejectNew ∧
        ¬ BoundedFifo.Fits Entry.len cfg.capacityEntries cfg.maxBytes live.entries e.len then
      (.noSpace, { live with refusals := live.refusals + 1 })
    else
      (.ok, live.append cfg e)

/-- The entry at a position of the list. -/
def lookup (q : Fifo γ) (index : Nat) : Except BbErr (Entry γ) :=
  (q.entries[index]?).elim (.error .notFound) .ok

/-- One call on the list. -/
def exec (cfg : QueueCfg) (q : Fifo γ) : Op γ → Reply × Fifo γ
  | .push e => (.status (q.push cfg e).1, (q.push cfg e).2)
  | .popOldest =>
    (.status (if q.entries = [] then .notFound else .ok), { q with entries := q.entries.tail })
  | .peekOldest bufCap => (.ofPeek bufCap (q.lookup 0), q)
  | .peekAt index bufCap => (.ofPeek bufCap (q.lookup index), q)
  | .evictExpired now =>
    (.evicted (q.entries.takeWhile fun e => Expired cfg.maxAge now e).length, q.expire cfg now)
  | .clear => (.none, { q with entries := [] })

end Fifo

/-! ## The age loop removes the expired prefix -/

namespace Ring

variable {r : Ring γ}

theorem classify_evict_iff (hage : 0 < r.maxAge) (now : Int) (e : Entry γ) :
    ageClassify (now - e.ts).toNat 0 r.maxAge = .evict ↔ Expired r.maxAge now e := by
  unfold ageClassify Expired
  split <;> simp_all

theorem evictAgedLoop_evicts (hv : r.Valid) (hage : 0 < r.maxAge) (now : Int) (fuel : Nat)
    (hfuel : fuel = r.count) :
    Evicts r (evictAgedLoop now fuel r)
        (r.contents.takeWhile fun e => Expired r.maxAge now e)
        (r.contents.dropWhile fun e => Expired r.maxAge now e) ∧
      evictAgedCount now fuel r =
        (r.contents.takeWhile fun e => Expired r.maxAge now e).length := by
  induction fuel generalizing r with
  | zero =>
    have hnil : r.contents = [] := by
      apply List.eq_nil_of_length_eq_zero
      rw [length_contents, ← hfuel]
    have hnone := Evicts.none hv
    rw [hnil] at hnone ⊢
    exact ⟨hnone, rfl⟩
  | succ fuel ih =>
    have hpos : 0 < r.count := by omega
    have hcons := contents_eq_cons hv hpos
    unfold evictAgedLoop evictAgedCount
    simp only [classify_evict_iff hage]
    by_cases hexp : Expired r.maxAge now (r.slots r.tail)
    · obtain ⟨hev, hcount⟩ := ih (evictOne_valid hv hpos) hage (by simp [← hfuel])
      have hall := hev.cons hv hpos
      rw [if_pos hexp, if_pos hexp, hcons, List.takeWhile_cons_of_pos (by simpa using hexp),
        List.dropWhile_cons_of_pos (by simpa using hexp)]
      exact ⟨hall, by rw [hcount]; rfl⟩
    · have hnone := Evicts.none hv
      rw [if_neg hexp, if_neg hexp, hcons, List.takeWhile_cons_of_neg (by simpa using hexp),
        List.dropWhile_cons_of_neg (by simpa using hexp), ← hcons]
      exact ⟨hnone, rfl⟩

/-- Without a maximum age nothing is expired. -/
theorem not_expired_of_maxAge_eq_zero {maxAge : Nat} (hage : maxAge = 0) (now : Int)
    (e : Entry γ) : ¬ Expired maxAge now e := by
  rintro ⟨hpos, _⟩
  omega

theorem evictExpired_evicts (hv : r.Valid) (now : Int) :
    Evicts r (r.evictAged now)
        (r.contents.takeWhile fun e => Expired r.maxAge now e)
        (r.contents.dropWhile fun e => Expired r.maxAge now e) ∧
      (r.evictExpired now).1 =
        (r.contents.takeWhile fun e => Expired r.maxAge now e).length := by
  by_cases hage : r.maxAge = 0
  · have hnot (e : Entry γ) : decide (Expired r.maxAge now e) = false := by
      simpa using not_expired_of_maxAge_eq_zero hage now e
    have htake (l : List (Entry γ)) : l.takeWhile (fun _ => false) = [] := by
      cases l <;> rfl
    have hdrop (l : List (Entry γ)) : l.dropWhile (fun _ => false) = l := by
      cases l <;> rfl
    simp only [evictExpired, evictAged, if_pos hage, hnot, htake, hdrop]
    exact ⟨.none hv, rfl⟩
  · have hloop := evictAgedLoop_evicts hv (Nat.pos_of_ne_zero hage) now r.count rfl
    simpa only [evictExpired, evictAged, if_neg hage] using hloop

/-- The check of the maximum age before the age sweep of a push is no test of its own. -/
theorem aged_eq (r : Ring γ) (now : Int) :
    (if 0 < r.maxAge then r.evictAged now else r) = r.evictAged now := by
  split
  · rfl
  · rename_i hage
    rw [evictAged, if_pos (by omega)]

theorem clear_valid (hv : r.Valid) : r.clear.Valid where
  capacity_pos := hv.capacity_pos
  count_le := Nat.zero_le _
  tail_lt := hv.capacity_pos
  head_eq := (Nat.zero_mod _).symm
  bytesUsed_eq := by simp [clear, contents]
  bytes_le := fun _ => Nat.zero_le _
  entry_le := hv.entry_le
  entries_le := by simp [clear, contents]

/-! ## The clamp of the byte count -/

/-- The bytes of the oldest entry are covered by the byte count. -/
def ClampIdle (r : Ring γ) : Prop :=
  0 < r.count → (r.slots r.tail).len ≤ r.bytesUsed

theorem Valid.clampIdle (hv : r.Valid) : r.ClampIdle := by
  intro hpos
  have hbytes := (evictOne_bytesUsed hv hpos).1
  omega

/-- However many oldest entries are removed, the clamp stays idle. -/
theorem Valid.clampIdle_iterate (hv : r.Valid) {k : Nat} (hk : k ≤ r.count) :
    (evictOne^[k] r).ClampIdle := by
  have hinv : (evictOne^[k] r).Valid ∧ (evictOne^[k] r).count = r.count - k := by
    induction k with
    | zero => exact ⟨hv, rfl⟩
    | succ k ih =>
      obtain ⟨hvalid, hcount⟩ := ih (by omega)
      rw [Function.iterate_succ_apply']
      refine ⟨evictOne_valid hvalid (by omega), ?_⟩
      rw [evictOne_count, hcount]
      omega
  exact hinv.1.clampIdle

end Ring

/-! ## The refinement -/

/-- A ring represents a store of its configuration. -/
structure Represents (cfg : QueueCfg) (r : Ring γ) (q : Fifo γ) : Prop where
  valid : r.Valid
  contents_eq : r.contents = q.entries
  capacity_eq : r.capacity = cfg.capacityEntries
  maxEntry_eq : r.maxEntry = cfg.maxEntryBytes
  maxBytes_eq : r.maxBytes = cfg.maxBytes
  maxAge_eq : r.maxAge = cfg.maxAge
  policy_eq : r.policy = cfg.policy
  dropped_eq : r.dropped = q.evictions + q.refusals
  truncated_eq : r.truncated = q.oversized

variable {cfg : QueueCfg} {r : Ring γ} {q : Fifo γ}

namespace Represents

theorem count_eq (h : Represents cfg r q) : r.count = q.entries.length := by
  rw [← h.contents_eq, Ring.length_contents]

/-- An eviction loop of the ring against the removal of the same prefix from the list. -/
theorem of_evicts (h : Represents cfg r q) {r' : Ring γ} {gone kept : List (Entry γ)}
    (hev : Ring.Evicts r r' gone kept) :
    Represents cfg r'
      { q with entries := kept, evictions := q.evictions + gone.length } where
  valid := hev.valid
  contents_eq := hev.contents_eq
  capacity_eq := hev.limits.capacity_eq.trans h.capacity_eq
  maxEntry_eq := hev.limits.maxEntry_eq.trans h.maxEntry_eq
  maxBytes_eq := hev.limits.maxBytes_eq.trans h.maxBytes_eq
  maxAge_eq := hev.limits.maxAge_eq.trans h.maxAge_eq
  policy_eq := hev.limits.policy_eq.trans h.policy_eq
  dropped_eq := by
    rw [hev.dropped_eq, h.dropped_eq]
    simp only
    omega
  truncated_eq := hev.truncated_eq.trans h.truncated_eq

theorem evictAged (h : Represents cfg r q) (now : Int) :
    Represents cfg (r.evictAged now) (q.expire cfg now) := by
  have hev := (Ring.evictExpired_evicts h.valid now).1
  rw [h.contents_eq, h.maxAge_eq] at hev
  exact h.of_evicts hev

/-- Making room and writing the entry at the head appends it. -/
theorem append (h : Represents cfg r q) {e : Entry γ} (hlen : e.len ≤ cfg.maxEntryBytes) :
    Represents cfg ((Ring.evictForLoop e.len r.count r).writeAt r.head e) (q.append cfg e) := by
  have hev := Ring.evictForLoop_evicts e.len h.valid r.count rfl
  have hspec := Ring.evict_writeAt_spec h.valid (h.maxEntry_eq ▸ hlen)
  have hroom := h.of_evicts hev
  rw [h.contents_eq, h.capacity_eq, h.maxBytes_eq] at hspec hroom
  exact
    { valid := hspec.1
      contents_eq := hspec.2
      capacity_eq := hroom.capacity_eq
      maxEntry_eq := hroom.maxEntry_eq
      maxBytes_eq := hroom.maxBytes_eq
      maxAge_eq := hroom.maxAge_eq
      policy_eq := hroom.policy_eq
      dropped_eq := hroom.dropped_eq
      truncated_eq := hroom.truncated_eq }

/-- An oversized push only counts. -/
theorem oversized (h : Represents cfg r q) :
    Represents cfg { r with truncated := r.truncated + 1 }
      { q with oversized := q.oversized + 1 } where
  valid := have hv := h.valid; ⟨hv.1, hv.2, hv.3, hv.4, hv.5, hv.6, hv.7, hv.8⟩
  contents_eq := h.contents_eq
  capacity_eq := h.capacity_eq
  maxEntry_eq := h.maxEntry_eq
  maxBytes_eq := h.maxBytes_eq
  maxAge_eq := h.maxAge_eq
  policy_eq := h.policy_eq
  dropped_eq := h.dropped_eq
  truncated_eq := congrArg (· + 1) h.truncated_eq

/-- So does a refused one. -/
theorem refused (h : Represents cfg r q) :
    Represents cfg { r with dropped := r.dropped + 1 } { q with refusals := q.refusals + 1 } where
  valid := have hv := h.valid; ⟨hv.1, hv.2, hv.3, hv.4, hv.5, hv.6, hv.7, hv.8⟩
  contents_eq := h.contents_eq
  capacity_eq := h.capacity_eq
  maxEntry_eq := h.maxEntry_eq
  maxBytes_eq := h.maxBytes_eq
  maxAge_eq := h.maxAge_eq
  policy_eq := h.policy_eq
  dropped_eq := congrArg (· + 1) h.dropped_eq
  truncated_eq := h.truncated_eq

theorem push (h : Represents cfg r q) (e : Entry γ) :
    (r.push e).1 = (q.push cfg e).1 ∧ Represents cfg (r.push e).2 (q.push cfg e).2 := by
  by_cases hlen : cfg.maxEntryBytes < e.len
  · rw [Ring.push_of_too_long (h.maxEntry_eq ▸ hlen), Fifo.push, if_pos hlen]
    exact ⟨rfl, h.oversized⟩
  · have hring : ¬ r.maxEntry < e.len := h.maxEntry_eq ▸ hlen
    have haged := h.evictAged e.ts
    have hfull : ((r.evictAged e.ts).noRoomFor e.len = true ∧
        (r.evictAged e.ts).policy = .rejectNew) ↔
        (cfg.policy = .rejectNew ∧ ¬ BoundedFifo.Fits Entry.len cfg.capacityEntries cfg.maxBytes
          (q.expire cfg e.ts).entries e.len) := by
      have hfits := Ring.noRoomFor_eq_false_iff haged.valid e.len
      rw [haged.contents_eq, haged.capacity_eq, haged.maxBytes_eq] at hfits
      rw [← hfits, haged.policy_eq, Bool.not_eq_false, and_comm]
    rw [Ring.push, Fifo.push, if_neg hring, if_neg hlen]
    dsimp only
    rw [Ring.aged_eq]
    simp only [hfull]
    split
    · exact ⟨rfl, haged.refused⟩
    · exact ⟨rfl, haged.append (Nat.not_lt.mp hlen)⟩

theorem pop (h : Represents cfg r q) :
    r.pop.1 = (if q.entries = [] then .notFound else .ok) ∧
      Represents cfg r.pop.2 { q with entries := q.entries.tail } := by
  have hlimits := Ring.popOldest_sameLimits r
  have hcontents := Ring.popOldest_contents h.valid
  have hcount : r.count = 0 ↔ q.entries = [] := by
    rw [h.count_eq, List.length_eq_zero_iff]
  have hring : r.pop.2 = r.popOldest := by
    unfold Ring.pop Ring.popOldest
    split <;> rfl
  have hcounters : r.popOldest.dropped = r.dropped ∧ r.popOldest.truncated = r.truncated := by
    unfold Ring.popOldest
    split <;> exact ⟨rfl, rfl⟩
  refine ⟨?_, ?_⟩
  · unfold Ring.pop
    simp only [hcount]
    split <;> rfl
  · rw [hring]
    exact
      { valid := Ring.popOldest_valid h.valid
        contents_eq := by rw [hcontents, h.contents_eq]
        capacity_eq := hlimits.capacity_eq.trans h.capacity_eq
        maxEntry_eq := hlimits.maxEntry_eq.trans h.maxEntry_eq
        maxBytes_eq := hlimits.maxBytes_eq.trans h.maxBytes_eq
        maxAge_eq := hlimits.maxAge_eq.trans h.maxAge_eq
        policy_eq := hlimits.policy_eq.trans h.policy_eq
        dropped_eq := hcounters.1.trans h.dropped_eq
        truncated_eq := hcounters.2.trans h.truncated_eq }

theorem clear (h : Represents cfg r q) : Represents cfg r.clear { q with entries := [] } where
  valid := Ring.clear_valid h.valid
  contents_eq := rfl
  capacity_eq := h.capacity_eq
  maxEntry_eq := h.maxEntry_eq
  maxBytes_eq := h.maxBytes_eq
  maxAge_eq := h.maxAge_eq
  policy_eq := h.policy_eq
  dropped_eq := h.dropped_eq
  truncated_eq := h.truncated_eq

/-- A positional read of the ring is a lookup in the list. -/
theorem peekAt_eq (h : Represents cfg r q) (index : Nat) : r.peekAt index = q.lookup index := by
  rw [Ring.peekAt_eq, h.contents_eq]
  rfl

theorem peekOldest_eq (h : Represents cfg r q) : r.peekOldest = q.lookup 0 := by
  rw [Ring.peekOldest_eq h.valid, h.contents_eq, List.head?_eq_getElem?]
  rfl

/-- Every call answers as on the list and keeps the ring representing it. -/
theorem exec_refines (h : Represents cfg r q) (op : Op γ) :
    (r.exec op).1 = (q.exec cfg op).1 ∧ Represents cfg (r.exec op).2 (q.exec cfg op).2 := by
  cases op with
  | push e =>
    obtain ⟨hstatus, hnext⟩ := h.push e
    exact ⟨congrArg Reply.status hstatus, hnext⟩
  | popOldest =>
    obtain ⟨hstatus, hnext⟩ := h.pop
    exact ⟨congrArg Reply.status hstatus, hnext⟩
  | peekOldest bufCap => exact ⟨congrArg (Reply.ofPeek bufCap) h.peekOldest_eq, h⟩
  | peekAt index bufCap => exact ⟨congrArg (Reply.ofPeek bufCap) (h.peekAt_eq index), h⟩
  | evictExpired now =>
    have hcount := (Ring.evictExpired_evicts h.valid now).2
    rw [h.contents_eq, h.maxAge_eq] at hcount
    exact ⟨congrArg Reply.evicted hcount, h.evictAged now⟩
  | clear => exact ⟨rfl, h.clear⟩

end Represents

theorem create_represents {blank : Entry γ} (hcreate : Ring.create cfg blank = .ok r) :
    Represents cfg r .empty := by
  have hvalid := Ring.create_valid hcreate
  have hcontents := Ring.create_contents hcreate
  unfold Ring.create at hcreate
  split at hcreate
  · cases hcreate
  split at hcreate
  · cases hcreate
  cases hcreate
  exact ⟨hvalid, hcontents, rfl, rfl, rfl, rfl, rfl, rfl, rfl⟩

end Queue
end Breadboard
