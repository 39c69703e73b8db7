import Breadboard.Queue.Ring
import Breadboard.Foundations.BoundedFifo

/-!
# bb_queue - contents of a well-formed ring

The live entries of a ring, oldest first, are a list.  A well-formed ring keeps
its head where the next entry goes and its byte count equal to the bytes it
stores; the ring operations preserve this and act on the list as operations of a
bounded FIFO.

Main results:

- Theorem `evictForLoop_evicts`: the evict loop removes what the bounded FIFO removes.
- Theorem `push_spec`: a push on an evict-oldest ring makes room by
  removing oldest entries and appends the new one.
-/

namespace Breadboard
namespace Queue
namespace Ring

open Foundations

variable {γ : Type}

/-- The live entries, oldest first. -/
def contents (r : Ring γ) : List (Entry γ) :=
  (List.range r.count).map fun i => r.slots ((r.tail + i) % r.capacity)

@[simp] theorem length_contents (r : Ring γ) : r.contents.length = r.count := by
  simp [contents]

variable {r : Ring γ}

/-- The representation invariant of a ring, whatever its policy and maximum age. -/
structure Valid (r : Ring γ) : Prop where
  capacity_pos : 0 < r.capacity
  count_le : r.count ≤ r.capacity
  tail_lt : r.tail < r.capacity
  head_eq : r.head = (r.tail + r.count) % r.capacity
  bytesUsed_eq : r.bytesUsed = BoundedFifo.totalWeight Entry.len r.contents
  bytes_le : 0 < r.maxBytes → r.bytesUsed ≤ r.maxBytes
  entry_le : 0 < r.maxBytes → r.maxEntry ≤ r.maxBytes
  entries_le : ∀ e ∈ r.contents, e.len ≤ r.maxEntry

/-- The representation invariant of an age-free evict-oldest ring. -/
structure WellFormed (r : Ring γ) : Prop where
  capacity_pos : 0 < r.capacity
  count_le : r.count ≤ r.capacity
  tail_lt : r.tail < r.capacity
  head_eq : r.head = (r.tail + r.count) % r.capacity
  bytesUsed_eq : r.bytesUsed = BoundedFifo.totalWeight Entry.len r.contents
  bytes_le : 0 < r.maxBytes → r.bytesUsed ≤ r.maxBytes
  entry_le : 0 < r.maxBytes → r.maxEntry ≤ r.maxBytes
  entries_le : ∀ e ∈ r.contents, e.len ≤ r.maxEntry
  policy_eq : r.policy = .evictOldest
  maxAge_eq : r.maxAge = 0

theorem WellFormed.valid (hwf : r.WellFormed) : r.Valid :=
  ⟨hwf.1, hwf.2, hwf.3, hwf.4, hwf.5, hwf.6, hwf.7, hwf.8⟩

theorem Valid.wellFormed (hv : r.Valid) (hpolicy : r.policy = .evictOldest) (hage : r.maxAge = 0) :
    r.WellFormed :=
  ⟨hv.1, hv.2, hv.3, hv.4, hv.5, hv.6, hv.7, hv.8, hpolicy, hage⟩

/-! ## The oldest entry -/

@[simp] theorem evictOne_capacity (r : Ring γ) : r.evictOne.capacity = r.capacity :=
  rfl

@[simp] theorem evictOne_maxEntry (r : Ring γ) : r.evictOne.maxEntry = r.maxEntry :=
  rfl

@[simp] theorem evictOne_maxBytes (r : Ring γ) : r.evictOne.maxBytes = r.maxBytes :=
  rfl

@[simp] theorem evictOne_head (r : Ring γ) : r.evictOne.head = r.head :=
  rfl

@[simp] theorem evictOne_count (r : Ring γ) : r.evictOne.count = r.count - 1 :=
  rfl

/-- A nonempty ring's contents start with the entry at the tail. -/
theorem contents_eq_cons (hv : r.Valid) (hpos : 0 < r.count) :
    r.contents = r.slots r.tail :: r.evictOne.contents := by
  obtain ⟨n, hcount⟩ : ∃ n, r.count = n + 1 := ⟨r.count - 1, by omega⟩
  have htail : (r.tail + 0) % r.capacity = r.tail := Nat.mod_eq_of_lt hv.tail_lt
  have hshift (i : Nat) : (r.tail + (i + 1)) % r.capacity =
      ((r.tail + 1) % r.capacity + i) % r.capacity := by
    rw [Nat.mod_add_mod, Nat.add_assoc, Nat.add_comm 1 i]
  rw [contents, contents, evictOne_count, hcount, List.range_succ_eq_map, List.map_cons,
    List.map_map, htail, Nat.add_sub_cancel]
  congr 1
  exact List.map_congr_left fun i _ => congrArg r.slots (hshift i)

/-- Removing the oldest entry leaves the rest of the contents. -/
theorem evictOne_contents (hv : r.Valid) (hpos : 0 < r.count) :
    r.evictOne.contents = r.contents.tail := by
  rw [contents_eq_cons hv hpos, List.tail_cons]

theorem evictOne_bytesUsed (hv : r.Valid) (hpos : 0 < r.count) :
    r.bytesUsed = (r.slots r.tail).len + r.evictOne.bytesUsed ∧
      r.evictOne.bytesUsed = BoundedFifo.totalWeight Entry.len r.evictOne.contents := by
  have hbytes : r.bytesUsed = (r.slots r.tail).len + BoundedFifo.totalWeight Entry.len r.evictOne.contents := by
    rw [hv.bytesUsed_eq, contents_eq_cons hv hpos, BoundedFifo.totalWeight_cons]
  have hsub : r.evictOne.bytesUsed = r.bytesUsed - (r.slots r.tail).len :=
    if_pos (by omega)
  omega

theorem evictOne_valid (hv : r.Valid) (hpos : 0 < r.count) : r.evictOne.Valid := by
  have hbytes := evictOne_bytesUsed hv hpos
  have hcount := hv.count_le
  refine
    { capacity_pos := hv.capacity_pos
      count_le := ?_
      tail_lt := Nat.mod_lt _ hv.capacity_pos
      head_eq := ?_
      bytesUsed_eq := hbytes.2
      bytes_le := fun hmax => ?_
      entry_le := hv.entry_le
      entries_le := fun e he => hv.entries_le e ?_ }
  · simp only [evictOne_count, evictOne_capacity]
    omega
  · have hindex : r.tail + r.count = r.tail + 1 + (r.count - 1) := by omega
    rw [evictOne_head, hv.head_eq, hindex]
    simp only [evictOne, Nat.mod_add_mod]
  · have hle := hv.bytes_le hmax
    simp only [evictOne_maxBytes]
    omega
  · rw [contents_eq_cons hv hpos]
    exact List.mem_cons_of_mem _ he

/-! ## Making room -/

theorem noRoomFor_eq_false_iff (hv : r.Valid) (len : Nat) :
    r.noRoomFor len = false ↔
      BoundedFifo.Fits Entry.len r.capacity r.maxBytes r.contents len := by
  have hle := hv.count_le
  simp only [noRoomFor, decide_eq_false_iff_not, BoundedFifo.Fits, length_contents,
    ← hv.bytesUsed_eq]
  constructor
  · intro h
    exact ⟨by omega, by omega⟩
  · rintro ⟨hcount, hbytes⟩ (heq | ⟨hmax, hover⟩)
    · omega
    · have := hbytes hmax
      omega

/-- The fields no operation but creation writes. -/
structure SameLimits (r r' : Ring γ) : Prop where
  capacity_eq : r'.capacity = r.capacity
  maxEntry_eq : r'.maxEntry = r.maxEntry
  maxBytes_eq : r'.maxBytes = r.maxBytes
  maxAge_eq : r'.maxAge = r.maxAge
  policy_eq : r'.policy = r.policy

theorem SameLimits.refl (r : Ring γ) : SameLimits r r := ⟨rfl, rfl, rfl, rfl, rfl⟩

theorem SameLimits.trans {r r' r'' : Ring γ} (h : SameLimits r r') (h' : SameLimits r' r'') :
    SameLimits r r'' :=
  ⟨h'.1.trans h.1, h'.2.trans h.2, h'.3.trans h.3, h'.4.trans h.4, h'.5.trans h.5⟩

theorem evictOne_sameLimits (r : Ring γ) : SameLimits r r.evictOne := ⟨rfl, rfl, rfl, rfl, rfl⟩

/-- What an eviction loop leaves of a ring whose contents were `gone ++ kept`. -/
structure Evicts (r r' : Ring γ) (gone kept : List (Entry γ)) : Prop where
  valid : r'.Valid
  contents_eq : r'.contents = kept
  split_eq : gone ++ kept = r.contents
  limits : SameLimits r r'
  head_eq : r'.head = r.head
  dropped_eq : r'.dropped = r.dropped + gone.length
  truncated_eq : r'.truncated = r.truncated

theorem Evicts.none (hv : r.Valid) : Evicts r r [] r.contents :=
  ⟨hv, rfl, rfl, .refl r, rfl, rfl, rfl⟩

/-- One more entry is removed first. -/
theorem Evicts.cons {r' : Ring γ} {gone kept : List (Entry γ)} (hv : r.Valid) (hpos : 0 < r.count)
    (h : Evicts r.evictOne r' gone kept) : Evicts r r' (r.slots r.tail :: gone) kept where
  valid := h.valid
  contents_eq := h.contents_eq
  split_eq := by rw [List.cons_append, h.split_eq, contents_eq_cons hv hpos]
  limits := (evictOne_sameLimits r).trans h.limits
  head_eq := h.head_eq
  dropped_eq := by
    rw [h.dropped_eq, List.length_cons]
    simp only [evictOne]
    omega
  truncated_eq := h.truncated_eq

/-- The evict loop removes exactly the entries the bounded FIFO removes. -/
theorem evictForLoop_evicts (len : Nat) (hv : r.Valid) (fuel : Nat) (hfuel : fuel = r.count) :
    Evicts r (evictForLoop len fuel r)
      (BoundedFifo.evictedFor Entry.len r.capacity r.maxBytes len r.contents)
      (BoundedFifo.makeRoom Entry.len r.capacity r.maxBytes len r.contents) := by
  induction fuel generalizing r with
  | zero =>
    have hnil : r.contents = [] := by
      apply List.eq_nil_of_length_eq_zero
      rw [length_contents, ← hfuel]
    have hnone := Evicts.none hv
    rwa [hnil] at hnone ⊢
  | succ fuel ih =>
    unfold evictForLoop
    cases hroom : r.noRoomFor len with
    | false =>
      have hfits := (noRoomFor_eq_false_iff hv len).mp hroom
      rw [BoundedFifo.makeRoom_of_fits hfits, BoundedFifo.evictedFor_of_fits hfits]
      exact .none hv
    | true =>
      have hpos : 0 < r.count := by omega
      have hnofit : ¬ BoundedFifo.Fits Entry.len r.capacity r.maxBytes r.contents len := by
        rw [← noRoomFor_eq_false_iff hv len, hroom]
        simp
      have hrest := (ih (evictOne_valid hv hpos) (by simp [← hfuel])).cons hv hpos
      rw [contents_eq_cons hv hpos] at hnofit ⊢
      simpa [BoundedFifo.makeRoom, BoundedFifo.evictedFor, hnofit] using hrest

/-! ## Push, peek and pop -/

/-- Live slots differ from the head slot while there is a free one. -/
theorem slot_ne_head (hv : r.Valid) (hroom : r.count < r.capacity) {i : Nat}
    (hi : i < r.count) : (r.tail + i) % r.capacity ≠ r.head := by
  intro heq
  rw [hv.head_eq] at heq
  have hzero := Nat.sub_mod_eq_zero_of_mod_eq heq.symm
  have hdist : r.tail + r.count - (r.tail + i) = r.count - i := by omega
  rw [hdist, Nat.mod_eq_of_lt (by omega)] at hzero
  omega

/-- Writing at the head appends, when the ring has a free slot. -/
theorem writeAt_contents (hv : r.Valid) (hroom : r.count < r.capacity) (e : Entry γ) :
    (r.writeAt r.head e).contents = r.contents ++ [e] := by
  simp only [contents, writeAt, List.range_succ, List.map_append, List.map_cons, List.map_nil,
    ← hv.head_eq, Function.update_self]
  congr 1
  refine List.map_congr_left fun i hi => ?_
  exact Function.update_of_ne (slot_ne_head hv hroom (List.mem_range.mp hi)) _ _

theorem writeAt_valid (hv : r.Valid) {e : Entry γ} (hlen : e.len ≤ r.maxEntry)
    (hfits : BoundedFifo.Fits Entry.len r.capacity r.maxBytes r.contents e.len) :
    (r.writeAt r.head e).Valid := by
  have hroom : r.count < r.capacity := by simpa using hfits.1
  have hcontents := writeAt_contents hv hroom e
  have hbytes : (r.writeAt r.head e).bytesUsed =
      BoundedFifo.totalWeight Entry.len (r.writeAt r.head e).contents := by
    rw [hcontents, BoundedFifo.totalWeight_append, ← hv.bytesUsed_eq]
    simp [writeAt]
  exact
    { capacity_pos := hv.capacity_pos
      count_le := hroom
      tail_lt := hv.tail_lt
      head_eq := by simp [writeAt, hv.head_eq, Nat.add_assoc]
      bytesUsed_eq := hbytes
      bytes_le := fun hmax => by simpa [writeAt, hv.bytesUsed_eq] using hfits.2 hmax
      entry_le := hv.entry_le
      entries_le := by
        intro x hx
        rw [hcontents, List.mem_append, List.mem_singleton] at hx
        rcases hx with hold | rfl
        · exact hv.entries_le x hold
        · exact hlen }

/-- Making room and writing an entry within the slot size. -/
theorem evict_writeAt_spec (hv : r.Valid) {e : Entry γ} (hlen : e.len ≤ r.maxEntry) :
    ((evictForLoop e.len r.count r).writeAt r.head e).Valid ∧
      ((evictForLoop e.len r.count r).writeAt r.head e).contents =
        BoundedFifo.makeRoom Entry.len r.capacity r.maxBytes e.len r.contents ++ [e] := by
  have hev := evictForLoop_evicts e.len hv r.count rfl
  have hfits : BoundedFifo.Fits Entry.len r.capacity r.maxBytes
      (evictForLoop e.len r.count r).contents e.len := by
    rw [hev.contents_eq]
    exact BoundedFifo.makeRoom_fits hv.capacity_pos (fun h => Nat.le_trans hlen (hv.entry_le h)) _
  rw [← hev.limits.capacity_eq, ← hev.limits.maxBytes_eq] at hfits
  have hroom : (evictForLoop e.len r.count r).count < (evictForLoop e.len r.count r).capacity := by
    simpa using hfits.1
  have hwrite := writeAt_contents hev.valid hroom e
  have hvalid := writeAt_valid hev.valid (hev.limits.maxEntry_eq ▸ hlen) hfits
  rw [hev.head_eq] at hwrite hvalid
  rw [hev.contents_eq] at hwrite
  exact ⟨hvalid, hwrite⟩

/-- A push of an entry within the slot size succeeds: it makes room and appends. -/
theorem push_spec (hwf : r.WellFormed) {e : Entry γ} (hlen : e.len ≤ r.maxEntry) :
    (r.push e).1 = .ok ∧ (r.push e).2.WellFormed ∧
      (r.push e).2.contents =
        BoundedFifo.makeRoom Entry.len r.capacity r.maxBytes e.len r.contents ++ [e] ∧
      (r.push e).2.capacity = r.capacity ∧ (r.push e).2.maxEntry = r.maxEntry ∧
      (r.push e).2.maxBytes = r.maxBytes := by
  have hpush : r.push e = (.ok, (evictForLoop e.len r.count r).writeAt r.head e) := by
    simp [push, hwf.maxAge_eq, hwf.policy_eq, Nat.not_lt.mpr hlen]
  have hlimits := (evictForLoop_evicts e.len hwf.valid r.count rfl).limits
  obtain ⟨hvalid, hcontents⟩ := evict_writeAt_spec hwf.valid hlen
  rw [hpush]
  exact ⟨rfl, hvalid.wellFormed (hlimits.policy_eq.trans hwf.policy_eq)
    (hlimits.maxAge_eq.trans hwf.maxAge_eq), hcontents, hlimits.capacity_eq, hlimits.maxEntry_eq,
    hlimits.maxBytes_eq⟩

/-- A positional read is a lookup in the contents. -/
theorem peekAt_eq (r : Ring γ) (index : Nat) :
    r.peekAt index = (r.contents[index]?).elim (.error .notFound) .ok := by
  unfold peekAt
  by_cases h : index < r.count
  · have hbound : ¬ (r.count = 0 ∨ r.count ≤ index) := by omega
    simp [hbound, contents, h]
  · have hbound : r.count = 0 ∨ r.count ≤ index := by omega
    have hnone : r.contents[index]? = none := by simpa using Nat.not_lt.mp h
    simp [hbound, hnone]

/-- Reading the oldest entry is reading the head of the contents. -/
theorem peekOldest_eq (hv : r.Valid) :
    r.peekOldest = (r.contents.head?).elim (.error .notFound) .ok := by
  unfold peekOldest
  by_cases h : r.count = 0
  · have hnil : r.contents = [] := List.eq_nil_of_length_eq_zero (by simpa using h)
    simp [h, hnil]
  · simp [h, contents_eq_cons hv (Nat.pos_of_ne_zero h)]

/-- A pop is the eviction of the oldest entry without the drop count. -/
theorem popOldest_contents (hv : r.Valid) : r.popOldest.contents = r.contents.tail := by
  unfold popOldest
  split
  · rename_i h
    have hnil : r.contents = [] := List.eq_nil_of_length_eq_zero (by simpa using h)
    simp [hnil]
  · rename_i h
    exact evictOne_contents hv (Nat.pos_of_ne_zero h)

theorem popOldest_valid (hv : r.Valid) : r.popOldest.Valid := by
  unfold popOldest
  split
  · exact hv
  · rename_i h
    have hevict := evictOne_valid hv (Nat.pos_of_ne_zero h)
    exact ⟨hevict.1, hevict.2, hevict.3, hevict.4, hevict.5, hevict.6, hevict.7, hevict.8⟩

theorem popOldest_sameLimits (r : Ring γ) : SameLimits r r.popOldest := by
  unfold popOldest
  split <;> exact ⟨rfl, rfl, rfl, rfl, rfl⟩

theorem popOldest_wellFormed (hwf : r.WellFormed) : r.popOldest.WellFormed :=
  (popOldest_valid hwf.valid).wellFormed ((popOldest_sameLimits r).policy_eq.trans hwf.policy_eq)
    ((popOldest_sameLimits r).maxAge_eq.trans hwf.maxAge_eq)

theorem create_valid {cfg : QueueCfg} {blank : Entry γ} (hcreate : create cfg blank = .ok r) :
    r.Valid := by
  unfold create at hcreate
  split at hcreate
  · cases hcreate
  split at hcreate
  · cases hcreate
  rename_i hsize hbudget
  cases hcreate
  have hcap : 0 < cfg.capacityEntries := by omega
  exact
    { capacity_pos := hcap
      count_le := Nat.zero_le _
      tail_lt := hcap
      head_eq := (Nat.zero_mod _).symm
      bytesUsed_eq := by simp [contents]
      bytes_le := fun _ => Nat.zero_le _
      entry_le := fun hmax => by simp only at hmax ⊢; omega
      entries_le := by simp [contents] }

theorem create_wellFormed {cfg : QueueCfg} {blank : Entry γ} (hpolicy : cfg.policy = .evictOldest)
    (hage : cfg.maxAge = 0) (hcreate : create cfg blank = .ok r) : r.WellFormed := by
  apply (create_valid hcreate).wellFormed
  all_goals
    unfold create at hcreate
    split at hcreate
    · cases hcreate
    split at hcreate
    · cases hcreate
    cases hcreate
    assumption

theorem create_contents {cfg : QueueCfg} {blank : Entry γ} (hcreate : create cfg blank = .ok r) :
    r.contents = [] := by
  unfold create at hcreate
  split at hcreate
  · cases hcreate
  split at hcreate
  · cases hcreate
  cases hcreate
  rfl

/-! ## Limits are fixed at creation -/

theorem create_limits {cfg : QueueCfg} {blank : Entry γ} (hcreate : create cfg blank = .ok r) :
    r.capacity = cfg.capacityEntries ∧ r.maxEntry = cfg.maxEntryBytes ∧
      r.maxBytes = cfg.maxBytes := by
  unfold create at hcreate
  split at hcreate
  · cases hcreate
  split at hcreate
  · cases hcreate
  cases hcreate
  exact ⟨rfl, rfl, rfl⟩

theorem push_of_too_long {e : Entry γ} (hlen : r.maxEntry < e.len) :
    r.push e = (.invalidArg, { r with truncated := r.truncated + 1 }) :=
  if_pos hlen

theorem push_wellFormed (hwf : r.WellFormed) (e : Entry γ) : (r.push e).2.WellFormed := by
  by_cases hlen : r.maxEntry < e.len
  · rw [push_of_too_long hlen]
    exact ⟨hwf.1, hwf.2, hwf.3, hwf.4, hwf.5, hwf.6, hwf.7, hwf.8, hwf.9, hwf.10⟩
  · exact (push_spec hwf (Nat.not_lt.mp hlen)).2.1

theorem push_limits (hwf : r.WellFormed) (e : Entry γ) :
    (r.push e).2.capacity = r.capacity ∧ (r.push e).2.maxEntry = r.maxEntry ∧
      (r.push e).2.maxBytes = r.maxBytes := by
  by_cases hlen : r.maxEntry < e.len
  · rw [push_of_too_long hlen]
    exact ⟨rfl, rfl, rfl⟩
  · exact (push_spec hwf (Nat.not_lt.mp hlen)).2.2.2

theorem popOldest_limits (r : Ring γ) :
    r.popOldest.capacity = r.capacity ∧ r.popOldest.maxEntry = r.maxEntry ∧
      r.popOldest.maxBytes = r.maxBytes :=
  have h := popOldest_sameLimits r
  ⟨h.1, h.2, h.3⟩

end Ring
end Queue
end Breadboard
