import Breadboard.Pool.Create
import Mathlib.Tactic.Linarith

/-!
# bb_pool - the size formula and the carves agree

What `bb_pool_arena_size_needed` answers is the sum of the rounded sizes, as long as that
is a `size_t`, and 0 otherwise: a saturated term drives a later sum over the end.  And
`bb_pool_create` carves what the sum was made of, the reserve of a transient pool apart,
so behind the size gate no allocation fails.

Main results:

- Theorem `arenaSizeNeeded_eq`: the formula, for every configuration.
- Theorem `sizing_exact`: behind the size gate a pool is created from what was asked for.
-/

namespace Breadboard
namespace Pool

open MemArena

section Arithmetic

variable (tgt : Target)

/-- A number, if it is a `size_t`. -/
def checked (n : Nat) : Option Nat :=
  if n ≤ tgt.sizeMax then some n else none

variable {tgt} {n t c : Nat}

theorem checked_bind {a b : Nat} {g : Nat → Option Nat} (hg : g a = checked tgt b) (hab : a ≤ b) :
    (checked tgt a).bind g = checked tgt b := by
  unfold checked at hg ⊢
  by_cases ha : a ≤ tgt.sizeMax
  · rw [if_pos ha, Option.bind_some, hg]
  · rw [if_neg ha, if_neg (by omega), Option.bind_none]

/-- The rounding in terms of multiples of the alignment. -/
theorem roundUp_le_sizeMax_iff : roundUp tgt n ≤ tgt.sizeMax ↔ n + (tgt.maxAlign - 1) ≤ tgt.sizeMax := by
  obtain ⟨k, hk⟩ := tgt.maxAlign_dvd
  have hpos := tgt.maxAlign_pos
  have hround : roundUp tgt n ≤ tgt.sizeMax ↔ (n + (tgt.maxAlign - 1)) / tgt.maxAlign < k := by
    unfold roundUp
    rw [← Nat.lt_succ_iff, Nat.succ_eq_add_one, hk, Nat.mul_comm tgt.maxAlign k]
    exact Nat.mul_lt_mul_right hpos
  rw [hround, Nat.div_lt_iff_lt_mul hpos, Nat.mul_comm k, ← hk]
  omega

theorem alignUp_eq_min : alignUp tgt n = min (roundUp tgt n) tgt.sizeMax := by
  have hiff := @roundUp_le_sizeMax_iff tgt n
  have hle := tgt.maxAlign_le
  unfold alignUp
  split <;> omega

theorem alignUp_of_le (h : roundUp tgt n ≤ tgt.sizeMax) : alignUp tgt n = roundUp tgt n := by
  rw [alignUp_eq_min, Nat.min_eq_left h]

theorem addOvf_eq (ht : 0 < t) : addOvf tgt t n = checked tgt (t + n) := by
  unfold addOvf checked
  split
  · rw [if_neg (by omega)]
  · rw [if_pos (by omega)]

theorem mulOvf_eq (hc : 0 < c) : mulOvf tgt c n = checked tgt (c * n) := by
  have hiff : tgt.sizeMax / c < n ↔ tgt.sizeMax < c * n := by
    rw [Nat.div_lt_iff_lt_mul hc, Nat.mul_comm]
  unfold mulOvf checked
  by_cases h : tgt.sizeMax < c * n
  · rw [if_pos ⟨by omega, hiff.mpr h⟩, if_neg (by omega)]
  · rw [if_neg fun hovf => h (hiff.mp hovf.2), if_pos (by omega)]

/-- A saturated term drives the sum over the end. -/
theorem addOvf_alignUp (ht : 0 < t) :
    addOvf tgt t (alignUp tgt n) = checked tgt (t + roundUp tgt n) := by
  rw [addOvf_eq ht, alignUp_eq_min]
  unfold checked
  by_cases h : roundUp tgt n ≤ tgt.sizeMax
  · rw [Nat.min_eq_left h]
  · rw [if_neg (by omega), if_neg (by omega)]

theorem mulOvf_alignUp_addOvf (ht : 0 < t) (hc : 0 < c) :
    ((mulOvf tgt c (alignUp tgt n)).bind fun bytes => addOvf tgt t bytes) =
      checked tgt (t + c * roundUp tgt n) := by
  rw [mulOvf_eq hc]
  by_cases h : roundUp tgt n ≤ tgt.sizeMax
  · rw [alignUp_of_le h]
    exact checked_bind (addOvf_eq ht) (Nat.le_add_left _ _)
  · have hbig : tgt.sizeMax < c * roundUp tgt n :=
      Nat.lt_of_lt_of_le (Nat.not_le.mp h) (Nat.le_mul_of_pos_left _ hc)
    have hsat : tgt.sizeMax ≤ c * alignUp tgt n := by
      rw [alignUp_eq_min, Nat.min_eq_right (Nat.le_of_lt (Nat.not_le.mp h))]
      exact Nat.le_mul_of_pos_left _ hc
    unfold checked
    split
    · rw [Option.bind_some, addOvf_eq ht, checked, if_neg (by omega), if_neg (by omega)]
    · rw [Option.bind_none, if_neg (by omega)]

end Arithmetic

/-! ## The formula -/

section Formula

variable (tgt : Target)

/-- A configuration that `bb_pool_create` does not refuse out of hand. -/
def PoolCfg.Valid (cfg : PoolCfg) : Prop :=
  cfg.mode ≠ .transient → cfg.capacity ≠ 0 ∧ cfg.maxSlotBytes ≠ 0

instance (cfg : PoolCfg) : Decidable cfg.Valid :=
  inferInstanceAs (Decidable (_ → _))

/-- What creation carves behind the control struct. -/
def carvedBytes (cfg : PoolCfg) : Nat :=
  match cfg.mode with
  | .transient => 0
  | .retained =>
    roundUp tgt (cfg.capacity * tgt.sizeofRetainedSlot) + cfg.capacity * roundUp tgt cfg.maxSlotBytes
  | .fifo => cfg.capacity * roundUp tgt (tgt.sizeofFifoHdr + cfg.maxSlotBytes)
  | .slots =>
    cfg.capacity * roundUp tgt cfg.maxSlotBytes + roundUp tgt (cfg.capacity * tgt.sizeofPtr) +
      roundUp tgt ((cfg.capacity + 7) / 8) + roundUp tgt ((cfg.capacity + 7) / 8)

/-- What a pool takes: its control struct, its carves, and a transient pool's reserve. -/
def exactSize (cfg : PoolCfg) : Nat :=
  roundUp tgt tgt.sizeofPool + carvedBytes tgt cfg +
    if cfg.mode = .transient then cfg.transientReserveBytes else 0

variable {tgt}

theorem roundUp_sizeofPool :
    0 < roundUp tgt tgt.sizeofPool ∧ roundUp tgt tgt.sizeofPool ≤ tgt.sizeMax := by
  have hpos := tgt.sizeofPool_pos
  have hfits := tgt.sizeofPool_fits
  have hle := @le_roundUp tgt tgt.sizeofPool
  exact ⟨by omega, roundUp_le_sizeMax_iff.mpr (by omega)⟩

/-- The bitmaps of so many slots that their bits cannot be counted do not fit either. -/
theorem bitmapBytesFor_eq {capacity : Nat} (hcapacity : 0 < capacity) :
    bitmapBytesFor tgt capacity =
      if capacity + 7 ≤ tgt.sizeMax then (capacity + 7) / 8 else tgt.sizeMax := by
  unfold bitmapBytesFor
  rw [addOvf_eq hcapacity, checked]
  split
  next hnone => split at hnone <;> simp_all
  next bits hbits =>
    split at hbits
    next hle =>
      cases hbits
      rw [if_pos hle]
    next => cases hbits

theorem slots_formula {total capacity : Nat} (htotal : 0 < total) (hcapacity : 0 < capacity)
    (hcounted : capacity + capacity < total + roundUp tgt (capacity * tgt.sizeofPtr)) :
    ((mulOvf tgt capacity tgt.sizeofPtr).bind fun freeListBytes =>
      (addOvf tgt total (alignUp tgt freeListBytes)).bind fun total =>
        if bitmapBytesFor tgt capacity = tgt.sizeMax then none
        else (addOvf tgt total (alignUp tgt (bitmapBytesFor tgt capacity))).bind fun total =>
          addOvf tgt total (alignUp tgt (bitmapBytesFor tgt capacity))) =
      checked tgt (total + roundUp tgt (capacity * tgt.sizeofPtr) +
        roundUp tgt ((capacity + 7) / 8) + roundUp tgt ((capacity + 7) / 8)) := by
  have hlist := @le_roundUp tgt (capacity * tgt.sizeofPtr)
  have hmax := tgt.sizeMax_ge
  rw [mulOvf_eq hcapacity]
  refine checked_bind ?_ (by omega)
  rw [addOvf_alignUp htotal]
  refine checked_bind ?_ (by omega)
  rw [bitmapBytesFor_eq hcapacity]
  by_cases hbits : capacity + 7 ≤ tgt.sizeMax
  · rw [if_pos hbits, if_neg (by omega), addOvf_alignUp (by omega)]
    refine checked_bind ?_ (Nat.le_add_right _ _)
    exact addOvf_alignUp (by omega)
  · rw [if_neg hbits, if_pos rfl, checked, if_neg (by omega)]

/-- The formula: the exact size where that is a `size_t`, else 0. -/
theorem arenaSizeNeeded_eq (cfg : PoolCfg) :
    arenaSizeNeeded tgt cfg =
      if cfg.Valid ∧ exactSize tgt cfg ≤ tgt.sizeMax then exactSize tgt cfg else 0 := by
  obtain ⟨hpool, hpool_le⟩ := @roundUp_sizeofPool tgt
  have hshape (hvalid : cfg.Valid) {sized : Option Nat}
      (h : sized = checked tgt (exactSize tgt cfg)) : sized.getD 0 =
        if cfg.Valid ∧ exactSize tgt cfg ≤ tgt.sizeMax then exactSize tgt cfg else 0 := by
    rw [h, checked]
    by_cases hle : exactSize tgt cfg ≤ tgt.sizeMax
    · rw [if_pos hle, if_pos ⟨hvalid, hle⟩, Option.getD_some]
    · rw [if_neg hle, if_neg fun hboth => hle hboth.2, Option.getD_none]
  have hbad (hmode : cfg.mode ≠ .transient) (hzero : cfg.capacity = 0 ∨ cfg.maxSlotBytes = 0) :
      ¬ cfg.Valid := by
    intro hvalid
    have hne := hvalid hmode
    omega
  unfold arenaSizeNeeded
  rw [alignUp_of_le hpool_le]
  cases hmode : cfg.mode with
  | transient =>
    refine hshape (fun hne => absurd hmode hne) ?_
    simp only [exactSize, carvedBytes, hmode, if_pos]
    split
    next hzero => rw [hzero, Nat.add_zero, checked, if_pos hpool_le]
    next => rw [addOvf_eq hpool, Nat.add_zero]
  | retained =>
    dsimp only
    split
    next hzero => rw [if_neg fun h => hbad (by simp [hmode]) hzero h.1, Option.getD_none]
    next hpos =>
      have hcapacity : 0 < cfg.capacity := by omega
      refine hshape (fun _ => by omega) ?_
      simp only [exactSize, carvedBytes, hmode, reduceCtorEq, if_false, Nat.add_zero]
      have hle := @le_roundUp tgt (cfg.capacity * tgt.sizeofRetainedSlot)
      show ((mulOvf tgt cfg.capacity tgt.sizeofRetainedSlot).bind fun slotArrayBytes => _) = _
      rw [mulOvf_eq hcapacity]
      refine checked_bind ?_ (by omega)
      show ((addOvf tgt _ _).bind fun total => _) = _
      rw [addOvf_alignUp hpool]
      refine checked_bind ?_ (by omega)
      show ((mulOvf tgt _ _).bind fun dataBytes => _) = _
      rw [mulOvf_alignUp_addOvf (by omega) hcapacity, Nat.add_assoc]
  | fifo =>
    dsimp only
    split
    next hzero => rw [if_neg fun h => hbad (by simp [hmode]) hzero h.1, Option.getD_none]
    next hpos =>
      have hcapacity : 0 < cfg.capacity := by omega
      refine hshape (fun _ => by omega) ?_
      simp only [exactSize, carvedBytes, hmode, reduceCtorEq, if_false, Nat.add_zero]
      have hle := @le_roundUp tgt (tgt.sizeofFifoHdr + cfg.maxSlotBytes)
      have hmul := Nat.le_mul_of_pos_left (roundUp tgt (tgt.sizeofFifoHdr + cfg.maxSlotBytes)) hcapacity
      show ((addOvf tgt _ _).bind fun hdrPayload => _) = _
      rw [addOvf_eq tgt.sizeofFifoHdr_pos]
      refine checked_bind ?_ (by omega)
      show ((mulOvf tgt _ _).bind fun ringBytes => _) = _
      exact mulOvf_alignUp_addOvf hpool hcapacity
  | slots =>
    dsimp only
    split
    next hzero => rw [if_neg fun h => hbad (by simp [hmode]) hzero h.1, Option.getD_none]
    next hpos =>
      have hcapacity : 0 < cfg.capacity := by omega
      refine hshape (fun _ => by omega) ?_
      simp only [exactSize, carvedBytes, hmode, reduceCtorEq, if_false, Nat.add_zero]
      have hslot := @le_roundUp tgt cfg.maxSlotBytes
      have hstorage : cfg.capacity ≤ cfg.capacity * roundUp tgt cfg.maxSlotBytes :=
        Nat.le_mul_of_pos_right _ (by omega)
      have hlist : cfg.capacity ≤ cfg.capacity * tgt.sizeofPtr :=
        Nat.le_mul_of_pos_right _ tgt.sizeofPtr_pos
      have hrounded := @le_roundUp tgt (cfg.capacity * tgt.sizeofPtr)
      show ((mulOvf tgt _ _).bind fun storageBytes => (addOvf tgt _ storageBytes).bind fun total => _) = _
      rw [← Option.bind_assoc, mulOvf_alignUp_addOvf hpool hcapacity]
      refine checked_bind ?_ (by omega)
      have hformula := @slots_formula tgt
        (roundUp tgt tgt.sizeofPool + cfg.capacity * roundUp tgt cfg.maxSlotBytes) cfg.capacity
        (by omega) hcapacity (by omega)
      refine hformula.trans ?_
      congr 1
      omega

end Formula

/-! ## The carves -/

section Carves

/-- The arena has served `n` bytes and refused none. -/
structure Carved (a a' : Arena) (n : Nat) : Prop where
  buf_eq : a'.buf = a.buf
  size_eq : a'.size = a.size
  offset_eq : a'.offset = a.offset + n
  allocFailed_eq : a'.stats.allocFailed = a.stats.allocFailed

variable {tgt : Target} {a a' a'' : Arena} {m n bytes : Nat}

theorem Carved.trans (h : Carved a a' m) (h' : Carved a' a'' n) : Carved a a'' (m + n) where
  buf_eq := h'.buf_eq.trans h.buf_eq
  size_eq := h'.size_eq.trans h.size_eq
  offset_eq := by rw [h'.offset_eq, h.offset_eq, Nat.add_assoc]
  allocFailed_eq := h'.allocFailed_eq.trans h.allocFailed_eq

/-- What is left behind a carve. -/
theorem Carved.room (h : Carved a a' m) (hroom : m + n ≤ a.freeBytes) : n ≤ a'.freeBytes := by
  have hsize := h.size_eq
  have hoffset := h.offset_eq
  unfold Arena.freeBytes at *
  omega

/-- An allocation that has room is served. -/
theorem alloc_room (hbytes : 0 < bytes) (hfits : roundUp tgt bytes ≤ tgt.sizeMax)
    (hroom : roundUp tgt bytes ≤ a.freeBytes) :
    ∃ ptr a', a.alloc tgt bytes = (some ptr, a') ∧ Carved a a' (roundUp tgt bytes) := by
  have hsum := roundUp_le_sizeMax_iff.mp hfits
  have haligned : alignedSize tgt bytes = roundUp tgt bytes := by
    unfold alignedSize roundUp
    rw [Nat.mod_eq_of_lt (by omega)]
  have hle := @le_roundUp tgt bytes
  have hserved : a.Served tgt bytes := by
    unfold Arena.Served
    rw [haligned]
    omega
  refine ⟨a.buf + a.offset, (a.alloc tgt bytes).2, Prod.ext (alloc_of_served hserved).1 rfl, ?_⟩
  unfold Arena.alloc
  rw [dif_pos hserved]
  exact ⟨rfl, rfl, congrArg (a.offset + ·) haligned, rfl⟩

theorem carveBuffers_room (hbytes : 0 < bytes) (hfits : roundUp tgt bytes ≤ tgt.sizeMax) (n : Nat)
    (hroom : n * roundUp tgt bytes ≤ a.freeBytes) :
    ∃ slots a', carveBuffers tgt bytes n a = .ok (slots, a') ∧
      Carved a a' (n * roundUp tgt bytes) := by
  induction n generalizing a with
  | zero => exact ⟨[], a, rfl, rfl, rfl, by simp, rfl⟩
  | succ n ih =>
    rw [Nat.succ_mul, Nat.add_comm] at hroom
    have hfirst : roundUp tgt bytes ≤ a.freeBytes := Nat.le_trans (Nat.le_add_right _ _) hroom
    obtain ⟨ptr, a₁, halloc, hcarved⟩ := alloc_room hbytes hfits hfirst
    obtain ⟨slots, a₂, hslots, hrest⟩ := ih (hcarved.room hroom)
    refine ⟨{ data := ptr, len := 0, valid := false } :: slots, a₂, ?_, ?_⟩
    · rw [carveBuffers, halloc]
      dsimp only
      rw [hslots]
    · rw [Nat.succ_mul, Nat.add_comm]
      exact hcarved.trans hrest

theorem mulSz_of_le {b c : Nat} (h : b * c ≤ tgt.sizeMax) : mulSz tgt b c = b * c :=
  Nat.mod_eq_of_lt (Nat.lt_succ_of_le h)

theorem roundUp_pos (hn : 0 < n) : 0 < roundUp tgt n :=
  Nat.lt_of_lt_of_le hn (le_roundUp n)

/-- A product of a rounded size is rounded. -/
theorem roundUp_mul (c n : Nat) : roundUp tgt (c * roundUp tgt n) = c * roundUp tgt n := by
  have hpos := tgt.maxAlign_pos
  unfold roundUp
  generalize (n + (tgt.maxAlign - 1)) / tgt.maxAlign = q
  rw [← Nat.mul_assoc, Nat.add_comm, Nat.add_mul_div_right _ _ hpos, Nat.div_eq_of_lt (by omega),
    Nat.zero_add]

variable {cfg : PoolCfg}

theorem carveRetained_room (hcapacity : 0 < cfg.capacity) (hbytes : 0 < cfg.maxSlotBytes)
    (hmode : cfg.mode = .retained) (hfits : carvedBytes tgt cfg ≤ tgt.sizeMax)
    (hroom : carvedBytes tgt cfg ≤ a.freeBytes) :
    ∃ slots a', carveRetained tgt cfg a = .ok (slots, a') ∧ Carved a a' (carvedBytes tgt cfg) := by
  simp only [carvedBytes, hmode] at hfits hroom ⊢
  have harray := @le_roundUp tgt (cfg.capacity * tgt.sizeofRetainedSlot)
  have hbuffer := Nat.le_mul_of_pos_left (roundUp tgt cfg.maxSlotBytes) hcapacity
  obtain ⟨ptr, a₁, halloc, hcarved⟩ :=
    @alloc_room tgt a _ (Nat.mul_pos hcapacity tgt.sizeofRetainedSlot_pos) (by omega) (by omega)
  obtain ⟨slots, a₂, hslots, hrest⟩ :=
    carveBuffers_room hbytes (by omega) cfg.capacity (hcarved.room hroom)
  refine ⟨slots, a₂, ?_, hcarved.trans hrest⟩
  rw [carveRetained, mulSz_of_le (by omega), halloc]
  exact hslots

theorem carveFifo_room (hcapacity : 0 < cfg.capacity) (hmode : cfg.mode = .fifo)
    (hfits : carvedBytes tgt cfg ≤ tgt.sizeMax) (hroom : carvedBytes tgt cfg ≤ a.freeBytes) :
    ∃ fifo a', carveFifo tgt cfg a = .ok (fifo, a') ∧ Carved a a' (carvedBytes tgt cfg) := by
  simp only [carvedBytes, hmode] at hfits hroom ⊢
  have hentry := @le_roundUp tgt (tgt.sizeofFifoHdr + cfg.maxSlotBytes)
  have hring := Nat.le_mul_of_pos_left (roundUp tgt (tgt.sizeofFifoHdr + cfg.maxSlotBytes)) hcapacity
  have hhdr := tgt.sizeofFifoHdr_pos
  have hsum : addSz tgt tgt.sizeofFifoHdr cfg.maxSlotBytes = tgt.sizeofFifoHdr + cfg.maxSlotBytes :=
    Nat.mod_eq_of_lt (by omega)
  have halloc := @alloc_room tgt a
    (cfg.capacity * roundUp tgt (tgt.sizeofFifoHdr + cfg.maxSlotBytes)) (by omega)
  rw [roundUp_mul] at halloc
  obtain ⟨ptr, a₁, halloc, hcarved⟩ := halloc hfits hroom
  rw [carveFifo, hsum, alignUp_of_le (by omega)]
  dsimp only
  rw [mulSz_of_le hfits, halloc]
  exact ⟨_, a₁, rfl, hcarved⟩

theorem carveSlots_room (hcapacity : 0 < cfg.capacity) (hbytes : 0 < cfg.maxSlotBytes)
    (hmode : cfg.mode = .slots) (hfits : carvedBytes tgt cfg ≤ tgt.sizeMax)
    (hroom : carvedBytes tgt cfg ≤ a.freeBytes) :
    ∃ slots a', carveSlots tgt cfg a = .ok (slots, a') ∧ Carved a a' (carvedBytes tgt cfg) := by
  simp only [carvedBytes, hmode] at hfits hroom ⊢
  have hstride := @roundUp_pos tgt cfg.maxSlotBytes hbytes
  have hslot := Nat.le_mul_of_pos_left (roundUp tgt cfg.maxSlotBytes) hcapacity
  have hlist := @le_roundUp tgt (cfg.capacity * tgt.sizeofPtr)
  have hbitmap := @le_roundUp tgt ((cfg.capacity + 7) / 8)
  have hcount : cfg.capacity ≤ cfg.capacity * roundUp tgt cfg.maxSlotBytes :=
    Nat.le_mul_of_pos_right _ hstride
  have hlisted : cfg.capacity ≤ cfg.capacity * tgt.sizeofPtr :=
    Nat.le_mul_of_pos_right _ tgt.sizeofPtr_pos
  have hmax := tgt.sizeMax_ge
  have hbits : bitmapBytesFor tgt cfg.capacity = (cfg.capacity + 7) / 8 := by
    rw [bitmapBytesFor_eq hcapacity, if_pos (by omega)]
  have hstorage := @alloc_room tgt a (cfg.capacity * roundUp tgt cfg.maxSlotBytes) (by omega)
  rw [roundUp_mul] at hstorage
  obtain ⟨storage, a₁, halloc, hcarved⟩ := hstorage (by omega) (by omega)
  obtain ⟨freeList, a₂, halloc₂, hcarved₂⟩ := @alloc_room tgt a₁ (cfg.capacity * tgt.sizeofPtr)
    (by omega) (by omega) (hcarved.room (n := roundUp tgt (cfg.capacity * tgt.sizeofPtr)) (by omega))
  have hbitmaps := @roundUp_mul tgt 1 ((cfg.capacity + 7) / 8)
  rw [Nat.one_mul] at hbitmaps
  have hacquired := @alloc_room tgt a₂ (roundUp tgt ((cfg.capacity + 7) / 8)) (by omega)
  rw [hbitmaps] at hacquired
  have hboth := hcarved.trans hcarved₂
  obtain ⟨acquired, a₃, halloc₃, hcarved₃⟩ := hacquired (by omega) (hboth.room (by omega))
  have hpending := @alloc_room tgt a₃ (roundUp tgt ((cfg.capacity + 7) / 8)) (by omega)
  rw [hbitmaps] at hpending
  have hthree := hboth.trans hcarved₃
  obtain ⟨pending, a₄, halloc₄, hcarved₄⟩ := hpending (by omega) (hthree.room (by omega))
  refine ⟨.fresh storage (roundUp tgt cfg.maxSlotBytes) cfg.capacity, a₄, ?_,
    hthree.trans hcarved₄⟩
  rw [carveSlots, alignUp_of_le (by omega)]
  dsimp only
  rw [mulSz_of_le (by omega), halloc]
  dsimp only
  rw [mulSz_of_le (by omega), halloc₂, hbits, alignUp_of_le (by omega)]
  dsimp only
  rw [halloc₃]
  dsimp only
  rw [halloc₄]

/-- Behind the size gate every allocation is served. -/
theorem create_room (hvalid : cfg.Valid) (hfits : exactSize tgt cfg ≤ tgt.sizeMax)
    (hroom : exactSize tgt cfg ≤ a.freeBytes) :
    ∃ p, create tgt cfg a = .ok p ∧
      Carved a p.arena (roundUp tgt tgt.sizeofPool + carvedBytes tgt cfg) := by
  have hneed : arenaSizeNeeded tgt cfg = exactSize tgt cfg := by
    rw [arenaSizeNeeded_eq, if_pos ⟨hvalid, hfits⟩]
  have hpool := (@roundUp_sizeofPool tgt).1
  have hsum : roundUp tgt tgt.sizeofPool + carvedBytes tgt cfg ≤ exactSize tgt cfg :=
    Nat.le_add_right _ _
  obtain ⟨self, a₁, halloc, hcarved⟩ := @alloc_room tgt a tgt.sizeofPool tgt.sizeofPool_pos
    (by omega) (by omega)
  have hleft : carvedBytes tgt cfg ≤ a₁.freeBytes := hcarved.room (by omega)
  have hnotBad : ¬ (cfg.mode ≠ .transient ∧ (cfg.capacity = 0 ∨ cfg.maxSlotBytes = 0)) := by
    rintro ⟨hmode, hzero⟩
    have hne := hvalid hmode
    omega
  unfold create
  rw [if_neg hnotBad]
  dsimp only
  rw [hneed, if_neg (by omega), if_neg (by omega), halloc]
  dsimp only
  cases hmode : cfg.mode with
  | transient =>
    refine ⟨_, rfl, ?_⟩
    simpa only [carvedBytes, hmode, Nat.add_zero] using hcarved
  | retained =>
    have hne := hvalid (by simp [hmode])
    obtain ⟨slots, a₂, hslots, hrest⟩ :=
      carveRetained_room (by omega) (by omega) hmode (by omega) hleft
    simp only [hslots]
    exact ⟨_, rfl, hcarved.trans hrest⟩
  | fifo =>
    have hne := hvalid (by simp [hmode])
    obtain ⟨fifo, a₂, hfifo, hrest⟩ := carveFifo_room (by omega) hmode (by omega) hleft
    simp only [hfifo]
    exact ⟨_, rfl, hcarved.trans hrest⟩
  | slots =>
    have hne := hvalid (by simp [hmode])
    obtain ⟨slots, a₂, hslots, hrest⟩ :=
      carveSlots_room (by omega) (by omega) hmode (by omega) hleft
    simp only [hslots]
    exact ⟨_, rfl, hcarved.trans hrest⟩

/-- Nine slots of 20 bytes. -/
def nineSlots : PoolCfg where
  mode := .slots
  capacity := 9
  maxSlotBytes := 20
  transientReserveBytes := 0
  onAcquire := false
  onRelease := false
  slotReusable := false
  slotReap := false

/-- An arena of a kilobyte from which 16 bytes are taken. -/
def kilobyte : Arena where
  buf := 4096
  size := 1024
  offset := 16
  stats := { allocCount := 1, allocFailed := 0, freeCount := 0, peakOffset := 16 }
  ownedBlock := none
  buf_pos := by decide
  offset_le := by decide

end Carves

end Pool
end Breadboard
