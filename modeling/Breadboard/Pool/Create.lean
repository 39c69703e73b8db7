import Breadboard.Foundations.Bitmap
import Breadboard.MemArena.Arena

/-!
# bb_pool - sizing and creation

A pool is carved from an arena: first its control struct, then what its mode
needs: a slot array and its buffers, a ring, or the slot storage with the free
list and two bitmaps.  A callback of the configuration is a flag here: whether
it is set.

Main results:

- Theorem `create_transient_spec`: where the control struct of a transient pool lies.
- Theorem `create_slots_spec`: the slot part of a new slot pool.
-/

namespace Breadboard
namespace Pool

open Foundations MemArena

/-- `bb_pool_mode_t`. -/
inductive Mode where
  | transient
  | retained
  | fifo
  | slots
  deriving Repr, DecidableEq

/-- `bb_pool_cfg_t`. -/
structure PoolCfg where
  mode : Mode
  capacity : Nat
  maxSlotBytes : Nat
  transientReserveBytes : Nat
  onAcquire : Bool
  onRelease : Bool
  slotReusable : Bool
  slotReap : Bool
  deriving Repr, DecidableEq

/-- `bb_pool_retained_slot_t`. -/
structure RetainedSlot where
  data : Nat
  len : Nat
  valid : Bool
  deriving Repr, DecidableEq

/-- `bb_pool_fifo_t`. -/
structure Fifo where
  entries : Nat
  entryStride : Nat
  head : Nat
  count : Nat
  dropped : Nat
  deriving Repr, DecidableEq

/-- `bb_pool_slots_t`; the free list is a stack with its top first. -/
structure Slots where
  storage : Nat
  slotStride : Nat
  freeList : List Nat
  acquiredBitmap : Bitmap
  pendingBitmap : Bitmap

/-- `struct bb_pool`: `self` is the address of the struct. -/
structure BbPool where
  self : Nat
  cfg : PoolCfg
  arena : Arena
  ownsArena : Bool
  retainedSlots : List RetainedSlot
  fifo : Fifo
  slots : Slots

/-! ## Sizes -/

section Sizes

variable (tgt : Target)

/-- `align_up`, which saturates. -/
def alignUp (n : Nat) : Nat :=
  if tgt.sizeMax - (tgt.maxAlign - 1) < n then tgt.sizeMax else roundUp tgt n

/-- `add_ovf`: `none` on overflow. -/
def addOvf (a b : Nat) : Option Nat :=
  if tgt.sizeMax - b < a then none else some (a + b)

/-- `mul_ovf`: `none` on overflow. -/
def mulOvf (a b : Nat) : Option Nat :=
  if a ≠ 0 ∧ tgt.sizeMax / a < b then none else some (a * b)

/-- `bitmap_bytes_for`. -/
def bitmapBytesFor (capacity : Nat) : Nat :=
  match addOvf tgt capacity 7 with
  | none => tgt.sizeMax
  | some bitsRounded => bitsRounded / 8

/-- `bb_pool_arena_size_needed`: 0 for a bad configuration and on overflow. -/
def arenaSizeNeeded (cfg : PoolCfg) : Nat :=
  let total := alignUp tgt tgt.sizeofPool
  let sized : Option Nat :=
    match cfg.mode with
    | .transient =>
      if cfg.transientReserveBytes = 0 then some total
      else addOvf tgt total cfg.transientReserveBytes
    | .retained =>
      if cfg.capacity = 0 ∨ cfg.maxSlotBytes = 0 then none
      else do
        let slotArrayBytes ← mulOvf tgt cfg.capacity tgt.sizeofRetainedSlot
        let total ← addOvf tgt total (alignUp tgt slotArrayBytes)
        let dataBytes ← mulOvf tgt cfg.capacity (alignUp tgt cfg.maxSlotBytes)
        addOvf tgt total dataBytes
    | .fifo =>
      if cfg.capacity = 0 ∨ cfg.maxSlotBytes = 0 then none
      else do
        let hdrPayload ← addOvf tgt tgt.sizeofFifoHdr cfg.maxSlotBytes
        let ringBytes ← mulOvf tgt cfg.capacity (alignUp tgt hdrPayload)
        addOvf tgt total ringBytes
    | .slots =>
      if cfg.capacity = 0 ∨ cfg.maxSlotBytes = 0 then none
      else do
        let storageBytes ← mulOvf tgt cfg.capacity (alignUp tgt cfg.maxSlotBytes)
        let total ← addOvf tgt total storageBytes
        let freeListBytes ← mulOvf tgt cfg.capacity tgt.sizeofPtr
        let total ← addOvf tgt total (alignUp tgt freeListBytes)
        let bitmapBytes := bitmapBytesFor tgt cfg.capacity
        if bitmapBytes = tgt.sizeMax then none
        else do
          let total ← addOvf tgt total (alignUp tgt bitmapBytes)
          addOvf tgt total (alignUp tgt bitmapBytes)
  sized.getD 0

end Sizes

/-! ## Creation -/

/-- The address of a slot: `slots_ptr_at`. -/
def Slots.ptrAt (s : Slots) (idx : Nat) : Nat :=
  s.storage + idx * s.slotStride

/-- The slot part of a pool in another mode: all zero. -/
def Slots.none : Slots :=
  { storage := 0
    slotStride := 0
    freeList := []
    acquiredBitmap := .zero
    pendingBitmap := .zero }

/-- The ring part of a pool in another mode. -/
def Fifo.none : Fifo :=
  { entries := 0
    entryStride := 0
    head := 0
    count := 0
    dropped := 0 }

/-- The slot part at creation: every slot free, pushed in index order. -/
def Slots.fresh (storage slotStride capacity : Nat) : Slots :=
  { storage := storage
    slotStride := slotStride
    freeList := ((List.range capacity).map fun i => storage + i * slotStride).reverse
    acquiredBitmap := .zero
    pendingBitmap := .zero }

variable (tgt : Target)

/-- The product of two `size_t`. -/
def mulSz (a b : Nat) : Nat :=
  a * b % (tgt.sizeMax + 1)

/-- The sum of two `size_t`. -/
def addSz (a b : Nat) : Nat :=
  (a + b) % (tgt.sizeMax + 1)

/-- The buffers of `n` retained slots, one allocation each. -/
def carveBuffers (maxSlotBytes : Nat) : Nat → Arena → Except BbErr (List RetainedSlot × Arena)
  | 0, arena => .ok ([], arena)
  | n + 1, arena =>
    match arena.alloc tgt maxSlotBytes with
    | (.none, _) => .error .noSpace
    | (some data, arena) =>
      match carveBuffers maxSlotBytes n arena with
      | .error err => .error err
      | .ok (slots, arena) => .ok ({ data := data, len := 0, valid := false } :: slots, arena)

/-- The carving of a retained pool: the slot array, then the buffers. -/
def carveRetained (cfg : PoolCfg) (arena : Arena) : Except BbErr (List RetainedSlot × Arena) :=
  match arena.alloc tgt (mulSz tgt cfg.capacity tgt.sizeofRetainedSlot) with
  | (.none, _) => .error .noSpace
  | (some _, arena) => carveBuffers tgt cfg.maxSlotBytes cfg.capacity arena

/-- The carving of a ring. -/
def carveFifo (cfg : PoolCfg) (arena : Arena) : Except BbErr (Fifo × Arena) :=
  let entryStride := alignUp tgt (addSz tgt tgt.sizeofFifoHdr cfg.maxSlotBytes)
  match arena.alloc tgt (mulSz tgt cfg.capacity entryStride) with
  | (.none, _) => .error .noSpace
  | (some entries, arena) => .ok ({ Fifo.none with entries := entries, entryStride := entryStride }, arena)

/-- The carving of the slot part: storage, free list, two bitmaps. -/
def carveSlots (cfg : PoolCfg) (arena : Arena) : Except BbErr (Slots × Arena) :=
  let slotStride := alignUp tgt cfg.maxSlotBytes
  match arena.alloc tgt (mulSz tgt cfg.capacity slotStride) with
  | (.none, _) => .error .noSpace
  | (some storage, arena) =>
    match arena.alloc tgt (mulSz tgt cfg.capacity tgt.sizeofPtr) with
    | (.none, _) => .error .noSpace
    | (some _, arena) =>
      let bitmapBytes := alignUp tgt (bitmapBytesFor tgt cfg.capacity)
      match arena.alloc tgt bitmapBytes with
      | (.none, _) => .error .noSpace
      | (some _, arena) =>
        match arena.alloc tgt bitmapBytes with
        | (.none, _) => .error .noSpace
        | (some _, arena) => .ok (Slots.fresh storage slotStride cfg.capacity, arena)

/-- `bb_pool_create`. -/
def create (cfg : PoolCfg) (arena : Arena) : Except BbErr BbPool :=
  if cfg.mode ≠ .transient ∧ (cfg.capacity = 0 ∨ cfg.maxSlotBytes = 0) then .error .invalidArg
  else
    let need := arenaSizeNeeded tgt cfg
    if need = 0 then .error .invalidArg
    else if arena.freeBytes < need then .error .noSpace
    else
      match arena.alloc tgt tgt.sizeofPool with
      | (.none, _) => .error .noSpace
      | (some self, arena) =>
        let p : BbPool :=
          { self := self
            cfg := cfg
            arena := arena
            ownsArena := false
            retainedSlots := []
            fifo := .none
            slots := .none }
        match cfg.mode with
        | .transient => .ok p
        | .retained =>
          match carveRetained tgt cfg arena with
          | .error err => .error err
          | .ok (retainedSlots, arena) => .ok { p with arena := arena, retainedSlots := retainedSlots }
        | .fifo =>
          match carveFifo tgt cfg arena with
          | .error err => .error err
          | .ok (fifo, arena) => .ok { p with arena := arena, fifo := fifo }
        | .slots =>
          match carveSlots tgt cfg arena with
          | .error err => .error err
          | .ok (slots, arena) => .ok { p with arena := arena, slots := slots }

/--
`bb_pool_create_owned`; both backings initialise the arena alike, and `block` is
what the allocator answers.
-/
def createOwned (cfg : PoolCfg) (block : Nat) : Except BbErr BbPool :=
  let need := arenaSizeNeeded tgt cfg
  if need = 0 then .error .invalidArg
  else
    match initFromBbMem tgt block need with
    | .error err => .error err
    | .ok arena =>
      match create tgt cfg arena with
      | .error err => .error err
      | .ok p => .ok { p with ownsArena := true }

/-! ## What creation establishes -/

variable {tgt} {cfg : PoolCfg} {arena : Arena} {p : BbPool}

/-- The control struct of a transient pool lies just below the offset of its arena. -/
theorem create_transient_spec (hmode : cfg.mode = .transient)
    (hcreate : create tgt cfg arena = .ok p) :
    p.self = arena.buf + arena.offset ∧ p.arena.buf = arena.buf ∧
      p.arena.buf ≤ p.self ∧ p.self + tgt.sizeofPool ≤ p.arena.buf + p.arena.offset := by
  unfold create at hcreate
  simp only [hmode, ne_eq, not_true_eq_false, false_and, if_false] at hcreate
  split at hcreate
  · cases hcreate
  split at hcreate
  · cases hcreate
  split at hcreate
  · cases hcreate
  rename_i self arena' halloc
  cases hcreate
  obtain ⟨hserved, rfl, hbuf, -, hoffset⟩ := alloc_spec halloc
  have hsize := hserved.2.2.1
  refine ⟨rfl, hbuf, ?_, ?_⟩
  · simp only [hbuf]
    omega
  · simp only [hbuf, hoffset]
    omega

/-- Storage of a fresh slot part comes from an arena, so its address is not NULL. -/
theorem carveSlots_spec {slots : Slots} {arena' : Arena}
    (hcarve : carveSlots tgt cfg arena = .ok (slots, arena')) :
    ∃ storage, 0 < storage ∧
      slots = .fresh storage (alignUp tgt cfg.maxSlotBytes) cfg.capacity := by
  unfold carveSlots at hcarve
  dsimp only at hcarve
  split at hcarve
  · cases hcarve
  rename_i storage arena₁ halloc
  split at hcarve
  · cases hcarve
  split at hcarve
  · cases hcarve
  split at hcarve
  · cases hcarve
  cases hcarve
  have hptr := (alloc_spec halloc).2.1
  have hbuf := arena.buf_pos
  exact ⟨storage, by omega, rfl⟩

theorem alignUp_pos {n : Nat} (hn : 0 < n) : 0 < alignUp tgt n := by
  have halign := tgt.maxAlign_pos
  have hmax := tgt.maxAlign_le
  unfold alignUp
  split
  · omega
  · exact Nat.lt_of_lt_of_le hn (le_roundUp n)

theorem create_slots_spec (hmode : cfg.mode = .slots) (hcreate : create tgt cfg arena = .ok p) :
    p.cfg = cfg ∧ ∃ storage stride, 0 < storage ∧ 0 < stride ∧
      p.slots = .fresh storage stride cfg.capacity := by
  unfold create at hcreate
  simp only [hmode, ne_eq, reduceCtorEq, not_false_eq_true, true_and] at hcreate
  split at hcreate
  · cases hcreate
  rename_i hvalid
  split at hcreate
  · cases hcreate
  split at hcreate
  · cases hcreate
  split at hcreate
  · cases hcreate
  split at hcreate
  · cases hcreate
  rename_i slots arena' hcarve
  cases hcreate
  obtain ⟨storage, hstorage, hslots⟩ := carveSlots_spec hcarve
  exact ⟨rfl, storage, _, hstorage, alignUp_pos (by omega), hslots⟩

end Pool
end Breadboard
