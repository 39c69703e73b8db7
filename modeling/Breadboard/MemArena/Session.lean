import Breadboard.Foundations.Blocks
import Breadboard.Foundations.Runs
import Breadboard.MemArena.Arena

/-!
# bb_mem_arena - the blocks an arena hands out

A session is an arena with the blocks it has handed out since its last reset;
the blocks are record keeping for the statements, no operation reads them.  The
arena reads no address, so it keeps its blocks in step with the start of its
memory: they are aligned exactly when that start is.

Main results:

- Theorem `alignDown_eq_mask`: for powers of two, the rounding is the mask of the source.
- Theorem `hands_out_disjoint`: over every run the blocks are apart, in the region and as
  aligned as its start, and no sum wraps.
-/

namespace Breadboard
namespace MemArena

open Foundations

variable (tgt : Target)

/-! ## The mask -/

/-- Clearing the low bits of a machine word rounds it down to a power of two. -/
theorem alignDown_eq_mask (w k : Nat) (n : BitVec w) (hk : k ≤ w) :
    (n &&& ~~~ BitVec.ofNat w (2 ^ k - 1)).toNat = n.toNat / 2 ^ k * 2 ^ k := by
  apply Nat.eq_of_testBit_eq
  intro i
  have hpow : 2 ^ k ≤ 2 ^ w := Nat.pow_le_pow_right (by decide) hk
  have hone : 0 < 2 ^ k := Nat.two_pow_pos k
  have hmask : (BitVec.ofNat w (2 ^ k - 1)).toNat = 2 ^ k - 1 := by
    rw [BitVec.toNat_ofNat]
    exact Nat.mod_eq_of_lt (by omega)
  rw [BitVec.testBit_toNat, BitVec.getLsbD_and, BitVec.getLsbD_not, ← BitVec.testBit_toNat,
    ← BitVec.testBit_toNat, hmask, Nat.testBit_two_pow_sub_one, Nat.testBit_mul_two_pow,
    Nat.testBit_div_two_pow]
  by_cases hlow : i < k
  · simp [hlow, Nat.not_le.mpr hlow]
  · have hhigh : k ≤ i := Nat.le_of_not_lt hlow
    have hsum : i - k + k = i := Nat.sub_add_cancel hhigh
    by_cases hword : i < w
    · simp [hlow, hhigh, hword, hsum]
    · have hbig : n.toNat < 2 ^ i :=
        Nat.lt_of_lt_of_le n.isLt (Nat.pow_le_pow_right (by decide) (Nat.le_of_not_lt hword))
      simp [hword, hsum, hhigh, Nat.testBit_lt_two_pow hbig]

/-- The rounded size as the source writes it, with a power of two for the alignment. -/
theorem alignedSize_eq_mask {w k : Nat} (hword : tgt.sizeMax + 1 = 2 ^ w)
    (halign : tgt.maxAlign = 2 ^ k) (bytes : Nat) :
    alignedSize tgt bytes =
      (BitVec.ofNat w (bytes + (2 ^ k - 1)) &&& ~~~ BitVec.ofNat w (2 ^ k - 1)).toNat := by
  have hle := tgt.maxAlign_le
  have hk : k ≤ w := by
    apply (Nat.pow_le_pow_iff_right (by decide : 1 < 2)).mp
    omega
  rw [alignDown_eq_mask w k _ hk, BitVec.toNat_ofNat]
  unfold alignedSize
  rw [hword, halign]

/-! ## Sessions -/

/-- An arena with the blocks handed out since its last reset, the latest first. -/
structure Session where
  arena : Arena
  live : List Block

/-- The calls on an arena. -/
inductive Op where
  | alloc (bytes : Nat)
  | allocRest
  | free (ptr : Nat)
  | reset
  deriving Repr, DecidableEq

/-- The block that a call hands out. -/
def Arena.answer (a : Arena) : Op → Option Block
  | .alloc bytes => (a.alloc tgt bytes).1.map fun ptr => { ptr := ptr, len := bytes }
  | .allocRest =>
    if (a.allocRest tgt).1 = 0 then none
    else some { ptr := a.buf + a.offset, len := (a.allocRest tgt).1 }
  | .free _ => none
  | .reset => none

/-- The arena after a call. -/
def Arena.call (a : Arena) : Op → Arena
  | .alloc bytes => (a.alloc tgt bytes).2
  | .allocRest => (a.allocRest tgt).2
  | .free ptr => a.free ptr
  | .reset => a.reset

/-- A call asks for a block. -/
def Op.Requests : Op → Prop
  | .alloc _ => True
  | .allocRest => True
  | .free _ => False
  | .reset => False

instance (op : Op) : Decidable op.Requests := by
  cases op <;> unfold Op.Requests <;> infer_instance

/-- One call. -/
def Session.step (s : Session) (op : Op) : Session where
  arena := s.arena.call tgt op
  live :=
    match op with
    | .reset => []
    | _ => (s.arena.answer tgt op).toList ++ s.live

/-- A fresh arena. -/
def Session.start (a : Arena) : Session where
  arena := a
  live := []

/--
The sums a call forms, unreduced: the round-up of the size once it fits, then the address and
the new offset of the block.
-/
def Arena.sums (a : Arena) : Op → List Nat
  | .alloc bytes =>
    if bytes = 0 ∨ a.freeBytes < bytes then []
    else
      (bytes + (tgt.maxAlign - 1)) ::
        if a.Served tgt bytes then [a.buf + a.offset, a.offset + alignedSize tgt bytes] else []
  | .allocRest =>
    if (a.allocRest tgt).1 = 0 then []
    else [a.buf + a.offset, a.offset + (a.allocRest tgt).1]
  | .free _ => []
  | .reset => []

/--
How an arena comes about: over a buffer of the caller that lies in the address space, or over
a block of `bb_mem` that does.
-/
inductive Made (base : Nat) (a : Arena) : Prop where
  | init (size : Nat) (hspace : base + size ≤ tgt.sizeMax + 1)
      (hok : init tgt base size = .ok a)
  | fromBbMem (size : Nat) (hspace : base + (hdrSz tgt + size) ≤ tgt.sizeMax + 1)
      (hok : initFromBbMem tgt base size = .ok a)

/-! ## One call -/

variable {tgt} {a : Arena} {base : Nat} {s : Session}

/-- What a call does to the arena and hands out, for a call that does not rewind. -/
inductive Moves (tgt : Target) (a : Arena) : Op → Option Block → Arena → Prop where
  | served (op : Op) (len size : Nat) (a' : Arena) (hop : op.Requests) (hlen : len ≤ size)
      (hdvd : tgt.maxAlign ∣ size) (hroom : a.offset + size ≤ a.size)
      (hbuf : a'.buf = a.buf) (hsize : a'.size = a.size) (hoffset : a'.offset = a.offset + size)
      (hpeak : a'.stats.peakOffset = max a.stats.peakOffset a'.offset) :
      Moves tgt a op (some { ptr := a.buf + a.offset, len := len }) a'
  | refused (op : Op) (hop : op.Requests) : Moves tgt a op none a.fail
  | freed (ptr : Nat) : Moves tgt a (.free ptr) none (a.free ptr)

theorem moves_alloc (bytes : Nat) :
    Moves tgt a (.alloc bytes) (a.answer tgt (.alloc bytes)) (a.call tgt (.alloc bytes)) := by
  by_cases h : a.Served tgt bytes
  · have hroom := h.2.2.2
    have hle := a.offset_le
    have hmoved := alloc_of_served h
    unfold Arena.freeBytes at hroom
    have hanswer : a.answer tgt (.alloc bytes) =
        some { ptr := a.buf + a.offset, len := bytes } := by
      simp [Arena.answer, hmoved.1]
    rw [hanswer]
    apply Moves.served (.alloc bytes) bytes (alignedSize tgt bytes) _ trivial h.2.2.1
    · exact Nat.dvd_mul_left _ _
    · omega
    · exact hmoved.2.1
    · change (a.alloc tgt bytes).2.size = a.size
      unfold Arena.alloc
      rw [dif_pos h]
    · exact hmoved.2.2
    · change (a.alloc tgt bytes).2.stats.peakOffset =
        max a.stats.peakOffset (a.alloc tgt bytes).2.offset
      unfold Arena.alloc
      rw [dif_pos h]
  · have hfail := alloc_of_not_served h
    have hanswer : a.answer tgt (.alloc bytes) = none := by
      simp [Arena.answer, hfail]
    have hcall : a.call tgt (.alloc bytes) = a.fail := by
      simp [Arena.call, hfail]
    rw [hanswer, hcall]
    exact Moves.refused _ trivial

theorem moves_allocRest :
    Moves tgt a .allocRest (a.answer tgt .allocRest) (a.call tgt .allocRest) := by
  by_cases h : a.freeBytes / tgt.maxAlign * tgt.maxAlign = 0
  · have hfail : a.allocRest tgt = (0, a.fail) := by
      simp [Arena.allocRest, h]
    have hanswer : a.answer tgt .allocRest = none := by
      simp [Arena.answer, hfail]
    have hcall : a.call tgt .allocRest = a.fail := by
      simp [Arena.call, hfail]
    rw [hanswer, hcall]
    exact Moves.refused _ trivial
  · have hsize : (a.allocRest tgt).1 = a.freeBytes / tgt.maxAlign * tgt.maxAlign := by
      unfold Arena.allocRest
      rw [if_neg h]
    have hanswer : a.answer tgt .allocRest =
        some { ptr := a.buf + a.offset, len := a.freeBytes / tgt.maxAlign * tgt.maxAlign } := by
      unfold Arena.answer
      rw [hsize, if_neg h]
    have hroom : a.freeBytes / tgt.maxAlign * tgt.maxAlign ≤ a.freeBytes :=
      Nat.div_mul_le_self _ _
    have hle := a.offset_le
    unfold Arena.freeBytes at hroom
    rw [hanswer]
    apply Moves.served .allocRest _ (a.freeBytes / tgt.maxAlign * tgt.maxAlign) _ trivial
      (Nat.le_refl _)
    · exact Nat.dvd_mul_left _ _
    · unfold Arena.freeBytes
      omega
    all_goals
      simp only [Arena.call, Arena.allocRest, if_neg h]

/-- Every call but a reset serves a block at the offset, refuses, or counts a free. -/
theorem moves_call {op : Op} (hop : op ≠ .reset) :
    Moves tgt a op (a.answer tgt op) (a.call tgt op) := by
  cases op with
  | alloc bytes => exact moves_alloc bytes
  | allocRest => exact moves_allocRest
  | free ptr => exact Moves.freed ptr
  | reset => exact absurd rfl hop

/-- The most an arena has held does not fall. -/
theorem peak_le_step (op : Op) :
    s.arena.stats.peakOffset ≤ (s.step tgt op).arena.stats.peakOffset := by
  by_cases hop : op = .reset
  · subst hop
    exact Nat.le_refl _
  · have hmoves := @moves_call tgt s.arena op hop
    change _ ≤ (s.arena.call tgt op).stats.peakOffset
    revert hmoves
    generalize s.arena.call tgt op = a'
    generalize s.arena.answer tgt op = answer
    intro hmoves
    cases hmoves with
    | served _ len size _ hreq hlen hdvd hroom hbuf hsize hoffset hpeak =>
      rw [hpeak]
      exact Nat.le_max_left _ _
    | refused _ hreq => exact Nat.le_refl _
    | freed ptr =>
      unfold Arena.free
      split <;> exact Nat.le_refl _

theorem peak_le_run (s : Session) (ops : List Op) :
    s.arena.stats.peakOffset ≤ (run (Session.step tgt) s ops).arena.stats.peakOffset := by
  induction ops generalizing s with
  | nil => exact Nat.le_refl _
  | cons op ops ih => exact Nat.le_trans (peak_le_step op) (ih (s.step tgt op))

/-- A refused request only counts. -/
theorem step_of_refused {op : Op} (hop : op.Requests) (hnone : s.arena.answer tgt op = none) :
    s.step tgt op = { s with arena := s.arena.fail } := by
  have hmoves := @moves_call tgt s.arena op (by rintro rfl; exact hop)
  have hcall : s.arena.call tgt op = s.arena.fail := by
    revert hmoves
    generalize s.arena.call tgt op = a'
    rw [hnone]
    intro hmoves
    cases hmoves with
    | refused _ hreq => rfl
    | freed ptr => exact absurd hop id
  unfold Session.step
  rw [hcall, hnone]
  cases op with
  | alloc bytes => rfl
  | allocRest => rfl
  | free ptr => exact absurd hop id
  | reset => exact absurd hop id

/-! ## The arena at the start -/

/-- What a fresh arena is, however it came about. -/
structure Fresh (tgt : Target) (base : Nat) (a : Arena) : Prop where
  buf_eq : a.buf = base + hdrSz tgt
  offset_eq : a.offset = 0
  base_pos : 0 < base
  in_space : a.buf + a.size ≤ tgt.sizeMax + 1

theorem fresh_of_carve {size : Nat} {a : Arena} (hspace : base + size ≤ tgt.sizeMax + 1)
    (hok : carve tgt base size = .ok a) : Fresh tgt base a := by
  unfold carve at hok
  split at hok
  · cases hok
  · rename_i hfits
    cases hok
    have hbase : base ≠ 0 := fun h => hfits (Or.inl h)
    have hsize : hdrSz tgt + tgt.maxAlign ≤ size := Nat.le_of_not_lt fun h => hfits (Or.inr h)
    constructor
    · rfl
    · rfl
    · exact Nat.pos_of_ne_zero hbase
    · change base + hdrSz tgt + (size - hdrSz tgt) ≤ tgt.sizeMax + 1
      omega

theorem Made.fresh (h : Made tgt base a) : Fresh tgt base a := by
  cases h with
  | init size hspace hok => exact fresh_of_carve hspace hok
  | fromBbMem size hspace hok =>
    unfold initFromBbMem at hok
    split at hok
    · cases hok
    · split at hok
      · cases hok
      · split at hok
        · cases hok
        · cases hcarve : carve tgt base (hdrSz tgt + size) with
          | error err =>
            rw [hcarve] at hok
            cases hok
          | ok a₀ =>
            rw [hcarve] at hok
            cases hok
            have hfresh := fresh_of_carve hspace hcarve
            exact ⟨hfresh.buf_eq, hfresh.offset_eq, hfresh.base_pos, hfresh.in_space⟩

theorem dvd_hdrSz : tgt.maxAlign ∣ hdrSz tgt :=
  Nat.dvd_mul_left _ _

/-- The header leaves room for a round-up of any size that fits the region. -/
theorem Fresh.roundUp_room (h : Fresh tgt base a) : a.size + tgt.maxAlign ≤ tgt.sizeMax := by
  have hpos : 0 < hdrSz tgt := Nat.lt_of_lt_of_le tgt.sizeofArena_pos (le_roundUp _)
  have hhdr : tgt.maxAlign ≤ hdrSz tgt := Nat.le_of_dvd hpos dvd_hdrSz
  have hbuf := h.buf_eq
  have hbase := h.base_pos
  have hspace := h.in_space
  omega

/-! ## Every run -/

/-- The invariant of a session whose arena started as `a`. -/
structure Inv (tgt : Target) (base : Nat) (a : Arena) (s : Session) : Prop where
  buf_eq : s.arena.buf = a.buf
  size_eq : s.arena.size = a.size
  dvd_offset : tgt.maxAlign ∣ s.arena.offset
  peak_ge : s.arena.offset ≤ s.arena.stats.peakOffset
  below : ∀ b ∈ s.live, a.buf ≤ b.ptr ∧ b.stop ≤ a.buf + s.arena.offset
  apart : s.live.Pairwise Block.Apart
  aligned : ∀ b ∈ s.live, b.ptr % tgt.maxAlign = base % tgt.maxAlign

theorem inv_start (h : Fresh tgt base a) : Inv tgt base a (Session.start a) where
  buf_eq := rfl
  size_eq := rfl
  dvd_offset := by
    change tgt.maxAlign ∣ a.offset
    rw [h.offset_eq]
    exact Nat.dvd_zero _
  peak_ge := by
    change a.offset ≤ a.stats.peakOffset
    rw [h.offset_eq]
    exact Nat.zero_le _
  below := fun _ hb => absurd hb List.not_mem_nil
  apart := List.Pairwise.nil
  aligned := fun _ hb => absurd hb List.not_mem_nil

/-- The address at the offset is as aligned as the start of the memory. -/
theorem Inv.cursor_aligned (hfresh : Fresh tgt base a) (h : Inv tgt base a s) :
    (s.arena.buf + s.arena.offset) % tgt.maxAlign = base % tgt.maxAlign := by
  rcases h.dvd_offset with ⟨n, hn⟩
  rcases @dvd_hdrSz tgt with ⟨m, hm⟩
  rw [h.buf_eq, hfresh.buf_eq, hn, hm, Nat.add_assoc, ← Nat.mul_add, Nat.add_mul_mod_self_left]

/-- A block served at the offset keeps the invariant. -/
theorem Inv.served (hfresh : Fresh tgt base a) (h : Inv tgt base a s) {len size : Nat} {a' : Arena}
    (hlen : len ≤ size) (hdvd : tgt.maxAlign ∣ size) (hbuf : a'.buf = s.arena.buf)
    (hsize : a'.size = s.arena.size) (hoffset : a'.offset = s.arena.offset + size)
    (hpeak : a'.stats.peakOffset = max s.arena.stats.peakOffset a'.offset) :
    Inv tgt base a
      { arena := a'
        live := { ptr := s.arena.buf + s.arena.offset, len := len } :: s.live } where
  buf_eq := hbuf.trans h.buf_eq
  size_eq := hsize.trans h.size_eq
  dvd_offset := by
    change tgt.maxAlign ∣ a'.offset
    rw [hoffset]
    exact Nat.dvd_add h.dvd_offset hdvd
  peak_ge := by
    change a'.offset ≤ a'.stats.peakOffset
    rw [hpeak]
    exact Nat.le_max_right _ _
  below := by
    intro b hb
    change a.buf ≤ b.ptr ∧ b.stop ≤ a.buf + a'.offset
    have hstart := h.buf_eq
    rcases List.mem_cons.mp hb with rfl | hold
    · unfold Block.stop
      dsimp only
      omega
    · have hbelow := h.below b hold
      omega
  apart := by
    apply List.Pairwise.cons
    · intro b hold
      apply Or.inr
      have hbelow := h.below b hold
      have hstart := h.buf_eq
      dsimp only
      omega
    · exact h.apart
  aligned := by
    intro b hb
    rcases List.mem_cons.mp hb with rfl | hold
    · exact h.cursor_aligned hfresh
    · exact h.aligned b hold

/-- An arena that differs in its counters only keeps the invariant. -/
theorem Inv.counted (h : Inv tgt base a s) {a' : Arena} (hbuf : a'.buf = s.arena.buf)
    (hsize : a'.size = s.arena.size) (hoffset : a'.offset = s.arena.offset)
    (hpeak : a'.stats.peakOffset = s.arena.stats.peakOffset) :
    Inv tgt base a { s with arena := a' } where
  buf_eq := hbuf.trans h.buf_eq
  size_eq := hsize.trans h.size_eq
  dvd_offset := hoffset ▸ h.dvd_offset
  peak_ge := by
    change a'.offset ≤ a'.stats.peakOffset
    rw [hoffset, hpeak]
    exact h.peak_ge
  below := by
    change ∀ b ∈ s.live, a.buf ≤ b.ptr ∧ b.stop ≤ a.buf + a'.offset
    rw [hoffset]
    exact h.below
  apart := h.apart
  aligned := h.aligned

theorem inv_reset (h : Inv tgt base a s) : Inv tgt base a (s.step tgt .reset) where
  buf_eq := h.buf_eq
  size_eq := h.size_eq
  dvd_offset := Nat.dvd_zero _
  peak_ge := Nat.zero_le _
  below := fun _ hb => absurd hb List.not_mem_nil
  apart := List.Pairwise.nil
  aligned := fun _ hb => absurd hb List.not_mem_nil

theorem step_eq_of_ne_reset {op : Op} (hop : op ≠ .reset) :
    s.step tgt op =
      { arena := s.arena.call tgt op
        live := (s.arena.answer tgt op).toList ++ s.live } := by
  cases op with
  | reset => exact absurd rfl hop
  | alloc bytes => rfl
  | allocRest => rfl
  | free ptr => rfl

theorem inv_step (hfresh : Fresh tgt base a) (h : Inv tgt base a s) (op : Op) :
    Inv tgt base a (s.step tgt op) := by
  by_cases hop : op = .reset
  · subst hop
    exact inv_reset h
  · have hmoves := @moves_call tgt s.arena op hop
    rw [step_eq_of_ne_reset hop]
    revert hmoves
    generalize s.arena.call tgt op = a'
    generalize s.arena.answer tgt op = answer
    intro hmoves
    cases hmoves with
    | served _ len size _ hreq hlen hdvd hroom hbuf hsize hoffset hpeak =>
      exact h.served hfresh hlen hdvd hbuf hsize hoffset hpeak
    | refused _ hreq => exact h.counted rfl rfl rfl rfl
    | freed ptr =>
      apply h.counted free_buf free_size free_offset
      unfold Arena.free
      split <;> rfl

/-! ## What an arena promises -/

/--
The promise in a state of an arena that started as `a` at the address `base`: on the
blocks handed out since the last reset, and on every call and run from here.
-/
structure Promise (tgt : Target) (base : Nat) (a : Arena) (s : Session) : Prop where
  apart : s.live.Pairwise Block.Apart
  inside : ∀ b ∈ s.live, a.buf ≤ b.ptr ∧ b.stop ≤ a.buf + a.size
  aligned : ∀ b ∈ s.live, b.ptr % tgt.maxAlign = base % tgt.maxAlign
  offset_le : s.arena.offset ≤ a.size
  no_wrap : ∀ op, ∀ n ∈ s.arena.sums tgt op, n ≤ tgt.sizeMax
  refused : ∀ op : Op, op.Requests → s.arena.answer tgt op = none →
    s.step tgt op = { s with arena := s.arena.fail }
  peak_ge : s.arena.offset ≤ s.arena.stats.peakOffset
  peak_mono : ∀ more,
    s.arena.stats.peakOffset ≤ (run (Session.step tgt) s more).arena.stats.peakOffset

/-- A served block starts below the end of the region and its end is in the region. -/
theorem Inv.sums_served (hfresh : Fresh tgt base a) (h : Inv tgt base a s) {size : Nat}
    (hpos : 0 < size) (hroom : s.arena.offset + size ≤ s.arena.size) :
    s.arena.buf + s.arena.offset ≤ tgt.sizeMax ∧ s.arena.offset + size ≤ tgt.sizeMax := by
  have hspace := hfresh.in_space
  have hsize := h.size_eq
  have hbuf := h.buf_eq
  have hstart := a.buf_pos
  omega

theorem Inv.no_wrap (hfresh : Fresh tgt base a) (h : Inv tgt base a s) (op : Op) :
    ∀ n ∈ s.arena.sums tgt op, n ≤ tgt.sizeMax := by
  have hle := s.arena.offset_le
  cases op with
  | alloc bytes =>
    intro n hn
    unfold Arena.sums at hn
    dsimp only at hn
    split at hn
    · exact absurd hn List.not_mem_nil
    · rename_i hask
      rcases not_or.mp hask with ⟨hbytes, hfits⟩
      unfold Arena.freeBytes at hfits
      rcases List.mem_cons.mp hn with rfl | hrest
      · have hroom := hfresh.roundUp_room
        have hsize := h.size_eq
        omega
      · split at hrest
        · rename_i hserved
          have hroom := hserved.2.2.2
          unfold Arena.freeBytes at hroom
          have hpos := Nat.lt_of_lt_of_le (Nat.pos_of_ne_zero hbytes) hserved.2.2.1
          have hsums := h.sums_served hfresh hpos (by omega)
          simp only [List.mem_cons, List.not_mem_nil, or_false] at hrest
          rcases hrest with rfl | rfl
          · exact hsums.1
          · exact hsums.2
        · exact absurd hrest List.not_mem_nil
  | allocRest =>
    intro n hn
    unfold Arena.sums at hn
    dsimp only at hn
    split at hn
    · exact absurd hn List.not_mem_nil
    · rename_i hsome
      have hmoves := @moves_allocRest tgt s.arena
      unfold Arena.answer at hmoves
      rw [if_neg hsome] at hmoves
      cases hmoves with
      | served _ len size _ hreq hlen hdvd hroom hbuf hsize hoffset hpeak =>
        have hpos := Nat.lt_of_lt_of_le (Nat.pos_of_ne_zero hsome) hlen
        have hsums := h.sums_served hfresh hpos hroom
        simp only [List.mem_cons, List.not_mem_nil, or_false] at hn
        rcases hn with rfl | rfl
        · exact hsums.1
        · exact Nat.le_trans (Nat.add_le_add_left hlen _) hsums.2
  | free ptr => exact fun _ hn => absurd hn List.not_mem_nil
  | reset => exact fun _ hn => absurd hn List.not_mem_nil

theorem Inv.promise (hfresh : Fresh tgt base a) (h : Inv tgt base a s) : Promise tgt base a s where
  apart := h.apart
  inside := by
    intro b hb
    have hbelow := h.below b hb
    have hle := s.arena.offset_le
    have hsize := h.size_eq
    omega
  aligned := h.aligned
  offset_le := h.size_eq ▸ s.arena.offset_le
  no_wrap := h.no_wrap hfresh
  refused := fun _ hop hnone => step_of_refused hop hnone
  peak_ge := h.peak_ge
  peak_mono := peak_le_run s

/-- An arena keeps its promise over every run. -/
theorem hands_out_disjoint (hmade : Made tgt base a) (ops : List Op) :
    Promise tgt base a (run (Session.step tgt) (Session.start a) ops) := by
  have hfresh := hmade.fresh
  have hstep : ∀ s op, Inv tgt base a s → Inv tgt base a (s.step tgt op) :=
    fun _ op hs => inv_step hfresh hs op
  have hinv := run_invariant hstep (inv_start hfresh) ops
  exact hinv.promise hfresh

/-- An arena of 24 bytes behind its header, at an address that is no multiple of 8. -/
def oddArena : Arena where
  buf := 44
  size := 24
  offset := 0
  stats := { allocCount := 0, allocFailed := 0, freeCount := 0, peakOffset := 0 }
  ownedBlock := none
  buf_pos := by decide
  offset_le := by decide

/-- An allocation, a refused one, the rest, and one after a reset. -/
theorem hands_out_disjoint_odd :
    Promise Target.ilp32 4 oddArena
      (run (Session.step Target.ilp32) (Session.start oddArena)
        [.alloc 5, .alloc 17, .allocRest, .reset, .alloc 4294967295]) :=
  hands_out_disjoint (Made.init 64 (by decide) rfl) _

/-- Over an unaligned buffer blocks are unaligned, and a refused request is counted. -/
theorem odd_buffer_unaligned :
    ¬ (∀ base size a, init Target.ilp32 base size = .ok a → ∀ ops,
        ∀ b ∈ (run (Session.step Target.ilp32) (Session.start a) ops).live,
          Target.ilp32.maxAlign ∣ b.ptr) ∧
      ¬ (∀ base size a, init Target.ilp32 base size = .ok a → ∀ op : Op, op.Requests →
        a.answer Target.ilp32 op = none →
          (Session.start a).step Target.ilp32 op = Session.start a) := by
  constructor
  · intro hall
    have hodd := hall 4 64 oddArena rfl [.alloc 8] { ptr := 44, len := 8 } (by decide)
    revert hodd
    decide
  · intro hall
    have hsame := hall 4 64 oddArena rfl (.alloc 0) trivial (by decide)
    have hfailed := congrArg (fun s : Session => s.arena.stats.allocFailed) hsame
    revert hfailed
    decide

end MemArena
end Breadboard
