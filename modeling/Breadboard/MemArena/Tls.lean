import Breadboard.Foundations.Blocks
import Breadboard.Foundations.Runs
import Breadboard.MemArena.Arena

/-!
# bb_mem_arena_tls - the allocator of the TLS library

`calloc` is served from an arena in a static buffer while it has room, and
from the internal heap otherwise.  The arena reclaims nothing, but a counter of
its outstanding blocks rewinds it when the last of them is freed.  The size of a
block is formed in `size_t` before anything is checked.

Every call holds one mutex from start to end, so a run is a list of calls.  The
heap is not modelled: a call carries what the heap would answer.  The ledger of
the live blocks, with the length that was asked for, is not part of the program.

Main result:

- Theorem `correct_iff`: the calls of a run are those of a correct `calloc` and
  `free` exactly when no size wraps and is then served from the arena.
-/

namespace Breadboard
namespace MemArenaTls

open Foundations MemArena

/-- The static buffer `s_arena_buf`. -/
structure Buffer (tgt : Target) where
  addr : Nat
  size : Nat
  addr_pos : 0 < addr
  in_space : addr + size ≤ tgt.sizeMax + 1

variable (tgt : Target)

/-- A live block, and whether the arena has served it. -/
structure Live extends Block where
  inArena : Bool
  deriving Repr, DecidableEq

/-- The statics of the allocator, the memory, and the ledger of the live blocks. -/
structure Tls where
  arena : Option Arena
  outstanding : Nat
  mem : Nat → UInt8
  live : List Live

/-- Before the first call. -/
def Tls.boot (mem : Nat → UInt8) : Tls where
  arena := none
  outstanding := 0
  mem := mem
  live := []

/-- Calls, with the answer of the heap where it may be asked, and writes of the owners. -/
inductive Action where
  | init
  | calloc (n size : Nat) (heap : Option Nat)
  | free (ptr : Nat)
  | write (addr : Nat) (byte : UInt8)
  deriving DecidableEq

/-- `bb_mem_arena_owns`. -/
def owns (a : Arena) (ptr : Nat) : Prop :=
  ptr ≠ 0 ∧ a.buf ≤ ptr ∧ ptr < a.buf + a.size

instance (a : Arena) (ptr : Nat) : Decidable (owns a ptr) :=
  inferInstanceAs (Decidable (_ ∧ _))

/-- `bb_mem_arena_tls_init`: only the first call carves the arena. -/
def tlsInit (buffer : Buffer tgt) (s : Tls) : Tls :=
  match s.arena with
  | some _ => s
  | none =>
    match MemArena.init tgt buffer.addr buffer.size with
    | .ok a => { s with arena := some a, outstanding := 0 }
    | .error _ => { s with outstanding := 0 }

/-- `size_t total = n * size`. -/
def total (n size : Nat) : Nat :=
  n * size % (tgt.sizeMax + 1)

/-- `bb_calloc_internal`: a block of zeroes from the heap, or NULL. -/
def heapCalloc (s : Tls) (n size : Nat) (heap : Option Nat) : Option Nat × Tls :=
  match heap with
  | none => (none, s)
  | some p =>
    let block : Block := { ptr := p, len := n * size }
    (some p,
      { s with
        mem := fill s.mem block 0
        live := { toBlock := block, inArena := false } :: s.live })

/-- The arena has served a request: the block is zeroed and counted. -/
def served (s : Tls) (a' : Arena) (p total len : Nat) : Tls where
  arena := some a'
  outstanding := s.outstanding + 1
  mem := fill s.mem { ptr := p, len := total } 0
  live := { ptr := p, len := len, inArena := true } :: s.live

/-- `bb_mem_arena_tls_calloc_impl`. -/
def callocImpl (s : Tls) (n size : Nat) (heap : Option Nat) : Option Nat × Tls :=
  if total tgt n size = 0 then (none, s)
  else
    match s.arena with
    | none => heapCalloc s n size heap
    | some a =>
      match a.alloc tgt (total tgt n size) with
      | (none, a') => heapCalloc { s with arena := some a' } n size heap
      | (some p, a') => (some p, served s a' p (total tgt n size) (n * size))

/-- The ledger without the block at an address. -/
def Tls.release (s : Tls) (ptr : Nat) : Tls :=
  { s with live := s.live.filter fun b => b.ptr ≠ ptr }

/-- The end of `bb_mem_arena_tls_free_impl` for a block of the arena. -/
def drain (a : Arena) (outstanding : Nat) : Arena :=
  if outstanding = 0 then a.reset else a

@[simp] theorem drain_buf (a : Arena) (outstanding : Nat) :
    (drain a outstanding).buf = a.buf := by
  unfold drain
  split <;> rfl

@[simp] theorem drain_size (a : Arena) (outstanding : Nat) :
    (drain a outstanding).size = a.size := by
  unfold drain
  split <;> rfl

/-- `bb_mem_arena_tls_free_impl`. -/
def freeImpl (s : Tls) (ptr : Nat) : Tls :=
  if ptr = 0 then s
  else
    match s.arena with
    | none => s.release ptr
    | some a =>
      if owns a ptr then
        let outstanding := s.outstanding - 1
        { s with
          arena := some (drain (a.free ptr) outstanding)
          outstanding := outstanding }.release ptr
      else s.release ptr

/-- One call, with the pointer it returns. -/
def call (buffer : Buffer tgt) (s : Tls) : Action → Option Nat × Tls
  | .init => (none, tlsInit tgt buffer s)
  | .calloc n size heap => callocImpl tgt s n size heap
  | .free ptr => (none, freeImpl s ptr)
  | .write addr byte =>
    (none, { s with mem := fill s.mem { ptr := addr, len := 1 } byte })

def step (buffer : Buffer tgt) (s : Tls) (a : Action) : Tls :=
  (call tgt buffer s a).2

/-! ## What is assumed and what is promised -/

/-- A correct heap: its blocks are not NULL, lie in memory, and are apart from all other memory. -/
def HeapAnswers (buffer : Buffer tgt) (s : Tls) (len : Nat) (heap : Option Nat) : Prop :=
  ∀ p ∈ heap, p ≠ 0 ∧ p + len ≤ tgt.sizeMax + 1 ∧
    Block.Apart { ptr := p, len := len } { ptr := buffer.addr, len := buffer.size } ∧
    ∀ b ∈ s.live, b.inArena = false → Block.Apart { ptr := p, len := len } b.toBlock

/-- The environment: a correct heap, frees of live blocks, writes into live blocks. -/
def Legal (buffer : Buffer tgt) (s : Tls) : Action → Prop
  | .init => True
  | .calloc n size heap =>
    n ≤ tgt.sizeMax ∧ size ≤ tgt.sizeMax ∧ HeapAnswers tgt buffer s (n * size) heap
  | .free ptr => ∃ b ∈ s.live, b.ptr = ptr
  | .write addr _ => ∃ b ∈ s.live, b.ptr ≤ addr ∧ addr < b.stop

/-- The live blocks of the arena. -/
def Tls.arenaBlocks (s : Tls) : List Live :=
  s.live.filter fun b => b.inArena

/-- A block returned for `n * size` bytes: zeroes, room, and no byte of another block. -/
structure ReturnedOk (s s' : Tls) (block : Block) : Prop where
  zero : ∀ addr, block.ptr ≤ addr → addr < block.stop → s'.mem addr = 0
  apart : ∀ b ∈ s.live, block.Apart b.toBlock
  room : ∀ a, s.arena = some a → owns a block.ptr → block.stop ≤ a.buf + a.size

/-- What one call of a correct allocator does. -/
structure CallOk (buffer : Buffer tgt) (s : Tls) (act : Action) : Prop where
  returned : ∀ n size heap p, act = .calloc n size heap →
    (call tgt buffer s act).1 = some p →
      ReturnedOk s (step tgt buffer s act) { ptr := p, len := n * size }
  counted : (step tgt buffer s act).outstanding = (step tgt buffer s act).arenaBlocks.length
  rewound : ∀ a a', s.arena = some a → (step tgt buffer s act).arena = some a' →
    a'.offset < a.offset → (step tgt buffer s act).arenaBlocks = []
  reused : ∀ n size heap a, act = .calloc n size heap → s.arena = some a → s.arenaBlocks = [] →
    0 < n * size → roundUp tgt (n * size) ≤ a.size →
      ∃ p, (call tgt buffer s act).1 = some p ∧ owns a p

/-- No size wraps around and is then served from the arena. -/
def NoWrap (s : Tls) : Action → Prop
  | .calloc n size _ =>
    n * size ≤ tgt.sizeMax ∨ total tgt n size = 0 ∨
      ∀ a, s.arena = some a → ¬ a.Served tgt (total tgt n size)
  | _ => True

/-! ## The ledger -/

/-- A block of the ledger is the only one at its address. -/
theorem filter_ptr_eq {l : List Live} (hapart : l.Pairwise fun b c => b.Apart c.toBlock)
    (hbytes : ∀ b ∈ l, 0 < b.len) {b : Live} (hb : b ∈ l) :
    (l.filter fun c => c.ptr = b.ptr) = [b] := by
  induction l with
  | nil => cases hb
  | cons c rest ih =>
    obtain ⟨hhead, htail⟩ := List.pairwise_cons.mp hapart
    have hrest : ∀ d ∈ rest, c.ptr ≠ d.ptr := fun d hd =>
      (hhead d hd).ptr_ne (hbytes c (by simp)) (hbytes d (List.mem_cons_of_mem c hd))
    rcases List.mem_cons.mp hb with rfl | hbrest
    · have hnone : (rest.filter fun d => d.ptr = b.ptr) = [] := by
        rw [List.filter_eq_nil_iff]
        intro d hd heq
        exact hrest d hd (of_decide_eq_true heq).symm
      simp [hnone]
    · have hne := hrest b hbrest
      rw [List.filter_cons_of_neg (by simpa using hne)]
      exact ih htail (fun d hd => hbytes d (List.mem_cons_of_mem c hd)) hbrest

/-- Releasing a block takes it out of the count of the arena blocks, if it is one. -/
theorem arenaBlocks_release {s : Tls} (hapart : s.live.Pairwise fun b c => b.Apart c.toBlock)
    (hbytes : ∀ b ∈ s.live, 0 < b.len) {b : Live} (hb : b ∈ s.live) :
    s.arenaBlocks.length =
      (s.release b.ptr).arenaBlocks.length + if b.inArena then 1 else 0 := by
  have hsplit := List.countP_eq_countP_filter_add s.live (fun c => c.inArena)
    (fun c => c.ptr ≠ b.ptr)
  have hone : (s.live.filter fun c => !decide (c.ptr ≠ b.ptr)) = [b] := by
    simpa using filter_ptr_eq hapart hbytes hb
  simp only [Tls.arenaBlocks, Tls.release, ← List.countP_eq_length_filter]
  rw [hsplit, hone]
  cases harena : b.inArena <;> simp [harena]

/-- What holds between two calls. -/
structure Inv (buffer : Buffer tgt) (s : Tls) : Prop where
  counted : s.outstanding = s.arenaBlocks.length
  placed : ∀ a, s.arena = some a →
    a.buf = buffer.addr + hdrSz tgt ∧ a.size = buffer.size - hdrSz tgt ∧
      hdrSz tgt + tgt.maxAlign ≤ buffer.size
  uncarved : s.arena = none → s.arenaBlocks = []
  bumped : ∀ b ∈ s.live, b.inArena = true → ∀ a, s.arena = some a →
    a.buf ≤ b.ptr ∧ b.stop ≤ a.buf + a.offset
  rewound : ∀ a, s.arena = some a → s.arenaBlocks = [] → a.offset = 0
  heap : ∀ b ∈ s.live, b.inArena = false →
    b.ptr ≠ 0 ∧ b.Apart { ptr := buffer.addr, len := buffer.size }
  bytes : ∀ b ∈ s.live, 0 < b.len
  apart : s.live.Pairwise fun b c => b.Apart c.toBlock

variable {tgt} {buffer : Buffer tgt} {s : Tls}

theorem inv_boot (mem : Nat → UInt8) : Inv tgt buffer (Tls.boot mem) where
  counted := rfl
  placed := by simp [Tls.boot]
  uncarved := fun _ => rfl
  bumped := by simp [Tls.boot]
  rewound := by simp [Tls.boot]
  heap := by simp [Tls.boot]
  bytes := by simp [Tls.boot]
  apart := List.Pairwise.nil

/-! ## Each call keeps the invariant -/

/-- What a block of the ledger has to do with the range of the arena. -/
theorem Inv.owns_iff (h : Inv tgt buffer s) {a : Arena} (ha : s.arena = some a) {b : Live}
    (hb : b ∈ s.live) : owns a b.ptr ↔ b.inArena = true := by
  obtain ⟨hbuf, hsize, hfits⟩ := h.placed a ha
  have hlen := h.bytes b hb
  cases harena : b.inArena with
  | true =>
    obtain ⟨hlow, hhigh⟩ := h.bumped b hb harena a ha
    have hoff := a.offset_le
    have hpos := a.buf_pos
    unfold Block.stop at hhigh
    simp only [owns, iff_true]
    omega
  | false =>
    obtain ⟨-, hapart⟩ := h.heap b hb harena
    simp only [Block.Apart, Block.stop] at hapart
    simp only [owns, Bool.false_eq_true, iff_false]
    omega

theorem Inv.init (h : Inv tgt buffer s) : Inv tgt buffer (tlsInit tgt buffer s) := by
  unfold tlsInit
  cases ha : s.arena with
  | some a => exact h
  | none =>
    have hnone := h.uncarved ha
    have hzero : 0 = s.arenaBlocks.length := by rw [hnone, List.length_nil]
    simp only [MemArena.init, carve]
    split
    · rename_i hcarved
      split at hcarved
      · cases hcarved
      · rename_i hfits
        cases hcarved
        refine ⟨hzero, ?_, by simp, ?_, ?_, h.heap, h.bytes, h.apart⟩
        · intro a hsome
          cases hsome
          exact ⟨rfl, rfl, by omega⟩
        · intro b hb harena
          have hmem : b ∈ s.arenaBlocks := List.mem_filter.mpr ⟨hb, harena⟩
          rw [hnone] at hmem
          cases hmem
        · intro a hsome _
          cases hsome
          rfl
    · refine ⟨hzero, by simp, fun _ => hnone, ?_, by simp, h.heap, h.bytes, h.apart⟩
      exact fun b hb hin a hsome => by cases hsome

/-- A block of the arena lies in the static buffer. -/
theorem Inv.in_buffer (h : Inv tgt buffer s) {b : Live} (hb : b ∈ s.live)
    (hin : b.inArena = true) : buffer.addr ≤ b.ptr ∧ b.stop ≤ buffer.addr + buffer.size := by
  cases ha : s.arena with
  | none =>
    have hmem : b ∈ s.arenaBlocks := List.mem_filter.mpr ⟨hb, hin⟩
    rw [h.uncarved ha] at hmem
    cases hmem
  | some a =>
    obtain ⟨hbuf, hsize, hfits⟩ := h.placed a ha
    obtain ⟨hlow, hhigh⟩ := h.bumped b hb hin a ha
    have hoff := a.offset_le
    omega

/-- A block that the heap answers is apart from every live block. -/
theorem Inv.heap_apart (h : Inv tgt buffer s) {len p : Nat} {heap : Option Nat}
    (hheap : HeapAnswers tgt buffer s len heap) (hp : p ∈ heap) {b : Live} (hb : b ∈ s.live) :
    Block.Apart { ptr := p, len := len } b.toBlock := by
  obtain ⟨-, -, hbuffer, hothers⟩ := hheap p hp
  cases hin : b.inArena with
  | false => exact hothers b hb hin
  | true =>
    obtain ⟨hlow, hhigh⟩ := h.in_buffer hb hin
    simp only [Block.Apart, Block.stop] at hbuffer hhigh ⊢
    omega

theorem Inv.heapCalloc (h : Inv tgt buffer s) {n size : Nat} {heap : Option Nat}
    (hbytes : 0 < n * size) (hheap : HeapAnswers tgt buffer s (n * size) heap) :
    Inv tgt buffer (heapCalloc s n size heap).2 := by
  cases heap with
  | none => exact h
  | some p =>
    obtain ⟨hp, -, hbuffer, -⟩ := hheap p rfl
    refine ⟨h.counted, h.placed, h.uncarved, ?_, h.rewound, ?_, ?_, ?_⟩
    · intro b hb hin
      rcases List.mem_cons.mp hb with rfl | hb
      · cases hin
      · exact h.bumped b hb hin
    · intro b hb hout
      rcases List.mem_cons.mp hb with rfl | hb
      · exact ⟨hp, hbuffer⟩
      · exact h.heap b hb hout
    · intro b hb
      rcases List.mem_cons.mp hb with rfl | hb
      · exact hbytes
      · exact h.bytes b hb
    · exact List.pairwise_cons.mpr ⟨fun b hb => h.heap_apart hheap rfl hb, h.apart⟩

/-- Counting a failed request changes nothing that the invariant speaks of. -/
theorem Inv.fail (h : Inv tgt buffer s) {a : Arena} (ha : s.arena = some a) :
    Inv tgt buffer { s with arena := some a.fail } where
  counted := h.counted
  placed := by
    intro a' hsome
    cases hsome
    exact h.placed a ha
  uncarved := by simp
  bumped := by
    intro b hb hin a' hsome
    cases hsome
    exact h.bumped b hb hin a ha
  rewound := by
    intro a' hsome hnone
    cases hsome
    exact h.rewound a ha hnone
  heap := h.heap
  bytes := h.bytes
  apart := h.apart

/-- A block that the arena serves starts behind all blocks of the arena. -/
theorem Inv.served_apart (h : Inv tgt buffer s) {a : Arena} (ha : s.arena = some a) {len : Nat}
    (hroom : len ≤ a.size - a.offset) {b : Live} (hb : b ∈ s.live) :
    Block.Apart { ptr := a.buf + a.offset, len := len } b.toBlock := by
  have hoff := a.offset_le
  obtain ⟨hbuf, hsize, hfits⟩ := h.placed a ha
  cases hin : b.inArena with
  | true =>
    obtain ⟨-, hhigh⟩ := h.bumped b hb hin a ha
    simp only [Block.Apart, Block.stop] at hhigh ⊢
    omega
  | false =>
    obtain ⟨-, hapart⟩ := h.heap b hb hin
    simp only [Block.Apart, Block.stop] at hapart ⊢
    omega

/-- Serving a request whose size did not wrap keeps the invariant. -/
theorem Inv.served (h : Inv tgt buffer s) {a a' : Arena} (ha : s.arena = some a) {len p : Nat}
    (hlen : 0 < len) (halloc : a.alloc tgt len = (some p, a')) :
    Inv tgt buffer (served s a' p len len) := by
  obtain ⟨⟨-, hfree, hup, haligned⟩, rfl, hbuf, hsize, hoffset⟩ := alloc_spec halloc
  unfold Arena.freeBytes at hfree haligned
  have hplaced := h.placed a ha
  refine ⟨?_, ?_, by simp [MemArenaTls.served], ?_, ?_, ?_, ?_, ?_⟩
  · simp [MemArenaTls.served, Tls.arenaBlocks, h.counted]
  · intro a₂ hsome
    cases hsome
    rw [hbuf, hsize]
    exact hplaced
  · intro b hb hin a₂ hsome
    cases hsome
    rw [hbuf, hoffset]
    rcases List.mem_cons.mp hb with rfl | hb
    · simp only [Block.stop]
      omega
    · obtain ⟨hlow, hhigh⟩ := h.bumped b hb hin a ha
      omega
  · intro a₂ _ hnone
    simp [MemArenaTls.served, Tls.arenaBlocks] at hnone
  · intro b hb hout
    rcases List.mem_cons.mp hb with rfl | hb
    · cases hout
    · exact h.heap b hb hout
  · intro b hb
    rcases List.mem_cons.mp hb with rfl | hb
    · exact hlen
    · exact h.bytes b hb
  · exact List.pairwise_cons.mpr ⟨fun b hb => h.served_apart ha hfree hb, h.apart⟩

/-- The ways through `bb_mem_arena_tls_calloc_impl`. -/
inductive Callocs (tgt : Target) (s : Tls) (n size : Nat) (heap : Option Nat) :
    Option Nat × Tls → Prop where
  | empty (hzero : total tgt n size = 0) : Callocs tgt s n size heap (none, s)
  | noArena (htotal : total tgt n size ≠ 0) (ha : s.arena = none) :
      Callocs tgt s n size heap (heapCalloc s n size heap)
  | fallback (a : Arena) (htotal : total tgt n size ≠ 0) (ha : s.arena = some a)
      (hnot : ¬ a.Served tgt (total tgt n size)) :
      Callocs tgt s n size heap (heapCalloc { s with arena := some a.fail } n size heap)
  | arena (a a' : Arena) (p : Nat) (htotal : total tgt n size ≠ 0) (ha : s.arena = some a)
      (halloc : a.alloc tgt (total tgt n size) = (some p, a')) :
      Callocs tgt s n size heap (some p, served s a' p (total tgt n size) (n * size))

theorem callocs_callocImpl (s : Tls) (n size : Nat) (heap : Option Nat) :
    Callocs tgt s n size heap (callocImpl tgt s n size heap) := by
  unfold callocImpl
  by_cases htotal : total tgt n size = 0
  · rw [if_pos htotal]
    exact .empty htotal
  · rw [if_neg htotal]
    cases ha : s.arena with
    | none => exact .noArena htotal ha
    | some a =>
      cases halloc : a.alloc tgt (total tgt n size) with
      | mk reply a' =>
        cases reply with
        | some p =>
          simp only [halloc]
          exact .arena a a' p htotal ha halloc
        | none =>
          have hnot : ¬ a.Served tgt (total tgt n size) := fun hserved => by
            have hsome := (alloc_of_served hserved).1
            rw [halloc] at hsome
            cases hsome
          have hfail := alloc_of_not_served hnot
          rw [halloc] at hfail
          cases hfail
          simp only [halloc]
          exact .fallback a htotal ha hnot

theorem total_of_fits {n size : Nat} (h : n * size ≤ tgt.sizeMax) :
    total tgt n size = n * size :=
  Nat.mod_eq_of_lt (Nat.lt_succ_of_le h)

theorem mul_pos_of_total {n size : Nat} (h : total tgt n size ≠ 0) : 0 < n * size := by
  refine Nat.pos_of_ne_zero fun hzero => h ?_
  rw [total, hzero, Nat.zero_mod]

/-- A size that wraps around is not served, under the condition. -/
theorem fits_of_noWrap {n size : Nat} {heap : Option Nat} {a a' : Arena} {p : Nat}
    (hcond : NoWrap tgt s (.calloc n size heap)) (htotal : total tgt n size ≠ 0)
    (ha : s.arena = some a) (halloc : a.alloc tgt (total tgt n size) = (some p, a')) :
    n * size ≤ tgt.sizeMax := by
  rcases hcond with hfits | hzero | hnot
  · exact hfits
  · exact absurd hzero htotal
  · exact absurd (alloc_spec halloc).1 (hnot a ha)

theorem Inv.calloc (h : Inv tgt buffer s) {n size : Nat} {heap : Option Nat}
    (hheap : HeapAnswers tgt buffer s (n * size) heap)
    (hcond : NoWrap tgt s (.calloc n size heap)) :
    Inv tgt buffer (callocImpl tgt s n size heap).2 := by
  generalize hresult : callocImpl tgt s n size heap = result
  cases hresult ▸ @callocs_callocImpl tgt s n size heap with
  | empty => exact h
  | noArena htotal => exact h.heapCalloc (mul_pos_of_total htotal) hheap
  | fallback a htotal ha => exact (h.fail ha).heapCalloc (mul_pos_of_total htotal) hheap
  | arena a a' p htotal ha halloc =>
    have hfits := total_of_fits (fits_of_noWrap hcond htotal ha halloc)
    rw [hfits] at halloc ⊢
    exact h.served ha (mul_pos_of_total htotal) halloc

theorem Inv.release (h : Inv tgt buffer s) {ptr : Nat}
    (hcounted : (s.release ptr).arenaBlocks.length = s.arenaBlocks.length) :
    Inv tgt buffer (s.release ptr) where
  counted := h.counted.trans hcounted.symm
  placed := h.placed
  uncarved := fun hnone => by
    have hlen := congrArg List.length (h.uncarved hnone)
    exact List.eq_nil_of_length_eq_zero (hcounted.trans hlen)
  bumped := fun b hb hin a ha => h.bumped b (List.mem_filter.mp hb).1 hin a ha
  rewound := fun a ha hnone => by
    have hlen := congrArg List.length hnone
    exact h.rewound a ha (List.eq_nil_of_length_eq_zero (hcounted.symm.trans hlen))
  heap := fun b hb hout => h.heap b (List.mem_filter.mp hb).1 hout
  bytes := fun b hb => h.bytes b (List.mem_filter.mp hb).1
  apart := h.apart.filter _

/-- The ways through `bb_mem_arena_tls_free_impl` for a live block. -/
theorem Inv.freeImpl_eq (h : Inv tgt buffer s) {b : Live} (hb : b ∈ s.live) :
    b.inArena = false ∧ freeImpl s b.ptr = s.release b.ptr ∨
      b.inArena = true ∧ ∃ a, s.arena = some a ∧
        freeImpl s b.ptr =
          { s with
            arena := some (drain (a.free b.ptr) (s.outstanding - 1))
            outstanding := s.outstanding - 1 }.release b.ptr := by
  have hlen := h.bytes b hb
  cases ha : s.arena with
  | none =>
    have hout : b.inArena = false := by
      cases hin : b.inArena with
      | false => rfl
      | true =>
        have hmem : b ∈ s.arenaBlocks := List.mem_filter.mpr ⟨hb, hin⟩
        rw [h.uncarved ha] at hmem
        cases hmem
    have hptr := (h.heap b hb hout).1
    exact Or.inl ⟨hout, by simp [freeImpl, hptr, ha]⟩
  | some a =>
    have howns := h.owns_iff ha hb
    cases hin : b.inArena with
    | false =>
      have hptr := (h.heap b hb hin).1
      have hnot : ¬ owns a b.ptr := by simp [howns, hin]
      exact Or.inl ⟨rfl, by simp [freeImpl, hptr, ha, hnot]⟩
    | true =>
      have hown : owns a b.ptr := howns.mpr hin
      exact Or.inr ⟨rfl, a, rfl, by simp [freeImpl, hown.1, ha, hown]⟩

/-- Freeing a block of the arena keeps the invariant: the last free rewinds. -/
theorem Inv.free_arena (h : Inv tgt buffer s) {b : Live} (hb : b ∈ s.live)
    (hin : b.inArena = true) {a : Arena} (ha : s.arena = some a) :
    Inv tgt buffer
      ({ s with
        arena := some (drain (a.free b.ptr) (s.outstanding - 1))
        outstanding := s.outstanding - 1 }.release b.ptr) := by
  have hcount := arenaBlocks_release h.apart h.bytes hb
  rw [if_pos hin, ← h.counted] at hcount
  have hleft : s.outstanding - 1 = (s.release b.ptr).arenaBlocks.length := by omega
  refine ⟨hleft, ?_, by simp [Tls.release], ?_, ?_, ?_, ?_, h.apart.filter _⟩
  · intro a' hsome
    cases hsome
    rw [drain_buf, drain_size, free_buf, free_size]
    exact h.placed a ha
  · intro c hc hcin a' hsome
    cases hsome
    obtain ⟨hlow, hhigh⟩ := h.bumped c (List.mem_filter.mp hc).1 hcin a ha
    have hnotlast : s.outstanding - 1 ≠ 0 := by
      have hmem : c ∈ (s.release b.ptr).arenaBlocks := List.mem_filter.mpr ⟨hc, hcin⟩
      have hpos := List.length_pos_of_mem hmem
      omega
    rw [drain, if_neg hnotlast, free_buf, free_offset]
    exact ⟨hlow, hhigh⟩
  · intro a' hsome hnone
    cases hsome
    have hlast : s.outstanding - 1 = 0 := by
      rw [hleft]
      exact congrArg List.length hnone
    rw [drain, if_pos hlast]
    rfl
  · exact fun c hc hout => h.heap c (List.mem_filter.mp hc).1 hout
  · exact fun c hc => h.bytes c (List.mem_filter.mp hc).1

theorem Inv.free (h : Inv tgt buffer s) {b : Live} (hb : b ∈ s.live) :
    Inv tgt buffer (freeImpl s b.ptr) := by
  rcases h.freeImpl_eq hb with ⟨hout, heq⟩ | ⟨hin, a, ha, heq⟩
  · rw [heq]
    have hcount := arenaBlocks_release h.apart h.bytes hb
    exact h.release (by simp [hcount, hout])
  · rw [heq]
    exact h.free_arena hb hin ha

/-- One legal call keeps the invariant unless a wrapped size is served. -/
theorem inv_step (s : Tls) (act : Action) (h : Inv tgt buffer s)
    (hlegal : Legal tgt buffer s act) (hcond : NoWrap tgt s act) :
    Inv tgt buffer (step tgt buffer s act) := by
  cases act with
  | init => exact h.init
  | calloc n size heap => exact h.calloc hlegal.2.2 hcond
  | free ptr =>
    obtain ⟨b, hb, rfl⟩ := hlegal
    exact h.free hb
  | write addr byte =>
    exact ⟨h.counted, h.placed, h.uncarved, h.bumped, h.rewound, h.heap, h.bytes, h.apart⟩

/-! ## What each call promises -/

theorem returned_heapCalloc (h : Inv tgt buffer s) {n size p : Nat} {heap : Option Nat} {s' : Tls}
    (hheap : HeapAnswers tgt buffer s (n * size) heap) (hresult : (heapCalloc s' n size heap).1 = some p) :
    ReturnedOk s (heapCalloc s' n size heap).2 { ptr := p, len := n * size } := by
  cases heap with
  | none => cases hresult
  | some q =>
    cases hresult
    obtain ⟨-, -, hbuffer, -⟩ := hheap p rfl
    refine ⟨fun addr hlow hhigh => fill_inside hlow hhigh, fun b hb => h.heap_apart hheap rfl hb, ?_⟩
    rintro a ha ⟨-, hlow, hhigh⟩
    obtain ⟨hbuf, hsize, hfits⟩ := h.placed a ha
    simp only [Block.Apart, Block.stop] at hbuffer hlow hhigh ⊢
    omega

theorem returned_served (h : Inv tgt buffer s) {n size : Nat} {a a' : Arena} {p : Nat}
    (ha : s.arena = some a) (halloc : a.alloc tgt (n * size) = (some p, a')) :
    ReturnedOk s (served s a' p (n * size) (n * size)) { ptr := p, len := n * size } := by
  obtain ⟨⟨-, hfree, -, -⟩, rfl, -⟩ := alloc_spec halloc
  unfold Arena.freeBytes at hfree
  refine ⟨fun addr hlow hhigh => fill_inside hlow hhigh, fun b hb => h.served_apart ha hfree hb, ?_⟩
  intro a₂ hsome _
  obtain rfl : a = a₂ := Option.some.inj (ha.symm.trans hsome)
  have hoff := a.offset_le
  simp only [Block.stop]
  omega

/-- The blocks that `calloc` returns. -/
theorem Inv.returned (h : Inv tgt buffer s) {n size p : Nat} {heap : Option Nat}
    (hheap : HeapAnswers tgt buffer s (n * size) heap)
    (hcond : NoWrap tgt s (.calloc n size heap))
    (hresult : (callocImpl tgt s n size heap).1 = some p) :
    ReturnedOk s (callocImpl tgt s n size heap).2 { ptr := p, len := n * size } := by
  generalize hcall : callocImpl tgt s n size heap = result at hresult ⊢
  cases hcall ▸ @callocs_callocImpl tgt s n size heap with
  | empty => cases hresult
  | noArena => exact returned_heapCalloc h hheap hresult
  | fallback => exact returned_heapCalloc h hheap hresult
  | arena a a' q htotal ha halloc =>
    cases hresult
    have hfits := total_of_fits (fits_of_noWrap hcond htotal ha halloc)
    rw [hfits] at halloc ⊢
    exact returned_served h ha halloc

/-- A size that fits the empty arena is served. -/
theorem served_of_fits {a : Arena} {len : Nat} (hlen : 0 < len) (hoffset : a.offset = 0)
    (hfits : roundUp tgt len ≤ a.size) (hspace : a.size + tgt.maxAlign ≤ tgt.sizeMax + 1) :
    len ≤ tgt.sizeMax ∧ a.Served tgt len := by
  have hle := @le_roundUp tgt len
  have hpos := tgt.maxAlign_pos
  have haligned : alignedSize tgt len = roundUp tgt len := by
    unfold alignedSize roundUp
    rw [Nat.mod_eq_of_lt (by omega)]
  refine ⟨by omega, by omega, ?_, ?_, ?_⟩
  · rw [Arena.freeBytes]
    omega
  · rw [haligned]
    exact hle
  · rw [haligned, Arena.freeBytes]
    omega

/-- The header is at least one alignment unit. -/
theorem maxAlign_le_hdrSz : tgt.maxAlign ≤ hdrSz tgt := by
  have hpos := tgt.maxAlign_pos
  have hsize := tgt.sizeofArena_pos
  have hone : 1 ≤ (tgt.sizeofArena + (tgt.maxAlign - 1)) / tgt.maxAlign :=
    (Nat.one_le_div_iff hpos).mpr (by omega)
  unfold hdrSz roundUp
  calc tgt.maxAlign = 1 * tgt.maxAlign := (Nat.one_mul _).symm
    _ ≤ _ := Nat.mul_le_mul_right _ hone

/-- With no block of the arena live, the next request that fits the arena is served from it. -/
theorem Inv.reused (h : Inv tgt buffer s) {n size : Nat} {heap : Option Nat} {a : Arena}
    (ha : s.arena = some a) (hnone : s.arenaBlocks = []) (hlen : 0 < n * size)
    (hfits : roundUp tgt (n * size) ≤ a.size) :
    ∃ p, (callocImpl tgt s n size heap).1 = some p ∧ owns a p := by
  obtain ⟨hbuf, hsize, hcarved⟩ := h.placed a ha
  have hspace := buffer.in_space
  have haddr := buffer.addr_pos
  have hheader := @maxAlign_le_hdrSz tgt
  have hoffset := h.rewound a ha hnone
  obtain ⟨hword, hserved⟩ := served_of_fits hlen hoffset hfits (by omega)
  have htotal := total_of_fits hword
  generalize hcall : callocImpl tgt s n size heap = result
  cases hcall ▸ @callocs_callocImpl tgt s n size heap with
  | empty hzero => omega
  | noArena _ hno =>
    rw [ha] at hno
    cases hno
  | fallback a₂ _ ha₂ hnot =>
    obtain rfl : a = a₂ := Option.some.inj (ha.symm.trans ha₂)
    exact absurd (htotal ▸ hserved) hnot
  | arena a₂ a' p _ ha₂ halloc =>
    obtain rfl : a = a₂ := Option.some.inj (ha.symm.trans ha₂)
    obtain ⟨⟨-, hfree, -, -⟩, rfl, -⟩ := alloc_spec halloc
    have hle := @le_roundUp tgt (n * size)
    refine ⟨_, rfl, ?_⟩
    unfold owns
    omega

/-- Serving a request advances the offset, and counting a failed one does not move it. -/
theorem calloc_offset {n size : Nat} {heap : Option Nat} {a a' : Arena} (ha : s.arena = some a)
    (ha' : (callocImpl tgt s n size heap).2.arena = some a') : a.offset ≤ a'.offset := by
  generalize hcall : callocImpl tgt s n size heap = result at ha'
  cases hcall ▸ @callocs_callocImpl tgt s n size heap with
  | empty =>
    obtain rfl : a = a' := Option.some.inj (ha.symm.trans ha')
    exact Nat.le_refl _
  | noArena _ hno =>
    rw [ha] at hno
    cases hno
  | fallback a₂ _ ha₂ hnot =>
    obtain rfl : a = a₂ := Option.some.inj (ha.symm.trans ha₂)
    cases heap <;> cases ha' <;> exact Nat.le_refl _
  | arena a₂ a₃ p _ ha₂ halloc =>
    obtain rfl : a = a₂ := Option.some.inj (ha.symm.trans ha₂)
    cases ha'
    have hoffset := (alloc_spec halloc).2.2.2.2
    omega

/-- The offset falls only when the last block of the arena is freed. -/
theorem Inv.rewound_step (h : Inv tgt buffer s) {act : Action} (hlegal : Legal tgt buffer s act)
    {a a' : Arena} (ha : s.arena = some a) (ha' : (step tgt buffer s act).arena = some a')
    (hfall : a'.offset < a.offset) : (step tgt buffer s act).arenaBlocks = [] := by
  have hsame : s.arena = some a' → False := fun hsome => by
    obtain rfl : a = a' := Option.some.inj (ha.symm.trans hsome)
    exact Nat.lt_irrefl _ hfall
  cases act with
  | init =>
    have hstay : (step tgt buffer s .init).arena = s.arena := by simp [step, call, tlsInit, ha]
    exact (hsame (hstay ▸ ha')).elim
  | calloc n size heap => exact absurd (calloc_offset ha ha') (Nat.not_le.mpr hfall)
  | write addr byte => exact (hsame ha').elim
  | free ptr =>
    obtain ⟨b, hb, rfl⟩ := hlegal
    simp only [step, call] at ha' ⊢
    rcases h.freeImpl_eq hb with ⟨-, heq⟩ | ⟨hin, a₂, ha₂, heq⟩
    · rw [heq] at ha'
      exact (hsame ha').elim
    · obtain rfl : a = a₂ := Option.some.inj (ha.symm.trans ha₂)
      have hcount := arenaBlocks_release h.apart h.bytes hb
      rw [if_pos hin, ← h.counted] at hcount
      rw [heq] at ha' ⊢
      cases ha'
      by_cases hlast : s.outstanding - 1 = 0
      · exact List.eq_nil_of_length_eq_zero
          (show (s.release b.ptr).arenaBlocks.length = 0 by omega)
      · rw [drain, if_neg hlast, free_offset] at hfall
        exact absurd hfall (Nat.lt_irrefl _)

/-- Without a wrapped size that is served, a legal call is one of a correct allocator. -/
theorem callOk_of_noWrap (s : Tls) (act : Action) (h : Inv tgt buffer s)
    (hlegal : Legal tgt buffer s act) (hcond : NoWrap tgt s act) :
    CallOk tgt buffer s act where
  returned := by
    rintro n size heap p rfl hresult
    exact h.returned hlegal.2.2 hcond hresult
  counted := (inv_step s act h hlegal hcond).counted
  rewound := fun _ _ ha ha' hfall => h.rewound_step hlegal ha ha' hfall
  reused := by
    rintro n size heap a rfl ha hnone hlen hfits
    exact h.reused ha hnone hlen hfits

/-- A block of the arena that has its size cannot be larger than the address space. -/
theorem noWrap_of_callOk (s : Tls) (act : Action) (h : Inv tgt buffer s)
    (hok : CallOk tgt buffer s act) : NoWrap tgt s act := by
  cases act with
  | init | free | write => trivial
  | calloc n size heap =>
    by_cases htotal : total tgt n size = 0
    · exact Or.inr (Or.inl htotal)
    by_cases hserved : ∃ a, s.arena = some a ∧ a.Served tgt (total tgt n size)
    · obtain ⟨a, ha, hserved⟩ := hserved
      obtain ⟨hsome, -, -⟩ := alloc_of_served hserved
      obtain ⟨-, hfree, -⟩ := hserved
      obtain ⟨hbuf, hsize, hcarved⟩ := h.placed a ha
      have hspace := buffer.in_space
      have haddr := buffer.addr_pos
      have hreply : (call tgt buffer s (.calloc n size heap)).1 = some (a.buf + a.offset) := by
        cases halloc : a.alloc tgt (total tgt n size) with
        | mk reply a' =>
          rw [halloc] at hsome
          cases hsome
          simp [call, callocImpl, htotal, ha, halloc]
      have hroom := (hok.returned n size heap _ rfl hreply).room a ha
      simp only [owns, Block.stop] at hroom
      unfold Arena.freeBytes at hfree
      have hoff := a.offset_le
      exact Or.inl (by
        have hend := hroom ⟨by omega, by omega, by omega⟩
        omega)
    · exact Or.inr (Or.inr fun a ha hyes => hserved ⟨a, ha, hyes⟩)

/--
In a legal environment every call of a run is one of a correct `calloc` and `free`
exactly when no size wraps around and is then served from the arena.
-/
theorem correct_iff (mem : Nat → UInt8) {as : List Action}
    (hlegal : Along (step tgt buffer) (Legal tgt buffer) (Tls.boot mem) as) :
    Along (step tgt buffer) (CallOk tgt buffer) (Tls.boot mem) as ↔
      Along (step tgt buffer) (NoWrap tgt) (Tls.boot mem) as :=
  (along_iff_within inv_step
    (fun s act h hlegal => ⟨callOk_of_noWrap s act h hlegal, noWrap_of_callOk s act h⟩)
    (inv_boot mem) hlegal).symm

/-- A buffer of 4 KiB on a 32-bit target. -/
def smallBuffer : Buffer Target.ilp32 where
  addr := 1024
  size := 4096
  addr_pos := by decide
  in_space := by decide

/-- A request for 2 ^ 32 + 16 bytes, and one for 16. -/
def wrapping : List Action :=
  [.init, .calloc 16 268435457 none, .calloc 1 16 none]

/-- The state of the allocator after the buffer has been carved. -/
def carved : Tls :=
  tlsInit Target.ilp32 smallBuffer (Tls.boot fun _ => 7)

example : (call Target.ilp32 smallBuffer carved (.calloc 1 16 none)).1 = some 1064 := by
  decide +kernel

theorem wrapping_not_correct :
    Along (step Target.ilp32 smallBuffer) (Legal Target.ilp32 smallBuffer)
        (Tls.boot fun _ => 7) wrapping ∧
      ¬ Along (step Target.ilp32 smallBuffer) (CallOk Target.ilp32 smallBuffer)
        (Tls.boot fun _ => 7) wrapping ∧
      (call Target.ilp32 smallBuffer carved (.calloc 16 268435457 none)).1 = some 1064 ∧
      (call Target.ilp32 smallBuffer
        (step Target.ilp32 smallBuffer carved (.calloc 16 268435457 none))
          (.calloc 1 16 none)).1 = some 1080 := by
  refine ⟨⟨trivial, ⟨by decide, by decide, by simp [HeapAnswers]⟩,
    ⟨by decide, by decide, by simp [HeapAnswers]⟩, trivial⟩, ?_, by decide +kernel,
    by decide +kernel⟩
  rintro ⟨-, hcalloc, -⟩
  have hreturned := hcalloc.returned 16 268435457 none 1064 rfl (by decide +kernel)
  have hroom := hreturned.room _ rfl (by decide +kernel)
  revert hroom
  decide +kernel

theorem correct_iff_wrapping :
    Along (step Target.ilp32 smallBuffer) (Legal Target.ilp32 smallBuffer)
        (Tls.boot fun _ => 7) wrapping ∧
      (Along (step Target.ilp32 smallBuffer) (CallOk Target.ilp32 smallBuffer)
          (Tls.boot fun _ => 7) wrapping ↔
        Along (step Target.ilp32 smallBuffer) (NoWrap Target.ilp32)
          (Tls.boot fun _ => 7) wrapping) := by
  have hlegal : Along (step Target.ilp32 smallBuffer) (Legal Target.ilp32 smallBuffer)
      (Tls.boot fun _ => 7) wrapping := by
    refine ⟨trivial, ⟨by decide, by decide, by simp [HeapAnswers]⟩,
      ⟨by decide, by decide, by simp [HeapAnswers]⟩, trivial⟩
  exact ⟨hlegal, correct_iff _ hlegal⟩

end MemArenaTls
end Breadboard
