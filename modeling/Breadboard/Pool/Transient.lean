import Breadboard.Foundations.Runs
import Breadboard.Pool.Create

/-!
# bb_pool - transient pools

A transient pool hands out blocks of the arena its own control struct was
carved from, and its reset rewinds that arena to the very start.  A session is
a pool with the blocks handed out since the last reset; the blocks are record
keeping for the statements, no operation reads them.

Main results:

- Theorem `isolated_iff_clear_of_control`: over every run, blocks keep clear of each
  other and of the control struct exactly when no request is served out of the struct.
- Theorem `owned_isolated_iff_nothing_after_reset`: for a pool that owns its arena,
  exactly when nothing is served after a reset.
-/

namespace Breadboard
namespace Pool

open Foundations MemArena

/-- A range of addresses. -/
structure Block where
  addr : Nat
  len : Nat
  deriving Repr, DecidableEq

/-- Two ranges share an address. -/
def Block.Overlaps (b c : Block) : Prop :=
  b.addr < c.addr + c.len ∧ c.addr < b.addr + b.len

instance (b c : Block) : Decidable (b.Overlaps c) :=
  inferInstanceAs (Decidable (_ ∧ _))

variable (tgt : Target)

/-! ## The operations -/

/-- `bb_pool_alloc`. -/
def BbPool.alloc (p : BbPool) (bytes : Nat) : Option Nat × BbPool :=
  ((p.arena.alloc tgt bytes).1, { p with arena := (p.arena.alloc tgt bytes).2 })

/-- `bb_pool_free`. -/
def BbPool.free (p : BbPool) (ptr : Nat) : BbPool :=
  { p with arena := p.arena.free ptr }

/-- `bb_pool_reset`. -/
def BbPool.reset (p : BbPool) : BbPool :=
  { p with arena := p.arena.reset }

/-- The range of the control struct. -/
def BbPool.control (p : BbPool) : Block :=
  { addr := p.self, len := tgt.sizeofPool }

/-- The address a served request gets. -/
def BbPool.cursor (p : BbPool) : Nat :=
  p.arena.buf + p.arena.offset

/-- A pool with the blocks handed out since its last reset, and whether there was one. -/
structure Session where
  pool : BbPool
  live : List Block
  rewound : Bool

/-- The calls on a transient pool. -/
inductive TransientOp where
  | alloc (bytes : Nat)
  | free (ptr : Nat)
  | reset
  deriving Repr, DecidableEq

/-- One call. -/
def Session.step (s : Session) : TransientOp → Session
  | .alloc bytes =>
    match s.pool.alloc tgt bytes with
    | (some ptr, p) => { s with pool := p, live := { addr := ptr, len := bytes } :: s.live }
    | (none, p) => { s with pool := p }
  | .free ptr => { s with pool := s.pool.free ptr }
  | .reset => { pool := s.pool.reset, live := [], rewound := true }

/-- A pool just created. -/
def Session.start (p : BbPool) : Session :=
  { pool := p, live := [], rewound := false }

/-- No block overlaps the control struct or another block. -/
def Session.Isolated (s : Session) : Prop :=
  (∀ b ∈ s.live, ¬ b.Overlaps (s.pool.control tgt)) ∧
    s.live.Pairwise fun b c => ¬ b.Overlaps c

instance (s : Session) : Decidable (s.Isolated tgt) :=
  inferInstanceAs (Decidable (_ ∧ _))

/-- A request served after a reset is not served out of the control struct. -/
def Session.ClearOfControl (s : Session) : TransientOp → Prop
  | .alloc bytes =>
    s.pool.arena.Served tgt bytes → s.rewound = true →
      s.pool.self + tgt.sizeofPool ≤ s.pool.cursor ∨ s.pool.cursor + bytes ≤ s.pool.self
  | .free _ => True
  | .reset => True

/-- After a reset no request is served. -/
def Session.NothingAfterReset (s : Session) : TransientOp → Prop
  | .alloc bytes => s.pool.arena.Served tgt bytes → s.rewound = false
  | .free _ => True
  | .reset => True

instance (s : Session) : ∀ op, Decidable (s.ClearOfControl tgt op)
  | .alloc _ => inferInstanceAs (Decidable (_ → _ → _))
  | .free _ => isTrue trivial
  | .reset => isTrue trivial

/-! ## One step -/

variable {tgt} {s : Session} {bytes : Nat}

theorem step_alloc_served (h : s.pool.arena.Served tgt bytes) :
    (s.step tgt (.alloc bytes)).live = { addr := s.pool.cursor, len := bytes } :: s.live ∧
      (s.step tgt (.alloc bytes)).pool.self = s.pool.self ∧
      s.pool.cursor + bytes ≤ (s.step tgt (.alloc bytes)).pool.cursor ∧
      (s.step tgt (.alloc bytes)).rewound = s.rewound := by
  obtain ⟨hptr, hbuf, hoffset⟩ := alloc_of_served h
  have hsize := h.2.2.1
  have hpair : s.pool.alloc tgt bytes =
      (some s.pool.cursor, { s.pool with arena := (s.pool.arena.alloc tgt bytes).2 }) := by
    rw [BbPool.alloc, hptr]
    rfl
  simp only [Session.step, hpair]
  refine ⟨trivial, trivial, ?_, trivial⟩
  simp only [BbPool.cursor, hbuf, hoffset]
  omega

theorem step_alloc_refused (h : ¬ s.pool.arena.Served tgt bytes) :
    s.step tgt (.alloc bytes) =
      { pool := { s.pool with arena := s.pool.arena.fail }
        live := s.live
        rewound := s.rewound } := by
  simp only [Session.step, BbPool.alloc, alloc_of_not_served h]

/-- Blocks are isolated below the cursor, which passes the control struct until a reset. -/
structure Session.Inv (tgt : Target) (s : Session) : Prop where
  isolated : s.Isolated tgt
  below : ∀ b ∈ s.live, b.addr + b.len ≤ s.pool.cursor
  past_control : s.rewound = false → s.pool.self + tgt.sizeofPool ≤ s.pool.cursor

theorem Session.Inv.clear_of_control {s : Session} (hinv : s.Inv tgt)
    (hclear : s.rewound = true →
      s.pool.self + tgt.sizeofPool ≤ s.pool.cursor ∨ s.pool.cursor + bytes ≤ s.pool.self) :
    s.pool.self + tgt.sizeofPool ≤ s.pool.cursor ∨ s.pool.cursor + bytes ≤ s.pool.self := by
  cases hrewound : s.rewound with
  | false => exact .inl (hinv.past_control hrewound)
  | true => exact hclear hrewound

theorem step_inv (s : Session) (op : TransientOp) (hinv : s.Inv tgt)
    (hclear : s.ClearOfControl tgt op) : (s.step tgt op).Inv tgt := by
  cases op with
  | alloc bytes =>
    by_cases hserved : s.pool.arena.Served tgt bytes
    · obtain ⟨hlive, hself, hcursor, hrewound⟩ := step_alloc_served hserved
      have hplace := hinv.clear_of_control (hclear hserved)
      obtain ⟨⟨hcontrol, hpair⟩, hbelow, hpast⟩ := hinv
      refine ⟨⟨?_, ?_⟩, ?_, ?_⟩
      · rw [hlive, List.forall_mem_cons]
        simp only [BbPool.control, hself] at hcontrol ⊢
        refine ⟨?_, hcontrol⟩
        simp only [Block.Overlaps]
        omega
      · rw [hlive, List.pairwise_cons]
        refine ⟨fun b hb => ?_, hpair⟩
        have hend := hbelow b hb
        simp only [Block.Overlaps]
        omega
      · rw [hlive, List.forall_mem_cons]
        exact ⟨hcursor, fun b hb => Nat.le_trans (hbelow b hb) (by omega)⟩
      · rw [hrewound, hself]
        intro hfirst
        have hend := hpast hfirst
        omega
    · rw [step_alloc_refused hserved]
      exact ⟨hinv.isolated, hinv.below, hinv.past_control⟩
  | free ptr =>
    have hcursor : (s.pool.free ptr).cursor = s.pool.cursor := by
      simp [BbPool.free, BbPool.cursor]
    refine ⟨hinv.isolated, fun b hb => ?_, fun hfirst => ?_⟩
    · exact hcursor ▸ hinv.below b hb
    · exact hcursor ▸ hinv.past_control hfirst
  | reset =>
    refine ⟨⟨by simp [Session.step], by simp [Session.step]⟩, by simp [Session.step], ?_⟩
    intro hfirst
    cases hfirst

/-- A request served out of the control struct gives a block that overlaps it. -/
theorem not_isolated_of_not_clear (s : Session) (op : TransientOp)
    (hclear : ¬ s.ClearOfControl tgt op) : ¬ (s.step tgt op).Isolated tgt := by
  cases op with
  | alloc bytes =>
    simp only [Session.ClearOfControl, Classical.not_imp] at hclear
    obtain ⟨hserved, -, hinside⟩ := hclear
    obtain ⟨hlive, hself, -⟩ := step_alloc_served hserved
    rintro ⟨hcontrol, -⟩
    refine hcontrol { addr := s.pool.cursor, len := bytes } (by simp [hlive]) ?_
    simp only [Block.Overlaps, BbPool.control, hself]
    omega
  | free ptr => exact absurd trivial hclear
  | reset => exact absurd trivial hclear

/-! ## Whole runs -/

/-- The pools `bb_pool_create` and `bb_pool_create_owned` make. -/
inductive Created (tgt : Target) (cfg : PoolCfg) (p : BbPool) : Prop where
  | inArena (arena : Arena) (h : create tgt cfg arena = .ok p)
  | owned (block : Nat) (h : createOwned tgt cfg block = .ok p)

variable {cfg : PoolCfg} {p : BbPool}

/-- A pool that owns its arena was created in a new one. -/
theorem createOwned_spec {block : Nat} (h : createOwned tgt cfg block = .ok p) :
    ∃ arena q, create tgt cfg arena = .ok q ∧ p = { q with ownsArena := true } ∧
      arena.offset = 0 := by
  unfold createOwned at h
  dsimp only at h
  split at h
  · cases h
  split at h
  · cases h
  rename_i arena harena
  split at h
  · cases h
  rename_i q hq
  cases h
  refine ⟨arena, q, hq, rfl, ?_⟩
  unfold initFromBbMem carve at harena
  split at harena
  · cases harena
  split at harena
  · cases harena
  split at harena
  · cases harena
  split at harena
  · cases harena
  · cases harena
    rfl

theorem start_inv (hmode : cfg.mode = .transient) (hcreated : Created tgt cfg p) :
    (Session.start p).Inv tgt := by
  refine ⟨⟨by simp [Session.start], by simp [Session.start]⟩, by simp [Session.start], ?_⟩
  intro _
  cases hcreated with
  | inArena arena h => exact (create_transient_spec hmode h).2.2.2
  | owned block h =>
    obtain ⟨arena, q, hq, rfl, -⟩ := createOwned_spec h
    exact (create_transient_spec hmode hq).2.2.2

/--
In every run on a transient pool, blocks keep clear of each other and of the control
struct exactly when no request after a reset is served out of the control struct.
-/
theorem isolated_iff_clear_of_control (hmode : cfg.mode = .transient)
    (hcreated : Created tgt cfg p) (ops : List TransientOp) :
    (∀ pre, pre <+: ops → (run (Session.step tgt) (.start p) pre).Isolated tgt) ↔
      Along (Session.step tgt) (Session.ClearOfControl tgt) (.start p) ops :=
  good_throughout_iff_along step_inv (fun _ h => h.isolated)
    (fun s op _ => not_isolated_of_not_clear s op) (start_inv hmode hcreated) ops

/-- In an arena used before the pool was created, what lies below the struct can be reused. -/
theorem isolated_iff_clear_of_control_below :
    ∃ p, create .ilp32 ⟨.transient, 0, 0, 0, false, false, false, false⟩
        ⟨4096, 1024, 16, ⟨1, 0, 0, 16⟩, none, by decide, by decide⟩ = .ok p ∧
      ∀ pre, pre <+: [.alloc 8, .reset, .alloc 12] →
        (run (Session.step .ilp32) (.start p) pre).Isolated .ilp32 := by
  refine ⟨_, rfl, ?_⟩
  have hcreated : Created .ilp32 ⟨.transient, 0, 0, 0, false, false, false, false⟩ _ :=
    .inArena ⟨4096, 1024, 16, ⟨1, 0, 0, 16⟩, none, by decide, by decide⟩ rfl
  exact (isolated_iff_clear_of_control rfl hcreated _).mpr (by decide)

/-- Creating, resetting and asking for one byte hands out the first byte of the struct. -/
theorem block_overlaps_control :
    ∃ p, createOwned .ilp32 ⟨.transient, 0, 0, 64, false, false, false, false⟩ 4096 = .ok p ∧
      ¬ (run (Session.step .ilp32) (.start p) [.reset, .alloc 1]).Isolated .ilp32 := by
  refine ⟨_, rfl, ?_⟩
  decide

/-! ## Pools that own their arena -/

/-- The control struct is the first thing in the arena, and a rewound arena stays rewound. -/
structure Session.Owned (s : Session) : Prop where
  self_eq : s.pool.self = s.pool.arena.buf
  rewound_offset : s.rewound = true → s.pool.arena.offset = 0

theorem step_owned (s : Session) (op : TransientOp) (hown : s.Owned)
    (hnone : s.NothingAfterReset tgt op) : (s.step tgt op).Owned := by
  obtain ⟨hself, hoffset⟩ := hown
  cases op with
  | alloc bytes =>
    by_cases hserved : s.pool.arena.Served tgt bytes
    · obtain ⟨-, hself', -, hrewound⟩ := step_alloc_served hserved
      have hfirst := hnone hserved
      have hbuf : (s.step tgt (.alloc bytes)).pool.arena.buf = s.pool.arena.buf := by
        simp only [Session.step]
        have hpool : (s.pool.alloc tgt bytes).2.arena.buf = s.pool.arena.buf := alloc_buf
        split <;> rename_i heq <;> rw [← hpool, heq]
      refine ⟨by rw [hself', hbuf, hself], fun hr => ?_⟩
      rw [hrewound, hfirst] at hr
      cases hr
    · rw [step_alloc_refused hserved]
      exact ⟨hself, hoffset⟩
  | free ptr =>
    refine ⟨?_, fun hr => ?_⟩
    · simpa [Session.step, BbPool.free] using hself
    · simpa [Session.step, BbPool.free] using hoffset hr
  | reset => exact ⟨hself, fun _ => rfl⟩

/-- Where the control struct comes first, the rewound cursor points at it. -/
theorem clear_iff_nothing_after_reset (s : Session) (op : TransientOp) (hown : s.Owned) :
    s.ClearOfControl tgt op ↔ s.NothingAfterReset tgt op := by
  have hsize := tgt.sizeofPool_pos
  cases op with
  | alloc bytes =>
    simp only [Session.ClearOfControl, Session.NothingAfterReset]
    refine forall_congr' fun hserved => ?_
    have hbytes := hserved.1
    cases hrewound : s.rewound with
    | false => simp
    | true =>
      have hcursor : s.pool.cursor = s.pool.self := by
        rw [BbPool.cursor, hown.rewound_offset hrewound, hown.self_eq, Nat.add_zero]
      simp only [hcursor, true_imp_iff, reduceCtorEq, iff_false]
      omega
  | free ptr => exact Iff.rfl
  | reset => exact Iff.rfl

/--
For a pool that owns its arena, blocks keep clear of each other and of the control
struct exactly when nothing is served after a reset.
-/
theorem owned_isolated_iff_nothing_after_reset {block : Nat} (hmode : cfg.mode = .transient)
    (hcreate : createOwned tgt cfg block = .ok p) (ops : List TransientOp) :
    (∀ pre, pre <+: ops → (run (Session.step tgt) (.start p) pre).Isolated tgt) ↔
      Along (Session.step tgt) (Session.NothingAfterReset tgt) (.start p) ops := by
  have hgood := good_throughout_iff_along (@step_inv tgt) (fun _ h => h.isolated)
    (fun s op _ => not_isolated_of_not_clear s op) (start_inv hmode (.owned block hcreate)) ops
  have hstart : (Session.start p).Owned := by
    obtain ⟨arena, q, hq, rfl, hzero⟩ := createOwned_spec hcreate
    obtain ⟨hself, hbuf, -⟩ := create_transient_spec hmode hq
    refine ⟨?_, fun hr => by cases hr⟩
    simp only [Session.start]
    rw [hself, hbuf, hzero, Nat.add_zero]
  rw [hgood]
  refine along_congr (I := Session.Owned) (fun s op hown hclear => ?_)
    (fun s op hown => clear_iff_nothing_after_reset s op hown) hstart ops
  exact step_owned s op hown ((clear_iff_nothing_after_reset s op hown).mp hclear)

/-- Two blocks, and the one reset after them. -/
theorem owned_isolated_iff_nothing_after_reset_twoBlocks :
    ∃ p, createOwned .ilp32 ⟨.transient, 0, 0, 64, false, false, false, false⟩ 4096 = .ok p ∧
      ∀ pre, pre <+: [.alloc 8, .alloc 24, .reset] →
        (run (Session.step .ilp32) (.start p) pre).Isolated .ilp32 := by
  refine ⟨_, rfl, ?_⟩
  have hcreate : createOwned .ilp32 ⟨.transient, 0, 0, 64, false, false, false, false⟩ 4096 =
      .ok _ := rfl
  refine (owned_isolated_iff_nothing_after_reset rfl hcreate _).mpr ?_
  exact And.intro (fun _ => rfl) (And.intro (fun _ => rfl) ⟨trivial, trivial⟩)

end Pool
end Breadboard
