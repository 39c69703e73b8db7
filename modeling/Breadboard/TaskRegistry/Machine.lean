import Breadboard.Core.Basics
import Breadboard.Foundations.Runs
import Mathlib.Data.Fintype.Basic
import Mathlib.Logic.Function.Basic

/-!
# bb_task_registry - tasks, feeds and the software watchdog

Tasks are registered under a name in a pool of slots.  A registration answers a token,
a slot and its generation, with which the task feeds its entry without taking the lock;
deregistering counts the generation of the slot up, so that a token of an ended
registration is told from one of a later registration in the same slot.  The check of
the software watchdog copies the watched entries under the lock, evaluates the copies
without it, and writes back under the lock what has changed.

A step is one lock section, the token check or the timestamp store of a feed, the clock
read of a check or the evaluation of one row; tasks interleave freely.  The clock and
the generations are seen modulo `2 ^ 32` and `2 ^ 16` where the code compares them.

Main results:

- Theorem `moves_step`: all that a step can do.
-/

namespace Breadboard
namespace TaskRegistry

open Foundations

/-- `bb_task_entry_t`, without the fields of the hardware watchdog. -/
structure Entry where
  inUse : Bool
  handle : Option Nat
  generation : Nat
  lastFeedMs : Nat
  swWdtTimeoutMs : Nat
  missCount : Nat
  lastMissMs : Nat
  missActive : Bool
  deriving Repr, DecidableEq

/-- An entry after `pool_init_generations`. -/
def Entry.unused : Entry where
  inUse := false
  handle := none
  generation := 1
  lastFeedMs := 0
  swWdtTimeoutMs := 0
  missCount := 0
  lastMissMs := 0
  missActive := false

/-- A registration, between two of its feeds. -/
structure Key where
  slot : Nat
  generation : Nat
  /-- How often the task has been registered or fed. -/
  period : Nat
  deriving Repr, DecidableEq

/--
`sw_wdt_snapshot_row_t`.  The period, and the time of the latest feed or else of the
registration, are not part of the program.
-/
structure Row where
  slot : Nat
  generation : Nat
  name : Bytes
  handle : Option Nat
  swWdtTimeoutMs : Nat
  lastFeedMs : Nat
  missCount : Nat
  lastMissMs : Nat
  missActive : Bool
  dirty : Bool
  period : Nat
  since : Nat
  deriving Repr, DecidableEq

def Row.key (row : Row) : Key where
  slot := row.slot
  generation := row.generation
  period := row.period

/-- A call of the miss handler, and the row it is for. -/
structure Report where
  name : Bytes
  handle : Option Nat
  overrunMs : Nat
  swWdtTimeoutMs : Nat
  key : Key
  deriving Repr, DecidableEq

/-- Where a task is in `bb_task_registry_sw_wdt_check`. -/
inductive CheckPc where
  | idle
  /-- Called with the clock as the caller has read it. -/
  | called (nowMs : Nat)
  /-- The first `n` rows of the buffer are this check's; row `i` is next. -/
  | evaluating (nowMs n i : Nat)
  deriving Repr, DecidableEq

/--
The registry, the tasks and the snapshot buffer, which is static.  The stamps of a
registration (when it was made and fed, latest first) and the keys that were evaluated while
overdue are not part of the program.
-/
structure State (τ : Type) where
  pool : Nat → Entry
  /-- The entries of `s_task_registry`: name and slot. -/
  registry : List (Bytes × Nat)
  dropped : Nat
  clock : Nat
  /-- A feed that has passed its token check. -/
  feeds : τ → Option (Nat × Nat)
  checks : τ → CheckPc
  /-- `s_sw_wdt_snapshot`. -/
  buffer : Nat → Row
  reports : List Report
  stamps : Nat → Nat → List Nat
  seen : List Key

def State.init (τ : Type) : State τ where
  pool := fun _ => .unused
  registry := []
  dropped := 0
  clock := 0
  feeds := fun _ => none
  checks := fun _ => .idle
  buffer := fun _ =>
    { slot := 0, generation := 0, name := [], handle := none, swWdtTimeoutMs := 0, lastFeedMs := 0,
      missCount := 0, lastMissMs := 0, missActive := false, dirty := false, period := 0, since := 0 }
  reports := []
  stamps := fun _ _ => []
  seen := []

/-- `uint16_t` generations that compare equal. -/
def sameGeneration (a b : Nat) : Bool :=
  a % 2 ^ 16 = b % 2 ^ 16

/-- `(uint32_t)(now_ms - stamp)`. -/
def ageMs (nowMs stamp : Nat) : Nat :=
  (nowMs % 2 ^ 32 + 2 ^ 32 - stamp % 2 ^ 32) % 2 ^ 32

section Calls

variable {τ : Type} (max : Nat)

/-- `pool_alloc_locked`: the first slot that is not in use. -/
def poolAlloc (pool : Nat → Entry) : Option Nat :=
  (List.range max).find? fun i => !(pool i).inUse

/-- `bb_registry_register` on `s_task_registry`. -/
def registryRegister (registry : List (Bytes × Nat)) (name : Bytes) (slot : Nat) :
    BbErr × List (Bytes × Nat) :=
  if registry.any (fun e => e.1 = name) then (.invalidState, registry)
  else if max ≤ registry.length then (.noSpace, registry)
  else (.ok, registry ++ [(name, slot)])

/-- The payload of a new registration. -/
def Entry.fresh (entry : Entry) (handle : Option Nat) (swWdtTimeoutMs : Nat) : Entry :=
  { entry with
    inUse := true
    handle := handle
    lastFeedMs := 0
    swWdtTimeoutMs := swWdtTimeoutMs
    missCount := 0
    lastMissMs := 0
    missActive := false }

/-- `bb_task_registry_register`: the status and, on success, the token. -/
def register (s : State τ) (name : Bytes) (handle : Option Nat) (swWdtTimeoutMs : Nat) :
    BbErr × Option (Nat × Nat) × State τ :=
  match poolAlloc max s.pool with
  | none => (.noSpace, none, { s with dropped := s.dropped + 1 })
  | some slot =>
    let entry := (s.pool slot).fresh handle swWdtTimeoutMs
    match registryRegister max s.registry name slot with
    | (.ok, registry) =>
      (.ok, some (slot, entry.generation),
        { s with
          pool := Function.update s.pool slot entry
          registry := registry
          stamps := Function.update s.stamps slot
            (Function.update (s.stamps slot) entry.generation [s.clock]) })
    | (err, _) =>
      (err, none, { s with pool := Function.update s.pool slot { entry with inUse := false } })

/-- `bb_task_registry_deregister`. -/
def deregister (s : State τ) (handle : Nat) : BbErr × State τ :=
  match s.registry.find? (fun e => (s.pool e.2).handle = some handle) with
  | none => (.notFound, s)
  | some (name, slot) =>
    let entry := s.pool slot
    (.ok, { s with
      registry := s.registry.eraseP fun e => e.1 = name
      pool := Function.update s.pool slot
        { entry with inUse := false, generation := entry.generation + 1 } })

/-- `sw_wdt_snapshot_cb`: the row of an entry, unless it is not watched. -/
def snapshotRow (s : State τ) (e : Bytes × Nat) : Option Row :=
  let entry := s.pool e.2
  let stamps := s.stamps e.2 entry.generation
  if entry.swWdtTimeoutMs = 0 then none
  else some
    { slot := e.2
      generation := entry.generation
      name := e.1
      handle := entry.handle
      swWdtTimeoutMs := entry.swWdtTimeoutMs
      lastFeedMs := entry.lastFeedMs
      missCount := entry.missCount
      lastMissMs := entry.lastMissMs
      missActive := entry.missActive
      dirty := false
      period := stamps.length
      since := stamps.headD 0 }

/-- The rows of the first phase.  The registry never holds more entries than the buffer. -/
def snapshotRows (s : State τ) : List Row :=
  s.registry.filterMap (snapshotRow s)

/-- `overdue` of the second phase. -/
def Row.overdue (row : Row) (nowMs : Nat) : Bool :=
  row.swWdtTimeoutMs < ageMs nowMs row.lastFeedMs

/-- The call of the miss handler for a row. -/
def Row.report (row : Row) (nowMs : Nat) : Report where
  name := row.name
  handle := row.handle
  overrunMs := ageMs nowMs row.lastFeedMs - row.swWdtTimeoutMs
  swWdtTimeoutMs := row.swWdtTimeoutMs
  key := row.key

/-- The second phase for one row: the report it makes, and the row after it. -/
def evaluateRow (nowMs : Nat) (row : Row) : Option Report × Row :=
  if row.overdue nowMs ∧ row.missActive = false then
    (some (row.report nowMs),
      { row with
        missCount := row.missCount + 1, lastMissMs := nowMs, missActive := true, dirty := true })
  else if row.overdue nowMs = false ∧ row.missActive = true then
    (none, { row with missActive := false, dirty := true })
  else (none, row)

/-- The row is due to be written to the slot it is from. -/
def Row.Writes (row : Row) (pool : Nat → Entry) : Prop :=
  row.dirty = true ∧ sameGeneration (pool row.slot).generation row.generation = true

instance (row : Row) (pool : Nat → Entry) : Decidable (row.Writes pool) :=
  inferInstanceAs (Decidable (_ ∧ _))

/-- The third phase for one row. -/
def writeRow (row : Row) (pool : Nat → Entry) : Nat → Entry :=
  if row.Writes pool then
    Function.update pool row.slot
      { pool row.slot with
        missCount := row.missCount, lastMissMs := row.lastMissMs, missActive := row.missActive }
  else pool

/-- The third phase. -/
def writeRows (buffer : Nat → Row) (n : Nat) (pool : Nat → Entry) : Nat → Entry :=
  forRange (fun pool j => writeRow (buffer j) pool) pool n

end Calls

inductive Action (τ : Type) where
  | tick
  | register (name : Bytes) (handle : Option Nat) (swWdtTimeoutMs : Nat)
  | deregister (handle : Nat)
  /-- The token check of `bb_task_registry_feed`. -/
  | feed (t : τ) (slot generation : Nat)
  /-- The timestamp store. -/
  | store (t : τ)
  /-- `bb_task_registry_sw_wdt_check(bb_clock_now_ms())` is called. -/
  | check (t : τ)
  | snapshot (t : τ)
  | evaluate (t : τ)
  | writeBack (t : τ)
  deriving DecidableEq

section Step

variable {τ : Type} [DecidableEq τ] (max : Nat)

/-- The task has not been fed for longer than its timeout. -/
def Row.overdueSince (row : Row) (nowMs : Nat) : Prop :=
  row.since + row.swWdtTimeoutMs < nowMs

instance (row : Row) (nowMs : Nat) : Decidable (row.overdueSince nowMs) :=
  inferInstanceAs (Decidable (_ < _))

def storeStamp (s : State τ) (t : τ) (slot generation : Nat) : State τ :=
  { s with
    pool := Function.update s.pool slot { s.pool slot with lastFeedMs := s.clock }
    feeds := Function.update s.feeds t none
    stamps := Function.update s.stamps slot
      (Function.update (s.stamps slot) generation (s.clock :: s.stamps slot generation)) }

def evaluateNext (s : State τ) (t : τ) (nowMs n i : Nat) : State τ :=
  let row := s.buffer i
  { s with
    buffer := Function.update s.buffer i (evaluateRow nowMs row).2
    reports := s.reports ++ (evaluateRow nowMs row).1.toList
    checks := Function.update s.checks t (.evaluating nowMs n (i + 1))
    seen := if row.overdueSince nowMs then row.key :: s.seen else s.seen }

def takeSnapshot (s : State τ) (t : τ) (nowMs : Nat) : State τ :=
  { s with
    buffer := fun j => (snapshotRows s)[j]?.getD (s.buffer j)
    checks := Function.update s.checks t (.evaluating nowMs (snapshotRows s).length 0) }

def step (s : State τ) : Action τ → State τ
  | .tick => { s with clock := s.clock + 1 }
  | .register name handle swWdtTimeoutMs => (register max s name handle swWdtTimeoutMs).2.2
  | .deregister handle => (deregister s handle).2
  | .feed t slot generation =>
    match s.feeds t with
    | some _ => s
    | none =>
      if max ≤ slot then s
      else if sameGeneration (s.pool slot).generation generation then
        { s with feeds := Function.update s.feeds t (some (slot, generation)) }
      else s
  | .store t =>
    match s.feeds t with
    | none => s
    | some (slot, generation) => storeStamp s t slot generation
  | .check t =>
    match s.checks t with
    | .idle => { s with checks := Function.update s.checks t (.called s.clock) }
    | _ => s
  | .snapshot t =>
    match s.checks t with
    | .called nowMs => takeSnapshot s t nowMs
    | _ => s
  | .evaluate t =>
    match s.checks t with
    | .evaluating nowMs n i => if i < n then evaluateNext s t nowMs n i else s
    | _ => s
  | .writeBack t =>
    match s.checks t with
    | .evaluating _ n i =>
      if i < n then s
      else
        { s with
          pool := writeRows s.buffer n s.pool
          checks := Function.update s.checks t .idle }
    | _ => s

end Step

/-! ## All that a step can do -/

section Moves

variable {τ : Type} [DecidableEq τ] {max : Nat}

inductive Moves (max : Nat) (s : State τ) : Action τ → State τ → Prop where
  | stay (a : Action τ) : Moves max s a s
  | ticked : Moves max s .tick { s with clock := s.clock + 1 }
  | full (name : Bytes) (handle : Option Nat) (ms : Nat) :
      Moves max s (.register name handle ms) { s with dropped := s.dropped + 1 }
  | rolledBack (name : Bytes) (handle : Option Nat) (ms slot : Nat)
      (hfree : (s.pool slot).inUse = false) :
      Moves max s (.register name handle ms)
        { s with
          pool := Function.update s.pool slot
            { Entry.fresh (s.pool slot) handle ms with inUse := false } }
  | registered (name : Bytes) (handle : Option Nat) (ms slot : Nat) (hslot : slot < max)
      (hfree : (s.pool slot).inUse = false) (hname : ∀ e ∈ s.registry, e.1 ≠ name) :
      Moves max s (.register name handle ms)
        { s with
          pool := Function.update s.pool slot ((s.pool slot).fresh handle ms)
          registry := s.registry ++ [(name, slot)]
          stamps := Function.update s.stamps slot
            (Function.update (s.stamps slot) (s.pool slot).generation [s.clock]) }
  | deregistered (handle : Nat) (name : Bytes) (slot : Nat) (hmem : (name, slot) ∈ s.registry) :
      Moves max s (.deregister handle)
        { s with
          registry := s.registry.eraseP fun e => e.1 = name
          pool := Function.update s.pool slot
            { s.pool slot with inUse := false, generation := (s.pool slot).generation + 1 } }
  | checked (t : τ) (slot generation : Nat) :
      Moves max s (.feed t slot generation)
        { s with feeds := Function.update s.feeds t (some (slot, generation)) }
  | stored (t : τ) (slot generation : Nat) (hfeed : s.feeds t = some (slot, generation)) :
      Moves max s (.store t) (storeStamp s t slot generation)
  | called (t : τ) (hidle : s.checks t = .idle) :
      Moves max s (.check t) { s with checks := Function.update s.checks t (.called s.clock) }
  | copied (t : τ) (nowMs : Nat) (hcalled : s.checks t = .called nowMs) :
      Moves max s (.snapshot t) (takeSnapshot s t nowMs)
  | evaluated (t : τ) (nowMs n i : Nat) (hpc : s.checks t = .evaluating nowMs n i) (hi : i < n) :
      Moves max s (.evaluate t) (evaluateNext s t nowMs n i)
  | wrote (t : τ) (nowMs n i : Nat) (hpc : s.checks t = .evaluating nowMs n i) (hi : n ≤ i) :
      Moves max s (.writeBack t)
        { s with
          pool := writeRows s.buffer n s.pool
          checks := Function.update s.checks t .idle }

theorem poolAlloc_some {pool : Nat → Entry} {slot : Nat} (h : poolAlloc max pool = some slot) :
    slot < max ∧ (pool slot).inUse = false := by
  have hmem := List.mem_of_find?_eq_some h
  have hfree := List.find?_some h
  exact ⟨List.mem_range.mp hmem, by simpa using hfree⟩

theorem registryRegister_ok {registry registry' : List (Bytes × Nat)} {name : Bytes} {slot : Nat}
    (h : registryRegister max registry name slot = (.ok, registry')) :
    registry' = registry ++ [(name, slot)] ∧ ∀ e ∈ registry, e.1 ≠ name := by
  unfold registryRegister at h
  split at h
  next => cases h
  next hnew =>
    split at h
    · cases h
    · cases h
      refine ⟨rfl, fun e he heq => hnew ?_⟩
      exact List.any_eq_true.mpr ⟨e, he, by simpa using heq⟩

theorem moves_register (s : State τ) (name : Bytes) (handle : Option Nat) (ms : Nat) :
    Moves max s (.register name handle ms) (register max s name handle ms).2.2 := by
  unfold register
  cases halloc : poolAlloc max s.pool with
  | none => exact .full name handle ms
  | some slot =>
    obtain ⟨hslot, hfree⟩ := poolAlloc_some halloc
    dsimp only
    split
    next registry hreg =>
      obtain ⟨rfl, hname⟩ := registryRegister_ok hreg
      exact .registered name handle ms slot hslot hfree hname
    next => exact .rolledBack name handle ms slot hfree

theorem moves_deregister (s : State τ) (handle : Nat) :
    Moves max s (.deregister handle) (deregister s handle).2 := by
  unfold deregister
  split
  next => exact .stay _
  next name slot hfind => exact .deregistered handle name slot (List.mem_of_find?_eq_some hfind)

theorem moves_step (s : State τ) (a : Action τ) : Moves max s a (step max s a) := by
  cases a with
  | tick => exact .ticked
  | register name handle ms => exact moves_register s name handle ms
  | deregister handle => exact moves_deregister s handle
  | feed t slot generation =>
    unfold step
    dsimp only
    split
    · exact .stay _
    split
    · exact .stay _
    split
    · exact .checked t slot generation
    · exact .stay _
  | store t =>
    unfold step
    dsimp only
    split
    next => exact .stay _
    next slot generation hfeed => exact .stored t slot generation hfeed
  | check t =>
    unfold step
    dsimp only
    split
    next hidle => exact .called t hidle
    next => exact .stay _
  | snapshot t =>
    unfold step
    dsimp only
    split
    next nowMs hcalled => exact .copied t nowMs hcalled
    next => exact .stay _
  | evaluate t =>
    unfold step
    dsimp only
    split
    next nowMs n i hpc =>
      split
      next hi => exact .evaluated t nowMs n i hpc hi
      next => exact .stay _
    next => exact .stay _
  | writeBack t =>
    unfold step
    dsimp only
    split
    next nowMs n i hpc =>
      split
      next => exact .stay _
      next hi => exact .wrote t nowMs n i hpc (Nat.le_of_not_lt hi)
    next => exact .stay _

end Moves

/-! ## The clock difference and the writeback -/

theorem ageMs_zero {nowMs : Nat} (h : nowMs < 2 ^ 32) : ageMs nowMs 0 = nowMs := by
  unfold ageMs
  omega

theorem ageMs_of_le {nowMs stamp : Nat} (hle : stamp ≤ nowMs) (hnear : nowMs < stamp + 2 ^ 32) :
    ageMs nowMs stamp = nowMs - stamp := by
  unfold ageMs
  omega

section WriteBack

variable {buffer : Nat → Row} {pool : Nat → Entry} {n : Nat}

/-- A slot before and after, up to what the watchdog has found. -/
def SameButMiss (entry entry' : Entry) : Prop :=
  entry' = { entry with
    missCount := entry'.missCount, lastMissMs := entry'.lastMissMs, missActive := entry'.missActive }

theorem SameButMiss.generation {entry entry' : Entry} (h : SameButMiss entry entry') :
    entry'.generation = entry.generation := by
  rw [h]

theorem writeRow_same (row : Row) (pool : Nat → Entry) (i : Nat) :
    SameButMiss (pool i) (writeRow row pool i) := by
  unfold writeRow
  split
  · by_cases hi : i = row.slot
    · subst hi
      rw [Function.update_self]
      rfl
    · rw [Function.update_of_ne hi]
      rfl
  · rfl

theorem writeRows_same (buffer : Nat → Row) (pool : Nat → Entry) (n i : Nat) :
    SameButMiss (pool i) (writeRows buffer n pool i) := by
  induction n with
  | zero => rfl
  | succ n ih =>
    have hlast := writeRow_same (buffer n) (writeRows buffer n pool) i
    unfold SameButMiss at ih hlast ⊢
    rw [writeRows, forRange_succ, ← writeRows, hlast, ih]

/-- After the writeback a slot has the verdict of the last row written to it, if any. -/
theorem writeRows_cases (buffer : Nat → Row) (pool : Nat → Entry) (n i : Nat) :
    (∃ j < n, (buffer j).slot = i ∧ (buffer j).Writes pool ∧
      (writeRows buffer n pool i).missActive = (buffer j).missActive) ∨
    ((∀ j < n, (buffer j).slot = i → ¬ (buffer j).Writes pool) ∧
      writeRows buffer n pool i = pool i) := by
  induction n with
  | zero => exact .inr ⟨fun j hj => absurd hj (Nat.not_lt_zero j), rfl⟩
  | succ n ih =>
    have hsucc : writeRows buffer (n + 1) pool = writeRow (buffer n) (writeRows buffer n pool) := rfl
    have hwrites : (buffer n).Writes (writeRows buffer n pool) ↔ (buffer n).Writes pool := by
      unfold Row.Writes
      rw [(writeRows_same buffer pool n _).generation]
    by_cases hlast : (buffer n).slot = i ∧ (buffer n).Writes pool
    · refine .inl ⟨n, Nat.lt_succ_self n, hlast.1, hlast.2, ?_⟩
      rw [hsucc, writeRow, if_pos (hwrites.mpr hlast.2), ← hlast.1, Function.update_self]
    · have hkept : writeRows buffer (n + 1) pool i = writeRows buffer n pool i := by
        rw [hsucc, writeRow]
        split
        next hw =>
          have hne : i ≠ (buffer n).slot := fun heq => hlast ⟨heq.symm, hwrites.mp hw⟩
          exact Function.update_of_ne hne _ _
        next => rfl
      rcases ih with ⟨j, hj, hslot, hw, hmiss⟩ | ⟨hnone, hsame⟩
      · exact .inl ⟨j, Nat.lt_succ_of_lt hj, hslot, hw, hkept ▸ hmiss⟩
      · refine .inr ⟨fun j hj hslot hw => ?_, hkept ▸ hsame⟩
        rcases Nat.lt_succ_iff_lt_or_eq.mp hj with hlt | rfl
        · exact hnone j hlt hslot hw
        · exact hlast ⟨hslot, hw⟩

end WriteBack

end TaskRegistry
end Breadboard
