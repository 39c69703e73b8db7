import Breadboard.Foundations.Runs
import Breadboard.Pool.Create

/-!
# bb_pool - slot pools

Acquire and release of fixed-size slots: a stack of free slots, a bitmap of
the slots on loan and a bitmap of the slots held until their reuse predicate
allows it.  What the predicate answers is an argument of the call that asks it.
Each operation also returns its events in order: the callbacks it invokes and
the slots that change hands.
-/

namespace Breadboard
namespace Pool

open Foundations

/-- What happens to slots, in the order it happens. -/
inductive Event where
  | onAcquire (ptr : Nat)
  | onRelease (ptr : Nat)
  | slotReap (ptr : Nat)
  | handout (ptr : Nat)
  | takeBack (ptr : Nat)
  deriving Repr, DecidableEq

/-- The configuration and the slot part of a slot pool. -/
structure SlotPool where
  cfg : PoolCfg
  slots : Slots

/-- The slot part of `struct bb_pool` with its configuration. -/
def BbPool.slotPool (p : BbPool) : SlotPool :=
  { cfg := p.cfg, slots := p.slots }

namespace SlotPool

/-- `slots_index_of`: `none` stands for `SIZE_MAX`. -/
def indexOf (p : SlotPool) (ptr : Nat) : Option Nat :=
  if ptr < p.slots.storage then none
  else
    let offset := ptr - p.slots.storage
    if offset % p.slots.slotStride ≠ 0 then none
    else if p.cfg.capacity ≤ offset / p.slots.slotStride then none
    else some (offset / p.slots.slotStride)

/-- `slots_ptr_at`. -/
def ptrAt (p : SlotPool) (idx : Nat) : Nat :=
  p.slots.ptrAt idx

/-- A callback that is only called when it is set. -/
def callback (isSet : Bool) (e : Event) : List Event :=
  if isSet then [e] else []

/-- Slot `idx` is taken off the pending bitmap and finalised. -/
def reap (p : SlotPool) (idx : Nat) : SlotPool × List Event :=
  ({ p with slots := { p.slots with pendingBitmap := p.slots.pendingBitmap.clear idx } },
    callback p.cfg.slotReap (.slotReap (p.ptrAt idx)))

/-- The part of `bb_pool_acquire` that finds a slot. -/
def take (p : SlotPool) (reusable : Nat → Bool) : Option Nat × SlotPool × List Event :=
  match p.slots.freeList with
  | ptr :: rest => (some ptr, { p with slots := { p.slots with freeList := rest } }, [])
  | [] =>
    if p.cfg.slotReusable then
      match (List.range p.cfg.capacity).find? fun idx =>
        p.slots.pendingBitmap.test idx && reusable idx with
      | some idx => (some (p.ptrAt idx), (p.reap idx).1, (p.reap idx).2)
      | none => (none, p, [])
    else (none, p, [])

/-- The part of `bb_pool_acquire` that marks the slot found and hands it out. -/
def handOut (p : SlotPool) (ptr : Nat) : SlotPool × List Event :=
  ((match p.indexOf ptr with
    | some idx =>
      { p with slots := { p.slots with acquiredBitmap := p.slots.acquiredBitmap.set idx } }
    | none => p),
    callback p.cfg.onAcquire (.onAcquire ptr) ++ [.handout ptr])

/-- `bb_pool_acquire`: `reusable` holds the answers of the reuse predicate. -/
def acquire (p : SlotPool) (reusable : Nat → Bool) : Option Nat × SlotPool × List Event :=
  match p.take reusable with
  | (some ptr, p', events) =>
    if ptr = 0 then (none, p', events)
    else (some ptr, (p'.handOut ptr).1, events ++ (p'.handOut ptr).2)
  | (none, p', events) => (none, p', events)

/-- `bb_pool_release`. -/
def release (p : SlotPool) (ptr : Nat) : BbErr × SlotPool × List Event :=
  if ptr = 0 then (.invalidArg, p, [])
  else
    match p.indexOf ptr with
    | none => (.invalidArg, p, [])
    | some idx =>
      if p.slots.acquiredBitmap.test idx = false then (.invalidState, p, [])
      else if p.cfg.slotReusable = false ∧ p.cfg.capacity ≤ p.slots.freeList.length then
        (.invalidState, p, [])
      else
        let acquiredBitmap := p.slots.acquiredBitmap.clear idx
        let slots :=
          if p.cfg.slotReusable then
            { p.slots with
              acquiredBitmap := acquiredBitmap
              pendingBitmap := p.slots.pendingBitmap.set idx }
          else
            { p.slots with
              acquiredBitmap := acquiredBitmap
              freeList := ptr :: p.slots.freeList }
        (.ok, { p with slots := slots },
          .takeBack ptr :: callback p.cfg.onRelease (.onRelease ptr))

/-- The body of the loop of `bb_pool_slots_reap_ready`, with its `reaped` counter. -/
def reapReadyAt (reusable : Nat → Bool) (st : Nat × SlotPool × List Event) (idx : Nat) :
    Nat × SlotPool × List Event :=
  let p := st.2.1
  if p.slots.pendingBitmap.test idx = false then st
  else if reusable idx = false then st
  else
    let p' := (p.reap idx).1
    (st.1 + 1,
      { p' with slots := { p'.slots with freeList := p.ptrAt idx :: p'.slots.freeList } },
      st.2.2 ++ (p.reap idx).2)

/-- `bb_pool_slots_reap_ready`. -/
def reapReady (p : SlotPool) (reusable : Nat → Bool) : Nat × SlotPool × List Event :=
  if p.cfg.slotReusable = false then (0, p, [])
  else forRange (reapReadyAt reusable) (0, p, []) p.cfg.capacity

end SlotPool

/-- The calls on a slot pool. -/
inductive SlotOp where
  | acquire (reusable : Nat → Bool)
  | release (ptr : Nat)
  | reapReady (reusable : Nat → Bool)

/-- What a call returns. -/
inductive SlotReply where
  | slot (ptr : Option Nat)
  | status (err : BbErr)
  | reaped (n : Nat)
  deriving Repr, DecidableEq

/-- One call: its reply with its events, and the pool after it. -/
def SlotPool.exec (p : SlotPool) : SlotOp → (SlotReply × List Event) × SlotPool
  | .acquire reusable =>
    ((.slot (p.acquire reusable).1, (p.acquire reusable).2.2), (p.acquire reusable).2.1)
  | .release ptr => ((.status (p.release ptr).1, (p.release ptr).2.2), (p.release ptr).2.1)
  | .reapReady reusable =>
    ((.reaped (p.reapReady reusable).1, (p.reapReady reusable).2.2), (p.reapReady reusable).2.1)

end Pool
end Breadboard
