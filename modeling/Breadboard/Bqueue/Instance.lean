import Breadboard.Core.Basics
import Breadboard.Foundations.Runs
import Mathlib.Logic.Function.Basic

/-!
# bb_bqueue - the host queue

One instance of `platform/host/bb_bqueue/bb_bqueue.c`: a mailbox when its capacity is one,
a bounded queue for many senders otherwise, both over the same storage.  A caller holds the
instance's lock except inside `bb_lock_cond_wait`, so what it does between two waits is
one step; a wait ends with any status and at any time.
-/

namespace Breadboard
namespace Bqueue

open Foundations

universe u v

/-! ## Instances -/

/-- The Kconfig bounds `BB_BQUEUE_MAX_CAPACITY` and `BB_BQUEUE_MAX_ITEM_BYTES`. -/
structure Kconfig where
  maxCapacity : Nat
  maxItemBytes : Nat

/-- `bb_bqueue_cfg_t`. -/
structure BqueueCfg where
  capacity : Nat
  itemBytes : Nat

/-- `bb_bqueue_validate_cfg`. -/
def validateCfg (kc : Kconfig) (cfg : BqueueCfg) : BbErr :=
  if cfg.capacity = 0 ∨ kc.maxCapacity < cfg.capacity then .invalidArg
  else if cfg.itemBytes = 0 ∨ kc.maxItemBytes < cfg.itemBytes then .invalidArg
  else .ok

/--
`bb_bqueue_inst_t` without its lock and conditions; `α` is an item of
`itemBytes` bytes, `w` the width of `size_t`.
-/
structure Inst (α : Type u) (w : Nat) where
  capacity : Nat
  itemBytes : Nat
  storage : Nat → α
  head : Nat
  count : Nat
  dropped : BitVec w

variable {α : Type u} {w : Nat}

/-- `bb_bqueue_create` once a pool slot is found; `blank` is a zeroed item. -/
def Inst.create (kc : Kconfig) (blank : α) (cfg : BqueueCfg) : Except BbErr (Inst α w) :=
  match validateCfg kc cfg with
  | .ok =>
    .ok
      { capacity := cfg.capacity
        itemBytes := cfg.itemBytes
        storage := fun _ => blank
        head := 0
        count := 0
        dropped := 0 }
  | vrc => .error vrc

/-! ## Waiting -/

/-- `BB_BQUEUE_WAIT_FOREVER`, and `BB_LOCK_COND_WAIT_FOREVER`. -/
def waitForever : UInt32 := 0xFFFFFFFF

/-- `bb_bqueue_deadline_compute`. -/
def deadlineCompute (nowUs : UInt64) (timeoutMs : UInt32) : UInt64 :=
  nowUs + timeoutMs.toUInt64 * 1000

/-- `bb_bqueue_deadline_remaining_ms`: nothing once the deadline is reached. -/
def deadlineRemainingMs (deadlineUs nowUs : UInt64) : Option UInt32 :=
  if deadlineUs ≤ nowUs then none else some ((deadlineUs - nowUs) / 1000).toUInt32

/-- How long a blocked caller goes on waiting. -/
inductive Patience where
  | forever
  | deadline (deadlineUs : UInt64)
  deriving Repr, DecidableEq

/--
How `bb_bqueue_wait_until` leaves a locked section: it returns, or it calls
`bb_lock_cond_wait` with a timeout.
-/
inductive Wait where
  | returns (rc : BbErr)
  | blocks (patience : Patience) (condMs : UInt32)
  deriving Repr, DecidableEq

/-- The head of either loop of `bb_bqueue_wait_until`. -/
def Inst.waitLoop (q : Inst α w) (blockedAt : Nat) (nowUs : UInt64) : Patience → Wait
  | .forever => if q.count = blockedAt then .blocks .forever waitForever else .returns .ok
  | .deadline deadlineUs =>
    if q.count = blockedAt then
      match deadlineRemainingMs deadlineUs nowUs with
      | none => .returns .timeout
      | some remainingMs => .blocks (.deadline deadlineUs) remainingMs
    else .returns .ok

/-- `bb_bqueue_wait_until` up to its first wait, with the two times it reads. -/
def Inst.waitUntil (q : Inst α w) (blockedAt : Nat) (timeoutMs : UInt32) (immediateErr : BbErr)
    (nowUs nowUs' : UInt64) : Wait :=
  if q.count ≠ blockedAt then .returns .ok
  else if timeoutMs = 0 then .returns immediateErr
  else if timeoutMs = waitForever then q.waitLoop blockedAt nowUs' .forever
  else q.waitLoop blockedAt nowUs' (.deadline (deadlineCompute nowUs timeoutMs))

/-- `bb_bqueue_wait_until` from the return of a wait on. -/
def Inst.waitWoken (q : Inst α w) (blockedAt : Nat) (nowUs : UInt64) (wrc : BbErr) :
    Patience → Wait
  -- the loop without a deadline does not look at the status
  | .forever => q.waitLoop blockedAt nowUs .forever
  | .deadline deadlineUs =>
    if wrc = .timeout then .returns .timeout else q.waitLoop blockedAt nowUs (.deadline deadlineUs)

/-! ## Calls -/

/-- A call on an instance; an item is missing when its pointer is `NULL`. -/
inductive Call (α : Type u) where
  | overwrite (item : Option α)
  | reset
  | send (item : Option α) (timeoutMs : UInt32)
  | dropped (hasOut : Bool)
  | peek (hasOut : Bool) (timeoutMs : UInt32)
  | receive (hasOut : Bool) (timeoutMs : UInt32)
  | count
  deriving Repr, DecidableEq

/-- What a call comes back with: an error, or `BB_OK` and what it gives out. -/
inductive Answer (α : Type u) (w : Nat) where
  | err (rc : BbErr)
  | done
  | item (x : α)
  | dropped (n : BitVec w)
  | count (n : Nat)
  deriving DecidableEq

/-- A caller past its argument checks whose call may wait. -/
inductive Waiter (α : Type u) where
  | send (item : α)
  | peek
  | receive
  deriving Repr, DecidableEq

/-- The call a waiter has made. -/
def Waiter.call (timeoutMs : UInt32) : Waiter α → Call α
  | .send item => .send (some item) timeoutMs
  | .peek => .peek true timeoutMs
  | .receive => .receive true timeoutMs

/-- The item count at which a waiter blocks. -/
def Inst.blockedAt (q : Inst α w) : Waiter α → Nat
  | .send _ => q.capacity
  | .peek => 0
  | .receive => 0

/-- The status of a waiter that does not want to wait. -/
def Waiter.immediateErr : Waiter α → BbErr
  | .send _ => .noSpace
  | .peek => .notFound
  | .receive => .notFound

/-- `bb_bqueue_send` after its wait. -/
def Inst.sendRest (q : Inst α w) (item : α) (rc : BbErr) : Answer α w × Inst α w :=
  if rc ≠ .ok then (.err rc, { q with dropped := q.dropped + 1 })
  else
    let tail := (q.head + q.count) % q.capacity
    (.done, { q with storage := Function.update q.storage tail item, count := q.count + 1 })

/-- `bb_bqueue_peek` after its wait. -/
def Inst.peekRest (q : Inst α w) (rc : BbErr) : Answer α w × Inst α w :=
  if rc ≠ .ok then (.err rc, q) else (.item (q.storage q.head), q)

/-- `bb_bqueue_receive` after its wait. -/
def Inst.receiveRest (q : Inst α w) (rc : BbErr) : Answer α w × Inst α w :=
  if rc ≠ .ok then (.err rc, q)
  else if q.capacity = 1 then (.item (q.storage q.head), { q with count := 0 })
  else
    (.item (q.storage q.head),
      { q with head := (q.head + 1) % q.capacity, count := q.count - 1 })

/-- What a waiter does after its wait. -/
def Inst.rest (q : Inst α w) (rc : BbErr) : Waiter α → Answer α w × Inst α w
  | .send item => q.sendRest item rc
  | .peek => q.peekRest rc
  | .receive => q.receiveRest rc

/-- How a locked section of a call ends: with the answer, or in a wait. -/
inductive Outcome (α : Type u) (w : Nat) where
  | answered (a : Answer α w)
  | blocked (waiter : Waiter α) (patience : Patience) (condMs : UInt32)

/-- The section of a waiter whose `bb_bqueue_wait_until` ended as given. -/
def Inst.finish (q : Inst α w) (waiter : Waiter α) : Wait → Outcome α w × Inst α w
  | .returns rc => (.answered (q.rest rc waiter).1, (q.rest rc waiter).2)
  | .blocks patience condMs => (.blocked waiter patience condMs, q)

/-- The first section of a call that may wait. -/
def Inst.enter (q : Inst α w) (waiter : Waiter α) (timeoutMs : UInt32) (nowUs nowUs' : UInt64) :
    Outcome α w × Inst α w :=
  q.finish waiter
    (q.waitUntil (q.blockedAt waiter) timeoutMs waiter.immediateErr nowUs nowUs')

/-- The section of a waiter whose wait has returned `wrc`. -/
def Inst.woken (q : Inst α w) (waiter : Waiter α) (patience : Patience) (wrc : BbErr)
    (nowUs : UInt64) : Outcome α w × Inst α w :=
  q.finish waiter (q.waitWoken (q.blockedAt waiter) nowUs wrc patience)

/-- A call up to its first wait or its end. -/
def Inst.call (q : Inst α w) (nowUs nowUs' : UInt64) : Call α → Outcome α w × Inst α w
  | .overwrite none => (.answered (.err .invalidArg), q)
  | .overwrite (some item) =>
    if q.capacity ≠ 1 then (.answered (.err .invalidState), q)
    else
      (.answered .done,
        { q with storage := Function.update q.storage 0 item, count := 1 })
  | .reset =>
    if q.capacity ≠ 1 then (.answered (.err .invalidState), q)
    else (.answered .done, { q with count := 0 })
  | .send none _ => (.answered (.err .invalidArg), q)
  | .send (some item) timeoutMs =>
    if q.capacity = 1 then (.answered (.err .invalidState), q)
    else q.enter (.send item) timeoutMs nowUs nowUs'
  | .dropped hasOut =>
    if !hasOut then (.answered (.err .invalidArg), q)
    else if q.capacity = 1 then (.answered (.err .invalidState), q)
    else (.answered (.dropped q.dropped), q)
  | .peek hasOut timeoutMs =>
    if !hasOut then (.answered (.err .invalidArg), q) else q.enter .peek timeoutMs nowUs nowUs'
  | .receive hasOut timeoutMs =>
    if !hasOut then (.answered (.err .invalidArg), q) else q.enter .receive timeoutMs nowUs nowUs'
  | .count => (.answered (.count q.count), q)

/-! ## Callers -/

/-- A caller in `bb_lock_cond_wait`. -/
structure Parked (α : Type u) where
  waiter : Waiter α
  timeoutMs : UInt32
  patience : Patience
  condMs : UInt32

/-- An instance and its callers: where each is parked, if it is. -/
structure State (τ : Type v) (α : Type u) (w : Nat) where
  inst : Inst α w
  parked : τ → Option (Parked α)

/-- A call that has come back. -/
structure Event (τ : Type v) (α : Type u) (w : Nat) where
  caller : τ
  call : Call α
  answer : Answer α w

variable {τ : Type v}

/-- A new instance, with nobody inside. -/
def State.init (q : Inst α w) : State τ α w where
  inst := q
  parked := fun _ => none

/-- What a scheduler can choose. -/
inductive Action (τ : Type v) (α : Type u) where
  /-- A caller outside calls, reading the clock at most twice. -/
  | call (t : τ) (c : Call α) (nowUs nowUs' : UInt64)
  /-- The wait of a parked caller ends with a status, and its section reads the clock. -/
  | wake (t : τ) (wrc : BbErr) (nowUs : UInt64)

variable [DecidableEq τ]

/-- A locked section has ended: its caller answers or parks. -/
def State.settle (s : State τ α w) (t : τ) (c : Call α) (timeoutMs : UInt32)
    (r : Outcome α w × Inst α w) : List (Event τ α w) × State τ α w :=
  match r.1 with
  | .answered a =>
    ([{ caller := t, call := c, answer := a }],
      { inst := r.2, parked := Function.update s.parked t none })
  | .blocked waiter patience condMs =>
    let p : Parked α :=
      { waiter := waiter, timeoutMs := timeoutMs, patience := patience, condMs := condMs }
    ([], { inst := r.2, parked := Function.update s.parked t (some p) })

/-- The timeout a call is made with. -/
def Call.timeoutMs : Call α → UInt32
  | .send _ timeoutMs => timeoutMs
  | .peek _ timeoutMs => timeoutMs
  | .receive _ timeoutMs => timeoutMs
  | _ => 0

/-- One locked section, with the calls that come back; an action that is not possible does nothing. -/
def State.act (s : State τ α w) : Action τ α → List (Event τ α w) × State τ α w
  | .call t c nowUs nowUs' =>
    match s.parked t with
    | none => s.settle t c c.timeoutMs (s.inst.call nowUs nowUs' c)
    | some _ => ([], s)
  | .wake t wrc nowUs =>
    match s.parked t with
    | none => ([], s)
    | some p =>
      s.settle t (p.waiter.call p.timeoutMs) p.timeoutMs
        (s.inst.woken p.waiter p.patience wrc nowUs)

/-- The state after an action. -/
def State.step (s : State τ α w) (a : Action τ α) : State τ α w :=
  (s.act a).2

/-- The calls that come back in an action. -/
def State.shows (s : State τ α w) (a : Action τ α) : List (Event τ α w) :=
  (s.act a).1

/-- The calls that came back in a run, in the order of their last sections. -/
def history (s : State τ α w) (as : List (Action τ α)) : List (Event τ α w) :=
  outputs State.step State.shows s as

end Bqueue
end Breadboard
