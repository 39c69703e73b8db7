import Breadboard.Core.Basics
import Breadboard.Foundations.ConditionVariable

/-!
# The ESP-IDF condition variable

`bb_lock_cond.c` over FreeRTOS semaphores: each waiter links a node with a
binary semaphore of its own, releases the caller's lock and takes that
semaphore; a signaller pops a node and gives to its semaphore while it holds the
guard.  A node lives on its thread's stack, so it is named by its thread.

A section of code under the guard that touches no other semaphore is one step.
The sections of `signal` and `broadcast`, which give while they hold the
guard, are one step for each pop and one for each give.
-/

namespace Breadboard
namespace LockCond

open Foundations
open ConditionVariable (Obs Outcome)

universe u

variable {τ : Type u} [DecidableEq τ]

/-! ## The waiter list -/

/-- The list of `bb_lock_cond_waiterlist.c` from its head, and the nodes' flags. -/
structure WaiterList (τ : Type u) where
  nodes : List τ
  linked : τ → Bool

/-- `bb_lock_cond_waiterlist_push`. -/
def WaiterList.push (l : WaiterList τ) (w : τ) : WaiterList τ where
  nodes := w :: l.nodes
  linked := Function.update l.linked w true

/-- `bb_lock_cond_waiterlist_pop`: the head node, or none. -/
def WaiterList.pop (l : WaiterList τ) : Option τ × WaiterList τ :=
  match l.nodes with
  | [] => (none, l)
  | w :: rest => (some w, { nodes := rest, linked := Function.update l.linked w false })

/-- `bb_lock_cond_waiterlist_remove`: whether the node was still linked. -/
def WaiterList.remove (l : WaiterList τ) (w : τ) : Bool × WaiterList τ :=
  if l.linked w = false then (false, l)
  else (true, { nodes := l.nodes.erase w, linked := Function.update l.linked w false })

/-- `bb_lock_cond_waiterlist_decide_result`. -/
def decideResult (wasStillLinked semTaken : Bool) : BbErr :=
  if !wasStillLinked || semTaken then .ok else .timeout

/-! ## Timeouts -/

/-- `BB_LOCK_COND_WAIT_FOREVER`. -/
def waitForever : UInt32 := 0xFFFFFFFF

/-- `portMAX_DELAY`: a take with this timeout blocks without end. -/
def portMaxDelay : Nat := 0xFFFFFFFF

/-- `bb_lock_cond_ms_to_ticks`. -/
def msToTicks (timeoutMs : UInt32) (tickRateHz maxTicks : Nat) : Nat :=
  let ticks := timeoutMs.toNat * tickRateHz / 1000
  if maxTicks < ticks then maxTicks else ticks

/-- The tick count `bb_lock_cond_wait` passes to its take. -/
def waitTicks (tickRateHz : Nat) (timeoutMs : UInt32) : Nat :=
  if timeoutMs = waitForever then portMaxDelay
  else msToTicks timeoutMs tickRateHz (portMaxDelay - 1)

/-! ## Threads -/

/-- The next operation of a thread; the source's locals it still needs are arguments. -/
inductive Pc (τ : Type u) where
  /-- Outside the condition variable. -/
  | idle
  /-- `wait`, about to link its node. -/
  | waitLink (timeoutMs : UInt32)
  /-- `wait`, about to release the caller's lock. -/
  | waitUnlock (timeoutMs : UInt32)
  /-- `wait`, in `xSemaphoreTake` of its own semaphore. -/
  | waitTake (timeoutMs : UInt32)
  /-- `wait`, about to unlink its node. -/
  | waitUnlink (got : Bool)
  /-- `wait`, about to delete its semaphore. -/
  | waitDelete (wasStillLinked got : Bool)
  /-- `wait`, about to take the caller's lock again. -/
  | waitRelock (wasStillLinked got : Bool)
  /-- `signal`, about to take the guard and pop. -/
  | signalPop
  /-- `signal`, holding the guard, about to give to the popped waiter. -/
  | signalGive (w : τ)
  /-- `broadcast`, about to take the guard. -/
  | broadcastEnter
  /-- `broadcast`, holding the guard, about to pop. -/
  | broadcastPop
  /-- `broadcast`, holding the guard, about to give to a popped waiter. -/
  | broadcastGive (w : τ)
  deriving DecidableEq, Repr

/--
The condition variable, the caller's lock, and the threads.  `sem` is the count of a
thread's own semaphore while it exists.
-/
structure State (τ : Type u) where
  guard : Option τ
  lock : Option τ
  waiters : WaiterList τ
  sem : τ → Option Bool
  pc : τ → Pc τ

/-- No thread is inside the condition variable. -/
def State.init : State τ where
  guard := none
  lock := none
  waiters := { nodes := [], linked := fun _ => false }
  sem := fun _ => none
  pc := fun _ => .idle

/-- A thread moves on to its next operation. -/
def State.goto (s : State τ) (t : τ) (pc : Pc τ) : State τ :=
  { s with pc := Function.update s.pc t pc }

/-- `xSemaphoreGive` on a waiter's semaphore. -/
def State.give (s : State τ) (w : τ) : State τ :=
  { s with sem := Function.update s.sem w (some true) }

/-- How a result reads to the caller. -/
def outcomeOf : BbErr → Outcome
  | .ok => .woken
  | _ => .timedOut

/-- The next operation of `t`, with what it shows; a blocked operation does nothing. -/
def State.advance (s : State τ) (t : τ) : List (Obs τ) × State τ :=
  match s.pc t with
  | .idle => ([], s)
  | .waitLink timeoutMs =>
    if s.guard = none then
      ([.register t], { s.goto t (.waitUnlock timeoutMs) with waiters := s.waiters.push t })
    else ([], s)
  | .waitUnlock timeoutMs =>
    ([.release t], { s.goto t (.waitTake timeoutMs) with lock := none })
  | .waitTake _ =>
    if s.sem t = some true then
      ([], { s.goto t (.waitUnlink true) with sem := Function.update s.sem t (some false) })
    else ([], s)
  | .waitUnlink got =>
    if s.guard = none then
      let removed := s.waiters.remove t
      (if removed.1 then [.expire t] else [],
        { s.goto t (.waitDelete removed.1 got) with waiters := removed.2 })
    else ([], s)
  | .waitDelete still got =>
    ([], { s.goto t (.waitRelock still got) with sem := Function.update s.sem t none })
  | .waitRelock still got =>
    if s.lock = none then
      ([.back t (outcomeOf (decideResult still got))],
        { s.goto t .idle with lock := some t })
    else ([], s)
  | .signalPop =>
    if s.guard = none then
      match s.waiters.pop with
      | (none, _) => ([.signal none], s.goto t .idle)
      | (some w, rest) =>
        ([.signal (some w)], { s.goto t (.signalGive w) with guard := some t, waiters := rest })
    else ([], s)
  | .signalGive w => ([.give w], { (s.give w).goto t .idle with guard := none })
  | .broadcastEnter =>
    if s.guard = none then
      ([.broadcast s.waiters.nodes], { s.goto t .broadcastPop with guard := some t })
    else ([], s)
  | .broadcastPop =>
    match s.waiters.pop with
    | (none, _) => ([], { s.goto t .idle with guard := none })
    | (some w, rest) => ([], { s.goto t (.broadcastGive w) with waiters := rest })
  | .broadcastGive w => ([.give w], (s.give w).goto t .broadcastPop)

/-- What a scheduler can choose. -/
inductive Action (τ : Type u) where
  /-- A thread outside takes or releases the caller's lock. -/
  | lock (t : τ)
  | unlock (t : τ)
  /-- A thread outside calls an operation; `wait` requires the lock. -/
  | wait (t : τ) (timeoutMs : UInt32)
  | signal (t : τ)
  | broadcast (t : τ)
  /-- A thread inside executes its next operation. -/
  | advance (t : τ)
  /-- The take of a waiter's semaphore times out, finding it empty. -/
  | expire (t : τ)

/-- One action, with what it shows; an action that is not possible does nothing. -/
def State.act (tickRateHz : Nat) (s : State τ) : Action τ → List (Obs τ) × State τ
  | .lock t =>
    if s.pc t = .idle ∧ s.lock = none then ([], { s with lock := some t }) else ([], s)
  | .unlock t =>
    if s.pc t = .idle ∧ s.lock = some t then ([], { s with lock := none }) else ([], s)
  | .wait t timeoutMs =>
    if s.pc t = .idle ∧ s.lock = some t then
      -- the node starts unlinked, its semaphore empty
      ([], { s.goto t (.waitLink timeoutMs) with
        sem := Function.update s.sem t (some false)
        waiters := { s.waiters with linked := Function.update s.waiters.linked t false } })
    else ([], s)
  | .signal t => if s.pc t = .idle then ([], s.goto t .signalPop) else ([], s)
  | .broadcast t => if s.pc t = .idle then ([], s.goto t .broadcastEnter) else ([], s)
  | .advance t => s.advance t
  | .expire t =>
    match s.pc t with
    | .waitTake timeoutMs =>
      if s.sem t = some false ∧ waitTicks tickRateHz timeoutMs ≠ portMaxDelay then
        ([], s.goto t (.waitUnlink false))
      else ([], s)
    | _ => ([], s)

/-- The state after an action. -/
def State.step (tickRateHz : Nat) (s : State τ) (a : Action τ) : State τ :=
  (s.act tickRateHz a).2

/-- What an action shows. -/
def State.shows (tickRateHz : Nat) (s : State τ) (a : Action τ) : List (Obs τ) :=
  (s.act tickRateHz a).1

end LockCond
end Breadboard
