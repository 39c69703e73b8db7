import Mathlib.Logic.Function.Basic
import Breadboard.DataHttp.Client

/-!
# bb_data_http - acquire and release, statement by statement

Any number of tasks run `bb_data_http_client_acquire` and
`bb_data_http_client_release`.  A lock section is one step, and so is every
statement outside one that touches what tasks share: a slot, a pool flag, an
outbound queue.  A block or a queue is its number; their contents, and the other
fields of a slot, are in `Client`.

`bb_queue_create` is a parameter of the step that calls it: it answers an
error, or the handle of a queue that is not live.
-/

namespace Breadboard
namespace DataHttp
namespace AcquireSteps

/-- Where a task stands between two of its steps; `idle` keeps the last status. -/
inductive Phase where
  | idle (last : Option BbErr)
  | pollScan (idx : Nat) (req : ClientCfg) (i : Nat)
  | pollTake (idx : Nat) (req : ClientCfg) (i : Nat)
  | pushScan (idx : Nat) (req : ClientCfg) (poll : Option Nat) (i : Nat)
  | pushTake (idx : Nat) (req : ClientCfg) (poll : Option Nat) (i : Nat)
  | pushFailed (idx : Nat) (poll : Option Nat)
  | setPoll (idx : Nat) (poll push : Option Nat)
  | setPush (idx : Nat) (poll push : Option Nat)
  | create (idx : Nat) (poll push : Option Nat)
  | store (idx : Nat) (poll push : Option Nat) (queue : Nat)
  | publish (idx : Nat) (poll push : Option Nat) (queue : Nat)
  | unwindPoll (idx : Nat) (poll push : Option Nat) (err : BbErr)
  | unwindPush (idx : Nat) (push : Option Nat) (err : BbErr)
  | clearPoll (idx : Nat) (err : BbErr)
  | clearPush (idx : Nat) (err : BbErr)
  | rollback (idx : Nat) (err : BbErr)
  | relDestroy (idx : Nat)
  | relClearOutbound (idx : Nat)
  | relFreePoll (idx : Nat)
  | relClearPoll (idx : Nat)
  | relFreePush (idx : Nat)
  | relClearPush (idx : Nat)
  | relInUse (idx : Nat)
  | relPending (idx : Nat)
  deriving Repr, DecidableEq

/--
The shared fields of `s_clients[idx]` with `s_client_reserved[idx]`.
Proof-only: a stale flag marks a pointer whose target was freed and that was not yet
cleared, and `releasing` marks a slot whose release has begun.
-/
structure Slot where
  inUse : Bool
  reserved : Bool
  nonBlocking : Bool
  poll : Option Nat
  push : Option Nat
  outbound : Option Nat
  pollStale : Bool
  pushStale : Bool
  outboundStale : Bool
  releasing : Bool
  deriving Repr, DecidableEq

/-- A slot after `bb_data_http_init`. -/
def Slot.zero : Slot where
  inUse := false
  reserved := false
  nonBlocking := false
  poll := none
  push := none
  outbound := none
  pollStale := false
  pushStale := false
  outboundStale := false
  releasing := false

/-- What the tasks share, and where each of them stands. -/
structure State (ι : Type) where
  slots : Nat → Slot
  pollInUse : Nat → Bool
  pushInUse : Nat → Bool
  queueLive : Nat → Bool
  phase : ι → Phase

/--
One action: a task calls acquire, calls release on a client, or makes its next step;
`err` and `queue` are what `bb_queue_create` answers there.
-/
inductive Act (ι : Type) where
  | acquire (t : ι) (req : ClientCfg)
  | release (t : ι) (idx : Nat)
  | step (t : ι) (err : BbErr) (queue : Nat)

namespace State

variable {ι : Type} [DecidableEq ι]

/-- After `bb_data_http_init`, before any call. -/
def init : State ι where
  slots := fun _ => .zero
  pollInUse := fun _ => false
  pushInUse := fun _ => false
  queueLive := fun _ => false
  phase := fun _ => .idle none

/-- Task `t` goes on to a phase. -/
def goto (s : State ι) (t : ι) (p : Phase) : State ι :=
  { s with phase := Function.update s.phase t p }

/-- Write a slot. -/
def setSlot (s : State ι) (idx : Nat) (sl : Slot) : State ι :=
  { s with slots := Function.update s.slots idx sl }

/-- `poll_free`. -/
def pollFree (s : State ι) : Option Nat → State ι
  | none => s
  | some p => { s with pollInUse := Function.update s.pollInUse p false }

/-- `push_free`. -/
def pushFree (s : State ι) : Option Nat → State ι
  | none => s
  | some p => { s with pushInUse := Function.update s.pushInUse p false }

/-- `bb_queue_destroy`. -/
def queueDestroy (s : State ι) : Option Nat → State ι
  | none => s
  | some q => { s with queueLive := Function.update s.queueLive q false }

/-- The slot is in use or reserved by a blocking client. -/
def blocking (s : State ι) (idx : Nat) : Bool :=
  ((s.slots idx).inUse || (s.slots idx).reserved) && !(s.slots idx).nonBlocking

/-- The blocking clients in use or reserved below `n`. -/
def blockingCount (s : State ι) (n : Nat) : Nat :=
  (List.range n).countP s.blocking

/-- The push block comes after the poll block, when the client subscribes to EVENT. -/
def pushStage (idx : Nat) (req : ClientCfg) (poll : Option Nat) : Phase :=
  if req.mask.getLsbD ReplayKind.event.code then .pushScan idx req poll 0 else .setPoll idx poll none

/-- What follows the reservation. -/
def pollStage (idx : Nat) (req : ClientCfg) : Phase :=
  if req.mask.getLsbD ReplayKind.state.code then .pollScan idx req 0 else pushStage idx req none

variable (cfg : Config)

/-- The argument check, then the lock section with the budget and the slot scan. -/
def acquire (s : State ι) (t : ι) (req : ClientCfg) : State ι :=
  if topicMax ≤ (req.topicFilter.getD []).length then s.goto t (.idle (some .invalidArg))
  else if req.nonBlocking = false ∧ cfg.maxBlockingClients ≤ s.blockingCount cfg.clientSlots then
    s.goto t (.idle (some .noSpace))
  else
    match (List.range cfg.clientSlots).find? fun i =>
        !(s.slots i).inUse && !(s.slots i).reserved with
    | none => s.goto t (.idle (some .noSpace))
    | some idx =>
      (s.setSlot idx
        { s.slots idx with reserved := true, nonBlocking := req.nonBlocking }).goto t
        (pollStage idx req)

/-- The next step of task `t`. -/
def next (s : State ι) (t : ι) (err : BbErr) (queue : Nat) : State ι :=
  match s.phase t with
  | .idle _ => s
  | .pollScan idx req i =>
    if cfg.pollSlots ≤ i then s.goto t (.rollback idx .noSpace)
    else if !s.pollInUse i then s.goto t (.pollTake idx req i)
    else s.goto t (.pollScan idx req (i + 1))
  | .pollTake idx req i =>
    { s with pollInUse := Function.update s.pollInUse i true }.goto t (pushStage idx req (some i))
  | .pushScan idx req poll i =>
    if cfg.pushSlots ≤ i then s.goto t (.pushFailed idx poll)
    else if !s.pushInUse i then s.goto t (.pushTake idx req poll i)
    else s.goto t (.pushScan idx req poll (i + 1))
  | .pushTake idx _ poll i =>
    { s with pushInUse := Function.update s.pushInUse i true }.goto t (.setPoll idx poll (some i))
  | .pushFailed idx poll => (s.pollFree poll).goto t (.rollback idx .noSpace)
  | .setPoll idx poll push =>
    (s.setSlot idx { s.slots idx with poll := poll }).goto t (.setPush idx poll push)
  | .setPush idx poll push =>
    (s.setSlot idx { s.slots idx with push := push }).goto t (.create idx poll push)
  | .create idx poll push =>
    if err ≠ .ok then s.goto t (.unwindPoll idx poll push err)
    else if s.queueLive queue then s
    else
      { s with queueLive := Function.update s.queueLive queue true }.goto t
        (.store idx poll push queue)
  | .store idx poll push queue =>
    (s.setSlot idx { s.slots idx with outbound := some queue }).goto t
      (.publish idx poll push queue)
  | .publish idx _ _ _ =>
    (s.setSlot idx { s.slots idx with inUse := true, reserved := false }).goto t
      (.idle (some .ok))
  | .unwindPoll idx _ push err =>
    (s.pollFree (s.slots idx).poll).goto t (.unwindPush idx push err)
  | .unwindPush idx _ err => (s.pushFree (s.slots idx).push).goto t (.clearPoll idx err)
  | .clearPoll idx err =>
    (s.setSlot idx { s.slots idx with poll := none }).goto t (.clearPush idx err)
  | .clearPush idx err =>
    (s.setSlot idx { s.slots idx with push := none }).goto t (.rollback idx err)
  | .rollback idx err =>
    (s.setSlot idx { s.slots idx with reserved := false }).goto t (.idle (some err))
  | .relDestroy idx =>
    ((s.queueDestroy (s.slots idx).outbound).setSlot idx
      { s.slots idx with outboundStale := true }).goto t (.relClearOutbound idx)
  | .relClearOutbound idx =>
    (s.setSlot idx { s.slots idx with outbound := none, outboundStale := false }).goto t
      (.relFreePoll idx)
  | .relFreePoll idx =>
    ((s.pollFree (s.slots idx).poll).setSlot idx
      { s.slots idx with pollStale := true }).goto t (.relClearPoll idx)
  | .relClearPoll idx =>
    (s.setSlot idx { s.slots idx with poll := none, pollStale := false }).goto t
      (.relFreePush idx)
  | .relFreePush idx =>
    ((s.pushFree (s.slots idx).push).setSlot idx
      { s.slots idx with pushStale := true }).goto t (.relClearPush idx)
  | .relClearPush idx =>
    (s.setSlot idx { s.slots idx with push := none, pushStale := false }).goto t
      (.relInUse idx)
  | .relInUse idx =>
    (s.setSlot idx { s.slots idx with inUse := false, releasing := false }).goto t
      (.relPending idx)
  | .relPending _ => s.goto t (.idle (some .ok))

/--
One action.  A call starts on an idle task only, and release is for a client in use
that no other call is releasing.
-/
def step (s : State ι) : Act ι → State ι
  | .acquire t req =>
    match s.phase t with
    | .idle _ => s.acquire cfg t req
    | _ => s
  | .release t idx =>
    match s.phase t with
    | .idle _ =>
      if (s.slots idx).inUse && !(s.slots idx).releasing then
        (s.setSlot idx { s.slots idx with releasing := true }).goto t (.relDestroy idx)
      else s
    | _ => s
  | .step t err queue => s.next cfg t err queue

end State

end AcquireSteps
end DataHttp
end Breadboard
