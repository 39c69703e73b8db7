import Breadboard.Core.Basics
import Breadboard.Foundations.Runs

/-!
# The mDNS coalescing pipeline

Peer events on their way from the browse notifier to the dispatch task in
`bb_mdns.c`: the notifier appends them to the pending batch, a flush copies the
batch into the shared scratch item and pushes that into the batch ring, and the
dispatch task copies an item from the ring back into the scratch item and passes
its entries on one by one.

One step is one section between taking and giving `s_evt_pool_lock`, one
`bb_queue` call made outside it, or one pass of the dispatch loop.  The flush timer
may fire at any time.

Main results:

- Theorem `view_relocate`: a copied event names the same TXT strings.
-/

namespace Breadboard
namespace Mdns

open Foundations

/-! ## Events -/

/-- `BB_MDNS_EVT_TXT_MAX`. -/
def evtTxtMax : Nat := 8

/-- `bb_mdns_txt_t`: addresses of two strings, or null. -/
structure Txt where
  key : Option Int
  value : Option Int
  deriving DecidableEq, Repr

/-- `bb_mdns_evt_t`; the TXT pointers point into the payload of the event's own slot. -/
structure Evt where
  isRemoval : Bool
  service : Bytes
  proto : Bytes
  instanceName : Bytes
  hostname : Bytes
  ip4 : Bytes
  port : Nat
  txtCount : Nat
  txt : Nat → Txt
  payload : Bytes

/-- A zeroed event. -/
def Evt.zero : Evt where
  isRemoval := false
  service := []
  proto := []
  instanceName := []
  hostname := []
  ip4 := []
  port := 0
  txtCount := 0
  txt := fun _ => ⟨none, none⟩
  payload := []

/-- What a consumer reads out of an event. -/
structure Peer where
  isRemoval : Bool
  service : Bytes
  proto : Bytes
  instanceName : Bytes
  hostname : Bytes
  ip4 : Bytes
  port : Nat
  txt : List (Option Bytes × Option Bytes)
  deriving DecidableEq, Repr

/-- The string at an address, for a payload stored at `base`; none when it points elsewhere. -/
def cStringAt (base : Int) (payload : Bytes) : Option Int → Option Bytes
  | none => none
  | some p =>
    if base ≤ p ∧ p < base + payload.length then
      some ((payload.drop (p - base).toNat).takeWhile (· ≠ 0))
    else none

/-- The peer an event describes while its payload is at `base`. -/
def Evt.view (base : Int) (e : Evt) : Peer where
  isRemoval := e.isRemoval
  service := e.service
  proto := e.proto
  instanceName := e.instanceName
  hostname := e.hostname
  ip4 := e.ip4
  port := e.port
  txt := (List.range (min e.txtCount evtTxtMax)).map fun i =>
    (cStringAt base e.payload (e.txt i).key, cStringAt base e.payload (e.txt i).value)

/-- The pointer loop after a struct copy, for payloads `off` apart. -/
def Evt.relocate (off : Int) (e : Evt) : Evt :=
  { e with txt := fun i =>
      if i < e.txtCount ∧ i < evtTxtMax then
        ⟨(e.txt i).key.map (· + off), (e.txt i).value.map (· + off)⟩
      else e.txt i }

theorem cStringAt_map_add (base off : Int) (payload : Bytes) (p : Option Int) :
    cStringAt (base + off) payload (p.map (· + off)) = cStringAt base payload p := by
  cases p with
  | none => rfl
  | some p =>
    have hsub : p + off - (base + off) = p - base := by omega
    have hrange : (base + off ≤ p + off ∧ p + off < base + off + payload.length) ↔
        (base ≤ p ∧ p < base + payload.length) := by omega
    simp only [Option.map_some, cStringAt, hsub, hrange]

/-- A copied event with its pointers moved along describes the same peer. -/
theorem view_relocate (src dst : Int) (e : Evt) :
    (e.relocate (dst - src)).view dst = e.view src := by
  have htxt : (List.range (min e.txtCount evtTxtMax)).map (fun i =>
      (cStringAt dst e.payload ((e.relocate (dst - src)).txt i).key,
        cStringAt dst e.payload ((e.relocate (dst - src)).txt i).value)) =
      (List.range (min e.txtCount evtTxtMax)).map fun i =>
        (cStringAt src e.payload (e.txt i).key, cStringAt src e.payload (e.txt i).value) := by
    apply List.map_congr_left
    intro i hi
    have hlt := List.mem_range.mp hi
    have hboth : i < e.txtCount ∧ i < evtTxtMax := by omega
    have hdst : dst = src + (dst - src) := by omega
    have hkey := cStringAt_map_add src (dst - src) e.payload (e.txt i).key
    have hvalue := cStringAt_map_add src (dst - src) e.payload (e.txt i).value
    rw [← hdst] at hkey hvalue
    simp only [Evt.relocate, if_pos hboth, hkey, hvalue]
  simp only [Evt.view]
  exact congrArg (Peer.mk e.isRemoval e.service e.proto e.instanceName e.hostname e.ip4 e.port)
    htxt

/-! ## Pipeline state -/

/-- Where an event can be stored. -/
inductive Slot where
  /-- The notifier's stack variable. -/
  | tmp
  /-- `s_batch.entries[i]`. -/
  | batch (i : Nat)
  /-- `s_dispatch_item->entries[i]`. -/
  | item (i : Nat)

/-- The Kconfig sizes, and where the payload of each slot is in memory. -/
structure Config where
  batchMax : Nat
  ringDepth : Nat
  payloadAddr : Slot → Int
  batchMax_pos : 0 < batchMax

/--
`bb_mdns_batch_item_t`.  In the ring it is stored by value, so its pointers still point
into the scratch item, where the dispatch task copies it back to.
-/
structure Item where
  count : Nat
  entries : Nat → Evt

/-- Where `flush_work_fn` is. -/
inductive FlushPc where
  | idle
  /-- It has copied the batch and released the lock. -/
  | copied
  /-- Its push has returned. -/
  | pushed (ok : Bool)
  deriving DecidableEq, Repr

/-- Where `internal_notifier` is: the event it is appending, and the results still to come. -/
inductive NotifierPc where
  | idle
  | copied (e : Evt) (rest : List Evt)
  | pushed (ok : Bool) (e : Evt) (rest : List Evt)

/-- Where `bb_mdns_dispatch_task` is. -/
inductive DispatchPc where
  /-- Waiting for `s_ring_sem`. -/
  | waiting
  /-- About to take the lock and look at the ring. -/
  | draining
  /-- About to test the loop condition for entry `i` of the scratch item. -/
  | dispatching (i : Nat)
  deriving DecidableEq, Repr

/--
The shared memory and the three tasks.  `accepted` and `dispatched` record the
events appended with success and those passed to `dispatch_one`.
-/
structure State where
  batch : List Evt
  scratch : Item
  ring : List Item
  ringSem : Bool
  flush : FlushPc
  notifier : NotifierPc
  dispatcher : DispatchPc
  accepted : List Peer
  dispatched : List Peer

/-- After `bb_mdns_init`. -/
def State.init : State where
  batch := []
  scratch := { count := 0, entries := fun _ => Evt.zero }
  ring := []
  ringSem := false
  flush := .idle
  notifier := .idle
  dispatcher := .waiting
  accepted := []
  dispatched := []

variable (cfg : Config)

/-! ## Sections -/

/-- The first half of `batch_do_flush_locked`: the batch copied into the scratch item. -/
def State.copyBatch (s : State) : Item where
  count := s.batch.length
  entries := fun i =>
    match s.batch[i]? with
    | some e => e.relocate (cfg.payloadAddr (.item i) - cfg.payloadAddr (.batch i))
    | none => s.scratch.entries i

/-- `bb_queue_push` of the scratch item: the ring rejects a new item when it is full. -/
def State.pushScratch (s : State) : Bool × State :=
  if s.ring.length < cfg.ringDepth then (true, { s with ring := s.ring ++ [s.scratch] })
  else (false, s)

/-- The second half of `batch_do_flush_locked`. -/
def State.flushResult (s : State) (ok : Bool) : State :=
  if ok then { s with batch := [], ringSem := true } else s

/-- The append of `batch_append_locked`, once there is room in the batch. -/
def State.append (s : State) (e : Evt) : State :=
  let i := s.batch.length
  { s with
    batch := s.batch ++ [e.relocate (cfg.payloadAddr (.batch i) - cfg.payloadAddr .tmp)]
    accepted := s.accepted ++ [e.view (cfg.payloadAddr .tmp)] }

/--
The loop of `internal_notifier` under the lock, up to its end or to the point where
`batch_append_locked` finds the batch full and flushes it.
-/
def State.notifyLoop : State → List Evt → State
  | s, [] => { s with notifier := .idle }
  | s, e :: rest =>
    if cfg.batchMax ≤ s.batch.length then
      { s with scratch := s.copyBatch cfg, notifier := .copied e rest }
    else State.notifyLoop (s.append cfg e) rest

/-- What a scheduler can choose. -/
inductive Action where
  /-- The flush work starts. -/
  | flushStart
  | flushPush
  | flushResume
  /-- A burst of results arrives. -/
  | notify (results : List Evt)
  | notifyPush
  | notifyResume
  /-- The dispatch task takes `s_ring_sem`. -/
  | dispatchWake
  | dispatchLock
  | dispatchNext

/-- One step; a step that is not the task's next one does nothing. -/
def State.step (s : State) : Action → State
  | .flushStart =>
    match s.flush with
    | .idle =>
      if s.batch = [] then s else { s with scratch := s.copyBatch cfg, flush := .copied }
    | _ => s
  | .flushPush =>
    match s.flush with
    | .copied =>
      let pushed := s.pushScratch cfg
      { pushed.2 with flush := .pushed pushed.1 }
    | _ => s
  | .flushResume =>
    match s.flush with
    | .pushed ok => { s.flushResult ok with flush := .idle }
    | _ => s
  | .notify results =>
    match s.notifier with
    | .idle => s.notifyLoop cfg results
    | _ => s
  | .notifyPush =>
    match s.notifier with
    | .copied e rest =>
      let pushed := s.pushScratch cfg
      { pushed.2 with notifier := .pushed pushed.1 e rest }
    | _ => s
  | .notifyResume =>
    match s.notifier with
    | .pushed ok e rest =>
      -- a failed flush drops the event and goes on with the next result
      if ok then ((s.flushResult ok).append cfg e).notifyLoop cfg rest
      else (s.flushResult ok).notifyLoop cfg rest
    | _ => s
  | .dispatchWake =>
    match s.dispatcher with
    | .waiting => if s.ringSem then { s with ringSem := false, dispatcher := .draining } else s
    | _ => s
  | .dispatchLock =>
    match s.dispatcher with
    | .draining =>
      match s.ring with
      | [] => { s with dispatcher := .waiting }
      | oldest :: rest =>
        { s with scratch := oldest, ring := rest, dispatcher := .dispatching 0 }
    | _ => s
  | .dispatchNext =>
    match s.dispatcher with
    | .dispatching i =>
      if i < s.scratch.count then
        { s with
          dispatched :=
            s.dispatched ++ [(s.scratch.entries i).view (cfg.payloadAddr (.item i))]
          dispatcher := .dispatching (i + 1) }
      else { s with dispatcher := .draining }
    | _ => s

/-! ## Where the events are -/

/-- The peers in an item, from entry `i` on. -/
def Item.peersFrom (it : Item) (i : Nat) : List Peer :=
  (List.range' i (it.count - i)).map fun k => (it.entries k).view (cfg.payloadAddr (.item k))

/-- The peers stored in the batch buffer. -/
def State.batchPeers (s : State) : List Peer :=
  s.batch.mapIdx fun i e => e.view (cfg.payloadAddr (.batch i))

/-- The flush work has pushed the batch and has not yet cleared it. -/
def FlushPc.consumed : FlushPc → Bool
  | .pushed true => true
  | _ => false

/-- The notifier's flush has pushed the batch and has not yet cleared it. -/
def NotifierPc.consumed : NotifierPc → Bool
  | .pushed true _ _ => true
  | _ => false

/-- A flush has pushed the batch and has not yet cleared it. -/
def State.consumed (s : State) : Bool :=
  s.flush.consumed || s.notifier.consumed

/-- The pending batch: once pushed, what the buffer holds no longer counts. -/
def State.pending (s : State) : List Peer :=
  if s.consumed then [] else s.batchPeers cfg

/-- The entries of the item being dispatched that were not passed on yet. -/
def State.remaining (s : State) : List Peer :=
  match s.dispatcher with
  | .dispatching i => s.scratch.peersFrom cfg i
  | _ => []

/-- The peers in the batch ring. -/
def State.queued (s : State) : List Peer :=
  s.ring.flatMap fun it => it.peersFrom cfg 0

/--
Every accepted event is in exactly one place, and the places read oldest first give the
order of arrival: passed on, in the item being dispatched, in the ring, pending.
-/
def State.Conserved (s : State) : Prop :=
  s.dispatched ++ s.remaining cfg ++ s.queued cfg ++ s.pending cfg = s.accepted

instance (s : State) : Decidable (s.Conserved cfg) :=
  inferInstanceAs (Decidable (_ = _))

end Mdns
end Breadboard
