import Breadboard.Foundations.Runs
import Breadboard.Foundations.Worklists
import Breadboard.Lifecycle.Authority
import Mathlib.Logic.Function.Basic

/-!
# bb_lifecycle - observers and the async drain task

A call commits its change under the lock and hands its event out after the lock has
been released: to the inline observers one by one, then once to the async queue, then
to the emit sink.  The drain task takes an event off the queue and passes it to the
async observers one by one.

A step is one lock section, one observer call or one queue operation; calls of any
number of tasks and the drain task interleave freely.  A call in progress is the list
of the deliveries it still has to make.

Main results:

- Theorem `outcome_call`: all that the lock section of a call can do.
- Theorem `notifyAll_forSlot`: every observer gets its event from a commit once.
-/

namespace Breadboard
namespace Lifecycle

open Foundations

/-! ## What is said about a service -/

/-- The part of an event that describes the service after the change. -/
structure View where
  svc : Int
  version : UInt32
  state : State
  inhibits : UInt32
  deriving Repr, DecidableEq

def Event.view (evt : Event) : View where
  svc := evt.svc
  version := evt.version
  state := evt.newState
  inhibits := evt.inhibits

/-- What is the case for a service; `inhibits` is its low word. -/
def Service.view (svc : Int) (sv : Service) : View where
  svc := svc
  version := sv.version
  state := computeState sv.started sv.inhibits
  inhibits := sv.inhibits.headD 0

/-- The transition a call made effective: it counted its service's version up. -/
def transition (before after : Authority) (c : Call) : List View :=
  match c.svc? with
  | none => []
  | some svc =>
    if before.version svc = after.version svc then []
    else (after.service? svc).toList.map (Service.view svc)

/-! ## The machine -/

/-- The async slots, from slot `i` on. -/
def asyncFrom : Nat → List Bool → List Nat
  | _, [] => []
  | i, async :: rest => if async then i :: asyncFrom (i + 1) rest else asyncFrom (i + 1) rest

/--
The tables, the calls in progress, the queue and the drain task.  The transitions and the
refused events are not part of the program.
-/
structure Notifier where
  auth : Authority
  /-- The deliveries that are left of each call. -/
  calls : List (List Delivery)
  /-- `s_async_q`. -/
  queue : List Event
  /-- The event the drain task passes on, and the slots that have not got it yet. -/
  draining : Option (Event × List Nat)
  /-- The dropped count of the queue. -/
  dropped : Nat
  received : Nat → List Event
  transitions : List View
  lost : List Event

/-- No service, and the observers registered. -/
def Notifier.init (observers : List Bool) (emitBound : Bool) : Notifier where
  auth := .init observers emitBound
  calls := []
  queue := []
  draining := none
  dropped := 0
  received := fun _ => []
  transitions := []
  lost := []

inductive Action where
  /-- The lock section of a call. -/
  | call (c : Call)
  /-- Call `k` makes its next delivery. -/
  | deliver (k : Nat)
  /-- `bb_bqueue_receive` of the drain task. -/
  | receive
  /-- The drain task calls its next observer, or is done with the event. -/
  | dispatch
  deriving Repr, DecidableEq

/-- An observer is called. -/
def Notifier.pass (s : Notifier) (slot : Nat) (evt : Event) : Notifier :=
  { s with received := Function.update s.received slot (s.received slot ++ [evt]) }

/--
`bb_lifecycle_priv_async_notify`.  A queue of capacity 1 is a mailbox, on which
`bb_bqueue_send` answers `BB_ERR_INVALID_STATE` and counts nothing.
-/
def Notifier.asyncNotify (depth : Nat) (s : Notifier) (evt : Event) : Notifier :=
  if depth = 1 then { s with lost := s.lost ++ [evt] }
  else if s.queue.length < depth then { s with queue := s.queue ++ [evt] }
  else { s with dropped := s.dropped + 1, lost := s.lost ++ [evt] }

def Notifier.handOver (depth : Nat) (s : Notifier) : Delivery → Notifier
  | .observer slot evt => s.pass slot evt
  | .asyncNotify evt => s.asyncNotify depth evt
  | .emit _ => s

variable (cfg : LifecycleCfg) (depth : Nat)

def step (s : Notifier) : Action → Notifier
  | .call c =>
    let out := s.auth.call cfg c
    { s with
      auth := out.2
      calls := s.calls ++ [out.1.deliveries]
      transitions := s.transitions ++ transition s.auth out.2 c }
  | .deliver k =>
    match takeHead s.calls k with
    | none => s
    | some (d, calls) => { s with calls := calls }.handOver depth d
  | .receive =>
    match s.draining, s.queue with
    | none, evt :: rest =>
      { s with queue := rest, draining := some (evt, asyncFrom 0 s.auth.observers) }
    | _, _ => s
  | .dispatch =>
    match s.draining with
    | none => s
    | some (_, []) => { s with draining := none }
    | some (evt, slot :: rest) => { s with draining := some (evt, rest) }.pass slot evt

/-- No mutator in progress, nothing queued, and the drain task waits for the next event. -/
structure Quiescent (s : Notifier) : Prop where
  calls : s.calls.flatten = []
  queue : s.queue = []
  draining : s.draining = none

/-! ## Outcomes -/

/-- The event of a commit. -/
def commitEvent (svc : Int) (sv : Service) (oldEff : State) (reason : UInt8) : Event where
  svc := svc
  inhibits := sv.inhibits.headD 0
  version := sv.version + 1
  oldState := oldEff
  newState := computeState sv.started sv.inhibits
  reason := reason

/-- All that the lock section of a call can do. -/
inductive Outcome (s : Authority) (c : Call) : Reply × Authority → Prop where
  | silent (rc : BbErr) (reasons : List Bytes) :
      Outcome s c (.silent rc, { s with reasons := reasons })
  | registered (sv : Service) (hcall : c.svc? = none) :
      Outcome s c (.silent .ok, { s with services := s.services ++ [sv] })
  | committed (svc : Int) (sv sv' : Service) (reasons : List Bytes) (oldEff : State) (bit : UInt8)
      (hsv : s.service? svc = some sv) (hcall : c.svc? = some svc)
      (hversion : sv'.version = sv.version) :
      Outcome s c (({ s with reasons := reasons } : Authority).commitAndSnapshot svc sv' oldEff bit)

theorem outcome_call (s : Authority) (c : Call) : Outcome s c (s.call cfg c) := by
  cases c with
  | register name =>
    unfold Authority.call Authority.register
    dsimp only
    split
    · exact .silent .conflict s.reasons
    split
    · exact .silent .noSpace s.reasons
    · exact .registered _ rfl
  | start svc =>
    unfold Authority.call Authority.start
    dsimp only
    split
    next => exact .silent .notFound s.reasons
    next sv hsv =>
      split
      · exact .silent .ok s.reasons
      · exact .committed svc sv _ s.reasons _ _ hsv rfl rfl
  | stop svc =>
    unfold Authority.call Authority.stop
    dsimp only
    split
    next => exact .silent .notFound s.reasons
    next sv hsv =>
      split
      · exact .silent .ok s.reasons
      · exact .committed svc sv _ s.reasons _ _ hsv rfl rfl
  | pauseAssert svc reason =>
    unfold Authority.call Authority.pauseAssert
    dsimp only
    split
    next => exact .silent .notFound s.reasons
    next sv hsv =>
      split
      next => exact .silent .noSpace s.reasons
      next bit reasons hintern =>
        split
        · exact .silent .ok reasons
        · exact .committed svc sv _ reasons _ bit hsv rfl rfl
  | pauseClear svc reason =>
    unfold Authority.call Authority.pauseClear
    dsimp only
    split
    next => exact .silent .notFound s.reasons
    next sv hsv =>
      split
      next => exact .silent .ok s.reasons
      next bit hlook =>
        split
        · exact .silent .ok s.reasons
        · exact .committed svc sv _ s.reasons _ bit hsv rfl rfl

/-! ## Who gets what -/

/-- What a delivery means for an observer slot: at once, or by way of the queue. -/
def Delivery.forSlot (observers : List Bool) (i : Nat) : Delivery → Option Event
  | .observer slot evt => if slot = i then some evt else none
  | .asyncNotify evt => if observers[i]? = some true then some evt else none
  | .emit _ => none

theorem getElem?_cons_sub {observers : List Bool} {async : Bool} {k i : Nat} (h : k < i) :
    (async :: observers)[i - k]? = observers[i - (k + 1)]? := by
  have hsub : i - k = i - (k + 1) + 1 := by omega
  rw [hsub, List.getElem?_cons_succ]

theorem notifyFrom_forSlot (observers all : List Bool) (evt : Event) (k i : Nat) :
    (Authority.notifyFrom evt k observers).filterMap (Delivery.forSlot all i) =
      if k ≤ i ∧ observers[i - k]? = some false then [evt] else [] := by
  induction observers generalizing k with
  | nil => simp [Authority.notifyFrom]
  | cons async rest ih =>
    rcases Nat.lt_trichotomy i k with hlt | rfl | hgt
    · cases async <;>
        simp [Authority.notifyFrom, Delivery.forSlot, ih, Nat.not_le.mpr hlt,
          Nat.not_le.mpr (Nat.lt_succ_of_lt hlt), Nat.ne_of_gt hlt]
    · cases async <;> simp [Authority.notifyFrom, Delivery.forSlot, ih]
    · have hle : k ≤ i := Nat.le_of_lt hgt
      cases async <;>
        simp [Authority.notifyFrom, Delivery.forSlot, ih,
          getElem?_cons_sub hgt, Nat.succ_le_of_lt hgt, hle, Nat.ne_of_lt hgt]

theorem mem_asyncFrom (observers : List Bool) (k i : Nat) :
    i ∈ asyncFrom k observers ↔ k ≤ i ∧ observers[i - k]? = some true := by
  induction observers generalizing k with
  | nil => simp [asyncFrom]
  | cons async rest ih =>
    rcases Nat.lt_trichotomy i k with hlt | rfl | hgt
    · cases async <;>
        simp [asyncFrom, ih, Nat.not_le.mpr hlt, Nat.not_le.mpr (Nat.lt_succ_of_lt hlt),
          Nat.ne_of_lt hlt]
    · cases async <;> simp [asyncFrom, ih]
    · have hle : k ≤ i := Nat.le_of_lt hgt
      cases async <;>
        simp [asyncFrom, ih, getElem?_cons_sub hgt, Nat.succ_le_of_lt hgt, hle, Nat.ne_of_gt hgt]

theorem asyncFrom_nodup (observers : List Bool) (k : Nat) : (asyncFrom k observers).Nodup := by
  induction observers generalizing k with
  | nil => exact List.nodup_nil
  | cons async rest ih =>
    cases async with
    | false => simpa [asyncFrom] using ih (k + 1)
    | true =>
      have hfresh : k ∉ asyncFrom (k + 1) rest := by
        simp [mem_asyncFrom]
      simpa [asyncFrom] using ⟨hfresh, ih (k + 1)⟩

/-- Every observer gets the event of a commit once, from the call or by way of the queue. -/
theorem notifyAll_forSlot (s : Authority) (evt : Event) {i : Nat} (hi : i < s.observers.length) :
    (s.notifyAll evt).filterMap (Delivery.forSlot s.observers i) = [evt] := by
  have hget : s.observers[i]? = some s.observers[i] := List.getElem?_eq_getElem hi
  have hinline := notifyFrom_forSlot s.observers s.observers evt 0 i
  rw [Authority.notifyAll, List.filterMap_append, List.filterMap_append, hinline]
  cases hasync : s.observers[i] with
  | false =>
    rw [hasync] at hget
    split <;> split <;> simp_all [Delivery.forSlot]
  | true =>
    rw [hasync] at hget
    have hany : s.observers.any id = true :=
      List.any_eq_true.mpr ⟨true, List.mem_of_getElem? hget, rfl⟩
    rw [if_neg (by simp [hget]), if_pos hany]
    split <;> simp [Delivery.forSlot, hget]

/-- Only inline observers are called by the call itself. -/
theorem notifyAll_inline {s : Authority} {evt e : Event} {slot : Nat}
    (h : Delivery.observer slot e ∈ s.notifyAll evt) : s.observers[slot]? = some false := by
  rcases List.mem_append.mp h with hfirst | hemit
  · rcases List.mem_append.mp hfirst with hinline | hasync
    · have hmem : e ∈ (Authority.notifyFrom evt 0 s.observers).filterMap
          (Delivery.forSlot s.observers slot) :=
        List.mem_filterMap.mpr ⟨_, hinline, by simp [Delivery.forSlot]⟩
      rw [notifyFrom_forSlot] at hmem
      split at hmem
      next hslot => exact hslot.2
      next => cases hmem
    · split at hasync <;> simp at hasync
  · split at hemit <;> simp at hemit

end Lifecycle
end Breadboard
