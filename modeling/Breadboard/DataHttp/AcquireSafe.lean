import Mathlib.Data.List.Nodup
import Breadboard.Foundations.Holdings
import Breadboard.Foundations.Runs
import Breadboard.DataHttp.AcquireSteps

/-!
# bb_data_http - what acquire and release conserve

A reservation, a pool block and a queue each have at most one holder: a call that
is under way, or a client in use.  The reservation and the blocking budget are
taken in one lock section.  A block is taken by a test and a later store, and a
release frees a block before it clears the pointer to it; as long as no acquire
takes a block, or is handed a queue, that is taken or still referred to, the flags
account for every holding and no two clients share anything.

Main results:

- Theorem `conserved_if_undisturbed`: conservation over every such run, and that
  a failed acquire leaves no trace.
- Theorem `poll_block_shared`: a run in which two acquires take one block.
-/

namespace Breadboard
namespace DataHttp
namespace AcquireSteps

open Foundations

variable {ι : Type} [DecidableEq ι]

/-! ## What a call holds -/

namespace Phase

/-- The slot an acquire has reserved. -/
def slot : Phase → Option Nat
  | .pollScan idx _ _ => some idx
  | .pollTake idx _ _ => some idx
  | .pushScan idx _ _ _ => some idx
  | .pushTake idx _ _ _ => some idx
  | .pushFailed idx _ => some idx
  | .setPoll idx _ _ => some idx
  | .setPush idx _ _ => some idx
  | .create idx _ _ => some idx
  | .store idx _ _ _ => some idx
  | .publish idx _ _ _ => some idx
  | .unwindPoll idx _ _ _ => some idx
  | .unwindPush idx _ _ => some idx
  | .clearPoll idx _ => some idx
  | .clearPush idx _ => some idx
  | .rollback idx _ => some idx
  | _ => none

/-- The slot a release is taking apart. -/
def releasing : Phase → Option Nat
  | .relDestroy idx => some idx
  | .relClearOutbound idx => some idx
  | .relFreePoll idx => some idx
  | .relClearPoll idx => some idx
  | .relFreePush idx => some idx
  | .relClearPush idx => some idx
  | .relInUse idx => some idx
  | _ => none

/-- The poll block an acquire has taken. -/
def heldPoll : Phase → Option Nat
  | .pushScan _ _ poll _ => poll
  | .pushTake _ _ poll _ => poll
  | .pushFailed _ poll => poll
  | .setPoll _ poll _ => poll
  | .setPush _ poll _ => poll
  | .create _ poll _ => poll
  | .store _ poll _ _ => poll
  | .publish _ poll _ _ => poll
  | .unwindPoll _ poll _ _ => poll
  | _ => none

/-- The push block an acquire has taken. -/
def heldPush : Phase → Option Nat
  | .setPoll _ _ push => push
  | .setPush _ _ push => push
  | .create _ _ push => push
  | .store _ _ push _ => push
  | .publish _ _ push _ => push
  | .unwindPoll _ _ push _ => push
  | .unwindPush _ push _ => push
  | _ => none

/-- The queue an acquire was handed. -/
def heldQueue : Phase → Option Nat
  | .store _ _ _ queue => some queue
  | .publish _ _ _ queue => some queue
  | _ => none

/-- What the slot of a call holds at each of its phases. -/
def Ok (slots : Nat → Slot) : Phase → Prop
  | .setPush idx poll _ => (slots idx).poll = poll
  | .create idx poll push => (slots idx).poll = poll ∧ (slots idx).push = push
  | .store idx poll push _ => (slots idx).poll = poll ∧ (slots idx).push = push
  | .publish idx poll push queue =>
    (slots idx).poll = poll ∧ (slots idx).push = push ∧ (slots idx).outbound = some queue
  | .unwindPoll idx poll push _ => (slots idx).poll = poll ∧ (slots idx).push = push
  | .unwindPush idx push _ => (slots idx).push = push
  | .relDestroy idx =>
    (slots idx).outboundStale = false ∧ (slots idx).pollStale = false ∧
      (slots idx).pushStale = false
  | .relClearOutbound idx =>
    (slots idx).outboundStale = true ∧ (slots idx).pollStale = false ∧
      (slots idx).pushStale = false
  | .relFreePoll idx =>
    (slots idx).outbound = none ∧ (slots idx).outboundStale = false ∧
      (slots idx).pollStale = false ∧ (slots idx).pushStale = false
  | .relClearPoll idx =>
    (slots idx).outbound = none ∧ (slots idx).outboundStale = false ∧
      (slots idx).pollStale = true ∧ (slots idx).pushStale = false
  | .relFreePush idx =>
    (slots idx).outbound = none ∧ (slots idx).outboundStale = false ∧
      (slots idx).poll = none ∧ (slots idx).pollStale = false ∧ (slots idx).pushStale = false
  | .relClearPush idx =>
    (slots idx).outbound = none ∧ (slots idx).outboundStale = false ∧
      (slots idx).poll = none ∧ (slots idx).pollStale = false ∧ (slots idx).pushStale = true
  | .relInUse idx =>
    (slots idx).outbound = none ∧ (slots idx).outboundStale = false ∧
      (slots idx).poll = none ∧ (slots idx).pollStale = false ∧
      (slots idx).push = none ∧ (slots idx).pushStale = false
  | _ => True

example (slots : Nat → Slot) (idx : Nat) (err : BbErr) : slot (.rollback idx err) = some idx ∧
    releasing (.rollback idx err) = none ∧ heldPoll (.rollback idx err) = none ∧
    heldPush (.rollback idx err) = none ∧ heldQueue (.rollback idx err) = none ∧
    Ok slots (.rollback idx err) := by
  simp [slot, releasing, heldPoll, heldPush, heldQueue, Ok]

/-- The phase of a call depends on its own slot only. -/
theorem Ok.frame {slots slots' : Nat → Slot} {p : Phase} (h : p.Ok slots)
    (hsame : ∀ i, p.slot = some i ∨ p.releasing = some i → slots' i = slots i) : p.Ok slots' := by
  cases p <;> first | trivial | simpa only [Ok, hsame _ (.inl rfl)] using h |
    simpa only [Ok, hsame _ (.inr rfl)] using h

end Phase

namespace Slot

/-- The poll reference of a slot. -/
def pollCell (sl : Slot) : Cell := ⟨sl.inUse, sl.poll, sl.pollStale⟩

/-- The push reference of a slot. -/
def pushCell (sl : Slot) : Cell := ⟨sl.inUse, sl.push, sl.pushStale⟩

/-- The queue reference of a slot. -/
def queueCell (sl : Slot) : Cell := ⟨sl.inUse, sl.outbound, sl.outboundStale⟩

/-- No cell: a reservation refers to nothing. -/
def noCell (_ : Slot) : Cell := ⟨false, none, false⟩

/-- Nothing is stale outside a release. -/
def Settled (sl : Slot) : Prop :=
  sl.releasing = false → sl.pollStale = false ∧ sl.pushStale = false ∧ sl.outboundStale = false

end Slot

/-! ## The condition and the conclusion -/

/--
What an acquire takes is neither taken nor referred to by a client still in use: no
other acquire has stored the flag since it was tested, and no release stands between
freeing the target and clearing the pointer to it.
-/
def Undisturbed (s : State ι) : Act ι → Prop
  | .step t err queue =>
    match s.phase t with
    | .pollTake _ _ i =>
      s.pollInUse i = false ∧ ∀ j, (s.slots j).inUse = true → (s.slots j).poll ≠ some i
    | .pushTake _ _ _ i =>
      s.pushInUse i = false ∧ ∀ j, (s.slots j).inUse = true → (s.slots j).push ≠ some i
    | .create _ _ _ =>
      err = .ok → s.queueLive queue = false →
        ∀ j, (s.slots j).inUse = true → (s.slots j).outbound ≠ some queue
    | _ => True
  | _ => True

/-- The budget, no sharing, and flags that account for every holding. -/
structure Conserved (cfg : Config) (s : State ι) : Prop where
  budget : s.blockingCount cfg.clientSlots ≤ cfg.maxBlockingClients
  slot_unshared : ∀ t u i, (s.phase t).slot = some i → (s.phase u).slot = some i → t = u
  slot_free : ∀ t i, (s.phase t).slot = some i → (s.slots i).inUse = false
  poll_unshared : ∀ i j p, (s.slots i).inUse = true → (s.slots j).inUse = true →
    (s.slots i).poll = some p → (s.slots j).poll = some p → i = j
  push_unshared : ∀ i j p, (s.slots i).inUse = true → (s.slots j).inUse = true →
    (s.slots i).push = some p → (s.slots j).push = some p → i = j
  queue_unshared : ∀ i j q, (s.slots i).inUse = true → (s.slots j).inUse = true →
    (s.slots i).outbound = some q → (s.slots j).outbound = some q → i = j
  reserved_iff : ∀ i, (s.slots i).reserved = true ↔ ∃ t, (s.phase t).slot = some i
  pollInUse_iff : ∀ p, s.pollInUse p = true ↔ (∃ t, (s.phase t).heldPoll = some p) ∨
    ∃ i, (s.slots i).inUse = true ∧ (s.slots i).pollStale = false ∧ (s.slots i).poll = some p
  pushInUse_iff : ∀ p, s.pushInUse p = true ↔ (∃ t, (s.phase t).heldPush = some p) ∨
    ∃ i, (s.slots i).inUse = true ∧ (s.slots i).pushStale = false ∧ (s.slots i).push = some p
  queueLive_iff : ∀ q, s.queueLive q = true ↔ (∃ t, (s.phase t).heldQueue = some q) ∨
    ∃ i, (s.slots i).inUse = true ∧ (s.slots i).outboundStale = false ∧
      (s.slots i).outbound = some q

/-- Slots, reservations and pools are occupied alike. -/
structure SameOccupancy (s s' : State ι) : Prop where
  inUse_eq : ∀ i, (s'.slots i).inUse = (s.slots i).inUse
  reserved_eq : ∀ i, (s'.slots i).reserved = (s.slots i).reserved
  poll_eq : s'.pollInUse = s.pollInUse
  push_eq : s'.pushInUse = s.pushInUse
  queue_eq : s'.queueLive = s.queueLive

/-! ## The invariant -/

/-- Every flag accounts for its holdings, and every call finds its slot as it left it. -/
structure Inv (cfg : Config) (s : State ι) : Prop where
  budget : s.blockingCount cfg.clientSlots ≤ cfg.maxBlockingClients
  reserved : Accounted (fun i => (s.slots i).reserved) (fun i => (s.slots i).noCell)
    (fun t => (s.phase t).slot)
  releasing : Accounted (fun i => (s.slots i).releasing) (fun i => (s.slots i).noCell)
    (fun t => (s.phase t).releasing)
  poll : Accounted s.pollInUse (fun i => (s.slots i).pollCell) (fun t => (s.phase t).heldPoll)
  push : Accounted s.pushInUse (fun i => (s.slots i).pushCell) (fun t => (s.phase t).heldPush)
  queue : Accounted s.queueLive (fun i => (s.slots i).queueCell) (fun t => (s.phase t).heldQueue)
  reserved_free : ∀ i, (s.slots i).reserved = true → (s.slots i).inUse = false
  releasing_used : ∀ i, (s.slots i).releasing = true → (s.slots i).inUse = true
  settled : ∀ i, (s.slots i).Settled
  phase_ok : ∀ t, (s.phase t).Ok s.slots

omit [DecidableEq ι] in
theorem inv_init (cfg : Config) : Inv cfg (State.init : State ι) where
  budget := by
    have hzero : (State.init : State ι).blockingCount cfg.clientSlots = 0 :=
      List.countP_eq_zero.mpr (by simp [State.blocking, State.init, Slot.zero])
    omega
  reserved := Accounted.init
  releasing := Accounted.init
  poll := Accounted.init
  push := Accounted.init
  queue := Accounted.init
  reserved_free := by simp [State.init, Slot.zero]
  releasing_used := by simp [State.init, Slot.zero]
  settled := by simp [State.init, Slot.zero, Slot.Settled]
  phase_ok := by simp [State.init, Phase.Ok]

namespace Inv

variable {cfg : Config} {s : State ι} {t u : ι} {i : Nat}

omit [DecidableEq ι]

theorem reserved_of_slot (hinv : Inv cfg s) (h : (s.phase t).slot = some i) :
    (s.slots i).reserved = true :=
  (hinv.reserved.used_iff i).mpr (.inl ⟨t, h⟩)

theorem inUse_of_slot (hinv : Inv cfg s) (h : (s.phase t).slot = some i) :
    (s.slots i).inUse = false :=
  hinv.reserved_free i (hinv.reserved_of_slot h)

theorem releasing_of_releasing (hinv : Inv cfg s) (h : (s.phase t).releasing = some i) :
    (s.slots i).releasing = true :=
  (hinv.releasing.used_iff i).mpr (.inl ⟨t, h⟩)

theorem inUse_of_releasing (hinv : Inv cfg s) (h : (s.phase t).releasing = some i) :
    (s.slots i).inUse = true :=
  hinv.releasing_used i (hinv.releasing_of_releasing h)

/-- A slot that a call works on is no other call's. -/
theorem own (hinv : Inv cfg s) (ht : (s.phase t).slot = some i ∨ (s.phase t).releasing = some i)
    (hu : (s.phase u).slot = some i ∨ (s.phase u).releasing = some i) : t = u := by
  rcases ht with ht | ht <;> rcases hu with hu | hu
  · exact hinv.reserved.worker_inj t u i ht hu
  · have := hinv.inUse_of_slot ht
    rw [hinv.inUse_of_releasing hu] at this
    cases this
  · have := hinv.inUse_of_slot hu
    rw [hinv.inUse_of_releasing ht] at this
    cases this
  · exact hinv.releasing.worker_inj t u i ht hu

theorem conserved (hinv : Inv cfg s) : Conserved cfg s where
  budget := hinv.budget
  slot_unshared := hinv.reserved.worker_inj
  slot_free := fun _ _ h => hinv.inUse_of_slot h
  poll_unshared := hinv.poll.cell_inj
  push_unshared := hinv.push.cell_inj
  queue_unshared := hinv.queue.cell_inj
  reserved_iff := fun i => by
    rw [show (s.slots i).reserved = true ↔ _ from hinv.reserved.used_iff i]
    simp [Slot.noCell]
  pollInUse_iff := hinv.poll.used_iff
  pushInUse_iff := hinv.push.used_iff
  queueLive_iff := hinv.queue.used_iff

end Inv

/-! ## One task's step -/

section Moves

variable {cfg : Config} {s s' : State ι} {t : ι} {idx : Nat} {sl : Slot} {p : Phase}

omit [DecidableEq ι] in
theorem blockingCount_mono (h : ∀ i, s'.blocking i = true → s.blocking i = true) (n : Nat) :
    s'.blockingCount n ≤ s.blockingCount n :=
  List.countP_mono_left fun i _ => h i

omit [DecidableEq ι] in
/-- One more blocking slot raises the count by one at most. -/
theorem blockingCount_le_succ (h : ∀ i, i ≠ idx → s'.blocking i = s.blocking i) (n : Nat) :
    s'.blockingCount n ≤ s.blockingCount n + 1 := by
  have hsplit (l : List Nat) : l.countP s'.blocking ≤ l.countP s.blocking + l.count idx := by
    induction l with
    | nil => exact Nat.le_refl _
    | cons i l ih =>
      rw [List.countP_cons, List.countP_cons, List.count_cons]
      by_cases hi : i = idx
      · simp only [hi, beq_self_eq_true, if_true]
        split <;> split <;> omega
      · rw [h i hi]
        simp only [beq_iff_eq, hi, if_false]
        omega
  have honce : (List.range n).count idx ≤ 1 := List.nodup_iff_count_le_one.mp List.nodup_range idx
  have := hsplit (List.range n)
  unfold State.blockingCount
  omega

/-- The accounts after a step that writes one slot and moves one task. -/
structure Accounts (s s' : State ι) (t : ι) (idx : Nat) (sl : Slot) (p : Phase) : Prop where
  reserved : Accounted (Function.update (fun i => (s.slots i).reserved) idx sl.reserved)
    (fun i => (s.slots i).noCell) (Function.update (fun v => (s.phase v).slot) t p.slot)
  releasing : Accounted (Function.update (fun i => (s.slots i).releasing) idx sl.releasing)
    (fun i => (s.slots i).noCell) (Function.update (fun v => (s.phase v).releasing) t p.releasing)
  poll : Accounted s'.pollInUse (Function.update (fun i => (s.slots i).pollCell) idx sl.pollCell)
    (Function.update (fun v => (s.phase v).heldPoll) t p.heldPoll)
  push : Accounted s'.pushInUse (Function.update (fun i => (s.slots i).pushCell) idx sl.pushCell)
    (Function.update (fun v => (s.phase v).heldPush) t p.heldPush)
  queue : Accounted s'.queueLive (Function.update (fun i => (s.slots i).queueCell) idx sl.queueCell)
    (Function.update (fun v => (s.phase v).heldQueue) t p.heldQueue)

/-- A step of the task that works on the slot, or that claims it, keeps the invariant. -/
theorem Inv.next (hinv : Inv cfg s) (hslots : s'.slots = Function.update s.slots idx sl)
    (hphase : s'.phase = Function.update s.phase t p)
    (hothers : ∀ u, u ≠ t → ∀ i, (s.phase u).slot = some i ∨ (s.phase u).releasing = some i →
      i ≠ idx)
    (hbudget : s'.blockingCount cfg.clientSlots ≤ cfg.maxBlockingClients)
    (hacc : Accounts s s' t idx sl p) (hfree : sl.reserved = true → sl.inUse = false)
    (hused : sl.releasing = true → sl.inUse = true) (hsettled : sl.Settled)
    (hok : p.Ok s'.slots) : Inv cfg s' := by
  have hcells {β : Type} (f : Slot → β) :
      (fun i => f (s'.slots i)) = Function.update (fun i => f (s.slots i)) idx (f sl) := by
    rw [hslots]
    exact funext fun i => Function.apply_update (fun _ => f) s.slots idx sl i
  have hheld (f : Phase → Option Nat) :
      (fun v => f (s'.phase v)) = Function.update (fun v => f (s.phase v)) t (f p) := by
    rw [hphase]
    exact funext fun v => Function.apply_update (fun _ => f) s.phase t p v
  have hslot {Q : Slot → Prop} (hnew : Q sl) (hold : ∀ i, Q (s.slots i)) (i : Nat) :
      Q (s'.slots i) := by
    rw [hslots]
    by_cases hi : i = idx
    · rw [hi, Function.update_self]
      exact hnew
    · rw [Function.update_of_ne hi]
      exact hold i
  refine
    { budget := hbudget
      reserved := ?_
      releasing := ?_
      poll := ?_
      push := ?_
      queue := ?_
      reserved_free := hslot (Q := fun sl => sl.reserved = true → sl.inUse = false) hfree
        hinv.reserved_free
      releasing_used := hslot (Q := fun sl => sl.releasing = true → sl.inUse = true) hused
        hinv.releasing_used
      settled := hslot (Q := Slot.Settled) hsettled hinv.settled
      phase_ok := fun u => ?_ }
  · rw [hcells Slot.reserved, hcells Slot.noCell, hheld Phase.slot]
    exact Accounted.sameCell hacc.reserved rfl
  · rw [hcells Slot.releasing, hcells Slot.noCell, hheld Phase.releasing]
    exact Accounted.sameCell hacc.releasing rfl
  · rw [hcells Slot.pollCell, hheld Phase.heldPoll]
    exact hacc.poll
  · rw [hcells Slot.pushCell, hheld Phase.heldPush]
    exact hacc.push
  · rw [hcells Slot.queueCell, hheld Phase.heldQueue]
    exact hacc.queue
  · by_cases hu : u = t
    · rw [hu, hphase, Function.update_self]
      exact hok
    · rw [hphase, Function.update_of_ne hu]
      refine (hinv.phase_ok u).frame fun i hi => ?_
      rw [hslots, Function.update_of_ne (hothers u hu i hi)]

/-- A task moves on with what it holds. -/
theorem Inv.move (hinv : Inv cfg s) (hslot : p.slot = (s.phase t).slot)
    (hreleasing : p.releasing = (s.phase t).releasing) (hpoll : p.heldPoll = (s.phase t).heldPoll)
    (hpush : p.heldPush = (s.phase t).heldPush) (hqueue : p.heldQueue = (s.phase t).heldQueue)
    (hok : p.Ok s.slots) : Inv cfg (s.goto t p) := by
  have hheld (f : Phase → Option Nat) (hf : f p = f (s.phase t)) :
      (fun v => f ((s.goto t p).phase v)) = fun v => f (s.phase v) := by
    funext v
    show f (Function.update s.phase t p v) = _
    by_cases hv : v = t
    · rw [hv, Function.update_self, hf]
    · rw [Function.update_of_ne hv]
  refine
    { budget := hinv.budget
      reserved := ?_
      releasing := ?_
      poll := ?_
      push := ?_
      queue := ?_
      reserved_free := hinv.reserved_free
      releasing_used := hinv.releasing_used
      settled := hinv.settled
      phase_ok := fun u => ?_ }
  · rw [hheld Phase.slot hslot]
    exact hinv.reserved
  · rw [hheld Phase.releasing hreleasing]
    exact hinv.releasing
  · rw [hheld Phase.heldPoll hpoll]
    exact hinv.poll
  · rw [hheld Phase.heldPush hpush]
    exact hinv.push
  · rw [hheld Phase.heldQueue hqueue]
    exact hinv.queue
  · show (Function.update s.phase t p u).Ok s.slots
    by_cases hu : u = t
    · rw [hu, Function.update_self]
      exact hok
    · rw [Function.update_of_ne hu]
      exact hinv.phase_ok u

end Moves

/-! ## The steps of an acquire -/

section Steps

variable {cfg : Config} {s s' : State ι} {t : ι} {idx : Nat} {sl : Slot} {p : Phase}

/-- A task writes the slot it works on and moves on. -/
theorem Inv.write (hinv : Inv cfg s)
    (hown : (s.phase t).slot = some idx ∨ (s.phase t).releasing = some idx)
    (hslots : s'.slots = Function.update s.slots idx sl)
    (hphase : s'.phase = Function.update s.phase t p)
    (hblocking : ((sl.inUse || sl.reserved) && !sl.nonBlocking) = true → s.blocking idx = true)
    (hacc : Accounts s s' t idx sl p) (hfree : sl.reserved = true → sl.inUse = false)
    (hused : sl.releasing = true → sl.inUse = true) (hsettled : sl.Settled)
    (hok : p.Ok s'.slots) : Inv cfg s' := by
  have hmono : ∀ i, s'.blocking i = true → s.blocking i = true := by
    intro i hi
    unfold State.blocking at hi
    rw [hslots] at hi
    by_cases hidx : i = idx
    · rw [hidx, Function.update_self] at hi
      exact hidx ▸ hblocking hi
    · rw [Function.update_of_ne hidx] at hi
      exact hi
  exact hinv.next hslots hphase
    (fun u hu i hi heq => hu (hinv.own (heq ▸ hi) hown))
    (Nat.le_trans (blockingCount_mono hmono _) hinv.budget) hacc hfree hused hsettled hok

/-- A task writes a field of the slot it has reserved, apart from the reservation. -/
theorem Inv.writeReserved (hinv : Inv cfg s) (hown : (s.phase t).slot = some idx)
    (hslot : p.slot = some idx) (hreleasing : (s.phase t).releasing = none)
    (hreleasing' : p.releasing = none) (hpoll : p.heldPoll = (s.phase t).heldPoll)
    (hpush : p.heldPush = (s.phase t).heldPush) (hqueue : p.heldQueue = (s.phase t).heldQueue)
    (hsame : sl = { s.slots idx with poll := sl.poll, push := sl.push, outbound := sl.outbound })
    (hok : p.Ok (Function.update s.slots idx sl)) : Inv cfg ((s.setSlot idx sl).goto t p) := by
  have hdead := hinv.inUse_of_slot hown
  have hdead' : sl.inUse = false := by
    rw [hsame]
    exact hdead
  refine @Inv.write ι _ cfg s _ t idx sl p hinv (.inl hown) rfl rfl ?_ ?_ (fun _ => hdead') ?_ ?_ hok
  · rw [hsame]
    exact id
  · exact
      { reserved := (hinv.reserved.sameHeld (hslot.trans hown.symm)).sameUsed (by rw [hsame])
        releasing := (hinv.releasing.sameHeld (hreleasing'.trans hreleasing.symm)).sameUsed
          (by rw [hsame])
        poll := (hinv.poll.sameHeld hpoll).writeDead hdead hdead'
        push := (hinv.push.sameHeld hpush).writeDead hdead hdead'
        queue := (hinv.queue.sameHeld hqueue).writeDead hdead hdead' }
  · rw [hsame]
    exact hinv.releasing_used idx
  · rw [hsame]
    exact hinv.settled idx

/-- A task changes one of the pools and moves on, without writing a slot. -/
theorem Inv.pool (hinv : Inv cfg s) (hown : (s.phase t).slot = some idx)
    (hslots : s'.slots = s.slots) (hphase : s'.phase = Function.update s.phase t p)
    (hslot : p.slot = some idx) (hreleasing : (s.phase t).releasing = none)
    (hreleasing' : p.releasing = none)
    (hpoll : Accounted s'.pollInUse (fun i => (s.slots i).pollCell)
      (Function.update (fun v => (s.phase v).heldPoll) t p.heldPoll))
    (hpush : Accounted s'.pushInUse (fun i => (s.slots i).pushCell)
      (Function.update (fun v => (s.phase v).heldPush) t p.heldPush))
    (hqueue : Accounted s'.queueLive (fun i => (s.slots i).queueCell)
      (Function.update (fun v => (s.phase v).heldQueue) t p.heldQueue))
    (hok : p.Ok s'.slots) : Inv cfg s' := by
  refine hinv.write (.inl hown) (by rw [hslots, Function.update_eq_self]) hphase id ?_
    (hinv.reserved_free idx) (hinv.releasing_used idx) (hinv.settled idx) hok
  exact
    { reserved := (hinv.reserved.sameHeld (hslot.trans hown.symm)).sameUsed rfl
      releasing := (hinv.releasing.sameHeld (hreleasing'.trans hreleasing.symm)).sameUsed rfl
      poll := hpoll.sameCell rfl
      push := hpush.sameCell rfl
      queue := hqueue.sameCell rfl }

omit [DecidableEq ι] in
theorem pollFree_eq (s : State ι) (o : Option Nat) :
    s.pollFree o = { s with pollInUse := Accounted.freed s.pollInUse o } := by
  cases o <;> rfl

omit [DecidableEq ι] in
theorem pushFree_eq (s : State ι) (o : Option Nat) :
    s.pushFree o = { s with pushInUse := Accounted.freed s.pushInUse o } := by
  cases o <;> rfl

omit [DecidableEq ι] in
theorem queueDestroy_eq (s : State ι) (o : Option Nat) :
    s.queueDestroy o = { s with queueLive := Accounted.freed s.queueLive o } := by
  cases o <;> rfl

theorem pushStage_holds (idx : Nat) (req : ClientCfg) (poll : Option Nat) :
    (State.pushStage idx req poll).slot = some idx ∧
      (State.pushStage idx req poll).releasing = none ∧
      (State.pushStage idx req poll).heldPoll = poll ∧
      (State.pushStage idx req poll).heldPush = none ∧
      (State.pushStage idx req poll).heldQueue = none ∧
      ∀ slots, (State.pushStage idx req poll).Ok slots := by
  unfold State.pushStage
  split <;> simp [Phase.slot, Phase.releasing, Phase.heldPoll, Phase.heldPush, Phase.heldQueue,
    Phase.Ok]

/-- The phases right after the reservation hold the reservation only. -/
theorem pollStage_holds (idx : Nat) (req : ClientCfg) :
    (State.pollStage idx req).slot = some idx ∧ (State.pollStage idx req).releasing = none ∧
      (State.pollStage idx req).heldPoll = none ∧ (State.pollStage idx req).heldPush = none ∧
      (State.pollStage idx req).heldQueue = none ∧
      ∀ slots, (State.pollStage idx req).Ok slots := by
  unfold State.pollStage
  split
  · simp [Phase.slot, Phase.releasing, Phase.heldPoll, Phase.heldPush, Phase.heldQueue, Phase.Ok]
  · exact pushStage_holds idx req none

/-- The lock section of acquire: within the budget, a free slot gets reserved. -/
theorem acquire_inv (hinv : Inv cfg s) (req : ClientCfg) {last : Option BbErr}
    (hp : s.phase t = .idle last) : Inv cfg (s.acquire cfg t req) := by
  have hidle (rc : Option BbErr) : Inv cfg (s.goto t (.idle rc)) := by
    apply hinv.move <;> first | trivial | (rw [hp]; rfl)
  unfold State.acquire
  split
  · exact hidle _
  split
  · exact hidle _
  rename_i hroom
  split
  · exact hidle _
  rename_i idx hfind
  have hfree := List.find?_some hfind
  simp only [Bool.and_eq_true, Bool.not_eq_true'] at hfree
  obtain ⟨hdead, hunreserved⟩ := hfree
  obtain ⟨hslot, hreleasing, hpoll, hpush, hqueue, hok⟩ := pollStage_holds idx req
  have hnone : ∀ i, (s.phase t).slot ≠ some i ∧ (s.phase t).releasing ≠ some i := by
    intro i
    rw [hp]
    simp [Phase.slot, Phase.releasing]
  have hnotReleasing : (s.slots idx).releasing = false := by
    cases hrel : (s.slots idx).releasing with
    | false => rfl
    | true =>
      rw [hinv.releasing_used idx hrel] at hdead
      cases hdead
  refine @Inv.next ι _ cfg s _ t idx _ _ hinv rfl rfl ?_ ?_ ?_ (fun _ => hdead)
    (hinv.releasing_used idx) (hinv.settled idx) (hok _)
  · rintro u - i (hi | hi) rfl
    · rw [hinv.reserved_of_slot hi] at hunreserved
      cases hunreserved
    · rw [hinv.releasing_of_releasing hi] at hnotReleasing
      cases hnotReleasing
  · by_cases hnb : req.nonBlocking = true
    · refine Nat.le_trans (blockingCount_mono (fun i hi => ?_) _) hinv.budget
      unfold State.blocking State.goto State.setSlot at hi
      dsimp only at hi
      by_cases hidx : i = idx
      · rw [hidx, Function.update_self, hnb] at hi
        simp at hi
      · rw [Function.update_of_ne hidx] at hi
        exact hi
    · have hlt : s.blockingCount cfg.clientSlots < cfg.maxBlockingClients := by
        by_contra hge
        exact hroom ⟨by simpa using hnb, Nat.le_of_not_lt hge⟩
      refine Nat.le_trans (@blockingCount_le_succ ι s _ idx (fun i hidx => ?_) _) hlt
      unfold State.blocking State.goto State.setSlot
      dsimp only
      rw [Function.update_of_ne hidx]
  · exact
      { reserved := by
          rw [hslot]
          exact hinv.reserved.take (by rw [hp]; rfl) hunreserved (by simp [Slot.noCell])
        releasing := (hinv.releasing.sameHeld (by rw [hreleasing, hp]; rfl)).sameUsed rfl
        poll := (hinv.poll.sameHeld (by rw [hpoll, hp]; rfl)).sameCell rfl
        push := (hinv.push.sameHeld (by rw [hpush, hp]; rfl)).sameCell rfl
        queue := (hinv.queue.sameHeld (by rw [hqueue, hp]; rfl)).sameCell rfl }

omit [DecidableEq ι] in
/-- A reserved slot is not being released. -/
theorem Inv.releasing_of_slot (hinv : Inv cfg s) (h : (s.phase t).slot = some idx) :
    (s.slots idx).releasing = false := by
  cases hrel : (s.slots idx).releasing with
  | false => rfl
  | true =>
    have hlive := hinv.releasing_used idx hrel
    rw [hinv.inUse_of_slot h] at hlive
    cases hlive

/-- The poll block is taken. -/
theorem pollTake_inv (hinv : Inv cfg s) {req : ClientCfg} {i : Nat}
    (hp : s.phase t = .pollTake idx req i) (hfree : s.pollInUse i = false)
    (hunref : ∀ j, (s.slots j).inUse = true → (s.slots j).poll ≠ some i) :
    Inv cfg ({ s with pollInUse := Function.update s.pollInUse i true }.goto t
      (State.pushStage idx req (some i))) := by
  obtain ⟨hslot, hreleasing, hpoll, hpush, hqueue, hok⟩ := pushStage_holds idx req (some i)
  refine hinv.pool (by rw [hp]; rfl) rfl rfl hslot (by rw [hp]; rfl) hreleasing ?_ ?_ ?_ (hok _)
  · rw [hpoll]
    exact hinv.poll.take (by rw [hp]; rfl) hfree hunref
  · exact hinv.push.sameHeld (by rw [hpush, hp]; rfl)
  · exact hinv.queue.sameHeld (by rw [hqueue, hp]; rfl)

/-- The push block is taken. -/
theorem pushTake_inv (hinv : Inv cfg s) {req : ClientCfg} {poll : Option Nat} {i : Nat}
    (hp : s.phase t = .pushTake idx req poll i) (hfree : s.pushInUse i = false)
    (hunref : ∀ j, (s.slots j).inUse = true → (s.slots j).push ≠ some i) :
    Inv cfg ({ s with pushInUse := Function.update s.pushInUse i true }.goto t
      (.setPoll idx poll (some i))) := by
  refine hinv.pool (by rw [hp]; rfl) rfl rfl rfl (by rw [hp]; rfl) rfl ?_ ?_ ?_ trivial
  · exact hinv.poll.sameHeld (by rw [hp]; rfl)
  · exact hinv.push.take (by rw [hp]; rfl) hfree hunref
  · exact hinv.queue.sameHeld (by rw [hp]; rfl)

/-- The queue is created. -/
theorem create_inv (hinv : Inv cfg s) {poll push : Option Nat} {queue : Nat}
    (hp : s.phase t = .create idx poll push) (hdead : s.queueLive queue = false)
    (hunref : ∀ j, (s.slots j).inUse = true → (s.slots j).outbound ≠ some queue) :
    Inv cfg ({ s with queueLive := Function.update s.queueLive queue true }.goto t
      (.store idx poll push queue)) := by
  have hok := hinv.phase_ok t
  rw [hp] at hok
  refine hinv.pool (by rw [hp]; rfl) rfl rfl rfl (by rw [hp]; rfl) rfl ?_ ?_ ?_ hok
  · exact hinv.poll.sameHeld (by rw [hp]; rfl)
  · exact hinv.push.sameHeld (by rw [hp]; rfl)
  · exact hinv.queue.take (by rw [hp]; rfl) hdead hunref

/-- The push pool is empty: the poll block goes back. -/
theorem pushFailed_inv (hinv : Inv cfg s) {poll : Option Nat}
    (hp : s.phase t = .pushFailed idx poll) :
    Inv cfg ((s.pollFree poll).goto t (.rollback idx .noSpace)) := by
  have hpoll : (s.phase t).heldPoll = poll := by rw [hp]; rfl
  rw [pollFree_eq, ← hpoll]
  refine hinv.pool (by rw [hp]; rfl) rfl rfl rfl (by rw [hp]; rfl) rfl ?_ ?_ ?_ trivial
  · exact hinv.poll.giveBackAll t
  · exact hinv.push.sameHeld (by rw [hp]; rfl)
  · exact hinv.queue.sameHeld (by rw [hp]; rfl)

/-- The unwind frees the poll block the slot refers to, which is the one taken. -/
theorem unwindPoll_inv (hinv : Inv cfg s) {poll push : Option Nat} {err : BbErr}
    (hp : s.phase t = .unwindPoll idx poll push err) :
    Inv cfg ((s.pollFree (s.slots idx).poll).goto t (.unwindPush idx push err)) := by
  have hok := hinv.phase_ok t
  rw [hp] at hok
  have hpoll : (s.slots idx).poll = (s.phase t).heldPoll := by rw [hp]; exact hok.1
  rw [pollFree_eq, hpoll]
  refine hinv.pool (by rw [hp]; rfl) rfl rfl rfl (by rw [hp]; rfl) rfl ?_ ?_ ?_ hok.2
  · exact hinv.poll.giveBackAll t
  · exact hinv.push.sameHeld (by rw [hp]; rfl)
  · exact hinv.queue.sameHeld (by rw [hp]; rfl)

/-- The unwind frees the push block. -/
theorem unwindPush_inv (hinv : Inv cfg s) {push : Option Nat} {err : BbErr}
    (hp : s.phase t = .unwindPush idx push err) :
    Inv cfg ((s.pushFree (s.slots idx).push).goto t (.clearPoll idx err)) := by
  have hok := hinv.phase_ok t
  rw [hp] at hok
  have hpush : (s.slots idx).push = (s.phase t).heldPush := by rw [hp]; exact hok
  rw [pushFree_eq, hpush]
  refine hinv.pool (by rw [hp]; rfl) rfl rfl rfl (by rw [hp]; rfl) rfl ?_ ?_ ?_ trivial
  · exact hinv.poll.sameHeld (by rw [hp]; rfl)
  · exact hinv.push.giveBackAll t
  · exact hinv.queue.sameHeld (by rw [hp]; rfl)

/-- The reservation is rolled back. -/
theorem rollback_inv (hinv : Inv cfg s) {err : BbErr} (hp : s.phase t = .rollback idx err) :
    Inv cfg ((s.setSlot idx { s.slots idx with reserved := false }).goto t
      (.idle (some err))) := by
  have hown : (s.phase t).slot = some idx := by rw [hp]; rfl
  have hdead := hinv.inUse_of_slot hown
  refine hinv.write (.inl hown) rfl rfl ?_ ?_ (fun h => nomatch h) (hinv.releasing_used idx)
    (hinv.settled idx) trivial
  · dsimp only
    rw [hdead]
    exact fun h => nomatch h
  · exact
      { reserved := hinv.reserved.giveBack hown
        releasing := (hinv.releasing.sameHeld (by rw [hp]; rfl)).sameUsed rfl
        poll := (hinv.poll.sameHeld (by rw [hp]; rfl)).writeDead hdead hdead
        push := (hinv.push.sameHeld (by rw [hp]; rfl)).writeDead hdead hdead
        queue := (hinv.queue.sameHeld (by rw [hp]; rfl)).writeDead hdead hdead }

/-- The client goes live, and what its acquire held passes to it. -/
theorem publish_inv (hinv : Inv cfg s) {poll push : Option Nat} {queue : Nat}
    (hp : s.phase t = .publish idx poll push queue) :
    Inv cfg ((s.setSlot idx { s.slots idx with inUse := true, reserved := false }).goto t
      (.idle (some .ok))) := by
  have hown : (s.phase t).slot = some idx := by rw [hp]; rfl
  have hdead := hinv.inUse_of_slot hown
  obtain ⟨hpollStale, hpushStale, houtboundStale⟩ :=
    hinv.settled idx (hinv.releasing_of_slot hown)
  have hok := hinv.phase_ok t
  rw [hp] at hok
  obtain ⟨hpoll, hpush, houtbound⟩ := hok
  refine hinv.write (.inl hown) rfl rfl ?_ ?_ (fun h => nomatch h) (fun _ => rfl)
    (hinv.settled idx) trivial
  · intro h
    unfold State.blocking
    rw [hinv.reserved_of_slot hown, Bool.or_true]
    simpa using h
  · exact
      { reserved := hinv.reserved.giveBack hown
        releasing := (hinv.releasing.sameHeld (by rw [hp]; rfl)).sameUsed rfl
        poll := hinv.poll.publish hdead rfl hpollStale (by rw [hp]; exact hpoll)
        push := hinv.push.publish hdead rfl hpushStale (by rw [hp]; exact hpush)
        queue := hinv.queue.publish hdead rfl houtboundStale (by rw [hp]; exact houtbound) }

end Steps

/-! ## The steps of a release -/

section Release

variable {cfg : Config} {s s' : State ι} {t : ι} {idx : Nat} {sl : Slot} {p : Phase}

/-- A release holds nothing of what an acquire can hold. -/
theorem Phase.releasing_holds (h : p.releasing = some idx) :
    p.slot = none ∧ p.heldPoll = none ∧ p.heldPush = none ∧ p.heldQueue = none := by
  cases p <;> first | exact ⟨rfl, rfl, rfl, rfl⟩ | cases h

/-- A release writes the references of its client and moves on. -/
theorem Inv.writeReleasing (hinv : Inv cfg s) (hown : (s.phase t).releasing = some idx)
    (hslots : s'.slots = Function.update s.slots idx sl)
    (hphase : s'.phase = Function.update s.phase t p) (hown' : p.releasing = some idx)
    (hinUse : sl.inUse = (s.slots idx).inUse) (hreserved : sl.reserved = (s.slots idx).reserved)
    (hnonBlocking : sl.nonBlocking = (s.slots idx).nonBlocking)
    (hreleasing : sl.releasing = (s.slots idx).releasing)
    (hpoll : Accounted s'.pollInUse
      (Function.update (fun i => (s.slots i).pollCell) idx sl.pollCell)
      (fun v => (s.phase v).heldPoll))
    (hpush : Accounted s'.pushInUse
      (Function.update (fun i => (s.slots i).pushCell) idx sl.pushCell)
      (fun v => (s.phase v).heldPush))
    (hqueue : Accounted s'.queueLive
      (Function.update (fun i => (s.slots i).queueCell) idx sl.queueCell)
      (fun v => (s.phase v).heldQueue)) (hok : p.Ok s'.slots) : Inv cfg s' := by
  obtain ⟨hslot, hheldPoll, hheldPush, hheldQueue⟩ := Phase.releasing_holds hown
  obtain ⟨hslot', hheldPoll', hheldPush', hheldQueue'⟩ := Phase.releasing_holds hown'
  refine hinv.write (.inr hown) hslots hphase ?_ ?_ ?_ ?_ ?_ hok
  · rw [hinUse, hreserved, hnonBlocking]
    exact id
  · exact
      { reserved := (hinv.reserved.sameHeld (hslot'.trans hslot.symm)).sameUsed hreserved
        releasing := (hinv.releasing.sameHeld (hown'.trans hown.symm)).sameUsed hreleasing
        poll := hpoll.sameHeld (hheldPoll'.trans hheldPoll.symm)
        push := hpush.sameHeld (hheldPush'.trans hheldPush.symm)
        queue := hqueue.sameHeld (hheldQueue'.trans hheldQueue.symm) }
  · rw [hreserved, hinUse]
    exact hinv.reserved_free idx
  · rw [hreleasing, hinUse]
    exact hinv.releasing_used idx
  · intro hnot
    rw [hreleasing, hinv.releasing_of_releasing hown] at hnot
    cases hnot

/-- `bb_queue_destroy(c->outbound)`. -/
theorem relDestroy_inv (hinv : Inv cfg s) (hp : s.phase t = .relDestroy idx) :
    Inv cfg (((s.queueDestroy (s.slots idx).outbound).setSlot idx
      { s.slots idx with outboundStale := true }).goto t (.relClearOutbound idx)) := by
  have hown : (s.phase t).releasing = some idx := by rw [hp]; rfl
  have hlive := hinv.inUse_of_releasing hown
  have hok := hinv.phase_ok t
  rw [hp] at hok
  rw [queueDestroy_eq]
  refine hinv.writeReleasing hown rfl rfl rfl rfl rfl rfl rfl (hinv.poll.sameCell rfl)
    (hinv.push.sameCell rfl) (hinv.queue.dropAll hlive hlive rfl rfl) ?_
  simpa [Phase.Ok, State.goto, State.setSlot] using hok.2

/-- `c->outbound = NULL`. -/
theorem relClearOutbound_inv (hinv : Inv cfg s) (hp : s.phase t = .relClearOutbound idx) :
    Inv cfg ((s.setSlot idx { s.slots idx with outbound := none, outboundStale := false }).goto t
      (.relFreePoll idx)) := by
  have hown : (s.phase t).releasing = some idx := by rw [hp]; rfl
  have hok := hinv.phase_ok t
  rw [hp] at hok
  refine hinv.writeReleasing hown rfl rfl rfl rfl rfl rfl rfl (hinv.poll.sameCell rfl)
    (hinv.push.sameCell rfl) (hinv.queue.forget (.inl hok.1) rfl) ?_
  simpa [Phase.Ok, State.goto, State.setSlot] using hok.2

/-- `poll_free(c->poll)`. -/
theorem relFreePoll_inv (hinv : Inv cfg s) (hp : s.phase t = .relFreePoll idx) :
    Inv cfg (((s.pollFree (s.slots idx).poll).setSlot idx
      { s.slots idx with pollStale := true }).goto t (.relClearPoll idx)) := by
  have hown : (s.phase t).releasing = some idx := by rw [hp]; rfl
  have hlive := hinv.inUse_of_releasing hown
  have hok := hinv.phase_ok t
  rw [hp] at hok
  rw [pollFree_eq]
  refine hinv.writeReleasing hown rfl rfl rfl rfl rfl rfl rfl
    (hinv.poll.dropAll hlive hlive rfl rfl) (hinv.push.sameCell rfl) (hinv.queue.sameCell rfl) ?_
  simpa [Phase.Ok, State.goto, State.setSlot] using ⟨hok.1, hok.2.1, hok.2.2.2⟩

/-- `c->poll = NULL`. -/
theorem relClearPoll_inv (hinv : Inv cfg s) (hp : s.phase t = .relClearPoll idx) :
    Inv cfg ((s.setSlot idx { s.slots idx with poll := none, pollStale := false }).goto t
      (.relFreePush idx)) := by
  have hown : (s.phase t).releasing = some idx := by rw [hp]; rfl
  have hok := hinv.phase_ok t
  rw [hp] at hok
  refine hinv.writeReleasing hown rfl rfl rfl rfl rfl rfl rfl
    (hinv.poll.forget (.inl hok.2.2.1) rfl) (hinv.push.sameCell rfl) (hinv.queue.sameCell rfl) ?_
  simpa [Phase.Ok, State.goto, State.setSlot] using ⟨hok.1, hok.2.1, hok.2.2.2⟩

/-- `push_free(c->push)`. -/
theorem relFreePush_inv (hinv : Inv cfg s) (hp : s.phase t = .relFreePush idx) :
    Inv cfg (((s.pushFree (s.slots idx).push).setSlot idx
      { s.slots idx with pushStale := true }).goto t (.relClearPush idx)) := by
  have hown : (s.phase t).releasing = some idx := by rw [hp]; rfl
  have hlive := hinv.inUse_of_releasing hown
  have hok := hinv.phase_ok t
  rw [hp] at hok
  rw [pushFree_eq]
  refine hinv.writeReleasing hown rfl rfl rfl rfl rfl rfl rfl (hinv.poll.sameCell rfl)
    (hinv.push.dropAll hlive hlive rfl rfl) (hinv.queue.sameCell rfl) ?_
  simpa [Phase.Ok, State.goto, State.setSlot] using
    ⟨hok.1, hok.2.1, hok.2.2.1, hok.2.2.2.1⟩

/-- `c->push = NULL`. -/
theorem relClearPush_inv (hinv : Inv cfg s) (hp : s.phase t = .relClearPush idx) :
    Inv cfg ((s.setSlot idx { s.slots idx with push := none, pushStale := false }).goto t
      (.relInUse idx)) := by
  have hown : (s.phase t).releasing = some idx := by rw [hp]; rfl
  have hok := hinv.phase_ok t
  rw [hp] at hok
  refine hinv.writeReleasing hown rfl rfl rfl rfl rfl rfl rfl (hinv.poll.sameCell rfl)
    (hinv.push.forget (.inl hok.2.2.2.2) rfl) (hinv.queue.sameCell rfl) ?_
  simpa [Phase.Ok, State.goto, State.setSlot] using
    ⟨hok.1, hok.2.1, hok.2.2.1, hok.2.2.2.1⟩

/-- `in_use = false`: by now the client refers to nothing. -/
theorem relInUse_inv (hinv : Inv cfg s) (hp : s.phase t = .relInUse idx) :
    Inv cfg ((s.setSlot idx { s.slots idx with inUse := false, releasing := false }).goto t
      (.relPending idx)) := by
  have hown : (s.phase t).releasing = some idx := by rw [hp]; rfl
  have hok := hinv.phase_ok t
  rw [hp] at hok
  obtain ⟨houtbound, houtboundStale, hpoll, hpollStale, hpush, hpushStale⟩ := hok
  refine hinv.write (.inr hown) rfl rfl ?_ ?_ (fun _ => rfl) (fun h => nomatch h)
    (fun _ => ⟨hpollStale, hpushStale, houtboundStale⟩) trivial
  · intro h
    unfold State.blocking
    rw [hinv.inUse_of_releasing hown, Bool.true_or]
    simp only [Bool.false_or, Bool.and_eq_true] at h ⊢
    exact ⟨trivial, h.2⟩
  · exact
      { reserved := (hinv.reserved.sameHeld (by rw [hp]; rfl)).sameUsed rfl
        releasing := hinv.releasing.giveBack hown
        poll := (hinv.poll.sameHeld (by rw [hp]; rfl)).forget (.inr hpoll) hpoll
        push := (hinv.push.sameHeld (by rw [hp]; rfl)).forget (.inr hpush) hpush
        queue := (hinv.queue.sameHeld (by rw [hp]; rfl)).forget (.inr houtbound) houtbound }

/-- A release begins on a client in use that no other call is releasing. -/
theorem release_inv (hinv : Inv cfg s) {last : Option BbErr} (hp : s.phase t = .idle last)
    (hlive : (s.slots idx).inUse = true) (hfree : (s.slots idx).releasing = false) :
    Inv cfg ((s.setSlot idx { s.slots idx with releasing := true }).goto t
      (.relDestroy idx)) := by
  obtain ⟨hpollStale, hpushStale, houtboundStale⟩ := hinv.settled idx hfree
  refine @Inv.next ι _ cfg s _ t idx _ _ hinv rfl rfl ?_ ?_ ?_ (hinv.reserved_free idx)
    (fun _ => hlive) (fun h => nomatch h) ?_
  · rintro u - i (hi | hi) rfl
    · rw [hinv.inUse_of_slot hi] at hlive
      cases hlive
    · rw [hinv.releasing_of_releasing hi] at hfree
      cases hfree
  · refine Nat.le_trans (blockingCount_mono (fun i hi => ?_) _) hinv.budget
    unfold State.blocking State.goto State.setSlot at hi
    dsimp only at hi
    by_cases hidx : i = idx
    · rw [hidx, Function.update_self] at hi
      exact hidx ▸ hi
    · rw [Function.update_of_ne hidx] at hi
      exact hi
  · exact
      { reserved := (hinv.reserved.sameHeld (by rw [hp]; rfl)).sameUsed rfl
        releasing := hinv.releasing.take (by rw [hp]; rfl) hfree (by simp [Slot.noCell])
        poll := (hinv.poll.sameHeld (by rw [hp]; rfl)).sameCell rfl
        push := (hinv.push.sameHeld (by rw [hp]; rfl)).sameCell rfl
        queue := (hinv.queue.sameHeld (by rw [hp]; rfl)).sameCell rfl }
  · simp [Phase.Ok, State.goto, State.setSlot, hpollStale, hpushStale, houtboundStale]

end Release

/-! ## Runs -/

section Runs

variable {cfg : Config} {s : State ι} {t : ι}

/-- One step of a task keeps the invariant. -/
theorem next_inv (hinv : Inv cfg s) {err : BbErr} {queue : Nat}
    (hund : Undisturbed s (.step t err queue)) : Inv cfg (s.next cfg t err queue) := by
  have hown := hinv.phase_ok t
  unfold State.next
  cases hp : s.phase t with
  | idle last => exact hinv
  | pollScan idx req i =>
    dsimp only
    split
    · apply hinv.move <;> first | trivial | (rw [hp]; rfl)
    split <;> apply hinv.move <;> first | trivial | (rw [hp]; rfl)
  | pollTake idx req i =>
    simp only [Undisturbed, hp] at hund
    exact pollTake_inv hinv hp hund.1 hund.2
  | pushScan idx req poll i =>
    dsimp only
    split
    · apply hinv.move <;> first | trivial | (rw [hp]; rfl)
    split <;> apply hinv.move <;> first | trivial | (rw [hp]; rfl)
  | pushTake idx req poll i =>
    simp only [Undisturbed, hp] at hund
    exact pushTake_inv hinv hp hund.1 hund.2
  | pushFailed idx poll => exact pushFailed_inv hinv hp
  | setPoll idx poll push =>
    refine hinv.writeReserved (by rw [hp]; rfl) rfl (by rw [hp]; rfl) rfl (by rw [hp]; rfl)
      (by rw [hp]; rfl) (by rw [hp]; rfl) rfl ?_
    simp [Phase.Ok]
  | setPush idx poll push =>
    rw [hp] at hown
    refine hinv.writeReserved (by rw [hp]; rfl) rfl (by rw [hp]; rfl) rfl (by rw [hp]; rfl)
      (by rw [hp]; rfl) (by rw [hp]; rfl) rfl ?_
    simpa [Phase.Ok] using hown
  | create idx poll push =>
    rw [hp] at hown
    simp only [Undisturbed, hp] at hund
    dsimp only
    split
    · apply hinv.move <;> first | exact hown | (rw [hp]; rfl)
    rename_i hok
    split
    · exact hinv
    rename_i hdead
    have hdead : s.queueLive queue = false := by simpa using hdead
    exact create_inv hinv hp hdead (hund (Classical.not_not.mp hok) hdead)
  | store idx poll push queue =>
    rw [hp] at hown
    refine hinv.writeReserved (by rw [hp]; rfl) rfl (by rw [hp]; rfl) rfl (by rw [hp]; rfl)
      (by rw [hp]; rfl) (by rw [hp]; rfl) rfl ?_
    simpa [Phase.Ok] using hown
  | publish idx poll push queue => exact publish_inv hinv hp
  | unwindPoll idx poll push err => exact unwindPoll_inv hinv hp
  | unwindPush idx push err => exact unwindPush_inv hinv hp
  | clearPoll idx err =>
    exact hinv.writeReserved (by rw [hp]; rfl) rfl (by rw [hp]; rfl) rfl (by rw [hp]; rfl)
      (by rw [hp]; rfl) (by rw [hp]; rfl) rfl trivial
  | clearPush idx err =>
    exact hinv.writeReserved (by rw [hp]; rfl) rfl (by rw [hp]; rfl) rfl (by rw [hp]; rfl)
      (by rw [hp]; rfl) (by rw [hp]; rfl) rfl trivial
  | rollback idx err => exact rollback_inv hinv hp
  | relDestroy idx => exact relDestroy_inv hinv hp
  | relClearOutbound idx => exact relClearOutbound_inv hinv hp
  | relFreePoll idx => exact relFreePoll_inv hinv hp
  | relClearPoll idx => exact relClearPoll_inv hinv hp
  | relFreePush idx => exact relFreePush_inv hinv hp
  | relClearPush idx => exact relClearPush_inv hinv hp
  | relInUse idx => exact relInUse_inv hinv hp
  | relPending idx => apply hinv.move <;> first | trivial | (rw [hp]; rfl)

/-- One step keeps the account. -/
theorem step_inv (s : State ι) (a : Act ι) (hinv : Inv cfg s) (hund : Undisturbed s a) :
    Inv cfg (s.step cfg a) := by
  cases a with
  | acquire t req =>
    unfold State.step
    dsimp only
    split
    · exact acquire_inv hinv req ‹_›
    · exact hinv
  | release t idx =>
    unfold State.step
    dsimp only
    split
    · split
      · rename_i hclient
        simp only [Bool.and_eq_true, Bool.not_eq_true'] at hclient
        exact release_inv hinv ‹_› hclient.1 hclient.2
      · exact hinv
    · exact hinv
  | step t err queue => exact next_inv hinv hund

/--
Nothing changed but what one task works on: the other tasks stand where they stood, and
the clients in use are the same.
-/
structure Solo (s s' : State ι) (t : ι) : Prop where
  others : ∀ u, u ≠ t → s'.phase u = s.phase u
  inUse : ∀ i, (s'.slots i).inUse = (s.slots i).inUse
  live : ∀ i, (s.slots i).inUse = true → s'.slots i = s.slots i

omit [DecidableEq ι] in
theorem Solo.trans {s₁ s₂ s₃ : State ι} (h : Solo s₁ s₂ t) (h' : Solo s₂ s₃ t) :
    Solo s₁ s₃ t where
  others := fun u hu => (h'.others u hu).trans (h.others u hu)
  inUse := fun i => (h'.inUse i).trans (h.inUse i)
  live := fun i hi => (h'.live i ((h.inUse i).trans hi)).trans (h.live i hi)

/-- A step that only moves one task is its own affair. -/
theorem solo_of_slots {s' : State ι} {p : Phase} (hslots : s'.slots = s.slots)
    (hphase : s'.phase = Function.update s.phase t p) : Solo s s' t where
  others := fun u hu => by rw [hphase, Function.update_of_ne hu]
  inUse := fun i => by rw [hslots]
  live := fun i _ => by rw [hslots]

/-- A step that writes a slot not in use is the task's own affair too. -/
theorem solo_of_write {s' : State ι} {idx : Nat} {sl : Slot} {p : Phase}
    (hslots : s'.slots = Function.update s.slots idx sl)
    (hphase : s'.phase = Function.update s.phase t p) (hdead : (s.slots idx).inUse = false)
    (hdead' : sl.inUse = false) : Solo s s' t where
  others := fun u hu => by rw [hphase, Function.update_of_ne hu]
  inUse := fun i => by
    by_cases hi : i = idx
    · rw [hslots, hi, Function.update_self, hdead, hdead']
    · rw [hslots, Function.update_of_ne hi]
  live := fun i hlive => by
    rw [hslots, Function.update_of_ne]
    rintro rfl
    rw [hdead] at hlive
    cases hlive

/-- An acquire is its own affair until it publishes. -/
theorem next_solo (hinv : Inv cfg s) (hrel : (s.phase t).releasing = none) (err : BbErr)
    (queue : Nat) :
    Solo s (s.next cfg t err queue) t ∧ ((s.next cfg t err queue).phase t).releasing = none ∨
      (s.next cfg t err queue).phase t = .idle (some .ok) := by
  have hdead : ∀ idx, (s.phase t).slot = some idx → (s.slots idx).inUse = false :=
    fun idx => hinv.inUse_of_slot
  have hstay : Solo s s t := ⟨fun _ _ => rfl, fun _ => rfl, fun _ _ => rfl⟩
  have hmoved {s' : State ι} {p : Phase} (hphase : s'.phase = Function.update s.phase t p) :
      s'.phase t = p := by
    rw [hphase, Function.update_self]
  unfold State.next
  cases hp : s.phase t <;> rw [hp] at hdead hrel <;> dsimp only
  case idle last => exact .inl ⟨hstay, by rw [hp]; rfl⟩
  case pollScan idx req i =>
    split
    · exact .inl ⟨solo_of_slots rfl rfl, by rw [hmoved rfl]; rfl⟩
    split <;> exact .inl ⟨solo_of_slots rfl rfl, by rw [hmoved rfl]; rfl⟩
  case pollTake idx req i =>
    refine .inl ⟨solo_of_slots rfl rfl, ?_⟩
    rw [hmoved rfl]
    exact (pushStage_holds idx req (some i)).2.1
  case pushScan idx req poll i =>
    split
    · exact .inl ⟨solo_of_slots rfl rfl, by rw [hmoved rfl]; rfl⟩
    split <;> exact .inl ⟨solo_of_slots rfl rfl, by rw [hmoved rfl]; rfl⟩
  case create idx poll push =>
    split
    · exact .inl ⟨solo_of_slots rfl rfl, by rw [hmoved rfl]; rfl⟩
    split
    · exact .inl ⟨hstay, by rw [hp]; rfl⟩
    · exact .inl ⟨solo_of_slots rfl rfl, by rw [hmoved rfl]; rfl⟩
  case pushFailed idx poll =>
    rw [pollFree_eq]
    exact .inl ⟨solo_of_slots rfl rfl, by rw [hmoved rfl]; rfl⟩
  case unwindPoll idx poll push err' =>
    rw [pollFree_eq]
    exact .inl ⟨solo_of_slots rfl rfl, by rw [hmoved rfl]; rfl⟩
  case unwindPush idx push err' =>
    rw [pushFree_eq]
    exact .inl ⟨solo_of_slots rfl rfl, by rw [hmoved rfl]; rfl⟩
  case pushTake | setPoll | setPush | store | clearPoll | clearPush | rollback =>
    first
      | exact .inl ⟨solo_of_write rfl rfl (hdead _ rfl) (hdead _ rfl), by rw [hmoved rfl]; rfl⟩
      | exact .inl ⟨solo_of_slots rfl rfl, by rw [hmoved rfl]; rfl⟩
  case publish | relPending => exact .inr (hmoved rfl)
  all_goals cases hrel

/-- The lock section of an acquire is its own affair. -/
theorem acquire_solo (s : State ι) (t : ι) (req : ClientCfg) :
    Solo s (s.acquire cfg t req) t ∧ ((s.acquire cfg t req).phase t).releasing = none := by
  have hmoved {s' : State ι} {p : Phase} (hphase : s'.phase = Function.update s.phase t p) :
      s'.phase t = p := by
    rw [hphase, Function.update_self]
  unfold State.acquire
  split
  · exact ⟨solo_of_slots rfl rfl, by rw [hmoved rfl]; rfl⟩
  split
  · exact ⟨solo_of_slots rfl rfl, by rw [hmoved rfl]; rfl⟩
  split
  · exact ⟨solo_of_slots rfl rfl, by rw [hmoved rfl]; rfl⟩
  rename_i idx hfind
  have hfree := List.find?_some hfind
  simp only [Bool.and_eq_true, Bool.not_eq_true'] at hfree
  refine ⟨solo_of_write rfl rfl hfree.1 hfree.1, ?_⟩
  rw [hmoved rfl]
  exact (pollStage_holds idx req).2.1

/-- A task's own steps up to the publication. -/
theorem run_solo {s₀ : State ι} (bs : List (BbErr × Nat)) (hinv : Inv cfg s)
    (hrun : Along (State.step cfg) Undisturbed s (bs.map fun b => .step t b.1 b.2))
    (hs : Solo s₀ s t ∧ (s.phase t).releasing = none ∨ s.phase t = .idle (some .ok)) :
    Inv cfg (run (State.step cfg) s (bs.map fun b => .step t b.1 b.2)) ∧
      (Solo s₀ (run (State.step cfg) s (bs.map fun b => .step t b.1 b.2)) t ∨
        (run (State.step cfg) s (bs.map fun b => .step t b.1 b.2)).phase t =
          .idle (some .ok)) := by
  induction bs generalizing s with
  | nil => exact ⟨hinv, hs.imp_left And.left⟩
  | cons b bs ih =>
    have hinv' := step_inv s (.step t b.1 b.2) hinv hrun.1
    refine ih hinv' hrun.2 ?_
    rcases hs with ⟨hsolo, hrel⟩ | hpublished
    · exact (next_solo hinv hrel b.1 b.2).imp_left fun h => ⟨hsolo.trans h.1, h.2⟩
    · refine .inr ?_
      show (s.next cfg t b.1 b.2).phase t = _
      unfold State.next
      rw [hpublished]
      exact hpublished

/-- When the same is held at both ends, the flags are the same. -/
theorem sameOccupancy_of_solo {s' : State ι} {last last' : Option BbErr} (hinv : Inv cfg s)
    (hinv' : Inv cfg s') (hsolo : Solo s s' t) (hp : s.phase t = .idle last)
    (hp' : s'.phase t = .idle last') : SameOccupancy s s' := by
  have hheld (f : Phase → Option Nat) (hidle : ∀ o, f (.idle o) = none) :
      (fun v => f (s.phase v)) = fun v => f (s'.phase v) := by
    funext v
    by_cases hv : v = t
    · rw [hv, hp, hp', hidle, hidle]
    · rw [hsolo.others v hv]
  have hcells {f : Slot → Cell} (hf : ∀ sl, (f sl).live = true → sl.inUse = true) (i : Nat)
      (hi : (f (s.slots i)).live = true ∨ (f (s'.slots i)).live = true) :
      f (s.slots i) = f (s'.slots i) := by
    have hlive : (s.slots i).inUse = true :=
      hi.elim (hf _) fun h => (hsolo.inUse i).symm.trans (hf _ h)
    rw [hsolo.live i hlive]
  have hreserved := hinv.reserved.used_eq hinv'.reserved (hheld Phase.slot fun _ => rfl)
    fun _ _ => rfl
  exact
    { inUse_eq := hsolo.inUse
      reserved_eq := fun i => (congrFun hreserved i).symm
      poll_eq := (hinv.poll.used_eq hinv'.poll (hheld Phase.heldPoll fun _ => rfl)
        (hcells fun _ => id)).symm
      push_eq := (hinv.push.used_eq hinv'.push (hheld Phase.heldPush fun _ => rfl)
        (hcells fun _ => id)).symm
      queue_eq := (hinv.queue.used_eq hinv'.queue (hheld Phase.heldQueue fun _ => rfl)
        (hcells fun _ => id)).symm }

/-- A call on an idle task starts. -/
theorem step_acquire {last : Option BbErr} (hp : s.phase t = .idle last) (req : ClientCfg) :
    s.step cfg (.acquire t req) = s.acquire cfg t req := by
  simp only [State.step, hp]

/--
Over every run in which no acquire takes what is taken or referred to: the budget
holds, clients share nothing and the flags are exactly the holdings; and an acquire
that fails, its statements next to each other, leaves the occupancy as it was.
-/
theorem conserved_if_undisturbed (cfg : Config) (as : List (Act ι))
    (hrun : Along (State.step cfg) Undisturbed State.init as) :
    Conserved cfg (run (State.step cfg) State.init as) ∧
      ∀ (t : ι) (last : Option BbErr) (req : ClientCfg) (bs : List (BbErr × Nat)) (err : BbErr),
        (run (State.step cfg) State.init as).phase t = .idle last →
        Along (State.step cfg) Undisturbed (run (State.step cfg) State.init as)
          (.acquire t req :: bs.map fun b => .step t b.1 b.2) →
        (run (State.step cfg) State.init
          (as ++ .acquire t req :: bs.map fun b => .step t b.1 b.2)).phase t =
            .idle (some err) → err ≠ .ok →
        SameOccupancy (run (State.step cfg) State.init as)
          (run (State.step cfg) State.init
            (as ++ .acquire t req :: bs.map fun b => .step t b.1 b.2)) := by
  have hinv : Inv cfg (run (State.step cfg) State.init as) :=
    run_invariant_along step_inv (inv_init cfg) hrun
  refine ⟨hinv.conserved, fun t last req bs err hidle hcall hend herr => ?_⟩
  rw [run_append, run_cons] at hend ⊢
  have hsolo := @acquire_solo ι _ cfg (run (State.step cfg) State.init as) t req
  rw [← step_acquire hidle req] at hsolo
  obtain ⟨hinv', hbs⟩ := run_solo bs (step_inv _ _ hinv hcall.1) hcall.2 (.inl hsolo)
  rcases hbs with hbs | hpublished
  · exact sameOccupancy_of_solo hinv hinv' hbs hidle hend
  · rw [hpublished] at hend
    cases hend
    exact absurd rfl herr

/-- A client that subscribes to STATE only and does not block. -/
def statePollClient : ClientCfg where
  topicFilter := none
  subscribeMask := setBit 0 ReplayKind.state.code
  nonBlocking := true
  hasSendFn := true
  hasAbortFn := false
  lifetime := .ephemeral

/-- One acquire holds poll block 0. -/
def halfAcquired : List (Act Bool) :=
  [.acquire false statePollClient, .step false .ok 0, .step false .ok 0]

/-- What another acquire's steps see: no room for a queue. -/
def noQueue : List (BbErr × Nat) :=
  [(.ok, 0), (.ok, 0), (.ok, 0), (.ok, 0), (.ok, 0), (.noSpace, 0), (.ok, 0), (.ok, 0), (.ok, 0),
    (.ok, 0), (.ok, 0)]

/-- The other acquire takes slot 1 and poll block 1, fails, and leaves slot 0 and block 0. -/
theorem conserved_if_undisturbed_noQueue :
    Conserved Config.default (run (State.step Config.default) State.init halfAcquired) ∧
      SameOccupancy (run (State.step Config.default) State.init halfAcquired)
        (run (State.step Config.default) State.init
          (halfAcquired ++ .acquire true statePollClient ::
            noQueue.map fun b => .step true b.1 b.2)) := by
  have hzero (i : Nat) : ((State.init : State Bool).slots i).inUse = false := rfl
  have hwritten {s : State Bool} {idx : Nat} {sl : Slot} (h : ∀ i, (s.slots i).inUse = false)
      (hsl : sl.inUse = false) (i : Nat) : ((s.setSlot idx sl).slots i).inUse = false := by
    show (Function.update s.slots idx sl i).inUse = false
    by_cases hi : i = idx
    · rw [hi, Function.update_self, hsl]
    · rw [Function.update_of_ne hi, h i]
  have hdead {s : State Bool} {i : Nat} (h : (s.slots i).inUse = false) {P : Prop}
      (hlive : (s.slots i).inUse = true) : P := by
    rw [h] at hlive
    cases hlive
  have hrun : Along (State.step Config.default) Undisturbed State.init halfAcquired := by
    refine And.intro trivial (And.intro trivial (And.intro (And.intro rfl ?_) trivial))
    intro j
    exact hdead (hwritten hzero rfl j)
  have hcall : Along (State.step Config.default) Undisturbed
      (run (State.step Config.default) State.init halfAcquired)
      (.acquire true statePollClient :: noQueue.map fun b => .step true b.1 b.2) := by
    refine And.intro trivial (And.intro trivial (And.intro trivial (And.intro (And.intro rfl ?_)
      (And.intro trivial (And.intro trivial (And.intro ?_ (And.intro trivial (And.intro trivial
        (And.intro trivial (And.intro trivial (And.intro trivial trivial)))))))))))
    · intro j
      exact hdead (hwritten (hwritten hzero rfl) rfl j)
    · intro h
      cases h
  have hall := conserved_if_undisturbed Config.default halfAcquired hrun
  exact ⟨hall.1, hall.2 true none statePollClient noQueue .noSpace rfl hcall (by decide)
    (by decide)⟩

/-- Two acquires that both find poll block 0 free before either stores its flag. -/
def racedAcquires : List (Act Bool) :=
  [.acquire false statePollClient, .acquire true statePollClient, .step false .ok 0,
    .step true .ok 0, .step false .ok 0, .step true .ok 0, .step false .ok 0, .step false .ok 0,
    .step false .ok 0, .step false .ok 0, .step false .ok 0, .step true .ok 1, .step true .ok 1,
    .step true .ok 1, .step true .ok 1, .step true .ok 1]

/-- Both clients are in use, and both poll through block 0. -/
theorem poll_block_shared :
    ¬ ∀ (cfg : Config) (as : List (Act Bool)) (i j p : Nat),
      ((run (State.step cfg) State.init as).slots i).inUse = true →
      ((run (State.step cfg) State.init as).slots j).inUse = true →
      ((run (State.step cfg) State.init as).slots i).poll = some p →
      ((run (State.step cfg) State.init as).slots j).poll = some p → i = j := by
  intro hclaim
  have hequal : 0 = 1 :=
    hclaim Config.default racedAcquires 0 1 0 (by decide) (by decide) (by decide) (by decide)
  cases hequal

end Runs

end AcquireSteps
end DataHttp
end Breadboard
