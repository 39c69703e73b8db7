import Breadboard.DataHttp.Config
import Breadboard.Foundations.SerialNumber

/-!
# bb_data_http - the shared EVENT ring and its claim protocol

The ring, the push counter and the last claimed generation of each attach index,
with the three locked sections of `bb_data_http_push_pump`: CLAIM, REVOKE
and COMMIT.

A ring entry's sequence number is not stored in the C ring: the drain derives it
from the push counter and the ring occupancy.  Here the entry's tag is the true
sequence number, and `EventRing` carries the proof that the stored tags are
the last consecutive ones and that the C counter is the unbounded one mod
`2^32`.

Main results:

- Theorem `EventRing.tag_of_peekAt`: the entry at index `i` has the
  sequence number the positional derivation gives it.
- Theorem `EventRing.push_tags`: a push keeps the tags consecutive.
-/

namespace Breadboard
namespace DataHttp

open Queue Foundations

/-- The module state behind `s_event_ring_mux`. -/
structure EventRing (cfg : Config) where
  ring : BoundedRing Nat cfg.eventLimits
  totalPushed : UInt32
  lastGen : Nat → UInt32
  staleDiscardCount : UInt32
  pushes : Nat
  totalPushed_eq : totalPushed = UInt32.ofNat pushes
  tags_eq : ring.contents.map Entry.tag = List.range' (pushes - ring.count) ring.count
  count_le_pushes : ring.count ≤ pushes

namespace EventRing

variable {cfg : Config}

/-- The content of a zeroed ring slot. -/
def blankEntry : Entry Nat :=
  { id := 0, ts := 0, data := [], tag := 0 }

/-- The EVENT ring limits always pass the checks of `bb_queue_create`. -/
theorem create_ring_isOk (cfg : Config) (err : BbErr) :
    BoundedRing.create cfg.eventLimits blankEntry ≠ .error err := by
  have hentry : 0 < cfg.outboundEntryMax := Nat.lt_of_lt_of_le (by decide) cfg.outboundEntryMax_range.1
  exact BoundedRing.create_isOk cfg.eventLimits _ cfg.ringCapacity_range.1 hentry
    (fun h => absurd h (Nat.lt_irrefl 0)) err

/-- The empty ring and zeroed counters `bb_data_http_init` sets up. -/
def init (cfg : Config) : EventRing cfg :=
  match h : BoundedRing.create cfg.eventLimits blankEntry with
  | .error e => absurd h (create_ring_isOk cfg e)
  | .ok ring =>
    have hnil := BoundedRing.create_contents h
    have hcount : ring.count = 0 := by rw [← ring.length_contents, hnil]; rfl
    { ring := ring
      totalPushed := 0
      lastGen := fun _ => 0
      staleDiscardCount := 0
      pushes := 0
      totalPushed_eq := rfl
      tags_eq := by rw [hnil, hcount]; rfl
      count_le_pushes := by omega }

@[simp] theorem init_contents (cfg : Config) : (init cfg).ring.contents = [] := by
  unfold init
  split
  · rename_i e he
    exact absurd he (create_ring_isOk cfg e)
  · rename_i ring hring
    exact BoundedRing.create_contents hring

/-- The entry a commit pushes: no timestamp, the attach index as id. -/
def entryFor (er : EventRing cfg) (k : Nat) (frame : Frame cfg) : Entry Nat :=
  { id := UInt32.ofNat k, ts := 0, data := frame.1, tag := er.pushes }

theorem push_eq (er : EventRing cfg) (k : Nat) (frame : Frame cfg) :
    (er.ring.push (er.entryFor k frame)).contents =
      er.ring.kept frame.1.length ++ [er.entryFor k frame] :=
  BoundedRing.push_contents er.ring frame.2

/-- After a push the tags are still consecutive and end at the new sequence number. -/
theorem push_tags (er : EventRing cfg) (k : Nat) (frame : Frame cfg) :
    (er.ring.push (er.entryFor k frame)).contents.map Entry.tag =
      List.range' (er.pushes + 1 - (er.ring.push (er.entryFor k frame)).count)
        (er.ring.push (er.entryFor k frame)).count := by
  have hpush := er.push_eq k frame
  have hsplit := congrArg (List.map Entry.tag) (er.ring.evicted_append_kept frame.1.length)
  have hlen := congrArg List.length (er.ring.evicted_append_kept frame.1.length)
  have hle := er.count_le_pushes
  have hcount : (er.ring.push (er.entryFor k frame)).count =
      (er.ring.kept frame.1.length).length + 1 := by
    rw [← BoundedRing.length_contents, hpush, List.length_append, List.length_singleton]
  rw [List.length_append, BoundedRing.length_contents] at hlen
  rw [List.map_append, er.tags_eq] at hsplit
  have hkept : (er.ring.kept frame.1.length).map Entry.tag =
      List.range' (er.pushes - (er.ring.kept frame.1.length).length)
        (er.ring.kept frame.1.length).length := by
    have hdrop := congrArg (List.drop (er.ring.evicted frame.1.length).length) hsplit
    rw [List.drop_left' (List.length_map _), List.drop_range'] at hdrop
    rw [hdrop]
    congr 1 <;> omega
  rw [hpush, hcount, List.map_append, hkept, List.range'_concat]
  simp only [entryFor, List.map_cons, List.map_nil]
  congr 2 <;> omega

theorem push_count_le (er : EventRing cfg) (k : Nat) (frame : Frame cfg) :
    (er.ring.push (er.entryFor k frame)).count ≤ er.pushes + 1 := by
  have hpush := congrArg List.length (er.push_eq k frame)
  have hlen := congrArg List.length (er.ring.evicted_append_kept frame.1.length)
  have hle := er.count_le_pushes
  simp only [List.length_append, BoundedRing.length_contents, List.length_singleton] at hpush hlen
  omega

/-- `bb_queue_push` on the shared ring together with `s_event_total_pushed++`. -/
def pushFrame (er : EventRing cfg) (k : Nat) (frame : Frame cfg) : EventRing cfg :=
  { er with
    ring := er.ring.push (er.entryFor k frame)
    totalPushed := er.totalPushed + 1
    pushes := er.pushes + 1
    totalPushed_eq := by rw [er.totalPushed_eq, UInt32.ofNat_add]; rfl
    tags_eq := er.push_tags k frame
    count_le_pushes := er.push_count_le k frame }

/-- A push never makes the ring shorter: it evicts at most one entry. -/
theorem count_le_pushFrame (er : EventRing cfg) (k : Nat) (frame : Frame cfg) :
    er.ring.count ≤ (er.pushFrame k frame).ring.count := by
  have hpush := congrArg List.length (er.push_eq k frame)
  have hcount : (er.pushFrame k frame).ring.count =
      (er.ring.push (er.entryFor k frame)).contents.length :=
    (BoundedRing.length_contents _).symm
  have hlimit : er.ring.contents.length ≤ cfg.eventLimits.capacityEntries := by
    rw [BoundedRing.length_contents]
    exact er.ring.count_le
  have hkept := @BoundedFifo.length_le_makeRoom_succ _ Entry.len _ frame.1.length _ hlimit
  rw [hcount, hpush, List.length_append, List.length_singleton, ← er.ring.length_contents]
  exact hkept

/-! ## The locked sections of push_pump -/

/-- CLAIM: nothing when the generation is already handled, else advance and keep the old one. -/
def claim (er : EventRing cfg) (k : Nat) (gen : UInt32) : Option UInt32 × EventRing cfg :=
  if gen = er.lastGen k then (none, er)
  else (some (er.lastGen k), { er with lastGen := Function.update er.lastGen k gen })

/-- REVOKE: restore the generation before the claim, if the claim is still current. -/
def revoke (er : EventRing cfg) (k : Nat) (gen prevGen : UInt32) : EventRing cfg :=
  if er.lastGen k = gen then { er with lastGen := Function.update er.lastGen k prevGen } else er

/-- COMMIT: push the frame if the claim is still current, else count a stale discard. -/
def commit (er : EventRing cfg) (k : Nat) (gen : UInt32) (frame : Frame cfg) : EventRing cfg :=
  if er.lastGen k = gen then er.pushFrame k frame
  else { er with staleDiscardCount := er.staleDiscardCount + 1 }

theorem claim_fst (er : EventRing cfg) (k : Nat) (gen : UInt32) :
    (er.claim k gen).1 = if gen = er.lastGen k then none else some (er.lastGen k) := by
  unfold claim
  split <;> rfl

theorem claim_lastGen (er : EventRing cfg) (k : Nat) (gen : UInt32) :
    (er.claim k gen).2.lastGen = Function.update er.lastGen k gen := by
  unfold claim
  split
  · rename_i heq
    rw [heq, Function.update_eq_self]
  · rfl

@[simp] theorem commit_lastGen (er : EventRing cfg) (k : Nat) (gen : UInt32) (frame : Frame cfg) :
    (er.commit k gen frame).lastGen = er.lastGen := by
  unfold commit
  split <;> rfl

theorem revoke_lastGen (er : EventRing cfg) (k : Nat) (gen prevGen : UInt32) :
    (er.revoke k gen prevGen).lastGen =
      if er.lastGen k = gen then Function.update er.lastGen k prevGen else er.lastGen := by
  unfold revoke
  split <;> rfl

/-! ## Positional sequence numbers -/

/-- The sequence number of the oldest ring entry; the next one when the ring is empty. -/
def oldestSeq (er : EventRing cfg) : Nat :=
  er.pushes - er.ring.count

/-- The C expression for the oldest sequence number is the unbounded one mod `2^32`. -/
theorem oldestSeq_eq (er : EventRing cfg) :
    er.totalPushed - UInt32.ofNat er.ring.count = UInt32.ofNat er.oldestSeq := by
  rw [er.totalPushed_eq, oldestSeq, UInt32.ofNat_sub er.count_le_pushes]

theorem oldestSeq_add_count (er : EventRing cfg) : er.oldestSeq + er.ring.count = er.pushes :=
  Nat.sub_add_cancel er.count_le_pushes

/-- The ring holds at most 64 entries. -/
theorem count_le (er : EventRing cfg) : er.ring.count ≤ 64 :=
  Nat.le_trans er.ring.count_le cfg.ringCapacity_range.2

/-- The positional derivation is exact while the ring does not change. -/
theorem tag_of_peekAt (er : EventRing cfg) {idx : Nat} {e : Entry Nat}
    (h : er.ring.peekAt idx = .ok e) : e.tag = er.oldestSeq + idx ∧ idx < er.ring.count := by
  have hget := (er.ring.peekAt_ok_iff idx e).mp h
  have hlt : idx < er.ring.count := by
    rw [← er.ring.length_contents]
    exact (List.getElem?_eq_some_iff.mp hget).1
  have htag : (er.ring.contents.map Entry.tag)[idx]? = some e.tag := by
    rw [List.getElem?_map, hget]
    rfl
  rw [er.tags_eq, List.getElem?_range' hlt, Option.some.injEq, Nat.one_mul] at htag
  exact ⟨htag.symm, hlt⟩

/-- Every index below the count can be read. -/
theorem peekAt_of_lt (er : EventRing cfg) {idx : Nat} (h : idx < er.ring.count) :
    ∃ e, er.ring.peekAt idx = .ok e ∧ e.tag = er.oldestSeq + idx := by
  have hlen : idx < er.ring.contents.length := by rwa [er.ring.length_contents]
  have hok : er.ring.peekAt idx = .ok er.ring.contents[idx] :=
    (er.ring.peekAt_ok_iff idx _).mpr (List.getElem?_eq_getElem hlen)
  exact ⟨_, hok, (er.tag_of_peekAt hok).1⟩

end EventRing
end DataHttp
end Breadboard
