import Breadboard.DataHttp.Sweep

/-!
# bb_data_http - one client's outbound queue over many sweeps

What `bb_data_http_sweep_step` does to one client's outbound side: frames are
pushed onto its evicting queue, and the flush phase sends them, oldest first, until
a send does not succeed.  The failure count outlives the sweep.

Frames are numbered in push order.  Evictions and pops both take the oldest frame,
so the queued frames are always the last ones pushed, and the number of the oldest
is the number of frames that have left.

Main results:

- Theorem `Outgoing.lined_push`: the queued frames stay the last ones pushed.
- Theorem `Outgoing.pushed_oldest`: what the number of the oldest frame says.
-/

namespace Breadboard
namespace DataHttp

open Queue Foundations

variable {cfg : Config}

/-! ## The model -/

/-- What became of one call of the send seam for frame `n`. -/
inductive Sent where
  | accepted (n : Nat) (e : Entry Origin)
  | timedOut (n : Nat) (e : Entry Origin) (dropped : Bool)
  | fatal (n : Nat) (e : Entry Origin)
  | aborted
  deriving Repr, DecidableEq

/--
The outbound side of a client slot.  Proof-only: `pushed`, the frames its queue
accepted, and `log`, the calls of the send and abort seams.
-/
structure Outgoing (cfg : Config) where
  queue : BoundedRing Origin cfg.outboundLimits
  sendFailCount : Nat
  lifetime : Lifetime
  inUse : Bool
  pushed : List (Entry Origin)
  log : List Sent

namespace Outgoing

/-- The outbound side of a client that was just acquired. -/
def init (out : Outbox cfg) (lifetime : Lifetime) : Outgoing cfg where
  queue := out.queue
  sendFailCount := 0
  lifetime := lifetime
  inUse := true
  pushed := []
  log := []

/-- The number of the oldest queued frame. -/
def oldest (s : Outgoing cfg) : Nat :=
  s.pushed.length - s.queue.count

/-- `bb_queue_push` of one frame; a frame beyond the slot size is refused. -/
def push (s : Outgoing cfg) (e : Entry Origin) : Outgoing cfg :=
  { s with
    queue := s.queue.push e
    pushed := if e.len ≤ cfg.outboundEntryMax then s.pushed ++ [e] else s.pushed }

/-- The oldest frame leaves the queue. -/
def pop (s : Outgoing cfg) : Outgoing cfg :=
  { s with queue := s.queue.popOldest }

/-- `BB_OK`: the frame is gone and the count starts over. -/
def accept (s : Outgoing cfg) (e : Entry Origin) : Outgoing cfg :=
  { s.pop with sendFailCount := 0, log := s.log ++ [.accepted s.oldest e] }

/-- `BB_ERR_TIMEOUT`: one more failure, or the frame is dropped. -/
def timeOut (s : Outgoing cfg) (e : Entry Origin) : Outgoing cfg :=
  if s.sendFailCount + 1 < cfg.sendFailMax then
    { s with
      sendFailCount := s.sendFailCount + 1
      log := s.log ++ [.timedOut s.oldest e false] }
  else { s.pop with sendFailCount := 0, log := s.log ++ [.timedOut s.oldest e true] }

/-- Any other code: a durable client stays, an ephemeral one is torn down. -/
def fail (s : Outgoing cfg) (e : Entry Origin) : Outgoing cfg :=
  match s.lifetime with
  | .durable => { s with sendFailCount := 0, log := s.log ++ [.fatal s.oldest e] }
  | .ephemeral => { s with inUse := false, log := s.log ++ [.fatal s.oldest e, .aborted] }

/--
The flush loop, bounded by the number of queued frames.  `rcs` are the results of the
send seam, which succeeds once they are used up.
-/
def flushLoop : Nat → List BbErr → Outgoing cfg → Outgoing cfg
  | 0, _, s => s
  | fuel + 1, rcs, s =>
    match s.queue.peekOldest with
    | .error _ => s
    | .ok e =>
      if rcs.headD .ok = .ok then flushLoop fuel rcs.tail (s.accept e)
      else if rcs.headD .ok = .timeout then s.timeOut e
      else s.fail e

/-- The flush phase. -/
def flush (s : Outgoing cfg) (rcs : List BbErr) : Outgoing cfg :=
  s.flushLoop s.queue.count rcs

/-- What a sweep does to the outbound side. -/
inductive Step where
  | push (e : Entry Origin)
  | flush (rcs : List BbErr)

/-- One step; nothing touches the slot of a client that was torn down. -/
def step (s : Outgoing cfg) (a : Step) : Outgoing cfg :=
  if s.inUse = false then s
  else
    match a with
    | .push e => s.push e
    | .flush rcs => s.flush rcs

/-! ## One push -/

/-- The queued frames are the last ones pushed. -/
def Lined (s : Outgoing cfg) : Prop :=
  s.queue.contents <:+ s.pushed

theorem oldest_eq {s : Outgoing cfg} {gone : List (Entry Origin)}
    (h : gone ++ s.queue.contents = s.pushed) : s.oldest = gone.length := by
  have hlength := congrArg List.length h
  rw [List.length_append, BoundedRing.length_contents] at hlength
  unfold oldest
  omega

theorem pushed_oldest {s : Outgoing cfg} (h : s.Lined) {e : Entry Origin}
    {rest : List (Entry Origin)} (hcontents : s.queue.contents = e :: rest) :
    s.pushed[s.oldest]? = some e := by
  obtain ⟨gone, hgone⟩ := h
  rw [oldest_eq hgone, ← hgone, hcontents]
  simp

theorem push_refused {s : Outgoing cfg} {e : Entry Origin} (hlen : ¬ e.len ≤ cfg.outboundEntryMax) :
    (s.push e).queue.contents = s.queue.contents ∧ (s.push e).pushed = s.pushed := by
  have hlong : s.queue.ring.maxEntry < e.len := by
    rw [s.queue.maxEntry_eq]
    exact Nat.lt_of_not_le hlen
  refine ⟨?_, if_neg hlen⟩
  show (s.queue.ring.push e).2.contents = s.queue.ring.contents
  rw [Ring.push_of_too_long hlong]
  rfl

theorem push_contents {s : Outgoing cfg} {e : Entry Origin} (hlen : e.len ≤ cfg.outboundEntryMax) :
    (s.push e).queue.contents = s.queue.kept e.len ++ [e] ∧
      (s.push e).pushed = s.pushed ++ [e] :=
  ⟨s.queue.push_contents hlen, if_pos hlen⟩

theorem lined_push {s : Outgoing cfg} (h : s.Lined) (e : Entry Origin) : (s.push e).Lined := by
  unfold Lined
  by_cases hlen : e.len ≤ cfg.outboundEntryMax
  · obtain ⟨hcontents, hpushed⟩ := push_contents (s := s) hlen
    obtain ⟨gone, hgone⟩ := h
    rw [hcontents, hpushed, ← hgone, ← s.queue.evicted_append_kept e.len]
    exact ⟨gone ++ s.queue.evicted e.len, by simp⟩
  · obtain ⟨hcontents, hpushed⟩ := push_refused (s := s) hlen
    rw [hcontents, hpushed]
    exact h

theorem lined_pop {s : Outgoing cfg} (h : s.Lined) : s.pop.Lined := by
  unfold Lined pop
  rw [BoundedRing.popOldest_contents]
  exact (List.tail_suffix _).trans h

theorem oldest_pop {s : Outgoing cfg} (h : s.Lined) {e : Entry Origin} {rest : List (Entry Origin)}
    (hcontents : s.queue.contents = e :: rest) : s.pop.oldest = s.oldest + 1 := by
  obtain ⟨gone, hgone⟩ := h
  have hpop : (gone ++ [e]) ++ s.pop.queue.contents = s.pop.pushed := by
    unfold pop
    rw [BoundedRing.popOldest_contents, hcontents]
    simp only [List.tail_cons, List.append_assoc, List.singleton_append]
    rw [← hcontents, hgone]
  rw [oldest_eq hgone, oldest_eq hpop]
  simp

end Outgoing
end DataHttp
end Breadboard
