import Breadboard.Core.Basics
import Breadboard.Foundations.SerialNumber
import Mathlib.Logic.Function.Basic

/-!
# bb_log - the console writer and bb_log_flush

Log lines go through a bounded queue to the writer task.  A flush puts a marker
with a sequence number behind them and waits on a binary semaphore, which the
writer gives once for every marker it drains.  A flush that times out leaves its
marker behind, so a later flush may take a give that was never meant for it; it
tells the two apart by the sequence number that the writer publishes before each
give.

A step is one queue or semaphore operation, one write of the writer, one store of
a shared variable or one test of the clock; producers, flush callers, the writer
and the clock interleave freely.  Sequence numbers and
ticks are seen modulo `2 ^ 32` where the code compares them.

Main results:

- Theorem `seqReached_iff`: the comparison of sequence numbers.
- Theorem `waitDecide_true_eq`: what a flush that has taken a give decides.
-/

namespace Breadboard
namespace Log

open Foundations

/-- `log_writer_msg_t`: a line, or the marker of a flush. -/
inductive Msg (α : Type) where
  | line (l : α)
  | marker (seq : Nat)
  deriving DecidableEq

/-- `bb_log_flush_wait_step_t`. -/
inductive WaitStep where
  | done
  | retry
  | timeout
  deriving Repr, DecidableEq

/-- `bb_log_flush_seq_reached`. -/
def seqReached (completedSeq targetSeq : Nat) : Bool :=
  ¬ signedDiff (UInt32.ofNat completedSeq) (UInt32.ofNat targetSeq) < 0

/-- `bb_log_flush_wait_decide`. -/
def waitDecide (takeSucceeded : Bool) (completedSeq targetSeq : Nat) : WaitStep :=
  if takeSucceeded = false then .timeout
  else if seqReached completedSeq targetSeq then .done
  else .retry

/-- `bb_log_flush_remaining_ms`. -/
def remainingMs (budgetMs elapsedMs : Nat) : Nat :=
  if elapsedMs < budgetMs then budgetMs - elapsedMs else 0

/-- `LOG_FLUSH_TIMEOUT_MS`. -/
def flushTimeoutMs : Nat := 1000

/-- What the build fixes: the queue length, the tick period and the tick rate. -/
structure Build where
  queueLen : Nat
  tickPeriodMs : Nat
  tickRateHz : Nat

/-- Where the loop of `s_writer_task_fn` is. -/
inductive WriterPc (α : Type) where
  | waiting
  | holding (m : Msg α)
  /-- The number of the marker is published; `fflush` is next. -/
  | flushing (seq : Nat)
  | giving (seq : Nat)
  deriving DecidableEq

/-- Where a task is in `bb_log_flush`. -/
inductive FlushPc where
  | idle
  /-- Waits for `s_flush_lock`. -/
  | locking
  /-- Has drawn its number; its marker is not on the queue yet. -/
  | sending (seq : Nat)
  /-- Its marker is on the queue; it reads the start tick next. -/
  | sent (seq : Nat)
  /-- Tests the clock. -/
  | testing (seq startTick : Nat)
  /-- Takes the semaphore, and blocks for it up to a tick. -/
  | taking (seq startTick untilTick : Nat)
  /-- Has taken a give. -/
  | deciding (seq startTick : Nat)
  | unlocking (rc : BbErr)
  deriving DecidableEq

/--
The shared variables, the writer and the callers.  What has been drained, and the marker of
the last give, are not part of the program.
-/
structure State (α τ : Type) where
  queue : List (Msg α)
  writer : WriterPc α
  /-- What has been written to stdout. -/
  written : List α
  /-- `s_flush_done`. -/
  sem : Bool
  /-- `s_flush_last_completed_seq`. -/
  completed : Nat
  /-- `s_flush_next_seq`. -/
  nextSeq : Nat
  /-- The holder of `s_flush_lock`. -/
  lock : Option τ
  timeouts : Nat
  dropped : Nat
  now : Nat
  pc : τ → FlushPc
  drained : List (Msg α)
  given : Nat

/-- After `bb_log_stream_init`. -/
def State.init (α τ : Type) : State α τ where
  queue := []
  writer := .waiting
  written := []
  sem := false
  completed := 0
  nextSeq := 0
  lock := none
  timeouts := 0
  dropped := 0
  now := 0
  pc := fun _ => .idle
  drained := []
  given := 0

inductive Action (α τ : Type) where
  /-- A producer logs a line. -/
  | log (l : α)
  /-- The writer goes on. -/
  | write
  | tick
  /-- A task calls `bb_log_flush`. -/
  | call (t : τ)
  /-- The call goes on. -/
  | advance (t : τ)
  /-- The blocking operation the call is at runs into its timeout. -/
  | expire (t : τ)
  deriving DecidableEq

variable {α τ : Type} [DecidableEq τ] (build : Build)

/-- The call of a task goes on at another point. -/
def State.goto (s : State α τ) (t : τ) (pc : FlushPc) : State α τ :=
  { s with pc := Function.update s.pc t pc }

@[simp] theorem goto_pc_self (s : State α τ) (t : τ) (pc : FlushPc) : (s.goto t pc).pc t = pc :=
  Function.update_self t _ s.pc

theorem goto_pc_of_ne (s : State α τ) {t u : τ} (hne : u ≠ t) (pc : FlushPc) :
    (s.goto t pc).pc u = s.pc u :=
  Function.update_of_ne hne _ s.pc

/-- The call returns `BB_ERR_TIMEOUT`, and counts it. -/
def State.giveUp (s : State α τ) (t : τ) : State α τ :=
  { s with timeouts := s.timeouts + 1 }.goto t (.unlocking .timeout)

/-- `remaining_ms` at the head of the wait loop. -/
def State.remaining (s : State α τ) (startTick : Nat) : Nat :=
  remainingMs flushTimeoutMs ((s.now - startTick) * build.tickPeriodMs % 2 ^ 32)

/-- `block_ticks`: at least one. -/
def blockTicks (remaining : Nat) : Nat :=
  max 1 (remaining * build.tickRateHz / 1000)

/-- `s_log_vprintf` and `bb_log_emit`: enqueue a line, or drop it. -/
def logLine (s : State α τ) (l : α) : State α τ :=
  if s.queue.length < build.queueLen then { s with queue := s.queue ++ [Msg.line l] }
  else { s with dropped := s.dropped + 1 }

/-- One step of `s_writer_task_fn`. -/
def writerStep (s : State α τ) : State α τ :=
  match s.writer with
  | .waiting =>
    match s.queue with
    | [] => s
    | m :: rest => { s with queue := rest, writer := .holding m }
  | .holding (.line l) =>
    { s with written := s.written ++ [l], drained := s.drained ++ [Msg.line l], writer := .waiting }
  | .holding (.marker seq) =>
    { s with completed := seq, drained := s.drained ++ [Msg.marker seq], writer := .flushing seq }
  | .flushing seq => { s with writer := .giving seq }
  | .giving seq => { s with sem := true, given := seq, writer := .waiting }

/-- One step of `bb_log_flush` that does not run into a timeout. -/
def flushStep (s : State α τ) (t : τ) : State α τ :=
  match s.pc t with
  | .idle => s
  | .locking =>
    match s.lock with
    | some _ => s
    | none =>
      { s with lock := some t, nextSeq := s.nextSeq + 1 }.goto t (.sending (s.nextSeq + 1))
  | .sending seq =>
    if s.queue.length < build.queueLen then
      { s with queue := s.queue ++ [Msg.marker seq] }.goto t (.sent seq)
    else s
  | .sent seq => s.goto t (.testing seq s.now)
  | .testing seq startTick =>
    if s.remaining build startTick = 0 then s.giveUp t
    else
      s.goto t (.taking seq startTick (s.now + blockTicks build (s.remaining build startTick)))
  | .taking seq startTick _ =>
    if s.sem then { s with sem := false }.goto t (.deciding seq startTick) else s
  | .deciding seq startTick =>
    match waitDecide true s.completed seq with
    | .done => s.goto t (.unlocking .ok)
    | .retry => s.goto t (.testing seq startTick)
    | .timeout => s.giveUp t
  | .unlocking _ => { s with lock := none }.goto t .idle

/-- The blocking operation of a call runs into its timeout. -/
def expireStep (s : State α τ) (t : τ) : State α τ :=
  match s.pc t with
  | .locking =>
    match s.lock with
    | some _ => { s with timeouts := s.timeouts + 1 }.goto t .idle
    | none => s
  | .sending _ => if s.queue.length < build.queueLen then s else s.giveUp t
  | .taking seq _ untilTick =>
    if s.sem = false ∧ untilTick ≤ s.now then
      match waitDecide false s.completed seq with
      | .timeout => s.giveUp t
      | _ => s
    else s
  | _ => s

def step (s : State α τ) : Action α τ → State α τ
  | .log l => logLine build s l
  | .write => writerStep s
  | .tick => { s with now := s.now + 1 }
  | .call t =>
    match s.pc t with
    | .idle => s.goto t .locking
    | _ => s
  | .advance t => flushStep build s t
  | .expire t => expireStep build s t

/-! ## What a flush reports -/

/-- The number of a flush whose marker is on the queue, until its wait ends. -/
def FlushPc.waits? : FlushPc → Option Nat
  | .sent seq | .testing seq _ | .taking seq _ _ | .deciding seq _ => some seq
  | _ => none

/-- How many of its own steps are at most left of the wait once its give is there. -/
def FlushPc.stepsLeft : FlushPc → Nat
  | .sent _ => 4
  | .testing _ _ => 3
  | .taking _ _ _ => 2
  | .deciding _ _ => 1
  | _ => 0

/-- A message is a line. -/
def Msg.line? : Msg α → Option α
  | .line l => some l
  | .marker _ => none

/-- A message is a marker. -/
def Msg.seq? : Msg α → Option Nat
  | .line _ => none
  | .marker seq => some seq

/-- The message the writer has received but not worked off. -/
def WriterPc.held : WriterPc α → List (Msg α)
  | .holding m => [m]
  | _ => []

omit [DecidableEq τ] in
/-- All messages that have been enqueued, in order. -/
def State.accepted (s : State α τ) : List (Msg α) :=
  s.drained ++ s.writer.held ++ s.queue

omit [DecidableEq τ] in
/-- The lines enqueued before the marker of a flush. -/
def State.linesBefore (s : State α τ) (seq : Nat) : List α :=
  (s.accepted.takeWhile fun m => m.seq? ≠ some seq).filterMap Msg.line?

/-- The end of the wait of a flush: its status, and what was the case at that moment. -/
structure Verdict (α : Type) where
  rc : BbErr
  /-- The lines enqueued before its marker. -/
  before : List α
  written : List α
  /-- Its marker was drained and the give delivered. -/
  delivered : Bool
  /-- The clock test found no budget left. -/
  spent : Bool

omit [DecidableEq τ] in
def State.verdict (s : State α τ) (seq : Nat) (rc : BbErr) (spent : Bool) : Verdict α where
  rc := rc
  before := s.linesBefore seq
  written := s.written
  delivered := seq ≤ s.given
  spent := spent

omit [DecidableEq τ] in
/-- The verdict of a step, if the step ends a wait. -/
def verdicts (s : State α τ) : Action α τ → List (Verdict α)
  | .advance t =>
    match s.pc t with
    | .testing seq startTick =>
      if s.remaining build startTick = 0 then [s.verdict seq .timeout true] else []
    | .deciding seq _ =>
      match waitDecide true s.completed seq with
      | .done => [s.verdict seq .ok false]
      | .retry => []
      | .timeout => [s.verdict seq .timeout false]
    | _ => []
  | .expire t =>
    match s.pc t with
    | .taking seq _ untilTick =>
      if s.sem = false ∧ untilTick ≤ s.now then [s.verdict seq .timeout false] else []
    | _ => []
  | _ => []

/-! ## The comparison -/

/-- Within half of the range the comparison is that of the unbounded numbers. -/
theorem seqReached_iff {completedSeq targetSeq : Nat} (hle : completedSeq ≤ targetSeq)
    (hnear : targetSeq < completedSeq + 2 ^ 31) :
    seqReached completedSeq targetSeq = true ↔ targetSeq ≤ completedSeq := by
  have hiff := @signedDiff_neg_iff_lt completedSeq targetSeq (by omega) (by omega)
  unfold seqReached
  rw [decide_eq_true_iff, hiff]
  omega

theorem waitDecide_true_eq {completedSeq targetSeq : Nat} (hle : completedSeq ≤ targetSeq)
    (hnear : targetSeq < completedSeq + 2 ^ 31) :
    waitDecide true completedSeq targetSeq =
      if targetSeq ≤ completedSeq then .done else .retry := by
  unfold waitDecide
  by_cases hreached : targetSeq ≤ completedSeq
  · simp [(seqReached_iff hle hnear).mpr hreached, hreached]
  · have hnot : seqReached completedSeq targetSeq = false := by
      rw [← Bool.not_eq_true, seqReached_iff hle hnear]
      exact hreached
    simp [hnot, hreached]

end Log
end Breadboard
