import Breadboard.DataHttp.Client
import Breadboard.Foundations.Decimal

/-!
# bb_data_http - draining into a client's outbound queue

The two producers of a client's outbound queue: the EVENT drain
(`drain_client_events`), which reads the shared ring behind the client's
cursor, and the STATE drain of `bb_data_http_sweep_step`, which renders dirty
keys.  The EVENT drain checks for room and counts what it cannot queue; the STATE
drain pushes on an evicting queue.
-/

namespace Breadboard
namespace DataHttp

open Queue Foundations

variable {cfg : Config}

/-! ## The EVENT drain -/

/-- `BB_DATA_HTTP_DROP_MARKER_ID`. -/
def dropMarkerId : UInt32 := 4294967295

/-- The drop marker's text: an object whose one key `dropped` holds the count. -/
def markerText (dropped : UInt32) : Bytes :=
  [123, 34, 100, 114, 111, 112, 112, 101, 100, 34, 58] ++ Decimal.decimal dropped.toNat ++ [125]

/-- The next drop marker frame of a client. -/
def PushState.markerEntry (p : PushState) : Entry Origin :=
  { id := dropMarkerId, ts := 0, data := markerText p.dropped, tag := .marker p.markers }

/-- The outbound copy of a ring entry. -/
def outboundCopy (e : Entry Nat) : Entry Origin :=
  { id := e.id, ts := e.ts, data := e.data, tag := .event e.tag }

/-- What the EVENT drain works on: the push block and the outbound queue. -/
structure Feed (cfg : Config) where
  push : PushState
  out : Outbox cfg

namespace Feed

/-- `try_flush_event_drop_marker`. -/
def tryFlushMarker (f : Feed cfg) : Feed cfg :=
  if f.push.dropMarkerPending = false then f
  else if f.out.hasRoom (markerText f.push.dropped).length = false then f
  else
    { push := { f.push with dropMarkerPending := false, markers := f.push.markers + 1 }
      out := f.out.push f.push.markerEntry }

/-- Entries between the cursor and the oldest ring entry are gone: count them as dropped. -/
def countLag (oldestSeq : UInt32) (f : Feed cfg) : Feed cfg :=
  if signedDiff f.push.cursor oldestSeq < 0 then
    { f with
      push :=
        { f.push with
          dropped := f.push.dropped + (oldestSeq - f.push.cursor)
          dropMarkerPending := true
          cursor := oldestSeq
          cursorSeq := f.push.cursorSeq + (oldestSeq - f.push.cursor).toNat
          droppedSeqs := f.push.droppedSeqs ++
            List.range' f.push.cursorSeq (oldestSeq - f.push.cursor).toNat } }
  else f

/-- `c->push->cursor = seq + 1`. -/
def advance (seq : UInt32) (f : Feed cfg) : Feed cfg :=
  { f with
    push :=
      { f.push with
        cursor := seq + 1
        cursorSeq := f.push.cursorSeq + (seq + 1 - f.push.cursor).toNat } }

/-- An entry the client is not subscribed to is passed over. -/
def passOver (e : Entry Nat) (slot : Option AttachSlot) (f : Feed cfg) : Feed cfg :=
  { f with push := { f.push with unmatched := f.push.unmatched ++ [(e.tag, slot)] } }

/-- An entry without room in the outbound queue is counted as dropped. -/
def countDrop (e : Entry Nat) (f : Feed cfg) : Feed cfg :=
  { f with
    push :=
      { f.push with
        dropped := f.push.dropped + 1
        dropMarkerPending := true
        droppedSeqs := f.push.droppedSeqs ++ [e.tag] } }

/-- Queue a copy of a ring entry. -/
def enqueue (e : Entry Nat) (f : Feed cfg) : Feed cfg :=
  { f with out := f.out.push (outboundCopy e) }

/-- The part of the drain loop after a successful peek of `e` under `seq`. -/
def drainEntry (table : AttachTable) (sub : Subscription) (seq : UInt32) (e : Entry Nat)
    (f : Feed cfg) : Feed cfg :=
  match table[e.id.toUInt16.toNat]? with
  | none => (f.advance seq).passOver e none
  | some slot =>
    if sub.admits slot = false then (f.advance seq).passOver e (some slot)
    else
      let marked := (f.advance seq).tryFlushMarker
      if marked.out.hasRoom e.len = false then marked.countDrop e else marked.enqueue e

/-- One iteration of the drain loop against the ring `er`. -/
def drainAt (table : AttachTable) (sub : Subscription) (er : EventRing cfg) (oldestSeq : UInt32)
    (f : Feed cfg) (idx : Nat) : Feed cfg :=
  if signedDiff (oldestSeq + UInt32.ofNat idx) f.push.cursor < 0 then f
  else
    match er.ring.peekAt idx with
    | .error _ => f
    | .ok e => f.drainEntry table sub (oldestSeq + UInt32.ofNat idx) e

/-- `drain_client_events` with no concurrent producer. -/
def drainEvents (table : AttachTable) (sub : Subscription) (er : EventRing cfg) (f : Feed cfg) :
    Feed cfg :=
  let oldestSeq := er.totalPushed - UInt32.ofNat er.ring.count
  forRange (drainAt table sub er oldestSeq) (f.tryFlushMarker.countLag oldestSeq) er.ring.count

end Feed

/-! ## The STATE drain -/

/-- `bb_str_hash32(slot->key) % slot->min_interval_ms`. -/
def AttachSlot.phase (slot : AttachSlot) : UInt32 :=
  hash32 slot.key % slot.minIntervalMs

namespace PollState

/-- The reschedule after a render, for keys with a cadence. -/
def reschedule (slot : AttachSlot) (k : Nat) (env : Env cfg) (p : PollState cfg) : PollState cfg :=
  if 0 < slot.minIntervalMs then
    { p with
      nextDueMs := Function.update p.nextDueMs k (env.nowMs + slot.minIntervalMs + slot.phase)
      neverRenderedMask := clearBit p.neverRenderedMask k
      due := Function.update p.due k
        (some (env.clock + slot.minIntervalMs.toNat + slot.phase.toNat)) }
  else p

/-- The cadence gate: a key with a cadence that was rendered before and is not due yet. -/
def withheld (slot : AttachSlot) (k : Nat) (env : Env cfg) (p : PollState cfg) : Bool :=
  0 < slot.minIntervalMs ∧ p.neverRenderedMask.getLsbD k = false ∧
    0 < signedDiff (p.nextDueMs k) env.nowMs

/-- Record the gate decision of a key with a cadence. -/
def logGate (slot : AttachSlot) (k : Nat) (env : Env cfg) (p : PollState cfg) : PollState cfg :=
  if 0 < slot.minIntervalMs then
    { p with
      gates := p.gates ++
        [{ k := k, now := env.clock, interval := slot.minIntervalMs, phase := slot.phase,
           withheld := p.withheld slot k env, lastRender := p.lastRender k, due := p.due k }] }
  else p

/-- The dirty bit is cleared. -/
def clean (k : Nat) (p : PollState cfg) : PollState cfg :=
  { p with dirtyMask := clearBit p.dirtyMask k }

/-- Record a successful render. -/
def logRender (k : Nat) (env : Env cfg) (frame : Frame cfg) (p : PollState cfg) : PollState cfg :=
  { p with
    lastFrame := Function.update p.lastFrame k (some frame)
    renders := Function.update p.renders k (p.renders k + 1)
    lastRender := Function.update p.lastRender k (some env.clock) }

/-- The detect phase for one key: a changed generation is remembered and the key is dirty. -/
def detect (k : Nat) (gen : UInt32) (p : PollState cfg) : PollState cfg :=
  if p.seenGen k = gen then p
  else
    { p with
      seenGen := Function.update p.seenGen k gen
      dirtyMask := setBit p.dirtyMask k }

end PollState

/-- A STATE push: it may evict whatever is oldest in the outbound queue. -/
def Outbox.pushState (k : Nat) (frame : Frame cfg) (o : Outbox cfg) : Outbox cfg :=
  { o.push { id := UInt32.ofNat k, ts := 0, data := frame.1, tag := .state k } with
    statePushes := o.statePushes ++ [(o.queue.contents, frame.1.length)] }

/-- What the STATE drain of one client works on. -/
structure StateDrain (cfg : Config) where
  env : Env cfg
  renderFailCount : UInt32
  poll : PollState cfg
  out : Outbox cfg

namespace StateDrain

/-- A failed render leaves the key dirty. -/
def renderFailed (env : Env cfg) (d : StateDrain cfg) : StateDrain cfg :=
  { d with env := env, renderFailCount := d.renderFailCount + 1 }

/-- A successful render clears the bit, reschedules the key, and queues the frame. -/
def rendered (slot : AttachSlot) (k : Nat) (env : Env cfg) (frame : Frame cfg)
    (d : StateDrain cfg) : StateDrain cfg :=
  { d with
    env := env
    poll := ((d.poll.clean k).reschedule slot k env).logRender k env frame
    out := d.out.pushState k frame }

/-- Render one key past the cadence gate. -/
def renderKey (slot : AttachSlot) (k : Nat) (d : StateDrain cfg) : StateDrain cfg :=
  let r := d.env.renderFn slot.key
  match r.1 with
  | none => d.renderFailed r.2
  | some frame => d.rendered slot k r.2 frame

/-- The STATE drain loop body for attach index `k`. -/
def drainKey (seams : Seams) (table : AttachTable) (d : StateDrain cfg) (k : Nat) :
    StateDrain cfg :=
  if d.poll.dirtyMask.getLsbD k = false then d
  else
    match table[k]? with
    | none => d
    | some slot =>
      if seams.render = false then
        { d with poll := (d.poll.clean k).reschedule slot k d.env }
      else if d.poll.withheld slot k d.env then
        { d with poll := d.poll.logGate slot k d.env }
      else renderKey slot k { d with poll := d.poll.logGate slot k d.env }

end StateDrain
end DataHttp
end Breadboard
