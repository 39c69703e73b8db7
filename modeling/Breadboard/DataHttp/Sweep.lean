import Breadboard.DataHttp.Drain

/-!
# bb_data_http - sweeps and whole runs

The module state, `bb_data_http_push_pump` and `bb_data_http_sweep_step`,
and the actions a run is made of: attaching keys, acquiring and releasing
clients, installing seams, publications, the passage of time, and sweeps.

One task sweeps; producers publish at any seam call inside a sweep and between
sweeps.  The interleavings of several `push_pump` callers have their own
models, over the same locked sections.
-/

namespace Breadboard
namespace DataHttp

open Queue Foundations

variable {cfg : Config}

/-! ## The flush loop -/

/-- A frame the send seam accepted. -/
def Outbox.popHanded (tag : Origin) (o : Outbox cfg) : Outbox cfg :=
  { o with queue := o.queue.popOldest, handed := o.handed ++ [tag] }

/-- A frame dropped after `CONFIG_BB_DATA_HTTP_SEND_FAIL_MAX` retriable failures. -/
def Outbox.popFailed (tag : Origin) (o : Outbox cfg) : Outbox cfg :=
  { o with queue := o.queue.popOldest, failed := o.failed ++ [tag] }

namespace Client

/-- A retriable send failure of the oldest frame. -/
def sendTimedOut (e : Entry Origin) (c : Client cfg) : Client cfg :=
  if c.sendFailCount + 1 < cfg.sendFailMax then { c with sendFailCount := c.sendFailCount + 1 }
  else { c with sendFailCount := 0, out := c.out.popFailed e.tag }

/-- A fatal send failure: a durable client stays, an ephemeral one is torn down. -/
def sendFatal (seams : Seams) (env : Env cfg) (c : Client cfg) : Env cfg × Option (Client cfg) :=
  match c.lifetime with
  | .durable => (env, some { c with sendFailCount := 0 })
  | .ephemeral => (if c.hasAbortFn ∨ seams.abort then env.call.2 else env, none)

/-- The flush loop, bounded by the number of queued frames; `none` is a released client. -/
def flushLoop (seams : Seams) : Nat → Env cfg → Client cfg → Env cfg × Option (Client cfg)
  | 0, env, c => (env, some c)
  | fuel + 1, env, c =>
    match c.out.queue.peekOldest with
    | .error _ => (env, some c)
    | .ok e =>
      let r := env.call
      if r.1 = .ok then
        flushLoop seams fuel r.2 { c with sendFailCount := 0, out := c.out.popHanded e.tag }
      else if r.1 = .timeout then (r.2, some (c.sendTimedOut e))
      else c.sendFatal seams r.2

/-- The flush phase: without any send seam, warn once about frames that cannot leave. -/
def flush (seams : Seams) (env : Env cfg) (c : Client cfg) : Env cfg × Option (Client cfg) :=
  if c.hasSendFn = false ∧ seams.send = false then
    (env, some { c with warnedNoSendFn := c.warnedNoSendFn || 0 < c.out.queue.count })
  else c.flushLoop seams c.out.queue.count env

/-- The detect phase of one client for one STATE key. -/
def detect (slot : AttachSlot) (k : Nat) (gen : UInt32) (c : Client cfg) : Client cfg :=
  if c.sub.admits slot then { c with poll := c.poll.map (·.detect k gen) } else c

/-- The EVENT drain of a client with a push block. -/
def drainEvents (table : AttachTable) (er : EventRing cfg) (c : Client cfg) : Client cfg :=
  match c.push with
  | none => c
  | some p =>
    let f := Feed.drainEvents table c.sub er { push := p, out := c.out }
    { c with push := some f.push, out := f.out }

end Client

/-! ## The module state -/

/-- The module state with its surroundings; `ticks` numbers attach and acquire calls. -/
structure World (cfg : Config) where
  seams : Seams
  table : AttachTable
  events : EventRing cfg
  clients : Clients cfg
  renderFailCount : UInt32
  env : Env cfg
  ticks : Nat

namespace World

/-- The state after `bb_data_http_init`. -/
def init (seams : Seams) (sources : Bytes → Source cfg) (clock : Nat) : World cfg where
  seams := seams
  table := []
  events := EventRing.init cfg
  clients := fun _ => none
  renderFailCount := 0
  env := { sources := sources, clock := clock, script := [] }
  ticks := 0

/-- A module with every seam but abort installed and all keys at generation zero. -/
def fresh (cfg : Config) : World cfg :=
  init { render := true, gen := true, send := true, abort := false }
    (fun _ => { gen := 0, frame := Frame.empty cfg }) 0

/-- The detect phase for attach index `k`. -/
def detectKey (w : World cfg) (k : Nat) : World cfg :=
  match w.table[k]? with
  | none => w
  | some slot =>
    if slot.kind = .event then w
    else
      let r := w.env.genFn slot.key
      match r.1 with
      | none => { w with env := r.2 }
      | some gen =>
        { w with
          env := r.2
          clients := fun i => (w.clients i).map (·.detect slot k gen) }

/-- The detect phase: every attached STATE key, in registration order. -/
def detect (w : World cfg) : World cfg :=
  if w.seams.gen = false then w else forRange detectKey w w.table.length

/-- The unlocked render and the locked COMMIT or REVOKE after a successful CLAIM. -/
def pumpClaimed (slot : AttachSlot) (k : Nat) (gen prevGen : UInt32) (w : World cfg) : World cfg :=
  if w.seams.render = false then w
  else
    let r := w.env.renderFn slot.key
    match r.1 with
    | none =>
      { w with
        env := r.2
        renderFailCount := w.renderFailCount + 1
        events := w.events.revoke k gen prevGen }
    | some frame => { w with env := r.2, events := w.events.commit k gen frame }

/-- The body of `bb_data_http_push_pump` for attach index `k`. -/
def pumpKey (w : World cfg) (k : Nat) : World cfg :=
  match w.table[k]? with
  | none => w
  | some slot =>
    if slot.kind ≠ .event then w
    else
      let r := w.env.genFn slot.key
      match r.1 with
      | none => { w with env := r.2 }
      | some gen =>
        let claim := w.events.claim k gen
        match claim.1 with
        | none => { w with env := r.2 }
        | some prevGen => { w with env := r.2, events := claim.2 }.pumpClaimed slot k gen prevGen

/-- `bb_data_http_push_pump`. -/
def pushPump (w : World cfg) : World cfg :=
  if w.seams.gen = false then w else forRange pumpKey w w.table.length

/-- The STATE drain of a client with a poll block. -/
def drainState (w : World cfg) (c : Client cfg) : World cfg × Client cfg :=
  match c.poll with
  | none => (w, c)
  | some p =>
    let d := forRange (StateDrain.drainKey w.seams w.table)
      { env := w.env, renderFailCount := w.renderFailCount, poll := p, out := c.out }
      w.table.length
    ({ w with env := d.env, renderFailCount := d.renderFailCount },
      { c with poll := some d.poll, out := d.out })

/-- The STATE drain leaves the rest of the module state alone. -/
theorem drainState_frame (w : World cfg) (c : Client cfg) :
    (w.drainState c).1.table = w.table ∧ (w.drainState c).1.events = w.events ∧
      (w.drainState c).1.clients = w.clients ∧ (w.drainState c).1.seams = w.seams ∧
      (w.drainState c).1.ticks = w.ticks := by
  unfold drainState
  split <;> exact ⟨rfl, rfl, rfl, rfl, rfl⟩

/-- Drain and flush client `i`; a pending release is honoured instead. -/
def serve (w : World cfg) (i : Nat) : World cfg :=
  match w.clients i with
  | none => w
  | some c =>
    if c.pendingRelease then { w with clients := Function.update w.clients i none }
    else
      let drained := w.drainState c
      let fed := drained.2.drainEvents w.table w.events
      let flushed := fed.flush w.seams drained.1.env
      { drained.1 with
        env := flushed.1
        clients := Function.update w.clients i flushed.2 }

/-- `bb_data_http_sweep_step`. -/
def sweepStep (w : World cfg) : World cfg :=
  forRange serve w.detect.pushPump cfg.maxClients

end World

/-! ## Runs -/

/-- What can happen to the module. -/
inductive Action (cfg : Config) where
  | attach (a : AttachCfg)
  | acquire (c : ClientCfg)
  | release (i : Nat)
  | requestRelease (i : Nat)
  | setSeams (s : Seams)
  | publish (b : Bump cfg)
  | elapse (ms : Nat)
  | sweep (script : List (Call cfg))

namespace World

/-- One action. -/
def step (w : World cfg) : Action cfg → World cfg
  | .attach a =>
    { w with table := (DataHttp.attach cfg (w.ticks + 1) w.table a).2, ticks := w.ticks + 1 }
  | .acquire c =>
    match DataHttp.acquire w.table w.events (w.ticks + 1) w.clients c with
    | .error _ => w
    | .ok (i, client) =>
      { w with
        clients := Function.update w.clients i (some client)
        ticks := w.ticks + 1 }
  | .release i => { w with clients := Function.update w.clients i none }
  | .requestRelease i =>
    { w with
      clients := Function.update w.clients i
        ((w.clients i).map fun c => { c with pendingRelease := true }) }
  | .setSeams s => { w with seams := s }
  | .publish b => { w with env := w.env.publish b }
  | .elapse ms => { w with env := w.env.elapse ms }
  | .sweep script => { w with env := { w.env with script := script } }.sweepStep

/-- The state after a run of a fresh module. -/
def after (as : List (Action cfg)) : World cfg :=
  run step (fresh cfg) as

end World
end DataHttp
end Breadboard
