import Breadboard.DataHttp.Sweep
import Breadboard.Foundations.References

/-!
# bb_data_http - connection tables of the ESP-IDF backend

The httpd task connects and disconnects, and runs the queued WS sends; the
broadcaster task probes the SSE peers and sweeps.  One step is a locked section of a
slot table, an acquire, release or release request of the core, or a socket call; the
rest of a sweep, between two of these, belongs to the step before it.  A step carries
what happens meanwhile: the answers of probes and sends, and the script of a sweep's
other seam calls.

A request handle is the number of its connection and is never reused.  Of a
descriptor only its WS sessions matter, and the callbacks of one session run one
after the other on the httpd task: its end and the locked section of
`ws_disconnect_cb` are one step.

Every client of this backend is acquired with its own send and abort functions, so
the transport of its connection tells which ones it has.
-/

namespace Breadboard
namespace DataHttp

open Queue Foundations

variable {cfg : Config}

/-- Which pair of send and abort functions a client was acquired with. -/
inductive Transport where
  | sse
  | ws
  deriving Repr, DecidableEq

/-- The last acquire of a client block; `conn` is proof-only, the connection it was for. -/
structure Holder where
  conn : Nat
  transport : Transport
  deriving Repr, DecidableEq

/-- `bb_data_http_espidf_slot_t` in use. -/
structure SseSlot where
  asyncReq : Nat
  client : Nat
  deriving Repr, DecidableEq

/-- `bb_data_http_espidf_ws_slot_t` in use; `conn` is proof-only, the session's number. -/
structure WsSlot where
  fd : Nat
  client : Nat
  conn : Nat
  deriving Repr, DecidableEq

/--
A queued `async_send_worker` item.  Proof-only: the connection its frame was queued
for, and how many connections there had been when the slot was looked up.
-/
structure Work where
  fd : Nat
  conn : Nat
  since : Nat
  deriving Repr, DecidableEq

/-- Where the httpd task stands inside a connect or disconnect. -/
inductive Httpd where
  | idle
  | sseAcquired (conn client : Nat)
  | wsAcquired (conn fd client : Nat)
  | tableFull (client : Nat) (asyncReq : Option Nat)
  | ending (asyncReq : Nat) (released : Option Nat)
  | wsCleared (slot : Option WsSlot)
  deriving Repr, DecidableEq

/-- The snapshot a send works on outside the lock. -/
inductive Route where
  | sse (asyncReq : Nat)
  | ws (fd since : Nat)
  deriving Repr, DecidableEq

/-- Where the broadcaster goes on after a teardown. -/
inductive Resume where
  | probing (slot : Nat)
  | sweeping (client : Nat)
  deriving Repr, DecidableEq

/-- Where the broadcaster task stands; `conn` is the connection a frame was queued for. -/
inductive Broadcaster where
  | waiting
  | probing (slot : Nat)
  | probe (slot : Nat) (held : SseSlot)
  | dead (slot : Nat) (held : SseSlot)
  | starting
  | sweeping (client : Nat)
  | reaping (client : Nat)
  | flushing (client : Nat)
  | calling (client conn : Nat)
  | sending (client conn : Nat) (route : Route)
  | aborting (client : Nat)
  | releasing (client : Nat) (asyncReq : Option Nat) (back : Resume)
  | ending (asyncReq : Option Nat) (released : Nat) (back : Resume)
  deriving Repr, DecidableEq

/-- Proof-only record of what became of the connections. -/
inductive Event where
  | acquired (conn : Nat)
  | released (conn : Nat)
  | aborted (request : Nat) (released : Option Nat)
  | unrouted (conn : Nat)
  | sseSent (queuedFor sentOn : Nat)
  | wsSent (queuedFor sentOn since : Nat)
  deriving Repr, DecidableEq

/--
What the outside answers to a step of the broadcaster: the probe of a peer, whether a
frame fits the SSE buffer, the result of a socket call, the script of other seam calls.
-/
structure Answer (cfg : Config) where
  alive : Bool
  fits : Bool
  rc : BbErr
  script : List (Call cfg)

/-- What can happen next. -/
inductive Act (cfg : Config) where
  | attach (a : AttachCfg)
  | publish (b : Bump cfg)
  | elapse (ms : Nat)
  | sseConnect (topicFilter : Option Bytes)
  | wsConnect (fd : Nat)
  | wsDisconnect (fd : Nat)
  | wsWork
  | httpd
  | broadcaster (answer : Answer cfg)

/--
The core, both slot tables, the open WS sessions by descriptor, the queued WS sends,
and both tasks.  Proof-only: `accepted` numbers the connections, `log`.
-/
structure Connections (cfg : Config) where
  core : World cfg
  holder : Nat → Holder
  sse : Nat → Option SseSlot
  ws : Nat → Option WsSlot
  sessions : Nat → Option Nat
  work : List Work
  httpd : Httpd
  broadcaster : Broadcaster
  accepted : Nat
  log : List Event

/-- One client of the core is rewritten, or its block freed. -/
def World.setClient (w : World cfg) (i : Nat) (c : Option (Client cfg)) : World cfg :=
  { w with clients := Function.update w.clients i c }

/-- `bb_data_http_sweep_step` up to its flush: the STATE and the EVENT drain of a client. -/
def World.drainClient (w : World cfg) (i : Nat) (c : Client cfg) : World cfg :=
  let drained := w.drainState c
  drained.1.setClient i (some (drained.2.drainEvents w.table w.events))

namespace Connections

/-- Nothing connected, both tasks between two rounds. -/
def init (seams : Seams) (sources : Bytes → Source cfg) (clock : Nat) : Connections cfg where
  core := World.init seams sources clock
  holder := fun _ => { conn := 0, transport := .sse }
  sse := fun _ => none
  ws := fun _ => none
  sessions := fun _ => none
  work := []
  httpd := .idle
  broadcaster := .waiting
  accepted := 0
  log := []

/-! ## Steps both tasks share -/

/-- `bb_data_http_client_acquire` with a configuration that sets no more than the filter. -/
def acquire (s : Connections cfg) (topicFilter : Option Bytes) :
    Except BbErr (Nat × Client cfg) :=
  DataHttp.acquire s.core.table s.core.events (s.core.ticks + 1) s.core.clients
    { topicFilter := topicFilter
      subscribeMask := 0
      nonBlocking := false
      hasSendFn := true
      hasAbortFn := true
      lifetime := .ephemeral }

/-- The acquired client in place, for the connection that has the next number. -/
def take (s : Connections cfg) (i : Nat) (client : Client cfg) (t : Transport) :
    Connections cfg :=
  { s with
    core := { s.core.setClient i (some client) with ticks := s.core.ticks + 1 }
    holder := Function.update s.holder i { conn := s.accepted, transport := t }
    accepted := s.accepted + 1
    log := s.log ++ [.acquired s.accepted] }

/-- `bb_data_http_client_release`. -/
def release (s : Connections cfg) (i : Nat) : Connections cfg :=
  { s with
    core := s.core.setClient i none
    log := s.log ++ [.released (s.holder i).conn] }

/-- The log grows. -/
def note (s : Connections cfg) (e : Event) : Connections cfg :=
  { s with log := s.log ++ [e] }

/-- `bb_http_req_async_abort` after the release of the client of `released`, if any. -/
def abort (s : Connections cfg) (asyncReq : Nat) (released : Option Nat) : Connections cfg :=
  s.note (.aborted asyncReq released)

/-- `httpd_queue_work`. -/
def queueWork (s : Connections cfg) (x : Work) : Connections cfg :=
  { s with work := s.work ++ [x] }

/-! ## The httpd task -/

/-- `bb_data_http_espidf_client_connect` to its acquire; a refused request is aborted next. -/
def sseConnect (s : Connections cfg) (topicFilter : Option Bytes) : Connections cfg :=
  match s.acquire topicFilter with
  | .error _ => { s with httpd := .ending s.accepted none, accepted := s.accepted + 1 }
  | .ok (i, client) => { s.take i client .sse with httpd := .sseAcquired s.accepted i }

/-- A WS handshake and `ws_connect_cb` up to its acquire; a full pool leaves no egress. -/
def wsConnect (s : Connections cfg) (fd : Nat) : Connections cfg :=
  let sessions := Function.update s.sessions fd (some s.accepted)
  match s.acquire none with
  | .error _ => { s with sessions := sessions, accepted := s.accepted + 1 }
  | .ok (i, client) =>
    { s.take i client .ws with sessions := sessions, httpd := .wsAcquired s.accepted fd i }

/-- A WS session ends: the locked section of `ws_disconnect_cb`. -/
def wsDisconnect (s : Connections cfg) (fd : Nat) : Connections cfg :=
  let sessions := Function.update s.sessions fd none
  match findSlot cfg.maxClients s.ws (fun slot => slot.fd = fd) with
  | none => { s with sessions := sessions, httpd := .wsCleared none }
  | some (j, slot) =>
    { s with
      sessions := sessions
      ws := Function.update s.ws j none
      httpd := .wsCleared (some slot) }

/-- `async_send_worker` on the oldest item: a descriptor that is no WS client is skipped. -/
def wsWork (s : Connections cfg) : Connections cfg :=
  match s.work with
  | [] => s
  | x :: rest =>
    match s.sessions x.fd with
    | none => { s with work := rest }
    | some conn => { s.note (.wsSent x.conn conn x.since) with work := rest }

/-- The next step of the callback the httpd task is in. -/
def httpdStep (s : Connections cfg) : Connections cfg :=
  match s.httpd with
  | .idle => s
  | .sseAcquired conn i =>
    match allocSlot cfg.maxClients s.sse with
    | some j =>
      { s with
        sse := Function.update s.sse j (some { asyncReq := conn, client := i })
        httpd := .idle }
    | none => { s with httpd := .tableFull i (some conn) }
  | .wsAcquired conn fd i =>
    match allocSlot cfg.maxClients s.ws with
    | some j =>
      { s with
        ws := Function.update s.ws j (some { fd := fd, client := i, conn := conn })
        httpd := .idle }
    | none => { s with httpd := .tableFull i none }
  | .tableFull i none => { s.release i with httpd := .idle }
  | .tableFull i (some req) =>
    { s.release i with httpd := .ending req (some (s.holder i).conn) }
  | .ending req released => { s.abort req released with httpd := .idle }
  | .wsCleared none => { s with httpd := .idle }
  | .wsCleared (some slot) =>
    { s with
      core := s.core.setClient slot.client
        ((s.core.clients slot.client).map fun c => { c with pendingRelease := true })
      httpd := .idle }

/-! ## The broadcaster task -/

/-- Where a teardown returns to. -/
def resume : Resume → Broadcaster
  | .probing j => .probing j
  | .sweeping i => .sweeping i

/-- `peer_liveness_prepass`: the locked snapshot of the next slot. -/
def probeNext (s : Connections cfg) (j : Nat) : Connections cfg :=
  if j < cfg.maxClients then
    match s.sse j with
    | none => { s with broadcaster := .probing (j + 1) }
    | some slot => { s with broadcaster := .probe j slot }
  else { s with broadcaster := .starting }

/-- `bb_data_http_sweep_step` at its next client: skip, reap, or drain. -/
def sweepNext (s : Connections cfg) (script : List (Call cfg)) (i : Nat) : Connections cfg :=
  if i < cfg.maxClients then
    match s.core.clients i with
    | none => { s with broadcaster := .sweeping (i + 1) }
    | some c =>
      if c.pendingRelease then { s with broadcaster := .reaping i }
      else
        { s with
          core := { s.core with env := { s.core.env with script := script } }.drainClient i c
          broadcaster := .flushing i }
  else { s with broadcaster := .waiting }

/-- The head of the flush loop. -/
def flushNext (s : Connections cfg) (i : Nat) : Connections cfg :=
  match s.core.clients i with
  | none => { s with broadcaster := .sweeping (i + 1) }
  | some c =>
    match c.out.queue.peekOldest with
    | .error _ => { s with broadcaster := .sweeping (i + 1) }
    | .ok _ => { s with broadcaster := .calling i (s.holder i).conn }

/-- The flush loop after its send function returned. -/
def afterSend (s : Connections cfg) (i : Nat) (rc : BbErr) : Connections cfg :=
  match s.core.clients i with
  | none => { s with broadcaster := .sweeping (i + 1) }
  | some c =>
    match c.out.queue.peekOldest with
    | .error _ => { s with broadcaster := .sweeping (i + 1) }
    | .ok e =>
      if rc = .ok then
        { s with
          core := s.core.setClient i
            (some { c with sendFailCount := 0, out := c.out.popHanded e.tag })
          broadcaster := .flushing i }
      else if rc = .timeout then
        { s with
          core := s.core.setClient i (some (c.sendTimedOut e))
          broadcaster := .sweeping (i + 1) }
      else
        match c.lifetime with
        | .durable =>
          { s with
            core := s.core.setClient i (some { c with sendFailCount := 0 })
            broadcaster := .sweeping (i + 1) }
        | .ephemeral => { s with broadcaster := .aborting i }

/-- The locked section of `espidf_sse_send_fn` or `espidf_ws_send_fn`. -/
def lookUp (s : Connections cfg) (i conn : Nat) : Connections cfg :=
  match (s.holder i).transport with
  | .sse =>
    match findSlot cfg.maxClients s.sse (fun slot => slot.client = i) with
    | some (_, slot) => { s with broadcaster := .sending i conn (.sse slot.asyncReq) }
    | none => (s.note (.unrouted conn)).afterSend i .notFound
  | .ws =>
    match findSlot cfg.maxClients s.ws (fun slot => slot.client = i) with
    | some (_, slot) => { s with broadcaster := .sending i conn (.ws slot.fd s.accepted) }
    | none => s.afterSend i .timeout

/-- The socket call of a send: a chunk on the request, or a work item for the httpd task. -/
def send (s : Connections cfg) (i conn : Nat) (answer : Answer cfg) : Route → Connections cfg
  | .sse req =>
    if answer.fits then (s.note (.sseSent conn req)).afterSend i answer.rc
    else s.afterSend i .timeout
  | .ws fd since =>
    if answer.rc = .ok then
      (s.queueWork { fd := fd, conn := conn, since := since }).afterSend i .ok
    else s.afterSend i .timeout

/-- The locked section of `espidf_sse_abort_fn` or `espidf_ws_abort_fn`. -/
def abortClient (s : Connections cfg) (i : Nat) : Connections cfg :=
  match (s.holder i).transport with
  | .sse =>
    match findSlot cfg.maxClients s.sse (fun slot => slot.client = i) with
    | some (j, slot) =>
      { s with
        sse := Function.update s.sse j none
        broadcaster := .releasing i (some slot.asyncReq) (.sweeping (i + 1)) }
    | none => { s with broadcaster := .releasing i none (.sweeping (i + 1)) }
  | .ws =>
    match findSlot cfg.maxClients s.ws (fun slot => slot.client = i) with
    | some (j, _) =>
      { s with
        ws := Function.update s.ws j none
        broadcaster := .releasing i none (.sweeping (i + 1)) }
    | none => { s with broadcaster := .releasing i none (.sweeping (i + 1)) }

/-- The next step of `broadcaster_task`. -/
def broadcasterStep (s : Connections cfg) (answer : Answer cfg) : Connections cfg :=
  match s.broadcaster with
  | .waiting => { s with broadcaster := .probing 0 }
  | .probing j => s.probeNext j
  | .probe j held =>
    if answer.alive then { s with broadcaster := .probing (j + 1) }
    else { s with broadcaster := .dead j held }
  | .dead j held =>
    { s with
      sse := Function.update s.sse j none
      broadcaster := .releasing held.client (some held.asyncReq) (.probing (j + 1)) }
  | .starting =>
    { s with
      core := { s.core with env := { s.core.env with script := answer.script } }.detect.pushPump
      broadcaster := .sweeping 0 }
  | .sweeping i => s.sweepNext answer.script i
  | .reaping i => { s.release i with broadcaster := .sweeping (i + 1) }
  | .flushing i => s.flushNext i
  | .calling i conn => s.lookUp i conn
  | .sending i conn route => s.send i conn answer route
  | .aborting i => s.abortClient i
  | .releasing i req back =>
    { s.release i with broadcaster := .ending req (s.holder i).conn back }
  | .ending none _ back => { s with broadcaster := resume back }
  | .ending (some req) released back =>
    { s.abort req (some released) with broadcaster := resume back }

/-! ## Runs -/

/-- One step; the httpd task starts a callback only when it is idle. -/
def step (s : Connections cfg) : Act cfg → Connections cfg
  | .attach a => { s with core := s.core.step (.attach a) }
  | .publish b => { s with core := s.core.step (.publish b) }
  | .elapse ms => { s with core := s.core.step (.elapse ms) }
  | .sseConnect topicFilter => if s.httpd = .idle then s.sseConnect topicFilter else s
  | .wsConnect fd => if s.httpd = .idle ∧ s.sessions fd = none then s.wsConnect fd else s
  | .wsDisconnect fd => if s.httpd = .idle ∧ s.sessions fd ≠ none then s.wsDisconnect fd else s
  | .wsWork => if s.httpd = .idle then s.wsWork else s
  | .httpd => s.httpdStep
  | .broadcaster answer => s.broadcasterStep answer

end Connections
end DataHttp
end Breadboard
