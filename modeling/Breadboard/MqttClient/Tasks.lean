import Breadboard.Core.Basics
import Breadboard.Foundations.Runs
import Mathlib.Data.Fintype.Basic
import Mathlib.Logic.Function.Basic

/-!
# bb_mqtt_client - the automatic client and the tasks that use it

One owner makes and destroys the automatic client: at boot, around heap-heavy operations
and for good.  Other tasks resolve it afresh for each publish, enqueue or subscribe; the
events of esp-mqtt are dispatched with the handle as their argument; and when the station
gets an IP address, the observer starts the client that waits for it.

A step is one section under the lock of a handle, one load or store of
`s_pending_start`, one call of esp-mqtt or one free.  Handles are numbered as they
are made and never reused; a step that touches a freed lock, client or handle is a fault.

Main results:

- Theorem `moves_step`: all that a step can do.
-/

namespace Breadboard
namespace MqttClient

open Foundations

/--
`bb_mqtt_client_handle_t`, and what has become of it.  How often its client was
started, whether another task may have come by it, and whether an IP address was acquired
while it waited for one, are not part of the program.
-/
structure Handle where
  /-- `h->client` is not NULL. -/
  client : Bool
  started : Bool
  destroyed : Bool
  subCount : Nat
  /-- The client has been started successfully: it dispatches events. -/
  running : Bool
  clientFreed : Bool
  lockFreed : Bool
  freed : Bool
  starts : Nat
  shared : Bool
  owed : Bool
  deriving Repr, DecidableEq

/-- Before it is made there is nothing to use. -/
def Handle.unmade : Handle where
  client := false
  started := false
  destroyed := false
  subCount := 0
  running := false
  clientFreed := true
  lockFreed := true
  freed := true
  starts := 0
  shared := false
  owed := false

/-- The handle once `esp_mqtt_client_init` has made its client. -/
def Handle.made : Handle :=
  { Handle.unmade with client := true, clientFreed := false, lockFreed := false, freed := false }

/-- Where `on_got_ip_cb` goes back to: the observer, or the init of a handle. -/
abbrev Caller := Option (Nat × Bool)

/-- Where a task is.  The flag of an init is that of a resume, the flag of a stop that of a suspend. -/
inductive Pc where
  | idle
  /-- `bb_mqtt_client_init`, at the first look at the IP address, to `returning`. -/
  | checking (h : Nat) (resumes : Bool)
  | startingNow (h : Nat) (resumes : Bool)
  | markingStarted (h : Nat) (resumes : Bool)
  | undoingClient (h : Nat)
  | undoingLock (h : Nat)
  | undoingHandle (h : Nat)
  | offering (h : Nat) (resumes : Bool)
  | attaching (h : Nat) (resumes : Bool)
  | rechecking (h : Nat) (resumes : Bool)
  | returning (h : Nat) (resumes : Bool)
  /-- `on_got_ip_cb`, at the load, and `mqtt_start_once`. -/
  | fired (k : Caller)
  | clearing (h : Nat) (k : Caller)
  | locking (h : Nat) (k : Caller)
  | starting (h : Nat) (k : Caller)
  /-- `bb_mqtt_client_stop_default` and `bb_mqtt_client_suspend_default`. -/
  | comparing (suspends : Bool)
  | withdrawing (h : Nat) (suspends : Bool)
  /-- `bb_mqtt_client_destroy`, then the store of NULL. -/
  | marking (h : Nat) (suspends : Bool)
  | stopping (h : Nat) (suspends : Bool)
  | destroying (h : Nat) (suspends : Bool)
  | deleting (h : Nat) (suspends : Bool)
  | freeing (h : Nat) (suspends : Bool)
  | nulling (h : Nat) (suspends : Bool)
  /-- `bb_mqtt_client_publish`, `_enqueue` and `_subscribe` with what was resolved. -/
  | resolved (h : Nat) (subscribes : Bool)
  | captured (h : Nat) (subscribes : Bool)
  | tracked (h : Nat)
  /-- `mqtt_event_handler`. -/
  | guarding (h : Nat) (connected : Bool)
  | handling (h : Nat) (connected : Bool)
  | resubscribing (h n : Nat)
  | reporting (h : Nat)
  deriving Repr, DecidableEq

structure State (τ : Type) where
  pcs : τ → Pc
  handles : Nat → Handle
  /-- How many handles have been made. -/
  count : Nat
  /-- `s_auto_client`. -/
  auto : Option Nat
  /-- `s_pending_start`. -/
  pending : Option Nat
  /-- `s_suspended`. -/
  suspended : Bool
  /-- `s_wifi_observer_attached`. -/
  attached : Bool
  hasIp : Bool
  /-- A step has touched what was freed. -/
  fault : Bool
  /-- What `s_auto_client` named when another was stored over it; no part of the program. -/
  forgotten : List Nat

def State.init (τ : Type) : State τ where
  pcs := fun _ => .idle
  handles := fun _ => .unmade
  count := 0
  auto := none
  pending := none
  suspended := false
  attached := false
  hasIp := false
  fault := false
  forgotten := []

/-- `BB_MQTT_CLIENT_SUB_MAX`. -/
def subMax : Nat :=
  4

/-- `on_got_ip_cb` returns. -/
def Caller.back : Caller → Pc
  | none => .idle
  | some (h, resumes) => .returning h resumes

section Step

variable {τ : Type} [DecidableEq τ]

/-- The task goes on to another control point. -/
def State.goto (s : State τ) (t : τ) (pc : Pc) : State τ :=
  { s with pcs := Function.update s.pcs t pc }

@[simp] theorem State.goto_self (s : State τ) (t : τ) (pc : Pc) : (s.goto t pc).pcs t = pc :=
  Function.update_self ..

theorem State.goto_of_ne (s : State τ) {t u : τ} (hne : u ≠ t) (pc : Pc) :
    (s.goto t pc).pcs u = s.pcs u :=
  Function.update_of_ne hne _ _

@[simp] theorem State.goto_handles (s : State τ) (t : τ) (pc : Pc) :
    (s.goto t pc).handles = s.handles :=
  rfl

omit [DecidableEq τ] in
/-- One handle is written. -/
def State.write (s : State τ) (h : Nat) (handle : Handle) : State τ :=
  { s with handles := Function.update s.handles h handle }

omit [DecidableEq τ] in
@[simp] theorem State.write_self (s : State τ) (h : Nat) (handle : Handle) :
    (s.write h handle).handles h = handle :=
  Function.update_self ..

omit [DecidableEq τ] in
theorem State.write_of_ne (s : State τ) {h i : Nat} (hne : i ≠ h) (handle : Handle) :
    (s.write h handle).handles i = s.handles i :=
  Function.update_of_ne hne _ _

/-- The step of a task touches what was freed. -/
def State.faults (s : State τ) (t : τ) : State τ :=
  { s with fault := true }.goto t .idle

/-- A section under `h->lock`. -/
def State.underLock (s : State τ) (t : τ) (h : Nat) (next : State τ) : State τ :=
  if (s.handles h).freed || (s.handles h).lockFreed then s.faults t else next

/-- A call of esp-mqtt with `h->client`, which fails for NULL. -/
def State.onClient (s : State τ) (t : τ) (h : Nat) (null next : State τ) : State τ :=
  if (s.handles h).freed then s.faults t
  else if (s.handles h).client = false then null
  else if (s.handles h).clientFreed then s.faults t
  else next

/-- A call of esp-mqtt with a client that was captured earlier. -/
def State.onCaptured (s : State τ) (t : τ) (h : Nat) (next : State τ) : State τ :=
  if (s.handles h).clientFreed then s.faults t else next

/-- `esp_mqtt_client_start`. -/
def Handle.start (handle : Handle) (ok : Bool) : Handle :=
  { handle with
    starts := handle.starts + 1, running := handle.running || ok, shared := handle.shared || ok }

/-- The end of a stop: `s_auto_client` is set to NULL. -/
def State.stopped (s : State τ) (suspends : Bool) : State τ :=
  { s with auto := none, suspended := s.suspended || suspends }

/-- `bb_mqtt_client_init` returns the handle. -/
def State.returned (s : State τ) (h : Nat) (resumes : Bool) : State τ :=
  { s with
    auto := some h, suspended := if resumes then false else s.suspended,
    forgotten := s.auto.toList ++ s.forgotten }

/-- The next step of a task.  What it calls succeeds or not. -/
def State.advance (s : State τ) (t : τ) (ok : Bool) : State τ :=
  match s.pcs t with
  | .idle => s
  | .checking h resumes =>
    if s.hasIp then s.goto t (.startingNow h resumes) else s.goto t (.offering h resumes)
  | .startingNow h resumes =>
    s.onClient t h (s.goto t (.undoingClient h))
      (if ok then (s.write h ((s.handles h).start true)).goto t (.markingStarted h resumes)
      else (s.write h ((s.handles h).start false)).goto t (.undoingClient h))
  | .markingStarted h resumes =>
    (s.write h { s.handles h with started := true }).goto t (.returning h resumes)
  | .undoingClient h =>
    (s.write h { s.handles h with clientFreed := true }).goto t (.undoingLock h)
  | .undoingLock h => (s.write h { s.handles h with lockFreed := true }).goto t (.undoingHandle h)
  | .undoingHandle h =>
    ({ s with auto := none }.write h { s.handles h with freed := true }).goto t .idle
  | .offering h resumes =>
    ({ s with pending := some h }.write h { s.handles h with shared := true }).goto t
      (.attaching h resumes)
  | .attaching h resumes => { s with attached := true }.goto t (.rechecking h resumes)
  | .rechecking h resumes =>
    if s.hasIp then s.goto t (.fired (some (h, resumes))) else s.goto t (.returning h resumes)
  | .returning h resumes => (s.returned h resumes).goto t .idle
  | .fired k =>
    match s.pending with
    | none => s.goto t k.back
    | some h => s.goto t (.clearing h k)
  | .clearing h k => { s with pending := none }.goto t (.locking h k)
  | .locking h k =>
    s.underLock t h
      (if (s.handles h).started then s.goto t k.back
      else (s.write h { s.handles h with started := true }).goto t (.starting h k))
  | .starting h k =>
    s.onClient t h (s.goto t k.back) ((s.write h ((s.handles h).start ok)).goto t k.back)
  | .comparing suspends =>
    match s.auto with
    | none => (s.stopped suspends).goto t .idle
    | some h =>
      if s.pending = some h then s.goto t (.withdrawing h suspends)
      else s.goto t (.marking h suspends)
  | .withdrawing h suspends => { s with pending := none }.goto t (.marking h suspends)
  | .marking h suspends =>
    s.underLock t h
      ((s.write h { s.handles h with destroyed := true }).goto t (.stopping h suspends))
  | .stopping h suspends =>
    if (s.handles h).started then
      s.onClient t h (s.goto t (.destroying h suspends))
        ((s.write h { s.handles h with clientFreed := true }).goto t (.destroying h suspends))
    else s.goto t (.destroying h suspends)
  | .destroying h suspends =>
    (s.write h { s.handles h with clientFreed := true, client := false }).goto t
      (.deleting h suspends)
  | .deleting h suspends =>
    (s.write h { s.handles h with lockFreed := true }).goto t (.freeing h suspends)
  | .freeing h suspends =>
    (s.write h { s.handles h with freed := true }).goto t (.nulling h suspends)
  | .nulling _ suspends => (s.stopped suspends).goto t .idle
  | .resolved h subscribes =>
    s.underLock t h
      (if (s.handles h).destroyed || !(s.handles h).client then s.goto t .idle
      else s.goto t (.captured h subscribes))
  | .captured h false => s.onCaptured t h (s.goto t .idle)
  | .captured h true =>
    -- The filter is tracked already, or there is room for it, or it is not tracked.
    s.underLock t h
      (if ok ∧ (s.handles h).subCount < subMax then
        (s.write h { s.handles h with subCount := (s.handles h).subCount + 1 }).goto t (.tracked h)
      else s.goto t (.tracked h))
  | .tracked h => s.onCaptured t h (s.goto t .idle)
  | .guarding h connected =>
    s.underLock t h
      (if (s.handles h).destroyed then s.goto t .idle else s.goto t (.handling h connected))
  | .handling h connected =>
    s.underLock t h
      (if connected then s.goto t (.resubscribing h (s.handles h).subCount)
      else s.goto t (.reporting h))
  | .resubscribing _ 0 => s.goto t .idle
  | .resubscribing h (n + 1) =>
    s.onClient t h (s.goto t (.resubscribing h n)) (s.goto t (.resubscribing h n))
  | .reporting h => if (s.handles h).freed then s.faults t else s.goto t .idle

end Step

inductive Action (τ : Type) where
  /-- `bb_mqtt_client_init_default`, or `bb_mqtt_client_resume_default`. -/
  | create (enabled resumes : Bool)
  /-- `bb_mqtt_client_stop_default`, or `bb_mqtt_client_suspend_default`. -/
  | stop (suspends : Bool)
  /-- `bb_mqtt_client_default`, for a publish, an enqueue or a subscribe. -/
  | resolve (t : τ) (subscribes : Bool)
  /-- esp-mqtt calls `mqtt_event_handler`. -/
  | dispatch (t : τ) (h : Nat) (connected : Bool)
  /-- The station gets an IP address, and the observer is called. -/
  | gotIp (t : τ)
  | lostIp
  | advance (t : τ) (ok : Bool)
  deriving DecidableEq

section Actions

variable {τ : Type} [DecidableEq τ] (owner : τ)

omit [DecidableEq τ] in
/-- The clients that were initialised and wait for an IP address are now owed their start. -/
def State.owes (s : State τ) : State τ :=
  { s with handles := fun h =>
      if (s.auto = some h ∨ h ∈ s.forgotten) ∧ (s.handles h).starts = 0 then
        { s.handles h with owed := true }
      else s.handles h }

def step (s : State τ) : Action τ → State τ
  | .create enabled resumes =>
    if s.pcs owner ≠ .idle then s
    else if resumes ∧ s.suspended = false then s
    else if enabled then
      { s with count := s.count + 1 }.write s.count .made |>.goto owner (.checking s.count resumes)
    else { s with suspended := if resumes then false else s.suspended }
  | .stop suspends =>
    if s.pcs owner ≠ .idle then s
    else if suspends ∧ s.suspended then s
    else s.goto owner (.comparing suspends)
  | .resolve t subscribes =>
    if s.pcs t ≠ .idle then s
    else
      match s.auto with
      | none => s
      | some h => s.goto t (.resolved h subscribes)
  | .dispatch t h connected =>
    if s.pcs t = .idle ∧ (s.handles h).running ∧ (s.handles h).clientFreed = false then
      s.goto t (.guarding h connected)
    else s
  | .gotIp t =>
    if s.hasIp then s
    else if s.attached = false then { s.owes with hasIp := true }
    else if s.pcs t ≠ .idle then s
    else { s.owes with hasIp := true }.goto t (.fired none)
  | .lostIp => { s with hasIp := false }
  | .advance t ok => s.advance t ok

end Actions

/-! ## All that a step can do -/

/-- Between resolving the handle, or the dispatch of an event, and the end of the call. -/
def Pc.visits : Pc → Option Nat
  | .resolved h _ | .captured h _ | .tracked h | .guarding h _ | .handling h _
  | .resubscribing h _ | .reporting h => some h
  | _ => none

/-- Between the load of the pending handle and the start of its client. -/
def Pc.carries : Pc → Option Nat
  | .clearing h _ | .locking h _ | .starting h _ => some h
  | _ => none

/-- The handle whose lock, client or memory the task is about to touch. -/
def Pc.uses : Pc → Option Nat
  | .startingNow h _ | .marking h _ | .stopping h _ => some h
  | pc => pc.visits <|> pc.carries

section Moves

variable {τ : Type} [DecidableEq τ] {owner : τ}

/-- Something of the handle has been freed. -/
def Handle.dead (handle : Handle) : Prop :=
  handle.clientFreed = true ∨ handle.lockFreed = true ∨ handle.freed = true

inductive Moves (owner : τ) (s : State τ) : Action τ → State τ → Prop where
  | stay (a : Action τ) : Moves owner s a s
  | faulted (t : τ) (ok : Bool) (h : Nat) (huses : (s.pcs t).uses = some h)
      (hdead : (s.handles h).dead) : Moves owner s (.advance t ok) (s.faults t)
  | null (t : τ) (ok : Bool) (q : Pc) (h : Nat) (huses : (s.pcs t).uses = some h)
      (hnull : (s.handles h).client = false) : Moves owner s (.advance t ok) (s.goto t q)
  -- The visitors.
  | resolved (t : τ) (subscribes : Bool) (h : Nat) (hidle : s.pcs t = .idle)
      (hauto : s.auto = some h) :
      Moves owner s (.resolve t subscribes) (s.goto t (.resolved h subscribes))
  | dispatched (t : τ) (h : Nat) (connected : Bool) (hidle : s.pcs t = .idle)
      (hrunning : (s.handles h).running = true) (halive : (s.handles h).clientFreed = false) :
      Moves owner s (.dispatch t h connected) (s.goto t (.guarding h connected))
  | worked (t : τ) (ok : Bool) (q : Pc) (h : Nat) (hp : (s.pcs t).visits = some h)
      (hq : q = .idle ∨ q.visits = some h) : Moves owner s (.advance t ok) (s.goto t q)
  | trackedNew (t : τ) (ok : Bool) (h n : Nat) (hpc : s.pcs t = .captured h true) :
      Moves owner s (.advance t ok)
        ((s.write h { s.handles h with subCount := n }).goto t (.tracked h))
  -- The IP address and the deferred start.
  | gotIp (t : τ) (hattached : s.attached = false) :
      Moves owner s (.gotIp t) { s.owes with hasIp := true }
  | observed (t : τ) (hattached : s.attached = true) (hidle : s.pcs t = .idle) :
      Moves owner s (.gotIp t) ({ s.owes with hasIp := true }.goto t (.fired none))
  | lostIp : Moves owner s .lostIp { s with hasIp := false }
  | loadedNone (t : τ) (ok : Bool) (k : Caller) (hpc : s.pcs t = .fired k)
      (hpending : s.pending = none) : Moves owner s (.advance t ok) (s.goto t k.back)
  | loaded (t : τ) (ok : Bool) (k : Caller) (h : Nat) (hpc : s.pcs t = .fired k)
      (hpending : s.pending = some h) : Moves owner s (.advance t ok) (s.goto t (.clearing h k))
  | cleared (t : τ) (ok : Bool) (h : Nat) (k : Caller) (hpc : s.pcs t = .clearing h k) :
      Moves owner s (.advance t ok) ({ s with pending := none }.goto t (.locking h k))
  | already (t : τ) (ok : Bool) (h : Nat) (k : Caller) (hpc : s.pcs t = .locking h k)
      (hstarted : (s.handles h).started = true) : Moves owner s (.advance t ok) (s.goto t k.back)
  | marksStarted (t : τ) (ok : Bool) (h : Nat) (k : Caller) (hpc : s.pcs t = .locking h k)
      (hnot : (s.handles h).started = false) :
      Moves owner s (.advance t ok)
        ((s.write h { s.handles h with started := true }).goto t (.starting h k))
  | starts (t : τ) (ok : Bool) (h : Nat) (k : Caller) (hpc : s.pcs t = .starting h k) :
      Moves owner s (.advance t ok) ((s.write h ((s.handles h).start ok)).goto t k.back)
  -- The owner makes a handle.
  | notEnabled (enabled resumes suspended : Bool) :
      Moves owner s (.create enabled resumes) { s with suspended := suspended }
  | created (resumes : Bool) (hidle : s.pcs owner = .idle)
      (hsuspended : resumes = true → s.suspended = true) :
      Moves owner s (.create true resumes)
        (({ s with count := s.count + 1 }.write s.count .made).goto owner
          (.checking s.count resumes))
  | sawIp (t : τ) (ok : Bool) (h : Nat) (resumes : Bool) (hpc : s.pcs t = .checking h resumes) :
      Moves owner s (.advance t ok) (s.goto t (.startingNow h resumes))
  | sawNoIp (t : τ) (ok : Bool) (h : Nat) (resumes : Bool) (hpc : s.pcs t = .checking h resumes) :
      Moves owner s (.advance t ok) (s.goto t (.offering h resumes))
  | startsNow (t : τ) (ok : Bool) (h : Nat) (resumes : Bool)
      (hpc : s.pcs t = .startingNow h resumes) :
      Moves owner s (.advance t ok)
        ((s.write h ((s.handles h).start true)).goto t (.markingStarted h resumes))
  | startFails (t : τ) (ok : Bool) (h : Nat) (resumes : Bool)
      (hpc : s.pcs t = .startingNow h resumes) :
      Moves owner s (.advance t ok)
        ((s.write h ((s.handles h).start false)).goto t (.undoingClient h))
  | markedStarted (t : τ) (ok : Bool) (h : Nat) (resumes : Bool)
      (hpc : s.pcs t = .markingStarted h resumes) :
      Moves owner s (.advance t ok)
        ((s.write h { s.handles h with started := true }).goto t (.returning h resumes))
  | undidClient (t : τ) (ok : Bool) (h : Nat) (hpc : s.pcs t = .undoingClient h) :
      Moves owner s (.advance t ok)
        ((s.write h { s.handles h with clientFreed := true }).goto t (.undoingLock h))
  | undidLock (t : τ) (ok : Bool) (h : Nat) (hpc : s.pcs t = .undoingLock h) :
      Moves owner s (.advance t ok)
        ((s.write h { s.handles h with lockFreed := true }).goto t (.undoingHandle h))
  | undidHandle (t : τ) (ok : Bool) (h : Nat) (hpc : s.pcs t = .undoingHandle h) :
      Moves owner s (.advance t ok)
        (({ s with auto := none }.write h { s.handles h with freed := true }).goto t .idle)
  | offered (t : τ) (ok : Bool) (h : Nat) (resumes : Bool) (hpc : s.pcs t = .offering h resumes) :
      Moves owner s (.advance t ok)
        (({ s with pending := some h }.write h { s.handles h with shared := true }).goto t
          (.attaching h resumes))
  | attaches (t : τ) (ok : Bool) (h : Nat) (resumes : Bool)
      (hpc : s.pcs t = .attaching h resumes) :
      Moves owner s (.advance t ok) ({ s with attached := true }.goto t (.rechecking h resumes))
  | sawIpAgain (t : τ) (ok : Bool) (h : Nat) (resumes : Bool)
      (hpc : s.pcs t = .rechecking h resumes) :
      Moves owner s (.advance t ok) (s.goto t (.fired (some (h, resumes))))
  | sawNoIpAgain (t : τ) (ok : Bool) (h : Nat) (resumes : Bool)
      (hpc : s.pcs t = .rechecking h resumes) :
      Moves owner s (.advance t ok) (s.goto t (.returning h resumes))
  | returned (t : τ) (ok : Bool) (h : Nat) (resumes : Bool)
      (hpc : s.pcs t = .returning h resumes) :
      Moves owner s (.advance t ok) ((s.returned h resumes).goto t .idle)
  -- The owner stops the client.
  | stops (suspends : Bool) (hidle : s.pcs owner = .idle) :
      Moves owner s (.stop suspends) (s.goto owner (.comparing suspends))
  | comparedNone (t : τ) (ok suspends : Bool) (hpc : s.pcs t = .comparing suspends)
      (hauto : s.auto = none) :
      Moves owner s (.advance t ok) ((s.stopped suspends).goto t .idle)
  | comparedSame (t : τ) (ok suspends : Bool) (h : Nat) (hpc : s.pcs t = .comparing suspends)
      (hauto : s.auto = some h) :
      Moves owner s (.advance t ok) (s.goto t (.withdrawing h suspends))
  | comparedOther (t : τ) (ok suspends : Bool) (h : Nat) (hpc : s.pcs t = .comparing suspends)
      (hauto : s.auto = some h) (hother : s.pending ≠ some h) :
      Moves owner s (.advance t ok) (s.goto t (.marking h suspends))
  | withdrew (t : τ) (ok : Bool) (h : Nat) (suspends : Bool)
      (hpc : s.pcs t = .withdrawing h suspends) :
      Moves owner s (.advance t ok) ({ s with pending := none }.goto t (.marking h suspends))
  | marked (t : τ) (ok : Bool) (h : Nat) (suspends : Bool) (hpc : s.pcs t = .marking h suspends) :
      Moves owner s (.advance t ok)
        ((s.write h { s.handles h with destroyed := true }).goto t (.stopping h suspends))
  | stoppedClient (t : τ) (ok : Bool) (h : Nat) (suspends : Bool)
      (hpc : s.pcs t = .stopping h suspends) (hstarted : (s.handles h).started = true) :
      Moves owner s (.advance t ok)
        ((s.write h { s.handles h with clientFreed := true }).goto t (.destroying h suspends))
  | notStarted (t : τ) (ok : Bool) (h : Nat) (suspends : Bool)
      (hpc : s.pcs t = .stopping h suspends) :
      Moves owner s (.advance t ok) (s.goto t (.destroying h suspends))
  | destroyed (t : τ) (ok : Bool) (h : Nat) (suspends : Bool)
      (hpc : s.pcs t = .destroying h suspends) :
      Moves owner s (.advance t ok)
        ((s.write h { s.handles h with clientFreed := true, client := false }).goto t
          (.deleting h suspends))
  | lockDeleted (t : τ) (ok : Bool) (h : Nat) (suspends : Bool)
      (hpc : s.pcs t = .deleting h suspends) :
      Moves owner s (.advance t ok)
        ((s.write h { s.handles h with lockFreed := true }).goto t (.freeing h suspends))
  | handleFreed (t : τ) (ok : Bool) (h : Nat) (suspends : Bool)
      (hpc : s.pcs t = .freeing h suspends) :
      Moves owner s (.advance t ok)
        ((s.write h { s.handles h with freed := true }).goto t (.nulling h suspends))
  | nulled (t : τ) (ok : Bool) (h : Nat) (suspends : Bool) (hpc : s.pcs t = .nulling h suspends) :
      Moves owner s (.advance t ok) ((s.stopped suspends).goto t .idle)

variable {s : State τ} {t : τ} {ok : Bool} {h : Nat}

/-- A section under the lock is a fault, or what it does. -/
theorem Moves.underLock {next : State τ} (huses : (s.pcs t).uses = some h)
    (hnext : Moves owner s (.advance t ok) next) :
    Moves owner s (.advance t ok) (s.underLock t h next) := by
  unfold State.underLock
  split
  next hdead =>
    rw [Bool.or_eq_true] at hdead
    rcases hdead with hfreed | hlock
    · exact .faulted t ok h huses (.inr (.inr hfreed))
    · exact .faulted t ok h huses (.inr (.inl hlock))
  next => exact hnext

theorem Moves.onClient {q : Pc} {next : State τ} (huses : (s.pcs t).uses = some h)
    (hnext : Moves owner s (.advance t ok) next) :
    Moves owner s (.advance t ok) (s.onClient t h (s.goto t q) next) := by
  unfold State.onClient
  split
  next hfreed => exact .faulted t ok h huses (.inr (.inr hfreed))
  split
  next hnull => exact .null t ok q h huses hnull
  split
  next hclient => exact .faulted t ok h huses (.inl hclient)
  next => exact hnext

theorem Moves.onCaptured {next : State τ} (huses : (s.pcs t).uses = some h)
    (hnext : Moves owner s (.advance t ok) next) :
    Moves owner s (.advance t ok) (s.onCaptured t h next) := by
  unfold State.onCaptured
  split
  next hclient => exact .faulted t ok h huses (.inl hclient)
  next => exact hnext

theorem moves_advance (s : State τ) (t : τ) (ok : Bool) :
    Moves owner s (.advance t ok) (s.advance t ok) := by
  unfold State.advance
  split
  next => exact .stay _
  next h resumes hpc =>
    split
    · exact .sawIp t ok h resumes hpc
    · exact .sawNoIp t ok h resumes hpc
  next h resumes hpc =>
    refine .onClient (by rw [hpc]; rfl) ?_
    split
    · exact .startsNow t ok h resumes hpc
    · exact .startFails t ok h resumes hpc
  next h resumes hpc => exact .markedStarted t ok h resumes hpc
  next h hpc => exact .undidClient t ok h hpc
  next h hpc => exact .undidLock t ok h hpc
  next h hpc => exact .undidHandle t ok h hpc
  next h resumes hpc => exact .offered t ok h resumes hpc
  next h resumes hpc => exact .attaches t ok h resumes hpc
  next h resumes hpc =>
    split
    · exact .sawIpAgain t ok h resumes hpc
    · exact .sawNoIpAgain t ok h resumes hpc
  next h resumes hpc => exact .returned t ok h resumes hpc
  next k hpc =>
    split
    next hpending => exact .loadedNone t ok k hpc hpending
    next h hpending => exact .loaded t ok k h hpc hpending
  next h k hpc => exact .cleared t ok h k hpc
  next h k hpc =>
    refine .underLock (by rw [hpc]; rfl) ?_
    split
    next hstarted => exact .already t ok h k hpc hstarted
    next hnot => exact .marksStarted t ok h k hpc (Bool.eq_false_iff.mpr hnot)
  next h k hpc => exact .onClient (by rw [hpc]; rfl) (.starts t ok h k hpc)
  next suspends hpc =>
    split
    next hauto => exact .comparedNone t ok suspends hpc hauto
    next h hauto =>
      split
      next => exact .comparedSame t ok suspends h hpc hauto
      next hother => exact .comparedOther t ok suspends h hpc hauto hother
  next h suspends hpc => exact .withdrew t ok h suspends hpc
  next h suspends hpc => exact .underLock (by rw [hpc]; rfl) (.marked t ok h suspends hpc)
  next h suspends hpc =>
    split
    next hstarted =>
      exact .onClient (by rw [hpc]; rfl) (.stoppedClient t ok h suspends hpc hstarted)
    next => exact .notStarted t ok h suspends hpc
  next h suspends hpc => exact .destroyed t ok h suspends hpc
  next h suspends hpc => exact .lockDeleted t ok h suspends hpc
  next h suspends hpc => exact .handleFreed t ok h suspends hpc
  next h suspends hpc => exact .nulled t ok h suspends hpc
  next h subscribes hpc =>
    refine .underLock (by rw [hpc]; rfl) ?_
    split
    · exact .worked t ok .idle h (by rw [hpc]; rfl) (.inl rfl)
    · exact .worked t ok _ h (by rw [hpc]; rfl) (.inr rfl)
  next h hpc => exact .onCaptured (by rw [hpc]; rfl) (.worked t ok .idle h (by rw [hpc]; rfl) (.inl rfl))
  next h hpc =>
    refine .underLock (by rw [hpc]; rfl) ?_
    split
    · exact .trackedNew t ok h _ hpc
    · exact .worked t ok _ h (by rw [hpc]; rfl) (.inr rfl)
  next h hpc => exact .onCaptured (by rw [hpc]; rfl) (.worked t ok .idle h (by rw [hpc]; rfl) (.inl rfl))
  next h connected hpc =>
    refine .underLock (by rw [hpc]; rfl) ?_
    split
    · exact .worked t ok .idle h (by rw [hpc]; rfl) (.inl rfl)
    · exact .worked t ok _ h (by rw [hpc]; rfl) (.inr rfl)
  next h connected hpc =>
    refine .underLock (by rw [hpc]; rfl) ?_
    split
    · exact .worked t ok _ h (by rw [hpc]; rfl) (.inr rfl)
    · exact .worked t ok _ h (by rw [hpc]; rfl) (.inr rfl)
  next h hpc => exact .worked t ok .idle h (by rw [hpc]; rfl) (.inl rfl)
  next h n hpc =>
    exact .onClient (by rw [hpc]; rfl) (.worked t ok _ h (by rw [hpc]; rfl) (.inr rfl))
  next h hpc =>
    split
    next hfreed => exact .faulted t ok h (by rw [hpc]; rfl) (.inr (.inr hfreed))
    next => exact .worked t ok .idle h (by rw [hpc]; rfl) (.inl rfl)

theorem moves_step (s : State τ) (a : Action τ) : Moves owner s a (step owner s a) := by
  cases a with
  | create enabled resumes =>
    unfold step
    dsimp only
    split
    next => exact .stay _
    next hidle =>
      split
      next => exact .stay _
      next hsuspended =>
        split
        next henabled =>
          rw [henabled]
          refine .created resumes (not_not.mp hidle) fun hresumes => ?_
          by_contra hnot
          exact hsuspended ⟨hresumes, Bool.eq_false_iff.mpr hnot⟩
        next => exact .notEnabled enabled resumes _
  | stop suspends =>
    unfold step
    dsimp only
    split
    next => exact .stay _
    next hidle =>
      split
      next => exact .stay _
      next => exact .stops suspends (not_not.mp hidle)
  | resolve t subscribes =>
    unfold step
    dsimp only
    split
    next => exact .stay _
    next hidle =>
      split
      next => exact .stay _
      next h hauto => exact .resolved t subscribes h (not_not.mp hidle) hauto
  | dispatch t h connected =>
    unfold step
    dsimp only
    split
    next hready => exact .dispatched t h connected hready.1 hready.2.1 hready.2.2
    next => exact .stay _
  | gotIp t =>
    unfold step
    dsimp only
    split
    next => exact .stay _
    next =>
      split
      next hattached => exact .gotIp t hattached
      next hattached =>
        split
        next => exact .stay _
        next hidle => exact .observed t (by simpa using hattached) (not_not.mp hidle)
  | lostIp => exact .lostIp
  | advance t ok => exact moves_advance s t ok

end Moves

end MqttClient
end Breadboard
