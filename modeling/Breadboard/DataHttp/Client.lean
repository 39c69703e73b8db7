import Mathlib.Data.Bool.Basic
import Breadboard.DataHttp.EventRing
import Breadboard.Foundations.Runs
import Breadboard.DataHttp.Config

/-!
# bb_data_http - injected seams and client slots

The core reaches the rest of the system through injected functions: it asks for
a key's generation, renders a key's current value, and sends a frame.  Between
two such calls producers may publish any number of new values and time may pass.
A sweep therefore consumes a script with one `Call` per seam call: what
happens before the call returns, and the status code it returns.  An exhausted
script means that nothing happens and every further call succeeds.

Generations follow the documented contract: a publication counts only if it
strictly increases its key's generation.

A client slot in use has its subscription, its STATE (poll) and EVENT (push)
blocks, and its outbound queue.  A free slot is `none`: nothing in a free
slot is read before `bb_data_http_client_acquire` writes it.  Some fields are
proof-only: no modelled operation reads them.

Main result:

- Theorem `Env.later_call`: a seam call only publishes and lets time pass.
-/

namespace Breadboard
namespace DataHttp

open Queue

/-! ## Producers, clock and injected seams -/

/-- Which seams are installed (`s_render_fn`, `s_gen_fn`, and so on). -/
structure Seams where
  render : Bool
  gen : Bool
  send : Bool
  abort : Bool
  deriving Repr, DecidableEq

/-- A producer's published state for one key: generation and current rendering. -/
structure Source (cfg : Config) where
  gen : UInt32
  frame : Frame cfg

/-- One publication of a new value under a new generation. -/
structure Bump (cfg : Config) where
  key : Bytes
  gen : UInt32
  frame : Frame cfg

/-- One seam call: what happens before it returns, and its status code. -/
structure Call (cfg : Config) where
  bumps : List (Bump cfg)
  elapsed : Nat
  rc : BbErr

/-- Everything outside the core: producers, the unbounded millisecond clock, the script. -/
structure Env (cfg : Config) where
  sources : Bytes → Source cfg
  clock : Nat
  script : List (Call cfg)

namespace Env

variable {cfg : Config}

/-- A publication takes effect when its generation is newer than the present one. -/
def publish (env : Env cfg) (b : Bump cfg) : Env cfg :=
  if (env.sources b.key).gen < b.gen then
    { env with sources := Function.update env.sources b.key { gen := b.gen, frame := b.frame } }
  else env

/-- Several publications, in order. -/
def publishAll (env : Env cfg) (bumps : List (Bump cfg)) : Env cfg :=
  bumps.foldl publish env

/-- Time passes. -/
def elapse (env : Env cfg) (ms : Nat) : Env cfg :=
  { env with clock := env.clock + ms }

/-- One seam call: play the next script entry and return its status code. -/
def call (env : Env cfg) : BbErr × Env cfg :=
  match env.script with
  | [] => (.ok, env)
  | c :: rest => (c.rc, (({ env with script := rest }).publishAll c.bumps).elapse c.elapsed)

/-- `now_ms()`: the clock mod `2^32`. -/
def nowMs (env : Env cfg) : UInt32 :=
  UInt32.ofNat env.clock

/-- `s_gen_fn(key, &gen)`: the generation, unless the call fails. -/
def genFn (env : Env cfg) (key : Bytes) : Option UInt32 × Env cfg :=
  let r := env.call
  (if r.1 = .ok then some (r.2.sources key).gen else none, r.2)

/-- `s_render_fn(key, buf, ...)`: the current value, unless the call fails. -/
def renderFn (env : Env cfg) (key : Bytes) : Option (Frame cfg) × Env cfg :=
  let r := env.call
  (if r.1 = .ok then some (r.2.sources key).frame else none, r.2)

/-! ## What a seam call can change -/

/-- The later environment is reachable by publications and the passage of time. -/
structure Later (env env' : Env cfg) : Prop where
  gen_le : ∀ key, (env.sources key).gen ≤ (env'.sources key).gen
  frame_eq : ∀ key, (env.sources key).gen = (env'.sources key).gen →
    (env'.sources key).frame = (env.sources key).frame
  clock_le : env.clock ≤ env'.clock

theorem Later.refl (env : Env cfg) : Later env env where
  gen_le _ := UInt32.le_refl _
  frame_eq _ _ := rfl
  clock_le := Nat.le_refl _

theorem Later.trans {a b c : Env cfg} (hab : Later a b) (hbc : Later b c) : Later a c where
  gen_le key := UInt32.le_trans (hab.gen_le key) (hbc.gen_le key)
  frame_eq key heq := by
    have hab_gen : (a.sources key).gen = (b.sources key).gen :=
      UInt32.le_antisymm (hab.gen_le key) (heq ▸ hbc.gen_le key)
    rw [hbc.frame_eq key (hab_gen ▸ heq), hab.frame_eq key hab_gen]
  clock_le := Nat.le_trans hab.clock_le hbc.clock_le

theorem later_publish (env : Env cfg) (b : Bump cfg) : Later env (env.publish b) := by
  unfold publish
  split
  · rename_i hlt
    refine ⟨fun key => ?_, fun key heq => ?_, Nat.le_refl _⟩
    · by_cases hkey : key = b.key
      · subst hkey
        simpa using UInt32.le_of_lt hlt
      · simp [Function.update_of_ne hkey]
    · by_cases hkey : key = b.key
      · subst hkey
        simp only [Function.update_self] at heq
        exact absurd heq (UInt32.ne_of_lt hlt)
      · simp [Function.update_of_ne hkey]
  · exact Later.refl env

theorem later_publishAll (env : Env cfg) (bumps : List (Bump cfg)) :
    Later env (env.publishAll bumps) := by
  induction bumps generalizing env with
  | nil => exact Later.refl env
  | cons b bumps ih => exact (later_publish env b).trans (ih (env.publish b))

theorem later_elapse (env : Env cfg) (ms : Nat) : Later env (env.elapse ms) where
  gen_le _ := UInt32.le_refl _
  frame_eq _ _ := rfl
  clock_le := Nat.le_add_right _ _

/-- Replacing the script changes nothing observable. -/
theorem later_script (env : Env cfg) (script : List (Call cfg)) :
    Later env { env with script := script } :=
  ⟨fun _ => UInt32.le_refl _, fun _ _ => rfl, Nat.le_refl _⟩

theorem later_call (env : Env cfg) : Later env env.call.2 := by
  unfold call
  split
  · exact Later.refl env
  · rename_i c rest _
    exact ((env.later_script rest).trans (later_publishAll _ c.bumps)).trans (later_elapse _ c.elapsed)

theorem later_genFn (env : Env cfg) (key : Bytes) : Later env (env.genFn key).2 :=
  later_call env

theorem later_renderFn (env : Env cfg) (key : Bytes) : Later env (env.renderFn key).2 :=
  later_call env

/-- A generation read returns the generation at the moment the call returns. -/
theorem genFn_eq_some {env : Env cfg} {key : Bytes} {gen : UInt32}
    (h : (env.genFn key).1 = some gen) : gen = ((env.genFn key).2.sources key).gen := by
  simp only [genFn] at h ⊢
  split at h
  · exact (Option.some.inj h).symm
  · cases h

/-- A successful render returns the value at the moment the call returns. -/
theorem renderFn_eq_some {env : Env cfg} {key : Bytes} {frame : Frame cfg}
    (h : (env.renderFn key).1 = some frame) :
    frame = ((env.renderFn key).2.sources key).frame := by
  simp only [renderFn] at h ⊢
  split at h
  · exact (Option.some.inj h).symm
  · cases h

end Env

/-! ## Masks over attach indices -/

/-- `mask |= (1u << k)`. -/
def setBit (mask : BitVec 32) (k : Nat) : BitVec 32 :=
  mask ||| (1#32 <<< k)

/-- `mask &= ~(1u << k)`. -/
def clearBit (mask : BitVec 32) (k : Nat) : BitVec 32 :=
  mask &&& ~~~(1#32 <<< k)

theorem getLsbD_setBit (mask : BitVec 32) {j : Nat} (hj : j < 32) (k : Nat) :
    (setBit mask k).getLsbD j = (mask.getLsbD j || decide (j = k)) := by
  simp only [setBit, BitVec.getLsbD_or, BitVec.getLsbD_shiftLeft, BitVec.getLsbD_one]
  grind

theorem getLsbD_clearBit (mask : BitVec 32) {j : Nat} (hj : j < 32) (k : Nat) :
    (clearBit mask k).getLsbD j = (mask.getLsbD j && !decide (j = k)) := by
  simp only [clearBit, BitVec.getLsbD_and, BitVec.getLsbD_not, BitVec.getLsbD_shiftLeft,
    BitVec.getLsbD_one]
  grind

/-! ## The STATE block -/

/-- Proof-only record of one cadence gate decision for key `k`. -/
structure Gate where
  k : Nat
  now : Nat
  interval : UInt32
  phase : UInt32
  withheld : Bool
  lastRender : Option Nat
  due : Option Nat
  deriving Repr, DecidableEq

/--
`bb_data_http_poll_state_t`.  The fields from `lastFrame` on are
proof-only: last frame, number and time of the successful renders of each key,
the unbounded instant its `next_due_ms` stands for, and the gate decisions.
-/
structure PollState (cfg : Config) where
  dirtyMask : BitVec 32
  seenGen : Nat → UInt32
  nextDueMs : Nat → UInt32
  neverRenderedMask : BitVec 32
  lastFrame : Nat → Option (Frame cfg)
  renders : Nat → Nat
  lastRender : Nat → Option Nat
  due : Nat → Option Nat
  gates : List Gate

/-- `poll_alloc`: all zero, every key marked as never rendered. -/
def PollState.fresh (cfg : Config) : PollState cfg where
  dirtyMask := 0
  seenGen := fun _ => 0
  nextDueMs := fun _ => 0
  neverRenderedMask := BitVec.allOnes 32
  lastFrame := fun _ => none
  renders := fun _ => 0
  lastRender := fun _ => none
  due := fun _ => none
  gates := []

/-! ## The EVENT block -/

/-- Proof-only provenance of an outbound frame. -/
inductive Origin where
  | state (k : Nat)
  | event (seq : Nat)
  | marker (number : Nat)
  deriving Repr, DecidableEq

/--
`bb_data_http_push_state_t`.  The fields from `cursorSeq` on are
proof-only: the unbounded cursor, the first sequence number owed to the client,
the sequence numbers counted as dropped, the ones passed over with the attach
slot they were looked up as, and the number of drop markers queued so far.
-/
structure PushState where
  cursor : UInt32
  dropped : UInt32
  dropMarkerPending : Bool
  cursorSeq : Nat
  since : Nat
  droppedSeqs : List Nat
  unmatched : List (Nat × Option AttachSlot)
  markers : Nat
  deriving Repr, DecidableEq

/-- `push_alloc` and the cursor `bb_data_http_client_acquire` sets. -/
def PushState.fresh (totalPushed : UInt32) (since : Nat) : PushState where
  cursor := totalPushed
  dropped := 0
  dropMarkerPending := false
  cursorSeq := since
  since := since
  droppedSeqs := []
  unmatched := []
  markers := 0

/-! ## The outbound queue -/

/--
`outbound` with `outbound_max_bytes`.  Proof-only: frames accepted by the
send seam, frames popped by the retry bound, and each STATE push with the queue
contents it found and its length.
-/
structure Outbox (cfg : Config) where
  queue : BoundedRing Origin cfg.outboundLimits
  maxBytes : Nat
  maxBytes_eq : maxBytes = cfg.outboundMaxBytes
  handed : List Origin
  failed : List Origin
  statePushes : List (List (Entry Origin) × Nat)

/-- `client_outbound_has_room`. -/
def Outbox.hasRoom {cfg : Config} (o : Outbox cfg) (len : Nat) : Bool :=
  o.queue.hasRoom len o.maxBytes

/-- `bb_queue_push` on the outbound queue. -/
def Outbox.push {cfg : Config} (o : Outbox cfg) (e : Entry Origin) : Outbox cfg :=
  { o with queue := o.queue.push e }

/-- The outbound queue `bb_data_http_client_acquire` creates. -/
def Outbox.create (cfg : Config) : Except BbErr (Outbox cfg) :=
  match BoundedRing.create cfg.outboundLimits { id := 0, ts := 0, data := [], tag := .state 0 } with
  | .error e => .error e
  | .ok queue =>
    .ok
      { queue := queue
        maxBytes := cfg.outboundMaxBytes
        maxBytes_eq := rfl
        handed := []
        failed := []
        statePushes := [] }

/-! ## Clients -/

/-- `bb_data_http_lifetime_t`. -/
inductive Lifetime where
  | ephemeral
  | durable
  deriving Repr, DecidableEq

/-- `struct bb_data_http_client` in use.  Proof-only: `acquiredOn` numbers the acquire. -/
structure Client (cfg : Config) where
  nonBlocking : Bool
  pendingRelease : Bool
  sub : Subscription
  poll : Option (PollState cfg)
  push : Option PushState
  sendFailCount : Nat
  warnedNoSendFn : Bool
  hasSendFn : Bool
  hasAbortFn : Bool
  lifetime : Lifetime
  out : Outbox cfg
  acquiredOn : Nat

/-- `bb_data_http_client_cfg_t`; a null topic filter is `none`. -/
structure ClientCfg where
  topicFilter : Option Bytes
  subscribeMask : BitVec 32
  nonBlocking : Bool
  hasSendFn : Bool
  hasAbortFn : Bool
  lifetime : Lifetime
  deriving Repr, DecidableEq

/-- A zero subscribe mask means every kind. -/
def ClientCfg.mask (c : ClientCfg) : BitVec 32 :=
  if c.subscribeMask = 0 then subscribeAll else c.subscribeMask

/-- The subscription a client is acquired with. -/
def ClientCfg.sub (c : ClientCfg) : Subscription :=
  { mask := c.mask, topicFilter := c.topicFilter.getD [] }

/-- The client table: `none` is a free slot. -/
abbrev Clients (cfg : Config) := Nat → Option (Client cfg)

/-- The client found in a slot after one slot was written. -/
theorem update_eq_some {cfg : Config} {clients : Clients cfg} {idx i : Nat}
    {client : Option (Client cfg)} {c : Client cfg}
    (h : Function.update clients idx client i = some c) :
    (i = idx ∧ client = some c) ∨ (i ≠ idx ∧ clients i = some c) := by
  by_cases hi : i = idx
  · subst hi
    exact Or.inl ⟨rfl, by simpa using h⟩
  · exact Or.inr ⟨hi, by simpa [Function.update_of_ne hi] using h⟩

/-- The number of slots below `n` whose client satisfies `p`. -/
def countClients {cfg : Config} (clients : Clients cfg) (p : Client cfg → Bool) (n : Nat) : Nat :=
  ((List.range n).filter fun i => (clients i).any p).length

/-- The first free slot below `n`. -/
def findFreeSlot {cfg : Config} (clients : Clients cfg) (n : Nat) : Option Nat :=
  (List.range n).find? fun i => (clients i).isNone

/-- One attach index of the fresh render on connect. -/
def markSlot (table : AttachTable) (sub : Subscription) (mask : BitVec 32) (k : Nat) : BitVec 32 :=
  match table[k]? with
  | none => mask
  | some slot => if slot.kind = .state ∧ sub.admits slot = true then setBit mask k else mask

/-- The fresh render on connect: every attached STATE key the client subscribes to is dirty. -/
def markAttached (table : AttachTable) (sub : Subscription) (dirty : BitVec 32) : BitVec 32 :=
  Foundations.forRange (markSlot table sub) dirty table.length

theorem getLsbD_markSlot_of_set {table : AttachTable} {sub : Subscription} {mask : BitVec 32}
    {j : Nat} (hj : j < 32) (hset : mask.getLsbD j = true) (k : Nat) :
    (markSlot table sub mask k).getLsbD j = true := by
  unfold markSlot
  split
  · exact hset
  split
  · rw [getLsbD_setBit _ hj, hset, Bool.true_or]
  · exact hset

/-- The fresh render marks every STATE key the client subscribes to. -/
theorem getLsbD_markAttached {table : AttachTable} {sub : Subscription} (dirty : BitVec 32)
    (hlen : table.length ≤ 32) {k : Nat} {slot : AttachSlot} (hslot : table[k]? = some slot)
    (hkind : slot.kind = .state) (hsub : sub.admits slot = true) :
    (markAttached table sub dirty).getLsbD k = true := by
  have hk : k < table.length := (List.getElem?_eq_some_iff.mp hslot).1
  have hk32 : k < 32 := Nat.lt_of_lt_of_le hk hlen
  have hstep (n : Nat) (mask : BitVec 32) (_ : n < table.length)
      (hmask : k < n → mask.getLsbD k = true) (hkn : k < n + 1) :
      (markSlot table sub mask n).getLsbD k = true := by
    by_cases hn : k = n
    · subst hn
      have hmark : markSlot table sub mask k = setBit mask k := by
        simp [markSlot, hslot, hkind, hsub]
      rw [hmark, getLsbD_setBit _ hk32]
      simp
    · exact getLsbD_markSlot_of_set hk32 (hmask (by omega)) n
  exact @Foundations.forRange_induct (BitVec 32) (fun n mask => k < n → mask.getLsbD k = true)
    _ dirty table.length (fun h => absurd h (Nat.not_lt_zero k)) hstep hk

/-- The slot contents `bb_data_http_client_acquire` publishes. -/
def Client.fresh {cfg : Config} (table : AttachTable) (er : EventRing cfg) (now : Nat)
    (c : ClientCfg) (out : Outbox cfg) : Client cfg :=
  { nonBlocking := c.nonBlocking
    pendingRelease := false
    sub := c.sub
    poll :=
      if c.mask.getLsbD ReplayKind.state.code then
        some { PollState.fresh cfg with dirtyMask := markAttached table c.sub 0 }
      else none
    push :=
      if c.mask.getLsbD ReplayKind.event.code then
        some (PushState.fresh er.totalPushed er.pushes)
      else none
    sendFailCount := 0
    warnedNoSendFn := false
    hasSendFn := c.hasSendFn
    hasAbortFn := c.hasAbortFn
    lifetime := c.lifetime
    out := out
    acquiredOn := now }

/--
`bb_data_http_client_acquire`: the filter length check, the blocking budget, a
free slot, a poll and a push block if subscribed, and the outbound queue.
-/
def acquire {cfg : Config} (table : AttachTable) (er : EventRing cfg) (now : Nat)
    (clients : Clients cfg) (c : ClientCfg) : Except BbErr (Nat × Client cfg) :=
  if topicMax ≤ (c.topicFilter.getD []).length then .error .invalidArg
  else if c.nonBlocking = false ∧
      cfg.maxBlockingClients ≤ countClients clients (fun d => !d.nonBlocking) cfg.clientSlots then
    .error .noSpace
  else
    match findFreeSlot clients cfg.clientSlots with
    | none => .error .noSpace
    | some i =>
      if c.mask.getLsbD ReplayKind.state.code = true ∧
          cfg.pollSlots ≤ countClients clients (fun d => d.poll.isSome) cfg.maxClients then
        .error .noSpace
      else if c.mask.getLsbD ReplayKind.event.code = true ∧
          cfg.pushSlots ≤ countClients clients (fun d => d.push.isSome) cfg.maxClients then
        .error .noSpace
      else
        match Outbox.create cfg with
        | .error e => .error e
        | .ok out => .ok (i, Client.fresh table er now c out)

/-- A successful acquire takes a free slot in range and fills it. -/
theorem acquire_ok {cfg : Config} {table : AttachTable} {er : EventRing cfg} {now : Nat}
    {clients : Clients cfg} {c : ClientCfg} {i : Nat} {client : Client cfg}
    (h : acquire table er now clients c = .ok (i, client)) :
    i < cfg.maxClients ∧ clients i = none ∧
      ∃ out, Outbox.create cfg = .ok out ∧ client = Client.fresh table er now c out := by
  unfold acquire at h
  split at h
  · cases h
  split at h
  · cases h
  split at h
  · cases h
  rename_i j hslot
  split at h
  · cases h
  split at h
  · cases h
  split at h
  · cases h
  rename_i out hout
  cases h
  unfold findFreeSlot at hslot
  have hlt : i < cfg.clientSlots := List.mem_range.mp (List.mem_of_find?_eq_some hslot)
  have hfree : (clients i).isNone = true := by simpa using List.find?_some hslot
  exact ⟨Nat.lt_of_lt_of_le hlt cfg.clientSlots_le, Option.isNone_iff_eq_none.mp hfree, out, hout,
    rfl⟩

end DataHttp
end Breadboard
