import Breadboard.DataHttp.Connections
import Breadboard.DataHttp.ServeOutgoing

/-!
# bb_data_http - what every step keeps of the connection tables

A client in use is referred to from one place: the slot of its connection, the task
that has yet to record, release or give it up, or its own release request.  Each
reference names the connection that acquired the client.  Steps pass references on;
a client is released by whoever holds the reference to it.

Main results:

- Theorems `Sound.release` and `Sound.abort`: releasing a client by its
  reference, and aborting a request that is owed an abort, keep the invariant.
- Theorems `Sound.turnedAway` and `Sound.join`: so do new connections.
-/

namespace Breadboard
namespace DataHttp

open Queue Foundations

variable {cfg : Config}

/-! ## The pool as the backend sees it -/

/-- `pending_release` of a client in use. -/
def World.flag (w : World cfg) (i : Nat) : Option Bool :=
  (w.clients i).map (·.pendingRelease)

namespace World

theorem flag_setClient (w : World cfg) (i : Nat) (c : Option (Client cfg)) (k : Nat) :
    (w.setClient i c).flag k = if k = i then c.map (·.pendingRelease) else w.flag k := by
  have hclients : (w.setClient i c).clients k = Function.update w.clients i c k := rfl
  rw [flag, hclients]
  by_cases hk : k = i
  · rw [if_pos hk, hk, Function.update_self]
  · rw [if_neg hk, Function.update_of_ne hk, flag]

/-- Rewriting a client that keeps its flag. -/
theorem flag_setClient_of_eq {w : World cfg} {i : Nat} {c c' : Client cfg}
    (hc : w.clients i = some c) (hflag : c'.pendingRelease = c.pendingRelease) (k : Nat) :
    (w.setClient i (some c')).flag k = w.flag k := by
  rw [flag_setClient]
  split
  · rename_i hk
    rw [hk, flag, hc, Option.map_some, Option.map_some, hflag]
  · rfl

theorem flag_of_clients {w w' : World cfg} (h : w'.clients = w.clients) (k : Nat) :
    w'.flag k = w.flag k := by
  rw [flag, flag, h]

theorem flag_detectKey (w : World cfg) (j k : Nat) : (w.detectKey j).flag k = w.flag k := by
  unfold detectKey
  split
  · rfl
  split
  · rfl
  dsimp only
  split
  · rfl
  · rename_i slot _ _ gen _
    simp only [flag, Option.map_map]
    refine congrArg (fun f => (w.clients k).map f) (funext fun c => ?_)
    simp only [Function.comp_apply, Client.detect]
    split <;> rfl

/-- The phases of a sweep before its clients keep every flag. -/
theorem flag_detect_pushPump (w : World cfg) (k : Nat) : w.detect.pushPump.flag k = w.flag k := by
  have hdetect : w.detect.flag k = w.flag k := by
    unfold detect
    split
    · rfl
    · exact @forRange_invariant (World cfg) (fun v => v.flag k = w.flag k) _ _ _ rfl
        fun j v _ hv => (flag_detectKey v j k).trans hv
  rw [← hdetect]
  unfold pushPump
  split
  · rfl
  · exact @forRange_invariant (World cfg) (fun v => v.flag k = w.detect.flag k) _ _ _ rfl
      fun j v _ hv => (flag_of_clients (pumpKey_clients v j) k).trans hv

theorem flag_drainClient {w : World cfg} {i : Nat} {c : Client cfg} (hc : w.clients i = some c)
    (k : Nat) : (w.drainClient i c).flag k = w.flag k := by
  have hclients := (w.drainState_frame c).2.2.1
  have hstate : (w.drainState c).2.pendingRelease = c.pendingRelease := by
    unfold drainState
    split <;> rfl
  have hevents : ((w.drainState c).2.drainEvents w.table w.events).pendingRelease =
      (w.drainState c).2.pendingRelease := by
    unfold Client.drainEvents
    split <;> rfl
  unfold drainClient
  rw [flag_setClient_of_eq (c := c) (by rw [hclients, hc]) (hevents.trans hstate),
    flag_of_clients hclients]

end World

/-! ## Events -/

/-- The request an abort was made on. -/
def Event.request : Event → Option Nat
  | .aborted request _ => some request
  | _ => none

/-- Who sends for whom. -/
def Event.Delivered : Event → Prop
  | .unrouted _ => False
  | .sseSent queuedFor sentOn => sentOn = queuedFor
  | .wsSent queuedFor sentOn since => sentOn = queuedFor ∨ since ≤ sentOn
  | _ => True

namespace Connections

/-! ## References -/

/-- Who may hold the reference to a client. -/
inductive Bearer where
  | sse (slot : Nat)
  | ws (slot : Nat)
  | httpd
  | broadcaster
  | pending (client : Nat)
  deriving Repr, DecidableEq

/-- The client the httpd task has yet to record or to give up. -/
def httpdRef : Httpd → Option (Nat × Holder)
  | .sseAcquired conn i => some (i, { conn := conn, transport := .sse })
  | .wsAcquired conn _ i => some (i, { conn := conn, transport := .ws })
  | .wsCleared (some slot) => some (slot.client, { conn := slot.conn, transport := .ws })
  | _ => none

/-- The client the broadcaster has yet to release. -/
def broadcasterRef : Broadcaster → Option (Nat × Holder)
  | .releasing i (some req) _ => some (i, { conn := req, transport := .sse })
  | _ => none

/-- The client and the connection a bearer refers to. -/
def refers (s : Connections cfg) : Bearer → Option (Nat × Holder)
  | .sse j => (s.sse j).map fun slot => (slot.client, { conn := slot.asyncReq, transport := .sse })
  | .ws j => (s.ws j).map fun slot => (slot.client, { conn := slot.conn, transport := .ws })
  | .httpd => httpdRef s.httpd
  | .broadcaster => broadcasterRef s.broadcaster
  | .pending i =>
    if s.core.flag i = some true then
      some (i, { conn := (s.holder i).conn, transport := .ws })
    else none

/-- The last acquire of a client in use. -/
def owner (s : Connections cfg) (i : Nat) : Option Holder :=
  (s.core.flag i).map fun _ => s.holder i

/-- The broadcaster released a client and moves on. -/
def released (s : Connections cfg) (i : Nat) (b : Broadcaster) : Connections cfg :=
  { s.release i with broadcaster := b }

/-- A connection got its client. -/
def joined (s : Connections cfg) (i : Nat) (client : Client cfg) (t : Transport)
    (sessions : Nat → Option Nat) (p : Httpd) : Connections cfg :=
  { s.take i client t with sessions := sessions, httpd := p }

/-! ## The invariant -/

/-- The descriptor was this connection's at the lookup, and later sessions on it are newer. -/
def Routed (s : Connections cfg) (fd conn since : Nat) : Prop :=
  since ≤ s.accepted ∧ ∀ m, s.sessions fd = some m → m = conn ∨ since ≤ m

/-- What the broadcaster relies on from one step to the next. -/
def Serving (s : Connections cfg) : Broadcaster → Prop
  | .probe j held | .dead j held => s.sse j = some held
  | .reaping i => s.core.flag i = some true
  | .calling i conn => ∃ a, s.owner i = some a ∧ a.conn = conn
  | .sending i conn (.sse req) => conn = req ∧ ∃ j, s.sse j = some { asyncReq := req, client := i }
  | .sending _ conn (.ws fd since) => s.Routed fd conn since
  | .aborting i => ∃ j slot, s.sse j = some slot ∧ slot.client = i
  | .releasing _ req _ => req ≠ none
  | .ending req released _ => req = some released
  | _ => True

/-- How often a request was aborted. -/
def aborts (s : Connections cfg) (conn : Nat) : Nat :=
  s.log.countP fun e => e.request = some conn

/-- Acquires and releases for a connection: none yet, a client held, or given back once. -/
inductive Life (s : Connections cfg) (n : Nat) : Prop where
  | unused (hacquired : s.log.count (.acquired n) = 0) (hreleased : s.log.count (.released n) = 0)
      (hnot : ∀ i a, s.owner i = some a → a.conn ≠ n)
  | held (i : Nat) (a : Holder) (howner : s.owner i = some a) (hconn : a.conn = n)
      (hacquired : s.log.count (.acquired n) = 1) (hreleased : s.log.count (.released n) = 0)
  | spent (hacquired : s.log.count (.acquired n) = 1) (hreleased : s.log.count (.released n) = 1)
      (hnot : ∀ i a, s.owner i = some a → a.conn ≠ n)

/-- What holds between any two steps. -/
structure Sound (s : Connections cfg) : Prop where
  borne : Borne s.owner s.refers
  sse_lt : ∀ j, s.sse j ≠ none → j < cfg.maxClients
  ws_lt : ∀ j, s.ws j ≠ none → j < cfg.maxClients
  client_lt : ∀ i, s.owner i ≠ none → i < cfg.maxClients
  conn_inj : ∀ i k a b, s.owner i = some a → s.owner k = some b → a.conn = b.conn → i = k
  ws_open : ∀ j slot, s.ws j = some slot → s.sessions slot.fd = some slot.conn
  connecting : ∀ conn fd i, s.httpd = .wsAcquired conn fd i → s.sessions fd = some conn
  session_lt : ∀ fd conn, s.sessions fd = some conn → conn < s.accepted
  routed : ∀ x ∈ s.work, s.Routed x.fd x.conn x.since
  roomy : ∀ i req, s.httpd ≠ .tableFull i req
  serving : s.Serving s.broadcaster
  life : ∀ n, s.Life n
  fresh : ∀ n, s.accepted ≤ n → s.log.count (.acquired n) = 0 ∧ s.aborts n = 0
  aborts_le : ∀ n, s.aborts n ≤ 1
  unaborted : ∀ i a, s.owner i = some a → s.aborts a.conn = 0
  refusing : ∀ req r, s.httpd = .ending req r →
    r = none ∧ req < s.accepted ∧ s.log.count (.acquired req) = 0 ∧ s.aborts req = 0
  ending : ∀ req r back, s.broadcaster = .ending req r back →
    s.log.count (.released r) = 1 ∧ s.aborts r = 0
  refused : ∀ n, .aborted n none ∈ s.log → n < s.accepted ∧ s.log.count (.acquired n) = 0
  aborted : ∀ n r, .aborted n (some r) ∈ s.log → r = n ∧ s.log.count (.released n) = 1
  delivered : ∀ e ∈ s.log, e.Delivered

/-- A sweep is about to send for an SSE client that its connect has yet to record. -/
def unrecorded (s : Connections cfg) : Bool :=
  match s.broadcaster, s.httpd with
  | .calling i _, .sseAcquired _ k => i = k
  | _, _ => false

/-- The step is no such call. -/
def Recorded (s : Connections cfg) : Act cfg → Prop
  | .broadcaster _ => s.unrecorded = false
  | _ => True

instance (s : Connections cfg) : ∀ a, Decidable (s.Recorded a)
  | .broadcaster _ => inferInstanceAs (Decidable (_ = _))
  | .attach _ => isTrue trivial
  | .publish _ => isTrue trivial
  | .elapse _ => isTrue trivial
  | .sseConnect _ => isTrue trivial
  | .wsConnect _ => isTrue trivial
  | .wsDisconnect _ => isTrue trivial
  | .wsWork => isTrue trivial
  | .httpd => isTrue trivial

theorem unrecorded_iff (s : Connections cfg) :
    s.unrecorded = true ↔
      ∃ i conn m, s.broadcaster = .calling i conn ∧ s.httpd = .sseAcquired m i := by
  unfold unrecorded
  constructor
  · intro h
    split at h
    · rename_i i conn m k hb hp
      have hik : i = k := by simpa using h
      exact ⟨i, conn, m, hb, hik ▸ hp⟩
    · cases h
  · rintro ⟨i, conn, m, hb, hp⟩
    rw [hb, hp]
    simp

theorem sound_init (seams : Seams) (sources : Bytes → Source cfg) (clock : Nat) :
    (init seams sources clock).Sound where
  borne := by
    refine ⟨fun v w k a b hv => ?_, fun v k a hv => ?_, fun k a hk => ?_⟩
    · cases v <;> cases hv
    · cases v <;> cases hv
    · cases hk
  sse_lt j hj := absurd rfl hj
  ws_lt j hj := absurd rfl hj
  client_lt i hi := absurd rfl hi
  conn_inj i k a b ha := by cases ha
  ws_open j slot hj := by cases hj
  connecting conn fd i h := by cases h
  session_lt fd conn h := by cases h
  routed x hx := by cases hx
  roomy i req h := by cases h
  serving := trivial
  life n := .unused rfl rfl fun i a ha => by cases ha
  fresh n _ := ⟨rfl, rfl⟩
  aborts_le n := Nat.zero_le 1
  unaborted i a ha := by cases ha
  refusing req r h := by cases h
  ending req r back h := by cases h
  refused n h := by cases h
  aborted n r h := by cases h
  delivered e he := by cases he

/-! ## What carries over -/

section Carry

variable {s s' : Connections cfg}

theorem owner_eq_some {i : Nat} {a : Holder} (h : s.owner i = some a) : s.holder i = a := by
  obtain ⟨_, _, ha⟩ := Option.map_eq_some_iff.mp h
  exact ha

theorem owner_of_clients {i : Nat} {c : Client cfg} (h : s.core.clients i = some c) :
    s.owner i = some (s.holder i) := by
  simp only [owner, World.flag, h, Option.map_some]

theorem count_push (log : List Event) (e f : Event) :
    (log ++ [e]).count f = log.count f + if e = f then 1 else 0 := by
  simp [List.count_append, List.count_singleton]

theorem countP_push (log : List Event) (e : Event) (n : Nat) :
    (log ++ [e]).countP (fun e => e.request = some n) =
      log.countP (fun e => e.request = some n) + if e.request = some n then 1 else 0 := by
  simp [List.countP_append, List.countP_singleton]

theorem Life.congr {n : Nat} (h : s.Life n) (howner : ∀ i, s'.owner i = s.owner i)
    (hacquired : s'.log.count (.acquired n) = s.log.count (.acquired n))
    (hreleased : s'.log.count (.released n) = s.log.count (.released n)) : s'.Life n := by
  cases h with
  | unused ha hr hnot =>
    exact .unused (hacquired.trans ha) (hreleased.trans hr) fun i a hi => hnot i a (howner i ▸ hi)
  | held i a hown hconn ha hr =>
    exact .held i a ((howner i).trans hown) hconn (hacquired.trans ha) (hreleased.trans hr)
  | spent ha hr hnot =>
    exact .spent (hacquired.trans ha) (hreleased.trans hr) fun i a hi => hnot i a (howner i ▸ hi)

/-- What the broadcaster relies on outlives every step that takes nothing away. -/
theorem Serving.mono {b : Broadcaster} (h : s.Serving b)
    (hsse : ∀ j slot, s.sse j = some slot → s'.sse j = some slot)
    (hflag : ∀ i, s.core.flag i = some true → s'.core.flag i = some true)
    (howner : ∀ i a, s.owner i = some a → s'.owner i = some a)
    (hrouted : ∀ fd conn since, s.Routed fd conn since → s'.Routed fd conn since) :
    s'.Serving b := by
  cases b with
  | probe j held => exact hsse j held h
  | dead j held => exact hsse j held h
  | reaping i => exact hflag i h
  | calling i conn =>
    obtain ⟨a, ha, hconn⟩ := h
    exact ⟨a, howner i a ha, hconn⟩
  | sending i conn route =>
    cases route with
    | sse req =>
      obtain ⟨hreq, j, hj⟩ := h
      exact ⟨hreq, j, hsse j _ hj⟩
    | ws fd since => exact hrouted fd conn since h
  | aborting i =>
    obtain ⟨j, slot, hj, hslot⟩ := h
    exact ⟨j, slot, hsse j slot hj, hslot⟩
  | releasing i req back => exact h
  | ending req r back => exact h
  | _ => trivial

namespace Sound

/-- The core works on, and no client changes its flag. -/
theorem setCore (h : s.Sound) {w : World cfg} (hflag : ∀ i, w.flag i = s.core.flag i) :
    ({ s with core := w } : Connections cfg).Sound := by
  have howner (i : Nat) : ({ s with core := w } : Connections cfg).owner i = s.owner i := by
    simp only [owner, hflag]
  have hrefers (u : Bearer) : ({ s with core := w } : Connections cfg).refers u = s.refers u := by
    cases u with
    | pending i => simp only [refers, hflag]
    | _ => rfl
  exact
    { h with
      borne := h.borne.congr howner hrefers
      client_lt := fun i hi => h.client_lt i (howner i ▸ hi)
      conn_inj := fun i k a b ha hb => h.conn_inj i k a b (howner i ▸ ha) (howner k ▸ hb)
      serving := h.serving.mono (fun _ _ hj => hj) (fun i hi => (hflag i).trans hi)
        (fun i a ha => (howner i).trans ha) fun _ _ _ hr => hr
      life := fun n => (h.life n).congr howner rfl rfl
      unaborted := fun i a ha => h.unaborted i a (howner i ▸ ha) }

/-- The broadcaster moves on without a reference in its hands. -/
theorem goTo (h : s.Sound) {b : Broadcaster} (hold : broadcasterRef s.broadcaster = none)
    (hnew : broadcasterRef b = none) (hserving : s.Serving b)
    (hending : ∀ req r back, b ≠ .ending req r back) :
    ({ s with broadcaster := b } : Connections cfg).Sound := by
  have hrefers (u : Bearer) : ({ s with broadcaster := b } : Connections cfg).refers u =
      s.refers u := by
    cases u with
    | broadcaster => exact hnew.trans hold.symm
    | _ => rfl
  exact
    { h with
      borne := h.borne.congr (fun _ => rfl) hrefers
      serving := hserving.mono (fun _ _ hj => hj) (fun _ hi => hi) (fun _ _ ha => ha)
        fun _ _ _ hr => hr
      life := fun n => (h.life n).congr (fun _ => rfl) rfl rfl
      ending := fun req r back hb => absurd hb (hending req r back) }

/-- A send is logged. -/
theorem note_sent (h : s.Sound) {e : Event} (he : e.Delivered)
    (hplain : ∀ n, e ≠ .acquired n ∧ e ≠ .released n ∧ ∀ r, e ≠ .aborted n r) :
    (s.note e).Sound := by
  have hrequest (n : Nat) : e.request ≠ some n := by
    cases e with
    | aborted m r => exact absurd rfl ((hplain m).2.2 r)
    | _ => nofun
  have hacquired (n : Nat) : (s.note e).log.count (.acquired n) = s.log.count (.acquired n) := by
    simp only [note, count_push, (hplain n).1, if_false, Nat.add_zero]
  have hreleased (n : Nat) : (s.note e).log.count (.released n) = s.log.count (.released n) := by
    simp only [note, count_push, (hplain n).2.1, if_false, Nat.add_zero]
  have haborts (n : Nat) : (s.note e).aborts n = s.aborts n := by
    simp only [aborts, note, countP_push, hrequest n, if_false, Nat.add_zero]
  have hmem {f : Event} (hf : f ∈ (s.note e).log) : f ∈ s.log ∨ f = e := by
    simpa [note] using hf
  exact
    { h with
      borne := h.borne.congr (fun _ => rfl) fun u => by cases u <;> rfl
      serving := h.serving.mono (fun _ _ hj => hj) (fun _ hi => hi) (fun _ _ ha => ha)
        fun _ _ _ hr => hr
      life := fun n => (h.life n).congr (fun _ => rfl) (hacquired n) (hreleased n)
      fresh := fun n hn => by
        rw [hacquired, haborts]
        exact h.fresh n hn
      aborts_le := fun n => (haborts n).trans_le (h.aborts_le n)
      unaborted := fun i a ha => (haborts a.conn).trans (h.unaborted i a ha)
      refusing := fun req r hr => by
        rw [hacquired, haborts]
        exact h.refusing req r hr
      ending := fun req r back hb => by
        rw [hreleased, haborts]
        exact h.ending req r back hb
      refused := fun n hn => by
        rw [hacquired]
        rcases hmem hn with hn | rfl
        · exact h.refused n hn
        · exact absurd rfl ((hplain n).2.2 none)
      aborted := fun n r hn => by
        rw [hreleased]
        rcases hmem hn with hn | rfl
        · exact h.aborted n r hn
        · exact absurd rfl ((hplain n).2.2 (some r))
      delivered := fun f hf => by
        rcases hmem hf with hf | rfl
        · exact h.delivered f hf
        · exact he }

/-! ## Releases -/

/-- A client in use belongs to a connection that acquired once and has released nothing yet. -/
theorem held_counts (h : s.Sound) {i : Nat} {a : Holder} (ha : s.owner i = some a) :
    s.log.count (.acquired a.conn) = 1 ∧ s.log.count (.released a.conn) = 0 := by
  cases h.life a.conn with
  | unused _ _ hnot => exact absurd rfl (hnot i a ha)
  | held _ _ _ _ hacquired hreleased => exact ⟨hacquired, hreleased⟩
  | spent _ _ hnot => exact absurd rfl (hnot i a ha)

/-- A client somebody refers to has no release requested, or it is the request that refers to it. -/
theorem not_pending (h : s.Sound) {v : Bearer} {i : Nat} {a : Holder}
    (hv : s.refers v = some (i, a)) (hne : .pending i ≠ v) : s.refers (.pending i) = none := by
  cases hp : s.refers (.pending i) with
  | none => rfl
  | some r =>
    have hr := hp
    simp only [refers] at hr
    split at hr
    · cases hr
      exact absurd (h.borne.inj _ _ _ _ _ hp hv) hne
    · cases hr

section Release

variable {i : Nat} {a : Holder} {b : Broadcaster}

theorem flag_released (k : Nat) :
    (s.released i b).core.flag k = if k = i then none else s.core.flag k :=
  s.core.flag_setClient i none k

theorem owner_released (k : Nat) :
    (s.released i b).owner k = if k = i then none else s.owner k := by
  rw [owner, flag_released]
  split <;> rfl

/-- Who still holds a client after a release held it before. -/
theorem owner_of_released {k : Nat} {c : Holder} (hk : (s.released i b).owner k = some c) :
    k ≠ i ∧ s.owner k = some c := by
  rw [owner_released] at hk
  split at hk
  · cases hk
  · exact ⟨‹_›, hk⟩

theorem count_released (hown : s.owner i = some a) (f : Event) : (s.released i b).log.count f =
    s.log.count f + if .released a.conn = f then 1 else 0 := by
  rw [← owner_eq_some hown]
  exact count_push s.log _ f

theorem aborts_released (n : Nat) : (s.released i b).aborts n = s.aborts n :=
  countP_push s.log _ n

theorem mem_released {f : Event} (hf : f ∈ (s.released i b).log) :
    f ∈ s.log ∨ f = .released (s.holder i).conn := by
  simpa [Connections.released, Connections.release] using hf

/-- The reference in the hands of the broadcaster, or the request, goes with the client. -/
theorem borne_released (h : s.Sound) {v : Bearer} (hv : s.refers v = some (i, a))
    (hbearer : v = .broadcaster ∨ v = .pending i ∧ broadcasterRef s.broadcaster = none)
    (hnew : broadcasterRef b = none) :
    Borne (s.released i b).owner (s.released i b).refers := by
  refine h.borne.drop hv (by rw [owner_released, if_pos rfl])
    (fun q hq => by rw [owner_released, if_neg hq]) ?_ fun u hu => ?_
  · rcases hbearer with rfl | ⟨rfl, -⟩
    · exact hnew
    · simp only [refers, flag_released, if_true]
      rfl
  · cases u with
    | broadcaster =>
      rcases hbearer with rfl | ⟨-, hold⟩
      · exact absurd rfl hu
      · exact hnew.trans hold.symm
    | pending k =>
      by_cases hk : k = i
      · subst hk
        -- whoever holds the reference, no release of this client was requested
        have hnone := h.not_pending hv hu
        rw [hnone]
        simp only [refers, flag_released, if_true]
        rfl
      · simp only [refers, flag_released, if_neg hk]
        rfl
    | _ => rfl

/-- The released connection is spent, and the others live on. -/
theorem life_released (h : s.Sound) (hown : s.owner i = some a) (n : Nat) :
    (s.released i b).Life n := by
  obtain ⟨hacquired, hreleased⟩ := h.held_counts hown
  have hacq : (s.released i b).log.count (.acquired n) = s.log.count (.acquired n) :=
    count_released hown _
  by_cases hn : n = a.conn
  · subst hn
    refine .spent (hacq.trans hacquired) ?_ fun k c hk heq => ?_
    · rw [count_released hown, hreleased, if_pos rfl]
    · obtain ⟨hki, hk⟩ := owner_of_released hk
      exact hki (h.conn_inj k i c a hk hown heq)
  · have hrel : (s.released i b).log.count (.released n) = s.log.count (.released n) := by
      rw [count_released hown, if_neg fun heq => hn (Event.released.inj heq).symm]
      rfl
    cases h.life n with
    | unused ha hr hnot =>
      exact .unused (hacq.trans ha) (hrel.trans hr) fun k c hk => hnot k c (owner_of_released hk).2
    | held k c hk hc ha hr =>
      have hki : k ≠ i := by
        rintro rfl
        rw [hown] at hk
        cases hk
        exact hn hc.symm
      exact .held k c (by rw [owner_released, if_neg hki, hk]) hc (hacq.trans ha) (hrel.trans hr)
    | spent ha hr hnot =>
      exact .spent (hacq.trans ha) (hrel.trans hr) fun k c hk => hnot k c (owner_of_released hk).2

/-- The broadcaster releases a client it holds, or one whose release was requested. -/
theorem release (h : s.Sound) {v : Bearer} (hv : s.refers v = some (i, a))
    (hbearer : v = .broadcaster ∨ v = .pending i ∧ broadcasterRef s.broadcaster = none)
    (hnew : broadcasterRef b = none) (hserving : (s.released i b).Serving b)
    (hending : ∀ req r back, b = .ending req r back → r = a.conn) : (s.released i b).Sound := by
  have hown := h.borne.owned v i a hv
  obtain ⟨hacquired, hreleased⟩ := h.held_counts hown
  refine
    { h with
      borne := h.borne_released hv hbearer hnew
      client_lt := fun k hk => ?_
      conn_inj := fun k l c d hk hl =>
        h.conn_inj k l c d (owner_of_released hk).2 (owner_of_released hl).2
      serving := hserving
      life := h.life_released hown
      fresh := fun n hn => ?_
      aborts_le := fun n => (aborts_released n).trans_le (h.aborts_le n)
      unaborted := fun k c hk =>
        (aborts_released c.conn).trans (h.unaborted k c (owner_of_released hk).2)
      refusing := fun req r hr => ?_
      ending := fun req r back hb => ?_
      refused := fun n hn => ?_
      aborted := fun n r hn => ?_
      delivered := fun f hf => ?_ }
  · obtain ⟨c, hc⟩ := Option.ne_none_iff_exists'.mp hk
    refine h.client_lt k ?_
    rw [(owner_of_released hc).2]
    nofun
  · rw [count_released hown, aborts_released]
    exact h.fresh n hn
  · rw [count_released hown, aborts_released]
    exact h.refusing req r hr
  · rw [hending req r back hb, count_released hown, aborts_released, hreleased, if_pos rfl]
    exact ⟨rfl, h.unaborted i a hown⟩
  · rw [count_released hown]
    rcases mem_released hn with hn | hn
    · exact h.refused n hn
    · cases hn
  · rcases mem_released hn with hn | hn
    · obtain ⟨hr, hcount⟩ := h.aborted n r hn
      refine ⟨hr, ?_⟩
      rw [count_released hown, hcount, if_neg]
      intro heq
      rw [← Event.released.inj heq, hreleased] at hcount
      cases hcount
    · cases hn
  · rcases mem_released hf with hf | rfl
    · exact h.delivered f hf
    · trivial

end Release

/-! ## Aborts -/

/-- The httpd task leaves a callback without a reference in its hands. -/
theorem goIdle (h : s.Sound) (hold : httpdRef s.httpd = none) :
    ({ s with httpd := .idle } : Connections cfg).Sound := by
  have hrefers (u : Bearer) : ({ s with httpd := .idle } : Connections cfg).refers u =
      s.refers u := by
    cases u with
    | httpd => exact hold.symm
    | _ => rfl
  exact
    { h with
      borne := h.borne.congr (fun _ => rfl) hrefers
      connecting := nofun
      roomy := nofun
      serving := h.serving.mono (fun _ _ hj => hj) (fun _ hi => hi) (fun _ _ ha => ha)
        fun _ _ _ hr => hr
      life := fun n => (h.life n).congr (fun _ => rfl) rfl rfl
      refusing := nofun }

/-- A request is aborted that was refused, or whose client was released. -/
theorem abort (h : s.Sound) {req : Nat} {r : Option Nat} (hlt : req < s.accepted)
    (hnone : s.aborts req = 0) (hunowned : ∀ i a, s.owner i = some a → a.conn ≠ req)
    (hhow : r = none ∧ s.log.count (.acquired req) = 0 ∨
      r = some req ∧ s.log.count (.released req) = 1)
    (hrefusing : ∀ q c, s.httpd = .ending q c → q ≠ req)
    (hending : ∀ q c back, s.broadcaster = .ending q c back → c ≠ req) : (s.abort req r).Sound := by
  have hcount (f : Event) (hf : Event.aborted req r ≠ f) :
      (s.abort req r).log.count f = s.log.count f := by
    simp only [Connections.abort, note, count_push, if_neg hf, Nat.add_zero]
  have hacquired (n : Nat) := hcount (.acquired n) nofun
  have hreleased (n : Nat) := hcount (.released n) nofun
  have haborts (n : Nat) : (s.abort req r).aborts n =
      s.aborts n + if some req = some n then 1 else 0 :=
    countP_push s.log _ n
  have hother {n : Nat} (hn : n ≠ req) : (s.abort req r).aborts n = s.aborts n := by
    rw [haborts, if_neg fun heq => hn (Option.some.inj heq).symm]
    rfl
  have hmem {f : Event} (hf : f ∈ (s.abort req r).log) : f ∈ s.log ∨ f = .aborted req r := by
    simpa [Connections.abort, note] using hf
  refine
    { h with
      borne := h.borne.congr (fun _ => rfl) fun u => by cases u <;> rfl
      serving := h.serving.mono (fun _ _ hj => hj) (fun _ hi => hi) (fun _ _ ha => ha)
        fun _ _ _ hr => hr
      life := fun n => (h.life n).congr (fun _ => rfl) (hacquired n) (hreleased n)
      fresh := fun n hn => ?_
      aborts_le := fun n => ?_
      unaborted := fun i a ha => (hother (hunowned i a ha)).trans (h.unaborted i a ha)
      refusing := fun q c hq => ?_
      ending := fun q c back hq => ?_
      refused := fun n hn => ?_
      aborted := fun n c hn => ?_
      delivered := fun f hf => ?_ }
  · have hne : n ≠ req := fun heq => absurd hlt (Nat.not_lt.mpr (heq ▸ hn))
    rw [hacquired, hother hne]
    exact h.fresh n hn
  · rw [haborts]
    split
    · rename_i heq
      rw [← Option.some.inj heq, hnone]
    · exact h.aborts_le n
  · rw [hacquired, hother (hrefusing q c hq)]
    exact h.refusing q c hq
  · rw [hreleased, hother (hending q c back hq)]
    exact h.ending q c back hq
  · rw [hacquired]
    rcases hmem hn with hn | hn
    · exact h.refused n hn
    · cases hn
      rcases hhow with ⟨-, hacq⟩ | ⟨hr, -⟩
      · exact ⟨hlt, hacq⟩
      · cases hr
  · rw [hreleased]
    rcases hmem hn with hn | hn
    · exact h.aborted n c hn
    · cases hn
      rcases hhow with ⟨hr, -⟩ | ⟨hr, hrel⟩
      · cases hr
      · cases hr
        exact ⟨rfl, hrel⟩
  · rcases hmem hf with hf | rfl
    · exact h.delivered f hf
    · trivial

/-- A connection whose client was released is one that acquired it. -/
theorem acquired_of_released (h : s.Sound) {n : Nat} (hn : s.log.count (.released n) = 1) :
    s.log.count (.acquired n) = 1 ∧ n < s.accepted ∧
      ∀ i a, s.owner i = some a → a.conn ≠ n := by
  have hlt (hacquired : s.log.count (.acquired n) = 1) : n < s.accepted := by
    by_contra hge
    have hnew := (h.fresh n (Nat.not_lt.mp hge)).1
    rw [hacquired] at hnew
    cases hnew
  cases h.life n with
  | unused _ hr _ =>
    rw [hr] at hn
    cases hn
  | held _ _ _ _ _ hr =>
    rw [hr] at hn
    cases hn
  | spent ha _ hnot => exact ⟨ha, hlt ha, hnot⟩

/-- The broadcaster aborts the request whose client it has just released. -/
theorem aborted_by_broadcaster (h : s.Sound) {req r : Nat} {back : Resume}
    (hb : s.broadcaster = .ending (some req) r back) :
    ({ s.abort req (some r) with broadcaster := resume back } : Connections cfg).Sound := by
  have hreq : req = r := by
    have hserving := h.serving
    rw [hb] at hserving
    exact Option.some.inj hserving
  subst hreq
  obtain ⟨hreleased, hnone⟩ := h.ending _ _ _ hb
  obtain ⟨hacquired, hlt, hunowned⟩ := h.acquired_of_released hreleased
  have hfree : broadcasterRef s.broadcaster = none := by
    rw [hb]
    rfl
  have hback : ({ s with broadcaster := resume back } : Connections cfg).Sound := by
    refine h.goTo hfree ?_ ?_ ?_ <;> cases back <;> first | rfl | trivial | nofun
  refine hback.abort hlt hnone hunowned (.inr ⟨rfl, hreleased⟩) (fun q c hq heq => ?_) ?_
  · have hrefused := (h.refusing q c hq).2.2.1
    rw [heq, hacquired] at hrefused
    cases hrefused
  · cases back <;> nofun

/-- The httpd task aborts a request it could not acquire a client for. -/
theorem aborted_by_httpd (h : s.Sound) {req : Nat} {r : Option Nat} (hp : s.httpd = .ending req r) :
    ({ s.abort req r with httpd := .idle } : Connections cfg).Sound := by
  obtain ⟨rfl, hlt, hacquired, hnone⟩ := h.refusing _ _ hp
  have hfree : httpdRef s.httpd = none := by
    rw [hp]
    rfl
  refine (h.goIdle hfree).abort hlt hnone (fun i a ha heq => ?_) (.inl ⟨rfl, hacquired⟩) nofun
    fun q c back hq heq => ?_
  · have hheld := (h.held_counts ha).1
    rw [heq, hacquired] at hheld
    cases hheld
  · have hheld := (h.acquired_of_released (h.ending q c back hq).1).1
    rw [heq, hacquired] at hheld
    cases hheld

/-! ## New connections -/

theorem conn_lt (h : s.Sound) {i : Nat} {a : Holder} (ha : s.owner i = some a) :
    a.conn < s.accepted := by
  by_contra hge
  have hnew := (h.fresh a.conn (Nat.not_lt.mp hge)).1
  rw [(h.held_counts ha).1] at hnew
  cases hnew

/-- A connection number that is not given out yet was never released. -/
theorem released_fresh (h : s.Sound) {n : Nat} (hn : s.accepted ≤ n) :
    s.log.count (.released n) = 0 := by
  cases h.life n with
  | unused _ hr _ => exact hr
  | held _ _ _ _ _ hr => exact hr
  | spent _ hr _ =>
    have hlt := (h.acquired_of_released hr).2.1
    omega

end Sound

/-- At most one session is opened, on an unused descriptor and for the next connection. -/
def Opens (s : Connections cfg) (sessions : Nat → Option Nat) : Prop :=
  ∀ fd, sessions fd = s.sessions fd ∨ s.sessions fd = none ∧ sessions fd = some s.accepted

theorem opens_self (s : Connections cfg) : Opens s s.sessions :=
  fun _ => .inl rfl

theorem opens_update {fd : Nat} (hfd : s.sessions fd = none) :
    Opens s (Function.update s.sessions fd (some s.accepted)) := by
  intro fd'
  by_cases hne : fd' = fd
  · subst hne
    exact .inr ⟨hfd, Function.update_self ..⟩
  · exact .inl (Function.update_of_ne hne ..)

namespace Opens

variable {sessions : Nat → Option Nat}

theorem kept (h : Opens s sessions) {fd conn : Nat} (hfd : s.sessions fd = some conn) :
    sessions fd = some conn := by
  rcases h fd with hsame | ⟨hnone, -⟩
  · rw [hsame, hfd]
  · rw [hfd] at hnone
    cases hnone

theorem lt (h : Opens s sessions) (hs : s.Sound) {fd conn : Nat} (hfd : sessions fd = some conn) :
    conn < s.accepted + 1 := by
  rcases h fd with hsame | ⟨-, hnew⟩
  · rw [hsame] at hfd
    exact Nat.lt_succ_of_lt (hs.session_lt fd conn hfd)
  · rw [hnew] at hfd
    cases hfd
    exact Nat.lt_succ_self _

theorem routed (h : Opens s sessions) (haccepted : s'.accepted = s.accepted + 1)
    (hsessions : s'.sessions = sessions) {fd conn since : Nat} (hr : s.Routed fd conn since) :
    s'.Routed fd conn since := by
  refine ⟨by rw [haccepted]; exact Nat.le_succ_of_le hr.1, fun m hm => ?_⟩
  rw [hsessions] at hm
  rcases h fd with hsame | ⟨-, hnew⟩
  · exact hr.2 m (hsame ▸ hm)
  · rw [hnew] at hm
    cases hm
    exact .inr hr.1

end Opens

namespace Sound

/-- A connection gets the next number but no client. -/
theorem turnedAway (h : s.Sound) (hidle : s.httpd = .idle) {sessions : Nat → Option Nat}
    (hopens : Opens s sessions) {p : Httpd} (hp : p = .idle ∨ p = .ending s.accepted none) :
    ({ s with sessions := sessions, httpd := p, accepted := s.accepted + 1 } :
      Connections cfg).Sound := by
  have hrefers (u : Bearer) :
      ({ s with sessions := sessions, httpd := p, accepted := s.accepted + 1 } :
        Connections cfg).refers u = s.refers u := by
    cases u with
    | httpd =>
      simp only [refers, hidle]
      rcases hp with rfl | rfl <;> rfl
    | _ => rfl
  refine
    { h with
      borne := h.borne.congr (fun _ => rfl) hrefers
      ws_open := fun j slot hj => hopens.kept (h.ws_open j slot hj)
      connecting := fun conn fd i hw => ?_
      session_lt := fun fd conn hfd => hopens.lt h hfd
      routed := fun x hx => hopens.routed rfl rfl (h.routed x hx)
      roomy := fun i req hfull => ?_
      serving := h.serving.mono (fun _ _ hj => hj) (fun _ hi => hi) (fun _ _ ha => ha)
        fun _ _ _ hr => hopens.routed rfl rfl hr
      life := fun n => (h.life n).congr (fun _ => rfl) rfl rfl
      fresh := fun n hn => h.fresh n (Nat.le_of_succ_le hn)
      refusing := fun req r hr => ?_
      refused := fun n hn => ⟨Nat.lt_succ_of_lt (h.refused n hn).1, (h.refused n hn).2⟩ }
  · rcases hp with rfl | rfl <;> cases hw
  · rcases hp with rfl | rfl <;> cases hfull
  · rcases hp with rfl | rfl
    · cases hr
    · cases hr
      exact ⟨rfl, Nat.lt_succ_self _, h.fresh _ (Nat.le_refl _)⟩

section Join

variable {i : Nat} {client : Client cfg} {t : Transport} {sessions : Nat → Option Nat} {p : Httpd}

theorem flag_joined (hclient : client.pendingRelease = false) (k : Nat) :
    (s.joined i client t sessions p).core.flag k =
      if k = i then some false else s.core.flag k := by
  rw [← hclient]
  exact s.core.flag_setClient i (some client) k

theorem holder_joined {k : Nat} (hk : k ≠ i) :
    (s.joined i client t sessions p).holder k = s.holder k :=
  Function.update_of_ne hk ..

theorem owner_joined (hclient : client.pendingRelease = false) (k : Nat) :
    (s.joined i client t sessions p).owner k =
      if k = i then some { conn := s.accepted, transport := t } else s.owner k := by
  rw [owner, flag_joined hclient]
  by_cases hk : k = i
  · subst hk
    rw [if_pos rfl, if_pos rfl]
    exact congrArg some (Function.update_self ..)
  · rw [if_neg hk, if_neg hk, holder_joined hk]
    rfl

/-- A client was the new connection's, or it is as it was. -/
theorem owner_of_joined (hclient : client.pendingRelease = false) {k : Nat} {a : Holder}
    (hk : (s.joined i client t sessions p).owner k = some a) :
    (k = i ∧ a.conn = s.accepted) ∨ s.owner k = some a := by
  rw [owner_joined hclient] at hk
  split at hk
  · cases hk
    exact .inl ⟨‹_›, rfl⟩
  · exact .inr hk

theorem count_joined (f : Event) : (s.joined i client t sessions p).log.count f =
    s.log.count f + if .acquired s.accepted = f then 1 else 0 :=
  count_push s.log _ f

theorem count_acquired_joined {n : Nat} (hn : n ≠ s.accepted) :
    (s.joined i client t sessions p).log.count (.acquired n) = s.log.count (.acquired n) := by
  rw [count_joined, if_neg fun heq => hn (Event.acquired.inj heq).symm]
  rfl

theorem count_released_joined (n : Nat) :
    (s.joined i client t sessions p).log.count (.released n) = s.log.count (.released n) :=
  count_joined _

theorem aborts_joined (n : Nat) : (s.joined i client t sessions p).aborts n = s.aborts n :=
  countP_push s.log _ n

theorem mem_joined {f : Event} (hf : f ∈ (s.joined i client t sessions p).log) :
    f ∈ s.log ∨ f = .acquired s.accepted := by
  simpa [joined, take] using hf

/-- The httpd task gets the first reference to the client. -/
theorem borne_joined (h : s.Sound) (hidle : s.httpd = .idle) (hfree : s.core.flag i = none)
    (hclient : client.pendingRelease = false)
    (hp : httpdRef p = some (i, { conn := s.accepted, transport := t })) :
    Borne (s.joined i client t sessions p).owner (s.joined i client t sessions p).refers := by
  have hunowned : s.owner i = none := by
    rw [owner, hfree]
    rfl
  refine h.borne.take (v := .httpd) hunowned ?_ (by rw [owner_joined hclient, if_pos rfl])
    (fun q hq => by rw [owner_joined hclient, if_neg hq]) hp fun u hu => ?_
  · simp only [refers, hidle]
    rfl
  · cases u with
    | httpd => exact absurd rfl hu
    | pending k =>
      by_cases hk : k = i
      · subst hk
        simp only [refers, flag_joined hclient, if_true, hfree]
        rfl
      · simp only [refers, flag_joined hclient, if_neg hk, holder_joined hk]
    | _ => rfl

/-- The new connection holds a client, and the others live on. -/
theorem life_joined (h : s.Sound) (hfree : s.core.flag i = none)
    (hclient : client.pendingRelease = false) (n : Nat) :
    (s.joined i client t sessions p).Life n := by
  by_cases hn : n = s.accepted
  · subst hn
    refine .held i { conn := s.accepted, transport := t }
      (by rw [owner_joined hclient, if_pos rfl]) rfl ?_ ?_
    · rw [count_joined, if_pos rfl, (h.fresh _ (Nat.le_refl _)).1]
    · exact (count_released_joined _).trans (h.released_fresh (Nat.le_refl _))
  · have hnot (hold : ∀ k a, s.owner k = some a → a.conn ≠ n) (k : Nat) (a : Holder)
        (hk : (s.joined i client t sessions p).owner k = some a) : a.conn ≠ n := by
      rcases owner_of_joined hclient hk with ⟨-, ha⟩ | hk
      · exact fun heq => hn (heq.symm.trans ha)
      · exact hold k a hk
    have hacquired := @count_acquired_joined cfg s i client t sessions p n hn
    have hreleased := @count_released_joined cfg s i client t sessions p n
    cases h.life n with
    | unused ha hr hold => exact .unused (hacquired.trans ha) (hreleased.trans hr) (hnot hold)
    | held k a hk hc ha hr =>
      have hki : k ≠ i := by
        rintro rfl
        rw [owner, hfree] at hk
        cases hk
      exact .held k a (by rw [owner_joined hclient, if_neg hki, hk]) hc (hacquired.trans ha)
        (hreleased.trans hr)
    | spent ha hr hold => exact .spent (hacquired.trans ha) (hreleased.trans hr) (hnot hold)

/-- A connection gets the next number and a free client, which the httpd task has yet to record. -/
theorem join (h : s.Sound) (hidle : s.httpd = .idle) (hfree : s.core.flag i = none)
    (hlt : i < cfg.maxClients) (hclient : client.pendingRelease = false)
    (hopens : Opens s sessions)
    (hp : p = .sseAcquired s.accepted i ∧ t = .sse ∨
      ∃ fd, p = .wsAcquired s.accepted fd i ∧ t = .ws ∧ sessions fd = some s.accepted) :
    (s.joined i client t sessions p).Sound := by
  have hhand : httpdRef p = some (i, { conn := s.accepted, transport := t }) := by
    rcases hp with ⟨rfl, rfl⟩ | ⟨fd, rfl, rfl, -⟩ <;> rfl
  refine
    { h with
      borne := h.borne_joined hidle hfree hclient hhand
      client_lt := fun k hk => ?_
      conn_inj := fun k l a b ha hb hab => ?_
      ws_open := fun j slot hj => hopens.kept (h.ws_open j slot hj)
      connecting := fun conn fd k hw => ?_
      session_lt := fun fd conn hfd => hopens.lt h hfd
      routed := fun x hx => hopens.routed rfl rfl (h.routed x hx)
      roomy := fun k req hfull => ?_
      serving := h.serving.mono (fun _ _ hj => hj) (fun k hk => ?_) (fun k a hk => ?_)
        fun _ _ _ hr => hopens.routed rfl rfl hr
      life := h.life_joined hfree hclient
      fresh := fun n hn => ?_
      aborts_le := fun n => (aborts_joined n).trans_le (h.aborts_le n)
      unaborted := fun k a hk => ?_
      refusing := fun req r hr => ?_
      ending := fun req r back hb => ?_
      refused := fun n hn => ?_
      aborted := fun n r hn => ?_
      delivered := fun f hf => ?_ }
  · by_cases hki : k = i
    · exact hki ▸ hlt
    · rw [owner_joined hclient, if_neg hki] at hk
      exact h.client_lt k hk
  · rcases owner_of_joined hclient ha with ⟨rfl, hac⟩ | hk
    · rcases owner_of_joined hclient hb with ⟨rfl, -⟩ | hl
      · rfl
      · exact absurd (h.conn_lt hl) (by omega)
    · rcases owner_of_joined hclient hb with ⟨rfl, hbc⟩ | hl
      · exact absurd (h.conn_lt hk) (by omega)
      · exact h.conn_inj k l a b hk hl hab
  · rcases hp with ⟨rfl, -⟩ | ⟨fd', rfl, -, hfd⟩
    · cases hw
    · cases hw
      exact hfd
  · rcases hp with ⟨rfl, -⟩ | ⟨fd', rfl, -, -⟩ <;> cases hfull
  · rw [flag_joined hclient, if_neg, hk]
    rintro rfl
    rw [hfree] at hk
    cases hk
  · rw [owner_joined hclient, if_neg, hk]
    rintro rfl
    rw [owner, hfree] at hk
    cases hk
  · have hlater : s.accepted + 1 ≤ n := hn
    rw [count_acquired_joined (by omega), aborts_joined]
    exact h.fresh n (by omega)
  · rw [aborts_joined]
    rcases owner_of_joined hclient hk with ⟨-, ha⟩ | hk
    · rw [ha]
      exact (h.fresh _ (Nat.le_refl _)).2
    · exact h.unaborted k a hk
  · rcases hp with ⟨rfl, -⟩ | ⟨fd', rfl, -, -⟩ <;> cases hr
  · rw [count_released_joined, aborts_joined]
    exact h.ending req r back hb
  · rcases mem_joined hn with hn | hn
    · obtain ⟨hlt', hacq⟩ := h.refused n hn
      exact ⟨Nat.lt_succ_of_lt hlt', (count_acquired_joined (Nat.ne_of_lt hlt')).trans hacq⟩
    · cases hn
  · rw [count_released_joined]
    rcases mem_joined hn with hn | hn
    · exact h.aborted n r hn
    · cases hn
  · rcases mem_joined hf with hf | rfl
    · exact h.delivered f hf
    · trivial

end Join

end Sound

end Carry

end Connections
end DataHttp
end Breadboard
