import Breadboard.DataHttp.FlushOrder

/-!
# bb_data_http - the outbound side of a client in the module

The sweeps of the module push onto a client's queue in the two drains and then flush
it.  Seen from one client, a run of the module is a run of `Outgoing.step`, as long
as nobody releases the client.

Main results:

- Theorem `serve_outgoing`: what the sweep does to one client.
- Theorem `acquired_outgoing`: a run of the module, from the acquire of a client on.
- Theorem `durable_kept`: a durable client stays.
-/

namespace Breadboard
namespace DataHttp

open Queue Foundations

variable {cfg : Config}

/-! ## Pushes -/

/-- The second outbox is the first one after some pushes. -/
def PushedFrom (o o' : Outbox cfg) : Prop :=
  (∃ es : List (Entry Origin), es.foldl BoundedRing.push o.queue = o'.queue) ∧ o'.handed = o.handed

theorem PushedFrom.refl (o : Outbox cfg) : PushedFrom o o :=
  ⟨⟨[], rfl⟩, rfl⟩

theorem PushedFrom.trans {o o' o'' : Outbox cfg} (h : PushedFrom o o') (h' : PushedFrom o' o'') :
    PushedFrom o o'' := by
  obtain ⟨⟨es, hes⟩, hhanded⟩ := h
  obtain ⟨⟨es', hes'⟩, hhanded'⟩ := h'
  exact ⟨⟨es ++ es', by rw [List.foldl_append, hes, hes']⟩, hhanded'.trans hhanded⟩

theorem PushedFrom.push {o o' o'' : Outbox cfg} (h : PushedFrom o o') (e : Entry Origin)
    (hqueue : o''.queue = o'.queue.push e) (hhanded : o''.handed = o'.handed) : PushedFrom o o'' :=
  h.trans ⟨⟨[e], hqueue.symm⟩, hhanded⟩

/-- One iteration of the STATE drain pushes at most one frame. -/
theorem drainKey_pushedFrom (seams : Seams) (table : AttachTable) (d : StateDrain cfg) (k : Nat) :
    PushedFrom d.out (d.drainKey seams table k).out := by
  unfold StateDrain.drainKey
  split
  · exact .refl _
  split
  · exact .refl _
  split
  · exact .refl _
  split
  · exact .refl _
  unfold StateDrain.renderKey
  simp only
  split
  · exact .refl _
  · exact (PushedFrom.refl _).push _ rfl rfl

namespace Feed

theorem tryFlushMarker_pushedFrom (f : Feed cfg) :
    PushedFrom f.out f.tryFlushMarker.out := by
  unfold tryFlushMarker
  split
  · exact .refl _
  split
  · exact .refl _
  · exact (PushedFrom.refl _).push _ rfl rfl

/-- One iteration of the EVENT drain pushes a marker, a frame, both, or nothing. -/
theorem drainAt_pushedFrom (table : AttachTable) (sub : Subscription) (er : EventRing cfg)
    (oldestSeq : UInt32) (f : Feed cfg) (idx : Nat) :
    PushedFrom f.out (f.drainAt table sub er oldestSeq idx).out := by
  unfold drainAt
  split
  · exact .refl _
  split
  · exact .refl _
  rename_i e _
  unfold drainEntry
  split
  · exact .refl _
  split
  · exact .refl _
  have hmarked := (f.advance (oldestSeq + UInt32.ofNat idx)).tryFlushMarker_pushedFrom
  dsimp only
  split
  · exact hmarked
  · exact hmarked.push _ rfl rfl

theorem drainEvents_pushedFrom (table : AttachTable) (sub : Subscription) (er : EventRing cfg)
    (f : Feed cfg) : PushedFrom f.out (f.drainEvents table sub er).out := by
  unfold drainEvents
  apply @forRange_invariant (Feed cfg) (fun g => PushedFrom f.out g.out)
  · have hlag : (f.tryFlushMarker.countLag (er.totalPushed - UInt32.ofNat er.ring.count)).out =
        f.tryFlushMarker.out := by
      unfold countLag
      split <;> rfl
    rw [hlag]
    exact f.tryFlushMarker_pushedFrom
  · intro k g _ hg
    exact hg.trans (g.drainAt_pushedFrom table sub er _ k)

end Feed

/-! ## One client -/

/-- The client's outbound side, and that no one asked for its release. -/
structure Shows (c : Client cfg) (s : Outgoing cfg) : Prop where
  queue_eq : c.out.queue = s.queue
  count_eq : c.sendFailCount = s.sendFailCount
  lifetime_eq : c.lifetime = s.lifetime
  handed_eq : c.out.handed = (Outgoing.accepted s.log).map fun p => p.2.tag
  inUse : s.inUse = true
  kept : c.pendingRelease = false

/-- A slot shows the outbound side of the client that is, or was, in it. -/
def SlotShows : Option (Client cfg) → Outgoing cfg → Prop
  | none, s => s.inUse = false
  | some c, s => Shows c s

theorem run_pushes (s : Outgoing cfg) (huse : s.inUse = true) (es : List (Entry Origin)) :
    (run Outgoing.step s (es.map .push)).queue = es.foldl BoundedRing.push s.queue ∧
      (run Outgoing.step s (es.map .push)).sendFailCount = s.sendFailCount ∧
      (run Outgoing.step s (es.map .push)).lifetime = s.lifetime ∧
      (run Outgoing.step s (es.map .push)).log = s.log ∧
      (run Outgoing.step s (es.map .push)).inUse = true := by
  induction es generalizing s with
  | nil => exact ⟨rfl, rfl, rfl, rfl, huse⟩
  | cons e es ih =>
    have hstep : s.step (.push e) = s.push e := by
      unfold Outgoing.step
      rw [huse]
      rfl
    rw [List.map_cons, run_cons, hstep]
    exact ih (s.push e) huse

theorem drainState_pushedFrom (w : World cfg) (c : Client cfg) :
    PushedFrom c.out (w.drainState c).2.out := by
  unfold World.drainState
  split
  · exact .refl _
  · exact @forRange_invariant (StateDrain cfg) (fun d => PushedFrom c.out d.out) _ _ _
      (.refl _) fun k d _ hd => hd.trans (drainKey_pushedFrom w.seams w.table d k)

/-- The two drains of one sweep push frames and change nothing else of the outbound side. -/
theorem drains_outgoing (w : World cfg) {c : Client cfg} {s : Outgoing cfg} (h : Shows c s) :
    ∃ es : List (Entry Origin),
      Shows ((w.drainState c).2.drainEvents w.table w.events)
        (run Outgoing.step s (es.map .push)) := by
  have hstate : (w.drainState c).2.sendFailCount = c.sendFailCount ∧
      (w.drainState c).2.lifetime = c.lifetime ∧
      (w.drainState c).2.pendingRelease = c.pendingRelease := by
    unfold World.drainState
    split <;> exact ⟨rfl, rfl, rfl⟩
  have hevents : PushedFrom (w.drainState c).2.out
      ((w.drainState c).2.drainEvents w.table w.events).out ∧
      ((w.drainState c).2.drainEvents w.table w.events).sendFailCount =
        (w.drainState c).2.sendFailCount ∧
      ((w.drainState c).2.drainEvents w.table w.events).lifetime = (w.drainState c).2.lifetime ∧
      ((w.drainState c).2.drainEvents w.table w.events).pendingRelease =
        (w.drainState c).2.pendingRelease := by
    unfold Client.drainEvents
    split
    · exact ⟨.refl _, rfl, rfl, rfl⟩
    · rename_i p _
      have hfed := Feed.drainEvents_pushedFrom w.table (w.drainState c).2.sub w.events
        { push := p, out := (w.drainState c).2.out }
      exact ⟨hfed, rfl, rfl, rfl⟩
  obtain ⟨⟨es, hes⟩, hhanded⟩ := (drainState_pushedFrom w c).trans hevents.1
  obtain ⟨hqueue, hcount, hlife, hlog, huse⟩ := run_pushes s h.inUse es
  refine ⟨es, ?_, ?_, ?_, ?_, huse, ?_⟩
  · rw [hqueue, ← hes, h.queue_eq]
  · rw [hcount, hevents.2.1, hstate.1, h.count_eq]
  · rw [hlife, hevents.2.2.1, hstate.2.1, h.lifetime_eq]
  · rw [hlog, hhanded, h.handed_eq]
  · rw [hevents.2.2.2, hstate.2.2, h.kept]

/-- The results the send seam will return. -/
def Env.results (env : Env cfg) : List BbErr :=
  env.script.map (·.rc)

theorem Env.headD_results (env : Env cfg) : env.results.headD .ok = env.call.1 := by
  unfold results call
  cases env.script <;> rfl

theorem Env.publishAll_script (env : Env cfg) (bs : List (Bump cfg)) :
    (env.publishAll bs).script = env.script := by
  induction bs generalizing env with
  | nil => rfl
  | cons b bs ih => exact (ih (env.publish b)).trans (by unfold publish; split <;> rfl)

theorem Env.results_tail (env : Env cfg) : env.results.tail = env.call.2.results := by
  unfold results call
  cases hscript : env.script with
  | nil => simp [hscript]
  | cons c rest =>
    show rest.map (·.rc) = _
    exact congrArg (List.map (·.rc)) (publishAll_script { env with script := rest } c.bumps).symm

theorem flushLoop_outgoing (seams : Seams) (fuel : Nat) (env : Env cfg) {c : Client cfg}
    {s : Outgoing cfg} (h : Shows c s) :
    SlotShows (Client.flushLoop seams fuel env c).2 (Outgoing.flushLoop fuel env.results s) := by
  induction fuel generalizing env c s with
  | zero => exact h
  | succ fuel ih =>
    unfold Client.flushLoop Outgoing.flushLoop
    rw [h.queue_eq]
    cases s.queue.peekOldest with
    | error err => exact h
    | ok e =>
      dsimp only
      rw [Env.headD_results, Env.results_tail]
      split
      · refine ih env.call.2 ⟨?_, rfl, h.lifetime_eq, ?_, h.inUse, h.kept⟩
        · show c.out.queue.popOldest = s.queue.popOldest
          rw [h.queue_eq]
        · simp [Outbox.popHanded, Outgoing.accept, Outgoing.accepted, h.handed_eq]
      split
      · show Shows (c.sendTimedOut e) (s.timeOut e)
        unfold Client.sendTimedOut Outgoing.timeOut
        rw [h.count_eq]
        split
        · exact ⟨h.queue_eq, rfl, h.lifetime_eq, by simpa [Outgoing.accepted] using h.handed_eq,
            h.inUse, h.kept⟩
        · refine ⟨?_, rfl, h.lifetime_eq,
            by simpa [Outgoing.accepted, Outbox.popFailed] using h.handed_eq, h.inUse, h.kept⟩
          show c.out.queue.popOldest = s.queue.popOldest
          rw [h.queue_eq]
      · unfold Client.sendFatal Outgoing.fail
        rw [h.lifetime_eq]
        cases hlife : s.lifetime with
        | durable =>
          exact ⟨h.queue_eq, rfl, rfl, by simpa [Outgoing.accepted] using h.handed_eq, h.inUse,
            h.kept⟩
        | ephemeral => exact rfl

/-- Without any send seam nothing leaves the queue. -/
theorem flush_outgoing (seams : Seams) (env : Env cfg) {c : Client cfg} {s : Outgoing cfg}
    (h : Shows c s) :
    ∃ as, SlotShows (c.flush seams env).2 (run Outgoing.step s as) := by
  unfold Client.flush
  split
  · exact ⟨[], h.queue_eq, h.count_eq, h.lifetime_eq, h.handed_eq, h.inUse, h.kept⟩
  · refine ⟨[.flush env.results], ?_⟩
    have hstep : s.step (.flush env.results) = s.flush env.results := by
      unfold Outgoing.step
      rw [h.inUse]
      rfl
    rw [run_cons, run_nil, hstep, h.queue_eq]
    exact flushLoop_outgoing seams _ env h

/-- What the sweep does to one client: some pushes and, if it can send, a flush. -/
theorem serve_outgoing (w : World cfg) (i : Nat) {c : Client cfg} (hc : w.clients i = some c)
    {s : Outgoing cfg} (h : Shows c s) :
    ∃ as, SlotShows ((w.serve i).clients i) (run Outgoing.step s as) := by
  obtain ⟨es, hdrained⟩ := drains_outgoing w h
  obtain ⟨as, hflushed⟩ := flush_outgoing w.seams (w.drainState c).1.env hdrained
  refine ⟨es.map .push ++ as, ?_⟩
  unfold World.serve
  rw [hc]
  dsimp only
  rw [if_neg (by simp [h.kept]), run_append]
  dsimp only
  rw [Function.update_self]
  exact hflushed

/-! ## Sweeps and runs -/

theorem serve_clients_of_ne (w : World cfg) {i j : Nat} (hne : i ≠ j) :
    (w.serve j).clients i = w.clients i := by
  unfold World.serve
  split
  · rfl
  split
  · exact Function.update_of_ne hne _ _
  · exact Function.update_of_ne hne _ _

theorem detectKey_shows (w : World cfg) (k i : Nat) {s : Outgoing cfg}
    (h : ∃ c, w.clients i = some c ∧ Shows c s) :
    ∃ c, (w.detectKey k).clients i = some c ∧ Shows c s := by
  unfold World.detectKey
  split
  · exact h
  split
  · exact h
  rename_i slot _ _
  dsimp only
  split
  · exact h
  · rename_i gen _
    obtain ⟨c, hc, hshows⟩ := h
    refine ⟨c.detect slot k gen, ?_, ?_⟩
    · dsimp only
      rw [hc]
      rfl
    · unfold Client.detect
      split
      · exact ⟨hshows.queue_eq, hshows.count_eq, hshows.lifetime_eq, hshows.handed_eq, hshows.inUse,
          hshows.kept⟩
      · exact hshows

theorem pumpKey_clients (w : World cfg) (k : Nat) : (w.pumpKey k).clients = w.clients := by
  unfold World.pumpKey
  split
  · rfl
  split
  · rfl
  dsimp only
  split
  · rfl
  split
  · rfl
  unfold World.pumpClaimed
  split
  · rfl
  dsimp only
  split <;> rfl

/-- The phases before the drains leave every outbound side alone. -/
theorem detect_pushPump_shows (w : World cfg) (i : Nat) {s : Outgoing cfg}
    (h : ∃ c, w.clients i = some c ∧ Shows c s) :
    ∃ c, w.detect.pushPump.clients i = some c ∧ Shows c s := by
  have hdetect : ∃ c, w.detect.clients i = some c ∧ Shows c s := by
    unfold World.detect
    split
    · exact h
    · exact @forRange_invariant (World cfg) (fun v => ∃ c, v.clients i = some c ∧ Shows c s) _ _ _ h
        fun k v _ hv => detectKey_shows v k i hv
  have hpump : w.detect.pushPump.clients = w.detect.clients := by
    unfold World.pushPump
    split
    · rfl
    · exact @forRange_invariant (World cfg) (fun v => v.clients = w.detect.clients) _ _ _ rfl
        fun k v _ hv => (pumpKey_clients v k).trans hv
  rw [hpump]
  exact hdetect

/-- A sweep serves each client once. -/
theorem sweepStep_outgoing (w : World cfg) {i : Nat} (hi : i < cfg.maxClients) {c : Client cfg}
    (hc : w.clients i = some c) {s : Outgoing cfg} (h : Shows c s) :
    ∃ as, SlotShows (w.sweepStep.clients i) (run Outgoing.step s as) := by
  obtain ⟨c', hc', hshows⟩ := detect_pushPump_shows w i ⟨c, hc, h⟩
  have hloop := @forRange_induct (World cfg)
    (fun k v => if k ≤ i then v.clients i = some c'
      else ∃ as, SlotShows (v.clients i) (run Outgoing.step s as))
    World.serve w.detect.pushPump cfg.maxClients (by simpa using hc') ?_
  · rwa [if_neg (Nat.not_le.mpr hi)] at hloop
  · intro k v _ hv
    rcases Nat.lt_trichotomy k i with hbefore | rfl | hafter
    · rw [if_pos (Nat.le_of_lt hbefore)] at hv
      rw [if_pos (show k + 1 ≤ i from hbefore), serve_clients_of_ne v (Nat.ne_of_gt hbefore)]
      exact hv
    · rw [if_pos (Nat.le_refl k)] at hv
      rw [if_neg (Nat.not_succ_le_self k)]
      exact serve_outgoing v k hv hshows
    · rw [if_neg (Nat.not_le.mpr hafter)] at hv
      rw [if_neg (by omega), serve_clients_of_ne v (Nat.ne_of_lt hafter)]
      exact hv

/-- Slot `i` is in use and the action does not release its client. -/
def Retains (i : Nat) (w : World cfg) (a : Action cfg) : Prop :=
  (w.clients i).isSome = true ∧
    match a with
    | .release j => j ≠ i
    | .requestRelease j => j ≠ i
    | _ => True

/-- What one action does to a client that is not released by it. -/
theorem step_outgoing (w : World cfg) {i : Nat} (hi : i < cfg.maxClients) (a : Action cfg)
    (hkeeps : Retains i w a) {s : Outgoing cfg} (h : SlotShows (w.clients i) s) :
    ∃ as, SlotShows ((w.step a).clients i) (run Outgoing.step s as) := by
  obtain ⟨c, hc⟩ := Option.isSome_iff_exists.mp hkeeps.1
  have hshows : Shows c s := by
    rw [hc] at h
    exact h
  cases a with
  | attach a => exact ⟨[], h⟩
  | acquire a =>
    refine ⟨[], ?_⟩
    show SlotShows ((World.step w (.acquire a)).clients i) s
    unfold World.step
    dsimp only
    split
    · exact h
    · rename_i j client hok
      have hne : i ≠ j := by
        rintro rfl
        have hfree := (acquire_ok hok).2.1
        rw [hc] at hfree
        cases hfree
      dsimp only
      rw [Function.update_of_ne hne]
      exact h
  | release j =>
    refine ⟨[], ?_⟩
    show SlotShows (Function.update w.clients j none i) s
    rw [Function.update_of_ne (Ne.symm hkeeps.2)]
    exact h
  | requestRelease j =>
    refine ⟨[], ?_⟩
    show SlotShows (Function.update w.clients j _ i) s
    rw [Function.update_of_ne (Ne.symm hkeeps.2)]
    exact h
  | setSeams seams => exact ⟨[], h⟩
  | publish b => exact ⟨[], h⟩
  | elapse ms => exact ⟨[], h⟩
  | sweep script =>
    exact sweepStep_outgoing { w with env := { w.env with script := script } } hi hc hshows

theorem run_outgoing {w : World cfg} {i : Nat} (hi : i < cfg.maxClients) {s : Outgoing cfg}
    (h : SlotShows (w.clients i) s) {as : List (Action cfg)}
    (hrun : Along World.step (Retains i) w as) :
    ∃ bs, SlotShows ((run World.step w as).clients i) (run Outgoing.step s bs) := by
  induction as generalizing w s with
  | nil => exact ⟨[], h⟩
  | cons a as ih =>
    obtain ⟨bs, hbs⟩ := step_outgoing w hi a hrun.1 h
    obtain ⟨cs, hcs⟩ := ih hbs hrun.2
    exact ⟨bs ++ cs, by rw [run_append]; exact hcs⟩

/-- An acquired client starts with the outbound side of a fresh queue. -/
theorem acquire_shows {table : AttachTable} {er : EventRing cfg} {now : Nat}
    {clients : Clients cfg} {a : ClientCfg} {i : Nat} {client : Client cfg}
    (h : acquire table er now clients a = .ok (i, client)) :
    ∃ out, Outbox.create cfg = .ok out ∧ Shows client (Outgoing.init out client.lifetime) := by
  obtain ⟨-, -, out, hout, rfl⟩ := acquire_ok h
  refine ⟨out, hout, rfl, rfl, rfl, ?_, rfl, rfl⟩
  unfold Outbox.create at hout
  split at hout
  · cases hout
  · cases hout
    rfl

/-! ## From the acquire on -/

/-- A durable client for every key. -/
def durableClient : ClientCfg where
  topicFilter := none
  subscribeMask := 0
  nonBlocking := true
  hasSendFn := true
  hasAbortFn := false
  lifetime := .durable

theorem acquire_durableClient : ∃ client, client.lifetime = .durable ∧
    acquire [] (EventRing.init oneFrameConfig) 1 (fun _ => none) durableClient =
      .ok (0, client) := by
  obtain ⟨out, hout, -⟩ := Outgoing.replacedHead_log
  refine ⟨.fresh [] (EventRing.init oneFrameConfig) 1 durableClient out, rfl, ?_⟩
  unfold acquire
  rw [hout]
  rfl

variable {w : World cfg} {a : ClientCfg} {i : Nat} {client : Client cfg} {as : List (Action cfg)}

theorem acquired_clients
    (hacquire : acquire w.table w.events (w.ticks + 1) w.clients a = .ok (i, client)) :
    (w.step (.acquire a)).clients i = some client := by
  simp [World.step, hacquire]

/--
As long as an acquired client is not released, its outbound side is that of a run of
pushes and flushes from the fresh queue.
-/
theorem acquired_outgoing
    (hacquire : acquire w.table w.events (w.ticks + 1) w.clients a = .ok (i, client))
    (hrun : Along World.step (Retains i) (w.step (.acquire a)) as) :
    ∃ out bs, Outbox.create cfg = .ok out ∧
      SlotShows ((run World.step (w.step (.acquire a)) as).clients i)
        (run Outgoing.step (.init out client.lifetime) bs) := by
  obtain ⟨out, hout, hfresh⟩ := acquire_shows hacquire
  obtain ⟨bs, hbs⟩ := run_outgoing (acquire_ok hacquire).1
    (by rw [acquired_clients hacquire]; exact hfresh) hrun
  exact ⟨out, bs, hout, hbs⟩

/-- Another client is released. -/
theorem acquired_outgoing_other :
    ∃ out bs, Outbox.create oneFrameConfig = .ok out ∧
      SlotShows
        ((run World.step ((World.fresh oneFrameConfig).step (.acquire durableClient))
          [.release 1]).clients 0)
        (run Outgoing.step (.init out .durable) bs) := by
  obtain ⟨client, hlife, hacquire⟩ := acquire_durableClient
  have hretains : Retains 0 ((World.fresh oneFrameConfig).step (.acquire durableClient))
      (.release 1) := by
    refine ⟨?_, Nat.succ_ne_zero 0⟩
    rw [acquired_clients (w := .fresh oneFrameConfig) hacquire]
    rfl
  rw [← hlife]
  exact acquired_outgoing (w := .fresh oneFrameConfig) hacquire ⟨hretains, trivial⟩

/-- The action does not release the client in slot `i`. -/
def Spares (i : Nat) : Action cfg → Prop
  | .release j => j ≠ i
  | .requestRelease j => j ≠ i
  | _ => True

/-- A durable client that nobody releases stays in its slot, whatever its sends return. -/
theorem durable_kept
    (hacquire : acquire w.table w.events (w.ticks + 1) w.clients a = .ok (i, client))
    (hlife : client.lifetime = .durable) (hspared : ∀ b ∈ as, Spares i b) :
    ∃ out bs c, Outbox.create cfg = .ok out ∧
      (run World.step (w.step (.acquire a)) as).clients i = some c ∧
      Shows c (run Outgoing.step (.init out .durable) bs) := by
  obtain ⟨out, hout, hfresh⟩ := acquire_shows hacquire
  rw [hlife] at hfresh
  have hinv : ∃ bs c, (run World.step (w.step (.acquire a)) as).clients i = some c ∧
      Shows c (run Outgoing.step (.init out .durable) bs) := by
    refine run_invariant_along (P := fun _ => Spares i)
      (I := fun v : World cfg => ∃ bs c, v.clients i = some c ∧
        Shows c (run Outgoing.step (.init out .durable) bs)) ?_
      ⟨[], client, acquired_clients hacquire, hfresh⟩ (along_of_forall _ _ hspared)
    rintro v b ⟨bs, c, hc, hshows⟩ hspares
    have hretains : Retains i v b := ⟨by rw [hc]; rfl, by cases b <;> exact hspares⟩
    obtain ⟨cs, hcs⟩ := step_outgoing v (acquire_ok hacquire).1 b hretains
      (by rw [hc]; exact hshows)
    rw [← run_append] at hcs
    -- A slot that is free again would show a client that was aborted.
    have hused := (Outgoing.sound_run hout .durable (bs ++ cs)).durable (Outgoing.lifetime_run _ _)
    cases hslot : (v.step b).clients i with
    | none =>
      rw [hslot] at hcs
      exact absurd (hused.symm.trans hcs) (by decide)
    | some c' =>
      rw [hslot] at hcs
      exact ⟨bs ++ cs, c', rfl, hcs⟩
  obtain ⟨bs, c, hc, hshows⟩ := hinv
  exact ⟨out, bs, c, hout, hc, hshows⟩

/-- A durable client stays through a sweep whose first send fails for good. -/
theorem durable_kept_refused :
    ∃ out bs c, Outbox.create oneFrameConfig = .ok out ∧
      (run World.step ((World.fresh oneFrameConfig).step (.acquire durableClient))
        [.sweep [⟨[], 0, .invalidState⟩], .elapse 10, .release 1]).clients 0 = some c ∧
      Shows c (run Outgoing.step (.init out .durable) bs) := by
  obtain ⟨client, hlife, hacquire⟩ := acquire_durableClient
  exact durable_kept (w := .fresh oneFrameConfig) hacquire hlife (by simp [Spares])

end DataHttp
end Breadboard
