import Breadboard.DataHttp.Account

/-!
# bb_data_http - no EVENT is lost or duplicated

Over every run of sweeps, each ring entry pushed after a client was acquired is
in exactly one place: handed to the send seam, dropped by the retry bound, queued,
still in the ring ahead of the cursor, counted as dropped, or passed over as not
subscribed.  The one exception is a STATE push that evicts from the shared
outbound queue: such an eviction leaves no trace in the drop count.

Main results:

- Theorem `conserved_iff_state_pushes_spare`: in every reachable state the
  account of a client is complete exactly when no STATE push since its acquire
  has evicted an EVENT frame or a drop marker.
- Theorem `state_push_loses_event`: a run in which one does.
-/

namespace Breadboard
namespace DataHttp

open Queue Foundations

variable {cfg : Config}

/-! ## The property -/

/-- The origins of the frames that are handed, failed or queued. -/
def Outbox.placed (o : Outbox cfg) : List Origin :=
  o.handed ++ o.failed ++ o.queued

/-- The sequence numbers of the ring entries at or ahead of the cursor. -/
def ringSeqs (er : EventRing cfg) (p : PushState) : List Nat :=
  (er.ring.contents.map Entry.tag).filter fun seq => ¬ signedDiff (UInt32.ofNat seq) p.cursor < 0

/-- Every place a ring entry owed to the client can be in. -/
def places (er : EventRing cfg) (p : PushState) (o : Outbox cfg) : List Nat :=
  o.placed.filterMap Origin.seq? ++ p.droppedSeqs ++ p.unmatched.map Prod.fst ++ ringSeqs er p

/--
Each ring entry owed to the client is in exactly one place, the drop count is the
number of entries counted as dropped, only entries the client does not subscribe
to are passed over, and no queued drop marker has disappeared.
-/
structure Conserved (er : EventRing cfg) (sub : Subscription) (p : PushState) (o : Outbox cfg) :
    Prop where
  seqs : (places er p o).Perm (List.range' p.since (er.pushes - p.since))
  dropped_eq : p.dropped = UInt32.ofNat p.droppedSeqs.length
  unmatched_sub : ∀ u ∈ p.unmatched, ∃ slot, u.2 = some slot ∧ sub.admits slot = false
  markers : (o.placed.filterMap Origin.marker?).Perm (List.range p.markers)

/-- A STATE push evicts STATE frames only. -/
def SparesEvents (cfg : Config) (q : List (Entry Origin) × Nat) : Prop :=
  ∀ e ∈ evictedBy cfg q, ∃ k, e.tag = .state k

theorem Outbox.origins_eq (o : Outbox cfg) : o.origins = o.placed ++ o.lost :=
  rfl

/-- A list of origins without EVENT frames and markers holds STATE frames only. -/
theorem all_state_iff (l : List Origin) :
    (∀ a ∈ l, ∃ k, a = .state k) ↔
      l.filterMap Origin.seq? = [] ∧ l.filterMap Origin.marker? = [] := by
  simp only [List.filterMap_eq_nil_iff]
  constructor
  · intro h
    refine ⟨fun a ha => ?_, fun a ha => ?_⟩
    · obtain ⟨k, rfl⟩ := h a ha
      rfl
    · obtain ⟨k, rfl⟩ := h a ha
      rfl
  · rintro ⟨hseq, hmarker⟩ a ha
    cases a with
    | state k => exact ⟨k, rfl⟩
    | event seq => cases hseq _ ha
    | marker number => cases hmarker _ ha

/-- The lost frames are STATE frames exactly when every STATE push spared the others. -/
theorem lost_all_state_iff (o : Outbox cfg) :
    (∀ a ∈ o.lost, ∃ k, a = .state k) ↔ ∀ q ∈ o.statePushes, SparesEvents cfg q := by
  simp only [Outbox.lost, List.mem_flatMap, List.mem_map, SparesEvents]
  constructor
  · intro h q hq e he
    exact h e.tag ⟨q, hq, e, he, rfl⟩
  · rintro h a ⟨q, hq, e, he, rfl⟩
    exact h q hq e he

/-! ## Clients that have caught up -/

/-- The account of a client's push block is balanced and at most `lag` entries behind. -/
def CaughtUp (er : EventRing cfg) (lag : Nat) (c : Client cfg) : Prop :=
  ∀ p, c.push = some p →
    Balanced c.sub p c.out ∧ p.cursorSeq ≤ er.pushes ∧ er.pushes ≤ p.cursorSeq + lag

/-- All ring entries are behind the cursor of a client that has caught up. -/
theorem ringSeqs_eq_nil {er : EventRing cfg} {p : PushState}
    (hcursor : p.cursor = UInt32.ofNat p.cursorSeq) (hend : p.cursorSeq = er.pushes) :
    ringSeqs er p = [] := by
  have hcount := er.count_le
  have hspan := er.oldestSeq_add_count
  rw [ringSeqs, er.tags_eq, List.filter_eq_nil_iff]
  intro seq hseq
  obtain ⟨i, hi, rfl⟩ := List.mem_range'.mp hseq
  have hlt : er.pushes - er.ring.count + 1 * i < p.cursorSeq := by omega
  have hneg := signedDiff_neg_of_lt hlt (by omega)
  rw [hcursor]
  simpa using hneg

/-- A caught-up client's account is complete exactly when nothing but STATE frames was lost. -/
theorem conserved_iff_lost {er : EventRing cfg} {c : Client cfg} {p : PushState}
    (h : CaughtUp er 0 c) (hpush : c.push = some p) :
    Conserved er c.sub p c.out ↔ ∀ a ∈ c.out.lost, ∃ k, a = .state k := by
  obtain ⟨hbalanced, hle, hge⟩ := h p hpush
  have hend : p.cursorSeq = er.pushes := by omega
  have hring := ringSeqs_eq_nil hbalanced.cursor_eq hend
  have hseqs := hbalanced.seqs
  have hmarkers := hbalanced.markers
  rw [accountedSeqs, Outbox.origins_eq, List.filterMap_append] at hseqs
  rw [Outbox.origins_eq, List.filterMap_append] at hmarkers
  rw [all_state_iff]
  constructor
  · intro hconserved
    have hplaces := hconserved.seqs.length_eq
    have hplacedMarkers := hconserved.markers.length_eq
    have hall := hseqs.length_eq
    have hallMarkers := hmarkers.length_eq
    rw [← hend] at hplaces
    simp only [places, hring, List.length_append, List.length_nil] at hplaces hall
    simp only [List.length_append] at hallMarkers
    exact ⟨List.eq_nil_of_length_eq_zero (by omega), List.eq_nil_of_length_eq_zero (by omega)⟩
  · rintro ⟨hlostSeqs, hlostMarkers⟩
    rw [hlostSeqs, List.append_nil] at hseqs
    rw [hlostMarkers, List.append_nil] at hmarkers
    refine ⟨?_, hbalanced.dropped_eq, hbalanced.unmatched_sub, hmarkers⟩
    rw [places, hring, List.append_nil, ← hend]
    exact hseqs

/-! ## Each part of a sweep -/

namespace Client

/-- A step that keeps the push block and its account keeps the client caught up. -/
theorem caughtUp_of_balanced {er : EventRing cfg} {lag : Nat} {c c' : Client cfg}
    (h : CaughtUp er lag c) (hpush : c'.push = c.push)
    (hbalanced : ∀ p, Balanced c.sub p c.out → Balanced c'.sub p c'.out) :
    CaughtUp er lag c' := by
  intro p hp
  obtain ⟨hold, hle, hge⟩ := h p (hpush ▸ hp)
  exact ⟨hbalanced p hold, hle, hge⟩

theorem detect_caughtUp {er : EventRing cfg} {lag : Nat} {c : Client cfg} (h : CaughtUp er lag c)
    (slot : AttachSlot) (k : Nat) (gen : UInt32) : CaughtUp er lag (c.detect slot k gen) := by
  unfold detect
  split <;> exact h

/-- The EVENT drain brings a client up to the push counter. -/
theorem drainEvents_caughtUp {er : EventRing cfg} {lag : Nat} {c : Client cfg}
    (h : CaughtUp er lag c) (hlag : lag ≤ 2 ^ 31) {table : AttachTable}
    (hids : er.IdsBelow table.length) : CaughtUp er 0 (c.drainEvents table er) := by
  unfold drainEvents
  split
  · rename_i hnone
    intro p hp
    rw [hnone] at hp
    cases hp
  · rename_i p hp
    obtain ⟨hbalanced, hle, hge⟩ := h p hp
    have hspan := er.oldestSeq_add_count
    have hdrain := @Balanced.drainEvents cfg c.sub { push := p, out := c.out } hbalanced table er
      hids hle (by simp only; omega)
    intro p' hp'
    cases hp'
    exact ⟨hdrain.1, hdrain.2.le, hdrain.2.ge⟩

/-- The flush loop only moves frames within the account. -/
theorem flushLoop_caughtUp {er : EventRing cfg} {lag : Nat} (seams : Seams) (fuel : Nat)
    {env : Env cfg} {c c' : Client cfg} (h : CaughtUp er lag c)
    (hflush : (flushLoop seams fuel env c).2 = some c') : CaughtUp er lag c' := by
  induction fuel generalizing env c with
  | zero =>
    cases hflush
    exact h
  | succ fuel ih =>
    unfold flushLoop at hflush
    split at hflush
    · cases hflush
      exact h
    rename_i e hpeek
    simp only at hflush
    split at hflush
    · refine ih (caughtUp_of_balanced h ?_ ?_) hflush
      · rfl
      · intro p hp
        exact hp.popHanded hpeek
    split at hflush
    · cases hflush
      unfold sendTimedOut
      split
      · exact caughtUp_of_balanced h rfl fun p hp => hp
      · exact caughtUp_of_balanced h rfl fun p hp => hp.popFailed hpeek
    · unfold sendFatal at hflush
      split at hflush
      · cases hflush
        exact caughtUp_of_balanced h rfl fun p hp => hp
      · cases hflush

theorem flush_caughtUp {er : EventRing cfg} {lag : Nat} (seams : Seams) {env : Env cfg}
    {c c' : Client cfg} (h : CaughtUp er lag c) (hflush : (c.flush seams env).2 = some c') :
    CaughtUp er lag c' := by
  unfold flush at hflush
  split at hflush
  · cases hflush
    exact caughtUp_of_balanced h rfl fun p hp => hp
  · exact flushLoop_caughtUp seams _ h hflush

end Client

/-- One STATE drain iteration keeps every account of the queue. -/
theorem StateDrain.drainKey_balanced {sub : Subscription} {p : PushState} (seams : Seams)
    (table : AttachTable) {d : StateDrain cfg} (h : Balanced sub p d.out) (k : Nat) :
    Balanced sub p (d.drainKey seams table k).out := by
  unfold drainKey
  split
  · exact h
  split
  · exact h
  split
  · exact h
  split
  · exact h
  unfold renderKey
  simp only
  split
  · exact h
  · exact h.pushState _ _

namespace World

theorem drainState_caughtUp {w : World cfg} {lag : Nat} {c : Client cfg}
    (h : CaughtUp w.events lag c) : CaughtUp w.events lag (w.drainState c).2 := by
  unfold drainState
  split
  · exact h
  · refine Client.caughtUp_of_balanced h rfl ?_
    intro p hp
    have hstep (k : Nat) (d : StateDrain cfg) (_ : k < w.table.length)
        (hd : Balanced c.sub p d.out) : Balanced c.sub p (d.drainKey w.seams w.table k).out :=
      StateDrain.drainKey_balanced w.seams w.table hd k
    exact @forRange_invariant (StateDrain cfg) (fun d => Balanced c.sub p d.out) _ _ _ hp hstep

/-- The account invariant of the module; `lag i` bounds how far client `i` is behind. -/
structure Accounted (lag : Nat → Nat) (w : World cfg) : Prop where
  table_le : w.table.length ≤ maxAttach
  ids : w.events.IdsBelow w.table.length
  slot_lt : ∀ i c, w.clients i = some c → i < cfg.maxClients
  clients : ∀ i c, w.clients i = some c → CaughtUp w.events (lag i) c

theorem detectKey_accounted {lag : Nat → Nat} {w : World cfg} (h : Accounted lag w) (k : Nat) :
    Accounted lag (w.detectKey k) := by
  unfold detectKey
  split
  · exact h
  split
  · exact h
  simp only
  split
  · exact ⟨h.table_le, h.ids, h.slot_lt, h.clients⟩
  · refine ⟨h.table_le, h.ids, fun i c hc => ?_, fun i c hc => ?_⟩
    · obtain ⟨c₀, hc₀, -⟩ := Option.map_eq_some_iff.mp hc
      exact h.slot_lt i c₀ hc₀
    · obtain ⟨c₀, hc₀, rfl⟩ := Option.map_eq_some_iff.mp hc
      exact Client.detect_caughtUp (h.clients i c₀ hc₀) _ _ _

theorem detect_accounted {lag : Nat → Nat} {w : World cfg} (h : Accounted lag w) :
    Accounted lag w.detect := by
  unfold detect
  split
  · exact h
  · exact forRange_invariant h fun k v _ hv => detectKey_accounted hv k

/-- A commit puts every client at most one entry further behind. -/
theorem commit_accounted {n : Nat} {w : World cfg} (h : Accounted (fun _ => n) w) {k : Nat}
    (hk : k < w.table.length) (gen : UInt32) (frame : Frame cfg) :
    Accounted (fun _ => n + 1) { w with events := w.events.commit k gen frame } := by
  have hle := h.table_le
  unfold EventRing.commit
  split
  · refine ⟨hle, h.ids.pushFrame hk hle frame, h.slot_lt, fun i c hc p hp => ?_⟩
    obtain ⟨hbalanced, hlow, hhigh⟩ := h.clients i c hc p hp
    exact ⟨hbalanced, Nat.le_succ_of_le hlow, Nat.succ_le_succ hhigh⟩
  · refine ⟨hle, h.ids, h.slot_lt, fun i c hc p hp => ?_⟩
    obtain ⟨hbalanced, hlow, hhigh⟩ := h.clients i c hc p hp
    exact ⟨hbalanced, hlow, Nat.le_succ_of_le hhigh⟩

theorem Accounted.mono {lag lag' : Nat → Nat} {w : World cfg} (h : Accounted lag w)
    (hle : ∀ i, lag i ≤ lag' i) : Accounted lag' w where
  table_le := h.table_le
  ids := h.ids
  slot_lt := h.slot_lt
  clients i c hc p hp := by
    obtain ⟨hbalanced, hlow, hhigh⟩ := h.clients i c hc p hp
    exact ⟨hbalanced, hlow, Nat.le_trans hhigh (Nat.add_le_add_left (hle i) _)⟩

/-- CLAIM and REVOKE do not touch the ring. -/
theorem Accounted.of_ring_eq {lag : Nat → Nat} {w w' : World cfg} (h : Accounted lag w)
    (htable : w'.table = w.table) (hclients : w'.clients = w.clients)
    (hring : w'.events.ring = w.events.ring) (hpushes : w'.events.pushes = w.events.pushes) :
    Accounted lag w' where
  table_le := htable ▸ h.table_le
  ids := by
    rw [EventRing.IdsBelow, hring, htable]
    exact h.ids
  slot_lt i c hc := h.slot_lt i c (hclients ▸ hc)
  clients i c hc p hp := by
    rw [hpushes]
    exact h.clients i c (hclients ▸ hc) p hp

theorem claim_ring (er : EventRing cfg) (k : Nat) (gen : UInt32) :
    (er.claim k gen).2.ring = er.ring ∧ (er.claim k gen).2.pushes = er.pushes := by
  unfold EventRing.claim
  split <;> exact ⟨rfl, rfl⟩

theorem revoke_ring (er : EventRing cfg) (k : Nat) (gen prevGen : UInt32) :
    (er.revoke k gen prevGen).ring = er.ring ∧ (er.revoke k gen prevGen).pushes = er.pushes := by
  unfold EventRing.revoke
  split <;> exact ⟨rfl, rfl⟩

/-- One iteration of the pump puts every client at most one entry further behind. -/
theorem pumpKey_accounted {n : Nat} {w : World cfg} (h : Accounted (fun _ => n) w) (k : Nat) :
    Accounted (fun _ => n + 1) (w.pumpKey k) ∧ (w.pumpKey k).table = w.table := by
  have hmono : Accounted (fun _ => n + 1) w := h.mono fun _ => Nat.le_succ n
  unfold pumpKey
  split
  · exact ⟨hmono, rfl⟩
  rename_i slot hslot
  have hk : k < w.table.length := (List.getElem?_eq_some_iff.mp hslot).1
  split
  · exact ⟨hmono, rfl⟩
  simp only
  split
  · exact ⟨hmono.of_ring_eq rfl rfl rfl rfl, rfl⟩
  rename_i gen _
  split
  · exact ⟨hmono.of_ring_eq rfl rfl rfl rfl, rfl⟩
  rename_i prevGen _
  have hclaim := claim_ring w.events k gen
  unfold pumpClaimed
  simp only
  split
  · exact ⟨hmono.of_ring_eq rfl rfl hclaim.1 hclaim.2, rfl⟩
  split
  · have hrevoke := revoke_ring (w.events.claim k gen).2 k gen prevGen
    exact ⟨hmono.of_ring_eq rfl rfl (hrevoke.1.trans hclaim.1) (hrevoke.2.trans hclaim.2), rfl⟩
  · have hclaimed : Accounted (fun _ => n)
        { w with env := (w.env.genFn slot.key).2, events := (w.events.claim k gen).2 } :=
      h.of_ring_eq rfl rfl hclaim.1 hclaim.2
    have hcommit := commit_accounted hclaimed hk gen
    exact ⟨(hcommit _).of_ring_eq rfl rfl rfl rfl, rfl⟩

theorem pushPump_accounted {w : World cfg} (h : Accounted (fun _ => 0) w) :
    Accounted (fun _ => maxAttach) w.pushPump := by
  unfold pushPump
  split
  · exact h.mono fun _ => Nat.zero_le _
  · have hstart : Accounted (fun _ => 0) w ∧ w.table = w.table := ⟨h, rfl⟩
    have hloop := @forRange_induct (World cfg)
      (fun k v => Accounted (fun _ => k) v ∧ v.table = w.table) pumpKey w w.table.length hstart
      fun k v _ hv => ⟨(pumpKey_accounted hv.1 k).1, (pumpKey_accounted hv.1 k).2.trans hv.2⟩
    exact hloop.1.mono fun _ => h.table_le

/-- After the first `idx` clients have been served, those have caught up. -/
def servedLag (idx : Nat) (i : Nat) : Nat :=
  if i < idx then 0 else maxAttach

/-- Updating one slot keeps the invariant when the new client has caught up. -/
theorem Accounted.update {lag lag' : Nat → Nat} {idx : Nat} {w w' : World cfg}
    (h : Accounted lag w) (htable : w'.table = w.table) (hevents : w'.events = w.events)
    (client : Option (Client cfg)) (hclients : w'.clients = Function.update w.clients idx client)
    (hlag : ∀ i, i ≠ idx → lag' i = lag i)
    (hclient : ∀ c, client = some c → idx < cfg.maxClients ∧ CaughtUp w.events (lag' idx) c) :
    Accounted lag' w' := by
  refine ⟨htable ▸ h.table_le, ?_, fun i c hc => ?_, fun i c hc => ?_⟩
  · rw [hevents, htable]
    exact h.ids
  · rw [hclients] at hc
    rcases update_eq_some hc with ⟨rfl, hnew⟩ | ⟨-, hold⟩
    · exact (hclient c hnew).1
    · exact h.slot_lt i c hold
  · rw [hevents]
    rw [hclients] at hc
    rcases update_eq_some hc with ⟨rfl, hnew⟩ | ⟨hne, hold⟩
    · exact (hclient c hnew).2
    · rw [hlag i hne]
      exact h.clients i c hold

theorem servedLag_succ {idx i : Nat} (hne : i ≠ idx) : servedLag (idx + 1) i = servedLag idx i := by
  unfold servedLag
  split <;> split <;> omega

theorem serve_accounted {idx : Nat} {w : World cfg} (h : Accounted (servedLag idx) w) :
    Accounted (servedLag (idx + 1)) (w.serve idx) := by
  unfold serve
  split
  · rename_i hnone
    exact h.update rfl rfl none (by rw [← hnone, Function.update_eq_self])
      (fun _ => servedLag_succ) (by simp)
  rename_i c hc
  split
  · exact h.update rfl rfl none rfl (fun _ => servedLag_succ) (by simp)
  have hslot := h.slot_lt idx c hc
  have hdrained : CaughtUp w.events (servedLag idx idx) (w.drainState c).2 :=
    drainState_caughtUp (h.clients idx c hc)
  have hlag : servedLag idx idx ≤ 2 ^ 31 := by simp [servedLag, maxAttach]
  have hfed := Client.drainEvents_caughtUp hdrained hlag h.ids
  have hserved : servedLag (idx + 1) idx = 0 := if_pos (Nat.lt_succ_self idx)
  refine h.update (w.drainState_frame c).1 (w.drainState_frame c).2.1 _ rfl
    (fun _ => servedLag_succ) ?_
  intro c' hc'
  exact ⟨hslot, hserved ▸ Client.flush_caughtUp w.seams hfed hc'⟩

/-- A whole sweep leaves every client caught up. -/
theorem sweepStep_accounted {w : World cfg} (h : Accounted (fun _ => 0) w) :
    Accounted (fun _ => 0) w.sweepStep := by
  have hpumped := pushPump_accounted (detect_accounted h)
  have hserved : Accounted (servedLag cfg.maxClients) w.sweepStep :=
    @forRange_induct (World cfg) (fun idx v => Accounted (servedLag idx) v) serve
      w.detect.pushPump cfg.maxClients hpumped fun idx v _ hv => serve_accounted hv
  refine ⟨hserved.table_le, hserved.ids, hserved.slot_lt, fun i c hc => ?_⟩
  have hlag : servedLag cfg.maxClients i = 0 := if_pos (hserved.slot_lt i c hc)
  exact hlag ▸ hserved.clients i c hc

/-! ## Whole runs -/

/-- A freshly acquired client has caught up. -/
theorem acquire_caughtUp {table : AttachTable} {er : EventRing cfg} {now : Nat}
    {clients : Clients cfg} {c : ClientCfg} {i : Nat} {client : Client cfg}
    (h : acquire table er now clients c = .ok (i, client)) : CaughtUp er 0 client := by
  obtain ⟨-, -, out, hout, rfl⟩ := acquire_ok h
  intro p hp
  simp only [Client.fresh] at hp
  split at hp
  · cases hp
    exact ⟨Balanced.fresh (Outbox.create_origins hout) _ _ er.totalPushed_eq, Nat.le_refl _,
      Nat.le_refl _⟩
  · cases hp

theorem init_accounted (seams : Seams) (sources : Bytes → Source cfg) (clock : Nat) :
    Accounted (fun _ => 0) (init seams sources clock) where
  table_le := Nat.zero_le _
  ids e he := by simp [init] at he
  slot_lt i c hc := by cases hc
  clients i c hc := by cases hc

/-- Every action keeps every client caught up. -/
theorem step_accounted {w : World cfg} (h : Accounted (fun _ => 0) w) (a : Action cfg) :
    Accounted (fun _ => 0) (w.step a) := by
  cases a with
  | attach a =>
    have hmono := attach_length_mono cfg (w.ticks + 1) w.table a
    exact
      { table_le := attach_length_le cfg (w.ticks + 1) a h.table_le
        ids := fun e he => Nat.lt_of_lt_of_le (h.ids e he) hmono
        slot_lt := h.slot_lt
        clients := h.clients }
  | acquire c =>
    simp only [step]
    split
    · exact h
    · rename_i i client hacquire
      refine h.update rfl rfl (some client) rfl (fun _ _ => rfl) ?_
      intro d hd
      cases hd
      exact ⟨(acquire_ok hacquire).1, acquire_caughtUp hacquire⟩
  | release i => exact h.update rfl rfl none rfl (fun _ _ => rfl) (by simp)
  | requestRelease i =>
    refine h.update rfl rfl _ rfl (fun _ _ => rfl) ?_
    intro d hd
    obtain ⟨c, hc, rfl⟩ := Option.map_eq_some_iff.mp hd
    exact ⟨h.slot_lt i c hc, h.clients i c hc⟩
  | setSeams s => exact ⟨h.table_le, h.ids, h.slot_lt, h.clients⟩
  | publish b => exact ⟨h.table_le, h.ids, h.slot_lt, h.clients⟩
  | elapse ms => exact ⟨h.table_le, h.ids, h.slot_lt, h.clients⟩
  | sweep script =>
    exact sweepStep_accounted ⟨h.table_le, h.ids, h.slot_lt, h.clients⟩

end World

/--
In every reachable state, the account of a client with a push block is complete
exactly when every STATE push since its acquire evicted STATE frames only.
-/
theorem conserved_iff_state_pushes_spare (seams : Seams) (sources : Bytes → Source cfg)
    (clock : Nat) (as : List (Action cfg)) (i : Nat) (c : Client cfg) (p : PushState)
    (hclient : (run World.step (World.init seams sources clock) as).clients i = some c)
    (hpush : c.push = some p) :
    Conserved (run World.step (World.init seams sources clock) as).events c.sub p c.out ↔
      ∀ q ∈ c.out.statePushes, SparesEvents cfg q := by
  have hstep (w : World cfg) (a : Action cfg) (h : w.Accounted fun _ => 0) :
      (w.step a).Accounted fun _ => 0 := World.step_accounted h a
  have hreach := run_invariant hstep (World.init_accounted seams sources clock) as
  rw [conserved_iff_lost (hreach.clients i c hclient) hpush, lost_all_state_iff]

/-! ## A stalled client loses an EVENT -/

/-- Attach a STATE and an EVENT key, acquire a client for both, and sweep once. -/
def attachAndSweep : List (Action oneFrameConfig) :=
  [.attach { key := some [115], topic := some [116], kind := .state, snapSize := 0,
             minIntervalMs := 0 },
    .attach { key := some [101], topic := some [116], kind := .event, snapSize := 0,
              minIntervalMs := 0 },
    .acquire { topicFilter := none, subscribeMask := 0, nonBlocking := false, hasSendFn := false,
               hasAbortFn := false, lifetime := .durable },
    .sweep []]

/-- A seam call with the given result, while nothing else happens. -/
def resultOf (rc : BbErr) : Call oneFrameConfig :=
  { bumps := [], elapsed := 0, rc := rc }

/-- The EVENT frame is queued but its send times out; the next STATE frame takes its place. -/
def stalledClient : List (Action oneFrameConfig) :=
  attachAndSweep ++
  [.publish { key := [101], gen := 1, frame := Frame.empty oneFrameConfig },
    .sweep [resultOf .ok, resultOf .ok, resultOf .ok, resultOf .timeout],
    .publish { key := [115], gen := 1, frame := Frame.empty oneFrameConfig },
    .sweep []]

/-- The evicted EVENT is in none of the places and the drop count does not show it. -/
theorem state_push_loses_event :
    ¬ ∀ (as : List (Action oneFrameConfig)) (i : Nat) (c : Client oneFrameConfig) (p : PushState),
      (World.after as).clients i = some c → c.push = some p →
        Conserved (World.after as).events c.sub p c.out := by
  intro hall
  have hmissing : ((World.after stalledClient).clients 0).any (fun c =>
      c.push.any fun p =>
        (places (World.after stalledClient).events p c.out).length ≠
          (World.after stalledClient).events.pushes - p.since) = true := by
    decide +kernel
  obtain ⟨c, hc, hany⟩ := (Option.any_eq_true _ _).mp hmissing
  obtain ⟨p, hp, hlen⟩ := (Option.any_eq_true _ _).mp hany
  have hconserved := hall stalledClient 0 c p hc hp
  have heq := hconserved.seqs.length_eq
  rw [List.length_range'] at heq
  simp [heq] at hlen

/-- A run whose STATE pushes evict nothing keeps the account complete. -/
theorem conserved_iff_state_pushes_spare_attachAndSweep :
    ∃ c p, (World.after attachAndSweep).clients 0 = some c ∧ c.push = some p ∧
      Conserved (World.after attachAndSweep).events c.sub p c.out := by
  have hquiet : ((World.after attachAndSweep).clients 0).any (fun c =>
      c.push.isSome && c.out.statePushes.all fun q => evictedBy oneFrameConfig q = []) = true := by
    decide +kernel
  obtain ⟨c, hc, hall⟩ := (Option.any_eq_true _ _).mp hquiet
  rw [Bool.and_eq_true, List.all_eq_true] at hall
  obtain ⟨p, hp⟩ := Option.isSome_iff_exists.mp hall.1
  refine ⟨c, p, hc, hp, ?_⟩
  refine (conserved_iff_state_pushes_spare _ _ _ attachAndSweep 0 c p hc hp).mpr ?_
  intro q hq e he
  have hnil : evictedBy oneFrameConfig q = [] := by simpa using hall.2 q hq
  rw [hnil] at he
  cases he

end DataHttp
end Breadboard
