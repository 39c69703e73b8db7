import Breadboard.DataHttp.Account

/-!
# bb_data_http - the EVENT drain beside a concurrent commit

`drain_client_events` takes no lock.  Between its read of the ring occupancy,
its read of the push counter, and each of its peeks, a second
`bb_data_http_push_pump` caller can commit a frame, in two stores made under a
lock that the drain does not take.

The drain derives the sequence number of the entry at an index from the two values
read at its start.  The derivation stays right until a commit evicts the oldest
entry or falls between the two reads; what matters is whether the drain peeks
again after that.

Main results:

- Theorem `uninterrupted_drain`: the steps of an undisturbed drain compose to
  `Feed.drainEvents`.
- Theorem `delivered_once_iff_peeks_aligned`: over every interleaving, each
  entry is accounted for once and none is skipped exactly when every peek finds the
  ring's oldest entry where the drain assumes it.
-/

namespace Breadboard
namespace DataHttp
namespace ConcurrentDrain

open Queue Foundations

variable {cfg : Config}

/-! ## The drain and its surroundings -/

/-- Where the drain stands between two of its reads of the shared ring. -/
inductive DrainPoint where
  | idle
  | counted (ringCount : Nat)
  | looping (oldestSeq : UInt32) (ringCount idx : Nat)
  deriving Repr, DecidableEq

/--
The shared ring, one client, and where its drain stands.  `committing` says that a
commit has pushed its frame and has not yet incremented `s_event_total_pushed`; the
counter of `events` already includes that increment.
-/
structure State (cfg : Config) where
  table : AttachTable
  events : EventRing cfg
  committing : Bool
  sub : Subscription
  feed : Feed cfg
  point : DrainPoint

/-- One step of the second caller, of the drain, or of the sweep between two drains. -/
inductive Act (cfg : Config) where
  | attach (a : AttachCfg)
  | commitPush (k : Nat) (frame : Frame cfg)
  | commitCount
  | readCount
  | readTotal
  | iterate
  | acquire (sub : Subscription)
  | pushState (k : Nat) (frame : Frame cfg)
  | sendOldest

namespace State

/-- The value a read of `s_event_total_pushed` returns. -/
def totalPushed (s : State cfg) : UInt32 :=
  if s.committing then s.events.totalPushed - 1 else s.events.totalPushed

/-- The number of increments of `s_event_total_pushed` made so far. -/
def counted (s : State cfg) : Nat :=
  if s.committing then s.events.pushes - 1 else s.events.pushes

/-- A client acquired before anything was pushed, with the outbound queue `out`. -/
def start (sub : Subscription) (out : Outbox cfg) : State cfg where
  table := []
  events := EventRing.init cfg
  committing := false
  sub := sub
  feed := { push := PushState.fresh 0 0, out := out }
  point := .idle

/-- The locked push of a commit; the lock excludes another commit in progress. -/
def commitPush (s : State cfg) (k : Nat) (frame : Frame cfg) : State cfg :=
  if s.committing = true ∨ s.table.length ≤ k then s
  else { s with events := s.events.pushFrame k frame, committing := true }

/-- The start of the drain up to its loop: marker, lag, first index. -/
def readTotal (s : State cfg) (ringCount : Nat) : State cfg :=
  let oldestSeq := s.totalPushed - UInt32.ofNat ringCount
  { s with
    feed := s.feed.tryFlushMarker.countLag oldestSeq
    point := .looping oldestSeq ringCount 0 }

/-- The loop test and, if it holds, one iteration of the drain loop. -/
def iterate (s : State cfg) (oldestSeq : UInt32) (ringCount idx : Nat) : State cfg :=
  if idx < ringCount then
    { s with
      feed := s.feed.drainAt s.table s.sub s.events oldestSeq idx
      point := .looping oldestSeq ringCount (idx + 1) }
  else { s with point := .idle }

/-- A new client in the slot: its cursor is the push counter as read. -/
def acquire (s : State cfg) (sub : Subscription) : State cfg :=
  match Outbox.create cfg with
  | .error _ => s
  | .ok out =>
    { s with
      sub := sub
      feed := { push := PushState.fresh s.totalPushed s.counted, out := out } }

/-- The send seam takes the oldest queued frame. -/
def sendOldest (s : State cfg) : State cfg :=
  match s.feed.out.queue.peekOldest with
  | .error _ => s
  | .ok e => { s with feed := { s.feed with out := s.feed.out.popHanded e.tag } }

/-- One step.  The sweep's own steps wait until its drain is done. -/
def step (s : State cfg) : Act cfg → State cfg
  | .attach a => { s with table := (DataHttp.attach cfg 0 s.table a).2 }
  | .commitPush k frame => s.commitPush k frame
  | .commitCount => { s with committing := false }
  | .readCount => if s.point = .idle then { s with point := .counted s.events.ring.count } else s
  | .readTotal =>
    match s.point with
    | .counted ringCount => s.readTotal ringCount
    | _ => s
  | .iterate =>
    match s.point with
    | .looping oldestSeq ringCount idx => s.iterate oldestSeq ringCount idx
    | _ => s
  | .acquire sub => if s.point = .idle then s.acquire sub else s
  | .pushState k frame =>
    if s.point = .idle then { s with feed := { s.feed with out := s.feed.out.pushState k frame } }
    else s
  | .sendOldest => if s.point = .idle then s.sendOldest else s

/-! ## The property and the condition -/

/--
No sequence number is accounted for twice, and every one behind the client's cursor was
delivered, counted as dropped, or examined and found not subscribed to.
-/
structure DeliveredOnce (s : State cfg) : Prop where
  nodup : (accountedSeqs s.feed.push s.feed.out).Nodup
  covered : ∀ seq, s.feed.push.since ≤ seq → seq < s.feed.push.cursorSeq →
    seq ∈ accountedSeqs s.feed.push s.feed.out

/-- A loop iteration that reads the ring finds its oldest entry where the drain assumes it. -/
def PeekAligned (s : State cfg) : Act cfg → Prop
  | .iterate =>
    match s.point with
    | .looping oldestSeq ringCount idx =>
      idx < ringCount →
        ¬ signedDiff (oldestSeq + UInt32.ofNat idx) s.feed.push.cursor < 0 →
          s.events.oldestSeq + idx = s.feed.push.cursorSeq
    | _ => True
  | _ => True

instance (s : State cfg) (a : Act cfg) : Decidable (s.PeekAligned a) := by
  unfold PeekAligned
  split
  · split <;> infer_instance
  · infer_instance

/-! ## The invariant -/

/-- The drain is at most half a period behind the cursor, and the ring did not shrink. -/
def Tracks (s : State cfg) : Prop :=
  match s.point with
  | .idle => True
  | .counted ringCount => ringCount ≤ s.events.ring.count
  | .looping oldestSeq ringCount idx =>
    ringCount ≤ s.events.ring.count ∧ idx ≤ (s.feed.push.cursor - oldestSeq).toNat ∧
      (s.feed.push.cursor - oldestSeq).toNat < 2 ^ 31

/-- The client's account is balanced and the drain tracks its cursor. -/
structure Sound (s : State cfg) : Prop where
  balanced : Balanced s.sub s.feed.push s.feed.out
  table_le : s.table.length ≤ maxAttach
  ids : s.events.IdsBelow s.table.length
  committing_pos : s.committing = true → 0 < s.events.pushes
  tracks : s.Tracks

theorem Sound.deliveredOnce {s : State cfg} (h : s.Sound) : s.DeliveredOnce where
  nodup := h.balanced.seqs.nodup_iff.mpr List.nodup_range'
  covered seq hsince hcursor := by
    apply h.balanced.seqs.mem_iff.mpr
    rw [List.mem_range'_1]
    omega

theorem Sound.totalPushed_eq {s : State cfg} (h : s.Sound) :
    s.totalPushed = UInt32.ofNat s.counted := by
  unfold totalPushed counted
  rw [s.events.totalPushed_eq]
  split
  · rename_i hcommitting
    rw [UInt32.ofNat_sub (h.committing_pos hcommitting)]
    rfl
  · rfl

/-- Steps that leave the client and the drain alone, over a ring that did not shrink. -/
theorem Sound.frame {s s' : State cfg} (h : s.Sound) (hsub : s'.sub = s.sub)
    (hfeed : s'.feed = s.feed) (hpoint : s'.point = s.point)
    (hcount : s.events.ring.count ≤ s'.events.ring.count) (htable : s'.table.length ≤ maxAttach)
    (hids : s'.events.IdsBelow s'.table.length)
    (hpos : s'.committing = true → 0 < s'.events.pushes) : s'.Sound := by
  refine ⟨?_, htable, hids, hpos, ?_⟩
  · rw [hsub, hfeed]
    exact h.balanced
  · have htracks := h.tracks
    unfold Tracks at htracks ⊢
    rw [hpoint, hfeed]
    split
    · trivial
    · rename_i n hp
      rw [hp] at htracks
      exact Nat.le_trans htracks hcount
    · rename_i oldest n idx hp
      rw [hp] at htracks
      exact ⟨Nat.le_trans htracks.1 hcount, htracks.2⟩

/-- Steps of the idle sweep that keep the account. -/
theorem Sound.idle {s : State cfg} (h : s.Sound) (hpoint : s.point = .idle) (sub : Subscription)
    {feed : Feed cfg} (hbalanced : Balanced sub feed.push feed.out) :
    Sound { s with sub := sub, feed := feed } := by
  refine ⟨hbalanced, h.table_le, h.ids, h.committing_pos, ?_⟩
  unfold Tracks
  rw [hpoint]
  trivial

theorem Sound.commitPush {s : State cfg} (h : s.Sound) (k : Nat) (frame : Frame cfg) :
    (s.commitPush k frame).Sound := by
  unfold State.commitPush
  split
  · exact h
  rename_i hnot
  have hk : k < s.table.length := by
    by_contra hge
    exact hnot (Or.inr (Nat.not_lt.mp hge))
  refine h.frame rfl rfl rfl ?_ h.table_le ?_ ?_
  · exact s.events.count_le_pushFrame k frame
  · exact h.ids.pushFrame hk h.table_le frame
  · intro _
    exact Nat.succ_pos _

/-- After the lag was counted, the cursor is not behind the oldest entry as computed. -/
theorem countLag_not_behind (f : Feed cfg) (oldestSeq : UInt32) :
    ((f.countLag oldestSeq).push.cursor - oldestSeq).toNat < 2 ^ 31 := by
  unfold Feed.countLag
  split
  · simp
  · rename_i hnot
    rw [signedDiff_neg_iff] at hnot
    exact Nat.not_le.mp hnot

theorem Sound.readTotal {s : State cfg} (h : s.Sound) {n : Nat} (hpoint : s.point = .counted n) :
    (s.readTotal n).Sound := by
  have htracks := h.tracks
  unfold Tracks at htracks
  rw [hpoint] at htracks
  refine ⟨h.balanced.tryFlushMarker.countLag _, h.table_le, h.ids, h.committing_pos, ?_⟩
  exact ⟨htracks, Nat.zero_le _, countLag_not_behind _ _⟩

/-- What an iteration of the drain loop does: pass over an old index, or read at the cursor. -/
theorem Sound.iterate_cases {s : State cfg} (h : s.Sound) {oldestSeq : UInt32} {n idx : Nat}
    (hpoint : s.point = .looping oldestSeq n idx) (hidx : idx < n) :
    (signedDiff (oldestSeq + UInt32.ofNat idx) s.feed.push.cursor < 0 ∧
        idx < (s.feed.push.cursor - oldestSeq).toNat ∧
        s.feed.drainAt s.table s.sub s.events oldestSeq idx = s.feed) ∨
      (¬ signedDiff (oldestSeq + UInt32.ofNat idx) s.feed.push.cursor < 0 ∧
        oldestSeq + UInt32.ofNat idx = s.feed.push.cursor ∧
        ∃ e, e ∈ s.events.ring.contents ∧ e.tag = s.events.oldestSeq + idx ∧
          s.feed.drainAt s.table s.sub s.events oldestSeq idx =
            s.feed.drainEntry s.table s.sub s.feed.push.cursor e) := by
  have htracks := h.tracks
  unfold Tracks at htracks
  rw [hpoint] at htracks
  obtain ⟨hcount, hle, hnear⟩ := htracks
  have htest := signedDiff_count_neg_iff hle hnear
  by_cases hneg : signedDiff (oldestSeq + UInt32.ofNat idx) s.feed.push.cursor < 0
  · refine Or.inl ⟨hneg, htest.mp hneg, ?_⟩
    unfold Feed.drainAt
    rw [if_pos hneg]
  · have hlevel : idx = (s.feed.push.cursor - oldestSeq).toNat :=
      Nat.le_antisymm hle (Nat.not_lt.mp (mt htest.mpr hneg))
    have hcursor : oldestSeq + UInt32.ofNat idx = s.feed.push.cursor := by
      rw [hlevel]
      exact add_ofNat_toNat_sub _ _
    obtain ⟨e, hpeek, htag⟩ := s.events.peekAt_of_lt (Nat.lt_of_lt_of_le hidx hcount)
    have hmem := List.mem_of_getElem? ((s.events.ring.peekAt_ok_iff idx e).mp hpeek)
    refine Or.inr ⟨hneg, hcursor, e, hmem, htag, ?_⟩
    unfold Feed.drainAt
    rw [if_neg hneg, hpeek, hcursor]

/-- After an iteration the drain still tracks the cursor, one index further. -/
theorem Sound.iterate_tracks {s : State cfg} (h : s.Sound) {oldestSeq : UInt32} {n idx : Nat}
    (hpoint : s.point = .looping oldestSeq n idx) (hidx : idx < n) :
    (s.iterate oldestSeq n idx).Tracks := by
  have htracks := h.tracks
  unfold Tracks at htracks
  rw [hpoint] at htracks
  have hsmall : idx < 64 := by
    have := s.events.count_le
    omega
  unfold State.iterate
  rw [if_pos hidx]
  refine ⟨htracks.1, ?_⟩
  rcases h.iterate_cases hpoint hidx with ⟨-, hlt, hskip⟩ | ⟨-, hcursor, e, -, -, hread⟩
  · rw [hskip]
    exact ⟨hlt, htracks.2.2⟩
  · have hnext : s.feed.push.cursor + 1 - oldestSeq = UInt32.ofNat (idx + 1) := by
      rw [← hcursor, UInt32.ofNat_add, UInt32.add_assoc, UInt32.add_comm, UInt32.add_sub_cancel]
      rfl
    rw [hread, (drainEntry_cursor _ _ _ _ _).2.1, hnext, UInt32.toNat_ofNat']
    omega

/-- An aligned iteration keeps the account. -/
theorem Sound.iterate {s : State cfg} (h : s.Sound) {oldestSeq : UInt32} {n idx : Nat}
    (hpoint : s.point = .looping oldestSeq n idx) (haligned : s.PeekAligned .iterate) :
    (s.iterate oldestSeq n idx).Sound := by
  by_cases hidx : idx < n
  · have htracks := h.iterate_tracks hpoint hidx
    unfold State.iterate at htracks ⊢
    rw [if_pos hidx] at htracks ⊢
    refine ⟨?_, h.table_le, h.ids, h.committing_pos, htracks⟩
    rcases h.iterate_cases hpoint hidx with ⟨-, -, hskip⟩ | ⟨hread, -, e, hmem, htag, hentry⟩
    · rw [hskip]
      exact h.balanced
    · simp only [PeekAligned, hpoint] at haligned
      have hat : e.tag = s.feed.push.cursorSeq := htag.trans (haligned hidx hread)
      have hcursor : s.feed.push.cursor = UInt32.ofNat e.tag := by rw [hat, h.balanced.cursor_eq]
      rw [hentry, hcursor]
      exact (h.balanced.drainEntry hat (s.events.ring.entry_len_le hmem) (h.ids e hmem)).1
  · unfold State.iterate
    rw [if_neg hidx]
    exact ⟨h.balanced, h.table_le, h.ids, h.committing_pos, trivial⟩

/-- Every aligned step keeps the invariant. -/
theorem step_sound {s : State cfg} (h : s.Sound) {a : Act cfg} (ha : s.PeekAligned a) :
    (s.step a).Sound := by
  cases a with
  | attach a =>
    have hmono := attach_length_mono cfg 0 s.table a
    exact h.frame rfl rfl rfl (Nat.le_refl _) (attach_length_le cfg 0 a h.table_le)
      (fun e he => Nat.lt_of_lt_of_le (h.ids e he) hmono) h.committing_pos
  | commitPush k frame => exact h.commitPush k frame
  | commitCount =>
    exact h.frame rfl rfl rfl (Nat.le_refl _) h.table_le h.ids (fun hfalse => by cases hfalse)
  | readCount =>
    simp only [step]
    split
    · exact ⟨h.balanced, h.table_le, h.ids, h.committing_pos, Nat.le_refl _⟩
    · exact h
  | readTotal =>
    simp only [step]
    split
    · rename_i n hpoint
      exact h.readTotal hpoint
    · exact h
  | iterate =>
    simp only [step]
    split
    · rename_i oldestSeq n idx hpoint
      exact h.iterate hpoint ha
    · exact h
  | acquire sub =>
    simp only [step]
    split
    · rename_i hpoint
      unfold State.acquire
      split
      · exact h
      · rename_i out hout
        exact h.idle hpoint sub
          (Balanced.fresh (Outbox.create_origins hout) _ _ h.totalPushed_eq)
    · exact h
  | pushState k frame =>
    simp only [step]
    split
    · rename_i hpoint
      exact h.idle hpoint s.sub (h.balanced.pushState k frame)
    · exact h
  | sendOldest =>
    simp only [step]
    split
    · rename_i hpoint
      unfold State.sendOldest
      split
      · exact h
      · rename_i e hpeek
        exact h.idle hpoint s.sub (h.balanced.popHanded hpeek)
    · exact h

/-- A misaligned peek moves the cursor past an entry that is accounted for nowhere. -/
theorem step_skips {s : State cfg} (h : s.Sound) {a : Act cfg} (ha : ¬ s.PeekAligned a) :
    ¬ (s.step a).DeliveredOnce := by
  cases a with
  | iterate =>
    simp only [PeekAligned] at ha
    split at ha
    · rename_i oldestSeq n idx hpoint
      obtain ⟨hidx, hread, hoff⟩ : idx < n ∧
          ¬ signedDiff (oldestSeq + UInt32.ofNat idx) s.feed.push.cursor < 0 ∧
          s.events.oldestSeq + idx ≠ s.feed.push.cursorSeq := by
        simpa only [Classical.not_imp] using ha
      rcases h.iterate_cases hpoint hidx with ⟨hneg, -, -⟩ | ⟨-, -, e, hmem, htag, hentry⟩
      · exact absurd hneg hread
      intro hgood
      simp only [step, hpoint, State.iterate, if_pos hidx] at hgood
      obtain ⟨hsince, -, hcursorSeq⟩ :=
        drainEntry_cursor s.table s.sub s.feed s.feed.push.cursor e
      have hone : (s.feed.push.cursor + 1 - s.feed.push.cursor).toNat = 1 := by
        rw [UInt32.add_comm, UInt32.add_sub_cancel]
        rfl
      have hcovered := hgood.covered s.feed.push.cursorSeq
      simp only [hentry, hsince, hcursorSeq, hone] at hcovered
      have hperm := accountedSeqs_drainEntry s.table s.sub s.feed s.feed.push.cursor
        (s.events.ring.entry_len_le hmem)
      have hmem' := hperm.mem_iff.mp (hcovered h.balanced.since_le (Nat.lt_succ_self _))
      rcases List.mem_append.mp hmem' with hold | hnew
      · have hrange := h.balanced.seqs.mem_iff.mp hold
        rw [List.mem_range'_1] at hrange
        have := h.balanced.since_le
        omega
      · rw [List.mem_singleton, htag] at hnew
        exact hoff hnew.symm
    · exact absurd trivial ha
  | _ => exact absurd trivial ha

theorem start_sound (sub : Subscription) {out : Outbox cfg} (hout : Outbox.create cfg = .ok out) :
    (start sub out).Sound where
  balanced := Balanced.fresh (Outbox.create_origins hout) 0 0 rfl
  table_le := Nat.zero_le _
  ids e he := by simp [start] at he
  committing_pos h := by cases h
  tracks := trivial

/-! ## The steps of an undisturbed drain -/

theorem run_iterate (s : State cfg) (f : Feed cfg) (oldestSeq : UInt32) (ringCount : Nat) {k : Nat}
    (hk : k ≤ ringCount) :
    run step { s with feed := f, point := .looping oldestSeq ringCount 0 }
        (List.replicate k .iterate) =
      { s with
        feed := forRange (Feed.drainAt s.table s.sub s.events oldestSeq) f k
        point := .looping oldestSeq ringCount k } := by
  induction k with
  | zero => rfl
  | succ k ih =>
    rw [List.replicate_succ', run_append, ih (Nat.le_of_succ_le hk), run_cons, run_nil]
    simp only [step, iterate, if_pos (show k < ringCount from hk), forRange_succ]

end State

/-! ## Every interleaving -/

/--
Over every interleaving, each sequence number is accounted for once and none behind the
cursor is missing, throughout, exactly when every peek of the drain is aligned.
-/
theorem delivered_once_iff_peeks_aligned (sub : Subscription) {out : Outbox cfg}
    (hout : Outbox.create cfg = .ok out) (as : List (Act cfg)) :
    (∀ pre, pre <+: as → (run State.step (State.start sub out) pre).DeliveredOnce) ↔
      Along State.step State.PeekAligned (State.start sub out) as := by
  apply good_throughout_iff_along (I := State.Sound)
  · intro s a hs ha
    exact State.step_sound hs ha
  · intro s hs
    exact hs.deliveredOnce
  · intro s a hs ha
    exact State.step_skips hs ha
  · exact State.start_sound sub hout

/-! ## A commit that evicts between two peeks -/

/-- The default options with an EVENT ring of two entries. -/
def twoEntryConfig : Config :=
  { Config.default with
    ringCapacity := 2
    ringCapacity_range := by decide }

/-- A commit of an empty frame for the first key. -/
def commitOne : List (Act twoEntryConfig) :=
  [.commitPush 0 (Frame.empty twoEntryConfig), .commitCount]

/-- Two entries are in the ring when the drain starts; it has read the first of them. -/
def firstPeek : List (Act twoEntryConfig) :=
  [.attach { key := some [101], topic := some [116], kind := .event, snapSize := 0,
             minIntervalMs := 0 }] ++
  commitOne ++ commitOne ++ [.readCount, .readTotal, .iterate]

/-- The subscription to every kind and topic. -/
def everything : Subscription :=
  { mask := subscribeAll, topicFilter := [] }

/-- Entry 1 moves to index 0 before the drain reads index 1, and the client never gets it. -/
theorem eviction_skips_entry :
    ¬ ∀ (out : Outbox twoEntryConfig) (as : List (Act twoEntryConfig)),
      Outbox.create twoEntryConfig = .ok out →
        (run State.step (State.start everything out) as).DeliveredOnce := by
  intro hall
  have hskipped : (match Outbox.create twoEntryConfig with
      | .error _ => false
      | .ok out =>
        let s := run State.step (State.start everything out) (firstPeek ++ commitOne ++ [.iterate])
        accountedSeqs s.feed.push s.feed.out = [0, 2] ∧ s.feed.push.since = 0 ∧
          s.feed.push.cursorSeq = 2) = true := by
    decide +kernel
  split at hskipped
  · cases hskipped
  · rename_i out hout
    rw [decide_eq_true_eq] at hskipped
    obtain ⟨hseqs, hsince, hcursor⟩ := hskipped
    have hcovered := (hall out (firstPeek ++ commitOne ++ [.iterate]) hout).covered 1 (by omega)
      (by omega)
    rw [hseqs] at hcovered
    exact absurd hcovered (by decide)

/-- With the commit after the last peek instead, the whole run is aligned. -/
theorem delivered_once_iff_peeks_aligned_commitAfter :
    ∃ out, Outbox.create twoEntryConfig = .ok out ∧
      ∀ pre, pre <+: firstPeek ++ [.iterate] ++ commitOne →
        (run State.step (State.start everything out) pre).DeliveredOnce := by
  have haligned : (match Outbox.create twoEntryConfig with
      | .error _ => false
      | .ok out => decide (Along State.step State.PeekAligned (State.start everything out)
          (firstPeek ++ [.iterate] ++ commitOne))) = true := by
    decide +kernel
  split at haligned
  · cases haligned
  · rename_i out hout
    rw [decide_eq_true_eq] at haligned
    exact ⟨out, hout, (delivered_once_iff_peeks_aligned everything hout _).mpr haligned⟩

end ConcurrentDrain
end DataHttp
end Breadboard
