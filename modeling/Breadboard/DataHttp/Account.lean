import Mathlib.Data.List.Perm.Basic
import Mathlib.Data.List.Range
import Breadboard.DataHttp.Sweep

/-!
# bb_data_http - what becomes of each outbound frame

Every frame that enters a client's outbound queue has an origin.  It is still
queued, was handed to the send seam, was dropped by the retry bound, or was
evicted by a STATE push.  Every ring entry a client's cursor has passed entered
the queue, was counted as dropped, or was passed over.  These two accounts are
permutations, so nothing is missing and nothing is counted twice.

Main results:

- Theorem `Balanced.drainEntry`: a drained entry is accounted for once.
- Theorem `Balanced.drainEvents`: an uninterrupted drain accounts for every
  ring entry behind the cursor.
-/

namespace Breadboard
namespace DataHttp

open Queue Foundations

variable {cfg : Config}

/-! ## The account of an outbound queue -/

/-- The entries a STATE push evicts from the contents it finds. -/
def evictedBy (cfg : Config) (p : List (Entry Origin) × Nat) : List (Entry Origin) :=
  BoundedFifo.evictedFor Entry.len cfg.outboundCapacity cfg.outboundMaxBytes p.2 p.1

/-- The origins of the frames STATE pushes have evicted. -/
def Outbox.lost (o : Outbox cfg) : List Origin :=
  o.statePushes.flatMap fun p => (evictedBy cfg p).map Entry.tag

/-- The origins of the queued frames, oldest first. -/
def Outbox.queued (o : Outbox cfg) : List Origin :=
  o.queue.contents.map Entry.tag

/-- The origins of all frames that ever entered the queue, by where they are now. -/
def Outbox.origins (o : Outbox cfg) : List Origin :=
  o.handed ++ o.failed ++ o.queued ++ o.lost

/-- The sequence number of an EVENT frame. -/
def Origin.seq? : Origin → Option Nat
  | .event seq => some seq
  | _ => none

/-- The number of a drop marker. -/
def Origin.marker? : Origin → Option Nat
  | .marker number => some number
  | _ => none

namespace Outbox

@[simp] theorem push_handed (o : Outbox cfg) (e : Entry Origin) : (o.push e).handed = o.handed :=
  rfl

@[simp] theorem push_failed (o : Outbox cfg) (e : Entry Origin) : (o.push e).failed = o.failed :=
  rfl

@[simp] theorem push_lost (o : Outbox cfg) (e : Entry Origin) : (o.push e).lost = o.lost :=
  rfl

@[simp] theorem pushState_handed (o : Outbox cfg) (k : Nat) (frame : Frame cfg) :
    (o.pushState k frame).handed = o.handed :=
  rfl

@[simp] theorem pushState_failed (o : Outbox cfg) (k : Nat) (frame : Frame cfg) :
    (o.pushState k frame).failed = o.failed :=
  rfl

@[simp] theorem popHanded_handed (o : Outbox cfg) (tag : Origin) :
    (o.popHanded tag).handed = o.handed ++ [tag] :=
  rfl

@[simp] theorem popHanded_failed (o : Outbox cfg) (tag : Origin) :
    (o.popHanded tag).failed = o.failed :=
  rfl

@[simp] theorem popHanded_lost (o : Outbox cfg) (tag : Origin) :
    (o.popHanded tag).lost = o.lost :=
  rfl

@[simp] theorem popFailed_handed (o : Outbox cfg) (tag : Origin) :
    (o.popFailed tag).handed = o.handed :=
  rfl

@[simp] theorem popFailed_failed (o : Outbox cfg) (tag : Origin) :
    (o.popFailed tag).failed = o.failed ++ [tag] :=
  rfl

@[simp] theorem popFailed_lost (o : Outbox cfg) (tag : Origin) :
    (o.popFailed tag).lost = o.lost :=
  rfl

/-- A pop takes the oldest queued frame, whichever list it is recorded in. -/
theorem queued_of_peek (o : Outbox cfg) {e : Entry Origin} (hpeek : o.queue.peekOldest = .ok e) :
    o.queued = e.tag :: o.queue.popOldest.contents.map Entry.tag := by
  obtain ⟨rest, hcons⟩ := List.head?_eq_some_iff.mp ((o.queue.peekOldest_ok_iff e).mp hpeek)
  simp [queued, hcons]

/-- The room check compares against the byte budget the queue was created with. -/
theorem push_queued (o : Outbox cfg) {e : Entry Origin} (hlen : e.len ≤ cfg.outboundEntryMax)
    (hroom : o.hasRoom e.len = true) : (o.push e).queued = o.queued ++ [e.tag] := by
  have hbudget : 0 < cfg.outboundLimits.maxBytes → o.maxBytes ≤ cfg.outboundLimits.maxBytes :=
    fun _ => o.maxBytes_eq.le
  have hcontents := BoundedRing.push_contents_of_hasRoom o.queue hlen hbudget hroom
  simp [queued, push, hcontents]

theorem origins_push (o : Outbox cfg) {e : Entry Origin} (hlen : e.len ≤ cfg.outboundEntryMax)
    (hroom : o.hasRoom e.len = true) : (o.push e).origins.Perm (o.origins ++ [e.tag]) := by
  rw [List.perm_iff_count]
  intro a
  simp only [origins, o.push_queued hlen hroom, push_handed, push_failed, push_lost,
    List.count_append]
  omega

theorem origins_pushState (o : Outbox cfg) (k : Nat) (frame : Frame cfg) :
    (o.pushState k frame).origins.Perm (o.origins ++ [.state k]) := by
  have hqueued : (o.pushState k frame).queued =
      (o.queue.kept frame.1.length).map Entry.tag ++ [.state k] := by
    have hcontents := BoundedRing.push_contents o.queue
      (show ({ id := UInt32.ofNat k, ts := 0, data := frame.1, tag := .state k } :
        Entry Origin).len ≤ cfg.outboundLimits.maxEntryBytes from frame.2)
    simp only [queued, pushState, push, hcontents, List.map_append, List.map_cons, List.map_nil]
    rfl
  have hlost : (o.pushState k frame).lost =
      o.lost ++ (o.queue.evicted frame.1.length).map Entry.tag := by
    simp only [lost, pushState, List.flatMap_append, List.flatMap_singleton]
    rfl
  have hsplit : o.queued = (o.queue.evicted frame.1.length).map Entry.tag ++
      (o.queue.kept frame.1.length).map Entry.tag := by
    rw [queued, ← o.queue.evicted_append_kept frame.1.length, List.map_append]
  rw [List.perm_iff_count]
  intro a
  simp only [origins, hqueued, hlost, hsplit, pushState_handed, pushState_failed,
    List.count_append]
  omega

theorem origins_popHanded (o : Outbox cfg) {e : Entry Origin}
    (hpeek : o.queue.peekOldest = .ok e) : (o.popHanded e.tag).origins.Perm o.origins := by
  have hqueued : o.queued = e.tag :: (o.popHanded e.tag).queued := o.queued_of_peek hpeek
  rw [List.perm_iff_count]
  intro a
  simp only [origins, hqueued, popHanded_handed, popHanded_failed, popHanded_lost, List.count_append,
    List.count_cons, List.count_nil]
  omega

theorem origins_popFailed (o : Outbox cfg) {e : Entry Origin}
    (hpeek : o.queue.peekOldest = .ok e) : (o.popFailed e.tag).origins.Perm o.origins := by
  have hqueued : o.queued = e.tag :: (o.popFailed e.tag).queued := o.queued_of_peek hpeek
  rw [List.perm_iff_count]
  intro a
  simp only [origins, hqueued, popFailed_handed, popFailed_failed, popFailed_lost, List.count_append,
    List.count_cons, List.count_nil]
  omega

end Outbox

/-! ## The account of a client -/

/-- The sequence numbers accounted for: entered the queue, counted as dropped, or passed over. -/
def accountedSeqs (p : PushState) (o : Outbox cfg) : List Nat :=
  o.origins.filterMap Origin.seq? ++ p.droppedSeqs ++ p.unmatched.map Prod.fst

/-- The cursor and every counter agree with the account. -/
structure Balanced (sub : Subscription) (p : PushState) (o : Outbox cfg) : Prop where
  since_le : p.since ≤ p.cursorSeq
  cursor_eq : p.cursor = UInt32.ofNat p.cursorSeq
  seqs : (accountedSeqs p o).Perm (List.range' p.since (p.cursorSeq - p.since))
  dropped_eq : p.dropped = UInt32.ofNat p.droppedSeqs.length
  markers : (o.origins.filterMap Origin.marker?).Perm (List.range p.markers)
  unmatched_sub : ∀ u ∈ p.unmatched, ∃ slot, u.2 = some slot ∧ sub.admits slot = false

/-- Operations that only move EVENT frames and markers inside the queue's account. -/
theorem Balanced.of_perm {sub : Subscription} {p : PushState} {o o' : Outbox cfg}
    (h : Balanced sub p o)
    (hseq : (o'.origins.filterMap Origin.seq?).Perm (o.origins.filterMap Origin.seq?))
    (hmarker : (o'.origins.filterMap Origin.marker?).Perm (o.origins.filterMap Origin.marker?)) :
    Balanced sub p o' where
  since_le := h.since_le
  cursor_eq := h.cursor_eq
  seqs := ((hseq.append_right p.droppedSeqs).append_right _).trans h.seqs
  dropped_eq := h.dropped_eq
  markers := hmarker.trans h.markers
  unmatched_sub := h.unmatched_sub

theorem Balanced.pushState {sub : Subscription} {p : PushState} {o : Outbox cfg}
    (h : Balanced sub p o) (k : Nat) (frame : Frame cfg) : Balanced sub p (o.pushState k frame) := by
  have hperm := o.origins_pushState k frame
  refine h.of_perm ?_ ?_
  · simpa [List.filterMap_cons, Origin.seq?] using hperm.filterMap Origin.seq?
  · simpa [List.filterMap_cons, Origin.marker?] using hperm.filterMap Origin.marker?

theorem Balanced.popHanded {sub : Subscription} {p : PushState} {o : Outbox cfg}
    (h : Balanced sub p o) {e : Entry Origin} (hpeek : o.queue.peekOldest = .ok e) :
    Balanced sub p (o.popHanded e.tag) :=
  h.of_perm ((o.origins_popHanded hpeek).filterMap _) ((o.origins_popHanded hpeek).filterMap _)

theorem Balanced.popFailed {sub : Subscription} {p : PushState} {o : Outbox cfg}
    (h : Balanced sub p o) {e : Entry Origin} (hpeek : o.queue.peekOldest = .ok e) :
    Balanced sub p (o.popFailed e.tag) :=
  h.of_perm ((o.origins_popFailed hpeek).filterMap _) ((o.origins_popFailed hpeek).filterMap _)

theorem Outbox.create_origins {o : Outbox cfg} (h : Outbox.create cfg = .ok o) :
    o.origins = [] := by
  unfold Outbox.create at h
  split at h
  · cases h
  · rename_i queue hqueue
    cases h
    simp [Outbox.origins, Outbox.queued, Outbox.lost, BoundedRing.create_contents hqueue]

/-- A freshly acquired client owes nothing yet. -/
theorem Balanced.fresh {sub : Subscription} {o : Outbox cfg} (hempty : o.origins = [])
    (total : UInt32) (since : Nat) (htotal : total = UInt32.ofNat since) :
    Balanced sub (PushState.fresh total since) o where
  since_le := Nat.le_refl _
  cursor_eq := htotal
  seqs := by simp [accountedSeqs, PushState.fresh, hempty]
  dropped_eq := rfl
  markers := by simp [PushState.fresh, hempty]
  unmatched_sub := by simp [PushState.fresh]

/-! ## The EVENT drain keeps the account -/

/-- Consecutive ranges join. -/
theorem range'_split {a b c : Nat} (hab : a ≤ b) (hbc : b ≤ c) :
    List.range' a (c - a) = List.range' a (b - a) ++ List.range' b (c - b) := by
  have hjoin : List.range' a (b - a) ++ List.range' (a + (b - a)) (c - b) =
      List.range' a ((b - a) + (c - b)) := List.range'_append_1
  have hlen : b - a + (c - b) = c - a := by omega
  rwa [Nat.add_sub_cancel' hab, hlen, eq_comm] at hjoin

/-- The drop marker fits every outbound queue entry. -/
theorem length_markerText_le (cfg : Config) (dropped : UInt32) :
    (markerText dropped).length ≤ cfg.outboundEntryMax := by
  have hdigits : (Decimal.decimal dropped.toNat).length ≤ 9 + 1 :=
    Decimal.length_decimal_le (Nat.lt_trans dropped.toNat_lt (by decide))
  have hrange := cfg.outboundEntryMax_range.1
  simp only [markerText, List.length_append, List.length_cons, List.length_nil]
  omega

section Feed

variable {sub : Subscription} {f : Feed cfg}

@[simp] theorem tryFlushMarker_cursorSeq (f : Feed cfg) :
    f.tryFlushMarker.push.cursorSeq = f.push.cursorSeq := by
  unfold Feed.tryFlushMarker
  split
  · rfl
  split <;> rfl

/-- A flushed marker adds no sequence number to the account. -/
theorem accountedSeqs_tryFlushMarker (f : Feed cfg) :
    (accountedSeqs f.tryFlushMarker.push f.tryFlushMarker.out).Perm
      (accountedSeqs f.push f.out) := by
  unfold Feed.tryFlushMarker
  split
  · exact List.Perm.refl _
  split
  · exact List.Perm.refl _
  rename_i hroom
  have hlen : f.push.markerEntry.len ≤ cfg.outboundEntryMax :=
    length_markerText_le cfg f.push.dropped
  have hseq := (f.out.origins_push hlen (Bool.of_not_eq_false hroom)).filterMap Origin.seq?
  simp only [List.filterMap_append, List.filterMap_cons, List.filterMap_nil, Origin.seq?,
    PushState.markerEntry, List.append_nil] at hseq
  exact (hseq.append_right _).append_right _

theorem Balanced.tryFlushMarker (h : Balanced sub f.push f.out) :
    Balanced sub f.tryFlushMarker.push f.tryFlushMarker.out := by
  have hseqs := accountedSeqs_tryFlushMarker f
  revert hseqs
  unfold Feed.tryFlushMarker
  split
  · exact fun _ => h
  split
  · exact fun _ => h
  rename_i hroom
  intro hseqs
  have hlen : f.push.markerEntry.len ≤ cfg.outboundEntryMax :=
    length_markerText_le cfg f.push.dropped
  have hmarker := (f.out.origins_push hlen (Bool.of_not_eq_false hroom)).filterMap Origin.marker?
  simp only [List.filterMap_append, List.filterMap_cons, List.filterMap_nil, Origin.marker?,
    PushState.markerEntry] at hmarker
  exact
    { since_le := h.since_le
      cursor_eq := h.cursor_eq
      seqs := hseqs.trans h.seqs
      dropped_eq := h.dropped_eq
      markers := by
        rw [List.range_succ]
        exact hmarker.trans (h.markers.append_right _)
      unmatched_sub := h.unmatched_sub }

/-- Counting the lag accounts for every sequence number the cursor jumps over. -/
theorem Balanced.countLag (h : Balanced sub f.push f.out) (oldest : UInt32) :
    Balanced sub (f.countLag oldest).push (f.countLag oldest).out := by
  unfold Feed.countLag
  split
  · have hsince := h.since_le
    have hjump : f.push.cursorSeq + (oldest - f.push.cursor).toNat - f.push.cursorSeq =
        (oldest - f.push.cursor).toNat := Nat.add_sub_cancel_left _ _
    exact
      { since_le := Nat.le_add_right_of_le hsince
        cursor_eq := by
          have hcursor : f.push.cursor + (oldest - f.push.cursor) = oldest := by
            rw [UInt32.add_comm, UInt32.sub_add_cancel]
          rw [UInt32.ofNat_add, UInt32.ofNat_toNat, ← h.cursor_eq, hcursor]
        seqs := by
          rw [range'_split hsince (Nat.le_add_right _ _), hjump, List.perm_iff_count]
          intro a
          have hcount := List.perm_iff_count.mp h.seqs a
          simp only [accountedSeqs, List.count_append] at hcount ⊢
          omega
        dropped_eq := by
          rw [h.dropped_eq, List.length_append, List.length_range', UInt32.ofNat_add,
            UInt32.ofNat_toNat]
        markers := h.markers
        unmatched_sub := h.unmatched_sub }
  · exact h

/-- Within half a period, counting the lag moves the cursor up to the oldest ring entry. -/
theorem countLag_cursorSeq (h : Balanced sub f.push f.out) {oldest : Nat}
    (hbehind : oldest ≤ f.push.cursorSeq + 2 ^ 31) (hahead : f.push.cursorSeq < oldest + 2 ^ 31) :
    (f.countLag (UInt32.ofNat oldest)).push.cursorSeq = max f.push.cursorSeq oldest := by
  have htest := signedDiff_neg_iff_lt hbehind hahead
  unfold Feed.countLag
  rw [h.cursor_eq]
  by_cases hlt : f.push.cursorSeq < oldest
  · have hdist : (UInt32.ofNat oldest - UInt32.ofNat f.push.cursorSeq).toNat =
        oldest - f.push.cursorSeq := toNat_ofNat_sub hlt.le (by omega)
    rw [if_pos (htest.mpr hlt), hdist]
    simp only
    omega
  · rw [if_neg (mt htest.mp hlt)]
    omega

/-- Moving the cursor past one more entry, once that entry is accounted for. -/
theorem Balanced.succ {p p' : PushState} {o o' : Outbox cfg} (h : Balanced sub p o)
    (hsince : p'.since = p.since) (hcursorSeq : p'.cursorSeq = p.cursorSeq + 1)
    (hcursor : p'.cursor = UInt32.ofNat p.cursorSeq + 1)
    (hseqs : (accountedSeqs p' o').Perm (accountedSeqs p o ++ [p.cursorSeq]))
    (hdropped : p'.dropped = UInt32.ofNat p'.droppedSeqs.length)
    (hmarkers : (o'.origins.filterMap Origin.marker?).Perm (List.range p'.markers))
    (hsub : ∀ u ∈ p'.unmatched, ∃ slot, u.2 = some slot ∧ sub.admits slot = false) :
    Balanced sub p' o' := by
  have hle := h.since_le
  refine ⟨by omega, ?_, ?_, hdropped, hmarkers, hsub⟩
  · rw [hcursor, hcursorSeq, UInt32.ofNat_add]
    rfl
  · have hone : p.cursorSeq + 1 - p.cursorSeq = 1 := by omega
    rw [hsince, hcursorSeq, range'_split hle (Nat.le_succ p.cursorSeq), hone]
    exact hseqs.trans (h.seqs.append_right _)

/-- The cursor of a drain that reads in order moves by exactly one. -/
theorem advance_cursorSeq (h : Balanced sub f.push f.out) :
    (f.advance (UInt32.ofNat f.push.cursorSeq)).push.cursorSeq = f.push.cursorSeq + 1 := by
  have hnext : UInt32.ofNat f.push.cursorSeq + 1 = UInt32.ofNat (f.push.cursorSeq + 1) := by
    rw [UInt32.ofNat_add]
    rfl
  simp only [Feed.advance, h.cursor_eq, hnext]
  rw [toNat_ofNat_sub (Nat.le_succ _) (by omega)]
  omega

theorem advance_tryFlushMarker (f : Feed cfg) (seq : UInt32) :
    (f.advance seq).tryFlushMarker = f.tryFlushMarker.advance seq := by
  unfold Feed.tryFlushMarker
  by_cases hpending : f.push.dropMarkerPending = false
  · rw [if_pos hpending, if_pos (show (f.advance seq).push.dropMarkerPending = false from hpending)]
  · rw [if_neg hpending, if_neg (show ¬ (f.advance seq).push.dropMarkerPending = false from hpending)]
    by_cases hroom : f.out.hasRoom (markerText f.push.dropped).length = false
    · rw [if_pos hroom, if_pos (show (f.advance seq).out.hasRoom
        (markerText (f.advance seq).push.dropped).length = false from hroom)]
    · rw [if_neg hroom, if_neg (show ¬ (f.advance seq).out.hasRoom
        (markerText (f.advance seq).push.dropped).length = false from hroom)]
      rfl

/-! ### Which sequence number an examined entry adds -/

theorem accountedSeqs_passOver (f : Feed cfg) (seq : UInt32) (e : Entry Nat)
    (slot : Option AttachSlot) :
    (accountedSeqs ((f.advance seq).passOver e slot).push
      ((f.advance seq).passOver e slot).out).Perm (accountedSeqs f.push f.out ++ [e.tag]) := by
  rw [List.perm_iff_count]
  intro a
  simp only [accountedSeqs, Feed.passOver, Feed.advance, List.map_append, List.map_cons,
    List.map_nil, List.count_append]
  omega

theorem accountedSeqs_countDrop (f : Feed cfg) (seq : UInt32) (e : Entry Nat) :
    (accountedSeqs ((f.advance seq).countDrop e).push ((f.advance seq).countDrop e).out).Perm
      (accountedSeqs f.push f.out ++ [e.tag]) := by
  rw [List.perm_iff_count]
  intro a
  simp only [accountedSeqs, Feed.countDrop, Feed.advance, List.count_append]
  omega

theorem accountedSeqs_enqueue (f : Feed cfg) (seq : UInt32) {e : Entry Nat}
    (hlen : e.len ≤ cfg.outboundEntryMax) (hroom : f.out.hasRoom e.len = true) :
    (accountedSeqs ((f.advance seq).enqueue e).push ((f.advance seq).enqueue e).out).Perm
      (accountedSeqs f.push f.out ++ [e.tag]) := by
  have hperm := @Outbox.origins_push cfg f.out (outboundCopy e) hlen hroom
  have hseq := hperm.filterMap Origin.seq?
  simp only [List.filterMap_append, List.filterMap_cons, List.filterMap_nil, Origin.seq?,
    outboundCopy] at hseq
  rw [List.perm_iff_count]
  intro a
  have hcount := List.perm_iff_count.mp hseq a
  simp only [accountedSeqs, Feed.enqueue, Feed.advance, List.count_append] at hcount ⊢
  simp only [outboundCopy] at hcount ⊢
  omega

/-- Whatever becomes of an examined entry, exactly its true sequence number is added. -/
theorem accountedSeqs_drainEntry (table : AttachTable) (sub : Subscription) (f : Feed cfg)
    (seq : UInt32) {e : Entry Nat} (hlen : e.len ≤ cfg.outboundEntryMax) :
    (accountedSeqs (f.drainEntry table sub seq e).push (f.drainEntry table sub seq e).out).Perm
      (accountedSeqs f.push f.out ++ [e.tag]) := by
  have hmarked := (accountedSeqs_tryFlushMarker f).append_right [e.tag]
  unfold Feed.drainEntry
  split
  · exact accountedSeqs_passOver f seq e none
  split
  · exact accountedSeqs_passOver f seq e _
  rw [advance_tryFlushMarker]
  simp only
  split
  · exact (accountedSeqs_countDrop f.tryFlushMarker seq e).trans hmarked
  · rename_i hroom
    have hroom' : f.tryFlushMarker.out.hasRoom e.len = true := Bool.of_not_eq_false hroom
    exact (accountedSeqs_enqueue f.tryFlushMarker seq hlen hroom').trans hmarked

/-- Whatever becomes of an examined entry, the cursor moves behind its assumed number. -/
theorem drainEntry_cursor (table : AttachTable) (sub : Subscription) (f : Feed cfg)
    (seq : UInt32) (e : Entry Nat) :
    (f.drainEntry table sub seq e).push.since = f.push.since ∧
      (f.drainEntry table sub seq e).push.cursor = seq + 1 ∧
      (f.drainEntry table sub seq e).push.cursorSeq =
        f.push.cursorSeq + (seq + 1 - f.push.cursor).toNat := by
  have hmarked : (f.advance seq).tryFlushMarker.push.since = f.push.since ∧
      (f.advance seq).tryFlushMarker.push.cursor = seq + 1 ∧
      (f.advance seq).tryFlushMarker.push.cursorSeq =
        f.push.cursorSeq + (seq + 1 - f.push.cursor).toNat := by
    unfold Feed.tryFlushMarker
    split
    · exact ⟨rfl, rfl, rfl⟩
    split <;> exact ⟨rfl, rfl, rfl⟩
  unfold Feed.drainEntry
  split
  · exact ⟨rfl, rfl, rfl⟩
  split
  · exact ⟨rfl, rfl, rfl⟩
  simp only
  split <;> exact hmarked

/-! ### Draining in order -/

/-- An entry passed over is accounted for as unmatched. -/
theorem Balanced.advance_passOver (h : Balanced sub f.push f.out) {e : Entry Nat}
    (htag : e.tag = f.push.cursorSeq) {slot : AttachSlot} (hsub : sub.admits slot = false) :
    Balanced sub ((f.advance (UInt32.ofNat e.tag)).passOver e (some slot)).push
      ((f.advance (UInt32.ofNat e.tag)).passOver e (some slot)).out := by
  have hseqs := accountedSeqs_passOver f (UInt32.ofNat e.tag) e (some slot)
  rw [htag] at hseqs ⊢
  refine h.succ rfl (advance_cursorSeq h) rfl hseqs h.dropped_eq h.markers ?_
  intro u hu
  simp only [Feed.passOver, List.mem_append, List.mem_singleton] at hu
  rcases hu with hold | rfl
  · exact h.unmatched_sub u hold
  · exact ⟨slot, rfl, hsub⟩

/-- An entry without room is accounted for as dropped. -/
theorem Balanced.advance_countDrop (h : Balanced sub f.push f.out) {e : Entry Nat}
    (htag : e.tag = f.push.cursorSeq) :
    Balanced sub ((f.advance (UInt32.ofNat e.tag)).countDrop e).push
      ((f.advance (UInt32.ofNat e.tag)).countDrop e).out := by
  have hseqs := accountedSeqs_countDrop f (UInt32.ofNat e.tag) e
  rw [htag] at hseqs ⊢
  refine h.succ rfl (advance_cursorSeq h) rfl hseqs ?_ h.markers h.unmatched_sub
  simp only [Feed.countDrop, Feed.advance, h.dropped_eq, List.length_append,
    List.length_singleton, UInt32.ofNat_add]
  rfl

/-- A queued entry is accounted for in the outbound queue. -/
theorem Balanced.advance_enqueue (h : Balanced sub f.push f.out) {e : Entry Nat}
    (htag : e.tag = f.push.cursorSeq) (hlen : e.len ≤ cfg.outboundEntryMax)
    (hroom : f.out.hasRoom e.len = true) :
    Balanced sub ((f.advance (UInt32.ofNat e.tag)).enqueue e).push
      ((f.advance (UInt32.ofNat e.tag)).enqueue e).out := by
  have hseqs := accountedSeqs_enqueue f (UInt32.ofNat e.tag) hlen hroom
  have hmarker := (@Outbox.origins_push cfg f.out (outboundCopy e) hlen hroom).filterMap
    Origin.marker?
  simp only [List.filterMap_append, List.filterMap_cons, List.filterMap_nil, Origin.marker?,
    outboundCopy, List.append_nil] at hmarker
  rw [htag] at hseqs ⊢
  exact h.succ rfl (advance_cursorSeq h) rfl hseqs h.dropped_eq (hmarker.trans h.markers)
    h.unmatched_sub

/-- Draining the entry at the cursor accounts for it and advances the cursor by one. -/
theorem Balanced.drainEntry (h : Balanced sub f.push f.out) {table : AttachTable}
    {e : Entry Nat} (htag : e.tag = f.push.cursorSeq) (hlen : e.len ≤ cfg.outboundEntryMax)
    (hid : e.id.toUInt16.toNat < table.length) :
    Balanced sub (f.drainEntry table sub (UInt32.ofNat e.tag) e).push
        (f.drainEntry table sub (UInt32.ofNat e.tag) e).out ∧
      (f.drainEntry table sub (UInt32.ofNat e.tag) e).push.cursorSeq = f.push.cursorSeq + 1 := by
  unfold Feed.drainEntry
  rw [List.getElem?_eq_getElem hid]
  simp only
  split
  · rename_i hsub
    refine ⟨h.advance_passOver htag hsub, ?_⟩
    rw [htag]
    exact advance_cursorSeq h
  · have hmarked := h.tryFlushMarker
    have htag' : e.tag = f.tryFlushMarker.push.cursorSeq := by rw [htag, tryFlushMarker_cursorSeq]
    have hcursor : (f.tryFlushMarker.advance (UInt32.ofNat e.tag)).push.cursorSeq =
        f.push.cursorSeq + 1 := by
      rw [htag', advance_cursorSeq hmarked, tryFlushMarker_cursorSeq]
    rw [advance_tryFlushMarker]
    split
    · exact ⟨hmarked.advance_countDrop htag', hcursor⟩
    · rename_i hroom
      exact ⟨hmarked.advance_enqueue htag' hlen (Bool.of_not_eq_false hroom), hcursor⟩

/-- Every ring entry names an attached key. -/
def EventRing.IdsBelow (er : EventRing cfg) (n : Nat) : Prop :=
  ∀ e ∈ er.ring.contents, e.id.toUInt16.toNat < n

theorem EventRing.IdsBelow.pushFrame {er : EventRing cfg} {n : Nat} (h : er.IdsBelow n) {k : Nat}
    (hk : k < n) (hn : n ≤ maxAttach) (frame : Frame cfg) : (er.pushFrame k frame).IdsBelow n := by
  intro e he
  have hmem : e ∈ er.ring.kept frame.1.length ++ [er.entryFor k frame] := er.push_eq k frame ▸ he
  rcases List.mem_append.mp hmem with hold | hnew
  · exact h e (BoundedFifo.mem_of_mem_makeRoom hold)
  · have hid : e.id.toUInt16.toNat = k := by
      rw [List.mem_singleton.mp hnew]
      simp only [EventRing.entryFor, UInt32.toNat_toUInt16, UInt32.toNat_ofNat']
      simp only [maxAttach] at hn
      omega
    rw [hid]
    exact hk

/-- One iteration of the drain loop whose computed sequence numbers are the true ones. -/
theorem Balanced.drainAt (h : Balanced sub f.push f.out) {table : AttachTable}
    {er : EventRing cfg} (hids : er.IdsBelow table.length) {idx : Nat}
    (hidx : idx < er.ring.count) (hlow : er.oldestSeq + idx ≤ f.push.cursorSeq)
    (hhigh : f.push.cursorSeq ≤ er.pushes) :
    Balanced sub (f.drainAt table sub er (UInt32.ofNat er.oldestSeq) idx).push
        (f.drainAt table sub er (UInt32.ofNat er.oldestSeq) idx).out ∧
      (f.drainAt table sub er (UInt32.ofNat er.oldestSeq) idx).push.cursorSeq =
        max f.push.cursorSeq (er.oldestSeq + idx + 1) := by
  have hcount := er.count_le
  have hspan := er.oldestSeq_add_count
  have hseq : UInt32.ofNat er.oldestSeq + UInt32.ofNat idx = UInt32.ofNat (er.oldestSeq + idx) :=
    (UInt32.ofNat_add _ _).symm
  have htest := @signedDiff_neg_iff_lt (er.oldestSeq + idx) f.push.cursorSeq (by omega) (by omega)
  obtain ⟨e, hpeek, htag⟩ := er.peekAt_of_lt hidx
  have hmem : e ∈ er.ring.contents := List.mem_of_getElem? ((er.ring.peekAt_ok_iff idx e).mp hpeek)
  unfold Feed.drainAt
  rw [hseq, h.cursor_eq, hpeek]
  split
  · rename_i hneg
    have hlt := htest.mp hneg
    exact ⟨h, by omega⟩
  · rename_i hneg
    have hnot : ¬ er.oldestSeq + idx < f.push.cursorSeq := fun hlt => hneg (htest.mpr hlt)
    have hat : e.tag = f.push.cursorSeq := by omega
    obtain ⟨hbalanced, hcursor⟩ := h.drainEntry hat (er.ring.entry_len_le hmem) (hids e hmem)
    rw [← htag]
    exact ⟨hbalanced, hcursor.trans (by omega)⟩

/-- The drain loop invariant: every entry before index `idx` is behind the cursor. -/
structure DrainProgress (sub : Subscription) (er : EventRing cfg) (idx : Nat) (f : Feed cfg) :
    Prop where
  balanced : Balanced sub f.push f.out
  low : er.oldestSeq + idx ≤ f.push.cursorSeq
  high : f.push.cursorSeq ≤ er.pushes

theorem DrainProgress.drainAt {er : EventRing cfg} {idx : Nat} (h : DrainProgress sub er idx f)
    {table : AttachTable} (hids : er.IdsBelow table.length) (hidx : idx < er.ring.count) :
    DrainProgress sub er (idx + 1)
      (f.drainAt table sub er (UInt32.ofNat er.oldestSeq) idx) := by
  obtain ⟨hbalanced, hcursor⟩ := h.balanced.drainAt hids hidx h.low h.high
  have hlow := h.low
  have hhigh := h.high
  have hspan := er.oldestSeq_add_count
  exact ⟨hbalanced, by omega, by omega⟩

/-- An uninterrupted drain accounts for every ring entry and ends at the push counter. -/
theorem Balanced.drainEvents (h : Balanced sub f.push f.out) {table : AttachTable}
    {er : EventRing cfg} (hids : er.IdsBelow table.length) (hle : f.push.cursorSeq ≤ er.pushes)
    (hlag : er.oldestSeq ≤ f.push.cursorSeq + 2 ^ 31) :
    Balanced sub (f.drainEvents table sub er).push (f.drainEvents table sub er).out ∧
      (f.drainEvents table sub er).push.cursorSeq = er.pushes := by
  have hcount := er.count_le
  have hspan := er.oldestSeq_add_count
  have hflushed : f.tryFlushMarker.push.cursorSeq = f.push.cursorSeq := tryFlushMarker_cursorSeq f
  have hlagged := h.tryFlushMarker.countLag (UInt32.ofNat er.oldestSeq)
  have hcursor := @countLag_cursorSeq cfg sub _ h.tryFlushMarker er.oldestSeq (by omega) (by omega)
  unfold Feed.drainEvents
  simp only [er.oldestSeq_eq]
  have hstart : DrainProgress sub er 0 (f.tryFlushMarker.countLag (UInt32.ofNat er.oldestSeq)) :=
    ⟨hlagged, by omega, by omega⟩
  have hend := forRange_induct hstart fun idx g hidx hg => hg.drainAt hids hidx
  exact ⟨hend.balanced, Nat.le_antisymm hend.high (hspan ▸ hend.low)⟩

end Feed

end DataHttp
end Breadboard
