import Breadboard.Mdns.Pipeline

/-!
# When the mDNS pipeline conserves its events

The flush path and the dispatch task share one scratch item, and a flush lets go
of the lock between copying the batch and clearing it.  While no other task uses
the scratch item or the batch inside such a window, every accepted event is in
exactly one place and in order.  An event appended inside the window is wiped
together with the batch.

Main result:

- Theorem `conserved_of_undisturbed`: a run whose steps are all undisturbed
  conserves its events in every state.
-/

namespace Breadboard
namespace Mdns

open Foundations

variable {cfg : Config} {s : State}

/-! ## The windows -/

/-- The notifier is between a flush's copy and its push. -/
def NotifierPc.copying : NotifierPc → Bool
  | .copied _ _ => true
  | _ => false

/-- The dispatch task is passing on the entries of the scratch item. -/
def DispatchPc.busy : DispatchPc → Bool
  | .dispatching _ => true
  | _ => false

/-- A section of the notifier that handles `results` meets no other task's window. -/
def State.SectionUndisturbed (cfg : Config) (s : State) (results : List Evt) : Prop :=
  results ≠ [] → s.flush.consumed = false ∧
    (cfg.batchMax < s.batch.length + results.length →
      s.flush ≠ .copied ∧ s.dispatcher.busy = false)

/--
The step uses the scratch item and the batch outside every other task's window:
the batch is copied only when no item is being dispatched and no other flush is
under way, appended to only when no flush has pushed it, and a flush that finds
room pushes a batch that has not grown since its copy; the ring is looked at only when
no flush is about to push.
-/
def Undisturbed (cfg : Config) (s : State) : Action → Prop
  | .flushStart => s.flush = .idle → s.batch ≠ [] →
      s.dispatcher.busy = false ∧ s.notifier.copying = false ∧ s.notifier.consumed = false
  | .flushPush => s.flush = .copied → s.ring.length < cfg.ringDepth →
      s.batch.length = s.scratch.count
  | .notify results => s.SectionUndisturbed cfg results
  | .notifyResume =>
    match s.notifier with
    | .pushed true e rest => (s.flushResult true).SectionUndisturbed cfg (e :: rest)
    | .pushed false _ rest => s.SectionUndisturbed cfg rest
    | _ => True
  | .dispatchLock => s.dispatcher = .draining → s.ring ≠ [] →
      s.flush ≠ .copied ∧ s.notifier.copying = false
  | _ => True

instance (cfg : Config) (s : State) (results : List Evt) :
    Decidable (s.SectionUndisturbed cfg results) :=
  inferInstanceAs (Decidable (_ → _ ∧ (_ → _ ∧ _)))

instance decidableUndisturbed (cfg : Config) (s : State) :
    ∀ a, Decidable (Undisturbed cfg s a)
  | .flushStart => inferInstanceAs (Decidable (_ → _ → _ ∧ _ ∧ _))
  | .flushPush => inferInstanceAs (Decidable (_ → _ → _ = _))
  | .flushResume => isTrue trivial
  | .notify results => inferInstanceAs (Decidable (s.SectionUndisturbed cfg results))
  | .notifyPush => isTrue trivial
  | .notifyResume =>
    match hn : s.notifier with
    | .pushed true e rest =>
      decidable_of_iff ((s.flushResult true).SectionUndisturbed cfg (e :: rest))
        (by simp only [Undisturbed, hn])
    | .pushed false _ rest =>
      decidable_of_iff (s.SectionUndisturbed cfg rest) (by simp only [Undisturbed, hn])
    | .idle => isTrue (by simp only [Undisturbed, hn])
    | .copied _ _ => isTrue (by simp only [Undisturbed, hn])
  | .dispatchWake => isTrue trivial
  | .dispatchLock => inferInstanceAs (Decidable (_ → _ → _ ∧ _))
  | .dispatchNext => isTrue trivial

/-! ## Copies keep the peers -/

theorem length_batchPeers (cfg : Config) (s : State) :
    (s.batchPeers cfg).length = s.batch.length := by
  rw [State.batchPeers, List.length_mapIdx]

/-- The copied scratch item holds the peers of the batch. -/
theorem peersFrom_copyBatch (cfg : Config) (s : State) :
    (s.copyBatch cfg).peersFrom cfg 0 = s.batchPeers cfg := by
  apply List.ext_getElem
  · simp [Item.peersFrom, State.copyBatch, length_batchPeers]
  · intro i h₁ h₂
    have hi : i < s.batch.length := by rwa [length_batchPeers] at h₂
    simp only [Item.peersFrom, State.copyBatch, List.getElem_map, List.getElem_range', State.batchPeers,
      List.getElem_mapIdx]
    simp only [Nat.zero_add, Nat.one_mul, List.getElem?_eq_getElem hi]
    exact view_relocate _ _ _

theorem batchPeers_append (cfg : Config) (s : State) (e : Evt) :
    (s.append cfg e).batchPeers cfg = s.batchPeers cfg ++ [e.view (cfg.payloadAddr .tmp)] := by
  simp only [State.batchPeers, State.append, List.mapIdx_concat, view_relocate]

/-- The first remaining entry of an item and the rest. -/
theorem peersFrom_eq_cons {it : Item} {i : Nat} (hi : i < it.count) :
    it.peersFrom cfg i =
      (it.entries i).view (cfg.payloadAddr (.item i)) :: it.peersFrom cfg (i + 1) := by
  have hlen : it.count - i = it.count - (i + 1) + 1 := by omega
  rw [Item.peersFrom, hlen, List.range'_succ, List.map_cons]
  rfl

theorem peersFrom_of_le {it : Item} {i : Nat} (hi : it.count ≤ i) :
    it.peersFrom cfg i = [] := by
  rw [Item.peersFrom, Nat.sub_eq_zero_of_le hi]
  rfl

/-! ## The invariant -/

/--
Between two undisturbed steps: the events are conserved, the item of a flush that has not
pushed yet is a prefix of the batch, and two flushes are never under way at once.
-/
structure Inv (cfg : Config) (s : State) : Prop where
  conserved : s.Conserved cfg
  flushCopied : s.flush = .copied → s.scratch.peersFrom cfg 0 =
    (s.batchPeers cfg).take s.scratch.count ∧ s.scratch.count ≤ s.batch.length
  notifierCopied : s.notifier.copying = true → s.scratch.peersFrom cfg 0 = s.batchPeers cfg
  oneFlush : s.notifier.copying = true ∨ s.notifier.consumed = true →
    s.flush ≠ .copied ∧ s.flush.consumed = false

theorem inv_init (cfg : Config) : Inv cfg State.init where
  conserved := rfl
  flushCopied h := by cases h
  notifierCopied h := by cases h
  oneFlush h := by rcases h with h | h <;> cases h

theorem remaining_of_not_busy (h : s.dispatcher.busy = false) : s.remaining cfg = [] := by
  cases hd : s.dispatcher with
  | dispatching i =>
    rw [hd] at h
    cases h
  | waiting => simp only [State.remaining, hd]
  | draining => simp only [State.remaining, hd]

theorem pending_of_not_consumed (hf : s.flush.consumed = false)
    (hn : s.notifier.consumed = false) : s.pending cfg = s.batchPeers cfg := by
  simp [State.pending, State.consumed, hf, hn]

/-! ## The flush work -/

theorem inv_flushStart (h : Inv cfg s) (hu : Undisturbed cfg s .flushStart) :
    Inv cfg (s.step cfg .flushStart) := by
  simp only [State.step]
  split
  · rename_i hidle
    split
    · exact h
    · rename_i hne
      obtain ⟨hbusy, hcopying, hconsumed⟩ := hu hidle hne
      have hcopy := peersFrom_copyBatch cfg s
      have hbefore := h.conserved
      have hpending := @pending_of_not_consumed cfg s (by rw [hidle]; rfl) hconsumed
      have hremaining := @remaining_of_not_busy cfg s hbusy
      rw [State.Conserved, hpending, hremaining] at hbefore
      constructor
      · have hremaining' := @remaining_of_not_busy cfg
          { s with scratch := s.copyBatch cfg, flush := .copied } hbusy
        have hpending' := @pending_of_not_consumed cfg
          { s with scratch := s.copyBatch cfg, flush := .copied } rfl hconsumed
        rw [State.Conserved, hpending', hremaining']
        exact hbefore
      · intro _
        refine ⟨?_, Nat.le_refl _⟩
        change _ = (s.batchPeers cfg).take s.batch.length
        rw [← length_batchPeers cfg s, List.take_length]
        exact hcopy
      · intro hn
        change s.notifier.copying = true at hn
        rw [hcopying] at hn
        cases hn
      · intro hn
        change s.notifier.copying = true ∨ s.notifier.consumed = true at hn
        rw [hcopying, hconsumed] at hn
        rcases hn with hn | hn <;> cases hn
  · exact h

/-- Pushing an item that is the whole pending batch moves it to the ring. -/
theorem conserved_push {s' : State} (h : s.Conserved cfg)
    (hitem : s.scratch.peersFrom cfg 0 = s.batchPeers cfg)
    (hf : s.flush.consumed = false) (hn : s.notifier.consumed = false)
    (hring : s'.ring = s.ring ++ [s.scratch]) (hscratch : s'.scratch = s.scratch)
    (hdispatcher : s'.dispatcher = s.dispatcher) (hdispatched : s'.dispatched = s.dispatched)
    (haccepted : s'.accepted = s.accepted) (hconsumed : s'.consumed = true) :
    s'.Conserved cfg := by
  rw [State.Conserved, pending_of_not_consumed hf hn] at h
  have hremaining : s'.remaining cfg = s.remaining cfg := by
    rw [State.remaining, State.remaining, hdispatcher, hscratch]
  have hqueued : s'.queued cfg = s.queued cfg ++ s.batchPeers cfg := by
    rw [State.queued, hring, List.flatMap_append, List.flatMap_singleton, hitem]
    rfl
  have hpending : s'.pending cfg = [] := if_pos hconsumed
  rw [State.Conserved, hdispatched, haccepted, hremaining, hqueued, hpending, List.append_nil,
    ← List.append_assoc]
  exact h

theorem inv_flushPush (h : Inv cfg s) (hu : Undisturbed cfg s .flushPush) :
    Inv cfg (s.step cfg .flushPush) := by
  simp only [State.step]
  split
  · rename_i hcopied
    obtain ⟨hsofar, _⟩ := h.flushCopied hcopied
    have hwindow : ¬ (s.notifier.copying = true ∨ s.notifier.consumed = true) :=
      fun hn => (h.oneFlush hn).1 hcopied
    have hcopying : s.notifier.copying = false := by
      by_contra hn
      exact hwindow (.inl (by simpa using hn))
    have hconsumed : s.notifier.consumed = false := by
      by_contra hn
      exact hwindow (.inr (by simpa using hn))
    have hfc : s.flush.consumed = false := by rw [hcopied]; rfl
    by_cases hroom : s.ring.length < cfg.ringDepth
    · have hwhole := hu hcopied hroom
      rw [← hwhole, ← length_batchPeers cfg s, List.take_length] at hsofar
      simp only [State.pushScratch, if_pos hroom]
      constructor
      · exact conserved_push h.conserved hsofar hfc hconsumed rfl rfl rfl rfl rfl rfl
      · intro hf
        cases hf
      · exact h.notifierCopied
      · intro hn
        exact absurd hn hwindow
    · simp only [State.pushScratch, if_neg hroom]
      constructor
      · have hbefore := h.conserved
        rw [State.Conserved, pending_of_not_consumed hfc hconsumed] at hbefore
        have hpending' := @pending_of_not_consumed cfg { s with flush := .pushed false } rfl
          hconsumed
        rw [State.Conserved, hpending']
        exact hbefore
      · intro hf
        cases hf
      · exact h.notifierCopied
      · intro hn
        exact absurd hn hwindow
  · exact h

theorem inv_flushResume (h : Inv cfg s) : Inv cfg (s.step cfg .flushResume) := by
  simp only [State.step]
  split
  · rename_i ok hpushed
    cases ok with
    | true =>
      have hfc : s.flush.consumed = true := by rw [hpushed]; rfl
      have hwindow : ¬ (s.notifier.copying = true ∨ s.notifier.consumed = true) := by
        intro hn
        have hfalse := (h.oneFlush hn).2
        rw [hfc] at hfalse
        cases hfalse
      have hbefore := h.conserved
      have hpending : s.pending cfg = [] := if_pos (by rw [State.consumed, hfc]; rfl)
      rw [State.Conserved, hpending] at hbefore
      simp only [State.flushResult, if_true]
      constructor
      · rw [State.Conserved]
        have hpending' : State.pending cfg
            { s with batch := [], ringSem := true, flush := .idle } = [] := by
          unfold State.pending
          split <;> rfl
        rw [hpending']
        exact hbefore
      · intro hf
        cases hf
      · intro hn
        exact absurd (.inl hn) hwindow
      · intro hn
        exact absurd hn hwindow
    | false =>
      simp only [State.flushResult, Bool.false_eq_true, if_false]
      constructor
      · have hbefore := h.conserved
        simp only [State.Conserved, State.pending, State.consumed, hpushed] at hbefore ⊢
        exact hbefore
      · intro hf
        cases hf
      · exact h.notifierCopied
      · intro _
        exact ⟨fun hf => (nomatch hf), rfl⟩
  · exact h

/-! ## The notifier -/

/-- The loop overwrites where the notifier was. -/
theorem notifyLoop_notifier (cfg : Config) (s : State) (pc : NotifierPc) (results : List Evt) :
    { s with notifier := pc }.notifyLoop cfg results = s.notifyLoop cfg results := by
  induction results generalizing s with
  | nil => rfl
  | cons e rest ih =>
    simp only [State.notifyLoop]
    split
    · rfl
    · exact ih (s.append cfg e)

/-- Appending to a batch no flush has pushed. -/
theorem inv_append (h : Inv cfg s) (hn : s.notifier = .idle) (hf : s.flush.consumed = false)
    (e : Evt) : Inv cfg (s.append cfg e) := by
  have hidle : s.notifier.consumed = false := by rw [hn]; rfl
  constructor
  · have hbefore := h.conserved
    rw [State.Conserved, pending_of_not_consumed hf hidle] at hbefore
    have hpending := @pending_of_not_consumed cfg (s.append cfg e) hf hidle
    rw [State.Conserved, hpending, batchPeers_append, ← List.append_assoc]
    exact congrArg (· ++ [e.view (cfg.payloadAddr .tmp)]) hbefore
  · intro hcopied
    obtain ⟨hsofar, hle⟩ := h.flushCopied hcopied
    refine ⟨?_, ?_⟩
    · rw [batchPeers_append]
      change s.scratch.peersFrom cfg 0 =
        (s.batchPeers cfg ++ [e.view (cfg.payloadAddr .tmp)]).take s.scratch.count
      rw [List.take_append_of_le_length (by rwa [length_batchPeers])]
      exact hsofar
    · change s.scratch.count ≤ (s.batch ++ [_]).length
      rw [List.length_append]
      exact Nat.le_add_right_of_le hle
  · intro hcopying
    change s.notifier.copying = true at hcopying
    rw [hn] at hcopying
    cases hcopying
  · exact h.oneFlush

theorem inv_notifyLoop (h : Inv cfg s) (hn : s.notifier = .idle) {results : List Evt}
    (hu : s.SectionUndisturbed cfg results) : Inv cfg (s.notifyLoop cfg results) := by
  induction results generalizing s with
  | nil =>
    have hsame : s.notifyLoop cfg [] = s := by
      rw [State.notifyLoop, ← hn]
    rw [hsame]
    exact h
  | cons e rest ih =>
    obtain ⟨hf, hflush⟩ := hu (List.cons_ne_nil _ _)
    simp only [State.notifyLoop]
    split
    · rename_i hfull
      obtain ⟨hcopied, hbusy⟩ := hflush (by rw [List.length_cons]; omega)
      have hidle : s.notifier.consumed = false := by rw [hn]; rfl
      have hbefore := h.conserved
      rw [State.Conserved, pending_of_not_consumed hf hidle, remaining_of_not_busy hbusy] at hbefore
      constructor
      · have hremaining' := @remaining_of_not_busy cfg
          { s with scratch := s.copyBatch cfg, notifier := .copied e rest } hbusy
        have hpending' := @pending_of_not_consumed cfg
          { s with scratch := s.copyBatch cfg, notifier := .copied e rest } hf rfl
        rw [State.Conserved, hpending', hremaining']
        exact hbefore
      · intro hc
        exact absurd hc hcopied
      · intro _
        exact peersFrom_copyBatch cfg s
      · intro _
        exact ⟨hcopied, hf⟩
    · apply ih (inv_append h hn hf e) hn
      intro _
      refine ⟨hf, fun hover => hflush ?_⟩
      change cfg.batchMax < (s.batch ++ [_]).length + rest.length at hover
      rw [List.length_append, List.length_singleton] at hover
      rw [List.length_cons]
      omega

theorem inv_notify (h : Inv cfg s) {results : List Evt}
    (hu : Undisturbed cfg s (.notify results)) : Inv cfg (s.step cfg (.notify results)) := by
  simp only [State.step]
  split
  · rename_i hn
    exact inv_notifyLoop h hn hu
  · exact h

theorem inv_notifyPush (h : Inv cfg s) : Inv cfg (s.step cfg .notifyPush) := by
  simp only [State.step]
  split
  · rename_i e rest hcopied
    have hcopying : s.notifier.copying = true := by rw [hcopied]; rfl
    have hconsumed : s.notifier.consumed = false := by rw [hcopied]; rfl
    obtain ⟨hflush, hfc⟩ := h.oneFlush (.inl hcopying)
    by_cases hroom : s.ring.length < cfg.ringDepth
    · simp only [State.pushScratch, if_pos hroom]
      constructor
      · exact conserved_push h.conserved (h.notifierCopied hcopying) hfc hconsumed rfl rfl rfl rfl
          rfl (Bool.or_true _)
      · intro hf
        exact absurd hf hflush
      · intro hn
        cases hn
      · intro _
        exact ⟨hflush, hfc⟩
    · simp only [State.pushScratch, if_neg hroom]
      constructor
      · have hbefore := h.conserved
        rw [State.Conserved, pending_of_not_consumed hfc hconsumed] at hbefore
        have hpending' := @pending_of_not_consumed cfg
          { s with notifier := .pushed false e rest } hfc rfl
        rw [State.Conserved, hpending']
        exact hbefore
      · intro hf
        exact absurd hf hflush
      · intro hn
        cases hn
      · intro hn
        rcases hn with hn | hn <;> cases hn
  · exact h

/-- The reset after the notifier's own successful flush. -/
theorem inv_notifierReset (h : Inv cfg s) {e : Evt} {rest : List Evt}
    (hpushed : s.notifier = .pushed true e rest) :
    Inv cfg { s.flushResult true with notifier := .idle } := by
  have hconsumed : s.notifier.consumed = true := by rw [hpushed]; rfl
  obtain ⟨hflush, _⟩ := h.oneFlush (.inr hconsumed)
  have hbefore := h.conserved
  have hpending : s.pending cfg = [] := by
    apply if_pos
    rw [State.consumed, hconsumed, Bool.or_true]
  rw [State.Conserved, hpending] at hbefore
  simp only [State.flushResult, if_true]
  constructor
  · have hpending' : State.pending cfg
        { s with batch := [], ringSem := true, notifier := .idle } = [] := by
      unfold State.pending
      split <;> rfl
    rw [State.Conserved, hpending']
    exact hbefore
  · intro hf
    exact absurd hf hflush
  · intro hn
    cases hn
  · intro hn
    rcases hn with hn | hn <;> cases hn

/-- Dropping an event after a failed flush. -/
theorem inv_notifierDrop (h : Inv cfg s) {e : Evt} {rest : List Evt}
    (hpushed : s.notifier = .pushed false e rest) :
    Inv cfg { s with notifier := .idle } := by
  constructor
  · have hbefore := h.conserved
    simp only [State.Conserved, State.pending, State.consumed, hpushed] at hbefore ⊢
    exact hbefore
  · exact h.flushCopied
  · intro hn
    cases hn
  · intro hn
    rcases hn with hn | hn <;> cases hn

theorem inv_notifyResume (h : Inv cfg s) (hu : Undisturbed cfg s .notifyResume) :
    Inv cfg (s.step cfg .notifyResume) := by
  simp only [State.step]
  split
  · rename_i ok e rest hpushed
    simp only [Undisturbed, hpushed] at hu
    cases ok with
    | true =>
      have hreset := inv_notifierReset h hpushed
      obtain ⟨hf, hflush⟩ := hu (List.cons_ne_nil _ _)
      have happend := inv_append hreset rfl hf e
      have hsection : State.SectionUndisturbed cfg
          (State.append cfg { s.flushResult true with notifier := .idle } e) rest := by
        intro _
        refine ⟨hf, fun hover => hflush ?_⟩
        change cfg.batchMax < ((s.flushResult true).batch ++ [_]).length + rest.length at hover
        rw [List.length_append, List.length_singleton] at hover
        rw [List.length_cons]
        omega
      have hloop := inv_notifyLoop happend rfl hsection
      have hsame := notifyLoop_notifier cfg ((s.flushResult true).append cfg e) .idle rest
      simp only [if_true]
      rw [← hsame]
      exact hloop
    | false =>
      have hloop := @inv_notifyLoop cfg { s with notifier := .idle }
        (inv_notifierDrop h hpushed) rfl rest hu
      have hsame := notifyLoop_notifier cfg s .idle rest
      simp only [Bool.false_eq_true, if_false, State.flushResult]
      rw [← hsame]
      exact hloop
  · exact h

/-! ## The dispatch task -/

theorem inv_dispatchWake (h : Inv cfg s) : Inv cfg (s.step cfg .dispatchWake) := by
  simp only [State.step]
  split
  · rename_i hwaiting
    split
    · constructor
      · have hbefore := h.conserved
        simp only [State.Conserved, State.remaining, hwaiting] at hbefore ⊢
        exact hbefore
      · exact h.flushCopied
      · exact h.notifierCopied
      · exact h.oneFlush
    · exact h
  · exact h

theorem inv_dispatchLock (h : Inv cfg s) (hu : Undisturbed cfg s .dispatchLock) :
    Inv cfg (s.step cfg .dispatchLock) := by
  simp only [State.step]
  split
  · rename_i hdraining
    have hbefore := h.conserved
    split
    · constructor
      · simp only [State.Conserved, State.remaining, hdraining] at hbefore ⊢
        exact hbefore
      · exact h.flushCopied
      · exact h.notifierCopied
      · exact h.oneFlush
    · rename_i oldest rest hring
      obtain ⟨hflush, hcopying⟩ := hu hdraining (by rw [hring]; exact List.cons_ne_nil _ _)
      constructor
      · simp only [State.Conserved, State.remaining, hdraining, State.queued, hring,
          List.flatMap_cons, List.append_nil] at hbefore
        change s.dispatched ++ oldest.peersFrom cfg 0 ++ rest.flatMap (Item.peersFrom cfg · 0) ++
          s.pending cfg = s.accepted
        simpa only [List.append_assoc] using hbefore
      · intro hf
        exact absurd hf hflush
      · intro hn
        change s.notifier.copying = true at hn
        rw [hcopying] at hn
        cases hn
      · exact h.oneFlush
  · exact h

theorem inv_dispatchNext (h : Inv cfg s) : Inv cfg (s.step cfg .dispatchNext) := by
  simp only [State.step]
  split
  · rename_i i hdispatching
    have hbefore := h.conserved
    split
    · rename_i hlt
      constructor
      · simp only [State.Conserved, State.remaining, hdispatching] at hbefore
        rw [peersFrom_eq_cons hlt] at hbefore
        change s.dispatched ++ [(s.scratch.entries i).view (cfg.payloadAddr (.item i))] ++
          s.scratch.peersFrom cfg (i + 1) ++ s.queued cfg ++ s.pending cfg = s.accepted
        simpa only [List.append_assoc, List.singleton_append] using hbefore
      · exact h.flushCopied
      · exact h.notifierCopied
      · exact h.oneFlush
    · rename_i hge
      constructor
      · simp only [State.Conserved, State.remaining, hdispatching] at hbefore ⊢
        rw [peersFrom_of_le (Nat.not_lt.mp hge)] at hbefore
        exact hbefore
      · exact h.flushCopied
      · exact h.notifierCopied
      · exact h.oneFlush
  · exact h

/-! ## Runs -/

/-- The step lemma. -/
theorem inv_step (h : Inv cfg s) (a : Action) (hu : Undisturbed cfg s a) :
    Inv cfg (s.step cfg a) := by
  cases a with
  | flushStart => exact inv_flushStart h hu
  | flushPush => exact inv_flushPush h hu
  | flushResume => exact inv_flushResume h
  | notify results => exact inv_notify h hu
  | notifyPush => exact inv_notifyPush h
  | notifyResume => exact inv_notifyResume h hu
  | dispatchWake => exact inv_dispatchWake h
  | dispatchLock => exact inv_dispatchLock h hu
  | dispatchNext => exact inv_dispatchNext h

/--
In a run whose steps are all undisturbed, every state reached conserves the events: each
accepted event is in exactly one place, was passed on at most once, in order of arrival and
with its own fields and TXT pairs.
-/
theorem conserved_of_undisturbed (cfg : Config) (as : List Action)
    (hrun : Along (State.step cfg) (Undisturbed cfg) State.init as) :
    ∀ pre, pre <+: as → (run (State.step cfg) State.init pre).Conserved cfg := by
  intro pre hpre
  obtain ⟨post, rfl⟩ := hpre
  have hsofar := ((along_append (State.step cfg) (Undisturbed cfg) State.init pre post).mp hrun).1
  have hstep : ∀ s a, Inv cfg s → Undisturbed cfg s a → Inv cfg (s.step cfg a) :=
    fun _ a h hu => inv_step h a hu
  exact (run_invariant_along hstep (inv_init cfg) hsofar).conserved

/-- Two slots of eight bytes apart, room for two events and one item. -/
def Config.small : Config where
  batchMax := 2
  ringDepth := 1
  payloadAddr := fun slot =>
    match slot with
    | .tmp => 0
    | .batch i => 1000 + 300 * i
    | .item i => 9000 + 300 * i
  batchMax_pos := by decide

/-- A peer named by one byte, with one TXT pair at the start of its payload. -/
def Evt.named (b : UInt8) : Evt :=
  { Evt.zero with
    instanceName := [b]
    txtCount := 1
    txt := fun _ => ⟨some 0, some 2⟩
    payload := [b, 0, b, 0] }

/-- One flush and one dispatch with nothing in between. -/
theorem conserved_of_undisturbed_run :
    (run (State.step Config.small) State.init
      [.notify [.named 65, .named 66], .flushStart, .flushPush, .flushResume, .dispatchWake,
        .dispatchLock, .dispatchNext]).Conserved Config.small := by
  apply conserved_of_undisturbed Config.small
    [.notify [.named 65, .named 66], .flushStart, .flushPush, .flushResume, .dispatchWake,
      .dispatchLock, .dispatchNext]
  · decide +kernel
  · exact List.prefix_refl _

/-- A flush with a second burst between its copy and its push. -/
def State.afterLostBurst : State :=
  run (State.step Config.small) State.init
    [.notify [.named 65], .flushStart, .notify [.named 66], .flushPush, .flushResume]

/-- The second event is accepted, the push succeeds, and the reset wipes it with the batch. -/
theorem append_in_flush_window_lost :
    State.afterLostBurst.accepted = [(Evt.named 65).view 0, (Evt.named 66).view 0] ∧
      State.afterLostBurst.dispatched = [] ∧
      State.afterLostBurst.remaining Config.small = [] ∧
      State.afterLostBurst.queued Config.small = [(Evt.named 65).view 0] ∧
      State.afterLostBurst.pending Config.small = [] ∧
      ¬ State.afterLostBurst.Conserved Config.small := by
  decide +kernel

end Mdns
end Breadboard
