import Breadboard.Bqueue.Instance
import Breadboard.Foundations.RingBuffer
import Breadboard.Foundations.SequentialHistory

/-!
# bb_bqueue - each item once and in order

The live items of an instance, oldest first, are a list.  A call that comes back has acted on
that list in its last locked section, and waiting changes nothing; so the calls of a run, in
the order of their last sections, are those of a first-in first-out queue, or of a single
slot when the capacity is one.

Main results:

- Theorem `inv_run`: items sent are items received and items held, in order.
- Theorem `run_delivers`: what every run of an instance delivers, in both modes.
- Theorem `not_every_failed_send_counts`: a send of no item fails without being counted.
-/

namespace Breadboard
namespace Bqueue

open Foundations

universe u v

variable {α : Type u} {w : Nat} {τ : Type v}

/-! ## The items of an instance -/

/-- The items held, oldest first. -/
def Inst.contents (q : Inst α w) : List α :=
  RingBuffer.window q.storage q.capacity q.head q.count

/-- The ring indices are within the storage in use. -/
structure Inst.Valid (q : Inst α w) : Prop where
  head_lt : q.head < q.capacity
  count_le : q.count ≤ q.capacity

variable {q q' : Inst α w}

/-- A waiter that finds an item finds the oldest. -/
theorem Inst.contents_eq_cons (hv : q.Valid) (hsome : q.count ≠ 0) :
    q.contents = q.storage q.head ::
      RingBuffer.window q.storage q.capacity ((q.head + 1) % q.capacity) (q.count - 1) := by
  obtain ⟨n, hn⟩ : ∃ n, q.count = n + 1 := ⟨q.count - 1, by omega⟩
  rw [contents, hn, RingBuffer.window_succ hv.head_lt, Nat.add_sub_cancel]

theorem Inst.contents_eq_nil (hempty : q.count = 0) : q.contents = [] := by
  rw [contents, hempty, RingBuffer.window_zero]

/-! ## What a call does -/

/-- How `bb_bqueue_wait_until` can return. -/
inductive Returned (q : Inst α w) (waiter : Waiter α) : BbErr → Prop
  | ready (h : q.count ≠ q.blockedAt waiter) : Returned q waiter .ok
  | immediate (h : q.count = q.blockedAt waiter) : Returned q waiter waiter.immediateErr
  | late : Returned q waiter .timeout

theorem returned_waitLoop {waiter : Waiter α} {nowUs : UInt64} {patience : Patience} {rc : BbErr}
    (h : q.waitLoop (q.blockedAt waiter) nowUs patience = .returns rc) : Returned q waiter rc := by
  cases patience with
  | forever =>
    rw [Inst.waitLoop] at h
    split at h
    · cases h
    · rename_i hready
      cases h
      exact .ready hready
  | deadline deadlineUs =>
    rw [Inst.waitLoop] at h
    split at h
    · split at h
      · cases h
        exact .late
      · cases h
    · rename_i hready
      cases h
      exact .ready hready

theorem returned_waitUntil {waiter : Waiter α} {timeoutMs : UInt32} {nowUs nowUs' : UInt64}
    {rc : BbErr} (h : q.waitUntil (q.blockedAt waiter) timeoutMs waiter.immediateErr nowUs nowUs' =
      .returns rc) : Returned q waiter rc := by
  unfold Inst.waitUntil at h
  split at h
  · rename_i hready
    cases h
    exact .ready hready
  · rename_i hblocked
    split at h
    · cases h
      exact .immediate (Decidable.not_not.mp hblocked)
    · split at h <;> exact returned_waitLoop h

theorem returned_waitWoken {waiter : Waiter α} {nowUs : UInt64} {wrc rc : BbErr}
    {patience : Patience}
    (h : q.waitWoken (q.blockedAt waiter) nowUs wrc patience = .returns rc) :
    Returned q waiter rc := by
  cases patience with
  | forever =>
    rw [Inst.waitWoken] at h
    exact returned_waitLoop h
  | deadline deadlineUs =>
    rw [Inst.waitWoken] at h
    split at h
    · cases h
      exact .late
    · exact returned_waitLoop h

/-- What a call that comes back has done to the instance in its last section. -/
inductive Effect (q : Inst α w) : Call α → Answer α w → Inst α w → Prop
  /-- The argument and mode checks turn a call away, but no send of an item to a ring. -/
  | refused {c : Call α} {rc : BbErr} (hrc : rc = .invalidArg ∨ rc = .invalidState)
      (hsend : ∀ x timeoutMs, c = .send (some x) timeoutMs → q.capacity = 1) :
      Effect q c (.err rc) q
  | overwritten {x : α} (hbox : q.capacity = 1) :
      Effect q (.overwrite (some x)) .done
        { q with storage := Function.update q.storage 0 x, count := 1 }
  | reset (hbox : q.capacity = 1) : Effect q .reset .done { q with count := 0 }
  | sent {x : α} {timeoutMs : UInt32} (hring : q.capacity ≠ 1) (hroom : q.count ≠ q.capacity) :
      Effect q (.send (some x) timeoutMs) .done
        { q with
          storage := Function.update q.storage ((q.head + q.count) % q.capacity) x
          count := q.count + 1 }
  | turnedAway {x : α} {timeoutMs : UInt32} {rc : BbErr} (hring : q.capacity ≠ 1)
      (hrc : rc = .timeout ∨ rc = .noSpace ∧ q.count = q.capacity) :
      Effect q (.send (some x) timeoutMs) (.err rc) { q with dropped := q.dropped + 1 }
  | peeked {timeoutMs : UInt32} (hsome : q.count ≠ 0) :
      Effect q (.peek true timeoutMs) (.item (q.storage q.head)) q
  | takenFromBox {timeoutMs : UInt32} (hbox : q.capacity = 1) (hsome : q.count ≠ 0) :
      Effect q (.receive true timeoutMs) (.item (q.storage q.head)) { q with count := 0 }
  | takenFromRing {timeoutMs : UInt32} (hring : q.capacity ≠ 1) (hsome : q.count ≠ 0) :
      Effect q (.receive true timeoutMs) (.item (q.storage q.head))
        { q with head := (q.head + 1) % q.capacity, count := q.count - 1 }
  /-- A reader finds nothing in time. -/
  | foundNothing {c : Call α} {timeoutMs : UInt32} {rc : BbErr}
      (hc : c = .peek true timeoutMs ∨ c = .receive true timeoutMs)
      (hrc : rc = .timeout ∨ rc = .notFound ∧ q.count = 0) : Effect q c (.err rc) q
  | dropped (hring : q.capacity ≠ 1) : Effect q (.dropped true) (.dropped q.dropped) q
  | counted : Effect q .count (.count q.count) q

/-- A waiter only sends to a ring. -/
def Seated (q : Inst α w) (waiter : Waiter α) : Prop :=
  ∀ x, waiter = .send x → q.capacity ≠ 1

/-- The rest of a waiter's call, however its wait returned. -/
theorem rest_effect {waiter : Waiter α} {rc : BbErr} (hseated : Seated q waiter)
    (h : Returned q waiter rc) (timeoutMs : UInt32) :
    Effect q (waiter.call timeoutMs) (q.rest rc waiter).1 (q.rest rc waiter).2 := by
  cases waiter with
  | send x =>
    have hring := hseated x rfl
    cases h with
    | ready hroom => exact .sent hring hroom
    | immediate hfull => exact .turnedAway hring (.inr ⟨rfl, hfull⟩)
    | late => exact .turnedAway hring (.inl rfl)
  | peek =>
    cases h with
    | ready hsome => exact .peeked hsome
    | immediate hempty => exact .foundNothing (.inl rfl) (.inr ⟨rfl, hempty⟩)
    | late => exact .foundNothing (.inl rfl) (.inl rfl)
  | receive =>
    cases h with
    | ready hsome =>
      by_cases hbox : q.capacity = 1
      · have hrest : q.rest .ok .receive = (.item (q.storage q.head), { q with count := 0 }) := by
          simp [Inst.rest, Inst.receiveRest, hbox]
        rw [hrest]
        exact .takenFromBox hbox hsome
      · have hrest : q.rest .ok .receive = (.item (q.storage q.head),
            { q with head := (q.head + 1) % q.capacity, count := q.count - 1 }) := by
          simp [Inst.rest, Inst.receiveRest, hbox]
        rw [hrest]
        exact .takenFromRing hbox hsome
    | immediate hempty => exact .foundNothing (.inr rfl) (.inr ⟨rfl, hempty⟩)
    | late => exact .foundNothing (.inr rfl) (.inl rfl)

/-- What a locked section of a call comes to. -/
def Settles (q : Inst α w) (c : Call α) : Outcome α w × Inst α w → Prop
  | (.answered a, q') => Effect q c a q'
  | (.blocked waiter _ _, q') => q' = q ∧ Seated q waiter ∧ c = waiter.call c.timeoutMs

theorem timeoutMs_call (waiter : Waiter α) (timeoutMs : UInt32) :
    (waiter.call timeoutMs).timeoutMs = timeoutMs := by
  cases waiter <;> rfl

theorem finish_settles {waiter : Waiter α} (hseated : Seated q waiter) {wait : Wait}
    (h : ∀ rc, wait = .returns rc → Returned q waiter rc) (timeoutMs : UInt32) :
    Settles q (waiter.call timeoutMs) (q.finish waiter wait) := by
  cases wait with
  | returns rc => exact rest_effect hseated (h rc rfl) timeoutMs
  | blocks patience condMs =>
    refine ⟨rfl, hseated, ?_⟩
    rw [timeoutMs_call]

theorem enter_settles {waiter : Waiter α} (hseated : Seated q waiter) (timeoutMs : UInt32)
    (nowUs nowUs' : UInt64) :
    Settles q (waiter.call timeoutMs) (q.enter waiter timeoutMs nowUs nowUs') :=
  finish_settles hseated (fun _ hreturns => returned_waitUntil hreturns) timeoutMs

theorem woken_settles {waiter : Waiter α} (hseated : Seated q waiter) (patience : Patience)
    (wrc : BbErr) (nowUs : UInt64) (timeoutMs : UInt32) :
    Settles q (waiter.call timeoutMs) (q.woken waiter patience wrc nowUs) :=
  finish_settles hseated (fun _ hreturns => returned_waitWoken hreturns) timeoutMs

theorem call_settles (q : Inst α w) (nowUs nowUs' : UInt64) (c : Call α) :
    Settles q c (q.call nowUs nowUs' c) := by
  have harg {c : Call α} (hc : ∀ x timeoutMs, c ≠ .send (some x) timeoutMs) :
      Settles q c (.answered (.err .invalidArg), q) :=
    .refused (.inl rfl) fun x timeoutMs h => absurd h (hc x timeoutMs)
  have hstate {c : Call α} (hc : ∀ x timeoutMs, c = .send (some x) timeoutMs → q.capacity = 1) :
      Settles q c (.answered (.err .invalidState), q) :=
    .refused (.inr rfl) hc
  have hpeek : Seated q (.peek : Waiter α) := fun x h => nomatch h
  have hreceive : Seated q (.receive : Waiter α) := fun x h => nomatch h
  cases c with
  | overwrite item =>
    cases item with
    | none => exact harg fun x timeoutMs h => nomatch h
    | some x =>
      rw [Inst.call]
      split
      · exact hstate fun x timeoutMs h => nomatch h
      · rename_i hbox
        exact .overwritten (Decidable.not_not.mp hbox)
  | reset =>
    rw [Inst.call]
    split
    · exact hstate fun x timeoutMs h => nomatch h
    · rename_i hbox
      exact .reset (Decidable.not_not.mp hbox)
  | send item timeoutMs =>
    cases item with
    | none => exact harg fun x timeoutMs h => nomatch h
    | some x =>
      rw [Inst.call]
      split
      · rename_i hbox
        exact hstate fun _ _ _ => hbox
      · rename_i hring
        exact enter_settles (fun _ _ => hring) timeoutMs nowUs nowUs'
  | dropped hasOut =>
    cases hasOut with
    | false => exact harg fun x timeoutMs h => nomatch h
    | true =>
      simp only [Inst.call, Bool.not_true, Bool.false_eq_true, if_false]
      split
      · exact hstate fun x timeoutMs h => nomatch h
      · rename_i hring
        exact .dropped hring
  | peek hasOut timeoutMs =>
    cases hasOut with
    | false => exact harg fun x timeoutMs h => nomatch h
    | true => exact enter_settles hpeek timeoutMs nowUs nowUs'
  | receive hasOut timeoutMs =>
    cases hasOut with
    | false => exact harg fun x timeoutMs h => nomatch h
    | true => exact enter_settles hreceive timeoutMs nowUs nowUs'
  | count => exact .counted

/-! ## What an action does -/

/-- Every parked sender waits at a ring. -/
def AllSeated (s : State τ α w) : Prop :=
  ∀ t p, s.parked t = some p → Seated s.inst p.waiter

section Steps

variable [DecidableEq τ]

/-- What an action can do: nothing, park its caller, or bring its call back. -/
inductive Moves (s : State τ α w) : List (Event τ α w) → State τ α w → Prop
  | stay : Moves s [] s
  | park (t : τ) (p : Parked α) (hseated : Seated s.inst p.waiter) :
      Moves s [] { s with parked := Function.update s.parked t (some p) }
  | back (e : Event τ α w) (q' : Inst α w) (heffect : Effect s.inst e.call e.answer q') :
      Moves s [e] { inst := q', parked := Function.update s.parked e.caller none }

theorem moves_settle {s : State τ α w} {t : τ} {c : Call α} {timeoutMs : UInt32}
    {r : Outcome α w × Inst α w} (h : Settles s.inst c r) :
    Moves s (s.settle t c timeoutMs r).1 (s.settle t c timeoutMs r).2 := by
  obtain ⟨outcome, q'⟩ := r
  cases outcome with
  | answered a => exact .back { caller := t, call := c, answer := a } q' h
  | blocked waiter patience condMs =>
    obtain ⟨rfl, hseated, -⟩ := h
    exact .park t { waiter := waiter, timeoutMs := timeoutMs, patience := patience,
                    condMs := condMs } hseated

/-- What a step can do. -/
theorem moves_step {s : State τ α w} (hseated : AllSeated s) (a : Action τ α) :
    Moves s (s.shows a) (s.step a) := by
  rw [State.shows, State.step]
  cases a with
  | call t c nowUs nowUs' =>
    rw [State.act]
    cases s.parked t with
    | none => exact moves_settle (call_settles s.inst nowUs nowUs' c)
    | some p => exact .stay
  | wake t wrc nowUs =>
    rw [State.act]
    cases hparked : s.parked t with
    | none => exact .stay
    | some p =>
      exact moves_settle (woken_settles (hseated t p hparked) p.patience wrc nowUs p.timeoutMs)

end Steps

/-! ## Reading a history -/

/-- The item a call has sent. -/
def Event.sent (e : Event τ α w) : Option α :=
  match e.call, e.answer with
  | .send (some x) _, .done => some x
  | _, _ => none

/-- The item a call has received. -/
def Event.received (e : Event τ α w) : Option α :=
  match e.call, e.answer with
  | .receive _ _, .item x => some x
  | _, _ => none

/-- The item a peek or a receive gives out. -/
def Event.read (e : Event τ α w) : Option α :=
  match e.answer with
  | .item x => some x
  | _ => none

/-- A send that found no room, at once or in time. -/
def Event.turnedAway (e : Event τ α w) : Bool :=
  match e.call, e.answer with
  | .send _ _, .err .noSpace => true
  | .send _ _, .err .timeout => true
  | _, _ => false

/-- The last overwrite not received or reset, given the one before the call. -/
def latestAfter (x : Option α) (e : Event τ α w) : Option α :=
  match e.call, e.answer with
  | .overwrite (some y), .done => some y
  | .reset, .done => none
  | .receive _ _, .item _ => none
  | _, _ => x

/-- The last overwrite of a history that was neither received nor reset since. -/
def latest (h : List (Event τ α w)) : Option α :=
  h.foldl latestAfter none

/-- A call on a ring reads the oldest item sent and not received, or the number of drops. -/
structure RingReads (past : List (Event τ α w)) (e : Event τ α w) : Prop where
  oldest : ∀ x, e.read = some x →
    (past.filterMap Event.sent)[(past.filterMap Event.received).length]? = some x
  drops : ∀ n, e.answer = .dropped n → n = BitVec.ofNat w (past.countP Event.turnedAway)

/-- A call on a mailbox reads the last overwrite; it finds nothing only when there is none. -/
structure BoxReads (past : List (Event τ α w)) (e : Event τ α w) : Prop where
  latest : ∀ x, e.read = some x → latest past = some x
  nothing : e.answer = .err .notFound → Bqueue.latest past = none

/-! ## One call on a ring, one call on a mailbox -/

theorem Effect.capacity_eq {c : Call α} {a : Answer α w} (h : Effect q c a q') :
    q'.capacity = q.capacity := by
  cases h <;> rfl

/-- A call that comes back from a ring moves its items in and out in order. -/
structure RingStep (q : Inst α w) (e : Event τ α w) (q' : Inst α w) : Prop where
  valid : q'.Valid
  moved : q.contents ++ e.sent.toList = e.received.toList ++ q'.contents
  read : ∀ x, e.read = some x → q.contents.head? = some x
  counted : q'.dropped = q.dropped + BitVec.ofNat w (if e.turnedAway then 1 else 0)
  drops : ∀ n, e.answer = .dropped n → n = q.dropped

/-- A call that changes nothing and reads nothing. -/
theorem RingStep.unchanged (hv : q.Valid) {e : Event τ α w} (hsent : e.sent = none)
    (hreceived : e.received = none) (hread : ∀ x, e.read = some x → q.contents.head? = some x)
    (hcounted : e.turnedAway = false) (hdrops : ∀ n, e.answer = .dropped n → n = q.dropped) :
    RingStep q e q where
  valid := hv
  moved := by simp [hsent, hreceived]
  read := hread
  counted := by simp [hcounted]
  drops := hdrops

/-- What a ring does with a call that comes back. -/
theorem ringStep (hv : q.Valid) (hring : q.capacity ≠ 1) {e : Event τ α w}
    (h : Effect q e.call e.answer q') : RingStep q e q' := by
  obtain ⟨t, c, a⟩ := e
  have hcap : 0 < q.capacity := Nat.zero_lt_of_lt hv.head_lt
  cases h with
  | refused hrc _ =>
    refine .unchanged hv ?_ ?_ (fun x hx => nomatch hx) ?_ (fun n hn => nomatch hn)
    · rcases c with _ | _ | ⟨_ | _⟩ | _ | _ | _ | _ <;> rfl
    · cases c <;> rfl
    · rcases hrc with rfl | rfl <;> cases c <;> rfl
  | overwritten hbox => exact absurd hbox hring
  | reset hbox => exact absurd hbox hring
  | @sent x timeoutMs _ hroom =>
    have hlt : q.count < q.capacity := Nat.lt_of_le_of_ne hv.count_le hroom
    exact
      { valid := ⟨hv.head_lt, hlt⟩
        moved := (RingBuffer.window_write hlt x).symm
        read := fun x hx => nomatch hx
        counted := (BitVec.add_zero _).symm
        drops := fun n hn => nomatch hn }
  | @turnedAway x timeoutMs rc _ hrc =>
    have hcounted : Event.turnedAway
        (⟨t, .send (some x) timeoutMs, .err rc⟩ : Event τ α w) = true := by
      rcases hrc with rfl | ⟨rfl, -⟩ <;> rfl
    exact
      { valid := ⟨hv.head_lt, hv.count_le⟩
        moved := List.append_nil _
        read := fun x hx => nomatch hx
        counted := by rw [hcounted]; rfl
        drops := fun n hn => nomatch hn }
  | peeked hsome =>
    refine .unchanged hv rfl rfl (fun x hx => ?_) rfl (fun n hn => nomatch hn)
    rw [Inst.contents_eq_cons hv hsome]
    exact hx
  | takenFromBox hbox hsome => exact absurd hbox hring
  | takenFromRing _ hsome =>
    have hcons := Inst.contents_eq_cons hv hsome
    exact
      { valid := ⟨Nat.mod_lt _ hcap, Nat.le_trans (Nat.sub_le _ _) hv.count_le⟩
        moved := (List.append_nil _).trans hcons
        read := fun x hx => by rw [hcons]; exact hx
        counted := (BitVec.add_zero _).symm
        drops := fun n hn => nomatch hn }
  | foundNothing hc hrc =>
    refine .unchanged hv ?_ ?_ (fun x hx => nomatch hx) ?_ (fun n hn => nomatch hn)
    all_goals rcases hc with rfl | rfl <;> rfl
  | dropped _ =>
    refine .unchanged hv rfl rfl (fun x hx => nomatch hx) rfl (fun n hn => ?_)
    exact (Answer.dropped.inj hn).symm
  | counted =>
    exact .unchanged hv rfl rfl (fun x hx => nomatch hx) rfl (fun n hn => nomatch hn)

/-- A call that comes back from a mailbox holding `x`. -/
structure BoxStep (q : Inst α w) (e : Event τ α w) (q' : Inst α w) : Prop where
  valid : q'.Valid
  held : ∀ x, q.contents = x.toList → q'.contents = (latestAfter x e).toList
  read : ∀ x, e.read = some x → q.contents.head? = some x
  nothing : e.answer = .err .notFound → q.contents = []

/-- A call that leaves a mailbox alone. -/
theorem BoxStep.unchanged (hv : q.Valid) {e : Event τ α w} (hlatest : ∀ x, latestAfter x e = x)
    (hread : ∀ x, e.read = some x → q.contents.head? = some x)
    (hnothing : e.answer = .err .notFound → q.contents = []) : BoxStep q e q where
  valid := hv
  held := by
    intro x hx
    rw [hx, hlatest]
  read := hread
  nothing := hnothing

/-- What a mailbox does with a call that comes back. -/
theorem boxStep (hv : q.Valid) (hbox : q.capacity = 1) {e : Event τ α w}
    (h : Effect q e.call e.answer q') : BoxStep q e q' := by
  obtain ⟨t, c, a⟩ := e
  have hhead : q.head = 0 := by
    have := hv.head_lt
    omega
  cases h with
  | refused hrc _ =>
    refine .unchanged hv (fun x => ?_) (by rintro _ ⟨⟩) (fun hn => ?_)
    · rcases c with ⟨_ | _⟩ | _ | _ | _ | _ | _ | _ <;> rfl
    · rcases hrc with rfl | rfl <;> cases hn
  | @overwritten x _ =>
    have hcontents : Inst.contents
        { q with storage := Function.update q.storage 0 x, count := 1 } = [x] := by
      simp [Inst.contents, RingBuffer.window, hhead]
    exact
      { valid := ⟨hv.head_lt, Nat.le_of_eq hbox.symm⟩
        held := fun _ _ => hcontents
        read := by rintro _ ⟨⟩
        nothing := by simp }
  | reset _ =>
    exact
      { valid := ⟨hv.head_lt, Nat.zero_le _⟩
        held := fun _ _ => rfl
        read := by rintro _ ⟨⟩
        nothing := by simp }
  | sent hring _ => exact absurd hbox hring
  | turnedAway hring _ => exact absurd hbox hring
  | peeked hsome =>
    refine .unchanged hv (fun _ => rfl) (fun x hx => ?_) (by simp)
    rw [Inst.contents_eq_cons hv hsome]
    exact hx
  | takenFromBox _ hsome =>
    exact
      { valid := ⟨hv.head_lt, Nat.zero_le _⟩
        held := fun _ _ => rfl
        read := fun x hx => by rw [Inst.contents_eq_cons hv hsome]; exact hx
        nothing := by simp }
  | takenFromRing hring _ => exact absurd hbox hring
  | foundNothing hc hrc =>
    refine .unchanged hv (fun x => ?_) (by rintro _ ⟨⟩) (fun hn => ?_)
    · rcases hc with rfl | rfl <;> rfl
    · rcases hrc with rfl | ⟨rfl, hempty⟩
      · cases hn
      · exact Inst.contents_eq_nil hempty
  | dropped hring => exact absurd hbox hring
  | counted => exact .unchanged hv (fun _ => rfl) (by rintro _ ⟨⟩) (by simp)

/-! ## Runs -/

/-- What the calls that came back have made of a ring. -/
structure RingDelivers (h : List (Event τ α w)) (q : Inst α w) : Prop where
  in_order : h.filterMap Event.sent = h.filterMap Event.received ++ q.contents
  dropped_eq : q.dropped = BitVec.ofNat w (h.countP Event.turnedAway)
  reads : InTurn RingReads h

/-- What the calls that came back have made of a mailbox. -/
structure BoxDelivers (h : List (Event τ α w)) (q : Inst α w) : Prop where
  held : q.contents = (latest h).toList
  reads : InTurn BoxReads h

theorem RingDelivers.back {h : List (Event τ α w)} {e : Event τ α w} (hsofar : RingDelivers h q)
    (hstep : RingStep q e q') : RingDelivers (h ++ [e]) q' where
  in_order := by
    have hmoved := hstep.moved
    have hsent : [e].filterMap Event.sent = e.sent.toList := by
      cases hs : e.sent <;> simp [hs]
    have hreceived : [e].filterMap Event.received = e.received.toList := by
      cases hr : e.received <;> simp [hr]
    rw [List.filterMap_append, List.filterMap_append, hsofar.in_order, List.append_assoc, hsent,
      hmoved, hreceived, List.append_assoc]
  dropped_eq := by
    have hcount : [e].countP Event.turnedAway = if e.turnedAway then 1 else 0 :=
      List.countP_singleton
    rw [hstep.counted, hsofar.dropped_eq, List.countP_append, hcount, BitVec.ofNat_add]
  reads := by
    refine (inTurn_append_singleton _ _ _).mpr ⟨hsofar.reads, ?_, ?_⟩
    · intro x hx
      rw [hsofar.in_order, List.getElem?_append_right (Nat.le_refl _), Nat.sub_self,
        ← List.head?_eq_getElem?]
      exact hstep.read x hx
    · intro n hn
      rw [hstep.drops n hn, hsofar.dropped_eq]

theorem BoxDelivers.back {h : List (Event τ α w)} {e : Event τ α w} (hsofar : BoxDelivers h q)
    (hstep : BoxStep q e q') : BoxDelivers (h ++ [e]) q' where
  held := by
    rw [latest, List.foldl_append]
    exact hstep.held _ hsofar.held
  reads := by
    refine (inTurn_append_singleton _ _ _).mpr ⟨hsofar.reads, ?_, ?_⟩
    · intro x hx
      have hhead := hstep.read x hx
      rw [hsofar.held] at hhead
      cases hlatest : latest h with
      | none => simp [hlatest] at hhead
      | some y => simpa [hlatest] using hhead
    · intro hn
      have hnil := hstep.nothing hn
      rw [hsofar.held] at hnil
      exact Option.toList_eq_nil_iff.mp hnil

/-- What holds of an instance of the given capacity, its callers and the calls so far. -/
structure Inv (cap : Nat) (h : List (Event τ α w)) (s : State τ α w) : Prop where
  capacity_eq : s.inst.capacity = cap
  valid : s.inst.Valid
  seated : AllSeated s
  ring : cap ≠ 1 → RingDelivers h s.inst
  box : cap = 1 → BoxDelivers h s.inst

variable [DecidableEq τ] {cap : Nat} {s s' : State τ α w} {h os : List (Event τ α w)}

theorem AllSeated.update (hseated : AllSeated s) {inst : Inst α w}
    (hcap : inst.capacity = s.inst.capacity) (t : τ) {p : Option (Parked α)}
    (hp : ∀ p' ∈ p, Seated s.inst p'.waiter) :
    AllSeated { inst := inst, parked := Function.update s.parked t p } := by
  intro t' p' hparked x hx
  simp only at hparked ⊢
  rw [hcap]
  by_cases ht : t' = t
  · subst ht
    rw [Function.update_self] at hparked
    exact hp p' hparked x hx
  · rw [Function.update_of_ne ht] at hparked
    exact hseated t' p' hparked x hx

/-- A step keeps the invariant. -/
theorem Inv.moves (hinv : Inv cap h s) (hmoves : Moves s os s') : Inv cap (h ++ os) s' := by
  cases hmoves with
  | stay => rwa [List.append_nil]
  | park t p hseated =>
    rw [List.append_nil]
    exact
      { capacity_eq := hinv.capacity_eq
        valid := hinv.valid
        seated := hinv.seated.update rfl t fun p' hp' => by cases hp'; exact hseated
        ring := hinv.ring
        box := hinv.box }
  | back e q' heffect =>
    have hcap := hinv.capacity_eq
    have hvalid : q'.Valid := by
      by_cases hbox : s.inst.capacity = 1
      · exact (boxStep hinv.valid hbox heffect).valid
      · exact (ringStep hinv.valid hbox heffect).valid
    exact
      { capacity_eq := heffect.capacity_eq.trans hcap
        valid := hvalid
        seated := hinv.seated.update heffect.capacity_eq e.caller fun p' hp' => nomatch hp'
        ring := fun hring => (hinv.ring hring).back (ringStep hinv.valid (hcap ▸ hring) heffect)
        box := fun hbox => (hinv.box hbox).back (boxStep hinv.valid (hcap.trans hbox) heffect) }

/-- Every run keeps the invariant. -/
theorem inv_run (hinv : Inv cap h s) (as : List (Action τ α)) :
    Inv cap (h ++ history s as) (run State.step s as) := by
  induction as generalizing s h with
  | nil =>
    rw [history, outputs_nil, List.append_nil]
    exact hinv
  | cons a as ih =>
    rw [history, outputs_cons, ← List.append_assoc]
    exact ih (hinv.moves (moves_step hinv.seated a))

/-- A send that fails is counted once and puts nothing in; one that had no item does nothing. -/
def FailedSendsCount (s : State τ α w) : Prop :=
  ∀ a, ∀ e ∈ s.shows a, ∀ item timeoutMs rc,
    e.call = .send item timeoutMs → e.answer = .err rc →
      (s.step a).inst =
        if item.isSome then { s.inst with dropped := s.inst.dropped + 1 } else s.inst

/-- What an instance with this capacity has delivered when the calls of `h` are back. -/
structure Delivers (cap : Nat) (h : List (Event τ α w)) (s : State τ α w) : Prop where
  count_le : s.inst.count ≤ cap
  ring : cap ≠ 1 → RingDelivers h s.inst
  failedSends : cap ≠ 1 → FailedSendsCount s
  box : cap = 1 → BoxDelivers h s.inst

theorem failedSendsCount (hseated : AllSeated s) (hring : s.inst.capacity ≠ 1) :
    FailedSendsCount s := by
  intro a e he item timeoutMs rc hcall hanswer
  have hmoves := moves_step hseated a
  generalize s.shows a = os at hmoves he
  generalize s.step a = s' at hmoves
  cases hmoves with
  | stay => cases he
  | park t p hseated' => cases he
  | back e' q' heffect =>
    cases List.mem_singleton.mp he
    rw [hcall, hanswer] at heffect
    cases heffect with
    | refused hrc hsend =>
      cases item with
      | none => rfl
      | some x => exact absurd (hsend x timeoutMs rfl) hring
    | turnedAway _ hrc => rfl
    | foundNothing hc hrc => rcases hc with hc | hc <;> cases hc

theorem Inv.delivers (hinv : Inv cap h s) : Delivers cap h s where
  count_le := hinv.capacity_eq ▸ hinv.valid.count_le
  ring := hinv.ring
  failedSends := fun hring => failedSendsCount hinv.seated (hinv.capacity_eq ▸ hring)
  box := hinv.box

theorem create_inv {kc : Kconfig} {blank : α} {cfg : BqueueCfg}
    (hcreate : Inst.create kc blank cfg = .ok q) :
    Inv cfg.capacity [] (State.init q : State τ α w) := by
  unfold Inst.create at hcreate
  split at hcreate
  · rename_i hvalid
    cases hcreate
    have hpos : 0 < cfg.capacity := by
      unfold validateCfg at hvalid
      split at hvalid
      · cases hvalid
      · omega
    exact
      { capacity_eq := rfl
        valid := ⟨hpos, Nat.zero_le _⟩
        seated := fun t p hp => nomatch hp
        ring := fun _ => ⟨rfl, rfl, inTurn_nil _⟩
        box := fun _ => ⟨rfl, inTurn_nil _⟩ }
  · cases hcreate

/--
In every run of a new instance, with any callers and any ends of their waits, a ring gives out
the items sent to it once each and in order, counting the sends it turns away, and a mailbox
gives out its last overwrite.
-/
theorem run_delivers {kc : Kconfig} {blank : α} {cfg : BqueueCfg}
    (hcreate : Inst.create kc blank cfg = .ok q) (as : List (Action τ α)) :
    Delivers cfg.capacity (history (.init q) as) (run State.step (.init q) as) :=
  (inv_run (create_inv hcreate) as).delivers

/-- A queue of two bytes. -/
def twoBytes : Inst UInt8 32 where
  capacity := 2
  itemBytes := 1
  storage := fun _ => 0
  head := 0
  count := 0
  dropped := 0

/-- A sender waits for room until a receiver has made some. -/
theorem run_delivers_twoBytes :
    Delivers 2 (history (.init twoBytes) [.call 0 (.send (some 7) 0) 0 0,
        .call 1 (.send (some 8) 0) 0 0, .call 0 (.send (some 9) 5) 0 0,
        .call 2 (.receive true 0) 0 0, .wake 0 .ok 100])
      (run State.step (.init twoBytes) [.call 0 (.send (some 7) 0) 0 0,
        .call 1 (.send (some 8) 0) 0 0, .call 0 (.send (some 9) 5) 0 0,
        .call 2 (.receive true 0) 0 0, .wake (0 : Nat) .ok 100]) := by
  have hcreate : Inst.create { maxCapacity := 16, maxItemBytes := 64 } 0
      { capacity := 2, itemBytes := 1 } = .ok twoBytes := rfl
  exact run_delivers hcreate _

/-- It is not so that every failed send is counted: one that has no item is not. -/
theorem not_every_failed_send_counts :
    Inst.create { maxCapacity := 16, maxItemBytes := 64 } 0 { capacity := 2, itemBytes := 1 } =
      .ok twoBytes ∧
    ¬ ∀ (as : List (Action Nat UInt8)) (a : Action Nat UInt8),
      ∀ e ∈ (run State.step (.init twoBytes) as).shows a, ∀ item timeoutMs rc,
        e.call = .send item timeoutMs → e.answer = .err rc →
          ((run State.step (.init twoBytes) as).step a).inst.dropped =
            (run State.step (.init twoBytes) as).inst.dropped + 1 := by
  refine ⟨rfl, fun h => ?_⟩
  have hcount := h [] (.call 0 (.send none 0) 0 0) ⟨0, .send none 0, .err .invalidArg⟩
    (List.mem_singleton_self _) none 0 .invalidArg rfl rfl
  exact absurd hcount (by decide)

end Bqueue
end Breadboard
