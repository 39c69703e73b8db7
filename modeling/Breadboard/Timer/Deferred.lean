import Breadboard.Foundations.Fairness
import Mathlib.Data.Fintype.Card
import Mathlib.Logic.Function.Basic

/-!
# bb_timer - deferred timers and their shared dispatch task

A deferred timer does not run its work in the timer service: the fire callback
puts a message on a queue shared by all deferred timers, and the task
`bb_timer_disp` receives the messages and runs the work functions.  The
timer service runs one callback at a time; the compare-and-swap of
`pending`, `xQueueSend` and the plain stores to `pending` are one
step each, and the dispatch task and the callbacks interleave freely.

Main results:

- Theorem `cas_succeeds`: the flag is never seen set by a fire, since the
  callback that set it has cleared it again.
- Theorem `coalesces_iff`: messages coalesce and no fire is lost exactly in the
  schedules in which no fire sends while an older message of its timer waits.
-/

namespace Breadboard
namespace Timer

open Foundations

/-- Where the timer service is in the callback of the timer that fired. -/
inductive Callback (τ : Type) where
  | idle
  | claimed (t : τ)
  | refused (t : τ)
  | sent (t : τ)
  deriving DecidableEq

/-- Where the loop of `disp_task_fn` is. -/
inductive Dispatch (τ : Type) where
  | waiting
  | received (t : τ)
  | running (t : τ)
  deriving DecidableEq

/-- Both kinds of deferred timers. -/
inductive Kind where
  | periodic
  | oneshot
  deriving DecidableEq

/-- The flags of the timers, the queue with the oldest message first, and the two tasks. -/
structure Sys (τ : Type) where
  pending : τ → Bool
  queue : List τ
  callback : Callback τ
  dispatch : Dispatch τ

/-- The state after the timers have been created. -/
def Sys.init (τ : Type) : Sys τ where
  pending := fun _ => false
  queue := []
  callback := .idle
  dispatch := .waiting

/-- One step of the timer service or of the dispatch task. -/
inductive Action (τ : Type) where
  | fire (t : τ)
  | send
  | refuse
  | clear
  | receive
  | start
  | finish
  deriving DecidableEq

variable {τ : Type} [DecidableEq τ]

/-- The start of the callback: the compare-and-swap, which returns when the flag is set. -/
def sharedFire (s : Sys τ) (t : τ) : Sys τ :=
  if s.pending t then s
  else { s with pending := Function.update s.pending t true, callback := .claimed t }

/-- `periodic_dispatcher` of a timer of the shared mode, up to its first step. -/
def periodicDispatcher (s : Sys τ) (t : τ) : Sys τ :=
  sharedFire s t

/-- `oneshot_dispatcher` of a timer of the shared mode, up to its first step. -/
def oneshotDispatcher (s : Sys τ) (t : τ) : Sys τ :=
  sharedFire s t

variable (kind : τ → Kind) (depth : Nat)

/-- The callback that the timer service calls. -/
def dispatcher (s : Sys τ) (t : τ) : Sys τ :=
  match kind t with
  | .periodic => periodicDispatcher s t
  | .oneshot => oneshotDispatcher s t

omit [DecidableEq τ] in
/-- `xQueueSend(s_disp_queue, &msg, 0)`. -/
def queueSend (s : Sys τ) (t : τ) : Sys τ :=
  if s.queue.length < depth then { s with queue := s.queue ++ [t], callback := .sent t }
  else { s with callback := .refused t }

/-- One step; an action that its task is not at does nothing. -/
def step (s : Sys τ) : Action τ → Sys τ
  | .fire t =>
    match s.callback with
    | .idle => dispatcher kind s t
    | _ => s
  | .send =>
    match s.callback with
    | .claimed t => queueSend depth s t
    | _ => s
  | .refuse =>
    match s.callback with
    | .refused t => { s with pending := Function.update s.pending t false, callback := .sent t }
    | _ => s
  | .clear =>
    match s.callback with
    | .sent t => { s with pending := Function.update s.pending t false, callback := .idle }
    | _ => s
  | .receive =>
    match s.dispatch, s.queue with
    | .waiting, t :: rest => { s with queue := rest, dispatch := .received t }
    | _, _ => s
  | .start =>
    match s.dispatch with
    | .received t => { s with dispatch := .running t }
    | _ => s
  | .finish =>
    match s.dispatch with
    | .running _ => { s with dispatch := .waiting }
    | _ => s

omit [DecidableEq τ] in
/-- No two messages of one timer wait, and no send has failed. -/
def Good (s : Sys τ) : Prop :=
  s.queue.Nodup ∧ ∀ t, s.callback ≠ .refused t

omit [DecidableEq τ] in
/-- A fire that sends finds no older message of its timer in the queue. -/
def Caught (s : Sys τ) (a : Action τ) : Prop :=
  a = .send → ∀ t, s.callback = .claimed t → t ∉ s.queue

/-! ## What a step can do -/

/-- The steps that change something, with the state they lead to. -/
inductive Moves (s : Sys τ) : Action τ → Sys τ → Prop where
  | stays (a : Action τ) : Moves s a s
  | fires (t : τ) (hidle : s.callback = .idle) (hclear : s.pending t = false) :
      Moves s (.fire t)
        { s with pending := Function.update s.pending t true, callback := .claimed t }
  | sends (t : τ) (hclaimed : s.callback = .claimed t) (hroom : s.queue.length < depth) :
      Moves s .send { s with queue := s.queue ++ [t], callback := .sent t }
  | fails (t : τ) (hclaimed : s.callback = .claimed t) (hfull : depth ≤ s.queue.length) :
      Moves s .send { s with callback := .refused t }
  | refuses (t : τ) (hrefused : s.callback = .refused t) :
      Moves s .refuse
        { s with pending := Function.update s.pending t false, callback := .sent t }
  | clears (t : τ) (hsent : s.callback = .sent t) :
      Moves s .clear { s with pending := Function.update s.pending t false, callback := .idle }
  | receives (t : τ) (rest : List τ) (hwaiting : s.dispatch = .waiting) (hqueue : s.queue = t :: rest) :
      Moves s .receive { s with queue := rest, dispatch := .received t }
  | starts (t : τ) (hreceived : s.dispatch = .received t) :
      Moves s .start { s with dispatch := .running t }
  | finishes (t : τ) (hrunning : s.dispatch = .running t) :
      Moves s .finish { s with dispatch := .waiting }

theorem dispatcher_eq (s : Sys τ) (t : τ) : dispatcher kind s t = sharedFire s t := by
  unfold dispatcher
  cases kind t <;> rfl

theorem moves_step (s : Sys τ) (a : Action τ) : Moves depth s a (step kind depth s a) := by
  cases a with
  | fire t =>
    cases hc : s.callback with
    | idle =>
      cases hp : s.pending t with
      | true => simpa [step, hc, dispatcher_eq, sharedFire, hp] using Moves.stays (.fire t)
      | false => simpa [step, hc, dispatcher_eq, sharedFire, hp] using Moves.fires t hc hp
    | claimed u | refused u | sent u => simpa [step, hc] using Moves.stays (.fire t)
  | send =>
    cases hc : s.callback with
    | claimed t =>
      by_cases hroom : s.queue.length < depth
      · simpa [step, hc, queueSend, hroom] using Moves.sends t hc hroom
      · simpa [step, hc, queueSend, hroom] using Moves.fails t hc (Nat.not_lt.mp hroom)
    | idle | refused u | sent u => simpa [step, hc] using Moves.stays .send
  | refuse =>
    cases hc : s.callback with
    | refused t => simpa [step, hc] using Moves.refuses t hc
    | idle | claimed u | sent u => simpa [step, hc] using Moves.stays .refuse
  | clear =>
    cases hc : s.callback with
    | sent t => simpa [step, hc] using Moves.clears t hc
    | idle | claimed u | refused u => simpa [step, hc] using Moves.stays .clear
  | receive =>
    cases hd : s.dispatch with
    | waiting =>
      cases hq : s.queue with
      | nil => simpa [step, hd, hq] using Moves.stays .receive
      | cons t rest => simpa [step, hd, hq] using Moves.receives t rest hd hq
    | received u | running u => simpa [step, hd] using Moves.stays .receive
  | start =>
    cases hd : s.dispatch with
    | received t => simpa [step, hd] using Moves.starts t hd
    | waiting | running u => simpa [step, hd] using Moves.stays .start
  | finish =>
    cases hd : s.dispatch with
    | running t => simpa [step, hd] using Moves.finishes t hd
    | waiting | received u => simpa [step, hd] using Moves.stays .finish

/-! ## The flag -/

omit [DecidableEq τ] in
/-- A set flag belongs to the callback that runs. -/
def FlagInCallback (s : Sys τ) : Prop :=
  ∀ t, s.pending t = true →
    s.callback = .claimed t ∨ s.callback = .refused t ∨ s.callback = .sent t

omit [DecidableEq τ] in
theorem FlagInCallback.pending_eq_false {s : Sys τ} (h : FlagInCallback s)
    (hidle : s.callback = .idle) (t : τ) : s.pending t = false := by
  cases hp : s.pending t with
  | false => rfl
  | true => simpa [hidle] using h t hp

variable {depth}

/-- One step keeps set flags with the callback that runs. -/
theorem FlagInCallback.moves {s s' : Sys τ} {a : Action τ} (h : FlagInCallback s)
    (hmove : Moves depth s a s') : FlagInCallback s' := by
  intro t ht
  cases hmove with
  | stays => exact h t ht
  | fires u hidle =>
    by_cases htu : t = u
    · exact Or.inl (by rw [htu])
    · have hold : s.pending t = true := by simpa [Function.update_of_ne htu] using ht
      rw [h.pending_eq_false hidle t] at hold
      cases hold
  | sends u hclaimed => simpa [hclaimed] using h t ht
  | fails u hclaimed => simpa [hclaimed] using h t ht
  | refuses u hrefused =>
    by_cases htu : t = u
    · simp [htu] at ht
    · have hold : s.pending t = true := by simpa [Function.update_of_ne htu] using ht
      simpa [hrefused] using h t hold
  | clears u hsent =>
    by_cases htu : t = u
    · simp [htu] at ht
    · have hold : s.pending t = true := by simpa [Function.update_of_ne htu] using ht
      have hut : u = t := by simpa [hsent] using h t hold
      exact absurd hut.symm htu
  | receives => exact h t ht
  | starts => exact h t ht
  | finishes => exact h t ht

/-- The compare-and-swap of a fire never fails: the flag does not coalesce anything. -/
theorem cas_succeeds {s : Sys τ} (h : FlagInCallback s) (hidle : s.callback = .idle) (t : τ) :
    (step kind depth s (.fire t)).callback = .claimed t := by
  simp [step, hidle, dispatcher_eq, sharedFire, h.pending_eq_false hidle t]

/-! ## The queue -/

section Queue

variable [Fintype τ]

omit [DecidableEq τ] in
/-- A message that has no companion in the queue finds room. -/
theorem length_lt_depth (hdepth : Fintype.card τ ≤ depth) {s : Sys τ} (hnodup : s.queue.Nodup)
    {t : τ} (ht : t ∉ s.queue) : s.queue.length < depth := by
  have hcons : (t :: s.queue).Nodup := List.nodup_cons.mpr ⟨ht, hnodup⟩
  exact Nat.lt_of_lt_of_le hcons.length_le_card hdepth

/-- One step keeps the queue free of companions when a send finds none. -/
theorem Good.moves (hdepth : Fintype.card τ ≤ depth) {s s' : Sys τ} {a : Action τ}
    (h : Good s) (hcaught : Caught s a) (hmove : Moves depth s a s') : Good s' := by
  obtain ⟨hnodup, hnofail⟩ := h
  cases hmove with
  | stays => exact ⟨hnodup, hnofail⟩
  | fires => exact ⟨hnodup, by simp⟩
  | sends t hclaimed =>
    have ht : t ∉ s.queue := hcaught rfl t hclaimed
    refine ⟨List.nodup_append.mpr ⟨hnodup, by simp, ?_⟩, by simp⟩
    rintro u hu v hv rfl
    exact ht (List.mem_singleton.mp hv ▸ hu)
  | fails t hclaimed hfull =>
    have hroom := length_lt_depth hdepth hnodup (hcaught rfl t hclaimed)
    omega
  | refuses => exact ⟨hnodup, by simp⟩
  | clears => exact ⟨hnodup, by simp⟩
  | receives t rest hwaiting hqueue =>
    rw [hqueue] at hnodup
    exact ⟨(List.nodup_cons.mp hnodup).2, hnofail⟩
  | starts => exact ⟨hnodup, hnofail⟩
  | finishes => exact ⟨hnodup, hnofail⟩

omit [Fintype τ] in
/-- A send that finds an older message of its timer doubles it or fails. -/
theorem not_good_of_not_caught (s : Sys τ) (a : Action τ) (h : ¬ Caught s a) :
    ¬ Good (step kind depth s a) := by
  simp only [Caught, not_forall, not_not] at h
  obtain ⟨rfl, t, hclaimed, ht⟩ := h
  rintro ⟨hnodup, hnofail⟩
  by_cases hroom : s.queue.length < depth
  · simp only [step, hclaimed, queueSend, if_pos hroom] at hnodup
    exact (List.nodup_append.mp hnodup).2.2 t ht t (by simp) rfl
  · exact hnofail t (by simp [step, hclaimed, queueSend, hroom])

end Queue

/-! ## From a fire to the start of the work -/

section Progress

variable (depth) (acts : Nat → Action τ)

/-- The state before each instant. -/
def states (k : Nat) : Sys τ :=
  trajectory (step kind depth) (Sys.init τ) acts k

/-- The timer service goes on with its callback, and the dispatch task with its loop. -/
def Fair : Prop :=
  ∀ a ∈ [Action.send, .refuse, .clear, .receive, .start, .finish],
    InfinitelyOften fun k => acts k = a

/-- The timer service calls the callback of a timer. -/
def Fired (t : τ) (k : Nat) : Prop :=
  acts k = .fire t ∧ (states kind depth acts k).callback = .idle

/-- The work function of a timer is called. -/
def Started (t : τ) (k : Nat) : Prop :=
  acts k = .start ∧ (states kind depth acts k).dispatch = .received t

/-- What the deferred timers promise along a schedule. -/
def Coalesces : Prop :=
  (∀ k, Good (states kind depth acts k)) ∧
    (Fair acts → ∀ t, LeadsTo (Fired kind depth acts t) (Started kind depth acts t))

variable {kind depth acts}

theorem states_succ (k : Nat) :
    states kind depth acts (k + 1) = step kind depth (states kind depth acts k) (acts k) :=
  rfl

theorem moves_states (k : Nat) :
    Moves depth (states kind depth acts k) (acts k) (states kind depth acts (k + 1)) :=
  moves_step kind depth _ _

theorem flagInCallback_states (k : Nat) : FlagInCallback (states kind depth acts k) := by
  induction k with
  | zero =>
    intro t ht
    cases ht
  | succ k ih => exact ih.moves (moves_states k)

theorem claimed_of_fired {t : τ} (k : Nat) (h : Fired kind depth acts t k) :
    (states kind depth acts (k + 1)).callback = .claimed t := by
  obtain ⟨hact, hidle⟩ := h
  have hcas := @cas_succeeds τ _ kind depth _ (flagInCallback_states k) hidle t
  rwa [← hact] at hcas

/-- A claimed fire waits for its send. -/
theorem Moves.claimed {s s' : Sys τ} {a : Action τ} {t : τ} (hmove : Moves depth s a s')
    (hclaimed : s.callback = .claimed t) (ha : a ≠ .send) : s'.callback = .claimed t := by
  cases hmove with
  | stays => exact hclaimed
  | fires u hidle => simp [hclaimed] at hidle
  | sends | fails => exact absurd rfl ha
  | refuses u hu | clears u hu => simp [hclaimed] at hu
  | receives | starts | finishes => exact hclaimed

theorem mem_queue_of_send {s : Sys τ} {t : τ} (hclaimed : s.callback = .claimed t)
    (hgood : Good (step kind depth s .send)) : t ∈ (step kind depth s .send).queue := by
  by_cases hroom : s.queue.length < depth
  · simp [step, hclaimed, queueSend, hroom]
  · exact absurd (by simp [step, hclaimed, queueSend, hroom]) (hgood.2 t)

/-- How far the dispatch task is from being free. -/
def Dispatch.remaining : Dispatch τ → Nat
  | .waiting => 0
  | .running _ => 1
  | .received _ => 2

/-- The step that the dispatch task is at. -/
def Dispatch.next : Dispatch τ → Action τ
  | .waiting => .receive
  | .running _ => .finish
  | .received _ => .start

/-- Steps of the dispatch task until it has received the message of a timer. -/
def Sys.distance (s : Sys τ) (t : τ) : Nat :=
  3 * s.queue.idxOf t + s.dispatch.remaining

/-- A waiting message keeps its distance while the dispatch task does not step. -/
theorem Moves.distance_eq {s s' : Sys τ} {a : Action τ} {t : τ} (hmove : Moves depth s a s')
    (ht : t ∈ s.queue) (ha : a ≠ s.dispatch.next) :
    t ∈ s'.queue ∧ s'.distance t = s.distance t ∧ s'.dispatch = s.dispatch := by
  cases hmove with
  | stays | fires | fails | refuses | clears => exact ⟨ht, rfl, rfl⟩
  | sends u =>
    refine ⟨List.mem_append_left _ ht, ?_, rfl⟩
    simp [Sys.distance, List.idxOf_append_of_mem ht]
  | receives u rest hwaiting => exact absurd (by rw [hwaiting, Dispatch.next]) ha
  | starts u hreceived => exact absurd (by rw [hreceived, Dispatch.next]) ha
  | finishes u hrunning => exact absurd (by rw [hrunning, Dispatch.next]) ha

/-- A step of the dispatch task receives the message or comes closer to it. -/
theorem distance_next {s : Sys τ} {t : τ} (ht : t ∈ s.queue) :
    (step kind depth s s.dispatch.next).dispatch = .received t ∨
      t ∈ (step kind depth s s.dispatch.next).queue ∧
        (step kind depth s s.dispatch.next).distance t < s.distance t := by
  cases hd : s.dispatch with
  | waiting =>
    cases hq : s.queue with
    | nil => simp [hq] at ht
    | cons u rest =>
      by_cases hut : u = t
      · exact Or.inl (by simp [Dispatch.next, step, hd, hq, hut])
      · have hrest : t ∈ rest := by
          rcases List.mem_cons.mp (hq ▸ ht) with htu | hrest
          · exact absurd htu.symm hut
          · exact hrest
        refine Or.inr ⟨by simpa [Dispatch.next, step, hd, hq] using hrest, ?_⟩
        simp [Dispatch.next, step, hd, hq, Sys.distance, Dispatch.remaining,
          List.idxOf_cons_ne rest hut]
        omega
  | received u =>
    refine Or.inr ⟨by simpa [Dispatch.next, step, hd] using ht, ?_⟩
    simp [Dispatch.next, step, hd, Sys.distance, Dispatch.remaining]
  | running u =>
    refine Or.inr ⟨by simpa [Dispatch.next, step, hd] using ht, ?_⟩
    simp [Dispatch.next, step, hd, Sys.distance, Dispatch.remaining]

/-- The message of a timer waits. -/
def Waits (kind : τ → Kind) (depth : Nat) (acts : Nat → Action τ) (t : τ) (k : Nat) : Prop :=
  t ∈ (states kind depth acts k).queue

omit [DecidableEq τ] in
theorem fair_next (hfair : Fair acts) (d : Dispatch τ) :
    InfinitelyOften fun k => acts k = d.next := by
  cases d with
  | waiting => exact hfair .receive (by simp)
  | received => exact hfair .start (by simp)
  | running => exact hfair .finish (by simp)

/-- A claimed fire puts its message on the queue. -/
theorem claimed_leadsTo_waits (hfair : Fair acts)
    (hgood : ∀ k, Good (states kind depth acts k)) (t : τ) :
    LeadsTo (fun k => (states kind depth acts k).callback = .claimed t)
      (Waits kind depth acts t) := by
  have hsend : LeadsTo (fun k => (states kind depth acts k).callback = .claimed t)
      fun k => (states kind depth acts k).callback = .claimed t ∧ acts k = .send :=
    leadsTo_of_helpful (fun k hk hnot => (moves_states k).claimed hk hnot)
      (hfair .send (by simp))
  refine hsend.trans (leadsTo_of_next ?_)
  rintro k ⟨hclaimed, hact⟩
  have hnext := hgood (k + 1)
  rw [states_succ, hact] at hnext
  rw [Waits, states_succ, hact]
  exact mem_queue_of_send hclaimed hnext

/-- A waiting message is received. -/
theorem waits_leadsTo_received (hfair : Fair acts) (t : τ) :
    LeadsTo (Waits kind depth acts t)
      fun k => (states kind depth acts k).dispatch = .received t := by
  refine leadsTo_of_measure (fun k => (states kind depth acts k).distance t) fun n k hk => ?_
  -- The dispatch task stays where it is until its own next step.
  have hstep := leadsTo_of_helpful
    (P := fun j => Waits kind depth acts t j ∧ (states kind depth acts j).distance t = n ∧
      (states kind depth acts j).dispatch = (states kind depth acts k).dispatch)
    (fun j hj hnot => by
      obtain ⟨hwaits, hdist, hsame⟩ := hj
      obtain ⟨hwaits', hdist', hsame'⟩ :=
        (@moves_states τ _ kind depth acts j).distance_eq hwaits (hsame ▸ hnot)
      exact ⟨hwaits', hdist'.trans hdist, hsame'.trans hsame⟩)
    (fair_next hfair (states kind depth acts k).dispatch)
  obtain ⟨m, hkm, ⟨hwaits, hdist, hsame⟩, hact⟩ := hstep k ⟨hk.1, hk.2, rfl⟩
  refine ⟨m + 1, by omega, ?_⟩
  show (states kind depth acts (m + 1)).dispatch = .received t ∨
    t ∈ (states kind depth acts (m + 1)).queue ∧ (states kind depth acts (m + 1)).distance t < n
  rw [states_succ, hact, ← hsame, ← hdist]
  exact distance_next hwaits

/-- A received message waits for its work function to be called. -/
theorem Moves.received {s s' : Sys τ} {a : Action τ} {t : τ} (hmove : Moves depth s a s')
    (hreceived : s.dispatch = .received t) (ha : a ≠ .start) : s'.dispatch = .received t := by
  cases hmove with
  | stays | fires | sends | fails | refuses | clears => exact hreceived
  | receives u rest hu => simp [hreceived] at hu
  | starts => exact absurd rfl ha
  | finishes u hu => simp [hreceived] at hu

/-- The work of a received message is started. -/
theorem received_leadsTo_started (hfair : Fair acts) (t : τ) :
    LeadsTo (fun k => (states kind depth acts k).dispatch = .received t)
      (Started kind depth acts t) := by
  have hstart : LeadsTo (fun k => (states kind depth acts k).dispatch = .received t)
      fun k => (states kind depth acts k).dispatch = .received t ∧ acts k = .start :=
    leadsTo_of_helpful (fun k hk hnot => (moves_states k).received hk hnot)
      (hfair .start (by simp))
  exact hstart.trans fun k hk => ⟨k, k.le_refl, hk.2, hk.1⟩

/-- While no send fails, every fire is followed by the start of its work. -/
theorem fired_leadsTo_started (hfair : Fair acts)
    (hgood : ∀ k, Good (states kind depth acts k)) (t : τ) :
    LeadsTo (Fired kind depth acts t) (Started kind depth acts t) := by
  have hclaimed : LeadsTo (Fired kind depth acts t)
      fun k => (states kind depth acts k).callback = .claimed t :=
    leadsTo_of_next claimed_of_fired
  exact ((hclaimed.trans (claimed_leadsTo_waits hfair hgood t)).trans
    (waits_leadsTo_received hfair t)).trans (received_leadsTo_started hfair t)

variable (kind acts)

/--
Deferred timers coalesce and lose no fire exactly along the schedules in which a fire
that sends finds no older message of its timer in the queue.
-/
theorem coalesces_iff [Fintype τ] (hdepth : Fintype.card τ ≤ depth) :
    Coalesces kind depth acts ↔
      ∀ k, Caught (states kind depth acts k) (acts k) := by
  have hexact : (∀ k, Good (states kind depth acts k)) ↔
      ∀ k, Caught (states kind depth acts k) (acts k) :=
    @trajectory_good_iff_along _ _ (step kind depth) Good Good Caught
      (fun s a hgood hcaught => hgood.moves hdepth hcaught (moves_step kind depth s a))
      (fun _ hgood => hgood) (fun s a _ hnot => not_good_of_not_caught kind s a hnot) _
      ⟨List.nodup_nil, by simp [Sys.init]⟩ acts
  constructor
  · rintro ⟨hgood, -⟩
    exact hexact.mp hgood
  · intro hcaught
    have hgood := hexact.mpr hcaught
    exact ⟨hgood, fun hfair t => fired_leadsTo_started hfair hgood t⟩

/-- A schedule that starts with the given actions; then nothing more is received. -/
def scheduleOf (as : List (Action τ)) (k : Nat) : Action τ :=
  (as[k]?).getD .start

/-- The callback of one fire. -/
def fireAll (t : τ) : List (Action τ) :=
  [.fire t, .send, .clear]

/--
While the work of one timer takes its time, that timer fires 16 times more: its messages
fill the queue, and the fire of the other timer is lost.
-/
def slowWork : List (Action Bool) :=
  fireAll false ++ [.receive, .start] ++ (List.replicate 16 (fireAll false)).flatten ++
    [.fire true, .send]

theorem not_coalesces_slowWork :
    (Fintype.card Bool ≤ 16 ∧ ¬ Coalesces (fun _ => .periodic) 16 (scheduleOf slowWork)) ∧
      (states (fun _ => .periodic) 16 (scheduleOf slowWork) 55).callback = .refused true ∧
      (states (fun _ => .periodic) 16 (scheduleOf slowWork) 55).queue = List.replicate 16 false := by
  have hrefused : (states (fun _ => .periodic) 16 (scheduleOf slowWork) 55).callback =
      .refused true := by
    decide +kernel
  refine ⟨⟨by decide, fun hgood => (hgood.1 55).2 true hrefused⟩, hrefused, ?_⟩
  decide +kernel

theorem coalesces_iff_two_timers :
    Fintype.card Bool ≤ 16 ∧
      (Coalesces (fun _ => .periodic) 16 (scheduleOf slowWork) ↔
        ∀ k, Caught (states (fun _ => .periodic) 16 (scheduleOf slowWork) k)
          (scheduleOf slowWork k)) :=
  ⟨by decide, coalesces_iff _ _ (by decide)⟩

end Progress

end Timer
end Breadboard
