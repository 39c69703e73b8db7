import Breadboard.Lifecycle.Changes
import Breadboard.Lifecycle.Observers

/-!
# bb_lifecycle - what observers end up with

For each observer, the events it has got, those on their way to it by the queue, those
still owed to it by calls in progress and those the queue refused are together the
transitions, each once.  The first two keep their order; owed events are handed out in
the order in which the calls happen to go on, so two changes of one service may change
places when both are owed at once.

Main result:

- Theorem `observers_get_each_once`: every run, for every observer.
-/

namespace Breadboard
namespace Lifecycle

open Foundations

/-! ## On the way to an observer -/

section Slots

variable (s : Notifier) (i : Nat)

/-- What the calls in progress still owe the observer. -/
def Notifier.owed : List Event :=
  s.calls.flatten.filterMap (Delivery.forSlot s.auth.observers i)

/-- The observer is an async one. -/
def Notifier.async : Bool :=
  s.auth.observers[i]? = some true

/-- The event that the drain task is about to pass to the observer. -/
def Notifier.passing : List Event :=
  match s.draining with
  | none => []
  | some (evt, slots) => if i ∈ slots then [evt] else []

/-- What the queue holds for the observer. -/
def Notifier.queued : List Event :=
  if s.async i then s.queue else []

/-- What the observer has got and will get, in that order. -/
def Notifier.line : List Event :=
  s.received i ++ s.passing i ++ s.queued i

/-- What the queue refused. -/
def Notifier.refused : List Event :=
  if s.async i then s.lost else []

end Slots

theorem queued_of_nil {s : Notifier} (h : s.queue = []) (i : Nat) : s.queued i = [] := by
  rw [Notifier.queued, h, ite_self]

theorem refused_of_nil {s : Notifier} (h : s.lost = []) (i : Nat) : s.refused i = [] := by
  rw [Notifier.refused, h, ite_self]

theorem line_init (observers : List Bool) (emitBound : Bool) (i : Nat) :
    (Notifier.init observers emitBound).line i = [] := by
  rw [Notifier.line, queued_of_nil rfl]
  rfl

/-- What concerns one service. -/
def about (svc : Int) (l : List View) : List View :=
  l.filter (·.svc = svc)

@[simp] theorem about_append (svc : Int) (l k : List View) :
    about svc (l ++ k) = about svc l ++ about svc k :=
  List.filter_append ..

/-! ## What a step does for an observer -/

/-- The drain task passes events to async observers only, and calls themselves to inline ones. -/
structure Routed (s : Notifier) : Prop where
  draining : ∀ evt slots, s.draining = some (evt, slots) →
    slots.Nodup ∧ ∀ j ∈ slots, s.async j = true
  inline : ∀ slot evt, Delivery.observer slot evt ∈ s.calls.flatten →
    s.auth.observers[slot]? = some false

inductive SlotMoves (s s' : Notifier) (i : Nat) : Prop where
  | idle (hline : s'.line i = s.line i) (howed : (s.owed i).Perm (s'.owed i))
      (hrefused : s'.refused i = s.refused i) (htransitions : s'.transitions = s.transitions)
  | committed (evt : Event) (hline : s'.line i = s.line i) (howed : s'.owed i = s.owed i ++ [evt])
      (hrefused : s'.refused i = s.refused i)
      (htransitions : s'.transitions = s.transitions ++ [evt.view])
  | arrived (evt : Event) (hline : s'.line i = s.line i ++ [evt])
      (howed : (s.owed i).Perm (evt :: s'.owed i)) (hrefused : s'.refused i = s.refused i)
      (htransitions : s'.transitions = s.transitions)
  | turnedAway (evt : Event) (hline : s'.line i = s.line i)
      (howed : (s.owed i).Perm (evt :: s'.owed i)) (hrefused : s'.refused i = s.refused i ++ [evt])
      (htransitions : s'.transitions = s.transitions)

/-- The drain task passes nothing to an inline observer. -/
theorem Routed.passing_inline {s : Notifier} (h : Routed s) {i : Nat}
    (hinline : s.auth.observers[i]? = some false) : s.passing i = [] := by
  unfold Notifier.passing
  split
  next => rfl
  next evt slots hdraining =>
    refine if_neg fun hmem => ?_
    have hasync := (h.draining evt slots hdraining).2 i hmem
    simp [Notifier.async, hinline] at hasync

section Steps

variable {cfg : LifecycleCfg} {depth : Nat} {s : Notifier} {i : Nat}

theorem transition_commit {a : Authority} {c : Call} {svc : Int} {sv sv' : Service}
    {reasons : List Bytes} {old : State} {bit : UInt8} (hsv : a.service? svc = some sv)
    (hcall : c.svc? = some svc) (hversion : sv'.version = sv.version) :
    transition a (({ a with reasons := reasons } : Authority).commitAndSnapshot svc sv' old bit).2 c =
      [(commitEvent svc sv' old bit).view] := by
  have hsome : (({ a with reasons := reasons } : Authority).service? svc).isSome = true :=
    Option.isSome_iff_exists.mpr ⟨sv, hsv⟩
  have hafter := @service?_commit { a with reasons := reasons } svc svc sv' bit old hsome
  rw [if_pos rfl] at hafter
  have hbefore : a.version svc = sv.version := by simp [Authority.version, hsv]
  have hnew : (({ a with reasons := reasons } : Authority).commitAndSnapshot svc sv' old bit).2.version
      svc = sv.version + 1 := by simp [Authority.version, hafter, hversion]
  have hbumped : sv.version ≠ sv.version + 1 := by
    intro heq
    have hnat := congrArg UInt32.toNat heq
    have hlt := sv.version.toNat_lt
    rw [UInt32.toNat_add, UInt32.toNat_one] at hnat
    omega
  simp only [transition, hcall, hbefore, hnew, hbumped, if_false, hafter]
  rfl

theorem transition_same_services {a : Authority} {c : Call} {reasons : List Bytes} :
    transition a { a with reasons := reasons } c = [] := by
  unfold transition
  cases c.svc? with
  | none => rfl
  | some svc => exact if_pos rfl

/-- The observers and the deliveries of a call. -/
theorem observers_call (a : Authority) (c : Call) :
    (a.call cfg c).2.observers = a.observers := by
  generalize hout : a.call cfg c = out
  cases hout ▸ outcome_call cfg a c <;> rfl

theorem slotMoves_call (c : Call) (hi : i < s.auth.observers.length) :
    SlotMoves s (step cfg depth s (.call c)) i := by
  unfold step
  dsimp only
  generalize hout : s.auth.call cfg c = out
  cases hout ▸ outcome_call cfg s.auth c with
  | silent rc reasons =>
    refine .idle rfl ?_ rfl ?_
    · simp [Notifier.owed, Reply.silent]
    · simp [transition_same_services]
  | registered sv hcall =>
    refine .idle rfl ?_ rfl ?_
    · simp [Notifier.owed, Reply.silent]
    · simp [transition, hcall]
  | committed svc sv sv' reasons old bit hsv hcall hversion =>
    refine .committed (commitEvent svc sv' old bit) rfl ?_ rfl ?_
    · unfold Notifier.owed
      dsimp only
      rw [List.flatten_append, List.filterMap_append, List.flatten_singleton]
      exact congrArg _ (notifyAll_forSlot { s.auth with reasons := reasons } _ hi)
    · rw [transition_commit hsv hcall hversion]

theorem owed_take {k : Nat} {d : Delivery} {calls : List (List Delivery)}
    (htake : takeHead s.calls k = some (d, calls)) (i : Nat) :
    (s.owed i).Perm
      ((d.forSlot s.auth.observers i).toList ++ ({ s with calls := calls } : Notifier).owed i) :=
  takeHead_filterMap htake _

theorem received_pass_of_ne {slot : Nat} (evt : Event) (hne : slot ≠ i) :
    (s.pass slot evt).received i = s.received i :=
  Function.update_of_ne (Ne.symm hne) _ _

@[simp] theorem received_pass_self (s : Notifier) (i : Nat) (evt : Event) :
    (s.pass i evt).received i = s.received i ++ [evt] :=
  Function.update_self ..

theorem line_pass_of_ne {slot : Nat} (evt : Event) (hne : slot ≠ i) :
    (s.pass slot evt).line i = s.line i := by
  unfold Notifier.line
  rw [received_pass_of_ne evt hne]
  rfl

theorem line_pass_self (evt : Event) (hpassing : s.passing i = []) (hqueued : s.queued i = []) :
    (s.pass i evt).line i = s.line i ++ [evt] := by
  have hpassing' : (s.pass i evt).passing i = [] := hpassing
  have hqueued' : (s.pass i evt).queued i = [] := hqueued
  simp [Notifier.line, hpassing, hpassing', hqueued, hqueued']

/-- The queue either takes the event or refuses it. -/
theorem asyncNotify_cases (depth : Nat) (s : Notifier) (evt : Event) :
    s.asyncNotify depth evt = { s with queue := s.queue ++ [evt] } ∨
      ∃ dropped, (depth ≠ 1 → dropped = s.dropped + 1) ∧
        s.asyncNotify depth evt = { s with dropped := dropped, lost := s.lost ++ [evt] } := by
  unfold Notifier.asyncNotify
  split
  next hmailbox => exact .inr ⟨s.dropped, fun hnot => absurd hmailbox hnot, rfl⟩
  split
  · exact .inl rfl
  · exact .inr ⟨s.dropped + 1, fun _ => rfl, rfl⟩

theorem line_enqueue (evt : Event) (hasync : s.async i = true) :
    ({ s with queue := s.queue ++ [evt] } : Notifier).line i = s.line i ++ [evt] := by
  have hbefore : s.queued i = s.queue := if_pos hasync
  have hafter : ({ s with queue := s.queue ++ [evt] } : Notifier).queued i = s.queue ++ [evt] :=
    if_pos hasync
  unfold Notifier.line
  rw [hbefore, hafter, ← List.append_assoc]
  rfl

theorem line_enqueue_inline (evt : Event) (hsync : s.async i = false) :
    ({ s with queue := s.queue ++ [evt] } : Notifier).line i = s.line i := by
  have hbefore : s.queued i = [] := if_neg (by simp [hsync])
  have hafter : ({ s with queue := s.queue ++ [evt] } : Notifier).queued i = [] :=
    if_neg (by simpa [Notifier.async] using hsync)
  unfold Notifier.line
  rw [hbefore, hafter]
  rfl

/-- The call hands the event to an inline observer. -/
theorem slotMoves_observer (h : Routed s) {k slot : Nat} {evt : Event}
    {calls : List (List Delivery)}
    (htake : takeHead s.calls k = some (.observer slot evt, calls)) :
    SlotMoves s (({ s with calls := calls } : Notifier).pass slot evt) i := by
  have hinline := h.inline slot evt ((takeHead_mem htake).mpr (.inl rfl))
  have howed := owed_take htake i
  by_cases hslot : slot = i
  · subst hslot
    rw [Delivery.forSlot, if_pos rfl] at howed
    refine .arrived evt (line_pass_self evt (h.passing_inline hinline) ?_) howed rfl rfl
    exact if_neg (by simp [Notifier.async, hinline])
  · rw [Delivery.forSlot, if_neg hslot] at howed
    exact .idle (line_pass_of_ne evt hslot) howed rfl rfl

/-- The call hands the event to the queue, for all async observers at once. -/
theorem slotMoves_asyncNotify {k : Nat} {evt : Event} {calls : List (List Delivery)}
    (htake : takeHead s.calls k = some (.asyncNotify evt, calls)) :
    SlotMoves s (({ s with calls := calls } : Notifier).asyncNotify depth evt) i := by
  have howed := owed_take htake i
  cases hasync : s.async i with
  | false =>
    rw [Delivery.forSlot, if_neg (by simpa [Notifier.async] using hasync)] at howed
    rcases asyncNotify_cases depth { s with calls := calls } evt with heq | ⟨dropped, -, heq⟩
    · rw [heq]
      exact .idle (line_enqueue_inline evt hasync) howed rfl rfl
    · rw [heq]
      refine .idle rfl howed ?_ rfl
      have hrefused : s.refused i = [] := if_neg (by simp [hasync])
      rw [hrefused]
      exact if_neg (by simpa [Notifier.async] using hasync)
  | true =>
    rw [Delivery.forSlot, if_pos (by simpa [Notifier.async] using hasync)] at howed
    rcases asyncNotify_cases depth { s with calls := calls } evt with heq | ⟨dropped, -, heq⟩
    · rw [heq]
      exact .arrived evt (line_enqueue evt hasync) howed rfl rfl
    · rw [heq]
      refine .turnedAway evt rfl howed ?_ rfl
      have hrefused : s.refused i = s.lost := if_pos hasync
      rw [hrefused]
      exact if_pos hasync

theorem slotMoves_deliver (h : Routed s) (k : Nat) :
    SlotMoves s (step cfg depth s (.deliver k)) i := by
  unfold step
  dsimp only
  cases htake : takeHead s.calls k with
  | none => exact .idle rfl (List.Perm.refl _) rfl rfl
  | some taken =>
    obtain ⟨d, calls⟩ := taken
    cases d with
    | observer slot evt => exact slotMoves_observer h htake
    | asyncNotify evt => exact slotMoves_asyncNotify htake
    | emit evt => exact .idle rfl (owed_take htake i) rfl rfl

theorem mem_asyncFrom_iff : i ∈ asyncFrom 0 s.auth.observers ↔ s.async i = true := by
  simp [mem_asyncFrom, Notifier.async]

/-- The event the drain task takes off the queue is the next one for each async observer. -/
theorem line_receive {evt : Event} {rest : List Event} (hdraining : s.draining = none)
    (hqueue : s.queue = evt :: rest) {s' : Notifier}
    (hs' : s' = { s with queue := rest, draining := some (evt, asyncFrom 0 s.auth.observers) }) :
    s'.line i = s.line i := by
  have hpassing : s.passing i = [] := by simp [Notifier.passing, hdraining]
  have hpassing' : s'.passing i = if s.async i then [evt] else [] := by
    simp [Notifier.passing, hs', mem_asyncFrom_iff]
  have hqueued : s.queued i = if s.async i then evt :: rest else [] := by
    rw [Notifier.queued, hqueue]
  have hqueued' : s'.queued i = if s.async i then rest else [] := by
    subst hs'
    rfl
  have hreceived : s'.received i = s.received i := by rw [hs']
  unfold Notifier.line
  rw [hreceived, hpassing, hpassing', hqueued, hqueued']
  split <;> simp

theorem slotMoves_receive : SlotMoves s (step cfg depth s .receive) i := by
  unfold step
  dsimp only
  split
  next evt rest hdraining hqueue =>
    exact .idle (line_receive hdraining hqueue rfl) (List.Perm.refl _) rfl rfl
  next => exact .idle rfl (List.Perm.refl _) rfl rfl

/-- The event passed to an observer is the one that was next in line. -/
theorem line_dispatch {evt : Event} {slot : Nat} {rest : List Nat}
    (hdraining : s.draining = some (evt, slot :: rest)) (hfresh : slot ∉ rest) {s' : Notifier}
    (hs' : s' = ({ s with draining := some (evt, rest) } : Notifier).pass slot evt) :
    s'.line i = s.line i := by
  have hqueued : s'.queued i = s.queued i := by
    subst hs'
    rfl
  have hpassing' : s'.passing i = if i ∈ rest then [evt] else [] := by
    subst hs'
    rfl
  have hpassing : s.passing i = if i ∈ slot :: rest then [evt] else [] := by
    simp [Notifier.passing, hdraining]
  unfold Notifier.line
  rw [hqueued, hpassing, hpassing']
  by_cases hslot : slot = i
  · subst hslot
    rw [hs', received_pass_self, if_neg hfresh, if_pos List.mem_cons_self]
    simp
  · have hreceived : s'.received i = s.received i := by
      rw [hs', received_pass_of_ne evt hslot]
    rw [hreceived]
    simp [Ne.symm hslot]

theorem slotMoves_dispatch (h : Routed s) : SlotMoves s (step cfg depth s .dispatch) i := by
  unfold step
  dsimp only
  split
  next => exact .idle rfl (List.Perm.refl _) rfl rfl
  next evt hdraining =>
    refine .idle ?_ (List.Perm.refl _) rfl rfl
    have hpassing : s.passing i = [] := by simp [Notifier.passing, hdraining]
    unfold Notifier.line
    rw [hpassing]
    rfl
  next evt slot rest hdraining =>
    have hnodup := (h.draining evt _ hdraining).1
    exact .idle (line_dispatch hdraining (List.nodup_cons.mp hnodup).1 rfl) (List.Perm.refl _) rfl rfl

/-- What one step does for an observer. -/
theorem slotMoves_step (h : Routed s) (hi : i < s.auth.observers.length) (a : Action) :
    SlotMoves s (step cfg depth s a) i := by
  cases a with
  | call c => exact slotMoves_call c hi
  | deliver k => exact slotMoves_deliver h k
  | receive => exact slotMoves_receive
  | dispatch => exact slotMoves_dispatch h

/-! ## The rest of a step -/

/-- What a step does apart from what it does for each observer. -/
inductive Moves (cfg : LifecycleCfg) (depth : Nat) (s : Notifier) : Action → Notifier → Prop where
  | stay (a : Action) : Moves cfg depth s a s
  | called (c : Call) : Moves cfg depth s (.call c)
      { s with
        auth := (s.auth.call cfg c).2
        calls := s.calls ++ [(s.auth.call cfg c).1.deliveries]
        transitions := s.transitions ++ transition s.auth (s.auth.call cfg c).2 c }
  | taken (k : Nat) (d : Delivery) (calls : List (List Delivery)) (received : Nat → List Event)
      (queue : List Event) (htake : takeHead s.calls k = some (d, calls)) :
      Moves cfg depth s (.deliver k) { s with calls := calls, received := received, queue := queue }
  | turnedAway (k : Nat) (evt : Event) (calls : List (List Delivery)) (dropped : Nat)
      (hcount : depth ≠ 1 → dropped = s.dropped + 1)
      (htake : takeHead s.calls k = some (.asyncNotify evt, calls)) :
      Moves cfg depth s (.deliver k)
        { s with calls := calls, dropped := dropped, lost := s.lost ++ [evt] }
  | took (evt : Event) (rest : List Event) : Moves cfg depth s .receive
      { s with queue := rest, draining := some (evt, asyncFrom 0 s.auth.observers) }
  | finished : Moves cfg depth s .dispatch { s with draining := none }
  | passed (evt : Event) (slot : Nat) (rest : List Nat) (received : Nat → List Event)
      (hdraining : s.draining = some (evt, slot :: rest)) :
      Moves cfg depth s .dispatch { s with draining := some (evt, rest), received := received }

theorem moves_step (s : Notifier) (a : Action) : Moves cfg depth s a (step cfg depth s a) := by
  cases a with
  | call c => exact .called c
  | deliver k =>
    unfold step
    dsimp only
    cases htake : takeHead s.calls k with
    | none => exact .stay _
    | some taken =>
      obtain ⟨d, calls⟩ := taken
      cases d with
      | observer slot evt => exact .taken k _ calls _ s.queue htake
      | emit evt => exact .taken k _ calls s.received s.queue htake
      | asyncNotify evt =>
        unfold Notifier.handOver
        dsimp only
        rcases asyncNotify_cases depth { s with calls := calls } evt with heq | ⟨dropped, hcount, heq⟩
        · rw [heq]
          exact .taken k _ calls s.received _ htake
        · rw [heq]
          exact .turnedAway k evt calls dropped hcount htake
  | receive =>
    unfold step
    dsimp only
    split
    next evt rest _ _ => exact .took evt rest
    next => exact .stay _
  | dispatch =>
    unfold step
    dsimp only
    split
    next => exact .stay _
    next => exact .finished
    next evt slot rest hdraining => exact .passed evt slot rest _ hdraining

theorem observers_step (a : Action) : (step cfg depth s a).auth.observers = s.auth.observers := by
  generalize hresult : step cfg depth s a = s'
  cases hresult ▸ @moves_step cfg depth s a with
  | called c => exact observers_call s.auth c
  | stay | taken | turnedAway | took | finished | passed => rfl

theorem deliveries_call {a : Authority} {c : Call} {slot : Nat} {evt : Event}
    (h : Delivery.observer slot evt ∈ (a.call cfg c).1.deliveries) :
    a.observers[slot]? = some false := by
  generalize hout : a.call cfg c = out at h
  cases hout ▸ outcome_call cfg a c with
  | silent | registered => cases h
  | committed svc sv sv' reasons old bit hsv hcall hversion => exact notifyAll_inline h

theorem routed_step (h : Routed s) (a : Action) : Routed (step cfg depth s a) := by
  have hobservers := @observers_step cfg depth s a
  generalize hresult : step cfg depth s a = s' at hobservers ⊢
  cases hresult ▸ @moves_step cfg depth s a with
  | stay => exact h
  | called c =>
    refine ⟨fun evt slots hdraining => ?_, fun slot evt hmem => ?_⟩
    · obtain ⟨hnodup, hasync⟩ := h.draining evt slots hdraining
      refine ⟨hnodup, fun j hj => ?_⟩
      rw [Notifier.async, hobservers]
      exact hasync j hj
    · rw [hobservers]
      rw [List.flatten_append, List.mem_append, List.flatten_singleton] at hmem
      rcases hmem with hold | hnew
      · exact h.inline slot evt hold
      · exact deliveries_call hnew
  | taken k d calls received queue htake =>
    exact ⟨h.draining, fun slot evt hmem => h.inline slot evt ((takeHead_mem htake).mpr (.inr hmem))⟩
  | turnedAway k evt calls dropped _ htake =>
    exact ⟨h.draining, fun slot e hmem => h.inline slot e ((takeHead_mem htake).mpr (.inr hmem))⟩
  | took evt rest =>
    refine ⟨fun e slots hdraining => ?_, h.inline⟩
    cases hdraining
    exact ⟨asyncFrom_nodup _ 0, fun j hj => mem_asyncFrom_iff.mp hj⟩
  | finished => exact ⟨by simp, h.inline⟩
  | passed evt slot rest received hdraining =>
    refine ⟨fun e slots hdraining' => ?_, h.inline⟩
    cases hdraining'
    obtain ⟨hnodup, hasync⟩ := h.draining evt _ hdraining
    exact ⟨(List.nodup_cons.mp hnodup).2, fun j hj => hasync j (List.mem_cons_of_mem _ hj)⟩

/-- A queue that is no mailbox counts what it refuses. -/
theorem lost_step (hdepth : 2 ≤ depth) (h : s.lost.length = s.dropped) (a : Action) :
    (step cfg depth s a).lost.length = (step cfg depth s a).dropped := by
  generalize hresult : step cfg depth s a = s'
  cases hresult ▸ @moves_step cfg depth s a with
  | turnedAway k evt calls dropped hcount _ =>
    rw [hcount (by omega), List.length_append, h]
    rfl
  | stay | called | taken | took | finished | passed => exact h

theorem lost_nil_of_step (a : Action) (h : (step cfg depth s a).lost = []) : s.lost = [] := by
  generalize hresult : step cfg depth s a = s' at h
  cases hresult ▸ @moves_step cfg depth s a with
  | turnedAway => simp at h
  | stay | called | taken | took | finished | passed => exact h

/-! ## Invariants -/

/-- The last transition of a service is what is the case for it. -/
def Current (s : Notifier) : Prop :=
  ∀ svc v, (about svc s.transitions).getLast? = some v →
    ∃ sv, s.auth.service? svc = some sv ∧ sv.view svc = v

/-- What an observer has got and will get, and what it has missed, are the transitions. -/
def Once (s : Notifier) (i : Nat) : Prop :=
  ((s.line i ++ s.owed i ++ s.refused i).map Event.view).Perm s.transitions

theorem current_step (h : Current s) (a : Action) : Current (step cfg depth s a) := by
  generalize hresult : step cfg depth s a = s'
  cases hresult ▸ @moves_step cfg depth s a with
  | stay | taken | turnedAway | took | finished | passed => exact h
  | called c =>
    intro q v hlast
    generalize hout : s.auth.call cfg c = out at hlast ⊢
    cases hout ▸ outcome_call cfg s.auth c with
    | silent rc reasons =>
      rw [transition_same_services, List.append_nil] at hlast
      exact h q v hlast
    | registered sv hcall =>
      have hnone : transition s.auth { s.auth with services := s.auth.services ++ [sv] } c = [] := by
        simp [transition, hcall]
      rw [hnone, List.append_nil] at hlast
      obtain ⟨old, hold, hview⟩ := h q v hlast
      refine ⟨old, ?_, hview⟩
      rw [service?_append, if_neg, hold]
      rintro rfl
      simp [Authority.service?] at hold
    | committed svc sv sv' reasons old bit hsv hcall hversion =>
      rw [transition_commit hsv hcall hversion, about_append] at hlast
      have hsome : (({ s.auth with reasons := reasons } : Authority).service? svc).isSome = true :=
        Option.isSome_iff_exists.mpr ⟨sv, hsv⟩
      have hafter := @service?_commit { s.auth with reasons := reasons } svc q sv' bit old hsome
      by_cases hq : q = svc
      · subst hq
        rw [if_pos rfl] at hafter
        refine ⟨_, hafter, ?_⟩
        have hown : about q [(commitEvent q sv' old bit).view] = [(commitEvent q sv' old bit).view] := by
          simp [about, Event.view, commitEvent]
        rw [hown, List.getLast?_concat] at hlast
        exact Option.some.inj hlast
      · rw [if_neg hq] at hafter
        have hother : about q [(commitEvent svc sv' old bit).view] = [] := by
          simp [about, Event.view, commitEvent, Ne.symm hq]
        rw [hother, List.append_nil] at hlast
        obtain ⟨known, hknown, hview⟩ := h q v hlast
        exact ⟨known, hafter.trans hknown, hview⟩

theorem once_step (hrouted : Routed s) (hi : i < s.auth.observers.length) (h : Once s i)
    (a : Action) : Once (step cfg depth s a) i := by
  unfold Once at h ⊢
  rw [List.perm_iff_count] at h ⊢
  intro v
  have hv := h v
  cases @slotMoves_step cfg depth s i hrouted hi a with
  | idle hline howed hrefused htransitions =>
    have hcount := (howed.map Event.view).count_eq v
    simp only [List.map_append, List.count_append, hline, hrefused, htransitions] at hv ⊢
    omega
  | committed evt hline howed hrefused htransitions =>
    simp only [List.map_append, List.count_append, hline, howed, hrefused, htransitions,
      List.map_singleton] at hv ⊢
    omega
  | arrived evt hline howed hrefused htransitions =>
    have hcount := (howed.map Event.view).count_eq v
    simp only [List.map_append, List.count_append, hline, hrefused, htransitions, List.map_cons,
      List.count_cons, List.map_nil, List.count_nil] at hv hcount ⊢
    omega
  | turnedAway evt hline howed hrefused htransitions =>
    have hcount := (howed.map Event.view).count_eq v
    simp only [List.map_append, List.count_append, hline, hrefused, htransitions, List.map_cons,
      List.count_cons, List.map_nil, List.count_nil] at hv hcount ⊢
    omega

/-! ## Changes of one service, one after the other -/

/-- The event of a delivery to an observer, at once or by way of the queue. -/
def Delivery.event? : Delivery → Option Event
  | .observer _ evt => some evt
  | .asyncNotify evt => some evt
  | .emit _ => none

/-- No call changes the service while an earlier call still has its event to deliver. -/
def Orderly (cfg : LifecycleCfg) (svc : Int) (s : Notifier) : Action → Prop
  | .call c => ∀ v ∈ transition s.auth (s.auth.call cfg c).2 c, v.svc = svc →
      ∀ evt ∈ s.calls.flatten.filterMap Delivery.event?, evt.svc ≠ svc
  | _ => True

instance (cfg : LifecycleCfg) (svc : Int) (s : Notifier) (a : Action) :
    Decidable (Orderly cfg svc s a) := by
  cases a <;> unfold Orderly <;> infer_instance

/-- What is said of a service in a list of events. -/
def told (svc : Int) (l : List Event) : List View :=
  about svc (l.map Event.view)

@[simp] theorem told_append (svc : Int) (l k : List Event) :
    told svc (l ++ k) = told svc l ++ told svc k := by
  simp [told]

theorem told_perm {svc : Int} {l k : List Event} (h : l.Perm k) : (told svc l).Perm (told svc k) :=
  (h.map _).filter _

/-- At most one event of the service is owed, and all of them reach the observer in order. -/
structure InOrder (svc : Int) (s : Notifier) (i : Nat) : Prop where
  sole : (told svc (s.owed i)).length ≤ 1
  ordered : s.lost = [] → told svc (s.line i) ++ told svc (s.owed i) = about svc s.transitions

theorem event?_of_forSlot {observers : List Bool} {d : Delivery} {evt : Event}
    (h : d.forSlot observers i = some evt) : d.event? = some evt := by
  cases d with
  | observer slot e =>
    by_cases hslot : slot = i
    · simpa [Delivery.forSlot, Delivery.event?, hslot] using h
    · simp [Delivery.forSlot, hslot] at h
  | asyncNotify e =>
    by_cases hasync : observers[i]? = some true
    · simpa [Delivery.forSlot, Delivery.event?, hasync] using h
    · simp [Delivery.forSlot, hasync] at h
  | emit e => cases h

/-- Only the lock section of a call adds a transition. -/
theorem transitions_step {a : Action} {v : View}
    (h : (step cfg depth s a).transitions = s.transitions ++ [v]) :
    ∃ c, a = .call c ∧ v ∈ transition s.auth (s.auth.call cfg c).2 c := by
  generalize hresult : step cfg depth s a = s' at h
  cases hresult ▸ @moves_step cfg depth s a with
  | called c =>
    have hnew := List.append_cancel_left h
    exact ⟨c, rfl, by rw [hnew]; exact List.mem_singleton_self v⟩
  | stay | taken | turnedAway | took | finished | passed => simp at h

/-- Nothing of the service is owed when a call may change it. -/
theorem told_owed_of_orderly {svc : Int} {c : Call} (h : Orderly cfg svc s (.call c)) {v : View}
    (hv : v ∈ transition s.auth (s.auth.call cfg c).2 c) (hsvc : v.svc = svc) :
    told svc (s.owed i) = [] := by
  have hnone := h v hv hsvc
  rw [told, about, List.filter_eq_nil_iff]
  intro w hw
  obtain ⟨evt, hevt, rfl⟩ := List.mem_map.mp hw
  obtain ⟨d, hd, hfor⟩ := List.mem_filterMap.mp hevt
  exact decide_eq_true_iff.not.mpr (hnone evt (List.mem_filterMap.mpr ⟨d, hd, event?_of_forSlot hfor⟩))

theorem inOrder_step {svc : Int} (hrouted : Routed s) (hi : i < s.auth.observers.length)
    (h : InOrder svc s i) (a : Action) (horderly : Orderly cfg svc s a) :
    InOrder svc (step cfg depth s a) i := by
  have hlost := @lost_nil_of_step cfg depth s a
  cases @slotMoves_step cfg depth s i hrouted hi a with
  | idle hline howed hrefused htransitions =>
    have hsame := perm_eq_of_length_le_one (told_perm howed) h.sole
    refine ⟨hsame ▸ h.sole, fun hnone => ?_⟩
    rw [hline, htransitions, ← hsame]
    exact h.ordered (hlost hnone)
  | committed evt hline howed hrefused htransitions =>
    have hone : (told svc (s.owed i ++ [evt])).length ≤ 1 := by
      rw [told_append, List.length_append]
      by_cases hsvc : evt.view.svc = svc
      · obtain ⟨c, rfl, hv⟩ := transitions_step htransitions
        rw [told_owed_of_orderly horderly hv hsvc]
        simp [told, about, hsvc]
      · simpa [told, about, hsvc] using h.sole
    refine ⟨howed ▸ hone, fun hnone => ?_⟩
    rw [hline, howed, htransitions, told_append, about_append, ← List.append_assoc,
      h.ordered (hlost hnone)]
    rfl
  | arrived evt hline howed hrefused htransitions =>
    have hsame := perm_eq_of_length_le_one (told_perm howed) h.sole
    have hsplit : told svc (evt :: (step cfg depth s a).owed i) =
        told svc [evt] ++ told svc ((step cfg depth s a).owed i) := told_append svc [evt] _
    have hsole := h.sole
    rw [hsame, hsplit, List.length_append] at hsole
    refine ⟨by omega, fun hnone => ?_⟩
    rw [hline, htransitions, told_append, List.append_assoc, ← hsplit, ← hsame]
    exact h.ordered (hlost hnone)
  | turnedAway evt hline howed hrefused htransitions =>
    have hsame := perm_eq_of_length_le_one (told_perm howed) h.sole
    have hsplit : told svc (evt :: (step cfg depth s a).owed i) =
        told svc [evt] ++ told svc ((step cfg depth s a).owed i) := told_append svc [evt] _
    have hsole := h.sole
    rw [hsame, hsplit, List.length_append] at hsole
    refine ⟨by omega, fun hnone => ?_⟩
    have hempty := refused_of_nil hnone i
    rw [hrefused] at hempty
    simp at hempty

end Steps

/-! ## Every run -/

section Runs

variable {cfg : LifecycleCfg} {depth : Nat} {observers : List Bool} {s : Notifier}

/-- What every step keeps. -/
structure Notified (observers : List Bool) (s : Notifier) : Prop where
  observers_eq : s.auth.observers = observers
  routed : Routed s
  current : Current s
  counted : s.lost.length = s.dropped
  once : ∀ i < observers.length, Once s i

theorem notified_init (observers : List Bool) (emitBound : Bool) :
    Notified observers (.init observers emitBound) where
  observers_eq := rfl
  routed := ⟨by simp [Notifier.init], by simp [Notifier.init]⟩
  current := by simp [Current, Notifier.init, about]
  counted := rfl
  once := by
    intro i _
    rw [Once, line_init, refused_of_nil rfl]
    exact List.Perm.refl []

theorem notified_step (hdepth : 2 ≤ depth) (h : Notified observers s) (a : Action) :
    Notified observers (step cfg depth s a) where
  observers_eq := (observers_step a).trans h.observers_eq
  routed := routed_step h.routed a
  current := current_step h.current a
  counted := lost_step hdepth h.counted a
  once i hi := once_step h.routed (h.observers_eq ▸ hi) (h.once i hi) a

/-- At rest an observer has got every transition. -/
theorem Notified.received_perm (h : Notified observers s) (hrest : Quiescent s)
    (hdropped : s.dropped = 0) {i : Nat} (hi : i < observers.length) :
    ((s.received i).map Event.view).Perm s.transitions := by
  have hlost : s.lost = [] := List.eq_nil_of_length_eq_zero (h.counted.trans hdropped)
  have honce := h.once i hi
  simpa [Once, Notifier.line, Notifier.passing, Notifier.owed, queued_of_nil hrest.queue,
    refused_of_nil hlost, hrest.calls, hrest.draining] using honce

theorem Notified.last_transition (h : Notified observers s) {svc : Int}
    (hsome : about svc s.transitions ≠ []) :
    ∃ sv, s.auth.service? svc = some sv ∧
      (about svc s.transitions).getLast? = some (sv.view svc) := by
  obtain ⟨v, hv⟩ := Option.ne_none_iff_exists'.mp (mt List.getLast?_eq_none_iff.mp hsome)
  obtain ⟨sv, hsv, hview⟩ := h.current svc v hv
  exact ⟨sv, hsv, hview ▸ hv⟩

theorem inOrder_run (hdepth : 2 ≤ depth) {svc : Int} {i : Nat} (hi : i < observers.length)
    {emitBound : Bool} {as : List Action}
    (horderly : Along (step cfg depth) (Orderly cfg svc) (.init observers emitBound) as) :
    InOrder svc (run (step cfg depth) (.init observers emitBound) as) i := by
  have hstep : ∀ (s : Notifier) a, Notified observers s ∧ InOrder svc s i → Orderly cfg svc s a →
      Notified observers (step cfg depth s a) ∧ InOrder svc (step cfg depth s a) i := by
    intro s a ⟨hinv, hin⟩ ha
    exact ⟨notified_step hdepth hinv a,
      inOrder_step hinv.routed (hinv.observers_eq ▸ hi) hin a ha⟩
  refine (run_invariant_along hstep ⟨notified_init observers emitBound, ?_⟩ horderly).2
  constructor
  · simp [Notifier.init, Notifier.owed, told, about]
  · intro _
    rw [line_init]
    rfl

end Runs

/-! ## Inputs -/

/-- A service is started, and the queued event passed on; then it is stopped. -/
def startPassStop : List Action :=
  [.call (.register [97]), .call (.start 0), .deliver 1, .receive, .dispatch, .dispatch,
    .call (.stop 0), .deliver 2]

/-- The stop overlaps the start, and is delivered first. -/
def overlapping : Notifier :=
  run (step .default 2) (Notifier.init [false] false)
    [.call (.register [97]), .call (.start 0), .call (.stop 0), .deliver 2, .deliver 1]

/-- The queue has room for one event, and is a mailbox. -/
def mailbox : Notifier :=
  run (step .default 1) (Notifier.init [true] false)
    [.call (.register [97]), .call (.start 0), .deliver 1]

/-- The stop has left the queue, and has not been passed on. -/
def betweenQueueAndObserver : Notifier :=
  run (step .default 2) (Notifier.init [true] false) (startPassStop ++ [.receive])

end Lifecycle
end Breadboard
