import Breadboard.ButtonEvents.Machine
import Breadboard.Foundations.Runs
import Breadboard.Foundations.SerialNumber

/-!
# bb_button_events - what the gestures say about the presses

A ledger is kept beside a run: every press with its release and with the number of clicks and
double clicks it has been part of.  A click is credited to the last press, a double click to
the last two.  The log and the ledger have their newest entry first.

A press that comes after the window of a click, with no tick in between, finds the machine in
`S_WAIT_DOUBLE`: the click is dropped and the press with it.

Main results:

- Theorem `gestures_account_along`: runs whose ticks keep up account for every press.
- Theorem `late_press_loses_both`: another run loses both clicks.
-/

namespace Breadboard
namespace ButtonEvents

open Foundations

/-! ## The ledger -/

/-- One press, and the gestures it has been part of. -/
structure Press where
  pressed : Nat
  released : Option Nat
  clicks : Nat
  doubles : Nat
  deriving Repr, DecidableEq

/-- The release has come within `click_max_ms`. -/
def Press.Short (d : Durations) (p : Press) : Prop :=
  ∃ r, p.released = some r ∧ r ≤ p.pressed + d.clickMaxMs.toNat

/-- The number of clicks and double clicks a press is part of. -/
def Press.gestures (p : Press) : Nat :=
  p.clicks + p.doubles

/-- An input and what it brought. -/
structure Step where
  input : Input
  out : List Event
  deriving Repr, DecidableEq

/-- A press is entered when it comes and closed when it is released. -/
def enter (ps : List Press) : Input → List Press
  | .press t => ⟨t, none, 0, 0⟩ :: ps
  | .release t => ps.modifyHead fun p => { p with released := some t }
  | .timer _ | .poll _ => ps

/-- A click is about the last press, a double click about the last two. -/
def credit (ps : List Press) : Kind → List Press
  | .click => ps.modifyHead fun p => { p with clicks := p.clicks + 1 }
  | .doubleClick =>
      match ps with
      | p :: q :: older =>
          { p with doubles := p.doubles + 1 } :: { q with doubles := q.doubles + 1 } :: older
      | _ => ps
  | _ => ps

/-- The presses of a log. -/
def ledger : List Step → List Press
  | [] => []
  | s :: past => (s.out.map Event.kind).foldl credit (enter (ledger past) s.input)

/-- The gestures of a log. -/
def kinds : List Step → List Kind
  | [] => []
  | s :: past => (s.out.map Event.kind).reverse ++ kinds past

/-- The time of the last edge. -/
def lastEvent : List Press → Nat
  | [] => 0
  | p :: _ => p.released.getD p.pressed

/-- The button is down. -/
def Down : List Press → Prop
  | [] => False
  | p :: _ => p.released = none

instance (ps : List Press) : Decidable (Down ps) :=
  match ps with
  | [] => inferInstanceAs (Decidable False)
  | p :: _ => inferInstanceAs (Decidable (p.released = none))

/-- A long press has been announced and not ended. -/
def inLongPress : List Kind → Bool
  | .longPressStart :: _ => true
  | .repeat_ :: ks => inLongPress ks
  | _ => false

/-! ## Runs -/

/-- The handle and what has happened to it. -/
structure Run where
  h : Handle
  log : List Step
  deriving Repr, DecidableEq

/-- One more input. -/
def Run.feed (r : Run) (i : Input) : Run :=
  ⟨(r.h.feed i).2, ⟨i, (r.h.feed i).1⟩ :: r.log⟩

/-- Presses and releases alternate, and no input is older than the last edge. -/
def Placed (ps : List Press) : Input → Prop
  | .press t => ¬ Down ps ∧ lastEvent ps ≤ t
  | .release t => Down ps ∧ lastEvent ps ≤ t
  | .timer t | .poll t => lastEvent ps ≤ t

instance (ps : List Press) (i : Input) : Decidable (Placed ps i) :=
  match i with
  | .press t => inferInstanceAs (Decidable (¬ Down ps ∧ lastEvent ps ≤ t))
  | .release t => inferInstanceAs (Decidable (Down ps ∧ lastEvent ps ≤ t))
  | .timer t | .poll t => inferInstanceAs (Decidable (lastEvent ps ≤ t))

/--
The ticks keep up with the edges: a press after a click finds the machine waiting for it just
when it comes within the window, a long press was not announced for a short one, and no interval
that the machine measures is longer than its clock.
-/
structure KeptUp (h : Handle) (ps : List Press) (i : Input) : Prop where
  press : ∀ t p older r, i = .press t → ps = p :: older → p.released = some r →
    p.Short h.toDurations → p.doubles = 0 →
    (h.state = .waitDouble ↔ t ≤ r + h.doubleClickWindowMs.toNat)
  release : ∀ t, i = .release t → h.state = .longHeld →
    lastEvent ps + h.clickMaxMs.toNat < t
  recent : h.state ≠ .idle → i.time < lastEvent ps + 2 ^ 32

/-! ## What is promised -/

/-- What one step brings, after the steps before it. -/
structure StepRight (d : Durations) (past : List Step) (s : Step) : Prop where
  double_iff : (∃ e ∈ s.out, e.kind = .doubleClick) ↔
    ∃ t p older r, s.input = .press t ∧ ledger past = p :: older ∧ p.released = some r ∧
      p.Short d ∧ p.doubles = 0 ∧ t ≤ r + d.doubleClickWindowMs.toNat
  held : ∀ e ∈ s.out, e.kind = .repeat_ →
    ∃ p older, ledger past = p :: older ∧ p.released = none ∧ p.pressed ≤ s.input.time ∧
      e.heldMs.toNat = s.input.time - p.pressed

/-- Every press with a short release is part of exactly one gesture. -/
def Settled (d : Durations) (ps : List Press) : Prop :=
  ∀ p ∈ ps, p.Short d → p.gestures = 1

/--
The gestures account for the presses.  Every press with a short release is part of exactly one
gesture, the last one as soon as the ticks have gone past its window; the log of gestures has
double clicks, long presses and repeats where they belong.
-/
structure Accounted (d : Durations) (r : Run) : Prop where
  every_press : ∀ p ∈ ledger r.log, p.Short d →
    p.gestures = 1 ∨
      (p.gestures = 0 ∧ r.h.state = .waitDouble ∧ ∃ older, ledger r.log = p :: older)
  after_timer : ∀ t, lastEvent (ledger r.log) + d.doubleClickWindowMs.toNat < t →
    t < lastEvent (ledger r.log) + 2 ^ 32 → Settled d (ledger (r.feed (.timer t)).log)
  after_polls : ∀ t₁ t₂, lastEvent (ledger r.log) + d.doubleClickWindowMs.toNat < t₁ →
    t₁ + d.tickPeriodMs.toNat ≤ t₂ → t₂ + d.tickPeriodMs.toNat ≤ t₁ + 2 ^ 32 →
    t₂ < lastEvent (ledger r.log) + 2 ^ 32 →
    Settled d (ledger ((r.feed (.poll t₁)).feed (.poll t₂)).log)
  steps : ∀ s past, (s :: past) <:+ r.log → StepRight d past s
  followed : ∀ later earlier, kinds r.log = later ++ .longPressStart :: earlier →
    (∃ n, later = List.replicate n .repeat_) ∨
      ∃ newer n, later = newer ++ .longPressEnd :: List.replicate n .repeat_
  between : ∀ later earlier k, kinds r.log = later ++ k :: earlier →
    (k = .repeat_ ∨ k = .longPressEnd ↔ inLongPress earlier = true)
  ended : ¬ Down (ledger r.log) → inLongPress (kinds r.log) = false

/-! ## The log of gestures -/

/-- Only a long press that is under way is repeated or ended, and nothing else happens in it. -/
def Nested : List Kind → Prop
  | [] => True
  | k :: ks => (k = .repeat_ ∨ k = .longPressEnd ↔ inLongPress ks = true) ∧ Nested ks

theorem Nested.of_append {later earlier : List Kind} (h : Nested (later ++ earlier)) :
    Nested earlier := by
  induction later with
  | nil => exact h
  | cons k later ih => exact ih h.2

theorem inLongPress_append_repeats (n : Nat) (ks : List Kind) :
    inLongPress (List.replicate n .repeat_ ++ ks) = inLongPress ks := by
  induction n with
  | zero => rfl
  | succ n ih => exact ih

/-- After a long press has begun only repeats follow, up to its end. -/
theorem Nested.followed {later earlier : List Kind}
    (h : Nested (later ++ .longPressStart :: earlier)) :
    (∃ n, later = List.replicate n .repeat_) ∨
      ∃ newer n, later = newer ++ .longPressEnd :: List.replicate n .repeat_ := by
  induction later with
  | nil => exact Or.inl ⟨0, rfl⟩
  | cons k later ih =>
      obtain ⟨n, rfl⟩ | ⟨newer, n, rfl⟩ := ih h.2
      · have hopen : inLongPress (List.replicate n .repeat_ ++ .longPressStart :: earlier) = true :=
          inLongPress_append_repeats n _
        obtain rfl | rfl := h.1.mpr hopen
        · exact Or.inl ⟨n + 1, rfl⟩
        · exact Or.inr ⟨[], n, rfl⟩
      · exact Or.inr ⟨k :: newer, n, rfl⟩

/-! ## The machine and the ledger in step -/

/-- What the machine's state says about the last press. -/
def Agree (h : Handle) (ps : List Press) : Prop :=
  match h.state with
  | .idle =>
      ∀ p older, ps = p :: older → p.released = none ∨ p.Short h.toDurations → p.gestures = 1
  | .pressedPending | .longHeld =>
      ∃ t older, ps = ⟨t, none, 0, 0⟩ :: older ∧ h.pressMs = UInt32.ofNat t
  | .waitDouble =>
      ∃ t r older, ps = ⟨t, some r, 0, 0⟩ :: older ∧ r ≤ t + h.clickMaxMs.toNat ∧
        h.releaseMs = UInt32.ofNat r

/-- Machine, ledger and log in step. -/
structure Inv (d : Durations) (r : Run) : Prop where
  durations : r.h.toDurations = d
  cb : r.h.cb = true
  agree : Agree r.h (ledger r.log)
  older : Settled d (ledger r.log).tail
  steps : ∀ s past, (s :: past) <:+ r.log → StepRight d past s
  nested : Nested (kinds r.log)
  open_iff : inLongPress (kinds r.log) = true ↔ r.h.state = .longHeld

/-! ## Elapsed times -/

/-- A wrapped clock measures a short enough interval rightly. -/
theorem elapsed_le_iff {a b : Nat} (w : UInt16) (hab : a ≤ b) (hlt : b < a + 2 ^ 32) :
    UInt32.ofNat b - UInt32.ofNat a ≤ w.toUInt32 ↔ b ≤ a + w.toNat := by
  have helapsed : (UInt32.ofNat b - UInt32.ofNat a).toNat = b - a :=
    toNat_ofNat_sub hab (by omega)
  rw [UInt32.le_iff_toNat_le, helapsed, UInt16.toNat_toUInt32]
  omega

theorem lt_elapsed_iff {a b : Nat} (w : UInt16) (hab : a ≤ b) (hlt : b < a + 2 ^ 32) :
    w.toUInt32 < UInt32.ofNat b - UInt32.ofNat a ↔ a + w.toNat < b := by
  rw [← UInt32.not_le, elapsed_le_iff w hab hlt]
  omega

/-! ## One step -/

section Step

variable {d : Durations} {r : Run} {i : Input} {h' : Handle}

/-- The promise about a step that says nothing. -/
theorem stepRight_silent {past : List Step}
    (hdouble : ∀ t p older rel, i = .press t → ledger past = p :: older → p.released = some rel →
      p.Short d → p.doubles = 0 → ¬ t ≤ rel + d.doubleClickWindowMs.toNat) :
    StepRight d past ⟨i, []⟩ where
  double_iff := by
    constructor
    · rintro ⟨e, he, _⟩
      cases he
    · rintro ⟨t, p, older, rel, hi, hp, hrel, hshort, hzero, hle⟩
      exact absurd hle (hdouble t p older rel hi hp hrel hshort hzero)
  held := by
    intro e he
    cases he

/-- The promise about a step that is no press and no double click. -/
theorem stepRight_emit {past : List Step} {e : Event} (hpress : ∀ t, i ≠ .press t)
    (hkind : e.kind ≠ .doubleClick)
    (hheld : e.kind = .repeat_ → ∃ p older, ledger past = p :: older ∧ p.released = none ∧
      p.pressed ≤ i.time ∧ e.heldMs.toNat = i.time - p.pressed) :
    StepRight d past ⟨i, [e]⟩ where
  double_iff := by
    constructor
    · rintro ⟨e', he', hk⟩
      rw [List.mem_singleton.mp he'] at hk
      exact absurd hk hkind
    · rintro ⟨t, _, _, _, hi, _⟩
      exact absurd hi (hpress t)
  held := by
    intro e' he' hk
    rw [List.mem_singleton.mp he'] at hk ⊢
    exact hheld hk

theorem steps_cons {s : Step} {log : List Step} (hs : StepRight d log s)
    (hlog : ∀ s past, (s :: past) <:+ log → StepRight d past s) :
    ∀ s' past, (s' :: past) <:+ (s :: log) → StepRight d past s' := by
  intro s' past hsuffix
  obtain heq | hin := List.suffix_cons_iff.mp hsuffix
  · cases heq
    exact hs
  · exact hlog s' past hin

/-- A step that says nothing and neither begins nor ends a long press. -/
theorem Inv.silent (hinv : Inv d r) (hfeed : r.h.feed i = ([], h'))
    (hlong : h'.state = .longHeld ↔ r.h.state = .longHeld)
    (hagree : Agree h' (enter (ledger r.log) i))
    (holder : Settled d (enter (ledger r.log) i).tail)
    (hright : StepRight d r.log ⟨i, []⟩) : Inv d (r.feed i) := by
  have hframe := feed_frame r.h i
  rw [hfeed] at hframe
  have hrun : r.feed i = ⟨h', ⟨i, []⟩ :: r.log⟩ := by
    rw [Run.feed, hfeed]
  rw [hrun]
  exact {
    durations := hframe.1.trans hinv.durations
    cb := hframe.2.trans hinv.cb
    agree := hagree
    older := holder
    steps := steps_cons hright hinv.steps
    nested := hinv.nested
    open_iff := hinv.open_iff.trans hlong.symm }

/-- A step that emits one gesture. -/
theorem Inv.emits {e : Event} (hinv : Inv d r) (hfeed : r.h.feed i = ([e], h'))
    (hwithin : e.kind = .repeat_ ∨ e.kind = .longPressEnd ↔ r.h.state = .longHeld)
    (hlong : h'.state = .longHeld ↔ e.kind = .longPressStart ∨ e.kind = .repeat_)
    (hagree : Agree h' (credit (enter (ledger r.log) i) e.kind))
    (holder : Settled d (credit (enter (ledger r.log) i) e.kind).tail)
    (hright : StepRight d r.log ⟨i, [e]⟩) : Inv d (r.feed i) := by
  have hframe := feed_frame r.h i
  rw [hfeed] at hframe
  have hrun : r.feed i = ⟨h', ⟨i, [e]⟩ :: r.log⟩ := by
    rw [Run.feed, hfeed]
  rw [hrun]
  have hopen : inLongPress (e.kind :: kinds r.log) = true ↔
      e.kind = .longPressStart ∨ e.kind = .repeat_ := by
    cases hk : e.kind with
    | repeat_ =>
        have hheld : r.h.state = .longHeld := hwithin.mp (Or.inl hk)
        simpa [inLongPress] using hinv.open_iff.mpr hheld
    | _ => simp [inLongPress]
  exact {
    durations := hframe.1.trans hinv.durations
    cb := hframe.2.trans hinv.cb
    agree := hagree
    older := holder
    steps := steps_cons hright hinv.steps
    nested := ⟨hwithin.trans hinv.open_iff.symm, hinv.nested⟩
    open_iff := hopen.trans hlong.symm }

end Step

section Machine

variable {d : Durations} {r : Run} {i : Input}

theorem settled_cons {p : Press} {ps : List Press} (hp : p.Short d → p.gestures = 1)
    (hps : Settled d ps) : Settled d (p :: ps) := by
  intro q hq
  obtain rfl | hq := List.mem_cons.mp hq
  · exact hp
  · exact hps q hq

/-- In `S_IDLE` the last press is settled as well. -/
theorem settled_of_idle (hinv : Inv d r) (hstate : r.h.state = .idle) :
    Settled d (ledger r.log) := by
  have hagree := hinv.agree
  rw [Agree, hstate, hinv.durations] at hagree
  cases hps : ledger r.log with
  | nil =>
      intro p hp
      cases hp
  | cons p older =>
      have holder := hinv.older
      rw [hps] at holder
      exact settled_cons (fun hshort => hagree p older hps (Or.inr hshort)) holder

/-- Outside `S_WAIT_DOUBLE` no press waits for its gesture. -/
theorem settled_of_not_waiting (hinv : Inv d r) (hstate : r.h.state ≠ .waitDouble) :
    Settled d (ledger r.log) := by
  have hagree := hinv.agree
  have holder := hinv.older
  cases hs : r.h.state with
  | idle => exact settled_of_idle hinv hs
  | waitDouble => exact absurd hs hstate
  | pressedPending | longHeld =>
      rw [Agree, hs] at hagree
      obtain ⟨t, older, hps, _⟩ := hagree
      rw [hps] at holder ⊢
      refine settled_cons ?_ holder
      rintro ⟨rel, hrel, _⟩
      cases hrel

/-- A press in `S_IDLE` is a press to be judged by its release. -/
theorem inv_press_idle (hinv : Inv d r) {t : Nat} (hkept : KeptUp r.h (ledger r.log) (.press t))
    (hstate : r.h.state = .idle) : Inv d (r.feed (.press t)) := by
  have hfeed : r.h.feed (.press t) =
      ([], { r.h with pressMs := UInt32.ofNat t, state := .pressedPending }) := by
    rw [Handle.feed, pressedCb, hstate]
  refine hinv.silent hfeed ?_ ⟨t, ledger r.log, rfl, rfl⟩ (settled_of_idle hinv hstate) ?_
  · simp [hstate]
  · refine stepRight_silent ?_
    intro t' p older rel ht hps hrel hshort hzero hle
    cases ht
    rw [← hinv.durations] at hshort hle
    have hwait := (hkept.press t p older rel rfl hps hrel hshort hzero).mpr hle
    rw [hstate] at hwait
    cases hwait

/-- A press in `S_WAIT_DOUBLE` makes a double click with the last one. -/
theorem inv_press_waitDouble (hinv : Inv d r) {t : Nat} (hplaced : Placed (ledger r.log) (.press t))
    (hkept : KeptUp r.h (ledger r.log) (.press t)) (hstate : r.h.state = .waitDouble) :
    Inv d (r.feed (.press t)) := by
  have hagree := hinv.agree
  rw [Agree, hstate] at hagree
  obtain ⟨t₀, rel, older, hps, hshort, hrelease⟩ := hagree
  have hle : t ≤ rel + r.h.doubleClickWindowMs.toNat :=
    (hkept.press t _ older rel rfl hps rfl ⟨rel, rfl, hshort⟩ rfl).mp hstate
  have hge : rel ≤ t := by
    have h := hplaced.2
    rw [hps] at h
    exact h
  have hwindow : r.h.doubleClickWindowMs.toNat < 2 ^ 16 := UInt16.toNat_lt _
  have hin : UInt32.ofNat t - r.h.releaseMs ≤ r.h.doubleClickWindowMs.toUInt32 := by
    rw [hrelease]
    exact (elapsed_le_iff _ hge (by omega)).mpr hle
  have hfeed : r.h.feed (.press t) =
      ([⟨.doubleClick, UInt32.ofNat t, 0⟩], { r.h with state := .idle }) := by
    rw [Handle.feed, pressedCb, hstate]
    dsimp only
    rw [if_pos hin, emit_of_cb hinv.cb]
  have holder := hinv.older
  rw [hps] at holder
  refine hinv.emits hfeed (by simp [hstate]) (by simp) ?_ ?_ ?_
  · intro p ps hp _
    rw [hps] at hp
    cases hp
    rfl
  · rw [hps]
    exact settled_cons (fun _ => rfl) holder
  · refine ⟨⟨fun _ => ?_, fun _ => ⟨_, List.mem_singleton_self _, rfl⟩⟩, ?_⟩
    · rw [← hinv.durations]
      exact ⟨t, _, older, rel, rfl, hps, rfl, ⟨rel, rfl, hshort⟩, rfl, hle⟩
    · intro e he hk
      rw [List.mem_singleton.mp he] at hk
      cases hk

/-- A press keeps machine and ledger in step. -/
theorem inv_press (hinv : Inv d r) {t : Nat} (hplaced : Placed (ledger r.log) (.press t))
    (hkept : KeptUp r.h (ledger r.log) (.press t)) : Inv d (r.feed (.press t)) := by
  cases hstate : r.h.state with
  | idle => exact inv_press_idle hinv hkept hstate
  | waitDouble => exact inv_press_waitDouble hinv hplaced hkept hstate
  | pressedPending | longHeld =>
      have hagree := hinv.agree
      rw [Agree, hstate] at hagree
      obtain ⟨t₀, older, hps, _⟩ := hagree
      refine absurd ?_ hplaced.1
      rw [hps]
      rfl

/-- A release that ends no long press says nothing. -/
theorem stepRight_release {past : List Step} (t : Nat) : StepRight d past ⟨.release t, []⟩ :=
  stepRight_silent fun _ _ _ _ hi => nomatch hi

/-- A press released too late for a click needs no gesture. -/
theorem agree_of_late {h : Handle} {t₀ t : Nat} {older : List Press} (hstate : h.state = .idle)
    (hlate : t₀ + h.clickMaxMs.toNat < t) : Agree h (⟨t₀, some t, 0, 0⟩ :: older) := by
  rw [Agree, hstate]
  intro p ps hp hjudged
  cases hp
  obtain hnone | ⟨rel, hrel, hle⟩ := hjudged
  · cases hnone
  · cases hrel
    exact absurd hle (Nat.not_le.mpr hlate)

/-- The release of a press that is to be judged begins the wait, if it is short. -/
theorem inv_release_pending (hinv : Inv d r) {t : Nat}
    (hplaced : Placed (ledger r.log) (.release t))
    (hkept : KeptUp r.h (ledger r.log) (.release t)) (hstate : r.h.state = .pressedPending) :
    Inv d (r.feed (.release t)) := by
  have hagree := hinv.agree
  rw [Agree, hstate] at hagree
  obtain ⟨t₀, older, hps, hpress⟩ := hagree
  have hge : t₀ ≤ t := by
    have h := hplaced.2
    rw [hps] at h
    exact h
  have hlt : t < t₀ + 2 ^ 32 := by
    have h := hkept.recent (by simp [hstate])
    rw [hps] at h
    exact h
  have holder := hinv.older
  rw [hps] at holder
  have hshort := elapsed_le_iff r.h.clickMaxMs hge hlt
  by_cases hheld : t ≤ t₀ + r.h.clickMaxMs.toNat
  · have hfeed : r.h.feed (.release t) =
        ([], { r.h with releaseMs := UInt32.ofNat t, state := .waitDouble }) := by
      rw [Handle.feed, releasedCb, hstate]
      dsimp only
      rw [hpress, if_pos (hshort.mpr hheld)]
    refine hinv.silent hfeed (by simp [hstate]) ⟨t₀, t, older, ?_, hheld, rfl⟩ ?_
      (stepRight_release t)
    · rw [hps]
      rfl
    · rw [hps]
      exact holder
  · have hfeed : r.h.feed (.release t) = ([], { r.h with state := .idle }) := by
      rw [Handle.feed, releasedCb, hstate]
      dsimp only
      rw [hpress, if_neg (mt hshort.mp hheld)]
    refine hinv.silent hfeed (by simp [hstate]) ?_ ?_ (stepRight_release t)
    · rw [hps]
      exact agree_of_late rfl (Nat.not_le.mp hheld)
    · rw [hps]
      exact holder

/-- The release of a long press ends it. -/
theorem inv_release_longHeld (hinv : Inv d r) {t : Nat}
    (hkept : KeptUp r.h (ledger r.log) (.release t)) (hstate : r.h.state = .longHeld) :
    Inv d (r.feed (.release t)) := by
  have hagree := hinv.agree
  rw [Agree, hstate] at hagree
  obtain ⟨t₀, older, hps, _⟩ := hagree
  have hlate : t₀ + r.h.clickMaxMs.toNat < t := by
    have h := hkept.release t rfl hstate
    rw [hps] at h
    exact h
  have holder := hinv.older
  rw [hps] at holder
  have hfeed : r.h.feed (.release t) =
      ([⟨.longPressEnd, UInt32.ofNat t, UInt32.ofNat t - r.h.pressMs⟩],
        { r.h with state := .idle }) := by
    rw [Handle.feed, releasedCb, hstate]
    dsimp only
    rw [emit_of_cb hinv.cb]
  refine hinv.emits hfeed (by simp [hstate]) (by simp) ?_ ?_
    (stepRight_emit (by simp) (by simp) (by simp))
  · rw [hps]
    exact agree_of_late rfl hlate
  · rw [hps]
    exact holder

/-- The release of the second press of a double click is not judged. -/
theorem inv_release_idle (hinv : Inv d r) {t : Nat}
    (hplaced : Placed (ledger r.log) (.release t)) (hstate : r.h.state = .idle) :
    Inv d (r.feed (.release t)) := by
  have hfeed : r.h.feed (.release t) = ([], r.h) := by
    rw [Handle.feed, releasedCb, hstate]
  have hagree := hinv.agree
  have holder := hinv.older
  have hdown := hplaced.1
  rw [Agree, hstate] at hagree
  cases hps : ledger r.log with
  | nil =>
      rw [hps] at hdown
      exact hdown.elim
  | cons p older =>
      rw [hps] at holder hdown
      have hdone : p.gestures = 1 := hagree p older hps (Or.inl hdown)
      refine hinv.silent hfeed Iff.rfl ?_ ?_ (stepRight_release t)
      · rw [Agree, hstate, hps]
        intro q ps hq _
        cases hq
        exact hdone
      · rw [hps]
        exact holder

/-- A release keeps machine and ledger in step. -/
theorem inv_release (hinv : Inv d r) {t : Nat} (hplaced : Placed (ledger r.log) (.release t))
    (hkept : KeptUp r.h (ledger r.log) (.release t)) : Inv d (r.feed (.release t)) := by
  cases hstate : r.h.state with
  | idle => exact inv_release_idle hinv hplaced hstate
  | pressedPending => exact inv_release_pending hinv hplaced hkept hstate
  | longHeld => exact inv_release_longHeld hinv hkept hstate
  | waitDouble =>
      have hagree := hinv.agree
      rw [Agree, hstate] at hagree
      obtain ⟨t₀, rel, older, hps, _⟩ := hagree
      have hdown := hplaced.1
      rw [hps] at hdown
      cases hdown

/-! ## Ticks -/

/-- A tick that does its step. -/
structure Ticks (r : Run) (i : Input) : Prop where
  feed : r.h.feed i = doStep r.h (UInt32.ofNat i.time)
  enter : enter (ledger r.log) i = ledger r.log
  no_press : ∀ t, i ≠ .press t

/-- A step that finds nothing to do. -/
theorem inv_tick_quiet (hinv : Inv d r) (htick : Ticks r i) {h' : Handle}
    (hstep : doStep r.h (UInt32.ofNat i.time) = ([], h')) (hstate : h'.state = r.h.state)
    (hagree : Agree h' (ledger r.log)) : Inv d (r.feed i) := by
  refine hinv.silent (htick.feed.trans hstep) (by rw [hstate]) ?_ ?_ ?_
  · rw [htick.enter]
    exact hagree
  · rw [htick.enter]
    exact hinv.older
  · exact stepRight_silent fun t _ _ _ hi => absurd hi (htick.no_press t)

/-- A press held long enough begins a long press. -/
theorem inv_tick_pending (hinv : Inv d r) (htick : Ticks r i)
    (hstate : r.h.state = .pressedPending) : Inv d (r.feed i) := by
  have hagree := hinv.agree
  rw [Agree, hstate] at hagree
  obtain ⟨t₀, older, hps, hpress⟩ := hagree
  by_cases hlong : r.h.longPressMs.toUInt32 ≤ UInt32.ofNat i.time - r.h.pressMs
  · have hstep : doStep r.h (UInt32.ofNat i.time) =
        ([⟨.longPressStart, UInt32.ofNat i.time, 0⟩],
          { r.h with
            lastTickMs := UInt32.ofNat i.time
            lastRepeatMs := UInt32.ofNat i.time
            state := .longHeld }) := by
      rw [doStep, hstate]
      dsimp only
      rw [if_pos hlong, emit_of_cb hinv.cb]
    refine hinv.emits (htick.feed.trans hstep) (by simp [hstate]) (by simp) ?_ ?_
      (stepRight_emit htick.no_press (by simp) (by simp))
    · rw [htick.enter, hps]
      exact ⟨t₀, older, rfl, hpress⟩
    · rw [htick.enter]
      exact hinv.older
  · have hstep : doStep r.h (UInt32.ofNat i.time) =
        ([], { r.h with lastTickMs := UInt32.ofNat i.time }) := by
      rw [doStep, hstate]
      dsimp only
      rw [if_neg hlong, ← hstate]
    refine inv_tick_quiet hinv htick hstep rfl ?_
    rw [Agree, hstate]
    exact ⟨t₀, older, hps, hpress⟩

/-- A press that was not followed in time by another one is a click. -/
theorem inv_tick_waitDouble (hinv : Inv d r) (htick : Ticks r i)
    (hstate : r.h.state = .waitDouble) : Inv d (r.feed i) := by
  have hagree := hinv.agree
  have holder := hinv.older
  rw [Agree, hstate] at hagree
  obtain ⟨t₀, rel, older, hps, hshort, hrelease⟩ := hagree
  by_cases hover : r.h.doubleClickWindowMs.toUInt32 < UInt32.ofNat i.time - r.h.releaseMs
  · have hstep : doStep r.h (UInt32.ofNat i.time) =
        ([⟨.click, UInt32.ofNat i.time, 0⟩],
          { r.h with lastTickMs := UInt32.ofNat i.time, state := .idle }) := by
      rw [doStep, hstate]
      dsimp only
      rw [if_pos hover, emit_of_cb hinv.cb]
    rw [hps] at holder
    refine hinv.emits (htick.feed.trans hstep) (by simp [hstate]) (by simp) ?_ ?_
      (stepRight_emit htick.no_press (by simp) (by simp))
    · rw [htick.enter, hps]
      intro p ps hp _
      cases hp
      rfl
    · rw [htick.enter, hps]
      exact holder
  · have hstep : doStep r.h (UInt32.ofNat i.time) =
        ([], { r.h with lastTickMs := UInt32.ofNat i.time }) := by
      rw [doStep, hstate]
      dsimp only
      rw [if_neg hover, ← hstate]
    refine inv_tick_quiet hinv htick hstep rfl ?_
    rw [Agree, hstate]
    exact ⟨t₀, rel, older, hps, hshort, hrelease⟩

/-- A long press is repeated, with the time since its press. -/
theorem inv_tick_longHeld (hinv : Inv d r) (htick : Ticks r i)
    (hge : lastEvent (ledger r.log) ≤ i.time)
    (hlt : i.time < lastEvent (ledger r.log) + 2 ^ 32)
    (hstate : r.h.state = .longHeld) : Inv d (r.feed i) := by
  have hagree := hinv.agree
  rw [Agree, hstate] at hagree
  obtain ⟨t₀, older, hps, hpress⟩ := hagree
  rw [hps] at hge hlt
  by_cases hdue : r.h.repeatIntervalMs.toUInt32 ≤ UInt32.ofNat i.time - r.h.lastRepeatMs
  · have hstep : doStep r.h (UInt32.ofNat i.time) =
        ([⟨.repeat_, UInt32.ofNat i.time, UInt32.ofNat i.time - r.h.pressMs⟩],
          { r.h with
            lastTickMs := UInt32.ofNat i.time
            lastRepeatMs := UInt32.ofNat i.time }) := by
      rw [doStep, hstate]
      dsimp only
      rw [if_pos hdue, emit_of_cb hinv.cb, ← hstate]
    have hheld : (UInt32.ofNat i.time - r.h.pressMs).toNat = i.time - t₀ := by
      rw [hpress]
      exact toNat_ofNat_sub hge (Nat.sub_lt_left_of_lt_add hge hlt)
    refine hinv.emits (htick.feed.trans hstep) (by simp [hstate]) (by simp [hstate]) ?_ ?_
      (stepRight_emit htick.no_press (by simp) fun _ => ⟨_, older, hps, rfl, hge, hheld⟩)
    · rw [htick.enter, hps, Agree]
      dsimp only
      rw [hstate]
      exact ⟨t₀, older, rfl, hpress⟩
    · rw [htick.enter]
      exact hinv.older
  · have hstep : doStep r.h (UInt32.ofNat i.time) =
        ([], { r.h with lastTickMs := UInt32.ofNat i.time }) := by
      rw [doStep, hstate]
      dsimp only
      rw [if_neg hdue, ← hstate]
    refine inv_tick_quiet hinv htick hstep rfl ?_
    rw [Agree, hstate]
    exact ⟨t₀, older, hps, hpress⟩

/-- A tick keeps machine and ledger in step. -/
theorem inv_tick (hinv : Inv d r) (htick : Ticks r i)
    (hge : lastEvent (ledger r.log) ≤ i.time)
    (hlt : r.h.state ≠ .idle → i.time < lastEvent (ledger r.log) + 2 ^ 32) :
    Inv d (r.feed i) := by
  cases hstate : r.h.state with
  | idle =>
      have hstep : doStep r.h (UInt32.ofNat i.time) =
          ([], { r.h with lastTickMs := UInt32.ofNat i.time }) := by
        rw [doStep, hstate]
        dsimp only
        rw [← hstate]
      have hagree := hinv.agree
      refine inv_tick_quiet hinv htick hstep rfl ?_
      rw [Agree, hstate] at hagree ⊢
      exact hagree
  | pressedPending => exact inv_tick_pending hinv htick hstate
  | waitDouble => exact inv_tick_waitDouble hinv htick hstate
  | longHeld => exact inv_tick_longHeld hinv htick hge (hlt (by simp [hstate])) hstate

theorem inv_timer (hinv : Inv d r) {t : Nat} (hge : lastEvent (ledger r.log) ≤ t)
    (hlt : r.h.state ≠ .idle → t < lastEvent (ledger r.log) + 2 ^ 32) :
    Inv d (r.feed (.timer t)) :=
  inv_tick hinv ⟨rfl, rfl, fun _ h => nomatch h⟩ hge hlt

theorem inv_poll (hinv : Inv d r) {t : Nat} (hge : lastEvent (ledger r.log) ≤ t)
    (hlt : r.h.state ≠ .idle → t < lastEvent (ledger r.log) + 2 ^ 32) :
    Inv d (r.feed (.poll t)) := by
  by_cases hsoon : UInt32.ofNat t - r.h.lastTickMs < r.h.tickPeriodMs.toUInt32
  · have hfeed : r.h.feed (.poll t) = ([], r.h) := by
      rw [Handle.feed, tick, if_pos hsoon]
    exact hinv.silent hfeed Iff.rfl hinv.agree hinv.older
      (stepRight_silent fun _ _ _ _ h => nomatch h)
  · have hfeed : r.h.feed (.poll t) = doStep r.h (UInt32.ofNat t) := by
      rw [Handle.feed, tick, if_neg hsoon]
    exact inv_tick hinv ⟨hfeed, rfl, fun _ h => nomatch h⟩ hge hlt

/-- One input keeps machine and ledger in step, if the ticks keep up. -/
theorem inv_feed (hinv : Inv d r) (hplaced : Placed (ledger r.log) i)
    (hkept : KeptUp r.h (ledger r.log) i) : Inv d (r.feed i) := by
  cases i with
  | press t => exact inv_press hinv hplaced hkept
  | release t => exact inv_release hinv hplaced hkept
  | timer t => exact inv_timer hinv hplaced hkept.recent
  | poll t => exact inv_poll hinv hplaced hkept.recent

/-! ## Enough ticks -/

theorem lastEvent_credit (ps : List Press) (k : Kind) : lastEvent (credit ps k) = lastEvent ps := by
  cases k with
  | click => cases ps <;> rfl
  | doubleClick =>
      cases ps with
      | nil => rfl
      | cons p ps => cases ps <;> rfl
  | longPressStart | longPressEnd | repeat_ => rfl

/-- Gestures change no edge. -/
theorem lastEvent_foldl_credit (ks : List Kind) (ps : List Press) :
    lastEvent (ks.foldl credit ps) = lastEvent ps := by
  induction ks generalizing ps with
  | nil => rfl
  | cons k ks ih => rw [List.foldl_cons, ih, lastEvent_credit]

/-- A step leaves `S_WAIT_DOUBLE` once the window is over, and never enters it. -/
theorem doStep_leaves {h : Handle} {now : UInt32}
    (hover : h.state = .waitDouble → h.doubleClickWindowMs.toUInt32 < now - h.releaseMs) :
    (doStep h now).2.state ≠ .waitDouble := by
  unfold doStep
  cases hstate : h.state with
  | idle => simp
  | pressedPending => dsimp only; split <;> simp
  | waitDouble =>
      dsimp only
      rw [if_pos (hover hstate)]
      simp
  | longHeld => dsimp only; split <;> simp

/-- After the window the machine knows that it is over. -/
theorem window_over (hinv : Inv d r) {t : Nat}
    (hover : lastEvent (ledger r.log) + d.doubleClickWindowMs.toNat < t)
    (hlt : t < lastEvent (ledger r.log) + 2 ^ 32) (hstate : r.h.state = .waitDouble) :
    r.h.doubleClickWindowMs.toUInt32 < UInt32.ofNat t - r.h.releaseMs := by
  have hagree := hinv.agree
  rw [Agree, hstate] at hagree
  obtain ⟨t₀, rel, older, hps, _, hrelease⟩ := hagree
  rw [hps, ← hinv.durations] at hover
  rw [hps] at hlt
  have hlast : lastEvent (⟨t₀, some rel, 0, 0⟩ :: older) = rel := rfl
  rw [hlast] at hover hlt
  rw [hrelease]
  exact (lt_elapsed_iff _ (by omega) hlt).mpr hover

/-- A timer tick after the window settles every press. -/
theorem settled_after_timer (hinv : Inv d r) {t : Nat}
    (hover : lastEvent (ledger r.log) + d.doubleClickWindowMs.toNat < t)
    (hlt : t < lastEvent (ledger r.log) + 2 ^ 32) :
    Settled d (ledger (r.feed (.timer t)).log) := by
  have hinv' : Inv d (r.feed (.timer t)) := inv_timer hinv (by omega) fun _ => hlt
  exact settled_of_not_waiting hinv' (doStep_leaves (window_over hinv hover hlt))

/-- A poll is not throttled again within its period. -/
theorem second_poll_steps {last period : Nat} {t₁ t₂ : Nat} (hlast : last < 2 ^ 32)
    (hsoon : (2 ^ 32 - last + t₁ % 2 ^ 32) % 2 ^ 32 < period) (hnext : t₁ + period ≤ t₂)
    (hnear : t₂ + period ≤ t₁ + 2 ^ 32) :
    period ≤ (2 ^ 32 - last + t₂ % 2 ^ 32) % 2 ^ 32 := by
  omega

/-- Two polls after the window, a period apart, settle every press. -/
theorem settled_after_polls (hinv : Inv d r) {t₁ t₂ : Nat}
    (hover : lastEvent (ledger r.log) + d.doubleClickWindowMs.toNat < t₁)
    (hnext : t₁ + d.tickPeriodMs.toNat ≤ t₂) (hnear : t₂ + d.tickPeriodMs.toNat ≤ t₁ + 2 ^ 32)
    (hlt : t₂ < lastEvent (ledger r.log) + 2 ^ 32) :
    Settled d (ledger ((r.feed (.poll t₁)).feed (.poll t₂)).log) := by
  have hinv₁ : Inv d (r.feed (.poll t₁)) := inv_poll hinv (by omega) fun _ => by omega
  have hlast : lastEvent (ledger (r.feed (.poll t₁)).log) = lastEvent (ledger r.log) :=
    lastEvent_foldl_credit _ _
  have hinv₂ : Inv d ((r.feed (.poll t₁)).feed (.poll t₂)) :=
    inv_poll hinv₁ (by omega) fun _ => by omega
  refine settled_of_not_waiting hinv₂ ?_
  show (tick (tick r.h (UInt32.ofNat t₁)).2 (UInt32.ofNat t₂)).2.state ≠ .waitDouble
  by_cases hsoon : UInt32.ofNat t₁ - r.h.lastTickMs < r.h.tickPeriodMs.toUInt32
  · -- the first poll is throttled, the second is not
    have hdue : ¬ UInt32.ofNat t₂ - r.h.lastTickMs < r.h.tickPeriodMs.toUInt32 := by
      rw [hinv.durations, UInt32.lt_iff_toNat_lt, UInt32.toNat_sub, UInt16.toNat_toUInt32,
        UInt32.toNat_ofNat'] at hsoon ⊢
      exact Nat.not_lt.mpr
        (second_poll_steps (UInt32.toNat_lt r.h.lastTickMs) hsoon hnext hnear)
    have hfirst : tick r.h (UInt32.ofNat t₁) = ([], r.h) := by
      rw [tick, if_pos hsoon]
    have hsecond : tick r.h (UInt32.ofNat t₂) = doStep r.h (UInt32.ofNat t₂) := by
      rw [tick, if_neg hdue]
    rw [hfirst, hsecond]
    exact doStep_leaves (window_over hinv (by omega) hlt)
  · have hfirst : tick r.h (UInt32.ofNat t₁) = doStep r.h (UInt32.ofNat t₁) := by
      rw [tick, if_neg hsoon]
    have hleft : (doStep r.h (UInt32.ofNat t₁)).2.state ≠ .waitDouble :=
      doStep_leaves (window_over hinv hover (by omega))
    rw [hfirst, tick]
    split
    · exact hleft
    · exact doStep_leaves fun hwait => absurd hwait hleft

end Machine

/-! ## Runs of a handle -/

theorem inv_attach {cfg : Cfg} {out : Bool} {host : Host} {now : UInt32} {h : Handle}
    (hattach : attach (some cfg) out host now = .ok h) (hcb : cfg.cb = true) :
    Inv h.toDurations ⟨h, []⟩ := by
  obtain ⟨hstate, -, hcfg⟩ := attach_ok hattach
  exact {
    durations := rfl
    cb := hcfg.trans hcb
    agree := by
      rw [Agree, hstate]
      intro p older hp
      cases hp
    older := fun p hp => nomatch hp
    steps := fun s past hs => absurd hs (by simp)
    nested := trivial
    open_iff := by simp [kinds, inLongPress, hstate] }

/-- Machine and ledger in step is what the gestures promise. -/
theorem Inv.accounted {d : Durations} {r : Run} (hinv : Inv d r) : Accounted d r where
  every_press := by
    intro p hp hshort
    by_cases hwait : r.h.state = .waitDouble
    · have hagree := hinv.agree
      have holder := hinv.older
      rw [Agree, hwait] at hagree
      obtain ⟨t, rel, older, hps, _⟩ := hagree
      rw [hps] at hp holder ⊢
      obtain rfl | hp := List.mem_cons.mp hp
      · exact Or.inr ⟨rfl, hwait, older, rfl⟩
      · exact Or.inl (holder p hp hshort)
    · exact Or.inl (settled_of_not_waiting hinv hwait p hp hshort)
  after_timer := fun _ hover hlt => settled_after_timer hinv hover hlt
  after_polls := fun _ _ hover hnext hnear hlt => settled_after_polls hinv hover hnext hnear hlt
  steps := hinv.steps
  followed := by
    intro later earlier hkinds
    have hnested := hinv.nested
    rw [hkinds] at hnested
    exact hnested.followed
  between := by
    intro later earlier k hkinds
    have hnested := hinv.nested
    rw [hkinds] at hnested
    exact hnested.of_append.1
  ended := by
    intro hup
    by_contra hopen
    have hstate := hinv.open_iff.mp (Bool.not_eq_false _ ▸ hopen)
    have hagree := hinv.agree
    rw [Agree, hstate] at hagree
    obtain ⟨t, older, hps, _⟩ := hagree
    rw [hps] at hup
    exact hup rfl

/--
Every run whose ticks keep up accounts for every press, in every state it reaches: presses and
releases alternate with times that do not decrease, ticks come anywhere between them, and the
clock of the code wraps.
-/
theorem gestures_account_along (cfg : Cfg) (out : Bool) (host : Host) (now : UInt32) (h : Handle)
    (hattach : attach (some cfg) out host now = .ok h) (hcb : cfg.cb = true)
    (inputs : List Input)
    (hplaced : Along Run.feed (fun r i => Placed (ledger r.log) i) ⟨h, []⟩ inputs)
    (hkept : Along Run.feed (fun r i => KeptUp r.h (ledger r.log) i) ⟨h, []⟩ inputs) :
    Accounted h.toDurations (run Run.feed ⟨h, []⟩ inputs) := by
  have hstep : ∀ r i, Inv h.toDurations r →
      Placed (ledger r.log) i ∧ KeptUp r.h (ledger r.log) i → Inv h.toDurations (r.feed i) :=
    fun r i hinv hi => inv_feed hinv hi.1 hi.2
  have hboth : Along Run.feed (fun r i => Placed (ledger r.log) i ∧ KeptUp r.h (ledger r.log) i)
      ⟨h, []⟩ inputs := by
    rw [along_and]
    exact ⟨hplaced, hkept⟩
  exact (run_invariant_along hstep (inv_attach hattach hcb) hboth).accounted

/-! ## Two runs -/

/-- A configuration of the defaults. -/
def defaultCfg : Cfg :=
  { clickMaxMs := 400
    doubleClickWindowMs := 400
    longPressMs := 800
    repeatIntervalMs := 100
    tickPeriodMs := 20
    button := true
    autoStartTimer := false
    cb := true }

/-- The handle that is attached at time 0. -/
def defaultHandle : Handle :=
  { toDurations := defaultCfg.toDurations
    cb := true
    timer := false
    state := .idle
    pressMs := 0
    releaseMs := 0
    lastRepeatMs := 0
    lastTickMs := 0 }

theorem attach_default : attach (some defaultCfg) true ⟨true, true, true⟩ 0 = .ok defaultHandle :=
  rfl

/-- Two clicks a second apart, with the only tick after both. -/
def lateClicks : List Input :=
  [.press 0, .release 100, .press 1000, .release 1100, .timer 3000]

/-- Two presses with a tick between them. -/
def keptClicks : List Input :=
  [.press 0, .release 100, .timer 600, .press 1000]

theorem gestures_account_along_kept :
    Accounted defaultHandle.toDurations (run Run.feed ⟨defaultHandle, []⟩ keptClicks) := by
  refine gestures_account_along defaultCfg true ⟨true, true, true⟩ 0 defaultHandle attach_default
    rfl keptClicks ⟨by decide, by decide, by decide, by decide, trivial⟩ ?_
  refine ⟨⟨?_, ?_, ?_⟩, ⟨?_, ?_, ?_⟩, ⟨?_, ?_, ?_⟩, ⟨?_, ?_, ?_⟩, trivial⟩
  · intro t p older r _ hps
    cases hps
  · simp
  · simp [defaultHandle]
  · simp
  · intro t _ hlong
    cases hlong
  · intro _
    decide
  · simp
  · simp
  · intro _
    decide
  · intro t p older r ht hps hr _ _
    cases ht
    cases hps
    cases hr
    decide
  · simp
  · intro hidle
    exact absurd rfl hidle

/-- The press that comes late takes the click before it along. -/
theorem late_press_loses_both :
    ∃ inputs, Along Run.feed (fun r i => Placed (ledger r.log) i) ⟨defaultHandle, []⟩ inputs ∧
      ¬ Accounted defaultHandle.toDurations (run Run.feed ⟨defaultHandle, []⟩ inputs) := by
  refine ⟨lateClicks, ⟨by decide, by decide, by decide, by decide, by decide, trivial⟩, ?_⟩
  · intro hacc
    have hledger : ledger (run Run.feed ⟨defaultHandle, []⟩ lateClicks).log =
        [⟨1000, some 1100, 0, 0⟩, ⟨0, some 100, 0, 0⟩] := rfl
    have hlost : (⟨0, some 100, 0, 0⟩ : Press) ∈
        ledger (run Run.feed ⟨defaultHandle, []⟩ lateClicks).log := by
      rw [hledger]
      simp
    obtain hone | ⟨_, hwait, _⟩ := hacc.every_press _ hlost ⟨100, rfl, by decide⟩
    · cases hone
    · cases hwait

end ButtonEvents
end Breadboard
