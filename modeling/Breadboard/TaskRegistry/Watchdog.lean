import Breadboard.TaskRegistry.Machine
import Mathlib.Data.List.Count
import Mathlib.Data.List.Nodup

/-!
# bb_task_registry - what the software watchdog may report

A registration is named by its slot and the unbounded generation of the slot, and its
stamps say when it was made and fed.  Between two feeds there is one report to make, by
the first evaluation that finds it overdue.

The miss flag of an entry remembers that the report has been made.  It is right as long
as each snapshot sees a clock that is not behind the latest feed, a task that has been
fed at all, and a flag that was cleared before the task fell overdue again; and as long
as no store and no writeback lands in a later registration of the slot.

Main result:

- Theorem `watchdog_sound_along`: every run whose steps are careful.
-/

namespace Breadboard
namespace TaskRegistry

open Foundations

/-! ## What should hold -/

/-- The time of the latest feed, or the zero that registering stores. -/
def lastFed : List Nat → Nat
  | stamp :: _ :: _ => stamp
  | _ => 0

/-- Registration and feeds are never more than the timeout apart, up to now. -/
def OnTime (timeoutMs : Nat) : Nat → List Nat → Prop
  | _, [] => True
  | next, stamp :: rest => next ≤ stamp + timeoutMs ∧ OnTime timeoutMs stamp rest

instance decidableOnTime (timeoutMs : Nat) : ∀ next stamps, Decidable (OnTime timeoutMs next stamps)
  | _, [] => isTrue trivial
  | next, stamp :: rest =>
    have := decidableOnTime timeoutMs stamp rest
    inferInstanceAs (Decidable (next ≤ stamp + timeoutMs ∧ OnTime timeoutMs stamp rest))

section Sound

variable {τ : Type} (max : Nat) (s : State τ)

/-- The stamps of the registration a slot holds. -/
def State.own (i : Nat) : List Nat :=
  s.stamps i (s.pool i).generation

/-- Isolation and exactness. -/
structure Sound : Prop where
  /-- Only its own feeds have written the feed time of a registration. -/
  isolated : ∀ i, (s.pool i).inUse = true → (s.pool i).lastFeedMs = lastFed (s.own i)
  /-- No task that is on time has been reported. -/
  justified : ∀ r ∈ s.reports,
    ¬ OnTime r.swWdtTimeoutMs s.clock (s.stamps r.key.slot r.key.generation)
  /-- What has been evaluated while overdue has been reported once, until it is fed again. -/
  once : ∀ key, (s.reports.map Report.key).count key = if key ∈ s.seen then 1 else 0
  /-- One entry of the registry for each slot in use. -/
  matched : (s.registry.map Prod.snd).Nodup ∧
    ∀ i, i ∈ s.registry.map Prod.snd ↔ i < max ∧ (s.pool i).inUse = true

/-- The registration a slot holds, in its present period. -/
def State.current (i : Nat) : Key where
  slot := i
  generation := (s.pool i).generation
  period := (s.own i).length

/-- What a snapshot with this clock sees of a watched slot is not misleading. -/
structure SeenRight (nowMs i : Nat) : Prop where
  /-- Not fed yet: the zero stamp does not make it overdue before it is. -/
  unfed : (s.own i).length = 1 → nowMs < 2 ^ 32 ∧
    (nowMs ≤ (s.pool i).swWdtTimeoutMs ∨
      (s.own i).headD 0 + (s.pool i).swWdtTimeoutMs < nowMs)
  /-- Fed: not after the clock was read, unless the miss flag is set. -/
  fed : 1 < (s.own i).length →
    (nowMs < (s.own i).headD 0 → (s.pool i).missActive = true) ∧
      nowMs < (s.own i).headD 0 + 2 ^ 32
  /-- The miss flag of an earlier report does not hide that it is overdue again. -/
  again : (s.pool i).missActive = true → s.current i ∉ s.seen →
    nowMs ≤ (s.own i).headD 0 + (s.pool i).swWdtTimeoutMs

end Sound

instance {τ : Type} (s : State τ) (nowMs i : Nat) : Decidable (SeenRight s nowMs i) :=
  decidable_of_iff (((s.own i).length = 1 → nowMs < 2 ^ 32 ∧
      (nowMs ≤ (s.pool i).swWdtTimeoutMs ∨
        (s.own i).headD 0 + (s.pool i).swWdtTimeoutMs < nowMs)) ∧
    (1 < (s.own i).length →
      (nowMs < (s.own i).headD 0 → (s.pool i).missActive = true) ∧
        nowMs < (s.own i).headD 0 + 2 ^ 32) ∧
    ((s.pool i).missActive = true → s.current i ∉ s.seen →
      nowMs ≤ (s.own i).headD 0 + (s.pool i).swWdtTimeoutMs))
    ⟨fun h => ⟨h.1, h.2.1, h.2.2⟩, fun h => ⟨h.unfed, h.fed, h.again⟩⟩

section Careful

variable {τ : Type}

/-- The condition on a step. -/
def Careful (s : State τ) : Action τ → Prop
  /- The slot of the store is free or still holds the registration of the token. -/
  | .store t => ∀ slot generation, s.feeds t = some (slot, generation) →
      (s.pool slot).inUse = true → (s.pool slot).generation = generation
  /- No other check is under way. -/
  | .check _ => ∀ u, s.checks u = .idle
  | .snapshot t => ∀ nowMs, s.checks t = .called nowMs →
      ∀ e ∈ s.registry, (s.pool e.2).swWdtTimeoutMs ≠ 0 → SeenRight s nowMs e.2
  /- No slot a row is written to has come around to the generation of the row. -/
  | .writeBack t => ∀ nowMs n i, s.checks t = .evaluating nowMs n i →
      ∀ j < n, (s.buffer j).Writes s.pool →
        (s.pool (s.buffer j).slot).generation = (s.buffer j).generation
  | _ => True

instance decidableCareful [Fintype τ] (s : State τ) : ∀ a, Decidable (Careful s a)
  | .store t =>
    match h : s.feeds t with
    | none => isTrue (by simp [Careful, h])
    | some (slot, generation) =>
      decidable_of_iff
        ((s.pool slot).inUse = true → (s.pool slot).generation = generation)
        (by simp [Careful, h])
  | .check t => inferInstanceAs (Decidable (∀ u, s.checks u = .idle))
  | .snapshot t =>
    match h : s.checks t with
    | .called nowMs =>
      decidable_of_iff
        (∀ e ∈ s.registry, (s.pool e.2).swWdtTimeoutMs ≠ 0 → SeenRight s nowMs e.2)
        (by simp [Careful, h])
    | .idle | .evaluating _ _ _ => isTrue (by simp [Careful, h])
  | .writeBack t =>
    match h : s.checks t with
    | .evaluating _ n _ =>
      decidable_of_iff
        (∀ j < n, (s.buffer j).Writes s.pool →
          (s.pool (s.buffer j).slot).generation = (s.buffer j).generation)
        (by simp [Careful, h])
    | .idle | .called _ => isTrue (by simp [Careful, h])
  | .tick | .register _ _ _ | .deregister _ | .feed _ _ _ | .evaluate _ => isTrue trivial

end Careful

/-! ## Invariants -/

section Invariants

variable {τ : Type} (max : Nat) (s : State τ)

/-- The registration has been made. -/
def Known (i generation : Nat) : Prop :=
  generation < (s.pool i).generation ∨
    (generation = (s.pool i).generation ∧ (s.pool i).inUse = true)

/-- What holds of a row from the snapshot on. -/
structure RowOk (nowMs : Nat) (row : Row) : Prop where
  known : Known s row.slot row.generation
  history : ∃ later older, s.stamps row.slot row.generation = later ++ row.since :: older ∧
    row.period = older.length + 1 ∧ ∀ y ∈ later, nowMs ≤ y
  newest : ∀ k, (⟨row.slot, row.generation, k⟩ : Key) ∈ s.seen → k ≤ row.period
  timeout : row.generation = (s.pool row.slot).generation →
    row.swWdtTimeoutMs = (s.pool row.slot).swWdtTimeoutMs
  clean : row.dirty = false → row.generation = (s.pool row.slot).generation →
    row.missActive = (s.pool row.slot).missActive

/-- What holds of a row until it is evaluated. -/
structure FreshRow (nowMs : Nat) (row : Row) : Prop where
  clean : row.dirty = false
  verdict : (row.overdue nowMs = true ↔ row.overdueSince nowMs) ∨
    (¬ row.overdueSince nowMs ∧ row.missActive = true)
  again : row.key ∈ s.seen → row.missActive = true ∧ row.overdueSince nowMs
  stale : row.missActive = true → row.key ∉ s.seen → ¬ row.overdueSince nowMs

/-- What holds of a row once it has been evaluated. -/
def DoneRow (row : Row) : Prop :=
  row.key ∈ s.seen → row.missActive = true

/-- A registration that was evaluated while overdue still is, by this clock. -/
def StillOverdue (nowMs : Nat) : Prop :=
  ∀ i, (s.pool i).inUse = true → s.current i ∈ s.seen →
    (s.own i).headD 0 + (s.pool i).swWdtTimeoutMs < nowMs

/-- What holds of a check that is under way. -/
def CheckOk : CheckPc → Prop
  | .idle => True
  | .called nowMs => nowMs ≤ s.clock ∧ StillOverdue s nowMs
  | .evaluating nowMs n i =>
    (i ≤ n ∧ nowMs ≤ s.clock) ∧
    (∀ j < n, ∀ k < n, (s.buffer j).slot = (s.buffer k).slot → j = k) ∧
    (∀ j < n, RowOk s nowMs (s.buffer j)) ∧
    (∀ j < i, DoneRow s (s.buffer j)) ∧
    ∀ j, i ≤ j → j < n → FreshRow s nowMs (s.buffer j)

/-- The miss flag is set, or will be by the check that is under way. -/
def Marked (i : Nat) : Prop :=
  (s.pool i).missActive = true ∨ ∃ t nowMs n j k, s.checks t = .evaluating nowMs n j ∧ k < j ∧
    (s.buffer k).slot = i ∧ (s.buffer k).generation = (s.pool i).generation ∧
    (s.buffer k).dirty = true ∧ (s.buffer k).missActive = true

/-- What holds of a slot in use. -/
structure LiveOk (i : Nat) : Prop where
  stamped : ∃ stamp rest, s.own i = stamp :: rest ∧ stamp ≤ s.clock
  fed : (s.pool i).lastFeedMs = lastFed (s.own i)
  marked : s.current i ∈ s.seen → Marked s i

structure Inv : Prop where
  names : (s.registry.map Prod.fst).Nodup
  slots : (s.registry.map Prod.snd).Nodup
  matched : ∀ i, i ∈ s.registry.map Prod.snd ↔ i < max ∧ (s.pool i).inUse = true
  live : ∀ i, (s.pool i).inUse = true → LiveOk s i
  overdue : StillOverdue s s.clock
  seen : ∀ key ∈ s.seen, Known s key.slot key.generation ∧
    key.period ≤ (s.stamps key.slot key.generation).length
  reported : ∀ r ∈ s.reports, Known s r.key.slot r.key.generation ∧
    ¬ OnTime r.swWdtTimeoutMs s.clock (s.stamps r.key.slot r.key.generation)
  once : ∀ key, (s.reports.map Report.key).count key = if key ∈ s.seen then 1 else 0
  sole : ∀ t u, s.checks t ≠ .idle → s.checks u ≠ .idle → t = u
  checks : ∀ t, CheckOk s (s.checks t)

end Invariants

variable {τ : Type} {max : Nat} {s s' : State τ}

theorem inv_init (max : Nat) (τ : Type) : Inv max (State.init τ) where
  names := List.nodup_nil
  slots := List.nodup_nil
  matched := by simp [State.init, Entry.unused]
  live := by simp [State.init, Entry.unused]
  overdue := by simp [StillOverdue, State.init, Entry.unused]
  seen := by simp [State.init]
  reported := by simp [State.init]
  once := by simp [State.init]
  sole := by simp [State.init]
  checks := by simp [State.init, CheckOk]

theorem Inv.sound (h : Inv max s) : Sound max s where
  isolated i hi := (h.live i hi).fed
  justified r hr := (h.reported r hr).2
  once := h.once
  matched := ⟨h.slots, h.matched⟩

/-! ## Steps that only add stamps -/

/-- The registrations, their stamps and their miss flags are carried on. -/
structure Grows (s s' : State τ) : Prop where
  clock : s.clock ≤ s'.clock
  known : ∀ i g, Known s i g → Known s' i g
  stamps : ∀ i g, Known s i g → ∃ new, s'.stamps i g = new ++ s.stamps i g ∧
    ∀ y ∈ new, s.clock ≤ y ∧ y ≤ s'.clock
  seen : s'.seen = s.seen
  miss : ∀ i g, Known s i g → g = (s'.pool i).generation → g = (s.pool i).generation ∧
    (s'.pool i).missActive = (s.pool i).missActive ∧
    (s'.pool i).swWdtTimeoutMs = (s.pool i).swWdtTimeoutMs

theorem onTime_mono {timeoutMs next next' : Nat} {stamps : List Nat} (hle : next ≤ next')
    (h : OnTime timeoutMs next' stamps) : OnTime timeoutMs next stamps := by
  cases stamps with
  | nil => trivial
  | cons stamp rest => exact ⟨Nat.le_trans hle h.1, h.2⟩

theorem onTime_of_append {timeoutMs next next' : Nat} {new stamps : List Nat} (hle : next ≤ next')
    (hnew : ∀ y ∈ new, next ≤ y) (h : OnTime timeoutMs next' (new ++ stamps)) :
    OnTime timeoutMs next stamps := by
  induction new generalizing next' with
  | nil => exact onTime_mono hle h
  | cons y ys ih =>
    exact ih (hnew y (by simp)) (fun z hz => hnew z (List.mem_cons_of_mem y hz)) h.2

theorem RowOk.grows {nowMs : Nat} {row : Row} (h : RowOk s nowMs row) (hgrows : Grows s s')
    (hnow : nowMs ≤ s.clock) : RowOk s' nowMs row where
  known := hgrows.known _ _ h.known
  history := by
    obtain ⟨later, older, hsplit, hperiod, hlater⟩ := h.history
    obtain ⟨new, hnew, hbetween⟩ := hgrows.stamps _ _ h.known
    refine ⟨new ++ later, older, by rw [hnew, hsplit, List.append_assoc], hperiod, fun y hy => ?_⟩
    rcases List.mem_append.mp hy with hy | hy
    · exact Nat.le_trans hnow (hbetween y hy).1
    · exact hlater y hy
  newest := by
    rw [hgrows.seen]
    exact h.newest
  timeout hgen := by
    obtain ⟨hsame, -, htimeout⟩ := hgrows.miss _ _ h.known hgen
    exact (h.timeout hsame).trans htimeout.symm
  clean hclean hgen := by
    obtain ⟨hsame, hmiss, -⟩ := hgrows.miss _ _ h.known hgen
    exact (h.clean hclean hsame).trans hmiss.symm

theorem FreshRow.grows {nowMs : Nat} {row : Row} (h : FreshRow s nowMs row)
    (hgrows : Grows s s') : FreshRow s' nowMs row where
  clean := h.clean
  verdict := h.verdict
  again := by
    rw [hgrows.seen]
    exact h.again
  stale := by
    rw [hgrows.seen]
    exact h.stale

theorem reported_grows (hgrows : Grows s s')
    (h : ∀ r ∈ s.reports, Known s r.key.slot r.key.generation ∧
      ¬ OnTime r.swWdtTimeoutMs s.clock (s.stamps r.key.slot r.key.generation)) :
    ∀ r ∈ s.reports, Known s' r.key.slot r.key.generation ∧
      ¬ OnTime r.swWdtTimeoutMs s'.clock (s'.stamps r.key.slot r.key.generation) := by
  intro r hr
  obtain ⟨hknown, hlate⟩ := h r hr
  obtain ⟨new, hnew, hbetween⟩ := hgrows.stamps _ _ hknown
  refine ⟨hgrows.known _ _ hknown, fun hon => hlate ?_⟩
  rw [hnew] at hon
  exact onTime_of_append hgrows.clock (fun y hy => (hbetween y hy).1) hon

theorem seen_grows (hgrows : Grows s s')
    (h : ∀ key ∈ s.seen, Known s key.slot key.generation ∧
      key.period ≤ (s.stamps key.slot key.generation).length) :
    ∀ key ∈ s'.seen, Known s' key.slot key.generation ∧
      key.period ≤ (s'.stamps key.slot key.generation).length := by
  intro key hkey
  rw [hgrows.seen] at hkey
  obtain ⟨hknown, hperiod⟩ := h key hkey
  obtain ⟨new, hnew, -⟩ := hgrows.stamps _ _ hknown
  refine ⟨hgrows.known _ _ hknown, ?_⟩
  rw [hnew, List.length_append]
  omega

/-- A slot that the step has left alone. -/
def Kept (s s' : State τ) (i : Nat) : Prop :=
  s'.pool i = s.pool i ∧ s'.own i = s.own i

/-- A slot with a new registration, or one that has just been fed. -/
structure Renewed (s s' : State τ) (i : Nat) : Prop where
  unseen : s'.current i ∉ s.seen
  stamped : ∃ stamp rest, s'.own i = stamp :: rest ∧ stamp ≤ s'.clock
  fed : (s'.pool i).lastFeedMs = lastFed (s'.own i)

theorem Kept.current {i : Nat} (h : Kept s s' i) : s'.current i = s.current i := by
  rw [State.current, State.current, h.1, h.2]

/-- What is overdue stays overdue, up to new registrations and feeds. -/
theorem StillOverdue.carry {nowMs : Nat} (h : StillOverdue s nowMs) (hseen : s'.seen = s.seen)
    (hslots : ∀ i, (s'.pool i).inUse = true → Kept s s' i ∨ Renewed s s' i) :
    StillOverdue s' nowMs := by
  intro i hi hcurrent
  rw [hseen] at hcurrent
  rcases hslots i hi with hkept | hnew
  · rw [hkept.current] at hcurrent
    rw [hkept.1] at hi ⊢
    rw [hkept.2]
    exact h i hi hcurrent
  · exact absurd hcurrent hnew.unseen

theorem live_carry (h : ∀ i, (s.pool i).inUse = true → LiveOk s i) (hclock : s.clock ≤ s'.clock)
    (hseen : s'.seen = s.seen) (hmarked : ∀ i, Kept s s' i → Marked s i → Marked s' i)
    (hslots : ∀ i, (s'.pool i).inUse = true → Kept s s' i ∨ Renewed s s' i) :
    ∀ i, (s'.pool i).inUse = true → LiveOk s' i := by
  intro i hi
  rcases hslots i hi with hkept | hnew
  · have hi' := hi
    rw [hkept.1] at hi'
    obtain ⟨⟨stamp, rest, hown, hle⟩, hfed, hmark⟩ := h i hi'
    refine ⟨⟨stamp, rest, hkept.2.trans hown, Nat.le_trans hle hclock⟩, ?_, fun hcurrent => ?_⟩
    · rw [hkept.1, hkept.2]
      exact hfed
    · rw [hseen, hkept.current] at hcurrent
      exact hmarked i hkept (hmark hcurrent)
  · exact ⟨hnew.stamped, hnew.fed, fun hcurrent => absurd (hseen ▸ hcurrent) hnew.unseen⟩

theorem checkOk_grows (hgrows : Grows s s') (hbuffer : s'.buffer = s.buffer)
    (hslots : ∀ i, (s'.pool i).inUse = true → Kept s s' i ∨ Renewed s s' i) {pc : CheckPc}
    (h : CheckOk s pc) : CheckOk s' pc := by
  cases pc with
  | idle => trivial
  | called nowMs => exact ⟨Nat.le_trans h.1 hgrows.clock, h.2.carry hgrows.seen hslots⟩
  | evaluating nowMs n i =>
    obtain ⟨⟨hi, hnow⟩, hinj, hrows, hdone, hfresh⟩ := h
    unfold CheckOk
    rw [hbuffer]
    refine ⟨⟨hi, Nat.le_trans hnow hgrows.clock⟩, hinj, fun j hj => (hrows j hj).grows hgrows hnow,
      fun j hj => ?_, fun j hij hj => (hfresh j hij hj).grows hgrows⟩
    unfold DoneRow
    rw [hgrows.seen]
    exact hdone j hj

/-- The steps that leave the checks, the buffer and the reports alone. -/
theorem Inv.carry (h : Inv max s) (hgrows : Grows s s') (hbuffer : s'.buffer = s.buffer)
    (hreports : s'.reports = s.reports) (hchecks : s'.checks = s.checks)
    (hnames : (s'.registry.map Prod.fst).Nodup) (hslotsNodup : (s'.registry.map Prod.snd).Nodup)
    (hmatched : ∀ i, i ∈ s'.registry.map Prod.snd ↔ i < max ∧ (s'.pool i).inUse = true)
    (hslots : ∀ i, (s'.pool i).inUse = true → Kept s s' i ∨ Renewed s s' i) : Inv max s' where
  names := hnames
  slots := hslotsNodup
  matched := hmatched
  live := by
    refine live_carry h.live hgrows.clock hgrows.seen (fun i hkept hmark => ?_) hslots
    unfold Marked
    rw [hchecks, hbuffer, hkept.1]
    exact hmark
  overdue := fun i hi hcurrent =>
    Nat.lt_of_lt_of_le (h.overdue.carry hgrows.seen hslots i hi hcurrent) hgrows.clock
  seen := seen_grows hgrows h.seen
  reported := by
    rw [hreports]
    exact reported_grows hgrows h.reported
  once := by
    rw [hreports, hgrows.seen]
    exact h.once
  sole := by
    rw [hchecks]
    exact h.sole
  checks t := by
    rw [hchecks]
    exact checkOk_grows hgrows hbuffer hslots (h.checks t)

theorem grows_of_same (hclock : s.clock ≤ s'.clock) (hpool : s'.pool = s.pool)
    (hstamps : s'.stamps = s.stamps) (hseen : s'.seen = s.seen) : Grows s s' where
  clock := hclock
  known i g h := by
    unfold Known
    rw [hpool]
    exact h
  stamps i g _ := ⟨[], by rw [hstamps]; rfl, by simp⟩
  seen := hseen
  miss i g _ hg := by
    rw [hpool] at hg ⊢
    exact ⟨hg, rfl, rfl⟩

theorem kept_of_same (hpool : s'.pool = s.pool) (hstamps : s'.stamps = s.stamps) (i : Nat) :
    Kept s s' i :=
  ⟨by rw [hpool], by rw [State.own, State.own, hpool, hstamps]⟩

/-! ## Registering and deregistering -/

theorem known_free {i g : Nat} (hfree : (s.pool i).inUse = false) (h : Known s i g) :
    g < (s.pool i).generation := by
  rcases h with hlt | ⟨-, huse⟩
  · exact hlt
  · rw [hfree] at huse
    cases huse

theorem known_le {i g : Nat} (h : Known s i g) : g ≤ (s.pool i).generation := by
  rcases h with hlt | ⟨heq, -⟩
  · exact Nat.le_of_lt hlt
  · exact Nat.le_of_eq heq

/-- A free slot gets another entry of the same generation. -/
theorem grows_free {slot : Nat} {entry : Entry} (hfree : (s.pool slot).inUse = false)
    (hgen : entry.generation = (s.pool slot).generation)
    (hclock : s'.clock = s.clock) (hpool : s'.pool = Function.update s.pool slot entry)
    (hstamps : ∀ i g, Known s i g → s'.stamps i g = s.stamps i g) (hseen : s'.seen = s.seen) :
    Grows s s' where
  clock := Nat.le_of_eq hclock.symm
  known i g h := by
    by_cases hi : i = slot
    · subst hi
      left
      rw [hpool, Function.update_self, hgen]
      exact known_free hfree h
    · unfold Known
      rw [hpool, Function.update_of_ne hi]
      exact h
  stamps i g h := ⟨[], hstamps i g h, by simp⟩
  seen := hseen
  miss i g h hg := by
    by_cases hi : i = slot
    · subst hi
      rw [hpool, Function.update_self, hgen] at hg
      exact absurd hg (Nat.ne_of_lt (known_free hfree h))
    · rw [hpool, Function.update_of_ne hi] at hg ⊢
      exact ⟨hg, rfl, rfl⟩

theorem inv_rolledBack (h : Inv max s) {slot : Nat} {entry : Entry}
    (hfree : (s.pool slot).inUse = false) (hgen : entry.generation = (s.pool slot).generation)
    (huse : entry.inUse = false) :
    Inv max { s with pool := Function.update s.pool slot entry } := by
  have hother : ∀ i, (Function.update s.pool slot entry i).inUse = true → i ≠ slot := by
    rintro i hi rfl
    rw [Function.update_self, huse] at hi
    cases hi
  refine h.carry (grows_free hfree hgen rfl rfl (fun _ _ _ => rfl) rfl) rfl rfl rfl h.names h.slots
    (fun i => ?_) fun i hi => ?_
  · rw [h.matched i]
    by_cases hi : i = slot
    · subst hi
      simp [hfree, huse]
    · simp [Function.update_of_ne hi]
  · have hpool : Function.update s.pool slot entry i = s.pool i :=
      Function.update_of_ne (hother i hi) _ _
    exact .inl ⟨hpool, by simp only [State.own, hpool]⟩

theorem inv_registered (h : Inv max s) {name : Bytes} {handle : Option Nat} {ms slot : Nat}
    (hslot : slot < max) (hfree : (s.pool slot).inUse = false)
    (hname : ∀ e ∈ s.registry, e.1 ≠ name) :
    Inv max
      { s with
        pool := Function.update s.pool slot ((s.pool slot).fresh handle ms)
        registry := s.registry ++ [(name, slot)]
        stamps := Function.update s.stamps slot
          (Function.update (s.stamps slot) (s.pool slot).generation [s.clock]) } := by
  have hunused : slot ∉ s.registry.map Prod.snd := by
    intro hmem
    have huse := ((h.matched slot).mp hmem).2
    rw [hfree] at huse
    cases huse
  have hgen : ((s.pool slot).fresh handle ms).generation = (s.pool slot).generation := rfl
  refine h.carry (grows_free hfree hgen rfl rfl (fun i g hknown => ?_) rfl) rfl rfl rfl ?_ ?_
    (fun i => ?_) fun i hi => ?_
  · -- The generation that is stamped anew was not known.
    by_cases hi : i = slot
    · subst hi
      have hlt := known_free hfree hknown
      simp only [Function.update_self]
      rw [Function.update_of_ne (Nat.ne_of_lt hlt)]
    · simp only [Function.update_of_ne hi]
  · rw [List.map_append, List.nodup_append]
    refine ⟨h.names, List.nodup_singleton _, ?_⟩
    rintro x hx y hy rfl
    obtain ⟨e, he, rfl⟩ := List.mem_map.mp hx
    exact hname e he (List.mem_singleton.mp hy)
  · rw [List.map_append, List.nodup_append]
    refine ⟨h.slots, List.nodup_singleton _, ?_⟩
    rintro x hx y hy rfl
    obtain rfl : x = slot := List.mem_singleton.mp hy
    exact hunused hx
  · rw [List.map_append, List.mem_append, h.matched i]
    by_cases hi : i = slot
    · subst hi
      simp [hslot, Entry.fresh]
    · simp [hi]
  · by_cases hi' : i = slot
    · subst hi'
      refine .inr ⟨fun hseen => ?_, ⟨s.clock, [], ?_, Nat.le_refl _⟩, ?_⟩
      · have hknown := (h.seen _ hseen).1
        simp only [State.current, Function.update_self, Entry.fresh] at hknown
        exact Nat.lt_irrefl _ (known_free hfree hknown)
      · simp [State.own, Entry.fresh]
      · simp [State.own, Entry.fresh, lastFed]
    · have hpool : Function.update s.pool slot ((s.pool slot).fresh handle ms) i = s.pool i :=
        Function.update_of_ne hi' _ _
      refine .inl ⟨hpool, ?_⟩
      simp only [State.own, hpool, Function.update_of_ne hi']

/-- Erasing an entry by its name removes its slot, and no other. -/
theorem mem_slots_eraseP {registry : List (Bytes × Nat)} {name : Bytes} {slot : Nat}
    (hnames : (registry.map Prod.fst).Nodup) (hslots : (registry.map Prod.snd).Nodup)
    (hmem : (name, slot) ∈ registry) (i : Nat) :
    i ∈ (registry.eraseP fun e => e.1 = name).map Prod.snd ↔
      i ∈ registry.map Prod.snd ∧ i ≠ slot := by
  obtain ⟨e, l, k, -, hname, hsplit, herase⟩ :=
    @List.exists_of_eraseP _ (fun e : Bytes × Nat => decide (e.1 = name)) registry _ hmem (by simp)
  have he : e = (name, slot) := by
    have hinj := List.inj_on_of_nodup_map hnames
    exact hinj (by rw [hsplit]; simp) hmem (by simpa using hname)
  rw [herase]
  rw [hsplit, he] at hslots ⊢
  simp only [List.map_append, List.map_cons, List.mem_append, List.mem_cons]
  rw [List.map_append, List.map_cons, List.nodup_middle, List.nodup_cons] at hslots
  have hfresh := hslots.1
  rw [List.mem_append, not_or] at hfresh
  constructor
  · rintro (hl | hk)
    · exact ⟨.inl hl, fun heq => hfresh.1 (heq ▸ hl)⟩
    · exact ⟨.inr (.inr hk), fun heq => hfresh.2 (heq ▸ hk)⟩
  · rintro ⟨hl | heq | hk, hne⟩
    · exact .inl hl
    · exact absurd heq hne
    · exact .inr hk

theorem grows_deregistered {slot : Nat} (registry : List (Bytes × Nat)) :
    Grows s { s with
      registry := registry
      pool := Function.update s.pool slot
        { s.pool slot with inUse := false, generation := (s.pool slot).generation + 1 } } where
  clock := Nat.le_refl _
  known i g h := by
    by_cases hi : i = slot
    · subst hi
      left
      simp only [Function.update_self]
      exact Nat.lt_succ_of_le (known_le h)
    · unfold Known
      simp only [Function.update_of_ne hi]
      exact h
  stamps i g _ := ⟨[], rfl, by simp⟩
  seen := rfl
  miss i g h hg := by
    by_cases hi : i = slot
    · subst hi
      simp only [Function.update_self] at hg
      have hle := known_le h
      omega
    · simp only [Function.update_of_ne hi] at hg ⊢
      exact ⟨hg, trivial, trivial⟩

theorem inv_deregistered (h : Inv max s) {name : Bytes} {slot : Nat}
    (hmem : (name, slot) ∈ s.registry) :
    Inv max { s with
      registry := s.registry.eraseP fun e => e.1 = name
      pool := Function.update s.pool slot
        { s.pool slot with inUse := false, generation := (s.pool slot).generation + 1 } } := by
  have hsub := @List.eraseP_sublist _ (fun e : Bytes × Nat => decide (e.1 = name)) s.registry
  refine h.carry (grows_deregistered _) rfl rfl rfl ((hsub.map _).nodup h.names)
    ((hsub.map _).nodup h.slots) (fun i => ?_) fun i hi => ?_
  · rw [mem_slots_eraseP h.names h.slots hmem, h.matched i]
    by_cases hi : i = slot
    · subst hi
      simp
    · simp [hi]
  · have hne : i ≠ slot := by
      rintro rfl
      simp at hi
    exact .inl ⟨Function.update_of_ne hne _ _, by simp [State.own, Function.update_of_ne hne]⟩

/-! ## Feeding -/

theorem grows_stored [DecidableEq τ] {t : τ} {slot generation : Nat} :
    Grows s (storeStamp s t slot generation) where
  clock := Nat.le_refl _
  known i g h := by
    by_cases hi : i = slot
    · subst hi
      simpa [Known, storeStamp] using h
    · simpa [Known, storeStamp, Function.update_of_ne hi] using h
  stamps i g _ := by
    by_cases hi : i = slot
    · subst hi
      by_cases hg : g = generation
      · subst hg
        exact ⟨[s.clock], by simp [storeStamp], by simp [storeStamp]⟩
      · exact ⟨[], by simp [storeStamp, Function.update_of_ne hg], by simp⟩
    · exact ⟨[], by simp [storeStamp, Function.update_of_ne hi], by simp⟩
  seen := rfl
  miss i g _ hg := by
    by_cases hi : i = slot
    · subst hi
      simpa [storeStamp] using hg
    · simpa [storeStamp, Function.update_of_ne hi] using hg

theorem inv_stored [DecidableEq τ] (h : Inv max s) {t : τ} {slot generation : Nat}
    (howner : (s.pool slot).inUse = true → (s.pool slot).generation = generation) :
    Inv max (storeStamp s t slot generation) := by
  refine h.carry grows_stored rfl rfl rfl h.names h.slots (fun i => ?_) fun i hi => ?_
  · have hmatched := h.matched i
    by_cases hi : i = slot
    · subst hi
      simpa [storeStamp] using hmatched
    · simpa [storeStamp, Function.update_of_ne hi] using hmatched
  · by_cases hslot : i = slot
    · subst hslot
      have huse : (s.pool i).inUse = true := by simpa [storeStamp] using hi
      obtain ⟨⟨stamp, rest, hown, -⟩, -, -⟩ := h.live i huse
      have hown' : (storeStamp s t i generation).own i = s.clock :: s.own i := by
        simp [State.own, storeStamp, howner huse]
      refine .inr ⟨fun hseen => ?_, ⟨s.clock, s.own i, hown', Nat.le_refl _⟩, ?_⟩
      · -- The period is a new one.
        have hperiod := (h.seen _ hseen).2
        simp only [State.current, hown', List.length_cons] at hperiod
        have hgen : ((storeStamp s t i generation).pool i).generation = (s.pool i).generation := by
          simp [storeStamp]
        rw [hgen] at hperiod
        exact Nat.not_succ_le_self _ hperiod
      · rw [hown', hown]
        simp [storeStamp, lastFed]
    · exact .inl ⟨Function.update_of_ne hslot _ _, by
        simp [State.own, storeStamp, Function.update_of_ne hslot]⟩

/-! ## Calling a check, and its snapshot -/

/-- With no check under way the miss flags say everything. -/
theorem marked_of_idle {i : Nat} (hidle : ∀ t nowMs n j, s.checks t ≠ .evaluating nowMs n j)
    (h : Marked s i) : (s.pool i).missActive = true := by
  rcases h with hflag | ⟨t, nowMs, n, j, k, hpc, -⟩
  · exact hflag
  · exact absurd hpc (hidle t nowMs n j)

/-- Everything but the caller of a check is idle. -/
theorem Inv.others_idle (h : Inv max s) {t : τ} (ht : s.checks t ≠ .idle) :
    ∀ u, u ≠ t → s.checks u = .idle := by
  intro u hu
  by_contra hbusy
  exact hu (h.sole u t hbusy ht)

/-- The only task that checks goes on. -/
theorem checks_update [DecidableEq τ] {t : τ} {pc : CheckPc}
    (hothers : ∀ u, u ≠ t → s.checks u = .idle)
    (hchecks : s'.checks = Function.update s.checks t pc) (hpc : CheckOk s' pc) :
    (∀ u v, s'.checks u ≠ .idle → s'.checks v ≠ .idle → u = v) ∧
      ∀ u, CheckOk s' (s'.checks u) := by
  have hself : ∀ u, u ≠ t → s'.checks u = .idle := by
    intro u hu
    rw [hchecks, Function.update_of_ne hu]
    exact hothers u hu
  constructor
  · intro u v hu hv
    have hut : u = t := by
      by_contra hne
      exact hu (hself u hne)
    have hvt : v = t := by
      by_contra hne
      exact hv (hself v hne)
    rw [hut, hvt]
  · intro u
    by_cases hu : u = t
    · rw [hu, hchecks, Function.update_self]
      exact hpc
    · rw [hself u hu]
      trivial

theorem inv_called [DecidableEq τ] (h : Inv max s) {t : τ} (halone : ∀ u, s.checks u = .idle) :
    Inv max { s with checks := Function.update s.checks t (.called s.clock) } := by
  have hpc : CheckOk { s with checks := Function.update s.checks t (.called s.clock) }
      (.called s.clock) := ⟨Nat.le_refl _, h.overdue⟩
  have hidle : ∀ u nowMs n j, s.checks u ≠ .evaluating nowMs n j := fun u nowMs n j => by
    simp [halone u]
  obtain ⟨hsole, hchecks⟩ := checks_update (fun u _ => halone u) rfl hpc
  refine ⟨h.names, h.slots, h.matched, fun i hi => ?_, h.overdue, h.seen, h.reported, h.once,
    hsole, hchecks⟩
  obtain ⟨hstamped, hfed, hmarked⟩ := h.live i hi
  have hflag : s.current i ∈ s.seen → (s.pool i).missActive = true := fun hcurrent =>
    marked_of_idle hidle (hmarked hcurrent)
  exact ⟨hstamped, hfed, fun hcurrent => .inl (hflag hcurrent)⟩

theorem map_slot_snapshot (s : State τ) (l : List (Bytes × Nat)) :
    ((l.filterMap (snapshotRow s)).map Row.slot).Sublist (l.map Prod.snd) := by
  induction l with
  | nil => exact List.Sublist.refl []
  | cons e rest ih =>
    by_cases hzero : (s.pool e.2).swWdtTimeoutMs = 0
    · have hnone : snapshotRow s e = none := by simp [snapshotRow, hzero]
      rw [List.filterMap_cons_none hnone]
      exact ih.trans (List.sublist_cons_self _ _)
    · obtain ⟨row, hrow, hslot⟩ : ∃ row, snapshotRow s e = some row ∧ row.slot = e.2 := by
        simp [snapshotRow, hzero]
      rw [List.filterMap_cons_some hrow, List.map_cons, List.map_cons, hslot]
      exact ih.cons_cons _

/-- What the snapshot writes down of a slot that it sees right. -/
theorem fresh_snapshot (h : Inv max s) (hidle : ∀ t nowMs n j, s.checks t ≠ .evaluating nowMs n j)
    {nowMs : Nat} (hstill : StillOverdue s nowMs) {e : Bytes × Nat}
    (he : e ∈ s.registry) {row : Row} (hrow : snapshotRow s e = some row)
    (hright : (s.pool e.2).swWdtTimeoutMs ≠ 0 → SeenRight s nowMs e.2) :
    RowOk s nowMs row ∧ FreshRow s nowMs row := by
  have huse := ((h.matched e.2).mp (List.mem_map_of_mem he)).2
  obtain ⟨⟨stamp, rest, hown, -⟩, hfed, hmarked⟩ := h.live e.2 huse
  unfold snapshotRow at hrow
  dsimp only at hrow
  split at hrow
  next => cases hrow
  next hwatched =>
    obtain ⟨hunfed, hwasFed, hagain⟩ := hright hwatched
    have hstamps : s.stamps e.2 (s.pool e.2).generation = stamp :: rest := hown
    rw [hown, List.headD_cons] at hunfed hwasFed hagain
    cases hrow
    refine ⟨⟨.inr ⟨rfl, huse⟩, ⟨[], rest, ?_, ?_, by simp⟩, fun k hk => (h.seen _ hk).2,
      fun _ => rfl, fun _ _ => rfl⟩, ⟨rfl, ?_, fun hkey => ⟨?_, ?_⟩, fun hmiss hkey => ?_⟩⟩
    · rw [hstamps]
      rfl
    · rw [hstamps]
      rfl
    · unfold Row.overdue Row.overdueSince
      dsimp only
      rw [hstamps, List.headD_cons, hfed, hown, decide_eq_true_iff]
      cases rest with
      | nil =>
        obtain ⟨hsmall, hcase⟩ := hunfed rfl
        have hzero : lastFed [stamp] = 0 := rfl
        left
        rw [hzero, ageMs_zero hsmall]
        omega
      | cons next older =>
        obtain ⟨hbefore, hnear⟩ := hwasFed (by simp)
        rcases Nat.lt_or_ge nowMs stamp with hlt | hle
        · exact .inr ⟨by omega, hbefore hlt⟩
        · left
          have hlast : lastFed (stamp :: next :: older) = stamp := rfl
          rw [hlast, ageMs_of_le hle hnear]
          omega
    · exact marked_of_idle hidle (hmarked hkey)
    · have hlate := hstill e.2 huse hkey
      unfold Row.overdueSince
      dsimp only
      rw [hown] at hlate
      rw [hstamps]
      exact hlate
    · have hle := hagain hmiss hkey
      unfold Row.overdueSince
      dsimp only
      rw [hstamps, List.headD_cons]
      omega

theorem inv_copied [DecidableEq τ] (h : Inv max s) {t : τ} {nowMs : Nat}
    (hcalled : s.checks t = .called nowMs)
    (hright : ∀ e ∈ s.registry, (s.pool e.2).swWdtTimeoutMs ≠ 0 → SeenRight s nowMs e.2) :
    Inv max (takeSnapshot s t nowMs) := by
  have hothers := h.others_idle (t := t) (by simp [hcalled])
  have hidle : ∀ u nowMs n j, s.checks u ≠ .evaluating nowMs n j := by
    intro u nowMs' n j hpc
    by_cases hu : u = t
    · rw [hu, hcalled] at hpc
      cases hpc
    · rw [hothers u hu] at hpc
      cases hpc
  obtain ⟨hnow, hstill⟩ : nowMs ≤ s.clock ∧ StillOverdue s nowMs := by
    have hcheck := h.checks t
    rw [hcalled] at hcheck
    exact hcheck
  have hgrows : Grows s (takeSnapshot s t nowMs) := grows_of_same (Nat.le_refl _) rfl rfl rfl
  have hbuffer : ∀ j (hj : j < (snapshotRows s).length),
      (takeSnapshot s t nowMs).buffer j = (snapshotRows s)[j] := by
    intro j hj
    simp [takeSnapshot, List.getElem?_eq_getElem hj]
  have hrow : ∀ j < (snapshotRows s).length, RowOk s nowMs ((takeSnapshot s t nowMs).buffer j) ∧
      FreshRow s nowMs ((takeSnapshot s t nowMs).buffer j) := by
    intro j hj
    rw [hbuffer j hj]
    obtain ⟨e, he, hsome⟩ := List.mem_filterMap.mp (List.getElem_mem hj)
    exact fresh_snapshot h hidle hstill he hsome (hright e he)
  have hpc : CheckOk (takeSnapshot s t nowMs) (.evaluating nowMs (snapshotRows s).length 0) := by
    refine ⟨⟨Nat.zero_le _, hnow⟩, fun j hj k hk hslot => ?_, fun j hj => (hrow j hj).1.grows hgrows hnow,
      fun j hj => absurd hj (Nat.not_lt_zero j), fun j _ hj => (hrow j hj).2.grows hgrows⟩
    rw [hbuffer j hj, hbuffer k hk] at hslot
    have hnodup := (map_slot_snapshot s s.registry).nodup h.slots
    have hinj := List.inj_on_of_nodup_map hnodup
    have hnodupRows : (snapshotRows s).Nodup := hnodup.of_map _
    exact (hnodupRows.getElem_inj_iff).mp (hinj (List.getElem_mem hj) (List.getElem_mem hk) hslot)
  obtain ⟨hsole, hchecks⟩ := checks_update hothers rfl hpc
  refine ⟨h.names, h.slots, h.matched, fun i hi => ?_, h.overdue, h.seen, h.reported, h.once,
    hsole, hchecks⟩
  obtain ⟨hstamped, hfed, hmarked⟩ := h.live i hi
  have hflag : s.current i ∈ s.seen → (s.pool i).missActive = true := fun hcurrent =>
    marked_of_idle hidle (hmarked hcurrent)
  exact ⟨hstamped, hfed, fun hcurrent => .inl (hflag hcurrent)⟩

/-! ## Evaluating a row -/

/-- The evaluation of a row that the snapshot saw right. -/
theorem evaluateRow_cases {nowMs : Nat} {row : Row} (h : FreshRow s nowMs row) :
    (row.overdueSince nowMs ∧ row.key ∉ s.seen ∧
      evaluateRow nowMs row = (some (row.report nowMs), { row with
        missCount := row.missCount + 1, lastMissMs := nowMs, missActive := true, dirty := true })) ∨
    (row.overdueSince nowMs ∧ row.key ∈ s.seen ∧ row.missActive = true ∧
      evaluateRow nowMs row = (none, row)) ∨
    (¬ row.overdueSince nowMs ∧ row.key ∉ s.seen ∧
      (evaluateRow nowMs row = (none, row) ∨
        evaluateRow nowMs row = (none, { row with missActive := false, dirty := true }))) := by
  have hcode : row.overdueSince nowMs → row.overdue nowMs = true := fun hlate => by
    rcases h.verdict with hiff | ⟨hnot, -⟩
    · exact hiff.mpr hlate
    · exact absurd hlate hnot
  by_cases hlate : row.overdueSince nowMs
  · by_cases hseen : row.key ∈ s.seen
    · have hmiss := (h.again hseen).1
      exact .inr (.inl ⟨hlate, hseen, hmiss, by simp [evaluateRow, hcode hlate, hmiss]⟩)
    · have hmiss : row.missActive = false := by
        cases hflag : row.missActive with
        | false => rfl
        | true => exact absurd hlate (h.stale hflag hseen)
      exact .inl ⟨hlate, hseen, if_pos ⟨hcode hlate, hmiss⟩⟩
  · have hseen : row.key ∉ s.seen := fun hkey => hlate (h.again hkey).2
    refine .inr (.inr ⟨hlate, hseen, ?_⟩)
    cases hmiss : row.missActive with
    | false =>
      have hquiet : row.overdue nowMs = false := by
        rcases h.verdict with hiff | ⟨-, hflag⟩
        · exact Bool.eq_false_iff.mpr (mt hiff.mp hlate)
        · rw [hmiss] at hflag
          cases hflag
      left
      simp [evaluateRow, hquiet, hmiss]
    | true =>
      cases hcode : row.overdue nowMs with
      | false =>
        right
        simp [evaluateRow, hcode, hmiss]
      | true =>
        left
        simp [evaluateRow, hcode, hmiss]

/-- A row that is found overdue belongs to a task that is not on time. -/
theorem RowOk.not_onTime {nowMs : Nat} {row : Row} (h : RowOk s nowMs row) (hnow : nowMs ≤ s.clock)
    (hlate : row.overdueSince nowMs) :
    ¬ OnTime row.swWdtTimeoutMs s.clock (s.stamps row.slot row.generation) := by
  obtain ⟨later, older, hsplit, -, hlater⟩ := h.history
  intro hon
  rw [hsplit] at hon
  have hlast := onTime_of_append hnow hlater hon
  have hle : nowMs ≤ row.since + row.swWdtTimeoutMs := hlast.1
  unfold Row.overdueSince at hlate
  omega

/-- The key of a row is the current one of its slot only if it has not been fed since. -/
theorem RowOk.since_of_current {nowMs : Nat} {row : Row} (h : RowOk s nowMs row) {i : Nat}
    (hkey : s.current i = row.key) :
    row.slot = i ∧ row.generation = (s.pool i).generation ∧ (s.own i).headD 0 = row.since := by
  have hslot : i = row.slot := congrArg Key.slot hkey
  have hgen : (s.pool i).generation = row.generation := congrArg Key.generation hkey
  have hperiod : (s.own i).length = row.period := congrArg Key.period hkey
  obtain ⟨later, older, hsplit, hlen, -⟩ := h.history
  have hown : s.own i = later ++ row.since :: older := by
    rw [State.own, hgen, hslot]
    exact hsplit
  refine ⟨hslot.symm, hgen.symm, ?_⟩
  rw [hown, List.length_append, List.length_cons, hlen] at hperiod
  have hnil : later = [] := List.eq_nil_of_length_eq_zero (by omega)
  rw [hown, hnil]
  rfl

/-- A row keeps its identity when it is evaluated. -/
theorem evaluateRow_same (nowMs : Nat) (row : Row) :
    (evaluateRow nowMs row).2 = { row with
      missCount := (evaluateRow nowMs row).2.missCount
      lastMissMs := (evaluateRow nowMs row).2.lastMissMs
      missActive := (evaluateRow nowMs row).2.missActive
      dirty := (evaluateRow nowMs row).2.dirty } := by
  unfold evaluateRow
  split
  · rfl
  · split <;> rfl

theorem key_evaluateRow (nowMs : Nat) (row : Row) : (evaluateRow nowMs row).2.key = row.key := by
  unfold Row.key
  rw [evaluateRow_same]

section Evaluated

variable [DecidableEq τ] {t : τ} {nowMs n i : Nat}

theorem mem_seen_evaluated {key : Key} : key ∈ (evaluateNext s t nowMs n i).seen ↔
    key ∈ s.seen ∨ ((s.buffer i).overdueSince nowMs ∧ key = (s.buffer i).key) := by
  unfold evaluateNext
  dsimp only
  split
  next hlate => simp [hlate, or_comm]
  next hlate => simp [hlate]

@[simp] theorem buffer_evaluated_self :
    (evaluateNext s t nowMs n i).buffer i = (evaluateRow nowMs (s.buffer i)).2 :=
  Function.update_self ..

theorem buffer_evaluated_of_ne {j : Nat} (hne : j ≠ i) :
    (evaluateNext s t nowMs n i).buffer j = s.buffer j :=
  Function.update_of_ne hne _ _

theorem slot_evaluated (j : Nat) :
    ((evaluateNext s t nowMs n i).buffer j).slot = (s.buffer j).slot := by
  by_cases hj : j = i
  · subst hj
    rw [buffer_evaluated_self, evaluateRow_same]
  · rw [buffer_evaluated_of_ne hj]

/-- A row that has not been evaluated now keeps what holds of it. -/
theorem rowOk_evaluated {row : Row} (h : RowOk s nowMs row) (hslot : row.slot ≠ (s.buffer i).slot) :
    RowOk (evaluateNext s t nowMs n i) nowMs row where
  known := h.known
  history := h.history
  newest k hk := by
    rcases mem_seen_evaluated.mp hk with hold | ⟨-, hnew⟩
    · exact h.newest k hold
    · exact absurd (congrArg Key.slot hnew) hslot
  timeout := h.timeout
  clean := h.clean

theorem rowOk_evaluated_self (h : RowOk s nowMs (s.buffer i)) :
    RowOk (evaluateNext s t nowMs n i) nowMs (evaluateRow nowMs (s.buffer i)).2 := by
  have hsame := evaluateRow_same nowMs (s.buffer i)
  refine ⟨?_, ?_, ?_, ?_, ?_⟩
  · rw [hsame]
    exact h.known
  · rw [hsame]
    exact h.history
  · rw [hsame]
    intro k hk
    rcases mem_seen_evaluated.mp hk with hold | ⟨-, hnew⟩
    · exact h.newest k hold
    · exact Nat.le_of_eq (congrArg Key.period hnew)
  · rw [hsame]
    exact h.timeout
  · intro hclean hgen
    have hkept : (evaluateRow nowMs (s.buffer i)).2 = s.buffer i := by
      unfold evaluateRow at hclean ⊢
      split at hclean
      next => cases hclean
      next hnot =>
        rw [if_neg hnot]
        split at hclean
        next => cases hclean
        next hnot' => exact congrArg Prod.snd (if_neg hnot')
    rw [hkept] at hclean hgen ⊢
    exact h.clean hclean hgen

theorem freshRow_evaluated {row : Row} (h : FreshRow s nowMs row)
    (hkey : row.key ≠ (s.buffer i).key) : FreshRow (evaluateNext s t nowMs n i) nowMs row := by
  have hseen : row.key ∈ (evaluateNext s t nowMs n i).seen ↔ row.key ∈ s.seen := by
    rw [mem_seen_evaluated]
    exact or_iff_left fun hnew => hkey hnew.2
  exact ⟨h.clean, h.verdict, fun hk => h.again (hseen.mp hk),
    fun hm hk => h.stale hm (mt hseen.mpr hk)⟩

theorem doneRow_evaluated_self (h : FreshRow s nowMs (s.buffer i)) :
    DoneRow (evaluateNext s t nowMs n i) (evaluateRow nowMs (s.buffer i)).2 := by
  intro hkey
  rw [key_evaluateRow, mem_seen_evaluated] at hkey
  rcases evaluateRow_cases h with ⟨-, -, heq⟩ | ⟨-, -, hmiss, heq⟩ | ⟨hnot, hunseen, -⟩
  · rw [heq]
  · rw [heq]
    exact hmiss
  · rcases hkey with hold | ⟨hlate, -⟩
    · exact absurd hold hunseen
    · exact absurd hlate hnot

theorem reports_evaluated : (evaluateNext s t nowMs n i).reports =
    s.reports ++ (evaluateRow nowMs (s.buffer i)).1.toList :=
  rfl

/-- Each evaluation makes the report that is due, and no other. -/
theorem once_evaluated (hfresh : FreshRow s nowMs (s.buffer i))
    (h : ∀ key, (s.reports.map Report.key).count key = if key ∈ s.seen then 1 else 0) (key : Key) :
    ((evaluateNext s t nowMs n i).reports.map Report.key).count key =
      if key ∈ (evaluateNext s t nowMs n i).seen then 1 else 0 := by
  rw [reports_evaluated, List.map_append, List.count_append, h key]
  rcases evaluateRow_cases hfresh with ⟨hlate, hunseen, heq⟩ | ⟨hlate, hseen, -, heq⟩ |
    ⟨hnot, hunseen, heq⟩
  · have hreport : ((s.buffer i).report nowMs).key = (s.buffer i).key := rfl
    rw [heq, Option.toList_some, List.map_singleton, hreport, List.count_singleton]
    by_cases hkey : key = (s.buffer i).key
    · have hnew : key ∈ (evaluateNext s t nowMs n i).seen :=
        mem_seen_evaluated.mpr (.inr ⟨hlate, hkey⟩)
      rw [if_pos hnew, hkey, if_neg hunseen]
      simp
    · have hsame : key ∈ (evaluateNext s t nowMs n i).seen ↔ key ∈ s.seen := by
        rw [mem_seen_evaluated]
        exact or_iff_left fun hnew => hkey hnew.2
      simp [hsame, Ne.symm hkey]
  · rw [heq]
    have hsame : key ∈ (evaluateNext s t nowMs n i).seen ↔ key ∈ s.seen := by
      rw [mem_seen_evaluated]
      exact or_iff_left_of_imp fun hnew => hnew.2 ▸ hseen
    simp [hsame]
  · have hsame : key ∈ (evaluateNext s t nowMs n i).seen ↔ key ∈ s.seen := by
      rw [mem_seen_evaluated]
      exact or_iff_left fun hnew => hnot hnew.1
    rcases heq with heq | heq <;> simp [heq, hsame]

/-- The row that is reported carries the flag until it is written back. -/
theorem marked_evaluated (h : Inv max s) (hpc : s.checks t = .evaluating nowMs n i) (hi : i < n)
    {j : Nat} (hj : (s.pool j).inUse = true)
    (hcurrent : s.current j ∈ (evaluateNext s t nowMs n i).seen) :
    Marked (evaluateNext s t nowMs n i) j := by
  have hcheck := h.checks t
  rw [hpc] at hcheck
  obtain ⟨-, -, hrows, -, hfresh⟩ := hcheck
  have hpc' : (evaluateNext s t nowMs n i).checks t = .evaluating nowMs n (i + 1) :=
    Function.update_self ..
  by_cases hold : s.current j ∈ s.seen
  · rcases (h.live j hj).marked hold with hflag | ⟨u, nowMs', n', m, k, hpcU, hk, hrest⟩
    · exact .inl hflag
    · have hu : u = t := h.sole u t (by simp [hpcU]) (by simp [hpc])
      rw [hu, hpc] at hpcU
      cases hpcU
      have hbuffer := @buffer_evaluated_of_ne _ s _ t nowMs n i k (Nat.ne_of_lt hk)
      refine .inr ⟨t, nowMs, n, i + 1, k, hpc', Nat.lt_succ_of_lt hk, ?_⟩
      rw [hbuffer]
      exact hrest
  · obtain ⟨hlate, hkey⟩ := (mem_seen_evaluated.mp hcurrent).resolve_left hold
    obtain ⟨hslot, hgen, -⟩ := (hrows i hi).since_of_current hkey
    refine .inr ⟨t, nowMs, n, i + 1, i, hpc', Nat.lt_succ_self i, ?_⟩
    rcases evaluateRow_cases (hfresh i (Nat.le_refl i) hi) with ⟨-, -, heq⟩ | ⟨-, hseen, -⟩ | ⟨hnot, -⟩
    · rw [buffer_evaluated_self, heq]
      exact ⟨hslot, hgen, rfl, rfl⟩
    · exact absurd (hkey ▸ hseen) hold
    · exact absurd hlate hnot

theorem inv_evaluated (h : Inv max s) (hpc : s.checks t = .evaluating nowMs n i) (hi : i < n) :
    Inv max (evaluateNext s t nowMs n i) := by
  have hothers := h.others_idle (t := t) (by simp [hpc])
  have hcheck := h.checks t
  rw [hpc] at hcheck
  obtain ⟨⟨-, hnow⟩, hinj, hrows, hdone, hfresh⟩ := hcheck
  have hrow := hrows i hi
  have hfreshI := hfresh i (Nat.le_refl i) hi
  have hcases := evaluateRow_cases hfreshI
  have hslot : ∀ j < n, j ≠ i → (s.buffer j).slot ≠ (s.buffer i).slot := fun j hj hne heq =>
    hne (hinj j hj i hi heq)
  have hkey : ∀ j < n, j ≠ i → (s.buffer j).key ≠ (s.buffer i).key := fun j hj hne heq =>
    hslot j hj hne (congrArg Key.slot heq)
  have hpc' : CheckOk (evaluateNext s t nowMs n i) (.evaluating nowMs n (i + 1)) := by
    refine ⟨⟨hi, hnow⟩, fun j hj k hk heq => ?_, fun j hj => ?_, fun j hj => ?_, fun j hij hj => ?_⟩
    · rw [slot_evaluated, slot_evaluated] at heq
      exact hinj j hj k hk heq
    · by_cases hji : j = i
      · rw [hji, buffer_evaluated_self]
        exact rowOk_evaluated_self hrow
      · rw [buffer_evaluated_of_ne hji]
        exact rowOk_evaluated (hrows j hj) (hslot j hj hji)
    · by_cases hji : j = i
      · rw [hji, buffer_evaluated_self]
        exact doneRow_evaluated_self hfreshI
      · have hlt : j < i := by omega
        rw [buffer_evaluated_of_ne hji]
        intro hseen
        rcases mem_seen_evaluated.mp hseen with hold | ⟨-, hnew⟩
        · exact hdone j hlt hold
        · exact absurd hnew (hkey j (Nat.lt_trans hlt hi) hji)
    · have hji : j ≠ i := by omega
      rw [buffer_evaluated_of_ne hji]
      exact freshRow_evaluated (hfresh j (by omega) hj) (hkey j hj hji)
  obtain ⟨hsole, hchecks⟩ := checks_update hothers rfl hpc'
  refine ⟨h.names, h.slots, h.matched, fun j hj => ?_, fun j hj hcurrent => ?_, fun key hk => ?_,
    fun r hr => ?_, once_evaluated hfreshI h.once, hsole, hchecks⟩
  · obtain ⟨hstamped, hfed, -⟩ := h.live j hj
    exact ⟨hstamped, hfed, fun hcurrent => marked_evaluated h hpc hi hj hcurrent⟩
  · rcases mem_seen_evaluated.mp hcurrent with hold | ⟨hlate, hnew⟩
    · exact h.overdue j hj hold
    · obtain ⟨hslotJ, hgen, hsince⟩ := hrow.since_of_current (i := j) hnew
      have htimeout := hrow.timeout (by rw [hslotJ, hgen])
      rw [hslotJ] at htimeout
      have hlate' : (s.own j).headD 0 + (s.pool j).swWdtTimeoutMs < nowMs := by
        rw [hsince, ← htimeout]
        exact hlate
      exact Nat.lt_of_lt_of_le hlate' hnow
  · rcases mem_seen_evaluated.mp hk with hold | ⟨-, rfl⟩
    · exact h.seen key hold
    · obtain ⟨later, older, hsplit, hperiod, -⟩ := hrow.history
      refine ⟨hrow.known, ?_⟩
      have hlength : (s.stamps (s.buffer i).slot (s.buffer i).generation).length =
          later.length + (s.buffer i).period := by
        rw [hsplit, List.length_append, List.length_cons, hperiod]
      have hle : (s.buffer i).period ≤
          (s.stamps (s.buffer i).slot (s.buffer i).generation).length := by omega
      exact hle
  · rw [reports_evaluated, List.mem_append] at hr
    rcases hr with hold | hnew
    · exact h.reported r hold
    · rcases hcases with ⟨hlate, -, heq⟩ | ⟨-, -, -, heq⟩ | ⟨-, -, heq | heq⟩
      · rw [heq, Option.toList_some, List.mem_singleton] at hnew
        subst hnew
        exact ⟨hrow.known, hrow.not_onTime hnow hlate⟩
      all_goals
        rw [heq] at hnew
        cases hnew

end Evaluated

/-! ## Writing back -/

/-- A pool in which only what the watchdog has found is another. -/
theorem own_of_same {pool : Nat → Entry} {j : Nat} (hsame : SameButMiss (s.pool j) (pool j)) :
    ({ s with pool := pool } : State τ).own j = s.own j := by
  unfold State.own
  rw [hsame.generation]

theorem known_of_same {pool : Nat → Entry} (hsame : ∀ j, SameButMiss (s.pool j) (pool j))
    {j g : Nat} (h : Known s j g) : Known ({ s with pool := pool } : State τ) j g := by
  unfold Known
  dsimp only
  rw [hsame j]
  exact h

section Wrote

variable [DecidableEq τ] {t : τ} {nowMs n i : Nat}

omit [DecidableEq τ] in
/-- The rows of a complete check leave each miss flag as it should be. -/
theorem missActive_wrote (h : Inv max s) (hpc : s.checks t = .evaluating nowMs n n)
    (hcareful : ∀ j < n, (s.buffer j).Writes s.pool →
      (s.pool (s.buffer j).slot).generation = (s.buffer j).generation)
    {j : Nat} (hj : (s.pool j).inUse = true) (hcurrent : s.current j ∈ s.seen) :
    (writeRows s.buffer n s.pool j).missActive = true := by
  have hcheck := h.checks t
  rw [hpc] at hcheck
  obtain ⟨-, -, hrows, hdone, -⟩ := hcheck
  rcases writeRows_cases s.buffer s.pool n j with ⟨k, hk, hslot, hwrites, hmiss⟩ | ⟨hnone, hkept⟩
  · -- The row is of the registration, and of its present period.
    have hgen : (s.pool j).generation = (s.buffer k).generation := hslot ▸ hcareful k hk hwrites
    obtain ⟨later, older, hsplit, hperiod, -⟩ := (hrows k hk).history
    have hown : s.own j = later ++ (s.buffer k).since :: older := by
      rw [State.own, hgen, ← hslot]
      exact hsplit
    have hlength : (s.own j).length = later.length + (s.buffer k).period := by
      rw [hown, List.length_append, List.length_cons, hperiod]
    have hcurrent' : (⟨(s.buffer k).slot, (s.buffer k).generation, (s.own j).length⟩ : Key) ∈
        s.seen := by
      rw [hslot, ← hgen]
      exact hcurrent
    have hnewest := (hrows k hk).newest _ hcurrent'
    have hkey : (s.buffer k).key ∈ s.seen := by
      have heq : (s.own j).length = (s.buffer k).period := by omega
      rw [heq] at hcurrent'
      exact hcurrent'
    rw [hmiss]
    exact hdone k hk hkey
  · rw [hkept]
    rcases (h.live j hj).marked hcurrent with hflag | ⟨u, now', n', m, k, hpcU, hk, hslot, hgen,
      hdirty, -⟩
    · exact hflag
    · have hu : u = t := h.sole u t (by simp [hpcU]) (by simp [hpc])
      rw [hu, hpc] at hpcU
      cases hpcU
      refine absurd ⟨hdirty, ?_⟩ (hnone k hk hslot)
      rw [hslot, hgen]
      exact decide_eq_true rfl

theorem inv_wrote (h : Inv max s) (hpc : s.checks t = .evaluating nowMs n i) (hi : n ≤ i)
    (hcareful : ∀ j < n, (s.buffer j).Writes s.pool →
      (s.pool (s.buffer j).slot).generation = (s.buffer j).generation) :
    Inv max
      { s with
        pool := writeRows s.buffer n s.pool
        checks := Function.update s.checks t .idle } := by
  obtain rfl : i = n := by
    have hcheck := h.checks t
    rw [hpc] at hcheck
    exact Nat.le_antisymm hcheck.1.1 hi
  have hsame := writeRows_same s.buffer s.pool i
  have huse : ∀ j, (writeRows s.buffer i s.pool j).inUse = (s.pool j).inUse := fun j => by
    rw [hsame j]
  have hown := fun j => own_of_same (hsame j)
  obtain ⟨hsole, hchecks⟩ := @checks_update _ s
    { s with pool := writeRows s.buffer i s.pool, checks := Function.update s.checks t .idle } _ t
    .idle (h.others_idle (by simp [hpc])) rfl trivial
  have hcurrent : ∀ j, ({ s with
      pool := writeRows s.buffer i s.pool
      checks := Function.update s.checks t .idle } : State τ).current j = s.current j := by
    intro j
    unfold State.current
    dsimp only
    rw [(hsame j).generation, ← hown j]
    rfl
  refine ⟨h.names, h.slots, fun j => ?_, fun j hj => ?_, fun j hj hcur => ?_, fun key hk => ?_,
    fun r hr => ?_, h.once, hsole, hchecks⟩
  · rw [h.matched j]
    dsimp only
    rw [huse j]
  · have hj' : (s.pool j).inUse = true := huse j ▸ hj
    obtain ⟨hstamped, hfed, -⟩ := h.live j hj'
    refine ⟨?_, ?_, fun hcur => .inl ?_⟩
    · exact (hown j).symm ▸ hstamped
    · have hfeed : (writeRows s.buffer i s.pool j).lastFeedMs = (s.pool j).lastFeedMs := by
        rw [hsame j]
      exact hfeed.trans ((hown j).symm ▸ hfed)
    · exact missActive_wrote h hpc hcareful hj' (hcurrent j ▸ hcur)
  · have hlate := h.overdue j (huse j ▸ hj) (hcurrent j ▸ hcur)
    have htimeout : (writeRows s.buffer i s.pool j).swWdtTimeoutMs = (s.pool j).swWdtTimeoutMs := by
      rw [hsame j]
    rw [← hown j, ← htimeout] at hlate
    exact hlate
  · exact ⟨known_of_same hsame (h.seen key hk).1, (h.seen key hk).2⟩
  · exact ⟨known_of_same hsame (h.reported r hr).1, (h.reported r hr).2⟩

end Wrote

/-! ## Every run -/

section Runs

variable [DecidableEq τ]

theorem inv_step (h : Inv max s) (a : Action τ) (hcareful : Careful s a) :
    Inv max (step max s a) := by
  generalize hresult : step max s a = s'
  cases hresult ▸ @moves_step _ _ max s a with
  | stay => exact h
  | ticked =>
    exact h.carry (grows_of_same (Nat.le_succ _) rfl rfl rfl) rfl rfl rfl h.names h.slots h.matched
      fun i _ => .inl (kept_of_same rfl rfl i)
  | full name handle ms =>
    exact h.carry (grows_of_same (Nat.le_refl _) rfl rfl rfl) rfl rfl rfl h.names h.slots h.matched
      fun i _ => .inl (kept_of_same rfl rfl i)
  | rolledBack name handle ms slot hfree => exact inv_rolledBack h hfree rfl rfl
  | registered name handle ms slot hslot hfree hname => exact inv_registered h hslot hfree hname
  | deregistered handle name slot hmem => exact inv_deregistered h hmem
  | checked t slot generation =>
    exact h.carry (grows_of_same (Nat.le_refl _) rfl rfl rfl) rfl rfl rfl h.names h.slots h.matched
      fun i _ => .inl (kept_of_same rfl rfl i)
  | stored t slot generation hfeed => exact inv_stored h (hcareful slot generation hfeed)
  | called t hidle => exact inv_called h hcareful
  | copied t nowMs hcalled => exact inv_copied h hcalled (hcareful nowMs hcalled)
  | evaluated t nowMs n i hpc hi => exact inv_evaluated h hpc hi
  | wrote t nowMs n i hpc hi => exact inv_wrote h hpc hi (hcareful nowMs n i hpc)

/--
While the stores meet their own registration, the snapshots see what is right and the
checks are made one after the other, the watchdog isolates and reports exactly.
-/
theorem watchdog_sound_along (max : Nat) {as : List (Action τ)}
    (hrun : Along (step max) Careful (State.init τ) as) :
    ∀ pre, pre <+: as → Sound max (run (step max) (State.init τ) pre) := by
  rintro pre ⟨rest, rfl⟩
  have hpre := ((along_append _ _ _ _ _).mp hrun).1
  have hinv : Inv max (run (step max) (State.init τ) pre) :=
    @run_invariant_along _ _ (step max) (Inv max) Careful
      (fun _ a h hcareful => inv_step h a hcareful) _ (inv_init max τ) _ hpre
  exact hinv.sound

/-- A feed of slot 0. -/
def feedOf (t : τ) (generation : Nat) : List (Action τ) :=
  [.feed t 0 generation, .store t]

/-- A check that finds one watched task. -/
def checkBy (t : τ) : List (Action τ) :=
  [.check t, .snapshot t, .evaluate t, .writeBack t]

/-- A task that feeds, then no more: it is reported once in two checks. -/
def oneMiss : List (Action Bool) :=
  [.register [97] (some 1) 2, .tick] ++ feedOf false 1 ++ checkBy true ++
    List.replicate 4 .tick ++ checkBy true ++ checkBy true ++
    [.deregister 1, .register [98] (some 2) 2]

/-- The store of a feed lands after its slot has been given to another task. -/
def staleStore : List (Action Bool) :=
  [.register [97] (some 1) 2, .feed false 0 1, .deregister 1, .register [98] (some 2) 2, .tick,
    .store false]

/-- A task is registered some time after boot, and checked before its first feed. -/
def freshlyRegistered : List (Action Bool) :=
  List.replicate 3 .tick ++ [.register [97] (some 1) 2] ++ checkBy true

/-- A feed lands between the clock read of a check and its snapshot. -/
def fedInPass : List (Action Bool) :=
  [.register [97] (some 1) 2, .tick, .check true, .tick] ++ feedOf false 1 ++
    [.snapshot true, .evaluate true, .writeBack true]

/-- A task is reported, feeds, and is overdue again before the next check. -/
def overdueAgain : List (Action Bool) :=
  [.register [97] (some 1) 2, .tick] ++ feedOf false 1 ++ List.replicate 3 .tick ++ checkBy true ++
    feedOf false 1 ++ List.replicate 3 .tick ++ checkBy true

example : ¬ Along (step 2) Careful (State.init Bool) staleStore := by decide +kernel

theorem watchdog_sound_along_oneMiss :
    Along (step 2) Careful (State.init Bool) oneMiss ∧
      ∀ pre, pre <+: oneMiss → Sound 2 (run (step 2) (State.init Bool) pre) := by
  have hrun : Along (step 2) Careful (State.init Bool) oneMiss := by
    decide +kernel
  exact ⟨hrun, watchdog_sound_along 2 hrun⟩

theorem watchdog_misled :
    ¬ Sound 2 (run (step 2) (State.init Bool) staleStore) ∧
      ¬ Sound 2 (run (step 2) (State.init Bool) freshlyRegistered) ∧
      ¬ Sound 2 (run (step 2) (State.init Bool) fedInPass) ∧
      ¬ Sound 2 (run (step 2) (State.init Bool) overdueAgain) := by
  refine ⟨fun h => ?_, fun h => ?_, fun h => ?_, fun h => ?_⟩
  · have hstored : ¬ (((run (step 2) (State.init Bool) staleStore).pool 0).inUse = true →
        ((run (step 2) (State.init Bool) staleStore).pool 0).lastFeedMs =
          lastFed ((run (step 2) (State.init Bool) staleStore).own 0)) := by
      decide +kernel
    exact hstored (h.isolated 0)
  · have hreported : ¬ ∀ r ∈ (run (step 2) (State.init Bool) freshlyRegistered).reports,
        ¬ OnTime r.swWdtTimeoutMs (run (step 2) (State.init Bool) freshlyRegistered).clock
          ((run (step 2) (State.init Bool) freshlyRegistered).stamps r.key.slot r.key.generation) := by
      decide +kernel
    exact hreported h.justified
  · have hreported : ¬ ∀ r ∈ (run (step 2) (State.init Bool) fedInPass).reports,
        ¬ OnTime r.swWdtTimeoutMs (run (step 2) (State.init Bool) fedInPass).clock
          ((run (step 2) (State.init Bool) fedInPass).stamps r.key.slot r.key.generation) := by
      decide +kernel
    exact hreported h.justified
  · have hseen : (⟨0, 1, 3⟩ : Key) ∈ (run (step 2) (State.init Bool) overdueAgain).seen := by
      decide +kernel
    have hmissed : ((run (step 2) (State.init Bool) overdueAgain).reports.map Report.key).count
        ⟨0, 1, 3⟩ = 0 := by
      decide +kernel
    have honce := h.once ⟨0, 1, 3⟩
    rw [hmissed, if_pos hseen] at honce
    cases honce

end Runs

end TaskRegistry
end Breadboard
