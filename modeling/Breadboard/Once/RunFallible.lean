import Breadboard.Foundations.Runs
import Breadboard.Foundations.SoleOwner

/-!
# bb_once_run_fallible - run until it has succeeded once

The guard is one atomic word.  A caller that exchanges it from idle to running executes the
function and stores what came of it: done, or idle again.  Any other caller reads the word
until it is no longer running, which may be several attempts later, and answers by what it
reads.

Callers take their steps in any order, one atomic operation each.  A task that calls again is
another caller.

Main results:

- Theorem `inv_history`: the word, the callers and what has happened agree.
- Theorem `run_fallible_contract`: what the executions and the answers amount to.
-/

namespace Breadboard
namespace Once

open Foundations

/-- The values of `bb_once_state`. -/
inductive OnceState where
  | idle
  | running
  | done
  deriving Repr, DecidableEq

/-- Where a caller stands. -/
inductive Pc where
  /-- Before the compare-and-exchange. -/
  | calling
  /-- `fn` runs. -/
  | executing
  /-- `ok` is known and not yet stored. -/
  | executed (ok : Bool)
  /-- In the loop, before the next load. -/
  | waiting
  | returned (result : Bool)
  deriving Repr, DecidableEq

/-- The guard, where `none` is NULL, and its callers. -/
structure State (τ : Type) where
  once : Option OnceState
  pcs : τ → Pc

/-- What can be seen of the callers. -/
inductive Event (τ : Type) where
  | starts (t : τ)
  | finishes (t : τ) (ok : Bool)
  | returns (t : τ) (result : Bool)
  deriving Repr, DecidableEq

section Machine

variable {τ : Type} [DecidableEq τ] (hasFn : τ → Bool)

/-- `BB_ONCE_INIT` before any call; a NULL guard stays one. -/
def State.init (once : Option Unit) : State τ :=
  { once := once.map fun _ => .idle
    pcs := fun _ => .calling }

/-- The caller goes on at another place. -/
def State.goto (s : State τ) (t : τ) (pc : Pc) : State τ :=
  { s with pcs := Function.update s.pcs t pc }

/-- The caller writes the word and goes on. -/
def State.write (s : State τ) (t : τ) (word : OnceState) (pc : Pc) : State τ :=
  { once := some word
    pcs := Function.update s.pcs t pc }

/-- The next operation of a caller; if its function returns, it returns `ok`. -/
def advance (s : State τ) (t : τ) (ok : Bool) : List (Event τ) × State τ :=
  match s.pcs t, s.once with
  | .calling, none => ([.returns t false], s.goto t (.returned false))
  | .calling, some .idle =>
    if hasFn t then ([.starts t], s.write t .running .executing)
    else ([], s.write t .running (.executed false))
  | .calling, some _ => ([], s.goto t .waiting)
  | .executing, _ => ([.finishes t ok], s.goto t (.executed ok))
  | .executed stored, _ =>
    ([.returns t stored], s.write t (if stored then .done else .idle) (.returned stored))
  | .waiting, some .done => ([.returns t true], s.goto t (.returned true))
  | .waiting, some .idle => ([.returns t false], s.goto t (.returned false))
  | .waiting, _ => ([], s)
  | .returned _, _ => ([], s)

def step (s : State τ) (a : τ × Bool) : State τ :=
  (advance hasFn s a.1 a.2).2

def events (s : State τ) (a : τ × Bool) : List (Event τ) :=
  (advance hasFn s a.1 a.2).1

variable (once : Option Unit)

/-- The state after some operations of the callers. -/
def after (as : List (τ × Bool)) : State τ :=
  run (step hasFn) (State.init once) as

/-- What has happened until then. -/
def history (as : List (τ × Bool)) : List (Event τ) :=
  outputs (step hasFn) (events hasFn) (State.init once) as

/-- No execution is in progress, and none has succeeded. -/
def Quiet (as : List (τ × Bool)) : Prop :=
  (∀ t, (after hasFn once as).pcs t ≠ .executing) ∧ ∀ t, .finishes t true ∉ history hasFn once as

/-- An operation of the caller took place at a quiet moment. -/
def SawQuiet (t : τ) (as : List (τ × Bool)) : Prop :=
  ∃ pre ok, pre ++ [(t, ok)] <+: as ∧ Quiet hasFn once pre

/-! ## The invariant -/

/-- From the exchange to the store. -/
def Pc.holds : Pc → Prop
  | .executing | .executed _ => True
  | _ => False

/-- The word, the callers and the history agree. -/
structure Inv (as : List (τ × Bool)) : Prop where
  sole : Sole Pc.holds (after hasFn once as).pcs ((after hasFn once as).once = some .running)
  /-- A success is stored, or about to be. -/
  succeeded : ∀ t, .finishes t true ∈ history hasFn once as →
    (after hasFn once as).once = some .done ∨ (after hasFn once as).pcs t = .executed true
  done : (after hasFn once as).once = some .done →
    ∃ t, .finishes t true ∈ history hasFn once as
  stores_true : ∀ t, (after hasFn once as).pcs t = .executed true →
    .finishes t true ∈ history hasFn once as
  stores_false : ∀ t, (after hasFn once as).pcs t = .executed false →
    .finishes t false ∈ history hasFn once as ∨ SawQuiet hasFn once t as

variable {hasFn once} {as : List (τ × Bool)} {s : State τ} {t : τ} {ok : Bool}

/-- What the next operation of a caller can be. -/
inductive Moves (hasFn : τ → Bool) (s : State τ) (t : τ) (ok : Bool) :
    List (Event τ) → State τ → Prop where
  | pass {seen : List (Event τ)} {pc : Pc} (hbefore : ¬ (s.pcs t).holds) (hafter : ¬ pc.holds)
      (honly : ∀ e ∈ seen, ∃ r, e = .returns t r)
      (hanswer : ∀ u r, .returns u r ∈ seen →
        s.once ≠ some .running ∧ (s.once = some .done ↔ r = true)) :
      Moves hasFn s t ok seen (s.goto t pc)
  | win (hcalling : s.pcs t = .calling) (hidle : s.once = some .idle) (hfn : hasFn t = true) :
      Moves hasFn s t ok [.starts t] (s.write t .running .executing)
  | blank (hcalling : s.pcs t = .calling) (hidle : s.once = some .idle) :
      Moves hasFn s t ok [] (s.write t .running (.executed false))
  | finish (hexecuting : s.pcs t = .executing) :
      Moves hasFn s t ok [.finishes t ok] (s.goto t (.executed ok))
  | store {stored : Bool} (hexecuted : s.pcs t = .executed stored) :
      Moves hasFn s t ok [.returns t stored]
        (s.write t (if stored then .done else .idle) (.returned stored))

/-- An operation that is seen by nobody and changes nothing. -/
theorem moves_still (hbefore : ¬ (s.pcs t).holds) : Moves hasFn s t ok [] s := by
  have hpass := @Moves.pass τ _ hasFn s t ok [] (s.pcs t) hbefore hbefore (by simp) (by simp)
  rwa [State.goto, Function.update_eq_self] at hpass

theorem moves_advance (hasFn : τ → Bool) (s : State τ) (t : τ) (ok : Bool) :
    Moves hasFn s t ok (advance hasFn s t ok).1 (advance hasFn s t ok).2 := by
  unfold advance
  split
  next hpc honce =>
    refine .pass ?_ ?_ (by simp) (by simp [honce]) <;> simp [hpc, Pc.holds]
  next hpc honce =>
    split
    next hfn => exact .win hpc honce hfn
    next => exact .blank hpc honce
  next word hnot hpc honce =>
    refine .pass ?_ ?_ (by simp) (by simp) <;> simp [hpc, Pc.holds]
  next hpc => exact .finish hpc
  next stored hpc => exact .store hpc
  next hpc honce =>
    refine .pass ?_ ?_ (by simp) (by simp [honce]) <;> simp [hpc, Pc.holds]
  next hpc honce =>
    refine .pass ?_ ?_ (by simp) (by simp [honce]) <;> simp [hpc, Pc.holds]
  next hpc _ _ => exact moves_still (by simp [hpc, Pc.holds])
  next hpc => exact moves_still (by simp [hpc, Pc.holds])

theorem SawQuiet.mono {bs : List (τ × Bool)} (h : SawQuiet hasFn once t as) :
    SawQuiet hasFn once t (as ++ bs) := by
  obtain ⟨pre, ok, hpre, hquiet⟩ := h
  exact ⟨pre, ok, hpre.trans (List.prefix_append as bs), hquiet⟩

theorem sawQuiet_of_quiet (ok : Bool) (h : Quiet hasFn once as) :
    SawQuiet hasFn once t (as ++ [(t, ok)]) :=
  ⟨as, ok, List.prefix_rfl, h⟩

/-- While the word is neither running nor done, or there is none, nothing runs or has succeeded. -/
theorem Inv.quiet (h : Inv hasFn once as) (hrunning : (after hasFn once as).once ≠ some .running)
    (hdone : (after hasFn once as).once ≠ some .done) : Quiet hasFn once as := by
  have hnone := h.sole.none_of_free hrunning
  refine ⟨fun t ht => hnone t ?_, fun t ht => ?_⟩
  · rw [ht]
    trivial
  · refine hnone t ?_
    rw [(h.succeeded t ht).resolve_left hdone]
    trivial

/-! ## What one operation keeps -/

theorem after_append (as : List (τ × Bool)) (a : τ × Bool) :
    after hasFn once (as ++ [a]) = step hasFn (after hasFn once as) a :=
  run_append _ _ as [a]

theorem history_append (as : List (τ × Bool)) (a : τ × Bool) :
    history hasFn once (as ++ [a]) =
      history hasFn once as ++ events hasFn (after hasFn once as) a := by
  rw [history, outputs_append, outputs_cons, outputs_nil, List.append_nil]
  rfl

theorem inv_nil : Inv hasFn once [] := by
  have hword : (State.init once : State τ).once ≠ some .running ∧
      (State.init once : State τ).once ≠ some .done := by
    cases once <;> simp [State.init]
  exact
    { sole := sole_of_none (fun _ => id) hword.1
      succeeded := fun t ht => by cases ht
      done := fun h => absurd h hword.2
      stores_true := fun t ht => by cases ht
      stores_false := fun t ht => by cases ht }

/-- The control points of the others stay. -/
theorem executed_of_update {pcs : τ → Pc} {u : τ} {pc : Pc} {b : Bool} (hpc : pc ≠ .executed b)
    (h : Function.update pcs t pc u = .executed b) : u ≠ t ∧ pcs u = .executed b := by
  by_cases hu : u = t
  · rw [hu, Function.update_self] at h
    exact absurd h hpc
  · rw [Function.update_of_ne hu] at h
    exact ⟨hu, h⟩

section Step

variable {seen : List (Event τ)} {pc : Pc}

theorem mem_history_append
    (hhistory : history hasFn once (as ++ [(t, ok)]) = history hasFn once as ++ seen) {e : Event τ}
    (he : e ∈ history hasFn once as) : e ∈ history hasFn once (as ++ [(t, ok)]) := by
  rw [hhistory]
  exact List.mem_append_left _ he

/-- Where no execution finishes, none has finished that had not before. -/
theorem finishes_of_append
    (hhistory : history hasFn once (as ++ [(t, ok)]) = history hasFn once as ++ seen)
    (hnone : ∀ u b, .finishes u b ∉ seen) {u : τ} {b : Bool}
    (hu : .finishes u b ∈ history hasFn once (as ++ [(t, ok)])) :
    .finishes u b ∈ history hasFn once as := by
  rw [hhistory] at hu
  exact (List.mem_append.mp hu).resolve_right (hnone u b)

/-- A caller that neither has the word nor gets it. -/
theorem inv_pass (h : Inv hasFn once as)
    (hafter : after hasFn once (as ++ [(t, ok)]) = (after hasFn once as).goto t pc)
    (hhistory : history hasFn once (as ++ [(t, ok)]) = history hasFn once as ++ seen)
    (hnone : ∀ u b, .finishes u b ∉ seen) (hbefore : ¬ ((after hasFn once as).pcs t).holds)
    (hnot : ¬ pc.holds) : Inv hasFn once (as ++ [(t, ok)]) := by
  have hpc : ∀ b, pc ≠ .executed b := by
    rintro b rfl
    exact hnot trivial
  constructor
  · rw [hafter]
    exact h.sole.effect (.keep (iff_of_false hnot hbefore) Iff.rfl)
  · intro u hu
    rw [hafter]
    refine (h.succeeded u (finishes_of_append hhistory hnone hu)).imp_right fun hstored => ?_
    have hne : u ≠ t := by
      rintro rfl
      rw [hstored] at hbefore
      exact hbefore trivial
    exact (Function.update_of_ne hne _ _).trans hstored
  · intro hdone
    rw [hafter] at hdone
    obtain ⟨u, hu⟩ := h.done hdone
    exact ⟨u, mem_history_append hhistory hu⟩
  · intro u hu
    rw [hafter] at hu
    have hold := executed_of_update (hpc true) hu
    exact mem_history_append hhistory (h.stores_true u hold.2)
  · intro u hu
    rw [hafter] at hu
    have hold := executed_of_update (hpc false) hu
    exact (h.stores_false u hold.2).imp (mem_history_append hhistory) SawQuiet.mono

/-- A caller that wins the exchange. -/
theorem inv_take (h : Inv hasFn once as) (hidle : (after hasFn once as).once = some .idle)
    (hafter : after hasFn once (as ++ [(t, ok)]) = (after hasFn once as).write t .running pc)
    (hhistory : history hasFn once (as ++ [(t, ok)]) = history hasFn once as ++ seen)
    (hnone : ∀ u b, .finishes u b ∉ seen) (hpc : pc = .executing ∨ pc = .executed false) :
    Inv hasFn once (as ++ [(t, ok)]) := by
  have hfree : (after hasFn once as).once ≠ some .running := by simp [hidle]
  have hquiet : Quiet hasFn once as := h.quiet hfree (by simp [hidle])
  have hholds : pc.holds := by
    rcases hpc with rfl | rfl <;> trivial
  constructor
  · rw [hafter]
    exact h.sole.effect (.take hfree hholds rfl)
  · intro u hu
    exact absurd (finishes_of_append hhistory hnone hu) (hquiet.2 u)
  · intro hdone
    rw [hafter] at hdone
    cases hdone
  · intro u hu
    rw [hafter] at hu
    have hold := executed_of_update (by rcases hpc with rfl | rfl <;> simp) hu
    exact absurd (h.stores_true u hold.2) (hquiet.2 u)
  · intro u hu
    by_cases hne : u = t
    · rw [hne]
      exact .inr (sawQuiet_of_quiet ok hquiet)
    · rw [hafter] at hu
      have hold : (after hasFn once as).pcs u = .executed false :=
        (Function.update_of_ne hne _ _).symm.trans hu
      exact (h.stores_false u hold).imp (mem_history_append hhistory) SawQuiet.mono

/-- A caller whose function returns. -/
theorem inv_finish (h : Inv hasFn once as) (hexecuting : (after hasFn once as).pcs t = .executing)
    (hafter : after hasFn once (as ++ [(t, ok)]) = (after hasFn once as).goto t (.executed ok))
    (hhistory : history hasFn once (as ++ [(t, ok)]) =
      history hasFn once as ++ [.finishes t ok]) : Inv hasFn once (as ++ [(t, ok)]) := by
  have howns : ((after hasFn once as).pcs t).holds := by
    rw [hexecuting]
    trivial
  have hfinished : .finishes t ok ∈ history hasFn once (as ++ [(t, ok)]) := by
    rw [hhistory]
    exact List.mem_append_right _ (List.mem_singleton.mpr rfl)
  have hothers : ∀ u b, (after hasFn once (as ++ [(t, ok)])).pcs u = .executed b →
      u = t ∧ b = ok := by
    intro u b hu
    rw [hafter] at hu
    by_cases hne : u = t
    · rw [hne] at hu
      have hnew : Pc.executed ok = .executed b := (Function.update_self _ _ _).symm.trans hu
      exact ⟨hne, (Pc.executed.inj hnew).symm⟩
    · have hold : (after hasFn once as).pcs u = .executed b :=
        (Function.update_of_ne hne _ _).symm.trans hu
      refine absurd ?_ (h.sole.others howns hne)
      rw [hold]
      trivial
  constructor
  · rw [hafter]
    exact h.sole.effect (.keep (iff_of_true trivial howns) Iff.rfl)
  · intro u hu
    rw [hhistory] at hu
    rcases List.mem_append.mp hu with hold | hnew
    · have hdone := (h.succeeded u hold).resolve_right fun hstored => by
        by_cases hne : u = t
        · rw [hne, hexecuting] at hstored
          cases hstored
        · refine h.sole.others howns hne ?_
          rw [hstored]
          trivial
      rw [hafter]
      exact .inl hdone
    · obtain ⟨rfl, rfl⟩ := Event.finishes.inj (List.mem_singleton.mp hnew)
      rw [hafter]
      exact .inr (Function.update_self _ _ _)
  · intro hdone
    rw [hafter] at hdone
    obtain ⟨u, hu⟩ := h.done hdone
    exact ⟨u, mem_history_append hhistory hu⟩
  · intro u hu
    obtain ⟨rfl, rfl⟩ := hothers u true hu
    exact hfinished
  · intro u hu
    obtain ⟨rfl, rfl⟩ := hothers u false hu
    exact .inl hfinished

/-- A caller that stores what came of its execution. -/
theorem inv_store (h : Inv hasFn once as) {stored : Bool}
    (hexecuted : (after hasFn once as).pcs t = .executed stored)
    (hafter : after hasFn once (as ++ [(t, ok)]) =
      (after hasFn once as).write t (if stored then .done else .idle) (.returned stored))
    (hhistory : history hasFn once (as ++ [(t, ok)]) = history hasFn once as ++ seen)
    (hnone : ∀ u b, .finishes u b ∉ seen) : Inv hasFn once (as ++ [(t, ok)]) := by
  have howns : ((after hasFn once as).pcs t).holds := by
    rw [hexecuted]
    trivial
  have hrunning : (after hasFn once as).once = some .running := h.sole.taken_iff.mpr ⟨t, howns⟩
  have hothers : ∀ u b, (after hasFn once (as ++ [(t, ok)])).pcs u ≠ .executed b := by
    intro u b hu
    rw [hafter] at hu
    have hold := executed_of_update (by simp) hu
    refine h.sole.others howns hold.1 ?_
    rw [hold.2]
    trivial
  constructor
  · rw [hafter]
    refine h.sole.effect (.drop howns id ?_)
    cases stored <;> simp [State.write]
  · intro u hu
    have hown := (h.succeeded u (finishes_of_append hhistory hnone hu)).resolve_left
      (by simp [hrunning])
    have hut : u = t := by
      refine h.sole.unique u t ?_ howns
      rw [hown]
      trivial
    rw [hut, hexecuted, Pc.executed.injEq] at hown
    rw [hafter, hown]
    exact .inl rfl
  · intro hdone
    rw [hafter] at hdone
    cases stored with
    | true => exact ⟨t, mem_history_append hhistory (h.stores_true t hexecuted)⟩
    | false => cases hdone
  · exact fun u hu => absurd hu (hothers u true)
  · exact fun u hu => absurd hu (hothers u false)

end Step

theorem inv_step (h : Inv hasFn once as) (a : τ × Bool) : Inv hasFn once (as ++ [a]) := by
  obtain ⟨t, ok⟩ := a
  have hmoves := moves_advance hasFn (after hasFn once as) t ok
  have hafter := @after_append τ _ hasFn once as (t, ok)
  have hhistory := @history_append τ _ hasFn once as (t, ok)
  rw [step] at hafter
  rw [events] at hhistory
  simp only at hafter hhistory
  generalize advance hasFn (after hasFn once as) t ok = out at hmoves hafter hhistory
  obtain ⟨seen, next⟩ := out
  cases hmoves with
  | pass hbefore hnot honly _ =>
    refine inv_pass h hafter hhistory (fun u b hu => ?_) hbefore hnot
    obtain ⟨r, hr⟩ := honly _ hu
    cases hr
  | win _ hidle _ => exact inv_take h hidle hafter hhistory (by simp) (.inl rfl)
  | blank _ hidle => exact inv_take h hidle hafter hhistory (by simp) (.inr rfl)
  | finish hexecuting => exact inv_finish h hexecuting hafter hhistory
  | store hexecuted => exact inv_store h hexecuted hafter hhistory (by simp)

theorem inv_history (hasFn : τ → Bool) (once : Option Unit) (as : List (τ × Bool)) :
    Inv hasFn once as := by
  induction as using List.reverseRecOn with
  | nil => exact inv_nil
  | append_singleton as a ih => exact inv_step ih a

/-! ## The contract -/

/--
Whatever the callers have done so far, in any order and with any results, and whoever goes on:
at most one execution is in progress; none starts after one has succeeded; an answer of true
comes after a success; and a caller that is answered false has executed `fn` without
success, or has itself seen a moment at which no execution was in progress and none had
succeeded.
-/
theorem run_fallible_contract (hasFn : τ → Bool) (once : Option Unit) (as : List (τ × Bool))
    (a : τ × Bool) :
    (∀ t u, (after hasFn once as).pcs t = .executing → (after hasFn once as).pcs u = .executing →
      t = u) ∧
    (∀ t, .starts t ∈ events hasFn (after hasFn once as) a →
      ∀ u, .finishes u true ∉ history hasFn once as) ∧
    (∀ t, .returns t true ∈ events hasFn (after hasFn once as) a →
      ∃ u, .finishes u true ∈ history hasFn once as) ∧
    (∀ t, .returns t false ∈ events hasFn (after hasFn once as) a →
      .finishes t false ∈ history hasFn once as ∨ SawQuiet hasFn once t (as ++ [a])) := by
  have h := inv_history hasFn once as
  obtain ⟨t, ok⟩ := a
  have hmoves := moves_advance hasFn (after hasFn once as) t ok
  refine ⟨fun u v hu hv => h.sole.unique u v (hu ▸ trivial) (hv ▸ trivial), ?_⟩
  rw [events]
  simp only
  generalize advance hasFn (after hasFn once as) t ok = out at hmoves
  obtain ⟨seen, next⟩ := out
  cases hmoves with
  | pass hbefore hnot honly hanswer =>
    refine ⟨fun u hu => ?_, fun u hu => ?_, fun u hu => ?_⟩
    · obtain ⟨r, hr⟩ := honly _ hu
      cases hr
    · exact h.done ((hanswer u true hu).2.mpr rfl)
    · obtain ⟨r, hr⟩ := honly _ hu
      obtain ⟨rfl, rfl⟩ := Event.returns.inj hr
      have hword := hanswer u false hu
      refine .inr (sawQuiet_of_quiet ok (h.quiet hword.1 fun hdone => ?_))
      exact absurd (hword.2.mp hdone) (by simp)
  | win hcalling hidle hfn =>
    refine ⟨fun u _ => (h.quiet (by simp [hidle]) (by simp [hidle])).2, ?_, ?_⟩ <;> simp
  | blank hcalling hidle => simp
  | finish hexecuting => simp
  | @store stored hexecuted =>
    refine ⟨by simp, fun u hu => ?_, fun u hu => ?_⟩
    · obtain ⟨rfl, rfl⟩ := Event.returns.inj (List.mem_singleton.mp hu)
      exact ⟨u, h.stores_true u hexecuted⟩
    · obtain ⟨rfl, rfl⟩ := Event.returns.inj (List.mem_singleton.mp hu)
      exact (h.stores_false u hexecuted).imp_right SawQuiet.mono

end Machine

end Once
end Breadboard
