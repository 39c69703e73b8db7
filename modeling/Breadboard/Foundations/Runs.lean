import Mathlib.Data.List.Induction
import Mathlib.Tactic.Common

/-!
# Runs of a total transition system

A transition system is a step function `σ → α → σ`: one action, one
successor.  A run folds the step over a list of actions, so "every run" and
"every reachable state" are statements about lists.  A counted loop is the same
thing with the loop index as its action.

Main results:

- Theorem `run_invariant`: what every step preserves, every run preserves.
- Theorem `run_invariant_along`: the same for runs whose steps all meet a
  condition on the state before the step.
- Theorem `good_throughout_iff_along`: a condition that is exact at every step
  is exact over runs.
- Theorem `runReplies_simulates`: the simulation rule for calls with answers.
-/

namespace Breadboard
namespace Foundations

universe u v w

/-! ## Runs -/

section Runs

variable {σ : Type u} {α : Type v} (step : σ → α → σ)

/-- Execute a list of actions from left to right. -/
def run : σ → List α → σ
  | s, [] => s
  | s, a :: as => run (step s a) as

@[simp] theorem run_nil (s : σ) : run step s [] = s :=
  rfl

@[simp] theorem run_cons (s : σ) (a : α) (as : List α) :
    run step s (a :: as) = run step (step s a) as :=
  rfl

@[simp] theorem run_append (s : σ) (as bs : List α) :
    run step s (as ++ bs) = run step (run step s as) bs := by
  induction as generalizing s with
  | nil => rfl
  | cons a as ih => simpa using ih (step s a)

/-- The condition `P` holds at each step of the run, on the state before it. -/
def Along (P : σ → α → Prop) : σ → List α → Prop
  | _, [] => True
  | s, a :: as => P s a ∧ Along P (step s a) as

@[simp] theorem along_nil (P : σ → α → Prop) (s : σ) : Along step P s [] :=
  trivial

@[simp] theorem along_cons (P : σ → α → Prop) (s : σ) (a : α) (as : List α) :
    Along step P s (a :: as) ↔ P s a ∧ Along step P (step s a) as :=
  Iff.rfl

theorem along_append (P : σ → α → Prop) (s : σ) (as bs : List α) :
    Along step P s (as ++ bs) ↔ Along step P s as ∧ Along step P (run step s as) bs := by
  induction as generalizing s with
  | nil => simp
  | cons a as ih => simp [ih, and_assoc]

theorem along_true (s : σ) (as : List α) : Along step (fun _ _ => True) s as := by
  induction as generalizing s with
  | nil => trivial
  | cons a as ih => exact ⟨trivial, ih (step s a)⟩

/-- A condition on the actions alone holds along a run when it holds of each of them. -/
theorem along_of_forall {P : α → Prop} (s : σ) {as : List α} (h : ∀ a ∈ as, P a) :
    Along step (fun _ a => P a) s as := by
  induction as generalizing s with
  | nil => trivial
  | cons a as ih => exact ⟨h a (by simp), ih _ fun b hb => h b (List.mem_cons_of_mem a hb)⟩

instance decidableAlong (P : σ → α → Prop) [∀ s a, Decidable (P s a)] :
    ∀ s as, Decidable (Along step P s as)
  | _, [] => isTrue trivial
  | s, a :: as =>
    have := decidableAlong P (step s a) as
    inferInstanceAs (Decidable (P s a ∧ Along step P (step s a) as))

variable {step}

/-- A property every step preserves holds after every run. -/
theorem run_invariant {I : σ → Prop} (hstep : ∀ s a, I s → I (step s a))
    {s : σ} (hinit : I s) (as : List α) : I (run step s as) := by
  induction as generalizing s with
  | nil => exact hinit
  | cons a as ih => exact ih (hstep s a hinit)

/-- The invariant rule for runs whose every step meets a condition. -/
theorem run_invariant_along {I : σ → Prop} {P : σ → α → Prop}
    (hstep : ∀ s a, I s → P s a → I (step s a))
    {s : σ} (hinit : I s) {as : List α} (hrun : Along step P s as) :
    I (run step s as) := by
  induction as generalizing s with
  | nil => exact hinit
  | cons a as ih => exact ih (hstep s a hinit hrun.1) hrun.2

/--
The provenance rule: a view that is only shown after a step that brought it, or after one that
left it as it was, has been brought by a step of the run.
-/
theorem run_provenance {β : Type w} {Shown : σ → Prop} {view : σ → β} {Brings : σ → α → β → Prop}
    (hstep : ∀ s a, Shown (step s a) →
      Shown s ∧ view (step s a) = view s ∨ Brings s a (view (step s a)))
    {s : σ} (hinit : ¬ Shown s) {as : List α} (hend : Shown (run step s as)) :
    ∃ pre a post, as = pre ++ a :: post ∧ Brings (run step s pre) a (view (run step s as)) := by
  induction as using List.reverseRecOn with
  | nil => exact absurd hend hinit
  | append_singleton as a ih =>
    rw [run_append, run_cons, run_nil] at hend ⊢
    rcases hstep (run step s as) a hend with ⟨hshown, hview⟩ | hbrings
    · rcases ih hshown with ⟨pre, b, post, hsplit, hbrought⟩
      refine ⟨pre, b, post ++ [a], ?_, ?_⟩
      · rw [hsplit, List.append_assoc, List.cons_append]
      · rw [hview]
        exact hbrought
    · exact ⟨as, a, [], rfl, hbrings⟩

/--
The exactness rule: when a step keeps the invariant under the condition and reaches a
bad state without it, a run stays good throughout exactly when it meets the condition.
-/
theorem good_throughout_iff_along {I Good : σ → Prop} {P : σ → α → Prop}
    (hstep : ∀ s a, I s → P s a → I (step s a)) (hgood : ∀ s, I s → Good s)
    (hbad : ∀ s a, I s → ¬ P s a → ¬ Good (step s a)) {s : σ} (hinit : I s) (as : List α) :
    (∀ pre, pre <+: as → Good (run step s pre)) ↔ Along step P s as := by
  induction as generalizing s with
  | nil =>
    refine ⟨fun _ => trivial, fun _ pre hpre => ?_⟩
    rw [List.prefix_nil.mp hpre]
    exact hgood s hinit
  | cons a as ih =>
    constructor
    · intro hall
      have ha : P s a := by
        by_contra hnot
        exact hbad s a hinit hnot (hall [a] ⟨as, rfl⟩)
      refine ⟨ha, (ih (hstep s a hinit ha)).mp fun pre hpre => ?_⟩
      exact hall (a :: pre) (List.cons_prefix_cons.mpr ⟨rfl, hpre⟩)
    · rintro ⟨ha, hrest⟩ pre hpre
      rcases List.prefix_cons_iff.mp hpre with rfl | ⟨pre', rfl, hpre'⟩
      · exact hgood s hinit
      · exact (ih (hstep s a hinit ha)).mpr hrest pre' hpre'

/-- Conditions that agree where an invariant holds agree along runs. -/
theorem along_congr {I : σ → Prop} {P Q : σ → α → Prop}
    (hstep : ∀ s a, I s → P s a → I (step s a)) (hiff : ∀ s a, I s → (P s a ↔ Q s a))
    {s : σ} (hinit : I s) (as : List α) : Along step P s as ↔ Along step Q s as := by
  induction as generalizing s with
  | nil => exact Iff.rfl
  | cons a as ih =>
    rw [along_cons, along_cons, ← hiff s a hinit]
    exact and_congr_right fun ha => ih (hstep s a hinit ha)

theorem along_and (P Q : σ → α → Prop) (s : σ) (as : List α) :
    Along step (fun s a => P s a ∧ Q s a) s as ↔ Along step P s as ∧ Along step Q s as := by
  induction as generalizing s with
  | nil => simp
  | cons a as ih => simp only [along_cons, ih, and_and_and_comm]

/-- Along runs in a legal environment, conditions agree that agree at each legal step. -/
theorem along_iff_within {I : σ → Prop} {E P Q : σ → α → Prop}
    (hstep : ∀ s a, I s → E s a → P s a → I (step s a))
    (hiff : ∀ s a, I s → E s a → (P s a ↔ Q s a)) {s : σ} (hinit : I s) {as : List α}
    (hlegal : Along step E s as) : Along step P s as ↔ Along step Q s as := by
  have hboth := @along_congr σ α step I (fun s a => E s a ∧ P s a) (fun s a => E s a ∧ Q s a)
    (fun s a hinv h => hstep s a hinv h.1 h.2)
    (fun s a hinv => and_congr_right fun he => hiff s a hinv he) s hinit as
  rw [along_and, along_and] at hboth
  exact ⟨fun h => (hboth.mp ⟨hlegal, h⟩).2, fun h => (hboth.mpr ⟨hlegal, h⟩).2⟩

end Runs

/-! ## Runs with replies -/

section Replies

universe x

variable {σ : Type u} {τ : Type x} {α : Type v} {β : Type w}

/-- Execute a list of calls, each of which also answers: the answers and the final state. -/
def runReplies (step : σ → α → β × σ) : σ → List α → List β × σ
  | s, [] => ([], s)
  | s, a :: as =>
    let rest := runReplies step (step s a).2 as
    ((step s a).1 :: rest.1, rest.2)

@[simp] theorem runReplies_nil (step : σ → α → β × σ) (s : σ) :
    runReplies step s [] = ([], s) :=
  rfl

@[simp] theorem runReplies_cons (step : σ → α → β × σ) (s : σ) (a : α) (as : List α) :
    runReplies step s (a :: as) =
      ((step s a).1 :: (runReplies step (step s a).2 as).1,
        (runReplies step (step s a).2 as).2) :=
  rfl

/-- The simulation rule: related states answer alike and stay related over whole runs. -/
theorem runReplies_simulates {step : σ → α → β × σ} {step' : τ → α → β × τ} {R : σ → τ → Prop}
    (hstep : ∀ s t a, R s t → (step s a).1 = (step' t a).1 ∧ R (step s a).2 (step' t a).2)
    {s : σ} {t : τ} (hinit : R s t) (as : List α) :
    (runReplies step s as).1 = (runReplies step' t as).1 ∧
      R (runReplies step s as).2 (runReplies step' t as).2 := by
  induction as generalizing s t with
  | nil => exact ⟨rfl, hinit⟩
  | cons a as ih =>
    obtain ⟨hreply, hrel⟩ := hstep s t a hinit
    obtain ⟨hreplies, hend⟩ := ih hrel
    rw [runReplies_cons, runReplies_cons, hreply, hreplies]
    exact ⟨rfl, hend⟩

end Replies

/-! ## Outputs of a run -/

section Outputs

universe x

variable {σ : Type u} {α : Type v} {β : Type w} {γ : Type x} (step : σ → α → σ)

/-- What the steps of a run put out, in order. -/
def outputs (out : σ → α → List β) : σ → List α → List β
  | _, [] => []
  | s, a :: as => out s a ++ outputs out (step s a) as

@[simp] theorem outputs_nil (out : σ → α → List β) (s : σ) : outputs step out s [] = [] :=
  rfl

@[simp] theorem outputs_cons (out : σ → α → List β) (s : σ) (a : α) (as : List α) :
    outputs step out s (a :: as) = out s a ++ outputs step out (step s a) as :=
  rfl

@[simp] theorem outputs_append (out : σ → α → List β) (s : σ) (as bs : List α) :
    outputs step out s (as ++ bs) =
      outputs step out s as ++ outputs step out (run step s as) bs := by
  induction as generalizing s with
  | nil => rfl
  | cons a as ih => simp [ih]

theorem filterMap_outputs (out : σ → α → List β) (f : β → Option γ) (s : σ) (as : List α) :
    (outputs step out s as).filterMap f =
      outputs step (fun s a => (out s a).filterMap f) s as := by
  induction as generalizing s with
  | nil => rfl
  | cons a as ih => simp [ih]

/-- What every step shows, a run shows, as long as its steps meet the condition. -/
theorem forall_outputs {out : σ → α → List β} {I : σ → Prop} {P : σ → α → Prop} {Q : β → Prop}
    (hstep : ∀ s a, I s → P s a → I (step s a)) (hout : ∀ s a, I s → P s a → ∀ o ∈ out s a, Q o)
    {s : σ} (hinit : I s) {as : List α} (hrun : Along step P s as) :
    ∀ o ∈ outputs step out s as, Q o := by
  induction as generalizing s with
  | nil =>
    intro o ho
    cases ho
  | cons a as ih =>
    intro o ho
    rcases List.mem_append.mp ho with hhead | hrest
    · exact hout s a hinit hrun.1 o hhead
    · exact ih (hstep s a hinit hrun.1) hrun.2 o hrest

/-- Outputs that are sublists at each step are sublists over the run. -/
theorem outputs_sublist {out out' : σ → α → List β} (h : ∀ s a, (out s a).Sublist (out' s a))
    (s : σ) (as : List α) : (outputs step out s as).Sublist (outputs step out' s as) := by
  induction as generalizing s with
  | nil => exact List.Sublist.refl []
  | cons a as ih => exact (h s a).append (ih (step s a))

end Outputs

/-! ## Counted loops -/

section Loops

variable {σ : Type u}

/-- The loop `for (k = 0; k < n; k++) s = body(s, k)`. -/
def forRange (body : σ → Nat → σ) (s : σ) : Nat → σ
  | 0 => s
  | n + 1 => body (forRange body s n) n

@[simp] theorem forRange_zero (body : σ → Nat → σ) (s : σ) : forRange body s 0 = s :=
  rfl

@[simp] theorem forRange_succ (body : σ → Nat → σ) (s : σ) (n : Nat) :
    forRange body s (n + 1) = body (forRange body s n) n :=
  rfl

/-- The loop rule: an indexed invariant advances with the loop counter. -/
theorem forRange_induct {I : Nat → σ → Prop} {body : σ → Nat → σ} {s : σ} {n : Nat}
    (hinit : I 0 s) (hstep : ∀ k t, k < n → I k t → I (k + 1) (body t k)) :
    I n (forRange body s n) := by
  induction n with
  | zero => exact hinit
  | succ n ih =>
    have hsofar : I n (forRange body s n) := ih fun k t hk => hstep k t (by omega)
    exact hstep n _ (by omega) hsofar

/-- The loop rule for an invariant that does not mention the counter. -/
theorem forRange_invariant {I : σ → Prop} {body : σ → Nat → σ} {s : σ} {n : Nat}
    (hinit : I s) (hstep : ∀ k t, k < n → I t → I (body t k)) :
    I (forRange body s n) := by
  have hindexed := @forRange_induct σ (fun _ => I) body s n
  exact hindexed hinit hstep

end Loops

end Foundations
end Breadboard
