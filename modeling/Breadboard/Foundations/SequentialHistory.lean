import Breadboard.Foundations.Runs

/-!
# Sequential histories

A sequential object answers one event at a time and may refuse an event as
impossible.  A history is legal when the object accepts its events in order.  A
concurrent system whose steps show events implements the object when every
history it can show is legal: each operation then takes effect at the one step
that shows it.

Main results:

- Theorems `replay_outputs_along` and `replay_outputs`: a simulation makes
  every history of a run legal.
- Theorem `replay_invariant`: what every accepted event keeps, a legal history keeps.
-/

namespace Breadboard
namespace Foundations

universe u v w x

variable {σ : Type u} {α : Type v} {μ : Type w} {ε : Type x}

/-- Replay a history on the object; nothing when some event is refused. -/
def replay (apply : μ → ε → Option μ) : μ → List ε → Option μ
  | m, [] => some m
  | m, o :: os => (apply m o).bind fun m' => replay apply m' os

@[simp] theorem replay_nil (apply : μ → ε → Option μ) (m : μ) : replay apply m [] = some m :=
  rfl

@[simp] theorem replay_cons (apply : μ → ε → Option μ) (m : μ) (o : ε) (os : List ε) :
    replay apply m (o :: os) = (apply m o).bind fun m' => replay apply m' os :=
  rfl

@[simp] theorem replay_append (apply : μ → ε → Option μ) (m : μ) (os os' : List ε) :
    replay apply m (os ++ os') = (replay apply m os).bind fun m' => replay apply m' os' := by
  induction os generalizing m with
  | nil => rfl
  | cons o os ih =>
    cases happly : apply m o with
    | none => simp [happly]
    | some m' => simpa [happly] using ih m'

/-- A simulation that holds under a condition on the steps. -/
theorem replay_outputs_along {step : σ → α → σ} {out : σ → α → List ε} {apply : μ → ε → Option μ}
    {R : σ → μ → Prop} {P : σ → α → Prop}
    (hstep : ∀ s a m, R s m → P s a →
      ∃ m', replay apply m (out s a) = some m' ∧ R (step s a) m')
    {s : σ} {m : μ} (hinit : R s m) {as : List α} (hrun : Along step P s as) :
    ∃ m', replay apply m (outputs step out s as) = some m' ∧ R (run step s as) m' := by
  induction as generalizing s m with
  | nil => exact ⟨m, rfl, hinit⟩
  | cons a as ih =>
    obtain ⟨hhead, hrest⟩ := hrun
    obtain ⟨m₁, hshow, hrel⟩ := hstep s a m hinit hhead
    obtain ⟨m₂, hreplay, hend⟩ := ih hrel hrest
    refine ⟨m₂, ?_, hend⟩
    rw [outputs_cons, replay_append, hshow, Option.bind_some, hreplay]

/-- A system that simulates the object step by step shows legal histories only. -/
theorem replay_outputs {step : σ → α → σ} {out : σ → α → List ε} {apply : μ → ε → Option μ}
    {R : σ → μ → Prop}
    (hstep : ∀ s a m, R s m → ∃ m', replay apply m (out s a) = some m' ∧ R (step s a) m')
    {s : σ} {m : μ} (hinit : R s m) (as : List α) :
    ∃ m', replay apply m (outputs step out s as) = some m' ∧ R (run step s as) m' :=
  replay_outputs_along (fun s a m hrel _ => hstep s a m hrel) hinit (along_true step s as)

/-- What every accepted event relates to the history so far, a legal history relates. -/
theorem replay_invariant {apply : μ → ε → Option μ} {I : μ → List ε → Prop}
    (hstep : ∀ m m' o os, I m os → apply m o = some m' → I m' (os ++ [o]))
    {m m' : μ} {sofar os : List ε} (hinit : I m sofar) (hreplay : replay apply m os = some m') :
    I m' (sofar ++ os) := by
  induction os generalizing m sofar with
  | nil =>
    cases hreplay
    simpa using hinit
  | cons o os ih =>
    rw [replay_cons, Option.bind_eq_some_iff] at hreplay
    obtain ⟨m₁, happly, hrest⟩ := hreplay
    have h := ih (hstep m m₁ o sofar hinit happly) hrest
    simpa using h

/-! ## Events and their past -/

/-- Every event of the history is related to those before it. -/
def InTurn (P : List ε → ε → Prop) (os : List ε) : Prop :=
  ∀ pre o post, os = pre ++ o :: post → P pre o

@[simp] theorem inTurn_nil (P : List ε → ε → Prop) : InTurn P [] := by
  intro pre o post heq
  simp at heq

@[simp] theorem inTurn_append_singleton (P : List ε → ε → Prop) (os : List ε) (o : ε) :
    InTurn P (os ++ [o]) ↔ InTurn P os ∧ P os o := by
  constructor
  · intro h
    refine ⟨fun pre o' post heq => ?_, h os o [] rfl⟩
    exact h pre o' (post ++ [o]) (by rw [heq, List.append_assoc, List.cons_append])
  · rintro ⟨hpast, hlast⟩ pre o' post heq
    rcases List.eq_nil_or_concat post with rfl | ⟨init, last, rfl⟩
    · obtain ⟨rfl, hsame⟩ := List.append_inj' heq rfl
      cases hsame
      exact hlast
    · rw [List.concat_eq_append, ← List.cons_append, ← List.append_assoc] at heq
      obtain ⟨rfl, hsame⟩ := List.append_inj' heq rfl
      exact hpast pre o' init rfl

end Foundations
end Breadboard
