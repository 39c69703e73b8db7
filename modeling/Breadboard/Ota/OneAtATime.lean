import Mathlib.Algebra.GroupWithZero.Nat
import Breadboard.Foundations.SoleOwner
import Breadboard.Ota.Workers

/-!
# bb_ota_pull, bb_ota_check - who owns the slot

Three things are owned by one task at a time: the in-progress flag of the apply
requests, from the request until the worker clears it; the in-flight flag of the checks;
and the claim.  Which control points own which is a fact about the code.

The claim is held under a name and not by a task, so that a new request takes the claim
of a worker that has cleared the flag and not yet released it.  And the worker ends the
extended watchdog timeout once more after the release, when the next one may have begun
its own; and a check whose task is not created does not give its claim back.

Main result:

- Theorem `one_at_a_time_along`: every run in which these three do not happen.
-/

namespace Breadboard
namespace Ota

open Foundations

/-! ## What a control point owns -/

namespace Pc

/-- The in-progress flag is this task's to clear. -/
def ownsProgress : Pc → Bool
  | .marked | .refreshing | .waiting _ | .refreshed | .decided _ | .allocated | .pullClaimed
  | .pullUnspawned | .givingUp | .pullStarted | .pauseRefused | .downloading _ | .extended _
  | .applied _ | .failed _ => true
  | .kicking preCheckUs | .checkMarked preCheckUs | .checkClaimed preCheckUs
  | .checkGivingUp preCheckUs => preCheckUs.isSome
  | _ => false

/-- The in-flight flag is this task's to clear. -/
def ownsFlight : Pc → Bool
  | .checkMarked _ | .checkClaimed _ | .checkGivingUp _ | .checkStarted | .fetching | .fetched
  | .checkDone | .checkReleased => true
  | _ => false

/-- Between the claim for a worker and its release: the name it is held under. -/
def claims : Pc → Option OpName
  | .pullClaimed | .pullUnspawned | .pullStarted | .pauseRefused | .downloading _ | .extended _
  | .applied _ | .failed _ | .cleared _ | .exiting => some .otaPull
  | .checkClaimed _ | .checkStarted | .fetching | .fetched | .checkDone => some .updCheck
  | _ => none

/-- From the pause that an OTA worker has obtained until its resume. -/
def holdsPause : Pc → Bool
  | .downloading true | .extended true | .applied true | .failed true | .cleared true => true
  | _ => false

/-- The flag is cleared, and the claim not yet released. -/
def leaving : Pc → Bool
  | .cleared _ | .exiting => true
  | _ => false

end Pc

example : (spawnReturns none).ownsProgress = false ∧ (spawnReturns none).ownsFlight = false ∧
    (spawnReturns none).claims = none ∧ (spawnReturns none).holdsPause = false := by
  simp [spawnReturns, Pc.ownsProgress, Pc.ownsFlight, Pc.claims, Pc.holdsPause]

section Sound

variable {τ : Type}

/-- What should hold in every state. -/
structure Sound (s : State τ) : Prop where
  /-- At most one worker is between its claim and its release. -/
  exclusive : ∀ t u, (s.pcs t).claims ≠ none → (s.pcs u).claims ≠ none → t = u
  /-- Meanwhile the claim is held under its name. -/
  held : ∀ t name, (s.pcs t).claims = some name → s.shared.holder = some name
  /-- With no worker and no request, all is free. -/
  free : (∀ t, s.pcs t = .idle) →
    s.shared.holder = none ∧ s.shared.inProgress = false ∧ s.shared.inFlight = false
  /-- The work stays paused until the worker that has paused it resumes it. -/
  paused : ∀ t, (s.pcs t).holdsPause = true → s.shared.paused = true
  /-- And the timeout it has extended meanwhile stays extended. -/
  extended : ∀ t, s.pcs t = .extended true → s.shared.wdtExtended = true

/-- The condition on a step. -/
def Careful (s : State τ) : Action τ → Prop
  | .advance t _ =>
    /- No worker is between clearing the flag and its release when the next is claimed for. -/
    (s.pcs t = .allocated → ∀ u, (s.pcs u).leaving = false) ∧
    /- No worker has extended the timeout when another ends it in leaving. -/
    (s.pcs t = .released → ∀ u, s.pcs u ≠ .extended true)
  /- The task of a check that has been claimed for is created. -/
  | .create t none => ∀ preCheckUs, s.pcs t ≠ .checkClaimed preCheckUs
  | _ => True

instance decidableCareful [Fintype τ] (s : State τ) : ∀ a, Decidable (Careful s a)
  | .advance t _ =>
    inferInstanceAs (Decidable ((s.pcs t = .allocated → ∀ u, (s.pcs u).leaving = false) ∧
      (s.pcs t = .released → ∀ u, s.pcs u ≠ .extended true)))
  | .create t none =>
    match h : s.pcs t with
    | .checkClaimed preCheckUs => isFalse fun hall => hall preCheckUs h
    | .idle | .marked | .refreshing | .waiting _ | .refreshed | .decided _ | .allocated
    | .pullClaimed | .pullUnspawned | .givingUp | .pullStarted | .pauseRefused | .downloading _
    | .extended _ | .applied _ | .failed _ | .cleared _ | .exiting | .released | .kicking _
    | .checkMarked _ | .checkGivingUp _ | .checkStarted | .fetching | .fetched | .checkDone
    | .checkReleased => isTrue (by simp [Careful, h])
  | .create _ (some _) | .apply _ | .kick _ => isTrue trivial

structure Inv (s : State τ) : Prop where
  progress : Sole (fun pc => pc.ownsProgress = true) s.pcs (s.shared.inProgress = true)
  flight : Sole (fun pc => pc.ownsFlight = true) s.pcs (s.shared.inFlight = true)
  claim : Sole (fun pc => pc.claims ≠ none) s.pcs (s.shared.holder ≠ none)
  held : ∀ t name, (s.pcs t).claims = some name → s.shared.holder = some name
  paused : ∀ t, (s.pcs t).holdsPause = true → s.shared.paused = true
  extended : ∀ t, s.pcs t = .extended true → s.shared.wdtExtended = true

theorem Inv.sound {s : State τ} (h : Inv s) : Sound s where
  exclusive := h.claim.unique
  held := h.held
  free hidle := by
    have hholder : ¬ s.shared.holder ≠ none := fun hheld => by
      obtain ⟨t, ht⟩ := h.claim.taken_iff.mp hheld
      exact ht (by rw [hidle t]; rfl)
    have hprogress : ¬ s.shared.inProgress = true := fun hset => by
      obtain ⟨t, ht⟩ := h.progress.taken_iff.mp hset
      rw [hidle t] at ht
      cases ht
    have hflight : ¬ s.shared.inFlight = true := fun hset => by
      obtain ⟨t, ht⟩ := h.flight.taken_iff.mp hset
      rw [hidle t] at ht
      cases ht
    exact ⟨not_not.mp hholder, Bool.eq_false_iff.mpr hprogress, Bool.eq_false_iff.mpr hflight⟩
  paused := h.paused
  extended := h.extended

theorem inv_boot : Inv (State.boot τ) where
  progress := sole_of_none (fun _ => by simp [State.boot, Pc.ownsProgress])
    (by simp [State.boot, Shared.boot])
  flight := sole_of_none (fun _ => by simp [State.boot, Pc.ownsFlight])
    (by simp [State.boot, Shared.boot])
  claim := sole_of_none (fun _ => by simp [State.boot, Pc.claims])
    (by simp [State.boot, Shared.boot])
  held t name h := by cases h
  paused t h := by cases h
  extended t h := by cases h

end Sound

/-! ## What a step of one task does to what it owns -/

section Effects

variable {sh sh' : Shared} {p q : Pc}

@[simp] theorem ownsProgress_spawnReturns (preCheckUs : Option Int) :
    (spawnReturns preCheckUs).ownsProgress = preCheckUs.isSome := by
  cases preCheckUs <;> rfl

@[simp] theorem ownsFlight_spawnReturns (preCheckUs : Option Int) :
    (spawnReturns preCheckUs).ownsFlight = false := by
  cases preCheckUs <;> rfl

@[simp] theorem claims_spawnReturns (preCheckUs : Option Int) :
    (spawnReturns preCheckUs).claims = none := by
  cases preCheckUs <;> rfl

@[simp] theorem holdsPause_spawnReturns (preCheckUs : Option Int) :
    (spawnReturns preCheckUs).holdsPause = false := by
  cases preCheckUs <;> rfl

/-- A request that is deciding owns its flag, and nothing else. -/
theorem of_deciding (h : p.deciding = true) :
    p.ownsProgress = true ∧ p.ownsFlight = false ∧ p.claims = none ∧ p.holdsPause = false := by
  cases p with
  | kicking preCheckUs =>
    cases preCheckUs with
    | none => cases h
    | some preCheckUs => exact ⟨rfl, rfl, rfl, rfl⟩
  | marked | refreshing | waiting | refreshed | decided | allocated | givingUp =>
    exact ⟨rfl, rfl, rfl, rfl⟩
  | _ => cases h

theorem release_eq (sh : Shared) (name : OpName) :
    sh.release name = { sh with holder := (sh.release name).holder } := by
  unfold Shared.release
  split <;> rfl

theorem release_held {name : OpName} (h : sh.holder = some name) :
    (sh.release name).holder = none := by
  simp [Shared.release, h]

theorem Advances.progress (h : Advances sh p q sh') :
    Effect (fun pc => pc.ownsProgress = true) p q (sh.inProgress = true)
      (sh'.inProgress = true) := by
  cases h with
  | givesUp | clearsRefused | clears => exact .drop rfl Bool.false_ne_true Bool.false_ne_true
  | decides hp hq => exact .keep (by simp [of_deciding hp, of_deciding hq]) Iff.rfl
  | pullUnclaims | pullReleases | checkReleases =>
    rw [release_eq]
    exact .keep Iff.rfl Iff.rfl
  | isInFlight preCheckUs | unmarks preCheckUs =>
    exact .keep (by rw [ownsProgress_spawnReturns]; rfl) Iff.rfl
  | _ => exact .keep Iff.rfl Iff.rfl

theorem Advances.flight (h : Advances sh p q sh') :
    Effect (fun pc => pc.ownsFlight = true) p q (sh.inFlight = true) (sh'.inFlight = true) := by
  cases h with
  | marks preCheckUs hfree => exact .take (by simp [hfree]) rfl rfl
  | unmarks preCheckUs =>
    exact .drop rfl (by simp) Bool.false_ne_true
  | checkUnmarks => exact .drop rfl Bool.false_ne_true Bool.false_ne_true
  | decides hp hq => exact .keep (by simp [of_deciding hp, of_deciding hq]) Iff.rfl
  | pullUnclaims | pullReleases | checkReleases =>
    rw [release_eq]
    exact .keep Iff.rfl Iff.rfl
  | isInFlight preCheckUs => exact .keep (by rw [ownsFlight_spawnReturns]; rfl) Iff.rfl
  | _ => exact .keep Iff.rfl Iff.rfl

/-- A claim that is not the claim of an earlier task. -/
def ClaimsFree (sh : Shared) (p : Pc) : Prop :=
  (p = .allocated → sh.holder ≠ some .otaPull) ∧
    ∀ preCheckUs, p = .checkMarked preCheckUs → sh.holder ≠ some .updCheck

/-- Claiming what is free takes the slot; every other step keeps it or gives it back. -/
inductive ClaimEffect (sh : Shared) (p q : Pc) (sh' : Shared) : Prop where
  | keep (hclaims : q.claims = p.claims) (hholder : sh'.holder = sh.holder)
  | take (name : OpName) (hfree : sh.holder = none) (hclaims : q.claims = some name)
      (hholder : sh'.holder = some name)
  | drop (howns : p.claims ≠ none) (hclaims : q.claims = none) (hholder : sh'.holder = none)

theorem Advances.claim (h : Advances sh p q sh')
    (hheld : ∀ name, p.claims = some name → sh.holder = some name) (hfree : ClaimsFree sh p) :
    ClaimEffect sh p q sh' := by
  cases h with
  | pullClaims hholder =>
    exact .take .otaPull (hholder.resolve_right (hfree.1 rfl)) rfl rfl
  | checkClaims preCheckUs hholder =>
    exact .take .updCheck (hholder.resolve_right (hfree.2 preCheckUs rfl)) rfl rfl
  | pullUnclaims | pullReleases | checkReleases =>
    exact .drop (Option.some_ne_none _) rfl (release_held (hheld _ rfl))
  | decides hp hq => exact .keep (by simp [of_deciding hp, of_deciding hq]) rfl
  | isInFlight preCheckUs | unmarks preCheckUs => exact .keep (claims_spawnReturns preCheckUs) rfl
  | _ => exact .keep rfl rfl

theorem ClaimEffect.effect (h : ClaimEffect sh p q sh') :
    Effect (fun pc => pc.claims ≠ none) p q (sh.holder ≠ none) (sh'.holder ≠ none) := by
  cases h with
  | keep hclaims hholder => exact .keep (by rw [hclaims]) (by rw [hholder])
  | take name hfree hclaims hholder =>
    exact .take (not_not.mpr hfree) (by simp [hclaims]) (by simp [hholder])
  | drop howns hclaims hholder => exact .drop howns (by simp [hclaims]) (by simp [hholder])

/-- Only an owner of the slot resumes the work. -/
theorem Advances.paused (h : Advances sh p q sh') (hpaused : sh.paused = true) :
    sh'.paused = true ∨ p.claims ≠ none := by
  cases h with
  | resumes | fetchResumes => exact .inr (Option.some_ne_none _)
  | pauses | fetchesPaused => exact .inl rfl
  | pullUnclaims | pullReleases | checkReleases =>
    rw [release_eq]
    exact .inl hpaused
  | _ => exact .inl hpaused

/-- A worker that holds the pause has just obtained it, or has held it before. -/
theorem Advances.holdsPause (h : Advances sh p q sh')
    (hpaused : p.holdsPause = true → sh.paused = true) (hq : q.holdsPause = true) :
    sh'.paused = true := by
  cases h with
  | pauses => rfl
  | decides hp hq' => simp [of_deciding hq'] at hq
  | isInFlight preCheckUs | unmarks preCheckUs => simp at hq
  | stays => exact hpaused hq
  | extendsWdt paused | applies paused | fails paused | clears paused =>
    cases paused with
    | false => cases hq
    | true => exact hpaused rfl
  | _ => cases hq

/-- An extension is ended by the worker that has begun it, or once more in leaving. -/
theorem Advances.wdtExtended (h : Advances sh p q sh') (hextended : sh.wdtExtended = true) :
    sh'.wdtExtended = true ∨ p.claims ≠ none ∨ p = .released := by
  cases h with
  | endsWdt => exact .inr (.inr rfl)
  | applies | fails => exact .inr (.inl (Option.some_ne_none _))
  | extendsWdt => exact .inl rfl
  | pullUnclaims | pullReleases | checkReleases =>
    rw [release_eq]
    exact .inl hextended
  | _ => exact .inl hextended

theorem Advances.extended (h : Advances sh p q sh')
    (hextended : p = .extended true → sh.wdtExtended = true) (hq : q = .extended true) :
    sh'.wdtExtended = true := by
  cases h with
  | extendsWdt => rfl
  | stays => exact hextended hq
  | decides hp hq' =>
    rw [hq] at hq'
    cases hq'
  | isInFlight preCheckUs | unmarks preCheckUs => cases preCheckUs <;> cases hq
  | _ => cases hq

end Effects

/-! ## Every run -/

section Runs

variable {τ : Type} [DecidableEq τ] {s : State τ}

theorem claims_otaPull {p : Pc} (h : p.claims = some .otaPull) :
    p.ownsProgress = true ∨ p.leaving = true := by
  cases p <;> first | exact .inl rfl | exact .inr rfl | cases h

theorem claims_updCheck {p : Pc} (h : p.claims = some .updCheck) : p.ownsFlight = true := by
  cases p <;> first | rfl | cases h

theorem claims_of_holdsPause {p : Pc} (h : p.holdsPause = true) : p.claims ≠ none := by
  cases p <;> first | exact Option.some_ne_none _ | cases h

omit [DecidableEq τ] in
/-- The name that holds the slot is that of the task that owns it. -/
theorem Inv.owner (h : Inv s) {name : OpName} (hholder : s.shared.holder = some name) :
    ∃ u, (s.pcs u).claims = some name := by
  obtain ⟨u, hu⟩ := h.claim.taken_iff.mp (by simp [hholder])
  obtain ⟨other, hother⟩ := Option.ne_none_iff_exists'.mp hu
  have hsame := h.held u other hother
  rw [hholder, Option.some.injEq] at hsame
  exact ⟨u, hsame ▸ hother⟩

omit [DecidableEq τ] in
/-- With no worker leaving, a claim finds the slot free or held by the other operation. -/
theorem Inv.claimsFree (h : Inv s) {t : τ}
    (hleft : s.pcs t = .allocated → ∀ u, (s.pcs u).leaving = false) :
    ClaimsFree s.shared (s.pcs t) := by
  constructor
  · intro hpc hholder
    obtain ⟨u, hu⟩ := h.owner hholder
    rcases claims_otaPull hu with hprogress | hleaving
    · have hut := h.progress.unique u t hprogress (by rw [hpc]; rfl)
      rw [hut, hpc] at hu
      cases hu
    · rw [hleft hpc u] at hleaving
      cases hleaving
  · intro preCheckUs hpc hholder
    obtain ⟨u, hu⟩ := h.owner hholder
    have hut := h.flight.unique u t (claims_updCheck hu) (by rw [hpc]; rfl)
    rw [hut, hpc] at hu
    cases hu

theorem inv_advanced (h : Inv s) {t : τ} {q : Pc} {sh : Shared}
    (hadvances : Advances s.shared (s.pcs t) q sh) (hfree : ClaimsFree s.shared (s.pcs t))
    (hreleased : s.pcs t = .released → ∀ u, s.pcs u ≠ .extended true) :
    Inv ({ s with shared := sh }.goto t q) := by
  have hclaim := hadvances.claim (h.held t) hfree
  have hpcs : ∀ u, u ≠ t → ({ s with shared := sh }.goto t q).pcs u = s.pcs u := fun u hu =>
    State.goto_of_ne _ hu _
  have hself : ({ s with shared := sh }.goto t q).pcs t = q := State.goto_self ..
  refine ⟨h.progress.effect hadvances.progress, h.flight.effect hadvances.flight,
    h.claim.effect hclaim.effect, fun u name hu => ?_, fun u hu => ?_, fun u hu => ?_⟩
  · by_cases hut : u = t
    · rw [hut, hself] at hu
      cases hclaim with
      | keep hclaims hholder => exact hholder.trans (h.held t name (hclaims ▸ hu))
      | take other hfree hclaims hholder => exact hholder.trans (hclaims.symm.trans hu)
      | drop howns hclaims hholder =>
        rw [hclaims] at hu
        cases hu
    · rw [hpcs u hut] at hu
      cases hclaim with
      | keep hclaims hholder => exact hholder.trans (h.held u name hu)
      | take other hfree hclaims hholder =>
        have hheld := h.held u name hu
        rw [hfree] at hheld
        cases hheld
      | drop howns hclaims hholder => exact absurd (by simp [hu]) (h.claim.others howns hut)
  · by_cases hut : u = t
    · rw [hut, hself] at hu
      exact hadvances.holdsPause (h.paused t) hu
    · rw [hpcs u hut] at hu
      rcases hadvances.paused (h.paused u hu) with hkept | howns
      · exact hkept
      · exact absurd (claims_of_holdsPause hu) (h.claim.others howns hut)
  · by_cases hut : u = t
    · rw [hut, hself] at hu
      exact hadvances.extended (h.extended t) hu
    · rw [hpcs u hut] at hu
      rcases hadvances.wdtExtended (h.extended u hu) with hkept | howns | hpc
      · exact hkept
      · exact absurd (by rw [hu]; exact Option.some_ne_none _) (h.claim.others howns hut)
      · exact absurd hu (hreleased hpc u)

/-- What holds at every control point still holds when one task has gone on. -/
theorem forall_goto {P : Pc → Prop} (h : ∀ u, P (s.pcs u)) {t : τ} {q : Pc} (hq : P q) :
    ∀ u, P ((s.goto t q).pcs u) := by
  intro u
  by_cases hu : u = t
  · rw [hu, State.goto_self]
    exact hq
  · rw [s.goto_of_ne hu]
    exact h u

/-- A control point that holds nothing but, at most, what its task owns. -/
def Plain (s : State τ) (q : Pc) : Prop :=
  (∀ name, q.claims = some name → s.shared.holder = some name) ∧
    (q.holdsPause = true → s.shared.paused = true) ∧
    (q = .extended true → s.shared.wdtExtended = true)

omit [DecidableEq τ] in
theorem Inv.plain (h : Inv s) (t : τ) : Plain s (s.pcs t) :=
  ⟨h.held t, h.paused t, h.extended t⟩

omit [DecidableEq τ] in
theorem inv_of_plain
    (hprogress : Sole (fun pc => pc.ownsProgress = true) s.pcs (s.shared.inProgress = true))
    (hflight : Sole (fun pc => pc.ownsFlight = true) s.pcs (s.shared.inFlight = true))
    (hclaim : Sole (fun pc => pc.claims ≠ none) s.pcs (s.shared.holder ≠ none))
    (hplain : ∀ t, Plain s (s.pcs t)) : Inv s where
  progress := hprogress
  flight := hflight
  claim := hclaim
  held t := (hplain t).1
  paused t := (hplain t).2.1
  extended t := (hplain t).2.2

theorem inv_requested (h : Inv s) {t : τ} (hpc : s.pcs t = .idle)
    (hfree : s.shared.inProgress = false) :
    Inv ({ s with shared := { s.shared with inProgress := true } }.goto t .marked) := by
  have htake : Effect (fun pc : Pc => pc.ownsProgress = true) (s.pcs t) .marked
      (s.shared.inProgress = true) (true = true) := .take (by simp [hfree]) rfl rfl
  refine inv_of_plain (h.progress.effect htake) (h.flight.effect (.keep ?_ Iff.rfl))
    (h.claim.effect (.keep ?_ Iff.rfl))
    (@forall_goto _ _ { s with shared := { s.shared with inProgress := true } } (Plain s) h.plain
      t .marked ⟨by simp [Pc.claims], by simp [Pc.holdsPause], by simp⟩)
  · rw [hpc]
    rfl
  · rw [hpc]
    rfl

/-- A task goes on to a control point with the same ownership. -/
theorem inv_goto (h : Inv s) {t : τ} {q : Pc}
    (hprogress : q.ownsProgress = (s.pcs t).ownsProgress)
    (hflight : q.ownsFlight = (s.pcs t).ownsFlight) (hclaims : q.claims = (s.pcs t).claims)
    (hplain : Plain s q) : Inv (s.goto t q) :=
  inv_of_plain (h.progress.effect (.keep (by rw [hprogress]) Iff.rfl))
    (h.flight.effect (.keep (by rw [hflight]) Iff.rfl))
    (h.claim.effect (.keep (by rw [hclaims]) Iff.rfl)) (forall_goto h.plain hplain)

/-- The new task takes over what was claimed for it. -/
theorem inv_pullSpawned (h : Inv s) {t u : τ} (hpc : s.pcs t = .pullClaimed)
    (hidle : s.pcs u = .idle) : Inv ((s.goto t .idle).goto u .pullStarted) := by
  have hne : u ≠ t := by
    rintro rfl
    rw [hpc] at hidle
    cases hidle
  have hidle' : (s.goto t .idle).pcs u = .idle := (s.goto_of_ne hne _).trans hidle
  have hholder := (h.plain t).1 .otaPull (by rw [hpc]; rfl)
  refine inv_of_plain (h.progress.handed (by rw [hpc]; rfl) Bool.false_ne_true rfl)
    ((h.flight.effect (.keep (by rw [hpc]; rfl) Iff.rfl)).effect (.keep ?_ Iff.rfl))
    (h.claim.handed (by rw [hpc]; exact Option.some_ne_none _) (fun hnot => hnot rfl)
      (Option.some_ne_none _))
    (forall_goto (forall_goto h.plain ?_) ?_)
  · change _ ↔ ((s.goto t _).pcs u).ownsFlight = true
    rw [hidle']
    rfl
  · exact ⟨by simp [Pc.claims], by simp [Pc.holdsPause], by simp⟩
  · refine ⟨fun name hname => ?_, by simp [Pc.holdsPause], by simp⟩
    cases hname
    exact hholder

theorem inv_checkSpawned (h : Inv s) {t u : τ} {preCheckUs : Option Int}
    (hpc : s.pcs t = .checkClaimed preCheckUs) (hidle : s.pcs u = .idle) :
    Inv ((s.goto t (spawnReturns preCheckUs)).goto u .checkStarted) := by
  have hne : u ≠ t := by
    rintro rfl
    rw [hpc] at hidle
    cases hidle
  have hidle' : (s.goto t (spawnReturns preCheckUs)).pcs u = .idle :=
    (s.goto_of_ne hne _).trans hidle
  have hholder := (h.plain t).1 .updCheck (by rw [hpc]; rfl)
  refine inv_of_plain
    ((h.progress.effect (.keep (by rw [hpc, ownsProgress_spawnReturns]; rfl) Iff.rfl)).effect
      (.keep ?_ Iff.rfl))
    (h.flight.handed (by rw [hpc]; rfl) (by simp) rfl)
    (h.claim.handed (by rw [hpc]; exact Option.some_ne_none _) (by simp) (Option.some_ne_none _))
    (forall_goto (forall_goto h.plain ?_) ?_)
  · change _ ↔ ((s.goto t _).pcs u).ownsProgress = true
    rw [hidle']
    rfl
  · exact ⟨by simp, by simp, by cases preCheckUs <;> simp [spawnReturns]⟩
  · refine ⟨fun name hname => ?_, by simp [Pc.holdsPause], by simp⟩
    cases hname
    exact hholder

theorem inv_step (windowS : Int) (h : Inv s) (a : Action τ) (hcareful : Careful s a) :
    Inv (step windowS s a) := by
  generalize hresult : step windowS s a = s'
  cases hresult ▸ moves_step windowS s a with
  | stay => exact h
  | requested t hpc hfree => exact inv_requested h hpc hfree
  | kicked t hpc =>
    exact inv_goto h (by rw [hpc]; rfl) (by rw [hpc]; rfl) (by rw [hpc]; rfl)
      ⟨by simp [Pc.claims], by simp [Pc.holdsPause], by simp⟩
  | restarted => exact inv_boot
  | advanced t a hadvances =>
    exact inv_advanced h hadvances (h.claimsFree hcareful.1) hcareful.2
  | pullFailed t hpc =>
    have hholder := (h.plain t).1 .otaPull (by rw [hpc]; rfl)
    refine inv_goto h (by rw [hpc]; rfl) (by rw [hpc]; rfl) (by rw [hpc]; rfl)
      ⟨fun name hname => ?_, by simp [Pc.holdsPause], by simp⟩
    cases hname
    exact hholder
  | checkFailed t preCheckUs hpc => exact absurd hpc (hcareful preCheckUs)
  | pullSpawned t u hpc hidle => exact inv_pullSpawned h hpc hidle
  | checkSpawned t u preCheckUs hpc hidle => exact inv_checkSpawned h hpc hidle

/--
While no worker is leaving when the next is claimed for, none ends the timeout another has
extended, and each check that has been claimed for gets its task: one operation at a time.
-/
theorem one_at_a_time_along (windowS : Int) {as : List (Action τ)}
    (hrun : Along (step windowS) Careful (State.boot τ) as) :
    ∀ pre, pre <+: as → Sound (run (step windowS) (State.boot τ) pre) := by
  rintro pre ⟨rest, rfl⟩
  have hpre := ((along_append _ _ _ _ _).mp hrun).1
  have hinv : Inv (run (step windowS) (State.boot τ) pre) :=
    @run_invariant_along _ _ (step windowS) Inv Careful
      (fun _ a h hcareful => inv_step windowS h a hcareful) _ inv_boot _ hpre
  exact hinv.sound

/-- All calls succeed; the check has found an update. -/
def allWell : Answer where
  ok := true
  hook := true
  nowUs := 1
  found := { available := true, lastCheckOk := true, lastCheckUs := 1 }

def goOn (n : Nat) (t : τ) : List (Action τ) :=
  List.replicate n (.advance t allWell)

/-- A check of one task by another, from the kick to the end of the worker. -/
def checkBy (t u : τ) : List (Action τ) :=
  [.kick t] ++ goOn 2 t ++ [.create t (some u)] ++ goOn 5 u

/-- An apply request, up to the spawned worker. -/
def applyBy (t u : τ) : List (Action τ) :=
  [.apply t] ++ goOn 3 t ++ [.create t (some u)]

/-- A worker whose download fails, up to the cleared flag. -/
def failBy (u : τ) : List (Action τ) :=
  goOn 2 u ++ [.advance u { allWell with ok := false }] ++ goOn 1 u

/-- The tasks are numbered by `Fin 3`. -/
local instance threeTasks : NeZero 3 :=
  ⟨by decide⟩

/-- A check, a failed update, and another check. -/
def inTurn : List (Action (Fin 3)) :=
  checkBy 0 1 ++ applyBy 0 1 ++ failBy 1 ++ goOn 3 1 ++ checkBy 0 2

/-- The task of a check is not created. -/
def notCreated : List (Action (Fin 3)) :=
  [.kick 0] ++ goOn 2 0 ++ [.create 0 none] ++ goOn 1 0

/-- A request comes between the cleared flag and the release. -/
def requestedEarly : List (Action (Fin 3)) :=
  checkBy 0 1 ++ applyBy 0 1 ++ failBy 1 ++ applyBy 0 2

/-- Then its worker pauses the work, and the first worker resumes it. -/
def resumedEarly : List (Action (Fin 3)) :=
  requestedEarly ++ goOn 1 2 ++ goOn 1 1

/-- A worker ends the extended timeout after the next one has begun its own. -/
def endedLate : List (Action (Fin 3)) :=
  checkBy 0 1 ++ applyBy 0 1 ++ failBy 1 ++ goOn 2 1 ++ applyBy 0 2 ++ goOn 2 2 ++ goOn 1 1

example : ¬ Along (step 300) Careful (State.boot (Fin 3)) endedLate := by decide +kernel

theorem one_at_a_time_along_inTurn :
    Along (step 300) Careful (State.boot (Fin 3)) inTurn ∧
      ∀ pre, pre <+: inTurn → Sound (run (step 300) (State.boot (Fin 3)) pre) := by
  have hrun : Along (step 300) Careful (State.boot (Fin 3)) inTurn := by
    decide +kernel
  exact ⟨hrun, one_at_a_time_along 300 hrun⟩

theorem overlapping :
    ¬ Sound (run (step 300) (State.boot (Fin 3)) notCreated) ∧
      ¬ Sound (run (step 300) (State.boot (Fin 3)) requestedEarly) ∧
      ¬ Sound (run (step 300) (State.boot (Fin 3)) resumedEarly) ∧
      ¬ Sound (run (step 300) (State.boot (Fin 3)) endedLate) := by
  refine ⟨fun h => ?_, fun h => ?_, fun h => ?_, fun h => ?_⟩
  · have hidle : ∀ t, (run (step 300) (State.boot (Fin 3)) notCreated).pcs t = .idle := by
      decide +kernel
    have hheld : (run (step 300) (State.boot (Fin 3)) notCreated).shared.holder =
        some .updCheck := by
      decide +kernel
    rw [(h.free hidle).1] at hheld
    cases hheld
  · have hfirst : (run (step 300) (State.boot (Fin 3)) requestedEarly).pcs 1 = .cleared true := by
      decide +kernel
    have hnext : (run (step 300) (State.boot (Fin 3)) requestedEarly).pcs 2 = .pullStarted := by
      decide +kernel
    have hsame := h.exclusive 1 2 (by rw [hfirst]; decide) (by rw [hnext]; decide)
    cases hsame
  · have hnext : (run (step 300) (State.boot (Fin 3)) resumedEarly).pcs 2 = .downloading true := by
      decide +kernel
    have hresumed : (run (step 300) (State.boot (Fin 3)) resumedEarly).shared.paused = false := by
      decide +kernel
    have hpaused := h.paused 2 (by rw [hnext]; rfl)
    rw [hresumed] at hpaused
    cases hpaused
  · have hnext : (run (step 300) (State.boot (Fin 3)) endedLate).pcs 2 = .extended true := by
      decide +kernel
    have hended : (run (step 300) (State.boot (Fin 3)) endedLate).shared.wdtExtended = false := by
      decide +kernel
    have hextended := h.extended 2 hnext
    rw [hended] at hextended
    cases hextended

end Runs

end Ota
end Breadboard
