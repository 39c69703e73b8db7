import Breadboard.MqttClient.Lifetime

/-!
# bb_mqtt_client - one start

The started flag of a handle is set under its lock by whoever is to start the client, so
that at most one task is between setting it and the start, and it does so while the client
has not been started.

Main results:

- Theorem `once_step`: a step starts a client only once.
-/

namespace Breadboard
namespace MqttClient

open Foundations

/-! ## At most one start -/

/-- The handle whose client the task has marked as started and is to start. -/
def Pc.startsClient : Pc → Option Nat
  | .starting h _ => some h
  | _ => none

/-- A handle the owner is making, before its client may have been started. -/
def Pc.untried : Pc → Option Nat
  | .checking h _ | .startingNow h _ | .offering h _ => some h
  | _ => none

/-- Neither making a handle that may not have been started, nor on the way to a start. -/
def Pc.plain : Pc → Bool
  | .checking _ _ | .startingNow _ _ | .markingStarted _ _ | .offering _ _
  | .clearing _ _ | .locking _ _ | .starting _ _ => false
  | _ => true

section Invariants

variable {τ : Type} (owner : τ) (s : State τ)

/-- A handle that waits for its start, or is on the way to it. -/
def Awaited (h : Nat) : Prop :=
  s.pending = some h ∨ ∃ t, (s.pcs t).carries = some h

structure Once : Prop where
  sole : ∀ h, Sole (fun pc => pc.startsClient = some h) s.pcs
    ((s.handles h).started = true ∧ (s.handles h).starts = 0)
  most : ∀ h, (s.handles h).starts ≤ 1
  awaited : ∀ h, Awaited s h → (s.handles h).started = false → (s.handles h).starts = 0
  untried : ∀ h, (s.pcs owner).untried = some h →
    (s.handles h).started = false ∧ (s.handles h).starts = 0
  marking : ∀ h resumes, s.pcs owner = .markingStarted h resumes → (s.handles h).starts = 1

end Invariants

variable {τ : Type} {owner : τ} {s s' : State τ}

theorem once_init (owner : τ) : Once owner (State.init τ) where
  sole h := sole_of_none (fun _ => nofun) (by simp [State.init, Handle.unmade])
  most h := Nat.zero_le 1
  awaited h _ _ := rfl
  untried h huntried := by cases huntried
  marking h resumes hpc := by cases hpc

@[simp] theorem carries_back (k : Caller) : k.back.carries = none := by
  cases k <;> rfl

@[simp] theorem startsClient_back (k : Caller) : k.back.startsClient = none := by
  cases k <;> rfl

@[simp] theorem untried_back (k : Caller) : k.back.untried = none := by
  cases k <;> rfl

@[simp] theorem plain_back (k : Caller) : k.back.plain = true := by
  cases k <;> rfl

theorem Alive.awaited (h : Alive owner s) {i : Nat} (hawaited : Awaited s i) :
    (s.handles i).clientFreed = false ∧ (s.handles i).shared = true := by
  rcases hawaited with hpending | ⟨t, hcarries⟩
  · exact h.pending i hpending
  · exact h.held_of_carries hcarries

theorem Alive.not_dead (h : Alive owner s) {i : Nat} (halive : (s.handles i).clientFreed = false) :
    ¬ (s.handles i).dead := by
  obtain ⟨hlock, hfreed, -⟩ := h.order i halive
  rintro (hdead | hdead | hdead)
  · cases halive.symm.trans hdead
  · cases hlock.symm.trans hdead
  · cases hfreed.symm.trans hdead

theorem role_of_untried {pc : Pc} {i : Nat} (huntried : pc.untried = some i) :
    pc.role = .hidden i := by
  cases pc <;> cases huntried <;> rfl

section Steps

variable [DecidableEq τ] {t : τ} {q : Pc} {i : Nat}

/-- After a step a handle is awaited that was before, or that the task has come to carry. -/
theorem Awaited.before {j : Nat} (h : Awaited s' j) (hpcs : s'.pcs = Function.update s.pcs t q)
    (hpending : s'.pending = s.pending ∨ s'.pending = none)
    (hcarries : ∀ j, q.carries = some j → Awaited s j) : Awaited s j := by
  rcases h with hj | ⟨u, hu⟩
  · rcases hpending with heq | heq
    · exact .inl (heq ▸ hj)
    · rw [heq] at hj
      cases hj
  · rw [hpcs] at hu
    by_cases hut : u = t
    · rw [hut, Function.update_self] at hu
      exact hcarries j hu
    · rw [Function.update_of_ne hut] at hu
      exact .inr ⟨u, hu⟩

/-- The steps that neither mark nor start a client. -/
theorem Once.same (h : Once owner s) (hpcs : s'.pcs = Function.update s.pcs t q)
    (hhandles : ∀ j, (s'.handles j).started = (s.handles j).started ∧
      (s'.handles j).starts = (s.handles j).starts)
    (hpending : s'.pending = s.pending ∨ s'.pending = none)
    (hstarts : q.startsClient = (s.pcs t).startsClient)
    (hcarries : ∀ j, q.carries = some j → Awaited s j)
    (huntried : ∀ j, q.untried = some j → (s.pcs t).untried = some j)
    (hmarking : ∀ j resumes, q = .markingStarted j resumes → s.pcs t = q) : Once owner s' := by
  refine ⟨fun j => ?_, fun j => ?_, fun j hj => ?_, fun j hj => ?_, fun j resumes hj => ?_⟩
  · rw [hpcs, (hhandles j).1, (hhandles j).2]
    exact (h.sole j).effect (.keep (by rw [hstarts]) Iff.rfl)
  · rw [(hhandles j).2]
    exact h.most j
  · rw [(hhandles j).1, (hhandles j).2]
    exact h.awaited j (hj.before hpcs hpending hcarries)
  · rw [(hhandles j).1, (hhandles j).2]
    refine h.untried j ?_
    rw [hpcs] at hj
    by_cases ht : owner = t
    · rw [ht, Function.update_self] at hj
      rw [ht]
      exact huntried j hj
    · rwa [Function.update_of_ne ht] at hj
  · rw [(hhandles j).2]
    refine h.marking j resumes ?_
    rw [hpcs] at hj
    by_cases ht : owner = t
    · rw [ht, Function.update_self] at hj
      rw [ht, hmarking j resumes hj]
      exact hj
    · rwa [Function.update_of_ne ht] at hj

theorem Once.plain (h : Once owner s) (hpcs : s'.pcs = Function.update s.pcs t q)
    (hhandles : ∀ j, (s'.handles j).started = (s.handles j).started ∧
      (s'.handles j).starts = (s.handles j).starts)
    (hpending : s'.pending = s.pending ∨ s'.pending = none)
    (hp : (s.pcs t).startsClient = none) (hq : q.plain = true) : Once owner s' := by
  have hstarts : q.startsClient = none := by cases q <;> first | rfl | cases hq
  have hcarries : q.carries = none := by cases q <;> first | rfl | cases hq
  have huntried : q.untried = none := by cases q <;> first | rfl | cases hq
  refine h.same hpcs hhandles hpending (hstarts.trans hp.symm) (fun j hj => ?_) (fun j hj => ?_)
    fun j resumes hmarking => ?_
  · cases hcarries.symm.trans hj
  · cases huntried.symm.trans hj
  · rw [hmarking] at hq
    cases hq

omit [DecidableEq τ] in
/-- Writes that change neither. -/
theorem starts_write {handle : Handle} (hstarted : handle.started = (s.handles i).started)
    (hstarts : handle.starts = (s.handles i).starts) (j : Nat) :
    ((s.write i handle).handles j).started = (s.handles j).started ∧
      ((s.write i handle).handles j).starts = (s.handles j).starts := by
  by_cases hj : j = i
  · rw [hj, State.write_self]
    exact ⟨hstarted, hstarts⟩
  · rw [s.write_of_ne hj]
    exact ⟨rfl, rfl⟩

/-- The steps that write what counts of one handle. -/
theorem Once.update (h : Once owner s) {handle : Handle}
    (hpcs : s'.pcs = Function.update s.pcs t q)
    (hhandles : s'.handles = Function.update s.handles i handle)
    (heffect : Effect (fun pc => pc.startsClient = some i) (s.pcs t) q
      ((s.handles i).started = true ∧ (s.handles i).starts = 0)
      (handle.started = true ∧ handle.starts = 0))
    (hothers : ∀ j, j ≠ i → (q.startsClient = some j ↔ (s.pcs t).startsClient = some j))
    (hmost : handle.starts ≤ 1)
    (hawaited : ∀ j, Awaited s' j → (s'.handles j).started = false → (s'.handles j).starts = 0)
    (huntried : ∀ j, (s'.pcs owner).untried = some j →
      (s'.handles j).started = false ∧ (s'.handles j).starts = 0)
    (hmarking : ∀ j resumes, s'.pcs owner = .markingStarted j resumes →
      (s'.handles j).starts = 1) : Once owner s' := by
  have hwritten : s'.handles i = handle := by
    rw [hhandles, Function.update_self]
  have hother : ∀ j, j ≠ i → s'.handles j = s.handles j := fun j hj => by
    rw [hhandles, Function.update_of_ne hj]
  refine ⟨fun j => ?_, fun j => ?_, hawaited, huntried, hmarking⟩
  · rw [hpcs]
    by_cases hji : j = i
    · rw [hji, hwritten]
      exact (h.sole i).effect heffect
    · rw [hother j hji]
      exact (h.sole j).effect (.keep (hothers j hji) Iff.rfl)
  · by_cases hji : j = i
    · rw [hji, hwritten]
      exact hmost
    · rw [hother j hji]
      exact h.most j

omit [DecidableEq τ] in
theorem Alive.not_awaited (h : Alive owner s) (hshared : (s.handles i).shared = false) :
    ¬ Awaited s i := by
  intro hawaited
  cases hshared.symm.trans (h.awaited hawaited).2

theorem once_created (halive : Alive owner s) (h : Once owner s) {resumes : Bool}
    (hidle : s.pcs owner = .idle) :
    Once owner (({ s with count := s.count + 1 }.write s.count .made).goto owner
      (.checking s.count resumes)) := by
  have hunmade := halive.fresh s.count (Nat.le_refl _)
  refine h.update rfl rfl (.keep ?_ ?_) (fun j _ => ?_) (Nat.zero_le 1) (fun j hj hnot => ?_)
    (fun j hj => ?_) (fun j r hj => ?_)
  · rw [hidle]
    exact Iff.rfl
  · rw [hunmade]
    exact Iff.rfl
  · rw [hidle]
    exact Iff.rfl
  · have hbefore : Awaited s j := hj.before rfl (.inl rfl) nofun
    have hjc : j ≠ s.count := by
      rintro rfl
      exact halive.not_awaited (by rw [hunmade]; rfl) hbefore
    rw [State.goto_handles, State.write_of_ne _ hjc] at hnot ⊢
    exact h.awaited j hbefore hnot
  · rw [State.goto_self] at hj
    cases hj
    rw [State.goto_handles, State.write_self]
    exact ⟨rfl, rfl⟩
  · rw [State.goto_self] at hj
    cases hj

/-- The start of a client that no other task has come by. -/
theorem once_startsNow (halive : Alive owner s) (h : Once owner s) {resumes ok : Bool}
    (hpc : s.pcs owner = .startingNow i resumes) (hq : q.startsClient = none)
    (hcarries : q.carries = none) (huntried : q.untried = none)
    (hmarking : ∀ j r, q = .markingStarted j r → j = i) :
    Once owner ((s.write i ((s.handles i).start ok)).goto owner q) := by
  obtain ⟨hstarted, hstarts⟩ := h.untried i (by rw [hpc]; rfl)
  obtain ⟨-, hshared, -⟩ := halive.roleOk (show (s.pcs owner).role = .hidden i by rw [hpc]; rfl)
  refine h.update rfl rfl (.keep ?_ ?_) (fun j _ => ?_) ?_ (fun j hj hnot => ?_) (fun j hj => ?_)
    (fun j r hj => ?_)
  · rw [hpc, hq]
    exact Iff.rfl
  · simp [Handle.start, hstarted]
  · rw [hpc, hq]
    exact Iff.rfl
  · simp [Handle.start, hstarts]
  · have hbefore : Awaited s j := hj.before rfl (.inl rfl) (by simp [hcarries])
    have hji : j ≠ i := by
      rintro rfl
      exact halive.not_awaited hshared hbefore
    rw [State.goto_handles, State.write_of_ne _ hji] at hnot ⊢
    exact h.awaited j hbefore hnot
  · rw [State.goto_self, huntried] at hj
    cases hj
  · rw [State.goto_self] at hj
    rw [hmarking j r hj, State.goto_handles, State.write_self]
    simp [Handle.start, hstarts]

theorem once_markedStarted (h : Once owner s) {resumes : Bool}
    (hpc : s.pcs owner = .markingStarted i resumes) :
    Once owner ((s.write i { s.handles i with started := true }).goto owner
      (.returning i resumes)) := by
  have hstarts := h.marking i resumes hpc
  refine h.update rfl rfl (.keep ?_ ?_) (fun j _ => ?_) (h.most i) (fun j hj hnot => ?_)
    (fun j hj => ?_) (fun j r hj => ?_)
  · rw [hpc]
    exact Iff.rfl
  · simp [hstarts]
  · rw [hpc]
    exact Iff.rfl
  · have hbefore : Awaited s j := hj.before rfl (.inl rfl) nofun
    by_cases hji : j = i
    · rw [hji, State.goto_handles, State.write_self] at hnot
      cases hnot
    · rw [State.goto_handles, State.write_of_ne _ hji] at hnot ⊢
      exact h.awaited j hbefore hnot
  · rw [State.goto_self] at hj
    cases hj
  · rw [State.goto_self] at hj
    cases hj

theorem once_offered (h : Once owner s) {resumes : Bool}
    (hpc : s.pcs owner = .offering i resumes) :
    Once owner (({ s with pending := some i }.write i { s.handles i with shared := true }).goto
      owner (.attaching i resumes)) := by
  obtain ⟨hstarted, hstarts⟩ := h.untried i (by rw [hpc]; rfl)
  refine h.update rfl rfl (.keep ?_ Iff.rfl) (fun j _ => ?_) (h.most i) (fun j hj hnot => ?_)
    (fun j hj => ?_) (fun j r hj => ?_)
  · rw [hpc]
    exact Iff.rfl
  · rw [hpc]
    exact Iff.rfl
  · by_cases hji : j = i
    · rw [hji, State.goto_handles, State.write_self]
      exact hstarts
    · rw [State.goto_handles, State.write_of_ne _ hji] at hnot ⊢
      refine h.awaited j ?_ hnot
      rcases hj with hpending | ⟨u, hu⟩
      · exact absurd (Option.some.inj hpending).symm hji
      · by_cases huo : u = owner
        · rw [huo, State.goto_self] at hu
          cases hu
        · rw [State.goto_of_ne _ huo] at hu
          exact .inr ⟨u, hu⟩
  · rw [State.goto_self] at hj
    cases hj
  · rw [State.goto_self] at hj
    cases hj

/-- The handle that is started is not one that only the owner knows. -/
theorem Once.untried_goto (halive : Alive owner s) (h : Once owner s) {handle : Handle}
    (hshared : (s.handles i).shared = true) (hq : q.untried = none) {j : Nat}
    (hj : (((s.write i handle).goto t q).pcs owner).untried = some j) :
    (((s.write i handle).goto t q).handles j).started = false ∧
      (((s.write i handle).goto t q).handles j).starts = 0 := by
  have hbefore : (s.pcs owner).untried = some j := by
    by_cases ht : owner = t
    · rw [ht, State.goto_self, hq] at hj
      cases hj
    · rwa [State.goto_of_ne _ ht] at hj
  have hji : j ≠ i := by
    rintro rfl
    have hhidden := halive.role
    rw [role_of_untried hbefore] at hhidden
    cases hhidden.2.1.symm.trans hshared
  rw [State.goto_handles, State.write_of_ne _ hji]
  exact h.untried j hbefore

/-- Nor one that the owner has started by itself. -/
theorem Once.marking_goto (h : Once owner s) {handle : Handle} (hstarts : (s.handles i).starts = 0)
    (hq : ∀ j r, q ≠ .markingStarted j r) {j : Nat} {r : Bool}
    (hj : ((s.write i handle).goto t q).pcs owner = .markingStarted j r) :
    (((s.write i handle).goto t q).handles j).starts = 1 := by
  have hbefore : s.pcs owner = .markingStarted j r := by
    by_cases ht : owner = t
    · rw [ht, State.goto_self] at hj
      exact absurd hj (hq j r)
    · rwa [State.goto_of_ne _ ht] at hj
  have hone := h.marking j r hbefore
  have hji : j ≠ i := by
    rintro rfl
    cases hone.symm.trans hstarts
  rw [State.goto_handles, State.write_of_ne _ hji]
  exact hone

theorem once_marksStarted (halive : Alive owner s) (h : Once owner s) {k : Caller}
    (hpc : s.pcs t = .locking i k) (hnot : (s.handles i).started = false) :
    Once owner ((s.write i { s.handles i with started := true }).goto t (.starting i k)) := by
  have hcarries : (s.pcs t).carries = some i := by rw [hpc]; rfl
  have hstarts := h.awaited i (.inr ⟨t, hcarries⟩) hnot
  have hshared := (halive.held_of_carries hcarries).2
  refine h.update rfl rfl (.take ?_ rfl ⟨rfl, hstarts⟩) (fun j hji => ?_) (h.most i)
    (fun j hj hnot => ?_) (fun j hj => h.untried_goto halive hshared rfl hj)
    fun j r hj => h.marking_goto hstarts (fun _ _ heq => by cases heq) hj
  · rw [hnot]
    exact nofun
  · rw [hpc]
    exact ⟨fun heq => absurd (Option.some.inj heq).symm hji, fun heq => by cases heq⟩
  · have hbefore : Awaited s j := by
      refine hj.before rfl (.inl rfl) fun l hl => ?_
      cases hl
      exact .inr ⟨t, hcarries⟩
    by_cases hji : j = i
    · rw [hji, State.goto_handles, State.write_self] at hnot
      cases hnot
    · rw [State.goto_handles, State.write_of_ne _ hji] at hnot ⊢
      exact h.awaited j hbefore hnot

theorem once_starts (halive : Alive owner s) (h : Once owner s) {k : Caller} {ok : Bool}
    (hpc : s.pcs t = .starting i k) :
    Once owner ((s.write i ((s.handles i).start ok)).goto t k.back) := by
  have howns : (s.pcs t).startsClient = some i := by rw [hpc]; rfl
  have hshared := (halive.held_of_carries (show (s.pcs t).carries = some i by rw [hpc]; rfl)).2
  obtain ⟨hstarted, hstarts⟩ := (h.sole i).taken_iff.mpr ⟨t, howns⟩
  refine h.update rfl rfl (.drop howns ?_ ?_) (fun j hji => ?_) ?_ (fun j hj hnot => ?_)
    (fun j hj => h.untried_goto halive hshared (untried_back k) hj)
    fun j r hj => h.marking_goto hstarts (fun _ _ heq => ?_) hj
  · rw [startsClient_back]
    exact nofun
  · simp [Handle.start]
  · rw [startsClient_back, howns]
    exact ⟨nofun, fun heq => absurd (Option.some.inj heq).symm hji⟩
  · simp [Handle.start, hstarts]
  · have hbefore : Awaited s j := hj.before rfl (.inl rfl) (by simp)
    by_cases hji : j = i
    · rw [hji, State.goto_handles, State.write_self] at hnot
      cases hstarted.symm.trans hnot
    · rw [State.goto_handles, State.write_of_ne _ hji] at hnot ⊢
      exact h.awaited j hbefore hnot
  · have hplain := plain_back k
    rw [heq] at hplain
    cases hplain

theorem plain_of_visits {pc : Pc} (hvisits : pc.visits = some i) :
    pc.startsClient = none ∧ pc.plain = true := by
  cases pc <;> first | exact ⟨rfl, rfl⟩ | cases hvisits

omit [DecidableEq τ] in
theorem starts_owes (s : State τ) (j : Nat) :
    (s.owes.handles j).started = (s.handles j).started ∧
      (s.owes.handles j).starts = (s.handles j).starts := by
  unfold State.owes
  dsimp only
  split
  next => exact ⟨rfl, rfl⟩
  next => exact ⟨rfl, rfl⟩

theorem once_step (halive : Alive owner s) (h : Once owner s) (a : Action τ) :
    Once owner (step owner s a) := by
  generalize hresult : step owner s a = s'
  have hrole : ∀ {t : τ}, (s.pcs t).role ≠ .none → t = owner := halive.owner_of_role
  cases hresult ▸ @moves_step _ _ owner s a with
  | stay => exact h
  | faulted t ok i huses hdead =>
    exact absurd hdead (halive.not_dead (halive.uses huses))
  | null t ok q i huses hnull =>
    cases (halive.order i (halive.uses huses)).2.2.symm.trans hnull
  | resolved t subscribes i hidle hauto =>
    exact h.plain rfl (fun _ => ⟨rfl, rfl⟩) (.inl rfl) (by rw [hidle]; rfl) rfl
  | dispatched t i connected hidle hrunning hclient =>
    exact h.plain rfl (fun _ => ⟨rfl, rfl⟩) (.inl rfl) (by rw [hidle]; rfl) rfl
  | worked t ok q i hp hq =>
    refine h.plain rfl (fun _ => ⟨rfl, rfl⟩) (.inl rfl) (plain_of_visits hp).1 ?_
    rcases hq with rfl | hq
    · rfl
    · exact (plain_of_visits hq).2
  | trackedNew t ok i n hpc =>
    exact h.plain rfl (starts_write rfl rfl) (.inl rfl) (by rw [hpc]; rfl) rfl
  | gotIp t hattached =>
    exact h.same (Function.update_eq_self owner _).symm (starts_owes s) (.inl rfl) rfl
      (fun j hj => .inr ⟨owner, hj⟩) (fun j hj => hj) fun j r _ => rfl
  | observed t hattached hidle =>
    exact h.plain rfl (starts_owes s) (.inl rfl) (by rw [hidle]; rfl) rfl
  | lostIp | notEnabled =>
    exact h.same (Function.update_eq_self owner _).symm (fun _ => ⟨rfl, rfl⟩) (.inl rfl) rfl
      (fun j hj => .inr ⟨owner, hj⟩) (fun j hj => hj) fun j r _ => rfl
  | loadedNone t ok k hpc hpending =>
    exact h.plain rfl (fun _ => ⟨rfl, rfl⟩) (.inl rfl) (by rw [hpc]; rfl) (plain_back k)
  | loaded t ok k i hpc hpending =>
    refine h.same rfl (fun _ => ⟨rfl, rfl⟩) (.inl rfl) (by rw [hpc]; rfl) (fun j hj => ?_) nofun
      nofun
    cases hj
    exact .inl hpending
  | cleared t ok i k hpc =>
    refine h.same rfl (fun _ => ⟨rfl, rfl⟩) (.inr rfl) (by rw [hpc]; rfl) (fun j hj => ?_) nofun
      nofun
    cases hj
    exact .inr ⟨t, by rw [hpc]; rfl⟩
  | already t ok i k hpc hstarted =>
    exact h.plain rfl (fun _ => ⟨rfl, rfl⟩) (.inl rfl) (by rw [hpc]; rfl) (plain_back k)
  | marksStarted t ok i k hpc hnot => exact once_marksStarted halive h hpc hnot
  | starts t ok i k hpc => exact once_starts halive h hpc
  | created resumes hidle hsuspended => exact once_created halive h hidle
  | sawIp t ok i resumes hpc | sawNoIp t ok i resumes hpc =>
    exact h.same rfl (fun _ => ⟨rfl, rfl⟩) (.inl rfl) (by rw [hpc]; rfl) nofun
      (fun j hj => by rw [hpc]; exact hj) nofun
  | startsNow t ok i resumes hpc =>
    obtain rfl := @hrole t (by rw [hpc]; nofun)
    exact once_startsNow halive h hpc rfl rfl rfl fun j r hj => by cases hj; rfl
  | startFails t ok i resumes hpc =>
    obtain rfl := @hrole t (by rw [hpc]; nofun)
    exact once_startsNow halive h hpc rfl rfl rfl nofun
  | markedStarted t ok i resumes hpc =>
    obtain rfl := @hrole t (by rw [hpc]; nofun)
    exact once_markedStarted h hpc
  | offered t ok i resumes hpc =>
    obtain rfl := @hrole t (by rw [hpc]; nofun)
    exact once_offered h hpc
  | undidClient t ok i hpc | undidLock t ok i hpc | undidHandle t ok i hpc
  | marked t ok i suspends hpc | stoppedClient t ok i suspends hpc hstarted
  | destroyed t ok i suspends hpc | lockDeleted t ok i suspends hpc
  | handleFreed t ok i suspends hpc =>
    exact h.plain rfl (starts_write rfl rfl) (.inl rfl) (by rw [hpc]; rfl) rfl
  | attaches t ok i resumes hpc | sawIpAgain t ok i resumes hpc | sawNoIpAgain t ok i resumes hpc
  | returned t ok i resumes hpc | comparedNone t ok suspends hpc | comparedSame t ok suspends i hpc
  | comparedOther t ok suspends i hpc | notStarted t ok i suspends hpc
  | nulled t ok i suspends hpc =>
    exact h.plain rfl (fun _ => ⟨rfl, rfl⟩) (.inl rfl) (by rw [hpc]; rfl) rfl
  | stops suspends hidle =>
    exact h.plain rfl (fun _ => ⟨rfl, rfl⟩) (.inl rfl) (by rw [hidle]; rfl) rfl
  | withdrew t ok i suspends hpc =>
    exact h.plain rfl (fun _ => ⟨rfl, rfl⟩) (.inr rfl) (by rw [hpc]; rfl) rfl

end Steps

end MqttClient
end Breadboard
