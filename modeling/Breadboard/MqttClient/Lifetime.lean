import Breadboard.Foundations.SoleOwner
import Breadboard.MqttClient.Tasks

/-!
# bb_mqtt_client - no use after free, and one start

The owner frees the client, the lock and the handle without waiting for the tasks that
have come by the handle, so that nothing is used after it was freed exactly as long as
no task holds the handle when the owner starts to free, or comes by it until the owner has
forgotten it.

Main results:

- Theorem `alive_step`: a step keeps what is held alive, as long as the owner does
  not start to free a handle that is held, no task resolves a handle that is being freed,
  and no client is made while there is one.
-/

namespace Breadboard
namespace MqttClient

open Foundations

/-! ## Control points -/

/-- The handle a task has come by. -/
def Pc.holds (pc : Pc) : Option Nat :=
  pc.visits <|> pc.carries

/-- What the owner is doing to a handle. -/
inductive Role where
  | none
  /-- It makes a handle that no other task can have come by. -/
  | hidden (h : Nat)
  | making (h : Nat)
  | undone (h : Nat)
  | comparing
  | withdrawing (h : Nat)
  | leaving (h : Nat)
  /-- The client may have been freed. -/
  | releasing (h : Nat)
  | gone (h : Nat)
  deriving DecidableEq

def Pc.role : Pc → Role
  | .checking h _ | .startingNow h _ | .undoingClient h | .offering h _ => .hidden h
  | .markingStarted h _ | .attaching h _ | .rechecking h _ | .returning h _
  | .fired (some (h, _)) | .clearing _ (some (h, _)) | .locking _ (some (h, _))
  | .starting _ (some (h, _)) => .making h
  | .undoingLock h | .undoingHandle h => .undone h
  | .comparing _ => .comparing
  | .withdrawing h _ => .withdrawing h
  | .marking h _ | .stopping h _ => .leaving h
  | .destroying h _ => .releasing h
  | .deleting h _ | .freeing h _ | .nulling h _ => .gone h
  | _ => .none

/-- In `on_got_ip_cb`. -/
def Pc.observing : Pc → Bool
  | .fired _ | .clearing _ _ | .locking _ _ | .starting _ _ => true
  | _ => false

section Sound

variable {τ : Type} (owner : τ) (s : State τ)

/-- What should hold in every state. -/
structure Sound : Prop where
  /-- No step has touched what was freed. -/
  safe : s.fault = false
  /-- No client is started twice. -/
  once : ∀ h, (s.handles h).starts ≤ 1
  /--
  Once the observer is through, a client that waited when an IP address was acquired has been
  started, or its destruction has begun.
  -/
  served : (∀ t, (s.pcs t).observing = false) → ∀ h, (s.handles h).owed = true →
    (s.handles h).starts = 1 ∨ (s.handles h).destroyed = true ∨ (s.pcs owner).role = .leaving h

/-- The handle whose client the task frees by its next step. -/
def State.frees (t : τ) : Option Nat :=
  match s.pcs t with
  | .stopping h _ => if (s.handles h).started then some h else none
  | .destroying h _ => if (s.handles h).clientFreed then none else some h
  | _ => none

/-- The condition on a step. -/
def Careful (s : State τ) : Action τ → Prop
  /- No client is made while there is one. -/
  | .create enabled resumes =>
    enabled = true → (resumes = true → s.suspended = true) → s.auto = none
  /- No task resolves a handle whose client has been freed. -/
  | .resolve _ _ => ∀ h ∈ s.auto, (s.handles h).clientFreed = false
  /- No task holds the handle whose client the owner is about to free. -/
  | .advance t _ => ∀ h ∈ s.frees t, ∀ u, (s.pcs u).holds ≠ some h
  | _ => True

instance [Fintype τ] (a : Action τ) : Decidable (Careful s a) :=
  match a with
  | .create enabled resumes =>
    inferInstanceAs (Decidable (enabled = true → (resumes = true → s.suspended = true) → s.auto = none))
  | .resolve _ _ => inferInstanceAs (Decidable (∀ h ∈ s.auto, (s.handles h).clientFreed = false))
  | .advance t _ =>
    inferInstanceAs (Decidable (∀ h ∈ s.frees t, ∀ u, (s.pcs u).holds ≠ some h))
  | .stop _ | .dispatch _ _ _ | .gotIp _ | .lostIp => isTrue trivial

/-- What holds of the handle the owner is at. -/
def RoleOk : Role → Prop
  | .none | .comparing => True
  | .hidden h => (s.handles h).clientFreed = false ∧ (s.handles h).shared = false ∧ s.auto = none
  | .making h => (s.handles h).clientFreed = false ∧ (s.handles h).shared = true ∧ s.auto = none
  | .undone h => (s.handles h).clientFreed = true ∧ h < s.count ∧ s.auto = none
  | .withdrawing h => (s.handles h).clientFreed = false ∧ s.auto = some h
  | .leaving h => (s.handles h).clientFreed = false ∧ s.auto = some h ∧ s.pending ≠ some h
  | .releasing h => s.auto = some h ∧ s.pending ≠ some h
  | .gone h => (s.handles h).clientFreed = true ∧ s.auto = some h ∧ s.pending ≠ some h

/-- Who has come by which handle, and what the owner does meanwhile. -/
structure Alive : Prop where
  safe : s.fault = false
  order : ∀ h, (s.handles h).clientFreed = false →
    (s.handles h).lockFreed = false ∧ (s.handles h).freed = false ∧ (s.handles h).client = true
  others : ∀ t, t ≠ owner → (s.pcs t).role = .none
  held : ∀ t h, (s.pcs t).holds = some h →
    (s.handles h).clientFreed = false ∧ (s.handles h).shared = true
  role : RoleOk s (s.pcs owner).role
  pending : ∀ h, s.pending = some h →
    (s.handles h).clientFreed = false ∧ (s.handles h).shared = true
  auto : ∀ h, s.auto = some h → (s.handles h).shared = true ∧
    ((s.handles h).clientFreed = false ∨ (s.pcs owner).role = .releasing h ∨
      (s.pcs owner).role = .gone h)
  /-- There is one handle at a time. -/
  single : ∀ h, (s.handles h).clientFreed = false → s.auto = some h ∨
    (s.pcs owner).role = .hidden h ∨ (s.pcs owner).role = .making h
  running : ∀ h, (s.handles h).running = true → (s.handles h).shared = true
  fresh : ∀ h, s.count ≤ h → s.handles h = .unmade

end Sound

variable {τ : Type} {owner : τ} {s s' : State τ}

theorem alive_init (owner : τ) : Alive owner (State.init τ) where
  safe := rfl
  order h hfreed := by cases hfreed
  others t _ := rfl
  held t h hholds := by cases hholds
  role := trivial
  pending h hpending := by cases hpending
  auto h hauto := by cases hauto
  single h hfreed := by cases hfreed
  running h hrunning := by cases hrunning
  fresh h _ := rfl

@[simp] theorem role_back (k : Caller) : k.back.role = (Pc.fired k).role := by
  cases k <;> rfl

@[simp] theorem holds_back (k : Caller) : k.back.holds = none := by
  cases k <;> rfl

theorem role_of_visits {pc : Pc} {h : Nat} (hvisits : pc.visits = some h) : pc.role = .none := by
  cases pc <;> first | rfl | cases hvisits

theorem Alive.owner_of_role (h : Alive owner s) {t : τ} (hrole : (s.pcs t).role ≠ .none) :
    t = owner := by
  by_contra hne
  exact hrole (h.others t hne)

/-! ## Steps that free nothing and leave the role of the owner -/

/-- A handle before and after, with nothing of it freed and no task that comes by it first. -/
structure LivesOn (a b : Handle) : Prop where
  clientFreed : b.clientFreed = a.clientFreed
  shared : b.shared = a.shared
  living : a.clientFreed = false →
    b.lockFreed = a.lockFreed ∧ b.freed = a.freed ∧ b.client = a.client
  running : b.running = true → a.running = true ∨ a.shared = true
  made : a = .unmade → b = .unmade

theorem LivesOn.refl (a : Handle) : LivesOn a a :=
  ⟨rfl, rfl, fun _ => ⟨rfl, rfl, rfl⟩, fun h => .inl h, fun h => h⟩

structure SameLife (s s' : State τ) : Prop where
  fault : s'.fault = s.fault
  auto : s'.auto = s.auto
  count : s'.count = s.count
  pending : s'.pending = s.pending ∨ s'.pending = none
  handles : ∀ h, LivesOn (s.handles h) (s'.handles h)

theorem SameLife.clientFreed (h : SameLife s s') (i : Nat) :
    (s'.handles i).clientFreed = (s.handles i).clientFreed :=
  (h.handles i).clientFreed

theorem SameLife.shared (h : SameLife s s') (i : Nat) :
    (s'.handles i).shared = (s.handles i).shared :=
  (h.handles i).shared

theorem RoleOk.same {role : Role} (h : RoleOk s role) (hsame : SameLife s s') : RoleOk s' role := by
  have hpending : ∀ {i}, s.pending ≠ some i → s'.pending ≠ some i := by
    intro i hne
    rcases hsame.pending with heq | heq
    · rw [heq]
      exact hne
    · rw [heq]
      exact nofun
  cases role with
  | none | comparing => trivial
  | hidden i | making i =>
    exact ⟨(hsame.clientFreed i).trans h.1, (hsame.shared i).trans h.2.1, hsame.auto.trans h.2.2⟩
  | undone i =>
    exact ⟨(hsame.clientFreed i).trans h.1, hsame.count.symm ▸ h.2.1, hsame.auto.trans h.2.2⟩
  | withdrawing i => exact ⟨(hsame.clientFreed i).trans h.1, hsame.auto.trans h.2⟩
  | leaving i | gone i =>
    exact ⟨(hsame.clientFreed i).trans h.1, hsame.auto.trans h.2.1, hpending h.2.2⟩
  | releasing i => exact ⟨hsame.auto.trans h.1, hpending h.2⟩

theorem Alive.same [DecidableEq τ] (h : Alive owner s) {t : τ} {q : Pc} (hsame : SameLife s s')
    (hpcs : s'.pcs = Function.update s.pcs t q) (hrole : q.role = (s.pcs t).role)
    (hheld : ∀ i, q.holds = some i →
      (s.handles i).clientFreed = false ∧ (s.handles i).shared = true) : Alive owner s' := by
  have hroles : ∀ u, (s'.pcs u).role = (s.pcs u).role := by
    intro u
    rw [hpcs]
    by_cases hu : u = t
    · rw [hu, Function.update_self]
      exact hrole
    · rw [Function.update_of_ne hu]
  refine ⟨hsame.fault.trans h.safe, fun i hi => ?_, fun u hu => (hroles u).trans (h.others u hu),
    fun u i hu => ?_, ?_, fun i hi => ?_, fun i hi => ?_, fun i hi => ?_, fun i hi => ?_,
    fun i hi => (hsame.handles i).made (h.fresh i (hsame.count ▸ hi))⟩
  · rw [hsame.clientFreed] at hi
    obtain ⟨hlock, hfreed, hclient⟩ := (hsame.handles i).living hi
    rw [hlock, hfreed, hclient]
    exact h.order i hi
  · rw [hsame.clientFreed, hsame.shared]
    by_cases hut : u = t
    · rw [hpcs, hut, Function.update_self] at hu
      exact hheld i hu
    · rw [hpcs, Function.update_of_ne hut] at hu
      exact h.held u i hu
  · rw [hroles]
    exact h.role.same hsame
  · rw [hsame.clientFreed, hsame.shared]
    rcases hsame.pending with heq | heq
    · exact h.pending i (heq ▸ hi)
    · rw [heq] at hi
      cases hi
  · rw [hsame.clientFreed, hsame.shared, hroles]
    exact h.auto i (hsame.auto ▸ hi)
  · rw [hsame.auto, hroles]
    exact h.single i (hsame.clientFreed i ▸ hi)
  · rw [hsame.shared]
    rcases (hsame.handles i).running hi with hrunning | hshared
    · exact h.running i hrunning
    · exact hshared

section Steps

variable [DecidableEq τ] {t : τ} {q : Pc} {i : Nat}

theorem SameLife.goto (h : SameLife s s') : SameLife s (s'.goto t q) :=
  ⟨h.fault, h.auto, h.count, h.pending, h.handles⟩

omit [DecidableEq τ] in
theorem SameLife.refl (s : State τ) : SameLife s s :=
  ⟨rfl, rfl, rfl, .inl rfl, fun i => .refl (s.handles i)⟩

omit [DecidableEq τ] in
theorem sameLife_write {handle : Handle} (hlives : LivesOn (s.handles i) handle) :
    SameLife s (s.write i handle) := by
  refine ⟨rfl, rfl, rfl, .inl rfl, fun j => ?_⟩
  by_cases hj : j = i
  · rw [hj, State.write_self]
    exact hlives
  · rw [s.write_of_ne hj]
    exact .refl _

theorem Alive.moved (h : Alive owner s) (hrole : q.role = (s.pcs t).role)
    (hheld : ∀ i, q.holds = some i →
      (s.handles i).clientFreed = false ∧ (s.handles i).shared = true) : Alive owner (s.goto t q) :=
  h.same (SameLife.refl s).goto rfl hrole hheld

omit [DecidableEq τ] in
theorem ne_unmade (h : (s.handles i).clientFreed = false) : s.handles i ≠ .unmade := by
  intro hunmade
  rw [hunmade] at h
  cases h

omit [DecidableEq τ] in
theorem owes_handle (hkept : s.forgotten = []) (j : Nat) : s.owes.handles j = s.handles j ∨
    s.auto = some j ∧ s.owes.handles j = { s.handles j with owed := true } := by
  unfold State.owes
  dsimp only
  split
  next hwaits =>
    rcases hwaits.1 with hauto | hforgotten
    · exact .inr ⟨hauto, rfl⟩
    · rw [hkept] at hforgotten
      cases hforgotten
  next => exact .inl rfl

omit [DecidableEq τ] in
theorem Alive.made_of_auto (h : Alive owner s) (hauto : s.auto = some i) :
    s.handles i ≠ .unmade := by
  intro hunmade
  have hshared := (h.auto i hauto).1
  rw [hunmade] at hshared
  cases hshared

omit [DecidableEq τ] in
theorem Alive.owes (h : Alive owner s) (hkept : s.forgotten = []) : SameLife s s.owes := by
  refine ⟨rfl, rfl, rfl, .inl rfl, fun j => ?_⟩
  rcases owes_handle hkept j with heq | ⟨hauto, heq⟩
  · rw [heq]
    exact .refl _
  · rw [heq]
    exact ⟨rfl, rfl, fun _ => ⟨rfl, rfl, rfl⟩, fun hr => .inl hr,
      fun hunmade => absurd hunmade (h.made_of_auto hauto)⟩

omit [DecidableEq τ] in
/-- What a task is about to touch has not been freed. -/
theorem Alive.uses (h : Alive owner s) (huses : (s.pcs t).uses = some i) :
    (s.handles i).clientFreed = false := by
  have hrole : ∀ role, (s.pcs t).role = role → role ≠ .none → RoleOk s role := by
    intro role heq hne
    have ht : t = owner := h.owner_of_role (heq ▸ hne)
    rw [← heq, ht]
    exact h.role
  cases hpc : s.pcs t with
  | startingNow j resumes =>
    rw [hpc] at huses
    cases huses
    exact (hrole (.hidden i) (by rw [hpc]; rfl) nofun).1
  | marking j suspends | stopping j suspends =>
    rw [hpc] at huses
    cases huses
    exact (hrole (.leaving i) (by rw [hpc]; rfl) nofun).1
  | _ =>
    refine (h.held t i ?_).1
    rw [hpc] at huses ⊢
    exact huses

/-! ## Steps that change the role of the owner -/

theorem Alive.others_goto (h : Alive owner s) (q : Pc) :
    ∀ u, u ≠ owner → (Function.update s.pcs owner q u).role = .none := by
  intro u hu
  rw [Function.update_of_ne hu]
  exact h.others u hu

/-- What another task holds, or the owner newly holds. -/
theorem Alive.held_goto (h : Alive owner s) (hq : q.holds = none) {u : τ} {j : Nat}
    (hu : (Function.update s.pcs owner q u).holds = some j) :
    (s.handles j).clientFreed = false ∧ (s.handles j).shared = true := by
  by_cases huo : u = owner
  · rw [huo, Function.update_self, hq] at hu
    cases hu
  · rw [Function.update_of_ne huo] at hu
    exact h.held u j hu

/-- No client is being made or freed, and none is from now on. -/
theorem Alive.turned (h : Alive owner s) (hsame : SameLife s s')
    (hpcs : s'.pcs = Function.update s.pcs owner q)
    (hplain : ∀ i, (s.pcs owner).role ≠ .releasing i ∧ (s.pcs owner).role ≠ .gone i ∧
      (s.pcs owner).role ≠ .hidden i ∧ (s.pcs owner).role ≠ .making i)
    (hq : q.holds = none) (hrole : RoleOk s' q.role) : Alive owner s' := by
  have hself : (s'.pcs owner) = q := by
    rw [hpcs, Function.update_self]
  refine ⟨hsame.fault.trans h.safe, fun j hj => ?_, ?_, fun u j hu => ?_, ?_, fun j hj => ?_,
    fun j hj => ?_, fun j hj => ?_, fun j hj => ?_,
    fun j hj => (hsame.handles j).made (h.fresh j (hsame.count ▸ hj))⟩
  · rw [hsame.clientFreed] at hj
    obtain ⟨hlock, hfreed, hclient⟩ := (hsame.handles j).living hj
    rw [hlock, hfreed, hclient]
    exact h.order j hj
  · rw [hpcs]
    exact h.others_goto q
  · rw [hpcs] at hu
    rw [hsame.clientFreed, hsame.shared]
    exact h.held_goto hq hu
  · rw [hself]
    exact hrole
  · rw [hsame.clientFreed, hsame.shared]
    rcases hsame.pending with heq | heq
    · exact h.pending j (heq ▸ hj)
    · rw [heq] at hj
      cases hj
  · rw [hsame.clientFreed, hsame.shared]
    obtain ⟨hshared, halive | hreleasing | hgone⟩ := h.auto j (hsame.auto ▸ hj)
    · exact ⟨hshared, .inl halive⟩
    · exact absurd hreleasing (hplain j).1
    · exact absurd hgone (hplain j).2.1
  · rw [hsame.clientFreed] at hj
    rcases h.single j hj with hauto | hhidden | hmaking
    · exact .inl (hsame.auto.trans hauto)
    · exact absurd hhidden (hplain j).2.2.1
    · exact absurd hmaking (hplain j).2.2.2
  · rw [hsame.shared]
    rcases (hsame.handles j).running hj with hrunning | hshared
    · exact h.running j hrunning
    · exact hshared

/-- The owner goes on, and one handle is another. -/
theorem Alive.update (h : Alive owner s) {handle : Handle} (hfault : s'.fault = s.fault)
    (hpcs : s'.pcs = Function.update s.pcs owner q)
    (hhandles : s'.handles = Function.update s.handles i handle) (hq : q.holds = none)
    (horder : handle.clientFreed = false →
      handle.lockFreed = false ∧ handle.freed = false ∧ handle.client = true)
    (hheld : (∃ u, u ≠ owner ∧ (s.pcs u).holds = some i) →
      handle.clientFreed = false ∧ handle.shared = true)
    (hrole : RoleOk s' q.role)
    (hpending : ∀ j, s'.pending = some j → (s'.handles j).clientFreed = false ∧
      (s'.handles j).shared = true)
    (hauto : ∀ j, s'.auto = some j → (s'.handles j).shared = true ∧
      ((s'.handles j).clientFreed = false ∨ q.role = .releasing j ∨ q.role = .gone j))
    (hsingle : ∀ j, (s'.handles j).clientFreed = false →
      s'.auto = some j ∨ q.role = .hidden j ∨ q.role = .making j)
    (hrunning : handle.running = true → handle.shared = true)
    (hfresh : ∀ j, s'.count ≤ j → s'.handles j = .unmade) : Alive owner s' := by
  have hself : s'.pcs owner = q := by
    rw [hpcs, Function.update_self]
  have hwritten : s'.handles i = handle := by
    rw [hhandles, Function.update_self]
  have hother : ∀ j, j ≠ i → s'.handles j = s.handles j := fun j hj => by
    rw [hhandles, Function.update_of_ne hj]
  refine ⟨hfault.trans h.safe, fun j hj => ?_, hpcs ▸ h.others_goto q, fun u j hu => ?_,
    hself ▸ hrole, hpending, hself ▸ hauto, hself ▸ hsingle, fun j hj => ?_, hfresh⟩
  · by_cases hji : j = i
    · rw [hji, hwritten] at hj ⊢
      exact horder hj
    · rw [hother j hji] at hj ⊢
      exact h.order j hj
  · rw [hpcs] at hu
    by_cases huo : u = owner
    · rw [huo, Function.update_self, hq] at hu
      cases hu
    · rw [Function.update_of_ne huo] at hu
      by_cases hji : j = i
      · rw [hji, hwritten]
        exact hheld ⟨u, huo, hji ▸ hu⟩
      · rw [hother j hji]
        exact h.held u j hu
  · by_cases hji : j = i
    · rw [hji, hwritten] at hj ⊢
      exact hrunning hj
    · rw [hother j hji] at hj ⊢
      exact h.running j hj

theorem alive_created (h : Alive owner s) {resumes : Bool} (hidle : s.pcs owner = .idle)
    (hauto : s.auto = none) :
    Alive owner (({ s with count := s.count + 1 }.write s.count .made).goto owner
      (.checking s.count resumes)) := by
  have hunmade := h.fresh s.count (Nat.le_refl _)
  have hnone : ∀ {j}, (s.handles j).clientFreed = false → False := by
    intro j hj
    rcases h.single j hj with hauto' | hrole | hrole
    · rw [hauto] at hauto'
      cases hauto'
    · rw [hidle] at hrole
      cases hrole
    · rw [hidle] at hrole
      cases hrole
  refine h.update rfl rfl rfl rfl (fun _ => ⟨rfl, rfl, rfl⟩) ?_ ?_ (fun j hj => ?_) (fun j hj => ?_)
    (fun j hj => ?_) nofun (fun j hj => ?_)
  · rintro ⟨u, -, hu⟩
    exact (hnone (h.held u _ hu).1).elim
  · refine ⟨?_, ?_, hauto⟩
    · rw [State.goto_handles, State.write_self]
      rfl
    · rw [State.goto_handles, State.write_self]
      rfl
  · exact (hnone (h.pending j hj).1).elim
  · cases hauto.symm.trans hj
  · by_cases hjc : j = s.count
    · rw [hjc]
      exact .inr (.inl rfl)
    · rw [State.goto_handles, State.write_of_ne _ hjc] at hj
      exact (hnone hj).elim
  · have hjc : j ≠ s.count := by
      rintro rfl
      exact Nat.not_succ_le_self _ hj
    rw [State.goto_handles, State.write_of_ne _ hjc]
    exact h.fresh j (Nat.le_of_succ_le hj)

omit [DecidableEq τ] in
theorem Alive.roleOk (h : Alive owner s) {role : Role} (hrole : (s.pcs owner).role = role) :
    RoleOk s role :=
  hrole ▸ h.role

omit [DecidableEq τ] in
/-- While the owner makes a handle there is no other. -/
theorem Alive.only_made (h : Alive owner s)
    (hrole : (s.pcs owner).role = .hidden i ∨ (s.pcs owner).role = .making i) {j : Nat}
    (hj : (s.handles j).clientFreed = false) : j = i := by
  have hauto : s.auto = none := by
    rcases hrole with hrole | hrole
    · exact (h.roleOk hrole).2.2
    · exact (h.roleOk hrole).2.2
  rcases h.single j hj with hsome | hj | hj
  · rw [hauto] at hsome
    cases hsome
  · rcases hrole with hrole | hrole
    · exact (Role.hidden.inj (hrole.symm.trans hj)).symm
    · cases hrole.symm.trans hj
  · rcases hrole with hrole | hrole
    · cases hrole.symm.trans hj
    · exact (Role.making.inj (hrole.symm.trans hj)).symm

omit [DecidableEq τ] in
/-- And once it is the automatic client there is no other. -/
theorem Alive.only_auto (h : Alive owner s) (hauto : s.auto = some i) {j : Nat}
    (hj : (s.handles j).clientFreed = false) : j = i := by
  rcases h.single j hj with hsome | hrole | hrole
  · exact Option.some.inj (hsome.symm.trans hauto)
  · cases (h.roleOk hrole).2.2.symm.trans hauto
  · cases (h.roleOk hrole).2.2.symm.trans hauto

omit [DecidableEq τ] in
theorem Alive.unique (h : Alive owner s) (hi : (s.handles i).clientFreed = false) {j : Nat}
    (hj : (s.handles j).clientFreed = false) : j = i := by
  rcases h.single i hi with hauto | hhidden | hmaking
  · exact h.only_auto hauto hj
  · exact h.only_made (.inl hhidden) hj
  · exact h.only_made (.inr hmaking) hj

omit [DecidableEq τ] in
theorem Alive.fresh_ne (h : Alive owner s) (hmade : s.handles i ≠ .unmade) {j : Nat}
    (hj : s.count ≤ j) : j ≠ i := by
  rintro rfl
  exact hmade (h.fresh j hj)

/-- The owner makes the handle known, by starting its client or by offering it. -/
theorem alive_shown (h : Alive owner s) {handle : Handle} {pending : Option Nat}
    (hrole : (s.pcs owner).role = .hidden i) (hq : q.role = .making i) (hholds : q.holds = none)
    (hfreed : handle.clientFreed = (s.handles i).clientFreed)
    (hliving : handle.lockFreed = (s.handles i).lockFreed ∧
      handle.freed = (s.handles i).freed ∧ handle.client = (s.handles i).client)
    (hshared : handle.shared = true) (hpending : pending = s.pending ∨ pending = some i) :
    Alive owner (({ s with pending := pending }.write i handle).goto owner q) := by
  obtain ⟨halive, -, hauto⟩ := h.roleOk hrole
  have hmade := ne_unmade halive
  have hwritten : (({ s with pending := pending }.write i handle).goto owner q).handles i = handle := by
    rw [State.goto_handles, State.write_self]
  refine h.update rfl rfl rfl hholds (fun _ => ?_) (fun _ => ⟨hfreed.trans halive, hshared⟩) ?_
    (fun j hj => ?_) (fun j hj => ?_) (fun j hj => ?_) (fun _ => hshared) (fun j hj => ?_)
  · rw [hliving.1, hliving.2.1, hliving.2.2]
    exact h.order i halive
  · rw [hq]
    refine ⟨?_, ?_, hauto⟩
    · rw [hwritten, hfreed]
      exact halive
    · rw [hwritten]
      exact hshared
  · have hji : j = i := by
      change pending = some j at hj
      rcases hpending with heq | heq
      · exact h.only_made (.inl hrole) (h.pending j (heq ▸ hj)).1
      · exact (Option.some.inj (heq.symm.trans hj)).symm
    rw [hji, hwritten]
    exact ⟨hfreed.trans halive, hshared⟩
  · cases hauto.symm.trans hj
  · right
    right
    by_cases hji : j = i
    · rw [hji, hq]
    · rw [State.goto_handles, State.write_of_ne _ hji] at hj
      exact absurd (h.only_made (.inl hrole) hj) hji
  · have hji := h.fresh_ne hmade hj
    rw [State.goto_handles, State.write_of_ne _ hji]
    exact h.fresh j hj

/-- A client that could not be started is freed before anyone has come by it. -/
theorem alive_undidClient (h : Alive owner s) (hpc : s.pcs owner = .undoingClient i) :
    Alive owner ((s.write i { s.handles i with clientFreed := true }).goto owner
      (.undoingLock i)) := by
  have hrole : (s.pcs owner).role = .hidden i := by rw [hpc]; rfl
  obtain ⟨halive, hshared, hauto⟩ := h.roleOk hrole
  have hmade := ne_unmade halive
  refine h.update rfl rfl rfl rfl nofun ?_ ?_ (fun j hj => ?_) (fun j hj => ?_) (fun j hj => ?_)
    (h.running i) (fun j hj => ?_)
  · rintro ⟨u, -, hu⟩
    have hu' := (h.held u i hu).2
    rw [hshared] at hu'
    cases hu'
  · refine ⟨?_, Nat.lt_of_not_le fun hcount => hmade (h.fresh i hcount), hauto⟩
    rw [State.goto_handles, State.write_self]
  · have hpending := h.pending j hj
    have hji : j ≠ i := by
      rintro rfl
      rw [hshared] at hpending
      cases hpending.2
    rw [State.goto_handles, State.write_of_ne _ hji]
    exact hpending
  · cases hauto.symm.trans hj
  · by_cases hji : j = i
    · rw [hji, State.goto_handles, State.write_self] at hj
      cases hj
    · rw [State.goto_handles, State.write_of_ne _ hji] at hj
      exact absurd (h.only_made (.inl hrole) hj) hji
  · have hji := h.fresh_ne hmade hj
    rw [State.goto_handles, State.write_of_ne _ hji]
    exact h.fresh j hj

theorem alive_undidHandle (h : Alive owner s) (hpc : s.pcs owner = .undoingHandle i) :
    Alive owner (({ s with auto := none }.write i { s.handles i with freed := true }).goto owner
      .idle) := by
  have hrole : (s.pcs owner).role = .undone i := by rw [hpc]; rfl
  obtain ⟨hfreed, hcount, hauto⟩ := h.roleOk hrole
  have hnone : ∀ {j}, (s.handles j).clientFreed = false → False := by
    intro j hj
    rcases h.single j hj with hsome | hother | hother
    · cases hauto.symm.trans hsome
    · cases hrole.symm.trans hother
    · cases hrole.symm.trans hother
  refine h.update rfl rfl rfl rfl (fun hj => ?_) ?_ trivial (fun j hj => ?_) nofun (fun j hj => ?_)
    (h.running i) (fun j hj => ?_)
  · exact (hnone hj).elim
  · rintro ⟨u, -, hu⟩
    exact (hnone (h.held u i hu).1).elim
  · exact (hnone (h.pending j hj).1).elim
  · by_cases hji : j = i
    · rw [hji, State.goto_handles, State.write_self] at hj
      exact (hnone hj).elim
    · rw [State.goto_handles, State.write_of_ne _ hji] at hj
      exact (hnone hj).elim
  · have hji : j ≠ i := by
      rintro rfl
      exact Nat.not_lt_of_le hj hcount
    rw [State.goto_handles, State.write_of_ne _ hji]
    exact h.fresh j hj

theorem alive_returned (h : Alive owner s) {resumes : Bool}
    (hpc : s.pcs owner = .returning i resumes) :
    Alive owner ((s.returned i resumes).goto owner .idle) := by
  have hrole : (s.pcs owner).role = .making i := by rw [hpc]; rfl
  obtain ⟨halive, hshared, hauto⟩ := h.roleOk hrole
  refine h.update rfl rfl (Function.update_eq_self i s.handles).symm rfl (h.order i)
    (fun _ => ⟨halive, hshared⟩) trivial h.pending (fun j hj => ?_) (fun j hj => ?_) (h.running i)
    h.fresh
  · cases hj
    exact ⟨hshared, .inl halive⟩
  · rw [h.only_made (.inr hrole) hj]
    exact .inl rfl

/-- The owner frees the client of a handle that no task holds. -/
theorem alive_freed (h : Alive owner s) {handle : Handle} (hauto : s.auto = some i)
    (hpending : s.pending ≠ some i) (hunheld : ∀ u, (s.pcs u).holds ≠ some i)
    (hfreed : handle.clientFreed = true) (hshared : handle.shared = (s.handles i).shared)
    (hq : q.role = .releasing i ∨ q.role = .gone i) (hholds : q.holds = none) :
    Alive owner ((s.write i handle).goto owner q) := by
  have hmade := h.made_of_auto hauto
  have hwritten : ((s.write i handle).goto owner q).handles i = handle := by
    rw [State.goto_handles, State.write_self]
  refine h.update rfl rfl rfl hholds (fun hnot => ?_) (fun ⟨u, _, hu⟩ => absurd hu (hunheld u)) ?_
    (fun j hj => ?_) (fun j hj => ?_) (fun j hj => ?_) (fun _ => ?_) (fun j hj => ?_)
  · rw [hfreed] at hnot
    cases hnot
  · rcases hq with heq | heq
    · rw [heq]
      exact ⟨hauto, hpending⟩
    · rw [heq]
      refine ⟨?_, hauto, hpending⟩
      rw [hwritten]
      exact hfreed
  · have hji : j ≠ i := by
      rintro rfl
      exact hpending hj
    rw [State.goto_handles, State.write_of_ne _ hji]
    exact h.pending j hj
  · have hji : j = i := Option.some.inj (hj.symm.trans hauto)
    rw [hji, hwritten, hshared]
    exact ⟨(h.auto i hauto).1, .inr hq⟩
  · by_cases hji : j = i
    · rw [hji, hwritten, hfreed] at hj
      cases hj
    · rw [State.goto_handles, State.write_of_ne _ hji] at hj
      exact absurd (h.only_auto hauto hj) hji
  · rw [hshared]
    exact (h.auto i hauto).1
  · have hji := h.fresh_ne hmade hj
    rw [State.goto_handles, State.write_of_ne _ hji]
    exact h.fresh j hj

theorem alive_nulled (h : Alive owner s) {suspends : Bool}
    (hpc : s.pcs owner = .nulling i suspends) :
    Alive owner ((s.stopped suspends).goto owner .idle) := by
  have hrole : (s.pcs owner).role = .gone i := by rw [hpc]; rfl
  obtain ⟨hfreed, hauto, -⟩ := h.roleOk hrole
  have hnone : ∀ {j}, (s.handles j).clientFreed = false → False := by
    intro j hj
    rw [h.only_auto hauto hj, hfreed] at hj
    cases hj
  refine h.update rfl rfl (Function.update_eq_self i s.handles).symm rfl (h.order i) ?_ trivial
    h.pending nofun (fun j hj => (hnone hj).elim) (h.running i) h.fresh
  rintro ⟨u, -, hu⟩
  exact h.held u i hu

theorem Alive.written (h : Alive owner s) {handle : Handle} (hmade : s.handles i ≠ .unmade)
    (hfreed : handle.clientFreed = (s.handles i).clientFreed)
    (hshared : handle.shared = (s.handles i).shared)
    (hliving : (s.handles i).clientFreed = false → handle.lockFreed = (s.handles i).lockFreed ∧
      handle.freed = (s.handles i).freed ∧ handle.client = (s.handles i).client)
    (hrunning : handle.running = true → (s.handles i).running = true ∨ (s.handles i).shared = true)
    (hrole : q.role = (s.pcs t).role)
    (hheld : ∀ i, q.holds = some i →
      (s.handles i).clientFreed = false ∧ (s.handles i).shared = true) :
    Alive owner ((s.write i handle).goto t q) :=
  h.same (sameLife_write ⟨hfreed, hshared, hliving, hrunning, fun hunmade =>
    absurd hunmade hmade⟩).goto rfl hrole hheld

omit [DecidableEq τ] in
theorem Alive.held_of_visits (h : Alive owner s) (hvisits : (s.pcs t).visits = some i) :
    (s.handles i).clientFreed = false ∧ (s.handles i).shared = true :=
  h.held t i (by rw [Pc.holds, hvisits]; rfl)

omit [DecidableEq τ] in
theorem Alive.held_of_carries (h : Alive owner s) (hcarries : (s.pcs t).carries = some i) :
    (s.handles i).clientFreed = false ∧ (s.handles i).shared = true := by
  refine h.held t i ?_
  cases hpc : s.pcs t <;> rw [hpc] at hcarries <;> first | exact hcarries | cases hcarries

omit [DecidableEq τ] in
theorem Alive.alive_of_comparing (h : Alive owner s) {suspends : Bool}
    (hpc : s.pcs owner = .comparing suspends) (hauto : s.auto = some i) :
    (s.handles i).clientFreed = false := by
  obtain ⟨-, halive | hrole | hrole⟩ := h.auto i hauto
  · exact halive
  · rw [hpc] at hrole
    cases hrole
  · rw [hpc] at hrole
    cases hrole

theorem alive_step (h : Alive owner s) (hkept : s.forgotten = []) (a : Action τ)
    (hcareful : Careful s a) : Alive owner (step owner s a) := by
  generalize hresult : step owner s a = s'
  have hrole : ∀ {t : τ}, (s.pcs t).role ≠ .none → t = owner := h.owner_of_role
  cases hresult ▸ @moves_step _ _ owner s a with
  | stay => exact h
  | faulted t ok i huses hdead =>
    have halive := h.uses huses
    obtain ⟨hlock, hfreed, -⟩ := h.order i halive
    rcases hdead with hclient | hlock' | hfreed'
    · cases halive.symm.trans hclient
    · cases hlock.symm.trans hlock'
    · cases hfreed.symm.trans hfreed'
  | null t ok q i huses hnull =>
    cases (h.order i (h.uses huses)).2.2.symm.trans hnull
  | resolved t subscribes i hidle hauto =>
    refine h.moved (by rw [hidle]; rfl) fun j hj => ?_
    cases hj
    exact ⟨hcareful i hauto, (h.auto i hauto).1⟩
  | dispatched t i connected hidle hrunning halive =>
    refine h.moved (by rw [hidle]; rfl) fun j hj => ?_
    cases hj
    exact ⟨halive, h.running i hrunning⟩
  | worked t ok q i hp hq =>
    have hheld := h.held_of_visits hp
    rcases hq with rfl | hq
    · exact h.moved (role_of_visits hp).symm nofun
    · refine h.moved ((role_of_visits hq).trans (role_of_visits hp).symm) fun j hj => ?_
      rw [Pc.holds, hq] at hj
      cases hj
      exact hheld
  | trackedNew t ok i n hpc =>
    have hheld := h.held_of_visits (i := i) (t := t) (by rw [hpc]; rfl)
    refine h.written (ne_unmade hheld.1) rfl rfl (fun _ => ⟨rfl, rfl, rfl⟩) (fun hr => .inl hr)
      (by rw [hpc]; rfl) fun j hj => ?_
    cases hj
    exact hheld
  | lostIp | notEnabled =>
    exact h.same ⟨rfl, rfl, rfl, .inl rfl, fun i => .refl _⟩ (Function.update_eq_self owner _).symm
      rfl (h.held owner)
  | gotIp t hattached =>
    exact h.same ⟨rfl, rfl, rfl, .inl rfl, (h.owes hkept).handles⟩
      (Function.update_eq_self owner _).symm rfl (h.held owner)
  | observed t hattached hidle =>
    exact h.same ⟨rfl, rfl, rfl, .inl rfl, (h.owes hkept).handles⟩ rfl (by rw [hidle]; rfl) nofun
  | loadedNone t ok k hpc hpending =>
    exact h.moved (by rw [hpc, role_back]) (by simp)
  | loaded t ok k i hpc hpending =>
    refine h.moved (by rw [hpc]; cases k <;> rfl) fun j hj => ?_
    cases hj
    exact h.pending i hpending
  | cleared t ok i k hpc =>
    have hheld := h.held_of_carries (i := i) (t := t) (by rw [hpc]; rfl)
    refine h.same ⟨rfl, rfl, rfl, .inr rfl, fun i => .refl _⟩ rfl (by rw [hpc]; cases k <;> rfl)
      fun j hj => ?_
    cases hj
    exact hheld
  | already t ok i k hpc hstarted =>
    exact h.moved (by rw [hpc, role_back]; cases k <;> rfl) (by simp)
  | marksStarted t ok i k hpc hnot =>
    have hheld := h.held_of_carries (i := i) (t := t) (by rw [hpc]; rfl)
    refine h.written (ne_unmade hheld.1) rfl rfl (fun _ => ⟨rfl, rfl, rfl⟩) (fun hr => .inl hr)
      (by rw [hpc]; cases k <;> rfl) fun j hj => ?_
    cases hj
    exact hheld
  | starts t ok i k hpc =>
    have hheld := h.held_of_carries (i := i) (t := t) (by rw [hpc]; rfl)
    exact h.written (ne_unmade hheld.1) rfl (by simp [Handle.start, hheld.2])
      (fun _ => ⟨rfl, rfl, rfl⟩) (fun _ => .inr hheld.2) (by rw [hpc, role_back]; cases k <;> rfl)
      (by simp)
  | created resumes hidle hsuspended => exact alive_created h hidle (hcareful rfl hsuspended)
  | sawIp t ok i resumes hpc | sawNoIp t ok i resumes hpc | sawIpAgain t ok i resumes hpc
  | sawNoIpAgain t ok i resumes hpc => exact h.moved (by rw [hpc]; rfl) nofun
  | startsNow t ok i resumes hpc =>
    obtain rfl := hrole (t := t) (by rw [hpc]; nofun)
    exact alive_shown h (by rw [hpc]; rfl) rfl rfl rfl ⟨rfl, rfl, rfl⟩ (by simp [Handle.start])
      (.inl rfl)
  | startFails t ok i resumes hpc =>
    obtain rfl := hrole (t := t) (by rw [hpc]; nofun)
    have hhidden := h.roleOk (show (s.pcs t).role = .hidden i by rw [hpc]; rfl)
    exact h.written (ne_unmade hhidden.1) rfl (by simp [Handle.start]) (fun _ => ⟨rfl, rfl, rfl⟩)
      (fun hr => .inl (by simpa [Handle.start] using hr)) (by rw [hpc]; rfl) nofun
  | markedStarted t ok i resumes hpc =>
    obtain rfl := hrole (t := t) (by rw [hpc]; nofun)
    have hmaking := h.roleOk (show (s.pcs t).role = .making i by rw [hpc]; rfl)
    exact h.written (ne_unmade hmaking.1) rfl rfl (fun _ => ⟨rfl, rfl, rfl⟩) (fun hr => .inl hr)
      (by rw [hpc]; rfl) nofun
  | undidClient t ok i hpc =>
    obtain rfl := hrole (t := t) (by rw [hpc]; nofun)
    exact alive_undidClient h hpc
  | undidLock t ok i hpc =>
    obtain rfl := hrole (t := t) (by rw [hpc]; nofun)
    obtain ⟨hfreed, -, -⟩ := h.roleOk (show (s.pcs t).role = .undone i by rw [hpc]; rfl)
    have hlives : LivesOn (s.handles i) { s.handles i with lockFreed := true } :=
      ⟨rfl, rfl, (fun halive => by cases hfreed.symm.trans halive), fun hr => .inl hr,
        (fun hunmade => by rw [hunmade]; rfl)⟩
    exact h.same (sameLife_write hlives).goto rfl (by rw [hpc]; rfl) nofun
  | undidHandle t ok i hpc =>
    obtain rfl := hrole (t := t) (by rw [hpc]; nofun)
    exact alive_undidHandle h hpc
  | offered t ok i resumes hpc =>
    obtain rfl := hrole (t := t) (by rw [hpc]; nofun)
    exact alive_shown h (by rw [hpc]; rfl) rfl rfl rfl ⟨rfl, rfl, rfl⟩ rfl (.inr rfl)
  | attaches t ok i resumes hpc =>
    exact h.same ⟨rfl, rfl, rfl, .inl rfl, fun i => .refl _⟩ rfl (by rw [hpc]; rfl) nofun
  | returned t ok i resumes hpc =>
    obtain rfl := hrole (t := t) (by rw [hpc]; nofun)
    exact alive_returned h hpc
  | stops suspends hidle =>
    exact h.turned (SameLife.refl s).goto rfl (by rw [hidle]; exact fun _ => ⟨nofun, nofun, nofun, nofun⟩) rfl
      trivial
  | comparedNone t ok suspends hpc hauto =>
    obtain rfl := hrole (t := t) (by rw [hpc]; nofun)
    exact h.turned ⟨rfl, hauto.symm, rfl, .inl rfl, fun i => .refl _⟩ rfl
      (by rw [hpc]; exact fun _ => ⟨nofun, nofun, nofun, nofun⟩) rfl trivial
  | comparedSame t ok suspends i hpc hauto =>
    obtain rfl := hrole (t := t) (by rw [hpc]; nofun)
    exact h.turned (SameLife.refl s).goto rfl
      (by rw [hpc]; exact fun _ => ⟨nofun, nofun, nofun, nofun⟩) rfl
      ⟨h.alive_of_comparing hpc hauto, hauto⟩
  | comparedOther t ok suspends i hpc hauto hother =>
    obtain rfl := hrole (t := t) (by rw [hpc]; nofun)
    exact h.turned (SameLife.refl s).goto rfl
      (by rw [hpc]; exact fun _ => ⟨nofun, nofun, nofun, nofun⟩) rfl
      ⟨h.alive_of_comparing hpc hauto, hauto, hother⟩
  | withdrew t ok i suspends hpc =>
    obtain rfl := hrole (t := t) (by rw [hpc]; nofun)
    obtain ⟨halive, hauto⟩ := h.roleOk (show (s.pcs t).role = .withdrawing i by rw [hpc]; rfl)
    exact h.turned ⟨rfl, rfl, rfl, .inr rfl, fun i => .refl _⟩ rfl
      (by rw [hpc]; exact fun _ => ⟨nofun, nofun, nofun, nofun⟩) rfl ⟨halive, hauto, nofun⟩
  | marked t ok i suspends hpc =>
    obtain rfl := hrole (t := t) (by rw [hpc]; nofun)
    have hleaving := h.roleOk (show (s.pcs t).role = .leaving i by rw [hpc]; rfl)
    exact h.written (ne_unmade hleaving.1) rfl rfl (fun _ => ⟨rfl, rfl, rfl⟩) (fun hr => .inl hr)
      (by rw [hpc]; rfl) nofun
  | stoppedClient t ok i suspends hpc hstarted =>
    obtain rfl := hrole (t := t) (by rw [hpc]; nofun)
    obtain ⟨-, hauto, hpending⟩ := h.roleOk (show (s.pcs t).role = .leaving i by rw [hpc]; rfl)
    have hfrees : i ∈ s.frees t := by simp [State.frees, hpc, hstarted]
    exact alive_freed h hauto hpending (hcareful i hfrees) rfl rfl (.inl rfl) rfl
  | notStarted t ok i suspends hpc =>
    obtain rfl := hrole (t := t) (by rw [hpc]; nofun)
    obtain ⟨-, hauto, hpending⟩ := h.roleOk (show (s.pcs t).role = .leaving i by rw [hpc]; rfl)
    exact h.turned (SameLife.refl s).goto rfl
      (by rw [hpc]; exact fun _ => ⟨nofun, nofun, nofun, nofun⟩) rfl ⟨hauto, hpending⟩
  | destroyed t ok i suspends hpc =>
    obtain rfl := hrole (t := t) (by rw [hpc]; nofun)
    obtain ⟨hauto, hpending⟩ := h.roleOk (show (s.pcs t).role = .releasing i by rw [hpc]; rfl)
    refine alive_freed h hauto hpending (fun u hu => ?_) rfl rfl (.inr rfl) rfl
    have hfrees : i ∈ s.frees t := by simp [State.frees, hpc, (h.held u i hu).1]
    exact hcareful i hfrees u hu
  | lockDeleted t ok i suspends hpc | handleFreed t ok i suspends hpc =>
    obtain rfl := hrole (t := t) (by rw [hpc]; nofun)
    obtain ⟨hfreed, hauto, hpending⟩ := h.roleOk (show (s.pcs t).role = .gone i by rw [hpc]; rfl)
    exact h.written (h.made_of_auto hauto) rfl rfl
      (fun halive => by cases hfreed.symm.trans halive) (fun hr => .inl hr) (by rw [hpc]; rfl) nofun
  | nulled t ok i suspends hpc =>
    obtain rfl := hrole (t := t) (by rw [hpc]; nofun)
    exact alive_nulled h hpc

end Steps

end MqttClient
end Breadboard
