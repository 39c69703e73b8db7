import Breadboard.MqttClient.StartOnce

/-!
# bb_mqtt_client - the client that waits for an IP address

A client that was offered to the observer and not yet started is pending, or a task has
loaded it.  So whoever loads the pending pointer after an IP address was acquired finds
the client, or another task is about to start it.

Main result:

- Theorem `lifetime_along`: every run in which the owner does not start to free a
  handle that is held, no task resolves a handle that is being freed, and no client is
  made while there is one.
-/

namespace Breadboard
namespace MqttClient

open Foundations

/-- It is offered to the observer, and has been neither started nor destroyed. -/
def Handle.waits (handle : Handle) : Prop :=
  handle.shared = true ∧ handle.starts = 0 ∧ handle.destroyed = false

/-- A task that is at the load of the pending handle, or has loaded this one. -/
def Pc.mayStart (pc : Pc) (h : Nat) : Prop :=
  pc.carries = some h ∨ ∃ k, pc = .fired k

theorem carries_of_not_observing {pc : Pc} (hobserving : pc.observing = false) :
    pc.carries = none := by
  cases pc <;> first | rfl | cases hobserving

theorem Pc.mayStart.observing {pc : Pc} {h : Nat} (hmay : pc.mayStart h) :
    pc.observing = true := by
  rcases hmay with hcarries | ⟨k, rfl⟩
  · by_contra hnot
    rw [carries_of_not_observing (Bool.eq_false_iff.mpr hnot)] at hcarries
    cases hcarries
  · rfl

section Invariants

variable {τ : Type} (owner : τ) (s : State τ)

/-- The client is to be started by the first IP address. -/
def Due (h : Nat) : Prop :=
  (s.handles h).waits ∧ (s.pcs owner).role ≠ .leaving h

structure Waits : Prop where
  due : ∀ h, Due owner s h → Awaited s h
  attached : ∀ h, Due owner s h → s.attached = true ∨ ∃ resumes, s.pcs owner = .attaching h resumes
  owed : ∀ h, (s.handles h).owed = true → Due owner s h → ∃ t, (s.pcs t).mayStart h
  shown : ∀ h, (s.handles h).owed = true → (s.handles h).shared = true
  stopping : ∀ h suspends, s.pcs owner = .stopping h suspends → (s.handles h).destroyed = true

end Invariants

variable {τ : Type} {owner : τ} {s s' : State τ}

theorem waits_init (owner : τ) : Waits owner (State.init τ) where
  due h hdue := by cases hdue.1.1
  attached h hdue := by cases hdue.1.1
  owed h howed := by cases howed
  shown h howed := by cases howed
  stopping h suspends hpc := by cases hpc

/-- A handle that waits no more than before, and is not made anew. -/
structure NoMore (a b : Handle) : Prop where
  waits : b.waits → a.waits
  destroyed : a.destroyed = true → b.destroyed = true

theorem NoMore.refl (a : Handle) : NoMore a a :=
  ⟨id, id⟩

section Steps

variable [DecidableEq τ] {t : τ} {q : Pc} {i : Nat}

/-- The steps that offer no client. -/
theorem Waits.update (h : Waits owner s) (hpcs : s'.pcs = Function.update s.pcs t q)
    (hless : ∀ j, NoMore (s.handles j) (s'.handles j))
    (hleaving : ∀ j, (s.pcs t).role = .leaving j →
      q.role = .leaving j ∨ (s'.handles j).destroyed = true)
    (hstopping : ∀ j suspends, q = .stopping j suspends →
      s.pcs t = q ∨ (s'.handles j).destroyed = true)
    (hdue : ∀ j, Due owner s j → Due owner s' j → Awaited s' j)
    (hattached : ∀ j, Due owner s j →
      s'.attached = true ∨ ∃ resumes, s'.pcs owner = .attaching j resumes)
    (howed : ∀ j, (s'.handles j).owed = true → Due owner s j → Due owner s' j →
      ∃ u, (s'.pcs u).mayStart j)
    (hshown : ∀ j, (s'.handles j).owed = true → (s'.handles j).shared = true) :
    Waits owner s' := by
  have hbefore : ∀ j, Due owner s' j → Due owner s j := by
    intro j hj
    refine ⟨(hless j).waits hj.1, fun hrole => ?_⟩
    by_cases ht : owner = t
    · have hself : s'.pcs owner = q := by rw [hpcs, ht, Function.update_self]
      rcases hleaving j (ht ▸ hrole) with hq | hdestroyed
      · exact hj.2 (hself ▸ hq)
      · cases hj.1.2.2.symm.trans hdestroyed
    · refine hj.2 ?_
      rw [hpcs, Function.update_of_ne ht]
      exact hrole
  refine ⟨fun j hj => hdue j (hbefore j hj) hj, fun j hj => hattached j (hbefore j hj),
    fun j ho hj => howed j ho (hbefore j hj) hj, hshown, fun j suspends hj => ?_⟩
  by_cases ht : owner = t
  · rw [hpcs, ht, Function.update_self] at hj
    rcases hstopping j suspends hj with heq | hdestroyed
    · refine (hless j).destroyed (h.stopping j suspends ?_)
      rw [ht, heq]
      exact hj
    · exact hdestroyed
  · rw [hpcs, Function.update_of_ne ht] at hj
    exact (hless j).destroyed (h.stopping j suspends hj)

theorem Waits.attached_update (h : Waits owner s) (hpcs : s'.pcs = Function.update s.pcs t q)
    (hattached : s'.attached = s.attached)
    (hq : ∀ j resumes, s.pcs t = .attaching j resumes → q = .attaching j resumes) {j : Nat}
    (hj : Due owner s j) : s'.attached = true ∨ ∃ resumes, s'.pcs owner = .attaching j resumes := by
  rcases h.attached j hj with hyes | ⟨resumes, hpc⟩
  · exact .inl (hattached.trans hyes)
  · refine .inr ⟨resumes, ?_⟩
    by_cases ht : owner = t
    · rw [hpcs, ht, Function.update_self]
      exact hq j resumes (ht ▸ hpc)
    · rw [hpcs, Function.update_of_ne ht]
      exact hpc

/-- The steps of a task that is not in `on_got_ip_cb`. -/
theorem Waits.same (h : Waits owner s) (hpcs : s'.pcs = Function.update s.pcs t q)
    (hless : ∀ j, NoMore (s.handles j) (s'.handles j))
    (howed : ∀ j, (s'.handles j).owed = true →
      (s.handles j).owed = true ∧ ((s.handles j).shared = true → (s'.handles j).shared = true))
    (hpending : s'.pending = s.pending) (hattached : s'.attached = s.attached)
    (hobserving : (s.pcs t).observing = false)
    (hp : ∀ j resumes, s.pcs t ≠ .attaching j resumes)
    (hleaving : ∀ j, (s.pcs t).role = .leaving j →
      q.role = .leaving j ∨ (s'.handles j).destroyed = true)
    (hstopping : ∀ j suspends, q = .stopping j suspends → (s'.handles j).destroyed = true) :
    Waits owner s' := by
  have hother : ∀ {u}, (s.pcs u).observing = true → s'.pcs u = s.pcs u := by
    intro u hu
    have hut : u ≠ t := by
      rintro rfl
      cases hobserving.symm.trans hu
    rw [hpcs, Function.update_of_ne hut]
  refine h.update hpcs hless hleaving (fun j r hj => .inr (hstopping j r hj)) (fun j hj _ => ?_)
    (fun j hj => h.attached_update hpcs hattached (fun l r hl => absurd hl (hp l r)) hj)
    (fun j ho hj _ => ?_) fun j ho => (howed j ho).2 (h.shown j (howed j ho).1)
  · rcases h.due j hj with heq | ⟨u, hu⟩
    · exact .inl (hpending.trans heq)
    · refine .inr ⟨u, ?_⟩
      rw [hother (Pc.mayStart.observing (.inl hu))]
      exact hu
  · obtain ⟨u, hu⟩ := h.owed j (howed j ho).1 hj
    refine ⟨u, ?_⟩
    rw [hother hu.observing]
    exact hu

omit [DecidableEq τ] in
theorem noMore_write {handle : Handle} (hless : NoMore (s.handles i) handle) (j : Nat) :
    NoMore (s.handles j) ((s.write i handle).handles j) := by
  by_cases hj : j = i
  · rw [hj, State.write_self]
    exact hless
  · rw [s.write_of_ne hj]
    exact .refl _

omit [DecidableEq τ] in
theorem owed_write {handle : Handle} (howed : handle.owed = true → (s.handles i).owed = true)
    (hshared : (s.handles i).shared = true → handle.shared = true) (j : Nat)
    (hj : ((s.write i handle).handles j).owed = true) : (s.handles j).owed = true ∧
      ((s.handles j).shared = true → ((s.write i handle).handles j).shared = true) := by
  by_cases hji : j = i
  · rw [hji, State.write_self] at hj ⊢
    exact ⟨howed hj, hshared⟩
  · rw [s.write_of_ne hji] at hj ⊢
    exact ⟨hj, id⟩

/-- Such a step of a task that makes or uses a handle, and does not start to leave it. -/
theorem Waits.moved (h : Waits owner s) (hobserving : (s.pcs t).observing = false)
    (hp : ∀ j resumes, s.pcs t ≠ .attaching j resumes)
    (hleaving : ∀ j, (s.pcs t).role ≠ .leaving j) (hq : ∀ j suspends, q ≠ .stopping j suspends) :
    Waits owner (s.goto t q) :=
  h.same rfl (fun _ => .refl _) (fun _ ho => ⟨ho, id⟩) rfl rfl hobserving hp
    (fun j hj => absurd hj (hleaving j)) fun j r hj => absurd hj (hq j r)

theorem Waits.written (h : Waits owner s) {handle : Handle} (hless : NoMore (s.handles i) handle)
    (howed : handle.owed = true → (s.handles i).owed = true)
    (hshared : (s.handles i).shared = true → handle.shared = true)
    (hobserving : (s.pcs t).observing = false) (hp : ∀ j resumes, s.pcs t ≠ .attaching j resumes)
    (hleaving : ∀ j, (s.pcs t).role = .leaving j → i = j ∧ handle.destroyed = true)
    (hq : ∀ j suspends, q = .stopping j suspends → i = j ∧ handle.destroyed = true) :
    Waits owner ((s.write i handle).goto t q) := by
  have hdestroyed : ∀ j, i = j ∧ handle.destroyed = true →
      (((s.write i handle).goto t q).handles j).destroyed = true := by
    rintro _ ⟨rfl, hyes⟩
    rw [State.goto_handles, State.write_self]
    exact hyes
  exact h.same rfl (noMore_write hless) (owed_write howed hshared) rfl rfl hobserving hp
    (fun j hj => .inr (hdestroyed j (hleaving j hj))) fun j r hj => hdestroyed j (hq j r hj)

theorem apart_of_visits {pc : Pc} (hvisits : pc.visits = some i) :
    pc.observing = false ∧ (∀ j resumes, pc ≠ .attaching j resumes) ∧
      (∀ j, pc.role ≠ .leaving j) ∧ ∀ j suspends, pc ≠ .stopping j suspends := by
  refine ⟨?_, fun j resumes heq => ?_, fun j heq => ?_, fun j suspends heq => ?_⟩
  · cases pc <;> first | rfl | cases hvisits
  · rw [heq] at hvisits
    cases hvisits
  · cases (role_of_visits hvisits).symm.trans heq
  · rw [heq] at hvisits
    cases hvisits

omit [DecidableEq τ] in
theorem Waits.alive (h : Waits owner s) (halive : Alive owner s) (hdue : Due owner s i) :
    (s.handles i).clientFreed = false :=
  (halive.awaited (h.due i hdue)).1

/-! ## The steps of the observer -/

theorem role_of_observing {pc : Pc} (hobserving : pc.observing = true) (j : Nat) :
    pc.role ≠ .leaving j := by
  cases pc with
  | fired k | clearing h k | locking h k | starting h k => cases k <;> exact nofun
  | _ => cases hobserving

/-- Afterwards a handle that is still due has been loaded. -/
theorem Waits.observe (h : Waits owner s) (hpcs : s'.pcs = Function.update s.pcs t q)
    (hless : ∀ j, NoMore (s.handles j) (s'.handles j))
    (howed : ∀ j, (s'.handles j).owed = true →
      (s.handles j).owed = true ∧ ((s.handles j).shared = true → (s'.handles j).shared = true))
    (hattached : s'.attached = s.attached) (hobserving : (s.pcs t).observing = true)
    (hrole : q.role = (s.pcs t).role)
    (hcarried : ∀ j, Due owner s j → Due owner s' j → ∃ u, (s'.pcs u).carries = some j) :
    Waits owner s' := by
  have hnot : ∀ j, q.role ≠ .leaving j := by
    rw [hrole]
    exact role_of_observing hobserving
  refine h.update hpcs hless (fun j hj => absurd hj (role_of_observing hobserving j))
    (fun j r hj => ?_) (fun j hj hj' => .inr (hcarried j hj hj'))
    (fun j hj => h.attached_update hpcs hattached (fun l r hl => ?_) hj)
    (fun j _ hj hj' => ?_) fun j ho => (howed j ho).2 (h.shown j (howed j ho).1)
  · exact absurd (by rw [hj]; rfl) (hnot j)
  · rw [hl] at hobserving
    cases hobserving
  · obtain ⟨u, hu⟩ := hcarried j hj hj'
    exact ⟨u, .inl hu⟩

theorem waits_loadedNone (h : Waits owner s) {k : Caller} (hpc : s.pcs t = .fired k)
    (hpending : s.pending = none) : Waits owner (s.goto t k.back) := by
  refine h.observe rfl (fun j => .refl _) (fun j ho => ⟨ho, id⟩) rfl (by rw [hpc]; rfl)
    (by rw [hpc, role_back]) fun j hj _ => ?_
  rcases h.due j hj with heq | ⟨u, hu⟩
  · cases hpending.symm.trans heq
  · have hut : u ≠ t := by
      rintro rfl
      rw [hpc] at hu
      cases hu
    refine ⟨u, ?_⟩
    rw [s.goto_of_ne hut]
    exact hu

theorem waits_loaded (halive : Alive owner s) (h : Waits owner s) {k : Caller}
    (hpc : s.pcs t = .fired k) (hpending : s.pending = some i) :
    Waits owner (s.goto t (.clearing i k)) := by
  refine h.observe rfl (fun j => .refl _) (fun j ho => ⟨ho, id⟩) rfl (by rw [hpc]; rfl)
    (by rw [hpc]; cases k <;> rfl) fun j hj _ => ⟨t, ?_⟩
  rw [State.goto_self, halive.unique (halive.pending i hpending).1 (h.alive halive hj)]
  rfl

theorem waits_cleared (halive : Alive owner s) (h : Waits owner s) {k : Caller}
    (hpc : s.pcs t = .clearing i k) :
    Waits owner ({ s with pending := none }.goto t (.locking i k)) := by
  have hi := (halive.held_of_carries (show (s.pcs t).carries = some i by rw [hpc]; rfl)).1
  refine h.observe rfl (fun j => .refl _) (fun j ho => ⟨ho, id⟩) rfl (by rw [hpc]; rfl)
    (by rw [hpc]; cases k <;> rfl) fun j hj _ => ⟨t, ?_⟩
  rw [State.goto_self, halive.unique hi (h.alive halive hj)]
  rfl

/-- Whoever has marked the client as started is at its start. -/
theorem waits_already (halive : Alive owner s) (honce : Once owner s) (h : Waits owner s)
    {k : Caller} (hpc : s.pcs t = .locking i k) (hstarted : (s.handles i).started = true) :
    Waits owner (s.goto t k.back) := by
  have hi := (halive.held_of_carries (show (s.pcs t).carries = some i by rw [hpc]; rfl)).1
  refine h.observe rfl (fun j => .refl _) (fun j ho => ⟨ho, id⟩) rfl (by rw [hpc]; rfl)
    (by rw [hpc, role_back]; cases k <;> rfl) fun j hj _ => ?_
  obtain rfl := halive.unique hi (h.alive halive hj)
  obtain ⟨u, hu⟩ := (honce.sole j).taken_iff.mp ⟨hstarted, hj.1.2.1⟩
  have hut : u ≠ t := by
    rintro rfl
    rw [hpc] at hu
    cases hu
  refine ⟨u, ?_⟩
  rw [s.goto_of_ne hut]
  cases hpcu : s.pcs u <;> rw [hpcu] at hu <;> first | exact hu | cases hu

theorem waits_marksStarted (halive : Alive owner s) (h : Waits owner s) {k : Caller}
    (hpc : s.pcs t = .locking i k) :
    Waits owner ((s.write i { s.handles i with started := true }).goto t (.starting i k)) := by
  have hi := (halive.held_of_carries (show (s.pcs t).carries = some i by rw [hpc]; rfl)).1
  refine h.observe rfl (noMore_write ⟨id, id⟩) (owed_write id id) rfl (by rw [hpc]; rfl)
    (by rw [hpc]; cases k <;> rfl) fun j hj _ => ⟨t, ?_⟩
  rw [State.goto_self, halive.unique hi (h.alive halive hj)]
  rfl

theorem waits_starts (halive : Alive owner s) (h : Waits owner s) {k : Caller} {ok : Bool}
    (hpc : s.pcs t = .starting i k) :
    Waits owner ((s.write i ((s.handles i).start ok)).goto t k.back) := by
  have hi := (halive.held_of_carries (show (s.pcs t).carries = some i by rw [hpc]; rfl)).1
  have hless : NoMore (s.handles i) ((s.handles i).start ok) :=
    ⟨fun hwaits => absurd hwaits.2.1 (Nat.succ_ne_zero _), id⟩
  refine h.observe rfl (noMore_write hless) (owed_write id (by simp +contextual [Handle.start])) rfl
    (by rw [hpc]; rfl) (by rw [hpc, role_back]; cases k <;> rfl) fun j hj hj' => ?_
  -- It has been started, and no other handle is there.
  obtain rfl := halive.unique hi (h.alive halive hj)
  have hstarts := hj'.1.2.1
  rw [State.goto_handles, State.write_self] at hstarts
  exact absurd hstarts (Nat.succ_ne_zero _)

/-! ## The IP address, and the steps of the owner -/

omit [DecidableEq τ] in
theorem noMore_owes (hkept : s.forgotten = []) (j : Nat) :
    NoMore (s.handles j) (s.owes.handles j) := by
  rcases owes_handle hkept j with heq | ⟨-, heq⟩
  · rw [heq]
    exact .refl _
  · rw [heq]
    exact ⟨id, id⟩

omit [DecidableEq τ] in
theorem owed_owes (hkept : s.forgotten = []) (hj : (s.owes.handles i).owed = true) :
    (s.handles i).owed = true ∨ s.auto = some i := by
  rcases owes_handle hkept i with heq | ⟨hauto, -⟩
  · exact .inl (heq ▸ hj)
  · exact .inr hauto

omit [DecidableEq τ] in
theorem shown_owes (halive : Alive owner s) (h : Waits owner s) (hkept : s.forgotten = []) (j : Nat)
    (hj : (s.owes.handles j).owed = true) : (s.owes.handles j).shared = true := by
  rw [(halive.owes hkept).shared]
  rcases owed_owes hkept hj with howed | hauto
  · exact h.shown j howed
  · exact (halive.auto j hauto).1

/-- As long as the observer is not attached no automatic client waits. -/
theorem waits_gotIp (halive : Alive owner s) (h : Waits owner s) (hkept : s.forgotten = [])
    (hattached : s.attached = false) : Waits owner { s.owes with hasIp := true } := by
  refine h.update (Function.update_eq_self owner _).symm (noMore_owes hkept) (fun j hj => .inl hj)
    (fun j r _ => .inl rfl) (fun j hj _ => h.due j hj) h.attached (fun j howed hj _ => ?_)
    (shown_owes halive h hkept)
  rcases owed_owes hkept howed with howed | hauto
  · exact h.owed j howed hj
  · rcases h.attached j hj with hyes | ⟨resumes, hpc⟩
    · cases hattached.symm.trans hyes
    · have hmaking := halive.roleOk (show (s.pcs owner).role = .making j by rw [hpc]; rfl)
      cases hmaking.2.2.symm.trans hauto

theorem waits_observed (halive : Alive owner s) (h : Waits owner s) (hkept : s.forgotten = [])
    (hidle : s.pcs t = .idle) :
    Waits owner ({ s.owes with hasIp := true }.goto t (.fired none)) := by
  have hpcs : ({ s.owes with hasIp := true }.goto t (.fired none)).pcs =
      Function.update s.pcs t (.fired none) := rfl
  refine h.update hpcs (noMore_owes hkept) (fun j hj => ?_) nofun (fun j hj _ => ?_)
    (fun j hj => ?_) (fun j howed hj _ => ⟨t, .inr ⟨none, State.goto_self ..⟩⟩)
    (shown_owes halive h hkept)
  · rw [hidle] at hj
    cases hj
  · rcases h.due j hj with hpending | ⟨u, hu⟩
    · exact .inl hpending
    · have hut : u ≠ t := by
        rintro rfl
        rw [hidle] at hu
        cases hu
      refine .inr ⟨u, ?_⟩
      rw [hpcs, Function.update_of_ne hut]
      exact hu
  · refine h.attached_update hpcs rfl (fun l r hl => ?_) hj
    rw [hidle] at hl
    cases hl

theorem waits_offered (halive : Alive owner s) (h : Waits owner s) {resumes : Bool}
    (hpc : s.pcs owner = .offering i resumes) :
    Waits owner (({ s with pending := some i }.write i { s.handles i with shared := true }).goto
      owner (.attaching i resumes)) := by
  have hrole : (s.pcs owner).role = .hidden i := by rw [hpc]; rfl
  obtain ⟨-, hshared, -⟩ := halive.roleOk hrole
  have honly : ∀ j, Due owner (({ s with pending := some i }.write i
      { s.handles i with shared := true }).goto owner (.attaching i resumes)) j → j = i := by
    intro j hj
    by_contra hji
    have hwaits := hj.1
    rw [State.goto_handles, State.write_of_ne _ hji] at hwaits
    refine hji (halive.only_made (.inl hrole) (h.alive halive ⟨hwaits, ?_⟩))
    rw [hrole]
    exact nofun
  refine ⟨fun j hj => .inl ?_, fun j hj => .inr ⟨resumes, ?_⟩, fun j howed hj => ?_,
    fun j howed => ?_, fun j r hj => ?_⟩
  · rw [honly j hj]
    rfl
  · rw [State.goto_self, honly j hj]
  · rw [honly j hj, State.goto_handles, State.write_self] at howed
    cases hshared.symm.trans (h.shown i howed)
  · by_cases hji : j = i
    · rw [hji, State.goto_handles, State.write_self]
    · rw [State.goto_handles, State.write_of_ne _ hji] at howed ⊢
      exact h.shown j howed
  · rw [State.goto_self] at hj
    cases hj

theorem waits_attaches (h : Waits owner s) {resumes : Bool} (hpc : s.pcs t = .attaching i resumes) :
    Waits owner ({ s with attached := true }.goto t (.rechecking i resumes)) := by
  have hother : ∀ {u}, (s.pcs u).observing = true →
      ({ s with attached := true }.goto t (.rechecking i resumes)).pcs u = s.pcs u := by
    intro u hu
    have hut : u ≠ t := by
      rintro rfl
      rw [hpc] at hu
      cases hu
    exact State.goto_of_ne _ hut _
  refine h.update rfl (fun _ => .refl _) (fun j hj => ?_) nofun (fun j hj _ => ?_)
    (fun _ _ => .inl rfl) (fun j howed hj _ => ?_) h.shown
  · rw [hpc] at hj
    cases hj
  · rcases h.due j hj with hpending | ⟨u, hu⟩
    · exact .inl hpending
    · refine .inr ⟨u, ?_⟩
      rw [hother (Pc.mayStart.observing (.inl hu))]
      exact hu
  · obtain ⟨u, hu⟩ := h.owed j howed hj
    refine ⟨u, ?_⟩
    rw [hother hu.observing]
    exact hu

theorem waits_withdrew (halive : Alive owner s) (h : Waits owner s) {suspends : Bool}
    (hpc : s.pcs owner = .withdrawing i suspends) :
    Waits owner ({ s with pending := none }.goto owner (.marking i suspends)) := by
  have hrole : (s.pcs owner).role = .withdrawing i := by rw [hpc]; rfl
  obtain ⟨-, hauto⟩ := halive.roleOk hrole
  have hnone : ∀ j, Due owner s j →
      ¬ Due owner ({ s with pending := none }.goto owner (.marking i suspends)) j := by
    intro j hj hj'
    refine hj'.2 ?_
    rw [State.goto_self, halive.only_auto hauto (h.alive halive hj)]
    rfl
  refine h.update rfl (fun _ => .refl _) (fun j hj => ?_) nofun
    (fun j hj hj' => absurd hj' (hnone j hj)) (fun j hj => ?_)
    (fun j _ hj hj' => absurd hj' (hnone j hj)) h.shown
  · cases hrole.symm.trans hj
  · rcases h.attached j hj with hyes | ⟨r, hattaching⟩
    · exact .inl hyes
    · cases hpc.symm.trans hattaching

theorem waits_step (halive : Alive owner s) (honce : Once owner s) (h : Waits owner s)
    (hkept : s.forgotten = []) (a : Action τ) : Waits owner (step owner s a) := by
  generalize hresult : step owner s a = s'
  have hrole : ∀ {t : τ}, (s.pcs t).role ≠ .none → t = owner := halive.owner_of_role
  cases hresult ▸ @moves_step _ _ owner s a with
  | stay => exact h
  | faulted t ok i huses hdead =>
    exact absurd hdead (halive.not_dead (halive.uses huses))
  | null t ok q i huses hnull =>
    cases (halive.order i (halive.uses huses)).2.2.symm.trans hnull
  | resolved t subscribes i hidle hauto =>
    exact h.moved (by rw [hidle]; rfl) (by rw [hidle]; simp) (by rw [hidle]; simp [Pc.role]) (by simp)
  | dispatched t i connected hidle hrunning hclient =>
    exact h.moved (by rw [hidle]; rfl) (by rw [hidle]; simp) (by rw [hidle]; simp [Pc.role]) (by simp)
  | worked t ok q i hp hq =>
    obtain ⟨hobserving, hattaching, hleaving, -⟩ := apart_of_visits hp
    refine h.moved hobserving hattaching hleaving ?_
    rcases hq with rfl | hq
    · simp
    · exact (apart_of_visits hq).2.2.2
  | trackedNew t ok i n hpc =>
    exact h.written ⟨id, id⟩ id id (by rw [hpc]; rfl) (by rw [hpc]; simp) (by rw [hpc]; simp [Pc.role]) (by simp)
  | gotIp t hattached => exact waits_gotIp halive h hkept hattached
  | observed t hattached hidle => exact waits_observed halive h hkept hidle
  | lostIp | notEnabled => exact ⟨h.due, h.attached, h.owed, h.shown, h.stopping⟩
  | loadedNone t ok k hpc hpending => exact waits_loadedNone h hpc hpending
  | loaded t ok k i hpc hpending => exact waits_loaded halive h hpc hpending
  | cleared t ok i k hpc => exact waits_cleared halive h hpc
  | already t ok i k hpc hstarted => exact waits_already halive honce h hpc hstarted
  | marksStarted t ok i k hpc hnot => exact waits_marksStarted halive h hpc
  | starts t ok i k hpc => exact waits_starts halive h hpc
  | created resumes hidle hsuspended =>
    have hunmade := halive.fresh s.count (Nat.le_refl _)
    have hless : NoMore (s.handles s.count) .made :=
      ⟨by rintro ⟨⟨⟩, -⟩, fun hdestroyed => by rw [hunmade] at hdestroyed; cases hdestroyed⟩
    refine h.same rfl (noMore_write hless) (owed_write (by simp [Handle.made, Handle.unmade]) fun hshared => ?_) rfl rfl
      (by rw [hidle]; rfl) (by rw [hidle]; simp) (by rw [hidle]; simp [Pc.role]) (by simp)
    rw [hunmade] at hshared
    cases hshared
  | sawIp t ok i resumes hpc | sawNoIp t ok i resumes hpc | sawIpAgain t ok i resumes hpc
  | sawNoIpAgain t ok i resumes hpc | comparedSame t ok suspends i hpc
  | comparedOther t ok suspends i hpc =>
    exact h.moved (by rw [hpc]; rfl) (by rw [hpc]; simp) (by rw [hpc]; simp [Pc.role]) (by simp)
  | startsNow t ok i resumes hpc | startFails t ok i resumes hpc =>
    exact h.written ⟨fun hwaits => absurd hwaits.2.1 (Nat.succ_ne_zero _), id⟩ id
      (by simp +contextual [Handle.start]) (by rw [hpc]; rfl) (by rw [hpc]; simp)
      (by rw [hpc]; simp [Pc.role]) (by simp)
  | markedStarted t ok i resumes hpc | undidClient t ok i hpc | undidLock t ok i hpc
  | destroyed t ok i suspends hpc | lockDeleted t ok i suspends hpc
  | handleFreed t ok i suspends hpc =>
    exact h.written ⟨id, id⟩ id id (by rw [hpc]; rfl) (by rw [hpc]; simp) (by rw [hpc]; simp [Pc.role]) (by simp)
  | undidHandle t ok i hpc =>
    exact h.same rfl (noMore_write ⟨id, id⟩) (owed_write id id) rfl rfl (by rw [hpc]; rfl)
      (by rw [hpc]; simp) (by rw [hpc]; simp [Pc.role]) (by simp)
  | offered t ok i resumes hpc =>
    obtain rfl := @hrole t (by rw [hpc]; simp [Pc.role])
    exact waits_offered halive h hpc
  | attaches t ok i resumes hpc => exact waits_attaches h hpc
  | returned t ok i resumes hpc | comparedNone t ok suspends hpc | nulled t ok i suspends hpc =>
    exact h.same rfl (fun _ => .refl _) (fun _ ho => ⟨ho, id⟩) rfl rfl (by rw [hpc]; rfl)
      (by rw [hpc]; simp) (by rw [hpc]; simp [Pc.role]) (by simp)
  | stops suspends hidle =>
    exact h.moved (by rw [hidle]; rfl) (by rw [hidle]; simp) (by rw [hidle]; simp [Pc.role]) (by simp)
  | withdrew t ok i suspends hpc =>
    obtain rfl := @hrole t (by rw [hpc]; simp [Pc.role])
    exact waits_withdrew halive h hpc
  | marked t ok i suspends hpc =>
    refine h.written ⟨(fun hwaits => by cases hwaits.2.2), fun _ => rfl⟩ id id (by rw [hpc]; rfl)
      (by rw [hpc]; simp) (fun j hj => ?_) fun j r hj => ?_
    · rw [hpc] at hj
      exact ⟨Role.leaving.inj hj, rfl⟩
    · cases hj
      exact ⟨rfl, rfl⟩
  | stoppedClient t ok i suspends hpc hstarted =>
    obtain rfl := @hrole t (by rw [hpc]; simp [Pc.role])
    refine h.written ⟨id, id⟩ id id (by rw [hpc]; rfl) (by rw [hpc]; simp) (fun j hj => ?_) (by simp)
    rw [hpc] at hj
    exact ⟨Role.leaving.inj hj, h.stopping i suspends hpc⟩
  | notStarted t ok i suspends hpc =>
    obtain rfl := @hrole t (by rw [hpc]; simp [Pc.role])
    refine h.same rfl (fun _ => .refl _) (fun _ ho => ⟨ho, id⟩) rfl rfl (by rw [hpc]; rfl)
      (by rw [hpc]; simp) (fun j hj => .inr ?_) (by simp)
    rw [hpc] at hj
    cases Role.leaving.inj hj
    exact h.stopping i suspends hpc

/-- The pointer to the automatic client is NULL when the next one is stored. -/
theorem kept_step (halive : Alive owner s) (hkept : s.forgotten = []) (a : Action τ) :
    (step owner s a).forgotten = [] := by
  generalize hresult : step owner s a = s'
  cases hresult ▸ @moves_step _ _ owner s a with
  | returned t ok i resumes hpc =>
    obtain rfl := @Alive.owner_of_role _ _ _ halive t (by rw [hpc]; nofun)
    have hmaking := halive.roleOk (show (s.pcs t).role = .making i by rw [hpc]; rfl)
    change s.auto.toList ++ s.forgotten = []
    rw [hmaking.2.2, hkept]
    rfl
  | _ => exact hkept

omit [DecidableEq τ] in
/-- Once no task is in `on_got_ip_cb`, no client is due that has waited for its call. -/
theorem Waits.served (h : Waits owner s) (honce : Once owner s)
    (hquiet : ∀ t, (s.pcs t).observing = false) (j : Nat) (howed : (s.handles j).owed = true) :
    (s.handles j).starts = 1 ∨ (s.handles j).destroyed = true ∨
      (s.pcs owner).role = .leaving j := by
  by_contra hnot
  rw [not_or, not_or] at hnot
  obtain ⟨hstarts, hdestroyed, hleaving⟩ := hnot
  have hzero : (s.handles j).starts = 0 := by
    have hmost := honce.most j
    omega
  have hdue : Due owner s j :=
    ⟨⟨h.shown j howed, hzero, Bool.eq_false_iff.mpr hdestroyed⟩, hleaving⟩
  obtain ⟨t, ht⟩ := h.owed j howed hdue
  cases (hquiet t).symm.trans ht.observing

end Steps

section Runs

variable [DecidableEq τ]

structure Inv (owner : τ) (s : State τ) : Prop where
  alive : Alive owner s
  once : Once owner s
  waits : Waits owner s
  kept : s.forgotten = []

theorem inv_step {owner : τ} {s : State τ} (h : Inv owner s) (a : Action τ)
    (hcareful : Careful s a) : Inv owner (step owner s a) where
  alive := alive_step h.alive h.kept a hcareful
  once := once_step h.alive h.once a
  waits := waits_step h.alive h.once h.waits h.kept a
  kept := kept_step h.alive h.kept a

/--
Nothing that was freed is used, no client is started twice, and the first IP address
starts the client that waits for one, as long as no client is made while there is one, no
task resolves a handle whose client has been freed, and no task holds the handle whose
client the owner is about to free.
-/
theorem lifetime_along (owner : τ) {as : List (Action τ)}
    (hrun : Along (step owner) Careful (State.init τ) as) :
    ∀ pre, pre <+: as → Sound owner (run (step owner) (State.init τ) pre) := by
  rintro pre ⟨post, rfl⟩
  have hpre := ((along_append (step owner) Careful (State.init τ) pre post).mp hrun).1
  have hinv := @run_invariant_along _ _ (step owner) (Inv owner) Careful
    (fun _ a h hc => inv_step h a hc) _ ⟨alive_init owner, once_init owner, waits_init owner, rfl⟩ _ hpre
  exact ⟨hinv.alive.safe, hinv.once.most, hinv.waits.served hinv.once⟩

/-! ## Runs of an owner, a publisher and the observer -/

def owned : List Bool → List (Action (Fin 3)) :=
  List.map (.advance 0)

/-- The client waits for an IP address, is started by it, used, suspended and made again. -/
def orderly : List (Action (Fin 3)) :=
  .create true false :: owned [true, true, true, true, true] ++
    [.gotIp 2, .advance 2 true, .advance 2 true, .advance 2 true, .advance 2 true,
      .dispatch 2 0 true, .advance 2 true, .advance 2 true, .advance 2 true,
      .resolve 1 false, .advance 1 true, .advance 1 true, .stop true] ++
    owned [true, true, true, true, true, true, true] ++
    .create true true :: owned [true, true, true, true] ++
    [.resolve 1 true, .advance 1 true, .advance 1 true, .advance 1 true]

example : (run (step (0 : Fin 3)) (State.init (Fin 3)) orderly).fault = false := by decide +kernel

theorem lifetime_along_orderly :
    Sound 0 (run (step (0 : Fin 3)) (State.init (Fin 3)) orderly) :=
  lifetime_along (0 : Fin 3) (show Along (step (0 : Fin 3)) Careful (State.init (Fin 3)) orderly by
    decide +kernel) orderly (List.prefix_refl orderly)

/-- The client is stopped while a publisher has captured it. -/
def publishing : List (Action (Fin 3)) :=
  [.gotIp 2, .create true false] ++ owned [true, true, true, true] ++
    [.resolve 1 false, .advance 1 true, .stop false] ++ owned [true, true, true] ++
    [.advance 1 true]

/-- The client is suspended while the observer has loaded it. -/
def starting : List (Action (Fin 3)) :=
  .create true false :: owned [true, true, true, true, true] ++
    [.gotIp 2, .advance 2 true, .stop true] ++ owned [true, true, true, true, true, true, true] ++
    [.advance 2 true, .advance 2 true]

/-- The client is stopped while an event is dispatched. -/
def dispatching : List (Action (Fin 3)) :=
  [.gotIp 2, .create true false] ++ owned [true, true, true, true] ++
    [.dispatch 2 0 true, .stop false] ++ owned [true, true, true, true, true] ++ [.advance 2 true]

/-- A publisher resolves the client after its lock was deleted. -/
def resolving : List (Action (Fin 3)) :=
  [.gotIp 2, .create true false] ++ owned [true, true, true, true] ++ [.stop false] ++
    owned [true, true, true, true, true] ++ [.resolve 1 false, .advance 1 true]

/-- A second client is made before there is an IP address. -/
def twice : List (Action (Fin 3)) :=
  .create true false :: owned [true, true, true, true, true] ++
    .create true false :: owned [true, true, true, true, true] ++
    [.gotIp 2, .advance 2 true, .advance 2 true, .advance 2 true, .advance 2 true]

theorem used_after_free :
    (∀ as ∈ [publishing, starting, dispatching, resolving],
      ¬ Sound 0 (run (step (0 : Fin 3)) (State.init (Fin 3)) as)) ∧
    ¬ Sound 0 (run (step (0 : Fin 3)) (State.init (Fin 3)) twice) := by
  have hfaults : ∀ as ∈ [publishing, starting, dispatching, resolving],
      (run (step (0 : Fin 3)) (State.init (Fin 3)) as).fault = true := by
    decide +kernel
  refine ⟨fun as has hsound => ?_, fun hsound => ?_⟩
  · cases hsound.safe.symm.trans (hfaults as has)
  · have hserved := hsound.served (by decide +kernel) 0 (by decide +kernel)
    revert hserved
    decide +kernel

end Runs

end MqttClient
end Breadboard
