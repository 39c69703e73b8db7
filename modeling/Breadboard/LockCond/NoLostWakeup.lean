import Breadboard.LockCond.Machine

/-!
# No wake-up is lost

Every interleaving of waits, signals and broadcasts shows a sequence that the
contract of a condition variable admits.  The simulation reads a waiter's phase
off the machine: a linked node is registered, unless a broadcast has begun, and a
node someone popped is signalled, delivered once the popper has given.

Main results:

- Theorem `advance_simulates`: the step lemma, one case for each operation.
- Theorem `condvar_loses_no_wakeup`: the contract over every interleaving, the
  balance of wake-ups and returns, and that a woken waiter is not left blocked.
-/

namespace Breadboard
namespace LockCond

open Foundations
open ConditionVariable (Obs Outcome Phase Allows next)

universe u

variable {τ : Type u} [DecidableEq τ]

/-! ## Reading the phases off the machine -/

/-- The operations of a thread that holds the guard between two steps. -/
def Pc.holdsGuard : Pc τ → Bool
  | .signalGive _ | .broadcastPop | .broadcastGive _ => true
  | _ => false

/-- The waiter whose semaphore is about to be given. -/
def Pc.giving : Pc τ → Option τ
  | .signalGive w | .broadcastGive w => some w
  | _ => none

/-- The operations inside a broadcast's section. -/
def Pc.broadcasting : Pc τ → Bool
  | .broadcastPop | .broadcastGive _ => true
  | _ => false

/-- The operation of the guard's holder. -/
def State.guarded (s : State τ) : Pc τ :=
  match s.guard with
  | none => .idle
  | some t => s.pc t

/-- The semaphore of `w` is about to be given. -/
def State.being (s : State τ) (w : τ) : Bool :=
  decide (s.guarded.giving = some w)

/-- The phase of a waiter, from its next operation and what is known of its node. -/
def Pc.phase (pc : Pc τ) (linked being broadcasting : Bool) : Phase :=
  match pc with
  | .waitUnlock _ | .waitTake _ | .waitUnlink _ =>
    if linked then if broadcasting then .signalled false else .registered
    else .signalled (!being)
  | .waitDelete still _ | .waitRelock still _ => if still then .expired else .signalled true
  | _ => .away

/-- The phase of a waiter in a state. -/
def State.phaseOf (s : State τ) (w : τ) : Phase :=
  (s.pc w).phase (s.waiters.linked w) (s.being w) s.guarded.broadcasting

/--
What holds of one thread: its semaphore is full exactly when its node was popped, the
popper has given, and it has not taken the semaphore itself.
-/
def Pc.Local (pc : Pc τ) (linked : Bool) (sem : Option Bool) (being : Bool) : Prop :=
  match pc with
  | .waitLink _ => linked = false ∧ being = false ∧ sem = some false
  | .waitUnlock _ | .waitTake _ =>
    sem = some (!linked && !being) ∧ (being = true → linked = false)
  | .waitUnlink got =>
    sem = some (!linked && !being && !got) ∧ (being = true → linked = false) ∧
      (got = true → linked = false ∧ being = false)
  | .waitDelete still got | .waitRelock still got =>
    linked = false ∧ being = false ∧ (still = true → got = false)
  | _ => linked = false ∧ being = false

/-- What holds between any two steps. -/
structure Inv (s : State τ) : Prop where
  guard_iff : ∀ t, s.guard = some t ↔ (s.pc t).holdsGuard = true
  nodup : s.waiters.nodes.Nodup
  mem_iff : ∀ w, w ∈ s.waiters.nodes ↔ s.waiters.linked w = true
  each : ∀ w, (s.pc w).Local (s.waiters.linked w) (s.sem w) (s.being w)

theorem inv_init : Inv (State.init : State τ) where
  guard_iff t := by simp [State.init, Pc.holdsGuard]
  nodup := List.nodup_nil
  mem_iff w := by simp [State.init]
  each w := by simp [State.init, Pc.Local, State.being, State.guarded, Pc.giving]

/-- A step is a simulation when it keeps the invariant and shows what it did. -/
structure Simulates (s s' : State τ) (os : List (Obs τ)) : Prop where
  inv : Inv s'
  allowed : Along next Allows s.phaseOf os
  phases : run next s.phaseOf os = s'.phaseOf

variable {s s' : State τ} {t : τ}

theorem simulates_self (h : Inv s) : Simulates s s [] :=
  ⟨h, trivial, rfl⟩

/-! ## Steps outside the guard -/

theorem guard_ne_of_not_holdsGuard (h : Inv s) (hpc : (s.pc t).holdsGuard = false) :
    s.guard ≠ some t := by
  intro hguard
  rw [(h.guard_iff t).mp hguard] at hpc
  cases hpc

/-- A step of a thread that does not hold the guard leaves the guard's holder alone. -/
theorem guarded_of_outside {pc : Pc τ} (hguard : s'.guard = s.guard) (hne : s.guard ≠ some t)
    (hpc : s'.pc = Function.update s.pc t pc) : s'.guarded = s.guarded := by
  unfold State.guarded
  rw [hguard]
  cases hg : s.guard with
  | none => rfl
  | some g =>
    have hgt : g ≠ t := by
      intro heq
      rw [heq] at hg
      exact hne hg
    simp only [hpc, Function.update_of_ne hgt]

/--
A step of one thread outside the guard that leaves the waiter list alone keeps the
invariant if it keeps what holds of that thread, and only that thread's phase may change.
-/
theorem inv_outside {pc : Pc τ} (h : Inv s) (hout : (s.pc t).holdsGuard = false)
    (hguard : s'.guard = s.guard) (hwaiters : s'.waiters = s.waiters)
    (hpc : s'.pc = Function.update s.pc t pc) (hpc_out : pc.holdsGuard = false)
    (hsem : ∀ u, u ≠ t → s'.sem u = s.sem u)
    (heach : pc.Local (s.waiters.linked t) (s'.sem t) (s.being t)) :
    Inv s' ∧ s'.phaseOf = Function.update s.phaseOf t
      (pc.phase (s.waiters.linked t) (s.being t) s.guarded.broadcasting) := by
  have hne := guard_ne_of_not_holdsGuard h hout
  have hguarded := guarded_of_outside hguard hne hpc
  have hbeing : s'.being = s.being := by
    funext w
    rw [State.being, State.being, hguarded]
  constructor
  · constructor
    · intro u
      rw [hguard, hpc]
      by_cases hu : u = t
      · subst hu
        simp [hpc_out, hne]
      · rw [Function.update_of_ne hu]
        exact h.guard_iff u
    · rw [hwaiters]
      exact h.nodup
    · rw [hwaiters]
      exact h.mem_iff
    · intro u
      rw [hwaiters, hbeing, hpc]
      by_cases hu : u = t
      · subst hu
        rw [Function.update_self]
        exact heach
      · rw [Function.update_of_ne hu, hsem u hu]
        exact h.each u
  · funext u
    rw [State.phaseOf, hwaiters, hbeing, hpc, hguarded]
    by_cases hu : u = t
    · subst hu
      rw [Function.update_self, Function.update_self]
    · rw [Function.update_of_ne hu, Function.update_of_ne hu]
      rfl

/-- Such a step shows nothing when the phase stays. -/
theorem simulates_outside {pc : Pc τ} (h : Inv s) (hout : (s.pc t).holdsGuard = false)
    (hguard : s'.guard = s.guard) (hwaiters : s'.waiters = s.waiters)
    (hpc : s'.pc = Function.update s.pc t pc) (hpc_out : pc.holdsGuard = false)
    (hsem : ∀ u, u ≠ t → s'.sem u = s.sem u)
    (heach : pc.Local (s.waiters.linked t) (s'.sem t) (s.being t))
    (hphase : pc.phase (s.waiters.linked t) (s.being t) s.guarded.broadcasting = s.phaseOf t) :
    Simulates s s' [] := by
  obtain ⟨hinv, hphases⟩ := inv_outside h hout hguard hwaiters hpc hpc_out hsem heach
  refine ⟨hinv, trivial, ?_⟩
  rw [hphases, hphase, Function.update_eq_self]
  rfl

/-- The operations of a thread outside `wait`. -/
def Pc.notWaiting : Pc τ → Bool
  | .idle | .signalPop | .signalGive _ | .broadcastEnter | .broadcastPop | .broadcastGive _ => true
  | _ => false

omit [DecidableEq τ] in
theorem local_of_notWaiting {pc : Pc τ} (hnot : pc.notWaiting = true) {linked being : Bool}
    {sem : Option Bool} : pc.Local linked sem being ↔ linked = false ∧ being = false := by
  cases pc <;> first | exact Iff.rfl | cases hnot

omit [DecidableEq τ] in
theorem phase_of_notWaiting {pc : Pc τ} (hnot : pc.notWaiting = true)
    (linked being broadcasting : Bool) : pc.phase linked being broadcasting = .away := by
  cases pc <;> first | rfl | cases hnot

theorem simulates_notWaiting {pc : Pc τ} (h : Inv s) (hout : (s.pc t).holdsGuard = false)
    (hnot : (s.pc t).notWaiting = true) (hpc_out : pc.holdsGuard = false)
    (hpc_not : pc.notWaiting = true) : Simulates s (s.goto t pc) [] := by
  have hlocal := (local_of_notWaiting hnot).mp (h.each t)
  refine simulates_outside h hout rfl rfl rfl hpc_out (fun _ _ => rfl) ?_ ?_
  · exact (local_of_notWaiting hpc_not).mpr hlocal
  · rw [State.phaseOf, phase_of_notWaiting hpc_not, phase_of_notWaiting hnot]

theorem simulates_waitUnlock (h : Inv s) {timeoutMs : UInt32}
    (hpc : s.pc t = .waitUnlock timeoutMs) :
    Simulates s (s.advance t).2 (s.advance t).1 := by
  have hlocal := h.each t
  rw [hpc] at hlocal
  have hout : (s.pc t).holdsGuard = false := by rw [hpc]; rfl
  obtain ⟨hinv, hphases⟩ := @inv_outside _ _ s
    { s.goto t (.waitTake timeoutMs) with lock := none } t _ h hout rfl rfl rfl rfl
    (fun _ _ => rfl) hlocal
  have hadv : s.advance t =
      ([.release t], { s.goto t (.waitTake timeoutMs) with lock := none }) := by
    simp [State.advance, hpc]
  have hphase : s.phaseOf t = (Pc.waitTake timeoutMs : Pc τ).phase (s.waiters.linked t)
      (s.being t) s.guarded.broadcasting := by
    rw [State.phaseOf, hpc]
    rfl
  rw [hadv]
  refine ⟨hinv, ⟨?_, trivial⟩, ?_⟩
  · intro haway
    rw [hphase] at haway
    simp only [Pc.phase] at haway
    split_ifs at haway
  · rw [hphases, ← hphase, Function.update_eq_self]
    rfl

theorem simulates_waitTake (h : Inv s) {timeoutMs : UInt32} (hpc : s.pc t = .waitTake timeoutMs) :
    Simulates s (s.advance t).2 (s.advance t).1 := by
  by_cases hfull : s.sem t = some true
  · have hlocal := h.each t
    rw [hpc, hfull] at hlocal
    have hdelivered : s.waiters.linked t = false ∧ s.being t = false := by
      simpa [Pc.Local] using hlocal.1
    have hadv : s.advance t = ([], { s.goto t (.waitUnlink true) with
        sem := Function.update s.sem t (some false) }) := by
      simp [State.advance, hpc, hfull]
    rw [hadv]
    refine simulates_outside h (by rw [hpc]; rfl) rfl rfl rfl rfl
      (fun u hu => Function.update_of_ne hu _ _) ?_ ?_
    · simp [Pc.Local, hdelivered]
    · rw [State.phaseOf, hpc]
      rfl
  · have hadv : s.advance t = ([], s) := by simp [State.advance, hpc, hfull]
    rw [hadv]
    exact simulates_self h

theorem simulates_expire (h : Inv s) {timeoutMs : UInt32} (hpc : s.pc t = .waitTake timeoutMs)
    (hempty : s.sem t = some false) : Simulates s (s.goto t (.waitUnlink false)) [] := by
  have hlocal := h.each t
  rw [hpc, hempty] at hlocal
  refine simulates_outside h (by rw [hpc]; rfl) rfl rfl rfl rfl (fun _ _ => rfl) ?_ ?_
  · refine ⟨?_, hlocal.2, fun hgot => (nomatch hgot)⟩
    change s.sem t = _
    rw [hempty, Bool.not_false, Bool.and_true]
    exact hlocal.1
  · rw [State.phaseOf, hpc]
    rfl

theorem simulates_waitDelete (h : Inv s) {still got : Bool}
    (hpc : s.pc t = .waitDelete still got) :
    Simulates s (s.advance t).2 (s.advance t).1 := by
  have hlocal := h.each t
  rw [hpc] at hlocal
  have hadv : s.advance t = ([], { s.goto t (.waitRelock still got) with
      sem := Function.update s.sem t none }) := by
    simp [State.advance, hpc]
  rw [hadv]
  refine simulates_outside h (by rw [hpc]; rfl) rfl rfl rfl rfl
    (fun u hu => Function.update_of_ne hu _ _) ?_ ?_
  · exact hlocal
  · rw [State.phaseOf, hpc]
    rfl

theorem simulates_waitRelock (h : Inv s) {still got : Bool}
    (hpc : s.pc t = .waitRelock still got) :
    Simulates s (s.advance t).2 (s.advance t).1 := by
  by_cases hlock : s.lock = none
  · have hlocal := h.each t
    rw [hpc] at hlocal
    obtain ⟨hlinked, hbeing, hstill⟩ := hlocal
    have hadv : s.advance t = ([.back t (outcomeOf (decideResult still got))],
        { s.goto t .idle with lock := some t }) := by
      simp [State.advance, hpc, hlock]
    obtain ⟨hinv, hphases⟩ := @inv_outside _ _ s { s.goto t .idle with lock := some t } t .idle h
      (by rw [hpc]; rfl) rfl rfl rfl rfl (fun _ _ => rfl) ⟨hlinked, hbeing⟩
    have hphase : s.phaseOf t = if still then .expired else .signalled true := by
      rw [State.phaseOf, hpc]
      rfl
    rw [hadv]
    refine ⟨hinv, ⟨?_, trivial⟩, hphases.symm⟩
    cases still with
    | false => exact hphase
    | true =>
      rw [hstill rfl]
      exact hphase
  · have hadv : s.advance t = ([], s) := by simp [State.advance, hpc, hlock]
    rw [hadv]
    exact simulates_self h

/-! ## Steps that use the guard -/

omit [DecidableEq τ] in
theorem guarded_of_none (h : s.guard = none) : s.guarded = .idle := by
  rw [State.guarded, h]

omit [DecidableEq τ] in
theorem guarded_of_some (h : s.guard = some t) : s.guarded = s.pc t := by
  rw [State.guarded, h]

/-- With the guard free nothing is about to be given. -/
theorem being_of_none (h : s.guard = none) (w : τ) : s.being w = false := by
  rw [State.being, guarded_of_none h]
  rfl

/-- With the guard free the phase of a waiter is that of its node. -/
theorem phaseOf_of_none (h : s.guard = none) (w : τ) :
    s.phaseOf w = (s.pc w).phase (s.waiters.linked w) false false := by
  rw [State.phaseOf, being_of_none h, guarded_of_none h]
  rfl

theorem not_mem_of_not_linked (h : Inv s) (hlinked : s.waiters.linked t = false) :
    t ∉ s.waiters.nodes := by
  intro hmem
  rw [(h.mem_iff t).mp hmem] at hlinked
  cases hlinked

/-- With the guard free no thread is at an operation that needs it held. -/
theorem holdsGuard_of_none (h : Inv s) (hguard : s.guard = none) (u : τ) :
    (s.pc u).holdsGuard = false := by
  by_contra hholds
  have hsome := (h.guard_iff u).mpr (by simpa using hholds)
  rw [hguard] at hsome
  cases hsome

theorem simulates_waitLink (h : Inv s) {timeoutMs : UInt32}
    (hpc : s.pc t = .waitLink timeoutMs) :
    Simulates s (s.advance t).2 (s.advance t).1 := by
  by_cases hguard : s.guard = none
  · have hlocal := h.each t
    rw [hpc] at hlocal
    obtain ⟨hlinked, _, hsem⟩ := hlocal
    have hadv : s.advance t = ([.register t],
        { s.goto t (.waitUnlock timeoutMs) with waiters := s.waiters.push t }) := by
      simp [State.advance, hpc, hguard]
    rw [hadv]
    generalize hs' : ({ s.goto t (.waitUnlock timeoutMs) with
      waiters := s.waiters.push t } : State τ) = s'
    have hguard' : s'.guard = none := by rw [← hs']; exact hguard
    have hpc' : s'.pc = Function.update s.pc t (.waitUnlock timeoutMs) := by rw [← hs']; rfl
    have hsem' : s'.sem = s.sem := by rw [← hs']; rfl
    have hnodes' : s'.waiters.nodes = t :: s.waiters.nodes := by rw [← hs']; rfl
    have hlinked' : s'.waiters.linked = Function.update s.waiters.linked t true := by
      rw [← hs']; rfl
    refine ⟨⟨?_, ?_, ?_, ?_⟩, ⟨?_, trivial⟩, ?_⟩
    · intro u
      rw [hguard', hpc']
      by_cases hu : u = t
      · subst hu
        simp [Pc.holdsGuard]
      · rw [Function.update_of_ne hu, holdsGuard_of_none h hguard]
        simp
    · rw [hnodes']
      exact List.nodup_cons.mpr ⟨not_mem_of_not_linked h hlinked, h.nodup⟩
    · intro w
      rw [hnodes', hlinked']
      by_cases hw : w = t
      · simp [hw]
      · rw [Function.update_of_ne hw, List.mem_cons, h.mem_iff w]
        simp [hw]
    · intro w
      rw [being_of_none hguard', hsem', hlinked', hpc']
      by_cases hw : w = t
      · subst hw
        simp [Pc.Local, hsem]
      · rw [Function.update_of_ne hw, Function.update_of_ne hw, ← being_of_none hguard w]
        exact h.each w
    · show s.phaseOf t = .away
      rw [State.phaseOf, hpc]
      rfl
    · funext w
      rw [run_cons, run_nil, ConditionVariable.next, phaseOf_of_none hguard', hpc', hlinked']
      by_cases hw : w = t
      · subst hw
        simp [Pc.phase]
      · simp only [Function.update_of_ne hw]
        exact phaseOf_of_none hguard w
  · have hadv : s.advance t = ([], s) := by simp [State.advance, hpc, hguard]
    rw [hadv]
    exact simulates_self h

theorem simulates_waitUnlink (h : Inv s) {got : Bool} (hpc : s.pc t = .waitUnlink got) :
    Simulates s (s.advance t).2 (s.advance t).1 := by
  by_cases hguard : s.guard = none
  · have hlocal := h.each t
    rw [hpc, being_of_none hguard] at hlocal
    obtain ⟨_, _, hgot⟩ := hlocal
    by_cases hlinked : s.waiters.linked t = false
    · -- a signaller popped the node: there is nothing to remove
      have hadv : s.advance t = ([], s.goto t (.waitDelete false got)) := by
        simp [State.advance, hpc, hguard, WaiterList.remove, hlinked, State.goto]
      rw [hadv]
      refine simulates_outside h (by rw [hpc]; rfl) rfl rfl rfl rfl (fun _ _ => rfl) ?_ ?_
      · exact ⟨hlinked, being_of_none hguard t, fun hstill => (nomatch hstill)⟩
      · rw [phaseOf_of_none hguard, hpc]
        simp [Pc.phase, hlinked]
    · have hgotFalse : got = false := by
        by_contra hne
        exact hlinked (hgot (by simpa using hne)).1
      have hadv : s.advance t = ([.expire t], { s.goto t (.waitDelete true got) with
          waiters :=
            { nodes := s.waiters.nodes.erase t
              linked := Function.update s.waiters.linked t false } }) := by
        simp [State.advance, hpc, hguard, WaiterList.remove, hlinked]
      rw [hadv]
      generalize hs' : ({ s.goto t (.waitDelete true got) with
        waiters :=
          { nodes := s.waiters.nodes.erase t
            linked := Function.update s.waiters.linked t false } } : State τ) = s'
      have hguard' : s'.guard = none := by rw [← hs']; exact hguard
      have hpc' : s'.pc = Function.update s.pc t (.waitDelete true got) := by rw [← hs']; rfl
      have hsem' : s'.sem = s.sem := by rw [← hs']; rfl
      have hnodes' : s'.waiters.nodes = s.waiters.nodes.erase t := by rw [← hs']
      have hlinked' : s'.waiters.linked = Function.update s.waiters.linked t false := by
        rw [← hs']
      refine ⟨⟨?_, ?_, ?_, ?_⟩, ⟨?_, trivial⟩, ?_⟩
      · intro u
        rw [hguard', hpc']
        by_cases hu : u = t
        · subst hu
          simp [Pc.holdsGuard]
        · rw [Function.update_of_ne hu, holdsGuard_of_none h hguard]
          simp
      · rw [hnodes']
        exact h.nodup.erase t
      · intro w
        rw [hnodes', hlinked', h.nodup.mem_erase_iff]
        by_cases hw : w = t
        · simp [hw]
        · rw [Function.update_of_ne hw, h.mem_iff w]
          simp [hw]
      · intro w
        rw [being_of_none hguard', hsem', hlinked', hpc']
        by_cases hw : w = t
        · subst hw
          simp [Pc.Local, hgotFalse]
        · rw [Function.update_of_ne hw, Function.update_of_ne hw, ← being_of_none hguard w]
          exact h.each w
      · show s.phaseOf t = .registered
        rw [phaseOf_of_none hguard, hpc]
        simp [Pc.phase, hlinked]
      · funext w
        rw [run_cons, run_nil, ConditionVariable.next, phaseOf_of_none hguard', hpc', hlinked']
        by_cases hw : w = t
        · subst hw
          simp [Pc.phase]
        · simp only [Function.update_of_ne hw]
          exact phaseOf_of_none hguard w
  · have hadv : s.advance t = ([], s) := by simp [State.advance, hpc, hguard]
    rw [hadv]
    exact simulates_self h

omit [DecidableEq τ] in
/-- What holds of a linked waiter whose node is being popped. -/
theorem local_pop {pc : Pc τ} {sem : Option Bool} (h : pc.Local true sem false) :
    pc.Local false sem true := by
  cases pc <;> simp_all [Pc.Local]

omit [DecidableEq τ] in
/-- A linked waiter is registered, unless a broadcast has begun. -/
theorem phase_of_linked {pc : Pc τ} {sem : Option Bool} {being : Bool}
    (h : pc.Local true sem being) (broadcasting : Bool) :
    pc.phase true being broadcasting =
      if broadcasting then .signalled false else .registered := by
  cases pc <;> first | rfl | simp [Pc.Local] at h

omit [DecidableEq τ] in
/-- A waiter whose semaphore is about to be given is signalled. -/
theorem phase_of_being {pc : Pc τ} {linked : Bool} {sem : Option Bool}
    (h : pc.Local linked sem true) (broadcasting : Bool) :
    linked = false ∧ pc.phase linked true broadcasting = .signalled false ∧
      pc.phase linked false broadcasting = .signalled true := by
  cases pc <;> simp_all [Pc.Local, Pc.phase]

omit [DecidableEq τ] in
/-- What holds of a waiter after its semaphore was given. -/
theorem local_give {pc : Pc τ} {linked : Bool} {sem : Option Bool}
    (h : pc.Local linked sem true) : pc.Local linked (some true) false := by
  cases pc <;> simp_all [Pc.Local]

omit [DecidableEq τ] in
/-- The phase of an unlinked waiter does not depend on a broadcast. -/
theorem phase_of_not_linked (pc : Pc τ) (being b b' : Bool) :
    pc.phase false being b = pc.phase false being b' := by
  cases pc <;> rfl

/-- Nobody but `t` is at an operation that needs the guard, if it is free or `t`'s. -/
theorem holdsGuard_of_ne (h : Inv s) (hguard : s.guard = none ∨ s.guard = some t) {u : τ}
    (hu : u ≠ t) : (s.pc u).holdsGuard = false := by
  rcases hguard with hnone | hsome
  · exact holdsGuard_of_none h hnone u
  · by_contra hholds
    have hguard := (h.guard_iff u).mpr (by simpa using hholds)
    rw [hsome] at hguard
    exact hu (Option.some.inj hguard).symm

/--
Popping the head under the guard: the popped waiter's semaphore is about to be given and
nothing else changes, apart from what the popper's operation says about a broadcast.
-/
theorem inv_pop {pc : Pc τ} {w : τ} {rest : List τ} (h : Inv s)
    (hguard : s.guard = none ∨ s.guard = some t) (hnot : (s.pc t).notWaiting = true)
    (hquiet : ∀ u, s.being u = false) (hnodes : s.waiters.nodes = w :: rest)
    (hpc_not : pc.notWaiting = true) (hpc_holds : pc.holdsGuard = true)
    (hgiving : pc.giving = some w) (hguard' : s'.guard = some t)
    (hpc' : s'.pc = Function.update s.pc t pc) (hsem' : s'.sem = s.sem)
    (hwaiters' : s'.waiters =
      { nodes := rest, linked := Function.update s.waiters.linked w false }) :
    Inv s' ∧ ∀ u, s'.phaseOf u =
      if u = w then .signalled false
      else (s.pc u).phase (s.waiters.linked u) false pc.broadcasting := by
  have hlinked : s.waiters.linked w = true := by
    apply (h.mem_iff w).mp
    rw [hnodes]
    exact List.mem_cons_self
  have hlocal_t := (local_of_notWaiting hnot).mp (h.each t)
  have hwt : w ≠ t := by
    intro heq
    rw [heq, hlocal_t.1] at hlinked
    cases hlinked
  have hguarded' : s'.guarded = pc := by
    rw [guarded_of_some hguard', hpc', Function.update_self]
  have hbeing' : ∀ u, s'.being u = decide (u = w) := by
    intro u
    rw [State.being, hguarded', hgiving]
    simp [eq_comm]
  have hlocal_w := h.each w
  rw [hlinked, hquiet w] at hlocal_w
  have hnodup := h.nodup
  rw [hnodes] at hnodup
  refine ⟨⟨?_, ?_, ?_, ?_⟩, ?_⟩
  · intro u
    rw [hguard', hpc']
    by_cases hu : u = t
    · subst hu
      simp [hpc_holds]
    · have htu : ¬ t = u := fun heq => hu heq.symm
      rw [Function.update_of_ne hu, holdsGuard_of_ne h hguard hu]
      simp [htu]
  · rw [hwaiters']
    exact (List.nodup_cons.mp hnodup).2
  · intro u
    have hmem := h.mem_iff u
    rw [hnodes, List.mem_cons] at hmem
    rw [hwaiters']
    by_cases hu : u = w
    · subst hu
      simp [(List.nodup_cons.mp hnodup).1]
    · simp only [Function.update_of_ne hu, ← hmem, hu, false_or]
  · intro u
    rw [hbeing', hsem', hwaiters', hpc']
    by_cases hu : u = w
    · subst hu
      rw [Function.update_of_ne hwt]
      simp only [Function.update_self, decide_true]
      exact local_pop hlocal_w
    · simp only [Function.update_of_ne hu, hu, decide_false]
      by_cases hut : u = t
      · subst hut
        rw [Function.update_self]
        exact (local_of_notWaiting hpc_not).mpr ⟨hlocal_t.1, rfl⟩
      · rw [Function.update_of_ne hut, ← hquiet u]
        exact h.each u
  · intro u
    rw [State.phaseOf, hbeing', hguarded', hwaiters', hpc']
    by_cases hu : u = w
    · subst hu
      rw [Function.update_of_ne hwt]
      simp only [Function.update_self, decide_true, if_true]
      exact (phase_of_being (local_pop hlocal_w) _).2.1
    · simp only [Function.update_of_ne hu, hu, decide_false, if_false]
      by_cases hut : u = t
      · subst hut
        rw [Function.update_self, phase_of_notWaiting hpc_not, phase_of_notWaiting hnot]
      · rw [Function.update_of_ne hut]

/-- Giving under the guard delivers the wake-up of the waiter whose node was popped. -/
theorem inv_give {pc : Pc τ} {w : τ} (h : Inv s) (hguard : s.guard = some t)
    (hnot : (s.pc t).notWaiting = true) (hgiving : (s.pc t).giving = some w)
    (hpc_not : pc.notWaiting = true) (hpc_giving : pc.giving = none)
    (hguard' : s'.guard = if pc.holdsGuard then some t else none)
    (hpc' : s'.pc = Function.update s.pc t pc)
    (hsem' : s'.sem = Function.update s.sem w (some true)) (hwaiters' : s'.waiters = s.waiters) :
    Inv s' ∧ s.phaseOf w = .signalled false ∧ ∀ u, s'.phaseOf u =
      if u = w then .signalled true
      else (s.pc u).phase (s.waiters.linked u) false (pc.holdsGuard && pc.broadcasting) := by
  have hguarded : s.guarded = s.pc t := guarded_of_some hguard
  have hbeing : ∀ u, s.being u = decide (u = w) := by
    intro u
    rw [State.being, hguarded, hgiving]
    simp [eq_comm]
  have hguarded' : s'.guarded = if pc.holdsGuard then pc else .idle := by
    rw [State.guarded, hguard', hpc']
    cases pc.holdsGuard <;> simp
  have hbeing' : ∀ u, s'.being u = false := by
    intro u
    rw [State.being, hguarded']
    cases pc.holdsGuard with
    | true => simp [hpc_giving]
    | false => rfl
  have hbroadcasting' : s'.guarded.broadcasting = (pc.holdsGuard && pc.broadcasting) := by
    rw [hguarded']
    cases pc.holdsGuard <;> simp [Pc.broadcasting]
  have hlocal_t := (local_of_notWaiting hnot).mp (h.each t)
  have hlocal_w := h.each w
  rw [hbeing w, decide_eq_true rfl] at hlocal_w
  have hwt : w ≠ t := by
    intro heq
    rw [hbeing t, ← heq, decide_eq_true rfl] at hlocal_t
    cases hlocal_t.2
  refine ⟨⟨?_, ?_, ?_, ?_⟩, ?_, ?_⟩
  · intro u
    rw [hguard', hpc']
    by_cases hu : u = t
    · subst hu
      cases hp : pc.holdsGuard <;> simp [hp]
    · rw [Function.update_of_ne hu, holdsGuard_of_ne h (.inr hguard) hu]
      have htu : ¬ t = u := fun heq => hu heq.symm
      cases pc.holdsGuard <;> simp [htu]
  · rw [hwaiters']
    exact h.nodup
  · rw [hwaiters']
    exact h.mem_iff
  · intro u
    rw [hbeing', hsem', hwaiters', hpc']
    by_cases hu : u = w
    · subst hu
      rw [Function.update_of_ne hwt, Function.update_self]
      exact local_give hlocal_w
    · rw [Function.update_of_ne hu]
      by_cases hut : u = t
      · subst hut
        rw [Function.update_self]
        exact (local_of_notWaiting hpc_not).mpr ⟨hlocal_t.1, rfl⟩
      · rw [Function.update_of_ne hut]
        have hlocal_u := h.each u
        rw [hbeing u, decide_eq_false hu] at hlocal_u
        exact hlocal_u
  · rw [State.phaseOf, hbeing w, decide_eq_true rfl]
    exact (phase_of_being hlocal_w _).2.1
  · intro u
    rw [State.phaseOf, hbeing', hbroadcasting', hwaiters', hpc']
    by_cases hu : u = w
    · subst hu
      rw [Function.update_of_ne hwt, if_pos rfl]
      exact (phase_of_being hlocal_w _).2.2
    · rw [if_neg hu]
      by_cases hut : u = t
      · subst hut
        rw [Function.update_self, phase_of_notWaiting hpc_not, phase_of_notWaiting hnot]
      · rw [Function.update_of_ne hut]

/-! ## Signal and broadcast -/

theorem simulates_signalPop (h : Inv s) (hpc : s.pc t = .signalPop) :
    Simulates s (s.advance t).2 (s.advance t).1 := by
  by_cases hguard : s.guard = none
  · cases hnodes : s.waiters.nodes with
    | nil =>
      have hadv : s.advance t = ([.signal none], s.goto t .idle) := by
        simp [State.advance, hpc, hguard, WaiterList.pop, hnodes]
      have hmove := @simulates_notWaiting _ _ _ _ .idle h (by rw [hpc]; rfl) (by rw [hpc]; rfl)
        rfl rfl
      rw [hadv]
      refine ⟨hmove.inv, ⟨?_, trivial⟩, hmove.phases⟩
      intro w hreg
      rw [phaseOf_of_none hguard] at hreg
      have hunlinked : s.waiters.linked w = false := by
        by_contra hl
        have hmem := (h.mem_iff w).mpr (by simpa using hl)
        rw [hnodes] at hmem
        cases hmem
      rw [hunlinked] at hreg
      cases hpcw : s.pc w <;> rw [hpcw] at hreg <;> simp [Pc.phase] at hreg <;> split_ifs at hreg
    | cons w rest =>
      have hadv : s.advance t = ([.signal (some w)], { s.goto t (.signalGive w) with
          guard := some t
          waiters := { nodes := rest, linked := Function.update s.waiters.linked w false } }) := by
        simp [State.advance, hpc, hguard, WaiterList.pop, hnodes]
      rw [hadv]
      have hpop := @inv_pop _ _ s { s.goto t (.signalGive w) with
          guard := some t
          waiters := { nodes := rest, linked := Function.update s.waiters.linked w false } }
        t (.signalGive w) w rest h (.inl hguard) (by rw [hpc]; rfl) (being_of_none hguard) hnodes
        rfl rfl rfl rfl rfl rfl rfl
      refine ⟨hpop.1, ⟨?_, trivial⟩, ?_⟩
      · have hlinked : s.waiters.linked w = true := by
          apply (h.mem_iff w).mp
          rw [hnodes]
          exact List.mem_cons_self
        have hlocal := h.each w
        rw [hlinked] at hlocal
        show s.phaseOf w = .registered
        rw [State.phaseOf, hlinked, phase_of_linked hlocal, guarded_of_none hguard]
        rfl
      · funext u
        rw [hpop.2 u, run_cons, run_nil, ConditionVariable.next]
        by_cases hu : u = w
        · simp [hu]
        · rw [Function.update_of_ne hu, if_neg hu]
          exact phaseOf_of_none hguard u
  · have hadv : s.advance t = ([], s) := by simp [State.advance, hpc, hguard]
    rw [hadv]
    exact simulates_self h

/-- A thread at an operation under the guard holds it. -/
theorem guard_of_holdsGuard (h : Inv s) (hholds : (s.pc t).holdsGuard = true) :
    s.guard = some t :=
  (h.guard_iff t).mpr hholds

theorem simulates_signalGive (h : Inv s) {w : τ} (hpc : s.pc t = .signalGive w) :
    Simulates s (s.advance t).2 (s.advance t).1 := by
  have hguard := guard_of_holdsGuard h (t := t) (by rw [hpc]; rfl)
  have hadv : s.advance t = ([.give w], { (s.give w).goto t .idle with guard := none }) := by
    simp [State.advance, hpc]
  obtain ⟨hinv, hphase, hphases⟩ := @inv_give _ _ s { (s.give w).goto t .idle with guard := none }
    t .idle w h hguard (by rw [hpc]; rfl) (by rw [hpc]; rfl) rfl rfl rfl rfl rfl rfl
  rw [hadv]
  refine ⟨hinv, ⟨hphase, trivial⟩, ?_⟩
  funext u
  rw [hphases u, run_cons, run_nil, ConditionVariable.next]
  by_cases hu : u = w
  · simp [hu]
  · rw [Function.update_of_ne hu, if_neg hu, State.phaseOf, State.being, guarded_of_some hguard,
      hpc]
    have hwu : ¬ w = u := fun heq => hu heq.symm
    simp [Pc.giving, Pc.broadcasting, hwu]

theorem simulates_broadcastEnter (h : Inv s) (hpc : s.pc t = .broadcastEnter) :
    Simulates s (s.advance t).2 (s.advance t).1 := by
  by_cases hguard : s.guard = none
  · have hadv : s.advance t = ([.broadcast s.waiters.nodes],
        { s.goto t .broadcastPop with guard := some t }) := by
      simp [State.advance, hpc, hguard]
    rw [hadv]
    generalize hs' : ({ s.goto t .broadcastPop with guard := some t } : State τ) = s'
    have hpc' : s'.pc = Function.update s.pc t .broadcastPop := by rw [← hs']; rfl
    have hsem' : s'.sem = s.sem := by rw [← hs']; rfl
    have hwaiters' : s'.waiters = s.waiters := by rw [← hs']; rfl
    have hguard' : s'.guard = some t := by rw [← hs']
    have hguarded' : s'.guarded = .broadcastPop := by
      rw [guarded_of_some hguard', hpc', Function.update_self]
    have hbeing' : ∀ u, s'.being u = false := by
      intro u
      rw [State.being, hguarded']
      rfl
    have hlocal_t := h.each t
    rw [hpc] at hlocal_t
    refine ⟨⟨?_, ?_, ?_, ?_⟩, ⟨⟨h.nodup, ?_⟩, trivial⟩, ?_⟩
    · intro u
      rw [hguard', hpc']
      by_cases hu : u = t
      · subst hu
        simp [Pc.holdsGuard]
      · have htu : ¬ t = u := fun heq => hu heq.symm
        rw [Function.update_of_ne hu, holdsGuard_of_none h hguard]
        simp [htu]
    · rw [hwaiters']
      exact h.nodup
    · rw [hwaiters']
      exact h.mem_iff
    · intro u
      rw [hbeing', hsem', hwaiters', hpc']
      by_cases hu : u = t
      · subst hu
        rw [Function.update_self]
        exact ⟨hlocal_t.1, rfl⟩
      · rw [Function.update_of_ne hu, ← being_of_none hguard u]
        exact h.each u
    · intro w
      rw [h.mem_iff w, phaseOf_of_none hguard]
      have hlocal := h.each w
      cases hlinked : s.waiters.linked w with
      | true =>
        rw [hlinked, being_of_none hguard] at hlocal
        simp [phase_of_linked hlocal]
      | false => cases hpcw : s.pc w <;> simp [Pc.phase] <;> split_ifs <;> simp
    · funext w
      rw [run_cons, run_nil, ConditionVariable.next, State.phaseOf, hbeing', hguarded', hwaiters',
        hpc']
      change (if w ∈ s.waiters.nodes then Phase.signalled false else s.phaseOf w) = _
      have hlocal := h.each w
      by_cases hw : w = t
      · subst hw
        rw [Function.update_self, if_neg (not_mem_of_not_linked h hlocal_t.1),
          phaseOf_of_none hguard, hpc]
        rfl
      · rw [Function.update_of_ne hw]
        cases hlinked : s.waiters.linked w with
        | true =>
          rw [hlinked, being_of_none hguard] at hlocal
          rw [if_pos ((h.mem_iff w).mpr hlinked), phase_of_linked hlocal]
          rfl
        | false =>
          rw [if_neg (not_mem_of_not_linked h hlinked), phaseOf_of_none hguard, hlinked]
          exact phase_of_not_linked _ _ _ _
  · have hadv : s.advance t = ([], s) := by simp [State.advance, hpc, hguard]
    rw [hadv]
    exact simulates_self h

theorem simulates_broadcastPop (h : Inv s) (hpc : s.pc t = .broadcastPop) :
    Simulates s (s.advance t).2 (s.advance t).1 := by
  have hguard := guard_of_holdsGuard h (t := t) (by rw [hpc]; rfl)
  have hguarded := guarded_of_some hguard
  rw [hpc] at hguarded
  have hquiet : ∀ u, s.being u = false := by
    intro u
    rw [State.being, hguarded]
    rfl
  cases hnodes : s.waiters.nodes with
  | nil =>
    have hadv : s.advance t = ([], { s.goto t .idle with guard := none }) := by
      simp [State.advance, hpc, WaiterList.pop, hnodes]
    rw [hadv]
    generalize hs' : ({ s.goto t .idle with guard := none } : State τ) = s'
    have hpc' : s'.pc = Function.update s.pc t .idle := by rw [← hs']; rfl
    have hsem' : s'.sem = s.sem := by rw [← hs']; rfl
    have hwaiters' : s'.waiters = s.waiters := by rw [← hs']; rfl
    have hguard' : s'.guard = none := by rw [← hs']
    have hunlinked : ∀ u, s.waiters.linked u = false := by
      intro u
      by_contra hl
      have hmem := (h.mem_iff u).mpr (by simpa using hl)
      rw [hnodes] at hmem
      cases hmem
    refine ⟨⟨?_, ?_, ?_, ?_⟩, trivial, ?_⟩
    · intro u
      rw [hguard', hpc']
      by_cases hu : u = t
      · subst hu
        simp [Pc.holdsGuard]
      · rw [Function.update_of_ne hu, holdsGuard_of_ne h (.inr hguard) hu]
        simp
    · rw [hwaiters']
      exact h.nodup
    · rw [hwaiters']
      exact h.mem_iff
    · intro u
      rw [being_of_none hguard', hsem', hwaiters', hpc']
      by_cases hu : u = t
      · subst hu
        rw [Function.update_self]
        exact ⟨hunlinked u, rfl⟩
      · rw [Function.update_of_ne hu, ← hquiet u]
        exact h.each u
    · funext u
      rw [run_nil, phaseOf_of_none hguard', State.phaseOf, hquiet, hwaiters', hunlinked u, hpc']
      by_cases hu : u = t
      · subst hu
        rw [Function.update_self, hpc]
        rfl
      · rw [Function.update_of_ne hu]
        exact phase_of_not_linked _ _ _ _
  | cons w rest =>
    have hadv : s.advance t = ([], { s.goto t (.broadcastGive w) with
        waiters := { nodes := rest, linked := Function.update s.waiters.linked w false } }) := by
      simp [State.advance, hpc, WaiterList.pop, hnodes]
    rw [hadv]
    have hpop := @inv_pop _ _ s { s.goto t (.broadcastGive w) with
        waiters := { nodes := rest, linked := Function.update s.waiters.linked w false } }
      t (.broadcastGive w) w rest h (.inr hguard) (by rw [hpc]; rfl) hquiet hnodes
      rfl rfl rfl hguard rfl rfl rfl
    refine ⟨hpop.1, trivial, ?_⟩
    funext u
    rw [hpop.2 u, run_nil, State.phaseOf, hquiet, hguarded]
    by_cases hu : u = w
    · subst hu
      have hlinked : s.waiters.linked u = true := by
        apply (h.mem_iff u).mp
        rw [hnodes]
        exact List.mem_cons_self
      have hlocal := h.each u
      rw [hlinked, hquiet] at hlocal
      rw [if_pos rfl, hlinked, phase_of_linked hlocal]
      rfl
    · rw [if_neg hu]
      rfl

theorem simulates_broadcastGive (h : Inv s) {w : τ} (hpc : s.pc t = .broadcastGive w) :
    Simulates s (s.advance t).2 (s.advance t).1 := by
  have hguard := guard_of_holdsGuard h (t := t) (by rw [hpc]; rfl)
  have hadv : s.advance t = ([.give w], (s.give w).goto t .broadcastPop) := by
    simp [State.advance, hpc]
  obtain ⟨hinv, hphase, hphases⟩ := @inv_give _ _ s ((s.give w).goto t .broadcastPop)
    t .broadcastPop w h hguard (by rw [hpc]; rfl) (by rw [hpc]; rfl) rfl rfl hguard rfl rfl rfl
  rw [hadv]
  refine ⟨hinv, ⟨hphase, trivial⟩, ?_⟩
  funext u
  rw [hphases u, run_cons, run_nil, ConditionVariable.next]
  by_cases hu : u = w
  · simp [hu]
  · rw [Function.update_of_ne hu, if_neg hu, State.phaseOf, State.being, guarded_of_some hguard,
      hpc]
    have hwu : ¬ w = u := fun heq => hu heq.symm
    simp [Pc.giving, Pc.broadcasting, Pc.holdsGuard, hwu]

/-! ## Every interleaving -/

/-- The step lemma: each operation of a thread is a simulation. -/
theorem advance_simulates (h : Inv s) (t : τ) :
    Simulates s (s.advance t).2 (s.advance t).1 := by
  cases hpc : s.pc t with
  | idle =>
    have hadv : s.advance t = ([], s) := by simp [State.advance, hpc]
    rw [hadv]
    exact simulates_self h
  | waitLink timeoutMs => exact simulates_waitLink h hpc
  | waitUnlock timeoutMs => exact simulates_waitUnlock h hpc
  | waitTake timeoutMs => exact simulates_waitTake h hpc
  | waitUnlink got => exact simulates_waitUnlink h hpc
  | waitDelete still got => exact simulates_waitDelete h hpc
  | waitRelock still got => exact simulates_waitRelock h hpc
  | signalPop => exact simulates_signalPop h hpc
  | signalGive w => exact simulates_signalGive h hpc
  | broadcastEnter => exact simulates_broadcastEnter h hpc
  | broadcastPop => exact simulates_broadcastPop h hpc
  | broadcastGive w => exact simulates_broadcastGive h hpc

/-- The guard and the semaphores do not depend on who holds the caller's lock. -/
theorem simulates_lock (h : Inv s) (lock : Option τ) : Simulates s { s with lock := lock } [] :=
  ⟨⟨h.guard_iff, h.nodup, h.mem_iff, h.each⟩, trivial, rfl⟩

theorem simulates_wait (h : Inv s) (hpc : s.pc t = .idle) (timeoutMs : UInt32) :
    Simulates s { s.goto t (.waitLink timeoutMs) with
      sem := Function.update s.sem t (some false)
      waiters := { s.waiters with linked := Function.update s.waiters.linked t false } } [] := by
  have hlocal := h.each t
  rw [hpc] at hlocal
  have hsame : Function.update s.waiters.linked t false = s.waiters.linked := by
    rw [← hlocal.1, Function.update_eq_self]
  refine simulates_outside h (by rw [hpc]; rfl) rfl ?_ rfl rfl
    (fun u hu => Function.update_of_ne hu _ _) ?_ ?_
  · simp only [hsame]
  · exact ⟨hlocal.1, hlocal.2, Function.update_self ..⟩
  · rw [State.phaseOf, hpc]
    rfl

theorem act_simulates (tickRateHz : Nat) (h : Inv s) (a : Action τ) :
    Simulates s (s.step tickRateHz a) (s.shows tickRateHz a) := by
  unfold State.step State.shows
  cases a with
  | lock t =>
    simp only [State.act]
    split
    · exact simulates_lock h _
    · exact simulates_self h
  | unlock t =>
    simp only [State.act]
    split
    · exact simulates_lock h _
    · exact simulates_self h
  | wait t timeoutMs =>
    simp only [State.act]
    split
    · rename_i hcall
      exact simulates_wait h hcall.1 timeoutMs
    · exact simulates_self h
  | signal t =>
    simp only [State.act]
    split
    · rename_i hpc
      exact simulates_notWaiting h (by rw [hpc]; rfl) (by rw [hpc]; rfl) rfl rfl
    · exact simulates_self h
  | broadcast t =>
    simp only [State.act]
    split
    · rename_i hpc
      exact simulates_notWaiting h (by rw [hpc]; rfl) (by rw [hpc]; rfl) rfl rfl
    · exact simulates_self h
  | advance t => exact advance_simulates h t
  | expire t =>
    simp only [State.act]
    split
    · rename_i timeoutMs hpc
      split
      · rename_i hempty
        exact simulates_expire h hpc hempty.1
      · exact simulates_self h
    · exact simulates_self h

/-- Every run from a state that meets the invariant is a simulation. -/
theorem run_simulates (tickRateHz : Nat) (h : Inv s) (as : List (Action τ)) :
    Simulates s (run (State.step tickRateHz) s as)
      (outputs (State.step tickRateHz) (State.shows tickRateHz) s as) := by
  induction as generalizing s with
  | nil => exact simulates_self h
  | cons a as ih =>
    have hstep := act_simulates tickRateHz h a
    have hrest := ih hstep.inv
    refine ⟨hrest.inv, ?_, ?_⟩
    · rw [outputs_cons, along_append]
      refine ⟨hstep.allowed, ?_⟩
      rw [hstep.phases]
      exact hrest.allowed
    · rw [outputs_cons, run_append, hstep.phases]
      exact hrest.phases

/-- With the guard free, a signalled waiter finds its semaphore full. -/
theorem sem_of_signalled (h : Inv s) {timeoutMs : UInt32} (hpc : s.pc t = .waitTake timeoutMs)
    (hguard : s.guard = none) (hphase : (s.phaseOf t).owed = 1) : s.sem t = some true := by
  have hlocal := h.each t
  rw [hpc, being_of_none hguard] at hlocal
  rw [phaseOf_of_none hguard, hpc] at hphase
  cases hlinked : s.waiters.linked t with
  | true =>
    rw [hlinked] at hphase
    cases hphase
  | false =>
    rw [hlinked] at hlocal
    exact hlocal.1

/--
No wake-up is lost in any interleaving of waits, signals and broadcasts: what is shown
follows the contract of a condition variable; the times a waiter was woken are its
returns as woken, plus one while such a return is due; and a waiter that is due one is not
blocked, since with the guard free its semaphore is full.
-/
theorem condvar_loses_no_wakeup (tickRateHz : Nat) (as : List (Action τ)) :
    let shown := outputs (State.step tickRateHz) (State.shows tickRateHz) State.init as
    let s := run (State.step tickRateHz) State.init as
    Along next Allows (fun _ => .away) shown ∧
    (∀ w, (shown.map (ConditionVariable.wakes w)).sum =
      (shown.map (ConditionVariable.wokenReturns w)).sum + (s.phaseOf w).owed) ∧
    (∀ w timeoutMs, s.pc w = .waitTake timeoutMs → s.guard = none → (s.phaseOf w).owed = 1 →
      s.sem w = some true) := by
  intro shown s
  have hsim : Simulates State.init s shown := run_simulates tickRateHz inv_init as
  have hinit : (State.init : State τ).phaseOf = fun _ => .away := rfl
  have hallowed := hsim.allowed
  have hphases := hsim.phases
  rw [hinit] at hallowed hphases
  refine ⟨hallowed, ?_, ?_⟩
  · intro w
    have hbalance := ConditionVariable.wakes_eq_woken_add hallowed w
    rw [hphases] at hbalance
    exact hbalance
  · intro w timeoutMs hpc hguard howed
    exact sem_of_signalled hsim.inv hpc hguard howed

end LockCond
end Breadboard
