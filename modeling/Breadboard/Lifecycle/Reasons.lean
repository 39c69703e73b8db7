import Breadboard.Foundations.Runs
import Breadboard.Lifecycle.Changes

/-!
# bb_lifecycle - independent reasons, exact notifications

The history of a run is the list of its calls with their status codes.  It says
on its own which services are started and which reasons hold each of them; the
intern table and the bit words are a representation of exactly that.

Main results:

- Theorem `call_changesExactly`: what one call changes and delivers.
- Theorem `reasons_independent_events_exact`: this and the history, over every run.
-/

namespace Breadboard
namespace Lifecycle

open Foundations

/-! ## What a history says -/

/-- The calls so far with their status codes, latest first. -/
abbrev History := List (Call × BbErr)

/-- The latest successful start or stop of the service was a start. -/
def startedIn (svc : Int) : History → Bool
  | [] => false
  | (.start s, .ok) :: older => if s = svc then true else startedIn svc older
  | (.stop s, .ok) :: older => if s = svc then false else startedIn svc older
  | _ :: older => startedIn svc older

/--
The reason was asserted for the service and since then neither cleared nor dropped
by a stop that found the service started.
-/
def assertedIn (svc : Int) (reason : Bytes) : History → Bool
  | [] => false
  | (.pauseAssert s r, .ok) :: older =>
    if s = svc ∧ r = reason then true else assertedIn svc reason older
  | (.pauseClear s r, .ok) :: older =>
    if s = svc ∧ r = reason then false else assertedIn svc reason older
  | (.stop s, .ok) :: older =>
    if s = svc ∧ startedIn svc older = true then false else assertedIn svc reason older
  | _ :: older => assertedIn svc reason older

open Classical in
/-- The state a history gives a service. -/
noncomputable def stateIn (svc : Int) (h : History) : State :=
  if startedIn svc h = false then .stopped
  else if ∃ reason, assertedIn svc reason h = true then .paused
  else .running

/-- One call with its entry in the history. -/
def trackedCall (cfg : LifecycleCfg) (σ : Authority × History) (c : Call) : Authority × History :=
  ((σ.1.call cfg c).2, (c, (σ.1.call cfg c).1.rc) :: σ.2)

/-! ## Tables and history -/

/-- The tables say of every handle what the history says. -/
def Agrees (s : Authority) (h : History) : Prop :=
  ∀ svc, s.started svc = startedIn svc h ∧
    ∀ reason, s.inhibited svc reason = assertedIn svc reason h

section Steps

variable {cfg : LifecycleCfg} {s : Authority} {h : History}

/-- A refused call is not in anyone's account. -/
theorem Agrees.refused (ha : Agrees s h) {c : Call} {rc : BbErr} (hrc : rc ≠ .ok) :
    Agrees s ((c, rc) :: h) := by
  intro svc
  cases c <;> cases rc <;> first | exact absurd rfl hrc | exact ha svc

theorem start_agrees (hinv : Inv cfg s) (ha : Agrees s h) (svc : Int) :
    Inv cfg (s.start svc).2 ∧
      Agrees (s.start svc).2 ((.start svc, (s.start svc).1.rc) :: h) := by
  rcases start_cases hinv svc with ⟨-, hout⟩ | ⟨sv, hsv, hstarted, hout⟩ | ⟨sv, hcommit⟩
  · rw [hout]
    exact ⟨hinv, ha.refused (by simp [Reply.silent])⟩
  · rw [hout]
    refine ⟨hinv, fun q => ⟨?_, (ha q).2⟩⟩
    show s.started q = if svc = q then true else startedIn q h
    split
    · rename_i hq
      simp [← hq, Authority.started, hsv, hstarted]
    · exact (ha q).1
  · have hrc : (s.start svc).1.rc = .ok := by
      rw [hcommit.out_eq]
      rfl
    refine ⟨hcommit.inv hinv, fun q => ⟨?_, fun r => ?_⟩⟩
    · rw [hcommit.started_eq, hrc, (ha q).1]
      simp only [startedIn, eq_comm]
    · rw [hcommit.inhibited_eq hinv, hrc]
      show _ = assertedIn q r h
      rw [← (ha q).2 r]
      split
      · rename_i hq
        rw [hq, Authority.inhibited, hcommit.service]
        rfl
      · rfl

theorem stop_agrees (hinv : Inv cfg s) (ha : Agrees s h) (svc : Int) :
    Inv cfg (s.stop svc).2 ∧
      Agrees (s.stop svc).2 ((.stop svc, (s.stop svc).1.rc) :: h) := by
  rcases stop_cases hinv svc with ⟨-, hout⟩ | ⟨sv, hsv, hstopped, hout⟩ | ⟨sv, hstarted, hcommit⟩
  · rw [hout]
    exact ⟨hinv, ha.refused (by simp [Reply.silent])⟩
  · have hoff : s.started svc = false := by simp [Authority.started, hsv, hstopped]
    rw [hout]
    refine ⟨hinv, fun q => ⟨?_, fun r => ?_⟩⟩
    · show s.started q = if svc = q then false else startedIn q h
      split
      · rename_i hq
        rw [← hq, hoff]
      · exact (ha q).1
    · show _ = if svc = q ∧ startedIn q h = true then false else assertedIn q r h
      rw [if_neg]
      · exact (ha q).2 r
      · rintro ⟨rfl, hon⟩
        rw [← (ha svc).1, hoff] at hon
        cases hon
  · have hon : startedIn svc h = true := by
      rw [← (ha svc).1, Authority.started, hcommit.service]
      exact hstarted
    have hrc : (s.stop svc).1.rc = .ok := by
      rw [hcommit.out_eq]
      rfl
    refine ⟨hcommit.inv hinv, fun q => ⟨?_, fun r => ?_⟩⟩
    · rw [hcommit.started_eq, hrc, (ha q).1]
      simp only [startedIn, eq_comm]
    · rw [hcommit.inhibited_eq hinv, hrc]
      show _ = if svc = q ∧ startedIn q h = true then false else assertedIn q r h
      by_cases hq : q = svc
      · subst hq
        rw [if_pos rfl, if_pos ⟨rfl, hon⟩, inhibitsReason]
        split
        · rfl
        · exact wordTest_replicate_zero ..
      · rw [if_neg hq, if_neg fun hand => hq hand.1.symm]
        exact (ha q).2 r

theorem pauseAssert_agrees (hinv : Inv cfg s) (ha : Agrees s h) (svc : Int) {reason : Bytes}
    (hshort : reason.length < cfg.reasonMax) :
    Inv cfg (s.pauseAssert cfg svc reason).2 ∧
      Agrees (s.pauseAssert cfg svc reason).2
        ((.pauseAssert svc reason, (s.pauseAssert cfg svc reason).1.rc) :: h) := by
  rcases pauseAssert_cases hinv svc hshort with
    ⟨rc, hrc, hout⟩ | ⟨sv, hsv, hheld, hout⟩ | ⟨sv, reasons', bit, hword, hcommit⟩
  · rw [hout]
    exact ⟨hinv, ha.refused hrc⟩
  · rw [hout]
    refine ⟨hinv, fun q => ⟨(ha q).1, fun r => ?_⟩⟩
    show _ = if svc = q ∧ reason = r then true else assertedIn q r h
    split
    · rename_i hq
      rw [← hq.1, ← hq.2, Authority.inhibited, hsv]
      exact hheld
    · exact (ha q).2 r
  · have hrc : (s.pauseAssert cfg svc reason).1.rc = .ok := by
      rw [hcommit.out_eq]
      rfl
    refine ⟨hcommit.inv hinv, fun q => ⟨?_, fun r => ?_⟩⟩
    · rw [hcommit.started_same rfl, hrc]
      exact (ha q).1
    · rw [hrc]
      show _ = if svc = q ∧ reason = r then true else assertedIn q r h
      by_cases hself : svc = q ∧ reason = r
      · obtain ⟨rfl, rfl⟩ := hself
        rw [if_pos ⟨rfl, rfl⟩, hcommit.inhibited_self hinv rfl, wordTest_wordSet hword]
        simp
      · rw [if_neg hself, hcommit.inhibited_off hinv rfl hself]
        exact (ha q).2 r

theorem pauseClear_agrees (hinv : Inv cfg s) (ha : Agrees s h) (svc : Int) {reason : Bytes}
    (hshort : reason.length < cfg.reasonMax) :
    Inv cfg (s.pauseClear cfg svc reason).2 ∧
      Agrees (s.pauseClear cfg svc reason).2
        ((.pauseClear svc reason, (s.pauseClear cfg svc reason).1.rc) :: h) := by
  rcases pauseClear_cases hinv svc hshort with
    ⟨-, hout⟩ | ⟨sv, hsv, hfree, hout⟩ | ⟨sv, bit, hcommit⟩
  · rw [hout]
    exact ⟨hinv, ha.refused (by simp [Reply.silent])⟩
  · rw [hout]
    refine ⟨hinv, fun q => ⟨(ha q).1, fun r => ?_⟩⟩
    show _ = if svc = q ∧ reason = r then false else assertedIn q r h
    split
    · rename_i hq
      rw [← hq.1, ← hq.2, Authority.inhibited, hsv]
      exact hfree
    · exact (ha q).2 r
  · have hrc : (s.pauseClear cfg svc reason).1.rc = .ok := by
      rw [hcommit.out_eq]
      rfl
    refine ⟨hcommit.inv hinv, fun q => ⟨?_, fun r => ?_⟩⟩
    · rw [hcommit.started_same rfl, hrc]
      exact (ha q).1
    · rw [hrc]
      show _ = if svc = q ∧ reason = r then false else assertedIn q r h
      by_cases hself : svc = q ∧ reason = r
      · obtain ⟨rfl, rfl⟩ := hself
        rw [if_pos ⟨rfl, rfl⟩, hcommit.inhibited_self hinv rfl, wordTest_wordClear]
        simp
      · rw [if_neg hself, hcommit.inhibited_off hinv rfl hself]
        exact (ha q).2 r

end Steps

section Steps

variable {cfg : LifecycleCfg} {s : Authority} {h : History}

/-- A new service is stopped and held by nobody. -/
theorem registered_view (hinv : Inv cfg s) {sv : Service} (hstopped : sv.started = false)
    (hzero : sv.inhibits = List.replicate cfg.inhibitWords 0) (q : Int) :
    let s' : Authority := { s with services := s.services ++ [sv] }
    Inv cfg s' ∧ s'.started q = s.started q ∧ ∀ r, s'.inhibited q r = s.inhibited q r := by
  have hbits (b : UInt8) : wordTest sv.inhibits b = false := by
    rw [hzero, wordTest_replicate_zero]
  have hfree (r : Bytes) : inhibitsReason s.reasons sv r = false := by
    unfold inhibitsReason
    split
    · rfl
    · exact hbits _
  have hout : s.service? s.services.length = none := by simp [Authority.service?]
  refine ⟨⟨hinv.nodup, hinv.reasons_le, fun x hx => ?_, fun x hx b hb => ?_⟩, ?_, fun r => ?_⟩
  · rcases List.mem_append.mp hx with hold | hnew
    · exact hinv.words x hold
    · rw [List.mem_singleton.mp hnew, hzero, List.length_replicate]
  · rcases List.mem_append.mp hx with hold | hnew
    · exact hinv.known x hold b hb
    · rw [List.mem_singleton.mp hnew, hbits] at hb
      cases hb
  · unfold Authority.started
    rw [service?_append]
    split
    · rename_i hq
      rw [hq, hout]
      exact hstopped
    · rfl
  · unfold Authority.inhibited
    rw [service?_append]
    split
    · rename_i hq
      rw [hq, hout]
      exact hfree r
    · rfl

/-- One call keeps the tables and the history in agreement. -/
theorem call_agrees (hinv : Inv cfg s) (ha : Agrees s h) {c : Call} (hshort : c.ShortReason cfg) :
    Inv cfg (s.call cfg c).2 ∧ Agrees (s.call cfg c).2 ((c, (s.call cfg c).1.rc) :: h) := by
  cases c with
  | register name =>
    rcases @register_cases cfg s name with ⟨rc, hrc, hout⟩ | ⟨sv, hstopped, hzero, hout⟩
    · rw [hout]
      exact ⟨hinv, ha.refused hrc⟩
    · rw [hout]
      refine ⟨(registered_view hinv hstopped hzero 0).1, fun q => ?_⟩
      obtain ⟨-, hstarted, hinhibited⟩ := registered_view hinv hstopped hzero q
      exact ⟨hstarted.trans (ha q).1, fun r => (hinhibited r).trans ((ha q).2 r)⟩
  | start svc => exact start_agrees hinv ha svc
  | stop svc => exact stop_agrees hinv ha svc
  | pauseAssert svc reason => exact pauseAssert_agrees hinv ha svc (hshort reason rfl)
  | pauseClear svc reason => exact pauseClear_agrees hinv ha svc (hshort reason rfl)

/-- What one call changes and delivers. -/
theorem call_changesExactly (hinv : Inv cfg s) {c : Call} (hshort : c.ShortReason cfg) :
    ChangesExactly cfg s c (s.call cfg c) := by
  cases c with
  | register name =>
    rcases @register_cases cfg s name with ⟨rc, hrc, hout⟩ | ⟨sv, hstopped, hzero, hout⟩
    · exact changesExactly_silent hout
    · have hview (q : Int) := (registered_view hinv hstopped hzero q).2
      rw [hout]
      exact
        { other_services := fun q x hx _ => by
            rw [service?_append, if_neg, hx]
            rintro rfl
            simp [Authority.service?] at hx
          other_reasons := fun _ _ hreason => by cases hreason
          effective := fun q hq => by
            rcases hq with hstarted | ⟨r, hr⟩
            · exact absurd (hview q).1 hstarted
            · exact absurd ((hview q).2 r) hr
          quiet := fun _ => ⟨rfl, .inr ⟨rfl, name, rfl⟩⟩
          failing := fun hrc => absurd rfl hrc }
  | start svc =>
    rcases start_cases hinv svc with ⟨-, hout⟩ | ⟨sv, -, -, hout⟩ | ⟨sv, hcommit⟩
    · exact changesExactly_silent hout
    · exact changesExactly_silent hout
    · exact hcommit.changesExactly hinv
  | stop svc =>
    rcases stop_cases hinv svc with ⟨-, hout⟩ | ⟨sv, -, -, hout⟩ | ⟨sv, -, hcommit⟩
    · exact changesExactly_silent hout
    · exact changesExactly_silent hout
    · exact hcommit.changesExactly hinv
  | pauseAssert svc reason =>
    rcases pauseAssert_cases hinv svc (hshort reason rfl) with
      ⟨rc, -, hout⟩ | ⟨sv, -, -, hout⟩ | ⟨sv, reasons', bit, -, hcommit⟩
    · exact changesExactly_silent hout
    · exact changesExactly_silent hout
    · exact hcommit.changesExactly hinv
  | pauseClear svc reason =>
    rcases pauseClear_cases hinv svc (hshort reason rfl) with
      ⟨-, hout⟩ | ⟨sv, -, -, hout⟩ | ⟨sv, bit, hcommit⟩
    · exact changesExactly_silent hout
    · exact changesExactly_silent hout
    · exact hcommit.changesExactly hinv

theorem state_eq_stateIn (hinv : Inv cfg s) (ha : Agrees s h) (svc : Int) :
    s.state svc = stateIn svc h := by
  obtain ⟨hstopped, hpaused⟩ := hinv.state_eq svc
  simp only [(ha svc).1, (ha svc).2] at hstopped hpaused
  unfold stateIn
  split
  · rename_i hoff
    exact hstopped.mpr hoff
  rename_i hon
  split
  · rename_i hheld
    exact hpaused.mpr ⟨by simpa using hon, hheld⟩
  · rename_i hfree
    cases hstate : s.state svc with
    | stopped => exact absurd (hstopped.mp hstate) hon
    | paused => exact absurd (hpaused.mp hstate).2 hfree
    | running => rfl

end Steps

/-! ## Every run -/

/-- The condition on runs: every reason named is short. -/
theorem along_shortReason {cfg : LifecycleCfg} {cs : List Call}
    (hshort : ∀ c ∈ cs, c.ShortReason cfg) (σ : Authority × History) :
    Along (trackedCall cfg) (fun _ c => c.ShortReason cfg) σ cs := by
  induction cs generalizing σ with
  | nil => trivial
  | cons c cs ih =>
    exact ⟨hshort c (List.mem_cons_self ..), ih (fun x hx => hshort x (List.mem_cons_of_mem _ hx)) _⟩

/--
After every run, the state of every service is the one its history gives it, and
the next call changes and delivers exactly what it should.
-/
theorem reasons_independent_events_exact (cfg : LifecycleCfg) (observers : List Bool)
    (emitBound : Bool) (cs : List Call) (hshort : ∀ c ∈ cs, c.ShortReason cfg) :
    let σ := run (trackedCall cfg) (.init observers emitBound, []) cs
    (∀ svc, σ.1.state svc = stateIn svc σ.2) ∧
      ∀ c : Call, c.ShortReason cfg → ChangesExactly cfg σ.1 c (σ.1.call cfg c) := by
  intro σ
  have hrun := along_shortReason hshort (.init observers emitBound, [])
  obtain ⟨hinv, ha⟩ : Inv cfg σ.1 ∧ Agrees σ.1 σ.2 := by
    refine run_invariant_along (I := fun σ => Inv cfg σ.1 ∧ Agrees σ.1 σ.2) ?_ ?_ hrun
    · rintro σ c ⟨hinv, ha⟩ hc
      exact call_agrees hinv ha hc
    · exact ⟨inv_init .., fun svc => by simp [Authority.init, Authority.started,
        Authority.inhibited, Authority.service?, startedIn, assertedIn]⟩
  exact ⟨fun svc => state_eq_stateIn hinv ha svc, fun c hc => call_changesExactly hinv hc⟩

/-- A pause asserted before the start holds the service once it is started. -/
theorem reasons_independent_events_exact_paused :
    let cs : List Call := [.register [110], .pauseAssert 0 [111], .start 0]
    let σ := run (trackedCall .default) (.init [false, true] true, []) cs
    σ.1.state 0 = .paused ∧ ChangesExactly .default σ.1 (.pauseClear 0 [111])
      (σ.1.call .default (.pauseClear 0 [111])) := by
  have hshort : ∀ c ∈ ([.register [110], .pauseAssert 0 [111], .start 0] : List Call),
      c.ShortReason .default := by
    intro c hc reason hreason
    simp only [List.mem_cons, List.not_mem_nil, or_false] at hc
    rcases hc with rfl | rfl | rfl <;> cases hreason
    decide
  have hall := reasons_independent_events_exact .default [false, true] true _ hshort
  refine ⟨by decide, hall.2 _ ?_⟩
  intro reason hreason
  cases hreason
  decide

end Lifecycle
end Breadboard
