import Mathlib.Data.List.Nodup
import Breadboard.DataHttp.Sweep
import Breadboard.Foundations.ClaimLedger

/-!
# bb_data_http - concurrent push_pump callers

Any number of callers run `bb_data_http_push_pump` while producers publish.
A caller's steps are the ones between which another task can run: reading the
generation outside the lock, the locked CLAIM, the unlocked render, and the
locked COMMIT or REVOKE.

A claim that is still open owns the generations between the one it replaced and
the one it claimed.  As long as no CLAIM arrives with a generation older than
the last claimed one, open claims own disjoint ranges at or below the last
claimed generation, and no committed generation lies in an open range.

Main result:

- Theorem `pump_safe_iff_not_overtaken`: over every run, one commit per
  generation and a last claimed generation that only REVOKE lowers hold exactly
  when no generation read is overtaken before its CLAIM.
-/

namespace Breadboard
namespace DataHttp
namespace ClaimProtocol

open Foundations

variable {cfg : Config} {ι : Type} [DecidableEq ι]

/-! ## Callers and their steps -/

/-- Where a caller stands between two of its steps. -/
inductive Phase (cfg : Config) where
  | idle
  | looking (k : Nat)
  | read (k : Nat) (gen : UInt32)
  | claimed (k : Nat) (gen prevGen : UInt32)
  | rendered (k : Nat) (gen prevGen : UInt32) (frame : Frame cfg)
  | failed (k : Nat) (gen prevGen : UInt32)

/-- The shared state and the callers; `committed` is the proof-only commit log. -/
structure State (cfg : Config) (ι : Type) where
  table : AttachTable
  renderInstalled : Bool
  events : EventRing cfg
  renderFailCount : UInt32
  env : Env cfg
  callers : ι → Phase cfg
  committed : List (Nat × UInt32)

/-- One step of a producer or of caller `i`; `ok` is the status of a seam call. -/
inductive Act (cfg : Config) (ι : Type) where
  | publish (b : Bump cfg)
  | start (i : ι)
  | readGen (i : ι) (ok : Bool)
  | claim (i : ι)
  | render (i : ι) (ok : Bool)
  | finish (i : ι)

namespace State

/-- Move caller `i`. -/
def goto (s : State cfg ι) (i : ι) (p : Phase cfg) : State cfg ι :=
  { s with callers := Function.update s.callers i p }

/-- The kind check and the unlocked generation read for attach index `k`. -/
def readGen (s : State cfg ι) (i : ι) (k : Nat) (ok : Bool) : State cfg ι :=
  match s.table[k]? with
  | none => s.goto i .idle
  | some slot =>
    if slot.kind ≠ .event then s.goto i (.looking (k + 1))
    else if ok then s.goto i (.read k (s.env.sources slot.key).gen)
    else s.goto i (.looking (k + 1))

/-- The locked CLAIM. -/
def claim (s : State cfg ι) (i : ι) (k : Nat) (gen : UInt32) : State cfg ι :=
  let c := s.events.claim k gen
  match c.1 with
  | none => s.goto i (.looking (k + 1))
  | some prevGen =>
    { s with events := c.2 }.goto i
      (if s.renderInstalled then .claimed k gen prevGen else .looking (k + 1))

/-- The unlocked render of the key's current value. -/
def render (s : State cfg ι) (i : ι) (k : Nat) (gen prevGen : UInt32) (ok : Bool) : State cfg ι :=
  match ok, s.table[k]? with
  | true, some slot => s.goto i (.rendered k gen prevGen (s.env.sources slot.key).frame)
  | _, _ =>
    { s with renderFailCount := s.renderFailCount + 1 }.goto i (.failed k gen prevGen)

/-- The locked COMMIT. -/
def commit (s : State cfg ι) (i : ι) (k : Nat) (gen : UInt32) (frame : Frame cfg) : State cfg ι :=
  { s with
    events := s.events.commit k gen frame
    committed := if s.events.lastGen k = gen then s.committed ++ [(k, gen)] else s.committed
    }.goto i (.looking (k + 1))

/-- The locked REVOKE. -/
def revoke (s : State cfg ι) (i : ι) (k : Nat) (gen prevGen : UInt32) : State cfg ι :=
  { s with events := s.events.revoke k gen prevGen }.goto i (.looking (k + 1))

/-- One step; a step that the caller's phase does not allow changes nothing. -/
def step (s : State cfg ι) : Act cfg ι → State cfg ι
  | .publish b => { s with env := s.env.publish b }
  | .start i =>
    match s.callers i with
    | .idle => s.goto i (.looking 0)
    | _ => s
  | .readGen i ok =>
    match s.callers i with
    | .looking k => s.readGen i k ok
    | _ => s
  | .claim i =>
    match s.callers i with
    | .read k gen => s.claim i k gen
    | _ => s
  | .render i ok =>
    match s.callers i with
    | .claimed k gen prevGen => s.render i k gen prevGen ok
    | _ => s
  | .finish i =>
    match s.callers i with
    | .rendered k gen _ frame => s.commit i k gen frame
    | .failed k gen prevGen => s.revoke i k gen prevGen
    | _ => s

/-- The step is a REVOKE. -/
def IsRevoke (s : State cfg ι) (a : Act cfg ι) : Prop :=
  ∃ i k gen prevGen, a = .finish i ∧ s.callers i = .failed k gen prevGen

/-- The step is not a CLAIM of a generation older than the last claimed one. -/
def NotOvertaken (s : State cfg ι) (a : Act cfg ι) : Prop :=
  ∀ i k gen, a = .claim i → s.callers i = .read k gen → s.events.lastGen k ≤ gen

/-- The step lowers no last claimed generation, unless it is a REVOKE. -/
def KeepsLastGen (s : State cfg ι) (a : Act cfg ι) : Prop :=
  ¬ s.IsRevoke a → ∀ k, s.events.lastGen k ≤ (s.step a).events.lastGen k

/-- No caller is active and nothing has been committed. -/
structure Initial (s : State cfg ι) : Prop where
  idle : ∀ i, s.callers i = .idle
  committed_nil : s.committed = []

/-! ## The claim ledger of a state -/

end State

/-- The open claim a phase holds. -/
def Phase.openClaim : Phase cfg → Option (Claim Nat Nat)
  | .claimed k gen prevGen | .rendered k gen prevGen _ | .failed k gen prevGen =>
    some { key := k, version := gen.toNat, previous := prevGen.toNat }
  | _ => none

namespace State

/-- The abstract ledger: last claimed generations, open claims and commits. -/
def ledger (s : State cfg ι) : ClaimLedger Nat Nat ι where
  last k := (s.events.lastGen k).toNat
  opens i := (s.callers i).openClaim
  committed := s.committed.map fun entry => (entry.1, entry.2.toNat)

/-- Moving a caller changes the claim it holds and nothing else. -/
theorem ledger_goto (s : State cfg ι) (i : ι) (p : Phase cfg) :
    (s.goto i p).ledger = s.ledger.hold i p.openClaim := by
  have hopens : (fun j => (Function.update s.callers i p j).openClaim) =
      Function.update (fun j => (s.callers j).openClaim) i p.openClaim := by
    funext j
    by_cases hj : j = i
    · subst hj
      simp
    · simp [Function.update_of_ne hj]
  simp only [ledger, goto, ClaimLedger.hold, hopens]

/-- A move that keeps the claim of the caller keeps the ledger. -/
theorem ledger_goto_of_eq {s : State cfg ι} {i : ι} {p : Phase cfg}
    (h : (s.callers i).openClaim = p.openClaim) : (s.goto i p).ledger = s.ledger := by
  rw [ledger_goto, ← h]
  simp only [ClaimLedger.hold, ledger]
  congr 1
  exact Function.update_eq_self i fun j => (s.callers j).openClaim

theorem toNat_update (lastGen : Nat → UInt32) (k : Nat) (gen : UInt32) :
    (fun j => (Function.update lastGen k gen j).toNat) =
      Function.update (fun j => (lastGen j).toNat) k gen.toNat := by
  funext j
  by_cases hj : j = k
  · subst hj
    simp
  · simp [Function.update_of_ne hj]

/-! ## Each step keeps the ledger sound -/

theorem readGen_ledger {s : State cfg ι} {i : ι} {k : Nat} (ok : Bool)
    (hphase : s.callers i = .looking k) : (s.readGen i k ok).ledger = s.ledger := by
  unfold readGen
  split
  · exact ledger_goto_of_eq (by rw [hphase]; rfl)
  split
  · exact ledger_goto_of_eq (by rw [hphase]; rfl)
  split
  · exact ledger_goto_of_eq (by rw [hphase]; rfl)
  · exact ledger_goto_of_eq (by rw [hphase]; rfl)

theorem claim_sound {s : State cfg ι} (h : s.ledger.Sound) {i : ι} {k : Nat} {gen : UInt32}
    (hphase : s.callers i = .read k gen) (hle : s.events.lastGen k ≤ gen) :
    (s.claim i k gen).ledger.Sound := by
  unfold claim
  simp only [EventRing.claim_fst]
  split
  · rw [ledger_goto_of_eq (by rw [hphase]; rfl)]
    exact h
  · rename_i prevGen hclaim
    split at hclaim
    · cases hclaim
    rename_i hne
    cases hclaim
    have hlt : s.ledger.last k < gen.toNat :=
      Nat.lt_of_le_of_ne hle fun heq => hne (UInt32.toNat_inj.mp heq).symm
    have hlast : ({ s with events := (s.events.claim k gen).2 } : State cfg ι).ledger =
        { s.ledger with last := Function.update s.ledger.last k gen.toNat } := by
      simp only [ledger, EventRing.claim_lastGen, toNat_update]
    rw [ledger_goto, hlast]
    by_cases hrender : s.renderInstalled = true
    · rw [if_pos hrender]
      exact h.openClaim i hlt
    · rw [if_neg hrender]
      exact h.skip i hlt.le

theorem render_ledger {s : State cfg ι} {i : ι} {k : Nat} {gen prevGen : UInt32} (ok : Bool)
    (hphase : s.callers i = .claimed k gen prevGen) :
    (s.render i k gen prevGen ok).ledger = s.ledger := by
  unfold render
  split
  · exact ledger_goto_of_eq (by rw [hphase]; rfl)
  · exact ledger_goto_of_eq (by rw [hphase]; rfl)

theorem commit_sound {s : State cfg ι} (h : s.ledger.Sound) {i : ι} {k : Nat}
    {gen prevGen : UInt32} {frame : Frame cfg}
    (hphase : s.callers i = .rendered k gen prevGen frame) :
    (s.commit i k gen frame).ledger.Sound := by
  have hopen : s.ledger.opens i =
      some { key := k, version := gen.toNat, previous := prevGen.toNat } :=
    congrArg Phase.openClaim hphase
  unfold commit
  rw [ledger_goto]
  split
  · rename_i hcurrent
    have hsound := h.commit hopen (congrArg UInt32.toNat hcurrent)
    simpa only [ledger, EventRing.commit_lastGen, List.map_append, List.map_cons, List.map_nil,
      ClaimLedger.commit, Phase.openClaim] using hsound
  · simpa only [ledger, EventRing.commit_lastGen, Phase.openClaim] using h.close i

theorem revoke_sound {s : State cfg ι} (h : s.ledger.Sound) {i : ι} {k : Nat}
    {gen prevGen : UInt32} (hphase : s.callers i = .failed k gen prevGen) :
    (s.revoke i k gen prevGen).ledger.Sound := by
  have hopen : s.ledger.opens i =
      some { key := k, version := gen.toNat, previous := prevGen.toNat } :=
    congrArg Phase.openClaim hphase
  unfold revoke
  rw [ledger_goto]
  by_cases hcurrent : s.events.lastGen k = gen
  · have hsound := h.restore hopen (congrArg UInt32.toNat hcurrent)
    simpa only [ledger, EventRing.revoke_lastGen, if_pos hcurrent, toNat_update,
      ClaimLedger.restore, Phase.openClaim] using hsound
  · simpa only [ledger, EventRing.revoke_lastGen, if_neg hcurrent, Phase.openClaim]
      using h.close i

/-- One step that is not an overtaken CLAIM keeps the ledger sound. -/
theorem step_sound {s : State cfg ι} {a : Act cfg ι} (h : s.ledger.Sound)
    (hstep : s.NotOvertaken a) : (s.step a).ledger.Sound := by
  cases a with
  | publish b => exact h
  | start i =>
    simp only [step]
    split
    · rename_i hphase
      rw [ledger_goto_of_eq (by rw [hphase]; rfl)]
      exact h
    · exact h
  | readGen i ok =>
    simp only [step]
    split
    · rename_i k hphase
      rw [readGen_ledger ok hphase]
      exact h
    · exact h
  | claim i =>
    simp only [step]
    split
    · rename_i k gen hphase
      exact claim_sound h hphase (hstep i k gen rfl hphase)
    · exact h
  | render i ok =>
    simp only [step]
    split
    · rename_i k gen prevGen hphase
      rw [render_ledger ok hphase]
      exact h
    · exact h
  | finish i =>
    simp only [step]
    split
    · rename_i k gen prevGen frame hphase
      exact commit_sound h hphase
    · rename_i k gen prevGen hphase
      exact revoke_sound h hphase
    · exact h

/-! ## The last claimed generation -/

theorem goto_events (s : State cfg ι) (i : ι) (p : Phase cfg) : (s.goto i p).events = s.events :=
  rfl

theorem readGen_events (s : State cfg ι) (i : ι) (k : Nat) (ok : Bool) :
    (s.readGen i k ok).events = s.events := by
  unfold readGen
  split
  · rfl
  split
  · rfl
  split <;> rfl

theorem render_events (s : State cfg ι) (i : ι) (k : Nat) (gen prevGen : UInt32) (ok : Bool) :
    (s.render i k gen prevGen ok).events = s.events := by
  unfold render
  split <;> rfl

theorem claim_lastGen (s : State cfg ι) (i : ι) (k : Nat) (gen : UInt32) :
    (s.claim i k gen).events.lastGen = Function.update s.events.lastGen k gen := by
  unfold claim
  simp only [EventRing.claim_fst]
  split
  · rename_i hclaim
    split at hclaim
    · rename_i heq
      rw [goto_events, heq, Function.update_eq_self]
    · cases hclaim
  · rw [goto_events]
    exact s.events.claim_lastGen k gen

/-- A step lowers a last claimed generation exactly as a REVOKE or an overtaken CLAIM. -/
theorem keepsLastGen_iff {s : State cfg ι} {a : Act cfg ι} :
    s.KeepsLastGen a ↔ s.NotOvertaken a := by
  constructor
  · rintro hkeeps i k gen rfl hphase
    have hnot : ¬ s.IsRevoke (.claim i) := by
      rintro ⟨_, _, _, _, hact, _⟩
      cases hact
    have hle := hkeeps hnot k
    simpa [step, hphase, claim_lastGen] using hle
  · intro hstep hnot k
    cases a with
    | publish b => exact UInt32.le_refl _
    | start i =>
      simp only [step]
      split <;> exact UInt32.le_refl _
    | readGen i ok =>
      simp only [step]
      split
      · rw [readGen_events]
        exact UInt32.le_refl _
      · exact UInt32.le_refl _
    | claim i =>
      simp only [step]
      split
      · rename_i j gen hphase
        rw [claim_lastGen]
        by_cases hk : k = j
        · subst hk
          simpa using hstep i k gen rfl hphase
        · simp [Function.update_of_ne hk]
      · exact UInt32.le_refl _
    | render i ok =>
      simp only [step]
      split
      · rw [render_events]
        exact UInt32.le_refl _
      · exact UInt32.le_refl _
    | finish i =>
      simp only [step]
      split
      · rw [commit, goto_events, EventRing.commit_lastGen]
        exact UInt32.le_refl _
      · rename_i j gen prevGen hphase
        exact absurd ⟨i, j, gen, prevGen, rfl, hphase⟩ hnot
      · exact UInt32.le_refl _

end State

/-! ## Whole runs -/

/-- No generation of a key is committed twice and only REVOKE lowers the last claimed one. -/
def PumpSafe (s : State cfg ι) (as : List (Act cfg ι)) : Prop :=
  (run State.step s as).committed.Nodup ∧ Along State.step State.KeepsLastGen s as

/-- A run without overtaken reads keeps the claim ledger sound. -/
theorem run_sound {s : State cfg ι} (hinit : s.Initial) {as : List (Act cfg ι)}
    (hrun : Along State.step State.NotOvertaken s as) :
    (run State.step s as).ledger.Sound := by
  have hsound : s.ledger.Sound := by
    apply ClaimLedger.sound_of_empty
    · intro i
      simp [State.ledger, hinit.idle i, Phase.openClaim]
    · simp [State.ledger, hinit.committed_nil]
  have hstep (t : State cfg ι) (a : Act cfg ι) (ht : t.ledger.Sound) (ha : t.NotOvertaken a) :
      (t.step a).ledger.Sound := State.step_sound ht ha
  exact run_invariant_along hstep hsound hrun

/--
Over every interleaving, the protocol is safe exactly when every CLAIM finds a last
claimed generation that is not newer than the one its caller read.
-/
theorem pump_safe_iff_not_overtaken {s : State cfg ι} (hinit : s.Initial)
    (as : List (Act cfg ι)) :
    PumpSafe s as ↔ Along State.step State.NotOvertaken s as := by
  have hsame : @State.KeepsLastGen cfg ι _ = State.NotOvertaken := by
    funext t a
    exact propext State.keepsLastGen_iff
  constructor
  · intro hsafe
    exact hsame ▸ hsafe.2
  · intro hrun
    exact ⟨List.Nodup.of_map _ (run_sound hinit hrun).nodup, hsame.symm ▸ hrun⟩

/-! ## A read that is overtaken -/

/-- One EVENT key, published at generation zero; callers are `true` and `false`. -/
def onePublisher : State Config.default Bool where
  table := [{ key := [107], topic := [116], kind := .event, minIntervalMs := 0, boundAt := 0 }]
  renderInstalled := true
  events := EventRing.init Config.default
  renderFailCount := 0
  env :=
    { sources := fun _ => { gen := 0, frame := Frame.empty Config.default }
      clock := 0
      script := [] }
  callers := fun _ => .idle
  committed := []

/-- One whole pass of a caller over the one-key table. -/
def fullPass (i : Bool) : List (Act Config.default Bool) :=
  [.start i, .readGen i true, .claim i, .render i true, .finish i, .readGen i true]

/-- A caller reads generation 1 and stalls while the other one commits 1 and 2. -/
def staleRead : List (Act Config.default Bool) :=
  [.publish { key := [107], gen := 1, frame := Frame.empty Config.default },
    .start false, .readGen false true] ++
  fullPass true ++
  [.publish { key := [107], gen := 2, frame := Frame.empty Config.default }] ++
  fullPass true ++
  [.claim false, .render false true, .finish false]

/-- The stalled caller moves the last claimed generation back and commits generation 1 again. -/
theorem stale_read_commits_twice :
    ¬ ∀ (s : State Config.default Bool) (as : List (Act Config.default Bool)),
      s.Initial → PumpSafe s as := by
  intro hall
  have hsafe := hall onePublisher staleRead ⟨fun _ => rfl, rfl⟩
  have hlog : (run State.step onePublisher staleRead).committed = [(0, 1), (0, 2), (0, 1)] := by
    decide +kernel
  exact absurd (hlog ▸ hsafe.1) (by decide)

/-- A single uninterrupted pass is not overtaken. -/
theorem pump_safe_iff_not_overtaken_fullPass :
    PumpSafe onePublisher (fullPass true) ↔
      Along State.step State.NotOvertaken onePublisher (fullPass true) :=
  pump_safe_iff_not_overtaken ⟨fun _ => rfl, rfl⟩ (fullPass true)

end ClaimProtocol
end DataHttp
end Breadboard
