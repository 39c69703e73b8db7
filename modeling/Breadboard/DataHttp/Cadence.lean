import Breadboard.DataHttp.SweepFrame

/-!
# bb_data_http - the cadence gate over unbounded uptime

A key with a cadence is withheld while the signed difference between its due
instant and the clock, both mod `2^32`, is positive.  The due instant lies at
most twice the attach cap ahead of the clock, so before it the gate is right.  Past
it the difference grows with the time the key stays clean, and it turns positive
again once the key is more than `2^31` milliseconds overdue.

Main result:

- Theorem `gate_respects_cadence_iff`: every gate decision of every run
  withholds a key only within its cadence exactly when the key was never
  scheduled, or is within its cadence, or is overdue by at most half a clock period.
-/

namespace Breadboard
namespace DataHttp

open Queue Foundations

variable {cfg : Config}

/-! ## The property -/

/-- Fewer than the interval and the phase have passed since the last successful render. -/
def Gate.WithinCadence (g : Gate) : Prop :=
  ∃ r, g.lastRender = some r ∧ g.now < r + g.interval.toNat + g.phase.toNat

/-- The key is withheld only within its cadence. -/
def Gate.RespectsCadence (g : Gate) : Prop :=
  g.withheld = true → g.WithinCadence

/-- The due instant has passed by at most half a period of the clock. -/
def Gate.RecentlyDue (g : Gate) (due : Nat) : Prop :=
  due ≤ g.now ∧ (g.now - due) % 2 ^ 32 ≤ 2 ^ 31

/-- The key was never scheduled, or is within its cadence, or became due recently. -/
def Gate.ClockAgrees (g : Gate) : Prop :=
  g.due = none ∨ g.WithinCadence ∨ ∃ due, g.due = some due ∧ g.RecentlyDue due

/-! ## The gate on the unbounded clock -/

/-- The largest `min_interval_ms` any Kconfig cap admits. -/
def intervalCap : Nat := 86400000

/-- A logged decision is the signed comparison of the due instant with the clock. -/
structure Gate.Sound (g : Gate) : Prop where
  withheld_iff : g.withheld = true ↔
    ∃ due, g.due = some due ∧ 0 < signedDiff (UInt32.ofNat due) (UInt32.ofNat g.now)
  due_le : ∀ due, g.due = some due → due ≤ g.now + 2 * intervalCap

/-- Between the cap and half a period, the comparison is wrong only for long overdue keys. -/
theorem signedDiff_pos_iff_not_recent {due now : Nat} (hle : due ≤ now + 2 * intervalCap) :
    0 < signedDiff (UInt32.ofNat due) (UInt32.ofNat now) ↔
      ¬ (due ≤ now ∧ (now - due) % 2 ^ 32 ≤ 2 ^ 31) := by
  rw [signedDiff_pos_iff]
  simp only [intervalCap] at hle
  omega

theorem Gate.Sound.respects_iff {g : Gate} (h : g.Sound) :
    g.RespectsCadence ↔ g.ClockAgrees := by
  unfold RespectsCadence ClockAgrees
  rw [h.withheld_iff]
  cases hdue : g.due with
  | none => simp
  | some due =>
    have htest := signedDiff_pos_iff_not_recent (h.due_le due hdue)
    simp only [Option.some.injEq, exists_eq_left', reduceCtorEq, false_or, htest, RecentlyDue]
    tauto

/-! ## The schedule of a poll block -/

/-- The words of the poll block stand for the unbounded schedule. -/
structure Clocked (clock : Nat) (p : PollState cfg) : Prop where
  never_iff : ∀ k, k < 32 → (p.neverRenderedMask.getLsbD k = true ↔ p.due k = none)
  next_eq : ∀ k due, p.due k = some due → p.nextDueMs k = UInt32.ofNat due
  due_le : ∀ k due, p.due k = some due → due ≤ clock + 2 * intervalCap
  gates : ∀ g ∈ p.gates, g.Sound

theorem Clocked.fresh (clock : Nat) (dirty : BitVec 32) :
    Clocked clock { PollState.fresh cfg with dirtyMask := dirty } where
  never_iff k hk := by
    simp only [PollState.fresh, BitVec.getLsbD_allOnes, hk, decide_true]
  next_eq k due h := by cases h
  due_le k due h := by cases h
  gates g hg := by cases hg

theorem Clocked.mono {clock clock' : Nat} {p : PollState cfg} (h : Clocked clock p)
    (hle : clock ≤ clock') : Clocked clock' p where
  never_iff := h.never_iff
  next_eq := h.next_eq
  due_le k due hdue := Nat.le_trans (h.due_le k due hdue) (Nat.add_le_add_right hle _)
  gates := h.gates

/-- A change of fields the schedule does not mention. -/
theorem Clocked.of_eq {clock : Nat} {p p' : PollState cfg} (h : Clocked clock p)
    (hnever : p'.neverRenderedMask = p.neverRenderedMask) (hnext : p'.nextDueMs = p.nextDueMs)
    (hdue : p'.due = p.due) (hgates : p'.gates = p.gates) : Clocked clock p' where
  never_iff k hk := by rw [hnever, hdue]; exact h.never_iff k hk
  next_eq k due hk := by rw [hnext]; exact h.next_eq k due (hdue ▸ hk)
  due_le k due hk := h.due_le k due (hdue ▸ hk)
  gates g hg := h.gates g (hgates ▸ hg)

/-- The phase of a key is below its interval. -/
theorem phase_lt (slot : AttachSlot) (h : 0 < slot.minIntervalMs) :
    slot.phase.toNat < slot.minIntervalMs.toNat := by
  simp only [AttachSlot.phase, UInt32.toNat_mod]
  exact Nat.mod_lt _ h

/-- A reschedule moves the due instant by the interval and the phase. -/
theorem Clocked.reschedule {env : Env cfg} {p : PollState cfg} (h : Clocked env.clock p)
    {slot : AttachSlot} (hcap : slot.minIntervalMs.toNat ≤ intervalCap) (k : Nat) :
    Clocked env.clock (p.reschedule slot k env) := by
  unfold PollState.reschedule
  split
  · rename_i hpos
    have hphase := phase_lt slot hpos
    refine ⟨fun j hj => ?_, fun j due hdue => ?_, fun j due hdue => ?_, h.gates⟩
    · rw [getLsbD_clearBit _ hj]
      by_cases hjk : j = k
      · subst hjk
        simp
      · simpa [hjk, Function.update_of_ne hjk] using h.never_iff j hj
    · by_cases hjk : j = k
      · subst hjk
        simp only [Function.update_self, Option.some.injEq] at hdue
        simp only [Function.update_self, ← hdue, Env.nowMs, UInt32.ofNat_add, UInt32.ofNat_toNat]
      · simp only [Function.update_of_ne hjk] at hdue ⊢
        exact h.next_eq j due hdue
    · by_cases hjk : j = k
      · subst hjk
        simp only [Function.update_self, Option.some.injEq] at hdue
        omega
      · simp only [Function.update_of_ne hjk] at hdue
        exact h.due_le j due hdue
  · exact h

/-- The gate test, on the unbounded schedule. -/
theorem Clocked.withheld_iff {env : Env cfg} {p : PollState cfg} (h : Clocked env.clock p)
    {slot : AttachSlot} (hpos : 0 < slot.minIntervalMs) {k : Nat} (hk : k < 32) :
    p.withheld slot k env = true ↔
      ∃ due, p.due k = some due ∧ 0 < signedDiff (UInt32.ofNat due) (UInt32.ofNat env.clock) := by
  have hnever := h.never_iff k hk
  simp only [PollState.withheld, decide_eq_true_eq, hpos, true_and, Env.nowMs]
  cases hdue : p.due k with
  | none =>
    simp only [hdue, iff_true] at hnever
    simp [hnever]
  | some due =>
    have hmask : p.neverRenderedMask.getLsbD k = false := by
      rw [hdue] at hnever
      simpa using hnever
    simp [hmask, h.next_eq k due hdue]

theorem Clocked.logGate {env : Env cfg} {p : PollState cfg} (h : Clocked env.clock p)
    (slot : AttachSlot) {k : Nat} (hk : k < 32) : Clocked env.clock (p.logGate slot k env) := by
  unfold PollState.logGate
  split
  · rename_i hpos
    refine ⟨h.never_iff, h.next_eq, h.due_le, fun g hg => ?_⟩
    rcases List.mem_append.mp hg with hold | hnew
    · exact h.gates g hold
    · rw [List.mem_singleton.mp hnew]
      exact ⟨h.withheld_iff hpos hk, fun due hdue => h.due_le k due hdue⟩
  · exact h

theorem Clocked.detect {clock : Nat} {p : PollState cfg} (h : Clocked clock p) (k : Nat)
    (gen : UInt32) : Clocked clock (p.detect k gen) := by
  unfold PollState.detect
  split
  · exact h
  · exact h.of_eq rfl rfl rfl rfl

/-- One iteration of the STATE drain keeps the schedule. -/
theorem StateDrain.drainKey_clocked (seams : Seams) {table : AttachTable}
    (hlen : table.length ≤ maxAttach)
    (hcap : ∀ slot ∈ table, slot.minIntervalMs.toNat ≤ intervalCap) {d : StateDrain cfg} {k : Nat}
    (hk : k < table.length) (h : Clocked d.env.clock d.poll) :
    Clocked (d.drainKey seams table k).env.clock (d.drainKey seams table k).poll := by
  have hk32 : k < 32 := Nat.lt_of_lt_of_le hk (Nat.le_trans hlen (by decide))
  unfold drainKey
  split
  · exact h
  split
  · exact h
  rename_i slot hslot
  have hslotCap := hcap slot (List.mem_of_getElem? hslot)
  have hclean {clock : Nat} {p : PollState cfg} (hp : Clocked clock p) :
      Clocked clock (p.clean k) := hp.of_eq rfl rfl rfl rfl
  split
  · exact (hclean h).reschedule hslotCap k
  have hgate := h.logGate slot hk32
  split
  · exact hgate
  have hrendered := hgate.mono (d.env.later_renderFn slot.key).clock_le
  unfold renderKey
  simp only
  split
  · exact hrendered
  · exact ((hclean hrendered).reschedule hslotCap k).of_eq rfl rfl rfl rfl

/-! ## Whole runs -/

/-- The attach cap bounds every interval in the table. -/
structure Capped (table : AttachTable) : Prop where
  length_le : table.length ≤ maxAttach
  interval_le : ∀ slot ∈ table, slot.minIntervalMs.toNat ≤ intervalCap

theorem Capped.attach {table : AttachTable} (h : Capped table) (now : Nat) (a : AttachCfg) :
    Capped (attach cfg now table a).2 := by
  refine ⟨attach_length_le cfg now a h.length_le, ?_⟩
  have hcap := cfg.minIntervalMaxMs_range.2
  unfold DataHttp.attach
  split
  · exact h.interval_le
  split
  · exact h.interval_le
  rename_i hinterval
  have hnew : a.minIntervalMs.toNat ≤ intervalCap := by
    simp only [intervalCap]
    omega
  split
  · split
    · intro slot' hslot'
      obtain ⟨slot, hslot, rfl⟩ := List.mem_map.mp hslot'
      split
      · exact hnew
      · exact h.interval_le slot hslot
    split
    · exact h.interval_le
    · intro slot hslot
      rcases List.mem_append.mp hslot with hold | hlast
      · exact h.interval_le slot hold
      · rw [List.mem_singleton.mp hlast]
        exact hnew
  · exact h.interval_le

namespace World

/-- The schedule invariant as a property of poll blocks. -/
def clockedProp (cfg : Config) : PollProp cfg :=
  fun _ _ _ _ env p => Clocked env.clock p

theorem clocked_invariant : PollInvariant Capped (fun _ => True) (clockedProp cfg) where
  later h hlater := h.mono hlater.clock_le
  detect _ _ h := h.detect _ _
  drainKey htable _ hk h :=
    StateDrain.drainKey_clocked _ htable.length_le htable.interval_le hk h

/-- The invariant of the module. -/
structure Scheduled (w : World cfg) : Prop where
  capped : Capped w.table
  clocked : PollHolds (clockedProp cfg) w

theorem init_scheduled (seams : Seams) (sources : Bytes → Source cfg) (clock : Nat) :
    Scheduled (init seams sources clock) where
  capped := ⟨Nat.zero_le _, fun slot hslot => by cases hslot⟩
  clocked i c p hc := by cases hc

/-- Writing one slot keeps the invariant when the new client's schedule is sound. -/
theorem Scheduled.update {w : World cfg} (h : Scheduled w) (idx ticks : Nat)
    (client : Option (Client cfg))
    (hclient : ∀ c p, client = some c → c.poll = some p → Clocked w.env.clock p) :
    Scheduled { w with clients := Function.update w.clients idx client, ticks := ticks } := by
  refine ⟨h.capped, fun i c p hc hp => ?_⟩
  rcases update_eq_some hc with ⟨-, hnew⟩ | ⟨-, hold⟩
  · exact hclient c p hnew hp
  · exact h.clocked i c p hold hp

/-- Every action keeps the schedules sound. -/
theorem step_scheduled {w : World cfg} (h : Scheduled w) (a : Action cfg) :
    Scheduled (w.step a) := by
  have hlater {env : Env cfg} (hle : Env.Later w.env env) : Scheduled { w with env := env } :=
    ⟨h.capped, fun i c p hc hp => (h.clocked i c p hc hp).mono hle.clock_le⟩
  cases a with
  | attach a => exact ⟨h.capped.attach (w.ticks + 1) a, h.clocked⟩
  | acquire c =>
    simp only [step]
    split
    · exact h
    rename_i i client hacquire
    apply h.update
    intro d p hd hp
    cases hd
    obtain ⟨-, -, out, -, rfl⟩ := acquire_ok hacquire
    simp only [Client.fresh] at hp
    split at hp
    · cases hp
      exact Clocked.fresh _ _
    · cases hp
  | release i => exact h.update i w.ticks none (by simp)
  | requestRelease i =>
    apply h.update i w.ticks
    intro d p hd hp
    obtain ⟨c, hc, rfl⟩ := Option.map_eq_some_iff.mp hd
    exact h.clocked i c p hc hp
  | setSeams s => exact ⟨h.capped, h.clocked⟩
  | publish b => exact hlater (w.env.later_publish b)
  | elapse ms => exact hlater (w.env.later_elapse ms)
  | sweep script =>
    have hready := hlater (w.env.later_script script)
    have hframe := sweepStep_frame { w with env := { w.env with script := script } }
    refine ⟨?_, sweepStep_pollHolds clocked_invariant h.capped trivial hready.clocked⟩
    rw [step, hframe.table_eq]
    exact h.capped

end World

/--
Every gate decision of every run withholds a key only within its cadence exactly when the
key was never scheduled, is within its cadence, or is overdue by at most half a period.
-/
theorem gate_respects_cadence_iff (seams : Seams) (sources : Bytes → Source cfg) (clock : Nat)
    (as : List (Action cfg)) (i : Nat) (c : Client cfg) (p : PollState cfg) (g : Gate)
    (hclient : (run World.step (World.init seams sources clock) as).clients i = some c)
    (hpoll : c.poll = some p) (hgate : g ∈ p.gates) :
    g.RespectsCadence ↔ g.ClockAgrees := by
  have hstep (w : World cfg) (a : Action cfg) (h : w.Scheduled) : (w.step a).Scheduled :=
    World.step_scheduled h a
  have hreach := run_invariant hstep (World.init_scheduled seams sources clock) as
  have hclocked : Clocked _ p := hreach.clocked i c p hclient hpoll
  exact (hclocked.gates g hgate).respects_iff

/-! ## A key that stays clean for 25 days -/

/-- A key with a cadence of one minute, rendered once for one client. -/
def renderedOnce : List (Action Config.default) :=
  [.attach { key := some [115], topic := some [116], kind := .state, snapSize := 0,
             minIntervalMs := 60000 },
    .acquire { topicFilter := none, subscribeMask := 0, nonBlocking := false, hasSendFn := false,
               hasAbortFn := false, lifetime := .durable },
    .sweep []]

/-- The key stays clean for `ms` milliseconds, then changes and a sweep runs. -/
def changedAfter (ms : Nat) : List (Action Config.default) :=
  renderedOnce ++
  [.elapse ms, .publish { key := [115], gen := 1, frame := Frame.empty Config.default }, .sweep []]

/-- Some gate decision of the first client satisfies `P`. -/
def anyGate (as : List (Action Config.default)) (P : Gate → Bool) : Bool :=
  ((World.after as).clients 0).any fun c => c.poll.any fun p => p.gates.any P

theorem anyGate_eq_true {as : List (Action Config.default)} {P : Gate → Bool}
    (h : anyGate as P = true) :
    ∃ c p g, (World.after as).clients 0 = some c ∧ c.poll = some p ∧ g ∈ p.gates ∧
      P g = true := by
  obtain ⟨c, hc, hany⟩ := (Option.any_eq_true _ _).mp h
  obtain ⟨p, hp, hany'⟩ := (Option.any_eq_true _ _).mp hany
  obtain ⟨g, hg, hP⟩ := List.any_eq_true.mp hany'
  exact ⟨c, p, g, hc, hp, hg, hP⟩

/-- Clean for `2^31 + 200000` milliseconds, the key is withheld long after it was due. -/
theorem overdue_key_withheld :
    ¬ ∀ (as : List (Action Config.default)) (i : Nat) (c : Client Config.default)
        (p : PollState Config.default) (g : Gate),
      (World.after as).clients i = some c → c.poll = some p → g ∈ p.gates →
        g.RespectsCadence := by
  intro hall
  have hwithheld : anyGate (changedAfter (2 ^ 31 + 200000)) (fun g => g.withheld &&
      g.lastRender.all fun r => r + g.interval.toNat + g.phase.toNat ≤ g.now) = true := by
    decide +kernel
  obtain ⟨c, p, g, hc, hp, hg, hP⟩ := anyGate_eq_true hwithheld
  rw [Bool.and_eq_true] at hP
  obtain ⟨r, hr, hlt⟩ := hall _ 0 c p g hc hp hg hP.1
  have hle := hP.2
  rw [hr, Option.all_some, decide_eq_true_eq] at hle
  omega

/-- Clean for one second only, the key is withheld within its cadence. -/
theorem gate_respects_cadence_iff_changedAfter :
    ∃ c p g, (World.after (changedAfter 1000)).clients 0 = some c ∧
      c.poll = some p ∧ g ∈ p.gates ∧ g.withheld = true ∧ g.RespectsCadence := by
  have hwithheld : anyGate (changedAfter 1000) (fun g => g.withheld &&
      g.lastRender.any fun r => g.now < r + g.interval.toNat + g.phase.toNat) = true := by
    decide +kernel
  obtain ⟨c, p, g, hc, hp, hg, hP⟩ := anyGate_eq_true hwithheld
  rw [Bool.and_eq_true] at hP
  obtain ⟨r, hr, hlt⟩ := (Option.any_eq_true _ _).mp hP.2
  refine ⟨c, p, g, hc, hp, hg, hP.1, ?_⟩
  apply (gate_respects_cadence_iff _ _ _ (changedAfter 1000) 0 c p g hc hp hg).mpr
  exact Or.inr (Or.inl ⟨r, hr, by simpa using hlt⟩)

end DataHttp
end Breadboard
