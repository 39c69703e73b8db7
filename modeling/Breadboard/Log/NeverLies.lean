import Breadboard.Foundations.Runs
import Breadboard.Log.Writer
import Mathlib.Data.List.TakeWhile

/-!
# bb_log - what a flush may report

The numbers of the markers that have not been drained are above the last completed one,
and increase; a flush holds the lock from drawing its number to the end, so its number
is the largest one drawn.  Hence a completed number that has reached it is its own, and
what was enqueued before its marker has been written.  A give for its marker stays in
the semaphore until the flush itself takes it, since nobody else is in the section.

A flush can only be late in one way: the clock test finds the budget spent although the
give is already there.

Main result:

- Theorem `flush_never_lies`: every verdict of every run, and that a flush whose give
  is there ends.
-/

namespace Breadboard
namespace Log

open Foundations

variable {α τ : Type}

/-! ## Invariants -/

/-- The messages that have been enqueued and not drained. -/
def State.pending (s : State α τ) : List (Msg α) :=
  s.writer.held ++ s.queue

theorem accepted_eq (s : State α τ) : s.accepted = s.drained ++ s.pending := by
  simp [State.accepted, State.pending]

/-- What the writer has done, and what is still to be drained. -/
structure Ledger (s : State α τ) : Prop where
  written : s.drained.filterMap Msg.line? = s.written
  drained_le : ∀ k, Msg.marker k ∈ s.drained → k ≤ s.completed
  pending_gt : ∀ k, Msg.marker k ∈ s.pending → s.completed < k
  pending_le : ∀ k, Msg.marker k ∈ s.pending → k ≤ s.nextSeq
  sorted : (s.pending.filterMap Msg.seq?).Pairwise (· < ·)
  completed_le : s.completed ≤ s.nextSeq
  completed_mem : s.completed = 0 ∨ Msg.marker s.completed ∈ s.drained
  given_le : s.given ≤ s.completed
  giving : ∀ k, s.writer = .flushing k ∨ s.writer = .giving k → k = s.completed

/-- The number of a flush that waits, or is about to: it is the last one drawn. -/
def OwnGive (s : State α τ) (n : Nat) : Prop :=
  n = s.nextSeq ∧ Msg.marker n ∈ s.accepted

/-- What holds of the flush that has the lock. -/
def Stage (s : State α τ) : FlushPc → Prop
  | .idle | .locking => False
  | .sending n => (n = s.nextSeq ∧ 0 < n) ∧ ∀ k, Msg.marker k ∈ s.accepted → k < n
  | .sent n | .testing n _ | .taking n _ _ => OwnGive s n ∧ (n ≤ s.given → s.sem = true)
  | .deciding n _ => OwnGive s n
  | .unlocking _ => True

/-- A task that does not hold the lock is not in the section. -/
structure Calls (s : State α τ) : Prop where
  outside : ∀ t, s.lock ≠ some t → s.pc t = .idle ∨ s.pc t = .locking
  inside : ∀ t, s.lock = some t → Stage s (s.pc t)

structure Inv (s : State α τ) : Prop where
  ledger : Ledger s
  calls : Calls s

theorem inv_init : Inv (State.init α τ) where
  ledger := by
    constructor <;> simp [State.init, State.pending, WriterPc.held]
  calls := by
    constructor <;> simp [State.init]

/-! ## The moves -/

section Moves

variable [DecidableEq τ] (build : Build)

/-- What a step can do. -/
inductive Moves (s : State α τ) : State α τ → Prop where
  | stay : Moves s s
  | counted (now dropped : Nat) : Moves s { s with now := now, dropped := dropped }
  | enqueued (l : α) : Moves s { s with queue := s.queue ++ [Msg.line l] }
  | received (m : Msg α) (rest : List (Msg α)) (hwriter : s.writer = .waiting)
      (hqueue : s.queue = m :: rest) : Moves s { s with queue := rest, writer := .holding m }
  | wrote (l : α) (hwriter : s.writer = .holding (.line l)) :
      Moves s { s with
        written := s.written ++ [l], drained := s.drained ++ [Msg.line l], writer := .waiting }
  | published (k : Nat) (hwriter : s.writer = .holding (.marker k)) :
      Moves s { s with
        completed := k, drained := s.drained ++ [Msg.marker k], writer := .flushing k }
  | flushed (k : Nat) (hwriter : s.writer = .flushing k) : Moves s { s with writer := .giving k }
  | gave (k : Nat) (hwriter : s.writer = .giving k) :
      Moves s { s with sem := true, given := k, writer := .waiting }
  | called (t : τ) (hpc : s.pc t = .idle) : Moves s (s.goto t .locking)
  | locked (t : τ) (hpc : s.pc t = .locking) (hfree : s.lock = none) :
      Moves s ({ s with lock := some t, nextSeq := s.nextSeq + 1 }.goto t (.sending (s.nextSeq + 1)))
  | barred (t : τ) (hpc : s.pc t = .locking) :
      Moves s ({ s with timeouts := s.timeouts + 1 }.goto t .idle)
  | sends (t : τ) (n : Nat) (hpc : s.pc t = .sending n) :
      Moves s ({ s with queue := s.queue ++ [Msg.marker n] }.goto t (.sent n))
  | starts (t : τ) (n : Nat) (hpc : s.pc t = .sent n) : Moves s (s.goto t (.testing n s.now))
  | waits (t : τ) (n startTick untilTick : Nat) (hpc : s.pc t = .testing n startTick) :
      Moves s (s.goto t (.taking n startTick untilTick))
  | takes (t : τ) (n startTick untilTick : Nat) (hpc : s.pc t = .taking n startTick untilTick) :
      Moves s ({ s with sem := false }.goto t (.deciding n startTick))
  | retries (t : τ) (n startTick : Nat) (hpc : s.pc t = .deciding n startTick)
      (hretry : waitDecide true s.completed n = .retry) :
      Moves s (s.goto t (.testing n startTick))
  | ends (t : τ) (rc : BbErr) (timeouts : Nat) (hin : s.pc t ≠ .idle ∧ s.pc t ≠ .locking) :
      Moves s ({ s with timeouts := timeouts }.goto t (.unlocking rc))
  | unlocks (t : τ) (rc : BbErr) (hpc : s.pc t = .unlocking rc) :
      Moves s ({ s with lock := none }.goto t .idle)

variable {build} {s : State α τ}

theorem moves_logLine (l : α) : Moves s (logLine build s l) := by
  unfold logLine
  split
  · exact .enqueued l
  · exact .counted s.now (s.dropped + 1)

theorem moves_writerStep : Moves s (writerStep s) := by
  unfold writerStep
  split
  next hwriter =>
    split
    next => exact .stay
    next m rest hqueue => exact .received m rest hwriter hqueue
  next l hwriter => exact .wrote l hwriter
  next k hwriter => exact .published k hwriter
  next k hwriter => exact .flushed k hwriter
  next k hwriter => exact .gave k hwriter

theorem moves_flushStep (t : τ) : Moves s (flushStep build s t) := by
  unfold flushStep
  cases hpc : s.pc t with
  | idle => exact .stay
  | locking =>
    cases hlock : s.lock with
    | some u => exact .stay
    | none => exact .locked t hpc hlock
  | sending n =>
    dsimp only
    split
    · exact .sends t n hpc
    · exact .stay
  | sent n => exact .starts t n hpc
  | testing n startTick =>
    dsimp only
    split
    · exact .ends t .timeout (s.timeouts + 1) (by simp [hpc])
    · exact .waits t n startTick _ hpc
  | taking n startTick untilTick =>
    dsimp only
    split
    · exact .takes t n startTick untilTick hpc
    · exact .stay
  | deciding n startTick =>
    dsimp only
    split
    next => exact .ends t .ok s.timeouts (by simp [hpc])
    next hretry => exact .retries t n startTick hpc hretry
    next => exact .ends t .timeout (s.timeouts + 1) (by simp [hpc])
  | unlocking rc => exact .unlocks t rc hpc

theorem moves_expireStep (t : τ) : Moves s (expireStep build s t) := by
  unfold expireStep
  cases hpc : s.pc t with
  | locking =>
    dsimp only
    split
    · exact .barred t hpc
    · exact .stay
  | sending n =>
    dsimp only
    split
    · exact .stay
    · exact .ends t .timeout (s.timeouts + 1) (by simp [hpc])
  | taking n startTick untilTick =>
    dsimp only
    split
    · exact .ends t .timeout (s.timeouts + 1) (by simp [hpc])
    · exact .stay
  | idle | sent | testing | deciding | unlocking => exact .stay

theorem moves_step (s : State α τ) (a : Action α τ) : Moves s (step build s a) := by
  cases a with
  | log l => exact moves_logLine l
  | write => exact moves_writerStep
  | tick => exact .counted (s.now + 1) s.dropped
  | call t =>
    unfold step
    dsimp only
    split
    next hpc => exact .called t hpc
    next => exact .stay
  | advance t => exact moves_flushStep t
  | expire t => exact moves_expireStep t

end Moves

/-! ## Every move keeps the invariants -/

section Preserved

variable {s s' : State α τ}

theorem Calls.holder (h : Calls s) {t : τ} (hin : s.pc t ≠ .idle ∧ s.pc t ≠ .locking) :
    s.lock = some t := by
  by_contra hnot
  rcases h.outside t hnot with hpc | hpc
  · exact hin.1 hpc
  · exact hin.2 hpc

theorem Calls.stage (h : Calls s) {t : τ} {pc : FlushPc} (hpc : s.pc t = pc)
    (hin : pc ≠ .idle ∧ pc ≠ .locking) : s.lock = some t ∧ Stage s pc := by
  have hheld := h.holder (t := t) (by rw [hpc]; exact hin)
  exact ⟨hheld, hpc ▸ h.inside t hheld⟩

/-- A step that leaves the calls alone keeps them if it keeps each stage. -/
theorem Calls.frame (h : Calls s) (hlock : s'.lock = s.lock) (hpc : s'.pc = s.pc)
    (hstage : ∀ pc, Stage s pc → Stage s' pc) : Calls s' where
  outside t := by
    rw [hlock, hpc]
    exact h.outside t
  inside t := by
    rw [hlock, hpc]
    exact fun hheld => hstage _ (h.inside t hheld)

variable [DecidableEq τ]

/-- A step of the holder of the lock. -/
theorem Calls.own (h : Calls s) {t : τ} {pc : FlushPc} (hheld : s.lock = some t)
    (hlock : s'.lock = s.lock) (hpc : s'.pc = Function.update s.pc t pc)
    (hstage : Stage s' pc) : Calls s' where
  outside u hu := by
    rw [hlock] at hu
    have hne : u ≠ t := fun heq => hu (heq ▸ hheld)
    rw [hpc, Function.update_of_ne hne]
    exact h.outside u hu
  inside u hu := by
    rw [hlock, hheld] at hu
    cases hu
    rw [hpc, Function.update_self]
    exact hstage

/-- A step of a task that does not hold the lock, and stays out of the section. -/
theorem Calls.stranger (h : Calls s) {t : τ} {pc : FlushPc} (hnot : s.lock ≠ some t)
    (hlock : s'.lock = s.lock) (hpc : s'.pc = Function.update s.pc t pc)
    (hout : pc = .idle ∨ pc = .locking) (hstage : ∀ pc, Stage s pc → Stage s' pc) : Calls s' where
  outside u hu := by
    rw [hlock] at hu
    by_cases heq : u = t
    · subst heq
      rw [hpc, Function.update_self]
      exact hout
    · rw [hpc, Function.update_of_ne heq]
      exact h.outside u hu
  inside u hu := by
    rw [hlock] at hu
    have hne : u ≠ t := fun heq => hnot (heq ▸ hu)
    rw [hpc, Function.update_of_ne hne]
    exact hstage _ (h.inside u hu)

omit [DecidableEq τ] in
theorem Calls.not_holder (h : Calls s) {t : τ} (hout : s.pc t = .idle ∨ s.pc t = .locking) :
    s.lock ≠ some t := by
  intro hheld
  have hstage := h.inside t hheld
  rcases hout with hpc | hpc <;> rw [hpc] at hstage <;> exact hstage

omit [DecidableEq τ] in
/-- Stages survive what leaves the numbers alone, enqueues no marker and takes no give. -/
theorem Stage.mono {pc : FlushPc} (h : Stage s pc) (hnext : s'.nextSeq = s.nextSeq)
    (hmarkers : ∀ k, Msg.marker k ∈ s'.accepted ↔ Msg.marker k ∈ s.accepted)
    (hgive : ∀ n, (n ≤ s.given → s.sem = true) → n ≤ s'.given → s'.sem = true) :
    Stage s' pc := by
  cases pc with
  | idle | locking => exact h
  | sending n => exact ⟨⟨hnext ▸ h.1.1, h.1.2⟩, fun k hk => h.2 k ((hmarkers k).mp hk)⟩
  | sent n | testing n | taking n =>
    exact ⟨⟨hnext ▸ h.1.1, (hmarkers n).mpr h.1.2⟩, hgive n h.2⟩
  | deciding n => exact ⟨hnext ▸ h.1, (hmarkers n).mpr h.2⟩
  | unlocking rc => trivial

omit [DecidableEq τ] in
theorem Ledger.accepted_le (h : Ledger s) {k : Nat} (hk : Msg.marker k ∈ s.accepted) :
    k ≤ s.nextSeq := by
  rw [accepted_eq] at hk
  rcases List.mem_append.mp hk with hold | hpending
  · exact Nat.le_trans (h.drained_le k hold) h.completed_le
  · exact h.pending_le k hpending

omit [DecidableEq τ] in
/-- The number of a flush that is about to enqueue its marker has not been completed. -/
theorem Ledger.completed_lt (h : Ledger s) {n : Nat} (hstage : Stage s (.sending n)) :
    s.completed < n := by
  obtain ⟨⟨_, hpos⟩, habove⟩ := hstage
  rcases h.completed_mem with hzero | hmem
  · omega
  · exact habove _ (by rw [accepted_eq]; exact List.mem_append_left _ hmem)

theorem ledger_moves (h : Ledger s) (hcalls : Calls s) (hmoves : Moves s s') : Ledger s' := by
  have hledger := h
  obtain ⟨hwritten, hdrained, hgt, hle, hsorted, hcompleted, hmem, hgiven, hgiving⟩ := h
  cases hmoves with
  | stay | counted | called | barred | starts | waits | takes | retries | ends | unlocks =>
    exact ⟨hwritten, hdrained, hgt, hle, hsorted, hcompleted, hmem, hgiven, hgiving⟩
  | enqueued l =>
    refine ⟨hwritten, hdrained, ?_, ?_, ?_, hcompleted, hmem, hgiven, hgiving⟩
    · simpa [State.pending] using hgt
    · simpa [State.pending] using hle
    · simpa [State.pending, List.filterMap_cons, Msg.seq?] using hsorted
  | received m rest hwriter hqueue =>
    refine ⟨hwritten, hdrained, ?_, ?_, ?_, hcompleted, hmem, hgiven, by simp⟩
    · simpa [State.pending, hwriter, hqueue, WriterPc.held] using hgt
    · simpa [State.pending, hwriter, hqueue, WriterPc.held] using hle
    · simpa [State.pending, hwriter, hqueue, WriterPc.held] using hsorted
  | wrote l hwriter =>
    refine ⟨?_, by simpa using hdrained, ?_, ?_, ?_, hcompleted, by simpa using hmem, hgiven,
      by simp⟩
    · simp [hwritten, Msg.line?]
    · simpa [State.pending, hwriter, WriterPc.held] using hgt
    · simpa [State.pending, hwriter, WriterPc.held] using hle
    · simpa [State.pending, hwriter, WriterPc.held, List.filterMap_cons, Msg.seq?] using hsorted
  | published k hwriter =>
    have hpending : s.pending = Msg.marker k :: s.queue := by
      simp [State.pending, hwriter, WriterPc.held]
    rw [hpending] at hgt hle hsorted
    have hnew : s.completed < k := hgt k (by simp)
    obtain ⟨hfirst, hrest⟩ := List.pairwise_cons.mp hsorted
    refine ⟨by simp [hwritten, Msg.line?], ?_, ?_, ?_, hrest, hle k (by simp), .inr (by simp),
      ?_, by simp⟩
    · intro j hj
      rcases List.mem_append.mp hj with hold | hlast
      · exact Nat.le_trans (hdrained j hold) (Nat.le_of_lt hnew)
      · cases List.mem_singleton.mp hlast
        exact Nat.le_refl k
    · intro j hj
      exact hfirst j (List.mem_filterMap.mpr ⟨.marker j, hj, rfl⟩)
    · intro j hj
      exact hle j (List.mem_cons_of_mem _ hj)
    · exact Nat.le_trans hgiven (Nat.le_of_lt hnew)
  | flushed k hwriter =>
    refine ⟨hwritten, hdrained, ?_, ?_, ?_, hcompleted, hmem, hgiven, ?_⟩
    · simpa [State.pending, hwriter, WriterPc.held] using hgt
    · simpa [State.pending, hwriter, WriterPc.held] using hle
    · simpa [State.pending, hwriter, WriterPc.held] using hsorted
    · rintro j (hj | hj)
      · cases hj
      · cases hj
        exact hgiving k (.inl hwriter)
  | gave k hwriter =>
    refine ⟨hwritten, hdrained, ?_, ?_, ?_, hcompleted, hmem, ?_, by simp⟩
    · simpa [State.pending, hwriter, WriterPc.held] using hgt
    · simpa [State.pending, hwriter, WriterPc.held] using hle
    · simpa [State.pending, hwriter, WriterPc.held] using hsorted
    · exact Nat.le_of_eq (hgiving k (.inr hwriter))
  | locked t hpc hfree =>
    refine ⟨hwritten, hdrained, hgt, ?_, hsorted, Nat.le_succ_of_le hcompleted, hmem, hgiven,
      hgiving⟩
    intro k hk
    exact Nat.le_succ_of_le (hle k hk)
  | sends t n hpc =>
    have hstage := (hcalls.stage hpc (by simp)).2
    have hcompletedLt := hledger.completed_lt hstage
    obtain ⟨⟨hnext, _⟩, habove⟩ := hstage
    have hpending : ({ s with queue := s.queue ++ [Msg.marker n] }.goto t (.sent n)).pending =
        s.pending ++ [Msg.marker n] := by
      simp [State.pending, State.goto]
    refine ⟨hwritten, hdrained, ?_, ?_, ?_, hcompleted, hmem, hgiven, hgiving⟩
    · intro k hk
      rw [hpending] at hk
      rcases List.mem_append.mp hk with hold | hlast
      · exact hgt k hold
      · cases List.mem_singleton.mp hlast
        exact hcompletedLt
    · intro k hk
      rw [hpending] at hk
      rcases List.mem_append.mp hk with hold | hlast
      · exact hle k hold
      · cases List.mem_singleton.mp hlast
        exact Nat.le_of_eq hnext
    · rw [hpending, List.filterMap_append, List.pairwise_append]
      refine ⟨hsorted, by simp [Msg.seq?], ?_⟩
      intro j hj k hk
      obtain ⟨m, hm, hseq⟩ := List.mem_filterMap.mp hj
      cases m with
      | line l => cases hseq
      | marker i =>
        cases hseq
        cases List.mem_singleton.mp hk
        exact habove j (by rw [accepted_eq]; exact List.mem_append_right _ hm)

/-- Fewer than `2 ^ 31` numbers have been drawn since the last completed one. -/
def Near (s : State α τ) : Prop :=
  s.nextSeq < s.completed + 2 ^ 31

theorem calls_moves (h : Calls s) (hledger : Ledger s) (hnear : Near s) (hmoves : Moves s s') : Calls s' := by
  cases hmoves with
  | stay => exact h
  | counted now dropped =>
    exact h.frame rfl rfl fun pc hstage =>
      hstage.mono rfl (fun _ => Iff.rfl) fun _ hgive => hgive
  | enqueued l =>
    refine h.frame rfl rfl fun pc hstage => hstage.mono rfl ?_ (by simp)
    simp [State.accepted]
  | received m rest hwriter hqueue =>
    refine h.frame rfl rfl fun pc hstage => hstage.mono rfl ?_ (by simp)
    simp [State.accepted, hwriter, hqueue, WriterPc.held]
  | wrote l hwriter =>
    refine h.frame rfl rfl fun pc hstage => hstage.mono rfl ?_ (by simp)
    simp [State.accepted, hwriter, WriterPc.held]
  | published k hwriter =>
    refine h.frame rfl rfl fun pc hstage => hstage.mono rfl ?_ (by simp)
    simp [State.accepted, hwriter, WriterPc.held]
  | flushed k hwriter =>
    refine h.frame rfl rfl fun pc hstage => hstage.mono rfl ?_ (by simp)
    simp [State.accepted, hwriter, WriterPc.held]
  | gave k hwriter =>
    refine h.frame rfl rfl fun pc hstage => hstage.mono rfl ?_ (by simp)
    simp [State.accepted, hwriter, WriterPc.held]
  | called t hpc =>
    exact h.stranger (h.not_holder (.inl hpc)) rfl rfl (.inr rfl) fun pc hstage =>
      hstage.mono rfl (by simp [State.accepted, State.goto]) (by simp [State.goto])
  | barred t hpc =>
    exact h.stranger (h.not_holder (.inr hpc)) rfl rfl (.inl rfl) fun pc hstage =>
      hstage.mono rfl (by simp [State.accepted, State.goto]) (by simp [State.goto])
  | locked t hpc hfree =>
    constructor
    · intro u hu
      have hne : u ≠ t := fun heq => hu (heq ▸ rfl)
      have hout := h.outside u (by simp [hfree])
      rwa [goto_pc_of_ne _ hne]
    · intro u hu
      cases hu
      rw [goto_pc_self]
      refine ⟨⟨rfl, Nat.succ_pos _⟩, fun k hk => ?_⟩
      exact Nat.lt_succ_of_le (hledger.accepted_le hk)
  | sends t n hpc =>
    obtain ⟨hheld, hstage⟩ := h.stage hpc (by simp)
    have hfresh := hledger.completed_lt hstage
    refine h.own hheld rfl rfl ⟨⟨hstage.1.1, by simp [State.accepted, State.goto]⟩, ?_⟩
    intro hgiven
    have hle : s.given ≤ s.completed := hledger.given_le
    exact absurd (Nat.le_trans hgiven hle) (by omega)
  | starts t n hpc =>
    obtain ⟨hheld, hstage⟩ := h.stage hpc (by simp)
    exact h.own hheld rfl rfl hstage
  | waits t n startTick untilTick hpc =>
    obtain ⟨hheld, hstage⟩ := h.stage hpc (by simp)
    exact h.own hheld rfl rfl hstage
  | takes t n startTick untilTick hpc =>
    obtain ⟨hheld, hstage⟩ := h.stage hpc (by simp)
    exact h.own hheld rfl rfl hstage.1
  | retries t n startTick hpc hretry =>
    obtain ⟨hheld, hstage⟩ := h.stage hpc (by simp)
    refine h.own hheld rfl rfl ⟨hstage, fun hgiven => ?_⟩
    -- A give for its own marker would have ended the wait.
    have hreached : n ≤ s.completed := Nat.le_trans hgiven hledger.given_le
    rw [waitDecide_true_eq (hstage.1 ▸ hledger.completed_le) (hstage.1 ▸ hnear),
      if_pos hreached] at hretry
    cases hretry
  | ends t rc timeouts hin => exact h.own (h.holder hin) rfl rfl trivial
  | unlocks t rc hpc =>
    obtain ⟨hheld, _⟩ := h.stage hpc (by simp)
    constructor
    · intro u _
      by_cases heq : u = t
      · subst heq
        simp [State.goto]
      · have hout := h.outside u (by rw [hheld]; exact fun hsame => heq (Option.some.inj hsame).symm)
        rwa [goto_pc_of_ne _ heq]
    · intro u hu
      cases hu

variable (build : Build)

theorem inv_step (h : Inv s) (a : Action α τ) (hnear : Near s) : Inv (step build s a) where
  ledger := ledger_moves h.ledger h.calls (moves_step s a)
  calls := calls_moves h.calls h.ledger hnear (moves_step s a)

end Preserved

/-! ## Verdicts -/

section Verdicts

variable {s : State α τ}

/-- What a flush may report. -/
def Verdict.Honest (v : Verdict α) : Prop :=
  (v.rc = .ok → v.before <+: v.written) ∧ (v.delivered = true → v.rc = .ok ∨ v.spent = true)

/-- The lines before a marker that has been drained have been written. -/
theorem Ledger.linesBefore_written (h : Ledger s) {n : Nat} (hdrained : Msg.marker n ∈ s.drained) :
    s.linesBefore n <+: s.written := by
  have hstop : ¬ ∀ m ∈ s.drained, decide (m.seq? ≠ some n) = true := by
    intro hall
    simpa [Msg.seq?] using hall _ hdrained
  rw [State.linesBefore, accepted_eq, List.takeWhile_append, if_neg]
  · rw [← h.written]
    exact (List.takeWhile_prefix _).filterMap _
  · intro hlength
    apply hstop
    rw [← List.takeWhile_eq_self_iff]
    exact (List.takeWhile_prefix _).eq_of_length hlength

/-- The decision after a take: the flush is done exactly if its marker has been drained. -/
theorem OwnGive.done_iff {n : Nat} (h : OwnGive s n) (hledger : Ledger s) (hnear : Near s) :
    waitDecide true s.completed n = .done ↔ Msg.marker n ∈ s.drained := by
  obtain ⟨hnext, hmem⟩ := h
  rw [waitDecide_true_eq (hnext ▸ hledger.completed_le) (hnext ▸ hnear)]
  constructor
  · intro hdone
    have hreached : n ≤ s.completed := by
      by_contra hnot
      rw [if_neg hnot] at hdone
      cases hdone
    rw [accepted_eq] at hmem
    rcases List.mem_append.mp hmem with hold | hpending
    · exact hold
    · exact absurd (hledger.pending_gt n hpending) (Nat.not_lt.mpr hreached)
  · intro hdrained
    rw [if_pos (hledger.drained_le n hdrained)]

theorem waitDecide_true_ne_timeout (completedSeq targetSeq : Nat) :
    waitDecide true completedSeq targetSeq ≠ .timeout := by
  unfold waitDecide
  split
  · contradiction
  · split <;> simp

/-- The marker of the last give has been drained. -/
theorem OwnGive.drained {n : Nat} (h : OwnGive s n) (hledger : Ledger s) (hgiven : n ≤ s.given) :
    Msg.marker n ∈ s.drained := by
  have hmem := h.2
  rw [accepted_eq] at hmem
  rcases List.mem_append.mp hmem with hold | hpending
  · exact hold
  · exact absurd (hledger.pending_gt n hpending)
      (Nat.not_lt.mpr (Nat.le_trans hgiven hledger.given_le))

variable [DecidableEq τ] (build : Build)

omit [DecidableEq τ] in
theorem honest_verdicts (h : Inv s) (hnear : Near s) (a : Action α τ) :
    ∀ v ∈ verdicts build s a, v.Honest := by
  intro v hv
  cases a with
  | log | write | tick | call => cases hv
  | advance t =>
    unfold verdicts at hv
    dsimp only at hv
    cases hpc : s.pc t with
    | idle | locking | sending | sent | taking | unlocking =>
      rw [hpc] at hv
      cases hv
    | testing n startTick =>
      simp only [hpc] at hv
      split at hv
      · cases List.mem_singleton.mp hv
        exact ⟨by simp [State.verdict], fun _ => .inr rfl⟩
      · cases hv
    | deciding n startTick =>
      obtain ⟨_, hown⟩ := h.calls.stage hpc (by simp)
      simp only [hpc] at hv
      cases hdecide : waitDecide true s.completed n with
      | done =>
        rw [hdecide] at hv
        cases List.mem_singleton.mp hv
        have hdrained := (OwnGive.done_iff hown h.ledger hnear).mp hdecide
        exact ⟨fun _ => h.ledger.linesBefore_written hdrained, fun _ => .inl rfl⟩
      | retry =>
        rw [hdecide] at hv
        cases hv
      | timeout => exact absurd hdecide (waitDecide_true_ne_timeout _ _)
  | expire t =>
    unfold verdicts at hv
    dsimp only at hv
    cases hpc : s.pc t with
    | idle | locking | sending | sent | testing | deciding | unlocking =>
      rw [hpc] at hv
      cases hv
    | taking n startTick untilTick =>
      obtain ⟨_, _, hready⟩ := h.calls.stage hpc (by simp)
      simp only [hpc] at hv
      split at hv
      next hempty =>
        cases List.mem_singleton.mp hv
        refine ⟨by simp [State.verdict], fun hdelivered => ?_⟩
        -- Its give would still be in the semaphore.
        have hfull := hready (by simpa [State.verdict] using hdelivered)
        rw [hempty.1] at hfull
        cases hfull
      next => cases hv

/-- Once its give is there, each own step of a flush brings it nearer to the end of its wait. -/
theorem stepsLeft_decreases (h : Inv s) (hnear : Near s) {t : τ} {n : Nat}
    (hwaits : (s.pc t).waits? = some n) (hgiven : n ≤ s.given) :
    ((step build s (.advance t)).pc t).stepsLeft < (s.pc t).stepsLeft := by
  unfold step flushStep
  dsimp only
  cases hpc : s.pc t with
  | idle | locking | sending | unlocking =>
    rw [hpc] at hwaits
    cases hwaits
  | sent m => simp [FlushPc.stepsLeft]
  | testing m startTick =>
    dsimp only
    split <;> simp [State.giveUp, FlushPc.stepsLeft]
  | taking m startTick untilTick =>
    rw [hpc] at hwaits
    cases hwaits
    obtain ⟨_, _, hready⟩ := h.calls.stage hpc (by simp)
    simp [hready hgiven, FlushPc.stepsLeft]
  | deciding m startTick =>
    rw [hpc] at hwaits
    cases hwaits
    obtain ⟨_, hown⟩ := h.calls.stage hpc (by simp)
    have hdone := (OwnGive.done_iff hown h.ledger hnear).mpr (OwnGive.drained hown h.ledger hgiven)
    simp [hdone, FlushPc.stepsLeft]

/--
Along every run, with fewer than `2 ^ 31` numbers drawn since the last completed one: a
flush reports `BB_OK` only when every line enqueued before its marker has been written; one
whose give has been delivered reports `BB_OK` unless a clock test finds its budget spent; and
from the give on each step of the flush brings it nearer to its report.
-/
theorem flush_never_lies (as : List (Action α τ))
    (hnear : Along (step build) (fun s _ => Near s) (State.init α τ) as) :
    (∀ v ∈ outputs (step build) (verdicts build) (State.init α τ) as,
      (v.rc = .ok → v.before <+: v.written) ∧
        (v.delivered = true → v.rc = .ok ∨ v.spent = true)) ∧
      ∀ t n, Near (run (step build) (State.init α τ) as) →
        ((run (step build) (State.init α τ) as).pc t).waits? = some n →
        n ≤ (run (step build) (State.init α τ) as).given →
        ((run (step build) (State.init α τ) (as ++ [.advance t])).pc t).stepsLeft <
          ((run (step build) (State.init α τ) as).pc t).stepsLeft := by
  have hstep : ∀ (s : State α τ) a, Inv s → Near s → Inv (step build s a) := fun s a hinv hs =>
    inv_step build hinv a hs
  refine ⟨forall_outputs (step build) hstep
    (fun s a hinv hs => honest_verdicts build hinv hs a) inv_init hnear, ?_⟩
  intro t n hlast hwaits hgiven
  have hinv : Inv (run (step build) (State.init α τ) as) := run_invariant_along hstep inv_init hnear
  rw [run_append]
  exact stepsLeft_decreases build hinv hlast hwaits hgiven

end Verdicts

/-! ## Inputs -/

/-- A tick of 10 ms. -/
def hundredHz : Build where
  queueLen := 4
  tickPeriodMs := 10
  tickRateHz := 100

/-- A flush up to its start tick, and the writer up to the give for its marker. -/
def givenInTime : List (Action Nat Nat) :=
  [.call 0, .advance 0, .advance 0, .advance 0] ++ List.replicate 4 .write

theorem flush_never_lies_after_give :
    ((run (step hundredHz) (State.init Nat Nat) (givenInTime ++ [.advance 0])).pc 0).stepsLeft <
      ((run (step hundredHz) (State.init Nat Nat) givenInTime).pc 0).stepsLeft :=
  (flush_never_lies hundredHz givenInTime (by simp [Near, givenInTime]; decide +kernel)).2 0 1
    (by simp [Near, givenInTime]; decide +kernel) (by decide +kernel) (by decide +kernel)

/--
The give for the marker is there at the start tick of the flush, which next tests the clock
after its budget, and reports `BB_ERR_TIMEOUT`.
-/
theorem flush_late_after_give :
    (run (step hundredHz) (State.init Nat Nat) givenInTime).given = 1 ∧
      (run (step hundredHz) (State.init Nat Nat) givenInTime).pc 0 = .testing 1 0 ∧
      (run (step hundredHz) (State.init Nat Nat) givenInTime).now = 0 ∧
      (outputs (step hundredHz) (verdicts hundredHz) (State.init Nat Nat)
        (givenInTime ++ List.replicate 100 .tick ++ [.advance 0])).map Verdict.rc = [.timeout] := by
  decide +kernel

end Log
end Breadboard
