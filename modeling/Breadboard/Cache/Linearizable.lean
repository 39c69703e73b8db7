import Breadboard.Cache.Simulation
import Breadboard.Cache.Steps

/-!
# The cache is a linearizable map of incarnations

Each operation takes effect at the lock section that shows it, which lies between
its call and its return.  So a run is a sequential history of the map of
incarnations, in the order of the sections.

Main results:

- Theorem `linearizable_map`: every run shows a legal history of the map.
-/

namespace Breadboard
namespace Cache

open Foundations

universe u

variable {τ : Type u} [DecidableEq τ]

/-! ## Fewer transitions than the counter can tell apart -/

/--
Since its lookup the slot has been filled and freed fewer than `2 ^ 32` times, when
the caller comes to the entry's lock.
-/
def Pc.GenerationKept (table : Table) : Pc → Prop
  | .lookedUp _ ref => table.generation ref.slot < ref.generation + 2 ^ 32
  | _ => True

/-- The caller that moves finds its slot within the range of the counter. -/
def GenerationKept (s : State τ) : Action τ → Prop
  | .advance t _ => (s.pc t).GenerationKept s.table
  | _ => True

/-- What a caller remembers of a slot is not ahead of the slot. -/
def RefsBehind (s : State τ) : Prop :=
  ∀ t op ref, s.pc t = .lookedUp op ref → ref.generation ≤ s.table.generation ref.slot

theorem eq_of_sameGeneration {a b : Nat} (h : SameGeneration a b) (hle : b ≤ a)
    (hlt : a < b + 2 ^ 32) : a = b := by
  have hmod : a % 2 ^ 32 = b % 2 ^ 32 := by
    have hnat := congrArg UInt32.toNat h
    simpa using hnat
  omega

theorem refsBehind_step (s : State τ) (a : Action τ) (h : RefsBehind s) :
    RefsBehind (s.step a) := by
  intro t op ref hpc
  have hmono := generation_mono s a ref.slot
  cases step_pc s a t with
  | same hsame =>
    rw [hsame] at hpc
    exact Nat.le_trans (h t op ref hpc) hmono
  | settled hsettled =>
    rw [hpc] at hsettled
    exact hsettled.elim
  | looked op' ref' hlooked hfind htable =>
    rw [hlooked] at hpc
    cases hpc
    obtain ⟨slot, _, rfl⟩ := Option.map_eq_some_iff.mp hfind
    exact hmono
  | tested op' ref' seen htested =>
    rw [htested] at hpc
    cases hpc

omit [DecidableEq τ] in
theorem actsOnLooked_act (op : Op) (t : τ) {x : Target} (hx : x.id = x.looked) (e : Entry)
    (snap : Option Memory) (now : Nat) : ∀ o ∈ (op.act t x e snap now).1, o.ActsOnLooked := by
  intro o ho
  cases op with
  | update req =>
    simp only [Op.act] at ho
    split at ho <;> rw [List.mem_singleton.mp ho] <;> exact hx
  | getRaw key cap =>
    simp only [Op.act] at ho
    split at ho <;> rw [List.mem_singleton.mp ho]
    · exact hx
    · trivial
  | snapshot key cap =>
    simp only [Op.act] at ho
    split at ho <;> rw [List.mem_singleton.mp ho]
    · exact hx
    · trivial
  | stateVersion key =>
    rw [List.mem_singleton.mp ho]
    exact hx
  | sweep key rest => cases ho

/-- A step within the range of the counter acts on what its lookup saw. -/
theorem shows_actsOnLooked (s : State τ) (a : Action τ) (h : RefsBehind s)
    (hkept : GenerationKept s a) : ∀ o ∈ s.shows a, o.ActsOnLooked := by
  intro o ho
  cases shown_cases ho with
  | plain hplain => cases o <;> trivial
  | acted t op ref e snap hact hpc hmatch hmem =>
    subst hact
    have hlt : s.table.generation ref.slot < ref.generation + 2 ^ 32 := by
      simpa [GenerationKept, Pc.GenerationKept, hpc] using hkept
    have hgen := eq_of_sameGeneration (Table.stored_of_entryMatches hmatch).2 (h t op ref hpc) hlt
    exact actsOnLooked_act op t (congrArg (EntryRef.mk ref.slot) hgen) e snap s.now o hmem
  | evicted t op ref seen snap id hact hpc hfreed heq =>
    rw [heq]
    trivial

/-! ## Runs -/

/--
Every run shows a legal history of the map of incarnations, whose live incarnations are
the used slots; no two slots carry one key; each caller has fired the hook once for every
slot it freed, or is about to; and operations act on what their lookup found as long as
no slot turns over `2 ^ 32` times in between.
-/
theorem linearizable_map (maxTopics : Nat) (as : List (Action τ)) :
    (∃ m, replay Incarnations.apply Incarnations.init (history maxTopics as) = some m ∧
      (State.after maxTopics as).table.Holds (State.after maxTopics as).now m) ∧
    (∀ i j k e e', (State.after maxTopics as).table.Stored i k e →
      (State.after maxTopics as).table.Stored j k e' → i = j) ∧
    (∀ t, removals t (history maxTopics as) =
      notifications t (history maxTopics as) ++ ((State.after maxTopics as).pc t).owed) ∧
    (Along State.step GenerationKept (State.init maxTopics) as →
      ∀ o ∈ history maxTopics as, o.ActsOnLooked) := by
  have hinit : Simulates (State.init maxTopics : State τ) Incarnations.init :=
    ⟨holds_init maxTopics 0, fun _ => rfl⟩
  obtain ⟨m, hreplay, hsim⟩ := replay_outputs step_simulates hinit as
  refine ⟨⟨m, hreplay, hsim.holds⟩, fun i j k e e' hi hj => hsim.holds.slot_unique hi hj, ?_, ?_⟩
  · intro t
    have heq := removals_eq hreplay t
    rwa [hsim.owed t] at heq
  · intro hkept
    have hbehind : RefsBehind (State.init maxTopics : State τ) := by
      intro t op ref hpc
      cases hpc
    exact forall_outputs State.step (fun s a h _ => refsBehind_step s a h)
      (fun s a h hk => shows_actsOnLooked s a h hk) hbehind hkept

/-! ## Runs of one key -/

/-- An owned entry of one byte. -/
def byteCfg : Config where
  key := [107]
  snapshot := false
  snapSize := 1
  eviction := { policy := .pinned, staleAgeMs := 0, evictAgeMs := 0 }

/-- Write the byte. -/
def byteReq (b : UInt8) : UpdateReq where
  key := [107]
  snap := fun _ => b
  tsMs := 0

/-- Register, write, read, delete. -/
def byteRun : List (Action Bool) :=
  [.start true (.register byteCfg true), .start true (.update (byteReq 7)), .advance true none,
    .start false (.snapshot [107] 1), .advance false none, .start true (.delete [107]),
    .advance true none]

example : history 1 byteRun =
    [.registered true ⟨0, 1⟩ byteCfg 0, .updated true ⟨[107], ⟨0, 1⟩, ⟨0, 1⟩⟩ [7] 0 (some 1),
      .read false ⟨[107], ⟨0, 1⟩, ⟨0, 1⟩⟩ none [7] (some 1), .removed true [107] ⟨0, 1⟩ false,
      .notified true [107]] := by
  decide +kernel

/-! ## Reads before the first write, and counters that wrapped -/

/-- A read returns the last write of its incarnation, or its cold-start seed. -/
def ReadsWritten (os : List (Obs τ)) : Prop :=
  ∀ sofar t x seed bytes version rest m inc,
    os = sofar ++ .read t x seed bytes version :: rest →
    replay Incarnations.apply Incarnations.init sofar = some m → m.live x.key = some inc →
    (∃ w ws, inc.writes = w :: ws ∧ bytes = w.bytes) ∨ (inc.ask seed).asked.join = some bytes

/-- Register and read. -/
def coldRun : List (Action Bool) :=
  [.start true (.register byteCfg true), .start true (.getRaw [107] 1), .advance true none]

theorem history_coldRun :
    history 1 coldRun =
      [.registered true ⟨0, 1⟩ byteCfg 0] ++
        [.read true ⟨[107], ⟨0, 1⟩, ⟨0, 1⟩⟩ none [0] none] := by
  decide +kernel

/-- Another caller deletes the key and registers it again. -/
def turnover : List (Action Bool) :=
  [.start false (.delete [107]), .advance false none, .start false (.register byteCfg true)]

/-- A caller has looked the key up at generation 1; its slot is now at `gen`. -/
structure Waiting (gen : Nat) (s : State Bool) : Prop where
  entries : s.table.entries = [some ([107], byteCfg.entry (some [0]) 0)]
  generation : s.table.generation 0 = gen
  now : s.now = 0
  waits : s.pc true = .lookedUp (.update (byteReq 7)) ⟨0, 1⟩
  idle : s.pc false = .idle

theorem waiting_turnover {gen : Nat} {s : State Bool} (h : Waiting gen s) :
    Waiting (gen + 2) (run State.step s turnover) := by
  obtain ⟨hentries, hgen, hnow, hwaits, hidle⟩ := h
  constructor <;>
    simp [turnover, State.step, State.act, State.start, State.advance, State.goto, State.register,
      Table.delete, Table.teardown, Table.register, Table.fill, Table.findEntryLockedRef, Slots.findEntry,
      Slots.findFree, Slots.holds, hentries, hgen, hnow, hwaits, hidle, Config.valid, byteCfg,
      keyMax]

theorem waiting_turnovers (n : Nat) {gen : Nat} {s : State Bool} (h : Waiting gen s) :
    Waiting (gen + 2 * n) (run State.step s (List.replicate n turnover).flatten) := by
  induction n generalizing gen s with
  | zero => exact h
  | succ n ih =>
    have hnext := ih (waiting_turnover h)
    rw [List.replicate_succ, List.flatten_cons, run_append]
    have hgen : gen + 2 * (n + 1) = gen + 2 + 2 * n := by omega
    rwa [hgen]

/-- The last section of the update writes, and shows the generation it found. -/
theorem waiting_writes {gen : Nat} {s : State Bool} (h : Waiting gen s)
    (hgen : SameGeneration gen 1) :
    Obs.updated true ⟨[107], ⟨0, 1⟩, ⟨0, gen⟩⟩ [7] 0 (some 1) ∈
      s.shows (.advance true none) := by
  obtain ⟨hentries, rfl, hnow, hwaits, hidle⟩ := h
  simp [State.shows, State.act, State.advance, hwaits, State.locked, Table.entryMatches, hentries,
    hgen, hnow, Op.key, byteReq, Op.evicts, Op.act, Entry.update, Config.entry, byteCfg,
    Table.refOf, copyOf, UpdateReq.sample]

/-- An update whose slot turns over `n` times between its two sections. -/
def wrapRun (n : Nat) : List (Action Bool) :=
  [.start true (.register byteCfg true), .start true (.update (byteReq 7))] ++
    (List.replicate n turnover).flatten ++ [.advance true none]

theorem wrapRun_writes (n : Nat) (hgen : SameGeneration (1 + 2 * n) 1) :
    Obs.updated true ⟨[107], ⟨0, 1⟩, ⟨0, 1 + 2 * n⟩⟩ [7] 0 (some 1) ∈ history 1 (wrapRun n) := by
  have hstart : Waiting 1 (run State.step (State.init 1)
      [.start true (.register byteCfg true), .start true (.update (byteReq 7))]) := by
    constructor <;> rfl
  have hwrites := waiting_writes (waiting_turnovers n hstart) hgen
  unfold history wrapRun
  rw [outputs_append, run_append, outputs_cons, outputs_nil, List.append_nil]
  exact List.mem_append_right _ hwrites

/--
A read of a registered entry before its first write returns zeros nobody wrote; and after
`2 ^ 31` deletions and registrations an update writes into a later incarnation than
the one it looked up.
-/
theorem cold_read_and_late_write :
    ¬ ReadsWritten (history 1 coldRun) ∧
      ∃ o ∈ history 1 (wrapRun (2 ^ 31)), ¬ o.ActsOnLooked := by
  refine ⟨fun hread => ?_, ?_⟩
  · have hbytes := hread [.registered true ⟨0, 1⟩ byteCfg 0] true ⟨[107], ⟨0, 1⟩, ⟨0, 1⟩⟩ none [0]
      none [] _ (.fresh ⟨0, 1⟩ byteCfg 0) history_coldRun rfl rfl
    rcases hbytes with ⟨w, ws, hwrites, _⟩ | hseed
    · cases hwrites
    · cases hseed
  · refine ⟨_, wrapRun_writes (2 ^ 31) (by decide), ?_⟩
    simp [Obs.ActsOnLooked]

end Cache
end Breadboard
