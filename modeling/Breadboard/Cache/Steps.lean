import Breadboard.Cache.Machine

/-!
# What one step of the cache can do

Main results:

- Theorem `shown_cases`: what a step can show, and when.
- Theorems `generation_mono` and `now_mono`: neither the generation of a
  slot nor the clock goes back.
-/

namespace Breadboard
namespace Cache

open Foundations

universe u

variable {τ : Type u} [DecidableEq τ]

/-- A place at which the caller remembers no slot. -/
def Pc.Settled : Pc → Prop
  | .lookedUp .. => False
  | .evicting .. => False
  | _ => True

theorem Op.settled_return (op : Op) : op.return.Settled := by
  cases op <;> trivial

/-- How the place of a caller may change when `a` takes `s` to `s'`. -/
inductive PcStep (s : State τ) (a : Action τ) (s' : State τ) (t : τ) : Prop where
  | same (h : s'.pc t = s.pc t)
  | settled (h : (s'.pc t).Settled)
  | looked (op : Op) (ref : EntryRef) (h : s'.pc t = .lookedUp op ref)
      (hfind : s.table.findEntryLockedRef op.key = some ref) (htable : s'.table = s.table)
  | tested (op : Op) (ref : EntryRef) (seen : Entry)
      (h : s'.pc t = .evicting op (s.table.refOf ref.slot) seen)
      (hold : s.pc t = .lookedUp op ref)
      (hmatch : s.table.entryMatches ref op.key = some seen) (hevicts : op.evicts = true)
      (haged : seen.agedOut s.now = true) (hact : ∃ snap, a = .advance t snap)

theorem pcStep_goto_settled {s s' : State τ} {t : τ} {pc : Pc}
    (h : s'.pc = Function.update s.pc t pc) (hpc : pc.Settled) (a : Action τ) (t' : τ) :
    PcStep s a s' t' := by
  by_cases ht : t' = t
  · refine .settled ?_
    rw [h, ht, Function.update_self]
    exact hpc
  · refine .same ?_
    rw [h, Function.update_of_ne ht]

theorem pcStep_lookup (s : State τ) (t : τ) (op : Op) (a : Action τ) (t' : τ) :
    PcStep s a (s.lookup t op).2 t' := by
  unfold State.lookup
  split
  · exact pcStep_goto_settled rfl op.settled_return _ t'
  · rename_i ref hfind
    by_cases ht : t' = t
    · exact .looked op ref (by simp [State.goto, ht]) hfind rfl
    · exact .same (by simp [State.goto, Function.update_of_ne ht])

theorem pcStep_locked {s : State τ} {t : τ} {op : Op} {ref : EntryRef}
    (hpc : s.pc t = .lookedUp op ref) (snap : Option Memory) (t' : τ) :
    PcStep s (.advance t snap) (s.locked t op ref snap).2 t' := by
  unfold State.locked
  split
  · exact pcStep_goto_settled rfl op.settled_return _ t'
  · rename_i e hmatch
    split
    · rename_i hage
      rw [Bool.and_eq_true] at hage
      by_cases ht : t' = t
      · refine .tested op ref e ?_ (by rw [ht, hpc]) hmatch hage.1 hage.2 ⟨snap, by rw [ht]⟩
        simp [State.goto, ht]
      · exact .same (by simp [State.goto, Function.update_of_ne ht])
    · exact pcStep_goto_settled rfl op.settled_return _ t'

theorem pcStep_evict (s : State τ) (t : τ) (op : Op) (ref : EntryRef) (a : Action τ) (t' : τ) :
    PcStep s a (s.evict t op ref).2 t' := by
  unfold State.evict
  split
  · refine pcStep_goto_settled rfl ?_ _ t'
    trivial
  · exact pcStep_goto_settled rfl op.settled_return _ t'

omit [DecidableEq τ] in
theorem pc_register (s : State τ) (t : τ) (cfg : Config) (allocated : Bool) :
    (s.register t cfg allocated).2.pc = s.pc := by
  unfold State.register
  split <;> rfl

theorem pcStep_start (s : State τ) (t : τ) (call : Call) (a : Action τ) (t' : τ) :
    PcStep s a (s.start t call).2 t' := by
  cases call with
  | register cfg allocated => exact .same (congrFun (pc_register s t cfg allocated) t')
  | update req => exact pcStep_lookup s t _ _ t'
  | delete key =>
    simp only [State.start]
    split
    · exact .same rfl
    · refine pcStep_goto_settled rfl ?_ _ t'
      trivial
  | getRaw key cap =>
    simp only [State.start]
    split
    · exact .same rfl
    · exact pcStep_lookup s t _ _ t'
  | snapshot key cap => exact pcStep_lookup s t _ _ t'
  | stateVersion key => exact pcStep_lookup s t _ _ t'
  | sweepPass =>
    refine pcStep_goto_settled rfl ?_ _ t'
    trivial

theorem pcStep_advance (s : State τ) (t : τ) (snap : Option Memory) (t' : τ) :
    PcStep s (.advance t snap) (s.advance t snap).2 t' := by
  unfold State.advance
  split
  · exact .same rfl
  · rename_i op ref hpc
    exact pcStep_locked hpc snap t'
  · exact pcStep_evict s t _ _ _ t'
  · refine pcStep_goto_settled rfl ?_ _ t'
    trivial
  · rename_i op _
    exact pcStep_goto_settled rfl op.settled_return _ t'
  · refine pcStep_goto_settled rfl ?_ _ t'
    trivial
  · exact pcStep_lookup s t _ _ t'

/-- Where a step can take a caller. -/
theorem step_pc (s : State τ) (a : Action τ) (t' : τ) : PcStep s a (s.step a) t' := by
  unfold State.step
  cases a with
  | tick ms => exact .same rfl
  | start t call =>
    by_cases hpc : s.pc t = .idle
    · rw [State.act_start_of_idle hpc]
      exact pcStep_start s t call _ t'
    · rw [State.act_start_of_busy hpc]
      exact .same rfl
  | advance t snap => exact pcStep_advance s t snap t'

/-! ## What is shown -/

/-- An event that neither acts on an entry that was looked up nor evicts one. -/
def Obs.Plain : Obs τ → Prop
  | .registered .. => True
  | .present .. => True
  | .unnamed _ => True
  | .removed _ _ _ evicted => evicted = false
  | .notified .. => True
  | .failed .. => True
  | _ => False

/-- Why a step shows an event. -/
inductive Shown (s : State τ) (a : Action τ) (o : Obs τ) : Prop where
  | plain (h : o.Plain)
  | acted (t : τ) (op : Op) (ref : EntryRef) (e : Entry) (snap : Option Memory)
      (hact : a = .advance t snap) (hpc : s.pc t = .lookedUp op ref)
      (hmatch : s.table.entryMatches ref op.key = some e)
      (ho : o ∈ (op.act t ⟨op.key, ref, s.table.refOf ref.slot⟩ e snap s.now).1)
  | evicted (t : τ) (op : Op) (ref : EntryRef) (seen : Entry) (snap : Option Memory) (id : EntryRef)
      (hact : a = .advance t snap) (hpc : s.pc t = .evicting op ref seen)
      (hfreed : (s.table.deleteIfGeneration op.key ref.generation).1 = some id)
      (ho : o = .removed t op.key id true)

omit [DecidableEq τ] in
/-- Acting on an entry frees no slot. -/
theorem removed_notMem_act (op : Op) (t : τ) (x : Target) (e : Entry) (snap : Option Memory)
    (now : Nat) (t' : τ) (key : Key) (id : EntryRef) (evicted : Bool) :
    Obs.removed t' key id evicted ∉ (op.act t x e snap now).1 := by
  intro hmem
  cases op <;> simp only [Op.act] at hmem <;> (try split at hmem) <;> simp at hmem

omit [DecidableEq τ] in
theorem plain_failed {op : Op} {t : τ} {err : BbErr} {o : Obs τ} (ho : o ∈ op.failed t err) :
    o.Plain := by
  cases op <;> simp [Op.failed] at ho <;> rw [ho] <;> trivial

theorem plain_lookup {s : State τ} {t : τ} {op : Op} {o : Obs τ} (ho : o ∈ (s.lookup t op).1) :
    o.Plain := by
  unfold State.lookup at ho
  split at ho
  · exact plain_failed ho
  · cases ho

theorem plain_start {s : State τ} {t : τ} {call : Call} {o : Obs τ}
    (ho : o ∈ (s.start t call).1) : o.Plain := by
  cases call with
  | register cfg allocated =>
    simp only [State.start, State.register] at ho
    split at ho
    · split at ho
      · rw [List.mem_singleton.mp ho]
        trivial
      · split at ho <;> rw [List.mem_singleton.mp ho] <;> trivial
    · rw [List.mem_singleton.mp ho]
      trivial
  | delete key =>
    simp only [State.start] at ho
    split at ho <;> rw [List.mem_singleton.mp ho] <;> trivial
  | getRaw key cap =>
    simp only [State.start] at ho
    split at ho
    · rw [List.mem_singleton.mp ho]
      trivial
    · exact plain_lookup ho
  | sweepPass => cases ho
  | _ => exact plain_lookup ho

theorem shown_advance {s : State τ} {t : τ} {snap : Option Memory} {o : Obs τ}
    (ho : o ∈ (s.advance t snap).1) : Shown s (.advance t snap) o := by
  unfold State.advance at ho
  split at ho
  · cases ho
  · rename_i op ref hpc
    unfold State.locked at ho
    split at ho
    · exact .plain (plain_failed ho)
    · rename_i e hmatch
      split at ho
      · cases ho
      · exact .acted t op ref e snap rfl hpc hmatch ho
  · rename_i op ref seen hpc
    unfold State.evict at ho
    split at ho
    · rename_i id table hdelete
      refine .evicted t op ref seen snap id rfl hpc ?_ (List.mem_singleton.mp ho)
      rw [hdelete]
    · exact .plain (plain_failed ho)
  · rw [List.mem_singleton.mp ho]
    exact .plain trivial
  · rcases List.mem_cons.mp ho with rfl | hfailed
    · exact .plain trivial
    · exact .plain (plain_failed hfailed)
  · cases ho
  · exact .plain (plain_lookup ho)

/-- What a step can show, and when. -/
theorem shown_cases {s : State τ} {a : Action τ} {o : Obs τ} (ho : o ∈ s.shows a) :
    Shown s a o := by
  unfold State.shows at ho
  cases a with
  | tick ms => cases ho
  | start t call =>
    by_cases hpc : s.pc t = .idle
    · rw [State.act_start_of_idle hpc] at ho
      exact .plain (plain_start ho)
    · rw [State.act_start_of_busy hpc] at ho
      cases ho
  | advance t snap => exact shown_advance ho

/-! ## Generations and the clock -/

theorem generation_register (t : Table) (cfg : Config) (allocated : Bool) (now i : Nat) :
    t.generation i ≤ (t.register cfg allocated now).2.2.generation i := by
  rcases t.register_cases cfg allocated now with
    ⟨err, _, hreg⟩ | ⟨slot, _, hreg⟩ | ⟨slot, owned, _, _, _, _, hreg⟩
  · exact Nat.le_of_eq (by rw [hreg])
  · exact Nat.le_of_eq (by rw [hreg])
  · rw [hreg]
    exact le_bump t.generation slot i

theorem generation_delete (t : Table) (key : Key) (i : Nat) :
    t.generation i ≤ (t.delete key).2.generation i := by
  unfold Table.delete
  split
  · exact Nat.le_refl _
  · exact le_bump t.generation _ i

theorem generation_deleteIfGeneration (t : Table) (key : Key) (gen i : Nat) :
    t.generation i ≤ (t.deleteIfGeneration key gen).2.generation i := by
  unfold Table.deleteIfGeneration
  split
  · exact Nat.le_refl _
  · split
    · exact le_bump t.generation _ i
    · exact Nat.le_refl _

theorem table_lookup (s : State τ) (t : τ) (op : Op) : (s.lookup t op).2.table = s.table := by
  unfold State.lookup
  split <;> rfl

theorem generation_locked (s : State τ) (t : τ) (op : Op) (ref : EntryRef) (snap : Option Memory) :
    (s.locked t op ref snap).2.table.generation = s.table.generation := by
  unfold State.locked
  split
  · rfl
  · split <;> rfl

theorem generation_start (s : State τ) (t : τ) (call : Call) (i : Nat) :
    s.table.generation i ≤ (s.start t call).2.table.generation i := by
  cases call with
  | register cfg allocated =>
    have hreg := generation_register s.table cfg allocated s.now i
    simp only [State.start, State.register]
    split
    · rename_i heq
      rwa [heq] at hreg
    · exact Nat.le_refl _
  | delete key =>
    have hdelete := generation_delete s.table key i
    simp only [State.start]
    split
    · exact Nat.le_refl _
    · rename_i heq
      rwa [heq] at hdelete
  | getRaw key cap =>
    simp only [State.start]
    split
    · exact Nat.le_refl _
    · exact Nat.le_of_eq (by rw [table_lookup])
  | sweepPass => exact Nat.le_refl _
  | _ => simp only [State.start, table_lookup, Nat.le_refl]

theorem generation_advance (s : State τ) (t : τ) (snap : Option Memory) (i : Nat) :
    s.table.generation i ≤ (s.advance t snap).2.table.generation i := by
  unfold State.advance
  split
  · exact Nat.le_refl _
  · exact Nat.le_of_eq (by rw [generation_locked])
  · rename_i op ref _ _
    have hdelete := generation_deleteIfGeneration s.table op.key ref.generation i
    unfold State.evict
    split
    · rename_i heq
      rwa [heq] at hdelete
    · exact Nat.le_refl _
  · exact Nat.le_refl _
  · exact Nat.le_refl _
  · exact Nat.le_refl _
  · exact Nat.le_of_eq (by rw [table_lookup])

/-- The generation of a slot never goes back. -/
theorem generation_mono (s : State τ) (a : Action τ) (i : Nat) :
    s.table.generation i ≤ (s.step a).table.generation i := by
  unfold State.step
  cases a with
  | tick ms => exact Nat.le_refl _
  | start t call =>
    by_cases hpc : s.pc t = .idle
    · rw [State.act_start_of_idle hpc]
      exact generation_start s t call i
    · exact Nat.le_of_eq (by rw [State.act_start_of_busy hpc])
  | advance t snap => exact generation_advance s t snap i

theorem now_lookup (s : State τ) (t : τ) (op : Op) : (s.lookup t op).2.now = s.now := by
  unfold State.lookup
  split <;> rfl

theorem now_start (s : State τ) (t : τ) (call : Call) : (s.start t call).2.now = s.now := by
  cases call with
  | register cfg allocated =>
    simp only [State.start, State.register]
    split <;> rfl
  | delete key =>
    simp only [State.start]
    split <;> rfl
  | getRaw key cap =>
    simp only [State.start]
    split
    · rfl
    · exact now_lookup s t _
  | sweepPass => rfl
  | _ => exact now_lookup s t _

theorem now_advance (s : State τ) (t : τ) (snap : Option Memory) :
    (s.advance t snap).2.now = s.now := by
  unfold State.advance
  split
  · rfl
  · unfold State.locked
    split
    · rfl
    · split <;> rfl
  · unfold State.evict
    split <;> rfl
  · rfl
  · rfl
  · rfl
  · exact now_lookup s t _

/-- The clock never goes back. -/
theorem now_mono (s : State τ) (a : Action τ) : s.now ≤ (s.step a).now := by
  unfold State.step
  cases a with
  | tick ms => exact Nat.le_add_right s.now ms
  | start t call =>
    by_cases hpc : s.pc t = .idle
    · rw [State.act_start_of_idle hpc]
      exact Nat.le_of_eq (now_start s t call).symm
    · exact Nat.le_of_eq (by rw [State.act_start_of_busy hpc])
  | advance t snap => exact Nat.le_of_eq (now_advance s t snap).symm

end Cache
end Breadboard
