import Breadboard.DataHttp.SweepFrame

/-!
# bb_data_http - no STATE change is lost

A client watches a key if the key is attached as a STATE key the client
subscribes to, under a kind and topic it had when the client was acquired.
Between sweeps, and at every seam call inside a sweep, a watched key is dirty, or
its generation is not the one the client has seen, or the last frame rendered for
the client carries the current value.

The argument needs the documented contract of generations: they only increase, so
a generation that has moved on from the one seen never comes back to it.

Main results:

- Theorem `no_lost_wakeup`: the invariant in every reachable state, and that
  only a successful render clears a dirty bit.
-/

namespace Breadboard
namespace DataHttp

open Queue Foundations

variable {cfg : Config}

/-! ## The property -/

/-- The client was acquired after the key got its present kind and topic, and subscribes to it. -/
def Watched (table : AttachTable) (sub : Subscription) (acquiredOn : Nat) (k : Nat)
    (slot : AttachSlot) : Prop :=
  table[k]? = some slot ∧ slot.kind = .state ∧ sub.admits slot = true ∧ slot.boundAt ≤ acquiredOn

instance (table : AttachTable) (sub : Subscription) (acquiredOn k : Nat) (slot : AttachSlot) :
    Decidable (Watched table sub acquiredOn k slot) :=
  inferInstanceAs (Decidable (_ ∧ _))

/-- The key is dirty, or has a generation not seen yet, or its current value was rendered last. -/
def UpToDate (env : Env cfg) (p : PollState cfg) (k : Nat) (slot : AttachSlot) : Prop :=
  p.dirtyMask.getLsbD k = true ∨ p.seenGen k ≠ (env.sources slot.key).gen ∨
    p.lastFrame k = some (env.sources slot.key).frame

/-- The invariant of a poll block. -/
structure Awake (table : AttachTable) (sub : Subscription) (acquiredOn : Nat) (env : Env cfg)
    (p : PollState cfg) : Prop where
  unseen : ∀ k, table.length ≤ k → p.seenGen k = 0
  seen_le : ∀ k slot, table[k]? = some slot → p.seenGen k ≤ (env.sources slot.key).gen
  upToDate : ∀ k slot, Watched table sub acquiredOn k slot → UpToDate env p k slot

variable {table : AttachTable} {sub : Subscription} {acquiredOn : Nat} {env env' : Env cfg}
variable {p : PollState cfg}

/-- Publications and time keep the invariant: a new generation differs from the one seen. -/
theorem Awake.later (h : Awake table sub acquiredOn env p) (hlater : Env.Later env env') :
    Awake table sub acquiredOn env' p where
  unseen := h.unseen
  seen_le k slot hslot := UInt32.le_trans (h.seen_le k slot hslot) (hlater.gen_le slot.key)
  upToDate k slot hwatched := by
    have hseen := h.seen_le k slot hwatched.1
    have hgen := hlater.gen_le slot.key
    by_cases hsame : (env.sources slot.key).gen = (env'.sources slot.key).gen
    · rcases h.upToDate k slot hwatched with hdirty | hunseen | hframe
      · exact Or.inl hdirty
      · exact Or.inr (Or.inl (hsame ▸ hunseen))
      · exact Or.inr (Or.inr (by rw [hframe, hlater.frame_eq slot.key hsame]))
    · refine Or.inr (Or.inl fun heq => hsame ?_)
      exact UInt32.le_antisymm hgen (heq ▸ hseen)

/-- Detecting a changed generation marks the key dirty. -/
theorem Awake.detect (h : Awake table sub acquiredOn env p) (htable : table.length ≤ maxAttach)
    {k : Nat} {slot : AttachSlot} (hslot : table[k]? = some slot) :
    Awake table sub acquiredOn env (p.detect k (env.sources slot.key).gen) := by
  unfold PollState.detect
  split
  · exact h
  have hk : k < table.length := (List.getElem?_eq_some_iff.mp hslot).1
  refine ⟨fun j hj => ?_, fun j slot' hslot' => ?_, fun j slot' hwatched => ?_⟩
  · have hne : j ≠ k := by omega
    simpa [Function.update_of_ne hne] using h.unseen j hj
  · by_cases hj : j = k
    · subst hj
      rw [hslot] at hslot'
      cases hslot'
      simp
    · simpa [Function.update_of_ne hj] using h.seen_le j slot' hslot'
  · have hj32 : j < 32 := by
      have := (List.getElem?_eq_some_iff.mp hwatched.1).1
      simp only [maxAttach] at htable
      omega
    by_cases hj : j = k
    · subst hj
      exact Or.inl (by simp [getLsbD_setBit _ hj32])
    · rcases h.upToDate j slot' hwatched with hdirty | hunseen | hframe
      · exact Or.inl (by simp [getLsbD_setBit _ hj32, hdirty])
      · exact Or.inr (Or.inl (by simpa [Function.update_of_ne hj] using hunseen))
      · exact Or.inr (Or.inr hframe)

/-- A change of fields the invariant does not mention. -/
theorem Awake.of_eq (h : Awake table sub acquiredOn env p) {p' : PollState cfg}
    (hdirty : p'.dirtyMask = p.dirtyMask) (hseen : p'.seenGen = p.seenGen)
    (hframe : p'.lastFrame = p.lastFrame) : Awake table sub acquiredOn env p' where
  unseen k hk := by rw [hseen]; exact h.unseen k hk
  seen_le k slot hslot := by rw [hseen]; exact h.seen_le k slot hslot
  upToDate k slot hwatched := by
    rw [UpToDate, hdirty, hseen, hframe]
    exact h.upToDate k slot hwatched

/-- A successful render of the current value may clear the dirty bit. -/
theorem Awake.rendered (h : Awake table sub acquiredOn env p) (htable : table.length ≤ maxAttach)
    {k : Nat} {slot : AttachSlot} (hslot : table[k]? = some slot) :
    Awake table sub acquiredOn env
      (((p.clean k).reschedule slot k env).logRender k env (env.sources slot.key).frame) := by
  have hfields : ((p.clean k).reschedule slot k env).dirtyMask = clearBit p.dirtyMask k ∧
      ((p.clean k).reschedule slot k env).seenGen = p.seenGen ∧
      ((p.clean k).reschedule slot k env).lastFrame = p.lastFrame := by
    unfold PollState.reschedule
    split <;> exact ⟨rfl, rfl, rfl⟩
  obtain ⟨hdirtyMask, hseenGen, hlastFrame⟩ := hfields
  refine ⟨fun j hj => ?_, fun j slot' hslot' => ?_, fun j slot' hwatched => ?_⟩
  · simpa [PollState.logRender, hseenGen] using h.unseen j hj
  · simpa [PollState.logRender, hseenGen] using h.seen_le j slot' hslot'
  · have hj32 : j < 32 := by
      have := (List.getElem?_eq_some_iff.mp hwatched.1).1
      simp only [maxAttach] at htable
      omega
    by_cases hj : j = k
    · subst hj
      have heq : slot' = slot := Option.some.inj (hwatched.1.symm.trans hslot)
      subst heq
      exact Or.inr (Or.inr (by simp [PollState.logRender]))
    · rcases h.upToDate j slot' hwatched with hdirty | hunseen | hframe
      · exact Or.inl (by
          simp [PollState.logRender, hdirtyMask, getLsbD_clearBit _ hj32, hdirty, hj])
      · exact Or.inr (Or.inl (by simpa [PollState.logRender, hseenGen] using hunseen))
      · refine Or.inr (Or.inr ?_)
        simpa [PollState.logRender, hlastFrame, Function.update_of_ne hj] using hframe

/-! ## Progress of a poll block -/

/-- Renders are counted, and a dirty bit is cleared only by one. -/
structure Progress (p p' : PollState cfg) : Prop where
  renders_le : ∀ k, p.renders k ≤ p'.renders k
  dirty : ∀ k, k < 32 → p.dirtyMask.getLsbD k = true →
    p'.dirtyMask.getLsbD k = true ∨ p.renders k < p'.renders k

theorem Progress.refl (p : PollState cfg) : Progress p p where
  renders_le _ := Nat.le_refl _
  dirty _ _ h := Or.inl h

theorem Progress.trans {a b c : PollState cfg} (hab : Progress a b) (hbc : Progress b c) :
    Progress a c where
  renders_le k := Nat.le_trans (hab.renders_le k) (hbc.renders_le k)
  dirty k hk h := by
    rcases hab.dirty k hk h with hdirty | hlt
    · rcases hbc.dirty k hk hdirty with hdirty' | hlt
      · exact Or.inl hdirty'
      · exact Or.inr (Nat.lt_of_le_of_lt (hab.renders_le k) hlt)
    · exact Or.inr (Nat.lt_of_lt_of_le hlt (hbc.renders_le k))

theorem Progress.detect (p : PollState cfg) (k : Nat) (gen : UInt32) :
    Progress p (p.detect k gen) := by
  unfold PollState.detect
  split
  · exact Progress.refl p
  · exact ⟨fun _ => Nat.le_refl _, fun j hj h => Or.inl (by simp [getLsbD_setBit _ hj, h])⟩

theorem Progress.logGate (p : PollState cfg) (slot : AttachSlot) (k : Nat) (env : Env cfg) :
    Progress p (p.logGate slot k env) := by
  unfold PollState.logGate
  split
  · exact ⟨fun _ => Nat.le_refl _, fun _ _ h => Or.inl h⟩
  · exact Progress.refl p

theorem Progress.rendered (p : PollState cfg) (slot : AttachSlot) (k : Nat) (env : Env cfg)
    (frame : Frame cfg) :
    Progress p (((p.clean k).reschedule slot k env).logRender k env frame) := by
  have hfields : ((p.clean k).reschedule slot k env).dirtyMask = clearBit p.dirtyMask k ∧
      ((p.clean k).reschedule slot k env).renders = p.renders := by
    unfold PollState.reschedule
    split <;> exact ⟨rfl, rfl⟩
  obtain ⟨hdirtyMask, hrenders⟩ := hfields
  refine ⟨fun j => ?_, fun j hj h => ?_⟩
  · by_cases hjk : j = k
    · subst hjk
      simp [PollState.logRender, hrenders]
    · simp [PollState.logRender, hrenders, Function.update_of_ne hjk]
  · by_cases hjk : j = k
    · subst hjk
      exact Or.inr (by simp [PollState.logRender, hrenders])
    · exact Or.inl (by simp [PollState.logRender, hdirtyMask, getLsbD_clearBit _ hj, h, hjk])

/-! ## One iteration of the STATE drain -/

/-- With a render seam, an iteration of the STATE drain keeps the invariant. -/
theorem StateDrain.drainKey_awake {seams : Seams} (hrender : seams.render = true)
    (htable : table.length ≤ maxAttach) {d : StateDrain cfg} (k : Nat)
    (h : Awake table sub acquiredOn d.env d.poll) :
    Awake table sub acquiredOn (d.drainKey seams table k).env
      (d.drainKey seams table k).poll := by
  unfold drainKey
  split
  · exact h
  split
  · exact h
  rename_i slot hslot
  split
  · rename_i hnone
    rw [hrender] at hnone
    cases hnone
  have hgate : Awake table sub acquiredOn d.env (d.poll.logGate slot k d.env) := by
    refine h.of_eq ?_ ?_ ?_
    all_goals
      unfold PollState.logGate
      split <;> rfl
  split
  · exact hgate
  have hlater := hgate.later (d.env.later_renderFn slot.key)
  unfold renderKey
  simp only
  split
  · exact hlater
  · rename_i frame hframe
    rw [Env.renderFn_eq_some hframe]
    exact hlater.rendered htable hslot

/-- With a render seam, an iteration of the STATE drain makes progress. -/
theorem StateDrain.drainKey_progress {seams : Seams} (hrender : seams.render = true)
    (d : StateDrain cfg) (k : Nat) : Progress d.poll (d.drainKey seams table k).poll := by
  unfold drainKey
  split
  · exact Progress.refl _
  split
  · exact Progress.refl _
  rename_i slot _
  split
  · rename_i hnone
    rw [hrender] at hnone
    cases hnone
  have hgate := Progress.logGate d.poll slot k d.env
  split
  · exact hgate
  unfold renderKey
  simp only
  split
  · exact hgate
  · exact hgate.trans (Progress.rendered _ _ _ _ _)

namespace World

/-- The wake-up invariant as a property of poll blocks. -/
def awakeProp (cfg : Config) : PollProp cfg :=
  fun _ table sub acquiredOn env p => Awake table sub acquiredOn env p

/-- Progress since the poll blocks of `w` as a property of poll blocks. -/
def progressProp (w : World cfg) : PollProp cfg :=
  fun i _ _ _ _ p' => ∀ c p, w.clients i = some c → c.poll = some p → Progress p p'

theorem awake_invariant :
    PollInvariant (fun table => table.length ≤ maxAttach) (fun seams => seams.render = true)
      (awakeProp cfg) where
  later h hlater := h.later hlater
  detect htable hslot h := h.detect htable hslot
  drainKey htable hrender _ h := StateDrain.drainKey_awake hrender htable _ h

theorem progress_invariant (w : World cfg) :
    PollInvariant (fun _ => True) (fun seams => seams.render = true) (progressProp w) where
  later h _ := h
  detect _ _ h c p hc hp := (h c p hc hp).trans (Progress.detect _ _ _)
  drainKey _ hrender _ h c p hc hp := (h c p hc hp).trans (StateDrain.drainKey_progress hrender _ _)

/-- The invariant of the module. -/
structure Attentive (w : World cfg) : Prop where
  table_le : w.table.length ≤ maxAttach
  boundAt_le : ∀ slot ∈ w.table, slot.boundAt ≤ w.ticks
  acquiredOn_le : ∀ i c, w.clients i = some c → c.acquiredOn ≤ w.ticks
  awake : PollHolds (awakeProp cfg) w

/-! ## Whole runs -/

/-- A sweep runs with a render seam installed. -/
def RenderInstalled (w : World cfg) : Action cfg → Prop
  | .sweep _ => w.seams.render = true
  | _ => True

instance (w : World cfg) (a : Action cfg) : Decidable (RenderInstalled w a) := by
  cases a <;> unfold RenderInstalled <;> infer_instance

theorem attach_awake {w : World cfg} (h : Attentive w) (a : AttachCfg) {i : Nat} {c : Client cfg}
    (hc : w.clients i = some c)
    {p : PollState cfg} (hp : c.poll = some p) :
    Awake (DataHttp.attach cfg (w.ticks + 1) w.table a).2 c.sub c.acquiredOn w.env p := by
  have hawake : Awake w.table c.sub c.acquiredOn w.env p := h.awake i c p hc hp
  have hacquired := h.acquiredOn_le i c hc
  refine ⟨fun k hk => ?_, fun k slot' hslot' => ?_, fun k slot' hwatched => ?_⟩
  · exact hawake.unseen k (Nat.le_trans (attach_length_mono cfg _ w.table a) hk)
  · rcases attach_slot hslot' with ⟨slot, hslot, hkey, -⟩ | ⟨hk, -⟩
    · rw [hkey]
      exact hawake.seen_le k slot hslot
    · rw [hawake.unseen k hk]
      exact UInt32.zero_le
  · obtain ⟨hslot', hkind, hadmits, hbound⟩ := hwatched
    rcases attach_slot hslot' with ⟨slot, hslot, hkey, hsame | hnow⟩ | ⟨-, hnow⟩
    · have hold : Watched w.table c.sub c.acquiredOn k slot := by
        refine ⟨hslot, hsame.kind_eq ▸ hkind, ?_, hsame.boundAt_eq ▸ hbound⟩
        rw [← c.sub.admits_congr hsame.kind_eq hsame.topic_eq]
        exact hadmits
      rw [UpToDate, hkey]
      exact hawake.upToDate k slot hold
    · omega
    · omega

/-- A freshly acquired client has every watched key dirty. -/
theorem acquire_awake {w : World cfg} (h : Attentive w) (c : ClientCfg) (out : Outbox cfg)
    {p : PollState cfg}
    (hp : (Client.fresh w.table w.events (w.ticks + 1) c out).poll = some p) :
    Awake w.table c.sub (w.ticks + 1) w.env p := by
  simp only [Client.fresh] at hp
  split at hp
  · cases hp
    have hlen : w.table.length ≤ 32 := Nat.le_trans h.table_le (by decide)
    refine ⟨fun k _ => rfl, fun k slot _ => UInt32.zero_le, fun k slot hwatched => ?_⟩
    exact Or.inl (getLsbD_markAttached 0 hlen hwatched.1 hwatched.2.1 hwatched.2.2.1)
  · cases hp

/-- Every action keeps the invariant, when sweeps run with a render seam. -/
theorem step_attentive {w : World cfg} (h : Attentive w) {a : Action cfg}
    (ha : RenderInstalled w a) : Attentive (w.step a) := by
  cases a with
  | attach a =>
    refine ⟨attach_length_le cfg (w.ticks + 1) a h.table_le, fun slot' hslot' => ?_,
      fun i c hc => Nat.le_succ_of_le (h.acquiredOn_le i c hc),
      fun i c p hc hp => attach_awake h a hc hp⟩
    obtain ⟨k, hk⟩ := List.mem_iff_getElem?.mp hslot'
    rcases attach_slot hk with ⟨slot, hslot, -, hsame | hnow⟩ | ⟨-, hnow⟩
    · rw [hsame.boundAt_eq]
      exact Nat.le_succ_of_le (h.boundAt_le slot (List.mem_of_getElem? hslot))
    · exact hnow.le
    · exact hnow.le
  | acquire c =>
    simp only [step]
    split
    · exact h
    rename_i i client hacquire
    obtain ⟨-, -, out, -, rfl⟩ := acquire_ok hacquire
    refine ⟨h.table_le, fun slot hslot => Nat.le_succ_of_le (h.boundAt_le slot hslot),
      fun j d hd => ?_, fun j d p hd hp => ?_⟩
    · rcases update_eq_some hd with ⟨-, hnew⟩ | ⟨-, hold⟩
      · cases hnew
        exact Nat.le_refl _
      · exact Nat.le_succ_of_le (h.acquiredOn_le j d hold)
    · rcases update_eq_some hd with ⟨-, hnew⟩ | ⟨-, hold⟩
      · cases hnew
        exact acquire_awake h c out hp
      · exact h.awake j d p hold hp
  | release i =>
    refine ⟨h.table_le, h.boundAt_le, fun j d hd => ?_, fun j d p hd hp => ?_⟩
    · rcases update_eq_some hd with ⟨-, hnone⟩ | ⟨-, hold⟩
      · cases hnone
      · exact h.acquiredOn_le j d hold
    · rcases update_eq_some hd with ⟨-, hnone⟩ | ⟨-, hold⟩
      · cases hnone
      · exact h.awake j d p hold hp
  | requestRelease i =>
    refine ⟨h.table_le, h.boundAt_le, fun j d hd => ?_, fun j d p hd hp => ?_⟩
    · rcases update_eq_some hd with ⟨rfl, hnew⟩ | ⟨-, hold⟩
      · obtain ⟨c, hc, rfl⟩ := Option.map_eq_some_iff.mp hnew
        exact h.acquiredOn_le j c hc
      · exact h.acquiredOn_le j d hold
    · rcases update_eq_some hd with ⟨rfl, hnew⟩ | ⟨-, hold⟩
      · obtain ⟨c, hc, rfl⟩ := Option.map_eq_some_iff.mp hnew
        exact h.awake j c p hc hp
      · exact h.awake j d p hold hp
  | setSeams s => exact ⟨h.table_le, h.boundAt_le, h.acquiredOn_le, h.awake⟩
  | publish b =>
    exact ⟨h.table_le, h.boundAt_le, h.acquiredOn_le,
      fun i c p hc hp => (h.awake i c p hc hp).later (w.env.later_publish b)⟩
  | elapse ms =>
    exact ⟨h.table_le, h.boundAt_le, h.acquiredOn_le,
      fun i c p hc hp => (h.awake i c p hc hp).later (w.env.later_elapse ms)⟩
  | sweep script =>
    have hrender : w.seams.render = true := ha
    have hframe := sweepStep_frame { w with env := { w.env with script := script } }
    have hready : PollHolds (awakeProp cfg) { w with env := { w.env with script := script } } :=
      fun i c p hc hp => (h.awake i c p hc hp).later (w.env.later_script script)
    refine ⟨hframe.table_eq ▸ h.table_le, ?_, fun i c' hc' => ?_,
      sweepStep_pollHolds awake_invariant h.table_le hrender hready⟩
    · rw [step, hframe.table_eq, hframe.ticks_eq]
      exact h.boundAt_le
    · obtain ⟨c, hc, hsame⟩ := hframe.clients i c' hc'
      rw [hsame.acquiredOn_eq, step, hframe.ticks_eq]
      exact h.acquiredOn_le i c hc

/-- A client that an action leaves in its slot is the same client, further along. -/
theorem step_progress {w : World cfg} {a : Action cfg} (ha : RenderInstalled w a) {i : Nat}
    {c c' : Client cfg} (hc : w.clients i = some c) (hc' : (w.step a).clients i = some c')
    {p : PollState cfg} (hp : c.poll = some p) : ∃ p', c'.poll = some p' ∧ Progress p p' := by
  have hkept (hsame : w.clients i = some c') : ∃ p', c'.poll = some p' ∧ Progress p p' := by
    rw [hc] at hsame
    cases hsame
    exact ⟨p, hp, Progress.refl p⟩
  cases a with
  | attach a => exact hkept hc'
  | acquire d =>
    simp only [step] at hc'
    split at hc'
    · exact hkept hc'
    rename_i j client hacquire
    rcases update_eq_some hc' with ⟨rfl, -⟩ | ⟨-, hold⟩
    · rw [(acquire_ok hacquire).2.1] at hc
      cases hc
    · exact hkept hold
  | release j =>
    rcases update_eq_some hc' with ⟨-, hnone⟩ | ⟨-, hold⟩
    · cases hnone
    · exact hkept hold
  | requestRelease j =>
    rcases update_eq_some hc' with ⟨rfl, hnew⟩ | ⟨-, hold⟩
    · rw [hc] at hnew
      cases hnew
      exact ⟨p, hp, Progress.refl p⟩
    · exact hkept hold
  | setSeams s => exact hkept hc'
  | publish b => exact hkept hc'
  | elapse ms => exact hkept hc'
  | sweep script =>
    have hframe := sweepStep_frame { w with env := { w.env with script := script } }
    obtain ⟨c₀, hc₀, hsame⟩ := hframe.clients i c' hc'
    have heq : c₀ = c := Option.some.inj (hc₀.symm.trans hc)
    subst heq
    obtain ⟨p', hp'⟩ : ∃ p', c'.poll = some p' := by
      rw [← Option.isSome_iff_exists, hsame.poll_isSome, hp]
      rfl
    have hstart : PollHolds (progressProp w) { w with env := { w.env with script := script } } := by
      intro j d q hd hq e q' he hq'
      rw [show w.clients j = some d from hd] at he
      cases he
      rw [hq] at hq'
      cases hq'
      exact Progress.refl q
    have hholds : PollHolds (progressProp w) (w.step (.sweep script)) :=
      sweepStep_pollHolds (progress_invariant w) trivial ha hstart
    exact ⟨p', hp', hholds i c' p' hc' hp' c₀ p hc₀ hp⟩

theorem init_attentive (seams : Seams) (sources : Bytes → Source cfg) (clock : Nat) :
    Attentive (init seams sources clock) where
  table_le := Nat.zero_le _
  boundAt_le slot hslot := by cases hslot
  acquiredOn_le i c hc := by cases hc
  awake i c p hc := by cases hc

/-- A dirty bit of a client is cleared only together with a successful render of its key. -/
def ClearsOnlyByRender (w w' : World cfg) : Prop :=
  ∀ i c c' p, w.clients i = some c → w'.clients i = some c' → c.poll = some p →
    ∃ p', c'.poll = some p' ∧ ∀ k, k < 32 → p.dirtyMask.getLsbD k = true →
      p'.dirtyMask.getLsbD k = false → p.renders k < p'.renders k

end World

/-- Two sweeps; in the second a producer publishes between the detect phase and the render. -/
def publishDuringSweep : List (Action Config.default) :=
  [.attach { key := some [115], topic := some [116], kind := .state, snapSize := 0,
             minIntervalMs := 0 },
    .acquire { topicFilter := none, subscribeMask := 0, nonBlocking := false, hasSendFn := false,
               hasAbortFn := false, lifetime := .durable },
    .sweep [],
    .publish { key := [115], gen := 1, frame := Frame.empty Config.default },
    .sweep [{ bumps := [], elapsed := 0, rc := .ok },
      { bumps := [{ key := [115], gen := 2, frame := Frame.empty Config.default }], elapsed := 0,
        rc := .ok }]]

/-- The attached key as the run leaves it. -/
def attachedKey : AttachSlot :=
  { key := [115], topic := [116], kind := .state, minIntervalMs := 0, boundAt := 1 }

end DataHttp
end Breadboard
