import Breadboard.Cache.Simulation
import Breadboard.Cache.Steps

/-!
# What an eviction may free

The age test and the delete of an eviction are two lock sections.  A free is right
when the latest sample of the incarnation is old enough at the delete.  That is so
when the test read a stamp that is past, or found the registration old enough, and
the delete finds the entry of the test.

Main results:

- Theorem `live_replay`: a live incarnation with a known identity only grew.
- Theorem `evicts_only_aged`: in runs whose evictions see what they assume,
  each frees an incarnation whose latest sample is old enough.
-/

namespace Breadboard
namespace Cache

open Foundations

universe u

variable {τ : Type u} [DecidableEq τ]

/-! ## An incarnation over a history -/

/-- The same incarnation, later: its writes are the earlier ones and newer. -/
structure Incarnation.Grows (inc inc' : Incarnation) : Prop where
  id : inc'.id = inc.id
  eviction : inc'.eviction = inc.eviction
  registeredAt : inc'.registeredAt = inc.registeredAt
  writes : inc.writes <:+ inc'.writes

theorem Incarnation.Grows.refl (inc : Incarnation) : inc.Grows inc :=
  ⟨rfl, rfl, rfl, List.suffix_refl _⟩

theorem Incarnation.Grows.trans {a b c : Incarnation} (h : a.Grows b) (h' : b.Grows c) :
    a.Grows c where
  id := h'.id.trans h.id
  eviction := h'.eviction.trans h.eviction
  registeredAt := h'.registeredAt.trans h.registeredAt
  writes := h.writes.trans h'.writes

theorem Incarnation.grows_ask (inc : Incarnation) (seed : Option Bytes) :
    inc.Grows (inc.ask seed) := by
  unfold Incarnation.ask
  split
  · exact ⟨rfl, rfl, rfl, List.suffix_refl _⟩
  · exact .refl inc

/-- The latest sample is at least the eviction age ago. -/
structure Incarnation.Aged (inc : Incarnation) (now : Nat) : Prop where
  policy : inc.eviction.policy = .ageOut
  age : inc.latest + inc.eviction.evictAgeMs.toNat ≤ now

/-- An incarnation that got no further write stays old enough. -/
theorem Incarnation.Aged.later {inc inc' : Incarnation} {now now' : Nat} (h : inc.Aged now)
    (hgrows : inc.Grows inc') (hsame : inc'.writes = inc.writes) (hle : now ≤ now') :
    inc'.Aged now' where
  policy := hgrows.eviction ▸ h.policy
  age := by
    have hage := h.age
    have hlatest : inc'.latest = inc.latest := by
      unfold Incarnation.latest
      rw [hsame, hgrows.registeredAt]
    rw [hlatest, hgrows.eviction]
    omega

omit [DecidableEq τ] in
theorem live_actOn {m m' : Incarnations τ} {key : Key} {id : EntryRef}
    {f : Incarnation → Option Incarnation} (hf : ∀ inc inc', f inc = some inc' → inc.Grows inc')
    (h : m.actOn key id f = some m') {k : Key} {inc' : Incarnation} (hlive : m'.live k = some inc') :
    ∃ inc, m.live k = some inc ∧ inc.Grows inc' := by
  unfold Incarnations.actOn at h
  split at h
  · rename_i inc hinc
    split at h
    · obtain ⟨new, hnew, rfl⟩ := Option.map_eq_some_iff.mp h
      by_cases hk : k = key
      · subst hk
        simp only [Incarnations.set, Function.update_self, Option.some.injEq] at hlive
        exact ⟨inc, hinc, hlive ▸ hf inc new hnew⟩
      · refine ⟨inc', ?_, .refl inc'⟩
        simpa [Incarnations.set, Function.update_of_ne hk] using hlive
    · cases h
  · cases h

omit [DecidableEq τ] in
theorem ids_actOn {m m' : Incarnations τ} {key : Key} {id : EntryRef}
    {f : Incarnation → Option Incarnation} (h : m.actOn key id f = some m') : m'.ids = m.ids := by
  unfold Incarnations.actOn at h
  split at h
  · split at h
    · obtain ⟨new, _, rfl⟩ := Option.map_eq_some_iff.mp h
      rfl
    · cases h
  · cases h

/-- One event: a live incarnation whose identity was known was live before and only grew. -/
theorem live_apply {m m' : Incarnations τ} {o : Obs τ} (h : m.apply o = some m') :
    m.ids ⊆ m'.ids ∧ ∀ k inc', m'.live k = some inc' → inc'.id ∈ m.ids →
      ∃ inc, m.live k = some inc ∧ inc.Grows inc' := by
  have hkeep : ∀ {key id f}, (∀ inc inc', f inc = some inc' → inc.Grows inc') →
      m.actOn key id f = some m' → m.ids ⊆ m'.ids ∧ ∀ k inc', m'.live k = some inc' →
        inc'.id ∈ m.ids → ∃ inc, m.live k = some inc ∧ inc.Grows inc' := by
    intro key id f hf hact
    refine ⟨?_, fun k inc' hlive _ => live_actOn hf hact hlive⟩
    rw [ids_actOn hact]
    exact fun _ hid => hid
  have hself : m'.live = m.live → m'.ids = m.ids → m.ids ⊆ m'.ids ∧
      ∀ k inc', m'.live k = some inc' → inc'.id ∈ m.ids →
        ∃ inc, m.live k = some inc ∧ inc.Grows inc' := by
    intro hlive hids
    rw [hlive, hids]
    exact ⟨fun _ hid => hid, fun k inc' hinc _ => ⟨inc', hinc, .refl inc'⟩⟩
  cases o with
  | registered t id cfg time =>
    simp only [Incarnations.apply] at h
    split at h
    · rename_i hnew
      cases h
      refine ⟨fun _ hid => List.mem_cons_of_mem _ hid, ?_⟩
      intro k inc' hlive hid
      by_cases hk : k = cfg.key
      · subst hk
        simp only [Incarnations.set, Function.update_self, Option.some.injEq] at hlive
        rw [← hlive] at hid
        exact absurd hid hnew.2
      · refine ⟨inc', ?_, .refl inc'⟩
        simpa [Incarnations.set, Function.update_of_ne hk] using hlive
    · cases h
  | present t key id =>
    refine hkeep ?_ h
    intro inc inc' heq
    cases heq
    exact .refl inc
  | updated t x bytes sample v =>
    refine hkeep ?_ h
    intro inc inc' heq
    simp only [Option.ite_none_right_eq_some, Option.some.injEq] at heq
    rw [← heq.2]
    exact ⟨rfl, rfl, rfl, List.suffix_cons _ _⟩
  | ignored t x =>
    refine hkeep ?_ h
    intro inc inc' heq
    simp only [Option.ite_none_right_eq_some, Option.some.injEq] at heq
    rw [← heq.2]
    exact .refl inc
  | read t x seed bytes v =>
    refine hkeep ?_ h
    intro inc inc' heq
    simp only [Option.ite_none_right_eq_some, Option.some.injEq] at heq
    rw [← heq.2]
    exact inc.grows_ask seed
  | version t x v =>
    refine hkeep ?_ h
    intro inc inc' heq
    simp only [Option.ite_none_right_eq_some, Option.some.injEq] at heq
    rw [← heq.2]
    exact .refl inc
  | unnamed t =>
    cases h
    exact hself rfl rfl
  | failed t err =>
    cases h
    exact hself rfl rfl
  | removed t key id evicted =>
    simp only [Incarnations.apply] at h
    split at h
    · split at h
      · cases h
        refine ⟨fun _ hid => hid, ?_⟩
        intro k inc' hlive _
        by_cases hk : k = key
        · subst hk
          simp at hlive
        · refine ⟨inc', ?_, .refl inc'⟩
          simpa [Function.update_of_ne hk] using hlive
      · cases h
    · cases h
  | notified t key =>
    simp only [Incarnations.apply] at h
    split at h
    · cases h
    · split at h
      · cases h
        exact hself rfl rfl
      · cases h

/-- A history: a live incarnation whose identity was known was live before and only grew. -/
theorem live_replay {m m' : Incarnations τ} {os : List (Obs τ)}
    (h : replay Incarnations.apply m os = some m') :
    m.ids ⊆ m'.ids ∧ ∀ k inc', m'.live k = some inc' → inc'.id ∈ m.ids →
      ∃ inc, m.live k = some inc ∧ inc.Grows inc' := by
  induction os generalizing m with
  | nil =>
    cases h
    exact ⟨fun _ hid => hid, fun k inc' hlive _ => ⟨inc', hlive, .refl inc'⟩⟩
  | cons o os ih =>
    rw [replay_cons, Option.bind_eq_some_iff] at h
    obtain ⟨m₁, happly, hrest⟩ := h
    obtain ⟨hids₁, hstep⟩ := live_apply happly
    obtain ⟨hids₂, hrun⟩ := ih hrest
    refine ⟨fun _ hid => hids₂ (hids₁ hid), ?_⟩
    intro k inc' hlive hid
    obtain ⟨inc₁, hlive₁, hgrows₁⟩ := hrun k inc' hlive (hids₁ hid)
    rw [hgrows₁.id] at hid
    obtain ⟨inc, hlive₀, hgrows⟩ := hstep k inc₁ hlive₁ hid
    exact ⟨inc, hlive₀, hgrows.trans hgrows₁⟩

/-! ## What an eviction relies on -/

/--
The stamp means what the age test takes it for: it is past, or, before the first update,
the registration is at least the eviction age ago.
-/
def Entry.StampSound (e : Entry) (now : Nat) : Prop :=
  if e.hasValue then e.tsMs.toInt ≤ now
  else e.registeredAt + e.eviction.evictAgeMs.toNat ≤ now

/--
The two sections of an eviction see what they rely on: an age test that says evict reads
a sound stamp, and a delete that finds its generation finds the entry of the test.
-/
def Guarded (s : State τ) : Action τ → Prop
  | .advance t _ =>
    match s.pc t with
    | .lookedUp op ref =>
      ∀ e, s.table.entryMatches ref op.key = some e → op.evicts = true →
        e.agedOut s.now = true → e.StampSound s.now
    | .evicting op ref seen =>
      ∀ slot, s.table.entries.findEntry op.key = some slot →
        SameGeneration (s.table.generation slot) ref.generation →
        s.table.refOf slot = ref ∧ s.table.Stored slot op.key seen
    | _ => True
  | _ => True

/-- A word that says old enough is right about a sample that is past. -/
theorem age_le_of_past {now evictAge : Nat} {ts : UInt64} {sample : Int}
    (hword : (ts.toNat : Int) = sample % 2 ^ 64) (hpast : sample ≤ now)
    (hage : evictAge ≤ (UInt64.ofNat now - ts).toNat) : sample + evictAge ≤ now := by
  rw [UInt64.toNat_sub, UInt64.toNat_ofNat'] at hage
  have hlt := ts.toNat_lt
  omega

/-- A sound age test is right about the incarnation. -/
theorem aged_of_agedOut {e : Entry} {inc : Incarnation} {now : Nat} (h : Represents now e inc)
    (haged : e.agedOut now = true) (hsound : e.StampSound now) : inc.Aged now := by
  unfold Entry.agedOut at haged
  split at haged
  · cases haged
  · rename_i hpolicy
    have hword : e.eviction.evictAgeMs.toNat ≤ (UInt64.ofNat now - e.tsMs.toUInt64).toNat := by
      simp only [evaluateAge, ageClassify] at haged
      split at haged
      · assumption
      · split at haged
        · cases haged
        · split at haged <;> cases haged
    refine ⟨?_, ?_⟩
    · rw [← h.eviction]
      exact not_not.mp hpolicy
    · rw [← h.eviction]
      unfold Entry.StampSound at hsound
      unfold Incarnation.latest
      split
      · rename_i w ws hwrites
        have hvalue : e.hasValue = true := h.hasValue.mpr (by simp [hwrites])
        rw [if_pos hvalue] at hsound
        have hpast : w.sample ≤ now := by
          rcases h.sampled w ws hwrites with heq | hle
          · rw [heq]
            exact hsound
          · exact hle
        exact age_le_of_past (h.stamp w ws hwrites) hpast hword
      · rename_i hwrites
        have hvalue : ¬ e.hasValue = true := fun hv => h.hasValue.mp hv hwrites
        rw [if_neg hvalue, h.registered] at hsound
        exact_mod_cast hsound

/-! ## Runs -/

/--
An eviction between its two sections: unless the incarnation of its test was written or
removed, it is still old enough.
-/
def Pending (s : State τ) (m : Incarnations τ) : Prop :=
  ∀ t op ref seen, s.pc t = .evicting op ref seen → ref ∈ m.ids ∧
    ∀ inc, m.live op.key = some inc → inc.id = ref →
      seen.stateVersion ≤ inc.writes.length ∧
        (inc.writes.length = seen.stateVersion → inc.Aged s.now)

theorem pending_step {s : State τ} {a : Action τ} {m m' : Incarnations τ} (hsim : Simulates s m)
    (hpending : Pending s m) (hguard : Guarded s a)
    (hreplay : replay Incarnations.apply m (s.shows a) = some m') : Pending (s.step a) m' := by
  intro t op ref seen hpc
  obtain ⟨hids, hlived⟩ := live_replay hreplay
  -- what holds of the incarnation before the step holds of the grown one after it
  have hcarry : ref ∈ m.ids → (∀ inc, m.live op.key = some inc → inc.id = ref →
      seen.stateVersion ≤ inc.writes.length ∧
        (inc.writes.length = seen.stateVersion → inc.Aged s.now)) →
      ref ∈ m'.ids ∧ ∀ inc', m'.live op.key = some inc' → inc'.id = ref →
        seen.stateVersion ≤ inc'.writes.length ∧
          (inc'.writes.length = seen.stateVersion → inc'.Aged (s.step a).now) := by
    intro hmem hold
    refine ⟨hids hmem, ?_⟩
    intro inc' hlive' hid'
    obtain ⟨inc, hlive, hgrows⟩ := hlived op.key inc' hlive' (hid' ▸ hmem)
    obtain ⟨hle, haged⟩ := hold inc hlive (hgrows.id ▸ hid')
    have hlength := hgrows.writes.length_le
    refine ⟨Nat.le_trans hle hlength, ?_⟩
    intro heq
    have hsame : inc.writes.length = inc'.writes.length := by omega
    have hwrites := hgrows.writes.eq_of_length hsame
    exact (haged (hsame.trans heq)).later hgrows hwrites.symm (now_mono s a)
  cases step_pc s a t with
  | same hsame =>
    rw [hsame] at hpc
    obtain ⟨hmem, hold⟩ := hpending t op ref seen hpc
    exact hcarry hmem hold
  | settled hsettled =>
    rw [hpc] at hsettled
    exact hsettled.elim
  | looked op' ref' hlooked hfind htable =>
    rw [hlooked] at hpc
    cases hpc
  | tested op' ref' seen' htested hold hmatch hevicts haged hact =>
    rw [htested] at hpc
    cases hpc
    obtain ⟨snap, rfl⟩ := hact
    obtain ⟨hstored, _⟩ := Table.stored_of_entryMatches hmatch
    obtain ⟨inc, hlive, hid, hrep⟩ := hsim.holds.stored ref'.slot op.key seen hstored
    have hsound : seen.StampSound s.now := by
      simp only [Guarded, hold] at hguard
      exact hguard seen hmatch hevicts haged
    refine hcarry (hid ▸ hsim.holds.known op.key inc hlive) ?_
    intro inc₀ hlive₀ _
    rw [hlive] at hlive₀
    cases hlive₀
    exact ⟨Nat.le_of_eq hrep.version, fun _ => aged_of_agedOut hrep haged hsound⟩

/-- The delete of an eviction that sees what it relies on frees an old incarnation. -/
theorem evict_aged (maxTopics : Nat) (as : List (Action τ)) (a : Action τ)
    (hguard : Along State.step Guarded (State.init maxTopics) (as ++ [a])) {t : τ} {key : Key}
    {id : EntryRef} (hevict : .removed t key id true ∈ (State.after maxTopics as).shows a) :
    ∃ m inc, replay Incarnations.apply Incarnations.init (history maxTopics as) = some m ∧
      m.live key = some inc ∧ inc.id = id ∧ inc.Aged (State.after maxTopics as).now := by
  obtain ⟨hbefore, hlast⟩ := (along_append State.step Guarded (State.init maxTopics) as [a]).mp hguard
  have hinit : Simulates (State.init maxTopics : State τ) Incarnations.init ∧
      Pending (State.init maxTopics : State τ) Incarnations.init := by
    refine ⟨⟨holds_init maxTopics 0, fun _ => rfl⟩, ?_⟩
    intro t op ref seen hpc
    cases hpc
  have hstep : ∀ (s : State τ) (a : Action τ) (m : Incarnations τ), Simulates s m ∧ Pending s m →
      Guarded s a → ∃ m', replay Incarnations.apply m (s.shows a) = some m' ∧
        Simulates (s.step a) m' ∧ Pending (s.step a) m' := by
    intro s a m hrel hg
    obtain ⟨m', hreplay, hsim'⟩ := step_simulates s a m hrel.1
    exact ⟨m', hreplay, hsim', pending_step hrel.1 hrel.2 hg hreplay⟩
  obtain ⟨m, hreplay, hsim, hpending⟩ := replay_outputs_along hstep hinit hbefore
  cases shown_cases hevict with
  | plain hplain => cases hplain
  | acted t' op ref e snap hact hpc hmatch hmem =>
    exact absurd hmem (removed_notMem_act op t' _ e snap _ t key id true)
  | evicted t' op ref seen snap id' hact hpc hfreed heq =>
    cases heq
    subst hact
    obtain ⟨slot, hfind, hgen, rfl⟩ := Table.deleteIfGeneration_freed hfreed
    have hfound : Guarded (State.after maxTopics as) (.advance t snap) := hlast.1
    simp only [Guarded, hpc] at hfound
    obtain ⟨href, hstored⟩ := hfound slot hfind hgen
    obtain ⟨inc, hlive, hid, hrep⟩ := hsim.holds.stored slot op.key seen hstored
    obtain ⟨_, hold⟩ := hpending t op ref seen hpc
    obtain ⟨_, haged⟩ := hold inc hlive (hid.trans href)
    exact ⟨m, inc, hreplay, hlive, hid, haged hrep.version.symm⟩

/--
Every slot an eviction of the run frees holds an `AGE_OUT` incarnation whose latest
sample, or whose registration if it was never updated, is at least its eviction age ago
at the step that frees it.
-/
def EvictsAged (maxTopics : Nat) (as : List (Action τ)) : Prop :=
  ∀ sofar a, sofar ++ [a] <+: as → ∀ t key id,
    .removed t key id true ∈ (State.after maxTopics sofar).shows a →
    ∃ m inc, replay Incarnations.apply Incarnations.init (history maxTopics sofar) = some m ∧
      m.live key = some inc ∧ inc.id = id ∧ inc.Aged (State.after maxTopics sofar).now

/-- A run whose evictions see what they rely on evicts only what is old enough. -/
theorem evicts_only_aged (maxTopics : Nat) (as : List (Action τ))
    (hguard : Along State.step Guarded (State.init maxTopics) as) : EvictsAged maxTopics as := by
  intro sofar a hsofar t key id hevict
  obtain ⟨rest, rfl⟩ := hsofar
  exact evict_aged maxTopics sofar a ((along_append _ _ _ _ rest).mp hguard).1 hevict

/-! ## Evictions that go wrong -/

/-- An owned entry of one byte that is evicted after a second. -/
def secondCfg (b : UInt8) : Config where
  key := [b]
  snapshot := false
  snapSize := 1
  eviction := { policy := .ageOut, staleAgeMs := 0, evictAgeMs := 1000 }

/-- Write the byte, sampled at `ts`, or now. -/
def secondReq (ts : Int64) : UpdateReq where
  key := [107]
  snap := fun _ => 7
  tsMs := ts

/-- A reader runs its lookup and its age test. -/
def testSections : List (Action Bool) :=
  [.start true (.getRaw [107] 1), .advance true none]

/-- Another caller updates the key. -/
def updateSections (ts : Int64) : List (Action Bool) :=
  [.start false (.update (secondReq ts)), .advance false none]

/-- Updated once, and not read for two seconds. -/
def oldRun : List (Action Bool) :=
  [.start false (.register (secondCfg 107) true)] ++ updateSections 0 ++ [.tick 2000] ++
    testSections ++ [.advance true none]

/-- The entry of the key after the update of `oldRun`. -/
def oldEntry : Entry :=
  { (secondCfg 107).entry (some [7]) 0 with hasValue := true, stateVersion := 1 }

theorem guarded_oldRun : Along State.step Guarded (State.init 1) oldRun := by
  refine ⟨trivial, trivial, ?_, trivial, trivial, ?_, ?_, trivial⟩
  · intro e _ hevicts
    cases hevicts
  · intro e he _ _
    have hfound : some oldEntry = some e := he
    cases hfound
    show ((0 : Int64).toInt ≤ 2000)
    decide
  · intro slot hslot _
    have hfound : some 0 = some slot := hslot
    cases hfound
    exact ⟨rfl, rfl⟩

theorem evicts_only_aged_oldRun : EvictsAged 1 oldRun :=
  evicts_only_aged 1 oldRun guarded_oldRun

example : .removed true [107] ⟨0, 1⟩ true ∈ history 1 oldRun := by decide +kernel

/-- Registered an hour after boot, and read before the first update. -/
def freshRun : List (Action Bool) :=
  [.tick 3600000, .start false (.register (secondCfg 107) true)] ++ testSections ++
    [.advance true none]

/-- Updated between the age test and the delete. -/
def lateUpdateRun : List (Action Bool) :=
  [.start false (.register (secondCfg 107) true)] ++ updateSections 0 ++ [.tick 2000] ++
    testSections ++ updateSections 0 ++ [.advance true none]

/-- Updated with a stamp in the future. -/
def futureRun : List (Action Bool) :=
  [.start false (.register (secondCfg 107) true)] ++ updateSections 5 ++ testSections ++
    [.advance true none]

/-- Deleted and registered in another slot, at the same generation, before the delete. -/
def movedRun : List (Action Bool) :=
  [.start false (.register (secondCfg 107) true)] ++ updateSections 0 ++ [.tick 2000] ++
    testSections ++
    [.start false (.delete [107]), .advance false none,
      .start false (.register (secondCfg 108) true),
      .start false (.register (secondCfg 107) true), .advance true none]

theorem not_evictsAged {maxTopics : Nat} {sofar : List (Action τ)} {a : Action τ} {t : τ} {key : Key}
    {id : EntryRef} (inc : Incarnation) (hevict : .removed t key id true ∈
      (State.after maxTopics sofar).shows a)
    (hlive : (replay Incarnations.apply Incarnations.init (history maxTopics sofar)).bind
      (fun m => m.live key) = some inc)
    (hyoung : ¬ inc.latest + inc.eviction.evictAgeMs.toNat ≤ (State.after maxTopics sofar).now) :
    ¬ EvictsAged maxTopics (sofar ++ [a]) := by
  intro haged
  obtain ⟨m, inc', hreplay, hlive', _, hold⟩ := haged sofar a (List.prefix_refl _) t key id hevict
  rw [hreplay, Option.bind_some, hlive'] at hlive
  cases hlive
  exact hyoung hold.age

/--
An entry registered now is evicted by the time since boot; an update that came between
the age test and the delete is undone; a sample from the future counts as ancient; and a
new registration of the key whose slot has the same generation is evicted for the old one.
-/
theorem evicts_too_young :
    ¬ EvictsAged 1 freshRun ∧ ¬ EvictsAged 1 lateUpdateRun ∧ ¬ EvictsAged 1 futureRun ∧
      ¬ EvictsAged 2 movedRun := by
  refine ⟨?_, ?_, ?_, ?_⟩
  · exact @not_evictsAged _ _ 1 freshRun.dropLast (.advance true none) true [107] ⟨0, 1⟩
      (.fresh ⟨0, 1⟩ (secondCfg 107) 3600000) (by decide +kernel) (by decide +kernel)
      (by decide +kernel)
  · exact @not_evictsAged _ _ 1 lateUpdateRun.dropLast (.advance true none) true [107] ⟨0, 1⟩
      (((Incarnation.fresh ⟨0, 1⟩ (secondCfg 107) 0).written ⟨[7], 0⟩).written ⟨[7], 2000⟩)
      (by decide +kernel) (by decide +kernel) (by decide +kernel)
  · exact @not_evictsAged _ _ 1 futureRun.dropLast (.advance true none) true [107] ⟨0, 1⟩
      ((Incarnation.fresh ⟨0, 1⟩ (secondCfg 107) 0).written ⟨[7], 5⟩)
      (by decide +kernel) (by decide +kernel) (by decide +kernel)
  · exact @not_evictsAged _ _ 2 movedRun.dropLast (.advance true none) true [107] ⟨1, 1⟩
      (.fresh ⟨1, 1⟩ (secondCfg 107) 2000) (by decide +kernel) (by decide +kernel)
      (by decide +kernel)

end Cache
end Breadboard
