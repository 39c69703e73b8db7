import Breadboard.Cache.Incarnations

/-!
# The cache simulates the map of incarnations

An entry and its incarnation are related field by field; the slots of the table
are related to the live incarnations by identity, the slot and its generation.
Every lock section keeps the relation.

Main results:

- Theorems `represents_update` and `read_content`: one entry under its
  lock does what its incarnation does.

- Theorem `step_simulates`: every lock section is a legal event of the map.
-/

namespace Breadboard
namespace Cache

open Foundations

universe u

variable {τ : Type u} [DecidableEq τ]

/-! ## The relation -/

/-- At this time an entry holds what its incarnation says. -/
structure Represents (now : Nat) (e : Entry) (inc : Incarnation) : Prop where
  size : e.size = inc.size
  owned : e.owned.isSome = inc.owned
  fallback : e.snapshot = inc.fallback
  eviction : e.eviction = inc.eviction
  registered : e.registeredAt = inc.registeredAt
  hasValue : e.hasValue = true ↔ inc.writes ≠ []
  asked : e.fallbackSeeded = inc.asked.isSome
  bytes : ∀ b, e.owned = some b → b = inc.content
  version : e.stateVersion = inc.writes.length
  stamp : ∀ w ws, inc.writes = w :: ws → (e.tsMs.toUInt64.toNat : Int) = w.sample % 2 ^ 64
  -- a sample the clock gave is past; one the caller gave is the stamp itself
  sampled : ∀ w ws, inc.writes = w :: ws → w.sample = e.tsMs.toInt ∨ w.sample ≤ now

/-- The used slots are the live incarnations, under their slots' generations. -/
structure Table.Holds (t : Table) (now : Nat) (m : Incarnations τ) : Prop where
  stored : ∀ i k e, t.Stored i k e →
    ∃ inc, m.live k = some inc ∧ inc.id = t.refOf i ∧ Represents now e inc
  live : ∀ k inc, m.live k = some inc → ∃ i e, t.Stored i k e
  known : ∀ k inc, m.live k = some inc → inc.id ∈ m.ids
  ids : ∀ id ∈ m.ids, id.generation ≤ t.generation id.slot

/-- The cache holds the map, and the callers owe the hooks the map says they owe. -/
structure Simulates (s : State τ) (m : Incarnations τ) : Prop where
  holds : s.table.Holds s.now m
  owed : ∀ t, m.owed t = (s.pc t).owed

omit [DecidableEq τ] in
/-- At most one slot carries a key. -/
theorem Table.Holds.slot_unique {t : Table} {now : Nat} {m : Incarnations τ} (h : t.Holds now m) {i j : Nat}
    {k : Key} {e e' : Entry} (hi : t.Stored i k e) (hj : t.Stored j k e') : i = j := by
  obtain ⟨inc, hinc, hid, _⟩ := h.stored i k e hi
  obtain ⟨inc', hinc', hid', _⟩ := h.stored j k e' hj
  rw [hinc] at hinc'
  cases hinc'
  rw [hid] at hid'
  exact congrArg EntryRef.slot hid'

omit [DecidableEq τ] in
theorem Table.Holds.live_eq_none {t : Table} {now : Nat} {m : Incarnations τ} (h : t.Holds now m) {k : Key}
    (hfind : t.entries.findEntry k = none) : m.live k = none := by
  cases hlive : m.live k with
  | none => rfl
  | some inc =>
    obtain ⟨i, e, hslot⟩ := h.live k inc hlive
    exact absurd hslot (Table.not_stored_of_findEntry hfind i e)

omit [DecidableEq τ] in
theorem holds_init (maxTopics now : Nat) :
    (Table.init maxTopics).Holds now (Incarnations.init : Incarnations τ) where
  stored := by
    intro i k e h
    simp [Table.Stored, Table.init, List.getElem?_replicate] at h
  live := by
    intro k inc h
    cases h
  known := by
    intro k inc h
    cases h
  ids := by
    intro id h
    cases h

/-! ## One entry -/

@[simp] theorem length_copyOf (size : Nat) (src : Memory) : (copyOf size src).length = size := by
  simp [copyOf]

theorem represents_fresh {cfg : Config} {owned : Option Bytes} {id : EntryRef} {now : Nat}
    (howned : owned = if 0 < cfg.snapSize then some (List.replicate cfg.snapSize 0) else none) :
    Represents now (cfg.entry owned now) (Incarnation.fresh id cfg now) where
  size := rfl
  owned := by
    rw [howned]
    by_cases hsize : 0 < cfg.snapSize <;> simp [Config.entry, Incarnation.fresh, hsize]
  fallback := rfl
  eviction := rfl
  registered := rfl
  hasValue := by simp [Config.entry, Incarnation.fresh]
  asked := rfl
  bytes := by
    intro b hb
    by_cases hsize : 0 < cfg.snapSize
    · simp only [Config.entry, howned, if_pos hsize, Option.some.injEq] at hb
      simp [Incarnation.content, Incarnation.fresh, hb]
    · simp [Config.entry, howned, hsize] at hb
  version := rfl
  stamp := by
    intro w ws h
    cases h
  sampled := by
    intro w ws h
    cases h

theorem stamp_eq_sample (req : UpdateReq) (now : Nat) :
    ((req.stamp now).toUInt64.toNat : Int) = req.sample now % 2 ^ 64 := by
  unfold UpdateReq.stamp UpdateReq.sample
  split
  · exact toUInt64_eq_emod req.tsMs
  · exact toUInt64_ofNat_eq_emod now

theorem sample_eq_or_le (req : UpdateReq) (now : Nat) :
    req.sample now = (req.stamp now).toInt ∨ req.sample now ≤ now := by
  unfold UpdateReq.stamp UpdateReq.sample
  split
  · exact Or.inl rfl
  · exact Or.inr (Int.le_refl _)

/-- An update of an owned entry is one more write. -/
theorem represents_update {now : Nat} {e : Entry} {inc : Incarnation} (h : Represents now e inc)
    (howned : e.owned ≠ none) (req : UpdateReq) :
    let new := inc.written { bytes := copyOf e.size req.snap, sample := req.sample now }
    Represents now (e.update req now).2 new ∧
      (e.update req now).1.notified = some new.version := by
  obtain ⟨old, hold⟩ := Option.ne_none_iff_exists'.mp howned
  have hversion : e.stateVersion + 1 = inc.writes.length + 1 := by rw [h.version]
  simp only [Entry.update, hold]
  refine ⟨?_, congrArg (fun n => some (UInt32.ofNat n)) hversion⟩
  constructor
  · exact h.size
  · exact (Option.isSome_iff_ne_none.mpr howned).symm.trans h.owned
  · exact h.fallback
  · exact h.eviction
  · exact h.registered
  · simp [Incarnation.written]
  · exact h.asked
  · intro b hb
    cases hb
    rfl
  · exact hversion
  · intro w ws hw
    cases hw
    exact stamp_eq_sample req now
  · intro w ws hw
    cases hw
    exact sample_eq_or_le req now

/-- A read of an owned entry asks the getter as the incarnation does. -/
theorem represents_seed {now : Nat} {e : Entry} {inc : Incarnation} (h : Represents now e inc)
    (howned : e.owned ≠ none) (snap : Option Memory) :
    Represents now (e.maybeSeedFallback snap now) (inc.ask (snap.map (copyOf e.size))) := by
  have hasked : inc.asked = none ↔ e.fallbackSeeded = false := by
    rw [h.asked]
    cases inc.asked <;> simp
  have hwrites : inc.writes = [] ↔ e.hasValue = false := by
    rw [← not_iff_not, ← ne_eq, ← h.hasValue]
    simp
  unfold Entry.maybeSeedFallback Incarnation.ask
  by_cases hgetter : e.snapshot = false
  · rw [if_pos hgetter, if_neg]
    · exact h
    · rw [← h.fallback, hgetter]
      simp
  · rw [if_neg hgetter]
    by_cases hdone : (e.hasValue || e.fallbackSeeded) = true
    · rw [if_pos hdone, if_neg]
      · exact h
      · rw [hwrites, hasked]
        rintro ⟨_, hvalue, hseeded⟩
        simp [hvalue, hseeded] at hdone
    · rw [if_neg hdone]
      simp only [Bool.or_eq_true, not_or, Bool.not_eq_true] at hdone
      obtain ⟨hvalue, hseeded⟩ := hdone
      have hfallback : inc.fallback = true := by
        rw [← h.fallback]
        simpa using hgetter
      rw [if_pos ⟨hfallback, hwrites.mpr hvalue, hasked.mpr hseeded⟩]
      cases snap with
      | none =>
        exact { h with
          asked := rfl
          bytes := by
            intro b hb
            rw [h.bytes b hb]
            simp [Incarnation.content, hwrites.mpr hvalue, hasked.mpr hseeded] }
      | some src =>
        exact { h with
          owned := by
            rw [← h.owned]
            exact (Option.isSome_iff_ne_none.mpr howned).symm
          asked := rfl
          bytes := by
            intro b hb
            cases hb
            simp [Incarnation.content, hwrites.mpr hvalue]
          stamp := by
            intro w ws hw
            rw [hwrites.mpr hvalue] at hw
            cases hw
          sampled := by
            intro w ws hw
            rw [hwrites.mpr hvalue] at hw
            cases hw }

/-- A read of an owned entry returns the content and the version of its incarnation. -/
theorem read_content {now : Nat} {e : Entry} {inc : Incarnation} (h : Represents now e inc)
    {cap : Nat} {snap : Option Memory} {out : Captured} {e' : Entry}
    (hread : e.copyOwnedAndCapture cap snap now = (.ok out, e')) :
    let asked := inc.ask (snap.map (copyOf e.size))
    Represents now e' asked ∧ inc.owned = true ∧ out.bytes = asked.content ∧
      out.version = asked.version := by
  unfold Entry.copyOwnedAndCapture at hread
  split at hread
  · cases hread
  · rename_i howned
    split at hread
    · cases hread
    · cases hread
      have hseed := represents_seed h howned snap
      have hown : inc.owned = true := h.owned ▸ Option.isSome_iff_ne_none.mpr howned
      refine ⟨hseed, hown, ?_, congrArg UInt32.ofNat hseed.version⟩
      have hsome : (e.maybeSeedFallback snap now).owned.isSome = true := by
        rw [hseed.owned]
        unfold Incarnation.ask
        split <;> exact hown
      obtain ⟨b, hb⟩ := Option.isSome_iff_exists.mp hsome
      rw [hb]
      exact hseed.bytes b hb

theorem read_error {e : Entry} {cap : Nat} {snap : Option Memory} {now : Nat} {err : BbErr}
    {e' : Entry} (hread : e.copyOwnedAndCapture cap snap now = (.error err, e')) : e' = e := by
  unfold Entry.copyOwnedAndCapture at hread
  split at hread
  · cases hread
    rfl
  · split at hread
    · cases hread
      rfl
    · cases hread

omit [DecidableEq τ] in
theorem ask_id (inc : Incarnation) (seed : Option Bytes) : (inc.ask seed).id = inc.id := by
  unfold Incarnation.ask
  split <;> rfl

/-- What an operation shows is accepted by the incarnation it acts on. -/
theorem act_legal {op : Op} {t : τ} {x : Target} {e : Entry} {snap : Option Memory} {now : Nat}
    {m : Incarnations τ} {inc : Incarnation} (hlive : m.live x.key = some inc)
    (hid : inc.id = x.id) (hrep : Represents now e inc) :
    ∃ inc', inc'.id = inc.id ∧ Represents now (op.act t x e snap now).2 inc' ∧
      replay Incarnations.apply m (op.act t x e snap now).1 = some (m.set x.key inc') := by
  have hsame : m.set x.key inc = m := Incarnations.set_self hlive
  have hact : ∀ f, m.actOn x.key x.id f = (f inc).map (m.set x.key) := by
    intro f
    rw [← hid]
    exact Incarnations.actOn_of_live hlive f
  have hfail : ∀ err, replay Incarnations.apply m [Obs.failed t err] = some (m.set x.key inc) := by
    intro err
    rw [hsame]
    rfl
  cases op with
  | update req =>
    by_cases howned : e.owned = none
    · have hun : inc.owned = false := by
        rw [← hrep.owned, howned]
        rfl
      refine ⟨inc, rfl, ?_, ?_⟩
      · simpa [Op.act, Entry.update, howned] using hrep
      · simp [Op.act, Entry.update, howned, Incarnations.apply, hact, hun]
    · obtain ⟨hnew, hversion⟩ := represents_update hrep howned req
      have hown : inc.owned = true := hrep.owned ▸ Option.isSome_iff_ne_none.mpr howned
      obtain ⟨old, hold⟩ := Option.ne_none_iff_exists'.mp howned
      refine ⟨inc.written { bytes := copyOf e.size req.snap, sample := req.sample now }, rfl,
        ?_, ?_⟩
      · simpa [Op.act, Entry.update, hold] using hnew
      · simp only [Op.act, Entry.update, hold] at hversion ⊢
        rw [hversion]
        simp [Incarnations.apply, hact, hown, hrep.size]
  | getRaw key cap =>
    cases hread : e.copyOwnedAndCapture cap snap now with
    | mk result e' =>
      cases result with
      | error err =>
        refine ⟨inc, rfl, ?_, ?_⟩
        · simpa [Op.act, hread, read_error hread] using hrep
        · simpa [Op.act, hread] using hfail err
      | ok out =>
        obtain ⟨hseed, hown, hbytes, _⟩ := read_content hrep hread
        refine ⟨_, ask_id inc _, by simpa [Op.act, hread] using hseed, ?_⟩
        simp [Op.act, hread, Incarnations.apply, hact, hown, hbytes]
  | snapshot key cap =>
    cases hread : e.copyOwnedAndCapture cap snap now with
    | mk result e' =>
      cases result with
      | error err =>
        refine ⟨inc, rfl, ?_, ?_⟩
        · simpa [Op.act, hread, read_error hread] using hrep
        · simpa [Op.act, hread] using hfail err
      | ok out =>
        obtain ⟨hseed, hown, hbytes, hversion⟩ := read_content hrep hread
        refine ⟨_, ask_id inc _, by simpa [Op.act, hread] using hseed, ?_⟩
        simp [Op.act, hread, Incarnations.apply, hact, hown, hbytes, hversion]
  | stateVersion key =>
    refine ⟨inc, rfl, hrep, ?_⟩
    simp [Op.act, Incarnations.apply, hact, hrep.version, Incarnation.version]
  | sweep key rest =>
    refine ⟨inc, rfl, hrep, ?_⟩
    rw [hsame]
    rfl

/-! ## The table -/

theorem Represents.later {now now' : Nat} {e : Entry} {inc : Incarnation}
    (h : Represents now e inc) (hle : now ≤ now') : Represents now' e inc :=
  { h with
    sampled := by
      intro w ws hw
      have hsampled := h.sampled w ws hw
      omega }

omit [DecidableEq τ] in
theorem Table.Holds.later {t : Table} {now now' : Nat} {m : Incarnations τ} (h : t.Holds now m)
    (hle : now ≤ now') : t.Holds now' m :=
  { h with
    stored := by
      intro i k e hi
      obtain ⟨inc, hlive, hid, hrep⟩ := h.stored i k e hi
      exact ⟨inc, hlive, hid, hrep.later hle⟩ }

omit [DecidableEq τ] in
theorem Table.Holds.set {t : Table} {now : Nat} {m : Incarnations τ} (h : t.Holds now m) {i : Nat} {k : Key}
    {e e' : Entry} {inc inc' : Incarnation} (hi : t.Stored i k e) (hlive : m.live k = some inc)
    (hid : inc'.id = inc.id) (hrep : Represents now e' inc') :
    (t.setEntry i k e').Holds now (m.set k inc') where
  stored := by
    intro j k' e'' hj
    rw [Table.stored_setEntry hi] at hj
    by_cases hij : i = j
    · rw [if_pos hij] at hj
      obtain ⟨rfl, rfl⟩ := hj
      obtain ⟨inc₀, hinc₀, hid₀, _⟩ := h.stored i k e hi
      rw [hlive] at hinc₀
      cases hinc₀
      refine ⟨inc', by simp [Incarnations.set], ?_, hrep⟩
      rw [hid, hid₀, hij]
      rfl
    · rw [if_neg hij] at hj
      have hk : k' ≠ k := by
        rintro rfl
        exact hij (h.slot_unique hi hj)
      obtain ⟨inc₀, hinc₀, hid₀, hrep₀⟩ := h.stored j k' e'' hj
      refine ⟨inc₀, ?_, hid₀, hrep₀⟩
      simpa [Incarnations.set, Function.update_of_ne hk] using hinc₀
  live := by
    intro k' inc₀ hinc₀
    by_cases hk : k' = k
    · refine ⟨i, e', (Table.stored_setEntry hi e' i k' e').mpr ?_⟩
      rw [if_pos rfl]
      exact ⟨hk.symm, rfl⟩
    · have hold : m.live k' = some inc₀ := by
        simpa [Incarnations.set, Function.update_of_ne hk] using hinc₀
      obtain ⟨j, e'', hj⟩ := h.live k' inc₀ hold
      refine ⟨j, e'', (Table.stored_setEntry hi e' j k' e'').mpr ?_⟩
      rw [if_neg]
      · exact hj
      · rintro rfl
        unfold Table.Stored at hi hj
        rw [hi] at hj
        cases hj
        exact hk rfl
  known := by
    intro k' inc₀ hinc₀
    by_cases hk : k' = k
    · subst hk
      simp only [Incarnations.set, Function.update_self, Option.some.injEq] at hinc₀
      rw [← hinc₀, hid]
      exact h.known k' inc hlive
    · refine h.known k' inc₀ ?_
      simpa [Incarnations.set, Function.update_of_ne hk] using hinc₀
  ids := h.ids

omit [DecidableEq τ] in
theorem Table.Holds.fill {t : Table} {now : Nat} {m : Incarnations τ} (h : t.Holds now m) {i : Nat} {k : Key}
    {e : Entry} {inc : Incarnation} (hnew : t.entries.findEntry k = none)
    (hfree : t.entries.findFree = some i) (hk : k ≠ []) (hid : inc.id = (t.fill i k e).refOf i)
    (hrep : Represents now e inc) :
    (t.fill i k e).Holds now { m.set k inc with ids := inc.id :: m.ids } where
  stored := by
    intro j k' e' hj
    rw [Table.stored_fill hfree hk] at hj
    by_cases hij : i = j
    · rw [if_pos hij] at hj
      obtain ⟨rfl, rfl⟩ := hj
      subst hij
      exact ⟨inc, by simp [Incarnations.set], hid, hrep⟩
    · rw [if_neg hij] at hj
      have hk' : k' ≠ k := by
        rintro rfl
        exact Table.not_stored_of_findEntry hnew j e' hj
      obtain ⟨inc₀, hinc₀, hid₀, hrep₀⟩ := h.stored j k' e' hj
      refine ⟨inc₀, ?_, ?_, hrep₀⟩
      · simpa [Incarnations.set, Function.update_of_ne hk'] using hinc₀
      · rw [hid₀]
        simp [Table.refOf, Table.fill, Function.update_of_ne (Ne.symm hij)]
  live := by
    intro k' inc₀ hinc₀
    by_cases hk' : k' = k
    · refine ⟨i, e, (Table.stored_fill hfree hk e i k' e).mpr ?_⟩
      rw [if_pos rfl]
      exact ⟨hk'.symm, rfl⟩
    · have hold : m.live k' = some inc₀ := by
        simpa [Incarnations.set, Function.update_of_ne hk'] using hinc₀
      obtain ⟨j, e', hj⟩ := h.live k' inc₀ hold
      refine ⟨j, e', (Table.stored_fill hfree hk e j k' e').mpr ?_⟩
      rw [if_neg]
      · exact hj
      · rintro rfl
        have hnone := Slots.getElem?_of_findFree hfree
        unfold Table.Stored at hj
        rw [hnone] at hj
        cases hj
  known := by
    intro k' inc₀ hinc₀
    by_cases hk' : k' = k
    · subst hk'
      simp only [Incarnations.set, Function.update_self, Option.some.injEq] at hinc₀
      rw [← hinc₀]
      exact List.mem_cons_self
    · refine List.mem_cons_of_mem _ (h.known k' inc₀ ?_)
      simpa [Incarnations.set, Function.update_of_ne hk'] using hinc₀
  ids := by
    intro id hmem
    rcases List.mem_cons.mp hmem with rfl | hold
    · rw [hid]
      exact Nat.le_refl _
    · exact Nat.le_trans (h.ids id hold) (le_bump t.generation i id.slot)

omit [DecidableEq τ] in
/-- An empty key leaves the slot free, at its next generation. -/
theorem Table.Holds.fill_nil {t : Table} {now : Nat} {m : Incarnations τ} (h : t.Holds now m) {i : Nat}
    (hfree : t.entries.findFree = some i) (e : Entry) : (t.fill i [] e).Holds now m where
  stored := by
    intro j k e' hj
    rw [Table.stored_fill_nil hfree] at hj
    have hij : j ≠ i := by
      rintro rfl
      have hnone := Slots.getElem?_of_findFree hfree
      unfold Table.Stored at hj
      rw [hnone] at hj
      cases hj
    obtain ⟨inc, hinc, hid, hrep⟩ := h.stored j k e' hj
    refine ⟨inc, hinc, ?_, hrep⟩
    rw [hid]
    simp [Table.refOf, Table.fill, Function.update_of_ne hij]
  live := by
    intro k inc hinc
    obtain ⟨j, e', hj⟩ := h.live k inc hinc
    exact ⟨j, e', (Table.stored_fill_nil hfree e j k e').mpr hj⟩
  known := h.known
  ids := by
    intro id hmem
    exact Nat.le_trans (h.ids id hmem) (le_bump t.generation i id.slot)

omit [DecidableEq τ] in
/-- A new identity is one past every identity given to its slot. -/
theorem Table.Holds.fresh {t : Table} {now : Nat} {m : Incarnations τ} (h : t.Holds now m) (i : Nat) (k : Key)
    (e : Entry) : (t.fill i k e).refOf i ∉ m.ids := by
  intro hmem
  have hle := h.ids _ hmem
  simp only [Table.refOf, Table.fill, Function.update_self] at hle
  exact Nat.not_succ_le_self _ hle

omit [DecidableEq τ] in
theorem Table.Holds.teardown {t : Table} {now : Nat} {m : Incarnations τ} (h : t.Holds now m) {i : Nat} {k : Key}
    {e : Entry} (hi : t.Stored i k e) (owed : τ → List Key) :
    (t.teardown i).Holds now { m with live := Function.update m.live k none, owed := owed } where
  stored := by
    intro j k' e' hj
    rw [Table.stored_teardown] at hj
    obtain ⟨hij, hj⟩ := hj
    have hk : k' ≠ k := by
      rintro rfl
      exact hij (h.slot_unique hi hj)
    obtain ⟨inc, hinc, hid, hrep⟩ := h.stored j k' e' hj
    refine ⟨inc, ?_, ?_, hrep⟩
    · simpa [Function.update_of_ne hk] using hinc
    · rw [hid]
      simp [Table.refOf, Table.teardown, Function.update_of_ne (Ne.symm hij)]
  live := by
    intro k' inc hinc
    have hk : k' ≠ k := by
      rintro rfl
      simp at hinc
    have hold : m.live k' = some inc := by simpa [Function.update_of_ne hk] using hinc
    obtain ⟨j, e', hj⟩ := h.live k' inc hold
    refine ⟨j, e', (Table.stored_teardown t i j k' e').mpr ⟨?_, hj⟩⟩
    rintro rfl
    unfold Table.Stored at hi hj
    rw [hi] at hj
    cases hj
    exact hk rfl
  known := by
    intro k' inc hinc
    have hk : k' ≠ k := by
      rintro rfl
      simp at hinc
    exact h.known k' inc (by simpa [Function.update_of_ne hk] using hinc)
  ids := by
    intro id hmem
    exact Nat.le_trans (h.ids id hmem) (le_bump t.generation i id.slot)

/-! ## One step -/

/-- A caller moves on over a new table, owing what its new place owes. -/
theorem Simulates.move {s : State τ} {m m' : Incarnations τ} (h : Simulates s m) {table : Table}
    (hholds : table.Holds s.now m') (t : τ) (pc : Pc)
    (howed : m'.owed = Function.update m.owed t pc.owed) :
    Simulates { s.goto t pc with table := table } m' where
  holds := hholds
  owed := by
    intro t'
    rw [howed]
    by_cases ht : t' = t
    · subst ht
      simp [State.goto]
    · simpa [State.goto, Function.update_of_ne ht] using h.owed t'

/-- A caller moves on between places that owe nothing. -/
theorem Simulates.goto {s : State τ} {m : Incarnations τ} (h : Simulates s m) {t : τ}
    (hold : (s.pc t).owed = []) {pc : Pc} (hpc : pc.owed = []) : Simulates (s.goto t pc) m := by
  refine h.move h.holds t pc ?_
  rw [hpc, ← hold, ← h.owed t, Function.update_eq_self]

@[simp] theorem Op.owed_return (op : Op) : op.return.owed = [] := by
  cases op <;> rfl

theorem replay_failed (m : Incarnations τ) (op : Op) (t : τ) (err : BbErr) :
    replay Incarnations.apply m (op.failed t err) = some m := by
  cases op <;> rfl

theorem lookup_simulates {s : State τ} {m : Incarnations τ} (h : Simulates s m) {t : τ}
    (hold : (s.pc t).owed = []) (op : Op) :
    ∃ m', replay Incarnations.apply m (s.lookup t op).1 = some m' ∧
      Simulates (s.lookup t op).2 m' := by
  refine ⟨m, ?_, ?_⟩
  · unfold State.lookup
    split
    · exact replay_failed m op t .notFound
    · rfl
  · unfold State.lookup
    split
    · exact h.goto hold op.owed_return
    · exact h.goto hold rfl

theorem locked_simulates {s : State τ} {m : Incarnations τ} (h : Simulates s m) {t : τ}
    (hold : (s.pc t).owed = []) (op : Op) (ref : EntryRef) (snap : Option Memory) :
    ∃ m', replay Incarnations.apply m (s.locked t op ref snap).1 = some m' ∧
      Simulates (s.locked t op ref snap).2 m' := by
  cases hmatch : s.table.entryMatches ref op.key with
  | none =>
    refine ⟨m, ?_, ?_⟩
    · simpa [State.locked, hmatch] using replay_failed m op t .notFound
    · simpa [State.locked, hmatch] using h.goto hold op.owed_return
  | some e =>
    by_cases hage : (op.evicts && e.agedOut s.now) = true
    · refine ⟨m, ?_, ?_⟩
      · simp [State.locked, hmatch, hage]
      · simpa [State.locked, hmatch, hage] using h.goto hold rfl
    · obtain ⟨hstored, _⟩ := Table.stored_of_entryMatches hmatch
      obtain ⟨inc, hlive, hid, hrep⟩ := h.holds.stored ref.slot op.key e hstored
      let x : Target := { key := op.key, looked := ref, id := s.table.refOf ref.slot }
      obtain ⟨inc', hid', hrep', hreplay⟩ :=
        @act_legal _ _ op t x e snap s.now m inc hlive hid hrep
      refine ⟨m.set op.key inc', ?_, ?_⟩
      · simpa [State.locked, hmatch, hage] using hreplay
      · have hholds := h.holds.set hstored hlive hid' hrep'
        have hmove := h.move hholds t op.return ?_
        · simpa [State.locked, hmatch, hage] using hmove
        · rw [op.owed_return, ← hold, ← h.owed t, Function.update_eq_self]
          rfl

/-- Freeing the slot of a key removes its incarnation; the caller now owes a hook. -/
theorem remove_simulates {s : State τ} {m : Incarnations τ} (h : Simulates s m) {t : τ}
    (hold : (s.pc t).owed = []) {key : Key} {slot : Nat}
    (hfind : s.table.entries.findEntry key = some slot) (op : Option Op) (evicted : Bool) :
    ∃ m', replay Incarnations.apply m [.removed t key (s.table.refOf slot) evicted] = some m' ∧
      Simulates { s.goto t (.notifying key op) with table := s.table.teardown slot } m' := by
  obtain ⟨e, hstored⟩ := Table.stored_of_findEntry hfind
  obtain ⟨inc, hlive, hid, _⟩ := h.holds.stored slot key e hstored
  refine ⟨_, ?_, h.move (h.holds.teardown hstored
    (Function.update m.owed t (m.owed t ++ [key]))) t (.notifying key op) ?_⟩
  · simp [Incarnations.apply, hlive, hid]
  · rw [h.owed t, hold]
    rfl

theorem evict_simulates {s : State τ} {m : Incarnations τ} (h : Simulates s m) {t : τ}
    (hold : (s.pc t).owed = []) (op : Op) (ref : EntryRef) :
    ∃ m', replay Incarnations.apply m (s.evict t op ref).1 = some m' ∧
      Simulates (s.evict t op ref).2 m' := by
  have hmiss : ∃ m', replay Incarnations.apply m (op.failed t .notFound) = some m' ∧
      Simulates (s.goto t op.return) m' :=
    ⟨m, replay_failed m op t .notFound, h.goto hold op.owed_return⟩
  cases hfind : s.table.entries.findEntry op.key with
  | none => simpa [State.evict, Table.deleteIfGeneration, hfind] using hmiss
  | some slot =>
    by_cases hgen : SameGeneration (s.table.generation slot) ref.generation
    · simpa [State.evict, Table.deleteIfGeneration, hfind, hgen] using
        remove_simulates h hold hfind (some op) true
    · simpa [State.evict, Table.deleteIfGeneration, hfind, hgen] using hmiss

theorem delete_simulates {s : State τ} {m : Incarnations τ} (h : Simulates s m) {t : τ}
    (hold : (s.pc t).owed = []) (key : Key) :
    ∃ m', replay Incarnations.apply m (s.start t (.delete key)).1 = some m' ∧
      Simulates (s.start t (.delete key)).2 m' := by
  cases hfind : s.table.entries.findEntry key with
  | none =>
    refine ⟨m, ?_, ?_⟩ <;> simp only [State.start, Table.delete, hfind]
    · rfl
    · exact h
  | some slot =>
    simpa [State.start, Table.delete, hfind] using remove_simulates h hold hfind none false

theorem register_simulates {s : State τ} {m : Incarnations τ} (h : Simulates s m) (t : τ)
    (cfg : Config) (allocated : Bool) :
    ∃ m', replay Incarnations.apply m (s.register t cfg allocated).1 = some m' ∧
      Simulates (s.register t cfg allocated).2 m' := by
  rcases s.table.register_cases cfg allocated s.now with
    ⟨err, herr, hreg⟩ | ⟨slot, hfind, hreg⟩ | ⟨slot, owned, hnew, hfree, _, howned, hreg⟩
  · refine ⟨m, ?_, ?_⟩
    · cases err with
      | ok => exact absurd rfl herr
      | _ => simp [State.register, hreg, Incarnations.apply]
    · cases err with
      | ok => exact absurd rfl herr
      | _ => simpa [State.register, hreg] using h
  · obtain ⟨e, hstored⟩ := Table.stored_of_findEntry hfind
    obtain ⟨inc, hlive, hid, _⟩ := h.holds.stored slot cfg.key e hstored
    refine ⟨m, ?_, ?_⟩
    · have hself := Incarnations.set_self hlive
      simp [State.register, hreg, Table.findEntryLockedRef, hfind, Incarnations.apply, ← hid,
        Incarnations.actOn_of_live hlive, hself]
    · simpa [State.register, hreg] using h
  · by_cases hkey : cfg.key = []
    · have hnone := Table.findEntry_fill_nil hnew hfree hkey (cfg.entry owned s.now)
      refine ⟨m, ?_, ?_⟩
      · simp [State.register, hreg, Table.findEntryLockedRef, hnone, Incarnations.apply]
      · simp only [State.register, hreg, hkey]
        exact ⟨h.holds.fill_nil hfree (cfg.entry owned s.now), h.owed⟩
    have hfind := Table.findEntry_fill hnew hfree hkey (cfg.entry owned s.now)
    have hlive := h.holds.live_eq_none hnew
    have hfresh := h.holds.fresh slot cfg.key (cfg.entry owned s.now)
    let id := (s.table.fill slot cfg.key (cfg.entry owned s.now)).refOf slot
    let inc := Incarnation.fresh id cfg s.now
    have hholds := @Table.Holds.fill _ _ s.now _ h.holds slot cfg.key (cfg.entry owned s.now) inc
      hnew hfree hkey rfl (represents_fresh howned)
    refine ⟨{ m.set cfg.key inc with ids := id :: m.ids }, ?_, ?_⟩
    · simp only [State.register, hreg, Table.findEntryLockedRef, hfind, Option.map_some, if_true,
        replay_cons, replay_nil, Incarnations.apply]
      rw [if_pos ⟨hlive, hfresh⟩, Option.bind_some]
    · simp only [State.register, hreg]
      exact ⟨hholds, h.owed⟩

/-- Every lock section is a legal event of the map. -/
theorem step_simulates (s : State τ) (a : Action τ) (m : Incarnations τ) (h : Simulates s m) :
    ∃ m', replay Incarnations.apply m (s.shows a) = some m' ∧ Simulates (s.step a) m' := by
  cases a with
  | tick ms => exact ⟨m, rfl, h.holds.later (Nat.le_add_right s.now ms), h.owed⟩
  | start t call =>
    cases hpc : s.pc t with
    | idle =>
      have hold : (s.pc t).owed = [] := by
        rw [hpc]
        rfl
      simp only [State.shows, State.step, State.act, hpc]
      cases call with
      | register cfg allocated => exact register_simulates h t cfg allocated
      | update req => exact lookup_simulates h hold _
      | delete key => exact delete_simulates h hold key
      | getRaw key cap =>
        by_cases hcap : cap = 0
        · simp only [State.start, if_pos hcap]
          exact ⟨m, rfl, h⟩
        · simp only [State.start, if_neg hcap]
          exact lookup_simulates h hold _
      | snapshot key cap => exact lookup_simulates h hold _
      | stateVersion key => exact lookup_simulates h hold _
      | sweepPass => exact ⟨m, rfl, h.goto hold rfl⟩
    | _ =>
      simp only [State.shows, State.step, State.act, hpc]
      exact ⟨m, rfl, h⟩
  | advance t snap =>
    have hpcOwed := h.owed t
    simp only [State.shows, State.step, State.act, State.advance]
    cases hpc : s.pc t with
    | idle => exact ⟨m, rfl, h⟩
    | lookedUp op ref =>
      exact locked_simulates h (by rw [hpc]; rfl) op ref snap
    | evicting op ref seen =>
      exact evict_simulates h (by rw [hpc]; rfl) op ref
    | notifying key next =>
      rw [hpc] at hpcOwed
      let paid : Incarnations τ := { m with owed := Function.update m.owed t [] }
      have hholds : s.table.Holds s.now paid :=
        ⟨h.holds.stored, h.holds.live, h.holds.known, h.holds.ids⟩
      have hnotify : m.apply (.notified t key) = some paid := by
        simp [Incarnations.apply, hpcOwed, Pc.owed, paid]
      refine ⟨paid, ?_, ?_⟩
      · cases next with
        | none => simp [hnotify]
        | some op =>
          simp only [replay_cons, hnotify, Option.bind_some]
          exact replay_failed paid op t .notFound
      · cases next with
        | none => exact h.move hholds t .idle rfl
        | some op =>
          have howed : paid.owed = Function.update m.owed t op.return.owed := by
            rw [op.owed_return]
          exact h.move hholds t op.return howed
    | sweeping keys =>
      cases keys with
      | nil => exact ⟨m, rfl, h.goto (by rw [hpc]; rfl) rfl⟩
      | cons key rest => exact lookup_simulates h (by rw [hpc]; rfl) _

end Cache
end Breadboard
