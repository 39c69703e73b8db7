import Mathlib.Order.Basic
import Mathlib.Order.Defs.LinearOrder
import Mathlib.Logic.Function.Basic
import Mathlib.Tactic.Common
import Mathlib.Order.Lattice

/-!
# Optimistic claims on versions

Workers share the last claimed version of each key.  A worker opens a claim by
advancing that version, works, and closes the claim: by committing if the
version is still its own, by restoring the previous version if it is still its
own, or by doing nothing.

A claim owns the versions above the one it replaced, up to its own.  If claims
only ever advance the version, open claims own disjoint ranges, committed
versions lie in no open range, and no version is committed twice.

Main results:

- Theorem `Sound.openClaim`, `Sound.commit`, `Sound.restore`,
  `Sound.close`: each operation preserves the ledger invariant.
-/

namespace Breadboard
namespace Foundations

universe u v w

/-- An open claim: the key, the claimed version and the version it replaced. -/
structure Claim (κ : Type u) (ν : Type v) where
  key : κ
  version : ν
  previous : ν

/-- The last claimed versions, the open claims of the workers, and the commits so far. -/
structure ClaimLedger (κ : Type u) (ν : Type v) (ι : Type w) where
  last : κ → ν
  opens : ι → Option (Claim κ ν)
  committed : List (κ × ν)

namespace ClaimLedger

variable {κ : Type u} {ν : Type v} {ι : Type w} [LinearOrder ν] [DecidableEq κ] [DecidableEq ι]

/-- Two claims of one key own disjoint ranges. -/
def Apart (a b : Claim κ ν) : Prop :=
  a.key = b.key → a.version ≤ b.previous ∨ b.version ≤ a.previous

/-- A commit lies outside the range of a claim. -/
def Outside (entry : κ × ν) (c : Claim κ ν) : Prop :=
  entry.1 = c.key → entry.2 ≤ c.previous ∨ c.version < entry.2

/-- The ledger invariant. -/
structure Sound (l : ClaimLedger κ ν ι) : Prop where
  nodup : l.committed.Nodup
  committed_le : ∀ entry ∈ l.committed, entry.2 ≤ l.last entry.1
  open_range : ∀ i c, l.opens i = some c → c.previous < c.version ∧ c.version ≤ l.last c.key
  open_apart : ∀ i j a b, i ≠ j → l.opens i = some a → l.opens j = some b → Apart a b
  committed_outside : ∀ entry ∈ l.committed, ∀ i c, l.opens i = some c → Outside entry c

/-- Worker `i` holds the open claim `c`, or none. -/
def hold (l : ClaimLedger κ ν ι) (i : ι) (c : Option (Claim κ ν)) : ClaimLedger κ ν ι :=
  { l with opens := Function.update l.opens i c }

/-- Advance the version of a key and hold the claim. -/
def openClaim (l : ClaimLedger κ ν ι) (i : ι) (k : κ) (version : ν) : ClaimLedger κ ν ι :=
  { l with last := Function.update l.last k version }.hold i
    (some { key := k, version := version, previous := l.last k })

/-- Advance the version of a key without holding a claim. -/
def skip (l : ClaimLedger κ ν ι) (i : ι) (k : κ) (version : ν) : ClaimLedger κ ν ι :=
  { l with last := Function.update l.last k version }.hold i none

/-- Commit the claim `c` and close it. -/
def commit (l : ClaimLedger κ ν ι) (i : ι) (c : Claim κ ν) : ClaimLedger κ ν ι :=
  { l with committed := l.committed ++ [(c.key, c.version)] }.hold i none

/-- Restore the version `c` replaced and close it. -/
def restore (l : ClaimLedger κ ν ι) (i : ι) (c : Claim κ ν) : ClaimLedger κ ν ι :=
  { l with last := Function.update l.last c.key c.previous }.hold i none

variable {l : ClaimLedger κ ν ι} {i : ι}

omit [LinearOrder ν] [DecidableEq κ] in
/-- After `hold i none` the open claims are the old ones of the other workers. -/
theorem hold_none_eq_some {j : ι} {c : Claim κ ν} (h : (l.hold i none).opens j = some c) :
    j ≠ i ∧ l.opens j = some c := by
  by_cases hj : j = i
  · subst hj
    simp [hold] at h
  · exact ⟨hj, by simpa [hold, Function.update_of_ne hj] using h⟩

omit [DecidableEq κ] [DecidableEq ι] in
/-- The initial ledger: nothing open, nothing committed. -/
theorem sound_of_empty (hopen : ∀ i, l.opens i = none) (hcommitted : l.committed = []) :
    l.Sound where
  nodup := by simp [hcommitted]
  committed_le := by simp [hcommitted]
  open_range i c h := by simp [hopen] at h
  open_apart i j a b _ h := by simp [hopen] at h
  committed_outside := by simp [hcommitted]

omit [DecidableEq κ] in
/-- Closing a claim without an effect. -/
theorem Sound.close (h : l.Sound) (i : ι) : (l.hold i none).Sound where
  nodup := h.nodup
  committed_le := h.committed_le
  open_range j c hj := h.open_range j c (hold_none_eq_some hj).2
  open_apart j j' a b hne hj hj' :=
    h.open_apart j j' a b hne (hold_none_eq_some hj).2 (hold_none_eq_some hj').2
  committed_outside entry he j c hj := h.committed_outside entry he j c (hold_none_eq_some hj).2

omit [DecidableEq ι] in
/-- Advancing a version keeps the invariant: every range stays below the last version. -/
theorem Sound.advance (h : l.Sound) {k : κ} {version : ν} (hle : l.last k ≤ version) :
    ({ l with last := Function.update l.last k version } : ClaimLedger κ ν ι).Sound := by
  have hmono (key : κ) : l.last key ≤ Function.update l.last k version key := by
    by_cases hk : key = k
    · subst hk
      simpa using hle
    · simp [Function.update_of_ne hk]
  exact
    { nodup := h.nodup
      committed_le := fun entry he => (h.committed_le entry he).trans (hmono entry.1)
      open_range := fun j c hj =>
        ⟨(h.open_range j c hj).1, (h.open_range j c hj).2.trans (hmono c.key)⟩
      open_apart := h.open_apart
      committed_outside := h.committed_outside }

theorem Sound.skip (h : l.Sound) (i : ι) {k : κ} {version : ν} (hle : l.last k ≤ version) :
    (l.skip i k version).Sound :=
  (h.advance hle).close i

/-- A claim of a newer version owns a fresh range. -/
theorem Sound.openClaim (h : l.Sound) (i : ι) {k : κ} {version : ν} (hlt : l.last k < version) :
    (l.openClaim i k version).Sound := by
  have hadvance := h.advance hlt.le
  -- every other open claim and every commit of the key is at or below the replaced version
  have hnew {j : ι} {c : Claim κ ν} (hj : (l.openClaim i k version).opens j = some c) :
      (j = i ∧ c = { key := k, version := version, previous := l.last k }) ∨
        (j ≠ i ∧ l.opens j = some c) := by
    by_cases hji : j = i
    · subst hji
      simp only [ClaimLedger.openClaim, hold, Function.update_self, Option.some.injEq] at hj
      exact Or.inl ⟨rfl, hj.symm⟩
    · simp only [ClaimLedger.openClaim, hold, Function.update_of_ne hji] at hj
      exact Or.inr ⟨hji, hj⟩
  refine
    { nodup := h.nodup
      committed_le := hadvance.committed_le
      open_range := fun j c hj => ?_
      open_apart := fun j j' a b hne hj hj' => ?_
      committed_outside := fun entry he j c hj => ?_ }
  · rcases hnew hj with ⟨-, rfl⟩ | ⟨-, hold⟩
    · exact ⟨hlt, by simp [ClaimLedger.openClaim, ClaimLedger.hold]⟩
    · exact hadvance.open_range j c hold
  · rcases hnew hj with ⟨hji, rfl⟩ | ⟨-, holdj⟩
    · rcases hnew hj' with ⟨hji', -⟩ | ⟨-, holdj'⟩
      · exact absurd (hji.trans hji'.symm) hne
      · intro hkey
        have hkey' : k = b.key := hkey
        exact Or.inr (hkey' ▸ (h.open_range j' b holdj').2)
    · rcases hnew hj' with ⟨-, rfl⟩ | ⟨-, holdj'⟩
      · intro hkey
        have hkey' : a.key = k := hkey
        exact Or.inl (hkey' ▸ (h.open_range j a holdj).2)
      · exact h.open_apart j j' a b hne holdj holdj'
  · rcases hnew hj with ⟨-, rfl⟩ | ⟨-, hold⟩
    · intro hkey
      have hkey' : entry.1 = k := hkey
      exact Or.inl (hkey' ▸ h.committed_le entry he)
    · exact h.committed_outside entry he j c hold

omit [DecidableEq κ] in
/-- Committing an open claim whose version is still the last one. -/
theorem Sound.commit (h : l.Sound) {c : Claim κ ν} (hopen : l.opens i = some c)
    (hcurrent : l.last c.key = c.version) : (l.commit i c).Sound := by
  have hrange := h.open_range i c hopen
  have hfresh : (c.key, c.version) ∉ l.committed := by
    intro hmem
    rcases h.committed_outside _ hmem i c hopen rfl with hle | hlt
    · exact absurd hrange.1 (not_lt.mpr hle)
    · exact lt_irrefl _ hlt
  have hsplit {entry : κ × ν} (he : entry ∈ (l.commit i c).committed) :
      entry ∈ l.committed ∨ entry = (c.key, c.version) := by
    simpa [ClaimLedger.commit, hold] using he
  refine
    { nodup := ?_
      committed_le := fun entry he => ?_
      open_range := fun j a hj => h.open_range j a (hold_none_eq_some hj).2
      open_apart := fun j j' a b hne hj hj' =>
        h.open_apart j j' a b hne (hold_none_eq_some hj).2 (hold_none_eq_some hj').2
      committed_outside := fun entry he j a hj => ?_ }
  · have hdisjoint : ∀ entry ∈ l.committed, entry ≠ (c.key, c.version) :=
      fun entry he heq => hfresh (heq ▸ he)
    simpa [ClaimLedger.commit, hold, List.nodup_append, h.nodup] using hdisjoint
  · rcases hsplit he with hold | rfl
    · exact h.committed_le entry hold
    · exact hcurrent.ge
  · obtain ⟨hji, hj'⟩ := hold_none_eq_some hj
    rcases hsplit he with hold | rfl
    · exact h.committed_outside entry hold j a hj'
    · intro hkey
      rcases h.open_apart j i a c hji hj' hopen hkey.symm with hle | hle
      · exact Or.inr (lt_of_le_of_lt hle hrange.1)
      · exact Or.inl hle

/-- Restoring the version an open claim replaced, while its own is still the last one. -/
theorem Sound.restore (h : l.Sound) {c : Claim κ ν} (hopen : l.opens i = some c)
    (hcurrent : l.last c.key = c.version) : (l.restore i c).Sound := by
  have hrange := h.open_range i c hopen
  refine
    { nodup := h.nodup
      committed_le := fun entry he => ?_
      open_range := fun j a hj => ?_
      open_apart := fun j j' a b hne hj hj' =>
        h.open_apart j j' a b hne (hold_none_eq_some hj).2 (hold_none_eq_some hj').2
      committed_outside := fun entry he j a hj =>
        h.committed_outside entry he j a (hold_none_eq_some hj).2 }
  · have hle := h.committed_le entry he
    by_cases hkey : entry.1 = c.key
    · have hrestored : (l.restore i c).last entry.1 = c.previous := by
        simp [ClaimLedger.restore, hold, hkey]
      rw [hrestored]
      rw [hkey, hcurrent] at hle
      rcases h.committed_outside entry he i c hopen hkey with hbelow | habove
      · exact hbelow
      · exact absurd hle (not_le.mpr habove)
    · simpa [ClaimLedger.restore, hold, Function.update_of_ne hkey] using hle
  · obtain ⟨hji, hj'⟩ := hold_none_eq_some hj
    obtain ⟨hpos, hle⟩ := h.open_range j a hj'
    refine ⟨hpos, ?_⟩
    by_cases hkey : a.key = c.key
    · have hrestored : (l.restore i c).last a.key = c.previous := by
        simp [ClaimLedger.restore, hold, hkey]
      rw [hrestored]
      rw [hkey, hcurrent] at hle
      rcases h.open_apart j i a c hji hj' hopen hkey with hbelow | habove
      · exact hbelow
      · exact absurd (lt_of_le_of_lt habove hpos) (not_lt.mpr hle)
    · simpa [ClaimLedger.restore, hold, Function.update_of_ne hkey] using hle

end ClaimLedger
end Foundations
end Breadboard
