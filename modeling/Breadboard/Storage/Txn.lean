import Breadboard.Core.Basics
import Breadboard.Foundations.KeyedSlots

/-!
# Storage transactions and the RAM backend

A `bb_storage` transaction of a buffering backend collects its writes in
slots the caller owns and applies them at commit.  The RAM backend keeps a fixed
table of entries; its commit counts the keys that are new before the first write
lands.

Main results:

- Theorem `stage_cases`: a staged write lands in the slots, or is refused and
  leaves them alone.
- Theorem `ramTxnCommit_cases`: a RAM commit applies every staged write, or
  fails and leaves the table alone.
-/

namespace Breadboard
namespace Storage

open Foundations

/-! ## Transactions -/

/-- `BB_STORAGE_TXN_KEY_MAX_BYTES`. -/
def txnKeyMaxBytes : Nat := 32

/--
What `bb_storage_txn_t` holds of a transaction: the sticky error, whether it
is open, and the caller's slots, as many as the declared capacity.
-/
structure Txn where
  err : BbErr
  opened : Bool
  slots : Slots Bytes Bytes
  deriving Repr, DecidableEq

/-- A zero-initialized handle. -/
def Txn.zero : Txn :=
  ⟨.ok, false, []⟩

/--
`bb_storage_txn_slot_stage`, with `BB_STORAGE_TXN_VALUE_MAX_BYTES` as
`valueMax`.
-/
def slotStage (valueMax : Nat) (txn : Txn) (key value : Bytes) : BbErr × Txn :=
  if valueMax < value.length then (.noSpace, txn)
  else if txnKeyMaxBytes ≤ key.length then (.invalidArg, txn)
  else
    match txn.slots.put key value with
    | none => (.noSpace, txn)
    | some slots => (.ok, { txn with slots := slots })

/-- Staging succeeds with the write in the slots, or fails and changes nothing. -/
theorem stage_cases (valueMax : Nat) (txn : Txn) (key value : Bytes) :
    (∃ slots, txn.slots.put key value = some slots ∧
      slotStage valueMax txn key value = (.ok, { txn with slots := slots })) ∨
    (∃ e, e ≠ .ok ∧ slotStage valueMax txn key value = (e, txn)) := by
  rw [slotStage]
  split
  · exact Or.inr ⟨.noSpace, nofun, rfl⟩
  split
  · exact Or.inr ⟨.invalidArg, nofun, rfl⟩
  cases hput : txn.slots.put key value with
  | none => exact Or.inr ⟨.noSpace, nofun, rfl⟩
  | some slots => exact Or.inl ⟨slots, rfl, rfl⟩

/-! ## The RAM backend -/

/-- `s_entries`: a fixed table of keyed values. -/
abbrev RamTable : Type :=
  Slots Bytes Bytes

/-- `ram_get`, with room for any value. -/
def ramGet (table : RamTable) (key : Bytes) : Option Bytes :=
  table.lookup key

/-- `ram_txn_begin`. -/
def ramTxnBegin (txn : Txn) : BbErr × Txn :=
  (.ok, ⟨.ok, true, List.replicate txn.slots.length none⟩)

/-- `ram_txn_set`. -/
def ramTxnSet (valueMax : Nat) (txn : Txn) (key value : Bytes) : BbErr × Txn :=
  slotStage valueMax txn key value

/-- `ram_txn_commit`. -/
def ramTxnCommit (table : RamTable) (txn : Txn) : BbErr × RamTable × Txn :=
  if txn.err ≠ .ok then (txn.err, table, { txn with opened := false })
  else if table.free < table.newKeys txn.slots then
    (.noSpace, table, { txn with opened := false })
  else
    match table.putAll txn.slots with
    | some table' => (.ok, table', { txn with opened := false })
    -- the missing free slot that the count above rules out
    | none => (.ok, table, { txn with opened := false })

/-- `ram_txn_abort`. -/
def ramTxnAbort (txn : Txn) : BbErr × Txn :=
  (.ok, { txn with opened := false })

/-- A RAM commit applies the staged writes as a whole, or changes nothing. -/
theorem ramTxnCommit_cases (table : RamTable) {txn : Txn} (hnodup : txn.slots.keys.Nodup) :
    (txn.err = .ok ∧ ∃ table', ramTxnCommit table txn = (.ok, table', { txn with opened := false }) ∧
      ∀ k, ramGet table' k = (txn.slots.lookup k).or (ramGet table k)) ∨
    (∃ e, e ≠ .ok ∧ ramTxnCommit table txn = (e, table, { txn with opened := false })) := by
  rw [ramTxnCommit]
  by_cases herr : txn.err = .ok
  · rw [if_neg (not_not_intro herr)]
    by_cases hroom : table.free < table.newKeys txn.slots
    · exact Or.inr ⟨.noSpace, nofun, if_pos hroom⟩
    · rw [if_neg hroom]
      obtain ⟨table', hall, hlookup⟩ := Slots.putAll_spec hnodup (Nat.le_of_not_lt hroom)
      exact Or.inl ⟨herr, table', by rw [hall], hlookup⟩
  · exact Or.inr ⟨txn.err, herr, if_pos herr⟩

end Storage
end Breadboard
