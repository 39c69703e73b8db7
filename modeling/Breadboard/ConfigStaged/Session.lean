import Breadboard.Storage.Facade
import Breadboard.Foundations.Runs

/-!
# Staged configuration sessions

`bb_config_staged` wraps one storage transaction: typed setters encode a field
and forward it, prechecks that fail poison the session with a sticky error of its
own, and commit or discard closes it for good.

Main results:

- Theorem `SetCall.exec_cases`: a set stages its bytes, or fails and poisons the
  session.
- Theorem `SetCall.exec_of_failed`: a poisoned session refuses every set.
-/

namespace Breadboard
namespace ConfigStaged

open Foundations Storage

/-! ## Fields and values -/

/-- `bb_config_type_t`. -/
inductive FieldType where
  | bool
  | u8
  | u16
  | u32
  | i32
  | str
  | blob
  deriving Repr, DecidableEq

/-- What a session reads of `bb_config_field_t`. -/
structure Field where
  type : FieldType
  backend : Option Bytes
  nsOrDir : Option Bytes
  key : Bytes
  maxLen : Nat
  deriving Repr, DecidableEq

/-- `bb_store_le16`. -/
def storeLe16 (v : UInt16) : Bytes :=
  [v.toUInt8, (v >>> 8).toUInt8]

/-- `bb_store_le32`. -/
def storeLe32 (v : UInt32) : Bytes :=
  [v.toUInt8, (v >>> 8).toUInt8, (v >>> 16).toUInt8, (v >>> 24).toUInt8]

/-! ## The session handle -/

/-- `bb_config_staged_t`. -/
structure Staged where
  txn : BoundTxn
  backend : Option Bytes
  nsOrDir : Option Bytes
  localErr : BbErr
  closed : Bool

/-- `poison`: the first error stays. -/
def poison (h : Staged) (err : BbErr) : BbErr × Staged :=
  let localErr := if h.localErr = .ok then err else h.localErr
  (localErr, { h with localErr := localErr })

/-- `precheck`. -/
def precheck (h : Staged) (f : Option Field) (want : FieldType) : BbErr × Staged :=
  if h.closed then (.invalidState, h)
  else if h.localErr ≠ .ok then (h.localErr, h)
  else
    match f with
    | none => poison h .invalidArg
    | some f =>
      if f.type ≠ want then poison h .invalidArg
      else if f.backend ≠ h.backend ∨ f.nsOrDir ≠ h.nsOrDir then poison h .invalidArg
      else (.ok, h)

/-- The wrapped `bb_storage_txn_set`. -/
def forward (valueMax : Nat) (h : Staged) (f : Option Field) (value : Bytes) : BbErr × Staged :=
  match f with
  | none => (.invalidArg, h)
  | some f =>
    let (err, txn) := txnSet valueMax h.txn f.key value
    (err, { h with txn := txn })

/-- `stage_scalar`. -/
def stageScalar (valueMax : Nat) (h : Staged) (f : Option Field) (want : FieldType)
    (buf : Bytes) : BbErr × Staged :=
  let (rc, h) := precheck h f want
  if rc ≠ .ok then (rc, h) else forward valueMax h f buf

/-- `bb_config_staged_set_bool`. -/
def setBool (valueMax : Nat) (h : Staged) (f : Option Field) (v : Bool) : BbErr × Staged :=
  stageScalar valueMax h f .bool [if v then 1 else 0]

/-- `bb_config_staged_set_u8`. -/
def setU8 (valueMax : Nat) (h : Staged) (f : Option Field) (v : UInt8) : BbErr × Staged :=
  stageScalar valueMax h f .u8 [v]

/-- `bb_config_staged_set_u16`. -/
def setU16 (valueMax : Nat) (h : Staged) (f : Option Field) (v : UInt16) : BbErr × Staged :=
  stageScalar valueMax h f .u16 (storeLe16 v)

/-- `bb_config_staged_set_u32`. -/
def setU32 (valueMax : Nat) (h : Staged) (f : Option Field) (v : UInt32) : BbErr × Staged :=
  stageScalar valueMax h f .u32 (storeLe32 v)

/-- `bb_config_staged_set_i32`. -/
def setI32 (valueMax : Nat) (h : Staged) (f : Option Field) (v : Int32) : BbErr × Staged :=
  stageScalar valueMax h f .i32 (storeLe32 v.toUInt32)

/-- `bb_config_staged_set_str`; the text may be NULL. -/
def setStr (valueMax : Nat) (h : Staged) (f : Option Field) (v : Option Bytes) : BbErr × Staged :=
  let (rc, h) := precheck h f .str
  if rc ≠ .ok then (rc, h)
  else
    match v with
    | none => poison h .invalidArg
    | some v =>
      if f.any fun f => f.maxLen ≤ v.length then poison h .invalidArg
      else forward valueMax h f v

/-- A blob argument: bytes, or NULL with a length. -/
inductive BlobArg where
  | bytes (v : Bytes)
  | null (len : Nat)
  deriving Repr, DecidableEq

/-- `bb_config_staged_set_blob`. -/
def setBlob (valueMax : Nat) (h : Staged) (f : Option Field) (v : BlobArg) : BbErr × Staged :=
  let (rc, h) := precheck h f .blob
  if rc ≠ .ok then (rc, h)
  else
    match v with
    | .null (_ + 1) => poison h .invalidArg
    | .null 0 => forward valueMax h f []
    | .bytes v =>
      if f.any fun f => f.maxLen < v.length then poison h .invalidArg
      else forward valueMax h f v

/-! ## Begin, commit, discard -/

/-- `bb_config_staged_begin`. -/
def stagedBegin (registry : List Backend) (h : Staged) (backend nsOrDir : Option Bytes)
    (slotsNull : Bool) (cap : Nat) : BbErr × Staged :=
  let (err, txn) := txnBegin registry backend nsOrDir h.txn slotsNull cap
  (err, ⟨txn, backend, nsOrDir, .ok, false⟩)

/-- `bb_config_staged_commit`. -/
def stagedCommit (h : Staged) (s : Store) : BbErr × Store × Staged :=
  if h.closed then (.invalidState, s, h)
  else if h.localErr ≠ .ok then
    let (_, txn) := txnAbort h.txn
    (h.localErr, s, { h with txn := txn, closed := true })
  else
    let (rc, s, txn) := txnCommit s h.txn
    (rc, s, { h with txn := txn, closed := true })

/-- `bb_config_staged_discard`. -/
def stagedDiscard (h : Staged) : BbErr × Staged :=
  if h.closed then (.ok, h)
  else
    let (rc, txn) := txnAbort h.txn
    (rc, { h with txn := txn, closed := true })

/-! ## Calls of a session -/

/-- The argument of a setter. -/
inductive Value where
  | bool (v : Bool)
  | u8 (v : UInt8)
  | u16 (v : UInt16)
  | u32 (v : UInt32)
  | i32 (v : Int32)
  | str (v : Option Bytes)
  | blob (v : BlobArg)
  deriving DecidableEq

/-- The bytes a setter stages. -/
def Value.encoded : Value → Bytes
  | .bool v => [if v then 1 else 0]
  | .u8 v => [v]
  | .u16 v => storeLe16 v
  | .u32 v => storeLe32 v
  | .i32 v => storeLe32 v.toUInt32
  | .str v => v.getD []
  | .blob (.bytes v) => v
  | .blob (.null _) => []

/-- One call of a setter: the field descriptor, which may be NULL, and the value. -/
structure SetCall where
  field : Option Field
  value : Value
  deriving DecidableEq

/-- Make the call. -/
def SetCall.exec (valueMax : Nat) (h : Staged) (c : SetCall) : BbErr × Staged :=
  match c.value with
  | .bool v => setBool valueMax h c.field v
  | .u8 v => setU8 valueMax h c.field v
  | .u16 v => setU16 valueMax h c.field v
  | .u32 v => setU32 valueMax h c.field v
  | .i32 v => setI32 valueMax h c.field v
  | .str v => setStr valueMax h c.field v
  | .blob v => setBlob valueMax h c.field v

/-- The key and bytes the call writes. -/
def SetCall.writes (c : SetCall) (k : Bytes) : Option Bytes :=
  if c.field.map Field.key = some k then some c.value.encoded else none

/-- The bytes of the last set of a key. -/
def lastSet : List SetCall → Bytes → Option Bytes
  | [], _ => none
  | c :: cs, k => (lastSet cs k).or (c.writes k)

/-! ## What a set does -/

/-- Open, with these writes staged and no error. -/
structure Clean (b : Backend) (h : Staged) (writes : Bytes → Option Bytes) : Prop where
  holds : Holds b h.txn writes
  localErr : h.localErr = .ok
  closed : h.closed = false

/-- Open but poisoned, in the session or in its transaction, or never begun. -/
structure Failed (h : Staged) : Prop where
  poisoned : h.localErr ≠ .ok ∨ h.txn.txn.opened = false ∨ h.txn.txn.err ≠ .ok
  closed : h.closed = false

/-- Either a set landed in a clean session, or it failed and left a poisoned one. -/
def Stages (b : Backend) (writes : Bytes → Option Bytes) (r : BbErr × Staged) : Prop :=
  (r.1 = .ok ∧ Clean b r.2 writes) ∨ (r.1 ≠ .ok ∧ Failed r.2)

section Clean

variable {b : Backend} {h : Staged} {writes : Bytes → Option Bytes}

/-- Poisoning a clean session. -/
theorem stages_poison (hc : Clean b h writes) (writes' : Bytes → Option Bytes) :
    Stages b writes' (poison h .invalidArg) := by
  refine Or.inr ⟨?_, ?_, hc.closed⟩
  · simp [poison, hc.localErr]
  · exact Or.inl (by simp [poison, hc.localErr])

/-- The precheck passes on a field of the session, or poisons. -/
theorem precheck_cases (hc : Clean b h writes) (f : Option Field) (want : FieldType) :
    (f.isSome = true ∧ precheck h f want = (.ok, h)) ∨
      precheck h f want = poison h .invalidArg := by
  cases f with
  | none => exact Or.inr (by simp [precheck, hc.closed, hc.localErr])
  | some f =>
    by_cases htype : f.type = want
    · by_cases haddr : f.backend ≠ h.backend ∨ f.nsOrDir ≠ h.nsOrDir
      · exact Or.inr (by simp [precheck, hc.closed, hc.localErr, htype, haddr])
      · exact Or.inl ⟨rfl, by simp [precheck, hc.closed, hc.localErr, htype, haddr]⟩
    · exact Or.inr (by simp [precheck, hc.closed, hc.localErr, htype])

/-- The writes of a clean session after one more. -/
theorem stages_forward (valueMax : Nat) (hc : Clean b h writes) {f : Option Field}
    (hf : f.isSome = true) (value : Bytes) :
    Stages b (fun k => (if f.map Field.key = some k then some value else none).or (writes k))
      (forward valueMax h f value) := by
  obtain ⟨f, rfl⟩ := Option.isSome_iff_exists.mp hf
  have hwrites : (fun k => (if (some f).map Field.key = some k then some value else none).or
      (writes k)) = Function.update writes f.key (some value) := by
    funext k
    by_cases hk : f.key = k
    · subst hk
      simp
    · simp [hk, Function.update_of_ne (Ne.symm hk)]
  rw [hwrites]
  rcases txnSet_cases valueMax hc.holds f.key value with ⟨hok, hholds⟩ | ⟨hne, herr⟩
  · exact Or.inl ⟨hok, hholds, hc.localErr, hc.closed⟩
  · exact Or.inr ⟨hne, Or.inr (Or.inr herr), hc.closed⟩

/-- A scalar set. -/
theorem stages_scalar (valueMax : Nat) (hc : Clean b h writes) (f : Option Field)
    (want : FieldType) (buf : Bytes) :
    Stages b (fun k => (if f.map Field.key = some k then some buf else none).or (writes k))
      (stageScalar valueMax h f want buf) := by
  rw [stageScalar]
  rcases precheck_cases hc f want with ⟨hf, hpass⟩ | hpoison
  · rw [hpass]
    exact stages_forward valueMax hc hf buf
  · have hne : (poison h .invalidArg).1 ≠ .ok := by simp [poison, hc.localErr]
    rw [hpoison]
    simp only [hne, ne_eq, not_false_eq_true, if_true]
    exact stages_poison hc _

/-- A text or blob set, past its precheck. -/
theorem stages_text (valueMax : Nat) (hc : Clean b h writes) {f : Option Field}
    (hf : f.isSome = true) (v : Bytes) (refused : Bool) :
    Stages b (fun k => (if f.map Field.key = some k then some v else none).or (writes k))
      (if refused then poison h .invalidArg else forward valueMax h f v) := by
  cases refused with
  | true => exact stages_poison hc _
  | false => exact stages_forward valueMax hc hf v

/-- A set of a clean session stages its bytes, or fails and poisons the session. -/
theorem SetCall.exec_cases (valueMax : Nat) (hc : Clean b h writes) (c : SetCall) :
    Stages b (fun k => (c.writes k).or (writes k)) (c.exec valueMax h) := by
  obtain ⟨f, value⟩ := c
  have hpoisoned : ∀ want, precheck h f want = poison h .invalidArg →
      (precheck h f want).1 ≠ .ok ∧ ∀ writes', Stages b writes' (precheck h f want) := by
    intro want hpoison
    rw [hpoison]
    exact ⟨by simp [poison, hc.localErr], fun writes' => stages_poison hc writes'⟩
  cases value with
  | bool v => exact stages_scalar valueMax hc f .bool _
  | u8 v => exact stages_scalar valueMax hc f .u8 _
  | u16 v => exact stages_scalar valueMax hc f .u16 _
  | u32 v => exact stages_scalar valueMax hc f .u32 _
  | i32 v => exact stages_scalar valueMax hc f .i32 _
  | str v =>
    simp only [SetCall.exec, setStr]
    rcases precheck_cases hc f .str with ⟨hf, hpass⟩ | hpoison
    · rw [hpass]
      cases v with
      | none => exact stages_poison hc _
      | some v => exact stages_text valueMax hc hf v _
    · obtain ⟨hne, hstages⟩ := hpoisoned .str hpoison
      rw [if_pos hne]
      exact hstages _
  | blob v =>
    simp only [SetCall.exec, setBlob]
    rcases precheck_cases hc f .blob with ⟨hf, hpass⟩ | hpoison
    · rw [hpass]
      match v with
      | .null 0 => exact stages_forward valueMax hc hf []
      | .null (n + 1) => exact stages_poison hc _
      | .bytes v => exact stages_text valueMax hc hf v _
    · obtain ⟨hne, hstages⟩ := hpoisoned .blob hpoison
      rw [if_pos hne]
      exact hstages _

end Clean

/-! ## Poisoned and closed sessions -/

section Failed

variable {h : Staged}

/-- A refusal that leaves the session poisoned. -/
def Refuses (r : BbErr × Staged) : Prop :=
  r.1 ≠ .ok ∧ Failed r.2

theorem refuses_poison (hf : Failed h) : Refuses (poison h .invalidArg) := by
  by_cases hlocal : h.localErr = .ok
  · exact ⟨by simp [poison, hlocal], Or.inl (by simp [poison, hlocal]), hf.closed⟩
  · exact ⟨by simp [poison, hlocal], Or.inl (by simp [poison, hlocal]), hf.closed⟩

/-- The precheck of a poisoned session refuses, unless only its transaction is poisoned. -/
theorem precheck_of_failed (hf : Failed h) (f : Option Field) (want : FieldType) :
    Refuses (precheck h f want) ∨ (h.localErr = .ok ∧ precheck h f want = (.ok, h)) := by
  by_cases hlocal : h.localErr = .ok
  · have hprecheck : precheck h f want = poison h .invalidArg ∨
        precheck h f want = (.ok, h) := by
      cases f with
      | none => exact Or.inl (by simp [precheck, hf.closed, hlocal])
      | some f =>
        by_cases htype : f.type = want
        · by_cases haddr : f.backend ≠ h.backend ∨ f.nsOrDir ≠ h.nsOrDir
          · exact Or.inl (by simp [precheck, hf.closed, hlocal, htype, haddr])
          · exact Or.inr (by simp [precheck, hf.closed, hlocal, htype, haddr])
        · exact Or.inl (by simp [precheck, hf.closed, hlocal, htype])
    rcases hprecheck with hpoison | hpass
    · rw [hpoison]
      exact Or.inl (refuses_poison hf)
    · exact Or.inr ⟨hlocal, hpass⟩
  · have hsticky : precheck h f want = (h.localErr, h) := by simp [precheck, hf.closed, hlocal]
    rw [hsticky]
    exact Or.inl ⟨hlocal, hf⟩

theorem refuses_forward (valueMax : Nat) (hf : Failed h) (hlocal : h.localErr = .ok)
    (f : Option Field) (value : Bytes) : Refuses (forward valueMax h f value) := by
  cases f with
  | none => exact ⟨nofun, hf⟩
  | some f =>
    have hfailed := hf.poisoned.resolve_left (not_not_intro hlocal)
    obtain ⟨hne, hsame⟩ := txnSet_of_failed valueMax hfailed f.key value
    refine ⟨hne, ?_, hf.closed⟩
    rw [forward]
    simp only [hsame]
    exact Or.inr hfailed

theorem refuses_text (valueMax : Nat) (hf : Failed h) (hlocal : h.localErr = .ok)
    (f : Option Field) (v : Bytes) (refused : Bool) :
    Refuses (if refused then poison h .invalidArg else forward valueMax h f v) := by
  cases refused with
  | true => exact refuses_poison hf
  | false => exact refuses_forward valueMax hf hlocal f v

theorem refuses_scalar (valueMax : Nat) (hf : Failed h) (f : Option Field) (want : FieldType)
    (buf : Bytes) : Refuses (stageScalar valueMax h f want buf) := by
  simp only [stageScalar]
  rcases precheck_of_failed hf f want with hrefuses | ⟨hlocal, hpass⟩
  · rw [if_pos hrefuses.1]
    exact hrefuses
  · rw [hpass]
    exact refuses_forward valueMax hf hlocal f buf

/-- A poisoned session refuses every set and stays poisoned. -/
theorem SetCall.exec_of_failed (valueMax : Nat) (hf : Failed h) (c : SetCall) :
    Refuses (c.exec valueMax h) := by
  obtain ⟨f, value⟩ := c
  cases value with
  | bool v => exact refuses_scalar valueMax hf f .bool _
  | u8 v => exact refuses_scalar valueMax hf f .u8 _
  | u16 v => exact refuses_scalar valueMax hf f .u16 _
  | u32 v => exact refuses_scalar valueMax hf f .u32 _
  | i32 v => exact refuses_scalar valueMax hf f .i32 _
  | str v =>
    simp only [SetCall.exec, setStr]
    rcases precheck_of_failed hf f .str with hrefuses | ⟨hlocal, hpass⟩
    · rw [if_pos hrefuses.1]
      exact hrefuses
    · rw [hpass]
      cases v with
      | none => exact refuses_poison hf
      | some v => exact refuses_text valueMax hf hlocal f v _
  | blob v =>
    simp only [SetCall.exec, setBlob]
    rcases precheck_of_failed hf f .blob with hrefuses | ⟨hlocal, hpass⟩
    · rw [if_pos hrefuses.1]
      exact hrefuses
    · rw [hpass]
      match v with
      | .null 0 => exact refuses_forward valueMax hf hlocal f []
      | .null (n + 1) => exact refuses_poison hf
      | .bytes v => exact refuses_text valueMax hf hlocal f v _

end Failed

/-- A closed session refuses every set and does not change. -/
theorem SetCall.exec_of_closed (valueMax : Nat) {h : Staged} (hclosed : h.closed = true)
    (c : SetCall) : c.exec valueMax h = (.invalidState, h) := by
  have hprecheck : ∀ want, precheck h c.field want = (.invalidState, h) :=
    fun want => by simp [precheck, hclosed]
  obtain ⟨f, value⟩ := c
  cases value <;>
    simp [SetCall.exec, setBool, setU8, setU16, setU32, setI32, setStr, setBlob, stageScalar,
      hprecheck]

end ConfigStaged
end Breadboard
