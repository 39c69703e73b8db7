import Breadboard.Storage.Rtc

/-!
# The storage facade

`bb_storage_txn_begin` looks a backend up by name and captures its functions
in the transaction; the later calls dispatch through them.  The facade keeps the
first error of a transaction sticky.

Main results:

- Theorem `txnCommit_cases`: over either backend, a commit applies every staged
  write or changes nothing.
-/

namespace Breadboard
namespace Storage

open Foundations

/-! ## Backends -/

/-- The two buffering backends. -/
inductive Backend where
  | ram
  | rtc
  deriving Repr, DecidableEq

/-- The name a backend registers under. -/
def Backend.name : Backend → Bytes
  | .ram => [114, 97, 109]
  | .rtc => [114, 116, 99]

/-- What the backends store. -/
structure Store where
  ram : RamTable
  rtc : Region

/-- `bb_storage_get` on a registered backend, with room for any value. -/
def Backend.get : Backend → Store → Bytes → Option Bytes
  | .ram, s => ramGet s.ram
  | .rtc, s => rtcGet s.rtc

/-- What a stored value reads back as. -/
def Backend.shown : Backend → Bytes → Bytes → Bytes
  | .ram, _, value => value
  | .rtc, key, value => rtcShown key value

/-- `find_backend`. -/
def findBackend (registry : List Backend) (name : Bytes) : Option Backend :=
  registry.find? fun b => b.name = name

/-- `bb_storage_txn_t` with the backend functions captured at begin. -/
structure BoundTxn where
  vtable : Option Backend
  txn : Txn

/-! ## Dispatch -/

/-- The captured `_txn_set`. -/
def Backend.txnSet : Backend → Nat → Txn → Bytes → Bytes → BbErr × Txn
  | .ram => ramTxnSet
  | .rtc => rtcTxnSet

/-- The captured `_txn_commit`. -/
def Backend.txnCommit : Backend → Store → Txn → BbErr × Store × Txn
  | .ram, s, txn =>
    let (err, table, txn) := ramTxnCommit s.ram txn
    (err, { s with ram := table }, txn)
  | .rtc, s, txn =>
    let (err, region, txn) := rtcTxnCommit s.rtc txn
    (err, { s with rtc := region }, txn)

/-- The captured `_txn_abort`. -/
def Backend.txnAbort : Backend → Txn → BbErr × Txn
  | .ram => ramTxnAbort
  | .rtc => rtcTxnAbort

/-- The `txn_begin` of a backend. -/
def Backend.txnBegin : Backend → Txn → BbErr × Txn
  | .ram => ramTxnBegin
  | .rtc => rtcTxnBegin

/-- `bb_storage_txn_begin`; `slots` is the capacity of the caller's slots, if any. -/
def txnBegin (registry : List Backend) (backend nsOrDir : Option Bytes) (t : BoundTxn)
    (slotsNull : Bool) (cap : Nat) : BbErr × BoundTxn :=
  match backend, nsOrDir with
  | some backend, some _ =>
    if 0 < cap ∧ slotsNull then (.invalidArg, t)
    else if t.txn.opened then (.invalidState, t)
    else
      match findBackend registry backend with
      | none => (.notFound, t)
      | some b =>
        let (err, txn) := b.txnBegin ⟨.ok, false, List.replicate cap none⟩
        (err, ⟨some b, txn⟩)
  | _, _ => (.invalidArg, t)

/-- `bb_storage_txn_set`. -/
def txnSet (valueMax : Nat) (t : BoundTxn) (key value : Bytes) : BbErr × BoundTxn :=
  match t.txn.opened, t.vtable with
  | true, some b =>
    if t.txn.err ≠ .ok then (t.txn.err, t)
    else
      let (err, txn) := b.txnSet valueMax t.txn key value
      (err, ⟨some b, if err ≠ .ok then { txn with err := err } else txn⟩)
  | _, _ => (.invalidState, t)

/-- `bb_storage_txn_commit`. -/
def txnCommit (s : Store) (t : BoundTxn) : BbErr × Store × BoundTxn :=
  match t.txn.opened, t.vtable with
  | true, some b =>
    let (err, s, txn) := b.txnCommit s t.txn
    (err, s, ⟨some b, if err ≠ .ok ∧ txn.err = .ok then { txn with err := err } else txn⟩)
  | _, _ => (.invalidState, s, t)

/-- `bb_storage_txn_abort`. -/
def txnAbort (t : BoundTxn) : BbErr × BoundTxn :=
  match t.txn.opened, t.vtable with
  | true, some b =>
    let (err, txn) := b.txnAbort t.txn
    (err, ⟨some b, txn⟩)
  | _, _ => (.ok, t)

/-! ## What the calls do -/

/-- The slots hold these writes, each once, and the backend accepts them. -/
structure Holds (b : Backend) (t : BoundTxn) (writes : Bytes → Option Bytes) : Prop where
  vtable : t.vtable = some b
  opened : t.txn.opened = true
  err : t.txn.err = .ok
  nodup : t.txn.slots.keys.Nodup
  lookup : ∀ k, t.txn.slots.lookup k = writes k
  gated : b = .rtc → Gated t.txn.slots

/-- The freshly zeroed slots of a begin. -/
theorem holds_empty (b : Backend) (cap : Nat) :
    Holds b ⟨some b, ⟨.ok, true, List.replicate cap none⟩⟩ (fun _ => none) := by
  have hkeys : Slots.keys (List.replicate cap (none : Option (Bytes × Bytes))) = [] := by
    simp [Slots.keys]
  have hlookup : ∀ k, Slots.lookup (List.replicate cap (none : Option (Bytes × Bytes))) k = none :=
    fun k => Slots.lookup_of_notMem_keys (by simp [hkeys])
  exact {
    vtable := rfl
    opened := rfl
    err := rfl
    nodup := by simp [hkeys]
    lookup := hlookup
    gated := fun _ k v hv => by
      rw [hlookup k] at hv
      cases hv }

/-- Begin opens an empty transaction of the named backend, or leaves a closed one closed. -/
theorem txnBegin_cases (registry : List Backend) (backend nsOrDir : Option Bytes) {t : BoundTxn}
    (slotsNull : Bool) (cap : Nat) (hclosed : t.txn.opened = false) :
    (∃ b, backend = some b.name ∧
      Holds b (txnBegin registry backend nsOrDir t slotsNull cap).2 (fun _ => none)) ∨
    (txnBegin registry backend nsOrDir t slotsNull cap).2.txn.opened = false := by
  cases backend with
  | none => exact Or.inr hclosed
  | some name =>
    cases nsOrDir with
    | none => exact Or.inr hclosed
    | some ns =>
    rw [txnBegin]
    by_cases hslots : 0 < cap ∧ slotsNull = true
    · rw [if_pos hslots]
      exact Or.inr hclosed
    rw [if_neg hslots, hclosed, if_neg Bool.false_ne_true]
    cases hfind : findBackend registry name with
    | none => exact Or.inr hclosed
    | some b =>
      have hname : b.name = name := by simpa using List.find?_some hfind
      refine Or.inl ⟨b, by rw [hname], ?_⟩
      have hempty := holds_empty b cap
      cases b with
      | ram => simpa [Backend.txnBegin, ramTxnBegin] using hempty
      | rtc => exact hempty

/-- A write that found its slot. -/
theorem Holds.put {b : Backend} {t : BoundTxn} {writes : Bytes → Option Bytes} (h : Holds b t writes)
    {key value : Bytes} {slots : Slots Bytes Bytes} (hput : t.txn.slots.put key value = some slots)
    (hgate : b = .rtc → rtcTxnClassify key value.length = .ok) :
    Holds b ⟨some b, { t.txn with slots := slots }⟩
      (Function.update writes key (some value)) where
  vtable := rfl
  opened := h.opened
  err := h.err
  nodup := Slots.nodup_put hput h.nodup
  lookup := fun k => by
    rw [Slots.lookup_put hput, h.lookup]
    by_cases hk : key = k
    · rw [if_pos hk, hk, Function.update_self]
    · rw [if_neg hk, Function.update_of_ne (Ne.symm hk)]
  gated := fun hb => gated_put (h.gated hb) hput (hgate hb)

/-- A write is staged, or it fails and poisons the transaction. -/
theorem txnSet_cases (valueMax : Nat) {b : Backend} {t : BoundTxn}
    {writes : Bytes → Option Bytes} (h : Holds b t writes) (key value : Bytes) :
    ((txnSet valueMax t key value).1 = .ok ∧
      Holds b (txnSet valueMax t key value).2 (Function.update writes key (some value))) ∨
    ((txnSet valueMax t key value).1 ≠ .ok ∧ (txnSet valueMax t key value).2.txn.err ≠ .ok) := by
  have hset : txnSet valueMax t key value =
      ((b.txnSet valueMax t.txn key value).1, ⟨some b,
        if (b.txnSet valueMax t.txn key value).1 ≠ .ok then
          { (b.txnSet valueMax t.txn key value).2 with
            err := (b.txnSet valueMax t.txn key value).1 }
        else (b.txnSet valueMax t.txn key value).2⟩) := by
    simp [txnSet, h.opened, h.vtable, h.err]
  have hfailed : ∀ e txn', e ≠ .ok → b.txnSet valueMax t.txn key value = (e, txn') →
      (txnSet valueMax t key value).1 ≠ .ok ∧
        (txnSet valueMax t key value).2.txn.err ≠ .ok := by
    intro e txn' he hrun
    rw [hset, hrun]
    simp [he]
  have hstaged : ∀ slots, t.txn.slots.put key value = some slots →
      (b = .rtc → rtcTxnClassify key value.length = .ok) →
      b.txnSet valueMax t.txn key value = (.ok, { t.txn with slots := slots }) →
      (txnSet valueMax t key value).1 = .ok ∧
        Holds b (txnSet valueMax t key value).2 (Function.update writes key (some value)) := by
    intro slots hput hgate hrun
    rw [hset, hrun]
    exact ⟨rfl, h.put hput hgate⟩
  cases b with
  | ram =>
    rcases stage_cases valueMax t.txn key value with ⟨slots, hput, hrun⟩ | ⟨e, he, hrun⟩
    · exact Or.inl (hstaged slots hput nofun hrun)
    · exact Or.inr (hfailed e _ he hrun)
  | rtc =>
    rcases rtcTxnSet_cases valueMax key value h.opened h.err with
      ⟨slots, hput, hgate, hrun⟩ | ⟨e, he, hrun⟩
    · exact Or.inl (hstaged slots hput (fun _ => hgate) hrun)
    · exact Or.inr (hfailed e _ he hrun)

/-- A commit applies every staged write, or fails and changes nothing. -/
theorem txnCommit_cases {b : Backend} {t : BoundTxn} {writes : Bytes → Option Bytes}
    (h : Holds b t writes) (s : Store) (hvalid : b = .rtc → regionValid s.rtc = true) :
    ((txnCommit s t).1 = .ok ∧
      (∀ k, b.get (txnCommit s t).2.1 k = ((writes k).map (b.shown k)).or (b.get s k)) ∧
      ∀ b' k, b' ≠ b → b'.get (txnCommit s t).2.1 k = b'.get s k) ∨
    ((txnCommit s t).1 ≠ .ok ∧ (txnCommit s t).2.1 = s) := by
  have hanswer : (txnCommit s t).1 = (b.txnCommit s t.txn).1 := by
    simp [txnCommit, h.opened, h.vtable]
  have hstore : (txnCommit s t).2.1 = (b.txnCommit s t.txn).2.1 := by
    simp [txnCommit, h.opened, h.vtable]
  rw [hanswer, hstore]
  cases b with
  | ram =>
    rcases ramTxnCommit_cases s.ram h.nodup with ⟨_, table', hrun, hget⟩ | ⟨e, he, hrun⟩
    · simp only [Backend.txnCommit, hrun]
      refine Or.inl ⟨trivial, fun k => ?_, fun b' k hb => ?_⟩
      · have hshown : Backend.shown .ram k = id := rfl
        rw [← h.lookup, hshown, Option.map_id]
        exact hget k
      · cases b' with
        | ram => exact absurd rfl hb
        | rtc => rfl
    · simp only [Backend.txnCommit, hrun]
      exact Or.inr ⟨he, trivial⟩
  | rtc =>
    rcases rtcTxnCommit_cases (hvalid rfl) h.nodup (h.gated rfl) with
      ⟨_, region', hrun, hget⟩ | ⟨e, txn', he, _, hrun⟩
    · simp only [Backend.txnCommit, hrun]
      refine Or.inl ⟨trivial, fun k => ?_, fun b' k hb => ?_⟩
      · rw [← h.lookup]
        exact hget k
      · cases b' with
        | ram => rfl
        | rtc => exact absurd rfl hb
    · simp only [Backend.txnCommit, hrun]
      exact Or.inr ⟨he, trivial⟩

/-- A closed transaction takes no writes. -/
theorem txnSet_of_closed (valueMax : Nat) {t : BoundTxn} (h : t.txn.opened = false)
    (key value : Bytes) : txnSet valueMax t key value = (.invalidState, t) := by
  simp [txnSet, h]

/-- A closed or poisoned transaction refuses a write and does not change. -/
theorem txnSet_of_failed (valueMax : Nat) {t : BoundTxn}
    (h : t.txn.opened = false ∨ t.txn.err ≠ .ok) (key value : Bytes) :
    (txnSet valueMax t key value).1 ≠ .ok ∧ (txnSet valueMax t key value).2 = t := by
  cases hopened : t.txn.opened with
  | false => simp [txnSet_of_closed valueMax hopened key value]
  | true =>
    have herr : t.txn.err ≠ .ok := h.resolve_left (by simp [hopened])
    cases hvt : t.vtable with
    | none => simp [txnSet, hopened, hvt]
    | some b => simp [txnSet, hopened, hvt, herr]

/-- A closed or poisoned transaction commits nothing. -/
theorem txnCommit_of_failed {t : BoundTxn} (h : t.txn.opened = false ∨ t.txn.err ≠ .ok)
    (s : Store) : (txnCommit s t).1 ≠ .ok ∧ (txnCommit s t).2.1 = s := by
  cases hopened : t.txn.opened with
  | false => simp [txnCommit, hopened]
  | true =>
    have herr : t.txn.err ≠ .ok := h.resolve_left (by simp [hopened])
    cases hvt : t.vtable with
    | none => simp [txnCommit, hopened, hvt]
    | some b =>
      cases b with
      | ram => simp [txnCommit, hopened, hvt, Backend.txnCommit, ramTxnCommit, herr]
      | rtc => simp [txnCommit, hopened, hvt, Backend.txnCommit, rtcTxnCommit, herr]

end Storage
end Breadboard
