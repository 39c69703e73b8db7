import Breadboard.SerializeJson.Config

/-!
# bb_serialize - descriptors and snapshots in memory

A descriptor is a table of fields; a field's `children` is the address of another
table, so tables may refer to each other in any way, cycles included.  A snapshot is
an address in a flat byte memory: a field lies at its offset, and what a carrier
points to lies anywhere.
-/

namespace Breadboard
namespace Serialize

/-- `bb_type_t`. -/
inductive Ty where
  | i64
  | u64
  | f64
  | bool
  | str
  | strN
  | obj
  | arr
  | ref
  deriving Repr, DecidableEq

/-- `bb_serialize_arr_cardinality_t`. -/
inductive Cardinality where
  | fixed
  | stream
  deriving Repr, DecidableEq

/-- `bb_serialize_field_t`; function pointers and tables are addresses. -/
structure Field where
  key : Bytes
  type : Ty
  offset : Nat
  present : Option Nat
  children : Nat
  maxLen : Nat
  maxItems : Nat
  elemType : Ty
  elemSize : Nat
  cardinality : Cardinality
  refKey : Bytes
  deriving Repr, DecidableEq

/-- A byte memory. -/
abbrev Mem := Nat → UInt8

/--
The static surroundings of a walk: the width of `void *` and `size_t`, the
field table behind each `children` pointer, the presence predicates, and the rows
an iterator delivers, each as the memory and the address the walker reads it from.
-/
structure Program where
  wordBytes : Nat
  tables : Nat → List Field
  present : Nat → Mem → Nat → Bool
  rows : Nat → Nat → Mem → List (Mem × Nat)

/-- A field whose children are described: an object, or an array of objects. -/
def Field.nests (f : Field) : Bool :=
  f.type == .obj || f.type == .arr && (f.elemType == .obj || f.cardinality == .stream)

/-- The fields a table describes, at any depth. -/
inductive HasField (P : Program) : List Field → Field → Prop where
  | here {fields : List Field} {f : Field} (hf : f ∈ fields) : HasField P fields f
  | child {fields : List Field} {f g : Field} (hf : f ∈ fields) (hnests : f.nests = true)
      (hg : HasField P (P.tables f.children) g) : HasField P fields g

/-! ## Loads -/

/-- `n` bytes from an address, as a little-endian number. -/
def load (m : Mem) (a : Nat) : Nat → Nat
  | 0 => 0
  | n + 1 => (m a).toNat + 256 * load m (a + 1) n

/-- `n` bytes from an address. -/
def loadBytes (m : Mem) (a : Nat) : Nat → Bytes
  | 0 => []
  | n + 1 => m a :: loadBytes m (a + 1) n

/-- The bytes before the terminator, at most `n`: what `strnlen` counts. -/
def loadStr (m : Mem) (a : Nat) : Nat → Bytes
  | 0 => []
  | n + 1 => if m a = 0 then [] else m a :: loadStr m (a + 1) n

theorem load_congr {m m' : Mem} {a n : Nat} (h : ∀ i, i < n → m' (a + i) = m (a + i)) :
    load m' a n = load m a n := by
  induction n generalizing a with
  | zero => rfl
  | succ n ih =>
    have hfirst : m' a = m a := h 0 (Nat.succ_pos n)
    have hrest : load m' (a + 1) n = load m (a + 1) n := ih fun i hi => by
      have := h (i + 1) (by omega)
      rwa [show a + (i + 1) = a + 1 + i by omega] at this
    rw [load, load, hfirst, hrest]

@[simp] theorem length_loadBytes (m : Mem) (a n : Nat) : (loadBytes m a n).length = n := by
  induction n generalizing a with
  | zero => rfl
  | succ n ih => rw [loadBytes, List.length_cons, ih]

theorem length_loadStr_le (m : Mem) (a n : Nat) : (loadStr m a n).length ≤ n := by
  induction n generalizing a with
  | zero => exact Nat.le_refl 0
  | succ n ih =>
    rw [loadStr]
    split
    · exact Nat.zero_le _
    · exact Nat.succ_le_succ (ih (a + 1))

theorem load_lt (m : Mem) (a n : Nat) : load m a n < 256 ^ n := by
  induction n generalizing a with
  | zero => exact Nat.one_pos
  | succ n ih =>
    have hbyte : (m a).toNat < 256 := (m a).toNat_lt
    have hrest := ih (a + 1)
    rw [load, Nat.pow_succ]
    omega

end Serialize
end Breadboard
