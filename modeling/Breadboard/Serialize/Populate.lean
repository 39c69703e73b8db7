import Breadboard.Serialize.Desc

/-!
# bb_serialize - populate

`bb_serialize_populate` scatters a source into a snapshot: a check of the whole
descriptor, then the scatter.  The source is its state and a step for each callback;
a `get_str` answers the bytes it writes, within the capacity it is given and none
when it answers false, as its contract requires.
-/

namespace Breadboard
namespace Serialize

/-- `bb_serialize_populate_t` over the states of its context. -/
structure Source (σ : Type) where
  getI64 : σ → Bytes → Option (BitVec 64) × σ
  getU64 : σ → Bytes → Option (BitVec 64) × σ
  getF64 : σ → Bytes → Option (BitVec 64) × σ
  getBool : σ → Bytes → Option Bool × σ
  getStr : σ → Option Bytes → (cap : Nat) → Option { s : Bytes // s.length ≤ cap } × σ
  beginObj : σ → Option Bytes → Bool × σ
  endObj : σ → σ
  beginArr : σ → Bytes → Option Nat × σ
  endArr : σ → σ

/-! ## Stores -/

/-- The little-endian bytes of a number. -/
def leBytes : Nat → Nat → Bytes
  | 0, _ => []
  | n + 1, v => UInt8.ofNat (v % 256) :: leBytes n (v / 256)

/-- Memory with bytes written at an address. -/
def storeBytes (m : Mem) (a : Nat) (s : Bytes) : Mem := fun x =>
  if a ≤ x ∧ x < a + s.length then s.getD (x - a) 0 else m x

/-- The memory, the source, and every store made so far. -/
structure Scatter (σ : Type) where
  mem : Mem
  src : σ
  stores : List (Nat × Bytes)

/-- `memcpy` to an address. -/
def Scatter.store {σ : Type} (s : Scatter σ) (a : Nat) (bytes : Bytes) : Scatter σ :=
  { s with mem := storeBytes s.mem a bytes, stores := (a, bytes) :: s.stores }

/-! ## The check -/

section Check

variable (P : Program)

/-- One round of `populate_check_fields`. -/
def populateCheckField (nested : Option (List Field → BbErr)) (f : Field) : BbErr :=
  match f.type with
  | .strN => .unsupported
  | .ref => .unsupported
  | .obj =>
    match nested with
    | none => .noSpace
    | some check => check (P.tables f.children)
  | .arr =>
    match nested with
    | none => .noSpace
    | some check =>
      if f.cardinality = .stream then .unsupported
      else if f.maxItems = 0 then .invalidArg
      else if f.elemType = .obj then check (P.tables f.children)
      else .ok
  | _ => .ok

/-- The first field that fails decides. -/
def firstError (check : Field → BbErr) : List Field → BbErr
  | [] => .ok
  | f :: fields => if check f ≠ .ok then check f else firstError check fields

/-- `populate_check_fields`, with the number of levels still allowed. -/
def populateCheckFields : Nat → List Field → BbErr
  | 0, fields => firstError (populateCheckField P none) fields
  | n + 1, fields => firstError (populateCheckField P (some (populateCheckFields n))) fields

end Check

/-! ## The scatter -/

section Scatter

variable {σ : Type} (P : Program) (src : Source σ)

/-- A scalar is copied when the source has it. -/
def scatterScalar (s : Scatter σ) (p : Nat) (got : Option Bytes × σ) : Scatter σ :=
  match got.1 with
  | none => { s with src := got.2 }
  | some bytes => { s with src := got.2 }.store p bytes

/-- The elements of an object array: how many were written, and the error that stopped it. -/
def scatterObjs (scatter : Nat → Scatter σ → BbErr × Scatter σ) (f : Field) (items : Nat) :
    Nat → Nat → Scatter σ → BbErr × Nat × Scatter σ
  | 0, written, s => (.ok, written, s)
  | n + 1, written, s =>
    match src.beginObj s.src none with
    | (false, src') => (.ok, written, { s with src := src' })
    | (true, src') =>
      let r := scatter (items + written * f.elemSize) { s with src := src' }
      let s := { r.2 with src := src.endObj r.2.src }
      if r.1 ≠ .ok then (r.1, written, s)
      else scatterObjs scatter f items n (written + 1) s

/-- The elements of any other array, read as `char *` buffers. -/
def scatterStrs (f : Field) (items : Nat) : Nat → Nat → Scatter σ → Nat × Scatter σ
  | 0, written, s => (written, s)
  | n + 1, written, s =>
    let item := load s.mem (items + written * P.wordBytes) P.wordBytes
    match src.getStr s.src none f.maxLen with
    | (none, src') => (written, { s with src := src' })
    | (some str, src') =>
      scatterStrs f items n (written + 1) ({ s with src := src' }.store item str.1)

/-- The array of `populate_fields`, once `begin_arr` has answered its count. -/
def scatterArr (scatter : List Field → Nat → Scatter σ → BbErr × Scatter σ) (f : Field)
    (p count : Nat) (s : Scatter σ) : BbErr × Scatter σ :=
  let w := P.wordBytes
  let items := load s.mem p w
  let n := if count < f.maxItems then count else f.maxItems
  let r : BbErr × Nat × Scatter σ :=
    if items = 0 then (.ok, 0, s)
    else if f.elemType = .obj then
      scatterObjs src (scatter (P.tables f.children)) f items n 0 s
    else (.ok, scatterStrs P src f items n 0 s)
  if r.1 ≠ .ok then (r.1, { r.2.2 with src := src.endArr r.2.2.src })
  else
    let s := r.2.2.store p (leBytes w items ++ leBytes w r.2.1)
    (.ok, { s with src := src.endArr s.src })

/-- One round of the loop in `populate_fields`. -/
def populateField (nested : Option (List Field → Nat → Scatter σ → BbErr × Scatter σ)) (dst : Nat)
    (f : Field) (s : Scatter σ) : BbErr × Scatter σ :=
  let p := dst + f.offset
  match f.type with
  | .i64 =>
    let got := src.getI64 s.src f.key
    (.ok, scatterScalar s p (got.1.map fun v => leBytes 8 v.toNat, got.2))
  | .u64 =>
    let got := src.getU64 s.src f.key
    (.ok, scatterScalar s p (got.1.map fun v => leBytes 8 v.toNat, got.2))
  | .f64 =>
    let got := src.getF64 s.src f.key
    (.ok, scatterScalar s p (got.1.map fun v => leBytes 8 v.toNat, got.2))
  | .bool =>
    let got := src.getBool s.src f.key
    (.ok, scatterScalar s p (got.1.map fun v => [if v then 1 else 0], got.2))
  | .str =>
    let got := src.getStr s.src (some f.key) f.maxLen
    (.ok, scatterScalar s p (got.1.map Subtype.val, got.2))
  | .strN => (.ok, s)
  | .ref => (.ok, s)
  | .obj =>
    match nested with
    | none => (.noSpace, s)
    | some scatter =>
      match src.beginObj s.src (some f.key) with
      | (false, src') => (.ok, { s with src := src' })
      | (true, src') =>
        let r := scatter (P.tables f.children) p { s with src := src' }
        (r.1, { r.2 with src := src.endObj r.2.src })
  | .arr =>
    match nested with
    | none => (.noSpace, s)
    | some scatter =>
      match src.beginArr s.src f.key with
      | (none, src') => (.ok, { s with src := src' })
      | (some count, src') => scatterArr P src scatter f p count { s with src := src' }

/-- Field after field, until one fails. -/
def scatterEach (scatter : Field → Scatter σ → BbErr × Scatter σ) :
    List Field → Scatter σ → BbErr × Scatter σ
  | [], s => (.ok, s)
  | f :: fields, s =>
    let r := scatter f s
    if r.1 ≠ .ok then r else scatterEach scatter fields r.2

/-- `populate_fields`, with the number of levels still allowed. -/
def populateFields : Nat → List Field → Nat → Scatter σ → BbErr × Scatter σ
  | 0, fields, dst, s => scatterEach (populateField P src none dst) fields s
  | n + 1, fields, dst, s =>
    scatterEach (populateField P src (some (populateFields n)) dst) fields s

/-- `bb_serialize_populate`. -/
def populate (fields : List Field) (dst : Nat) (s : Scatter σ) : BbErr × Scatter σ :=
  let rc := populateCheckFields P maxDepth fields
  if rc ≠ .ok then (rc, s) else populateFields P src maxDepth fields dst s

end Scatter

/-! ## Lemmas about stores and the check -/

@[simp] theorem length_leBytes (n v : Nat) : (leBytes n v).length = n := by
  induction n generalizing v with
  | zero => rfl
  | succ n ih => rw [leBytes, List.length_cons, ih]

/-- Storing back what was loaded writes the bytes that are there. -/
theorem leBytes_load (m : Mem) (a n : Nat) : leBytes n (load m a n) = loadBytes m a n := by
  induction n generalizing a with
  | zero => rfl
  | succ n ih =>
    have hbyte : (m a).toNat < 256 := (m a).toNat_lt
    have hmod : ((m a).toNat + 256 * load m (a + 1) n) % 256 = (m a).toNat := by omega
    have hdiv : ((m a).toNat + 256 * load m (a + 1) n) / 256 = load m (a + 1) n := by omega
    rw [leBytes, load, loadBytes, hmod, hdiv, ih, UInt8.ofNat_toNat]

theorem loadBytes_getD (m : Mem) (a : Nat) {n i : Nat} (hi : i < n) (d : UInt8) :
    (loadBytes m a n).getD i d = m (a + i) := by
  induction n generalizing a i with
  | zero => omega
  | succ n ih =>
    cases i with
    | zero => rfl
    | succ i =>
      rw [loadBytes, List.getD_cons_succ, ih (a + 1) (by omega)]
      congr 1
      omega

theorem storeBytes_of_not_mem {m : Mem} {a x : Nat} {s : Bytes}
    (hx : ¬ (a ≤ x ∧ x < a + s.length)) : storeBytes m a s x = m x :=
  if_neg hx

theorem firstError_ok_iff {check : Field → BbErr} {fields : List Field} :
    firstError check fields = .ok ↔ ∀ f ∈ fields, check f = .ok := by
  induction fields with
  | nil => simp [firstError]
  | cons f fields ih =>
    rw [firstError, List.forall_mem_cons, ← ih]
    split
    · rename_i hf
      exact ⟨fun h => absurd h hf, fun h => absurd h.1 hf⟩
    · rename_i hf
      exact ⟨fun h => ⟨not_not.mp hf, h⟩, fun h => h.2⟩

end Serialize
end Breadboard
