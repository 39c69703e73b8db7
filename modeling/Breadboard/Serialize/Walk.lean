import Mathlib.Data.List.Basic
import Breadboard.Serialize.Desc

/-!
# bb_serialize - the descriptor walker

`walk_fields` calls the emit callbacks in table order; here it answers the list of
these calls.  Its depth argument becomes the number of levels still allowed, so that
the depth guard is the absence of a nested walk.

Main results:

- Theorem `walkFields_nested`: what the walker emits is well bracketed, keyed
  exactly inside objects, and nests twice per level at most.
- Theorem `walkFields_congr_resolve`: without a reference field the resolver
  plays no part.
-/

namespace Breadboard
namespace Serialize

/-- One call of `bb_serialize_emit_t`; an array element has no key. -/
inductive Emit where
  | beginObj (key : Option Bytes)
  | endObj
  | beginArr (key : Option Bytes)
  | endArr
  | i64 (key : Option Bytes) (v : Int)
  | u64 (key : Option Bytes) (v : Nat)
  | f64 (key : Option Bytes) (v : Float)
  | bool (key : Option Bytes) (v : Bool)
  | str (key : Option Bytes) (s : Bytes)
  | null (key : Option Bytes)

/-- `bb_serialize_ref_resolve_fn` with its context: a sibling's fields and snapshot. -/
abbrev Resolver := Bytes → Option (List Field × Nat)

/-- No resolver. -/
def Resolver.none : Resolver := fun _ => Option.none

/-- `memcpy` into an `int64_t`. -/
def loadI64 (m : Mem) (a : Nat) : Int := (BitVec.ofNat 64 (load m a 8)).toInt

/-- `memcpy` into a `double`. -/
def loadF64 (m : Mem) (a : Nat) : Float := Float.ofBits (UInt64.ofNat (load m a 8))

/-- `memcpy` into a `bool`. -/
def loadBool (m : Mem) (a : Nat) : Bool := m a != 0

section Walk

variable (P : Program) (resolve : Resolver)

/-- The elements of a `BB_ARR_FIXED` array. -/
def walkItems (nested : Option (Mem → List Field → Nat → List Emit)) (m : Mem) (f : Field)
    (items count : Nat) : List Emit :=
  match f.elemType with
  | .obj =>
    match nested with
    | none => []
    | some walk =>
      (List.range count).flatMap fun j =>
        .beginObj none :: walk m (P.tables f.children) (items + j * f.elemSize) ++ [.endObj]
  | .str =>
    (List.range count).map fun j =>
      let s := load m (items + j * P.wordBytes) P.wordBytes
      if s ≠ 0 then .str none (loadStr m s f.maxLen) else .null none
  | .i64 => (List.range count).map fun j => .i64 none (loadI64 m (items + j * 8))
  | .u64 => (List.range count).map fun j => .u64 none (load m (items + j * 8) 8)
  | .f64 => (List.range count).map fun j => .f64 none (loadF64 m (items + j * 8))
  | .bool => (List.range count).map fun j => .bool none (loadBool m (items + j))
  | _ => []

/-- The rows of a `BB_ARR_STREAM` array. -/
def walkRows (nested : Option (Mem → List Field → Nat → List Emit)) (m : Mem) (f : Field)
    (next iterCtx : Nat) : List Emit :=
  if next = 0 then []
  else
    match nested with
    | none => []
    | some walk =>
      (P.rows next iterCtx m).flatMap fun row =>
        .beginObj none :: walk row.1 (P.tables f.children) row.2 ++ [.endObj]

/-- One round of the loop in `walk_fields`; without `nested` the depth is used up. -/
def walkField (nested : Option (Mem → List Field → Nat → List Emit)) (m : Mem) (snap : Nat)
    (f : Field) : List Emit :=
  let p := snap + f.offset
  let w := P.wordBytes
  if (f.present.elim true fun g => P.present g m snap) = false then []
  else
    match f.type with
    | .i64 => [.i64 (some f.key) (loadI64 m p)]
    | .u64 => [.u64 (some f.key) (load m p 8)]
    | .f64 => [.f64 (some f.key) (loadF64 m p)]
    | .bool => [.bool (some f.key) (loadBool m p)]
    | .str => [.str (some f.key) (loadStr m p f.maxLen)]
    | .strN =>
      if load m p w ≠ 0 then
        [.str (some f.key) (loadBytes m (load m p w) (load m (p + w) w))]
      else [.null (some f.key)]
    | .obj =>
      match nested with
      | none => []
      | some walk => .beginObj (some f.key) :: walk m (P.tables f.children) p ++ [.endObj]
    | .arr =>
      .beginArr (some f.key) ::
        (if f.cardinality = .stream then walkRows P nested m f (load m p w) (load m (p + w) w)
        else if load m p w = 0 then []
        else walkItems P nested m f (load m p w) (load m (p + w) w)) ++ [.endArr]
    | .ref =>
      match nested with
      | none => []
      | some walk =>
        match resolve f.refKey with
        | none => []
        | some ref => .beginObj (some f.key) :: walk m ref.1 ref.2 ++ [.endObj]

/-- `walk_fields`, with the number of levels still allowed. -/
def walkFields : Nat → Mem → List Field → Nat → List Emit
  | 0, m, fields, snap => fields.flatMap (walkField P resolve none m snap)
  | n + 1, m, fields, snap => fields.flatMap (walkField P resolve (some (walkFields n)) m snap)

/-- `bb_serialize_walk`. -/
def walk (m : Mem) (fields : List Field) (snap : Nat) : List Emit :=
  walkFields P resolve maxDepth m fields snap

end Walk

/-! ## What the walker emits -/

/-- The key of a call that has one, and whether it opens or closes nothing. -/
def Emit.leafKey : Emit → Option (Option Bytes)
  | .i64 key _ => some key
  | .u64 key _ => some key
  | .f64 key _ => some key
  | .bool key _ => some key
  | .str key _ => some key
  | .null key => some key
  | _ => none

/-- A call that opens a container. -/
def Emit.opens : Emit → Bool
  | .beginObj _ => true
  | .beginArr _ => true
  | _ => false

/--
A well-bracketed sequence at most `n` containers deep: its calls are keyed in an
object and not keyed in an array.
-/
inductive Nested : Bool → Nat → List Emit → Prop where
  | nil {isArray : Bool} {n : Nat} : Nested isArray n []
  | leaf {isArray : Bool} {n : Nat} {e : Emit} {key : Option Bytes} {es : List Emit}
      (hleaf : e.leafKey = some key) (hkey : key.isNone = isArray) (hes : Nested isArray n es) :
      Nested isArray n (e :: es)
  | obj {isArray : Bool} {n : Nat} {key : Option Bytes} {inner es : List Emit}
      (hkey : key.isNone = isArray) (hinner : Nested false n inner)
      (hes : Nested isArray (n + 1) es) :
      Nested isArray (n + 1) (.beginObj key :: inner ++ .endObj :: es)
  | arr {isArray : Bool} {n : Nat} {key : Option Bytes} {inner es : List Emit}
      (hkey : key.isNone = isArray) (hinner : Nested true n inner)
      (hes : Nested isArray (n + 1) es) :
      Nested isArray (n + 1) (.beginArr key :: inner ++ .endArr :: es)

namespace Nested

variable {isArray : Bool} {n k : Nat} {es es' : List Emit}

theorem append (h : Nested isArray n es) (h' : Nested isArray n es') :
    Nested isArray n (es ++ es') := by
  induction h with
  | nil => exact h'
  | leaf hleaf hkey _ ih => exact .leaf hleaf hkey (ih h')
  | obj hkey hinner _ _ ih =>
    simpa only [List.cons_append, List.append_assoc] using Nested.obj hkey hinner (ih h')
  | arr hkey hinner _ _ ih =>
    simpa only [List.cons_append, List.append_assoc] using Nested.arr hkey hinner (ih h')

theorem mono (h : Nested isArray n es) (hn : n ≤ k) : Nested isArray k es := by
  induction h generalizing k with
  | nil => exact .nil
  | leaf hleaf hkey _ ih => exact .leaf hleaf hkey (ih hn)
  | obj hkey _ _ ihinner ih =>
    obtain ⟨k, rfl⟩ : ∃ j, k = j + 1 := ⟨k - 1, by omega⟩
    exact .obj hkey (ihinner (by omega)) (ih hn)
  | arr hkey _ _ ihinner ih =>
    obtain ⟨k, rfl⟩ : ∃ j, k = j + 1 := ⟨k - 1, by omega⟩
    exact .arr hkey (ihinner (by omega)) (ih hn)

theorem flatMap {α : Type} {l : List α} {g : α → List Emit}
    (h : ∀ x ∈ l, Nested isArray n (g x)) : Nested isArray n (l.flatMap g) := by
  induction l with
  | nil => exact .nil
  | cons x l ih =>
    rw [List.flatMap_cons]
    exact (h x List.mem_cons_self).append (ih fun y hy => h y (List.mem_cons_of_mem x hy))

theorem map_leaf {α : Type} {l : List α} {g : α → Emit}
    (h : ∀ x ∈ l, (g x).leafKey = some none) : Nested true n (l.map g) := by
  induction l with
  | nil => exact .nil
  | cons x l ih =>
    exact .leaf (h x List.mem_cons_self) rfl (ih fun y hy => h y (List.mem_cons_of_mem x hy))

theorem single_obj {key : Option Bytes} (hkey : key.isNone = isArray) (h : Nested false n es) :
    Nested isArray (n + 1) (.beginObj key :: es ++ [.endObj]) :=
  .obj hkey h .nil

theorem single_arr {key : Option Bytes} (hkey : key.isNone = isArray) (h : Nested true n es) :
    Nested isArray (n + 1) (.beginArr key :: es ++ [.endArr]) :=
  .arr hkey h .nil

end Nested

section Walk

variable {P : Program} {resolve : Resolver} {m : Mem}

theorem walkItems_nested {nested : Option (Mem → List Field → Nat → List Emit)} {n : Nat}
    (hnested : ∀ walk, nested = some walk →
      1 ≤ n ∧ ∀ m fields snap, Nested false (n - 1) (walk m fields snap))
    (f : Field) (items count : Nat) : Nested true n (walkItems P nested m f items count) := by
  unfold walkItems
  split
  · split
    · exact .nil
    · rename_i walk
      obtain ⟨hn, hwalk⟩ := hnested walk rfl
      obtain ⟨n, rfl⟩ : ∃ j, n = j + 1 := ⟨n - 1, by omega⟩
      exact .flatMap fun j _ => .single_obj rfl (hwalk _ _ _)
  · refine .map_leaf fun j _ => ?_
    dsimp only
    split <;> rfl
  all_goals first | exact .nil | exact .map_leaf fun j _ => rfl

theorem walkRows_nested {nested : Option (Mem → List Field → Nat → List Emit)} {n : Nat}
    (hnested : ∀ walk, nested = some walk →
      1 ≤ n ∧ ∀ m fields snap, Nested false (n - 1) (walk m fields snap))
    (f : Field) (next iterCtx : Nat) : Nested true n (walkRows P nested m f next iterCtx) := by
  unfold walkRows
  split
  · exact .nil
  split
  · exact .nil
  · rename_i walk
    obtain ⟨hn, hwalk⟩ := hnested walk rfl
    obtain ⟨n, rfl⟩ : ∃ j, n = j + 1 := ⟨n - 1, by omega⟩
    exact .flatMap fun row _ => .single_obj rfl (hwalk _ _ _)

/-- One field nests one array and one object deeper than what it contains. -/
theorem walkField_nested {nested : Option (Mem → List Field → Nat → List Emit)} {n : Nat}
    (hnested : ∀ walk, nested = some walk →
      1 ≤ n ∧ ∀ m fields snap, Nested false (n - 1) (walk m fields snap))
    (snap : Nat) (f : Field) :
    Nested false (n + 1) (walkField P resolve nested m snap f) := by
  have hleaf {e : Emit} (he : e.leafKey = some (some f.key)) : Nested false (n + 1) [e] :=
    .leaf he rfl .nil
  unfold walkField
  dsimp only
  split
  · exact .nil
  split
  case h_1 | h_2 | h_3 | h_4 | h_5 => exact hleaf rfl
  case h_6 => split <;> exact hleaf rfl
  case h_7 =>
    split
    · exact .nil
    · rename_i walk
      obtain ⟨hn, hwalk⟩ := hnested walk rfl
      exact .single_obj rfl ((hwalk _ _ _).mono (by omega))
  case h_8 =>
    refine .single_arr rfl ?_
    split
    · exact walkRows_nested hnested _ _ _
    split
    · exact .nil
    · exact walkItems_nested hnested _ _ _
  case h_9 =>
    split
    · exact .nil
    split
    · exact .nil
    · rename_i walk _ _ _
      obtain ⟨hn, hwalk⟩ := hnested walk rfl
      exact .single_obj rfl ((hwalk _ _ _).mono (by omega))

/-- What the walker emits is well bracketed and nests twice per level at most. -/
theorem walkFields_nested (n : Nat) (m : Mem) (fields : List Field) (snap : Nat) :
    Nested false (2 * n + 1) (walkFields P resolve n m fields snap) := by
  induction n generalizing m fields snap with
  | zero => exact .flatMap fun f _ => walkField_nested (fun _ h => by cases h) snap f
  | succ n ih =>
    refine .flatMap fun f _ => walkField_nested (fun walk h => ?_) snap f
    cases h
    exact ⟨by omega, fun m fields snap => (ih m fields snap).mono (by omega)⟩

end Walk

/-! ## Descriptors without references -/

section NoRef

variable {P : Program}

theorem walkField_congr {resolve resolve' : Resolver}
    {nested nested' : Option (Mem → List Field → Nat → List Emit)} {f : Field}
    (hf : f.type ≠ .ref) (hnone : nested = none ↔ nested' = none)
    (hsame : f.nests = true → ∀ walk walk', nested = some walk → nested' = some walk' →
      ∀ m snap, walk m (P.tables f.children) snap = walk' m (P.tables f.children) snap)
    (m : Mem) (snap : Nat) :
    walkField P resolve nested m snap f = walkField P resolve' nested' m snap f := by
  have hitems (htype : f.type = .arr) (items count : Nat) :
      walkItems P nested m f items count = walkItems P nested' m f items count := by
    unfold walkItems
    cases helem : f.elemType with
    | obj =>
      have hnests : f.nests = true := by simp [Field.nests, htype, helem]
      cases nested <;> cases nested' <;> simp_all
    | _ => rfl
  have hrows (htype : f.type = .arr) (hstream : f.cardinality = .stream) (next iterCtx : Nat) :
      walkRows P nested m f next iterCtx = walkRows P nested' m f next iterCtx := by
    have hnests : f.nests = true := by simp [Field.nests, htype, hstream]
    unfold walkRows
    cases nested <;> cases nested' <;> simp_all
  unfold walkField
  cases htype : f.type with
  | obj =>
    have hnests : f.nests = true := by simp [Field.nests, htype]
    cases nested <;> cases nested' <;> simp_all
  | arr =>
    by_cases hstream : f.cardinality = .stream
    · simp only [if_pos hstream, hrows htype hstream]
    · simp only [if_neg hstream, hitems htype]
  | ref => exact absurd htype hf
  | _ => rfl

/-- Without a reference field the resolver plays no part. -/
theorem walkFields_congr_resolve {resolve resolve' : Resolver} (n : Nat) (m : Mem)
    {fields : List Field} (hnoRef : ∀ f, HasField P fields f → f.type ≠ .ref) (snap : Nat) :
    walkFields P resolve n m fields snap = walkFields P resolve' n m fields snap := by
  induction n generalizing m fields snap with
  | zero =>
    refine List.flatMap_congr fun f hf => ?_
    exact walkField_congr (hnoRef f (.here hf)) Iff.rfl (fun _ _ _ h => by cases h) m snap
  | succ n ih =>
    refine List.flatMap_congr fun f hf => ?_
    refine walkField_congr (hnoRef f (.here hf)) (by simp)
      (fun hnests walk walk' h h' m snap => ?_) m snap
    cases h
    cases h'
    exact ih m (fun g hg => hnoRef g (.child hf hnests hg)) snap

end NoRef

end Serialize
end Breadboard
