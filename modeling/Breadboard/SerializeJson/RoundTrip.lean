import Breadboard.SerializeJson.Rejecting
import Breadboard.SerializeJson.Streaming
import Breadboard.SerializeJson.WriterEvents

/-!
# bb_serialize_json - rendering and scanning back

Scanning what the renderer wrote drives the sink with the walker's own calls.

Main results:

- Theorem `walk_inRange`: the integers the walker emits are 64 bits wide.
- Theorem `render_scan_roundTrip`: the scanner gives back the walker's sequence.
-/

namespace Breadboard
namespace SerializeJson

open Foundations Serialize
open Foundations.JsonText (Event)

/-! ## What the walker emits is in range -/

theorem loadI64_range (m : Mem) (a : Nat) : -2 ^ 63 ≤ loadI64 m a ∧ loadI64 m a < 2 ^ 63 := by
  have hlow := (BitVec.ofNat 64 (load m a 8)).le_toInt
  have hhigh := (BitVec.ofNat 64 (load m a 8)).toInt_lt
  exact ⟨by simpa [loadI64] using hlow, by simpa [loadI64] using hhigh⟩

theorem load_inRange (m : Mem) (a : Nat) : load m a 8 < 2 ^ 64 := by
  have hlt := load_lt m a 8
  omega

section Walk

variable {P : Program} {resolve : Resolver}

/-- A container around calls in range. -/
theorem inRange_container {opening closing : Emit} {es : List Emit} (hopen : InRange opening)
    (hes : ∀ e ∈ es, InRange e) (hclose : InRange closing) :
    ∀ e ∈ opening :: es ++ [closing], InRange e := by
  intro e he
  rw [List.cons_append, List.mem_cons, List.mem_append, List.mem_singleton] at he
  rcases he with rfl | he | rfl
  · exact hopen
  · exact hes e he
  · exact hclose

theorem walkItems_inRange {nested : Option (Mem → List Field → Nat → List Emit)}
    (hnested : ∀ walk, nested = some walk → ∀ m fields snap, ∀ e ∈ walk m fields snap, InRange e)
    (m : Mem) (f : Field) (items count : Nat) :
    ∀ e ∈ walkItems P nested m f items count, InRange e := by
  intro e he
  unfold walkItems at he
  split at he
  · split at he
    · cases he
    · next walk =>
      obtain ⟨j, -, he⟩ := List.mem_flatMap.mp he
      exact @inRange_container (.beginObj none) .endObj _ trivial (hnested walk rfl _ _ _) trivial e he
  · obtain ⟨j, -, rfl⟩ := List.mem_map.mp he
    dsimp only
    split <;> trivial
  · obtain ⟨j, -, rfl⟩ := List.mem_map.mp he
    exact loadI64_range m _
  · obtain ⟨j, -, rfl⟩ := List.mem_map.mp he
    exact load_inRange m _
  · obtain ⟨j, -, rfl⟩ := List.mem_map.mp he
    trivial
  · obtain ⟨j, -, rfl⟩ := List.mem_map.mp he
    trivial
  · cases he

theorem walkRows_inRange {nested : Option (Mem → List Field → Nat → List Emit)}
    (hnested : ∀ walk, nested = some walk → ∀ m fields snap, ∀ e ∈ walk m fields snap, InRange e)
    (m : Mem) (f : Field) (next iterCtx : Nat) :
    ∀ e ∈ walkRows P nested m f next iterCtx, InRange e := by
  intro e he
  unfold walkRows at he
  split at he
  · cases he
  split at he
  · cases he
  · next walk =>
    obtain ⟨row, -, he⟩ := List.mem_flatMap.mp he
    exact @inRange_container (.beginObj none) .endObj _ trivial (hnested walk rfl _ _ _) trivial e he

theorem walkField_inRange {nested : Option (Mem → List Field → Nat → List Emit)}
    (hnested : ∀ walk, nested = some walk → ∀ m fields snap, ∀ e ∈ walk m fields snap, InRange e)
    (m : Mem) (snap : Nat) (f : Field) :
    ∀ e ∈ walkField P resolve nested m snap f, InRange e := by
  have hsingle {e : Emit} (he : InRange e) : ∀ e' ∈ [e], InRange e' := by
    intro e' he'
    rwa [List.mem_singleton.mp he']
  unfold walkField
  dsimp only
  split
  · exact fun e he => by cases he
  split
  · exact hsingle (loadI64_range m _)
  · exact hsingle (load_inRange m _)
  · exact hsingle trivial
  · exact hsingle trivial
  · exact hsingle trivial
  · split <;> exact hsingle trivial
  · split
    · exact fun e he => by cases he
    · next walk => exact inRange_container trivial (hnested walk rfl _ _ _) trivial
  · refine inRange_container trivial ?_ trivial
    split
    · exact walkRows_inRange hnested m f _ _
    split
    · exact fun e he => by cases he
    · exact walkItems_inRange hnested m f _ _
  · split
    · exact fun e he => by cases he
    split
    · exact fun e he => by cases he
    · exact inRange_container trivial (hnested _ rfl _ _ _) trivial

/-- The integers the walker emits are 64 bits wide. -/
theorem walk_inRange (m : Mem) (fields : List Field) (snap : Nat) :
    ∀ e ∈ walk P resolve m fields snap, InRange e := by
  have hfields (n : Nat) : ∀ m fields snap, ∀ e ∈ walkFields P resolve n m fields snap,
      InRange e := by
    induction n with
    | zero =>
      intro m fields snap e he
      obtain ⟨f, -, he⟩ := List.mem_flatMap.mp he
      exact walkField_inRange (fun _ h => by cases h) m snap f e he
    | succ n ih =>
      intro m fields snap e he
      obtain ⟨f, -, he⟩ := List.mem_flatMap.mp he
      refine walkField_inRange (fun walk h => ?_) m snap f e he
      cases h
      exact ih
  exact hfields maxDepth m fields snap

end Walk

/-! ## Round trip -/

section RoundTrip

variable (lib : Libc) (cfg : Kconfig) (P : Program)

/--
A render that succeeds, of a document within the limits of the scanner, is scanned back: the
scan succeeds, and its joined calls are the walker's sequence between the outer braces.
-/
theorem render_scan_roundTrip (hlib : lib.PrintsNumbers) (resolve : Resolver) (m : Mem)
    (fields : List Field) (snap cap : Nat) (f64Shortest : Bool)
    (hlimits : WithinLimits cfg
      (documentEvents lib cfg f64Shortest (walk P resolve m fields snap)))
    (hok : (render lib cfg P resolve m fields snap cap f64Shortest).1 = .ok) :
    ∃ calls, scanBounded cfg record [] (render lib cfg P resolve m fields snap cap f64Shortest).2 =
        (calls, .ok) ∧
      gather calls = some (documentEvents lib cfg f64Shortest (walk P resolve m fields snap)) := by
  have hnested : Nested false (2 * maxDepth + 1) (walk P resolve m fields snap) :=
    walkFields_nested maxDepth m fields snap
  rw [render_ok lib cfg P hok]
  exact gather_scanBounded (documentText_isText hlib hnested (walk_inRange m fields snap)) hlimits

/-- A library that prints every `double` as `0`; the document below has none. -/
def zeroFloats : Libc where
  printG := fun _ _ => [48]
  strtod := fun _ => 0
  length_printG_le := fun _ _ _ => by decide

/-- A `BB_TYPE_U64` field and a `BB_TYPE_STR` field of three bytes, both at the start. -/
def counterAndText : List Field :=
  [{ flagField with type := .u64 }, { flagField with key := [98], type := .str, maxLen := 3 }]

/-- A snapshot of line feeds: the string has to be escaped. -/
theorem render_scan_roundTrip_escaped :
    ∃ calls, scanBounded .default record []
        (render zeroFloats .default flatProgram .none (fun _ => 10) counterAndText 0 64 false).2 =
        (calls, .ok) ∧
      gather calls = some (documentEvents zeroFloats .default false
        (walk flatProgram .none (fun _ => 10) counterAndText 0)) := by
  have hdigits : JsonText.Digits [48] := by
    refine ⟨List.cons_ne_nil _ _, fun b hb => ?_⟩
    rw [List.mem_singleton.mp hb]
    rfl
  have hlib : zeroFloats.PrintsNumbers := fun _ _ _ _ =>
    @laxNumber_of_digits [] [48] (.inl rfl) hdigits
  have hlimits : WithinLimits .default (documentEvents zeroFloats .default false
      (walk flatProgram .none (fun _ => 10) counterAndText 0)) := by
    unfold WithinLimits JsonText.Fit
    decide +kernel
  exact render_scan_roundTrip zeroFloats .default flatProgram hlib .none (fun _ => 10) counterAndText
    0 64 false hlimits (by decide +kernel)

end RoundTrip

end SerializeJson
end Breadboard
