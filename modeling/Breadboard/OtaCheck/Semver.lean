import Breadboard.Core.Basics
import Breadboard.Foundations.Decimal
import Breadboard.Reboot.Codec
import Mathlib.Data.List.TakeWhile

/-!
# bb_ota_check - comparing versions

A version is read with `sscanf`, which skips blanks, takes signs, clamps numbers
that are out of range and ignores what follows the third of them.  The release is newer
only if its numbers, as they are written, come after those of the running firmware.

Main results:

- Theorem `parseSemver_eq_some`: the components of a version, as they are written.
- Theorem `newer_of_semverCompare`: a release that compares greater is newer.
-/

namespace Breadboard
namespace OtaCheck

open Foundations.Decimal
open Reboot (isSpace scanSign literal)

/-! ## The code -/

/-- `INT_MIN`. -/
def intMin : Int := -(2 ^ 31)

/-- `INT_MAX`. -/
def intMax : Int := 2 ^ 31 - 1

/-- The conversion `%d`; a value past the type is clamped, as a 32-bit `strtol` does. -/
def scanD (s : Bytes) : Option (Int × Bytes) :=
  let signed := scanSign (s.dropWhile isSpace)
  let digits := signed.2.takeWhile isDigit
  if digits = [] then none
  else
    let v : Int := if signed.1 then -(value digits) else value digits
    some (max intMin (min intMax v), signed.2.dropWhile isDigit)

/-- `sscanf(s, "%d.%d.%d", ..)` with all three converted. -/
def scanVersion (s : Bytes) : Option (Int × Int × Int) := do
  let (a, s) ← scanD s
  let s ← literal 46 s
  let (b, s) ← scanD s
  let s ← literal 46 s
  let (c, _) ← scanD s
  some (a, b, c)

/-- The version without a leading `v`. -/
def skipV : Bytes → Bytes
  | [] => []
  | b :: s => if b = 118 ∨ b = 86 then s else b :: s

/-- `parse_semver`. -/
def parseSemver (s : Bytes) : Option (Int × Int × Int) :=
  if s = [] then none
  else
    match scanVersion (skipV s) with
    | none => none
    | some (a, b, c) => if a < 0 ∨ b < 0 ∨ c < 0 then none else some (a, b, c)

/-- `strncmp(s, "dev", 3) == 0`. -/
def isDev (s : Bytes) : Bool :=
  s.take 3 = [100, 101, 118]

/-- `semver_compare`. -/
def semverCompare (a b : Bytes) : Int :=
  if isDev a ∧ isDev b then 0
  else if isDev a then -1
  else if isDev b then 1
  else
    match parseSemver a with
    | none => intMin
    | some (amaj, amin, apatch) =>
      match parseSemver b with
      | none => intMin
      | some (bmaj, bmin, bpatch) =>
        if amaj ≠ bmaj then amaj - bmaj
        else if amin ≠ bmin then amin - bmin
        else apatch - bpatch

/-! ## Versions as they are written -/

/-- A number at the front of a text: blanks, a sign and digits, as many as there are. -/
structure Component (s : Bytes) (n : Nat) (rest : Bytes) : Prop where
  written : ∃ blanks sign digits, s = blanks ++ (sign ++ (digits ++ rest)) ∧
    (∀ b ∈ blanks, isSpace b = true) ∧
    (sign = [] ∨ sign = [43] ∨ sign = [45] ∧ n = 0) ∧
    digits ≠ [] ∧ (∀ b ∈ digits, isDigit b = true) ∧ value digits = n
  ends : ∀ b ∈ rest.head?, isDigit b = false

/-- A text starts with the version `x.y.z`, perhaps behind a `v`. -/
def ReadsVersion (s : Bytes) (x y z : Nat) : Prop :=
  ∃ r₁ r₂ r₃, Component (skipV s) x (46 :: r₁) ∧ Component r₁ y (46 :: r₂) ∧ Component r₂ z r₃

/-- A text is a plain `x.y.z`. -/
def PlainVersion (s : Bytes) (x y z : Nat) : Prop :=
  ∃ dx dy dz, s = dx ++ 46 :: (dy ++ 46 :: dz) ∧
    (dx ≠ [] ∧ (∀ b ∈ dx, isDigit b = true) ∧ value dx = x) ∧
    (dy ≠ [] ∧ (∀ b ∈ dy, isDigit b = true) ∧ value dy = y) ∧
    (dz ≠ [] ∧ (∀ b ∈ dz, isDigit b = true) ∧ value dz = z)

/-- The second version comes after the first. -/
def Newer (x y z x' y' z' : Nat) : Prop :=
  x < x' ∨ x = x' ∧ (y < y' ∨ y = y' ∧ z < z')

section

variable {s rest : Bytes} {v : Int}

/-- What is left of a text without its leading digits starts with no digit. -/
theorem not_isDigit_dropWhile (w : Bytes) : ∀ b ∈ (w.dropWhile isDigit).head?, isDigit b = false := by
  intro b hb
  have hhead := List.head?_dropWhile_not isDigit w
  rw [Option.mem_def.mp hb] at hhead
  exact hhead

/-- The sign in front of a number. -/
theorem scanSign_cases (s : Bytes) :
    scanSign s = (false, s) ∨ (∃ t, s = 43 :: t ∧ scanSign s = (false, t)) ∨
      ∃ t, s = 45 :: t ∧ scanSign s = (true, t) := by
  cases s with
  | nil => exact Or.inl rfl
  | cons b t =>
    by_cases hplus : b = 43
    · subst hplus
      exact Or.inr (Or.inl ⟨t, rfl, rfl⟩)
    · by_cases hminus : b = 45
      · subst hminus
        exact Or.inr (Or.inr ⟨t, rfl, rfl⟩)
      · left
        rw [scanSign, if_neg hplus, if_neg hminus]

/-- A conversion that is not negative has read a number that is at least as large. -/
theorem scanD_eq_some (h : scanD s = some (v, rest)) (hv : 0 ≤ v) :
    ∃ n : Nat, Component s n rest ∧ v ≤ n ∧ ((n : Int) ≤ intMax → v = n) := by
  unfold scanD at h
  dsimp only at h
  split at h
  · cases h
  rename_i hdigits
  injection h with h
  injection h with hvalue hrest
  subst hrest
  have hblanks := List.takeWhile_append_dropWhile (p := isSpace) (l := s)
  have hspaces : ∀ b ∈ s.takeWhile isSpace, isSpace b = true := fun b hb =>
    List.mem_takeWhile_imp hb
  have hall : ∀ t : Bytes, ∀ b ∈ t.takeWhile isDigit, isDigit b = true := fun t b hb =>
    List.mem_takeWhile_imp hb
  have hsplit : ∀ t : Bytes, t.takeWhile isDigit ++ t.dropWhile isDigit = t := fun t =>
    List.takeWhile_append_dropWhile
  rcases scanSign_cases (s.dropWhile isSpace) with hsign | ⟨t, ht, hsign⟩ | ⟨t, ht, hsign⟩
  · rw [hsign] at hdigits hvalue ⊢
    refine ⟨value ((s.dropWhile isSpace).takeWhile isDigit), ⟨⟨s.takeWhile isSpace, [],
      (s.dropWhile isSpace).takeWhile isDigit, ?_, hspaces, Or.inl rfl, hdigits, hall _, rfl⟩,
      not_isDigit_dropWhile _⟩, ?_, ?_⟩
    · rw [List.nil_append, hsplit, hblanks]
    · simp only [Bool.false_eq_true, if_false] at hvalue
      unfold intMin intMax at hvalue
      omega
    · intro hle
      simp only [Bool.false_eq_true, if_false] at hvalue
      unfold intMin intMax at *
      omega
  · rw [hsign] at hdigits hvalue ⊢
    refine ⟨value (t.takeWhile isDigit), ⟨⟨s.takeWhile isSpace, [43],
      t.takeWhile isDigit, ?_, hspaces, Or.inr (Or.inl rfl), hdigits, hall _, rfl⟩,
      not_isDigit_dropWhile _⟩, ?_, ?_⟩
    · rw [hsplit, List.singleton_append, ← ht, hblanks]
    · simp only [Bool.false_eq_true, if_false] at hvalue
      unfold intMin intMax at hvalue
      omega
    · intro hle
      simp only [Bool.false_eq_true, if_false] at hvalue
      unfold intMin intMax at *
      omega
  · rw [hsign] at hdigits hvalue ⊢
    simp only [if_true] at hvalue
    have hzero : value (t.takeWhile isDigit) = 0 := by
      unfold intMin intMax at hvalue
      omega
    refine ⟨0, ⟨⟨s.takeWhile isSpace, [45], t.takeWhile isDigit, ?_, hspaces,
      Or.inr (Or.inr ⟨rfl, rfl⟩), hdigits, hall _, hzero⟩, not_isDigit_dropWhile _⟩, ?_, ?_⟩
    · rw [hsplit, List.singleton_append, ← ht, hblanks]
    · unfold intMin intMax at hvalue
      omega
    · intro _
      unfold intMin intMax at hvalue
      omega

/-- A version that is read has its numbers written in the text. -/
theorem parseSemver_eq_some {a b c : Int} (h : parseSemver s = some (a, b, c)) :
    ∃ x y z : Nat, ReadsVersion s x y z ∧ a ≤ x ∧ b ≤ y ∧ c ≤ z := by
  unfold parseSemver at h
  split at h
  · cases h
  cases hscan : scanVersion (skipV s) with
  | none =>
    rw [hscan] at h
    cases h
  | some v =>
    rcases v with ⟨a', b', c'⟩
    rw [hscan] at h
    dsimp only at h
    split at h
    · cases h
    rename_i hsign
    injection h with h
    injection h with ha h
    injection h with hb hc
    subst ha hb hc
    unfold scanVersion at hscan
    simp only [Option.bind_eq_bind, Option.bind_eq_some_iff] at hscan
    rcases hscan with ⟨⟨a₁, s₁⟩, hone, t₁, hdot₁, ⟨b₁, s₂⟩, htwo, t₂, hdot₂, ⟨c₁, s₃⟩, hthree, heq⟩
    injection heq with heq
    injection heq with ha heq
    injection heq with hb hc
    subst ha hb hc
    have hliteral : ∀ {t t' : Bytes}, literal 46 t = some t' → t = 46 :: t' := by
      intro t t' ht
      cases t with
      | nil => cases ht
      | cons d t =>
        rw [literal] at ht
        split at ht
        · rename_i hd
          injection ht with ht
          rw [hd, ht]
        · cases ht
    dsimp only at hdot₁ hdot₂ hsign ⊢
    rw [hliteral hdot₁] at hone
    rw [hliteral hdot₂] at htwo
    rcases scanD_eq_some hone (by omega) with ⟨x, hx, hax, _⟩
    rcases scanD_eq_some htwo (by omega) with ⟨y, hy, hby, _⟩
    rcases scanD_eq_some hthree (by omega) with ⟨z, hz, hcz, _⟩
    exact ⟨x, y, z, ⟨t₁, t₂, s₃, hx, hy, hz⟩, hax, hby, hcz⟩

/-- Plain digits are read as their value, if it is in range. -/
theorem scanD_digits {digits : Bytes} (hne : digits ≠ []) (hall : ∀ b ∈ digits, isDigit b = true)
    (hrange : value digits < 2 ^ 31) (hends : ∀ b ∈ rest.head?, isDigit b = false) :
    scanD (digits ++ rest) = some ((value digits : Int), rest) := by
  have hhead : ∀ b ∈ (digits ++ rest).head?, isDigit b = true := by
    cases digits with
    | nil => exact absurd rfl hne
    | cons d ds =>
      intro b hb
      injection hb with hb
      exact hb ▸ hall d List.mem_cons_self
  have hdrop : (digits ++ rest).dropWhile isSpace = digits ++ rest := by
    cases hcons : digits ++ rest with
    | nil => rfl
    | cons d t =>
      have hd := Reboot.isSpace_of_isDigit (hhead d (by rw [hcons]; rfl))
      rw [List.dropWhile_cons, if_neg (by rw [hd]; exact Bool.false_ne_true)]
  have hsign : scanSign (digits ++ rest) = (false, digits ++ rest) := by
    rcases scanSign_cases (digits ++ rest) with h | ⟨t, ht, _⟩ | ⟨t, ht, _⟩
    · exact h
    · exact absurd (hhead 43 (by rw [ht]; rfl)) (by decide)
    · exact absurd (hhead 45 (by rw [ht]; rfl)) (by decide)
  have htake : (digits ++ rest).takeWhile isDigit = digits := by
    rw [List.takeWhile_append_of_pos hall]
    cases rest with
    | nil => rw [List.takeWhile_nil, List.append_nil]
    | cons b rest =>
      rw [List.takeWhile_cons, hends b rfl, if_neg Bool.false_ne_true, List.append_nil]
  have hrest : (digits ++ rest).dropWhile isDigit = rest := by
    rw [List.dropWhile_append_of_pos hall]
    cases rest with
    | nil => rfl
    | cons b rest => rw [List.dropWhile_cons, hends b rfl, if_neg Bool.false_ne_true]
  unfold scanD
  rw [hdrop, hsign]
  dsimp only
  rw [htake, hrest, if_neg hne, if_neg Bool.false_ne_true]
  congr 2
  unfold intMin intMax
  omega

/-- A plain version in range is read exactly. -/
theorem parseSemver_of_plain {x y z : Nat} (h : PlainVersion s x y z) (hx : x < 2 ^ 31)
    (hy : y < 2 ^ 31) (hz : z < 2 ^ 31) :
    parseSemver s = some ((x : Int), (y : Int), (z : Int)) ∧ isDev s = false := by
  rcases h with ⟨dx, dy, dz, rfl, ⟨hdx, hxall, rfl⟩, ⟨hdy, hyall, rfl⟩, ⟨hdz, hzall, rfl⟩⟩
  have hdot : ∀ t : Bytes, ∀ b ∈ (46 :: t).head?, isDigit b = false := by
    intro t b hb
    injection hb with hb
    rw [← hb]
    decide
  have hone := scanD_digits hdx hxall hx (hdot (dy ++ 46 :: dz))
  have htwo := scanD_digits hdy hyall hy (hdot dz)
  have hthree := @scanD_digits [] dz hdz hzall hz (fun b hb => by cases hb)
  rw [List.append_nil] at hthree
  have hscan : scanVersion (dx ++ 46 :: (dy ++ 46 :: dz)) =
      some ((value dx : Int), (value dy : Int), (value dz : Int)) := by
    unfold scanVersion
    simp [hone, htwo, hthree, literal]
  cases dx with
  | nil => exact absurd rfl hdx
  | cons d ds =>
    have hd := hxall d List.mem_cons_self
    have hv : ¬ (d = 118 ∨ d = 86) := by
      intro hv
      rcases hv with rfl | rfl <;> exact absurd hd (by decide)
    have hskip : skipV (d :: ds ++ 46 :: (dy ++ 46 :: dz)) = d :: ds ++ 46 :: (dy ++ 46 :: dz) := by
      rw [List.cons_append, skipV, if_neg hv]
    constructor
    · unfold parseSemver
      rw [if_neg (by simp), hskip, hscan]
      dsimp only
      rw [if_neg (by omega)]
    · have hletter : d ≠ 100 := by
        rintro rfl
        exact absurd hd (by decide)
      simp [isDev, hletter]

/-- A release that compares greater than a plain version in range is newer. -/
theorem newer_of_semverCompare {tag current : Bytes} {x y z : Nat}
    (h : 0 < semverCompare tag current) (hcurrent : PlainVersion current x y z) (hx : x < 2 ^ 31)
    (hy : y < 2 ^ 31) (hz : z < 2 ^ 31) :
    ∃ x' y' z', ReadsVersion tag x' y' z' ∧ Newer x y z x' y' z' := by
  rcases parseSemver_of_plain hcurrent hx hy hz with ⟨hparse, hdev⟩
  unfold semverCompare at h
  rw [hdev, hparse] at h
  by_cases htag : isDev tag = true
  · simp [htag] at h
  rw [if_neg (by simp), if_neg htag, if_neg Bool.false_ne_true] at h
  cases hread : parseSemver tag with
  | none =>
    rw [hread] at h
    change 0 < intMin at h
    exact absurd h (by decide)
  | some v =>
    rcases v with ⟨a, b, c⟩
    rw [hread] at h
    dsimp only at h
    rcases parseSemver_eq_some hread with ⟨x', y', z', hreads, hax, hby, hcz⟩
    refine ⟨x', y', z', hreads, ?_⟩
    unfold Newer
    split at h
    · omega
    · split at h
      · omega
      · omega

end

end OtaCheck
end Breadboard
