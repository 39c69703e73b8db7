import Mathlib.Tactic.Common
import Mathlib.Algebra.Group.Nat.Defs
import Mathlib.Algebra.Group.Int.Defs

/-!
# Shared vocabulary: status codes, byte strings, string hash, age classes

Small pieces of `bb_core` and `bb_str` that the modelled components
share.  A C string is its bytes before the terminator; a buffer with a length
is its bytes.
-/

namespace Breadboard

/-- `bb_err_t`: the named status codes, and any other code a seam may return. -/
inductive BbErr where
  | ok
  | invalidArg
  | notFound
  | notInitialized
  | noSpace
  | invalidState
  | unsupported
  | validation
  | timeout
  | conflict
  | noMem
  | unauthorized
  | parseGrammar
  | parseIncomplete
  | other (code : Int)
  deriving Repr, DecidableEq

/-- A C string without its terminator, or a buffer cut to its length. -/
abbrev Bytes := List UInt8

/-! ## String hash -/

/-- `BB_STR_FNV1A_OFFSET_BASIS`. -/
def fnv1aOffsetBasis : UInt32 := 2166136261

/-- `BB_STR_FNV1A_PRIME`. -/
def fnv1aPrime : UInt32 := 16777619

/-- `bb_str_hash32`: FNV-1a over the bytes of a string. -/
def hash32 (s : Bytes) : UInt32 :=
  s.foldl (fun h p => (h ^^^ p.toUInt32) * fnv1aPrime) fnv1aOffsetBasis

/-! ## Age classes -/

/-- `bb_age_state_t`. -/
inductive AgeState where
  | fresh
  | stale
  | evict
  deriving Repr, DecidableEq

/-- `bb_age_classify`: the evict window is checked first, then the stale one. -/
def ageClassify (ageMs staleAgeMs evictAgeMs : Nat) : AgeState :=
  if evictAgeMs ≤ ageMs then .evict
  else if staleAgeMs = 0 then .fresh
  else if staleAgeMs ≤ ageMs then .stale
  else .fresh

end Breadboard
