import Breadboard.Core.Basics

/-!
# bb_serialize_json - limits and options

The nesting limit of `bb_serialize` and the compile-time options of
`bb_serialize_json`, with the ranges their Kconfig entries give them.
-/

namespace Breadboard

namespace Serialize

/-- `BB_SERIALIZE_MAX_DEPTH`. -/
def maxDepth : Nat := 8

end Serialize

namespace SerializeJson

/-- The `CONFIG_BB_SERIALIZE_JSON_*` options, with their ranges. -/
structure Kconfig where
  f64Decimals : Nat
  streamFlushBufBytes : Nat
  scratchMaxBytes : Nat
  f64Decimals_range : 1 ≤ f64Decimals ∧ f64Decimals ≤ 15
  streamFlushBufBytes_range : 128 ≤ streamFlushBufBytes ∧ streamFlushBufBytes ≤ 4096
  scratchMaxBytes_range : 16 ≤ scratchMaxBytes ∧ scratchMaxBytes ≤ 256

/-- The Kconfig defaults. -/
def Kconfig.default : Kconfig where
  f64Decimals := 6
  streamFlushBufBytes := 768
  scratchMaxBytes := 64
  f64Decimals_range := by decide
  streamFlushBufBytes_range := by decide
  scratchMaxBytes_range := by decide

end SerializeJson
end Breadboard
