import Breadboard.Foundations.Decimal
import Breadboard.Serialize.Walk

/-!
# bb_serialize_json - the JSON writer

The emit callbacks of `bb_serialize_json.c` over their context: a buffer that is
either all there is, or flushed each time it fills.  A `double` is a `Float`;
`snprintf("%.*g")` and `strtod` are a parameter.
-/

namespace Breadboard
namespace SerializeJson

open Foundations Serialize

/-- What the writer needs of the C library: `snprintf("%.*g")` and `strtod`. -/
structure Libc where
  printG : Nat → Float → Bytes
  strtod : Bytes → Float
  length_printG_le : ∀ precision v, precision ≤ 17 → (printG precision v).length ≤ 24

/-! ## bb_num -/

/-- `bb_num_u64_to_dec`. -/
def u64ToDec (cap v : Nat) : Bytes :=
  (Decimal.decimal v).take (cap - 1)

/-- `bb_num_i64_to_dec`. -/
def i64ToDec (cap : Nat) (v : Int) : Bytes :=
  if cap = 0 then []
  else if 0 ≤ v then u64ToDec cap v.toNat
  else if cap = 1 then []
  else 45 :: u64ToDec (cap - 1) v.natAbs

/-! ## The context -/

/-- `bb_serialize_json_level_t`. -/
structure Level where
  isArray : Bool
  haveChild : Bool
  deriving Repr, DecidableEq

/--
`bb_serialize_json_ctx_t`: the level in `stack[depth]` and those below it, the
flush function, when there is one, as what `*flush_failed` reads after each of its
calls, and the calls made so far.
-/
structure Ctx where
  buf : Bytes
  cap : Nat
  err : BbErr
  top : Level
  below : List Level
  flushFn : Option (Nat → Bool)
  flushed : List Bytes
  f64Shortest : Bool

/-- The number of slots in `stack`. -/
def stackSize : Nat := 2 * maxDepth + 2

/-- `bb_serialize_json_ctx_init`, with the flush function and the float mode set. -/
def Ctx.init (cap : Nat) (flushFn : Option (Nat → Bool)) (f64Shortest : Bool) : Ctx where
  buf := []
  cap := cap
  err := .ok
  top := { isArray := false, haveChild := false }
  below := []
  flushFn := flushFn
  flushed := []
  f64Shortest := f64Shortest

/-- `bb_json_flush`. -/
def jsonFlush (c : Ctx) : Ctx :=
  match c.flushFn with
  | none => c
  | some failed =>
    if c.err ≠ .ok ∨ c.buf = [] then c
    else
      { c with
        buf := []
        flushed := c.flushed ++ [c.buf]
        err := if failed c.flushed.length then .invalidState else c.err }

/-- `memcpy` to the end of the buffer. -/
def Ctx.append (c : Ctx) (s : Bytes) : Ctx :=
  { c with buf := c.buf ++ s }

/-- `bb_json_put`. -/
def jsonPut (c : Ctx) (s : Bytes) : Ctx :=
  if c.err ≠ .ok then c
  else if c.cap < c.buf.length + s.length then
    if c.flushFn.isNone then { c with err := .noSpace }
    else
      let c := jsonFlush c
      if c.err ≠ .ok then c
      else if c.cap < s.length then { c with err := .noSpace }
      else c.append s
  else c.append s

/-- `bb_json_putc`. -/
def jsonPutc (c : Ctx) (ch : UInt8) : Ctx :=
  jsonPut c [ch]

/-! ## Strings -/

/-- `bb_json_hex_nibble`. -/
def hexNibble (v : Nat) : UInt8 :=
  if v < 10 then UInt8.ofNat (48 + v) else UInt8.ofNat (97 + (v - 10))

/-- What `bb_json_escape_write` puts for one byte. -/
def escapeByte (ch : UInt8) : Bytes :=
  if ch = 34 then [92, 34]
  else if ch = 92 then [92, 92]
  else if ch = 8 then [92, 98]
  else if ch = 12 then [92, 102]
  else if ch = 10 then [92, 110]
  else if ch = 13 then [92, 114]
  else if ch = 9 then [92, 116]
  else if ch < 32 then
    [92, 117, 48, 48, hexNibble (ch.toNat / 16 % 16), hexNibble (ch.toNat % 16)]
  else [ch]

/-- `bb_json_escape_write`. -/
def jsonEscapeWrite (c : Ctx) (s : Bytes) : Ctx :=
  s.foldl (fun c ch => jsonPut c (escapeByte ch)) c

/-! ## Numbers -/

/-- `bb_json_write_u64`. -/
def jsonWriteU64 (c : Ctx) (v : Nat) : Ctx :=
  jsonPut c (u64ToDec 21 v)

/-- `bb_json_write_i64`. -/
def jsonWriteI64 (c : Ctx) (v : Int) : Ctx :=
  jsonPut c (i64ToDec 22 v)

/-- The digits `bb_json_write_frac_digits` fills in from the right. -/
def fracDigits : Nat → Nat → Bytes
  | 0, _ => []
  | n + 1, frac => fracDigits n (frac / 10) ++ [Decimal.digitByte (frac % 10)]

/-- `s_pow10`. -/
def pow10 : List Float :=
  [1e0, 1e1, 1e2, 1e3, 1e4, 1e5, 1e6, 1e7, 1e8, 1e9, 1e10, 1e11, 1e12, 1e13, 1e14, 1e15]

/-- `null`. -/
def nullText : Bytes := [110, 117, 108, 108]

/-- The integer and the fractional part `bb_json_write_f64` prints, after the carry. -/
def f64Parts (cfg : Kconfig) (mag : Float) : UInt64 × UInt64 :=
  let intPart := mag.toUInt64
  let scale := pow10.getD cfg.f64Decimals 1
  let fracI := ((mag - intPart.toFloat) * scale + 0.5).toUInt64
  if scale.toUInt64 ≤ fracI then (intPart + 1, fracI - scale.toUInt64) else (intPart, fracI)

/-- `bb_json_write_f64`. -/
def jsonWriteF64 (cfg : Kconfig) (c : Ctx) (v : Float) : Ctx :=
  if v.isNaN || v.isInf then jsonPut c nullText
  else
    let neg := decide (v < 0)
    let mag := if neg then -v else v
    if 18446744073709551616.0 ≤ mag then jsonPut c nullText
    else
      let parts := f64Parts cfg mag
      let c := if neg then jsonPutc c 45 else c
      let c := jsonWriteU64 c parts.1.toNat
      let c := jsonPutc c 46
      jsonPut c (fracDigits cfg.f64Decimals parts.2.toNat)

/-- `DBL_EPSILON`. -/
def dblEpsilon : Float := 2.220446049250313e-16

/-- The saturating cast of `bb_json_write_f64_shortest`. -/
def saturateI32 (v : Float) : Int32 :=
  if 2147483647.0 ≤ v then 2147483647
  else if v ≤ -2147483648.0 then -2147483648
  else v.toInt32

/-- The digits of `bb_json_write_f64_shortest` for a finite value. -/
def shortestText (lib : Libc) (v : Float) : Bytes :=
  let vi := saturateI32 v
  if v == vi.toFloat then i64ToDec 32 vi.toInt
  else
    let buf := lib.printG 15 v
    let reparse := lib.strtod buf
    let maxAbs := if v.abs < reparse.abs then reparse.abs else v.abs
    if maxAbs * dblEpsilon < (reparse - v).abs then lib.printG 17 v else buf

/-- `bb_json_write_f64_shortest`. -/
def jsonWriteF64Shortest (lib : Libc) (c : Ctx) (v : Float) : Ctx :=
  if v.isNaN || v.isInf then jsonPut c nullText
  else jsonPut c (shortestText lib v)

/-! ## The level stack -/

/-- `bb_json_push_level`. -/
def jsonPushLevel (c : Ctx) (isArray : Bool) : Ctx :=
  if c.err ≠ .ok then c
  else if stackSize ≤ c.below.length + 1 then { c with err := .noSpace }
  else { c with top := { isArray := isArray, haveChild := false }, below := c.top :: c.below }

/-- `bb_json_pop_level`. -/
def jsonPopLevel (c : Ctx) : Ctx :=
  match c.below with
  | [] => c
  | level :: below => { c with top := level, below := below }

/-- `bb_json_pre_value`. -/
def jsonPreValue (c : Ctx) (key : Option Bytes) : Ctx :=
  let c :=
    if c.top.haveChild then jsonPutc c 44
    else { c with top := { c.top with haveChild := true } }
  if c.top.isArray then c
  else
    let c := jsonPutc c 34
    let c := jsonEscapeWrite c (key.getD [])
    jsonPut c [34, 58]

/-! ## The emit callbacks -/

section Callbacks

variable (lib : Libc) (cfg : Kconfig)

/-- The `bb_json_cb_*` callback of a call. -/
def jsonEmit (c : Ctx) : Emit → Ctx
  | .beginObj key => jsonPushLevel (jsonPutc (jsonPreValue c key) 123) false
  | .endObj => jsonPopLevel (jsonPutc c 125)
  | .beginArr key => jsonPushLevel (jsonPutc (jsonPreValue c key) 91) true
  | .endArr => jsonPopLevel (jsonPutc c 93)
  | .i64 key v => jsonWriteI64 (jsonPreValue c key) v
  | .u64 key v => jsonWriteU64 (jsonPreValue c key) v
  | .f64 key v =>
    let c := jsonPreValue c key
    if c.f64Shortest then jsonWriteF64Shortest lib c v else jsonWriteF64 cfg c v
  | .bool key v =>
    let c := jsonPreValue c key
    if v then jsonPut c [116, 114, 117, 101] else jsonPut c [102, 97, 108, 115, 101]
  | .str key s => jsonPutc (jsonEscapeWrite (jsonPutc (jsonPreValue c key) 34) s) 34
  | .null key => jsonPut (jsonPreValue c key) nullText

/-- The calls of one walk. -/
def jsonEmitAll (c : Ctx) (es : List Emit) : Ctx :=
  es.foldl (jsonEmit lib cfg) c

/-- The braces around the walk. -/
def jsonDocument (c : Ctx) (es : List Emit) : Ctx :=
  jsonPutc (jsonEmitAll lib cfg (jsonPutc c 123) es) 125

variable (P : Program)

/-- `bb_serialize_json_render`: the status and the document. -/
def render (resolve : Resolver) (m : Mem) (fields : List Field) (snap cap : Nat)
    (f64Shortest : Bool) : BbErr × Bytes :=
  if cap = 0 then (.noSpace, [])
  else
    let c := jsonDocument lib cfg (.init (cap - 1) none f64Shortest)
      (walk P resolve m fields snap)
    if c.err ≠ .ok then (c.err, []) else (.ok, c.buf)

/-- `bb_serialize_json_stream_render`: the status and the calls of `flush_fn`. -/
def streamRender (m : Mem) (fields : List Field) (snap : Nat) (failed : Nat → Bool)
    (f64Shortest : Bool) : BbErr × List Bytes :=
  let c := jsonFlush (jsonDocument lib cfg
    (.init cfg.streamFlushBufBytes (some failed) f64Shortest) (walk P .none m fields snap))
  (c.err, c.flushed)

end Callbacks

end SerializeJson
end Breadboard
