import Breadboard.Serialize.Populate
import Breadboard.SerializeJson.Scan
import Breadboard.SerializeJson.Writer

/-!
# bb_serialize_json_tok - the token recorder

A sink that appends a token for every value to a pool, each with the index of its parent,
and navigation by scanning the pool for children of a token.  The bytes a string token points
to stay as they are while the recorder is in use, so a token carries them; the index
`BB_SERIALIZE_JSON_TOK_ABSENT` is `none`.
-/

namespace Breadboard
namespace SerializeJson

open Foundations Serialize

/-- `BB_SERIALIZE_JSON_TOK_KEY_MAX_LEN`. -/
def tokKeyMaxLen : Nat := 24

/-- `CONFIG_BB_SERIALIZE_JSON_TOK_POOL_DEFAULT_CAP`, with its range. -/
structure TokKconfig where
  poolDefaultCap : Nat
  poolDefaultCap_range : 8 ≤ poolDefaultCap ∧ poolDefaultCap ≤ 512

/-- The Kconfig default. -/
def TokKconfig.default : TokKconfig where
  poolDefaultCap := 48
  poolDefaultCap_range := by decide

/-- `bb_serialize_json_tok_type_t` with the payload of the union. -/
inductive TokVal where
  | obj
  | arr
  | str (s : Bytes)
  | num (i64 : Int) (f64 : Float)
  | bool (v : Bool)
  | null

/-- `bb_serialize_json_tok_t`. -/
structure Tok where
  val : TokVal
  key : Bytes
  numInexact : Bool
  childCount : Nat
  parent : Option Nat

/-- A string that is being assembled: `str_tok_idx` and `str_arena_start`. -/
structure OpenStr where
  tokIdx : Nat
  arenaStart : Nat

/--
`bb_serialize_json_tok_recorder_t`: `arena` is cut to `arena_used`, and
`stack` holds the open containers, innermost first.
-/
structure Recorder where
  pool : List Tok
  poolCap : Nat
  arena : Bytes
  arenaCap : Nat
  stack : List Nat
  strOpen : Option OpenStr

/-- `bb_serialize_json_tok_recorder_init`; an `arena` of NULL has no capacity. -/
def Recorder.init (poolCap arenaCap : Nat) : Recorder where
  pool := []
  poolCap := poolCap
  arena := []
  arenaCap := arenaCap
  stack := []
  strOpen := none

/-! ## Recording -/

/-- `UINT16_MAX`. -/
def uint16Max : Nat := 65535

/-- A container gets more children. -/
def Tok.addChildren (n : Nat) (t : Tok) : Tok :=
  { t with childCount := t.childCount + n }

/-- The parent has as many children as it can count. -/
def Recorder.parentFull (r : Recorder) : Bool :=
  match r.stack with
  | [] => false
  | parent :: _ => (r.pool[parent]?.map Tok.childCount) == some uint16Max

/-- `tok_alloc`: the recorder with a new token at the end of the pool. -/
def tokAlloc (r : Recorder) (val : TokVal) (numInexact : Bool) (key : Bytes) : Option Recorder :=
  if tokKeyMaxLen < key.length then none
  else if r.poolCap ≤ r.pool.length then none
  else if r.parentFull then none
  else
    let t : Tok :=
      { val := val, key := key, numInexact := numInexact, childCount := 0, parent := r.stack.head? }
    match r.stack with
    | [] => some { r with pool := r.pool ++ [t] }
    | parent :: _ =>
      some { r with pool := r.pool.modify parent (Tok.addChildren 1) ++ [t] }

/-- `strtoll` in base ten, on the text of a number. -/
def strtoll (s : Bytes) : Int :=
  let magnitude (digits : Bytes) : Int := (Decimal.value (digits.takeWhile Decimal.isDigit) : Nat)
  let v :=
    match s with
    | 45 :: digits => -magnitude digits
    | 43 :: digits => magnitude digits
    | digits => magnitude digits
  if v < -2 ^ 63 then -2 ^ 63 else if 2 ^ 63 - 1 < v then 2 ^ 63 - 1 else v

section Sink

variable (lib : Libc) (cfg : Kconfig)

/-- `tok_parse_num`: the payload. -/
def tokParseNum (num : Bytes) : TokVal :=
  let buf := num.take cfg.scratchMaxBytes
  .num (strtoll buf) (lib.strtod buf)

/-- `tok_parse_num`: the text has a fraction or an exponent. -/
def tokNumInexact (num : Bytes) : Bool :=
  let buf := num.take cfg.scratchMaxBytes
  buf.contains 46 || buf.contains 101 || buf.contains 69

/-- A token for a value that is no string. -/
def tokValue (r : Recorder) (val : TokVal) (numInexact : Bool) (key : Bytes) : Recorder × BbErr :=
  match tokAlloc r val numInexact key with
  | none => (r, .noSpace)
  | some r => (r, .ok)

/-- `tok_begin_obj` and `tok_begin_arr`. -/
def tokBegin (r : Recorder) (val : TokVal) (key : Bytes) : Recorder × BbErr :=
  if maxDepth ≤ r.stack.length then (r, .noSpace)
  else
    match tokAlloc r val false key with
    | none => (r, .noSpace)
    | some r₁ => ({ r₁ with stack := r.pool.length :: r.stack }, .ok)

/-- `tok_end_obj` and `tok_end_arr`. -/
def tokEnd (r : Recorder) : Recorder × BbErr :=
  match r.stack with
  | [] => (r, .invalidState)
  | _ :: stack => ({ r with stack := stack }, .ok)

/-- The string of a token. -/
def Recorder.setStr (r : Recorder) (idx : Nat) (s : Bytes) : Recorder :=
  { r with pool := r.pool.modify idx fun t => { t with val := .str s } }

/-- The end of `tok_value_str_chunk`: the chunk goes to the arena. -/
def tokStrAppend (r : Recorder) (str : OpenStr) (chunk : Bytes) (isFinal : Bool) :
    Recorder × BbErr :=
  if chunk ≠ [] ∧ r.arenaCap < r.arena.length + chunk.length then (r, .noSpace)
  else
    let r := { r with arena := r.arena ++ chunk }
    if isFinal then
      ({ r.setStr str.tokIdx (r.arena.drop str.arenaStart) with strOpen := none }, .ok)
    else (r, .ok)

/-- `tok_value_str_chunk`. -/
def tokValueStrChunk (r : Recorder) (key chunk : Bytes) (isFinal : Bool) (provenance : Span) :
    Recorder × BbErr :=
  if provenance = .callerFeedScoped then (r, .invalidState)
  else
    match r.strOpen with
    | some str => tokStrAppend r str chunk isFinal
    | none =>
      match tokAlloc r (.str []) false key with
      | none => (r, .noSpace)
      | some r₁ =>
        -- A string in one piece of the caller's buffer is not copied.
        if isFinal ∧ provenance = .callerStable then (r₁.setStr r.pool.length chunk, .ok)
        else
          let str : OpenStr := { tokIdx := r.pool.length, arenaStart := r.arena.length }
          tokStrAppend { r₁ with strOpen := some str } str chunk isFinal

/-- `bb_serialize_json_tok_recorder_ingest`. -/
def tokSink (r : Recorder) : Call → Recorder × BbErr
  | .beginObj key => tokBegin r .obj key
  | .endObj => tokEnd r
  | .beginArr key => tokBegin r .arr key
  | .endArr => tokEnd r
  | .valueNum key num => tokValue r (tokParseNum lib cfg num) (tokNumInexact cfg num) key
  | .valueBool key v => tokValue r (.bool v) false key
  | .valueNull key => tokValue r .null false key
  | .valueStrChunk key chunk isFinal provenance =>
    tokValueStrChunk r key chunk isFinal provenance

end Sink

/-! ## Navigation -/

section Navigation

variable (pool : List Tok)

/-- `bb_serialize_json_tok_root`. -/
def tokRoot : Option Nat :=
  if pool = [] then none else some 0

/-- The token of an index that names one. -/
def tokAt (idx : Option Nat) : Option Tok :=
  idx.bind fun i => pool[i]?

/-- `bb_serialize_json_tok_is_obj`. -/
def tokIsObj (idx : Option Nat) : Bool :=
  match tokAt pool idx with
  | some { val := .obj, .. } => true
  | _ => false

/-- `bb_serialize_json_tok_is_arr`. -/
def tokIsArr (idx : Option Nat) : Bool :=
  match tokAt pool idx with
  | some { val := .arr, .. } => true
  | _ => false

/-- The loop of `bb_serialize_json_tok_obj_get` from index `i` on. -/
def objScan (obj : Nat) (key : Bytes) : Nat → Nat → List Tok → Option Nat
  | _, _, [] => none
  | i, remaining, t :: ts =>
    if remaining = 0 then none
    else if t.parent ≠ some obj then objScan obj key (i + 1) remaining ts
    else if t.key = key then some i
    else objScan obj key (i + 1) (remaining - 1) ts

/-- `bb_serialize_json_tok_obj_get`. -/
def tokObjGet (obj : Option Nat) (key : Bytes) : Option Nat :=
  if tokIsObj pool obj = false then none
  else
    obj.bind fun o =>
      objScan o key (o + 1) ((pool[o]?.map Tok.childCount).getD 0) (pool.drop (o + 1))

/-- `bb_serialize_json_tok_arr_size`, which is only read for an array. -/
def tokArrSize (arr : Option Nat) : Nat :=
  ((tokAt pool arr).map Tok.childCount).getD 0

/-- The loop of `bb_serialize_json_tok_arr_at` from index `i` on. -/
def arrScan (arr elemIdx : Nat) : Nat → Nat → List Tok → Option Nat
  | _, _, [] => none
  | i, seen, t :: ts =>
    if t.parent ≠ some arr then arrScan arr elemIdx (i + 1) seen ts
    else if seen = elemIdx then some i
    else arrScan arr elemIdx (i + 1) (seen + 1) ts

/-- `bb_serialize_json_tok_arr_at`. -/
def tokArrAt (arr : Option Nat) (elemIdx : Nat) : Option Nat :=
  if tokIsArr pool arr = false then none
  else arr.bind fun a => arrScan a elemIdx (a + 1) 0 (pool.drop (a + 1))

/-- `bb_serialize_json_tok_get_str`. -/
def tokGetStr (idx : Option Nat) : Option Bytes :=
  match tokAt pool idx with
  | some { val := .str s, .. } => some s
  | _ => none

/-- `bb_serialize_json_tok_get_i64`. -/
def tokGetI64 (idx : Option Nat) : Option Int :=
  match tokAt pool idx with
  | some { val := .num i64 _, numInexact := false, .. } => some i64
  | _ => none

/-- `bb_serialize_json_tok_get_f64`. -/
def tokGetF64 (idx : Option Nat) : Option Float :=
  match tokAt pool idx with
  | some { val := .num _ f64, .. } => some f64
  | _ => none

/-- `bb_serialize_json_tok_get_bool`. -/
def tokGetBool (idx : Option Nat) : Option Bool :=
  match tokAt pool idx with
  | some { val := .bool v, .. } => some v
  | _ => none

end Navigation

end SerializeJson
end Breadboard
