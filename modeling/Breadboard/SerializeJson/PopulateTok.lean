import Breadboard.MemArena.Arena
import Breadboard.SerializeJson.Tok

/-!
# bb_serialize_json - the populate adapter

A source for `bb_serialize_populate` over a recorded document: a stack of container
tokens, each with the index of the next element to read, and the composed parser that carves
the recorder, the cursor and the pool from a caller's scratch.
-/

namespace Breadboard
namespace SerializeJson

open Serialize

/-- `populate_frame_t`. -/
structure Frame where
  idx : Option Nat
  nextElem : Nat

/--
`populate_state_t`: the recorder's pool, the frame in `stack[depth]` and those below
it.
-/
structure Cursor where
  pool : List Tok
  top : Frame
  below : List Frame

namespace Cursor

/-- The member of the current object, or without a key the next element of the current array. -/
def next (st : Cursor) (key : Option Bytes) : Option Nat × Cursor :=
  match key with
  | some key => (tokObjGet st.pool st.top.idx key, st)
  | none =>
    (tokArrAt st.pool st.top.idx st.top.nextElem,
      { st with top := { st.top with nextElem := st.top.nextElem + 1 } })

/-- A container becomes the current one. -/
def push (st : Cursor) (idx : Option Nat) : Cursor :=
  { st with top := { idx := idx, nextElem := 0 }, below := st.top :: st.below }

/-- `populate_end_obj` and `populate_end_arr`. -/
def pop (st : Cursor) : Cursor :=
  match st.below with
  | [] => st
  | frame :: below => { st with top := frame, below := below }

/-- `populate_get_i64`; a `uint64_t` is read by the same bits in `populate_get_u64`. -/
def getI64 (st : Cursor) (key : Bytes) : Option (BitVec 64) × Cursor :=
  ((tokGetI64 st.pool (tokObjGet st.pool st.top.idx key)).map (BitVec.ofInt 64), st)

/-- `populate_get_f64`. -/
def getF64 (st : Cursor) (key : Bytes) : Option (BitVec 64) × Cursor :=
  ((tokGetF64 st.pool (tokObjGet st.pool st.top.idx key)).map fun v => v.toBits.toBitVec, st)

/-- `populate_get_bool`. -/
def getBool (st : Cursor) (key : Bytes) : Option Bool × Cursor :=
  (tokGetBool st.pool (tokObjGet st.pool st.top.idx key), st)

/-- `populate_get_str`. -/
def getStr (st : Cursor) (key : Option Bytes) (cap : Nat) :
    Option { s : Bytes // s.length ≤ cap } × Cursor :=
  ((tokGetStr st.pool (st.next key).1).map fun s => ⟨s.take cap, List.length_take_le _ _⟩,
    (st.next key).2)

/-- `populate_begin_obj`. -/
def beginObj (st : Cursor) (key : Option Bytes) : Bool × Cursor :=
  if tokIsObj st.pool (st.next key).1 = false then (false, (st.next key).2)
  else if maxDepth ≤ st.below.length then (false, (st.next key).2)
  else (true, (st.next key).2.push (st.next key).1)

/-- `populate_begin_arr`. -/
def beginArr (st : Cursor) (key : Bytes) : Option Nat × Cursor :=
  let tok := tokObjGet st.pool st.top.idx key
  if tokIsArr st.pool tok = false then (none, st)
  else if maxDepth ≤ st.below.length then (none, st)
  else (some (tokArrSize st.pool tok), st.push tok)

end Cursor

/-- The vtable of `bb_serialize_json_populate_from_tok`. -/
def populateSource : Source Cursor where
  getI64 := Cursor.getI64
  getU64 := Cursor.getI64
  getF64 := Cursor.getF64
  getBool := Cursor.getBool
  getStr := Cursor.getStr
  beginObj := Cursor.beginObj
  endObj := Cursor.pop
  beginArr := Cursor.beginArr
  endArr := Cursor.pop

/-- The context of `bb_serialize_json_populate_from_tok`. -/
def populateFromTok (pool : List Tok) : Cursor where
  pool := pool
  top := { idx := tokRoot pool, nextElem := 0 }
  below := []

/-! ## The composed parser -/

/-- The sizes of the recorder, of the cursor and of a token. -/
structure TokSizes where
  sizeofRecorder : Nat
  sizeofPopulateCtx : Nat
  sizeofTok : Nat
  sizeofRecorder_pos : 0 < sizeofRecorder
  sizeofPopulateCtx_pos : 0 < sizeofPopulateCtx
  sizeofTok_pos : 0 < sizeofTok

section Parse

variable (tgt : Target) (sizes : TokSizes) (lib : Libc) (cfg : Kconfig) (tokCfg : TokKconfig)

/--
The scratch of `bb_serialize_json_parse_bytes`: the capacity of the recorder's arena,
once the recorder, the cursor and the pool are carved.
-/
def carveScratch (scratch scratchCap : Nat) : Option Nat :=
  match MemArena.init tgt scratch scratchCap with
  | .error _ => none
  | .ok arena =>
    let recorder := arena.alloc tgt sizes.sizeofRecorder
    let ctx := recorder.2.alloc tgt sizes.sizeofPopulateCtx
    let pool := ctx.2.alloc tgt (tokCfg.poolDefaultCap * sizes.sizeofTok)
    if recorder.1.isNone || ctx.1.isNone || pool.1.isNone then none
    else some (pool.2.allocRest tgt).1

/-- `bb_serialize_json_parse_bytes`. -/
def parseBytes (buf : Bytes) (scratch scratchCap : Nat) : Except BbErr Cursor :=
  if scratch = 0 then .error .invalidArg
  else
    match carveScratch tgt sizes tokCfg scratch scratchCap with
    | none => .error .noSpace
    | some arenaCap =>
      match scanBounded cfg (tokSink lib cfg) (.init tokCfg.poolDefaultCap arenaCap) buf with
      | (r, .ok) => .ok (populateFromTok r.pool)
      | (_, e) => .error e

end Parse

end SerializeJson
end Breadboard
