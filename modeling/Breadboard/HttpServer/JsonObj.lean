import Breadboard.Foundations.BoundedOutput
import Breadboard.Foundations.Runs
import Breadboard.SerializeJson.WriterText

/-!
# bb_http_server - a JSON object as a chunked response

The object is sent while it is made: every setter appends to a fixed buffer, which is sent
as one chunk when the next piece does not fit.  A send is numbered by the chunks before it,
and its return is a parameter.

Main results:

- Theorem `call_of_failed`: after the first error a setter returns it and does nothing.
- Theorem `call_emitting`: any other setter that its context allows appends its text.
-/

namespace Breadboard
namespace HttpServer
namespace JsonObj

open Foundations.BoundedOutput (Output Emits Sound)
open SerializeJson (Libc i64ToDec hexNibble nullText)

/-! ## State -/

/-- `BB_HTTP_JSON_OBJ_BUF_SIZE`. -/
def bufSize : Nat := 1024

/-- `BB_JSON_OBJ_MAX_DEPTH`. -/
def maxDepth : Nat := 8

/-- `bb_http_json_obj_stream_t`, with the chunks handed to `bb_http_resp_send_chunk`. -/
structure Stream where
  err : BbErr
  isOpen : Bool
  depth : Nat
  needsComma : List Bool
  buf : Bytes
  sent : List Bytes
  deriving Repr, DecidableEq

/-- A part of a call: its return and the stream after it. -/
abbrev Step := Stream → BbErr × Stream

/-- Go on after success, return any error. -/
def seq (f g : Step) : Step := fun s =>
  match f s with
  | (.ok, s') => g s'
  | (e, s') => (e, s')

/-- The bytes `obj_emit_str_escaped` appends for one byte. -/
def objEscape (c : UInt8) : Bytes :=
  if c = 34 then [92, 34]
  else if c = 92 then [92, 92]
  else if c = 10 then [92, 110]
  else if c = 13 then [92, 114]
  else if c = 9 then [92, 116]
  else if c < 32 then [92, 117, 48, 48, hexNibble (c.toNat / 16 % 16), hexNibble (c.toNat % 16)]
  else [c]

/-- The guards of every setter. -/
def guarded (body : Step) : Step := fun s =>
  if !s.isOpen then (.invalidState, s)
  else if s.err ≠ .ok then (s.err, s)
  else body s

/-- One level deeper, where no comma is needed yet. -/
def pushLevel : Step := fun s =>
  (.ok, { s with
    depth := s.depth + 1
    needsComma := s.needsComma.set (s.depth + 1) false })

/-- From now on a comma is needed. -/
def markComma : Step := fun s =>
  (.ok, { s with needsComma := s.needsComma.set s.depth true })

/-! ## The code -/

section

variable (send : Nat → BbErr)

/-- `obj_flush`. -/
def objFlush : Step := fun s =>
  if s.err ≠ .ok then (s.err, s)
  else
    let err := send s.sent.length
    (err, { s with
      sent := s.sent ++ [s.buf]
      buf := []
      err := if err ≠ .ok then err else s.err })

/-- `obj_append`. -/
def objAppend (data : Bytes) : Step := fun s =>
  if bufSize < s.buf.length + data.length then
    match objFlush send s with
    | (.ok, s') => (.ok, { s' with buf := s'.buf ++ data })
    | (e, s') => (e, s')
  else (.ok, { s with buf := s.buf ++ data })

/-- `obj_putc`. -/
def objPutc (c : UInt8) : Step :=
  objAppend send [c]

/-- `obj_maybe_comma`. -/
def objMaybeComma : Step := fun s =>
  if maxDepth ≤ s.depth then (.invalidArg, { s with err := .invalidArg })
  else if s.needsComma.getD s.depth false then seq (objPutc send 44) markComma s
  else markComma s

/-- The loop of `obj_emit_str_escaped`. -/
def objEmitEscapes : Bytes → Step
  | [] => fun s => (.ok, s)
  | c :: str => seq (objAppend send (objEscape c)) (objEmitEscapes str)

/-- `obj_emit_str_escaped`, on the bytes of a C string. -/
def objEmitStrEscaped (str : Bytes) : Step :=
  seq (objPutc send 34) (seq (objEmitEscapes send str) (objPutc send 34))

/-- `obj_emit_key`; without a key only the comma. -/
def objEmitKey (key : Option Bytes) : Step :=
  seq (objMaybeComma send)
    (match key with
    | none => fun s => (.ok, s)
    | some key => seq (objEmitStrEscaped send key) (objPutc send 58))

/-- The loop of `bb_http_resp_json_obj_set_raw`. -/
def objAppendRaw (raw : Bytes) : Step :=
  if raw = [] then fun s => (.ok, s)
  else seq (objAppend send (raw.take bufSize)) (objAppendRaw (raw.drop bufSize))
termination_by raw.length
decreasing_by
  rename_i hne
  have hpos := List.length_pos_iff.mpr hne
  rw [List.length_drop]
  have hsize : 0 < bufSize := by decide
  omega

/-- The stream of `bb_http_resp_json_obj_begin`, once the type is set. -/
def begun : Stream :=
  { err := send 0
    isOpen := true
    depth := 0
    needsComma := List.replicate 8 false
    buf := []
    sent := [[123]] }

/-- `bb_http_resp_json_obj_begin`; a type that cannot be set leaves the stream as it was. -/
def objBegin (setType : BbErr) : BbErr × Option Stream :=
  if setType ≠ .ok then (setType, none) else (send 0, some (begun send))

/-- `bb_http_resp_json_obj_set_str`. -/
def setStr (key val : Option Bytes) : Step :=
  guarded (seq (objEmitKey send key)
    (match val with
    | none => objAppend send nullText
    | some val => objEmitStrEscaped send val))

/-- `bb_http_resp_json_obj_set_num`; `%g` is `%.6g`. -/
def setNum (lib : Libc) (key : Option Bytes) (val : Float) : Step :=
  guarded (seq (objEmitKey send key) (objAppend send (lib.printG 6 val)))

/-- `bb_http_resp_json_obj_set_int`. -/
def setInt (key : Option Bytes) (val : Int64) : Step :=
  guarded (seq (objEmitKey send key) (objAppend send (i64ToDec 24 val.toInt)))

/-- The text of a truth value. -/
def boolText (val : Bool) : Bytes :=
  if val then [116, 114, 117, 101] else [102, 97, 108, 115, 101]

/-- `bb_http_resp_json_obj_set_bool`. -/
def setBool (key : Option Bytes) (val : Bool) : Step :=
  guarded (seq (objEmitKey send key) (objAppend send (boolText val)))

/-- `bb_http_resp_json_obj_set_null`. -/
def setNull (key : Option Bytes) : Step :=
  guarded (seq (objEmitKey send key) (objAppend send nullText))

/-- `bb_http_resp_json_obj_set_raw`. -/
def setRaw (key raw : Option Bytes) : Step :=
  guarded fun s =>
    if raw.getD [] = [] then (.invalidArg, s)
    else seq (objEmitKey send key) (objAppendRaw send (raw.getD [])) s

/-- The begin of a container, for either opening bracket. -/
def containerBegin (bracket : UInt8) (key : Option Bytes) : Step :=
  guarded fun s =>
    if maxDepth ≤ s.depth + 1 then (.invalidArg, { s with err := .invalidArg })
    else seq (objEmitKey send key) (seq (objPutc send bracket) pushLevel) s

/-- The end of a container, for either closing bracket. -/
def containerEnd (bracket : UInt8) : Step :=
  guarded fun s =>
    if s.depth = 0 then (.invalidState, { s with err := .invalidState })
    else objPutc send bracket { s with depth := s.depth - 1 }

/-- `bb_http_resp_json_obj_set_obj_begin`. -/
def setObjBegin (key : Option Bytes) : Step :=
  containerBegin send 123 key

/-- `bb_http_resp_json_obj_set_obj_end`. -/
def setObjEnd : Step :=
  containerEnd send 125

/-- `bb_http_resp_json_obj_set_arr_begin`. -/
def setArrBegin (key : Option Bytes) : Step :=
  containerBegin send 91 key

/-- `bb_http_resp_json_obj_set_arr_end`. -/
def setArrEnd : Step :=
  containerEnd send 93

/-- `bb_http_resp_json_obj_end`; the terminator is the chunk without bytes. -/
def objEnd : Step := fun s =>
  let s := { s with isOpen := false }
  let s := if s.err = .ok then (objPutc send 125 s).2 else s
  let s := (objFlush send s).2
  let fin := send s.sent.length
  let s :=
    { s with
      sent := s.sent ++ [[]]
      err := if fin ≠ .ok ∧ s.err = .ok then fin else s.err }
  (s.err, s)

end

/-! ## Calls -/

/-- A call between begin and end. -/
inductive Call where
  | setStr (key val : Option Bytes)
  | setNum (key : Option Bytes) (val : Float)
  | setInt (key : Option Bytes) (val : Int64)
  | setBool (key : Option Bytes) (val : Bool)
  | setNull (key : Option Bytes)
  | setRaw (key raw : Option Bytes)
  | setObjBegin (key : Option Bytes)
  | setObjEnd
  | setArrBegin (key : Option Bytes)
  | setArrEnd

def call (lib : Libc) (send : Nat → BbErr) : Call → Step
  | .setStr key val => setStr send key val
  | .setNum key val => setNum send lib key val
  | .setInt key val => setInt send key val
  | .setBool key val => setBool send key val
  | .setNull key => setNull send key
  | .setRaw key raw => setRaw send key raw
  | .setObjBegin key => setObjBegin send key
  | .setObjEnd => setObjEnd send
  | .setArrBegin key => setArrBegin send key
  | .setArrEnd => setArrEnd send

/-- The stream after a begin and some calls. -/
def after (lib : Libc) (send : Nat → BbErr) (cs : List Call) : Stream :=
  Foundations.run (fun s c => (call lib send c s).2) (begun send) cs

/-- The whole response: a begin, some calls and the end. -/
def respond (lib : Libc) (send : Nat → BbErr) (cs : List Call) : BbErr × Stream :=
  objEnd send (after lib send cs)

/-! ## The text of a call -/

/-- A string with its escapes, in quotes. -/
def quoted (str : Bytes) : Bytes :=
  34 :: (str.flatMap objEscape ++ [34])

/-- The comma and the key in front of a value. -/
def keyText (comma : Bool) (key : Option Bytes) : Bytes :=
  (if comma then [44] else []) ++
    match key with
    | none => []
    | some key => quoted key ++ [58]

/-- The text of a call where a comma is needed or not. -/
def callText (lib : Libc) (comma : Bool) : Call → Bytes
  | .setStr key none => keyText comma key ++ nullText
  | .setStr key (some val) => keyText comma key ++ quoted val
  | .setNum key val => keyText comma key ++ lib.printG 6 val
  | .setInt key val => keyText comma key ++ i64ToDec 24 val.toInt
  | .setBool key val => keyText comma key ++ boolText val
  | .setNull key => keyText comma key ++ nullText
  | .setRaw key raw => keyText comma key ++ raw.getD []
  | .setObjBegin key => keyText comma key ++ [123]
  | .setObjEnd => [125]
  | .setArrBegin key => keyText comma key ++ [91]
  | .setArrEnd => [93]

/-- Where commas are needed after a call, from the innermost container out. -/
def commasAfter : List Bool → Call → List Bool
  | commas, .setObjBegin _ => false :: true :: commas.tail
  | commas, .setArrBegin _ => false :: true :: commas.tail
  | commas, .setObjEnd => commas.tail
  | commas, .setArrEnd => commas.tail
  | commas, _ => true :: commas.tail

/-- The depth after a call. -/
def depthAfter (d : Nat) : Call → Nat
  | .setObjBegin _ => d + 1
  | .setArrBegin _ => d + 1
  | .setObjEnd => d - 1
  | .setArrEnd => d - 1
  | _ => d

/-- The stream allows the call: a place to open, something to close, a value to splice. -/
def Allowed (depth : Nat) : Call → Prop
  | .setObjBegin _ => depth + 1 < maxDepth
  | .setArrBegin _ => depth + 1 < maxDepth
  | .setObjEnd => depth ≠ 0
  | .setArrEnd => depth ≠ 0
  | .setRaw _ raw => raw.getD [] ≠ []
  | _ => True

/-! ## Appending -/

/-- The stream as an output of bytes. -/
def Stream.output (s : Stream) : Output UInt8 BbErr :=
  ⟨s.buf, s.sent, s.err⟩

/-- The depth and the flags are those of the open containers, from the innermost out. -/
structure Tracks (s : Stream) (commas : List Bool) : Prop where
  slots : s.needsComma.length = maxDepth
  depth_eq : s.depth + 1 = commas.length
  flags : s.needsComma.take (s.depth + 1) = commas.reverse

/-- From `s` a step returns its error and appends `w`, as far as no error stops it. -/
structure Emitting (send : Nat → BbErr) (s : Stream) (r : BbErr × Stream) (w : Bytes)
    (commas : List Bool) : Prop where
  code : r.1 = r.2.err
  output : Emits .ok bufSize send s.output w r.2.output
  isOpen_eq : r.2.isOpen = s.isOpen
  tracks : r.2.err = .ok → Tracks r.2 commas

section

variable {send : Nat → BbErr} {s : Stream} {commas : List Bool} {w w' : Bytes}

/-- A flush sends the buffer, and the return of the send is the error from now on. -/
theorem objFlush_of_ok (hok : s.err = .ok) :
    objFlush send s = (send s.sent.length,
      { s with
        sent := s.sent ++ [s.buf]
        buf := []
        err := send s.sent.length }) := by
  unfold objFlush
  rw [if_neg (not_not_intro hok)]
  dsimp only
  congr 2
  split
  · rfl
  · rename_i hsent
    rw [hok, not_not.mp hsent]

/-- An append is a push into the output. -/
theorem objAppend_output (hok : s.err = .ok) (data : Bytes) :
    (objAppend send data s).2.output = Foundations.BoundedOutput.push .ok bufSize send s.output data ∧
      (objAppend send data s).1 = (objAppend send data s).2.err ∧
      (objAppend send data s).2.isOpen = s.isOpen ∧ (objAppend send data s).2.depth = s.depth ∧
      (objAppend send data s).2.needsComma = s.needsComma := by
  have hgood : s.output.status = .ok := hok
  unfold objAppend
  by_cases hfull : bufSize < s.buf.length + data.length
  · rw [if_pos hfull, Foundations.BoundedOutput.push_of_overflow hgood hfull]
    have hflush : objFlush send s = (send s.sent.length,
        { s with
          sent := s.sent ++ [s.buf]
          buf := []
          err := send s.sent.length }) := by
      unfold objFlush
      rw [if_neg (not_not_intro hok)]
      dsimp only
      congr 2
      split
      · rfl
      · rename_i hsent
        rw [hok, not_not.mp hsent]
    rw [hflush]
    rcases hsend : send s.sent.length with _ | _
    all_goals
      rw [show send s.output.sent.length = send s.sent.length from rfl, hsend]
      exact ⟨rfl, rfl, rfl, rfl, rfl⟩
  · rw [if_neg hfull, Foundations.BoundedOutput.push_of_fits hgood (Nat.not_lt.mp hfull)]
    exact ⟨rfl, hok.symm, rfl, rfl, rfl⟩

theorem Tracks.of_eq {s' : Stream} (h : Tracks s commas) (hdepth : s'.depth = s.depth)
    (hcommas : s'.needsComma = s.needsComma) : Tracks s' commas := by
  constructor
  · rw [hcommas]
    exact h.slots
  · rw [hdepth]
    exact h.depth_eq
  · rw [hdepth, hcommas]
    exact h.flags

theorem objAppend_emitting (hok : s.err = .ok) (htracks : Tracks s commas) {data : Bytes}
    (hfits : data.length ≤ bufSize) : Emitting send s (objAppend send data s) data commas := by
  rcases @objAppend_output send s hok data with ⟨houtput, hcode, hopen, hdepth, hcommas⟩
  refine ⟨hcode, ?_, hopen, fun _ => htracks.of_eq hdepth hcommas⟩
  rw [houtput]
  exact Emits.single s.output hfits

theorem objPutc_emitting (hok : s.err = .ok) (htracks : Tracks s commas) (c : UInt8) :
    Emitting send s (objPutc send c s) [c] commas :=
  objAppend_emitting hok htracks (show 1 ≤ bufSize by decide)

theorem emitting_nothing (hok : s.err = .ok) (htracks : Tracks s commas) :
    Emitting send s (.ok, s) [] commas :=
  ⟨hok.symm, .nil _, rfl, fun _ => htracks⟩

/-- One step after the other. -/
theorem seq_emitting {f g : Step} {commas' : List Bool} (hf : Emitting send s (f s) w commas)
    (hg : ∀ s', s'.err = .ok → Tracks s' commas → Emitting send s' (g s') w' commas') :
    Emitting send s (seq f g s) (w ++ w') commas' := by
  unfold seq
  rcases hfs : f s with ⟨e, s'⟩
  rw [hfs] at hf
  have hcode : e = s'.err := hf.code
  by_cases he : e = .ok
  · have hrest := hg s' (hcode.symm.trans he) (hf.tracks (hcode.symm.trans he))
    subst he
    exact ⟨hrest.code, hf.output.trans hrest.output, hrest.isOpen_eq.trans hf.isOpen_eq,
      hrest.tracks⟩
  · have hbad : s'.output.status ≠ .ok := by
      rw [← show e = s'.output.status from hcode]
      exact he
    have hstopped : Emitting send s (e, s') (w ++ w') commas' := by
      refine ⟨hcode, ?_, hf.isOpen_eq, ?_⟩
      · exact hf.output.trans (Emits.idle (by decide) hbad w')
      · intro hok
        exact absurd hok hbad
    cases e <;> first | exact absurd rfl he | exact hstopped

/-! ## Pieces -/

theorem length_objEscape_le (c : UInt8) : (objEscape c).length ≤ bufSize := by
  have hsix : (objEscape c).length ≤ 6 := by
    unfold objEscape
    repeat' split
    all_goals simp
  have hsize : 6 ≤ bufSize := by decide
  omega

theorem objEmitEscapes_emitting (hok : s.err = .ok) (htracks : Tracks s commas) (str : Bytes) :
    Emitting send s (objEmitEscapes send str s) (str.flatMap objEscape) commas := by
  induction str generalizing s with
  | nil => exact emitting_nothing hok htracks
  | cons c str ih =>
    rw [List.flatMap_cons]
    apply seq_emitting (objAppend_emitting hok htracks (length_objEscape_le c))
    intro s' hok' htracks'
    exact ih hok' htracks'

theorem objEmitStrEscaped_emitting (hok : s.err = .ok) (htracks : Tracks s commas) (str : Bytes) :
    Emitting send s (objEmitStrEscaped send str s) (quoted str) commas := by
  apply seq_emitting (w := [34]) (objPutc_emitting hok htracks 34)
  intro s' hok' htracks'
  apply seq_emitting (objEmitEscapes_emitting hok' htracks' str)
  intro s'' hok'' htracks''
  exact objPutc_emitting hok'' htracks'' 34

theorem objAppendRaw_emitting (hok : s.err = .ok) (htracks : Tracks s commas) (raw : Bytes) :
    Emitting send s (objAppendRaw send raw s) raw commas := by
  induction raw using objAppendRaw.induct generalizing s with
  | case1 =>
    rw [objAppendRaw, if_pos rfl]
    exact emitting_nothing hok htracks
  | case2 raw hne ih =>
    rw [objAppendRaw, if_neg hne]
    have hfits : (raw.take bufSize).length ≤ bufSize := by
      rw [List.length_take]
      exact Nat.min_le_left _ _
    have hboth := @seq_emitting send s commas (raw.take bufSize) (raw.drop bufSize)
      (objAppend send (raw.take bufSize)) (objAppendRaw send (raw.drop bufSize)) commas
      (objAppend_emitting hok htracks hfits) (fun s' hok' htracks' => ih hok' htracks')
    rw [List.take_append_drop] at hboth
    exact hboth

/-! ## The comma and the key -/

/-- Within the limit the flag of the innermost container is set. -/
theorem Tracks.markComma {comma : Bool} {below : List Bool} (h : Tracks s (comma :: below)) :
    Tracks (markComma s).2 (true :: below) := by
  have hdepth := h.depth_eq
  have hslots := h.slots
  have hflags := h.flags
  have hlen := congrArg List.length hflags
  rw [List.length_take, List.length_reverse] at hlen
  refine ⟨?_, hdepth, ?_⟩
  · change (s.needsComma.set s.depth true).length = maxDepth
    rw [List.length_set]
    exact hslots
  · change (s.needsComma.set s.depth true).take (s.depth + 1) = (true :: below).reverse
    have hbelow : s.needsComma.take s.depth = below.reverse := by
      have htake := congrArg (List.take s.depth) hflags
      rw [List.take_take, Nat.min_eq_left (Nat.le_succ _), List.reverse_cons] at htake
      rw [htake, List.take_append_of_le_length (by
        rw [List.length_reverse]
        rw [List.length_cons] at hdepth
        omega)]
      apply List.take_of_length_le
      rw [List.length_reverse]
      rw [List.length_cons] at hdepth
      omega
    rw [List.take_add_one, List.take_set_of_le (Nat.le_refl _), hbelow, List.reverse_cons,
      List.getElem?_set_self (by
        rw [List.length_cons] at hdepth hlen
        omega)]
    rfl

/-- The flag of the innermost container says whether a comma is needed. -/
theorem Tracks.getD_needsComma {comma : Bool} {below : List Bool} (h : Tracks s (comma :: below)) :
    s.depth < maxDepth ∧ s.needsComma.getD s.depth false = comma := by
  have hdepth := h.depth_eq
  have hslots := h.slots
  have hlen := congrArg List.length h.flags
  rw [List.length_take, List.length_reverse] at hlen
  rw [List.length_cons] at hdepth hlen
  refine ⟨by omega, ?_⟩
  have hget := congrArg (fun l => l[s.depth]?) h.flags
  rw [List.getElem?_take_of_lt (Nat.lt_succ_self _), List.reverse_cons,
    List.getElem?_append_right (by rw [List.length_reverse]; omega)] at hget
  have hlast : s.depth - below.reverse.length = 0 := by
    rw [List.length_reverse]
    omega
  rw [hlast] at hget
  rw [List.getD_eq_getElem?_getD, hget]
  rfl

theorem objMaybeComma_emitting {comma : Bool} {below : List Bool} (hok : s.err = .ok)
    (htracks : Tracks s (comma :: below)) :
    Emitting send s (objMaybeComma send s) (if comma then [44] else []) (true :: below) := by
  rcases htracks.getD_needsComma with ⟨hdepth, hflag⟩
  unfold objMaybeComma
  rw [if_neg (Nat.not_le.mpr hdepth), hflag]
  cases comma with
  | true =>
    have hboth := @seq_emitting send s (true :: below) [44] [] (objPutc send 44) markComma
      (true :: below) (objPutc_emitting hok htracks 44)
      (fun s' hok' htracks' => ⟨hok'.symm, .nil _, rfl, fun _ => htracks'.markComma⟩)
    exact hboth
  | false => exact ⟨hok.symm, .nil _, rfl, fun _ => htracks.markComma⟩

theorem objEmitKey_emitting {comma : Bool} {below : List Bool} (hok : s.err = .ok)
    (htracks : Tracks s (comma :: below)) (key : Option Bytes) :
    Emitting send s (objEmitKey send key s) (keyText comma key) (true :: below) := by
  apply seq_emitting (objMaybeComma_emitting hok htracks)
  intro s' hok' htracks'
  cases key with
  | none => exact emitting_nothing hok' htracks'
  | some key =>
    apply seq_emitting (objEmitStrEscaped_emitting hok' htracks' key)
    intro s'' hok'' htracks''
    exact objPutc_emitting hok'' htracks'' 58

/-! ## Levels -/

theorem Tracks.pushLevel {below : List Bool} (h : Tracks s below) (hroom : s.depth + 1 < maxDepth) :
    Tracks (pushLevel s).2 (false :: below) := by
  have hdepth := h.depth_eq
  have hslots := h.slots
  constructor
  · change (s.needsComma.set (s.depth + 1) false).length = maxDepth
    rw [List.length_set]
    exact hslots
  · change s.depth + 1 + 1 = below.length + 1
    omega
  · change (s.needsComma.set (s.depth + 1) false).take (s.depth + 1 + 1) = (false :: below).reverse
    rw [List.take_add_one, List.take_set_of_le (Nat.le_refl _), h.flags, List.reverse_cons,
      List.getElem?_set_self (by omega)]
    rfl

theorem Tracks.popLevel {comma : Bool} {below : List Bool} (h : Tracks s (comma :: below))
    (hdepth : s.depth ≠ 0) : Tracks { s with depth := s.depth - 1 } below := by
  have hlevels := h.depth_eq
  rw [List.length_cons] at hlevels
  have hback : s.depth - 1 + 1 = s.depth := Nat.succ_pred_eq_of_ne_zero hdepth
  refine ⟨h.slots, ?_, ?_⟩
  · dsimp only
    omega
  · dsimp only
    have htake := congrArg (List.take s.depth) h.flags
    rw [List.take_take, Nat.min_eq_left (Nat.le_succ _), List.reverse_cons,
      List.take_append_of_le_length (by rw [List.length_reverse]; omega)] at htake
    rw [hback, htake]
    apply List.take_of_length_le
    rw [List.length_reverse]
    omega

/-! ## Setters -/

theorem guarded_of_ok (hopen : s.isOpen = true) (hok : s.err = .ok) (body : Step) :
    guarded body s = body s := by
  unfold guarded
  rw [hopen, if_neg (by decide), if_neg (not_not_intro hok)]

theorem guarded_of_failed (hopen : s.isOpen = true) (hbad : s.err ≠ .ok) (body : Step) :
    guarded body s = (s.err, s) := by
  unfold guarded
  rw [hopen, if_neg (by decide), if_pos hbad]

/-- Every setter has the same guards. -/
theorem call_guarded (lib : Libc) (send : Nat → BbErr) (c : Call) :
    ∃ body, call lib send c = guarded body := by
  cases c <;> exact ⟨_, rfl⟩

/-- After the first error a setter returns it and does nothing. -/
theorem call_of_failed (lib : Libc) (hopen : s.isOpen = true) (hbad : s.err ≠ .ok) (c : Call) :
    call lib send c s = (s.err, s) := by
  rcases call_guarded lib send c with ⟨body, hbody⟩
  rw [hbody]
  exact guarded_of_failed hopen hbad body

/-- A value of one piece behind its comma and key. -/
theorem keyed_emitting {comma : Bool} {below : List Bool} (hok : s.err = .ok)
    (htracks : Tracks s (comma :: below)) (key : Option Bytes) {data : Bytes}
    (hfits : data.length ≤ bufSize) :
    Emitting send s (seq (objEmitKey send key) (objAppend send data) s) (keyText comma key ++ data)
      (true :: below) := by
  apply seq_emitting (objEmitKey_emitting hok htracks key)
  intro s' hok' htracks'
  exact objAppend_emitting hok' htracks' hfits

theorem containerBegin_emitting {comma : Bool} {below : List Bool} (hopen : s.isOpen = true)
    (hok : s.err = .ok) (htracks : Tracks s (comma :: below)) (hroom : s.depth + 1 < maxDepth)
    (bracket : UInt8) (key : Option Bytes) :
    Emitting send s (containerBegin send bracket key s) (keyText comma key ++ [bracket])
      (false :: true :: below) := by
  unfold containerBegin
  rw [guarded_of_ok hopen hok, if_neg (Nat.not_le.mpr hroom)]
  apply seq_emitting (objEmitKey_emitting hok htracks key)
  intro s' hok' htracks'
  have hdepth : s'.depth + 1 < maxDepth := by
    have hbefore := htracks.depth_eq
    have hafter := htracks'.depth_eq
    rw [List.length_cons] at hbefore hafter
    omega
  have hboth := @seq_emitting send s' (true :: below) [bracket] [] (objPutc send bracket) pushLevel
    (false :: true :: below) (objPutc_emitting hok' htracks' bracket)
  rw [List.append_nil] at hboth
  apply hboth
  intro s'' hok'' htracks''
  refine ⟨hok''.symm, .nil _, rfl, ?_⟩
  intro _
  apply htracks''.pushLevel
  have hbefore := htracks'.depth_eq
  have hafter := htracks''.depth_eq
  omega

theorem containerEnd_emitting {comma : Bool} {below : List Bool} (hopen : s.isOpen = true)
    (hok : s.err = .ok) (htracks : Tracks s (comma :: below)) (hdepth : s.depth ≠ 0)
    (bracket : UInt8) : Emitting send s (containerEnd send bracket s) [bracket] below := by
  unfold containerEnd
  rw [guarded_of_ok hopen hok, if_neg hdepth]
  have hput := @objPutc_emitting send { s with depth := s.depth - 1 } below hok
    (htracks.popLevel hdepth) bracket
  exact ⟨hput.code, hput.output, hput.isOpen_eq, hput.tracks⟩

theorem length_i64ToDec_fits (v : Int) : (i64ToDec 24 v).length ≤ bufSize := by
  have hlen := SerializeJson.length_i64ToDec_le 24 v
  have hsize : 23 ≤ bufSize := by decide
  omega

/-- A setter that its context allows appends its text. -/
theorem call_emitting (lib : Libc) {comma : Bool} {below : List Bool} (hopen : s.isOpen = true)
    (hok : s.err = .ok) (htracks : Tracks s (comma :: below)) {c : Call}
    (hallowed : Allowed s.depth c) :
    Emitting send s (call lib send c s) (callText lib comma c) (commasAfter (comma :: below) c) := by
  cases c with
  | setStr key val =>
    change Emitting send s (guarded _ s) _ _
    rw [guarded_of_ok hopen hok]
    cases val with
    | none => exact keyed_emitting hok htracks key (show 4 ≤ bufSize by decide)
    | some val =>
      apply seq_emitting (objEmitKey_emitting hok htracks key)
      intro s' hok' htracks'
      exact objEmitStrEscaped_emitting hok' htracks' val
  | setNum key val =>
    change Emitting send s (guarded _ s) _ _
    rw [guarded_of_ok hopen hok]
    apply keyed_emitting hok htracks key
    have hlen := lib.length_printG_le 6 val (by decide)
    have hsize : 24 ≤ bufSize := by decide
    omega
  | setInt key val =>
    change Emitting send s (guarded _ s) _ _
    rw [guarded_of_ok hopen hok]
    exact keyed_emitting hok htracks key (length_i64ToDec_fits _)
  | setBool key val =>
    change Emitting send s (guarded _ s) _ _
    rw [guarded_of_ok hopen hok]
    apply keyed_emitting hok htracks key
    cases val with
    | true => exact (show 4 ≤ bufSize by decide)
    | false => exact (show 5 ≤ bufSize by decide)
  | setNull key =>
    change Emitting send s (guarded _ s) _ _
    rw [guarded_of_ok hopen hok]
    exact keyed_emitting hok htracks key (show 4 ≤ bufSize by decide)
  | setRaw key raw =>
    change Emitting send s (setRaw send key raw s) _ _
    rw [setRaw, guarded_of_ok hopen hok, if_neg hallowed]
    apply seq_emitting (objEmitKey_emitting hok htracks key)
    intro s' hok' htracks'
    exact objAppendRaw_emitting hok' htracks' _
  | setObjBegin key => exact containerBegin_emitting hopen hok htracks hallowed 123 key
  | setObjEnd => exact containerEnd_emitting hopen hok htracks hallowed 125
  | setArrBegin key => exact containerBegin_emitting hopen hok htracks hallowed 91 key
  | setArrEnd => exact containerEnd_emitting hopen hok htracks hallowed 93

/-- A container beyond the limit ends the stream without a send. -/
theorem containerBegin_of_full (hopen : s.isOpen = true) (hok : s.err = .ok)
    (hfull : ¬ s.depth + 1 < maxDepth) (bracket : UInt8) (key : Option Bytes) :
    containerBegin send bracket key s = (.invalidArg, { s with err := .invalidArg }) := by
  unfold containerBegin
  rw [guarded_of_ok hopen hok, if_pos (Nat.not_lt.mp hfull)]

/-- So does an end without a begin. -/
theorem containerEnd_of_root (hopen : s.isOpen = true) (hok : s.err = .ok) (hroot : ¬ s.depth ≠ 0)
    (bracket : UInt8) :
    containerEnd send bracket s = (.invalidState, { s with err := .invalidState }) := by
  unfold containerEnd
  rw [guarded_of_ok hopen hok, if_pos (not_not.mp hroot)]

/-- A setter its context does not allow sets the error, but for a value without bytes. -/
theorem call_of_not_allowed (lib : Libc) (hopen : s.isOpen = true) (hok : s.err = .ok) {c : Call}
    (hnot : ¬ Allowed s.depth c) :
    (∃ e, e ≠ .ok ∧ call lib send c s = (e, { s with err := e })) ∨
      ∃ key raw, c = .setRaw key raw ∧ call lib send c s = (.invalidArg, s) := by
  cases c with
  | setRaw key raw =>
    refine Or.inr ⟨key, raw, rfl, ?_⟩
    change setRaw send key raw s = _
    rw [setRaw, guarded_of_ok hopen hok, if_pos (not_not.mp hnot)]
  | setObjBegin key => exact Or.inl ⟨_, by decide, containerBegin_of_full hopen hok hnot 123 key⟩
  | setArrBegin key => exact Or.inl ⟨_, by decide, containerBegin_of_full hopen hok hnot 91 key⟩
  | setObjEnd => exact Or.inl ⟨_, by decide, containerEnd_of_root hopen hok hnot 125⟩
  | setArrEnd => exact Or.inl ⟨_, by decide, containerEnd_of_root hopen hok hnot 93⟩
  | _ => exact absurd trivial hnot

end

end JsonObj
end HttpServer
end Breadboard
