import Breadboard.SerializeJson.Config

/-!
# bb_serialize_json_scan - the streaming JSON scanner

One byte-driven state machine behind both entry points.  A scan step is a list of sink
calls and a result; the scanner only looks at whether a call was accepted, so a sink that
rejects a call cuts the list there.  `deliver` is that cut.

An input position is the list of bytes from it on.
-/

namespace Breadboard
namespace SerializeJson

open Serialize (maxDepth)

/-! ## Sink calls -/

/-- `bb_serialize_json_span_t`. -/
inductive Span where
  | callerStable
  | callerFeedScoped
  | scannerScratch
  deriving Repr, DecidableEq

/-- A call of `bb_serialize_json_ingest_t`; the empty key is the NULL key. -/
inductive Call where
  | beginObj (key : Bytes)
  | endObj
  | beginArr (key : Bytes)
  | endArr
  | valueNum (key num : Bytes)
  | valueBool (key : Bytes) (v : Bool)
  | valueNull (key : Bytes)
  | valueStrChunk (key chunk : Bytes) (isFinal : Bool) (provenance : Span)
  deriving Repr, DecidableEq

/-- Sink calls, then an error or a value. -/
structure Scan (α : Type) where
  calls : List Call
  result : Except BbErr α
  deriving Repr

namespace Scan

instance : Monad Scan where
  pure a := ⟨[], .ok a⟩
  bind x f :=
    match x.result with
    | .error e => ⟨x.calls, .error e⟩
    | .ok a => ⟨x.calls ++ (f a).calls, (f a).result⟩

/-- Return an error. -/
def fail {α : Type} (e : BbErr) : Scan α := ⟨[], .error e⟩

/-- Call the sink. -/
def call (c : Call) : Scan Unit := ⟨[c], .ok ()⟩

/-- Make the calls until the sink rejects one; its code is then the result. -/
def deliverCalls {σ : Type} (sink : σ → Call → σ × BbErr) : σ → List Call → σ × BbErr
  | s, [] => (s, .ok)
  | s, c :: cs =>
    match sink s c with
    | (s', .ok) => deliverCalls sink s' cs
    | (s', e) => (s', e)

/-- Run a scan against a sink. -/
def deliver {σ α : Type} (sink : σ → Call → σ × BbErr) (s : σ) (x : Scan α) : σ × Except BbErr α :=
  match deliverCalls sink s x.calls with
  | (s', .ok) => (s', x.result)
  | (s', e) => (s', .error e)

end Scan

/-! ## State -/

/-- `phase_t`. -/
inductive Phase where
  | root
  | afterRoot
  | objKeyOrClose
  | objKeyOnly
  | keyStr
  | objColon
  | objValue
  | objAfterValue
  | arrElemOrClose
  | arrElemOnly
  | arrAfterValue
  | valStr
  | valNum
  | valLit
  deriving Repr, DecidableEq

/-- `num_phase_t`. -/
inductive NumPhase where
  | start
  | intDigits
  | fracStart
  | fracDigits
  | expStart
  | expSign
  | expDigits
  deriving Repr, DecidableEq

/-- `lit_kind_t`. -/
inductive LitKind where
  | litTrue
  | litFalse
  | litNull
  deriving Repr, DecidableEq

/-- `esc_phase_t`. -/
inductive EscPhase where
  | none
  | backslash
  | u1
  | u2
  | u3
  | u4
  | lowBackslash
  | lowU
  | lowU1
  | lowU2
  | lowU3
  | lowU4
  deriving Repr, DecidableEq

/-- The next enumerator, for the phases that are incremented. -/
def EscPhase.succ : EscPhase → EscPhase
  | .u1 => .u2
  | .u2 => .u3
  | .u3 => .u4
  | .lowU1 => .lowU2
  | .lowU2 => .lowU3
  | .lowU3 => .lowU4
  | p => p

/--
`scan_state_t` without the sink.  `objStack` holds the open containers, innermost
first, and its length is `depth`; `scratch` is cut to `scratch_len`.
-/
structure ScanState where
  phase : Phase
  err : BbErr
  boundedMode : Bool
  objStack : List Bool
  scratch : Bytes
  keyLen : Nat
  numPhase : NumPhase
  litKind : LitKind
  litMatched : Nat
  escPhase : EscPhase
  escCodeUnit : UInt16
  escHighSurrogate : UInt16
  deriving Repr, DecidableEq

/-! ## Small helpers -/

def isWs (c : UInt8) : Bool :=
  c = 32 ∨ c = 9 ∨ c = 10 ∨ c = 13

/-- `skip_ws`. -/
def skipWs (input : Bytes) : Bytes :=
  input.dropWhile isWs

/-- `hex_val`; `none` for its -1. -/
def hexVal (c : UInt8) : Option UInt8 :=
  if 48 ≤ c ∧ c ≤ 57 then some (c - 48)
  else if 97 ≤ c ∧ c ≤ 102 then some (c - 97 + 10)
  else if 65 ≤ c ∧ c ≤ 70 then some (c - 65 + 10)
  else none

/-- `utf8_encode`. -/
def utf8Encode (cp : UInt32) : Bytes :=
  if cp ≤ 0x7F then [cp.toUInt8]
  else if cp ≤ 0x7FF then
    [UInt32.toUInt8 ((0xC0 : UInt32) ||| (cp >>> 6)), UInt32.toUInt8 ((0x80 : UInt32) ||| (cp &&& 0x3F))]
  else if cp ≤ 0xFFFF then
    [UInt32.toUInt8 ((0xE0 : UInt32) ||| (cp >>> 12)), UInt32.toUInt8 ((0x80 : UInt32) ||| ((cp >>> 6) &&& 0x3F)),
      UInt32.toUInt8 ((0x80 : UInt32) ||| (cp &&& 0x3F))]
  else
    [UInt32.toUInt8 ((0xF0 : UInt32) ||| (cp >>> 18)), UInt32.toUInt8 ((0x80 : UInt32) ||| ((cp >>> 12) &&& 0x3F)),
      UInt32.toUInt8 ((0x80 : UInt32) ||| ((cp >>> 6) &&& 0x3F)), UInt32.toUInt8 ((0x80 : UInt32) ||| (cp &&& 0x3F))]

namespace ScanState

/-- `cur_key`. -/
def curKey (s : ScanState) : Bytes :=
  s.scratch.take s.keyLen

/-- `after_value_phase`. -/
def afterValuePhase (s : ScanState) : Phase :=
  match s.objStack with
  | [] => .afterRoot
  | true :: _ => .arrAfterValue
  | false :: _ => .objAfterValue

/-- `direct_span_provenance`. -/
def directSpanProvenance (s : ScanState) : Span :=
  if s.boundedMode then .callerStable else .callerFeedScoped

end ScanState

section Scanner

variable (cfg : Kconfig)

/-- `scratch_append`. -/
def scratchAppend (s : ScanState) (data : Bytes) : Scan ScanState :=
  if cfg.scratchMaxBytes < s.scratch.length + data.length then .fail .noSpace
  else pure { s with scratch := s.scratch ++ data }

/-- `emit_str_bytes`. -/
def emitStrBytes (s : ScanState) (data : Bytes) (isFinal isKey : Bool) (provenance : Span) :
    Scan ScanState :=
  if isKey then scratchAppend cfg s data
  else do
    Scan.call (.valueStrChunk s.curKey data isFinal provenance)
    pure s

/-! ## Strings -/

/-- The two-character escapes of `scan_escape_byte`. -/
def simpleEscape (c : UInt8) : Option UInt8 :=
  if c = 34 then some 34
  else if c = 92 then some 92
  else if c = 47 then some 47
  else if c = 98 then some 8
  else if c = 102 then some 12
  else if c = 110 then some 10
  else if c = 114 then some 13
  else if c = 116 then some 9
  else none

/-- `scan_escape_byte`: the new state, and the decoded bytes once the escape is complete. -/
def scanEscapeByte (s : ScanState) (c : UInt8) : Except BbErr (ScanState × Bytes) :=
  match s.escPhase with
  | .backslash =>
    match simpleEscape c with
    | some decoded => .ok ({ s with escPhase := .none }, [decoded])
    | none =>
      if c = 117 then .ok ({ s with escPhase := .u1, escCodeUnit := 0 }, [])
      else .error .parseGrammar
  | .u1 | .u2 | .u3 | .u4 =>
    match hexVal c with
    | none => .error .parseGrammar
    | some hv =>
      let unit := (s.escCodeUnit <<< 4) ||| hv.toUInt16
      if s.escPhase ≠ .u4 then
        .ok ({ s with escPhase := s.escPhase.succ, escCodeUnit := unit }, [])
      else if 0xD800 ≤ unit ∧ unit ≤ 0xDBFF then
        .ok ({ s with escPhase := .lowBackslash, escCodeUnit := unit, escHighSurrogate := unit }, [])
      else if 0xDC00 ≤ unit ∧ unit ≤ 0xDFFF then .error .parseGrammar
      else .ok ({ s with escPhase := .none, escCodeUnit := unit }, utf8Encode unit.toUInt32)
  | .lowBackslash =>
    if c ≠ 92 then .error .parseGrammar
    else .ok ({ s with escPhase := .lowU }, [])
  | .lowU =>
    if c ≠ 117 then .error .parseGrammar
    else .ok ({ s with escPhase := .lowU1, escCodeUnit := 0 }, [])
  | .lowU1 | .lowU2 | .lowU3 | .lowU4 =>
    match hexVal c with
    | none => .error .parseGrammar
    | some hv =>
      let unit := (s.escCodeUnit <<< 4) ||| hv.toUInt16
      if s.escPhase ≠ .lowU4 then
        .ok ({ s with escPhase := s.escPhase.succ, escCodeUnit := unit }, [])
      else if unit < 0xDC00 ∨ 0xDFFF < unit then .error .parseGrammar
      else
        let cp := (0x10000 : UInt32) + ((s.escHighSurrogate.toUInt32 - 0xD800) <<< 10) +
          (unit.toUInt32 - 0xDC00)
        .ok ({ s with escPhase := .none, escCodeUnit := unit }, utf8Encode cp)
  | .none => .error .parseGrammar

/-- Hand over a run of plain bytes, unless it is empty. -/
def flushRun (isKey : Bool) (s : ScanState) (run : Bytes) : Scan ScanState :=
  if run = [] then pure s else emitStrBytes cfg s run false isKey s.directSpanProvenance

/--
`scan_string`: the new state, the rest of the chunk, and whether the string was closed.
`run` holds the plain bytes from `start` on that were not yet emitted.
-/
def scanString (isKey : Bool) (s : ScanState) (run : Bytes) :
    Bytes → Scan (ScanState × Bytes × Bool)
  | [] => do
    -- The chunk ends inside the string: what was read so far is handed over.
    let s ← flushRun cfg isKey s run
    pure (s, [], false)
  | c :: rest =>
    if s.escPhase ≠ .none then
      match scanEscapeByte s c with
      | .error e => .fail e
      | .ok (s, decoded) =>
        if decoded = [] then scanString isKey s [] rest
        else if rest.head? = some 34 then do
          -- The closing quote is folded into the call for the escape before it.
          let s ← emitStrBytes cfg s decoded true isKey .scannerScratch
          pure (s, rest.tail, true)
        else do
          let s ← emitStrBytes cfg s decoded false isKey .scannerScratch
          scanString isKey s [] rest
    else if c = 34 then do
      let s ← emitStrBytes cfg s run true isKey s.directSpanProvenance
      pure (s, rest, true)
    else if c = 92 then do
      let s ← flushRun cfg isKey s run
      scanString isKey { s with escPhase := .backslash } [] rest
    else if c < 32 then .fail .parseGrammar
    else scanString isKey s (run ++ [c]) rest

/-! ## Numbers -/

/-- What a byte does to a number. -/
inductive NumStep where
  | malformed
  | finished
  | next (p : NumPhase)
  deriving Repr, DecidableEq

/-- The phase-transition table of `scan_number`. -/
def numStep (p : NumPhase) (c : UInt8) : NumStep :=
  let digit : Prop := 48 ≤ c ∧ c ≤ 57
  match p with
  | .start => if ¬ digit then .malformed else .next .intDigits
  | .intDigits =>
    if digit then .next .intDigits
    else if c = 46 then .next .fracStart
    else if c = 101 ∨ c = 69 then .next .expStart
    else .finished
  | .fracStart => if ¬ digit then .malformed else .next .fracDigits
  | .fracDigits =>
    if digit then .next .fracDigits
    else if c = 101 ∨ c = 69 then .next .expStart
    else .finished
  | .expStart =>
    if c = 43 ∨ c = 45 then .next .expSign
    else if digit then .next .expDigits
    else .malformed
  | .expSign => if ¬ digit then .malformed else .next .expDigits
  | .expDigits => if digit then .next .expDigits else .finished

/-- `scan_number`: the new state, the rest of the chunk, and whether the number ended. -/
def scanNumber (s : ScanState) : Bytes → Scan (ScanState × Bytes × Bool)
  | [] => pure (s, [], false)
  | c :: rest =>
    match numStep s.numPhase c with
    | .malformed => .fail .parseGrammar
    | .finished => pure (s, c :: rest, true)
    | .next p => do
      let s ← scratchAppend cfg s [c]
      scanNumber { s with numPhase := p } rest

/-- `num_phase_is_terminal`. -/
def NumPhase.isTerminal (p : NumPhase) : Bool :=
  p = .intDigits ∨ p = .fracDigits ∨ p = .expDigits

/-- `finalize_number`. -/
def finalizeNumber (s : ScanState) : Scan ScanState := do
  Scan.call (.valueNum s.curKey (s.scratch.drop s.keyLen))
  pure { s with phase := s.afterValuePhase }

/-! ## Literals -/

/-- `lit_text`. -/
def LitKind.text : LitKind → Bytes
  | .litTrue => [116, 114, 117, 101]
  | .litFalse => [102, 97, 108, 115, 101]
  | .litNull => [110, 117, 108, 108]

/-- `scan_literal`: the new state, the rest of the chunk, and whether the literal ended. -/
def scanLiteral (s : ScanState) : Bytes → Scan (ScanState × Bytes × Bool)
  | [] => pure (s, [], false)
  | c :: rest =>
    if s.litKind.text[s.litMatched]? ≠ some c then .fail .parseGrammar
    else
      let s := { s with litMatched := s.litMatched + 1 }
      if s.litMatched = s.litKind.text.length then pure (s, rest, true)
      else scanLiteral s rest

/-- `emit_literal`. -/
def emitLiteral (s : ScanState) : Scan Unit :=
  match s.litKind with
  | .litNull => Scan.call (.valueNull s.curKey)
  | .litTrue => Scan.call (.valueBool s.curKey true)
  | .litFalse => Scan.call (.valueBool s.curKey false)

/-! ## Containers and values -/

/-- `close_container`; its callers have an open container. -/
def closeContainer (s : ScanState) : Scan ScanState :=
  match s.objStack with
  | [] => .fail .invalidState
  | isArr :: stack => do
    let s := { s with objStack := stack }
    Scan.call (if isArr then .endArr else .endObj)
    pure { s with phase := s.afterValuePhase }

/-- `dispatch_value_start` at the byte `c`, which it consumes. -/
def dispatchValueStart (s : ScanState) (c : UInt8) (keyed : Bool) : Scan ScanState :=
  let s := if keyed then s else { s with keyLen := 0, scratch := [] }
  if c = 34 then pure { s with escPhase := .none, phase := .valStr }
  else if c = 123 then
    if maxDepth ≤ s.objStack.length then .fail .noSpace
    else do
      Scan.call (.beginObj s.curKey)
      pure { s with objStack := false :: s.objStack, phase := .objKeyOrClose }
  else if c = 91 then
    if maxDepth ≤ s.objStack.length then .fail .noSpace
    else do
      Scan.call (.beginArr s.curKey)
      pure { s with objStack := true :: s.objStack, phase := .arrElemOrClose }
  else if c = 45 then do
    let s ← scratchAppend cfg s [c]
    pure { s with numPhase := .start, phase := .valNum }
  else if 48 ≤ c ∧ c ≤ 57 then do
    let s ← scratchAppend cfg s [c]
    pure { s with numPhase := .intDigits, phase := .valNum }
  else if c = 116 then pure { s with litKind := .litTrue, litMatched := 1, phase := .valLit }
  else if c = 102 then pure { s with litKind := .litFalse, litMatched := 1, phase := .valLit }
  else if c = 110 then pure { s with litKind := .litNull, litMatched := 1, phase := .valLit }
  else .fail .parseGrammar

/-! ## The drive loop -/

/-- One iteration of `drive` on what is left of the chunk; `[]` ends the loop. -/
def driveStep (s : ScanState) (input : Bytes) : Scan (ScanState × Bytes) :=
  match s.phase with
  | .root =>
    match skipWs input with
    | [] => pure (s, [])
    | c :: rest => do
      let s ← dispatchValueStart cfg s c false
      pure (s, rest)
  | .afterRoot =>
    match skipWs input with
    | [] => pure (s, [])
    | _ :: _ => .fail .parseGrammar
  | .objKeyOrClose | .objKeyOnly =>
    match skipWs input with
    | [] => pure (s, [])
    | c :: rest =>
      if c = 125 ∧ s.phase = .objKeyOrClose then do
        let s ← closeContainer s
        pure (s, rest)
      else if c ≠ 34 then .fail .parseGrammar
      else pure ({ s with scratch := [], keyLen := 0, escPhase := .none, phase := .keyStr }, rest)
  | .keyStr => do
    let (s, rest, closed) ← scanString cfg true s [] input
    if closed then pure ({ s with keyLen := s.scratch.length, phase := .objColon }, rest)
    else pure (s, rest)
  | .objColon =>
    match skipWs input with
    | [] => pure (s, [])
    | c :: rest => if c ≠ 58 then .fail .parseGrammar else pure ({ s with phase := .objValue }, rest)
  | .objValue =>
    match skipWs input with
    | [] => pure (s, [])
    | c :: rest => do
      let s ← dispatchValueStart cfg s c true
      pure (s, rest)
  | .objAfterValue =>
    match skipWs input with
    | [] => pure (s, [])
    | c :: rest =>
      if c = 44 then pure ({ s with phase := .objKeyOnly }, rest)
      else if c = 125 then do
        let s ← closeContainer s
        pure (s, rest)
      else .fail .parseGrammar
  | .arrElemOrClose | .arrElemOnly =>
    match skipWs input with
    | [] => pure (s, [])
    | c :: rest =>
      if c = 93 ∧ s.phase = .arrElemOrClose then do
        let s ← closeContainer s
        pure (s, rest)
      else do
        let s ← dispatchValueStart cfg s c false
        pure (s, rest)
  | .arrAfterValue =>
    match skipWs input with
    | [] => pure (s, [])
    | c :: rest =>
      if c = 44 then pure ({ s with phase := .arrElemOnly }, rest)
      else if c = 93 then do
        let s ← closeContainer s
        pure (s, rest)
      else .fail .parseGrammar
  | .valStr => do
    let (s, rest, closed) ← scanString cfg false s [] input
    if closed then pure ({ s with phase := s.afterValuePhase }, rest)
    else pure (s, rest)
  | .valNum => do
    let (s, rest, finished) ← scanNumber cfg s input
    if finished then do
      let s ← finalizeNumber s
      pure (s, rest)
    else pure (s, rest)
  | .valLit => do
    let (s, rest, finished) ← scanLiteral s input
    if finished then do
      emitLiteral s
      pure ({ s with phase := s.afterValuePhase }, rest)
    else pure (s, rest)

/-- `drive` with a bound on the iterations. -/
def driveLoop : Nat → ScanState → Bytes → Scan ScanState
  | _, s, [] => pure s
  | 0, _, _ :: _ => .fail .invalidState
  | fuel + 1, s, c :: input => do
    let (s, rest) ← driveStep cfg s (c :: input)
    driveLoop fuel s rest

/-- `drive`.  An iteration consumes a byte or ends a number, so the bound is never met. -/
def drive (s : ScanState) (chunk : Bytes) : Scan ScanState :=
  driveLoop cfg (2 * chunk.length + 1) s chunk

/-! ## Public API -/

/-- `scan_begin_internal`. -/
def scanBeginInternal (boundedMode : Bool) : ScanState where
  phase := .root
  err := .ok
  boundedMode := boundedMode
  objStack := []
  scratch := []
  keyLen := 0
  numPhase := .start
  litKind := .litTrue
  litMatched := 0
  escPhase := .none
  escCodeUnit := 0
  escHighSurrogate := 0

/-- `bb_serialize_json_scan_begin`. -/
def scanBegin : ScanState := scanBeginInternal false

/-- `bb_serialize_json_scan_feed`, on a sink's state and a scan state. -/
def scanFeed {σ : Type} (sink : σ → Call → σ × BbErr) (t : σ) (s : ScanState) (chunk : Bytes) :
    σ × ScanState × BbErr :=
  if s.err ≠ .ok then (t, s, s.err)
  else
    match (drive cfg s chunk).deliver sink t with
    | (t, .ok s) => (t, s, .ok)
    | (t, .error rc) => (t, { s with err := rc }, rc)

/-- A number at the very end of the input is complete only now. -/
def endNumber (s : ScanState) : Scan ScanState :=
  if s.phase = .valNum then
    if s.numPhase.isTerminal then finalizeNumber s else .fail .parseIncomplete
  else pure s

/-- What `bb_serialize_json_scan_end` does in a state without an error. -/
def endScan (s : ScanState) : Scan ScanState := do
  let s ← endNumber s
  if s.phase ≠ .afterRoot then .fail .parseIncomplete else pure s

/-- `bb_serialize_json_scan_end`. -/
def scanEnd {σ : Type} (sink : σ → Call → σ × BbErr) (t : σ) (s : ScanState) :
    σ × ScanState × BbErr :=
  if s.err ≠ .ok then (t, s, s.err)
  else
    match (endScan s).deliver sink t with
    | (t, .ok s) => (t, s, .ok)
    | (t, .error rc) => (t, { s with err := rc }, rc)

/-- `bb_serialize_json_scan_bounded`. -/
def scanBounded {σ : Type} (sink : σ → Call → σ × BbErr) (t : σ) (buf : Bytes) : σ × BbErr :=
  match scanFeed cfg sink t (scanBeginInternal true) buf with
  | (t, s, .ok) =>
    match scanEnd sink t s with
    | (t, _, rc) => (t, rc)
  | (t, _, rc) => (t, rc)

/-- `bb_serialize_json_scan_feed` of every chunk in turn, and the code of each call. -/
def scanFeeds {σ : Type} (sink : σ → Call → σ × BbErr) :
    σ → ScanState → List Bytes → σ × ScanState × List BbErr
  | t, s, [] => (t, s, [])
  | t, s, chunk :: chunks =>
    match scanFeed cfg sink t s chunk with
    | (t, s, rc) =>
      match scanFeeds sink t s chunks with
      | (t, s, rcs) => (t, s, rc :: rcs)

/-- A streaming scan: begin, the feeds, end; the code of every feed and of the end. -/
def scanStream {σ : Type} (sink : σ → Call → σ × BbErr) (t : σ) (chunks : List Bytes) :
    σ × List BbErr :=
  match scanFeeds cfg sink t scanBegin chunks with
  | (t, s, rcs) =>
    match scanEnd sink t s with
    | (t, _, rc) => (t, rcs ++ [rc])

end Scanner

end SerializeJson
end Breadboard
