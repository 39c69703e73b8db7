import Breadboard.SerializeJson.Scan

/-!
# bb_release_manifest - the GitHub release manifest parsers

Both parsers drive one sink over the shared JSON scanner.  The sink follows the depth of the
scan, copies the top-level `tag_name` and the `browser_download_url` of the asset whose
`name` is that of the board, and stops the scan once it has both.

An output buffer is its text and its capacity; its length is that of the text.
-/

namespace Breadboard
namespace ReleaseManifest

open SerializeJson (Call Kconfig ScanState)

/-! ## State -/

/-- `BB_RELEASE_MANIFEST_SINK_NAME_MAX`. -/
def sinkNameMax : Nat := 64

/-- `BB_RELEASE_MANIFEST_SINK_DONE`. -/
def sinkDone : BbErr := .conflict

/-- `assets` -/
def assetsKey : Bytes := [97, 115, 115, 101, 116, 115]

/-- `tag_name` -/
def tagNameKey : Bytes := [116, 97, 103, 95, 110, 97, 109, 101]

/-- `name` -/
def nameKey : Bytes := [110, 97, 109, 101]

/-- `browser_download_url` -/
def urlKey : Bytes :=
  [98, 114, 111, 119, 115, 101, 114, 95, 100, 111, 119, 110, 108, 111, 97, 100, 95, 117, 114, 108]

/-- `.bin` -/
def binSuffix : Bytes := [46, 98, 105, 110]

/-- A buffer of the caller: the string in it and its size. -/
structure OutBuf where
  text : Bytes
  cap : Nat
  deriving Repr, DecidableEq

/-- `bb_release_manifest_sink_state_t`; the lengths are those of the byte lists. -/
structure SinkState where
  tagOut : OutBuf
  urlOut : OutBuf
  boardName : Bytes
  nameTmp : Bytes
  depth : Int
  assetsArrDepth : Int
  assetsElemDepth : Int
  assetObjDepth : Int
  tagFound : Bool
  urlFound : Bool
  inAssets : Bool
  inAssetObj : Bool
  assetNameMatched : Bool
  assetsInvalidShape : Bool
  deriving Repr, DecidableEq

/-! ## Append helpers -/

/-- `sink_append`. -/
def sinkAppend (dst : OutBuf) (chunk : Bytes) : OutBuf × BbErr :=
  if chunk = [] then (dst, .ok)
  else if dst.cap < dst.text.length + chunk.length + 1 then (dst, .noSpace)
  else ({ dst with text := dst.text ++ chunk }, .ok)

/-- `sink_append_truncate`. -/
def sinkAppendTruncate (dst : Bytes) (cap : Nat) (chunk : Bytes) : Bytes :=
  if cap ≤ dst.length + 1 then dst
  else dst ++ chunk.take (cap - dst.length - 1)

/-! ## Callbacks -/

/-- `is_toplevel_assets_key`. -/
def isToplevelAssetsKey (depth : Int) (key : Bytes) : Bool :=
  depth = 1 ∧ key = assetsKey

/-- `sink_begin_obj`. -/
def sinkBeginObj (s : SinkState) (key : Bytes) : SinkState :=
  let s :=
    if ¬ s.inAssets ∧ isToplevelAssetsKey s.depth key then { s with assetsInvalidShape := true }
    else s
  -- An element of the array has no key; the depth tells that it is one.
  let s :=
    if s.inAssets ∧ ¬ s.inAssetObj ∧ s.depth = s.assetsElemDepth then
      { s with inAssetObj := true, assetObjDepth := s.depth, assetNameMatched := false, nameTmp := [] }
    else s
  { s with depth := s.depth + 1 }

/-- `sink_end_obj`. -/
def sinkEndObj (s : SinkState) : SinkState :=
  let s := { s with depth := s.depth - 1 }
  if s.inAssetObj ∧ s.depth = s.assetObjDepth then
    { s with inAssetObj := false, assetNameMatched := false }
  else s

/-- `sink_begin_arr`. -/
def sinkBeginArr (s : SinkState) (key : Bytes) : SinkState :=
  let s :=
    if ¬ s.inAssets ∧ isToplevelAssetsKey s.depth key then
      { s with inAssets := true, assetsArrDepth := s.depth, assetsElemDepth := s.depth + 1 }
    else s
  { s with depth := s.depth + 1 }

/-- `sink_end_arr`. -/
def sinkEndArr (s : SinkState) : SinkState :=
  let s := { s with depth := s.depth - 1 }
  if s.inAssets ∧ s.depth = s.assetsArrDepth then { s with inAssets := false } else s

/-- `mark_if_assets_scalar`. -/
def markIfAssetsScalar (s : SinkState) (key : Bytes) : SinkState :=
  if ¬ s.inAssets ∧ isToplevelAssetsKey s.depth key then { s with assetsInvalidShape := true } else s

/-- `sink_value_str_chunk`; the provenance is not looked at. -/
def sinkValueStrChunk (s : SinkState) (key chunk : Bytes) (isFinal : Bool) : SinkState × BbErr :=
  let isTag : Bool := ¬ s.tagFound ∧ s.depth = 1 ∧ key = tagNameKey
  let isName : Bool :=
    s.inAssetObj ∧ ¬ s.assetNameMatched ∧ s.depth = s.assetObjDepth + 1 ∧ key = nameKey
  let isUrl : Bool :=
    s.inAssetObj ∧ s.assetNameMatched ∧ ¬ s.urlFound ∧ s.depth = s.assetObjDepth + 1 ∧ key = urlKey
  let s := markIfAssetsScalar s key
  if isTag then
    match sinkAppend s.tagOut chunk with
    | (tagOut, .ok) =>
      if isFinal then
        ({ s with tagOut := tagOut, tagFound := true }, if s.urlFound then sinkDone else .ok)
      else ({ s with tagOut := tagOut }, .ok)
    | (_, rc) => (s, rc)
  else if isName then
    let s := { s with nameTmp := sinkAppendTruncate s.nameTmp sinkNameMax chunk }
    if isFinal then ({ s with assetNameMatched := s.nameTmp = s.boardName }, .ok) else (s, .ok)
  else if isUrl then
    match sinkAppend s.urlOut chunk with
    | (urlOut, .ok) =>
      if isFinal then
        ({ s with urlOut := urlOut, urlFound := true }, if s.tagFound then sinkDone else .ok)
      else ({ s with urlOut := urlOut }, .ok)
    | (_, rc) => (s, rc)
  else (s, .ok)

/-- `bb_release_manifest_sink_ingest`. -/
def sinkIngest (s : SinkState) : Call → SinkState × BbErr
  | .beginObj key => (sinkBeginObj s key, .ok)
  | .endObj => (sinkEndObj s, .ok)
  | .beginArr key => (sinkBeginArr s key, .ok)
  | .endArr => (sinkEndArr s, .ok)
  | .valueNum key _ => (markIfAssetsScalar s key, .ok)
  | .valueBool key _ => (markIfAssetsScalar s key, .ok)
  | .valueNull key => (markIfAssetsScalar s key, .ok)
  | .valueStrChunk key chunk isFinal _ => sinkValueStrChunk s key chunk isFinal

/-! ## Init and finalize -/

/-- The name that `bb_release_manifest_sink_init` stores to compare with. -/
def storedBoardName (boardFallback : Bytes) : Bytes :=
  if sinkNameMax ≤ boardFallback.length + 4 then
    boardFallback.take (sinkNameMax - 1 - 4) ++ binSuffix
  else boardFallback ++ binSuffix

/-- `bb_release_manifest_sink_init`. -/
def sinkInit (boardFallback : Bytes) (tagOut urlOut : OutBuf) : SinkState where
  tagOut := { tagOut with text := [] }
  urlOut := { urlOut with text := [] }
  boardName := storedBoardName boardFallback
  nameTmp := []
  depth := 0
  assetsArrDepth := 0
  assetsElemDepth := 0
  assetObjDepth := 0
  tagFound := false
  urlFound := false
  inAssets := false
  inAssetObj := false
  assetNameMatched := false
  assetsInvalidShape := false

/-- What a parser returns: its code and the strings in the two buffers. -/
structure Extract where
  rc : BbErr
  tag : Bytes
  url : Bytes
  deriving Repr, DecidableEq

/-- `bb_release_manifest_sink_finalize`. -/
def sinkFinalize (st : SinkState) (scanResult : BbErr) : Extract :=
  if scanResult = sinkDone then ⟨.ok, st.tagOut.text, st.urlOut.text⟩
  else if scanResult = .noSpace then ⟨.noSpace, st.tagOut.text, st.urlOut.text⟩
  else
    -- A partial value never survives.
    let tag := if st.tagFound then st.tagOut.text else []
    let url := if st.urlFound then st.urlOut.text else []
    if scanResult ≠ .ok then ⟨.notFound, tag, url⟩
    else if st.assetsInvalidShape then ⟨.notFound, tag, url⟩
    else ⟨if st.tagFound then .ok else .notFound, tag, url⟩

/-! ## The buffered parser -/

/-- `bb_release_manifest_parse_github`. -/
def parseGithub (cfg : Kconfig) (body boardName : Bytes) (outTag outUrl : OutBuf) : Extract :=
  if outTag.cap = 0 ∨ outUrl.cap = 0 then ⟨.invalidArg, outTag.text, outUrl.text⟩
  else
    match SerializeJson.scanBounded cfg sinkIngest (sinkInit boardName outTag outUrl) body with
    | (st, rc) => sinkFinalize st rc

/-! ## The streaming parser -/

/-- `stream_state_t`. -/
structure StreamState where
  sink : SinkState
  scan : ScanState

/-- `bb_release_manifest_parse_github_stream_begin`. -/
def parseGithubStreamBegin (boardFallback : Bytes) (tagOut urlOut : OutBuf) :
    Except BbErr StreamState :=
  if tagOut.cap < 2 ∨ urlOut.cap < 2 then .error .invalidArg
  else .ok { sink := sinkInit boardFallback tagOut urlOut, scan := SerializeJson.scanBegin }

/-- `bb_release_manifest_parse_github_stream_feed`; only a full buffer is an error here. -/
def parseGithubStreamFeed (cfg : Kconfig) (s : StreamState) (chunk : Bytes) : StreamState × BbErr :=
  match SerializeJson.scanFeed cfg sinkIngest s.sink s.scan chunk with
  | (sink, scan, rc) => ({ sink := sink, scan := scan }, if rc = .noSpace then .noSpace else .ok)

/-- `bb_release_manifest_parse_github_stream_end`. -/
def parseGithubStreamEnd (s : StreamState) : Extract :=
  match SerializeJson.scanEnd sinkIngest s.sink s.scan with
  | (sink, _, rc) => sinkFinalize sink rc

/-- A feed of every chunk in turn. -/
def parseGithubStreamFeeds (cfg : Kconfig) (s : StreamState) (chunks : List Bytes) : StreamState :=
  chunks.foldl (fun s chunk => (parseGithubStreamFeed cfg s chunk).1) s

/-- A whole streaming parse: begin, the feeds, end. -/
def parseGithubStream (cfg : Kconfig) (chunks : List Bytes) (boardFallback : Bytes)
    (tagOut urlOut : OutBuf) : Extract :=
  match parseGithubStreamBegin boardFallback tagOut urlOut with
  | .error e => ⟨e, tagOut.text, urlOut.text⟩
  | .ok s => parseGithubStreamEnd (parseGithubStreamFeeds cfg s chunks)

end ReleaseManifest
end Breadboard
