import Breadboard.OtaCheck.Semver
import Breadboard.ReleaseManifest.Complete

/-!
# bb_ota_check - one check

A check fetches the release manifest, parses it and keeps what it says.  The parser of
this repository is fed while the response comes in; any other parser gets the buffered
response.  The two ways are written out separately and differ up to the parse.

Main results:

- Theorem `runOne_of_not_ready`, `runOne_of_refused`: a check that does not get to its
  fetch changes nothing.
- Theorem `runOne_of_fetches`: one that does, in terms of the parse of the whole response.
-/

namespace Breadboard
namespace OtaCheck

open ReleaseManifest (Extract OutBuf StreamState parseGithub parseGithubStream
  parseGithubStreamBegin parseGithubStreamFeed parseGithubStreamFeeds parseGithubStreamEnd)

/-! ## State -/

/-- `bb_ota_check_outcome_t`. -/
inductive CheckOutcome where
  | unknown
  | upToDate
  | available
  | noAsset
  | failed
  | checkOnApply
  deriving Repr, DecidableEq

/-- `bb_ota_check_status_t`; the other two fields are only filled in for a reader. -/
structure Status where
  current : Bytes
  latest : Bytes
  downloadUrl : Bytes
  lastCheckUs : Int
  lastCheckOk : Bool
  available : Bool
  outcome : CheckOutcome
  deriving Repr, DecidableEq

/-- A parser of the consumer, which keeps to the sizes of the buffers it is given. -/
structure CustomParser where
  parse : Bytes → Bytes → Nat → Nat → Extract
  tag_fits : ∀ body board tagCap urlCap, 0 < tagCap → 0 < urlCap →
    (parse body board tagCap urlCap).tag.length < tagCap
  url_fits : ∀ body board tagCap urlCap, 0 < tagCap → 0 < urlCap →
    (parse body board tagCap urlCap).url.length < urlCap

/-- `s_parser`: the default or another one. -/
inductive Parser where
  | github
  | custom (p : CustomParser)

/-- The static state of the component; of the hooks, whether they are set. -/
structure Checker where
  initialized : Bool
  url : Bytes
  firmwareBoard : Bytes
  parser : Parser
  pauseHook : Bool
  resumeHook : Bool
  status : Status
  firstCheckDone : Bool
  lastPublishTs : Int

/-- The build options: those of the scanner, and `CUSTOM_PARSER_BUF_SIZE`. -/
structure BuildConfig where
  json : SerializeJson.Kconfig
  bufSize : Nat

/-- What the transport hands over in a fetch, and how it ends if no callback aborts it. -/
structure Response where
  chunks : List Bytes
  err : BbErr
  statusCode : Int

/-- What a check finds around it: the setting, the pause hook's answer, memory, network, clocks. -/
structure Surroundings where
  enabled : Bool
  pauseAnswer : Bool
  memory : Bool
  response : Response
  nowUs : Int
  publishTs : Int

/-- What a check does to the outside: hook calls and publications. -/
inductive Effect where
  | pause (answer : Bool)
  | resume
  | publish (txt : Bytes) (snap : Status) (ts : Int)
  deriving Repr, DecidableEq

/-! ## The code -/

/-- The C string in a buffer. -/
def cString (buf : Bytes) : Bytes :=
  buf.takeWhile (· ≠ 0)

/-- `bb_strlcpy` into a buffer of the given size. -/
def strlcpy (src : Bytes) (size : Nat) : Bytes :=
  (cString src).take (size - 1)

/-- `BB_OTA_CHECK_VERSION_BUF`. -/
def versionBuf : Nat := 48

/-- `URL_MAX`, the size of every URL buffer. -/
def urlMax : Nat := 256

/-- `BOARD_MAX`. -/
def boardMax : Nat := 64

/-- The buffers of a check for the tag and the URL. -/
def tagBuf : OutBuf := ⟨[], 24⟩

def urlBuf : OutBuf := ⟨[], urlMax⟩

/-- `none` -/
def noneTxt : Bytes := [110, 111, 110, 101]

/-- `BOARD_NAME_FALLBACK` -/
def boardNameFallback : Bytes := [117, 110, 107, 110, 111, 119, 110]

/-- The body of a fetch through a callback, up to the first error. -/
def feedChunks {σ : Type} (cb : σ → Bytes → σ × BbErr) : σ → List Bytes → σ × BbErr
  | s, [] => (s, .ok)
  | s, chunk :: chunks =>
    match cb s chunk with
    | (s', .ok) => feedChunks cb s' chunks
    | (s', e) => (s', e)

/-- `bb_http_client_get_stream`: the context after it, its return and the status code. -/
def getStream {σ : Type} (cb : σ → Bytes → σ × BbErr) (s : σ) (r : Response) : σ × BbErr × Int :=
  match feedChunks cb s r.chunks with
  | (s', .ok) => (s', r.err, r.statusCode)
  | (s', e) => (s', e, r.statusCode)

/-- `buf_chunk_cb`, on the buffered bytes and whether they have overflowed. -/
def bufChunk (cap : Nat) (bc : Bytes × Bool) (data : Bytes) : (Bytes × Bool) × BbErr :=
  if bc.2 then (bc, .ok)
  else
    let avail := cap - bc.1.length
    ((bc.1 ++ data.take avail, avail < data.length), .ok)

/-- The fetch did not give a good response. -/
def fetchFailed (err : BbErr) (statusCode : Int) : Bool :=
  err ≠ .ok ∨ statusCode < 200 ∨ 300 ≤ statusCode

/-- The status after a failed fetch or parse. -/
def Status.failedAt (st : Status) (nowUs : Int) : Status :=
  { st with
    lastCheckUs := nowUs
    lastCheckOk := false
    outcome := .failed }

/-- `publish_state`. -/
def publishState (s : Checker) (txt : Bytes) (env : Surroundings) : Checker × List Effect :=
  ({ s with lastPublishTs := env.publishTs }, [.publish txt s.status env.publishTs])

/-- What follows the parse, which the code has twice. -/
def conclude (s : Checker) (env : Surroundings) (x : Extract) : BbErr × Checker × List Effect :=
  if x.rc ≠ .ok then (x.rc, { s with status := s.status.failedAt env.nowUs }, [])
  else if cString x.url = [] then
    let s :=
      { s with
        status :=
          { s.status with
            latest := []
            downloadUrl := []
            available := false
            lastCheckUs := env.nowUs
            lastCheckOk := true
            outcome := .noAsset }
        firstCheckDone := true }
    (.ok, publishState s noneTxt env)
  else
    let cmp := semverCompare (cString x.tag) s.status.current
    let newAvailable : Bool := cmp ≠ intMin ∧ 0 < cmp
    let s :=
      { s with
        status :=
          { s.status with
            latest := strlcpy x.tag versionBuf
            downloadUrl := strlcpy x.url urlMax
            available := newAvailable
            lastCheckUs := env.nowUs
            lastCheckOk := true
            outcome := if newAvailable then .available else .upToDate }
        firstCheckDone := true }
    (.ok, publishState s (if newAvailable then s.status.latest else noneTxt) env)

/-- The hook calls around a fetch. -/
def hookCalls (s : Checker) : List Effect :=
  (if s.pauseHook then [.pause true] else []) ++ (if s.resumeHook then [.resume] else [])

/-- What follows a fetch: the status of a failed one, or the parse. -/
def finish (s : Checker) (env : Surroundings) (err : BbErr) (statusCode : Int) (x : Extract) :
    BbErr × Checker × List Effect :=
  if fetchFailed err statusCode then
    (if err = .ok then .invalidState else err,
      { s with status := s.status.failedAt env.nowUs }, hookCalls s)
  else
    let y := conclude s env x
    (y.1, y.2.1, hookCalls s ++ y.2.2)

/-- `bb_ota_check_run_one`. -/
def runOne (cfg : BuildConfig) (s : Checker) (env : Surroundings) :
    BbErr × Checker × List Effect :=
  if !s.initialized then (.invalidArg, s, [])
  else if !env.enabled then (.ok, s, [])
  else
    let boardName := if s.firmwareBoard ≠ [] then s.firmwareBoard else boardNameFallback
    if s.url = [] then (.invalidState, s, [])
    else
      match s.parser with
      | .github =>
        match parseGithubStreamBegin boardName tagBuf urlBuf with
        | .error e => (e, s, [])
        | .ok ctx =>
          if s.pauseHook ∧ !env.pauseAnswer then (.invalidState, s, [.pause false])
          else
            let fetched := getStream (parseGithubStreamFeed cfg.json) ctx env.response
            finish s env fetched.2.1 fetched.2.2 (parseGithubStreamEnd fetched.1)
      | .custom p =>
        if !env.memory then (.noSpace, s, [])
        else if s.pauseHook ∧ !env.pauseAnswer then (.invalidState, s, [.pause false])
        else
          let fetched := getStream (bufChunk cfg.bufSize) ([], false) env.response
          finish s env fetched.2.1 fetched.2.2
            (p.parse fetched.1.1 boardName tagBuf.cap urlBuf.cap)

/-- `bb_ota_check_mark_check_on_apply`. -/
def markCheckOnApply (s : Checker) : BbErr × Checker :=
  if !s.initialized then (.invalidState, s)
  else
    (.ok,
      { s with
        status :=
          { s.status with
            outcome := .checkOnApply
            available := false
            lastCheckOk := false } })

/--
`bb_ota_check_init`, as far as the state of this model goes; `registered` is whether the
cache takes the topic.
-/
def init (s : Checker) (running : Bytes) (registered : Bool) : Checker :=
  if s.initialized then s
  else
    { s with
      initialized := registered
      url := []
      firmwareBoard := []
      parser := .github
      status :=
        { current := strlcpy running versionBuf
          latest := []
          downloadUrl := []
          lastCheckUs := 0
          lastCheckOk := false
          available := false
          outcome := .unknown }
      firstCheckDone := false }

/-- `bb_ota_check_set_releases_url`. -/
def setReleasesUrl (s : Checker) (url : Bytes) : Checker :=
  if !s.initialized ∨ url.length = 0 ∨ urlMax ≤ url.length then s
  else { s with url := strlcpy url urlMax }

/-- `bb_ota_check_set_parser`, which sets the default when there is none. -/
def setParser (s : Checker) (fn : Option CustomParser) : Checker :=
  if !s.initialized then s
  else
    { s with
      parser :=
        match fn with
        | none => .github
        | some p => .custom p }

/-- `bb_ota_check_set_firmware_board`. -/
def setFirmwareBoard (s : Checker) (board : Bytes) : Checker :=
  if !s.initialized ∨ boardMax ≤ board.length then s
  else { s with firmwareBoard := strlcpy board boardMax }

/-- `bb_ota_check_set_hooks`. -/
def setHooks (s : Checker) (pause resume : Bool) : Checker :=
  { s with
    pauseHook := pause
    resumeHook := resume }

/-! ## Both ways in terms of the parse -/

/-- The name of the board in a check. -/
def Checker.boardName (s : Checker) : Bytes :=
  if s.firmwareBoard ≠ [] then s.firmwareBoard else boardNameFallback

/-- The bytes that reach the buffer of a custom parser. -/
def buffered (cfg : BuildConfig) (r : Response) : Bytes :=
  r.chunks.flatten.take cfg.bufSize

/-- What the parser of the state makes of a response. -/
def extraction (cfg : BuildConfig) (s : Checker) (r : Response) : Extract :=
  match s.parser with
  | .github => parseGithubStream cfg.json r.chunks s.boardName tagBuf urlBuf
  | .custom p => p.parse (buffered cfg r) s.boardName tagBuf.cap urlBuf.cap

/-- Nothing but the pause hook keeps the check from its fetch. -/
def Ready (s : Checker) (env : Surroundings) : Prop :=
  s.initialized = true ∧ env.enabled = true ∧ s.url ≠ [] ∧
    (∀ p, s.parser = .custom p → env.memory = true)

/-- The pause hook keeps it. -/
def Refused (s : Checker) (env : Surroundings) : Prop :=
  s.pauseHook = true ∧ env.pauseAnswer = false

/-- What a fetching check comes to, in terms of its response and the parse of it. -/
def verdict (cfg : BuildConfig) (s : Checker) (env : Surroundings) : BbErr × Checker × List Effect :=
  finish s env env.response.err env.response.statusCode (extraction cfg s env.response)

section

variable {cfg : BuildConfig} {s : Checker} {env : Surroundings}

/-- Without a fetch nothing of the state changes, and no hook is called. -/
theorem runOne_of_not_ready (h : ¬ Ready s env) : (runOne cfg s env).2 = (s, []) := by
  unfold runOne
  by_cases hinit : s.initialized = true
  swap
  · rw [if_pos (by simpa using hinit)]
  by_cases henabled : env.enabled = true
  swap
  · rw [if_neg (by simpa using hinit), if_pos (by simpa using henabled)]
  rw [if_neg (by simpa using hinit), if_neg (by simpa using henabled)]
  dsimp only
  by_cases hurl : s.url = []
  · rw [if_pos hurl]
  rw [if_neg hurl]
  cases hparser : s.parser with
  | github =>
    apply absurd _ h
    refine ⟨hinit, henabled, hurl, ?_⟩
    intro p hp
    rw [hparser] at hp
    cases hp
  | custom p =>
    by_cases hmemory : env.memory = true
    · apply absurd _ h
      exact ⟨hinit, henabled, hurl, fun _ _ => hmemory⟩
    · dsimp only
      rw [if_pos (by simpa using hmemory)]

/-- A refusal changes nothing, and is the one hook call. -/
theorem runOne_of_refused (h : Ready s env) (hrefused : Refused s env) :
    runOne cfg s env = (.invalidState, s, [.pause false]) := by
  rcases h with ⟨hinit, henabled, hurl, hmemory⟩
  have hcond : s.pauseHook = true ∧ (!env.pauseAnswer) = true := by simpa [Refused] using hrefused
  have hcaps : ¬ (tagBuf.cap < 2 ∨ urlBuf.cap < 2) := by decide
  unfold runOne
  rw [if_neg (by simpa using hinit), if_neg (by simpa using henabled)]
  dsimp only
  rw [if_neg hurl]
  cases hparser : s.parser with
  | github =>
    rw [parseGithubStreamBegin, if_neg hcaps]
    dsimp only
    rw [if_pos hcond]
  | custom p =>
    dsimp only
    rw [if_neg (by simpa using hmemory p hparser), if_pos hcond]

/-! ## The streaming way -/

theorem feedChunks_cons_of_ok {σ : Type} {cb : σ → Bytes → σ × BbErr} {t t' : σ} {chunk : Bytes}
    (h : cb t chunk = (t', .ok)) (chunks : List Bytes) :
    feedChunks cb t (chunk :: chunks) = feedChunks cb t' chunks := by
  rw [feedChunks, h]

theorem feedChunks_cons_of_error {σ : Type} {cb : σ → Bytes → σ × BbErr} {t t' : σ} {chunk : Bytes}
    {e : BbErr} (h : cb t chunk = (t', e)) (he : e ≠ .ok) (chunks : List Bytes) :
    feedChunks cb t (chunk :: chunks) = (t', e) := by
  rw [feedChunks, h]
  cases e <;> first | exact absurd rfl he | rfl

theorem getStream_of_ok {σ : Type} {cb : σ → Bytes → σ × BbErr} {t t' : σ} {r : Response}
    (h : feedChunks cb t r.chunks = (t', .ok)) : getStream cb t r = (t', r.err, r.statusCode) := by
  rw [getStream, h]

theorem getStream_of_error {σ : Type} {cb : σ → Bytes → σ × BbErr} {t t' : σ} {r : Response}
    {e : BbErr} (h : feedChunks cb t r.chunks = (t', e)) (he : e ≠ .ok) :
    getStream cb t r = (t', e, r.statusCode) := by
  rw [getStream, h]
  cases e <;> first | exact absurd rfl he | rfl

/-- A stream is fed to its end, or given up at a full buffer. -/
theorem feedChunks_stream (cfg : SerializeJson.Kconfig) (ctx : StreamState) (chunks : List Bytes) :
    feedChunks (parseGithubStreamFeed cfg) ctx chunks =
        (parseGithubStreamFeeds cfg ctx chunks, .ok) ∨
      (feedChunks (parseGithubStreamFeed cfg) ctx chunks).2 ≠ .ok ∧
        (parseGithubStreamFeeds cfg ctx chunks).Full := by
  induction chunks generalizing ctx with
  | nil => exact Or.inl rfl
  | cons chunk chunks ih =>
    have hfeeds : parseGithubStreamFeeds cfg ctx (chunk :: chunks) =
        parseGithubStreamFeeds cfg (parseGithubStreamFeed cfg ctx chunk).1 chunks := rfl
    have hfull := @ReleaseManifest.full_of_feed cfg ctx chunk
    rw [hfeeds]
    rcases hfeed : parseGithubStreamFeed cfg ctx chunk with ⟨ctx', e⟩
    rw [hfeed] at hfull
    by_cases he : e = .ok
    · subst he
      rw [feedChunks_cons_of_ok hfeed]
      exact ih ctx'
    · right
      have hlatched := hfull he
      rw [feedChunks_cons_of_error hfeed he]
      dsimp only at hlatched ⊢
      rw [hlatched.feeds]
      exact ⟨he, hlatched⟩

/-- With a parse that fails, a check ends like one whose fetch has failed. -/
theorem finish_of_parse_failed {err : BbErr} {statusCode : Int} {x : Extract} (hx : x.rc ≠ .ok) :
    (finish s env err statusCode x).1 ≠ .ok ∧
      (finish s env err statusCode x).2 =
        ({ s with status := s.status.failedAt env.nowUs }, hookCalls s) := by
  unfold finish
  by_cases hfailed : fetchFailed err statusCode = true
  · rw [if_pos hfailed]
    refine ⟨?_, rfl⟩
    dsimp only
    split
    · decide
    · assumption
  · rw [if_neg hfailed]
    unfold conclude
    rw [if_pos hx]
    dsimp only
    rw [List.append_nil]
    exact ⟨hx, rfl⟩

theorem finish_of_fetch_failed {err : BbErr} {statusCode : Int} {x : Extract}
    (h : fetchFailed err statusCode = true) :
    (finish s env err statusCode x).1 ≠ .ok ∧
      (finish s env err statusCode x).2 =
        ({ s with status := s.status.failedAt env.nowUs }, hookCalls s) := by
  unfold finish
  rw [if_pos h]
  refine ⟨?_, rfl⟩
  dsimp only
  split
  · decide
  · assumption

/-! ## The buffered way -/

/-- The buffer takes what fits of a body, and no chunk is refused. -/
theorem feedChunks_buffer {cap : Nat} {bc : Bytes × Bool} (chunks : List Bytes)
    (hroom : bc.1.length ≤ cap) (hfull : bc.2 = true → bc.1.length = cap) :
    ∃ overflow, feedChunks (bufChunk cap) bc chunks =
      (((bc.1 ++ chunks.flatten).take cap, overflow), .ok) := by
  induction chunks generalizing bc with
  | nil =>
    refine ⟨bc.2, ?_⟩
    rw [feedChunks, List.flatten_nil, List.append_nil, List.take_of_length_le hroom]
  | cons chunk chunks ih =>
    rw [feedChunks, bufChunk]
    by_cases hover : bc.2 = true
    · rcases ih hroom hfull with ⟨overflow, hrest⟩
      refine ⟨overflow, ?_⟩
      rw [if_pos hover]
      dsimp only
      rw [hrest, List.take_append_of_le_length (by rw [hfull hover]),
        List.take_append_of_le_length (by rw [hfull hover])]
    · rw [if_neg hover]
      dsimp only
      have hroom' : (bc.1 ++ chunk.take (cap - bc.1.length)).length ≤ cap := by
        rw [List.length_append, List.length_take]
        omega
      have hfull' : decide (cap - bc.1.length < chunk.length) = true →
          (bc.1 ++ chunk.take (cap - bc.1.length)).length = cap := by
        intro hlt
        have hlt := of_decide_eq_true hlt
        rw [List.length_append, List.length_take]
        omega
      rcases @ih (bc.1 ++ chunk.take (cap - bc.1.length),
        decide (cap - bc.1.length < chunk.length)) hroom' hfull' with ⟨overflow, hrest⟩
      refine ⟨overflow, ?_⟩
      rw [hrest]
      congr 2
      rw [List.flatten_cons]
      by_cases hlt : cap - bc.1.length < chunk.length
      · rw [List.take_append_of_le_length (by rw [hfull' (decide_eq_true hlt)]),
          List.take_of_length_le hroom', ← List.append_assoc,
          List.take_append_of_le_length (by rw [List.length_append]; omega),
          List.take_append, List.take_of_length_le hroom]
      · rw [List.take_of_length_le (Nat.not_lt.mp hlt), List.append_assoc]

/-! ## Both -/

/-- The default parser is fed while the response comes in. -/
theorem runOne_github (h : Ready s env) (hrun : ¬ Refused s env) (hparser : s.parser = .github) :
    runOne cfg s env =
      let ctx : StreamState :=
        { sink := ReleaseManifest.sinkInit s.boardName tagBuf urlBuf
          scan := SerializeJson.scanBegin }
      let fetched := getStream (parseGithubStreamFeed cfg.json) ctx env.response
      finish s env fetched.2.1 fetched.2.2 (parseGithubStreamEnd fetched.1) := by
  rcases h with ⟨hinit, henabled, hurl, _⟩
  have hrun : ¬ (s.pauseHook = true ∧ (!env.pauseAnswer) = true) := by simpa [Refused] using hrun
  have hcaps : ¬ (tagBuf.cap < 2 ∨ urlBuf.cap < 2) := by decide
  unfold runOne
  rw [if_neg (by simpa using hinit), if_neg (by simpa using henabled)]
  dsimp only
  rw [if_neg hurl, hparser, parseGithubStreamBegin, if_neg hcaps]
  dsimp only
  rw [if_neg hrun]
  rfl

/-- Another parser gets the buffered response. -/
theorem runOne_custom {p : CustomParser} (h : Ready s env) (hrun : ¬ Refused s env)
    (hparser : s.parser = .custom p) :
    runOne cfg s env =
      let fetched := getStream (bufChunk cfg.bufSize) ([], false) env.response
      finish s env fetched.2.1 fetched.2.2
        (p.parse fetched.1.1 s.boardName tagBuf.cap urlBuf.cap) := by
  rcases h with ⟨hinit, henabled, hurl, hmemory⟩
  have hrun : ¬ (s.pauseHook = true ∧ (!env.pauseAnswer) = true) := by simpa [Refused] using hrun
  unfold runOne
  rw [if_neg (by simpa using hinit), if_neg (by simpa using henabled)]
  dsimp only
  rw [if_neg hurl, hparser]
  dsimp only
  rw [if_neg (by simpa using hmemory p hparser), if_neg hrun]
  rfl

/-- A check that gets to its fetch, in terms of the parse of the whole response. -/
theorem runOne_of_fetches (h : Ready s env) (hrun : ¬ Refused s env) :
    (runOne cfg s env).2 = (verdict cfg s env).2 ∧
      ((runOne cfg s env).1 = .ok ↔ (verdict cfg s env).1 = .ok) := by
  unfold verdict extraction
  cases hparser : s.parser with
  | github =>
    rw [runOne_github h hrun hparser]
    have hcaps : ¬ (tagBuf.cap < 2 ∨ urlBuf.cap < 2) := by decide
    dsimp only
    rw [parseGithubStream, parseGithubStreamBegin, if_neg hcaps]
    dsimp only
    rcases feedChunks_stream cfg.json
      { sink := ReleaseManifest.sinkInit s.boardName tagBuf urlBuf
        scan := SerializeJson.scanBegin } env.response.chunks with hfed | ⟨hstopped, hfull⟩
    · rw [getStream_of_ok hfed]
      exact ⟨rfl, Iff.rfl⟩
    · -- given up: the fetch has failed, and the parse of the whole fails too
      have hparse := ReleaseManifest.parseGithubStreamEnd_of_full hfull
      have hfailed := @finish_of_parse_failed s env env.response.err env.response.statusCode _
        (by rw [hparse]; decide)
      rcases hfed : feedChunks (parseGithubStreamFeed cfg.json)
        { sink := ReleaseManifest.sinkInit s.boardName tagBuf urlBuf
          scan := SerializeJson.scanBegin } env.response.chunks with ⟨ctx, e⟩
      rw [hfed] at hstopped
      have hfetch : fetchFailed e env.response.statusCode = true := by
        unfold fetchFailed
        exact decide_eq_true (Or.inl hstopped)
      have hended := @finish_of_fetch_failed s env e env.response.statusCode
        (parseGithubStreamEnd ctx) hfetch
      rw [getStream_of_error hfed hstopped]
      constructor
      · rw [hfailed.2]
        exact hended.2
      · constructor
        · intro hok
          exact absurd hok hended.1
        · intro hok
          exact absurd hok hfailed.1
  | custom p =>
    rw [runOne_custom h hrun hparser]
    rcases @feedChunks_buffer cfg.bufSize ([], false) env.response.chunks (Nat.zero_le _)
      (fun hover => by cases hover) with ⟨overflow, hfed⟩
    rw [getStream_of_ok hfed]
    exact ⟨rfl, Iff.rfl⟩

end

end OtaCheck
end Breadboard
