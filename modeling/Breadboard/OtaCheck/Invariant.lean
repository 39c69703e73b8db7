import Breadboard.Foundations.Runs
import Breadboard.OtaCheck.RunOne

/-!
# bb_ota_check - the status over whole runs

The status is written by every check and by `bb_ota_check_mark_check_on_apply`.  Whatever
the calls and their order, a release it announces is the one of a single response, and a
check that comes to nothing leaves the announcement alone.

The values are C strings: a version or URL in which the response escapes a NUL ends there.

Main results:

- Theorem `available_of_conclude`: what a parse must be to announce a release.
- Theorem `status_invariant`: the status and the hook calls, in every reachable state.
-/

namespace Breadboard
namespace OtaCheck

open Foundations (run run_provenance)
open ReleaseManifest (Extract foundTag foundUrl parseGithubStream_complete)

/-! ## Calls -/

/-- A call of the component. -/
inductive Op where
  | init (running : Bytes) (registered : Bool)
  | setReleasesUrl (url : Bytes)
  | setParser (fn : Option CustomParser)
  | setFirmwareBoard (board : Bytes)
  | setHooks (pause resume : Bool)
  | markCheckOnApply
  | runOne (env : Surroundings)

/-- The state after a call. -/
def step (cfg : BuildConfig) (s : Checker) : Op → Checker
  | .init running registered => init s running registered
  | .setReleasesUrl url => setReleasesUrl s url
  | .setParser fn => setParser s fn
  | .setFirmwareBoard board => setFirmwareBoard s board
  | .setHooks pause resume => setHooks s pause resume
  | .markCheckOnApply => (markCheckOnApply s).2
  | .runOne env => (runOne cfg s env).2.1

/-- The static state before any call. -/
def boot : Checker :=
  { initialized := false
    url := []
    firmwareBoard := []
    parser := .github
    pauseHook := false
    resumeHook := false
    status := ⟨[], [], [], 0, false, false, .unknown⟩
    firstCheckDone := false
    lastPublishTs := 0 }

/-! ## What is kept, and what is brought -/

/-- A status but for the fields that every check may write. -/
def Status.kept (st : Status) : Status :=
  { st with
    lastCheckUs := 0
    lastCheckOk := false
    outcome := .unknown }

/-- A check that is refused, fails to fetch or cannot parse, or does not start at all. -/
def Unsuccessful (cfg : BuildConfig) (s : Checker) (env : Surroundings) : Prop :=
  ¬ Ready s env ∨ Refused s env ∨
    fetchFailed env.response.err env.response.statusCode = true ∨
    (extraction cfg s env.response).rc ≠ .ok

/-- The check of a response that has brought an announcement. -/
structure Brought (cfg : BuildConfig) (s : Checker) (env : Surroundings)
    (current latest downloadUrl : Bytes) : Prop where
  successful : ¬ Unsuccessful cfg s env
  latest_eq : latest = cString (extraction cfg s env.response).tag
  downloadUrl_eq : downloadUrl = cString (extraction cfg s env.response).url
  downloadUrl_ne : downloadUrl ≠ []
  whole : s.parser = .github →
    foundTag cfg.json s.boardName env.response.chunks.flatten =
        some (extraction cfg s env.response).tag ∧
      foundUrl cfg.json s.boardName env.response.chunks.flatten =
        some (extraction cfg s env.response).url
  newer : ∀ x y z, PlainVersion current x y z → x < 2 ^ 31 → y < 2 ^ 31 → z < 2 ^ 31 →
    ∃ x' y' z', ReadsVersion latest x' y' z' ∧ Newer x y z x' y' z'

/-- A call of a hook. -/
def Effect.isHook : Effect → Bool
  | .publish .. => false
  | _ => true

/-- The hook calls of a check: after a grant one resume if there is a hook, after a refusal none. -/
structure HooksPaired (resumeHook : Bool) (effects : List Effect) : Prop where
  granted : .pause true ∈ effects →
    effects.filter Effect.isHook = .pause true :: if resumeHook then [.resume] else []
  refused : .pause false ∈ effects → effects = [.pause false]

section

variable {cfg : BuildConfig} {s : Checker} {env : Surroundings}

/-! ## Strings that fit -/

theorem strlcpy_eq_cString {src : Bytes} {size : Nat} (h : src.length < size) :
    strlcpy src size = cString src := by
  apply List.take_of_length_le
  have hcut : (cString src).length ≤ src.length := (List.takeWhile_prefix _).length_le
  omega

/-- What a parser returns is shorter than the buffers of a check. -/
theorem extraction_fits (cfg : BuildConfig) (s : Checker) (r : Response) :
    (extraction cfg s r).tag.length < tagBuf.cap ∧ (extraction cfg s r).url.length < urlBuf.cap := by
  unfold extraction
  cases s.parser with
  | github =>
    have hcomplete := @parseGithubStream_complete cfg.json s.boardName tagBuf urlBuf r.chunks
      (by decide) (by decide)
    exact ⟨hcomplete.tag_fits, hcomplete.url_fits⟩
  | custom p =>
    exact ⟨p.tag_fits _ _ _ _ (by decide) (by decide), p.url_fits _ _ _ _ (by decide) (by decide)⟩

/-- With the default parser a tag and a URL that are returned are those of the whole body. -/
theorem extraction_whole {r : Response} (hparser : s.parser = .github)
    (hok : (extraction cfg s r).rc = .ok) (hurl : (extraction cfg s r).url ≠ []) :
    foundTag cfg.json s.boardName r.chunks.flatten = some (extraction cfg s r).tag ∧
      foundUrl cfg.json s.boardName r.chunks.flatten = some (extraction cfg s r).url := by
  unfold extraction at hok hurl ⊢
  rw [hparser] at hok hurl ⊢
  have hcomplete := @parseGithubStream_complete cfg.json s.boardName tagBuf urlBuf r.chunks
    (by decide) (by decide)
  refine ⟨hcomplete.tag hok, ?_⟩
  rcases hcomplete.url hok with hempty | hfound
  · exact absurd hempty hurl
  · exact hfound

/-! ## One check -/

/-- A release is announced after a parse only if its version compares greater. -/
theorem available_of_conclude {x : Extract} (hok : x.rc = .ok)
    (h : (conclude s env x).2.1.status.available = true) :
    cString x.url ≠ [] ∧ 0 < semverCompare (cString x.tag) s.status.current ∧
      (conclude s env x).2.1.status.kept =
        { s.status with
          latest := strlcpy x.tag versionBuf
          downloadUrl := strlcpy x.url urlMax
          available := true }.kept := by
  unfold conclude at h ⊢
  rw [if_neg (not_not_intro hok)] at h ⊢
  by_cases hurl : cString x.url = []
  · rw [if_pos hurl] at h
    cases h
  · rw [if_neg hurl] at h ⊢
    have hgreater : semverCompare (cString x.tag) s.status.current ≠ intMin ∧
        0 < semverCompare (cString x.tag) s.status.current := of_decide_eq_true h
    refine ⟨hurl, hgreater.2, ?_⟩
    dsimp only [publishState, Status.kept] at h ⊢
    rw [h]

/-- Only the hooks are called before a publication, and only they. -/
theorem filter_isHook_hookCalls (s : Checker) :
    (hookCalls s).filter Effect.isHook = hookCalls s := by
  unfold hookCalls
  cases s.pauseHook <;> cases s.resumeHook <;> rfl

theorem filter_isHook_conclude (s : Checker) (env : Surroundings) (x : Extract) :
    (conclude s env x).2.2.filter Effect.isHook = [] := by
  unfold conclude
  split
  · rfl
  · split
    · rfl
    · rfl

theorem filter_isHook_finish (s : Checker) (env : Surroundings) (err : BbErr) (statusCode : Int)
    (x : Extract) : (finish s env err statusCode x).2.2.filter Effect.isHook = hookCalls s := by
  unfold finish
  split
  · exact filter_isHook_hookCalls s
  · dsimp only
    rw [List.filter_append, filter_isHook_hookCalls, filter_isHook_conclude, List.append_nil]

/-- A check that comes to nothing. -/
theorem runOne_of_unsuccessful (h : Unsuccessful cfg s env) :
    (runOne cfg s env).2.1 = { s with status := (runOne cfg s env).2.1.status } ∧
      (runOne cfg s env).2.1.status.kept = s.status.kept := by
  by_cases hready : Ready s env
  swap
  · rw [runOne_of_not_ready hready]
    exact ⟨rfl, rfl⟩
  by_cases hrefused : Refused s env
  · rw [runOne_of_refused hready hrefused]
    exact ⟨rfl, rfl⟩
  have hfailed : (verdict cfg s env).2 =
      ({ s with status := s.status.failedAt env.nowUs }, hookCalls s) := by
    rcases h with hnot | hrefusal | hfetch | hparse
    · exact absurd hready hnot
    · exact absurd hrefusal hrefused
    · exact (finish_of_fetch_failed hfetch).2
    · exact (finish_of_parse_failed hparse).2
  rw [(runOne_of_fetches hready hrefused).1, hfailed]
  exact ⟨rfl, rfl⟩

/-- Any other check follows its parse. -/
theorem runOne_of_successful (h : ¬ Unsuccessful cfg s env) :
    (runOne cfg s env).2.1 = (conclude s env (extraction cfg s env.response)).2.1 := by
  unfold Unsuccessful at h
  rw [not_or, not_or, not_or, not_not] at h
  rcases h with ⟨hready, hrefused, hfetched, _⟩
  rw [(runOne_of_fetches hready hrefused).1, verdict, finish, if_neg hfetched]

/-- A check after which a release is announced has brought it, or found it announced. -/
theorem runOne_available (h : (runOne cfg s env).2.1.status.available = true) :
    s.status.available = true ∧ (runOne cfg s env).2.1.status.kept = s.status.kept ∨
      Brought cfg s env (runOne cfg s env).2.1.status.kept.current
        (runOne cfg s env).2.1.status.kept.latest (runOne cfg s env).2.1.status.kept.downloadUrl := by
  by_cases hunsuccessful : Unsuccessful cfg s env
  · left
    have hkept := (runOne_of_unsuccessful hunsuccessful).2
    refine ⟨?_, hkept⟩
    exact (congrArg Status.available hkept).symm.trans h
  · right
    have hok : (extraction cfg s env.response).rc = .ok := by
      by_contra hnot
      exact hunsuccessful (Or.inr (Or.inr (Or.inr hnot)))
    have hfits := extraction_fits cfg s env.response
    rw [runOne_of_successful hunsuccessful] at h ⊢
    rcases available_of_conclude hok h with ⟨hurl, hgreater, hkept⟩
    have htag : strlcpy (extraction cfg s env.response).tag versionBuf =
        cString (extraction cfg s env.response).tag := by
      apply strlcpy_eq_cString
      have hcaps : tagBuf.cap ≤ versionBuf := by decide
      omega
    have hdownload : strlcpy (extraction cfg s env.response).url urlMax =
        cString (extraction cfg s env.response).url := strlcpy_eq_cString hfits.2
    rw [hkept, htag, hdownload]
    refine ⟨hunsuccessful, rfl, rfl, hurl, ?_, ?_⟩
    · intro hparser
      apply extraction_whole hparser hok
      intro hempty
      rw [hempty] at hurl
      exact hurl rfl
    · intro x y z hplain hx hy hz
      exact newer_of_semverCompare hgreater hplain hx hy hz

/-- The hook calls of a check. -/
theorem runOne_hooksPaired (cfg : BuildConfig) (s : Checker) (env : Surroundings) :
    HooksPaired s.resumeHook (runOne cfg s env).2.2 := by
  by_cases hready : Ready s env
  swap
  · rw [runOne_of_not_ready hready]
    exact ⟨fun h => absurd h List.not_mem_nil, fun h => absurd h List.not_mem_nil⟩
  by_cases hrefused : Refused s env
  · rw [runOne_of_refused hready hrefused]
    refine ⟨?_, fun _ => rfl⟩
    intro h
    cases List.mem_singleton.mp h
  rw [(runOne_of_fetches hready hrefused).1]
  have hhooks : (verdict cfg s env).2.2.filter Effect.isHook = hookCalls s :=
    filter_isHook_finish ..
  have hcalled : ∀ answer, Effect.pause answer ∈ (verdict cfg s env).2.2 →
      Effect.pause answer ∈ hookCalls s := by
    intro answer h
    rw [← hhooks]
    exact List.mem_filter.mpr ⟨h, rfl⟩
  constructor
  · intro h
    have hmem := hcalled true h
    rw [hhooks]
    unfold hookCalls at hmem ⊢
    cases hpause : s.pauseHook with
    | true => rfl
    | false =>
      rw [hpause] at hmem
      cases hresume : s.resumeHook with
      | true =>
        rw [hresume] at hmem
        cases List.mem_singleton.mp hmem
      | false =>
        rw [hresume] at hmem
        cases hmem
  · intro h
    have hmem := hcalled false h
    unfold hookCalls at hmem
    rcases List.mem_append.mp hmem with hpause | hresume
    · split at hpause
      · cases List.mem_singleton.mp hpause
      · cases hpause
    · split at hresume
      · cases List.mem_singleton.mp hresume
      · cases hresume

/-! ## Runs -/

/-- A setup leaves the status, or clears it. -/
theorem init_of_available {running : Bytes} {registered : Bool}
    (h : (init s running registered).status.available = true) : init s running registered = s := by
  unfold init at h ⊢
  by_cases hinit : s.initialized = true
  · rw [if_pos hinit]
  · rw [if_neg hinit] at h
    cases h

theorem markCheckOnApply_of_available (h : (markCheckOnApply s).2.status.available = true) :
    (markCheckOnApply s).2 = s := by
  unfold markCheckOnApply at h ⊢
  by_cases hinit : (!s.initialized) = true
  · rw [if_pos hinit]
  · rw [if_neg hinit] at h
    cases h

theorem setReleasesUrl_status (s : Checker) (url : Bytes) :
    (setReleasesUrl s url).status = s.status := by
  unfold setReleasesUrl
  split
  · rfl
  · rfl

theorem setParser_status (s : Checker) (fn : Option CustomParser) :
    (setParser s fn).status = s.status := by
  unfold setParser
  split
  · rfl
  · rfl

theorem setFirmwareBoard_status (s : Checker) (board : Bytes) :
    (setFirmwareBoard s board).status = s.status := by
  unfold setFirmwareBoard
  split
  · rfl
  · rfl

/-- A call after which a release is announced has brought it, or found it announced. -/
theorem step_available (cfg : BuildConfig) (s : Checker) (op : Op)
    (h : (step cfg s op).status.available = true) :
    s.status.available = true ∧ (step cfg s op).status.kept = s.status.kept ∨
      ∃ env, op = .runOne env ∧
        Brought cfg s env (step cfg s op).status.kept.current (step cfg s op).status.kept.latest
          (step cfg s op).status.kept.downloadUrl := by
  have hsame : (step cfg s op).status = s.status →
      s.status.available = true ∧ (step cfg s op).status.kept = s.status.kept := by
    intro hstatus
    rw [hstatus] at h ⊢
    exact ⟨h, rfl⟩
  cases op with
  | init running registered => exact Or.inl (hsame (congrArg Checker.status (init_of_available h)))
  | setReleasesUrl url => exact Or.inl (hsame (setReleasesUrl_status s url))
  | setParser fn => exact Or.inl (hsame (setParser_status s fn))
  | setFirmwareBoard board => exact Or.inl (hsame (setFirmwareBoard_status s board))
  | setHooks pause resume => exact Or.inl (hsame rfl)
  | markCheckOnApply =>
    exact Or.inl (hsame (congrArg Checker.status (markCheckOnApply_of_available h)))
  | runOne env =>
    rcases runOne_available h with hfound | hbrought
    · exact Or.inl hfound
    · exact Or.inr ⟨env, rfl, hbrought⟩

end

/--
After any calls, a release is announced only as one check of the run has brought it; a check
that comes to nothing writes no more than when it was, that it failed and how; and the hooks
of every check are paired.
-/
theorem status_invariant (cfg : BuildConfig) (ops : List Op) :
    let s := run (step cfg) boot ops
    (s.status.available = true →
      ∃ pre env post, ops = pre ++ .runOne env :: post ∧
        Brought cfg (run (step cfg) boot pre) env s.status.current s.status.latest
          s.status.downloadUrl) ∧
      ∀ env,
        (Unsuccessful cfg s env →
          (runOne cfg s env).2.1 = { s with status := (runOne cfg s env).2.1.status } ∧
            (runOne cfg s env).2.1.status.kept = s.status.kept) ∧
          (Refused s env → (runOne cfg s env).2.1 = s) ∧
          HooksPaired s.resumeHook (runOne cfg s env).2.2 := by
  intro s
  constructor
  · intro havailable
    have hbrought := @run_provenance Checker Op (step cfg) Status
      (fun s => s.status.available = true) (fun s => s.status.kept)
      (fun s op st => ∃ env, op = .runOne env ∧
        Brought cfg s env st.current st.latest st.downloadUrl)
      (step_available cfg) boot (by decide) ops havailable
    rcases hbrought with ⟨pre, op, post, hsplit, env, hop, hbrought⟩
    rw [hop] at hsplit
    exact ⟨pre, env, post, hsplit, hbrought⟩
  · intro env
    refine ⟨runOne_of_unsuccessful, ?_, runOne_hooksPaired cfg s env⟩
    intro hrefused
    by_cases hready : Ready s env
    · rw [runOne_of_refused hready hrefused]
    · rw [runOne_of_not_ready hready]

/-- A manifest for the default board; its tag has an escaped NUL. -/
def bodyNulInTag : Bytes :=
  [123, 34, 116, 97, 103, 95, 110, 97, 109, 101, 34, 58, 34, 49, 46, 50, 46, 52, 92, 117, 48, 48,
  48, 48, 120, 34, 44, 34, 97, 115, 115, 101, 116, 115, 34, 58, 91, 123, 34, 110, 97, 109, 101, 34,
  58, 34, 117, 110, 107, 110, 111, 119, 110, 46, 98, 105, 110, 34, 44, 34, 98, 114, 111, 119, 115,
  101, 114, 95, 100, 111, 119, 110, 108, 111, 97, 100, 95, 117, 114, 108, 34, 58, 34, 117, 34, 125,
  93, 125]

/-- A setup on version 1.2.0 with a pause hook alone. -/
def opsPauseOnly : List Op :=
  [.init [49, 46, 50, 46, 48] true, .setReleasesUrl [104], .setHooks true false]

/-- A check that fetches that manifest. -/
def envNulInTag : Surroundings :=
  { enabled := true
    pauseAnswer := true
    memory := true
    response := ⟨[bodyNulInTag], .ok, 200⟩
    nowUs := 1
    publishTs := 1 }

/-- The grant is followed by no resume, and the version announced is a part of the tag. -/
theorem resume_missing_tag_cut :
    let cfg : BuildConfig := ⟨.default, 8192⟩
    let s := run (step cfg) boot opsPauseOnly
    let checked := runOne cfg s envNulInTag
    .pause true ∈ checked.2.2 ∧ .resume ∉ checked.2.2 ∧
      checked.2.1.status.available = true ∧ checked.2.1.status.latest = [49, 46, 50, 46, 52] ∧
      foundTag .default s.boardName bodyNulInTag = some [49, 46, 50, 46, 52, 0, 120] := by
  decide +kernel

end OtaCheck
end Breadboard
