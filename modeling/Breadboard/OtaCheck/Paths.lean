import Breadboard.OtaCheck.RunOne

/-!
# bb_ota_check - the streaming and the buffered way

The parser of this repository takes the streaming way; the same parser behind a function of
the consumer takes the buffered one.  On a response that fits the buffer both ways leave the
same status and publish the same, however the response is cut: they only differ in the
clocks, and in which error a response ends with that neither accepts.

Main results:

- Theorem `paths_agree`: the two ways on the same response.
-/

namespace Breadboard
namespace OtaCheck

open ReleaseManifest (Agree parseGithub parseGithub_complete parsers_agree)

/-- A parser of the consumer that calls `bb_release_manifest_parse_github`. -/
def githubParser (cfg : SerializeJson.Kconfig) : CustomParser where
  parse body board tagCap urlCap := parseGithub cfg body board ⟨[], tagCap⟩ ⟨[], urlCap⟩
  tag_fits body board tagCap urlCap htag hurl :=
    (@parseGithub_complete cfg board ⟨[], tagCap⟩ ⟨[], urlCap⟩ body htag hurl).tag_fits
  url_fits body board tagCap urlCap htag hurl :=
    (@parseGithub_complete cfg board ⟨[], tagCap⟩ ⟨[], urlCap⟩ body htag hurl).url_fits

/-! ## Up to the clocks -/

/-- A status without the time of the check. -/
def Status.timeless (st : Status) : Status :=
  { st with lastCheckUs := 0 }

/-- An effect without the times in it. -/
def Effect.timeless : Effect → Effect
  | .publish txt snap _ => .publish txt snap.timeless 0
  | e => e

/-- The same around a check but for the clocks, the memory and how the body is cut. -/
structure Surroundings.Alike (env env' : Surroundings) : Prop where
  enabled : env'.enabled = env.enabled
  pauseAnswer : env'.pauseAnswer = env.pauseAnswer
  body : env'.response.chunks.flatten = env.response.chunks.flatten
  err : env'.response.err = env.response.err
  statusCode : env'.response.statusCode = env.response.statusCode

/-- Two checks end alike: in the status, the first-check flag and the effects. -/
structure EndAlike (x y : Checker × List Effect) : Prop where
  status : y.1.status.timeless = x.1.status.timeless
  firstCheckDone : y.1.firstCheckDone = x.1.firstCheckDone
  effects : y.2.map Effect.timeless = x.2.map Effect.timeless

section

variable {s : Checker} {env env' : Surroundings}

/-- The parser is only asked for its result. -/
theorem conclude_alike (p q : Parser) (x : ReleaseManifest.Extract) :
    EndAlike (conclude { s with parser := p } env x).2 (conclude { s with parser := q } env' x).2 := by
  unfold conclude
  split
  · exact ⟨rfl, rfl, rfl⟩
  · split
    · exact ⟨rfl, rfl, rfl⟩
    · exact ⟨rfl, rfl, rfl⟩

theorem finish_alike (p q : Parser) (err : BbErr) (statusCode : Int) (x : ReleaseManifest.Extract) :
    EndAlike (finish { s with parser := p } env err statusCode x).2
      (finish { s with parser := q } env' err statusCode x).2 := by
  unfold finish
  split
  · exact ⟨rfl, rfl, rfl⟩
  · have hconclude := @conclude_alike s env env' p q x
    refine ⟨hconclude.status, hconclude.firstCheckDone, ?_⟩
    rw [List.map_append, List.map_append, hconclude.effects]
    rfl

/-- Two parses that fail end alike, whichever error they fail with. -/
theorem finish_alike_of_failed (p q : Parser) (err : BbErr) (statusCode : Int)
    {x y : ReleaseManifest.Extract} (hx : x.rc ≠ .ok) (hy : y.rc ≠ .ok) :
    EndAlike (finish { s with parser := p } env err statusCode x).2
      (finish { s with parser := q } env' err statusCode y).2 := by
  rw [(finish_of_parse_failed hx).2, (finish_of_parse_failed hy).2]
  exact ⟨rfl, rfl, rfl⟩

/-- Parsers that agree end alike. -/
theorem finish_alike_of_agree (p q : Parser) (err : BbErr) (statusCode : Int)
    {cfg : SerializeJson.Kconfig} {body : Bytes} {x y : ReleaseManifest.Extract}
    (h : Agree cfg body y x) :
    EndAlike (finish { s with parser := p } env err statusCode x).2
      (finish { s with parser := q } env' err statusCode y).2 := by
  rcases h with hsame | ⟨hstreamed, hbuffered⟩
  · rw [hsame]
    exact finish_alike p q err statusCode y
  · apply finish_alike_of_failed p q err statusCode
    · rw [hstreamed]
      decide
    · rcases hbuffered with hfull | ⟨hnotFound, _⟩
      · rw [hfull]
        decide
      · rw [hnotFound]
        decide

/-- With memory, the way does not matter for whether a check gets to its fetch. -/
theorem ready_iff (halike : env.Alike env') (hmemory : env'.memory = true) (q : CustomParser) :
    Ready { s with parser := .custom q } env' ↔ Ready { s with parser := .github } env := by
  unfold Ready
  rw [halike.enabled]
  constructor
  · intro h
    refine ⟨h.1, h.2.1, h.2.2.1, ?_⟩
    intro p hp
    cases hp
  · intro h
    exact ⟨h.1, h.2.1, h.2.2.1, fun _ _ => hmemory⟩

end

/-! ## The two ways -/

/--
The streaming way and the buffered way, with the same parser, the same state and the same
response that fits the buffer: each cut in its own way and at its own time.
-/
theorem paths_agree (cfg : BuildConfig) (s : Checker) {env env' : Surroundings}
    (halike : env.Alike env') (hmemory : env'.memory = true)
    (hfits : env.response.chunks.flatten.length ≤ cfg.bufSize) :
    EndAlike (runOne cfg { s with parser := .github } env).2
      (runOne cfg { s with parser := .custom (githubParser cfg.json) } env').2 := by
  have hready := @ready_iff s env env' halike hmemory (githubParser cfg.json)
  by_cases hstreamed : Ready { s with parser := .github } env
  swap
  · have hbuffered := mt hready.mp hstreamed
    rw [runOne_of_not_ready hstreamed, runOne_of_not_ready hbuffered]
    exact ⟨rfl, rfl, rfl⟩
  have hbuffered := hready.mpr hstreamed
  by_cases hrefused : Refused { s with parser := .github } env
  · have hrefused' : Refused { s with parser := .custom (githubParser cfg.json) } env' :=
      ⟨hrefused.1, halike.pauseAnswer.trans hrefused.2⟩
    rw [runOne_of_refused hstreamed hrefused, runOne_of_refused hbuffered hrefused']
    exact ⟨rfl, rfl, rfl⟩
  · have hrefused' : ¬ Refused { s with parser := .custom (githubParser cfg.json) } env' := by
      intro h
      exact hrefused ⟨h.1, halike.pauseAnswer.symm.trans h.2⟩
    rw [(runOne_of_fetches hstreamed hrefused).1, (runOne_of_fetches hbuffered hrefused').1]
    unfold verdict
    rw [halike.err, halike.statusCode]
    apply finish_alike_of_agree
    have hbody : buffered cfg env'.response = env.response.chunks.flatten := by
      rw [buffered, halike.body, List.take_of_length_le hfits]
    have hagree := @parsers_agree cfg.json s.boardName env.response.chunks tagBuf urlBuf
      (by decide) (by decide)
    rw [← hbody] at hagree
    exact hagree

/-- A manifest with a release and no assets, cut in two ways. -/
def manifestChunks : List Bytes :=
  [[123, 34, 116, 97, 103, 95, 110, 97, 109, 101, 34, 58, 34, 49, 46],
   [50, 46, 51, 34, 44, 34, 97, 115, 115, 101, 116, 115, 34, 58, 91, 93, 125]]

def manifestEnv (chunks : List Bytes) (nowUs publishTs : Int) : Surroundings :=
  { enabled := true
    pauseAnswer := true
    memory := true
    response := ⟨chunks, .ok, 200⟩
    nowUs := nowUs
    publishTs := publishTs }

/-- A checker on version 1.2.0 with both hooks. -/
def manifestChecker : Checker :=
  { initialized := true
    url := [104, 116, 116, 112]
    firmwareBoard := []
    parser := .github
    pauseHook := true
    resumeHook := true
    status := ⟨[49, 46, 50, 46, 48], [], [], 0, false, false, .unknown⟩
    firstCheckDone := false
    lastPublishTs := 0 }

theorem paths_agree_cut :
    EndAlike (runOne ⟨.default, 8192⟩ manifestChecker (manifestEnv manifestChunks 7 8)).2
      (runOne ⟨.default, 8192⟩
        { manifestChecker with parser := .custom (githubParser .default) }
        (manifestEnv [manifestChunks.flatten] 9 10)).2 :=
  @paths_agree ⟨.default, 8192⟩ manifestChecker (manifestEnv manifestChunks 7 8)
    (manifestEnv [manifestChunks.flatten] 9 10) ⟨rfl, rfl, rfl, rfl, rfl⟩ rfl (by decide)

end OtaCheck
end Breadboard
