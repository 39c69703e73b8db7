import Breadboard.ReleaseManifest.Whole

/-!
# bb_release_manifest - what a successful parse returns

When a parser returns without an error, its tag is the whole tag of the stream and its URL
is empty or the whole URL.  Its strings always fit the buffers.  A feed that fails latches,
so a stream that is given up there ends as the whole stream would have.

Main results:

- Theorem `parseGithub_complete`, `parseGithubStream_complete`: the two parsers.
- Theorem `parseGithubStreamEnd_of_full`: a stream given up at a full buffer.
-/

namespace Breadboard
namespace ReleaseManifest

open SerializeJson (Call Kconfig Scan ScanState deliverCalls_cons_of_ok deliverCalls_cons_of_error
  deliverCalls_error)
open SerializeJson.Scan (deliverCalls)

/-! ## Strings fit -/

/-- The buffers have the given sizes and hold less. -/
structure Fits (tagCap urlCap : Nat) (t : SinkState) : Prop where
  tagSize : t.tagOut.cap = tagCap
  urlSize : t.urlOut.cap = urlCap
  tag : t.tagOut.text.length < tagCap
  url : t.urlOut.text.length < urlCap

section

variable {tagCap urlCap : Nat} {t t' : SinkState}

theorem Fits.of_outputs (h : Fits tagCap urlCap t) (hout : t'.outputs = t.outputs) :
    Fits tagCap urlCap t' := by
  simp only [SinkState.outputs, Prod.mk.injEq] at hout
  rcases hout with ⟨htag, hurl, _, _⟩
  constructor
  · rw [htag]
    exact h.tagSize
  · rw [hurl]
    exact h.urlSize
  · rw [htag]
    exact h.tag
  · rw [hurl]
    exact h.url

/-- An append leaves the size, and less than it in the buffer. -/
theorem sinkAppend_fits {dst : OutBuf} (chunk : Bytes) (h : dst.text.length < dst.cap) :
    (sinkAppend dst chunk).1.cap = dst.cap ∧
      (sinkAppend dst chunk).1.text.length < dst.cap := by
  unfold sinkAppend
  split
  · exact ⟨rfl, h⟩
  · split
    · exact ⟨rfl, h⟩
    · rename_i hroom
      refine ⟨rfl, ?_⟩
      rw [List.length_append]
      omega

theorem Fits.step (h : Fits tagCap urlCap t) (c : Call) : Fits tagCap urlCap (sinkIngest t c).1 := by
  by_cases hchunk : ∃ key chunk last p, c = .valueStrChunk key chunk last p
  · rcases hchunk with ⟨key, chunk, last, p, rfl⟩
    change Fits tagCap urlCap (sinkValueStrChunk t key chunk last).1
    by_cases htag : HearsTag t key
    · rw [sinkValueStrChunk_tag htag]
      have happend := @sinkAppend_fits t.tagOut chunk (h.tagSize ▸ h.tag)
      rcases sinkAppend_code t.tagOut chunk with hok | ⟨hfull, _⟩
      · rw [hok] at happend ⊢
        have hfits : ∀ found, Fits tagCap urlCap
            { t with
              tagOut := { t.tagOut with text := t.tagOut.text ++ chunk }
              tagFound := found } :=
          fun found => ⟨h.tagSize, h.urlSize, h.tagSize ▸ happend.2, h.url⟩
        cases last with
        | true => exact hfits true
        | false => exact hfits t.tagFound
      · rw [hfull]
        exact h
    by_cases hname : HearsName t key
    · rw [sinkValueStrChunk_name hname]
      exact ⟨h.tagSize, h.urlSize, h.tag, h.url⟩
    by_cases hurl : HearsUrl t key
    · rw [sinkValueStrChunk_url hurl]
      have happend := @sinkAppend_fits t.urlOut chunk (h.urlSize ▸ h.url)
      rcases sinkAppend_code t.urlOut chunk with hok | ⟨hfull, _⟩
      · rw [hok] at happend ⊢
        have hfits : ∀ found, Fits tagCap urlCap
            { t with
              urlOut := { t.urlOut with text := t.urlOut.text ++ chunk }
              urlFound := found } :=
          fun found => ⟨h.tagSize, h.urlSize, h.tag, h.urlSize ▸ happend.2⟩
        cases last with
        | true => exact hfits true
        | false => exact hfits t.urlFound
      · rw [hfull]
        exact h
    · rw [sinkValueStrChunk_other htag hname hurl]
      exact h.of_outputs (markIfAssetsScalar_outputs t key)
  · have hother : ∀ key chunk last p, c ≠ .valueStrChunk key chunk last p :=
      fun key chunk last p hc => hchunk ⟨key, chunk, last, p, hc⟩
    exact h.of_outputs (sinkIngest_outputs t hother).1

/-- A run of calls keeps what a call keeps. -/
theorem Fits.run (h : Fits tagCap urlCap t) (cs : List Call) :
    Fits tagCap urlCap (deliverCalls sinkIngest t cs).1 := by
  induction cs generalizing t with
  | nil => exact h
  | cons c cs ih =>
    have hstep := h.step c
    rcases hc : sinkIngest t c with ⟨t', e⟩
    rw [hc] at hstep
    by_cases he : e = .ok
    · subst he
      rw [deliverCalls_cons_of_ok hc]
      exact ih hstep
    · rw [deliverCalls_cons_of_error hc he]
      exact hstep

theorem fits_init (board : Bytes) {outTag outUrl : OutBuf} (htag : 0 < outTag.cap)
    (hurl : 0 < outUrl.cap) : Fits outTag.cap outUrl.cap (sinkInit board outTag outUrl) :=
  ⟨rfl, rfl, htag, hurl⟩

/-- What is returned is shorter than the buffers. -/
theorem Fits.finalize (h : Fits tagCap urlCap t) (rc : BbErr) :
    (sinkFinalize t rc).tag.length < tagCap ∧ (sinkFinalize t rc).url.length < urlCap := by
  have htag := h.tag
  have hurl := h.url
  have hzero : 0 < tagCap ∧ 0 < urlCap := by omega
  have hcleared : (if t.tagFound then t.tagOut.text else []).length < tagCap ∧
      (if t.urlFound then t.urlOut.text else []).length < urlCap := by
    constructor
    · split
      · exact htag
      · exact hzero.1
    · split
      · exact hurl
      · exact hzero.2
  unfold sinkFinalize
  split
  · exact ⟨htag, hurl⟩
  · split
    · exact ⟨htag, hurl⟩
    · dsimp only
      split
      · exact hcleared
      · split
        · exact hcleared
        · exact hcleared

end

/-! ## Success -/

/-- With the code of success the tag was found, and the URL too unless it is empty. -/
theorem found_of_finalize {t : SinkState} {rc : BbErr}
    (hdone : rc = sinkDone → t.tagFound = true ∧ t.urlFound = true)
    (hok : (sinkFinalize t rc).rc = .ok) :
    (t.tagFound = true ∧ (sinkFinalize t rc).tag = t.tagOut.text) ∧
      ((sinkFinalize t rc).url = [] ∨
        t.urlFound = true ∧ (sinkFinalize t rc).url = t.urlOut.text) := by
  unfold sinkFinalize at hok ⊢
  split
  · rename_i hrc
    rcases hdone hrc with ⟨htag, hurl⟩
    exact ⟨⟨htag, rfl⟩, Or.inr ⟨hurl, rfl⟩⟩
  rename_i hnot
  rw [if_neg hnot] at hok
  split
  · rename_i hrc
    rw [if_pos hrc] at hok
    cases hok
  rename_i hnot
  rw [if_neg hnot] at hok
  dsimp only at hok ⊢
  split
  · rename_i hrc
    rw [if_pos hrc] at hok
    cases hok
  rename_i hnot
  rw [if_neg hnot] at hok
  split
  · rename_i hshape
    rw [if_pos hshape] at hok
    cases hok
  rename_i hnot
  rw [if_neg hnot] at hok
  cases htag : t.tagFound with
  | false =>
    rw [htag] at hok
    cases hok
  | true =>
    refine ⟨⟨rfl, rfl⟩, ?_⟩
    cases hurl : t.urlFound with
    | false => exact Or.inl rfl
    | true => exact Or.inr ⟨rfl, rfl⟩

/-- The sink stops a scan only when it has both values. -/
theorem outcome_done {α : Type} {x : Scan α} {next : α → SerializeJson.Gathering → Prop}
    (hx : SerializeJson.Unbroken none x next) {t₀ : SinkState}
    (hdone : (SerializeJson.outcome sinkIngest t₀ x).2 = sinkDone) :
    (SerializeJson.outcome sinkIngest t₀ x).1.tagFound = true ∧
      (SerializeJson.outcome sinkIngest t₀ x).1.urlFound = true := by
  rcases hx with ⟨evs, g', _, _, hfails⟩
  rcases hd : deliverCalls sinkIngest t₀ x.calls with ⟨t, e⟩
  by_cases he : e = .ok
  · subst he
    rw [SerializeJson.outcome_of_ok hd] at hdone
    cases hresult : x.result with
    | ok a =>
      rw [hresult] at hdone
      cases hdone
    | error e =>
      rw [hresult] at hdone
      change e = sinkDone at hdone
      have hfail := hfails e hresult
      rw [hdone] at hfail
      cases hfail
  · rw [SerializeJson.outcome_of_error hd he] at hdone ⊢
    rcases deliverCalls_error hd he with ⟨pre, c, post, s, _, _, hc⟩
    rcases sinkIngest_code s c with h | h | ⟨_, htag, hurl⟩
    · rw [hc] at h
      exact absurd h he
    · rw [hc] at h
      change e = sinkDone at hdone
      rw [hdone] at h
      cases h
    · rw [hc] at htag hurl
      exact ⟨htag, hurl⟩

/-- What a parser returns: strings that fit, and with success the values of the stream. -/
structure Complete (cfg : Kconfig) (board body : Bytes) (tagCap urlCap : Nat) (e : Extract) :
    Prop where
  tag_fits : e.tag.length < tagCap
  url_fits : e.url.length < urlCap
  tag : e.rc = .ok → foundTag cfg board body = some e.tag
  url : e.rc = .ok → e.url = [] ∨ foundUrl cfg board body = some e.url

/-- The end of a scan of a body, in terms of what is found in the body. -/
theorem complete_of_outcome {α : Type} {x : Scan α} {next : α → SerializeJson.Gathering → Prop}
    (hx : SerializeJson.Unbroken none x next) {cfg : Kconfig} {board body : Bytes}
    {outTag outUrl : OutBuf} (htag : 0 < outTag.cap) (hurl : 0 < outUrl.cap)
    (hkept : Kept (SerializeJson.outcome sinkIngest (sinkInit board outTag outUrl) x).1
      (readAll cfg board body)) :
    Complete cfg board body outTag.cap outUrl.cap
      (sinkFinalize (SerializeJson.outcome sinkIngest (sinkInit board outTag outUrl) x).1
        (SerializeJson.outcome sinkIngest (sinkInit board outTag outUrl) x).2) := by
  have hfits : Fits outTag.cap outUrl.cap
      (SerializeJson.outcome sinkIngest (sinkInit board outTag outUrl) x).1 := by
    rw [SerializeJson.outcome_fst]
    exact (fits_init board htag hurl).run x.calls
  have hfound := @found_of_finalize _ _
    (@outcome_done α x next hx (sinkInit board outTag outUrl))
  refine ⟨(hfits.finalize _).1, (hfits.finalize _).2, ?_, ?_⟩
  · intro hok
    rcases (hfound hok).1 with ⟨hflag, heq⟩
    rcases hkept.tag hflag with ⟨hflag', htext⟩
    rw [foundTag, if_pos hflag', htext, heq]
  · intro hok
    rcases (hfound hok).2 with hempty | ⟨hflag, heq⟩
    · exact Or.inl hempty
    · rcases hkept.url hflag with ⟨hflag', htext⟩
      rw [foundUrl, if_pos hflag', htext, heq]
      exact Or.inr rfl

section

variable (cfg : Kconfig) (board : Bytes) {outTag outUrl : OutBuf}

theorem parseGithub_complete (body : Bytes) (htag : 0 < outTag.cap) (hurl : 0 < outUrl.cap) :
    Complete cfg board body outTag.cap outUrl.cap (parseGithub cfg body board outTag outUrl) := by
  have hunbroken := @SerializeJson.streamScan_unbroken cfg _ _
    (SerializeJson.holding_none (SerializeJson.scanBeginInternal true)) [body]
  rw [parseGithub_outcome cfg board outTag outUrl htag hurl]
  apply complete_of_outcome hunbroken htag hurl
  have hkept := (deliverCalls_unbounded (rfl : deliverCalls sinkIngest
    (sinkInit board outTag outUrl) (boundedScan cfg body).calls = _)).1
  rw [readAll_eq cfg board outTag outUrl, SerializeJson.outcome_fst, SerializeJson.outcome_fst]
  exact ⟨hkept.tag, hkept.url⟩

theorem parseGithubStream_complete (chunks : List Bytes) (htag : 2 ≤ outTag.cap)
    (hurl : 2 ≤ outUrl.cap) :
    Complete cfg board chunks.flatten outTag.cap outUrl.cap
      (parseGithubStream cfg chunks board outTag outUrl) := by
  have hunbroken := @SerializeJson.streamScan_unbroken cfg _ _
    (SerializeJson.holding_none SerializeJson.scanBegin) chunks
  rw [parseGithubStream_outcome cfg board chunks outTag outUrl htag hurl]
  apply complete_of_outcome hunbroken (by omega) (by omega)
  have hkept := (deliverCalls_unbounded (rfl : deliverCalls sinkIngest
    (sinkInit board outTag outUrl) (chunkedScan cfg chunks).calls = _)).1
  have hread := kept_readAll cfg board chunks outTag outUrl
  rw [SerializeJson.outcome_fst] at hread ⊢
  exact Kept.trans ⟨hkept.tag, hkept.url⟩ hread

end

/-! ## Giving up a stream -/

section

variable {cfg : Kconfig} {s : StreamState}

/-- The stream has latched a full buffer. -/
def StreamState.Full (s : StreamState) : Prop :=
  s.scan.err = .noSpace

theorem StreamState.Full.feed (h : s.Full) (chunk : Bytes) :
    (parseGithubStreamFeed cfg s chunk).1 = s := by
  have hlatched : s.scan.err ≠ .ok := by
    rw [h]
    decide
  unfold parseGithubStreamFeed SerializeJson.scanFeed
  rw [if_pos hlatched]

theorem StreamState.Full.feeds (h : s.Full) (chunks : List Bytes) :
    parseGithubStreamFeeds cfg s chunks = s := by
  induction chunks with
  | nil => rfl
  | cons chunk chunks ih =>
    rw [parseGithubStreamFeeds, List.foldl_cons, h.feed]
    exact ih

/-- A feed that fails has latched a full buffer. -/
theorem full_of_feed {chunk : Bytes} (h : (parseGithubStreamFeed cfg s chunk).2 ≠ .ok) :
    (parseGithubStreamFeed cfg s chunk).1.Full := by
  unfold parseGithubStreamFeed SerializeJson.scanFeed at h ⊢
  by_cases hlatched : s.scan.err ≠ .ok
  · rw [if_pos hlatched] at h ⊢
    dsimp only at h ⊢
    by_cases hfull : s.scan.err = .noSpace
    · exact hfull
    · rw [if_neg hfull] at h
      exact absurd rfl h
  · rw [if_neg hlatched] at h ⊢
    rcases hdrive : (SerializeJson.drive cfg s.scan chunk).deliver sinkIngest s.sink with ⟨t, rc | s'⟩
    · rw [hdrive] at h
      dsimp only at h ⊢
      by_cases hfull : rc = .noSpace
      · exact hfull
      · rw [if_neg hfull] at h
        exact absurd rfl h
    · rw [hdrive] at h
      exact absurd rfl h

/-- A stream given up at a full buffer ends without success. -/
theorem parseGithubStreamEnd_of_full (h : s.Full) : (parseGithubStreamEnd s).rc = .noSpace := by
  have hlatched : s.scan.err ≠ .ok := by
    rw [h]
    decide
  unfold parseGithubStreamEnd SerializeJson.scanEnd
  rw [if_pos hlatched, h]
  rfl

end

end ReleaseManifest
end Breadboard
