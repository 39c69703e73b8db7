import Breadboard.ReleaseManifest.Extraction
import Breadboard.ReleaseManifest.Unlimited

/-!
# bb_release_manifest - no partial values

On every stream, well-formed or not, cut anywhere, an output of either parser is empty or the
whole value found in the stream, unless that value overflowed its buffer behind an earlier
piece of itself; and the two parsers agree.  A buffer holds a piece only while its string is
open, which is where the scanner itself does not run out of space.

Main results:

- Theorem `outcome_unspilled`: the outputs at the end of any scan.
- Theorem `parsers_agree`: the buffered and the streaming parser on the same bytes.
- Theorem `outputs_whole`: both, of every stream and every cutting.
-/

namespace Breadboard
namespace ReleaseManifest

open Foundations.JsonText (Event)
open SerializeJson (Call Kconfig Span Scan ScanState Gathering gatherCall gatherFrom
  gatherFrom_append gatherCall_chunk gatherCall_other deliverCalls_cons_of_ok
  deliverCalls_cons_of_error deliverCalls_error)
open SerializeJson.Scan (deliverCalls)

/-! ## What is in the buffers -/

/-- A value that is not found yet is that of the string that is open. -/
structure Settled (g : Gathering) (t : SinkState) : Prop where
  tag : t.tagFound = false → t.tagOut.text ≠ [] → ∃ k v, g = some (k, v) ∧ HearsTag t k
  url : t.urlFound = false → t.urlOut.text ≠ [] → ∃ k v, g = some (k, v) ∧ HearsUrl t k

section

variable {g g' : Gathering} {t t' : SinkState} {c : Call}

/-- Such a value is that of the key of the next chunk. -/
theorem Settled.hears (h : Settled g t) {key chunk : Bytes} {last : Bool} {p : Span}
    {q : List Event × Gathering}
    (hgather : gatherCall g (.valueStrChunk key chunk last p) = some q) :
    (t.tagFound = false → t.tagOut.text ≠ [] → HearsTag t key) ∧
      (t.urlFound = false → t.urlOut.text ≠ [] → HearsUrl t key) := by
  obtain ⟨hkey, -⟩ := gatherCall_chunk hgather
  constructor
  · intro hfound htext
    obtain ⟨k, v, hg, hears⟩ := h.tag hfound htext
    exact hkey k v hg ▸ hears
  · intro hfound htext
    obtain ⟨k, v, hg, hears⟩ := h.url hfound htext
    exact hkey k v hg ▸ hears

/-- An accepted call. -/
theorem Settled.step (h : Settled g t) {q : List Event × Gathering}
    (hgather : gatherCall g c = some q) (hc : sinkIngest t c = (t', .ok)) : Settled q.2 t' := by
  by_cases hchunk : ∃ key chunk last p, c = .valueStrChunk key chunk last p
  · obtain ⟨key, chunk, last, p, rfl⟩ := hchunk
    obtain ⟨htagKey, hurlKey⟩ := h.hears hgather
    obtain ⟨-, hopen⟩ := gatherCall_chunk hgather
    change sinkValueStrChunk t key chunk last = _ at hc
    by_cases htag : HearsTag t key
    · have hnot : ¬ HearsUrl t key := fun hurl =>
        absurd (htag.2.2.symm.trans hurl.2.2.2.2) (by decide)
      rw [sinkValueStrChunk_tag htag] at hc
      rcases sinkAppend_code t.tagOut chunk with hok | ⟨hfull, -⟩
      · rw [hok] at hc
        cases last with
        | true =>
          obtain ⟨rfl, -⟩ := Prod.mk.inj hc
          exact ⟨(by rintro ⟨⟩), fun hfound htext => absurd (hurlKey hfound htext) hnot⟩
        | false =>
          obtain ⟨rfl, -⟩ := Prod.mk.inj hc
          obtain ⟨v, hv⟩ := hopen rfl
          exact ⟨fun _ _ => ⟨key, v, hv, htag⟩, fun hfound htext =>
            absurd (hurlKey hfound htext) hnot⟩
      · rw [hfull] at hc
        cases hc
    by_cases hname : HearsName t key
    · have hnot : ¬ HearsUrl t key := fun hurl =>
        absurd (hname.2.2.2.symm.trans hurl.2.2.2.2) (by decide)
      rw [sinkValueStrChunk_name hname] at hc
      obtain ⟨rfl, -⟩ := Prod.mk.inj hc
      exact ⟨fun hfound htext => absurd (htagKey hfound htext) htag, fun hfound htext =>
        absurd (hurlKey hfound htext) hnot⟩
    by_cases hurl : HearsUrl t key
    · rw [sinkValueStrChunk_url hurl] at hc
      rcases sinkAppend_code t.urlOut chunk with hok | ⟨hfull, -⟩
      · rw [hok] at hc
        cases last with
        | true =>
          obtain ⟨rfl, -⟩ := Prod.mk.inj hc
          exact ⟨fun hfound htext => absurd (htagKey hfound htext) htag, (by rintro ⟨⟩)⟩
        | false =>
          obtain ⟨rfl, -⟩ := Prod.mk.inj hc
          obtain ⟨v, hv⟩ := hopen rfl
          exact ⟨fun hfound htext => absurd (htagKey hfound htext) htag, fun _ _ =>
            ⟨key, v, hv, hurl⟩⟩
      · rw [hfull] at hc
        cases hc
    · rw [sinkValueStrChunk_other htag hname hurl] at hc
      obtain ⟨rfl, -⟩ := Prod.mk.inj hc
      have hout := markIfAssetsScalar_outputs t key
      simp only [SinkState.outputs, Prod.mk.injEq] at hout
      obtain ⟨htagOut, hurlOut, htagFound, hurlFound⟩ := hout
      exact ⟨fun hfound htext => absurd (htagKey (htagFound ▸ hfound) (htagOut ▸ htext)) htag,
        fun hfound htext => absurd (hurlKey (hurlFound ▸ hfound) (hurlOut ▸ htext)) hurl⟩
  · have hother : ∀ key chunk last p, c ≠ .valueStrChunk key chunk last p :=
      fun key chunk last p hc => hchunk ⟨key, chunk, last, p, hc⟩
    obtain ⟨rfl, hnone⟩ := gatherCall_other hother hgather
    have hout := (sinkIngest_outputs t hother).1
    rw [hc] at hout
    simp only [SinkState.outputs, Prod.mk.injEq] at hout
    obtain ⟨htagOut, hurlOut, htagFound, hurlFound⟩ := hout
    constructor
    · intro hfound htext
      obtain ⟨k, v, hg, -⟩ := h.tag (htagFound ▸ hfound) (htagOut ▸ htext)
      cases hg
    · intro hfound htext
      obtain ⟨k, v, hg, -⟩ := h.url (hurlFound ▸ hfound) (hurlOut ▸ htext)
      cases hg

/-- Accepted calls; the induction is on the calls. -/
theorem Settled.run (h : Settled g t) {cs : List Call} {evs : List Event}
    (hgather : gatherFrom g cs = some (evs, g')) (hcs : deliverCalls sinkIngest t cs = (t', .ok)) :
    Settled g' t' := by
  induction cs generalizing g t evs with
  | nil =>
    cases hgather
    cases hcs
    exact h
  | cons c cs ih =>
    rw [gatherFrom, Option.bind_eq_some_iff] at hgather
    obtain ⟨q, hq, hrest⟩ := hgather
    rw [Option.map_eq_some_iff] at hrest
    obtain ⟨r, hr, hrq⟩ := hrest
    obtain ⟨-, rfl⟩ := Prod.mk.inj hrq
    rcases hc : sinkIngest t c with ⟨t₁, e₁⟩
    by_cases he₁ : e₁ = .ok
    · subst he₁
      rw [deliverCalls_cons_of_ok hc] at hcs
      exact ih (h.step hq hc) hr hcs
    · rw [deliverCalls_cons_of_error hc he₁] at hcs
      exact absurd (Prod.mk.inj hcs).2 he₁

end

/-! ## The end of a parse -/

/-- The tag overflows its buffer, which holds an earlier piece of it. -/
def SpillsTag (t₀ : SinkState) (calls : List Call) : Prop :=
  ∃ pre key chunk last p post t, calls = pre ++ .valueStrChunk key chunk last p :: post ∧
    deliverCalls sinkIngest t₀ pre = (t, .ok) ∧ HearsTag t key ∧ t.tagOut.text ≠ [] ∧
    (sinkAppend t.tagOut chunk).2 = .noSpace

/-- The URL overflows its buffer, which holds an earlier piece of it. -/
def SpillsUrl (t₀ : SinkState) (calls : List Call) : Prop :=
  ∃ pre key chunk last p post t, calls = pre ++ .valueStrChunk key chunk last p :: post ∧
    deliverCalls sinkIngest t₀ pre = (t, .ok) ∧ HearsUrl t key ∧ t.urlOut.text ≠ [] ∧
    (sinkAppend t.urlOut chunk).2 = .noSpace

/-- The codes of the sink. -/
theorem sinkIngest_code (s : SinkState) (c : Call) :
    (sinkIngest s c).2 = .ok ∨ (sinkIngest s c).2 = .noSpace ∨
      (sinkIngest s c).2 = sinkDone ∧ (sinkIngest s c).1.tagFound = true ∧
        (sinkIngest s c).1.urlFound = true := by
  by_cases hchunk : ∃ key chunk last p, c = .valueStrChunk key chunk last p
  · obtain ⟨key, chunk, last, p, rfl⟩ := hchunk
    change (sinkValueStrChunk s key chunk last).2 = .ok ∨
      (sinkValueStrChunk s key chunk last).2 = .noSpace ∨
      (sinkValueStrChunk s key chunk last).2 = sinkDone ∧
        (sinkValueStrChunk s key chunk last).1.tagFound = true ∧
        (sinkValueStrChunk s key chunk last).1.urlFound = true
    by_cases htag : HearsTag s key
    · rw [sinkValueStrChunk_tag htag]
      rcases sinkAppend_code s.tagOut chunk with hok | ⟨hfull, -⟩
      · rw [hok]
        cases last <;> cases s.urlFound <;> simp
      · rw [hfull]
        exact .inr (.inl rfl)
    by_cases hname : HearsName s key
    · rw [sinkValueStrChunk_name hname]
      exact .inl rfl
    by_cases hurl : HearsUrl s key
    · rw [sinkValueStrChunk_url hurl]
      rcases sinkAppend_code s.urlOut chunk with hok | ⟨hfull, -⟩
      · rw [hok]
        cases last <;> cases s.tagFound <;> simp
      · rw [hfull]
        exact .inr (.inl rfl)
    · rw [sinkValueStrChunk_other htag hname hurl]
      exact .inl rfl
  · exact .inl (sinkIngest_outputs s fun key chunk last p hc => hchunk ⟨key, chunk, last, p, hc⟩).2

/-- An output that is not the value found is empty, or `spills` is why not. -/
structure Unspilled (t : SinkState) (e : Extract) (spillsTag spillsUrl : Prop) : Prop where
  tag : e.tag = [] ∨ t.tagFound = true ∧ e.tag = t.tagOut.text ∨ spillsTag
  url : e.url = [] ∨ t.urlFound = true ∧ e.url = t.urlOut.text ∨ spillsUrl

/-- With a code other than that of a full buffer only what was found is left. -/
theorem unspilled_finalize {t : SinkState} {rc : BbErr} {spillsTag spillsUrl : Prop}
    (hdone : rc = sinkDone → t.tagFound = true ∧ t.urlFound = true)
    (hfull : rc = .noSpace →
      (t.tagFound = false → t.tagOut.text ≠ [] → spillsTag) ∧
        (t.urlFound = false → t.urlOut.text ≠ [] → spillsUrl)) :
    Unspilled t (sinkFinalize t rc) spillsTag spillsUrl := by
  have hcleared (rc : BbErr) : Unspilled t ⟨rc, if t.tagFound then t.tagOut.text else [],
      if t.urlFound then t.urlOut.text else []⟩ spillsTag spillsUrl := by
    constructor
    · cases htag : t.tagFound <;> simp
    · cases hurl : t.urlFound <;> simp
  unfold sinkFinalize
  split
  · rename_i hrc
    obtain ⟨htag, hurl⟩ := hdone hrc
    exact ⟨.inr (.inl ⟨htag, rfl⟩), .inr (.inl ⟨hurl, rfl⟩)⟩
  split
  · rename_i hrc
    obtain ⟨htag, hurl⟩ := hfull hrc
    constructor
    · cases hfound : t.tagFound with
      | true => exact .inr (.inl ⟨rfl, rfl⟩)
      | false =>
        by_cases htext : t.tagOut.text = []
        · exact .inl htext
        · exact .inr (.inr (htag hfound htext))
    · cases hfound : t.urlFound with
      | true => exact .inr (.inl ⟨rfl, rfl⟩)
      | false =>
        by_cases htext : t.urlOut.text = []
        · exact .inl htext
        · exact .inr (.inr (hurl hfound htext))
  · dsimp only
    by_cases hrc : rc ≠ .ok
    · rw [if_pos hrc]
      exact hcleared .notFound
    by_cases hshape : t.assetsInvalidShape
    · rw [if_neg hrc, if_pos hshape]
      exact hcleared .notFound
    · rw [if_neg hrc, if_neg hshape]
      exact hcleared _

/-- The end of any scan against the sink. -/
theorem outcome_unspilled {α : Type} {x : Scan α} {next : α → Gathering → Prop}
    (hx : SerializeJson.Unbroken none x next) {t₀ : SinkState} (h₀ : Settled none t₀) :
    Unspilled (SerializeJson.outcome sinkIngest t₀ x).1
      (sinkFinalize (SerializeJson.outcome sinkIngest t₀ x).1
        (SerializeJson.outcome sinkIngest t₀ x).2)
      (SpillsTag t₀ x.calls) (SpillsUrl t₀ x.calls) := by
  obtain ⟨evs, g', hgather, -, hfails⟩ := hx
  rcases hd : deliverCalls sinkIngest t₀ x.calls with ⟨t, e⟩
  by_cases he : e = .ok
  · subst he
    have hsettled := h₀.run hgather hd
    rw [SerializeJson.outcome_of_ok hd]
    cases hresult : x.result with
    | ok a => exact unspilled_finalize (by rintro ⟨⟩) (by rintro ⟨⟩)
    | error e =>
      change Unspilled t (sinkFinalize t e) _ _
      cases hfails e hresult with
      | full =>
        refine unspilled_finalize (by rintro ⟨⟩) fun _ => ⟨fun hfound htext => ?_,
          fun hfound htext => ?_⟩
        · obtain ⟨k, v, hg, -⟩ := hsettled.tag hfound htext
          cases hg
        · obtain ⟨k, v, hg, -⟩ := hsettled.url hfound htext
          cases hg
      | grammar => exact unspilled_finalize (by rintro ⟨⟩) (by rintro ⟨⟩)
      | incomplete => exact unspilled_finalize (by rintro ⟨⟩) (by rintro ⟨⟩)
      | state => exact unspilled_finalize (by rintro ⟨⟩) (by rintro ⟨⟩)
  · rw [SerializeJson.outcome_of_error hd he]
    obtain ⟨pre, c, post, s, hcalls, hpre, hc⟩ := deliverCalls_error hd he
    refine unspilled_finalize ?_ ?_
    · rintro rfl
      rcases sinkIngest_code s c with h | h | ⟨-, htag, hurl⟩
      · rw [hc] at h
        cases h
      · rw [hc] at h
        cases h
      · rw [hc] at htag hurl
        exact ⟨htag, hurl⟩
    · rintro rfl
      obtain ⟨rfl, key, chunk, last, p, rfl, hfull⟩ := sinkIngest_full hc
      rw [hcalls, gatherFrom_append, Option.bind_eq_some_iff] at hgather
      obtain ⟨q, hq, hrest⟩ := hgather
      have hsettled := h₀.run hq hpre
      rw [gatherFrom, Option.map_eq_some_iff] at hrest
      obtain ⟨r, hr, -⟩ := hrest
      rw [Option.bind_eq_some_iff] at hr
      obtain ⟨q', hq', -⟩ := hr
      obtain ⟨htagKey, hurlKey⟩ := hsettled.hears hq'
      constructor
      · intro hfound htext
        have htag := htagKey hfound htext
        obtain ⟨-, hfull⟩ | ⟨hurl, -⟩ := hfull
        · exact ⟨pre, key, chunk, last, p, post, t, hcalls, hpre, htag, htext, hfull⟩
        · exact absurd (htag.2.2.symm.trans hurl.2.2.2.2) (by decide)
      · intro hfound htext
        have hurl := hurlKey hfound htext
        obtain ⟨htag, -⟩ | ⟨-, hfull⟩ := hfull
        · exact absurd (htag.2.2.symm.trans hurl.2.2.2.2) (by decide)
        · exact ⟨pre, key, chunk, last, p, post, t, hcalls, hpre, hurl, htext, hfull⟩

/-! ## The parsers -/

section

variable (cfg : Kconfig) (board : Bytes) (chunks : List Bytes) (outTag outUrl : OutBuf)

/-- The bounded scan of a body. -/
abbrev boundedScan (body : Bytes) : Scan ScanState :=
  SerializeJson.streamScan cfg (SerializeJson.scanBeginInternal true) [body]

/-- The streaming scan of a body in chunks. -/
abbrev chunkedScan : Scan ScanState :=
  SerializeJson.streamScan cfg SerializeJson.scanBegin chunks

theorem readAll_eq (body : Bytes) :
    readAll cfg board body =
      (SerializeJson.outcome ingestUnbounded ((sinkInit board outTag outUrl).withCaps 0)
        (boundedScan cfg body)).1 := by
  rw [readAll, SerializeJson.scanBounded_outcome]
  rfl

theorem parseGithub_outcome {body : Bytes} (htag : 0 < outTag.cap) (hurl : 0 < outUrl.cap) :
    parseGithub cfg body board outTag outUrl =
      sinkFinalize
        (SerializeJson.outcome sinkIngest (sinkInit board outTag outUrl) (boundedScan cfg body)).1
        (SerializeJson.outcome sinkIngest (sinkInit board outTag outUrl)
          (boundedScan cfg body)).2 := by
  have hcaps : ¬ (outTag.cap = 0 ∨ outUrl.cap = 0) := by omega
  rw [parseGithub, if_neg hcaps, SerializeJson.scanBounded_outcome]

theorem parseGithubStream_outcome (htag : 2 ≤ outTag.cap) (hurl : 2 ≤ outUrl.cap) :
    parseGithubStream cfg chunks board outTag outUrl =
      sinkFinalize
        (SerializeJson.outcome sinkIngest (sinkInit board outTag outUrl) (chunkedScan cfg chunks)).1
        (SerializeJson.outcome sinkIngest (sinkInit board outTag outUrl)
          (chunkedScan cfg chunks)).2 := by
  obtain ⟨rcs, hstream⟩ := SerializeJson.scanStream_outcome cfg sinkIngest
    (sinkInit board outTag outUrl) chunks
  exact parseGithubStream_eq htag hurl hstream

theorem settled_init : Settled none (sinkInit board outTag outUrl) :=
  ⟨fun _ htext => absurd rfl htext, fun _ htext => absurd rfl htext⟩

/-- A piece that leaves its string open finds nothing. -/
theorem hears_found {t t' : SinkState} (h : SerializeJson.Hears ingestUnbounded t t') :
    Kept t t' ∧ t'.tagFound = t.tagFound ∧ t'.urlFound = t.urlFound := by
  induction h with
  | refl => exact ⟨.refl t, rfl, rfl⟩
  | @tail t₁ t₂ _ hstep ih =>
    obtain ⟨key, v, p, hcall⟩ := hstep
    have hkept := ingestUnbounded_kept t₁ (.valueStrChunk key v false p)
    have hflags : (ingestUnbounded t₁ (.valueStrChunk key v false p)).1.tagFound = t₁.tagFound ∧
        (ingestUnbounded t₁ (.valueStrChunk key v false p)).1.urlFound = t₁.urlFound := by
      by_cases htag : HearsTag t₁ key
      · rw [ingestUnbounded_tag htag]
        exact ⟨htag.1.symm, rfl⟩
      by_cases hname : HearsName t₁ key
      · rw [ingestUnbounded_name hname]
        exact ⟨rfl, rfl⟩
      by_cases hurl : HearsUrl t₁ key
      · rw [ingestUnbounded_url hurl]
        exact ⟨rfl, hurl.2.2.1.symm⟩
      · rw [ingestUnbounded_other htag hname hurl]
        have hout := markIfAssetsScalar_outputs t₁ key
        simp only [SinkState.outputs, Prod.mk.injEq] at hout
        exact ⟨hout.2.2.1, hout.2.2.2⟩
    rw [hcall] at hkept hflags
    exact ⟨ih.1.trans hkept, hflags.1.trans ih.2.1, hflags.2.trans ih.2.2⟩

/-- What is found in any cutting of the stream is found in the stream. -/
theorem kept_readAll :
    Kept (SerializeJson.outcome ingestUnbounded ((sinkInit board outTag outUrl).withCaps 0)
      (chunkedScan cfg chunks)).1 (readAll cfg board chunks.flatten) := by
  have hrecut := (SerializeJson.streamScan_recuts cfg chunks).recut ingestUnbounded
    ingestUnbounded_joinsChunks ((sinkInit board outTag outUrl).withCaps 0)
  have hnever : ¬ SerializeJson.Refuses ingestUnbounded := by
    rintro ⟨t, c, h⟩
    exact ingestUnbounded_ne_full t c h
  have hback {t t' : SinkState} (h : SerializeJson.Hears ingestUnbounded t t') : Kept t' t := by
    obtain ⟨hkept, htag, hurl⟩ := hears_found h
    exact ⟨fun hs => ⟨htag ▸ hs, (hkept.tag (htag ▸ hs)).2.symm⟩,
      fun hs => ⟨hurl ▸ hs, (hkept.url (hurl ▸ hs)).2.symm⟩⟩
  rw [readAll_eq cfg board outTag outUrl]
  unfold SerializeJson.outcome
  generalize (boundedScan cfg chunks.flatten).deliver ingestUnbounded
    ((sinkInit board outTag outUrl).withCaps 0) = p at hrecut ⊢
  generalize (chunkedScan cfg chunks).deliver ingestUnbounded
    ((sinkInit board outTag outUrl).withCaps 0) = q at hrecut ⊢
  cases hrecut with
  | returns t h => exact .refl t
  | stops t e => exact .refl t
  | fills t t' hfull => exact absurd hfull hnever
  | breaks hspoils h => exact hback h
  | overruns hspoils h => exact hback (h.resolve_left hnever)

end

/-- The outputs of a parse are empty or what is found in the stream, unless they spilled. -/
structure Whole (cfg : Kconfig) (board body : Bytes) (t₀ : SinkState) (calls : List Call)
    (e : Extract) : Prop where
  tag : e.tag = [] ∨ foundTag cfg board body = some e.tag ∨ SpillsTag t₀ calls
  url : e.url = [] ∨ foundUrl cfg board body = some e.url ∨ SpillsUrl t₀ calls

theorem Whole.of_unspilled {cfg : Kconfig} {board body : Bytes} {t₀ t : SinkState}
    {calls : List Call} {e : Extract} (hkept : Kept t (readAll cfg board body))
    (h : Unspilled t e (SpillsTag t₀ calls) (SpillsUrl t₀ calls)) :
    Whole cfg board body t₀ calls e := by
  constructor
  · obtain htag | ⟨hfound, htag⟩ | hspills := h.tag
    · exact .inl htag
    · obtain ⟨hfound', htext⟩ := hkept.tag hfound
      rw [foundTag, if_pos hfound', htext, htag]
      exact .inr (.inl rfl)
    · exact .inr (.inr hspills)
  · obtain hurl | ⟨hfound, hurl⟩ | hspills := h.url
    · exact .inl hurl
    · obtain ⟨hfound', htext⟩ := hkept.url hfound
      rw [foundUrl, if_pos hfound', htext, hurl]
      exact .inr (.inl rfl)
    · exact .inr (.inr hspills)

/--
The two parsers on the same bytes: the same return, or a full buffer in both.  The streaming
parser also runs full on a malformed body that the buffered one refuses for a raw control byte.
-/
def Agree (cfg : Kconfig) (body : Bytes) (buffered streamed : Extract) : Prop :=
  streamed = buffered ∨ streamed.rc = .noSpace ∧
    (buffered.rc = .noSpace ∨ buffered.rc = .notFound ∧
      (SerializeJson.scanBounded cfg SerializeJson.record [] body).2 = .parseGrammar ∧
      ∃ c ∈ body, c < 32)

theorem outcome_record {α : Type} (x : Scan α) :
    SerializeJson.outcome SerializeJson.record [] x = (x.calls, SerializeJson.codeOf x.result) := by
  have haccept := SerializeJson.deliverCalls_of_accepting SerializeJson.record_accepting [] x.calls
  rw [SerializeJson.foldl_record, List.nil_append] at haccept
  exact SerializeJson.outcome_of_ok haccept

/-- A grammar error is the scanner's own. -/
theorem outcome_grammar {α : Type} {x : Scan α} {t t' : SinkState}
    (h : x.deliver sinkIngest t = (t', .error .parseGrammar)) :
    x.result = .error .parseGrammar := by
  unfold Scan.deliver at h
  rcases hd : deliverCalls sinkIngest t x.calls with ⟨t₁, e₁⟩
  rw [hd] at h
  by_cases he₁ : e₁ = .ok
  · subst he₁
    exact (Prod.mk.inj h).2
  · obtain ⟨pre, c, post, s, -, -, hc⟩ := deliverCalls_error hd he₁
    have hcode := sinkIngest_code s c
    rw [hc] at hcode
    obtain rfl | rfl | ⟨rfl, -⟩ := hcode
    · exact absurd rfl he₁
    · cases h
    · cases h

theorem sinkFinalize_grammar (t : SinkState) :
    sinkFinalize t .parseGrammar = ⟨.notFound, if t.tagFound then t.tagOut.text else [],
      if t.urlFound then t.urlOut.text else []⟩ :=
  rfl

/-- Pieces that leave their strings open do not show behind a grammar error. -/
theorem sinkFinalize_hears {t t' : SinkState} (h : SerializeJson.Hears sinkIngest t t') :
    sinkFinalize t' .parseGrammar = sinkFinalize t .parseGrammar := by
  have hlift : SerializeJson.Hears ingestUnbounded (t.withCaps 0) (t'.withCaps 0) := by
    refine h.lift (SinkState.withCaps · 0) ?_
    rintro s s' ⟨key, v, p, hcall⟩
    have hstep := ingestUnbounded_withCaps s 0 (.valueStrChunk key v false p) (by simp [hcall])
    rw [hcall] at hstep
    exact ⟨key, v, p, hstep⟩
  obtain ⟨hkept, htag, hurl⟩ := hears_found hlift
  change t'.tagFound = t.tagFound at htag
  change t'.urlFound = t.urlFound at hurl
  rw [sinkFinalize_grammar, sinkFinalize_grammar, htag, hurl]
  have htagText : (if t.tagFound then t'.tagOut.text else []) =
      if t.tagFound then t.tagOut.text else [] := by
    split
    · rename_i hs
      exact (hkept.tag hs).2
    · rfl
  have hurlText : (if t.urlFound then t'.urlOut.text else []) =
      if t.urlFound then t.urlOut.text else [] := by
    split
    · rename_i hs
      exact (hkept.url hs).2
    · rfl
  rw [htagText, hurlText]

theorem parsers_agree (cfg : Kconfig) (board : Bytes) (chunks : List Bytes) {outTag outUrl : OutBuf}
    (htag : 2 ≤ outTag.cap) (hurl : 2 ≤ outUrl.cap) :
    Agree cfg chunks.flatten (parseGithub cfg chunks.flatten board outTag outUrl)
      (parseGithubStream cfg chunks board outTag outUrl) := by
  have hrecut := (SerializeJson.streamScan_recuts cfg chunks).recut sinkIngest
    sinkIngest_joinsChunks (sinkInit board outTag outUrl)
  rw [parseGithub_outcome cfg board outTag outUrl (by omega) (by omega),
    parseGithubStream_outcome cfg board chunks outTag outUrl htag hurl]
  unfold SerializeJson.outcome
  rcases hp : (boundedScan cfg chunks.flatten).deliver sinkIngest (sinkInit board outTag outUrl)
    with ⟨tp, rp⟩
  rcases hq : (chunkedScan cfg chunks).deliver sinkIngest (sinkInit board outTag outUrl)
    with ⟨tq, rq⟩
  rw [hp, hq] at hrecut
  cases hrecut with
  | returns t h => exact .inl rfl
  | stops t e => exact .inl rfl
  | fills t t' hfull => exact .inr ⟨rfl, .inl rfl⟩
  | breaks hspoils h => exact .inl (sinkFinalize_hears h)
  | overruns hspoils h =>
    refine .inr ⟨rfl, .inr ⟨rfl, ?_, hspoils⟩⟩
    rw [SerializeJson.scanBounded_outcome, outcome_record]
    exact congrArg SerializeJson.codeOf (outcome_grammar hp)

/--
On every stream, however it is cut, an output of either parser is empty or the whole value found
in the stream, unless that value overflowed its buffer behind an earlier piece; a call that is
refused writes nothing; and with buffers of two bytes and more the parsers agree.
-/
theorem outputs_whole (cfg : Kconfig) (board : Bytes) (chunks : List Bytes)
    (outTag outUrl : OutBuf) :
    (outTag.cap = 0 ∨ outUrl.cap = 0 →
      parseGithub cfg chunks.flatten board outTag outUrl =
        ⟨.invalidArg, outTag.text, outUrl.text⟩) ∧
    (0 < outTag.cap → 0 < outUrl.cap →
      Whole cfg board chunks.flatten (sinkInit board outTag outUrl)
        (SerializeJson.scanBounded cfg SerializeJson.record [] chunks.flatten).1
        (parseGithub cfg chunks.flatten board outTag outUrl)) ∧
    (outTag.cap < 2 ∨ outUrl.cap < 2 →
      parseGithubStream cfg chunks board outTag outUrl =
        ⟨.invalidArg, outTag.text, outUrl.text⟩) ∧
    (2 ≤ outTag.cap → 2 ≤ outUrl.cap →
      Whole cfg board chunks.flatten (sinkInit board outTag outUrl)
        (SerializeJson.scanStream cfg SerializeJson.record [] chunks).1
        (parseGithubStream cfg chunks board outTag outUrl) ∧
      Agree cfg chunks.flatten (parseGithub cfg chunks.flatten board outTag outUrl)
        (parseGithubStream cfg chunks board outTag outUrl)) := by
  have hsettled := settled_init board outTag outUrl
  refine ⟨fun hcaps => ?_, fun htag hurl => ?_, fun hcaps => ?_, fun htag hurl => ⟨?_, ?_⟩⟩
  · rw [parseGithub, if_pos hcaps]
  · have hunbroken := @SerializeJson.streamScan_unbroken cfg _ _
      (SerializeJson.holding_none (SerializeJson.scanBeginInternal true)) [chunks.flatten]
    have hwhole := outcome_unspilled hunbroken hsettled
    rw [SerializeJson.scanBounded_outcome, outcome_record,
      parseGithub_outcome cfg board outTag outUrl htag hurl]
    refine .of_unspilled ?_ hwhole
    have hkept := (deliverCalls_unbounded (rfl : deliverCalls sinkIngest
      (sinkInit board outTag outUrl) (boundedScan cfg chunks.flatten).calls = _)).1
    rw [readAll_eq cfg board outTag outUrl, SerializeJson.outcome_fst, SerializeJson.outcome_fst]
    exact ⟨hkept.tag, hkept.url⟩
  · rw [parseGithubStream, parseGithubStreamBegin, if_pos hcaps]
  · have hunbroken := @SerializeJson.streamScan_unbroken cfg _ _
      (SerializeJson.holding_none SerializeJson.scanBegin) chunks
    have hwhole := outcome_unspilled hunbroken hsettled
    obtain ⟨rcs, hstream⟩ := SerializeJson.scanStream_outcome cfg SerializeJson.record [] chunks
    rw [hstream, outcome_record, parseGithubStream_outcome cfg board chunks outTag outUrl htag hurl]
    refine .of_unspilled ?_ hwhole
    have hkept := (deliverCalls_unbounded (rfl : deliverCalls sinkIngest
      (sinkInit board outTag outUrl) (chunkedScan cfg chunks).calls = _)).1
    have hread := kept_readAll cfg board chunks outTag outUrl
    rw [SerializeJson.outcome_fst] at hread ⊢
    exact Kept.trans ⟨hkept.tag, hkept.url⟩ hread
  · exact parsers_agree cfg board chunks htag hurl

/-- A tag with an escape: `ab`, a line feed and `cdef`. -/
def bodyEscapedTag : Bytes :=
  [123, 34, 116, 97, 103, 95, 110, 97, 109, 101, 34, 58, 34, 97, 98, 92, 110, 99, 100, 101, 102, 34,
    125]

/-- A tag that breaks off with a raw control byte, cut in front of it. -/
def chunksControlByte : List Bytes :=
  [[123, 34, 116, 97, 103, 95, 110, 97, 109, 101, 34, 58, 34, 97, 98, 99],
   [1, 34, 125]]

theorem outputs_whole_escapedTag :
    parseGithub .default bodyEscapedTag [] ⟨[], 0⟩ ⟨[], 5⟩ = ⟨.invalidArg, [], []⟩ ∧
      Whole .default [] bodyEscapedTag (sinkInit [] ⟨[], 5⟩ ⟨[], 5⟩)
        (SerializeJson.scanBounded .default SerializeJson.record [] bodyEscapedTag).1
        (parseGithub .default bodyEscapedTag [] ⟨[], 5⟩ ⟨[], 5⟩) ∧
      parseGithubStream .default [bodyEscapedTag] [] ⟨[], 1⟩ ⟨[], 5⟩ = ⟨.invalidArg, [], []⟩ ∧
      Whole .default [] bodyEscapedTag (sinkInit [] ⟨[], 8⟩ ⟨[], 8⟩)
        (SerializeJson.scanStream .default SerializeJson.record [] [bodyEscapedTag]).1
        (parseGithubStream .default [bodyEscapedTag] [] ⟨[], 8⟩ ⟨[], 8⟩) ∧
      Agree .default bodyEscapedTag (parseGithub .default bodyEscapedTag [] ⟨[], 8⟩ ⟨[], 8⟩)
        (parseGithubStream .default [bodyEscapedTag] [] ⟨[], 8⟩ ⟨[], 8⟩) :=
  ⟨(outputs_whole .default [] [bodyEscapedTag] ⟨[], 0⟩ ⟨[], 5⟩).1 (.inl rfl),
    (outputs_whole .default [] [bodyEscapedTag] ⟨[], 5⟩ ⟨[], 5⟩).2.1 (by decide) (by decide),
    (outputs_whole .default [] [bodyEscapedTag] ⟨[], 1⟩ ⟨[], 5⟩).2.2.1 (.inl (by decide)),
    (outputs_whole .default [] [bodyEscapedTag] ⟨[], 8⟩ ⟨[], 8⟩).2.2.2 (by decide) (by decide)⟩

/--
Buffers of one byte are refused by the streaming parser only; a raw control byte hides a full
buffer from the buffered one; and a value that overflows behind its escape leaves a piece.
-/
theorem parsers_differ :
    (parseGithub .default [123, 125] [] ⟨[], 1⟩ ⟨[], 1⟩).rc = .notFound ∧
      (parseGithubStream .default [[123, 125]] [] ⟨[], 1⟩ ⟨[], 1⟩).rc = .invalidArg ∧
      (parseGithub .default chunksControlByte.flatten [] ⟨[], 3⟩ ⟨[], 3⟩).rc = .notFound ∧
      (parseGithubStream .default chunksControlByte [] ⟨[], 3⟩ ⟨[], 3⟩).rc = .noSpace ∧
      (parseGithub .default bodyEscapedTag [] ⟨[], 5⟩ ⟨[], 5⟩).tag = [97, 98, 10] ∧
      foundTag .default [] bodyEscapedTag = some [97, 98, 10, 99, 100, 101, 102] := by
  decide +kernel

end ReleaseManifest
end Breadboard
