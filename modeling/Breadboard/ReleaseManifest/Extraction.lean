import Breadboard.ReleaseManifest.Document

/-!
# bb_release_manifest - what the parsers extract

On every manifest the scanner accepts, both parsers return the tag and the URL that the walk
over the document finds.  That is not what the manifest says where an
asset gives its URL before its name, and where names are only compared in part.

Main results:

- Theorem `takeMembers_spec`: the walk, with distinct names, in terms of the members.
- Theorem `finalize_correct_iff`: the outcome of a scan.
- Theorem `extract_correct_iff`: both parsers, however the body is cut.
-/

namespace Breadboard
namespace ReleaseManifest

open Foundations.JsonText (Event Json Members field? strField? field?_cons strField?_cons
  IsText LaxNumber)
open SerializeJson (Kconfig SameUnless WithinLimits)

/-! ## The walk over the members -/

theorem assets?_cons (key : Bytes) (j : Json) (ms : Members) :
    assets? ((key, j) :: ms) =
      if key = assetsKey then (match j with | .arr js => some js | _ => none) else assets? ms := by
  unfold assets?
  rw [field?_cons]
  by_cases hkey : key = assetsKey
  · rw [if_pos hkey, if_pos hkey]
    cases j <;> rfl
  · rw [if_neg hkey, if_neg hkey]

theorem assets?_of_absent {ms : Members} (h : assetsKey ∉ ms.map Prod.fst) :
    assets? ms = some [] := by
  rw [assets?, Foundations.JsonText.field?_eq_none_iff.mpr h]

theorem strField?_of_absent {key : Bytes} {ms : Members} (h : key ∉ ms.map Prod.fst) :
    strField? key ms = none := by
  rw [strField?, Foundations.JsonText.field?_eq_none_iff.mpr h]

theorem strField?_append_of_absent {key : Bytes} {pre : Members} (h : key ∉ pre.map Prod.fst)
    (ms : Members) : strField? key (pre ++ ms) = strField? key ms := by
  induction pre with
  | nil => rfl
  | cons m pre ih =>
    rw [List.map_cons, List.mem_cons, not_or] at h
    rw [List.cons_append, strField?_cons, if_neg (Ne.symm h.1), ih h.2]

/-- The URL the sink reads in the assets. -/
def readAssets (board : Bytes) (ms : Members) : Option Bytes :=
  (assets? ms).bind fun js => js.findSome? (readUrl board)

/-- What the walk found, and how it ended, in terms of the members. -/
structure Walked (board : Bytes) (tagCap urlCap : Nat) (f : Found) (ms : Members)
    (r : Found × BbErr) : Prop where
  full : r.2 = .noSpace →
    (∃ v, strField? tagNameKey ms = some v ∧ fits tagCap v = false) ∨
      ∃ v, readAssets board ms = some v ∧ fits urlCap v = false
  tag : r.2 ≠ .noSpace → r.1.tag = f.tag.or (strField? tagNameKey ms)
  url : r.2 ≠ .noSpace → r.1.url = f.url.or (readAssets board ms)
  shape : r.2 = .ok → r.1.badShape = (f.badShape || (assets? ms).isNone)
  done : r.2 ≠ .ok → r.2 ≠ .noSpace → r.2 = sinkDone ∧ r.1.tag.isSome ∧ r.1.url.isSome

section

variable {board : Bytes} {tagCap urlCap : Nat}

/-- Of the first member and the others at most one has what is looked for. -/
def OneOf {α : Type} (whole head rest : Option α) : Prop :=
  whole = head ∧ rest = none ∨ whole = rest ∧ head = none

theorem OneOf.eq_or {α : Type} {whole head rest : Option α} (h : OneOf whole head rest) :
    whole = head.or rest := by
  obtain ⟨rfl, rfl⟩ | ⟨rfl, rfl⟩ := h
  · exact (Option.or_none).symm
  · rfl

theorem OneOf.of_some {α : Type} {whole head rest : Option α} (h : OneOf whole head rest) {v : α}
    (hv : head = some v ∨ rest = some v) : whole = some v := by
  obtain ⟨rfl, rfl⟩ | ⟨rfl, rfl⟩ := h
  · exact hv.resolve_right (by simp)
  · exact hv.resolve_left (by simp)

section

variable {m : Bytes × Json} {ms : Members}

theorem strField?_oneOf (hdistinct : Members.Distinct (m :: ms)) (key : Bytes) :
    OneOf (strField? key (m :: ms)) (strField? key [m]) (strField? key ms) := by
  obtain ⟨hnew, -⟩ := List.nodup_cons.mp hdistinct
  rw [strField?_cons, strField?_cons]
  by_cases hkey : m.1 = key
  · rw [if_pos hkey, if_pos hkey]
    exact .inl ⟨rfl, strField?_of_absent (hkey ▸ hnew)⟩
  · rw [if_neg hkey, if_neg hkey]
    exact .inr ⟨rfl, rfl⟩

theorem assets?_cases (hdistinct : Members.Distinct (m :: ms)) :
    assets? (m :: ms) = assets? [m] ∧ assets? ms = some [] ∨
      assets? (m :: ms) = assets? ms ∧ assets? [m] = some [] := by
  obtain ⟨hnew, -⟩ := List.nodup_cons.mp hdistinct
  rw [assets?_cons, assets?_cons]
  by_cases hkey : m.1 = assetsKey
  · rw [if_pos hkey, if_pos hkey]
    exact .inl ⟨rfl, assets?_of_absent (hkey ▸ hnew)⟩
  · rw [if_neg hkey, if_neg hkey]
    exact .inr ⟨rfl, rfl⟩

theorem readAssets_oneOf (hdistinct : Members.Distinct (m :: ms)) :
    OneOf (readAssets board (m :: ms)) (readAssets board [m]) (readAssets board ms) := by
  unfold readAssets
  obtain ⟨hall, hrest⟩ | ⟨hall, hhead⟩ := assets?_cases hdistinct
  · rw [hall, hrest]
    exact .inl ⟨rfl, rfl⟩
  · rw [hall, hhead]
    exact .inr ⟨rfl, rfl⟩

/-- A walk that goes on after its first member. -/
theorem Walked.cons {f f' : Found} {r : Found × BbErr} (hdistinct : Members.Distinct (m :: ms))
    (hhead : Walked board tagCap urlCap f [m] (f', .ok))
    (htail : Walked board tagCap urlCap f' ms r) : Walked board tagCap urlCap f (m :: ms) r where
  full hr := by
    obtain ⟨v, hv, hfits⟩ | ⟨v, hv, hfits⟩ := htail.full hr
    · exact .inl ⟨v, (strField?_oneOf hdistinct _).of_some (.inr hv), hfits⟩
    · exact .inr ⟨v, (readAssets_oneOf hdistinct).of_some (.inr hv), hfits⟩
  tag hr := by
    rw [htail.tag hr, hhead.tag (show BbErr.ok ≠ .noSpace by decide),
      (strField?_oneOf hdistinct _).eq_or, Option.or_assoc]
  url hr := by
    rw [htail.url hr, hhead.url (show BbErr.ok ≠ .noSpace by decide),
      (readAssets_oneOf hdistinct).eq_or, Option.or_assoc]
  shape hr := by
    rw [htail.shape hr, hhead.shape rfl, Bool.or_assoc]
    obtain ⟨hall, hrest⟩ | ⟨hall, hhead⟩ := assets?_cases hdistinct
    · rw [hall, hrest]
      simp
    · rw [hall, hhead]
      simp
  done := htail.done

/-- A walk that ends at its first member. -/
theorem Walked.stop {f : Found} {r : Found × BbErr} (hdistinct : Members.Distinct (m :: ms))
    (hhead : Walked board tagCap urlCap f [m] r) (hr : r.2 ≠ .ok) :
    Walked board tagCap urlCap f (m :: ms) r where
  full hfull := by
    obtain ⟨v, hv, hfits⟩ | ⟨v, hv, hfits⟩ := hhead.full hfull
    · exact .inl ⟨v, (strField?_oneOf hdistinct _).of_some (.inl hv), hfits⟩
    · exact .inr ⟨v, (readAssets_oneOf hdistinct).of_some (.inl hv), hfits⟩
  tag hfull := by
    -- The scan ends with a tag, so none can be among the members it does not reach.
    obtain ⟨-, htag, -⟩ := hhead.done hr hfull
    rw [(strField?_oneOf hdistinct _).eq_or, ← Option.or_assoc, ← hhead.tag hfull,
      Option.or_of_isSome htag]
  url hfull := by
    obtain ⟨-, -, hurl⟩ := hhead.done hr hfull
    rw [(readAssets_oneOf hdistinct).eq_or, ← Option.or_assoc, ← hhead.url hfull,
      Option.or_of_isSome hurl]
  shape hok := absurd hok hr
  done := hhead.done

end

/-- A member that adds nothing. -/
theorem Walked.none {f : Found} {m : Bytes × Json} (htag : strField? tagNameKey [m] = .none)
    (hassets : assets? [m] = some []) : Walked board tagCap urlCap f [m] (f, .ok) where
  full hr := by cases hr
  tag _ := by rw [htag, Option.or_none]
  url _ := by
    rw [readAssets, hassets]
    exact Option.or_none.symm
  shape _ := by
    rw [hassets]
    exact (Bool.or_false _).symm
  done hr := absurd rfl hr

/-- The tag. -/
theorem Walked.takeTag {f : Found} {m : Bytes × Json} {v : Bytes}
    (htag : strField? tagNameKey [m] = some v) (hassets : assets? [m] = some []) :
    Walked board tagCap urlCap f [m] (f.takeTag tagCap v) := by
  have hread : readAssets board [m] = .none := by rw [readAssets, hassets]; rfl
  rw [Found.takeTag]
  by_cases hfound : f.tag.isSome
  · rw [if_pos hfound]
    exact
      { full := fun hr => by cases hr
        tag := fun _ => (Option.or_of_isSome hfound).symm
        url := fun _ => by rw [hread, Option.or_none]
        shape := fun _ => by rw [hassets]; exact (Bool.or_false _).symm
        done := fun hr => absurd rfl hr }
  · have hnone : f.tag = .none := by simpa using hfound
    rw [if_neg hfound]
    cases hfits : fits tagCap v with
    | true =>
      rw [if_pos rfl]
      exact
        { full := fun hr => by cases hurl : f.url.isSome <;> simp [hurl, sinkDone] at hr
          tag := fun _ => by rw [hnone, htag]; rfl
          url := fun _ => by rw [hread, Option.or_none]
          shape := fun _ => by rw [hassets]; exact (Bool.or_false _).symm
          done := fun hr _ => by cases hurl : f.url.isSome <;> simp_all }
    | false =>
      rw [if_neg (by decide)]
      exact
        { full := fun _ => .inl ⟨v, htag, hfits⟩
          tag := fun hr => absurd rfl hr
          url := fun hr => absurd rfl hr
          shape := fun hr => by cases hr
          done := fun _ hr => absurd rfl hr }

/-- The assets. -/
theorem Walked.takeUrl {f : Found} {m : Bytes × Json} {js : List Json}
    (htag : strField? tagNameKey [m] = .none) (hassets : assets? [m] = some js) :
    Walked board tagCap urlCap f [m] (f.takeUrl urlCap (js.findSome? (readUrl board))) := by
  have hread : readAssets board [m] = js.findSome? (readUrl board) := by rw [readAssets, hassets]; rfl
  have hsame (hurl : f.url = f.url.or (readAssets board [m])) :
      Walked board tagCap urlCap f [m] (f, .ok) :=
    { full := fun hr => by cases hr
      tag := fun _ => by rw [htag, Option.or_none]
      url := fun _ => hurl
      shape := fun _ => by rw [hassets]; exact (Bool.or_false _).symm
      done := fun hr => absurd rfl hr }
  cases hv : js.findSome? (readUrl board) with
  | none => exact hsame (by rw [hread, hv, Option.or_none])
  | some v =>
    rw [Found.takeUrl]
    by_cases hfound : f.url.isSome
    · rw [if_pos hfound]
      exact hsame (Option.or_of_isSome hfound).symm
    · have hnone : f.url = .none := by simpa using hfound
      rw [if_neg hfound]
      cases hfits : fits urlCap v with
      | true =>
        rw [if_pos rfl]
        exact
          { full := fun hr => by cases htag : f.tag.isSome <;> simp [htag, sinkDone] at hr
            tag := fun _ => by rw [htag, Option.or_none]
            url := fun _ => by rw [hread, hnone, hv]; rfl
            shape := fun _ => by rw [hassets]; exact (Bool.or_false _).symm
            done := fun hr _ => by cases htag : f.tag.isSome <;> simp_all }
      | false =>
        rw [if_neg (by decide)]
        exact
          { full := fun _ => .inr ⟨v, hread.trans hv, hfits⟩
            tag := fun hr => absurd rfl hr
            url := fun hr => absurd rfl hr
            shape := fun hr => by cases hr
            done := fun _ hr => absurd rfl hr }

/-- A value of `assets` that is no array. -/
theorem Walked.badShape {f : Found} {m : Bytes × Json} (htag : strField? tagNameKey [m] = .none)
    (hassets : assets? [m] = .none) :
    Walked board tagCap urlCap f [m] ({ f with badShape := true }, .ok) where
  full hr := by cases hr
  tag _ := by rw [htag, Option.or_none]
  url _ := by
    rw [readAssets, hassets]
    exact Option.or_none.symm
  shape _ := by
    rw [hassets]
    exact (Bool.or_true _).symm
  done hr := absurd rfl hr

/-- One member. -/
theorem takeMember_walked (f : Found) (m : Bytes × Json) :
    Walked board tagCap urlCap f [m] (f.takeMember board tagCap urlCap m) := by
  obtain ⟨key, j⟩ := m
  have hassets := assets?_cons key j []
  have htag := strField?_cons tagNameKey (key, j) []
  unfold Found.takeMember
  by_cases hkeyTag : key = tagNameKey
  · subst hkeyTag
    rw [if_pos rfl] at htag
    rw [if_neg (by decide)] at hassets
    rw [if_pos rfl]
    cases j with
    | str v => exact .takeTag htag hassets
    | _ => exact .none htag hassets
  · rw [if_neg hkeyTag] at htag
    rw [if_neg hkeyTag]
    by_cases hkeyAssets : key = assetsKey
    · subst hkeyAssets
      rw [if_pos rfl] at hassets
      rw [if_pos rfl]
      cases j with
      | arr js => exact .takeUrl htag hassets
      | _ => exact .badShape htag hassets
    · rw [if_neg hkeyAssets] at hassets
      rw [if_neg hkeyAssets]
      exact .none htag hassets

/-- With distinct names the order of the members does not matter. -/
theorem takeMembers_spec {ms : Members} (hdistinct : ms.Distinct) (f : Found) :
    Walked board tagCap urlCap f ms (f.takeMembers board tagCap urlCap ms) := by
  induction ms generalizing f with
  | nil =>
    exact
      { full := fun hr => by cases hr
        tag := fun _ => Option.or_none.symm
        url := fun _ => Option.or_none.symm
        shape := fun _ => (Bool.or_false _).symm
        done := fun hr => absurd rfl hr }
  | cons m ms ih =>
    have hhead := @takeMember_walked board tagCap urlCap f m
    rcases htake : f.takeMember board tagCap urlCap m with ⟨f', e⟩
    rw [htake] at hhead
    by_cases hok : e = .ok
    · subst hok
      rw [Found.takeMembers_of_ok htake]
      exact hhead.cons hdistinct (ih (List.nodup_cons.mp hdistinct).2 f')
    · rw [Found.takeMembers_of_error htake hok]
      exact hhead.stop hdistinct hok

end

/-! ## The outcome -/

/-- What a parser should return for a manifest with these members. -/
def Correct (board : Bytes) (ms : Members) (e : Extract) : Prop :=
  (e.rc = .ok ↔ ∃ tag js, strField? tagNameKey ms = some tag ∧ assets? ms = some js) ∧
    ∀ tag js, strField? tagNameKey ms = some tag → assets? ms = some js →
      e.tag = tag ∧ e.url = (js.findSome? (assetUrl board)).getD []

/-- The tag and the URL of the board's asset fit the buffers. -/
def Fitting (board : Bytes) (tagCap urlCap : Nat) (ms : Members) : Prop :=
  (∀ tag, strField? tagNameKey ms = some tag → tag.length < tagCap) ∧
    ∀ js url, assets? ms = some js → js.findSome? (assetUrl board) = some url → url.length < urlCap

/--
The first URL that follows a name like the board's is the URL of the first asset of the board,
or there is neither.
-/
def ReadInOrder (board : Bytes) (ms : Members) : Prop :=
  ∀ tag js, strField? tagNameKey ms = some tag → assets? ms = some js →
    (js.findSome? (readUrl board)).getD [] = (js.findSome? (assetUrl board)).getD []

section

variable {board : Bytes} {tagCap urlCap : Nat} {s : SinkState} {f : Found}

theorem sinkFinalize_done (h : Shows board tagCap urlCap s f) :
    sinkFinalize s sinkDone = ⟨.ok, f.tag.getD [], f.url.getD []⟩ := by
  rw [sinkFinalize, if_pos rfl, h.tagOut, h.urlOut]

theorem sinkFinalize_ok (h : Shows board tagCap urlCap s f) :
    sinkFinalize s .ok = ⟨if f.badShape then .notFound else if f.tag.isSome then .ok else .notFound,
      f.tag.getD [], f.url.getD []⟩ := by
  have htag : (if s.tagFound then s.tagOut.text else []) = f.tag.getD [] := by
    rw [h.tagFound, h.tagOut]
    cases f.tag <;> rfl
  have hurl : (if s.urlFound then s.urlOut.text else []) = f.url.getD [] := by
    rw [h.urlFound, h.urlOut]
    cases f.url <;> rfl
  rw [sinkFinalize, if_neg (by decide), if_neg (by decide)]
  dsimp only
  rw [if_neg (by decide), htag, hurl, h.shape, h.tagFound]
  cases f.badShape <;> rfl

theorem sinkFinalize_full (s : SinkState) : (sinkFinalize s .noSpace).rc = .noSpace := by
  rw [sinkFinalize, if_neg (by decide), if_pos rfl]

/-- An outcome that shows what the walk found. -/
theorem correct_iff_of_found {ms : Members} {e : Extract}
    (hrc : e.rc = .ok ↔ ∃ tag js, strField? tagNameKey ms = some tag ∧ assets? ms = some js)
    (htag : e.tag = (strField? tagNameKey ms).getD [])
    (hurl : e.url = (readAssets board ms).getD []) :
    Correct board ms e ↔ ReadInOrder board ms := by
  have hread {js : List Json} (hjs : assets? ms = some js) :
      readAssets board ms = js.findSome? (readUrl board) := by
    rw [readAssets, hjs, Option.bind_some]
  constructor
  · rintro ⟨-, hout⟩ tag js hstr hjs
    rw [← hread hjs, ← hurl]
    exact (hout tag js hstr hjs).2
  · intro horder
    refine ⟨hrc, fun tag js hstr hjs => ⟨?_, ?_⟩⟩
    · rw [htag, hstr, Option.getD_some]
    · rw [hurl, hread hjs]
      exact horder tag js hstr hjs

/-- The outcome of a scan that ends like the walk. -/
theorem finalize_correct_iff {ms : Members} (hdistinct : ms.Distinct)
    (hfit : Fitting board tagCap urlCap ms) {place : SinkState → Prop} {p : SinkState × BbErr}
    (h : RunsTo board tagCap urlCap place p
      (Found.takeMembers board tagCap urlCap ⟨none, none, false⟩ ms)) :
    Correct board ms (sinkFinalize p.1 p.2) ↔ ReadInOrder board ms := by
  have hwalk := @takeMembers_spec board tagCap urlCap ms hdistinct ⟨none, none, false⟩
  rcases hr : Found.takeMembers board tagCap urlCap ⟨none, none, false⟩ ms with ⟨f, e⟩
  rw [hr] at h hwalk
  obtain ⟨s, rc⟩ := p
  obtain ⟨rfl, -, hshows⟩ := h
  dsimp only at hshows ⊢
  by_cases hfull : rc = .noSpace
  · -- Only a URL that is not that of the board's asset can be too long.
    subst hfull
    have hlong : ∃ v, readAssets board ms = some v ∧ fits urlCap v = false := by
      refine (hwalk.full rfl).resolve_left ?_
      rintro ⟨v, hv, hfits⟩
      have hlt := hfit.1 v hv
      simp [fits, hlt] at hfits
    obtain ⟨v, hv, hfits⟩ := hlong
    obtain ⟨js, hjs, hfirst⟩ := Option.bind_eq_some_iff.mp hv
    have hrc := sinkFinalize_full s
    constructor
    · rintro ⟨hok, -⟩ tag js' hstr hjs'
      rw [hok.mpr ⟨tag, js', hstr, hjs'⟩] at hrc
      cases hrc
    · intro horder
      have hne : ¬ ∃ tag, strField? tagNameKey ms = some tag := by
        rintro ⟨tag, hstr⟩
        have hsame := horder tag js hstr hjs
        rw [hfirst, Option.getD_some] at hsame
        cases hurl : js.findSome? (assetUrl board) with
        | none =>
          rw [hurl, Option.getD_none] at hsame
          simp [fits, hsame] at hfits
        | some url =>
          rw [hurl, Option.getD_some] at hsame
          have hlt := hfit.2 js url hjs hurl
          simp [fits, hsame, hlt] at hfits
      refine ⟨⟨fun hok => ?_, fun ⟨tag, _, hstr, _⟩ => absurd ⟨tag, hstr⟩ hne⟩,
        fun tag _ hstr _ => absurd ⟨tag, hstr⟩ hne⟩
      rw [hrc] at hok
      cases hok
  · have hshown := hshows hfull
    have htag : f.tag = strField? tagNameKey ms := hwalk.tag hfull
    have hurl : f.url = readAssets board ms := hwalk.url hfull
    by_cases hok : rc = .ok
    · subst hok
      have hshape : f.badShape = (assets? ms).isNone := hwalk.shape rfl
      rw [sinkFinalize_ok hshown]
      apply correct_iff_of_found _ (by rw [htag]) (by rw [hurl])
      rw [hshape, htag]
      cases hjs : assets? ms <;> cases hstr : strField? tagNameKey ms <;> simp
    · obtain ⟨hdone, htagSome, hurlSome⟩ := hwalk.done hok hfull
      obtain rfl : rc = sinkDone := hdone
      rw [sinkFinalize_done hshown]
      apply correct_iff_of_found _ (by rw [htag]) (by rw [hurl])
      obtain ⟨tag, htag'⟩ := Option.isSome_iff_exists.mp htagSome
      obtain ⟨url, hurl'⟩ := Option.isSome_iff_exists.mp hurlSome
      obtain ⟨js, hjs, -⟩ := Option.bind_eq_some_iff.mp (hurl.symm.trans hurl')
      exact ⟨fun _ => ⟨tag, js, htag.symm.trans htag', hjs⟩, fun _ => rfl⟩

/-- The scan of a document ends like the walk over its members. -/
theorem runEvents_document (tagOut urlOut : OutBuf) {ms : Members}
    (hdistinct : ∀ js, (assetsKey, .arr js) ∈ ms → ∀ ms', .obj ms' ∈ js → Members.Distinct ms') :
    RunsTo board tagOut.cap urlOut.cap (fun _ => True)
      (runEvents (sinkInit board tagOut urlOut) ((Json.obj ms).events []))
      (Found.takeMembers board tagOut.cap urlOut.cap ⟨none, none, false⟩ ms) := by
  have hbegin : sinkIngest (sinkInit board tagOut urlOut) (SerializeJson.callOf (.beginObj [])) =
      ({ sinkInit board tagOut urlOut with depth := 1 }, .ok) := by
    simp [SerializeJson.callOf, sinkIngest, sinkBeginObj, sinkInit, isToplevelAssetsKey]
  rw [Json.events, runEvents_cons_of_ok hbegin]
  exact AtRoot.members ⟨rfl, rfl, rfl⟩ ⟨rfl, rfl, rfl, rfl, rfl, rfl⟩ hdistinct

/-- A scan that only differs from a run when it is full has the same outcome. -/
theorem RunsTo.of_same {place : SinkState → Prop} {p q : SinkState × BbErr} {r : Found × BbErr}
    (h : RunsTo board tagCap urlCap place q r) (hsame : SameUnless .noSpace p q) :
    RunsTo board tagCap urlCap (fun _ => True) p r where
  code := hsame.1.trans h.code
  place _ := trivial
  shows hr := by
    have hcode : p.2 ≠ .noSpace := fun hp => hr (h.code.symm.trans (hsame.1.symm.trans hp))
    rw [hsame.2 hcode]
    exact h.shows hr

end

/-! ## The parsers -/

/-- The streaming parser's feeds and end are a streaming scan. -/
theorem parseGithubStreamEnd_eq (cfg : Kconfig) (st : StreamState) (chunks : List Bytes) :
    parseGithubStreamEnd (parseGithubStreamFeeds cfg st chunks) =
      match SerializeJson.scanFeeds cfg sinkIngest st.sink st.scan chunks with
      | (sink, scan, _) =>
        match SerializeJson.scanEnd sinkIngest sink scan with
        | (sink, _, rc) => sinkFinalize sink rc := by
  induction chunks generalizing st with
  | nil => rfl
  | cons chunk chunks ih =>
    rw [parseGithubStreamFeeds, List.foldl_cons]
    refine (ih _).trans ?_
    rw [SerializeJson.scanFeeds, parseGithubStreamFeed]

theorem parseGithubStream_eq {cfg : Kconfig} {chunks : List Bytes} {board : Bytes}
    {tagOut urlOut : OutBuf} (htag : 2 ≤ tagOut.cap) (hurl : 2 ≤ urlOut.cap) {p : SinkState × BbErr}
    {rcs : List BbErr}
    (h : SerializeJson.scanStream cfg sinkIngest (sinkInit board tagOut urlOut) chunks =
      (p.1, rcs ++ [p.2])) :
    parseGithubStream cfg chunks board tagOut urlOut = sinkFinalize p.1 p.2 := by
  have hcaps : ¬ (tagOut.cap < 2 ∨ urlOut.cap < 2) := by omega
  rw [parseGithubStream, parseGithubStreamBegin, if_neg hcaps]
  dsimp only
  rw [parseGithubStreamEnd_eq]
  rw [SerializeJson.scanStream] at h
  rcases hfeeds : SerializeJson.scanFeeds cfg sinkIngest (sinkInit board tagOut urlOut)
    SerializeJson.scanBegin chunks with ⟨sink, scan, rcs'⟩
  rw [hfeeds] at h
  dsimp only at h ⊢
  rcases hend : SerializeJson.scanEnd sinkIngest sink scan with ⟨sink', scan', rc⟩
  rw [hend] at h
  obtain ⟨rfl, hcodes⟩ := Prod.mk.inj h
  obtain ⟨-, hcode⟩ := List.append_inj' hcodes rfl
  cases hcode
  rfl

/--
On every JSON object the scanner accepts, with distinct names and with the tag and the URL
fitting the buffers, both parsers do what the manifest says, however the body is cut, exactly
when the first URL that follows a name like the board's is the URL of the board's first asset.
-/
theorem extract_correct_iff (cfg : Kconfig) (board body : Bytes) (ms : Members)
    (htext : IsText LaxNumber body ((Json.obj ms).events []))
    (hlimits : WithinLimits cfg ((Json.obj ms).events [])) (hdistinct : ms.Distinct)
    (hassets : ∀ js, (assetsKey, .arr js) ∈ ms → ∀ ms', .obj ms' ∈ js → Members.Distinct ms')
    (tagOut urlOut : OutBuf) (hfit : Fitting board tagOut.cap urlOut.cap ms) :
    (0 < tagOut.cap → 0 < urlOut.cap →
      (Correct board ms (parseGithub cfg body board tagOut urlOut) ↔ ReadInOrder board ms)) ∧
    (2 ≤ tagOut.cap → 2 ≤ urlOut.cap → ∀ chunks : List Bytes, chunks.flatten = body →
      (Correct board ms (parseGithubStream cfg chunks board tagOut urlOut) ↔
        ReadInOrder board ms)) := by
  have hrun := @runEvents_document board tagOut urlOut ms hassets
  constructor
  · intro htag hurl
    have hcaps : ¬ (tagOut.cap = 0 ∨ urlOut.cap = 0) := by omega
    have hsame := SerializeJson.scanBounded_events sinkIngest_joinsChunks htext hlimits
      (sinkInit board tagOut urlOut)
    rw [parseGithub, if_neg hcaps]
    exact finalize_correct_iff hdistinct hfit (hrun.of_same hsame)
  · rintro htag hurl chunks rfl
    obtain ⟨p, rcs, hsame, hstream⟩ := SerializeJson.scanStream_events sinkIngest_joinsChunks htext
      hlimits (sinkInit board tagOut urlOut)
    rw [parseGithubStream_eq htag hurl hstream]
    exact finalize_correct_iff hdistinct hfit (hrun.of_same hsame)

/-- A body that gives the name of the asset before its URL. -/
def bodyInOrder : Bytes :=
  [123, 34, 97, 115, 115, 101, 116, 115, 34, 58, 91, 123, 34, 110, 97, 109, 101, 34, 58, 34, 98,
  46, 98, 105, 110, 34, 44, 34, 98, 114, 111, 119, 115, 101, 114, 95, 100, 111, 119, 110, 108,
  111, 97, 100, 95, 117, 114, 108, 34, 58, 34, 117, 34, 125, 93, 44, 34, 116, 97, 103, 95, 110,
  97, 109, 101, 34, 58, 34, 118, 49, 34, 125]

/-- Its members: the asset `b.bin` at `u`, and the tag `v1`. -/
def membersInOrder : Members :=
  [(assetsKey, .arr [.obj [(nameKey, .str [98, 46, 98, 105, 110]), (urlKey, .str [117])]]),
    (tagNameKey, .str [118, 49])]

example : Kconfig.default.reading (bodyInOrder.take 30) = none := by decide +kernel

/-- Both parsers, the streaming one with the body in two chunks. -/
theorem extract_correct_iff_inOrder :
    (Correct [98] membersInOrder (parseGithub .default bodyInOrder [98] ⟨[], 32⟩ ⟨[], 256⟩) ↔
      ReadInOrder [98] membersInOrder) ∧
    (Correct [98] membersInOrder (parseGithubStream .default
        [bodyInOrder.take 30, bodyInOrder.drop 30] [98] ⟨[], 32⟩ ⟨[], 256⟩) ↔
      ReadInOrder [98] membersInOrder) := by
  have hreading : Kconfig.default.reading bodyInOrder =
      some ((Json.obj membersInOrder).events []) := by
    decide +kernel
  obtain ⟨htext, hlimits⟩ := (SerializeJson.reading_eq_some_iff _ _ _).mp hreading
  have hassets : ∀ js, (assetsKey, .arr js) ∈ membersInOrder →
      ∀ ms', .obj ms' ∈ js → Members.Distinct ms' := by
    intro js hjs ms' hms'
    simp only [membersInOrder, List.mem_cons, Prod.mk.injEq, Json.arr.injEq, true_and, reduceCtorEq,
      and_false, List.not_mem_nil, or_false] at hjs
    subst hjs
    simp only [List.mem_singleton, Json.obj.injEq] at hms'
    subst hms'
    unfold Members.Distinct
    decide
  have hfit : Fitting [98] 32 256 membersInOrder := by
    constructor
    · intro tag htag
      cases htag
      decide
    · intro js url hjs hurl
      cases hjs
      cases hurl
      decide
  obtain ⟨hbounded, hstream⟩ := extract_correct_iff .default [98] bodyInOrder membersInOrder htext
    hlimits (by unfold Members.Distinct; decide) hassets ⟨[], 32⟩ ⟨[], 256⟩ hfit
  exact ⟨hbounded (by decide) (by decide), hstream (by decide) (by decide) _ (by decide)⟩

/-- A body that gives the URL of the asset before its name. -/
def bodyUrlFirst : Bytes :=
  [123, 34, 116, 97, 103, 95, 110, 97, 109, 101, 34, 58, 34, 118, 49, 34, 44, 34, 97, 115, 115,
  101, 116, 115, 34, 58, 91, 123, 34, 98, 114, 111, 119, 115, 101, 114, 95, 100, 111, 119, 110,
  108, 111, 97, 100, 95, 117, 114, 108, 34, 58, 34, 117, 34, 44, 34, 110, 97, 109, 101, 34, 58,
  34, 98, 46, 98, 105, 110, 34, 125, 93, 125]

/-- Its members. -/
def membersUrlFirst : Members :=
  [(tagNameKey, .str [118, 49]),
    (assetsKey, .arr [.obj [(urlKey, .str [117]), (nameKey, .str [98, 46, 98, 105, 110])]])]

/-- The URL of the asset is not found: the code is that of a manifest without an asset. -/
theorem url_before_name_missed :
    Kconfig.default.reading bodyUrlFirst = some ((Json.obj membersUrlFirst).events []) ∧
      membersUrlFirst.Distinct ∧ Fitting [98] 32 256 membersUrlFirst ∧
      parseGithub .default bodyUrlFirst [98] ⟨[], 32⟩ ⟨[], 256⟩ = ⟨.ok, [118, 49], []⟩ ∧
      ¬ Correct [98] membersUrlFirst
        (parseGithub .default bodyUrlFirst [98] ⟨[], 32⟩ ⟨[], 256⟩) := by
  have hparse : parseGithub .default bodyUrlFirst [98] ⟨[], 32⟩ ⟨[], 256⟩ =
      ⟨.ok, [118, 49], []⟩ := by
    decide +kernel
  have hdistinct : membersUrlFirst.Distinct := by
    unfold Members.Distinct
    decide
  have hfit : Fitting [98] 32 256 membersUrlFirst := by
    constructor
    · intro tag htag
      cases htag
      decide
    · intro js url hjs hurl
      cases hjs
      cases hurl
      decide
  refine ⟨by decide +kernel, hdistinct, hfit, hparse, ?_⟩
  rw [hparse]
  rintro ⟨-, hout⟩
  have hurl := (hout [118, 49] _ rfl rfl).2
  cases hurl

end ReleaseManifest
end Breadboard
