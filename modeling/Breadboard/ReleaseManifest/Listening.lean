import Breadboard.Foundations.JsonTree
import Breadboard.SerializeJson.Rejecting
import Breadboard.ReleaseManifest.Sink

/-!
# bb_release_manifest - what the sink listens to

The sink treats the chunks of a string like the whole string, so it can be run over the
events of a document.  Below the places it looks at it is deaf: a value of any shape leaves
it as it was, whatever its keys are called.

Main results:

- Theorem `sinkIngest_joinsChunks`: the cutting of strings does not matter.
- Theorem `Deaf.value`: a value below the places the sink looks at changes nothing.
-/

namespace Breadboard
namespace ReleaseManifest

open Foundations.JsonText (Event Json Members elemsEvents membersEvents)
open SerializeJson (Call JoinsChunks SameUnless callOf deliverCalls_append_of_ok
  deliverCalls_append_of_error)
open SerializeJson.Scan (deliverCalls)

/-! ## Chunks -/

theorem sinkAppend_nil (dst : OutBuf) : sinkAppend dst [] = (dst, .ok) := rfl

/-- An append is refused for want of space only. -/
theorem sinkAppend_code (dst : OutBuf) (v : Bytes) :
    sinkAppend dst v = ({ dst with text := dst.text ++ v }, .ok) ∨
      sinkAppend dst v = (dst, .noSpace) ∧ v ≠ [] ∧ dst.cap < dst.text.length + v.length + 1 := by
  unfold sinkAppend
  by_cases hv : v = []
  · subst hv
    rw [if_pos rfl, List.append_nil]
    exact .inl rfl
  · rw [if_neg hv]
    by_cases hcap : dst.cap < dst.text.length + v.length + 1
    · rw [if_pos hcap]
      exact .inr ⟨rfl, hv, hcap⟩
    · rw [if_neg hcap]
      exact .inl rfl

/-- Two appends are one. -/
theorem sinkAppend_append {dst : OutBuf} {v : Bytes}
    (h : sinkAppend dst v = ({ dst with text := dst.text ++ v }, .ok)) (w : Bytes) :
    (sinkAppend { dst with text := dst.text ++ v } w).2 = (sinkAppend dst (v ++ w)).2 ∧
      ((sinkAppend dst (v ++ w)).2 = .ok →
        sinkAppend { dst with text := dst.text ++ v } w = sinkAppend dst (v ++ w)) := by
  by_cases hw : w = []
  · subst hw
    rw [List.append_nil, sinkAppend_nil, h]
    exact ⟨rfl, fun _ => rfl⟩
  · have hvw : v ++ w ≠ [] := by simp [hw]
    unfold sinkAppend
    rw [if_neg hw, if_neg hvw]
    have hlen : (dst.text ++ v).length + w.length + 1 = dst.text.length + (v ++ w).length + 1 := by
      rw [List.length_append, List.length_append]
      omega
    dsimp only
    rw [hlen]
    by_cases hcap : dst.cap < dst.text.length + (v ++ w).length + 1
    · rw [if_pos hcap, if_pos hcap]
      exact ⟨rfl, fun hok => by cases hok⟩
    · rw [if_neg hcap, if_neg hcap, List.append_assoc]
      exact ⟨rfl, fun _ => rfl⟩

/-- What does not fit does not fit with more after it. -/
theorem sinkAppend_refused {dst : OutBuf} {v : Bytes} (h : sinkAppend dst v = (dst, .noSpace))
    (w : Bytes) : sinkAppend dst (v ++ w) = (dst, .noSpace) := by
  rcases sinkAppend_code dst v with hok | ⟨-, hv, hcap⟩
  · rw [hok] at h
    cases congrArg Prod.snd h
  · have hvw : v ++ w ≠ [] := by simp [hv]
    have hcap' : dst.cap < dst.text.length + (v ++ w).length + 1 := by
      rw [List.length_append]
      omega
    rw [sinkAppend, if_neg hvw, if_pos hcap']

/-- A comparison buffer holds the first bytes of what was appended. -/
theorem sinkAppendTruncate_append (dst v w : Bytes) (cap : Nat) :
    sinkAppendTruncate (sinkAppendTruncate dst cap v) cap w = sinkAppendTruncate dst cap (v ++ w) := by
  unfold sinkAppendTruncate
  by_cases hdst : cap ≤ dst.length + 1
  · rw [if_pos hdst, if_pos hdst, if_pos hdst]
  · rw [if_neg hdst, if_neg hdst, List.length_append, List.length_take, List.take_append]
    by_cases hv : v.length ≤ cap - dst.length - 1
    · rw [Nat.min_eq_right hv, List.take_of_length_le hv]
      by_cases hfull : cap ≤ dst.length + v.length + 1
      · have hzero : cap - dst.length - 1 - v.length = 0 := by omega
        rw [if_pos hfull, hzero, List.take_zero, List.append_nil]
      · have hroom : cap - (dst.length + v.length) - 1 = cap - dst.length - 1 - v.length := by omega
        rw [if_neg hfull, hroom, List.append_assoc]
    · have hfull : cap ≤ dst.length + min (cap - dst.length - 1) v.length + 1 := by omega
      have hzero : cap - dst.length - 1 - v.length = 0 := by omega
      rw [if_pos hfull, hzero, List.take_zero, List.append_nil]

/-- The comparison buffer after a whole name. -/
theorem sinkAppendTruncate_nil (v : Bytes) :
    sinkAppendTruncate [] sinkNameMax v = v.take (sinkNameMax - 1) := by
  rw [sinkAppendTruncate, if_neg (by decide)]
  rfl

/-! ## Which string a call adds to -/

/-- A chunk of the tag. -/
def HearsTag (s : SinkState) (key : Bytes) : Prop :=
  s.tagFound = false ∧ s.depth = 1 ∧ key = tagNameKey

/-- A chunk of the name of an asset. -/
def HearsName (s : SinkState) (key : Bytes) : Prop :=
  s.inAssetObj = true ∧ s.assetNameMatched = false ∧ s.depth = s.assetObjDepth + 1 ∧ key = nameKey

/-- A chunk of the URL of the asset of the board. -/
def HearsUrl (s : SinkState) (key : Bytes) : Prop :=
  s.inAssetObj = true ∧ s.assetNameMatched = true ∧ s.urlFound = false ∧
    s.depth = s.assetObjDepth + 1 ∧ key = urlKey

theorem markIfAssetsScalar_of_ne (s : SinkState) {key : Bytes} (h : key ≠ assetsKey) :
    markIfAssetsScalar s key = s := by
  simp [markIfAssetsScalar, isToplevelAssetsKey, h]

section

variable {s : SinkState} {key : Bytes}

theorem sinkValueStrChunk_tag (h : HearsTag s key) (chunk : Bytes) (last : Bool) :
    sinkValueStrChunk s key chunk last =
      match sinkAppend s.tagOut chunk with
      | (tagOut, .ok) =>
        if last then
          ({ s with tagOut := tagOut, tagFound := true }, if s.urlFound then sinkDone else .ok)
        else ({ s with tagOut := tagOut }, .ok)
      | (_, rc) => (s, rc) := by
  have hkey : key ≠ assetsKey := h.2.2 ▸ by decide
  simp only [sinkValueStrChunk]
  rw [markIfAssetsScalar_of_ne s hkey]
  exact if_pos (by simpa [HearsTag] using h)

theorem sinkValueStrChunk_name (h : HearsName s key) (chunk : Bytes) (last : Bool) :
    sinkValueStrChunk s key chunk last =
      ({ s with
          nameTmp := sinkAppendTruncate s.nameTmp sinkNameMax chunk
          assetNameMatched :=
            last && decide (sinkAppendTruncate s.nameTmp sinkNameMax chunk = s.boardName) }, .ok) := by
  have hkey : key ≠ assetsKey := h.2.2.2 ▸ by decide
  have htag : key ≠ tagNameKey := h.2.2.2 ▸ by decide
  simp only [sinkValueStrChunk]
  rw [if_neg (by simp [htag]), if_pos (by simpa [HearsName] using h),
    markIfAssetsScalar_of_ne s hkey]
  cases last
  · simp [h.2.1]
  · rfl

theorem sinkValueStrChunk_url (h : HearsUrl s key) (chunk : Bytes) (last : Bool) :
    sinkValueStrChunk s key chunk last =
      match sinkAppend s.urlOut chunk with
      | (urlOut, .ok) =>
        if last then
          ({ s with urlOut := urlOut, urlFound := true }, if s.tagFound then sinkDone else .ok)
        else ({ s with urlOut := urlOut }, .ok)
      | (_, rc) => (s, rc) := by
  have hkey : key ≠ assetsKey := h.2.2.2.2 ▸ by decide
  have htag : key ≠ tagNameKey := h.2.2.2.2 ▸ by decide
  have hname : key ≠ nameKey := h.2.2.2.2 ▸ by decide
  simp only [sinkValueStrChunk]
  rw [markIfAssetsScalar_of_ne s hkey, if_neg (by simp [htag]), if_neg (by simp [hname])]
  exact if_pos (by simpa [HearsUrl] using h)

theorem sinkValueStrChunk_other (htag : ¬ HearsTag s key) (hname : ¬ HearsName s key)
    (hurl : ¬ HearsUrl s key) (chunk : Bytes) (last : Bool) :
    sinkValueStrChunk s key chunk last = (markIfAssetsScalar s key, .ok) := by
  simp only [sinkValueStrChunk]
  rw [if_neg (by simpa [HearsTag] using htag), if_neg (by simpa [HearsName] using hname),
    if_neg (by simpa [HearsUrl] using hurl)]

end

theorem markIfAssetsScalar_mark (s : SinkState) (key : Bytes) :
    markIfAssetsScalar (markIfAssetsScalar s key) key = markIfAssetsScalar s key := by
  unfold markIfAssetsScalar
  split
  · rfl
  · rfl

/-- The mark is not looked at. -/
theorem hears_mark (s : SinkState) (key key' : Bytes) :
    (HearsTag (markIfAssetsScalar s key) key' ↔ HearsTag s key') ∧
      (HearsName (markIfAssetsScalar s key) key' ↔ HearsName s key') ∧
      (HearsUrl (markIfAssetsScalar s key) key' ↔ HearsUrl s key') := by
  unfold markIfAssetsScalar
  split
  · exact ⟨Iff.rfl, Iff.rfl, Iff.rfl⟩
  · exact ⟨Iff.rfl, Iff.rfl, Iff.rfl⟩

/-- A string that is copied, in chunks and whole. -/
theorem SameUnless.of_append {dst : OutBuf} {v : Bytes} {put : OutBuf → SinkState × BbErr}
    {s s' : SinkState} (w : Bytes)
    (happend : sinkAppend dst v = ({ dst with text := dst.text ++ v }, .ok))
    {p q : SinkState × BbErr}
    (hp : p = match sinkAppend { dst with text := dst.text ++ v } w with
      | (out, .ok) => put out
      | (_, rc) => (s', rc))
    (hq : q = match sinkAppend dst (v ++ w) with
      | (out, .ok) => put out
      | (_, rc) => (s, rc)) : SameUnless .noSpace p q := by
  obtain ⟨hcode, hsame⟩ := sinkAppend_append happend w
  rcases sinkAppend_code dst (v ++ w) with hok | ⟨hfull, -⟩
  · rw [hsame (congrArg Prod.snd hok)] at hp
    rw [hok] at hp hq
    rw [hp, hq]
    exact .refl ..
  · rw [hfull] at hcode hq
    rcases hx : sinkAppend { dst with text := dst.text ++ v } w with ⟨out, rc⟩
    rw [hx] at hcode hp
    obtain rfl : rc = .noSpace := hcode
    rw [hp, hq]
    exact ⟨rfl, fun hne => absurd rfl hne⟩

/-- The sink does not see how a string is cut, unless it runs out of space in it. -/
theorem sinkIngest_joinsChunks : JoinsChunks sinkIngest .noSpace where
  full_ne_ok := by decide
  provenance _ _ _ _ _ _ := rfl
  join s s' key v w last p h := by
    change sinkValueStrChunk s key v false = (s', .ok) at h
    change SameUnless .noSpace (sinkValueStrChunk s' key w last)
      (sinkValueStrChunk s key (v ++ w) last)
    by_cases htag : HearsTag s key
    · rw [sinkValueStrChunk_tag htag] at h
      rcases sinkAppend_code s.tagOut v with hok | ⟨hfull, -⟩
      · rw [hok] at h
        cases h
        refine SameUnless.of_append w hok (sinkValueStrChunk_tag ?_ w last)
          (sinkValueStrChunk_tag htag (v ++ w) last)
        exact htag
      · rw [hfull] at h
        cases h
    by_cases hname : HearsName s key
    · rw [sinkValueStrChunk_name hname, Bool.false_and] at h
      cases h
      have hname' : HearsName { s with
          nameTmp := sinkAppendTruncate s.nameTmp sinkNameMax v
          assetNameMatched := false } key := ⟨hname.1, rfl, hname.2.2⟩
      rw [sinkValueStrChunk_name hname (v ++ w), ← sinkAppendTruncate_append]
      rw [sinkValueStrChunk_name hname' w]
      exact .refl ..
    by_cases hurl : HearsUrl s key
    · rw [sinkValueStrChunk_url hurl] at h
      rcases sinkAppend_code s.urlOut v with hok | ⟨hfull, -⟩
      · rw [hok] at h
        cases h
        refine SameUnless.of_append w hok (sinkValueStrChunk_url ?_ w last)
          (sinkValueStrChunk_url hurl (v ++ w) last)
        exact hurl
      · rw [hfull] at h
        cases h
    · rw [sinkValueStrChunk_other htag hname hurl] at h
      cases h
      obtain ⟨htag', hname', hurl'⟩ := hears_mark s key key
      rw [sinkValueStrChunk_other htag hname hurl, sinkValueStrChunk_other (mt htag'.mp htag)
        (mt hname'.mp hname) (mt hurl'.mp hurl), markIfAssetsScalar_mark]
      exact .refl ..
  refuse s key v w last p h := by
    change (sinkValueStrChunk s key v false).2 ≠ .ok at h
    change (sinkValueStrChunk s key v false).2 = .noSpace ∧
      (sinkValueStrChunk s key (v ++ w) last).2 = .noSpace
    by_cases htag : HearsTag s key
    · rw [sinkValueStrChunk_tag htag] at h ⊢
      rw [sinkValueStrChunk_tag htag]
      rcases sinkAppend_code s.tagOut v with hok | ⟨hfull, -⟩
      · rw [hok] at h
        exact absurd rfl h
      · rw [hfull, sinkAppend_refused hfull w]
        exact ⟨rfl, rfl⟩
    by_cases hname : HearsName s key
    · rw [sinkValueStrChunk_name hname] at h
      exact absurd rfl h
    by_cases hurl : HearsUrl s key
    · rw [sinkValueStrChunk_url hurl] at h ⊢
      rw [sinkValueStrChunk_url hurl]
      rcases sinkAppend_code s.urlOut v with hok | ⟨hfull, -⟩
      · rw [hok] at h
        exact absurd rfl h
      · rw [hfull, sinkAppend_refused hfull w]
        exact ⟨rfl, rfl⟩
    · rw [sinkValueStrChunk_other htag hname hurl] at h
      exact absurd rfl h

/-! ## Events -/

/-- The sink over events, until it stops the scan. -/
def runEvents (s : SinkState) (evs : List Event) : SinkState × BbErr :=
  deliverCalls sinkIngest s (evs.map callOf)

section

variable {s s' : SinkState} {evs : List Event}

theorem runEvents_append_of_ok (h : runEvents s evs = (s', .ok)) (evs' : List Event) :
    runEvents s (evs ++ evs') = runEvents s' evs' := by
  unfold runEvents at *
  rw [List.map_append]
  exact deliverCalls_append_of_ok h _

theorem runEvents_append_of_error {e : BbErr} (h : runEvents s evs = (s', e)) (he : e ≠ .ok)
    (evs' : List Event) : runEvents s (evs ++ evs') = (s', e) := by
  unfold runEvents at *
  rw [List.map_append]
  exact deliverCalls_append_of_error h he _

theorem runEvents_cons_of_ok {e : Event} (h : sinkIngest s (callOf e) = (s', .ok))
    (evs : List Event) : runEvents s (e :: evs) = runEvents s' evs :=
  SerializeJson.deliverCalls_cons_of_ok h _

theorem runEvents_singleton (s : SinkState) (e : Event) :
    runEvents s [e] = sinkIngest s (callOf e) := by
  rw [runEvents, List.map_singleton, deliverCalls]
  rcases sinkIngest s (callOf e) with ⟨s', rc⟩
  cases rc <;> rfl

/-- Members that change nothing, up to the next one. -/
theorem runEvents_inert {ms : Members} (h : ∀ m ∈ ms, runEvents s (m.2.events m.1) = (s, .ok))
    (ms' : Members) : runEvents s (membersEvents (ms ++ ms')) = runEvents s (membersEvents ms') := by
  induction ms with
  | nil => rfl
  | cons m ms ih =>
    obtain ⟨key, j⟩ := m
    rw [List.cons_append, membersEvents, runEvents_append_of_ok (h _ (List.mem_cons_self ..))]
    exact ih fun m hmem => h m (List.mem_cons_of_mem _ hmem)

end

/-! ## Values the sink does not look at -/

/-- Inside a value that no member or element the sink looks for can be in. -/
structure Deaf (s : SinkState) : Prop where
  depth : 2 ≤ s.depth
  arr : s.inAssets = true → s.assetsArrDepth < s.depth
  elem : s.inAssets = true → s.inAssetObj = false → s.assetsElemDepth < s.depth
  asset : s.inAssetObj = true → s.assetObjDepth + 1 < s.depth

theorem isToplevelAssetsKey_of_ne {depth : Int} (h : depth ≠ 1) (key : Bytes) :
    isToplevelAssetsKey depth key = false := by
  simp [isToplevelAssetsKey, h]

/-- The end of an object that is no asset. -/
theorem sinkEndObj_back {s : SinkState} (h : s.inAssetObj = true → s.depth ≠ s.assetObjDepth) :
    sinkEndObj { s with depth := s.depth + 1 } = s := by
  have hnot : ¬ (s.inAssetObj = true ∧ s.depth = s.assetObjDepth) := fun ⟨hobj, hdepth⟩ =>
    h hobj hdepth
  simp only [sinkEndObj, Int.add_sub_cancel, if_neg hnot]

/-- The end of an array that is not `assets`. -/
theorem sinkEndArr_back {s : SinkState} (h : s.inAssets = true → s.depth ≠ s.assetsArrDepth) :
    sinkEndArr { s with depth := s.depth + 1 } = s := by
  have hnot : ¬ (s.inAssets = true ∧ s.depth = s.assetsArrDepth) := fun ⟨hin, hdepth⟩ =>
    h hin hdepth
  simp only [sinkEndArr, Int.add_sub_cancel, if_neg hnot]

namespace Deaf

variable {s : SinkState}

theorem not_toplevel (h : Deaf s) (key : Bytes) : isToplevelAssetsKey s.depth key = false := by
  have hdepth := h.depth
  exact isToplevelAssetsKey_of_ne (by omega) key

theorem deeper (h : Deaf s) : Deaf { s with depth := s.depth + 1 } where
  depth := by have := h.depth; simp only; omega
  arr hin := by have := h.arr hin; simp only; omega
  elem hin hobj := by have := h.elem hin hobj; simp only; omega
  asset hobj := by have := h.asset hobj; simp only; omega

theorem mark (h : Deaf s) (key : Bytes) : markIfAssetsScalar s key = s := by
  simp [markIfAssetsScalar, h.not_toplevel]

theorem string (h : Deaf s) (key v : Bytes) (last : Bool) :
    sinkValueStrChunk s key v last = (s, .ok) := by
  have htag : ¬ HearsTag s key := fun ⟨_, hdepth, _⟩ => by
    have := h.depth
    omega
  have hname : ¬ HearsName s key := fun ⟨hobj, _, hdepth, _⟩ => by
    have := h.asset hobj
    omega
  have hurl : ¬ HearsUrl s key := fun ⟨hobj, _, _, hdepth, _⟩ => by
    have := h.asset hobj
    omega
  rw [sinkValueStrChunk_other htag hname hurl, h.mark]

theorem beginObj (h : Deaf s) (key : Bytes) :
    sinkBeginObj s key = { s with depth := s.depth + 1 } := by
  have hnot : ¬ (s.inAssets = true ∧ ¬ s.inAssetObj = true ∧ s.depth = s.assetsElemDepth) := by
    rintro ⟨hin, hobj, hdepth⟩
    have := h.elem hin (by simpa using hobj)
    omega
  simp only [sinkBeginObj, h.not_toplevel, Bool.false_eq_true, and_false, if_false, if_neg hnot]

theorem beginArr (h : Deaf s) (key : Bytes) :
    sinkBeginArr s key = { s with depth := s.depth + 1 } := by
  simp only [sinkBeginArr, h.not_toplevel, Bool.false_eq_true, and_false, if_false]

theorem endObj (h : Deaf s) : sinkEndObj { s with depth := s.depth + 1 } = s := by
  apply sinkEndObj_back
  intro hobj
  have := h.asset hobj
  omega

theorem endArr (h : Deaf s) : sinkEndArr { s with depth := s.depth + 1 } = s := by
  apply sinkEndArr_back
  intro hin
  have := h.arr hin
  omega

end Deaf

mutual

/-- A value the sink is deaf to changes nothing, whatever is in it. -/
theorem Deaf.value {s : SinkState} (h : Deaf s) (key : Bytes) :
    ∀ j : Json, runEvents s (j.events key) = (s, .ok)
  | .null => by
    rw [Json.events, runEvents_singleton, callOf, sinkIngest, h.mark]
  | .bool v => by
    rw [Json.events, runEvents_singleton, callOf, sinkIngest, h.mark]
  | .num text => by
    rw [Json.events, runEvents_singleton, callOf, sinkIngest, h.mark]
  | .str value => by
    rw [Json.events, runEvents_singleton, callOf, sinkIngest, h.string]
  | .arr elems => by
    have hbegin : sinkIngest s (callOf (.beginArr key)) = ({ s with depth := s.depth + 1 }, .ok) := by
      rw [callOf, sinkIngest, h.beginArr]
    rw [Json.events, runEvents_cons_of_ok hbegin, Deaf.elems h.deeper elems, h.endArr]
  | .obj members => by
    have hbegin : sinkIngest s (callOf (.beginObj key)) = ({ s with depth := s.depth + 1 }, .ok) := by
      rw [callOf, sinkIngest, h.beginObj]
    rw [Json.events, runEvents_cons_of_ok hbegin, Deaf.members h.deeper members, h.endObj]

theorem Deaf.elems {s : SinkState} (h : Deaf s) :
    ∀ js : List Json, runEvents s (elemsEvents js) = (sinkEndArr s, .ok)
  | [] => by rw [elemsEvents, runEvents_singleton, callOf, sinkIngest]
  | j :: js => by
    rw [elemsEvents, runEvents_append_of_ok (Deaf.value h [] j)]
    exact Deaf.elems h js

theorem Deaf.members {s : SinkState} (h : Deaf s) :
    ∀ ms : Members, runEvents s (membersEvents ms) = (sinkEndObj s, .ok)
  | [] => by rw [membersEvents, runEvents_singleton, callOf, sinkIngest]
  | (key, j) :: ms => by
    rw [membersEvents, runEvents_append_of_ok (Deaf.value h key j)]
    exact Deaf.members h ms

end

end ReleaseManifest
end Breadboard
