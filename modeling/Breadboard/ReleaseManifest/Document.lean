import Breadboard.ReleaseManifest.Listening

/-!
# bb_release_manifest - the sink over a document

What a release manifest says, member by member: the tag, the URL of the asset of the board,
and the shape of `assets`.  Next to it stands what the sink reads, on the same tree: the
URL that follows a name which agrees with the board's on the bytes the sink compares.

Main results:

- Theorem `AtAsset.members`: the sink over the members of an asset.
- Theorem `AtRoot.members`: the sink over a document, as a walk over its members.
-/

namespace Breadboard
namespace ReleaseManifest

open Foundations.JsonText (Event Json Members elemsEvents membersEvents field? strField? field?_cons
  field?_eq_none_iff field?_eq_some_iff strField?_cons)

/-! ## What a manifest says -/

/-- The assets, unless `assets` is there and is no array. -/
def assets? (ms : Members) : Option (List Json) :=
  match field? assetsKey ms with
  | none => some []
  | some (.arr js) => some js
  | some _ => none

/-- The URL of an asset, when its name is that of the board. -/
def assetUrl (board : Bytes) : Json → Option Bytes
  | .obj ms => if strField? nameKey ms = some (board ++ binSuffix) then strField? urlKey ms else none
  | _ => none

/-! ## What the sink reads -/

/-- The comparison of a name with that of the board, on the bytes that are kept of both. -/
def namedAlike (board name : Bytes) : Bool :=
  name.take (sinkNameMax - 1) = storedBoardName board

/-- The URL among the members after the name, when the name is taken for that of the board. -/
def urlAfterName (board : Bytes) (ms : Members) : Option Bytes :=
  match ms.dropWhile fun m => m.1 ≠ nameKey with
  | (_, .str name) :: rest => if namedAlike board name then strField? urlKey rest else none
  | _ => none

/-- The URL the sink takes from an asset. -/
def readUrl (board : Bytes) : Json → Option Bytes
  | .obj ms => urlAfterName board ms
  | _ => none

/-- What was found so far. -/
structure Found where
  tag : Option Bytes
  url : Option Bytes
  badShape : Bool
  deriving Repr, DecidableEq

/-- A string and its terminator fit a buffer; the empty string is never written. -/
def fits (cap : Nat) (v : Bytes) : Bool := v = [] ∨ v.length < cap

/-- The first tag is taken; with a URL that ends the scan. -/
def Found.takeTag (f : Found) (cap : Nat) (v : Bytes) : Found × BbErr :=
  if f.tag.isSome then (f, .ok)
  else if fits cap v then ({ f with tag := some v }, if f.url.isSome then sinkDone else .ok)
  else (f, .noSpace)

/-- The first URL is taken; with a tag that ends the scan. -/
def Found.takeUrl (f : Found) (cap : Nat) : Option Bytes → Found × BbErr
  | none => (f, .ok)
  | some v =>
    if f.url.isSome then (f, .ok)
    else if fits cap v then ({ f with url := some v }, if f.tag.isSome then sinkDone else .ok)
    else (f, .noSpace)

section

variable (board : Bytes) (tagCap urlCap : Nat)

/-- One member of the document. -/
def Found.takeMember (f : Found) (m : Bytes × Json) : Found × BbErr :=
  if m.1 = tagNameKey then
    match m.2 with
    | .str v => f.takeTag tagCap v
    | _ => (f, .ok)
  else if m.1 = assetsKey then
    match m.2 with
    | .arr js => f.takeUrl urlCap (js.findSome? (readUrl board))
    | _ => ({ f with badShape := true }, .ok)
  else (f, .ok)

/-- The members of the document, until the scan ends. -/
def Found.takeMembers : Found → Members → Found × BbErr
  | f, [] => (f, .ok)
  | f, m :: ms =>
    match f.takeMember board tagCap urlCap m with
    | (f', .ok) => takeMembers f' ms
    | r => r

/-- The sink has what was found in its buffers and flags. -/
structure Shows (s : SinkState) (f : Found) : Prop where
  tagOut : s.tagOut = ⟨f.tag.getD [], tagCap⟩
  urlOut : s.urlOut = ⟨f.url.getD [], urlCap⟩
  tagFound : s.tagFound = f.tag.isSome
  urlFound : s.urlFound = f.url.isSome
  shape : s.assetsInvalidShape = f.badShape
  boardName : s.boardName = storedBoardName board

end

theorem sinkAppend_empty (cap : Nat) (v : Bytes) :
    sinkAppend ⟨[], cap⟩ v = if fits cap v then (⟨v, cap⟩, .ok) else (⟨[], cap⟩, .noSpace) := by
  unfold sinkAppend fits
  by_cases hv : v = []
  · simp [hv]
  · simp only [hv, false_or, List.length_nil, List.nil_append, decide_eq_true_eq, Nat.zero_add]
    by_cases hcap : v.length < cap
    · rw [if_pos hcap, if_neg (Nat.not_lt_of_le hcap)]
      rfl
    · rw [if_neg hcap, if_pos (Nat.lt_succ_of_le (Nat.le_of_not_lt hcap))]
      rfl

section

variable {board : Bytes} {tagCap urlCap : Nat} {f f' : Found} {m : Bytes × Json}

theorem Found.takeMembers_of_ok (h : f.takeMember board tagCap urlCap m = (f', .ok)) (ms : Members) :
    f.takeMembers board tagCap urlCap (m :: ms) = f'.takeMembers board tagCap urlCap ms := by
  rw [Found.takeMembers, h]

theorem Found.takeMembers_of_error {e : BbErr} (h : f.takeMember board tagCap urlCap m = (f', e))
    (he : e ≠ .ok) (ms : Members) :
    f.takeMembers board tagCap urlCap (m :: ms) = (f', e) := by
  rw [Found.takeMembers, h]
  cases e <;> first | exact absurd rfl he | rfl

end

/-- Once a URL was found no other is taken. -/
theorem Found.takeUrl_of_found {f : Found} (h : f.url.isSome) (cap : Nat) (v : Option Bytes) :
    f.takeUrl cap v = (f, .ok) := by
  cases v with
  | none => rfl
  | some v => rw [Found.takeUrl, if_pos h]

/-! ## Places -/

/-- Among the members of the document. -/
structure AtRoot (s : SinkState) : Prop where
  depth : s.depth = 1
  inAssets : s.inAssets = false
  inAssetObj : s.inAssetObj = false

/-- Among the assets. -/
structure AtElems (s : SinkState) : Prop where
  depth : s.depth = 2
  arr : s.assetsArrDepth = 1
  elem : s.assetsElemDepth = 2
  inAssets : s.inAssets = true
  inAssetObj : s.inAssetObj = false

/-- Among the members of an asset. -/
structure AtAsset (s : SinkState) : Prop where
  depth : s.depth = 3
  arr : s.assetsArrDepth = 1
  elem : s.assetsElemDepth = 2
  asset : s.assetObjDepth = 2
  inAssets : s.inAssets = true
  inAssetObj : s.inAssetObj = true

/-- A container in a place, when the sink is deaf inside it. -/
theorem runEvents_obj {s s₁ : SinkState} {key : Bytes} (hbegin : sinkBeginObj s key = s₁)
    (hdeaf : Deaf s₁) (ms : Members) :
    runEvents s ((Json.obj ms).events key) = (sinkEndObj s₁, .ok) := by
  have hcall : sinkIngest s (SerializeJson.callOf (.beginObj key)) = (s₁, .ok) := by
    rw [SerializeJson.callOf, sinkIngest, hbegin]
  rw [Json.events, runEvents_cons_of_ok hcall, hdeaf.members]

theorem runEvents_arr {s s₁ : SinkState} {key : Bytes} (hbegin : sinkBeginArr s key = s₁)
    (hdeaf : Deaf s₁) (js : List Json) :
    runEvents s ((Json.arr js).events key) = (sinkEndArr s₁, .ok) := by
  have hcall : sinkIngest s (SerializeJson.callOf (.beginArr key)) = (s₁, .ok) := by
    rw [SerializeJson.callOf, sinkIngest, hbegin]
  rw [Json.events, runEvents_cons_of_ok hcall, hdeaf.elems]

/-- A scalar that is no string only may mark the shape of `assets`. -/
theorem runEvents_scalar {s : SinkState} {key : Bytes} {j : Json}
    (h : j = .null ∨ (∃ v, j = .bool v) ∨ ∃ text, j = .num text) :
    runEvents s (j.events key) = (markIfAssetsScalar s key, .ok) := by
  obtain rfl | ⟨v, rfl⟩ | ⟨text, rfl⟩ := h <;>
    rw [Json.events, runEvents_singleton, SerializeJson.callOf, sinkIngest]

theorem runEvents_str (s : SinkState) (key v : Bytes) :
    runEvents s ((Json.str v).events key) = sinkValueStrChunk s key v true := by
  rw [Json.events, runEvents_singleton, SerializeJson.callOf, sinkIngest]

/-- A whole URL. -/
theorem runEvents_url {s : SinkState} {key : Bytes} {cap : Nat} (h : HearsUrl s key)
    (hout : s.urlOut = ⟨[], cap⟩) (v : Bytes) :
    runEvents s ((Json.str v).events key) =
      if fits cap v then
        ({ s with urlOut := ⟨v, cap⟩, urlFound := true }, if s.tagFound then sinkDone else .ok)
      else (s, .noSpace) := by
  rw [runEvents_str, sinkValueStrChunk_url h, hout, sinkAppend_empty]
  cases fits cap v <;> rfl

/-- A whole name. -/
theorem runEvents_name {s : SinkState} {key board : Bytes} (h : HearsName s key)
    (htmp : s.nameTmp = []) (hboard : s.boardName = storedBoardName board) (name : Bytes) :
    runEvents s ((Json.str name).events key) =
      ({ s with
          nameTmp := name.take (sinkNameMax - 1)
          assetNameMatched := namedAlike board name }, .ok) := by
  rw [runEvents_str, sinkValueStrChunk_name h, htmp, sinkAppendTruncate_nil, Bool.true_and,
    namedAlike, ← hboard]

/-- A whole tag. -/
theorem runEvents_tag {s : SinkState} {key : Bytes} {cap : Nat} (h : HearsTag s key)
    (hout : s.tagOut = ⟨[], cap⟩) (v : Bytes) :
    runEvents s ((Json.str v).events key) =
      if fits cap v then
        ({ s with tagOut := ⟨v, cap⟩, tagFound := true }, if s.urlFound then sinkDone else .ok)
      else (s, .noSpace) := by
  rw [runEvents_str, sinkValueStrChunk_tag h, hout, sinkAppend_empty]
  cases fits cap v <;> rfl

theorem markIfAssetsScalar_of_inAssets {s : SinkState} (h : s.inAssets = true) (key : Bytes) :
    markIfAssetsScalar s key = s := by
  simp [markIfAssetsScalar, h]

/-! ## Inside an asset -/

namespace AtAsset

variable {s : SinkState}

theorem deaf (h : AtAsset s) : Deaf { s with depth := s.depth + 1 } where
  depth := by simp only [h.depth]; decide
  arr _ := by simp only [h.depth, h.arr]; decide
  elem _ hobj := by rw [h.inAssetObj] at hobj; cases hobj
  asset _ := by simp only [h.depth, h.asset]; decide

/-- A member that is not heard changes nothing. -/
theorem inert (h : AtAsset s) {key : Bytes} {j : Json}
    (hstr : ∀ v, j = .str v → ¬ HearsName s key ∧ ¬ HearsUrl s key) :
    runEvents s (j.events key) = (s, .ok) := by
  have hmark := markIfAssetsScalar_of_inAssets h.inAssets key
  cases j with
  | null => rw [runEvents_scalar (.inl rfl), hmark]
  | bool v => rw [runEvents_scalar (.inr (.inl ⟨v, rfl⟩)), hmark]
  | num text => rw [runEvents_scalar (.inr (.inr ⟨text, rfl⟩)), hmark]
  | str v =>
    have htag : ¬ HearsTag s key := fun ⟨_, hdepth, _⟩ => by
      rw [h.depth] at hdepth
      cases hdepth
    rw [runEvents_str, sinkValueStrChunk_other htag (hstr v rfl).1 (hstr v rfl).2, hmark]
  | arr js =>
    have hbegin : sinkBeginArr s key = { s with depth := s.depth + 1 } := by
      simp [sinkBeginArr, h.inAssets]
    have hend : sinkEndArr { s with depth := s.depth + 1 } = s :=
      sinkEndArr_back fun _ => by rw [h.depth, h.arr]; decide
    rw [runEvents_arr hbegin h.deaf, hend]
  | obj ms =>
    have hbegin : sinkBeginObj s key = { s with depth := s.depth + 1 } := by
      simp [sinkBeginObj, h.inAssets, h.inAssetObj]
    have hend : sinkEndObj { s with depth := s.depth + 1 } = s :=
      sinkEndObj_back fun _ => by rw [h.depth, h.asset]; decide
    rw [runEvents_obj hbegin h.deaf, hend]

/-- The end of an asset. -/
theorem close (h : AtAsset s) : sinkEndObj s =
    { s with depth := 2, inAssetObj := false, assetNameMatched := false } := by
  simp [sinkEndObj, h.depth, h.asset, h.inAssetObj]

theorem close_at (h : AtAsset s) : AtElems (sinkEndObj s) := by
  rw [h.close]
  exact ⟨rfl, h.arr, h.elem, h.inAssets, rfl⟩

/-- Members that are not heard, up to the end of the asset. -/
theorem inert_members (h : AtAsset s) {ms : Members}
    (hms : ∀ key v, (key, Json.str v) ∈ ms → ¬ HearsName s key ∧ ¬ HearsUrl s key) :
    runEvents s (membersEvents ms) = (sinkEndObj s, .ok) := by
  have hinert : ∀ m ∈ ms, runEvents s (m.2.events m.1) = (s, .ok) := by
    rintro ⟨key, j⟩ hmem
    apply h.inert
    rintro v rfl
    exact hms key v hmem
  have hrun := runEvents_inert hinert []
  rw [List.append_nil] at hrun
  rw [hrun, membersEvents, runEvents_singleton, SerializeJson.callOf, sinkIngest]

end AtAsset

/-- A run of the sink ends like the walk over what was found. -/
structure RunsTo (board : Bytes) (tagCap urlCap : Nat) (place : SinkState → Prop)
    (p : SinkState × BbErr) (r : Found × BbErr) : Prop where
  code : p.2 = r.2
  place : r.2 = .ok → place p.1
  shows : r.2 ≠ .noSpace → Shows board tagCap urlCap p.1 r.1

section

variable {board : Bytes} {tagCap urlCap : Nat} {s : SinkState} {f : Found}

theorem Shows.close (h : Shows board tagCap urlCap s f) (hat : AtAsset s) :
    Shows board tagCap urlCap (sinkEndObj s) f := by
  rw [hat.close]
  exact ⟨h.tagOut, h.urlOut, h.tagFound, h.urlFound, h.shape, h.boardName⟩

/-- An asset whose remaining members are not heard. -/
theorem AtAsset.runsTo_inert (h : AtAsset s) (hshows : Shows board tagCap urlCap s f) {ms : Members}
    (hms : ∀ key v, (key, Json.str v) ∈ ms → ¬ HearsName s key ∧ ¬ HearsUrl s key) :
    RunsTo board tagCap urlCap AtElems (runEvents s (membersEvents ms)) (f, .ok) := by
  rw [h.inert_members hms]
  exact ⟨rfl, fun _ => h.close_at, fun _ => hshows.close h⟩

/-- The members of an asset after a matching name: the URL among them is taken. -/
theorem AtAsset.matched (h : AtAsset s) (hshows : Shows board tagCap urlCap s f)
    (hmatched : s.assetNameMatched = true) {ms : Members} (hdistinct : ms.Distinct) :
    RunsTo board tagCap urlCap AtElems (runEvents s (membersEvents ms))
      (f.takeUrl urlCap (strField? urlKey ms)) := by
  have hname (key : Bytes) : ¬ HearsName s key := fun ⟨_, hnot, _⟩ => by
    rw [hmatched] at hnot
    cases hnot
  by_cases hfound : f.url.isSome
  · -- A URL was found before.
    have hurl (key : Bytes) : ¬ HearsUrl s key := fun ⟨_, _, hnot, _⟩ => by
      rw [hshows.urlFound, hfound] at hnot
      cases hnot
    rw [Found.takeUrl_of_found hfound]
    exact h.runsTo_inert hshows fun key v _ => ⟨hname key, hurl key⟩
  · have hnone : f.url = none := by simpa using hfound
    cases hfield : strField? urlKey ms with
    | none =>
      apply h.runsTo_inert hshows
      refine fun key v hmem => ⟨hname key, fun ⟨_, _, _, _, hkey⟩ => ?_⟩
      subst hkey
      rw [(Foundations.JsonText.strField?_eq_some_iff hdistinct).mpr hmem] at hfield
      cases hfield
    | some v =>
      have hmem := (Foundations.JsonText.strField?_eq_some_iff hdistinct).mp hfield
      obtain ⟨pre, post, rfl⟩ := List.append_of_mem hmem
      obtain ⟨hpre, hpost, -⟩ := hdistinct.split
      have hinert : ∀ m ∈ pre, runEvents s (m.2.events m.1) = (s, .ok) := by
        intro m hm
        apply h.inert
        refine fun v _ => ⟨hname m.1, fun ⟨_, _, _, _, hkey⟩ => hpre ?_⟩
        exact List.mem_map.mpr ⟨m, hm, hkey⟩
      rw [runEvents_inert hinert, membersEvents]
      have hhears : HearsUrl s urlKey := ⟨h.inAssetObj, hmatched, by rw [hshows.urlFound, hnone]; rfl,
        by rw [h.depth, h.asset]; rfl, rfl⟩
      have hout : s.urlOut = ⟨[], urlCap⟩ := by rw [hshows.urlOut, hnone, Option.getD_none]
      have hvalue := runEvents_url hhears hout v
      rw [Found.takeUrl, hnone, if_neg (by simp)]
      by_cases hfits : fits urlCap v = true
      · rw [if_pos hfits] at hvalue ⊢
        have hshows' : Shows board tagCap urlCap { s with urlOut := ⟨v, urlCap⟩, urlFound := true }
            { f with url := some v } :=
          ⟨hshows.tagOut, rfl, hshows.tagFound, rfl, hshows.shape, hshows.boardName⟩
        cases htag : f.tag.isSome with
        | true =>
          rw [if_pos (hshows.tagFound.trans htag)] at hvalue
          rw [if_pos rfl, runEvents_append_of_error hvalue (by decide)]
          exact ⟨rfl, (fun hok => by cases hok), fun _ => hshows'⟩
        | false =>
          have hnot : ¬ s.tagFound = true := by
            rw [hshows.tagFound, htag]
            decide
          rw [if_neg hnot] at hvalue
          rw [if_neg (by decide), runEvents_append_of_ok hvalue]
          have hat' : AtAsset { s with urlOut := ⟨v, urlCap⟩, urlFound := true } :=
            ⟨h.depth, h.arr, h.elem, h.asset, h.inAssets, h.inAssetObj⟩
          apply hat'.runsTo_inert hshows'
          exact fun key v _ => ⟨hname key, fun ⟨_, _, hnot, _⟩ => by cases hnot⟩
      · rw [if_neg hfits] at hvalue ⊢
        rw [runEvents_append_of_error hvalue (by decide)]
        exact ⟨rfl, (fun hok => by cases hok), fun hne => absurd rfl hne⟩

/-- Members before the name are passed over. -/
theorem urlAfterName_append {pre : Members} (hpre : nameKey ∉ pre.map Prod.fst) (ms : Members) :
    urlAfterName board (pre ++ ms) = urlAfterName board ms := by
  have hdrop : (pre ++ ms).dropWhile (fun m => m.1 ≠ nameKey) =
      ms.dropWhile fun m => m.1 ≠ nameKey := by
    apply List.dropWhile_append_of_pos
    intro m hmem
    simp only [ne_eq, decide_eq_true_eq]
    exact fun hkey => hpre (List.mem_map.mpr ⟨m, hmem, hkey⟩)
  rw [urlAfterName, urlAfterName, hdrop]

/-- The members of an asset: the URL after a matching name is taken. -/
theorem AtAsset.members (h : AtAsset s) (hshows : Shows board tagCap urlCap s f)
    (hmatched : s.assetNameMatched = false) (htmp : s.nameTmp = []) {ms : Members}
    (hdistinct : ms.Distinct) :
    RunsTo board tagCap urlCap AtElems (runEvents s (membersEvents ms))
      (f.takeUrl urlCap (urlAfterName board ms)) := by
  have hurl (key : Bytes) : ¬ HearsUrl s key := fun ⟨_, hnot, _⟩ => by
    rw [hmatched] at hnot
    cases hnot
  have hquiet {ms : Members} (hkeys : nameKey ∉ ms.map Prod.fst) (key v : Bytes)
      (hmem : (key, Json.str v) ∈ ms) : ¬ HearsName s key ∧ ¬ HearsUrl s key :=
    ⟨fun ⟨_, _, _, hkey⟩ => hkeys (List.mem_map.mpr ⟨_, hmem, hkey⟩), hurl key⟩
  by_cases hname : nameKey ∈ ms.map Prod.fst
  · obtain ⟨⟨key, j⟩, hmem, rfl⟩ := List.mem_map.mp hname
    obtain ⟨pre, post, rfl⟩ := List.append_of_mem hmem
    obtain ⟨hpre, hpost, hrest⟩ := hdistinct.split
    have hinert : ∀ m ∈ pre, runEvents s (m.2.events m.1) = (s, .ok) := by
      intro m hm
      apply h.inert
      exact fun v hj => hquiet hpre m.1 v (hj ▸ hm)
    rw [runEvents_inert hinert, urlAfterName_append hpre]
    by_cases hstr : ∃ name, j = .str name
    · obtain ⟨name, rfl⟩ := hstr
      have hhears : HearsName s nameKey := ⟨h.inAssetObj, hmatched, by rw [h.depth, h.asset]; rfl, rfl⟩
      have hvalue := runEvents_name hhears htmp hshows.boardName name
      rw [membersEvents, runEvents_append_of_ok hvalue]
      have hat' : AtAsset { s with
          nameTmp := name.take (sinkNameMax - 1)
          assetNameMatched := namedAlike board name } :=
        ⟨h.depth, h.arr, h.elem, h.asset, h.inAssets, h.inAssetObj⟩
      have hshows' : Shows board tagCap urlCap { s with
          nameTmp := name.take (sinkNameMax - 1)
          assetNameMatched := namedAlike board name } f :=
        ⟨hshows.tagOut, hshows.urlOut, hshows.tagFound, hshows.urlFound, hshows.shape,
          hshows.boardName⟩
      have hread : urlAfterName board ((nameKey, .str name) :: post) =
          if namedAlike board name then strField? urlKey post else none := by
        simp [urlAfterName]
      rw [hread]
      by_cases halike : namedAlike board name = true
      · rw [if_pos halike]
        exact hat'.matched hshows' halike hrest
      · rw [if_neg halike]
        apply hat'.runsTo_inert hshows'
        refine fun key v hmem => ⟨fun ⟨_, _, _, hkey⟩ => ?_, fun ⟨_, hnot, _⟩ => halike hnot⟩
        exact hpost (List.mem_map.mpr ⟨_, hmem, hkey⟩)
    · have hread : urlAfterName board ((nameKey, j) :: post) = none := by
        cases j with
        | str name => exact absurd ⟨name, rfl⟩ hstr
        | _ => simp [urlAfterName]
      rw [hread, membersEvents, runEvents_append_of_ok (h.inert fun v hj => absurd ⟨v, hj⟩ hstr)]
      exact h.runsTo_inert hshows (hquiet hpost)
  · have hread := @urlAfterName_append board ms hname []
    rw [List.append_nil] at hread
    rw [hread]
    exact h.runsTo_inert hshows (hquiet hname)

/-! ## The assets -/

/-- An element that is no object changes nothing. -/
theorem AtElems.inert (h : AtElems s) {j : Json} (hobj : ∀ ms, j ≠ .obj ms) :
    runEvents s (j.events []) = (s, .ok) := by
  have hmark := markIfAssetsScalar_of_inAssets h.inAssets []
  cases j with
  | null => rw [runEvents_scalar (.inl rfl), hmark]
  | bool v => rw [runEvents_scalar (.inr (.inl ⟨v, rfl⟩)), hmark]
  | num text => rw [runEvents_scalar (.inr (.inr ⟨text, rfl⟩)), hmark]
  | str v =>
    have htag : ¬ HearsTag s [] := fun ⟨_, _, hkey⟩ => by cases hkey
    have hname : ¬ HearsName s [] := fun ⟨_, _, _, hkey⟩ => by cases hkey
    have hurl : ¬ HearsUrl s [] := fun ⟨_, _, _, _, hkey⟩ => by cases hkey
    rw [runEvents_str, sinkValueStrChunk_other htag hname hurl, hmark]
  | arr js =>
    have hbegin : sinkBeginArr s [] = { s with depth := s.depth + 1 } := by
      simp [sinkBeginArr, h.inAssets]
    have hdeaf : Deaf { s with depth := s.depth + 1 } :=
      { depth := by simp only [h.depth]; decide
        arr := fun _ => by simp only [h.depth, h.arr]; decide
        elem := fun _ _ => by simp only [h.depth, h.elem]; decide
        asset := fun hin => by rw [h.inAssetObj] at hin; cases hin }
    have hend : sinkEndArr { s with depth := s.depth + 1 } = s :=
      sinkEndArr_back fun _ => by rw [h.depth, h.arr]; decide
    rw [runEvents_arr hbegin hdeaf, hend]
  | obj ms => exact absurd rfl (hobj ms)

/-- An asset: the URL the sink reads in it is taken. -/
theorem AtElems.asset (h : AtElems s) (hshows : Shows board tagCap urlCap s f) {j : Json}
    (hdistinct : ∀ ms, j = .obj ms → Members.Distinct ms) :
    RunsTo board tagCap urlCap AtElems (runEvents s (j.events []))
      (f.takeUrl urlCap (readUrl board j)) := by
  by_cases hobj : ∃ ms, j = .obj ms
  · obtain ⟨ms, rfl⟩ := hobj
    have hbegin : sinkIngest s (SerializeJson.callOf (.beginObj [])) =
        ({ s with
            inAssetObj := true
            assetObjDepth := s.depth
            assetNameMatched := false
            nameTmp := []
            depth := s.depth + 1 }, .ok) := by
      simp [SerializeJson.callOf, sinkIngest, sinkBeginObj, h.inAssets, h.inAssetObj, h.depth, h.elem]
    rw [Json.events, runEvents_cons_of_ok hbegin, readUrl]
    apply AtAsset.members
    · exact ⟨by simp only [h.depth]; decide, h.arr, h.elem, h.depth, h.inAssets, rfl⟩
    · exact ⟨hshows.tagOut, hshows.urlOut, hshows.tagFound, hshows.urlFound, hshows.shape,
        hshows.boardName⟩
    · rfl
    · rfl
    · exact hdistinct ms rfl
  · have hnone : readUrl board j = none := by
      cases j with
      | obj ms => exact absurd ⟨ms, rfl⟩ hobj
      | _ => rfl
    rw [h.inert fun ms hj => hobj ⟨ms, hj⟩, hnone]
    exact ⟨rfl, fun _ => h, fun _ => hshows⟩

/-- A taken URL that does not end the scan leaves one found. -/
theorem Found.takeUrl_isSome {v : Bytes} {cap : Nat} (h : (f.takeUrl cap (some v)).2 = .ok) :
    (f.takeUrl cap (some v)).1.url.isSome := by
  rw [Found.takeUrl] at *
  by_cases hfound : f.url.isSome
  · rwa [if_pos hfound]
  · rw [if_neg hfound] at h ⊢
    by_cases hfits : fits cap v = true
    · rw [if_pos hfits]
      rfl
    · rw [if_neg hfits] at h
      cases h

/-- The assets: the first URL the sink reads is taken. -/
theorem AtElems.elems (h : AtElems s) (hshows : Shows board tagCap urlCap s f) {js : List Json}
    (hdistinct : ∀ ms, .obj ms ∈ js → Members.Distinct ms) :
    RunsTo board tagCap urlCap AtRoot (runEvents s (elemsEvents js))
      (f.takeUrl urlCap (js.findSome? (readUrl board))) := by
  induction js generalizing s f with
  | nil =>
    have hend : sinkEndArr s = { s with depth := 1, inAssets := false } := by
      simp [sinkEndArr, h.depth, h.arr, h.inAssets]
    rw [elemsEvents, runEvents_singleton, SerializeJson.callOf, sinkIngest, hend]
    exact ⟨rfl, fun _ => ⟨rfl, rfl, h.inAssetObj⟩, fun _ => ⟨hshows.tagOut, hshows.urlOut,
      hshows.tagFound, hshows.urlFound, hshows.shape, hshows.boardName⟩⟩
  | cons j js ih =>
    have hhead := h.asset hshows fun ms hj => hdistinct ms (hj ▸ List.mem_cons_self ..)
    have htail : ∀ ms, .obj ms ∈ js → Members.Distinct ms := fun ms hmem =>
      hdistinct ms (List.mem_cons_of_mem _ hmem)
    rw [elemsEvents, List.findSome?_cons]
    rcases hrun : runEvents s (j.events []) with ⟨s', e⟩
    rw [hrun] at hhead
    obtain ⟨rfl, hplace, hshows'⟩ := hhead
    cases hread : readUrl board j with
    | none =>
      rw [hread] at hrun hplace hshows'
      rw [runEvents_append_of_ok hrun]
      exact ih (hplace rfl) (hshows' (show BbErr.ok ≠ .noSpace by decide)) htail
    | some v =>
      rw [hread] at hrun hplace hshows'
      dsimp only
      by_cases hok : (f.takeUrl urlCap (some v)).2 = .ok
      · rw [hok] at hrun
        rw [runEvents_append_of_ok hrun]
        have hrest := ih (hplace hok) (hshows' (by rw [hok]; decide)) htail
        rw [Found.takeUrl_of_found (Found.takeUrl_isSome hok)] at hrest
        exact ⟨hrest.code.trans hok.symm, fun _ => hrest.place rfl,
          fun _ => hrest.shows (show BbErr.ok ≠ .noSpace by decide)⟩
      · rw [runEvents_append_of_error hrun hok]
        exact ⟨rfl, fun hok' => absurd hok' hok, hshows'⟩

/-! ## The document -/

/-- A member that is neither the tag nor `assets` changes nothing. -/
theorem AtRoot.inert (h : AtRoot s) {key : Bytes} {j : Json}
    (htag : key = tagNameKey → ∀ v, j ≠ .str v) (hassets : key ≠ assetsKey) :
    runEvents s (j.events key) = (s, .ok) := by
  have hmark := markIfAssetsScalar_of_ne s hassets
  have hnot : isToplevelAssetsKey s.depth key = false := by simp [isToplevelAssetsKey, hassets]
  have hdeaf : Deaf { s with depth := s.depth + 1 } :=
    { depth := by simp only [h.depth]; decide
      arr := fun hin => by rw [h.inAssets] at hin; cases hin
      elem := fun hin => by rw [h.inAssets] at hin; cases hin
      asset := fun hin => by rw [h.inAssetObj] at hin; cases hin }
  cases j with
  | null => rw [runEvents_scalar (.inl rfl), hmark]
  | bool v => rw [runEvents_scalar (.inr (.inl ⟨v, rfl⟩)), hmark]
  | num text => rw [runEvents_scalar (.inr (.inr ⟨text, rfl⟩)), hmark]
  | str v =>
    have hname : ¬ HearsName s key := by
      rintro ⟨hin, -⟩
      rw [h.inAssetObj] at hin
      cases hin
    have hurl : ¬ HearsUrl s key := by
      rintro ⟨hin, -⟩
      rw [h.inAssetObj] at hin
      cases hin
    rw [runEvents_str, sinkValueStrChunk_other (fun hhears => htag hhears.2.2 v rfl) hname hurl,
      hmark]
  | arr js =>
    have hbegin : sinkBeginArr s key = { s with depth := s.depth + 1 } := by
      simp [sinkBeginArr, hnot]
    rw [runEvents_arr hbegin hdeaf, sinkEndArr_back fun hin => by rw [h.inAssets] at hin; cases hin]
  | obj ms =>
    have hbegin : sinkBeginObj s key = { s with depth := s.depth + 1 } := by
      simp [sinkBeginObj, hnot, h.inAssets]
    rw [runEvents_obj hbegin hdeaf,
      sinkEndObj_back fun hin => by rw [h.inAssetObj] at hin; cases hin]

theorem runsTo_same {place : SinkState → Prop} (hat : place s)
    (hshows : Shows board tagCap urlCap s f) :
    RunsTo board tagCap urlCap place (s, .ok) (f, .ok) :=
  ⟨rfl, fun _ => hat, fun _ => hshows⟩

/-- The tag. -/
theorem AtRoot.tag (h : AtRoot s) (hshows : Shows board tagCap urlCap s f) (v : Bytes) :
    RunsTo board tagCap urlCap AtRoot (runEvents s ((Json.str v).events tagNameKey))
      (f.takeTag tagCap v) := by
  rw [Found.takeTag]
  by_cases hfound : f.tag.isSome
  · have htag : ¬ HearsTag s tagNameKey := fun ⟨hnot, _⟩ => by
      rw [hshows.tagFound, hfound] at hnot
      cases hnot
    have hname : ¬ HearsName s tagNameKey := fun ⟨_, _, _, hkey⟩ => by cases hkey
    have hurl : ¬ HearsUrl s tagNameKey := fun ⟨_, _, _, _, hkey⟩ => by cases hkey
    rw [if_pos hfound, runEvents_str, sinkValueStrChunk_other htag hname hurl,
      markIfAssetsScalar_of_ne s (by decide)]
    exact runsTo_same h hshows
  · have hnone : f.tag = none := by simpa using hfound
    have hhears : HearsTag s tagNameKey := ⟨by rw [hshows.tagFound, hnone]; rfl, h.depth, rfl⟩
    have hout : s.tagOut = ⟨[], tagCap⟩ := by rw [hshows.tagOut, hnone, Option.getD_none]
    rw [if_neg hfound, runEvents_tag hhears hout]
    by_cases hfits : fits tagCap v = true
    · rw [if_pos hfits, if_pos hfits]
      have hshows' : Shows board tagCap urlCap { s with tagOut := ⟨v, tagCap⟩, tagFound := true }
          { f with tag := some v } :=
        ⟨rfl, hshows.urlOut, rfl, hshows.urlFound, hshows.shape, hshows.boardName⟩
      exact ⟨by rw [hshows.urlFound], fun _ => ⟨h.depth, h.inAssets, h.inAssetObj⟩, fun _ => hshows'⟩
    · rw [if_neg hfits, if_neg hfits]
      exact ⟨rfl, (fun hok => by cases hok), fun hne => absurd rfl hne⟩

/-- A value of `assets` that is no array. -/
theorem AtRoot.badShape (h : AtRoot s) (hshows : Shows board tagCap urlCap s f) {j : Json}
    (harr : ∀ js, j ≠ .arr js) :
    RunsTo board tagCap urlCap AtRoot (runEvents s (j.events assetsKey))
      ({ f with badShape := true }, .ok) := by
  have htop : isToplevelAssetsKey s.depth assetsKey = true := by simp [isToplevelAssetsKey, h.depth]
  have hmark : markIfAssetsScalar s assetsKey = { s with assetsInvalidShape := true } := by
    simp [markIfAssetsScalar, htop, h.inAssets]
  have hat : AtRoot { s with assetsInvalidShape := true } := ⟨h.depth, h.inAssets, h.inAssetObj⟩
  have hshows' : Shows board tagCap urlCap { s with assetsInvalidShape := true }
      { f with badShape := true } :=
    ⟨hshows.tagOut, hshows.urlOut, hshows.tagFound, hshows.urlFound, rfl, hshows.boardName⟩
  cases j with
  | null =>
    rw [runEvents_scalar (.inl rfl), hmark]
    exact runsTo_same hat hshows'
  | bool v =>
    rw [runEvents_scalar (.inr (.inl ⟨v, rfl⟩)), hmark]
    exact runsTo_same hat hshows'
  | num text =>
    rw [runEvents_scalar (.inr (.inr ⟨text, rfl⟩)), hmark]
    exact runsTo_same hat hshows'
  | str v =>
    have htag : ¬ HearsTag s assetsKey := by
      rintro ⟨-, -, hkey⟩
      cases hkey
    have hname : ¬ HearsName s assetsKey := by
      rintro ⟨-, -, -, hkey⟩
      cases hkey
    have hurl : ¬ HearsUrl s assetsKey := by
      rintro ⟨-, -, -, -, hkey⟩
      cases hkey
    rw [runEvents_str, sinkValueStrChunk_other htag hname hurl, hmark]
    exact runsTo_same hat hshows'
  | arr js => exact absurd rfl (harr js)
  | obj ms =>
    have hbegin : sinkBeginObj s assetsKey =
        { s with assetsInvalidShape := true, depth := s.depth + 1 } := by
      simp [sinkBeginObj, htop, h.inAssets]
    have hdeaf : Deaf { s with assetsInvalidShape := true, depth := s.depth + 1 } :=
      { depth := by simp only [h.depth]; decide
        arr := fun hin => by rw [h.inAssets] at hin; cases hin
        elem := fun hin => by rw [h.inAssets] at hin; cases hin
        asset := fun hin => by rw [h.inAssetObj] at hin; cases hin }
    have hend := @sinkEndObj_back { s with assetsInvalidShape := true } fun hin => by
      rw [h.inAssetObj] at hin
      cases hin
    rw [runEvents_obj hbegin hdeaf, hend]
    exact runsTo_same hat hshows'

/-- One member of the document. -/
theorem AtRoot.member (h : AtRoot s) (hshows : Shows board tagCap urlCap s f) {key : Bytes} {j : Json}
    (hdistinct : key = assetsKey → ∀ js, j = .arr js → ∀ ms, .obj ms ∈ js → Members.Distinct ms) :
    RunsTo board tagCap urlCap AtRoot (runEvents s (j.events key))
      (f.takeMember board tagCap urlCap (key, j)) := by
  unfold Found.takeMember
  by_cases htag : key = tagNameKey
  · subst htag
    rw [if_pos rfl]
    cases j with
    | str v => exact h.tag hshows v
    | _ =>
      rw [h.inert (fun _ v hj => by cases hj) (by decide)]
      exact runsTo_same h hshows
  · rw [if_neg htag]
    by_cases hassets : key = assetsKey
    · subst hassets
      rw [if_pos rfl]
      cases j with
      | arr js =>
        have hbegin : sinkIngest s (SerializeJson.callOf (.beginArr assetsKey)) =
            ({ s with
                inAssets := true
                assetsArrDepth := s.depth
                assetsElemDepth := s.depth + 1
                depth := s.depth + 1 }, .ok) := by
          simp [SerializeJson.callOf, sinkIngest, sinkBeginArr, isToplevelAssetsKey, h.depth,
            h.inAssets]
        rw [Json.events, runEvents_cons_of_ok hbegin]
        apply AtElems.elems
        · exact ⟨by simp only [h.depth]; decide, h.depth, by simp only [h.depth]; decide, rfl,
            h.inAssetObj⟩
        · exact ⟨hshows.tagOut, hshows.urlOut, hshows.tagFound, hshows.urlFound, hshows.shape,
            hshows.boardName⟩
        · exact hdistinct rfl js rfl
      | _ => exact h.badShape hshows fun js hj => by cases hj
    · rw [if_neg hassets, h.inert (fun hkey => absurd hkey htag) hassets]
      exact runsTo_same h hshows

/-- The members of the document. -/
theorem AtRoot.members (h : AtRoot s) (hshows : Shows board tagCap urlCap s f) {ms : Members}
    (hdistinct : ∀ js, (assetsKey, .arr js) ∈ ms → ∀ ms', .obj ms' ∈ js → Members.Distinct ms') :
    RunsTo board tagCap urlCap (fun _ => True) (runEvents s (membersEvents ms))
      (f.takeMembers board tagCap urlCap ms) := by
  induction ms generalizing s f with
  | nil =>
    have hend : sinkEndObj s = { s with depth := s.depth - 1 } := by
      simp [sinkEndObj, h.inAssetObj]
    rw [membersEvents, runEvents_singleton, SerializeJson.callOf, sinkIngest, hend]
    exact ⟨rfl, fun _ => trivial, fun _ => ⟨hshows.tagOut, hshows.urlOut, hshows.tagFound,
      hshows.urlFound, hshows.shape, hshows.boardName⟩⟩
  | cons m ms ih =>
    obtain ⟨key, j⟩ := m
    have hhead := @AtRoot.member _ _ _ _ _ h hshows key j (by
      rintro rfl js rfl
      exact hdistinct js (List.mem_cons_self ..))
    rw [membersEvents]
    rcases hrun : runEvents s (j.events key) with ⟨s', e⟩
    rcases htake : f.takeMember board tagCap urlCap (key, j) with ⟨f', e'⟩
    rw [hrun, htake] at hhead
    obtain ⟨hcode, hplace, hshows'⟩ := hhead
    obtain rfl : e = e' := hcode
    by_cases hok : e = .ok
    · subst hok
      rw [runEvents_append_of_ok hrun, Found.takeMembers_of_ok htake]
      exact ih (hplace rfl) (hshows' (show BbErr.ok ≠ .noSpace by decide)) fun js hmem =>
        hdistinct js (List.mem_cons_of_mem _ hmem)
    · rw [runEvents_append_of_error hrun hok, Found.takeMembers_of_error htake hok]
      exact ⟨rfl, fun _ => trivial, hshows'⟩

end

end ReleaseManifest
end Breadboard
