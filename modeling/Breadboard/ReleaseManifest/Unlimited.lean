import Breadboard.ReleaseManifest.Listening
import Breadboard.SerializeJson.Unbroken

/-!
# bb_release_manifest - what is found in a stream

What a stream has for the parsers is what their sink takes from it on buffers that are never
full.  As long as the buffers of a parse have room it is the same run, and a value that was
found stays.

Main results:

- Theorem `ingestUnbounded_joinsChunks`: the cutting of strings does not matter here either.
- Theorem `deliverCalls_unbounded`: a run on buffers with a size against one without.
-/

namespace Breadboard
namespace ReleaseManifest

open SerializeJson (Call JoinsChunks SameUnless Kconfig Span deliverCalls_cons_of_ok
  deliverCalls_cons_of_error)
open SerializeJson.Scan (deliverCalls)

/-! ## Buffers that are never full -/

/-- The bytes a call adds to a string. -/
def chunkOf : Call → Bytes
  | .valueStrChunk _ chunk _ _ => chunk
  | _ => []

/-- The sink on buffers of the given size. -/
def SinkState.withCaps (s : SinkState) (n : Nat) : SinkState :=
  { s with tagOut := { s.tagOut with cap := n }, urlOut := { s.urlOut with cap := n } }

/-- A size that the buffers cannot outgrow in a call. -/
def roomFor (s : SinkState) (c : Call) : Nat :=
  s.tagOut.text.length + s.urlOut.text.length + (chunkOf c).length + 1

/-- The sink on buffers that grow with what they hold. -/
def ingestUnbounded (s : SinkState) (c : Call) : SinkState × BbErr :=
  match sinkIngest (s.withCaps (roomFor s c)) c with
  | (s', rc) => (s'.withCaps 0, rc)

/-- The state in which the sink leaves the stream when its buffers are never full. -/
def readAll (cfg : Kconfig) (board body : Bytes) : SinkState :=
  (SerializeJson.scanBounded cfg ingestUnbounded (sinkInit board ⟨[], 0⟩ ⟨[], 0⟩) body).1

/-- The tag that is found in the stream. -/
def foundTag (cfg : Kconfig) (board body : Bytes) : Option Bytes :=
  if (readAll cfg board body).tagFound then some (readAll cfg board body).tagOut.text else none

/-- The URL that is found in the stream. -/
def foundUrl (cfg : Kconfig) (board body : Bytes) : Option Bytes :=
  if (readAll cfg board body).urlFound then some (readAll cfg board body).urlOut.text else none

section

variable {s : SinkState} {key : Bytes}

theorem markIfAssetsScalar_withCaps (s : SinkState) (n : Nat) (key : Bytes) :
    markIfAssetsScalar (s.withCaps n) key = (markIfAssetsScalar s key).withCaps n := by
  unfold markIfAssetsScalar
  by_cases h : ¬ s.inAssets ∧ isToplevelAssetsKey s.depth key
  · have h' : ¬ (s.withCaps n).inAssets ∧ isToplevelAssetsKey (s.withCaps n).depth key := h
    rw [if_pos h, if_pos h']
    rfl
  · have h' : ¬ (¬ (s.withCaps n).inAssets ∧ isToplevelAssetsKey (s.withCaps n).depth key) := h
    rw [if_neg h, if_neg h']

theorem SinkState.withCaps_ite {p : Prop} [Decidable p] (s s' : SinkState) (n : Nat) :
    (if p then s else s').withCaps n = if p then s.withCaps n else s'.withCaps n := by
  split <;> rfl

theorem sinkBeginObj_withCaps (s : SinkState) (n : Nat) (key : Bytes) :
    sinkBeginObj (s.withCaps n) key = (sinkBeginObj s key).withCaps n := by
  -- The first step is that of a scalar.
  have hmark (s : SinkState) : sinkBeginObj s key =
      (fun s : SinkState =>
        { (if s.inAssets ∧ ¬ s.inAssetObj ∧ s.depth = s.assetsElemDepth then
            { s with
              inAssetObj := true
              assetObjDepth := s.depth
              assetNameMatched := false
              nameTmp := [] }
          else s) with depth := s.depth + 1 }) (markIfAssetsScalar s key) := by
    unfold sinkBeginObj markIfAssetsScalar
    dsimp only
    split_ifs <;> rfl
  rw [hmark, hmark, markIfAssetsScalar_withCaps]
  generalize markIfAssetsScalar s key = s
  dsimp only [SinkState.withCaps]
  split_ifs <;> rfl

theorem sinkEndObj_withCaps (s : SinkState) (n : Nat) :
    sinkEndObj (s.withCaps n) = (sinkEndObj s).withCaps n := by
  unfold sinkEndObj
  rw [SinkState.withCaps_ite]
  rfl

theorem sinkBeginArr_withCaps (s : SinkState) (n : Nat) (key : Bytes) :
    sinkBeginArr (s.withCaps n) key = (sinkBeginArr s key).withCaps n := by
  unfold sinkBeginArr
  by_cases h : ¬ s.inAssets ∧ isToplevelAssetsKey s.depth key
  · have h' : ¬ (s.withCaps n).inAssets ∧ isToplevelAssetsKey (s.withCaps n).depth key := h
    rw [if_pos h, if_pos h']
    rfl
  · have h' : ¬ (¬ (s.withCaps n).inAssets ∧ isToplevelAssetsKey (s.withCaps n).depth key) := h
    rw [if_neg h, if_neg h']
    rfl

theorem sinkEndArr_withCaps (s : SinkState) (n : Nat) :
    sinkEndArr (s.withCaps n) = (sinkEndArr s).withCaps n := by
  unfold sinkEndArr
  rw [SinkState.withCaps_ite]
  rfl

theorem sinkAppend_room {dst : OutBuf} {chunk : Bytes}
    (h : dst.text.length + chunk.length + 1 ≤ dst.cap) :
    sinkAppend dst chunk = ({ dst with text := dst.text ++ chunk }, .ok) := by
  rcases sinkAppend_code dst chunk with hok | ⟨-, -, hfull⟩
  · exact hok
  · omega

theorem ingestUnbounded_tag (h : HearsTag s key) (chunk : Bytes) (last : Bool) (p : Span) :
    ingestUnbounded s (.valueStrChunk key chunk last p) =
      ({ s with
          tagOut := ⟨s.tagOut.text ++ chunk, 0⟩
          urlOut := ⟨s.urlOut.text, 0⟩
          tagFound := last },
        if last ∧ s.urlFound then sinkDone else .ok) := by
  obtain ⟨n, hn⟩ : ∃ n, roomFor s (.valueStrChunk key chunk last p) = n := ⟨_, rfl⟩
  have hfits : sinkAppend (s.withCaps n).tagOut chunk = (⟨s.tagOut.text ++ chunk, n⟩, .ok) := by
    refine sinkAppend_room ?_
    simp only [roomFor, chunkOf] at hn
    simp only [SinkState.withCaps]
    omega
  have hcall := @sinkValueStrChunk_tag (s.withCaps n) key h chunk last
  rw [hfits] at hcall
  unfold ingestUnbounded
  rw [hn, sinkIngest, hcall]
  cases last with
  | true => cases hurl : s.urlFound <;> simp [SinkState.withCaps, hurl]
  | false => simp [SinkState.withCaps, h.1]

theorem ingestUnbounded_url (h : HearsUrl s key) (chunk : Bytes) (last : Bool) (p : Span) :
    ingestUnbounded s (.valueStrChunk key chunk last p) =
      ({ s with
          tagOut := ⟨s.tagOut.text, 0⟩
          urlOut := ⟨s.urlOut.text ++ chunk, 0⟩
          urlFound := last },
        if last ∧ s.tagFound then sinkDone else .ok) := by
  obtain ⟨n, hn⟩ : ∃ n, roomFor s (.valueStrChunk key chunk last p) = n := ⟨_, rfl⟩
  have hfits : sinkAppend (s.withCaps n).urlOut chunk = (⟨s.urlOut.text ++ chunk, n⟩, .ok) := by
    refine sinkAppend_room ?_
    simp only [roomFor, chunkOf] at hn
    simp only [SinkState.withCaps]
    omega
  have hcall := @sinkValueStrChunk_url (s.withCaps n) key h chunk last
  rw [hfits] at hcall
  unfold ingestUnbounded
  rw [hn, sinkIngest, hcall]
  cases last with
  | true => cases htag : s.tagFound <;> simp [SinkState.withCaps, htag]
  | false => simp [SinkState.withCaps, h.2.2.1]

theorem ingestUnbounded_name (h : HearsName s key) (chunk : Bytes) (last : Bool) (p : Span) :
    ingestUnbounded s (.valueStrChunk key chunk last p) =
      ({ s.withCaps 0 with
          nameTmp := sinkAppendTruncate s.nameTmp sinkNameMax chunk
          assetNameMatched :=
            last && decide (sinkAppendTruncate s.nameTmp sinkNameMax chunk = s.boardName) },
        .ok) := by
  unfold ingestUnbounded
  generalize roomFor s (.valueStrChunk key chunk last p) = n
  have hcall := @sinkValueStrChunk_name (s.withCaps n) key h chunk last
  rw [sinkIngest, hcall]
  rfl

theorem ingestUnbounded_other (htag : ¬ HearsTag s key) (hname : ¬ HearsName s key)
    (hurl : ¬ HearsUrl s key) (chunk : Bytes) (last : Bool) (p : Span) :
    ingestUnbounded s (.valueStrChunk key chunk last p) =
      ((markIfAssetsScalar s key).withCaps 0, .ok) := by
  unfold ingestUnbounded
  generalize roomFor s (.valueStrChunk key chunk last p) = n
  have hcall := @sinkValueStrChunk_other (s.withCaps n) key htag hname hurl chunk last
  rw [sinkIngest, hcall, markIfAssetsScalar_withCaps]
  rfl

/-- A call the sink has room for. -/
theorem ingestUnbounded_withCaps (t : SinkState) (n : Nat) (c : Call)
    (h : (sinkIngest t c).2 ≠ .noSpace) :
    ingestUnbounded (t.withCaps n) c = ((sinkIngest t c).1.withCaps 0, (sinkIngest t c).2) := by
  have hmark (key : Bytes) (m : Nat) :
      (markIfAssetsScalar ((t.withCaps n).withCaps m) key).withCaps 0 =
        (markIfAssetsScalar t key).withCaps 0 := by
    rw [markIfAssetsScalar_withCaps, markIfAssetsScalar_withCaps]
    rfl
  cases c with
  | beginObj key =>
    simp only [ingestUnbounded, sinkIngest, sinkBeginObj_withCaps]
    rfl
  | endObj =>
    simp only [ingestUnbounded, sinkIngest, sinkEndObj_withCaps]
    rfl
  | beginArr key =>
    simp only [ingestUnbounded, sinkIngest, sinkBeginArr_withCaps]
    rfl
  | endArr =>
    simp only [ingestUnbounded, sinkIngest, sinkEndArr_withCaps]
    rfl
  | valueNum key num => simp only [ingestUnbounded, sinkIngest, hmark]
  | valueBool key v => simp only [ingestUnbounded, sinkIngest, hmark]
  | valueNull key => simp only [ingestUnbounded, sinkIngest, hmark]
  | valueStrChunk key chunk last p =>
    change (sinkValueStrChunk t key chunk last).2 ≠ .noSpace at h
    change _ = ((sinkValueStrChunk t key chunk last).1.withCaps 0,
      (sinkValueStrChunk t key chunk last).2)
    by_cases htag : HearsTag t key
    · rw [@ingestUnbounded_tag (t.withCaps n) key htag]
      rw [sinkValueStrChunk_tag htag] at h ⊢
      rcases sinkAppend_code t.tagOut chunk with hok | ⟨hfull, -⟩
      · rw [hok]
        cases last with
        | true => cases hurl : t.urlFound <;> simp [SinkState.withCaps, hurl]
        | false => simp [SinkState.withCaps, htag.1]
      · rw [hfull] at h
        exact absurd rfl h
    by_cases hname : HearsName t key
    · rw [@ingestUnbounded_name (t.withCaps n) key hname, sinkValueStrChunk_name hname]
      rfl
    by_cases hurl : HearsUrl t key
    · rw [@ingestUnbounded_url (t.withCaps n) key hurl]
      rw [sinkValueStrChunk_url hurl] at h ⊢
      rcases sinkAppend_code t.urlOut chunk with hok | ⟨hfull, -⟩
      · rw [hok]
        cases last with
        | true => cases htag : t.tagFound <;> simp [SinkState.withCaps, htag]
        | false => simp [SinkState.withCaps, hurl.2.2.1]
      · rw [hfull] at h
        exact absurd rfl h
    · rw [@ingestUnbounded_other (t.withCaps n) key htag hname hurl,
        sinkValueStrChunk_other htag hname hurl, markIfAssetsScalar_withCaps]
      rfl

/-- Only a full buffer is a lack of space. -/
theorem sinkIngest_full {t t' : SinkState} {c : Call} (h : sinkIngest t c = (t', .noSpace)) :
    t' = t ∧ ∃ key chunk last p, c = .valueStrChunk key chunk last p ∧
      (HearsTag t key ∧ (sinkAppend t.tagOut chunk).2 = .noSpace ∨
        HearsUrl t key ∧ (sinkAppend t.urlOut chunk).2 = .noSpace) := by
  cases c with
  | valueStrChunk key chunk last p =>
    change sinkValueStrChunk t key chunk last = _ at h
    by_cases htag : HearsTag t key
    · rw [sinkValueStrChunk_tag htag] at h
      rcases sinkAppend_code t.tagOut chunk with hok | ⟨hfull, -⟩
      · rw [hok] at h
        cases last <;> cases hurl : t.urlFound <;> simp [hurl, sinkDone] at h
      · rw [hfull] at h
        cases h
        exact ⟨rfl, key, chunk, last, p, rfl, .inl ⟨htag, congrArg Prod.snd hfull⟩⟩
    by_cases hname : HearsName t key
    · rw [sinkValueStrChunk_name hname] at h
      cases h
    by_cases hurl : HearsUrl t key
    · rw [sinkValueStrChunk_url hurl] at h
      rcases sinkAppend_code t.urlOut chunk with hok | ⟨hfull, -⟩
      · rw [hok] at h
        cases last <;> cases htag : t.tagFound <;> simp [htag, sinkDone] at h
      · rw [hfull] at h
        cases h
        exact ⟨rfl, key, chunk, last, p, rfl, .inr ⟨hurl, congrArg Prod.snd hfull⟩⟩
    · rw [sinkValueStrChunk_other htag hname hurl] at h
      cases h
  | _ => cases h

/-- Buffers that grow are never full. -/
theorem ingestUnbounded_ne_full (t : SinkState) (c : Call) :
    (ingestUnbounded t c).2 ≠ .noSpace := by
  cases c with
  | valueStrChunk key chunk last p =>
    by_cases htag : HearsTag t key
    · rw [ingestUnbounded_tag htag]
      dsimp only
      split <;> simp [sinkDone]
    by_cases hname : HearsName t key
    · simp [ingestUnbounded_name hname]
    by_cases hurl : HearsUrl t key
    · rw [ingestUnbounded_url hurl]
      dsimp only
      split <;> simp [sinkDone]
    · simp [ingestUnbounded_other htag hname hurl]
  | _ => simp [ingestUnbounded, sinkIngest]

theorem ingestUnbounded_open (t : SinkState) (key v : Bytes) (p : Span) :
    (ingestUnbounded t (.valueStrChunk key v false p)).2 = .ok := by
  by_cases htag : HearsTag t key
  · simp [ingestUnbounded_tag htag]
  by_cases hname : HearsName t key
  · simp [ingestUnbounded_name hname]
  by_cases hurl : HearsUrl t key
  · simp [ingestUnbounded_url hurl]
  · simp [ingestUnbounded_other htag hname hurl]

theorem ingestUnbounded_joinsChunks : JoinsChunks ingestUnbounded .noSpace where
  full_ne_ok := by decide
  provenance _ _ _ _ _ _ := rfl
  refuse t key v w last p h := absurd (ingestUnbounded_open t key v p) h
  join t t' key v w last p h := by
    by_cases htag : HearsTag t key
    · rw [ingestUnbounded_tag htag] at h
      obtain ⟨rfl, -⟩ := Prod.mk.inj h
      have htag' : HearsTag { t with
          tagOut := ⟨t.tagOut.text ++ v, 0⟩
          urlOut := ⟨t.urlOut.text, 0⟩
          tagFound := false } key := ⟨rfl, htag.2⟩
      rw [ingestUnbounded_tag htag, ingestUnbounded_tag htag', List.append_assoc]
      exact .refl ..
    by_cases hname : HearsName t key
    · rw [ingestUnbounded_name hname, Bool.false_and] at h
      obtain ⟨rfl, -⟩ := Prod.mk.inj h
      have hname' : HearsName { t.withCaps 0 with
          nameTmp := sinkAppendTruncate t.nameTmp sinkNameMax v
          assetNameMatched := false } key := ⟨hname.1, rfl, hname.2.2⟩
      rw [ingestUnbounded_name hname (v ++ w), ← sinkAppendTruncate_append]
      rw [ingestUnbounded_name hname' w]
      exact .refl ..
    by_cases hurl : HearsUrl t key
    · rw [ingestUnbounded_url hurl] at h
      obtain ⟨rfl, -⟩ := Prod.mk.inj h
      have hurl' : HearsUrl { t with
          tagOut := ⟨t.tagOut.text, 0⟩
          urlOut := ⟨t.urlOut.text ++ v, 0⟩
          urlFound := false } key := ⟨hurl.1, hurl.2.1, rfl, hurl.2.2.2⟩
      rw [ingestUnbounded_url hurl, ingestUnbounded_url hurl', List.append_assoc]
      exact .refl ..
    · rw [ingestUnbounded_other htag hname hurl] at h
      obtain ⟨rfl, -⟩ := Prod.mk.inj h
      obtain ⟨htag', hname', hurl'⟩ := hears_mark t key key
      rw [ingestUnbounded_other htag hname hurl,
        @ingestUnbounded_other ((markIfAssetsScalar t key).withCaps 0) key (mt htag'.mp htag)
          (mt hname'.mp hname) (mt hurl'.mp hurl),
        markIfAssetsScalar_withCaps, markIfAssetsScalar_mark]
      exact .refl ..

end

/-! ## What a run keeps -/

/-- The buffers and whether they hold a whole value. -/
def SinkState.outputs (s : SinkState) : OutBuf × OutBuf × Bool × Bool :=
  (s.tagOut, s.urlOut, s.tagFound, s.urlFound)

/-- A value that was found stays. -/
structure Kept (s s' : SinkState) : Prop where
  tag : s.tagFound = true → s'.tagFound = true ∧ s'.tagOut.text = s.tagOut.text
  url : s.urlFound = true → s'.urlFound = true ∧ s'.urlOut.text = s.urlOut.text

section

variable {s s' s'' : SinkState} {c : Call}

theorem Kept.refl (s : SinkState) : Kept s s :=
  ⟨fun h => ⟨h, rfl⟩, fun h => ⟨h, rfl⟩⟩

theorem Kept.trans (h : Kept s s') (h' : Kept s' s'') : Kept s s'' where
  tag hs := ⟨(h'.tag (h.tag hs).1).1, (h'.tag (h.tag hs).1).2.trans (h.tag hs).2⟩
  url hs := ⟨(h'.url (h.url hs).1).1, (h'.url (h.url hs).1).2.trans (h.url hs).2⟩

theorem Kept.of_outputs (h : s'.outputs = s.outputs) : Kept s s' := by
  simp only [SinkState.outputs, Prod.mk.injEq] at h
  obtain ⟨htag, hurl, htagFound, hurlFound⟩ := h
  exact ⟨fun hs => ⟨htagFound.trans hs, by rw [htag]⟩, fun hs => ⟨hurlFound.trans hs, by rw [hurl]⟩⟩

theorem markIfAssetsScalar_outputs (s : SinkState) (key : Bytes) :
    (markIfAssetsScalar s key).outputs = s.outputs := by
  unfold markIfAssetsScalar
  split <;> rfl

/-- Only a chunk of a string gets to the buffers. -/
theorem sinkIngest_outputs (s : SinkState)
    (hc : ∀ key chunk last p, c ≠ .valueStrChunk key chunk last p) :
    (sinkIngest s c).1.outputs = s.outputs ∧ (sinkIngest s c).2 = .ok := by
  refine ⟨?_, ?_⟩
  · cases c with
    | beginObj key =>
      simp only [sinkIngest, sinkBeginObj]
      split_ifs <;> rfl
    | endObj =>
      simp only [sinkIngest, sinkEndObj]
      split_ifs <;> rfl
    | beginArr key =>
      simp only [sinkIngest, sinkBeginArr]
      split_ifs <;> rfl
    | endArr =>
      simp only [sinkIngest, sinkEndArr]
      split_ifs <;> rfl
    | valueNum key num => exact markIfAssetsScalar_outputs s key
    | valueBool key v => exact markIfAssetsScalar_outputs s key
    | valueNull key => exact markIfAssetsScalar_outputs s key
    | valueStrChunk key chunk last p => exact absurd rfl (hc key chunk last p)
  · cases c with
    | valueStrChunk key chunk last p => exact absurd rfl (hc key chunk last p)
    | _ => rfl

theorem ingestUnbounded_kept (s : SinkState) (c : Call) : Kept s (ingestUnbounded s c).1 := by
  by_cases hc : ∃ key chunk last p, c = .valueStrChunk key chunk last p
  · obtain ⟨key, chunk, last, p, rfl⟩ := hc
    by_cases htag : HearsTag s key
    · rw [ingestUnbounded_tag htag]
      exact ⟨fun h => absurd h (by simp [htag.1]), fun h => ⟨h, rfl⟩⟩
    by_cases hname : HearsName s key
    · rw [ingestUnbounded_name hname]
      exact ⟨fun h => ⟨h, rfl⟩, fun h => ⟨h, rfl⟩⟩
    by_cases hurl : HearsUrl s key
    · rw [ingestUnbounded_url hurl]
      exact ⟨fun h => ⟨h, rfl⟩, fun h => absurd h (by simp [hurl.2.2.1])⟩
    · rw [ingestUnbounded_other htag hname hurl]
      have hkept := Kept.of_outputs (markIfAssetsScalar_outputs s key)
      exact ⟨hkept.tag, hkept.url⟩
  · have hout := (sinkIngest_outputs (s.withCaps (roomFor s c)) (c := c)
      fun key chunk last p h => hc ⟨key, chunk, last, p, h⟩).1
    have hkept := Kept.of_outputs hout
    exact ⟨hkept.tag, hkept.url⟩

theorem deliverCalls_kept (s : SinkState) (cs : List Call) :
    Kept s (deliverCalls ingestUnbounded s cs).1 := by
  induction cs generalizing s with
  | nil => exact .refl s
  | cons c cs ih =>
    have hstep := ingestUnbounded_kept s c
    rcases hc : ingestUnbounded s c with ⟨s', e⟩
    rw [hc] at hstep
    by_cases he : e = .ok
    · subst he
      rw [deliverCalls_cons_of_ok hc]
      exact hstep.trans (ih s')
    · rw [deliverCalls_cons_of_error hc he]
      exact hstep

end

/-- The calls against buffers that are never full. -/
theorem deliverCalls_unbounded {t t' : SinkState} {cs : List Call} {e : BbErr}
    (h : deliverCalls sinkIngest t cs = (t', e)) :
    Kept (t'.withCaps 0) (deliverCalls ingestUnbounded (t.withCaps 0) cs).1 ∧
      (e ≠ .noSpace → deliverCalls ingestUnbounded (t.withCaps 0) cs = (t'.withCaps 0, e)) := by
  induction cs generalizing t with
  | nil =>
    cases h
    exact ⟨.refl _, fun _ => rfl⟩
  | cons c cs ih =>
    rcases hc : sinkIngest t c with ⟨t₁, e₁⟩
    by_cases he₁ : e₁ = .ok
    · subst he₁
      have hstep := ingestUnbounded_withCaps t 0 c (by simp [hc])
      rw [hc] at hstep
      rw [deliverCalls_cons_of_ok hc] at h
      rw [deliverCalls_cons_of_ok hstep]
      exact ih h
    · rw [deliverCalls_cons_of_error hc he₁] at h
      cases h
      by_cases hfull : e = .noSpace
      · subst hfull
        obtain ⟨rfl, -⟩ := sinkIngest_full hc
        exact ⟨deliverCalls_kept _ _, fun hne => absurd rfl hne⟩
      · have hstep := ingestUnbounded_withCaps t 0 c (by rwa [hc])
        rw [hc] at hstep
        rw [deliverCalls_cons_of_error hstep he₁]
        exact ⟨.refl _, fun _ => rfl⟩

end ReleaseManifest
end Breadboard
