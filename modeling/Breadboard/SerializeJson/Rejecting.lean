import Breadboard.SerializeJson.ScanCorrect

/-!
# bb_serialize_json_scan - sinks that reject a call

A sink's error stops the scan and becomes its code.  So on an input that the scanner
accepts, both entry points deliver the same recorded calls up to the first error, and a
sink that does not care how strings are cut sees the events of the text.

Main results:

- Theorem `scanBounded_deliver`, `scanStream_deliver`: the entry points deliver the
  recorded calls.
- Theorem `scanBounded_events`, `scanStream_events`: such a sink on an accepted text.
-/

namespace Breadboard
namespace SerializeJson

open Foundations
open Foundations.JsonText (Event State IsText LaxNumber)
open Scan (deliverCalls)

/-! ## Delivering calls -/

section

variable {σ : Type} {sink : σ → Call → σ × BbErr}

theorem deliverCalls_cons_of_ok {t t' : σ} {c : Call} (h : sink t c = (t', .ok)) (cs : List Call) :
    deliverCalls sink t (c :: cs) = deliverCalls sink t' cs := by
  rw [deliverCalls, h]

theorem deliverCalls_cons_of_error {t t' : σ} {c : Call} {e : BbErr} (h : sink t c = (t', e))
    (he : e ≠ .ok) (cs : List Call) : deliverCalls sink t (c :: cs) = (t', e) := by
  rw [deliverCalls, h]
  cases e <;> first | exact absurd rfl he | rfl

theorem deliverCalls_append_of_ok {t t' : σ} {cs : List Call}
    (h : deliverCalls sink t cs = (t', .ok)) (cs' : List Call) :
    deliverCalls sink t (cs ++ cs') = deliverCalls sink t' cs' := by
  induction cs generalizing t with
  | nil =>
    cases h
    rfl
  | cons c cs ih =>
    rcases hc : sink t c with ⟨t₁, e⟩
    by_cases he : e = .ok
    · subst he
      rw [deliverCalls_cons_of_ok hc] at h
      rw [List.cons_append, deliverCalls_cons_of_ok hc, ih h]
    · rw [deliverCalls_cons_of_error hc he] at h
      cases h
      exact absurd rfl he

theorem deliverCalls_append_of_error {t t' : σ} {cs : List Call} {e : BbErr}
    (h : deliverCalls sink t cs = (t', e)) (he : e ≠ .ok) (cs' : List Call) :
    deliverCalls sink t (cs ++ cs') = (t', e) := by
  induction cs generalizing t with
  | nil =>
    cases h
    exact absurd rfl he
  | cons c cs ih =>
    rcases hc : sink t c with ⟨t₁, e₁⟩
    by_cases he₁ : e₁ = .ok
    · subst he₁
      rw [deliverCalls_cons_of_ok hc] at h
      rw [List.cons_append, deliverCalls_cons_of_ok hc, ih h]
    · rw [deliverCalls_cons_of_error hc he₁] at h
      cases h
      rw [List.cons_append, deliverCalls_cons_of_error hc he₁]

/-- The call that the sink rejects. -/
theorem deliverCalls_error {t t' : σ} {cs : List Call} {e : BbErr}
    (h : deliverCalls sink t cs = (t', e)) (he : e ≠ .ok) :
    ∃ pre c post s, cs = pre ++ c :: post ∧ deliverCalls sink t pre = (s, .ok) ∧
      sink s c = (t', e) := by
  induction cs generalizing t with
  | nil =>
    cases h
    exact absurd rfl he
  | cons c cs ih =>
    rcases hc : sink t c with ⟨t₁, e₁⟩
    by_cases he₁ : e₁ = .ok
    · subst he₁
      rw [deliverCalls_cons_of_ok hc] at h
      obtain ⟨pre, c', post, s, rfl, hpre, hc'⟩ := ih h
      exact ⟨c :: pre, c', post, s, rfl, by rw [deliverCalls_cons_of_ok hc, hpre], hc'⟩
    · rw [deliverCalls_cons_of_error hc he₁] at h
      cases h
      exact ⟨[], c, cs, t, rfl, rfl, hc⟩

end

/-! ## The entry points -/

section

variable {σ : Type} {cfg : Kconfig} {s : ScanState}

/-- The return of a feed or an end: an error is kept in the scan state. -/
def settle (s : ScanState) : σ × Except BbErr ScanState → σ × ScanState × BbErr
  | (t, .ok s') => (t, s', .ok)
  | (t, .error rc) => (t, { s with err := rc }, rc)

theorem scanFeed_settle (sink : σ → Call → σ × BbErr) (t : σ) (herr : s.err = .ok) (chunk : Bytes) :
    scanFeed cfg sink t s chunk = settle s ((drive cfg s chunk).deliver sink t) := by
  rw [scanFeed, if_neg (not_not_intro herr)]
  rfl

theorem scanEnd_settle (sink : σ → Call → σ × BbErr) (t : σ) (herr : s.err = .ok) :
    scanEnd sink t s = settle s ((endScan s).deliver sink t) := by
  rw [scanEnd, if_neg (not_not_intro herr)]
  rfl

/-- A sink that gets through sees what the recorder sees. -/
theorem settle_agrees {sink : σ → Call → σ × BbErr} {t : σ} {x : Scan ScanState} (cs : List Call)
    (h : (settle s (x.deliver sink t)).2.2 = .ok) :
    (settle s (x.deliver record cs)).2 = (settle s (x.deliver sink t)).2 := by
  rw [deliver_of_accepting record_accepting]
  unfold Scan.deliver at h ⊢
  rcases hd : deliverCalls sink t x.calls with ⟨t', e⟩
  rw [hd] at h
  by_cases he : e = .ok
  · subst he
    dsimp only
    cases x.result <;> rfl
  · cases e <;> first | exact absurd rfl he | cases h

theorem scanFeed_agrees {sink : σ → Call → σ × BbErr} {t : σ} {chunk : Bytes} (cs : List Call)
    (h : (scanFeed cfg sink t s chunk).2.2 = .ok) :
    (scanFeed cfg record cs s chunk).2 = (scanFeed cfg sink t s chunk).2 := by
  by_cases herr : s.err = .ok
  · rw [scanFeed_settle sink t herr] at h ⊢
    rw [scanFeed_settle record cs herr]
    exact settle_agrees cs h
  · unfold scanFeed
    rw [if_pos herr, if_pos herr]

theorem scanEnd_agrees {sink : σ → Call → σ × BbErr} {t : σ} (cs : List Call)
    (h : (scanEnd sink t s).2.2 = .ok) : (scanEnd record cs s).2 = (scanEnd sink t s).2 := by
  by_cases herr : s.err = .ok
  · rw [scanEnd_settle sink t herr] at h ⊢
    rw [scanEnd_settle record cs herr]
    exact settle_agrees cs h
  · unfold scanEnd
    rw [if_pos herr, if_pos herr]

/-- What any sink gets through, the recorder gets through. -/
theorem scanBounded_record_ok {sink : σ → Call → σ × BbErr} {t : σ} {buf : Bytes}
    (h : (scanBounded cfg sink t buf).2 = .ok) : (scanBounded cfg record [] buf).2 = .ok := by
  unfold scanBounded at h ⊢
  rcases hfeed : scanFeed cfg sink t (scanBeginInternal true) buf with ⟨t₁, s₁, rc⟩
  rw [hfeed] at h
  by_cases hrc : rc = .ok
  · subst hrc
    have hfeeds : (scanFeed cfg record [] (scanBeginInternal true) buf).2 = (s₁, .ok) :=
      (scanFeed_agrees [] (by rw [hfeed])).trans (by rw [hfeed])
    rcases hrecord : scanFeed cfg record [] (scanBeginInternal true) buf with ⟨cs, p⟩
    rw [hrecord] at hfeeds
    dsimp only at hfeeds
    subst hfeeds
    exact (congrArg Prod.snd (scanEnd_agrees cs h)).trans h
  · cases rc <;> first | exact absurd rfl hrc | cases h

/-- What a feed or an end does to any sink, from what it does to the recorder. -/
structure Delivers (s : ScanState) (run : (σ → Call → σ × BbErr) → σ → σ × ScanState × BbErr)
    (calls : List Call) (s' : ScanState) : Prop where
  accepted : ∀ sink t t', deliverCalls sink t calls = (t', .ok) → run sink t = (t', s', .ok)
  rejected : ∀ sink t t' e, deliverCalls sink t calls = (t', e) → e ≠ .ok →
    run sink t = (t', { s with err := e }, e)

/-- A feed or an end is the delivery of a scan. -/
theorem delivers_of_ok {x : Scan ScanState} {s' : ScanState}
    {run : (σ → Call → σ × BbErr) → σ → σ × ScanState × BbErr}
    (hrun : ∀ sink t, run sink t = settle s (x.deliver sink t)) (hx : x.result = .ok s') :
    Delivers s run x.calls s' := by
  constructor
  · intro sink t t' hdeliver
    rw [hrun, Scan.deliver, hdeliver]
    simp only [hx, settle]
  · intro sink t t' e hdeliver he
    rw [hrun, Scan.deliver, hdeliver]
    cases e <;> first | exact absurd rfl he | rfl

/-- A scan the recorder accepts. -/
theorem delivers_of_recorded {x : Scan ScanState} {cs cs' : List Call} {s' : ScanState}
    {run : (σ → Call → σ × BbErr) → σ → σ × ScanState × BbErr}
    (hrun : ∀ sink t, run sink t = settle s (x.deliver sink t))
    (hfail : ∀ e, x.result = .error e → e ≠ .ok)
    (h : settle s (x.deliver record cs) = (cs', s', .ok)) :
    ∃ calls, cs' = cs ++ calls ∧ Delivers s run calls s' := by
  rw [deliver_of_accepting record_accepting, foldl_record] at h
  cases hresult : x.result with
  | error e =>
    rw [hresult] at h
    cases h
    exact absurd rfl (hfail .ok hresult)
  | ok s₁ =>
    rw [hresult] at h
    cases h
    exact ⟨_, rfl, delivers_of_ok hrun hresult⟩

/-- A feed the recorder accepts. -/
theorem scanFeed_delivers {g : Gathering} {m : State} (habs : Abs cfg s g m) {cs cs' : List Call}
    {s' : ScanState} {chunk : Bytes} (h : scanFeed cfg record cs s chunk = (cs', s', .ok)) :
    ∃ calls, cs' = cs ++ calls ∧
      Delivers s (fun (sink : σ → Call → σ × BbErr) t => scanFeed cfg sink t s chunk) calls s' := by
  rw [scanFeed_settle record cs habs.err chunk] at h
  apply delivers_of_recorded (fun sink t => scanFeed_settle sink t habs.err chunk) _ h
  intro e he
  have hdrive := drive_simulates habs chunk
  unfold Drives Scan.Yields at hdrive
  rw [he] at hdrive
  exact hdrive.1

/-- An end the recorder accepts. -/
theorem scanEnd_delivers {g : Gathering} {m : State} (habs : Abs cfg s g m) {cs cs' : List Call}
    {s' : ScanState} (h : scanEnd record cs s = (cs', s', .ok)) :
    ∃ calls, cs' = cs ++ calls ∧
      Delivers s (fun (sink : σ → Call → σ × BbErr) t => scanEnd sink t s) calls s' := by
  rw [scanEnd_settle record cs habs.err] at h
  apply delivers_of_recorded (fun sink t => scanEnd_settle sink t habs.err) _ h
  intro e he
  have hend := endScan_simulates habs
  unfold Scan.Yields at hend
  rw [he] at hend
  exact hend.1

/-- The bounded scan delivers the recorded calls. -/
theorem scanBounded_deliver {buf : Bytes} {calls : List Call}
    (h : scanBounded cfg record [] buf = (calls, .ok)) (sink : σ → Call → σ × BbErr) (t : σ) :
    scanBounded cfg sink t buf = deliverCalls sink t calls := by
  have habs := scanBeginInternal_abs cfg true
  unfold scanBounded at h ⊢
  rcases scanFeed_spec habs [] buf with ⟨s₁, calls₁, evs, g₁, m₁, hfeed, -, habs₁, -⟩ |
    ⟨cs₁, s₁, rc, hfeed, hrc, -⟩
  · obtain ⟨calls₁', hcalls₁, hfeeds⟩ := @scanFeed_delivers σ cfg _ _ _ habs _ _ _ _ hfeed
    obtain rfl : calls₁ = calls₁' := by simpa using hcalls₁
    rw [hfeed] at h
    rcases hend : scanEnd record ([] ++ calls₁) s₁ with ⟨cs₂, s₂, rc⟩
    simp only [hend, Prod.mk.injEq] at h
    obtain ⟨rfl, rfl⟩ := h
    obtain ⟨calls₂, rfl, hends⟩ := @scanEnd_delivers σ cfg _ _ _ habs₁ _ _ _ hend
    rcases hd : deliverCalls sink t calls₁ with ⟨t₁, e₁⟩
    by_cases he₁ : e₁ = .ok
    · subst he₁
      rw [List.nil_append, deliverCalls_append_of_ok hd, hfeeds.accepted sink t t₁ hd]
      rcases hd₂ : deliverCalls sink t₁ calls₂ with ⟨t₂, e₂⟩
      dsimp only
      by_cases he₂ : e₂ = .ok
      · subst he₂
        rw [hends.accepted sink t₁ t₂ hd₂]
      · rw [hends.rejected sink t₁ t₂ e₂ hd₂ he₂]
    · rw [List.nil_append, deliverCalls_append_of_error hd he₁,
        hfeeds.rejected sink t t₁ e₁ hd he₁]
      cases e₁ <;> first | exact absurd rfl he₁ | rfl
  · rw [hfeed] at h
    cases rc <;> first | exact absurd rfl hrc | cases h

/-- The feeds deliver the recorded calls. -/
theorem scanFeeds_delivers {g : Gathering} {m : State} (habs : Abs cfg s g m) {cs cs' : List Call}
    {s' : ScanState} {chunks : List Bytes} {rcs : List BbErr}
    (h : scanFeeds cfg record cs s chunks = (cs', s', rcs)) (hrcs : ∀ rc ∈ rcs, rc = .ok) :
    ∃ calls g' m', cs' = cs ++ calls ∧ Abs cfg s' g' m' ∧
      (∀ (sink : σ → Call → σ × BbErr) t t', deliverCalls sink t calls = (t', .ok) →
        ∃ rcs', scanFeeds cfg sink t s chunks = (t', s', rcs')) ∧
      ∀ (sink : σ → Call → σ × BbErr) t t' e, deliverCalls sink t calls = (t', e) → e ≠ .ok →
        ∃ s'' rcs', scanFeeds cfg sink t s chunks = (t', s'', rcs') ∧ s''.err = e := by
  induction chunks generalizing s g m cs rcs with
  | nil =>
    cases h
    refine ⟨[], g, m, by simp, habs, ?_, ?_⟩
    · rintro sink t t' ⟨⟩
      exact ⟨[], rfl⟩
    · rintro sink t t' e ⟨⟩ he
      exact absurd rfl he
  | cons chunk chunks ih =>
    rcases scanFeed_spec habs cs chunk with ⟨s₁, calls₁, evs, g₁, m₁, hfeed, -, habs₁, -⟩ |
      ⟨cs₁, s₁, rc, hfeed, hrc, -⟩
    · obtain ⟨calls₁', hcalls₁, hdeliver⟩ := @scanFeed_delivers σ cfg _ _ _ habs _ _ _ _ hfeed
      obtain rfl : calls₁ = calls₁' := List.append_cancel_left hcalls₁
      rw [scanFeeds, hfeed] at h
      rcases hfeeds : scanFeeds cfg record (cs ++ calls₁) s₁ chunks with ⟨cs₂, s₂, rcs₂⟩
      simp only [hfeeds, Prod.mk.injEq] at h
      obtain ⟨rfl, rfl, rfl⟩ := h
      obtain ⟨calls, g', m', rfl, habs', hok, herr⟩ :=
        ih habs₁ hfeeds fun rc hmem => hrcs rc (List.mem_cons_of_mem _ hmem)
      refine ⟨calls₁ ++ calls, g', m', List.append_assoc .., habs', ?_, ?_⟩
      · intro sink t t' hd
        rcases hd₁ : deliverCalls sink t calls₁ with ⟨t₁, e₁⟩
        by_cases he₁ : e₁ = .ok
        · subst he₁
          rw [deliverCalls_append_of_ok hd₁] at hd
          obtain ⟨rcs', hrest⟩ := hok sink t₁ t' hd
          exact ⟨.ok :: rcs', by simp only [scanFeeds, hdeliver.accepted sink t t₁ hd₁, hrest]⟩
        · rw [deliverCalls_append_of_error hd₁ he₁] at hd
          cases hd
          exact absurd rfl he₁
      · intro sink t t' e hd he
        rcases hd₁ : deliverCalls sink t calls₁ with ⟨t₁, e₁⟩
        by_cases he₁ : e₁ = .ok
        · subst he₁
          rw [deliverCalls_append_of_ok hd₁] at hd
          obtain ⟨s'', rcs', hrest, herr'⟩ := herr sink t₁ t' e hd he
          refine ⟨s'', .ok :: rcs', ?_, herr'⟩
          simp only [scanFeeds, hdeliver.accepted sink t t₁ hd₁, hrest]
        · rw [deliverCalls_append_of_error hd₁ he₁] at hd
          cases hd
          -- From here on every call returns the stored error.
          obtain ⟨rcs', hrest⟩ :=
            @scanFeeds_sticky cfg _ sink t' { s with err := e } he chunks
          refine ⟨{ s with err := e }, e :: rcs', ?_, rfl⟩
          simp only [scanFeeds, hdeliver.rejected sink t t' e hd₁ he, hrest]
    · rw [scanFeeds, hfeed] at h
      rcases hfeeds : scanFeeds cfg record cs₁ s₁ chunks with ⟨cs₂, s₂, rcs₂⟩
      simp only [hfeeds, Prod.mk.injEq] at h
      obtain ⟨rfl, rfl, rfl⟩ := h
      exact absurd (hrcs rc (List.mem_cons_self ..)) hrc

/-- A streaming scan delivers the recorded calls; its end returns the code of the delivery. -/
theorem scanStream_deliver {chunks : List Bytes} {calls : List Call} {rcs : List BbErr}
    (h : scanStream cfg record [] chunks = (calls, rcs)) (hrcs : ∀ rc ∈ rcs, rc = .ok)
    (sink : σ → Call → σ × BbErr) (t : σ) :
    ∃ rcs', scanStream cfg sink t chunks =
      ((deliverCalls sink t calls).1, rcs' ++ [(deliverCalls sink t calls).2]) := by
  have habs := scanBeginInternal_abs cfg false
  unfold scanStream at h ⊢
  rcases hfeeds : scanFeeds cfg record [] scanBegin chunks with ⟨cs₁, s₁, rcs₁⟩
  rw [hfeeds] at h
  rcases hend : scanEnd record cs₁ s₁ with ⟨cs₂, s₂, rc⟩
  simp only [hend, Prod.mk.injEq] at h
  obtain ⟨rfl, rfl⟩ := h
  obtain rfl : rc = .ok := hrcs rc (by simp)
  obtain ⟨calls₁, g', m', rfl, habs', hok, herr⟩ := @scanFeeds_delivers σ cfg _ _ _ habs _ _ _ _ _
    hfeeds fun rc hmem => hrcs rc (List.mem_append_left _ hmem)
  obtain ⟨calls₂, rfl, hends⟩ := @scanEnd_delivers σ cfg _ _ _ habs' _ _ _ hend
  rcases hd : deliverCalls sink t cs₁ with ⟨t₁, e₁⟩
  by_cases he₁ : e₁ = .ok
  · subst he₁
    obtain ⟨rcs', hrun⟩ := hok sink t t₁ hd
    rw [deliverCalls_append_of_ok hd, scanBegin, hrun]
    rcases hd₂ : deliverCalls sink t₁ calls₂ with ⟨t₂, e₂⟩
    dsimp only
    by_cases he₂ : e₂ = .ok
    · subst he₂
      exact ⟨rcs', by rw [hends.accepted sink t₁ t₂ hd₂]⟩
    · exact ⟨rcs', by rw [hends.rejected sink t₁ t₂ e₂ hd₂ he₂]⟩
  · obtain ⟨s'', rcs', hrun, hstored⟩ := herr sink t t₁ e₁ hd he₁
    refine ⟨rcs', ?_⟩
    rw [deliverCalls_append_of_error hd he₁, scanBegin, hrun]
    dsimp only
    rw [scanEnd, if_pos (hstored.trans_ne he₁), hstored]

end

/-! ## Sinks that join chunks -/

/-- The call for an event, a string in one piece. -/
def callOf : Event → Call
  | .beginObj key => .beginObj key
  | .endObj => .endObj
  | .beginArr key => .beginArr key
  | .endArr => .endArr
  | .num key text => .valueNum key text
  | .bool key v => .valueBool key v
  | .null key => .valueNull key
  | .str key value => .valueStrChunk key value true .scannerScratch

section

variable {σ : Type}

/-- Equal codes, and equal states unless the code is `full`. -/
def SameUnless (full : BbErr) (p q : σ × BbErr) : Prop :=
  p.2 = q.2 ∧ (p.2 ≠ full → p = q)

theorem SameUnless.refl (full : BbErr) (p : σ × BbErr) : SameUnless full p p :=
  ⟨rfl, fun _ => rfl⟩

/--
A sink that treats the chunks of a string like the whole string, up to its state when it runs
full, and that runs full on a string as soon as it does on a part of it.
-/
structure JoinsChunks (sink : σ → Call → σ × BbErr) (full : BbErr) : Prop where
  full_ne_ok : full ≠ .ok
  provenance : ∀ t key v last p q,
    sink t (.valueStrChunk key v last p) = sink t (.valueStrChunk key v last q)
  join : ∀ t t' key v w last p, sink t (.valueStrChunk key v false p) = (t', .ok) →
    SameUnless full (sink t' (.valueStrChunk key w last p))
      (sink t (.valueStrChunk key (v ++ w) last p))
  refuse : ∀ t key v w last p, (sink t (.valueStrChunk key v false p)).2 ≠ .ok →
    (sink t (.valueStrChunk key v false p)).2 = full ∧
      (sink t (.valueStrChunk key (v ++ w) last p)).2 = full

variable {sink : σ → Call → σ × BbErr} {full : BbErr}

/-- Delivery after a call whose outcome is the same in both. -/
theorem SameUnless.deliver {t t' : σ} {c c' : Call} {cs cs' : List Call}
    (h : SameUnless full (sink t c) (sink t' c')) (hfull : full ≠ .ok)
    (hrest : ∀ u, sink t c = (u, .ok) →
      SameUnless full (deliverCalls sink u cs) (deliverCalls sink u cs')) :
    SameUnless full (deliverCalls sink t (c :: cs)) (deliverCalls sink t' (c' :: cs')) := by
  rcases hc : sink t c with ⟨u, e⟩
  rcases hc' : sink t' c' with ⟨u', e'⟩
  rw [hc, hc'] at h
  obtain ⟨rfl, hsame⟩ : e = e' ∧ (e ≠ full → (u, e) = (u', e')) := h
  by_cases he : e = .ok
  · subst he
    cases hsame hfull.symm
    rw [deliverCalls_cons_of_ok hc, deliverCalls_cons_of_ok hc']
    exact hrest u hc
  · rw [deliverCalls_cons_of_error hc he, deliverCalls_cons_of_error hc' he]
    exact ⟨rfl, hsame⟩

theorem gatherFrom_of_gather {cs : List Call} {evs : List Event} (h : gather cs = some evs) :
    gatherFrom none cs = some (evs, none) := by
  unfold gather at h
  split at h
  · next evs' heq =>
    cases h
    exact heq
  · cases h

theorem exists_of_gatherFrom_cons {g : Gathering} {c : Call} {cs : List Call} {evs : List Event}
    (h : gatherFrom g (c :: cs) = some (evs, none)) :
    ∃ es g' evs', gatherCall g c = some (es, g') ∧ gatherFrom g' cs = some (evs', none) ∧
      evs = es ++ evs' := by
  rw [gatherFrom, Option.bind_eq_some_iff] at h
  obtain ⟨⟨es, g'⟩, hcall, hmap⟩ := h
  obtain ⟨⟨evs', g''⟩, hrest, heq⟩ := Option.map_eq_some_iff.mp hmap
  cases heq
  exact ⟨es, g', evs', hcall, hrest, rfl⟩

/-- A chunk joins the string that is open, and its last chunk closes it. -/
theorem gatherFrom_chunk {g : Gathering} {key chunk : Bytes} {last : Bool} {p : Span}
    {cs : List Call} {evs : List Event}
    (h : gatherFrom g (.valueStrChunk key chunk last p :: cs) = some (evs, none)) :
    ∃ v, (g = none ∧ v = chunk ∨ ∃ v₀, g = some (key, v₀) ∧ v = v₀ ++ chunk) ∧
      (last = true ∧ (∃ evs', evs = .str key v :: evs' ∧ gatherFrom none cs = some (evs', none)) ∨
        last = false ∧ gatherFrom (some (key, v)) cs = some (evs, none)) := by
  obtain ⟨es, g', evs', hcall, hrest, rfl⟩ := exists_of_gatherFrom_cons h
  cases g with
  | none =>
    refine ⟨chunk, .inl ⟨rfl, rfl⟩, ?_⟩
    cases last <;> cases hcall
    · exact .inr ⟨rfl, hrest⟩
    · exact .inl ⟨rfl, evs', rfl, hrest⟩
  | some kv =>
    obtain ⟨k, v₀⟩ := kv
    rw [gatherCall] at hcall
    split at hcall
    · next hkey =>
      subst hkey
      refine ⟨v₀ ++ chunk, .inr ⟨v₀, rfl, rfl⟩, ?_⟩
      cases last <;> cases hcall
      · exact .inr ⟨rfl, hrest⟩
      · exact .inl ⟨rfl, evs', rfl, hrest⟩
    · cases hcall

/-- Any other call is its event. -/
theorem gatherFrom_other {g : Gathering} {c : Call} {cs : List Call} {evs : List Event}
    (hc : ∀ key chunk last p, c ≠ .valueStrChunk key chunk last p)
    (h : gatherFrom g (c :: cs) = some (evs, none)) :
    g = none ∧
      ∃ e evs', evs = e :: evs' ∧ callOf e = c ∧ gatherFrom none cs = some (evs', none) := by
  obtain ⟨es, g', evs', hcall, hrest, rfl⟩ := exists_of_gatherFrom_cons h
  cases g with
  | none =>
    refine ⟨rfl, ?_⟩
    cases c with
    | valueStrChunk key chunk last p => exact absurd rfl (hc key chunk last p)
    | _ =>
      cases hcall
      exact ⟨_, evs', rfl, rfl, hrest⟩
  | some kv =>
    cases c with
    | valueStrChunk key chunk last p => exact absurd rfl (hc key chunk last p)
    | _ => cases hcall

/-- A string left open is finished by the calls that follow. -/
theorem exists_str_of_open {k v : Bytes} {cs : List Call} {evs : List Event}
    (h : gatherFrom (some (k, v)) cs = some (evs, none)) :
    ∃ w evs', evs = .str k (v ++ w) :: evs' := by
  induction cs generalizing v with
  | nil => cases h
  | cons c cs ih =>
    cases c with
    | valueStrChunk key chunk last p =>
      obtain ⟨v', hopen, hrest⟩ := gatherFrom_chunk h
      obtain ⟨v₀, hv₀, rfl⟩ : ∃ v₀, some (k, v) = some (key, v₀) ∧ v' = v₀ ++ chunk :=
        hopen.resolve_left fun hnone => by cases hnone.1
      cases hv₀
      obtain ⟨-, evs', rfl, -⟩ | ⟨-, hrest⟩ := hrest
      · exact ⟨chunk, evs', rfl⟩
      · obtain ⟨w, evs', rfl⟩ := ih hrest
        exact ⟨chunk ++ w, evs', by rw [List.append_assoc]⟩
    | _ => cases (gatherFrom_other (by simp) h).1

/-- The sink has seen the chunks of the open string. -/
def Opened (sink : σ → Call → σ × BbErr) (t₀ t : σ) : Gathering → Prop
  | none => t = t₀
  | some (k, v) => sink t₀ (.valueStrChunk k v false .scannerScratch) = (t, .ok)

/-- One more chunk, against the whole of what was joined so far. -/
theorem Opened.chunk {t₀ t : σ} {g : Gathering} (h : JoinsChunks sink full)
    (hopen : Opened sink t₀ t g) {key chunk v : Bytes}
    (hv : g = none ∧ v = chunk ∨ ∃ v₀, g = some (key, v₀) ∧ v = v₀ ++ chunk) (last : Bool)
    (p : Span) :
    SameUnless full (sink t (.valueStrChunk key chunk last p))
      (sink t₀ (.valueStrChunk key v last .scannerScratch)) := by
  rw [h.provenance t key chunk last p .scannerScratch]
  obtain ⟨rfl, rfl⟩ | ⟨v₀, rfl, rfl⟩ := hv
  · cases hopen
    exact .refl ..
  · exact h.join t₀ t key v₀ chunk last .scannerScratch hopen

/-- The calls of the rest, after those of an open string's first chunks, against the events. -/
theorem deliverCalls_gathered (h : JoinsChunks sink full) {cs : List Call} {g : Gathering}
    {t₀ t : σ} {evs : List Event} (hopen : Opened sink t₀ t g)
    (hgather : gatherFrom g cs = some (evs, none)) :
    SameUnless full (deliverCalls sink t cs) (deliverCalls sink t₀ (evs.map callOf)) := by
  induction cs generalizing g t₀ t evs with
  | nil =>
    cases hgather
    cases hopen
    exact .refl ..
  | cons c cs ih =>
    by_cases hc : ∃ key chunk last p, c = .valueStrChunk key chunk last p
    · obtain ⟨key, chunk, last, p, rfl⟩ := hc
      obtain ⟨v, hv, hrest⟩ := gatherFrom_chunk hgather
      have hsame := hopen.chunk h hv last p
      obtain ⟨rfl, evs', rfl, hrest⟩ | ⟨rfl, hrest⟩ := hrest
      · exact hsame.deliver h.full_ne_ok fun u _ => @ih none u u evs' rfl hrest
      · rcases hcall : sink t (.valueStrChunk key chunk false p) with ⟨u, e⟩
        rw [hcall] at hsame
        by_cases he : e = .ok
        · subst he
          rw [deliverCalls_cons_of_ok hcall]
          exact @ih (some (key, v)) t₀ u evs (hsame.2 h.full_ne_ok.symm).symm hrest
        · -- The sink is full on a part of the string, so it is on the whole of it.
          obtain ⟨w, evs', rfl⟩ := exists_str_of_open hrest
          have hrefused := h.refuse t₀ key v w true .scannerScratch (hsame.1 ▸ he)
          have hwhole := (h.refuse t₀ key v w true .scannerScratch (hsame.1 ▸ he)).2
          have hpart : e = full := hsame.1.trans hrefused.1
          subst hpart
          rw [deliverCalls_cons_of_error hcall he]
          rw [List.map_cons, callOf, deliverCalls_cons_of_error (Prod.ext rfl hwhole) he]
          exact ⟨rfl, fun hne => absurd rfl hne⟩
    · have hother : ∀ key chunk last p, c ≠ .valueStrChunk key chunk last p :=
        fun key chunk last p heq => hc ⟨key, chunk, last, p, heq⟩
      obtain ⟨rfl, e, evs', rfl, rfl, hrest⟩ := gatherFrom_other hother hgather
      cases hopen
      exact (SameUnless.refl ..).deliver h.full_ne_ok fun u _ => @ih none u u evs' rfl hrest

/-- The bounded scan of an accepted text, for a sink that joins chunks. -/
theorem scanBounded_events {cfg : Kconfig} (h : JoinsChunks sink full) {buf : Bytes}
    {evs : List Event} (htext : IsText LaxNumber buf evs) (hlimits : WithinLimits cfg evs) (t : σ) :
    SameUnless full (scanBounded cfg sink t buf) (deliverCalls sink t (evs.map callOf)) := by
  obtain ⟨calls, hrecord, hgather⟩ := gather_scanBounded htext hlimits
  rw [scanBounded_deliver hrecord]
  exact deliverCalls_gathered h (show Opened sink t t none from rfl) (gatherFrom_of_gather hgather)

/-- The streaming scan of an accepted text, however it is cut. -/
theorem scanStream_events {cfg : Kconfig} (h : JoinsChunks sink full) {chunks : List Bytes}
    {evs : List Event} (htext : IsText LaxNumber chunks.flatten evs)
    (hlimits : WithinLimits cfg evs) (t : σ) :
    ∃ p rcs, SameUnless full p (deliverCalls sink t (evs.map callOf)) ∧
      scanStream cfg sink t chunks = (p.1, rcs ++ [p.2]) := by
  have hreading := (reading_eq_some_iff cfg _ evs).mpr ⟨htext, hlimits⟩
  rcases scanStream_spec cfg chunks with ⟨calls, rcs, evs', hstream, hrcs, hgather, hreading'⟩ |
    ⟨-, hreading'⟩
  · cases hreading.symm.trans hreading'
    obtain ⟨rcs', hdeliver⟩ := scanStream_deliver hstream hrcs sink t
    exact ⟨_, rcs', deliverCalls_gathered h (show Opened sink t t none from rfl)
      (gatherFrom_of_gather hgather), hdeliver⟩
  · cases hreading.symm.trans hreading'

end

end SerializeJson
end Breadboard
