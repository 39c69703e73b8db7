import Breadboard.SerializeJson.Recut

/-!
# bb_serialize_json_scan - the bounded scan and the streaming scan

The mode of the scanner is in the provenance of its chunks only.  With the cuts of the input
this makes the bounded scan of a body a coarser cutting of every streaming scan of it.

Main results:

- Theorem `streamScan_recuts`: the bounded scan against every streaming scan.
- Theorem `scanBounded_outcome`, `scanStream_outcome`: the entry points in terms of it.
-/

namespace Breadboard
namespace SerializeJson

open Foundations
open Scan (deliverCalls)

/-! ## The two modes -/

/-- The scan state in the given mode. -/
def ScanState.inMode (s : ScanState) (b : Bool) : ScanState :=
  { s with boundedMode := b }

section Modes

variable {cfg : Kconfig} {s : ScanState} {b : Bool}

/-- The same state in the two modes. -/
abbrev SameBut (b : Bool) (s₁ s₂ : ScanState) : Prop :=
  s₁ = s₂.inMode b

/-- The same return of a token or an iteration in the two modes. -/
abbrev SameReturn {α : Type} (b : Bool) (p₁ p₂ : ScanState × α) : Prop :=
  p₁ = (p₂.1.inMode b, p₂.2)

/-- A scan whose calls do not depend on the mode. -/
theorem Recuts.of_map {α β : Type} {f : β → α} {x : Scan α} {y : Scan β}
    (h : x = y >>= fun a => pure (f a)) : Recuts False (fun a b => a = f b) x y := by
  subst h
  refine ⟨fun sink _ t => ?_⟩
  rw [deliver_bind]
  rcases y.deliver sink t with ⟨t', _ | a⟩
  · exact .stops t' _
  · exact .returns t' rfl

/-- The bytes of a string handed over in the two modes. -/
theorem emitStrBytes_inMode (isKey last : Bool) (s : ScanState) (data : Bytes) (p q : Span) :
    Recuts False (SameBut b) (emitStrBytes cfg (s.inMode b) data last isKey p)
      (emitStrBytes cfg s data last isKey q) := by
  cases isKey with
  | true =>
    apply Recuts.of_map
    simp only [emitStrBytes, if_true, scratchAppend]
    by_cases hroom : cfg.scratchMaxBytes < s.scratch.length + data.length
    · have hroom' : cfg.scratchMaxBytes < (s.inMode b).scratch.length + data.length := hroom
      rw [if_pos hroom, if_pos hroom', Scan.fail_bind]
    · have hroom' : ¬ cfg.scratchMaxBytes < (s.inMode b).scratch.length + data.length := hroom
      rw [if_neg hroom, if_neg hroom', Scan.pure_bind]
      rfl
  | false =>
    refine ⟨fun sink hjoins t => ?_⟩
    simp only [emitStrBytes, Bool.false_eq_true, if_false]
    rw [deliver_bind, deliver_bind, deliver_call, deliver_call]
    have hkey : (s.inMode b).curKey = s.curKey := rfl
    rw [hkey, hjoins.provenance t s.curKey data last p q]
    rcases sink t (.valueStrChunk s.curKey data last q) with ⟨t', e⟩
    cases e <;> first | exact .returns t' rfl | exact .stops t' _

theorem flushRun_inMode (isKey : Bool) (s : ScanState) (run : Bytes) :
    Recuts False (SameBut b) (flushRun cfg isKey (s.inMode b) run) (flushRun cfg isKey s run) := by
  unfold flushRun
  by_cases hrun : run = []
  · rw [if_pos hrun, if_pos hrun]
    exact .of_map (Scan.pure_bind _ _).symm
  · rw [if_neg hrun, if_neg hrun]
    exact emitStrBytes_inMode isKey false s run _ _

theorem scanEscapeByte_inMode (s : ScanState) (c : UInt8) :
    scanEscapeByte (s.inMode b) c = (scanEscapeByte s c).map fun p => (p.1.inMode b, p.2) := by
  obtain ⟨phase, err, mode, objStack, scratch, keyLen, numPhase, litKind, litMatched, escPhase,
    escCodeUnit, escHighSurrogate⟩ := s
  unfold scanEscapeByte
  cases escPhase with
  | none => rfl
  | backslash =>
    dsimp only [ScanState.inMode]
    cases simpleEscape c with
    | none => simp only [apply_ite (Except.map _)]; rfl
    | some decoded => rfl
  | lowBackslash => simp only [apply_ite (Except.map _)]; rfl
  | lowU => simp only [apply_ite (Except.map _)]; rfl
  | _ =>
    dsimp only [ScanState.inMode]
    cases hexVal c with
    | none => rfl
    | some hv => simp only [apply_ite (Except.map _)]; rfl

/-- A string in the two modes. -/
theorem scanString_inMode (isKey : Bool) (s : ScanState) (run input : Bytes) :
    Recuts False (SameReturn b) (scanString cfg isKey (s.inMode b) run input)
      (scanString cfg isKey s run input) := by
  induction input generalizing s run with
  | nil =>
    rw [scanString, scanString]
    refine (flushRun_inMode isKey s run).bind fun s₁ s₂ _ hs => ?_
    subst hs
    exact .of_map (Scan.pure_bind _ _).symm
  | cons c rest ih =>
    have hemit (s : ScanState) (data rest : Bytes) (p q : Span) : Recuts False (SameReturn b)
        (emitStrBytes cfg (s.inMode b) data true isKey p >>= fun s => pure (s, rest, true))
        (emitStrBytes cfg s data true isKey q >>= fun s => pure (s, rest, true)) := by
      refine (emitStrBytes_inMode isKey true s data p q).bind fun s₁ s₂ _ hs => ?_
      subst hs
      exact .of_map (Scan.pure_bind _ _).symm
    by_cases hesc : s.escPhase = .none
    · have hesc' : (s.inMode b).escPhase = .none := hesc
      by_cases hquote : c = 34
      · subst hquote
        rw [scanString_quote hesc, scanString_quote hesc']
        exact hemit s run rest _ _
      by_cases hback : c = 92
      · subst hback
        rw [scanString_backslash hesc, scanString_backslash hesc']
        refine (flushRun_inMode isKey s run).bind fun s₁ s₂ _ hs => ?_
        subst hs
        exact ih { s₂ with escPhase := .backslash } []
      by_cases hc : c < 32
      · rw [scanString_control hesc _ _ hc, scanString_control hesc' _ _ hc]
        exact .of_map rfl
      · rw [scanString_plain hesc _ _ hquote hback hc, scanString_plain hesc' _ _ hquote hback hc]
        exact ih s (run ++ [c])
    · have hesc' : (s.inMode b).escPhase ≠ .none := hesc
      rw [scanString, scanString, if_pos hesc, if_pos hesc']
      rw [scanEscapeByte_inMode]
      cases scanEscapeByte s c with
      | error e => exact .of_map rfl
      | ok p =>
        obtain ⟨s', out⟩ := p
        dsimp only [Except.map]
        by_cases hout : out = []
        · rw [if_pos hout, if_pos hout]
          exact ih s' []
        rw [if_neg hout, if_neg hout]
        by_cases hquote : rest.head? = some 34
        · rw [if_pos hquote, if_pos hquote]
          exact hemit s' out rest.tail _ _
        · rw [if_neg hquote, if_neg hquote]
          refine (emitStrBytes_inMode isKey false s' out _ _).bind fun s₁ s₂ _ hs => ?_
          subst hs
          exact ih s₂ []

theorem scanNumber_inMode (s : ScanState) (input : Bytes) :
    scanNumber cfg (s.inMode b) input =
      scanNumber cfg s input >>= fun p => pure (p.1.inMode b, p.2) := by
  induction input generalizing s with
  | nil => rfl
  | cons c rest ih =>
    rw [scanNumber, scanNumber]
    have hphase : (s.inMode b).numPhase = s.numPhase := rfl
    rw [hphase]
    cases numStep s.numPhase c with
    | malformed => rfl
    | finished => rfl
    | next p =>
      dsimp only
      rw [Scan.bind_assoc]
      unfold scratchAppend
      by_cases hroom : cfg.scratchMaxBytes < s.scratch.length + [c].length
      · have hroom' : cfg.scratchMaxBytes < (s.inMode b).scratch.length + [c].length := hroom
        rw [if_pos hroom, if_pos hroom']
        rfl
      · have hroom' : ¬ cfg.scratchMaxBytes < (s.inMode b).scratch.length + [c].length := hroom
        rw [if_neg hroom, if_neg hroom', Scan.pure_bind, Scan.pure_bind]
        exact ih { s with scratch := s.scratch ++ [c], numPhase := p }

theorem scanLiteral_inMode (s : ScanState) (input : Bytes) :
    scanLiteral (s.inMode b) input =
      scanLiteral s input >>= fun p => pure (p.1.inMode b, p.2) := by
  induction input generalizing s with
  | nil => rfl
  | cons c rest ih =>
    rw [scanLiteral, scanLiteral, Scan.ite_bind, Scan.ite_bind]
    have hnext := ih { s with litMatched := s.litMatched + 1 }
    rw [← hnext]
    rfl

theorem closeContainer_inMode (s : ScanState) :
    closeContainer (s.inMode b) = closeContainer s >>= fun s => pure (s.inMode b) := by
  unfold closeContainer
  obtain ⟨phase, err, mode, objStack, scratch, keyLen, numPhase, litKind, litMatched, escPhase,
    escCodeUnit, escHighSurrogate⟩ := s
  cases objStack <;> rfl

theorem dispatchValueStart_inMode (s : ScanState) (c : UInt8) (keyed : Bool) :
    dispatchValueStart cfg (s.inMode b) c keyed =
      dispatchValueStart cfg s c keyed >>= fun s => pure (s.inMode b) := by
  unfold dispatchValueStart scratchAppend
  cases keyed <;> simp only [Scan.ite_bind, Scan.bind_assoc, Scan.pure_bind, Scan.fail_bind] <;> rfl

theorem finalizeNumber_inMode (s : ScanState) :
    finalizeNumber (s.inMode b) = finalizeNumber s >>= fun s => pure (s.inMode b) :=
  rfl

theorem emitLiteral_inMode (s : ScanState) : emitLiteral (s.inMode b) = emitLiteral s :=
  rfl

/-- Away from the strings an iteration makes the same calls. -/
theorem skips_inMode {s : ScanState} {input : Bytes} {f g : UInt8 → Bytes → Scan (ScanState × Bytes)}
    (h : ∀ c rest, f c rest = g c rest >>= fun p => pure (p.1.inMode b, p.2)) :
    Recuts False (SameReturn b)
      (match skipWs input with
        | [] => pure (s.inMode b, [])
        | c :: rest => f c rest)
      (match skipWs input with
        | [] => pure (s, [])
        | c :: rest => g c rest) := by
  cases skipWs input with
  | nil => exact .of_map rfl
  | cons c rest => exact .of_map (h c rest)

/-- One iteration in the two modes. -/
theorem driveStep_inMode (s : ScanState) (input : Bytes) :
    Recuts False (SameReturn b) (driveStep cfg (s.inMode b) input) (driveStep cfg s input) := by
  have hphase' : (s.inMode b).phase = s.phase := rfl
  have hreads (isKey : Bool) {f g : ScanState × Bytes × Bool → Scan (ScanState × Bytes)}
      (h : ∀ s rest closed, f (s.inMode b, rest, closed) =
        g (s, rest, closed) >>= fun p => pure (p.1.inMode b, p.2)) :
      Recuts False (SameReturn b) (scanString cfg isKey (s.inMode b) [] input >>= f)
        (scanString cfg isKey s [] input >>= g) := by
    refine (scanString_inMode isKey s [] input).bind fun p q _ hpq => ?_
    subst hpq
    exact .of_map (h q.1 q.2.1 q.2.2)
  have hcopies {x y : Scan (ScanState × Bytes × Bool)}
      {f g : ScanState × Bytes × Bool → Scan (ScanState × Bytes)}
      (hxy : x = y >>= fun p => pure (p.1.inMode b, p.2))
      (h : ∀ s rest finished, f (s.inMode b, rest, finished) =
        g (s, rest, finished) >>= fun p => pure (p.1.inMode b, p.2)) :
      Recuts False (SameReturn b) (x >>= f) (y >>= g) := by
    refine (Recuts.of_map hxy).bind fun p q _ hpq => ?_
    subst hpq
    exact .of_map (h q.1 q.2.1 q.2.2)
  unfold driveStep
  rw [hphase']
  cases hphase : s.phase with
  | root =>
    refine skips_inMode fun c rest => ?_
    rw [dispatchValueStart_inMode, Scan.bind_assoc, Scan.bind_assoc]
    rfl
  | afterRoot => exact skips_inMode fun c rest => rfl
  | objKeyOrClose =>
    refine skips_inMode fun c rest => ?_
    simp only [Scan.ite_bind, closeContainer_inMode, Scan.bind_assoc, Scan.pure_bind,
      Scan.fail_bind]
    rfl
  | objKeyOnly =>
    refine skips_inMode fun c rest => ?_
    simp only [Scan.ite_bind, closeContainer_inMode, Scan.bind_assoc, Scan.pure_bind,
      Scan.fail_bind]
    rfl
  | objColon =>
    refine skips_inMode fun c rest => ?_
    simp only [Scan.ite_bind, Scan.pure_bind, Scan.fail_bind]
    rfl
  | objValue =>
    refine skips_inMode fun c rest => ?_
    rw [dispatchValueStart_inMode, Scan.bind_assoc, Scan.bind_assoc]
    rfl
  | objAfterValue =>
    refine skips_inMode fun c rest => ?_
    simp only [Scan.ite_bind, closeContainer_inMode, Scan.bind_assoc, Scan.pure_bind,
      Scan.fail_bind]
    rfl
  | arrElemOrClose =>
    refine skips_inMode fun c rest => ?_
    simp only [Scan.ite_bind, closeContainer_inMode, dispatchValueStart_inMode, Scan.bind_assoc,
      Scan.pure_bind]
  | arrElemOnly =>
    refine skips_inMode fun c rest => ?_
    simp only [Scan.ite_bind, closeContainer_inMode, dispatchValueStart_inMode, Scan.bind_assoc,
      Scan.pure_bind]
  | arrAfterValue =>
    refine skips_inMode fun c rest => ?_
    simp only [Scan.ite_bind, closeContainer_inMode, Scan.bind_assoc, Scan.pure_bind,
      Scan.fail_bind]
    rfl
  | keyStr =>
    refine hreads true fun s rest closed => ?_
    cases closed <;> rfl
  | valStr =>
    refine hreads false fun s rest closed => ?_
    cases closed <;> rfl
  | valNum =>
    refine hcopies (scanNumber_inMode s input) fun s rest finished => ?_
    cases finished <;> rfl
  | valLit =>
    refine hcopies (scanLiteral_inMode s input) fun s rest finished => ?_
    cases finished with
    | false => rfl
    | true =>
      simp only [if_true, emitLiteral_inMode, Scan.bind_assoc]
      rfl

/-- A chunk in the two modes; the induction is on the bound of the loop. -/
theorem drive_inMode (s : ScanState) (chunk : Bytes) :
    Recuts False (SameBut b) (drive cfg (s.inMode b) chunk) (drive cfg s chunk) := by
  unfold drive
  generalize 2 * chunk.length + 1 = fuel
  induction fuel generalizing s chunk with
  | zero => cases chunk <;> exact .of_map rfl
  | succ fuel ih =>
    cases chunk with
    | nil => exact .of_map rfl
    | cons c input =>
      rw [driveLoop, driveLoop]
      refine (driveStep_inMode s (c :: input)).bind fun p q _ hpq => ?_
      subst hpq
      exact ih q.1 q.2

theorem endScan_inMode (s : ScanState) :
    Recuts False (SameBut b) (endScan (s.inMode b)) (endScan s) := by
  refine .of_map ?_
  unfold endScan endNumber
  simp only [Scan.ite_bind, finalizeNumber_inMode, Scan.bind_assoc, Scan.pure_bind, Scan.fail_bind]
  rfl

end Modes

/-! ## Whole scans -/

section Streams

variable {cfg : Kconfig}

/-- A scan of the chunks in turn and of the end of the input. -/
def streamScan (cfg : Kconfig) (s : ScanState) : List Bytes → Scan ScanState
  | [] => endScan s
  | chunk :: chunks => drive cfg s chunk >>= fun s => streamScan cfg s chunks

theorem Proper.driven {s s' : ScanState} (h : Proper cfg s) {chunk : Bytes}
    (hresult : (drive cfg s chunk).result = .ok s') : Proper cfg s' := by
  obtain ⟨g, m, habs⟩ := h
  have hsim := drive_simulates habs chunk
  unfold Drives Scan.Yields at hsim
  rw [hresult] at hsim
  obtain ⟨evs, g', -, m', habs', -⟩ := hsim
  exact ⟨g', m', habs'⟩

/-- The whole input in one chunk and in any chunks; the induction is on the chunks. -/
theorem streamScan_append {s : ScanState} (h : Proper cfg s) (chunks : List Bytes) :
    Recuts (∃ c ∈ chunks.flatten, c < 32) Eq (streamScan cfg s [chunks.flatten])
      (streamScan cfg s chunks) := by
  induction chunks generalizing s with
  | nil =>
    change Recuts _ Eq (drive cfg s [] >>= endScan) (endScan s)
    rw [drive_nil, Scan.pure_bind]
    exact .refl _
  | cons chunk chunks ih =>
    have hleft : Recuts (∃ c ∈ chunks.flatten, c < 32) Eq
        (streamScan cfg s [(chunk :: chunks).flatten])
        (drive cfg s chunk >>= fun s => drive cfg s chunks.flatten >>= endScan) := by
      have happend := (drive_append h chunk chunks.flatten).bind_same (f := endScan)
      rw [Scan.bind_assoc] at happend
      exact happend
    refine (hleft.trans ((Recuts.refl _).bind fun s₁ s₂ hs₁ hs => ?_)).spoiled ?_
    · subst hs
      exact ih (h.driven hs₁)
    · rintro ⟨c, hmem, hc⟩
      exact ⟨c, List.mem_append_right _ hmem, hc⟩

/-- The bounded scan is a streaming scan of the same bytes, cut nowhere. -/
theorem streamScan_recuts (cfg : Kconfig) (chunks : List Bytes) :
    Recuts (∃ c ∈ chunks.flatten, c < 32) (SameBut true)
      (streamScan cfg (scanBeginInternal true) [chunks.flatten])
      (streamScan cfg scanBegin chunks) := by
  have hmodes : Recuts False (SameBut true)
      (streamScan cfg (scanBegin.inMode true) [chunks.flatten])
      (streamScan cfg scanBegin [chunks.flatten]) := by
    refine (drive_inMode scanBegin chunks.flatten).bind fun s₁ s₂ _ hs => ?_
    subst hs
    exact endScan_inMode s₂
  exact (hmodes.imp False.elim fun _ _ h => h).trans
    (streamScan_append ⟨_, _, scanBeginInternal_abs cfg false⟩ chunks)

/-- The code a scan ends with. -/
def codeOf {α : Type} : Except BbErr α → BbErr
  | .ok _ => .ok
  | .error e => e

variable {σ : Type}

/-- A scan against a sink, its value forgotten. -/
def outcome {α : Type} (sink : σ → Call → σ × BbErr) (t : σ) (x : Scan α) : σ × BbErr :=
  ((x.deliver sink t).1, codeOf (x.deliver sink t).2)

theorem outcome_of_ok {α : Type} {sink : σ → Call → σ × BbErr} {t t' : σ} {x : Scan α}
    (h : deliverCalls sink t x.calls = (t', .ok)) : outcome sink t x = (t', codeOf x.result) := by
  rw [outcome, Scan.deliver, h]

theorem outcome_of_error {α : Type} {sink : σ → Call → σ × BbErr} {t t' : σ} {x : Scan α} {e : BbErr}
    (h : deliverCalls sink t x.calls = (t', e)) (he : e ≠ .ok) : outcome sink t x = (t', e) := by
  rw [outcome, Scan.deliver, h]
  cases e <;> first | exact absurd rfl he | rfl

theorem outcome_fst {α : Type} (sink : σ → Call → σ × BbErr) (t : σ) (x : Scan α) :
    (outcome sink t x).1 = (deliverCalls sink t x.calls).1 := by
  rcases hd : deliverCalls sink t x.calls with ⟨t', e⟩
  by_cases he : e = .ok
  · subst he
    rw [outcome_of_ok hd]
  · rw [outcome_of_error hd he]

/-- A chunk that is not read to its end leaves an error. -/
theorem Proper.drive_error {s : ScanState} (h : Proper cfg s) {chunk : Bytes}
    {sink : σ → Call → σ × BbErr} {t t' : σ} {e : BbErr}
    (hdeliver : (drive cfg s chunk).deliver sink t = (t', .error e)) : e ≠ .ok := by
  obtain ⟨g, m, habs⟩ := h
  unfold Scan.deliver at hdeliver
  rcases hd : deliverCalls sink t (drive cfg s chunk).calls with ⟨t₁, e₁⟩
  rw [hd] at hdeliver
  by_cases he₁ : e₁ = .ok
  · subst he₁
    have hsim := drive_simulates habs chunk
    unfold Drives Scan.Yields at hsim
    rw [(Prod.mk.inj hdeliver).2] at hsim
    exact hsim.1
  · cases e₁ <;> first | exact absurd rfl he₁ | (cases hdeliver; simp)

/-- The feeds and the end are a scan of the chunks; after an error the calls return it. -/
theorem scanFeeds_outcome {s : ScanState} (h : Proper cfg s) (sink : σ → Call → σ × BbErr) (t : σ)
    (chunks : List Bytes) :
    ∃ t' s' rcs s'', scanFeeds cfg sink t s chunks = (t', s', rcs) ∧
      scanEnd sink t' s' = ((outcome sink t (streamScan cfg s chunks)).1, s'',
        (outcome sink t (streamScan cfg s chunks)).2) := by
  have herr : s.err = .ok := by
    obtain ⟨g, m, habs⟩ := h
    exact habs.err
  induction chunks generalizing s t with
  | nil =>
    have hend := scanEnd_settle sink t herr
    unfold outcome streamScan
    rcases hd : (endScan s).deliver sink t with ⟨t', e | s'⟩ <;> rw [hd] at hend
    · exact ⟨t, s, [], { s with err := e }, rfl, hend⟩
    · exact ⟨t, s, [], s', rfl, hend⟩
  | cons chunk chunks ih =>
    have hfeed := @scanFeed_settle σ cfg s sink t herr chunk
    have hscan := deliver_bind sink t (drive cfg s chunk) fun s => streamScan cfg s chunks
    change (streamScan cfg s (chunk :: chunks)).deliver sink t = _ at hscan
    rcases hdrive : (drive cfg s chunk).deliver sink t with ⟨t₁, e | s₁⟩
    · rw [hdrive] at hfeed hscan
      have he : e ≠ .ok := h.drive_error hdrive
      have hstored : ({ s with err := e } : ScanState).err ≠ .ok := he
      obtain ⟨rcs, hrest⟩ := @scanFeeds_sticky cfg σ sink t₁ _ hstored chunks
      refine ⟨t₁, { s with err := e }, e :: rcs, { s with err := e }, ?_, ?_⟩
      · simp only [scanFeeds, hfeed, settle, hrest]
      · unfold outcome
        rw [hscan, scanEnd, if_pos hstored]
        rfl
    · rw [hdrive] at hfeed hscan
      have hproper := h.driven (result_of_deliver hdrive)
      obtain ⟨t', s', rcs, s'', hrest, hend⟩ := ih hproper t₁ (by
        obtain ⟨g, m, habs⟩ := hproper
        exact habs.err)
      refine ⟨t', s', .ok :: rcs, s'', ?_, ?_⟩
      · simp only [scanFeeds, hfeed, settle, hrest]
      · unfold outcome at hend ⊢
        rw [hscan]
        exact hend

/-- `bb_serialize_json_scan_bounded`. -/
theorem scanBounded_outcome (cfg : Kconfig) (sink : σ → Call → σ × BbErr) (t : σ) (buf : Bytes) :
    scanBounded cfg sink t buf =
      outcome sink t (streamScan cfg (scanBeginInternal true) [buf]) := by
  have hproper : Proper cfg (scanBeginInternal true) := ⟨_, _, scanBeginInternal_abs cfg true⟩
  have hfeed := @scanFeed_settle σ cfg (scanBeginInternal true) sink t rfl buf
  have hscan := deliver_bind sink t (drive cfg (scanBeginInternal true) buf) endScan
  change (streamScan cfg (scanBeginInternal true) [buf]).deliver sink t = _ at hscan
  unfold scanBounded outcome
  rcases hdrive : (drive cfg (scanBeginInternal true) buf).deliver sink t with ⟨t₁, e | s₁⟩
  · have he : e ≠ .ok := hproper.drive_error hdrive
    rw [hdrive] at hfeed hscan
    rw [hfeed, hscan]
    cases e <;> first | exact absurd rfl he | rfl
  · obtain ⟨g, m, habs⟩ := hproper.driven (result_of_deliver hdrive)
    have hend := scanEnd_settle sink t₁ habs.err
    rw [hdrive] at hfeed hscan
    rw [hfeed, hscan]
    dsimp only [settle]
    rw [hend]
    rcases (endScan s₁).deliver sink t₁ with ⟨t₂, e | s₂⟩ <;> rfl

/-- A streaming scan; its end returns the code. -/
theorem scanStream_outcome (cfg : Kconfig) (sink : σ → Call → σ × BbErr) (t : σ)
    (chunks : List Bytes) :
    ∃ rcs, scanStream cfg sink t chunks =
      ((outcome sink t (streamScan cfg scanBegin chunks)).1,
        rcs ++ [(outcome sink t (streamScan cfg scanBegin chunks)).2]) := by
  obtain ⟨t', s', rcs, s'', hfeeds, hend⟩ := scanFeeds_outcome
    ⟨_, _, scanBeginInternal_abs cfg false⟩ sink t chunks
  refine ⟨rcs, ?_⟩
  rw [scanStream, scanBegin, hfeeds]
  dsimp only
  rw [hend]

end Streams

end SerializeJson
end Breadboard
