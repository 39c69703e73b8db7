import Breadboard.SerializeJson.BothModes

/-!
# bb_serialize_json_scan - strings are handed over in one go

Between the first and the last chunk of a string the scanner makes no other call, also on an
input it refuses, and it does not run out of space there itself.

Main results:

- Theorem `driveStep_unbroken`: an iteration of the loop.
- Theorem `streamScan_unbroken`: a whole scan.
-/

namespace Breadboard
namespace SerializeJson

open Foundations
open Foundations.JsonText (Event)

/-- A chunk goes on with the string that is open. -/
theorem gatherCall_chunk {g : Gathering} {key chunk : Bytes} {last : Bool} {p : Span}
    {q : List Event × Gathering} (h : gatherCall g (.valueStrChunk key chunk last p) = some q) :
    (∀ k v, g = some (k, v) → k = key) ∧ (last = false → ∃ v, q.2 = some (key, v)) := by
  rcases g with _ | ⟨k, v⟩
  · cases last <;> cases h
    · exact ⟨by rintro k v ⟨⟩, fun _ => ⟨chunk, rfl⟩⟩
    · exact ⟨by rintro k v ⟨⟩, by rintro ⟨⟩⟩
  · rw [gatherCall] at h
    by_cases hkey : key = k
    · subst hkey
      rw [if_pos rfl] at h
      cases last <;> cases h
      · exact ⟨by rintro k v ⟨⟩; rfl, fun _ => ⟨v ++ chunk, rfl⟩⟩
      · exact ⟨by rintro k v ⟨⟩; rfl, by rintro ⟨⟩⟩
    · rw [if_neg hkey] at h
      cases h

/-- Between the chunks of a string there is no other call. -/
theorem gatherCall_other {g : Gathering} {c : Call} {q : List Event × Gathering}
    (hc : ∀ key chunk last p, c ≠ .valueStrChunk key chunk last p)
    (h : gatherCall g c = some q) : g = none ∧ q.2 = none := by
  cases c with
  | valueStrChunk key chunk last p => exact absurd rfl (hc key chunk last p)
  | _ =>
    rcases g with _ | ⟨k, v⟩
    · cases h
      exact ⟨rfl, rfl⟩
    · cases h

section Rules

variable {α β : Type} {g : Gathering} {next : α → Gathering → Prop} {next' : β → Gathering → Prop}

/-- How the scanner itself fails; it is out of space only where no string is open. -/
inductive Fails : Gathering → BbErr → Prop
  | full : Fails none .noSpace
  | grammar (g : Gathering) : Fails g .parseGrammar
  | incomplete (g : Gathering) : Fails g .parseIncomplete
  | state (g : Gathering) : Fails g .invalidState

/--
The calls of a scan go on with the string that is open and leave the strings whole, up to the
one that is open at the end.
-/
structure Unbroken (g : Gathering) (x : Scan α) (next : α → Gathering → Prop) : Prop where
  gathers : ∃ evs g', gatherFrom g x.calls = some (evs, g') ∧
    (∀ a, x.result = .ok a → next a g') ∧ ∀ e, x.result = .error e → Fails g' e

theorem Unbroken.pure {a : α} (h : next a g) : Unbroken g (pure a) next :=
  ⟨[], g, rfl, (by rintro _ ⟨⟩; exact h), (by rintro _ ⟨⟩)⟩

theorem Unbroken.fail {e : BbErr} (h : Fails g e) : Unbroken g (Scan.fail e : Scan α) next :=
  ⟨[], g, rfl, (by rintro _ ⟨⟩), (by rintro _ ⟨⟩; exact h)⟩

theorem Unbroken.call {c : Call} {p : List Event × Gathering}
    {next : Unit → Gathering → Prop} (hcall : gatherCall g c = some p) (h : next () p.2) :
    Unbroken g (Scan.call c) next :=
  ⟨p.1, p.2, (by simp [Scan.call, gatherFrom, hcall]), fun _ _ => h, (by rintro _ ⟨⟩)⟩

theorem Unbroken.imp {x : Scan α} {next₁ : α → Gathering → Prop} (h : Unbroken g x next)
    (himp : ∀ a g', next a g' → next₁ a g') : Unbroken g x next₁ := by
  obtain ⟨evs, g', hgather, hok, hfails⟩ := h
  exact ⟨evs, g', hgather, fun a ha => himp a g' (hok a ha), hfails⟩

theorem Unbroken.bind {x : Scan α} {f : α → Scan β} (h : Unbroken g x next)
    (hrest : ∀ a g', next a g' → Unbroken g' (f a) next') : Unbroken g (x >>= f) next' := by
  obtain ⟨calls, result⟩ := x
  obtain ⟨evs, g', hgather, hok, hfails⟩ := h
  cases result with
  | error e => exact ⟨evs, g', hgather, (by rintro _ ⟨⟩), (by rintro _ ⟨⟩; exact hfails e rfl)⟩
  | ok a =>
    obtain ⟨evs', g'', hgather', hok', hfails'⟩ := hrest a g' (hok a rfl)
    refine ⟨evs ++ evs', g'', ?_, hok', hfails'⟩
    change gatherFrom g (calls ++ (f a).calls) = _
    rw [gatherFrom_append, hgather, Option.bind_some, hgather', Option.map_some]

end Rules

section Steps

variable {cfg : Kconfig} {s : ScanState} {g : Gathering}

/-- Only inside a string value is a string open, the one of the current key. -/
def Holding (s : ScanState) (g : Gathering) : Prop :=
  ∀ k v, g = some (k, v) → s.phase = .valStr ∧ k = s.curKey

theorem Holding.eq_none (h : Holding s g) (hphase : s.phase ≠ .valStr) : g = none := by
  rcases g with _ | ⟨k, v⟩
  · rfl
  · exact absurd (h k v rfl).1 hphase

theorem holding_none (s : ScanState) : Holding s none := by
  rintro k v ⟨⟩

theorem scratchAppend_unbroken (s : ScanState) (data : Bytes) :
    Unbroken none (scratchAppend cfg s data) fun _ g' => g' = none := by
  unfold scratchAppend
  split
  · exact .fail .full
  · exact .pure rfl

/-- What is open in a string of the given kind. -/
def HoldingIn (isKey : Bool) (s : ScanState) (g : Gathering) : Prop :=
  ∀ k v, g = some (k, v) → isKey = false ∧ k = s.curKey

theorem emitStrBytes_unbroken {isKey : Bool} (h : HoldingIn isKey s g) (data : Bytes) (last : Bool)
    (p : Span) :
    Unbroken g (emitStrBytes cfg s data last isKey p) fun s' g' =>
      s'.phase = s.phase ∧ HoldingIn isKey s' g' ∧ (last = true → g' = none) := by
  have hnone (k v : Bytes) : (none : Gathering) = some (k, v) → isKey = false ∧ k = s.curKey := by
    rintro ⟨⟩
  unfold emitStrBytes
  cases isKey with
  | true =>
    have hg : g = none := by
      rcases g with _ | ⟨k, v⟩
      · rfl
      · cases (h k v rfl).1
    subst hg
    rw [if_pos rfl]
    unfold scratchAppend
    split
    · exact .fail .full
    · exact .pure ⟨rfl, (by rintro k v ⟨⟩), fun _ => rfl⟩
  | false =>
    rw [if_neg (by decide)]
    obtain ⟨q, hcall, hq⟩ : ∃ q, gatherCall g (.valueStrChunk s.curKey data last p) = some q ∧
        (∀ k v, q.2 = some (k, v) → k = s.curKey) ∧ (last = true → q.2 = none) := by
      rcases g with _ | ⟨k, v⟩
      · cases last
        · exact ⟨_, rfl, (by rintro k v ⟨⟩; rfl), (by rintro ⟨⟩)⟩
        · exact ⟨_, rfl, (by rintro k v ⟨⟩), fun _ => rfl⟩
      · obtain rfl := (h k v rfl).2
        rw [gatherCall, if_pos rfl]
        cases last
        · exact ⟨_, rfl, (by rintro k v ⟨⟩; rfl), (by rintro ⟨⟩)⟩
        · exact ⟨_, rfl, (by rintro k v ⟨⟩), fun _ => rfl⟩
    have hchunk : Unbroken g (Scan.call (.valueStrChunk s.curKey data last p))
        fun _ g' => g' = q.2 := .call hcall rfl
    refine hchunk.bind ?_
    rintro - g' rfl
    exact .pure ⟨rfl, fun k v hk => ⟨rfl, hq.1 k v hk⟩, hq.2⟩

theorem flushRun_unbroken {isKey : Bool} (h : HoldingIn isKey s g) (run : Bytes) :
    Unbroken g (flushRun cfg isKey s run) fun s' g' =>
      s'.phase = s.phase ∧ HoldingIn isKey s' g' := by
  unfold flushRun
  split
  · exact .pure ⟨rfl, h⟩
  · exact (emitStrBytes_unbroken h run false _).imp fun s' g' h' => ⟨h'.1, h'.2.1⟩

theorem scanEscapeByte_frame {s' : ScanState} {c : UInt8} {out : Bytes}
    (h : scanEscapeByte s c = .ok (s', out)) : s'.phase = s.phase ∧ s'.curKey = s.curKey := by
  unfold scanEscapeByte at h
  dsimp only at h
  split at h <;> repeat' split at h
  all_goals cases h
  all_goals exact ⟨rfl, rfl⟩

/-- A string; the induction is on what is left of the chunk. -/
theorem scanString_unbroken {isKey : Bool} (h : HoldingIn isKey s g) (run input : Bytes) :
    Unbroken g (scanString cfg isKey s run input) fun p g' =>
      p.1.phase = s.phase ∧ HoldingIn isKey p.1 g' ∧ (p.2.2 = true → g' = none) := by
  induction input generalizing s g run with
  | nil =>
    rw [scanString]
    exact (flushRun_unbroken h run).bind fun s' g' h' => .pure ⟨h'.1, h'.2, (by rintro ⟨⟩)⟩
  | cons c rest ih =>
    have hagain {s₁ : ScanState} {g₁ : Gathering} (hphase : s₁.phase = s.phase)
        (h₁ : HoldingIn isKey s₁ g₁) (run₁ : Bytes) :
        Unbroken g₁ (scanString cfg isKey s₁ run₁ rest) fun p g' =>
          p.1.phase = s.phase ∧ HoldingIn isKey p.1 g' ∧ (p.2.2 = true → g' = none) :=
      (ih h₁ run₁).imp fun p g' h' => ⟨h'.1.trans hphase, h'.2⟩
    rw [scanString]
    split
    · cases hesc : scanEscapeByte s c with
      | error e =>
        rw [scanEscapeByte_error hesc]
        exact .fail (.grammar g)
      | ok p =>
        obtain ⟨s₁, out⟩ := p
        obtain ⟨hphase, hkey⟩ := scanEscapeByte_frame hesc
        have h₁ : HoldingIn isKey s₁ g := fun k v hk => hkey ▸ h k v hk
        dsimp only
        split
        · exact hagain hphase h₁ []
        split
        · refine (emitStrBytes_unbroken h₁ out true _).bind fun s₂ g₂ h₂ => ?_
          exact .pure ⟨h₂.1.trans hphase, h₂.2.1, fun _ => h₂.2.2 rfl⟩
        · refine (emitStrBytes_unbroken h₁ out false _).bind fun s₂ g₂ h₂ => ?_
          exact hagain (h₂.1.trans hphase) h₂.2.1 []
    split
    · refine (emitStrBytes_unbroken h run true _).bind fun s₂ g₂ h₂ => ?_
      exact .pure ⟨h₂.1, h₂.2.1, fun _ => h₂.2.2 rfl⟩
    split
    · refine (flushRun_unbroken h run).bind fun s₂ g₂ h₂ => ?_
      exact @hagain { s₂ with escPhase := .backslash } g₂ h₂.1 h₂.2 []
    split
    · exact .fail (.grammar g)
    · exact hagain rfl h _

theorem scanNumber_unbroken (s : ScanState) (input : Bytes) :
    Unbroken none (scanNumber cfg s input) fun _ g' => g' = none := by
  induction input generalizing s with
  | nil => exact .pure rfl
  | cons c rest ih =>
    rw [scanNumber]
    split
    · exact .fail (.grammar none)
    · exact .pure rfl
    · refine (scratchAppend_unbroken s [c]).bind ?_
      rintro s' g' rfl
      exact ih _

theorem scanLiteral_unbroken (s : ScanState) (input : Bytes) :
    Unbroken none (scanLiteral s input) fun _ g' => g' = none := by
  induction input generalizing s with
  | nil => exact .pure rfl
  | cons c rest ih =>
    rw [scanLiteral]
    split
    · exact .fail (.grammar none)
    · dsimp only
      split
      · exact .pure rfl
      · exact ih _

theorem finalizeNumber_unbroken (s : ScanState) :
    Unbroken none (finalizeNumber s) fun _ g' => g' = none :=
  Unbroken.bind (Unbroken.call rfl rfl) fun _ _ h => .pure h

theorem emitLiteral_unbroken (s : ScanState) :
    Unbroken none (emitLiteral s) fun _ g' => g' = none := by
  unfold emitLiteral
  cases s.litKind <;> exact .call rfl rfl

theorem closeContainer_unbroken (s : ScanState) :
    Unbroken none (closeContainer s) fun _ g' => g' = none := by
  unfold closeContainer
  split
  · exact .fail (.state none)
  · rename_i isArr stack hstack
    cases isArr <;> exact Unbroken.bind (Unbroken.call rfl rfl) fun _ _ h => .pure h

theorem dispatchValueStart_unbroken (s : ScanState) (c : UInt8) (keyed : Bool) :
    Unbroken none (dispatchValueStart cfg s c keyed) fun _ g' => g' = none := by
  have hcall {s' : ScanState} {c : Call} (hc : ∃ p, gatherCall none c = some (p, none)) :
      Unbroken none (Scan.call c >>= fun _ => pure s') fun _ g' => g' = none := by
    obtain ⟨p, hp⟩ := hc
    exact Unbroken.bind (Unbroken.call hp rfl) fun _ _ h => .pure h
  have happend {s : ScanState} {f : ScanState → ScanState} :
      Unbroken none (scratchAppend cfg s [c] >>= fun s => pure (f s)) fun _ g' => g' = none :=
    (scratchAppend_unbroken s [c]).bind fun _ _ h => .pure h
  unfold dispatchValueStart
  generalize (if keyed = true then s else { s with keyLen := 0, scratch := [] }) = s
  dsimp only
  split
  · exact .pure rfl
  split
  · split
    · exact .fail .full
    · exact hcall ⟨_, rfl⟩
  split
  · split
    · exact .fail .full
    · exact hcall ⟨_, rfl⟩
  split
  · exact happend
  split
  · exact happend
  split
  · exact .pure rfl
  split
  · exact .pure rfl
  split
  · exact .pure rfl
  · exact .fail (.grammar none)

/-- An iteration that skips white space first: what it keeps at the end of the input and at a byte. -/
theorem skips_unbroken {s : ScanState} {input : Bytes} {f : UInt8 → Bytes → Scan (ScanState × Bytes)}
    (hend : Unbroken none (pure (s, []) : Scan (ScanState × Bytes)) fun p g' => Holding p.1 g')
    (hf : ∀ c rest, Unbroken none (f c rest) fun p g' => Holding p.1 g') :
    Unbroken none (match skipWs input with
      | [] => pure (s, [])
      | c :: rest => f c rest) fun p g' => Holding p.1 g' := by
  cases skipWs input with
  | nil => exact hend
  | cons c rest => exact hf c rest

/-- One iteration of the loop. -/
theorem driveStep_unbroken (h : Holding s g) (input : Bytes) :
    Unbroken g (driveStep cfg s input) fun p g' => Holding p.1 g' := by
  by_cases hval : s.phase = .valStr
  · have hin : HoldingIn false s g := fun k v hk => ⟨rfl, (h k v hk).2⟩
    unfold driveStep
    simp only [hval]
    refine (scanString_unbroken hin [] input).bind ?_
    rintro ⟨s', rest, closed⟩ g' ⟨hphase, hheld, hclosed⟩
    dsimp only at hphase hheld hclosed ⊢
    cases closed with
    | true =>
      rw [hclosed rfl]
      exact .pure (holding_none _)
    | false => exact .pure fun k v hk => ⟨hphase.trans hval, (hheld k v hk).2⟩
  · obtain rfl := h.eq_none hval
    have hpure {p : ScanState × Bytes} : Unbroken none (pure p) fun p g' => Holding p.1 g' :=
      .pure (holding_none _)
    have hfail : Unbroken none (Scan.fail .parseGrammar : Scan (ScanState × Bytes))
        fun p g' => Holding p.1 g' := .fail (.grammar none)
    have hthen {α : Type} {x : Scan α} {f : α → Scan (ScanState × Bytes)}
        (hx : Unbroken none x fun _ g' => g' = none)
        (hf : ∀ a, Unbroken none (f a) fun p g' => Holding p.1 g') :
        Unbroken none (x >>= f) fun p g' => Holding p.1 g' := by
      refine hx.bind ?_
      rintro a g' rfl
      exact hf a
    have hclose (s' : ScanState) (rest : Bytes) :
        Unbroken none (closeContainer s' >>= fun s => pure (s, rest)) fun p g' => Holding p.1 g' :=
      hthen (closeContainer_unbroken s') fun _ => hpure
    have hstart (c : UInt8) (keyed : Bool) (rest : Bytes) :
        Unbroken none (dispatchValueStart cfg s c keyed >>= fun s => pure (s, rest))
          fun p g' => Holding p.1 g' :=
      hthen (dispatchValueStart_unbroken s c keyed) fun _ => hpure
    unfold driveStep
    cases hphase : s.phase with
    | valStr => exact absurd hphase hval
    | root => exact skips_unbroken hpure fun c rest => hstart c false rest
    | afterRoot => exact skips_unbroken hpure fun c rest => hfail
    | objKeyOrClose =>
      refine skips_unbroken hpure fun c rest => ?_
      split
      · exact hclose s rest
      split
      · exact hfail
      · exact hpure
    | objKeyOnly =>
      refine skips_unbroken hpure fun c rest => ?_
      split
      · exact hclose s rest
      split
      · exact hfail
      · exact hpure
    | objColon =>
      refine skips_unbroken hpure fun c rest => ?_
      split_ifs
      · exact hfail
      · exact hpure
    | objValue => exact skips_unbroken hpure fun c rest => hstart c true rest
    | objAfterValue =>
      refine skips_unbroken hpure fun c rest => ?_
      split_ifs
      · exact hpure
      · exact hclose s rest
      · exact hfail
    | arrElemOrClose =>
      refine skips_unbroken hpure fun c rest => ?_
      split
      · exact hclose s rest
      · exact hstart c false rest
    | arrElemOnly =>
      refine skips_unbroken hpure fun c rest => ?_
      split
      · exact hclose s rest
      · exact hstart c false rest
    | arrAfterValue =>
      refine skips_unbroken hpure fun c rest => ?_
      split_ifs
      · exact hpure
      · exact hclose s rest
      · exact hfail
    | keyStr =>
      have hkey : HoldingIn true s none := by rintro k v ⟨⟩
      refine (scanString_unbroken hkey [] input).bind ?_
      rintro ⟨s', rest, closed⟩ g' ⟨-, hheld, -⟩
      have hnone : g' = none := by
        rcases g' with _ | ⟨k, v⟩
        · rfl
        · cases (hheld k v rfl).1
      subst hnone
      dsimp only
      split_ifs
      · exact hpure
      · exact hpure
    | valNum =>
      refine hthen (scanNumber_unbroken s input) ?_
      rintro ⟨s', rest, finished⟩
      dsimp only
      split_ifs
      · exact hthen (finalizeNumber_unbroken s') fun _ => hpure
      · exact hpure
    | valLit =>
      refine hthen (scanLiteral_unbroken s input) ?_
      rintro ⟨s', rest, finished⟩
      dsimp only
      split_ifs
      · exact hthen (emitLiteral_unbroken s') fun _ => hpure
      · exact hpure

/-- A chunk; the induction is on the bound of the loop. -/
theorem drive_unbroken (h : Holding s g) (chunk : Bytes) :
    Unbroken g (drive cfg s chunk) Holding := by
  unfold drive
  generalize 2 * chunk.length + 1 = fuel
  induction fuel generalizing s g chunk with
  | zero =>
    cases chunk with
    | nil => exact .pure h
    | cons c input => exact .fail (.state g)
  | succ fuel ih =>
    cases chunk with
    | nil => exact .pure h
    | cons c input =>
      rw [driveLoop]
      exact (driveStep_unbroken h (c :: input)).bind fun p g' hp => ih hp p.2

theorem endScan_unbroken (h : Holding s g) : Unbroken g (endScan s) Holding := by
  have hend {s' : ScanState} (h' : Holding s' g) :
      Unbroken g (if s'.phase ≠ .afterRoot then Scan.fail .parseIncomplete else pure s')
        Holding := by
    split
    · exact .fail (.incomplete g)
    · exact .pure h'
  unfold endScan endNumber
  split
  · rename_i hphase
    obtain rfl := h.eq_none (by simp [hphase])
    split
    · refine (finalizeNumber_unbroken s).bind ?_
      rintro s' g' rfl
      exact hend (holding_none s')
    · exact .fail (.incomplete none)
  · rw [Scan.pure_bind]
    exact hend h

/-- A whole scan. -/
theorem streamScan_unbroken (h : Holding s g) (chunks : List Bytes) :
    Unbroken g (streamScan cfg s chunks) Holding := by
  induction chunks generalizing s g with
  | nil => exact endScan_unbroken h
  | cons chunk chunks ih => exact (drive_unbroken h chunk).bind fun s' g' h' => ih h'

end Steps

end SerializeJson
end Breadboard
