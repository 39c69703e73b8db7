import Breadboard.SerializeJson.ScanStrings

/-!
# bb_serialize_json_scan - the drive loop against the machine

A scan state stands for a machine state; one iteration of the drive loop, the loop, a feed
and the end of the scan are each compared with the machine.

Main results:

- Theorem `driveStep_simulates`: one iteration of the loop.
- Theorem `drive_simulates`: a whole chunk; the bound on the iterations is never met.
-/

namespace Breadboard
namespace SerializeJson

open Foundations
open Serialize (maxDepth)
open Foundations.JsonText (Event State afterNext valueNext litEvent orWs)

/-! ## Numbers -/

/-- The machine inside the number a scan state is in. -/
def ScanState.numState (s : ScanState) : State :=
  .inNum s.objStack s.curKey s.numPhase.place (s.scratch.drop s.keyLen)

/-- The scan state is inside a number that is within the limits. -/
structure NumAbs (cfg : Kconfig) (s : ScanState) : Prop where
  err : s.err = .ok
  phase : s.phase = .valNum
  keyLen_le : s.keyLen ≤ s.scratch.length
  within : s.numState.Within cfg.limits

section

variable {cfg : Kconfig} {s : ScanState}

theorem curKey_append (h : s.keyLen ≤ s.scratch.length) (data : Bytes) :
    (s.scratch ++ data).take s.keyLen = s.curKey :=
  List.take_append_of_le_length h

/-- The key and the number text share the scratch. -/
theorem size_numState (h : s.keyLen ≤ s.scratch.length) : s.numState.size = s.scratch.length := by
  simp only [ScanState.numState, State.size, ScanState.curKey, List.length_take, List.length_drop]
  omega

/-- Where `scan_number` leaves the scanner and the machine. -/
def NumEnd (cfg : Kconfig) (s : ScanState) (input : Bytes) :
    ScanState × Bytes × Bool → Gathering → List Event → Prop
  | (s', rest, finished), g, evs =>
    g = none ∧ evs = [] ∧ NumAbs cfg s' ∧ s'.objStack = s.objStack ∧
      Continues cfg s.numState input s'.numState rest [] ∧ rest.length ≤ input.length ∧
      if finished then s'.numPhase.isTerminal = true ∧
        ∃ c r, rest = c :: r ∧ JsonText.numStep s'.numPhase.place c = none
      else rest = []

/-- A number, from any point to the end of the chunk or of the number. -/
theorem scanNumber_simulates (h : NumAbs cfg s) (input : Bytes) :
    (scanNumber cfg s input).Yields none (NumEnd cfg s input)
      (cfg.machine s.numState input = none) := by
  induction input generalizing s with
  | nil => exact Scan.yields_pure ⟨rfl, rfl, h, rfl, .refl _ _, Nat.le_refl _, rfl⟩
  | cons c rest ih =>
    have hspec := numStep_spec s.numPhase c
    rw [scanNumber]
    cases hstep : numStep s.numPhase c with
    | malformed =>
      rw [hstep] at hspec
      refine Scan.yields_fail (by decide) (machine_refuses ?_)
      simp [ScanState.numState, JsonText.next, hspec.1, ← isTerminal_eq, hspec.2]
    | finished =>
      rw [hstep] at hspec
      exact Scan.yields_pure ⟨rfl, rfl, h, rfl, .refl _ _, Nat.le_refl _, hspec.2, c, rest, rfl, hspec.1⟩
    | next p =>
      rw [hstep] at hspec
      have hlen := h.keyLen_le
      have hkey : s.keyLen ≤ (s.scratch ++ [c]).length := by
        rw [List.length_append]
        omega
      let s₁ : ScanState := { s with scratch := s.scratch ++ [c], numPhase := p }
      have hnext : JsonText.next s.numState c = some (s₁.numState, []) := by
        simp only [s₁, ScanState.numState, JsonText.next, hspec, ScanState.curKey,
          curKey_append hlen, List.drop_append_of_le_length hlen]
      have hsize : s₁.numState.size = s.scratch.length + 1 := by
        rw [size_numState (s := s₁) hkey]
        simp [s₁]
      dsimp only
      apply Scan.yields_bind
      unfold scratchAppend
      by_cases hroom : cfg.scratchMaxBytes < s.scratch.length + [c].length
      · rw [if_pos hroom]
        refine Scan.yields_fail (by decide) (machine_exceeds hnext ?_)
        rintro ⟨-, hwithin⟩
        rw [hsize] at hwithin
        exact absurd hroom (Nat.not_lt.mpr hwithin)
      · rw [if_neg hroom]
        have hwithin : s₁.numState.Within cfg.limits :=
          ⟨h.within.1, hsize ▸ Nat.not_lt.mp hroom⟩
        apply Scan.yields_pure
        have hcont : Continues cfg s.numState (c :: rest) s₁.numState rest [] := .step hnext hwithin
        refine (ih (s := s₁) ⟨h.err, h.phase, hkey, hwithin⟩).imp ?_ hcont.refused
        rintro ⟨s', rest', finished⟩ g evs ⟨hg, hevs, habs, hstack, hcont', hle, hend⟩
        exact ⟨hg, hevs, habs, hstack, hcont.trans_silent hcont', Nat.le_succ_of_le hle, hend⟩

end

/-! ## Literals -/

/-- The value of a literal; `none` for null. -/
def LitKind.value : LitKind → Option Bool
  | .litTrue => some true
  | .litFalse => some false
  | .litNull => none

/-- Where `scan_literal` leaves the scanner and the machine. -/
def LitEnd (cfg : Kconfig) (s : ScanState) (m : State) (input : Bytes) :
    ScanState × Bytes × Bool → Gathering → List Event → Prop
  | (s', rest, finished), g, evs =>
    g = none ∧ evs = [] ∧ (∃ n, s' = { s with litMatched := n }) ∧
      if finished then rest.length < input.length ∧
        Continues cfg m input (.after s.objStack) rest [litEvent s.curKey s.litKind.value]
      else rest = [] ∧ ∃ c l, s'.litKind.text.drop s'.litMatched = c :: l ∧
        Continues cfg m input (.inLit s.objStack s.curKey s.litKind.value c l) [] []

/-- A literal, from any point to the end of the chunk or of the literal. -/
theorem scanLiteral_simulates {cfg : Kconfig} {s : ScanState} {c : UInt8} {l : Bytes}
    (htext : s.litKind.text.drop s.litMatched = c :: l)
    (hwithin : (State.inLit s.objStack s.curKey s.litKind.value c l).Within cfg.limits)
    (input : Bytes) :
    (scanLiteral s input).Yields none
      (LitEnd cfg s (.inLit s.objStack s.curKey s.litKind.value c l) input)
      (cfg.machine (.inLit s.objStack s.curKey s.litKind.value c l) input = none) := by
  induction input generalizing s c l with
  | nil => exact Scan.yields_pure ⟨rfl, rfl, ⟨s.litMatched, rfl⟩, rfl, c, l, htext, .refl _ _⟩
  | cons b rest ih =>
    have hget : s.litKind.text[s.litMatched]? = some c := by
      rw [← List.head?_drop, htext, List.head?_cons]
    have htail : s.litKind.text.drop (s.litMatched + 1) = l := by
      rw [← List.tail_drop, htext, List.tail_cons]
    rw [scanLiteral, hget]
    by_cases hb : b = c
    · subst hb
      rw [if_neg (not_not_intro rfl)]
      have hlen : s.litMatched + 1 = s.litKind.text.length ↔ l = [] := by
        have hlt : s.litMatched < s.litKind.text.length := (List.getElem?_eq_some_iff.mp hget).1
        rw [← htail, List.drop_eq_nil_iff]
        omega
      dsimp only
      cases l with
      | nil =>
        rw [if_pos (hlen.mpr rfl)]
        exact Scan.yields_pure ⟨rfl, rfl, ⟨_, rfl⟩, Nat.lt_succ_self _,
          .step (by simp [JsonText.next]) ⟨hwithin.1, Nat.zero_le _⟩⟩
      | cons c' l =>
        rw [if_neg (fun h => List.cons_ne_nil _ _ (hlen.mp h))]
        have hcont : Continues cfg (.inLit s.objStack s.curKey s.litKind.value b (c' :: l)) (b :: rest)
            (.inLit s.objStack s.curKey s.litKind.value c' l) rest [] :=
          .step (by simp [JsonText.next]) hwithin
        refine (ih (s := { s with litMatched := s.litMatched + 1 }) htail hwithin).imp ?_
          hcont.refused
        rintro ⟨s', rest', finished⟩ g evs ⟨hg, hevs, ⟨n, rfl⟩, hend⟩
        refine ⟨hg, hevs, ⟨n, rfl⟩, ?_⟩
        cases finished with
        | true =>
          exact ⟨Nat.lt_succ_of_lt hend.1, hcont.trans_silent hend.2⟩
        | false =>
          obtain ⟨hrest, c'', l', htext', hend⟩ := hend
          exact ⟨hrest, c'', l', htext', hcont.trans_silent hend⟩
    · rw [if_pos (fun h => hb (Option.some.inj h).symm)]
      refine Scan.yields_fail (by decide) (machine_refuses ?_)
      simp [JsonText.next, hb]

/-! ## Scan states and machine states -/

/-- The machine state a scan state stands for. -/
inductive Shape : ScanState → Gathering → State → Prop
  | root {s : ScanState} (hphase : s.phase = .root) (hstack : s.objStack = []) : Shape s none .root
  | after {s : ScanState} (hphase : s.phase = s.afterValuePhase) : Shape s none (.after s.objStack)
  | objBody {s : ScanState} {st : List Bool} (hphase : s.phase = .objKeyOrClose)
      (hstack : s.objStack = false :: st) : Shape s none (.objBody st)
  | member {s : ScanState} {st : List Bool} (hphase : s.phase = .objKeyOnly)
      (hstack : s.objStack = false :: st) : Shape s none (.member st)
  | colon {s : ScanState} {st : List Bool} (hphase : s.phase = .objColon)
      (hstack : s.objStack = false :: st) (hkey : s.keyLen = s.scratch.length) :
      Shape s none (.colon st s.scratch)
  | memberValue {s : ScanState} {st : List Bool} (hphase : s.phase = .objValue)
      (hstack : s.objStack = false :: st) (hkey : s.keyLen = s.scratch.length) :
      Shape s none (.memberValue st s.scratch)
  | arrBody {s : ScanState} {st : List Bool} (hphase : s.phase = .arrElemOrClose)
      (hstack : s.objStack = true :: st) : Shape s none (.arrBody st)
  | element {s : ScanState} {st : List Bool} (hphase : s.phase = .arrElemOnly)
      (hstack : s.objStack = true :: st) : Shape s none (.element st)
  | str {s : ScanState} {g : Gathering} {isKey : Bool} {st : List Bool} {key w : Bytes}
      (h : StrAbs isKey st key s g w) (hesc : s.EscOk) : Shape s g (strState isKey st key s.esc w)
  | num {s : ScanState} (hphase : s.phase = .valNum) (hkey : s.keyLen ≤ s.scratch.length) :
      Shape s none s.numState
  | lit {s : ScanState} {c : UInt8} {l : Bytes} (hphase : s.phase = .valLit)
      (htext : s.litKind.text.drop s.litMatched = c :: l) :
      Shape s none (.inLit s.objStack s.curKey s.litKind.value c l)

/-- The machine state a scan state without an error stands for, within the limits. -/
structure Abs (cfg : Kconfig) (s : ScanState) (g : Gathering) (m : State) : Prop where
  err : s.err = .ok
  within : m.Within cfg.limits
  shape : Shape s g m

/-- One more iteration is left when the state is inside a number. -/
def ScanState.busy (s : ScanState) : Nat :=
  if s.phase = .valNum then 1 else 0

theorem ScanState.busy_le (s : ScanState) : s.busy ≤ 1 := by
  unfold busy
  split <;> omega

theorem ScanState.busy_eq_zero {s : ScanState} (h : s.phase ≠ .valNum) : s.busy = 0 :=
  if_neg h

/-- An iteration of the loop takes the scanner and the machine on, and gets closer to the end. -/
def Simulates (cfg : Kconfig) (bound : Nat) (m : State) (input : Bytes) (g : Gathering)
    (x : Scan (ScanState × Bytes)) : Prop :=
  x.Yields g (fun p g' evs => (∃ M, Abs cfg p.1 g' M ∧ Continues cfg m input M p.2 evs) ∧
    2 * p.2.length + p.1.busy < bound) (cfg.machine m input = none)

section

variable {cfg : Kconfig} {s : ScanState} {g : Gathering} {m M : State} {input input' : Bytes}
  {bound : Nat} {x : Scan (ScanState × Bytes)}

/-- The machine may silently go on before the scanner does. -/
theorem Simulates.of_continues (h : Simulates cfg bound M input' g x)
    (hcont : Continues cfg m input M input' []) : Simulates cfg bound m input g x := by
  refine h.imp ?_ hcont.refused
  rintro p g' evs ⟨⟨M', habs, hcont'⟩, hlt⟩
  exact ⟨⟨M', habs, hcont.trans_silent hcont'⟩, hlt⟩

/-- White space does not change the machine's state. -/
theorem Continues.skipWs (hm : m.Within cfg.limits)
    (hws : ∀ b, isWs b = true → JsonText.next m b = some (m, [])) (input : Bytes) :
    Continues cfg m input m (skipWs input) [] := by
  induction input with
  | nil => exact .refl _ _
  | cons b r ih =>
    cases hb : isWs b with
    | true =>
      have hskip : SerializeJson.skipWs (b :: r) = SerializeJson.skipWs r := by
        simp [SerializeJson.skipWs, hb]
      rw [hskip]
      exact (Continues.step (hws b hb) hm).trans_silent ih
    | false =>
      have hskip : SerializeJson.skipWs (b :: r) = b :: r := by simp [SerializeJson.skipWs, hb]
      rw [hskip]
      exact .refl _ _

theorem skipWs_cons {c : UInt8} {rest : Bytes} (h : skipWs input = c :: rest) :
    isWs c = false ∧ rest.length < input.length := by
  constructor
  · have hhead := List.head?_dropWhile_not isWs input
    unfold skipWs at h
    rw [h] at hhead
    simpa using hhead
  · have hle := (List.dropWhile_sublist isWs (l := input)).length_le
    unfold skipWs at h
    rw [h, List.length_cons] at hle
    omega

/-- A state that skips white space, then looks at a byte. -/
theorem simulates_skipWs (habs : Abs cfg s g m) (hphase : s.phase ≠ .valNum)
    (hws : ∀ b, isWs b = true → JsonText.next m b = some (m, [])) (hinput : input ≠ [])
    {f : UInt8 → Bytes → Scan (ScanState × Bytes)}
    (hf : ∀ c rest, isWs c = false → rest.length < input.length →
      Simulates cfg (2 * rest.length + 2) m (c :: rest) g (f c rest)) :
    Simulates cfg (2 * input.length + s.busy) m input g
      (match skipWs input with
      | [] => pure (s, [])
      | c :: rest => f c rest) := by
  have hcont := Continues.skipWs habs.within hws input
  have hpos : 0 < input.length := List.length_pos_iff.mpr hinput
  rw [ScanState.busy_eq_zero hphase]
  cases hskip : skipWs input with
  | nil =>
    rw [hskip] at hcont
    refine Scan.yields_pure ⟨⟨m, habs, hcont⟩, ?_⟩
    rw [ScanState.busy_eq_zero hphase, List.length_nil]
    omega
  | cons c rest =>
    rw [hskip] at hcont
    obtain ⟨hc, hlen⟩ := skipWs_cons hskip
    refine ((hf c rest hc hlen).of_continues hcont).imp ?_ id
    rintro p g' evs ⟨h, hlt⟩
    exact ⟨h, by omega⟩

/-! ## One iteration -/

/-- A scan that consumes the byte it looks at. -/
def Consumes (cfg : Kconfig) (m : State) (c : UInt8) (rest : Bytes) (g : Gathering)
    (x : Scan ScanState) : Prop :=
  x.Yields g (fun s' g' evs => ∃ M, Abs cfg s' g' M ∧ Continues cfg m (c :: rest) M rest evs)
    (cfg.machine m (c :: rest) = none)

theorem Consumes.simulates {c : UInt8} {rest : Bytes} {y : Scan ScanState}
    (h : Consumes cfg m c rest g y) :
    Simulates cfg (2 * rest.length + 2) m (c :: rest) g (do
      let s ← y
      pure (s, rest)) := by
  apply Scan.yields_bind
  refine h.imp ?_ id
  rintro s' g' evs ⟨M, habs, hcont⟩
  apply Scan.yields_pure
  rw [List.append_nil]
  have := s'.busy_le
  exact ⟨⟨M, habs, hcont⟩, by dsimp only; omega⟩

/-- The byte is consumed without a call. -/
theorem consumes_pure {c : UInt8} {rest : Bytes} {s' : ScanState}
    (hnext : JsonText.next m c = some (M, [])) (habs : Abs cfg s' g M) :
    Consumes cfg m c rest g (pure s') :=
  Scan.yields_pure ⟨M, habs, .step hnext habs.within⟩

/-- The byte is refused. -/
theorem consumes_fail {c : UInt8} {rest : Bytes} {e : BbErr} (he : e ≠ .ok)
    (hnext : JsonText.next m c = none) : Consumes cfg m c rest g (.fail e) :=
  Scan.yields_fail he (machine_refuses hnext)

/-- The byte is consumed with one call. -/
theorem consumes_call {c : UInt8} {rest : Bytes} {s' : ScanState} {k : Call} {v : List Event}
    (hk : gatherCall g k = some (v, none)) (hnext : JsonText.next m c = some (M, v))
    (habs : Abs cfg s' none M) :
    Consumes cfg m c rest g (do
      Scan.call k
      pure s') := by
  apply Scan.yields_bind
  refine Scan.yields_call hk (Scan.yields_pure ?_)
  rw [List.append_nil]
  exact ⟨M, habs, .step hnext habs.within⟩

/-- The close of a container. -/
theorem closeContainer_consumes {c : UInt8} {rest : Bytes} {isArr : Bool} {st : List Bool}
    (herr : s.err = .ok) (hstack : s.objStack = isArr :: st) (hdepth : s.objStack.length ≤ maxDepth)
    (hnext : JsonText.next m c = some (.after st, [if isArr then .endArr else .endObj])) :
    Consumes cfg m c rest none (closeContainer s) := by
  rw [closeContainer, hstack]
  have hst : st.length ≤ maxDepth := by
    rw [hstack, List.length_cons] at hdepth
    omega
  refine consumes_call (M := .after st) (v := [if isArr then .endArr else .endObj]) ?_ hnext
    ⟨herr, ⟨hst, Nat.zero_le _⟩, ?_⟩
  · cases isArr <;> rfl
  · exact Shape.after (s := { s with objStack := st, phase := _ }) rfl

/-- The first byte of a number. -/
theorem scratchAppend_consumes {c : UInt8} {rest : Bytes} {p : NumPhase} (herr : s.err = .ok)
    (hkey : s.keyLen = s.scratch.length) (hdepth : s.objStack.length ≤ maxDepth)
    (hnext : JsonText.next m c = some (.inNum s.objStack s.scratch p.place [c], [])) :
    Consumes cfg m c rest none (do
      let s ← scratchAppend cfg s [c]
      pure { s with numPhase := p, phase := .valNum }) := by
  have hsize : (State.inNum s.objStack s.scratch p.place [c]).size = s.scratch.length + 1 := rfl
  unfold scratchAppend
  by_cases hroom : cfg.scratchMaxBytes < s.scratch.length + [c].length
  · rw [if_pos hroom]
    refine Scan.yields_bind (Scan.yields_fail (by decide) (machine_exceeds hnext ?_))
    rintro ⟨-, hwithin⟩
    rw [hsize] at hwithin
    exact absurd hroom (Nat.not_lt.mpr hwithin)
  · rw [if_neg hroom]
    apply Scan.yields_bind
    apply Scan.yields_pure
    have hnum : (({ s with scratch := s.scratch ++ [c], numPhase := p, phase := .valNum } :
        ScanState)).numState = .inNum s.objStack s.scratch p.place [c] := by
      simp [ScanState.numState, ScanState.curKey, hkey]
    have hwithin : (State.inNum s.objStack s.scratch p.place [c]).Within cfg.limits :=
      ⟨hdepth, hsize ▸ Nat.not_lt.mp hroom⟩
    refine consumes_pure hnext ⟨herr, hwithin, ?_⟩
    rw [← hnum]
    exact .num rfl (by simp [hkey])

/-- The first byte of a value. -/
theorem dispatchValueStart_consumes {c : UInt8} {rest key : Bytes} {keyed : Bool}
    (herr : s.err = .ok) (hkeyed : keyed = true → s.scratch = key ∧ s.keyLen = key.length)
    (hroot : keyed = false → key = []) (hdepth : s.objStack.length ≤ maxDepth)
    (hsize : key.length ≤ cfg.scratchMaxBytes)
    (hnext : JsonText.next m c = valueNext s.objStack key c) :
    Consumes cfg m c rest none (dispatchValueStart cfg s c keyed) := by
  have hs : ∃ s₀ : ScanState, s₀ = (if keyed then s else { s with keyLen := 0, scratch := [] }) ∧
      s₀.err = .ok ∧ s₀.scratch = key ∧ s₀.keyLen = key.length ∧ s₀.objStack = s.objStack := by
    cases keyed with
    | true => exact ⟨s, rfl, herr, (hkeyed rfl).1, (hkeyed rfl).2, rfl⟩
    | false =>
      obtain rfl := hroot rfl
      exact ⟨{ s with keyLen := 0, scratch := [] }, rfl, herr, rfl, rfl, rfl⟩
  obtain ⟨s₀, hs₀, herr, hscratch, hkeyLen, hstack⟩ := hs
  have hcur : s₀.curKey = key := by
    rw [ScanState.curKey, hscratch, hkeyLen, List.take_length]
  unfold dispatchValueStart
  rw [← hs₀]
  rw [← hstack] at hnext hdepth
  clear hs₀ hkeyed hroot
  dsimp only
  have hleaf (M : State) (h : M.depth = s₀.objStack.length) (h' : M.size = key.length) :
      M.Within cfg.limits := ⟨h ▸ hdepth, h' ▸ hsize⟩
  split
  · rename_i hc
    subst hc
    refine consumes_pure (M := strState false s₀.objStack key .plain []) hnext
      ⟨herr, hleaf _ rfl rfl, ?_⟩
    exact Shape.str (s := { s₀ with escPhase := .none, phase := .valStr }) (w := [])
      ⟨herr, rfl, rfl, hcur, .inl ⟨rfl, rfl⟩⟩ trivial
  split
  · rename_i hc
    subst hc
    split
    · rename_i hfull
      refine Scan.yields_fail (by decide) (machine_exceeds hnext ?_)
      exact fun hw => absurd hw.1 (Nat.not_le.mpr (Nat.lt_succ_of_le hfull))
    · rename_i hfull
      rw [hcur]
      refine consumes_call (M := .objBody s₀.objStack) rfl hnext
        ⟨herr, ⟨Nat.not_le.mp hfull, Nat.zero_le _⟩, ?_⟩
      exact .objBody rfl rfl
  split
  · rename_i hc
    subst hc
    split
    · rename_i hfull
      refine Scan.yields_fail (by decide) (machine_exceeds hnext ?_)
      exact fun hw => absurd hw.1 (Nat.not_le.mpr (Nat.lt_succ_of_le hfull))
    · rename_i hfull
      rw [hcur]
      refine consumes_call (M := .arrBody s₀.objStack) rfl hnext
        ⟨herr, ⟨Nat.not_le.mp hfull, Nat.zero_le _⟩, ?_⟩
      exact .arrBody rfl rfl
  split
  · rename_i hc
    subst hc
    refine scratchAppend_consumes herr (by rw [hkeyLen, hscratch]) hdepth ?_
    rw [hnext, hscratch]
    rfl
  split
  · rename_i h34 h123 h91 h45 hdigit
    refine scratchAppend_consumes herr (by rw [hkeyLen, hscratch]) hdepth ?_
    rw [hnext, hscratch, valueNext, JsonText.numFirst, if_neg h45,
      if_pos ((isDigit_iff c).mp hdigit)]
    rfl
  split
  · rename_i hc
    subst hc
    refine consumes_pure hnext ⟨herr, hleaf _ rfl rfl, ?_⟩
    rw [← hcur]
    exact Shape.lit (s := { s₀ with litKind := .litTrue, litMatched := 1, phase := .valLit }) rfl rfl
  split
  · rename_i hc
    subst hc
    refine consumes_pure hnext ⟨herr, hleaf _ rfl rfl, ?_⟩
    rw [← hcur]
    exact Shape.lit (s := { s₀ with litKind := .litFalse, litMatched := 1, phase := .valLit }) rfl rfl
  split
  · rename_i hc
    subst hc
    refine consumes_pure hnext ⟨herr, hleaf _ rfl rfl, ?_⟩
    rw [← hcur]
    exact Shape.lit (s := { s₀ with litKind := .litNull, litMatched := 1, phase := .valLit }) rfl rfl
  · rename_i h34 h123 h91 h45 hdigit h116 h102 h110
    refine consumes_fail (by decide) ?_
    have hfirst : JsonText.numFirst c = none := by
      rw [JsonText.numFirst, if_neg h45, if_neg (fun h => hdigit ((isDigit_iff c).mpr h))]
    rw [hnext, valueNext, hfirst]
    simp [h34, h123, h91, h116, h102, h110]

/-- A byte that is not white space, in a state that skips white space. -/
theorem orWs_of_not_ws {c : UInt8} (hc : isWs c = false) (m : State) (x : JsonText.Step) :
    orWs m c x = x := by
  rw [orWs, ← isWs_eq, hc]
  rfl

theorem orWs_of_ws {c : UInt8} (hc : isWs c = true) (m : State) (x : JsonText.Step) :
    orWs m c x = some (m, []) := by
  rw [orWs, ← isWs_eq, hc]
  rfl

/-- A byte that is consumed, or refused, without a call. -/
theorem simulates_pure {c : UInt8} {rest : Bytes} {s' : ScanState}
    (hnext : JsonText.next m c = some (M, [])) (habs : Abs cfg s' g M) :
    Simulates cfg (2 * rest.length + 2) m (c :: rest) g (pure (s', rest)) :=
  Consumes.simulates (y := pure s') (consumes_pure hnext habs)

theorem simulates_fail {c : UInt8} {rest : Bytes} {e : BbErr} (he : e ≠ .ok)
    (hnext : JsonText.next m c = none) :
    Simulates cfg bound m (c :: rest) g (.fail e) :=
  Scan.yields_fail he (machine_refuses hnext)

/-- The opening quote of a key. -/
theorem keyStart_abs {st : List Bool} (herr : s.err = .ok) (hstack : s.objStack = false :: st)
    (hdepth : st.length + 1 ≤ maxDepth) :
    Abs cfg { s with scratch := [], keyLen := 0, escPhase := .none, phase := .keyStr } none
      (.inKey st .plain []) := by
  have hstr : StrAbs true st []
      { s with scratch := [], keyLen := 0, escPhase := .none, phase := .keyStr } none [] :=
    ⟨herr, rfl, hstack, rfl, rfl⟩
  exact ⟨herr, ⟨hdepth, Nat.zero_le _⟩, .str hstr trivial⟩

theorem afterValuePhase_ne (s : ScanState) : s.afterValuePhase ≠ .valNum := by
  unfold ScanState.afterValuePhase
  split <;> simp

/-- The byte after a number completes it, and is looked at again. -/
theorem Continues.number_end {st : List Bool} {key text : Bytes} {place : JsonText.NumPlace}
    {c : UInt8} {r : Bytes} (hstep : JsonText.numStep place c = none) (hends : place.ends = true) :
    Continues cfg (.inNum st key place text) (c :: r) (.after st) (c :: r) [.num key text] := by
  have hnext : JsonText.next (.inNum st key place text) c =
      (afterNext st c).map fun p => (p.1, .num key text :: p.2) := by
    simp [JsonText.next, hstep, hends]
  have hafter : JsonText.next (.after st) c = afterNext st c := rfl
  simp only [Continues, Kconfig.machine, JsonText.run, JsonText.nextWithin, hnext, hafter]
  cases afterNext st c with
  | none => rfl
  | some p =>
    by_cases hp : p.1.Within cfg.limits <;> simp [Option.filter, hp, Function.comp_def]

/-- The call for a literal. -/
theorem emitLiteral_yields (s : ScanState) {P : Unit → Gathering → List Event → Prop} {F : Prop}
    (h : P () none [litEvent s.curKey s.litKind.value]) : (emitLiteral s).Yields none P F := by
  unfold emitLiteral
  cases hkind : s.litKind <;> rw [hkind] at h <;> exact Scan.yields_call rfl h

/-- One iteration of the loop, by what the scan state stands for. -/
theorem driveStep_simulates (habs : Abs cfg s g m) (hinput : input ≠ []) :
    Simulates cfg (2 * input.length + s.busy) m input g (driveStep cfg s input) := by
  obtain ⟨herr, hwithin, hshape⟩ := id habs
  cases hshape with
  | root hphase hstack =>
    unfold driveStep
    simp only [hphase]
    refine simulates_skipWs habs (by simp [hphase]) (fun b hb => orWs_of_ws hb _ _) hinput ?_
    intro c rest hc hlen
    apply Consumes.simulates
    refine dispatchValueStart_consumes herr (by simp) (fun _ => rfl) (by simp [hstack])
      (Nat.zero_le _) ?_
    rw [JsonText.next, orWs_of_not_ws hc, hstack]
  | after hphase =>
    cases hstack : s.objStack with
    | nil =>
      rw [hstack] at habs
      have hafter : s.phase = .afterRoot := by rw [hphase, ScanState.afterValuePhase, hstack]
      unfold driveStep
      simp only [hafter]
      refine simulates_skipWs habs (by simp [hafter]) (fun b hb => orWs_of_ws hb _ _) hinput ?_
      intro c rest hc hlen
      refine simulates_fail (by decide) ?_
      rw [JsonText.next, afterNext, orWs_of_not_ws hc]
    | cons isArr st =>
      rw [hstack] at habs
      have hdepth : s.objStack.length ≤ maxDepth := hwithin.1
      have hdepth' : st.length + 1 ≤ maxDepth := by rwa [hstack, List.length_cons] at hdepth
      cases isArr with
      | true =>
        have hafter : s.phase = .arrAfterValue := by rw [hphase, ScanState.afterValuePhase, hstack]
        unfold driveStep
        simp only [hafter]
        refine simulates_skipWs habs (by simp [hafter]) (fun b hb => orWs_of_ws hb _ _) hinput ?_
        intro c rest hc hlen
        split
        · rename_i hcomma
          subst hcomma
          exact simulates_pure (M := .element st) rfl ⟨herr, ⟨hdepth', Nat.zero_le _⟩, .element rfl hstack⟩
        split
        · rename_i hclose
          subst hclose
          exact (closeContainer_consumes herr hstack hdepth rfl).simulates
        · rename_i hcomma hclose
          refine simulates_fail (by decide) ?_
          rw [JsonText.next, afterNext, orWs_of_not_ws hc]
          simp [hcomma, hclose]
      | false =>
        have hafter : s.phase = .objAfterValue := by rw [hphase, ScanState.afterValuePhase, hstack]
        unfold driveStep
        simp only [hafter]
        refine simulates_skipWs habs (by simp [hafter]) (fun b hb => orWs_of_ws hb _ _) hinput ?_
        intro c rest hc hlen
        split
        · rename_i hcomma
          subst hcomma
          exact simulates_pure (M := .member st) rfl ⟨herr, ⟨hdepth', Nat.zero_le _⟩, .member rfl hstack⟩
        split
        · rename_i hclose
          subst hclose
          exact (closeContainer_consumes herr hstack hdepth rfl).simulates
        · rename_i hcomma hclose
          refine simulates_fail (by decide) ?_
          rw [JsonText.next, afterNext, orWs_of_not_ws hc]
          simp [hcomma, hclose]
  | @objBody st hphase hstack =>
    have hdepth : s.objStack.length ≤ maxDepth := by
      rw [hstack]
      exact hwithin.1
    unfold driveStep
    simp only [hphase]
    refine simulates_skipWs habs (by simp [hphase]) (fun b hb => orWs_of_ws hb _ _) hinput ?_
    intro c rest hc hlen
    by_cases hclose : c = 125
    · subst hclose
      exact (closeContainer_consumes herr hstack hdepth rfl).simulates
    rw [if_neg (fun h => hclose h.1)]
    by_cases hquote : c = 34
    · subst hquote
      exact simulates_pure (M := .inKey st .plain []) rfl (keyStart_abs herr hstack hwithin.1)
    · rw [if_pos hquote]
      refine simulates_fail (by decide) ?_
      rw [JsonText.next, orWs_of_not_ws hc, if_neg hclose, if_neg hquote]
  | @member st hphase hstack =>
    unfold driveStep
    simp only [hphase]
    refine simulates_skipWs habs (by simp [hphase]) (fun b hb => orWs_of_ws hb _ _) hinput ?_
    intro c rest hc hlen
    simp only [reduceCtorEq, and_false, if_false]
    by_cases hquote : c = 34
    · subst hquote
      exact simulates_pure (M := .inKey st .plain []) rfl (keyStart_abs herr hstack hwithin.1)
    · rw [if_pos hquote]
      refine simulates_fail (by decide) ?_
      rw [JsonText.next, orWs_of_not_ws hc, if_neg hquote]
  | @colon st hphase hstack hkey =>
    unfold driveStep
    simp only [hphase]
    refine simulates_skipWs habs (by simp [hphase]) (fun b hb => orWs_of_ws hb _ _) hinput ?_
    intro c rest hc hlen
    by_cases hcolon : c = 58
    · subst hcolon
      exact simulates_pure (M := .memberValue st s.scratch) rfl
        ⟨herr, hwithin, .memberValue (s := { s with phase := .objValue }) rfl hstack hkey⟩
    · rw [if_pos hcolon]
      refine simulates_fail (by decide) ?_
      rw [JsonText.next, orWs_of_not_ws hc, if_neg hcolon]
  | @memberValue st hphase hstack hkey =>
    unfold driveStep
    simp only [hphase]
    refine simulates_skipWs habs (by simp [hphase]) (fun b hb => orWs_of_ws hb _ _) hinput ?_
    intro c rest hc hlen
    apply Consumes.simulates
    refine dispatchValueStart_consumes herr
      (show _ → s.scratch = s.scratch ∧ _ from fun _ => ⟨rfl, hkey⟩) (by simp) ?_ hwithin.2 ?_
    · rw [hstack]
      exact hwithin.1
    · rw [JsonText.next, orWs_of_not_ws hc, hstack]
  | @arrBody st hphase hstack =>
    have hdepth : s.objStack.length ≤ maxDepth := by
      rw [hstack]
      exact hwithin.1
    unfold driveStep
    simp only [hphase]
    refine simulates_skipWs habs (by simp [hphase]) (fun b hb => orWs_of_ws hb _ _) hinput ?_
    intro c rest hc hlen
    by_cases hclose : c = 93
    · subst hclose
      exact (closeContainer_consumes herr hstack hdepth rfl).simulates
    rw [if_neg (fun h => hclose h.1)]
    apply Consumes.simulates
    refine dispatchValueStart_consumes herr (by simp) (fun _ => rfl) hdepth (Nat.zero_le _) ?_
    rw [JsonText.next, orWs_of_not_ws hc, if_neg hclose, hstack]
  | @element st hphase hstack =>
    have hdepth : s.objStack.length ≤ maxDepth := by
      rw [hstack]
      exact hwithin.1
    unfold driveStep
    simp only [hphase]
    refine simulates_skipWs habs (by simp [hphase]) (fun b hb => orWs_of_ws hb _ _) hinput ?_
    intro c rest hc hlen
    simp only [reduceCtorEq, and_false, if_false]
    apply Consumes.simulates
    refine dispatchValueStart_consumes herr (by simp) (fun _ => rfl) hdepth (Nat.zero_le _) ?_
    rw [JsonText.next, orWs_of_not_ws hc, hstack]
  | @str _ isKey st key w h hesc =>
    have hfits : StrFits cfg isKey st key w := by cases isKey <;> exact hwithin
    have hscan := scanString_simulates h hesc hfits
      (show ([] : Bytes) ≠ [] → _ from fun hne => absurd rfl hne)
      (by simp) input
    unfold driveStep
    cases isKey with
    | true =>
      have hphase : s.phase = .keyStr := h.phase
      simp only [hphase]
      apply Scan.yields_bind
      refine hscan.imp ?_ id
      rintro ⟨s', rest, closed⟩ g' evs hend
      cases closed with
      | true =>
        obtain ⟨hlen, rfl, herr', hstack, w', rfl, hscratch, hfits', hcont⟩ := hend
        obtain rfl := hscratch rfl
        refine Scan.yields_pure ⟨⟨.colon st s'.scratch, ⟨herr', hfits'.closed, ?_⟩, hcont⟩, ?_⟩
        · exact Shape.colon (s := { s' with keyLen := _, phase := _ }) rfl hstack rfl
        · rw [ScanState.busy_eq_zero (by simp), ScanState.busy_eq_zero (by simp [hphase])]
          exact Nat.mul_lt_mul_of_pos_left hlen (by decide)
      | false =>
        obtain ⟨rfl, rfl, w', habs', hesc', hfits', hcont⟩ := hend
        refine Scan.yields_pure ⟨⟨_, ⟨habs'.err, hfits'.within _, .str habs' hesc'⟩, hcont⟩, ?_⟩
        have hpos := List.length_pos_iff.mpr hinput
        rw [ScanState.busy_eq_zero (by simp [habs'.phase]), ScanState.busy_eq_zero (by simp [hphase])]
        simp only [List.length_nil]
        omega
    | false =>
      have hphase : s.phase = .valStr := h.phase
      simp only [hphase]
      apply Scan.yields_bind
      refine hscan.imp ?_ id
      rintro ⟨s', rest, closed⟩ g' evs hend
      cases closed with
      | true =>
        obtain ⟨hlen, rfl, herr', hstack, w', rfl, -, hfits', hcont⟩ := hend
        have hstack' : s'.objStack = st := hstack
        subst hstack'
        refine Scan.yields_pure ⟨⟨.after s'.objStack, ⟨herr', hfits'.closed, ?_⟩, ?_⟩, ?_⟩
        · exact Shape.after (s := { s' with phase := s'.afterValuePhase }) rfl
        · rw [List.append_nil]
          exact hcont
        · rw [ScanState.busy_eq_zero (afterValuePhase_ne s'), ScanState.busy_eq_zero (by simp [hphase])]
          exact Nat.mul_lt_mul_of_pos_left hlen (by decide)
      | false =>
        obtain ⟨rfl, rfl, w', habs', hesc', hfits', hcont⟩ := hend
        refine Scan.yields_pure ⟨⟨_, ⟨habs'.err, hfits'.within _, .str habs' hesc'⟩, hcont⟩, ?_⟩
        have hpos := List.length_pos_iff.mpr hinput
        rw [ScanState.busy_eq_zero (by simp [habs'.phase]), ScanState.busy_eq_zero (by simp [hphase])]
        simp only [List.length_nil]
        omega
  | num hphase hkey =>
    unfold driveStep
    simp only [hphase]
    apply Scan.yields_bind
    refine (scanNumber_simulates ⟨herr, hphase, hkey, hwithin⟩ input).imp ?_ id
    rintro ⟨s', rest, finished⟩ g' evs ⟨rfl, rfl, habs', hstack, hcont, hle, hend⟩
    have hbusy : s.busy = 1 := if_pos hphase
    cases finished with
    | true =>
      obtain ⟨hterminal, c, r, rfl, hstep⟩ := hend
      have hnum : Continues cfg s'.numState (c :: r) (.after s'.objStack) (c :: r)
          [.num s'.curKey (s'.scratch.drop s'.keyLen)] := by
        rw [isTerminal_eq] at hterminal
        exact Continues.number_end hstep hterminal
      simp only [if_true]
      unfold finalizeNumber
      refine Scan.yields_bind (Scan.yields_bind (Scan.yields_call rfl (Scan.yields_pure
        (Scan.yields_pure ⟨⟨.after s'.objStack, ⟨habs'.err, ⟨habs'.within.1, Nat.zero_le _⟩, ?_⟩, ?_⟩,
          ?_⟩))))
      · exact Shape.after (s := { s' with phase := s'.afterValuePhase }) rfl
      · exact hcont.trans_silent hnum
      · rw [ScanState.busy_eq_zero (afterValuePhase_ne s'), hbusy]
        dsimp only
        omega
    | false =>
      have hrest : rest = [] := hend
      subst hrest
      refine Scan.yields_pure ⟨⟨_, ⟨habs'.err, habs'.within, .num habs'.phase habs'.keyLen_le⟩, hcont⟩,
        ?_⟩
      have hpos := List.length_pos_iff.mpr hinput
      have := s'.busy_le
      simp only [List.length_nil]
      omega
  | @lit c l hphase htext =>
    unfold driveStep
    simp only [hphase]
    apply Scan.yields_bind
    refine (scanLiteral_simulates htext hwithin input).imp ?_ id
    rintro ⟨s', rest, finished⟩ g' evs ⟨rfl, rfl, ⟨n, rfl⟩, hend⟩
    have hbusy : s.busy = 0 := ScanState.busy_eq_zero (by simp [hphase])
    cases finished with
    | true =>
      obtain ⟨hlen, hcont⟩ := hend
      refine Scan.yields_bind (emitLiteral_yields _ (Scan.yields_pure ⟨⟨.after s.objStack, ⟨herr,
        ⟨hwithin.1, Nat.zero_le _⟩, ?_⟩, ?_⟩, ?_⟩))
      · exact Shape.after (s := { s with litMatched := n, phase := _ }) rfl
      · exact hcont
      · rw [ScanState.busy_eq_zero (afterValuePhase_ne s), hbusy]
        exact Nat.mul_lt_mul_of_pos_left hlen (by decide)
    | false =>
      obtain ⟨rfl, c', l', htext', hcont⟩ := hend
      refine Scan.yields_pure ⟨⟨.inLit s.objStack s.curKey s.litKind.value c' l', ⟨herr, hwithin,
        .lit (s := { s with litMatched := n }) hphase htext'⟩, hcont⟩, ?_⟩
      have hpos := List.length_pos_iff.mpr hinput
      rw [ScanState.busy_eq_zero (by simp [hphase]), hbusy]
      simp only [List.length_nil]
      omega

/-! ## Chunks and the end of the scan -/

/-- A chunk takes the scanner and the machine on. -/
def Drives (cfg : Kconfig) (m : State) (input : Bytes) (g : Gathering) (x : Scan ScanState) : Prop :=
  x.Yields g (fun s' g' evs => ∃ M, Abs cfg s' g' M ∧ Continues cfg m input M [] evs)
    (cfg.machine m input = none)

/-- The loop, with enough iterations left; the induction is on the bound. -/
theorem driveLoop_simulates {fuel : Nat} (habs : Abs cfg s g m)
    (hfuel : 2 * input.length + s.busy ≤ fuel) : Drives cfg m input g (driveLoop cfg fuel s input) := by
  induction fuel generalizing s g m input with
  | zero =>
    have hnil : input = [] := List.length_eq_zero_iff.mp (by omega)
    subst hnil
    exact Scan.yields_pure ⟨m, habs, .refl _ _⟩
  | succ fuel ih =>
    cases input with
    | nil => exact Scan.yields_pure ⟨m, habs, .refl _ _⟩
    | cons c input =>
      unfold driveLoop
      apply Scan.yields_bind
      refine (driveStep_simulates habs (by simp)).imp ?_ id
      rintro ⟨s', rest⟩ g' evs ⟨⟨M, habs', hcont⟩, hlt⟩
      refine (ih habs' (by dsimp only at hlt ⊢; omega)).imp ?_ hcont.refused
      rintro s'' g'' evs' ⟨M', habs'', hcont'⟩
      exact ⟨M', habs'', hcont.trans hcont'⟩

/-- A whole chunk. -/
theorem drive_simulates (habs : Abs cfg s g m) (chunk : Bytes) :
    Drives cfg m chunk g (drive cfg s chunk) := by
  have := s.busy_le
  exact driveLoop_simulates habs (by omega)

/-- The end of the scan is the end of the text. -/
theorem endScan_simulates (habs : Abs cfg s g m) :
    (endScan s).Yields g (fun _ g' evs => g' = none ∧ JsonText.finish m = some evs)
      (JsonText.finish m = none) := by
  have hother (hphase : s.phase ≠ .valNum ∧ s.phase ≠ .afterRoot) (hm : JsonText.finish m = none) :
      (endScan s).Yields g (fun _ g' evs => g' = none ∧ JsonText.finish m = some evs)
        (JsonText.finish m = none) := by
    unfold endScan endNumber
    rw [if_neg hphase.1]
    refine Scan.yields_bind (Scan.yields_pure ?_)
    rw [if_pos hphase.2]
    exact Scan.yields_fail (by decide) hm
  cases habs.shape with
  | root hphase => exact hother (by simp [hphase]) rfl
  | after hphase =>
    cases hstack : s.objStack with
    | cons isArr st =>
      rw [hstack] at hother
      apply hother _ rfl
      rw [hphase, ScanState.afterValuePhase, hstack]
      cases isArr <;> simp
    | nil =>
      have hafter : s.phase = .afterRoot := by rw [hphase, ScanState.afterValuePhase, hstack]
      unfold endScan endNumber
      rw [if_neg (by simp [hafter])]
      refine Scan.yields_bind (Scan.yields_pure ?_)
      rw [if_neg (by simp [hafter])]
      exact Scan.yields_pure ⟨rfl, rfl⟩
  | num hphase hkey =>
    unfold endScan endNumber
    rw [if_pos hphase]
    cases hterminal : s.numPhase.isTerminal with
    | false =>
      refine Scan.yields_bind (Scan.yields_fail (by decide) ?_)
      rw [isTerminal_eq] at hterminal
      cases hstack : s.objStack <;> simp [ScanState.numState, JsonText.finish, hstack, hterminal]
    | true =>
      rw [isTerminal_eq] at hterminal
      unfold finalizeNumber
      refine Scan.yields_bind (Scan.yields_bind (Scan.yields_call rfl (Scan.yields_pure ?_)))
      cases hstack : s.objStack with
      | nil =>
        rw [if_neg (by simp [ScanState.afterValuePhase, hstack])]
        refine Scan.yields_pure ⟨rfl, ?_⟩
        simp [ScanState.numState, JsonText.finish, hstack, hterminal]
      | cons isArr st =>
        rw [if_pos (by cases isArr <;> simp [ScanState.afterValuePhase, hstack])]
        exact Scan.yields_fail (by decide) (by simp [ScanState.numState, JsonText.finish, hstack])
  | objBody hphase => exact hother (by simp [hphase]) rfl
  | member hphase => exact hother (by simp [hphase]) rfl
  | colon hphase => exact hother (by simp [hphase]) rfl
  | memberValue hphase => exact hother (by simp [hphase]) rfl
  | arrBody hphase => exact hother (by simp [hphase]) rfl
  | element hphase => exact hother (by simp [hphase]) rfl
  | @str _ isKey st key w h =>
    apply hother
    · cases isKey <;> simp [h.phase]
    · cases isKey <;> rfl
  | lit hphase => exact hother (by simp [hphase]) rfl

end

end SerializeJson
end Breadboard
