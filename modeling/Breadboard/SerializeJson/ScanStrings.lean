import Breadboard.Foundations.JsonMachine
import Breadboard.SerializeJson.ScanTokens

/-!
# bb_serialize_json_scan - strings against the string machine

The chunks of a string are joined as they arrive, and every scanner function is compared
with the byte-at-a-time machine: where the scanner fails, the machine refuses the input;
where it returns, the joined calls are the machine's events and the machine stands where the
scanner stands.  This file has the comparison and its first instance, a string that may start
and stop anywhere.

Main results:

- Theorem `Scan.yields_bind`: the comparison is composed along the scanner.
- Theorem `scanString_simulates`: a key or value string, cut anywhere.
-/

namespace Breadboard
namespace SerializeJson

open Foundations
open Serialize (maxDepth)
open Foundations.JsonText (Event State Esc strStep isPlain)

/-! ## Joining the chunks of a string -/

/-- The key and the joined chunks of a string that is still open. -/
abbrev Gathering := Option (Bytes × Bytes)

/-- The events of one call, and the string left open. -/
def gatherCall : Gathering → Call → Option (List Event × Gathering)
  | none, .beginObj key => some ([.beginObj key], none)
  | none, .endObj => some ([.endObj], none)
  | none, .beginArr key => some ([.beginArr key], none)
  | none, .endArr => some ([.endArr], none)
  | none, .valueNum key num => some ([.num key num], none)
  | none, .valueBool key v => some ([.bool key v], none)
  | none, .valueNull key => some ([.null key], none)
  | none, .valueStrChunk key chunk isFinal _ =>
    if isFinal then some ([.str key chunk], none) else some ([], some (key, chunk))
  | some (k, v), .valueStrChunk key chunk isFinal _ =>
    if key = k then
      if isFinal then some ([.str k (v ++ chunk)], none) else some ([], some (k, v ++ chunk))
    else none
  | some _, _ => none

def gatherFrom : Gathering → List Call → Option (List Event × Gathering)
  | g, [] => some ([], g)
  | g, c :: cs =>
    (gatherCall g c).bind fun p => (gatherFrom p.2 cs).map fun q => (p.1 ++ q.1, q.2)

/--
The events of a call sequence, the chunks of each string joined.  There are none unless the
chunks of a string follow each other under one key and exactly the last of them is final.
-/
def gather (calls : List Call) : Option (List Event) :=
  match gatherFrom none calls with
  | some (evs, none) => some evs
  | _ => none

theorem gatherFrom_append (g : Gathering) (cs cs' : List Call) :
    gatherFrom g (cs ++ cs') =
      (gatherFrom g cs).bind fun p => (gatherFrom p.2 cs').map fun q => (p.1 ++ q.1, q.2) := by
  induction cs generalizing g with
  | nil => simp [gatherFrom]
  | cons c cs ih =>
    simp only [List.cons_append, gatherFrom]
    cases gatherCall g c with
    | none => rfl
    | some p =>
      simp only [Option.bind_some, ih]
      cases gatherFrom p.2 cs with
      | none => rfl
      | some q => simp [Function.comp_def]

/-! ## Comparing a scan -/

/--
If the scan fails then with an error code and `F`; if it returns a value then its calls, joined to `g`, leave
a string and events that satisfy `P`.
-/
def Scan.Yields {α : Type} (x : Scan α) (g : Gathering) (P : α → Gathering → List Event → Prop)
    (F : Prop) : Prop :=
  match x.result with
  | .error e => e ≠ .ok ∧ F
  | .ok a => ∃ evs g', gatherFrom g x.calls = some (evs, g') ∧ P a g' evs

namespace Scan

variable {α β : Type} {g : Gathering} {P : α → Gathering → List Event → Prop} {F : Prop}

theorem yields_pure {a : α} (h : P a g []) : (pure a : Scan α).Yields g P F :=
  ⟨[], g, rfl, h⟩

theorem yields_fail {e : BbErr} (he : e ≠ .ok) (h : F) : (fail e : Scan α).Yields g P F := ⟨he, h⟩

theorem yields_call {c : Call} {P : Unit → Gathering → List Event → Prop} {v : List Event}
    {k : Gathering} (hc : gatherCall g c = some (v, k)) (h : P () k v) :
    (call c).Yields g P F := by
  refine ⟨v, k, ?_, h⟩
  simp [call, gatherFrom, hc]

/-- A scan followed by another. -/
theorem yields_bind {x : Scan α} {f : α → Scan β} {P : β → Gathering → List Event → Prop}
    (h : x.Yields g (fun a g' evs =>
      (f a).Yields g' (fun b g'' evs' => P b g'' (evs ++ evs')) F) F) :
    (x >>= f).Yields g P F := by
  obtain ⟨calls, result⟩ := x
  cases result with
  | error e => exact h
  | ok a =>
    obtain ⟨evs, g', hgather, h⟩ := h
    have hbind : (⟨calls, .ok a⟩ : Scan α) >>= f = ⟨calls ++ (f a).calls, (f a).result⟩ := rfl
    rw [hbind]
    unfold Yields at h ⊢
    dsimp only
    cases hresult : (f a).result with
    | error e =>
      rw [hresult] at h
      exact h
    | ok b =>
      rw [hresult] at h
      obtain ⟨evs', g'', hgather', h⟩ := h
      refine ⟨evs ++ evs', g'', ?_, h⟩
      dsimp only at hgather
      simp [gatherFrom_append, hgather, hgather']

/-- A weaker comparison. -/
theorem Yields.imp {x : Scan α} {Q : α → Gathering → List Event → Prop} {G : Prop}
    (h : x.Yields g P F) (hP : ∀ a g' evs, P a g' evs → Q a g' evs) (hF : F → G) :
    x.Yields g Q G := by
  unfold Yields at h ⊢
  cases hresult : x.result with
  | error e =>
    rw [hresult] at h
    exact ⟨h.1, hF h.2⟩
  | ok a =>
    rw [hresult] at h
    obtain ⟨evs, g', hgather, h⟩ := h
    exact ⟨evs, g', hgather, hP a g' evs h⟩

end Scan

/-! ## The machine under the scanner's limits -/

/-- The limits the scanner enforces. -/
def Kconfig.limits (cfg : Kconfig) : JsonText.Limits where
  depth := maxDepth
  token := cfg.scratchMaxBytes

/-- The machine on an input. -/
def Kconfig.machine (cfg : Kconfig) (m : State) (input : Bytes) : JsonText.Step :=
  JsonText.run (JsonText.nextWithin cfg.limits) m input

/-- The machine gets from one state and input to another, with some events. -/
def Continues (cfg : Kconfig) (m : State) (input : Bytes) (m' : State) (rest : Bytes)
    (evs : List Event) : Prop :=
  cfg.machine m input = (cfg.machine m' rest).map fun q => (q.1, evs ++ q.2)

section

variable {cfg : Kconfig}

theorem Continues.refl (m : State) (input : Bytes) : Continues cfg m input m input [] := by
  simp [Continues]

theorem Continues.trans {m m' m'' : State} {input input' input'' : Bytes} {evs evs' : List Event}
    (h : Continues cfg m input m' input' evs) (h' : Continues cfg m' input' m'' input'' evs') :
    Continues cfg m input m'' input'' (evs ++ evs') := by
  unfold Continues at *
  rw [h, h']
  cases cfg.machine m'' input'' <;> simp

/-- Without events on one side. -/
theorem Continues.trans_silent {m m' m'' : State} {input input' input'' : Bytes}
    {evs : List Event} (h : Continues cfg m input m' input' [])
    (h' : Continues cfg m' input' m'' input'' evs) : Continues cfg m input m'' input'' evs :=
  h.trans h'

/-- One byte. -/
theorem Continues.step {m m' : State} {b : UInt8} {r : Bytes} {e : List Event}
    (h : JsonText.next m b = some (m', e)) (hm' : m'.Within cfg.limits) :
    Continues cfg m (b :: r) m' r e :=
  JsonText.run_cons (JsonText.nextWithin_eq_some.mpr ⟨h, hm'⟩) r

theorem Continues.refused {m m' : State} {input rest : Bytes} {evs : List Event}
    (h : Continues cfg m input m' rest evs) (h' : cfg.machine m' rest = none) :
    cfg.machine m input = none := by
  rw [h, h']
  rfl

/-- A byte the machine has no step for. -/
theorem machine_refuses {m : State} {b : UInt8} {r : Bytes} (h : JsonText.next m b = none) :
    cfg.machine m (b :: r) = none := by
  simp [Kconfig.machine, JsonText.run, JsonText.nextWithin, h]

/-- A byte after which the machine is beyond a limit. -/
theorem machine_exceeds {m m' : State} {b : UInt8} {r : Bytes} {e : List Event}
    (h : JsonText.next m b = some (m', e)) (hm' : ¬ m'.Within cfg.limits) :
    cfg.machine m (b :: r) = none := by
  simp [Kconfig.machine, JsonText.run, JsonText.nextWithin, h, hm']

end

/-! ## Strings -/

/-- The machine inside a key or a value string that has `w` so far. -/
def strState (isKey : Bool) (st : List Bool) (key : Bytes) (esc : Esc) (w : Bytes) : State :=
  if isKey then .inKey st esc w else .inStr st key esc w

/-- The machine after the closing quote. -/
def closedState (isKey : Bool) (st : List Bool) (w : Bytes) : State :=
  if isKey then .colon st w else .after st

/-- What the closing quote completes. -/
def closedEvents (isKey : Bool) (key w : Bytes) : List Event :=
  if isKey then [] else [.str key w]

theorem next_strState (isKey : Bool) (st : List Bool) (key : Bytes) (esc : Esc) (w : Bytes)
    (b : UInt8) :
    JsonText.next (strState isKey st key esc w) b =
      match strStep esc b with
      | none => none
      | some none => some (closedState isKey st w, closedEvents isKey key w)
      | some (some (esc', out)) => some (strState isKey st key esc' (w ++ out), []) := by
  cases isKey <;> rfl

/-- The string, so far, is within the limits. -/
def StrFits (cfg : Kconfig) (isKey : Bool) (st : List Bool) (key w : Bytes) : Prop :=
  (strState isKey st key .plain w).Within cfg.limits

section

variable {cfg : Kconfig} {isKey : Bool} {st : List Bool} {key w : Bytes}

theorem StrFits.within (h : StrFits cfg isKey st key w) (esc : Esc) :
    (strState isKey st key esc w).Within cfg.limits := by
  cases isKey <;> exact h

theorem StrFits.closed (h : StrFits cfg isKey st key w) :
    (closedState isKey st w).Within cfg.limits := by
  cases isKey with
  | true => exact h
  | false => exact ⟨h.1, Nat.zero_le _⟩

/-- Only a key can outgrow the scratch. -/
theorem strFits_append_iff (h : StrFits cfg isKey st key w) (data : Bytes) :
    StrFits cfg isKey st key (w ++ data) ↔
      (isKey = true → (w ++ data).length ≤ cfg.scratchMaxBytes) := by
  cases isKey with
  | true => exact ⟨fun hw _ => hw.2, fun hw => ⟨h.1, hw rfl⟩⟩
  | false => exact ⟨fun _ hkey => absurd hkey (by decide), fun _ => h⟩

/-- A byte that keeps the string open. -/
theorem Continues.inside {esc esc' : Esc} {b : UInt8} {out : Bytes}
    (hstep : strStep esc b = some (some (esc', out)))
    (hfits : StrFits cfg isKey st key (w ++ out)) (r : Bytes) :
    Continues cfg (strState isKey st key esc w) (b :: r) (strState isKey st key esc' (w ++ out)) r
      [] :=
  .step (by rw [next_strState, hstep]) (hfits.within esc')

/-- The closing quote. -/
theorem Continues.closing (hfits : StrFits cfg isKey st key w) (r : Bytes) :
    Continues cfg (strState isKey st key .plain w) (34 :: r) (closedState isKey st w) r
      (closedEvents isKey key w) :=
  .step (by rw [next_strState]; rfl) hfits.closed

theorem strStep_plain {b : UInt8} (hb : isPlain b = true) :
    strStep .plain b = some (some (.plain, [b])) := by
  have hb' := hb
  simp only [isPlain, decide_eq_true_eq] at hb'
  simp [strStep, hb, hb'.1, hb'.2.1]

theorem StrFits.of_append {data : Bytes} (h : StrFits cfg isKey st key (w ++ data)) :
    StrFits cfg isKey st key w := by
  cases isKey with
  | true => exact ⟨h.1, (List.sublist_append_left ..).length_le.trans h.2⟩
  | false => exact h

/-- A run of plain bytes that fits. -/
theorem Continues.plain_run {run : Bytes} (hplain : ∀ b ∈ run, isPlain b = true)
    (hfits : StrFits cfg isKey st key (w ++ run)) (r : Bytes) :
    Continues cfg (strState isKey st key .plain w) (run ++ r)
      (strState isKey st key .plain (w ++ run)) r [] := by
  induction run generalizing w with
  | nil => simpa using Continues.refl _ _
  | cons b run ih =>
    rw [List.forall_mem_cons] at hplain
    rw [List.append_cons] at hfits ⊢
    exact (Continues.inside (strStep_plain hplain.1) hfits.of_append (run ++ r)).trans_silent
      (ih hplain.2 hfits)

/-- A run of plain bytes that does not fit. -/
theorem machine_plain_run_exceeds {run : Bytes} (hplain : ∀ b ∈ run, isPlain b = true)
    (hw : StrFits cfg isKey st key w) (hfits : ¬ StrFits cfg isKey st key (w ++ run)) (r : Bytes) :
    cfg.machine (strState isKey st key .plain w) (run ++ r) = none := by
  induction run generalizing w with
  | nil => exact absurd (by simpa using hw) hfits
  | cons b run ih =>
    rw [List.forall_mem_cons] at hplain
    rw [List.append_cons] at hfits
    have hstep := strStep_plain hplain.1
    by_cases hb : StrFits cfg isKey st key (w ++ [b])
    · exact (Continues.inside hstep hb (run ++ r)).refused (ih hplain.2 hb hfits)
    · exact machine_exceeds (by rw [next_strState, hstep]) hb

end

/-- The scan state inside a string that has `w` so far, with the chunks joined in `g`. -/
structure StrAbs (isKey : Bool) (st : List Bool) (key : Bytes) (s : ScanState) (g : Gathering)
    (w : Bytes) : Prop where
  err : s.err = .ok
  phase : s.phase = if isKey then .keyStr else .valStr
  stack : s.objStack = if isKey then false :: st else st
  held : if isKey then g = none ∧ s.scratch = w
    else s.curKey = key ∧ (g = none ∧ w = [] ∨ g = some (key, w))

section

variable {cfg : Kconfig} {isKey : Bool} {st : List Bool} {key w : Bytes} {s : ScanState}
  {g : Gathering}

theorem StrAbs.withEsc (h : StrAbs isKey st key s g w) (p : EscPhase) (unit high : UInt16) :
    StrAbs isKey st key (s.withEsc p unit high) g w :=
  ⟨h.err, h.phase, h.stack, h.held⟩

/-- Bytes handed over while the string stays open. -/
theorem emitStrBytes_open (h : StrAbs isKey st key s g w) (hfits : StrFits cfg isKey st key w)
    (data : Bytes) (span : Span) :
    (emitStrBytes cfg s data false isKey span).Yields g
      (fun s' g' evs => evs = [] ∧ StrAbs isKey st key s' g' (w ++ data) ∧
        (∃ scratch, s' = { s with scratch := scratch }) ∧ StrFits cfg isKey st key (w ++ data))
      (¬ StrFits cfg isKey st key (w ++ data)) := by
  rw [strFits_append_iff hfits]
  unfold emitStrBytes
  cases isKey with
  | true =>
    obtain ⟨rfl, rfl⟩ := h.held
    simp only [if_true, scratchAppend, List.length_append, forall_const]
    split
    · exact Scan.yields_fail (by decide) (by omega)
    · exact Scan.yields_pure ⟨rfl, ⟨h.err, h.phase, h.stack, rfl, rfl⟩, ⟨_, rfl⟩, by omega⟩
  | false =>
    obtain ⟨hkey, hheld⟩ := h.held
    simp only [Bool.false_eq_true, if_false, false_imp_iff, not_true_eq_false, and_true]
    apply Scan.yields_bind
    refine Scan.yields_call (v := []) (k := some (key, w ++ data)) ?_ (Scan.yields_pure ?_)
    · rw [hkey]
      rcases hheld with ⟨rfl, rfl⟩ | rfl <;> simp [gatherCall]
    · exact ⟨rfl, ⟨h.err, h.phase, h.stack, hkey, .inr rfl⟩, s.scratch, rfl⟩

/-- The last bytes of a string. -/
theorem emitStrBytes_final (h : StrAbs isKey st key s g w) (hfits : StrFits cfg isKey st key w)
    (data : Bytes) (span : Span) :
    (emitStrBytes cfg s data true isKey span).Yields g
      (fun s' g' evs => evs = closedEvents isKey key (w ++ data) ∧ g' = none ∧
        (∃ scratch, s' = { s with scratch := scratch }) ∧
        (isKey = true → s'.scratch = w ++ data) ∧ StrFits cfg isKey st key (w ++ data))
      (¬ StrFits cfg isKey st key (w ++ data)) := by
  rw [strFits_append_iff hfits]
  unfold emitStrBytes
  cases isKey with
  | true =>
    obtain ⟨rfl, rfl⟩ := h.held
    simp only [if_true, scratchAppend, List.length_append, forall_const]
    split
    · exact Scan.yields_fail (by decide) (by omega)
    · exact Scan.yields_pure ⟨rfl, rfl, ⟨_, rfl⟩, rfl, by omega⟩
  | false =>
    obtain ⟨hkey, hheld⟩ := h.held
    simp only [Bool.false_eq_true, if_false, false_imp_iff, not_true_eq_false, and_true]
    apply Scan.yields_bind
    refine Scan.yields_call (v := [.str key (w ++ data)]) (k := none) ?_ (Scan.yields_pure ?_)
    · rw [hkey]
      rcases hheld with ⟨rfl, rfl⟩ | rfl <;> simp [gatherCall]
    · exact ⟨rfl, rfl, s.scratch, rfl⟩

/-- A run is handed over unless it is empty. -/
theorem flushRun_open (h : StrAbs isKey st key s g w) (hfits : StrFits cfg isKey st key w)
    (run : Bytes) :
    (flushRun cfg isKey s run).Yields g
      (fun s' g' evs => evs = [] ∧ StrAbs isKey st key s' g' (w ++ run) ∧
        (∃ scratch, s' = { s with scratch := scratch }) ∧ StrFits cfg isKey st key (w ++ run))
      (¬ StrFits cfg isKey st key (w ++ run)) := by
  unfold flushRun
  by_cases hrun : run = []
  · subst hrun
    simp only [if_true, List.append_nil]
    exact Scan.yields_pure ⟨rfl, h, ⟨s.scratch, rfl⟩, hfits⟩
  · rw [if_neg hrun]
    exact emitStrBytes_open h hfits run _

end

/-- Where `scan_string` leaves the scanner and the machine. -/
def StrEnd (cfg : Kconfig) (isKey : Bool) (st : List Bool) (key : Bytes) (m : State)
    (input : Bytes) : ScanState × Bytes × Bool → Gathering → List Event → Prop
  | (s, rest, true), g, evs =>
    rest.length < input.length ∧ g = none ∧ s.err = .ok ∧ s.objStack = (if isKey then false :: st else st) ∧
      ∃ w, evs = closedEvents isKey key w ∧ (isKey = true → s.scratch = w) ∧
        StrFits cfg isKey st key w ∧ Continues cfg m input (closedState isKey st w) rest evs
  | (s, rest, false), g, evs =>
    evs = [] ∧ rest = [] ∧ ∃ w, StrAbs isKey st key s g w ∧ s.EscOk ∧ StrFits cfg isKey st key w ∧
      Continues cfg m input (strState isKey st key s.esc w) [] []

/-- The string machine takes a scan from one point of the string to another. -/
def StrScans (cfg : Kconfig) (isKey : Bool) (st : List Bool) (key : Bytes) (m : State)
    (input : Bytes) (g : Gathering) (x : Scan (ScanState × Bytes × Bool)) : Prop :=
  x.Yields g (StrEnd cfg isKey st key m input) (cfg.machine m input = none)

section

variable {cfg : Kconfig} {isKey : Bool} {st : List Bool} {key w : Bytes} {s : ScanState}
  {g : Gathering} {m m' : State} {input input' : Bytes} {x : Scan (ScanState × Bytes × Bool)}

/-- A scan from further on in the string, as one from here. -/
theorem StrScans.of_continues (h : StrScans cfg isKey st key m' input' g x)
    (hcont : Continues cfg m input m' input' []) (hlen : input'.length ≤ input.length) :
    StrScans cfg isKey st key m input g x := by
  refine h.imp ?_ hcont.refused
  rintro ⟨s', rest, closed⟩ g' evs hend
  cases closed with
  | true =>
    obtain ⟨hrest, hg, herr, hst, w, hevs, hscratch, hfits, hend⟩ := hend
    exact ⟨hrest.trans_le hlen, hg, herr, hst, w, hevs, hscratch, hfits, hcont.trans_silent hend⟩
  | false =>
    obtain ⟨hevs, hrest, w, habs, hesc, hfits, hend⟩ := hend
    exact ⟨hevs, hrest, w, habs, hesc, hfits, hcont.trans_silent hend⟩

/-- Bytes are handed over, then the scan goes on from further on in the string. -/
theorem StrScans.bind_open {y : Scan ScanState} {data : Bytes}
    {f : ScanState → Scan (ScanState × Bytes × Bool)}
    (hy : y.Yields g
      (fun s' g' evs => evs = [] ∧ StrAbs isKey st key s' g' (w ++ data) ∧
        (∃ scratch, s' = { s with scratch := scratch }) ∧ StrFits cfg isKey st key (w ++ data))
      (¬ StrFits cfg isKey st key (w ++ data)))
    (hrefused : ¬ StrFits cfg isKey st key (w ++ data) → cfg.machine m input = none)
    (hf : ∀ scratch g', StrAbs isKey st key { s with scratch := scratch } g' (w ++ data) →
      StrFits cfg isKey st key (w ++ data) →
      StrScans cfg isKey st key m input g' (f { s with scratch := scratch })) :
    StrScans cfg isKey st key m input g (y >>= f) := by
  apply Scan.yields_bind
  refine hy.imp ?_ hrefused
  rintro s' g' evs ⟨rfl, habs, ⟨scratch, rfl⟩, hfits⟩
  exact hf scratch g' habs hfits

/-- The last bytes are handed over at the closing quote. -/
theorem StrScans.bind_final {data rest : Bytes} {span : Span} (h : StrAbs isKey st key s g w)
    (hw : StrFits cfg isKey st key w) (hlen : rest.length < input.length)
    (hrefused : ¬ StrFits cfg isKey st key (w ++ data) → cfg.machine m input = none)
    (hcont : StrFits cfg isKey st key (w ++ data) →
      Continues cfg m input (strState isKey st key .plain (w ++ data)) (34 :: rest) []) :
    StrScans cfg isKey st key m input g (do
      let s ← emitStrBytes cfg s data true isKey span
      pure (s, rest, true)) := by
  apply Scan.yields_bind
  refine (emitStrBytes_final h hw data span).imp ?_ hrefused
  rintro s' g' evs ⟨rfl, rfl, ⟨scratch, rfl⟩, hscratch, hfits⟩
  apply Scan.yields_pure
  rw [List.append_nil]
  exact ⟨hlen, rfl, h.err, h.stack, w ++ data, rfl, hscratch, hfits,
    (hcont hfits).trans_silent (.closing hfits rest)⟩

end

/-- A key or value string, from any point to the end of the chunk or of the string. -/
theorem scanString_simulates {cfg : Kconfig} {isKey : Bool} {st : List Bool} {key : Bytes}
    {w : Bytes} {s : ScanState} {g : Gathering} (h : StrAbs isKey st key s g w) (hesc : s.EscOk)
    (hfits : StrFits cfg isKey st key w) {run : Bytes} (hrun : run ≠ [] → s.escPhase = .none)
    (hplain : ∀ b ∈ run, isPlain b = true) (input : Bytes) :
    StrScans cfg isKey st key (strState isKey st key s.esc w) (run ++ input) g
      (scanString cfg isKey s run input) := by
  induction input generalizing s g w run with
  | nil =>
    rw [scanString]
    by_cases hempty : run = []
    · subst hempty
      rw [flushRun, if_pos rfl, List.append_nil]
      exact Scan.yields_bind (Scan.yields_pure
        (Scan.yields_pure ⟨rfl, rfl, w, h, hesc, hfits, .refl _ _⟩))
    · have hplainEsc : s.esc = .plain := by rw [ScanState.esc, hrun hempty, EscPhase.esc]
      rw [hplainEsc]
      refine .bind_open (flushRun_open h hfits run)
        (fun hnot => machine_plain_run_exceeds hplain hfits hnot []) ?_
      intro scratch g' habs hfits'
      refine Scan.yields_pure ⟨rfl, rfl, w ++ run, habs, hesc, hfits', ?_⟩
      have hsame : ({ s with scratch := scratch } : ScanState).esc = .plain := hplainEsc
      rw [hsame]
      exact .plain_run hplain hfits' []
  | cons c rest ih =>
    rw [scanString]
    by_cases hphase : s.escPhase = .none
    · have hplainEsc : s.esc = .plain := by rw [ScanState.esc, hphase, EscPhase.esc]
      rw [if_neg (not_not_intro hphase), hplainEsc]
      have hrefused (hnot : ¬ StrFits cfg isKey st key (w ++ run)) :=
        machine_plain_run_exceeds hplain hfits hnot (c :: rest)
      have hcont (hfits' : StrFits cfg isKey st key (w ++ run)) :=
        Continues.plain_run hplain hfits' (c :: rest)
      by_cases hquote : c = 34
      · subst hquote
        rw [if_pos rfl]
        exact .bind_final h hfits (by simp; omega) hrefused hcont
      rw [if_neg hquote]
      by_cases hback : c = 92
      · subst hback
        rw [if_pos rfl]
        refine .bind_open (flushRun_open h hfits run) hrefused ?_
        intro scratch g' habs hfits'
        have hnext : StrAbs isKey st key { s with scratch := scratch, escPhase := .backslash } g'
            (w ++ run) := ⟨habs.err, habs.phase, habs.stack, habs.held⟩
        have hih := ih hnext trivial hfits' (show ([] : Bytes) ≠ [] → _ from fun hne => absurd rfl hne) (by simp)
        refine hih.of_continues ((hcont hfits').trans_silent ?_) (by simp; omega)
        have hstep : Continues cfg (strState isKey st key .plain (w ++ run)) (92 :: rest)
            (strState isKey st key .backslash (w ++ run ++ [])) rest [] :=
          .inside rfl (by rwa [List.append_nil]) rest
        rwa [List.append_nil] at hstep
      rw [if_neg hback]
      by_cases hctl : c < 32
      · rw [if_pos hctl]
        apply Scan.yields_fail (by decide)
        by_cases hfits' : StrFits cfg isKey st key (w ++ run)
        · refine (hcont hfits').refused (machine_refuses ?_)
          have hnot : isPlain c = false := by
            simp only [isPlain, decide_eq_false_iff_not]
            exact fun hc => absurd hc.2.2 (UInt8.not_le.mpr hctl)
          rw [next_strState]
          simp [strStep, hquote, hback, hnot]
        · exact hrefused hfits'
      · rw [if_neg hctl]
        have hc : isPlain c = true := by
          simp only [isPlain, decide_eq_true_eq]
          exact ⟨hquote, hback, UInt8.not_lt.mp hctl⟩
        have hih := ih h hesc hfits (show run ++ [c] ≠ [] → _ from fun _ => hphase)
          (by simpa [or_imp, forall_and] using ⟨hplain, hc⟩)
        rwa [hplainEsc, List.append_assoc] at hih
    · have hempty : run = [] := by
        by_contra hne
        exact hphase (hrun hne)
      subst hempty
      rw [if_pos hphase, List.nil_append]
      have hspec := scanEscapeByte_spec hphase hesc c
      cases hbyte : scanEscapeByte s c with
      | error e =>
        rw [hbyte] at hspec
        apply Scan.yields_fail (scanEscapeByte_error hbyte ▸ by decide)
        apply machine_refuses
        rw [next_strState, hspec]
      | ok p =>
        obtain ⟨s₁, out⟩ := p
        rw [hbyte] at hspec
        obtain ⟨hstep, hesc₁, hdone, p, unit, high, rfl⟩ := hspec
        have habs := h.withEsc p unit high
        have hrefused (hnot : ¬ StrFits cfg isKey st key (w ++ out)) :
            cfg.machine (strState isKey st key s.esc w) (c :: rest) = none :=
          machine_exceeds (by rw [next_strState, hstep]) fun hw => hnot (by cases isKey <;> exact hw)
        have hcont (hfits' : StrFits cfg isKey st key (w ++ out)) :=
          Continues.inside hstep hfits' rest
        dsimp only
        by_cases hout : out = []
        · subst hout
          rw [if_pos rfl]
          have hih := ih habs hesc₁ hfits (show ([] : Bytes) ≠ [] → _ from fun hne => absurd rfl hne) (by simp)
          refine hih.of_continues ?_ (by simp)
          have hcont' := hcont (by rwa [List.append_nil])
          rwa [List.append_nil] at hcont'
        rw [if_neg hout]
        have hplainEsc : (s.withEsc p unit high).esc = .plain := by
          rw [ScanState.esc, hdone hout, EscPhase.esc]
        by_cases hquote : rest.head? = some 34
        · rw [if_pos hquote]
          obtain ⟨rest', rfl⟩ := List.head?_eq_some_iff.mp hquote
          refine .bind_final habs hfits (Nat.lt_succ_of_lt (Nat.lt_succ_self rest'.length)) hrefused fun hfits' => ?_
          rw [← hplainEsc]
          exact hcont hfits'
        · rw [if_neg hquote]
          refine .bind_open (emitStrBytes_open habs hfits out _) hrefused ?_
          intro scratch g' habs' hfits'
          have hih := ih habs' hesc₁ hfits' (show ([] : Bytes) ≠ [] → _ from fun hne => absurd rfl hne) (by simp)
          exact hih.of_continues (hcont hfits') (by simp)

end SerializeJson
end Breadboard
