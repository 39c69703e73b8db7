import Breadboard.SerializeJson.ScanMachine

/-!
# bb_serialize_json_scan - chunking and the accepted language

With a sink that accepts every call, both entry points succeed exactly when the machine
accepts the whole input, and then their joined calls are the machine's events.  So the
chunking does not matter, and the accepted inputs are those of the grammar the machine
reads: JSON texts within the limits, except that a number may have superfluous leading
zeros.

Main results:

- Theorem `scanBounded_spec`, `scanStream_spec`: each entry point against the machine.
- Theorem `scanStream_agrees_scanBounded`: chunking invariance.
- Theorem `scanBounded_exact_iff_no_leading_zero`: the inputs read as in RFC 8259.
-/

namespace Breadboard
namespace SerializeJson

open Foundations
open Serialize (maxDepth)
open Foundations.JsonText (Event State IsText LaxNumber RfcNumber Nests Fit)

/-! ## Accepting sinks -/

/-- The sink that keeps every call. -/
def record (cs : List Call) (c : Call) : List Call × BbErr := (cs ++ [c], .ok)

/-- A sink that accepts every call. -/
def Accepting {σ : Type} (sink : σ → Call → σ × BbErr) : Prop := ∀ t c, (sink t c).2 = .ok

theorem record_accepting : Accepting record := fun _ _ => rfl

section

variable {σ : Type} {sink : σ → Call → σ × BbErr}

theorem deliverCalls_of_accepting (h : Accepting sink) (t : σ) (cs : List Call) :
    Scan.deliverCalls sink t cs = (cs.foldl (fun t c => (sink t c).1) t, .ok) := by
  induction cs generalizing t with
  | nil => rfl
  | cons c cs ih =>
    have hc : sink t c = ((sink t c).1, .ok) := Prod.ext rfl (h t c)
    rw [Scan.deliverCalls, hc]
    exact ih _

theorem deliver_of_accepting {α : Type} (h : Accepting sink) (t : σ) (x : Scan α) :
    x.deliver sink t = (x.calls.foldl (fun t c => (sink t c).1) t, x.result) := by
  rw [Scan.deliver, deliverCalls_of_accepting h]

theorem foldl_record (cs cs' : List Call) :
    cs'.foldl (fun t c => (record t c).1) cs = cs ++ cs' := by
  induction cs' generalizing cs with
  | nil => simp
  | cons c cs' ih =>
    rw [List.foldl_cons, ih]
    simp [record]

/-- All accepting sinks see the same scan. -/
theorem scanFeed_of_accepting (cfg : Kconfig) (h : Accepting sink) (t : σ) (cs : List Call)
    (s : ScanState) (chunk : Bytes) :
    (scanFeed cfg sink t s chunk).2 = (scanFeed cfg record cs s chunk).2 := by
  unfold scanFeed
  split
  · rfl
  · rw [deliver_of_accepting h, deliver_of_accepting record_accepting]
    cases (drive cfg s chunk).result <;> rfl

theorem scanEnd_of_accepting (h : Accepting sink) (t : σ) (cs : List Call) (s : ScanState) :
    (scanEnd sink t s).2 = (scanEnd record cs s).2 := by
  unfold scanEnd
  split
  · rfl
  · rw [deliver_of_accepting h, deliver_of_accepting record_accepting]
    cases (endScan s).result <;> rfl

theorem scanFeeds_of_accepting (cfg : Kconfig) (h : Accepting sink) (t : σ) (cs : List Call)
    (s : ScanState) (chunks : List Bytes) :
    (scanFeeds cfg sink t s chunks).2 = (scanFeeds cfg record cs s chunks).2 := by
  induction chunks generalizing t cs s with
  | nil => rfl
  | cons chunk chunks ih =>
    have hfeed := scanFeed_of_accepting cfg h t cs s chunk
    unfold scanFeeds
    rcases hx : scanFeed cfg sink t s chunk with ⟨t', s', rc⟩
    rcases hy : scanFeed cfg record cs s chunk with ⟨cs', s'', rc'⟩
    rw [hx, hy] at hfeed
    obtain ⟨rfl, rfl⟩ := Prod.mk.injEq .. ▸ hfeed
    exact congrArg (fun p => (p.1, rc :: p.2)) (ih t' cs' s')

/-- All accepting sinks get the same codes. -/
theorem scanStream_of_accepting (cfg : Kconfig) (h : Accepting sink) (t : σ) (chunks : List Bytes) :
    (scanStream cfg sink t chunks).2 = (scanStream cfg record [] chunks).2 := by
  have hfeeds := scanFeeds_of_accepting cfg h t [] scanBegin chunks
  unfold scanStream
  rcases hx : scanFeeds cfg sink t scanBegin chunks with ⟨t', s', rcs⟩
  rcases hy : scanFeeds cfg record [] scanBegin chunks with ⟨cs', s'', rcs'⟩
  rw [hx, hy] at hfeeds
  obtain ⟨rfl, rfl⟩ := Prod.mk.injEq .. ▸ hfeeds
  exact congrArg (fun p => rcs ++ [p.2]) (scanEnd_of_accepting h t' cs' s')

theorem scanBounded_of_accepting (cfg : Kconfig) (h : Accepting sink) (t : σ) (buf : Bytes) :
    (scanBounded cfg sink t buf).2 = (scanBounded cfg record [] buf).2 := by
  have hfeed := scanFeed_of_accepting cfg h t [] (scanBeginInternal true) buf
  unfold scanBounded
  rcases hx : scanFeed cfg sink t (scanBeginInternal true) buf with ⟨t', s', rc⟩
  rcases hy : scanFeed cfg record [] (scanBeginInternal true) buf with ⟨cs', s'', rc'⟩
  rw [hx, hy] at hfeed
  obtain ⟨rfl, rfl⟩ := Prod.mk.injEq .. ▸ hfeed
  have hend := scanEnd_of_accepting h t' cs' s'
  cases rc <;> first | rfl | exact congrArg Prod.snd hend

end

/-! ## The entry points against the machine -/

section

variable {cfg : Kconfig}

/-- A feed that is accepted, or refused by the machine too. -/
theorem scanFeed_spec {s : ScanState} {g : Gathering} {m : State} (habs : Abs cfg s g m)
    (cs : List Call) (chunk : Bytes) :
    (∃ s' calls evs g' m', scanFeed cfg record cs s chunk = (cs ++ calls, s', .ok) ∧
      gatherFrom g calls = some (evs, g') ∧ Abs cfg s' g' m' ∧ Continues cfg m chunk m' [] evs) ∨
    (∃ cs' s' rc, scanFeed cfg record cs s chunk = (cs', s', rc) ∧ rc ≠ .ok ∧ s'.err = rc ∧
      cfg.machine m chunk = none) := by
  have hdrive := drive_simulates habs chunk
  unfold scanFeed
  rw [if_neg (not_not_intro habs.err), deliver_of_accepting record_accepting, foldl_record]
  unfold Drives Scan.Yields at hdrive
  cases hresult : (drive cfg s chunk).result with
  | error e =>
    rw [hresult] at hdrive
    exact .inr ⟨_, _, e, rfl, hdrive.1, rfl, hdrive.2⟩
  | ok s' =>
    rw [hresult] at hdrive
    obtain ⟨evs, g', hgather, m', habs', hcont⟩ := hdrive
    exact .inl ⟨s', _, evs, g', m', rfl, hgather, habs', hcont⟩

/-- The end of a scan that is accepted, or refused by the machine too. -/
theorem scanEnd_spec {s : ScanState} {g : Gathering} {m : State} (habs : Abs cfg s g m)
    (cs : List Call) :
    (∃ s' calls evs, scanEnd record cs s = (cs ++ calls, s', .ok) ∧
      gatherFrom g calls = some (evs, none) ∧ JsonText.finish m = some evs) ∨
    (∃ cs' s' rc, scanEnd record cs s = (cs', s', rc) ∧ rc ≠ .ok ∧ JsonText.finish m = none) := by
  have hend := endScan_simulates habs
  unfold scanEnd
  rw [if_neg (not_not_intro habs.err), deliver_of_accepting record_accepting, foldl_record]
  unfold Scan.Yields at hend
  cases hresult : (endScan s).result with
  | error e =>
    rw [hresult] at hend
    exact .inr ⟨_, _, e, rfl, hend.1, hend.2⟩
  | ok s' =>
    rw [hresult] at hend
    obtain ⟨evs, g', hgather, rfl, hfinish⟩ := hend
    exact .inl ⟨s', _, evs, rfl, hgather, hfinish⟩

/-- After an error every call returns it again. -/
theorem scanFeeds_sticky {σ : Type} (sink : σ → Call → σ × BbErr) (t : σ) {s : ScanState}
    (herr : s.err ≠ .ok) (chunks : List Bytes) :
    ∃ rcs, scanFeeds cfg sink t s chunks = (t, s, rcs) := by
  induction chunks with
  | nil => exact ⟨[], rfl⟩
  | cons chunk chunks ih =>
    obtain ⟨rcs, hrcs⟩ := ih
    have hfeed : scanFeed cfg sink t s chunk = (t, s, s.err) := by
      unfold scanFeed
      rw [if_pos herr]
    exact ⟨s.err :: rcs, by simp only [scanFeeds, hfeed, hrcs]⟩

/-- The feeds are all accepted, or the machine refuses what they add up to. -/
theorem scanFeeds_spec {s : ScanState} {g : Gathering} {m : State} (habs : Abs cfg s g m)
    (cs : List Call) (chunks : List Bytes) :
    (∃ s' calls evs g' m' rcs, scanFeeds cfg record cs s chunks = (cs ++ calls, s', rcs) ∧
      (∀ rc ∈ rcs, rc = .ok) ∧ gatherFrom g calls = some (evs, g') ∧ Abs cfg s' g' m' ∧
      Continues cfg m chunks.flatten m' [] evs) ∨
    (∃ cs' s' rcs, scanFeeds cfg record cs s chunks = (cs', s', rcs) ∧ (∃ rc ∈ rcs, rc ≠ .ok) ∧
      cfg.machine m chunks.flatten = none) := by
  induction chunks generalizing s g m cs with
  | nil =>
    refine .inl ⟨s, [], [], g, m, [], ?_, by simp, rfl, habs, .refl _ _⟩
    rw [scanFeeds, List.append_nil]
  | cons chunk chunks ih =>
    have hwhole (m' : State) (evs : List Event) (hcont : Continues cfg m chunk m' [] evs) :
        Continues cfg m (chunk ++ chunks.flatten) m' chunks.flatten evs := by
      have hrun : cfg.machine m chunk = some (m', evs) := by
        rw [hcont]
        simp [Kconfig.machine, JsonText.run]
      unfold Continues Kconfig.machine at *
      rw [JsonText.run_append, hrun, Option.bind_some]
    rcases scanFeed_spec habs cs chunk with ⟨s₁, calls, evs, g₁, m₁, hfeed, hgather, habs₁, hcont⟩ |
      ⟨cs₁, s₁, rc, hfeed, hrc, herr, hnone⟩
    · rcases ih habs₁ (cs ++ calls) with
        ⟨s', calls', evs', g', m', rcs, hfeeds, hrcs, hgather', habs', hcont'⟩ |
        ⟨cs', s', rcs, hfeeds, hrcs, hnone⟩
      · refine .inl ⟨s', calls ++ calls', evs ++ evs', g', m', .ok :: rcs, ?_, ?_, ?_, habs', ?_⟩
        · simp only [scanFeeds, hfeed, hfeeds, List.append_assoc]
        · simpa using hrcs
        · simp [gatherFrom_append, hgather, hgather']
        · exact (hwhole m₁ evs hcont).trans hcont'
      · obtain ⟨rc, hmem, hrc⟩ := hrcs
        refine .inr ⟨cs', s', .ok :: rcs, ?_, ⟨rc, List.mem_cons_of_mem _ hmem, hrc⟩,
          (hwhole m₁ evs hcont).refused hnone⟩
        simp only [scanFeeds, hfeed, hfeeds]
    · obtain ⟨rcs, hfeeds⟩ := @scanFeeds_sticky cfg _ record cs₁ _ (herr.trans_ne hrc) chunks
      refine .inr ⟨cs₁, s₁, rc :: rcs, ?_, ⟨rc, List.mem_cons_self .., hrc⟩, ?_⟩
      · simp only [scanFeeds, hfeed, hfeeds]
      · unfold Kconfig.machine at hnone ⊢
        rw [List.flatten_cons, JsonText.run_append, hnone]
        rfl

/-- The start of a scan. -/
theorem scanBeginInternal_abs (cfg : Kconfig) (boundedMode : Bool) :
    Abs cfg (scanBeginInternal boundedMode) none .root :=
  ⟨rfl, ⟨Nat.zero_le _, Nat.zero_le _⟩, .root rfl rfl⟩

/-- The events of an input that the scanner's machine accepts. -/
def Kconfig.reading (cfg : Kconfig) (buf : Bytes) : Option (List Event) :=
  JsonText.reading (JsonText.nextWithin cfg.limits) .root buf

theorem reading_of_continues {buf : Bytes} {m : State} {evs : List Event}
    (h : Continues cfg .root buf m [] evs) :
    cfg.reading buf = (JsonText.finish m).map fun es => evs ++ es := by
  have hrun : JsonText.run (JsonText.nextWithin cfg.limits) .root buf = some (m, evs) := by
    have := h
    unfold Continues Kconfig.machine at this
    rw [this]
    simp [JsonText.run]
  rw [Kconfig.reading, JsonText.reading, hrun, Option.bind_some]

theorem reading_of_refused {buf : Bytes} (h : cfg.machine .root buf = none) :
    cfg.reading buf = none := by
  unfold Kconfig.machine at h
  rw [Kconfig.reading, JsonText.reading, h]
  rfl

theorem gather_append {calls calls' : List Call} {g : Gathering} {evs evs' : List Event}
    (h : gatherFrom none calls = some (evs, g)) (h' : gatherFrom g calls' = some (evs', none)) :
    gather (calls ++ calls') = some (evs ++ evs') := by
  simp [gather, gatherFrom_append, h, h']

/-- The bounded scan succeeds exactly on what the machine accepts, with its events. -/
theorem scanBounded_spec (cfg : Kconfig) (buf : Bytes) :
    (∃ calls evs, scanBounded cfg record [] buf = (calls, .ok) ∧ gather calls = some evs ∧
      cfg.reading buf = some evs) ∨
    ((scanBounded cfg record [] buf).2 ≠ .ok ∧ cfg.reading buf = none) := by
  have habs := scanBeginInternal_abs cfg true
  unfold scanBounded
  rcases scanFeed_spec habs [] buf with ⟨s', calls, evs, g', m', hfeed, hgather, habs', hcont⟩ |
    ⟨cs', s', rc, hfeed, hrc, -, hnone⟩
  · rw [hfeed, reading_of_continues hcont]
    dsimp only
    rcases scanEnd_spec habs' ([] ++ calls) with ⟨s'', calls', evs', hend, hgather', hfinish⟩ |
      ⟨cs'', s'', rc, hend, hrc, hfinish⟩
    · rw [hend, hfinish]
      exact .inl ⟨calls ++ calls', evs ++ evs', rfl, gather_append hgather hgather', rfl⟩
    · rw [hend, hfinish]
      exact .inr ⟨hrc, rfl⟩
  · rw [hfeed, reading_of_refused hnone]
    refine .inr ⟨?_, rfl⟩
    cases rc <;> first | exact absurd rfl hrc | simp

/-- The streaming scan succeeds exactly when the machine accepts the chunks taken together. -/
theorem scanStream_spec (cfg : Kconfig) (chunks : List Bytes) :
    (∃ calls rcs evs, scanStream cfg record [] chunks = (calls, rcs) ∧ (∀ rc ∈ rcs, rc = .ok) ∧
      gather calls = some evs ∧ cfg.reading chunks.flatten = some evs) ∨
    ((∃ rc ∈ (scanStream cfg record [] chunks).2, rc ≠ .ok) ∧
      cfg.reading chunks.flatten = none) := by
  have habs := scanBeginInternal_abs cfg false
  unfold scanStream scanBegin
  rcases scanFeeds_spec habs [] chunks with
    ⟨s', calls, evs, g', m', rcs, hfeeds, hrcs, hgather, habs', hcont⟩ |
    ⟨cs', s', rcs, hfeeds, ⟨rc, hmem, hrc⟩, hnone⟩
  · rw [hfeeds, reading_of_continues hcont]
    dsimp only
    rcases scanEnd_spec habs' ([] ++ calls) with ⟨s'', calls', evs', hend, hgather', hfinish⟩ |
      ⟨cs'', s'', rc, hend, hrc, hfinish⟩
    · rw [hend, hfinish]
      refine .inl ⟨calls ++ calls', rcs ++ [.ok], evs ++ evs', rfl, ?_,
        gather_append hgather hgather', rfl⟩
      simpa [or_imp, forall_and] using hrcs
    · rw [hend, hfinish]
      exact .inr ⟨⟨rc, by simp, hrc⟩, rfl⟩
  · rw [hfeeds, reading_of_refused hnone]
    exact .inr ⟨⟨rc, List.mem_append_left _ hmem, hrc⟩, rfl⟩

/-! ## Chunking -/

/--
However the input is cut into chunks, the streaming scan succeeds exactly when the bounded
scan of the whole does, and then both make the same calls once the chunks of each string are
joined.
-/
theorem scanStream_agrees_scanBounded {σ : Type} (cfg : Kconfig) (sink : σ → Call → σ × BbErr)
    (hsink : Accepting sink) (t : σ) (chunks : List Bytes) :
    ((∀ rc ∈ (scanStream cfg sink t chunks).2, rc = .ok) ↔
      (scanBounded cfg sink t chunks.flatten).2 = .ok) ∧
    ((scanBounded cfg sink t chunks.flatten).2 = .ok →
      ∃ evs, gather (scanStream cfg record [] chunks).1 = some evs ∧
        gather (scanBounded cfg record [] chunks.flatten).1 = some evs) := by
  rw [scanStream_of_accepting cfg hsink, scanBounded_of_accepting cfg hsink]
  rcases scanStream_spec cfg chunks with ⟨calls, rcs, evs, hstream, hrcs, hgather, hreading⟩ |
    ⟨⟨rc, hmem, hrc⟩, hreading⟩ <;>
    rcases scanBounded_spec cfg chunks.flatten with ⟨calls', evs', hbounded, hgather', hreading'⟩ |
      ⟨hne, hreading'⟩
  · rw [hreading] at hreading'
    cases hreading'
    rw [hstream, hbounded]
    exact ⟨⟨fun _ => rfl, fun _ => hrcs⟩, fun _ => ⟨evs, hgather, hgather'⟩⟩
  · rw [hreading] at hreading'
    cases hreading'
  · rw [hreading] at hreading'
    cases hreading'
  · exact ⟨⟨fun h => absurd (h rc hmem) hrc, fun h => absurd h hne⟩, fun h => absurd h hne⟩

/-- An object with a surrogate pair, cut inside the key, the escapes and the number. -/
theorem scanStream_agrees_scanBounded_cut :
    ((∀ rc ∈ (scanStream Kconfig.default record [] [[123, 34, 97], [34, 58, 91, 34, 92, 117, 100],
        [56, 51, 100, 92], [], [117, 100, 101, 48, 48, 34, 44, 49], [50, 93, 125]]).2, rc = .ok) ↔
      (scanBounded Kconfig.default record [] [123, 34, 97, 34, 58, 91, 34, 92, 117, 100, 56, 51, 100,
        92, 117, 100, 101, 48, 48, 34, 44, 49, 50, 93, 125]).2 = .ok) ∧
    ((scanBounded Kconfig.default record [] [123, 34, 97, 34, 58, 91, 34, 92, 117, 100, 56, 51, 100,
        92, 117, 100, 101, 48, 48, 34, 44, 49, 50, 93, 125]).2 = .ok →
      ∃ evs, gather (scanStream Kconfig.default record [] [[123, 34, 97],
          [34, 58, 91, 34, 92, 117, 100], [56, 51, 100, 92], [],
          [117, 100, 101, 48, 48, 34, 44, 49], [50, 93, 125]]).1 = some evs ∧
        gather (scanBounded Kconfig.default record [] [123, 34, 97, 34, 58, 91, 34, 92, 117, 100, 56,
          51, 100, 92, 117, 100, 101, 48, 48, 34, 44, 49, 50, 93, 125]).1 = some evs) :=
  scanStream_agrees_scanBounded Kconfig.default record record_accepting [] [[123, 34, 97],
    [34, 58, 91, 34, 92, 117, 100], [56, 51, 100, 92], [], [117, 100, 101, 48, 48, 34, 44, 49],
    [50, 93, 125]]

/-! ## The accepted inputs -/

/-- The events nest at most `BB_SERIALIZE_MAX_DEPTH` deep and fit the scratch. -/
def WithinLimits (cfg : Kconfig) (evs : List Event) : Prop :=
  Nests maxDepth 0 evs ∧ Fit cfg.scratchMaxBytes evs

theorem reading_eq_some_iff (cfg : Kconfig) (buf : Bytes) (evs : List Event) :
    cfg.reading buf = some evs ↔ IsText LaxNumber buf evs ∧ WithinLimits cfg evs :=
  JsonText.reading_root_iff cfg.limits buf evs

/-- The inputs the bounded scan accepts. -/
theorem scanBounded_ok_iff {σ : Type} (cfg : Kconfig) {sink : σ → Call → σ × BbErr}
    (hsink : Accepting sink) (t : σ) (buf : Bytes) :
    (scanBounded cfg sink t buf).2 = .ok ↔
      ∃ evs, IsText LaxNumber buf evs ∧ WithinLimits cfg evs := by
  rw [scanBounded_of_accepting cfg hsink]
  simp only [← reading_eq_some_iff]
  rcases scanBounded_spec cfg buf with ⟨calls, evs, hbounded, -, hreading⟩ | ⟨hne, hreading⟩
  · rw [hbounded]
    exact ⟨fun _ => ⟨evs, hreading⟩, fun _ => rfl⟩
  · simp [hne, hreading]

/-- On an accepted input the joined calls are the events of the text. -/
theorem gather_scanBounded {cfg : Kconfig} {buf : Bytes} {evs : List Event}
    (htext : IsText LaxNumber buf evs) (hlimits : WithinLimits cfg evs) :
    ∃ calls, scanBounded cfg record [] buf = (calls, .ok) ∧ gather calls = some evs := by
  have hreading := (reading_eq_some_iff cfg buf evs).mpr ⟨htext, hlimits⟩
  rcases scanBounded_spec cfg buf with ⟨calls, evs', hbounded, hgather, hreading'⟩ |
    ⟨-, hreading'⟩
  · rw [hreading] at hreading'
    cases hreading'
    exact ⟨calls, hbounded, hgather⟩
  · rw [hreading] at hreading'
    cases hreading'

/--
The bounded scan accepts exactly the JSON texts within its limits on the inputs whose numbers,
read with leading zeros allowed, have no superfluous leading zero.
-/
theorem scanBounded_exact_iff_no_leading_zero {σ : Type} (cfg : Kconfig)
    (sink : σ → Call → σ × BbErr) (hsink : Accepting sink) (t : σ) (buf : Bytes) :
    ((scanBounded cfg sink t buf).2 = .ok ↔ ∃ evs, IsText RfcNumber buf evs ∧ WithinLimits cfg evs) ↔
      ∀ evs, IsText LaxNumber buf evs → WithinLimits cfg evs →
        ∀ key n, Event.num key n ∈ evs → RfcNumber n := by
  rw [scanBounded_ok_iff cfg hsink t buf]
  constructor
  · intro hexact evs htext hlimits key n hmem
    obtain ⟨evs', htext', hlimits'⟩ := hexact.mp ⟨evs, htext, hlimits⟩
    -- The machine reads the text in one way only.
    have heq := (reading_eq_some_iff cfg buf evs).mpr ⟨htext, hlimits⟩
    rw [(reading_eq_some_iff cfg buf evs').mpr ⟨htext'.lax, hlimits'⟩] at heq
    cases heq
    obtain ⟨w, s, w', -, -, hreads, -⟩ := htext'
    exact hreads.num_mem hmem
  · intro hzero
    constructor
    · rintro ⟨evs, htext, hlimits⟩
      refine ⟨evs, ?_, hlimits⟩
      have hnum := hzero evs htext hlimits
      obtain ⟨w, s, w', hbuf, hw, hreads, hw'⟩ := htext
      exact ⟨w, s, w', hbuf, hw, hreads.change fun key n hmem _ => hnum key n hmem, hw'⟩
    · rintro ⟨evs, htext, hlimits⟩
      exact ⟨evs, htext.lax, hlimits⟩

/-- The text `[1,-20]`: its numbers have no superfluous leading zero. -/
theorem scanBounded_exact_iff_no_leading_zero_array :
    ((scanBounded Kconfig.default record [] [91, 49, 44, 45, 50, 48, 93]).2 = .ok ↔
      ∃ evs, IsText RfcNumber [91, 49, 44, 45, 50, 48, 93] evs ∧ WithinLimits Kconfig.default evs) ↔
      ∀ evs, IsText LaxNumber [91, 49, 44, 45, 50, 48, 93] evs → WithinLimits Kconfig.default evs →
        ∀ key n, Event.num key n ∈ evs → RfcNumber n :=
  scanBounded_exact_iff_no_leading_zero Kconfig.default record record_accepting [] _

/-- The text `01` is accepted although it is no JSON text. -/
theorem leading_zero_accepted :
    ¬ ((scanBounded Kconfig.default record [] [48, 49]).2 = .ok ↔
      ∃ evs, IsText RfcNumber [48, 49] evs ∧ WithinLimits Kconfig.default evs) := by
  intro hexact
  have hok : (scanBounded Kconfig.default record [] [48, 49]).2 = .ok := by decide +kernel
  obtain ⟨evs, htext, hlimits⟩ := hexact.mp hok
  have hread : Kconfig.default.reading [48, 49] = some [.num [] [48, 49]] := by decide +kernel
  rw [(reading_eq_some_iff _ _ evs).mpr ⟨htext.lax, hlimits⟩] at hread
  cases hread
  obtain ⟨w, s, w', -, -, hreads, -⟩ := htext
  obtain ⟨sign, int, frac, exp, heq, hsign, hint, hfrac, hexp⟩ :=
    hreads.num_mem (List.mem_singleton_self _)
  rcases hsign with rfl | rfl
  · cases int with
    | nil => exact hint.1.1 rfl
    | cons c int =>
      rw [List.nil_append, List.cons_append, List.cons.injEq] at heq
      obtain rfl := heq.1
      have hzero := hint.2 rfl
      rw [List.cons.injEq] at hzero
      obtain rfl := hzero.2
      rcases hfrac with rfl | ⟨d, rfl, -⟩
      · rcases hexp with rfl | ⟨e, sign, d, rfl, he, -⟩
        · simp at heq
        · rcases he with rfl | rfl <;> simp at heq
      · simp at heq
  · simp at heq

end

end SerializeJson
end Breadboard
