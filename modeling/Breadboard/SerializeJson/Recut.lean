import Breadboard.SerializeJson.Rejecting
import Mathlib.Logic.Relation

/-!
# bb_serialize_json_scan - the same bytes, cut differently

Where the input is cut only decides how the text of a string is cut into chunks, and when a
chunk is handed over.  So a sink that joins chunks cannot tell one cutting from another, with
one exception: a raw control byte ends the scan before the run of bytes in front of it is
handed over, while a cut inside that run hands over what precedes it.  This holds of every
input, accepted or not.

Main results:

- Theorem `scanString_append_recuts`: a string read in one chunk and in two.
- Theorem `drive_append`: a chunk against the same bytes in two chunks.
-/

namespace Breadboard
namespace SerializeJson

open Foundations
open Scan (deliverCalls)

/-! ## Outcomes -/

section Outcomes

variable {σ : Type} {α β γ δ : Type}

/-- A scan followed by another, against a sink. -/
theorem deliver_bind (sink : σ → Call → σ × BbErr) (t : σ) (x : Scan α) (f : α → Scan β) :
    (x >>= f).deliver sink t =
      match x.deliver sink t with
      | (t', .ok a) => (f a).deliver sink t'
      | (t', .error e) => (t', .error e) := by
  obtain ⟨calls, result⟩ := x
  cases result with
  | error e =>
    change Scan.deliver sink t ⟨calls, .error e⟩ = _
    unfold Scan.deliver
    rcases deliverCalls sink t calls with ⟨t', e'⟩
    cases e' <;> rfl
  | ok a =>
    change Scan.deliver sink t ⟨calls ++ (f a).calls, (f a).result⟩ = _
    unfold Scan.deliver
    dsimp only
    rcases hd : deliverCalls sink t calls with ⟨t', e'⟩
    by_cases he' : e' = .ok
    · subst he'
      rw [deliverCalls_append_of_ok hd]
    · rw [deliverCalls_append_of_error hd he']
      cases e' <;> first | exact absurd rfl he' | rfl

/-- The sink may get from one state to the other by chunks that leave their strings open. -/
def Hears (sink : σ → Call → σ × BbErr) : σ → σ → Prop :=
  Relation.ReflTransGen fun t t' => ∃ key v p, sink t (.valueStrChunk key v false p) = (t', .ok)

/-- The sink may be full. -/
def Refuses (sink : σ → Call → σ × BbErr) : Prop :=
  ∃ t c, (sink t c).2 = .noSpace

/--
What a sink may make of the same bytes cut less and more finely; `spoils` is what must hold
for the cuts to show.
-/
inductive Recut (sink : σ → Call → σ × BbErr) (spoils : Prop) (R : α → β → Prop) :
    σ × Except BbErr α → σ × Except BbErr β → Prop
  | returns {a : α} {b : β} (t : σ) (h : R a b) : Recut sink spoils R (t, .ok a) (t, .ok b)
  | stops (t : σ) (e : BbErr) : Recut sink spoils R (t, .error e) (t, .error e)
  /-- Both run out of space, the finer one perhaps on an earlier part of a string. -/
  | fills (t t' : σ) (hfull : Refuses sink) :
      Recut sink spoils R (t, .error .noSpace) (t', .error .noSpace)
  /-- Both stop at the byte that is refused, the finer one has handed over more. -/
  | breaks {t t' : σ} (hspoils : spoils) (h : Hears sink t t') :
      Recut sink spoils R (t, .error .parseGrammar) (t', .error .parseGrammar)
  /-- The finer one has run out of space before the byte that is refused. -/
  | overruns {t t' : σ} (hspoils : spoils) (h : Refuses sink ∨ Hears sink t t') :
      Recut sink spoils R (t, .error .parseGrammar) (t', .error .noSpace)

/-- The second scan is the first with its input cut more finely. -/
structure Recuts (spoils : Prop) (R : α → β → Prop) (x : Scan α) (y : Scan β) : Prop where
  recut : ∀ {σ : Type} (sink : σ → Call → σ × BbErr), JoinsChunks sink .noSpace → ∀ t,
    Recut sink spoils R (x.deliver sink t) (y.deliver sink t)

variable {spoils spoils' : Prop} {R : α → β → Prop} {S : γ → δ → Prop}

theorem Recuts.refl (x : Scan α) : Recuts spoils Eq x x := by
  refine ⟨fun sink _ t => ?_⟩
  rcases x.deliver sink t with ⟨t', _ | _⟩
  · exact .stops t' _
  · exact .returns t' rfl

/-- A weaker comparison. -/
theorem Recuts.imp {R' : α → β → Prop} {x : Scan α} {y : Scan β} (h : Recuts spoils R x y)
    (hspoils : spoils → spoils') (hR : ∀ a b, R a b → R' a b) : Recuts spoils' R' x y := by
  refine ⟨fun sink hjoins t => ?_⟩
  have hrecut := h.recut sink hjoins t
  generalize x.deliver sink t = p at hrecut
  generalize y.deliver sink t = q at hrecut
  cases hrecut with
  | returns t hab => exact .returns t (hR _ _ hab)
  | stops t e => exact .stops t e
  | fills t t' hfull => exact .fills t t' hfull
  | breaks hs hhears => exact .breaks (hspoils hs) hhears
  | overruns hs hfull => exact .overruns (hspoils hs) hfull

/-- What a delivered scan returns is what the scan returns. -/
theorem result_of_deliver {sink : σ → Call → σ × BbErr} {t t' : σ} {x : Scan α} {a : α}
    (h : x.deliver sink t = (t', .ok a)) : x.result = .ok a := by
  unfold Scan.deliver at h
  rcases hd : deliverCalls sink t x.calls with ⟨t₁, e⟩
  rw [hd] at h
  cases e <;> first | exact (Prod.mk.inj h).2 | cases h

/-- Scans that go on alike from the values they can return. -/
theorem Recuts.bind {x : Scan α} {y : Scan β} {f : α → Scan γ} {g : β → Scan δ}
    (h : Recuts spoils R x y)
    (hrest : ∀ a b, x.result = .ok a → R a b → Recuts spoils S (f a) (g b)) :
    Recuts spoils S (x >>= f) (y >>= g) := by
  refine ⟨fun sink hjoins t => ?_⟩
  rw [deliver_bind, deliver_bind]
  have hrecut := h.recut sink hjoins t
  rcases hx : x.deliver sink t with ⟨tx, rx⟩
  rcases hy : y.deliver sink t with ⟨ty, ry⟩
  rw [hx, hy] at hrecut
  cases hrecut with
  | returns _ hab => exact (hrest _ _ (result_of_deliver hx) hab).recut sink hjoins tx
  | stops _ e => exact .stops tx e
  | fills _ _ hfull => exact .fills tx ty hfull
  | breaks hs hhears => exact .breaks hs hhears
  | overruns hs hfull => exact .overruns hs hfull

/-- Cutting twice is cutting. -/
theorem Recuts.trans {x : Scan α} {y z : Scan β} (h : Recuts spoils R x y)
    (h' : Recuts spoils Eq y z) : Recuts spoils R x z := by
  refine ⟨fun sink hjoins t => ?_⟩
  have hxy := h.recut sink hjoins t
  have hyz := h'.recut sink hjoins t
  generalize x.deliver sink t = p at hxy
  generalize y.deliver sink t = q at hxy hyz
  generalize z.deliver sink t = r at hyz
  cases hyz with
  | returns t' hab =>
    subst hab
    exact hxy
  | stops t' e => exact hxy
  | fills t' t'' hfull =>
    cases hxy with
    | stops t e => exact .fills t' t'' hfull
    | fills t e hfull' => exact .fills t t'' hfull
    | overruns hs hfull' => exact .overruns hs (.inl hfull)
  | @breaks t' t'' hs hhears =>
    cases hxy with
    | stops t e => exact .breaks hs hhears
    | breaks hs' hhears' => exact .breaks hs' (hhears'.trans hhears)
  | @overruns t' t'' hs hfull =>
    cases hxy with
    | stops t e => exact .overruns hs hfull
    | breaks hs' hhears' => exact .overruns hs' (hfull.imp_right hhears'.trans)

theorem Scan.bind_assoc (x : Scan α) (f : α → Scan β) (g : β → Scan γ) :
    (x >>= f) >>= g = x >>= fun a => f a >>= g := by
  obtain ⟨calls, result⟩ := x
  cases result with
  | error e => rfl
  | ok a =>
    rcases hf : f a with ⟨calls', result'⟩
    cases result' with
    | error e =>
      change (⟨calls ++ (f a).calls, (f a).result⟩ : Scan β) >>= g =
        ⟨calls ++ (f a >>= g).calls, (f a >>= g).result⟩
      rw [hf]
      rfl
    | ok b =>
      change (⟨calls ++ (f a).calls, (f a).result⟩ : Scan β) >>= g =
        ⟨calls ++ (f a >>= g).calls, (f a >>= g).result⟩
      rw [hf]
      change (⟨(calls ++ calls') ++ (g b).calls, (g b).result⟩ : Scan γ) =
        ⟨calls ++ (calls' ++ (g b).calls), (g b).result⟩
      rw [List.append_assoc]

theorem Scan.pure_bind (a : α) (f : α → Scan β) : (pure a : Scan α) >>= f = f a := by
  change (⟨[] ++ (f a).calls, (f a).result⟩ : Scan β) = f a
  rw [List.nil_append]

theorem Scan.ite_bind {p : Prop} [Decidable p] (x y : Scan α) (f : α → Scan β) :
    (if p then x else y) >>= f = if p then x >>= f else y >>= f := by
  split <;> rfl

theorem Scan.fail_bind (e : BbErr) (f : α → Scan β) : (Scan.fail e : Scan α) >>= f = .fail e := rfl

theorem Scan.bind_pure (x : Scan α) : x >>= (fun a => pure a) = x := by
  obtain ⟨calls, result⟩ := x
  cases result with
  | error e => rfl
  | ok a =>
    change (⟨calls ++ [], .ok a⟩ : Scan α) = _
    rw [List.append_nil]

end Outcomes

/-! ## Handing over the text of a string -/

section Strings

variable {cfg : Kconfig}

theorem deliver_call {σ : Type} (sink : σ → Call → σ × BbErr) (t : σ) (c : Call) :
    (Scan.call c).deliver sink t =
      match sink t c with
      | (t', .ok) => (t', .ok ())
      | (t', e) => (t', .error e) := by
  unfold Scan.deliver Scan.call
  rcases hc : sink t c with ⟨t', e⟩
  by_cases he : e = .ok
  · subst he
    have hd : deliverCalls sink t [c] = (t', .ok) := deliverCalls_cons_of_ok hc []
    simp only [hd]
  · have hd : deliverCalls sink t [c] = (t', e) := deliverCalls_cons_of_error hc he []
    cases e <;> first | exact absurd rfl he | simp only [hd]

/-- One chunk against the same bytes in two. -/
theorem chunk_recuts (key v w : Bytes) (last : Bool) (p q r : Span) :
    Recuts False Eq (Scan.call (.valueStrChunk key (v ++ w) last p))
      (Scan.call (.valueStrChunk key v false q) >>= fun _ =>
        Scan.call (.valueStrChunk key w last r)) := by
  refine ⟨fun sink hjoins t => ?_⟩
  rw [deliver_bind, deliver_call, deliver_call, hjoins.provenance t key v false q p]
  rcases hv : sink t (.valueStrChunk key v false p) with ⟨t₁, e₁⟩
  rcases hvw : sink t (.valueStrChunk key (v ++ w) last p) with ⟨t₂, e₂⟩
  by_cases he₁ : e₁ = .ok
  · subst he₁
    have hsame := hjoins.join t t₁ key v w last p hv
    dsimp only
    rw [deliver_call, hjoins.provenance t₁ key w last r p]
    rcases hw : sink t₁ (.valueStrChunk key w last p) with ⟨t₃, e₃⟩
    rw [hw, hvw] at hsame
    obtain ⟨rfl, hsame⟩ : e₃ = e₂ ∧ (e₃ ≠ .noSpace → (t₃, e₃) = (t₂, e₂)) := hsame
    by_cases hfull : e₃ = .noSpace
    · subst hfull
      exact .fills t₂ t₃ ⟨_, _, congrArg Prod.snd hw⟩
    · cases hsame hfull
      cases e₃ <;> first | exact .returns _ rfl | exact .stops _ _
  · have hrefused := hjoins.refuse t key v w last p (by rwa [hv])
    rw [hv, hvw] at hrefused
    obtain ⟨rfl, rfl⟩ : e₁ = .noSpace ∧ e₂ = .noSpace := hrefused
    exact .fills t₂ t₁ ⟨_, _, congrArg Prod.snd hv⟩

/-- Bytes handed over in one piece and in two. -/
theorem emitStrBytes_recuts (isKey : Bool) (s : ScanState) (v w : Bytes) (last : Bool) (p q : Span)
    (r : ScanState → Span) :
    Recuts False Eq (emitStrBytes cfg s (v ++ w) last isKey p)
      (emitStrBytes cfg s v false isKey q >>= fun s => emitStrBytes cfg s w last isKey (r s)) := by
  cases isKey with
  | true =>
    have hsame : emitStrBytes cfg s (v ++ w) last true p =
        (emitStrBytes cfg s v false true q >>= fun s => emitStrBytes cfg s w last true (r s)) := by
      simp only [emitStrBytes, if_true, scratchAppend]
      by_cases hv : cfg.scratchMaxBytes < s.scratch.length + v.length
      · rw [if_pos hv, if_pos (by rw [List.length_append]; omega), Scan.fail_bind]
      · rw [if_neg hv, Scan.pure_bind]
        simp only [List.length_append, List.append_assoc, Nat.add_assoc]
    rw [hsame]
    exact .refl _
  | false =>
    simp only [emitStrBytes, Bool.false_eq_true, if_false]
    rw [Scan.bind_assoc]
    have hchunk := chunk_recuts s.curKey v w last p q (r s)
    have hsame (u : Unit) : (pure s : Scan ScanState) >>= (fun s' => do
        Scan.call (.valueStrChunk s'.curKey w last (r s'))
        pure s') = Scan.call (.valueStrChunk s.curKey w last (r s)) >>= fun _ => pure s :=
      Scan.pure_bind _ _
    have hrest := Recuts.bind (S := Eq) hchunk fun _ _ _ _ => Recuts.refl (pure s : Scan ScanState)
    rw [Scan.bind_assoc] at hrest
    exact hrest

/-- What goes on behind bytes that were handed over sees the escape phase from before. -/
theorem emitStrBytes_bind_congr {α : Type} {isKey last : Bool} {s : ScanState} {data : Bytes}
    {p : Span} {f g : ScanState → Scan α} (h : ∀ s', s'.escPhase = s.escPhase → f s' = g s') :
    emitStrBytes cfg s data last isKey p >>= f = emitStrBytes cfg s data last isKey p >>= g := by
  unfold emitStrBytes scratchAppend
  cases isKey with
  | true =>
    rw [if_pos rfl]
    split
    · rfl
    · rw [Scan.pure_bind, Scan.pure_bind]
      exact h _ rfl
  | false =>
    rw [if_neg (by decide), Scan.bind_assoc, Scan.bind_assoc, Scan.pure_bind, Scan.pure_bind,
      h s rfl]

theorem flushRun_bind_congr {α : Type} {isKey : Bool} {s : ScanState} {run : Bytes}
    {f g : ScanState → Scan α} (h : ∀ s', s'.escPhase = s.escPhase → f s' = g s') :
    flushRun cfg isKey s run >>= f = flushRun cfg isKey s run >>= g := by
  unfold flushRun
  split
  · rw [Scan.pure_bind, Scan.pure_bind]
    exact h s rfl
  · exact emitStrBytes_bind_congr h

/-- A run handed over in one piece and in two. -/
theorem flushRun_recuts (isKey : Bool) (s : ScanState) (v w : Bytes) :
    Recuts False Eq (flushRun cfg isKey s (v ++ w))
      (flushRun cfg isKey s v >>= fun s => flushRun cfg isKey s w) := by
  by_cases hv : v = []
  · subst hv
    have hnil : flushRun cfg isKey s [] = pure s := if_pos rfl
    rw [hnil, Scan.pure_bind]
    exact .refl _
  by_cases hw : w = []
  · subst hw
    have hnil : (fun s => flushRun cfg isKey s []) = fun s => pure s := funext fun s => if_pos rfl
    rw [hnil, Scan.bind_pure, List.append_nil]
    exact .refl _
  · have hsplit := @emitStrBytes_recuts cfg isKey s v w false s.directSpanProvenance
      s.directSpanProvenance ScanState.directSpanProvenance
    have hflush (s : ScanState) {run : Bytes} (hrun : run ≠ []) :
        flushRun cfg isKey s run = emitStrBytes cfg s run false isKey s.directSpanProvenance :=
      if_neg hrun
    rw [hflush s hv, hflush s (by simp [hv])]
    rw [funext fun s => hflush s hw]
    exact hsplit

/-- The last bytes of a string, the first of them handed over before. -/
theorem flushRun_emit_recuts (isKey : Bool) (s : ScanState) (v w : Bytes) :
    Recuts False Eq (emitStrBytes cfg s (v ++ w) true isKey s.directSpanProvenance)
      (flushRun cfg isKey s v >>= fun s =>
        emitStrBytes cfg s w true isKey s.directSpanProvenance) := by
  by_cases hv : v = []
  · subst hv
    have hnil : flushRun cfg isKey s [] = pure s := if_pos rfl
    rw [hnil, Scan.pure_bind]
    exact .refl _
  · have hflush :
        flushRun cfg isKey s v = emitStrBytes cfg s v false isKey s.directSpanProvenance :=
      if_neg hv
    rw [hflush]
    exact emitStrBytes_recuts isKey s v w true _ _ _

/-- A scan that fails where it stands, against one that hands over a run before. -/
theorem fail_recuts {α : Type} {spoils : Prop} (hspoils : spoils) (isKey : Bool) (s : ScanState)
    (run : Bytes) :
    Recuts spoils Eq (.fail .parseGrammar : Scan α)
      (flushRun cfg isKey s run >>= fun _ => .fail .parseGrammar) := by
  refine ⟨fun sink hjoins t => ?_⟩
  rw [deliver_bind]
  have hfail : ∀ t', (Scan.fail .parseGrammar : Scan α).deliver sink t' =
      (t', .error .parseGrammar) := fun _ => rfl
  rw [hfail]
  unfold flushRun emitStrBytes scratchAppend
  by_cases hrun : run = []
  · rw [if_pos hrun]
    exact .stops t _
  · rw [if_neg hrun]
    cases isKey with
    | true =>
      rw [if_pos rfl]
      by_cases hroom : cfg.scratchMaxBytes < s.scratch.length + run.length
      · rw [if_pos hroom]
        exact .overruns hspoils (.inr .refl)
      · rw [if_neg hroom]
        exact .stops t _
    | false =>
      rw [if_neg (by decide), deliver_bind, deliver_call]
      rcases hc : sink t (.valueStrChunk s.curKey run false s.directSpanProvenance) with ⟨t', e⟩
      by_cases he : e = .ok
      · subst he
        exact .breaks hspoils (.single ⟨_, _, _, hc⟩)
      · have hrefused := (hjoins.refuse t s.curKey run [] false s.directSpanProvenance
          (by rwa [hc])).1
        rw [hc] at hrefused
        obtain rfl : e = .noSpace := hrefused
        exact .overruns hspoils (.inl ⟨_, _, congrArg Prod.snd hc⟩)

/-- A weaker reason for the cuts to show, on equal results. -/
theorem Recuts.spoiled {α : Type} {spoils spoils' : Prop} {x y : Scan α} (h : Recuts spoils Eq x y)
    (hspoils : spoils → spoils') : Recuts spoils' Eq x y :=
  h.imp hspoils fun _ _ heq => heq

/-- Scans that go on in the same way. -/
theorem Recuts.bind_same {α β : Type} {spoils : Prop} {x y : Scan α} {f : α → Scan β}
    (h : Recuts spoils Eq x y) : Recuts spoils Eq (x >>= f) (y >>= f) :=
  h.bind fun a _ _ heq => heq ▸ .refl (f a)

section

variable {isKey : Bool} {s : ScanState} (hesc : s.escPhase = .none) (run rest : Bytes)

include hesc

theorem scanString_quote :
    scanString cfg isKey s run (34 :: rest) =
      emitStrBytes cfg s run true isKey s.directSpanProvenance >>=
        fun s => pure (s, rest, true) := by
  rw [scanString, if_neg (not_not_intro hesc), if_pos rfl]

theorem scanString_backslash :
    scanString cfg isKey s run (92 :: rest) =
      flushRun cfg isKey s run >>= fun s =>
        scanString cfg isKey { s with escPhase := .backslash } [] rest := by
  rw [scanString, if_neg (not_not_intro hesc), if_neg (by decide), if_pos rfl]

theorem scanString_control {c : UInt8} (hc : c < 32) :
    scanString cfg isKey s run (c :: rest) = .fail .parseGrammar := by
  have hquote : c ≠ 34 := by
    rintro rfl
    exact absurd hc (by decide)
  have hback : c ≠ 92 := by
    rintro rfl
    exact absurd hc (by decide)
  rw [scanString, if_neg (not_not_intro hesc), if_neg hquote, if_neg hback, if_pos hc]

theorem scanString_plain {c : UInt8} (hquote : c ≠ 34) (hback : c ≠ 92) (hc : ¬ c < 32) :
    scanString cfg isKey s run (c :: rest) = scanString cfg isKey s (run ++ [c]) rest := by
  rw [scanString, if_neg (not_not_intro hesc), if_neg hquote, if_neg hback, if_neg hc]

end

/-- A string read on behind a pending run, the first part of the run handed over before. -/
theorem scanString_flush_recuts (isKey : Bool) {s : ScanState} (hesc : s.escPhase = .none)
    (v w input : Bytes) :
    Recuts (∃ c ∈ input, c < 32) Eq (scanString cfg isKey s (v ++ w) input)
      (flushRun cfg isKey s v >>= fun s => scanString cfg isKey s w input) := by
  have hflush := @flushRun_recuts cfg isKey s v w
  induction input generalizing w with
  | nil =>
    have hright : (flushRun cfg isKey s v >>= fun s => scanString cfg isKey s w []) =
        (flushRun cfg isKey s v >>= fun s => flushRun cfg isKey s w) >>= fun s =>
          pure (s, [], false) := by
      rw [Scan.bind_assoc]
      exact flushRun_bind_congr fun s' _ => by rw [scanString]
    rw [hright, scanString]
    exact (hflush.spoiled False.elim).bind_same
  | cons c rest ih =>
    by_cases hquote : c = 34
    · subst hquote
      have hright : (flushRun cfg isKey s v >>= fun s => scanString cfg isKey s w (34 :: rest)) =
          (flushRun cfg isKey s v >>= fun s =>
            emitStrBytes cfg s w true isKey s.directSpanProvenance) >>= fun s =>
              pure (s, rest, true) := by
        rw [Scan.bind_assoc]
        exact flushRun_bind_congr fun s' hs' => scanString_quote (hs'.trans hesc) w rest
      rw [hright, scanString_quote hesc]
      exact ((flushRun_emit_recuts isKey s v w).spoiled False.elim).bind_same
    by_cases hback : c = 92
    · subst hback
      have hright : (flushRun cfg isKey s v >>= fun s => scanString cfg isKey s w (92 :: rest)) =
          (flushRun cfg isKey s v >>= fun s => flushRun cfg isKey s w) >>= fun s =>
            scanString cfg isKey { s with escPhase := .backslash } [] rest := by
        rw [Scan.bind_assoc]
        exact flushRun_bind_congr fun s' hs' => scanString_backslash (hs'.trans hesc) w rest
      rw [hright, scanString_backslash hesc]
      exact (hflush.spoiled False.elim).bind_same
    by_cases hc : c < 32
    · have hright : (flushRun cfg isKey s v >>= fun s => scanString cfg isKey s w (c :: rest)) =
          flushRun cfg isKey s v >>= fun _ => .fail .parseGrammar :=
        flushRun_bind_congr fun s' hs' => scanString_control (hs'.trans hesc) w rest hc
      rw [hright, scanString_control hesc _ rest hc]
      exact fail_recuts ⟨c, List.mem_cons_self .., hc⟩ isKey s v
    · have hright : (flushRun cfg isKey s v >>= fun s => scanString cfg isKey s w (c :: rest)) =
          flushRun cfg isKey s v >>= fun s => scanString cfg isKey s (w ++ [c]) rest :=
        flushRun_bind_congr fun s' hs' => scanString_plain (hs'.trans hesc) w rest hquote hback hc
      rw [hright, scanString_plain hesc _ rest hquote hback hc, List.append_assoc]
      exact (ih (w ++ [c]) (flushRun_recuts isKey s v _)).spoiled fun hbad =>
        hbad.imp fun _ hd => ⟨List.mem_cons_of_mem _ hd.1, hd.2⟩

/-- An escape that is complete leaves the escape phase. -/
theorem scanEscapeByte_done {s s' : ScanState} {c : UInt8} {out : Bytes}
    (h : scanEscapeByte s c = .ok (s', out)) (hout : out ≠ []) : s'.escPhase = .none := by
  unfold scanEscapeByte at h
  dsimp only at h
  split at h <;> repeat' split at h
  all_goals cases h
  all_goals first | rfl | exact absurd rfl hout

/-- How a string goes on in the next chunk. -/
def resume (read : ScanState → Bytes → Scan (ScanState × Bytes × Bool)) (y : Bytes) :
    ScanState × Bytes × Bool → Scan (ScanState × Bytes × Bool)
  | (s, rest, true) => pure (s, rest ++ y, true)
  | (s, _, false) => read s y

/-- A string read in one chunk and in two. -/
theorem scanString_append_recuts (isKey : Bool) {s : ScanState} {run : Bytes}
    (hrun : run ≠ [] → s.escPhase = .none) (x y : Bytes) :
    Recuts (∃ c ∈ y, c < 32) Eq (scanString cfg isKey s run (x ++ y))
      (scanString cfg isKey s run x >>=
        resume (fun s => scanString cfg isKey s []) y) := by
  induction x generalizing s run with
  | nil =>
    have hright : scanString cfg isKey s run [] >>= resume (fun s => scanString cfg isKey s []) y =
        flushRun cfg isKey s run >>= fun s => scanString cfg isKey s [] y := by
      rw [scanString, Scan.bind_assoc]
      rfl
    rw [hright, List.nil_append]
    by_cases hempty : run = []
    · subst hempty
      have hnil : flushRun cfg isKey s [] = pure s := if_pos rfl
      rw [hnil, Scan.pure_bind]
      exact .refl _
    · have hflush := @scanString_flush_recuts cfg isKey s (hrun hempty) run [] y
      rwa [List.append_nil] at hflush
  | cons c rest ih =>
    have hnone : ([] : Bytes) ≠ [] → s.escPhase = .none := fun hne => absurd rfl hne
    by_cases hesc : s.escPhase = .none
    · rw [List.cons_append]
      by_cases hquote : c = 34
      · subst hquote
        rw [scanString_quote hesc, scanString_quote hesc, Scan.bind_assoc]
        exact .refl _
      by_cases hback : c = 92
      · subst hback
        rw [scanString_backslash hesc, scanString_backslash hesc, Scan.bind_assoc]
        exact (Recuts.refl _).bind fun a b _ hab => hab ▸ ih fun hne => absurd rfl hne
      by_cases hc : c < 32
      · rw [scanString_control hesc _ _ hc, scanString_control hesc _ _ hc]
        exact .refl _
      · rw [scanString_plain hesc _ _ hquote hback hc, scanString_plain hesc _ _ hquote hback hc]
        exact ih fun _ => hesc
    · rw [List.cons_append, scanString, scanString, if_pos hesc, if_pos hesc]
      cases hbyte : scanEscapeByte s c with
      | error e => exact .refl _
      | ok p =>
        obtain ⟨s', out⟩ := p
        dsimp only
        by_cases hout : out = []
        · rw [if_pos hout, if_pos hout]
          exact ih fun hne => absurd rfl hne
        rw [if_neg hout, if_neg hout]
        have hdone := scanEscapeByte_done hbyte hout
        cases rest with
        | cons d rest =>
          by_cases hquote : d = 34
          · subst hquote
            rw [List.cons_append, List.head?_cons, List.head?_cons, if_pos rfl, if_pos rfl,
              Scan.bind_assoc]
            exact .refl _
          · have hhead : ¬ some d = some 34 := fun h => hquote (Option.some.inj h)
            rw [List.cons_append, List.head?_cons, List.head?_cons, if_neg hhead, if_neg hhead,
              Scan.bind_assoc]
            exact (Recuts.refl _).bind fun a b _ hab => hab ▸ ih fun hne => absurd rfl hne
        | nil =>
          have hempty (s : ScanState) : scanString cfg isKey s [] [] = pure (s, [], false) := by
            rw [scanString, flushRun, if_pos rfl, Scan.pure_bind]
          have hright : (emitStrBytes cfg s' out false isKey .scannerScratch >>= fun s =>
                scanString cfg isKey s [] []) >>= resume (fun s => scanString cfg isKey s []) y =
              emitStrBytes cfg s' out false isKey .scannerScratch >>= fun s =>
                scanString cfg isKey s [] y := by
            rw [Scan.bind_assoc]
            exact emitStrBytes_bind_congr fun s _ => by rw [hempty, Scan.pure_bind, resume]
          have hnil : ¬ ([] : Bytes).head? = some 34 := by simp
          rw [if_neg hnil, List.nil_append, hright]
          by_cases hquote : y.head? = some 34
          · -- The cut parts the escape from the quote that is folded into its call.
            obtain ⟨y, rfl⟩ := List.head?_eq_some_iff.mp hquote
            have hclose : (emitStrBytes cfg s' out false isKey .scannerScratch >>= fun s =>
                  scanString cfg isKey s [] (34 :: y)) =
                (emitStrBytes cfg s' out false isKey .scannerScratch >>= fun s =>
                  emitStrBytes cfg s [] true isKey s.directSpanProvenance) >>= fun s =>
                    pure (s, y, true) := by
              rw [Scan.bind_assoc]
              exact emitStrBytes_bind_congr fun s hs => scanString_quote (hs.trans hdone) [] y
            have hsplit := @emitStrBytes_recuts cfg isKey s' out [] true .scannerScratch
              .scannerScratch ScanState.directSpanProvenance
            rw [List.append_nil] at hsplit
            rw [List.head?_cons, if_pos rfl, hclose]
            exact (hsplit.spoiled False.elim).bind_same
          · rw [if_neg hquote]
            exact .refl _

end Strings

/-! ## Numbers and literals -/

section Tokens

variable {cfg : Kconfig}

/-- A number read in one chunk and in two. -/
theorem scanNumber_append (s : ScanState) (x y : Bytes) :
    scanNumber cfg s (x ++ y) = scanNumber cfg s x >>= resume (scanNumber cfg) y := by
  induction x generalizing s with
  | nil => rfl
  | cons c rest ih =>
    rw [List.cons_append, scanNumber, scanNumber]
    cases numStep s.numPhase c with
    | malformed => rfl
    | finished => rfl
    | next p =>
      dsimp only
      rw [Scan.bind_assoc]
      exact congrArg _ (funext fun s => ih _)

/-- A literal read in one chunk and in two. -/
theorem scanLiteral_append (s : ScanState) (x y : Bytes) :
    scanLiteral s (x ++ y) = scanLiteral s x >>= resume scanLiteral y := by
  induction x generalizing s with
  | nil => rfl
  | cons c rest ih =>
    rw [List.cons_append, scanLiteral, scanLiteral]
    by_cases hc : s.litKind.text[s.litMatched]? ≠ some c
    · rw [if_pos hc, if_pos hc]
      rfl
    · rw [if_neg hc, if_neg hc]
      dsimp only
      split
      · rfl
      · exact ih _

end Tokens

/-! ## The drive loop -/

section Drive

variable {cfg : Kconfig} {s : ScanState}

/-- The scan state stands for a state of the machine. -/
def Proper (cfg : Kconfig) (s : ScanState) : Prop :=
  ∃ g m, Abs cfg s g m

/-- An iteration of the loop gets closer to the end. -/
theorem Proper.driveStep (h : Proper cfg s) {input : Bytes} (hinput : input ≠ [])
    {p : ScanState × Bytes} (hp : (driveStep cfg s input).result = .ok p) :
    Proper cfg p.1 ∧ 2 * p.2.length + p.1.busy < 2 * input.length + s.busy := by
  obtain ⟨g, m, habs⟩ := h
  have hsim := driveStep_simulates habs hinput
  unfold Simulates Scan.Yields at hsim
  rw [hp] at hsim
  obtain ⟨evs, g', -, ⟨M, habs', -⟩, hlt⟩ := hsim
  exact ⟨⟨g', M, habs'⟩, hlt⟩

theorem Scan.bind_congr {α β : Type} {x : Scan α} {f g : α → Scan β}
    (h : ∀ a, x.result = .ok a → f a = g a) : x >>= f = x >>= g := by
  obtain ⟨calls, result⟩ := x
  cases result with
  | error e => rfl
  | ok a =>
    change (⟨calls ++ (f a).calls, (f a).result⟩ : Scan β) = ⟨calls ++ (g a).calls, (g a).result⟩
    rw [h a rfl]

theorem driveLoop_nil (fuel : Nat) (s : ScanState) : driveLoop cfg fuel s [] = pure s := by
  cases fuel <;> rfl

/-- Every bound that is large enough gives the same loop. -/
theorem driveLoop_eq (h : Proper cfg s) {input : Bytes} {fuel fuel' : Nat}
    (hfuel : 2 * input.length + s.busy ≤ fuel) (hfuel' : 2 * input.length + s.busy ≤ fuel') :
    driveLoop cfg fuel s input = driveLoop cfg fuel' s input := by
  induction fuel generalizing s input fuel' with
  | zero =>
    obtain rfl : input = [] := List.length_eq_zero_iff.mp (by omega)
    rw [driveLoop_nil, driveLoop_nil]
  | succ fuel ih =>
    cases input with
    | nil => rw [driveLoop_nil, driveLoop_nil]
    | cons c input =>
      rw [List.length_cons] at hfuel'
      obtain ⟨fuel', rfl⟩ : ∃ n, fuel' = n + 1 := ⟨fuel' - 1, by omega⟩
      rw [driveLoop, driveLoop]
      refine Scan.bind_congr fun p hp => ?_
      obtain ⟨hproper, hlt⟩ := h.driveStep (by simp) hp
      rw [List.length_cons] at hfuel hlt
      exact ih hproper (by omega) (by omega)

theorem drive_nil (s : ScanState) : drive cfg s [] = pure s :=
  driveLoop_nil _ s

/-- One iteration of the loop, then the loop. -/
theorem drive_unfold (h : Proper cfg s) {input : Bytes} (hinput : input ≠ []) :
    drive cfg s input = driveStep cfg s input >>= fun p => drive cfg p.1 p.2 := by
  obtain ⟨c, rest, rfl⟩ := List.exists_cons_of_ne_nil hinput
  have hbusy := s.busy_le
  rw [drive, driveLoop]
  refine Scan.bind_congr fun p hp => ?_
  obtain ⟨hproper, hlt⟩ := h.driveStep (by simp) hp
  have hbusy' := p.1.busy_le
  exact driveLoop_eq hproper (by omega) (by omega)

theorem Scan.result_bind {α β : Type} {x : Scan α} {f : α → Scan β} {a : α}
    (h : x.result = .ok a) : (x >>= f).result = (f a).result := by
  obtain ⟨calls, result⟩ := x
  cases h
  rfl

/-- The loop goes on behind what an iteration left of the chunk. -/
abbrev driveOn (cfg : Kconfig) (p : ScanState × Bytes) : Scan ScanState :=
  drive cfg p.1 p.2

/-- What an iteration leaves when there is more behind the chunk. -/
abbrev withMore (y : Bytes) (p : ScanState × Bytes) : Scan (ScanState × Bytes) :=
  pure (p.1, p.2 ++ y)

theorem withMore_bind (x : Scan (ScanState × Bytes)) (y : Bytes) :
    (x >>= withMore y) >>= driveOn cfg = x >>= fun p => drive cfg p.1 (p.2 ++ y) := by
  rw [Scan.bind_assoc]
  exact Scan.bind_congr fun p _ => Scan.pure_bind _ _

/-- An iteration that skips white space and looks at one byte. -/
theorem driveStep_append_of_skips (h : Proper cfg s) {f : UInt8 → Bytes → Scan (ScanState × Bytes)}
    (hstep : ∀ input, driveStep cfg s input =
      match skipWs input with
      | [] => pure (s, [])
      | c :: rest => f c rest)
    (x : Bytes) {y : Bytes} (hy : y ≠ [])
    (hmore : ∀ c rest, f c (rest ++ y) = f c rest >>= withMore y) :
    driveStep cfg s (x ++ y) >>= driveOn cfg =
      driveStep cfg s x >>= fun p => drive cfg p.1 (p.2 ++ y) := by
  have hskip : skipWs (x ++ y) = if (skipWs x).isEmpty then skipWs y else skipWs x ++ y :=
    List.dropWhile_append
  rw [hstep x, hstep (x ++ y), hskip]
  cases hx : skipWs x with
  | nil =>
    rw [Scan.pure_bind, List.nil_append, drive_unfold h hy, hstep y]
    rfl
  | cons c rest =>
    change f c (rest ++ y) >>= driveOn cfg = _
    rw [hmore, withMore_bind]

/-- An iteration that reads on in a string, number or literal. -/
theorem driveStep_append_of_reads {spoils : Prop} (h : Proper cfg s)
    (read : ScanState → Bytes → Scan (ScanState × Bytes × Bool))
    {close : ScanState × Bytes × Bool → Scan (ScanState × Bytes)}
    (hstep : ∀ s', s'.phase = s.phase → ∀ input, driveStep cfg s' input = read s' input >>= close)
    {x y : Bytes} (hx : x ≠ []) (hy : y ≠ [])
    (happend : Recuts spoils Eq (read s (x ++ y)) (read s x >>= resume read y))
    (hclosed : ∀ s' rest, close (s', rest ++ y, true) = close (s', rest, true) >>= withMore y)
    (hopen : ∀ s' rest, close (s', rest, false) = pure (s', rest))
    (hpaused : ∀ s' rest, (read s x).result = .ok (s', rest, false) →
      rest = [] ∧ s'.phase = s.phase) :
    Recuts spoils Eq (driveStep cfg s (x ++ y) >>= driveOn cfg)
      (driveStep cfg s x >>= fun p => drive cfg p.1 (p.2 ++ y)) := by
  rw [hstep s rfl, hstep s rfl, Scan.bind_assoc, Scan.bind_assoc]
  have hsame : (read s x >>= resume read y) >>= (fun p => close p >>= driveOn cfg) =
      read s x >>= fun p => close p >>= fun p => drive cfg p.1 (p.2 ++ y) := by
    rw [Scan.bind_assoc]
    refine Scan.bind_congr fun p hp => ?_
    obtain ⟨s', rest, closed⟩ := p
    cases closed with
    | true => rw [resume, Scan.pure_bind, hclosed, withMore_bind]
    | false =>
      obtain ⟨rfl, hphase⟩ := hpaused s' rest hp
      have hresult : (driveStep cfg s x).result = .ok (s', []) := by
        rw [hstep s rfl, Scan.result_bind hp, hopen]
        rfl
      have hproper := (h.driveStep hx hresult).1
      rw [resume, hopen, Scan.pure_bind, List.nil_append, drive_unfold hproper hy, hstep s' hphase,
        Scan.bind_assoc]
  rw [← hsame]
  exact happend.bind_same

/-- The phases of the states that are not inside a token. -/
theorem afterValuePhase_mem (s : ScanState) :
    s.afterValuePhase = .afterRoot ∨ s.afterValuePhase = .arrAfterValue ∨
      s.afterValuePhase = .objAfterValue := by
  unfold ScanState.afterValuePhase
  split <;> simp

/-- A string that the chunk does not close leaves nothing of the chunk. -/
theorem scanString_paused (h : Proper cfg s) {isKey : Bool}
    (hphase : s.phase = if isKey then .keyStr else .valStr) {x rest : Bytes} {s' : ScanState}
    (hresult : (scanString cfg isKey s [] x).result = .ok (s', rest, false)) :
    rest = [] ∧ s'.phase = s.phase := by
  obtain ⟨g, m, habs⟩ := h
  cases habs.shape with
  | @str _ isKey' st key w hstr hesc =>
    obtain rfl : isKey = isKey' := by
      have hphase' := hstr.phase
      rw [hphase] at hphase'
      cases isKey <;> cases isKey' <;> first | rfl | cases hphase'
    have hfits : StrFits cfg isKey st key w := by cases isKey <;> exact habs.within
    have hsim := scanString_simulates hstr hesc hfits
      (show ([] : Bytes) ≠ [] → _ from fun hne => absurd rfl hne) (by simp) x
    unfold StrScans Scan.Yields at hsim
    rw [hresult] at hsim
    obtain ⟨evs, g', -, -, hrest, w', habs', -⟩ := hsim
    exact ⟨hrest, habs'.phase.trans hphase.symm⟩
  | after hafter =>
    rcases afterValuePhase_mem s with h | h | h <;> rw [hafter, h] at hphase <;>
      cases isKey <;> cases hphase
  | _ => simp_all; cases isKey <;> simp_all

theorem scanNumber_paused (h : Proper cfg s) (hphase : s.phase = .valNum) {x rest : Bytes}
    {s' : ScanState} (hresult : (scanNumber cfg s x).result = .ok (s', rest, false)) :
    rest = [] ∧ s'.phase = s.phase := by
  obtain ⟨g, m, habs⟩ := h
  cases habs.shape with
  | num _ hkey =>
    have hsim := scanNumber_simulates ⟨habs.err, hphase, hkey, habs.within⟩ x
    unfold Scan.Yields at hsim
    rw [hresult] at hsim
    obtain ⟨evs, g', -, -, -, habs', -, -, -, hrest⟩ := hsim
    exact ⟨hrest, habs'.phase.trans hphase.symm⟩
  | after hafter => exact absurd (hafter.symm.trans hphase) (afterValuePhase_ne s)
  | @str _ isKey _ _ _ hstr =>
    rw [hstr.phase] at hphase
    cases isKey <;> cases hphase
  | _ => simp_all

theorem scanLiteral_paused (h : Proper cfg s) (hphase : s.phase = .valLit) {x rest : Bytes}
    {s' : ScanState} (hresult : (scanLiteral s x).result = .ok (s', rest, false)) :
    rest = [] ∧ s'.phase = s.phase := by
  obtain ⟨g, m, habs⟩ := h
  cases habs.shape with
  | lit _ htext =>
    have hsim := scanLiteral_simulates htext habs.within x
    unfold Scan.Yields at hsim
    rw [hresult] at hsim
    obtain ⟨evs, g', -, -, -, ⟨n, rfl⟩, hrest, -⟩ := hsim
    exact ⟨hrest, rfl⟩
  | after hafter =>
    rcases afterValuePhase_mem s with h | h | h <;> rw [hafter, h] at hphase <;> cases hphase
  | @str _ isKey _ _ _ hstr =>
    rw [hstr.phase] at hphase
    cases isKey <;> cases hphase
  | _ => simp_all

/-- One iteration, on a chunk and on the chunk with more behind it. -/
theorem driveStep_append (h : Proper cfg s) {x y : Bytes} (hx : x ≠ []) (hy : y ≠ []) :
    Recuts (∃ c ∈ y, c < 32) Eq (driveStep cfg s (x ++ y) >>= driveOn cfg)
      (driveStep cfg s x >>= fun p => drive cfg p.1 (p.2 ++ y)) := by
  have hskips {f : UInt8 → Bytes → Scan (ScanState × Bytes)}
      (hstep : ∀ input, driveStep cfg s input =
        match skipWs input with
        | [] => pure (s, [])
        | c :: rest => f c rest)
      (hmore : ∀ c rest, f c (rest ++ y) = f c rest >>= withMore y) :
      Recuts (∃ c ∈ y, c < 32) Eq (driveStep cfg s (x ++ y) >>= driveOn cfg)
        (driveStep cfg s x >>= fun p => drive cfg p.1 (p.2 ++ y)) := by
    rw [driveStep_append_of_skips h hstep x hy hmore]
    exact .refl _
  cases hphase : s.phase with
  | root =>
    refine hskips (fun input => by unfold driveStep; simp only [hphase]; rfl) fun c rest => ?_
    simp only [Scan.bind_assoc, Scan.pure_bind]
  | afterRoot =>
    exact hskips (fun input => by unfold driveStep; simp only [hphase]; rfl) fun c rest => rfl
  | objKeyOrClose =>
    refine hskips (fun input => by unfold driveStep; simp only [hphase]; rfl) fun c rest => ?_
    split_ifs <;> simp only [Scan.bind_assoc, Scan.pure_bind, Scan.fail_bind]
  | objKeyOnly =>
    refine hskips (fun input => by unfold driveStep; simp only [hphase]; rfl) fun c rest => ?_
    split_ifs <;> simp only [Scan.bind_assoc, Scan.pure_bind, Scan.fail_bind]
  | objColon =>
    refine hskips (fun input => by unfold driveStep; simp only [hphase]; rfl) fun c rest => ?_
    split_ifs <;> simp only [Scan.pure_bind, Scan.fail_bind]
  | objValue =>
    refine hskips (fun input => by unfold driveStep; simp only [hphase]; rfl) fun c rest => ?_
    simp only [Scan.bind_assoc, Scan.pure_bind]
  | objAfterValue =>
    refine hskips (fun input => by unfold driveStep; simp only [hphase]; rfl) fun c rest => ?_
    split_ifs <;> simp only [Scan.bind_assoc, Scan.pure_bind, Scan.fail_bind]
  | arrElemOrClose =>
    refine hskips (fun input => by unfold driveStep; simp only [hphase]; rfl) fun c rest => ?_
    split_ifs <;> simp only [Scan.bind_assoc, Scan.pure_bind]
  | arrElemOnly =>
    refine hskips (fun input => by unfold driveStep; simp only [hphase]; rfl) fun c rest => ?_
    split_ifs <;> simp only [Scan.bind_assoc, Scan.pure_bind]
  | arrAfterValue =>
    refine hskips (fun input => by unfold driveStep; simp only [hphase]; rfl) fun c rest => ?_
    split_ifs <;> simp only [Scan.bind_assoc, Scan.pure_bind, Scan.fail_bind]
  | keyStr =>
    refine driveStep_append_of_reads h (fun s => scanString cfg true s [])
      (fun s' hs' input => by unfold driveStep; simp only [hs'.trans hphase]; rfl) hx hy
      (scanString_append_recuts true (fun hne => absurd rfl hne) x y) ?_ ?_
      fun s' rest hr => @scanString_paused cfg s h true hphase _ _ _ hr
    · intro s' rest
      rfl
    · intro s' rest
      rfl
  | valStr =>
    refine driveStep_append_of_reads h (fun s => scanString cfg false s [])
      (fun s' hs' input => by unfold driveStep; simp only [hs'.trans hphase]; rfl) hx hy
      (scanString_append_recuts false (fun hne => absurd rfl hne) x y) ?_ ?_
      fun s' rest hr => @scanString_paused cfg s h false hphase _ _ _ hr
    · intro s' rest
      rfl
    · intro s' rest
      rfl
  | valNum =>
    refine driveStep_append_of_reads h (scanNumber cfg)
      (fun s' hs' input => by unfold driveStep; simp only [hs'.trans hphase]; rfl) hx hy
      (scanNumber_append s x y ▸ .refl _) ?_ ?_ fun s' rest hr => scanNumber_paused h hphase hr
    · intro s' rest
      simp only [if_true, Scan.bind_assoc, Scan.pure_bind]
    · intro s' rest
      rfl
  | valLit =>
    refine driveStep_append_of_reads h scanLiteral
      (fun s' hs' input => by unfold driveStep; simp only [hs'.trans hphase]; rfl) hx hy
      (scanLiteral_append s x y ▸ .refl _) ?_ ?_ fun s' rest hr => scanLiteral_paused h hphase hr
    · intro s' rest
      simp only [if_true, Scan.bind_assoc, Scan.pure_bind]
    · intro s' rest
      rfl

/-- A chunk against the same bytes in two chunks; the induction is on the first of the two. -/
theorem drive_append (h : Proper cfg s) (x y : Bytes) :
    Recuts (∃ c ∈ y, c < 32) Eq (drive cfg s (x ++ y))
      (drive cfg s x >>= fun s => drive cfg s y) := by
  induction hn : 2 * x.length + s.busy using Nat.strong_induction_on generalizing s x with
  | _ n ih =>
    by_cases hx : x = []
    · subst hx
      rw [drive_nil, Scan.pure_bind, List.nil_append]
      exact .refl _
    by_cases hy : y = []
    · subst hy
      have hnil : (fun s => drive cfg s []) = fun s => pure s := funext drive_nil
      rw [hnil, Scan.bind_pure, List.append_nil]
      exact .refl _
    · rw [drive_unfold h hx, drive_unfold h (by simp [hx]), Scan.bind_assoc]
      refine (driveStep_append h hx hy).trans ((Recuts.refl _).bind fun p q hp hpq => ?_)
      subst hpq
      obtain ⟨hproper, hlt⟩ := h.driveStep hx hp
      exact ih _ (hn ▸ hlt) hproper p.2 rfl

end Drive

end SerializeJson
end Breadboard
