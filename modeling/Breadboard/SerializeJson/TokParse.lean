import Breadboard.SerializeJson.PopulateTok
import Breadboard.SerializeJson.TokRecord

/-!
# bb_serialize_json - what the composed parser accepts

The scanner hands a string over in pieces when it holds an escape, and the recorder joins
the pieces in its arena.  Apart from the arena, recording the calls of a bounded scan is
recording the events of the text.

Main results:

- Theorem `scanBounded_tokSink_iff`: what is recorded, and when.
- Theorems `parseBytes_isOk_iff`, `parseBytes_pool`: what the composed parser
  accepts, and the pool it binds.
-/

namespace Breadboard
namespace SerializeJson

open Foundations Serialize
open Foundations.JsonText (Json Event IsText LaxNumber)
open Scan (deliverCalls)

/-! ## The arena -/

/--
The bytes of the strings that are not handed over in one piece of the caller's buffer; the
flag says that a string has been begun.
-/
def copiedBytes : Bool → List Call → Nat
  | _, [] => 0
  | isOpen, .valueStrChunk _ chunk isFinal provenance :: cs =>
    (if isOpen = false ∧ isFinal = true ∧ provenance = .callerStable then 0 else chunk.length) +
      copiedBytes (!isFinal) cs
  | isOpen, _ :: cs => copiedBytes isOpen cs

/-- The bytes of the strings of a text that have to be copied. -/
def escapedBytes (cfg : Kconfig) (buf : Bytes) : Nat :=
  copiedBytes false (scanBounded cfg record [] buf).1

section Follow

variable {lib : Libc} {cfg : Kconfig} {r r' : Recorder}

/-- The same pool and stack. -/
structure SameTokens (r r' : Recorder) : Prop where
  pool_eq : r.pool = r'.pool
  poolCap_eq : r.poolCap = r'.poolCap
  stack_eq : r.stack = r'.stack

/--
A recorder of pieces against one of whole strings.  With a string open, the first has made its
token and holds its bytes so far at the end of its arena.
-/
def Follows (r r' : Recorder) : Gathering → Prop
  | none => SameTokens r r' ∧ r.strOpen = none ∧ r'.strOpen = none
  | some (key, v) => ∃ start, r'.Admits key ∧ r'.strOpen = none ∧
      SameTokens r { r' with pool := r'.counted ++ [r'.newTok (.str []) false key] } ∧
      r.strOpen = some { tokIdx := r'.pool.length, arenaStart := start } ∧
      start ≤ r.arena.length ∧ r.arena.drop start = v

theorem SameTokens.admits_iff (h : SameTokens r r') (key : Bytes) : r.Admits key ↔ r'.Admits key := by
  unfold Recorder.Admits Recorder.parentFull
  rw [h.pool_eq, h.poolCap_eq, h.stack_eq]

theorem SameTokens.alloc (h : SameTokens r r') (val : TokVal) (numInexact : Bool) (key : Bytes) :
    SameTokens { r with pool := r.counted ++ [r.newTok val numInexact key] }
      { r' with pool := r'.counted ++ [r'.newTok val numInexact key] } := by
  unfold Recorder.counted Recorder.newTok
  rw [h.stack_eq, h.pool_eq]
  exact ⟨rfl, h.poolCap_eq, rfl⟩

/-- A call that is no string piece does the same to both. -/
theorem tokSink_same {e : Event} (he : ∀ key v, e ≠ .str key v) (h : Follows r r' none) :
    (tokSink lib cfg r (wholeCall e)).2 = (tokSink lib cfg r' (wholeCall e)).2 ∧
      Follows (tokSink lib cfg r (wholeCall e)).1 (tokSink lib cfg r' (wholeCall e)).1 none ∧
      (tokSink lib cfg r (wholeCall e)).1.arena = r.arena ∧
      (tokSink lib cfg r (wholeCall e)).1.arenaCap = r.arenaCap := by
  obtain ⟨hsame, hopen, hopen'⟩ := h
  have hvalue (val : TokVal) (numInexact : Bool) (key : Bytes) :
      (tokValue r val numInexact key).2 = (tokValue r' val numInexact key).2 ∧
        Follows (tokValue r val numInexact key).1 (tokValue r' val numInexact key).1 none ∧
        (tokValue r val numInexact key).1.arena = r.arena ∧
        (tokValue r val numInexact key).1.arenaCap = r.arenaCap := by
    by_cases hadmits : r.Admits key
    · rw [tokValue_of_admits hadmits, tokValue_of_admits ((hsame.admits_iff key).mp hadmits)]
      exact ⟨rfl, ⟨hsame.alloc val numInexact key, hopen, hopen'⟩, rfl, rfl⟩
    · unfold tokValue
      rw [tokAlloc_of_not_admits hadmits,
        tokAlloc_of_not_admits fun h' => hadmits ((hsame.admits_iff key).mpr h')]
      exact ⟨rfl, ⟨hsame, hopen, hopen'⟩, rfl, rfl⟩
  have hbegin (val : TokVal) (key : Bytes) :
      (tokBegin r val key).2 = (tokBegin r' val key).2 ∧
        Follows (tokBegin r val key).1 (tokBegin r' val key).1 none ∧
        (tokBegin r val key).1.arena = r.arena ∧ (tokBegin r val key).1.arenaCap = r.arenaCap := by
    unfold tokBegin
    rw [hsame.stack_eq]
    split
    · exact ⟨rfl, ⟨hsame, hopen, hopen'⟩, rfl, rfl⟩
    by_cases hadmits : r.Admits key
    · rw [tokAlloc_of_admits hadmits, tokAlloc_of_admits ((hsame.admits_iff key).mp hadmits)]
      have halloc := hsame.alloc val false key
      refine ⟨rfl, ⟨⟨halloc.pool_eq, hsame.poolCap_eq, ?_⟩, hopen, hopen'⟩, rfl, rfl⟩
      show r.pool.length :: r'.stack = r'.pool.length :: r'.stack
      rw [hsame.pool_eq]
    · rw [tokAlloc_of_not_admits hadmits,
        tokAlloc_of_not_admits fun h' => hadmits ((hsame.admits_iff key).mpr h')]
      exact ⟨rfl, ⟨hsame, hopen, hopen'⟩, rfl, rfl⟩
  have hend : (tokEnd r).2 = (tokEnd r').2 ∧ Follows (tokEnd r).1 (tokEnd r').1 none ∧
      (tokEnd r).1.arena = r.arena ∧ (tokEnd r).1.arenaCap = r.arenaCap := by
    unfold tokEnd
    rw [hsame.stack_eq]
    split
    · exact ⟨rfl, ⟨hsame, hopen, hopen'⟩, rfl, rfl⟩
    · exact ⟨rfl, ⟨⟨hsame.pool_eq, hsame.poolCap_eq, rfl⟩, hopen, hopen'⟩, rfl, rfl⟩
  cases e with
  | beginObj key => exact hbegin .obj key
  | beginArr key => exact hbegin .arr key
  | endObj => exact hend
  | endArr => exact hend
  | num key text => exact hvalue _ _ key
  | bool key v => exact hvalue _ _ key
  | null key => exact hvalue _ _ key
  | str key value => exact absurd rfl (he key value)

/-- A piece that is the whole string, or its last part, against the whole string. -/
theorem setStr_same {key v : Bytes} {start : Nat} (hsame : SameTokens r
      { r' with pool := r'.counted ++ [r'.newTok (.str []) false key] })
    (hv : r.arena.drop start = v) (hopen' : r'.strOpen = none) :
    Follows { r.setStr r'.pool.length (r.arena.drop start) with strOpen := none }
      { r' with pool := r'.counted ++ [r'.newTok (.str v) false key] } none := by
  refine ⟨⟨?_, hsame.poolCap_eq, hsame.stack_eq⟩, rfl, hopen'⟩
  unfold Recorder.setStr
  dsimp only
  rw [hsame.pool_eq, hv]
  dsimp only
  rw [modify_append_last _ _ (length_counted r').symm]
  rfl

/-- The bytes a piece of a string needs in the arena. -/
def pieceCost (g : Gathering) (chunk : Bytes) (isFinal : Bool) (provenance : Span) : Nat :=
  if g.isSome = false ∧ isFinal = true ∧ provenance = .callerStable then 0 else chunk.length

/-- The rest of a piece, once the string's token is made. -/
theorem tokStrAppend_follows {key chunk v₀ : Bytes} {start : Nat} (hadmits : r'.Admits key)
    (hopen' : r'.strOpen = none) (hsame : SameTokens r (r'.withStr key []))
    (hopen : r.strOpen = some { tokIdx := r'.pool.length, arenaStart := start })
    (hstart : start ≤ r.arena.length) (hv : r.arena.drop start = v₀)
    (hle : r.arena.length ≤ r.arenaCap) (isFinal : Bool) :
    (r.arenaCap < r.arena.length + chunk.length →
      (tokStrAppend r { tokIdx := r'.pool.length, arenaStart := start } chunk isFinal).2 ≠ .ok) ∧
    (r.arena.length + chunk.length ≤ r.arenaCap → ∃ r₁,
      tokStrAppend r { tokIdx := r'.pool.length, arenaStart := start } chunk isFinal = (r₁, .ok) ∧
      r₁.arena.length = r.arena.length + chunk.length ∧ r₁.arenaCap = r.arenaCap ∧
      if isFinal then Follows r₁ (r'.withStr key (v₀ ++ chunk)) none
      else Follows r₁ r' (some (key, v₀ ++ chunk))) := by
  have hdrop : (r.arena ++ chunk).drop start = v₀ ++ chunk := by
    rw [List.drop_append_of_le_length hstart, hv]
  constructor
  · intro hfull
    unfold tokStrAppend
    have hne : chunk ≠ [] := by
      rintro rfl
      simp only [List.length_nil, Nat.add_zero] at hfull
      omega
    rw [if_pos ⟨hne, hfull⟩]
    exact nofun
  · intro hroom
    unfold tokStrAppend
    rw [if_neg fun h => Nat.not_lt.mpr hroom h.2]
    dsimp only
    have hsame' : SameTokens { r with arena := r.arena ++ chunk } (r'.withStr key []) :=
      ⟨hsame.pool_eq, hsame.poolCap_eq, hsame.stack_eq⟩
    cases isFinal with
    | true =>
      refine ⟨_, rfl, by simp [Recorder.setStr], rfl, ?_⟩
      exact setStr_same hsame' hdrop hopen'
    | false =>
      refine ⟨_, rfl, by simp, rfl, start, hadmits, hopen', hsame', hopen, ?_, hdrop⟩
      simp only [List.length_append]
      omega

/-- One piece of a string, against the string as far as it goes. -/
theorem tokValueStrChunk_follows {g : Gathering} (h : Follows r r' g) {key chunk v : Bytes}
    (hv : g = none ∧ v = chunk ∨ ∃ v₀, g = some (key, v₀) ∧ v = v₀ ++ chunk) (isFinal : Bool)
    {provenance : Span} (hspan : provenance ≠ .callerFeedScoped)
    (hle : r.arena.length ≤ r.arenaCap) :
    (¬ (r'.Admits key ∧ r.arena.length + pieceCost g chunk isFinal provenance ≤ r.arenaCap) →
      (tokValueStrChunk r key chunk isFinal provenance).2 ≠ .ok) ∧
    (r'.Admits key → r.arena.length + pieceCost g chunk isFinal provenance ≤ r.arenaCap → ∃ r₁,
      tokValueStrChunk r key chunk isFinal provenance = (r₁, .ok) ∧
      r₁.arena.length = r.arena.length + pieceCost g chunk isFinal provenance ∧
      r₁.arenaCap = r.arenaCap ∧
      if isFinal then Follows r₁ (r'.withStr key v) none
      else Follows r₁ r' (some (key, v))) := by
  unfold tokValueStrChunk
  rw [if_neg hspan]
  obtain ⟨rfl, rfl⟩ | ⟨v₀, rfl, rfl⟩ := hv
  · obtain ⟨hsame, hopen, hopen'⟩ := h
    rw [hopen]
    dsimp only
    by_cases hadmits : r'.Admits key
    · have halloc := hsame.alloc (.str []) false key
      rw [tokAlloc_of_admits ((hsame.admits_iff key).mpr hadmits)]
      dsimp only
      by_cases hwhole : isFinal = true ∧ provenance = .callerStable
      · have hcost : pieceCost none v isFinal provenance = 0 := if_pos ⟨rfl, hwhole⟩
        rw [if_pos hwhole, hcost]
        refine ⟨fun hnot => absurd ⟨hadmits, hle⟩ hnot, fun _ _ => ⟨_, rfl, rfl, rfl, ?_⟩⟩
        rw [hwhole.1, if_pos rfl]
        refine ⟨⟨?_, hsame.poolCap_eq, hsame.stack_eq⟩, hopen, hopen'⟩
        unfold Recorder.setStr Recorder.withStr
        dsimp only
        rw [modify_append_last _ _ (length_counted r).symm]
        exact (hsame.alloc (.str v) false key).pool_eq
      · have hcost : pieceCost none v isFinal provenance = v.length :=
          if_neg fun hall => hwhole hall.2
        rw [if_neg hwhole, hcost, hsame.pool_eq]
        have happend := @tokStrAppend_follows
          { r with
            pool := r.counted ++ [r.newTok (.str []) false key]
            strOpen := some { tokIdx := r'.pool.length, arenaStart := r.arena.length } }
          r' key v [] r.arena.length hadmits hopen'
          ⟨halloc.pool_eq, halloc.poolCap_eq, halloc.stack_eq⟩ rfl (Nat.le_refl _)
          List.drop_length hle isFinal
        refine ⟨fun hnot => happend.1 ?_, fun _ hroom => happend.2 hroom⟩
        exact Nat.not_le.mp fun hroom => hnot ⟨hadmits, hroom⟩
    · rw [tokAlloc_of_not_admits fun h => hadmits ((hsame.admits_iff key).mp h)]
      exact ⟨fun _ => nofun, fun h => absurd h hadmits⟩
  · obtain ⟨start, hadmits, hopen', hsame, hopen, hstart, hdrop⟩ := h
    rw [hopen]
    dsimp only
    have happend := @tokStrAppend_follows r r' key chunk v₀ start hadmits hopen' hsame hopen
      hstart hdrop hle isFinal
    have hcost : pieceCost (some (key, v₀)) chunk isFinal provenance = chunk.length :=
      if_neg fun hall => absurd hall.1 (by simp)
    rw [hcost]
    refine ⟨fun hnot => happend.1 ?_, fun _ hroom => happend.2 hroom⟩
    exact Nat.not_le.mp fun hroom => hnot ⟨hadmits, hroom⟩

theorem callOf_eq_wholeCall {e : Event} (he : ∀ key v, e ≠ .str key v) : callOf e = wholeCall e := by
  cases e with
  | str key v => exact absurd rfl (he key v)
  | _ => rfl

/-- Recording in pieces against recording whole strings. -/
theorem follows {calls : List Call} {g : Gathering} {evs : List Event} (h : Follows r r' g)
    (hdurable : ∀ c ∈ calls, c.Durable) (hgather : gatherFrom g calls = some (evs, none))
    (hle : r.arena.length ≤ r.arenaCap) :
    ((deliverCalls (tokSink lib cfg) r calls).2 = .ok ↔
      (deliverCalls (tokSink lib cfg) r' (evs.map wholeCall)).2 = .ok ∧
        r.arena.length + copiedBytes g.isSome calls ≤ r.arenaCap) ∧
    ((deliverCalls (tokSink lib cfg) r calls).2 = .ok →
      (deliverCalls (tokSink lib cfg) r calls).1.pool =
        (deliverCalls (tokSink lib cfg) r' (evs.map wholeCall)).1.pool) := by
  induction calls generalizing g evs r r' with
  | nil =>
    cases hgather
    exact ⟨⟨fun _ => ⟨rfl, hle⟩, fun _ => rfl⟩, fun _ => h.1.pool_eq⟩
  | cons c calls ih =>
    have hrest : ∀ c ∈ calls, c.Durable := fun c hc => hdurable c (List.mem_cons_of_mem _ hc)
    by_cases hc : ∃ key chunk last p, c = .valueStrChunk key chunk last p
    · obtain ⟨key, chunk, last, p, rfl⟩ := hc
      obtain ⟨v, hv, hend⟩ := gatherFrom_chunk hgather
      have hspan : p ≠ .callerFeedScoped := hdurable _ List.mem_cons_self
      obtain ⟨hrefused, htaken⟩ := tokValueStrChunk_follows h hv last hspan hle
      have hopen' : r'.strOpen = none := by
        cases g with
        | none => exact h.2.2
        | some kv =>
          obtain ⟨start, -, hopen', -⟩ := h
          exact hopen'
      have hcost : copiedBytes g.isSome (.valueStrChunk key chunk last p :: calls) =
          pieceCost g chunk last p + copiedBytes (!last) calls := rfl
      -- The whole string comes next among the events, now or after more pieces.
      obtain ⟨w, evs', rfl⟩ : ∃ w evs', evs = .str key w :: evs' := by
        obtain ⟨-, evs', rfl, -⟩ | ⟨-, hmore⟩ := hend
        · exact ⟨v, evs', rfl⟩
        · obtain ⟨w, evs', rfl⟩ := exists_str_of_open hmore
          exact ⟨v ++ w, evs', rfl⟩
      by_cases hroom : r'.Admits key ∧ r.arena.length + pieceCost g chunk last p ≤ r.arenaCap
      · obtain ⟨r₁, hcall, harena, hcap, hfollows⟩ := htaken hroom.1 hroom.2
        have hstep : tokSink lib cfg r (.valueStrChunk key chunk last p) = (r₁, .ok) := hcall
        rw [deliverCalls_cons_of_ok hstep, hcost, ← Nat.add_assoc, ← harena, ← hcap]
        rw [← harena, ← hcap] at hroom
        obtain ⟨rfl, evs'', heq, hgather'⟩ | ⟨rfl, hgather'⟩ := hend
        · obtain ⟨heq, rfl⟩ := List.cons.inj heq
          rw [heq]
          have hwhole : tokSink lib cfg r' (wholeCall (.str key v)) = (r'.withStr key v, .ok) :=
            tokValueStrChunk_of_admits hroom.1 hopen'
          have hfollows' : Follows r₁ (r'.withStr key v) none := hfollows
          rw [List.map_cons, deliverCalls_cons_of_ok hwhole]
          exact ih hfollows' hrest hgather' hroom.2
        · have hfollows' : Follows r₁ r' (some (key, v)) := hfollows
          exact ih hfollows' hrest hgather' hroom.2
      · have hne := hrefused hroom
        have hstep : (deliverCalls (tokSink lib cfg) r (.valueStrChunk key chunk last p :: calls)).2 ≠
            .ok := by
          rcases hcall : tokValueStrChunk r key chunk last p with ⟨r₁, e⟩
          rw [hcall] at hne
          have hsink : tokSink lib cfg r (.valueStrChunk key chunk last p) = (r₁, e) := hcall
          rw [deliverCalls_cons_of_error hsink hne]
          exact hne
        refine ⟨⟨fun hok => absurd hok hstep, ?_⟩, fun hok => absurd hok hstep⟩
        rintro ⟨hok, hfits⟩
        rw [hcost] at hfits
        have hnot : ¬ r'.Admits key := fun hadmits => hroom ⟨hadmits, by omega⟩
        have hwhole : tokSink lib cfg r' (wholeCall (.str key w)) = (r', .noSpace) :=
          tokValueStrChunk_of_not_admits hnot hopen'
        rw [List.map_cons, deliverCalls_cons_of_error hwhole nofun] at hok
        cases hok
    · have hother : ∀ key chunk last p, c ≠ .valueStrChunk key chunk last p :=
        fun key chunk last p heq => hc ⟨key, chunk, last, p, heq⟩
      obtain ⟨rfl, e, evs', rfl, rfl, hgather'⟩ := gatherFrom_other hother hgather
      have he : ∀ key v, e ≠ .str key v := by
        rintro key v rfl
        exact hother _ _ _ _ rfl
      have hcost : copiedBytes false (callOf e :: calls) = copiedBytes false calls := by
        cases e with
        | str key v => exact absurd rfl (he key v)
        | _ => rfl
      obtain ⟨hcode, hfollows, harena, hcap⟩ := @tokSink_same lib cfg r r' e he h
      rw [Option.isSome_none, hcost, List.map_cons, callOf_eq_wholeCall he]
      rcases hcall : tokSink lib cfg r (wholeCall e) with ⟨r₁, rc⟩
      rcases hcall' : tokSink lib cfg r' (wholeCall e) with ⟨r₁', rc'⟩
      rw [hcall, hcall'] at hcode hfollows
      rw [hcall] at harena hcap
      dsimp only at hcode harena hcap
      subst hcode
      by_cases hok : rc = .ok
      · subst hok
        rw [deliverCalls_cons_of_ok hcall, deliverCalls_cons_of_ok hcall', ← harena, ← hcap]
        exact ih hfollows hrest hgather' (by rw [harena, hcap]; exact hle)
      · rw [deliverCalls_cons_of_error hcall hok, deliverCalls_cons_of_error hcall' hok]
        exact ⟨⟨fun h => absurd h hok, fun h => absurd h.1 hok⟩, fun h => absurd h hok⟩

end Follow

/-! ## What is recorded -/

section Parse

variable (lib : Libc) (cfg : Kconfig)

/-- The text has a value within the limits of the scanner and of the recorder. -/
structure Recordable (poolCap arenaCap : Nat) (buf : Bytes) (j : Json) : Prop where
  text : IsText LaxNumber buf (j.events [])
  limits : WithinLimits cfg (j.events [])
  keys : KeysFit (j.events [])
  tokens : j.size ≤ poolCap
  arena : escapedBytes cfg buf ≤ arenaCap

/-- A text is recorded exactly when it fits, and then its value is laid out. -/
theorem scanBounded_tokSink {poolCap : Nat} (hcap : poolCap ≤ uint16Max) (arenaCap : Nat)
    {buf : Bytes} {j : Json} (htext : IsText LaxNumber buf (j.events []))
    (hlimits : WithinLimits cfg (j.events [])) :
    ((scanBounded cfg (tokSink lib cfg) (.init poolCap arenaCap) buf).2 = .ok ↔
      KeysFit (j.events []) ∧ j.size ≤ poolCap ∧ escapedBytes cfg buf ≤ arenaCap) ∧
    ((scanBounded cfg (tokSink lib cfg) (.init poolCap arenaCap) buf).2 = .ok →
      (scanBounded cfg (tokSink lib cfg) (.init poolCap arenaCap) buf).1.pool =
        lay lib cfg none [] 0 j) := by
  obtain ⟨calls, hrecord, hgather⟩ := gather_scanBounded htext hlimits
  have hdurable := scanBounded_durable cfg buf
  rw [hrecord] at hdurable
  have hcopied : escapedBytes cfg buf = copiedBytes false calls := by
    unfold escapedBytes
    rw [hrecord]
  have hstart : Follows (.init poolCap arenaCap) (.init poolCap arenaCap) none :=
    ⟨⟨rfl, rfl, rfl⟩, rfl, rfl⟩
  obtain ⟨hcode, hpool⟩ := @follows lib cfg _ _ calls none _ hstart hdurable
    (gatherFrom_of_gather hgather) (Nat.zero_le arenaCap)
  have hready : (Recorder.init poolCap arenaCap).Ready := ⟨rfl, nofun⟩
  have hlaid : KeysFit (j.events []) → j.size ≤ poolCap →
      deliverCalls (tokSink lib cfg) (.init poolCap arenaCap) ((j.events []).map wholeCall) =
        ((Recorder.init poolCap arenaCap).laid lib cfg [] j, .ok) := by
    intro hkeys hroom
    have hvalue := @record_value lib cfg [] j _ hready hcap hlimits.1 hkeys
      (by simpa [Recorder.init] using hroom) []
    rw [List.append_nil] at hvalue
    exact hvalue
  have hwhole : (deliverCalls (tokSink lib cfg) (.init poolCap arenaCap)
      ((j.events []).map wholeCall)).2 = .ok ↔ KeysFit (j.events []) ∧ j.size ≤ poolCap := by
    constructor
    · intro hok
      have hneeds := recordable_of_ok (r := Recorder.init poolCap arenaCap) rfl (Nat.zero_le _)
        (Prod.ext rfl hok)
      rw [JsonText.values_events] at hneeds
      exact ⟨hneeds.1, by simpa [Recorder.init] using hneeds.2⟩
    · rintro ⟨hkeys, hroom⟩
      rw [hlaid hkeys hroom]
  rw [scanBounded_deliver hrecord, hcopied]
  have hcodes : (deliverCalls (tokSink lib cfg) (.init poolCap arenaCap) calls).2 = .ok ↔
      KeysFit (j.events []) ∧ j.size ≤ poolCap ∧ copiedBytes false calls ≤ arenaCap := by
    rw [hcode, hwhole, and_assoc]
    simp [Recorder.init]
  refine ⟨hcodes, fun hok => ?_⟩
  obtain ⟨hkeys, hroom, -⟩ := hcodes.mp hok
  rw [hpool hok, hlaid hkeys hroom]
  rfl

/-- What the recorder gets through, and what it has then. -/
theorem scanBounded_tokSink_iff {poolCap : Nat} (hcap : poolCap ≤ uint16Max) (arenaCap : Nat)
    (buf : Bytes) :
    (scanBounded cfg (tokSink lib cfg) (.init poolCap arenaCap) buf).2 = .ok ↔
      ∃ j, Recordable cfg poolCap arenaCap buf j := by
  constructor
  · intro hok
    obtain ⟨evs, htext, hlimits⟩ :=
      (scanBounded_ok_iff cfg record_accepting [] buf).mp (scanBounded_record_ok hok)
    obtain ⟨j, rfl⟩ := htext.exists_json
    obtain ⟨hkeys, hroom, harena⟩ := (scanBounded_tokSink lib cfg hcap arenaCap htext hlimits).1.mp hok
    exact ⟨j, htext, hlimits, hkeys, hroom, harena⟩
  · rintro ⟨j, htext, hlimits, hkeys, hroom, harena⟩
    exact (scanBounded_tokSink lib cfg hcap arenaCap htext hlimits).1.mpr ⟨hkeys, hroom, harena⟩

variable (tgt : Target) (sizes : TokSizes) (tokCfg : TokKconfig)

theorem poolDefaultCap_le : tokCfg.poolDefaultCap ≤ uint16Max := by
  have hle := tokCfg.poolDefaultCap_range.2
  unfold uint16Max
  omega

/-- The scratch has room for the recorder, the cursor and the pool, and this much is left. -/
def ScratchLeaves (scratch scratchCap arenaCap : Nat) : Prop :=
  scratch ≠ 0 ∧ carveScratch tgt sizes tokCfg scratch scratchCap = some arenaCap

/-- What the composed parser accepts. -/
theorem parseBytes_isOk_iff (buf : Bytes) (scratch scratchCap : Nat) :
    (∃ st, parseBytes tgt sizes lib cfg tokCfg buf scratch scratchCap = .ok st) ↔
      ∃ arenaCap j, ScratchLeaves tgt sizes tokCfg scratch scratchCap arenaCap ∧
        Recordable cfg tokCfg.poolDefaultCap arenaCap buf j := by
  unfold parseBytes ScratchLeaves
  by_cases hnull : scratch = 0
  · simp [hnull]
  rw [if_neg hnull]
  cases hcarve : carveScratch tgt sizes tokCfg scratch scratchCap with
  | none => simp
  | some arenaCap =>
    have hiff := scanBounded_tokSink_iff lib cfg (poolDefaultCap_le tokCfg) arenaCap buf
    rcases hscan : scanBounded cfg (tokSink lib cfg) (.init tokCfg.poolDefaultCap arenaCap) buf with
      ⟨r, rc⟩
    rw [hscan] at hiff
    simp only [hscan] at hiff ⊢
    constructor
    · rintro ⟨st, hok⟩
      have hrc : rc = .ok := by
        by_contra hne
        cases rc <;> first | exact hne rfl | cases hok
      obtain ⟨j, hj⟩ := hiff.mp hrc
      exact ⟨arenaCap, j, ⟨hnull, rfl⟩, hj⟩
    · rintro ⟨cap, j, ⟨-, heq⟩, hj⟩
      cases heq
      have hrc := hiff.mpr ⟨j, hj⟩
      subst hrc
      exact ⟨_, rfl⟩

/-- The source the composed parser binds reads the value of the text. -/
theorem parseBytes_pool {buf : Bytes} {scratch scratchCap : Nat} {st : Cursor}
    (h : parseBytes tgt sizes lib cfg tokCfg buf scratch scratchCap = .ok st) {j : Json}
    (htext : IsText LaxNumber buf (j.events [])) (hlimits : WithinLimits cfg (j.events [])) :
    st = populateFromTok (lay lib cfg none [] 0 j) := by
  unfold parseBytes at h
  split at h
  · cases h
  split at h
  · cases h
  rename_i arenaCap _
  have hspec := scanBounded_tokSink lib cfg (poolDefaultCap_le tokCfg) arenaCap htext hlimits
  split at h
  · rename_i r hscan
    rw [hscan] at hspec
    cases h
    rw [← hspec.2 rfl]
  · cases h

end Parse

end SerializeJson
end Breadboard
