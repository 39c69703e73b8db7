import Breadboard.SerializeJson.WriterText

/-!
# bb_serialize_json - streamed and buffered rendering

Both renderers write the text of the walk.  A large enough buffer holds it, and the
chunks that were flushed make it up; nothing is flushed after a flush has failed.

Main results:

- Theorem `streamRender_eq`: without a failed flush the chunks are the text.
- Theorem `streamRender_agrees`: the two agree, chunks are bounded, and a failed
  flush is the last one.
-/

namespace Breadboard
namespace SerializeJson

open Foundations Serialize

section Rendering

variable (lib : Libc) (cfg : Kconfig) (P : Program)

/-- A walk fits the level stack. -/
theorem stackFits_walk (resolve : Resolver) (m : Mem) (fields : List Field) (snap : Nat) :
    StackFits 0 (walk P resolve m fields snap) := by
  have hnested : Nested false (2 * maxDepth + 1) (walk P resolve m fields snap) :=
    walkFields_nested maxDepth m fields snap
  have hfits : StackFits 0 (walk P resolve m fields snap ++ []) :=
    stackFits_of_nested hnested (by decide) trivial
  rwa [List.append_nil] at hfits

/-- A document keeps its flush function and its capacity. -/
theorem jsonDocument_same (c : Ctx) (es : List Emit) :
    (jsonDocument lib cfg c es).flushFn = c.flushFn ∧ (jsonDocument lib cfg c es).cap = c.cap :=
  @jsonDocument_induct lib cfg (fun c' => c'.flushFn = c.flushFn ∧ c'.cap = c.cap)
    (fun c' s h => by rwa [(jsonPut_flushFn c' s).1, (jsonPut_flushFn c' s).2])
    (fun _ _ _ h => h) (fun _ h => h) c ⟨rfl, rfl⟩ es

/-! ## The buffered renderer -/

/-- The document in a buffer of `cap` bytes. -/
abbrev bufferedDocument (cap : Nat) (f64Shortest : Bool) (es : List Emit) : Ctx :=
  jsonDocument lib cfg (.init cap none f64Shortest) es

theorem bufferedDocument_buf {cap : Nat} {f64Shortest : Bool} {es : List Emit}
    (h : (bufferedDocument lib cfg cap f64Shortest es).err = .ok) :
    (bufferedDocument lib cfg cap f64Shortest es).buf = documentText lib cfg f64Shortest es := by
  obtain ⟨hwritten, hflushed⟩ := jsonDocument_writes lib cfg h
  unfold Ctx.written at hwritten
  rwa [hflushed rfl] at hwritten

/-- A large enough buffer gets the text of the walk. -/
theorem render_eq (resolve : Resolver) (m : Mem) (fields : List Field) (snap : Nat)
    (f64Shortest : Bool) {cap : Nat}
    (hcap : (documentText lib cfg f64Shortest (walk P resolve m fields snap)).length < cap) :
    render lib cfg P resolve m fields snap cap f64Shortest =
      (.ok, documentText lib cfg f64Shortest (walk P resolve m fields snap)) := by
  have hok : (bufferedDocument lib cfg (cap - 1) f64Shortest (walk P resolve m fields snap)).err =
      .ok := by
    refine (jsonDocument_ok lib cfg (fun _ => by omega) (fun h => absurd rfl h)
      (stackFits_walk P resolve m fields snap)).resolve_right ?_
    rintro ⟨failed, k, hsome, -⟩
    rw [(jsonDocument_same lib cfg _ _).1] at hsome
    cases hsome
  unfold render
  rw [if_neg (by omega)]
  dsimp only
  rw [if_neg (not_not.mpr hok), bufferedDocument_buf lib cfg hok]

/-- A render that succeeds has written the text of the walk. -/
theorem render_ok {resolve : Resolver} {m : Mem} {fields : List Field} {snap cap : Nat}
    {f64Shortest : Bool} (h : (render lib cfg P resolve m fields snap cap f64Shortest).1 = .ok) :
    (render lib cfg P resolve m fields snap cap f64Shortest).2 =
      documentText lib cfg f64Shortest (walk P resolve m fields snap) := by
  unfold render at h ⊢
  split at h
  · cases h
  rename_i hcap
  rw [if_neg hcap]
  dsimp only at h ⊢
  split at h
  · exact absurd h ‹_›
  · rename_i hok
    rw [if_neg hok]
    exact bufferedDocument_buf lib cfg (not_not.mp hok)

/-! ## The streaming renderer -/

/-- The document before the tail is flushed. -/
abbrev streamedDocument (failed : Nat → Bool) (f64Shortest : Bool) (es : List Emit) : Ctx :=
  jsonDocument lib cfg (.init cfg.streamFlushBufBytes (some failed) f64Shortest) es

/-- Without a failed flush the chunks make up the text of the walk. -/
theorem streamRender_eq (m : Mem) (fields : List Field) (snap : Nat) {failed : Nat → Bool}
    (f64Shortest : Bool)
    (hnever : ∀ k, k < (streamRender lib cfg P m fields snap failed f64Shortest).2.length →
      failed k = false) :
    (streamRender lib cfg P m fields snap failed f64Shortest).1 = .ok ∧
      (streamRender lib cfg P m fields snap failed f64Shortest).2.flatten =
        documentText lib cfg f64Shortest (walk P .none m fields snap) := by
  have hbuf := cfg.streamFlushBufBytes_range
  have hdocument : (streamedDocument lib cfg failed f64Shortest (walk P .none m fields snap)).err =
      .ok ∨ Failed (streamedDocument lib cfg failed f64Shortest (walk P .none m fields snap)) :=
    jsonDocument_ok lib cfg (fun h => nomatch h) (fun _ => by omega)
      (stackFits_walk P .none m fields snap)
  have hflushFn :
      (streamedDocument lib cfg failed f64Shortest (walk P .none m fields snap)).flushFn =
        some failed :=
    (jsonDocument_same lib cfg _ _).1
  have hwrites (hok : (streamedDocument lib cfg failed f64Shortest
      (walk P .none m fields snap)).err = .ok) :
      (streamedDocument lib cfg failed f64Shortest (walk P .none m fields snap)).written =
        documentText lib cfg f64Shortest (walk P .none m fields snap) :=
    (jsonDocument_writes lib cfg hok).1
  unfold streamRender at hnever ⊢
  change ∀ k, k < (jsonFlush (streamedDocument lib cfg failed f64Shortest
    (walk P .none m fields snap))).flushed.length → failed k = false at hnever
  change (jsonFlush (streamedDocument lib cfg failed f64Shortest
    (walk P .none m fields snap))).err = .ok ∧ (jsonFlush (streamedDocument lib cfg failed
      f64Shortest (walk P .none m fields snap))).flushed.flatten = _
  generalize streamedDocument lib cfg failed f64Shortest (walk P .none m fields snap) = c
    at hnever hdocument hflushFn hwrites ⊢
  have hnot {c' : Ctx} (hsame : c'.flushFn = some failed)
      (hle : c'.flushed.length ≤ (jsonFlush c).flushed.length) : ¬ Failed c' := by
    rintro ⟨failed', k, hsome, hk, hfailed⟩
    rw [hsame] at hsome
    cases hsome
    rw [hnever k (Nat.lt_of_lt_of_le hk hle)] at hfailed
    cases hfailed
  have hok := hdocument.resolve_right (hnot hflushFn (jsonFlush_mono c))
  have hend := (jsonFlush_ok hok).resolve_right
    (hnot ((jsonFlush_same c).1.trans hflushFn) (Nat.le_refl _))
  obtain ⟨-, hwritten, hempty⟩ := jsonFlush_written hend
  refine ⟨hend, ?_⟩
  rw [← hwrites hok, ← hwritten]
  unfold Ctx.written
  rw [hempty (by rw [hflushFn]; exact fun h => nomatch h), List.append_nil]

/-- Buffers and chunks are within the capacity. -/
def Bounded (c : Ctx) : Prop :=
  c.buf.length ≤ c.cap ∧ ∀ chunk ∈ c.flushed, chunk.length ≤ c.cap

/-- A failed flush is the last one and leaves an error. -/
def Aborts (c : Ctx) : Prop :=
  ∀ failed k, c.flushFn = some failed → k < c.flushed.length → failed k = true →
    c.flushed.length = k + 1 ∧ c.err ≠ .ok

variable {c : Ctx}

theorem Bounded.flush (h : Bounded c) : Bounded (jsonFlush c) := by
  unfold jsonFlush
  split
  · exact h
  split
  · exact h
  · refine ⟨Nat.zero_le _, fun chunk hchunk => ?_⟩
    rcases List.mem_append.mp hchunk with hold | hnew
    · exact h.2 chunk hold
    · rw [List.mem_singleton.mp hnew]
      exact h.1

theorem Bounded.put (h : Bounded c) (s : Bytes) : Bounded (jsonPut c s) := by
  have hflush := h.flush
  have hcap := (jsonFlush_same c).2.1
  unfold jsonPut
  split
  · exact h
  split
  · split
    · exact h
    rename_i hsome
    dsimp only
    split
    · exact hflush
    rename_i hok
    split
    · exact hflush
    · have hempty := (jsonFlush_written (not_not.mp hok)).2.2
        fun h => hsome (Option.isNone_iff_eq_none.mpr h)
      refine ⟨?_, hflush.2⟩
      show ((jsonFlush c).buf ++ s).length ≤ (jsonFlush c).cap
      rw [hempty, List.nil_append]
      omega
  · refine ⟨?_, h.2⟩
    show (c.buf ++ s).length ≤ c.cap
    rw [List.length_append]
    omega

theorem Aborts.flush (h : Aborts c) : Aborts (jsonFlush c) := by
  unfold jsonFlush
  split
  · exact h
  rename_i failed hsome
  split
  · exact h
  rename_i hbusy
  have hok : c.err = .ok := by_contra fun hne => hbusy (.inl hne)
  intro failed' k hsome' hk hfailed
  have hsame : failed' = failed := Option.some.inj (hsome'.symm.trans hsome)
  subst hsame
  have hlen : (c.flushed ++ [c.buf]).length = c.flushed.length + 1 := by simp
  change k < (c.flushed ++ [c.buf]).length at hk
  change (c.flushed ++ [c.buf]).length = k + 1 ∧ _
  rw [hlen] at hk ⊢
  rcases Nat.lt_or_ge k c.flushed.length with hlt | hge
  · exact absurd hok (h failed' k hsome hlt hfailed).2
  · have hk : c.flushed.length = k := by omega
    refine ⟨by rw [hk], ?_⟩
    dsimp only
    rw [hk, hfailed]
    exact fun h => nomatch h

theorem Aborts.put (h : Aborts c) (s : Bytes) : Aborts (jsonPut c s) := by
  have hflush := h.flush
  have herr {c' : Ctx} (h' : Aborts c') : Aborts { c' with err := .noSpace } :=
    fun failed k hsome hk hfailed => ⟨(h' failed k hsome hk hfailed).1, fun h => nomatch h⟩
  unfold jsonPut
  split
  · exact h
  split
  · split
    · exact herr h
    dsimp only
    split
    · exact hflush
    split
    · exact herr hflush
    · exact hflush
  · exact h

/-- Chunks never exceed the flush buffer. -/
theorem streamRender_bounded (m : Mem) (fields : List Field) (snap : Nat) (failed : Nat → Bool)
    (f64Shortest : Bool) :
    ∀ chunk ∈ (streamRender lib cfg P m fields snap failed f64Shortest).2,
      chunk.length ≤ cfg.streamFlushBufBytes := by
  have hinit : Bounded (.init cfg.streamFlushBufBytes (some failed) f64Shortest) :=
    ⟨Nat.zero_le _, fun _ h => nomatch h⟩
  have hbounded : Bounded (streamedDocument lib cfg failed f64Shortest
      (walk P .none m fields snap)) :=
    jsonDocument_induct lib cfg (fun _ s h => h.put s) (fun _ _ _ h => h) (fun _ h => h) hinit _
  have hcap := (jsonFlush_same (streamedDocument lib cfg failed f64Shortest
    (walk P .none m fields snap))).2.1.trans (jsonDocument_same lib cfg _ _).2
  intro chunk hchunk
  have := hbounded.flush.2 chunk hchunk
  rwa [hcap] at this

/-- A flush that failed was the last one, and the status is an error. -/
theorem streamRender_aborts (m : Mem) (fields : List Field) (snap : Nat) (failed : Nat → Bool)
    (f64Shortest : Bool) (k : Nat)
    (hk : k < (streamRender lib cfg P m fields snap failed f64Shortest).2.length)
    (hfailed : failed k = true) :
    (streamRender lib cfg P m fields snap failed f64Shortest).2.length = k + 1 ∧
      (streamRender lib cfg P m fields snap failed f64Shortest).1 ≠ .ok := by
  have hinit : Aborts (.init cfg.streamFlushBufBytes (some failed) f64Shortest) :=
    fun _ _ _ h => absurd h (Nat.not_lt_zero _)
  have haborts : Aborts (streamedDocument lib cfg failed f64Shortest
      (walk P .none m fields snap)) :=
    jsonDocument_induct lib cfg (fun _ s h => h.put s) (fun _ _ _ h => h)
      (fun _ h failed k hsome hk hfailed => ⟨(h failed k hsome hk hfailed).1, fun h => nomatch h⟩)
      hinit _
  have hflushFn := (jsonFlush_same (streamedDocument lib cfg failed f64Shortest
    (walk P .none m fields snap))).1.trans (jsonDocument_same lib cfg _ _).1
  exact haborts.flush failed k hflushFn hk hfailed

/--
Streamed and buffered rendering agree: without a failed flush they end with the same
status, and the chunks make up the document of a large enough buffer; a chunk fits the
flush buffer; and a flush that fails is the last one and leaves an error.
-/
theorem streamRender_agrees (resolve : Resolver) (m : Mem) (fields : List Field) (snap : Nat)
    (f64Shortest : Bool) (hnoRef : ∀ f, HasField P fields f → f.type ≠ .ref) :
    (∃ need, ∀ cap, need ≤ cap → ∀ failed : Nat → Bool,
      (∀ k, k < (streamRender lib cfg P m fields snap failed f64Shortest).2.length →
        failed k = false) →
      (streamRender lib cfg P m fields snap failed f64Shortest).1 = .ok ∧
        (render lib cfg P resolve m fields snap cap f64Shortest).1 = .ok ∧
        (streamRender lib cfg P m fields snap failed f64Shortest).2.flatten =
          (render lib cfg P resolve m fields snap cap f64Shortest).2) ∧
    (∀ failed, ∀ chunk ∈ (streamRender lib cfg P m fields snap failed f64Shortest).2,
      chunk.length ≤ cfg.streamFlushBufBytes) ∧
    ∀ failed k, k < (streamRender lib cfg P m fields snap failed f64Shortest).2.length →
      failed k = true →
      (streamRender lib cfg P m fields snap failed f64Shortest).2.length = k + 1 ∧
        (streamRender lib cfg P m fields snap failed f64Shortest).1 ≠ .ok := by
  have hwalk : walk P .none m fields snap = walk P resolve m fields snap :=
    walkFields_congr_resolve maxDepth m hnoRef snap
  refine ⟨⟨(documentText lib cfg f64Shortest (walk P resolve m fields snap)).length + 1,
      fun cap hcap failed hnever => ?_⟩,
    fun failed => streamRender_bounded lib cfg P m fields snap failed f64Shortest,
    fun failed k hk hfailed =>
      streamRender_aborts lib cfg P m fields snap failed f64Shortest k hk hfailed⟩
  obtain ⟨hstatus, hchunks⟩ := streamRender_eq lib cfg P m fields snap f64Shortest hnever
  rw [render_eq lib cfg P resolve m fields snap f64Shortest hcap, hchunks, hwalk]
  exact ⟨hstatus, rfl, rfl⟩

/-- A `BB_TYPE_BOOL` field under the key `a`. -/
def flagField : Field where
  key := [97]
  type := .bool
  offset := 0
  present := none
  children := 0
  maxLen := 0
  maxItems := 0
  elemType := .i64
  elemSize := 0
  cardinality := .fixed
  refKey := []

/-- A program without tables, predicates and iterators. -/
def flatProgram : Program where
  wordBytes := 4
  tables := fun _ => []
  present := fun _ _ _ => true
  rows := fun _ _ _ => []

/-- A library for documents without a `double`. -/
def noFloats : Libc where
  printG := fun _ _ => []
  strtod := fun _ => 0
  length_printG_le := by simp

theorem streamRender_agrees_flag :
    ∃ need, ∀ cap, need ≤ cap →
      (streamRender noFloats Kconfig.default flatProgram (fun _ => 1) [flagField] 0
          (fun _ => false) false).2.flatten =
        (render noFloats Kconfig.default flatProgram .none (fun _ => 1) [flagField] 0 cap
          false).2 := by
  have hnoRef (f : Field) (hf : HasField flatProgram [flagField] f) : f.type ≠ .ref := by
    cases hf with
    | here hf =>
      rw [List.mem_singleton.mp hf]
      decide
    | child _ _ hg =>
      cases hg with
      | here hg => cases hg
      | child hg _ _ => cases hg
  obtain ⟨⟨need, h⟩, -⟩ := streamRender_agrees noFloats Kconfig.default flatProgram .none
    (fun _ => 1) [flagField] 0 false hnoRef
  exact ⟨need, fun cap hcap => (h cap hcap (fun _ => false) fun _ _ => rfl).2.2⟩

/-- The document is `{"a":true}`. -/
example : (render noFloats Kconfig.default flatProgram .none (fun _ => 1) [flagField] 0 11
    false) = (.ok, [123, 34, 97, 34, 58, 116, 114, 117, 101, 125]) := by
  decide

end Rendering

end SerializeJson
end Breadboard
