import Breadboard.SerializeJson.TokTree

/-!
# bb_serialize_json_tok - what is recorded is the document

The navigation over the pool of a scanned document is that of its tree.  The bytes of every
string are in the caller's buffer or in the arena; the arena only grows, so they stay where
they are.

Main results:

- Theorem `kept_tokSink`: no call moves the bytes of a string.
- Theorem `scanned_faithful`: every token of a scanned document represents its value.
-/

namespace Breadboard
namespace SerializeJson

open Foundations Serialize
open Foundations.JsonText (Json IsText LaxNumber StringBody)
open Scan (deliverCalls)

/-! ## Where the strings are -/

section Storage

/--
The bytes were handed over as one piece of the caller's buffer, or they stand in the arena.
-/
def Stored (calls : List Call) (arena s : Bytes) : Prop :=
  (∃ key, .valueStrChunk key s true .callerStable ∈ calls) ∨ s <:+: arena

/-- Every string token has its bytes somewhere. -/
def Recorder.Kept (calls : List Call) (r : Recorder) : Prop :=
  ∀ t ∈ r.pool, ∀ s, t.val = .str s → Stored calls r.arena s

variable {lib : Libc} {cfg : Kconfig} {calls : List Call} {r : Recorder}

theorem Stored.mono {calls' : List Call} {arena arena' s : Bytes} (h : Stored calls arena s)
    (hcalls : calls ⊆ calls') (harena : arena <+: arena') : Stored calls' arena' s := by
  obtain ⟨key, hmem⟩ | hcontiguous := h
  · exact .inl ⟨key, hcalls hmem⟩
  · exact .inr (hcontiguous.trans harena.isInfix)

theorem stored_nil (calls : List Call) (arena : Bytes) : Stored calls arena [] :=
  .inr (List.nil_infix)

theorem Recorder.Kept.mono {calls' : List Call} {r' : Recorder} (h : r.Kept calls)
    (hcalls : calls ⊆ calls') (harena : r.arena <+: r'.arena) (hpool : r'.pool = r.pool) :
    r'.Kept calls' := by
  intro t ht s hs
  exact (h t (hpool ▸ ht) s hs).mono hcalls harena

/-- Changing tokens one by one keeps what holds of all of them. -/
theorem forall_mem_modify {α : Type} {P : α → Prop} {xs : List α} {f : α → α} (i : Nat)
    (h : ∀ x ∈ xs, P x) (hf : ∀ x, P x → P (f x)) : ∀ x ∈ xs.modify i f, P x := by
  intro x hx
  obtain ⟨n, hn⟩ := List.mem_iff_getElem?.mp hx
  rw [List.getElem?_modify] at hn
  obtain ⟨y, hy, rfl⟩ := Option.map_eq_some_iff.mp hn
  have hmem := h y (List.mem_of_getElem? hy)
  split
  · exact hf y hmem
  · exact hmem

theorem Recorder.Kept.counted (h : r.Kept calls) :
    ∀ t ∈ r.counted, ∀ s, t.val = .str s → Stored calls r.arena s := by
  unfold Recorder.counted
  split
  · exact h
  · exact forall_mem_modify _ h fun t ht s hs => ht s hs

/-- A new token whose bytes are stored. -/
theorem kept_tokAlloc {val : TokVal} {numInexact : Bool} {key : Bytes} {r' : Recorder}
    (h : r.Kept calls) (hval : ∀ s, val = .str s → Stored calls r.arena s)
    (halloc : tokAlloc r val numInexact key = some r') : r'.Kept calls ∧ r'.arena = r.arena := by
  by_cases hadmits : r.Admits key
  · rw [tokAlloc_of_admits hadmits] at halloc
    cases halloc
    refine ⟨fun t ht s hs => ?_, rfl⟩
    rcases List.mem_append.mp ht with hmem | hmem
    · exact h.counted t hmem s hs
    · cases List.mem_singleton.mp hmem
      exact hval s hs
  · rw [tokAlloc_of_not_admits hadmits] at halloc
    cases halloc

theorem Recorder.Kept.setStr {s : Bytes} (h : r.Kept calls) (hs : Stored calls r.arena s)
    (idx : Nat) : (r.setStr idx s).Kept calls := by
  apply forall_mem_modify (P := fun t : Tok => ∀ s, t.val = .str s → Stored calls r.arena s) idx h
  rintro t - s' hs'
  cases hs'
  exact hs

/-- The arena only grows, and what is recorded stays where it is. -/
theorem kept_tokStrAppend (h : r.Kept calls) (str : OpenStr) (chunk : Bytes) (isFinal : Bool) :
    (tokStrAppend r str chunk isFinal).1.Kept calls := by
  unfold tokStrAppend
  split
  · exact h
  have hgrown : ({ r with arena := r.arena ++ chunk } : Recorder).Kept calls :=
    h.mono (List.Subset.refl calls) (List.prefix_append _ _) rfl
  dsimp only
  split
  · exact hgrown.setStr (.inr (List.drop_suffix _ _).isInfix) str.tokIdx
  · exact hgrown

theorem kept_tokSink (h : r.Kept calls) (c : Call) :
    (tokSink lib cfg r c).1.Kept (calls ++ [c]) := by
  have hmore : r.Kept (calls ++ [c]) :=
    h.mono (List.subset_append_left calls [c]) (List.prefix_refl _) rfl
  have hvalue (val : TokVal) (numInexact : Bool) (key : Bytes) (hval : ∀ s, val ≠ .str s) :
      (tokValue r val numInexact key).1.Kept (calls ++ [c]) := by
    unfold tokValue
    split
    · exact hmore
    next r' halloc => exact (kept_tokAlloc hmore (fun s hs => absurd hs (hval s)) halloc).1
  have hbegin (val : TokVal) (key : Bytes) (hval : ∀ s, val ≠ .str s) :
      (tokBegin r val key).1.Kept (calls ++ [c]) := by
    unfold tokBegin
    split
    · exact hmore
    split
    · exact hmore
    next r' halloc => exact (kept_tokAlloc hmore (fun s hs => absurd hs (hval s)) halloc).1
  have hend : (tokEnd r).1.Kept (calls ++ [c]) := by
    unfold tokEnd
    split <;> exact hmore
  cases c with
  | beginObj key => exact hbegin .obj key nofun
  | endObj => exact hend
  | beginArr key => exact hbegin .arr key nofun
  | endArr => exact hend
  | valueNum key num => exact hvalue (tokParseNum lib cfg num) _ key nofun
  | valueBool key v => exact hvalue (.bool v) false key nofun
  | valueNull key => exact hvalue .null false key nofun
  | valueStrChunk key chunk isFinal provenance =>
    show (tokValueStrChunk r key chunk isFinal provenance).1.Kept _
    unfold tokValueStrChunk
    split
    · exact hmore
    split
    · exact kept_tokStrAppend hmore _ chunk isFinal
    split
    · exact hmore
    next r₁ halloc =>
      have hempty : ∀ s, TokVal.str [] = .str s →
          Stored (calls ++ [.valueStrChunk key chunk isFinal provenance]) r.arena s := by
        rintro s hs
        cases hs
        exact stored_nil _ _
      obtain ⟨hkept, harena⟩ := kept_tokAlloc hmore hempty halloc
      split
      next hwhole =>
        obtain ⟨rfl, rfl⟩ := hwhole
        exact hkept.setStr (.inl ⟨key, by simp⟩) _
      next =>
        apply kept_tokStrAppend
        exact hkept.mono (List.Subset.refl _) (List.prefix_refl _) rfl

theorem kept_deliverCalls (cs : List Call) (h : r.Kept calls) {r' : Recorder}
    (hdeliver : deliverCalls (tokSink lib cfg) r cs = (r', .ok)) : r'.Kept (calls ++ cs) := by
  induction cs generalizing r calls with
  | nil =>
    cases hdeliver
    rwa [List.append_nil]
  | cons c cs ih =>
    obtain ⟨u, hcall, hrest⟩ := deliverCalls_ok_cons hdeliver
    have hkept := @kept_tokSink lib cfg calls r h c
    rw [hcall] at hkept
    rw [← List.singleton_append, ← List.append_assoc]
    exact ih hkept hrest

end Storage

/-! ## Scanned documents -/

section Scanned

variable (lib : Libc) (cfg : Kconfig)

/-- What a scan that gets through leaves is the document, and every string has its bytes. -/
theorem scanned_faithful (poolCap arenaCap : Nat) (buf : Bytes) (r : Recorder)
    (h : scanBounded cfg (tokSink lib cfg) (.init poolCap arenaCap) buf = (r, .ok)) :
    ∃ j : Json, IsText LaxNumber buf (j.events []) ∧ WithinLimits cfg (j.events []) ∧
      tokRoot r.pool = some 0 ∧ r.pool.length = j.size ∧
      (∀ i sub, (preorder j)[i]? = some sub → Represents lib cfg r.pool i sub) ∧
      r.Kept (scanBounded cfg record [] buf).1 := by
  obtain ⟨j, htext, hlimits, hpool⟩ := pool_of_scan_ok h
  refine ⟨j, htext, hlimits, ?_, ?_, fun i sub hsub => ?_, ?_⟩
  · have hne : lay lib cfg none [] 0 j ≠ [] := List.cons_ne_nil _ _
    rw [tokRoot, hpool, if_neg hne]
  · rw [hpool, length_lay]
  · rw [hpool]
    exact represents_preorder j hsub
  · obtain ⟨calls, hrecord, -⟩ := gather_scanBounded htext hlimits
    rw [scanBounded_deliver hrecord] at h
    rw [hrecord]
    have hnone : (Recorder.init poolCap arenaCap).Kept [] := fun t ht => by cases ht
    exact kept_deliverCalls calls hnone h

/-- A library for documents without numbers. -/
def noNumbers : Libc where
  printG := fun _ _ => []
  strtod := fun _ => 0
  length_printG_le := fun _ _ _ => Nat.zero_le _

/-- An object whose array holds a string with an escape, which goes to the arena. -/
def escapedObject : Bytes :=
  [123, 34, 97, 34, 58, 91, 34, 120, 34, 44, 34, 92, 110, 34, 93, 125]

theorem scanned_faithful_escaped :
    ∃ j : Json, IsText LaxNumber escapedObject (j.events []) ∧ WithinLimits .default (j.events []) ∧
      tokRoot (scanBounded .default (tokSink noNumbers .default) (.init 4 1) escapedObject).1.pool =
        some 0 ∧
      (scanBounded .default (tokSink noNumbers .default) (.init 4 1) escapedObject).1.pool.length =
        j.size := by
  have hok : (scanBounded .default (tokSink noNumbers .default) (.init 4 1) escapedObject).2 = .ok := by
    decide +kernel
  obtain ⟨j, htext, hlimits, hroot, hlength, -, -⟩ :=
    scanned_faithful noNumbers .default 4 1 escapedObject _ (Prod.ext rfl hok)
  exact ⟨j, htext, hlimits, hroot, hlength⟩

/-- Every string token of a scanned document is read as the string. -/
def StringsRead (poolCap arenaCap : Nat) (buf : Bytes) : Prop :=
  ∀ r, scanBounded cfg (tokSink lib cfg) (.init poolCap arenaCap) buf = (r, .ok) →
    ∃ j : Json, IsText LaxNumber buf (j.events []) ∧ WithinLimits cfg (j.events []) ∧
      ∀ i s, (preorder j)[i]? = some (.str s) → tokStrSpan r.pool (some i) = some s

/-- A string of `n` letters as a document. -/
def letters (n : Nat) : Bytes :=
  34 :: (List.replicate n 97 ++ [34])

theorem isText_letters (n : Nat) :
    IsText LaxNumber (letters n) ((Json.str (List.replicate n 97)).events []) := by
  have hbody : StringBody (List.replicate n 97 ++ [34]) (List.replicate n 97) [] := by
    induction n with
    | zero => exact .close []
    | succ n ih => exact .plain (by decide) ih
  rw [Json.events]
  exact ⟨[], letters n, [], rfl, nofun, .str hbody, nofun⟩

theorem withinLimits_str (s : Bytes) : WithinLimits cfg ((Json.str s).events []) := by
  rw [Json.events]
  refine ⟨trivial, fun e he => ?_⟩
  cases List.mem_singleton.mp he
  exact Nat.zero_le _

/-- A string whose length wraps to 0 is read as the empty one. -/
theorem not_stringsRead_letters {n : Nat} (hpos : 0 < n) (hwrap : n % 2 ^ 32 = 0) :
    ¬ StringsRead lib cfg 1 (escapedBytes cfg (letters n)) (letters n) := by
  intro hread
  have htext := isText_letters n
  have hlimits := withinLimits_str cfg (List.replicate n 97)
  have hkeys : KeysFit ((Json.str (List.replicate n 97)).events []) := by
    rw [Json.events]
    intro e he
    cases List.mem_singleton.mp he
    exact Nat.zero_le _
  have hpoolCap : 1 ≤ uint16Max := by decide
  obtain ⟨hiff, hpool⟩ := scanBounded_tokSink lib cfg hpoolCap
    (escapedBytes cfg (letters n)) htext hlimits
  have hok := hiff.mpr ⟨hkeys, by rw [Json.size], Nat.le_refl _⟩
  obtain ⟨j, htext', hlimits', hstr⟩ := hread _ (Prod.ext rfl hok)
  have heq := (reading_eq_some_iff cfg _ _).mpr ⟨htext', hlimits'⟩
  rw [(reading_eq_some_iff cfg _ _).mpr ⟨htext, hlimits⟩] at heq
  obtain rfl := JsonText.events_injective (Option.some.inj heq)
  have hspan := hstr 0 (List.replicate n 97) (by simp [preorder])
  rw [hpool hok, tokStrSpan, tokGetStr_of_laidAt ⟨none, [], [], (List.append_nil _).symm⟩,
    Option.map_some, List.length_replicate, hwrap, List.take_zero] at hspan
  have hlength := congrArg List.length (Option.some.inj hspan)
  rw [List.length_replicate, List.length_nil] at hlength
  omega

/-- The length of a string of four gigabytes does not fit the 32 bits of its token. -/
theorem four_gigabytes_misread :
    ¬ StringsRead noNumbers .default 1 (escapedBytes .default (letters (2 ^ 32))) (letters (2 ^ 32)) :=
  not_stringsRead_letters noNumbers .default (Nat.two_pow_pos 32) (Nat.mod_self _)

end Scanned

end SerializeJson
end Breadboard
