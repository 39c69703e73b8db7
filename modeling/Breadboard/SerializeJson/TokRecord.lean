import Breadboard.SerializeJson.ScanDurable
import Breadboard.SerializeJson.TokPool

/-!
# bb_serialize_json_tok - recording a document

The recorder on the events of a value, strings in one piece: it lays the value out at the
end of the pool, and it gets through exactly when the keys fit a token and the tokens fit
the pool.

Main results:

- Theorem `record_value`: the events of a value lay it out.
- Theorem `recordable_of_ok`: what a recording that gets through needs.
-/

namespace Breadboard
namespace SerializeJson

open Foundations Serialize
open Foundations.JsonText (Json Members Event Nests membersEvents elemsEvents membersSize elemsSize
  values values_append values_events nests_append depthAfter_events)
open Scan (deliverCalls)

/-! ## One token -/

/-- The recorder takes a token with the key. -/
def Recorder.Admits (r : Recorder) (key : Bytes) : Prop :=
  key.length ≤ tokKeyMaxLen ∧ r.pool.length < r.poolCap ∧ r.parentFull = false

/-- The pool, with one more child counted for the innermost open container. -/
def Recorder.counted (r : Recorder) : List Tok :=
  match r.stack with
  | [] => r.pool
  | parent :: _ => r.pool.modify parent (Tok.addChildren 1)

/-- The new token. -/
def Recorder.newTok (r : Recorder) (val : TokVal) (numInexact : Bool) (key : Bytes) : Tok where
  val := val
  key := key
  numInexact := numInexact
  childCount := 0
  parent := r.stack.head?

@[simp] theorem length_counted (r : Recorder) : r.counted.length = r.pool.length := by
  unfold Recorder.counted
  split
  · rfl
  · exact List.length_modify _ _ _

section Alloc

variable {r : Recorder} {val : TokVal} {numInexact : Bool} {key : Bytes}

theorem tokAlloc_of_admits (h : r.Admits key) :
    tokAlloc r val numInexact key =
      some { r with pool := r.counted ++ [r.newTok val numInexact key] } := by
  unfold tokAlloc
  rw [if_neg (Nat.not_lt.mpr h.1), if_neg (Nat.not_le.mpr h.2.1), if_neg (by simp [h.2.2])]
  unfold Recorder.counted Recorder.newTok
  cases r.stack <;> rfl

theorem tokAlloc_of_not_admits (h : ¬ r.Admits key) : tokAlloc r val numInexact key = none := by
  unfold tokAlloc
  split
  · rfl
  · rename_i hkey
    split
    · rfl
    · rename_i hcap
      split
      · rfl
      · rename_i hfull
        exact absurd ⟨Nat.not_lt.mp hkey, Nat.not_le.mp hcap, by simpa using hfull⟩ h

end Alloc

/-! ## The events of a value -/

/-- The call for an event, a string in one piece of the caller's buffer. -/
def wholeCall : Event → Call
  | .str key value => .valueStrChunk key value true .callerStable
  | e => callOf e

/--
Between two values: no string is open, and the innermost open container is in the pool, where
it has fewer children than there are tokens.
-/
structure Recorder.Ready (r : Recorder) : Prop where
  strOpen : r.strOpen = none
  rooted : ∀ parent, r.stack.head? = some parent → ∃ t, r.pool[parent]? = some t ∧
    t.childCount < r.pool.length

/-- The key of an event. -/
def keyOf : Event → Bytes
  | .beginObj key => key
  | .beginArr key => key
  | .num key _ => key
  | .bool key _ => key
  | .null key => key
  | .str key _ => key
  | .endObj => []
  | .endArr => []

/-- Every key fits a token. -/
def KeysFit (evs : List Event) : Prop :=
  ∀ e ∈ evs, (keyOf e).length ≤ tokKeyMaxLen

theorem keysFit_append (evs evs' : List Event) :
    KeysFit (evs ++ evs') ↔ KeysFit evs ∧ KeysFit evs' := by
  simp [KeysFit, or_imp, forall_and]

theorem modify_append_left {α : Type} {xs : List α} {i : Nat} (hi : i < xs.length) (ys : List α)
    (f : α → α) : (xs ++ ys).modify i f = xs.modify i f ++ ys := by
  induction xs generalizing i with
  | nil => cases hi
  | cons x xs ih =>
    cases i with
    | zero => rfl
    | succ i =>
      rw [List.cons_append, List.modify_succ_cons, List.modify_succ_cons, List.cons_append,
        ih (Nat.lt_of_succ_lt_succ hi)]

theorem modify_append_last {α : Type} (xs : List α) (x : α) {i : Nat} (hi : i = xs.length)
    (f : α → α) : (xs ++ [x]).modify i f = xs ++ [f x] := by
  subst hi
  induction xs with
  | nil => rfl
  | cons y xs ih =>
    rw [List.cons_append, List.length_cons, List.modify_succ_cons, ih]
    rfl

section Record

variable (lib : Libc) (cfg : Kconfig)

/-- The recorder after a value under a key. -/
def Recorder.laid (r : Recorder) (key : Bytes) (j : Json) : Recorder :=
  { r with pool := r.counted ++ lay lib cfg r.stack.head? key r.pool.length j }

variable {lib cfg} {r : Recorder}

theorem Recorder.Ready.mem_pool (h : r.Ready) {parent : Nat} {stack : List Nat}
    (hstack : r.stack = parent :: stack) : parent < r.pool.length := by
  obtain ⟨t, ht, -⟩ := h.rooted parent (by rw [hstack]; rfl)
  exact (List.getElem?_eq_some_iff.mp ht).1

/-- With a small pool no container has as many children as it can count. -/
theorem Recorder.Ready.admits (h : r.Ready) {key : Bytes} (hkey : key.length ≤ tokKeyMaxLen)
    (hroom : r.pool.length < r.poolCap) (hcap : r.poolCap ≤ uint16Max) : r.Admits key := by
  refine ⟨hkey, hroom, ?_⟩
  unfold Recorder.parentFull
  split
  · rfl
  · rename_i parent stack hstack
    obtain ⟨t, ht, hcount⟩ := h.rooted parent (by rw [hstack]; rfl)
    rw [ht, Option.map_some]
    simp only [beq_eq_false_iff_ne, ne_eq, Option.some.injEq]
    omega

theorem Recorder.Ready.laid (h : r.Ready) (key : Bytes) (j : Json) :
    (r.laid lib cfg key j).Ready := by
  refine ⟨h.strOpen, fun parent hparent => ?_⟩
  obtain ⟨t, ht, hcount⟩ := h.rooted parent hparent
  have hlt := (List.getElem?_eq_some_iff.mp ht).1
  have hsize := j.size_pos
  refine ⟨t.addChildren 1, ?_, ?_⟩
  · obtain ⟨stack, hstack⟩ : ∃ stack, r.stack = parent :: stack :=
      ⟨r.stack.tail, (List.cons_head?_tail hparent).symm⟩
    unfold Recorder.laid
    dsimp only
    rw [List.getElem?_append_left (by rwa [length_counted])]
    unfold Recorder.counted
    rw [hstack]
    dsimp only
    rw [List.getElem?_modify_eq, ht]
    rfl
  · unfold Recorder.laid Tok.addChildren
    dsimp only
    rw [List.length_append, length_counted, length_lay]
    omega

/-- A container is opened: its token is at the end of the pool. -/
def Recorder.opened (r : Recorder) (val : TokVal) (key : Bytes) : Recorder :=
  { r with
    pool := r.counted ++ [r.newTok val false key]
    stack := r.pool.length :: r.stack }

theorem tokBegin_of_admits {val : TokVal} {key : Bytes} (h : r.Admits key)
    (hdepth : r.stack.length < maxDepth) : tokBegin r val key = (r.opened val key, .ok) := by
  unfold tokBegin
  rw [if_neg (Nat.not_le.mpr hdepth), tokAlloc_of_admits h]
  rfl

theorem Recorder.Ready.opened (h : r.Ready) (val : TokVal) (key : Bytes) :
    (r.opened val key).Ready := by
  refine ⟨h.strOpen, fun parent hparent => ?_⟩
  obtain rfl : r.pool.length = parent := by simpa [Recorder.opened] using hparent
  refine ⟨r.newTok val false key, ?_, ?_⟩
  · unfold Recorder.opened
    dsimp only
    rw [List.getElem?_append_right (by rw [length_counted])]
    simp
  · simp [Recorder.opened, Recorder.newTok]

/-- The recorder once the container behind it is closed, with the children's tokens. -/
def Recorder.closed (r : Recorder) (parent : Nat) (stack : List Nat) (n : Nat) (toks : List Tok) :
    Recorder :=
  { r with
    pool := r.pool.modify parent (Tok.addChildren n) ++ toks
    stack := stack }

/-- Closing after one more child in front. -/
theorem laid_closed {parent : Nat} {stack : List Nat} (h : r.Ready)
    (hstack : r.stack = parent :: stack) (key : Bytes) (j : Json) (n : Nat) (toks : List Tok) :
    (r.laid lib cfg key j).closed parent stack n toks =
      r.closed parent stack (n + 1) (lay lib cfg (some parent) key r.pool.length j ++ toks) := by
  have hlt := h.mem_pool hstack
  have hcounted : r.counted = r.pool.modify parent (Tok.addChildren 1) := by
    unfold Recorder.counted
    rw [hstack]
  have hadd : Tok.addChildren n ∘ Tok.addChildren 1 = Tok.addChildren (n + 1) := by
    funext t
    simp only [Function.comp_apply, Tok.addChildren, Nat.add_assoc, Nat.add_comm 1 n]
  unfold Recorder.laid Recorder.closed
  dsimp only
  rw [hcounted, hstack, modify_append_left (by rwa [List.length_modify]), List.modify_modify_eq,
    hadd, List.append_assoc]
  rfl

/-- An opened container, closed behind its children. -/
theorem opened_closed (val : TokVal) (key : Bytes) (n : Nat) (toks : List Tok) :
    (r.opened val key).closed r.pool.length r.stack n toks =
      { r with pool := r.counted ++ (r.newTok val false key).addChildren n :: toks } := by
  unfold Recorder.opened Recorder.closed
  dsimp only
  rw [modify_append_last _ _ (length_counted r).symm, List.append_assoc]
  rfl

theorem tokValue_of_admits {val : TokVal} {numInexact : Bool} {key : Bytes} (h : r.Admits key) :
    tokValue r val numInexact key =
      ({ r with pool := r.counted ++ [r.newTok val numInexact key] }, .ok) := by
  unfold tokValue
  rw [tokAlloc_of_admits h]

/-- The recorder after a whole string. -/
def Recorder.withStr (r : Recorder) (key value : Bytes) : Recorder :=
  { r with pool := r.counted ++ [r.newTok (.str value) false key] }

theorem tokValueStrChunk_of_admits {key value : Bytes} (h : r.Admits key) (hopen : r.strOpen = none) :
    tokValueStrChunk r key value true .callerStable = (r.withStr key value, .ok) := by
  unfold tokValueStrChunk Recorder.withStr
  rw [if_neg (by decide), hopen, tokAlloc_of_admits h]
  dsimp only
  rw [if_pos ⟨rfl, rfl⟩]
  unfold Recorder.setStr
  dsimp only
  rw [modify_append_last _ _ (length_counted r).symm]
  simp only [Recorder.newTok, hopen]

theorem tokValueStrChunk_of_not_admits {key value : Bytes} (h : ¬ r.Admits key)
    (hopen : r.strOpen = none) :
    tokValueStrChunk r key value true .callerStable = (r, .noSpace) := by
  unfold tokValueStrChunk
  rw [if_neg (by decide), hopen, tokAlloc_of_not_admits h]

/-- The end of a container without children. -/
theorem tokEnd_closed {parent : Nat} {stack : List Nat} (hstack : r.stack = parent :: stack) :
    tokEnd r = (r.closed parent stack 0 [], .ok) := by
  have hadd : Tok.addChildren 0 = id := by
    funext t
    rfl
  unfold tokEnd Recorder.closed
  rw [hstack, hadd, List.modify_id, List.append_nil]

mutual

/-- The events of a value lay it out. -/
theorem record_value (key : Bytes) : ∀ (j : Json) {r : Recorder}, r.Ready → r.poolCap ≤ uint16Max →
    Nests maxDepth r.stack.length (j.events key) → KeysFit (j.events key) →
    r.pool.length + j.size ≤ r.poolCap → ∀ cs,
      deliverCalls (tokSink lib cfg) r ((j.events key).map wholeCall ++ cs) =
        deliverCalls (tokSink lib cfg) (r.laid lib cfg key j) cs
  | .null, r, hready, hcap, hnests, hkeys, hroom, cs => by
    rw [Json.events] at hkeys ⊢
    have hadmits := hready.admits (hkeys _ List.mem_cons_self) (by rw [Json.size] at hroom; omega) hcap
    exact deliverCalls_cons_of_ok (tokValue_of_admits hadmits) cs
  | .bool v, r, hready, hcap, hnests, hkeys, hroom, cs => by
    rw [Json.events] at hkeys ⊢
    have hadmits := hready.admits (hkeys _ List.mem_cons_self) (by rw [Json.size] at hroom; omega) hcap
    exact deliverCalls_cons_of_ok (tokValue_of_admits hadmits) cs
  | .num text, r, hready, hcap, hnests, hkeys, hroom, cs => by
    rw [Json.events] at hkeys ⊢
    have hadmits := hready.admits (hkeys _ List.mem_cons_self) (by rw [Json.size] at hroom; omega) hcap
    exact deliverCalls_cons_of_ok (tokValue_of_admits hadmits) cs
  | .str value, r, hready, hcap, hnests, hkeys, hroom, cs => by
    rw [Json.events] at hkeys ⊢
    have hadmits := hready.admits (hkeys _ List.mem_cons_self) (by rw [Json.size] at hroom; omega) hcap
    exact deliverCalls_cons_of_ok (tokValueStrChunk_of_admits hadmits hready.strOpen) cs
  | .arr elems, r, hready, hcap, hnests, hkeys, hroom, cs => by
    rw [Json.events] at hkeys hnests ⊢
    rw [Json.size] at hroom
    have hadmits := hready.admits (hkeys _ List.mem_cons_self) (by omega) hcap
    have hbegin : tokSink lib cfg r (wholeCall (.beginArr key)) = (r.opened .arr key, .ok) :=
      tokBegin_of_admits hadmits hnests.1
    rw [List.map_cons, List.cons_append, deliverCalls_cons_of_ok hbegin,
      record_elems r.pool.length elems (hready.opened .arr key) hcap rfl hnests.2
        (fun e he => hkeys e (List.mem_cons_of_mem _ he)) (by
          simp only [Recorder.opened, List.length_append, length_counted, List.length_singleton]
          omega),
      opened_closed]
    have hstart : (r.opened .arr key).pool.length = r.pool.length + 1 := by
      simp [Recorder.opened]
    rw [hstart]
    unfold Recorder.laid lay
    rw [inside]
    congr 4
    simp [Recorder.newTok, Tok.addChildren, valueTok, tokVal]
  | .obj members, r, hready, hcap, hnests, hkeys, hroom, cs => by
    rw [Json.events] at hkeys hnests ⊢
    rw [Json.size] at hroom
    have hadmits := hready.admits (hkeys _ List.mem_cons_self) (by omega) hcap
    have hbegin : tokSink lib cfg r (wholeCall (.beginObj key)) = (r.opened .obj key, .ok) :=
      tokBegin_of_admits hadmits hnests.1
    rw [List.map_cons, List.cons_append, deliverCalls_cons_of_ok hbegin,
      record_members r.pool.length members (hready.opened .obj key) hcap rfl hnests.2
        (fun e he => hkeys e (List.mem_cons_of_mem _ he)) (by
          simp only [Recorder.opened, List.length_append, length_counted, List.length_singleton]
          omega),
      opened_closed]
    have hstart : (r.opened .obj key).pool.length = r.pool.length + 1 := by
      simp [Recorder.opened]
    rw [hstart]
    unfold Recorder.laid lay
    rw [inside]
    congr 4
    simp [Recorder.newTok, Tok.addChildren, valueTok, tokVal]

/-- The events of the elements of an array, and its end. -/
theorem record_elems (parent : Nat) : ∀ (js : List Json) {r : Recorder} {stack : List Nat}, r.Ready →
    r.poolCap ≤ uint16Max → r.stack = parent :: stack →
    Nests maxDepth r.stack.length (elemsEvents js) → KeysFit (elemsEvents js) →
    r.pool.length + elemsSize js ≤ r.poolCap → ∀ cs,
      deliverCalls (tokSink lib cfg) r ((elemsEvents js).map wholeCall ++ cs) =
        deliverCalls (tokSink lib cfg)
          (r.closed parent stack js.length (layElems lib cfg parent r.pool.length js)) cs
  | [], r, stack, hready, hcap, hstack, hnests, hkeys, hroom, cs => by
    rw [elemsEvents, layElems]
    have hend : tokSink lib cfg r (wholeCall .endArr) = (r.closed parent stack 0 [], .ok) :=
      tokEnd_closed hstack
    exact deliverCalls_cons_of_ok hend cs
  | j :: js, r, stack, hready, hcap, hstack, hnests, hkeys, hroom, cs => by
    rw [elemsEvents] at hkeys hnests ⊢
    rw [elemsSize] at hroom
    rw [nests_append, depthAfter_events] at hnests
    rw [keysFit_append] at hkeys
    rw [List.map_append, List.append_assoc,
      record_value [] j hready hcap hnests.1 hkeys.1 (by omega),
      record_elems parent js (hready.laid [] j) hcap hstack hnests.2 hkeys.2 (by
        simp only [Recorder.laid, List.length_append, length_counted, length_lay]
        omega),
      laid_closed hready hstack, layElems_cons]
    have hstart : (r.laid lib cfg [] j).pool.length = r.pool.length + j.size := by
      simp [Recorder.laid]
    rw [hstart, List.length_cons]

/-- The events of the members of an object, and its end. -/
theorem record_members (parent : Nat) : ∀ (ms : List (Bytes × Json)) {r : Recorder}
    {stack : List Nat}, r.Ready → r.poolCap ≤ uint16Max → r.stack = parent :: stack →
    Nests maxDepth r.stack.length (membersEvents ms) → KeysFit (membersEvents ms) →
    r.pool.length + membersSize ms ≤ r.poolCap → ∀ cs,
      deliverCalls (tokSink lib cfg) r ((membersEvents ms).map wholeCall ++ cs) =
        deliverCalls (tokSink lib cfg)
          (r.closed parent stack ms.length (layMembers lib cfg parent r.pool.length ms)) cs
  | [], r, stack, hready, hcap, hstack, hnests, hkeys, hroom, cs => by
    rw [membersEvents, layMembers]
    have hend : tokSink lib cfg r (wholeCall .endObj) = (r.closed parent stack 0 [], .ok) :=
      tokEnd_closed hstack
    exact deliverCalls_cons_of_ok hend cs
  | (key, j) :: ms, r, stack, hready, hcap, hstack, hnests, hkeys, hroom, cs => by
    rw [membersEvents] at hkeys hnests ⊢
    rw [membersSize] at hroom
    rw [nests_append, depthAfter_events] at hnests
    rw [keysFit_append] at hkeys
    rw [List.map_append, List.append_assoc,
      record_value key j hready hcap hnests.1 hkeys.1 (by omega),
      record_members parent ms (hready.laid key j) hcap hstack hnests.2 hkeys.2 (by
        simp only [Recorder.laid, List.length_append, length_counted, length_lay]
        omega),
      laid_closed hready hstack, layMembers_cons]
    have hstart : (r.laid lib cfg key j).pool.length = r.pool.length + j.size := by
      simp [Recorder.laid]
    rw [hstart, List.length_cons]

end

/-! ## What a recording needs -/

/-- A call that the recorder takes: its key fits, and so does the token it makes. -/
structure Takes (r : Recorder) (e : Event) (r' : Recorder) : Prop where
  key_fits : (keyOf e).length ≤ tokKeyMaxLen
  length_eq : r'.pool.length = r.pool.length + values [e]
  length_le : r.pool.length ≤ r.poolCap → r'.pool.length ≤ r.poolCap
  poolCap_eq : r'.poolCap = r.poolCap
  strOpen_eq : r'.strOpen = none

theorem tokValue_ok {val : TokVal} {numInexact : Bool} {key : Bytes} {r' : Recorder}
    (h : tokValue r val numInexact key = (r', .ok)) :
    r.Admits key ∧ r' = { r with pool := r.counted ++ [r.newTok val numInexact key] } := by
  by_cases hadmits : r.Admits key
  · rw [tokValue_of_admits hadmits] at h
    cases h
    exact ⟨hadmits, rfl⟩
  · unfold tokValue at h
    rw [tokAlloc_of_not_admits hadmits] at h
    cases h

theorem tokBegin_ok {val : TokVal} {key : Bytes} {r' : Recorder}
    (h : tokBegin r val key = (r', .ok)) : r.Admits key ∧ r' = r.opened val key := by
  by_cases hadmits : r.Admits key
  · refine ⟨hadmits, ?_⟩
    unfold tokBegin at h
    split at h
    · cases h
    · rw [tokAlloc_of_admits hadmits] at h
      cases h
      rfl
  · unfold tokBegin at h
    rw [tokAlloc_of_not_admits hadmits] at h
    split at h <;> cases h

theorem takes_of_ok (hready : r.strOpen = none) {e : Event} {r' : Recorder}
    (h : tokSink lib cfg r (wholeCall e) = (r', .ok)) : Takes r e r' := by
  have hvalue {val : TokVal} {numInexact : Bool} {key : Bytes}
      (hcall : tokValue r val numInexact key = (r', .ok)) (hkey : keyOf e = key)
      (hone : values [e] = 1) : Takes r e r' := by
    obtain ⟨hadmits, rfl⟩ := tokValue_ok hcall
    refine ⟨by rw [hkey]; exact hadmits.1, ?_, fun _ => ?_, rfl, hready⟩
    · simp [hone]
    · simpa [Nat.succ_le_iff] using hadmits.2.1
  have hbegin {val : TokVal} {key : Bytes} (hcall : tokBegin r val key = (r', .ok))
      (hkey : keyOf e = key) (hone : values [e] = 1) : Takes r e r' := by
    obtain ⟨hadmits, rfl⟩ := tokBegin_ok hcall
    refine ⟨by rw [hkey]; exact hadmits.1, ?_, fun _ => ?_, rfl, hready⟩
    · simp [Recorder.opened, hone]
    · simpa [Recorder.opened, Nat.succ_le_iff] using hadmits.2.1
  have hend (hcall : tokEnd r = (r', .ok)) (hkey : keyOf e = []) (hnone : values [e] = 0) :
      Takes r e r' := by
    unfold tokEnd at hcall
    split at hcall
    · cases hcall
    · cases hcall
      exact ⟨by simp [hkey], by simp [hnone], fun hle => hle, rfl, hready⟩
  cases e with
  | beginObj key => exact hbegin h rfl rfl
  | beginArr key => exact hbegin h rfl rfl
  | endObj => exact hend h rfl rfl
  | endArr => exact hend h rfl rfl
  | num key text => exact hvalue h rfl rfl
  | bool key v => exact hvalue h rfl rfl
  | null key => exact hvalue h rfl rfl
  | str key value =>
    have hcall : tokValueStrChunk r key value true .callerStable = (r', .ok) := h
    by_cases hadmits : r.Admits key
    · rw [tokValueStrChunk_of_admits hadmits hready] at hcall
      cases hcall
      refine ⟨hadmits.1, ?_, fun _ => ?_, rfl, hready⟩
      · simp [Recorder.withStr, values]
      · simpa [Recorder.withStr, Nat.succ_le_iff] using hadmits.2.1
    · rw [tokValueStrChunk_of_not_admits hadmits hready] at hcall
      cases hcall

theorem deliverCalls_ok_cons {σ : Type} {sink : σ → Call → σ × BbErr} {t t' : σ} {c : Call}
    {cs : List Call} (h : deliverCalls sink t (c :: cs) = (t', .ok)) :
    ∃ u, sink t c = (u, .ok) ∧ deliverCalls sink u cs = (t', .ok) := by
  rcases hc : sink t c with ⟨u, e⟩
  by_cases he : e = .ok
  · subst he
    rw [deliverCalls_cons_of_ok hc] at h
    exact ⟨u, rfl, h⟩
  · rw [deliverCalls_cons_of_error hc he] at h
    cases h
    exact absurd rfl he

/-- A recording that gets through has keys that fit a token and as many tokens as fit the pool. -/
theorem recordable_of_ok {evs : List Event} {r' : Recorder} (hopen : r.strOpen = none)
    (hle : r.pool.length ≤ r.poolCap)
    (h : deliverCalls (tokSink lib cfg) r (evs.map wholeCall) = (r', .ok)) :
    KeysFit evs ∧ r.pool.length + values evs ≤ r.poolCap := by
  induction evs generalizing r with
  | nil => exact ⟨nofun, by simpa [values] using hle⟩
  | cons e evs ih =>
    obtain ⟨r₁, hcall, hrest⟩ := deliverCalls_ok_cons h
    have htakes := takes_of_ok hopen hcall
    have hle' : r₁.pool.length ≤ r₁.poolCap := by
      rw [htakes.poolCap_eq]
      exact htakes.length_le hle
    obtain ⟨hkeys, hroom⟩ := ih htakes.strOpen_eq hle' hrest
    refine ⟨fun e' he' => ?_, ?_⟩
    · rcases List.mem_cons.mp he' with rfl | he'
      · exact htakes.key_fits
      · exact hkeys e' he'
    · rw [htakes.length_eq, htakes.poolCap_eq] at hroom
      rw [← List.singleton_append, values_append]
      omega

end Record

end SerializeJson
end Breadboard
