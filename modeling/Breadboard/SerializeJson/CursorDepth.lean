import Breadboard.Serialize.Exchange
import Breadboard.SerializeJson.PopulateTok
import Breadboard.SerializeJson.Streaming
import Breadboard.SerializeJson.TokTree

/-!
# bb_serialize_json - the stack of the populate cursor

An array of objects takes one level of the descriptor and two frames of the cursor, so the
cursor keeps within its frames by a check of its own.  What is pushed is popped, and over
the tokens of a scanned document the check never fails: a frame is in the document as deep
as it is on the stack, and the scanner counts the containers of the document.

Main results:

- Theorem `exchange_not_refused`: over a scanned document no begin call is refused.
- Theorem `populate_rejects_or_completes`: populate over any source, over the cursor,
  and over a scanned document.
-/

namespace Breadboard
namespace SerializeJson

open Serialize
open Foundations.JsonText (Json Members Nests field? elemsEvents membersEvents nests_member
  nests_elem)

/-! ## What is pushed is popped -/

/-- All but the element counter of the current frame is the same. -/
structure SameStack (x y : Cursor) : Prop where
  pool_eq : y.pool = x.pool
  idx_eq : y.top.idx = x.top.idx
  below_eq : y.below = x.below

theorem SameStack.refl (x : Cursor) : SameStack x x := ⟨rfl, rfl, rfl⟩

theorem SameStack.trans {x y z : Cursor} (h : SameStack x y) (h' : SameStack y z) :
    SameStack x z where
  pool_eq := h'.pool_eq.trans h.pool_eq
  idx_eq := h'.idx_eq.trans h.idx_eq
  below_eq := h'.below_eq.trans h.below_eq

/-- A container's frame is off the stack again. -/
theorem SameStack.pop {x y : Cursor} {idx : Option Nat} (h : SameStack (x.push idx) y) :
    SameStack x y.pop := by
  unfold Cursor.pop
  rw [h.below_eq]
  exact ⟨h.pool_eq, rfl, rfl⟩

theorem next_sameStack (st : Cursor) (key : Option Bytes) : SameStack st (st.next key).2 := by
  cases key <;> exact ⟨rfl, rfl, rfl⟩

/-- What `populate_begin_obj` does. -/
theorem beginObj_cases (st : Cursor) (key : Option Bytes) :
    (st.beginObj key).1 = false ∧ (st.beginObj key).2 = (st.next key).2 ∨
      (st.beginObj key).1 = true ∧ (st.beginObj key).2 = (st.next key).2.push (st.next key).1 ∧
        tokIsObj st.pool (st.next key).1 = true ∧ st.below.length < maxDepth := by
  unfold Cursor.beginObj
  split
  · exact .inl ⟨rfl, rfl⟩
  rename_i hobj
  split
  · exact .inl ⟨rfl, rfl⟩
  rename_i hroom
  exact .inr ⟨rfl, rfl, by simpa using hobj, Nat.lt_of_not_le hroom⟩

/-- What `populate_begin_arr` does. -/
theorem beginArr_cases (st : Cursor) (key : Bytes) :
    (st.beginArr key).1 = none ∧ (st.beginArr key).2 = st ∨
      (∃ count, (st.beginArr key).1 = some count) ∧
        (st.beginArr key).2 = st.push (tokObjGet st.pool st.top.idx key) ∧
        tokIsArr st.pool (tokObjGet st.pool st.top.idx key) = true ∧ st.below.length < maxDepth := by
  unfold Cursor.beginArr
  dsimp only
  split
  · exact .inl ⟨rfl, rfl⟩
  rename_i harr
  split
  · exact .inl ⟨rfl, rfl⟩
  rename_i hroom
  exact .inr ⟨⟨_, rfl⟩, rfl, by simpa using harr, Nat.lt_of_not_le hroom⟩

theorem reads_sameStack {x y : Cursor} {call : SourceCall} (h : Reads populateSource x call y) :
    SameStack x y := by
  cases h with
  | getI64 key => exact .refl x
  | getU64 key => exact .refl x
  | getF64 key => exact .refl x
  | getBool key => exact .refl x
  | getStr key cap => exact next_sameStack x key
  | noObj key h =>
    rcases beginObj_cases x key with ⟨-, hsame⟩ | ⟨htrue, -⟩
    · show SameStack x (x.beginObj key).2
      rw [hsame]
      exact next_sameStack x key
    · exact nomatch h.symm.trans htrue
  | noArr key h =>
    rcases beginArr_cases x key with ⟨-, hsame⟩ | ⟨⟨count, hsome⟩, -⟩
    · show SameStack x (x.beginArr key).2
      rw [hsame]
      exact .refl x
    · exact nomatch h.symm.trans hsome

/-- A successful begin call of an object. -/
theorem beginObj_pushes {x : Cursor} {key : Option Bytes}
    (h : (populateSource.beginObj x key).1 = true) :
    (populateSource.beginObj x key).2 = (x.next key).2.push (x.next key).1 ∧
      tokIsObj x.pool (x.next key).1 = true ∧ x.below.length < maxDepth := by
  rcases beginObj_cases x key with ⟨hfalse, -⟩ | ⟨-, hpushes⟩
  · exact nomatch h.symm.trans hfalse
  · exact hpushes

/-- A successful begin call of an array. -/
theorem beginArr_pushes {x : Cursor} {key : Bytes} {count : Nat}
    (h : (populateSource.beginArr x key).1 = some count) :
    (populateSource.beginArr x key).2 = x.push (tokObjGet x.pool x.top.idx key) ∧
      tokIsArr x.pool (tokObjGet x.pool x.top.idx key) = true ∧ x.below.length < maxDepth := by
  rcases beginArr_cases x key with ⟨hnone, -⟩ | ⟨-, hpushes⟩
  · exact nomatch h.symm.trans hnone
  · exact hpushes

/-- The stack over some calls: always within its frames, and in the end as it was found. -/
structure StackKept (x : Cursor) (log : CallLog Cursor) (y : Cursor) : Prop where
  within : ∀ call ∈ log, call.2.below.length ≤ maxDepth
  restored : SameStack x y

/-- What holds of every call of a container and of those behind it. -/
theorem forall_mem_container {Q : SourceCall × Cursor → Prop} {inner log : CallLog Cursor}
    {opening closing : SourceCall × Cursor} (hopening : Q opening)
    (hinner : ∀ call ∈ inner, Q call) (hclosing : Q closing) (hlog : ∀ call ∈ log, Q call) :
    ∀ call ∈ opening :: inner ++ closing :: log, Q call := by
  intro call hcall
  rcases List.mem_append.mp hcall with hcall | hcall
  · rcases List.mem_cons.mp hcall with rfl | hcall
    · exact hopening
    · exact hinner call hcall
  · rcases List.mem_cons.mp hcall with rfl | hcall
    · exact hclosing
    · exact hlog call hcall

/-- A container between its two calls, with what follows it. -/
theorem StackKept.container {x y z : Cursor} {idx : Option Nat} {inner log : CallLog Cursor}
    {opening closing : SourceCall} {x' : Cursor} (hx : SameStack x x')
    (hroom : x.below.length ≤ maxDepth) (hy : y.below.length ≤ maxDepth)
    (hinner : StackKept (x'.push idx) inner y) (hrest : StackKept y.pop log z) :
    StackKept x ((opening, x) :: inner ++ (closing, y) :: log) z where
  within := forall_mem_container hroom hinner.within hy hrest.within
  restored := (hx.trans hinner.restored.pop).trans hrest.restored

/-- An exchange keeps within the frames and gives back the stack it found. -/
theorem exchange_stackKept {x y : Cursor} {log : CallLog Cursor}
    (h : Exchange populateSource x log y) (hx : x.below.length ≤ maxDepth) : StackKept x log y := by
  induction h with
  | done x => exact ⟨nofun, .refl x⟩
  | @read x y z call log hread _ ih =>
    have hsame := reads_sameStack hread
    have hrest := ih (by rwa [hsame.below_eq])
    refine ⟨fun c hc => ?_, hsame.trans hrest.restored⟩
    rcases List.mem_cons.mp hc with rfl | hc
    · exact hx
    · exact hrest.within c hc
  | @obj x y z inner log key hbegin _ _ ihinner ih =>
    obtain ⟨hpush, -, hroom⟩ := beginObj_pushes hbegin
    have hnext := next_sameStack x key
    rw [hpush] at ihinner
    have hdeep : ((x.next key).2.push (x.next key).1).below.length = x.below.length + 1 := by
      rw [Cursor.push, List.length_cons, hnext.below_eq]
    have hinner := ihinner (by omega)
    have hy : y.below.length = x.below.length + 1 := by rw [hinner.restored.below_eq, hdeep]
    have hrest := ih (by
      show y.pop.below.length ≤ maxDepth
      rw [(hnext.trans hinner.restored.pop).below_eq]
      exact hx)
    exact .container hnext hx (by omega) hinner hrest
  | @arr x y z inner log key count hbegin _ _ ihinner ih =>
    obtain ⟨hpush, -, hroom⟩ := beginArr_pushes hbegin
    rw [hpush] at ihinner
    have hdeep : (x.push (tokObjGet x.pool x.top.idx key)).below.length = x.below.length + 1 := by
      rw [Cursor.push, List.length_cons]
    have hinner := ihinner (by omega)
    have hy : y.below.length = x.below.length + 1 := by rw [hinner.restored.below_eq, hdeep]
    have hrest := ih (by
      show y.pop.below.length ≤ maxDepth
      rw [hinner.restored.pop.below_eq]
      exact hx)
    exact .container (.refl x) hx (by omega) hinner hrest

/-! ## Scanned documents -/

section Scanned

variable (lib : Libc) (cfg : Kconfig)

/-- The token of the current frame, and how deep in the document it may still nest. -/
def Seated (st : Cursor) : Prop :=
  ∃ i j key, st.top.idx = some i ∧ LaidApart lib cfg st.pool i j ∧
    Nests maxDepth st.below.length (j.events key)

variable {lib cfg}

theorem Seated.same {x y : Cursor} (h : Seated lib cfg x) (hsame : SameStack x y) :
    Seated lib cfg y := by
  unfold Seated
  rw [hsame.idx_eq, hsame.pool_eq, hsame.below_eq]
  exact h

/-- What an object's members and an array's elements nest. -/
theorem Seated.child {st : Cursor} (h : Seated lib cfg st) {key : Option Bytes} {k : Nat}
    (hk : (st.next key).1 = some k) :
    ∃ v own, LaidApart lib cfg st.pool k v ∧
      Nests maxDepth (st.below.length + 1) (v.events own) := by
  obtain ⟨i, j, own, hidx, hlaid, hnests⟩ := h
  cases key with
  | some key =>
    have hget : tokObjGet st.pool (some i) key = some k := by rwa [← hidx]
    have hobj := tokIsObj_of_laidAt hlaid.laidAt
    cases j with
    | obj ms =>
      have hmembers : Nests maxDepth (st.below.length + 1) (membersEvents ms) := by
        rw [Json.events] at hnests
        exact hnests.2
      cases hv : field? key ms with
      | none =>
        rw [hlaid.objGet_absent hv] at hget
        cases hget
      | some v =>
        obtain ⟨k', hfound, hchild, -⟩ := hlaid.objGet_found hv
        obtain rfl : k' = k := Option.some.inj (hfound.symm.trans hget)
        exact ⟨v, key, hchild, nests_member hmembers hv⟩
    | _ =>
      unfold tokObjGet at hget
      rw [if_pos hobj] at hget
      cases hget
  | none =>
    have hat : tokArrAt st.pool (some i) st.top.nextElem = some k := by rwa [← hidx]
    have harr := tokIsArr_of_laidAt hlaid.laidAt
    cases j with
    | arr elems =>
      have helems : Nests maxDepth (st.below.length + 1) (elemsEvents elems) := by
        rw [Json.events] at hnests
        exact hnests.2
      cases he : elems[st.top.nextElem]? with
      | none =>
        rw [hlaid.arrAt_beyond (List.getElem?_eq_none_iff.mp he)] at hat
        cases hat
      | some e =>
        obtain ⟨k', hfound, hchild, -⟩ := hlaid.arrAt_found he
        obtain rfl : k' = k := Option.some.inj (hfound.symm.trans hat)
        exact ⟨e, [], hchild, nests_elem helems (List.mem_of_getElem? he)⟩
    | _ =>
      unfold tokArrAt at hat
      rw [if_pos harr] at hat
      cases hat

/-- A container below the current token, and the room for its frame. -/
theorem Seated.push {st : Cursor} (h : Seated lib cfg st) {key : Option Bytes}
    (hcontainer : tokIsObj st.pool (st.next key).1 = true ∨
      tokIsArr st.pool (st.next key).1 = true) :
    st.below.length < maxDepth ∧ Seated lib cfg ((st.next key).2.push (st.next key).1) := by
  cases hk : (st.next key).1 with
  | none =>
    rw [hk] at hcontainer
    exact (hcontainer.elim (fun h => nomatch h) fun h => nomatch h)
  | some k =>
    obtain ⟨v, own, hlaid, hnests⟩ := h.child hk
    have hsame := next_sameStack st key
    refine ⟨?_, k, v, own, rfl, ?_, ?_⟩
    · rw [hk, tokIsObj_of_laidAt hlaid.laidAt, tokIsArr_of_laidAt hlaid.laidAt] at hcontainer
      cases v with
      | obj ms =>
        rw [Json.events] at hnests
        have hlt := hnests.1
        omega
      | arr elems =>
        rw [Json.events] at hnests
        have hlt := hnests.1
        omega
      | _ => simp at hcontainer
    · show LaidApart lib cfg (st.next key).2.pool k v
      rwa [hsame.pool_eq]
    · show Nests maxDepth (List.length (_ :: (st.next key).2.below)) (v.events own)
      rwa [List.length_cons, hsame.below_eq]

/-- A begin call finds its container but no frame for it. -/
def Refused (call : SourceCall) (st : Cursor) : Prop :=
  maxDepth ≤ st.below.length ∧
    match call with
    | .beginObj key => tokIsObj st.pool (st.next key).1 = true
    | .beginArr key => tokIsArr st.pool (tokObjGet st.pool st.top.idx key) = true
    | _ => False

theorem Seated.not_refused {st : Cursor} (h : Seated lib cfg st) (call : SourceCall) :
    ¬ Refused call st := by
  rintro ⟨hfull, hcall⟩
  cases call with
  | beginObj key =>
    have hroom := (h.push (.inl hcall)).1
    omega
  | beginArr key =>
    have hroom := (@Seated.push lib cfg st h (some key) (.inr hcall)).1
    omega
  | _ => exact hcall

/-- Over a scanned document no begin call is refused. -/
theorem exchange_not_refused {x y : Cursor} {log : CallLog Cursor}
    (h : Exchange populateSource x log y) (hx : Seated lib cfg x)
    (hdepth : x.below.length ≤ maxDepth) : ∀ call ∈ log, ¬ Refused call.1 call.2 := by
  induction h with
  | done x => exact nofun
  | @read x y z call log hread _ ih =>
    have hsame := reads_sameStack hread
    intro c hc
    rcases List.mem_cons.mp hc with rfl | hc
    · exact hx.not_refused call
    · exact ih (hx.same hsame) (by rwa [hsame.below_eq]) c hc
  | @obj x y z inner log key hbegin hinner hrest ihinner ih =>
    obtain ⟨hpush, hobj, hroom⟩ := beginObj_pushes hbegin
    have hnext := next_sameStack x key
    have hseated := (hx.push (.inl hobj)).2
    rw [hpush] at hinner ihinner
    have hdeep : ((x.next key).2.push (x.next key).1).below.length ≤ maxDepth := by
      rw [Cursor.push, List.length_cons, hnext.below_eq]
      omega
    have hback : SameStack x y.pop :=
      hnext.trans (exchange_stackKept hinner hdeep).restored.pop
    have hend : y.pop.below.length ≤ maxDepth := by rwa [hback.below_eq]
    exact forall_mem_container (hx.not_refused _) (ihinner hseated hdeep)
      (fun hrefused => hrefused.2) (ih (hx.same hback) hend)
  | @arr x y z inner log key count hbegin hinner hrest ihinner ih =>
    obtain ⟨hpush, harr, hroom⟩ := beginArr_pushes hbegin
    have hseated := (@Seated.push lib cfg x hx (some key) (.inr harr)).2
    rw [hpush] at hinner ihinner
    have hdeep : (x.push (tokObjGet x.pool x.top.idx key)).below.length ≤ maxDepth := by
      rw [Cursor.push, List.length_cons]
      omega
    have hback : SameStack x y.pop := (exchange_stackKept hinner hdeep).restored.pop
    have hend : y.pop.below.length ≤ maxDepth := by rwa [hback.below_eq]
    exact forall_mem_container (hx.not_refused _) (ihinner hseated hdeep)
      (fun hrefused => hrefused.2) (ih (hx.same hback) hend)

/-- A cursor at the root of what was scanned. -/
theorem seated_root {poolCap arenaCap : Nat} {buf : Bytes} {r : Recorder}
    (h : scanBounded cfg (tokSink lib cfg) (.init poolCap arenaCap) buf = (r, .ok)) {st : Cursor}
    (hpool : st.pool = r.pool) (htop : st.top.idx = tokRoot r.pool) (hbelow : st.below = []) :
    Seated lib cfg st := by
  obtain ⟨j, -, hlimits, hlay⟩ := pool_of_scan_ok h
  have hne : r.pool ≠ [] := by
    rw [hlay]
    exact List.cons_ne_nil _ _
  refine ⟨0, j, [], ?_, ?_, ?_⟩
  · rw [htop, tokRoot, if_neg hne]
  · rw [hpool, hlay]
    exact ⟨none, [], [], (List.append_nil _).symm, nofun⟩
  · rw [hbelow]
    exact hlimits.1

end Scanned

/-! ## Populate -/

/-- The calls of a populate over the cursor. -/
def cursorLog (P : Program) (fields : List Field) (dst : Nat) (s : Scatter Cursor) :
    CallLog Cursor :=
  (populate P populateSource.traced fields dst s.traced).2.src.2

/--
Every populate, from any source, is rejected before it starts or runs to its end.  Over the
cursor it keeps within the frames and gives back the stack it found; and over a scanned
document, from the root, no begin call is refused for want of a frame.
-/
theorem populate_rejects_or_completes (P : Program) (fields : List Field) (dst : Nat) :
    (∀ (σ : Type) (src : Source σ) (s : Scatter σ), AllOrNothing P src fields dst s) ∧
      (∀ s : Scatter Cursor, s.src.below.length ≤ maxDepth →
        StackKept s.src (cursorLog P fields dst s)
          (populate P populateSource fields dst s).2.src) ∧
      ∀ (lib : Libc) (cfg : Kconfig) (poolCap arenaCap : Nat) (buf : Bytes) (r : Recorder)
        (s : Scatter Cursor),
        scanBounded cfg (tokSink lib cfg) (.init poolCap arenaCap) buf = (r, .ok) →
        s.src.pool = r.pool → s.src.top.idx = tokRoot r.pool → s.src.below = [] →
        ∀ call ∈ cursorLog P fields dst s, ¬ Refused call.1 call.2 := by
  have hexchange (s : Scatter Cursor) :
      Exchange populateSource s.src (cursorLog P fields dst s)
        (populate P populateSource fields dst s).2.src := by
    have herase := (populate_erase P populateSource fields dst s).2
    rw [herase]
    exact populate_exchange populateSource P fields dst s
  refine ⟨fun σ src s => allOrNothing P src fields dst s,
    fun s hs => exchange_stackKept (hexchange s) hs, ?_⟩
  intro lib cfg poolCap arenaCap buf r s hscan hpool htop hbelow
  have hdepth : s.src.below.length ≤ maxDepth := by
    rw [hbelow]
    exact Nat.zero_le _
  exact exchange_not_refused (hexchange s) (seated_root hscan hpool htop hbelow) hdepth

/-- An array of objects with one number each. -/
def rowProgram : Program :=
  { wordProgram with tables := fun _ => [{ oneItem .obj with key := [98], type := .i64 }] }

/-- The document `{"a":[{"b":7}]}`. -/
def oneRow : Bytes :=
  [123, 34, 97, 34, 58, 91, 123, 34, 98, 34, 58, 55, 125, 93, 125]

/-- The document's recorder, and a populate from its root. -/
def rowRecorder : Recorder :=
  (scanBounded .default (tokSink noFloats .default) (.init 4 0) oneRow).1

def rowScatter : Scatter Cursor := .start wiredMem (populateFromTok rowRecorder.pool)

theorem populate_rejects_or_completes_rows :
    (cursorLog rowProgram [oneItem .obj] 0 rowScatter).map Prod.fst =
        [.beginArr [97], .beginObj none, .getI64 [98], .endObj, .endArr] ∧
      (populate rowProgram populateSource [oneItem .obj] 0 rowScatter).2.src.below = [] ∧
      ∀ call ∈ cursorLog rowProgram [oneItem .obj] 0 rowScatter, ¬ Refused call.1 call.2 := by
  obtain ⟨-, hkept, hscanned⟩ := populate_rejects_or_completes rowProgram [oneItem .obj] 0
  have hstart : rowScatter.src.below.length ≤ maxDepth := Nat.zero_le _
  have hok : (scanBounded .default (tokSink noFloats .default) (.init 4 0) oneRow).2 = .ok := by
    decide +kernel
  exact ⟨by decide +kernel, (hkept rowScatter hstart).restored.below_eq,
    hscanned noFloats .default 4 0 oneRow rowRecorder rowScatter (Prod.ext rfl hok) rfl rfl rfl⟩

end SerializeJson
end Breadboard
