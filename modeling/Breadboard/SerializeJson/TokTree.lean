import Breadboard.SerializeJson.TokParse

/-!
# bb_serialize_json_tok - the pool as a tree

What a scan that gets through leaves in the pool, for a pool of any size: the values of the
document in the order in which they start, each with its children where the navigation
finds them and nothing else.  A string token has a 32-bit length.

Main results:

- Theorem `laid_of_ok`: the events of a value that the recorder takes lay it out.
- Theorem `represents_preorder`: every token of a recorded document represents its value.
-/

namespace Breadboard
namespace SerializeJson

open Foundations Serialize
open Foundations.JsonText (Json Members Event IsText LaxNumber membersEvents elemsEvents elemsSize
  membersSize field? field?_cons)
open Scan (deliverCalls)

/-! ## Recording into a pool of any size -/

section Record

variable {lib : Libc} {cfg : Kconfig}

mutual

/-- The events of a value, when the recorder takes them all, lay it out. -/
theorem laid_of_ok (key : Bytes) : ∀ (j : Json) {r : Recorder}, r.Ready → ∀ {cs : List Call}
    {r' : Recorder},
    deliverCalls (tokSink lib cfg) r ((j.events key).map wholeCall ++ cs) = (r', .ok) →
      deliverCalls (tokSink lib cfg) (r.laid lib cfg key j) cs = (r', .ok)
  | .null, r, hready, cs, r', h => by
    rw [Json.events] at h
    obtain ⟨u, hcall, hrest⟩ := deliverCalls_ok_cons h
    obtain ⟨-, rfl⟩ := tokValue_ok hcall
    exact hrest
  | .bool v, r, hready, cs, r', h => by
    rw [Json.events] at h
    obtain ⟨u, hcall, hrest⟩ := deliverCalls_ok_cons h
    obtain ⟨-, rfl⟩ := tokValue_ok hcall
    exact hrest
  | .num text, r, hready, cs, r', h => by
    rw [Json.events] at h
    obtain ⟨u, hcall, hrest⟩ := deliverCalls_ok_cons h
    obtain ⟨-, rfl⟩ := tokValue_ok hcall
    exact hrest
  | .str value, r, hready, cs, r', h => by
    rw [Json.events] at h
    obtain ⟨u, hcall, hrest⟩ := deliverCalls_ok_cons h
    have hwhole : tokValueStrChunk r key value true .callerStable = (u, .ok) := hcall
    by_cases hadmits : r.Admits key
    · rw [tokValueStrChunk_of_admits hadmits hready.strOpen] at hwhole
      cases hwhole
      exact hrest
    · rw [tokValueStrChunk_of_not_admits hadmits hready.strOpen] at hwhole
      cases hwhole
  | .arr elems, r, hready, cs, r', h => by
    rw [Json.events, List.map_cons, List.cons_append] at h
    obtain ⟨u, hcall, hrest⟩ := deliverCalls_ok_cons h
    obtain ⟨-, rfl⟩ := tokBegin_ok hcall
    have hclosed := laid_elems_of_ok r.pool.length elems (hready.opened .arr key) rfl hrest
    have hstart : (r.opened .arr key).pool.length = r.pool.length + 1 := by
      simp [Recorder.opened]
    rw [opened_closed, hstart] at hclosed
    rw [← hclosed]
    unfold Recorder.laid lay
    rw [inside]
    congr 4
    simp [Recorder.newTok, Tok.addChildren, valueTok, tokVal]
  | .obj members, r, hready, cs, r', h => by
    rw [Json.events, List.map_cons, List.cons_append] at h
    obtain ⟨u, hcall, hrest⟩ := deliverCalls_ok_cons h
    obtain ⟨-, rfl⟩ := tokBegin_ok hcall
    have hclosed := laid_members_of_ok r.pool.length members (hready.opened .obj key) rfl hrest
    have hstart : (r.opened .obj key).pool.length = r.pool.length + 1 := by
      simp [Recorder.opened]
    rw [opened_closed, hstart] at hclosed
    rw [← hclosed]
    unfold Recorder.laid lay
    rw [inside]
    congr 4
    simp [Recorder.newTok, Tok.addChildren, valueTok, tokVal]

theorem laid_elems_of_ok (parent : Nat) : ∀ (js : List Json) {r : Recorder} {stack : List Nat},
    r.Ready → r.stack = parent :: stack → ∀ {cs : List Call} {r' : Recorder},
    deliverCalls (tokSink lib cfg) r ((elemsEvents js).map wholeCall ++ cs) = (r', .ok) →
      deliverCalls (tokSink lib cfg)
        (r.closed parent stack js.length (layElems lib cfg parent r.pool.length js)) cs = (r', .ok)
  | [], r, stack, hready, hstack, cs, r', h => by
    rw [elemsEvents] at h
    rw [layElems]
    obtain ⟨u, hcall, hrest⟩ := deliverCalls_ok_cons h
    have hend : tokSink lib cfg r (wholeCall .endArr) = (r.closed parent stack 0 [], .ok) :=
      tokEnd_closed hstack
    cases hend.symm.trans hcall
    exact hrest
  | j :: js, r, stack, hready, hstack, cs, r', h => by
    rw [elemsEvents, List.map_append, List.append_assoc] at h
    have hrest := laid_elems_of_ok parent js (hready.laid [] j) hstack (laid_of_ok [] j hready h)
    have hstart : (r.laid lib cfg [] j).pool.length = r.pool.length + j.size := by
      simp [Recorder.laid]
    rw [laid_closed hready hstack, hstart, ← layElems_cons] at hrest
    exact hrest

theorem laid_members_of_ok (parent : Nat) : ∀ (ms : List (Bytes × Json)) {r : Recorder}
    {stack : List Nat}, r.Ready → r.stack = parent :: stack → ∀ {cs : List Call} {r' : Recorder},
    deliverCalls (tokSink lib cfg) r ((membersEvents ms).map wholeCall ++ cs) = (r', .ok) →
      deliverCalls (tokSink lib cfg)
        (r.closed parent stack ms.length (layMembers lib cfg parent r.pool.length ms)) cs = (r', .ok)
  | [], r, stack, hready, hstack, cs, r', h => by
    rw [membersEvents] at h
    rw [layMembers]
    obtain ⟨u, hcall, hrest⟩ := deliverCalls_ok_cons h
    have hend : tokSink lib cfg r (wholeCall .endObj) = (r.closed parent stack 0 [], .ok) :=
      tokEnd_closed hstack
    cases hend.symm.trans hcall
    exact hrest
  | (key, j) :: ms, r, stack, hready, hstack, cs, r', h => by
    rw [membersEvents, List.map_append, List.append_assoc] at h
    have hrest := laid_members_of_ok parent ms (hready.laid key j) hstack (laid_of_ok key j hready h)
    have hstart : (r.laid lib cfg key j).pool.length = r.pool.length + j.size := by
      simp [Recorder.laid]
    rw [laid_closed hready hstack, hstart, ← layMembers_cons] at hrest
    exact hrest

end

/-- What a scan that gets through leaves, for a pool of any size. -/
theorem pool_of_scan_ok {poolCap arenaCap : Nat} {buf : Bytes} {r : Recorder}
    (h : scanBounded cfg (tokSink lib cfg) (.init poolCap arenaCap) buf = (r, .ok)) :
    ∃ j, IsText LaxNumber buf (j.events []) ∧ WithinLimits cfg (j.events []) ∧
      r.pool = lay lib cfg none [] 0 j := by
  have hok : (scanBounded cfg (tokSink lib cfg) (.init poolCap arenaCap) buf).2 = .ok := by rw [h]
  obtain ⟨evs, htext, hlimits⟩ :=
    (scanBounded_ok_iff cfg record_accepting [] buf).mp (scanBounded_record_ok hok)
  obtain ⟨j, rfl⟩ := htext.exists_json
  refine ⟨j, htext, hlimits, ?_⟩
  obtain ⟨calls, hrecord, hgather⟩ := gather_scanBounded htext hlimits
  have hdurable := scanBounded_durable cfg buf
  rw [hrecord] at hdurable
  have hstart : Follows (.init poolCap arenaCap) (.init poolCap arenaCap) none :=
    ⟨⟨rfl, rfl, rfl⟩, rfl, rfl⟩
  obtain ⟨hcode, hpool⟩ := @follows lib cfg _ _ calls none _ hstart hdurable
    (gatherFrom_of_gather hgather) (Nat.zero_le arenaCap)
  rw [scanBounded_deliver hrecord] at h hok
  have hwhole := hcode.mp hok
  have hready : (Recorder.init poolCap arenaCap).Ready := ⟨rfl, nofun⟩
  have hlaid := @laid_of_ok lib cfg [] j _ hready []
    (deliverCalls (tokSink lib cfg) (.init poolCap arenaCap) ((j.events []).map wholeCall)).1
  rw [List.append_nil] at hlaid
  have hrecorded := hlaid (Prod.ext rfl hwhole.1)
  have hend := hpool hok
  rw [h] at hend
  rw [hend, ← congrArg Prod.fst hrecorded]
  rfl

end Record

/-! ## Values in document order -/

mutual

/-- The values of a value in the order in which they start, itself first. -/
def preorder : Json → List Json
  | .arr elems => .arr elems :: elemsPreorder elems
  | .obj members => .obj members :: membersPreorder members
  | j => [j]

def elemsPreorder : List Json → List Json
  | [] => []
  | j :: js => preorder j ++ elemsPreorder js

def membersPreorder : List (Bytes × Json) → List Json
  | [] => []
  | (_, j) :: ms => preorder j ++ membersPreorder ms

end

mutual

@[simp] theorem length_preorder : ∀ j : Json, (preorder j).length = j.size
  | .null => by simp [preorder, Json.size]
  | .bool _ => by simp [preorder, Json.size]
  | .num _ => by simp [preorder, Json.size]
  | .str _ => by simp [preorder, Json.size]
  | .arr elems => by
    rw [preorder, List.length_cons, length_elemsPreorder elems, Json.size, Nat.add_comm]
  | .obj members => by
    rw [preorder, List.length_cons, length_membersPreorder members, Json.size, Nat.add_comm]

theorem length_elemsPreorder : ∀ js : List Json, (elemsPreorder js).length = elemsSize js
  | [] => by rw [elemsPreorder, elemsSize, List.length_nil]
  | j :: js => by
    rw [elemsPreorder, elemsSize, List.length_append, length_preorder j, length_elemsPreorder js]

theorem length_membersPreorder : ∀ ms : List (Bytes × Json),
    (membersPreorder ms).length = membersSize ms
  | [] => by rw [membersPreorder, membersSize, List.length_nil]
  | (_, j) :: ms => by
    rw [membersPreorder, membersSize, List.length_append, length_preorder j,
      length_membersPreorder ms]

end

/-! ## Laid out apart from what follows -/

section Apart

/-- No token's parent lies among the `n` tokens from `i` on. -/
def Apart (i n : Nat) (ts : List Tok) : Prop :=
  ∀ t ∈ ts, ∀ q, t.parent = some q → q < i ∨ i + n ≤ q

theorem apart_append {i n : Nat} {ts ts' : List Tok} :
    Apart i n (ts ++ ts') ↔ Apart i n ts ∧ Apart i n ts' := by
  simp [Apart, or_imp, forall_and]

/-- A value is laid out at index `i`, and the tokens behind it belong elsewhere. -/
def LaidApart (lib : Libc) (cfg : Kconfig) (pool : List Tok) (i : Nat) (j : Json) : Prop :=
  ∃ parent key rest, pool.drop i = lay lib cfg parent key i j ++ rest ∧ Apart i j.size rest

variable {lib : Libc} {cfg : Kconfig} {pool : List Tok}

theorem LaidApart.laidAt {i : Nat} {j : Json} (h : LaidApart lib cfg pool i j) :
    LaidAt lib cfg pool i j := by
  obtain ⟨parent, key, rest, hdrop, -⟩ := h
  exact ⟨parent, key, rest, hdrop⟩

theorem apart_layElems {p i n start : Nat} (hp : p < i) (hstart : i + n ≤ start) (js : List Json) :
    Apart i n (layElems lib cfg p start js) := by
  intro t ht q hq
  rcases parent_layElems lib cfg p start js t ht with hown | ⟨q', hq', hle⟩
  · cases hown.symm.trans hq
    exact .inl hp
  · cases hq'.symm.trans hq
    exact .inr (by omega)

theorem apart_layMembers {p i n start : Nat} (hp : p < i) (hstart : i + n ≤ start) (ms : Members) :
    Apart i n (layMembers lib cfg p start ms) := by
  intro t ht q hq
  rcases parent_layMembers lib cfg p start ms t ht with hown | ⟨q', hq', hle⟩
  · cases hown.symm.trans hq
    exact .inl hp
  · cases hq'.symm.trans hq
    exact .inr (by omega)

theorem Apart.mono {i n i' n' : Nat} {ts : List Tok} (h : Apart i n ts) (hi : i ≤ i')
    (hn : i' + n' ≤ i + n) : Apart i' n' ts := by
  intro t ht q hq
  rcases h t ht q hq with hlt | hle
  · exact .inl (by omega)
  · exact .inr (by omega)

/-- The first element of a laid list, and the list that is laid behind it. -/
theorem laidApart_elems_cons {p i : Nat} {j : Json} {js : List Json} {rest : List Tok} (hp : p < i)
    (h : pool.drop i = layElems lib cfg p i (j :: js) ++ rest)
    (hrest : Apart i (elemsSize (j :: js)) rest) :
    LaidApart lib cfg pool i j ∧
      pool.drop (i + j.size) = layElems lib cfg p (i + j.size) js ++ rest ∧
      Apart (i + j.size) (elemsSize js) rest := by
  rw [elemsSize] at hrest
  rw [layElems_cons, List.append_assoc] at h
  refine ⟨⟨some p, [], _, h, apart_append.mpr ⟨apart_layElems hp (Nat.le_refl _) js, ?_⟩⟩, ?_, ?_⟩
  · exact hrest.mono (Nat.le_refl i) (by omega)
  · rw [← List.drop_drop, h]
    exact List.drop_left' (length_lay lib cfg (some p) [] i j)
  · exact hrest.mono (by omega) (by omega)

theorem laidApart_members_cons {p i : Nat} {key : Bytes} {j : Json} {ms : Members}
    {rest : List Tok} (hp : p < i) (h : pool.drop i = layMembers lib cfg p i ((key, j) :: ms) ++ rest)
    (hrest : Apart i (membersSize ((key, j) :: ms)) rest) :
    LaidApart lib cfg pool i j ∧
      pool.drop (i + j.size) = layMembers lib cfg p (i + j.size) ms ++ rest ∧
      Apart (i + j.size) (membersSize ms) rest := by
  rw [membersSize] at hrest
  rw [layMembers_cons, List.append_assoc] at h
  refine ⟨⟨some p, key, _, h, apart_append.mpr ⟨apart_layMembers hp (Nat.le_refl _) ms, ?_⟩⟩, ?_, ?_⟩
  · exact hrest.mono (Nat.le_refl i) (by omega)
  · rw [← List.drop_drop, h]
    exact List.drop_left' (length_lay lib cfg (some p) key i j)
  · exact hrest.mono (by omega) (by omega)

/-- The children of an array lie behind its token. -/
theorem LaidApart.elems {i : Nat} {js : List Json} (h : LaidApart lib cfg pool i (.arr js)) :
    ∃ rest, pool.drop (i + 1) = layElems lib cfg i (i + 1) js ++ rest ∧
      Apart i (1 + elemsSize js) rest := by
  obtain ⟨parent, key, rest, hdrop, hapart⟩ := h
  rw [Json.size] at hapart
  refine ⟨rest, ?_, hapart⟩
  rw [← List.drop_drop, hdrop, lay, inside]
  rfl

theorem LaidApart.members {i : Nat} {ms : Members} (h : LaidApart lib cfg pool i (.obj ms)) :
    ∃ rest, pool.drop (i + 1) = layMembers lib cfg i (i + 1) ms ++ rest ∧
      Apart i (1 + membersSize ms) rest := by
  obtain ⟨parent, key, rest, hdrop, hapart⟩ := h
  rw [Json.size] at hapart
  refine ⟨rest, ?_, hapart⟩
  rw [← List.drop_drop, hdrop, lay, inside]
  rfl

theorem laidApart_leaf {i : Nat} {j : Json} (h : LaidApart lib cfg pool i j) {n : Nat} {sub : Json}
    (hsub : [j][n]? = some sub) : LaidApart lib cfg pool (i + n) sub := by
  cases n with
  | zero =>
    cases hsub
    exact h
  | succ n => cases hsub

mutual

/-- The values of a laid value are laid out in their order. -/
theorem laidApart_preorder : ∀ (j : Json) {i : Nat}, LaidApart lib cfg pool i j →
    ∀ {n : Nat} {sub : Json}, (preorder j)[n]? = some sub → LaidApart lib cfg pool (i + n) sub
  | .null, _, h, _, _, hsub => laidApart_leaf h (by simpa only [preorder] using hsub)
  | .bool _, _, h, _, _, hsub => laidApart_leaf h (by simpa only [preorder] using hsub)
  | .num _, _, h, _, _, hsub => laidApart_leaf h (by simpa only [preorder] using hsub)
  | .str _, _, h, _, _, hsub => laidApart_leaf h (by simpa only [preorder] using hsub)
  | .arr elems, i, h, n, sub, hsub => by
    rw [preorder] at hsub
    cases n with
    | zero =>
      cases hsub
      exact h
    | succ n =>
      obtain ⟨rest, hdrop, hapart⟩ := h.elems
      have hlaid := laidApart_elemsPreorder elems (Nat.lt_succ_self i) hdrop
        (hapart.mono (by omega) (by omega)) hsub
      rwa [Nat.succ_add_eq_add_succ] at hlaid
  | .obj members, i, h, n, sub, hsub => by
    rw [preorder] at hsub
    cases n with
    | zero =>
      cases hsub
      exact h
    | succ n =>
      obtain ⟨rest, hdrop, hapart⟩ := h.members
      have hlaid := laidApart_membersPreorder members (Nat.lt_succ_self i) hdrop
        (hapart.mono (by omega) (by omega)) hsub
      rwa [Nat.succ_add_eq_add_succ] at hlaid

theorem laidApart_elemsPreorder : ∀ (js : List Json) {p i : Nat} {rest : List Tok}, p < i →
    pool.drop i = layElems lib cfg p i js ++ rest → Apart i (elemsSize js) rest →
    ∀ {n : Nat} {sub : Json}, (elemsPreorder js)[n]? = some sub →
      LaidApart lib cfg pool (i + n) sub
  | [], p, i, rest, hp, h, hrest, n, sub, hsub => by
    rw [elemsPreorder] at hsub
    cases hsub
  | j :: js, p, i, rest, hp, h, hrest, n, sub, hsub => by
    obtain ⟨hhead, htail, hapart⟩ := laidApart_elems_cons hp h hrest
    rw [elemsPreorder] at hsub
    by_cases hn : n < j.size
    · rw [List.getElem?_append_left (by rwa [length_preorder])] at hsub
      exact laidApart_preorder j hhead hsub
    · rw [List.getElem?_append_right (by rw [length_preorder]; omega), length_preorder] at hsub
      have hlaid := laidApart_elemsPreorder js (by omega) htail hapart hsub
      rwa [Nat.add_assoc, Nat.add_sub_of_le (by omega)] at hlaid

theorem laidApart_membersPreorder : ∀ (ms : List (Bytes × Json)) {p i : Nat} {rest : List Tok},
    p < i → pool.drop i = layMembers lib cfg p i ms ++ rest → Apart i (membersSize ms) rest →
    ∀ {n : Nat} {sub : Json}, (membersPreorder ms)[n]? = some sub →
      LaidApart lib cfg pool (i + n) sub
  | [], p, i, rest, hp, h, hrest, n, sub, hsub => by
    rw [membersPreorder] at hsub
    cases hsub
  | (key, j) :: ms, p, i, rest, hp, h, hrest, n, sub, hsub => by
    obtain ⟨hhead, htail, hapart⟩ := laidApart_members_cons hp h hrest
    rw [membersPreorder] at hsub
    by_cases hn : n < j.size
    · rw [List.getElem?_append_left (by rwa [length_preorder])] at hsub
      exact laidApart_preorder j hhead hsub
    · rw [List.getElem?_append_right (by rw [length_preorder]; omega), length_preorder] at hsub
      have hlaid := laidApart_membersPreorder ms (by omega) htail hapart hsub
      rwa [Nat.add_assoc, Nat.add_sub_of_le (by omega)] at hlaid

end

end Apart

/-! ## The navigation -/

section Navigation

variable (lib : Libc) (cfg : Kconfig) (pool : List Tok)

/-- The container of a token. -/
def parentOf (i : Nat) : Option Nat :=
  pool[i]?.bind Tok.parent

/-- What is read through the pointer and the 32-bit length of a string token. -/
def tokStrSpan (idx : Option Nat) : Option Bytes :=
  (tokGetStr pool idx).map fun s => s.take (s.length % 2 ^ 32)

/--
The token at an index reads as the value.  An element or a member is found where its own token
is, right below this one, and nothing is found where there is none.
-/
inductive Represents : Nat → Json → Prop where
  | null {i : Nat} (hval : pool[i]?.map Tok.val = some .null) : Represents i .null
  | bool {i : Nat} {v : Bool} (hget : tokGetBool pool (some i) = some v) : Represents i (.bool v)
  | num {i : Nat} {text : Bytes} {t : Tok} (htok : pool[i]? = some t)
      (hval : t.val = tokParseNum lib cfg text) (hinexact : t.numInexact = tokNumInexact cfg text) :
      Represents i (.num text)
  | str {i : Nat} {s : Bytes} (hget : s.length < 2 ^ 32 → tokStrSpan pool (some i) = some s) :
      Represents i (.str s)
  | arr {i : Nat} {elems : List Json} {child : Nat → Nat} (harr : tokIsArr pool (some i) = true)
      (hsize : tokArrSize pool (some i) = elems.length)
      (hat : ∀ n e, elems[n]? = some e →
        tokArrAt pool (some i) n = some (child n) ∧ parentOf pool (child n) = some i)
      (hchild : ∀ n e, elems[n]? = some e → Represents (child n) e)
      (hbeyond : ∀ n, elems.length ≤ n → tokArrAt pool (some i) n = none) :
      Represents i (.arr elems)
  | obj {i : Nat} {members : Members} {child : Bytes → Nat} (hobj : tokIsObj pool (some i) = true)
      (hget : ∀ key v, field? key members = some v →
        tokObjGet pool (some i) key = some (child key) ∧ parentOf pool (child key) = some i)
      (hchild : ∀ key v, field? key members = some v → Represents (child key) v)
      (habsent : ∀ key, field? key members = none → tokObjGet pool (some i) key = none) :
      Represents i (.obj members)

variable {lib cfg pool}

theorem parentOf_of_drop {p i : Nat} {key : Bytes} {j : Json} {rest : List Tok}
    (h : pool.drop i = lay lib cfg (some p) key i j ++ rest) : parentOf pool i = some p := by
  have hhead : (pool.drop i)[0]? = some (valueTok lib cfg (some p) key j) := by
    rw [h]
    rfl
  rw [List.getElem?_drop, Nat.add_zero] at hhead
  rw [parentOf, hhead]
  rfl

/-- The element with a number is found at its own token. -/
theorem arrScan_layElems {p i seen n : Nat} (hp : p < i) (js : List Json) {rest : List Tok}
    (h : pool.drop i = layElems lib cfg p i js ++ rest) (hrest : Apart i (elemsSize js) rest)
    {e : Json} (he : js[n]? = some e) :
    ∃ k, arrScan p (seen + n) i seen (layElems lib cfg p i js ++ rest) = some k ∧
      LaidApart lib cfg pool k e ∧ parentOf pool k = some p := by
  induction js generalizing i seen n with
  | nil => cases he
  | cons j js ih =>
    obtain ⟨hhead, htail, hapart⟩ := laidApart_elems_cons hp h hrest
    rw [layElems, List.cons_append, List.cons_append, arrScan, if_neg (by simp)]
    cases n with
    | zero =>
      cases he
      rw [layElems_cons, List.append_assoc] at h
      rw [Nat.add_zero, if_pos rfl]
      exact ⟨i, rfl, hhead, parentOf_of_drop h⟩
    | succ n =>
      have hnext : i + 1 + (inside lib cfg i j).length = i + j.size := by
        have hsize := length_inside lib cfg i j
        omega
      rw [if_neg (by omega), List.append_assoc,
        arrScan_skip (fun t ht => not_parent_of_inside hp ht), hnext,
        show seen + (n + 1) = seen + 1 + n by omega]
      exact ih (by omega) htail hapart he

/-- Beyond the last element the scan goes to the end of the pool in vain. -/
theorem arrScan_beyond {p i seen target : Nat} (hp : p < i) (js : List Json) {rest : List Tok}
    (hrest : ∀ t ∈ rest, t.parent ≠ some p) (htarget : seen + js.length ≤ target) :
    arrScan p target i seen (layElems lib cfg p i js ++ rest) = none := by
  induction js generalizing i seen with
  | nil =>
    rw [layElems, List.nil_append, ← List.append_nil rest, arrScan_skip hrest]
    rfl
  | cons j js ih =>
    rw [List.length_cons] at htarget
    rw [layElems, List.cons_append, List.cons_append, arrScan, if_neg (by simp),
      if_neg (by omega), List.append_assoc, arrScan_skip (fun t ht => not_parent_of_inside hp ht)]
    have hnext : i + 1 + (inside lib cfg i j).length = i + j.size := by
      have hsize := length_inside lib cfg i j
      omega
    rw [hnext]
    exact ih (by omega) (by omega)

/-- The first member with a key is found at its own token. -/
theorem memberAt_of_field? {p i : Nat} (hp : p < i) (key : Bytes) (ms : Members) {rest : List Tok}
    (h : pool.drop i = layMembers lib cfg p i ms ++ rest) (hrest : Apart i (membersSize ms) rest)
    {v : Json} (hv : field? key ms = some v) :
    ∃ k, memberAt key i ms = some k ∧ LaidApart lib cfg pool k v ∧ parentOf pool k = some p := by
  induction ms generalizing i with
  | nil => cases hv
  | cons m ms ih =>
    obtain ⟨own, j⟩ := m
    obtain ⟨hhead, htail, hapart⟩ := laidApart_members_cons hp h hrest
    rw [memberAt]
    rw [field?_cons] at hv
    by_cases hkey : own = key
    · rw [if_pos hkey] at hv ⊢
      cases hv
      rw [layMembers_cons, List.append_assoc] at h
      exact ⟨i, rfl, hhead, parentOf_of_drop h⟩
    · rw [if_neg hkey] at hv ⊢
      exact ih (by omega) htail hapart hv

theorem memberAt_eq_none {key : Bytes} {ms : Members} (h : field? key ms = none) (i : Nat) :
    memberAt key i ms = none := by
  induction ms generalizing i with
  | nil => rfl
  | cons m ms ih =>
    rw [field?_cons] at h
    rw [memberAt]
    by_cases hkey : m.1 = key
    · rw [if_pos hkey] at h
      cases h
    · rw [if_neg hkey] at h ⊢
      exact ih h _

theorem size_lt_of_getElem? {js : List Json} {n : Nat} {e : Json} (h : js[n]? = some e) :
    e.size < (Json.arr js).size := by
  have hle : e.size ≤ elemsSize js := by
    induction js generalizing n with
    | nil => cases h
    | cons j js ih =>
      rw [elemsSize]
      cases n with
      | zero =>
        cases h
        omega
      | succ n =>
        have hrest := ih h
        omega
  rw [Json.size]
  omega

theorem size_lt_of_field? {key : Bytes} {ms : Members} {v : Json} (h : field? key ms = some v) :
    v.size < (Json.obj ms).size := by
  have hle : v.size ≤ membersSize ms := by
    induction ms with
    | nil => cases h
    | cons m ms ih =>
      obtain ⟨own, j⟩ := m
      rw [membersSize]
      rw [field?_cons] at h
      split at h
      · cases h
        exact Nat.le_add_right _ _
      · have hrest := ih h
        omega
  rw [Json.size]
  omega

theorem tokGetStr_of_laidAt {i : Nat} {s : Bytes} (h : LaidAt lib cfg pool i (.str s)) :
    tokGetStr pool (some i) = some s := by
  obtain ⟨parent, own, htok⟩ := h.tok
  simp [tokGetStr, tokAt, htok, valueTok, tokVal]

/-- An element of an array that is laid out is found where it is laid out. -/
theorem LaidApart.arrAt_found {i : Nat} {elems : List Json}
    (h : LaidApart lib cfg pool i (.arr elems)) {m : Nat} {e : Json} (he : elems[m]? = some e) :
    ∃ k, tokArrAt pool (some i) m = some k ∧ LaidApart lib cfg pool k e ∧
      parentOf pool k = some i := by
  obtain ⟨rest, hdrop, hapart⟩ := h.elems
  have harr : tokIsArr pool (some i) = true := tokIsArr_of_laidAt h.laidAt
  rw [tokArrAt, harr, if_neg (by simp), Option.bind_some, hdrop, ← Nat.zero_add m]
  exact arrScan_layElems (Nat.lt_succ_self i) elems hdrop (hapart.mono (by omega) (by omega)) he

/-- Behind the last element nothing is found. -/
theorem LaidApart.arrAt_beyond {i : Nat} {elems : List Json}
    (h : LaidApart lib cfg pool i (.arr elems)) {m : Nat} (hm : elems.length ≤ m) :
    tokArrAt pool (some i) m = none := by
  obtain ⟨rest, hdrop, hapart⟩ := h.elems
  have hpast : ∀ t ∈ rest, t.parent ≠ some i := by
    intro t ht heq
    rcases hapart t ht i heq with hlt | hle <;> omega
  have harr : tokIsArr pool (some i) = true := tokIsArr_of_laidAt h.laidAt
  rw [tokArrAt, harr, if_neg (by simp), Option.bind_some, hdrop]
  exact arrScan_beyond (Nat.lt_succ_self i) elems hpast (by omega)

/-- A member of an object that is laid out is found where its value is laid out. -/
theorem LaidApart.objGet_found {i : Nat} {members : Members}
    (h : LaidApart lib cfg pool i (.obj members)) {key : Bytes} {v : Json}
    (hv : field? key members = some v) :
    ∃ k, tokObjGet pool (some i) key = some k ∧ LaidApart lib cfg pool k v ∧
      parentOf pool k = some i := by
  obtain ⟨parent, own, htok⟩ := h.laidAt.tok
  obtain ⟨rest, hdrop, hapart⟩ := h.members
  have hobj : tokIsObj pool (some i) = true := tokIsObj_of_laidAt h.laidAt
  have hscan : tokObjGet pool (some i) key = memberAt key (i + 1) members := by
    rw [tokObjGet, hobj, if_neg (by simp), Option.bind_some, htok, hdrop]
    exact objScan_layMembers (Nat.lt_succ_self i) key members rest
  rw [hscan]
  exact memberAt_of_field? (Nat.lt_succ_self i) key members hdrop
    (hapart.mono (by omega) (by omega)) hv

/-- Without the member nothing is found. -/
theorem LaidApart.objGet_absent {i : Nat} {members : Members}
    (h : LaidApart lib cfg pool i (.obj members)) {key : Bytes} (hkey : field? key members = none) :
    tokObjGet pool (some i) key = none := by
  obtain ⟨parent, own, htok⟩ := h.laidAt.tok
  obtain ⟨rest, hdrop, -⟩ := h.members
  have hobj : tokIsObj pool (some i) = true := tokIsObj_of_laidAt h.laidAt
  rw [tokObjGet, hobj, if_neg (by simp), Option.bind_some, htok, hdrop]
  exact (objScan_layMembers (Nat.lt_succ_self i) key members rest).trans
    (memberAt_eq_none hkey (i + 1))

/-- The navigation over what is laid out is that of the value. -/
theorem represents_of_laid {j : Json} {i : Nat} (h : LaidApart lib cfg pool i j) :
    Represents lib cfg pool i j := by
  induction hn : j.size using Nat.strong_induction_on generalizing j i with
  | _ n ih =>
    obtain ⟨parent, own, htok⟩ := h.laidAt.tok
    match j with
    | .null => exact .null (by rw [htok]; rfl)
    | .bool v => exact .bool (by simp [tokGetBool, tokAt, htok, valueTok, tokVal])
    | .num text => exact .num htok rfl rfl
    | .str s =>
      exact .str fun hlen => by
        rw [tokStrSpan, tokGetStr_of_laidAt h.laidAt, Option.map_some, Nat.mod_eq_of_lt hlen,
          List.take_length]
    | .arr elems =>
      refine @Represents.arr lib cfg pool i elems (fun m => (tokArrAt pool (some i) m).getD 0)
        (tokIsArr_of_laidAt h.laidAt) ?_ (fun m e he => ?_) (fun m e he => ?_)
        fun m hm => h.arrAt_beyond hm
      · rw [tokArrSize, tokAt, Option.bind_some, htok]
        rfl
      · obtain ⟨k, hk, -, hparent⟩ := h.arrAt_found he
        rw [hk]
        exact ⟨rfl, hparent⟩
      · obtain ⟨k, hk, hlaid, -⟩ := h.arrAt_found he
        rw [hk]
        exact ih e.size (hn ▸ size_lt_of_getElem? he) hlaid rfl
    | .obj members =>
      refine @Represents.obj lib cfg pool i members
        (fun key => (tokObjGet pool (some i) key).getD 0) (tokIsObj_of_laidAt h.laidAt)
        (fun key v hv => ?_) (fun key v hv => ?_) fun key hkey => h.objGet_absent hkey
      · obtain ⟨k, hk, -, hparent⟩ := h.objGet_found hv
        rw [hk]
        exact ⟨rfl, hparent⟩
      · obtain ⟨k, hk, hlaid, -⟩ := h.objGet_found hv
        rw [hk]
        exact ih v.size (hn ▸ size_lt_of_field? hv) hlaid rfl

/-- Every token of a scanned document represents its value, in document order. -/
theorem represents_preorder (j : Json) {n : Nat} {sub : Json} (hsub : (preorder j)[n]? = some sub) :
    Represents lib cfg (lay lib cfg none [] 0 j) n sub := by
  have hroot : LaidApart lib cfg (lay lib cfg none [] 0 j) 0 j :=
    ⟨none, [], [], (List.append_nil _).symm, nofun⟩
  have hlaid := laidApart_preorder j hroot hsub
  rw [Nat.zero_add] at hlaid
  exact represents_of_laid hlaid

end Navigation

end SerializeJson
end Breadboard
