import Breadboard.Serialize.Confined
import Breadboard.SerializeJson.TokParse

/-!
# bb_serialize_json - what populate does with a value

The scatter of a JSON value into a snapshot, by recursion on the descriptor and on the
value, without tokens and without a cursor; and that populating from a recorded value is
that scatter.  The cursor is where it was when a table is done, so no field is looked up
in the wrong container.

Main results:

- Theorem `populate_graft`: populate from a recorded value is the scatter of it.
-/

namespace Breadboard
namespace SerializeJson

open Foundations Serialize
open Foundations.JsonText (Json Members Nests field? nests_member nests_elem)

/-! ## The scatter of a value -/

section Graft

variable (P : Program) (lib : Libc) (cfg : Kconfig)

/-- What a getter answers for a value: `get_i64` and `get_u64` alike. -/
def i64Of : Json → Option (BitVec 64)
  | .num text =>
    if tokNumInexact cfg text then none
    else some (BitVec.ofInt 64 (strtoll (text.take cfg.scratchMaxBytes)))
  | _ => none

/-- What `get_f64` answers for a value. -/
def f64Of : Json → Option (BitVec 64)
  | .num text => some (lib.strtod (text.take cfg.scratchMaxBytes)).toBits.toBitVec
  | _ => none

/-- What `get_bool` answers for a value. -/
def boolOf : Json → Option Bool
  | .bool v => some v
  | _ => none

/-- What `get_str` reads of a value. -/
def strOf : Json → Option Bytes
  | .str s => some s
  | _ => none

/-- The bytes stored in a field that is no container. -/
def scalarBytes (f : Field) (j : Json) : Option Bytes :=
  match f.type with
  | .i64 => (i64Of cfg j).map fun v => leBytes 8 v.toNat
  | .u64 => (i64Of cfg j).map fun v => leBytes 8 v.toNat
  | .f64 => (f64Of lib cfg j).map fun v => leBytes 8 v.toNat
  | .bool => (boolOf j).map fun v => [if v then 1 else 0]
  | .str => (strOf j).map fun s => s.take f.maxLen
  | _ => none

/-- Bytes at an address, when there are any. -/
def storeOpt (m : Mem) (p : Nat) : Option Bytes → Mem
  | none => m
  | some bytes => storeBytes m p bytes

/-- The leading objects among the elements: how many there are, and their scatter. -/
def graftObjs (graft : Members → Nat → Mem → Mem) (f : Field) (items : Nat) :
    List Json → Nat → Mem → Nat × Mem
  | .obj members :: js, written, m =>
    graftObjs graft f items js (written + 1) (graft members (items + written * f.elemSize) m)
  | _, written, m => (written, m)

/-- The leading strings among the elements: how many there are, and their scatter. -/
def graftStrs (f : Field) (items : Nat) : List Json → Nat → Mem → Nat × Mem
  | .str s :: js, written, m =>
    let item := load m (items + written * P.wordBytes) P.wordBytes
    graftStrs f items js (written + 1) (storeBytes m item (s.take f.maxLen))
  | _, written, m => (written, m)

/-- An array: its elements, and the carrier with their number. -/
def graftArr (graft : List Field → Members → Nat → Mem → Mem) (f : Field) (p : Nat)
    (elems : List Json) (m : Mem) : Mem :=
  let items := load m p P.wordBytes
  let r : Nat × Mem :=
    if items = 0 then (0, m)
    else if f.elemType = .obj then
      graftObjs (graft (P.tables f.children)) f items (elems.take f.maxItems) 0 m
    else graftStrs P f items (elems.take f.maxItems) 0 m
  storeBytes r.2 p (leBytes P.wordBytes items ++ leBytes P.wordBytes r.1)

/-- One field: what the first member with its key puts there. -/
def graftField (nested : Option (List Field → Members → Nat → Mem → Mem)) (dst : Nat)
    (members : Members) (m : Mem) (f : Field) : Mem :=
  match nested, f.type, field? f.key members with
  | some graft, .obj, some (.obj members') => graft (P.tables f.children) members' (dst + f.offset) m
  | some graft, .arr, some (.arr elems) => graftArr P graft f (dst + f.offset) elems m
  | _, _, found => storeOpt m (dst + f.offset) (found.bind (scalarBytes lib cfg f))

/-- A table, field after field, with the number of levels still allowed. -/
def graftFields : Nat → List Field → Members → Nat → Mem → Mem
  | 0, fields, members, dst, m => fields.foldl (graftField P lib cfg none dst members) m
  | n + 1, fields, members, dst, m =>
    fields.foldl (graftField P lib cfg (some (graftFields n)) dst members) m

end Graft

/-! ## What the cursor answers -/

section Cursor

variable {lib : Libc} {cfg : Kconfig} {pool : List Tok} {idx : Option Nat} {found : Option Json}

theorem tokGetI64_of_names (h : Names lib cfg pool idx found) :
    (tokGetI64 pool idx).map (BitVec.ofInt 64) = found.bind (i64Of cfg) := by
  cases h with
  | absent => rfl
  | @found i j hlaid =>
    obtain ⟨parent, key, htok⟩ := hlaid.tok
    unfold tokGetI64 tokAt
    rw [Option.bind_some, htok]
    cases j with
    | num text =>
      rw [Option.bind_some, i64Of]
      cases hinexact : tokNumInexact cfg text <;> simp [valueTok, tokVal, tokParseNum, hinexact]
    | _ => rfl

theorem tokGetF64_of_names (h : Names lib cfg pool idx found) :
    ((tokGetF64 pool idx).map fun v => v.toBits.toBitVec) = found.bind (f64Of lib cfg) := by
  cases h with
  | absent => rfl
  | @found i j hlaid =>
    obtain ⟨parent, key, htok⟩ := hlaid.tok
    unfold tokGetF64 tokAt
    rw [Option.bind_some, htok]
    cases j <;> rfl

theorem tokGetBool_of_names (h : Names lib cfg pool idx found) :
    tokGetBool pool idx = found.bind boolOf := by
  cases h with
  | absent => rfl
  | @found i j hlaid =>
    obtain ⟨parent, key, htok⟩ := hlaid.tok
    unfold tokGetBool tokAt
    rw [Option.bind_some, htok]
    cases j <;> rfl

theorem tokGetStr_of_names (h : Names lib cfg pool idx found) :
    tokGetStr pool idx = found.bind strOf := by
  cases h with
  | absent => rfl
  | @found i j hlaid =>
    obtain ⟨parent, key, htok⟩ := hlaid.tok
    unfold tokGetStr tokAt
    rw [Option.bind_some, htok]
    cases j <;> rfl

/-- The cursor stands on a value, which nests no deeper than the stack is high. -/
def Cursor.On (lib : Libc) (cfg : Kconfig) (st : Cursor) (j : Json) : Prop :=
  ∃ i key, st.top.idx = some i ∧ LaidAt lib cfg st.pool i j ∧
    Nests maxDepth st.below.length (j.events key)

theorem Cursor.On.names {st : Cursor} {j : Json} (h : st.On lib cfg j) (key : Bytes) :
    Names lib cfg st.pool (tokObjGet st.pool st.top.idx key) (field? key (membersOf j)) := by
  obtain ⟨i, -, hidx, hlaid, -⟩ := h
  rw [hidx]
  exact names_objGet hlaid key

theorem Cursor.On.getI64 {st : Cursor} {j : Json} (h : st.On lib cfg j) (key : Bytes) :
    st.getI64 key = ((field? key (membersOf j)).bind (i64Of cfg), st) := by
  unfold Cursor.getI64
  rw [tokGetI64_of_names (h.names key)]

theorem Cursor.On.getF64 {st : Cursor} {j : Json} (h : st.On lib cfg j) (key : Bytes) :
    st.getF64 key = ((field? key (membersOf j)).bind (f64Of lib cfg), st) := by
  unfold Cursor.getF64
  rw [tokGetF64_of_names (h.names key)]

theorem Cursor.On.getBool {st : Cursor} {j : Json} (h : st.On lib cfg j) (key : Bytes) :
    st.getBool key = ((field? key (membersOf j)).bind boolOf, st) := by
  unfold Cursor.getBool
  rw [tokGetBool_of_names (h.names key)]

theorem Cursor.On.getStr {st : Cursor} {j : Json} (h : st.On lib cfg j) (key : Bytes) (cap : Nat) :
    (st.getStr (some key) cap).1.map Subtype.val =
        ((field? key (membersOf j)).bind strOf).map (fun s => s.take cap) ∧
      (st.getStr (some key) cap).2 = st := by
  refine ⟨?_, rfl⟩
  have hget := tokGetStr_of_names (h.names key)
  show ((tokGetStr st.pool (tokObjGet st.pool st.top.idx key)).map _).map Subtype.val = _
  rw [hget, Option.map_map]
  rfl

theorem Cursor.On.nests {st : Cursor} {j : Json} (h : st.On lib cfg j) {key : Bytes} {j' : Json}
    (hj : field? key (membersOf j) = some j') :
    Nests maxDepth (st.below.length + 1) (j'.events key) := by
  obtain ⟨i, own, -, -, hnests⟩ := h
  cases j with
  | obj members =>
    exact nests_member hnests.2 hj
  | _ => cases hj

namespace Cursor

/-- The next element of the array is the one after. -/
def advance (st : Cursor) : Cursor :=
  { st with top := { st.top with nextElem := st.top.nextElem + 1 } }

/-- A container inside the one of `st`: the cursor stands on it, and goes back to `st`. -/
structure Into (lib : Libc) (cfg : Kconfig) (st : Cursor) (j : Json) (st' : Cursor) : Prop where
  on : st'.On lib cfg j
  pop_eq : st'.pop = st
  below_length : st'.below.length = st.below.length + 1
  nextElem_eq : st'.top.nextElem = 0

theorem into_push {st : Cursor} {i : Nat} {j : Json} {key : Bytes} (h : LaidAt lib cfg st.pool i j)
    (hnests : Nests maxDepth (st.below.length + 1) (j.events key)) :
    st.Into lib cfg j (st.push (some i)) where
  on := ⟨i, key, rfl, h, hnests⟩
  pop_eq := rfl
  below_length := rfl
  nextElem_eq := rfl

variable {st : Cursor} {j : Json}

/-- `begin_obj` on what was looked up. -/
theorem beginObj_of_names (key : Option Bytes) {own : Bytes}
    (hpool : (st.next key).2.pool = st.pool) (hbelow : (st.next key).2.below = st.below)
    (h : Names lib cfg st.pool (st.next key).1 found)
    (hnests : ∀ j, found = some j → Nests maxDepth (st.below.length + 1) (j.events own)) :
    (∃ members st', found = some (.obj members) ∧ st.beginObj key = (true, st') ∧
        (st.next key).2.Into lib cfg (.obj members) st') ∨
      ((∀ members, found ≠ some (.obj members)) ∧ st.beginObj key = (false, (st.next key).2)) := by
  unfold beginObj
  cases hnext : (st.next key).1 with
  | none =>
    rw [hnext] at h
    cases h
    exact .inr ⟨nofun, rfl⟩
  | some i =>
    rw [hnext] at h
    cases h with
    | @found _ j hlaid =>
      rw [tokIsObj_of_laidAt hlaid]
      cases j with
      | obj members =>
        have hinner := hnests _ rfl
        have hdepth : st.below.length < maxDepth := Nat.lt_of_succ_lt hinner.1
        rw [if_neg (by simp), if_neg (Nat.not_le.mpr hdepth)]
        refine .inl ⟨members, _, rfl, rfl, @into_push lib cfg _ i _ own (by rw [hpool]; exact hlaid) ?_⟩
        rw [hbelow]
        exact hinner
      | _ => exact .inr ⟨nofun, rfl⟩

/-- `begin_obj` for a member. -/
theorem beginObj_member (h : st.On lib cfg j) (key : Bytes) :
    (∃ members st', field? key (membersOf j) = some (.obj members) ∧
        st.beginObj (some key) = (true, st') ∧ st.Into lib cfg (.obj members) st') ∨
      ((∀ members, field? key (membersOf j) ≠ some (.obj members)) ∧
        st.beginObj (some key) = (false, st)) :=
  beginObj_of_names (some key) rfl rfl (h.names key) fun _ hj => h.nests hj

/-- `begin_arr` for a member. -/
theorem beginArr_member (h : st.On lib cfg j) (key : Bytes) :
    (∃ elems st', field? key (membersOf j) = some (.arr elems) ∧
        st.beginArr key = (some elems.length, st') ∧ st.Into lib cfg (.arr elems) st') ∨
      ((∀ elems, field? key (membersOf j) ≠ some (.arr elems)) ∧ st.beginArr key = (none, st)) := by
  have hnames := h.names key
  unfold beginArr
  dsimp only
  cases hget : tokObjGet st.pool st.top.idx key with
  | none =>
    rw [hget] at hnames
    cases hfield : field? key (membersOf j) with
    | none => exact .inr ⟨nofun, rfl⟩
    | some j' =>
      rw [hfield] at hnames
      cases hnames
  | some i =>
    rw [hget] at hnames
    cases hfield : field? key (membersOf j) with
    | none =>
      rw [hfield] at hnames
      cases hnames
    | some j' =>
      rw [hfield] at hnames
      cases hnames with
      | found hlaid =>
        rw [tokIsArr_of_laidAt hlaid]
        cases j' with
        | arr elems =>
          have hinner := h.nests hfield
          have hdepth : st.below.length < maxDepth := Nat.lt_of_succ_lt hinner.1
          rw [if_neg (by simp), if_neg (Nat.not_le.mpr hdepth)]
          refine .inl ⟨elems, _, rfl, ?_, into_push hlaid hinner⟩
          obtain ⟨parent, k, htok⟩ := hlaid.tok
          unfold tokArrSize tokAt
          rw [Option.bind_some, htok]
          rfl
        | _ => exact .inr ⟨nofun, rfl⟩

/-- The next element of an array. -/
theorem names_next {js : List Json} (h : st.On lib cfg (.arr js)) {e : Json}
    (he : js[st.top.nextElem]? = some e) : Names lib cfg st.pool (st.next none).1 (some e) := by
  obtain ⟨i, -, hidx, hlaid, -⟩ := h
  show Names lib cfg st.pool (tokArrAt st.pool st.top.idx st.top.nextElem) (some e)
  rw [hidx]
  exact names_arrAt hlaid he

/-- `begin_obj` for an element. -/
theorem beginObj_element {js : List Json} (h : st.On lib cfg (.arr js)) {e : Json}
    (he : js[st.top.nextElem]? = some e) :
    (∃ members st', e = .obj members ∧ st.beginObj none = (true, st') ∧
        st.advance.Into lib cfg (.obj members) st') ∨
      ((∀ members, e ≠ .obj members) ∧ st.beginObj none = (false, st.advance)) := by
  have hnests : ∀ j, some e = some j → Nests maxDepth (st.below.length + 1) (j.events []) := by
    rintro j heq
    cases heq
    obtain ⟨i, own, -, -, hnests⟩ := h
    exact nests_elem hnests.2 (List.mem_of_getElem? he)
  rcases beginObj_of_names none rfl rfl (names_next h he) hnests with
    ⟨members, st', heq, hbegin, hinto⟩ | ⟨hne, hbegin⟩
  · exact .inl ⟨members, st', Option.some.inj heq, hbegin, hinto⟩
  · exact .inr ⟨fun members heq => hne members (by rw [heq]), hbegin⟩

/-- `get_str` for an element. -/
theorem getStr_element {js : List Json} (h : st.On lib cfg (.arr js)) {e : Json}
    (he : js[st.top.nextElem]? = some e) (cap : Nat) :
    ((st.getStr none cap).1.map Subtype.val) = (strOf e).map (fun s => s.take cap) ∧
      (st.getStr none cap).2 = st.advance := by
  refine ⟨?_, rfl⟩
  unfold getStr
  rw [tokGetStr_of_names (names_next h he), Option.map_map]
  rfl

/-- Within a container the next element does not matter once it is left. -/
theorem pop_advance (h : st.below ≠ []) : st.advance.pop = st.pop := by
  cases hbelow : st.below with
  | nil => exact absurd hbelow h
  | cons frame below => simp [pop, advance, hbelow]

theorem On.advance {js : List Json} (h : st.On lib cfg (.arr js)) : st.advance.On lib cfg (.arr js) :=
  h

end Cursor

end Cursor

/-! ## Populating from a recorded value -/

section Populate

variable {P : Program} {lib : Libc} {cfg : Kconfig}

/-- The scatter did what `graft` does, and put the cursor back. -/
structure Grafts (r : BbErr × Scatter Cursor) (s : Scatter Cursor) (m : Mem) : Prop where
  ok : r.1 = .ok
  mem_eq : r.2.mem = m
  src_eq : r.2.src = s.src

/-- A scatter of tables below the current one is that of their values. -/
def ScattersAs (lib : Libc) (cfg : Kconfig) (scatter : Nat → Scatter Cursor → BbErr × Scatter Cursor)
    (graft : Members → Nat → Mem → Mem) : Prop :=
  ∀ members base s, s.src.On lib cfg (.obj members) →
    Grafts (scatter base s) s (graft members base s.mem)

/-- The object elements of an array, from the one with number `written` on. -/
theorem scatterObjs_graft {scatter : Nat → Scatter Cursor → BbErr × Scatter Cursor}
    {graft : Members → Nat → Mem → Mem} {f : Field} {items : Nat}
    (hscatter : ScattersAs lib cfg scatter graft) {js : List Json} (n written : Nat)
    {s : Scatter Cursor} (hon : s.src.On lib cfg (.arr js)) (hopen : s.src.below ≠ [])
    (hnext : s.src.top.nextElem = written) (hn : written + n ≤ js.length) :
    (scatterObjs populateSource scatter f items n written s).1 = .ok ∧
      ((scatterObjs populateSource scatter f items n written s).2.1,
          (scatterObjs populateSource scatter f items n written s).2.2.mem) =
        graftObjs graft f items ((js.drop written).take n) written s.mem ∧
      (scatterObjs populateSource scatter f items n written s).2.2.src.pop = s.src.pop := by
  induction n generalizing written s with
  | zero => exact ⟨rfl, rfl, rfl⟩
  | succ n ih =>
    have hlt : written < js.length := by omega
    have helem : js[s.src.top.nextElem]? = some js[written] := by
      rw [hnext]
      exact List.getElem?_eq_getElem hlt
    rw [List.drop_eq_getElem_cons hlt, List.take_succ_cons]
    unfold scatterObjs
    rcases Cursor.beginObj_element hon helem with
      ⟨members, st', hobj, hbegin, hinto⟩ | ⟨hne, hbegin⟩
    · have hcall : populateSource.beginObj s.src none = (true, st') := hbegin
      rw [hcall, hobj, graftObjs]
      dsimp only
      have hdone := hscatter members (items + written * f.elemSize) { s with src := st' } hinto.on
      have hback : populateSource.endObj
          (scatter (items + written * f.elemSize) { s with src := st' }).2.src = s.src.advance := by
        rw [hdone.src_eq]
        exact hinto.pop_eq
      rw [if_neg (not_not.mpr hdone.ok), hback]
      have hrest := @ih (written + 1)
        { (scatter (items + written * f.elemSize) { s with src := st' }).2 with
          src := s.src.advance }
        hon.advance hopen (congrArg (· + 1) hnext) (by omega)
      obtain ⟨hok, hmem, hpop⟩ := hrest
      refine ⟨hok, hmem.trans ?_, hpop.trans (Cursor.pop_advance hopen)⟩
      show graftObjs graft f items _ _ (scatter (items + written * f.elemSize)
        { s with src := st' }).2.mem = _
      rw [hdone.mem_eq]
    · have hcall : populateSource.beginObj s.src none = (false, s.src.advance) := hbegin
      rw [hcall]
      have hstop : graftObjs graft f items (js[written] :: (js.drop (written + 1)).take n) written
          s.mem = (written, s.mem) := by
        cases hj : js[written] with
        | obj members => exact absurd hj (hne members)
        | _ => rfl
      rw [hstop]
      exact ⟨rfl, rfl, Cursor.pop_advance hopen⟩

/-- The string elements of an array, from the one with number `written` on. -/
theorem scatterStrs_graft {f : Field} {items : Nat} {js : List Json} (n written : Nat)
    {s : Scatter Cursor} (hon : s.src.On lib cfg (.arr js)) (hopen : s.src.below ≠ [])
    (hnext : s.src.top.nextElem = written) (hn : written + n ≤ js.length) :
    ((scatterStrs P populateSource f items n written s).1,
        (scatterStrs P populateSource f items n written s).2.mem) =
        graftStrs P f items ((js.drop written).take n) written s.mem ∧
      (scatterStrs P populateSource f items n written s).2.src.pop = s.src.pop := by
  induction n generalizing written s with
  | zero => exact ⟨rfl, rfl⟩
  | succ n ih =>
    have hlt : written < js.length := by omega
    have helem : js[s.src.top.nextElem]? = some js[written] := by
      rw [hnext]
      exact List.getElem?_eq_getElem hlt
    rw [List.drop_eq_getElem_cons hlt, List.take_succ_cons]
    obtain ⟨hbytes, hsrc⟩ := Cursor.getStr_element hon helem f.maxLen
    unfold scatterStrs
    dsimp only
    rcases hcall : populateSource.getStr s.src none f.maxLen with ⟨got, src'⟩
    have hget : s.src.getStr none f.maxLen = (got, src') := hcall
    rw [hget] at hbytes hsrc
    dsimp only at hbytes hsrc
    subst hsrc
    cases got with
    | none =>
      have hstop : graftStrs P f items (js[written] :: (js.drop (written + 1)).take n) written
          s.mem = (written, s.mem) := by
        cases hj : js[written] with
        | str v =>
          rw [hj] at hbytes
          cases hbytes
        | _ => rfl
      rw [hstop]
      exact ⟨rfl, Cursor.pop_advance hopen⟩
    | some str =>
      obtain ⟨v, hj⟩ : ∃ v, js[written] = .str v := by
        cases hj : js[written] with
        | str v => exact ⟨v, rfl⟩
        | _ =>
          rw [hj] at hbytes
          cases hbytes
      rw [hj] at hbytes ⊢
      have hstr : str.1 = v.take f.maxLen := Option.some.inj hbytes
      dsimp only
      rw [graftStrs, ← hstr]
      obtain ⟨hmem, hpop⟩ := ih (written + 1)
        (s := { s with src := s.src.advance }.store
          (load s.mem (items + written * P.wordBytes) P.wordBytes) str.1)
        hon.advance hopen (congrArg (· + 1) hnext) (by omega)
      exact ⟨hmem, hpop.trans (Cursor.pop_advance hopen)⟩

/-- At most `max_items` elements are read. -/
theorem take_count (js : List Json) (k : Nat) :
    (js.drop 0).take (if js.length < k then js.length else k) = js.take k := by
  rw [List.drop_zero]
  split
  · rename_i hlt
    rw [List.take_length, List.take_of_length_le (Nat.le_of_lt hlt)]
  · rfl

/-- An array, from inside it; the cursor leaves it. -/
theorem scatterArr_graft {scatter : List Field → Nat → Scatter Cursor → BbErr × Scatter Cursor}
    {graft : List Field → Members → Nat → Mem → Mem} {f : Field} {p : Nat}
    (hscatter : f.elemType = .obj →
      ScattersAs lib cfg (scatter (P.tables f.children)) (graft (P.tables f.children)))
    {elems : List Json} {s : Scatter Cursor} (hon : s.src.On lib cfg (.arr elems))
    (hopen : s.src.below ≠ []) (hnext : s.src.top.nextElem = 0) :
    (scatterArr P populateSource scatter f p elems.length s).1 = .ok ∧
      (scatterArr P populateSource scatter f p elems.length s).2.mem =
        graftArr P graft f p elems s.mem ∧
      (scatterArr P populateSource scatter f p elems.length s).2.src = s.src.pop := by
  have hn : 0 + (if elems.length < f.maxItems then elems.length else f.maxItems) ≤ elems.length := by
    split <;> omega
  have helements : ∀ r : BbErr × Nat × Scatter Cursor,
      r = (if load s.mem p P.wordBytes = 0 then (.ok, 0, s)
        else if f.elemType = .obj then
          scatterObjs populateSource (scatter (P.tables f.children)) f (load s.mem p P.wordBytes)
            (if elems.length < f.maxItems then elems.length else f.maxItems) 0 s
        else (.ok, scatterStrs P populateSource f (load s.mem p P.wordBytes)
          (if elems.length < f.maxItems then elems.length else f.maxItems) 0 s)) →
      r.1 = .ok ∧ (r.2.1, r.2.2.mem) =
        (if load s.mem p P.wordBytes = 0 then (0, s.mem)
          else if f.elemType = .obj then
            graftObjs (graft (P.tables f.children)) f (load s.mem p P.wordBytes)
              (elems.take f.maxItems) 0 s.mem
          else graftStrs P f (load s.mem p P.wordBytes) (elems.take f.maxItems) 0 s.mem) ∧
      r.2.2.src.pop = s.src.pop := by
    rintro r rfl
    rw [← take_count elems f.maxItems]
    by_cases hnull : load s.mem p P.wordBytes = 0
    · rw [if_pos hnull, if_pos hnull]
      exact ⟨rfl, rfl, rfl⟩
    rw [if_neg hnull, if_neg hnull]
    by_cases hobj : f.elemType = .obj
    · rw [if_pos hobj, if_pos hobj]
      exact scatterObjs_graft (hscatter hobj) _ 0 hon hopen hnext hn
    · rw [if_neg hobj, if_neg hobj]
      exact ⟨rfl, scatterStrs_graft _ 0 hon hopen hnext hn⟩
  obtain ⟨hok, hmem, hpop⟩ := helements _ rfl
  unfold scatterArr graftArr
  dsimp only
  rw [if_neg (not_not.mpr hok), ← hmem]
  exact ⟨rfl, rfl, hpop⟩

/-- A field that is no container. -/
theorem scatterScalar_grafts {s : Scatter Cursor} (p : Nat) (bytes : Option Bytes) :
    (scatterScalar s p (bytes, s.src)).mem = storeOpt s.mem p bytes ∧
      (scatterScalar s p (bytes, s.src)).src = s.src := by
  cases bytes <;> exact ⟨rfl, rfl⟩

theorem graftField_of_scalar {nested : Option (List Field → Members → Nat → Mem → Mem)} {f : Field}
    (hobj : f.type ≠ .obj) (harr : f.type ≠ .arr) (base : Nat) (members : Members) (m : Mem) :
    graftField P lib cfg nested base members m f =
      storeOpt m (base + f.offset) ((field? f.key members).bind (scalarBytes lib cfg f)) := by
  unfold graftField
  split
  · rename_i htype _
    exact absurd htype hobj
  · rename_i htype _
    exact absurd htype harr
  · rfl

theorem graftField_of_obj {nested : List Field → Members → Nat → Mem → Mem} {f : Field}
    (htype : f.type = .obj) (base : Nat) (members : Members) (m : Mem) :
    graftField P lib cfg (some nested) base members m f =
      match field? f.key members with
      | some (.obj members') => nested (P.tables f.children) members' (base + f.offset) m
      | _ => m := by
  unfold graftField
  rw [htype]
  have hnone (j : Json) : scalarBytes lib cfg f j = none := by
    unfold scalarBytes
    rw [htype]
  cases field? f.key members with
  | none => rfl
  | some j =>
    cases j with
    | obj _ => rfl
    | _ =>
      show storeOpt m _ (scalarBytes lib cfg f _) = m
      rw [hnone]
      rfl

theorem graftField_of_arr {nested : List Field → Members → Nat → Mem → Mem} {f : Field}
    (htype : f.type = .arr) (base : Nat) (members : Members) (m : Mem) :
    graftField P lib cfg (some nested) base members m f =
      match field? f.key members with
      | some (.arr elems) => graftArr P nested f (base + f.offset) elems m
      | _ => m := by
  unfold graftField
  rw [htype]
  have hnone (j : Json) : scalarBytes lib cfg f j = none := by
    unfold scalarBytes
    rw [htype]
  cases field? f.key members with
  | none => rfl
  | some j =>
    cases j with
    | arr _ => rfl
    | _ =>
      show storeOpt m _ (scalarBytes lib cfg f _) = m
      rw [hnone]
      rfl

/-- One field that passes the check. -/
theorem populateField_graft
    {nested : Option (List Field → Nat → Scatter Cursor → BbErr × Scatter Cursor)}
    {graftNested : Option (List Field → Members → Nat → Mem → Mem)} {base : Nat} {f : Field}
    (hnested : f.type = .obj ∨ f.type = .arr → ∃ scatter graft, nested = some scatter ∧
      graftNested = some graft ∧ (f.nests = true →
        ScattersAs lib cfg (scatter (P.tables f.children)) (graft (P.tables f.children))))
    (hcheck : f.type ≠ .strN ∧ f.type ≠ .ref)
    {j : Json} {s : Scatter Cursor} (hon : s.src.On lib cfg j) :
    Grafts (populateField P populateSource nested base f s) s
      (graftField P lib cfg graftNested base (membersOf j) s.mem f) := by
  have hscalar {found : Option Bytes} (hobj : f.type ≠ .obj) (harr : f.type ≠ .arr)
      (hfound : found = (field? f.key (membersOf j)).bind (scalarBytes lib cfg f)) :
      Grafts (.ok, scatterScalar s (base + f.offset) (found, s.src)) s
        (graftField P lib cfg graftNested base (membersOf j) s.mem f) := by
    rw [hfound, graftField_of_scalar hobj harr]
    obtain ⟨hmem, hsrc⟩ := scatterScalar_grafts (s := s) (base + f.offset)
      ((field? f.key (membersOf j)).bind (scalarBytes lib cfg f))
    exact ⟨rfl, hmem, hsrc⟩
  have hbytes {α : Type} (get : Json → Option α) (bytes : α → Bytes)
      (hget : scalarBytes lib cfg f = fun j => (get j).map bytes) :
      ((field? f.key (membersOf j)).bind get).map bytes =
        (field? f.key (membersOf j)).bind (scalarBytes lib cfg f) := by
    rw [hget, Option.map_bind]
    rfl
  unfold populateField
  cases htype : f.type
  case i64 =>
    show Grafts (.ok, scatterScalar s _ ((s.src.getI64 f.key).1.map _, _)) _ _
    rw [hon.getI64]
    refine hscalar (by simp [htype]) (by simp [htype]) (hbytes (i64Of cfg) _ ?_)
    funext j
    unfold scalarBytes
    rw [htype]
  case u64 =>
    show Grafts (.ok, scatterScalar s _ ((s.src.getI64 f.key).1.map _, _)) _ _
    rw [hon.getI64]
    refine hscalar (by simp [htype]) (by simp [htype]) (hbytes (i64Of cfg) _ ?_)
    funext j
    unfold scalarBytes
    rw [htype]
  case f64 =>
    show Grafts (.ok, scatterScalar s _ ((s.src.getF64 f.key).1.map _, _)) _ _
    rw [hon.getF64]
    refine hscalar (by simp [htype]) (by simp [htype]) (hbytes (f64Of lib cfg) _ ?_)
    funext j
    unfold scalarBytes
    rw [htype]
  case bool =>
    show Grafts (.ok, scatterScalar s _ ((s.src.getBool f.key).1.map _, _)) _ _
    rw [hon.getBool]
    refine hscalar (by simp [htype]) (by simp [htype]) (hbytes boolOf _ ?_)
    funext j
    unfold scalarBytes
    rw [htype]
  case str =>
    show Grafts (.ok, scatterScalar s _ ((s.src.getStr (some f.key) f.maxLen).1.map _, _)) _ _
    obtain ⟨hval, hsrc⟩ := hon.getStr f.key f.maxLen
    rw [hval]
    refine hscalar (by simp [htype]) (by simp [htype]) (hbytes strOf _ ?_)
    funext j
    unfold scalarBytes
    rw [htype]
  case strN => exact absurd htype hcheck.1
  case ref => exact absurd htype hcheck.2
  case obj =>
    obtain ⟨scatter, graft, rfl, rfl, hscatter⟩ := hnested (.inl htype)
    rw [graftField_of_obj htype]
    dsimp only
    rcases Cursor.beginObj_member hon f.key with
      ⟨members, st', hfield, hbegin, hinto⟩ | ⟨hne, hbegin⟩
    · have hcall : populateSource.beginObj s.src (some f.key) = (true, st') := hbegin
      rw [hcall, hfield]
      have hdone := hscatter (by simp [Field.nests, htype]) members (base + f.offset)
        { s with src := st' } hinto.on
      refine ⟨hdone.ok, hdone.mem_eq, ?_⟩
      show (scatter _ _ _).2.src.pop = _
      rw [hdone.src_eq]
      exact hinto.pop_eq
    · have hcall : populateSource.beginObj s.src (some f.key) = (false, s.src) := hbegin
      rw [hcall]
      refine ⟨rfl, ?_, rfl⟩
      dsimp only
      split
      · next members hfield => exact absurd hfield (hne members)
      · rfl
  case arr =>
    obtain ⟨scatter, graft, rfl, rfl, hscatter⟩ := hnested (.inr htype)
    rw [graftField_of_arr htype]
    dsimp only
    rcases Cursor.beginArr_member hon f.key with
      ⟨elems, st', hfield, hbegin, hinto⟩ | ⟨hne, hbegin⟩
    · have hcall : populateSource.beginArr s.src f.key = (some elems.length, st') := hbegin
      rw [hcall, hfield]
      have hopen : st'.below ≠ [] := by
        intro hnil
        have hlength := hinto.below_length
        rw [hnil] at hlength
        cases hlength
      obtain ⟨hok, hmem, hsrc⟩ := scatterArr_graft (p := base + f.offset)
        (s := { s with src := st' })
        (fun helem => hscatter (by simp [Field.nests, htype, helem])) hinto.on hopen
        hinto.nextElem_eq
      exact ⟨hok, hmem, hsrc.trans hinto.pop_eq⟩
    · have hcall : populateSource.beginArr s.src f.key = (none, s.src) := hbegin
      rw [hcall]
      refine ⟨rfl, ?_, rfl⟩
      dsimp only
      split
      · next elems hfield => exact absurd hfield (hne elems)
      · rfl

/-- Fields after one another, each on the same value. -/
theorem scatterEach_graft {scatter : Field → Scatter Cursor → BbErr × Scatter Cursor}
    {graft : Mem → Field → Mem} {j : Json} {fields : List Field}
    (hstep : ∀ f ∈ fields, ∀ s : Scatter Cursor, s.src.On lib cfg j →
      Grafts (scatter f s) s (graft s.mem f))
    {s : Scatter Cursor} (hon : s.src.On lib cfg j) :
    Grafts (scatterEach scatter fields s) s (fields.foldl graft s.mem) := by
  induction fields generalizing s with
  | nil => exact ⟨rfl, rfl, rfl⟩
  | cons f fields ih =>
    have hfirst := hstep f List.mem_cons_self s hon
    rw [scatterEach, List.foldl_cons, if_neg (not_not.mpr hfirst.ok)]
    have hrest := @ih (fun g hg => hstep g (List.mem_cons_of_mem f hg)) (scatter f s).2
      (by rw [hfirst.src_eq]; exact hon)
    exact ⟨hrest.ok, by rw [hrest.mem_eq, hfirst.mem_eq], hrest.src_eq.trans hfirst.src_eq⟩

theorem populateCheckField_type {check : Option (List Field → BbErr)} {f : Field}
    (h : populateCheckField P check f = .ok) : f.type ≠ .strN ∧ f.type ≠ .ref := by
  unfold populateCheckField at h
  constructor <;> intro htype <;> rw [htype] at h <;> cases h

/-- Populate from a recorded value is the scatter of it, and leaves the cursor where it was. -/
theorem populateFields_graft (n : Nat) {fields : List Field}
    (hcheck : populateCheckFields P n fields = .ok) (base : Nat) {j : Json} {s : Scatter Cursor}
    (hon : s.src.On lib cfg j) :
    Grafts (populateFields P populateSource n fields base s) s
      (graftFields P lib cfg n fields (membersOf j) base s.mem) := by
  induction n generalizing fields base j s with
  | zero =>
    refine scatterEach_graft (fun f hf s hs => ?_) hon
    have hfield := firstError_ok_iff.mp hcheck f hf
    refine populateField_graft (fun hcontainer => ?_) (populateCheckField_type hfield) hs
    obtain ⟨check, hnone, -⟩ := populateCheckField_ok hfield hcontainer
    cases hnone
  | succ n ih =>
    refine scatterEach_graft (fun f hf s hs => ?_) hon
    have hfield := firstError_ok_iff.mp hcheck f hf
    refine populateField_graft (fun hcontainer => ?_) (populateCheckField_type hfield) hs
    obtain ⟨check, hsome, hchildren⟩ := populateCheckField_ok hfield hcontainer
    cases hsome
    exact ⟨populateFields P populateSource n, graftFields P lib cfg n, rfl, rfl,
      fun hnests members base s hs => ih (hchildren hnests) base hs⟩

/-- The cursor bound to a recorded value stands on it. -/
theorem on_populateFromTok {j : Json} (hnests : Nests maxDepth 0 (j.events [])) :
    (populateFromTok (lay lib cfg none [] 0 j)).On lib cfg j := by
  refine ⟨0, [], ?_, ⟨none, [], [], ?_⟩, hnests⟩
  · rfl
  · rw [List.append_nil]
    rfl

/-- Populating a snapshot from a recorded value. -/
theorem populate_graft {fields : List Field} (hcheck : populateCheckFields P maxDepth fields = .ok)
    {j : Json} (hnests : Nests maxDepth 0 (j.events [])) (dst : Nat) (m : Mem) :
    Grafts (populate P populateSource fields dst
        (.start m (populateFromTok (lay lib cfg none [] 0 j))))
      (.start m (populateFromTok (lay lib cfg none [] 0 j)))
      (graftFields P lib cfg maxDepth fields (membersOf j) dst m) := by
  unfold populate
  dsimp only
  rw [if_neg (not_not.mpr hcheck)]
  exact populateFields_graft maxDepth hcheck dst (on_populateFromTok hnests)

end Populate

end SerializeJson
end Breadboard
