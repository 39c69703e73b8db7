import Breadboard.Core.Basics
import Breadboard.Foundations.Pieces
import Mathlib.Data.List.Induction

/-!
# bb_mqtt_client - putting fragmented messages together

A fragment at offset 0 begins a message; any other is appended to what has been collected,
wherever it belongs.  The message is reported when as many bytes as it declared have come
together.

Main results:

- Theorem `inv_after`: as long as what is appended continues the message, what has been
  collected is the beginning of it.
- Theorem `whole_messages_along`: the reports over whole sequences of fragments.
- Theorem `staysInside_always`: no write goes past the buffer.
-/

namespace Breadboard
namespace MqttClient
namespace Reassemble

open Foundations

/-- `BB_MQTT_CLIENT_REASM_TOPIC_MAX`. -/
def topicMax : Nat := 128

/-- `bb_mqtt_client_reasm_state_t`; a buffer that is NULL or has no capacity is empty. -/
structure State where
  topic : Bytes
  total : Nat
  len : Nat
  active : Bool
  buf : Bytes
  deriving Repr, DecidableEq

/-- The arguments of one call, and the message they belong to, which the code does not see. -/
structure Fragment (ι : Type) extends Piece ι UInt8 where
  /-- `topic`, which may be NULL. -/
  topic : Option Bytes
  topicLen : Nat
  total : Nat

/-- `bb_mqtt_client_reasm_reset`. -/
def reset (st : State) : State :=
  { st with
    topic := st.topic.set 0 0
    total := 0
    len := 0
    active := false }

section Step

variable {ι : Type} (sizeMax : Nat)

/-- The sum of two `size_t`, of which `sizeMax` is the greatest. -/
def sizeAdd (a b : Nat) : Nat :=
  (a + b) % (sizeMax + 1)

/-- Copy the topic of a first fragment, cut to the array, and terminate it. -/
def writeTopic (array : Bytes) (f : Fragment ι) : Bytes :=
  let tlen := if topicMax ≤ f.topicLen then topicMax - 1 else f.topicLen
  let copied := match f.topic with
    | some topic => overwrite array 0 (topic.take tlen)
    | none => array
  copied.set tlen 0

/-- The first fragment of a new message. -/
def begin (st : State) (f : Fragment ι) : State :=
  { st with
    active := true
    len := 0
    total := f.total
    topic := writeTopic st.topic f }

/-- Append to a message in progress, or drop the message. -/
def append (st : State) (f : Fragment ι) : Bool × State :=
  let len := sizeAdd sizeMax st.len f.data.length
  if st.buf.length < len ∨ st.total < len then (false, { st with active := false })
  else
    let st' := { st with buf := overwrite st.buf st.len f.data, len := len }
    if st.total ≤ len then (true, { st' with active := false }) else (false, st')

/-- `bb_mqtt_client_reasm_step`: whether the message is complete, and the state. -/
def step (st : State) (f : Fragment ι) : Bool × State :=
  if st.buf.length = 0 then (false, st)
  else if f.offset = 0 then
    let st' := begin st f
    if st'.buf.length < st'.total then (false, { st' with active := false })
    else append sizeMax st' f
  else if st.active then append sizeMax st f
  else (false, st)

/-- The state after some fragments. -/
def after (st : State) (fs : List (Fragment ι)) : State :=
  fs.foldl (fun st f => (step sizeMax st f).2) st

/-- The fragment completes a message. -/
def Reports (st : State) (fs : List (Fragment ι)) (f : Fragment ι) : Prop :=
  (step sizeMax (after sizeMax st fs) f).1 = true

instance (st : State) (fs : List (Fragment ι)) (f : Fragment ι) :
    Decidable (Reports sizeMax st fs f) :=
  inferInstanceAs (Decidable (_ = _))

@[simp] theorem after_nil (st : State) : after sizeMax st ([] : List (Fragment ι)) = st :=
  rfl

@[simp] theorem after_append (st : State) (fs gs : List (Fragment ι)) :
    after sizeMax st (fs ++ gs) = after sizeMax (after sizeMax st fs) gs :=
  List.foldl_append

theorem after_singleton (st : State) (f : Fragment ι) :
    after sizeMax st [f] = (step sizeMax st f).2 :=
  rfl

end Step

section Sound

variable {ι : Type} {sizeMax : Nat} {st : State} {f : Fragment ι}

/-- The data of a fragment and the buffer are in memory together. -/
def InMemory (sizeMax cap : Nat) (f : Fragment ι) : Prop :=
  cap + f.data.length ≤ sizeMax

/-- What the length field and the buffer are, at any time. -/
structure Bounded (cap : Nat) (st : State) : Prop where
  room : st.buf.length = cap
  used : st.len ≤ cap

theorem sizeAdd_eq {cap : Nat} (h : Bounded cap st) (hmem : InMemory sizeMax cap f) :
    sizeAdd sizeMax st.len f.data.length = st.len + f.data.length := by
  have hlen := h.used
  rw [InMemory] at hmem
  exact Nat.mod_eq_of_lt (by omega)

/-- The state after the fragment has been copied behind what there is. -/
def collect (st : State) (f : Fragment ι) : State :=
  { st with
    active := decide (st.len + f.data.length < st.total)
    buf := overwrite st.buf st.len f.data
    len := st.len + f.data.length }

theorem Bounded.collect {cap : Nat} (h : Bounded cap st)
    (hfits : st.len + f.data.length ≤ cap) : Bounded cap (Reassemble.collect st f) := by
  refine ⟨?_, hfits⟩
  rw [← h.room] at hfits
  exact (length_overwrite hfits).trans h.room

/-- The state that a fragment is appended to: a new message, or the one in progress. -/
def AppendsTo (cap : Nat) (st : State) (f : Fragment ι) (base : State) : Prop :=
  f.offset = 0 ∧ base = begin st f ∧ f.total ≤ cap ∨ f.offset ≠ 0 ∧ st.active = true ∧ base = st

/-- What one call does. -/
inductive Moves (cap : Nat) (st : State) (f : Fragment ι) : Bool × State → Prop where
  | ignored (hno : cap = 0 ∨ f.offset ≠ 0 ∧ st.active = false) : Moves cap st f (false, st)
  | tooLarge {st' : State} (hbounded : Bounded cap st') (hoff : st'.active = false)
      (hlarge : f.offset = 0 ∧ cap < f.total) : Moves cap st f (false, st')
  | overflow {base st' : State} (hbounded : Bounded cap st') (hoff : st'.active = false)
      (hbase : AppendsTo cap st f base)
      (hover : cap < base.len + f.data.length ∨ base.total < base.len + f.data.length) :
      Moves cap st f (false, st')
  | collected {base : State} (hbounded : Bounded cap base) (hbase : AppendsTo cap st f base)
      (hfits : base.len + f.data.length ≤ cap) (htotal : base.len + f.data.length ≤ base.total) :
      Moves cap st f (decide (base.total ≤ base.len + f.data.length), collect base f)

theorem moves_append {cap : Nat} {base : State} (h : Bounded cap base)
    (hmem : InMemory sizeMax cap f) (hon : base.active = true) (hbase : AppendsTo cap st f base) :
    Moves cap st f (append sizeMax base f) := by
  have hsum := sizeAdd_eq h hmem
  unfold append
  simp only [hsum, h.room]
  split
  next hover => exact .overflow ⟨h.room, h.used⟩ rfl hbase hover
  next hfits =>
    have hcollected := @Moves.collected ι cap st f base h hbase (by omega) (by omega)
    rw [collect] at hcollected
    split
    next hdone =>
      rwa [decide_eq_true hdone, decide_eq_false (Nat.not_lt.mpr hdone)] at hcollected
    next hmore =>
      rwa [decide_eq_false hmore, decide_eq_true (Nat.lt_of_not_le hmore), ← hon] at hcollected

theorem moves_step {cap : Nat} (h : Bounded cap st) (hmem : InMemory sizeMax cap f) :
    Moves cap st f (step sizeMax st f) := by
  unfold step
  split
  next hnone => exact .ignored (.inl (h.room.symm.trans hnone))
  split
  next hoffset =>
    have hbegun : Bounded cap (begin st f) := ⟨h.room, Nat.zero_le _⟩
    simp only [hbegun.room]
    split
    next hlarge => exact .tooLarge ⟨h.room, Nat.zero_le _⟩ rfl ⟨hoffset, hlarge⟩
    next htotal =>
      exact moves_append hbegun hmem rfl (.inl ⟨hoffset, rfl, Nat.le_of_not_lt htotal⟩)
  next hoffset =>
    split
    next hon => exact moves_append h hmem hon (.inr ⟨hoffset, hon, rfl⟩)
    next hoff => exact .ignored (.inr ⟨hoffset, Bool.eq_false_iff.mpr hoff⟩)

theorem Moves.bounded {cap : Nat} {out : Bool × State} (h : Bounded cap st)
    (hmoves : Moves cap st f out) : Bounded cap out.2 := by
  cases hmoves with
  | ignored => exact h
  | tooLarge hbounded => exact hbounded
  | overflow hbounded => exact hbounded
  | collected hbounded _ hfits _ => exact hbounded.collect hfits

theorem bounded_after {cap : Nat} (h : Bounded cap st) {fs : List (Fragment ι)}
    (hmem : ∀ f ∈ fs, InMemory sizeMax cap f) : Bounded cap (after sizeMax st fs) := by
  induction fs using List.reverseRecOn with
  | nil => exact h
  | append_singleton fs f ih =>
    rw [after_append, after_singleton]
    have hsofar := ih fun g hg => hmem g (List.mem_append_left _ hg)
    exact (moves_step hsofar (hmem f (by simp))).bounded hsofar

/-! ## What has been collected -/

/-- The message that was begun last. -/
def opened (fs : List (Fragment ι)) : Option ι :=
  fs.foldl (fun m f => if f.offset = 0 then some f.msg else m) none

theorem opened_append (fs : List (Fragment ι)) (f : Fragment ι) :
    opened (fs ++ [f]) = if f.offset = 0 then some f.msg else opened fs :=
  List.foldl_append

/-- The bytes of some fragments. -/
def bytesOf (fs : List (Fragment ι)) : Bytes :=
  content (fs.map Fragment.toPiece)

/-- Fragments of one message, in order from its start. -/
def FromStart (m : ι) (fs : List (Fragment ι)) : Prop :=
  InOrder m 0 (fs.map Fragment.toPiece)

/-- The buffer holds the bytes of fragments in order; the first has said how many there will be. -/
structure Holds (m : ι) (fs : List (Fragment ι)) (st : State) : Prop where
  order : FromStart m fs
  bytes : st.buf.take st.len = bytesOf fs
  count : st.len = (bytesOf fs).length
  declared : ∃ first rest, fs = first :: rest ∧ first.total = st.total

theorem bytesOf_append (fs : List (Fragment ι)) (f : Fragment ι) :
    bytesOf (fs ++ [f]) = bytesOf fs ++ f.data := by
  simp [bytesOf, content_append]

/-- A first fragment. -/
theorem holds_begin {cap : Nat} (hcap : st.buf.length = cap) (hoffset : f.offset = 0)
    (hfits : f.data.length ≤ cap) : Holds f.msg [f] (collect (begin st f) f) := by
  have hroom : 0 + f.data.length ≤ st.buf.length := by omega
  have htake := take_overwrite hroom
  refine ⟨⟨rfl, hoffset, trivial⟩, ?_, ?_, f, [], rfl, rfl⟩
  · refine htake.trans ?_
    simp [bytesOf]
  · simp [bytesOf, collect, begin]

/-- One more fragment, that continues the message. -/
theorem Holds.collect {m : ι} {fs : List (Fragment ι)} (h : Holds m fs st) (hmsg : f.msg = m)
    (hoffset : f.offset = st.len) (hfits : st.len + f.data.length ≤ st.buf.length) :
    Holds m (fs ++ [f]) (Reassemble.collect st f) := by
  constructor
  · rw [FromStart, List.map_append]
    refine inOrder_append h.order hmsg ?_
    rw [Nat.zero_add]
    exact hoffset.trans h.count
  · rw [bytesOf_append, ← h.bytes]
    exact take_overwrite hfits
  · rw [bytesOf_append, List.length_append, ← h.count]
    rfl
  · obtain ⟨first, rest, hfs, htotal⟩ := h.declared
    exact ⟨first, rest ++ [f], by rw [hfs, List.cons_append], htotal⟩

/-! ## Whole sequences of fragments -/

/-- A fragment that is appended is the next one of the message that was begun. -/
def Continues (sizeMax : Nat) (st : State) (fs : List (Fragment ι)) (f : Fragment ι) : Prop :=
  f.offset ≠ 0 → (after sizeMax st fs).active = true →
    (after sizeMax st fs).len + f.data.length ≤ (after sizeMax st fs).buf.length →
      (after sizeMax st fs).len + f.data.length ≤ (after sizeMax st fs).total →
        opened fs = some f.msg ∧ f.offset = (after sizeMax st fs).len

/-- Every fragment of a sequence does, after those before it. -/
def AllContinue (sizeMax : Nat) (st : State) (fs : List (Fragment ι)) : Prop :=
  ∀ pre f, pre ++ [f] <+: fs → Continues sizeMax st pre f

theorem allContinue_nil : AllContinue sizeMax st ([] : List (Fragment ι)) := by
  intro pre f hpre
  exact absurd (List.prefix_nil.mp hpre) (by simp)

theorem allContinue_append (fs : List (Fragment ι)) (f : Fragment ι) :
    AllContinue sizeMax st (fs ++ [f]) ↔ AllContinue sizeMax st fs ∧ Continues sizeMax st fs f := by
  constructor
  · intro hall
    exact ⟨fun pre g hpre => hall pre g (hpre.trans (List.prefix_append _ _)),
      hall fs f List.prefix_rfl⟩
  · rintro ⟨hall, hlast⟩ pre g hpre
    rcases List.prefix_concat_iff.mp hpre with heq | hbefore
    · obtain ⟨rfl, hg⟩ := List.append_inj' heq rfl
      rw [List.singleton_inj.mp hg]
      exact hlast
    · exact hall pre g hbefore

/-- While a message is in progress, the last fragments have been collected. -/
structure Inv (sizeMax cap : Nat) (st : State) (fs : List (Fragment ι)) : Prop where
  bounded : Bounded cap (after sizeMax st fs)
  progress : (after sizeMax st fs).active = true →
    (after sizeMax st fs).len < (after sizeMax st fs).total ∧
      (after sizeMax st fs).total ≤ cap ∧
        ∃ earlier frags m, fs = earlier ++ frags ∧ opened fs = some m ∧
          Holds m frags (after sizeMax st fs)

variable {cap : Nat} {fs : List (Fragment ι)}

/-- What has been collected after a fragment was appended. -/
theorem Inv.collected (h : Inv sizeMax cap st fs) (hnext : Continues sizeMax st fs f)
    {base : State}
    (hbase : AppendsTo cap (after sizeMax st fs) f base)
    (hfits : base.len + f.data.length ≤ cap) (htotal : base.len + f.data.length ≤ base.total) :
    base.total ≤ cap ∧ ∃ earlier frags m, fs ++ [f] = earlier ++ frags ∧
      opened (fs ++ [f]) = some m ∧ Holds m frags (collect base f) := by
  rw [opened_append]
  rcases hbase with ⟨hoffset, rfl, hcap⟩ | ⟨hoffset, hon, rfl⟩
  · have hdata : f.data.length ≤ cap := Nat.le_trans (Nat.le_add_left _ _) hfits
    exact ⟨hcap, fs, [f], f.msg, rfl, if_pos hoffset, holds_begin h.bounded.room hoffset hdata⟩
  · obtain ⟨-, hcap, earlier, frags, m, hfs, hopened, hholds⟩ := h.progress hon
    have hroom : (after sizeMax st fs).len + f.data.length ≤ (after sizeMax st fs).buf.length := by
      rw [h.bounded.room]
      exact hfits
    obtain ⟨hsame, hat⟩ := hnext hoffset hon hroom htotal
    have hmsg : f.msg = m := Option.some.inj (hsame.symm.trans hopened)
    refine ⟨hcap, earlier, frags ++ [f], m, ?_, ?_, hholds.collect hmsg hat hroom⟩
    · rw [hfs, List.append_assoc]
    · rw [if_neg hoffset, hopened]

theorem inv_append (h : Inv sizeMax cap st fs) (hmem : InMemory sizeMax cap f)
    (hnext : Continues sizeMax st fs f) : Inv sizeMax cap st (fs ++ [f]) := by
  have hmoves := moves_step h.bounded hmem
  have hbounded := hmoves.bounded h.bounded
  rw [← after_singleton, ← after_append] at hbounded
  refine ⟨hbounded, ?_⟩
  rw [after_append, after_singleton]
  generalize step sizeMax (after sizeMax st fs) f = out at hmoves
  intro hon
  cases hmoves with
  | ignored hno =>
    obtain ⟨hlt, hle, -⟩ := h.progress hon
    rcases hno with hnone | ⟨-, hoff⟩
    · omega
    · exact absurd (hon.symm.trans hoff) (by simp)
  | tooLarge _ hoff => exact absurd (hon.symm.trans hoff) (by simp)
  | overflow _ hoff => exact absurd (hon.symm.trans hoff) (by simp)
  | collected _ hbase hfits htotal =>
    have hcollected := h.collected hnext hbase hfits htotal
    exact ⟨of_decide_eq_true hon, hcollected.1, hcollected.2⟩

/-- As long as what is appended continues the message, the buffer holds the beginning of it. -/
theorem inv_after (h : Bounded cap st) (hoff : st.active = false)
    (hmem : ∀ f ∈ fs, InMemory sizeMax cap f) (hall : AllContinue sizeMax st fs) :
    Inv sizeMax cap st fs := by
  induction fs using List.reverseRecOn with
  | nil => exact ⟨h, fun hon => absurd (hoff.symm.trans hon) (by simp)⟩
  | append_singleton fs f ih =>
    obtain ⟨hbefore, hlast⟩ := (allContinue_append fs f).mp hall
    exact inv_append (ih (fun g hg => hmem g (List.mem_append_left _ hg)) hbefore)
      (hmem f (by simp)) hlast

/-- The buffer after a report: the fragments since the first one, of one message and whole. -/
structure Whole (m : ι) (frags : List (Fragment ι)) (st : State) : Prop extends
    Holds m frags st where
  complete : st.len = st.total

theorem reports_whole (h : Inv sizeMax cap st fs) (hmem : InMemory sizeMax cap f)
    (hnext : Continues sizeMax st fs f) (hreports : Reports sizeMax st fs f) :
    ∃ earlier frags m, fs ++ [f] = earlier ++ frags ∧
      Whole m frags (after sizeMax st (fs ++ [f])) := by
  have hmoves := moves_step h.bounded hmem
  rw [Reports] at hreports
  rw [after_append, after_singleton]
  generalize step sizeMax (after sizeMax st fs) f = out at hmoves hreports
  cases hmoves with
  | ignored => cases hreports
  | tooLarge => cases hreports
  | overflow => cases hreports
  | collected _ hbase hfits htotal =>
    obtain ⟨-, earlier, frags, m, hfs, -, hholds⟩ := h.collected hnext hbase hfits htotal
    have hdone := of_decide_eq_true hreports
    exact ⟨earlier, frags, m, hfs, hholds, Nat.le_antisymm htotal hdone⟩

/-- Fragments cut out of a published message give it back whole. -/
theorem Whole.published {m : ι} {frags : List (Fragment ι)} (h : Whole m frags st)
    {message : ι → Bytes} (hcut : ∀ f ∈ frags, f.Cut message ∧ f.total = (message f.msg).length) :
    st.buf.take st.total = message m := by
  obtain ⟨first, rest, hfs, htotal⟩ := h.declared
  have horder := h.order
  have hfirst := (hcut first (by simp [hfs])).2
  have hmsg : first.msg = m := by
    rw [FromStart, hfs] at horder
    exact horder.1
  rw [← h.complete, h.bytes]
  refine content_eq_of_cut h.order (fun p hp => ?_) ?_
  · obtain ⟨f, hf, rfl⟩ := List.mem_map.mp hp
    exact (hcut f hf).1
  · rw [← hmsg, ← hfirst, htotal, ← h.complete]
    exact h.count.symm

/-! ## A message that arrives complete -/

/-- Ready for what comes after some bytes: at the start always, later when they are held. -/
def Ready (got : Bytes) (total : Nat) (st : State) : Prop :=
  got = [] ∨ st.active = true ∧ st.total = total ∧ st.len = got.length ∧ st.buf.take st.len = got

theorem ready_base {got : Bytes} {total : Nat} {base : State} (h : Ready got total st)
    (hoffset : f.offset = got.length) (htotal : f.total = total)
    (hbase : AppendsTo cap st f base) :
    base.total = total ∧ base.len = got.length ∧ base.buf.take base.len = got := by
  rcases hbase with ⟨hzero, rfl, -⟩ | ⟨hne, -, rfl⟩
  · have hnone : got = [] := List.length_eq_zero_iff.mp (hoffset.symm.trans hzero)
    rw [hnone]
    exact ⟨htotal, rfl, List.take_zero⟩
  · refine (h.resolve_left ?_).2
    rintro rfl
    exact hne hoffset

/-- The rest of a message, in order, in a state that is ready for it, is collected and reported. -/
theorem collects_rest {m : ι} {total : Nat} {rest : List (Fragment ι)} (hcap : cap ≠ 0)
    (hle : total ≤ cap) {got : Bytes} (hbounded : Bounded cap st) (hready : Ready got total st)
    (horder : InOrder m got.length (rest.map Fragment.toPiece))
    (hrest : ∀ f ∈ rest, f.total = total ∧ InMemory sizeMax cap f)
    (hlength : (got ++ bytesOf rest).length = total) (hmore : got.length < total ∨ rest ≠ []) :
    ∃ before f behind, rest = before ++ f :: behind ∧ Reports sizeMax st before f ∧
      (after sizeMax st (before ++ [f])).buf.take total = got ++ bytesOf rest := by
  induction rest generalizing st got with
  | nil =>
    simp only [bytesOf, List.map_nil, content_nil, List.append_nil] at hlength
    rcases hmore with hlt | hnil
    · omega
    · exact absurd rfl hnil
  | cons f rest ih =>
    obtain ⟨hmsg, hoffset, hothers⟩ := horder
    obtain ⟨htotal, hmem⟩ := hrest f List.mem_cons_self
    have hsum : got ++ bytesOf (f :: rest) = (got ++ f.data) ++ bytesOf rest :=
      (List.append_assoc _ _ _).symm
    have hcount : got.length + f.data.length + (bytesOf rest).length = total := by
      rw [hsum, List.length_append, List.length_append] at hlength
      exact hlength
    have hmoves := moves_step hbounded hmem
    generalize hstep : step sizeMax st f = out at hmoves
    cases hmoves with
    | ignored hno =>
      rcases hno with hzero | ⟨hne, hoff⟩
      · exact absurd hzero hcap
      · rcases hready with rfl | ⟨hon, -⟩
        · exact absurd hoffset hne
        · exact absurd (hon.symm.trans hoff) (by simp)
    | tooLarge _ _ hlarge => omega
    | overflow _ _ hbase hover =>
      obtain ⟨hbaseTotal, hbaseLen, -⟩ := ready_base hready hoffset htotal hbase
      omega
    | @collected base hbaseBounded hbase hfits _ =>
      obtain ⟨hbaseTotal, hbaseLen, hbytes⟩ := ready_base hready hoffset htotal hbase
      have hnext : after sizeMax st [f] = collect base f := by rw [after_singleton, hstep]
      have hroom : base.len + f.data.length ≤ base.buf.length := by
        rw [hbaseBounded.room]
        exact hfits
      have hheld : (collect base f).buf.take (base.len + f.data.length) = got ++ f.data := by
        rw [← hbytes]
        exact take_overwrite hroom
      rw [hbaseTotal, hbaseLen] at hstep
      rw [hbaseLen] at hheld
      by_cases hdone : total ≤ got.length + f.data.length
      · refine ⟨[], f, rest, rfl, ?_, ?_⟩
        · rw [Reports, after_nil, hstep]
          exact decide_eq_true hdone
        · have hempty : bytesOf rest = [] := List.length_eq_zero_iff.mp (by omega)
          have hall : got.length + f.data.length = total := by omega
          rw [List.nil_append, hnext, hsum, hempty, List.append_nil, ← hall, hheld]
      · have hheldReady : Ready (got ++ f.data) total (collect base f) := by
          refine .inr ⟨?_, hbaseTotal, ?_, ?_⟩
          · exact decide_eq_true (by omega)
          · rw [List.length_append, ← hbaseLen]
            rfl
          · rw [← hheld, ← hbaseLen]
            rfl
        have hlater := ih (hbaseBounded.collect hfits) hheldReady
          (by rw [List.length_append]; exact hothers)
          (fun g hg => hrest g (List.mem_cons_of_mem f hg)) (by rw [← hsum]; exact hlength)
          (.inl (by rw [List.length_append]; omega))
        obtain ⟨before, g, behind, hsplit, hreports, hbuf⟩ := hlater
        refine ⟨f :: before, g, behind, by rw [hsplit, List.cons_append], ?_, ?_⟩
        · rw [Reports] at hreports ⊢
          rw [← List.singleton_append, after_append, hnext]
          exact hreports
        · rw [List.cons_append, ← List.singleton_append, after_append, hnext, hsum]
          exact hbuf

/-! ## The contract -/

/-- Every report is of one whole message: the fragments since its first. -/
def ReportsWhole (sizeMax : Nat) (st : State) (fs : List (Fragment ι)) : Prop :=
  ∀ pre f, pre ++ [f] <+: fs → Reports sizeMax st pre f →
    ∃ earlier frags m, pre ++ [f] = earlier ++ frags ∧
      Whole m frags (after sizeMax st (pre ++ [f])) ∧
        ∀ message : ι → Bytes,
          (∀ g ∈ frags, g.Cut message ∧ g.total = (message g.msg).length) →
            (after sizeMax st (pre ++ [f])).buf.take (after sizeMax st (pre ++ [f])).total =
              message m

/-- No write goes past the capacity, and no sum of lengths wraps. -/
def StaysInside (sizeMax : Nat) (st : State) (fs : List (Fragment ι)) : Prop :=
  ∀ pre f, pre ++ [f] <+: fs →
    (after sizeMax st (pre ++ [f])).buf.length = st.buf.length ∧
      ∀ base, AppendsTo st.buf.length (after sizeMax st pre) f base →
        sizeAdd sizeMax base.len f.data.length = base.len + f.data.length

/-- After any of the fragments, a message that arrives complete and in order is reported. -/
def Resynchronises (sizeMax : Nat) (st : State) (fs : List (Fragment ι)) : Prop :=
  ∀ pre, pre <+: fs → ∀ (m : ι) (rest : List (Fragment ι)), FromStart m rest → rest ≠ [] →
    (bytesOf rest).length ≤ st.buf.length →
      (∀ f ∈ rest, f.total = (bytesOf rest).length ∧ InMemory sizeMax st.buf.length f) →
        ∃ before f behind, rest = before ++ f :: behind ∧
          Reports sizeMax (after sizeMax st pre) before f ∧
            (after sizeMax st (pre ++ before ++ [f])).buf.take f.total = bytesOf rest

theorem bounded_reset (st : State) : Bounded st.buf.length (reset st) :=
  ⟨rfl, Nat.zero_le _⟩

/--
For every buffer that has a capacity and every sequence of fragments whose appended fragments
each continue the message that was begun last, where its bytes so far end: every report is of a
whole message, nothing is written outside the buffer, and after any prefix of the sequence the
next message that arrives complete and in order is reported.
-/
theorem whole_messages_along (sizeMax : Nat) (st : State) (hbuf : st.buf ≠ [])
    (fs : List (Fragment ι)) (hmem : ∀ f ∈ fs, InMemory sizeMax st.buf.length f)
    (hall : AllContinue sizeMax (reset st) fs) :
    ReportsWhole sizeMax (reset st) fs ∧ StaysInside sizeMax (reset st) fs ∧
      Resynchronises sizeMax (reset st) fs := by
  have hpart : ∀ pre, pre <+: fs → ∀ f ∈ pre, InMemory sizeMax st.buf.length f :=
    fun pre hpre f hf => hmem f (hpre.subset hf)
  have hinv : ∀ pre, pre <+: fs → Inv sizeMax st.buf.length (reset st) pre := fun pre hpre =>
    inv_after (bounded_reset st) rfl (hpart pre hpre) fun q f hq => hall q f (hq.trans hpre)
  refine ⟨?_, ?_, ?_⟩
  · intro pre f hpre hreports
    have hfirst : pre <+: fs := (List.prefix_append pre [f]).trans hpre
    obtain ⟨earlier, frags, m, hsplit, hwhole⟩ := reports_whole (hinv pre hfirst)
      (hpart _ hpre f (by simp)) (hall pre f hpre) hreports
    exact ⟨earlier, frags, m, hsplit, hwhole, fun message hcut => hwhole.published hcut⟩
  · intro pre f hpre
    have hfirst : pre <+: fs := (List.prefix_append pre [f]).trans hpre
    refine ⟨(hinv _ hpre).bounded.room, fun base hbase => ?_⟩
    refine sizeAdd_eq ?_ (hpart _ hpre f (by simp))
    rcases hbase with ⟨-, rfl, -⟩ | ⟨-, -, rfl⟩
    · exact ⟨(hinv pre hfirst).bounded.room, Nat.zero_le _⟩
    · exact (hinv pre hfirst).bounded
  · intro pre hpre m rest horder hsome hle hrest
    have hcap : st.buf.length ≠ 0 := fun h => hbuf (List.length_eq_zero_iff.mp h)
    obtain ⟨before, f, behind, hsplit, hreports, hheld⟩ :=
      collects_rest hcap hle (hinv pre hpre).bounded (.inl rfl) horder hrest rfl (.inr hsome)
    refine ⟨before, f, behind, hsplit, hreports, ?_⟩
    have htotal := (hrest f (by simp [hsplit])).1
    rw [List.append_assoc, after_append, htotal]
    exact hheld

end Sound

/-! ### Messages of six bytes, in a buffer of eight -/

/-- A buffer before the first message. -/
def fresh : State :=
  { topic := List.replicate topicMax 0
    total := 0
    len := 0
    active := false
    buf := List.replicate 8 0 }

/-- A fragment of a six-byte message. -/
def sixth (offset : Nat) (data : Bytes) : Fragment Unit :=
  { msg := ()
    offset := offset
    data := data
    topic := none
    topicLen := 0
    total := 6 }

theorem whole_messages_along_two :
    ReportsWhole 4294967295 (reset fresh) [sixth 0 [1, 2, 3], sixth 3 [4, 5, 6]] ∧
      StaysInside 4294967295 (reset fresh) [sixth 0 [1, 2, 3], sixth 3 [4, 5, 6]] ∧
        Resynchronises 4294967295 (reset fresh) [sixth 0 [1, 2, 3], sixth 3 [4, 5, 6]] := by
  refine whole_messages_along 4294967295 fresh (by simp [fresh]) _ ?_ ?_
  · intro f hf
    have hlength : f.data.length ≤ 3 := by
      rcases List.mem_cons.mp hf with rfl | hf
      · exact Nat.le_refl 3
      · rw [List.mem_singleton.mp hf]
        exact Nat.le_refl 3
    have hcap : fresh.buf.length = 8 := rfl
    rw [InMemory, hcap]
    omega
  · refine (allContinue_append [sixth 0 [1, 2, 3]] _).mpr ⟨?_, fun _ _ _ _ => ⟨rfl, rfl⟩⟩
    exact (allContinue_append [] _).mpr ⟨allContinue_nil, fun hne => absurd rfl hne⟩

/-- The second fragment comes twice, and a message is reported that was never published. -/
theorem repeated_fragment_reported :
    ¬ ∀ (st : State) (fs : List (Fragment Unit)) (message : Unit → Bytes),
      (∀ f ∈ fs, f.Cut message ∧ f.total = (message f.msg).length) →
        ∀ pre f, pre ++ [f] <+: fs → Reports 4294967295 (reset st) pre f →
          ∃ m, (after 4294967295 (reset st) (pre ++ [f])).buf.take f.total = message m := by
  intro hall
  have hwrong := hall fresh [sixth 0 [1, 2], sixth 2 [3, 4], sixth 2 [3, 4]]
    (fun _ => [1, 2, 3, 4, 5, 6]) ?_ [sixth 0 [1, 2], sixth 2 [3, 4]] (sixth 2 [3, 4])
    List.prefix_rfl (by decide)
  · obtain ⟨-, hbytes⟩ := hwrong
    revert hbytes
    decide
  · intro f hf
    have hcut : f = sixth 0 [1, 2] ∨ f = sixth 2 [3, 4] := by
      simpa [or_assoc] using hf
    rcases hcut with rfl | rfl <;> exact ⟨rfl, rfl⟩

/-- Whatever order the fragments come in, nothing is written outside the buffer. -/
theorem staysInside_always {ι : Type} (sizeMax : Nat) (st : State) {fs : List (Fragment ι)}
    (hmem : ∀ f ∈ fs, InMemory sizeMax st.buf.length f) : StaysInside sizeMax (reset st) fs := by
  have hbounded : ∀ pre, pre <+: fs → Bounded st.buf.length (after sizeMax (reset st) pre) :=
    fun pre hpre => bounded_after (bounded_reset st) fun f hf => hmem f (hpre.subset hf)
  intro pre f hpre
  refine ⟨(hbounded _ hpre).room, fun base hbase => sizeAdd_eq ?_ (hmem f (hpre.subset (by simp)))⟩
  have hsofar := hbounded pre ((List.prefix_append pre [f]).trans hpre)
  rcases hbase with ⟨-, rfl, -⟩ | ⟨-, -, rfl⟩
  · exact ⟨hsofar.room, Nat.zero_le _⟩
  · exact hsofar

theorem staysInside_always_repeated :
    StaysInside 4294967295 (reset fresh) [sixth 0 [1, 2], sixth 2 [3, 4], sixth 2 [3, 4]] := by
  refine staysInside_always 4294967295 fresh fun f hf => ?_
  have hlength : f.data.length = 2 := by
    simp only [List.mem_cons, List.not_mem_nil, or_false] at hf
    rcases hf with rfl | rfl | rfl <;> rfl
  have hcap : fresh.buf.length = 8 := rfl
  rw [InMemory, hcap]
  omega

end Reassemble
end MqttClient
end Breadboard
