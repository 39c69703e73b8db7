import Breadboard.Foundations.RingBuffer
import Breadboard.Foundations.Runs
import Breadboard.Reboot.Record

/-!
# bb_reboot_reason - the reboot history

A ring of the last eight reboots, persisted as one line
`head|count|src,epoch,uptime;...`.  All eight slots are written, in the
order of the array and not of the ring, so that the ring reads back slot by slot.

Main results:

- Theorem `historyDecode_historyText`: what the encoder wrote is decoded back.
- Theorem `codecs_roundTrip`: both codecs, for every record, history and stored line.
-/

namespace Breadboard
namespace Reboot

open Foundations Foundations.Decimal Foundations.RateLimit

/-- `BB_REBOOT_HISTORY_CAP`. -/
def historyCap : Nat := 8

/-- `bb_reboot_hist_entry_t`. -/
structure HistEntry where
  src : UInt8
  epochS : UInt32
  uptimeS : UInt32
  deriving Repr, DecidableEq

/-- A zeroed entry. -/
def HistEntry.zero : HistEntry where
  src := 0
  epochS := 0
  uptimeS := 0

/-- `bb_reboot_history_t`. -/
@[ext] structure RebootHistory where
  entries : List HistEntry
  head : Nat
  count : Nat
  entries_length : entries.length = historyCap

/-- A zeroed ring. -/
def RebootHistory.empty : RebootHistory where
  entries := List.replicate historyCap .zero
  head := 0
  count := 0
  entries_length := List.length_replicate

/-- `bb_reboot_history_push`. -/
def historyPush (h : RebootHistory) (e : HistEntry) : RebootHistory :=
  if h.count < historyCap then
    { h with
      entries := h.entries.set ((h.head + h.count) % historyCap) e
      count := h.count + 1
      entries_length := by rw [List.length_set, h.entries_length] }
  else
    { h with
      entries := h.entries.set h.head e
      head := (h.head + 1) % historyCap
      entries_length := by rw [List.length_set, h.entries_length] }

/-- `BB_REBOOT_HISTORY_STR_MAX`. -/
def historyStrMax : Nat := 256

/-! ## Writing -/

/-- The separator `;`. -/
def semicolon : UInt8 := 59

/-- The text of one entry. -/
def entryText (e : HistEntry) : Bytes :=
  decimal e.src.toNat ++ comma :: decimal e.epochS.toNat ++ comma :: decimal e.uptimeS.toNat

/-- The slot loop of the encoder, each entry after its separator. -/
def appendEntries (bufLen : Nat) : Bytes → Bytes → List HistEntry → Option Bytes
  | buf, _, [] => some buf
  | buf, sep, e :: rest =>
    let piece := sep ++ entryText e
    if bufLen - buf.length ≤ piece.length then none
    else appendEntries bufLen (buf ++ piece) [semicolon] rest

/--
`bb_reboot_history_encode`: the written string, or none where `snprintf` would have
truncated it.
-/
def historyEncode (h : RebootHistory) (bufLen : Nat) : Option Bytes :=
  if bufLen = 0 then none
  else
    let header := decimal h.head ++ bar :: decimal h.count ++ [bar]
    if bufLen ≤ header.length then none
    else appendEntries bufLen header [] h.entries

/-! ## Reading -/

/-- The two leading fields, up to and with the second bar. -/
def scanHistoryHeader (s : Bytes) : Option (Nat × Nat × Bytes) := do
  let (head, s) ← scanU s
  let s ← literal bar s
  let (count, s) ← scanU s
  let s ← literal bar s
  return (head, count, s)

/-- The three numbers of one entry. -/
def scanEntry (s : Bytes) : Option (Nat × Nat × Nat × Bytes) := do
  let (src, s) ← scanU s
  let s ← literal comma s
  let (epoch, s) ← scanU s
  let s ← literal comma s
  let (uptime, s) ← scanU s
  return (src, epoch, uptime, s)

/-- The semicolon after an entry, which the last one does not have. -/
def skipSemicolon (left : Nat) (p : Bytes) : Option Bytes :=
  if left = 0 then some p else literal semicolon p

/-- The slot loop of the decoder: `n` entries with a semicolon between them. -/
def scanEntries : Nat → Bytes → Option (List HistEntry)
  | 0, _ => some []
  | n + 1, p => do
    let (src, epoch, uptime, p) ← scanEntry p
    if resetSrcCount ≤ src then none
    else
      let p ← skipSemicolon n p
      let rest ← scanEntries n p
      return { src := src.toUInt8, epochS := epoch.toUInt32, uptimeS := uptime.toUInt32 } :: rest

theorem scanEntries_spec {n : Nat} {p : Bytes} {l : List HistEntry}
    (h : scanEntries n p = some l) : l.length = n ∧ ∀ e ∈ l, Known e.src := by
  induction n generalizing p l with
  | zero =>
    cases h
    exact ⟨rfl, fun _ he => absurd he List.not_mem_nil⟩
  | succ n ih =>
    simp only [scanEntries, Option.bind_eq_bind, Option.bind_eq_some_iff] at h
    rcases h with ⟨⟨src, epoch, uptime, q⟩, _, hrest⟩
    dsimp only at hrest
    split at hrest
    · cases hrest
    · rename_i hrange
      rcases Option.bind_eq_some_iff.mp hrest with ⟨q', _, hrest⟩
      rcases Option.bind_eq_some_iff.mp hrest with ⟨rest, htail, hcons⟩
      cases hcons
      rcases ih htail with ⟨hlen, hknown⟩
      constructor
      · rw [List.length_cons, hlen]
      · intro e he
        rcases List.mem_cons.mp he with rfl | hmem
        · exact known_toUInt8 (Nat.lt_of_not_le hrange)
        · exact hknown e hmem

/-- The ring that `bb_reboot_history_decode` builds, or none where it gives up. -/
def historyScan (str : Bytes) : Option RebootHistory :=
  if ¬ str.head?.any isDigit then none
  else
    match scanHistoryHeader str with
    | none => none
    | some (head, count, p) =>
      if historyCap ≤ head ∨ historyCap < count then none
      else
        match hentries : scanEntries historyCap p with
        | none => none
        | some entries =>
          some
            { entries := entries
              head := head
              count := count
              entries_length := (scanEntries_spec hentries).1 }

/-- `bb_reboot_history_decode`: its answer and `*out` after it. -/
def historyDecode (str : Bytes) (out : RebootHistory) : Bool × RebootHistory :=
  match historyScan str with
  | none => (false, out)
  | some decoded => (true, decoded)

/-! ## The ring -/

/-- The entries of a ring from its head on. -/
def RebootHistory.ordered (h : RebootHistory) : List HistEntry :=
  RingBuffer.window (fun i => h.entries.getD i .zero) historyCap h.head h.count

theorem getD_set {l : List HistEntry} {j : Nat} (hj : j < l.length) (e : HistEntry) :
    (fun i => (l.set j e).getD i .zero) =
      Function.update (fun i => l.getD i HistEntry.zero) j e := by
  funext i
  by_cases h : i = j
  · subst h
    rw [Function.update_self]
    simp [List.getD_eq_getElem?_getD, hj]
  · rw [Function.update_of_ne h]
    simp [List.getD_eq_getElem?_getD, List.getElem?_set_ne (Ne.symm h)]

/-- The ring holds the newest of the pushed entries, in order, and known sources only. -/
structure RebootHistory.Holds (h : RebootHistory) (es : List HistEntry) : Prop where
  head_lt : h.head < historyCap
  count_le : h.count ≤ historyCap
  ordered_eq : h.ordered = newest historyCap es
  known : ∀ e ∈ h.entries, Known e.src

theorem holds_empty : RebootHistory.empty.Holds [] where
  head_lt := by decide
  count_le := by decide
  ordered_eq := rfl
  known := by
    intro e he
    rw [List.eq_of_mem_replicate he]
    exact ⟨.unknown, rfl⟩

variable {h : RebootHistory} {es : List HistEntry} {e : HistEntry}

theorem RebootHistory.Holds.count_eq (hh : h.Holds es) : h.count = min historyCap es.length := by
  have hlen := congrArg List.length hh.ordered_eq
  rw [RebootHistory.ordered, RingBuffer.length_window, length_newest] at hlen
  exact hlen

/-- A push appends, and evicts the oldest entry of a full ring. -/
theorem RebootHistory.Holds.push (hh : h.Holds es) (he : Known e.src) :
    (historyPush h e).Holds (es ++ [e]) := by
  have hcount := hh.count_eq
  have hlen := h.entries_length
  have hpos : 0 < historyCap := by decide
  have hset (i : Nat) : ∀ x ∈ h.entries.set i e, Known x.src := by
    intro x hx
    rcases List.mem_or_eq_of_mem_set hx with hold | rfl
    · exact hh.known x hold
    · exact he
  unfold historyPush
  split
  · rename_i hroom
    have hidx : (h.head + h.count) % historyCap < h.entries.length := by
      rw [hlen]
      exact Nat.mod_lt _ hpos
    have hshort : es.length < historyCap := by omega
    constructor
    · exact hh.head_lt
    · exact hroom
    · have hwrite := @RingBuffer.window_write _ (fun i => h.entries.getD i .zero) _ h.head _ hroom e
      have hall := hh.ordered_eq
      unfold RebootHistory.ordered at hall ⊢
      dsimp only
      rw [getD_set hidx, hwrite, hall, newest_of_length_le (Nat.le_of_lt hshort),
        newest_of_length_le (by rw [List.length_append, List.length_singleton]; omega)]
    · exact hset _
  · rename_i hroom
    have hfull : h.count = historyCap := by omega
    have hidx : h.head < h.entries.length := by
      rw [hlen]
      exact hh.head_lt
    constructor
    · exact Nat.mod_lt _ hpos
    · exact hh.count_le
    · have hover := @RingBuffer.window_overwrite _ (fun i => h.entries.getD i .zero) _ _
        hh.head_lt e
      have hall := hh.ordered_eq
      unfold RebootHistory.ordered at hall ⊢
      rw [hfull] at hall
      dsimp only
      rw [getD_set hidx, hfull, hover, hall, newest_append_singleton hpos (by omega)]
    · exact hset _

/-- After any pushes of known sources the ring holds the newest entries. -/
theorem holds_pushes (hes : ∀ e ∈ es, Known e.src) :
    (run historyPush .empty es).Holds es := by
  induction es using List.reverseRecOn with
  | nil => exact holds_empty
  | append_singleton es e ih =>
    rw [run_append]
    have hprefix := ih fun x hx => hes x (List.mem_append_left _ hx)
    exact hprefix.push (hes e (List.mem_append_right _ List.mem_cons_self))

/-! ## Round trip -/

/-- The text of the slots, each after its separator. -/
def entriesText (sep : Bytes) : List HistEntry → Bytes
  | [] => []
  | e :: rest => sep ++ entryText e ++ entriesText [semicolon] rest

/-- The whole text of a ring. -/
def historyText (h : RebootHistory) : Bytes :=
  decimal h.head ++ bar :: decimal h.count ++ bar :: entriesText [] h.entries

theorem appendEntries_eq {bufLen : Nat} (buf sep : Bytes) (l : List HistEntry)
    (hfit : buf.length + (entriesText sep l).length < bufLen) :
    appendEntries bufLen buf sep l = some (buf ++ entriesText sep l) := by
  induction l generalizing buf sep with
  | nil => simp [appendEntries, entriesText]
  | cons e rest ih =>
    simp only [entriesText, List.length_append] at hfit
    have hroom : ¬ bufLen - buf.length ≤ (sep ++ entryText e).length := by
      simp only [List.length_append]
      omega
    have htail := ih (buf ++ (sep ++ entryText e)) [semicolon]
      (by simp only [List.length_append]; omega)
    simp only [appendEntries, if_neg hroom, htail, entriesText, List.append_assoc]

theorem length_entryText_le (he : Known e.src) : (entryText e).length ≤ 24 := by
  have hcode := (known_iff e.src).mp he
  have hsrc : (decimal e.src.toNat).length ≤ 2 := by
    apply length_decimal_le
    unfold resetSrcCount at hcode
    omega
  have hepoch := length_decimal_uint32 e.epochS
  have huptime := length_decimal_uint32 e.uptimeS
  simp only [entryText, List.length_append, List.length_cons]
  omega

theorem length_entriesText_le {sep : Bytes} {l : List HistEntry} (hsep : sep.length ≤ 1)
    (hl : ∀ e ∈ l, Known e.src) : (entriesText sep l).length ≤ 25 * l.length := by
  induction l generalizing sep with
  | nil => simp [entriesText]
  | cons e rest ih =>
    have hpiece := length_entryText_le (hl e List.mem_cons_self)
    have htail := @ih [semicolon] (Nat.le_refl 1) fun x hx => hl x (List.mem_cons_of_mem _ hx)
    simp only [entriesText, List.length_append, List.length_cons]
    omega

/-- The buffer of the callers holds the text of every ring the pushes build. -/
theorem historyEncode_fits (hh : h.Holds es) :
    historyEncode h historyStrMax = some (historyText h) := by
  have hhead := hh.head_lt
  have hcount := hh.count_le
  unfold historyCap at hhead hcount
  have hheadLen : (decimal h.head).length ≤ 1 := length_decimal_le (by omega)
  have hcountLen : (decimal h.count).length ≤ 1 := length_decimal_le (by omega)
  have hentries := @length_entriesText_le [] h.entries (Nat.zero_le 1) hh.known
  rw [h.entries_length] at hentries
  unfold historyCap at hentries
  have hheader : (decimal h.head ++ bar :: decimal h.count ++ [bar]).length ≤ 4 := by
    simp only [List.length_append, List.length_cons, List.length_nil]
    omega
  have hzero : ¬ historyStrMax = 0 := by decide
  have hroom : ¬ historyStrMax ≤ (decimal h.head ++ bar :: decimal h.count ++ [bar]).length := by
    unfold historyStrMax
    omega
  unfold historyEncode
  simp only [if_neg hzero, if_neg hroom]
  rw [appendEntries_eq _ _ _ (by unfold historyStrMax; omega)]
  simp [historyText]

theorem isDigit_semicolon : isDigit semicolon = false := by decide

/-- An entry is read back, up to what is no digit. -/
theorem scanEntry_entryText (e : HistEntry) {rest : Bytes}
    (hrest : ∀ b ∈ rest.head?, isDigit b = false) :
    scanEntry (entryText e ++ rest) =
      some (e.src.toNat, e.epochS.toNat, e.uptimeS.toNat, rest) := by
  have hsrc : e.src.toNat < 2 ^ 32 := Nat.lt_trans e.src.toNat_lt (by decide)
  unfold scanEntry entryText
  simp only [List.append_assoc, List.cons_append]
  rw [scanU_decimal_cons hsrc isDigit_comma]
  simp only [Option.bind_eq_bind, Option.bind_some, literal_self]
  rw [scanU_decimal_cons e.epochS.toNat_lt isDigit_comma]
  simp only [Option.bind_some, literal_self]
  rw [scanU_decimal e.uptimeS.toNat_lt hrest]
  simp

theorem entry_eta (e : HistEntry) :
    { src := e.src.toNat.toUInt8, epochS := e.epochS.toNat.toUInt32,
      uptimeS := e.uptimeS.toNat.toUInt32 : HistEntry } = e := by
  simp

/-- The entries the encoder wrote are read back. -/
theorem scanEntries_entriesText {l : List HistEntry} (hl : ∀ e ∈ l, Known e.src) :
    scanEntries l.length (entriesText [] l) = some l := by
  induction l with
  | nil => rfl
  | cons e rest ih =>
    have hcode := (known_iff e.src).mp (hl e List.mem_cons_self)
    have hrange : ¬ resetSrcCount ≤ e.src.toNat := Nat.not_le.mpr hcode
    have htail := ih fun x hx => hl x (List.mem_cons_of_mem _ hx)
    cases rest with
    | nil =>
      have hscan := @scanEntry_entryText e [] fun b hb => nomatch hb
      simp only [entriesText, scanEntries, List.length_cons, List.length_nil, List.nil_append,
        hscan, Option.bind_eq_bind, Option.bind_some, if_neg hrange, skipSemicolon, if_true,
        Option.pure_def, entry_eta]
    | cons e' rest =>
      have hscan := @scanEntry_entryText e (semicolon :: entriesText [] (e' :: rest))
        fun b hb => by cases hb; exact isDigit_semicolon
      have htext : entriesText [] (e :: e' :: rest) =
          entryText e ++ semicolon :: entriesText [] (e' :: rest) := by
        simp [entriesText]
      rw [htext, List.length_cons, scanEntries, hscan]
      simp only [Option.bind_eq_bind, Option.bind_some, if_neg hrange, skipSemicolon,
        List.length_cons, Nat.add_eq_zero_iff, Nat.one_ne_zero, and_false, if_false, literal_self]
      rw [List.length_cons] at htail
      simp only [htail, Option.bind_some, Option.pure_def, entry_eta]

theorem scanHistoryHeader_decimals {a b : Nat} (ha : a < 2 ^ 32) (hb : b < 2 ^ 32)
    (rest : Bytes) :
    scanHistoryHeader (decimal a ++ bar :: decimal b ++ bar :: rest) = some (a, b, rest) := by
  simp only [List.append_assoc, List.cons_append]
  unfold scanHistoryHeader
  rw [scanU_decimal_cons ha isDigit_bar]
  simp only [Option.bind_eq_bind, Option.bind_some, literal_self]
  rw [scanU_decimal_cons hb isDigit_bar]
  simp [literal_self]

/-- The text of a ring is decoded back to it. -/
theorem historyDecode_historyText (hh : h.Holds es) (out : RebootHistory) :
    historyDecode (historyText h) out = (true, h) := by
  have hhead := hh.head_lt
  have hcount := hh.count_le
  unfold historyCap at hhead hcount
  have hdigit : (historyText h).head?.any isDigit = true := by
    unfold historyText
    simp only [List.append_assoc]
    exact head?_decimal _ _
  have hscan := @scanHistoryHeader_decimals h.head h.count (by omega) (by omega)
    (entriesText [] h.entries)
  have hentries := scanEntries_entriesText hh.known
  rw [h.entries_length] at hentries
  have hrange : ¬ (historyCap ≤ h.head ∨ historyCap < h.count) := by
    unfold historyCap
    omega
  have hback : historyScan (historyText h) = some h := by
    unfold historyScan
    rw [if_neg (by simp [hdigit])]
    unfold historyText
    rw [hscan]
    simp only [if_neg hrange]
    split
    · rename_i hnone
      rw [hentries] at hnone
      cases hnone
    · rename_i entries hsome
      rw [hentries] at hsome
      apply congrArg some
      apply RebootHistory.ext
      · exact (Option.some.inj hsome).symm
      · rfl
      · rfl
  unfold historyDecode
  rw [hback]

/-- Whatever the line, the output is untouched or gets a ring in range with known sources. -/
theorem historyDecode_known (str : Bytes) (out : RebootHistory) :
    historyDecode str out = (false, out) ∨
      ∃ h, historyDecode str out = (true, h) ∧ h.head < historyCap ∧ h.count ≤ historyCap ∧
        ∀ e ∈ h.entries, Known e.src := by
  unfold historyDecode
  cases hscan : historyScan str with
  | none => exact Or.inl rfl
  | some h =>
    apply Or.inr
    refine ⟨h, rfl, ?_⟩
    unfold historyScan at hscan
    split at hscan
    · cases hscan
    · split at hscan
      · cases hscan
      · split at hscan
        · cases hscan
        · rename_i hrange
          split at hscan
          · cases hscan
          · rename_i hentries
            cases hscan
            dsimp only
            have hin := not_or.mp hrange
            exact ⟨Nat.lt_of_not_le hin.1, Nat.le_of_not_lt hin.2, (scanEntries_spec hentries).2⟩

/-! ## Both codecs -/

/--
Records and rings of known sources survive the round trip through the buffers of their
callers, a ring holds the newest entries, and no other line yields anything out of range.
-/
theorem codecs_roundTrip :
    (∀ r : RebootRecord, Known r.src → ∃ text, recordEncode r recordStrMax = some text ∧
      ∀ out, recordDecode text out = (true, r.stored)) ∧
    (∀ es : List HistEntry, (∀ e ∈ es, Known e.src) →
      ∃ text, historyEncode (run historyPush .empty es) historyStrMax = some text ∧
        (∀ out, historyDecode text out = (true, run historyPush .empty es)) ∧
        (run historyPush .empty es).ordered = es.drop (es.length - historyCap)) ∧
    (∀ str out, recordDecode str out = (false, out) ∨
      ∃ r, recordDecode str out = (true, r) ∧ Known r.src) ∧
    (∀ str out, historyDecode str out = (false, out) ∨
      ∃ h, historyDecode str out = (true, h) ∧ h.head < historyCap ∧ h.count ≤ historyCap ∧
        ∀ e ∈ h.entries, Known e.src) := by
  constructor
  · intro r hsrc
    exact ⟨recordText r, recordEncode_fits hsrc, recordDecode_recordText hsrc⟩
  constructor
  · intro es hes
    have hh := holds_pushes hes
    exact ⟨_, historyEncode_fits hh, historyDecode_historyText hh, hh.ordered_eq⟩
  · exact ⟨recordDecode_known, historyDecode_known⟩

/-- A reboot for a new image, with the largest epoch. -/
def appliedEntry : HistEntry where
  src := 8
  epochS := 4294967295
  uptimeS := 60

/-- Nine reboots: the ring keeps eight. -/
theorem codecs_roundTrip_nine :
    ∃ text, historyEncode (run historyPush .empty (List.replicate 9 appliedEntry)) historyStrMax =
        some text ∧
      (∀ out, historyDecode text out =
        (true, run historyPush .empty (List.replicate 9 appliedEntry))) ∧
      (run historyPush .empty (List.replicate 9 appliedEntry)).ordered =
        (List.replicate 9 appliedEntry).drop 1 := by
  have hknown : ∀ e ∈ List.replicate 9 appliedEntry, Known e.src := by
    intro e he
    rw [List.eq_of_mem_replicate he]
    exact ⟨.otaPullApplied, rfl⟩
  exact codecs_roundTrip.2.1 _ hknown

end Reboot
end Breadboard
