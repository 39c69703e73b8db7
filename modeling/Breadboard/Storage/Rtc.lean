import Breadboard.Storage.Txn
import Mathlib.Data.List.TakeWhile

/-!
# The RTC backend

One checksummed region of RTC memory with three keys: two text fields and the
provisioned byte.  A commit builds the whole new region beside the live one and
publishes it with a single assignment.

Main results:

- Theorem `rtcTxnSet_cases`: a staged key is one of the three and fits its field.
- Theorem `rtcTxnCommit_cases`: an RTC commit applies every staged write, or
  fails and leaves the region alone.
-/

namespace Breadboard
namespace Storage

open Foundations

/-! ## The region -/

/-- A text field of the region: `cap` bytes with a terminator among them. -/
structure TextBuffer (cap : Nat) where
  bytes : Bytes
  length_eq : bytes.length = cap
  terminated : (0 : UInt8) ∈ bytes

namespace TextBuffer

variable {cap : Nat}

/-- The C string in the buffer. -/
def text (b : TextBuffer cap) : Bytes :=
  b.bytes.takeWhile (· ≠ 0)

/-- A zeroed buffer. -/
def zero (h : 0 < cap) : TextBuffer cap where
  bytes := List.replicate cap 0
  length_eq := List.length_replicate
  terminated := List.mem_replicate.mpr ⟨Nat.ne_of_gt h, rfl⟩

/--
Copy a value to the start of the buffer and terminate it.  The gate at staging
time keeps out values without room for the terminator.
-/
def write (b : TextBuffer cap) (v : Bytes) : TextBuffer cap :=
  if h : v.length < cap then
    { bytes := v ++ 0 :: b.bytes.drop (v.length + 1)
      length_eq := by
        have hlen := b.length_eq
        simp only [List.length_append, List.length_cons, List.length_drop]
        omega
      terminated := List.mem_append_right _ List.mem_cons_self }
  else b

theorem takeWhile_append_zero (v rest : Bytes) :
    (v ++ 0 :: rest).takeWhile (· ≠ 0) = v.takeWhile (· ≠ 0) := by
  induction v with
  | nil => simp
  | cons b v ih =>
    by_cases hb : b = 0
    · simp [hb]
    · simp only [ne_eq, decide_not] at ih
      simp [hb, ih]

/-- A written value reads back up to its first NUL. -/
theorem text_write (b : TextBuffer cap) {v : Bytes} (h : v.length < cap) :
    (b.write v).text = v.takeWhile (· ≠ 0) := by
  rw [write, dif_pos h, text]
  exact takeWhile_append_zero v _

end TextBuffer

/-- `bb_storage_rtc_region_t`. -/
structure Region where
  magic : UInt32
  version : UInt16
  provisioned : UInt8
  pad : UInt8
  ssid : TextBuffer 32
  pass : TextBuffer 64
  crc : UInt32

/-- `BB_STORAGE_RTC_REGION_MAGIC`. -/
def regionMagic : UInt32 := 0x42424E43

/-- `BB_STORAGE_RTC_REGION_VERSION`. -/
def regionVersion : UInt16 := 1

/-- `crc32_byte`. -/
def crc32Byte (crc : UInt32) (b : UInt8) : UInt32 :=
  (List.range 8).foldl
    (fun crc _ => (crc >>> 1) ^^^ (0xEDB88320 &&& (0 - (crc &&& 1)))) (crc ^^^ b.toUInt32)

/-- `crc32_buf`. -/
def crc32Buf (buf : Bytes) : UInt32 :=
  buf.foldl crc32Byte 0xFFFFFFFF ^^^ 0xFFFFFFFF

/-- The bytes of the region before its checksum, in memory order. -/
def Region.covered (r : Region) : Bytes :=
  [r.magic.toUInt8, (r.magic >>> 8).toUInt8, (r.magic >>> 16).toUInt8, (r.magic >>> 24).toUInt8,
    r.version.toUInt8, (r.version >>> 8).toUInt8, r.provisioned, r.pad] ++
    r.ssid.bytes ++ r.pass.bytes

/-- `bb_storage_rtc_region_crc`. -/
def regionCrc (r : Region) : UInt32 :=
  crc32Buf r.covered

/-- `bb_storage_rtc_region_valid`. -/
def regionValid (r : Region) : Bool :=
  r.magic = regionMagic && r.version = regionVersion && regionCrc r = r.crc

/-- An all-zero region. -/
def Region.zero : Region :=
  ⟨0, 0, 0, 0, .zero (Nat.succ_pos _), .zero (Nat.succ_pos _), 0⟩

/-- The stamp every publication ends with. -/
def Region.stamp (r : Region) : Region :=
  { r with
    magic := regionMagic
    version := regionVersion
    crc := regionCrc { r with magic := regionMagic, version := regionVersion } }

theorem regionValid_stamp (r : Region) : regionValid r.stamp = true := by
  simp [regionValid, Region.stamp, regionCrc, Region.covered]

/-! ## The backend -/

/-- The key `"ssid"`. -/
def ssidKey : Bytes := [115, 115, 105, 100]

/-- The key `"pass"`. -/
def passKey : Bytes := [112, 97, 115, 115]

/-- The key `"provisioned"`. -/
def provisionedKey : Bytes := [112, 114, 111, 118, 105, 115, 105, 111, 110, 101, 100]

/-- What the fields of a region say of a key, whether or not its checksum holds. -/
def Region.field (r : Region) (key : Bytes) : Option Bytes :=
  if key = ssidKey then some r.ssid.text
  else if key = passKey then some r.pass.text
  else if key = provisionedKey then some [r.provisioned]
  else none

/-- `rtc_get`, with room for any value. -/
def rtcGet (region : Region) (key : Bytes) : Option Bytes :=
  if regionValid region then region.field key else none

/-- `rtc_txn_classify`. -/
def rtcTxnClassify (key : Bytes) (len : Nat) : BbErr :=
  if key = ssidKey then (if 31 < len then .noSpace else .ok)
  else if key = passKey then (if 63 < len then .noSpace else .ok)
  else if key = provisionedKey then (if len ≠ 1 then .invalidArg else .ok)
  else .invalidArg

/-- `rtc_txn_begin`. -/
def rtcTxnBegin (txn : Txn) : BbErr × Txn :=
  (.ok, { txn with opened := true, err := .ok })

/-- `rtc_txn_set`. -/
def rtcTxnSet (valueMax : Nat) (txn : Txn) (key value : Bytes) : BbErr × Txn :=
  if txn.opened = false then (.invalidState, txn)
  else if txn.err ≠ .ok then (txn.err, txn)
  else
    let err := rtcTxnClassify key value.length
    if err ≠ .ok then (err, { txn with err := err })
    else
      let (err, txn) := slotStage valueMax txn key value
      if err ≠ .ok then (err, { txn with err := err }) else (err, txn)

/-- One staged slot applied to the region under construction. -/
def Region.apply (r : Region) : Option (Bytes × Bytes) → Region
  | none => r
  | some (key, value) =>
    if key = ssidKey then { r with ssid := r.ssid.write value }
    else if key = passKey then { r with pass := r.pass.write value }
    else if key = provisionedKey then { r with provisioned := value.headD r.provisioned }
    else r

/-- `rtc_txn_commit`. -/
def rtcTxnCommit (region : Region) (txn : Txn) : BbErr × Region × Txn :=
  if txn.opened = false then (.invalidState, region, txn)
  else if txn.err ≠ .ok then (txn.err, region, { txn with opened := false })
  else
    let base := if regionValid region then region else Region.zero
    (.ok, (txn.slots.foldl Region.apply base).stamp, { txn with opened := false })

/-- `rtc_txn_abort`. -/
def rtcTxnAbort (txn : Txn) : BbErr × Txn :=
  if txn.opened = false then (.ok, txn)
  else (.ok, { txn with slots := List.replicate txn.slots.length none, opened := false })

/-! ## What staging and commit do -/

/-- What a stored value reads back as: text fields end at the first NUL. -/
def rtcShown (key value : Bytes) : Bytes :=
  if key = provisionedKey then value else value.takeWhile (· ≠ 0)

/-- Every staged key passed the gate. -/
def Gated (slots : Slots Bytes Bytes) : Prop :=
  ∀ k v, slots.lookup k = some v → rtcTxnClassify k v.length = .ok

/-- A staged RTC write passes the gate and lands in the slots, or poisons the transaction. -/
theorem rtcTxnSet_cases (valueMax : Nat) {txn : Txn} (key value : Bytes)
    (hopened : txn.opened = true) (herr : txn.err = .ok) :
    (∃ slots, txn.slots.put key value = some slots ∧ rtcTxnClassify key value.length = .ok ∧
      rtcTxnSet valueMax txn key value = (.ok, { txn with slots := slots })) ∨
    (∃ e, e ≠ .ok ∧ rtcTxnSet valueMax txn key value = (e, { txn with err := e })) := by
  by_cases hgate : rtcTxnClassify key value.length = .ok
  · rcases stage_cases valueMax txn key value with ⟨slots, hput, hstage⟩ | ⟨e, he, hstage⟩
    · refine Or.inl ⟨slots, hput, hgate, ?_⟩
      simp [rtcTxnSet, hopened, herr, hgate, hstage]
    · refine Or.inr ⟨e, he, ?_⟩
      simp [rtcTxnSet, hopened, herr, hgate, hstage, he]
  · refine Or.inr ⟨_, hgate, ?_⟩
    simp [rtcTxnSet, hopened, herr, hgate]

theorem gated_put {slots slots' : Slots Bytes Bytes} {key value : Bytes} (h : Gated slots)
    (hput : slots.put key value = some slots') (hgate : rtcTxnClassify key value.length = .ok) :
    Gated slots' := by
  intro k v hv
  rw [Slots.lookup_put hput] at hv
  by_cases hk : key = k
  · rw [if_pos hk, Option.some.injEq] at hv
    rw [← hk, ← hv]
    exact hgate
  · rw [if_neg hk] at hv
    exact h k v hv

theorem rtcTxnClassify_eq_ok {key : Bytes} {len : Nat} (h : rtcTxnClassify key len = .ok) :
    (key = ssidKey ∧ len < 32) ∨ (key = passKey ∧ len < 64) ∨ (key = provisionedKey ∧ len = 1) := by
  rw [rtcTxnClassify] at h
  by_cases hssid : key = ssidKey
  · rw [if_pos hssid] at h
    by_cases hlen : 31 < len
    · rw [if_pos hlen] at h
      cases h
    · exact Or.inl ⟨hssid, by omega⟩
  rw [if_neg hssid] at h
  by_cases hpass : key = passKey
  · rw [if_pos hpass] at h
    by_cases hlen : 63 < len
    · rw [if_pos hlen] at h
      cases h
    · exact Or.inr (Or.inl ⟨hpass, by omega⟩)
  rw [if_neg hpass] at h
  by_cases hprov : key = provisionedKey
  · rw [if_pos hprov] at h
    by_cases hlen : len = 1
    · exact Or.inr (Or.inr ⟨hprov, hlen⟩)
    · rw [if_pos hlen] at h
      cases h
  · rw [if_neg hprov] at h
    cases h

/-- Applying one gated slot to the region. -/
theorem field_apply (r : Region) {key value : Bytes}
    (hgate : rtcTxnClassify key value.length = .ok) (k : Bytes) :
    (r.apply (some (key, value))).field k =
      if key = k then some (rtcShown k value) else r.field k := by
  have hpass_ssid : passKey ≠ ssidKey := by decide
  have hprov_ssid : provisionedKey ≠ ssidKey := by decide
  have hprov_pass : provisionedKey ≠ passKey := by decide
  rcases rtcTxnClassify_eq_ok hgate with ⟨rfl, hlen⟩ | ⟨rfl, hlen⟩ | ⟨rfl, hlen⟩
  · by_cases hk : ssidKey = k
    · subst hk
      simp [Region.apply, Region.field, rtcShown, TextBuffer.text_write _ hlen, Ne.symm hprov_ssid]
    · simp [Region.apply, Region.field, hk, Ne.symm hk]
  · by_cases hk : passKey = k
    · subst hk
      simp [Region.apply, Region.field, rtcShown, TextBuffer.text_write _ hlen, hpass_ssid,
        Ne.symm hprov_pass]
    · simp [Region.apply, Region.field, hpass_ssid, hk, Ne.symm hk]
  · obtain ⟨b, rfl⟩ := List.length_eq_one_iff.mp hlen
    by_cases hk : provisionedKey = k
    · subst hk
      simp [Region.apply, Region.field, rtcShown, hprov_ssid, hprov_pass]
    · simp [Region.apply, Region.field, hprov_ssid, hprov_pass, hk, Ne.symm hk]

theorem Gated.tail {slot : Option (Bytes × Bytes)} {slots : Slots Bytes Bytes}
    (hnodup : (Slots.keys (slot :: slots)).Nodup) (h : Gated (slot :: slots)) : Gated slots := by
  intro k v hv
  cases slot with
  | none => exact h k v hv
  | some entry =>
    obtain ⟨key, value⟩ := entry
    have hne : key ≠ k := by
      intro hk
      have hfresh : key ∉ Slots.keys slots := (List.nodup_cons.mp hnodup).1
      rw [← hk, Slots.lookup_of_notMem_keys hfresh] at hv
      cases hv
    exact h k v (by rw [Slots.lookup_cons_some, if_neg hne, hv])

/-- Applying every staged slot: the region reads as the staged keys over its old self. -/
theorem field_foldl_apply (r : Region) {slots : Slots Bytes Bytes}
    (hnodup : slots.keys.Nodup) (hgated : Gated slots) (k : Bytes) :
    (slots.foldl Region.apply r).field k =
      ((slots.lookup k).map (rtcShown k)).or (r.field k) := by
  induction slots generalizing r with
  | nil => rfl
  | cons slot slots ih =>
    have htail := hgated.tail hnodup
    cases slot with
    | none => exact ih r hnodup htail
    | some entry =>
      obtain ⟨key, value⟩ := entry
      have hcons : key ∉ Slots.keys slots ∧ (Slots.keys slots).Nodup := List.nodup_cons.mp hnodup
      have hgate : rtcTxnClassify key value.length = .ok := hgated key value (by simp)
      rw [List.foldl_cons, ih _ hcons.2 htail, field_apply r hgate, Slots.lookup_cons_some]
      by_cases hk : key = k
      · subst hk
        simp [Slots.lookup_of_notMem_keys hcons.1]
      · simp [hk]

theorem field_stamp (r : Region) (k : Bytes) : r.stamp.field k = r.field k :=
  rfl

/-- An RTC commit applies the staged writes as a whole, or changes nothing. -/
theorem rtcTxnCommit_cases {region : Region} (hvalid : regionValid region = true) {txn : Txn}
    (hnodup : txn.slots.keys.Nodup) (hgated : Gated txn.slots) :
    (txn.err = .ok ∧ ∃ region',
      rtcTxnCommit region txn = (.ok, region', { txn with opened := false }) ∧
      ∀ k, rtcGet region' k = ((txn.slots.lookup k).map (rtcShown k)).or (rtcGet region k)) ∨
    (∃ e txn', e ≠ .ok ∧ txn'.opened = false ∧ rtcTxnCommit region txn = (e, region, txn')) := by
  cases hopened : txn.opened with
  | false => exact Or.inr ⟨.invalidState, txn, nofun, hopened, by simp [rtcTxnCommit, hopened]⟩
  | true =>
    by_cases herr : txn.err = .ok
    · refine Or.inl ⟨herr, _, by simp [rtcTxnCommit, hopened, herr]; rfl, fun k => ?_⟩
      rw [rtcGet, if_pos (regionValid_stamp _), field_stamp, if_pos hvalid,
        field_foldl_apply region hnodup hgated, rtcGet, if_pos hvalid]
    · exact Or.inr ⟨txn.err, { txn with opened := false }, herr, rfl,
        by simp [rtcTxnCommit, hopened, herr]⟩

end Storage
end Breadboard
