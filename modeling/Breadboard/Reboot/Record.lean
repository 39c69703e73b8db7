import Breadboard.Reboot.Codec

/-!
# bb_reboot_reason - the reboot record

Why and when the device last rebooted, persisted as one delimited line
`src|epoch|uptime|detail`.  The detail is free text and stands last; it is
cut at the first delimiter, so that the line reads back unambiguously.

Main results:

- Theorem `recordDecode_recordText`: what the encoder wrote is decoded back.
- Theorem `recordDecode_known`: a decoded record has a known source.
-/

namespace Breadboard
namespace Reboot

open Foundations.Decimal

/-! ## Sources -/

/-- `bb_reset_source_t`, in the order of the stored ordinals. -/
inductive ResetSource where
  | unknown
  | apiReboot
  | factoryReset
  | wifiSafeguard
  | wifiColdTimeout
  | wifiPendingRevert
  | wifiReconfigure
  | egressTier3
  | otaPullApplied
  | otaPushApplied
  | otaBootApply
  | otaBootDone
  | otaBootAbort
  | wifiProvisioned
  deriving Repr, DecidableEq

/-- `BB_RESET_SRC__COUNT`. -/
def resetSrcCount : Nat := 14

/-- The stored byte of a source. -/
def ResetSource.code (src : ResetSource) : UInt8 :=
  UInt8.ofNat src.ctorIdx

/-- The sources in order. -/
def ResetSource.all : List ResetSource :=
  [unknown, apiReboot, factoryReset, wifiSafeguard, wifiColdTimeout, wifiPendingRevert,
    wifiReconfigure, egressTier3, otaPullApplied, otaPushApplied, otaBootApply, otaBootDone,
    otaBootAbort, wifiProvisioned]

theorem codes_all :
    ResetSource.all.map ResetSource.code = (List.range resetSrcCount).map UInt8.ofNat := by
  rfl

/-- A byte that stands for a source. -/
def Known (src : UInt8) : Prop :=
  ∃ s : ResetSource, s.code = src

/-- The test of the decoders against `BB_RESET_SRC__COUNT` is exact. -/
theorem known_iff (src : UInt8) : Known src ↔ src.toNat < resetSrcCount := by
  constructor
  · intro h
    rcases h with ⟨s, rfl⟩
    cases s <;> decide
  · intro h
    have hmem : src ∈ ResetSource.all.map ResetSource.code := by
      rw [codes_all]
      exact List.mem_map.mpr ⟨src.toNat, List.mem_range.mpr h, UInt8.ofNat_toNat⟩
    rcases List.mem_map.mp hmem with ⟨s, _, hs⟩
    exact ⟨s, hs⟩

/-- A number below the count keeps its value in a byte. -/
theorem known_toUInt8 {src : Nat} (h : src < resetSrcCount) : Known src.toUInt8 := by
  have hbyte : src.toUInt8.toNat = src := by
    unfold resetSrcCount at h
    simp only [Nat.toUInt8_eq, UInt8.toNat_ofNat']
    omega
  rw [known_iff, hbyte]
  exact h

/-! ## The record -/

/-- The size of `detail`. -/
def detailMax : Nat := 49

/-- `bb_reboot_record_t`; the detail may lack its terminator. -/
@[ext] structure RebootRecord where
  src : UInt8
  detail : Bytes
  epochS : UInt32
  uptimeS : UInt32
  detail_length : detail.length = detailMax

/-- `BB_REBOOT_RECORD_STR_MAX`. -/
def recordStrMax : Nat := 96

/-- `strnlen`. -/
def strnlen (s : Bytes) : Nat :=
  (s.takeWhile (· ≠ 0)).length

/-- The detail that is written: up to the first bar, and short of the terminator. -/
def safeDetail (detail : Bytes) : Bytes :=
  let dlen := strnlen detail
  let dlen := ((detail.take dlen).findIdx? (· = bar)).getD dlen
  let dlen := if detailMax ≤ dlen then detailMax - 1 else dlen
  detail.take dlen

/-- The text of a record. -/
def recordText (r : RebootRecord) : Bytes :=
  decimal r.src.toNat ++ bar :: decimal r.epochS.toNat ++ bar :: decimal r.uptimeS.toNat ++
    bar :: safeDetail r.detail

/--
`bb_reboot_record_encode`: the written string, or none where `snprintf` would have
truncated it.
-/
def recordEncode (r : RebootRecord) (bufLen : Nat) : Option Bytes :=
  if bufLen = 0 then none
  else if bufLen ≤ (recordText r).length then none
  else some (recordText r)

/-- A text in a `detail` array of zeroes. -/
def storeDetail (s : Bytes) : Bytes :=
  s.take (detailMax - 1) ++ List.replicate (detailMax - (s.take (detailMax - 1)).length) 0

theorem length_storeDetail (s : Bytes) : (storeDetail s).length = detailMax := by
  unfold storeDetail
  rw [List.length_append, List.length_replicate, List.length_take]
  omega

/-- The record that `bb_reboot_record_decode` builds, or none where it gives up. -/
def recordScan (str : Bytes) : Option RebootRecord :=
  if ¬ str.head?.any isDigit then none
  else
    match scanHeader str with
    | none => none
    | some (src, epoch, uptime, rest) =>
      if resetSrcCount ≤ src then none
      else
        some
          { src := src.toUInt8
            detail := storeDetail rest
            epochS := epoch.toUInt32
            uptimeS := uptime.toUInt32
            detail_length := length_storeDetail rest }

/-- `bb_reboot_record_decode`: its answer and `*out` after it. -/
def recordDecode (str : Bytes) (out : RebootRecord) : Bool × RebootRecord :=
  match recordScan str with
  | none => (false, out)
  | some decoded => (true, decoded)

/-! ## Round trip -/

/-- The detail as a reader sees it: up to its terminator, its first bar and 48 bytes. -/
def cutDetail (detail : Bytes) : Bytes :=
  ((detail.takeWhile (· ≠ 0)).takeWhile (· ≠ bar)).take (detailMax - 1)

theorem take_findIdx? (p : UInt8 → Bool) (s : Bytes) :
    s.take ((s.findIdx? p).getD s.length) = s.takeWhile fun b => !p b := by
  induction s with
  | nil => rfl
  | cons b s ih =>
    cases hb : p b with
    | true => simp [List.findIdx?_cons, hb]
    | false =>
      cases hfind : s.findIdx? p with
      | none =>
        rw [hfind] at ih
        simp [List.findIdx?_cons, hb, hfind, ← ih]
      | some i =>
        rw [hfind] at ih
        simp [List.findIdx?_cons, hb, hfind, ← ih]

theorem take_strnlen (s : Bytes) : s.take (strnlen s) = s.takeWhile (· ≠ 0) := by
  unfold strnlen
  exact (List.prefix_iff_eq_take.mp (List.takeWhile_prefix _)).symm

theorem findIdx?_getD_le (p : UInt8 → Bool) (s : Bytes) :
    (s.findIdx? p).getD s.length ≤ s.length := by
  cases hfind : s.findIdx? p with
  | none => exact Nat.le_refl _
  | some i => exact Nat.le_of_lt (List.findIdx?_eq_some_iff_findIdx_eq.mp hfind).1

/-- The bounded scans of the encoder cut the detail where its reader would. -/
theorem safeDetail_eq {detail : Bytes} (hlen : detail.length = detailMax) :
    safeDetail detail = cutDetail detail := by
  have htext := take_strnlen detail
  have hstr : strnlen detail = (detail.takeWhile (· ≠ 0)).length := rfl
  have hwhole : (detail.takeWhile (· ≠ 0)).length ≤ detailMax :=
    hlen ▸ (List.takeWhile_prefix _).length_le
  have hcut := take_findIdx? (· = bar) (detail.takeWhile (· ≠ 0))
  have hle := findIdx?_getD_le (· = bar) (detail.takeWhile (· ≠ 0))
  unfold safeDetail cutDetail
  dsimp only
  rw [htext, hstr]
  generalize hdlen : ((detail.takeWhile (· ≠ 0)).findIdx? (· = bar)).getD
    (detail.takeWhile (· ≠ 0)).length = dlen at hcut hle ⊢
  have hmin : (if detailMax ≤ dlen then detailMax - 1 else dlen) = min (detailMax - 1) dlen := by
    split <;> omega
  have hinside : min (detailMax - 1) dlen ≤ strnlen detail :=
    Nat.le_trans (Nat.min_le_right _ _) hle
  have hprefix : detail.take (min (detailMax - 1) dlen) =
      (detail.takeWhile (· ≠ 0)).take (min (detailMax - 1) dlen) := by
    rw [← htext, List.take_take, Nat.min_eq_left hinside]
  have hbar : ((detail.takeWhile (· ≠ 0)).takeWhile fun b => !decide (b = bar)) =
      (detail.takeWhile (· ≠ 0)).takeWhile (· ≠ bar) := by
    simp
  rw [hmin, hprefix, ← List.take_take, hcut, hbar]

theorem length_cutDetail_le (detail : Bytes) : (cutDetail detail).length ≤ detailMax - 1 := by
  unfold cutDetail
  rw [List.length_take]
  exact Nat.min_le_left _ _

/-- The buffer of the callers holds the text of every record with a known source. -/
theorem length_recordText_lt {r : RebootRecord} (hsrc : Known r.src) :
    (recordText r).length < recordStrMax := by
  have hcode := (known_iff r.src).mp hsrc
  have hsrcLen : (decimal r.src.toNat).length ≤ 2 := by
    apply length_decimal_le
    unfold resetSrcCount at hcode
    omega
  have hepoch := length_decimal_uint32 r.epochS
  have huptime := length_decimal_uint32 r.uptimeS
  have hdetail := length_cutDetail_le r.detail
  unfold recordText
  rw [safeDetail_eq r.detail_length]
  unfold detailMax at hdetail
  simp only [List.length_append, List.length_cons, recordStrMax]
  omega

theorem recordEncode_fits {r : RebootRecord} (hsrc : Known r.src) :
    recordEncode r recordStrMax = some (recordText r) := by
  have hfit := length_recordText_lt hsrc
  unfold recordEncode
  rw [if_neg (by decide), if_neg (by omega)]

/-- Three numbers, each before its bar, are a header. -/
theorem scanHeader_decimals {a b c : Nat} (ha : a < 2 ^ 32) (hb : b < 2 ^ 32) (hc : c < 2 ^ 32)
    (rest : Bytes) :
    scanHeader (decimal a ++ bar :: decimal b ++ bar :: decimal c ++ bar :: rest) =
      some (a, b, c, rest) := by
  simp only [List.append_assoc, List.cons_append]
  unfold scanHeader
  rw [scanU_decimal_cons ha isDigit_bar]
  simp only [Option.bind_eq_bind, Option.bind_some, literal_self]
  rw [scanU_decimal_cons hb isDigit_bar]
  simp only [Option.bind_some, literal_self]
  rw [scanU_decimal_cons hc isDigit_bar]
  simp [literal_self]

/-- A line that starts with a number starts with a digit. -/
theorem head?_decimal (n : Nat) (rest : Bytes) :
    (decimal n ++ rest).head?.any isDigit = true := by
  cases hdec : decimal n with
  | nil => exact absurd hdec (decimal_ne_nil n)
  | cons d ds =>
    apply isDigit_of_mem_decimal (n := n)
    rw [hdec]
    exact List.mem_cons_self

/-- The record that comes back: the detail is cut and padded with zeroes. -/
def RebootRecord.stored (r : RebootRecord) : RebootRecord where
  src := r.src
  detail := storeDetail (cutDetail r.detail)
  epochS := r.epochS
  uptimeS := r.uptimeS
  detail_length := length_storeDetail _

theorem recordScan_recordText {r : RebootRecord} (hsrc : Known r.src) :
    recordScan (recordText r) = some r.stored := by
  have hcode := (known_iff r.src).mp hsrc
  have hsrcLt : r.src.toNat < 2 ^ 32 := Nat.lt_trans r.src.toNat_lt (by decide)
  have hhead : (recordText r).head?.any isDigit = true := by
    unfold recordText
    simp only [List.append_assoc]
    exact head?_decimal _ _
  have hscan := scanHeader_decimals hsrcLt r.epochS.toNat_lt r.uptimeS.toNat_lt
    (safeDetail r.detail)
  have hrange : ¬ resetSrcCount ≤ r.src.toNat := Nat.not_le.mpr hcode
  unfold recordScan
  rw [if_neg (by simp [hhead])]
  unfold recordText
  rw [hscan]
  simp only [if_neg hrange]
  apply congrArg some
  apply RebootRecord.ext
  · simp [RebootRecord.stored]
  · simp [RebootRecord.stored, safeDetail_eq r.detail_length]
  · simp [RebootRecord.stored]
  · simp [RebootRecord.stored]

/-- The text of a record with a known source is decoded back to it, with the detail cut. -/
theorem recordDecode_recordText {r : RebootRecord} (hsrc : Known r.src) (out : RebootRecord) :
    recordDecode (recordText r) out = (true, r.stored) := by
  unfold recordDecode
  rw [recordScan_recordText hsrc]

/-- Whatever the line, the output is untouched or gets a known source. -/
theorem recordDecode_known (str : Bytes) (out : RebootRecord) :
    recordDecode str out = (false, out) ∨
      ∃ r, recordDecode str out = (true, r) ∧ Known r.src := by
  unfold recordDecode
  cases hscan : recordScan str with
  | none => exact Or.inl rfl
  | some r =>
    apply Or.inr
    refine ⟨r, rfl, ?_⟩
    unfold recordScan at hscan
    split at hscan
    · cases hscan
    · split at hscan
      · cases hscan
      · rename_i src epoch uptime rest _
        split at hscan
        · cases hscan
        · rename_i hrange
          cases hscan
          exact known_toUInt8 (Nat.lt_of_not_le hrange)

end Reboot
end Breadboard
