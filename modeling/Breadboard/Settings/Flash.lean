import Breadboard.Core.Basics
import Breadboard.Foundations.CrashLogic
import Mathlib.Logic.Function.Basic

/-!
# The keys WiFi settings live under

The six flash keys of the WiFi credentials, the field descriptors of
`bb_config` that address them, and the storage operations the settings
calls are made of: a typed read, a single write, an erase and one staged
commit.  Each is one atomic durable operation, which may fail without effect
and around which power may be lost.

Main results:

- Theorem `wp_read`, `wp_write`, `wp_erase`: the operations on one key.
- Theorem `wp_staged`: a session lands whole, or fails and changes nothing.
-/

namespace Breadboard
namespace Settings

open Foundations

/-! ## Keys and fields -/

/-- The keys of namespace `bb_cfg` the WiFi settings use. -/
inductive Key where
  | wifiSsid
  | wifiPass
  | provisioned
  | wifiSsidP
  | wifiPassP
  | wifiTry
  deriving Repr, DecidableEq

/-- What `bb_config_field_t` holds of a text field: its key, its size and its default. -/
structure StrField where
  key : Key
  maxLen : Nat
  default : Option Bytes
  deriving Repr, DecidableEq

/-- `s_wifi_ssid_field`. -/
def ssidField : StrField := ⟨.wifiSsid, 32, none⟩

/-- `s_wifi_pass_field`. -/
def passField : StrField := ⟨.wifiPass, 64, none⟩

/-- `s_wifi_ssid_p_field`. -/
def ssidPField : StrField := ⟨.wifiSsidP, 32, some []⟩

/-- `s_wifi_pass_p_field`. -/
def passPField : StrField := ⟨.wifiPassP, 64, some []⟩

/-! ## The device -/

/--
The device as the settings calls see it: the flash, how many staged commits
have landed on it, and, for each time the provisioned callback ran, whether
the stored flag was set at that moment.
-/
structure Device where
  flash : Key → Option Bytes
  commits : Nat
  notices : List Bool

/-- A device straight from a factory reset. -/
def Device.erased : Device :=
  ⟨fun _ => none, 0, []⟩

/-- An error of the storage backend itself: neither success nor an absent key. -/
abbrev IoError : Type :=
  {e : BbErr // e ≠ .ok ∧ e ≠ .notFound}

/-- A call of the settings component. -/
abbrev StorageCall : Type → Type :=
  Call IoError Device

/-! ## Reads -/

/-- `bb_storage_get_typed`: the stored bytes, or `BB_ERR_NOT_FOUND`. -/
def readKey (k : Key) : StorageCall (Except BbErr Bytes) := do
  match ← attempt fun d => (d.flash k, d) with
  | .error e => return .error e.val
  | .ok none => return .error .notFound
  | .ok (some v) => return .ok v

/-- A buffer of `cap` bytes read as a C string after a terminated, truncating copy. -/
def cString (v : Bytes) (cap : Nat) : Bytes :=
  (v.take (cap - 1)).takeWhile (· ≠ 0)

/-- `bb_config_get_str`: the text in the buffer and the full length. -/
def getStr (f : StrField) (cap : Nat) : StorageCall (Except BbErr (Bytes × Nat)) := do
  match ← readKey f.key with
  | .ok v => return .ok (cString v cap, v.length)
  | .error .notFound =>
    match f.default with
    | none => return .error .notFound
    | some d =>
      if f.maxLen ≤ d.length then
        return .error .invalidArg
      return .ok (cString d cap, d.length)
  | .error e => return .error e

/-- `bb_config_get_u8` and `bb_config_get_bool` of a field without a default: one byte. -/
def getByte (k : Key) : StorageCall (Except BbErr UInt8) := do
  match ← readKey k with
  | .error e => return .error e
  | .ok [b] => return .ok b
  | .ok _ => return .error .invalidState

/-! ## Writes -/

/-- The status a write or a commit reports. -/
def status : Except IoError Unit → BbErr
  | .ok _ => .ok
  | .error e => e.val

@[simp] theorem status_ok : status (.ok ()) = .ok :=
  rfl

@[simp] theorem status_error (e : IoError) : status (.error e) ≠ .ok :=
  e.property.1

/-- The device with one key stored or erased. -/
def Device.store (d : Device) (k : Key) (v : Option Bytes) : Device :=
  { d with flash := Function.update d.flash k v }

/-- `bb_config_set_u8` and `bb_config_set_bool`. -/
def setByte (k : Key) (b : UInt8) : StorageCall BbErr := do
  let result ← attempt fun d => ((), d.store k (some [b]))
  return status result

/-- `bb_storage_erase`. -/
def erase (k : Key) : StorageCall BbErr := do
  let result ← attempt fun d => ((), d.store k none)
  return status result

/-! ## Staged sessions -/

/-- One call of the `bb_config_staged_set_*` family. -/
inductive Entry where
  | str (f : StrField) (v : Bytes)
  | byte (k : Key) (b : UInt8)
  deriving Repr, DecidableEq

/-- `bb_config_staged_set_str` refuses a text its field has no room for. -/
def Entry.fits : Entry → Bool
  | .str f v => v.length < f.maxLen
  | .byte _ _ => true

/-- The key an entry writes. -/
def Entry.key : Entry → Key
  | .str f _ => f.key
  | .byte k _ => k

/-- The bytes an entry writes. -/
def Entry.value : Entry → Bytes
  | .str _ v => v
  | .byte _ b => [b]

/-- The device after a staged commit landed. -/
def Device.commit (d : Device) (entries : List Entry) : Device where
  flash := entries.foldl (fun flash e => Function.update flash e.key (some e.value)) d.flash
  commits := d.commits + 1
  notices := d.notices

/--
One `bb_config_staged` session: begin, the staged sets, one atomic commit.
An entry that does not fit poisons the session, whose commit then aborts.
-/
def staged (entries : List Entry) : StorageCall BbErr := do
  match ← attempt fun d => ((), d) with
  | .error e => return e.val
  | .ok _ =>
    if entries.all Entry.fits then
      let result ← attempt fun d => ((), d.commit entries)
      return status result
    else
      return .invalidArg

/-! ## What the operations do -/

section Rules

variable {m : Medium IoError Device} {C : Device → Prop}

/-- A read answers with what is stored or with a backend error, and changes nothing. -/
theorem wp_readKey {k : Key} {Q : Except BbErr Bytes → Medium IoError Device → Prop}
    (hstored : ∀ v, m.state.flash k = some v → m.fates.headD .done = .done →
      Q (.ok v) ⟨m.state, m.fates.tail⟩)
    (habsent : m.state.flash k = none → m.fates.headD .done = .done →
      Q (.error .notFound) ⟨m.state, m.fates.tail⟩)
    (hfailed : ∀ e : IoError, m.fates.headD .done = .failed e →
      Q (.error e.val) ⟨m.state, m.fates.tail⟩)
    (hlost : C m.state) : wp (readKey k) m Q C := by
  rw [readKey, wp_bind]
  apply wp_attempt
  · intro hfate
    cases hv : m.state.flash k with
    | none => exact habsent hv hfate
    | some v => exact hstored v hv hfate
  · intro e hfate
    exact hfailed e hfate
  · intro _
    exact hlost
  · intro _
    exact hlost

/-- A one-byte read answers with the stored byte, or not at all. -/
theorem wp_getByte {k : Key} {Q : Except BbErr UInt8 → Medium IoError Device → Prop}
    (hstored : ∀ b, m.state.flash k = some [b] → m.fates.headD .done = .done →
      Q (.ok b) ⟨m.state, m.fates.tail⟩)
    (hother : ∀ e, (∀ b, m.state.flash k = some [b] → ∃ e', m.fates.headD .done = .failed e') →
      Q (.error e) ⟨m.state, m.fates.tail⟩)
    (hlost : C m.state) : wp (getByte k) m Q C := by
  rw [getByte, wp_bind]
  apply wp_readKey
  · intro v hv hfate
    match v, hv with
    | [b], hv => exact hstored b hv hfate
    | [], hv => exact hother _ fun b hb => by simp [hv] at hb
    | a :: b :: rest, hv => exact hother _ fun b hb => by simp [hv] at hb
  · intro hv _
    exact hother _ fun b hb => by simp [hv] at hb
  · intro e hfate
    exact hother _ fun b _ => ⟨e, hfate⟩
  · exact hlost

/-- A single write lands or fails without effect. -/
theorem wp_setByte {k : Key} {b : UInt8} {Q : BbErr → Medium IoError Device → Prop}
    (hdone : Q .ok ⟨m.state.store k (some [b]), m.fates.tail⟩)
    (hfailed : ∀ e : IoError, Q e.val ⟨m.state, m.fates.tail⟩)
    (hlost : C m.state) (hlanded : C (m.state.store k (some [b]))) :
    wp (setByte k b) m Q C := by
  rw [setByte, wp_bind]
  apply wp_attempt
  · intro _
    exact hdone
  · intro e _
    exact hfailed e
  · intro _
    exact hlost
  · intro _
    exact hlanded

/-- An erase lands or fails without effect. -/
theorem wp_erase {k : Key} {Q : BbErr → Medium IoError Device → Prop}
    (hdone : Q .ok ⟨m.state.store k none, m.fates.tail⟩)
    (hfailed : ∀ e : IoError, Q e.val ⟨m.state, m.fates.tail⟩)
    (hlost : C m.state) (hlanded : C (m.state.store k none)) :
    wp (erase k) m Q C := by
  rw [erase, wp_bind]
  apply wp_attempt
  · intro _
    exact hdone
  · intro e _
    exact hfailed e
  · intro _
    exact hlost
  · intro _
    exact hlanded

/-- A session whose entries fit commits all of them at once, or changes nothing. -/
theorem wp_staged {entries : List Entry} {Q : BbErr → Medium IoError Device → Prop}
    (hfits : entries.all Entry.fits = true)
    (hdone : m.fates.headD .done = .done → m.fates.tail.headD .done = .done →
      Q .ok ⟨m.state.commit entries, m.fates.tail.tail⟩)
    (hfailed : ∀ (e : IoError) fates, Q e.val ⟨m.state, fates⟩)
    (hlost : C m.state)
    (hlanded : m.fates.headD .done = .done → m.fates.tail.headD .done = .lostAfter →
      C (m.state.commit entries)) :
    wp (staged entries) m Q C := by
  rw [staged, wp_bind]
  apply wp_attempt
  · intro hbegin
    simp only [hfits, if_true, wp_bind]
    apply wp_attempt
    · intro hcommit
      exact hdone hbegin hcommit
    · intro e _
      exact hfailed e _
    · intro _
      exact hlost
    · intro hcommit
      exact hlanded hbegin hcommit
  · intro e _
    exact hfailed e _
  · intro _
    exact hlost
  · intro _
    exact hlost

end Rules

end Settings
end Breadboard
