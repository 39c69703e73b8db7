import Breadboard.Settings.Flash
import Breadboard.Foundations.Runs

/-!
# The WiFi credential calls

`bb_settings_wifi_set`, `bb_settings_wifi_pending_set`,
`bb_settings_wifi_pending_active`, `bb_settings_wifi_pending_promote`,
`bb_settings_wifi_pending_clear` and
`bb_settings_wifi_provisioned_mark_connected`, as sequences of storage
operations, and what each of them can leave on the flash, returned or cut short.

Main results:

- Theorem `wp_wifiSet`, `wp_wifiPendingSet`, `wp_wifiPendingClear`,
  `wp_wifiProvisionedMarkConnected`: everything the call can do.
- Theorem `wp_wifiPendingPromote`: a promote changes nothing, or installs the
  stored pending text.
-/

namespace Breadboard
namespace Settings

open Foundations

/-! ## The calls -/

/-- `bb_settings_wifi_provisioned_get`: false on any error. -/
def wifiProvisionedGet : StorageCall Bool := do
  match ← getByte .provisioned with
  | .ok b => return b ≠ 0
  | .error _ => return false

/-- Whether the stored provisioned flag is set. -/
def Device.provisioned (d : Device) : Bool :=
  match d.flash .provisioned with
  | some [b] => b ≠ 0
  | _ => false

/-- The registered callback runs; what it finds durable is noted. -/
def Device.notify (d : Device) : Device :=
  { d with notices := d.notices ++ [d.provisioned] }

/-- `bb_settings_provisioned_notify_transition`. -/
def provisionedNotifyTransition (wasProvisioned : Bool) : StorageCall Unit :=
  if wasProvisioned then return () else effect Device.notify

/-- `bb_settings_wifi_provisioned_mark_connected`. -/
def wifiProvisionedMarkConnected : StorageCall Unit := do
  let wasProvisioned ← wifiProvisionedGet
  if wasProvisioned then
    return ()
  if (← setByte .provisioned 1) = .ok then
    provisionedNotifyTransition wasProvisioned

/--
`bb_settings_wifi_rtc_mirror_write`: a best-effort session on the RTC
region, which none of these calls reads.
-/
def wifiRtcMirrorWrite : StorageCall Unit := do
  match ← attempt fun d => ((), d) with
  | .error _ => return ()
  | .ok _ =>
    let _ ← attempt fun d => ((), d)
    return ()

/-- `bb_settings_wifi_set`. -/
def wifiSet (ssid pass : Bytes) : StorageCall BbErr := do
  let err ← staged [.str ssidField ssid, .str passField pass]
  if err ≠ .ok then
    return err
  wifiRtcMirrorWrite
  return .ok

/-- `bb_settings_wifi_pending_set`. -/
def wifiPendingSet (ssid pass : Bytes) : StorageCall BbErr :=
  staged [.str ssidPField ssid, .str passPField pass, .byte .wifiTry 1]

/-- `bb_settings_wifi_pending_active`. -/
def wifiPendingActive : StorageCall Bool := do
  let tryFlag ← getByte .wifiTry
  match ← getStr ssidPField 32 with
  | .error _ => return false
  | .ok (ssid, ssidLen) =>
    match tryFlag with
    | .error _ => return false
    | .ok b => return b ≠ 0 && 0 < ssidLen && ssid ≠ []

/-- `bb_settings_wifi_pending_promote`. -/
def wifiPendingPromote : StorageCall BbErr := do
  match ← getStr ssidPField 32 with
  | .error _ => return .invalidState
  | .ok (ssid, ssidLen) =>
    if ssidLen = 0 then
      return .invalidState
    match ← getStr passPField 64 with
    | .error perr => return perr
    | .ok (pass, _) =>
      let wasProvisioned ← wifiProvisionedGet
      let err ← staged [.str ssidField ssid, .str passField pass, .byte .wifiTry 0,
        .byte .provisioned 1]
      if err ≠ .ok then
        return err
      provisionedNotifyTransition wasProvisioned
      wifiRtcMirrorWrite
      let _ ← erase ssidPField.key
      let _ ← erase passPField.key
      return .ok

/-- `bb_settings_wifi_pending_clear`. -/
def wifiPendingClear : StorageCall BbErr := do
  let err ← setByte .wifiTry 0
  let _ ← erase ssidPField.key
  let _ ← erase passPField.key
  return err

/-! ## Credentials and runs of calls -/

/--
An SSID of 1 to 31 characters and a password of at most 63, the pairs
`bb_wifi_pending_validate` accepts.
-/
structure Creds where
  ssid : Bytes
  pass : Bytes
  ssid_pos : 0 < ssid.length
  ssid_le : ssid.length ≤ 31
  pass_le : pass.length ≤ 63
  ssid_text : ∀ b ∈ ssid, b ≠ 0
  pass_text : ∀ b ∈ pass, b ≠ 0

/-- The calls the credentials go through. -/
inductive WifiCall where
  | wifiSet (c : Creds)
  | pendingSet (c : Creds)
  | pendingPromote
  | pendingClear
  | markConnected

/-- One call and the fates of its storage operations, in order. -/
structure Event where
  call : WifiCall
  fates : List (Fate IoError)

/-- The call itself; a call without a result reports `BB_OK`. -/
def WifiCall.exec : WifiCall → StorageCall BbErr
  | .wifiSet c => Settings.wifiSet c.ssid c.pass
  | .pendingSet c => wifiPendingSet c.ssid c.pass
  | .pendingPromote => wifiPendingPromote
  | .pendingClear => wifiPendingClear
  | .markConnected => do
    wifiProvisionedMarkConnected
    return .ok

/-- What the event's call answers, nothing when power was lost, and the device it leaves. -/
def Event.outcome (e : Event) (d : Device) : Option BbErr × Device :=
  let result := e.call.exec ⟨d, e.fates⟩
  (result.1, result.2.state)

/--
The device, with what its callers know: every pair handed to a call so far, and
the pair of the latest `pending_set` that landed, as long as it was neither
promoted nor discarded by a `pending_clear` that returned `BB_OK`.
-/
structure World where
  device : Device
  given : List Creds
  waiting : Option Creds

/-- A device straight from a factory reset. -/
def World.init : World :=
  ⟨Device.erased, [], none⟩

/-- The pairs a call is given. -/
def WifiCall.gives : WifiCall → List Creds
  | .wifiSet c => [c]
  | .pendingSet c => [c]
  | .pendingPromote => []
  | .pendingClear => []
  | .markConnected => []

/-- The pair that waits to be promoted, after a call with this answer. -/
def World.waitingAfter (w : World) (call : WifiCall) (answer : Option BbErr) (device : Device) :
    Option Creds :=
  let landed := device.commits ≠ w.device.commits
  match call with
  | .pendingSet c => if landed then some c else w.waiting
  | .pendingPromote => if landed then none else w.waiting
  | .pendingClear => if answer = some .ok then none else w.waiting
  | .wifiSet _ => w.waiting
  | .markConnected => w.waiting

/-- The world after a call with this answer. -/
def World.after (w : World) (call : WifiCall) (answer : Option BbErr) (device : Device) : World :=
  ⟨device, w.given ++ call.gives, w.waitingAfter call answer device⟩

/-- One call, with power back on afterwards if it was lost. -/
def World.step (w : World) (e : Event) : World :=
  w.after e.call (e.outcome w.device).1 (e.outcome w.device).2

/-! ## What a call can do -/

/-- The staged entries of a promote. -/
def promoteEntries (ssid pass : Bytes) : List Entry :=
  [.str ssidField ssid, .str passField pass, .byte .wifiTry 0, .byte .provisioned 1]

/-- The pending text a promote reads: an absent password reads as the empty default. -/
def PendingText (d : Device) (ssid pass : Bytes) : Prop :=
  ∃ v, d.flash .wifiSsidP = some v ∧ v ≠ [] ∧ ssid = cString v 32 ∧
    pass = cString ((d.flash .wifiPassP).getD []) 64

/-- The best-effort erases: each pending key is kept or gone, nothing else changes. -/
structure Swept (d d' : Device) : Prop where
  ssidP : d'.flash .wifiSsidP = d.flash .wifiSsidP ∨ d'.flash .wifiSsidP = none
  passP : d'.flash .wifiPassP = d.flash .wifiPassP ∨ d'.flash .wifiPassP = none
  others : ∀ k, k ≠ .wifiSsidP → k ≠ .wifiPassP → d'.flash k = d.flash k
  commits : d'.commits = d.commits
  notices : d'.notices = d.notices

theorem Swept.refl (d : Device) : Swept d d :=
  ⟨Or.inl rfl, Or.inl rfl, fun _ _ _ => rfl, rfl, rfl⟩

theorem Swept.eraseSsid (d : Device) : Swept d (d.store .wifiSsidP none) :=
  ⟨Or.inr rfl, Or.inl rfl, fun k hk _ => by simp [Device.store, hk], rfl, rfl⟩

theorem Swept.erasePass {d d' : Device} (h : Swept d d') :
    Swept d (d'.store .wifiPassP none) :=
  ⟨h.ssidP, Or.inr rfl, fun k hk hk' => by simp [Device.store, hk', h.others k hk hk'],
    h.commits, h.notices⟩

/-- The fates under which a promote with a pending SSID reaches flash with its commit. -/
def PromoteLands (fates : List (Fate IoError)) : Prop :=
  fates.getD 0 .done = .done ∧ fates.getD 1 .done = .done ∧ fates.getD 3 .done = .done ∧
    (fates.getD 4 .done = .done ∨ fates.getD 4 .done = .lostAfter)

/-- The flag read failed, so a set flag was taken for unset. -/
def FlagMissed (d : Device) (fate : Fate IoError) : Prop :=
  d.provisioned = true → ∃ e, fate = .failed e

/-- Everything one call can leave behind, returned or cut short by power loss. -/
inductive Effect (d : Device) (fates : List (Fate IoError)) :
    WifiCall → Option BbErr → Device → Prop where
  | nothing {call : WifiCall} {answer : Option BbErr}
      (h : answer = some .ok → call = .markConnected) : Effect d fates call answer d
  | set (c : Creds) (answer : Option BbErr) :
      Effect d fates (.wifiSet c) answer
        (d.commit [.str ssidField c.ssid, .str passField c.pass])
  | pendingSet (c : Creds) (answer : Option BbErr) :
      Effect d fates (.pendingSet c) answer
        (d.commit [.str ssidPField c.ssid, .str passPField c.pass, .byte .wifiTry 1])
  | promoted {ssid pass : Bytes} {answer : Option BbErr} {d' : Device}
      (hanswer : ∀ err, answer = some err → err = .ok)
      (htext : PendingText d ssid pass) (hlands : PromoteLands fates)
      (h : Swept (d.commit (promoteEntries ssid pass)) d') :
      Effect d fates .pendingPromote answer d'
  | promotedNotified {ssid pass : Bytes} {answer : Option BbErr} {d' : Device}
      (hanswer : ∀ err, answer = some err → err = .ok)
      (htext : PendingText d ssid pass) (hlands : PromoteLands fates)
      (hcommit : fates.getD 4 .done = .done) (hmissed : FlagMissed d (fates.getD 2 .done))
      (h : Swept (d.commit (promoteEntries ssid pass)).notify d') :
      Effect d fates .pendingPromote answer d'
  | cleared (answer : Option BbErr) {d' : Device}
      (h : Swept (d.store .wifiTry (some [0])) d') : Effect d fates .pendingClear answer d'
  | notCleared {answer : Option BbErr} {d' : Device} (hanswer : answer ≠ some .ok)
      (h : Swept d d') : Effect d fates .pendingClear answer d'
  | marked (answer : Option BbErr) :
      Effect d fates .markConnected answer (d.store .provisioned (some [1]))
  | markedNotified (answer : Option BbErr) (hwrite : fates.getD 1 .done = .done)
      (hmissed : FlagMissed d (fates.getD 0 .done)) :
      Effect d fates .markConnected answer (d.store .provisioned (some [1])).notify

section Rules

variable {m : Medium IoError Device} {C : Device → Prop}

theorem getD_tail {α : Type} (l : List α) (a : α) (n : Nat) :
    l.tail.getD n a = l.getD (n + 1) a := by
  cases l with
  | nil => rfl
  | cons b l => rfl

theorem length_cString_lt {v : Bytes} {cap : Nat} (h : 0 < cap) : (cString v cap).length < cap := by
  have htext := (List.takeWhile_sublist (l := v.take (cap - 1)) (· ≠ 0)).length_le
  have htake := List.length_take_le (cap - 1) v
  rw [cString]
  omega

/-- A text field whose default is empty reads as its text, an absent one as the empty text. -/
theorem wp_getStr {f : StrField} {cap : Nat}
    {Q : Except BbErr (Bytes × Nat) → Medium IoError Device → Prop}
    (hdefault : f.default = some []) (hmax : f.maxLen ≠ 0)
    (hread : m.fates.headD .done = .done → Q (.ok (cString ((m.state.flash f.key).getD []) cap,
      ((m.state.flash f.key).getD []).length)) ⟨m.state, m.fates.tail⟩)
    (hfailed : ∀ e, e ≠ .ok → Q (.error e) ⟨m.state, m.fates.tail⟩) (hlost : C m.state) :
    wp (getStr f cap) m Q C := by
  rw [getStr, wp_bind]
  apply wp_readKey
  · intro v hv hfate
    simpa [hv] using hread hfate
  · intro hv hfate
    simpa [hv, hdefault, hmax] using hread hfate
  · intro e _
    obtain ⟨e, hok, hne⟩ := e
    cases e with
    | notFound => exact absurd rfl hne
    | _ => exact hfailed _ hok
  · exact hlost

/-- The flag reads as set only when it is; a set flag reads as unset only on a failed read. -/
theorem wp_wifiProvisionedGet {Q : Bool → Medium IoError Device → Prop}
    (hset : m.state.provisioned = true → Q true ⟨m.state, m.fates.tail⟩)
    (hunset : FlagMissed m.state (m.fates.headD .done) → Q false ⟨m.state, m.fates.tail⟩)
    (hlost : C m.state) : wp wifiProvisionedGet m Q C := by
  rw [wifiProvisionedGet, wp_bind]
  apply wp_getByte
  · intro b hb _
    have hflag : m.state.provisioned = decide (b ≠ 0) := by simp [Device.provisioned, hb]
    rw [wp_pure]
    cases hvalue : decide (b ≠ 0) with
    | true => exact hset (hflag.trans hvalue)
    | false =>
      apply hunset
      intro hp
      rw [hflag, hvalue] at hp
      cases hp
  · intro e hfate
    apply hunset
    intro hp
    rw [Device.provisioned] at hp
    split at hp
    · rename_i b hb
      exact hfate b hb
    · cases hp
  · exact hlost

theorem wp_wifiRtcMirrorWrite {Q : Unit → Medium IoError Device → Prop}
    (h : ∀ fates, Q () ⟨m.state, fates⟩) (hlost : C m.state) :
    wp wifiRtcMirrorWrite m Q C := by
  rw [wifiRtcMirrorWrite, wp_bind]
  apply wp_attempt
  · intro _
    rw [wp_bind]
    exact wp_attempt (fun _ => h _) (fun _ _ => h _) (fun _ => hlost) (fun _ => hlost)
  · intro e _
    exact h _
  · intro _
    exact hlost
  · intro _
    exact hlost

/-- The two erases at the end of a promote and of a clear. -/
theorem wp_sweep {r : BbErr} {Q : BbErr → Medium IoError Device → Prop}
    (h : ∀ d' fates, Swept m.state d' → Q r ⟨d', fates⟩)
    (hlost : ∀ d', Swept m.state d' → C d') :
    wp (do let _ ← erase ssidPField.key; let _ ← erase passPField.key; return r) m Q C := by
  have hpass : ∀ d' fates, Swept m.state d' →
      wp (do let _ ← erase passPField.key; return r) ⟨d', fates⟩ Q C := by
    intro d' fates hswept
    rw [wp_bind]
    exact wp_erase (h _ _ hswept.erasePass) (fun _ => h _ _ hswept) (hlost _ hswept)
      (hlost _ hswept.erasePass)
  rw [wp_bind]
  exact wp_erase (hpass _ _ (Swept.eraseSsid _)) (fun _ => hpass _ _ (Swept.refl _))
    (hlost _ (Swept.refl _)) (hlost _ (Swept.eraseSsid _))

end Rules

/-! ### One lemma a call -/

section Calls

variable (d : Device) (fates : List (Fate IoError))

/-- A returned answer and a cut short call leave an effect of the call. -/
abbrev Leaves (call : WifiCall) (c : StorageCall BbErr) (m : Medium IoError Device) : Prop :=
  wp c m (fun answer m' => Effect d fates call (some answer) m'.state)
    (fun d' => Effect d fates call none d')

theorem some_error_ne_ok (e : IoError) : some e.val ≠ some BbErr.ok := by
  simpa using e.property.1

theorem wp_wifiSet (c : Creds) :
    Leaves d fates (.wifiSet c) (wifiSet c.ssid c.pass) ⟨d, fates⟩ := by
  rw [Leaves, wifiSet, wp_bind]
  apply wp_staged
  · simp [Entry.fits, ssidField, passField, Nat.lt_succ_of_le c.ssid_le,
      Nat.lt_succ_of_le c.pass_le]
  · intro _ _
    simp only [ne_eq, not_true_eq_false, if_false, wp_bind]
    exact wp_wifiRtcMirrorWrite (fun _ => .set c _) (.set c _)
  · intro e _
    simp only [ne_eq, e.property.1, not_false_eq_true, if_true, wp_pure]
    exact .nothing fun h => absurd h (some_error_ne_ok e)
  · exact .nothing (by simp)
  · intro _ _
    exact .set c _

theorem wp_wifiPendingSet (c : Creds) :
    Leaves d fates (.pendingSet c) (wifiPendingSet c.ssid c.pass) ⟨d, fates⟩ := by
  apply wp_staged
  · simp [Entry.fits, ssidPField, passPField, Nat.lt_succ_of_le c.ssid_le,
      Nat.lt_succ_of_le c.pass_le]
  · intro _ _
    exact .pendingSet c _
  · intro e _
    exact .nothing fun h => absurd h (some_error_ne_ok e)
  · exact .nothing nofun
  · intro _ _
    exact .pendingSet c _

theorem wp_wifiPendingClear :
    Leaves d fates .pendingClear wifiPendingClear ⟨d, fates⟩ := by
  rw [Leaves, wifiPendingClear, wp_bind]
  apply wp_setByte
  · exact wp_sweep (fun _ _ h => .cleared _ h) (fun _ h => .cleared _ h)
  · intro e
    exact wp_sweep (fun _ _ h => .notCleared (some_error_ne_ok e) h)
      (fun _ h => .notCleared nofun h)
  · exact .nothing nofun
  · exact .cleared _ (Swept.refl _)

theorem wp_wifiProvisionedMarkConnected :
    Leaves d fates .markConnected WifiCall.markConnected.exec ⟨d, fates⟩ := by
  rw [Leaves, WifiCall.exec, wifiProvisionedMarkConnected, wp_bind, wp_bind]
  apply wp_wifiProvisionedGet
  · intro _
    exact .nothing fun _ => rfl
  · intro hmissed
    simp only [Bool.false_eq_true, if_false, wp_bind]
    rw [setByte, wp_bind]
    apply wp_attempt
    · intro hwrite
      rw [List.headD_eq_getD, getD_tail] at hwrite
      simp only [wp_pure, status_ok, if_true, provisionedNotifyTransition, Bool.false_eq_true,
        if_false, wp_effect]
      rw [List.headD_eq_getD] at hmissed
      exact .markedNotified _ hwrite hmissed
    · intro e _
      simp only [wp_pure, status_error, if_false]
      exact .nothing fun _ => rfl
    · intro _
      exact .nothing (by simp)
    · intro _
      exact .marked _
  · exact .nothing (by simp)

/-- The best-effort end of a promote whose commit landed. -/
theorem wp_promoteEnd {d₂ : Device} {fates₂ : List (Fate IoError)}
    (h : ∀ answer d', (∀ err, answer = some err → err = .ok) → Swept d₂ d' →
      Effect d fates .pendingPromote answer d') :
    Leaves d fates .pendingPromote (do
      wifiRtcMirrorWrite
      let _ ← erase ssidPField.key
      let _ ← erase passPField.key
      return .ok) ⟨d₂, fates₂⟩ := by
  rw [Leaves, wp_bind]
  apply wp_wifiRtcMirrorWrite
  · intro fates₃
    apply wp_sweep
    · intro d' _ hswept
      exact h _ d' (fun err herr => (Option.some.inj herr).symm) hswept
    · intro d' hswept
      exact h _ d' nofun hswept
  · exact h _ _ nofun (Swept.refl _)

/-- A promote from the flag read on, once its pending text is read. -/
theorem wp_promoteRest {ssid pass : Bytes} (htext : PendingText d ssid pass)
    (hssid : fates.getD 0 .done = .done) (hpass : fates.getD 1 .done = .done) :
    Leaves d fates .pendingPromote (do
      let wasProvisioned ← wifiProvisionedGet
      let err ← staged (promoteEntries ssid pass)
      if err ≠ .ok then
        return err
      provisionedNotifyTransition wasProvisioned
      wifiRtcMirrorWrite
      let _ ← erase ssidPField.key
      let _ ← erase passPField.key
      return .ok) ⟨d, fates.tail.tail⟩ := by
  have hfits : (promoteEntries ssid pass).all Entry.fits = true := by
    obtain ⟨v, _, _, rfl, rfl⟩ := htext
    simp [promoteEntries, Entry.fits, ssidField, passField, length_cString_lt]
  have hnothing : ∀ answer : Option BbErr, answer ≠ some .ok →
      Effect d fates .pendingPromote answer d :=
    fun answer hanswer => .nothing fun h => absurd h hanswer
  -- the session of the commit, whatever the flag read answered
  have hsession : ∀ was : Bool, (was = false → FlagMissed d (fates.getD 2 .done)) →
      Leaves d fates .pendingPromote (do
        let err ← staged (promoteEntries ssid pass)
        if err ≠ .ok then
          return err
        provisionedNotifyTransition was
        wifiRtcMirrorWrite
        let _ ← erase ssidPField.key
        let _ ← erase passPField.key
        return .ok) ⟨d, fates.tail.tail.tail⟩ := by
    intro was hmissed
    rw [Leaves, wp_bind]
    apply wp_staged hfits
    · intro hbegin hcommit
      simp only [List.headD_eq_getD, getD_tail] at hbegin hcommit
      have hlands : PromoteLands fates := ⟨hssid, hpass, hbegin, Or.inl hcommit⟩
      simp only [ne_eq, not_true_eq_false, if_false]
      rw [wp_bind]
      cases was with
      | true =>
        exact wp_promoteEnd d fates fun answer d' hanswer hswept =>
          .promoted hanswer htext hlands hswept
      | false =>
        exact wp_promoteEnd d fates fun answer d' hanswer hswept =>
          .promotedNotified hanswer htext hlands hcommit (hmissed rfl) hswept
    · intro e fates'
      simp only [ne_eq, e.property.1, not_false_eq_true, if_true, wp_pure]
      exact hnothing _ (some_error_ne_ok e)
    · exact hnothing _ (by simp)
    · intro hbegin hcommit
      simp only [List.headD_eq_getD, getD_tail] at hbegin hcommit
      exact .promoted (by simp) htext ⟨hssid, hpass, hbegin, Or.inr hcommit⟩ (Swept.refl _)
  rw [Leaves, wp_bind]
  apply wp_wifiProvisionedGet
  · intro _
    exact hsession true (by simp)
  · intro hmissed
    rw [List.headD_eq_getD, getD_tail, getD_tail] at hmissed
    exact hsession false fun _ => hmissed
  · exact hnothing _ (by simp)

theorem wp_wifiPendingPromote :
    Leaves d fates .pendingPromote wifiPendingPromote ⟨d, fates⟩ := by
  have hnothing : ∀ answer : Option BbErr, answer ≠ some .ok →
      Effect d fates .pendingPromote answer d :=
    fun answer hanswer => .nothing fun h => absurd h hanswer
  rw [Leaves, wifiPendingPromote, wp_bind]
  apply wp_getStr rfl (by decide)
  · intro hssid
    by_cases hempty : ((d.flash .wifiSsidP).getD []).length = 0
    · simp only [ssidPField, hempty, if_true, wp_pure]
      exact hnothing _ (by simp)
    simp only [ssidPField, hempty, if_false]
    rw [wp_bind]
    apply wp_getStr rfl (by decide)
    · intro hpass
      rw [List.headD_eq_getD] at hssid hpass
      rw [getD_tail] at hpass
      apply wp_promoteRest d fates _ hssid hpass
      cases hv : d.flash .wifiSsidP with
      | none =>
        rw [hv] at hempty
        exact absurd rfl hempty
      | some v =>
        rw [hv] at hempty
        exact ⟨v, hv, fun h => hempty (by rw [h]; rfl), rfl, rfl⟩
    · intro e hne
      exact hnothing _ fun h => hne (Option.some.inj h)
    · exact hnothing _ (by simp)
  · intro e _
    exact hnothing _ (by simp)
  · exact hnothing _ (by simp)

/-- What every event leaves on the device. -/
theorem effect_outcome (e : Event) :
    Effect d e.fates e.call (e.outcome d).1 (e.outcome d).2 := by
  obtain ⟨call, fates⟩ := e
  have h : Leaves d fates call call.exec ⟨d, fates⟩ := by
    cases call with
    | wifiSet c => exact wp_wifiSet d fates c
    | pendingSet c => exact wp_wifiPendingSet d fates c
    | pendingPromote => exact wp_wifiPendingPromote d fates
    | pendingClear => exact wp_wifiPendingClear d fates
    | markConnected => exact wp_wifiProvisionedMarkConnected d fates
  simp only [Event.outcome]
  rcases wp_elim h with ⟨answer, m', hrun, heffect⟩ | ⟨m', hrun, heffect⟩
  · rw [hrun]
    exact heffect
  · rw [hrun]
    exact heffect

end Calls

/-! ### Reading the pending state -/

/-- Whether the stored try flag is set. -/
def Device.tryFlag (d : Device) : Bool :=
  match d.flash .wifiTry with
  | some [b] => b ≠ 0
  | _ => false

/-- An active answer needs a set try flag. -/
theorem wp_wifiPendingActive (m : Medium IoError Device) (h : m.state.tryFlag = false) :
    wp wifiPendingActive m (fun active _ => active = false) (fun _ => True) := by
  rw [wifiPendingActive, wp_bind]
  apply wp_getByte
  · intro b hb _
    have hzero : b = 0 := by simpa [Device.tryFlag, hb] using h
    rw [wp_bind]
    apply wp_getStr rfl (by decide)
    · intro _
      simp [hzero]
    · intro e _
      rfl
    · trivial
  · intro e _
    rw [wp_bind]
    apply wp_getStr rfl (by decide)
    · intro _
      rfl
    · intro e _
      rfl
    · trivial
  · trivial

end Settings
end Breadboard
