import Breadboard.Settings.Wifi
import Mathlib.Data.List.TakeWhile

/-!
# WiFi credentials are never torn, lost or resurrected

Over any sequence of the credential calls, with failing storage operations and
power loss between any two of them: the live pair is a pair some call was given
whole, a promote installs the pair that waits, and the provisioned flag with its
callback moves one way.

Promote tests neither the try flag, which its comment calls the decision bit,
nor that the pending password is still stored, and a failed flag read counts as
an unset flag.  So the property needs every promote that commits to find the
whole pair still pending, and no set flag to be missed by a failed read.

Main result:

- Theorem `credentials_kept`: every call of every orderly run keeps the credentials.
-/

namespace Breadboard
namespace Settings

open Foundations

/-! ## What is to be kept -/

/-- The live pair as stored. -/
def Device.live (d : Device) : Option Bytes × Option Bytes :=
  (d.flash .wifiSsid, d.flash .wifiPass)

/-- A pair as a commit stores it. -/
def Creds.stored (c : Creds) : Option Bytes × Option Bytes :=
  (some c.ssid, some c.pass)

/-- The live pair is absent, or one that a call was given whole. -/
def World.Whole (w : World) : Prop :=
  w.device.live = (none, none) ∨ ∃ c ∈ w.given, w.device.live = c.stored

/-- The pair that waits is the live one now. -/
def World.Installed (w w' : World) : Prop :=
  ∃ c, w.waiting = some c ∧ w'.device.live = c.stored

/-- What one call with its answer keeps, from `w` to `w'`. -/
structure Kept (w : World) (call : WifiCall) (answer : Option BbErr) (w' : World) : Prop where
  /-- The live pair is a pair given whole to one call. -/
  whole : w'.Whole
  /-- A promote that returns `BB_OK` installs the pair that waits. -/
  installs : call = .pendingPromote → answer = some .ok → w.Installed w'
  /-- A promote that returns an error changes no live value. -/
  refused : call = .pendingPromote → ∀ err, answer = some err → err ≠ .ok →
    w'.device.live = w.device.live
  /-- A promote cut short changes no live value, or has installed the pair that waits. -/
  cut : call = .pendingPromote → answer = none →
    w'.device.live = w.device.live ∨ w.Installed w'
  /-- After a successful promote or clear nothing is pending. -/
  inactive : call = .pendingPromote ∨ call = .pendingClear → answer = some .ok →
    ∀ fates, (wifiPendingActive ⟨w'.device, fates⟩).1 ≠ some true
  /-- The provisioned flag never goes back. -/
  sticky : w.device.provisioned = true → w'.device.provisioned = true
  /-- The callback ran at most once, -/
  once : w'.device.notices.length ≤ 1
  /-- and found the flag durable when it ran. -/
  durable : ∀ found ∈ w'.device.notices, found = true

/-! ## The condition -/

/-- Whether the operation failed. -/
def failedFate : Fate IoError → Bool
  | .failed _ => true
  | _ => false

/-- Whether a pending SSID is stored. -/
def Device.pendingSsid (d : Device) : Bool :=
  match d.flash .wifiSsidP with
  | some (_ :: _) => true
  | _ => false

/--
A promote whose commit lands finds the try flag set and the pending password
stored, and no call runs the callback because the read of a set flag failed.
-/
def Orderly (w : World) (e : Event) : Prop :=
  match e.call with
  | .pendingPromote => w.device.pendingSsid = true → PromoteLands e.fates →
      (w.device.tryFlag = true ∧ (w.device.flash .wifiPassP).isSome = true) ∧
      (w.device.provisioned = true → e.fates.getD 4 .done = .done →
        failedFate (e.fates.getD 2 .done) = false)
  | .markConnected => w.device.provisioned = true → e.fates.getD 1 .done = .done →
      failedFate (e.fates.getD 0 .done) = false
  | .wifiSet _ => True
  | .pendingSet _ => True
  | .pendingClear => True

/-! ## The invariant -/

/-- What holds between calls. -/
structure Inv (w : World) : Prop where
  whole : w.Whole
  waiting : ∀ c, w.waiting = some c → c ∈ w.given
  /-- A pair that still looks pending is the one that waits. -/
  pending : w.device.tryFlag = true → w.device.pendingSsid = true →
    (w.device.flash .wifiPassP).isSome = true → ∃ c, w.waiting = some c ∧
      w.device.flash .wifiSsidP = some c.ssid ∧ w.device.flash .wifiPassP = some c.pass
  silent : w.device.provisioned = false → w.device.notices = []
  once : w.device.notices.length ≤ 1
  durable : ∀ found ∈ w.device.notices, found = true

theorem inv_init : Inv World.init where
  whole := Or.inl rfl
  waiting := nofun
  pending := nofun
  silent := fun _ => rfl
  once := Nat.zero_le 1
  durable := nofun

theorem cString_of_text {v : Bytes} {cap : Nat} (hlen : v.length < cap)
    (htext : ∀ b ∈ v, b ≠ 0) : cString v cap = v := by
  rw [cString, List.take_of_length_le (Nat.le_sub_one_of_lt hlen)]
  rw [List.takeWhile_eq_self_iff]
  intro b hb
  simpa using htext b hb

/-! ### What the effects do to the fields the invariant reads -/

section Fields

variable {d d' : Device}

theorem Swept.live (h : Swept d d') : d'.live = d.live := by
  rw [Device.live, Device.live, h.others .wifiSsid nofun nofun, h.others .wifiPass nofun nofun]

theorem Swept.provisioned (h : Swept d d') : d'.provisioned = d.provisioned := by
  rw [Device.provisioned, Device.provisioned, h.others .provisioned (by simp) (by simp)]

theorem Swept.tryFlag (h : Swept d d') : d'.tryFlag = d.tryFlag := by
  rw [Device.tryFlag, Device.tryFlag, h.others .wifiTry (by simp) (by simp)]

/-- What still looks pending after the erases was not touched by them. -/
theorem Swept.pending (h : Swept d d') (hssid : d'.pendingSsid = true)
    (hpass : (d'.flash .wifiPassP).isSome = true) :
    d'.flash .wifiSsidP = d.flash .wifiSsidP ∧ d'.flash .wifiPassP = d.flash .wifiPassP := by
  constructor
  · rcases h.ssidP with hsame | hgone
    · exact hsame
    · rw [Device.pendingSsid, hgone] at hssid
      cases hssid
  · rcases h.passP with hsame | hgone
    · exact hsame
    · rw [hgone] at hpass
      cases hpass

theorem pendingSsid_congr (h : d'.flash .wifiSsidP = d.flash .wifiSsidP) :
    d'.pendingSsid = d.pendingSsid := by
  rw [Device.pendingSsid, Device.pendingSsid, h]

end Fields

/-! ### One call -/

section Step

variable {w w' : World} {call : WifiCall} {answer : Option BbErr} {d' : Device}

theorem World.Whole.mono (h : w.Whole) (hlive : w'.device.live = w.device.live)
    (hgiven : w.given ⊆ w'.given) : w'.Whole := by
  rcases h with hnone | ⟨c, hc, hstored⟩
  · exact Or.inl (hlive.trans hnone)
  · exact Or.inr ⟨c, hgiven hc, hlive.trans hstored⟩

/-- A step that leaves the live pair, the flag and the callback alone. -/
theorem Inv.quiet (h : Inv w) (hlive : w'.device.live = w.device.live)
    (hflag : w'.device.provisioned = w.device.provisioned)
    (hnotices : w'.device.notices = w.device.notices) (hgiven : w.given ⊆ w'.given)
    (hwaiting : ∀ c, w'.waiting = some c → c ∈ w'.given)
    (hpending : w'.device.tryFlag = true → w'.device.pendingSsid = true →
      (w'.device.flash .wifiPassP).isSome = true → ∃ c, w'.waiting = some c ∧
        w'.device.flash .wifiSsidP = some c.ssid ∧ w'.device.flash .wifiPassP = some c.pass) :
    Inv w' where
  whole := h.whole.mono hlive hgiven
  waiting := hwaiting
  pending := hpending
  silent := by
    rw [hflag, hnotices]
    exact h.silent
  once := by
    rw [hnotices]
    exact h.once
  durable := by
    rw [hnotices]
    exact h.durable

/-- Once the try flag is down, no read of the pending state answers active. -/
theorem inactive_of_tryFlag {d : Device} (h : d.tryFlag = false) (fates : List (Fate IoError)) :
    (wifiPendingActive ⟨d, fates⟩).1 ≠ some true := by
  have hwp := wp_wifiPendingActive ⟨d, fates⟩ h
  rcases wp_elim hwp with ⟨active, m', hrun, hactive⟩ | ⟨m', hrun, _⟩
  · rw [hrun, hactive]
    nofun
  · rw [hrun]
    nofun

/-- What is left to check of a call other than promote. -/
theorem Inv.kept_of_ne_promote (h : Inv w') (hcall : call ≠ .pendingPromote)
    (hclear : call = .pendingClear → answer = some .ok → w'.device.tryFlag = false)
    (hsticky : w.device.provisioned = true → w'.device.provisioned = true) :
    Kept w call answer w' where
  whole := h.whole
  installs := fun hpromote => absurd hpromote hcall
  refused := fun hpromote => absurd hpromote hcall
  cut := fun hpromote => absurd hpromote hcall
  inactive := fun hor hok => inactive_of_tryFlag (hclear (hor.resolve_left hcall) hok)
  sticky := hsticky
  once := h.once
  durable := h.durable

theorem after_nothing (h : Inv w) (hanswer : answer = some .ok → call = .markConnected) :
    Inv (w.after call answer w.device) ∧
      Kept w call answer (w.after call answer w.device) := by
  have hwaiting : w.waitingAfter call answer w.device = w.waiting := by
    cases call with
    | pendingClear =>
      have hne : answer ≠ some .ok := fun hok => nomatch hanswer hok
      simp [World.waitingAfter, hne]
    | _ => simp [World.waitingAfter]
  have hinv : Inv (w.after call answer w.device) := by
    refine h.quiet rfl rfl rfl (List.subset_append_left _ _) ?_ ?_
    · intro c hc
      exact List.mem_append_left _ (h.waiting c (hwaiting ▸ hc))
    · simpa [World.after, hwaiting] using h.pending
  refine ⟨hinv, ?_⟩
  exact {
    whole := hinv.whole
    installs := fun hpromote hok => by
      rw [hanswer hok] at hpromote
      cases hpromote
    refused := fun _ _ _ _ => rfl
    cut := fun _ _ => Or.inl rfl
    inactive := fun hor hok => by
      rw [hanswer hok] at hor
      rcases hor with h | h <;> cases h
    sticky := id
    once := hinv.once
    durable := hinv.durable }

theorem after_set (h : Inv w) (c : Creds) :
    Inv (w.after (.wifiSet c) answer
      (w.device.commit [.str ssidField c.ssid, .str passField c.pass])) where
  whole := Or.inr ⟨c, by simp [World.after, WifiCall.gives], rfl⟩
  waiting := fun c' hc' => List.mem_append_left _ (h.waiting c' hc')
  pending := h.pending
  silent := h.silent
  once := h.once
  durable := h.durable

theorem after_pendingSet (h : Inv w) (c : Creds) :
    Inv (w.after (.pendingSet c) answer
      (w.device.commit [.str ssidPField c.ssid, .str passPField c.pass, .byte .wifiTry 1])) := by
  have hwaiting : (w.after (.pendingSet c) answer (w.device.commit [.str ssidPField c.ssid,
      .str passPField c.pass, .byte .wifiTry 1])).waiting = some c := by
    simp [World.after, World.waitingAfter, Device.commit]
  refine h.quiet rfl rfl rfl (List.subset_append_left _ _) ?_ ?_
  · intro c' hc'
    rw [hwaiting] at hc'
    cases hc'
    simp [World.after, WifiCall.gives]
  · intro _ _ _
    exact ⟨c, hwaiting, rfl, rfl⟩

theorem after_cleared (h : Inv w) (hswept : Swept (w.device.store .wifiTry (some [0])) d') :
    Inv (w.after .pendingClear answer d') := by
  have htry : d'.tryFlag = false := hswept.tryFlag
  refine h.quiet hswept.live hswept.provisioned hswept.notices
    (List.subset_append_left _ _) ?_ ?_
  · intro c hc
    simp only [World.after, World.waitingAfter] at hc
    split at hc
    · cases hc
    · exact List.mem_append_left _ (h.waiting c hc)
  · intro hset
    rw [World.after, htry] at hset
    cases hset

theorem after_notCleared (h : Inv w) (hanswer : answer ≠ some .ok) (hswept : Swept w.device d') :
    Inv (w.after .pendingClear answer d') := by
  have hwaiting : (w.after .pendingClear answer d').waiting = w.waiting := by
    simp [World.after, World.waitingAfter, hanswer]
  refine h.quiet hswept.live hswept.provisioned hswept.notices
    (List.subset_append_left _ _) ?_ ?_
  · intro c hc
    exact List.mem_append_left _ (h.waiting c (hwaiting ▸ hc))
  · intro htry hssid hpass
    obtain ⟨hsameSsid, hsamePass⟩ := hswept.pending hssid hpass
    rw [hwaiting]
    simp only [World.after] at htry hssid hpass ⊢
    rw [hswept.tryFlag] at htry
    rw [pendingSsid_congr hsameSsid] at hssid
    rw [hsamePass] at hpass
    rw [hsameSsid, hsamePass]
    exact h.pending htry hssid hpass

theorem pendingSsid_of_pendingText {d : Device} {ssid pass : Bytes}
    (h : PendingText d ssid pass) : d.pendingSsid = true := by
  obtain ⟨v, hv, hne, _, _⟩ := h
  cases v with
  | nil => exact absurd rfl hne
  | cons b v => simp [Device.pendingSsid, hv]

/-- Under the condition, the text a promote installs is the pair that waits. -/
theorem waiting_of_pendingText {ssid pass : Bytes} (h : Inv w)
    (htext : PendingText w.device ssid pass) (htry : w.device.tryFlag = true)
    (hstored : (w.device.flash .wifiPassP).isSome = true) :
    ∃ c, w.waiting = some c ∧ ssid = c.ssid ∧ pass = c.pass := by
  have hssid := pendingSsid_of_pendingText htext
  obtain ⟨v, hv, hne, rfl, rfl⟩ := htext
  obtain ⟨c, hwaiting, hssidP, hpassP⟩ := h.pending htry hssid hstored
  refine ⟨c, hwaiting, ?_, ?_⟩
  · rw [hv] at hssidP
    cases hssidP
    exact cString_of_text (Nat.lt_succ_of_le c.ssid_le) c.ssid_text
  · rw [hpassP]
    exact cString_of_text (Nat.lt_succ_of_le c.pass_le) c.pass_text

/-- A promote whose commit landed, with or without the callback. -/
theorem after_promoted {ssid pass : Bytes} {d₂ : Device} (h : Inv w)
    (hanswer : ∀ err, answer = some err → err = .ok) (htext : PendingText w.device ssid pass) (htry : w.device.tryFlag = true)
    (hstored : (w.device.flash .wifiPassP).isSome = true)
    (hflash : d₂.flash = (w.device.commit (promoteEntries ssid pass)).flash)
    (hcommits : d₂.commits = w.device.commits + 1)
    (honce : d₂.notices.length ≤ 1) (hdurable : ∀ found ∈ d₂.notices, found = true)
    (hswept : Swept d₂ d') :
    Inv (w.after .pendingPromote answer d') ∧
      Kept w .pendingPromote answer (w.after .pendingPromote answer d') := by
  obtain ⟨c, hwaiting, rfl, rfl⟩ := waiting_of_pendingText h htext htry hstored
  have hlive : d'.live = c.stored := by
    rw [hswept.live, Device.live, hflash]
    rfl
  have hflag : d'.provisioned = true := by
    rw [hswept.provisioned, Device.provisioned, hflash]
    rfl
  have hdown : d'.tryFlag = false := by
    rw [hswept.tryFlag, Device.tryFlag, hflash]
    rfl
  have hgone : (w.after .pendingPromote answer d').waiting = none := by
    simp [World.after, World.waitingAfter, hswept.commits, hcommits]
  have hinstalled : w.Installed (w.after .pendingPromote answer d') := ⟨c, hwaiting, hlive⟩
  have hinv : Inv (w.after .pendingPromote answer d') := {
    whole := Or.inr ⟨c, List.mem_append_left _ (h.waiting c hwaiting), hlive⟩
    waiting := fun c' hc' => by
      rw [hgone] at hc'
      cases hc'
    pending := fun hset => by
      rw [World.after, hdown] at hset
      cases hset
    silent := fun hunset => by
      rw [World.after, hflag] at hunset
      cases hunset
    once := by
      rw [World.after, hswept.notices]
      exact honce
    durable := by
      rw [World.after, hswept.notices]
      exact hdurable }
  exact ⟨hinv, {
    whole := hinv.whole
    installs := fun _ _ => hinstalled
    refused := fun _ err herr hne => absurd (hanswer err herr) hne
    cut := fun _ _ => Or.inr hinstalled
    inactive := fun _ _ => inactive_of_tryFlag hdown
    sticky := fun _ => hflag
    once := hinv.once
    durable := hinv.durable }⟩

/-- Marking the device connected, with or without the callback. -/
theorem after_marked {d₂ : Device} (h : Inv w)
    (hflash : d₂.flash = (w.device.store .provisioned (some [1])).flash)
    (honce : d₂.notices.length ≤ 1) (hdurable : ∀ found ∈ d₂.notices, found = true) :
    Inv (w.after .markConnected answer d₂) where
  whole := by
    refine h.whole.mono ?_ (List.subset_append_left _ _)
    simp only [World.after, Device.live, hflash]
    rfl
  waiting := fun c hc => List.mem_append_left _ (h.waiting c hc)
  pending := by
    simp only [World.after, Device.tryFlag, Device.pendingSsid, hflash]
    exact h.pending
  silent := fun hunset => by
    simp only [World.after, Device.provisioned, hflash] at hunset
    cases hunset
  once := honce
  durable := hdurable

/-- The callback runs for an unset flag only, unless the read of a set flag failed. -/
theorem unset_of_missed {d : Device} {fate : Fate IoError} (hmissed : FlagMissed d fate)
    (hread : d.provisioned = true → failedFate fate = false) : d.provisioned = false := by
  by_contra hset
  have hset : d.provisioned = true := by simpa using hset
  obtain ⟨e, rfl⟩ := hmissed hset
  cases hread hset

theorem once_notify {d : Device} (h : w.device.notices = []) (hd : d.notices = w.device.notices) :
    d.notify.notices.length ≤ 1 := by
  simp [Device.notify, hd, h]

theorem durable_notify {d : Device} (h : w.device.notices = [])
    (hd : d.notices = w.device.notices) (hflag : d.provisioned = true) :
    ∀ found ∈ d.notify.notices, found = true := by
  simp [Device.notify, hd, h, hflag]

/-- One call under the condition keeps the invariant and everything the calls promise. -/
theorem kept_step {e : Event} (h : Inv w) (horderly : Orderly w e) :
    Inv (w.step e) ∧ Kept w e.call (e.outcome w.device).1 (w.step e) := by
  have heffect := effect_outcome w.device e
  obtain ⟨call, fates⟩ := e
  rw [World.step]
  generalize (Event.mk call fates).outcome w.device = outcome at heffect
  obtain ⟨answer, d'⟩ := outcome
  simp only at heffect ⊢
  cases heffect with
  | nothing hanswer => exact after_nothing h hanswer
  | set c =>
    have hinv := @after_set w answer h c
    exact ⟨hinv, hinv.kept_of_ne_promote nofun nofun id⟩
  | pendingSet c =>
    have hinv := @after_pendingSet w answer h c
    exact ⟨hinv, hinv.kept_of_ne_promote nofun nofun id⟩
  | promoted hanswer htext hlands hswept =>
    obtain ⟨⟨htry, hstored⟩, _⟩ := horderly (pendingSsid_of_pendingText htext) hlands
    exact after_promoted h hanswer htext htry hstored rfl rfl h.once h.durable hswept
  | promotedNotified hanswer htext hlands hcommit hmissed hswept =>
    obtain ⟨⟨htry, hstored⟩, hread⟩ := horderly (pendingSsid_of_pendingText htext) hlands
    have hsilent := h.silent (unset_of_missed hmissed fun hset => hread hset hcommit)
    rename_i ssid pass
    exact @after_promoted w answer d' ssid pass
      (w.device.commit (promoteEntries ssid pass)).notify h hanswer htext htry hstored rfl rfl
      (once_notify hsilent rfl) (durable_notify hsilent rfl rfl) hswept
  | cleared _ hswept =>
    have hinv := @after_cleared w answer _ h hswept
    exact ⟨hinv, hinv.kept_of_ne_promote nofun (fun _ _ => hswept.tryFlag)
      fun hset => hswept.provisioned.trans hset⟩
  | notCleared hanswer hswept =>
    have hinv := after_notCleared h hanswer hswept
    exact ⟨hinv, hinv.kept_of_ne_promote nofun (fun _ hok => absurd hok hanswer)
      fun hset => hswept.provisioned.trans hset⟩
  | marked _ =>
    have hinv := @after_marked w answer _ h rfl h.once h.durable
    exact ⟨hinv, hinv.kept_of_ne_promote nofun nofun fun _ => rfl⟩
  | markedNotified _ hwrite hmissed =>
    have hsilent := h.silent (unset_of_missed hmissed fun hset => horderly hset hwrite)
    have hinv := @after_marked w answer (w.device.store .provisioned (some [1])).notify h rfl
      (once_notify hsilent rfl) (durable_notify hsilent rfl rfl)
    exact ⟨hinv, hinv.kept_of_ne_promote nofun nofun fun _ => rfl⟩

end Step

/-! ## Whole runs -/

/-- Each call of a run in which every call meets the condition keeps the credentials. -/
theorem credentials_kept (pre : List Event) (e : Event) (post : List Event)
    (horderly : Along World.step Orderly World.init (pre ++ e :: post)) :
    let w := run World.step World.init pre
    Kept w e.call (e.outcome w.device).1 (w.step e) := by
  obtain ⟨hpre, he, _⟩ := (along_append World.step Orderly World.init pre (e :: post)).mp horderly
  have hstep : ∀ w e, Inv w → Orderly w e → Inv (w.step e) :=
    fun w e hinv ho => (kept_step hinv ho).1
  have hinv := run_invariant_along hstep inv_init hpre
  exact (kept_step hinv he).2

/-! ### A run that loses the decision bit -/

/-- A pair for the concrete runs. -/
def homeCreds : Creds where
  ssid := [72, 111, 109, 101]
  pass := [115, 101, 99, 114, 101, 116]
  ssid_pos := by decide
  ssid_le := by decide
  pass_le := by decide
  ssid_text := by simp
  pass_text := by simp

/-- An erase of the flash that fails. -/
def eraseFails : Fate IoError :=
  .failed ⟨.other 1, by decide, by decide⟩

/-- A stored pair, promoted with no fault, is the live one. -/
theorem credentials_kept_promote :
    Kept (World.init.step ⟨.pendingSet homeCreds, []⟩) .pendingPromote (some .ok)
      ((World.init.step ⟨.pendingSet homeCreds, []⟩).step ⟨.pendingPromote, []⟩) :=
  credentials_kept [⟨.pendingSet homeCreds, []⟩] ⟨.pendingPromote, []⟩ []
    ⟨trivial, fun _ _ => ⟨⟨rfl, rfl⟩, nofun⟩, trivial⟩

/--
A pair is staged, then discarded by a clear that returns `BB_OK` while its
two erases fail: the next promote returns `BB_OK` and makes it the live one.
-/
theorem promote_revives_discarded :
    ¬ ∀ (pre : List Event) (e : Event),
      Kept (run World.step World.init pre) e.call
        (e.outcome (run World.step World.init pre).device).1
        ((run World.step World.init pre).step e) := by
  intro h
  have hpromote := h [⟨.pendingSet homeCreds, []⟩,
    ⟨.pendingClear, [.done, eraseFails, eraseFails]⟩] ⟨.pendingPromote, []⟩
  obtain ⟨c, hwaiting, _⟩ := hpromote.installs rfl rfl
  cases hwaiting

end Settings
end Breadboard
