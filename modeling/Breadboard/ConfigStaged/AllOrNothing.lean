import Breadboard.ConfigStaged.Session

/-!
# Staged configuration is all-or-nothing

Over either buffering backend, for any sequence of sets between a begin and a
commit or discard: a commit that returns `BB_OK` makes every staged key read
back its last set and leaves every other key, anything else leaves every key, and
a closed session changes nothing any more.

The text keys of the RTC region are C strings: a staged value with a NUL byte
reads back up to it.

Main results:

- Theorem `staged_all_or_nothing`: the session law.
- Theorem `nul_cut_short`: a value with a NUL byte under an RTC text key.
-/

namespace Breadboard
namespace ConfigStaged

open Foundations Storage

/-! ## Runs of sets -/

/-- The session after a sequence of sets. -/
def setAll (valueMax : Nat) : Staged → List SetCall → Staged :=
  run fun h c => (c.exec valueMax h).2

/-- Some set of the sequence returned an error. -/
def SomeError (valueMax : Nat) (h : Staged) (sets : List SetCall) : Prop :=
  ∃ pre c post, sets = pre ++ c :: post ∧ (c.exec valueMax (setAll valueMax h pre)).1 ≠ .ok

section Sets

variable {valueMax : Nat} {b : Backend} {h : Staged} {writes : Bytes → Option Bytes}

theorem failed_setAll (hf : Failed h) (sets : List SetCall) :
    Failed (setAll valueMax h sets) := by
  have hstep : ∀ (h : Staged) (c : SetCall), Failed h → Failed (c.exec valueMax h).2 :=
    fun h c hfailed => (SetCall.exec_of_failed valueMax hfailed c).2
  exact run_invariant hstep hf sets

/-- After any sets the session holds the last set of every key, or it is poisoned. -/
theorem clean_or_failed (hc : Clean b h writes) (sets : List SetCall) :
    (Clean b (setAll valueMax h sets) (fun k => (lastSet sets k).or (writes k)) ∧
      ¬ SomeError valueMax h sets) ∨ Failed (setAll valueMax h sets) := by
  induction sets generalizing h writes with
  | nil =>
    refine Or.inl ⟨hc, ?_⟩
    rintro ⟨pre, c, post, hsplit, _⟩
    simp at hsplit
  | cons c sets ih =>
    rcases SetCall.exec_cases valueMax hc c with ⟨hok, hclean⟩ | ⟨_, hfailed⟩
    · rcases ih hclean with ⟨hrest, hnone⟩ | hrest
      · refine Or.inl ⟨?_, ?_⟩
        · simpa only [setAll, run_cons, lastSet, Option.or_assoc] using hrest
        · rintro ⟨pre, c', post, hsplit, herror⟩
          cases pre with
          | nil =>
            cases hsplit
            exact herror hok
          | cons d pre =>
            cases hsplit
            exact hnone ⟨pre, c', post, rfl, herror⟩
      · exact Or.inr hrest
    · exact Or.inr (failed_setAll hfailed sets)

end Sets

/-! ## Sessions over a store -/

/-- A session handle and the store behind it. -/
structure Session where
  handle : Staged
  store : Store

/-- The calls on a begun session. -/
inductive Op where
  | set (c : SetCall)
  | commit
  | discard

/-- Make a call: its answer and the session after it. -/
def Session.exec (valueMax : Nat) (σ : Session) : Op → BbErr × Session
  | .set c =>
    let (rc, handle) := c.exec valueMax σ.handle
    (rc, { σ with handle := handle })
  | .commit =>
    let (rc, store, handle) := stagedCommit σ.handle σ.store
    (rc, ⟨handle, store⟩)
  | .discard =>
    let (rc, handle) := stagedDiscard σ.handle
    (rc, { σ with handle := handle })

/-- The session after a sequence of calls. -/
def Session.after (valueMax : Nat) : Session → List Op → Session :=
  run fun σ op => (σ.exec valueMax op).2

/--
What a session begun on a backend of this name promises for a sequence of sets
and the commit or discard after it.
-/
structure AllOrNothing (valueMax : Nat) (backend : Option Bytes) (σ : Session)
    (sets : List SetCall) : Prop where
  /-- Before the commit no key changes. -/
  untouched : (σ.after valueMax (sets.map .set)).store = σ.store
  /-- A successful commit: every staged key reads back its last set, every other as before. -/
  landed : ((σ.after valueMax (sets.map .set)).exec valueMax .commit).1 = .ok →
    ∀ (b : Backend) (k : Bytes),
      b.get ((σ.after valueMax (sets.map .set)).exec valueMax .commit).2.store k =
        if backend = some b.name then ((lastSet sets k).map (b.shown k)).or (b.get σ.store k)
        else b.get σ.store k
  /-- Any other commit: no key changes. -/
  kept : ((σ.after valueMax (sets.map .set)).exec valueMax .commit).1 ≠ .ok →
    ((σ.after valueMax (sets.map .set)).exec valueMax .commit).2.store = σ.store
  /-- A discard: no key changes. -/
  discarded : ((σ.after valueMax (sets.map .set)).exec valueMax .discard).2.store = σ.store
  /-- A set that returned an error is followed by no successful commit. -/
  refused : SomeError valueMax σ.handle sets →
    ((σ.after valueMax (sets.map .set)).exec valueMax .commit).1 ≠ .ok
  /-- After a commit or discard every set and commit is refused without effect. -/
  closed : ∀ last : Op, last = .commit ∨ last = .discard →
    let done := ((σ.after valueMax (sets.map .set)).exec valueMax last).2
    ∀ (later : List Op) (op : Op),
      ((done.after valueMax later).exec valueMax op).2 = done ∧
      (op ≠ .discard → ((done.after valueMax later).exec valueMax op).1 = .invalidState)

section Law

variable {valueMax : Nat} {σ : Session}

theorem after_sets (sets : List SetCall) :
    σ.after valueMax (sets.map .set) = ⟨setAll valueMax σ.handle sets, σ.store⟩ := by
  induction sets generalizing σ with
  | nil => rfl
  | cons c sets ih =>
    rw [Session.after, List.map_cons, run_cons]
    exact ih

/-- Calls on a closed session. -/
theorem exec_of_closed (hclosed : σ.handle.closed = true) (op : Op) :
    (σ.exec valueMax op).2 = σ ∧ (op ≠ .discard → (σ.exec valueMax op).1 = .invalidState) := by
  cases op with
  | set c => simp [Session.exec, SetCall.exec_of_closed valueMax hclosed]
  | commit => simp [Session.exec, stagedCommit, hclosed]
  | discard => simp [Session.exec, stagedDiscard, hclosed]

theorem after_of_closed (hclosed : σ.handle.closed = true) (later : List Op) :
    σ.after valueMax later = σ := by
  induction later with
  | nil => rfl
  | cons op later ih =>
    rw [Session.after, run_cons, (exec_of_closed hclosed op).1]
    exact ih

/-- Commit and discard close the session. -/
theorem closed_exec (σ : Session) {last : Op} (hlast : last = .commit ∨ last = .discard) :
    (σ.exec valueMax last).2.handle.closed = true := by
  cases hclosed : σ.handle.closed with
  | true =>
    rw [(exec_of_closed hclosed last).1]
    exact hclosed
  | false =>
    rcases hlast with rfl | rfl
    · by_cases hlocal : σ.handle.localErr = .ok <;>
        simp [Session.exec, stagedCommit, hclosed, hlocal]
    · simp [Session.exec, stagedDiscard, hclosed]

theorem store_discard (σ : Session) : (σ.exec valueMax .discard).2.store = σ.store :=
  rfl

/-- A poisoned session commits nothing. -/
theorem commit_of_failed (hf : Failed σ.handle) :
    (σ.exec valueMax .commit).1 ≠ .ok ∧ (σ.exec valueMax .commit).2.store = σ.store := by
  by_cases hlocal : σ.handle.localErr = .ok
  · obtain ⟨hne, hstore⟩ := txnCommit_of_failed
      (hf.poisoned.resolve_left (not_not_intro hlocal)) σ.store
    simpa [Session.exec, stagedCommit, hf.closed, hlocal] using ⟨hne, hstore⟩
  · simp [Session.exec, stagedCommit, hf.closed, hlocal]

/-- A clean session commits everything staged, or nothing. -/
theorem commit_of_clean {b : Backend} {writes : Bytes → Option Bytes}
    (hc : Clean b σ.handle writes) (hvalid : b = .rtc → regionValid σ.store.rtc = true) :
    ((σ.exec valueMax .commit).1 = .ok ∧
      (∀ k, b.get (σ.exec valueMax .commit).2.store k =
        ((writes k).map (b.shown k)).or (b.get σ.store k)) ∧
      ∀ b' k, b' ≠ b → b'.get (σ.exec valueMax .commit).2.store k = b'.get σ.store k) ∨
    ((σ.exec valueMax .commit).1 ≠ .ok ∧ (σ.exec valueMax .commit).2.store = σ.store) := by
  simpa [Session.exec, stagedCommit, hc.closed, hc.localErr] using
    txnCommit_cases hc.holds σ.store hvalid

end Law

theorem name_injective {b b' : Backend} (h : b.name = b'.name) : b = b' := by
  cases b <;> cases b' <;> first | rfl | cases h

/--
The session law.  The handle is not in the middle of a transaction, as its
zero-initialization or its last commit or discard left it, and a session on the
RTC backend finds a valid region.
-/
theorem staged_all_or_nothing (valueMax : Nat) (registry : List Backend) (h : Staged) (s : Store)
    (backend nsOrDir : Option Bytes) (slotsNull : Bool) (cap : Nat) (sets : List SetCall)
    (hidle : h.txn.txn.opened = false)
    (hvalid : backend = some Backend.rtc.name → regionValid s.rtc = true) :
    AllOrNothing valueMax backend
      ⟨(stagedBegin registry h backend nsOrDir slotsNull cap).2, s⟩ sets := by
  generalize hσ : Session.mk (stagedBegin registry h backend nsOrDir slotsNull cap).2 s = σ
  have hstore : σ.store = s := by rw [← hσ]
  -- what the begin left, and what the sets made of it
  have hsets : (∃ b, backend = some b.name ∧
        Clean b (setAll valueMax σ.handle sets) (lastSet sets) ∧
        ¬ SomeError valueMax σ.handle sets) ∨
      Failed (setAll valueMax σ.handle sets) := by
    have hbegin := txnBegin_cases registry backend nsOrDir slotsNull cap hidle
    rw [← hσ]
    rcases hbegin with ⟨b, hname, hholds⟩ | hclosed
    · have hclean : Clean b (stagedBegin registry h backend nsOrDir slotsNull cap).2
          (fun _ => none) := ⟨hholds, rfl, rfl⟩
      rcases clean_or_failed hclean sets with ⟨hlast, hnone⟩ | hfailed
      · simp only [Option.or_none] at hlast
        exact Or.inl ⟨b, hname, hlast, hnone⟩
      · exact Or.inr hfailed
    · have hfailed : Failed (stagedBegin registry h backend nsOrDir slotsNull cap).2 :=
        ⟨Or.inr (Or.inl hclosed), rfl⟩
      exact Or.inr (failed_setAll hfailed sets)
  have hafter := @after_sets valueMax σ sets
  have hcommit : ((((σ.after valueMax (sets.map .set)).exec valueMax .commit).1 = .ok ∧
        ¬ SomeError valueMax σ.handle sets ∧ ∀ (b : Backend) k,
          b.get ((σ.after valueMax (sets.map .set)).exec valueMax .commit).2.store k =
            if backend = some b.name then ((lastSet sets k).map (b.shown k)).or (b.get σ.store k)
            else b.get σ.store k)) ∨
      (((σ.after valueMax (sets.map .set)).exec valueMax .commit).1 ≠ .ok ∧
        ((σ.after valueMax (sets.map .set)).exec valueMax .commit).2.store = σ.store) := by
    rw [hafter]
    rcases hsets with ⟨b, hname, hclean, hnone⟩ | hfailed
    · have hregion : b = .rtc → regionValid σ.store.rtc = true := by
        intro hb
        rw [hstore]
        exact hvalid (hb ▸ hname)
      rcases @commit_of_clean valueMax ⟨setAll valueMax σ.handle sets, σ.store⟩ _ _ hclean hregion
        with ⟨hok, hget, hother⟩ | hkept
      · refine Or.inl ⟨hok, hnone, fun b' k => ?_⟩
        by_cases hb : b' = b
        · rw [hb, if_pos hname]
          exact hget k
        · have hne : backend ≠ some b'.name := by
            intro hname'
            rw [hname, Option.some.injEq] at hname'
            exact hb (name_injective hname').symm
          rw [if_neg hne]
          exact hother b' k hb
      · exact Or.inr hkept
    · exact Or.inr (commit_of_failed hfailed)
  constructor
  · rw [hafter]
  · intro hok
    exact (hcommit.resolve_right fun hkept => hkept.1 hok).2.2
  · intro hne
    exact (hcommit.resolve_left fun hlanded => hne hlanded.1).2
  · rw [store_discard, hafter]
  · intro herror
    exact (hcommit.resolve_left fun hlanded => hlanded.2.1 herror).1
  · intro last hlast done later op
    have hdone : done.handle.closed = true := closed_exec _ hlast
    rw [after_of_closed hdone]
    exact exec_of_closed hdone op

/-! ### A session on the RTC region -/

/-- A zero-initialized handle. -/
def Staged.zero : Staged :=
  ⟨⟨none, Txn.zero⟩, none, none, .ok, false⟩

/-- An empty RAM table beside a freshly stamped region. -/
def freshStore : Store :=
  ⟨[none], Region.zero.stamp⟩

/-- A blob field on the SSID key of the RTC region. -/
def rtcSsidBlob : Field :=
  ⟨.blob, some Backend.rtc.name, some [], ssidKey, 32⟩

theorem staged_all_or_nothing_rtc :
    AllOrNothing 64 (some Backend.rtc.name)
      ⟨(stagedBegin [.ram, .rtc] Staged.zero (some Backend.rtc.name) (some []) false 3).2,
        freshStore⟩ [⟨some rtcSsidBlob, .blob (.bytes [65, 66])⟩] :=
  staged_all_or_nothing 64 [.ram, .rtc] Staged.zero freshStore (some Backend.rtc.name) (some [])
    false 3 _ rfl fun _ => regionValid_stamp Region.zero

/-- A blob with a NUL byte, committed to the SSID key, does not read back whole. -/
theorem nul_cut_short :
    ¬ ∀ (σ : Session) (sets : List SetCall), regionValid σ.store.rtc = true →
      σ.handle = (stagedBegin [.ram, .rtc] Staged.zero (some Backend.rtc.name) (some []) false 3).2 →
      ((σ.after 64 (sets.map .set)).exec 64 .commit).1 = .ok →
      ∀ k, Backend.rtc.get ((σ.after 64 (sets.map .set)).exec 64 .commit).2.store k =
        (lastSet sets k).or (Backend.rtc.get σ.store k) := by
  intro h
  have hread := h ⟨(stagedBegin [.ram, .rtc] Staged.zero (some Backend.rtc.name) (some []) false
    3).2, freshStore⟩ [⟨some rtcSsidBlob, .blob (.bytes [65, 0, 66])⟩]
    (regionValid_stamp Region.zero) rfl (by decide +kernel) ssidKey
  revert hread
  decide +kernel

end ConfigStaged
end Breadboard
