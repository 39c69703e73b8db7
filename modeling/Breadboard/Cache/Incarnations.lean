import Breadboard.Cache.Machine
import Breadboard.Foundations.SequentialHistory

/-!
# A map of incarnations

What the cache is for: a map from keys to incarnations, used by one caller at a
time.  An incarnation is the life of a key from a registration to the removal of
its slot; it knows every write made to it, and a read returns the last one.

Main results:

- Theorem `removals_eq`: in a legal history each caller's removals are its
  notifications and the ones it still owes, in order.
-/

namespace Breadboard
namespace Cache

open Foundations

universe u

/-! ## Incarnations -/

/-- One write: the bytes, and the time they were sampled at. -/
structure Write where
  bytes : Bytes
  sample : Int
  deriving Repr, DecidableEq

/--
One life of a key.  `writes` has the newest first; `asked` is what the getter of
a cold start returned, once a read has asked it.
-/
structure Incarnation where
  id : EntryRef
  size : Nat
  owned : Bool
  fallback : Bool
  eviction : Eviction
  registeredAt : Nat
  writes : List Write
  asked : Option (Option Bytes)
  deriving Repr, DecidableEq

/-- A registration starts a life without writes. -/
def Incarnation.fresh (id : EntryRef) (cfg : Config) (time : Nat) : Incarnation where
  id := id
  size := cfg.snapSize
  owned := decide (0 < cfg.snapSize)
  fallback := cfg.snapshot
  eviction := cfg.eviction
  registeredAt := time
  writes := []
  asked := none

/-- The bytes a read returns: the last write, else the cold-start seed, else zeros. -/
def Incarnation.content (inc : Incarnation) : Bytes :=
  match inc.writes with
  | w :: _ => w.bytes
  | [] => inc.asked.join.getD (List.replicate inc.size 0)

/-- The number of writes, as a 32-bit counter shows it. -/
def Incarnation.version (inc : Incarnation) : UInt32 :=
  UInt32.ofNat inc.writes.length

/-- One more write. -/
def Incarnation.written (inc : Incarnation) (w : Write) : Incarnation :=
  { inc with writes := w :: inc.writes }

/-- A read asks the getter once, before the first write. -/
def Incarnation.ask (inc : Incarnation) (seed : Option Bytes) : Incarnation :=
  if inc.fallback = true ∧ inc.writes = [] ∧ inc.asked = none then
    { inc with asked := some seed }
  else inc

/-- The latest sample time; that of the registration before the first write. -/
def Incarnation.latest (inc : Incarnation) : Int :=
  match inc.writes with
  | w :: _ => w.sample
  | [] => inc.registeredAt

/-! ## The map -/

/--
The live incarnations, every identity given so far, and the keys of removed slots for
which each caller has not yet fired the hook.
-/
structure Incarnations (τ : Type u) where
  live : Key → Option Incarnation
  ids : List EntryRef
  owed : τ → List Key

variable {τ : Type u} [DecidableEq τ]

/-- No key registered. -/
def Incarnations.init : Incarnations τ where
  live := fun _ => none
  ids := []
  owed := fun _ => []

/-- Store an incarnation of a key. -/
def Incarnations.set (m : Incarnations τ) (key : Key) (inc : Incarnation) : Incarnations τ :=
  { m with live := Function.update m.live key (some inc) }

/-- Act on the live incarnation of a key, which must be the one named. -/
def Incarnations.actOn (m : Incarnations τ) (key : Key) (id : EntryRef)
    (f : Incarnation → Option Incarnation) : Option (Incarnations τ) :=
  match m.live key with
  | some inc => if inc.id = id then (f inc).map (m.set key) else none
  | none => none

/-- The next state of the map, when it accepts the event. -/
def Incarnations.apply (m : Incarnations τ) : Obs τ → Option (Incarnations τ)
  | .registered _ id cfg time =>
    if m.live cfg.key = none ∧ id ∉ m.ids then
      some { m.set cfg.key (.fresh id cfg time) with ids := id :: m.ids }
    else none
  | .present _ key id => m.actOn key id some
  | .updated _ x bytes sample version =>
    m.actOn x.key x.id fun inc =>
      let new := inc.written { bytes := bytes, sample := sample }
      if inc.owned = true ∧ bytes.length = inc.size ∧ version = some new.version then some new
      else none
  | .ignored _ x =>
    m.actOn x.key x.id fun inc => if inc.owned = false then some inc else none
  | .read _ x seed bytes version =>
    m.actOn x.key x.id fun inc =>
      let asked := inc.ask seed
      if inc.owned = true ∧ bytes = asked.content ∧
          (version = none ∨ version = some asked.version) then some asked
      else none
  | .version _ x v =>
    m.actOn x.key x.id fun inc => if v = inc.version then some inc else none
  | .removed t key id _ =>
    match m.live key with
    | some inc =>
      if inc.id = id then
        some { m with
          live := Function.update m.live key none
          owed := Function.update m.owed t (m.owed t ++ [key]) }
      else none
    | none => none
  | .notified t key =>
    match m.owed t with
    | [] => none
    | first :: rest =>
      if first = key then some { m with owed := Function.update m.owed t rest } else none
  | .unnamed _ => some m
  | .failed _ _ => some m

/-- The keys of the slots a caller removed, in order. -/
def removals (t : τ) (os : List (Obs τ)) : List Key :=
  os.filterMap fun o =>
    match o with
    | .removed t' key _ _ => if t' = t then some key else none
    | _ => none

/-- The keys for which a caller fired the hook, in order. -/
def notifications (t : τ) (os : List (Obs τ)) : List Key :=
  os.filterMap fun o =>
    match o with
    | .notified t' key => if t' = t then some key else none
    | _ => none

/-- The operation acted on the incarnation its lookup had found. -/
def Obs.ActsOnLooked : Obs τ → Prop
  | .updated _ x _ _ _ => x.id = x.looked
  | .ignored _ x => x.id = x.looked
  | .read _ x _ _ _ => x.id = x.looked
  | .version _ x _ => x.id = x.looked
  | _ => True

/-! ## What the map keeps -/

omit [DecidableEq τ] in
theorem Incarnations.set_self {m : Incarnations τ} {key : Key} {inc : Incarnation}
    (h : m.live key = some inc) : m.set key inc = m := by
  unfold Incarnations.set
  rw [← h, Function.update_eq_self]

omit [DecidableEq τ] in
theorem Incarnations.actOn_of_live {m : Incarnations τ} {key : Key} {inc : Incarnation}
    (h : m.live key = some inc) (f : Incarnation → Option Incarnation) :
    m.actOn key inc.id f = (f inc).map (m.set key) := by
  simp [Incarnations.actOn, h]

omit [DecidableEq τ] in
theorem Incarnations.owed_actOn {m m' : Incarnations τ} {key : Key} {id : EntryRef}
    {f : Incarnation → Option Incarnation} (h : m.actOn key id f = some m') :
    m'.owed = m.owed := by
  unfold Incarnations.actOn at h
  split at h
  · split at h
    · obtain ⟨inc, _, rfl⟩ := Option.map_eq_some_iff.mp h
      rfl
    · cases h
  · cases h

/-- Removals and notifications in step: the owed keys are the difference. -/
theorem owed_apply {m m' : Incarnations τ} {o : Obs τ} {os : List (Obs τ)} {t : τ}
    (hsofar : removals t os = notifications t os ++ m.owed t) (h : m.apply o = some m') :
    removals t (os ++ [o]) = notifications t (os ++ [o]) ++ m'.owed t := by
  have hsame : removals t [o] = [] → notifications t [o] = [] → m'.owed t = m.owed t →
      removals t (os ++ [o]) = notifications t (os ++ [o]) ++ m'.owed t := by
    intro hrem hnot howed
    rw [removals, notifications, List.filterMap_append, List.filterMap_append] at *
    rw [hrem, hnot, howed, List.append_nil, List.append_nil, hsofar]
  cases o with
  | registered t' id cfg time =>
    simp only [Incarnations.apply] at h
    split at h
    · cases h
      exact hsame rfl rfl rfl
    · cases h
  | present t' key id => exact hsame rfl rfl (congrFun (Incarnations.owed_actOn h) t)
  | updated t' x bytes sample v => exact hsame rfl rfl (congrFun (Incarnations.owed_actOn h) t)
  | ignored t' x => exact hsame rfl rfl (congrFun (Incarnations.owed_actOn h) t)
  | read t' x seed bytes v => exact hsame rfl rfl (congrFun (Incarnations.owed_actOn h) t)
  | version t' x v => exact hsame rfl rfl (congrFun (Incarnations.owed_actOn h) t)
  | unnamed t' =>
    cases h
    exact hsame rfl rfl rfl
  | failed t' err =>
    cases h
    exact hsame rfl rfl rfl
  | removed t' key id evicted =>
    simp only [Incarnations.apply] at h
    split at h
    · split at h
      · cases h
        by_cases ht : t' = t
        · subst ht
          simp only [removals, notifications, List.filterMap_append] at hsofar ⊢
          simp [hsofar]
        · refine hsame (by simp [removals, ht]) rfl ?_
          simp [Function.update_of_ne (Ne.symm ht)]
      · cases h
    · cases h
  | notified t' key =>
    simp only [Incarnations.apply] at h
    split at h
    · cases h
    · rename_i first rest howed
      split at h
      · rename_i hkey
        cases h
        by_cases ht : t' = t
        · subst ht
          simp only [removals, notifications, List.filterMap_append] at hsofar ⊢
          simp [hsofar, howed, hkey]
        · refine hsame rfl (by simp [notifications, ht]) ?_
          simp [Function.update_of_ne (Ne.symm ht)]
      · cases h

/-- In a legal history the hook has fired once for every removal but those still owed. -/
theorem removals_eq {os : List (Obs τ)} {m : Incarnations τ}
    (h : replay Incarnations.apply Incarnations.init os = some m) (t : τ) :
    removals t os = notifications t os ++ m.owed t := by
  have hinv := @replay_invariant _ _ Incarnations.apply
    (fun m os => removals t os = notifications t os ++ m.owed t)
    (fun m m' o os hsofar happly => owed_apply hsofar happly)
    Incarnations.init m [] os rfl h
  simpa using hinv

end Cache
end Breadboard
