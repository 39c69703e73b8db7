import Breadboard.Core.Basics
import Breadboard.Foundations.Runs
import Mathlib.Data.Fintype.Basic
import Mathlib.Logic.Function.Basic

/-!
# bb_ota_pull, bb_ota_check - one OTA operation at a time

An apply request marks the OTA as in progress, has the cached check refreshed where it
is stale, takes the OTA claim as `ota_pull` and spawns the worker that downloads and
flashes.  Kicks, refreshes and the timer spawn a worker that checks for an update, behind
a flag of their own and the same claim as `upd_check`.

Every task is at a control point; a step is one claim call, one write of a flag, one
pause, resume or watchdog call, or one task creation.  What other calls answer is part of
the action.

Main results:

- Theorem `advances`: all that a step of one task can do.
- Theorem `moves_step`: all that a step can do.
-/

namespace Breadboard
namespace Ota

open Foundations

/-- The name under which the slot is held. -/
inductive OpName where
  | otaPull
  | updCheck
  deriving Repr, DecidableEq

/-- What an apply request reads of `bb_ota_check_status_t`. -/
structure CheckStatus where
  available : Bool
  lastCheckOk : Bool
  lastCheckUs : Int
  deriving Repr, DecidableEq

/-- Where a task is. -/
inductive Pc where
  /-- Outside: no request, no worker. -/
  | idle
  /-- `ota_update_handler`, from here to `givingUp`. -/
  | marked
  | refreshing
  | waiting (preCheckUs : Int)
  | refreshed
  | decided (available : Bool)
  | allocated
  | pullClaimed
  | pullUnspawned
  /-- The flag is to be cleared before the error is answered. -/
  | givingUp
  /-- `ota_worker_task` with `ota_download_and_flash` and `ota_task_exit`. -/
  | pullStarted
  | pauseRefused
  | downloading (paused : Bool)
  | extended (paused : Bool)
  | applied (paused : Bool)
  | failed (paused : Bool)
  | cleared (paused : Bool)
  | exiting
  | released
  /-- `try_spawn`, of a kick or the timer, or of a refresh that then waits. -/
  | kicking (preCheckUs : Option Int)
  | checkMarked (preCheckUs : Option Int)
  | checkClaimed (preCheckUs : Option Int)
  | checkGivingUp (preCheckUs : Option Int)
  /-- `ondemand_task` with `bb_ota_check_run_one`. -/
  | checkStarted
  | fetching
  | fetched
  | checkDone
  | checkReleased
  deriving Repr, DecidableEq

/-- What the tasks share. -/
structure Shared where
  /-- `s_ota_in_progress`. -/
  inProgress : Bool
  /-- `s_check_in_flight`. -/
  inFlight : Bool
  /-- The holder of `s_ota_claim`. -/
  holder : Option OpName
  /-- The work of the device is paused. -/
  paused : Bool
  /-- The timeout of the task watchdog is the extended one. -/
  wdtExtended : Bool
  status : CheckStatus
  deriving Repr, DecidableEq

structure State (τ : Type) where
  pcs : τ → Pc
  shared : Shared

def Shared.boot : Shared where
  inProgress := false
  inFlight := false
  holder := none
  paused := false
  wdtExtended := false
  status := { available := false, lastCheckOk := false, lastCheckUs := 0 }

def State.boot (τ : Type) : State τ where
  pcs := fun _ => .idle
  shared := .boot

/-- What the calls of a step answer. -/
structure Answer where
  /-- The call succeeds, or is not refused. -/
  ok : Bool
  /-- A hook is installed. -/
  hook : Bool
  /-- `esp_timer_get_time`. -/
  nowUs : Int
  /-- What the fetch of a check has found. -/
  found : CheckStatus
  deriving Repr, DecidableEq

/-- `bb_claim_acquire`; the lock may be missing. -/
def Shared.acquire (sh : Shared) (lock : Bool) (name : OpName) : BbErr × Shared :=
  if lock = false then (.noMem, sh)
  else
    match sh.holder with
    | none => (.ok, { sh with holder := some name })
    | some holder => if holder = name then (.ok, sh) else (.conflict, sh)

/-- `bb_claim_release`. -/
def Shared.release (sh : Shared) (name : OpName) : Shared :=
  if sh.holder = some name then { sh with holder := none } else sh

section Tasks

variable (windowS : Int)

/-- `bb_ota_pull_apply_cache_is_fresh`. -/
def cacheIsFresh (status : CheckStatus) (nowUs : Int) : Bool :=
  if windowS ≤ 0 then false
  else if status.lastCheckOk = false then false
  else if status.lastCheckUs ≤ 0 then false
  else nowUs - status.lastCheckUs ≤ windowS * 1000000

/-- `try_spawn` returns. -/
def spawnReturns : Option Int → Pc
  | none => .idle
  | some preCheckUs => .waiting preCheckUs

/-- The next step of a task, up to task creation and restart. -/
def advance (a : Answer) (sh : Shared) : Pc → Pc × Shared
  | .marked =>
    if a.ok = false then (.givingUp, sh)
    else if cacheIsFresh windowS sh.status a.nowUs then (.decided sh.status.available, sh)
    else (.refreshing, sh)
  | .refreshing =>
    if a.ok = false then (.givingUp, sh) else (.kicking (some sh.status.lastCheckUs), sh)
  | .waiting preCheckUs =>
    if a.ok = false then (.givingUp, sh)
    else if sh.status.lastCheckUs ≠ preCheckUs then (.refreshed, sh)
    else (.waiting preCheckUs, sh)
  | .refreshed =>
    if a.ok = false ∨ sh.status.lastCheckOk = false then (.givingUp, sh)
    else (.decided sh.status.available, sh)
  | .decided available =>
    if available = false ∨ a.ok = false then (.givingUp, sh) else (.allocated, sh)
  | .allocated =>
    match sh.acquire a.ok .otaPull with
    | (.ok, sh) => (.pullClaimed, sh)
    | (_, sh) => (.givingUp, sh)
  | .pullUnspawned => (.givingUp, sh.release .otaPull)
  | .givingUp => (.idle, { sh with inProgress := false })
  | .pullStarted =>
    if a.hook = false then (.downloading false, sh)
    else if a.ok then (.downloading true, { sh with paused := true })
    else (.pauseRefused, sh)
  | .pauseRefused => (.exiting, { sh with inProgress := false })
  | .downloading paused => (.extended paused, { sh with wdtExtended := true })
  | .extended paused =>
    (if a.ok then .applied paused else .failed paused, { sh with wdtExtended := false })
  | .failed paused => (.cleared paused, { sh with inProgress := false })
  | .cleared paused => (.exiting, if paused then { sh with paused := false } else sh)
  | .exiting => (.released, sh.release .otaPull)
  | .released => (.idle, { sh with wdtExtended := false })
  | .kicking preCheckUs =>
    if sh.inFlight then (spawnReturns preCheckUs, sh)
    else (.checkMarked preCheckUs, { sh with inFlight := true })
  | .checkMarked preCheckUs =>
    match sh.acquire a.ok .updCheck with
    | (.ok, sh) => (.checkClaimed preCheckUs, sh)
    | (_, sh) => (.checkGivingUp preCheckUs, sh)
  | .checkGivingUp preCheckUs => (spawnReturns preCheckUs, { sh with inFlight := false })
  | .checkStarted =>
    if a.ok = false then (.checkDone, sh)
    else (.fetching, if a.hook then { sh with paused := true } else sh)
  | .fetching => (.fetched, if a.hook then { sh with paused := false } else sh)
  | .fetched => (.checkDone, { sh with status := a.found })
  | .checkDone => (.checkReleased, sh.release .updCheck)
  | .checkReleased => (.idle, { sh with inFlight := false })
  | pc => (pc, sh)

end Tasks

inductive Action (τ : Type) where
  /-- `POST /api/update/apply` is received. -/
  | apply (t : τ)
  /-- `bb_ota_check_kick` is called, or the timer is due. -/
  | kick (t : τ)
  | advance (t : τ) (a : Answer)
  /-- `bb_task_create` gives the new task, or fails. -/
  | create (t : τ) (u : Option τ)

section Step

variable {τ : Type} [DecidableEq τ] (windowS : Int)

/-- The task goes on to another control point. -/
def State.goto (s : State τ) (t : τ) (pc : Pc) : State τ :=
  { s with pcs := Function.update s.pcs t pc }

@[simp] theorem State.goto_self (s : State τ) (t : τ) (pc : Pc) : (s.goto t pc).pcs t = pc :=
  Function.update_self ..

theorem State.goto_of_ne (s : State τ) {t u : τ} (hne : u ≠ t) (pc : Pc) :
    (s.goto t pc).pcs u = s.pcs u :=
  Function.update_of_ne hne _ _

def step (s : State τ) : Action τ → State τ
  | .apply t =>
    if s.pcs t ≠ .idle then s
    else if s.shared.inProgress then s
    else { s with shared := { s.shared with inProgress := true } }.goto t .marked
  | .kick t => if s.pcs t ≠ .idle then s else s.goto t (.kicking none)
  | .advance t a =>
    match s.pcs t with
    | .applied _ => .boot τ
    | _ =>
      { s with shared := (advance windowS a s.shared (s.pcs t)).2 }.goto t
        (advance windowS a s.shared (s.pcs t)).1
  | .create t none =>
    match s.pcs t with
    | .pullClaimed => s.goto t .pullUnspawned
    | .checkClaimed preCheckUs => s.goto t (.checkGivingUp preCheckUs)
    | _ => s
  | .create t (some u) =>
    if s.pcs u ≠ .idle then s
    else
      match s.pcs t with
      | .pullClaimed => (s.goto t .idle).goto u .pullStarted
      | .checkClaimed preCheckUs => (s.goto t (spawnReturns preCheckUs)).goto u .checkStarted
      | _ => s

end Step

/-! ## All that a step can do -/

section Advances

/-- An apply request before its claim. -/
def Pc.deciding : Pc → Bool
  | .marked | .refreshing | .waiting _ | .refreshed | .decided _ | .allocated | .givingUp
  | .kicking (some _) => true
  | _ => false

/-- A step of one task, and what it changes of what is shared. -/
inductive Advances (sh : Shared) : Pc → Pc → Shared → Prop where
  | stays (p : Pc) : Advances sh p p sh
  | decides {p q : Pc} (hp : p.deciding = true) (hq : q.deciding = true) : Advances sh p q sh
  | givesUp : Advances sh .givingUp .idle { sh with inProgress := false }
  | pullClaims (hholder : sh.holder = none ∨ sh.holder = some .otaPull) :
      Advances sh .allocated .pullClaimed { sh with holder := some .otaPull }
  | pullUnclaims : Advances sh .pullUnspawned .givingUp (sh.release .otaPull)
  | startsUnpaused : Advances sh .pullStarted (.downloading false) sh
  | pauses : Advances sh .pullStarted (.downloading true) { sh with paused := true }
  | isRefused : Advances sh .pullStarted .pauseRefused sh
  | clearsRefused : Advances sh .pauseRefused .exiting { sh with inProgress := false }
  | extendsWdt (paused : Bool) :
      Advances sh (.downloading paused) (.extended paused) { sh with wdtExtended := true }
  | applies (paused : Bool) :
      Advances sh (.extended paused) (.applied paused) { sh with wdtExtended := false }
  | fails (paused : Bool) :
      Advances sh (.extended paused) (.failed paused) { sh with wdtExtended := false }
  | clears (paused : Bool) :
      Advances sh (.failed paused) (.cleared paused) { sh with inProgress := false }
  | resumes : Advances sh (.cleared true) .exiting { sh with paused := false }
  | leaves : Advances sh (.cleared false) .exiting sh
  | pullReleases : Advances sh .exiting .released (sh.release .otaPull)
  | endsWdt : Advances sh .released .idle { sh with wdtExtended := false }
  | isInFlight (preCheckUs : Option Int) (hset : sh.inFlight = true) :
      Advances sh (.kicking preCheckUs) (spawnReturns preCheckUs) sh
  | marks (preCheckUs : Option Int) (hfree : sh.inFlight = false) :
      Advances sh (.kicking preCheckUs) (.checkMarked preCheckUs) { sh with inFlight := true }
  | checkClaims (preCheckUs : Option Int)
      (hholder : sh.holder = none ∨ sh.holder = some .updCheck) :
      Advances sh (.checkMarked preCheckUs) (.checkClaimed preCheckUs)
        { sh with holder := some .updCheck }
  | checkYields (preCheckUs : Option Int) :
      Advances sh (.checkMarked preCheckUs) (.checkGivingUp preCheckUs) sh
  | unmarks (preCheckUs : Option Int) :
      Advances sh (.checkGivingUp preCheckUs) (spawnReturns preCheckUs)
        { sh with inFlight := false }
  | skips : Advances sh .checkStarted .checkDone sh
  | fetchesPaused : Advances sh .checkStarted .fetching { sh with paused := true }
  | fetches : Advances sh .checkStarted .fetching sh
  | fetchResumes : Advances sh .fetching .fetched { sh with paused := false }
  | fetchEnds : Advances sh .fetching .fetched sh
  | finds (status : CheckStatus) : Advances sh .fetched .checkDone { sh with status := status }
  | checkReleases : Advances sh .checkDone .checkReleased (sh.release .updCheck)
  | checkUnmarks : Advances sh .checkReleased .idle { sh with inFlight := false }

theorem acquire_cases (sh : Shared) (lock : Bool) (name : OpName) :
    (sh.acquire lock name = (.ok, { sh with holder := some name }) ∧
      (sh.holder = none ∨ sh.holder = some name)) ∨
    ∃ err, err ≠ .ok ∧ sh.acquire lock name = (err, sh) := by
  obtain ⟨inProgress, inFlight, holder, paused, wdtExtended, status⟩ := sh
  unfold Shared.acquire
  split
  · exact .inr ⟨.noMem, by decide, rfl⟩
  cases holder with
  | none => exact .inl ⟨rfl, .inl rfl⟩
  | some other =>
    by_cases hsame : other = name
    · subst hsame
      exact .inl ⟨by simp, .inr rfl⟩
    · exact .inr ⟨.conflict, by decide, by simp [hsame]⟩

theorem advances (windowS : Int) (a : Answer) (sh : Shared) (p : Pc) :
    Advances sh p (advance windowS a sh p).1 (advance windowS a sh p).2 := by
  cases p with
  | idle | pullClaimed | checkClaimed | applied => exact .stays _
  | marked | refreshing | waiting | refreshed | decided =>
    unfold advance
    dsimp only
    repeat' split
    all_goals exact .decides rfl rfl
  | allocated =>
    rcases acquire_cases sh a.ok .otaPull with ⟨hok, hholder⟩ | ⟨err, herr, hfail⟩
    · simp only [advance, hok]
      exact .pullClaims hholder
    · simp only [advance, hfail]
      exact .decides rfl rfl
  | pullUnspawned => exact .pullUnclaims
  | givingUp => exact .givesUp
  | pullStarted =>
    unfold advance
    dsimp only
    split
    · exact .startsUnpaused
    split
    · exact .pauses
    · exact .isRefused
  | pauseRefused => exact .clearsRefused
  | downloading paused => exact .extendsWdt paused
  | extended paused =>
    unfold advance
    dsimp only
    split
    · exact .applies paused
    · exact .fails paused
  | failed paused => exact .clears paused
  | cleared paused =>
    cases paused with
    | false => exact .leaves
    | true => exact .resumes
  | exiting => exact .pullReleases
  | released => exact .endsWdt
  | kicking preCheckUs =>
    cases hflight : sh.inFlight with
    | true =>
      simp only [advance, hflight, if_true]
      exact .isInFlight preCheckUs hflight
    | false =>
      simp only [advance, hflight]
      exact .marks preCheckUs hflight
  | checkMarked preCheckUs =>
    rcases acquire_cases sh a.ok .updCheck with ⟨hok, hholder⟩ | ⟨err, herr, hfail⟩
    · simp only [advance, hok]
      exact .checkClaims preCheckUs hholder
    · simp only [advance, hfail]
      exact .checkYields preCheckUs
  | checkGivingUp preCheckUs => exact .unmarks preCheckUs
  | checkStarted =>
    unfold advance
    dsimp only
    split
    · exact .skips
    dsimp only
    split
    · exact .fetchesPaused
    · exact .fetches
  | fetching =>
    unfold advance
    dsimp only
    split
    · exact .fetchResumes
    · exact .fetchEnds
  | fetched => exact .finds a.found
  | checkDone => exact .checkReleases
  | checkReleased => exact .checkUnmarks

end Advances

section Moves

variable {τ : Type} [DecidableEq τ]

inductive Moves (s : State τ) : Action τ → State τ → Prop where
  | stay (a : Action τ) : Moves s a s
  | requested (t : τ) (hpc : s.pcs t = .idle) (hfree : s.shared.inProgress = false) :
      Moves s (.apply t)
        ({ s with shared := { s.shared with inProgress := true } }.goto t .marked)
  | kicked (t : τ) (hpc : s.pcs t = .idle) : Moves s (.kick t) (s.goto t (.kicking none))
  | restarted (t : τ) (a : Answer) : Moves s (.advance t a) (.boot τ)
  | advanced (t : τ) (a : Answer) {q : Pc} {sh : Shared}
      (hadvances : Advances s.shared (s.pcs t) q sh) :
      Moves s (.advance t a) ({ s with shared := sh }.goto t q)
  | pullFailed (t : τ) (hpc : s.pcs t = .pullClaimed) :
      Moves s (.create t none) (s.goto t .pullUnspawned)
  | checkFailed (t : τ) (preCheckUs : Option Int) (hpc : s.pcs t = .checkClaimed preCheckUs) :
      Moves s (.create t none) (s.goto t (.checkGivingUp preCheckUs))
  | pullSpawned (t u : τ) (hpc : s.pcs t = .pullClaimed) (hidle : s.pcs u = .idle) :
      Moves s (.create t (some u)) ((s.goto t .idle).goto u .pullStarted)
  | checkSpawned (t u : τ) (preCheckUs : Option Int) (hpc : s.pcs t = .checkClaimed preCheckUs)
      (hidle : s.pcs u = .idle) :
      Moves s (.create t (some u)) ((s.goto t (spawnReturns preCheckUs)).goto u .checkStarted)

theorem moves_step (windowS : Int) (s : State τ) (a : Action τ) :
    Moves s a (step windowS s a) := by
  cases a with
  | apply t =>
    unfold step
    dsimp only
    split
    next => exact .stay _
    next hidle =>
      split
      next => exact .stay _
      next hfree => exact .requested t (not_not.mp hidle) (Bool.eq_false_iff.mpr hfree)
  | kick t =>
    unfold step
    dsimp only
    split
    next => exact .stay _
    next hidle => exact .kicked t (not_not.mp hidle)
  | advance t a =>
    unfold step
    dsimp only
    split
    next => exact .restarted t a
    next => exact .advanced t a (advances windowS a s.shared (s.pcs t))
  | create t u =>
    cases u with
    | none =>
      unfold step
      dsimp only
      split
      next hpc => exact .pullFailed t hpc
      next preCheckUs hpc => exact .checkFailed t preCheckUs hpc
      next => exact .stay _
    | some u =>
      unfold step
      dsimp only
      split
      next => exact .stay _
      next hidle =>
        split
        next hpc => exact .pullSpawned t u hpc (not_not.mp hidle)
        next preCheckUs hpc => exact .checkSpawned t u preCheckUs hpc (not_not.mp hidle)
        next => exact .stay _

end Moves

end Ota
end Breadboard
