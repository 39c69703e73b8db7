import Breadboard.Cache.Table
import Breadboard.Foundations.Runs

/-!
# Callers of the cache, interleaved

Any number of callers, each between two lock sections of the operation it is in.  A
step runs one lock section of one caller, fires the evict-notify hook of one caller,
or moves the clock.  Between its lookup and its section under the entry's lock a
caller holds only the key, the slot and the generation it saw.

An eviction tests the age in one section and frees the entry in a later one; the
hook fires in a step of its own after either kind of delete.
-/

namespace Breadboard
namespace Cache

open Foundations

universe u

variable {τ : Type u} [DecidableEq τ]

/-- An operation that looks its entry up first; a sweep pass has keys left. -/
inductive Op where
  | update (req : UpdateReq)
  | getRaw (key : Key) (cap : Nat)
  | snapshot (key : Key) (cap : Nat)
  | stateVersion (key : Key)
  | sweep (key : Key) (rest : List Key)

/-- The key the operation was given. -/
def Op.key : Op → Key
  | .update req => req.key
  | .getRaw key _ => key
  | .snapshot key _ => key
  | .stateVersion key => key
  | .sweep key _ => key

/-- Where a caller is; the source's locals it still needs are arguments. -/
inductive Pc where
  /-- Outside the cache. -/
  | idle
  /-- Looked its key up, about to take the entry's lock. -/
  | lookedUp (op : Op) (ref : EntryRef)
  /--
  In `evict_if_aged_out_locked`, about to delete by key and generation.  The slot of
  `ref` and the entry `seen` are what the age test looked at; the code keeps
  neither.
  -/
  | evicting (op : Op) (ref : EntryRef) (seen : Entry)
  /-- Freed a slot, about to fire the hook: in a delete, or in the eviction of `op`. -/
  | notifying (key : Key) (op : Option Op)
  /-- In `bb_cache_foreach`, between two calls of `sweep_cb`. -/
  | sweeping (keys : List Key)

/-- Where an operation goes when it returns. -/
def Op.return : Op → Pc
  | .sweep _ rest => .sweeping rest
  | _ => .idle

/-- The keys of freed slots whose hook a caller has yet to fire. -/
def Pc.owed : Pc → List Key
  | .notifying key _ => [key]
  | _ => []

/-- A call of a caller outside. -/
inductive Call where
  | register (cfg : Config) (allocated : Bool)
  | update (req : UpdateReq)
  | delete (key : Key)
  | getRaw (key : Key) (cap : Nat)
  | snapshot (key : Key) (cap : Nat)
  | stateVersion (key : Key)
  | sweepPass

/-- What a scheduler can choose. -/
inductive Action (τ : Type u) where
  /-- A caller outside calls in, and runs the first lock section of the call. -/
  | start (t : τ) (call : Call)
  /-- A caller inside goes on; `snap` is what a getter returns if it is called. -/
  | advance (t : τ) (snap : Option Memory)
  /-- Time passes. -/
  | tick (ms : Nat)

/-- The entry an operation acted on: its key, what the lookup saw, and what it found. -/
structure Target where
  key : Key
  looked : EntryRef
  id : EntryRef
  deriving Repr, DecidableEq

/--
What a step does for a caller.  All but `removed`, `notified` and `failed`
are returns with `BB_OK`; a delete returns it when its hook has fired.
-/
inductive Obs (τ : Type u) where
  | registered (t : τ) (id : EntryRef) (cfg : Config) (time : Nat)
  | present (t : τ) (key : Key) (id : EntryRef)
  /-- A registration of the empty key: it takes no slot. -/
  | unnamed (t : τ)
  | updated (t : τ) (x : Target) (bytes : Bytes) (sample : Int) (version : Option UInt32)
  | ignored (t : τ) (x : Target)
  | read (t : τ) (x : Target) (seed : Option Bytes) (bytes : Bytes) (version : Option UInt32)
  | version (t : τ) (x : Target) (v : UInt32)
  | removed (t : τ) (key : Key) (id : EntryRef) (evicted : Bool)
  | notified (t : τ) (key : Key)
  | failed (t : τ) (err : BbErr)
  deriving DecidableEq

/-- The cache, the clock in milliseconds, and the callers. -/
structure State (τ : Type u) where
  table : Table
  now : Nat
  pc : τ → Pc

/-- An empty cache with nobody inside. -/
def State.init (maxTopics : Nat) : State τ where
  table := Table.init maxTopics
  now := 0
  pc := fun _ => .idle

/-- A caller moves on. -/
def State.goto (s : State τ) (t : τ) (pc : Pc) : State τ :=
  { s with pc := Function.update s.pc t pc }

omit [DecidableEq τ] in
/-- An operation returns an error; `sweep_cb` returns nothing. -/
def Op.failed (op : Op) (t : τ) (err : BbErr) : List (Obs τ) :=
  match op with
  | .sweep .. => []
  | _ => [.failed t err]

/-- The lookup section of an operation. -/
def State.lookup (s : State τ) (t : τ) (op : Op) : List (Obs τ) × State τ :=
  match s.table.findEntryLockedRef op.key with
  | none => (op.failed t .notFound, s.goto t op.return)
  | some ref => ([], s.goto t (.lookedUp op ref))

/-- The sample time of an update as a time, not as the word it is stored in. -/
def UpdateReq.sample (req : UpdateReq) (now : Nat) : Int :=
  if req.tsMs ≠ 0 then req.tsMs.toInt else now

omit [DecidableEq τ] in
/-- What an operation does to an entry that matched and is not to be evicted. -/
def Op.act (op : Op) (t : τ) (x : Target) (e : Entry) (snap : Option Memory) (now : Nat) :
    List (Obs τ) × Entry :=
  match op with
  | .update req =>
    let result := e.update req now
    match result.2.owned with
    | none => ([.ignored t x], result.2)
    | some _ =>
      ([.updated t x (copyOf e.size req.snap) (req.sample now) result.1.notified], result.2)
  | .getRaw _ cap =>
    match e.copyOwnedAndCapture cap snap now with
    | (.ok out, e') => ([.read t x (snap.map (copyOf e.size)) out.bytes none], e')
    | (.error err, e') => ([.failed t err], e')
  | .snapshot _ cap =>
    match e.copyOwnedAndCapture cap snap now with
    | (.ok out, e') => ([.read t x (snap.map (copyOf e.size)) out.bytes (some out.version)], e')
    | (.error err, e') => ([.failed t err], e')
  | .stateVersion _ => ([.version t x (UInt32.ofNat e.stateVersion)], e)
  | .sweep .. => ([], e)

/-- Whether the operation tests the age of its entry. -/
def Op.evicts : Op → Bool
  | .getRaw .. => true
  | .snapshot .. => true
  | .sweep .. => true
  | _ => false

/-- The section of an operation under the lock of its entry. -/
def State.locked (s : State τ) (t : τ) (op : Op) (ref : EntryRef) (snap : Option Memory) :
    List (Obs τ) × State τ :=
  match s.table.entryMatches ref op.key with
  | none => (op.failed t .notFound, s.goto t op.return)
  | some e =>
    if op.evicts && e.agedOut s.now then
      ([], s.goto t (.evicting op (s.table.refOf ref.slot) e))
    else
      let x : Target := { key := op.key, looked := ref, id := s.table.refOf ref.slot }
      let result := op.act t x e snap s.now
      (result.1,
        { s.goto t op.return with table := s.table.setEntry ref.slot op.key result.2 })

/-- The delete of an eviction whose age test looked at `ref`. -/
def State.evict (s : State τ) (t : τ) (op : Op) (ref : EntryRef) : List (Obs τ) × State τ :=
  match s.table.deleteIfGeneration op.key ref.generation with
  | (some id, table) =>
    ([.removed t op.key id true], { s.goto t (.notifying op.key (some op)) with table := table })
  | (none, _) => (op.failed t .notFound, s.goto t op.return)

/-- The next step of a caller inside. -/
def State.advance (s : State τ) (t : τ) (snap : Option Memory) : List (Obs τ) × State τ :=
  match s.pc t with
  | .idle => ([], s)
  | .lookedUp op ref => s.locked t op ref snap
  | .evicting op ref _ => s.evict t op ref
  | .notifying key none => ([.notified t key], s.goto t .idle)
  | .notifying key (some op) => (.notified t key :: op.failed t .notFound, s.goto t op.return)
  | .sweeping [] => ([], s.goto t .idle)
  | .sweeping (key :: rest) => s.lookup t (.sweep key rest)

/-- What `bb_cache_register` does for a caller. -/
def State.register (s : State τ) (t : τ) (cfg : Config) (allocated : Bool) :
    List (Obs τ) × State τ :=
  match s.table.register cfg allocated s.now with
  | (.ok, first, table) =>
    let seen : List (Obs τ) :=
      match table.findEntryLockedRef cfg.key with
      | none => [.unnamed t]
      | some id => if first then [.registered t id cfg s.now] else [.present t cfg.key id]
    (seen, { s with table := table })
  | (err, _, _) => ([.failed t err], s)

/-- The first lock section of a call. -/
def State.start (s : State τ) (t : τ) (call : Call) : List (Obs τ) × State τ :=
  match call with
  | .register cfg allocated => s.register t cfg allocated
  | .update req => s.lookup t (.update req)
  | .delete key =>
    match s.table.delete key with
    | (none, _) => ([.failed t .notFound], s)
    | (some id, table) =>
      ([.removed t key id false], { s.goto t (.notifying key none) with table := table })
  | .getRaw key cap =>
    if cap = 0 then ([.failed t .invalidArg], s) else s.lookup t (.getRaw key cap)
  | .snapshot key cap => s.lookup t (.snapshot key cap)
  | .stateVersion key => s.lookup t (.stateVersion key)
  | .sweepPass => ([], s.goto t (.sweeping s.table.entries.keys))

/-- One action: what it shows and the next state; callers inside cannot call in. -/
def State.act (s : State τ) (a : Action τ) : List (Obs τ) × State τ :=
  match a with
  | .start t call =>
    match s.pc t with
    | .idle => s.start t call
    | _ => ([], s)
  | .advance t snap => s.advance t snap
  | .tick ms => ([], { s with now := s.now + ms })

theorem State.act_start_of_idle {s : State τ} {t : τ} (h : s.pc t = .idle) (call : Call) :
    s.act (.start t call) = s.start t call := by
  simp [State.act, h]

theorem State.act_start_of_busy {s : State τ} {t : τ} (h : s.pc t ≠ .idle) (call : Call) :
    s.act (.start t call) = ([], s) := by
  unfold State.act
  cases hpc : s.pc t with
  | idle => exact absurd hpc h
  | _ => simp [hpc]

/-- The state after one action. -/
def State.step (s : State τ) (a : Action τ) : State τ :=
  (s.act a).2

/-- What one action shows. -/
def State.shows (s : State τ) (a : Action τ) : List (Obs τ) :=
  (s.act a).1

/-- The state after a run from an empty cache. -/
def State.after (maxTopics : Nat) (as : List (Action τ)) : State τ :=
  run State.step (State.init maxTopics) as

/-- What a run from an empty cache shows. -/
def history (maxTopics : Nat) (as : List (Action τ)) : List (Obs τ) :=
  outputs State.step State.shows (State.init maxTopics) as

end Cache
end Breadboard
