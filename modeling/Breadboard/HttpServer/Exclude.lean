import Breadboard.Foundations.Runs
import Breadboard.HttpServer.ProvGate

/-!
# bb_http_server - route exclusion

Routes that the composition excludes are never stored: both places that store a
route ask the exclusion table first, and a hit leaves a mark on the entry that
was found.  Once everything is registered, the typo guard asks whether every
entry has its mark.

A registration is one of the four calls that may store a route.  The backend of
the routes outside `/api/` is a parameter, and so is its state.

Main results:

- Theorem `markFirst_spec`: the search of the table marks the first hit.
- Theorem `register_skips`: an excluded registration only leaves a mark.
-/

namespace Breadboard
namespace HttpServer

open Foundations

/-! ## The exclusion table -/

/-- `bb_http_route_exclude_entry_t`. -/
structure ExcludeEntry where
  method : Method
  path : Bytes
  matched : Bool
  deriving Repr, DecidableEq

/-- `BB_HTTP_ROUTE_EXCLUDE_CAP`. -/
def routeExcludeCap : Nat := 8

/-- `bb_http_route_exclude`. -/
def routeExclude (table : List ExcludeEntry) (method : Method) (path : Option Bytes) :
    BbErr × List ExcludeEntry :=
  match path with
  | none => (.invalidArg, table)
  | some path =>
    if path = [] then (.invalidArg, table)
    else if !wildcardInApiScope path then (.invalidArg, table)
    else if routeExcludeCap ≤ table.length then (.noSpace, table)
    else (.ok, table ++ [{ method := method, path := path, matched := false }])

/-- The loop of `route_excluded`: the first hit is marked. -/
def markFirst (method : Method) (path : Bytes) : List ExcludeEntry → Bool × List ExcludeEntry
  | [] => (false, [])
  | e :: rest =>
    if e.method ≠ method ∨ routeUriMatch e.path path path.length = false then
      ((markFirst method path rest).1, e :: (markFirst method path rest).2)
    else (true, { e with matched := true } :: rest)

/-- `route_excluded`, with the table after it. -/
def routeExcludedMark (table : List ExcludeEntry) (method : Method) (path : Option Bytes) :
    Bool × List ExcludeEntry :=
  match path with
  | none => (false, table)
  | some path => markFirst method path table

/-- `bb_http_route_exclude_verify`. -/
def routeExcludeVerify : List ExcludeEntry → BbErr
  | [] => .ok
  | e :: rest => if !e.matched then .notFound else routeExcludeVerify rest

/-! ## The stores -/

/-- The fields of `bb_route_t` that registration reads. -/
structure Descriptor (H : Type) where
  method : Method
  path : Option Bytes
  handler : Option H
  deriving Repr, DecidableEq

/-- The build's limits, and `BB_HTTP_ROUTE_REGISTRY_STRICT`. -/
structure RouteConfig where
  registryCap : Nat
  dispatchCap : Nat
  strict : Bool
  deriving Repr, DecidableEq

/-- The platform's table of other routes: it takes a route or refuses it. -/
structure Backend (H β : Type) where
  register : β → Method → Option Bytes → H → Bool × β

/--
What registration writes, apart from the exclusion table.  A build without the test hook stops
where `trapHit` is set.
-/
structure Stores (H β : Type) where
  registry : List (Descriptor H)
  watermarkWarned : Bool
  trapHit : Bool
  dispatch : List (DispatchApiEntry H)
  dispatchWarned : Bool
  backend : β

/-- The stores with the exclusion table. -/
structure RouteSystem (H β : Type) extends Stores H β where
  exclude : List ExcludeEntry

section

variable {H β : Type} (cfg : RouteConfig) (backend : Backend H β)

/-- `registry_add` past the exclusion check. -/
def storeDescriptor (st : Stores H β) (route : Descriptor H) : BbErr × Stores H β :=
  if cfg.registryCap ≤ st.registry.length then
    (.noSpace, { st with trapHit := st.trapHit || cfg.strict })
  else
    (.ok,
      { st with
        registry := st.registry ++ [route]
        watermarkWarned := st.watermarkWarned || cfg.registryCap ≤ st.registry.length + 1 + 8 })

/-- `registry_add`. -/
def registryAdd (s : RouteSystem H β) (route : Descriptor H) : BbErr × RouteSystem H β :=
  let check := routeExcludedMark s.exclude route.method route.path
  if check.1 then (.ok, { s with exclude := check.2 })
  else
    let stored := storeDescriptor cfg s.toStores route
    (stored.1, { toStores := stored.2, exclude := check.2 })

/-- `bb_dispatch_api_add` past the exclusion check. -/
def storeDispatch (st : Stores H β) (route : Route H) : BbErr × Stores H β :=
  let added := dispatchApiAdd cfg.dispatchCap [] st.dispatch route
  (added.1,
    { st with
      dispatch := added.2
      dispatchWarned :=
        st.dispatchWarned || (added.1 = .ok && cfg.dispatchCap - 8 ≤ added.2.length) })

/-- `bb_dispatch_api_add`. -/
def dispatchAdd (s : RouteSystem H β) (route : Route H) : BbErr × RouteSystem H β :=
  let check := routeExcludedMark s.exclude route.method route.path
  if check.1 then (.ok, { s with exclude := check.2 })
  else
    let stored := storeDispatch cfg s.toStores route
    (stored.1, { toStores := stored.2, exclude := check.2 })

/-- `bb_http_register_route`; `server` is whether the handle is not NULL. -/
def registerRoute (s : RouteSystem H β) (server : Bool) (method : Method) (path : Option Bytes)
    (handler : Option H) : BbErr × RouteSystem H β :=
  match handler with
  | none => (.invalidArg, s)
  | some handler =>
    if !server then (.invalidArg, s)
    else if path.any wildcardInApiScope then
      let added := dispatchAdd cfg s { method := method, path := path, handler := handler }
      -- a duplicate is tolerated: the first registration wins
      if added.1 = .invalidState then (.ok, added.2) else added
    else
      let taken := backend.register s.backend method path handler
      (if taken.1 then .ok else .invalidArg, { s with backend := taken.2 })

/-- `bb_http_register_route_descriptor_only`. -/
def registerRouteDescriptorOnly (s : RouteSystem H β) (route : Option (Descriptor H)) :
    BbErr × RouteSystem H β :=
  match route with
  | none => (.invalidArg, s)
  | some route => registryAdd cfg s route

/-- `bb_http_register_described_route`. -/
def registerDescribedRoute (s : RouteSystem H β) (server : Bool)
    (route : Option (Descriptor H)) : BbErr × RouteSystem H β :=
  match route with
  | none => (.invalidArg, s)
  | some route =>
    if route.handler.isNone then registryAdd cfg s route
    else
      let registered := registerRoute cfg backend s server route.method route.path route.handler
      if registered.1 ≠ .ok then registered else registryAdd cfg registered.2 route

/-- `bb_http_register_route_table`, on a table that is not NULL. -/
def registerRouteTable (s : RouteSystem H β) (server : Bool) :
    List (Option (Descriptor H)) → BbErr × RouteSystem H β
  | [] => (.ok, s)
  | route :: rest =>
    let registered := registerDescribedRoute cfg backend s server route
    if registered.1 ≠ .ok then registered else registerRouteTable registered.2 server rest

/-- The calls that may store a route. -/
inductive Registration (H : Type) where
  | route (server : Bool) (method : Method) (path : Option Bytes) (handler : Option H)
  | dispatch (route : Route H)
  | descriptorOnly (route : Option (Descriptor H))
  | described (server : Bool) (route : Option (Descriptor H))

/-- One registration. -/
def register (s : RouteSystem H β) : Registration H → BbErr × RouteSystem H β
  | .route server method path handler => registerRoute cfg backend s server method path handler
  | .dispatch route => dispatchAdd cfg s route
  | .descriptorOnly route => registerRouteDescriptorOnly cfg s route
  | .described server route => registerDescribedRoute cfg backend s server route

/-- The system after one registration. -/
def registered (s : RouteSystem H β) (r : Registration H) : RouteSystem H β :=
  (register cfg backend s r).2

end

/-! ## Hits -/

/-- A method and a path: what an entry excludes, and what a registration tries. -/
abbrev RouteKey := Method × Bytes

/-- The pattern of an entry. -/
def ExcludeEntry.key (e : ExcludeEntry) : RouteKey :=
  (e.method, e.path)

/-- The entry excludes the route. -/
def Hits (key attempt : RouteKey) : Prop :=
  key.1 = attempt.1 ∧ (patternOf key.2).Matches attempt.2

instance (key attempt : RouteKey) : Decidable (Hits key attempt) :=
  inferInstanceAs (Decidable (_ ∧ _))

/-- The entry at an index is the first that excludes the route. -/
def FirstHit (keys : List RouteKey) (i : Nat) (attempt : RouteKey) : Prop :=
  ∃ key, keys[i]? = some key ∧ Hits key attempt ∧
    ∀ j < i, ∀ earlier, keys[j]? = some earlier → ¬ Hits earlier attempt

/-- The marks after some attempts: an entry has one when it had one or was a first hit. -/
structure MarkedBy (table : List ExcludeEntry) (attempts : List RouteKey)
    (table' : List ExcludeEntry) : Prop where
  keys_eq : table'.map ExcludeEntry.key = table.map ExcludeEntry.key
  matched_iff : ∀ i, table'[i]?.any ExcludeEntry.matched = true ↔
    table[i]?.any ExcludeEntry.matched = true ∨
      ∃ a ∈ attempts, FirstHit (table.map ExcludeEntry.key) i a

theorem MarkedBy.refl (table : List ExcludeEntry) : MarkedBy table [] table where
  keys_eq := rfl
  matched_iff := by
    intro i
    simp

theorem MarkedBy.trans {table table' table'' : List ExcludeEntry} {as bs : List RouteKey}
    (h : MarkedBy table as table') (h' : MarkedBy table' bs table'') :
    MarkedBy table (as ++ bs) table'' where
  keys_eq := h'.keys_eq.trans h.keys_eq
  matched_iff := by
    intro i
    rw [h'.matched_iff, h.matched_iff, h.keys_eq, or_assoc]
    simp only [List.mem_append, or_and_right, exists_or]

/-- The same attempt twice marks once. -/
theorem MarkedBy.twice {table table' : List ExcludeEntry} {a : RouteKey}
    (h : MarkedBy table [a, a] table') : MarkedBy table [a] table' where
  keys_eq := h.keys_eq
  matched_iff := by
    intro i
    rw [h.matched_iff]
    simp

theorem hits_iff {e : ExcludeEntry} {method : Method} {path : Bytes} :
    ¬ (e.method ≠ method ∨ routeUriMatch e.path path path.length = false) ↔
      Hits e.key (method, path) := by
  unfold Hits ExcludeEntry.key
  rw [← routeUriMatch_path]
  simp

theorem firstHit_zero {key : RouteKey} {keys : List RouteKey} {a : RouteKey} :
    FirstHit (key :: keys) 0 a ↔ Hits key a := by
  unfold FirstHit
  simp

theorem firstHit_succ {key : RouteKey} {keys : List RouteKey} {i : Nat} {a : RouteKey} :
    FirstHit (key :: keys) (i + 1) a ↔ ¬ Hits key a ∧ FirstHit keys i a := by
  unfold FirstHit
  constructor
  · intro h
    rcases h with ⟨found, hfound, hhit, hfirst⟩
    constructor
    · exact hfirst 0 (Nat.succ_pos i) key rfl
    · exact ⟨found, hfound, hhit, fun j hj => hfirst (j + 1) (Nat.succ_lt_succ hj)⟩
  · intro h
    rcases h with ⟨hhead, found, hfound, hhit, hfirst⟩
    refine ⟨found, hfound, hhit, ?_⟩
    intro j hj earlier hearlier
    cases j with
    | zero =>
      cases hearlier
      exact hhead
    | succ j => exact hfirst j (Nat.lt_of_succ_lt_succ hj) earlier hearlier

/-- The loop answers whether some entry excludes the route, and marks the first that does. -/
theorem markFirst_spec (method : Method) (path : Bytes) (table : List ExcludeEntry) :
    ((markFirst method path table).1 = true ↔ ∃ e ∈ table, Hits e.key (method, path)) ∧
      MarkedBy table [(method, path)] (markFirst method path table).2 := by
  induction table with
  | nil =>
    refine ⟨by simp [markFirst], rfl, ?_⟩
    intro i
    simp [markFirst, FirstHit]
  | cons e rest ih =>
    rcases ih with ⟨hanswer, hmarks⟩
    unfold markFirst
    by_cases hhit : Hits e.key (method, path)
    · rw [if_neg (hits_iff.mpr hhit)]
      constructor
      · simp [hhit]
      · refine ⟨rfl, ?_⟩
        intro i
        cases i with
        | zero => simp [firstHit_zero, hhit]
        | succ i => simp [firstHit_succ, hhit]
    · rw [if_pos (not_not.mp fun h => hhit (hits_iff.mp h))]
      constructor
      · simp [hhit, hanswer]
      · constructor
        · simp [hmarks.keys_eq]
        · intro i
          cases i with
          | zero => simp [firstHit_zero, hhit]
          | succ i =>
            have hi := hmarks.matched_iff i
            simpa [firstHit_succ, hhit] using hi

theorem markFirst_of_not_hit {method : Method} {path : Bytes} {table : List ExcludeEntry}
    (h : ∀ e ∈ table, ¬ Hits e.key (method, path)) :
    markFirst method path table = (false, table) := by
  induction table with
  | nil => rfl
  | cons e rest ih =>
    have hrest := ih fun x hx => h x (List.mem_cons_of_mem _ hx)
    unfold markFirst
    rw [if_pos (not_not.mp fun hhit => h e List.mem_cons_self (hits_iff.mp hhit)), hrest]

/-- Some entry of the table excludes the route. -/
def Excludes (table : List ExcludeEntry) (method : Method) (path : Option Bytes) : Prop :=
  ∃ p, path = some p ∧ ∃ e ∈ table, Hits e.key (method, p)

theorem routeExcludedMark_of_not_excludes {table : List ExcludeEntry} {method : Method}
    {path : Option Bytes} (h : ¬ Excludes table method path) :
    routeExcludedMark table method path = (false, table) := by
  cases path with
  | none => rfl
  | some p => exact markFirst_of_not_hit fun e he hhit => h ⟨p, rfl, e, he, hhit⟩

theorem routeExcludedMark_of_hit {table : List ExcludeEntry} {method : Method} {path : Bytes}
    (h : ∃ e ∈ table, Hits e.key (method, path)) :
    (routeExcludedMark table method (some path)).1 = true ∧
      MarkedBy table [(method, path)] (routeExcludedMark table method (some path)).2 := by
  have hspec := markFirst_spec method path table
  exact ⟨hspec.1.mpr h, hspec.2⟩

theorem exists_hit_congr {table table' : List ExcludeEntry} {a : RouteKey}
    (h : table'.map ExcludeEntry.key = table.map ExcludeEntry.key) :
    (∃ e ∈ table', Hits e.key a) ↔ ∃ e ∈ table, Hits e.key a := by
  have hkeys (l : List ExcludeEntry) :
      (∃ e ∈ l, Hits e.key a) ↔ ∃ k ∈ l.map ExcludeEntry.key, Hits k a := by
    simp
  rw [hkeys, hkeys, h]

/-! ## One registration -/

/-- Every entry is for a path under `/api/`. -/
def InScope (table : List ExcludeEntry) : Prop :=
  ∀ e ∈ table, wildcardInApiScope e.path = true

/-- What an entry under `/api/` excludes is under it too. -/
theorem wildcardInApiScope_of_hits {key a : RouteKey} (hkey : wildcardInApiScope key.2 = true)
    (hhit : Hits key a) : wildcardInApiScope a.2 = true := by
  have hmatch := hhit.2
  unfold wildcardInApiScope at hkey ⊢
  rw [beq_iff_eq] at hkey ⊢
  have hfive : 5 ≤ key.2.length := by
    have hlen := congrArg List.length hkey
    rw [List.length_take] at hlen
    simp only [List.length_cons, List.length_nil] at hlen
    omega
  cases hwild : isWildcard key.2 with
  | false =>
    rw [patternOf_exact hwild, PrefixPattern.matches_exact] at hmatch
    rw [← hmatch]
    exact hkey
  | true =>
    rw [patternOf_wildcard hwild, PrefixPattern.matches_under] at hmatch
    rcases isWildcard_iff.mp hwild with ⟨pre, hpre⟩
    have hlen : key.2.length - 1 = pre.length := by rw [hpre]; simp
    have hcut : key.2.take pre.length = pre := by rw [hpre]; simp
    rw [hlen, hcut] at hmatch
    have hlong : 5 ≤ pre.length := by
      -- a path of five bytes under `/api/` ends in a slash, not in a star
      by_contra hshort
      have hfour : pre.length = 4 := by omega
      have hwhole : key.2.take 5 = key.2 := List.take_of_length_le (by omega)
      rw [hwhole, hpre] at hkey
      have hlast := congrArg List.getLast? hkey
      rw [List.getLast?_append, List.getLast?_singleton, Option.some_or] at hlast
      cases hlast
    rcases hmatch with ⟨rest, hrest⟩
    have hpre5 : pre.take 5 = key.2.take 5 := by
      rw [hpre, List.take_append_of_le_length hlong]
    rw [← hrest, List.take_append_of_le_length hlong, hpre5]
    exact hkey

section

variable {H β : Type} {cfg : RouteConfig} {backend : Backend H β}

/-- The method and path that a registration tries, unless its arguments are refused. -/
def Registration.attempt : Registration H → Option (Method × Option Bytes)
  | .route server method path handler =>
    if server && handler.isSome then some (method, path) else none
  | .dispatch r => some (r.method, r.path)
  | .descriptorOnly none => none
  | .descriptorOnly (some d) => some (d.method, d.path)
  | .described _ none => none
  | .described server (some d) => if server || d.handler.isNone then some (d.method, d.path) else none

/-- The registration tries a route that the table excludes. -/
def Registration.Excluded (r : Registration H) (table : List ExcludeEntry) : Prop :=
  ∃ method path, r.attempt = some (method, some path) ∧
    ∃ e ∈ table, Hits e.key (method, path)

/-- What a registration does without the exclusion table. -/
def registerPlain (cfg : RouteConfig) (backend : Backend H β) (st : Stores H β)
    (r : Registration H) : BbErr × Stores H β :=
  let done := register cfg backend { toStores := st, exclude := [] } r
  (done.1, done.2.toStores)

theorem registryAdd_of_not_excludes {s : RouteSystem H β} {route : Descriptor H}
    (h : ¬ Excludes s.exclude route.method route.path) :
    registryAdd cfg s route =
      ((storeDescriptor cfg s.toStores route).1,
        { toStores := (storeDescriptor cfg s.toStores route).2, exclude := s.exclude }) := by
  unfold registryAdd
  rw [routeExcludedMark_of_not_excludes h]
  rfl

theorem dispatchAdd_of_not_excludes {s : RouteSystem H β} {route : Route H}
    (h : ¬ Excludes s.exclude route.method route.path) :
    dispatchAdd cfg s route =
      ((storeDispatch cfg s.toStores route).1,
        { toStores := (storeDispatch cfg s.toStores route).2, exclude := s.exclude }) := by
  unfold dispatchAdd
  rw [routeExcludedMark_of_not_excludes h]
  rfl

theorem not_excludes_nil {method : Method} {path : Option Bytes} : ¬ Excludes [] method path := by
  intro h
  rcases h with ⟨_, _, _, hnil, _⟩
  exact List.not_mem_nil hnil

/-- Carry an answer over stores to a system with its exclusion table. -/
def withExclude (table : List ExcludeEntry) (done : BbErr × Stores H β) :
    BbErr × RouteSystem H β :=
  (done.1, { toStores := done.2, exclude := table })

/-- The answer of a call without the table. -/
def forgetExclude (done : BbErr × RouteSystem H β) : BbErr × Stores H β :=
  (done.1, done.2.toStores)

theorem registryAdd_plain {s : RouteSystem H β} {d : Descriptor H}
    (h : ¬ Excludes s.exclude d.method d.path) :
    registryAdd cfg s d =
      withExclude s.exclude
        (forgetExclude (registryAdd cfg { toStores := s.toStores, exclude := [] } d)) := by
  rw [registryAdd_of_not_excludes h, registryAdd_of_not_excludes not_excludes_nil]
  rfl

theorem dispatchAdd_plain {s : RouteSystem H β} {route : Route H}
    (h : ¬ Excludes s.exclude route.method route.path) :
    dispatchAdd cfg s route =
      withExclude s.exclude
        (forgetExclude (dispatchAdd cfg { toStores := s.toStores, exclude := [] } route)) := by
  rw [dispatchAdd_of_not_excludes h, dispatchAdd_of_not_excludes not_excludes_nil]
  rfl

theorem registerRoute_plain {s : RouteSystem H β} {server : Bool} {method : Method}
    {path : Option Bytes} {handler : Option H}
    (h : (server && handler.isSome) = true → ¬ Excludes s.exclude method path) :
    registerRoute cfg backend s server method path handler =
      withExclude s.exclude
        (forgetExclude
          (registerRoute cfg backend { toStores := s.toStores, exclude := [] } server method path
            handler)) := by
  cases handler with
  | none => rfl
  | some handler =>
    cases server with
    | false => rfl
    | true =>
      have hfree := h rfl
      unfold registerRoute
      simp only [Bool.not_true, Bool.false_eq_true, if_false]
      split
      · rw [@dispatchAdd_of_not_excludes H β cfg s ⟨method, path, handler⟩ hfree,
          dispatchAdd_of_not_excludes not_excludes_nil]
        dsimp only
        split <;> rfl
      · rfl

theorem registerDescribedRoute_plain {s : RouteSystem H β} {server : Bool} {d : Descriptor H}
    (h : (server || d.handler.isNone) = true → ¬ Excludes s.exclude d.method d.path) :
    registerDescribedRoute cfg backend s server (some d) =
      withExclude s.exclude
        (forgetExclude
          (registerDescribedRoute cfg backend { toStores := s.toStores, exclude := [] } server
            (some d))) := by
  unfold registerDescribedRoute
  dsimp only
  cases hhandler : d.handler with
  | none =>
    simp only [Option.isNone_none, if_true]
    exact registryAdd_plain (h (by rw [hhandler]; simp))
  | some handler =>
    simp only [Option.isNone_some, Bool.false_eq_true, if_false]
    have hroute : (server && (some handler).isSome) = true →
        ¬ Excludes s.exclude d.method d.path := by
      intro hasked
      apply h
      simp only [Option.isSome_some, Bool.and_true] at hasked
      rw [hasked, Bool.true_or]
    rw [registerRoute_plain hroute]
    generalize hplain : registerRoute cfg backend { toStores := s.toStores, exclude := [] } server
      d.method d.path (some handler) = plain
    have hexclude : plain.2.exclude = [] := by
      rw [← hplain, registerRoute_plain fun _ => not_excludes_nil]
      rfl
    change (if plain.1 ≠ .ok then (plain.1, { toStores := plain.2.toStores, exclude := s.exclude })
      else registryAdd cfg { toStores := plain.2.toStores, exclude := s.exclude } d) = _
    by_cases hok : plain.1 = .ok
    · have hserver : server = true := by
        cases server with
        | true => rfl
        | false =>
          rw [← hplain] at hok
          cases hok
      have hfree := h (by rw [hserver, Bool.true_or])
      have hplainState : plain.2 = { toStores := plain.2.toStores, exclude := [] } := by
        rw [← hexclude]
      simp only [hok, ne_eq, not_true_eq_false, if_false]
      rw [hplainState]
      exact registryAdd_plain hfree
    · simp only [hok, ne_eq, not_false_eq_true, if_true]
      rfl

/-- A registration that the table does not exclude does what it does without the table. -/
theorem register_plain {s : RouteSystem H β} {r : Registration H} (h : ¬ r.Excluded s.exclude) :
    register cfg backend s r = withExclude s.exclude (registerPlain cfg backend s.toStores r) := by
  have hfree (method : Method) (path : Option Bytes) (hattempt : r.attempt = some (method, path)) :
      ¬ Excludes s.exclude method path := by
    intro hexcludes
    rcases hexcludes with ⟨p, rfl, hhit⟩
    exact h ⟨method, p, hattempt, hhit⟩
  cases r with
  | route server method path handler =>
    exact registerRoute_plain fun hasked => hfree method path (if_pos hasked)
  | dispatch route => exact dispatchAdd_plain (hfree _ _ rfl)
  | descriptorOnly route =>
    cases route with
    | none => rfl
    | some d => exact registryAdd_plain (hfree _ _ rfl)
  | described server route =>
    cases route with
    | none => rfl
    | some d => exact registerDescribedRoute_plain fun hasked => hfree _ _ (if_pos hasked)

/-- What an excluded registration does: it succeeds, stores nothing and leaves a mark. -/
structure Skips (s : RouteSystem H β) (a : RouteKey) (done : BbErr × RouteSystem H β) : Prop where
  ok : done.1 = .ok
  stores_eq : done.2.toStores = s.toStores
  marks : MarkedBy s.exclude [a] done.2.exclude

theorem registryAdd_skips {s : RouteSystem H β} {d : Descriptor H} {path : Bytes}
    (hpath : d.path = some path) (hhit : ∃ e ∈ s.exclude, Hits e.key (d.method, path)) :
    Skips s (d.method, path) (registryAdd cfg s d) := by
  have hcheck := routeExcludedMark_of_hit hhit
  unfold registryAdd
  rw [hpath]
  simp only [hcheck.1, if_true]
  exact ⟨rfl, rfl, hcheck.2⟩

theorem dispatchAdd_skips {s : RouteSystem H β} {route : Route H} {path : Bytes}
    (hpath : route.path = some path) (hhit : ∃ e ∈ s.exclude, Hits e.key (route.method, path)) :
    Skips s (route.method, path) (dispatchAdd cfg s route) := by
  have hcheck := routeExcludedMark_of_hit hhit
  unfold dispatchAdd
  rw [hpath]
  simp only [hcheck.1, if_true]
  exact ⟨rfl, rfl, hcheck.2⟩

theorem registerRoute_skips {s : RouteSystem H β} (hscope : InScope s.exclude) {method : Method}
    {path : Bytes} {handler : H} (hhit : ∃ e ∈ s.exclude, Hits e.key (method, path)) :
    Skips s (method, path)
      (registerRoute cfg backend s true method (some path) (some handler)) := by
  have hapi : (some path).any wildcardInApiScope = true := by
    rcases hhit with ⟨e, he, hhit⟩
    exact wildcardInApiScope_of_hits (hscope e he) hhit
  have hskips := @dispatchAdd_skips H β cfg s ⟨method, some path, handler⟩ path rfl hhit
  unfold registerRoute
  simp only [Bool.not_true, Bool.false_eq_true, if_false, hapi, if_true]
  rw [if_neg (by rw [hskips.ok]; decide)]
  exact hskips

theorem registerDescribedRoute_skips {s : RouteSystem H β} (hscope : InScope s.exclude)
    {server : Bool} {d : Descriptor H} {path : Bytes} (hpath : d.path = some path)
    (hasked : (server || d.handler.isNone) = true)
    (hhit : ∃ e ∈ s.exclude, Hits e.key (d.method, path)) :
    Skips s (d.method, path) (registerDescribedRoute cfg backend s server (some d)) := by
  unfold registerDescribedRoute
  dsimp only
  cases hhandler : d.handler with
  | none =>
    simp only [Option.isNone_none, if_true]
    exact registryAdd_skips hpath hhit
  | some handler =>
    have hserver : server = true := by
      rw [hhandler] at hasked
      simpa using hasked
    have hfirst := @registerRoute_skips H β cfg backend s hscope d.method path handler hhit
    rw [hserver, hpath]
    simp only [Option.isNone_some, Bool.false_eq_true, if_false, hfirst.ok, ne_eq,
      not_true_eq_false]
    -- the descriptor is asked for a second time, and hits the same entry
    have hagain := @registryAdd_skips H β cfg
      (registerRoute cfg backend s true d.method (some path) (some handler)).2 d path hpath
      ((exists_hit_congr hfirst.marks.keys_eq).mpr hhit)
    exact ⟨hagain.ok, hagain.stores_eq.trans hfirst.stores_eq,
      (hfirst.marks.trans hagain.marks).twice⟩

/-- A registration that the table excludes only leaves a mark. -/
theorem register_skips {s : RouteSystem H β} (hscope : InScope s.exclude) {r : Registration H}
    {method : Method} {path : Bytes} (hattempt : r.attempt = some (method, some path))
    (hhit : ∃ e ∈ s.exclude, Hits e.key (method, path)) :
    Skips s (method, path) (register cfg backend s r) := by
  cases r with
  | route server m p handler =>
    change (if (server && handler.isSome) = true then some (m, p) else none) = _ at hattempt
    split at hattempt
    · rename_i hasked
      cases hattempt
      cases handler with
      | none =>
        rw [Option.isSome_none, Bool.and_false] at hasked
        cases hasked
      | some handler =>
        have hserver : server = true := by simpa using hasked
        rw [hserver]
        exact registerRoute_skips hscope hhit
    · cases hattempt
  | dispatch route =>
    cases route with
    | mk m p handler =>
      cases hattempt
      exact dispatchAdd_skips rfl hhit
  | descriptorOnly route =>
    cases route with
    | none => cases hattempt
    | some d =>
      cases d with
      | mk m p handler =>
        cases hattempt
        exact registryAdd_skips rfl hhit
  | described server route =>
    cases route with
    | none => cases hattempt
    | some d =>
      cases d with
      | mk m p handler =>
        change (if (server || handler.isNone) = true then some (m, p) else none) = _ at hattempt
        split at hattempt
        · rename_i hasked
          cases hattempt
          exact @registerDescribedRoute_skips H β cfg backend s hscope server
            ⟨method, some path, handler⟩ path rfl hasked hhit
        · cases hattempt

/-! ## What is stored -/

/-- What is stored anew is the given route. -/
structure AddsOnly (method : Method) (path : Option Bytes) (st st' : Stores H β) : Prop where
  registry : ∀ d ∈ st'.registry, d ∈ st.registry ∨ (d.method = method ∧ d.path = path)
  dispatch : ∀ e ∈ st'.dispatch, e ∈ st.dispatch ∨ (e.method = method ∧ e.path = path)

theorem AddsOnly.refl {method : Method} {path : Option Bytes} (st : Stores H β) :
    AddsOnly method path st st where
  registry := fun _ hd => Or.inl hd
  dispatch := fun _ he => Or.inl he

theorem AddsOnly.trans {method : Method} {path : Option Bytes} {st st' st'' : Stores H β}
    (h : AddsOnly method path st st') (h' : AddsOnly method path st' st'') :
    AddsOnly method path st st'' where
  registry := fun d hd => (h'.registry d hd).elim (h.registry d) Or.inr
  dispatch := fun e he => (h'.dispatch e he).elim (h.dispatch e) Or.inr

theorem addsOnly_storeDescriptor (st : Stores H β) (d : Descriptor H) :
    AddsOnly d.method d.path st (storeDescriptor cfg st d).2 := by
  unfold storeDescriptor
  split
  · exact ⟨fun _ hd => Or.inl hd, fun _ he => Or.inl he⟩
  · constructor
    · intro x hx
      rcases List.mem_append.mp hx with hold | hnew
      · exact Or.inl hold
      · rw [List.mem_singleton.mp hnew]
        exact Or.inr ⟨rfl, rfl⟩
    · exact fun _ he => Or.inl he

theorem addsOnly_storeDispatch (st : Stores H β) (route : Route H) :
    AddsOnly route.method route.path st (storeDispatch cfg st route).2 := by
  constructor
  · exact fun _ hd => Or.inl hd
  · intro e he
    change e ∈ (dispatchApiAdd cfg.dispatchCap [] st.dispatch route).2 at he
    unfold dispatchApiAdd at he
    split at he
    · exact Or.inl he
    · split at he
      · exact Or.inl he
      · split at he
        · exact Or.inl he
        · rcases List.mem_append.mp he with hold | hnew
          · exact Or.inl hold
          · rw [List.mem_singleton.mp hnew]
            exact Or.inr ⟨rfl, rfl⟩

/-- A system without exclusions. -/
def unexcluded (st : Stores H β) : RouteSystem H β where
  toStores := st
  exclude := []

theorem addsOnly_registryAdd (st : Stores H β) (d : Descriptor H) :
    AddsOnly d.method d.path st (registryAdd cfg (unexcluded st) d).2.toStores := by
  rw [registryAdd_of_not_excludes not_excludes_nil]
  exact addsOnly_storeDescriptor st d

theorem addsOnly_registerRoute (st : Stores H β) (server : Bool) (method : Method)
    (path : Option Bytes) (handler : Option H) :
    AddsOnly method path st
      (registerRoute cfg backend (unexcluded st) server method path handler).2.toStores := by
  unfold registerRoute
  cases handler with
  | none => exact AddsOnly.refl st
  | some handler =>
    dsimp only
    split
    · exact AddsOnly.refl st
    · split
      · rw [@dispatchAdd_of_not_excludes H β cfg (unexcluded st) ⟨method, path, handler⟩
          not_excludes_nil]
        have hadds := @addsOnly_storeDispatch H β cfg st ⟨method, path, handler⟩
        dsimp only
        split
        · exact hadds
        · exact hadds
      · exact ⟨fun _ hd => Or.inl hd, fun _ he => Or.inl he⟩

theorem addsOnly_registerDescribedRoute (st : Stores H β) (server : Bool) (d : Descriptor H) :
    AddsOnly d.method d.path st
      (registerDescribedRoute cfg backend (unexcluded st) server (some d)).2.toStores := by
  have hroute := @addsOnly_registerRoute H β cfg backend st server d.method d.path d.handler
  have hexclude : (registerRoute cfg backend (unexcluded st) server d.method d.path
      d.handler).2.exclude = [] := by
    rw [registerRoute_plain fun _ => not_excludes_nil]
    rfl
  unfold registerDescribedRoute
  dsimp only
  split
  · exact addsOnly_registryAdd st d
  · split
    · exact hroute
    · revert hroute hexclude
      generalize (registerRoute cfg backend (unexcluded st) server d.method d.path d.handler).2 = s
      intro hroute hexclude
      have hs : s = unexcluded s.toStores := by
        rw [unexcluded, ← hexclude]
      rw [hs]
      exact hroute.trans (addsOnly_registryAdd s.toStores d)

/-- Without exclusions a registration stores nothing but the route it tries. -/
theorem registerPlain_addsOnly (st : Stores H β) (r : Registration H) :
    (registerPlain cfg backend st r).2 = st ∨
      ∃ method path, r.attempt = some (method, path) ∧
        AddsOnly method path st (registerPlain cfg backend st r).2 := by
  cases r with
  | route server method path handler =>
    by_cases hasked : (server && handler.isSome) = true
    · exact Or.inr ⟨method, path, if_pos hasked, addsOnly_registerRoute st server method path handler⟩
    · apply Or.inl
      cases handler with
      | none => rfl
      | some handler =>
        cases server with
        | false => rfl
        | true => exact absurd rfl hasked
  | dispatch route =>
    apply Or.inr
    refine ⟨route.method, route.path, rfl, ?_⟩
    change AddsOnly _ _ st (dispatchAdd cfg (unexcluded st) route).2.toStores
    rw [dispatchAdd_of_not_excludes not_excludes_nil]
    exact addsOnly_storeDispatch st route
  | descriptorOnly route =>
    cases route with
    | none => exact Or.inl rfl
    | some d => exact Or.inr ⟨d.method, d.path, rfl, addsOnly_registryAdd st d⟩
  | described server route =>
    cases route with
    | none => exact Or.inl rfl
    | some d =>
      by_cases hasked : (server || d.handler.isNone) = true
      · exact Or.inr ⟨d.method, d.path, if_pos hasked, addsOnly_registerDescribedRoute st server d⟩
      · apply Or.inl
        cases d with
        | mk method path handler =>
          cases handler with
          | none => exact absurd (by simp) hasked
          | some handler =>
            cases server with
            | true => exact absurd rfl hasked
            | false => rfl

end

end HttpServer
end Breadboard
