import Mathlib.Data.List.TakeWhile
import Breadboard.Foundations.PrefixPattern
import Breadboard.Foundations.Runs
import Breadboard.HttpServer.Lookup

/-!
# bb_http_server - the provisioning gate

While the device is provisioned over its own access point, a route is reachable
only if an allow entry names it and no deny entry takes it away again.  Before
that, the deny table is checked for entries that no allow entry can reach: the
check compares the patterns of the tables, the gate matches concrete URIs.

Main results:

- Theorem `entriesOverlap_iff`: the comparison of two entries is overlap of their patterns.
- Theorem `verify_denies_exact`: the check and the gate agree, for every pair of tables.
-/

namespace Breadboard
namespace HttpServer

open Foundations

/-! ## Entries as patterns -/

/-- The pattern that a stored path stands for. -/
def patternOf (path : Bytes) : PrefixPattern UInt8 :=
  if isWildcard path then .under (path.take (path.length - 1)) else .exact path

theorem patternOf_wildcard {path : Bytes} (h : isWildcard path = true) :
    patternOf path = .under (path.take (path.length - 1)) :=
  if_pos h

theorem patternOf_exact {path : Bytes} (h : isWildcard path = false) :
    patternOf path = .exact path := by
  unfold patternOf
  rw [h]
  rfl

/-- The match predicate compares the bounded part of the URI with the pattern. -/
theorem routeUriMatch_iff {pattern uri : Bytes} {n : Nat} (hn : n ≤ uri.length) :
    routeUriMatch pattern uri n = true ↔ (patternOf pattern).Matches (uri.take n) := by
  have hlen : (uri.take n).length = n := by
    rw [List.length_take, Nat.min_eq_left hn]
  unfold routeUriMatch
  cases hwild : isWildcard pattern with
  | true =>
    rw [patternOf_wildcard hwild, PrefixPattern.matches_under]
    have hpre : (pattern.take (pattern.length - 1)).length = pattern.length - 1 := by
      rw [List.length_take, Nat.min_eq_left (Nat.sub_le _ _)]
    by_cases hshort : n < pattern.length - 1
    · simp only [if_true, if_pos hshort, Bool.false_eq_true, false_iff]
      intro hprefix
      have hle := hprefix.length_le
      omega
    · simp only [if_true, if_neg hshort]
      rw [beq_iff_eq, List.prefix_iff_eq_take, hpre, List.take_take,
        Nat.min_eq_left (Nat.le_of_not_lt hshort)]
      exact eq_comm
  | false =>
    rw [patternOf_exact hwild, PrefixPattern.matches_exact]
    by_cases hne : pattern.length = n
    · have hwhole : pattern.take n = pattern := by
        rw [← hne, List.take_length]
      simp only [Bool.false_eq_true, if_false, ne_eq, hne, not_true_eq_false, beq_iff_eq, hwhole]
      exact eq_comm
    · simp only [Bool.false_eq_true, if_false, ne_eq, hne, not_false_eq_true, if_true, false_iff]
      intro heq
      exact hne (heq ▸ hlen)

/-- For a request the bounded part is its path. -/
theorem routeUriMatch_request (pattern uri : Bytes) :
    routeUriMatch pattern uri (pathLen uri) = true ↔
      (patternOf pattern).Matches (requestPath uri) := by
  have hle : pathLen uri ≤ uri.length := (List.takeWhile_prefix _).length_le
  rw [routeUriMatch_iff hle, take_pathLen]

/-- For a path it is the whole. -/
theorem routeUriMatch_path (pattern path : Bytes) :
    routeUriMatch pattern path path.length = true ↔ (patternOf pattern).Matches path := by
  rw [routeUriMatch_iff (Nat.le_refl _), List.take_length]

/-! ## The gate -/

/-- `bb_http_prov_gate_entry_t`. -/
structure GateEntry where
  method : Method
  path : Bytes
  deriving Repr, DecidableEq

/-- The statics of the gate; `activeFn` is what the injected function answers. -/
structure ProvGate where
  allowlist : List GateEntry
  denylist : List GateEntry
  activeFn : Option Bool
  deriving Repr, DecidableEq

/-- `BB_HTTP_PROV_ALLOWLIST_CAP`. -/
def allowlistCap : Nat := 8

/-- `BB_HTTP_PROV_DENYLIST_CAP`. -/
def denylistCap : Nat := 4

/-- `bb_route_match_wildcard_in_api_scope`. -/
def wildcardInApiScope (path : Bytes) : Bool :=
  path.take 5 == [47, 97, 112, 105, 47]

/-- Admission to one of the two tables. -/
def addEntry (cap : Nat) (table : List GateEntry) (method : Method) (path : Option Bytes) :
    BbErr × List GateEntry :=
  match path with
  | none => (.invalidArg, table)
  | some path =>
    if isWildcard path && !wildcardInApiScope path then (.invalidArg, table)
    else if cap ≤ table.length then (.noSpace, table)
    else (.ok, table ++ [{ method := method, path := path }])

/-- `bb_http_prov_allow`. -/
def provAllow (g : ProvGate) (method : Method) (path : Option Bytes) : BbErr × ProvGate :=
  ((addEntry allowlistCap g.allowlist method path).1,
    { g with allowlist := (addEntry allowlistCap g.allowlist method path).2 })

/-- `bb_http_prov_deny`. -/
def provDeny (g : ProvGate) (method : Method) (path : Option Bytes) : BbErr × ProvGate :=
  ((addEntry denylistCap g.denylist method path).1,
    { g with denylist := (addEntry denylistCap g.denylist method path).2 })

/-- The loop over a table: some entry of the method matches. -/
def tableMatches (method : Method) (uri : Bytes) (upto : Nat) : List GateEntry → Bool
  | [] => false
  | e :: rest =>
    if e.method ≠ method then tableMatches method uri upto rest
    else if routeUriMatch e.path uri upto then true
    else tableMatches method uri upto rest

/--
`bb_http_prov_gate_allow`; `disabled` is the build option
`CONFIG_BB_WIFI_PROV_GATE_DISABLE`.
-/
def gateAllow (disabled : Bool) (g : ProvGate) (provActive : Bool) (method : Method)
    (uri : Option Bytes) : Bool :=
  if disabled then true
  else if !provActive then true
  else
    match uri with
    | none => false
    | some uri =>
      if !tableMatches method uri (pathLen uri) g.allowlist then false
      else !tableMatches method uri (pathLen uri) g.denylist

/-- `bb_http_prov_gate_check`. -/
def gateCheck (disabled : Bool) (g : ProvGate) (method : Method) (uri : Option Bytes) : Bool :=
  gateAllow disabled g (g.activeFn.getD false) method uri

/-- `bb_http_prov_gate_is_active`. -/
def gateIsActive (disabled : Bool) (g : ProvGate) : Bool :=
  if disabled then false else g.activeFn.getD false

/-- `bb_http_prov_gate_entries_overlap`. -/
def entriesOverlap (allow deny : GateEntry) : Bool :=
  let allowWild := isWildcard allow.path
  let denyWild := isWildcard deny.path
  if !allowWild && !denyWild then
    allow.path.length == deny.path.length &&
      allow.path.take allow.path.length == deny.path.take allow.path.length
  else if allowWild && denyWild then
    let minLen := min (allow.path.length - 1) (deny.path.length - 1)
    allow.path.take minLen == deny.path.take minLen
  else if allowWild then routeUriMatch allow.path deny.path deny.path.length
  else routeUriMatch deny.path allow.path allow.path.length

/-- The inner loop of the check: some allow entry of the method overlaps. -/
def reachable (deny : GateEntry) : List GateEntry → Bool
  | [] => false
  | allow :: rest =>
    if allow.method ≠ deny.method then reachable deny rest
    else if entriesOverlap allow deny then true
    else reachable deny rest

/-- The outer loop of the check: whether an orphan was found. -/
def foundOrphan (allowlist : List GateEntry) : Bool → List GateEntry → Bool
  | found, [] => found
  | found, deny :: rest =>
    foundOrphan allowlist (if !reachable deny allowlist then true else found) rest

/-- `bb_http_prov_gate_verify_denies`. -/
def verifyDenies (g : ProvGate) : BbErr :=
  if foundOrphan g.allowlist false g.denylist then .notFound else .ok

/-! ## The loops -/

theorem tableMatches_eq (method : Method) (uri : Bytes) (upto : Nat) (table : List GateEntry) :
    tableMatches method uri upto table =
      table.any fun e => e.method == method && routeUriMatch e.path uri upto := by
  induction table with
  | nil => rfl
  | cons e rest ih =>
    unfold tableMatches
    rw [List.any_cons, ih]
    by_cases hmethod : e.method = method
    · cases hmatch : routeUriMatch e.path uri upto <;> simp [hmethod]
    · simp [hmethod]

theorem reachable_eq (deny : GateEntry) (allowlist : List GateEntry) :
    reachable deny allowlist =
      allowlist.any fun allow => allow.method == deny.method && entriesOverlap allow deny := by
  induction allowlist with
  | nil => rfl
  | cons allow rest ih =>
    unfold reachable
    rw [List.any_cons, ih]
    by_cases hmethod : allow.method = deny.method
    · cases hoverlap : entriesOverlap allow deny <;> simp [hmethod]
    · simp [hmethod]

theorem foundOrphan_eq (allowlist : List GateEntry) (found : Bool) (denylist : List GateEntry) :
    foundOrphan allowlist found denylist =
      (found || denylist.any fun deny => !reachable deny allowlist) := by
  induction denylist generalizing found with
  | nil => simp [foundOrphan]
  | cons deny rest ih =>
    unfold foundOrphan
    rw [List.any_cons, ih]
    cases reachable deny allowlist <;> simp

theorem tableMatches_iff {method : Method} {uri : Bytes} {table : List GateEntry} :
    tableMatches method uri (pathLen uri) table = true ↔
      ∃ e ∈ table, e.method = method ∧ (patternOf e.path).Matches (requestPath uri) := by
  simp [tableMatches_eq, routeUriMatch_request]

theorem reachable_iff {deny : GateEntry} {allowlist : List GateEntry} :
    reachable deny allowlist = true ↔
      ∃ allow ∈ allowlist, allow.method = deny.method ∧ entriesOverlap allow deny = true := by
  simp [reachable_eq]

/-- The check passes when each deny entry is reachable. -/
theorem verifyDenies_iff {g : ProvGate} :
    verifyDenies g = .ok ↔ ∀ deny ∈ g.denylist, reachable deny g.allowlist = true := by
  have horphan := foundOrphan_eq g.allowlist false g.denylist
  unfold verifyDenies
  rw [horphan]
  constructor
  · intro hok deny hdeny
    cases hreach : reachable deny g.allowlist with
    | true => rfl
    | false =>
      have hfound : (false || g.denylist.any fun deny => !reachable deny g.allowlist) = true := by
        rw [Bool.false_or, List.any_eq_true]
        exact ⟨deny, hdeny, by rw [hreach]; rfl⟩
      rw [if_pos hfound] at hok
      cases hok
  · intro hall
    apply if_neg
    rw [Bool.false_or, List.any_eq_true]
    intro hfound
    rcases hfound with ⟨deny, hdeny, hreach⟩
    rw [hall deny hdeny] at hreach
    cases hreach

/-! ## Overlap -/

/-- Two wildcards agree on the shorter prefix when one prefix starts the other. -/
theorem take_min_eq_iff {p q : Bytes} {m n : Nat} (hm : m ≤ p.length) (hn : n ≤ q.length) :
    p.take (min m n) = q.take (min m n) ↔ p.take m <+: q.take n ∨ q.take n <+: p.take m := by
  have hpm : (p.take m).length = m := by rw [List.length_take, Nat.min_eq_left hm]
  have hqn : (q.take n).length = n := by rw [List.length_take, Nat.min_eq_left hn]
  rcases Nat.le_total m n with hle | hle
  · rw [Nat.min_eq_left hle]
    have hcut : q.take m = (q.take n).take m := by
      rw [List.take_take, Nat.min_eq_left hle]
    constructor
    · intro heq
      apply Or.inl
      rw [List.prefix_iff_eq_take, hpm, ← hcut]
      exact heq
    · intro h
      rw [hcut]
      rcases h with hpre | hpre
      · rw [List.prefix_iff_eq_take, hpm] at hpre
        exact hpre
      · have hlen := hpre.length_le
        have hmn : m = n := by omega
        have heq := hpre.eq_of_length (by omega)
        rw [heq, List.take_take, Nat.min_self]
  · rw [Nat.min_eq_right hle]
    have hcut : p.take n = (p.take m).take n := by
      rw [List.take_take, Nat.min_eq_left hle]
    constructor
    · intro heq
      apply Or.inr
      rw [List.prefix_iff_eq_take, hqn, ← hcut]
      exact heq.symm
    · intro h
      rw [hcut]
      rcases h with hpre | hpre
      · have hlen := hpre.length_le
        have hmn : m = n := by omega
        have heq := hpre.eq_of_length (by omega)
        rw [heq, List.take_take, Nat.min_self]
      · rw [List.prefix_iff_eq_take, hqn] at hpre
        exact hpre.symm

/-- The comparison of two entries is overlap of their patterns. -/
theorem entriesOverlap_iff {allow deny : GateEntry} :
    entriesOverlap allow deny = true ↔ (patternOf allow.path).Overlaps (patternOf deny.path) := by
  unfold entriesOverlap
  cases hallow : isWildcard allow.path with
  | false =>
    rw [patternOf_exact hallow]
    cases hdeny : isWildcard deny.path with
    | false =>
      rw [patternOf_exact hdeny]
      change _ ↔ deny.path = allow.path
      simp only [Bool.not_false, Bool.and_self, if_true, Bool.and_eq_true, beq_iff_eq,
        List.take_length]
      constructor
      · intro h
        rw [h.2, h.1, List.take_length]
      · intro heq
        rw [heq]
        exact ⟨rfl, (List.take_length).symm⟩
    | true =>
      simp only [Bool.not_false, Bool.not_true, Bool.and_false, Bool.false_and, Bool.false_eq_true,
        if_false]
      exact routeUriMatch_path _ _
  | true =>
    cases hdeny : isWildcard deny.path with
    | false =>
      rw [patternOf_exact hdeny]
      simp only [Bool.not_true, Bool.and_false, Bool.false_and, Bool.false_eq_true, if_false,
        if_true, routeUriMatch_path]
      rw [patternOf_wildcard hallow]
      exact Iff.rfl
    | true =>
      rw [patternOf_wildcard hallow, patternOf_wildcard hdeny]
      simp only [Bool.not_true, Bool.and_self, Bool.false_eq_true, if_false, if_true, beq_iff_eq]
      exact take_min_eq_iff (Nat.sub_le _ _) (Nat.sub_le _ _)

/-! ## Composition -/

/-- The calls that fill the tables. -/
inductive GateCall where
  | allow (method : Method) (path : Option Bytes)
  | deny (method : Method) (path : Option Bytes)
  deriving Repr, DecidableEq

/-- One call. -/
def ProvGate.call (g : ProvGate) : GateCall → ProvGate
  | .allow method path => (provAllow g method path).2
  | .deny method path => (provDeny g method path).2

/-- A table within its capacity, with wildcards under `/api/` only. -/
def TableOk (cap : Nat) (table : List GateEntry) : Prop :=
  table.length ≤ cap ∧ ∀ e ∈ table, isWildcard e.path = true → wildcardInApiScope e.path = true

theorem tableOk_addEntry {cap : Nat} {table : List GateEntry} (h : TableOk cap table)
    (method : Method) (path : Option Bytes) : TableOk cap (addEntry cap table method path).2 := by
  unfold addEntry
  cases path with
  | none => exact h
  | some path =>
    dsimp only
    split
    · exact h
    · rename_i hscope
      split
      · exact h
      · rename_i hroom
        constructor
        · rw [List.length_append, List.length_singleton]
          omega
        · intro e he hwild
          rcases List.mem_append.mp he with hold | hnew
          · exact h.2 e hold hwild
          · rw [List.mem_singleton.mp hnew] at hwild ⊢
            simp only [hwild, Bool.true_and, Bool.not_eq_true', Bool.not_eq_false] at hscope
            exact hscope

/-- The patterns `/api/*` and `/*`. -/
def apiThenAll : List GateCall :=
  [.allow .get (some [47, 97, 112, 105, 47, 42]), .deny .get (some [47, 42])]

/-- A byte of a C string that starts no query string. -/
def PathByte (b : UInt8) : Prop :=
  b ≠ 63 ∧ b ≠ 0

/-- The entry is free of question marks. -/
def GateEntry.Plain (e : GateEntry) : Prop :=
  ∀ b ∈ e.path, PathByte b

theorem text_patternOf {path : Bytes} {P : UInt8 → Prop} (h : ∀ b ∈ path, P b) :
    ∀ b ∈ (patternOf path).text, P b := by
  unfold patternOf
  split
  · intro b hb
    exact h b (List.mem_of_mem_take hb)
  · exact h

theorem requestPath_of_plain {uri : Bytes} (h : ∀ b ∈ uri, PathByte b) :
    requestPath uri = uri := by
  unfold requestPath
  rw [List.takeWhile_eq_self_iff]
  intro b hb
  exact decide_eq_true (h b hb).1

theorem gateAllow_iff {disabled : Bool} {g : ProvGate} (hactive : gateIsActive disabled g = true)
    {method : Method} {uri : Bytes} :
    gateAllow disabled g true method (some uri) = true ↔
      (∃ e ∈ g.allowlist, e.method = method ∧ (patternOf e.path).Matches (requestPath uri)) ∧
        ¬ ∃ e ∈ g.denylist, e.method = method ∧ (patternOf e.path).Matches (requestPath uri) := by
  have henabled : disabled = false := by
    cases disabled with
    | false => rfl
    | true => cases hactive
  rw [← tableMatches_iff, ← tableMatches_iff]
  unfold gateAllow
  rw [henabled]
  dsimp only
  cases tableMatches method uri (pathLen uri) g.allowlist with
  | false => simp
  | true => simp

/-- The gate with the allow table alone, while provisioning. -/
def ProvGate.allowOnly (g : ProvGate) : ProvGate where
  allowlist := g.allowlist
  denylist := []
  activeFn := some true

/-- The same with one deny entry. -/
def ProvGate.allowExcept (g : ProvGate) (deny : GateEntry) : ProvGate where
  allowlist := g.allowlist
  denylist := [deny]
  activeFn := some true

/-- A request that the allow table alone admits and that the entry blocks. -/
def ProvGate.Blocks (g : ProvGate) (deny : GateEntry) (uri : Bytes) : Prop :=
  gateAllow false g.allowOnly true deny.method (some uri) = true ∧
    gateAllow false (g.allowExcept deny) true deny.method (some uri) = false

theorem blocks_iff {g : ProvGate} {deny : GateEntry} {uri : Bytes} :
    g.Blocks deny uri ↔
      (∃ e ∈ g.allowlist, e.method = deny.method ∧
          (patternOf e.path).Matches (requestPath uri)) ∧
        (patternOf deny.path).Matches (requestPath uri) := by
  have hallow := @gateAllow_iff false g.allowOnly rfl deny.method uri
  have hexcept := @gateAllow_iff false (g.allowExcept deny) rfl deny.method uri
  unfold ProvGate.Blocks
  rw [hallow, ← Bool.not_eq_true, hexcept]
  simp only [ProvGate.allowOnly, ProvGate.allowExcept, List.not_mem_nil, List.mem_singleton]
  constructor
  · intro h
    rcases h with ⟨⟨hadmits, _⟩, hblocked⟩
    constructor
    · exact hadmits
    · by_contra hno
      apply hblocked
      constructor
      · exact hadmits
      · intro hdeny
        rcases hdeny with ⟨e, rfl, _, hmatch⟩
        exact hno hmatch
  · intro h
    rcases h with ⟨hadmits, hmatch⟩
    constructor
    · constructor
      · exact hadmits
      · intro hnone
        rcases hnone with ⟨_, hfalse, _⟩
        exact hfalse
    · intro hopen
      exact hopen.2 ⟨deny, rfl, rfl, hmatch⟩

/-- An entry is reachable exactly when it blocks some request. -/
theorem reachable_iff_blocks {g : ProvGate} {deny : GateEntry}
    (hallow : ∀ e ∈ g.allowlist, e.Plain) (hdeny : deny.Plain) :
    reachable deny g.allowlist = true ↔ ∃ uri, 0 ∉ uri ∧ g.Blocks deny uri := by
  rw [reachable_iff]
  constructor
  · intro h
    rcases h with ⟨e, he, hmethod, hoverlap⟩
    have hcommon := PrefixPattern.exists_common_word (entriesOverlap_iff.mp hoverlap)
      (text_patternOf (hallow e he)) (text_patternOf hdeny)
    rcases hcommon with ⟨uri, hplain, hadmits, hblocks⟩
    refine ⟨uri, fun hnul => (hplain 0 hnul).2 rfl, blocks_iff.mpr ?_⟩
    rw [requestPath_of_plain hplain]
    exact ⟨⟨e, he, hmethod, hadmits⟩, hblocks⟩
  · intro h
    rcases h with ⟨uri, _, hblocked⟩
    rcases blocks_iff.mp hblocked with ⟨⟨e, he, hmethod, hadmits⟩, hblocks⟩
    exact ⟨e, he, hmethod, entriesOverlap_iff.mpr (PrefixPattern.overlaps_of_matches hadmits hblocks)⟩

theorem tableMatches_perm {method : Method} {uri : Bytes} {upto : Nat}
    {table table' : List GateEntry} (h : table'.Perm table) :
    tableMatches method uri upto table' = tableMatches method uri upto table := by
  rw [tableMatches_eq, tableMatches_eq]
  exact h.any_eq

/--
The check passes exactly when every deny entry blocks some request that the allow table alone
would admit, and the gate is the union of the allow entries less that of the deny entries,
whatever their order.
-/
theorem verify_denies_exact {g : ProvGate} (hallow : ∀ e ∈ g.allowlist, e.Plain)
    (hdeny : ∀ e ∈ g.denylist, e.Plain) :
    (verifyDenies g = .ok ↔ ∀ deny ∈ g.denylist, ∃ uri, 0 ∉ uri ∧ g.Blocks deny uri) ∧
    (∀ disabled, gateIsActive disabled g = true → ∀ method uri,
      (gateAllow disabled g true method (some uri) = true ↔
        (∃ e ∈ g.allowlist, e.method = method ∧ (patternOf e.path).Matches (requestPath uri)) ∧
          ¬ ∃ e ∈ g.denylist, e.method = method ∧
            (patternOf e.path).Matches (requestPath uri))) ∧
    (∀ g' : ProvGate, g'.allowlist.Perm g.allowlist → g'.denylist.Perm g.denylist →
      ∀ disabled active method uri,
        gateAllow disabled g' active method uri = gateAllow disabled g active method uri) := by
  constructor
  · rw [verifyDenies_iff]
    exact forall₂_congr fun deny hmem => reachable_iff_blocks hallow (hdeny deny hmem)
  constructor
  · intro disabled hactive method uri
    exact gateAllow_iff hactive
  · intro g' hpallow hpdeny disabled active method uri
    unfold gateAllow
    cases uri with
    | none => rfl
    | some uri =>
      dsimp only
      rw [tableMatches_perm hpallow, tableMatches_perm hpdeny]

/-- A wildcard allow entry with a deny entry under it, and a deny wildcard above an exact one. -/
def diagGate : ProvGate where
  -- `/api/*`, `/save`; `/api/diag`, `/api/d*`
  allowlist :=
    [{ method := .get, path := [47, 97, 112, 105, 47, 42] },
      { method := .post, path := [47, 115, 97, 118, 101] }]
  denylist :=
    [{ method := .get, path := [47, 97, 112, 105, 47, 100, 105, 97, 103] },
      { method := .get, path := [47, 97, 112, 105, 47, 100, 42] }]
  activeFn := some true

theorem verify_denies_exact_diag :
    verifyDenies diagGate = .ok ∧
      ∀ deny ∈ diagGate.denylist, ∃ uri, 0 ∉ uri ∧ diagGate.Blocks deny uri := by
  have hallow : ∀ e ∈ diagGate.allowlist, e.Plain := by
    simp [diagGate, GateEntry.Plain, PathByte]
  have hdeny : ∀ e ∈ diagGate.denylist, e.Plain := by
    simp [diagGate, GateEntry.Plain, PathByte]
  have hok : verifyDenies diagGate = .ok := by decide
  exact ⟨hok, (verify_denies_exact hallow hdeny).1.mp hok⟩

end HttpServer
end Breadboard
