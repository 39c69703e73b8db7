import Breadboard.Core.Basics

/-!
# bb_http_server - API dispatch table

The `(method, path) -> handler` table behind `/api/*`: admission with the
composition-time exclusion and the duplicate safeguard, and the two-pass lookup.
Handlers are opaque.
-/

namespace Breadboard
namespace HttpServer

/-- `bb_http_method_t`. -/
inductive Method where
  | get
  | post
  | patch
  | put
  | delete
  | options
  deriving Repr, DecidableEq

/-! ## Route matching -/

/-- The byte `'*'`. -/
def star : UInt8 := 42

/-- The path's last byte is `'*'`. -/
def isWildcard (path : Bytes) : Bool :=
  path.getLast? == some star

/-- `bb_route_uri_match`. -/
def routeUriMatch (pattern uri : Bytes) (matchUpto : Nat) : Bool :=
  let plen := pattern.length
  if isWildcard pattern then
    let prefixLen := plen - 1
    if matchUpto < prefixLen then false
    else uri.take prefixLen == pattern.take prefixLen
  else if plen ≠ matchUpto then false
  else uri.take matchUpto == pattern.take matchUpto

/-! ## The table -/

section

variable {H : Type}

/-- The arguments of `bb_dispatch_api_add`. -/
structure Route (H : Type) where
  method : Method
  path : Option Bytes
  handler : H
  deriving Repr, DecidableEq

/-- `bb_dispatch_api_entry_t`. -/
structure DispatchApiEntry (H : Type) where
  method : Method
  path : Option Bytes
  handler : H
  isWildcard : Bool
  prefixLen : Nat
  deriving Repr, DecidableEq

/-- `bb_dispatch_api_result_t`, with the handler that a hit stores. -/
inductive DispatchApiResult (H : Type) where
  | hit (handler : H)
  | methodMismatch
  | miss
  deriving Repr, DecidableEq

/-- `s_dispatch`, cut to its count. -/
abbrev Table (H : Type) := List (DispatchApiEntry H)

/-- The exclusion table: methods with paths. -/
abbrev Exclusions := List (Method × Bytes)

/-- `route_excluded`. -/
def routeExcluded (excluded : Exclusions) (method : Method) (path : Option Bytes) : Bool :=
  match path with
  | none => false
  | some path =>
    excluded.any fun e => e.1 == method && routeUriMatch e.2 path path.length

/-- `bb_dispatch_api_add`. -/
def dispatchApiAdd (cap : Nat) (excluded : Exclusions) (t : Table H) (r : Route H) :
    BbErr × Table H :=
  if routeExcluded excluded r.method r.path then (.ok, t)
  else if cap ≤ t.length then (.noSpace, t)
  else if r.path.isSome && t.any fun e => e.method == r.method && e.path == r.path then
    (.invalidState, t)
  else
    let plen := (r.path.getD []).length
    let wildcard := r.path.any isWildcard
    (.ok, t ++
      [{ method := r.method
         path := r.path
         handler := r.handler
         isWildcard := wildcard
         prefixLen := if wildcard then plen - 1 else 0 }])

/-- The length of the path before the query string. -/
def pathLen (uri : Bytes) : Nat :=
  (uri.takeWhile (· ≠ 63)).length

/-- The result of the exact pass: a handler, or whether the path was claimed. -/
inductive ExactPass (H : Type) where
  | found (handler : H)
  | passed (exactPathMatched : Bool)
  deriving Repr, DecidableEq

/-- The loop of pass 1 over the entries left. -/
def exactPass (method : Method) (uri : Bytes) (upto : Nat) : Bool → Table H → ExactPass H
  | matched, [] => .passed matched
  | matched, e :: rest =>
    if e.isWildcard then exactPass method uri upto matched rest
    else
      match e.path with
      | none => exactPass method uri upto matched rest
      | some path =>
        if !routeUriMatch path uri upto then exactPass method uri upto matched rest
        else if e.method = method then .found e.handler
        else exactPass method uri upto true rest

/-- The locals of pass 2 once some wildcard has matched. -/
structure Best (H : Type) where
  prefixLen : Nat
  methodOk : Bool
  handler : H
  deriving Repr, DecidableEq

/-- The loop of pass 2 over the entries left. -/
def wildcardPass (method : Method) (uri : Bytes) (upto : Nat) :
    Option (Best H) → Table H → Option (Best H)
  | best, [] => best
  | best, e :: rest =>
    if !e.isWildcard then wildcardPass method uri upto best rest
    else if !routeUriMatch (e.path.getD []) uri upto then wildcardPass method uri upto best rest
    else
      let better : Best H :=
        { prefixLen := e.prefixLen
          methodOk := e.method = method
          handler := e.handler }
      match best with
      | none => wildcardPass method uri upto (some better) rest
      | some b =>
        -- ties keep the first found
        if b.prefixLen < e.prefixLen then wildcardPass method uri upto (some better) rest
        else wildcardPass method uri upto best rest

/-- `bb_dispatch_api_lookup`. -/
def dispatchApiLookup (t : Table H) (method : Method) (uri : Bytes) : DispatchApiResult H :=
  let upto := pathLen uri
  match exactPass method uri upto false t with
  | .found handler => .hit handler
  | .passed true => .methodMismatch
  | .passed false =>
    match wildcardPass method uri upto none t with
    | none => .miss
    | some best => if !best.methodOk then .methodMismatch else .hit best.handler

/-- The table after adding routes in order. -/
def dispatchApiAddAll (cap : Nat) (excluded : Exclusions) (routes : List (Route H)) : Table H :=
  routes.foldl (fun t r => (dispatchApiAdd cap excluded t r).2) []

end

end HttpServer
end Breadboard
