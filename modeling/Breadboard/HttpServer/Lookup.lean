import Mathlib.Data.List.Pairwise
import Mathlib.Data.Nat.Find
import Breadboard.HttpServer.Dispatch

/-!
# bb_http_server - what the API dispatch table answers

The table holds the served routes in the order they were added.  An exact route
claims its path under every method; otherwise the longest matching wildcard
decides, and among the routes on one wildcard path the one added first does.

Main results:

- Theorem `lookup_answers`: the answer, in terms of the routes.
- Theorem `lookup_longest_first_added`: the answer and what it depends on.
-/

namespace Breadboard
namespace HttpServer

variable {H : Type}

/-! ## Routes and paths -/

/-- The path of a request: the URI before its query string. -/
def requestPath (uri : Bytes) : Bytes :=
  uri.takeWhile (· ≠ 63)

/-- The routes that the exclusion table lets through. -/
def served (excluded : Exclusions) (routes : List (Route H)) : List (Route H) :=
  routes.filter fun r => !routeExcluded excluded r.method r.path

namespace Route

/-- The route is for exactly this path. -/
def IsExact (r : Route H) (p : Bytes) : Prop :=
  r.path = some p ∧ isWildcard p = false

/-- The route is for every path with this prefix, and `p` is one. -/
def Covers (r : Route H) (pre p : Bytes) : Prop :=
  r.path = some (pre ++ [star]) ∧ pre <+: p

/-- The stored entry. -/
def entry (r : Route H) : DispatchApiEntry H where
  method := r.method
  path := r.path
  handler := r.handler
  isWildcard := r.path.any HttpServer.isWildcard
  prefixLen := if r.path.any HttpServer.isWildcard then (r.path.getD []).length - 1 else 0

end Route

/-- The first route added on the wildcard path of a prefix. -/
def firstOn (routes : List (Route H)) (pre : Bytes) : Option (Route H) :=
  routes.find? fun r => r.path == some (pre ++ [star])

/-- No route on the list covers the path with a longer prefix. -/
def IsLongest (routes : List (Route H)) (p pre : Bytes) : Prop :=
  ∀ r ∈ routes, ∀ pre', r.Covers pre' p → pre'.length ≤ pre.length

/-- What the routes make the answer for a request. -/
structure Answers (routes : List (Route H)) (method : Method) (p : Bytes)
    (answer : DispatchApiResult H) : Prop where
  exact_hit : ∀ r ∈ routes, r.IsExact p → r.method = method → answer = .hit r.handler
  exact_mismatch : (∃ r ∈ routes, r.IsExact p) →
    (∀ r ∈ routes, r.IsExact p → r.method ≠ method) → answer = .methodMismatch
  wildcard : (∀ r ∈ routes, ¬ r.IsExact p) → ∀ r ∈ routes, ∀ pre, r.Covers pre p →
    IsLongest routes p pre → firstOn routes pre = some r →
      answer = if r.method = method then .hit r.handler else .methodMismatch
  miss : (∀ r ∈ routes, ¬ r.IsExact p ∧ ∀ pre, ¬ r.Covers pre p) → answer = .miss

/-! ## Adding routes -/

section Adding

variable {cap : Nat} {excluded : Exclusions} {routes : List (Route H)}

/-- Routes on one path have different methods. -/
def Distinct (routes : List (Route H)) : Prop :=
  routes.Pairwise fun r q => ¬ (r.method = q.method ∧ r.path = q.path)

theorem dispatchApiAdd_entry (t : List (Route H)) (r : Route H)
    (hserved : routeExcluded excluded r.method r.path = false) (hroom : t.length < cap)
    (hnew : ∀ q ∈ t, ¬ (q.method = r.method ∧ q.path = r.path)) :
    dispatchApiAdd cap excluded (t.map Route.entry) r = (.ok, (t ++ [r]).map Route.entry) := by
  have hdup : (t.map Route.entry).any (fun e => e.method == r.method && e.path == r.path) =
      false := by
    rw [List.any_map, List.any_eq_false]
    intro q hq hboth
    simp only [Function.comp_apply, Bool.and_eq_true, beq_iff_eq] at hboth
    exact hnew q hq hboth
  unfold dispatchApiAdd
  rw [hserved, hdup, List.length_map]
  simp [Nat.not_le.mpr hroom, Route.entry]

theorem dispatchApiAdd_excluded (t : Table H) (r : Route H)
    (hexcluded : routeExcluded excluded r.method r.path = true) :
    dispatchApiAdd cap excluded t r = (.ok, t) := by
  simp [dispatchApiAdd, hexcluded]

/-- The table is the list of served routes. -/
theorem addAll_eq (hdistinct : Distinct routes)
    (hfit : (served excluded routes).length ≤ cap) :
    dispatchApiAddAll cap excluded routes = (served excluded routes).map Route.entry := by
  suffices h : ∀ done : List (Route H), Distinct (done ++ routes) →
      (done ++ served excluded routes).length ≤ cap →
      routes.foldl (fun t r => (dispatchApiAdd cap excluded t r).2) (done.map Route.entry) =
        (done ++ served excluded routes).map Route.entry by
    exact h [] hdistinct hfit
  clear hdistinct hfit
  induction routes with
  | nil =>
    intro done _ _
    simp [served]
  | cons r routes ih =>
    intro done hdistinct hfit
    rw [List.foldl_cons]
    cases hexcluded : routeExcluded excluded r.method r.path with
    | true =>
      have hserved : served excluded (r :: routes) = served excluded routes := by
        simp [served, hexcluded]
      rw [dispatchApiAdd_excluded _ _ hexcluded, hserved]
      rw [hserved] at hfit
      exact ih done (hdistinct.sublist (by simp)) hfit
    | false =>
      have hserved : served excluded (r :: routes) = r :: served excluded routes := by
        simp [served, hexcluded]
      rw [hserved] at hfit ⊢
      have hnew : ∀ q ∈ done, ¬ (q.method = r.method ∧ q.path = r.path) := fun q hq =>
        (List.pairwise_append.mp hdistinct).2.2 q hq r (List.mem_cons_self ..)
      have hroom : done.length < cap := by
        rw [List.length_append, List.length_cons] at hfit
        omega
      rw [dispatchApiAdd_entry done r hexcluded hroom hnew]
      rw [List.append_cons done r routes] at hdistinct
      rw [List.append_cons done r (served excluded routes)] at hfit ⊢
      exact ih (done ++ [r]) hdistinct hfit

end Adding

/-! ## Matching -/

section Matching

variable {uri : Bytes} {r : Route H}

theorem length_requestPath (uri : Bytes) : (requestPath uri).length = pathLen uri :=
  rfl

theorem take_pathLen (uri : Bytes) : uri.take (pathLen uri) = requestPath uri :=
  (List.prefix_iff_eq_take.mp (List.takeWhile_prefix _)).symm

theorem isWildcard_iff {path : Bytes} : isWildcard path = true ↔ ∃ pre, path = pre ++ [star] := by
  rw [isWildcard, beq_iff_eq]
  exact List.getLast?_eq_some_iff

theorem isWildcard_append_star (pre : Bytes) : isWildcard (pre ++ [star]) = true :=
  isWildcard_iff.mpr ⟨pre, rfl⟩

/-- On a pattern without a trailing star the match is equality. -/
theorem routeUriMatch_exact {path : Bytes} (h : isWildcard path = false) :
    routeUriMatch path uri (pathLen uri) = true ↔ path = requestPath uri := by
  unfold routeUriMatch
  simp only [h, Bool.false_eq_true, if_false, ← take_pathLen uri]
  split
  · rename_i hne
    simp only [Bool.false_eq_true, false_iff]
    rintro rfl
    exact hne (by rw [take_pathLen, length_requestPath])
  · rename_i heq
    rw [beq_iff_eq, ← Decidable.not_not.mp heq, List.take_length]
    exact eq_comm

/-- On a wildcard the match is the prefix relation. -/
theorem routeUriMatch_wildcard (pre : Bytes) :
    routeUriMatch (pre ++ [star]) uri (pathLen uri) = true ↔ pre <+: requestPath uri := by
  have hlen : (pre ++ [star]).length - 1 = pre.length := by simp
  unfold routeUriMatch
  simp only [isWildcard_append_star, if_true, hlen, List.take_left']
  split
  · rename_i hlt
    simp only [Bool.false_eq_true, false_iff]
    intro hpre
    have := hpre.length_le
    rw [length_requestPath] at this
    omega
  · rename_i hle
    rw [beq_iff_eq, List.prefix_iff_eq_take, ← take_pathLen, List.take_take,
      Nat.min_eq_left (Nat.le_of_not_lt hle)]
    exact eq_comm

/-- The entry is one that pass 1 accepts. -/
def exactMatch (uri : Bytes) (e : DispatchApiEntry H) : Bool :=
  !e.isWildcard && e.path.any fun path => routeUriMatch path uri (pathLen uri)

/-- The entry is one that pass 2 considers. -/
def wildMatch (uri : Bytes) (e : DispatchApiEntry H) : Bool :=
  e.isWildcard && routeUriMatch (e.path.getD []) uri (pathLen uri)

theorem exactMatch_entry : exactMatch uri r.entry = true ↔ r.IsExact (requestPath uri) := by
  unfold exactMatch Route.entry Route.IsExact
  cases hpath : r.path with
  | none => simp
  | some path =>
    simp only [Option.any_some, Bool.and_eq_true, Bool.not_eq_true', Option.some.injEq]
    constructor
    · rintro ⟨hwild, hmatch⟩
      have heq := (routeUriMatch_exact hwild).mp hmatch
      exact ⟨heq, heq ▸ hwild⟩
    · rintro ⟨rfl, hwild⟩
      exact ⟨hwild, (routeUriMatch_exact hwild).mpr rfl⟩

theorem wildMatch_entry :
    wildMatch uri r.entry = true ↔ ∃ pre, r.Covers pre (requestPath uri) := by
  unfold wildMatch Route.entry Route.Covers
  cases hpath : r.path with
  | none => simp
  | some path =>
    simp only [Option.any_some, Option.getD_some, Bool.and_eq_true, Option.some.injEq]
    constructor
    · rintro ⟨hwild, hmatch⟩
      obtain ⟨pre, rfl⟩ := isWildcard_iff.mp hwild
      exact ⟨pre, rfl, (routeUriMatch_wildcard pre).mp hmatch⟩
    · rintro ⟨pre, rfl, hpre⟩
      exact ⟨isWildcard_append_star pre, (routeUriMatch_wildcard pre).mpr hpre⟩

theorem prefixLen_entry {pre p : Bytes} (h : r.Covers pre p) : r.entry.prefixLen = pre.length := by
  simp [Route.entry, h.1, isWildcard_append_star]

end Matching

/-! ## The two passes -/

section Passes

variable {method : Method} {uri : Bytes}

theorem exactPass_eq (matched : Bool) (t : Table H) :
    exactPass method uri (pathLen uri) matched t =
      match t.find? (fun e => exactMatch uri e && e.method == method) with
      | some e => .found e.handler
      | none => .passed (matched || t.any (exactMatch uri)) := by
  induction t generalizing matched with
  | nil => simp [exactPass]
  | cons e t ih =>
    rw [exactPass, List.find?_cons, List.any_cons]
    cases hwild : e.isWildcard with
    | true => simp [ih, exactMatch, hwild]
    | false =>
      cases hpath : e.path with
      | none => simp [ih, exactMatch, hpath]
      | some path =>
        cases hmatch : routeUriMatch path uri (pathLen uri) with
        | false => simp [ih, exactMatch, hwild, hpath, hmatch]
        | true =>
          by_cases hmethod : e.method = method
          · simp [exactMatch, hwild, hpath, hmatch, hmethod]
          · have hbeq : (e.method == method) = false := beq_false_of_ne hmethod
            simp [ih, exactMatch, hwild, hpath, hmatch, hmethod, hbeq]

/-- The locals that an entry of the table stands for. -/
def bestOf (method : Method) (e : DispatchApiEntry H) : Best H where
  prefixLen := e.prefixLen
  methodOk := e.method = method
  handler := e.handler

/-- The entry is the first of the longest that pass 2 considers. -/
def FirstLongest (uri : Bytes) (t : Table H) (e : DispatchApiEntry H) : Prop :=
  wildMatch uri e = true ∧ ∃ before after, t = before ++ e :: after ∧
    (∀ x ∈ before, wildMatch uri x = true → x.prefixLen < e.prefixLen) ∧
    ∀ x ∈ after, wildMatch uri x = true → x.prefixLen ≤ e.prefixLen

/-- Pass 2 is the first maximum of the prefix lengths. -/
theorem wildcardPass_spec (t : Table H) (best : Option (Best H)) :
    (wildcardPass method uri (pathLen uri) best t = best ∧
      ∀ x ∈ t, wildMatch uri x = true → ∃ b, best = some b ∧ x.prefixLen ≤ b.prefixLen) ∨
    (∃ e, wildcardPass method uri (pathLen uri) best t = some (bestOf method e) ∧
      FirstLongest uri t e ∧ ∀ b, best = some b → b.prefixLen < e.prefixLen) := by
  induction t generalizing best with
  | nil => exact .inl ⟨rfl, by simp⟩
  | cons e t ih =>
    cases hmatch : wildMatch uri e with
    | false =>
      have hskip : wildcardPass method uri (pathLen uri) best (e :: t) =
          wildcardPass method uri (pathLen uri) best t := by
        rw [wildcardPass]
        unfold wildMatch at hmatch
        cases hwild : e.isWildcard <;> simp_all
      rw [hskip]
      rcases ih best with ⟨hsame, hall⟩ | ⟨f, hf, ⟨hfm, before, after, rfl, hb, ha⟩, hbest⟩
      · refine .inl ⟨hsame, fun x hx hxm => ?_⟩
        rcases List.mem_cons.mp hx with rfl | hx
        · rw [hmatch] at hxm
          cases hxm
        · exact hall x hx hxm
      · refine .inr ⟨f, hf, ⟨hfm, e :: before, after, rfl, fun x hx hxm => ?_, ha⟩, hbest⟩
        rcases List.mem_cons.mp hx with rfl | hx
        · rw [hmatch] at hxm
          cases hxm
        · exact hb x hx hxm
    | true =>
      -- a better entry takes over, and the rest of the table is compared with it
      have htakes (hlt : ∀ b, best = some b → b.prefixLen < e.prefixLen) :
          wildcardPass method uri (pathLen uri) best (e :: t) =
            wildcardPass method uri (pathLen uri) (some (bestOf method e)) t := by
        rw [wildcardPass]
        unfold wildMatch at hmatch
        rw [Bool.and_eq_true] at hmatch
        cases best with
        | none => simp [hmatch, bestOf]
        | some b => simp [hmatch, bestOf, hlt b rfl]
      have hstays (b : Best H) (hb : best = some b) (hle : e.prefixLen ≤ b.prefixLen) :
          wildcardPass method uri (pathLen uri) best (e :: t) =
            wildcardPass method uri (pathLen uri) best t := by
        subst hb
        rw [wildcardPass]
        unfold wildMatch at hmatch
        rw [Bool.and_eq_true] at hmatch
        simp [hmatch, Nat.not_lt.mpr hle]
      by_cases hlt : ∀ b, best = some b → b.prefixLen < e.prefixLen
      · rw [htakes hlt]
        rcases ih (some (bestOf method e)) with
          ⟨hsame, hall⟩ | ⟨f, hf, ⟨hfm, before, after, rfl, hb, ha⟩, hbest⟩
        · refine .inr ⟨e, hsame, ⟨hmatch, [], t, rfl, by simp, fun x hx hxm => ?_⟩, hlt⟩
          obtain ⟨b, hb, hle⟩ := hall x hx hxm
          cases hb
          exact hle
        · have hef : e.prefixLen < f.prefixLen := hbest _ rfl
          refine .inr ⟨f, hf, ⟨hfm, e :: before, after, rfl, fun x hx hxm => ?_, ha⟩, ?_⟩
          · rcases List.mem_cons.mp hx with rfl | hx
            · exact hef
            · exact hb x hx hxm
          · exact fun b hb => Nat.lt_trans (hlt b hb) hef
      · push Not at hlt
        obtain ⟨b, hb, hle⟩ := hlt
        rw [hstays b hb hle]
        rcases ih best with ⟨hsame, hall⟩ | ⟨f, hf, ⟨hfm, before, after, rfl, hbe, ha⟩, hbest⟩
        · refine .inl ⟨hsame, fun x hx hxm => ?_⟩
          rcases List.mem_cons.mp hx with rfl | hx
          · exact ⟨b, hb, hle⟩
          · exact hall x hx hxm
        · refine .inr ⟨f, hf, ⟨hfm, e :: before, after, rfl, fun x hx hxm => ?_, ha⟩, hbest⟩
          rcases List.mem_cons.mp hx with rfl | hx
          · exact Nat.lt_of_le_of_lt hle (hbest b hb)
          · exact hbe x hx hxm

end Passes

/-! ## The lookup -/

section Lookup

variable {method : Method} {uri : Bytes} {routes : List (Route H)}

/-- The first longest entry of a table of routes is a first route on a longest prefix. -/
theorem exists_route_of_firstLongest {e : DispatchApiEntry H}
    (h : FirstLongest uri (routes.map Route.entry) e) :
    ∃ r ∈ routes, ∃ pre, e = r.entry ∧ r.Covers pre (requestPath uri) ∧
      IsLongest routes (requestPath uri) pre ∧ firstOn routes pre = some r := by
  obtain ⟨hmatch, before, after, hsplit, hbefore, hafter⟩ := h
  obtain ⟨rs, rs', rfl, rfl, hrest⟩ := List.map_eq_append_iff.mp hsplit
  obtain ⟨r, qs, rfl, rfl, rfl⟩ := List.map_eq_cons_iff.mp hrest
  obtain ⟨pre, hcovers⟩ := wildMatch_entry.mp hmatch
  have hshorter : ∀ q ∈ rs, ∀ pre', q.Covers pre' (requestPath uri) →
      pre'.length < pre.length := by
    intro q hq pre' hq'
    have := hbefore q.entry (List.mem_map_of_mem hq) (wildMatch_entry.mpr ⟨pre', hq'⟩)
    rwa [prefixLen_entry hq', prefixLen_entry hcovers] at this
  refine ⟨r, by simp, pre, rfl, hcovers, fun q hq pre' hq' => ?_, ?_⟩
  · rcases List.mem_append.mp hq with hq | hq
    · exact Nat.le_of_lt (hshorter q hq pre' hq')
    rcases List.mem_cons.mp hq with rfl | hq
    · have hpath := hcovers.1.symm.trans hq'.1
      simp only [Option.some.injEq, List.append_left_inj] at hpath
      rw [hpath]
    · have := hafter q.entry (List.mem_map_of_mem hq) (wildMatch_entry.mpr ⟨pre', hq'⟩)
      rwa [prefixLen_entry hq', prefixLen_entry hcovers] at this
  · have hnone : rs.find? (fun q => q.path == some (pre ++ [star])) = none := by
      rw [List.find?_eq_none]
      intro q hq hpath
      exact Nat.lt_irrefl _ (hshorter q hq pre ⟨beq_iff_eq.mp hpath, hcovers.2⟩)
    rw [firstOn, List.find?_append, hnone, List.find?_cons, hcovers.1]
    simp

/-- Two routes that cover a path with the longest prefix share it. -/
theorem prefix_unique {r q : Route H} {pre pre' p : Bytes} (hr : r ∈ routes) (hq : q ∈ routes)
    (hpre : r.Covers pre p) (hpre' : q.Covers pre' p) (hlong : IsLongest routes p pre)
    (hlong' : IsLongest routes p pre') : pre = pre' := by
  have hlen : pre.length = pre'.length :=
    Nat.le_antisymm (hlong' r hr pre hpre) (hlong q hq pre' hpre')
  rw [List.prefix_iff_eq_take.mp hpre.2, List.prefix_iff_eq_take.mp hpre'.2, hlen]

/-- The answer of the lookup, in terms of the routes. -/
theorem lookup_answers (hdistinct : Distinct routes) :
    Answers routes method (requestPath uri)
      (dispatchApiLookup (routes.map Route.entry) method uri) := by
  unfold dispatchApiLookup
  dsimp only
  rw [exactPass_eq]
  cases hfind : (routes.map Route.entry).find?
      (fun e => exactMatch uri e && e.method == method) with
  | some e =>
    obtain ⟨r, hr, rfl⟩ := List.mem_map.mp (List.mem_of_find?_eq_some hfind)
    have hboth := List.find?_some hfind
    simp only [Bool.and_eq_true, beq_iff_eq, exactMatch_entry] at hboth
    obtain ⟨hexact, hmethod⟩ := hboth
    refine ⟨fun q hq hq' hqm => ?_, fun _ hno => ?_, fun hno => ?_, fun hno => ?_⟩
    · -- one method has one route on the path
      have hsame : r = q := by
        by_contra hne
        have hsym : Std.Symm fun r q : Route H => ¬ (r.method = q.method ∧ r.path = q.path) :=
          ⟨fun a b h hba => h ⟨hba.1.symm, hba.2.symm⟩⟩
        exact hdistinct.forall hr hq hne
          ⟨(show r.method = method from hmethod).trans hqm.symm, hexact.1.trans hq'.1.symm⟩
      rw [← hsame]
      rfl
    · exact absurd hmethod (hno r hr hexact)
    · exact absurd hexact (hno r hr)
    · exact absurd hexact (hno r hr).1
  | none =>
    have hmiss : ∀ r ∈ routes, r.IsExact (requestPath uri) → r.method ≠ method := by
      intro r hr hexact hmethod
      refine List.find?_eq_none.mp hfind r.entry (List.mem_map_of_mem hr) ?_
      simp only [Bool.and_eq_true, beq_iff_eq]
      exact ⟨exactMatch_entry.mpr hexact, hmethod⟩
    dsimp only
    rw [Bool.false_or]
    cases hany : (routes.map Route.entry).any (exactMatch uri) with
    | true =>
      obtain ⟨e, he, hexact⟩ := List.any_eq_true.mp hany
      obtain ⟨r, hr, rfl⟩ := List.mem_map.mp he
      have hr' := exactMatch_entry.mp hexact
      refine ⟨fun q hq hq' hqm => absurd hqm (hmiss q hq hq'), fun _ _ => rfl, fun hno => ?_,
        fun hno => ?_⟩
      · exact absurd hr' (hno r hr)
      · exact absurd hr' (hno r hr).1
    | false =>
      have hnone : ∀ r ∈ routes, ¬ r.IsExact (requestPath uri) := by
        intro r hr hexact
        have := List.any_eq_false.mp hany r.entry (List.mem_map_of_mem hr)
        exact this (exactMatch_entry.mpr hexact)
      dsimp only
      rcases @wildcardPass_spec H method uri (routes.map Route.entry) none with
        ⟨hbest, hall⟩ | ⟨e, hbest, hfirst, -⟩
      · have huncovered : ∀ r ∈ routes, ∀ pre, ¬ r.Covers pre (requestPath uri) := by
          intro r hr pre hcovers
          obtain ⟨b, hb, -⟩ :=
            hall r.entry (List.mem_map_of_mem hr) (wildMatch_entry.mpr ⟨pre, hcovers⟩)
          cases hb
        rw [hbest]
        refine ⟨fun q hq hq' => absurd hq' (hnone q hq), fun ⟨q, hq, hq'⟩ => absurd hq' (hnone q hq),
          fun _ r hr pre hcovers => absurd hcovers (huncovered r hr pre), fun _ => rfl⟩
      · obtain ⟨r, hr, pre, rfl, hcovers, hlong, hon⟩ := exists_route_of_firstLongest hfirst
        rw [hbest]
        refine ⟨fun q hq hq' => absurd hq' (hnone q hq), fun ⟨q, hq, hq'⟩ => absurd hq' (hnone q hq),
          fun _ q hq pre' hcovers' hlong' hon' => ?_, fun hno => ?_⟩
        · have hpre := prefix_unique hr hq hcovers hcovers' hlong hlong'
          rw [← hpre, hon] at hon'
          cases hon'
          simp only [bestOf, Route.entry]
          by_cases hmethod : r.method = method <;> simp [hmethod]
        · exact absurd hcovers ((hno r hr).2 pre)

/-- Some route decides, or none matches. -/
theorem exists_longest (routes : List (Route H)) (p : Bytes)
    (hcovered : ∃ r ∈ routes, ∃ pre, r.Covers pre p) :
    ∃ r ∈ routes, ∃ pre, r.Covers pre p ∧ IsLongest routes p pre ∧
      firstOn routes pre = some r := by
  have hbound : ∀ n, (∃ r ∈ routes, ∃ pre, r.Covers pre p ∧ pre.length = n) → n ≤ p.length := by
    rintro n ⟨r, -, pre, hcovers, rfl⟩
    exact hcovers.2.length_le
  obtain ⟨r, hr, pre, hcovers⟩ := hcovered
  classical
  obtain ⟨q, hq, pre', hcovers', hlen⟩ := Nat.findGreatest_spec (hbound _ ⟨r, hr, pre, hcovers, rfl⟩)
    (P := fun n => ∃ r ∈ routes, ∃ pre, r.Covers pre p ∧ pre.length = n) ⟨r, hr, pre, hcovers, rfl⟩
  have hlong : IsLongest routes p pre' := by
    intro x hx pre'' hx'
    rw [hlen]
    exact Nat.le_findGreatest (hbound _ ⟨x, hx, pre'', hx', rfl⟩) ⟨x, hx, pre'', hx', rfl⟩
  cases hfirst : firstOn routes pre' with
  | none =>
    exact absurd (beq_iff_eq.mpr hcovers'.1) (List.find?_eq_none.mp hfirst q hq)
  | some x =>
    have hx := List.mem_of_find?_eq_some hfirst
    have hpath := List.find?_some (p := fun r : Route H => r.path == some (pre' ++ [star])) hfirst
    exact ⟨x, hx, pre', ⟨beq_iff_eq.mp hpath, hcovers'.2⟩, hlong, hfirst⟩

end Lookup

/-- Routes with the same members and the same first routes have the same answers. -/
theorem Answers.unique {method : Method} {p : Bytes} {routes routes' : List (Route H)}
    {a a' : DispatchApiResult H} (h : Answers routes method p a) (h' : Answers routes' method p a')
    (hmem : ∀ r, r ∈ routes ↔ r ∈ routes') (hfirst : ∀ pre, firstOn routes pre = firstOn routes' pre) :
    a = a' := by
  by_cases hexact : ∃ r ∈ routes, r.IsExact p
  · by_cases hmethod : ∃ r ∈ routes, r.IsExact p ∧ r.method = method
    · obtain ⟨r, hr, hr', hrm⟩ := hmethod
      rw [h.exact_hit r hr hr' hrm, h'.exact_hit r ((hmem r).mp hr) hr' hrm]
    · have hno : ∀ r ∈ routes, r.IsExact p → r.method ≠ method :=
        fun r hr hr' hrm => hmethod ⟨r, hr, hr', hrm⟩
      obtain ⟨r, hr, hr'⟩ := hexact
      rw [h.exact_mismatch ⟨r, hr, hr'⟩ hno,
        h'.exact_mismatch ⟨r, (hmem r).mp hr, hr'⟩ fun q hq => hno q ((hmem q).mpr hq)]
  · have hnone : ∀ r ∈ routes, ¬ r.IsExact p := fun r hr hr' => hexact ⟨r, hr, hr'⟩
    have hnone' : ∀ r ∈ routes', ¬ r.IsExact p := fun r hr => hnone r ((hmem r).mpr hr)
    by_cases hcovered : ∃ r ∈ routes, ∃ pre, r.Covers pre p
    · obtain ⟨r, hr, pre, hcovers, hlong, hon⟩ := exists_longest routes p hcovered
      rw [h.wildcard hnone r hr pre hcovers hlong hon,
        h'.wildcard hnone' r ((hmem r).mp hr) pre hcovers
          (fun q hq => hlong q ((hmem q).mpr hq)) (hfirst pre ▸ hon)]
    · have huncovered : ∀ r ∈ routes, ∀ pre, ¬ r.Covers pre p :=
        fun r hr pre hcovers => hcovered ⟨r, hr, pre, hcovers⟩
      rw [h.miss fun r hr => ⟨hnone r hr, huncovered r hr⟩,
        h'.miss fun r hr => ⟨hnone' r hr, huncovered r ((hmem r).mpr hr)⟩]

/--
The table answers from the served routes alone: an exact route decides first, then
the longest matching wildcard, and of the routes on that wildcard the one added
first.  Two orders of adding that agree on the latter give the same answers.
-/
theorem lookup_longest_first_added (cap : Nat) (excluded : Exclusions) (routes : List (Route H))
    (hdistinct : Distinct routes) (hfit : (served excluded routes).length ≤ cap) (method : Method)
    (uri : Bytes) :
    Answers (served excluded routes) method (requestPath uri)
      (dispatchApiLookup (dispatchApiAddAll cap excluded routes) method uri) ∧
    ∀ routes', routes'.Perm routes →
      (∀ pre, firstOn (served excluded routes') pre = firstOn (served excluded routes) pre) →
      dispatchApiLookup (dispatchApiAddAll cap excluded routes') method uri =
        dispatchApiLookup (dispatchApiAddAll cap excluded routes) method uri := by
  have hanswers : ∀ rs : List (Route H), Distinct rs → (served excluded rs).length ≤ cap →
      Answers (served excluded rs) method (requestPath uri)
        (dispatchApiLookup (dispatchApiAddAll cap excluded rs) method uri) := by
    intro rs hd hf
    rw [addAll_eq hd hf]
    exact lookup_answers (hd.sublist List.filter_sublist)
  refine ⟨hanswers routes hdistinct hfit, fun routes' hperm hfirst => ?_⟩
  have hdistinct' : Distinct routes' := by
    have hsym : ∀ {r q : Route H}, ¬ (r.method = q.method ∧ r.path = q.path) →
        ¬ (q.method = r.method ∧ q.path = r.path) := fun h h' => h ⟨h'.1.symm, h'.2.symm⟩
    exact (hperm.pairwise_iff hsym).mpr hdistinct
  have hserved : (served excluded routes').Perm (served excluded routes) := hperm.filter _
  have hfit' : (served excluded routes').length ≤ cap := hserved.length_eq ▸ hfit
  exact (hanswers routes' hdistinct' hfit').unique (hanswers routes hdistinct hfit)
    (fun r => hserved.mem_iff) hfirst

/-- Two wildcards `/x/*` under two methods, and a query: the first added decides. -/
theorem lookup_longest_first_added_wildcards :
    dispatchApiLookup (dispatchApiAddAll 64 []
        [⟨.get, some [47, 120, 47, 42], 1⟩, ⟨.get, some [47, 120], 2⟩]) .get [47, 120, 47, 121, 63] =
        .hit 1 ∧
      Answers (H := Nat) (served [] [⟨.get, some [47, 120, 47, 42], 1⟩, ⟨.get, some [47, 120], 2⟩])
        .get (requestPath [47, 120, 47, 121, 63])
        (dispatchApiLookup (dispatchApiAddAll 64 []
          [⟨.get, some [47, 120, 47, 42], 1⟩, ⟨.get, some [47, 120], 2⟩]) .get
          [47, 120, 47, 121, 63]) := by
  refine ⟨by decide, (lookup_longest_first_added 64 [] _ ?_ (by decide) _ _).1⟩
  simp [Distinct]

/-- The same two routes `/x/*`, added in the two orders, answer a POST differently. -/
theorem wildcard_tie_by_order :
    dispatchApiLookup (dispatchApiAddAll 64 []
        [⟨.get, some [47, 120, 47, 42], 1⟩, ⟨.post, some [47, 120, 47, 42], 2⟩]) .post
        [47, 120, 47, 121] = (.methodMismatch : DispatchApiResult Nat) ∧
      dispatchApiLookup (dispatchApiAddAll 64 []
        [⟨.post, some [47, 120, 47, 42], 2⟩, ⟨.get, some [47, 120, 47, 42], 1⟩]) .post
        [47, 120, 47, 121] = (.hit 2 : DispatchApiResult Nat) := by
  constructor <;> decide

end HttpServer
end Breadboard
