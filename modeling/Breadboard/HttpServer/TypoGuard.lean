import Breadboard.HttpServer.Exclude

/-!
# bb_http_server - the typo guard of route exclusion

Exclusions are recorded first, then routes are registered, then the guard asks
whether every exclusion has matched something.  The marks it reads are left by a
search that stops at the first hit, so an entry that is always hit second stays
unmarked although it does match.

Main results:

- Theorem `registerRouteTable_eq_run`: registering a table is a run of registrations.
- Theorem `markedBy_run`: after a run the marked entries are the first hits.
- Theorem `guard_exact_iff`: the guard is exact unless every exclusion matches and one is
  never the first to.
-/

namespace Breadboard
namespace HttpServer

open Foundations

/-! ## Composition -/

/-- The exclusion table after the calls of the composition. -/
def composed (calls : List (Method × Option Bytes)) : List ExcludeEntry :=
  run (fun table call => (routeExclude table call.1 call.2).2) [] calls

/-- Unmarked entries, each for a path under `/api/`. -/
def Unmarked (table : List ExcludeEntry) : Prop :=
  InScope table ∧ ∀ e ∈ table, e.matched = false

theorem unmarked_routeExclude {table : List ExcludeEntry} (h : Unmarked table) (method : Method)
    (path : Option Bytes) : Unmarked (routeExclude table method path).2 := by
  unfold routeExclude
  cases path with
  | none => exact h
  | some path =>
    dsimp only
    split
    · exact h
    · split
      · exact h
      · rename_i hscope
        split
        · exact h
        · constructor
          · intro e he
            rcases List.mem_append.mp he with hold | hnew
            · exact h.1 e hold
            · rw [List.mem_singleton.mp hnew]
              simpa using hscope
          · intro e he
            rcases List.mem_append.mp he with hold | hnew
            · exact h.2 e hold
            · rw [List.mem_singleton.mp hnew]

theorem unmarked_composed (calls : List (Method × Option Bytes)) : Unmarked (composed calls) := by
  have hstep : ∀ (table : List ExcludeEntry) (call : Method × Option Bytes), Unmarked table →
      Unmarked (routeExclude table call.1 call.2).2 :=
    fun table call h => unmarked_routeExclude h call.1 call.2
  have hempty : Unmarked [] :=
    ⟨fun _ he => absurd he List.not_mem_nil, fun _ he => absurd he List.not_mem_nil⟩
  exact run_invariant hstep hempty calls

/-! ## Marks over a run -/

section

variable {H β : Type} {cfg : RouteConfig} {backend : Backend H β}

/-- A route table is a run over its routes, up to the first that fails. -/
theorem registerRouteTable_eq_run (s : RouteSystem H β) (server : Bool)
    (table : List (Option (Descriptor H))) :
    ∃ n, (registerRouteTable cfg backend s server table).2 =
      run (registered cfg backend) s ((table.take n).map (Registration.described server)) := by
  induction table generalizing s with
  | nil => exact ⟨0, rfl⟩
  | cons route rest ih =>
    unfold registerRouteTable
    dsimp only
    split
    · exact ⟨1, rfl⟩
    · rcases ih (registerDescribedRoute cfg backend s server route).2 with ⟨n, hn⟩
      exact ⟨n + 1, hn⟩

/-- The route that a registration tries, when it has a path. -/
def Registration.tries (r : Registration H) : Option RouteKey :=
  r.attempt.bind fun a => a.2.map fun path => (a.1, path)

/-- The registration tries a route that some key excludes. -/
def Registration.excludedBy (r : Registration H) (keys : List RouteKey) : Bool :=
  r.tries.any fun a => keys.any fun k => decide (Hits k a)

theorem tries_eq_some {r : Registration H} {method : Method} {path : Bytes} :
    r.tries = some (method, path) ↔ r.attempt = some (method, some path) := by
  unfold Registration.tries
  cases hattempt : r.attempt with
  | none => simp
  | some a =>
    rcases a with ⟨m, p⟩
    cases p with
    | none => simp
    | some p => simp

theorem excludedBy_iff {r : Registration H} {table : List ExcludeEntry} :
    r.excludedBy (table.map ExcludeEntry.key) = true ↔ r.Excluded table := by
  unfold Registration.excludedBy Registration.Excluded
  simp only [Option.any_eq_true, List.any_map, List.any_eq_true, Function.comp_apply,
    decide_eq_true_eq]
  constructor
  · intro h
    rcases h with ⟨⟨method, path⟩, htries, hhit⟩
    exact ⟨method, path, tries_eq_some.mp htries, hhit⟩
  · intro h
    rcases h with ⟨method, path, hattempt, hhit⟩
    exact ⟨(method, path), tries_eq_some.mpr hattempt, hhit⟩

/-- An attempt that no entry excludes leaves no mark. -/
theorem markedBy_of_no_hit {table : List ExcludeEntry} {a : RouteKey}
    (h : ∀ e ∈ table, ¬ Hits e.key a) : MarkedBy table [a] table where
  keys_eq := rfl
  matched_iff := by
    intro i
    have hnone : ¬ FirstHit (table.map ExcludeEntry.key) i a := by
      intro hfirst
      rcases hfirst with ⟨key, hkey, hhit, _⟩
      rcases List.mem_map.mp (List.mem_of_getElem? hkey) with ⟨e, he, rfl⟩
      exact h e he hhit
    simp [hnone]

theorem inScope_congr {table table' : List ExcludeEntry}
    (h : table'.map ExcludeEntry.key = table.map ExcludeEntry.key) (hscope : InScope table) :
    InScope table' := by
  intro e he
  have hmem : e.key ∈ table.map ExcludeEntry.key := h ▸ List.mem_map_of_mem he
  rcases List.mem_map.mp hmem with ⟨e', he', hkey⟩
  have hpath : e'.path = e.path := congrArg Prod.snd hkey
  rw [← hpath]
  exact hscope e' he'

/-- One registration marks the first entry that excludes the route it tries. -/
theorem markedBy_registered {s : RouteSystem H β} (hscope : InScope s.exclude)
    (r : Registration H) :
    MarkedBy s.exclude r.tries.toList (registered cfg backend s r).exclude := by
  by_cases hexcluded : r.Excluded s.exclude
  · rcases hexcluded with ⟨method, path, hattempt, hhit⟩
    rw [tries_eq_some.mpr hattempt]
    exact (register_skips hscope hattempt hhit).marks
  · have hsame : (registered cfg backend s r).exclude = s.exclude := by
      unfold registered
      rw [register_plain hexcluded]
      rfl
    rw [hsame]
    cases htries : r.tries with
    | none => exact MarkedBy.refl s.exclude
    | some a =>
      rcases a with ⟨method, path⟩
      apply markedBy_of_no_hit
      intro e he hhit
      exact hexcluded ⟨method, path, tries_eq_some.mp htries, e, he, hhit⟩

/-- Over a run the marked entries are those that were some attempt's first hit. -/
theorem markedBy_run {s : RouteSystem H β} (hscope : InScope s.exclude)
    (rs : List (Registration H)) :
    MarkedBy s.exclude (rs.filterMap Registration.tries)
      (run (registered cfg backend) s rs).exclude := by
  induction rs generalizing s with
  | nil => exact MarkedBy.refl s.exclude
  | cons r rs ih =>
    have hstep := @markedBy_registered H β cfg backend s hscope r
    have hrest := ih (inScope_congr hstep.keys_eq hscope)
    have hsplit : (r :: rs).filterMap Registration.tries =
        r.tries.toList ++ rs.filterMap Registration.tries := by
      cases htries : r.tries with
      | none => simp [htries]
      | some a => simp [htries]
    rw [hsplit, run_cons]
    exact hstep.trans hrest

theorem routeExcludeVerify_iff {table : List ExcludeEntry} :
    routeExcludeVerify table = .ok ↔ ∀ i < table.length, table[i]?.any ExcludeEntry.matched = true := by
  induction table with
  | nil => simp [routeExcludeVerify]
  | cons e rest ih =>
    unfold routeExcludeVerify
    cases hmatched : e.matched with
    | false =>
      simp only [Bool.not_false, if_true, reduceCtorEq, false_iff]
      intro hall
      have hhead := hall 0 (Nat.succ_pos _)
      simp [hmatched] at hhead
    | true =>
      simp only [Bool.not_true, Bool.false_eq_true, if_false, ih]
      constructor
      · intro hall i hi
        cases i with
        | zero => simp [hmatched]
        | succ i => exact hall i (Nat.lt_of_succ_lt_succ hi)
      · intro hall i hi
        exact hall (i + 1) (Nat.succ_lt_succ hi)

/-- From an unmarked table, the guard passes when every entry was some attempt's first hit. -/
theorem routeExcludeVerify_run {s : RouteSystem H β} (hunmarked : Unmarked s.exclude)
    (rs : List (Registration H)) :
    routeExcludeVerify (run (registered cfg backend) s rs).exclude = .ok ↔
      ∀ i < (s.exclude.map ExcludeEntry.key).length, ∃ a ∈ rs.filterMap Registration.tries,
        FirstHit (s.exclude.map ExcludeEntry.key) i a := by
  have hmarks := @markedBy_run H β cfg backend s hunmarked.1 rs
  have hlen := congrArg List.length hmarks.keys_eq
  rw [List.length_map, List.length_map] at hlen
  have hclean (i : Nat) : s.exclude[i]?.any ExcludeEntry.matched = false := by
    cases hget : s.exclude[i]? with
    | none => rfl
    | some e => exact hunmarked.2 e (List.mem_of_getElem? hget)
  rw [routeExcludeVerify_iff, hlen, List.length_map]
  simp [hmarks.matched_iff, hclean]

/-! ## What a run stores -/

/-- No stored route is one that some key excludes. -/
structure NeverStored (keys : List RouteKey) (st : Stores H β) : Prop where
  registry : ∀ d ∈ st.registry, ∀ path, d.path = some path → ∀ k ∈ keys,
    ¬ Hits k (d.method, path)
  dispatch : ∀ e ∈ st.dispatch, ∀ path, e.path = some path → ∀ k ∈ keys,
    ¬ Hits k (e.method, path)

theorem NeverStored.addsOnly {keys : List RouteKey} {st st' : Stores H β} {method : Method}
    {path : Option Bytes} (h : NeverStored keys st) (hadds : AddsOnly method path st st')
    (hfree : ∀ p, path = some p → ∀ k ∈ keys, ¬ Hits k (method, p)) : NeverStored keys st' where
  registry := by
    intro d hd p hp
    rcases hadds.registry d hd with hold | ⟨hmethod, hpath⟩
    · exact h.registry d hold p hp
    · rw [hmethod]
      exact hfree p (hpath ▸ hp)
  dispatch := by
    intro e he p hp
    rcases hadds.dispatch e he with hold | ⟨hmethod, hpath⟩
    · exact h.dispatch e hold p hp
    · rw [hmethod]
      exact hfree p (hpath ▸ hp)

/-- A registration stores no route that the table excludes. -/
theorem neverStored_registered {s : RouteSystem H β} (hscope : InScope s.exclude)
    (h : NeverStored (s.exclude.map ExcludeEntry.key) s.toStores) (r : Registration H) :
    NeverStored (s.exclude.map ExcludeEntry.key) (registered cfg backend s r).toStores := by
  by_cases hexcluded : r.Excluded s.exclude
  · rcases hexcluded with ⟨method, path, hattempt, hhit⟩
    have hsame : (registered cfg backend s r).toStores = s.toStores :=
      (register_skips hscope hattempt hhit).stores_eq
    rw [hsame]
    exact h
  · have hplain : (registered cfg backend s r).toStores =
        (registerPlain cfg backend s.toStores r).2 := by
      unfold registered
      rw [register_plain hexcluded]
      rfl
    rw [hplain]
    rcases @registerPlain_addsOnly H β cfg backend s.toStores r with hsame | hadds
    · rw [hsame]
      exact h
    · rcases hadds with ⟨method, path, hattempt, hadds⟩
      apply h.addsOnly hadds
      intro p hp k hk hhit
      rcases List.mem_map.mp hk with ⟨e, he, rfl⟩
      exact hexcluded ⟨method, p, hp ▸ hattempt, e, he, hhit⟩

theorem neverStored_run {s : RouteSystem H β} (hscope : InScope s.exclude)
    (h : NeverStored (s.exclude.map ExcludeEntry.key) s.toStores) (rs : List (Registration H)) :
    NeverStored (s.exclude.map ExcludeEntry.key) (run (registered cfg backend) s rs).toStores := by
  induction rs generalizing s with
  | nil => exact h
  | cons r rs ih =>
    have hkeys := (@markedBy_registered H β cfg backend s hscope r).keys_eq
    have hstep := @neverStored_registered H β cfg backend s hscope h r
    have hrest := ih (inScope_congr hkeys hscope) (hkeys.symm ▸ hstep)
    rw [hkeys] at hrest
    exact hrest

/-- The answers to the registrations that no key excludes. -/
def answersTo (cfg : RouteConfig) (backend : Backend H β) (keys : List RouteKey)
    (s : RouteSystem H β) (rs : List (Registration H)) : List BbErr :=
  outputs (registered cfg backend)
    (fun s r => if r.excludedBy keys then [] else [(register cfg backend s r).1]) s rs

/-- The registrations that no key excludes. -/
def others (keys : List RouteKey) (rs : List (Registration H)) : List (Registration H) :=
  rs.filter fun r => !r.excludedBy keys

/-- The run of the others without exclusions answers them alike and stores the same. -/
theorem others_run {s : RouteSystem H β} (hscope : InScope s.exclude)
    (rs : List (Registration H)) :
    answersTo cfg backend (s.exclude.map ExcludeEntry.key) s rs =
        answersTo cfg backend [] (unexcluded s.toStores)
          (others (s.exclude.map ExcludeEntry.key) rs) ∧
      (run (registered cfg backend) s rs).toStores =
        (run (registered cfg backend) (unexcluded s.toStores)
          (others (s.exclude.map ExcludeEntry.key) rs)).toStores := by
  induction rs generalizing s with
  | nil => exact ⟨rfl, rfl⟩
  | cons r rs ih =>
    have hkeys := (@markedBy_registered H β cfg backend s hscope r).keys_eq
    have hrest := ih (inScope_congr hkeys hscope)
    rw [hkeys] at hrest
    unfold answersTo at hrest ⊢
    unfold others at hrest ⊢
    rw [outputs_cons, run_cons, List.filter_cons]
    cases hexcluded : r.excludedBy (s.exclude.map ExcludeEntry.key) with
    | true =>
      rcases excludedBy_iff.mp hexcluded with ⟨method, path, hattempt, hhit⟩
      have hsame : (registered cfg backend s r).toStores = s.toStores :=
        (register_skips hscope hattempt hhit).stores_eq
      rw [hsame] at hrest
      simp only [if_true, List.nil_append, Bool.not_true, Bool.false_eq_true, if_false]
      exact hrest
    | false =>
      have hfree : ¬ r.Excluded s.exclude := by
        intro h
        rw [excludedBy_iff.mpr h] at hexcluded
        cases hexcluded
      have hnil : ¬ r.Excluded (unexcluded s.toStores).exclude := by
        intro h
        rcases h with ⟨_, _, _, _, he, _⟩
        exact List.not_mem_nil he
      have hnone : r.excludedBy [] = false := by
        unfold Registration.excludedBy
        cases r.tries <;> rfl
      have hanswer : (register cfg backend s r).1 =
          (register cfg backend (unexcluded s.toStores) r).1 := by
        rw [register_plain hfree]
        rfl
      have hnext : registered cfg backend (unexcluded s.toStores) r =
          unexcluded (registered cfg backend s r).toStores := by
        unfold registered
        rw [register_plain hfree, register_plain hnil]
        rfl
      simp only [Bool.false_eq_true, if_false, Bool.not_false, if_true, outputs_cons, run_cons,
        hnone, hnext, hanswer]
      exact ⟨congrArg _ hrest.1, hrest.2⟩

/-! ## The guard -/

/-- Nothing is registered yet; the backend is in a state of its own. -/
def Stores.fresh (b : β) : Stores H β where
  registry := []
  watermarkWarned := false
  trapHit := false
  dispatch := []
  dispatchWarned := false
  backend := b

/-- After the exclusions, before any registration. -/
def RouteSystem.start (b : β) (calls : List (Method × Option Bytes)) : RouteSystem H β where
  toStores := .fresh b
  exclude := composed calls

/-- What the composition excludes. -/
def excludedKeys (calls : List (Method × Option Bytes)) : List RouteKey :=
  (composed calls).map ExcludeEntry.key

/-- The routes that the registrations try. -/
def attempts (rs : List (Registration H)) : List RouteKey :=
  rs.filterMap Registration.tries

/-- Exclusion does what it is for, and its typo guard reports exactly the idle exclusions. -/
structure GuardExact (cfg : RouteConfig) (backend : Backend H β) (b : β)
    (calls : List (Method × Option Bytes)) (rs : List (Registration H)) : Prop where
  never_stored : NeverStored (excludedKeys calls)
    (run (registered cfg backend) (.start b calls) rs).toStores
  others_answered : answersTo cfg backend (excludedKeys calls) (.start b calls) rs =
    answersTo cfg backend [] (unexcluded (.fresh b)) (others (excludedKeys calls) rs)
  others_stored : (run (registered cfg backend) (.start b calls) rs).toStores =
    (run (registered cfg backend) (unexcluded (.fresh b)) (others (excludedKeys calls) rs)).toStores
  verify_iff : routeExcludeVerify (run (registered cfg backend) (.start b calls) rs).exclude = .ok ↔
    ∀ key ∈ excludedKeys calls, ∃ a ∈ attempts rs, Hits key a

/-- An entry that is a first hit is hit. -/
theorem hits_of_firstHit {keys : List RouteKey} {as : List RouteKey}
    (h : ∀ i < keys.length, ∃ a ∈ as, FirstHit keys i a) :
    ∀ key ∈ keys, ∃ a ∈ as, Hits key a := by
  intro key hkey
  rcases List.mem_iff_getElem?.mp hkey with ⟨i, hi⟩
  have hlt : i < keys.length := (List.getElem?_eq_some_iff.mp hi).1
  rcases h i hlt with ⟨a, ha, found, hfound, hhit, _⟩
  rw [hi] at hfound
  cases hfound
  exact ⟨a, ha, hhit⟩

/--
The guard is exact exactly when some exclusion matches no attempt, or each of them is the
first to match some attempt.
-/
theorem guard_exact_iff (cfg : RouteConfig) (backend : Backend H β) (b : β)
    (calls : List (Method × Option Bytes)) (rs : List (Registration H)) :
    GuardExact cfg backend b calls rs ↔
      (∃ key ∈ excludedKeys calls, ∀ a ∈ attempts rs, ¬ Hits key a) ∨
        ∀ i < (excludedKeys calls).length, ∃ a ∈ attempts rs,
          FirstHit (excludedKeys calls) i a := by
  have hunmarked : Unmarked (RouteSystem.start (H := H) b calls).exclude := unmarked_composed calls
  have hverify := @routeExcludeVerify_run H β cfg backend (.start b calls) hunmarked rs
  change _ ↔ ∀ i < (excludedKeys calls).length, ∃ a ∈ attempts rs,
    FirstHit (excludedKeys calls) i a at hverify
  constructor
  · intro hexact
    by_cases hall : ∀ key ∈ excludedKeys calls, ∃ a ∈ attempts rs, Hits key a
    · exact Or.inr (hverify.mp (hexact.verify_iff.mpr hall))
    · apply Or.inl
      push Not at hall
      exact hall
  · intro hcondition
    have hempty : NeverStored (excludedKeys calls) (Stores.fresh b : Stores H β) :=
      ⟨fun _ hd => absurd hd List.not_mem_nil, fun _ he => absurd he List.not_mem_nil⟩
    have hothers := @others_run H β cfg backend (.start b calls) hunmarked.1 rs
    constructor
    · exact @neverStored_run H β cfg backend (.start b calls) hunmarked.1 hempty rs
    · exact hothers.1
    · exact hothers.2
    · rw [hverify]
      constructor
      · exact hits_of_firstHit
      · intro hall
        rcases hcondition with hidle | hfirst
        · rcases hidle with ⟨key, hkey, hnone⟩
          rcases hall key hkey with ⟨a, ha, hhit⟩
          exact absurd hhit (hnone a ha)
        · exact hfirst

end

/-- The exclusions `/api/d*` and `/api/d/m`, with the second route registered. -/
def shadowedCalls : List (Method × Option Bytes) :=
  [(.get, some [47, 97, 112, 105, 47, 100, 42]),
    (.get, some [47, 97, 112, 105, 47, 100, 47, 109])]

def shadowedRoute : Registration Unit :=
  .descriptorOnly
    (some { method := .get, path := some [47, 97, 112, 105, 47, 100, 47, 109], handler := none })

/-- Both exclusions match the registered route, and the guard reports the second as idle. -/
theorem shadowed_reported :
    ¬ GuardExact { registryCap := 64, dispatchCap := 64, strict := true }
      { register := fun (b : Unit) _ _ _ => (true, b) } () shadowedCalls [shadowedRoute] := by
  intro hexact
  have hiff := hexact.verify_iff
  revert hiff
  decide

end HttpServer
end Breadboard
