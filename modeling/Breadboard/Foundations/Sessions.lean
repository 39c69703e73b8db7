import Mathlib.Data.List.Basic

/-!
# Sessions with callbacks

A client of an object makes calls, looks at the replies and calls again.  One of its
calls iterates: the object takes a snapshot of its elements and the client's
callback runs on each, and what the callback does is again a session on the
same object, iterations included.

Main results:

- Theorem `exec_simulates`: objects whose single calls agree cannot be told apart.
- Theorem `exec_preserves`: what the calls keep holds after a session, and of each event in it.
- Theorem `visits_foreach`: an iteration visits its snapshot, whatever the callback does.
-/

namespace Breadboard
namespace Foundations
namespace Sessions

/-- An object: what its calls reply, and what an iteration takes a snapshot of. -/
structure Machine (S C R I E : Type) where
  call : S → C → R × S
  snapshot : S → I → List E × S
  contents : S → List E

/-- A session that ends with a value of the client. -/
inductive Session (C R I E : Type) (σ : Type) where
  | ret (ctx : σ)
  | call (c : C) (k : R → Session C R I E σ)
  | foreach (i : I) (ctx : σ) (cb : σ → E → Session C R I E σ) (k : σ → Session C R I E σ)

/-- What is seen of a session; a visit is marked with how deep in callbacks it is. -/
inductive Event (C R E : Type) where
  | call (c : C) (reply : R) (before after : List E)
  | visit (depth : Nat) (e : E)

/-- The client's value, the object and what was seen. -/
structure Outcome (S C R E σ : Type) where
  ctx : σ
  state : S
  trace : List (Event C R E)

section

variable {S T C R I E σ : Type}

/-- The outcome with earlier events in front. -/
def Outcome.since (x : Outcome S C R E σ) (trace : List (Event C R E)) : Outcome S C R E σ :=
  { x with trace := trace ++ x.trace }

/-- A session on an object. -/
def exec (m : Machine S C R I E) (depth : Nat) : Session C R I E σ → S → Outcome S C R E σ
  | .ret ctx, s => { ctx := ctx, state := s, trace := [] }
  | .call c k, s =>
    (exec m depth (k (m.call s c).1) (m.call s c).2).since
      [.call c (m.call s c).1 (m.contents s) (m.contents (m.call s c).2)]
  | .foreach i ctx cb k, s =>
    let visited := (m.snapshot s i).1.foldl
      (fun x e => (exec m (depth + 1) (cb x.ctx e) x.state).since (x.trace ++ [.visit depth e]))
      { ctx := ctx, state := (m.snapshot s i).2, trace := [] }
    (exec m depth (k visited.ctx) visited.state).since visited.trace

/-- The callback on each element of a list. -/
def visitAll (m : Machine S C R I E) (depth : Nat) (cb : σ → E → Session C R I E σ)
    (x : Outcome S C R E σ) (es : List E) : Outcome S C R E σ :=
  es.foldl
    (fun x e => (exec m (depth + 1) (cb x.ctx e) x.state).since (x.trace ++ [.visit depth e])) x

theorem exec_foreach (m : Machine S C R I E) (depth : Nat) (i : I) (ctx : σ)
    (cb : σ → E → Session C R I E σ) (k : σ → Session C R I E σ) (s : S) :
    exec m depth (.foreach i ctx cb k) s =
      let visited := visitAll m depth cb
        { ctx := ctx, state := (m.snapshot s i).2, trace := [] } (m.snapshot s i).1
      (exec m depth (k visited.ctx) visited.state).since visited.trace :=
  rfl

@[simp] theorem visitAll_nil (m : Machine S C R I E) (depth : Nat)
    (cb : σ → E → Session C R I E σ) (x : Outcome S C R E σ) : visitAll m depth cb x [] = x :=
  rfl

@[simp] theorem visitAll_cons (m : Machine S C R I E) (depth : Nat)
    (cb : σ → E → Session C R I E σ) (x : Outcome S C R E σ) (e : E) (es : List E) :
    visitAll m depth cb x (e :: es) =
      visitAll m depth cb
        ((exec m (depth + 1) (cb x.ctx e) x.state).since (x.trace ++ [.visit depth e])) es :=
  rfl

/-! ## Simulation -/

/-- Related objects, and otherwise the same outcome. -/
def Outcome.Agrees (Rel : S → T → Prop) (x : Outcome S C R E σ) (y : Outcome T C R E σ) : Prop :=
  x.ctx = y.ctx ∧ x.trace = y.trace ∧ Rel x.state y.state

theorem Outcome.Agrees.since {Rel : S → T → Prop} {x : Outcome S C R E σ} {y : Outcome T C R E σ}
    (h : x.Agrees Rel y) (trace : List (Event C R E)) :
    (x.since trace).Agrees Rel (y.since trace) :=
  ⟨h.1, congrArg (trace ++ ·) h.2.1, h.2.2⟩

/-- Single calls and snapshots of the two objects agree. -/
structure Simulates (m : Machine S C R I E) (m' : Machine T C R I E) (Rel : S → T → Prop) :
    Prop where
  call : ∀ s t c, Rel s t → (m.call s c).1 = (m'.call t c).1 ∧ Rel (m.call s c).2 (m'.call t c).2
  snapshot : ∀ s t i, Rel s t →
    (m.snapshot s i).1 = (m'.snapshot t i).1 ∧ Rel (m.snapshot s i).2 (m'.snapshot t i).2
  contents : ∀ s t, Rel s t → m.contents s = m'.contents t

/-- A client cannot tell two objects apart whose single calls agree. -/
theorem exec_simulates {m : Machine S C R I E} {m' : Machine T C R I E} {Rel : S → T → Prop}
    (hsim : Simulates m m' Rel) (p : Session C R I E σ) (depth : Nat) {s : S} {t : T}
    (h : Rel s t) : (exec m depth p s).Agrees Rel (exec m' depth p t) := by
  induction p generalizing depth s t with
  | ret ctx => exact ⟨rfl, rfl, h⟩
  | call c k ih =>
    rcases hsim.call s t c h with ⟨hreply, hnext⟩
    have hrest := ih (m.call s c).1 depth hnext
    rw [exec, exec, ← hreply, hsim.contents s t h, hsim.contents _ _ hnext]
    exact hrest.since _
  | foreach i ctx cb k ihcb ihk =>
    have hvisit : ∀ (es : List E) (x : Outcome S C R E σ) (y : Outcome T C R E σ),
        x.Agrees Rel y → (visitAll m depth cb x es).Agrees Rel (visitAll m' depth cb y es) := by
      intro es
      induction es with
      | nil => exact fun x y hxy => hxy
      | cons e es ih =>
        intro x y hxy
        have hcallback := ihcb x.ctx e (depth + 1) hxy.2.2
        rw [visitAll_cons, visitAll_cons, ← hxy.1, ← hxy.2.1]
        exact ih _ _ (hcallback.since _)
    rcases hsim.snapshot s t i h with ⟨hsnapshot, hnext⟩
    rw [exec_foreach, exec_foreach, ← hsnapshot]
    have hvisited := hvisit (m.snapshot s i).1
      { ctx := ctx, state := (m.snapshot s i).2, trace := [] }
      { ctx := ctx, state := (m'.snapshot t i).2, trace := [] } ⟨rfl, rfl, hnext⟩
    dsimp only
    rw [← hvisited.1, ← hvisited.2.1]
    exact (ihk _ depth hvisited.2.2).since _

/-! ## Invariants -/

/-- An invariant of the object, and what every event of a session has. -/
structure Keeps (m : Machine S C R I E) (Inv : S → Prop) (Q : Event C R E → Prop) : Prop where
  call : ∀ s c, Inv s → Inv (m.call s c).2 ∧
    Q (.call c (m.call s c).1 (m.contents s) (m.contents (m.call s c).2))
  snapshot : ∀ s i, Inv s → Inv (m.snapshot s i).2
  visit : ∀ depth e, Q (.visit depth e)

/-- What single calls keep holds after a session, and of each event in it. -/
theorem exec_preserves {m : Machine S C R I E} {Inv : S → Prop} {Q : Event C R E → Prop}
    (hkeeps : Keeps m Inv Q) (p : Session C R I E σ) (depth : Nat) {s : S} (h : Inv s) :
    Inv (exec m depth p s).state ∧ ∀ ev ∈ (exec m depth p s).trace, Q ev := by
  induction p generalizing depth s with
  | ret ctx => exact ⟨h, fun _ hev => absurd hev List.not_mem_nil⟩
  | call c k ih =>
    rcases hkeeps.call s c h with ⟨hnext, hevent⟩
    rcases ih (m.call s c).1 depth hnext with ⟨hinv, hall⟩
    refine ⟨hinv, ?_⟩
    intro ev hev
    rcases List.mem_cons.mp hev with rfl | hev
    · exact hevent
    · exact hall ev hev
  | foreach i ctx cb k ihcb ihk =>
    have hvisit : ∀ (es : List E) (x : Outcome S C R E σ),
        Inv x.state → (∀ ev ∈ x.trace, Q ev) →
          Inv (visitAll m depth cb x es).state ∧ ∀ ev ∈ (visitAll m depth cb x es).trace, Q ev := by
      intro es
      induction es with
      | nil => exact fun x hx htrace => ⟨hx, htrace⟩
      | cons e es ih =>
        intro x hx htrace
        rcases ihcb x.ctx e (depth + 1) hx with ⟨hinv, hall⟩
        apply ih
        · exact hinv
        · intro ev hev
          rcases List.mem_append.mp hev with hbefore | hinside
          · rcases List.mem_append.mp hbefore with hbefore | hvisited
            · exact htrace ev hbefore
            · rw [List.mem_singleton.mp hvisited]
              exact hkeeps.visit depth e
          · exact hall ev hinside
    rcases hvisit (m.snapshot s i).1 { ctx := ctx, state := (m.snapshot s i).2, trace := [] }
      (hkeeps.snapshot s i h) (fun _ hev => absurd hev List.not_mem_nil) with ⟨hinv, hall⟩
    rcases ihk _ depth hinv with ⟨hinv', hall'⟩
    rw [exec_foreach]
    refine ⟨hinv', ?_⟩
    intro ev hev
    rcases List.mem_append.mp hev with hev | hev
    · exact hall ev hev
    · exact hall' ev hev

/-! ## Visits -/

/-- The element visited at a depth. -/
def Event.visitAt (depth : Nat) : Event C R E → Option E
  | .call _ _ _ _ => none
  | .visit d e => if d = depth then some e else none

/-- The elements visited at a depth, in order. -/
def visits (depth : Nat) (trace : List (Event C R E)) : List E :=
  trace.filterMap (Event.visitAt depth)

/-- Inside of callbacks nothing is visited at a smaller depth. -/
theorem visits_deeper (m : Machine S C R I E) (p : Session C R I E σ) {depth deeper : Nat}
    (hdepth : depth < deeper) (s : S) : visits depth (exec m deeper p s).trace = [] := by
  induction p generalizing deeper s with
  | ret ctx => rfl
  | call c k ih => exact ih _ hdepth _
  | foreach i ctx cb k ihcb ihk =>
    have hvisit : ∀ (es : List E) (x : Outcome S C R E σ), visits depth x.trace = [] →
        visits depth (visitAll m deeper cb x es).trace = [] := by
      intro es
      induction es with
      | nil => exact fun x hx => hx
      | cons e es ih =>
        intro x hx
        apply ih
        have hother : Event.visitAt depth (Event.visit deeper e : Event C R E) = none :=
          if_neg (by omega)
        have hinside := ihcb x.ctx e (Nat.lt_succ_of_lt hdepth) x.state
        unfold visits at hx hinside ⊢
        simp only [Outcome.since, List.filterMap_append, List.filterMap_cons, List.filterMap_nil,
          hother, hx, hinside, List.append_nil]
    have hvisited := hvisit (m.snapshot s i).1
      { ctx := ctx, state := (m.snapshot s i).2, trace := [] } rfl
    have hrest := ihk (visitAll m deeper cb { ctx := ctx, state := (m.snapshot s i).2, trace := [] }
      (m.snapshot s i).1).ctx hdepth (visitAll m deeper cb
        { ctx := ctx, state := (m.snapshot s i).2, trace := [] } (m.snapshot s i).1).state
    rw [exec_foreach]
    unfold visits at hvisited hrest ⊢
    simp only [Outcome.since, List.filterMap_append, hvisited, hrest, List.append_nil]

/-- A list is visited element by element, whatever the callback does in between. -/
theorem visits_visitAll (m : Machine S C R I E) (depth : Nat) (cb : σ → E → Session C R I E σ)
    (es : List E) (x : Outcome S C R E σ) :
    visits depth (visitAll m depth cb x es).trace = visits depth x.trace ++ es := by
  induction es generalizing x with
  | nil => exact (List.append_nil _).symm
  | cons e es ih =>
    have hself : Event.visitAt depth (Event.visit depth e : Event C R E) = some e := if_pos rfl
    have hinside := visits_deeper m (cb x.ctx e) (Nat.lt_succ_self depth) x.state
    rw [visitAll_cons, ih]
    unfold visits at hinside ⊢
    simp only [Outcome.since, List.filterMap_append, List.filterMap_cons, hself, hinside,
      List.append_assoc, List.singleton_append]

/-- An iteration visits its snapshot, whatever the callback does. -/
theorem visits_foreach (m : Machine S C R I E) (depth : Nat) (i : I) (ctx : σ)
    (cb : σ → E → Session C R I E σ) (s : S) :
    visits depth (exec m depth (.foreach i ctx cb .ret) s).trace = (m.snapshot s i).1 := by
  have hvisited := visits_visitAll m depth cb (m.snapshot s i).1
    { ctx := ctx, state := (m.snapshot s i).2, trace := [] }
  rw [exec_foreach]
  simp only [exec, Outcome.since, List.append_nil]
  exact hvisited

end

end Sessions
end Foundations
end Breadboard
