import Breadboard.Foundations.JsonTokens
import Mathlib.Order.Nat

/-!
# A byte-at-a-time machine for JSON texts

The machine keeps the containers it is in as a list, innermost first, `true` for an
array.  What may still follow in a state is stated with the grammar; the machine's step is
exactly that statement taken apart at its first byte.  A limited machine also refuses a
state that is nested too deep or holds too long a key and number; it accepts the same
texts, less those whose events exceed the limits.

Main results:

- Theorem `remains_cons`: what may follow a state, split at its first byte.
- Theorem `reading_iff`: the machine accepts exactly what may follow its state.
- Theorem `reading_root_iff`: from the root, the limited machine accepts exactly the
  texts of the grammar within the limits.
-/

namespace Breadboard
namespace Foundations
namespace JsonText

/-! ## States and steps -/

/--
Where a text stands.  `st` holds the open containers around the current one for the
states of an object or array, and all open containers for the other states.
-/
inductive State where
  | root
  | after (st : List Bool)
  | objBody (st : List Bool)
  | member (st : List Bool)
  | inKey (st : List Bool) (esc : Esc) (key : Text)
  | colon (st : List Bool) (key : Text)
  | memberValue (st : List Bool) (key : Text)
  | arrBody (st : List Bool)
  | element (st : List Bool)
  | inStr (st : List Bool) (key : Text) (esc : Esc) (v : Text)
  | inNum (st : List Bool) (key : Text) (place : NumPlace) (text : Text)
  | inLit (st : List Bool) (key : Text) (v : Option Bool) (c : UInt8) (rest : Text)
  deriving Repr, DecidableEq

/-- The event of a literal; `none` stands for null. -/
def litEvent (key : Text) : Option Bool → Event
  | some v => .bool key v
  | none => .null key

/-- A step: refused, or the next state and the events that are complete. -/
abbrev Step := Option (State × List Event)

/-- White space leaves the state as it is. -/
def orWs (m : State) (b : UInt8) (x : Step) : Step :=
  if isWs b = true then some (m, []) else x

/-- The first byte of a value inside the containers `st`. -/
def valueNext (st : List Bool) (key : Text) (b : UInt8) : Step :=
  match numFirst b with
  | some place => some (.inNum st key place [b], [])
  | none =>
    if b = 34 then some (.inStr st key .plain [], [])
    else if b = 123 then some (.objBody st, [.beginObj key])
    else if b = 91 then some (.arrBody st, [.beginArr key])
    else if b = 116 then some (.inLit st key (some true) 114 [117, 101], [])
    else if b = 102 then some (.inLit st key (some false) 97 [108, 115, 101], [])
    else if b = 110 then some (.inLit st key none 117 [108, 108], [])
    else none

/-- A byte after a value inside the containers `st`. -/
def afterNext (st : List Bool) (b : UInt8) : Step :=
  orWs (.after st) b
    (match st with
    | [] => none
    | true :: st =>
      if b = 44 then some (.element st, [])
      else if b = 93 then some (.after st, [.endArr])
      else none
    | false :: st =>
      if b = 44 then some (.member st, [])
      else if b = 125 then some (.after st, [.endObj])
      else none)

/-- One byte. -/
def next : State → UInt8 → Step
  | .root, b => orWs .root b (valueNext [] [] b)
  | .after st, b => afterNext st b
  | .objBody st, b =>
    orWs (.objBody st) b
      (if b = 125 then some (.after st, [.endObj])
      else if b = 34 then some (.inKey st .plain [], [])
      else none)
  | .member st, b => orWs (.member st) b (if b = 34 then some (.inKey st .plain [], []) else none)
  | .inKey st esc key, b =>
    match strStep esc b with
    | none => none
    | some none => some (.colon st key, [])
    | some (some (esc', out)) => some (.inKey st esc' (key ++ out), [])
  | .colon st key, b =>
    orWs (.colon st key) b (if b = 58 then some (.memberValue st key, []) else none)
  | .memberValue st key, b => orWs (.memberValue st key) b (valueNext (false :: st) key b)
  | .arrBody st, b =>
    orWs (.arrBody st) b
      (if b = 93 then some (.after st, [.endArr]) else valueNext (true :: st) [] b)
  | .element st, b => orWs (.element st) b (valueNext (true :: st) [] b)
  | .inStr st key esc v, b =>
    match strStep esc b with
    | none => none
    | some none => some (.after st, [.str key v])
    | some (some (esc', out)) => some (.inStr st key esc' (v ++ out), [])
  | .inNum st key place text, b =>
    match numStep place b with
    | some place' => some (.inNum st key place' (text ++ [b]), [])
    | none =>
      if place.ends = true then
        (afterNext st b).map fun p => (p.1, .num key text :: p.2)
      else none
  | .inLit st key v c rest, b =>
    if b = c then
      match rest with
      | [] => some (.after st, [litEvent key v])
      | c' :: rest => some (.inLit st key v c' rest, [])
    else none

/-- The end of the text. -/
def finish : State → Option (List Event)
  | .after [] => some []
  | .inNum [] key place text => if place.ends = true then some [.num key text] else none
  | _ => none

/-- The state after every byte, and the events up to there. -/
def run (step : State → UInt8 → Step) : State → Text → Step
  | m, [] => some (m, [])
  | m, b :: r => (step m b).bind fun p => (run step p.1 r).map fun q => (q.1, p.2 ++ q.2)

/-- The events of a text that the state accepts. -/
def reading (step : State → UInt8 → Step) (m : State) (r : Text) : Option (List Event) :=
  (run step m r).bind fun p => (finish p.1).map fun es => p.2 ++ es

theorem run_cons {step : State → UInt8 → Step} {m m' : State} {b : UInt8} {e : List Event}
    (h : step m b = some (m', e)) (r : Text) :
    run step m (b :: r) = (run step m' r).map fun q => (q.1, e ++ q.2) := by
  rw [run, h]
  rfl

/-- Running over two parts is running over the first, then the second. -/
theorem run_append (step : State → UInt8 → Step) (m : State) (r r' : Text) :
    run step m (r ++ r') = (run step m r).bind fun p =>
      (run step p.1 r').map fun q => (q.1, p.2 ++ q.2) := by
  induction r generalizing m with
  | nil => simp [run]
  | cons b r ih =>
    cases hstep : step m b with
    | none => simp [run, hstep]
    | some p =>
      rw [List.cons_append, run_cons hstep, run_cons hstep, ih]
      cases run step p.1 r with
      | none => rfl
      | some q => simp [Function.comp_def]

theorem reading_nil (step : State → UInt8 → Step) (m : State) : reading step m [] = finish m := by
  cases h : finish m <;> simp [reading, run, h]

theorem reading_cons {step : State → UInt8 → Step} {m : State} {b : UInt8} {r : Text}
    {evs : List Event} :
    reading step m (b :: r) = some evs ↔ ∃ m' e es, step m b = some (m', e) ∧
      reading step m' r = some es ∧ evs = e ++ es := by
  cases hstep : step m b with
  | none => simp [reading, run, hstep]
  | some p =>
    have hreading : reading step m (b :: r) = (reading step p.1 r).map fun es => p.2 ++ es := by
      rw [reading, run_cons hstep, reading]
      cases run step p.1 r with
      | none => rfl
      | some q => simp [Function.comp_def]
    rw [hreading, Option.map_eq_some_iff]
    constructor
    · rintro ⟨es, hes, rfl⟩
      exact ⟨p.1, p.2, es, rfl, hes, rfl⟩
    · rintro ⟨_, _, es, heq, hes, rfl⟩
      cases heq
      exact ⟨es, hes, rfl⟩

/-! ## What may follow a state -/

/-- The rest of a text after a value inside the containers `st`. -/
def Completes : List Bool → Text → List Event → Prop
  | [], s, evs => evs = [] ∧ ∀ b ∈ s, isWs b = true
  | isArr :: st, s, evs => ∃ e s' es, Reads LaxNumber (cond isArr .arrTail .objTail) s e s' ∧
      Completes st s' es ∧ evs = e ++ es

/-- A piece, and the rest of the text after it inside the containers `st`. -/
def Then (kind : Kind) (st : List Bool) (s : Text) (evs : List Event) : Prop :=
  ∃ e s' es, Reads LaxNumber kind s e s' ∧ Completes st s' es ∧ evs = e ++ es

/-- What may follow a state, and the events it means. -/
def Remains : State → Text → List Event → Prop
  | .root, s, evs => ∃ w s', s = w ++ s' ∧ (∀ b ∈ w, isWs b = true) ∧ Then (.value []) [] s' evs
  | .after st, s, evs => Completes st s evs
  | .objBody st, s, evs => Then .objBody st s evs
  | .member st, s, evs => Then .member st s evs
  | .inKey st esc key, s, evs => ∃ v s', readString esc s = some (v, s') ∧
      Then (.colon (key ++ v)) st s' evs
  | .colon st key, s, evs => Then (.colon key) st s evs
  | .memberValue st key, s, evs => Then (.memberValue key) st s evs
  | .arrBody st, s, evs => Then .arrBody st s evs
  | .element st, s, evs => Then .element st s evs
  | .inStr st key esc v, s, evs => ∃ v' s', readString esc s = some (v', s') ∧
      ∃ es, Completes st s' es ∧ evs = .str key (v ++ v') :: es
  | .inNum st key place text, s, evs => ∃ n s', s = n ++ s' ∧ numTail place n = true ∧
      ∃ es, Completes st s' es ∧ evs = .num key (text ++ n) :: es
  | .inLit st key v c rest, s, evs => ∃ s' es, s = c :: (rest ++ s') ∧ Completes st s' es ∧
      evs = litEvent key v :: es

/-- What may follow a step. -/
def After (x : Step) (s : Text) (evs : List Event) : Prop :=
  ∃ m e es, x = some (m, e) ∧ Remains m s es ∧ evs = e ++ es

@[simp]
theorem after_none (s : Text) (evs : List Event) : After none s evs ↔ False := by
  simp [After]

theorem after_some (m : State) (e : List Event) (s : Text) (evs : List Event) :
    After (some (m, e)) s evs ↔ ∃ es, Remains m s es ∧ evs = e ++ es := by
  simp only [After, Option.some.injEq, Prod.mk.injEq]
  constructor
  · rintro ⟨_, _, es, ⟨rfl, rfl⟩, hes⟩
    exact ⟨es, hes⟩
  · rintro ⟨es, hes⟩
    exact ⟨m, e, es, ⟨rfl, rfl⟩, hes⟩

/-- A step without events. -/
@[simp]
theorem after_silent (m : State) (s : Text) (evs : List Event) :
    After (some (m, [])) s evs ↔ Remains m s evs := by
  simp [after_some]

/-- A step with one event. -/
@[simp]
theorem after_single (m : State) (e : Event) (s : Text) (evs : List Event) :
    After (some (m, [e])) s evs ↔ ∃ es, Remains m s es ∧ evs = e :: es := by
  simp [after_some]

/-- White space, or a step that refuses white space. -/
theorem after_orWs {m : State} {b : UInt8} {x : Step} (hx : isWs b = true → x = none) (s : Text)
    (evs : List Event) :
    After (orWs m b x) s evs ↔ (isWs b = true ∧ Remains m s evs) ∨ After x s evs := by
  cases hws : isWs b with
  | true => simp [orWs, hws, hx hws]
  | false => simp [orWs, hws]

theorem ne_of_isWs {b : UInt8} (hb : isWs b = true) :
    b ≠ 34 ∧ b ≠ 44 ∧ b ≠ 58 ∧ b ≠ 91 ∧ b ≠ 93 ∧ b ≠ 102 ∧ b ≠ 110 ∧ b ≠ 116 ∧ b ≠ 123 ∧
      b ≠ 125 := by
  refine ⟨?_, ?_, ?_, ?_, ?_, ?_, ?_, ?_, ?_, ?_⟩ <;>
    · rintro rfl
      exact absurd hb (by decide)

theorem valueNext_of_isWs {b : UInt8} (hb : isWs b = true) (st : List Bool) (key : Text) :
    valueNext st key b = none := by
  have hfirst : numFirst b = none := by
    simp only [isWs, decide_eq_true_eq] at hb
    rcases hb with rfl | rfl | rfl | rfl <;> rfl
  simp [valueNext, hfirst, ne_of_isWs hb]

/-- What a step without events leaves, as a piece that starts at its byte. -/
theorem Then.ws {kind : Kind} {st : List Bool} {b : UInt8} {s : Text} {evs : List Event}
    (h : Then kind st s evs) (hkind : kind.skipsWs = true) (hb : isWs b = true) :
    Then kind st (b :: s) evs := by
  obtain ⟨e, s', es, hreads, hrest⟩ := h
  exact ⟨e, s', es, .ws hkind hb hreads, hrest⟩

/-- The first byte of a value. -/
theorem then_value_cons (st : List Bool) (key : Text) (b : UInt8) (r : Text) (evs : List Event) :
    Then (.value key) st (b :: r) evs ↔ After (valueNext st key b) r evs := by
  constructor
  · rintro ⟨e, s', es, hreads, hrest, rfl⟩
    generalize hs : b :: r = s at hreads
    cases hreads with
    | ws hkind => cases hkind
    | str h =>
      cases hs
      exact ⟨.inStr st key .plain [], [], _, rfl, ⟨_, s', h.read, es, hrest, rfl⟩, rfl⟩
    | @num _ n _ h =>
      obtain ⟨c, n, place, rfl, hfirst, htail⟩ := laxNumber_iff.mp h
      rw [List.cons_append, List.cons.injEq] at hs
      obtain ⟨rfl, rfl⟩ := hs
      exact ⟨.inNum st key place [b], [], _, by simp [valueNext, hfirst],
        ⟨n, s', rfl, htail, es, hrest, rfl⟩, rfl⟩
    | litTrue =>
      cases hs
      exact ⟨.inLit st key (some true) 114 [117, 101], [], _, rfl, ⟨s', es, rfl, hrest, rfl⟩, rfl⟩
    | litFalse =>
      cases hs
      exact ⟨.inLit st key (some false) 97 [108, 115, 101], [], _, rfl,
        ⟨s', es, rfl, hrest, rfl⟩, rfl⟩
    | litNull =>
      cases hs
      exact ⟨.inLit st key none 117 [108, 108], [], _, rfl, ⟨s', es, rfl, hrest, rfl⟩, rfl⟩
    | obj h =>
      cases hs
      exact ⟨.objBody st, [.beginObj key], _, rfl, ⟨_, s', es, h, hrest, rfl⟩, rfl⟩
    | arr h =>
      cases hs
      exact ⟨.arrBody st, [.beginArr key], _, rfl, ⟨_, s', es, h, hrest, rfl⟩, rfl⟩
  · unfold valueNext
    cases hfirst : numFirst b with
    | some place =>
      simp only [after_silent]
      rintro ⟨n, s', rfl, htail, es, hrest, rfl⟩
      exact ⟨[.num key (b :: n)], s', es, .num s' (laxNumber_iff.mpr ⟨b, n, place, rfl, hfirst,
        htail⟩), hrest, rfl⟩
    | none =>
      intro h
      dsimp only at h
      split at h
      · rename_i hb
        subst hb
        obtain ⟨v, s', hv, es, hrest, rfl⟩ := (after_silent ..).mp h
        exact ⟨[.str key v], s', es, .str (stringBody_iff.mpr hv), hrest, rfl⟩
      split at h
      · rename_i hb
        subst hb
        obtain ⟨_, ⟨e, s', es, hreads, hrest, rfl⟩, rfl⟩ := (after_single ..).mp h
        exact ⟨.beginObj key :: e, s', es, .obj hreads, hrest, rfl⟩
      split at h
      · rename_i hb
        subst hb
        obtain ⟨_, ⟨e, s', es, hreads, hrest, rfl⟩, rfl⟩ := (after_single ..).mp h
        exact ⟨.beginArr key :: e, s', es, .arr hreads, hrest, rfl⟩
      split at h
      · rename_i hb
        subst hb
        obtain ⟨s', es, rfl, hrest, rfl⟩ := (after_silent ..).mp h
        exact ⟨[.bool key true], s', es, .litTrue key s', hrest, rfl⟩
      split at h
      · rename_i hb
        subst hb
        obtain ⟨s', es, rfl, hrest, rfl⟩ := (after_silent ..).mp h
        exact ⟨[.bool key false], s', es, .litFalse key s', hrest, rfl⟩
      split at h
      · rename_i hb
        subst hb
        obtain ⟨s', es, rfl, hrest, rfl⟩ := (after_silent ..).mp h
        exact ⟨[.null key], s', es, .litNull key s', hrest, rfl⟩
      · exact ((after_none ..).mp h).elim

/-- A byte after a value. -/
theorem completes_cons (st : List Bool) (b : UInt8) (r : Text) (evs : List Event) :
    Completes st (b :: r) evs ↔ After (afterNext st b) r evs := by
  unfold afterNext
  rw [after_orWs]
  · rcases st with _ | ⟨_ | _, st⟩
    · simp only [Completes, Remains, List.mem_cons, forall_eq_or_imp, after_none, or_false]
      tauto
    · constructor
      · rintro ⟨e, s', es, hreads, hrest, rfl⟩
        cases hreads with
        | ws _ hb h => exact .inl ⟨hb, e, s', es, h, hrest, rfl⟩
        | objEnd => exact .inr ⟨.after st, _, es, rfl, hrest, rfl⟩
        | objNext h => exact .inr ⟨.member st, [], _, rfl, ⟨e, s', es, h, hrest, rfl⟩, rfl⟩
      · rintro (⟨hb, e, s', es, hreads, hrest⟩ | h)
        · exact ⟨e, s', es, .ws rfl hb hreads, hrest⟩
        dsimp only at h
        split at h
        · rename_i hb
          subst hb
          obtain ⟨e, s', es, hreads, hrest⟩ := (after_silent ..).mp h
          exact ⟨e, s', es, .objNext hreads, hrest⟩
        split at h
        · rename_i hb
          subst hb
          obtain ⟨es, hrest, rfl⟩ := (after_single ..).mp h
          exact ⟨[.endObj], r, es, .objEnd r, hrest, rfl⟩
        · exact ((after_none ..).mp h).elim
    · constructor
      · rintro ⟨e, s', es, hreads, hrest, rfl⟩
        cases hreads with
        | ws _ hb h => exact .inl ⟨hb, e, s', es, h, hrest, rfl⟩
        | arrEnd => exact .inr ⟨.after st, _, es, rfl, hrest, rfl⟩
        | arrNext h => exact .inr ⟨.element st, [], _, rfl, ⟨e, s', es, h, hrest, rfl⟩, rfl⟩
      · rintro (⟨hb, e, s', es, hreads, hrest⟩ | h)
        · exact ⟨e, s', es, .ws rfl hb hreads, hrest⟩
        dsimp only at h
        split at h
        · rename_i hb
          subst hb
          obtain ⟨e, s', es, hreads, hrest⟩ := (after_silent ..).mp h
          exact ⟨e, s', es, .arrNext hreads, hrest⟩
        split at h
        · rename_i hb
          subst hb
          obtain ⟨es, hrest, rfl⟩ := (after_single ..).mp h
          exact ⟨[.endArr], r, es, .arrEnd r, hrest, rfl⟩
        · exact ((after_none ..).mp h).elim
  · intro hb
    rcases st with _ | ⟨_ | _, st⟩ <;> simp [ne_of_isWs hb]

/-- What may follow a member's colon: white space, or the value inside its object. -/
theorem then_memberValue_cons (st : List Bool) (key : Text) (b : UInt8) (r : Text)
    (evs : List Event) :
    Then (.memberValue key) st (b :: r) evs ↔
      (isWs b = true ∧ Then (.memberValue key) st r evs) ∨
        Then (.value key) (false :: st) (b :: r) evs := by
  constructor
  · rintro ⟨e, s', es, hreads, hrest, rfl⟩
    cases hreads with
    | ws _ hb h => exact .inl ⟨hb, e, s', es, h, hrest, rfl⟩
    | memberValue hvalue h =>
      exact .inr ⟨_, _, _, hvalue, ⟨_, s', es, h, hrest, rfl⟩, List.append_assoc ..⟩
  · rintro (⟨hb, h⟩ | ⟨e, s', _, hvalue, ⟨e', s'', es, h, hrest, rfl⟩, rfl⟩)
    · exact h.ws rfl hb
    · exact ⟨e ++ e', s'', es, .memberValue hvalue h, hrest, (List.append_assoc ..).symm⟩

theorem then_element_cons (st : List Bool) (b : UInt8) (r : Text) (evs : List Event) :
    Then .element st (b :: r) evs ↔
      (isWs b = true ∧ Then .element st r evs) ∨ Then (.value []) (true :: st) (b :: r) evs := by
  constructor
  · rintro ⟨e, s', es, hreads, hrest, rfl⟩
    cases hreads with
    | ws _ hb h => exact .inl ⟨hb, e, s', es, h, hrest, rfl⟩
    | element hvalue h =>
      exact .inr ⟨_, _, _, hvalue, ⟨_, s', es, h, hrest, rfl⟩, List.append_assoc ..⟩
  · rintro (⟨hb, h⟩ | ⟨e, s', _, hvalue, ⟨e', s'', es, h, hrest, rfl⟩, rfl⟩)
    · exact h.ws rfl hb
    · exact ⟨e ++ e', s'', es, .element hvalue h, hrest, (List.append_assoc ..).symm⟩

theorem then_arrBody_cons (st : List Bool) (b : UInt8) (r : Text) (evs : List Event) :
    Then .arrBody st (b :: r) evs ↔
      (isWs b = true ∧ Then .arrBody st r evs) ∨
        (b = 93 ∧ ∃ es, Completes st r es ∧ evs = .endArr :: es) ∨
        Then (.value []) (true :: st) (b :: r) evs := by
  constructor
  · rintro ⟨e, s', es, hreads, hrest, rfl⟩
    cases hreads with
    | ws _ hb h => exact .inl ⟨hb, e, s', es, h, hrest, rfl⟩
    | arrEmpty => exact .inr (.inl ⟨rfl, es, hrest, rfl⟩)
    | arrFirst hvalue h =>
      exact .inr (.inr ⟨_, _, _, hvalue, ⟨_, s', es, h, hrest, rfl⟩, List.append_assoc ..⟩)
  · rintro (⟨hb, h⟩ | ⟨rfl, es, hrest, rfl⟩ | ⟨e, s', _, hvalue, ⟨e', s'', es, h, hrest, rfl⟩, rfl⟩)
    · exact h.ws rfl hb
    · exact ⟨[.endArr], r, es, .arrEmpty r, hrest, rfl⟩
    · exact ⟨e ++ e', s'', es, .arrFirst hvalue h, hrest, (List.append_assoc ..).symm⟩

theorem then_objBody_cons (st : List Bool) (b : UInt8) (r : Text) (evs : List Event) :
    Then .objBody st (b :: r) evs ↔
      (isWs b = true ∧ Then .objBody st r evs) ∨
        (b = 125 ∧ ∃ es, Completes st r es ∧ evs = .endObj :: es) ∨
        (b = 34 ∧ Remains (.inKey st .plain []) r evs) := by
  constructor
  · rintro ⟨e, s', es, hreads, hrest, rfl⟩
    cases hreads with
    | ws _ hb h => exact .inl ⟨hb, e, s', es, h, hrest, rfl⟩
    | objEmpty => exact .inr (.inl ⟨rfl, es, hrest, rfl⟩)
    | objFirst hkey h => exact .inr (.inr ⟨rfl, _, _, hkey.read, e, s', es, h, hrest, rfl⟩)
  · rintro (⟨hb, h⟩ | ⟨rfl, es, hrest, rfl⟩ | ⟨rfl, key, s, hkey, e, s', es, h, hrest, rfl⟩)
    · exact h.ws rfl hb
    · exact ⟨[.endObj], r, es, .objEmpty r, hrest, rfl⟩
    · exact ⟨e, s', es, .objFirst (stringBody_iff.mpr hkey) h, hrest, rfl⟩

theorem then_member_cons (st : List Bool) (b : UInt8) (r : Text) (evs : List Event) :
    Then .member st (b :: r) evs ↔
      (isWs b = true ∧ Then .member st r evs) ∨
        (b = 34 ∧ Remains (.inKey st .plain []) r evs) := by
  constructor
  · rintro ⟨e, s', es, hreads, hrest, rfl⟩
    cases hreads with
    | ws _ hb h => exact .inl ⟨hb, e, s', es, h, hrest, rfl⟩
    | key hkey h => exact .inr ⟨rfl, _, _, hkey.read, e, s', es, h, hrest, rfl⟩
  · rintro (⟨hb, h⟩ | ⟨rfl, key, s, hkey, e, s', es, h, hrest, rfl⟩)
    · exact h.ws rfl hb
    · exact ⟨e, s', es, .key (stringBody_iff.mpr hkey) h, hrest, rfl⟩

theorem then_colon_cons (st : List Bool) (key : Text) (b : UInt8) (r : Text) (evs : List Event) :
    Then (.colon key) st (b :: r) evs ↔
      (isWs b = true ∧ Then (.colon key) st r evs) ∨
        (b = 58 ∧ Then (.memberValue key) st r evs) := by
  constructor
  · rintro ⟨e, s', es, hreads, hrest, rfl⟩
    cases hreads with
    | ws _ hb h => exact .inl ⟨hb, e, s', es, h, hrest, rfl⟩
    | colon h => exact .inr ⟨rfl, e, s', es, h, hrest, rfl⟩
  · rintro (⟨hb, h⟩ | ⟨rfl, e, s', es, h, hrest, rfl⟩)
    · exact h.ws rfl hb
    · exact ⟨e, s', es, .colon h, hrest, rfl⟩

/-- A byte inside a string, split by what the string machine does with it. -/
theorem exists_readString_cons (P : Text → Text → Prop) (esc : Esc) (b : UInt8) (r : Text) :
    (∃ v s', readString esc (b :: r) = some (v, s') ∧ P v s') ↔
      match strStep esc b with
      | none => False
      | some none => P [] r
      | some (some (esc', out)) => ∃ v s', readString esc' r = some (v, s') ∧ P (out ++ v) s' := by
  rcases hstep : strStep esc b with _ | _ | ⟨esc', out⟩
  · simp [readString, hstep]
  · simp [readString, hstep]
  · rw [readString_cons hstep]
    constructor
    · rintro ⟨v, s', hv, hP⟩
      obtain ⟨v', hv', rfl⟩ := exists_of_map_append hv
      exact ⟨v', s', hv', hP⟩
    · rintro ⟨v, s', hv, hP⟩
      exact ⟨out ++ v, s', by rw [hv]; rfl, hP⟩

/-- A byte inside a number, split by what the number machine does with it. -/
theorem exists_numTail_cons (P : Text → Text → Prop) (place : NumPlace) (b : UInt8) (r : Text) :
    (∃ n s', b :: r = n ++ s' ∧ numTail place n = true ∧ P n s') ↔
      (place.ends = true ∧ P [] (b :: r)) ∨
        ∃ place', numStep place b = some place' ∧
          ∃ n s', r = n ++ s' ∧ numTail place' n = true ∧ P (b :: n) s' := by
  constructor
  · rintro ⟨n, s', hs, htail, hP⟩
    cases n with
    | nil => exact .inl ⟨htail, hs ▸ hP⟩
    | cons c n =>
      rw [List.cons_append, List.cons.injEq] at hs
      obtain ⟨rfl, rfl⟩ := hs
      cases hstep : numStep place b with
      | none => simp [numTail, hstep] at htail
      | some place' => exact .inr ⟨place', rfl, n, s', rfl, by simpa [numTail, hstep] using htail, hP⟩
  · rintro (⟨hends, hP⟩ | ⟨place', hstep, n, s', rfl, htail, hP⟩)
    · exact ⟨[], b :: r, rfl, hends, hP⟩
    · exact ⟨b :: n, s', rfl, by simpa [numTail, hstep] using htail, hP⟩

/-- A byte that continues a number cannot follow a value. -/
theorem afterNext_of_numStep {place place' : NumPlace} {b : UInt8}
    (h : numStep place b = some place') (st : List Bool) : afterNext st b = none := by
  have hb : Decimal.isDigit b = true ∨ b = 46 ∨ b = 101 ∨ b = 69 ∨ b = 43 ∨ b = 45 := by
    cases place <;>
      · simp only [numStep] at h
        split_ifs at h <;> tauto
  have hws : isWs b = false ∧ b ≠ 44 ∧ b ≠ 93 ∧ b ≠ 125 := by
    rcases hb with hb | rfl | rfl | rfl | rfl | rfl
    · simp only [Decimal.isDigit, decide_eq_true_eq] at hb
      simp only [isWs, decide_eq_false_iff_not, ← UInt8.toNat_inj, ne_eq]
      simp only [UInt8.reduceToNat]
      omega
    all_goals decide
  rcases st with _ | ⟨_ | _, st⟩ <;> simp [afterNext, orWs, hws]

/-- What may follow a state, split at its first byte. -/
theorem remains_cons (m : State) (b : UInt8) (r : Text) (evs : List Event) :
    Remains m (b :: r) evs ↔ After (next m b) r evs := by
  cases m with
  | root =>
    rw [next, after_orWs fun hb => valueNext_of_isWs hb _ _, ← then_value_cons]
    constructor
    · rintro ⟨w, s', hs, hw, h⟩
      cases w with
      | nil => exact .inr (hs ▸ h)
      | cons c w =>
        rw [List.cons_append, List.cons.injEq] at hs
        rw [List.forall_mem_cons] at hw
        exact .inl ⟨hs.1 ▸ hw.1, w, s', hs.2, hw.2, h⟩
    · rintro (⟨hb, w, s', rfl, hw, h⟩ | h)
      · exact ⟨b :: w, s', rfl, List.forall_mem_cons.mpr ⟨hb, hw⟩, h⟩
      · exact ⟨[], b :: r, rfl, by simp, h⟩
  | after st => exact completes_cons st b r evs
  | objBody st =>
    rw [next, after_orWs fun hb => by simp [ne_of_isWs hb]]
    refine (then_objBody_cons st b r evs).trans (or_congr Iff.rfl ?_)
    by_cases hclose : b = 125
    · simp [hclose, Remains]
    · by_cases hquote : b = 34 <;> simp [hclose, hquote]
  | member st =>
    rw [next, after_orWs fun hb => by simp [ne_of_isWs hb]]
    refine (then_member_cons st b r evs).trans (or_congr Iff.rfl ?_)
    by_cases hquote : b = 34 <;> simp [hquote]
  | inKey st esc key =>
    simp only [Remains, exists_readString_cons, next]
    rcases strStep esc b with _ | _ | ⟨esc', out⟩ <;> simp [Remains, List.append_assoc]
  | colon st key =>
    rw [next, after_orWs fun hb => by simp [ne_of_isWs hb]]
    refine (then_colon_cons st key b r evs).trans (or_congr Iff.rfl ?_)
    by_cases hcolon : b = 58 <;> simp [hcolon, Remains]
  | memberValue st key =>
    rw [next, after_orWs fun hb => valueNext_of_isWs hb _ _, ← then_value_cons]
    exact then_memberValue_cons st key b r evs
  | arrBody st =>
    rw [next, after_orWs fun hb => by simp [ne_of_isWs hb, valueNext_of_isWs hb]]
    refine (then_arrBody_cons st b r evs).trans (or_congr Iff.rfl ?_)
    rw [then_value_cons]
    by_cases hclose : b = 93
    · subst hclose
      simp [Remains, valueNext, numFirst, Decimal.isDigit]
    · simp [hclose]
  | element st =>
    rw [next, after_orWs fun hb => valueNext_of_isWs hb _ _, ← then_value_cons]
    exact then_element_cons st b r evs
  | inStr st key esc v =>
    simp only [Remains, exists_readString_cons, next]
    rcases strStep esc b with _ | _ | ⟨esc', out⟩ <;> simp [Remains, List.append_assoc]
  | inNum st key place text =>
    simp only [Remains, exists_numTail_cons, next, completes_cons]
    cases hstep : numStep place b with
    | some place' => simp [afterNext_of_numStep hstep, Remains, List.append_assoc]
    | none =>
      by_cases hends : place.ends = true
      · rcases afterNext st b with _ | ⟨m, e⟩
        · simp [hends]
        · simp only [hends, after_some, List.append_nil, true_and, reduceCtorEq, false_and,
            exists_false, or_false, if_true, Option.map_some, List.cons_append]
          constructor
          · rintro ⟨_, ⟨es, hes, rfl⟩, rfl⟩
            exact ⟨es, hes, rfl⟩
          · rintro ⟨es, hes, rfl⟩
            exact ⟨_, ⟨es, hes, rfl⟩, rfl⟩
      · simp [hends]
  | inLit st key v c rest =>
    by_cases hc : b = c
    · subst hc
      cases rest <;> simp [Remains, next]
    · simp [Remains, next, hc]

/-- No piece is empty. -/
theorem Reads.ne_nil {kind : Kind} {s : Text} {e : List Event} {rest : Text}
    (h : Reads LaxNumber kind s e rest) : s ≠ [] := by
  induction h with
  | num rest h => simp [h.ne_nil]
  | memberValue _ _ ih => exact ih
  | arrFirst _ _ ih => exact ih
  | element _ _ ih => exact ih
  | _ => simp

theorem not_then_nil (kind : Kind) (st : List Bool) (evs : List Event) : ¬ Then kind st [] evs := by
  rintro ⟨e, s', es, hreads, -⟩
  exact hreads.ne_nil rfl

theorem completes_nil (st : List Bool) (evs : List Event) :
    Completes st [] evs ↔ st = [] ∧ evs = [] := by
  cases st with
  | nil => simp [Completes]
  | cons isArr st =>
    simp only [reduceCtorEq, false_and, iff_false]
    rintro ⟨e, s', es, hreads, -⟩
    exact hreads.ne_nil rfl

/-- The text may end exactly in the states that finish. -/
theorem remains_nil (m : State) (evs : List Event) : Remains m [] evs ↔ finish m = some evs := by
  cases m with
  | root =>
    simp only [Remains, finish, reduceCtorEq, iff_false]
    rintro ⟨w, s', hs, -, h⟩
    exact not_then_nil _ _ _ ((List.append_eq_nil_iff.mp hs.symm).2 ▸ h)
  | after st => cases st <;> simp [Remains, completes_nil, finish, eq_comm]
  | inNum st key place text =>
    have htail : numTail place [] = place.ends := rfl
    cases st with
    | nil =>
      by_cases hends : place.ends = true
      · simp only [Remains, List.nil_eq, List.append_eq_nil_iff, finish, hends, if_true,
          Option.some.injEq]
        constructor
        · rintro ⟨n, s', ⟨rfl, rfl⟩, -, es, hrest, rfl⟩
          rw [List.append_nil, ((completes_nil ..).mp hrest).2]
        · rintro rfl
          exact ⟨[], [], ⟨rfl, rfl⟩, htail.trans hends, [], (completes_nil ..).mpr ⟨rfl, rfl⟩,
            by rw [List.append_nil]⟩
      · simp only [Remains, List.nil_eq, List.append_eq_nil_iff, finish, hends, Bool.false_eq_true,
          if_false, reduceCtorEq, iff_false]
        rintro ⟨n, s', ⟨rfl, rfl⟩, hn, -⟩
        exact hends (htail ▸ hn)
    | cons isArr st =>
      simp only [Remains, List.nil_eq, List.append_eq_nil_iff, finish, reduceCtorEq, iff_false]
      rintro ⟨n, s', ⟨rfl, rfl⟩, -, es, hrest, -⟩
      cases ((completes_nil ..).mp hrest).1
  | inKey => simp [Remains, finish, readString]
  | inStr => simp [Remains, finish, readString]
  | inLit => simp [Remains, finish]
  | _ => simp [Remains, finish, not_then_nil]

/-- The machine accepts exactly what may follow its state. -/
theorem reading_iff (m : State) (r : Text) (evs : List Event) :
    reading next m r = some evs ↔ Remains m r evs := by
  induction r generalizing m evs with
  | nil => rw [reading_nil, remains_nil]
  | cons b r ih =>
    rw [reading_cons, remains_cons]
    simp only [After, ih]

/-! ## Limits -/

/-- How deep containers may nest, and how long a key and a number text together may be. -/
structure Limits where
  depth : Nat
  token : Nat
  deriving Repr, DecidableEq

/-- The number of open containers. -/
def State.depth : State → Nat
  | .root => 0
  | .after st => st.length
  | .objBody st => st.length + 1
  | .member st => st.length + 1
  | .inKey st _ _ => st.length + 1
  | .colon st _ => st.length + 1
  | .memberValue st _ => st.length + 1
  | .arrBody st => st.length + 1
  | .element st => st.length + 1
  | .inStr st _ _ _ => st.length
  | .inNum st _ _ _ => st.length
  | .inLit st _ _ _ _ => st.length

/-- The length of the key, and of the number text after it, that the state holds. -/
def State.size : State → Nat
  | .inKey _ _ key => key.length
  | .colon _ key => key.length
  | .memberValue _ key => key.length
  | .inStr _ key _ _ => key.length
  | .inNum _ key _ text => key.length + text.length
  | .inLit _ key _ _ _ => key.length
  | _ => 0

/-- The state is within the limits. -/
def State.Within (limits : Limits) (m : State) : Prop :=
  m.depth ≤ limits.depth ∧ m.size ≤ limits.token

instance (limits : Limits) (m : State) : Decidable (m.Within limits) :=
  inferInstanceAs (Decidable (_ ∧ _))

/-- A step that refuses states beyond the limits. -/
def nextWithin (limits : Limits) (m : State) (b : UInt8) : Step :=
  (next m b).filter fun p => p.1.Within limits

theorem nextWithin_eq_some {limits : Limits} {m m' : State} {b : UInt8} {e : List Event} :
    nextWithin limits m b = some (m', e) ↔ next m b = some (m', e) ∧ m'.Within limits := by
  simp [nextWithin, Option.filter_eq_some_iff]

/--
What a step does to depth and size: the events carry the state's depth on, are no larger
than the state, and only they make the state smaller.
-/
structure StepSpec (m : State) (m' : State) (e : List Event) : Prop where
  depth_eq : m'.depth = depthAfter m.depth e
  nests : ∀ limit, m.depth ≤ limit → (Nests limit m.depth e ↔ m'.depth ≤ limit)
  size_le : ∀ ev ∈ e, ev.size ≤ m.size
  le_size : m.size ≤ m'.size ∨ ∃ ev ∈ e, m.size ≤ ev.size

/-- A step without events that keeps the depth and does not shrink. -/
theorem StepSpec.silent {m m' : State} (hdepth : m'.depth = m.depth) (hsize : m.size ≤ m'.size) :
    StepSpec m m' [] where
  depth_eq := hdepth
  nests := by
    intro limit hlimit
    simp [Nests, hdepth, hlimit]
  size_le := by simp
  le_size := .inl hsize

/-- A container opens. -/
theorem StepSpec.opens {m m' : State} {key : Text} {e : Event}
    (he : e = .beginObj key ∨ e = .beginArr key) (hdepth : m'.depth = m.depth + 1)
    (hsize : m.size = key.length) : StepSpec m m' [e] := by
  rcases he with rfl | rfl <;>
    · constructor
      · rw [hdepth]
        rfl
      · intro limit _
        simp only [Nests, and_true, hdepth, Nat.succ_le_iff]
      · simp [Event.size, Event.key, hsize]
      · exact .inr ⟨_, List.mem_singleton_self _, hsize.le⟩

/-- A value's first byte, in a state that holds nothing but the value's key. -/
theorem StepSpec.value {m m' : State} {st : List Bool} {key : Text} {b : UInt8} {e : List Event}
    (hdepth : m.depth = st.length) (hsize : m.size = key.length)
    (h : valueNext st key b = some (m', e)) : StepSpec m m' e := by
  unfold valueNext at h
  cases hfirst : numFirst b with
  | some place =>
    rw [hfirst] at h
    cases h
    exact .silent hdepth.symm (hsize.le.trans (Nat.le_add_right ..))
  | none =>
    rw [hfirst] at h
    dsimp only at h
    split_ifs at h <;> cases h
    · exact .silent hdepth.symm hsize.le
    · exact .opens (.inl rfl) (congrArg (· + 1) hdepth.symm) hsize
    · exact .opens (.inr rfl) (congrArg (· + 1) hdepth.symm) hsize
    · exact .silent hdepth.symm hsize.le
    · exact .silent hdepth.symm hsize.le
    · exact .silent hdepth.symm hsize.le

/-- A byte after a value. -/
theorem StepSpec.after {st : List Bool} {b : UInt8} {m' : State} {e : List Event}
    (h : afterNext st b = some (m', e)) : StepSpec (.after st) m' e := by
  unfold afterNext orWs at h
  rcases st with _ | ⟨_ | _, st⟩ <;> dsimp only at h <;> split_ifs at h <;> cases h
  · exact .silent rfl (Nat.zero_le _)
  · exact .silent rfl (Nat.zero_le _)
  · exact .silent rfl (Nat.zero_le _)
  · refine ⟨rfl, ?_, by simp [Event.size, Event.key], .inl (Nat.zero_le _)⟩
    intro limit hlimit
    simp only [State.depth, List.length_cons] at hlimit
    simp only [Nests, State.depth, true_iff]
    omega
  · exact .silent rfl (Nat.zero_le _)
  · exact .silent rfl (Nat.zero_le _)
  · refine ⟨rfl, ?_, by simp [Event.size, Event.key], .inl (Nat.zero_le _)⟩
    intro limit hlimit
    simp only [State.depth, List.length_cons] at hlimit
    simp only [Nests, State.depth, true_iff]
    omega

/-- The end of a container that has just begun. -/
theorem StepSpec.close {m m' : State} {e : Event} (he : e = .endObj ∨ e = .endArr)
    (hdepth : m'.depth + 1 = m.depth) (hsize : m.size = 0) : StepSpec m m' [e] := by
  rcases he with rfl | rfl <;>
    · constructor
      · simp [depthAfter, ← hdepth]
      · intro limit hlimit
        simp only [Nests, true_iff]
        omega
      · simp [Event.size, Event.key]
      · exact .inl (hsize ▸ Nat.zero_le _)

/-- The last byte of a value that is not a container. -/
theorem StepSpec.leaf {m m' : State} {e : Event} (hleaf : ∀ d, depthAfter d [e] = d)
    (hnests : ∀ limit d, Nests limit d [e]) (hdepth : m'.depth = m.depth) (hsize : e.size = m.size) :
    StepSpec m m' [e] where
  depth_eq := by rw [hleaf, hdepth]
  nests := by
    intro limit hlimit
    simp [hnests, hdepth, hlimit]
  size_le := by simp [hsize]
  le_size := .inr ⟨e, List.mem_singleton_self _, hsize.ge⟩

/-- The byte that ends a number is also a byte after it. -/
theorem StepSpec.num {st : List Bool} {key : Text} {place : NumPlace} {text : Text} {m' : State}
    {e : List Event} (h : StepSpec (.after st) m' e) :
    StepSpec (.inNum st key place text) m' (.num key text :: e) where
  depth_eq := h.depth_eq
  nests := h.nests
  size_le := by
    rw [List.forall_mem_cons]
    exact ⟨le_rfl, fun ev hev => (h.size_le ev hev).trans (Nat.zero_le _)⟩
  le_size := .inr ⟨_, List.mem_cons_self .., le_rfl⟩

/-- What every step does to depth and size. -/
theorem next_spec {m m' : State} {b : UInt8} {e : List Event} (h : next m b = some (m', e)) :
    StepSpec m m' e := by
  cases m with
  | root =>
    simp only [next, orWs] at h
    split_ifs at h
    · cases h
      exact .silent rfl le_rfl
    · exact .value rfl rfl h
  | after st => exact .after h
  | objBody st =>
    simp only [next, orWs] at h
    split_ifs at h <;> cases h
    · exact .silent rfl le_rfl
    · exact .close (.inl rfl) rfl rfl
    · exact .silent rfl (Nat.zero_le _)
  | member st =>
    simp only [next, orWs] at h
    split_ifs at h <;> cases h
    · exact .silent rfl le_rfl
    · exact .silent rfl (Nat.zero_le _)
  | inKey st esc key =>
    rcases hstep : strStep esc b with _ | _ | ⟨esc', out⟩ <;> simp only [next, hstep] at h <;> cases h
    · exact .silent rfl le_rfl
    · exact .silent rfl (by simp [State.size])
  | colon st key =>
    simp only [next, orWs] at h
    split_ifs at h <;> cases h
    · exact .silent rfl le_rfl
    · exact .silent rfl le_rfl
  | memberValue st key =>
    simp only [next, orWs] at h
    split_ifs at h
    · cases h
      exact .silent rfl le_rfl
    · exact .value rfl rfl h
  | arrBody st =>
    simp only [next, orWs] at h
    split_ifs at h
    · cases h
      exact .silent rfl le_rfl
    · cases h
      exact .close (.inr rfl) rfl rfl
    · exact .value rfl rfl h
  | element st =>
    simp only [next, orWs] at h
    split_ifs at h
    · cases h
      exact .silent rfl le_rfl
    · exact .value rfl rfl h
  | inStr st key esc v =>
    rcases hstep : strStep esc b with _ | _ | ⟨esc', out⟩ <;> simp only [next, hstep] at h <;> cases h
    · exact .leaf (fun _ => rfl) (fun _ _ => trivial) rfl rfl
    · exact .silent rfl le_rfl
  | inNum st key place text =>
    cases hstep : numStep place b with
    | some place' =>
      simp only [next, hstep] at h
      cases h
      exact .silent rfl (by simp [State.size])
    | none =>
      simp only [next, hstep] at h
      split_ifs at h
      obtain ⟨⟨m'', e'⟩, hafter, heq⟩ := Option.map_eq_some_iff.mp h
      cases heq
      exact StepSpec.num (StepSpec.after hafter)
  | inLit st key v c rest =>
    simp only [next] at h
    split_ifs at h
    cases rest with
    | nil =>
      cases h
      cases v with
      | none => exact .leaf (fun _ => rfl) (fun _ _ => trivial) rfl rfl
      | some v => exact .leaf (fun _ => rfl) (fun _ _ => trivial) rfl rfl
    | cons c' rest =>
      cases h
      exact .silent rfl le_rfl

/-- A state's key and number text show up in an event before the text ends. -/
theorem size_le_of_reading {m : State} {r : Text} {evs : List Event} {limit : Nat}
    (h : reading next m r = some evs) (hfit : Fit limit evs) : m.size ≤ limit := by
  induction r generalizing m evs with
  | nil =>
    rw [reading_nil] at h
    rcases m with _ | _ | _ | _ | _ | _ | _ | _ | _ | _ | ⟨_ | _, key, place, text⟩ | _ <;>
      simp only [finish, reduceCtorEq] at h <;> try exact Nat.zero_le _
    split_ifs at h
    cases h
    exact hfit _ (List.mem_singleton_self _)
  | cons b r ih =>
    obtain ⟨m', e, es, hstep, hes, rfl⟩ := reading_cons.mp h
    rw [fit_append] at hfit
    rcases (next_spec hstep).le_size with hle | ⟨ev, hev, hle⟩
    · exact hle.trans (ih hes hfit.2)
    · exact hle.trans (hfit.1 ev hev)

/-- The limits refuse exactly the texts whose events exceed them. -/
theorem reading_within_iff {limits : Limits} {m : State} (hm : m.Within limits) (r : Text)
    (evs : List Event) :
    reading (nextWithin limits) m r = some evs ↔
      reading next m r = some evs ∧ Nests limits.depth m.depth evs ∧ Fit limits.token evs := by
  induction r generalizing m evs with
  | nil =>
    simp only [reading_nil, iff_self_and]
    intro h
    rcases m with _ | ⟨_ | _⟩ | _ | _ | _ | _ | _ | _ | _ | _ | ⟨_ | _, key, place, text⟩ | _ <;>
      simp only [finish, reduceCtorEq] at h
    · cases h
      exact ⟨trivial, by simp [Fit]⟩
    · split_ifs at h
      cases h
      refine ⟨trivial, ?_⟩
      intro ev hev
      rw [List.mem_singleton.mp hev]
      exact hm.2
  | cons b r ih =>
    simp only [reading_cons, nextWithin_eq_some]
    constructor
    · rintro ⟨m', e, es, ⟨hstep, hm'⟩, hes, rfl⟩
      have hspec := next_spec hstep
      obtain ⟨hread, hnests, hfit⟩ := (ih hm' es).mp hes
      refine ⟨⟨m', e, es, hstep, hread, rfl⟩, ?_, ?_⟩
      · rw [nests_append, hspec.nests _ hm.1, ← hspec.depth_eq]
        exact ⟨hm'.1, hnests⟩
      · rw [fit_append]
        exact ⟨fun ev hev => (hspec.size_le ev hev).trans hm.2, hfit⟩
    · rintro ⟨⟨m', e, es, hstep, hread, rfl⟩, hnests, hfit⟩
      have hspec := next_spec hstep
      rw [nests_append, hspec.nests _ hm.1, ← hspec.depth_eq] at hnests
      rw [fit_append] at hfit
      have hm' : m'.Within limits := ⟨hnests.1, size_le_of_reading hread hfit.2⟩
      exact ⟨m', e, es, ⟨hstep, hm'⟩, (ih hm' es).mpr ⟨hread, hnests.2, hfit.2⟩, rfl⟩

/-- What may follow the root is a text of the grammar. -/
theorem remains_root_iff (s : Text) (evs : List Event) :
    Remains .root s evs ↔ IsText LaxNumber s evs := by
  constructor
  · rintro ⟨w, s', rfl, hw, e, w', es, hreads, ⟨rfl, hw'⟩, rfl⟩
    exact ⟨w, s', w', rfl, hw, by rwa [List.append_nil], hw'⟩
  · rintro ⟨w, s', w', rfl, hw, hreads, hw'⟩
    exact ⟨w, s', rfl, hw, evs, w', [], hreads, ⟨rfl, hw'⟩, (List.append_nil _).symm⟩

/-- From the root, the limited machine accepts exactly the texts within the limits. -/
theorem reading_root_iff (limits : Limits) (s : Text) (evs : List Event) :
    reading (nextWithin limits) .root s = some evs ↔
      IsText LaxNumber s evs ∧ Nests limits.depth 0 evs ∧ Fit limits.token evs := by
  have hroot : State.root.Within limits := ⟨Nat.zero_le _, Nat.zero_le _⟩
  rw [reading_within_iff hroot, reading_iff, remains_root_iff]
  rfl

/-- A text has one list of events. -/
theorem IsText.unique {s : Text} {evs evs' : List Event} (h : IsText LaxNumber s evs)
    (h' : IsText LaxNumber s evs') : evs = evs' := by
  rw [← remains_root_iff, ← reading_iff] at h h'
  exact Option.some.inj (h.symm.trans h')

end JsonText
end Foundations
end Breadboard
