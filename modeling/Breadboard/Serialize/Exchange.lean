import Breadboard.Serialize.Confined

/-!
# bb_serialize - the calls populate makes

A source that also notes each of its calls, with the state it is called in, runs the
populate of `bb_serialize_populate.c` itself: forgetting the notes gives the run
without them.  What it notes is an exchange: container after container, a begin call
that succeeds is followed, after what is read inside, by the end call of its kind, also
where the scatter stops early.

The check of the descriptor reads no more than the table, so what it passes has no
container at the depth limit and none of the types the scatter leaves alone.

Main results:

- Theorem `populate_exchange`: the calls are an exchange.
- Theorem `allOrNothing`: a populate is rejected before it starts or runs to its end.
-/

namespace Breadboard
namespace Serialize

/-! ## Sources that note their calls -/

/-- A callback of `bb_serialize_populate_t` with its arguments. -/
inductive SourceCall where
  | getI64 (key : Bytes)
  | getU64 (key : Bytes)
  | getF64 (key : Bytes)
  | getBool (key : Bytes)
  | getStr (key : Option Bytes) (cap : Nat)
  | beginObj (key : Option Bytes)
  | endObj
  | beginArr (key : Bytes)
  | endArr
  deriving Repr, DecidableEq

/-- The calls so far, each with the state of the source it was made in. -/
abbrev CallLog (σ : Type) := List (SourceCall × σ)

section Traced

variable {σ : Type}

/-- The source with a log of its calls. -/
def Source.traced (src : Source σ) : Source (σ × CallLog σ) where
  getI64 := fun x key =>
    ((src.getI64 x.1 key).1, (src.getI64 x.1 key).2, x.2 ++ [(.getI64 key, x.1)])
  getU64 := fun x key =>
    ((src.getU64 x.1 key).1, (src.getU64 x.1 key).2, x.2 ++ [(.getU64 key, x.1)])
  getF64 := fun x key =>
    ((src.getF64 x.1 key).1, (src.getF64 x.1 key).2, x.2 ++ [(.getF64 key, x.1)])
  getBool := fun x key =>
    ((src.getBool x.1 key).1, (src.getBool x.1 key).2, x.2 ++ [(.getBool key, x.1)])
  getStr := fun x key cap =>
    ((src.getStr x.1 key cap).1, (src.getStr x.1 key cap).2, x.2 ++ [(.getStr key cap, x.1)])
  beginObj := fun x key =>
    ((src.beginObj x.1 key).1, (src.beginObj x.1 key).2, x.2 ++ [(.beginObj key, x.1)])
  endObj := fun x => (src.endObj x.1, x.2 ++ [(.endObj, x.1)])
  beginArr := fun x key =>
    ((src.beginArr x.1 key).1, (src.beginArr x.1 key).2, x.2 ++ [(.beginArr key, x.1)])
  endArr := fun x => (src.endArr x.1, x.2 ++ [(.endArr, x.1)])

/-- The state with an empty log. -/
def Scatter.traced (s : Scatter σ) : Scatter (σ × CallLog σ) where
  mem := s.mem
  src := (s.src, [])
  stores := s.stores

/-- The state without its log. -/
def Scatter.erase (s : Scatter (σ × CallLog σ)) : Scatter σ where
  mem := s.mem
  src := s.src.1
  stores := s.stores

@[simp] theorem Scatter.erase_traced (s : Scatter σ) : s.traced.erase = s := rfl

@[simp] theorem Scatter.erase_store (s : Scatter (σ × CallLog σ)) (a : Nat) (bytes : Bytes) :
    (s.store a bytes).erase = s.erase.store a bytes := rfl

variable {P : Program} {src : Source σ}

theorem scatterScalar_erase (s : Scatter (σ × CallLog σ)) (p : Nat) (bytes : Option Bytes) (x : σ)
    (log : CallLog σ) :
    scatterScalar s.erase p (bytes, x) = (scatterScalar s p (bytes, x, log)).erase := by
  cases bytes with
  | none => rfl
  | some bytes => rfl

theorem scatterStrs_erase (f : Field) (items n written : Nat) (s : Scatter (σ × CallLog σ)) :
    (scatterStrs P src f items n written s.erase).1 =
        (scatterStrs P src.traced f items n written s).1 ∧
      (scatterStrs P src f items n written s.erase).2 =
        (scatterStrs P src.traced f items n written s).2.erase := by
  induction n generalizing written s with
  | zero => exact ⟨rfl, rfl⟩
  | succ n ih =>
    unfold scatterStrs
    dsimp only
    have hcall : src.traced.getStr s.src none f.maxLen = ((src.getStr s.src.1 none f.maxLen).1,
        (src.getStr s.src.1 none f.maxLen).2, s.src.2 ++ [(.getStr none f.maxLen, s.src.1)]) := rfl
    have herase : s.erase.src = s.src.1 := rfl
    rw [hcall, herase]
    rcases src.getStr s.src.1 none f.maxLen with ⟨_ | str, src'⟩
    · exact ⟨rfl, rfl⟩
    · exact ih (written + 1) (Scatter.store
        { s with src := (src', s.src.2 ++ [(.getStr none f.maxLen, s.src.1)]) }
        (load s.mem (items + written * P.wordBytes) P.wordBytes) str.1)

/-- A scatter over the noting source, without its notes, is the scatter over the source. -/
def Erases (scatter : Nat → Scatter σ → BbErr × Scatter σ)
    (traced : Nat → Scatter (σ × CallLog σ) → BbErr × Scatter (σ × CallLog σ)) : Prop :=
  ∀ p s, (scatter p s.erase).1 = (traced p s).1 ∧ (scatter p s.erase).2 = (traced p s).2.erase

theorem scatterObjs_erase {scatter : Nat → Scatter σ → BbErr × Scatter σ}
    {traced : Nat → Scatter (σ × CallLog σ) → BbErr × Scatter (σ × CallLog σ)}
    (h : Erases scatter traced) (f : Field) (items n written : Nat)
    (s : Scatter (σ × CallLog σ)) :
    (scatterObjs src scatter f items n written s.erase).1 =
        (scatterObjs src.traced traced f items n written s).1 ∧
      (scatterObjs src scatter f items n written s.erase).2.1 =
        (scatterObjs src.traced traced f items n written s).2.1 ∧
      (scatterObjs src scatter f items n written s.erase).2.2 =
        (scatterObjs src.traced traced f items n written s).2.2.erase := by
  induction n generalizing written s with
  | zero => exact ⟨rfl, rfl, rfl⟩
  | succ n ih =>
    unfold scatterObjs
    have hcall : src.traced.beginObj s.src none = ((src.beginObj s.src.1 none).1,
        (src.beginObj s.src.1 none).2, s.src.2 ++ [(.beginObj none, s.src.1)]) := rfl
    have herase : s.erase.src = s.src.1 := rfl
    rw [hcall, herase]
    rcases src.beginObj s.src.1 none with ⟨_ | _, src'⟩
    · exact ⟨rfl, rfl, rfl⟩
    · dsimp only
      obtain ⟨hstatus, hstate⟩ := h (items + written * f.elemSize)
        { s with src := (src', s.src.2 ++ [(.beginObj none, s.src.1)]) }
      have hbegun : ({ s.erase with src := src' } : Scatter σ) = Scatter.erase
        { s with src := (src', s.src.2 ++ [(.beginObj none, s.src.1)]) } := rfl
      rw [hbegun, hstatus, hstate]
      generalize traced (items + written * f.elemSize)
        { s with src := (src', s.src.2 ++ [(.beginObj none, s.src.1)]) } = r
      split
      · exact ⟨rfl, rfl, rfl⟩
      · exact ih (written + 1) { r.2 with src := src.traced.endObj r.2.src }

theorem scatterArr_erase {scatter : List Field → Nat → Scatter σ → BbErr × Scatter σ}
    {traced : List Field → Nat → Scatter (σ × CallLog σ) → BbErr × Scatter (σ × CallLog σ)}
    (h : ∀ fields, Erases (scatter fields) (traced fields)) (f : Field) (p count : Nat)
    (s : Scatter (σ × CallLog σ)) :
    (scatterArr P src scatter f p count s.erase).1 = (scatterArr P src.traced traced f p count s).1 ∧
      (scatterArr P src scatter f p count s.erase).2 =
        (scatterArr P src.traced traced f p count s).2.erase := by
  unfold scatterArr
  have hmem : s.erase.mem = s.mem := rfl
  dsimp only
  rw [hmem]
  generalize (if count < f.maxItems then count else f.maxItems) = n
  generalize load s.mem p P.wordBytes = items
  have helements : ∀ (r : BbErr × Nat × Scatter σ) (t : BbErr × Nat × Scatter (σ × CallLog σ)),
      r = (if items = 0 then (.ok, 0, s.erase)
        else if f.elemType = .obj then
          scatterObjs src (scatter (P.tables f.children)) f items n 0 s.erase
        else (.ok, scatterStrs P src f items n 0 s.erase)) →
      t = (if items = 0 then (.ok, 0, s)
        else if f.elemType = .obj then
          scatterObjs src.traced (traced (P.tables f.children)) f items n 0 s
        else (.ok, scatterStrs P src.traced f items n 0 s)) →
      r.1 = t.1 ∧ r.2.1 = t.2.1 ∧ r.2.2 = t.2.2.erase := by
    rintro r t rfl rfl
    split
    · exact ⟨rfl, rfl, rfl⟩
    split
    · exact scatterObjs_erase (h _) f items n 0 s
    · obtain ⟨hwritten, hstate⟩ := @scatterStrs_erase σ P src f items n 0 s
      exact ⟨rfl, hwritten, hstate⟩
  obtain ⟨hstatus, hwritten, hstate⟩ := helements _ _ rfl rfl
  rw [hstatus, hwritten, hstate]
  generalize (if items = 0 then (BbErr.ok, 0, s)
    else if f.elemType = .obj then
      scatterObjs src.traced (traced (P.tables f.children)) f items n 0 s
    else (BbErr.ok, scatterStrs P src.traced f items n 0 s)) = t
  split
  · exact ⟨rfl, rfl⟩
  · exact ⟨rfl, rfl⟩

/-- The scatters of the levels below, with and without notes. -/
def ErasesNested : Option (List Field → Nat → Scatter σ → BbErr × Scatter σ) →
    Option (List Field → Nat → Scatter (σ × CallLog σ) → BbErr × Scatter (σ × CallLog σ)) → Prop
  | none, none => True
  | some scatter, some traced => ∀ fields, Erases (scatter fields) (traced fields)
  | _, _ => False

theorem populateField_erase {scatter : Option (List Field → Nat → Scatter σ → BbErr × Scatter σ)}
    {traced : Option (List Field → Nat → Scatter (σ × CallLog σ) → BbErr × Scatter (σ × CallLog σ))}
    (h : ErasesNested scatter traced) (dst : Nat) (f : Field) (s : Scatter (σ × CallLog σ)) :
    (populateField P src scatter dst f s.erase).1 =
        (populateField P src.traced traced dst f s).1 ∧
      (populateField P src scatter dst f s.erase).2 =
        (populateField P src.traced traced dst f s).2.erase := by
  have herase : s.erase.src = s.src.1 := rfl
  unfold populateField
  cases f.type with
  | i64 | u64 | f64 | bool | str =>
    dsimp only [Source.traced]
    exact ⟨rfl, scatterScalar_erase s _ _ _ _⟩
  | strN | ref => exact ⟨rfl, rfl⟩
  | obj =>
    cases scatter <;> cases traced <;> try exact h.elim
    case none.none => exact ⟨rfl, rfl⟩
    case some.some scatter traced =>
      have hcall : src.traced.beginObj s.src (some f.key) = ((src.beginObj s.src.1 (some f.key)).1,
          (src.beginObj s.src.1 (some f.key)).2, s.src.2 ++ [(.beginObj (some f.key), s.src.1)]) :=
        rfl
      dsimp only
      rw [hcall, herase]
      rcases src.beginObj s.src.1 (some f.key) with ⟨_ | _, src'⟩
      · exact ⟨rfl, rfl⟩
      · obtain ⟨hstatus, hstate⟩ := h (P.tables f.children) (dst + f.offset)
          { s with src := (src', s.src.2 ++ [(.beginObj (some f.key), s.src.1)]) }
        have hbegun : ({ s.erase with src := src' } : Scatter σ) = Scatter.erase
          { s with src := (src', s.src.2 ++ [(.beginObj (some f.key), s.src.1)]) } := rfl
        dsimp only
        rw [hbegun, hstatus, hstate]
        exact ⟨rfl, rfl⟩
  | arr =>
    cases scatter <;> cases traced <;> try exact h.elim
    case none.none => exact ⟨rfl, rfl⟩
    case some.some scatter traced =>
      have hcall : src.traced.beginArr s.src f.key = ((src.beginArr s.src.1 f.key).1,
          (src.beginArr s.src.1 f.key).2, s.src.2 ++ [(.beginArr f.key, s.src.1)]) := rfl
      dsimp only
      rw [hcall, herase]
      rcases src.beginArr s.src.1 f.key with ⟨_ | count, src'⟩
      · exact ⟨rfl, rfl⟩
      · exact scatterArr_erase h f (dst + f.offset) count
          { s with src := (src', s.src.2 ++ [(.beginArr f.key, s.src.1)]) }

theorem scatterEach_erase {scatter : Field → Scatter σ → BbErr × Scatter σ}
    {traced : Field → Scatter (σ × CallLog σ) → BbErr × Scatter (σ × CallLog σ)}
    (h : ∀ f s, (scatter f s.erase).1 = (traced f s).1 ∧
      (scatter f s.erase).2 = (traced f s).2.erase)
    (fields : List Field) (s : Scatter (σ × CallLog σ)) :
    (scatterEach scatter fields s.erase).1 = (scatterEach traced fields s).1 ∧
      (scatterEach scatter fields s.erase).2 = (scatterEach traced fields s).2.erase := by
  induction fields generalizing s with
  | nil => exact ⟨rfl, rfl⟩
  | cons f fields ih =>
    obtain ⟨hstatus, hstate⟩ := h f s
    unfold scatterEach
    dsimp only
    rw [hstatus, hstate]
    split
    · exact ⟨hstatus, hstate⟩
    · exact ih _

variable (P src)

theorem populateFields_erase (n : Nat) (fields : List Field) :
    Erases (populateFields P src n fields) (populateFields P src.traced n fields) := by
  induction n generalizing fields with
  | zero =>
    have hnested : @ErasesNested σ none none := trivial
    exact fun p s => scatterEach_erase (fun f s => populateField_erase hnested p f s) fields s
  | succ n ih =>
    have hnested :
        ErasesNested (some (populateFields P src n)) (some (populateFields P src.traced n)) := ih
    exact fun p s => scatterEach_erase (fun f s => populateField_erase hnested p f s) fields s

/-- Noting the calls changes nothing else. -/
theorem populate_erase (fields : List Field) (dst : Nat) (s : Scatter σ) :
    (populate P src fields dst s).1 = (populate P src.traced fields dst s.traced).1 ∧
      (populate P src fields dst s).2 = (populate P src.traced fields dst s.traced).2.erase := by
  unfold populate
  dsimp only
  split
  · exact ⟨rfl, rfl⟩
  · exact populateFields_erase P src maxDepth fields dst s.traced

end Traced

/-! ## Exchanges -/

section Exchange

variable {σ : Type}

/-- A call that opens and closes nothing: a getter, or a begin call that fails. -/
inductive Reads (src : Source σ) (x : σ) : SourceCall → σ → Prop where
  | getI64 (key : Bytes) : Reads src x (.getI64 key) (src.getI64 x key).2
  | getU64 (key : Bytes) : Reads src x (.getU64 key) (src.getU64 x key).2
  | getF64 (key : Bytes) : Reads src x (.getF64 key) (src.getF64 x key).2
  | getBool (key : Bytes) : Reads src x (.getBool key) (src.getBool x key).2
  | getStr (key : Option Bytes) (cap : Nat) : Reads src x (.getStr key cap) (src.getStr x key cap).2
  | noObj (key : Option Bytes) (h : (src.beginObj x key).1 = false) :
      Reads src x (.beginObj key) (src.beginObj x key).2
  | noArr (key : Bytes) (h : (src.beginArr x key).1 = none) :
      Reads src x (.beginArr key) (src.beginArr x key).2

/--
The calls that lead a source from one state to another, every begin call that succeeds with
its end call behind what is read inside.
-/
inductive Exchange (src : Source σ) : σ → CallLog σ → σ → Prop where
  | done (x : σ) : Exchange src x [] x
  | read {x y z : σ} {call : SourceCall} {log : CallLog σ} (h : Reads src x call y)
      (hrest : Exchange src y log z) : Exchange src x ((call, x) :: log) z
  | obj {x y z : σ} {inner log : CallLog σ} {key : Option Bytes}
      (h : (src.beginObj x key).1 = true) (hinner : Exchange src (src.beginObj x key).2 inner y)
      (hrest : Exchange src (src.endObj y) log z) :
      Exchange src x ((.beginObj key, x) :: inner ++ (.endObj, y) :: log) z
  | arr {x y z : σ} {inner log : CallLog σ} {key : Bytes} {count : Nat}
      (h : (src.beginArr x key).1 = some count)
      (hinner : Exchange src (src.beginArr x key).2 inner y)
      (hrest : Exchange src (src.endArr y) log z) :
      Exchange src x ((.beginArr key, x) :: inner ++ (.endArr, y) :: log) z

variable {src : Source σ}

theorem Exchange.append {x y z : σ} {log log' : CallLog σ} (h : Exchange src x log y)
    (h' : Exchange src y log' z) : Exchange src x (log ++ log') z := by
  induction h with
  | done x => exact h'
  | read hread _ ih => exact .read hread (ih h')
  | obj hbegin hinner _ _ ih =>
    rw [List.append_assoc, List.cons_append]
    exact .obj hbegin hinner (ih h')
  | arr hbegin hinner _ _ ih =>
    rw [List.append_assoc, List.cons_append]
    exact .arr hbegin hinner (ih h')

/-- One state of the noting source after another, by an exchange. -/
def Later (src : Source σ) (x y : σ × CallLog σ) : Prop :=
  ∃ log, y.2 = x.2 ++ log ∧ Exchange src x.1 log y.1

theorem Later.refl (x : σ × CallLog σ) : Later src x x :=
  ⟨[], (List.append_nil _).symm, .done x.1⟩

theorem Later.trans {x y z : σ × CallLog σ} (h : Later src x y) (h' : Later src y z) :
    Later src x z := by
  obtain ⟨log, hlog, hexchange⟩ := h
  obtain ⟨log', hlog', hexchange'⟩ := h'
  refine ⟨log ++ log', ?_, hexchange.append hexchange'⟩
  rw [hlog', hlog, List.append_assoc]

theorem Later.read {x : σ × CallLog σ} {call : SourceCall} {y : σ} (h : Reads src x.1 call y) :
    Later src x (y, x.2 ++ [(call, x.1)]) :=
  ⟨[(call, x.1)], rfl, .read h (.done y)⟩

/-- What lies between an object's two calls. -/
theorem Later.obj {x y : σ × CallLog σ} {key : Option Bytes}
    (hbegin : (src.traced.beginObj x key).1 = true)
    (h : Later src (src.traced.beginObj x key).2 y) : Later src x (src.traced.endObj y) := by
  obtain ⟨log, hlog, hexchange⟩ := h
  have hbegin' : (src.beginObj x.1 key).1 = true := hbegin
  refine ⟨(.beginObj key, x.1) :: log ++ [(.endObj, y.1)], ?_, .obj hbegin' hexchange (.done _)⟩
  show y.2 ++ [(.endObj, y.1)] = _
  have hbegun : (src.traced.beginObj x key).2.2 = x.2 ++ [(.beginObj key, x.1)] := rfl
  rw [hlog, hbegun]
  simp

/-- What lies between an array's two calls. -/
theorem Later.arr {x y : σ × CallLog σ} {key : Bytes} {count : Nat}
    (hbegin : (src.traced.beginArr x key).1 = some count)
    (h : Later src (src.traced.beginArr x key).2 y) : Later src x (src.traced.endArr y) := by
  obtain ⟨log, hlog, hexchange⟩ := h
  have hbegin' : (src.beginArr x.1 key).1 = some count := hbegin
  refine ⟨(.beginArr key, x.1) :: log ++ [(.endArr, y.1)], ?_, .arr hbegin' hexchange (.done _)⟩
  show y.2 ++ [(.endArr, y.1)] = _
  have hbegun : (src.traced.beginArr x key).2.2 = x.2 ++ [(.beginArr key, x.1)] := rfl
  rw [hlog, hbegun]
  simp

variable {P : Program}

theorem scatterScalar_src {τ : Type} (s : Scatter τ) (p : Nat) (got : Option Bytes × τ) :
    (scatterScalar s p got).src = got.2 := by
  unfold scatterScalar
  cases got.1 with
  | none => rfl
  | some bytes => rfl

theorem scatterStrs_later (f : Field) (items n written : Nat) (s : Scatter (σ × CallLog σ)) :
    Later src s.src (scatterStrs P src.traced f items n written s).2.src := by
  induction n generalizing written s with
  | zero => exact .refl _
  | succ n ih =>
    have hread : Later src s.src (src.traced.getStr s.src none f.maxLen).2 :=
      .read (.getStr none f.maxLen)
    unfold scatterStrs
    dsimp only
    split
    · next hcall =>
      rw [hcall] at hread
      exact hread
    · next hcall =>
      rw [hcall] at hread
      exact hread.trans (ih (written + 1) _)

theorem scatterObjs_later
    {scatter : Nat → Scatter (σ × CallLog σ) → BbErr × Scatter (σ × CallLog σ)}
    (h : ∀ p s, Later src s.src (scatter p s).2.src) (f : Field) (items n written : Nat)
    (s : Scatter (σ × CallLog σ)) :
    Later src s.src (scatterObjs src.traced scatter f items n written s).2.2.src := by
  induction n generalizing written s with
  | zero => exact .refl _
  | succ n ih =>
    unfold scatterObjs
    split
    · next src' hcall =>
      have hread := @Later.read _ src s.src _ _ (.noObj none (by
        have := congrArg Prod.fst hcall
        exact this))
      have hsrc : src' = ((src.beginObj s.src.1 none).2, s.src.2 ++ [(.beginObj none, s.src.1)]) :=
        (congrArg Prod.snd hcall).symm
      rw [hsrc]
      exact hread
    · next src' hcall =>
      have hbegin : (src.traced.beginObj s.src none).1 = true := by rw [hcall]
      have hinner := h (items + written * f.elemSize) { s with src := src' }
      have hsrc : src' = (src.traced.beginObj s.src none).2 := by rw [hcall]
      rw [hsrc] at hinner
      have hobj := Later.obj hbegin hinner
      rw [← hsrc] at hobj
      dsimp only
      split
      · exact hobj
      · exact hobj.trans (ih (written + 1) _)

theorem scatterArr_later
    {scatter : List Field → Nat → Scatter (σ × CallLog σ) → BbErr × Scatter (σ × CallLog σ)}
    (h : ∀ fields p s, Later src s.src (scatter fields p s).2.src) (f : Field) (p count : Nat)
    (s : Scatter (σ × CallLog σ)) :
    ∃ y, Later src s.src y ∧ (scatterArr P src.traced scatter f p count s).2.src =
      src.traced.endArr y := by
  have helements : ∀ items n, Later src s.src
      (if items = 0 then (.ok, 0, s)
        else if f.elemType = .obj then
          scatterObjs src.traced (scatter (P.tables f.children)) f items n 0 s
        else (.ok, scatterStrs P src.traced f items n 0 s) :
          BbErr × Nat × Scatter (σ × CallLog σ)).2.2.src := by
    intro items n
    split
    · exact .refl _
    split
    · exact scatterObjs_later (h _) f items n 0 s
    · exact scatterStrs_later f items n 0 s
  unfold scatterArr
  refine ⟨_, helements (load s.mem p P.wordBytes)
    (if count < f.maxItems then count else f.maxItems), ?_⟩
  dsimp only
  generalize (if load s.mem p P.wordBytes = 0 then (BbErr.ok, 0, s)
    else if f.elemType = .obj then
      scatterObjs src.traced (scatter (P.tables f.children)) f (load s.mem p P.wordBytes)
        (if count < f.maxItems then count else f.maxItems) 0 s
    else (BbErr.ok, scatterStrs P src.traced f (load s.mem p P.wordBytes)
      (if count < f.maxItems then count else f.maxItems) 0 s)) = r
  split <;> rfl

theorem populateField_later
    {nested : Option (List Field → Nat → Scatter (σ × CallLog σ) → BbErr × Scatter (σ × CallLog σ))}
    (h : ∀ scatter, nested = some scatter →
      ∀ fields p s, Later src s.src (scatter fields p s).2.src)
    (dst : Nat) (f : Field) (s : Scatter (σ × CallLog σ)) :
    Later src s.src (populateField P src.traced nested dst f s).2.src := by
  unfold populateField
  cases f.type with
  | i64 =>
    dsimp only
    rw [scatterScalar_src]
    exact .read (.getI64 f.key)
  | u64 =>
    dsimp only
    rw [scatterScalar_src]
    exact .read (.getU64 f.key)
  | f64 =>
    dsimp only
    rw [scatterScalar_src]
    exact .read (.getF64 f.key)
  | bool =>
    dsimp only
    rw [scatterScalar_src]
    exact .read (.getBool f.key)
  | str =>
    dsimp only
    rw [scatterScalar_src]
    exact .read (.getStr (some f.key) f.maxLen)
  | strN | ref => exact .refl _
  | obj =>
    cases nested with
    | none => exact .refl _
    | some scatter =>
      dsimp only
      split
      · next src' hcall =>
        have hbegin : (src.beginObj s.src.1 (some f.key)).1 = false := congrArg Prod.fst hcall
        rw [← show (src.traced.beginObj s.src (some f.key)).2 = src' by rw [hcall]]
        exact .read (.noObj _ hbegin)
      · next src' hcall =>
        have hbegin : (src.traced.beginObj s.src (some f.key)).1 = true := by rw [hcall]
        rw [← show (src.traced.beginObj s.src (some f.key)).2 = src' by rw [hcall]]
        exact .obj hbegin (h scatter rfl _ _ _)
  | arr =>
    cases nested with
    | none => exact .refl _
    | some scatter =>
      dsimp only
      split
      · next src' hcall =>
        have hbegin : (src.beginArr s.src.1 f.key).1 = none := congrArg Prod.fst hcall
        rw [← show (src.traced.beginArr s.src f.key).2 = src' by rw [hcall]]
        exact .read (.noArr _ hbegin)
      · next count src' hcall =>
        have hbegin : (src.traced.beginArr s.src f.key).1 = some count := by rw [hcall]
        rw [← show (src.traced.beginArr s.src f.key).2 = src' by rw [hcall]]
        obtain ⟨y, hlater, hend⟩ := scatterArr_later (h scatter rfl) f (dst + f.offset) count
          { s with src := (src.traced.beginArr s.src f.key).2 }
        rw [hend]
        exact .arr hbegin hlater

theorem scatterEach_later {scatter : Field → Scatter (σ × CallLog σ) → BbErr × Scatter (σ × CallLog σ)}
    (h : ∀ f s, Later src s.src (scatter f s).2.src) (fields : List Field)
    (s : Scatter (σ × CallLog σ)) : Later src s.src (scatterEach scatter fields s).2.src := by
  induction fields generalizing s with
  | nil => exact .refl _
  | cons f fields ih =>
    unfold scatterEach
    dsimp only
    split
    · exact h f s
    · exact (h f s).trans (ih _)

variable (P src)

theorem populateFields_later (n : Nat) (fields : List Field) (dst : Nat)
    (s : Scatter (σ × CallLog σ)) :
    Later src s.src (populateFields P src.traced n fields dst s).2.src := by
  induction n generalizing fields dst s with
  | zero =>
    refine scatterEach_later (fun f s => populateField_later (fun scatter hsome => ?_) dst f s) fields s
    cases hsome
  | succ n ih =>
    refine scatterEach_later (fun f s => populateField_later (fun scatter hsome => ?_) dst f s) fields s
    cases hsome
    exact ih

/-- The calls of a populate are an exchange, however it ends. -/
theorem populate_exchange (fields : List Field) (dst : Nat) (s : Scatter σ) :
    Exchange src s.src (populate P src.traced fields dst s.traced).2.src.2
      (populate P src.traced fields dst s.traced).2.src.1 := by
  have hlater : Later src (s.src, []) (populate P src.traced fields dst s.traced).2.src := by
    unfold populate
    dsimp only
    split
    · exact .refl _
    · exact populateFields_later src P maxDepth fields dst s.traced
  obtain ⟨log, hlog, hexchange⟩ := hlater
  rw [List.nil_append] at hlog
  rwa [hlog]

end Exchange

/-! ## What the check excludes -/

section Check

variable {P : Program}

/-- A field and the number of containers the scatter is in when it comes to it. -/
inductive AtDepth (P : Program) : List Field → Field → Nat → Prop where
  | here {fields : List Field} {f : Field} (hf : f ∈ fields) : AtDepth P fields f 0
  | child {fields : List Field} {f g : Field} {d : Nat} (hf : f ∈ fields) (hnests : f.nests = true)
      (hg : AtDepth P (P.tables f.children) g d) : AtDepth P fields g (d + 1)

/-- A field that meets no guard of the scatter, with the number of levels still allowed. -/
structure Supported (f : Field) (levels : Nat) : Prop where
  not_strN : f.type ≠ .strN
  not_ref : f.type ≠ .ref
  room : f.type = .obj ∨ f.type = .arr → 0 < levels
  items : f.type = .arr → f.cardinality ≠ .stream ∧ f.maxItems ≠ 0

theorem supported_of_checkField {nested : Option (List Field → BbErr)} {f : Field} {levels : Nat}
    (h : populateCheckField P nested f = .ok) (hlevels : nested ≠ none → 0 < levels) :
    Supported f levels := by
  unfold populateCheckField at h
  cases htype : f.type <;> simp only [htype] at h
  case strN | ref => cases h
  case obj =>
    cases nested with
    | none => cases h
    | some check =>
      exact ⟨by simp [htype], by simp [htype], fun _ => hlevels nofun, by simp [htype]⟩
  case arr =>
    cases nested with
    | none => cases h
    | some check =>
      dsimp only at h
      split at h
      · cases h
      rename_i hstream
      split at h
      · cases h
      rename_i hitems
      exact ⟨by simp [htype], by simp [htype], fun _ => hlevels nofun,
        fun _ => ⟨hstream, hitems⟩⟩
  all_goals exact ⟨by simp [htype], by simp [htype], by simp [htype], by simp [htype]⟩

/-- What the check passes meets no guard of the scatter, at any depth. -/
theorem supported_of_check {n : Nat} {fields : List Field}
    (hcheck : populateCheckFields P n fields = .ok) {f : Field} {d : Nat}
    (hf : AtDepth P fields f d) : d ≤ n ∧ Supported f (n - d) := by
  induction hf generalizing n with
  | @here fields f hf =>
    refine ⟨Nat.zero_le _, ?_⟩
    cases n with
    | zero =>
      exact supported_of_checkField (firstError_ok_iff.mp hcheck f hf) fun h => absurd rfl h
    | succ n =>
      exact supported_of_checkField (firstError_ok_iff.mp hcheck f hf) fun _ => Nat.succ_pos n
  | @child fields f g d hf hnests _ ih =>
    have hcontainer : f.type = .obj ∨ f.type = .arr := by
      cases htype : f.type <;> simp [Field.nests, htype] at hnests ⊢
    cases n with
    | zero =>
      obtain ⟨check, hnone, -⟩ := populateCheckField_ok (firstError_ok_iff.mp hcheck f hf) hcontainer
      cases hnone
    | succ n =>
      obtain ⟨check, hsome, hchildren⟩ :=
        populateCheckField_ok (firstError_ok_iff.mp hcheck f hf) hcontainer
      cases hsome
      obtain ⟨hd, hsupported⟩ := ih (hchildren hnests)
      rw [Nat.add_sub_add_right]
      exact ⟨Nat.succ_le_succ hd, hsupported⟩

end Check

/-! ## Populate -/

/--
A populate rejects the descriptor before it does anything or runs to its end: without the
check's consent the memory is what it was and no callback was called; with it no guard of
the scatter is met.  However it ends, every begin call that succeeds has its end call.
-/
structure AllOrNothing {σ : Type} (P : Program) (src : Source σ) (fields : List Field) (dst : Nat)
    (s : Scatter σ) : Prop where
  observed : (populate P src.traced fields dst s.traced).1 = (populate P src fields dst s).1 ∧
    (populate P src.traced fields dst s.traced).2.erase = (populate P src fields dst s).2
  rejected : populateCheckFields P maxDepth fields ≠ .ok →
    (populate P src.traced fields dst s.traced).1 = populateCheckFields P maxDepth fields ∧
      (populate P src.traced fields dst s.traced).2.mem = s.mem ∧
      (populate P src.traced fields dst s.traced).2.src = (s.src, [])
  completed : populateCheckFields P maxDepth fields = .ok →
    (populate P src.traced fields dst s.traced).1 = .ok ∧
      ∀ f d, AtDepth P fields f d → d ≤ maxDepth ∧ Supported f (maxDepth - d)
  matched : Exchange src s.src (populate P src.traced fields dst s.traced).2.src.2
    (populate P src.traced fields dst s.traced).2.src.1

theorem allOrNothing {σ : Type} (P : Program) (src : Source σ) (fields : List Field) (dst : Nat)
    (s : Scatter σ) : AllOrNothing P src fields dst s where
  observed := by
    obtain ⟨hstatus, hstate⟩ := populate_erase P src fields dst s
    exact ⟨hstatus.symm, hstate.symm⟩
  rejected := fun hcheck => by
    rw [populate_of_rejected P src.traced hcheck]
    exact ⟨rfl, rfl, rfl⟩
  completed := fun hcheck => by
    refine ⟨?_, fun f d hf => supported_of_check hcheck hf⟩
    unfold populate
    dsimp only
    rw [if_neg (not_not.mpr hcheck)]
    exact populateFields_ok P src.traced maxDepth hcheck dst s.traced
  matched := populate_exchange src P fields dst s

end Serialize
end Breadboard
