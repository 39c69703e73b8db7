import Breadboard.Foundations.JsonText

/-!
# Balanced braces

An object as far as its braces go: braces nest, and between quotes nothing counts,
where a backslash takes the next byte with it.  As in the grammar of JSON the
relations read a text from left to right: `Contents s rest` says that
`rest` is left of `s` after some balanced piece.  A scan that counts the
open braces finds the end of such an object, and every JSON object is one.

Main results:

- Theorem `closing_eq_some_iff`: the scan finds exactly the end of a balanced object.
- Theorem `braceObject_of_reads`: a JSON object is balanced.
-/

namespace Breadboard
namespace Foundations
namespace BraceBalance

open JsonText

/-- `rest` is left after the rest of a string and its closing quote. -/
inductive StringRest : Text → Text → Prop where
  | close (rest : Text) : StringRest (34 :: rest) rest
  | plain {b : UInt8} {s rest : Text} (hquote : b ≠ 34) (hslash : b ≠ 92)
      (h : StringRest s rest) : StringRest (b :: s) rest
  | escape (b : UInt8) {s rest : Text} (h : StringRest s rest) : StringRest (92 :: b :: s) rest

/-- A byte that neither opens nor closes anything. -/
def isInert (b : UInt8) : Bool :=
  b ≠ 34 ∧ b ≠ 123 ∧ b ≠ 125

/-- `rest` is left after some balanced contents. -/
inductive Contents : Text → Text → Prop where
  | done (rest : Text) : Contents rest rest
  | inert {b : UInt8} {s rest : Text} (hb : isInert b = true) (h : Contents s rest) :
      Contents (b :: s) rest
  | str {s s' rest : Text} (hstr : StringRest s s') (h : Contents s' rest) :
      Contents (34 :: s) rest
  | obj {s s' rest : Text} (hinner : Contents s (125 :: s')) (h : Contents s' rest) :
      Contents (123 :: s) rest

/-- The text starts with an object whose braces balance, and `rest` follows it. -/
def BraceObject (s rest : Text) : Prop :=
  ∃ inner, s = 123 :: inner ∧ Contents inner (125 :: rest)

/-! ## Text behind the object -/

theorem StringRest.append {s rest : Text} (h : StringRest s rest) (t : Text) :
    StringRest (s ++ t) (rest ++ t) := by
  induction h with
  | close rest => exact .close (rest ++ t)
  | plain hquote hslash _ ih => exact .plain hquote hslash ih
  | escape b _ ih => exact .escape b ih

theorem Contents.append {s rest : Text} (h : Contents s rest) (t : Text) :
    Contents (s ++ t) (rest ++ t) := by
  induction h with
  | done rest => exact .done (rest ++ t)
  | inert hb _ ih => exact .inert hb ih
  | str hstr _ ih => exact .str (hstr.append t) ih
  | obj _ _ ihinner ih => exact .obj ihinner ih

/-- Text behind an object is left behind it. -/
theorem BraceObject.append {s rest : Text} (h : BraceObject s rest) (t : Text) :
    BraceObject (s ++ t) (rest ++ t) := by
  rcases h with ⟨inner, rfl, hcontents⟩
  exact ⟨inner ++ t, rfl, hcontents.append t⟩

/-! ## The scan -/

/-- What follows the brace that closes the outermost of `depth` open ones. -/
def closing : Bool → Nat → Text → Option Text
  | _, _, [] => none
  | true, depth, b :: s =>
    if b = 92 then
      match s with
      | [] => none
      | _ :: s' => closing true depth s'
    else if b = 34 then closing false depth s
    else closing true depth s
  | false, depth, b :: s =>
    if b = 34 then closing true depth s
    else if b = 123 then closing false (depth + 1) s
    else if b = 125 then if depth = 1 then some s else closing false (depth - 1) s
    else closing false depth s

@[simp] theorem closing_nil (inStr : Bool) (depth : Nat) : closing inStr depth [] = none := by
  cases inStr <;> rfl

theorem closing_true_cons (depth : Nat) (b : UInt8) (s : Text) :
    closing true depth (b :: s) =
      if b = 92 then s.tail?.bind (closing true depth)
      else if b = 34 then closing false depth s
      else closing true depth s := by
  cases s <;> rfl

theorem closing_false_cons (depth : Nat) (b : UInt8) (s : Text) :
    closing false depth (b :: s) =
      if b = 34 then closing true depth s
      else if b = 123 then closing false (depth + 1) s
      else if b = 125 then if depth = 1 then some s else closing false (depth - 1) s
      else closing false depth s := by
  rw [closing]

/-- The scan runs over a string. -/
theorem closing_of_stringRest {s rest : Text} (h : StringRest s rest) (depth : Nat) :
    closing true depth s = closing false depth rest := by
  induction h with
  | close rest => rw [closing_true_cons, if_neg (by decide), if_pos rfl]
  | plain hquote hslash _ ih => rw [closing_true_cons, if_neg hslash, if_neg hquote, ih]
  | escape b _ ih =>
    rw [closing_true_cons, if_pos rfl]
    exact ih

/-- The scan runs over balanced contents. -/
theorem closing_of_contents {s rest : Text} (h : Contents s rest) (depth : Nat) :
    closing false (depth + 1) s = closing false (depth + 1) rest := by
  induction h generalizing depth with
  | done rest => rfl
  | inert hb _ ih =>
    simp only [isInert, ne_eq, decide_eq_true_eq] at hb
    rw [closing_false_cons, if_neg hb.1, if_neg hb.2.1, if_neg hb.2.2, ih]
  | str hstr _ ih => rw [closing_false_cons, if_pos rfl, closing_of_stringRest hstr, ih]
  | @obj s s' rest _ _ ihinner ih =>
    have hinner := ihinner (depth + 1)
    rw [closing_false_cons, if_neg (by decide), if_neg (by decide), if_pos rfl,
      if_neg (by omega)] at hinner
    rw [closing_false_cons, if_neg (by decide), if_pos rfl, hinner]
    exact ih depth

/-- What a scan that ends has passed, inside and outside of strings. -/
theorem passed_of_closing {inStr : Bool} {depth : Nat} {s rest : Text}
    (h : closing inStr (depth + 1) s = some rest) :
    (inStr = true → ∃ s', StringRest s s' ∧ s'.length < s.length ∧
      closing false (depth + 1) s' = some rest) ∧
    (inStr = false → ∃ s', Contents s (125 :: s') ∧ s'.length < s.length ∧
      if depth = 0 then s' = rest else closing false depth s' = some rest) := by
  induction hn : s.length using Nat.strongRecOn generalizing inStr depth s with
  | _ n ih =>
    cases s with
    | nil =>
      rw [closing_nil] at h
      cases h
    | cons b s =>
      have hlen : s.length < n := by
        rw [← hn]
        exact Nat.lt_succ_self _
      constructor
      · rintro rfl
        rw [closing_true_cons] at h
        split at h
        · rename_i hb
          subst hb
          cases s with
          | nil => cases h
          | cons c s =>
            have hshort : s.length < n := Nat.lt_trans (Nat.lt_succ_self _) hlen
            rcases (ih _ hshort h rfl).1 rfl with ⟨s', hstr, hlt, hrest⟩
            exact ⟨s', .escape c hstr, by simp only [List.length_cons] at *; omega, hrest⟩
        · rename_i hslash
          split at h
          · rename_i hb
            subst hb
            exact ⟨s, .close s, hn ▸ hlen, h⟩
          · rename_i hquote
            rcases (ih _ hlen h rfl).1 rfl with ⟨s', hstr, hlt, hrest⟩
            exact ⟨s', .plain hquote hslash hstr, by simp only [List.length_cons] at *; omega, hrest⟩
      · rintro rfl
        rw [closing_false_cons] at h
        split at h
        · rename_i hb
          subst hb
          rcases (ih _ hlen h rfl).1 rfl with ⟨s₁, hstr, hlt, hrest⟩
          rcases (ih _ (Nat.lt_trans hlt hlen) hrest rfl).2 rfl with ⟨s', hcont, hlt', hend⟩
          exact ⟨s', .str hstr hcont, by simp only [List.length_cons] at *; omega, hend⟩
        · rename_i hquote
          split at h
          · rename_i hb
            subst hb
            rcases (ih _ hlen h rfl).2 rfl with ⟨s₁, hinner, hlt, hrest⟩
            rw [if_neg (Nat.succ_ne_zero depth)] at hrest
            rcases (ih _ (Nat.lt_trans hlt hlen) hrest rfl).2 rfl with ⟨s', hcont, hlt', hend⟩
            exact ⟨s', .obj hinner hcont, by simp only [List.length_cons] at *; omega, hend⟩
          · rename_i hopen
            split at h
            · rename_i hb
              subst hb
              refine ⟨s, .done _, hn ▸ hlen, ?_⟩
              by_cases hdepth : depth = 0
              · rw [if_pos (by omega)] at h
                rw [if_pos hdepth]
                exact Option.some.inj h
              · rw [if_neg (by omega), Nat.add_sub_cancel] at h
                rw [if_neg hdepth]
                exact h
            · rename_i hclose
              rcases (ih _ hlen h rfl).2 rfl with ⟨s', hcont, hlt, hend⟩
              have hinert : isInert b = true := by
                simp only [isInert, ne_eq, decide_eq_true_eq]
                exact ⟨hquote, hopen, hclose⟩
              exact ⟨s', .inert hinert hcont, by simp only [List.length_cons] at *; omega, hend⟩

/-- Behind an opening brace, the scan finds exactly the end of a balanced object. -/
theorem closing_eq_some_iff {s rest : Text} :
    closing false 1 s = some rest ↔ BraceObject (123 :: s) rest := by
  constructor
  · intro h
    rcases (passed_of_closing h).2 rfl with ⟨s', hcont, _, hend⟩
    rw [if_pos rfl] at hend
    exact ⟨s, rfl, hend ▸ hcont⟩
  · intro h
    rcases h with ⟨inner, hinner, hcont⟩
    cases hinner
    rw [closing_of_contents hcont 0, closing_false_cons, if_neg (by decide), if_neg (by decide),
      if_pos rfl, if_pos rfl]

/-- An object has one end. -/
theorem BraceObject.unique {s rest rest' : Text} (h : BraceObject s rest)
    (h' : BraceObject s rest') : rest = rest' := by
  rcases h with ⟨inner, rfl, hcontents⟩
  have hclosing := closing_eq_some_iff.mpr ⟨inner, rfl, hcontents⟩
  have hclosing' := closing_eq_some_iff.mpr h'
  rw [hclosing] at hclosing'
  injection hclosing'

/-! ## JSON -/

theorem Contents.trans {s s' s'' : Text} (h : Contents s s') (h' : Contents s' s'') :
    Contents s s'' := by
  induction h with
  | done rest => exact h'
  | inert hb _ ih => exact .inert hb (ih h')
  | str hstr _ ih => exact .str hstr (ih h')
  | obj hinner _ _ ih => exact .obj hinner (ih h')

theorem contents_of_inert {w : Text} (rest : Text) (h : ∀ b ∈ w, isInert b = true) :
    Contents (w ++ rest) rest := by
  induction w with
  | nil => exact .done rest
  | cons b w ih =>
    exact .inert (h b List.mem_cons_self) (ih fun x hx => h x (List.mem_cons_of_mem b hx))

theorem ne_of_hexDigit? {b : UInt8} {v : Nat} (h : hexDigit? b = some v) : b ≠ 34 ∧ b ≠ 92 := by
  constructor
  · rintro rfl
    revert h
    decide +revert
  · rintro rfl
    revert h
    decide +revert

/-- The digits of an escaped code unit are plain. -/
theorem stringRest_of_codeUnit? {a b c d : UInt8} {u : Nat} (hu : codeUnit? a b c d = some u)
    {s rest : Text} (h : StringRest s rest) :
    StringRest (92 :: 117 :: a :: b :: c :: d :: s) rest := by
  unfold codeUnit? at hu
  simp only [Option.bind_eq_bind, Option.bind_eq_some_iff] at hu
  rcases hu with ⟨va, ha, vb, hb, vc, hc, vd, hd, _⟩
  have ha' := ne_of_hexDigit? ha
  have hb' := ne_of_hexDigit? hb
  have hc' := ne_of_hexDigit? hc
  have hd' := ne_of_hexDigit? hd
  apply StringRest.escape
  exact .plain ha'.1 ha'.2 (.plain hb'.1 hb'.2 (.plain hc'.1 hc'.2 (.plain hd'.1 hd'.2 h)))

/-- A JSON string ends where its quotes say. -/
theorem stringRest_of_stringBody {s v rest : Text} (h : StringBody s v rest) :
    StringRest s rest := by
  induction h with
  | close rest => exact .close rest
  | plain hb _ ih =>
    simp only [isPlain, ne_eq, decide_eq_true_eq] at hb
    exact .plain hb.1 hb.2.1 ih
  | short _ _ ih => exact .escape _ ih
  | unit hu _ _ _ ih => exact stringRest_of_codeUnit? hu ih
  | pair hu _ hu' _ _ ih => exact stringRest_of_codeUnit? hu (stringRest_of_codeUnit? hu' ih)

theorem isInert_of_isDigit {b : UInt8} (h : Decimal.isDigit b = true) : isInert b = true := by
  simp only [Decimal.isDigit, decide_eq_true_eq] at h
  simp only [isInert, ne_eq, decide_eq_true_eq]
  refine ⟨?_, ?_, ?_⟩
  all_goals
    rintro rfl
    revert h
    decide

theorem isInert_of_isWs {b : UInt8} (h : isWs b = true) : isInert b = true := by
  simp only [isWs, decide_eq_true_eq] at h
  rcases h with rfl | rfl | rfl | rfl <;> decide

/-- A number has no quotes and no braces. -/
theorem inert_of_laxNumber {n : Text} (h : LaxNumber n) : ∀ b ∈ n, isInert b = true := by
  rcases h with ⟨sign, int, frac, exp, rfl, hsign, hint, hfrac, hexp⟩
  have hdigits {d : Text} (hd : Digits d) : ∀ b ∈ d, isInert b = true :=
    fun b hb => isInert_of_isDigit (hd.2 b hb)
  have hsigns : ∀ b ∈ sign, isInert b = true := by
    rcases hsign with rfl | rfl <;> simp [isInert]
  have hfracs : ∀ b ∈ frac, isInert b = true := by
    rcases hfrac with rfl | ⟨d, rfl, hd⟩
    · simp
    · intro b hb
      rcases List.mem_cons.mp hb with rfl | hb
      · decide
      · exact hdigits hd b hb
  have hexps : ∀ b ∈ exp, isInert b = true := by
    rcases hexp with rfl | ⟨e, esign, d, rfl, he, hesign, hd⟩
    · simp
    · intro b hb
      rcases List.mem_cons.mp hb with rfl | hb
      · rcases he with rfl | rfl <;> decide
      · rcases List.mem_append.mp hb with hb | hb
        · rcases hesign with rfl | rfl | rfl
          · cases hb
          · rw [List.mem_singleton.mp hb]
            decide
          · rw [List.mem_singleton.mp hb]
            decide
        · exact hdigits hd b hb
  intro b hb
  simp only [List.mem_append] at hb
  rcases hb with hb | hb | hb | hb
  · exact hsigns b hb
  · exact hdigits hint b hb
  · exact hfracs b hb
  · exact hexps b hb

/-- A piece that ends with the brace of an object that was opened before it. -/
def closesObject : Kind → Bool
  | .objBody => true
  | .member => true
  | .colon _ => true
  | .memberValue _ => true
  | .objTail => true
  | _ => false

/-- What a piece leaves, with the brace put back that it closes its object with. -/
def left (kind : Kind) (rest : Text) : Text :=
  if closesObject kind then 125 :: rest else rest

/-- Every piece of a JSON text is balanced, up to the brace it ends with. -/
theorem contents_of_reads {kind : Kind} {s : Text} {evs : List Event} {rest : Text}
    (h : Reads LaxNumber kind s evs rest) : Contents s (left kind rest) := by
  induction h with
  | ws _ hb _ ih => exact .inert (isInert_of_isWs hb) ih
  | str h => exact .str (stringRest_of_stringBody h) (.done _)
  | num rest h => exact contents_of_inert rest (inert_of_laxNumber h)
  | litTrue key rest => exact contents_of_inert (w := [116, 114, 117, 101]) rest (List.all_eq_true.mp rfl)
  | litFalse key rest => exact contents_of_inert (w := [102, 97, 108, 115, 101]) rest (List.all_eq_true.mp rfl)
  | litNull key rest => exact contents_of_inert (w := [110, 117, 108, 108]) rest (List.all_eq_true.mp rfl)
  | obj _ ih => exact .obj ih (.done _)
  | arr _ ih => exact .inert (by decide) ih
  | objEmpty rest => exact .done _
  | objFirst hkey _ ih => exact .str (stringRest_of_stringBody hkey) ih
  | key hkey _ ih => exact .str (stringRest_of_stringBody hkey) ih
  | colon _ ih => exact .inert (by decide) ih
  | memberValue _ _ ihv ih => exact ihv.trans ih
  | objEnd rest => exact .done _
  | objNext _ ih => exact .inert (by decide) ih
  | arrEmpty rest => exact .inert (by decide) (.done _)
  | arrFirst _ _ ihv ih => exact ihv.trans ih
  | element _ _ ihv ih => exact ihv.trans ih
  | arrEnd rest => exact .inert (by decide) (.done _)
  | arrNext _ ih => exact .inert (by decide) ih

/-- A JSON object is an object whose braces balance. -/
theorem braceObject_of_reads {s rest : Text} {evs : List Event}
    (h : Reads LaxNumber .objBody s evs rest) : BraceObject (123 :: s) rest :=
  ⟨s, rfl, contents_of_reads h⟩

end BraceBalance
end Foundations
end Breadboard
