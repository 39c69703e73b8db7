import Mathlib.Data.List.Infix

/-!
# The first occurrence of a word

A search for a word as a plain substring, and what it finds where the text is made of
pieces: the search does not know of the pieces, so an occurrence may begin in one
that has nothing to do with the word.

Main results:

- Theorem `afterFirst_separated`: pieces between separators are searched one after the other.
- Theorem `afterFirst_terminated`: a word with an end mark is found where a piece ends in it.
-/

namespace Breadboard
namespace Foundations

universe u

variable {α : Type u}

/-! ## Beginnings of pieces -/

/-- A word without the separator begins a piece in front of one only if it fits into the piece. -/
theorem prefix_append_separator_iff {sep : α} {word : List α} (hsep : sep ∉ word) (s rest : List α) :
    word <+: s ++ sep :: rest ↔ word <+: s := by
  constructor
  · intro h
    induction word generalizing s with
    | nil => exact List.nil_prefix
    | cons k word ih =>
      rw [List.mem_cons, not_or] at hsep
      cases s with
      | nil => exact absurd (List.cons_prefix_cons.mp h).1.symm hsep.1
      | cons b s =>
        rcases List.cons_prefix_cons.mp h with ⟨hhead, htail⟩
        exact List.cons_prefix_cons.mpr ⟨hhead, ih hsep.2 s htail⟩
  · intro h
    exact h.trans (List.prefix_append s _)

/-- A word that ends in a mark begins a piece up to the mark only as the whole piece. -/
theorem prefix_terminated_iff {mark : α} {q s : List α} (hq : mark ∉ q) (hs : mark ∉ s)
    (rest : List α) : q ++ [mark] <+: s ++ mark :: rest ↔ q = s := by
  constructor
  · intro h
    induction q generalizing s with
    | nil =>
      cases s with
      | nil => rfl
      | cons b s =>
        rw [List.mem_cons, not_or] at hs
        exact absurd (List.cons_prefix_cons.mp h).1 hs.1
    | cons k q ih =>
      rw [List.mem_cons, not_or] at hq
      cases s with
      | nil => exact absurd (List.cons_prefix_cons.mp h).1.symm hq.1
      | cons b s =>
        rw [List.mem_cons, not_or] at hs
        rcases List.cons_prefix_cons.mp h with ⟨hhead, htail⟩
        rw [hhead, ih hq.2 hs.2 htail]
  · intro h
    subst h
    exact ⟨rest, by rw [List.append_assoc, List.singleton_append]⟩

/-! ## The search -/

variable [DecidableEq α]

/-- The text from the first occurrence of a word on. -/
def firstMatch (word : List α) : List α → Option (List α)
  | [] => if word = [] then some [] else none
  | b :: s => if word <+: b :: s then some (b :: s) else firstMatch word s

/-- The text behind the first occurrence of a word. -/
def afterFirst (word s : List α) : Option (List α) :=
  (firstMatch word s).map (List.drop word.length)

section

variable {word : List α}

theorem afterFirst_nil (hword : word ≠ []) : afterFirst word [] = none := by
  rw [afterFirst, firstMatch, if_neg hword, Option.map_none]

theorem afterFirst_cons (word : List α) (b : α) (s : List α) :
    afterFirst word (b :: s) =
      if word <+: b :: s then some ((b :: s).drop word.length) else afterFirst word s := by
  unfold afterFirst
  rw [firstMatch]
  split <;> rfl

/-- What follows a word follows its first occurrence. -/
theorem afterFirst_eq_some_iff (hword : word ≠ []) {w s : List α} :
    afterFirst word w = some s ↔
      ∃ pre, w = pre ++ (word ++ s) ∧
        ∀ pre' s', w = pre' ++ (word ++ s') → pre.length ≤ pre'.length := by
  induction w with
  | nil =>
    rw [afterFirst_nil hword]
    constructor
    · intro h
      cases h
    · intro h
      rcases h with ⟨pre, happend, _⟩
      have hnil := (List.append_eq_nil_iff.mp happend.symm).2
      exact absurd (List.append_eq_nil_iff.mp hnil).1 hword
  | cons b w ih =>
    rw [afterFirst_cons]
    by_cases hmatch : word <+: b :: w
    · rw [if_pos hmatch]
      rcases hmatch with ⟨t, ht⟩
      rw [← ht, List.drop_left]
      constructor
      · intro h
        injection h with h
        subst h
        exact ⟨[], rfl, fun _ _ _ => Nat.zero_le _⟩
      · intro h
        rcases h with ⟨pre, happend, hfirst⟩
        have hpre := List.length_eq_zero_iff.mp (Nat.le_zero.mp (hfirst [] t rfl))
        rw [hpre, List.nil_append] at happend
        rw [List.append_cancel_left happend]
    · rw [if_neg hmatch, ih]
      constructor
      · intro h
        rcases h with ⟨pre, happend, hfirst⟩
        refine ⟨b :: pre, by rw [happend, List.cons_append], ?_⟩
        intro pre' s' happend'
        cases pre' with
        | nil => exact absurd ⟨s', happend'.symm⟩ hmatch
        | cons c pre' =>
          injection happend' with _ htail
          exact Nat.succ_le_succ (hfirst pre' s' htail)
      · intro h
        rcases h with ⟨pre, happend, hfirst⟩
        cases pre with
        | nil => exact absurd ⟨s, happend.symm⟩ hmatch
        | cons c pre =>
          injection happend with hhead htail
          refine ⟨pre, htail, ?_⟩
          intro pre' s' happend'
          have hle := hfirst (b :: pre') s' (by rw [happend', List.cons_append])
          exact Nat.le_of_succ_le_succ hle

/-- Behind a match there is an occurrence. -/
theorem append_of_afterFirst (hword : word ≠ []) {w s : List α} (h : afterFirst word w = some s) :
    ∃ pre, w = pre ++ (word ++ s) := by
  rcases (afterFirst_eq_some_iff hword).mp h with ⟨pre, happend, _⟩
  exact ⟨pre, happend⟩

/-- Elements other than the word's first are searched without a match. -/
theorem afterFirst_append {k : α} (hhead : word.head? = some k) {w : List α}
    (hw : ∀ b ∈ w, b ≠ k) (s : List α) : afterFirst word (w ++ s) = afterFirst word s := by
  induction w with
  | nil => rfl
  | cons b w ih =>
    have hmatch : ¬ word <+: b :: (w ++ s) := by
      intro hpre
      cases word with
      | nil => cases hhead
      | cons k' word =>
        injection hhead with hk
        have heq := (List.cons_prefix_cons.mp hpre).1
        exact hw b List.mem_cons_self (by rw [← heq, hk])
    rw [List.cons_append, afterFirst_cons, if_neg hmatch]
    exact ih fun c hc => hw c (List.mem_cons_of_mem b hc)

theorem afterFirst_self (hword : word ≠ []) (s : List α) :
    afterFirst word (word ++ s) = some s := by
  cases word with
  | nil => exact absurd rfl hword
  | cons k word =>
    have hmatch : (k :: word) <+: k :: (word ++ s) := ⟨s, rfl⟩
    rw [List.cons_append, afterFirst_cons, if_pos hmatch, ← List.cons_append, List.drop_left]

theorem afterFirst_of_length_lt (hword : word ≠ []) {w : List α} (h : w.length < word.length) :
    afterFirst word w = none := by
  induction w with
  | nil => exact afterFirst_nil hword
  | cons b w ih =>
    rw [List.length_cons] at h
    rw [afterFirst_cons, if_neg fun hpre => by
      have hle := hpre.length_le
      rw [List.length_cons] at hle
      omega]
    exact ih (by omega)

/-! ## Pieces -/

/-- A piece in front of a separator is searched first, and then what is behind it. -/
theorem afterFirst_separated {sep : α} (hword : word ≠ []) (hsep : sep ∉ word)
    (s rest : List α) :
    afterFirst word (s ++ sep :: rest) =
      ((afterFirst word s).map (· ++ sep :: rest)).or (afterFirst word rest) := by
  induction s with
  | nil =>
    have hhead : ¬ word <+: sep :: rest := by
      intro hpre
      have hempty := (prefix_append_separator_iff hsep [] rest).mp hpre
      exact hword (List.prefix_nil.mp hempty)
    rw [List.nil_append, afterFirst_cons, if_neg hhead, afterFirst_nil hword]
    rfl
  | cons b s ih =>
    have hstarts := prefix_append_separator_iff hsep (b :: s) rest
    rw [List.cons_append] at hstarts
    rw [List.cons_append, afterFirst_cons, afterFirst_cons]
    by_cases hmatch : word <+: b :: s
    · rw [if_pos (hstarts.mpr hmatch), if_pos hmatch, ← List.cons_append,
        List.drop_append_of_le_length hmatch.length_le]
      rfl
    · rw [if_neg fun h => hmatch (hstarts.mp h), if_neg hmatch, ih]

/-- A word that ends in a mark is found in a piece up to the mark if the piece ends in it. -/
theorem afterFirst_terminated {mark : α} {q s : List α} (hq : mark ∉ q) (hs : mark ∉ s)
    (rest : List α) :
    afterFirst (q ++ [mark]) (s ++ mark :: rest) =
      if q <:+ s then some rest else afterFirst (q ++ [mark]) rest := by
  induction s with
  | nil =>
    have hstarts := @prefix_terminated_iff α mark q [] hq hs rest
    rw [List.nil_append] at hstarts
    rw [List.nil_append, afterFirst_cons]
    by_cases hempty : q = []
    · rw [if_pos (hstarts.mpr hempty), if_pos (List.suffix_nil.mpr hempty), hempty]
      rfl
    · rw [if_neg fun h => hempty (hstarts.mp h), if_neg fun h => hempty (List.suffix_nil.mp h)]
  | cons b s ih =>
    have hstarts := prefix_terminated_iff hq hs rest
    rw [List.cons_append] at hstarts
    rw [List.mem_cons, not_or] at hs
    rw [List.cons_append, afterFirst_cons, ih hs.2]
    by_cases hwhole : q = b :: s
    · have hdrop : (b :: (s ++ mark :: rest)).drop (q ++ [mark]).length = rest := by
        have happend : b :: (s ++ mark :: rest) = (q ++ [mark]) ++ rest := by
          rw [hwhole, List.append_assoc, List.singleton_append, List.cons_append]
        rw [happend, List.drop_left]
      rw [if_pos (hstarts.mpr hwhole), if_pos (hwhole ▸ List.suffix_refl _), hdrop]
    · rw [if_neg fun h => hwhole (hstarts.mp h)]
      by_cases hlater : q <:+ s
      · rw [if_pos hlater, if_pos (hlater.trans (List.suffix_cons b s))]
      · have hnot : ¬ q <:+ b :: s := by
          intro h
          rcases List.suffix_cons_iff.mp h with h | h
          · exact hwhole h
          · exact hlater h
        rw [if_neg hlater, if_neg hnot]

end

end Foundations
end Breadboard
