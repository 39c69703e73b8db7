import Breadboard.Filter.Select

/-!
# bb_filter - the reference for a selection

What a selection is for: gate, sort stably by priority, remove the last of the deferrable
elements, truncate.  The loop takes the gated elements in the order of the stable sort, so
that it computes the reference with the shed count it starts from.

Main results:

- Theorem `selectLoop_eq`: the loop sheds and truncates what is left of the stable sort.
- Theorem `select_eq_iff`: the selection is the reference exactly as long as the product of
  the shed count does not wrap, or the limit is reached before the first element to be shed.
-/

namespace Breadboard
namespace Filter

open Foundations
open Foundations.StableSelect (Before After IsNext ranked)

section Reference

variable (sel : Selector)

def passing (input : List Elem) : List Elem :=
  input.filter (·.passes sel)

/-- The gated elements, stably sorted by ascending priority. -/
def sorted (input : List Elem) : List Elem :=
  (passing sel input).mergeSort fun a b => decide (a.priority ≤ b.priority)

/-- The number of gated deferrable elements. -/
def deferrables (input : List Elem) : Nat :=
  (passing sel input).countP (·.deferrable)

/-- An element is removed when it is deferrable and less than `k` such elements follow. -/
def shedLast (k : Nat) : List Elem → List Elem
  | [] => []
  | e :: es =>
    if e.deferrable = true ∧ es.countP (·.deferrable) < k then shedLast k es
    else e :: shedLast k es

def limit (n outCap : Nat) : Nat :=
  min (targetCount sel n) outCap

def reference (input : List Elem) (outCap : Nat) : List Elem :=
  (shedLast (deferrables sel input * sel.pressure.toNat / 255) (sorted sel input)).take
    (limit sel input.length outCap)

/-- The number of elements before the first that is removed. -/
def untouched (k : Nat) : List Elem → Nat
  | [] => 0
  | e :: es =>
    if e.deferrable = true ∧ es.countP (·.deferrable) < k then 0 else untouched k es + 1

end Reference

/-! ## One search -/

section Search

variable {sel : Selector}

/-- The gated elements with their indices. -/
def candidates (sel : Selector) (xs : List Entry) : List Entry :=
  xs.filter (·.1.passes sel)

theorem afterLast_iff {last : Option Entry} {x : Entry} :
    afterLast last x = true ↔ After Elem.priority last x := by
  cases last with
  | none => simp [afterLast, After]
  | some p =>
    obtain ⟨e, i⟩ := p
    simp only [afterLast, After, Option.mem_some_iff, forall_eq', Before]
    split
    next hlt => simp [hlt]
    next hge =>
      split
      next heq => simp [heq.1, heq.2]
      next hne =>
        simp only [Bool.false_eq_true, false_iff]
        rintro (hlt | heq)
        · exact hge hlt
        · exact hne ⟨heq.1.symm, heq.2⟩

/-- The best candidate among the entries seen. -/
def Best (sel : Selector) (last : Option Entry) (seen : List Entry) : Option Entry → Prop
  | none => ∀ y ∈ candidates sel seen, ¬ After Elem.priority last y
  | some b => IsNext Elem.priority (candidates sel seen) last b

theorem mem_candidates_concat {seen : List Entry} {x y : Entry} :
    y ∈ candidates sel (seen ++ [x]) ↔ y ∈ candidates sel seen ∨ y = x ∧ x.1.passes sel = true := by
  simp only [candidates, List.filter_append, List.mem_append, List.mem_filter, List.mem_singleton]
  constructor
  · rintro (hy | ⟨rfl, hy⟩)
    · exact .inl hy
    · exact .inr ⟨rfl, hy⟩
  · rintro (hy | ⟨rfl, hy⟩)
    · exact .inl hy
    · exact .inr ⟨rfl, hy⟩

theorem best_nextStep {last best : Option Entry} {seen : List Entry} {x : Entry}
    (h : Best sel last seen best) (hseen : ∀ y ∈ seen, y.2 < x.2) :
    Best sel last (seen ++ [x]) (nextStep sel last best x) := by
  have hskip (hnot : ∀ y ∈ candidates sel (seen ++ [x]), After Elem.priority last y →
      y ∈ candidates sel seen) : Best sel last (seen ++ [x]) best := by
    cases best with
    | none =>
      intro y hy hafter
      exact h y (hnot y hy hafter) hafter
    | some b =>
      refine ⟨mem_candidates_concat.mpr (.inl h.mem), h.after, fun y hy hafter => ?_⟩
      exact h.least y (hnot y hy hafter) hafter
  unfold nextStep
  split
  next hgate =>
    refine hskip fun y hy _ => ?_
    rcases mem_candidates_concat.mp hy with hy | ⟨-, hpass⟩
    · exact hy
    · cases hgate.symm.trans hpass
  next hgate =>
    have hpass : x.1.passes sel = true := by simpa using hgate
    split
    next hlate =>
      refine hskip fun y hy hafter => ?_
      rcases mem_candidates_concat.mp hy with hy | ⟨rfl, -⟩
      · exact hy
      · rw [← afterLast_iff, hlate] at hafter
        cases hafter
    next hlate =>
      have hafter : After Elem.priority last x := afterLast_iff.mp (by simpa using hlate)
      have hmem : x ∈ candidates sel (seen ++ [x]) := mem_candidates_concat.mpr (.inr ⟨rfl, hpass⟩)
      cases best with
      | none =>
        refine ⟨hmem, hafter, fun y hy hafter' => ?_⟩
        rcases mem_candidates_concat.mp hy with hy | ⟨rfl, -⟩
        · exact absurd hafter' (h y hy)
        · exact .inl rfl
      | some b =>
        dsimp only
        split
        next hlt =>
          refine ⟨hmem, hafter, fun y hy hafter' => ?_⟩
          rcases mem_candidates_concat.mp hy with hy | ⟨rfl, -⟩
          · rcases h.least y hy hafter' with rfl | hby
            · exact .inr (.inl hlt)
            · exact .inr (Before.trans (.inl hlt) hby)
          · exact .inl rfl
        next hge =>
          -- Of equal priority the one seen first stands further left.
          have hbx : Before Elem.priority b x := by
            have hleft := hseen b (List.mem_of_mem_filter h.mem)
            rcases Nat.lt_or_eq_of_le (Nat.not_lt.mp hge) with hlt | heq
            · exact .inl hlt
            · exact .inr ⟨heq, hleft⟩
          refine ⟨mem_candidates_concat.mpr (.inl h.mem), h.after, fun y hy hafter' => ?_⟩
          rcases mem_candidates_concat.mp hy with hy | ⟨rfl, -⟩
          · exact h.least y hy hafter'
          · exact .inr hbx

theorem best_foldl {last best : Option Entry} {seen rest : List Entry}
    (h : Best sel last seen best) (hpos : (seen ++ rest).Pairwise fun a b => a.2 < b.2) :
    Best sel last (seen ++ rest) (rest.foldl (nextStep sel last) best) := by
  induction rest generalizing seen best with
  | nil => simpa using h
  | cons x rest ih =>
    have hseen : ∀ y ∈ seen, y.2 < x.2 := fun y hy =>
      (List.pairwise_append.mp hpos).2.2 y hy x (List.mem_cons_self ..)
    have hnext := ih (best_nextStep h hseen) (by simpa using hpos)
    simpa using hnext

theorem zipIdx_positions (xs : List Elem) (n : Nat) :
    (xs.zipIdx n).Pairwise fun a b => a.2 < b.2 := by
  induction xs generalizing n with
  | nil => exact List.Pairwise.nil
  | cons e es ih =>
    rw [List.zipIdx_cons]
    refine List.pairwise_cons.mpr ⟨fun b hb => ?_, ih (n + 1)⟩
    obtain ⟨hle, -, -⟩ := List.mem_zipIdx hb
    exact hle

theorem findNext_best (input : List Elem) (last : Option Entry) :
    Best sel last input.zipIdx (findNext sel input last) :=
  @best_foldl sel last none [] input.zipIdx (fun y hy => by cases hy) (zipIdx_positions input 0)

/-- The gated elements in the order in which they are taken. -/
def order (sel : Selector) (input : List Elem) : List Entry :=
  ranked Elem.priority (candidates sel input.zipIdx)

theorem candidates_positions (input : List Elem) :
    (candidates sel input.zipIdx).Pairwise fun a b => a.2 < b.2 :=
  (zipIdx_positions input 0).filter _

/-- One search finds the next element of the stable sort. -/
theorem findNext_of_ranked {input : List Elem} {pre post : List Entry} {x : Entry}
    (horder : order sel input = pre ++ x :: post) : findNext sel input pre.getLast? = some x := by
  have hnext := StableSelect.isNext_of_ranked (candidates_positions input) horder
  have hbest := @findNext_best sel input pre.getLast?
  generalize findNext sel input pre.getLast? = best at hbest
  cases best with
  | none => exact absurd hnext.after (hbest x hnext.mem)
  | some b => exact congrArg some (hbest.unique hnext)

theorem findNext_of_taken {input : List Elem} {pre : List Entry} (horder : order sel input = pre) :
    findNext sel input pre.getLast? = none := by
  have hbest := @findNext_best sel input pre.getLast?
  generalize findNext sel input pre.getLast? = best at hbest
  cases best with
  | none => rfl
  | some b =>
    have hsorted : pre.Pairwise (Before Elem.priority) := by
      rw [← horder]
      exact StableSelect.ranked_pairwise (candidates_positions input)
    have hmem : b ∈ pre := by
      rw [← horder]
      exact StableSelect.mem_ranked.mpr hbest.mem
    exact absurd hbest.after (StableSelect.not_after hsorted hmem)

end Search

/-! ## Shedding -/

section Shed

variable {k k' m : Nat}

theorem shedLast_sublist (k : Nat) (es : List Elem) : (shedLast k es).Sublist es := by
  induction es with
  | nil => exact List.Sublist.slnil
  | cons e es ih =>
    unfold shedLast
    split
    · exact ih.cons e
    · exact ih.cons_cons e

/-- What is not deferrable is kept. -/
theorem filter_shedLast (k : Nat) (es : List Elem) :
    (shedLast k es).filter (!·.deferrable) = es.filter (!·.deferrable) := by
  induction es with
  | nil => rfl
  | cons e es ih =>
    unfold shedLast
    split
    next hshed =>
      rw [ih, List.filter_cons_of_neg]
      simp [hshed.1]
    next => rw [List.filter_cons, List.filter_cons, ih]

theorem shedLast_mono (hk : k' ≤ k) (es : List Elem) :
    (shedLast k es).Sublist (shedLast k' es) := by
  induction es with
  | nil => exact List.Sublist.slnil
  | cons e es ih =>
    unfold shedLast
    split
    next =>
      split
      · exact ih
      · exact ih.cons e
    next hkeep =>
      rw [if_neg fun hshed => hkeep ⟨hshed.1, Nat.lt_of_lt_of_le hshed.2 hk⟩]
      exact ih.cons_cons e

theorem countP_cons_deferrable {e : Elem} (h : e.deferrable = true) (es : List Elem) :
    (e :: es).countP (·.deferrable) = es.countP (·.deferrable) + 1 :=
  List.countP_cons_of_pos h

theorem countP_cons_other {e : Elem} (h : ¬ e.deferrable = true) (es : List Elem) :
    (e :: es).countP (·.deferrable) = es.countP (·.deferrable) :=
  List.countP_cons_of_neg h

/-- Once no more are left than are to be removed, all of them are. -/
theorem shedLast_all {es : List Elem} (h : es.countP (·.deferrable) ≤ k) :
    ∀ e ∈ shedLast k es, e.deferrable = false := by
  induction es with
  | nil => exact nofun
  | cons e es ih =>
    unfold shedLast
    by_cases hdef : e.deferrable = true
    · rw [countP_cons_deferrable hdef] at h
      rw [if_pos ⟨hdef, h⟩]
      exact ih (Nat.le_of_succ_le h)
    · rw [if_neg fun hshed => hdef hshed.1]
      rw [countP_cons_other hdef] at h
      exact List.forall_mem_cons.mpr ⟨Bool.eq_false_iff.mpr hdef, ih h⟩

/-- More than all cannot be removed. -/
theorem shedLast_of_all {es : List Elem} (h : es.countP (·.deferrable) ≤ k) :
    shedLast (k + 1) es = shedLast k es := by
  induction es with
  | nil => rfl
  | cons e es ih =>
    unfold shedLast
    by_cases hdef : e.deferrable = true
    · rw [countP_cons_deferrable hdef] at h
      rw [if_pos ⟨hdef, Nat.lt_succ_of_lt h⟩, if_pos ⟨hdef, h⟩, ih (Nat.le_of_succ_le h)]
    · rw [countP_cons_other hdef] at h
      rw [if_neg fun hshed => hdef hshed.1, if_neg fun hshed => hdef hshed.1, ih h]

theorem length_shedLast {es : List Elem} (h : k ≤ es.countP (·.deferrable)) :
    (shedLast k es).length + k = es.length := by
  induction es generalizing k with
  | nil =>
    obtain rfl : k = 0 := Nat.le_zero.mp h
    rfl
  | cons e es ih =>
    unfold shedLast
    by_cases hdef : e.deferrable = true
    · rw [countP_cons_deferrable hdef] at h
      by_cases hlt : es.countP (·.deferrable) < k
      · -- All that follow are removed as well.
        obtain rfl : k = es.countP (·.deferrable) + 1 := Nat.le_antisymm h hlt
        rw [if_pos ⟨hdef, hlt⟩, shedLast_of_all (Nat.le_refl _), List.length_cons]
        have hrest := ih (Nat.le_refl _)
        omega
      · rw [if_neg fun hshed => hlt hshed.2, List.length_cons, List.length_cons]
        have hrest := ih (Nat.not_lt.mp hlt)
        omega
    · rw [countP_cons_other hdef] at h
      rw [if_neg fun hshed => hdef hshed.1, List.length_cons, List.length_cons]
      have hrest := ih h
      omega

theorem untouched_le (k : Nat) (es : List Elem) : untouched k es ≤ (shedLast k es).length := by
  induction es with
  | nil => exact Nat.le_refl 0
  | cons e es ih =>
    unfold untouched shedLast
    split
    · exact Nat.zero_le _
    · exact Nat.succ_le_succ ih

/-- Removing too few shows exactly when the limit goes beyond the first to be removed. -/
theorem take_shedLast_eq_iff {es : List Elem} (hk : k' < k) (h : k ≤ es.countP (·.deferrable)) :
    (shedLast k' es).take m = (shedLast k es).take m ↔ m ≤ untouched k es := by
  induction es generalizing m with
  | nil =>
    have hzero : k ≤ 0 := h
    omega
  | cons e es ih =>
    cases m with
    | zero => simp
    | succ m =>
      by_cases hshed : e.deferrable = true ∧ es.countP (·.deferrable) < k
      · have hcount := countP_cons_deferrable hshed.1 es
        have hkeep : ¬ (e.deferrable = true ∧ es.countP (·.deferrable) < k') := by
          rintro ⟨-, hlt⟩
          omega
        rw [untouched, if_pos hshed, shedLast, if_neg hkeep, shedLast, if_pos hshed, List.take_succ_cons]
        refine iff_of_false (fun heq => ?_) (Nat.not_succ_le_zero m)
        have hmem : e ∈ (shedLast k es).take (m + 1) := by
          rw [← heq]
          exact List.mem_cons_self ..
        have hother := shedLast_all (Nat.le_of_lt hshed.2) e (List.mem_of_mem_take hmem)
        cases hshed.1.symm.trans hother
      · have hkeep : ¬ (e.deferrable = true ∧ es.countP (·.deferrable) < k') :=
          fun hlt => hshed ⟨hlt.1, Nat.lt_trans hlt.2 hk⟩
        have hrest : k ≤ es.countP (·.deferrable) := by
          by_cases hdef : e.deferrable = true
          · exact Nat.not_lt.mp fun hlt => hshed ⟨hdef, hlt⟩
          · rwa [countP_cons_other hdef] at h
        rw [untouched, if_neg hshed, shedLast, if_neg hkeep, shedLast, if_neg hshed,
          List.take_succ_cons, List.take_succ_cons, List.cons.injEq, ih hrest, Nat.succ_le_succ_iff]
        exact and_iff_right rfl

end Shed

/-! ## The loop -/

section Loop

variable {sel : Selector} {input : List Elem}

theorem map_fst_candidates (xs : List Elem) (n : Nat) :
    (candidates sel (xs.zipIdx n)).map Prod.fst = passing sel xs := by
  induction xs generalizing n with
  | nil => rfl
  | cons e es ih =>
    rw [List.zipIdx_cons, candidates, passing, List.filter_cons, List.filter_cons]
    split
    · rw [List.map_cons]
      exact congrArg (e :: ·) (ih (n + 1))
    · exact ih (n + 1)

theorem map_fst_order (input : List Elem) : (order sel input).map Prod.fst = sorted sel input := by
  rw [order, StableSelect.map_fst_ranked, map_fst_candidates]
  rfl

theorem countP_sorted (input : List Elem) :
    (sorted sel input).countP (·.deferrable) = deferrables sel input :=
  (List.mergeSort_perm _ _).countP_eq _

theorem deferrableTotal_eq (input : List Elem) :
    deferrableTotal sel input = deferrables sel input := by
  have hfold (xs : List Elem) (n : Nat) :
      xs.foldl (fun n e => if e.passes sel = false then n else if e.deferrable then n + 1 else n) n =
        n + (passing sel xs).countP (·.deferrable) := by
    induction xs generalizing n with
    | nil => rfl
    | cons e es ih =>
      have hcons : passing sel (e :: es) =
          if e.passes sel = true then e :: passing sel es else passing sel es := List.filter_cons
      rw [List.foldl_cons, ih, hcons]
      by_cases hpass : e.passes sel = true
      · rw [if_pos hpass, if_neg (by simp [hpass])]
        by_cases hdef : e.deferrable = true
        · rw [if_pos hdef, countP_cons_deferrable hdef]
          omega
        · rw [if_neg hdef, countP_cons_other hdef]
      · rw [if_neg hpass, if_pos (by simpa using hpass)]
  rw [deferrableTotal, hfold, Nat.zero_add, deferrables]

/-- The loop sheds and truncates what is left of the stable sort. -/
theorem selectLoop_eq {shed limit : Nat} {pre post : List Entry}
    (horder : order sel input = pre ++ post) {fuel : Nat} (hfuel : post.length ≤ fuel)
    (out : List Elem) :
    selectLoop sel input (deferrables sel input) shed limit fuel pre.getLast?
        ((pre.map Prod.fst).countP (·.deferrable)) out =
      out ++ (shedLast shed (post.map Prod.fst)).take (limit - out.length) := by
  induction post generalizing pre fuel out with
  | nil =>
    cases fuel with
    | zero => simp [selectLoop, shedLast]
    | succ fuel =>
      rw [List.append_nil] at horder
      rw [selectLoop, findNext_of_taken horder]
      simp [shedLast]
  | cons x post ih =>
    obtain ⟨e, i⟩ := x
    cases fuel with
    | zero => exact absurd hfuel (Nat.not_succ_le_zero _)
    | succ fuel =>
      have hnext := findNext_of_ranked horder
      have horder' : order sel input = (pre ++ [(e, i)]) ++ post := by simpa using horder
      have hrest := fun out => ih horder' (Nat.le_of_succ_le_succ hfuel) out
      rw [List.getLast?_concat, List.map_append, List.countP_append] at hrest
      have htotal : deferrables sel input = (pre.map Prod.fst).countP (·.deferrable) +
          (e :: post.map Prod.fst).countP (·.deferrable) := by
        rw [← countP_sorted, ← map_fst_order, horder, List.map_append, List.countP_append]
        rfl
      rw [selectLoop, hnext]
      dsimp only
      rw [List.map_cons, shedLast]
      split
      next hfull =>
        rw [Nat.sub_eq_zero_of_le hfull, List.take_zero, List.append_nil]
      next hroom =>
        have hwritten : (limit - out.length) = (limit - (out ++ [e]).length) + 1 := by
          rw [List.length_append, List.length_singleton]
          omega
        by_cases hdef : e.deferrable = true
        · have hone : ([(e, i)].map Prod.fst).countP (·.deferrable) = 1 := by simp [hdef]
          have hafter : deferrables sel input -
              ((pre.map Prod.fst).countP (·.deferrable) + 1) =
                (post.map Prod.fst).countP (·.deferrable) := by
            rw [htotal, countP_cons_deferrable hdef]
            omega
          rw [hone] at hrest
          rw [if_pos hdef, hafter]
          by_cases hshed : (post.map Prod.fst).countP (·.deferrable) < shed
          · rw [if_pos hshed, if_pos ⟨hdef, hshed⟩]
            exact hrest out
          · rw [if_neg hshed, if_neg fun h => hshed h.2, hrest, hwritten, List.take_succ_cons,
              List.append_assoc]
            rfl
        · have hnone : ([(e, i)].map Prod.fst).countP (·.deferrable) = 0 := by simp [hdef]
          rw [hnone, Nat.add_zero] at hrest
          rw [if_neg hdef, if_neg fun h => hdef h.1, hrest, hwritten, List.take_succ_cons,
            List.append_assoc]
          rfl

theorem shedCount_eq (tgt : Target) (total : Nat) :
    shedCount sel tgt total = total * sel.pressure.toNat % (tgt.sizeMax + 1) / 255 := by
  unfold shedCount
  split
  next => rfl
  next hnone =>
    have hzero : total * sel.pressure.toNat = 0 := by
      rw [Nat.mul_eq_zero]
      by_contra hboth
      obtain ⟨htotal, hpressure⟩ := not_or.mp hboth
      exact hnone ⟨UInt8.lt_iff_toNat_lt.mpr (Nat.pos_of_ne_zero hpressure),
        Nat.pos_of_ne_zero htotal⟩
    rw [hzero, Nat.zero_mod, Nat.zero_div]

/-- The selection sheds what its own count says. -/
theorem select_eq (tgt : Target) (outCap : Nat) : select sel tgt input outCap =
    (shedLast (deferrables sel input * sel.pressure.toNat % (tgt.sizeMax + 1) / 255)
      (sorted sel input)).take (limit sel input.length outCap) := by
  unfold select
  split
  next hnone =>
    rcases hnone with rfl | rfl
    · rw [limit, Nat.min_zero, List.take_zero]
    · simp [sorted, passing, shedLast]
  next =>
    have hlength : (order sel input).length ≤ input.length := by
      rw [order, StableSelect.length_ranked, ← List.length_zipIdx (l := input) (i := 0)]
      exact List.length_filter_le _ _
    have hloop := @selectLoop_eq sel input (shedCount sel tgt (deferrables sel input))
      (limit sel input.length outCap) [] (order sel input) rfl input.length hlength []
    rw [deferrableTotal_eq]
    dsimp only
    rw [shedCount_eq, map_fst_order, List.nil_append, List.length_nil, Nat.sub_zero] at hloop
    rw [shedCount_eq]
    exact hloop

/-- The product does not wrap, or the limit is reached before the first element to be shed. -/
def Exact (sel : Selector) (tgt : Target) (input : List Elem) (outCap : Nat) : Prop :=
  deferrables sel input * sel.pressure.toNat ≤ tgt.sizeMax ∨
    limit sel input.length outCap ≤
      untouched (deferrables sel input * sel.pressure.toNat / 255) (sorted sel input)

theorem shed_le_deferrables (sel : Selector) (input : List Elem) :
    deferrables sel input * sel.pressure.toNat / 255 ≤ (sorted sel input).countP (·.deferrable) := by
  rw [countP_sorted]
  refine Nat.div_le_of_le_mul ?_
  rw [Nat.mul_comm]
  exact Nat.mul_le_mul_right _ (Nat.le_of_lt_succ sel.pressure.toNat_lt)

/-- A product that wraps gives a lower shed count. -/
theorem wrapped_lt (tgt : Target) {x : Nat} (hx : tgt.sizeMax < x) :
    x % (tgt.sizeMax + 1) / 255 < x / 255 := by
  have hsize := tgt.sizeMax_ge
  have hmod : x % (tgt.sizeMax + 1) + (tgt.sizeMax + 1) ≤ x := by
    have hdiv := Nat.mod_add_div x (tgt.sizeMax + 1)
    have hone : 1 ≤ x / (tgt.sizeMax + 1) := (Nat.le_div_iff_mul_le (Nat.succ_pos _)).mpr (by omega)
    have hmul : (tgt.sizeMax + 1) * 1 ≤ (tgt.sizeMax + 1) * (x / (tgt.sizeMax + 1)) :=
      Nat.mul_le_mul_left _ hone
    omega
  omega

theorem select_eq_iff (tgt : Target) (outCap : Nat) :
    select sel tgt input outCap = reference sel input outCap ↔ Exact sel tgt input outCap := by
  rw [select_eq, reference, Exact]
  by_cases hfits : deferrables sel input * sel.pressure.toNat ≤ tgt.sizeMax
  · rw [Nat.mod_eq_of_lt (Nat.lt_succ_of_le hfits)]
    exact iff_of_true rfl (.inl hfits)
  · rw [take_shedLast_eq_iff (wrapped_lt tgt (Nat.not_le.mp hfits)) (shed_le_deferrables sel input)]
    exact (or_iff_right hfits).symm

end Loop

/-! ## The selection -/

section Selection

variable {sel : Selector} {tgt : Target} {input : List Elem} {outCap : Nat}

/-- What a selection should be. -/
structure MeetsReference (sel : Selector) (tgt : Target) (input : List Elem) (outCap : Nat) :
    Prop where
  selected : select sel tgt input outCap = reference sel input outCap
  /-- No element appears twice, and each passes the gates. -/
  distinct : ∃ indices : List Nat, indices.Nodup ∧
    indices.map (input[·]?) = (select sel tgt input outCap).map some ∧
    ∀ e ∈ select sel tgt input outCap, e.passes sel = true
  /-- Pressure sheds deferrable elements only; all else is truncation. -/
  kept : ∃ kept : List Elem, kept.Sublist (sorted sel input) ∧
    kept.filter (!·.deferrable) = (sorted sel input).filter (!·.deferrable) ∧
    select sel tgt input outCap = kept.take (limit sel input.length outCap)
  /-- Where no truncation applies, raising the pressure adds no element. -/
  monotone : ∀ q ≤ sel.pressure,
    (shedLast (deferrables sel input * q.toNat / 255) (sorted sel input)).length ≤
      limit sel input.length outCap →
    (select sel tgt input outCap).Sublist
      (select { sel with pressure := q } tgt input outCap)

theorem select_sublist : (select sel tgt input outCap).Sublist (sorted sel input) := by
  rw [select_eq]
  exact (List.take_sublist _ _).trans (shedLast_sublist _ _)

theorem select_distinct : ∃ indices : List Nat, indices.Nodup ∧
    indices.map (input[·]?) = (select sel tgt input outCap).map some ∧
    ∀ e ∈ select sel tgt input outCap, e.passes sel = true := by
  have hsublist := @select_sublist sel tgt input outCap
  rw [← map_fst_order] at hsublist
  obtain ⟨taken, htaken, heq⟩ := List.sublist_map_iff.mp hsublist
  have hentry : ∀ x ∈ taken, input[x.2]? = some x.1 ∧ x.1.passes sel = true := by
    intro x hx
    obtain ⟨hmem, hpass⟩ := List.mem_filter.mp (StableSelect.mem_ranked.mp (htaken.subset hx))
    exact ⟨List.mem_zipIdx_iff_getElem?.mp hmem, hpass⟩
  have hpositions : ((order sel input).map Prod.snd).Nodup := by
    have hcandidates : ((candidates sel input.zipIdx).map Prod.snd).Nodup :=
      List.pairwise_map.mpr ((candidates_positions input).imp Nat.ne_of_lt)
    exact ((List.mergeSort_perm _ _).map Prod.snd).nodup_iff.mpr hcandidates
  refine ⟨taken.map Prod.snd, (htaken.map Prod.snd).nodup hpositions, ?_, fun e he => ?_⟩
  · rw [heq, List.map_map, List.map_map]
    exact List.map_congr_left fun x hx => (hentry x hx).1
  · rw [heq] at he
    obtain ⟨x, hx, rfl⟩ := List.mem_map.mp he
    exact (hentry x hx).2

theorem select_kept : ∃ kept : List Elem, kept.Sublist (sorted sel input) ∧
    kept.filter (!·.deferrable) = (sorted sel input).filter (!·.deferrable) ∧
    select sel tgt input outCap = kept.take (limit sel input.length outCap) :=
  ⟨_, shedLast_sublist _ _, filter_shedLast _ _, select_eq tgt outCap⟩

/-- Where no truncation applies a lower pressure keeps what a higher one keeps. -/
theorem reference_mono {q : UInt8} (hq : q ≤ sel.pressure)
    (hfits : (shedLast (deferrables sel input * q.toNat / 255) (sorted sel input)).length ≤
      limit sel input.length outCap) :
    (reference sel input outCap).Sublist
      (reference { sel with pressure := q } input outCap) := by
  have hshed : deferrables sel input * q.toNat / 255 ≤
      deferrables sel input * sel.pressure.toNat / 255 :=
    Nat.div_le_div_right (Nat.mul_le_mul_left _ hq)
  have hlower : reference { sel with pressure := q } input outCap =
      shedLast (deferrables sel input * q.toNat / 255) (sorted sel input) :=
    List.take_of_length_le hfits
  rw [hlower]
  exact (List.take_sublist _ _).trans (shedLast_mono hshed _)

/-- The condition holds at a lower pressure as well, where no truncation applies. -/
theorem Exact.lower (h : Exact sel tgt input outCap) {q : UInt8} (hq : q ≤ sel.pressure)
    (hfits : (shedLast (deferrables sel input * q.toNat / 255) (sorted sel input)).length ≤
      limit sel input.length outCap) : Exact { sel with pressure := q } tgt input outCap := by
  have hproduct : deferrables sel input * q.toNat ≤ deferrables sel input * sel.pressure.toNat :=
    Nat.mul_le_mul_left _ hq
  rcases h with hsize | hearly
  · exact .inl (Nat.le_trans hproduct hsize)
  · right
    change limit sel input.length outCap ≤
      untouched (deferrables sel input * q.toNat / 255) (sorted sel input)
    have hshed : deferrables sel input * q.toNat / 255 ≤
        deferrables sel input * sel.pressure.toNat / 255 := Nat.div_le_div_right hproduct
    -- Both pressures shed the same number, for the limit lies before the first to be shed.
    have hhigher := length_shedLast (shed_le_deferrables sel input)
    have hlower := length_shedLast (Nat.le_trans hshed (shed_le_deferrables sel input))
    have hprefix := untouched_le (deferrables sel input * sel.pressure.toNat / 255) (sorted sel input)
    have hsame : deferrables sel input * q.toNat / 255 =
        deferrables sel input * sel.pressure.toNat / 255 := by
      omega
    rw [hsame]
    exact hearly

/-- The selection meets its reference exactly when the shed count is exact or does not matter. -/
theorem meetsReference_iff :
    MeetsReference sel tgt input outCap ↔ Exact sel tgt input outCap := by
  refine ⟨fun h => (select_eq_iff tgt outCap).mp h.selected, fun h => ?_⟩
  have hselected := (select_eq_iff tgt outCap).mpr h
  refine ⟨hselected, select_distinct, select_kept, fun q hq hfits => ?_⟩
  rw [hselected, (select_eq_iff tgt outCap).mpr (h.lower hq hfits)]
  exact reference_mono hq hfits

/-! ## An array of 134 MB -/

/-- A 32-bit target. -/
def ilp32 : Target where
  sizeMax := 4294967295
  sizeMax_ge := by decide

/-- Every gate is open, and the pressure is at its highest. -/
def fullPressure : Selector where
  maxCount := 0
  priorityMax := 255
  kindMask := 0
  tagMask := 0
  pressure := 255
  minDelivery := 0

def deferrableElem : Elem where
  attrs := some { priority := 0, kind := 0, tagMask := 0, deliveryClass := deliveryDeferrable }
  item := 0

/-- All are to be shed, but the product wraps to 254 and none is. -/
theorem wrapped_not_meetsReference :
    ¬ MeetsReference fullPressure ilp32 (List.replicate 16843010 deferrableElem) 1 := by
  intro h
  have hpassing : passing fullPressure (List.replicate 16843010 deferrableElem) =
      List.replicate 16843010 deferrableElem :=
    List.filter_eq_self.mpr fun e he => by
      rw [List.eq_of_mem_replicate he]
      decide
  have hsorted : sorted fullPressure (List.replicate 16843010 deferrableElem) =
      List.replicate 16843010 deferrableElem := by
    rw [sorted, hpassing]
    exact List.perm_replicate.mp (List.mergeSort_perm _ _)
  have htotal : deferrables fullPressure (List.replicate 16843010 deferrableElem) = 16843010 := by
    rw [deferrables, hpassing, List.countP_replicate]
    rfl
  have hexact := (select_eq_iff ilp32 1).mp h.selected
  rw [Exact, htotal, hsorted, limit, targetCount, List.length_replicate] at hexact
  have hfirst : untouched 16843010 (List.replicate 16843010 deferrableElem) = 0 := by
    rw [List.replicate_succ, untouched, List.countP_replicate]
    rfl
  rcases hexact with hproduct | hearly
  · exact absurd hproduct (by decide)
  · rw [show 16843010 * fullPressure.pressure.toNat / 255 = 16843010 by decide, hfirst] at hearly
    exact absurd hearly (by decide)

end Selection

end Filter
end Breadboard
