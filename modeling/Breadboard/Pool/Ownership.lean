import Mathlib.Data.List.Nodup
import Breadboard.Pool.Slots
import Breadboard.Pool.Transient

/-!
# bb_pool - who owns a slot

The history of a slot pool is the list of its events, latest first.  It says on
its own which slots are on loan and how often a returned slot has been
finalised.  The invariant ties it to the free list and the two bitmaps: every
slot is free exactly once, on loan, or pending.

Main results:

- Theorem `exec_custody`: one call keeps the invariant.
- Theorem `slots_owned_once`: ownership over every run of calls.
-/

namespace Breadboard
namespace Pool

open Foundations

/-- The events so far, latest first. -/
abbrev History := List Event

/-- The slot at an address was handed out and has not come back. -/
def onLoan (ptr : Nat) : History → Bool
  | [] => false
  | .handout q :: older => if q = ptr then true else onLoan ptr older
  | .takeBack q :: older => if q = ptr then false else onLoan ptr older
  | _ :: older => onLoan ptr older

/-- How often the slot was finalised since it came back, unless it was handed out since. -/
def reapsSinceReturn (ptr : Nat) : History → Option Nat
  | [] => none
  | .handout q :: older => if q = ptr then none else reapsSinceReturn ptr older
  | .takeBack q :: older => if q = ptr then some 0 else reapsSinceReturn ptr older
  | .slotReap q :: older =>
    if q = ptr then (reapsSinceReturn ptr older).map (· + 1) else reapsSinceReturn ptr older
  | _ :: older => reapsSinceReturn ptr older

/-- Whenever a returned slot is handed out again it has been finalised `k` times. -/
def ReapedTimes (k : Nat) (h : History) : Prop :=
  ∀ newer ptr older n, h = newer ++ .handout ptr :: older →
    reapsSinceReturn ptr older = some n → n = k

/-- Finalisations due: one where there is a reuse predicate and a finaliser. -/
def dueReaps (cfg : PoolCfg) : Nat :=
  if cfg.slotReusable && cfg.slotReap then 1 else 0

/-- Where a slot is: on the free list once, on loan, or pending, and in no second place. -/
def SlotPool.InOnePlace (p : SlotPool) (idx : Nat) : Prop :=
  (p.slots.freeList.count (p.ptrAt idx) = 1 ∧ p.slots.acquiredBitmap.test idx = false ∧
      p.slots.pendingBitmap.test idx = false) ∨
    (p.slots.freeList.count (p.ptrAt idx) = 0 ∧ p.slots.acquiredBitmap.test idx = true ∧
      p.slots.pendingBitmap.test idx = false) ∨
    (p.slots.freeList.count (p.ptrAt idx) = 0 ∧ p.slots.acquiredBitmap.test idx = false ∧
      p.slots.pendingBitmap.test idx = true)

/-! ## Histories -/

section Histories

variable {k ptr : Nat} {h : History} {b : Bool}

theorem reapedTimes_nil : ReapedTimes k [] := by
  intro newer ptr older n heq
  simp at heq

theorem reapedTimes_cons (e : Event) :
    ReapedTimes k (e :: h) ↔ ReapedTimes k h ∧
      ∀ ptr n, e = .handout ptr → reapsSinceReturn ptr h = some n → n = k := by
  constructor
  · intro hall
    refine ⟨fun newer ptr older n heq => hall (e :: newer) ptr older n (by rw [heq]; rfl), ?_⟩
    rintro ptr n rfl
    exact hall [] ptr h n rfl
  · rintro ⟨hold, hnew⟩ newer ptr older n heq
    cases newer with
    | nil =>
      obtain ⟨rfl, rfl⟩ := List.cons.inj heq
      exact hnew ptr n rfl
    | cons e' newer =>
      obtain ⟨-, rfl⟩ := List.cons.inj heq
      exact hold newer ptr older n rfl

@[simp] theorem onLoan_callback_onAcquire (q : Nat) :
    onLoan ptr (SlotPool.callback b (.onAcquire q) ++ h) = onLoan ptr h := by
  cases b <;> rfl

@[simp] theorem onLoan_callback_onRelease (q : Nat) :
    onLoan ptr (SlotPool.callback b (.onRelease q) ++ h) = onLoan ptr h := by
  cases b <;> rfl

@[simp] theorem onLoan_callback_slotReap (q : Nat) :
    onLoan ptr (SlotPool.callback b (.slotReap q) ++ h) = onLoan ptr h := by
  cases b <;> rfl

@[simp] theorem reaps_callback_onAcquire (q : Nat) :
    reapsSinceReturn ptr (SlotPool.callback b (.onAcquire q) ++ h) = reapsSinceReturn ptr h := by
  cases b <;> rfl

@[simp] theorem reaps_callback_onRelease (q : Nat) :
    reapsSinceReturn ptr (SlotPool.callback b (.onRelease q) ++ h) = reapsSinceReturn ptr h := by
  cases b <;> rfl

@[simp] theorem reaps_callback_slotReap (q : Nat) :
    reapsSinceReturn ptr (SlotPool.callback b (.slotReap q) ++ h) =
      if q = ptr then (reapsSinceReturn ptr h).map (· + if b then 1 else 0)
      else reapsSinceReturn ptr h := by
  cases b with
  | false => simp [SlotPool.callback]
  | true => rfl

theorem ReapedTimes.callback (hk : ReapedTimes k h) {e : Event} (he : ∀ ptr, e ≠ .handout ptr) :
    ReapedTimes k (SlotPool.callback b e ++ h) := by
  cases b with
  | false => exact hk
  | true => exact (reapedTimes_cons e).mpr ⟨hk, fun ptr _ heq => absurd heq (he ptr)⟩

theorem reverse_callback (e : Event) :
    (SlotPool.callback b e).reverse = SlotPool.callback b e := by
  cases b <;> rfl

end Histories

/-! ## Slots and their addresses -/

namespace SlotPool

variable {p : SlotPool} {idx i j ptr : Nat}

theorem ptrAt_inj (hstride : 0 < p.slots.slotStride) : p.ptrAt i = p.ptrAt j ↔ i = j := by
  simp only [ptrAt, Slots.ptrAt, Nat.add_left_cancel_iff]
  exact ⟨fun h => Nat.eq_of_mul_eq_mul_right hstride h, fun h => by rw [h]⟩

theorem indexOf_ptrAt (hstride : 0 < p.slots.slotStride) (hidx : idx < p.cfg.capacity) :
    p.indexOf (p.ptrAt idx) = some idx := by
  have hdiv : idx * p.slots.slotStride / p.slots.slotStride = idx := Nat.mul_div_cancel _ hstride
  unfold indexOf ptrAt Slots.ptrAt
  rw [if_neg (by omega)]
  simp only [Nat.add_sub_cancel_left, Nat.mul_mod_left, hdiv]
  rw [if_neg (by simp), if_neg (Nat.not_le.mpr hidx)]

/-- Only the address of a slot has an index. -/
theorem eq_ptrAt_of_indexOf (h : p.indexOf ptr = some idx) :
    ptr = p.ptrAt idx ∧ idx < p.cfg.capacity := by
  unfold indexOf at h
  split at h
  · cases h
  rename_i hle
  dsimp only at h
  split at h
  · cases h
  rename_i hmod
  split at h
  · cases h
  rename_i hlt
  cases h
  refine ⟨?_, Nat.lt_of_not_le hlt⟩
  have hdiv := Nat.div_mul_cancel (Nat.dvd_of_mod_eq_zero (Decidable.not_not.mp hmod))
  unfold ptrAt Slots.ptrAt
  omega

end SlotPool

/-! ## The invariant -/

/-- The free list, the bitmaps and the history agree. -/
structure Custody (p : SlotPool) (h : History) : Prop where
  storage_pos : 0 < p.slots.storage
  stride_pos : 0 < p.slots.slotStride
  free_slots : ∀ ptr ∈ p.slots.freeList, ∃ idx < p.cfg.capacity, ptr = p.ptrAt idx
  one_place : ∀ idx < p.cfg.capacity,
    p.slots.freeList.count (p.ptrAt idx) + (p.slots.acquiredBitmap.test idx).toNat +
      (p.slots.pendingBitmap.test idx).toNat = 1
  none_pending : p.cfg.slotReusable = false →
    ∀ idx < p.cfg.capacity, p.slots.pendingBitmap.test idx = false
  loan_eq : ∀ idx < p.cfg.capacity, p.slots.acquiredBitmap.test idx = onLoan (p.ptrAt idx) h
  pending_reaps : ∀ idx < p.cfg.capacity, p.slots.pendingBitmap.test idx = true →
    reapsSinceReturn (p.ptrAt idx) h = some 0
  free_reaps : ∀ ptr ∈ p.slots.freeList, ∀ n, reapsSinceReturn ptr h = some n →
    n = dueReaps p.cfg
  reaped : ReapedTimes (dueReaps p.cfg) h

namespace Custody

variable {p : SlotPool} {h : History} {idx ptr : Nat}

theorem inOnePlace (hc : Custody p h) (hidx : idx < p.cfg.capacity) : p.InOnePlace idx := by
  have hone := hc.one_place idx hidx
  unfold SlotPool.InOnePlace
  cases hacq : p.slots.acquiredBitmap.test idx <;> cases hpend : p.slots.pendingBitmap.test idx <;>
    simp only [hacq, hpend, Bool.toNat_true, Bool.toNat_false] at hone <;> simp <;> omega

theorem ptrAt_pos (hc : Custody p h) (idx : Nat) : 0 < p.ptrAt idx :=
  Nat.lt_of_lt_of_le hc.storage_pos (Nat.le_add_right ..)

/-- What is pending or on loan is not on the free list. -/
theorem not_mem_free (hc : Custody p h) (hidx : idx < p.cfg.capacity)
    (hout : p.slots.acquiredBitmap.test idx = true ∨ p.slots.pendingBitmap.test idx = true) :
    p.ptrAt idx ∉ p.slots.freeList := by
  have hone := hc.one_place idx hidx
  intro hmem
  have hcount := List.count_pos_iff.mpr hmem
  rcases hout with hbit | hbit <;> rw [hbit, Bool.toNat_true] at hone <;> omega

/-- The slot on top of the free list is nowhere else. -/
theorem top_spec (hc : Custody p h) {rest : List Nat} (hfree : p.slots.freeList = ptr :: rest) :
    ∃ idx < p.cfg.capacity, ptr = p.ptrAt idx ∧ p.slots.acquiredBitmap.test idx = false ∧
      p.slots.pendingBitmap.test idx = false ∧ ptr ∉ rest := by
  obtain ⟨idx, hidx, rfl⟩ := hc.free_slots ptr (by simp [hfree])
  have hone := hc.one_place idx hidx
  rw [hfree, List.count_cons_self] at hone
  refine ⟨idx, hidx, rfl, ?_, ?_, fun hmem => ?_⟩
  · cases hbit : p.slots.acquiredBitmap.test idx with
    | false => rfl
    | true => rw [hbit, Bool.toNat_true] at hone; omega
  · cases hbit : p.slots.pendingBitmap.test idx with
    | false => rfl
    | true => rw [hbit, Bool.toNat_true] at hone; omega
  · have hcount := List.count_pos_iff.mpr hmem
    omega

/-- Handing out the slot on top of the free list. -/
theorem handOut (hc : Custody p h) {rest : List Nat} (hfree : p.slots.freeList = ptr :: rest)
    {p' : SlotPool} (hp' : p' = { p with slots := { p.slots with freeList := rest } }) :
    Custody (p'.handOut ptr).1 ((p'.handOut ptr).2.reverse ++ h) := by
  obtain ⟨i, hi, rfl, hacq, hpend, hrest⟩ := hc.top_spec hfree
  have hinj (j : Nat) : p.ptrAt i = p.ptrAt j ↔ i = j := SlotPool.ptrAt_inj hc.stride_pos
  have hindex : p'.indexOf (p.ptrAt i) = some i := by
    subst hp'
    exact SlotPool.indexOf_ptrAt hc.stride_pos hi
  have hout : p'.handOut (p.ptrAt i) =
      ({ p with slots := { p.slots with
          freeList := rest
          acquiredBitmap := p.slots.acquiredBitmap.set i } },
        SlotPool.callback p.cfg.onAcquire (.onAcquire (p.ptrAt i)) ++ [.handout (p.ptrAt i)]) := by
    rw [SlotPool.handOut, hindex]
    subst hp'
    rfl
  rw [hout, List.reverse_append, reverse_callback]
  change Custody _ (.handout (p.ptrAt i) :: (SlotPool.callback _ _ ++ h))
  exact
    { storage_pos := hc.storage_pos
      stride_pos := hc.stride_pos
      free_slots := fun q hq => hc.free_slots q (by rw [hfree]; exact List.mem_cons_of_mem _ hq)
      one_place := fun j hj => by
        have hone := hc.one_place j hj
        rw [hfree, List.count_cons] at hone
        show rest.count (p.ptrAt j) + ((p.slots.acquiredBitmap.set i).test j).toNat +
          (p.slots.pendingBitmap.test j).toNat = 1
        rw [Bitmap.test_set]
        by_cases hij : i = j
        · subst hij
          simp only [hacq, beq_self_eq_true, if_true] at hone
          simp only [hacq, decide_true, Bool.true_or, Bool.toNat_true, Bool.toNat_false] at hone ⊢
          omega
        · have hne : (p.ptrAt i == p.ptrAt j) = false := by simpa [hinj j] using hij
          simpa [hij, hne] using hone
      none_pending := hc.none_pending
      loan_eq := fun j hj => by
        show (p.slots.acquiredBitmap.set i).test j =
          onLoan (p.ptrAt j) _
        rw [Bitmap.test_set, hc.loan_eq j hj, onLoan, onLoan_callback_onAcquire]
        by_cases hij : i = j <;> simp [hinj j, hij]
      pending_reaps := fun j hj hbit => by
        have hij : i ≠ j := by
          rintro rfl
          exact absurd (hpend.symm.trans hbit) (by simp)
        change reapsSinceReturn (p.ptrAt j) _ = _
        rw [reapsSinceReturn, if_neg ((hinj j).not.mpr hij), reaps_callback_onAcquire]
        exact hc.pending_reaps j hj hbit
      free_reaps := fun q hq n hn => by
        have hne : p.ptrAt i ≠ q := by
          rintro rfl
          exact hrest hq
        rw [reapsSinceReturn, if_neg hne, reaps_callback_onAcquire] at hn
        exact hc.free_reaps q (by rw [hfree]; exact List.mem_cons_of_mem _ hq) n hn
      reaped := by
        refine (reapedTimes_cons _).mpr ⟨hc.reaped.callback (by simp), ?_⟩
        intro q n heq hn
        rw [reaps_callback_onAcquire] at hn
        refine hc.free_reaps q ?_ n hn
        rw [hfree, Event.handout.inj heq]
        exact List.mem_cons_self .. }

/-- Finalising a pending slot and putting it on the free list. -/
theorem reapFree (hc : Custody p h) (hidx : idx < p.cfg.capacity)
    (hreusable : p.cfg.slotReusable = true) (hpend : p.slots.pendingBitmap.test idx = true) :
    Custody
      { p with slots := { p.slots with
          freeList := p.ptrAt idx :: p.slots.freeList
          pendingBitmap := p.slots.pendingBitmap.clear idx } }
      ((p.reap idx).2.reverse ++ h) := by
  have hinj (j : Nat) : p.ptrAt idx = p.ptrAt j ↔ idx = j := SlotPool.ptrAt_inj hc.stride_pos
  have hnot := hc.not_mem_free hidx (.inr hpend)
  rw [SlotPool.reap, reverse_callback]
  exact
    { storage_pos := hc.storage_pos
      stride_pos := hc.stride_pos
      free_slots := fun q hq => by
        rcases List.mem_cons.mp hq with rfl | hq
        · exact ⟨idx, hidx, rfl⟩
        · exact hc.free_slots q hq
      one_place := fun j hj => by
        have hone := hc.one_place j hj
        show (p.ptrAt idx :: p.slots.freeList).count (p.ptrAt j) +
          (p.slots.acquiredBitmap.test j).toNat + ((p.slots.pendingBitmap.clear idx).test j).toNat = 1
        rw [Bitmap.test_clear, List.count_cons]
        by_cases hij : idx = j
        · subst hij
          rw [hpend, Bool.toNat_true] at hone
          simp only [beq_self_eq_true, if_true, decide_true, Bool.not_true, Bool.false_and,
            Bool.toNat_false]
          omega
        · have hne : (p.ptrAt idx == p.ptrAt j) = false := by simpa [hinj j] using hij
          simpa [hij, hne] using hone
      none_pending := fun hoff => absurd (hreusable.symm.trans hoff) (by simp)
      loan_eq := fun j hj => by
        rw [onLoan_callback_slotReap]
        exact hc.loan_eq j hj
      pending_reaps := fun j hj hbit => by
        simp only [Bitmap.test_clear, Bool.and_eq_true, Bool.not_eq_true', decide_eq_false_iff_not]
          at hbit
        change reapsSinceReturn (p.ptrAt j) _ = _
        rw [reaps_callback_slotReap, if_neg ((hinj j).not.mpr hbit.1)]
        exact hc.pending_reaps j hj hbit.2
      free_reaps := fun q hq n hn => by
        rw [reaps_callback_slotReap] at hn
        rcases List.mem_cons.mp hq with rfl | hq
        · rw [if_pos rfl, hc.pending_reaps idx hidx hpend, Option.map_some, Option.some.injEq] at hn
          rw [← hn, dueReaps, hreusable, Nat.zero_add, Bool.true_and]
        · have hne : p.ptrAt idx ≠ q := by
            rintro rfl
            exact hnot hq
          rw [if_neg hne] at hn
          exact hc.free_reaps q hq n hn
      reaped := hc.reaped.callback (by simp) }

/-- Taking back a slot on loan: to the free list, or pending where there is a reuse predicate. -/
theorem takeBack (hc : Custody p h) (hidx : idx < p.cfg.capacity)
    (hacq : p.slots.acquiredBitmap.test idx = true) :
    Custody
      { p with slots :=
          if p.cfg.slotReusable then
            { p.slots with
              acquiredBitmap := p.slots.acquiredBitmap.clear idx
              pendingBitmap := p.slots.pendingBitmap.set idx }
          else
            { p.slots with
              acquiredBitmap := p.slots.acquiredBitmap.clear idx
              freeList := p.ptrAt idx :: p.slots.freeList } }
      (SlotPool.callback p.cfg.onRelease (.onRelease (p.ptrAt idx)) ++
        .takeBack (p.ptrAt idx) :: h) := by
  have hinj (j : Nat) : p.ptrAt idx = p.ptrAt j ↔ idx = j := SlotPool.ptrAt_inj hc.stride_pos
  have hnot := hc.not_mem_free hidx (.inl hacq)
  have hone := hc.one_place idx hidx
  have hpend : p.slots.pendingBitmap.test idx = false := by
    cases hbit : p.slots.pendingBitmap.test idx with
    | false => rfl
    | true => rw [hbit, hacq, Bool.toNat_true] at hone; omega
  have hloan (j : Nat) (hj : j < p.cfg.capacity) :
      (p.slots.acquiredBitmap.clear idx).test j =
        onLoan (p.ptrAt j) (SlotPool.callback p.cfg.onRelease (.onRelease (p.ptrAt idx)) ++
          .takeBack (p.ptrAt idx) :: h) := by
    rw [onLoan_callback_onRelease, onLoan, Bitmap.test_clear, hc.loan_eq j hj]
    by_cases hij : idx = j <;> simp [hinj j, hij]
  have hreaps {q : Nat} (hq : p.ptrAt idx ≠ q) :
      reapsSinceReturn q (SlotPool.callback p.cfg.onRelease (.onRelease (p.ptrAt idx)) ++
        .takeBack (p.ptrAt idx) :: h) = reapsSinceReturn q h := by
    rw [reaps_callback_onRelease, reapsSinceReturn, if_neg hq]
  have hself : reapsSinceReturn (p.ptrAt idx)
      (SlotPool.callback p.cfg.onRelease (.onRelease (p.ptrAt idx)) ++
        .takeBack (p.ptrAt idx) :: h) = some 0 := by
    rw [reaps_callback_onRelease, reapsSinceReturn, if_pos rfl]
  have hreaped : ReapedTimes (dueReaps p.cfg)
      (SlotPool.callback p.cfg.onRelease (.onRelease (p.ptrAt idx)) ++
        .takeBack (p.ptrAt idx) :: h) :=
    ReapedTimes.callback ((reapedTimes_cons _).mpr ⟨hc.reaped, by simp⟩) (by simp)
  have hfreeReaps : ∀ q ∈ p.slots.freeList, ∀ n, reapsSinceReturn q
      (SlotPool.callback p.cfg.onRelease (.onRelease (p.ptrAt idx)) ++
        .takeBack (p.ptrAt idx) :: h) = some n → n = dueReaps p.cfg := by
    intro q hq n hn
    have hne : p.ptrAt idx ≠ q := by
      rintro rfl
      exact hnot hq
    rw [hreaps hne] at hn
    exact hc.free_reaps q hq n hn
  cases hreusable : p.cfg.slotReusable with
  | true =>
    simp only [if_true]
    exact
      { storage_pos := hc.storage_pos
        stride_pos := hc.stride_pos
        free_slots := hc.free_slots
        one_place := fun j hj => by
          have hone := hc.one_place j hj
          show p.slots.freeList.count (p.ptrAt j) +
            ((p.slots.acquiredBitmap.clear idx).test j).toNat +
            ((p.slots.pendingBitmap.set idx).test j).toNat = 1
          rw [Bitmap.test_clear, Bitmap.test_set]
          by_cases hij : idx = j
          · subst hij
            simp only [hacq, hpend, Bool.toNat_true, Bool.toNat_false] at hone
            simp only [decide_true, Bool.not_true, Bool.false_and, Bool.true_or, Bool.toNat_true,
              Bool.toNat_false]
            omega
          · simpa [hij] using hone
        none_pending := fun hoff => absurd (hreusable.symm.trans hoff) (by simp)
        loan_eq := hloan
        pending_reaps := fun j hj hbit => by
          rw [Bitmap.test_set] at hbit
          change reapsSinceReturn (p.ptrAt j) _ = _
          by_cases hij : idx = j
          · subst hij
            exact hself
          · rw [decide_eq_false hij, Bool.false_or] at hbit
            rw [hreaps ((hinj j).not.mpr hij)]
            exact hc.pending_reaps j hj hbit
        free_reaps := hfreeReaps
        reaped := hreaped }
  | false =>
    simp only [Bool.false_eq_true, if_false]
    exact
      { storage_pos := hc.storage_pos
        stride_pos := hc.stride_pos
        free_slots := fun q hq => by
          rcases List.mem_cons.mp hq with rfl | hq
          · exact ⟨idx, hidx, rfl⟩
          · exact hc.free_slots q hq
        one_place := fun j hj => by
          have hone := hc.one_place j hj
          show (p.ptrAt idx :: p.slots.freeList).count (p.ptrAt j) +
            ((p.slots.acquiredBitmap.clear idx).test j).toNat +
            (p.slots.pendingBitmap.test j).toNat = 1
          rw [Bitmap.test_clear, List.count_cons]
          by_cases hij : idx = j
          · subst hij
            rw [hacq, Bool.toNat_true] at hone
            simp only [beq_self_eq_true, if_true, decide_true, Bool.not_true, Bool.false_and,
              Bool.toNat_false]
            omega
          · have hne : (p.ptrAt idx == p.ptrAt j) = false := by simpa [hinj j] using hij
            simpa [hij, hne] using hone
        none_pending := hc.none_pending
        loan_eq := hloan
        pending_reaps := fun j hj hbit =>
          absurd (hbit.symm.trans (hc.none_pending hreusable j hj)) (by simp)
        free_reaps := fun q hq n hn => by
          rcases List.mem_cons.mp hq with rfl | hq
          · rw [hself] at hn
            rw [← Option.some.inj hn, dueReaps, hreusable]
            rfl
          · exact hfreeReaps q hq n hn
        reaped := hreaped }

/-! ## The calls -/

/-- What `bb_pool_acquire` can do: nothing, or hand out a slot that was not on loan. -/
theorem acquire (hc : Custody p h) (reusable : Nat → Bool) :
    Custody (p.acquire reusable).2.1 ((p.acquire reusable).2.2.reverse ++ h) ∧
      ∀ ptr, (p.acquire reusable).1 = some ptr →
        ∃ idx < p.cfg.capacity, ptr = p.ptrAt idx ∧ p.slots.acquiredBitmap.test idx = false := by
  unfold SlotPool.acquire SlotPool.take
  cases hfree : p.slots.freeList with
  | cons ptr rest =>
    obtain ⟨idx, hidx, rfl, hacq, -, -⟩ := hc.top_spec hfree
    have hpos := hc.ptrAt_pos idx
    simp only [if_neg (Nat.pos_iff_ne_zero.mp hpos), List.nil_append]
    refine ⟨hc.handOut hfree rfl, fun ptr hptr => ?_⟩
    cases hptr
    exact ⟨idx, hidx, rfl, hacq⟩
  | nil =>
    by_cases hreusable : p.cfg.slotReusable = true
    · simp only [if_pos hreusable]
      split
      · rename_i ptr p' events hfind
        split at hfind
        · rename_i idx hidx
          cases hfind
          have hrange := List.mem_range.mp (List.mem_of_find?_eq_some hidx)
          have hpend := List.find?_some hidx
          rw [Bool.and_eq_true] at hpend
          have hreap := hc.reapFree hrange hreusable hpend.1
          have hpos := hc.ptrAt_pos idx
          simp only [if_neg (Nat.pos_iff_ne_zero.mp hpos), List.reverse_append, List.append_assoc]
          refine ⟨@handOut _ _ (p.ptrAt idx) hreap [] ?_ _ ?_, fun ptr hptr => ?_⟩
          · simp [hfree]
          · simp [SlotPool.reap, hfree]
          · cases hptr
            have hone := hc.one_place idx hrange
            refine ⟨idx, hrange, rfl, ?_⟩
            cases hbit : p.slots.acquiredBitmap.test idx with
            | false => rfl
            | true => rw [hbit, hpend.1, Bool.toNat_true] at hone; omega
        · cases hfind
      · rename_i p' events hfind
        split at hfind
        · cases hfind
        · cases hfind
          exact ⟨hc, fun ptr hptr => by cases hptr⟩
    · simp only [if_neg hreusable]
      exact ⟨hc, fun ptr hptr => by cases hptr⟩

/-- `bb_pool_release`: a slot on loan comes back, anything else is turned away. -/
theorem release (hc : Custody p h) (ptr : Nat) :
    Custody (p.release ptr).2.1 ((p.release ptr).2.2.reverse ++ h) ∧
      (onLoan ptr h = false →
        (p.release ptr).1 ≠ .ok ∧ (p.release ptr).2.1 = p ∧ (p.release ptr).2.2 = []) := by
  unfold SlotPool.release
  split
  · exact ⟨hc, fun _ => ⟨by simp, rfl, rfl⟩⟩
  split
  · exact ⟨hc, fun _ => ⟨by simp, rfl, rfl⟩⟩
  rename_i idx hindex
  obtain ⟨rfl, hidx⟩ := SlotPool.eq_ptrAt_of_indexOf hindex
  split
  · exact ⟨hc, fun _ => ⟨by simp, rfl, rfl⟩⟩
  rename_i hacq
  rw [Bool.not_eq_false] at hacq
  split
  · exact ⟨hc, fun _ => ⟨by simp, rfl, rfl⟩⟩
  · refine ⟨?_, fun hoff => ?_⟩
    · have hback := hc.takeBack hidx hacq
      simpa [reverse_callback] using hback
    · rw [← hc.loan_eq idx hidx, hacq] at hoff
      cases hoff

/-- `bb_pool_slots_reap_ready`: each turn of its loop finalises one pending slot. -/
theorem reapReady (hc : Custody p h) (reusable : Nat → Bool) :
    Custody (p.reapReady reusable).2.1 ((p.reapReady reusable).2.2.reverse ++ h) := by
  unfold SlotPool.reapReady
  split
  · exact hc
  rename_i hreusable
  rw [Bool.not_eq_false] at hreusable
  have hloop : Custody (forRange (SlotPool.reapReadyAt reusable) (0, p, []) p.cfg.capacity).2.1
        ((forRange (SlotPool.reapReadyAt reusable) (0, p, []) p.cfg.capacity).2.2.reverse ++ h) ∧
      (forRange (SlotPool.reapReadyAt reusable) (0, p, []) p.cfg.capacity).2.1.cfg = p.cfg := by
    refine forRange_invariant (I := fun st : Nat × SlotPool × List Event =>
      Custody st.2.1 (st.2.2.reverse ++ h) ∧ st.2.1.cfg = p.cfg) ⟨hc, rfl⟩ ?_
    rintro idx ⟨n, q, events⟩ hidx ⟨hq, hcfg⟩
    unfold SlotPool.reapReadyAt
    dsimp only at hq hcfg ⊢
    split
    · exact ⟨hq, hcfg⟩
    rename_i hpend
    split
    · exact ⟨hq, hcfg⟩
    · have hreap := hq.reapFree (hcfg ▸ hidx) (hcfg ▸ hreusable) (by simpa using hpend)
      rw [List.reverse_append, List.append_assoc]
      exact ⟨hreap, hcfg⟩
  exact hloop.1

/-- One call keeps the invariant. -/
theorem exec_custody (hc : Custody p h) (op : SlotOp) :
    Custody (p.exec op).2 ((p.exec op).1.2.reverse ++ h) := by
  cases op with
  | acquire reusable => exact (hc.acquire reusable).1
  | release ptr => exact (hc.release ptr).1
  | reapReady reusable => exact hc.reapReady reusable

end Custody

/-! ## Whole runs -/

theorem exec_cfg (p : SlotPool) (op : SlotOp) : (p.exec op).2.cfg = p.cfg := by
  cases op with
  | acquire reusable =>
    have htake : (p.take reusable).2.1.cfg = p.cfg := by
      unfold SlotPool.take
      split
      · rfl
      split
      · split <;> rfl
      · rfl
    have hout (q : SlotPool) (ptr : Nat) : (q.handOut ptr).1.cfg = q.cfg := by
      unfold SlotPool.handOut
      split <;> rfl
    simp only [SlotPool.exec, SlotPool.acquire]
    split
    · rename_i heq
      rw [heq] at htake
      split
      · exact htake
      · exact (hout _ _).trans htake
    · rename_i heq
      rw [heq] at htake
      exact htake
  | release ptr =>
    simp only [SlotPool.exec, SlotPool.release]
    split
    · rfl
    split
    · rfl
    split
    · rfl
    split <;> rfl
  | reapReady reusable =>
    simp only [SlotPool.exec, SlotPool.reapReady]
    split
    · rfl
    · refine forRange_invariant (I := fun st : Nat × SlotPool × List Event => st.2.1.cfg = p.cfg)
        rfl ?_
      rintro idx ⟨n, q, events⟩ - hcfg
      unfold SlotPool.reapReadyAt
      dsimp only at hcfg ⊢
      split
      · exact hcfg
      split <;> exact hcfg

/-- The history of a run: the events of its replies, latest first. -/
def historyOf (replies : List (SlotReply × List Event)) : History :=
  (replies.flatMap (·.2)).reverse

theorem run_custody {p : SlotPool} {h : History} (hc : Custody p h) (ops : List SlotOp) :
    Custody (runReplies SlotPool.exec p ops).2
        (historyOf (runReplies SlotPool.exec p ops).1 ++ h) ∧
      (runReplies SlotPool.exec p ops).2.cfg = p.cfg := by
  induction ops generalizing p h with
  | nil => exact ⟨hc, rfl⟩
  | cons op ops ih =>
    obtain ⟨hrest, hcfg⟩ := ih (hc.exec_custody op)
    refine ⟨?_, hcfg.trans (exec_cfg p op)⟩
    simpa [historyOf] using hrest

theorem fresh_custody {cfg : PoolCfg} {storage stride : Nat} (hstorage : 0 < storage)
    (hstride : 0 < stride) :
    Custody { cfg := cfg, slots := .fresh storage stride cfg.capacity } [] := by
  have hinj {i j : Nat} (h : storage + i * stride = storage + j * stride) : i = j :=
    Nat.eq_of_mul_eq_mul_right hstride (Nat.add_left_cancel h)
  exact
    { storage_pos := hstorage
      stride_pos := hstride
      free_slots := fun ptr hptr => by
        simp only [Slots.fresh, List.mem_reverse, List.mem_map, List.mem_range] at hptr
        obtain ⟨idx, hidx, rfl⟩ := hptr
        exact ⟨idx, hidx, rfl⟩
      one_place := fun idx hidx => by
        have hcount : ((List.range cfg.capacity).map fun i => storage + i * stride).reverse.count
            (storage + idx * stride) = 1 := by
          rw [List.count_reverse]
          have hnodup : ((List.range cfg.capacity).map fun i => storage + i * stride).Nodup :=
            List.nodup_range.map fun i j h => hinj h
          exact List.count_eq_one_of_mem hnodup (List.mem_map.mpr ⟨idx, List.mem_range.mpr hidx, rfl⟩)
        simpa [Slots.fresh, SlotPool.ptrAt, Slots.ptrAt] using hcount
      none_pending := fun _ idx _ => Bitmap.test_zero idx
      loan_eq := fun idx _ => Bitmap.test_zero idx
      pending_reaps := fun idx _ hbit => by simp [Slots.fresh] at hbit
      free_reaps := fun ptr _ n hn => by cases hn
      reaped := reapedTimes_nil }

theorem created_custody {tgt : Target} {cfg : PoolCfg} {p : BbPool} (hmode : cfg.mode = .slots)
    (hcreated : Created tgt cfg p) : Custody p.slotPool [] ∧ p.slotPool.cfg = cfg := by
  have hfrom {q : BbPool} {arena : MemArena.Arena} (h : create tgt cfg arena = .ok q) :
      Custody q.slotPool [] ∧ q.slotPool.cfg = cfg := by
    obtain ⟨hcfg, storage, stride, hstorage, hstride, hslots⟩ := create_slots_spec hmode h
    have heq : q.slotPool = { cfg := cfg, slots := .fresh storage stride cfg.capacity } := by
      rw [BbPool.slotPool, hcfg, hslots]
    rw [heq]
    exact ⟨fresh_custody hstorage hstride, rfl⟩
  cases hcreated with
  | inArena arena h => exact hfrom h
  | owned block h =>
    obtain ⟨arena, q, hq, rfl, -⟩ := createOwned_spec h
    exact @hfrom q arena hq

/--
Over every run of calls on a slot pool, whatever its callbacks and the answers of its
reuse predicate: every slot is in exactly one place and the acquired bitmap says which
slots are on loan; an acquire returns a slot that is not on loan; a release of anything
that is not on loan is refused and changes nothing; and a slot that is handed out again
has been finalised once since it came back, where there is anything to finalise it.
-/
theorem slots_owned_once {tgt : Target} {cfg : PoolCfg} {p : BbPool} (hmode : cfg.mode = .slots)
    (hcreated : Created tgt cfg p) (ops : List SlotOp) :
    let out := runReplies SlotPool.exec p.slotPool ops
    let q := out.2
    let h := historyOf out.1
    (∀ idx < cfg.capacity, q.InOnePlace idx ∧
        q.slots.acquiredBitmap.test idx = onLoan (q.ptrAt idx) h) ∧
      (∀ ptr ∈ q.slots.freeList, ∃ idx < cfg.capacity, ptr = q.ptrAt idx) ∧
      (∀ reusable ptr, (q.acquire reusable).1 = some ptr →
        onLoan ptr h = false ∧ ∃ idx < cfg.capacity, ptr = q.ptrAt idx) ∧
      (∀ ptr, onLoan ptr h = false →
        (q.release ptr).1 ≠ .ok ∧ (q.release ptr).2.1 = q ∧ (q.release ptr).2.2 = []) ∧
      ReapedTimes (dueReaps cfg) h := by
  intro out q h
  obtain ⟨hstart, hcfg⟩ := created_custody hmode hcreated
  obtain ⟨hc, hsame⟩ := run_custody hstart ops
  rw [List.append_nil] at hc
  have hq : q.cfg = cfg := hsame.trans hcfg
  refine ⟨fun idx hidx => ?_, ?_, fun reusable ptr hptr => ?_, fun ptr hoff => ?_, ?_⟩
  · rw [← hq] at hidx
    exact ⟨hc.inOnePlace hidx, hc.loan_eq idx hidx⟩
  · rw [← hq]
    exact hc.free_slots
  · obtain ⟨idx, hidx, rfl, hacq⟩ := (hc.acquire reusable).2 ptr hptr
    exact ⟨(hc.loan_eq idx hidx).symm.trans hacq, idx, hq ▸ hidx, rfl⟩
  · exact (hc.release ptr).2 hoff
  · rw [← hq]
    exact hc.reaped

/-- One slot with a reuse predicate and a finaliser: acquire, release, wait, acquire again. -/
theorem slots_owned_once_pending :
    ∃ p, createOwned .ilp32 ⟨.slots, 1, 24, 0, false, false, true, true⟩ 4096 = .ok p ∧
      ReapedTimes 1 (historyOf (runReplies SlotPool.exec p.slotPool
        [.acquire fun _ => true, .release p.slots.storage, .acquire fun _ => false,
          .acquire fun _ => true]).1) := by
  refine ⟨_, rfl, ?_⟩
  have hcreated : Created .ilp32 ⟨.slots, 1, 24, 0, false, false, true, true⟩ _ :=
    .owned 4096 rfl
  exact (slots_owned_once rfl hcreated _).2.2.2.2

end Pool
end Breadboard
