import Mathlib.Logic.Function.Basic
import Mathlib.Tactic.Common

/-!
# Resources held by workers and by cells

A pool marks its resources used.  A worker takes a resource, attaches it to a
cell and makes the cell live, which passes the resource on; a live cell drops its
resource and then forgets the reference, and between the two the reference is
stale.  As long as nothing is taken that is used already, or that some live cell
still refers to, the marks say exactly what is held, and nothing is held twice.

Main results:

- Theorem `Accounted.used_eq`: what is held determines the marks.
-/

namespace Breadboard
namespace Foundations

universe u

/-- What a cell refers to; a stale reference is no longer a holding. -/
structure Cell where
  live : Bool
  ref : Option Nat
  stale : Bool
  deriving Repr, DecidableEq

/-- The marks are exactly the holdings, and no resource has two holders. -/
structure Accounted {ι : Type u} (used : Nat → Bool) (cells : Nat → Cell)
    (held : ι → Option Nat) : Prop where
  worker_inj : ∀ v w r, held v = some r → held w = some r → v = w
  cell_inj : ∀ i j r, (cells i).live = true → (cells j).live = true → (cells i).ref = some r →
    (cells j).ref = some r → i = j
  apart : ∀ w i r, held w = some r → (cells i).live = true → (cells i).ref ≠ some r
  used_iff : ∀ r, used r = true ↔ (∃ w, held w = some r) ∨
    ∃ i, (cells i).live = true ∧ (cells i).stale = false ∧ (cells i).ref = some r

namespace Accounted

variable {ι : Type u} [DecidableEq ι] {used : Nat → Bool} {cells : Nat → Cell}
  {held : ι → Option Nat} {w : ι} {i r : Nat}

omit [DecidableEq ι] in
theorem init : Accounted (fun _ => false) (fun _ => ⟨false, none, false⟩)
    (fun _ : ι => (none : Option Nat)) where
  worker_inj := by simp
  cell_inj := by simp
  apart := by simp
  used_iff := by simp

/-- A worker without a holding takes a free resource that no live cell refers to. -/
theorem take (h : Accounted used cells held) (hw : held w = none) (hfree : used r = false)
    (hunref : ∀ i, (cells i).live = true → (cells i).ref ≠ some r) :
    Accounted (Function.update used r true) cells (Function.update held w (some r)) := by
  have hnew : ∀ v, held v ≠ some r := fun v hv => by
    have := (h.used_iff r).mpr (.inl ⟨v, hv⟩)
    rw [hfree] at this
    cases this
  refine ⟨fun v v' q hv hv' => ?_, h.cell_inj, fun v j q hv hj => ?_, fun q => ?_⟩
  · by_cases hvw : v = w <;> by_cases hvw' : v' = w <;>
      simp only [hvw, hvw', Function.update_self, Function.update_of_ne, ne_eq, not_false_eq_true,
        Option.some.injEq] at hv hv' ⊢
    · exact absurd (hv ▸ hv') (hnew v')
    · exact absurd (hv' ▸ hv) (hnew v)
    · exact h.worker_inj v v' q hv hv'
  · by_cases hvw : v = w
    · rw [hvw, Function.update_self] at hv
      cases hv
      exact hunref j hj
    · rw [Function.update_of_ne hvw] at hv
      exact h.apart v j q hv hj
  · by_cases hq : q = r
    · subst hq
      rw [Function.update_self]
      exact ⟨fun _ => .inl ⟨w, Function.update_self ..⟩, fun _ => rfl⟩
    · rw [Function.update_of_ne hq, h.used_iff q]
      refine or_congr_left ⟨fun ⟨v, hv⟩ => ⟨v, ?_⟩, fun ⟨v, hv⟩ => ⟨v, ?_⟩⟩
      · rw [Function.update_of_ne, hv]
        rintro rfl
        rw [hw] at hv
        cases hv
      · by_cases hvw : v = w
        · rw [hvw, Function.update_self] at hv
          exact absurd (Option.some.inj hv).symm hq
        · rwa [Function.update_of_ne hvw] at hv

/-- A worker gives its holding back. -/
theorem giveBack (h : Accounted used cells held) (hw : held w = some r) :
    Accounted (Function.update used r false) cells (Function.update held w none) := by
  have hold {v : ι} {q : Nat} (hv : Function.update held w none v = some q) :
      v ≠ w ∧ held v = some q := by
    by_cases hvw : v = w
    · rw [hvw, Function.update_self] at hv
      cases hv
    · rw [Function.update_of_ne hvw] at hv
      exact ⟨hvw, hv⟩
  refine ⟨fun v v' q hv hv' => h.worker_inj v v' q (hold hv).2 (hold hv').2, h.cell_inj,
    fun v j q hv hj => h.apart v j q (hold hv).2 hj, fun q => ?_⟩
  by_cases hq : q = r
  · subst hq
    rw [Function.update_self]
    simp only [Bool.false_eq_true, false_iff, not_or, not_exists]
    refine ⟨fun v hv => (hold hv).1 (h.worker_inj v w q (hold hv).2 hw), ?_⟩
    exact fun j hj => h.apart w j q hw hj.1 hj.2.2
  · rw [Function.update_of_ne hq, h.used_iff q]
    refine or_congr_left ⟨fun ⟨v, hv⟩ => ⟨v, ?_⟩, fun ⟨v, hv⟩ => ⟨v, (hold hv).2⟩⟩
    rw [Function.update_of_ne, hv]
    rintro rfl
    exact hq (Option.some.inj (hv.symm.trans hw))

omit [DecidableEq ι] in
/-- What a cell that stays dead refers to is nobody's holding. -/
theorem writeDead (h : Accounted used cells held) (hdead : (cells i).live = false)
    {c : Cell} (hc : c.live = false) : Accounted used (Function.update cells i c) held := by
  have hlive {j : Nat} (hj : (Function.update cells i c j).live = true) :
      Function.update cells i c j = cells j := by
    by_cases hji : j = i
    · rw [hji, Function.update_self, hc] at hj
      cases hj
    · exact Function.update_of_ne hji ..
  refine ⟨h.worker_inj, fun j k q hj hk hjq hkq => ?_, fun v j q hv hj => ?_, fun q => ?_⟩
  · rw [hlive hj] at hjq hj
    rw [hlive hk] at hkq hk
    exact h.cell_inj j k q hj hk hjq hkq
  · have hsame := hlive hj
    rw [hsame] at hj ⊢
    exact h.apart v j q hv hj
  · rw [h.used_iff q]
    refine or_congr_right ⟨fun ⟨j, hj⟩ => ⟨j, ?_⟩, fun ⟨j, hj⟩ => ⟨j, ?_⟩⟩
    · rw [Function.update_of_ne]
      · exact hj
      · rintro rfl
        rw [hdead] at hj
        cases hj.1
    · rwa [hlive hj.1] at hj

/-- A dead cell goes live with what a worker holds, which the worker passes on. -/
theorem publish (h : Accounted used cells held) (hdead : (cells i).live = false) {c : Cell}
    (hc : c.live = true) (hstale : c.stale = false) (href : c.ref = held w) :
    Accounted used (Function.update cells i c) (Function.update held w none) := by
  have hold {v : ι} {q : Nat} (hv : Function.update held w none v = some q) :
      v ≠ w ∧ held v = some q := by
    by_cases hvw : v = w
    · rw [hvw, Function.update_self] at hv
      cases hv
    · rw [Function.update_of_ne hvw] at hv
      exact ⟨hvw, hv⟩
  have hcell (j : Nat) : Function.update cells i c j = if j = i then c else cells j := by
    by_cases hji : j = i <;> simp [hji]
  refine ⟨fun v v' q hv hv' => h.worker_inj v v' q (hold hv).2 (hold hv').2,
    fun j k q hj hk hjq hkq => ?_, fun v j q hv hj => ?_, fun q => ?_⟩
  · rw [hcell] at hj hk hjq hkq
    by_cases hji : j = i <;> by_cases hki : k = i <;>
      simp only [hji, hki, if_true, if_false, href] at hj hk hjq hkq ⊢
    · exact absurd hkq (h.apart w k q hjq hk)
    · exact absurd hjq (h.apart w j q hkq hj)
    · exact h.cell_inj j k q hj hk hjq hkq
  · rw [hcell] at hj ⊢
    by_cases hji : j = i
    · rw [if_pos hji, href]
      exact fun hwq => (hold hv).1 (h.worker_inj v w q (hold hv).2 hwq)
    · rw [if_neg hji] at hj ⊢
      exact h.apart v j q (hold hv).2 hj
  · rw [h.used_iff q]
    constructor
    · rintro (⟨v, hv⟩ | ⟨j, hj⟩)
      · by_cases hvw : v = w
        · subst hvw
          refine .inr ⟨i, ?_⟩
          rw [Function.update_self]
          exact ⟨hc, hstale, href.trans hv⟩
        · exact .inl ⟨v, by rw [Function.update_of_ne hvw, hv]⟩
      · refine .inr ⟨j, ?_⟩
        rw [Function.update_of_ne]
        · exact hj
        · rintro rfl
          rw [hdead] at hj
          cases hj.1
    · rintro (⟨v, hv⟩ | ⟨j, hj⟩)
      · exact .inl ⟨v, (hold hv).2⟩
      · rw [hcell] at hj
        by_cases hji : j = i
        · rw [if_pos hji, href] at hj
          exact .inl ⟨w, hj.2.2⟩
        · rw [if_neg hji] at hj
          exact .inr ⟨j, hj⟩

omit [DecidableEq ι] in
/-- A live cell drops its resource; the reference stays and is stale. -/
theorem drop (h : Accounted used cells held) (hlive : (cells i).live = true)
    (href : (cells i).ref = some r) {c : Cell} (hc : c.live = true) (hstale : c.stale = true)
    (hsame : c.ref = some r) :
    Accounted (Function.update used r false) (Function.update cells i c) held := by
  have hcell (j : Nat) : (Function.update cells i c j).live = (cells j).live ∧
      (Function.update cells i c j).ref = (cells j).ref := by
    by_cases hji : j = i
    · subst hji
      rw [Function.update_self, hc, hsame, hlive, href]
      exact ⟨rfl, rfl⟩
    · rw [Function.update_of_ne hji]
      exact ⟨rfl, rfl⟩
  refine ⟨h.worker_inj, fun j k q hj hk hjq hkq => ?_, fun v j q hv hj => ?_, fun q => ?_⟩
  · rw [(hcell j).1] at hj
    rw [(hcell k).1] at hk
    rw [(hcell j).2] at hjq
    rw [(hcell k).2] at hkq
    exact h.cell_inj j k q hj hk hjq hkq
  · rw [(hcell j).1] at hj
    rw [(hcell j).2]
    exact h.apart v j q hv hj
  · by_cases hq : q = r
    · subst hq
      rw [Function.update_self]
      simp only [Bool.false_eq_true, false_iff, not_or, not_exists]
      refine ⟨fun v hv => h.apart v i q hv hlive href, fun j hj => ?_⟩
      rw [(hcell j).1, (hcell j).2] at hj
      have hji := h.cell_inj j i q hj.1 hlive hj.2.2 href
      rw [hji, Function.update_self, hstale] at hj
      cases hj.2.1
    · rw [Function.update_of_ne hq, h.used_iff q]
      have hne {j : Nat} (hjq : (cells j).ref = some q) : j ≠ i := by
        rintro rfl
        exact hq (Option.some.inj (hjq.symm.trans href))
      refine or_congr_right ⟨fun ⟨j, hj⟩ => ⟨j, ?_⟩, fun ⟨j, hj⟩ => ⟨j, ?_⟩⟩
      · rwa [Function.update_of_ne (hne hj.2.2)]
      · rw [Function.update_of_ne (hne ((hcell j).2 ▸ hj.2.2))] at hj
        exact hj

omit [DecidableEq ι] in
/-- A cell whose reference is not a holding may lose it, and go dead. -/
theorem forget (h : Accounted used cells held)
    (hfree : (cells i).stale = true ∨ (cells i).ref = none) {c : Cell} (hc : c.ref = none) :
    Accounted used (Function.update cells i c) held := by
  have hother {j q : Nat} (hjq : (Function.update cells i c j).ref = some q) :
      j ≠ i ∧ Function.update cells i c j = cells j := by
    by_cases hji : j = i
    · rw [hji, Function.update_self, hc] at hjq
      cases hjq
    · exact ⟨hji, Function.update_of_ne hji ..⟩
  refine ⟨h.worker_inj, fun j k q hj hk hjq hkq => ?_, fun v j q hv hj hjq => ?_, fun q => ?_⟩
  · rw [(hother hjq).2] at hj hjq
    rw [(hother hkq).2] at hk hkq
    exact h.cell_inj j k q hj hk hjq hkq
  · rw [(hother hjq).2] at hj hjq
    exact h.apart v j q hv hj hjq
  · rw [h.used_iff q]
    refine or_congr_right ⟨fun ⟨j, hj⟩ => ⟨j, ?_⟩, fun ⟨j, hj⟩ => ⟨j, ?_⟩⟩
    · rw [Function.update_of_ne]
      · exact hj
      · rintro rfl
        rcases hfree with hstale | hnone
        · rw [hstale] at hj
          cases hj.2.1
        · rw [hnone] at hj
          cases hj.2.2
    · rwa [(hother hj.2.2).2] at hj

omit [DecidableEq ι] in
/-- The marks are determined by what is held. -/
theorem used_eq {used' : Nat → Bool} {cells' : Nat → Cell} {held' : ι → Option Nat}
    (h : Accounted used cells held) (h' : Accounted used' cells' held') (hheld : held = held')
    (hcells : ∀ i, (cells i).live = true ∨ (cells' i).live = true → cells i = cells' i) :
    used = used' := by
  funext r
  rw [Bool.eq_iff_iff, h.used_iff r, h'.used_iff r, hheld]
  refine or_congr_right ⟨fun ⟨i, hi⟩ => ⟨i, ?_⟩, fun ⟨i, hi⟩ => ⟨i, ?_⟩⟩
  · rwa [← hcells i (.inl hi.1)]
  · rwa [hcells i (.inr hi.1)]

/-! ## Operations that do nothing here -/

omit [DecidableEq ι] in
theorem sameCell (h : Accounted used cells held) {c : Cell} (hc : c = cells i) :
    Accounted used (Function.update cells i c) held := by
  rw [hc, Function.update_eq_self]
  exact h

theorem sameHeld (h : Accounted used cells held) {o : Option Nat} (ho : o = held w) :
    Accounted used cells (Function.update held w o) := by
  rw [ho, Function.update_eq_self]
  exact h

omit [DecidableEq ι] in
theorem sameUsed (h : Accounted used cells held) {b : Bool} (hb : b = used r) :
    Accounted (Function.update used r b) cells held := by
  rw [hb, Function.update_eq_self]
  exact h

/-! ## Operations on what may be no resource -/

/-- The marks after an optional resource is freed. -/
def freed (used : Nat → Bool) : Option Nat → Nat → Bool
  | none => used
  | some r => Function.update used r false

/-- A worker gives back what it holds, if anything. -/
theorem giveBackAll (h : Accounted used cells held) (w : ι) :
    Accounted (freed used (held w)) cells (Function.update held w none) := by
  cases hw : held w with
  | none => exact h.sameHeld hw.symm
  | some r => exact h.giveBack hw

omit [DecidableEq ι] in
/-- A live cell drops what it refers to, if anything. -/
theorem dropAll (h : Accounted used cells held) (hlive : (cells i).live = true) {c : Cell}
    (hc : c.live = true) (hstale : c.stale = true) (hsame : c.ref = (cells i).ref) :
    Accounted (freed used (cells i).ref) (Function.update cells i c) held := by
  cases href : (cells i).ref with
  | none => exact h.forget (.inr href) (hsame.trans href)
  | some r => exact h.drop hlive href hc hstale (hsame.trans href)

end Accounted

end Foundations
end Breadboard
