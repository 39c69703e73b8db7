import Mathlib.Tactic.Common

/-!
# Rate limits over a history of instants

A history lists the instants at which something happened, oldest first.  A
limiter that admits a new instant only when fewer than `cap` recent ones
are on record keeps every window of `span` instants within `cap`,
and it needs to remember no more than its newest `cap` entries.

Main results:

- Theorem `windowBound_append`: a checked admission keeps the window bound.
- Theorem `countP_newest_lt_iff`: a truncated history answers as the whole one.
-/

namespace Breadboard
namespace Foundations
namespace RateLimit

universe u

/-! ## Truncated histories -/

section Newest

variable {α : Type u}

/-- The newest `n` entries of a history. -/
def newest (n : Nat) (h : List α) : List α :=
  h.drop (h.length - n)

@[simp] theorem newest_nil (n : Nat) : newest n ([] : List α) = [] := by
  simp [newest]

theorem newest_of_length_le {n : Nat} {h : List α} (hlen : h.length ≤ n) : newest n h = h := by
  rw [newest, Nat.sub_eq_zero_of_le hlen, List.drop_zero]

theorem length_newest (n : Nat) (h : List α) : (newest n h).length = min n h.length := by
  rw [newest, List.length_drop]
  omega

/-- A full truncated history forgets its oldest entry for a new one. -/
theorem newest_append_singleton {n : Nat} {h : List α} (hpos : 0 < n) (hfull : n ≤ h.length)
    (a : α) : newest n (h ++ [a]) = (newest n h).tail ++ [a] := by
  have hdrop : h.length + 1 - n = h.length - n + 1 := by omega
  have hle : h.length - n + 1 ≤ h.length := by omega
  rw [newest, newest, List.length_append, List.length_singleton, hdrop,
    List.drop_append_of_le_length hle, List.tail_drop]

end Newest

/-! ## The limiter -/

variable {span cap : Nat}

/-- The instant `t` is not in the future and less than `span` ago. -/
def recent (span now t : Nat) : Bool :=
  t ≤ now ∧ now - t < span

/-- No window of `span` instants contains more than `cap` entries. -/
def WindowBound (span cap : Nat) (h : List Nat) : Prop :=
  ∀ start, h.countP (fun t => start ≤ t ∧ t < start + span) ≤ cap

theorem windowBound_nil : WindowBound span cap [] := by
  intro start
  simp

/--
Admitting `now` after a check at `ask` keeps the window bound: what shares a
window with the new entry was recent at the check.
-/
theorem windowBound_append {h : List Nat} {ask now : Nat} (hbound : WindowBound span cap h)
    (hpast : ∀ t ∈ h, t ≤ ask) (hask : ask ≤ now)
    (hcheck : h.countP (recent span ask) < cap) : WindowBound span cap (h ++ [now]) := by
  intro start
  rw [List.countP_append, List.countP_singleton]
  by_cases hin : start ≤ now ∧ now < start + span
  · have hrecent : h.countP (fun t => start ≤ t ∧ t < start + span) ≤
        h.countP (recent span ask) := by
      apply List.countP_mono_left
      intro t ht hwin
      have hle := hpast t ht
      simp only [recent, decide_eq_true_eq] at hwin ⊢
      omega
    simp only [hin, and_self, decide_true, if_true]
    omega
  · simp only [hin, decide_false, Bool.false_eq_true, if_false, Nat.add_zero]
    exact hbound start

/-- Once one entry of a sorted history is recent, all later ones are. -/
theorem recent_of_le {now s t : Nat} (hs : recent span now s = true) (hst : s ≤ t)
    (ht : t ≤ now) : recent span now t = true := by
  simp only [recent, decide_eq_true_eq] at hs ⊢
  omega

/-- The newest `n` entries decide the check of any cap up to `n`. -/
theorem countP_newest_lt_iff {h : List Nat} {n now : Nat} (hsorted : h.Pairwise (· ≤ ·))
    (hpast : ∀ t ∈ h, t ≤ now) (hcap : cap ≤ n) :
    (newest n h).countP (recent span now) < cap ↔ h.countP (recent span now) < cap := by
  have hsplit := List.take_append_drop (h.length - n) h
  have hcount : h.countP (recent span now) =
      (h.take (h.length - n)).countP (recent span now) +
        (newest n h).countP (recent span now) := by
    rw [newest, ← List.countP_append, hsplit]
  by_cases hold : ∃ s ∈ h.take (h.length - n), recent span now s = true
  · -- a recent entry was dropped: every kept entry is recent, and there are `n` of them
    obtain ⟨s, hs, hrecent⟩ := hold
    have hkept : (newest n h).countP (recent span now) = (newest n h).length := by
      apply List.countP_eq_length.mpr
      intro t ht
      rw [← hsplit] at hsorted
      have hst := (List.pairwise_append.mp hsorted).2.2 s hs t ht
      exact recent_of_le hrecent hst (hpast t (List.mem_of_mem_drop ht))
    have hlong : n ≤ h.length := by
      by_contra hshort
      rw [Nat.sub_eq_zero_of_le (by omega), List.take_zero] at hs
      cases hs
    rw [length_newest, Nat.min_eq_left hlong] at hkept
    omega
  · have hnone : (h.take (h.length - n)).countP (recent span now) = 0 := by
      apply List.countP_eq_zero.mpr
      intro s hs hrecent
      exact hold ⟨s, hs, hrecent⟩
    omega

end RateLimit
end Foundations
end Breadboard
