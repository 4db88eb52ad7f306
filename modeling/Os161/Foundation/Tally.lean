import Mathlib.Algebra.BigOperators.Group.Finset.Piecewise
import Mathlib.Data.Fintype.Card

/-!
# Counting threads by where they are

When one thread moves, a count changes by at most one, and by what that thread was and is.
-/
namespace Os161.Foundation

variable {τ K : Type} [Fintype τ]

/-- How many threads are at a place that the predicate accepts. -/
def tally (p : τ → K → Prop) [∀ t k, Decidable (p t k)] (place : τ → K) : Nat :=
  (Finset.univ.filter fun t => p t (place t)).card

theorem tally_update [DecidableEq τ] (p : τ → K → Prop) [∀ t k, Decidable (p t k)] (place : τ → K)
    (t : τ) (k : K) :
    tally p (Function.update place t k) + (if p t (place t) then 1 else 0) =
      tally p place + if p t k then 1 else 0 := by
  have split : ∀ f : τ → K, tally p f = (if p t (f t) then 1 else 0) +
      ∑ u ∈ Finset.univ.erase t, if p u (f u) then 1 else 0 := by
    intro f
    rw [tally, Finset.card_filter, ← Finset.add_sum_erase _ _ (Finset.mem_univ t)]
  have others : ∑ u ∈ Finset.univ.erase t, (if p u (Function.update place t k u) then 1 else 0) =
      ∑ u ∈ Finset.univ.erase t, if p u (place u) then 1 else 0 := by
    refine Finset.sum_congr rfl fun u member => ?_
    rw [Function.update_of_ne (Finset.ne_of_mem_erase member)]
  rw [split, split place, Function.update_self]
  omega

variable {p : τ → K → Prop} [∀ t k, Decidable (p t k)] {place : τ → K}

/-- A move that the predicate does not notice. -/
theorem tally_update_same [DecidableEq τ] {t : τ} {k : K} (same : p t k ↔ p t (place t)) :
    tally p (Function.update place t k) = tally p place := by
  have moved := tally_update p place t k
  by_cases now : p t k
  · simp only [now, same.mp now, if_true] at moved
    omega
  · simp only [now, mt same.mpr now, if_false] at moved
    omega

theorem tally_pos : 0 < tally p place ↔ ∃ t, p t (place t) := by
  simp [tally, Finset.card_pos, Finset.filter_nonempty_iff]

theorem tally_eq_zero : tally p place = 0 ↔ ∀ t, ¬ p t (place t) := by
  simp [tally, Finset.filter_eq_empty_iff]

/-- Two threads count for two. -/
theorem two_le_tally {t u : τ} (apart : t ≠ u) (first : p t (place t)) (second : p u (place u)) :
    2 ≤ tally p place :=
  Finset.one_lt_card.mpr ⟨t, by simp [first], u, by simp [second], apart⟩

theorem three_le_tally {t u w : τ} (first : p t (place t)) (second : p u (place u))
    (third : p w (place w)) (tu : t ≠ u) (tw : t ≠ w) (uw : u ≠ w) : 3 ≤ tally p place :=
  Finset.two_lt_card.mpr
    ⟨t, by simp [first], u, by simp [second], w, by simp [third], tu, tw, uw⟩

/-- All threads that can count do. -/
theorem tally_eq_card {q : τ → Prop} [DecidablePred q] (all : ∀ t, q t ↔ p t (place t)) :
    tally p place = (Finset.univ.filter q).card := by
  simp [tally, all]

end Os161.Foundation
