import Mathlib.Logic.Function.Basic

/-!
# At most one thread inside

Threads are at places, and some places lie inside a section that one thread at a time may be in.
-/
namespace Os161.Foundation

open Function (update update_of_ne update_self)

variable {τ K : Type*} {inside : K → Prop} {place : τ → K}

/-- Nobody is inside, or exactly this thread. -/
def Holder (inside : K → Prop) (place : τ → K) : Option τ → Prop
  | none => ∀ t, ¬ inside (place t)
  | some t => inside (place t) ∧ ∀ u, inside (place u) → u = t

variable [DecidableEq τ] {t : τ} {k : K}

/-- A thread moves about outside. -/
theorem Holder.pass {holder : Option τ} (held : Holder inside place holder)
    (before : ¬ inside (place t)) (after : ¬ inside k) :
    Holder inside (update place t k) holder := by
  have same (u : τ) : inside (update place t k u) ↔ inside (place u) := by
    by_cases here : u = t
    · rw [here, update_self]
      exact iff_of_false after before
    · rw [update_of_ne here]
  cases holder with
  | none => exact fun u => mt (same u).mp (held u)
  | some u => exact ⟨(same u).mpr held.1, fun w here => held.2 w ((same w).mp here)⟩

theorem Holder.enter (held : Holder inside place none) (after : inside k) :
    Holder inside (update place t k) (some t) := by
  refine ⟨by rwa [update_self], fun u here => ?_⟩
  by_contra other
  rw [update_of_ne other] at here
  exact held u here

theorem Holder.stay (held : Holder inside place (some t)) (after : inside k) :
    Holder inside (update place t k) (some t) := by
  refine ⟨by rwa [update_self], fun u here => ?_⟩
  by_contra other
  rw [update_of_ne other] at here
  exact other (held.2 u here)

theorem Holder.leave (held : Holder inside place (some t)) (after : ¬ inside k) :
    Holder inside (update place t k) none := by
  intro u here
  by_cases same : u = t
  · rw [same, update_self] at here
    exact after here
  · rw [update_of_ne same] at here
    exact same (held.2 u here)

end Os161.Foundation
