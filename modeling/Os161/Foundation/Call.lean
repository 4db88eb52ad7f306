import Mathlib.Logic.Basic

/-!
# Calls of code that can fail, halt and lose the processor

A call is a tree of its statements. It ends with a value or with an error code, and what it has
done to the state stays done in both cases; or it halts the machine. Where it may lose the
processor, the tree has a node for that, so the same text has a meaning when it runs alone and
when others run in between.
-/
namespace Os161.Foundation

/-- `φ` are the reasons to halt, `ε` the error codes, `σ` the states. -/
inductive Call (φ ε σ α : Type) where
  | ret (a : α)
  | fail (e : ε)
  | halt (h : φ)
  | look (k : σ → Call φ ε σ α)
  | assign (f : σ → σ) (k : Call φ ε σ α)
  /-- The processor may be lost here, and is not given back before the state is `ready`. -/
  | switch (ready : σ → Bool) (k : Call φ ε σ α)

/-- A part of a larger state. -/
structure Lens (τ σ : Type) where
  get : τ → σ
  set : σ → τ → τ
  get_set : ∀ s t, get (set s t) = s
  set_get : ∀ t, set (get t) t = t
  set_set : ∀ s s' t, set s (set s' t) = set s t

/-- The shared part of a state that has a local part. -/
def Lens.shared {σ υ : Type} : Lens (σ × υ) σ where
  get t := t.1
  set s t := (s, t.2)
  get_set _ _ := rfl
  set_get _ := rfl
  set_set _ _ _ := rfl

namespace Call

variable {φ ε σ τ υ α β : Type}

def bind : Call φ ε σ α → (α → Call φ ε σ β) → Call φ ε σ β
  | ret a, f => f a
  | fail e, _ => fail e
  | halt h, _ => halt h
  | look k, f => look fun s => (k s).bind f
  | assign g k, f => assign g (k.bind f)
  | switch ready k, f => switch ready (k.bind f)

instance : Monad (Call φ ε σ) where
  pure := ret
  bind := bind

/-- An error becomes a value. -/
def attempt : Call φ ε σ α → Call φ ε σ (Except ε α)
  | ret a => ret (.ok a)
  | fail e => ret (.error e)
  | halt h => halt h
  | look k => look fun s => (k s).attempt
  | assign g k => assign g k.attempt
  | switch ready k => switch ready k.attempt

/-- A call that knows one part of the state only. -/
def zoom (part : Lens τ σ) : Call φ ε σ α → Call φ ε τ α
  | ret a => ret a
  | fail e => fail e
  | halt h => halt h
  | look k => look fun t => (k (part.get t)).zoom part
  | assign g k => assign (fun t => part.set (g (part.get t)) t) (k.zoom part)
  | switch ready k => switch (fun t => ready (part.get t)) (k.zoom part)

/-- A call with a local variable, which has its value also after an error. -/
def locally : Call φ ε (σ × υ) α → υ → Call φ ε σ (Except ε α × υ)
  | ret a, u => ret (.ok a, u)
  | fail e, u => ret (.error e, u)
  | halt h, _ => halt h
  | look k, u => look fun s => (k (s, u)).locally u
  | assign g k, u => look fun s => assign (fun s => (g (s, u)).1) (k.locally (g (s, u)).2)
  | switch ready k, u => switch (fun s => ready (s, u)) (k.locally u)

def state : Call φ ε σ σ := look ret

def modify (f : σ → σ) : Call φ ε σ Unit := assign f (ret ())

def await (ready : σ → Bool) : Call φ ε σ Unit := switch ready (ret ())

def yield : Call φ ε σ Unit := await fun _ => true

/-- The machine halts unless `p` holds. -/
def ensure (p : Prop) [Decidable p] (h : φ) : Call φ ε σ Unit := if p then ret () else halt h

/-- A value that must be there. -/
def expect (h : φ) (found : Option α) : Call φ ε σ α := found.elim (halt h) ret

def ofExcept (result : Except ε α) : Call φ ε σ α :=
  match result with
  | .ok a => ret a
  | .error e => fail e

/-! ### A call alone -/

inductive Outcome (φ ε σ α : Type) where
  | returned (a : α) (s : σ)
  | failed (e : ε) (s : σ)
  | halted (h : φ)
  /-- It waits for what nobody will do. -/
  | blocked

def run : Call φ ε σ α → σ → Outcome φ ε σ α
  | ret a, s => .returned a s
  | fail e, s => .failed e s
  | halt h, _ => .halted h
  | look k, s => (k s).run s
  | assign g k, s => k.run (g s)
  | switch ready k, s => if ready s then k.run s else .blocked

/-- Alone from `s`, the call returns with `Q`, fails with `E` or halts for a reason in `H`. -/
def Ensures (H : φ → Prop) : Call φ ε σ α → σ → (α → σ → Prop) → (ε → σ → Prop) → Prop
  | ret a, s, Q, _ => Q a s
  | fail e, s, _, E => E e s
  | halt h, _, _, _ => H h
  | look k, s, Q, E => (k s).Ensures H s Q E
  | assign g k, s, Q, E => k.Ensures H (g s) Q E
  | switch ready k, s, Q, E => ready s = true ∧ k.Ensures H s Q E

section

variable {H H' : φ → Prop} {c : Call φ ε σ α} {f : α → Call φ ε σ β} {s : σ}
  {Q Q' : α → σ → Prop} {E E' : ε → σ → Prop} {R : β → σ → Prop}

theorem Ensures.mono (done : c.Ensures H s Q E) (returned : ∀ a t, Q a t → Q' a t)
    (failed : ∀ e t, E e t → E' e t) : c.Ensures H s Q' E' := by
  induction c generalizing s with
  | ret a => exact returned a s done
  | fail e => exact failed e s done
  | halt h => exact done
  | look k ih => exact ih s done
  | assign g k ih => exact ih done
  | switch ready k ih => exact ⟨done.1, ih done.2⟩

theorem Ensures.meet {H'' : φ → Prop} (left : c.Ensures H s Q E) (right : c.Ensures H' s Q' E')
    (halted : ∀ h, H h → H' h → H'' h) :
    c.Ensures H'' s (fun a t => Q a t ∧ Q' a t) (fun e t => E e t ∧ E' e t) := by
  induction c generalizing s with
  | ret a => exact ⟨left, right⟩
  | fail e => exact ⟨left, right⟩
  | halt h => exact halted h left right
  | look k ih => exact ih s left right
  | assign g k ih => exact ih left right
  | switch ready k ih => exact ⟨left.1, ih left.2 right.2⟩

theorem Ensures.and (left : c.Ensures H s Q E) (right : c.Ensures H' s Q' E') :
    c.Ensures H s (fun a t => Q a t ∧ Q' a t) (fun e t => E e t ∧ E' e t) :=
  left.meet right fun _ halted _ => halted

theorem ensures_bind :
    (c >>= f).Ensures H s R E ↔ c.Ensures H s (fun a t => (f a).Ensures H t R E) E := by
  induction c generalizing s with
  | look k ih => exact ih s
  | assign g k ih => exact ih
  | switch ready k ih => exact and_congr_right fun _ => ih
  | _ => exact Iff.rfl

/-- One call after the other: what the first one leaves is where the second one starts. -/
theorem Ensures.bind (first : c.Ensures H s Q E) (second : ∀ a t, Q a t → (f a).Ensures H t R E')
    (failed : ∀ e t, E e t → E' e t) : (c >>= f).Ensures H s R E' :=
  ensures_bind.mpr (first.mono second failed)

theorem ensures_attempt {Q : Except ε α → σ → Prop} :
    c.attempt.Ensures H s Q E ↔
      c.Ensures H s (fun a => Q (.ok a)) (fun e => Q (.error e)) := by
  induction c generalizing s with
  | look k ih => exact ih s
  | assign g k ih => exact ih
  | switch ready k ih => exact and_congr_right fun _ => ih
  | _ => exact Iff.rfl

theorem ensures_zoom {part : Lens τ σ} {t : τ} {Q : α → τ → Prop} {E : ε → τ → Prop} :
    (c.zoom part).Ensures H t Q E ↔
      c.Ensures H (part.get t) (fun a s => Q a (part.set s t)) (fun e s => E e (part.set s t)) := by
  induction c generalizing t with
  | ret a => rw [zoom, Ensures, Ensures, part.set_get]
  | fail e => rw [zoom, Ensures, Ensures, part.set_get]
  | halt h => exact Iff.rfl
  | look k ih => exact ih _
  | assign g k ih =>
    rw [zoom, Ensures, ih, Ensures, part.get_set]
    simp [part.set_set]
  | switch ready k ih => exact and_congr_right fun _ => ih

theorem ensures_locally {c : Call φ ε (σ × υ) α} {u : υ} {Q : Except ε α × υ → σ → Prop} :
    (c.locally u).Ensures H s Q E ↔
      c.Ensures H (s, u) (fun a t => Q (.ok a, t.2) t.1) (fun e t => Q (.error e, t.2) t.1) := by
  induction c generalizing s u with
  | look k ih => exact ih _
  | assign g k ih => exact ih
  | switch ready k ih => exact and_congr_right fun _ => ih
  | _ => exact Iff.rfl

/-- What `Ensures` says of the run. -/
theorem ensures_iff :
    c.Ensures H s Q E ↔
      (∃ a t, c.run s = .returned a t ∧ Q a t) ∨ (∃ e t, c.run s = .failed e t ∧ E e t) ∨
        ∃ h, c.run s = .halted h ∧ H h := by
  induction c generalizing s with
  | ret a =>
    constructor
    · intro holds
      exact .inl ⟨a, s, rfl, holds⟩
    · rintro (⟨_, _, same, holds⟩ | ⟨_, _, same, _⟩ | ⟨_, same, _⟩) <;> cases same
      exact holds
  | fail e =>
    constructor
    · intro holds
      exact .inr (.inl ⟨e, s, rfl, holds⟩)
    · rintro (⟨_, _, same, _⟩ | ⟨_, _, same, holds⟩ | ⟨_, same, _⟩) <;> cases same
      exact holds
  | halt h => simp [Ensures, run]
  | look k ih => exact ih s
  | assign g k ih => exact ih
  | switch ready k ih =>
    by_cases now : ready s = true
    · simp [Ensures, run, now, ih]
    · simp [Ensures, run, now]

variable {a : α} {h : φ}

theorem Ensures.returned (done : c.Ensures H s Q E) {t : σ}
    (ran : c.run s = .returned a t) : Q a t := by
  rw [ensures_iff, ran] at done
  rcases done with ⟨_, _, same, holds⟩ | ⟨_, _, same, _⟩ | ⟨_, same, _⟩ <;> cases same
  exact holds

theorem Ensures.failed (done : c.Ensures H s Q E) {e : ε} {t : σ}
    (ran : c.run s = .failed e t) : E e t := by
  rw [ensures_iff, ran] at done
  rcases done with ⟨_, _, same, _⟩ | ⟨_, _, same, holds⟩ | ⟨_, same, _⟩ <;> cases same
  exact holds

theorem Ensures.halted (done : c.Ensures H s Q E) (ran : c.run s = .halted h) : H h := by
  rw [ensures_iff, ran] at done
  rcases done with ⟨_, _, same, _⟩ | ⟨_, _, same, _⟩ | ⟨_, same, holds⟩ <;> cases same
  exact holds

/-- A call that neither fails nor halts returns. -/
theorem Ensures.returns (done : c.Ensures (fun _ => False) s Q fun _ _ => False) :
    ∃ a t, c.run s = .returned a t ∧ Q a t := by
  rcases ensures_iff.mp done with returned | ⟨_, _, _, wrong⟩ | ⟨_, _, wrong⟩
  · exact returned
  · exact wrong.elim
  · exact wrong.elim

theorem Ensures.not_blocked (done : c.Ensures H s Q E) : c.run s ≠ .blocked := by
  intro ran
  rw [ensures_iff, ran] at done
  rcases done with ⟨_, _, same, _⟩ | ⟨_, _, same, _⟩ | ⟨_, same, _⟩ <;> cases same

/-- What is ensured, and that it is what the run comes to. -/
theorem Ensures.tracked (done : c.Ensures H s Q E) :
    c.Ensures H s (fun a t => Q a t ∧ c.run s = .returned a t)
      fun e t => E e t ∧ c.run s = .failed e t := by
  rcases ensures_iff.mp done with ⟨a, t, ran, holds⟩ | ⟨e, t, ran, holds⟩ | halted
  · exact ensures_iff.mpr (.inl ⟨a, t, ran, holds, ran⟩)
  · exact ensures_iff.mpr (.inr (.inl ⟨e, t, ran, holds, ran⟩))
  · exact ensures_iff.mpr (.inr (.inr halted))

theorem run_bind {t : σ} (ran : c.run s = .returned a t) : (c >>= f).run s = (f a).run t := by
  induction c generalizing s with
  | ret b =>
    cases ran
    rfl
  | fail e => cases ran
  | halt h => cases ran
  | look k ih => exact ih s ran
  | assign g k ih => exact ih ran
  | switch ready k ih =>
    by_cases now : ready s = true
    · rw [run, if_pos now] at ran
      exact (if_pos now).trans (ih ran)
    · rw [run, if_neg now] at ran
      cases ran

theorem run_bind_failed {e : ε} {t : σ} (ran : c.run s = .failed e t) :
    (c >>= f).run s = .failed e t := by
  induction c generalizing s with
  | ret b => cases ran
  | fail e =>
    cases ran
    rfl
  | halt h => cases ran
  | look k ih => exact ih s ran
  | assign g k ih => exact ih ran
  | switch ready k ih =>
    by_cases now : ready s = true
    · rw [run, if_pos now] at ran
      exact (if_pos now).trans (ih ran)
    · rw [run, if_neg now] at ran
      cases ran

/-! ### Statements -/

@[simp] theorem ensures_pure : (pure a : Call φ ε σ α).Ensures H s Q E ↔ Q a s := Iff.rfl

@[simp] theorem ensures_ret : (ret a : Call φ ε σ α).Ensures H s Q E ↔ Q a s := Iff.rfl

@[simp] theorem ensures_fail {e : ε} : (fail e : Call φ ε σ α).Ensures H s Q E ↔ E e s := Iff.rfl

@[simp] theorem ensures_halt : (halt h : Call φ ε σ α).Ensures H s Q E ↔ H h := Iff.rfl

@[simp] theorem ensures_state {Q : σ → σ → Prop} :
    (state : Call φ ε σ σ).Ensures H s Q E ↔ Q s s := Iff.rfl

@[simp] theorem ensures_modify {g : σ → σ} {Q : Unit → σ → Prop} :
    (modify g : Call φ ε σ Unit).Ensures H s Q E ↔ Q () (g s) := Iff.rfl

@[simp] theorem ensures_await {ready : σ → Bool} {Q : Unit → σ → Prop} :
    (await ready : Call φ ε σ Unit).Ensures H s Q E ↔ ready s = true ∧ Q () s := Iff.rfl

@[simp] theorem ensures_yield {Q : Unit → σ → Prop} :
    (yield : Call φ ε σ Unit).Ensures H s Q E ↔ Q () s := and_iff_right rfl

@[simp] theorem ensures_ensure {p : Prop} [Decidable p] {Q : Unit → σ → Prop} :
    (ensure p h : Call φ ε σ Unit).Ensures H s Q E ↔ (p → Q () s) ∧ (¬ p → H h) := by
  by_cases holds : p <;> simp [ensure, holds]

theorem ensures_held {p : Prop} [Decidable p] {Q : Unit → σ → Prop} (holds : p) :
    (ensure p h : Call φ ε σ Unit).Ensures H s Q E ↔ Q () s := by simp [holds]

@[simp] theorem ensures_expect_some :
    (expect h (some a) : Call φ ε σ α).Ensures H s Q E ↔ Q a s := Iff.rfl

@[simp] theorem ensures_ofExcept_ok :
    (ofExcept (.ok a) : Call φ ε σ α).Ensures H s Q E ↔ Q a s := Iff.rfl

theorem ensures_ite {p : Prop} [Decidable p] {c d : Call φ ε σ α} :
    (if p then c else d).Ensures H s Q E ↔
      (p → c.Ensures H s Q E) ∧ (¬ p → d.Ensures H s Q E) := by
  by_cases holds : p <;> simp [holds]

end

end Call

end Os161.Foundation
