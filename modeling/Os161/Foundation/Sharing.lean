import Os161.Foundation.Call
import Os161.Foundation.Transition

/-!
# Calls of several threads

Every thread runs its call up to the next place where it may lose the processor. To reason
about one thread without the texts of the others, it is given a share of the state: the others
leave the share alone, and the thread changes nothing but its share. Shares change hands with
every assignment.
-/
namespace Os161.Foundation

/-- What the owner of a share may rely on when others run, and what it guarantees when an
assignment turns its share into another. -/
structure Protocol (φ σ ι : Type) where
  rely : ι → σ → σ → Prop
  guar : ι → ι → σ → σ → Prop
  halts : φ → Prop
  /-- Nobody has to wait for others. -/
  prompt : Prop

namespace Protocol

variable {φ σ ι : Type}

/-- Time may pass without others, and one after the other may run. -/
structure Lasting (P : Protocol φ σ ι) : Prop where
  refl : ∀ own s, P.rely own s s
  trans : ∀ own s t u, P.rely own s t → P.rely own t u → P.rely own s u

/-- The same protocol for states with a local part. -/
def locally (P : Protocol φ σ ι) (υ : Type) : Protocol φ (σ × υ) ι where
  rely own t u := P.rely own t.1 u.1 ∧ u.2 = t.2
  guar own after t u := P.guar own after t.1 u.1
  halts := P.halts
  prompt := P.prompt

end Protocol

namespace Call

variable {φ ε σ τ υ ι α β : Type}

/-- From the state `s` and the share `own`, with others in between. -/
def Secures (P : Protocol φ σ ι) :
    Call φ ε σ α → ι → σ → (α → ι → σ → Prop) → (ε → ι → σ → Prop) → Prop
  | ret a, own, s, Q, _ => Q a own s
  | fail e, own, s, _, E => E e own s
  | halt h, _, _, _, _ => P.halts h
  | look k, own, s, Q, E => (k s).Secures P own s Q E
  | assign g k, own, s, Q, E => ∃ after, P.guar own after s (g s) ∧ k.Secures P after (g s) Q E
  | switch ready k, own, s, Q, E =>
    (P.prompt → ready s = true) ∧
      ∀ t, P.rely own s t → ready t = true → k.Secures P own t Q E

section

variable {P : Protocol φ σ ι} {c : Call φ ε σ α} {f : α → Call φ ε σ β} {own : ι} {s : σ}
  {Q Q' : α → ι → σ → Prop} {E E' : ε → ι → σ → Prop} {R : β → ι → σ → Prop}

theorem Secures.mono (done : c.Secures P own s Q E)
    (returned : ∀ a after t, Q a after t → Q' a after t)
    (failed : ∀ e after t, E e after t → E' e after t) : c.Secures P own s Q' E' := by
  induction c generalizing own s with
  | ret a => exact returned a own s done
  | fail e => exact failed e own s done
  | halt h => exact done
  | look k ih => exact ih s done
  | assign g k ih =>
    obtain ⟨after, kept, rest⟩ := done
    exact ⟨after, kept, ih rest⟩
  | switch ready k ih => exact ⟨done.1, fun t passed now => ih (done.2 t passed now)⟩

theorem secures_bind :
    (c >>= f).Secures P own s R E ↔
      c.Secures P own s (fun a after t => (f a).Secures P after t R E) E := by
  induction c generalizing own s with
  | look k ih => exact ih s
  | assign g k ih => exact exists_congr fun after => and_congr_right fun _ => ih
  | switch ready k ih =>
    exact and_congr_right fun _ => forall_congr' fun t => imp_congr_right fun _ =>
      imp_congr_right fun _ => ih
  | _ => exact Iff.rfl

theorem Secures.bind (first : c.Secures P own s Q E)
    (second : ∀ a after t, Q a after t → (f a).Secures P after t R E')
    (failed : ∀ e after t, E e after t → E' e after t) : (c >>= f).Secures P own s R E' :=
  secures_bind.mpr (first.mono second failed)

theorem secures_attempt {Q : Except ε α → ι → σ → Prop} :
    c.attempt.Secures P own s Q E ↔
      c.Secures P own s (fun a => Q (.ok a)) (fun e => Q (.error e)) := by
  induction c generalizing own s with
  | look k ih => exact ih s
  | assign g k ih => exact exists_congr fun after => and_congr_right fun _ => ih
  | switch ready k ih =>
    exact and_congr_right fun _ => forall_congr' fun t => imp_congr_right fun _ =>
      imp_congr_right fun _ => ih
  | _ => exact Iff.rfl

/-- A call that does not know the local part leaves it as it is. -/
theorem secures_zoom {u : υ} {Q : α → ι → σ × υ → Prop} {E : ε → ι → σ × υ → Prop} :
    (c.zoom Lens.shared).Secures (P.locally υ) own (s, u) Q E ↔
      c.Secures P own s (fun a after t => Q a after (t, u))
        (fun e after t => E e after (t, u)) := by
  induction c generalizing own s with
  | look k ih => exact ih s
  | assign g k ih => exact exists_congr fun after => and_congr_right fun _ => ih
  | switch ready k ih =>
    refine and_congr_right fun _ => ⟨fun holds t passed now => ?_, ?_⟩
    · exact ih.mp (holds (t, u) ⟨passed, rfl⟩ now)
    · rintro holds ⟨t, _⟩ ⟨passed, rfl⟩ now
      exact ih.mpr (holds t passed now)
  | _ => exact Iff.rfl

theorem secures_locally {c : Call φ ε (σ × υ) α} {u : υ} {Q : Except ε α × υ → ι → σ → Prop} :
    (c.locally u).Secures P own s Q E ↔
      c.Secures (P.locally υ) own (s, u) (fun a after t => Q (.ok a, t.2) after t.1)
        (fun e after t => Q (.error e, t.2) after t.1) := by
  induction c generalizing own s u with
  | look k ih => exact ih (s, u)
  | assign g k ih => exact exists_congr fun after => and_congr_right fun _ => ih
  | switch ready k ih =>
    refine and_congr_right fun _ => ⟨?_, fun holds t passed now => ?_⟩
    · rintro holds ⟨t, _⟩ ⟨passed, rfl⟩ now
      exact ih.mp (holds t passed now)
    · exact ih.mpr (holds (t, u) ⟨passed, rfl⟩ now)
  | _ => exact Iff.rfl

/-- A thread alone: its assignments together are one. -/
theorem Secures.alone (prompt : P.prompt) (lasting : P.Lasting)
    (refl : ∀ own s, P.guar own own s s)
    (trans : ∀ own own' own'' s t u, P.guar own own' s t → P.guar own' own'' t u →
      P.guar own own'' s u)
    (done : c.Secures P own s Q E) :
    c.Ensures P.halts s (fun a t => ∃ after, P.guar own after s t ∧ Q a after t)
      (fun e t => ∃ after, P.guar own after s t ∧ E e after t) := by
  induction c generalizing own s with
  | ret a => exact ⟨own, refl own s, done⟩
  | fail e => exact ⟨own, refl own s, done⟩
  | halt h => exact done
  | look k ih => exact ih s done
  | assign g k ih =>
    obtain ⟨after, kept, rest⟩ := done
    apply (ih rest).mono
    · rintro a t ⟨last, later, holds⟩
      exact ⟨last, trans _ _ _ _ _ _ kept later, holds⟩
    · rintro e t ⟨last, later, holds⟩
      exact ⟨last, trans _ _ _ _ _ _ kept later, holds⟩
  | switch ready k ih =>
    have now := done.1 prompt
    exact ⟨now, ih (done.2 s (lasting.refl own s) now)⟩

/-! ### Statements -/

@[simp] theorem secures_pure {a : α} :
    (pure a : Call φ ε σ α).Secures P own s Q E ↔ Q a own s := Iff.rfl

@[simp] theorem secures_ret {a : α} :
    (ret a : Call φ ε σ α).Secures P own s Q E ↔ Q a own s := Iff.rfl

@[simp] theorem secures_fail {e : ε} :
    (fail e : Call φ ε σ α).Secures P own s Q E ↔ E e own s := Iff.rfl

@[simp] theorem secures_halt {h : φ} :
    (halt h : Call φ ε σ α).Secures P own s Q E ↔ P.halts h := Iff.rfl

@[simp] theorem secures_state {Q : σ → ι → σ → Prop} :
    (state : Call φ ε σ σ).Secures P own s Q E ↔ Q s own s := Iff.rfl

@[simp] theorem secures_modify {g : σ → σ} {Q : Unit → ι → σ → Prop} :
    (modify g : Call φ ε σ Unit).Secures P own s Q E ↔
      ∃ after, P.guar own after s (g s) ∧ Q () after (g s) := Iff.rfl

@[simp] theorem secures_await {ready : σ → Bool} {Q : Unit → ι → σ → Prop} :
    (await ready : Call φ ε σ Unit).Secures P own s Q E ↔
      (P.prompt → ready s = true) ∧ ∀ t, P.rely own s t → ready t = true → Q () own t := Iff.rfl

@[simp] theorem secures_yield {Q : Unit → ι → σ → Prop} :
    (yield : Call φ ε σ Unit).Secures P own s Q E ↔ ∀ t, P.rely own s t → Q () own t := by
  constructor
  · intro holds t passed
    exact holds.2 t passed rfl
  · intro holds
    exact ⟨fun _ => rfl, fun t passed _ => holds t passed⟩

@[simp] theorem secures_ensure {p : Prop} [Decidable p] {h : φ} {Q : Unit → ι → σ → Prop} :
    (ensure p h : Call φ ε σ Unit).Secures P own s Q E ↔
      (p → Q () own s) ∧ (¬ p → P.halts h) := by
  by_cases holds : p <;> simp [ensure, holds]

theorem secures_held {p : Prop} [Decidable p] {h : φ} {Q : Unit → ι → σ → Prop} (holds : p) :
    (ensure p h : Call φ ε σ Unit).Secures P own s Q E ↔ Q () own s := by simp [holds]

@[simp] theorem secures_expect_some {h : φ} {a : α} :
    (expect h (some a) : Call φ ε σ α).Secures P own s Q E ↔ Q a own s := Iff.rfl

@[simp] theorem secures_ofExcept_ok {a : α} :
    (ofExcept (.ok a) : Call φ ε σ α).Secures P own s Q E ↔ Q a own s := Iff.rfl

theorem secures_ite {p : Prop} [Decidable p] {c d : Call φ ε σ α} :
    (if p then c else d).Secures P own s Q E ↔
      (p → c.Secures P own s Q E) ∧ (¬ p → d.Secures P own s Q E) := by
  by_cases holds : p <;> simp [holds]

end

/-! ### Interleavings -/

/-- Up to the next place where the processor may be lost. -/
def burst : Call φ ε σ α → σ → Call φ ε σ α × σ
  | ret a, s => (ret a, s)
  | fail e, s => (fail e, s)
  | halt h, s => (halt h, s)
  | look k, s => (k s).burst s
  | assign g k, s => k.burst (g s)
  | switch ready k, s => (switch ready k, s)

/-- At such a place, or at its end. -/
def AtRest : Call φ ε σ α → Prop
  | look _ => False
  | assign _ _ => False
  | _ => True

theorem atRest_burst (c : Call φ ε σ α) (s : σ) : (c.burst s).1.AtRest := by
  induction c generalizing s with
  | ret a => trivial
  | fail e => trivial
  | halt h => trivial
  | look k ih => exact ih s s
  | assign g k ih => exact ih (g s)
  | switch ready k ih => trivial

/-- While a thread is at rest, others may run. -/
theorem Secures.stable {P : Protocol φ σ ι} {c : Call φ ε σ α} {own : ι} {s t : σ}
    {Q : α → ι → σ → Prop} {E : ε → ι → σ → Prop} (prompt : ¬ P.prompt)
    (returned : ∀ a, Q a own s → Q a own t) (failed : ∀ e, E e own s → E e own t)
    (rest : c.AtRest) (done : c.Secures P own s Q E)
    (passed : ∀ u, P.rely own t u → P.rely own s u) : c.Secures P own t Q E := by
  cases c with
  | ret a => exact returned a done
  | fail e => exact failed e done
  | halt h => exact done
  | look k => exact rest.elim
  | assign g k => exact rest.elim
  | switch ready k =>
    refine ⟨fun now => absurd now prompt, fun u later now => ?_⟩
    exact done.2 u (passed u later) now

end Call

end Os161.Foundation
