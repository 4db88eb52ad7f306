import Mathlib.Algebra.BigOperators.Group.Finset.Piecewise
import Mathlib.Data.Fintype.Basic
import Os161.Foundation.Sharing

/-!
# Threads that make calls

A thread makes one call after the other. It keeps the processor up to the next place where it may
lose it, and then any thread that can go on may run. Every thread has a share; how the shares
of all threads and the state go together is an invariant, and what each call keeps of it, every
interleaving keeps.
-/
namespace Os161.Foundation

open Function (update update_of_ne update_self)

variable {φ ε σ α ρ κ ι τ : Type}

/-- The calls that threads make. `ρ` are the requests, and `κ` is what a thread has between two
calls. -/
structure Service (φ ε σ α ρ κ : Type) where
  code : ρ → Call φ ε σ α
  /-- What is left to the thread that makes a request, if it can make it. -/
  begins : κ → ρ → Option κ
  /-- What it has after the call. -/
  ends : κ → ρ → Except ε α → κ

inductive Activity (φ ε σ α ρ : Type) where
  | idle
  | busy (r : ρ) (rest : Call φ ε σ α)

structure Crowd (τ φ ε σ α ρ κ : Type) where
  shared : σ
  has : τ → κ
  doing : τ → Activity φ ε σ α ρ

inductive Move (τ ρ : Type) where
  | start (i : τ) (r : ρ)
  | resume (i : τ)
  | finish (i : τ)

namespace Crowd

variable [DecidableEq τ]

/-- Thread `i` runs `c` up to the next place where it may lose the processor. -/
def proceed (w : Crowd τ φ ε σ α ρ κ) (i : τ) (r : ρ) (c : Call φ ε σ α) :
    Crowd τ φ ε σ α ρ κ :=
  { w with
    shared := (c.burst w.shared).2
    doing := update w.doing i (.busy r (c.burst w.shared).1) }

/-- The call of thread `i` is over. -/
def settle (svc : Service φ ε σ α ρ κ) (w : Crowd τ φ ε σ α ρ κ) (i : τ) (r : ρ)
    (result : Except ε α) : Crowd τ φ ε σ α ρ κ :=
  { w with
    has := update w.has i (svc.ends (w.has i) r result)
    doing := update w.doing i .idle }

def next (svc : Service φ ε σ α ρ κ) (w : Crowd τ φ ε σ α ρ κ) :
    Move τ ρ → Option (Crowd τ φ ε σ α ρ κ)
  | .start i r =>
    match w.doing i with
    | .idle => (svc.begins (w.has i) r).map fun left =>
        { w with has := update w.has i left }.proceed i r (svc.code r)
    | .busy _ _ => none
  | .resume i =>
    match w.doing i with
    | .busy r (.switch ready k) => if ready w.shared then some (w.proceed i r k) else none
    | _ => none
  | .finish i =>
    match w.doing i with
    | .busy r (.ret a) => some (w.settle svc i r (.ok a))
    | .busy r (.fail e) => some (w.settle svc i r (.error e))
    | _ => none

theorem next_cases {svc : Service φ ε σ α ρ κ} {w w' : Crowd τ φ ε σ α ρ κ} {move : Move τ ρ}
    (moved : w.next svc move = some w') :
    (∃ i r left, w.doing i = .idle ∧ svc.begins (w.has i) r = some left ∧
      w' = { w with has := update w.has i left }.proceed i r (svc.code r)) ∨
    (∃ i r ready k, w.doing i = .busy r (.switch ready k) ∧ ready w.shared = true ∧
      w' = w.proceed i r k) ∨
    (∃ i r result, w.doing i = .busy r (Call.ofExcept result) ∧ w' = w.settle svc i r result) := by
  cases move with
  | start i r =>
    rw [next] at moved
    split at moved
    next idle =>
      obtain ⟨left, begun, rfl⟩ := Option.map_eq_some_iff.mp moved
      exact .inl ⟨i, r, left, idle, begun, rfl⟩
    next => cases moved
  | resume i =>
    rw [next] at moved
    split at moved
    next r ready k busy =>
      obtain ⟨now, same⟩ := Option.ite_none_right_eq_some.mp moved
      exact .inr (.inl ⟨i, r, ready, k, busy, now, (Option.some.inj same).symm⟩)
    next => cases moved
  | finish i =>
    rw [next] at moved
    split at moved
    next r a busy => exact .inr (.inr ⟨i, r, .ok a, busy, (Option.some.inj moved).symm⟩)
    next r e busy => exact .inr (.inr ⟨i, r, .error e, busy, (Option.some.inj moved).symm⟩)
    next => cases moved

end Crowd

/-! ### Shares of all threads -/

/-- The same protocol for a thread whose share always satisfies `Keeps`. -/
def Protocol.keeping (P : Protocol φ σ ι) (Keeps : ι → Prop) : Protocol φ σ ι :=
  { P with guar := fun own after s t => Keeps after ∧ P.guar own after s t }

section

variable [DecidableEq τ]

/-- The shares of the threads and the state go together as `Inv` says: what one thread does to its
share keeps it, and the others may rely on that. Threads run on in states of `Permits` only. -/
structure Agreement (P : Protocol φ σ ι) (Inv : (τ → ι) → σ → Prop) (Permits : σ → Prop) :
    Prop where
  refl : ∀ {shares : τ → ι} {s : σ}, Inv shares s → Permits s → ∀ i, P.rely (shares i) s s
  keeps : ∀ {shares : τ → ι} {s t : σ} {i : τ} {after : ι}, Inv shares s →
    P.guar (shares i) after s t → Inv (update shares i after) t
  others : ∀ {shares : τ → ι} {s t : σ} {i : τ} {after : ι}, Inv shares s →
    P.guar (shares i) after s t → ∀ j, j ≠ i → ∀ u, P.rely (shares j) t u → P.rely (shares j) s u

variable {P : Protocol φ σ ι} {Inv : (τ → ι) → σ → Prop} {Permits : σ → Prop}

/-- A thread up to the next place where it may lose the processor. -/
theorem Agreement.burst (agreed : Agreement P Inv Permits) {c : Call φ ε σ α}
    {shares : τ → ι} {s : σ}
    {i : τ} {Keeps : ι → Prop} {Q : α → ι → σ → Prop} {E : ε → ι → σ → Prop} (inv : Inv shares s)
    (keeps : Keeps (shares i)) (done : c.Secures (P.keeping Keeps) (shares i) s Q E) :
    ∃ after, Inv (update shares i after) (c.burst s).2 ∧ Keeps after ∧
      (c.burst s).1.Secures (P.keeping Keeps) after (c.burst s).2 Q E ∧
      ∀ j, j ≠ i → ∀ u, P.rely (shares j) (c.burst s).2 u → P.rely (shares j) s u := by
  induction c generalizing shares s with
  | ret a | fail e | halt h | switch ready k =>
    refine ⟨shares i, ?_, keeps, done, fun _ _ _ passed => passed⟩
    rw [Function.update_eq_self]
    exact inv
  | look k ih => exact ih s inv keeps done
  | assign g k ih =>
    obtain ⟨between, ⟨keeps', kept⟩, rest⟩ := done
    have here : update shares i between i = between := update_self ..
    obtain ⟨after, inv', keeps'', rest', others⟩ :=
      ih (agreed.keeps inv kept) (here.symm ▸ keeps') (here.symm ▸ rest)
    rw [Function.update_idem] at inv'
    refine ⟨after, inv', keeps'', rest', fun j other u passed => ?_⟩
    have later := others j other u
    rw [update_of_ne other] at later
    exact agreed.others inv kept j other u (later passed)

/-- Every request finds its thread with the share that goes with what it has, and leaves it so. What
the thread has at the same time, the call `Keeps`. -/
structure Serves (P : Protocol φ σ ι) (Inv : (τ → ι) → σ → Prop) (Permits : σ → Prop)
    (svc : Service φ ε σ α ρ κ) (Owns Keeps : κ → ι → Prop) : Prop where
  prompt : ¬ P.prompt
  keeps : ∀ {has left : κ} {own : ι} {r : ρ}, Owns has own → svc.begins has r = some left →
    Keeps left own
  secures : ∀ {shares : τ → ι} {s : σ} {i : τ} {has left : κ} {r : ρ}, Inv shares s → Permits s →
    Owns has (shares i) → svc.begins has r = some left →
    (svc.code r).Secures (P.keeping (Keeps left)) (shares i) s
      (fun a after _ => Owns (svc.ends left r (.ok a)) after)
      (fun e after _ => Owns (svc.ends left r (.error e)) after)

inductive Placed (P : Protocol φ σ ι) (svc : Service φ ε σ α ρ κ) (Owns Keeps : κ → ι → Prop)
    (own : ι) (s : σ) (has : κ) : Activity φ ε σ α ρ → Prop where
  | idle (owns : Owns has own) : Placed P svc Owns Keeps own s has .idle
  | busy (r : ρ) (c : Call φ ε σ α) (rest : c.AtRest) (keeps : Keeps has own)
    (secures : c.Secures (P.keeping (Keeps has)) own s
      (fun a after _ => Owns (svc.ends has r (.ok a)) after)
      (fun e after _ => Owns (svc.ends has r (.error e)) after)) :
    Placed P svc Owns Keeps own s has (.busy r c)

variable {svc : Service φ ε σ α ρ κ} {Owns Keeps : κ → ι → Prop} {w w' : Crowd τ φ ε σ α ρ κ}

theorem Placed.stable {own : ι} {s t : σ} {has : κ} {doing : Activity φ ε σ α ρ}
    (prompt : ¬ P.prompt) (placed : Placed P svc Owns Keeps own s has doing)
    (passed : ∀ u, P.rely own t u → P.rely own s u) : Placed P svc Owns Keeps own t has doing := by
  cases placed with
  | idle owns => exact .idle owns
  | busy r c rest keeps secures =>
    exact .busy r c rest keeps
      (Call.Secures.stable prompt (fun _ => id) (fun _ => id) rest secures passed)

/-- There are shares for all threads. -/
def Crowd.Sound (P : Protocol φ σ ι) (Inv : (τ → ι) → σ → Prop) (svc : Service φ ε σ α ρ κ)
    (Owns Keeps : κ → ι → Prop) (w : Crowd τ φ ε σ α ρ κ) : Prop :=
  ∃ shares, Inv shares w.shared ∧
    ∀ i, Placed P svc Owns Keeps (shares i) w.shared (w.has i) (w.doing i)

theorem Crowd.Sound.proceed (agreed : Agreement P Inv Permits) (prompt : ¬ P.prompt)
    {shares : τ → ι} {i : τ} {r : ρ} {c : Call φ ε σ α} (inv : Inv shares w.shared)
    (others : ∀ j, j ≠ i → Placed P svc Owns Keeps (shares j) w.shared (w.has j) (w.doing j))
    (keeps : Keeps (w.has i) (shares i))
    (done : c.Secures (P.keeping (Keeps (w.has i))) (shares i) w.shared
      (fun a after _ => Owns (svc.ends (w.has i) r (.ok a)) after)
      (fun e after _ => Owns (svc.ends (w.has i) r (.error e)) after)) :
    (w.proceed i r c).Sound P Inv svc Owns Keeps := by
  obtain ⟨after, inv', keeps', rest, passed⟩ := agreed.burst inv keeps done
  refine ⟨_, inv', fun j => ?_⟩
  by_cases same : j = i
  · subst same
    dsimp only [Crowd.proceed]
    rw [update_self, update_self]
    exact .busy r _ (Call.atRest_burst c _) keeps' rest
  · dsimp only [Crowd.proceed]
    rw [update_of_ne same, update_of_ne same]
    exact (others j same).stable prompt (passed j same)

theorem Crowd.Sound.next (agreed : Agreement P Inv Permits)
    (serves : Serves P Inv Permits svc Owns Keeps) (sound : w.Sound P Inv svc Owns Keeps)
    (permitted : Permits w.shared) {move : Move τ ρ} (moved : w.next svc move = some w') :
    w'.Sound P Inv svc Owns Keeps := by
  obtain ⟨shares, inv, placed⟩ := sound
  rcases Crowd.next_cases moved with ⟨i, r, left, idle, begun, rfl⟩ |
    ⟨i, r, ready, k, busy, now, rfl⟩ | ⟨i, r, result, busy, rfl⟩
  · have here := placed i
    rw [idle] at here
    cases here with
    | idle owns =>
      refine Crowd.Sound.proceed agreed serves.prompt (w := { w with has := _ }) inv
        (fun j other => ?_) ?_ ?_
      · dsimp only
        rw [update_of_ne other]
        exact placed j
      · dsimp only
        rw [update_self]
        exact serves.keeps owns begun
      · dsimp only
        rw [update_self]
        exact serves.secures inv permitted owns begun
  · have here := placed i
    rw [busy] at here
    cases here with
    | busy _ _ _ keeps secures =>
      exact Crowd.Sound.proceed agreed serves.prompt inv (fun j _ => placed j) keeps
        (secures.2 _ (agreed.refl inv permitted i) now)
  refine ⟨shares, inv, fun j => ?_⟩
  by_cases same : j = i
  · subst same
    have here := placed j
    rw [busy] at here
    dsimp only [Crowd.settle]
    rw [update_self, update_self]
    cases here with
    | busy _ _ _ _ secures =>
      cases result with
      | ok a => exact .idle secures
      | error e => exact .idle secures
  · dsimp only [Crowd.settle]
    rw [update_of_ne same, update_of_ne same]
    exact placed j

omit [DecidableEq τ] in
/-- No thread halts but for the reasons that the protocol allows. -/
theorem Crowd.Sound.halts (sound : w.Sound P Inv svc Owns Keeps) {i : τ} {r : ρ} {h : φ}
    (busy : w.doing i = .busy r (.halt h)) : P.halts h := by
  obtain ⟨shares, -, placed⟩ := sound
  have here := placed i
  rw [busy] at here
  cases here with
  | busy _ _ _ _ secures => exact secures

end

/-! ### Shares that add up -/

/-- There are shares of the others with which a share is valid. -/
def Fits [Add ι] (Valid : ι → σ → Prop) (own : ι) (s : σ) : Prop := ∃ rest, Valid (own + rest) s

/-- The shares of all threads together are valid for the state; a thread may exchange what it has
for something else if that is so with whatever the others have, and disturbs nobody. -/
def pooled [Add ι] (Valid : ι → σ → Prop) (Frame : ι → σ → σ → Prop) (Permits : σ → Prop)
    (halts : φ → Prop) : Protocol φ σ ι where
  rely own s t := (Fits Valid own t ∧ Frame own s t) ∧ Permits t
  guar own after s t :=
    ∀ rest, Valid (own + rest) s → Valid (after + rest) t ∧ Frame rest s t
  halts := halts
  prompt := False

/-- What a thread has besides what a call needs is left alone. -/
theorem Call.Secures.frame [AddCommSemigroup ι] {Valid : ι → σ → Prop} {Frame : ι → σ → σ → Prop}
    {Permits : σ → Prop} {halts : φ → Prop} {c : Call φ ε σ α} {own : ι} {s : σ}
    {Q : α → ι → σ → Prop} {E : ε → ι → σ → Prop} (base : ι)
    (part : ∀ {own more s t}, Frame (own + more) s t → Frame own s t)
    (done : c.Secures (pooled Valid Frame Permits halts) own s Q E) :
    c.Secures ((pooled Valid Frame Permits halts).keeping fun all => ∃ more, all = base + more)
      (base + own) s (fun a after t => ∃ left, after = base + left ∧ Q a left t)
      (fun e after t => ∃ left, after = base + left ∧ E e left t) := by
  have others : ∀ own rest, base + own + rest = own + (base + rest) := by
    intro own rest
    rw [add_comm base, add_assoc]
  induction c generalizing own s with
  | ret a => exact ⟨own, rfl, done⟩
  | fail e => exact ⟨own, rfl, done⟩
  | halt h => exact done
  | look k ih => exact ih s done
  | assign g k ih =>
    obtain ⟨after, kept, rest⟩ := done
    refine ⟨base + after, ⟨⟨after, rfl⟩, fun more valid => ?_⟩, ih rest⟩
    rw [others] at valid ⊢
    obtain ⟨valid', frame⟩ := kept _ valid
    rw [add_comm base] at frame
    exact ⟨valid', part frame⟩
  | switch ready k ih =>
    refine ⟨fun now => absurd now id, fun t passed now => ih (done.2 t ?_ now)⟩
    obtain ⟨⟨⟨more, valid⟩, frame⟩, permitted⟩ := passed
    rw [others] at valid
    rw [add_comm] at frame
    exact ⟨⟨⟨_, valid⟩, part frame⟩, permitted⟩

theorem pooled_agreement [DecidableEq τ] [Fintype τ] [AddCommMonoid ι] {Valid : ι → σ → Prop}
    {Frame : ι → σ → σ → Prop} {Permits : σ → Prop} {halts : φ → Prop}
    (refl : ∀ own s, Frame own s s)
    (trans : ∀ {own s t u}, Frame own s t → Frame own t u → Frame own s u)
    (part : ∀ {own more s t}, Frame (own + more) s t → Frame own s t) :
    Agreement (pooled Valid Frame Permits halts)
      (fun (shares : τ → ι) s => Valid (∑ i, shares i) s) Permits where
  refl {shares s} valid permitted i := by
    rw [← Finset.add_sum_erase _ _ (Finset.mem_univ i)] at valid
    exact ⟨⟨⟨_, valid⟩, refl _ _⟩, permitted⟩
  keeps {shares s t i after} valid kept := by
    rw [← Finset.add_sum_erase _ _ (Finset.mem_univ i)] at valid
    rw [← Finset.add_sum_erase _ _ (Finset.mem_univ i), update_self]
    have same : ∑ j ∈ Finset.univ.erase i, update shares i after j =
        ∑ j ∈ Finset.univ.erase i, shares j := by
      refine Finset.sum_congr rfl fun j member => ?_
      rw [update_of_ne (Finset.ne_of_mem_erase member)]
    rw [same]
    exact (kept _ valid).1
  others {shares s t i after} valid kept j other u passed := by
    rw [← Finset.add_sum_erase _ _ (Finset.mem_univ i)] at valid
    have member : j ∈ Finset.univ.erase i := Finset.mem_erase.mpr ⟨other, Finset.mem_univ j⟩
    obtain ⟨-, frame⟩ := kept _ valid
    rw [← Finset.add_sum_erase _ _ member] at frame
    exact ⟨⟨passed.1.1, trans (part frame) passed.1.2⟩, passed.2⟩

end Os161.Foundation
