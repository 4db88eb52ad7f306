import Os161.Foundation.Tally
import Os161.Synch.Sound

/-!
# Programs that share semaphores

The threads of such a program go from point to point; at each point stands one statement,
and `P` and `V` are calls to `synch.c`, in which a thread may sleep and be interrupted. Seen
from the program, `P` takes a unit that is there and `V` adds one, each in one step. Every
run of the program on top of `synch.c` is a run of that kind, with steps in between that
nobody sees. For the latter there are two rules: the units of a semaphore are with the threads
that have passed a `P` and not the `V`, and what a thread knows in a critical section stays
true.
-/
namespace Os161.Synch.Flow

open Foundation
open Function (update update_of_ne update_self)

/-- The statement at a point. `G` is the shared data, `L` what belongs to one thread. -/
inductive Instr (κ G L : Type) where
  | act (f : G → L → G × L) (next : κ)
  | test (p : G → L → Bool) (yes no : κ)
  | P (s : Ptr) (next : κ)
  | V (s : Ptr) (next : κ)
  /-- `thread_sleep` on an address that belongs to no semaphore. -/
  | nap (p : Ptr) (next : κ)
  /-- The thread ends, or the kernel panics. -/
  | stop

/-- Where a call returns to. -/
def Instr.after {κ G L : Type} (here : κ) : Instr κ G L → κ
  | P _ next | V _ next => next
  | _ => here

abbrev Program (τ κ G L : Type) := τ → κ → Instr κ G L

structure State (τ κ G L : Type) where
  sys : System τ
  shared : G
  own : τ → L
  pc : τ → κ

inductive Label (τ : Type) where
  /-- A statement of the program. -/
  | statement (t : τ)
  /-- The next section of a call of `t` to `synch.c`. -/
  | goOn (t : τ)
  | wakeup (p : Ptr)
  | wakeOne (p : Ptr)

def Label.thread {τ : Type} : Label τ → Option τ
  | statement t | goOn t => some t
  | _ => none

section

variable {τ κ G L : Type} [DecidableEq τ] (program : Program τ κ G L)

/-! ### On top of `synch.c` -/

namespace State

variable (σ : State τ κ G L)

def move (t : τ) (next : κ) : State τ κ G L := { σ with pc := update σ.pc t next }

def call (t : τ) (op : Op) : Option (State τ κ G L) :=
  (σ.sys.next (.call t op)).map fun sys => { σ with sys }

def statement (t : τ) : Instr κ G L → Option (State τ κ G L)
  | .act f next =>
    let after := f σ.shared (σ.own t)
    some { σ.move t next with shared := after.1, own := update σ.own t after.2 }
  | .test p yes no => some (σ.move t (if p σ.shared (σ.own t) then yes else no))
  | .P s _ => σ.call t (.P s)
  | .V s _ => σ.call t (.V s)
  | .nap p next => (σ.sys.next (.sleep t p)).map fun sys => { σ.move t next with sys }
  | .stop => none

def next : Label τ → Option (State τ κ G L)
  | .statement t => if σ.sys.Free t then σ.statement t (program t (σ.pc t)) else none
  | .goOn t =>
    (σ.sys.next (.goOn t)).map fun sys =>
      if (sys.stages t).pos = .returned then
        { σ.move t ((program t (σ.pc t)).after (σ.pc t)) with sys }
      else { σ with sys }
  | .wakeup p => (σ.sys.next (.wakeup p)).map fun sys => { σ with sys }
  | .wakeOne p => (σ.sys.next (.wakeOne p)).map fun sys => { σ with sys }

abbrev Step : State τ κ G L → Label τ → State τ κ G L → Prop := Computes (State.next program)

end State

/-! ### What the program sees -/

/-- The shared data, what belongs to each thread, where each is, and what each semaphore has. -/
structure View (τ κ G L : Type) where
  shared : G
  own : τ → L
  pc : τ → κ
  count : Ptr → Int

def State.view (σ : State τ κ G L) : View τ κ G L :=
  ⟨σ.shared, σ.own, σ.pc, fun s => (σ.sys.objects.count s).toInt⟩

namespace View

variable (v : View τ κ G L)

def move (t : τ) (next : κ) : View τ κ G L := { v with pc := update v.pc t next }

def add (s : Ptr) (units : Int) : View τ κ G L :=
  { v with count := update v.count s (v.count s + units) }

/-- A statement of `t`; `none` if it cannot be executed now. -/
def statement (t : τ) : Instr κ G L → Option (View τ κ G L)
  | .act f next =>
    let after := f v.shared (v.own t)
    some { v.move t next with shared := after.1, own := update v.own t after.2 }
  | .test p yes no => some (v.move t (if p v.shared (v.own t) then yes else no))
  | .P s next => if 0 < v.count s then some ((v.move t next).add s (-1)) else none
  | .V s next => some ((v.move t next).add s 1)
  | .nap _ next => some (v.move t next)
  | .stop => none

def next (t : τ) : Option (View τ κ G L) := v.statement t (program t (v.pc t))

end View

/-! ### The one simulates the other -/

/-- The thread is in the call to `synch.c` that stands where it is. -/
def Instr.Calls (st : Stage) : Instr κ G L → Prop
  | P s _ => st.call = some (.P s) ∧ (st.pos = .called ∨ st.pos = .looping)
  | V s _ => st.call = some (.V s) ∧ st.pos = .called
  | _ => False

def Fits (σ : State τ κ G L) : Prop :=
  ∀ t, (σ.sys.stages t).pos = .returned ∨ (program t (σ.pc t)).Calls (σ.sys.stages t)

variable {program} {σ σ' : State τ κ G L} {t : τ}

/-- A step of `t` leaves the others where they are. -/
theorem Fits.set (fits : Fits program σ) (pc : ∀ u, u ≠ t → σ'.pc u = σ.pc u)
    (stages : ∀ u, u ≠ t → σ'.sys.stages u = σ.sys.stages u)
    (here : (σ'.sys.stages t).pos = .returned ∨
      (program t (σ'.pc t)).Calls (σ'.sys.stages t)) : Fits program σ' := by
  intro u
  by_cases me : u = t
  · exact me ▸ here
  · rw [pc u me, stages u me]
    exact fits u

theorem Fits.statement (fits : Fits program σ) (free : σ.sys.Free t)
    (taken : σ.statement t (program t (σ.pc t)) = some σ') :
    Fits program σ' ∧ (σ'.view = σ.view ∨ σ.view.next program t = some σ'.view) := by
  have same : ∀ next u, u ≠ t → update σ.pc t next u = σ.pc u :=
    fun next u other => update_of_ne other ..
  -- a statement outside `synch.c`
  have moves : σ'.sys.stages = σ.sys.stages → (∀ u, u ≠ t → σ'.pc u = σ.pc u) →
      σ.view.next program t = some σ'.view →
      Fits program σ' ∧ (σ'.view = σ.view ∨ σ.view.next program t = some σ'.view) := by
    intro stages pc seen
    exact ⟨fits.set pc (fun u _ => by rw [stages]) (.inl (stages ▸ free.1)), .inr seen⟩
  -- a call
  have calls : ∀ op, σ.call t op = some σ' →
      (program t (σ.pc t)).Calls ⟨some op, .called, (σ.sys.stages t).answer⟩ →
      Fits program σ' ∧ (σ'.view = σ.view ∨ σ.view.next program t = some σ'.view) := by
    intro op called calls
    obtain ⟨sys, stepped, rfl⟩ := Option.map_eq_some_iff.mp called
    cases System.of_next_call stepped
    refine ⟨fits.set (fun _ _ => rfl) (fun u other => update_of_ne other ..) (.inr ?_), .inl rfl⟩
    simpa only [System.setStage, update_self] using calls
  generalize here : program t (σ.pc t) = instr at taken
  cases instr with
  | act f next =>
    cases taken
    exact moves rfl (same next) (by simp only [View.next, State.view, here]; rfl)
  | test p yes no =>
    cases taken
    exact moves rfl (same _) (by simp only [View.next, State.view, here]; rfl)
  | P s next => exact calls (.P s) taken (here ▸ ⟨rfl, .inl rfl⟩)
  | V s next => exact calls (.V s) taken (here ▸ ⟨rfl, rfl⟩)
  | nap p next =>
    obtain ⟨sys, stepped, rfl⟩ := Option.map_eq_some_iff.mp taken
    cases System.of_next_sleep stepped
    exact moves rfl (same next) (by simp only [View.next, State.view, here]; rfl)
  | stop => cases taken

omit [DecidableEq τ] in
private theorem toInt_setCount (o : Objects τ) (s : Ptr) (count : CInt) :
    (fun k => ((o.setCount s count).count k).toInt) =
      update (fun k => (o.count k).toInt) s count.toInt := by
  funext k
  by_cases here : k = s
  · subst here
    simp [Objects.setCount]
  · simp [Objects.setCount, here]

/-- What `V` leaves when its assertion holds. -/
theorem toInt_add_one_of_pos {c : CInt} (positive : 0 < (c + 1).toInt) :
    (c + 1).toInt = c.toInt + 1 := by
  have less := toInt_sub_one positive
  rw [BitVec.add_sub_cancel] at less
  omega

/-- What the section of a call comes to: `P` sleeps or takes a unit, `V` adds one. -/
theorem Fits.goOn (fits : Fits program σ) (taken : σ.next program (.goOn t) = some σ') :
    Fits program σ' ∧ (σ'.view = σ.view ∨ σ.view.next program t = some σ'.view) := by
  obtain ⟨sys, stepped, rfl⟩ := Option.map_eq_some_iff.mp taken
  obtain ⟨-, o, st, advanced, rfl⟩ := System.of_next_goOn stepped
  have stage : (σ.sys.setStage t o st).stages t = st := update_self ..
  have stages : ∀ u, u ≠ t → (σ.sys.setStage t o st).stages u = σ.sys.stages u :=
    fun u other => update_of_ne other ..
  have same : ∀ next u, u ≠ t → update σ.pc t next u = σ.pc u :=
    fun next u other => update_of_ne other ..
  rw [stage]
  rcases fits t with returned | calls
  · rw [Stage.advance_returned returned] at advanced
    cases advanced
  generalize before : σ.sys.stages t = now at advanced calls
  obtain ⟨call, pos, answer⟩ := now
  generalize here : program t (σ.pc t) = instr at calls
  cases instr with
  | P s next =>
    obtain ⟨rfl, looping⟩ := calls
    have down : σ.sys.objects.down t s ⟨some (.P s), pos, answer⟩ = .ok (o, st) := by
      rcases looping with rfl | rfl <;> exact Option.some.inj advanced
    unfold Objects.down at down
    split at down
    next =>
      cases down
      simp only [reduceCtorEq, if_false]
      refine ⟨fits.set (t := t) (fun _ _ => rfl) stages (.inr ?_), .inl rfl⟩
      simp only [stage, here]
      exact ⟨rfl, .inr rfl⟩
    next =>
      split at down
      next positive =>
        cases down
        simp only [if_true, Instr.after]
        refine ⟨fits.set (t := t) (same next) stages (.inl (by simp only [stage])), .inr ?_⟩
        have count := toInt_setCount σ.sys.objects s (σ.sys.objects.count s - 1)
        rw [toInt_sub_one positive] at count
        simp only [View.next, State.view, here, View.statement, positive, if_true]
        exact congrArg some (congrArg (View.mk _ _ _) count.symm)
      next => cases down
  | V s next =>
    obtain ⟨rfl, rfl⟩ := calls
    simp only [Stage.advance, Objects.up, Option.some.injEq] at advanced
    split at advanced
    next positive =>
      cases advanced
      simp only [if_true, Instr.after]
      refine ⟨fits.set (t := t) (same next) stages (.inl (by simp only [stage])), .inr ?_⟩
      have count := toInt_setCount σ.sys.objects s (σ.sys.objects.count s + 1)
      rw [toInt_add_one_of_pos positive] at count
      simp only [View.next, State.view, here, View.statement]
      exact congrArg some (congrArg (View.mk _ _ _) count.symm)
    next => cases advanced
  | _ => cases calls

/-- Every step is one that the program sees, or none that it sees. -/
theorem Fits.next (fits : Fits program σ) {label : Label τ}
    (taken : σ.next program label = some σ') :
    Fits program σ' ∧ (σ'.view = σ.view ∨
      ∃ t, label.thread = some t ∧ σ.view.next program t = some σ'.view) := by
  cases label with
  | statement t =>
    simp only [State.next, Option.ite_none_right_eq_some] at taken
    obtain ⟨fits', seen⟩ := fits.statement taken.1 taken.2
    exact ⟨fits', seen.imp_right fun seen => ⟨t, rfl, seen⟩⟩
  | goOn t =>
    obtain ⟨fits', seen⟩ := fits.goOn taken
    exact ⟨fits', seen.imp_right fun seen => ⟨t, rfl, seen⟩⟩
  | wakeup p =>
    cases taken
    exact ⟨fits, .inl rfl⟩
  | wakeOne p =>
    cases taken
    exact ⟨fits, .inl rfl⟩

/-- What the steps that the program sees preserve, as far as they meet a condition, holds in every
state of a run that meets it. -/
theorem invariant_of_run {start : State τ κ G L} (fits : Fits program start)
    {Inv : View τ κ G L → Prop} {Cond : View τ κ G L → τ → Prop} (initial : Inv start.view)
    (kept : ∀ v t v', Inv v → Cond v t → v.next program t = some v' → Inv v')
    {history : List (State τ κ G L × Label τ)} (run : Run (State.Step program) start history σ)
    (granted : ∀ taken ∈ history, ∀ t, taken.2.thread = some t → Cond taken.1.view t) :
    Inv σ.view := by
  have guarded : Run (fun σ label σ' => (∀ t, label.thread = some t → Cond σ.view t) ∧
      State.Step program σ label σ') start history σ := run.restrict granted
  have preserved : ∀ σ label σ', Fits program σ ∧ Inv σ.view →
      (∀ t, label.thread = some t → Cond σ.view t) ∧ State.Step program σ label σ' →
      Fits program σ' ∧ Inv σ'.view := by
    rintro before label after ⟨fits, inv⟩ ⟨cond, taken⟩
    obtain ⟨fits', same | ⟨t, mine, seen⟩⟩ := fits.next taken
    · exact ⟨fits', same ▸ inv⟩
    · exact ⟨fits', kept _ t _ inv (cond t mine) seen⟩
  exact (Run.invariant ⟨fits, initial⟩ preserved guarded).2

/-- A step of `t` is no step of the others. -/
theorem others_next {v v' : View τ κ G L} (taken : v.next program t = some v') {u : τ}
    (other : u ≠ t) : v'.pc u = v.pc u ∧ v'.own u = v.own u := by
  cases here : program t (v.pc t) <;> simp only [View.next, View.statement, here,
    Option.ite_none_right_eq_some, Option.some.injEq, reduceCtorEq] at taken
  case P s next =>
    obtain ⟨-, rfl⟩ := taken
    exact ⟨update_of_ne other .., rfl⟩
  case act f next =>
    cases taken
    exact ⟨update_of_ne other .., update_of_ne other ..⟩
  all_goals
    cases taken
    exact ⟨update_of_ne other .., rfl⟩

/-- Where a thread goes from the statement. -/
def Instr.target (g : G) (own : L) : Instr κ G L → Option κ
  | act _ next | P _ next | V _ next | nap _ next => some next
  | test p yes no => some (if p g own then yes else no)
  | stop => none

theorem pc_next {v v' : View τ κ G L} (taken : v.next program t = some v') :
    (program t (v.pc t)).target v.shared (v.own t) = some (v'.pc t) := by
  cases here : program t (v.pc t) <;> simp only [View.next, View.statement, here,
    Option.ite_none_right_eq_some, Option.some.injEq, reduceCtorEq] at taken
  case P s next =>
    obtain ⟨-, rfl⟩ := taken
    simp [Instr.target, View.move, View.add]
  all_goals
    cases taken
    simp [Instr.target, View.move, View.add]

/-- The statement writes no shared data. -/
def Instr.Silent : Instr κ G L → Prop
  | act f _ => ∀ g own, (f g own).1 = g
  | _ => True

theorem shared_next {v v' : View τ κ G L} (silent : (program t (v.pc t)).Silent)
    (taken : v.next program t = some v') : v'.shared = v.shared := by
  cases here : program t (v.pc t) <;> simp only [View.next, View.statement, here,
    Option.ite_none_right_eq_some, Option.some.injEq, reduceCtorEq] at taken
  case P s next =>
    obtain ⟨-, rfl⟩ := taken
    rfl
  case act f next =>
    rw [here] at silent
    cases taken
    exact silent ..
  all_goals
    cases taken
    rfl

/-! ### Units -/

/-- The points where `q` holds are those between a `P` and a `V` of the semaphore. -/
def Instr.Balanced (s : Ptr) (q : κ → Prop) (here : κ) : Instr κ G L → Prop
  | act _ next | nap _ next => q next ↔ q here
  | test _ yes no => (q yes ↔ q here) ∧ (q no ↔ q here)
  | P s' next => if s' = s then ¬ q here ∧ q next else q next ↔ q here
  | V s' next => if s' = s then q here ∧ ¬ q next else q next ↔ q here
  | stop => True

section

variable [Fintype τ] {v v' : View τ κ G L} {p : τ → κ → Prop} [∀ t k, Decidable (p t k)]

/-- A unit is with the semaphore or with a thread. -/
theorem balance_next {s : Ptr} (balanced : (program t (v.pc t)).Balanced s (p t) (v.pc t))
    (taken : v.next program t = some v') :
    v'.count s + tally p v'.pc = v.count s + tally p v.pc := by
  have stays : ∀ next, (p t next ↔ p t (v.pc t)) →
      tally p (update v.pc t next) = tally p v.pc := fun next => tally_update_same
  have other : ∀ s' units, s' ≠ s → ∀ next, (p t next ↔ p t (v.pc t)) →
      ((v.move t next).add s' units).count s + tally p (update v.pc t next) =
        v.count s + tally p v.pc := by
    intro s' units apart next same
    rw [stays next same]
    simp [View.add, View.move, update_of_ne apart.symm]
  cases here : program t (v.pc t) <;> rw [here] at balanced <;> simp only [View.next,
    View.statement, here, Option.ite_none_right_eq_some, Option.some.injEq, reduceCtorEq] at taken
  case act f next =>
    cases taken
    simp [View.move, stays next balanced]
  case test f yes no =>
    cases taken
    split
    · simp [View.move, stays yes balanced.1]
    · simp [View.move, stays no balanced.2]
  case P s' next =>
    obtain ⟨-, rfl⟩ := taken
    have moved := tally_update p v.pc t next
    by_cases same : s' = s
    · subst same
      simp only [Instr.Balanced] at balanced
      simp only [balanced.1, balanced.2, if_true, if_false] at moved
      simp only [View.add, View.move, update_self]
      omega
    · exact other s' _ same next (by simpa only [Instr.Balanced, same, if_false] using balanced)
  case V s' next =>
    cases taken
    have moved := tally_update p v.pc t next
    by_cases same : s' = s
    · subst same
      simp only [Instr.Balanced, if_true] at balanced
      simp only [balanced.1, balanced.2, if_true, if_false] at moved
      simp only [View.add, View.move, update_self]
      omega
    · exact other s' _ same next (by simpa only [Instr.Balanced, same, if_false] using balanced)
  case nap f next =>
    cases taken
    simp [View.move, stays next balanced]

omit [Fintype τ] in
theorem natural_next {s : Ptr} (natural : 0 ≤ v.count s) (taken : v.next program t = some v') :
    0 ≤ v'.count s := by
  have moved : ∀ s' next units, (s = s' → 0 ≤ v.count s + units) →
      0 ≤ ((v.move t next).add s' units).count s := by
    intro s' next units enough
    by_cases same : s = s'
    · subst same
      simpa only [View.add, View.move, update_self] using enough rfl
    · simpa only [View.add, View.move, update_of_ne same] using natural
  cases here : program t (v.pc t) <;> simp only [View.next, View.statement, here,
    Option.ite_none_right_eq_some, Option.some.injEq, reduceCtorEq] at taken
  case P s' next =>
    obtain ⟨positive, rfl⟩ := taken
    exact moved s' next _ (by rintro rfl; omega)
  case V s' next =>
    cases taken
    exact moved s' next _ fun _ => by omega
  all_goals
    cases taken
    exact natural

end

/-! ### Critical sections -/

/-- A semaphore that protects the shared data: whoever is inside is alone, and knows something. -/
structure Section (m : Ptr) (inside : τ → κ → Prop) [∀ t k, Decidable (inside t k)] [Fintype τ]
    (Knows : τ → κ → G → Prop) (v : View τ κ G L) : Prop where
  natural : 0 ≤ v.count m
  alone : v.count m + tally inside v.pc = 1
  knows : ∀ t, inside t (v.pc t) → Knows t (v.pc t) v.shared

section

variable [Fintype τ] {v v' : View τ κ G L} {m : Ptr} {inside : τ → κ → Prop}
  [∀ t k, Decidable (inside t k)] {Knows : τ → κ → G → Prop}

omit [DecidableEq τ] in
theorem Section.unique (inv : Section m inside Knows v) {u : τ} (first : inside t (v.pc t))
    (second : inside u (v.pc u)) : t = u := by
  by_contra apart
  have two := two_le_tally apart first second
  have natural := inv.natural
  have alone := inv.alone
  omega

/-- A step of `t` spoils what another thread knows only if both are inside. -/
theorem Section.next (inv : Section m inside Knows v) (taken : v.next program t = some v')
    (balanced : (program t (v.pc t)).Balanced m (inside t) (v.pc t))
    (writes : inside t (v.pc t) ∨ v'.shared = v.shared)
    (knows : inside t (v'.pc t) → Knows t (v'.pc t) v'.shared) : Section m inside Knows v' where
  natural := natural_next inv.natural taken
  alone := (balance_next balanced taken).trans inv.alone
  knows u there := by
    by_cases me : u = t
    · subst me
      exact knows there
    rw [(others_next taken me).1] at there ⊢
    rcases writes with here | same
    · exact absurd (inv.unique there here) me
    · exact same ▸ inv.knows u there

end

/-! ### The beginning -/

def State.start (initial : Ptr → CInt) (shared : G) (own : τ → L) (pc : τ → κ) : State τ κ G L :=
  ⟨System.start initial, shared, own, pc⟩

omit [DecidableEq τ] in
theorem Fits.start (initial : Ptr → CInt) (shared : G) (own : τ → L) (pc : τ → κ) :
    Fits program (State.start initial shared own pc) := fun _ => .inl rfl

end

end Os161.Synch.Flow
