import Mathlib.Data.List.Basic

/-!
# Runs of labelled transition systems

A run carries its history: every state it has left together with the label it
left by, newest first. A property of a run is then either an invariant of the
states it visits or a condition on the steps it takes, and `Run.good_iff` turns
one into the other.
-/
namespace Os161.Foundation

variable {State Label : Type*}

/-- `Run step start history s`: the steps recorded in `history` lead from `start` to `s`. -/
inductive Run (step : State → Label → State → Prop) (start : State) :
    List (State × Label) → State → Prop
  | start : Run step start [] start
  | next {history : List (State × Label)} {s : State} {label : Label} {t : State} :
      Run step start history s → step s label t → Run step start ((s, label) :: history) t

/-- Every state of a run: the ones in its history and the one it has reached. -/
def visited (history : List (State × Label)) (s : State) : List State :=
  s :: history.map Prod.fst

namespace Run

variable {step : State → Label → State → Prop} {start s : State}
  {history : List (State × Label)}

theorem invariant {Inv : State → Prop} (initial : Inv start)
    (preserved : ∀ s label t, Inv s → step s label t → Inv t)
    (run : Run step start history s) : Inv s := by
  induction run with
  | start => exact initial
  | next _ taken ih => exact preserved _ _ _ ih taken

/-- If a step keeps a state good exactly when it is safe, then a run visits only
good states exactly when all its steps are safe. -/
theorem good_iff (Inv : State → Prop) {Good : State → Prop} {Safe : State → Label → Prop}
    (initial : Inv start) (good : Good start)
    (preserved : ∀ s label t, Inv s → step s label t → Inv t)
    (kept : ∀ s label t, Inv s → Good s → step s label t → (Good t ↔ Safe s label))
    (run : Run step start history s) :
    (∀ t ∈ visited history s, Good t) ↔ ∀ taken ∈ history, Safe taken.1 taken.2 := by
  induction run with
  | start => simpa [visited] using good
  | @next history s label t before taken ih =>
    have inv : Inv s := before.invariant initial preserved
    -- the last step is judged by `kept`, the earlier ones by the induction hypothesis
    simp only [visited, List.map_cons, List.forall_mem_cons] at ih ⊢
    rw [← ih]
    constructor
    · rintro ⟨last, now, earlier⟩
      exact ⟨(kept s label t inv now taken).mp last, now, earlier⟩
    · rintro ⟨safe, now, earlier⟩
      exact ⟨(kept s label t inv now taken).mpr safe, now, earlier⟩

/-- Steps that all satisfy a guard form a run of the guarded system. -/
theorem restrict {Guard : State → Label → Prop} (run : Run step start history s)
    (guarded : ∀ taken ∈ history, Guard taken.1 taken.2) :
    Run (fun s label t => Guard s label ∧ step s label t) start history s := by
  induction run with
  | start => exact .start
  | @next history s label t _ taken ih =>
    rw [List.forall_mem_cons] at guarded
    exact .next (ih guarded.2) ⟨guarded.1, taken⟩

end Run

/-! ### Systems that compute their steps -/

/-- The steps in `labels`, one after the other, of a system that computes its next state. -/
def execute (next : State → Label → Option State) : State → List Label → Option State
  | s, [] => some s
  | s, label :: rest =>
    match next s label with
    | none => none
    | some t => execute next t rest

/-- The relation of such a system. -/
def Computes (next : State → Label → Option State) (s : State) (label : Label) (t : State) : Prop :=
  next s label = some t

variable {next : State → Label → Option State} {start s : State} {labels : List Label}

theorem Run.of_execute_from {history : List (State × Label)} {after : State}
    (so_far : Run (Computes next) start history s) (done : execute next s labels = some after) :
    ∃ longer, Run (Computes next) start longer after ∧
      longer.map Prod.snd = labels.reverse ++ history.map Prod.snd := by
  induction labels generalizing s history with
  | nil =>
    cases done
    exact ⟨history, so_far, by simp⟩
  | cons label rest ih =>
    unfold execute at done
    split at done
    · cases done
    next t stepped =>
      obtain ⟨longer, run, same⟩ := ih (so_far.next stepped) done
      exact ⟨longer, run, by simp [same]⟩

theorem Run.of_execute (done : execute next start labels = some s) :
    ∃ history, Run (Computes next) start history s ∧ history.map Prod.snd = labels.reverse := by
  obtain ⟨history, run, same⟩ := Run.of_execute_from .start done
  exact ⟨history, run, by simpa using same⟩

/-- The same system, which stops where a step fails a check. -/
def checked (check : State → Label → Prop) [∀ s label, Decidable (check s label)]
    (next : State → Label → Option State) (s : State) (label : Label) : Option State :=
  if check s label then next s label else none

theorem Run.of_checked {check : State → Label → Prop} [∀ s label, Decidable (check s label)]
    {history : List (State × Label)} (run : Run (Computes (checked check next)) start history s) :
    Run (Computes next) start history s ∧ ∀ taken ∈ history, check taken.1 taken.2 := by
  induction run with
  | start => exact ⟨.start, nofun⟩
  | next _ taken ih =>
    obtain ⟨passed, stepped⟩ := Option.ite_none_right_eq_some.mp taken
    exact ⟨ih.1.next stepped, List.forall_mem_cons.mpr ⟨passed, ih.2⟩⟩

/-- A check that evaluates to true on the outcome of `labels` holds of the state they reach. -/
theorem execute_check {check : State → Prop} [DecidablePred check]
    (passed : ((execute next start labels).map fun s => decide (check s)) = some true) :
    ∃ s, execute next start labels = some s ∧ check s := by
  obtain ⟨s, reached, holds⟩ := Option.map_eq_some_iff.mp passed
  exact ⟨s, reached, of_decide_eq_true holds⟩

theorem Run.of_check {check : State → Prop} [DecidablePred check]
    (passed : ((execute next start labels).map fun s => decide (check s)) = some true) :
    ∃ history s, Run (Computes next) start history s ∧
      history.map Prod.snd = labels.reverse ∧ check s := by
  obtain ⟨s, reached, holds⟩ := execute_check passed
  obtain ⟨history, run, same⟩ := Run.of_execute reached
  exact ⟨history, s, run, same, holds⟩

end Os161.Foundation
