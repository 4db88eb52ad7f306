import Os161.Foundation.Transition

/-!
# Objects and what they are for

The code of an object answers calls from a state of its own. It refines another system, which
says what the object is for, if every run of calls and answers is one of that system too.
-/
namespace Os161.Foundation

variable {State Spec Label Call Reply ε : Type*}

/-- A call that may be made, with its answer. -/
def Answers (allowed : State → Call → Prop) (perform : State → Call → Except ε (Reply × State))
    (s : State) (label : Call × Reply) (t : State) : Prop :=
  allowed s label.1 ∧ perform s label.1 = .ok (label.2, t)

/-- Forward simulation, where a state determines what it stands for: what every step keeps
relates whole runs. -/
theorem Run.simulate {step : State → Label → State → Prop} (spec : Spec → Label → Spec → Prop)
    (Inv : State → Prop) (view : State → Spec) {start s : State} {history : List (State × Label)}
    (initial : Inv start)
    (kept : ∀ s label t, Inv s → step s label t → Inv t ∧ spec (view s) label (view t))
    (run : Run step start history s) :
    Inv s ∧ Run spec (view start) (history.map fun taken => (view taken.1, taken.2)) (view s) := by
  induction run with
  | start => exact ⟨initial, .start⟩
  | next _ taken ih =>
    obtain ⟨inv, specified⟩ := kept _ _ _ ih.1 taken
    exact ⟨inv, ih.2.next specified⟩

theorem Run.mono {step step' : State → Label → State → Prop} {start s : State}
    {history : List (State × Label)} (weaker : ∀ s label t, step s label t → step' s label t)
    (run : Run step start history s) : Run step' start history s := by
  induction run with
  | start => exact .start
  | next _ taken ih => exact ih.next (weaker _ _ _ taken)

/-! ### Calls with given answers -/

variable {allowed : State → Call → Prop} [∀ s call, Decidable (allowed s call)]
  {perform : State → Call → Except ε (Reply × State)} [DecidableEq Reply]

/-- The call is made if it may be, and has to answer what is given. -/
def answering (allowed : State → Call → Prop) [∀ s call, Decidable (allowed s call)]
    (perform : State → Call → Except ε (Reply × State)) (s : State) (label : Call × Reply) :
    Option State :=
  if allowed s label.1 then
    match perform s label.1 with
    | .ok (reply, t) => if reply = label.2 then some t else none
    | .error _ => none
  else none

theorem Answers.of_answering {s t : State} {label : Call × Reply}
    (answered : answering allowed perform s label = some t) :
    Answers allowed perform s label t := by
  unfold answering at answered
  split at answered
  next may =>
    split at answered
    next reply u done =>
      obtain ⟨rfl, same⟩ := Option.ite_none_right_eq_some.mp answered
      cases same
      exact ⟨may, done⟩
    next => cases answered
  next => cases answered

/-- A run with given answers, and what can be checked of its end. -/
theorem Run.of_answering (allowed : State → Call → Prop) [∀ s call, Decidable (allowed s call)]
    (perform : State → Call → Except ε (Reply × State)) (start : State)
    (labels : List (Call × Reply)) (check : State → Prop) [DecidablePred check]
    (passed : ((execute (answering allowed perform) start labels).map fun s => decide (check s)) =
      some true) :
    ∃ history s, Run (Answers allowed perform) start history s ∧
      history.map Prod.snd = labels.reverse ∧ check s := by
  obtain ⟨history, s, run, same, holds⟩ := Run.of_check passed
  refine ⟨history, s, ?_, same, holds⟩
  exact run.mono fun _ _ _ taken => .of_answering taken

end Os161.Foundation
