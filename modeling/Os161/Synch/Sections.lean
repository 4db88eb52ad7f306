import Os161.Synch.Statements

/-!
# The code of `thread/synch.c`, section by section

Here a thread moves in one step from one point at which it can lose the processor to the
next. What lies between is the work of one thread alone.
-/
namespace Os161.Synch

open Foundation

/-- Where a thread can lose the processor. -/
inductive Pos where
  /-- It has made its call and executed nothing of it. -/
  | called
  /-- In `lock_acquire` or `lock_release`, when `lock_do_i_hold` has returned. -/
  | tested
  /-- At the head of the loop of `lock_acquire` or `P`. -/
  | looping
  /-- In `cv_wait`, after its `thread_sleep`. -/
  | woken
  /-- Outside `synch.c`. -/
  | returned
  deriving DecidableEq

structure Stage where
  /-- The call it has made last. -/
  call : Option Op
  pos : Pos
  /-- What `lock_do_i_hold` has told it last. -/
  answer : Bool

section

variable {τ : Type} [DecidableEq τ]

namespace Objects

/-- The loop of `lock_acquire` and what follows it. -/
def acquire (o : Objects τ) (t : τ) (l : Ptr) (st : Stage) : Objects τ × Stage :=
  if o.owner l = none then
    ((o.setOwner l (some t)).returned t st.call, { st with pos := .returned })
  else (o.threadSleep t (.lock l), { st with pos := .looping })

/-- What `lock_release` does once it knows that `t` owns the lock. -/
def release (o : Objects τ) (t : τ) (l : Ptr) : Objects τ :=
  ((o.setOwner l none).setHeld l t false).threadWakeup (.lock l)

/-- The loop of `P` and what follows it. -/
def down (o : Objects τ) (t : τ) (s : Ptr) (st : Stage) : Except Stop (Objects τ × Stage) :=
  if o.count s = 0 then .ok (o.threadSleep t (.sem s), { st with pos := .looping })
  else if 0 < (o.count s).toInt then
    .ok ((o.setCount s (o.count s - 1)).downed s, { st with pos := .returned })
  else .error (.notPositive s)

end Objects

/-- The next section of a thread that is inside a call. -/
def Stage.advance (t : τ) (o : Objects τ) (st : Stage) :
    Option (Except Stop (Objects τ × Stage)) :=
  match st.call, st.pos with
  | some (.lockAcquire l), .called | some (.lockRelease l), .called =>
    some (.ok (o, { st with pos := .tested, answer := o.owner l = some t }))
  | some (.lockDoIHold l), .called =>
    some (.ok (o, { st with pos := .returned, answer := o.owner l = some t }))
  | some (.lockAcquire l), .tested =>
    some (if st.answer then .error (.alreadyHeld l) else .ok (o.acquire t l st))
  | some (.lockRelease l), .tested =>
    some (if st.answer then .ok (o.release t l, { st with pos := .returned })
      else .error (.notHeld l))
  -- interrupts stay off from the release of the lock to the sleep
  | some (.cvWait c l), .called =>
    some (if o.owner l = some t then
        .ok ((o.release t l).threadSleep t (.cv c), { st with pos := .woken, answer := true })
      else .error (.notHeld l))
  -- and from the end of the sleep into the loop of `lock_acquire`
  | some (.cvWait _ l), .woken =>
    some (if o.owner l = some t then .error (.alreadyHeld l)
      else .ok (o.acquire t l { st with answer := false }))
  | some (.lockAcquire l), .looping | some (.cvWait _ l), .looping =>
    some (.ok (o.acquire t l st))
  | some (.cvSignal c l), .called =>
    some (if o.owner l = some t then
        .ok (o.threadWakeOne (.cv c), { st with pos := .returned, answer := true })
      else .error (.notHeld l))
  | some (.cvBroadcast c l), .called =>
    some (if o.owner l = some t then
        .ok (o.threadWakeup (.cv c), { st with pos := .returned, answer := true })
      else .error (.notHeld l))
  | some (.P s), .called | some (.P s), .looping => some (o.down t s st)
  | some (.V s), .called => some ((o.up s).map fun o => (o, { st with pos := .returned }))
  | _, _ => none

end

/-! ### The system -/

structure System (τ : Type) where
  objects : Objects τ
  stages : τ → Stage

inductive Label (τ : Type) where
  | call (t : τ) (op : Op)
  | goOn (t : τ)
  | sleep (t : τ) (p : Ptr)
  | interrupt (s : Ptr)
  | wakeup (p : Ptr)
  | wakeOne (p : Ptr)

namespace System

variable {τ : Type} [DecidableEq τ]

def setStage (σ : System τ) (t : τ) (o : Objects τ) (st : Stage) : System τ :=
  ⟨o, Function.update σ.stages t st⟩

/-- `t` is awake and outside `synch.c`. -/
def Free (σ : System τ) (t : τ) : Prop :=
  (σ.stages t).pos = .returned ∧ ¬ σ.objects.Asleep t

instance (σ : System τ) (t : τ) : Decidable (σ.Free t) :=
  inferInstanceAs (Decidable (_ ∧ _))

def step (σ : System τ) : Label τ → Option (Except Stop (System τ))
  | .call t op =>
    if σ.Free t then
      some (.ok (σ.setStage t σ.objects ⟨some op, .called, (σ.stages t).answer⟩))
    else none
  | .goOn t =>
    if σ.objects.Asleep t then none
    else ((σ.stages t).advance t σ.objects).map
      (Except.map fun after => σ.setStage t after.1 after.2)
  | .sleep t p =>
    if σ.Free t then some (.ok { σ with objects := σ.objects.threadSleep t (.other p) }) else none
  | .interrupt s => some ((σ.objects.up s).map fun o => { σ with objects := o })
  | .wakeup p => some (.ok { σ with objects := σ.objects.threadWakeup (.other p) })
  | .wakeOne p => some (.ok { σ with objects := σ.objects.threadWakeOne (.other p) })

def next (σ : System τ) (label : Label τ) : Option (System τ) :=
  match σ.step label with
  | some (.ok after) => some after
  | _ => none

abbrev Step : System τ → Label τ → System τ → Prop := Computes System.next

def start (initial : Ptr → CInt) : System τ where
  objects := (Machine.start initial).objects
  stages := fun _ => ⟨none, .returned, false⟩

/-! ### What the steps are -/

variable {σ after : System τ} {t : τ}

theorem of_next_call {op : Op} (taken : σ.next (.call t op) = some after) :
    after = σ.setStage t σ.objects ⟨some op, .called, (σ.stages t).answer⟩ := by
  unfold next at taken
  split at taken
  next stepped =>
    cases taken
    simp only [step, Option.ite_none_right_eq_some, Option.some.injEq, Except.ok.injEq] at stepped
    exact stepped.2.symm
  next => cases taken

theorem of_next_goOn (taken : σ.next (.goOn t) = some after) :
    ¬ σ.objects.Asleep t ∧ ∃ o st,
      (σ.stages t).advance t σ.objects = some (.ok (o, st)) ∧ after = σ.setStage t o st := by
  unfold next at taken
  split at taken
  next stepped =>
    cases taken
    simp only [step, Option.ite_none_left_eq_some, Option.map_eq_some_iff] at stepped
    obtain ⟨awake, outcome, advanced, mapped⟩ := stepped
    cases outcome with
    | error why => cases mapped
    | ok moved =>
      cases mapped
      exact ⟨awake, moved.1, moved.2, advanced, rfl⟩
  next => cases taken

theorem of_next_sleep {p : Ptr} (taken : σ.next (.sleep t p) = some after) :
    after = { σ with objects := σ.objects.threadSleep t (.other p) } := by
  unfold next at taken
  split at taken
  next stepped =>
    cases taken
    simp only [step, Option.ite_none_right_eq_some, Option.some.injEq, Except.ok.injEq] at stepped
    exact stepped.2.symm
  next => cases taken

end System

/-- A thread outside `synch.c` has no section to execute. -/
theorem Stage.advance_returned {τ : Type} [DecidableEq τ] {t : τ} {o : Objects τ} {st : Stage}
    (returned : st.pos = .returned) : st.advance t o = none := by
  unfold Stage.advance
  split <;> simp_all

end Os161.Synch
