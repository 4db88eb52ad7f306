import Os161.Synch.Sound

/-!
# Statements add up to sections

A thread that has raised the interrupt level runs alone until it lowers it again or goes
to sleep: `finish` computes where that is. Whatever state the machine is in, finishing the
current section leads to a state of the system of sections, and that one is reachable too.
The nesting of `splhigh` and `splx` decides where a section ends: the `splx` of a function
called with interrupts off does not let them in.
-/
namespace Os161.Synch

open Foundation
open Function (update_of_ne update_self)
open Stmt (exec)
open Stage (advance)
open Objects (down returned setCount up)

variable {τ : Type} [DecidableEq τ]

/-- More of the same thread's work, unless it sleeps or stops. -/
def Outcome.bind (out : Outcome τ) (more : Objects τ → Spl → Frame → Outcome τ) : Outcome τ :=
  match out with
  | .next o spl frame => more o spl frame
  | .sleep o frame => .sleep o frame
  | .stop why => .stop why

/-- The statements that `t` executes before anyone else can. -/
def finish (t : τ) : List Stmt → Objects τ → Spl → Frame → Outcome τ
  | [], o, spl, frame => .next o spl frame
  | _ :: _, o, .zero, frame => .next o .zero frame
  | s :: rest, o, .high, frame =>
    (s.exec t o .high frame rest).bind fun o spl frame => finish t rest o spl frame

/-- A frame in which a thread can lose the processor at level `spl`, and the point in the
system of sections that corresponds to it. -/
inductive Fits : Frame → Spl → Stage → Prop
  | returned (call : Option Op) (answer : Bool) (spl : Spl) :
    Fits ⟨call, [], [], answer⟩ spl ⟨call, .returned, answer⟩
  | called (op : Op) (answer : Bool) :
    Fits ⟨some op, op.body, [], answer⟩ .zero ⟨some op, .called, answer⟩
  | acquireTested (l : Ptr) (answer : Bool) :
    Fits ⟨some (.lockAcquire l),
        [.panicIfHeld l, .splhigh, .whileOwned l, .assertFree l, .takeOwner l, .splx], [], answer⟩
      .zero ⟨some (.lockAcquire l), .tested, answer⟩
  | acquirePassed (l : Ptr) :
    Fits ⟨some (.lockAcquire l),
        [.splhigh, .whileOwned l, .assertFree l, .takeOwner l, .splx], [], false⟩
      .zero ⟨some (.lockAcquire l), .tested, false⟩
  | acquireLooping (l : Ptr) (spl : Spl) (answer : Bool) :
    Fits ⟨some (.lockAcquire l),
        [.whileOwned l, .assertFree l, .takeOwner l, .splx], [spl], answer⟩
      .high ⟨some (.lockAcquire l), .looping, answer⟩
  | releaseTested (l : Ptr) (answer : Bool) :
    Fits ⟨some (.lockRelease l),
        [.assertHeld l, .splhigh, .dropOwner l, .threadWakeup (.lock l), .splx], [], answer⟩
      .zero ⟨some (.lockRelease l), .tested, answer⟩
  | releasePassed (l : Ptr) :
    Fits ⟨some (.lockRelease l),
        [.splhigh, .dropOwner l, .threadWakeup (.lock l), .splx], [], true⟩
      .zero ⟨some (.lockRelease l), .tested, true⟩
  | waitWoken (c l : Ptr) (spl : Spl) (answer : Bool) :
    Fits ⟨some (.cvWait c l), lockAcquire l ++ [.splx], [spl], answer⟩
      .high ⟨some (.cvWait c l), .woken, answer⟩
  | waitLooping (c l : Ptr) (spl : Spl) (answer : Bool) :
    Fits ⟨some (.cvWait c l),
        [.whileOwned l, .assertFree l, .takeOwner l, .splx, .splx], [.high, spl], answer⟩
      .high ⟨some (.cvWait c l), .looping, answer⟩
  | downLooping (s : Ptr) (spl : Spl) (answer : Bool) :
    Fits ⟨some (.P s), [.whileZero s, .assertPositive s, .decrement s, .splx], [spl], answer⟩
      .high ⟨some (.P s), .looping, answer⟩

/-- As many calls of `P` and `V` have returned in the one as in the other. -/
def Objects.SameRecord (o o' : Objects τ) : Prop := o.ups = o'.ups ∧ o.downs = o'.downs

namespace System

abbrev Reaches : System τ → System τ → Prop :=
  Relation.ReflTransGen fun σ σ' => ∃ label, Step σ label σ'

/-- The outcome of a section of `t` is one that the system of sections can reach. -/
def Lands (σ : System τ) (t : τ) : Outcome τ → Prop
  | .next o spl frame => ∃ st, Fits frame spl st ∧ σ.Reaches (σ.setStage t o st)
  | .sleep o frame => ∃ st, Fits frame .high st ∧ σ.Reaches (σ.setStage t o st)
  | .stop why => ∃ σ' label, σ.Reaches σ' ∧ σ'.step label = some (.error why) ∧
      σ'.objects.SameRecord σ.objects ∧ ∀ u, u ≠ t → σ'.stages u = σ.stages u

variable {σ : System τ} {t : τ}

variable {st : Stage} {o : Objects τ}

theorem next_goOn (awake : ¬ σ.objects.Asleep t)
    (advanced : (σ.stages t).advance t σ.objects = some (.ok (o, st))) :
    Step σ (.goOn t) (σ.setStage t o st) := by
  simp [Computes, next, step, awake, advanced, Except.map]

theorem lands_next (awake : ¬ σ.objects.Asleep t) {frame : Frame} {spl : Spl}
    (advanced : (σ.stages t).advance t σ.objects = some (.ok (o, st))) (fits : Fits frame spl st) :
    σ.Lands t (.next o spl frame) :=
  ⟨st, fits, .single ⟨_, next_goOn awake advanced⟩⟩

theorem lands_sleep (awake : ¬ σ.objects.Asleep t) {frame : Frame}
    (advanced : (σ.stages t).advance t σ.objects = some (.ok (o, st)))
    (fits : Fits frame .high st) : σ.Lands t (.sleep o frame) :=
  ⟨st, fits, .single ⟨_, next_goOn awake advanced⟩⟩

theorem lands_stop (awake : ¬ σ.objects.Asleep t) {why : Stop}
    (advanced : (σ.stages t).advance t σ.objects = some (.error why)) : σ.Lands t (.stop why) :=
  ⟨σ, .goOn t, .refl, by simp [step, awake, advanced, Except.map], ⟨rfl, rfl⟩, fun _ _ => rfl⟩

/-- A statement that the system does not notice. -/
theorem lands_same {spl : Spl} {frame : Frame} (stage : σ.stages t = st)
    (fits : Fits frame spl st) : σ.Lands t (.next σ.objects spl frame) := by
  have same : σ.setStage t σ.objects st = σ := by
    rw [setStage, ← stage, Function.update_eq_self]
  refine ⟨st, fits, ?_⟩
  rw [same]

theorem Lands.after {out : Outcome τ} (before : σ.Reaches (σ.setStage t o st))
    (record : o.SameRecord σ.objects) (lands : (σ.setStage t o st).Lands t out) :
    σ.Lands t out := by
  have same : ∀ o' st', (σ.setStage t o st).setStage t o' st' = σ.setStage t o' st' := by
    intro o' st'
    simp [setStage]
  cases out with
  | next o' spl frame =>
    obtain ⟨st', fits, reaches⟩ := lands
    exact ⟨st', fits, before.trans (same o' st' ▸ reaches)⟩
  | sleep o' frame =>
    obtain ⟨st', fits, reaches⟩ := lands
    exact ⟨st', fits, before.trans (same o' st' ▸ reaches)⟩
  | stop why =>
    obtain ⟨σ', label, reaches, stepped, ⟨ups, downs⟩, others⟩ := lands
    refine ⟨σ', label, before.trans reaches, stepped,
      ⟨ups.trans record.1, downs.trans record.2⟩, ?_⟩
    intro u other
    simp [others u other, setStage, update_of_ne other]

/-! ### Section by section -/

section

variable (awake : ¬ σ.objects.Asleep t) (spl : Spl) (todo : List Stmt)

include awake spl todo

variable {answer : Bool}

private theorem lands_doIHold {l : Ptr}
    (stage : σ.stages t = ⟨some (.lockDoIHold l), .called, answer⟩) :
    σ.Lands t (finish t [.testOwner l, .splx] σ.objects .high
      ⟨some (.lockDoIHold l), todo, [spl], answer⟩) := by
  simp only [finish, Outcome.bind, exec, returned, List.headD_cons, List.tail_cons,
    if_true]
  exact lands_next awake (by simp [stage, advance]) (.returned ..)

/-- The loop of `P` and what follows it. -/
theorem lands_down {s : Ptr} {pos : Pos}
    (stage : σ.stages t = ⟨some (.P s), pos, answer⟩) (ready : pos = .called ∨ pos = .looping) :
    σ.Lands t (finish t [.whileZero s, .assertPositive s, .decrement s, .splx] σ.objects .high
      ⟨some (.P s), todo, [spl], answer⟩) := by
  have advanced : (σ.stages t).advance t σ.objects = some (σ.objects.down t s (σ.stages t)) := by
    rcases ready with rfl | rfl <;> simp [stage, advance]
  by_cases zero : σ.objects.count s = 0
  · simp only [down, zero, if_true, stage] at advanced
    simp only [finish, Outcome.bind, exec, zero, if_true]
    exact lands_sleep awake (by rw [stage, advanced]) (.downLooping ..)
  by_cases positive : 0 < (σ.objects.count s).toInt
  · simp only [down, zero, positive, if_true, if_false, stage] at advanced
    simp only [finish, Outcome.bind, exec, zero, positive, if_true, if_false,
      returned, List.headD_cons, List.tail_cons]
    exact lands_next awake (by rw [stage, advanced]) (.returned ..)
  · simp only [down, zero, positive, if_false, stage] at advanced
    simp only [finish, Outcome.bind, exec, zero, positive, if_false]
    exact lands_stop awake (by rw [stage, advanced])

private theorem lands_V {s : Ptr} (stage : σ.stages t = ⟨some (.V s), .called, answer⟩) :
    σ.Lands t (finish t [.increment s, .assertPositive s, .threadWakeup (.sem s), .splx]
      σ.objects .high ⟨some (.V s), todo, [spl], answer⟩) := by
  by_cases positive : 0 < (σ.objects.count s + 1).toInt
  · simp only [finish, Outcome.bind, exec, setCount, update_self, positive,
      if_true, returned, List.headD_cons, List.tail_cons]
    refine lands_next awake ?_ (.returned ..)
    simp only [stage, advance, up, positive, if_true, Except.map, setCount]
  simp only [finish, Outcome.bind, exec, setCount, update_self, positive,
    if_false]
  refine lands_stop awake ?_
  simp only [stage, advance, up, positive, if_false, Except.map]

/-- The loop of `lock_acquire` and what follows it, in `lock_acquire` itself and in
`cv_wait`. -/
theorem lands_acquire {l : Ptr} {st : Stage} {saved : List Spl} {rest : List Stmt}
    (advanced : (σ.stages t).advance t σ.objects = some (.ok (σ.objects.acquire t l st)))
    (nested : (st.call = some (.lockAcquire l) ∧ saved = [spl] ∧ rest = []) ∨
      ∃ c, st.call = some (.cvWait c l) ∧ saved = [.high, spl] ∧ rest = [.splx]) :
    σ.Lands t (finish t ([.whileOwned l, .assertFree l, .takeOwner l, .splx] ++ rest) σ.objects
      .high ⟨st.call, todo, saved, st.answer⟩) := by
  obtain ⟨call, pos, answer⟩ := st
  by_cases free : σ.objects.owner l = none
  · simp only [Objects.acquire, free, if_true] at advanced
    rcases nested with ⟨rfl, rfl, rfl⟩ | ⟨c, rfl, rfl, rfl⟩
    · simp only [finish, Outcome.bind, List.append_nil, exec, free, if_true, List.headD_cons,
        List.tail_cons]
      exact lands_next awake advanced (.returned ..)
    · simp only [finish, Outcome.bind, List.cons_append, List.nil_append, exec, free, if_true,
        List.headD_cons, List.tail_cons, reduceCtorEq, if_false]
      exact lands_next awake advanced (.returned ..)
  simp only [Objects.acquire, free, if_false] at advanced
  rcases nested with ⟨rfl, rfl, rfl⟩ | ⟨c, rfl, rfl, rfl⟩
  · simp only [finish, Outcome.bind, List.append_nil, exec, free, if_false]
    exact lands_sleep awake advanced (.acquireLooping ..)
  · simp only [finish, Outcome.bind, List.cons_append, List.nil_append, exec, free, if_false]
    exact lands_sleep awake advanced (.waitLooping ..)

theorem lands_release {l : Ptr} (stage : σ.stages t = ⟨some (.lockRelease l), .tested, true⟩) :
    σ.Lands t (finish t [.dropOwner l, .threadWakeup (.lock l), .splx] σ.objects .high
      ⟨some (.lockRelease l), todo, [spl], true⟩) := by
  simp only [finish, Outcome.bind, exec, returned, List.headD_cons, List.tail_cons,
    if_true]
  exact lands_next awake (by simp [stage, advance, Objects.release]) (.returned ..)

private theorem lands_wait {c l : Ptr}
    (stage : σ.stages t = ⟨some (.cvWait c l), .called, answer⟩) :
    σ.Lands t (finish t (lockRelease l ++ [.threadSleep (.cv c)] ++ lockAcquire l ++ [.splx])
      σ.objects .high ⟨some (.cvWait c l), todo, [spl], answer⟩) := by
  by_cases mine : σ.objects.owner l = some t
  · simp only [finish, Outcome.bind, lockRelease, lockDoIHold, List.cons_append, List.nil_append,
      exec, List.headD_cons, List.tail_cons, reduceCtorEq, if_false, mine, decide_true,
      if_true]
    refine lands_sleep awake ?_ (.waitWoken ..)
    simp [stage, advance, mine, Objects.release]
  · simp only [finish, Outcome.bind, lockRelease, lockDoIHold, List.cons_append, exec, mine]
    refine lands_stop awake ?_
    simp [stage, advance, mine]

end

section

variable (awake : ¬ σ.objects.Asleep t)

include awake

variable {answer : Bool}

private theorem lands_woken {c l : Ptr} (spl : Spl) (todo : List Stmt)
    (stage : σ.stages t = ⟨some (.cvWait c l), .woken, answer⟩) :
    σ.Lands t (finish t (lockAcquire l ++ [.splx]) σ.objects .high
      ⟨some (.cvWait c l), todo, [spl], answer⟩) := by
  by_cases mine : σ.objects.owner l = some t
  · simp only [finish, Outcome.bind, lockAcquire, lockDoIHold, List.cons_append, List.nil_append,
      exec, List.headD_cons, List.tail_cons, reduceCtorEq, if_false, mine, decide_true,
      if_true]
    refine lands_stop awake ?_
    simp [stage, advance, mine]
  have advanced : (σ.stages t).advance t σ.objects =
      some (.ok (σ.objects.acquire t l ⟨some (.cvWait c l), .woken, false⟩)) := by
    simp [stage, advance, mine]
  have lands := lands_acquire awake spl
    [.whileOwned l, .assertFree l, .takeOwner l, .splx, .splx] advanced (.inr ⟨c, rfl, rfl, rfl⟩)
  simp only [finish, Outcome.bind, lockAcquire, lockDoIHold, List.cons_append, exec,
    mine] at lands ⊢
  exact lands

/-- `cv_signal` and `cv_broadcast`. -/
theorem lands_wake {c l : Ptr} (spl : Spl) (todo : List Stmt) {op : Op}
    {wake : Stmt} (which : (op = .cvSignal c l ∧ wake = .threadWakeOne (.cv c)) ∨
      (op = .cvBroadcast c l ∧ wake = .threadWakeup (.cv c)))
    (stage : σ.stages t = ⟨some op, .called, answer⟩) :
    σ.Lands t (finish t (lockDoIHold l ++ [.assertHeld l, wake, .splx]) σ.objects .high
      ⟨some op, todo, [spl], answer⟩) := by
  by_cases mine : σ.objects.owner l = some t
  · rcases which with ⟨rfl, rfl⟩ | ⟨rfl, rfl⟩
    all_goals
      simp only [finish, Outcome.bind, lockDoIHold, List.cons_append, List.nil_append, exec,
        List.headD_cons, List.tail_cons, reduceCtorEq, if_false, mine, decide_true, if_true,
        returned]
      refine lands_next awake ?_ (.returned ..)
      simp [stage, advance, mine]
  rcases which with ⟨rfl, rfl⟩ | ⟨rfl, rfl⟩
  all_goals
    simp only [finish, Outcome.bind, lockDoIHold, List.cons_append, exec,
      mine]
    refine lands_stop awake ?_
    simp [stage, advance, mine]

/-- `lock_acquire` after `lock_do_i_hold`, when it has been called with interrupts off. -/
theorem lands_acquireTested {l : Ptr} (todo : List Stmt)
    (stage : σ.stages t = ⟨some (.lockAcquire l), .tested, answer⟩) :
    σ.Lands t (finish t
      [.panicIfHeld l, .splhigh, .whileOwned l, .assertFree l, .takeOwner l, .splx] σ.objects
      .high ⟨some (.lockAcquire l), todo, [], answer⟩) := by
  cases answer with
  | true =>
    exact lands_stop awake (by simp [stage, advance])
  | false =>
    have advanced : (σ.stages t).advance t σ.objects =
        some (.ok (σ.objects.acquire t l ⟨some (.lockAcquire l), .tested, false⟩)) := by
      simp [stage, advance]
    have lands := lands_acquire awake .high [.whileOwned l, .assertFree l, .takeOwner l, .splx]
      advanced (.inl ⟨rfl, rfl, rfl⟩)
    exact lands

/-- `lock_release` after `lock_do_i_hold`, when it has been called with interrupts off. -/
theorem lands_releaseTested {l : Ptr} (todo : List Stmt)
    (stage : σ.stages t = ⟨some (.lockRelease l), .tested, answer⟩) :
    σ.Lands t (finish t
      [.assertHeld l, .splhigh, .dropOwner l, .threadWakeup (.lock l), .splx] σ.objects
      .high ⟨some (.lockRelease l), todo, [], answer⟩) := by
  cases answer with
  | true =>
    have lands := lands_release awake .high [.dropOwner l, .threadWakeup (.lock l), .splx] stage
    exact lands
  | false =>
    exact lands_stop awake (by simp [stage, advance])

/-- The beginning of `lock_acquire` and of `lock_release`: with interrupts off before the call
there is no point to stop at after `lock_do_i_hold`. -/
theorem lands_test {l : Ptr} (spl : Spl) (todo : List Stmt) {op : Op}
    {rest : List Stmt} (which : (op = .lockAcquire l ∧
        rest = [.panicIfHeld l, .splhigh, .whileOwned l, .assertFree l, .takeOwner l, .splx]) ∨
      (op = .lockRelease l ∧
        rest = [.assertHeld l, .splhigh, .dropOwner l, .threadWakeup (.lock l), .splx]))
    (stage : σ.stages t = ⟨some op, .called, answer⟩) :
    σ.Lands t (finish t ([.testOwner l, .splx] ++ rest) σ.objects .high
      ⟨some op, todo, [spl], answer⟩) := by
  have advanced : (σ.stages t).advance t σ.objects =
      some (.ok (σ.objects, ⟨some op, .tested, σ.objects.owner l = some t⟩)) := by
    rcases which with ⟨rfl, -⟩ | ⟨rfl, -⟩ <;> simp only [stage, advance]
  cases spl with
  | zero =>
    rcases which with ⟨rfl, rfl⟩ | ⟨rfl, rfl⟩
    · exact lands_next awake advanced (.acquireTested ..)
    · exact lands_next awake advanced (.releaseTested ..)
  | high =>
    refine Lands.after (.single ⟨_, next_goOn awake advanced⟩) ⟨rfl, rfl⟩ ?_
    have still : ¬ (σ.setStage t σ.objects
        ⟨some op, .tested, σ.objects.owner l = some t⟩).objects.Asleep t := awake
    have now : (σ.setStage t σ.objects
        ⟨some op, .tested, σ.objects.owner l = some t⟩).stages t =
          ⟨some op, .tested, σ.objects.owner l = some t⟩ := update_self ..
    rcases which with ⟨rfl, rfl⟩ | ⟨rfl, rfl⟩
    · exact lands_acquireTested still
        [.panicIfHeld l, .splhigh, .whileOwned l, .assertFree l, .takeOwner l, .splx] now
    · exact lands_releaseTested still
        [.assertHeld l, .splhigh, .dropOwner l, .threadWakeup (.lock l), .splx] now

/-- The first section of a call made at level `spl`; with interrupts off, the whole call up to
its end or its sleep. -/
theorem lands_call {op : Op} (spl : Spl) (todo : List Stmt)
    (stage : σ.stages t = ⟨some op, .called, answer⟩) :
    σ.Lands t (finish t op.body.tail σ.objects .high ⟨some op, todo, [spl], answer⟩) := by
  cases op with
  | P s => exact lands_down awake spl todo stage (.inl rfl)
  | V s => exact lands_V awake spl todo stage
  | lockAcquire l => exact lands_test awake spl todo (.inl ⟨rfl, rfl⟩) stage
  | lockRelease l => exact lands_test awake spl todo (.inr ⟨rfl, rfl⟩) stage
  | lockDoIHold l => exact lands_doIHold awake spl todo stage
  | cvWait c l => exact lands_wait awake spl todo stage
  | cvSignal c l => exact lands_wake awake spl todo (.inl ⟨rfl, rfl⟩) stage
  | cvBroadcast c l => exact lands_wake awake spl todo (.inr ⟨rfl, rfl⟩) stage

end

end System

/-! ### The machine follows the system -/

theorem finish_zero (t : τ) (todo : List Stmt) (o : Objects τ) (frame : Frame) :
    finish t todo o .zero frame = .next o .zero frame := by
  cases todo <;> rfl

theorem Op.body_eq (op : Op) : op.body = .splhigh :: op.body.tail := by
  cases op <;> rfl

theorem Fits.outside {frame : Frame} {spl : Spl} {st : Stage} (fits : Fits frame spl st)
    (nothing : frame.todo = []) :
    frame = ⟨st.call, [], [], st.answer⟩ ∧ st.pos = .returned := by
  cases fits with
  | returned call answer => exact ⟨rfl, rfl⟩
  | called op answer =>
    rw [op.body_eq] at nothing
    cases nothing
  | _ => cases nothing

section

variable {t : τ} {o o' : Objects τ} {spl spl' : Spl} {frame frame' : Frame} {rest : List Stmt}
  {s : Stmt} (done : s.exec t o spl frame rest = .next o' spl' frame')

include done

/-- A statement that neither sleeps nor stops leaves what was to follow it. -/
theorem Stmt.todo_of_exec : frame'.todo = rest := by
  cases s <;> simp only [exec] at done <;> try split at done
  all_goals
    cases done
    try rfl

theorem Stmt.sleepers_of_exec : o'.sleepers.Sublist o.sleepers := by
  have same := List.Sublist.refl o.sleepers
  cases s <;> simp only [exec] at done
  case threadWakeup a =>
    cases done
    exact List.filter_sublist
  case threadWakeOne a =>
    cases done
    exact List.eraseP_sublist
  case splx =>
    cases done
    split
    · rcases frame with ⟨_ | op, _⟩
      · exact same
      · cases op <;> exact same
    · exact same
  all_goals
    try split at done
    all_goals
      cases done
      try exact same

theorem Stmt.record_of_exec (more : rest ≠ []) : o.SameRecord o' := by
  cases s <;> simp only [exec, more, if_false] at done <;> try split at done
  all_goals
    cases done
    try exact ⟨rfl, rfl⟩

end

namespace Machine

/-- All threads but `t` are where the system has them. -/
def OthersFit (m : Machine τ) (σ : System τ) (t : τ) : Prop :=
  ∀ u, u ≠ t → Fits (m.frames u) (m.levels u) (σ.stages u)

/-- The system is where a section of `t` with this outcome ends. -/
def Ends (m : Machine τ) (σ : System τ) (t : τ) : Outcome τ → Prop
  | .next o spl frame => σ.objects = o ∧ Fits frame spl (σ.stages t) ∧ m.OthersFit σ t
  | .sleep o frame => σ.objects = o ∧ Fits frame .high (σ.stages t) ∧ m.OthersFit σ t
  | .stop why => (∃ label, σ.step label = some (.error why)) ∧
      σ.objects.SameRecord m.objects ∧ m.OthersFit σ t

/-- The system is where the machine is, or will be when the current section is finished. -/
def Follows (m : Machine τ) (σ : System τ) : Prop :=
  match m.stopped, m.curthread with
  | some why, _ => (∃ label, σ.step label = some (.error why)) ∧ σ.objects.SameRecord m.objects
  | none, none => σ.objects = m.objects ∧ ∀ u, Fits (m.frames u) (m.levels u) (σ.stages u)
  | none, some t => ¬ m.objects.Asleep t ∧
      m.Ends σ t (finish t (m.frames t).todo m.objects m.curspl (m.frames t))

variable {m after : Machine τ} {σ : System τ} {t : τ}

variable {out : Outcome τ}

/-- A section that lands somewhere in the system ends there. -/
theorem ends_of_lands (others : m.OthersFit σ t) (objects : σ.objects = m.objects)
    (lands : σ.Lands t out) : ∃ σ', σ.Reaches σ' ∧ m.Ends σ' t out := by
  have fits : ∀ o st, m.OthersFit (σ.setStage t o st) t := by
    intro o st u other
    simpa only [System.setStage, update_of_ne other] using others u other
  cases out with
  | next o spl frame =>
    obtain ⟨st, here, reaches⟩ := lands
    refine ⟨_, reaches, rfl, ?_, fits o st⟩
    simpa only [System.setStage, update_self] using here
  | sleep o frame =>
    obtain ⟨st, here, reaches⟩ := lands
    refine ⟨_, reaches, rfl, ?_, fits o st⟩
    simpa only [System.setStage, update_self] using here
  | stop why =>
    obtain ⟨σ', label, reaches, stepped, record, same⟩ := lands
    refine ⟨σ', reaches, ⟨label, stepped⟩, objects ▸ record, ?_⟩
    intro u other
    rw [same u other]
    exact others u other

omit [DecidableEq τ] in
theorem OthersFit.mono (others : m.OthersFit σ t)
    (frames : ∀ u, u ≠ t → after.frames u = m.frames u)
    (levels : ∀ u, u ≠ t → after.levels u = m.levels u) : after.OthersFit σ t := by
  intro u other
  rw [frames u other, levels u other]
  exact others u other

theorem Ends.mono (ends : m.Ends σ t out)
    (frames : ∀ u, u ≠ t → after.frames u = m.frames u)
    (levels : ∀ u, u ≠ t → after.levels u = m.levels u)
    (record : ∀ why, out = .stop why → m.objects.SameRecord after.objects) :
    after.Ends σ t out := by
  cases out with
  | next o spl frame => exact ⟨ends.1, ends.2.1, ends.2.2.mono frames levels⟩
  | sleep o frame => exact ⟨ends.1, ends.2.1, ends.2.2.mono frames levels⟩
  | stop why =>
    obtain ⟨stepped, ⟨ups, downs⟩, others⟩ := ends
    have same := record why rfl
    exact ⟨stepped, ⟨ups.trans same.1, downs.trans same.2⟩, others.mono frames levels⟩

theorem Ends.others (ends : m.Ends σ t out) : m.OthersFit σ t := by
  cases out with
  | next o spl frame => exact ends.2.2
  | sleep o frame => exact ends.2.2
  | stop why => exact ends.2.2

/-- The state after one statement of `t`, if the section that is then left ends in `σ`. -/
theorem follows_apply (running : m.stopped = none) (current : m.curthread = some t)
    (awake : ¬ m.objects.Asleep t) {s : Stmt} {rest : List Stmt}
    (ends : m.Ends σ t ((s.exec t m.objects m.curspl (m.frames t) rest).bind (finish t rest)))
    (level : ∀ o frame, s.exec t m.objects m.curspl (m.frames t) rest = .sleep o frame →
      m.curspl = .high) :
    (m.apply t (s.exec t m.objects m.curspl (m.frames t) rest)).Follows σ := by
  have frames : ∀ frame u, u ≠ t → Function.update m.frames t frame u = m.frames u :=
    fun frame u other => update_of_ne other ..
  cases done : s.exec t m.objects m.curspl (m.frames t) rest with
  | next o spl frame =>
    rw [done] at ends
    have left := Stmt.todo_of_exec done
    have fewer := Stmt.sleepers_of_exec done
    simp only [Follows, apply, setFrame, running, current, update_self, left]
    refine ⟨?_, ends.mono (frames frame) (fun _ _ => rfl) ?_⟩
    · rintro ⟨e, member, same⟩
      exact awake ⟨e, fewer.mem member, same⟩
    -- a call is recorded by its last statement, after which nothing can stop it
    intro why stops
    have more : rest ≠ [] := by
      rintro rfl
      cases stops
    exact Stmt.record_of_exec done more
  | sleep o frame =>
    rw [done] at ends
    obtain ⟨objects, here, others⟩ := ends
    simp only [Follows, apply, setFrame, switchOut, running]
    refine ⟨objects, ?_⟩
    intro u
    by_cases me : u = t
    · subst me
      simpa only [update_self, level o frame done] using here
    · simpa only [update_of_ne me] using others u me
  | stop why =>
    rw [done] at ends
    exact ⟨ends.1, ends.2.1⟩

/-- Where the current thread can lose the processor, the system has it where it is. -/
theorem Follows.settled (follows : m.Follows σ) (running : m.stopped = none)
    (current : m.curthread = some t) (quiet : m.Outside t ∨ m.curspl = .zero) :
    ¬ m.objects.Asleep t ∧ σ.objects = m.objects ∧ Fits (m.frames t) m.curspl (σ.stages t) ∧
      m.OthersFit σ t := by
  simp only [Follows, running, current] at follows
  obtain ⟨awake, ends⟩ := follows
  refine ⟨awake, ?_⟩
  rcases quiet with outside | zero
  · rw [show (m.frames t).todo = [] from outside] at ends
    exact ends
  · rw [zero, finish_zero] at ends
    rw [zero]
    exact ends

theorem follows_of_settled (running : m.stopped = none) (current : m.curthread = some t)
    (quiet : m.Outside t ∨ m.curspl = .zero) (awake : ¬ m.objects.Asleep t)
    (objects : σ.objects = m.objects) (here : Fits (m.frames t) m.curspl (σ.stages t))
    (others : m.OthersFit σ t) : m.Follows σ := by
  simp only [Follows, running, current]
  refine ⟨awake, ?_⟩
  rcases quiet with outside | zero
  · rw [show (m.frames t).todo = [] from outside]
    exact ⟨objects, here, others⟩
  · rw [zero, finish_zero]
    rw [zero] at here
    exact ⟨objects, here, others⟩

section

variable (follows : m.Follows σ) (running : m.stopped = none)

include follows running

/-- A statement executed with interrupts on: either it is one of the two tests, or it is the
`splhigh` that begins the next section. -/
theorem Follows.run_zero (current : m.curthread = some t) (zero : m.curspl = .zero) {s : Stmt}
    {rest : List Stmt} (todo : (m.frames t).todo = s :: rest) :
    ∃ σ', σ.Reaches σ' ∧
      (m.apply t (s.exec t m.objects m.curspl (m.frames t) rest)).Follows σ' := by
  obtain ⟨awake, objects, here, others⟩ := follows.settled running current (.inr zero)
  have awake' : ¬ σ.objects.Asleep t := objects ▸ awake
  suffices lands : σ.Lands t
      ((s.exec t m.objects m.curspl (m.frames t) rest).bind (finish t rest)) ∧
      (∀ o frame, s.exec t m.objects m.curspl (m.frames t) rest ≠ .sleep o frame) by
    obtain ⟨σ', reaches, ends⟩ := ends_of_lands others objects lands.1
    exact ⟨σ', reaches, follows_apply running current awake ends
      fun o frame slept => absurd slept (lands.2 o frame)⟩
  rw [zero] at here ⊢
  rw [← objects]
  generalize m.frames t = frame at here todo
  generalize stage : σ.stages t = st at here
  cases here with
  | returned call answer => cases todo
  | called op answer =>
    rw [op.body_eq] at todo
    cases todo
    exact ⟨System.lands_call awake' .zero _ stage, by simp [exec]⟩
  | acquireTested l answer =>
    cases todo
    cases answer with
    | true =>
      refine ⟨System.lands_stop awake' ?_, by simp [exec]⟩
      simp [stage, advance]
    | false =>
      refine ⟨?_, by simp [exec]⟩
      exact System.lands_same stage (.acquirePassed l)
  | acquirePassed l =>
    cases todo
    have advanced : (σ.stages t).advance t σ.objects =
        some (.ok (σ.objects.acquire t l ⟨some (.lockAcquire l), .tested, false⟩)) := by
      simp [stage, advance]
    exact ⟨System.lands_acquire awake' .zero _ advanced (.inl ⟨rfl, rfl, rfl⟩),
      by simp [exec]⟩
  | releaseTested l answer =>
    cases todo
    cases answer with
    | true =>
      refine ⟨?_, by simp [exec]⟩
      exact System.lands_same stage (.releasePassed l)
    | false =>
      refine ⟨System.lands_stop awake' ?_, by simp [exec]⟩
      simp [stage, advance]
  | releasePassed l =>
    cases todo
    exact ⟨System.lands_release awake' .zero _ stage, by simp [exec]⟩

/-- A statement executed with interrupts off is part of a section that is already counted. -/
theorem Follows.run_high (current : m.curthread = some t) (high : m.curspl = .high) {s : Stmt}
    {rest : List Stmt} (todo : (m.frames t).todo = s :: rest) :
    (m.apply t (s.exec t m.objects m.curspl (m.frames t) rest)).Follows σ := by
  simp only [Follows, running, current] at follows
  obtain ⟨awake, ends⟩ := follows
  refine follows_apply running current awake ?_ fun _ _ _ => high
  rw [todo, high] at ends
  rw [high]
  exact ends

theorem Follows.call (current : m.curthread = some t) (outside : m.Outside t) (op : Op) :
    ∃ σ', σ.Reaches σ' ∧
      (m.setFrame t ⟨some op, op.body, [], (m.frames t).answer⟩).Follows σ' := by
  obtain ⟨awake, objects, here, others⟩ := follows.settled running current (.inl outside)
  obtain ⟨frame, pos⟩ := here.outside outside
  have answer : (m.frames t).answer = (σ.stages t).answer := by rw [frame]
  rw [answer]
  have awake' : ¬ σ.objects.Asleep t := objects ▸ awake
  have free : σ.Free t := ⟨pos, awake'⟩
  -- the call itself
  have called : System.Step σ (.call t op)
      (σ.setStage t σ.objects ⟨some op, .called, (σ.stages t).answer⟩) := by
    simp [Computes, System.next, System.step, free]
  have stage : (σ.setStage t σ.objects ⟨some op, .called, (σ.stages t).answer⟩).stages t =
      ⟨some op, .called, (σ.stages t).answer⟩ := update_self ..
  have others' : m.OthersFit
      (σ.setStage t σ.objects ⟨some op, .called, (σ.stages t).answer⟩) t := by
    intro u other
    simpa only [System.setStage, update_of_ne other] using others u other
  have frames : ∀ frame u, u ≠ t → Function.update m.frames t frame u = m.frames u :=
    fun frame u other => update_of_ne other ..
  cases level : m.curspl with
  | zero =>
    refine ⟨_, .single ⟨_, called⟩, follows_of_settled running current (.inr level) awake objects ?_
      (others'.mono (frames _) fun _ _ => rfl)⟩
    rw [stage]
    simp only [setFrame, update_self, level]
    exact .called op _
  | high =>
    -- nothing can come in between, so the call goes on at once
    have still : ¬ (σ.setStage t σ.objects
        ⟨some op, .called, (σ.stages t).answer⟩).objects.Asleep t := awake'
    have lands := System.lands_call still .high op.body.tail stage
    obtain ⟨σ', reaches, ends⟩ := ends_of_lands others' objects lands
    refine ⟨σ', .head ⟨_, called⟩ reaches, ?_⟩
    simp only [Follows, setFrame, running, current, update_self, level]
    refine ⟨awake, ?_⟩
    rw [op.body_eq, ← objects]
    exact ends.mono (frames _) (fun _ _ => rfl) fun _ _ => by rw [objects]; exact ⟨rfl, rfl⟩

/-- The scheduler picks a thread, which goes on where it has stopped. -/
theorem Follows.dispatch (idle : m.curthread = none) (awake : ¬ m.objects.Asleep t) :
    ∃ σ', σ.Reaches σ' ∧ { m with curthread := some t, curspl := m.levels t }.Follows σ' := by
  simp only [Follows, running, idle] at follows
  obtain ⟨objects, fits⟩ := follows
  have awake' : ¬ σ.objects.Asleep t := objects ▸ awake
  have others : m.OthersFit σ t := fun u _ => fits u
  suffices lands : σ.Lands t (finish t (m.frames t).todo m.objects (m.levels t) (m.frames t)) by
    obtain ⟨σ', reaches, ends⟩ := ends_of_lands others objects lands
    refine ⟨σ', reaches, ?_⟩
    simp only [Follows, running]
    exact ⟨awake, ends.mono (fun _ _ => rfl) (fun _ _ => rfl) fun _ _ => ⟨rfl, rfl⟩⟩
  have here := fits t
  rw [← objects]
  generalize m.frames t = frame at here ⊢
  generalize stage : σ.stages t = st at here
  generalize m.levels t = level at here ⊢
  cases level with
  | zero =>
    rw [finish_zero]
    exact System.lands_same stage here
  | high =>
    cases here with
    | returned call answer => exact System.lands_same stage (.returned ..)
    | acquireLooping l spl answer =>
      have advanced : (σ.stages t).advance t σ.objects =
          some (.ok (σ.objects.acquire t l ⟨some (.lockAcquire l), .looping, answer⟩)) := by
        simp [stage, advance]
      exact System.lands_acquire awake' spl _ advanced (.inl ⟨rfl, rfl, rfl⟩)
    | waitWoken c l spl answer => exact System.lands_woken awake' spl _ stage
    | waitLooping c l spl answer =>
      have advanced : (σ.stages t).advance t σ.objects =
          some (.ok (σ.objects.acquire t l ⟨some (.cvWait c l), .looping, answer⟩)) := by
        simp [stage, advance]
      exact System.lands_acquire awake' spl _ advanced (.inr ⟨c, rfl, rfl, rfl⟩)
    | downLooping s spl answer => exact System.lands_down awake' spl _ stage (.inr rfl)

theorem Follows.switchOut (current : m.curthread = some t)
    (quiet : m.Outside t ∨ m.curspl = .zero) : (m.switchOut t).Follows σ := by
  obtain ⟨awake, objects, here, others⟩ := follows.settled running current quiet
  simp only [Follows, Machine.switchOut, running]
  refine ⟨objects, ?_⟩
  intro u
  by_cases me : u = t
  · subst me
    simpa only [update_self] using here
  · simpa only [update_of_ne me] using others u me

end

section

variable (follows : m.Follows σ) (settled : m.Settled)

include follows settled

theorem Follows.setObjects {o : Objects τ} (fewer : o.sleepers.Sublist m.objects.sleepers) :
    { m with objects := o }.Follows { σ with objects := o } := by
  obtain ⟨running, quiet⟩ := settled
  cases current : m.curthread with
  | none =>
    simp only [Follows, running, current] at follows ⊢
    exact ⟨trivial, follows.2⟩
  | some t =>
    obtain ⟨awake, -, here, others⟩ := follows.settled running current (quiet t current)
    have awake' : ¬ o.Asleep t := by
      rintro ⟨e, member, same⟩
      exact awake ⟨e, fewer.mem member, same⟩
    rw [← current]
    exact follows_of_settled running current (quiet t current) awake' rfl here others

theorem Follows.objects : σ.objects = m.objects := by
  obtain ⟨running, quiet⟩ := settled
  cases current : m.curthread with
  | none =>
    simp only [Follows, running, current] at follows
    exact follows.1
  | some t => exact (follows.settled running current (quiet t current)).2.1

theorem Follows.handlerV (s : Ptr) : ∃ σ', σ.Reaches σ' ∧ (m.handlerV s).Follows σ' := by
  have objects := follows.objects settled
  cases outcome : m.objects.up s with
  | ok o =>
    have stepped : System.Step σ (.interrupt s) { σ with objects := o } := by
      simp [Computes, System.next, System.step, objects, outcome, Except.map]
    have fewer : o.sleepers.Sublist m.objects.sleepers := by
      unfold up at outcome
      split at outcome
      · cases outcome
        exact List.filter_sublist
      · cases outcome
    refine ⟨_, .single ⟨_, stepped⟩, ?_⟩
    simp only [Machine.handlerV, outcome]
    exact follows.setObjects settled fewer
  | error why =>
    refine ⟨σ, .refl, ?_⟩
    simp only [Machine.handlerV, outcome, Follows]
    rw [objects]
    exact ⟨⟨.interrupt s, by simp [System.step, objects, outcome, Except.map]⟩, rfl, rfl⟩

theorem Follows.wakeup (p : Ptr) :
    ∃ σ', σ.Reaches σ' ∧ { m with objects := m.objects.threadWakeup (.other p) }.Follows σ' := by
  have objects := follows.objects settled
  refine ⟨_, .single ⟨.wakeup p, ?_⟩, follows.setObjects settled List.filter_sublist⟩
  simp [Computes, System.next, System.step, objects]

theorem Follows.wakeOne (p : Ptr) :
    ∃ σ', σ.Reaches σ' ∧ { m with objects := m.objects.threadWakeOne (.other p) }.Follows σ' := by
  have objects := follows.objects settled
  refine ⟨_, .single ⟨.wakeOne p, ?_⟩, follows.setObjects settled List.eraseP_sublist⟩
  simp [Computes, System.next, System.step, objects]

end

/-- A thread outside `synch.c` goes to sleep. -/
theorem Follows.sleep (follows : m.Follows σ) (running : m.stopped = none)
    (current : m.curthread = some t) (outside : m.Outside t) (p : Ptr) : ∃ σ', σ.Reaches σ' ∧
      ({ m with objects := m.objects.threadSleep t (.other p) }.switchOut t).Follows σ' := by
  obtain ⟨awake, objects, here, others⟩ := follows.settled running current (.inl outside)
  have free : σ.Free t := ⟨(here.outside outside).2, objects ▸ awake⟩
  refine ⟨{ σ with objects := σ.objects.threadSleep t (.other p) }, .single ⟨.sleep t p, ?_⟩, ?_⟩
  · simp [Computes, System.next, System.step, free]
  simp only [Follows, Machine.switchOut, running, objects]
  refine ⟨trivial, ?_⟩
  intro u
  by_cases me : u = t
  · subst me
    simpa only [update_self] using here
  · simpa only [update_of_ne me] using others u me

/-- The events that can happen while the kernel runs, with the state after each. -/
inductive Happens (m : Machine τ) : Event τ → Machine τ → Prop
  | call {t : τ} (op : Op) (current : m.curthread = some t) (outside : m.Outside t) :
    Happens m (.call op) (m.setFrame t ⟨some op, op.body, [], (m.frames t).answer⟩)
  | run {t : τ} {s : Stmt} {rest : List Stmt} (current : m.curthread = some t)
      (todo : (m.frames t).todo = s :: rest) :
    Happens m .run (m.apply t (s.exec t m.objects m.curspl (m.frames t) rest))
  | spl {t : τ} (level : Spl) (current : m.curthread = some t) (outside : m.Outside t) :
    Happens m (.spl level) { m with curspl := level }
  | sleep {t : τ} (p : Ptr) (current : m.curthread = some t) (outside : m.Outside t) :
    Happens m (.sleep p) ({ m with objects := m.objects.threadSleep t (.other p) }.switchOut t)
  | yield {t : τ} (current : m.curthread = some t) (quiet : m.Outside t ∨ m.curspl = .zero) :
    Happens m .yield (m.switchOut t)
  | dispatch (t : τ) (idle : m.curthread = none) (awake : ¬ m.objects.Asleep t) :
    Happens m (.dispatch t) { m with curthread := some t, curspl := m.levels t }
  | interrupt (s : Ptr) (settled : m.Settled) : Happens m (.interrupt s) (m.handlerV s)
  | wakeup (p : Ptr) (settled : m.Settled) :
    Happens m (.wakeup p) { m with objects := m.objects.threadWakeup (.other p) }
  | wakeOne (p : Ptr) (settled : m.Settled) :
    Happens m (.wakeOne p) { m with objects := m.objects.threadWakeOne (.other p) }

theorem happens_of_next {event : Event τ} (taken : m.next event = some after) :
    m.stopped = none ∧ m.Happens event after := by
  unfold Machine.next at taken
  split at taken
  next => cases taken
  next t running current =>
    have settled (quiet : m.Outside t ∨ m.curspl = .zero) : m.Settled := by
      refine ⟨running, fun u now => ?_⟩
      cases current.symm.trans now
      exact quiet
    refine ⟨running, ?_⟩
    cases event <;> simp only [threadStep, Option.ite_none_right_eq_some, Option.some.injEq,
      reduceCtorEq] at taken
    case run =>
      split at taken
      · cases taken
      next s rest todo =>
        cases taken
        exact .run current todo
    all_goals obtain ⟨quiet, rfl⟩ := taken
    case call op => exact .call op current quiet
    case spl level => exact .spl level current quiet
    case sleep p => exact .sleep p current quiet.1
    case yield => exact .yield current quiet
    case wakeup p => exact .wakeup p (settled quiet)
    case wakeOne p => exact .wakeOne p (settled quiet)
    case interrupt s => exact .interrupt s (settled (.inr quiet))
  next running idle =>
    have settled : m.Settled := ⟨running, fun u now => by cases idle.symm.trans now⟩
    refine ⟨running, ?_⟩
    cases event <;> simp only [idleStep, Option.ite_none_left_eq_some, Option.some.injEq,
      reduceCtorEq] at taken
    case dispatch t =>
      obtain ⟨awake, rfl⟩ := taken
      exact .dispatch t idle awake
    all_goals cases taken
    case interrupt s => exact .interrupt s settled
    case wakeup p => exact .wakeup p settled
    case wakeOne p => exact .wakeOne p settled

/-- Every event of the machine. -/
theorem Follows.next (follows : m.Follows σ) {event : Event τ}
    (taken : m.next event = some after) : ∃ σ', σ.Reaches σ' ∧ after.Follows σ' := by
  obtain ⟨running, happens⟩ := happens_of_next taken
  cases happens with
  | call op current outside => exact follows.call running current outside op
  | run current todo =>
    cases level : m.curspl with
    | zero => exact level ▸ follows.run_zero running current level todo
    | high => exact ⟨σ, .refl, level ▸ follows.run_high running current level todo⟩
  | @spl t level current outside =>
    obtain ⟨awake, objects, here, others⟩ := follows.settled running current (.inl outside)
    obtain ⟨frame, pos⟩ := here.outside outside
    refine ⟨σ, .refl, follows_of_settled running current (.inl outside) awake objects ?_ others⟩
    rw [frame]
    generalize σ.stages t = st at pos
    obtain ⟨call, _, answer⟩ := st
    cases pos
    exact .returned call answer level
  | sleep p current outside => exact follows.sleep running current outside p
  | yield current quiet => exact ⟨σ, .refl, follows.switchOut running current quiet⟩
  | dispatch t idle awake => exact follows.dispatch running idle awake
  | interrupt s settled => exact follows.handlerV settled s
  | wakeup p settled => exact follows.wakeup settled p
  | wakeOne p settled => exact follows.wakeOne settled p

/-- The machine follows a reachable state of the system. -/
def Simulated (initial : Ptr → CInt) (m : Machine τ) : Prop :=
  ∃ σ, (System.start initial).Reaches σ ∧ m.Follows σ

/-- The code, statement by statement, refines the system of sections. -/
theorem simulated_of_run {initial : Ptr → CInt} {history : List (Machine τ × Event τ)}
    (run : Run Machine.Step (Machine.start initial) history m) : m.Simulated initial := by
  refine run.invariant ⟨_, .refl, ?_⟩ ?_
  · exact ⟨rfl, fun u => .returned none false .zero⟩
  · rintro m event after ⟨σ, before, follows⟩ taken
    obtain ⟨σ', reaches, now⟩ := follows.next taken
    exact ⟨σ', before.trans reaches, now⟩

end Machine

end Os161.Synch
