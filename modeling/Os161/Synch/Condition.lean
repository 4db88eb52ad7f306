import Mathlib.Data.List.Infix
import Os161.Synch.Locks

/-!
# Condition variables

Here the states inside a section matter too: `cv_wait` gives up the lock some statements
before it is in the sleepers array. The level it has raised at its beginning outlasts the
`splx` of the `lock_release` it calls, so nobody else can run in between.
-/
namespace Os161.Synch

open Foundation

variable {τ : Type} [DecidableEq τ] {initial : Ptr → CInt}

/-- The ends of a list past an element they do not contain. -/
theorem suffix_of_not_mem {α : Type} {x : α} {l front back : List α}
    (suffix : l <:+ front ++ x :: back) (absent : x ∉ l) : l <:+ back := by
  induction front with
  | nil =>
    rcases List.suffix_cons_iff.mp suffix with rfl | shorter
    · exact absurd List.mem_cons_self absent
    · exact shorter
  | cons first front ih =>
    rcases List.suffix_cons_iff.mp suffix with rfl | shorter
    · exact absurd (by simp) absent
    · exact ih shorter

/-! ### What an event does to the sleepers -/

/-- The sleepers are the same, and the record of when they went to sleep. -/
def Objects.SameSleepers (o o' : Objects τ) : Prop :=
  o'.sleepers = o.sleepers ∧ o'.since = o.since ∧ o'.naps = o.naps

omit [DecidableEq τ] in
theorem Objects.Ordered.of_same {o o' : Objects τ} (ordered : o.Ordered)
    (same : o.SameSleepers o') : o'.Ordered :=
  ordered.of_sublist (same.1 ▸ List.Sublist.refl _) same.2.1 same.2.2

theorem Objects.sameSleepers_returned (o : Objects τ) (t : τ) (call : Option Op) :
    o.SameSleepers (o.returned t call) := by
  rcases call with _ | op
  · exact ⟨rfl, rfl, rfl⟩
  · cases op <;> exact ⟨rfl, rfl, rfl⟩

/-- What one statement of `t` does to them. -/
inductive Stmt.Stirs (t : τ) (o : Objects τ) : Stmt → Objects τ → Prop
  | same (s : Stmt) {o' : Objects τ} (same : o.SameSleepers o') : Stirs t o s o'
  | sleep (s : Stmt) (a : Addr) : Stirs t o s (o.threadSleep t a)
  | wakeup (a : Addr) : Stirs t o (.threadWakeup a) (o.threadWakeup a)
  | wakeOne (a : Addr) : Stirs t o (.threadWakeOne a) (o.threadWakeOne a)

/-- The objects that a statement leaves, if it does not stop the kernel. -/
def Outcome.objects : Outcome τ → Option (Objects τ)
  | .next o _ _ => some o
  | .sleep o _ => some o
  | .stop _ => none

theorem Stmt.stirs_of_exec {t : τ} {o o' : Objects τ} {spl : Spl} {frame : Frame}
    {rest : List Stmt} {s : Stmt} (done : (s.exec t o spl frame rest).objects = some o') :
    s.Stirs t o o' := by
  cases s with
  | splx =>
    cases done
    split
    · exact .same _ (o.sameSleepers_returned t _)
    · exact .same _ ⟨rfl, rfl, rfl⟩
  | threadSleep a =>
    cases done
    exact .sleep _ a
  | threadWakeup a =>
    cases done
    exact .wakeup a
  | threadWakeOne a =>
    cases done
    exact .wakeOne a
  | whileOwned l =>
    simp only [Stmt.exec] at done
    split at done
    · cases done
      exact .same _ ⟨rfl, rfl, rfl⟩
    · cases done
      exact .sleep _ _
  | whileZero s =>
    simp only [Stmt.exec] at done
    split at done
    · cases done
      exact .sleep _ _
    · cases done
      exact .same _ ⟨rfl, rfl, rfl⟩
  | _ =>
    simp only [Stmt.exec] at done
    try split at done
    all_goals
      cases done
      try exact .same _ ⟨rfl, rfl, rfl⟩

namespace Machine

variable {m after : Machine τ} {event : Event τ}

/-- The event takes threads that sleep on the address out of the array. -/
def Wakes (m : Machine τ) : Event τ → Addr → Prop
  | .run, a => ∃ t rest, m.curthread = some t ∧
      ((m.frames t).todo = .threadWakeup a :: rest ∨ (m.frames t).todo = .threadWakeOne a :: rest)
  | .interrupt s, a => a = .sem s
  | .wakeup p, a | .wakeOne p, a => a = .other p
  | _, _ => False

/-- What an event does to the sleepers. -/
inductive Stirs (m : Machine τ) (event : Event τ) (o : Objects τ) : Prop
  | same (same : m.objects.SameSleepers o)
  | sleep (t : τ) (a : Addr) (current : m.curthread = some t)
      (slept : o = m.objects.threadSleep t a)
  | wakeup (a : Addr) (wakes : m.Wakes event a) (same : (m.objects.threadWakeup a).SameSleepers o)
  | wakeOne (a : Addr) (wakes : m.Wakes event a)
      (same : (m.objects.threadWakeOne a).SameSleepers o)

private theorem stirs_handlerV (s : Ptr) : m.Stirs (.interrupt s) (m.handlerV s).objects := by
  unfold handlerV Objects.up
  split
  next o done =>
    split at done
    · cases done
      exact .wakeup (.sem s) rfl ⟨rfl, rfl, rfl⟩
    · cases done
  next => exact .same ⟨rfl, rfl, rfl⟩

private theorem stirs_apply {t : τ} (current : m.curthread = some t) {s : Stmt} {rest : List Stmt}
    (todo : (m.frames t).todo = s :: rest) :
    m.Stirs .run (m.apply t (s.exec t m.objects m.curspl (m.frames t) rest)).objects := by
  have moved : ∀ o', s.Stirs t m.objects o' → m.Stirs .run o' := by
    intro o' stirs
    cases stirs with
    | same _ same => exact .same same
    | sleep _ a => exact .sleep t a current rfl
    | wakeup a => exact .wakeup a ⟨t, rest, current, .inl todo⟩ ⟨rfl, rfl, rfl⟩
    | wakeOne a => exact .wakeOne a ⟨t, rest, current, .inr todo⟩ ⟨rfl, rfl, rfl⟩
  cases done : s.exec t m.objects m.curspl (m.frames t) rest with
  | next o spl frame => exact moved o (Stmt.stirs_of_exec (by rw [done]; rfl))
  | sleep o frame => exact moved o (Stmt.stirs_of_exec (by rw [done]; rfl))
  | stop why => exact .same ⟨rfl, rfl, rfl⟩

theorem stirs_of_next (taken : m.next event = some after) : m.Stirs event after.objects := by
  cases (happens_of_next taken).2 with
  | run current todo => exact stirs_apply current todo
  | sleep p current outside => exact .sleep _ (.other p) current rfl
  | interrupt s settled => exact stirs_handlerV s
  | wakeup p settled => exact .wakeup (.other p) rfl ⟨rfl, rfl, rfl⟩
  | wakeOne p settled => exact .wakeOne (.other p) rfl ⟨rfl, rfl, rfl⟩
  | _ => exact .same ⟨rfl, rfl, rfl⟩

/-- Nobody leaves the array unless the address is woken. -/
theorem Stirs.stays {o : Objects τ} (stirs : m.Stirs event o) {e : τ × Addr}
    (asleep : e ∈ m.objects.sleepers) : e ∈ o.sleepers ∨ m.Wakes event e.2 := by
  cases stirs with
  | same same => exact .inl (same.1 ▸ asleep)
  | sleep t a current slept => exact .inl (slept ▸ List.mem_append_left _ asleep)
  | wakeup a wakes same =>
    by_cases here : e.2 = a
    · exact .inr (here ▸ wakes)
    · exact .inl (same.1 ▸ List.mem_filter.mpr ⟨asleep, by simpa using here⟩)
  | wakeOne a wakes same =>
    by_cases here : e.2 = a
    · exact .inr (here ▸ wakes)
    · exact .inl (same.1 ▸ (List.mem_eraseP_of_neg (by simpa using here)).mpr asleep)

/-- The array is in order in every state, also inside a section. -/
theorem Stirs.ordered {o : Objects τ} (stirs : m.Stirs event o) (ordered : m.objects.Ordered)
    (awake : ∀ t, m.curthread = some t → ¬ m.objects.Asleep t) : o.Ordered := by
  cases stirs with
  | same same => exact ordered.of_same same
  | sleep t a current slept => exact slept ▸ ordered.threadSleep (awake t current) a
  | wakeup a wakes same =>
    exact ordered.of_sublist (same.1 ▸ List.filter_sublist) same.2.1 same.2.2
  | wakeOne a wakes same =>
    exact ordered.of_sublist (same.1 ▸ List.eraseP_sublist) same.2.1 same.2.2

/-! ### What is left of a call -/

/-- Of every call, what is left is an end of the function. -/
structure Bodied (m : Machine τ) : Prop where
  suffix : ∀ t op, (m.frames t).call = some op → (m.frames t).todo <:+ op.body
  none : ∀ t, (m.frames t).call = none → (m.frames t).todo = []

/-- What an event does to the frame of a thread. -/
inductive Turns (m : Machine τ) (event : Event τ) (t : τ) (frame : Frame) : Prop
  | same (same : frame = m.frames t)
  | call (current : m.curthread = some t) (op : Op) (call : frame.call = some op)
      (todo : frame.todo = op.body)
  | run (now : event = .run) (current : m.curthread = some t) (s : Stmt) (rest : List Stmt)
      (before : (m.frames t).todo = s :: rest) (call : frame.call = (m.frames t).call)
      (todo : frame.todo = rest ∨ frame.todo = s :: rest)

end Machine

/-- The frame that a statement leaves, if it does not stop the kernel. -/
def Outcome.frame : Outcome τ → Option Frame
  | .next _ _ frame => some frame
  | .sleep _ frame => some frame
  | .stop _ => none

theorem Stmt.frame_of_exec {t : τ} {o : Objects τ} {spl : Spl} {frame frame' : Frame}
    {rest : List Stmt} {s : Stmt} (done : (s.exec t o spl frame rest).frame = some frame') :
    frame'.call = frame.call ∧ (frame'.todo = rest ∨ frame'.todo = s :: rest) := by
  cases s <;> simp only [Stmt.exec] at done <;> try split at done
  all_goals
    cases done
    try exact ⟨rfl, .inl rfl⟩
    try exact ⟨rfl, .inr rfl⟩

namespace Machine

variable {m after : Machine τ} {event : Event τ}

private theorem turns_apply {t : τ} (current : m.curthread = some t) {s : Stmt} {rest : List Stmt}
    (todo : (m.frames t).todo = s :: rest) (u : τ) :
    m.Turns .run u ((m.apply t (s.exec t m.objects m.curspl (m.frames t) rest)).frames u) := by
  have moved : ∀ frame, (s.exec t m.objects m.curspl (m.frames t) rest).frame = some frame →
      m.Turns .run u (Function.update m.frames t frame u) := by
    intro frame left
    obtain ⟨call, rest⟩ := Stmt.frame_of_exec left
    by_cases me : u = t
    · subst me
      rw [Function.update_self]
      exact .run rfl current _ _ todo call rest
    · rw [Function.update_of_ne me]
      exact .same rfl
  cases done : s.exec t m.objects m.curspl (m.frames t) rest with
  | next o spl frame => exact moved frame (by rw [done]; rfl)
  | sleep o frame => exact moved frame (by rw [done]; rfl)
  | stop why => exact .same rfl

omit [DecidableEq τ] in
private theorem frames_handlerV (s : Ptr) : (m.handlerV s).frames = m.frames := by
  unfold handlerV
  split <;> rfl

theorem turns_of_next (taken : m.next event = some after) (u : τ) :
    m.Turns event u (after.frames u) := by
  cases (happens_of_next taken).2 with
  | @call t op current outside =>
    by_cases me : u = t
    · subst me
      simp only [setFrame, Function.update_self]
      exact .call current op rfl rfl
    · simp only [setFrame, Function.update_of_ne me]
      exact .same rfl
  | run current todo => exact turns_apply current todo u
  | interrupt s settled =>
    rw [frames_handlerV]
    exact .same rfl
  | _ => exact .same rfl

theorem Bodied.next (bodied : m.Bodied) (taken : m.next event = some after) : after.Bodied := by
  constructor
  case suffix =>
    intro t op called
    cases turns_of_next taken t with
    | same same =>
      rw [same] at called ⊢
      exact bodied.suffix t op called
    | call current op' call todo =>
      cases called.symm.trans call
      rw [todo]
    | run _ current s rest before call todo =>
      have whole := bodied.suffix t op (call ▸ called)
      rw [before] at whole
      rcases todo with todo | todo
      · rw [todo]
        exact (List.suffix_cons s rest).trans whole
      · rw [todo]
        exact whole
  case none =>
    intro t nothing
    cases turns_of_next taken t with
    | same same =>
      rw [same] at nothing ⊢
      exact bodied.none t nothing
    | call current op' call todo => cases nothing.symm.trans call
    | run _ current s rest before call todo =>
      have empty := bodied.none t (call ▸ nothing)
      rw [before] at empty
      cases empty

/-! ### Between the release and the sleep -/

/-- `w` is in `cv_wait`, has given up the lock and is not yet in the sleepers array. -/
def Releasing (m : Machine τ) (w : τ) (c l : Ptr) : Prop :=
  (m.frames w).call = some (.cvWait c l) ∧ .dropOwner l ∉ (m.frames w).todo ∧
    .threadSleep (.cv c) ∈ (m.frames w).todo

variable {w : τ} {c l : Ptr}

omit [DecidableEq τ] in
/-- What such a thread has left to do. -/
theorem Releasing.todo (releasing : m.Releasing w c l) (bodied : m.Bodied) :
    ∃ rest, (.threadSleep (.cv c) : Stmt) ∉ rest ∧
      ((m.frames w).todo = .threadWakeup (.lock l) :: .splx :: .threadSleep (.cv c) :: rest ∨
        (m.frames w).todo = .splx :: .threadSleep (.cv c) :: rest ∨
        (m.frames w).todo = .threadSleep (.cv c) :: rest) := by
  obtain ⟨call, dropped, sleeps⟩ := releasing
  have absent : (.threadSleep (.cv c) : Stmt) ∉ lockAcquire l ++ [.splx] := by
    simp [lockAcquire, lockDoIHold]
  have parts : (Op.cvWait c l).body =
      ([.splhigh] ++ lockDoIHold l ++ [.assertHeld l, .splhigh]) ++ .dropOwner l ::
        (.threadWakeup (.lock l) :: .splx :: .threadSleep (.cv c) ::
          (lockAcquire l ++ [.splx])) := rfl
  have after := suffix_of_not_mem (parts ▸ bodied.suffix w _ call) dropped
  refine ⟨_, absent, ?_⟩
  rw [List.suffix_cons_iff, List.suffix_cons_iff, List.suffix_cons_iff] at after
  rcases after with todo | todo | todo | gone
  · exact .inl todo
  · exact .inr (.inl todo)
  · exact .inr (.inr todo)
  · exact absurd (gone.mem sleeps) absent

/-- A thread in that state is the current one, and interrupts are off. -/
theorem Releasing.current (releasing : m.Releasing w c l) (simulated : m.Simulated initial)
    (running : m.stopped = none) : m.curthread = some w ∧ m.curspl = .high := by
  obtain ⟨σ, -, follows⟩ := simulated
  have inside : ∀ spl st, ¬ Fits (m.frames w) spl st := by
    obtain ⟨call, dropped, sleeps⟩ := releasing
    intro spl st fits
    generalize m.frames w = frame at fits call dropped sleeps
    cases fits with
    | called op answer =>
      cases call
      exact dropped (by simp [Op.body, cvWait, lockRelease])
    | waitWoken => simp [lockAcquire, lockDoIHold] at sleeps
    | _ => simp at sleeps
  cases current : m.curthread with
  | none =>
    simp only [Follows, running, current] at follows
    exact absurd (follows.2 w) (inside _ _)
  | some t =>
    have others : m.OthersFit σ t := by
      simp only [Follows, running, current] at follows
      exact follows.2.others
    have me : t = w := by
      by_contra other
      exact inside _ _ (others w (Ne.symm other))
    subst me
    cases level : m.curspl with
    | high => exact ⟨rfl, rfl⟩
    | zero =>
      obtain ⟨-, -, here, -⟩ := follows.settled running current (.inr level)
      exact absurd here (inside _ _)

theorem next_run {t : τ} {s : Stmt} {rest : List Stmt} (running : m.stopped = none)
    (current : m.curthread = some t) (todo : (m.frames t).todo = s :: rest) :
    m.next .run = some (m.apply t (s.exec t m.objects m.curspl (m.frames t) rest)) := by
  simp only [Machine.next, running, current, threadStep, todo]

/-- With interrupts off, nothing can happen inside a call but its next statement. -/
theorem next_eq_none {t : τ} (running : m.stopped = none) (current : m.curthread = some t)
    (inside : ¬ m.Outside t) (high : m.curspl = .high) (other : event ≠ .run) :
    m.next event = none := by
  simp only [Machine.next, running, current]
  cases event <;> simp_all [threadStep]

theorem Releasing.run (releasing : m.Releasing w c l) (simulated : m.Simulated initial)
    (taken : m.next event = some after) : event = .run ∧ ∃ s rest,
      (m.frames w).todo = s :: rest ∧
      after = m.apply w (s.exec w m.objects m.curspl (m.frames w) rest) := by
  have running := (happens_of_next taken).1
  obtain ⟨current, high⟩ := releasing.current simulated running
  have inside : (m.frames w).todo ≠ [] := List.ne_nil_of_mem releasing.2.2
  obtain ⟨s, rest, todo⟩ := List.exists_cons_of_ne_nil inside
  by_cases runs : event = .run
  · subst runs
    rw [next_run running current todo] at taken
    cases taken
    exact ⟨rfl, s, rest, todo, rfl⟩
  · rw [next_eq_none running current inside high runs] at taken
    cases taken

/-- It stays in that state, with the lock as it was, until it is in the array. -/
theorem Releasing.next (releasing : m.Releasing w c l) (bodied : m.Bodied)
    (simulated : m.Simulated initial) (taken : m.next event = some after) :
    (after.Releasing w c l ∧ after.objects.owner = m.objects.owner ∧ after.stopped = m.stopped) ∨
      ((w, .cv c) ∈ after.objects.sleepers ∧ ¬ after.Releasing w c l) := by
  obtain ⟨-, s, rest, todo, rfl⟩ := releasing.run simulated taken
  obtain ⟨tail, absent, shape⟩ := releasing.todo bodied
  obtain ⟨call, dropped, -⟩ := releasing
  rw [todo] at shape dropped
  simp only [List.mem_cons, not_or] at dropped
  rcases shape with shape | shape | shape <;> cases shape
  · refine .inl ⟨⟨?_, ?_, ?_⟩, rfl, rfl⟩
    all_goals simp [Stmt.exec, apply, setFrame, call, dropped.2]
  · refine .inl ⟨⟨?_, ?_, ?_⟩, ?_, rfl⟩
    all_goals simp [Stmt.exec, apply, setFrame, call, dropped.2]
  · refine .inr ⟨?_, fun still => absent ?_⟩
    · simp [Stmt.exec, apply, setFrame, switchOut, Objects.threadSleep]
    · simpa [Stmt.exec, apply, setFrame, switchOut] using still.2.2

/-! ### Every state -/

/-- What holds in every state, inside a section and outside. -/
structure Coherent (initial : Ptr → CInt) (m : Machine τ) : Prop where
  simulated : m.Simulated initial
  bodied : m.Bodied
  ordered : m.objects.Ordered
  /-- A lock that `cv_wait` has given up stays free until its caller is asleep. -/
  given : ∀ w c l, m.Releasing w c l → m.objects.owner l = none

theorem Coherent.awake (coherent : m.Coherent initial) (running : m.stopped = none) {t : τ}
    (current : m.curthread = some t) : ¬ m.objects.Asleep t := by
  obtain ⟨σ, -, follows⟩ := coherent.simulated
  simp only [Follows, running, current] at follows
  exact follows.1

/-- Whoever is in that state after an event was in it before, or has just given up the lock. -/
theorem releasing_of_next (taken : m.next event = some after) (releasing : after.Releasing w c l) :
    m.Releasing w c l ∨ event = .run ∧ ∃ rest, m.curthread = some w ∧
      (m.frames w).todo = .dropOwner l :: rest := by
  obtain ⟨call, dropped, sleeps⟩ := releasing
  cases turns_of_next taken w with
  | same same =>
    rw [same] at call dropped sleeps
    exact .inl ⟨call, dropped, sleeps⟩
  | call current op called todo =>
    cases called.symm.trans call
    rw [todo] at dropped
    exact absurd (by simp [Op.body, cvWait, lockRelease]) dropped
  | run now current s rest before called todo =>
    rw [called] at call
    rcases todo with todo | todo
    · rw [todo] at dropped sleeps
      by_cases drops : s = .dropOwner l
      · exact .inr ⟨now, rest, current, drops ▸ before⟩
      refine .inl ⟨call, ?_, ?_⟩
      · rw [before]
        simpa [Ne.symm drops] using dropped
      · rw [before]
        exact List.mem_cons_of_mem s sleeps
    · rw [todo, ← before] at dropped sleeps
      exact .inl ⟨call, dropped, sleeps⟩

theorem Coherent.next (coherent : m.Coherent initial) (taken : m.next event = some after) :
    after.Coherent initial := by
  have running := (happens_of_next taken).1
  constructor
  case simulated =>
    obtain ⟨σ, before, follows⟩ := coherent.simulated
    obtain ⟨σ', reaches, now⟩ := follows.next taken
    exact ⟨σ', before.trans reaches, now⟩
  case bodied => exact coherent.bodied.next taken
  case ordered =>
    exact (stirs_of_next taken).ordered coherent.ordered fun t => coherent.awake running
  case given =>
    intro w c l releasing
    rcases releasing_of_next taken releasing with before | ⟨rfl, rest, current, todo⟩
    · rcases before.next coherent.bodied coherent.simulated taken with ⟨-, same, -⟩ | ⟨-, not⟩
      · rw [same]
        exact coherent.given w c l before
      · exact absurd releasing not
    · simp only [Machine.next, running, current, threadStep, todo, Option.some.injEq] at taken
      rw [← taken]
      simp [Stmt.exec, apply, setFrame, Objects.setOwner, Objects.setHeld]

private theorem coherent_of_run {history : List (Machine τ × Event τ)}
    (run : Run Machine.Step (Machine.start initial) history m) : m.Coherent initial := by
  refine run.invariant ?_ fun m event after coherent taken => coherent.next taken
  exact {
    simulated := simulated_of_run .start
    bodied := ⟨fun t op call => (by cases call), fun t nothing => rfl⟩
    ordered := (System.Sound.start initial).objects.ordered
    given := fun w c l releasing => by cases releasing.1 }

/-- From the release on, the waiter is on its way to the array, in it, or has been woken on
the condition variable while it was in it. -/
theorem Releasing.later (releasing : m.Releasing w c l) (coherent : m.Coherent initial)
    {history : List (Machine τ × Event τ)} {m' : Machine τ} (run : Run Machine.Step m history m') :
    m'.Releasing w c l ∨ (w, .cv c) ∈ m'.objects.sleepers ∨
      ∃ taken ∈ history, taken.1.Wakes taken.2 (.cv c) ∧ (w, .cv c) ∈ taken.1.objects.sleepers := by
  induction run with
  | start => exact .inl releasing
  | @next history m₁ event m₂ so_far taken ih =>
    have coherent₁ : m₁.Coherent initial :=
      so_far.invariant coherent fun m event after coherent taken => coherent.next taken
    rcases ih with still | asleep | ⟨past, member, woken⟩
    · rcases still.next coherent₁.bodied coherent₁.simulated taken with ⟨still, -⟩ | ⟨asleep, -⟩
      · exact .inl still
      · exact .inr (.inl asleep)
    · rcases (stirs_of_next taken).stays asleep with stays | wakes
      · exact .inr (.inl stays)
      · exact .inr (.inr ⟨_, List.mem_cons_self, wakes, asleep⟩)
    · exact .inr (.inr ⟨past, List.mem_cons_of_mem _ member, woken⟩)

end Machine

/-! ### Who is woken -/

/-- Of the threads that sleep on the address, the one that has slept longest is taken out of
the array, and nobody else. -/
def Objects.WakesLongest (a : Addr) (o o' : Objects τ) : Prop :=
  ∃ w, (w, a) ∈ o.sleepers ∧
    (∀ u, (u, a) ∈ o.sleepers → u ≠ w → o.since w < o.since u) ∧
    ∀ e, e ∈ o'.sleepers ↔ e ∈ o.sleepers ∧ e ≠ (w, a)

omit [DecidableEq τ] in
theorem Objects.Ordered.wakesLongest {o : Objects τ} (ordered : o.Ordered) {a : Addr} {t : τ}
    (asleep : (t, a) ∈ o.sleepers) : o.WakesLongest a (o.threadWakeOne a) := by
  obtain ⟨⟨w, b⟩, front, back, others, here, whole, left⟩ :=
    List.exists_of_eraseP (p := fun e : τ × Addr => decide (e.2 = a)) asleep (by simp)
  simp only [decide_eq_true_eq] at here others
  subst here
  have order := ordered.order
  rw [whole, List.pairwise_append] at order
  obtain ⟨-, behind, before⟩ := order
  rw [List.pairwise_cons] at behind
  refine ⟨w, by simp [whole], ?_, ?_⟩
  · intro u member other
    rw [whole, List.mem_append, List.mem_cons] at member
    rcases member with first | same | last
    · exact absurd rfl (others _ first)
    · cases same
      exact absurd rfl other
    · exact behind.1 _ last
  intro e
  have absent : (w, b) ∉ front ++ back := by
    intro member
    rcases List.mem_append.mp member with first | last
    · exact others _ first rfl
    · exact Nat.lt_irrefl _ (behind.1 _ last)
  have now : (o.threadWakeOne b).sleepers = front ++ back := left
  rw [now, whole]
  simp only [List.mem_append, List.mem_cons]
  constructor
  · intro member
    refine ⟨by tauto, ?_⟩
    rintro rfl
    exact absent (List.mem_append.mpr member)
  · tauto

namespace Machine

variable {m after : Machine τ} {t : τ} {c l : Ptr}

/-- The thread is current and about to execute the first statement of its call. -/
structure Enters (m : Machine τ) (t : τ) (op : Op) : Prop where
  running : m.stopped = none
  current : m.curthread = some t
  call : (m.frames t).call = some op
  todo : (m.frames t).todo = op.body

/-- The current thread executes `n` statements, and between them nothing else can happen. -/
def Through : Nat → Machine τ → Machine τ → Prop
  | 0, m, after => after = m
  | 1, m, after => m.next .run = some after
  | n + 2, m, after => ∃ mid, m.next .run = some mid ∧
      (∀ event, event ≠ .run → mid.next event = none) ∧ Through (n + 1) mid after

section

variable {s : Stmt} {rest : List Stmt} {o o' : Objects τ} {spl spl' : Spl} {frame frame' : Frame}
  (running : m.stopped = none) (current : m.curthread = some t)
  (todo : frame.todo = s :: rest)

include running current todo

theorem next_apply (does : s.exec t o spl frame rest = .next o' spl' frame') :
    (m.apply t (.next o spl frame)).next .run = some (m.apply t (.next o' spl' frame')) := by
  have here : ((m.apply t (.next o spl frame)).frames t) = frame := by simp [apply, setFrame]
  have now := next_run (m := m.apply t (.next o spl frame)) running current
    (by rw [here]; exact todo)
  rw [here] at now
  refine now.trans (congrArg some ?_)
  change (m.apply t (.next o spl frame)).apply t (s.exec t o spl frame rest) = _
  rw [does]
  simp [apply, setFrame]

theorem Through.step {n : Nat} (does : s.exec t o spl frame rest = .next o' .high frame')
    (inside : frame'.todo ≠ [])
    (later : Through (n + 1) (m.apply t (.next o' .high frame')) after) :
    Through (n + 2) (m.apply t (.next o spl frame)) after :=
  ⟨_, next_apply running current todo does, fun event other => next_eq_none running current
    (by simpa [Outside, apply, setFrame] using inside) rfl other, later⟩

end

/-- `cv_signal` and `cv_broadcast`, whose only difference is the statement that wakes, from the
first statement to the return. -/
theorem Enters.through {op : Op} {wake : Stmt} {woken : Objects τ} (enters : m.Enters t op)
    (body : op.body = .splhigh :: (lockDoIHold l ++ [.assertHeld l, wake, .splx]))
    (wakes : ∀ spl frame rest,
      wake.exec t m.objects spl frame rest = .next woken spl { frame with todo := rest })
    (quiet : woken.returned t (some op) = woken) (owner : m.objects.owner l = some t) :
    ∃ after, Through op.body.length m after ∧ after.Outside t ∧ after.objects = woken := by
  obtain ⟨running, current, call, todo⟩ := enters
  rw [body] at todo ⊢
  obtain ⟨saved, answer, frame⟩ : ∃ saved answer, m.frames t = ⟨some op, .splhigh ::
      (lockDoIHold l ++ [.assertHeld l, wake, .splx]), saved, answer⟩ :=
    ⟨_, _, by rw [← call, ← todo]⟩
  have same : m = m.apply t (.next m.objects m.curspl (m.frames t)) := by simp [apply, setFrame]
  -- From the last statement back: at each of them the level is high.
  have returns : Through 1 (m.apply t (.next woken .high
      ⟨some op, [.splx], m.curspl :: saved, true⟩))
      (m.apply t (.next woken m.curspl ⟨some op, [], saved, true⟩)) :=
    next_apply running current rfl (by simp [Stmt.exec, quiet])
  have woke := Through.step running current rfl (wakes .high
    ⟨some op, [wake, .splx], m.curspl :: saved, true⟩ [.splx]) (by simp) returns
  have asserted : Through 3 (m.apply t (.next m.objects .high
      ⟨some op, [.assertHeld l, wake, .splx], m.curspl :: saved, true⟩)) _ :=
    .step running current rfl rfl (by simp) woke
  have restored : Through 4 (m.apply t (.next m.objects .high
      ⟨some op, [.splx, .assertHeld l, wake, .splx], .high :: m.curspl :: saved, true⟩)) _ :=
    .step running current rfl rfl (by simp) asserted
  have tested : Through 5 (m.apply t (.next m.objects .high ⟨some op,
      [.testOwner l, .splx, .assertHeld l, wake, .splx], .high :: m.curspl :: saved, answer⟩)) _ :=
    .step running current rfl (by simp [Stmt.exec, owner]) (by simp) restored
  have raised : Through 6 (m.apply t (.next m.objects .high ⟨some op, .splhigh ::
      [.testOwner l, .splx, .assertHeld l, wake, .splx], m.curspl :: saved, answer⟩)) _ :=
    .step running current rfl rfl (by simp) tested
  have entered : Through 7 (m.apply t (.next m.objects m.curspl ⟨some op, .splhigh ::
      (lockDoIHold l ++ [.assertHeld l, wake, .splx]), saved, answer⟩)) _ :=
    .step running current rfl rfl (by simp) raised
  rw [← frame, ← same] at entered
  exact ⟨_, entered, by simp [Outside, apply, setFrame], rfl⟩

/-- The guarantees of condition variables. -/
theorem condition_variables {history : List (Machine τ × Event τ)}
    (run : Run Machine.Step (Machine.start initial) history m) (c l : Ptr) :
    -- nobody has the lock between its release by a waiter and the sleep of the waiter
    (∀ w, m.Releasing w c l → ∀ u, m.objects.owner l ≠ some u) ∧
    -- whoever has it later finds the waiter asleep, if it has not been woken before
    (∀ w, m.Releasing w c l → ∀ later m' u, Run Machine.Step m later m' →
      m'.objects.owner l = some u → (w, .cv c) ∈ m'.objects.sleepers ∨
        ∃ taken ∈ later, taken.1.Wakes taken.2 (.cv c) ∧
          (w, .cv c) ∈ taken.1.objects.sleepers) ∧
    -- `cv_signal` by the owner, from its first statement to its return
    (∀ t, m.Enters t (.cvSignal c l) → m.objects.owner l = some t → ∃ after,
      Through (cvSignal c l).length m after ∧ after.Outside t ∧
      ((∃ u, (u, .cv c) ∈ m.objects.sleepers) → m.objects.WakesLongest (.cv c) after.objects) ∧
      ((∀ u, (u, .cv c) ∉ m.objects.sleepers) →
        after.objects.sleepers = m.objects.sleepers)) ∧
    -- `cv_broadcast` likewise
    (∀ t, m.Enters t (.cvBroadcast c l) → m.objects.owner l = some t → ∃ after,
      Through (cvBroadcast c l).length m after ∧ after.Outside t ∧
      ∀ e, e ∈ after.objects.sleepers ↔ e ∈ m.objects.sleepers ∧ e.2 ≠ .cv c) ∧
    -- `cv_wait` returns with the lock
    (∀ t, m.Settled → m.Outside t → (m.frames t).call = some (.cvWait c l) →
      m.objects.owner l = some t) := by
  have coherent := coherent_of_run run
  refine ⟨?_, ?_, ?_, ?_, ?_⟩
  · intro w releasing u owner
    rw [coherent.given w c l releasing] at owner
    cases owner
  · intro w releasing later m' u segment owner
    rcases releasing.later coherent segment with still | rest
    · have coherent' : m'.Coherent initial :=
        segment.invariant coherent fun m event after coherent taken => coherent.next taken
      rw [coherent'.given w c l still] at owner
      cases owner
    · exact rest
  · intro t enters owner
    obtain ⟨after, through, outside, woken⟩ := enters.through rfl (fun _ _ _ => rfl) rfl owner
    refine ⟨after, through, outside, ?_, fun nobody => ?_⟩
    · rintro ⟨u, asleep⟩
      rw [woken]
      exact coherent.ordered.wakesLongest asleep
    · rw [woken]
      exact List.eraseP_of_forall_not fun e member here =>
        nobody e.1 (by simpa [← of_decide_eq_true here] using member)
  · intro t enters owner
    obtain ⟨after, through, outside, woken⟩ := enters.through rfl (fun _ _ _ => rfl) rfl owner
    refine ⟨after, through, outside, fun e => ?_⟩
    rw [woken]
    simp [Objects.threadWakeup]
  intro t settled outside call
  have knows := knows_of_run run settled outside
  simp only [Stage.Knows, call] at knows
  exact knows

/-- One thread takes the lock and waits; the other takes the lock and calls `cv_signal`. -/
def signalling : List (Event (Fin 2)) :=
  [.dispatch 0, .call (.lockAcquire 7)] ++ List.replicate 9 .run ++ [.call (.cvWait 5 7)] ++
    List.replicate 10 .run ++ [.dispatch 1, .call (.lockAcquire 7)] ++ List.replicate 9 .run ++
    [.call (.cvSignal 5 7)]

theorem condition_variables_signalling :
    ∃ history m after, Run Machine.Step (Machine.start fun _ => 0) history m ∧
      history.map Prod.snd = signalling.reverse ∧ (0, .cv 5) ∈ m.objects.sleepers ∧
      Through 7 m after ∧ m.objects.WakesLongest (.cv 5) after.objects := by
  obtain ⟨m, reached, running, current, call, todo, asleep, owner⟩ :
      ∃ m, execute Machine.next (Machine.start fun _ => 0) signalling = some m ∧
        m.stopped = none ∧ m.curthread = some 1 ∧ (m.frames 1).call = some (.cvSignal 5 7) ∧
        (m.frames 1).todo = cvSignal 5 7 ∧
        (0, .cv 5) ∈ m.objects.sleepers ∧ m.objects.owner 7 = some 1 :=
    execute_check (by decide +kernel)
  obtain ⟨history, run, same⟩ := Run.of_execute reached
  obtain ⟨-, -, signal, -⟩ := condition_variables run 5 7
  obtain ⟨after, through, -, wakes, -⟩ := signal 1 ⟨running, current, call, todo⟩ owner
  exact ⟨history, m, after, run, same, asleep, through, wakes ⟨0, asleep⟩⟩

end Machine

end Os161.Synch
