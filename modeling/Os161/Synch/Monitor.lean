import Os161.Synch.Locks

/-!
# Programs that share one lock

The threads of such a program touch what they share only while they own the lock, and
they wait on condition variables under it. What a thread does from the moment it gets the
lock to the moment it gives it up is a piece of code; statement by statement it can be
interrupted, but it is alone with the shared data. So an invariant that every piece of
code restores holds whenever the lock is free, and what a piece of code keeps true on its
way holds in all other states.
-/
namespace Os161.Synch.Monitor

open Foundation
open Function (update update_of_ne update_self)

/-- What a thread does while it owns the lock. `G` is the shared data, `L` what belongs to
one thread, and a label of type `κ` says where the thread continues. -/
inductive Code (κ G L : Type) where
  /-- A statement. -/
  | act (f : G → L → G × L) (rest : Code κ G L)
  /-- A test. -/
  | look (f : G → L → Code κ G L)
  /-- `assert(lock_do_i_hold(lock));` -/
  | holds (rest : Code κ G L)
  | signal (c : Ptr) (rest : Code κ G L)
  | broadcast (c : Ptr) (rest : Code κ G L)
  /-- `cv_wait`, and then the code for the label. -/
  | wait (c : Ptr) (label : κ)
  /-- `lock_release`, and then on to the label. -/
  | release (label : κ)
  /-- The thread ends and keeps the lock. -/
  | halt
  /-- A panic or an assertion that fails. -/
  | fault

/-- What a thread without the lock does next. -/
inductive Outside (τ κ : Type) where
  /-- `lock_acquire`, and then the code for its label. -/
  | enter
  | move (label : κ)
  /-- `thread_sleep` on an address that belongs to no lock or condition variable. -/
  | nap (p : Ptr) (label : κ)
  /-- `thread_fork`. -/
  | fork (child : τ) (label : κ)
  | stop

structure Program (τ κ G L : Type) where
  lock : Ptr
  code : τ → κ → Code κ G L
  /-- The number stands for what `random` returns. -/
  outside : τ → κ → Nat → Outside τ κ
  /-- The label of a thread that has not been forked. -/
  unborn : κ
  born : τ → κ

inductive Ctl (κ G L : Type) where
  | outside (label : κ)
  /-- In `lock_acquire`, or in `cv_wait` after its sleep has begun. -/
  | entering (label : κ)
  /-- It owns the lock, and has entered for the label. -/
  | running (label : κ) (code : Code κ G L)

def Ctl.label {κ G L : Type} : Ctl κ G L → κ
  | outside label => label
  | entering label => label
  | running label _ => label

structure State (τ κ G L : Type) where
  sys : System τ
  shared : G
  own : τ → L
  ctl : τ → Ctl κ G L

inductive Label (τ : Type) where
  /-- A statement of the program. -/
  | statement (t : τ) (random : Nat)
  /-- The next section of a call of `t` to `synch.c`. -/
  | goOn (t : τ)
  | interrupt (s : Ptr)
  | wakeup (p : Ptr)
  | wakeOne (p : Ptr)

section

variable {τ κ G L : Type} [DecidableEq τ] [DecidableEq κ]

/-- Where a thread is after a section that leaves its call at `st`. -/
def Ctl.resume (code : κ → Code κ G L) (st : Stage) : Ctl κ G L → Ctl κ G L
  | outside label => outside label
  | entering label => if st.pos = .returned then running label (code label) else entering label
  | running label (.holds rest) => running label (if st.answer then rest else .fault)
  | running label (.signal _ rest) => running label rest
  | running label (.broadcast _ rest) => running label rest
  | running _ (.wait _ next) => entering next
  | running label (.release next) =>
    if st.pos = .returned then outside next else running label (.release next)
  | running label code => running label code

namespace State

variable (program : Program τ κ G L) (σ : State τ κ G L)

def setCtl (t : τ) (ctl : Ctl κ G L) : State τ κ G L :=
  { σ with ctl := update σ.ctl t ctl }

def call (t : τ) (op : Op) : Option (State τ κ G L) :=
  (σ.sys.next (.call t op)).map fun sys => { σ with sys }

/-- A statement of a thread that does not own the lock. -/
def stepOutside (t : τ) (label : κ) : Outside τ κ → Option (State τ κ G L)
  | .enter => (σ.call t (.lockAcquire program.lock)).map (·.setCtl t (.entering label))
  | .move next => some (σ.setCtl t (.outside next))
  | .nap p next =>
    (σ.sys.next (.sleep t p)).map fun sys => { σ.setCtl t (.outside next) with sys }
  | .fork child next =>
    match σ.ctl child with
    | .outside before =>
      if before = program.unborn ∧ child ≠ t then
        some ((σ.setCtl child (.outside (program.born child))).setCtl t (.outside next))
      else none
    | _ => none
  | .stop => none

/-- A statement of the thread that owns it. -/
def stepInside (t : τ) (label : κ) : Code κ G L → Option (State τ κ G L)
  | .act f rest =>
    let after := f σ.shared (σ.own t)
    some { σ.setCtl t (.running label rest) with
      shared := after.1
      own := update σ.own t after.2 }
  | .look f => some (σ.setCtl t (.running label (f σ.shared (σ.own t))))
  | .holds _ => σ.call t (.lockDoIHold program.lock)
  | .signal c _ => σ.call t (.cvSignal c program.lock)
  | .broadcast c _ => σ.call t (.cvBroadcast c program.lock)
  | .wait c _ => σ.call t (.cvWait c program.lock)
  | .release _ => σ.call t (.lockRelease program.lock)
  | .halt => none
  | .fault => none

def next : Label τ → Option (State τ κ G L)
  | .statement t random =>
    if σ.sys.Free t then
      match σ.ctl t with
      | .outside label => σ.stepOutside program t label (program.outside t label random)
      | .entering _ => none
      | .running label code => σ.stepInside program t label code
    else none
  | .goOn t =>
    (σ.sys.next (.goOn t)).map fun sys =>
      { σ.setCtl t ((σ.ctl t).resume (program.code t) (sys.stages t)) with sys }
  | .interrupt s => (σ.sys.next (.interrupt s)).map fun sys => { σ with sys }
  | .wakeup p => (σ.sys.next (.wakeup p)).map fun sys => { σ with sys }
  | .wakeOne p => (σ.sys.next (.wakeOne p)).map fun sys => { σ with sys }

abbrev Step : State τ κ G L → Label τ → State τ κ G L → Prop := Computes (State.next program)

end State

end

/-! ### What the threads see -/

/-- The shared data, what belongs to each thread, what kind of place each is at, and who
sleeps on which condition variable. -/
structure View (τ K G L : Type) where
  shared : G
  own : τ → L
  place : τ → K
  asleep : List (τ × Ptr)

section

variable {τ κ K G L : Type} [DecidableEq τ]

/-- The entry of the sleepers array, if it is for a condition variable. -/
def cvEntry : τ × Addr → Option (τ × Ptr)
  | (t, .cv c) => some (t, c)
  | _ => none

def State.view (kind : κ → K) (σ : State τ κ G L) : View τ K G L :=
  ⟨σ.shared, σ.own, fun t => kind (σ.ctl t).label, σ.sys.objects.sleepers.filterMap cvEntry⟩

namespace View

variable (v : View τ K G L)

def act (t : τ) (f : G → L → G × L) : View τ K G L :=
  { v with
    shared := (f v.shared (v.own t)).1
    own := update v.own t (f v.shared (v.own t)).2 }

def arrive (t : τ) (k : K) : View τ K G L := { v with place := update v.place t k }

def sleep (t : τ) (c : Ptr) : View τ K G L := { v with asleep := v.asleep ++ [(t, c)] }

def wakeOne (c : Ptr) : View τ K G L := { v with asleep := v.asleep.eraseP fun e => e.2 = c }

def wakeAll (c : Ptr) : View τ K G L := { v with asleep := v.asleep.filter fun e => e.2 ≠ c }

end View

structure Spec (τ κ K G L : Type) where
  program : Program τ κ G L
  /-- The kind of place that a label stands for. -/
  kind : κ → K
  /-- Where threads enter. -/
  entry : τ → κ → Prop
  /-- What holds when the lock is free. -/
  rest : View τ K G L → Prop
  /-- What holds before a statement of the thread that owns it. -/
  always : τ → Code κ G L → View τ K G L → Prop
  /-- What is taken for granted of the moment at which it is executed. -/
  given : τ → Code κ G L → View τ K G L → Prop

/-- The code does all that the specification asks of it when `t` executes it. -/
def Spec.wp (S : Spec τ κ K G L) (t : τ) : Code κ G L → View τ K G L → Prop
  | .act f rest, v => S.always t (.act f rest) v ∧
      (S.given t (.act f rest) v → S.wp t rest (v.act t f))
  | .look f, v => S.always t (.look f) v ∧
      (S.given t (.look f) v → S.wp t (f v.shared (v.own t)) v)
  | .holds rest, v => S.always t (.holds rest) v ∧ (S.given t (.holds rest) v → S.wp t rest v)
  | .signal c rest, v => S.always t (.signal c rest) v ∧
      (S.given t (.signal c rest) v → S.wp t rest (v.wakeOne c))
  | .broadcast c rest, v => S.always t (.broadcast c rest) v ∧
      (S.given t (.broadcast c rest) v → S.wp t rest (v.wakeAll c))
  | .wait c label, v => S.always t (.wait c label) v ∧ S.entry t label ∧
      (S.given t (.wait c label) v → S.rest ((v.arrive t (S.kind label)).sleep t c))
  | .release label, v => S.always t (.release label) v ∧
      (S.given t (.release label) v → S.rest (v.arrive t (S.kind label)))
  | .halt, v => S.always t .halt v
  | .fault, _ => False

/-! ### Sleepers on condition variables -/

/-- Who sleeps on which condition variable. -/
def cvSleepers (o : Objects τ) : List (τ × Ptr) := o.sleepers.filterMap cvEntry

omit [DecidableEq τ] in
theorem mem_cvSleepers {o : Objects τ} {t : τ} {c : Ptr} :
    (t, c) ∈ cvSleepers o ↔ (t, .cv c) ∈ o.sleepers := by
  simp only [cvSleepers, List.mem_filterMap]
  constructor
  · rintro ⟨⟨u, a⟩, member, entry⟩
    cases a <;> cases entry
    exact member
  · exact fun member => ⟨_, member, rfl⟩

theorem cvSleepers_threadSleep (o : Objects τ) (t : τ) (a : Addr) :
    cvSleepers (o.threadSleep t a) = cvSleepers o ++ (cvEntry (t, a)).toList := by
  simp only [cvSleepers, Objects.threadSleep, List.filterMap_append]
  cases a <;> rfl

omit [DecidableEq τ] in
theorem cvSleepers_threadWakeup (o : Objects τ) (a : Addr) :
    cvSleepers (o.threadWakeup a) = (cvSleepers o).filter fun e => .cv e.2 ≠ a := by
  simp only [cvSleepers, Objects.threadWakeup, List.filterMap_filter, List.filter_filterMap]
  congr 1
  funext e
  obtain ⟨t, b⟩ := e
  cases b <;> simp [cvEntry, Option.filter]

omit [DecidableEq τ] in
theorem cvSleepers_threadWakeOne (o : Objects τ) (a : Addr) :
    cvSleepers (o.threadWakeOne a) = (cvSleepers o).eraseP fun e => .cv e.2 = a := by
  simp only [cvSleepers, Objects.threadWakeOne]
  induction o.sleepers with
  | nil => rfl
  | cons e rest ih =>
    obtain ⟨t, b⟩ := e
    by_cases here : b = a
    · subst here
      -- an entry for something else leaves no trace
      have rest_same (absent : ∀ c, b ≠ .cv c) :
          (rest.filterMap cvEntry).eraseP (fun e => .cv e.2 = b) = rest.filterMap cvEntry :=
        List.eraseP_of_forall_not fun e _ same => absent e.2 (of_decide_eq_true same).symm
      cases b with
      | cv c => simp [cvEntry]
      | _ => simpa [cvEntry, List.filterMap_cons] using (rest_same (by simp)).symm
    · cases b with
      | cv c => simpa [cvEntry, here] using ih
      | _ => simpa [cvEntry, here, List.filterMap_cons] using ih

theorem cvSleepers_other {o : Objects τ} {a : Addr} (other : ∀ c, a ≠ .cv c) :
    cvSleepers (o.threadWakeup a) = cvSleepers o ∧ cvSleepers (o.threadWakeOne a) = cvSleepers o ∧
      ∀ t, cvSleepers (o.threadSleep t a) = cvSleepers o := by
  refine ⟨?_, ?_, ?_⟩
  · rw [cvSleepers_threadWakeup]
    exact List.filter_eq_self.mpr fun e _ => by simpa using Ne.symm (other e.2)
  · rw [cvSleepers_threadWakeOne]
    exact List.eraseP_of_forall_not fun e _ same => other e.2 (of_decide_eq_true same).symm
  intro t
  rw [cvSleepers_threadSleep]
  cases a with
  | cv c => exact absurd rfl (other c)
  | _ => exact List.append_nil _

end

/-! ### Where a thread is in `synch.c` -/

section

variable {τ κ K G L : Type} [DecidableEq τ]

/-- The thread is in `lock_acquire`, or in `cv_wait` after its sleep has begun. -/
def Enters (lock : Ptr) (st : Stage) : Prop :=
  (st.call = some (.lockAcquire lock) ∧
    (st.pos = .called ∨ st.pos = .tested ∨ st.pos = .looping)) ∨
  ∃ c, st.call = some (.cvWait c lock) ∧ (st.pos = .woken ∨ st.pos = .looping)

/-- The thread is in the call that its code begins with. -/
def Code.Calls (lock : Ptr) (st : Stage) : Code κ G L → Prop
  | holds _ => st.call = some (.lockDoIHold lock) ∧ st.pos = .called
  | signal c _ => st.call = some (.cvSignal c lock) ∧ st.pos = .called
  | broadcast c _ => st.call = some (.cvBroadcast c lock) ∧ st.pos = .called
  | wait c _ => st.call = some (.cvWait c lock) ∧ st.pos = .called
  | release _ => st.call = some (.lockRelease lock) ∧ (st.pos = .called ∨ st.pos = .tested)
  | _ => False

/-- The place of `t` in the program, the place in `synch.c` and the owner of the lock fit
together. -/
def Ctl.Fits (S : Spec τ κ K G L) (t : τ) (owner : Option τ) (st : Stage) : Ctl κ G L → Prop
  | outside _ => owner ≠ some t ∧ st.pos = .returned
  | entering label => owner ≠ some t ∧ Enters S.program.lock st ∧ S.entry t label
  | running label code =>
    owner = some t ∧ (st.pos = .returned ∨ code.Calls S.program.lock st) ∧ S.entry t label

structure Spec.Inv (S : Spec τ κ K G L) (initial : Ptr → CInt) (σ : State τ κ G L) : Prop where
  sound : σ.sys.Sound initial
  fits : ∀ t, (σ.ctl t).Fits S t (σ.sys.objects.owner S.program.lock) (σ.sys.stages t)
  rest : σ.sys.objects.owner S.program.lock = none → S.rest (σ.view S.kind)
  busy : ∀ t label code, σ.ctl t = .running label code → S.wp t code (σ.view S.kind)

structure Spec.Verified (S : Spec τ κ K G L) : Prop where
  enters : ∀ t label random, S.program.outside t label random = .enter → S.entry t label
  moves : ∀ t label random next, S.program.outside t label random = .move next →
    S.kind next = S.kind label
  naps : ∀ t label random p next, S.program.outside t label random = .nap p next →
    S.kind next = S.kind label
  forks : ∀ t label random child next, S.program.outside t label random = .fork child next →
    S.kind next = S.kind label
  births : ∀ t, S.kind (S.program.born t) = S.kind S.program.unborn
  sections : ∀ t label v, S.entry t label → v.place t = S.kind label →
    (∀ c, (t, c) ∉ v.asleep) → S.rest v → S.wp t (S.program.code t label) v

/-- The assumptions hold of the statement that the step executes. -/
def Spec.Granted (S : Spec τ κ K G L) (σ : State τ κ G L) (step : Label τ) : Prop :=
  ∀ t label code, (step = .goOn t ∨ ∃ random, step = .statement t random) →
    σ.ctl t = .running label code → S.given t code (σ.view S.kind)

namespace Spec.Inv

variable {S : Spec τ κ K G L} {initial : Ptr → CInt} {σ after : State τ κ G L} {t : τ}

variable {o : Objects τ}

/-- A step that neither touches what the threads share nor changes the owner. -/
theorem quiet (inv : S.Inv initial σ) (sound : after.sys.Sound initial)
    (owner : after.sys.objects.owner = σ.sys.objects.owner)
    (view : after.view S.kind = σ.view S.kind)
    (fits : ∀ t, (after.ctl t).Fits S t (σ.sys.objects.owner S.program.lock)
      (after.sys.stages t))
    (same : ∀ t label code, after.ctl t = .running label code →
      σ.ctl t = .running label code) : S.Inv initial after := by
  constructor
  case sound => exact sound
  case fits => exact owner ▸ fits
  case rest => exact fun free => view ▸ inv.rest (owner ▸ free)
  case busy => exact fun t label code running => view ▸ inv.busy t label code (same _ _ _ running)

omit [DecidableEq τ] in
theorem owner_ne {owner : Option τ} (mine : owner = some t) {u : τ} (other : u ≠ t) :
    owner ≠ some u :=
  fun owned => other (Option.some.inj (owned.symm.trans mine))

theorem view_moved (ctl : Ctl κ G L) (sys : System τ) :
    ({ σ.setCtl t ctl with sys } : State τ κ G L).view S.kind =
      { (σ.view S.kind).arrive t (S.kind ctl.label) with asleep := cvSleepers sys.objects } := by
  simp only [State.view, State.setCtl, View.arrive]
  congr 1
  funext u
  by_cases me : u = t
  · subst me
    simp
  · simp [update_of_ne me]

theorem arrive_same {k : K} (same : k = S.kind (σ.ctl t).label) :
    (σ.view S.kind).arrive t k = σ.view S.kind := by
  subst same
  simp only [View.arrive, State.view]
  congr 1
  exact Function.update_eq_self t fun u => S.kind (σ.ctl u).label

variable {sys : System τ} {st : Stage} {label : κ} {code : Code κ G L}

/-- A step of `t` that the program does not see. -/
theorem view_kept (ctl : Ctl κ G L)
    (kind : S.kind ctl.label = S.kind (σ.ctl t).label)
    (asleep : cvSleepers sys.objects = cvSleepers σ.sys.objects) :
    ({ σ.setCtl t ctl with sys } : State τ κ G L).view S.kind = σ.view S.kind := by
  rw [view_moved, arrive_same kind, asleep]
  rfl

/-- A step of `t` from or to owning the lock. -/
theorem turn (inv : S.Inv initial σ) (sound : after.sys.Sound initial)
    (before : ∀ u, u ≠ t → σ.sys.objects.owner S.program.lock ≠ some u)
    (now : ∀ u, u ≠ t → after.sys.objects.owner S.program.lock ≠ some u)
    (ctl : ∀ u, u ≠ t → after.ctl u = σ.ctl u)
    (stages : ∀ u, u ≠ t → after.sys.stages u = σ.sys.stages u)
    (fits : (after.ctl t).Fits S t (after.sys.objects.owner S.program.lock) (after.sys.stages t))
    (rest : after.sys.objects.owner S.program.lock = none → S.rest (after.view S.kind))
    (busy : ∀ label code, after.ctl t = .running label code →
      S.wp t code (after.view S.kind)) : S.Inv initial after := by
  constructor
  case sound => exact sound
  case fits =>
    intro u
    by_cases me : u = t
    · exact me ▸ fits
    rw [ctl u me, stages u me]
    have old := inv.fits u
    cases here : σ.ctl u with
    | outside label => exact ⟨now u me, (here ▸ old).2⟩
    | entering label => exact ⟨now u me, (here ▸ old).2⟩
    | running label code => exact absurd (here ▸ old).1 (before u me)
  case rest => exact rest
  case busy =>
    intro u label code running
    by_cases me : u = t
    · subst me
      exact busy label code running
    rw [ctl u me] at running
    have old := inv.fits u
    rw [running] at old
    exact absurd old.1 (before u me)

theorem section_turn (inv : S.Inv initial σ) {ctl : Ctl κ G L}
    (sound : (σ.sys.setStage t o st).Sound initial)
    (before : ∀ u, u ≠ t → σ.sys.objects.owner S.program.lock ≠ some u)
    (now : ∀ u, u ≠ t → o.owner S.program.lock ≠ some u)
    (fits : ctl.Fits S t (o.owner S.program.lock) st)
    (rest : o.owner S.program.lock = none →
      S.rest { (σ.view S.kind).arrive t (S.kind ctl.label) with asleep := cvSleepers o })
    (busy : ∀ label code, ctl = .running label code →
      S.wp t code { (σ.view S.kind).arrive t (S.kind ctl.label) with asleep := cvSleepers o }) :
    S.Inv initial { σ.setCtl t ctl with sys := σ.sys.setStage t o st } := by
  refine inv.turn (t := t) sound before now (fun u other => update_of_ne other ..)
    (fun u other => update_of_ne other ..) ?_ ?_ ?_
  · simpa only [State.setCtl, System.setStage, update_self] using fits
  · intro free
    rw [view_moved]
    exact rest free
  intro label code running
  rw [view_moved]
  exact busy label code (by simpa only [State.setCtl, update_self] using running)

/-! ### Statements of the program -/

/-- The owner makes the call that its code begins with. -/
theorem call (inv : S.Inv initial σ)
    (running : σ.ctl t = .running label code) {op : Op}
    (calls : code.Calls S.program.lock ⟨some op, .called, (σ.sys.stages t).answer⟩)
    (taken : σ.call t op = some after) : S.Inv initial after := by
  obtain ⟨sys, stepped, rfl⟩ := Option.map_eq_some_iff.mp taken
  cases System.of_next_call stepped
  obtain ⟨mine, -, entry⟩ := running ▸ inv.fits t
  have others := fun u => owner_ne (u := u) mine
  refine inv.turn (t := t) (inv.sound.next stepped) others others (fun _ _ => rfl) ?_ ?_ ?_ ?_
  · intro u other
    simp [System.setStage, update_of_ne other]
  · simp only [System.setStage, update_self, running]
    exact ⟨mine, .inr calls, entry⟩
  · intro free
    exact absurd (free.symm.trans mine) (by simp)
  · exact fun label code running => inv.busy t label code running

/-- A statement of the owner. -/
theorem stepInside (inv : S.Inv initial σ)
    (free : σ.sys.Free t) (running : σ.ctl t = .running label code)
    (given : S.given t code (σ.view S.kind))
    (taken : σ.stepInside S.program t label code = some after) : S.Inv initial after := by
  obtain ⟨mine, -, entry⟩ := running ▸ inv.fits t
  have others := fun u => owner_ne (u := u) mine
  have busy := inv.busy t label code running
  -- the owner stays, with more of its code done
  have goes : ∀ after : State τ κ G L, after.sys = σ.sys → ∀ rest,
      after.ctl = update σ.ctl t (.running label rest) →
      S.wp t rest (after.view S.kind) → S.Inv initial after := by
    intro after sys rest ctl wp
    refine inv.turn (t := t) (sys ▸ inv.sound) others (sys ▸ others) ?_
      (fun _ _ => sys ▸ rfl) ?_ ?_ ?_
    · intro u other
      rw [ctl, update_of_ne other]
    · rw [ctl, update_self, sys]
      exact ⟨mine, .inl free.1, entry⟩
    · intro none
      rw [sys, mine] at none
      cases none
    intro label' code' now
    rw [ctl, update_self] at now
    cases now
    exact wp
  have same : S.kind label = S.kind (σ.ctl t).label := by
    rw [running]
    rfl
  cases code with
  | act f rest =>
    cases taken
    refine goes _ rfl rest rfl ?_
    have view : ({ σ.setCtl t (.running label rest) with
        shared := (f σ.shared (σ.own t)).1
        own := update σ.own t (f σ.shared (σ.own t)).2 } : State τ κ G L).view S.kind =
        (σ.view S.kind).act t f := by
      have place := congrArg View.place (view_kept (S := S) (.running label rest) same rfl)
      simp only [State.view, State.setCtl, View.act] at place ⊢
      rw [place]
    rw [view]
    exact busy.2 given
  | look f =>
    cases taken
    refine goes _ rfl _ rfl ?_
    have view := view_kept (S := S) (.running label (f σ.shared (σ.own t))) same rfl
    exact view ▸ busy.2 given
  | release next => exact inv.call running ⟨rfl, .inl rfl⟩ taken
  | halt => cases taken
  | fault => cases taken
  | _ => exact inv.call running ⟨rfl, rfl⟩ taken

/-- A statement of a thread without the lock that leaves it without. -/
theorem outside (inv : S.Inv initial σ) (sound : after.sys.Sound initial)
    (owner : after.sys.objects.owner = σ.sys.objects.owner)
    (view : after.view S.kind = σ.view S.kind)
    (stages : ∀ u, u ≠ t → after.sys.stages u = σ.sys.stages u)
    (ctl : ∀ u, u ≠ t → after.ctl u = σ.ctl u)
    (fits : (after.ctl t).Fits S t (σ.sys.objects.owner S.program.lock) (after.sys.stages t))
    (not : ∀ label code, after.ctl t ≠ .running label code) : S.Inv initial after := by
  refine inv.quiet sound owner view ?_ ?_
  · intro u
    by_cases me : u = t
    · exact me ▸ fits
    · rw [ctl u me, stages u me]
      exact inv.fits u
  intro u label code running
  by_cases me : u = t
  · exact absurd (me ▸ running) (not label code)
  · exact ctl u me ▸ running

private theorem stepOutside [DecidableEq κ] (inv : S.Inv initial σ) (verified : S.Verified)
    (here : σ.ctl t = .outside label) {random : Nat}
    (taken : σ.stepOutside S.program t label (S.program.outside t label random) = some after) :
    S.Inv initial after := by
  obtain ⟨stranger, returned⟩ := here ▸ inv.fits t
  have others : ∀ ctl u, u ≠ t → update σ.ctl t ctl u = σ.ctl u :=
    fun ctl u other => update_of_ne other ..
  cases next : S.program.outside t label random with
  | enter =>
    rw [next] at taken
    obtain ⟨middle, called, rfl⟩ := Option.map_eq_some_iff.mp taken
    obtain ⟨sys, stepped, rfl⟩ := Option.map_eq_some_iff.mp called
    have sound := inv.sound.next stepped
    cases System.of_next_call stepped
    refine inv.outside (t := t) sound rfl ?_ ?_ (others _) ?_ ?_
    · exact view_kept _ (by rw [here]; rfl) rfl
    · intro u other
      simp [State.setCtl, System.setStage, update_of_ne other]
    · simp only [State.setCtl, System.setStage, update_self]
      exact ⟨stranger, .inl ⟨rfl, .inl rfl⟩, verified.enters t label random next⟩
    · simp [State.setCtl]
  | move target =>
    rw [next] at taken
    cases taken
    refine inv.outside (t := t) inv.sound rfl ?_ (fun _ _ => rfl) (others _) ?_ ?_
    · exact view_kept _ (by rw [here]; exact verified.moves t label random target next) rfl
    · simp only [State.setCtl, update_self]
      exact ⟨stranger, returned⟩
    · simp [State.setCtl]
  | nap p target =>
    rw [next] at taken
    obtain ⟨sys, stepped, rfl⟩ := Option.map_eq_some_iff.mp taken
    have sound := inv.sound.next stepped
    cases System.of_next_sleep stepped
    refine inv.outside (t := t) sound rfl ?_ (fun _ _ => rfl) (others _) ?_ ?_
    · exact view_kept _ (by rw [here]; exact verified.naps t label random p target next)
        ((cvSleepers_other (by simp)).2.2 t)
    · simp only [State.setCtl, update_self]
      exact ⟨stranger, returned⟩
    · simp [State.setCtl]
  | fork child target =>
    rw [next] at taken
    simp only [State.stepOutside] at taken
    split at taken
    next before unborn =>
      rw [Option.ite_none_right_eq_some, Option.some.injEq] at taken
      obtain ⟨⟨rfl, apart⟩, rfl⟩ := taken
      -- the child is made, and then the parent goes on
      have made : S.Inv initial (σ.setCtl child (.outside (S.program.born child))) := by
        refine inv.outside (t := child) inv.sound rfl ?_ (fun _ _ => rfl) ?_ ?_ ?_
        · exact view_kept _ (by rw [unborn]; exact verified.births child) rfl
        · exact fun u other => update_of_ne other ..
        · simp only [State.setCtl, update_self]
          have old := inv.fits child
          rw [unborn] at old
          exact old
        · simp [State.setCtl]
      have still : (σ.setCtl child (.outside (S.program.born child))).ctl t = .outside label := by
        simpa only [State.setCtl, update_of_ne (Ne.symm apart)] using here
      refine made.outside (t := t) made.sound rfl ?_ (fun _ _ => rfl) ?_ ?_ ?_
      · exact view_kept _ (by rw [still]; exact verified.forks t label random child target next) rfl
      · exact fun u other => update_of_ne other ..
      · simp only [State.setCtl, update_self]
        exact ⟨stranger, returned⟩
      · simp [State.setCtl]
    next => cases taken
  | stop =>
    rw [next] at taken
    cases taken

/-! ### Sections of the calls -/

/-- What the loop of `lock_acquire` comes to. -/
inductive Acquires (lock : Ptr) (t : τ) (o : Objects τ) : Objects τ → Stage → Prop
  | taken {o' : Objects τ} {st' : Stage} (free : o.owner lock = none)
      (owner : o'.owner = update o.owner lock (some t))
      (sleepers : o'.sleepers = o.sleepers) (pos : st'.pos = .returned) : Acquires lock t o o' st'
  | waits {o' : Objects τ} {st' : Stage} (owner : o'.owner = o.owner)
      (sleepers : cvSleepers o' = cvSleepers o) (enters : Enters lock st')
      (pos : st'.pos ≠ .returned) : Acquires lock t o o' st'

private theorem acquires_acquire {lock : Ptr} (acquires : st.Acquires lock) :
    Acquires lock t o (o.acquire t lock st).1 (o.acquire t lock st).2 := by
  unfold Objects.acquire
  split
  next free =>
    refine .taken free ?_ ?_ rfl
    · rcases acquires with call | ⟨c, call⟩ <;> rw [call] <;> rfl
    · rcases acquires with call | ⟨c, call⟩ <;> rw [call] <;> rfl
  next =>
    refine .waits rfl ((cvSleepers_other (by simp)).2.2 t) ?_ (by simp)
    rcases acquires with call | ⟨c, call⟩
    · exact .inl ⟨call, .inr (.inr rfl)⟩
    · exact .inr ⟨c, call, .inr rfl⟩

/-- A section of a thread that is waiting for the lock. -/
theorem advance_entering {lock : Ptr} (enters : Enters lock st)
    (knows : st.Knows (o.Owns t)) (stranger : o.owner lock ≠ some t) :
    ∃ o' st', st.advance t o = some (.ok (o', st')) ∧ Acquires lock t o o' st' := by
  obtain ⟨call, pos, answer⟩ := st
  rcases enters with ⟨rfl, rfl | rfl | rfl⟩ | ⟨c, rfl, rfl | rfl⟩
  · exact ⟨_, _, rfl, .waits rfl rfl (.inl ⟨rfl, .inr (.inl rfl)⟩) (by simp)⟩
  · have no : answer = false := by
      cases answer with
      | false => rfl
      | true => exact absurd (knows.mp rfl) stranger
    subst no
    exact ⟨_, _, rfl, acquires_acquire (.inl rfl)⟩
  · exact ⟨_, _, rfl, acquires_acquire (.inl rfl)⟩
  · have acquires : Stage.Acquires lock ⟨some (.cvWait c lock), .woken, false⟩ := .inr ⟨c, rfl⟩
    refine ⟨_, _, ?_, acquires_acquire acquires⟩
    simp [Stage.advance, stranger]
  · exact ⟨_, _, rfl, acquires_acquire (.inr ⟨c, rfl⟩)⟩

/-- A section of a thread that waits for the lock. -/
theorem goOn_entering (inv : S.Inv initial σ) (verified : S.Verified)
    (here : σ.ctl t = .entering label) (taken : σ.sys.next (.goOn t) = some sys) :
    S.Inv initial
      { σ.setCtl t ((σ.ctl t).resume (S.program.code t) (sys.stages t)) with sys } := by
  have sound := inv.sound.next taken
  obtain ⟨stranger, enters, entry⟩ := here ▸ inv.fits t
  obtain ⟨awake, o, st, advanced, rfl⟩ := System.of_next_goOn taken
  have stage : (σ.sys.setStage t o st).stages t = st := update_self ..
  rw [stage]
  obtain ⟨o', st', done, acquires⟩ := advance_entering enters (inv.sound.knows t) stranger
  cases advanced.symm.trans done
  cases acquires with
  | waits owner sleepers enters' pos =>
    simp only [here, Ctl.resume, pos, if_false]
    refine inv.outside (t := t) sound owner (view_kept _ (by rw [here]) sleepers)
      (fun u other => update_of_ne other ..) (fun u other => update_of_ne other ..) ?_ ?_
    · simp only [State.setCtl, update_self]
      rw [stage]
      exact ⟨stranger, enters', entry⟩
    · simp [State.setCtl]
  | taken free owner sleepers pos =>
    simp only [here, Ctl.resume, pos, if_true]
    have mine : o.owner S.program.lock = some t := by rw [owner, update_self]
    refine inv.section_turn sound (fun u _ => by simp [free]) (fun u => owner_ne mine)
      ⟨mine, .inl pos, entry⟩ (fun none => absurd (none.symm.trans mine) (by simp)) ?_
    intro label' code now
    cases now
    have asleep : cvSleepers o = cvSleepers σ.sys.objects :=
      congrArg (List.filterMap cvEntry) sleepers
    rw [arrive_same (by rw [here]; rfl), asleep]
    refine verified.sections t label _ entry ?_ ?_ (inv.rest free)
    · simp only [State.view, here]
      rfl
    · intro c asleep
      exact awake ⟨_, mem_cvSleepers.mp asleep, rfl⟩

private theorem goOn_keeps (inv : S.Inv initial σ) {code rest : Code κ G L}
    (here : σ.ctl t = .running label code) (sound : (σ.sys.setStage t o st).Sound initial)
    (owner : o.owner = σ.sys.objects.owner)
    (place : st.pos = .returned ∨ rest.Calls S.program.lock st)
    (wp : S.wp t rest { σ.view S.kind with asleep := cvSleepers o }) :
    S.Inv initial
      { σ.setCtl t (.running label rest) with sys := σ.sys.setStage t o st } := by
  obtain ⟨mine, -, entry⟩ := here ▸ inv.fits t
  refine inv.section_turn sound (fun u => owner_ne mine) (fun u => owner_ne (owner ▸ mine))
    ⟨owner ▸ mine, place, entry⟩ (fun none => absurd (none.symm.trans (owner ▸ mine)) (by simp)) ?_
  intro label' code' now
  cases now
  rw [arrive_same (by rw [here]; rfl)]
  exact wp

private theorem goOn_leaves (inv : S.Inv initial σ)
    (here : σ.ctl t = .running label code) (sound : (σ.sys.setStage t o st).Sound initial)
    (owner : o.owner S.program.lock = none) {ctl : Ctl κ G L} (fits : ctl.Fits S t none st)
    (not : ∀ label code, ctl ≠ .running label code)
    (rest : S.rest { (σ.view S.kind).arrive t (S.kind ctl.label) with asleep := cvSleepers o }) :
    S.Inv initial { σ.setCtl t ctl with sys := σ.sys.setStage t o st } := by
  have mine := (here ▸ inv.fits t).1
  exact inv.section_turn sound (fun u => owner_ne mine) (fun u _ owned => by simp [owner] at owned)
    (owner ▸ fits) (fun _ => rest) fun label code now => absurd now (not label code)

private theorem owner_release {lock : Ptr} : (o.release t lock).owner lock = none := by
  simp [Objects.release, Objects.setOwner, Objects.setHeld, Objects.threadWakeup]

private theorem cvSleepers_release (o : Objects τ) (lock : Ptr) :
    cvSleepers (o.release t lock) = cvSleepers o :=
  (cvSleepers_other (o := (o.setOwner lock none).setHeld lock t false) (by simp)).1

/-- A section of a call of the owner. -/
theorem goOn_running (inv : S.Inv initial σ)
    (here : σ.ctl t = .running label code) (given : S.given t code (σ.view S.kind))
    (taken : σ.sys.next (.goOn t) = some sys) :
    S.Inv initial
      { σ.setCtl t ((σ.ctl t).resume (S.program.code t) (sys.stages t)) with sys } := by
  have sound := inv.sound.next taken
  obtain ⟨mine, returned | calls, -⟩ := here ▸ inv.fits t
  · obtain ⟨-, o, st, advanced, -⟩ := System.of_next_goOn taken
    rw [Stage.advance_returned returned] at advanced
    cases advanced
  have busy := inv.busy t label code here
  have knows := inv.sound.knows t
  obtain ⟨-, o, st, advanced, rfl⟩ := System.of_next_goOn taken
  have stage : (σ.sys.setStage t o st).stages t = st := update_self ..
  rw [stage, here]
  generalize σ.sys.stages t = before at calls advanced knows
  obtain ⟨call, pos, answer⟩ := before
  cases code with
  | act f rest => cases calls
  | look f => cases calls
  | halt => cases calls
  | fault => cases calls
  | holds rest =>
    obtain ⟨rfl, rfl⟩ := calls
    cases advanced
    simp only [Ctl.resume, mine, decide_true, if_true]
    simp only [mine, decide_true] at sound
    exact inv.goOn_keeps here sound rfl (.inl rfl) (busy.2 given)
  | signal c rest =>
    obtain ⟨rfl, rfl⟩ := calls
    simp only [Stage.advance, mine, if_true] at advanced
    cases advanced
    refine inv.goOn_keeps here sound rfl (.inl rfl) ?_
    rw [cvSleepers_threadWakeOne]
    simpa [View.wakeOne, State.view, cvSleepers] using busy.2 given
  | broadcast c rest =>
    obtain ⟨rfl, rfl⟩ := calls
    simp only [Stage.advance, mine, if_true] at advanced
    cases advanced
    refine inv.goOn_keeps here sound rfl (.inl rfl) ?_
    rw [cvSleepers_threadWakeup]
    simpa [View.wakeAll, State.view, cvSleepers] using busy.2 given
  | wait c next =>
    obtain ⟨rfl, rfl⟩ := calls
    simp only [Stage.advance, mine, if_true] at advanced
    cases advanced
    simp only [Ctl.resume]
    refine inv.goOn_leaves here sound (owner_release (t := t)) ?_ (by simp) ?_
    · exact ⟨by simp, .inr ⟨c, rfl, .inl rfl⟩, busy.2.1⟩
    · rw [cvSleepers_threadSleep, cvSleepers_release]
      exact busy.2.2 given
  | release next =>
    obtain ⟨rfl, rfl | rfl⟩ := calls
    · -- it has only asked `lock_do_i_hold` so far
      cases advanced
      exact inv.goOn_keeps here sound rfl (.inr ⟨rfl, .inr rfl⟩) busy
    have yes : answer = true := knows.mpr mine
    subst yes
    cases advanced
    simp only [Ctl.resume, if_true]
    refine inv.goOn_leaves here sound owner_release ⟨by simp, rfl⟩ (by simp) ?_
    rw [cvSleepers_release]
    exact busy.2 given

/-- An event outside the program. -/
theorem objects (inv : S.Inv initial σ)
    (sound : ({ σ.sys with objects := o } : System τ).Sound initial)
    (owner : o.owner = σ.sys.objects.owner) (asleep : cvSleepers o = cvSleepers σ.sys.objects) :
    S.Inv initial { σ with sys := { σ.sys with objects := o } } := by
  refine inv.quiet sound owner ?_ inv.fits fun _ _ _ => id
  simp only [State.view]
  exact congrArg _ asleep

private theorem next [DecidableEq κ] (inv : S.Inv initial σ) (verified : S.Verified)
    {step : Label τ}
    (granted : S.Granted σ step) (taken : State.next S.program σ step = some after) :
    S.Inv initial after := by
  cases step with
  | statement t random =>
    simp only [State.next, Option.ite_none_right_eq_some] at taken
    obtain ⟨free, taken⟩ := taken
    split at taken
    next label here => exact inv.stepOutside verified here taken
    next => cases taken
    next label code here =>
      exact inv.stepInside free here (granted t label code (.inr ⟨random, rfl⟩) here) taken
  | goOn t =>
    obtain ⟨sys, stepped, rfl⟩ := Option.map_eq_some_iff.mp taken
    cases here : σ.ctl t with
    | outside label =>
      obtain ⟨-, returned⟩ := here ▸ inv.fits t
      obtain ⟨-, o, st, advanced, -⟩ := System.of_next_goOn stepped
      rw [Stage.advance_returned returned] at advanced
      cases advanced
    | entering label => exact here ▸ inv.goOn_entering verified here stepped
    | running label code =>
      exact here ▸ inv.goOn_running here (granted t label code (.inl rfl) here) stepped
  | interrupt s =>
    obtain ⟨sys, stepped, rfl⟩ := Option.map_eq_some_iff.mp taken
    have sound := inv.sound.next stepped
    simp only [System.next, System.step] at stepped
    cases outcome : σ.sys.objects.up s with
    | error why =>
      rw [outcome] at stepped
      cases stepped
    | ok o =>
      rw [outcome] at stepped
      cases stepped
      unfold Objects.up at outcome
      split at outcome
      next =>
        cases outcome
        refine inv.objects sound rfl ?_
        exact (cvSleepers_other (o := σ.sys.objects.setCount s (σ.sys.objects.count s + 1))
          (a := .sem s) (by simp)).1
      next => cases outcome
  | wakeup p =>
    cases taken
    have sound := inv.sound.next (show σ.sys.next (.wakeup p) = some _ from rfl)
    exact inv.objects sound rfl (cvSleepers_other (by simp)).1
  | wakeOne p =>
    cases taken
    have sound := inv.sound.next (show σ.sys.next (.wakeOne p) = some _ from rfl)
    exact inv.objects sound rfl (cvSleepers_other (by simp)).2.1

/-- From a state with the invariant, every run that the assumptions cover keeps it. -/
theorem of_run [DecidableEq κ] (verified : S.Verified) {history : List (State τ κ G L × Label τ)}
    (inv : S.Inv initial σ) (run : Run (State.Step S.program) σ history after)
    (granted : ∀ taken ∈ history, S.Granted taken.1 taken.2) : S.Inv initial after :=
  (run.restrict granted).invariant inv
    fun _ _ _ inv taken => inv.next verified taken.1 taken.2

/-! ### What the invariant says -/

section

variable (inv : S.Inv initial σ)

include inv

theorem always {label : κ} {code : Code κ G L} (running : σ.ctl t = .running label code) :
    S.always t code (σ.view S.kind) := by
  have busy := inv.busy t label code running
  cases code with
  | fault => cases busy
  | halt => exact busy
  | _ => exact busy.1

/-- The owner of the lock is executing its code. -/
theorem running_of_owner (owner : σ.sys.objects.owner S.program.lock = some t) :
    ∃ label code, σ.ctl t = .running label code := by
  have fits := inv.fits t
  cases here : σ.ctl t with
  | outside label => exact absurd owner (here ▸ fits).1
  | entering label => exact absurd owner (here ▸ fits).1
  | running label code => exact ⟨label, code, rfl⟩

/-- It sleeps on no lock and no condition variable. -/
theorem awake_of_running {label : κ} {code : Code κ G L} (running : σ.ctl t = .running label code)
    (l c : Ptr) : (t, .lock l) ∉ σ.sys.objects.sleepers ∧ (t, .cv c) ∉ σ.sys.objects.sleepers := by
  obtain ⟨-, place, -⟩ := running ▸ inv.fits t
  have early : (σ.sys.stages t).pos ≠ .looping ∧ (σ.sys.stages t).pos ≠ .woken := by
    rcases place with returned | calls
    · simp [returned]
    cases code with
    | release next =>
      obtain ⟨-, pos | pos⟩ := calls <;> simp [pos]
    | holds rest => simp [calls.2]
    | signal c rest => simp [calls.2]
    | broadcast c rest => simp [calls.2]
    | wait c next => simp [calls.2]
    | _ => cases calls
  exact ⟨fun asleep => early.1 (inv.sound.waits _ asleep).2,
    fun asleep => early.2 (inv.sound.waits _ asleep).2⟩

/-- No call of the program stops the kernel. -/
theorem never_stops (why : Stop) : σ.sys.step (.goOn t) ≠ some (.error why) := by
  intro failed
  simp only [System.step, Option.ite_none_left_eq_some, Option.map_eq_some_iff] at failed
  obtain ⟨_, outcome, advanced, mapped⟩ := failed
  cases outcome with
  | ok moved => cases mapped
  | error reason =>
    have fits := inv.fits t
    have knows := inv.sound.knows t
    cases here : σ.ctl t with
    | outside label =>
      rw [Stage.advance_returned (here ▸ fits).2] at advanced
      cases advanced
    | entering label =>
      obtain ⟨stranger, enters, -⟩ := here ▸ fits
      obtain ⟨o', st', done, -⟩ := advance_entering enters knows stranger
      cases advanced.symm.trans done
    | running label code =>
      obtain ⟨mine, returned | calls, -⟩ := here ▸ fits
      · rw [Stage.advance_returned returned] at advanced
        cases advanced
      have refuses := Stage.refuses_of_advance knows advanced
      generalize σ.sys.stages t = st at refuses calls
      obtain ⟨call, pos, answer⟩ := st
      cases code with
      | holds rest =>
        obtain ⟨rfl, -⟩ := calls
        cases refuses with
        | notHeld op l needs => exact needs
      | act f rest => cases calls
      | look f => cases calls
      | halt => cases calls
      | fault => cases calls
      | _ =>
        obtain ⟨rfl, -⟩ := calls
        cases refuses with
        | notHeld op l needs other => exact other (needs ▸ mine)

end

end Spec.Inv

/-! ### More of the same program -/

structure Extra (τ κ K G L : Type) where
  rest : View τ K G L → Prop
  always : τ → Code κ G L → View τ K G L → Prop
  given : τ → Code κ G L → View τ K G L → Prop

namespace Spec

variable (S : Spec τ κ K G L) (extra : Extra τ κ K G L)

def only : Spec τ κ K G L :=
  { S with rest := extra.rest, always := extra.always, given := extra.given }

/-- Both, under the assumptions of both. -/
def add : Spec τ κ K G L where
  program := S.program
  kind := S.kind
  entry := S.entry
  rest := fun v => S.rest v ∧ extra.rest v
  always := fun t code v => S.always t code v ∧ extra.always t code v
  given := fun t code v => S.given t code v ∧ extra.given t code v

variable {S extra}

theorem wp_add {t : τ} {code : Code κ G L} {v : View τ K G L} (first : S.wp t code v)
    (second : (S.only extra).wp t code v) : (S.add extra).wp t code v := by
  induction code generalizing v with
  | act f rest ih =>
    exact ⟨⟨first.1, second.1⟩, fun given => ih (first.2 given.1) (second.2 given.2)⟩
  | look f ih =>
    exact ⟨⟨first.1, second.1⟩, fun given => ih _ _ (first.2 given.1) (second.2 given.2)⟩
  | holds rest ih =>
    exact ⟨⟨first.1, second.1⟩, fun given => ih (first.2 given.1) (second.2 given.2)⟩
  | signal c rest ih =>
    exact ⟨⟨first.1, second.1⟩, fun given => ih (first.2 given.1) (second.2 given.2)⟩
  | broadcast c rest ih =>
    exact ⟨⟨first.1, second.1⟩, fun given => ih (first.2 given.1) (second.2 given.2)⟩
  | wait c label =>
    exact ⟨⟨first.1, second.1⟩, first.2.1,
      fun given => ⟨first.2.2 given.1, second.2.2 given.2⟩⟩
  | release label =>
    exact ⟨⟨first.1, second.1⟩, fun given => ⟨first.2 given.1, second.2 given.2⟩⟩
  | halt => exact ⟨first, second⟩
  | fault => exact first

/-- The pieces of code have to restore the addition where they find both. -/
theorem Verified.add (verified : S.Verified)
    (more : ∀ t label v, S.entry t label → v.place t = S.kind label →
      (∀ c, (t, c) ∉ v.asleep) → S.rest v → extra.rest v →
      (S.only extra).wp t (S.program.code t label) v) : (S.add extra).Verified where
  enters := verified.enters
  moves := verified.moves
  naps := verified.naps
  forks := verified.forks
  births := verified.births
  sections t label v entry place awake rest :=
    wp_add (verified.sections t label v entry place awake rest.1)
      (more t label v entry place awake rest.1 rest.2)

theorem Inv.add {initial : Ptr → CInt} {σ : State τ κ G L} (inv : S.Inv initial σ)
    (rest : σ.sys.objects.owner S.program.lock = none → extra.rest (σ.view S.kind))
    (busy : ∀ t label code, σ.ctl t = .running label code →
      (S.only extra).wp t code (σ.view S.kind)) : (S.add extra).Inv initial σ where
  sound := inv.sound
  fits t := by
    have fits := inv.fits t
    generalize σ.ctl t = ctl at fits
    cases ctl <;> exact fits
  rest free := ⟨inv.rest free, rest free⟩
  busy t label code running := wp_add (inv.busy t label code running) (busy t label code running)

end Spec

/-! ### The beginning -/

/-- The lock is free, and every thread is outside. -/
def State.start (initial : Ptr → CInt) (shared : G) (own : τ → L) (label : τ → κ) :
    State τ κ G L :=
  ⟨System.start initial, shared, own, fun t => .outside (label t)⟩

theorem Spec.Inv.start (S : Spec τ κ K G L) (initial : Ptr → CInt) (shared : G) (own : τ → L)
    (label : τ → κ) (rest : S.rest ⟨shared, own, fun t => S.kind (label t), []⟩) :
    S.Inv initial (State.start initial shared own label) where
  sound := System.Sound.start initial
  fits t := ⟨by simp [State.start, System.start, Machine.start], rfl⟩
  rest _ := rest
  busy t label code running := by cases running

end

end Os161.Synch.Monitor
