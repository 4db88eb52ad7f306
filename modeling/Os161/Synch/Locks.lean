import Os161.Synch.Atomicity

/-!
# Locks

At most one thread is between the return of `lock_acquire` and its next release, whatever
the threads do and wherever they lose the processor; and nobody sleeps on a free lock.
-/
namespace Os161.Synch

open Foundation

variable {τ : Type} [DecidableEq τ] {initial : Ptr → CInt}

theorem System.Sound.of_reaches {σ : System τ} (reaches : (System.start initial).Reaches σ) :
    σ.Sound initial := by
  induction reaches with
  | refl => exact .start initial
  | tail _ taken ih =>
    obtain ⟨label, stepped⟩ := taken
    exact ih.next stepped

/-! ### Where the kernel stops -/

/-- The functions that assert that their caller holds the lock. -/
def Op.Needs (l : Ptr) : Op → Prop
  | lockRelease k | cvWait _ k | cvSignal _ k | cvBroadcast _ k => k = l
  | _ => False

/-- The call of `t` that stops the kernel, and why it does. `assert(!lock->owner)` is not
among the reasons. -/
inductive Objects.Refuses (o : Objects τ) (t : τ) : Option Op → Stop → Prop
  | alreadyHeld (l : Ptr) (mine : o.owner l = some t) :
    Refuses o t (some (.lockAcquire l)) (.alreadyHeld l)
  | notHeld (op : Op) (l : Ptr) (needs : op.Needs l) (stranger : o.owner l ≠ some t) :
    Refuses o t (some op) (.notHeld l)
  | negative (s : Ptr) (negative : (o.count s).toInt < 0) :
    Refuses o t (some (.P s)) (.notPositive s)
  | overflow (s : Ptr) (overflow : ¬ 0 < (o.count s + 1).toInt) :
    Refuses o t (some (.V s)) (.notPositive s)

omit [DecidableEq τ] in
theorem Objects.up_error {o : Objects τ} {s : Ptr} {why : Stop} (failed : o.up s = .error why) :
    why = .notPositive s ∧ ¬ 0 < (o.count s + 1).toInt := by
  unfold up at failed
  split at failed
  next => cases failed
  next overflow =>
    cases failed
    exact ⟨rfl, overflow⟩

theorem Objects.refuses_down {o : Objects τ} {t : τ} {s : Ptr} {st : Stage} {why : Stop}
    (failed : o.down t s st = .error why) : o.Refuses t (some (.P s)) why := by
  unfold down at failed
  split at failed
  next => cases failed
  next nonzero =>
    split at failed
    next => cases failed
    next small =>
      cases failed
      have different : (o.count s).toInt ≠ 0 := by
        exact fun same => nonzero (BitVec.eq_of_toInt_eq same)
      exact .negative s (by omega)

/-- A section of `t` that stops the kernel. -/
theorem Stage.refuses_of_advance {t : τ} {o : Objects τ} {st : Stage} {why : Stop}
    (knows : st.Knows (o.Owns t)) (failed : st.advance t o = some (.error why)) :
    o.Refuses t st.call why := by
  unfold Stage.advance at failed
  split at failed
  next => cases failed
  next => cases failed
  next => cases failed
  next l call pos =>
    simp only [Stage.Knows, call, pos] at knows
    split at failed
    next yes =>
      cases failed
      exact call ▸ .alreadyHeld l (knows.mp yes)
    next => cases failed
  next l call pos =>
    simp only [Stage.Knows, call, pos] at knows
    split at failed
    next => cases failed
    next no =>
      cases failed
      exact call ▸ .notHeld _ l rfl fun mine => no (knows.mpr mine)
  next c l call pos =>
    split at failed
    next => cases failed
    next stranger =>
      cases failed
      exact call ▸ .notHeld _ l rfl stranger
  -- a thread that wakes in `cv_wait` has given up the lock and cannot own it
  next c l call pos =>
    simp only [Stage.Knows, call, pos] at knows
    split at failed
    next mine => exact absurd mine knows
    next => cases failed
  next => cases failed
  next => cases failed
  next c l call pos =>
    split at failed
    next => cases failed
    next stranger =>
      cases failed
      exact call ▸ .notHeld _ l rfl stranger
  next c l call pos =>
    split at failed
    next => cases failed
    next stranger =>
      cases failed
      exact call ▸ .notHeld _ l rfl stranger
  next s call pos =>
    rw [Option.some.injEq] at failed
    exact call ▸ Objects.refuses_down failed
  next s call pos =>
    rw [Option.some.injEq] at failed
    exact call ▸ Objects.refuses_down failed
  next s call pos =>
    cases outcome : o.up s with
    | ok after =>
      rw [outcome] at failed
      cases failed
    | error reason =>
      rw [outcome] at failed
      cases failed
      obtain ⟨rfl, overflow⟩ := Objects.up_error outcome
      exact call ▸ .overflow s overflow
  next => cases failed

/-- A step of the system that stops the kernel is that of a thread, or the `V` of an
interrupt handler. -/
theorem System.Sound.refuses_of_step {σ : System τ} (sound : σ.Sound initial) {label : Label τ}
    {why : Stop} (failed : σ.step label = some (.error why)) :
    (∃ t, σ.objects.Refuses t (σ.stages t).call why) ∨
      ∃ s, why = .notPositive s ∧ ¬ 0 < (σ.objects.count s + 1).toInt := by
  cases label with
  | call t op =>
    simp only [step, Option.ite_none_right_eq_some, Option.some.injEq] at failed
    cases failed.2
  | goOn t =>
    simp only [step, Option.ite_none_left_eq_some, Option.map_eq_some_iff] at failed
    obtain ⟨_, outcome, advanced, mapped⟩ := failed
    cases outcome with
    | ok moved => cases mapped
    | error reason =>
      cases mapped
      exact .inl ⟨t, Stage.refuses_of_advance (sound.knows t) advanced⟩
  | sleep t p =>
    simp only [step, Option.ite_none_right_eq_some, Option.some.injEq] at failed
    cases failed.2
  | interrupt s =>
    simp only [step, Option.some.injEq] at failed
    cases outcome : σ.objects.up s with
    | ok o =>
      rw [outcome] at failed
      cases failed
    | error reason =>
      rw [outcome] at failed
      cases failed
      exact .inr ⟨s, Objects.up_error outcome⟩
  | wakeup p => cases failed
  | wakeOne p => cases failed

namespace Machine

variable {m : Machine τ} {history : List (Machine τ × Event τ)}

theorem Follows.fits {σ : System τ} (follows : m.Follows σ) (settled : m.Settled) (t : τ) :
    ∃ spl, Fits (m.frames t) spl (σ.stages t) := by
  cases current : m.curthread with
  | none =>
    simp only [Follows, settled.1, current] at follows
    exact ⟨_, follows.2 t⟩
  | some u =>
    obtain ⟨_, _, here, others⟩ := follows.settled settled.1 current (settled.2 u current)
    by_cases me : t = u
    · exact ⟨_, me ▸ here⟩
    · exact ⟨_, others t me⟩

/-- Where threads can lose the processor, the objects are as the invariant has them. -/
theorem sound_of_run (run : Run Machine.Step (Machine.start initial) history m)
    (settled : m.Settled) : m.objects.Sound initial := by
  obtain ⟨σ, reaches, follows⟩ := simulated_of_run run
  exact follows.objects settled ▸ (System.Sound.of_reaches reaches).objects

/-- There, a thread outside `synch.c` knows what its last call has told it. -/
theorem knows_of_run (run : Run Machine.Step (Machine.start initial) history m)
    (settled : m.Settled) {t : τ} (outside : m.Outside t) :
    Stage.Knows (m.objects.Owns t) ⟨(m.frames t).call, .returned, (m.frames t).answer⟩ := by
  obtain ⟨σ, reaches, follows⟩ := simulated_of_run run
  obtain ⟨spl, fits⟩ := follows.fits settled t
  have knows := (System.Sound.of_reaches reaches).knows t
  obtain ⟨frame, pos⟩ := fits.outside outside
  rw [follows.objects settled] at knows
  rw [frame, ← pos]
  exact knows

/-- A lock has one holder, its `owner` field says who that is, `lock_do_i_hold` answers
accordingly, and a lock on which a thread sleeps is taken. -/
theorem lock_exclusion (run : Run Machine.Step (Machine.start initial) history m)
    (settled : m.Settled) (l : Ptr) :
    (∀ t u, m.objects.held l t = true → m.objects.held l u = true → t = u) ∧
    (∀ t, m.objects.owner l = some t ↔ m.objects.held l t = true) ∧
    (∀ t, m.Outside t → (m.frames t).call = some (.lockDoIHold l) →
      ((m.frames t).answer = true ↔ m.objects.held l t = true)) ∧
    (∀ t, (t, .lock l) ∈ m.objects.sleepers → m.objects.owner l ≠ none) := by
  have sound := sound_of_run run settled
  have owned : ∀ t, m.objects.owner l = some t ↔ m.objects.held l t = true :=
    sound.owned l
  refine ⟨?_, owned, ?_, ?_⟩
  · intro t u first second
    exact Option.some.inj (((owned t).mpr first).symm.trans ((owned u).mpr second))
  · intro t outside call
    have knows := knows_of_run run settled outside
    simp only [Stage.Knows, call] at knows
    exact knows.trans (owned t)
  · exact fun t asleep => sound.awaited t l asleep

omit [DecidableEq τ] in
theorem settled_of_idle (running : m.stopped = none) (idle : m.curthread = none) : m.Settled :=
  ⟨running, fun t current => absurd (idle.symm.trans current) (by simp)⟩

/-- One thread takes the lock, the other calls `lock_acquire` and goes to sleep. -/
def contention : List (Event (Fin 2)) :=
  [.dispatch 0, .call (.lockAcquire 7)] ++ List.replicate 9 .run ++
    [.yield, .dispatch 1, .call (.lockAcquire 7)] ++ List.replicate 6 .run

theorem lock_exclusion_contention :
    ∃ history m, Run Machine.Step (Machine.start fun _ => 0) history m ∧
      history.map Prod.snd = contention.reverse ∧ m.Settled ∧
      (1, .lock 7) ∈ m.objects.sleepers ∧ m.objects.held 7 0 = true ∧
      m.objects.held 7 1 ≠ true := by
  obtain ⟨m, reached, running, idle, asleep, owner⟩ :
      ∃ m, execute Machine.next (Machine.start fun _ => 0) contention = some m ∧
        m.stopped = none ∧ m.curthread = none ∧ (1, .lock 7) ∈ m.objects.sleepers ∧
        m.objects.owner 7 = some 0 :=
    execute_check (by decide +kernel)
  obtain ⟨history, run, same⟩ := Run.of_execute reached
  have settled := settled_of_idle running idle
  obtain ⟨once, owned, -⟩ := lock_exclusion run settled 7
  have held := (owned 0).mp owner
  exact ⟨history, m, run, same, settled, asleep, held,
    fun too => absurd (once 0 1 held too) (by decide)⟩

/-- Wherever a thread can lose the processor, `synch.c` is where it would be if nobody was ever
interrupted inside a section. -/
theorem sections_atomic (run : Run Machine.Step (Machine.start initial) history m)
    (settled : m.Settled) : ∃ σ, (System.start initial).Reaches σ ∧ σ.objects = m.objects ∧
      ∀ t, ∃ spl, Fits (m.frames t) spl (σ.stages t) := by
  obtain ⟨σ, reaches, follows⟩ := simulated_of_run run
  exact ⟨σ, reaches, follows.objects settled, follows.fits settled⟩

theorem sections_atomic_contention :
    ∃ (m : Machine (Fin 2)) (σ : System (Fin 2)), (System.start fun _ => 0).Reaches σ ∧
      σ.objects = m.objects ∧ (1, .lock 7) ∈ m.objects.sleepers := by
  obtain ⟨m, reached, running, idle, asleep⟩ :
      ∃ m, execute Machine.next (Machine.start fun _ => 0) contention = some m ∧
        m.stopped = none ∧ m.curthread = none ∧ (1, .lock 7) ∈ m.objects.sleepers :=
    execute_check (by decide +kernel)
  obtain ⟨history, run, -⟩ := Run.of_execute reached
  obtain ⟨σ, reaches, same, -⟩ := sections_atomic run (settled_of_idle running idle)
  exact ⟨m, σ, reaches, same, asleep⟩

end Machine

end Os161.Synch
