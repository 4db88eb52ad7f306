import Os161.Pid.Concurrent

/-!
# The handshake between `wait_pid` and `inform_process_exit`

`Consistent` ties the positions of the threads to the table: who owns the lock, who is
asleep, and what a parent inside `wait_pid` has already learnt about its child. It is
kept by every step of every thread. While the parent runs, the block of a child it has
forked stays in its slot, so nothing the parent has read becomes stale.
-/
namespace Os161.Pid

open PidManager Foundation
open Pc (holds sleepsOn)

/-! ### Waking up -/

namespace Pc

theorem wakeup_cases (addrs : List SleepAddr) (pc : Pc) :
    pc.wakeup addrs = pc ∨
      ∃ addr ∈ addrs, pc.sleepsOn = some addr ∧ pc.wakeup addrs = pc.resume := by
  unfold wakeup
  split
  next addr asleep =>
    split
    next woken => exact .inr ⟨addr, woken, asleep, rfl⟩
    next => exact .inl rfl
  next => exact .inl rfl

@[simp] theorem holds_wakeup (addrs : List SleepAddr) (pc : Pc) :
    (pc.wakeup addrs).holds = pc.holds := by
  rcases pc.wakeup_cases addrs with same | ⟨addr, -, asleep, woken⟩
  · rw [same]
  · rw [woken]
    cases pc <;> rfl

@[simp] theorem wakeup_eq_exited (addrs : List SleepAddr) (pc : Pc) :
    pc.wakeup addrs = .exited ↔ pc = .exited := by
  rcases pc.wakeup_cases addrs with same | ⟨addr, -, asleep, woken⟩
  · rw [same]
  · rw [woken]
    cases pc <;> simp [resume]

/-- Whoever still sleeps was not called. -/
theorem sleepsOn_wakeup {addrs : List SleepAddr} {pc : Pc} {addr : SleepAddr}
    (asleep : (pc.wakeup addrs).sleepsOn = some addr) :
    pc.sleepsOn = some addr ∧ addr ∉ addrs := by
  unfold wakeup at asleep
  split at asleep
  next other sleeping =>
    split at asleep
    next => cases pc <;> simp [resume, sleepsOn] at asleep sleeping
    next still =>
      rw [sleeping] at asleep
      cases asleep
      exact ⟨sleeping, still⟩
  next awake =>
    rw [awake] at asleep
    cases asleep

end Pc

/-! ### The invariant -/

/-- The process `p` is in the table and has not exited. -/
def PidManager.Runs (pm : PidManager) (p : Ptr) : Prop :=
  ∃ block, pm.heap p = some block ∧ block.isExited = false

/-- What a thread's position says about the table. -/
def Placed (pm : PidManager) (t : Ptr) (th : Thread) : Prop :=
  match th.pc with
  | .waitTest c (some p) | .waitStatus c (some p) => pm.getPidBlock c = some p
  | .waitCv c p | .waitCvAsleep c p => pm.getPidBlock c = some p ∧ pm.Runs p
  | .exitLock p status | .exitLockAsleep p status =>
    p = t ∧ t ≠ bootBlock ∧ th.status = some status
  | _ => True

/-- What the forker of `child` knows about it at each position of `wait_pid`. -/
def Pc.Knows (child : Ptr) (block : PidInfoBlock) : Pc → Prop
  -- the slot has been read, and the child cannot leave it
  | .waitParent c p | .waitTest c p => c = block.myPid → p = some child
  -- past the test or the broadcast: the child has exited
  | .waitReacquire c | .waitRelock c | .waitRelockAsleep c | .waitReread c =>
    c = block.myPid → block.isExited = true
  | .waitStatus c p => c = block.myPid → p = some child ∧ block.isExited = true
  | .waitRelease c status => c = block.myPid → block.isExited = true ∧ status = block.exitStatus
  | .waitDone c result status =>
    c = block.myPid → block.isExited = true ∧ result = .success ∧ status = some block.exitStatus
  | _ => True

/-- What the thread `t` knows at a position about the children it has forked. -/
def World.Informs (w : World) (t : Ptr) (pc : Pc) : Prop :=
  ∀ child block, w.forker child = some t → w.pm.heap child = some block → pc.Knows child block

structure Fitting (σ : System) (t : Ptr) (th : Thread) : Prop where
  born : t < σ.world.pm.brk
  running : th.pc ≠ .exited → σ.world.pm.Runs t
  /-- Nobody sleeps on a free lock. -/
  awake : th.pc.sleepsOn = some .lock → σ.world.pm.lock ≠ none
  placed : Placed σ.world.pm t th
  coded : ∀ code, th.code = some code → th.status = some (sysExit code)
  knows : th.pc ≠ .exited → 2 ≤ th.pid → σ.world.Informs t th.pc

structure Consistent (procs : CInt) (σ : System) : Prop where
  coherent : Coherent procs σ.world.pm
  family : Family σ.world
  each : ∀ t th, σ.threads t = some th → Fitting σ t th
  /-- Every block belongs to a thread, and is marked when the thread has exited. -/
  thread : ∀ t block, σ.world.pm.heap t = some block → ∃ th, σ.threads t = some th ∧
    th.pid = block.myPid ∧ (block.isExited = true ↔ th.pc = .exited) ∧
    (block.isExited = true → th.status = some block.exitStatus)
  boot : ∃ th, σ.threads bootBlock = some th ∧ th.pid = 1 ∧ th.pc ≠ .exited
  owner : ∀ t, σ.world.pm.lock = some t ↔ ∃ th, σ.threads t = some th ∧ th.pc.holds = true

theorem System.apply_threads {σ : System} {t u : Ptr} {th x : Thread} {effect : Effect}
    (found : (σ.apply t th (.ok effect)).threads u = some x) :
    (u = t ∧ x = { th with pc := effect.pc }) ∨
      (u ≠ t ∧ ∃ y, σ.threads u = some y ∧ x = { y with pc := y.pc.wakeup effect.wakes }) := by
  simp only [apply] at found
  split at found
  next here => exact .inl ⟨here, (Option.some.inj found).symm⟩
  next other =>
    obtain ⟨y, old, rfl⟩ := Option.map_eq_some_iff.mp found
    exact .inr ⟨other, y, old, rfl⟩

theorem System.apply_threads_self (σ : System) (t : Ptr) (th : Thread) (effect : Effect) :
    (σ.apply t th (.ok effect)).threads t = some { th with pc := effect.pc } := by
  simp [apply]

theorem System.apply_threads_other {σ : System} {t u : Ptr} {y : Thread} (th : Thread)
    (effect : Effect) (other : u ≠ t) (old : σ.threads u = some y) :
    (σ.apply t th (.ok effect)).threads u = some { y with pc := y.pc.wakeup effect.wakes } := by
  simp [apply, other, old]

open Pid.System (apply_threads apply_threads_other apply_threads_self)

/-- A woken thread is where its old position put it. -/
theorem Placed.wakeup {pm : PidManager} {u : Ptr} {y : Thread} (placed : Placed pm u y)
    (addrs : List SleepAddr) : Placed pm u { y with pc := y.pc.wakeup addrs } := by
  rcases y.pc.wakeup_cases addrs with same | ⟨addr, -, asleep, woken⟩
  · rw [same]
    exact placed
  · unfold Placed at placed ⊢
    cases position : y.pc <;> simp_all [Pc.resume, sleepsOn]

/-- A thread woken from the lock learns nothing new. -/
theorem Pc.Knows.resume {child : Ptr} {block : PidInfoBlock} {pc : Pc}
    (knows : pc.Knows child block)
    (asleep : pc.sleepsOn = some .lock) : pc.resume.Knows child block := by
  cases pc with
  | waitRelockAsleep c => exact knows
  | waitLockAsleep c => trivial
  | exitLockAsleep p status => trivial
  | _ => cases asleep

/-- Knowledge survives whatever happens to a block: its pid stays, and so does its exit. -/
theorem Pc.Knows.mono {child : Ptr} {old new : PidInfoBlock} {pc : Pc} (knows : pc.Knows child old)
    (pid : new.myPid = old.myPid)
    (kept : old.isExited = true → new.isExited = true ∧ new.exitStatus = old.exitStatus) :
    pc.Knows child new := by
  cases pc with
  | waitParent c p | waitTest c p => exact fun same => knows (same.trans pid)
  | waitReacquire c | waitRelock c | waitRelockAsleep c | waitReread c =>
    exact fun same => (kept (knows (same.trans pid))).1
  | waitStatus c p =>
    intro same
    exact ⟨(knows (same.trans pid)).1, (kept (knows (same.trans pid)).2).1⟩
  | waitRelease c status =>
    intro same
    obtain ⟨exited, value⟩ := knows (same.trans pid)
    exact ⟨(kept exited).1, value.trans (kept exited).2.symm⟩
  | waitDone c result status =>
    intro same
    obtain ⟨exited, success, value⟩ := knows (same.trans pid)
    exact ⟨(kept exited).1, success, by rw [value, (kept exited).2]⟩
  | _ => trivial

/-! ### Steps that leave the table alone -/

theorem Coherent.relock {procs : CInt} {pm : PidManager} (coherent : Coherent procs pm)
    (lock : Option Ptr) : Coherent procs { pm with lock := lock } :=
  ⟨coherent.filled, coherent.listed, coherent.fresh, coherent.counted, coherent.nextInRange⟩

theorem Family.relock {w : World} (family : Family w) (lock : Option Ptr) :
    Family { w with pm := { w.pm with lock := lock } } :=
  ⟨family.recent, family.lineage, family.positive, family.root, family.apart, family.nodup,
    family.forked, family.complete, family.keeps⟩

namespace Consistent

variable {procs : CInt} {σ : System} {t : Ptr} {th : Thread}

section

variable (consistent : Consistent procs σ) (here : σ.threads t = some th)

include consistent here

theorem block_of_running (alive : th.pc ≠ .exited) :
    ∃ block, σ.world.pm.heap t = some block ∧ block.isExited = false ∧ block.myPid = th.pid := by
  obtain ⟨block, found, unmarked⟩ := (consistent.each t th here).running alive
  obtain ⟨th', again, pid, -⟩ := consistent.thread t block found
  rw [here] at again
  cases again
  exact ⟨block, found, unmarked, pid.symm⟩

/-- A running thread finds its own block in the table. -/
theorem own_slot (alive : th.pc ≠ .exited) : σ.world.pm.getPidBlock th.pid = some t := by
  obtain ⟨block, found, -, pid⟩ := consistent.block_of_running here alive
  rw [← pid]
  exact (consistent.coherent.listed t block found).2.2

/-- Only the boot process has pid 1. -/
theorem two_le_pid (alive : th.pc ≠ .exited) (other : t ≠ bootBlock) : 2 ≤ th.pid := by
  obtain ⟨block, found, -, pid⟩ := consistent.block_of_running here alive
  have positive := (consistent.coherent.listed t block found).1
  obtain ⟨first, there, one, up⟩ := consistent.boot
  have slot := consistent.own_slot there up
  by_contra small
  have same : th.pid = first.pid := by omega
  rw [← same, consistent.own_slot here alive] at slot
  exact other (Option.some.inj slot)

theorem owner_iff : σ.world.pm.lock = some t ↔ th.pc.holds = true := by
  rw [consistent.owner t]
  constructor
  · rintro ⟨th', again, holds⟩
    rw [here] at again
    cases again
    exact holds
  · intro holds
    exact ⟨th, here, holds⟩

/-- Thread `t` moves to `pc` and the lock to `lock`; at most the lock's sleepers wake. -/
theorem relock (alive : th.pc ≠ .exited) {th' : Thread} (pid : th'.pid = th.pid)
    (coded : ∀ code, th'.code = some code → th'.status = some (sysExit code)) {lock : Option Ptr}
    {pc : Pc} {wakes : List SleepAddr} (stays : pc ≠ .exited)
    (mine : lock = some t ↔ pc.holds = true)
    (others : ∀ u, u ≠ t → (lock = some u ↔ σ.world.pm.lock = some u))
    (called : ∀ addr ∈ wakes, addr = .lock)
    (free : lock = none → σ.world.pm.lock = none ∨ SleepAddr.lock ∈ wakes)
    (asleep : pc.sleepsOn = some .lock → lock ≠ none)
    (placed : Placed σ.world.pm t { th' with pc := pc })
    (knows : 2 ≤ th.pid → σ.world.Informs t pc) :
    Consistent procs (σ.apply t th' (.ok ⟨{ σ.world.pm with lock := lock }, pc, wakes⟩)) := by
  obtain ⟨own, found, unmarked, number⟩ := consistent.block_of_running here alive
  constructor
  case coherent => exact consistent.coherent.relock lock
  case family => exact consistent.family.relock lock
  case each =>
    intro u x there
    rcases apply_threads there with ⟨rfl, rfl⟩ | ⟨-, y, old, rfl⟩
    · exact ⟨(consistent.each u th here).born, fun _ => ⟨own, found, unmarked⟩, asleep,
        placed, coded, fun _ two => knows (pid ▸ two)⟩
    have each := consistent.each u y old
    refine ⟨each.born, fun up => each.running (by simpa using up), fun sleeping unlocked => ?_,
      each.placed.wakeup wakes, each.coded, fun up two child block forked allocated => ?_⟩
    · -- a lock that has become free has woken all its sleepers
      obtain ⟨before, unheard⟩ := Pc.sleepsOn_wakeup sleeping
      rcases free unlocked with never | heard
      · exact each.awake before never
      · exact unheard heard
    have before := each.knows (by simpa using up) two child block forked allocated
    -- only the sleepers of the lock are woken, and they learn nothing by it
    rcases y.pc.wakeup_cases wakes with same | ⟨addr, heard, sleeping, woken⟩
    · simpa [same] using before
    · rw [called addr heard] at sleeping
      simpa [woken] using before.resume sleeping
  case thread =>
    intro u block allocated
    by_cases self : u = t
    · subst u
      have same : block = own := Option.some.inj (allocated.symm.trans found)
      subst same
      exact ⟨_, apply_threads_self .., by simp [pid, number], by simp [unmarked, stays],
        by simp [unmarked]⟩
    · obtain ⟨y, old, number', marked, recorded⟩ := consistent.thread u block allocated
      exact ⟨_, apply_threads_other th' _ self old, number', by simpa using marked, recorded⟩
  case boot =>
    obtain ⟨first, old, one, up⟩ := consistent.boot
    by_cases self : bootBlock = t
    · subst self
      rw [here] at old
      cases old
      exact ⟨_, apply_threads_self .., pid.trans one, stays⟩
    · exact ⟨_, apply_threads_other th' _ self old, one, by simpa using up⟩
  case owner =>
    intro u
    change lock = some u ↔ _
    -- `t` owns the lock if its new position says so, the others are where they were
    by_cases self : u = t
    · subst u
      rw [mine]
      constructor
      · intro holds
        exact ⟨_, apply_threads_self .., holds⟩
      rintro ⟨x, there, holds⟩
      rw [apply_threads_self] at there
      cases there
      exact holds
    rw [others u self, consistent.owner u]
    constructor
    · rintro ⟨y, old, holds⟩
      exact ⟨_, apply_threads_other th' _ self old, by simpa using holds⟩
    rintro ⟨x, there, holds⟩
    rcases apply_threads there with ⟨same, -⟩ | ⟨-, y, old, rfl⟩
    · exact absurd same self
    · exact ⟨y, old, by simpa using holds⟩

variable {effect : Effect}

theorem quiet (alive : th.pc ≠ .exited) {pc : Pc}
    (moved : σ.world.pm.quiet pc = .ok effect) (stays : pc ≠ .exited)
    (holds : pc.holds = th.pc.holds) (up : pc.sleepsOn = none)
    (placed : Placed σ.world.pm t { th with pc := pc })
    (knows : 2 ≤ th.pid → σ.world.Informs t pc) :
    Consistent procs (σ.apply t th (.ok effect)) := by
  cases moved
  exact consistent.relock here alive rfl (consistent.each t th here).coded stays
    (by rw [holds, consistent.owner_iff here]) (fun _ _ => Iff.rfl) (by simp) .inl
    (by simp [up]) placed knows

/-- One turn of the loop of `lock_acquire`. -/
theorem acquired (alive : th.pc ≠ .exited) (outside : th.pc.holds = false) {inside asleep : Pc}
    (moved : σ.world.pm.acquire t inside asleep = .ok effect)
    (holds : inside.holds = true) (sleeps : asleep.sleepsOn = some .lock)
    (placed : Placed σ.world.pm t { th with pc := inside })
    (waits : Placed σ.world.pm t { th with pc := asleep })
    (knows : 2 ≤ th.pid → σ.world.Informs t inside ∧ σ.world.Informs t asleep) :
    Consistent procs (σ.apply t th (.ok effect)) := by
  have coded := (consistent.each t th here).coded
  unfold acquire at moved
  split at moved
  next unlocked =>
    -- the lock is free and `t` takes it
    cases moved
    refine consistent.relock here alive rfl coded ?_ (by simp [holds]) ?_ (by simp) (by simp)
      (by simp) placed fun two => (knows two).1
    · rintro rfl
      cases holds
    · intro u other
      simp [unlocked, Ne.symm other]
  next u locked =>
    -- the lock is another thread's and `t` goes to sleep on it
    cases moved
    have inside' : asleep.holds = false := by
      cases asleep <;> first | rfl | cases sleeps
    have mine : σ.world.pm.lock ≠ some t := by
      rw [Ne, consistent.owner_iff here, outside]
      simp
    refine consistent.relock here alive rfl coded ?_ (by simp [inside', mine])
      (fun _ _ => Iff.rfl) (by simp) .inl (by simp [locked]) waits fun two => (knows two).2
    rintro rfl
    cases sleeps

private theorem released (alive : th.pc ≠ .exited) {after : Pc}
    (moved : σ.world.pm.lockRelease t after = .ok effect) (stays : after ≠ .exited)
    (outside : after.holds = false) (sleeps : after.sleepsOn ≠ some .lock)
    (placed : Placed σ.world.pm t { th with pc := after })
    (knows : 2 ≤ th.pid → σ.world.Informs t after) :
    Consistent procs (σ.apply t th (.ok effect)) := by
  unfold lockRelease at moved
  split at moved
  next locked =>
    cases moved
    refine consistent.relock here alive rfl (consistent.each t th here).coded stays
      (by simp [outside]) ?_ (by simp) (by simp) (by simp [sleeps]) placed knows
    intro u other
    simp [locked, Ne.symm other]
  next => cases moved

end

/-! ### Exits -/

/-- The effect of an exit on the table, with the lock taken and given back around it. -/
theorem exit_spec (consistent : Consistent procs σ) {block : PidInfoBlock} {status : CInt}
    {after : PidManager} (found : σ.world.pm.heap t = some block)
    (unlocked : σ.world.pm.lock = none)
    (critical : exitCritical { σ.world.pm with lock := some t } t block.myPid status = .ok after) :
    Coherent procs { after with lock := none } ∧
      Family.Exits σ.world.pm t block status { after with lock := none } := by
  have spec := (consistent.family.relock (some t)).exitCritical_spec
    (consistent.coherent.relock (some t)) found critical
  obtain ⟨coherent, freed, kept, slot, brk, nextPid, -⟩ := spec
  exact ⟨coherent.relock none, freed, kept, slot, brk, nextPid, unlocked.symm⟩

/-- An exit frees no process that goes on running. -/
theorem runs_of_drops {pm after : PidManager} {p q : Ptr} {block : PidInfoBlock} {status : CInt}
    (drops : Family.Exits pm p block status after)
    (runs : pm.Runs q) (other : q ≠ p) : after.Runs q ∧ ¬ Freed pm p block q := by
  obtain ⟨b, found, unmarked⟩ := runs
  obtain ⟨stays, left⟩ := Family.running_survives drops found unmarked other
  exact ⟨⟨b, left, unmarked⟩, stays⟩

end Consistent

/-- Where another thread is after the exit of `t`, which took a free lock. -/
theorem Placed.after_exit {pm after : PidManager} {t u : Ptr} {y : Thread} {block : PidInfoBlock}
    {status : CInt} (placed : Placed pm u y) (outside : y.pc.holds = false)
    (drops : Family.Exits pm t block status after) :
    Placed after u { y with pc := y.pc.wakeup [.exitCv t, .lock] } := by
  unfold Placed at placed ⊢
  cases position : y.pc with
  | waitTest c p | waitStatus c p | waitCv c p => simp [position, holds] at outside
  | waitCvAsleep c p =>
    by_cases mine : p = t
    · -- the broadcast on its own cv: it leaves the queue
      simp [Pc.wakeup, sleepsOn, Pc.resume, mine]
    · rw [position] at placed
      obtain ⟨runs, stays⟩ := Consistent.runs_of_drops drops placed.2 mine
      simpa [Pc.wakeup, sleepsOn, mine] using ⟨(drops.slot c p).mpr ⟨placed.1, stays⟩, runs⟩
  | exitLock p s | exitLockAsleep p s =>
    simpa [position, Pc.wakeup, sleepsOn, Pc.resume] using placed
  | _ => simp [Pc.wakeup, sleepsOn, Pc.resume]

namespace Consistent

variable {procs : CInt} {σ : System} {t : Ptr} {th : Thread}

section

variable (consistent : Consistent procs σ)

include consistent

private theorem exited (here : σ.threads t = some th) (alive : th.pc ≠ .exited)
    (other : t ≠ bootBlock)
    (unlocked : σ.world.pm.lock = none) {th' : Thread} {status : CInt} (pid : th'.pid = th.pid)
    (coded : ∀ code, th'.code = some code → th'.status = some (sysExit code))
    (recorded : th'.status = some status) {after : PidManager}
    (critical : exitCritical { σ.world.pm with lock := some t } t th.pid status = .ok after) :
    Consistent procs (σ.apply t th' (.ok ⟨{ after with lock := none }, .exited,
      [.exitCv t, .lock]⟩)) := by
  obtain ⟨own, found, unmarked, number⟩ := consistent.block_of_running here alive
  rw [← number] at critical
  obtain ⟨coherent, drops⟩ := consistent.exit_spec found unlocked critical
  -- the lock was free, so no thread is inside a critical section of `wait_pid`
  have outside : ∀ u y, σ.threads u = some y → y.pc.holds = false := by
    intro u y old
    rw [← Bool.not_eq_true, ← consistent.owner_iff old, unlocked]
    simp
  constructor
  case coherent => exact coherent
  case family => exact consistent.family.exit consistent.coherent found drops
  case each =>
    intro u x there
    rcases apply_threads there with ⟨rfl, rfl⟩ | ⟨apart, y, old, rfl⟩
    · exact ⟨drops.brk ▸ (consistent.each u th here).born, fun up => absurd rfl up,
        fun sleeping => (by cases sleeping), trivial, coded, fun up => absurd rfl up⟩
    have each := consistent.each u y old
    refine ⟨drops.brk ▸ each.born, fun up => (runs_of_drops drops
      (each.running (by simpa using up)) apart).1, fun sleeping => absurd (by simp)
      (Pc.sleepsOn_wakeup sleeping).2, each.placed.after_exit (outside u y old) drops, each.coded,
      fun up two child block forked allocated => ?_⟩
    have knows := each.knows (by simpa using up) two
    -- first the change to the table, then the wakeup
    have learnt : y.pc.Knows child block := by
      rcases Family.survivor drops allocated with ⟨rfl, rfl⟩ | ⟨-, before⟩
      · refine (knows child own forked found).mono rfl ?_
        simp [unmarked]
      · exact knows child block forked before
    rcases y.pc.wakeup_cases [.exitCv t, .lock] with same | ⟨addr, heard, sleeping, woken⟩
    · simpa [same] using learnt
    simp only [woken]
    rcases List.mem_cons.mp heard with rfl | heard
    · -- the broadcast: `y` slept on the block in the slot it waits for
      have there := each.placed
      unfold Placed at there
      cases position : y.pc with
      | waitCvAsleep c p =>
        rw [position] at sleeping there
        cases sleeping
        intro same
        have slot := (coherent.listed child block allocated).2.2
        rw [← same, drops.slot] at slot
        have self : child = t := Option.some.inj (slot.1.symm.trans there.1)
        rcases Family.survivor drops allocated with ⟨-, rfl⟩ | ⟨clash, -⟩
        · rfl
        · exact absurd self clash
      | _ => simp [position, sleepsOn] at sleeping
    · rw [List.mem_singleton.mp heard] at sleeping
      exact learnt.resume sleeping
  case thread =>
    intro u block allocated
    rcases Family.survivor drops allocated with ⟨rfl, rfl⟩ | ⟨apart, before⟩
    · exact ⟨_, apply_threads_self .., pid.trans number.symm, by simp, fun _ => recorded⟩
    · obtain ⟨y, old, number', marked, status'⟩ := consistent.thread u block before
      exact ⟨_, apply_threads_other th' _ apart old, number', by simpa using marked, status'⟩
  case boot =>
    obtain ⟨first, old, one, up⟩ := consistent.boot
    exact ⟨_, apply_threads_other th' _ (Ne.symm other) old, one, by simpa using up⟩
  case owner =>
    intro u
    constructor
    · intro locked
      cases locked
    rintro ⟨x, there, holds⟩
    rcases apply_threads there with ⟨rfl, rfl⟩ | ⟨-, y, old, rfl⟩
    · cases holds
    · simp [outside u y old] at holds

/-! ### Forks -/

private theorem forked (here : σ.threads t = some th) (outside : th.pc = .user) {mem : AddMemory}
    {reply : AddReply} (returned : σ.world.pm.informProcessAdd mem t th.pid = .ok reply)
    (success : reply.result = .success) :
    Consistent procs
      { σ with
        world := σ.world.added t reply
        threads := Function.update σ.threads σ.world.pm.brk
          (some ⟨reply.pid, .user, none, none⟩) } := by
  have alive : th.pc ≠ .exited := by simp [outside]
  have entry := consistent.own_slot here alive
  obtain ⟨coherent, adds, free⟩ := consistent.coherent.adds entry returned success
  have family := consistent.family.fork consistent.coherent entry free adds
  have older : ∀ u x, σ.threads u = some x → u ≠ σ.world.pm.brk := fun u x old =>
    Nat.ne_of_lt (consistent.each u x old).born
  have keep : ∀ u x, σ.threads u = some x →
      Function.update σ.threads σ.world.pm.brk (some ⟨reply.pid, .user, none, none⟩) u = some x :=
    fun u x old => (Function.update_of_ne (older u x old) _ _).trans old
  have runs : ∀ p, σ.world.pm.Runs p → reply.pm.Runs p := by
    rintro p ⟨block, found, unmarked⟩
    obtain ⟨b, now, -, -, same⟩ := adds.persists (consistent.coherent.ne_brk found) found
    exact ⟨b, now, same.trans unmarked⟩
  have world : σ.world.added t reply =
      ⟨reply.pm, Function.update σ.world.forker σ.world.pm.brk (some t)⟩ := by
    simp [World.added, success]
  rw [world]
  constructor
  case coherent => exact coherent
  case family => exact family
  case each =>
    intro u x there
    rcases update_some_eq_some.mp there with ⟨rfl, rfl⟩ | ⟨-, old⟩
    · exact ⟨adds.brk ▸ Nat.lt_succ_self _, fun _ => ⟨_, adds.new, rfl⟩,
        fun sleeping => (by cases sleeping), trivial, fun _ exits => (by cases exits),
        fun _ _ _ _ _ _ => trivial⟩
    have each := consistent.each u x old
    refine ⟨adds.brk ▸ Nat.lt_succ_of_lt each.born, fun up => runs u (each.running up),
      fun sleeping => adds.lock ▸ each.awake sleeping, ?_, each.coded,
      fun up two child block forked allocated => ?_⟩
    · have placed := each.placed
      unfold Placed at placed ⊢
      split at placed
      · exact adds.slot_kept free placed
      · exact adds.slot_kept free placed
      · exact ⟨adds.slot_kept free placed.1, runs _ placed.2⟩
      · exact ⟨adds.slot_kept free placed.1, runs _ placed.2⟩
      · exact placed
      · exact placed
      · trivial
    by_cases new : child = σ.world.pm.brk
    · -- the forker of the new process is outside `wait_pid`
      subst child
      have self : t = u := by simpa using forked
      subst self
      rw [here] at old
      cases old
      rw [outside]
      trivial
    obtain ⟨was, before, pid, -, marked, status, -⟩ := adds.survivor new allocated
    have older : σ.world.forker child = some u := by
      simpa [Function.update_of_ne new] using forked
    refine (each.knows up two child was older before).mono pid ?_
    intro exited
    exact ⟨marked.trans exited, status⟩
  case thread =>
    intro u block allocated
    by_cases new : u = σ.world.pm.brk
    · subst u
      have same : block = newBlock reply.pid th.pid :=
        Option.some.inj (allocated.symm.trans adds.new)
      subst same
      exact ⟨_, Function.update_self .., rfl, by simp [newBlock], by simp [newBlock]⟩
    obtain ⟨was, before, pid, -, marked, status, -⟩ := adds.survivor new allocated
    obtain ⟨y, old, number, exited, recorded⟩ := consistent.thread u was before
    refine ⟨y, keep u y old, number.trans pid.symm, by rw [marked, exited], ?_⟩
    rw [marked, status]
    exact recorded
  case boot =>
    obtain ⟨first, old, one, up⟩ := consistent.boot
    exact ⟨first, keep _ _ old, one, up⟩
  case owner =>
    intro u
    rw [adds.lock, consistent.owner u]
    constructor
    · rintro ⟨y, old, holds⟩
      exact ⟨y, keep u y old, holds⟩
    rintro ⟨x, there, holds⟩
    rcases update_some_eq_some.mp there with ⟨-, rfl⟩ | ⟨-, old⟩
    · cases holds
    · exact ⟨x, old, holds⟩

/-! ### Every step -/

/-- `inform_process_exit` from the loop of `lock_acquire` on. -/
theorem finishedExit (here : σ.threads t = some th) (alive : th.pc ≠ .exited)
    (outside : th.pc.holds = false) (other : t ≠ bootBlock) {th' : Thread} {status : CInt}
    (pid : th'.pid = th.pid)
    (coded : ∀ code, th'.code = some code → th'.status = some (sysExit code))
    (recorded : th'.status = some status) {effect : Effect}
    (moved : σ.world.pm.finishExit t t th.pid status = .ok effect) :
    Consistent procs (σ.apply t th' (.ok effect)) := by
  unfold finishExit at moved
  split at moved
  next u locked =>
    cases moved
    have mine : σ.world.pm.lock ≠ some t := by
      rw [Ne, consistent.owner_iff here, outside]
      simp
    exact consistent.relock here alive pid coded (by simp) (by simp [mine, holds])
      (fun _ _ => Iff.rfl) (by simp) .inl (by simp [locked]) ⟨rfl, other, recorded⟩
      (fun _ _ _ _ _ => trivial)
  next unlocked =>
    split at moved
    · cases moved
    next after critical =>
      cases moved
      exact consistent.exited here alive other unlocked pid coded recorded critical

/-- The block a parent looks up is that of its child. -/
theorem child_slot {child : Ptr} {block : PidInfoBlock} {c : Int}
    (found : σ.world.pm.heap child = some block) (same : c = block.myPid) :
    σ.world.pm.getPidBlock c = some child := by
  rw [same]
  exact (consistent.coherent.listed child block found).2.2

/-- `get_parent` tells a parent of its own child. -/
theorem readParent_child (here : σ.threads t = some th) (alive : th.pc ≠ .exited) {child : Ptr}
    {block : PidInfoBlock} (forked : σ.world.forker child = some t)
    (found : σ.world.pm.heap child = some block) (garbage : Int) :
    σ.world.pm.readParent garbage (some child) = th.pid := by
  obtain ⟨own, mine, -, number⟩ := consistent.block_of_running here alive
  simp only [readParent, found]
  rw [← number, consistent.family.lineage child t block own forked found mine]

theorem advance (here : σ.threads t = some th) {garbage : Int} {effect : Effect}
    (moved : σ.world.pm.advance garbage t th.pid th.pc = some (.ok effect)) :
    Consistent procs (σ.apply t th (.ok effect)) := by
  have alive : th.pc ≠ .exited := by
    intro dead
    simp [dead, PidManager.advance] at moved
  have placed := (consistent.each t th here).placed
  have knows := (consistent.each t th here).knows alive
  unfold Placed at placed
  generalize position : th.pc = pc at moved placed knows
  cases pc <;> simp only [PidManager.advance, Option.some.injEq, reduceCtorEq] at moved
  case waitSlot c =>
    exact consistent.quiet here alive moved (by simp) (by simp [position, holds]) rfl trivial
      fun _ child block _ found => consistent.child_slot found
  case waitParent c p =>
    split at moved <;> simp only [Option.some.injEq] at moved
    -- EINVAL is not for the forker: it reads its own pid in the block
    next admitted =>
      exact consistent.quiet here alive moved (by simp) (by simp [position, holds]) rfl trivial
        (fun _ _ _ _ _ => trivial)
    next refused =>
      refine consistent.quiet here alive moved (by simp) (by simp [position, holds]) rfl trivial ?_
      intro two child block forked found same
      rw [knows two child block forked found same,
        consistent.readParent_child here alive forked found] at refused
      exact absurd rfl refused
  case waitAcquire c =>
    split at moved <;> simp only [Option.some.injEq] at moved
    · cases moved
    · exact consistent.quiet here alive moved (by simp) (by simp [position, holds]) rfl trivial
        (fun _ _ _ _ _ => trivial)
  case waitLock c =>
    exact consistent.acquired here alive (by simp [position, holds]) moved rfl rfl trivial
      trivial fun _ => ⟨fun _ _ _ _ => trivial, fun _ _ _ _ => trivial⟩
  case waitBlock c =>
    refine consistent.quiet here alive moved (by simp) (by simp [position, holds]) rfl ?_
      fun _ child block _ found => consistent.child_slot found
    cases entry : σ.world.pm.getPidBlock c with
    | none => trivial
    | some p => exact entry
  case waitTest c p =>
    cases p with
    | none => simp at moved
    | some p =>
      simp only at moved placed
      split at moved
      · cases moved
      next seen read =>
        rw [deref_eq_ok] at read
        simp only [Option.some.injEq] at moved
        cases marked : seen.isExited with
        | true =>
          -- the child has exited before the call took the lock
          rw [marked] at moved
          refine consistent.quiet here alive moved (by simp) (by simp [position, holds]) rfl
            trivial ?_
          intro two child block forked found same
          cases knows two child block forked found same
          rw [found] at read
          cases read
          exact marked
        | false =>
          -- it still runs, and the lock keeps it from exiting until `cv_wait` sleeps
          rw [marked] at moved
          exact consistent.quiet here alive moved (by simp) (by simp [position, holds]) rfl
            ⟨placed, seen, read, marked⟩ (fun _ _ _ _ _ => trivial)
  case waitCv c p =>
    split at moved
    · cases moved
    · simp only [Option.some.injEq] at moved
      exact consistent.released here alive moved (by simp) rfl (by simp [sleepsOn]) placed
        (fun _ _ _ _ _ => trivial)
  case waitReacquire c =>
    split at moved <;> simp only [Option.some.injEq] at moved
    · cases moved
    exact consistent.acquired here alive (by simp [position, holds]) moved rfl rfl trivial
      trivial fun two => ⟨knows two, knows two⟩
  case waitRelock c =>
    exact consistent.acquired here alive (by simp [position, holds]) moved rfl rfl trivial
      trivial fun two => ⟨knows two, knows two⟩
  case waitReread c =>
    -- the second look at the slot, without a loop around the `cv_wait`
    refine consistent.quiet here alive moved (by simp) (by simp [position, holds]) rfl ?_ ?_
    · cases entry : σ.world.pm.getPidBlock c with
      | none => trivial
      | some p => exact entry
    · intro two child block forked found same
      exact ⟨consistent.child_slot found same, knows two child block forked found same⟩
  case waitStatus c p =>
    cases p with
    | none => simp at moved
    | some p =>
      simp only at moved
      split at moved
      · cases moved
      next seen read =>
        rw [deref_eq_ok] at read
        simp only [Option.some.injEq] at moved
        refine consistent.quiet here alive moved (by simp) (by simp [position, holds]) rfl
          trivial ?_
        intro two child block forked found same
        obtain ⟨self, exited⟩ := knows two child block forked found same
        cases self
        rw [found] at read
        cases read
        exact ⟨exited, rfl⟩
  case waitRelease c status =>
    refine consistent.released here alive moved (by simp) rfl (by simp [sleepsOn]) trivial ?_
    intro two child block forked found same
    obtain ⟨exited, value⟩ := knows two child block forked found same
    exact ⟨exited, rfl, by rw [value]⟩
  case waitDone c result status =>
    exact consistent.quiet here alive moved (by simp) (by simp [position, holds]) rfl trivial
      (fun _ _ _ _ _ => trivial)
  case exitLock p status =>
    obtain ⟨rfl, other, recorded⟩ := placed
    exact consistent.finishedExit here alive (by simp [position, holds]) other rfl
      (consistent.each p th here).coded recorded moved

theorem crash (why : Option (Ptr × Fault)) : Consistent procs { σ with crashed := why } :=
  { consistent with each := fun t th here => { consistent.each t th here with } }

end

section

variable (consistent : Consistent procs σ) (here : σ.threads t = some th) (outside : th.pc = .user)

include consistent here outside

private theorem fork (mem : AddMemory) : Consistent procs (σ.fork t th mem) := by
  unfold System.fork
  split
  next fault => exact consistent.crash _
  next reply returned =>
    by_cases success : reply.result = .success
    · simpa [success] using consistent.forked here outside returned success
    rcases consistent.coherent.informProcessAdd_cases returned with
      ⟨-, -, same | ⟨held, -⟩⟩ | ⟨ok, -⟩
    · simpa [success, World.added, same] using consistent.crash σ.crashed
    · -- releasing the lock is not its business: it does not hold it
      rw [consistent.owner_iff here, outside] at held
      cases held
    · exact absurd ok success

private theorem enterExit (other : t ≠ bootBlock) {th' : Thread} {status : CInt}
    (pid : th'.pid = th.pid)
    (coded : ∀ code, th'.code = some code → th'.status = some (sysExit code))
    (recorded : th'.status = some status) :
    Consistent procs (σ.apply t th' (σ.world.pm.enterExit t th.pid status)) := by
  have alive : th.pc ≠ .exited := by simp [outside]
  have unlocked : σ.world.pm.lock ≠ some t := by
    rw [Ne, consistent.owner_iff here, outside]
    simp [holds]
  simp only [PidManager.enterExit, consistent.own_slot here alive, unlocked, ite_false]
  cases moved : σ.world.pm.finishExit t t th.pid status with
  | error fault => exact consistent.crash _
  | ok effect =>
    exact consistent.finishedExit here alive (by simp [outside, holds]) other pid coded recorded
      moved

private theorem enterWait (c : Int) : Consistent procs (σ.apply t th (σ.world.pm.enterWait c)) := by
  have alive : th.pc ≠ .exited := by simp [outside]
  unfold PidManager.enterWait
  split
  next =>
    have moved : σ.world.pm.quiet (.waitSlot c) = .ok ⟨σ.world.pm, .waitSlot c, []⟩ := rfl
    exact consistent.quiet here alive moved (by simp) (by simp [outside, holds]) rfl trivial
      (fun _ _ _ _ _ => trivial)
  next invalid =>
    have moved : σ.world.pm.quiet (.waitDone c .EINVAL none) =
      .ok ⟨σ.world.pm, .waitDone c .EINVAL none, []⟩ := rfl
    refine consistent.quiet here alive moved (by simp) (by simp [outside, holds]) rfl trivial ?_
    -- the pid of a child is valid
    intro _ child block _ found same
    rw [same] at invalid
    exact absurd (consistent.coherent.valid_of_listed found) invalid

end

theorem step (consistent : Consistent procs σ) {label : Ptr × Action} {after : System}
    (taken : σ.Step label after) : Consistent procs after := by
  obtain ⟨-, th, here, ⟨mem, outside, rfl⟩ | ⟨c, outside, rfl⟩ |
    ⟨th', status, outside, other, pid, recorded, coded, rfl⟩ | ⟨garbage, outcome, moved, rfl⟩⟩ :=
    System.step_cases taken
  · exact consistent.fork here outside mem
  · exact consistent.enterWait here outside c
  · exact consistent.enterExit here outside other pid coded recorded
  · cases outcome with
    | error fault => exact consistent.crash _
    | ok effect => exact consistent.advance here moved

end Consistent

theorem Booted.consistent {procs : CInt} {w : World} (booted : Booted procs w) :
    Consistent procs (bootSystem w) := by
  have sound := booted.sound
  have only : ∀ u x, (bootSystem w).threads u = some x →
      u = bootBlock ∧ x = ⟨1, .user, none, none⟩ := by
    intro u x there
    simp only [bootSystem, Option.ite_none_right_eq_some, Option.some.injEq] at there
    exact ⟨there.1, there.2.symm⟩
  have boot : (bootSystem w).threads bootBlock = some ⟨1, .user, none, none⟩ := rfl
  have first : w.pm.heap bootBlock = some (newBlock 1 0) :=
    (booted.heap_eq_some _ _).mpr ⟨rfl, rfl⟩
  constructor
  case coherent => exact sound.coherent
  case family => exact sound.family
  case each =>
    intro u x there
    obtain ⟨rfl, rfl⟩ := only u x there
    exact ⟨sound.coherent.fresh _ _ first, fun _ => ⟨_, first, rfl⟩,
      fun sleeping => (by cases sleeping),
      trivial, fun _ exits => (by cases exits), fun _ _ _ _ _ _ => trivial⟩
  case thread =>
    intro u block found
    obtain ⟨rfl, rfl⟩ := (booted.heap_eq_some u block).mp found
    exact ⟨_, boot, rfl, by simp [newBlock], by simp [newBlock]⟩
  case boot =>
    exact ⟨_, boot, rfl, by simp⟩
  case owner =>
    intro u
    change w.pm.lock = some u ↔ _
    rw [sound.unlocked]
    constructor
    · intro locked
      cases locked
    · rintro ⟨x, there, holds⟩
      rw [(only u x there).2] at holds
      cases holds

end Os161.Pid
