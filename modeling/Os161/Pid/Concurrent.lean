import Os161.Pid.Runs

/-!
# Processes waiting and exiting at the same time

Every process is one thread, named by its block. A thread gives up the processor where
it sleeps and wherever interrupts are on, so `wait_pid`, which runs with interrupts on,
is cut at every access to shared memory. `thread_fork` and `thread_exit` raise the
interrupt level around `inform_process_add` and `inform_process_exit`; each of those is
one step, except that an exit may sleep in `lock_acquire`.
-/
namespace Os161.Pid

open PidManager Foundation

/-- What threads sleep on here: the lock of the pid manager, and the `exit_cv` of a block. -/
inductive SleepAddr where
  | lock
  | exitCv (block : Ptr)
  deriving DecidableEq

/-- Where a thread is. The pid in a `wait` position is the first argument of `wait_pid`. -/
inductive Pc where
  /-- Outside the pid manager. -/
  | user
  /-- `get_parent` is about to load the table entry. -/
  | waitSlot (pid : Int)
  /-- `get_parent` has loaded the entry and is about to read `my_parent`. -/
  | waitParent (pid : Int) (block : Option Ptr)
  /-- `lock_acquire`, before the test of `lock_do_i_hold`. -/
  | waitAcquire (pid : Int)
  /-- `lock_acquire`, at the head of its loop. -/
  | waitLock (pid : Int)
  | waitLockAsleep (pid : Int)
  /-- Owns the lock and is about to look the block up. -/
  | waitBlock (pid : Int)
  /-- About to test `!block->is_exited`. -/
  | waitTest (pid : Int) (block : Option Ptr)
  /-- About to call `cv_wait`. -/
  | waitCv (pid : Int) (block : Ptr)
  | waitCvAsleep (pid : Int) (block : Ptr)
  /-- Woken in `cv_wait`, which now calls `lock_acquire`. -/
  | waitReacquire (pid : Int)
  /-- Woken in that `lock_acquire`, at the head of its loop. -/
  | waitRelock (pid : Int)
  | waitRelockAsleep (pid : Int)
  /-- Owns the lock and is about to look the block up once more. -/
  | waitReread (pid : Int)
  /-- About to read `exit_status`. -/
  | waitStatus (pid : Int) (block : Option Ptr)
  /-- About to release the lock. -/
  | waitRelease (pid : Int) (status : CInt)
  /-- `wait_pid` has returned; `status` is what it stored through its third argument. -/
  | waitDone (pid : Int) (result : Errno) (status : Option CInt)
  /-- Woken in `inform_process_exit`, at the head of the loop of `lock_acquire`. -/
  | exitLock (block : Ptr) (status : CInt)
  | exitLockAsleep (block : Ptr) (status : CInt)
  /-- `inform_process_exit` has returned; `thread_exit` does not. -/
  | exited
  deriving DecidableEq

namespace Pc

/-- The positions between the return of `lock_acquire` and `lock_release`. -/
def holds : Pc → Bool
  | waitBlock _ | waitTest _ _ | waitCv _ _ | waitReread _ | waitStatus _ _
  | waitRelease _ _ => true
  | _ => false

def sleepsOn : Pc → Option SleepAddr
  | waitLockAsleep _ | waitRelockAsleep _ | exitLockAsleep _ _ => some .lock
  | waitCvAsleep _ p => some (.exitCv p)
  | _ => none

/-- Where a sleeping thread continues. -/
def resume : Pc → Pc
  | waitLockAsleep c => waitLock c
  | waitRelockAsleep c => waitRelock c
  | waitCvAsleep c _ => waitReacquire c
  | exitLockAsleep p s => exitLock p s
  | pc => pc

/-- `thread_wakeup` on each of `addrs`. -/
def wakeup (addrs : List SleepAddr) (pc : Pc) : Pc :=
  match pc.sleepsOn with
  | some addr => if addr ∈ addrs then pc.resume else pc
  | none => pc

/-- The process a thread waits for. -/
def target : Pc → Option Int
  | waitSlot c | waitParent c _ | waitAcquire c | waitLock c | waitLockAsleep c | waitBlock c
  | waitTest c _ | waitCv c _ | waitCvAsleep c _ | waitReacquire c | waitRelock c
  | waitRelockAsleep c | waitReread c | waitStatus c _ | waitRelease c _ | waitDone c _ _ => some c
  | _ => none

end Pc

structure Thread where
  /-- `t_pid`. -/
  pid : Int
  pc : Pc
  /-- Kept for the record: the argument of the `sys_exit` it has called. -/
  code : Option CInt
  /-- Kept for the record: the status it has passed to `inform_process_exit`. -/
  status : Option CInt

structure System where
  world : World
  threads : Ptr → Option Thread
  /-- The thread whose fault stopped the kernel. -/
  crashed : Option (Ptr × Fault)

/-! ### `sys_exit` -/

/-- The status `thread_exit` passes to `inform_process_exit`. -/
def threadExit : CInt := 0

/-- `_exit` has no use for its argument. -/
def _exit (_exitcode : CInt) : CInt := threadExit

/-- The status that reaches `inform_process_exit` from `sys_exit(code)`. -/
def sysExit (code : CInt) : CInt := _exit code

/-! ### One step of a thread inside the pid manager -/

/-- What a step leaves: the table, the thread's next position, and the addresses on which
it has called `thread_wakeup`. -/
structure Effect where
  pm : PidManager
  pc : Pc
  wakes : List SleepAddr

namespace PidManager

/-- A step that writes nothing and wakes nobody. -/
def quiet (pm : PidManager) (pc : Pc) : Except Fault Effect := .ok ⟨pm, pc, []⟩

/-- The end of `lock_acquire`: one turn of its loop, by a thread that goes on to `inside`
when it gets the lock and sleeps at `asleep` otherwise. -/
def acquire (pm : PidManager) (me : Ptr) (inside asleep : Pc) : Except Fault Effect :=
  match pm.lock with
  | none => .ok ⟨{ pm with lock := some me }, inside, []⟩
  | some _ => pm.quiet asleep

def lockRelease (pm : PidManager) (me : Ptr) (after : Pc) : Except Fault Effect :=
  if pm.lock = some me then .ok ⟨{ pm with lock := none }, after, [.lock]⟩ else .error .assertion

/-- `inform_process_exit` from the loop of `lock_acquire` on. With the lock it runs to its
end, since interrupts are off: the broadcast, the critical section and the release. -/
def finishExit (pm : PidManager) (me p : Ptr) (pid : Int) (status : CInt) : Except Fault Effect :=
  match pm.lock with
  | some _ => pm.quiet (.exitLockAsleep p status)
  | none =>
    match exitCritical { pm with lock := some me } p pid status with
    | .error fault => .error fault
    -- who the broadcast wakes finds the lock taken until here
    | .ok after => .ok ⟨{ after with lock := none }, .exited, [.exitCv p, .lock]⟩

/-- `inform_process_exit` up to where it ends or sleeps. -/
def enterExit (pm : PidManager) (me : Ptr) (pid : Int) (status : CInt) : Except Fault Effect :=
  match pm.getPidBlock pid with
  | none => pm.quiet .exited
  | some p => if pm.lock = some me then .error .panic else pm.finishExit me p pid status

/-- `wait_pid` up to its first access to shared memory. -/
def enterWait (pm : PidManager) (pid : Int) : Except Fault Effect :=
  if validatePid pid then pm.quiet (.waitSlot pid) else pm.quiet (.waitDone pid .EINVAL none)

/-- The value of `info_block->my_parent` in `get_parent`; a block freed since the table
entry was loaded reads as `garbage`. -/
def readParent (pm : PidManager) (garbage : Int) : Option Ptr → Int
  | none => -1
  | some p =>
    match pm.heap p with
    | some block => block.myParent
    | none => garbage

/-- The next step of thread `me`, whose pid is `pid`, from inside the pid manager; `none`
when it is outside or asleep. -/
def advance (pm : PidManager) (garbage : Int) (me : Ptr) (pid : Int) :
    Pc → Option (Except Fault Effect)
  | .waitSlot c => some (pm.quiet (.waitParent c (pm.getPidBlock c)))
  -- the lock is not held yet, and the block may be gone by now
  | .waitParent c block =>
    if pm.readParent garbage block = pid then some (pm.quiet (.waitAcquire c))
    else some (pm.quiet (.waitDone c .EINVAL none))
  | .waitAcquire c =>
    if pm.lock = some me then some (.error .panic) else some (pm.quiet (.waitLock c))
  | .waitLock c => some (pm.acquire me (.waitBlock c) (.waitLockAsleep c))
  | .waitBlock c => some (pm.quiet (.waitTest c (pm.getPidBlock c)))
  | .waitTest _ none => some (.error .nullDereference)
  | .waitTest c (some p) =>
    match pm.deref p with
    | .error fault => some (.error fault)
    -- an `if`, not a `while`: after the `cv_wait` the flag is not tested again
    | .ok block => some (pm.quiet (if block.isExited then .waitReread c else .waitCv c p))
  | .waitCv c p =>
    match pm.deref p with
    | .error fault => some (.error fault)
    | .ok _ => some (pm.lockRelease me (.waitCvAsleep c p))
  -- `lock_acquire` inside `cv_wait`, with interrupts off up to its first sleep
  | .waitReacquire c =>
    if pm.lock = some me then some (.error .panic)
    else some (pm.acquire me (.waitReread c) (.waitRelockAsleep c))
  | .waitRelock c => some (pm.acquire me (.waitReread c) (.waitRelockAsleep c))
  | .waitReread c => some (pm.quiet (.waitStatus c (pm.getPidBlock c)))
  | .waitStatus _ none => some (.error .nullDereference)
  | .waitStatus c (some p) =>
    match pm.deref p with
    | .error fault => some (.error fault)
    | .ok block => some (pm.quiet (.waitRelease c block.exitStatus))
  | .waitRelease c status => some (pm.lockRelease me (.waitDone c .success (some status)))
  | .waitDone _ _ _ => some (pm.quiet .user)
  | .exitLock p status => some (pm.finishExit me p pid status)
  | .user | .waitLockAsleep _ | .waitCvAsleep _ _ | .waitRelockAsleep _ | .exitLockAsleep _ _
  | .exited => none

end PidManager

/-! ### The system -/

namespace System

/-- Thread `t`, now `th`, takes its step: the others see the table it leaves and the
wakeups it makes. A fault stops the kernel. -/
def apply (σ : System) (t : Ptr) (th : Thread) : Except Fault Effect → System
  | .error fault => { σ with crashed := some (t, fault) }
  | .ok effect =>
    { σ with
      world := { σ.world with pm := effect.pm }
      threads := fun u =>
        if u = t then some { th with pc := effect.pc }
        else (σ.threads u).map fun other => { other with pc := other.pc.wakeup effect.wakes } }

/-- `inform_process_add`, called from `thread_fork` by `t`. -/
def fork (σ : System) (t : Ptr) (th : Thread) (mem : AddMemory) : System :=
  match σ.world.pm.informProcessAdd mem t th.pid with
  | .error fault => { σ with crashed := some (t, fault) }
  | .ok reply =>
    { σ with
      world := σ.world.added t reply
      threads :=
        if reply.result = .success then
          Function.update σ.threads σ.world.pm.brk (some ⟨reply.pid, .user, none, none⟩)
        else σ.threads }

end System

/-- What a thread does next. -/
inductive Action where
  | fork (mem : AddMemory)
  /-- Calls `wait_pid(pid, t_pid, &status)`. -/
  | wait (pid : Int)
  /-- Calls `inform_process_exit(t_pid, status)` with interrupts off, as `thread_exit` does. -/
  | informExit (status : CInt)
  | sysExit (code : CInt)
  /-- Goes on inside the pid manager; `garbage` is what a read of freed memory yields. -/
  | goOn (garbage : Int)

/-- One step of thread `t`. The boot process stays in the menu loop, whose only way out
halts the machine, so it never exits. -/
def System.step (σ : System) (t : Ptr) (action : Action) : Option System :=
  match σ.crashed, σ.threads t with
  | none, some th =>
    match action with
    | .fork mem => if th.pc = .user then some (σ.fork t th mem) else none
    | .wait c => if th.pc = .user then some (σ.apply t th (σ.world.pm.enterWait c)) else none
    | .informExit status =>
      if th.pc = .user ∧ t ≠ bootBlock then
        some (σ.apply t { th with code := none, status := some status }
          (σ.world.pm.enterExit t th.pid status))
      else none
    | .sysExit code =>
      if th.pc = .user ∧ t ≠ bootBlock then
        some (σ.apply t { th with code := some code, status := some (sysExit code) }
          (σ.world.pm.enterExit t th.pid (sysExit code)))
      else none
    | .goOn garbage => (σ.world.pm.advance garbage t th.pid th.pc).map (σ.apply t th)
  | _, _ => none

def System.next (σ : System) (label : Ptr × Action) : Option System := σ.step label.1 label.2

abbrev System.Step : System → Ptr × Action → System → Prop := Computes System.next

/-- The boot process alone, outside the pid manager. -/
def bootSystem (w : World) : System where
  world := w
  threads := fun t => if t = bootBlock then some ⟨1, .user, none, none⟩ else none
  crashed := none

/-- What a step can be. Both ways into `inform_process_exit` come out as one case. -/
theorem System.step_cases {σ after : System} {t : Ptr} {action : Action}
    (taken : σ.step t action = some after) :
    σ.crashed = none ∧ ∃ th, σ.threads t = some th ∧
      ((∃ mem, th.pc = .user ∧ after = σ.fork t th mem) ∨
        (∃ c, th.pc = .user ∧ after = σ.apply t th (σ.world.pm.enterWait c)) ∨
        (∃ th' status, th.pc = .user ∧ t ≠ bootBlock ∧ th'.pid = th.pid ∧
          th'.status = some status ∧
          (∀ code, th'.code = some code → th'.status = some (sysExit code)) ∧
          after = σ.apply t th' (σ.world.pm.enterExit t th.pid status)) ∨
        (∃ garbage outcome, σ.world.pm.advance garbage t th.pid th.pc = some outcome ∧
          after = σ.apply t th outcome)) := by
  unfold step at taken
  split at taken
  next th running found =>
    refine ⟨running, th, found, ?_⟩
    cases action with
    | fork mem =>
      simp only [Option.ite_none_right_eq_some, Option.some.injEq] at taken
      exact .inl ⟨mem, taken.1, taken.2.symm⟩
    | wait c =>
      simp only [Option.ite_none_right_eq_some, Option.some.injEq] at taken
      exact .inr (.inl ⟨c, taken.1, taken.2.symm⟩)
    | informExit status =>
      simp only [Option.ite_none_right_eq_some, Option.some.injEq] at taken
      exact .inr (.inr (.inl ⟨{ th with code := none, status := some status }, status, taken.1.1,
        taken.1.2, rfl, rfl, by simp, taken.2.symm⟩))
    | sysExit code =>
      simp only [Option.ite_none_right_eq_some, Option.some.injEq] at taken
      exact .inr (.inr (.inl ⟨{ th with code := some code, status := some (Pid.sysExit code) },
        Pid.sysExit code, taken.1.1, taken.1.2, rfl, rfl, by simp, taken.2.symm⟩))
    | goOn garbage =>
      obtain ⟨outcome, moved, eq⟩ := Option.map_eq_some_iff.mp taken
      exact .inr (.inr (.inr ⟨garbage, outcome, moved, eq.symm⟩))
  next => cases taken

end Os161.Pid
