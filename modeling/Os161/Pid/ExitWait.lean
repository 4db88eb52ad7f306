import Os161.Pid.Handshake

/-!
# Collecting an exit status

A parent with a pid of at least 2 that waits for its child gets the status the child
passed to `inform_process_exit`, under every interleaving with the rest of the system.
The status `sys_exit` passes on is 0 whatever its argument, so that is what the parent
of a user process gets.
-/
namespace Os161.Pid

open PidManager Foundation

/-! ### Faults -/

/-- For a caller with a block, `inform_process_add` follows no bad pointer. -/
theorem Coherent.informProcessAdd_fault {procs : CInt} {pm : PidManager}
    (coherent : Coherent procs pm) {mem : AddMemory} {me : Ptr} {parentId : Int} {fault : Fault}
    (stopped : pm.informProcessAdd mem me parentId = .error fault) :
    fault = .panic ∨ fault = .assertion := by
  obtain ⟨i, scanned, -⟩ := coherent.scanFree_spec
  unfold informProcessAdd at stopped
  split at stopped
  · cases stopped
  simp only [scanned] at stopped
  split at stopped
  · cases stopped
    exact .inl rfl
  split at stopped
  · split at stopped
    · cases stopped
    · cases stopped
      exact .inr rfl
  split at stopped
  next fault' link =>
    -- the parent's entry points to an allocated block
    unfold PidManager.linkChild at link
    split at link
    · cases link
    next p entry =>
      obtain ⟨parent, found, -⟩ := coherent.filled parentId p entry
      simp only [(deref_eq_ok pm p parent).mpr found] at link
      split at link <;> cases link
  · cases stopped
  · cases stopped

namespace Consistent

variable {procs : CInt} {σ : System} {t : Ptr} {th : Thread}

/-- An exit meets no NULL and no freed block. -/
theorem finishExit_fault (consistent : Consistent procs σ) (here : σ.threads t = some th)
    (alive : th.pc ≠ .exited) (other : t ≠ bootBlock) {status : CInt} {fault : Fault}
    (stopped : σ.world.pm.finishExit t t th.pid status = .error fault) : fault = .assertion := by
  obtain ⟨own, found, unmarked, number⟩ := consistent.block_of_running here alive
  have two := consistent.two_le_pid here alive other
  -- a process other than process 1 keeps its children while it runs
  have children : ∀ c ∈ own.children.toList, (σ.world.pm.heap c).isSome := fun c member =>
    consistent.family.keeps c t own (consistent.family.forked t own found c member) found unmarked
      (number ▸ two)
  have safe := (consistent.family.relock (some t)).exitCritical_safe
    (consistent.coherent.relock (some t)) found status children
  unfold finishExit at stopped
  split at stopped
  · cases stopped
  rw [← number] at stopped
  rcases safe with ⟨after, done⟩ | asserted
  · simp [done] at stopped
  · simp only [asserted] at stopped
    cases stopped
    rfl

/-- A fault inside `wait_pid` is not met by the forker of the process in question, and a
fault inside `inform_process_exit` is an assertion. -/
theorem advance_fault (consistent : Consistent procs σ) (here : σ.threads t = some th)
    {garbage : Int} {fault : Fault}
    (stopped : σ.world.pm.advance garbage t th.pid th.pc = some (.error fault)) :
    (th.pc.target = none → fault = .assertion) ∧
      (2 ≤ th.pid → ∀ child block, σ.world.forker child = some t →
        σ.world.pm.heap child = some block → th.pc.target ≠ some block.myPid) := by
  have alive : th.pc ≠ .exited := by
    intro dead
    simp [dead, PidManager.advance] at stopped
  have placed := (consistent.each t th here).placed
  have knows := (consistent.each t th here).knows alive
  have owner := consistent.owner_iff here
  -- the block in a slot that a thread has just looked up is allocated
  have safe : ∀ c p, σ.world.pm.getPidBlock c = some p → σ.world.pm.deref p ≠ .error fault := by
    intro c p entry clash
    obtain ⟨block, found, -⟩ := consistent.coherent.filled c p entry
    simp [(deref_eq_ok _ _ _).mpr found] at clash
  unfold Placed at placed
  generalize th.pc = pc at stopped placed knows owner ⊢
  cases pc with
  | user | waitLockAsleep c | waitCvAsleep c p | waitRelockAsleep c | exitLockAsleep p status
  | exited => simp [PidManager.advance] at stopped
  | waitSlot c | waitBlock c | waitReread c | waitDone c result status =>
    simp [PidManager.advance, PidManager.quiet] at stopped
  | waitParent c p =>
    simp only [PidManager.advance] at stopped
    split at stopped <;> simp [PidManager.quiet] at stopped
  | waitLock c | waitRelock c =>
    simp only [PidManager.advance, acquire, Option.some.injEq] at stopped
    split at stopped <;> cases stopped
  | waitAcquire c =>
    simp [PidManager.advance, owner, Pc.holds, PidManager.quiet] at stopped
  | waitReacquire c =>
    simp only [PidManager.advance, owner, Pc.holds, Bool.false_eq_true, ite_false,
      acquire, Option.some.injEq] at stopped
    split at stopped <;> cases stopped
  | waitRelease c status =>
    simp [PidManager.advance, lockRelease, owner, Pc.holds] at stopped
  | waitCv c p =>
    simp only [PidManager.advance] at stopped placed
    split at stopped
    next clash =>
      cases stopped
      exact absurd clash (safe c p placed.1)
    next => simp [lockRelease, owner, Pc.holds] at stopped
  | waitTest c p =>
    cases p with
    | none =>
      -- a NULL block, and the forker of the process in question has seen another one
      refine ⟨by simp [Pc.target], ?_⟩
      intro two child block forked found same
      cases knows two child block forked found (Option.some.inj same)
    | some p =>
      simp only [PidManager.advance] at stopped placed
      split at stopped
      next clash =>
        cases stopped
        exact absurd clash (safe c p placed)
      next => simp [PidManager.quiet] at stopped
  | waitStatus c p =>
    cases p with
    | none =>
      refine ⟨by simp [Pc.target], ?_⟩
      intro two child block forked found same
      cases (knows two child block forked found (Option.some.inj same)).1
    | some p =>
      simp only [PidManager.advance] at stopped placed
      split at stopped
      next clash =>
        cases stopped
        exact absurd clash (safe c p placed)
      next => simp [PidManager.quiet] at stopped
  | exitLock p status =>
    simp only [PidManager.advance, Option.some.injEq] at stopped placed
    obtain ⟨rfl, other, -⟩ := placed
    exact ⟨fun _ => consistent.finishExit_fault here alive other stopped, by simp [Pc.target]⟩

end Consistent

/-- What is known of a crash: outside `wait_pid` it is a failed check, and inside
`wait_pid` it is not met by the forker of the process waited for. -/
def CrashSafe (σ : System) : Prop :=
  ∀ t fault, σ.crashed = some (t, fault) → ∃ th, σ.threads t = some th ∧
    (th.pc.target = none → fault = .panic ∨ fault = .assertion) ∧
    (2 ≤ th.pid → ∀ child block, σ.world.forker child = some t →
      σ.world.pm.heap child = some block → th.pc.target ≠ some block.myPid)

theorem CrashSafe.of_running {σ : System} (running : σ.crashed = none) : CrashSafe σ := by
  intro t fault crashed
  rw [running] at crashed
  cases crashed

/-- A thread that stops while it is outside the pid manager. -/
theorem CrashSafe.of_user {σ : System} {t : Ptr} {th : Thread} {fault : Fault}
    (here : σ.threads t = some th) (outside : th.pc = .user)
    (kind : fault = .panic ∨ fault = .assertion) :
    CrashSafe { σ with crashed := some (t, fault) } := by
  intro u why crashed
  cases crashed
  exact ⟨th, here, fun _ => kind, by simp [outside, Pc.target]⟩

theorem Consistent.crashSafe_step {procs : CInt} {σ after : System} {label : Ptr × Action}
    (consistent : Consistent procs σ) (taken : System.Step σ label after) : CrashSafe after := by
  obtain ⟨running, th, here, ⟨mem, outside, rfl⟩ | ⟨c, outside, rfl⟩ |
    ⟨th', status, outside, other, pid, recorded, coded, rfl⟩ | ⟨garbage, outcome, moved, rfl⟩⟩ :=
    System.step_cases taken
  · unfold System.fork
    split
    next fault stopped =>
      exact .of_user here outside (consistent.coherent.informProcessAdd_fault stopped)
    next => exact .of_running running
  · unfold PidManager.enterWait
    split <;> exact .of_running running
  · have alive : th.pc ≠ .exited := by simp [outside]
    simp only [PidManager.enterExit, consistent.own_slot here alive]
    split
    next => exact .of_user here outside (.inl rfl)
    next =>
      cases moved : σ.world.pm.finishExit label.1 label.1 th.pid status with
      | error fault =>
        exact .of_user here outside (.inr (consistent.finishExit_fault here alive other moved))
      | ok effect => exact .of_running running
  cases outcome with
  | ok effect => exact .of_running running
  | error fault =>
    obtain ⟨outside, inside⟩ := consistent.advance_fault here moved
    intro u why crashed
    cases crashed
    exact ⟨th, here, fun free => .inr (outside free), inside⟩

variable {procs : CInt} {w : World} {history : List (System × (Ptr × Action))} {σ : System}

theorem Booted.consistent_of_run (booted : Booted procs w)
    (run : Run System.Step (bootSystem w) history σ) : Consistent procs σ :=
  run.invariant booted.consistent fun _ _ _ consistent taken => consistent.step taken

theorem Booted.crashSafe_of_run (booted : Booted procs w)
    (run : Run System.Step (bootSystem w) history σ) : CrashSafe σ := by
  cases run with
  | start => exact .of_running rfl
  | next before taken => exact (booted.consistent_of_run before).crashSafe_step taken

/-! ### The handshake -/

section Parent

variable {p c : Ptr} {parent child : Thread}

/-- While its forker runs, a child keeps its block and its slot. -/
theorem Consistent.child_block (consistent : Consistent procs σ) (there : σ.threads p = some parent)
    (running : parent.pc ≠ .exited) (two : 2 ≤ parent.pid) (forked : σ.world.forker c = some p)
    (known : σ.threads c = some child) :
    ∃ block, σ.world.pm.heap c = some block ∧ block.myPid = child.pid ∧
      (block.isExited = true ↔ child.pc = .exited) ∧
      (block.isExited = true → child.status = some block.exitStatus) := by
  obtain ⟨own, mine, unmarked, number⟩ := consistent.block_of_running there running
  obtain ⟨block, found⟩ := Option.isSome_iff_exists.mp
    (consistent.family.keeps c p own forked mine unmarked (number ▸ two))
  obtain ⟨th, again, pid, marked, recorded⟩ := consistent.thread c block found
  rw [known] at again
  cases again
  exact ⟨block, found, pid.symm, marked, recorded⟩

/-- Whatever else happens, a running parent with a pid of at least 2 that waits for a child
it has forked gets the status the child exited with. On the way the parent meets no fault
and no add or exit of any process follows a NULL or dangling pointer, and once the child's
`inform_process_exit` has returned the parent no longer sleeps on its `exit_cv`. -/
theorem exit_wait_handshake (booted : Booted procs w)
    (run : Run System.Step (bootSystem w) history σ) (there : σ.threads p = some parent)
    (running : parent.pc ≠ .exited) (two : 2 ≤ parent.pid) (forked : σ.world.forker c = some p)
    (known : σ.threads c = some child) :
    (∀ result status, parent.pc = .waitDone child.pid result status →
      result = .success ∧ child.pc = .exited ∧ status.isSome ∧ status = child.status) ∧
    (∀ fault, σ.crashed = some (p, fault) → parent.pc.target ≠ some child.pid) ∧
    (∀ t th fault, σ.crashed = some (t, fault) → σ.threads t = some th → th.pc.target = none →
      fault = .panic ∨ fault = .assertion) ∧
    (child.pc = .exited → ∀ pid, parent.pc ≠ .waitCvAsleep pid c) := by
  have consistent := booted.consistent_of_run run
  have crashSafe := booted.crashSafe_of_run run
  obtain ⟨block, found, number, marked, recorded⟩ :=
    consistent.child_block there running two forked known
  refine ⟨?_, ?_, ?_, ?_⟩
  · intro result status done
    have learnt := (consistent.each p parent there).knows running two c block forked found
    rw [done] at learnt
    obtain ⟨exited, success, value⟩ := learnt number.symm
    exact ⟨success, marked.mp exited, by simp [value], by rw [value, recorded exited]⟩
  · intro fault crashed
    obtain ⟨th, again, -, inside⟩ := crashSafe p fault crashed
    rw [there] at again
    cases again
    rw [← number]
    exact inside two c block forked found
  · intro t th fault crashed found'
    obtain ⟨th', again, outside, -⟩ := crashSafe t fault crashed
    rw [found'] at again
    cases again
    exact outside
  -- who sleeps on an `exit_cv` sleeps on a process that runs
  intro exited pid asleep
  have placed := (consistent.each p parent there).placed
  unfold Placed at placed
  rw [asleep] at placed
  obtain ⟨-, b, again, unmarked⟩ := placed
  rw [found] at again
  cases again
  simp [marked.mpr exited] at unmarked

end Parent

/-- Process 1 forks 2, which forks 3 and waits for it until it sleeps. Process 3 leaves, and
process 2 goes on until `wait_pid` has returned. -/
def collectChild (leave : Action) : List (Ptr × Action) :=
  [(1, .fork plenty), (2, .fork plenty), (2, .wait 3)] ++ List.replicate 7 (2, .goOn 0) ++
    [(3, leave)] ++ List.replicate 4 (2, .goOn 0)

theorem exit_wait_handshake_seven :
    ∃ history σ parent child, Run System.Step (bootSystem bootWorld) history σ ∧
      history.map Prod.snd = (collectChild (.informExit 7)).reverse ∧
      σ.threads 2 = some parent ∧ σ.threads 3 = some child ∧
      parent.pc = .waitDone 3 .success (some 7) ∧ child.status = some 7 ∧ child.pc = .exited := by
  obtain ⟨σ, reached, parent2, child3, forked⟩ :
      ∃ σ, execute System.next (bootSystem bootWorld)
          (collectChild (.informExit 7)) = some σ ∧
        (σ.threads 2).map (fun th => (th.pid, th.pc)) = some (2, .waitDone 3 .success (some 7)) ∧
        (σ.threads 3).map (fun th => th.pid) = some 3 ∧ σ.world.forker 3 = some 2 :=
    execute_check (by decide +kernel)
  obtain ⟨parent, there, fields⟩ := Option.map_eq_some_iff.mp parent2
  obtain ⟨child, known, three⟩ := Option.map_eq_some_iff.mp child3
  obtain ⟨two, done⟩ := Prod.mk.inj fields
  obtain ⟨history, run, same⟩ := Run.of_execute reached
  have handshake := exit_wait_handshake booted_bootWorld run there (by simp [done])
    (by omega) forked known
  obtain ⟨-, exited, -, value⟩ := handshake.1 .success (some 7) (by rw [done, three])
  exact ⟨history, σ, parent, child, run, same, there, known, done, value.symm, exited⟩

section Parent

variable {p c : Ptr} {parent child : Thread}

/-! ### The wait comes to an end -/

/-- Steps a waiting parent still has to take once its child has exited. -/
def Pc.stepsLeft : Pc → Nat
  | .waitSlot _ => 9
  | .waitParent _ _ => 8
  | .waitAcquire _ => 7
  | .waitLock _ => 6
  | .waitBlock _ => 5
  | .waitTest _ _ | .waitReacquire _ | .waitRelock _ => 4
  | .waitReread _ => 3
  | .waitStatus _ _ => 2
  | .waitRelease _ _ => 1
  | _ => 0

/-- A parent that waits for an exited child, with the lock free or its own. -/
structure Collecting (procs : CInt) (p c : Ptr) (block : PidInfoBlock) (σ : System)
    (parent : Thread) : Prop where
  consistent : Consistent procs σ
  up : σ.crashed = none
  there : σ.threads p = some parent
  two : 2 ≤ parent.pid
  forked : σ.world.forker c = some p
  found : σ.world.pm.heap c = some block
  exited : block.isExited = true
  waits : parent.pc.target = some block.myPid
  lock : ∀ u, σ.world.pm.lock = some u → u = p

namespace Collecting

variable {block : PidInfoBlock}

section

variable (collecting : Collecting procs p c block σ parent)

include collecting

theorem running : parent.pc ≠ .exited := by
  intro exited
  have waits := collecting.waits
  simp [exited, Pc.target] at waits

/-- The parent is not asleep: the lock has no other owner, and the child has made its
broadcast. -/
theorem awake : parent.pc.sleepsOn = none ∧ ∀ pid q, parent.pc ≠ .waitCv pid q := by
  have consistent := collecting.consistent
  -- at or in `cv_wait` the process waited for is still running
  have outside : ∀ pid q, parent.pc = .waitCv pid q ∨ parent.pc = .waitCvAsleep pid q → False := by
    intro pid q position
    have placed := (consistent.each p parent collecting.there).placed
    have waits := collecting.waits
    unfold Placed at placed
    have slot := consistent.child_slot collecting.found rfl
    rcases position with position | position <;>
    · rw [position] at placed waits
      simp only [Pc.target, Option.some.injEq] at waits
      obtain ⟨entry, b, again, unmarked⟩ := placed
      rw [waits, slot] at entry
      cases entry
      rw [collecting.found] at again
      cases again
      simp [collecting.exited] at unmarked
  refine ⟨?_, fun pid q position => outside pid q (.inl position)⟩
  cases asleep : parent.pc.sleepsOn with
  | none => rfl
  | some addr =>
    exfalso
    cases addr with
    | lock =>
      -- an owner of the lock other than the parent would be needed
      obtain ⟨u, locked⟩ := Option.ne_none_iff_exists'.mp
        ((consistent.each p parent collecting.there).awake asleep)
      have mine := locked
      rw [collecting.lock u locked, consistent.owner_iff collecting.there] at mine
      cases position : parent.pc <;> simp [position, Pc.sleepsOn, Pc.holds] at asleep mine
    | exitCv q =>
      cases position : parent.pc with
      | waitCvAsleep pid q' => exact outside pid q' (.inr position)
      | _ => simp [position, Pc.sleepsOn] at asleep

/-- A step of the parent that changes no more of the table than the lock. -/
theorem moved {here : Pc} (position : parent.pc = here) (pc : Pc) (lock : Option Ptr)
    (wakes : List SleepAddr) (step : σ.world.pm.advance 0 p parent.pid here =
      some (.ok ⟨{ σ.world.pm with lock := lock }, pc, wakes⟩))
    (waits : pc.target = some block.myPid) (free : ∀ u, lock = some u → u = p)
    (closer : pc.stepsLeft < here.stepsLeft) :
    ∃ after pc', σ.step p (.goOn 0) = some after ∧
      Collecting procs p c block after { parent with pc := pc' } ∧
      pc'.stepsLeft < here.stepsLeft := by
  subst position
  have consistent := collecting.consistent.advance collecting.there step
  refine ⟨_, pc, ?_, ⟨consistent, collecting.up, System.apply_threads_self .., collecting.two,
    collecting.forked, collecting.found, collecting.exited, waits, free⟩, closer⟩
  simp [System.step, collecting.up, collecting.there, step]

/-- As long as the call has not returned, the parent has a step that brings it closer. -/
theorem advances (inside : parent.pc.stepsLeft ≠ 0) :
    ∃ after pc, σ.step p (.goOn 0) = some after ∧
      Collecting procs p c block after { parent with pc := pc } ∧
      pc.stepsLeft < parent.pc.stepsLeft := by
  have consistent := collecting.consistent
  have waits := collecting.waits
  have knows := (consistent.each p parent collecting.there).knows collecting.running
    collecting.two c block collecting.forked collecting.found
  have owner := consistent.owner_iff collecting.there
  have read := (deref_eq_ok _ _ _).mpr collecting.found
  have admitted := consistent.readParent_child collecting.there collecting.running collecting.forked
    collecting.found 0
  -- outside the critical section nobody owns the lock
  have free : parent.pc.holds = false → σ.world.pm.lock = none := by
    intro outside
    rw [outside] at owner
    cases locked : σ.world.pm.lock with
    | none => rfl
    | some u =>
      rw [locked, collecting.lock u locked] at owner
      simp at owner
  have mine : ∀ u, (some p : Option Ptr) = some u → u = p := fun u same =>
    (Option.some.inj same).symm
  have nobody : ∀ u, (none : Option Ptr) = some u → u = p := by simp
  -- one case for each position of `wait_pid`; what the parent knows excludes the failures
  generalize position : parent.pc = here at inside waits knows owner free ⊢
  cases here with
  | user | waitLockAsleep a | waitCv a q | waitCvAsleep a q | waitRelockAsleep a | waitDone a r s
  | exitLock q s | exitLockAsleep q s | exited => simp [Pc.stepsLeft] at inside
  | waitSlot a =>
    exact collecting.moved position (.waitParent a (σ.world.pm.getPidBlock a)) σ.world.pm.lock []
      rfl waits collecting.lock (by simp [Pc.stepsLeft])
  | waitParent a q =>
    rw [← knows (Option.some.inj waits)] at admitted
    exact collecting.moved position (.waitAcquire a) σ.world.pm.lock []
      (by simp [PidManager.advance, admitted, PidManager.quiet]) waits collecting.lock
      (by simp [Pc.stepsLeft])
  | waitAcquire a =>
    exact collecting.moved position (.waitLock a) σ.world.pm.lock []
      (by simp [PidManager.advance, owner, Pc.holds, PidManager.quiet]) waits
      collecting.lock (by simp [Pc.stepsLeft])
  | waitLock a =>
    exact collecting.moved position (.waitBlock a) (some p) []
      (by simp [PidManager.advance, acquire, free rfl]) waits mine
      (by simp [Pc.stepsLeft])
  | waitBlock a =>
    exact collecting.moved position (.waitTest a (σ.world.pm.getPidBlock a)) σ.world.pm.lock []
      rfl waits collecting.lock (by simp [Pc.stepsLeft])
  | waitTest a q =>
    cases knows (Option.some.inj waits)
    exact collecting.moved position (.waitReread a) σ.world.pm.lock []
      (by simp [PidManager.advance, read, collecting.exited, PidManager.quiet]) waits
      collecting.lock (by simp [Pc.stepsLeft])
  | waitReacquire a =>
    exact collecting.moved position (.waitReread a) (some p) []
      (by simp [PidManager.advance, acquire, free rfl]) waits mine
      (by simp [Pc.stepsLeft])
  | waitRelock a =>
    exact collecting.moved position (.waitReread a) (some p) []
      (by simp [PidManager.advance, acquire, free rfl]) waits mine
      (by simp [Pc.stepsLeft])
  | waitReread a =>
    exact collecting.moved position (.waitStatus a (σ.world.pm.getPidBlock a)) σ.world.pm.lock []
      rfl waits collecting.lock (by simp [Pc.stepsLeft])
  | waitStatus a q =>
    cases (knows (Option.some.inj waits)).1
    exact collecting.moved position (.waitRelease a block.exitStatus) σ.world.pm.lock []
      (by simp [PidManager.advance, read, PidManager.quiet]) waits
      collecting.lock (by simp [Pc.stepsLeft])
  | waitRelease a status =>
    exact collecting.moved position (.waitDone a .success (some status)) none [.lock]
      (by simp [PidManager.advance, lockRelease, owner, Pc.holds]) waits nobody
      (by simp [Pc.stepsLeft])

private theorem done (ended : parent.pc.stepsLeft = 0) :
    parent.pc = .waitDone block.myPid .success (some block.exitStatus) := by
  have knows := (collecting.consistent.each p parent collecting.there).knows collecting.running
    collecting.two c block collecting.forked collecting.found
  have waits := collecting.waits
  obtain ⟨awake, outside⟩ := collecting.awake
  cases position : parent.pc with
  | waitDone a result status =>
    rw [position] at knows waits
    have target : a = block.myPid := Option.some.inj waits
    obtain ⟨-, success, value⟩ := knows target
    rw [target, success, value]
  | waitCv a q => exact absurd position (outside a q)
  | waitLockAsleep a | waitCvAsleep a q | waitRelockAsleep a =>
    simp [position, Pc.sleepsOn] at awake
  | user | exitLock q status | exitLockAsleep q status | exited =>
    simp [position, Pc.target] at waits
  | _ => simp [position, Pc.stepsLeft] at ended

/-- Left alone, the parent returns from `wait_pid` with the status of its child. -/
theorem returns :
    ∃ k ≤ parent.pc.stepsLeft, ∃ after, execute System.next σ
        (List.replicate k (p, .goOn 0)) = some after ∧
      after.threads p =
        some { parent with pc := .waitDone block.myPid .success (some block.exitStatus) } := by
  -- induction on the steps left; the parent record changes only in its position
  induction left : parent.pc.stepsLeft using Nat.strong_induction_on generalizing σ parent with
  | _ n ih =>
    by_cases ended : n = 0
    · subst ended
      exact ⟨0, le_rfl, σ, rfl, by rw [← collecting.done left]; exact collecting.there⟩
    obtain ⟨next, pc, step, collecting', closer⟩ := collecting.advances (left ▸ ended)
    obtain ⟨k, bound, after, run, done⟩ := ih _ (left ▸ closer) collecting' rfl
    refine ⟨k + 1, ?_, after, ?_, done⟩
    · change k ≤ pc.stepsLeft at bound
      omega
    · simp [List.replicate_succ, execute, System.next, step, run]

end

end Collecting

/-- A process that leaves through `sys_exit(code)` hands its parent 0, whatever the code: its
recorded status and what `wait_pid` returns are the code exactly when the code is 0. The
call does return: at most nine steps of the parent from the exit on, once the lock is not
another thread's. -/
theorem exit_code_travels_iff (booted : Booted procs w)
    (run : Run System.Step (bootSystem w) history σ) (there : σ.threads p = some parent)
    (running : parent.pc ≠ .exited) (two : 2 ≤ parent.pid) (forked : σ.world.forker c = some p)
    (known : σ.threads c = some child) {code : CInt} (called : child.code = some code) :
    (∀ result status, parent.pc = .waitDone child.pid result status →
      (result = .success ∧ status = some code ↔ code = 0)) ∧
    (child.pc = .exited → (σ.world.pm.getExitStatus child.pid = .ok code ↔ code = 0)) ∧
    (child.pc = .exited → parent.pc.target = some child.pid → σ.crashed = none →
      (∀ u, σ.world.pm.lock = some u → u = p) →
      ∃ k ≤ 9, ∃ after status, execute System.next σ
          (List.replicate k (p, .goOn 0)) = some after ∧
        after.threads p = some { parent with pc := .waitDone child.pid .success status } ∧
        (status = some code ↔ code = 0)) := by
  have consistent := booted.consistent_of_run run
  obtain ⟨block, found, number, marked, recorded⟩ :=
    consistent.child_block there running two forked known
  -- `sysExit` is 0 by definition, whatever the code
  have passed : child.status = some 0 := (consistent.each c child known).coded code called
  have zero : block.isExited = true → block.exitStatus = 0 := fun exited =>
    Option.some.inj ((recorded exited).symm.trans passed)
  have swap : (some (0 : CInt) = some code) ↔ code = 0 := by
    rw [Option.some.injEq, eq_comm]
  refine ⟨?_, ?_, ?_⟩
  · intro result status done
    have learnt := (consistent.each p parent there).knows running two c block forked found
    rw [done] at learnt
    obtain ⟨exited, success, value⟩ := learnt number.symm
    rw [success, value, zero exited, swap]
    simp
  · intro exited
    have slot := consistent.child_slot found number.symm
    simp only [getExitStatus, slot, (deref_eq_ok _ _ _).mpr found, Except.map,
      zero (marked.mpr exited), Except.ok.injEq]
    exact eq_comm
  intro exited waits up lock
  have collecting : Collecting procs p c block σ parent :=
    ⟨consistent, up, there, two, forked, found, marked.mpr exited, number ▸ waits, lock⟩
  obtain ⟨k, bound, after, steps, done⟩ := collecting.returns
  refine ⟨k, bound.trans ?_, after, _, steps, number ▸ done, ?_⟩
  · cases parent.pc <;> simp [Pc.stepsLeft]
  · rw [zero (marked.mpr exited), swap]

end Parent

/-- Process 3 calls `sys_exit(7)` and its parent collects 0. -/
theorem exit_code_lost :
    ∃ σ, execute System.next (bootSystem bootWorld)
        (collectChild (.sysExit 7)) = some σ ∧
      (σ.threads 3).map (fun th => (th.pid, th.code)) = some (3, some 7) ∧
      (σ.threads 2).map (fun th => (th.pid, th.pc)) = some (2, .waitDone 3 .success (some 0)) ∧
      σ.world.forker 3 = some 2 ∧
      (σ.world.pm.getExitStatus 3).toOption = some 0 :=
  execute_check (by decide +kernel)

theorem exit_code_travels_iff_seven :
    ∃ history σ, Run System.Step (bootSystem bootWorld) history σ ∧
      history.map Prod.snd = (collectChild (.sysExit 7)).reverse ∧
      (σ.world.pm.getExitStatus 3 = .ok 7 ↔ (7 : CInt) = 0) := by
  obtain ⟨σ, reached, parent2, child3, forked⟩ :
      ∃ σ, execute System.next (bootSystem bootWorld)
          (collectChild (.sysExit 7)) = some σ ∧
        (σ.threads 2).map (fun th => (th.pid, th.pc)) = some (2, .waitDone 3 .success (some 0)) ∧
        (σ.threads 3).map (fun th => (th.pid, th.code, th.pc)) = some (3, some 7, .exited) ∧
        σ.world.forker 3 = some 2 :=
    execute_check (by decide +kernel)
  obtain ⟨parent, there, fields⟩ := Option.map_eq_some_iff.mp parent2
  obtain ⟨child, known, fields'⟩ := Option.map_eq_some_iff.mp child3
  obtain ⟨two, done⟩ := Prod.mk.inj fields
  obtain ⟨three, rest⟩ := Prod.mk.inj fields'
  obtain ⟨called, exited⟩ := Prod.mk.inj rest
  obtain ⟨history, run, same⟩ := Run.of_execute reached
  have travels := exit_code_travels_iff booted_bootWorld run there (by simp [done]) (by omega)
    forked known called
  exact ⟨history, σ, run, same, three ▸ travels.2.1 exited⟩

end Os161.Pid
