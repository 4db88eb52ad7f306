import Os161.Pid.Family
import Os161.Foundation.Transition

/-!
# Runs of the process table

Processes fork and exit, one call at a time. A call is made by a running process:
`thread_fork` passes the pid of the current thread to `inform_process_add`, and
`thread_exit` passes it to `inform_process_exit` and never returns, so a process
exits at most once. A call that faults ends the run.
-/
namespace Os161.Pid

open PidManager Foundation

inductive Event where
  /-- The process with this pid calls `thread_fork`; `mem` says which allocations succeed. -/
  | fork (parent : Int) (mem : AddMemory)
  | exit (pid : Int) (status : CInt)

/-- The process in slot `pid`, if it is running. -/
def PidManager.runningAt (pm : PidManager) (pid : Int) : Option Ptr :=
  match pm.getPidBlock pid with
  | none => none
  | some x =>
    match pm.heap x with
    | none => none
    | some block => if block.isExited then none else some x

namespace World

/-- Record the forker of the process a reply has added. -/
def added (w : World) (x : Ptr) (reply : AddReply) : World where
  pm := reply.pm
  forker := if reply.result = .success then Function.update w.forker w.pm.brk (some x) else w.forker

def step (w : World) : Event → Option World
  | .fork parent mem =>
    match w.pm.runningAt parent with
    | none => none
    | some x =>
      match w.pm.informProcessAdd mem x parent with
      | .error _ => none
      | .ok reply => some (w.added x reply)
  | .exit pid status =>
    match w.pm.runningAt pid with
    | none => none
    | some _ =>
      match w.pm.informProcessExit pid status with
      | .error _ => none
      | .ok (_, after) => some { w with pm := after }

end World

variable {procs : CInt}

abbrev Step : World → Event → World → Prop := Computes World.step

/-- The world `thread_bootstrap` leaves, for any contents of the memory it was given. -/
def Booted (procs : CInt) (w : World) : Prop :=
  ∃ front mem pm, threadBootstrap procs front mem = .ok pm ∧ w = ⟨pm, fun _ => none⟩

/-! ### What a step can do -/

theorem runningAt_eq_some (pm : PidManager) (pid : Int) (x : Ptr) :
    pm.runningAt pid = some x ↔
      pm.getPidBlock pid = some x ∧ ∃ block, pm.heap x = some block ∧ block.isExited = false := by
  unfold runningAt
  constructor
  · intro running
    split at running
    · cases running
    next y entry =>
      split at running
      · cases running
      next block found =>
        split at running
        · cases running
        next alive =>
          cases running
          exact ⟨entry, block, found, by simpa using alive⟩
  · rintro ⟨entry, block, found, alive⟩
    simp [entry, found, alive]

/-- What holds of every reachable world. -/
structure Sound (procs : CInt) (w : World) : Prop where
  coherent : Coherent procs w.pm
  family : Family w
  unlocked : w.pm.lock = none

/-- A fork either leaves the world as it is or adds one process to it. -/
theorem Sound.fork_cases {w after : World} {parent : Int} {mem : AddMemory} (sound : Sound procs w)
    (taken : Step w (.fork parent mem) after) :
    ∃ x, w.pm.runningAt parent = some x ∧ ∃ reply, w.pm.informProcessAdd mem x parent = .ok reply ∧
      ((reply.result ≠ .success ∧ after = w) ∨
        (reply.result = .success ∧ Coherent procs after.pm ∧
          Adds w.pm after.pm x reply.pid parent ∧ w.pm.getPidBlock reply.pid = none ∧
          after.forker = Function.update w.forker w.pm.brk (some x))) := by
  simp only [Computes, World.step] at taken
  split at taken
  · cases taken
  next x running =>
    split at taken
    · cases taken
    next reply returned =>
      cases taken
      refine ⟨x, running, reply, returned, ?_⟩
      by_cases success : reply.result = .success
      · have entry := ((runningAt_eq_some _ _ _).mp running).1
        obtain ⟨coherent, adds, free⟩ := sound.coherent.adds entry returned success
        exact .inr ⟨success, coherent, adds, free, by simp [World.added, success]⟩
      refine .inl ⟨success, ?_⟩
      rcases sound.coherent.informProcessAdd_cases returned with ⟨-, -, same | ⟨held, -⟩⟩ | ⟨ok, -⟩
      · simp [World.added, success, same]
      · rw [sound.unlocked] at held
        cases held
      · exact absurd ok success

/-- An exit marks one block and frees the blocks nobody will collect. -/
theorem Sound.exit_cases {w after : World} {pid : Int} {status : CInt} (sound : Sound procs w)
    (taken : Step w (.exit pid status) after) :
    ∃ p block, w.pm.getPidBlock pid = some p ∧ w.pm.heap p = some block ∧
      Coherent procs after.pm ∧
      Family.Exits w.pm p block status after.pm ∧
      after.forker = w.forker := by
  simp only [Computes, World.step] at taken
  split at taken
  · cases taken
  next p running =>
    obtain ⟨entry, block, found, -⟩ := (runningAt_eq_some _ _ _).mp running
    have number := sound.coherent.pid_of_slot entry found
    split at taken
    · cases taken
    next code pm returned =>
      cases taken
      have critical : w.pm.exitCritical p block.myPid status = .ok pm := by
        unfold informProcessExit at returned
        rw [entry] at returned
        rw [number]
        cases body : w.pm.exitCritical p pid status with
        | error fault => simp [body, Except.map] at returned
        | ok left =>
          simp only [body, Except.map, Except.ok.injEq, Prod.mk.injEq] at returned
          rw [returned.2]
      obtain ⟨coherent, drops⟩ := sound.family.exitCritical_spec sound.coherent found critical
      exact ⟨p, block, entry, found, coherent, drops, rfl⟩

theorem Sound.step {w after : World} {event : Event} (sound : Sound procs w)
    (taken : Step w event after) : Sound procs after := by
  cases event with
  | fork parent mem =>
    obtain ⟨x, running, reply, -, ⟨-, rfl⟩ | ⟨-, coherent, adds, free, forker⟩⟩ :=
      sound.fork_cases taken
    · exact sound
    have entry := ((runningAt_eq_some _ _ _).mp running).1
    refine ⟨coherent, ?_, adds.lock.trans sound.unlocked⟩
    have grown := sound.family.fork sound.coherent entry free adds
    rwa [← forker] at grown
  | exit pid status =>
    obtain ⟨p, block, -, found, coherent, drops, forker⟩ := sound.exit_cases taken
    refine ⟨coherent, ?_, drops.lock.trans sound.unlocked⟩
    have left := sound.family.exit sound.coherent found drops
    rwa [← forker] at left

/-! ### The first state -/

/-- The first search finds pid 1. -/
theorem scanFree_bootstrap (front : Option Ptr)
    (room : (pidManagerBootstrap procs front).numberOfProcs ≠ BitVec.ofInt 32 maxPids) :
    (pidManagerBootstrap procs front).scanFree = .ok 1 := by
  unfold scanFree
  rw [if_neg room]
  rfl

/-- `thread_bootstrap` can only have succeeded if the word in front of the table was NULL. -/
theorem threadBootstrap_eq {front : Option Ptr} {mem : AddMemory} {pm : PidManager}
    (booted : threadBootstrap procs front mem = .ok pm) :
    pm = (pidManagerBootstrap procs none).claim 1 (newBlock 1 0) := by
  unfold threadBootstrap informProcessAdd at booted
  -- the boot process has parent 0, whose slot is the word in front of the table
  by_cases full : (pidManagerBootstrap procs front).numberOfProcs = BitVec.ofInt 32 maxPids
  · simp [full] at booted
  have slot : (pidManagerBootstrap procs front).getPidBlock 0 = front := by
    simp [getPidBlock, validatePid, maxPids, pidManagerBootstrap]
  simp only [full, ite_false, scanFree_bootstrap front full, createPidBlock] at booted
  by_cases granted : mem.block ∧ mem.children ∧ mem.cv ∧ mem.cvName
  · cases front with
    | none =>
      simp [granted, linkChild, slot] at booted
      exact booted.symm
    | some p =>
      -- the children array of no block at all
      have wild : (pidManagerBootstrap procs (some p)).heap p = none := rfl
      simp [granted, linkChild, slot, deref, wild] at booted
  · simp [granted, pidManagerBootstrap] at booted

theorem Booted.eq {w : World} (booted : Booted procs w) :
    w = ⟨(pidManagerBootstrap procs none).claim 1 (newBlock 1 0), fun _ => none⟩ := by
  obtain ⟨front, mem, pm, started, rfl⟩ := booted
  rw [threadBootstrap_eq started]

private theorem coherent_empty (procs : CInt) :
    Coherent procs (pidManagerBootstrap procs none) := by
  have empty : ∀ pid, (pidManagerBootstrap procs none).getPidBlock pid = none := by
    intro pid
    simp [getPidBlock, pidManagerBootstrap]
  constructor
  case filled =>
    intro pid p entry
    rw [empty] at entry
    cases entry
  case listed | fresh =>
    intro p block found
    cases found
  case counted =>
    have start : (pidManagerBootstrap procs none).numberOfProcs = procs := rfl
    simp [occupied, empty, start]
  case nextInRange => exact ⟨Int.le_refl 1, show (1 : Int) ≤ maxPids by decide⟩

/-- The boot process has the only block. -/
theorem Booted.heap_eq_some {w : World} (booted : Booted procs w) (p : Ptr) (block : PidInfoBlock) :
    w.pm.heap p = some block ↔ p = bootBlock ∧ block = newBlock 1 0 := by
  rw [booted.eq, Coherent.heap_claim]
  change (if p = bootBlock then some (newBlock 1 0) else none) = some block ↔ _
  rw [Option.ite_none_right_eq_some, Option.some.injEq, eq_comm (a := block)]

theorem Booted.sound {w : World} (booted : Booted procs w) : Sound procs w := by
  have only : ∀ p block, w.pm.heap p = some block → p = bootBlock ∧ block = newBlock 1 0 :=
    fun p block => (booted.heap_eq_some p block).mp
  have unforked : ∀ c, w.forker c = none := by
    intro c
    rw [booted.eq]
  constructor
  case coherent =>
    rw [booted.eq]
    exact (coherent_empty procs).claim (by decide) (by decide)
      (by simp [getPidBlock, pidManagerBootstrap]) rfl
  case unlocked =>
    rw [booted.eq]
    rfl
  case family =>
    constructor
    case root =>
      intro c block _ found
      rw [(only c block found).2]
      rfl
    case apart =>
      intro c block found
      rw [(only c block found).2]
      decide
    case nodup =>
      intro x parent found
      rw [(only x parent found).2]
      exact List.nodup_nil
    case forked =>
      intro x parent found c member
      rw [(only x parent found).2] at member
      cases member
    -- the rest is about processes that have been forked, and there is none yet
    all_goals
      intro c x
      simp [unforked]

theorem Booted.sound_of_run {start w : World} {history : List (World × Event)}
    (booted : Booted procs start) (run : Run Step start history w) : Sound procs w :=
  run.invariant booted.sound fun _ _ _ sound taken => sound.step taken

/-! ### Concrete runs -/

/-- All allocations succeed. -/
def plenty : AddMemory := ⟨true, true, true, true, some fun _ => 0⟩

/-- The world after a start in cleared memory. -/
def bootWorld : World := ⟨(pidManagerBootstrap 0 none).claim 1 (newBlock 1 0), fun _ => none⟩

theorem booted_bootWorld : Booted 0 bootWorld :=
  ⟨none, plenty, _, by rfl, rfl⟩

/-- Process 1 forks and the child exits, `n` times, with pids from `first` on. -/
def churn : Nat → Int → List Event
  | 0, _ => []
  | n + 1, first => [.fork 1 plenty, .exit first 0] ++ churn n (first + 1)

/-- Process 2 forks process 3 and exits. Process 1 forks until number 2 comes round again. -/
def recycleTwo : List Event :=
  [.fork 1 plenty, .fork 2 plenty, .exit 2 0] ++ churn 97 4 ++ [.fork 1 plenty]

/-- Process 1 forks process 2, which forks process 3; the child exits first. -/
def smallFamily : List Event := [.fork 1 plenty, .fork 2 plenty, .exit 3 7, .exit 2 0]

theorem smallFamily_runs :
    ∃ history w, Run Step bootWorld history w ∧ history.map Prod.snd = smallFamily.reverse := by
  obtain ⟨w, reached⟩ := Option.isSome_iff_exists.mp
    (by decide +kernel : (execute World.step bootWorld smallFamily).isSome)
  obtain ⟨history, run, same⟩ := Run.of_execute reached
  exact ⟨history, w, run, same⟩

end Os161.Pid
