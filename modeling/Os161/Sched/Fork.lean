import Os161.Pid.Runs
import Os161.Sched.Threads

/-!
# `thread_fork` on the process table and the thread system together

`thread_fork` claims a pid before it preallocates, and its `fail` label gives back the
directory, the stack, the name and the thread structure, but not the pid.
-/
namespace Os161.Sched

open Pid (PidManager AddMemory AddReply maxPids)
open Function (update)

/-- What `thread_fork` works on. -/
structure Kernel where
  pm : PidManager
  ts : ThreadSystem
  /-- `vn_refcount`; 0 for a vnode that has been reclaimed. -/
  refcount : Ptr → Nat

/-- Outcomes of the allocations of `thread_fork`, in the order it makes them. -/
structure ForkMemory where
  thread : Bool
  name : Bool
  stack : Bool
  add : AddMemory
  reserve : ReserveMemory

/-! ### References to the current directory -/

def vnodeIncref (refcount : Ptr → Nat) (vn : Ptr) : Ptr → Nat :=
  update refcount vn (refcount vn + 1)

/-- The last reference goes with `VOP_RECLAIM`. -/
def vnodeDecref (refcount : Ptr → Nat) (vn : Ptr) : Except Fault (Ptr → Nat) :=
  if refcount vn = 0 then .error .assertion
  else if refcount vn > 1 then .ok (update refcount vn (refcount vn - 1))
  else .ok (update refcount vn 0)

private theorem vnodeDecref_incref (refcount : Ptr → Nat) (vn : Ptr) :
    vnodeDecref (vnodeIncref refcount vn) vn = .ok refcount := by
  -- a count of 0 comes back by way of `VOP_RECLAIM`
  by_cases last : refcount vn = 0
  · have same : update refcount vn 0 = refcount := by rw [← last, Function.update_eq_self]
    simp [vnodeDecref, vnodeIncref, last, same]
  · simp [vnodeDecref, vnodeIncref, last]

/-- `t_cwd` may be NULL. -/
def increfCwd (refcount : Ptr → Nat) : Option Ptr → Ptr → Nat
  | none => refcount
  | some vn => vnodeIncref refcount vn

def decrefCwd (refcount : Ptr → Nat) : Option Ptr → Except Fault (Ptr → Nat)
  | none => .ok refcount
  | some vn => vnodeDecref refcount vn

private theorem decrefCwd_increfCwd (refcount : Ptr → Nat) (cwd : Option Ptr) :
    decrefCwd (increfCwd refcount cwd) cwd = .ok refcount := by
  cases cwd with
  | none => rfl
  | some vn => exact vnodeDecref_incref refcount vn

namespace Kernel

/-- The label `fail` of `thread_fork`. -/
def forkFail (k : Kernel) (newguy : Ptr) (cwd : Option Ptr) (result : Errno) :
    Except Fault (Errno × Kernel) :=
  match decrefCwd k.refcount cwd with
  | .error fault => .error fault
  | .ok refcount => .ok (result, { k with ts := k.ts.free newguy, refcount := refcount })

/-- `thread_fork`, with `thread_create` at its beginning. -/
def threadFork (k : Kernel) (mem : ForkMemory) : Except Fault (Errno × Kernel) :=
  if mem.thread = false ∨ mem.name = false ∨ mem.stack = false then .ok (.ENOMEM, k)
  else
    match k.ts.curthread with
    | none => .error .nullDereference
    | some cur =>
      match k.ts.threads cur with
      | none => .error .useAfterFree
      | some th =>
        match k.pm.informProcessAdd mem.add cur th.pid with
        | .error fault => .error fault
        | .ok reply =>
          -- `newguy` has been filled in and holds a reference to the directory
          let newguy := k.ts.brk
          let k : Kernel :=
            ⟨reply.pm, k.ts.create th.cwd reply.pid, increfCwd k.refcount th.cwd⟩
          if reply.result ≠ .success then k.forkFail newguy th.cwd reply.result
          else
            match k.ts.enroll mem.reserve newguy with
            | (.success, ts) => .ok (.success, { k with ts := ts })
            | (result, ts) => { k with ts := ts }.forkFail newguy th.cwd result

end Kernel

/-! ### What `inform_process_add` refuses -/

/-- The children array of process `pid` has to grow before it can take another child. -/
def childrenFull (pm : PidManager) (pid : Int) : Prop :=
  ∃ p block, pm.getPidBlock pid = some p ∧ pm.heap p = some block ∧
    block.children.max ≤ block.children.num

/-- No pid is claimed: the table is full, or an allocation on the way is refused. -/
def refusesPid (pm : PidManager) (mem : AddMemory) (parentId : Int) : Prop :=
  pm.numberOfProcs = BitVec.ofInt 32 maxPids ∨
  ¬ (mem.block ∧ mem.children ∧ mem.cv ∧ mem.cvName) ∨
  (mem.grow = none ∧ childrenFull pm parentId)

private theorem linkChild_refused_iff {pm : PidManager} {grow : Words} {parentId : Int}
    {child : Ptr}
    {outcome : Option PidManager} (returned : pm.linkChild grow parentId child = .ok outcome) :
    outcome = none ↔ grow = none ∧ childrenFull pm parentId := by
  unfold PidManager.linkChild at returned
  split at returned
  next absent =>
    cases returned
    simp [childrenFull, absent]
  next p present =>
    cases found : pm.deref p with
    | error fault => simp [found] at returned
    | ok parent =>
      have allocated := (PidManager.deref_eq_ok pm p parent).mp found
      have full : childrenFull pm parentId ↔ parent.children.max ≤ parent.children.num := by
        simp [childrenFull, present, allocated]
      by_cases added : (parent.children.add grow child).result = .success
      · simp only [found, added, ite_true] at returned
        cases returned
        rw [KArray.add_result] at added
        simp only [reduceCtorEq, false_iff, full, not_and, not_le]
        intro refused
        simpa [refused] using added
      simp only [found, added, ite_false] at returned
      cases returned
      rw [KArray.add_result] at added
      simpa [full, and_comm] using added

/-- A refused pid leaves the table alone, a claimed one is counted. -/
theorem informProcessAdd_outcome {pm : PidManager} {mem : AddMemory} {me : Ptr} {parentId : Int}
    {reply : AddReply} (returned : pm.informProcessAdd mem me parentId = .ok reply) :
    (reply.result ≠ .success ∧ refusesPid pm mem parentId ∧
      (reply.pm = pm ∨ reply.pm = { pm with lock := none })) ∨
    (reply.result = .success ∧ ¬ refusesPid pm mem parentId ∧
      reply.pm.numberOfProcs = pm.numberOfProcs + 1) := by
  cases Pid.informProcessAdd_ends returned with
  | full full => exact .inl ⟨by simp, .inl full, .inl rfl⟩
  | blockless missing => exact .inl ⟨by simp, .inr (.inl missing), .inr rfl⟩
  | unlinked link =>
    exact .inl ⟨by simp, .inr (.inr ((linkChild_refused_iff link).mp rfl)), .inl rfl⟩
  | added room granted _ _ link =>
    refine .inr ⟨rfl, ?_, ?_⟩
    · rintro (full | missing | refused)
      · exact room full
      · exact missing granted
      · cases (linkChild_refused_iff link).mpr refused
    · rcases Pid.linkChild_cases link with ⟨-, rfl⟩ | ⟨p, parent, -, -, -, rfl⟩
      · rfl
      · rfl

/-! ### How a fork ends -/

theorem Kernel.forkFail_eq (k : Kernel) (ts : ThreadSystem) (pm : PidManager) (newguy : Ptr)
    (cwd : Option Ptr) (result : Errno) :
    Kernel.forkFail ⟨pm, ts, increfCwd k.refcount cwd⟩ newguy cwd result =
      .ok (result, ⟨pm, ts.free newguy, k.refcount⟩) := by
  simp [Kernel.forkFail, decrefCwd_increfCwd]

/-- A `thread_fork` by `th` gets as far as `inform_process_add`, which answers with `reply`. -/
structure AsksPid (k : Kernel) (mem : ForkMemory) (th : Thread) (reply : AddReply) : Prop where
  granted : ¬ (mem.thread = false ∨ mem.name = false ∨ mem.stack = false)
  asked : ∃ cur, k.ts.curthread = some cur ∧ k.ts.threads cur = some th ∧
    k.pm.informProcessAdd mem.add cur th.pid = .ok reply

/-- How a `thread_fork` can end, by how far it got. -/
inductive ForkEnds (k : Kernel) (mem : ForkMemory) : Errno → Kernel → Prop
  /-- No thread structure, name or stack. -/
  | unborn (refused : mem.thread = false ∨ mem.name = false ∨ mem.stack = false) :
      ForkEnds k mem .ENOMEM k
  /-- No pid. -/
  | nameless {th : Thread} {reply : AddReply} (asks : AsksPid k mem th reply)
      (refused : reply.result ≠ .success) :
      ForkEnds k mem reply.result
        ⟨reply.pm, (k.ts.create th.cwd reply.pid).free k.ts.brk, k.refcount⟩
  /-- A pid, but no room in the thread system. -/
  | late {th : Thread} {reply : AddReply} (asks : AsksPid k mem th reply)
      (claimed : reply.result = .success)
      (refused : ((k.ts.create th.cwd reply.pid).enroll mem.reserve k.ts.brk).1 ≠ .success) :
      ForkEnds k mem ((k.ts.create th.cwd reply.pid).enroll mem.reserve k.ts.brk).1
        ⟨reply.pm, k.ts.fork mem.reserve th.cwd reply.pid, k.refcount⟩
  | forked {th : Thread} {reply : AddReply} (asks : AsksPid k mem th reply)
      (claimed : reply.result = .success) :
      ForkEnds k mem .success
        ⟨reply.pm, k.ts.fork mem.reserve th.cwd reply.pid, increfCwd k.refcount th.cwd⟩

theorem Kernel.threadFork_ends {k after : Kernel} {mem : ForkMemory} {code : Errno}
    (returned : k.threadFork mem = .ok (code, after)) : ForkEnds k mem code after := by
  unfold Kernel.threadFork at returned
  split at returned
  next refused =>
    cases returned
    exact .unborn refused
  next granted =>
    cases running : k.ts.curthread with
    | none => simp [running] at returned
    | some cur =>
      cases found : k.ts.threads cur with
      | none => simp [running, found] at returned
      | some th =>
        cases add : k.pm.informProcessAdd mem.add cur th.pid with
        | error fault => simp [running, found, add] at returned
        | ok reply =>
          have asks : AsksPid k mem th reply := ⟨granted, cur, running, found, add⟩
          by_cases claimed : reply.result = .success
          · simp only [running, found, add, claimed, ne_eq, not_true_eq_false,
              ite_false] at returned
            split at returned
            next ts outcome =>
              cases returned
              have same := ThreadSystem.fork_granted (congrArg Prod.fst outcome)
              have ends := ForkEnds.forked asks claimed
              rw [same, outcome] at ends
              exact ends
            next result ts other outcome =>
              have refused :
                  ((k.ts.create th.cwd reply.pid).enroll mem.reserve k.ts.brk).1 ≠ .success := by
                rw [outcome]
                exact other
              have same := ThreadSystem.fork_refused refused
              rw [Kernel.forkFail_eq] at returned
              cases returned
              rw [outcome] at same
              have ends := ForkEnds.late asks claimed refused
              rw [outcome, same] at ends
              exact ends
          · simp only [running, found, add, claimed, ne_eq, not_false_eq_true, ite_true,
              Kernel.forkFail_eq] at returned
            cases returned
            exact .nameless asks claimed

/-! ### What a failed fork leaves behind -/

def childrenOf (pm : PidManager) (pid : Int) : Option (List Ptr) :=
  ((pm.getPidBlock pid).bind pm.heap).map (·.children.toList)

/-- Nothing of a failed fork can be seen in `after`. -/
structure Untouched (k after : Kernel) : Prop where
  occupied : after.pm.occupied = k.pm.occupied
  procs : after.pm.numberOfProcs = k.pm.numberOfProcs
  children : ∀ cur th, k.ts.curthread = some cur → k.ts.threads cur = some th →
    childrenOf after.pm th.pid = childrenOf k.pm th.pid
  numthreads : after.ts.numthreads = k.ts.numthreads
  runqueue : after.ts.runqueue.toList = k.ts.runqueue.toList
  sleepers : after.ts.sleepers.toList = k.ts.sleepers.toList
  refcount : after.refcount = k.refcount

/-- The fork fails before it has claimed a pid. -/
def Kernel.FailsEarly (k : Kernel) (mem : ForkMemory) : Prop :=
  (mem.thread = false ∨ mem.name = false ∨ mem.stack = false) ∨
  ∃ cur th, k.ts.curthread = some cur ∧ k.ts.threads cur = some th ∧
    refusesPid k.pm mem.add th.pid

/-- A fork that fails leaves nothing behind exactly if it fails before it has claimed a pid. -/
theorem failed_fork_clean_iff {k after : Kernel} {mem : ForkMemory} {code : Errno}
    (returned : k.threadFork mem = .ok (code, after)) (failed : code ≠ .success) :
    Untouched k after ↔ k.FailsEarly mem := by
  cases Kernel.threadFork_ends returned with
  | unborn refused =>
    exact iff_of_true ⟨rfl, rfl, fun _ _ _ _ => rfl, rfl, rfl, rfl, rfl⟩ (.inl refused)
  | @nameless th reply asks refused =>
    obtain ⟨cur, running, found, add⟩ := asks.asked
    -- nothing has been done yet but what `fail` undoes
    rcases informProcessAdd_outcome add with ⟨-, early, table⟩ | ⟨claimed, -⟩
    · refine iff_of_true ?_ (.inr ⟨cur, th, running, found, early⟩)
      rcases table with same | same
      · rw [same]
        exact ⟨rfl, rfl, fun _ _ _ _ => rfl, rfl, rfl, rfl, rfl⟩
      · rw [same]
        exact ⟨rfl, rfl, fun _ _ _ _ => rfl, rfl, rfl, rfl, rfl⟩
    · exact absurd claimed refused
  | @late th reply asks claimed refused =>
    obtain ⟨cur, running, found, add⟩ := asks.asked
    rcases informProcessAdd_outcome add with ⟨none, -⟩ | ⟨-, granted, procs⟩
    · exact absurd claimed none
    refine iff_of_false ?_ ?_
    · -- `number_of_procs` is one too high, whatever it was
      intro untouched
      have same := untouched.procs
      rw [procs] at same
      simp at same
    rintro (early | ⟨cur', th', running', found', early⟩)
    · exact asks.granted early
    rw [running] at running'
    cases running'
    rw [found] at found'
    cases found'
    exact granted early
  | forked => exact absurd rfl failed

/-- The first process and its thread, with nothing else in memory. -/
def bootKernel : Kernel := ⟨Pid.bootWorld.pm, .boot fun _ => 0, fun _ => 0⟩

/-- Memory runs out after the pid has been claimed, for the `zombies` array. -/
def zombiesRefused : ForkMemory :=
  ⟨true, true, true, Pid.plenty, { granted with zombies := none }⟩

/-- The first fork fails with ENOMEM, and process 1 has a child 2 with no thread. -/
theorem late_fork_leaves_pid_two :
    ∃ after, bootKernel.threadFork zombiesRefused = .ok (.ENOMEM, after) ∧
      bootKernel.pm.occupied = {1} ∧ after.pm.occupied = {1, 2} ∧
      bootKernel.pm.numberOfProcs = 1 ∧ after.pm.numberOfProcs = 2 ∧
      childrenOf bootKernel.pm 1 = some [] ∧ childrenOf after.pm 1 = some [2] ∧
      after.ts.numthreads = 1 ∧ after.ts.brk = 3 ∧ (after.ts.threads 2).isNone := by
  refine ⟨_, rfl, ?_⟩
  decide +kernel

/-- Memory runs out for the parent's children array. -/
def childrenRefused : ForkMemory :=
  ⟨true, true, true, { Pid.plenty with grow := none }, granted⟩

theorem failed_fork_clean_iff_children :
    ∃ after, bootKernel.threadFork childrenRefused = .ok (.ENOMEM, after) ∧
      Untouched bootKernel after := by
  have early : bootKernel.FailsEarly childrenRefused :=
    .inr ⟨1, _, rfl, rfl, .inr (.inr ⟨rfl, 1, _, rfl, rfl, Nat.le_refl _⟩)⟩
  refine ⟨_, rfl, ?_⟩
  exact (failed_fork_clean_iff rfl (by decide)).mpr early

/-- Whatever stops it, a failed fork moves no thread and keeps no reference. -/
theorem failed_fork_keeps_threads {k after : Kernel} {mem : ForkMemory} {code : Errno}
    (returned : k.threadFork mem = .ok (code, after)) (failed : code ≠ .success) :
    after.ts.roster = k.ts.roster ∧ after.ts.numthreads = k.ts.numthreads ∧
      after.refcount = k.refcount := by
  cases Kernel.threadFork_ends returned with
  | unborn => exact ⟨rfl, rfl, rfl⟩
  | nameless => exact ⟨rfl, rfl, rfl⟩
  | late asks claimed refused =>
    obtain ⟨lists, number⟩ := ThreadSystem.fork_refused_kept refused
    exact ⟨lists, number, rfl⟩
  | forked => exact absurd rfl failed

theorem threadFork_zombiesRefused :
    ∃ after, bootKernel.threadFork zombiesRefused = .ok (.ENOMEM, after) := ⟨_, rfl⟩

theorem failed_fork_keeps_threads_zombies :
    ∃ after, bootKernel.threadFork zombiesRefused = .ok (.ENOMEM, after) ∧
      after.ts.roster = bootKernel.ts.roster := by
  obtain ⟨after, returned⟩ := threadFork_zombiesRefused
  exact ⟨after, returned, (failed_fork_keeps_threads returned (by decide)).1⟩

/-- What a late failure leaves behind: one more entry of the table. -/
theorem late_fork_keeps_pid {procs : CInt} {k after : Kernel} {mem : ForkMemory} {code : Errno}
    (coherent : Pid.Coherent procs k.pm) (returned : k.threadFork mem = .ok (code, after))
    (failed : code ≠ .success) (late : ¬ k.FailsEarly mem) :
    ∃ pid, pid ∉ k.pm.occupied ∧ after.pm.occupied = insert pid k.pm.occupied ∧
      after.pm.numberOfProcs = k.pm.numberOfProcs + 1 := by
  cases Kernel.threadFork_ends returned with
  | unborn refused => exact absurd (.inl refused) late
  | @nameless th reply asks refused =>
    obtain ⟨cur, running, found, add⟩ := asks.asked
    rcases informProcessAdd_outcome add with ⟨-, early, -⟩ | ⟨claimed, -⟩
    · exact absurd (.inr ⟨cur, th, running, found, early⟩) late
    · exact absurd claimed refused
  | @late th reply asks claimed refused =>
    obtain ⟨cur, running, found, add⟩ := asks.asked
    rcases coherent.informProcessAdd_cases add with
      ⟨none, -⟩ | ⟨-, low, high, free, linked, link, eq⟩
    · exact absurd claimed none
    obtain ⟨linkedCoherent, same⟩ : Pid.Coherent procs linked ∧
        linked.occupied = k.pm.occupied := by
      rcases Pid.linkChild_cases link with ⟨-, rfl⟩ | ⟨p, parent, -, allocated, -, rfl⟩
      · exact ⟨coherent, rfl⟩
      · exact ⟨coherent.setBlock allocated rfl, rfl⟩
    refine ⟨reply.pid, ?_, ?_, ?_⟩
    · rw [coherent.mem_occupied, free]
      simp
    · rw [eq, linkedCoherent.occupied_claim low high, same]
    · rcases informProcessAdd_outcome add with ⟨none, -⟩ | ⟨-, -, procs⟩
      · exact absurd claimed none
      · exact procs
  | forked => exact absurd rfl failed

theorem late_fork_keeps_pid_zombies :
    ∃ after pid, bootKernel.threadFork zombiesRefused = .ok (.ENOMEM, after) ∧
      after.pm.occupied = insert pid bootKernel.pm.occupied := by
  obtain ⟨after, returned⟩ := threadFork_zombiesRefused
  have late : ¬ bootKernel.FailsEarly zombiesRefused := by
    rintro (gone | ⟨cur, th, running, found, full | refused | ⟨none, -⟩⟩)
    · exact absurd gone (by decide)
    · exact absurd full (by decide +kernel)
    · exact refused (by decide)
    · cases none
  obtain ⟨pid, -, more, -⟩ := late_fork_keeps_pid Pid.booted_bootWorld.sound.coherent returned
    (by decide) late
  exact ⟨after, pid, returned, more⟩

end Os161.Sched
