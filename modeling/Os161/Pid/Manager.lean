import Os161.Kern.Array
import Mathlib.Data.Int.Basic

/-!
# The process table of `thread/pid_manager.c`

`PidManager` is `struct pid_manager` together with the blocks it has allocated.
The entries of `pid_info_blocks` are read at C offsets: offsets 0 to `MAX_PIDS - 1`
are the array, and offset -1 is the word that happens to lie in front of it, which
pid 0 reads because `validate_pid` lets 0 through.
-/
namespace Os161.Pid

def maxPids : Int := 100

/-- `struct pid_info_block`. The `exit_cv` is allocated and freed with its block and
has no state of its own, so the block's address stands for it. -/
structure PidInfoBlock where
  myPid : Int
  myParent : Int
  children : KArray Ptr
  isExited : Bool
  exitStatus : CInt

structure PidManager where
  pidInfoBlocks : Int → Option Ptr
  numberOfProcs : CInt
  nextPid : Int
  /-- Owner of `pid_manager->lock`. -/
  lock : Option Ptr
  /-- The blocks allocated and not yet freed. -/
  heap : Ptr → Option PidInfoBlock
  /-- No address from here on has ever been handed out. -/
  brk : Ptr

/-! ### Table access -/

def validatePid (pid : Int) : Bool :=
  !(decide (pid < 0) || decide (pid > maxPids))

namespace PidManager

def getPidBlock (pm : PidManager) (pid : Int) : Option Ptr :=
  if validatePid pid then pm.pidInfoBlocks (pid - 1) else none

def setPidBlock (pm : PidManager) (pid : Int) (block : Option Ptr) : PidManager :=
  if validatePid pid then
    { pm with pidInfoBlocks := Function.update pm.pidInfoBlocks (pid - 1) block }
  else pm

def isPidFree (pm : PidManager) (pid : Int) : Bool := (pm.getPidBlock pid).isNone

def deref (pm : PidManager) (p : Ptr) : Except Fault PidInfoBlock :=
  match pm.heap p with
  | some block => .ok block
  | none => .error .useAfterFree

def setBlock (pm : PidManager) (p : Ptr) (block : PidInfoBlock) : PidManager :=
  { pm with heap := Function.update pm.heap p (some block) }

def shouldFreePid (pm : PidManager) (block : PidInfoBlock) : Except Fault Bool :=
  if block.isExited = false then .ok false
  else if block.myParent < 2 ∨ pm.isPidFree block.myParent then .ok true
  else
    -- whoever carries the parent's number now, the forker or not
    match pm.getPidBlock block.myParent with
    | none => .error .nullDereference
    | some parent => (pm.deref parent).map (·.isExited)

def destroyPidBlock (pm : PidManager) (p : Ptr) : PidManager :=
  { pm with heap := Function.update pm.heap p none }

end PidManager

/-! ### Finding a free pid -/

/-- The loop of `scan_free` over a table of `max` pids, with `fuel` iterations at most.
It stops with the pid it looks at and with `considered_start`. -/
def scanLoop (max : Int) (free : Int → Bool) (start : Int) : Nat → Int → Bool → Int × Bool
  | 0, i, consideredStart => (i, consideredStart)
  | fuel + 1, i, consideredStart =>
    if !free i && !(decide (i = start) && consideredStart) then
      scanLoop max free start fuel (i % max + 1) (consideredStart || decide (i = start))
    else (i, consideredStart)

namespace PidManager

def scanFree (pm : PidManager) : Except Fault Int :=
  if pm.numberOfProcs = BitVec.ofInt 32 maxPids then .ok (-1)
  else
    let start := pm.nextPid
    let (i, consideredStart) :=
      scanLoop maxPids pm.isPidFree start (maxPids.toNat + 1) start false
    if i = start ∧ consideredStart then .ok (-1)
    else if i > 0 ∧ i ≤ maxPids then .ok i
    else .error .assertion

end PidManager

/-! ### Adding a process -/

/-- Outcomes of the allocations inside `inform_process_add`, in the order it makes them:
the block, its children array, its cv and the cv's name in `create_pid_block`, and the
growth of the parent's children array. -/
structure AddMemory where
  block : Bool
  children : Bool
  cv : Bool
  cvName : Bool
  grow : Option (Nat → Ptr)

def createPidBlock (mem : AddMemory) (pid parent : Int) : Option PidInfoBlock :=
  if mem.block ∧ mem.children ∧ mem.cv ∧ mem.cvName then
    some { myPid := pid, myParent := parent, children := .create,
           isExited := false, exitStatus := 0 }
  else none

/-- What `inform_process_add` leaves: its result, `newguy->pid` and the table. -/
structure AddReply where
  result : Errno
  pid : Int
  pm : PidManager

namespace PidManager

/-- `array_add(parent_block->children, block)`, if there is a parent block; `none` when
the array cannot grow. -/
def linkChild (pm : PidManager) (grow : Option (Nat → Ptr)) (parentId : Int) (child : Ptr) :
    Except Fault (Option PidManager) :=
  match pm.getPidBlock parentId with
  -- the boot process has no parent block
  | none => .ok (some pm)
  | some p =>
    match pm.deref p with
    | .error fault => .error fault
    | .ok parent =>
      let added := parent.children.add grow child
      if added.result = .success then
        .ok (some (pm.setBlock p { parent with children := added.state }))
      else .ok none

/-- The new block enters the table at pid `i`. -/
def claim (pm : PidManager) (i : Int) (block : PidInfoBlock) : PidManager :=
  { (pm.setPidBlock i (some pm.brk)).setBlock pm.brk block with
    brk := pm.brk + 1
    nextPid := i % maxPids + 1
    numberOfProcs := pm.numberOfProcs + 1 }

/-- `inform_process_add(newguy, parent_id)` called by thread `me`. When
`create_pid_block` fails it releases a lock that it never took. -/
def informProcessAdd (mem : AddMemory) (me : Ptr) (pm : PidManager) (parentId : Int) :
    Except Fault AddReply :=
  if pm.numberOfProcs = BitVec.ofInt 32 maxPids then .ok ⟨.EAGAIN, 0, pm⟩
  else
    match pm.scanFree with
    | .error fault => .error fault
    | .ok i =>
      if i = -1 then .error .panic
      else
        match createPidBlock mem i parentId with
        | none =>
          if pm.lock = some me then .ok ⟨.ENOMEM, 0, { pm with lock := none }⟩
          else .error .assertion
        | some block =>
          match pm.linkChild mem.grow parentId pm.brk with
          | .error fault => .error fault
          -- the new block is destroyed again, and nothing points to it
          | .ok none => .ok ⟨.ENOMEM, 0, pm⟩
          | .ok (some linked) => .ok ⟨.success, i, linked.claim i block⟩

/-! ### A process exits -/

/-- One iteration of the child loop of `inform_process_exit`. -/
def reapChild (pm : PidManager) (child : Ptr) : Except Fault PidManager :=
  match pm.deref child with
  | .error fault => .error fault
  | .ok block =>
    match pm.shouldFreePid block with
    | .error fault => .error fault
    | .ok false => .ok pm
    | .ok true =>
      -- the entry in the parent's children array stays
      let freed := (pm.setPidBlock block.myPid none).destroyPidBlock child
      .ok { freed with numberOfProcs := freed.numberOfProcs - 1 }

/-- The child loop. It leaves the array it walks alone. -/
def reapChildren : PidManager → List Ptr → Except Fault PidManager
  | pm, [] => .ok pm
  | pm, child :: rest =>
    match pm.reapChild child with
    | .error fault => .error fault
    | .ok pm => reapChildren pm rest

/-- The end of `inform_process_exit`: the block itself, and the assertion. -/
def reapSelf (pm : PidManager) (p : Ptr) (pid : Int) : Except Fault PidManager :=
  match pm.deref p with
  | .error fault => .error fault
  | .ok block =>
    match pm.shouldFreePid block with
    | .error fault => .error fault
    | .ok free =>
      let done :=
        if free then
          ({ pm with numberOfProcs := pm.numberOfProcs - 1 }.setPidBlock pid none).destroyPidBlock p
        else pm
      if done.numberOfProcs.toInt < 0 then .error .assertion else .ok done

/-- `inform_process_exit` between `lock_acquire` and `lock_release`, for the block `p` that
it looked up before it took the lock. -/
def exitCritical (pm : PidManager) (p : Ptr) (pid : Int) (status : CInt) :
    Except Fault PidManager :=
  match pm.deref p with
  | .error fault => .error fault
  | .ok block =>
    -- the broadcast on `exit_cv` comes before this, with the lock held
    let marked := pm.setBlock p { block with isExited := true, exitStatus := status }
    match marked.reapChildren block.children.toList with
    | .error fault => .error fault
    | .ok reaped => reaped.reapSelf p pid

/-- A whole `inform_process_exit` that finds the lock free. -/
def informProcessExit (pm : PidManager) (pid : Int) (status : CInt) :
    Except Fault (Errno × PidManager) :=
  match pm.getPidBlock pid with
  | none => .ok (.EINVAL, pm)
  | some p => (pm.exitCritical p pid status).map (Errno.success, ·)

/-! ### Queries -/

def getParent (pm : PidManager) (pid : Int) : Except Fault Int :=
  match pm.getPidBlock pid with
  | none => .ok (-1)
  | some p => (pm.deref p).map (·.myParent)

def getExitStatus (pm : PidManager) (pid : Int) : Except Fault CInt :=
  match pm.getPidBlock pid with
  | none => .ok (-1)
  | some p => (pm.deref p).map (·.exitStatus)

/-- `wait_pid(pid, caller, _)` gets past `!validate_pid(pid) || get_parent(pid) != caller`. -/
def waitAdmits (pm : PidManager) (pid caller : Int) : Except Fault Bool :=
  if validatePid pid = false then .ok false
  else (pm.getParent pid).map (fun parent => decide (parent = caller))

end PidManager

/-! ### Start-up -/

/-- `pid_manager_bootstrap`. It does not set `number_of_procs`, and the memory that
`kmalloc` returns is not cleared: `procs` is what was there, `front` the word in front
of the array. -/
def pidManagerBootstrap (procs : CInt) (front : Option Ptr) : PidManager where
  pidInfoBlocks := fun i => if i = -1 then front else none
  numberOfProcs := procs
  nextPid := 1
  lock := none
  heap := fun _ => none
  brk := 1

/-- The first block handed out: the one of the boot process. -/
def bootBlock : Ptr := 1

/-- `thread_bootstrap` registers the boot process, with no parent, and panics if that gives
it no pid. -/
def threadBootstrap (procs : CInt) (front : Option Ptr) (mem : AddMemory) :
    Except Fault PidManager :=
  match (pidManagerBootstrap procs front).informProcessAdd mem bootBlock 0 with
  | .error fault => .error fault
  | .ok reply => if reply.pid = 0 then .error .panic else .ok reply.pm

end Os161.Pid
