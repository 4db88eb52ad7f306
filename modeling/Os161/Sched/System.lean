import Os161.Kern.Array
import Os161.Kern.Queue
import Os161.Foundation.Roster
import Os161.Foundation.Transition

/-!
# The thread system of `thread/thread.c` and `thread/scheduler.c`

A thread that is not running is on one of three lists, and its stack remembers in which
call it stopped. A switch that finds the run queue empty leaves the processor in the
idle loop of `scheduler`, where `curthread` is NULL and only interrupt handlers run.
-/
namespace Os161.Sched

open Foundation
open Function (update)

/-- The outcome of one `kmalloc` of a buffer of pointers. -/
abbrev Words := Option (Nat → Ptr)

/-- Where a thread continues when it is switched to. -/
inductive Frame where
  /-- In `mi_threadstart`: it has never run. -/
  | fresh
  /-- In `mi_switch`, called from `thread_yield`. -/
  | yielded
  /-- In `mi_switch`, called from `thread_sleep(addr)`. -/
  | slept (addr : Ptr)
  /-- In `mi_switch`, called from `thread_exit`, which panics if it gets control back. -/
  | exited
  deriving DecidableEq

structure Thread where
  /-- NULL is 0. -/
  sleepaddr : Ptr
  vmspace : Option Ptr
  cwd : Option Ptr
  pid : Int
  frame : Frame

structure ThreadSystem where
  curthread : Option Ptr
  sleepers : KArray Ptr
  zombies : KArray Ptr
  numthreads : Nat
  runqueue : Queue Ptr
  /-- The thread structures allocated and not yet freed. -/
  threads : Ptr → Option Thread
  /-- No address from here on has ever been handed out. -/
  brk : Ptr
  /-- Kept for the record: `kmalloc` calls of `make_runnable` outside `thread_fork`. -/
  queueAsked : Nat
  /-- Kept for the record: `kmalloc` calls of the two `array_add` in `mi_switch`. -/
  listAsked : Nat

inductive Trap where
  /-- `assert(result==0)` after a refused allocation. -/
  | noMemory
  /-- An assertion of `exorcise` or `thread_destroy`. -/
  | exorcise
  /-- A list holds something that is not a thread, or an index into it is wrong. -/
  | dangling
  /-- `assert(numthreads>0)` in `thread_exit`. -/
  | count
  /-- The panic at the end of `thread_exit`. -/
  | undead
  deriving DecidableEq

/-- Outcomes of the allocations of `thread_fork` from its preallocations on. -/
structure ReserveMemory where
  sleepers : Words
  zombies : Words
  runqueue : Words
  addtail : Words

/-- `threadstate_t`, as `mi_switch` is called with it. -/
inductive NextState where
  | ready
  | sleep
  | zombie

namespace ThreadSystem

/-- The threads, list by list. -/
def roster (s : ThreadSystem) : Roster Ptr :=
  ⟨s.curthread, s.runqueue.toList, s.sleepers.toList, s.zombies.toList⟩

def setThread (s : ThreadSystem) (t : Ptr) (th : Thread) : ThreadSystem :=
  { s with threads := update s.threads t (some th) }

/-! ### The run queue -/

def makeRunnable (s : ThreadSystem) (mem : Words) (t : Ptr) : Grown ThreadSystem :=
  let added := s.runqueue.addtail mem t
  ⟨added.result, { s with runqueue := added.state }, added.asked⟩

/-- `make_runnable` followed by `assert(result==0)`. -/
def requeue (s : ThreadSystem) (mem : Words) (t : Ptr) : Except Trap ThreadSystem :=
  let added := s.makeRunnable mem t
  if added.result = .success then
    .ok { added.state with queueAsked := s.queueAsked + added.asked.toNat }
  else .error .noMemory

/-! ### Destroying zombies -/

/-- `thread_destroy`, with the assertion `exorcise` makes before it. -/
def threadDestroy (s : ThreadSystem) (z : Ptr) : Except Trap ThreadSystem :=
  match s.threads z with
  | none => .error .dangling
  | some th =>
    if s.curthread = some z ∨ th.vmspace.isSome ∨ th.cwd.isSome then .error .exorcise
    else .ok { s with threads := update s.threads z none }

/-- The loop of `exorcise`. -/
def destroyAll : ThreadSystem → List Ptr → Except Trap ThreadSystem
  | s, [] => .ok s
  | s, z :: rest =>
    match s.threadDestroy z with
    | .error trap => .error trap
    | .ok s => s.destroyAll rest

def exorcise (s : ThreadSystem) : Except Trap ThreadSystem :=
  match s.destroyAll s.zombies.toList with
  | .error trap => .error trap
  | .ok s =>
    let sized := s.zombies.setsize none 0
    if sized.result = .success then .ok { s with zombies := sized.state } else .error .noMemory

/-! ### Switching -/

/-- What `next` does first: a new thread goes to `mi_threadstart`, any other returns from
`md_switch` and cleans up. -/
def resume (s : ThreadSystem) (next : Ptr) : Except Trap ThreadSystem :=
  match s.threads next with
  | none => .error .dangling
  | some th =>
    match th.frame with
    -- `mi_threadstart` does not call `exorcise`
    | .fresh => .ok s
    | .yielded => s.exorcise
    | .slept _ =>
      match s.exorcise with
      | .error trap => .error trap
      -- the last line of `thread_sleep`
      | .ok s => .ok (s.setThread next { th with sleepaddr := 0 })
    | .exited =>
      match s.exorcise with
      | .error trap => .error trap
      | .ok _ => .error .undead

/-- One test of the loop of `scheduler`, and the switch if it ends the loop. -/
def schedule (s : ThreadSystem) : Except Trap ThreadSystem :=
  -- `cpu_idle`: the next event is an interrupt, or another test
  if s.runqueue.empty then .ok s
  else
    match s.runqueue.remhead with
    | .error _ => .error .dangling
    | .ok (next, rest) => { s with runqueue := rest, curthread := some next }.resume next

/-- The middle of `mi_switch`: put `cur` on the list for its next state. -/
def stash (s : ThreadSystem) (mem : Words) (cur : Ptr) : NextState → Except Trap ThreadSystem
  | .ready => s.requeue mem cur
  | .sleep =>
    let added := s.sleepers.add mem cur
    if added.result = .success then
      .ok { s with sleepers := added.state, listAsked := s.listAsked + added.asked.toNat }
    else .error .noMemory
  | .zombie =>
    let added := s.zombies.add mem cur
    if added.result = .success then
      .ok { s with zombies := added.state, listAsked := s.listAsked + added.asked.toNat }
    else .error .noMemory

/-- `mi_switch`, up to the idle loop if there is nobody to switch to. `frame` is where the
current thread will continue. -/
def miSwitch (s : ThreadSystem) (mem : Words) (next : NextState) (frame : Frame) :
    Except Trap ThreadSystem :=
  match s.curthread with
  -- a timer interrupt in the idle loop
  | none => .ok s
  | some cur =>
    match s.threads cur with
    | none => .error .dangling
    | some th =>
      match ({ s with curthread := none }.setThread cur { th with frame := frame }).stash mem cur
          next with
      | .error trap => .error trap
      | .ok s => s.schedule

def threadYield (s : ThreadSystem) (mem : Words) : Except Trap ThreadSystem :=
  s.miSwitch mem .ready .yielded

def threadSleep (s : ThreadSystem) (mem : Words) (addr : Ptr) : Except Trap ThreadSystem :=
  match s.curthread with
  | none => .error .dangling
  | some cur =>
    match s.threads cur with
    | none => .error .dangling
    | some th => (s.setThread cur { th with sleepaddr := addr }).miSwitch mem .sleep (.slept addr)

/-- `thread_exit` after its call of `inform_process_exit`, which sleeps and wakes others like
any caller. -/
def threadExit (s : ThreadSystem) (mem : Words) : Except Trap ThreadSystem :=
  match s.curthread with
  | none => .error .dangling
  | some cur =>
    match s.threads cur with
    | none => .error .dangling
    | some th =>
      if s.numthreads = 0 then .error .count
      else
        { s.setThread cur { th with vmspace := none, cwd := none } with
          numthreads := s.numthreads - 1 }.miSwitch mem .zombie .exited

/-! ### Waking -/

/-- The thread at index `i` of `sleepers`, and whether it sleeps on `addr`. -/
def sleeperAt (s : ThreadSystem) (addr : Ptr) (i : Nat) : Except Trap (Ptr × Bool) :=
  match s.sleepers.getguy i with
  | .error _ => .error .dangling
  | .ok t =>
    match s.threads t with
    | none => .error .dangling
    | some th => .ok (t, th.sleepaddr == addr)

/-- `array_remove(sleepers, i)`, `make_runnable(t)` and the assertion. -/
def wakeAt (s : ThreadSystem) (mem : Words) (i : Nat) (t : Ptr) : Except Trap ThreadSystem :=
  match s.sleepers.remove i with
  | .error _ => .error .dangling
  | .ok rest => { s with sleepers := rest }.requeue mem t

/-- The loop of `thread_wakeup` from index `i` on; `fuel` is the number of sleepers it has not
looked at. -/
def wakeLoop (addr : Ptr) (mem : Nat → Words) : Nat → Nat → ThreadSystem → Except Trap ThreadSystem
  | 0, _, s => .ok s
  | fuel + 1, i, s =>
    if i < s.sleepers.num then
      match s.sleeperAt addr i with
      | .error trap => .error trap
      | .ok (t, true) =>
        -- `i--` and `i++`: the next sleeper has moved to index `i`
        match s.wakeAt (mem fuel) i t with
        | .error trap => .error trap
        | .ok s => wakeLoop addr mem fuel i s
      | .ok (_, false) => wakeLoop addr mem fuel (i + 1) s
    else .ok s

def threadWakeup (s : ThreadSystem) (mem : Nat → Words) (addr : Ptr) : Except Trap ThreadSystem :=
  wakeLoop addr mem s.sleepers.num 0 s

/-- The loop of `thread_wake_one`, which stops at the first match. -/
def wakeOneLoop (addr : Ptr) (mem : Words) : Nat → Nat → ThreadSystem → Except Trap ThreadSystem
  | 0, _, s => .ok s
  | fuel + 1, i, s =>
    if i < s.sleepers.num then
      match s.sleeperAt addr i with
      | .error trap => .error trap
      | .ok (t, true) => s.wakeAt mem i t
      | .ok (_, false) => wakeOneLoop addr mem fuel (i + 1) s
    else .ok s

def threadWakeOne (s : ThreadSystem) (mem : Words) (addr : Ptr) : Except Trap ThreadSystem :=
  wakeOneLoop addr mem s.sleepers.num 0 s

def hassleepersLoop (s : ThreadSystem) (addr : Ptr) : Nat → Nat → Except Trap Bool
  | 0, _ => .ok false
  | fuel + 1, i =>
    if i < s.sleepers.num then
      match s.sleeperAt addr i with
      | .error trap => .error trap
      | .ok (_, true) => .ok true
      | .ok (_, false) => s.hassleepersLoop addr fuel (i + 1)
    else .ok false

def threadHassleepers (s : ThreadSystem) (addr : Ptr) : Except Trap Bool :=
  s.hassleepersLoop addr s.sleepers.num 0

/-! ### Forking -/

/-- The three preallocations of `thread_fork`. -/
def reserve (s : ThreadSystem) (mem : ReserveMemory) : Errno × ThreadSystem :=
  let room := s.numthreads + 1
  -- each failure keeps the room made before it
  let asleep := s.sleepers.preallocate mem.sleepers room
  if asleep.result ≠ .success then (asleep.result, s)
  else
    let s := { s with sleepers := asleep.state }
    let dead := s.zombies.preallocate mem.zombies room
    if dead.result ≠ .success then (dead.result, s)
    else
      let s := { s with zombies := dead.state }
      let queue := s.runqueue.preallocate mem.runqueue room
      (queue.result, { s with runqueue := queue.state })

/-- `thread_fork` from its preallocations to `numthreads++`. -/
def enroll (s : ThreadSystem) (mem : ReserveMemory) (newguy : Ptr) : Errno × ThreadSystem :=
  match s.reserve mem with
  | (.success, s) =>
    let added := s.makeRunnable mem.addtail newguy
    if added.result = .success then
      (.success, { added.state with numthreads := s.numthreads + 1 })
    else (added.result, added.state)
  | failed => failed

/-- A new thread structure at address `brk`, as `thread_create` and `thread_fork` fill it in. -/
def create (s : ThreadSystem) (cwd : Option Ptr) (pid : Int) : ThreadSystem :=
  { s.setThread s.brk ⟨0, none, cwd, pid, .fresh⟩ with brk := s.brk + 1 }

/-- `kfree` of a thread structure. -/
def free (s : ThreadSystem) (t : Ptr) : ThreadSystem :=
  { s with threads := update s.threads t none }

/-- `thread_fork` as far as the thread system goes, for the pid that `inform_process_add` has
given to the new thread. -/
def fork (s : ThreadSystem) (mem : ReserveMemory) (cwd : Option Ptr) (pid : Int) : ThreadSystem :=
  match (s.create cwd pid).enroll mem s.brk with
  | (.success, after) => after
  | (_, after) => after.free s.brk

end ThreadSystem

/-! ### Runs -/

inductive Event where
  | fork (mem : ReserveMemory) (pid : Int)
  /-- The current thread's address space and directory change. -/
  | context (vmspace cwd : Option Ptr)
  | sleep (mem : Words) (addr : Ptr)
  | exit (mem : Words)
  /-- Called by the current thread or by the timer interrupt; in the idle loop it returns
  at once. -/
  | yield (mem : Words)
  /-- Called by the current thread or by an interrupt handler, also in the idle loop. -/
  | wakeup (mem : Nat → Words) (addr : Ptr)
  | wakeOne (mem : Words) (addr : Ptr)
  /-- `cpu_idle` returns to the loop of `scheduler`. -/
  | idle

namespace ThreadSystem

/-- One event; `none` if it cannot happen in this state. -/
def step (s : ThreadSystem) : Event → Option (Except Trap ThreadSystem)
  | .fork mem pid =>
    match s.curthread with
    | none => none
    | some cur => (s.threads cur).map fun th => .ok (s.fork mem th.cwd pid)
  | .context vmspace cwd =>
    match s.curthread with
    | none => none
    | some cur =>
      (s.threads cur).map fun th => .ok (s.setThread cur { th with vmspace := vmspace, cwd := cwd })
  | .sleep mem addr => if s.curthread.isSome then some (s.threadSleep mem addr) else none
  | .exit mem => if s.curthread.isSome then some (s.threadExit mem) else none
  | .yield mem => some (s.threadYield mem)
  | .wakeup mem addr => some (s.threadWakeup mem addr)
  | .wakeOne mem addr => some (s.threadWakeOne mem addr)
  | .idle => if s.curthread.isNone then some s.schedule else none

def next (s : ThreadSystem) (event : Event) : Option ThreadSystem :=
  match s.step event with
  | some (.ok after) => some after
  | _ => none

abbrev Step : ThreadSystem → Event → ThreadSystem → Prop := Computes ThreadSystem.next

/-- What `scheduler_bootstrap` and `thread_bootstrap` leave: the first thread is running, and
the run queue has 32 cells with `words` in them. -/
def boot (words : Nat → Ptr) : ThreadSystem where
  curthread := some 1
  sleepers := .create
  zombies := .create
  numthreads := 1
  runqueue := .create 32 (by decide) words
  threads := update (fun _ => none) 1 (some ⟨0, none, none, 1, .yielded⟩)
  brk := 2
  queueAsked := 0
  listAsked := 0

end ThreadSystem

end Os161.Sched
