import Os161.Kern.Base
import Os161.Foundation.Transition

/-!
# The code of `thread/synch.c`, statement by statement

Each function of the file is a list of statements. The thread that runs them can lose
the processor between two statements only while `curspl` is 0, or by going to sleep.
Interrupt handlers call nothing but `V`, and every pointer is that of a live object, so
the assertions on `in_interrupt` and on null arguments have no statement here.
-/
namespace Os161.Synch

open Foundation
open Function (update)

/-- `curspl`: 0 lets interrupts in, `SPL_HIGH` keeps them out. -/
inductive Spl where
  | zero
  | high
  deriving DecidableEq

/-- What a thread can sleep on. Objects at different addresses never share one. -/
inductive Addr where
  | sem (s : Ptr)
  | lock (l : Ptr)
  | cv (c : Ptr)
  /-- An address that has nothing to do with `synch.c`, such as that of `lbolt`. -/
  | other (p : Ptr)
  deriving DecidableEq

inductive Op where
  | P (s : Ptr)
  | V (s : Ptr)
  | lockAcquire (l : Ptr)
  | lockRelease (l : Ptr)
  | lockDoIHold (l : Ptr)
  | cvWait (c l : Ptr)
  | cvSignal (c l : Ptr)
  | cvBroadcast (c l : Ptr)
  deriving DecidableEq

inductive Stmt where
  /-- `spl = splhigh();` -/
  | splhigh
  /-- `splx(spl);` -/
  | splx
  /-- `if (lock->owner == curthread) answer = 1; else answer = 0;` -/
  | testOwner (l : Ptr)
  /-- `if (lock_do_i_hold(lock)) panic(...);`, once the call has returned. -/
  | panicIfHeld (l : Ptr)
  /-- `assert(lock_do_i_hold(lock));`, once the call has returned. -/
  | assertHeld (l : Ptr)
  /-- `while (lock->owner) thread_sleep(lock);` -/
  | whileOwned (l : Ptr)
  /-- `assert(!lock->owner);` -/
  | assertFree (l : Ptr)
  /-- `lock->owner = curthread;` -/
  | takeOwner (l : Ptr)
  /-- `lock->owner = NULL;` -/
  | dropOwner (l : Ptr)
  /-- `while (sem->count==0) thread_sleep(sem);` -/
  | whileZero (s : Ptr)
  /-- `assert(sem->count>0);` -/
  | assertPositive (s : Ptr)
  /-- `sem->count--;` -/
  | decrement (s : Ptr)
  /-- `sem->count++;` -/
  | increment (s : Ptr)
  | threadSleep (a : Addr)
  | threadWakeup (a : Addr)
  | threadWakeOne (a : Addr)
  deriving DecidableEq

/-! ### The functions -/

def P (s : Ptr) : List Stmt :=
  [.splhigh, .whileZero s, .assertPositive s, .decrement s, .splx]

def V (s : Ptr) : List Stmt :=
  [.splhigh, .increment s, .assertPositive s, .threadWakeup (.sem s), .splx]

def lockDoIHold (l : Ptr) : List Stmt := [.splhigh, .testOwner l, .splx]

def lockAcquire (l : Ptr) : List Stmt :=
  lockDoIHold l ++
    [.panicIfHeld l, .splhigh, .whileOwned l, .assertFree l, .takeOwner l, .splx]

def lockRelease (l : Ptr) : List Stmt :=
  lockDoIHold l ++ [.assertHeld l, .splhigh, .dropOwner l, .threadWakeup (.lock l), .splx]

def cvWait (c l : Ptr) : List Stmt :=
  [.splhigh] ++ lockRelease l ++ [.threadSleep (.cv c)] ++ lockAcquire l ++ [.splx]

def cvSignal (c l : Ptr) : List Stmt :=
  [.splhigh] ++ lockDoIHold l ++ [.assertHeld l, .threadWakeOne (.cv c), .splx]

def cvBroadcast (c l : Ptr) : List Stmt :=
  [.splhigh] ++ lockDoIHold l ++ [.assertHeld l, .threadWakeup (.cv c), .splx]

def Op.body : Op → List Stmt
  | P s => Synch.P s
  | V s => Synch.V s
  | lockAcquire l => Synch.lockAcquire l
  | lockRelease l => Synch.lockRelease l
  | lockDoIHold l => Synch.lockDoIHold l
  | cvWait c l => Synch.cvWait c l
  | cvSignal c l => Synch.cvSignal c l
  | cvBroadcast c l => Synch.cvBroadcast c l

/-! ### What the statements work on -/

/-- The semaphores, the locks and the sleepers, shared by all threads. -/
structure Objects (τ : Type) where
  owner : Ptr → Option τ
  count : Ptr → CInt
  /-- The sleepers array, each thread with its `t_sleepaddr`. -/
  sleepers : List (τ × Addr)
  /-- Kept for the record: the thread has returned from `lock_acquire` or `cv_wait`, and has
  not cleared the owner since. -/
  held : Ptr → τ → Bool
  /-- Kept for the record: the calls of `P` that have returned. -/
  downs : Ptr → Nat
  /-- Kept for the record: the calls of `V` that have returned. -/
  ups : Ptr → Nat
  /-- Kept for the record: how often threads have gone to sleep. -/
  naps : Nat
  /-- Kept for the record: the value of `naps` when the thread last went to sleep. -/
  since : τ → Nat

inductive Stop where
  /-- The panic of `lock_acquire`. -/
  | alreadyHeld (l : Ptr)
  /-- `assert(lock_do_i_hold(lock))`. -/
  | notHeld (l : Ptr)
  /-- `assert(!lock->owner)`. -/
  | owned (l : Ptr)
  /-- `assert(sem->count>0)`. -/
  | notPositive (s : Ptr)
  deriving DecidableEq

namespace Objects

variable {τ : Type} [DecidableEq τ]

def setOwner (o : Objects τ) (l : Ptr) (owner : Option τ) : Objects τ :=
  { o with owner := update o.owner l owner }

def setCount (o : Objects τ) (s : Ptr) (count : CInt) : Objects τ :=
  { o with count := update o.count s count }

def setHeld (o : Objects τ) (l : Ptr) (t : τ) (held : Bool) : Objects τ :=
  { o with held := update o.held l (update (o.held l) t held) }

/-- `thread_sleep`, up to the switch. -/
def threadSleep (o : Objects τ) (t : τ) (a : Addr) : Objects τ :=
  { o with
    sleepers := o.sleepers ++ [(t, a)]
    naps := o.naps + 1
    since := update o.since t o.naps }

/-- `thread_wakeup`: all who sleep on the address leave the array. -/
def threadWakeup (o : Objects τ) (a : Addr) : Objects τ :=
  { o with sleepers := o.sleepers.filter fun e => e.2 ≠ a }

/-- `thread_wake_one`: the first of them leaves it. -/
def threadWakeOne (o : Objects τ) (a : Addr) : Objects τ :=
  { o with sleepers := o.sleepers.eraseP fun e => e.2 = a }

def downed (o : Objects τ) (s : Ptr) : Objects τ :=
  { o with downs := update o.downs s (o.downs s + 1) }

def upped (o : Objects τ) (s : Ptr) : Objects τ :=
  { o with ups := update o.ups s (o.ups s + 1) }

/-- The record of a call that returns. -/
def returned (o : Objects τ) (t : τ) : Option Op → Objects τ
  | some (.P s) => o.downed s
  | some (.V s) => o.upped s
  | some (.lockAcquire l) | some (.cvWait _ l) => o.setHeld l t true
  | _ => o

/-- `V` from beginning to end, as an interrupt handler executes it. -/
def up (o : Objects τ) (s : Ptr) : Except Stop (Objects τ) :=
  if 0 < (o.count s + 1).toInt then
    .ok (((o.setCount s (o.count s + 1)).threadWakeup (.sem s)).upped s)
  else .error (.notPositive s)

/-- `t` is in the sleepers array. -/
def Asleep (o : Objects τ) (t : τ) : Prop := ∃ e ∈ o.sleepers, e.1 = t

instance (o : Objects τ) (t : τ) : Decidable (o.Asleep t) :=
  inferInstanceAs (Decidable (∃ e ∈ o.sleepers, e.1 = t))

end Objects

/-! ### One statement -/

/-- What a thread has on its stack. -/
structure Frame where
  /-- The call it has made last. -/
  call : Option Op
  /-- What is left of it; nothing once it has returned. -/
  todo : List Stmt
  /-- The local variables `spl` of the functions it is in, innermost first. -/
  saved : List Spl
  /-- What `lock_do_i_hold` has told it last. -/
  answer : Bool

inductive Outcome (τ : Type) where
  | next (o : Objects τ) (spl : Spl) (frame : Frame)
  /-- `mi_switch(S_SLEEP)`; the thread will continue in `frame`. -/
  | sleep (o : Objects τ) (frame : Frame)
  | stop (why : Stop)

section

variable {τ : Type} [DecidableEq τ]

/-- The statement, executed by `t` at level `spl` in `frame`, with `rest` to follow. -/
def Stmt.exec (t : τ) (o : Objects τ) (spl : Spl) (frame : Frame) (rest : List Stmt) :
    Stmt → Outcome τ
  | splhigh => .next o .high { frame with todo := rest, saved := spl :: frame.saved }
  -- the last statement of every function
  | splx =>
    .next (if rest = [] then o.returned t frame.call else o) (frame.saved.headD spl)
      { frame with todo := rest, saved := frame.saved.tail }
  | testOwner l => .next o spl { frame with todo := rest, answer := o.owner l = some t }
  | panicIfHeld l =>
    if frame.answer then .stop (.alreadyHeld l) else .next o spl { frame with todo := rest }
  | assertHeld l =>
    if frame.answer then .next o spl { frame with todo := rest } else .stop (.notHeld l)
  -- a sleeper tests again when it wakes
  | whileOwned l =>
    if o.owner l = none then .next o spl { frame with todo := rest }
    else .sleep (o.threadSleep t (.lock l)) { frame with todo := whileOwned l :: rest }
  | assertFree l =>
    if o.owner l = none then .next o spl { frame with todo := rest } else .stop (.owned l)
  | takeOwner l => .next (o.setOwner l (some t)) spl { frame with todo := rest }
  | dropOwner l =>
    .next ((o.setOwner l none).setHeld l t false) spl { frame with todo := rest }
  | whileZero s =>
    if o.count s = 0 then
      .sleep (o.threadSleep t (.sem s)) { frame with todo := whileZero s :: rest }
    else .next o spl { frame with todo := rest }
  | assertPositive s =>
    if 0 < (o.count s).toInt then .next o spl { frame with todo := rest }
    else .stop (.notPositive s)
  | decrement s => .next (o.setCount s (o.count s - 1)) spl { frame with todo := rest }
  | increment s => .next (o.setCount s (o.count s + 1)) spl { frame with todo := rest }
  | threadSleep a => .sleep (o.threadSleep t a) { frame with todo := rest }
  | threadWakeup a => .next (o.threadWakeup a) spl { frame with todo := rest }
  | threadWakeOne a => .next (o.threadWakeOne a) spl { frame with todo := rest }

end

/-! ### The machine -/

structure Machine (τ : Type) where
  objects : Objects τ
  /-- NULL while the scheduler looks for a thread. -/
  curthread : Option τ
  curspl : Spl
  frames : τ → Frame
  /-- The level at which each thread was when it lost the processor. -/
  levels : τ → Spl
  stopped : Option Stop

inductive Event (τ : Type) where
  /-- The current thread, outside `synch.c`, makes a call. -/
  | call (op : Op)
  /-- The current thread executes the next statement of its call. -/
  | run
  /-- The current thread, outside `synch.c`, sets the interrupt level. -/
  | spl (level : Spl)
  /-- The current thread, outside `synch.c` and with interrupts off, goes to sleep. -/
  | sleep (p : Ptr)
  /-- The timer interrupt, or a call of `thread_yield` from outside `synch.c`. -/
  | yield
  /-- The scheduler picks a thread. -/
  | dispatch (t : τ)
  /-- An interrupt handler calls `V`. -/
  | interrupt (s : Ptr)
  /-- `thread_wakeup` on an address outside `synch.c`, also from an interrupt handler. -/
  | wakeup (p : Ptr)
  | wakeOne (p : Ptr)

namespace Machine

variable {τ : Type} [DecidableEq τ]

def setFrame (m : Machine τ) (t : τ) (frame : Frame) : Machine τ :=
  { m with frames := update m.frames t frame }

/-- The thread is not inside a call. -/
def Outside (m : Machine τ) (t : τ) : Prop := (m.frames t).todo = []

instance (m : Machine τ) (t : τ) : Decidable (m.Outside t) :=
  inferInstanceAs (Decidable ((m.frames t).todo = []))

/-- The kernel runs, and no thread is inside a call with interrupts off. Except at a
`thread_sleep` inside a call, the current thread can only lose the processor here. -/
def Settled (m : Machine τ) : Prop :=
  m.stopped = none ∧ ∀ t, m.curthread = some t → m.Outside t ∨ m.curspl = .zero

def switchOut (m : Machine τ) (t : τ) : Machine τ :=
  { m with curthread := none, levels := update m.levels t m.curspl }

def apply (m : Machine τ) (t : τ) : Outcome τ → Machine τ
  | .next o spl frame => { m.setFrame t frame with objects := o, curspl := spl }
  | .sleep o frame => { m.setFrame t frame with objects := o }.switchOut t
  | .stop why => { m with stopped := some why }

def handlerV (m : Machine τ) (s : Ptr) : Machine τ :=
  match m.objects.up s with
  | .ok o => { m with objects := o }
  | .error why => { m with stopped := some why }

def threadStep (m : Machine τ) (t : τ) : Event τ → Option (Machine τ)
  | .call op =>
    if m.Outside t then some (m.setFrame t ⟨some op, op.body, [], (m.frames t).answer⟩) else none
  | .run =>
    match (m.frames t).todo with
    | [] => none
    | s :: rest => some (m.apply t (s.exec t m.objects m.curspl (m.frames t) rest))
  | .spl level => if m.Outside t then some { m with curspl := level } else none
  | .sleep p =>
    if m.Outside t ∧ m.curspl = .high then
      some ({ m with objects := m.objects.threadSleep t (.other p) }.switchOut t)
    else none
  | .yield => if m.Outside t ∨ m.curspl = .zero then some (m.switchOut t) else none
  | .wakeup p =>
    if m.Outside t ∨ m.curspl = .zero then
      some { m with objects := m.objects.threadWakeup (.other p) }
    else none
  | .wakeOne p =>
    if m.Outside t ∨ m.curspl = .zero then
      some { m with objects := m.objects.threadWakeOne (.other p) }
    else none
  | .interrupt s => if m.curspl = .zero then some (m.handlerV s) else none
  | .dispatch _ => none

def idleStep (m : Machine τ) : Event τ → Option (Machine τ)
  | .dispatch t =>
    if m.objects.Asleep t then none else some { m with curthread := some t, curspl := m.levels t }
  | .interrupt s => some (m.handlerV s)
  | .wakeup p => some { m with objects := m.objects.threadWakeup (.other p) }
  | .wakeOne p => some { m with objects := m.objects.threadWakeOne (.other p) }
  | _ => none

/-- One event; `none` if it cannot happen in this state. -/
def next (m : Machine τ) (event : Event τ) : Option (Machine τ) :=
  match m.stopped, m.curthread with
  | some _, _ => none
  | none, some t => m.threadStep t event
  | none, none => m.idleStep event

abbrev Step : Machine τ → Event τ → Machine τ → Prop := Computes Machine.next

/-- Every semaphore has been created with its count in `initial`, every lock is free, and no
thread has made a call. -/
def start (initial : Ptr → CInt) : Machine τ where
  objects := ⟨fun _ => none, initial, [], fun _ _ => false, fun _ => 0, fun _ => 0, 0, fun _ => 0⟩
  curthread := none
  curspl := .high
  frames := fun _ => ⟨none, [], [], false⟩
  levels := fun _ => .zero
  stopped := none

end Machine

end Os161.Synch
