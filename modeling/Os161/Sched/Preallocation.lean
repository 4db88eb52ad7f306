import Os161.Sched.Threads

/-!
# What `thread_fork` reserves and what a switch needs

`thread_fork` makes room for `numthreads + 1` threads on the run queue and in the two
arrays, so that a switch should never have to allocate. The ring buffer keeps one cell
empty and a running thread queues itself before the next one leaves, so room for every
thread needs one cell more than there are threads. `exorcise` gives the buffer of `zombies`
back once it is large enough, and nothing reserves it again before the next fork.
-/
namespace Os161.Sched

open Foundation

/-! ### The run queue -/

/-- The run queue has more cells than there are threads, or some thread will not be on it. -/
def ThreadSystem.Spare (s : ThreadSystem) (event : Event) : Prop :=
  s.numthreads < s.runqueue.size ∨ s.runqueue.toList.length + s.queued event < s.numthreads

/-- The event calls `make_runnable` and nothing else that adds to a list. -/
def Event.Requeues : Event → Prop
  | .yield _ | .wakeup _ _ | .wakeOne _ _ => True
  | _ => False

variable {event : Event}

theorem Event.Requeues.listRoom (requeues : event.Requeues) (s : ThreadSystem) :
    s.ListRoom event := by
  cases event with
  | yield | wakeup | wakeOne => trivial
  | fork | context | sleep | exit | idle => exact requeues.elim

namespace Sound

variable {s : ThreadSystem}

/-- Whoever is queued was running or asleep. -/
theorem queued_le (sound : Sound s) (event : Event) :
    s.runqueue.toList.length + s.queued event ≤ s.numthreads := by
  have counted := sound.counted
  simp only [Counted, Roster.live, ThreadSystem.roster, List.length_append] at counted
  have one : s.queued event ≤ s.curthread.toList.length + s.sleepers.toList.length := by
    cases event with
    | yield => exact Nat.le_add_right _ _
    | wakeup _ addr => exact (List.length_filter_le _ _).trans (Nat.le_add_left _ _)
    | wakeOne _ addr =>
      simp only [ThreadSystem.queued]
      cases found : s.sleepers.toList.find? (s.sleepsOn addr) with
      | none => exact Nat.zero_le _
      | some t =>
        have somebody := List.length_pos_of_mem (List.mem_of_find?_eq_some found)
        simp only [Option.toList_some, List.length_singleton]
        omega
    | fork | context | sleep | exit | idle => exact Nat.zero_le _
  omega

private theorem queueRoom_iff (sound : Sound s) (event : Event) :
    s.QueueRoom event ↔ s.Spare event := by
  -- the forks have made room for `numthreads` cells, and no more threads can be queued
  have most := sound.queued_le event
  have reserved := sound.queueRoom
  unfold ThreadSystem.QueueRoom ThreadSystem.Spare
  omega

end Sound

/-- A run queues threads without `kmalloc` exactly if at each of its steps there is a spare
cell or a thread that stays off the queue. With memory exhausted, whether the next event
completes is decided by the same condition. -/
theorem run_queue_reserved_iff {words : Nat → Ptr} {history : List (ThreadSystem × Event)}
    {s : ThreadSystem} (run : Run ThreadSystem.Step (.boot words) history s) :
    ((∀ t ∈ visited history s, t.queueAsked = 0) ↔ ∀ taken ∈ history, taken.1.Spare taken.2) ∧
    (∀ event result, s.step event = some result → event.Requeues → event.Refused →
      ((∃ after, result = .ok after) ↔ s.Spare event)) := by
  constructor
  · refine run.good_iff Sound (Sound.boot words) rfl (fun _ _ _ sound taken => sound.next taken) ?_
    intro s event after sound quiet taken
    cases sound.step (next_eq_some taken) with
    | done sound' queue lists unfed => rw [← sound.queueRoom_iff, ← queue, quiet]
  intro event result stepped requeues refused
  have sound := Sound.of_run run
  rw [(sound.step stepped).completes_iff refused, ← sound.queueRoom_iff]
  exact and_iff_left (requeues.listRoom s)

/-- The boot thread forks `n` threads. -/
def forks (n : Nat) : List Event := List.replicate n (.fork granted 0)

/-- Whether an operation stops, and where. -/
def trapOf : Except Trap ThreadSystem → Option Trap
  | .ok _ => none
  | .error trap => some trap

/-- With 32 threads the 32 cells of the run queue are not enough: the boot thread yields when
the other 31 are queued. -/
theorem full_run_queue_asks :
    ∃ s, execute ThreadSystem.next (.boot fun _ => 0) (forks 31) = some s ∧
      s.numthreads = 32 ∧ s.runqueue.size = 32 ∧ s.runqueue.toList.length = 31 ∧
      s.queueAsked = 0 ∧ trapOf (s.threadYield none) = some .noMemory ∧
      (s.next (.yield (some fun _ => 0))).map (·.queueAsked) = some 1 :=
  execute_check (by decide +kernel)

theorem run_queue_reserved_iff_two :
    ∃ history s, Run ThreadSystem.Step (.boot fun _ => 0) history s ∧
      history.map Prod.snd = twoThreads.reverse ∧
      ((∀ t ∈ visited history s, t.queueAsked = 0) ↔
        ∀ taken ∈ history, taken.1.Spare taken.2) ∧
      (∃ after, s.threadYield none = .ok after) := by
  obtain ⟨s, reached, spare⟩ :
      ∃ s, execute ThreadSystem.next (.boot fun _ => 0) twoThreads = some s ∧
        s.numthreads < s.runqueue.size := execute_check (by decide +kernel)
  obtain ⟨history, run, same⟩ := Run.of_execute reached
  obtain ⟨whole, last⟩ := run_queue_reserved_iff run
  exact ⟨history, s, run, same, whole, (last (.yield none) _ rfl trivial rfl).mpr (.inl spare)⟩

/-! ### The two arrays -/

/-- The array that the current thread goes to has been reserved, and there is room left. -/
def ThreadSystem.Reserved (s : ThreadSystem) : Event → Prop
  | .sleep _ _ => s.sleepers.max ≠ 0
  | .exit _ => s.zombies.num < s.zombies.max
  | _ => True

/-- The event calls `array_add` in `mi_switch`. -/
def Event.Shelves : Event → Prop
  | .sleep _ _ | .exit _ => True
  | _ => False

theorem Event.Shelves.queueRoom (shelves : event.Shelves) (s : ThreadSystem) :
    s.QueueRoom event := by
  cases event with
  | sleep | exit => exact s.queueRoom_of_none rfl
  | fork | context | yield | wakeup | wakeOne | idle => exact shelves.elim

/-- The first fork reserves `sleepers` for good: only `zombies` is ever given back. -/
theorem Sound.listRoom_iff {s : ThreadSystem} (sound : Sound s)
    {result : Except Trap ThreadSystem} (stepped : s.step event = some result) :
    s.ListRoom event ↔ s.Reserved event := by
  cases event with
  | sleep mem addr =>
    simp only [ThreadSystem.ListRoom, ThreadSystem.Reserved]
    cases running : s.curthread with
    | none => simp [ThreadSystem.step, running] at stepped
    | some cur =>
      -- the current thread is not among the sleepers, so there is room for it
      have number := sound.length_live running
      have room := sound.sleepRoom
      omega
  | exit | fork | context | yield | wakeup | wakeOne | idle => exact Iff.rfl

/-- A run puts threads on `sleepers` and `zombies` without `kmalloc` exactly if the arrays
are still reserved at each of its steps. With memory exhausted, whether the next sleep or
exit completes is decided by the same condition. -/
theorem lists_reserved_iff {words : Nat → Ptr} {history : List (ThreadSystem × Event)}
    {s : ThreadSystem} (run : Run ThreadSystem.Step (.boot words) history s) :
    ((∀ t ∈ visited history s, t.listAsked = 0) ↔
      ∀ taken ∈ history, taken.1.Reserved taken.2) ∧
    (∀ event result, s.step event = some result → event.Shelves → event.Refused →
      ((∃ after, result = .ok after) ↔ s.Reserved event)) := by
  constructor
  · refine run.good_iff Sound (Sound.boot words) rfl (fun _ _ _ sound taken => sound.next taken) ?_
    intro s event after sound quiet taken
    have stepped := next_eq_some taken
    cases sound.step stepped with
    | done sound' queue lists unfed => rw [← sound.listRoom_iff stepped, ← lists, quiet]
  intro event result stepped shelves refused
  have sound := Sound.of_run run
  rw [(sound.step stepped).completes_iff refused, ← sound.listRoom_iff stepped]
  exact and_iff_right (shelves.queueRoom s)

/-- The boot thread forks 14 threads, and all are started before it runs again. -/
def startAll : List Event := forks 14 ++ List.replicate 15 (.yield none)

/-- The forks have reserved 30 cells of `zombies`. The boot thread gives them back when it
comes out of its `thread_yield`, although nobody has exited, and the first thread to exit
finds the array without a buffer. -/
theorem returned_zombies_asks :
    ∃ s, execute ThreadSystem.next (.boot fun _ => 0) startAll = some s ∧
      s.numthreads = 15 ∧ s.zombies.num = 0 ∧ s.zombies.max = 0 ∧ s.listAsked = 0 ∧
      trapOf (s.threadExit none) = some .noMemory ∧
      (s.next (.exit (some fun _ => 0))).map (·.listAsked) = some 1 :=
  execute_check (by decide +kernel)

/-- It can also fill up: a thread that forks one child and exits leaves `numthreads` at 1, and
a child that has never run does not destroy its parent. -/
example : (execute ThreadSystem.next (.boot fun _ => 0)
      [.fork granted 0, .exit none, .fork granted 0, .exit none, .fork granted 0]).map
    (fun s => (s.zombies.num, s.zombies.max, trapOf (s.threadExit none))) =
      some (2, 2, some .noMemory) := by decide +kernel

theorem lists_reserved_iff_two :
    ∃ history s, Run ThreadSystem.Step (.boot fun _ => 0) history s ∧
      history.map Prod.snd = twoThreads.reverse ∧
      ((∀ t ∈ visited history s, t.listAsked = 0) ↔
        ∀ taken ∈ history, taken.1.Reserved taken.2) ∧
      (∃ after, s.threadSleep none 5 = .ok after) := by
  obtain ⟨s, reached, reserved, running⟩ :
      ∃ s, execute ThreadSystem.next (.boot fun _ => 0) twoThreads = some s ∧
        s.sleepers.max ≠ 0 ∧ s.curthread = some 2 := execute_check (by decide +kernel)
  obtain ⟨history, run, same⟩ := Run.of_execute reached
  obtain ⟨whole, last⟩ := lists_reserved_iff run
  have stepped : s.step (.sleep none 5) = some (s.threadSleep none 5) := by
    simp [ThreadSystem.step, running]
  exact ⟨history, s, run, same, whole, (last _ _ stepped trivial rfl).mpr reserved⟩

end Os161.Sched
