import Os161.Sched.Waking

/-!
# Threads are neither lost nor doubled

The partition of the threads among the running one, the run queue, the sleepers and the
zombies holds in every reachable state, and no operation stops except for want of memory.
-/
namespace Os161.Sched

open ThreadSystem (roster threadYield)

open Foundation

namespace ThreadSystem

/-! ### Forking -/

/-- What the preallocations may change: room, and nothing else. -/
structure Widened (s after : ThreadSystem) : Prop where
  frame : after = { s with
    sleepers := after.sleepers, zombies := after.zombies, runqueue := after.runqueue }
  lists : after.roster = s.roster
  sleepers : s.sleepers.max ≤ after.sleepers.max
  queue : s.runqueue.size ≤ after.runqueue.size

theorem Widened.refl (s : ThreadSystem) : Widened s s :=
  ⟨rfl, rfl, Nat.le_refl _, Nat.le_refl _⟩

private theorem reserve_spec (s : ThreadSystem) (mem : ReserveMemory) :
    Widened s (s.reserve mem).2 ∧ ((s.reserve mem).1 = .success →
      s.numthreads + 1 ≤ (s.reserve mem).2.sleepers.max ∧
      s.numthreads + 1 ≤ (s.reserve mem).2.runqueue.size) := by
  have asleepList := KArray.toList_preallocate mem.sleepers s.sleepers (s.numthreads + 1)
  have asleepMax := KArray.max_preallocate mem.sleepers s.sleepers (s.numthreads + 1)
  have deadList := KArray.toList_preallocate mem.zombies s.zombies (s.numthreads + 1)
  obtain ⟨queueList, queueSize, queueRoom⟩ :=
    s.runqueue.preallocate_spec mem.runqueue (s.numthreads + 1)
  -- the three preallocations in their order; a failure keeps the room made before it
  by_cases asleep : (s.sleepers.preallocate mem.sleepers (s.numthreads + 1)).result = .success
  · have asleepRoom := KArray.preallocate_reaches mem.sleepers s.sleepers (s.numthreads + 1) asleep
    by_cases dead : (s.zombies.preallocate mem.zombies (s.numthreads + 1)).result = .success
    · simp only [reserve, asleep, dead, ne_eq, not_true_eq_false, ite_false]
      refine ⟨⟨rfl, ?_, asleepMax, queueSize⟩, fun granted => ⟨asleepRoom, queueRoom granted⟩⟩
      simp [roster, asleepList, deadList, queueList]
    simp only [reserve, asleep, dead, ne_eq, not_true_eq_false, not_false_eq_true, ite_false,
      ite_true]
    refine ⟨⟨rfl, ?_, asleepMax, Nat.le_refl _⟩, False.elim⟩
    simp [roster, asleepList]
  · simp only [reserve, asleep, ne_eq, not_false_eq_true, ite_true]
    exact ⟨.refl s, False.elim⟩

/-- Either the new thread is queued and counted, or nothing but room has been added. -/
theorem enroll_cases (s : ThreadSystem) (mem : ReserveMemory) (newguy : Ptr) :
    ((s.enroll mem newguy).1 ≠ .success ∧ Widened s (s.enroll mem newguy).2) ∨
    ((s.enroll mem newguy).1 = .success ∧ ∃ widened, Widened s widened ∧
      s.numthreads + 1 ≤ widened.sleepers.max ∧ s.numthreads + 1 ≤ widened.runqueue.size ∧
      ∃ queue, queue.toList = widened.runqueue.toList ++ [newguy] ∧
        widened.runqueue.size ≤ queue.size ∧
        (s.enroll mem newguy).2 =
          { widened with runqueue := queue, numthreads := s.numthreads + 1 }) := by
  obtain ⟨widened, room⟩ := s.reserve_spec mem
  cases outcome : s.reserve mem with
  | mk code after =>
    simp only [outcome] at widened room
    have number : after.numthreads = s.numthreads := by rw [widened.frame]
    cases code with
    | success =>
      by_cases added : (after.runqueue.addtail mem.addtail newguy).result = .success
      · obtain ⟨contents, size⟩ := after.runqueue.addtail_added mem.addtail newguy added
        simp only [enroll, outcome, makeRunnable, added, ite_true]
        exact .inr ⟨trivial, after, widened, (room rfl).1, (room rfl).2, _, contents, size,
          by rw [number]⟩
      · have unchanged := after.runqueue.addtail_failed mem.addtail newguy added
        simp only [enroll, outcome, makeRunnable, added, ite_false, unchanged]
        exact .inl ⟨added, widened⟩
    | _ => simpa [enroll, outcome] using widened

variable {mem : ReserveMemory} {cwd : Option Ptr}

theorem fork_granted {s : ThreadSystem} {pid : Int}
    (granted : ((s.create cwd pid).enroll mem s.brk).1 = .success) :
    s.fork mem cwd pid = ((s.create cwd pid).enroll mem s.brk).2 := by
  unfold fork
  split
  next after outcome => rw [outcome]
  next code after other outcome =>
    rw [outcome] at granted
    exact absurd granted other

theorem fork_refused {s : ThreadSystem} {pid : Int}
    (refused : ((s.create cwd pid).enroll mem s.brk).1 ≠ .success) :
    s.fork mem cwd pid = ((s.create cwd pid).enroll mem s.brk).2.free s.brk := by
  unfold fork
  split
  next after outcome => exact absurd (by rw [outcome]) refused
  next code after outcome => rw [outcome]

/-- A refused fork leaves every thread where it was. -/
theorem fork_refused_kept {s : ThreadSystem} {pid : Int}
    (refused : ((s.create cwd pid).enroll mem s.brk).1 ≠ .success) :
    (s.fork mem cwd pid).roster = s.roster ∧ (s.fork mem cwd pid).numthreads = s.numthreads := by
  rw [fork_refused refused]
  rcases (s.create cwd pid).enroll_cases mem s.brk with ⟨-, widened⟩ | ⟨granted, -⟩
  · refine ⟨widened.lists, ?_⟩
    rw [widened.frame]
    rfl
  · exact absurd granted refused

end ThreadSystem

namespace Placed

variable {s : ThreadSystem}

theorem brk_unused (placed : Placed s) : s.threads s.brk = none := by
  cases found : s.threads s.brk with
  | none => rfl
  | some th => exact absurd (placed.fresh _ _ found) (Nat.lt_irrefl _)

/-- The system with one more thread, queued and not yet run. -/
theorem spawned (placed : Placed s) {after : ThreadSystem} (th : Thread) (frame : th.frame = .fresh)
    (lists : after.roster = s.roster.spawn s.brk)
    (threads : after.threads = Function.update s.threads s.brk (some th))
    (brk : after.brk = s.brk + 1) : Placed after := by
  have absent : s.brk ∉ s.roster.members := by
    rw [← placed.allocated, placed.brk_unused]
    simp
  have members : after.roster.members.Perm (s.brk :: s.roster.members) := by
    rw [lists]
    exact (s.roster.live_spawn s.brk).append_right _
  have older : ∀ t ∈ s.roster.members, after.threads t = s.threads t := by
    intro t member
    have apart : t ≠ s.brk := fun same => absent (same ▸ member)
    rw [threads, Function.update_of_ne apart]
  constructor
  case nodup =>
    rw [members.nodup_iff, List.nodup_cons]
    exact ⟨absent, placed.nodup⟩
  case allocated =>
    intro t
    rw [members.mem_iff, List.mem_cons, ← placed.allocated, threads]
    by_cases new : t = s.brk
    · simp [new]
    · simp [new]
  case fresh =>
    intro t old found
    rw [brk]
    by_cases new : t = s.brk
    · exact new ▸ Nat.lt_succ_self _
    · rw [threads, Function.update_of_ne new] at found
      exact Nat.lt_succ_of_lt (placed.fresh t old found)
  case ready =>
    intro t member old found
    rw [lists] at member
    rcases List.mem_append.mp member with before | now
    · rw [older t (List.mem_append_left _ (by simp [Roster.live, before]))] at found
      exact placed.ready t before old found
    · rw [List.mem_singleton.mp now, threads, Function.update_self] at found
      cases found
      simp [frame]
  case asleep =>
    intro t member
    rw [lists] at member
    rw [older t (List.mem_append_left _ (List.mem_append_right _ member))]
    exact placed.asleep t member
  case dead =>
    intro t member old found
    rw [lists] at member
    rw [older t (List.mem_append_right _ member)] at found
    exact placed.dead t member old found

/-- A fork adds one thread to the run queue, or only room. -/
theorem fork (placed : Placed s) (mem : ReserveMemory) (cwd : Option Ptr) (pid : Int) :
    Placed (s.fork mem cwd pid) ∧ (Counted s → Counted (s.fork mem cwd pid)) ∧
      (s.fork mem cwd pid).queueAsked = s.queueAsked ∧
      (s.fork mem cwd pid).listAsked = s.listAsked ∧
      s.sleepers.max ≤ (s.fork mem cwd pid).sleepers.max ∧
      s.runqueue.size ≤ (s.fork mem cwd pid).runqueue.size ∧
      ((s.fork mem cwd pid).numthreads = s.numthreads ∨
        (s.fork mem cwd pid).numthreads ≤ (s.fork mem cwd pid).sleepers.max ∧
        (s.fork mem cwd pid).numthreads ≤ (s.fork mem cwd pid).runqueue.size) := by
  rcases (s.create cwd pid).enroll_cases mem s.brk with
    ⟨failed, widened⟩ | ⟨granted, widened, wide, sleepRoom, queueRoom, queue, contents, size, eq⟩
  · rw [ThreadSystem.fork_refused failed]
    -- the structure made for the new thread is freed again
    have threads : (((s.create cwd pid).enroll mem s.brk).2.free s.brk).threads = s.threads := by
      rw [widened.frame]
      simp [ThreadSystem.free, ThreadSystem.create, ThreadSystem.setThread, placed.brk_unused]
    have lists : (((s.create cwd pid).enroll mem s.brk).2.free s.brk).roster = s.roster :=
      widened.lists
    refine ⟨?_, ?_, ?_, ?_, widened.sleepers, widened.queue, .inl ?_⟩
    · refine placed.move (by rw [lists]) (by simp [threads]) ?_ ?_ ?_ ?_
      · rw [widened.frame]
        exact Nat.le_succ _
      · rw [lists, threads]
        exact placed.ready
      · rw [lists, threads]
        exact placed.asleep
      · rw [lists, threads]
        exact placed.dead
    · intro counted
      unfold Counted
      rw [lists, ← counted, widened.frame]
      rfl
    · rw [widened.frame]
      rfl
    · rw [widened.frame]
      rfl
    · rw [widened.frame]
      rfl
  rw [ThreadSystem.fork_granted granted, eq]
  have base : widened.roster = s.roster := wide.lists
  have lists : ({ widened with
      runqueue := queue, numthreads := (s.create cwd pid).numthreads + 1 } :
      ThreadSystem).roster = s.roster.spawn s.brk := by
    rw [← base]
    simp [roster, Roster.spawn, contents]
  refine ⟨?_, ?_, ?_, ?_, wide.sleepers, wide.queue.trans size,
    .inr ⟨sleepRoom, queueRoom.trans size⟩⟩
  · refine placed.spawned ⟨0, none, cwd, pid, .fresh⟩ rfl lists ?_ ?_
    · rw [wide.frame]
      rfl
    · rw [wide.frame]
      rfl
  · intro counted
    unfold Counted at counted ⊢
    rw [lists, (s.roster.live_spawn s.brk).length_eq, List.length_cons, ← counted]
    rfl
  · rw [wide.frame]
    rfl
  · rw [wide.frame]
    rfl

end Placed

/-! ### Every operation -/

structure Sound (s : ThreadSystem) : Prop where
  placed : Placed s
  counted : Counted s
  /-- `scheduler_preallocate` has made this much room. -/
  queueRoom : s.numthreads ≤ s.runqueue.size
  /-- Before the first fork there is no room for sleepers, but there is only one thread. -/
  sleepRoom : s.numthreads ≤ 1 ∨ s.numthreads ≤ s.sleepers.max

/-- How an operation ends that may have to ask for memory: it asks exactly if there is no
`room`, and stops if it asks and gets none. -/
inductive Ends (dry room : Prop) (asked other : ThreadSystem → Nat) (s : ThreadSystem) :
    Except Trap ThreadSystem → Prop
  | done {after : ThreadSystem} (sound : Sound after) (iff : asked after = asked s ↔ room)
      (rest : other after = other s) (unfed : dry → room) : Ends dry room asked other s (.ok after)
  | stopped (full : ¬ room) : Ends dry room asked other s (.error .noMemory)

namespace ThreadSystem

/-- How many threads `event` puts on the run queue, a new thread apart. -/
def queued (s : ThreadSystem) : Event → Nat
  | .yield _ => s.curthread.toList.length
  | .wakeup _ addr => (s.sleepers.toList.filter (s.sleepsOn addr)).length
  | .wakeOne _ addr => (s.sleepers.toList.find? (s.sleepsOn addr)).toList.length
  | _ => 0

/-- The run queue takes them as it is; one of its cells always stays empty. -/
def QueueRoom (s : ThreadSystem) (event : Event) : Prop :=
  s.runqueue.toList.length + s.queued event < s.runqueue.size

theorem queueRoom_of_none (s : ThreadSystem) {event : Event} (nobody : s.queued event = 0) :
    s.QueueRoom event := by
  rw [QueueRoom, nobody]
  exact s.runqueue.length_toList_lt

/-- The array that `mi_switch` adds the current thread to takes it as it is. -/
def ListRoom (s : ThreadSystem) : Event → Prop
  | .sleep _ _ => s.sleepers.num < s.sleepers.max
  | .exit _ => s.zombies.num < s.zombies.max
  | _ => True

end ThreadSystem

/-- Every allocation that may happen at switch time is refused. -/
def Event.Refused : Event → Prop
  | .sleep mem _ | .exit mem | .yield mem | .wakeOne mem _ => mem = none
  | .wakeup mem _ => ∀ k, mem k = none
  | .fork _ _ | .context _ _ | .idle => True

/-- How an event ends: it asks for memory exactly where there is no room, and stops if it
asks and gets none. -/
inductive EventEnds (event : Event) (s : ThreadSystem) : Except Trap ThreadSystem → Prop
  | done {after : ThreadSystem} (sound : Sound after)
      (queue : after.queueAsked = s.queueAsked ↔ s.QueueRoom event)
      (lists : after.listAsked = s.listAsked ↔ s.ListRoom event)
      (unfed : event.Refused → s.QueueRoom event ∧ s.ListRoom event) :
      EventEnds event s (.ok after)
  | stopped (full : ¬ (s.QueueRoom event ∧ s.ListRoom event)) :
      EventEnds event s (.error .noMemory)

/-- Without memory, an event completes exactly if it needs none. -/
theorem EventEnds.completes_iff {event : Event} {s : ThreadSystem}
    {result : Except Trap ThreadSystem} (ends : EventEnds event s result)
    (refused : event.Refused) :
    (∃ after, result = .ok after) ↔ s.QueueRoom event ∧ s.ListRoom event := by
  cases ends with
  | done sound queue lists unfed => exact ⟨fun _ => unfed refused, fun _ => ⟨_, rfl⟩⟩
  | stopped full => simp [full]

namespace Sound

variable {s : ThreadSystem} {cur : Ptr}

variable {event : Event} {result : Except Trap ThreadSystem}

theorem length_live (sound : Sound s) (running : s.curthread = some cur) :
    s.numthreads = s.runqueue.toList.length + s.sleepers.num + 1 := by
  have counted := sound.counted
  simp only [Counted, Roster.live, roster, running, Option.toList_some,
    List.length_append, List.length_singleton, KArray.length_toList] at counted
  omega

private theorem yield (sound : Sound s) (running : s.curthread = some cur) (mem : Words) :
    Ends (mem = none) (s.runqueue.toList.length + 1 < s.runqueue.size) (·.queueAsked)
      (·.listAsked) s (s.threadYield mem) := by
  obtain ⟨th, found⟩ := sound.placed.current_thread running
  have fits : NextState.Fits { th with frame := .yielded } .ready := by simp [NextState.Fits]
  rcases sound.placed.miSwitch running found mem fits with
    ⟨stopped, full⟩ | ⟨stashed, after, queued, done, placed, live, kept⟩
  · rw [threadYield, stopped]
    exact .stopped full
  rw [threadYield, done]
  obtain ⟨queue, asked, eq, contents, size, room, tight⟩ := ThreadSystem.requeue_cases queued
  have queueSize : s.runqueue.size ≤ after.runqueue.size := by
    rw [kept.queueSize, eq]
    exact size
  refine .done ⟨placed, ?_, ?_, ?_⟩ ?_ ?_ ?_
  · unfold Counted
    rw [kept.numthreads, live.length_eq, eq]
    exact sound.counted.trans s.roster.live_yield.length_eq.symm
  · rw [kept.numthreads, eq]
    exact sound.queueRoom.trans queueSize
  · rw [kept.numthreads, kept.sleepers, eq]
    exact sound.sleepRoom
  · -- one call of `kmalloc` is counted exactly when the queue is full
    rw [kept.queueAsked, eq]
    change s.queueAsked + asked = s.queueAsked ↔ _
    constructor
    · intro quiet
      by_contra full
      have one := (tight (Nat.not_lt.mp full)).1
      omega
    · intro free
      rw [(room free).1]
      rfl
  · rw [kept.listAsked, eq]
    rfl
  · intro dry
    by_contra full
    exact (tight (Nat.not_lt.mp full)).2 dry

/-- The two `array_add` of `mi_switch` need memory exactly when the array is full. -/
theorem list_asked (mem : Words) (a : KArray Ptr) (t : Ptr) (n : Nat)
    (added : (a.add mem t).result = .success) :
    (n + (a.add mem t).asked.toNat = n ↔ a.num < a.max) ∧ (mem = none → a.num < a.max) := by
  constructor
  · rw [KArray.add_asked]
    by_cases full : a.max ≤ a.num
    · simp [full]
    · simp [full, Nat.lt_of_not_le full]
  · rintro rfl
    rw [KArray.add_result] at added
    simpa using added

section

variable (sound : Sound s)

include sound

private theorem sleep (running : s.curthread = some cur) (mem : Words) (addr : Ptr) :
    Ends (mem = none) (s.sleepers.num < s.sleepers.max) (·.listAsked) (·.queueAsked) s
      (s.threadSleep mem addr) := by
  obtain ⟨th, found⟩ := sound.placed.current_thread running
  let named := s.setThread cur { th with sleepaddr := addr }
  have placed := sound.placed.setThread running { th with sleepaddr := addr }
  have found' : named.threads cur = some { th with sleepaddr := addr } := Function.update_self ..
  have unfolded : s.threadSleep mem addr = named.miSwitch mem .sleep (.slept addr) := by
    simp only [ThreadSystem.threadSleep, running, found]
    rfl
  have fits : NextState.Fits { th with sleepaddr := addr, frame := .slept addr } .sleep := rfl
  rw [unfolded]
  rcases placed.miSwitch running found' mem fits with
    ⟨stopped, full⟩ | ⟨stashed, after, queued, done, placed', live, kept⟩
  · rw [stopped]
    exact .stopped full
  rw [done]
  rcases ThreadSystem.stash_cases queued with ⟨clash, -⟩ | ⟨-, added, eq⟩ | ⟨clash, -⟩
  · cases clash
  · obtain ⟨iff, dry⟩ := list_asked mem s.sleepers cur s.listAsked added
    refine .done ⟨placed', ?_, ?_, ?_⟩ ?_ ?_ dry
    · unfold Counted
      rw [kept.numthreads, live.length_eq, eq]
      exact sound.counted.trans s.roster.live_sleep.length_eq.symm
    · rw [kept.numthreads, kept.queueSize, eq]
      exact sound.queueRoom
    · rw [kept.numthreads, kept.sleepers, eq]
      exact sound.sleepRoom.imp id fun room => room.trans (KArray.max_add mem s.sleepers cur)
    · rw [kept.listAsked, eq]
      exact iff
    · rw [kept.queueAsked, eq]
      rfl
  · cases clash

private theorem exit (running : s.curthread = some cur) (mem : Words) :
    Ends (mem = none) (s.zombies.num < s.zombies.max) (·.listAsked) (·.queueAsked) s
      (s.threadExit mem) := by
  obtain ⟨th, found⟩ := sound.placed.current_thread running
  have number := sound.length_live running
  -- what `thread_exit` has given up before it switches
  let bare : Thread := { th with vmspace := none, cwd := none }
  let left : ThreadSystem := { s.setThread cur bare with numthreads := s.numthreads - 1 }
  have placed : Placed left :=
    (sound.placed.setThread running bare).move (List.Perm.refl _) (fun _ => rfl) (Nat.le_refl _)
      (sound.placed.setThread running bare).ready (sound.placed.setThread running bare).asleep
      (sound.placed.setThread running bare).dead
  have found' : left.threads cur = some bare := Function.update_self ..
  have unfolded : s.threadExit mem = left.miSwitch mem .zombie .exited := by
    have counted : ¬ s.numthreads = 0 := by omega
    simp only [ThreadSystem.threadExit, running, found, counted, ite_false]
    rfl
  have fits : NextState.Fits { bare with frame := .exited } .zombie := ⟨rfl, rfl⟩
  rw [unfolded]
  rcases placed.miSwitch running found' mem fits with
    ⟨stopped, full⟩ | ⟨stashed, after, queued, done, placed', live, kept⟩
  · rw [stopped]
    exact .stopped full
  rw [done]
  rcases ThreadSystem.stash_cases queued with ⟨clash, -⟩ | ⟨clash, -⟩ | ⟨-, added, eq⟩
  · cases clash
  · cases clash
  obtain ⟨iff, dry⟩ := list_asked mem s.zombies cur s.listAsked added
  refine .done ⟨placed', ?_, ?_, ?_⟩ ?_ ?_ dry
  · unfold Counted
    rw [kept.numthreads, live.length_eq, eq]
    have total := s.roster.length_live_leave
    have counted := sound.counted
    have one : s.roster.current.toList.length = 1 := by
      change s.curthread.toList.length = 1
      rw [running]
      rfl
    change s.numthreads - 1 = s.roster.leave.live.length
    unfold Counted at counted
    omega
  · rw [kept.numthreads, kept.queueSize, eq]
    exact (Nat.sub_le _ _).trans sound.queueRoom
  · rw [kept.numthreads, kept.sleepers, eq]
    exact sound.sleepRoom.imp (Nat.sub_le _ _).trans (Nat.sub_le _ _).trans
  · rw [kept.listAsked, eq]
    exact iff
  · rw [kept.queueAsked, eq]
    rfl

/-- Waking rearranges those who are not dead. -/
theorem wakes {Dry Short : Prop} {moved kept : List Ptr}
    (wakes : ThreadSystem.Wakes Dry Short s result moved kept)
    (live : { s.roster with ready := s.roster.ready ++ moved, asleep := kept }.live.Perm
      s.roster.live) :
    Ends Dry (s.runqueue.toList.length + moved.length < s.runqueue.size) (·.queueAsked)
      (·.listAsked) s result := by
  rcases wakes with ⟨after, rfl, woken⟩ | ⟨rfl, -, full⟩
  · have number : after.numthreads = s.numthreads := by rw [woken.frame]
    rw [← woken.roster] at live
    refine .done ⟨sound.placed.woken woken live, ?_, ?_, ?_⟩ woken.room ?_
      fun dry => woken.room.mp (woken.dry dry)
    · unfold Counted
      rw [number, live.length_eq]
      exact sound.counted
    · rw [number]
      exact sound.queueRoom.trans woken.size
    · rw [number, woken.max]
      exact sound.sleepRoom
    · rw [woken.frame]
  · exact .stopped (Nat.not_lt.mpr full)

private theorem wakeup (mem : Nat → Words) (addr : Ptr) :
    Ends (∀ k, mem k = none) (s.runqueue.toList.length +
        (s.roster.asleep.filter (s.sleepsOn addr)).length < s.runqueue.size)
      (·.queueAsked) (·.listAsked) s (s.threadWakeup mem addr) :=
  sound.wakes (ThreadSystem.wakes_threadWakeup sound.placed.sleepers_known mem addr)
    (s.roster.live_wake _)

private theorem wakeOne (mem : Words) (addr : Ptr) :
    Ends (mem = none) (s.runqueue.toList.length +
        (s.roster.asleep.find? (s.sleepsOn addr)).toList.length < s.runqueue.size)
      (·.queueAsked) (·.listAsked) s (s.threadWakeOne mem addr) :=
  sound.wakes (ThreadSystem.wakes_threadWakeOne sound.placed.sleepers_known mem addr)
    (s.roster.live_wakeFirst _)

private theorem schedule (idle : s.curthread = none) :
    ∃ after, s.schedule = .ok after ∧ Sound after ∧ after.queueAsked = s.queueAsked ∧
      after.listAsked = s.listAsked := by
  obtain ⟨after, done, placed, live, kept⟩ := sound.placed.schedule idle
  refine ⟨after, done, ⟨placed, ?_, ?_, ?_⟩, kept.queueAsked, kept.listAsked⟩
  · unfold Counted
    rw [kept.numthreads, live.length_eq]
    exact sound.counted
  · rw [kept.numthreads, kept.queueSize]
    exact sound.queueRoom
  · rw [kept.numthreads, kept.sleepers]
    exact sound.sleepRoom

private theorem fork (mem : ReserveMemory) (cwd : Option Ptr) (pid : Int) :
    Sound (s.fork mem cwd pid) := by
  obtain ⟨placed, counted, -, -, sleepers, queue, room⟩ := sound.placed.fork mem cwd pid
  refine ⟨placed, counted sound.counted, ?_, ?_⟩
  · rcases room with same | ⟨-, enough⟩
    · rw [same]
      exact sound.queueRoom.trans queue
    · exact enough
  rcases room with same | ⟨enough, -⟩
  · rw [same]
    exact sound.sleepRoom.imp id fun room => room.trans sleepers
  · exact .inr enough

private theorem context (running : s.curthread = some cur) (th : Thread) :
    Sound (s.setThread cur th) :=
  ⟨sound.placed.setThread running th, sound.counted, sound.queueRoom, sound.sleepRoom⟩

end

/-- An operation that queues threads or none. -/
theorem ends_queue {dry : Prop}
    (ends : Ends dry (s.QueueRoom event) (·.queueAsked) (·.listAsked) s result)
    (lists : s.ListRoom event) (refused : event.Refused → dry) : EventEnds event s result := by
  cases ends with
  | done sound iff rest unfed =>
    exact .done sound iff (iff_of_true rest lists) fun none => ⟨unfed (refused none), lists⟩
  | stopped full => exact .stopped fun room => full room.1

/-- An operation that puts the current thread on `sleepers` or `zombies`. -/
theorem ends_list {dry : Prop}
    (ends : Ends dry (s.ListRoom event) (·.listAsked) (·.queueAsked) s result)
    (queue : s.QueueRoom event) (refused : event.Refused → dry) : EventEnds event s result := by
  cases ends with
  | done sound iff rest unfed =>
    exact .done sound (iff_of_true rest queue) iff fun none => ⟨queue, unfed (refused none)⟩
  | stopped full => exact .stopped fun room => full room.2

/-- An operation that adds to no list has room. -/
theorem ends_quiet {after : ThreadSystem} (sound : Sound after)
    (queueAsked : after.queueAsked = s.queueAsked) (listAsked : after.listAsked = s.listAsked)
    (queued : s.queued event = 0) (lists : s.ListRoom event) : EventEnds event s (.ok after) := by
  have queue := s.queueRoom_of_none queued
  exact .done sound (iff_of_true queueAsked queue) (iff_of_true listAsked lists)
    fun _ => ⟨queue, lists⟩

/-- No event stops the kernel except for want of room and memory, and none breaks the
invariant. -/
theorem step (sound : Sound s) (stepped : s.step event = some result) :
    EventEnds event s result := by
  -- `thread_wakeup` and `thread_wake_one` do not look at `curthread`
  cases running : s.curthread with
  | none =>
    cases event with
    | fork | context | sleep | exit => simp [ThreadSystem.step, running] at stepped
    | yield mem =>
      simp only [ThreadSystem.step, threadYield, ThreadSystem.miSwitch, running,
        Option.some.injEq] at stepped
      rw [← stepped]
      exact ends_quiet sound rfl rfl (by simp [ThreadSystem.queued, running]) trivial
    | wakeup mem addr =>
      cases stepped
      exact ends_queue (sound.wakeup mem addr) trivial id
    | wakeOne mem addr =>
      cases stepped
      exact ends_queue (sound.wakeOne mem addr) trivial id
    | idle =>
      simp only [ThreadSystem.step, running, Option.isNone_none, ite_true,
        Option.some.injEq] at stepped
      obtain ⟨after, done, sound', queueAsked, listAsked⟩ := sound.schedule running
      rw [← stepped, done]
      exact ends_quiet sound' queueAsked listAsked rfl trivial
  | some cur =>
    obtain ⟨th, found⟩ := sound.placed.current_thread running
    cases event with
    | fork mem pid =>
      simp only [ThreadSystem.step, running, found, Option.map_some, Option.some.injEq] at stepped
      obtain ⟨-, -, queueAsked, listAsked, -⟩ := sound.placed.fork mem th.cwd pid
      rw [← stepped]
      exact ends_quiet (sound.fork mem th.cwd pid) queueAsked listAsked rfl trivial
    | context vmspace cwd =>
      simp only [ThreadSystem.step, running, found, Option.map_some, Option.some.injEq] at stepped
      rw [← stepped]
      exact ends_quiet (sound.context running _) rfl rfl rfl trivial
    | sleep mem addr =>
      simp only [ThreadSystem.step, running, Option.isSome_some, ite_true,
        Option.some.injEq] at stepped
      rw [← stepped]
      exact ends_list (sound.sleep running mem addr) (s.queueRoom_of_none rfl) id
    | exit mem =>
      simp only [ThreadSystem.step, running, Option.isSome_some, ite_true,
        Option.some.injEq] at stepped
      rw [← stepped]
      exact ends_list (sound.exit running mem) (s.queueRoom_of_none rfl) id
    | yield mem =>
      cases stepped
      have ends := sound.yield running mem
      have one : s.queued (.yield mem) = 1 := by simp [ThreadSystem.queued, running]
      rw [← one] at ends
      exact ends_queue ends trivial id
    | wakeup mem addr =>
      cases stepped
      exact ends_queue (sound.wakeup mem addr) trivial id
    | wakeOne mem addr =>
      cases stepped
      exact ends_queue (sound.wakeOne mem addr) trivial id
    | idle => simp [ThreadSystem.step, running] at stepped

theorem boot (words : Nat → Ptr) : Sound (.boot words) := by
  have lists : (ThreadSystem.boot words).roster = ⟨some 1, [], [], []⟩ := by
    simp [roster, ThreadSystem.boot]
  -- one thread, running, and three empty lists
  refine ⟨⟨?_, ?_, ?_, ?_, ?_, ?_⟩, ?_, ?_, ?_⟩
  · simp [lists, Roster.members, Roster.live]
  · intro t
    rw [lists]
    by_cases here : t = 1
    · simp [Roster.members, Roster.live, ThreadSystem.boot, here]
    · simp [Roster.members, Roster.live, ThreadSystem.boot, here]
  · intro t th found
    by_cases here : t = 1
    · rw [here]
      exact Nat.lt_succ_self 1
    · simp [ThreadSystem.boot, here] at found
  · simp [lists]
  · simp [lists]
  · simp [lists]
  · rfl
  · exact (by decide : 1 ≤ 32)
  · exact .inl (Nat.le_refl 1)

end Sound

theorem next_eq_some {s after : ThreadSystem} {event : Event}
    (taken : ThreadSystem.Step s event after) : s.step event = some (.ok after) := by
  simp only [Computes, ThreadSystem.next] at taken
  split at taken
  next stepped =>
    cases taken
    exact stepped
  next => cases taken

theorem Sound.next {s after : ThreadSystem} {event : Event} (sound : Sound s)
    (taken : ThreadSystem.Step s event after) : Sound after := by
  cases sound.step (next_eq_some taken) with
  | done sound' => exact sound'

theorem Sound.of_run {words : Nat → Ptr} {history : List (ThreadSystem × Event)} {s : ThreadSystem}
    (run : Run ThreadSystem.Step (.boot words) history s) : Sound s :=
  run.invariant (Sound.boot words) fun _ _ _ sound taken => sound.next taken

/-- In every reachable state each thread in memory is in exactly one place, once; a sleeper
has the `t_sleepaddr` it called `thread_sleep` with, `numthreads` counts all but the
zombies, and nothing stops the kernel but a refused allocation: `exorcise` never meets
the running thread. -/
theorem threads_partitioned {words : Nat → Ptr} {history : List (ThreadSystem × Event)}
    {s : ThreadSystem} (run : Run ThreadSystem.Step (.boot words) history s) :
    (s.curthread.toList ++ s.runqueue.toList ++ s.sleepers.toList ++ s.zombies.toList).Nodup ∧
    (∀ t, (s.threads t).isSome ↔
      t ∈ s.curthread.toList ++ s.runqueue.toList ++ s.sleepers.toList ++ s.zombies.toList) ∧
    (∀ t ∈ s.sleepers.toList, ∃ th, s.threads t = some th ∧ th.frame = .slept th.sleepaddr) ∧
    s.numthreads = (s.curthread.toList ++ s.runqueue.toList ++ s.sleepers.toList).length ∧
    (∀ event trap, s.step event = some (.error trap) → trap = .noMemory) := by
  have sound := Sound.of_run run
  refine ⟨sound.placed.nodup, sound.placed.allocated, sound.placed.asleep, sound.counted, ?_⟩
  intro event trap stepped
  cases sound.step stepped with
  | stopped => rfl

/-- All allocations of a fork succeed. -/
def granted : ReserveMemory := ⟨some fun _ => 0, some fun _ => 0, some fun _ => 0, some fun _ => 0⟩

/-- The boot thread forks thread 2, which runs and goes to sleep; the boot thread wakes it
and exits, and thread 2 destroys it. -/
def twoThreads : List Event :=
  [.fork granted 2, .yield none, .sleep none 5, .wakeup (fun _ => none) 5, .exit none]

theorem threads_partitioned_two :
    ∃ history s, Run ThreadSystem.Step (.boot fun _ => 0) history s ∧
      history.map Prod.snd = twoThreads.reverse ∧ s.curthread = some 2 ∧ s.numthreads = 1 ∧
      (s.curthread.toList ++ s.runqueue.toList ++ s.sleepers.toList ++ s.zombies.toList).Nodup := by
  obtain ⟨s, reached, current, count⟩ :
      ∃ s, execute ThreadSystem.next (.boot fun _ => 0) twoThreads = some s ∧
        s.curthread = some 2 ∧ s.numthreads = 1 := execute_check (by decide +kernel)
  obtain ⟨history, run, same⟩ := Run.of_execute reached
  exact ⟨history, s, run, same, current, count, (threads_partitioned run).1⟩

end Os161.Sched
