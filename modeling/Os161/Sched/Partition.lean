import Os161.Sched.System

/-!
# Every thread is in one place

Each operation moves threads between the four places a thread can be in. On lists these
moves are the ones of a roster, which lose and double nobody; the thread structures and
the count follow.
-/
namespace Os161.Sched

open Foundation

namespace ThreadSystem

/-! ### What the operations do to the lists -/

/-- A queued thread: where the memory comes in is said separately. -/
theorem requeue_cases {s after : ThreadSystem} {mem : Words} {t : Ptr}
    (done : s.requeue mem t = .ok after) :
    ∃ queue asked, after = { s with runqueue := queue, queueAsked := s.queueAsked + asked } ∧
      queue.toList = s.runqueue.toList ++ [t] ∧ s.runqueue.size ≤ queue.size ∧
      (s.runqueue.toList.length + 1 < s.runqueue.size → asked = 0 ∧ queue.size = s.runqueue.size) ∧
      (s.runqueue.size ≤ s.runqueue.toList.length + 1 → asked = 1 ∧ mem ≠ none) := by
  by_cases added : (s.runqueue.addtail mem t).result = .success
  · simp only [requeue, makeRunnable, added, ite_true] at done
    cases done
    obtain ⟨contents, larger⟩ := s.runqueue.addtail_added mem t added
    -- `asked` is 1 exactly when the ring buffer was full, and then it got the memory
    refine ⟨_, _, rfl, contents, larger, ?_, ?_⟩
    · intro room
      rw [s.runqueue.addtail_room mem t room]
      exact ⟨rfl, rfl⟩
    intro full
    have bound := s.runqueue.length_toList_lt
    have last : s.runqueue.toList.length + 1 = s.runqueue.size := by omega
    rw [s.runqueue.addtail_asked, last]
    refine ⟨by simp, ?_⟩
    rintro rfl
    simp [s.runqueue.addtail_result, last] at added
  · simp [requeue, makeRunnable, added] at done

/-- Queueing stops only when the queue is full and gets no memory. -/
theorem requeue_trap {s : ThreadSystem} {mem : Words} {t : Ptr} {trap : Trap}
    (stopped : s.requeue mem t = .error trap) :
    trap = .noMemory ∧ mem = none ∧ s.runqueue.size ≤ s.runqueue.toList.length + 1 := by
  by_cases added : (s.runqueue.addtail mem t).result = .success
  · simp [requeue, makeRunnable, added] at stopped
  simp only [requeue, makeRunnable, added, ite_false] at stopped
  cases stopped
  rw [s.runqueue.addtail_result] at added
  split at added
  next refused => exact ⟨rfl, refused.2, refused.1.ge⟩
  · exact absurd rfl added

/-- The state `exorcise` aims at: no zombies, and none of their structures. -/
def withoutZombies (s : ThreadSystem) : ThreadSystem :=
  { s with
    threads := fun t => if t ∈ s.roster.dead then none else s.threads t
    zombies := (s.zombies.setsize none 0).state }

private theorem roster_withoutZombies (s : ThreadSystem) :
    s.withoutZombies.roster = s.roster.bury := by
  simp [withoutZombies, roster, Roster.bury, (KArray.setsize_zero none s.zombies).2]

end ThreadSystem

/-! ### The invariant -/

structure Placed (s : ThreadSystem) : Prop where
  nodup : s.roster.members.Nodup
  /-- The threads in memory are the ones on the lists. -/
  allocated : ∀ t, (s.threads t).isSome ↔ t ∈ s.roster.members
  fresh : ∀ t th, s.threads t = some th → t < s.brk
  ready : ∀ t ∈ s.roster.ready, ∀ th, s.threads t = some th → th.frame ≠ .exited
  /-- A sleeper is inside `thread_sleep(addr)` for the `t_sleepaddr` it has. -/
  asleep : ∀ t ∈ s.roster.asleep, ∃ th, s.threads t = some th ∧ th.frame = .slept th.sleepaddr
  dead : ∀ t ∈ s.roster.dead, ∀ th, s.threads t = some th → th.vmspace = none ∧ th.cwd = none

/-- `numthreads` counts the threads that are not zombies. -/
def Counted (s : ThreadSystem) : Prop := s.numthreads = s.roster.live.length

namespace Placed

variable {s : ThreadSystem} {cur : Ptr}

theorem current_apart (placed : Placed s) (running : s.curthread = some cur) :
    cur ∉ s.roster.ready ∧ cur ∉ s.roster.asleep ∧ cur ∉ s.roster.dead := by
  have nodup := placed.nodup
  have current : s.roster.current = some cur := running
  simp only [Roster.members, Roster.live, current, Option.toList_some, List.cons_append,
    List.nil_append, List.nodup_cons, List.mem_append, not_or] at nodup
  exact ⟨nodup.1.1.1, nodup.1.1.2, nodup.1.2⟩

theorem thread_of_mem (placed : Placed s) {t : Ptr} (member : t ∈ s.roster.members) :
    ∃ th, s.threads t = some th :=
  Option.isSome_iff_exists.mp ((placed.allocated t).mpr member)

theorem current_thread (placed : Placed s) (running : s.curthread = some cur) :
    ∃ th, s.threads cur = some th := by
  apply placed.thread_of_mem
  have current : s.roster.current = some cur := running
  simp [Roster.members, Roster.live, current]

/-- A move of the lists that keeps the threads in memory. -/
theorem move {after : ThreadSystem} (placed : Placed s)
    (members : after.roster.members.Perm s.roster.members)
    (same : ∀ t, (after.threads t).isSome = (s.threads t).isSome) (brk : s.brk ≤ after.brk)
    (ready : ∀ t ∈ after.roster.ready, ∀ th, after.threads t = some th → th.frame ≠ .exited)
    (asleep : ∀ t ∈ after.roster.asleep, ∃ th, after.threads t = some th ∧
      th.frame = .slept th.sleepaddr)
    (dead : ∀ t ∈ after.roster.dead, ∀ th, after.threads t = some th →
      th.vmspace = none ∧ th.cwd = none) : Placed after where
  nodup := members.nodup_iff.mpr placed.nodup
  allocated t := by rw [same, placed.allocated, members.mem_iff]
  fresh t th found := by
    have before : (s.threads t).isSome := by
      rw [← same, found]
      rfl
    obtain ⟨old, found'⟩ := Option.isSome_iff_exists.mp before
    exact Nat.lt_of_lt_of_le (placed.fresh t old found') brk
  ready := ready
  asleep := asleep
  dead := dead

/-! ### Zombies -/

private theorem destroyAll_eq {zs : List Ptr} (nodup : zs.Nodup)
    (clean : ∀ z ∈ zs, s.curthread ≠ some z ∧
      ∃ th, s.threads z = some th ∧ th.vmspace = none ∧ th.cwd = none) :
    s.destroyAll zs = .ok { s with threads := fun t => if t ∈ zs then none else s.threads t } := by
  -- destroying one zombie leaves the others as they were, since none is listed twice
  induction zs generalizing s with
  | nil => simp [ThreadSystem.destroyAll]
  | cons z zs ih =>
    obtain ⟨other, th, found, vmspace, cwd⟩ := clean z (by simp)
    have first : s.threadDestroy z =
        .ok { s with threads := Function.update s.threads z none } := by
      simp [ThreadSystem.threadDestroy, found, other, vmspace, cwd]
    simp only [ThreadSystem.destroyAll, first]
    rw [List.nodup_cons] at nodup
    rw [ih nodup.2]
    · congr 2
      funext t
      by_cases here : t = z
      · simp [here]
      · simp [here]
    intro y member
    obtain ⟨running, th', found', clean'⟩ := clean y (by simp [member])
    have apart : y ≠ z := fun same => nodup.1 (same ▸ member)
    exact ⟨running, th', by simpa [apart] using found', clean'⟩

/-- `exorcise` frees exactly the zombies, and never the running thread. -/
theorem exorcise_eq (placed : Placed s) : s.exorcise = .ok s.withoutZombies := by
  have nodup : s.roster.dead.Nodup := (List.nodup_append.mp placed.nodup).2.1
  have clean : ∀ z ∈ s.roster.dead, s.curthread ≠ some z ∧
      ∃ th, s.threads z = some th ∧ th.vmspace = none ∧ th.cwd = none := by
    intro z member
    obtain ⟨th, found⟩ := placed.thread_of_mem (List.mem_append_right _ member)
    exact ⟨fun running => (placed.current_apart running).2.2 member, th, found,
      placed.dead z member th found⟩
  have loop : s.destroyAll s.zombies.toList = .ok { s with
      threads := fun t => if t ∈ s.roster.dead then none else s.threads t } :=
    destroyAll_eq nodup clean
  simp [ThreadSystem.exorcise, loop, (KArray.setsize_zero none s.zombies).1,
    ThreadSystem.withoutZombies]

/-- The threads on the other lists keep their structures. -/
theorem threads_withoutZombies (placed : Placed s) {t : Ptr} (member : t ∈ s.roster.live) :
    s.withoutZombies.threads t = s.threads t :=
  if_neg fun gone => (List.nodup_append.mp placed.nodup).2.2 t member t gone rfl

private theorem exorcised (placed : Placed s) : Placed s.withoutZombies := by
  have nodup := List.nodup_append.mp placed.nodup
  have kept := fun t (member : t ∈ s.roster.live) => placed.threads_withoutZombies member
  have alive : ∀ t th, s.withoutZombies.threads t = some th →
      t ∉ s.roster.dead ∧ s.threads t = some th := by
    intro t th found
    simp only [ThreadSystem.withoutZombies] at found
    split at found
    next => cases found
    next stays => exact ⟨stays, found⟩
  constructor
  case nodup =>
    rw [s.roster_withoutZombies, Roster.members_bury]
    exact nodup.1
  case allocated =>
    intro t
    rw [s.roster_withoutZombies, Roster.members_bury]
    constructor
    · intro found
      obtain ⟨th, found⟩ := Option.isSome_iff_exists.mp found
      obtain ⟨stays, before⟩ := alive t th found
      have member := (placed.allocated t).mp (Option.isSome_iff_exists.mpr ⟨th, before⟩)
      exact (List.mem_append.mp member).resolve_right stays
    · intro member
      rw [kept t member, placed.allocated]
      exact List.mem_append_left _ member
  case fresh =>
    intro t th found
    exact placed.fresh t th (alive t th found).2
  case ready =>
    intro t member th found
    exact placed.ready t member th (alive t th found).2
  case asleep =>
    intro t member
    obtain ⟨th, found, frame⟩ := placed.asleep t member
    exact ⟨th, (kept t (List.mem_append_right _ member)).trans found, frame⟩
  case dead =>
    intro t member
    rw [s.roster_withoutZombies] at member
    cases member

/-- The running thread may change its own structure. -/
theorem setThread (placed : Placed s) (running : s.curthread = some cur) (th : Thread) :
    Placed (s.setThread cur th) := by
  obtain ⟨ready, asleep, dead⟩ := placed.current_apart running
  obtain ⟨old, found⟩ := placed.current_thread running
  have other : ∀ t, t ≠ cur → (s.setThread cur th).threads t = s.threads t := fun t apart =>
    Function.update_of_ne apart _ _
  -- the running thread is on no list, so nothing said of a list is about it
  refine placed.move (List.Perm.refl _) ?_ (Nat.le_refl _) ?_ ?_ ?_
  · intro t
    by_cases here : t = cur
    · simp [here, ThreadSystem.setThread, found]
    · rw [other t here]
  · intro t member th' found'
    rw [other t fun same => ready (same ▸ member)] at found'
    exact placed.ready t member th' found'
  · intro t member
    rw [other t fun same => asleep (same ▸ member)]
    exact placed.asleep t member
  · intro t member th' found'
    rw [other t fun same => dead (same ▸ member)] at found'
    exact placed.dead t member th' found'

end Placed

/-! ### Switching -/

/-- What a switch to another thread leaves alone. -/
structure Kept (s after : ThreadSystem) : Prop where
  numthreads : after.numthreads = s.numthreads
  sleepers : after.sleepers = s.sleepers
  queueSize : after.runqueue.size = s.runqueue.size
  queueAsked : after.queueAsked = s.queueAsked
  listAsked : after.listAsked = s.listAsked
  asleep : ∀ t ∈ s.roster.asleep, after.threads t = s.threads t

namespace Placed

variable {s : ThreadSystem} {cur : Ptr}

private theorem resume (placed : Placed s) (running : s.curthread = some cur)
    (alive : ∀ th, s.threads cur = some th → th.frame ≠ .exited) :
    ∃ after, s.resume cur = .ok after ∧ Placed after ∧ after.roster.live = s.roster.live ∧
      Kept s after := by
  obtain ⟨th, found⟩ := placed.current_thread running
  have clean := placed.exorcise_eq
  have asleep : ∀ t ∈ s.roster.asleep, s.withoutZombies.threads t = s.threads t := fun t member =>
    placed.threads_withoutZombies (List.mem_append_right _ member)
  cases frame : th.frame with
  | fresh =>
    exact ⟨s, by simp [ThreadSystem.resume, found, frame], placed, rfl,
      rfl, rfl, rfl, rfl, rfl, fun _ _ => rfl⟩
  | yielded =>
    -- back in `mi_switch`, which calls `exorcise`
    exact ⟨s.withoutZombies, by simp [ThreadSystem.resume, found, frame, clean],
      placed.exorcised, rfl, rfl, rfl, rfl, rfl, rfl, asleep⟩
  | slept addr =>
    refine ⟨s.withoutZombies.setThread cur { th with sleepaddr := 0 }, ?_,
      placed.exorcised.setThread running _, rfl, rfl, rfl, rfl, rfl, rfl, fun t member => ?_⟩
    · simp [ThreadSystem.resume, found, frame, clean]
    · have other : t ≠ cur := fun same => (placed.current_apart running).2.1 (same ▸ member)
      exact (Function.update_of_ne other _ _).trans (asleep t member)
  | exited => exact absurd frame (alive th found)

/-- The scheduler always finds a thread that can go on, or stays in the idle loop. -/
theorem schedule (placed : Placed s) (idle : s.curthread = none) :
    ∃ after, s.schedule = .ok after ∧ Placed after ∧ after.roster.live.Perm s.roster.live ∧
      Kept s after := by
  cases empty : s.runqueue.empty with
  | true =>
    exact ⟨s, by simp [ThreadSystem.schedule, empty], placed, List.Perm.refl _,
      rfl, rfl, rfl, rfl, rfl, fun _ _ => rfl⟩
  | false =>
    have filled : s.runqueue.toList ≠ [] := by
      rw [Ne, ← s.runqueue.empty_iff, empty]
      simp
    -- the head of the queue becomes current before it cleans up
    obtain ⟨next, rest, removed, contents, size⟩ := s.runqueue.remhead_eq filled
    let switched : ThreadSystem := { s with runqueue := rest, curthread := some next }
    have lists : switched.roster = s.roster.dispatch := by
      simp [switched, ThreadSystem.roster, Roster.dispatch, contents]
    have live : switched.roster.live.Perm s.roster.live := by
      rw [lists]
      exact s.roster.live_dispatch idle
    have sub : ∀ t ∈ switched.roster.ready, t ∈ s.roster.ready := by
      intro t member
      change t ∈ s.runqueue.toList
      rw [contents]
      exact List.mem_cons_of_mem _ member
    have placed' : Placed switched :=
      placed.move (Roster.members_perm live rfl) (fun _ => rfl) (Nat.le_refl _)
        (fun t member => placed.ready t (sub t member)) placed.asleep placed.dead
    have alive : ∀ th, switched.threads next = some th → th.frame ≠ .exited := by
      refine placed.ready next ?_
      change next ∈ s.runqueue.toList
      simp [contents]
    obtain ⟨after, resumed, final, same, kept⟩ := placed'.resume rfl alive
    refine ⟨after, ?_, final, same ▸ live, ?_⟩
    · simp only [ThreadSystem.schedule, empty, Bool.false_eq_true, ite_false, removed]
      exact resumed
    · exact ⟨kept.numthreads, kept.sleepers, kept.queueSize.trans size, kept.queueAsked,
        kept.listAsked, kept.asleep⟩

end Placed

/-! ### Giving up the processor -/

/-- The list a switch puts the current thread on. -/
def NextState.park : NextState → Roster Ptr → Roster Ptr
  | .ready => Roster.yield
  | .sleep => Roster.sleep
  | .zombie => Roster.leave

section

variable (next : NextState) (r : Roster Ptr)

include next r

theorem NextState.members_park : (next.park r).members.Perm r.members := by
  cases next with
  | ready => exact Roster.members_perm r.live_yield rfl
  | sleep => exact Roster.members_perm r.live_sleep rfl
  | zombie => exact r.members_leave

/-- On each list: whoever was there before, and the current thread if it goes there. -/
theorem NextState.mem_park (t : Ptr) :
    (t ∈ (next.park r).ready ↔ t ∈ r.ready ∨ next = .ready ∧ t ∈ r.current.toList) ∧
    (t ∈ (next.park r).asleep ↔ t ∈ r.asleep ∨ next = .sleep ∧ t ∈ r.current.toList) ∧
    (t ∈ (next.park r).dead ↔ t ∈ r.dead ∨ next = .zombie ∧ t ∈ r.current.toList) := by
  cases next <;> simp [park, Roster.yield, Roster.sleep, Roster.leave]

end

/-- What a thread must look like on the list it goes to. -/
def NextState.Fits (th : Thread) : NextState → Prop
  | .ready => th.frame ≠ .exited
  | .sleep => th.frame = .slept th.sleepaddr
  | .zombie => th.vmspace = none ∧ th.cwd = none

namespace ThreadSystem

/-- The current thread has stopped running and is on no list yet. -/
def parked (s : ThreadSystem) (cur : Ptr) (th : Thread) : ThreadSystem :=
  { s with curthread := none }.setThread cur th

theorem stash_cases {s after : ThreadSystem} {mem : Words} {cur : Ptr} {next : NextState}
    (done : s.stash mem cur next = .ok after) :
    (next = .ready ∧ s.requeue mem cur = .ok after) ∨
    (next = .sleep ∧ (s.sleepers.add mem cur).result = .success ∧
      after = { s with
        sleepers := (s.sleepers.add mem cur).state
        listAsked := s.listAsked + (s.sleepers.add mem cur).asked.toNat }) ∨
    (next = .zombie ∧ (s.zombies.add mem cur).result = .success ∧
      after = { s with
        zombies := (s.zombies.add mem cur).state
        listAsked := s.listAsked + (s.zombies.add mem cur).asked.toNat }) := by
  cases next with
  | ready => exact .inl ⟨rfl, done⟩
  | sleep =>
    by_cases added : (s.sleepers.add mem cur).result = .success
    · simp only [stash, added, ite_true] at done
      exact .inr (.inl ⟨rfl, added, (Except.ok.inj done).symm⟩)
    · simp [stash, added] at done
  | zombie =>
    by_cases added : (s.zombies.add mem cur).result = .success
    · simp only [stash, added, ite_true] at done
      exact .inr (.inr ⟨rfl, added, (Except.ok.inj done).symm⟩)
    · simp [stash, added] at done

/-- The list for the next state takes one more thread without asking for memory. -/
def HasRoom (s : ThreadSystem) : NextState → Prop
  | .ready => s.runqueue.toList.length + 1 < s.runqueue.size
  | .sleep => s.sleepers.num < s.sleepers.max
  | .zombie => s.zombies.num < s.zombies.max

private theorem stash_trap {s : ThreadSystem} {mem : Words} {cur : Ptr} {next : NextState}
    {trap : Trap}
    (stopped : s.stash mem cur next = .error trap) : trap = .noMemory ∧ ¬ s.HasRoom next := by
  cases next with
  | ready =>
    obtain ⟨kind, -, full⟩ := requeue_trap stopped
    exact ⟨kind, Nat.not_lt.mpr full⟩
  | sleep =>
    by_cases added : (s.sleepers.add mem cur).result = .success
    · simp [stash, added] at stopped
    · simp only [stash, added, ite_false] at stopped
      exact ⟨(Except.error.inj stopped).symm, KArray.full_of_add_failed mem _ cur added⟩
  | zombie =>
    by_cases added : (s.zombies.add mem cur).result = .success
    · simp [stash, added] at stopped
    · simp only [stash, added, ite_false] at stopped
      exact ⟨(Except.error.inj stopped).symm, KArray.full_of_add_failed mem _ cur added⟩

/-- Putting a thread on a list touches no thread structure. -/
theorem stash_parked {s after : ThreadSystem} {mem : Words} {cur : Ptr} {th : Thread}
    {next : NextState} (running : s.curthread = some cur)
    (done : (s.parked cur th).stash mem cur next = .ok after) :
    after.roster = next.park s.roster ∧ after.curthread = none ∧
      after.threads = Function.update s.threads cur (some th) ∧ after.brk = s.brk := by
  have current : s.curthread.toList = [cur] := by rw [running]; rfl
  rcases stash_cases done with ⟨rfl, queued⟩ | ⟨rfl, added, rfl⟩ | ⟨rfl, added, rfl⟩
  · obtain ⟨queue, asked, rfl, contents, -⟩ := requeue_cases queued
    refine ⟨?_, rfl, rfl, rfl⟩
    simp only [roster, NextState.park, Roster.yield, current, contents]
    rfl
  · refine ⟨?_, rfl, rfl, rfl⟩
    simp only [roster, NextState.park, Roster.sleep, current, KArray.toList_add mem _ cur added]
    rfl
  · refine ⟨?_, rfl, rfl, rfl⟩
    simp only [roster, NextState.park, Roster.leave, current, KArray.toList_add mem _ cur added]
    rfl

end ThreadSystem

namespace Placed

variable {s : ThreadSystem} {cur : Ptr}

private theorem park (placed : Placed s) (running : s.curthread = some cur) {th : Thread}
    {mem : Words} {next : NextState} (fits : next.Fits th) {after : ThreadSystem}
    (done : (s.parked cur th).stash mem cur next = .ok after) : Placed after := by
  obtain ⟨lists, -, threads, brk⟩ := ThreadSystem.stash_parked running done
  obtain ⟨ready, asleep, dead⟩ := placed.current_apart running
  obtain ⟨old, found⟩ := placed.current_thread running
  have self : after.threads cur = some th := by simp [threads]
  have other : ∀ t, t ≠ cur → after.threads t = s.threads t := by
    intro t apart
    simp [threads, apart]
  have current : ∀ t, t ∈ s.roster.current.toList ↔ t = cur := by
    intro t
    change t ∈ s.curthread.toList ↔ t = cur
    simp [running, eq_comm]
  refine placed.move (by rw [lists]; exact next.members_park _) ?_ (Nat.le_of_eq brk.symm) ?_ ?_ ?_
  · intro t
    by_cases here : t = cur
    · simp [here, self, found]
    · rw [other t here]
  · intro t member th' found'
    rw [lists, (next.mem_park _ t).1, current] at member
    rcases member with before | ⟨rfl, rfl⟩
    · rw [other t fun same => ready (same ▸ before)] at found'
      exact placed.ready t before th' found'
    · rw [self] at found'
      cases found'
      exact fits
  · intro t member
    rw [lists, (next.mem_park _ t).2.1, current] at member
    rcases member with before | ⟨rfl, rfl⟩
    · rw [other t fun same => asleep (same ▸ before)]
      exact placed.asleep t before
    · exact ⟨th, self, fits⟩
  intro t member th' found'
  rw [lists, (next.mem_park _ t).2.2, current] at member
  rcases member with before | ⟨rfl, rfl⟩
  · rw [other t fun same => dead (same ▸ before)] at found'
    exact placed.dead t before th' found'
  · rw [self] at found'
    cases found'
    exact fits

/-- A switch by the running thread stops only for want of memory; otherwise it parks the
thread and resumes another, or idles. -/
theorem miSwitch (placed : Placed s) (running : s.curthread = some cur) {th : Thread}
    (found : s.threads cur = some th) (mem : Words) {next : NextState} {frame : Frame}
    (fits : next.Fits { th with frame := frame }) :
    (s.miSwitch mem next frame = .error .noMemory ∧ ¬ s.HasRoom next) ∨
    (∃ stashed after, (s.parked cur { th with frame := frame }).stash mem cur next = .ok stashed ∧
      s.miSwitch mem next frame = .ok after ∧ Placed after ∧
      after.roster.live.Perm (next.park s.roster).live ∧ Kept stashed after) := by
  cases stash : (s.parked cur { th with frame := frame }).stash mem cur next with
  | error trap =>
    obtain ⟨kind, full⟩ := ThreadSystem.stash_trap stash
    refine .inl ⟨?_, ?_⟩
    · simp only [ThreadSystem.parked] at stash
      simp [ThreadSystem.miSwitch, running, found, stash, kind]
    · cases next <;> exact full
  | ok stashed =>
    obtain ⟨lists, idle, -⟩ := ThreadSystem.stash_parked running stash
    obtain ⟨after, done, placed', live, kept⟩ := (placed.park running fits stash).schedule idle
    refine .inr ⟨stashed, after, rfl, ?_, placed', lists ▸ live, kept⟩
    simp only [ThreadSystem.parked] at stash
    simp [ThreadSystem.miSwitch, running, found, stash, done]

end Placed

end Os161.Sched
