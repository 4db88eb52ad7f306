import Os161.Sched.Partition

/-!
# The loops of `thread_wakeup` and `thread_wake_one`

Both walk the sleepers array while they remove entries from it. What they have passed
stays; of the rest, the first loop moves all threads that sleep on the address to the
run queue and the second moves the first of them.
-/
namespace Os161.Sched

open Foundation

namespace ThreadSystem

/-- The test `t->t_sleepaddr == addr`. -/
def sleepsOn (s : ThreadSystem) (addr : Ptr) (t : Ptr) : Bool :=
  match s.threads t with
  | none => false
  | some th => th.sleepaddr == addr

/-- `moved` have gone from the sleepers to the end of the run queue and `kept` have stayed.
`Dry` says that no allocation has been granted. -/
structure Woken (Dry : Prop) (s after : ThreadSystem) (moved kept : List Ptr) : Prop where
  frame : after = { s with
    sleepers := after.sleepers, runqueue := after.runqueue, queueAsked := after.queueAsked }
  asleep : after.sleepers.toList = kept
  ready : after.runqueue.toList = s.runqueue.toList ++ moved
  max : after.sleepers.max = s.sleepers.max
  size : s.runqueue.size ≤ after.runqueue.size
  asked : s.queueAsked ≤ after.queueAsked
  room : after.queueAsked = s.queueAsked ↔
    s.runqueue.toList.length + moved.length < s.runqueue.size
  same : after.queueAsked = s.queueAsked → after.runqueue.size = s.runqueue.size
  dry : Dry → after.queueAsked = s.queueAsked

theorem Woken.refl (Dry : Prop) (s : ThreadSystem) : Woken Dry s s [] s.sleepers.toList :=
  ⟨rfl, rfl, by simp, rfl, Nat.le_refl _, Nat.le_refl _, by simp [s.runqueue.length_toList_lt],
    fun _ => rfl, fun _ => rfl⟩

/-- One thread woken, then others. -/
theorem Woken.cons {Dry : Prop} {s middle after : ThreadSystem} {t : Ptr}
    {moved kept middleKept : List Ptr} (first : Woken Dry s middle [t] middleKept)
    (rest : Woken Dry middle after moved kept) : Woken Dry s after (t :: moved) kept := by
  obtain ⟨eq, -, ready, max, size, asked, room, same, dry⟩ := first
  obtain ⟨eq', asleep', ready', max', size', asked', room', same', dry'⟩ := rest
  have both : after.queueAsked = s.queueAsked ↔
      middle.queueAsked = s.queueAsked ∧ after.queueAsked = middle.queueAsked := by omega
  refine ⟨?_, asleep', by rw [ready', ready]; simp, max'.trans max, size.trans size',
    asked.trans asked', ?_, ?_, ?_⟩
  · rw [eq', eq]
  · rw [List.length_singleton] at room
    rw [both, room', ready, List.length_append, List.length_singleton, List.length_cons]
    constructor
    · rintro ⟨quiet, fits⟩
      omega
    · intro fits
      have quiet := room.mpr (by omega)
      exact ⟨quiet, by omega⟩
  · intro quiet
    rw [both] at quiet
    rw [same' quiet.2, same quiet.1]
  · intro none
    rw [both]
    exact ⟨dry none, dry' none⟩

/-- The threads are woken, or there is no memory for the run queue. -/
def Wakes (Dry Short : Prop) (s : ThreadSystem) (result : Except Trap ThreadSystem)
    (moved kept : List Ptr) : Prop :=
  (∃ after, result = .ok after ∧ Woken Dry s after moved kept) ∨
    (result = .error .noMemory ∧ Short ∧ s.runqueue.size ≤ s.runqueue.toList.length + moved.length)

/-- `array_remove` and `make_runnable` for the thread at index `i`. -/
theorem wakeAt_cases {Dry Short : Prop} {s : ThreadSystem} {mem : Words} {i : Nat} {t : Ptr}
    (inside : i < s.sleepers.num) (dry : Dry → mem = none) (refused : mem = none → Short) :
    Wakes Dry Short s (s.wakeAt mem i t) [t] (s.sleepers.toList.eraseIdx i) := by
  have removes : ∃ rest, s.sleepers.remove i = .ok rest := by
    simp [KArray.remove, inside]
  obtain ⟨rest, removed⟩ := removes
  obtain ⟨contents, max⟩ := KArray.toList_remove _ _ _ removed
  have unfolded : s.wakeAt mem i t = { s with sleepers := rest }.requeue mem t := by
    simp [wakeAt, removed]
  cases queued : ({ s with sleepers := rest } : ThreadSystem).requeue mem t with
  | error trap =>
    obtain ⟨kind, short, full⟩ := requeue_trap queued
    exact .inr ⟨by rw [unfolded, queued, kind], refused short, full⟩
  | ok after =>
    obtain ⟨queue, asked, eq, ready, size, room, full⟩ := requeue_cases queued
    refine .inl ⟨after, by rw [unfolded, queued], ?_⟩
    subst eq
    -- either there is room and nothing is asked, or memory is asked for and granted
    rcases Nat.lt_or_ge (s.runqueue.toList.length + 1) s.runqueue.size with fits | tight
    · obtain ⟨rfl, same⟩ := room fits
      exact ⟨rfl, contents, ready, max, size, Nat.le_add_right _ _, by simpa using fits,
        fun _ => same, fun _ => rfl⟩
    · obtain ⟨rfl, granted⟩ := full tight
      exact ⟨rfl, contents, ready, max, size, Nat.le_add_right _ _, by simpa using tight,
        by simp, fun none => absurd (dry none) granted⟩

/-- The sleepers are threads. -/
def Known (s : ThreadSystem) : Prop := ∀ t ∈ s.sleepers.toList, (s.threads t).isSome

theorem sleeperAt_eq {s : ThreadSystem} (known : s.Known)
    {i : Nat} (inside : i < s.sleepers.toList.length) (addr : Ptr) :
    s.sleeperAt addr i = .ok (s.sleepers.toList[i], s.sleepsOn addr s.sleepers.toList[i]) := by
  obtain ⟨th, found⟩ := Option.isSome_iff_exists.mp (known _ (List.getElem_mem inside))
  simp [sleeperAt, s.sleepers.getguy_eq i (by simpa using inside), found,
    sleepsOn]

/-- Waking leaves alone what the test looks at. -/
theorem Woken.sleepsOn {Dry : Prop} {s after : ThreadSystem} {moved kept : List Ptr}
    (woken : Woken Dry s after moved kept) (addr : Ptr) :
    after.sleepsOn addr = s.sleepsOn addr := by
  rw [woken.frame]
  rfl

private theorem wakeLoop_cases {s : ThreadSystem} (addr : Ptr) (mem : Nat → Words) (fuel i : Nat)
    (known : s.Known) (count : fuel + i = s.sleepers.toList.length) :
    Wakes (∀ k, mem k = none) (∃ k, mem k = none) s (wakeLoop addr mem fuel i s)
      ((s.sleepers.toList.drop i).filter (s.sleepsOn addr))
      (s.sleepers.toList.take i ++
        (s.sleepers.toList.drop i).filter fun t => !s.sleepsOn addr t) := by
  -- the sleepers before `i` stay; `fuel` counts the ones from `i` on, woken or passed
  induction fuel generalizing i s with
  | zero =>
    have past : s.sleepers.toList.length ≤ i := by omega
    refine .inl ⟨s, rfl, ?_⟩
    simpa [List.drop_eq_nil_of_le past, List.take_of_length_le past] using Woken.refl _ s
  | succ fuel ih =>
    have inside' : i < s.sleepers.toList.length := by omega
    have inside : i < s.sleepers.num := by simpa using inside'
    have here := s.sleepers.toList.drop_eq_getElem_cons inside'
    rw [here]
    cases test : s.sleepsOn addr s.sleepers.toList[i] with
    | true =>
      rw [List.filter_cons_of_pos test, List.filter_cons_of_neg (by simp [test])]
      rcases wakeAt_cases (t := s.sleepers.toList[i]) inside
          (fun dry : (∀ k, mem k = none) => dry fuel)
          (fun short => (⟨fuel, short⟩ : ∃ k, mem k = none)) with
        ⟨middle, woke, first⟩ | ⟨stopped, short, full⟩
      · have head : wakeLoop addr mem (fuel + 1) i s = wakeLoop addr mem fuel i middle := by
          simp [wakeLoop, inside, sleeperAt_eq known inside' addr, test, woke]
        rw [head]
        -- the entry at `i` is gone, and the next one has moved into its place
        have length : (s.sleepers.toList.take i).length = i :=
          List.length_take_of_le (Nat.le_of_lt inside')
        have list : middle.sleepers.toList =
            s.sleepers.toList.take i ++ s.sleepers.toList.drop (i + 1) := by
          rw [first.asleep, List.eraseIdx_eq_take_drop_succ]
        have left := list ▸ List.drop_left' length
        have passed := list ▸ List.take_left' length
        have number : fuel + i = middle.sleepers.toList.length := by
          rw [list, List.length_append, List.length_drop]
          omega
        have known' : middle.Known := by
          intro t member
          rw [first.frame]
          rw [first.asleep] at member
          exact known t (List.mem_of_mem_eraseIdx member)
        rcases ih i known' number with ⟨after, done, woken⟩ | ⟨stopped, short, full⟩
        · refine .inl ⟨after, done, ?_⟩
          rw [first.sleepsOn, left, passed] at woken
          exact first.cons woken
        refine .inr ⟨stopped, short, ?_⟩
        rw [first.sleepsOn, left, first.ready, List.length_append, List.length_singleton] at full
        have larger := first.size
        rw [List.length_cons]
        omega
      · -- the first of them already finds the run queue full
        rw [List.length_singleton] at full
        refine .inr ⟨?_, short, by rw [List.length_cons]; omega⟩
        simp [wakeLoop, inside, sleeperAt_eq known inside' addr, test, stopped]
    | false =>
      have head : wakeLoop addr mem (fuel + 1) i s = wakeLoop addr mem fuel (i + 1) s := by
        simp [wakeLoop, inside, sleeperAt_eq known inside' addr, test]
      rw [head, List.filter_cons_of_neg (by simp [test]), List.filter_cons_of_pos (by simp [test])]
      have rest := ih (i + 1) known (by omega)
      rw [List.take_succ_eq_append_getElem inside', List.append_assoc] at rest
      exact rest

private theorem wakeOneLoop_cases {s : ThreadSystem} (addr : Ptr) (mem : Words) (fuel i : Nat)
    (known : s.Known) (count : fuel + i = s.sleepers.toList.length) :
    Wakes (mem = none) (mem = none) s (wakeOneLoop addr mem fuel i s)
      ((s.sleepers.toList.drop i).find? (s.sleepsOn addr)).toList
      (s.sleepers.toList.take i ++ (s.sleepers.toList.drop i).eraseP (s.sleepsOn addr)) := by
  -- no state change before the first match, so only `i` varies
  induction fuel generalizing i with
  | zero =>
    have past : s.sleepers.toList.length ≤ i := by omega
    refine .inl ⟨s, rfl, ?_⟩
    simpa [List.drop_eq_nil_of_le past, List.take_of_length_le past] using Woken.refl _ s
  | succ fuel ih =>
    have inside' : i < s.sleepers.toList.length := by omega
    have inside : i < s.sleepers.num := by simpa using inside'
    rw [s.sleepers.toList.drop_eq_getElem_cons inside']
    cases test : s.sleepsOn addr s.sleepers.toList[i] with
    | true =>
      have head : wakeOneLoop addr mem (fuel + 1) i s = s.wakeAt mem i s.sleepers.toList[i] := by
        simp [wakeOneLoop, inside, sleeperAt_eq known inside' addr, test]
      rw [head, List.find?_cons_of_pos test, List.eraseP_cons_of_pos test,
        ← List.eraseIdx_eq_take_drop_succ]
      exact wakeAt_cases inside id id
    | false =>
      have head : wakeOneLoop addr mem (fuel + 1) i s = wakeOneLoop addr mem fuel (i + 1) s := by
        simp [wakeOneLoop, inside, sleeperAt_eq known inside' addr, test]
      rw [head, List.find?_cons_of_neg (by simp [test]), List.eraseP_cons_of_neg (by simp [test])]
      have rest := ih (i + 1) (by omega)
      rw [List.take_succ_eq_append_getElem inside', List.append_assoc] at rest
      exact rest

variable {s : ThreadSystem}

theorem wakes_threadWakeup (known : s.Known) (mem : Nat → Words) (addr : Ptr) :
    Wakes (∀ k, mem k = none) (∃ k, mem k = none) s (s.threadWakeup mem addr)
      (s.sleepers.toList.filter (s.sleepsOn addr))
      (s.sleepers.toList.filter fun t => !s.sleepsOn addr t) := by
  simpa [threadWakeup] using wakeLoop_cases addr mem s.sleepers.num 0 known (by simp)

theorem wakes_threadWakeOne (known : s.Known) (mem : Words) (addr : Ptr) :
    Wakes (mem = none) (mem = none) s (s.threadWakeOne mem addr)
      (s.sleepers.toList.find? (s.sleepsOn addr)).toList
      (s.sleepers.toList.eraseP (s.sleepsOn addr)) := by
  simpa [threadWakeOne] using wakeOneLoop_cases addr mem s.sleepers.num 0 known (by simp)

private theorem hassleepersLoop_eq (known : s.Known) (addr : Ptr) (fuel i : Nat)
    (count : fuel + i = s.sleepers.toList.length) :
    s.hassleepersLoop addr fuel i = .ok ((s.sleepers.toList.drop i).any (s.sleepsOn addr)) := by
  induction fuel generalizing i with
  | zero =>
    have past : s.sleepers.toList.length ≤ i := by omega
    simp [hassleepersLoop, List.drop_eq_nil_of_le past]
  | succ fuel ih =>
    have inside' : i < s.sleepers.toList.length := by omega
    have inside : i < s.sleepers.num := by simpa using inside'
    rw [s.sleepers.toList.drop_eq_getElem_cons inside', List.any_cons, hassleepersLoop,
      if_pos inside, sleeperAt_eq known inside' addr]
    cases s.sleepsOn addr s.sleepers.toList[i] with
    | true => rfl
    | false => exact ih (i + 1) (by omega)

/-- The two loops wake exactly the threads they should, unless the run queue has no cell for them
and gets no memory, and `thread_hassleepers` tells whether there are any. -/
theorem wakeups_exact (known : s.Known) (addr : Ptr) :
    (∀ mem, Wakes (∀ k, mem k = none) (∃ k, mem k = none) s (s.threadWakeup mem addr)
      (s.sleepers.toList.filter (s.sleepsOn addr))
      (s.sleepers.toList.filter fun t => !s.sleepsOn addr t)) ∧
    (∀ mem, Wakes (mem = none) (mem = none) s (s.threadWakeOne mem addr)
      (s.sleepers.toList.find? (s.sleepsOn addr)).toList
      (s.sleepers.toList.eraseP (s.sleepsOn addr))) ∧
    ∃ has, s.threadHassleepers addr = .ok has ∧
      (has = true ↔ s.sleepers.toList.filter (s.sleepsOn addr) ≠ []) ∧
      (has = true ↔ (s.sleepers.toList.find? (s.sleepsOn addr)).toList ≠ []) := by
  refine ⟨fun mem => wakes_threadWakeup known mem addr,
    fun mem => wakes_threadWakeOne known mem addr,
    _, hassleepersLoop_eq known addr _ 0 (by simp), ?_, ?_⟩
  · simp
  · simp

/-- Threads 2, 3 and 4 sleep, the last on an address of its own. -/
def threeAsleep : ThreadSystem :=
  { boot fun _ => 0 with
    sleepers := ⟨3, 3, (· + 2), Nat.le_refl 3⟩
    threads := fun t => some ⟨if t = 4 then 6 else 5, none, none, 1, .yielded⟩ }

theorem wakeups_exact_three :
    threeAsleep.threadHassleepers 5 = .ok true ∧
    ∀ mem, Wakes (∀ k, mem k = none) (∃ k, mem k = none) threeAsleep
      (threeAsleep.threadWakeup mem 5) [2, 3] [4] :=
  ⟨rfl, (wakeups_exact (by simp [Known, threeAsleep]) 5).1⟩

/-- The roster with `moved` at the end of the ready list and `kept` asleep. -/
theorem Woken.roster {Dry : Prop} {after : ThreadSystem} {moved kept : List Ptr}
    (woken : Woken Dry s after moved kept) :
    after.roster = { s.roster with ready := s.roster.ready ++ moved, asleep := kept } := by
  simp only [ThreadSystem.roster, woken.ready, woken.asleep]
  rw [woken.frame]

end ThreadSystem

namespace Placed

variable {s : ThreadSystem}

theorem sleepers_known (placed : Placed s) : s.Known := by
  intro t member
  obtain ⟨th, found, -⟩ := placed.asleep t member
  simp [found]

/-- Sleepers that wake were not dead, and those who stay sleep on. -/
theorem woken (placed : Placed s) {Dry : Prop} {after : ThreadSystem} {moved kept : List Ptr}
    (woken : ThreadSystem.Woken Dry s after moved kept)
    (live : after.roster.live.Perm s.roster.live) : Placed after := by
  have threads : after.threads = s.threads := by rw [woken.frame]
  have dead : after.roster.dead = s.roster.dead := by rw [woken.frame]; rfl
  have brk : after.brk = s.brk := by rw [woken.frame]
  have same : (moved ++ kept).Perm s.roster.asleep := by
    simpa [woken.roster, Roster.live, List.perm_append_left_iff] using live
  refine placed.move (Roster.members_perm live dead) (by simp [threads]) (Nat.le_of_eq brk.symm)
    ?_ ?_ ?_
  · intro t member th found
    rw [threads] at found
    change t ∈ after.runqueue.toList at member
    rw [woken.ready, List.mem_append] at member
    rcases member with before | now
    · exact placed.ready t before th found
    obtain ⟨th', found', frame⟩ := placed.asleep t (same.subset (List.mem_append_left _ now))
    rw [found] at found'
    cases found'
    simp [frame]
  · intro t member
    rw [threads]
    change t ∈ after.sleepers.toList at member
    rw [woken.asleep] at member
    exact placed.asleep t (same.subset (List.mem_append_right _ member))
  · rw [dead, threads]
    exact placed.dead

end Placed

end Os161.Sched
