import Os161.Pid.Runs

/-!
# Which pids come back

Four properties of every run of the process table: the counters and entries agree,
exited processes leave the table, only the forking parent may collect a child, and
no children array of a running process dangles. The first holds of every run. The
other three hold of exactly those runs in which no step meets a recycled or
unrecorded parent, and each is broken by a short concrete run.
-/
namespace Os161.Pid

open PidManager Foundation

variable {procs : CInt} {start w : World} {history : List (World × Event)}

/-! ### Processes and their blocks -/

/-- The process `x` has called `inform_process_exit` in this run. -/
def HasExited (history : List (World × Event)) (x : Ptr) : Prop :=
  ∃ taken ∈ history, ∃ pid status, taken.2 = .exit pid status ∧ taken.1.pm.getPidBlock pid = some x

/-- A process that has been added and has not exited: the block addresses handed out are
those from `bootBlock` up to `brk`. -/
def Alive (history : List (World × Event)) (w : World) (x : Ptr) : Prop :=
  bootBlock ≤ x ∧ x < w.pm.brk ∧ ¬ HasExited history x

/-- A process keeps its block, unmarked, until it exits. -/
theorem Alive.running (booted : Booted procs start) (run : Run Step start history w) {x : Ptr}
    (alive : Alive history w x) : ∃ block, w.pm.heap x = some block ∧ block.isExited = false := by
  -- by the last step: a fork adds a running process, an exit marks only the caller
  induction run with
  | start =>
    obtain ⟨first, last, -⟩ := alive
    have only : x = 1 := by
      rw [booted.eq] at last
      exact Nat.le_antisymm (Nat.le_of_lt_succ last) first
    rw [booted.eq, only]
    exact ⟨newBlock 1 0, rfl, rfl⟩
  | @next history w event after before taken ih =>
    have sound := booted.sound_of_run before
    obtain ⟨first, last, active⟩ := alive
    have active' : ¬ HasExited history x := by
      rintro ⟨step, member, rest⟩
      exact active ⟨step, List.mem_cons_of_mem _ member, rest⟩
    cases event with
    | fork parent mem =>
      obtain ⟨y, -, reply, -, ⟨-, rfl⟩ | ⟨-, -, adds, -, -⟩⟩ := sound.fork_cases taken
      · exact ih ⟨first, last, active'⟩
      by_cases new : x = w.pm.brk
      · exact ⟨newBlock reply.pid parent, new ▸ adds.new, rfl⟩
      rw [adds.brk] at last
      obtain ⟨block, found, runs⟩ :=
        ih ⟨first, Nat.lt_of_le_of_ne (Nat.le_of_lt_succ last) new, active'⟩
      obtain ⟨b, now, -, -, exited⟩ := adds.persists new found
      exact ⟨b, now, exited.trans runs⟩
    | exit pid status =>
      obtain ⟨p, own, entry, -, -, drops, -⟩ := sound.exit_cases taken
      have other : x ≠ p := by
        rintro rfl
        exact active ⟨(w, .exit pid status), List.mem_cons_self, pid, status, rfl, entry⟩
      rw [drops.brk] at last
      obtain ⟨block, found, runs⟩ := ih ⟨first, last, active'⟩
      refine ⟨block, ?_, runs⟩
      rw [drops.kept x (not_freed_of_running found runs other),
        heap_setBlock_other _ _ other, found]

/-! ### Runs in which the boot process stays -/

/-- The boot process runs `kmain`, which does not return. -/
def BootStays (event : Event) : Prop := ∀ status, event ≠ .exit 1 status

/-- Slot 1 belongs to the boot process, and it is running. -/
def BootRuns (w : World) : Prop := w.pm.runningAt 1 = some bootBlock

theorem Booted.bootRuns (booted : Booted procs start) : BootRuns start := by
  rw [booted.eq]
  rfl

variable {after : World} {pid : Int} {parent : Int} {mem : AddMemory} {status : CInt}

theorem BootRuns.step {event : Event} (sound : Sound procs w) (boot : BootRuns w)
    (stays : BootStays event) (taken : Step w event after) : BootRuns after := by
  obtain ⟨entry, block, found, runs⟩ := (runningAt_eq_some _ _ _).mp boot
  refine (runningAt_eq_some _ _ _).mpr ?_
  cases event with
  | fork parent mem =>
    obtain ⟨x, -, reply, -, ⟨-, rfl⟩ | ⟨-, -, adds, free, -⟩⟩ := sound.fork_cases taken
    · exact ⟨entry, block, found, runs⟩
    · obtain ⟨b, now, -, -, exited⟩ := adds.persists (sound.coherent.ne_brk found) found
      exact ⟨adds.slot_kept free entry, b, now, exited.trans runs⟩
  | exit pid status =>
    obtain ⟨p, own, mine, found', -, drops, -⟩ := sound.exit_cases taken
    -- the process that exits is in another slot than process 1
    have other : bootBlock ≠ p := by
      intro same
      have one : pid = 1 := sound.coherent.slot_inj mine (same ▸ entry)
      exact stays status (by rw [one])
    obtain ⟨kept, left⟩ := Family.running_survives drops found runs other
    exact ⟨(drops.slot _ _).mpr ⟨entry, kept⟩, block, left, runs⟩

/-! ### Coherence of the table -/

/-- Every process but process 1 keeps its children, so the child loop of its exit meets no
freed block. -/
theorem Sound.exit_memory_safe (sound : Sound procs w)
    (other : pid ≠ 1) (runs : (w.pm.runningAt pid).isSome) (status : CInt) :
    (∃ after, w.pm.informProcessExit pid status = .ok (.success, after)) ∨
      w.pm.informProcessExit pid status = .error .assertion := by
  obtain ⟨p, running⟩ := Option.isSome_iff_exists.mp runs
  obtain ⟨entry, block, found, alive⟩ := (runningAt_eq_some _ _ _).mp running
  have number := sound.coherent.pid_of_slot entry found
  have two : 2 ≤ block.myPid := by
    have low := (sound.coherent.listed p block found).1
    omega
  have kept : ∀ c ∈ block.children.toList, (w.pm.heap c).isSome := fun c member =>
    sound.family.keeps c p block (sound.family.forked p block found c member) found alive two
  have body := sound.family.exitCritical_safe sound.coherent found status kept
  rw [number] at body
  unfold informProcessExit
  rw [entry]
  rcases body with ⟨after, done⟩ | failed
  · exact .inl ⟨after, by simp [done, Except.map]⟩
  · exact .inr (by simp [failed, Except.map])

/-- After every call: the count, the pids in the entries, the cursor, and the uniqueness of
pids. No exit of a process with another pid than 1 touches freed memory, so these are all
the ways such a call can go. -/
theorem table_stays_coherent (booted : Booted procs start) (run : Run Step start history w) :
    w.pm.numberOfProcs - procs = BitVec.ofNat 32 w.pm.occupied.card ∧
    (∀ pid p, w.pm.getPidBlock pid = some p →
      ∃ block, w.pm.heap p = some block ∧ block.myPid = pid) ∧
    (1 ≤ w.pm.nextPid ∧ w.pm.nextPid ≤ maxPids) ∧
    (∀ parent mem x reply, w.pm.runningAt parent = some x →
      w.pm.informProcessAdd mem x parent = .ok reply → reply.result = .success →
      reply.pid ∉ w.pm.occupied) ∧
    (∀ x y, Alive history w x → Alive history w y → x ≠ y →
      ∃ left right, w.pm.heap x = some left ∧ w.pm.heap y = some right ∧
        left.myPid ≠ right.myPid) ∧
    (∀ pid status, pid ≠ 1 → (w.pm.runningAt pid).isSome →
      (∃ after, w.pm.informProcessExit pid status = .ok (.success, after)) ∨
        w.pm.informProcessExit pid status = .error .assertion) := by
  have sound := booted.sound_of_run run
  have coherent := sound.coherent
  refine ⟨coherent.counted, coherent.filled, coherent.nextInRange, ?_, ?_, ?_⟩
  · intro parent mem x reply running returned success
    have entry := ((runningAt_eq_some _ _ _).mp running).1
    obtain ⟨-, -, free⟩ := coherent.adds entry returned success
    rw [coherent.mem_occupied, free]
    simp
  · intro x y aliveX aliveY apart
    obtain ⟨left, foundX, -⟩ := aliveX.running booted run
    obtain ⟨right, foundY, -⟩ := aliveY.running booted run
    refine ⟨left, right, foundX, foundY, fun same => apart ?_⟩
    have one := (coherent.listed x left foundX).2.2
    have two := (coherent.listed y right foundY).2.2
    rw [same, two] at one
    exact (Option.some.inj one).symm
  · intro pid status other runs
    exact sound.exit_memory_safe other runs status

theorem table_stays_coherent_family :
    ∃ history w, Run Step bootWorld history w ∧ history.map Prod.snd = smallFamily.reverse ∧
      w.pm.numberOfProcs - 0 = BitVec.ofNat 32 w.pm.occupied.card := by
  obtain ⟨history, w, run, same⟩ := smallFamily_runs
  exact ⟨history, w, run, same, (table_stays_coherent booted_bootWorld run).1⟩

/-! ### Exited processes leave the table -/

/-- Every exited process in the table is kept for its own, running forker, and that is not
process 1. -/
def Reclaimed (w : World) : Prop :=
  ∀ pid x block, w.pm.getPidBlock pid = some x → w.pm.heap x = some block →
    block.isExited = true →
    ∃ y parent, w.forker x = some y ∧ w.pm.heap y = some parent ∧
      w.pm.getPidBlock parent.myPid = some y ∧ parent.isExited = false ∧ 2 ≤ parent.myPid

/-- Once every process except process 1 has exited, only slot 1 is occupied. -/
def NothingLeft (w : World) : Prop :=
  (∀ pid x block, w.pm.getPidBlock pid = some x → w.pm.heap x = some block → pid ≠ 1 →
    block.isExited = true) → w.pm.occupied = {1}

/-- A process that exits while its parent's number is carried by a running process (other
than process 1) was forked by that process. -/
def HeldByForker (w : World) : Event → Prop
  | .fork _ _ => True
  | .exit pid _ => ∀ x block, w.pm.getPidBlock pid = some x → w.pm.heap x = some block →
      Held w.pm block → w.pm.getPidBlock block.myParent = w.forker x

theorem Reclaimed.nothingLeft (reclaimed : Reclaimed w) (sound : Sound procs w)
    (boot : BootRuns w) : NothingLeft w := by
  intro dead
  have first := ((runningAt_eq_some _ _ _).mp boot).1
  ext pid
  rw [sound.coherent.mem_occupied, Finset.mem_singleton]
  constructor
  · intro filled
    by_contra other
    obtain ⟨x, entry⟩ := Option.isSome_iff_exists.mp filled
    obtain ⟨block, found, -⟩ := sound.coherent.filled pid x entry
    obtain ⟨y, parent, -, found', entry', runs, two⟩ :=
      reclaimed pid x block entry found (dead pid x block entry found other)
    have gone := dead parent.myPid y parent entry' found' (by omega)
    simp [runs] at gone
  · rintro rfl
    simp [first]

theorem Reclaimed.fork (reclaimed : Reclaimed w)
    (sound : Sound procs w) (taken : Step w (.fork parent mem) after) : Reclaimed after := by
  obtain ⟨x, -, reply, -, ⟨-, rfl⟩ | ⟨-, -, adds, free, forker⟩⟩ := sound.fork_cases taken
  · exact reclaimed
  intro pid c block entry found dead
  rcases (adds.slot pid c).mp entry with ⟨-, rfl⟩ | ⟨-, before⟩
  · rw [adds.new] at found
    cases found
    simp [newBlock] at dead
  obtain ⟨b, old, -⟩ := sound.coherent.filled pid c before
  have older := sound.coherent.ne_brk old
  obtain ⟨was, same, -, -, exited, -⟩ := adds.survivor older found
  obtain ⟨y, dad, forked, foundY, entryY, runs, two⟩ :=
    reclaimed pid c was before same (exited ▸ dead)
  obtain ⟨dad', now, number, -, alive⟩ :=
    adds.persists (sound.coherent.ne_brk foundY) foundY
  refine ⟨y, dad', ?_, now, ?_, alive.trans runs, number ▸ two⟩
  · rw [forker, Function.update_of_ne older, forked]
  · rw [number]
    exact adds.slot_kept free entryY

/-- The exit of `p` keeps the table reclaimed exactly when `p` is not left for a stranger. -/
theorem Reclaimed.exit_iff (reclaimed : Reclaimed w)
    (sound : Sound procs w) (taken : Step w (.exit pid status) after) :
    Reclaimed after ↔ HeldByForker w (.exit pid status) := by
  obtain ⟨p, own, entry, found, coherent, drops, forker⟩ := sound.exit_cases taken
  constructor
  -- if `p` stays it was held, and a reclaimed table says by whom
  · intro now x block mine found' held
    rw [entry] at mine
    cases mine
    rw [found] at found'
    cases found'
    have kept : ¬ Freed w.pm p own p := by
      rintro (⟨member, -⟩ | ⟨-, unheld⟩)
      · exact sound.family.not_own_child found member
      · exact unheld held
    obtain ⟨y, parent, forked, foundY, -, runs, -⟩ :=
      now pid p (Family.exitedBlock own status) ((drops.slot _ _).mpr ⟨entry, kept⟩)
        ((drops.kept p kept).trans (heap_setBlock_same _ _ _)) rfl
    obtain ⟨-, before⟩ := Family.survivor_running drops foundY runs
    rw [forker] at forked
    rw [forked, ← sound.family.lineage p y own parent forked found before]
    exact (sound.coherent.listed y parent before).2.2
  intro safe n x block entryX foundX dead
  have stays := ((drops.slot n x).mp entryX).2
  have before := ((drops.slot n x).mp entryX).1
  -- a process running before, other than `p`, is found unchanged afterwards
  have unchanged : ∀ y dad, w.pm.heap y = some dad → dad.isExited = false → y ≠ p →
      after.pm.heap y = some dad ∧ after.pm.getPidBlock dad.myPid = some y := by
    intro y dad foundY runs other
    obtain ⟨kept, left⟩ := Family.running_survives drops foundY runs other
    exact ⟨left, (drops.slot _ _).mpr ⟨(sound.coherent.listed y dad foundY).2.2, kept⟩⟩
  -- an exited process left in the table is `p` or was there before
  by_cases self : x = p
  · subst x
    have held : Held w.pm own := by
      by_contra unheld
      exact stays (.inr ⟨rfl, unheld⟩)
    have mine := safe p own entry found held
    obtain ⟨two, q, parent, entryQ, foundQ, runs⟩ := held
    have numberQ := sound.coherent.pid_of_slot entryQ foundQ
    have other : q ≠ p := by
      rintro rfl
      rw [found] at foundQ
      cases foundQ
      exact sound.family.apart _ _ found numberQ
    obtain ⟨now, slot⟩ := unchanged q parent foundQ runs other
    exact ⟨q, parent, by rw [forker, ← mine, entryQ], now, slot, runs, by omega⟩
  have old : w.pm.heap x = some block := by
    rwa [drops.kept x stays, heap_setBlock_other _ _ self] at foundX
  obtain ⟨y, dad, forked, foundY, -, runs, two⟩ := reclaimed n x block before old dead
  -- its forker does not exit here, or the child loop would have freed it
  have other : y ≠ p := by
    rintro rfl
    rw [found] at foundY
    exact stays (.inl ⟨sound.family.complete x y block _ forked old found, block, old, dead⟩)
  obtain ⟨now, slot⟩ := unchanged y dad foundY runs other
  exact ⟨y, dad, by rw [forker, forked], now, slot, runs, two⟩

/-- The pids of exited processes all come back, in every state of a run, exactly when no
process of the run is left at its exit to a stranger that carries its parent's number. -/
theorem pids_reclaimed_iff (booted : Booted procs start) (run : Run Step start history w)
    (stays : ∀ taken ∈ history, BootStays taken.2) :
    (∀ t ∈ visited history w, Reclaimed t ∧ NothingLeft t) ↔
      ∀ taken ∈ history, HeldByForker taken.1 taken.2 := by
  have guarded : Run (fun s event t => BootStays event ∧ Step s event t) start history w :=
    run.restrict stays
  have clean : Reclaimed start := by
    intro pid x block entry found dead
    rw [((booted.heap_eq_some x block).mp found).2] at dead
    cases dead
  refine guarded.good_iff (fun w => Sound procs w ∧ BootRuns w) ⟨booted.sound, booted.bootRuns⟩
    ⟨clean, clean.nothingLeft booted.sound booted.bootRuns⟩ ?_ ?_
  · rintro s event t ⟨sound, boot⟩ ⟨stays, taken⟩
    exact ⟨sound.step taken, boot.step sound stays taken⟩
  rintro s event t ⟨sound, boot⟩ ⟨reclaimed, -⟩ ⟨stays, taken⟩
  have sound' := sound.step taken
  have boot' := boot.step sound stays taken
  have both : Reclaimed t ∧ NothingLeft t ↔ Reclaimed t :=
    ⟨And.left, fun now => ⟨now, now.nothingLeft sound' boot'⟩⟩
  rw [both]
  cases event with
  | fork parent mem => exact iff_of_true (reclaimed.fork sound taken) trivial
  | exit pid status => exact reclaimed.exit_iff sound taken

theorem pids_reclaimed_iff_family :
    ∃ history w, Run Step bootWorld history w ∧ history.map Prod.snd = smallFamily.reverse ∧
      ((∀ t ∈ visited history w, Reclaimed t ∧ NothingLeft t) ↔
        ∀ taken ∈ history, HeldByForker taken.1 taken.2) := by
  obtain ⟨history, w, run, same⟩ := smallFamily_runs
  refine ⟨history, w, run, same, pids_reclaimed_iff booted_bootWorld run ?_⟩
  intro taken member status
  have event : taken.2 ∈ smallFamily.reverse := same ▸ List.mem_map_of_mem member
  simp only [smallFamily, List.reverse_cons, List.reverse_nil, List.nil_append, List.cons_append,
    List.mem_cons, List.not_mem_nil, or_false] at event
  rcases event with event | event | event | event <;> simp [event]

/-- The child of a dead process exits while the stranger runs, then the stranger exits too:
process 3 stays in the table although only process 1 is left. -/
theorem recycled_parent_leaks :
    ∃ w, execute World.step bootWorld (recycleTwo ++ [.exit 3 0, .exit 2 0]) = some w ∧
      ¬ Reclaimed w ∧ ¬ NothingLeft w := by
  obtain ⟨w, reached, entry, exited, gone, forked, others⟩ :
      ∃ w, execute World.step bootWorld (recycleTwo ++ [.exit 3 0, .exit 2 0]) = some w ∧
        w.pm.getPidBlock 3 = some 3 ∧ (w.pm.heap 3).map (·.isExited) = some true ∧
        (w.pm.heap 2).isNone ∧ w.forker 3 = some 2 ∧
        ∀ pid ∈ pids, 2 ≤ pid → w.pm.runningAt pid = none :=
    execute_check (by decide +kernel)
  obtain ⟨block, found, dead⟩ := Option.map_eq_some_iff.mp exited
  obtain ⟨history, run, -⟩ := Run.of_execute reached
  have sound := booted_bootWorld.sound_of_run run
  refine ⟨w, reached, fun reclaimed => ?_, fun left => ?_⟩
  · obtain ⟨y, parent, forked', found', -⟩ := reclaimed 3 3 block entry found dead
    rw [forked] at forked'
    cases forked'
    rw [Option.isNone_iff_eq_none.mp gone] at found'
    cases found'
  have only := left (by
    intro pid x b entryX foundX other
    by_contra runs
    have number := sound.coherent.pid_of_slot entryX foundX
    have range := sound.coherent.listed x b foundX
    have none := others pid ((mem_pids pid).mpr ⟨by omega, by omega⟩) (by omega)
    rw [(runningAt_eq_some _ _ _).mpr ⟨entryX, b, foundX, by simpa using runs⟩] at none
    cases none)
  have third : (3 : Int) ∈ w.pm.occupied := by
    rw [sound.coherent.mem_occupied, entry]
    rfl
  rw [only] at third
  simp at third

/-! ### Who may collect a child -/

/-- A running process that `wait_pid` admits for pid `c` is the one that forked the process
in slot `c`. -/
def OnlyForkerCollects (w : World) : Prop :=
  ∀ c q y, w.pm.runningAt q = some y → w.pm.waitAdmits c q = .ok true →
    ∃ x, w.pm.getPidBlock c = some x ∧ w.forker x = some y

/-- A fork does not hand out a number that some process in the table still records as its
parent. -/
def FreshNumber (w : World) : Event → Prop
  | .fork parent mem => ∀ x reply, w.pm.runningAt parent = some x →
      w.pm.informProcessAdd mem x parent = .ok reply → reply.result = .success →
      ∀ pid c block, w.pm.getPidBlock pid = some c → w.pm.heap c = some block →
        block.myParent ≠ reply.pid
  | .exit _ _ => True

theorem Coherent.waitAdmits_iff {pm : PidManager} (coherent : Coherent procs pm) {c q : Int}
    (positive : 1 ≤ q) :
    pm.waitAdmits c q = .ok true ↔
      ∃ x block, pm.getPidBlock c = some x ∧ pm.heap x = some block ∧ block.myParent = q := by
  unfold waitAdmits getParent
  cases entry : pm.getPidBlock c with
  | none =>
    have minus : ¬ (-1 : Int) = q := by omega
    by_cases valid : validatePid c = false <;> simp [valid, Except.map, minus]
  | some x =>
    obtain ⟨block, found, -⟩ := coherent.filled c x entry
    have valid : validatePid c = true := by
      by_contra invalid
      simp [getPidBlock, invalid] at entry
    have followed := (deref_eq_ok pm x block).mpr found
    simp [valid, followed, Except.map, found]

theorem Sound.running_positive (sound : Sound procs w) {q : Int} {y : Ptr}
    (running : w.pm.runningAt q = some y) : 1 ≤ q := by
  obtain ⟨entry, block, found, -⟩ := (runningAt_eq_some _ _ _).mp running
  obtain ⟨b, found', number⟩ := sound.coherent.filled q y entry
  exact number ▸ (sound.coherent.listed y b found').1

theorem OnlyForkerCollects.exit
    (only : OnlyForkerCollects w) (sound : Sound procs w)
    (taken : Step w (.exit pid status) after) : OnlyForkerCollects after := by
  have sound' := sound.step taken
  obtain ⟨p, own, -, found, -, drops, forker⟩ := sound.exit_cases taken
  intro c q y running admits
  have positive := sound'.running_positive running
  obtain ⟨entry, dad, foundY, runs⟩ := (runningAt_eq_some _ _ _).mp running
  obtain ⟨x, block, entryX, foundX, number⟩ := (sound'.coherent.waitAdmits_iff positive).mp admits
  obtain ⟨-, beforeY⟩ := Family.survivor_running drops foundY runs
  have slotY : w.pm.getPidBlock q = some y := ((drops.slot q y).mp entry).1
  have slotX : w.pm.getPidBlock c = some x := ((drops.slot c x).mp entryX).1
  obtain ⟨old, beforeX, -, same, -⟩ := Family.survivor_fields found drops foundX
  have admitted : w.pm.waitAdmits c q = .ok true :=
    (sound.coherent.waitAdmits_iff positive).mpr ⟨x, old, slotX, beforeX, same ▸ number⟩
  have running' : w.pm.runningAt q = some y :=
    (runningAt_eq_some _ _ _).mpr ⟨slotY, dad, beforeY, runs⟩
  -- an exit changes no number, so the same pair was admitted before it
  obtain ⟨x', slot', forked⟩ := only c q y running' admitted
  rw [slotX] at slot'
  cases slot'
  exact ⟨x, entryX, by rw [forker, forked]⟩

/-- A fork breaks the rule exactly when it recycles a number still on record. -/
theorem OnlyForkerCollects.fork_iff
    (only : OnlyForkerCollects w) (sound : Sound procs w)
    (taken : Step w (.fork parent mem) after) :
    OnlyForkerCollects after ↔ FreshNumber w (.fork parent mem) := by
  have sound' := sound.step taken
  obtain ⟨dad, running, reply, returned, ⟨failed, rfl⟩ | ⟨success, -, adds, free, forker⟩⟩ :=
    sound.fork_cases taken
  · refine iff_of_true only ?_
    intro x other running' returned' success
    rw [running] at running'
    cases running'
    rw [returned] at returned'
    cases returned'
    exact absurd success failed
  have entryDad := ((runningAt_eq_some _ _ _).mp running).1
  have newSlot : after.pm.getPidBlock reply.pid = some w.pm.brk :=
    (adds.slot _ _).mpr (.inl ⟨rfl, rfl⟩)
  have newRuns : after.pm.runningAt reply.pid = some w.pm.brk :=
    (runningAt_eq_some _ _ _).mpr ⟨newSlot, _, adds.new, rfl⟩
  constructor
  · intro now x other running' returned' _ pid c block entry found clash
    rw [running] at running'
    cases running'
    rw [returned] at returned'
    cases returned'
    -- the new process would be admitted for `c`, which is older than it
    have older := sound.coherent.ne_brk found
    obtain ⟨b, left, -, same, -⟩ := adds.persists older found
    have entry' := adds.slot_kept free entry
    obtain ⟨c', entry'', forked⟩ := now pid reply.pid _ newRuns
      ((sound'.coherent.waitAdmits_iff (sound'.running_positive newRuns)).mpr
        ⟨c, b, entry', left, same.trans clash⟩)
    rw [entry'] at entry''
    cases entry''
    rw [forker, Function.update_of_ne older] at forked
    have recent := sound.family.recent _ _ forked
    exact Nat.lt_irrefl _ (Nat.lt_trans recent.1 recent.2)
  intro fresh c q y runningY admits
  have recorded := fresh dad reply running returned success
  have positive := sound'.running_positive runningY
  obtain ⟨entryY, blockY, foundY, runs⟩ := (runningAt_eq_some _ _ _).mp runningY
  obtain ⟨x, block, entryX, foundX, number⟩ := (sound'.coherent.waitAdmits_iff positive).mp admits
  refine ⟨x, entryX, ?_⟩
  rcases (adds.slot c x).mp entryX with ⟨-, rfl⟩ | ⟨-, slotX⟩
  · -- the new process itself: its parent's number is still its forker's
    rw [adds.new] at foundX
    cases foundX
    rw [forker, Function.update_self]
    change parent = q at number
    have apart : q ≠ reply.pid := by
      rintro rfl
      rw [← number, entryDad] at free
      cases free
    rcases (adds.slot q y).mp entryY with ⟨same, -⟩ | ⟨-, slotY⟩
    · exact absurd same apart
    · rw [← number, entryDad] at slotY
      exact slotY
  obtain ⟨b, foundB, -⟩ := sound.coherent.filled c x slotX
  have older := sound.coherent.ne_brk foundB
  obtain ⟨old, before, -, same, -⟩ := adds.survivor older foundX
  rcases (adds.slot q y).mp entryY with ⟨rfl, -⟩ | ⟨-, slotY⟩
  · -- the new process would carry a number still on record
    exact absurd (same ▸ number) (recorded c x old slotX before)
  obtain ⟨d, foundD, -⟩ := sound.coherent.filled q y slotY
  obtain ⟨oldY, beforeY, -, -, exited, -⟩ :=
    adds.survivor (sound.coherent.ne_brk foundD) foundY
  obtain ⟨x', slot', forked⟩ := only c q y
    ((runningAt_eq_some _ _ _).mpr ⟨slotY, oldY, beforeY, exited ▸ runs⟩)
    ((sound.coherent.waitAdmits_iff positive).mpr ⟨x, old, slotX, before, same ▸ number⟩)
  rw [slotX] at slot'
  cases slot'
  rw [forker, Function.update_of_ne older, forked]

/-- In every state of a run only the forking parent may collect a child, exactly when no
fork of the run recycles a number that is still on record as a parent. -/
theorem only_forker_collects_iff (booted : Booted procs start) (run : Run Step start history w) :
    (∀ t ∈ visited history w, OnlyForkerCollects t) ↔
      ∀ taken ∈ history, FreshNumber taken.1 taken.2 := by
  have clean : OnlyForkerCollects start := by
    intro c q y running admits
    have positive := booted.sound.running_positive running
    obtain ⟨x, block, -, found, number⟩ :=
      (booted.sound.coherent.waitAdmits_iff positive).mp admits
    -- the boot process records parent 0, and no process has that pid
    rw [((booted.heap_eq_some x block).mp found).2] at number
    change 0 = q at number
    omega
  refine run.good_iff (Sound procs) booted.sound clean
    (fun _ _ _ sound taken => sound.step taken) ?_
  intro s event t sound only taken
  cases event with
  | fork parent mem => exact only.fork_iff sound taken
  | exit pid status => exact iff_of_true (only.exit sound taken) trivial

theorem only_forker_collects_iff_family :
    ∃ history w, Run Step bootWorld history w ∧ history.map Prod.snd = smallFamily.reverse ∧
      ((∀ t ∈ visited history w, OnlyForkerCollects t) ↔
        ∀ taken ∈ history, FreshNumber taken.1 taken.2) := by
  obtain ⟨history, w, run, same⟩ := smallFamily_runs
  exact ⟨history, w, run, same, only_forker_collects_iff booted_bootWorld run⟩

/-- The stranger that carries number 2 is admitted to wait for process 3. -/
theorem stranger_collects :
    ∃ w, execute World.step bootWorld recycleTwo = some w ∧ ¬ OnlyForkerCollects w := by
  obtain ⟨w, reached, running, admits, entry, forked⟩ :
      ∃ w, execute World.step bootWorld recycleTwo = some w ∧
      w.pm.runningAt 2 = some 101 ∧ w.pm.waitAdmits 3 2 = .ok true ∧
      w.pm.getPidBlock 3 = some 3 ∧ w.forker 3 = some 2 := execute_check (by decide +kernel)
  refine ⟨w, reached, fun only => ?_⟩
  obtain ⟨x, entry', forked'⟩ := only 3 2 101 running admits
  rw [entry] at entry'
  cases entry'
  rw [forked] at forked'
  cases forked'

/-! ### Children arrays -/

/-- The children array of a running process lists the processes it forked that are still in
the table, each once, and its exit would not touch a freed block. -/
def ChildrenExact (w : World) : Prop :=
  ∀ pid x block, w.pm.getPidBlock pid = some x → w.pm.heap x = some block →
    block.isExited = false →
    block.children.toList.Nodup ∧
    (∀ c, c ∈ block.children.toList ↔ w.forker c = some x ∧ ∃ n, w.pm.getPidBlock n = some c) ∧
    ∀ status, w.pm.informProcessExit pid status ≠ .error .useAfterFree

/-- The exiting process is not a child of the process running as process 1, whose exited
children are freed at once and never unlinked. -/
def NotChildOfOne (w : World) : Event → Prop
  | .fork _ _ => True
  | .exit pid _ => ∀ p one block, w.pm.getPidBlock pid = some p →
      w.pm.runningAt 1 = some one → w.pm.heap one = some block → p ∉ block.children.toList

theorem Coherent.mem_table_iff {pm : PidManager} (coherent : Coherent procs pm) (c : Ptr) :
    (∃ n, pm.getPidBlock n = some c) ↔ (pm.heap c).isSome := by
  constructor
  · rintro ⟨n, entry⟩
    obtain ⟨block, found, -⟩ := coherent.filled n c entry
    simp [found]
  · intro allocated
    obtain ⟨block, found⟩ := Option.isSome_iff_exists.mp allocated
    exact ⟨block.myPid, (coherent.listed c block found).2.2⟩

/-- What can be wrong with a children array is only that it lists a freed block. -/
theorem Sound.childrenExact_iff (sound : Sound procs w) :
    ChildrenExact w ↔ ∀ x block, w.pm.heap x = some block → block.isExited = false →
      ∀ c ∈ block.children.toList, (w.pm.heap c).isSome := by
  constructor
  · intro exact_ x block found runs c member
    obtain ⟨-, lists, -⟩ :=
      exact_ block.myPid x block (sound.coherent.listed x block found).2.2 found runs
    exact (sound.coherent.mem_table_iff c).mp ((lists c).mp member).2
  intro kept pid x block entry found runs
  have alive := kept x block found runs
  refine ⟨sound.family.nodup x block found, fun c => ⟨fun member => ?_, ?_⟩, fun status => ?_⟩
  · exact ⟨sound.family.forked x block found c member,
      (sound.coherent.mem_table_iff c).mpr (alive c member)⟩
  · rintro ⟨forked, inTable⟩
    obtain ⟨b, foundC⟩ := Option.isSome_iff_exists.mp ((sound.coherent.mem_table_iff c).mp inTable)
    exact sound.family.complete c x b block forked foundC found
  have number := sound.coherent.pid_of_slot entry found
  have body := sound.family.exitCritical_safe sound.coherent found status alive
  unfold informProcessExit
  rw [entry, ← number]
  rcases body with ⟨after, done⟩ | failed
  · simp [done, Except.map]
  · simp [failed, Except.map]

theorem ChildrenExact.fork
    (exact_ : ChildrenExact w) (sound : Sound procs w) (taken : Step w (.fork parent mem) after) :
    ChildrenExact after := by
  rw [sound.childrenExact_iff] at exact_
  rw [(sound.step taken).childrenExact_iff]
  obtain ⟨dad, -, reply, -, ⟨-, rfl⟩ | ⟨-, -, adds, -, -⟩⟩ := sound.fork_cases taken
  · exact exact_
  intro x block found runs c member
  by_cases new : x = w.pm.brk
  · subst x
    rw [adds.new] at found
    cases found
    simp [newBlock] at member
  obtain ⟨old, before, -, -, exited, -, children⟩ := adds.survivor new found
  rw [children, List.mem_append] at member
  rcases member with older | last
  · obtain ⟨b, foundC⟩ := Option.isSome_iff_exists.mp (exact_ x old before (exited ▸ runs) c older)
    obtain ⟨b', now, -⟩ := adds.persists (sound.coherent.ne_brk foundC) foundC
    simp [now]
  split at last
  · rw [List.mem_singleton.mp last, adds.new]
    rfl
  · simp at last

/-- The exit of a process spoils a children array exactly when process 1 lists it. -/
theorem ChildrenExact.exit_iff
    (exact_ : ChildrenExact w) (sound : Sound procs w)
    (taken : Step w (.exit pid status) after) :
    ChildrenExact after ↔ NotChildOfOne w (.exit pid status) := by
  rw [sound.childrenExact_iff] at exact_
  rw [(sound.step taken).childrenExact_iff]
  obtain ⟨p, own, entry, found, -, drops, -⟩ := sound.exit_cases taken
  constructor
  · intro now q one block entryQ running foundOne member
    rw [entry] at entryQ
    cases entryQ
    obtain ⟨entryOne, b, again, runs⟩ := (runningAt_eq_some _ _ _).mp running
    rw [foundOne] at again
    cases again
    have other : one ≠ p := fun same =>
      sound.family.not_own_child foundOne (same ▸ member)
    obtain ⟨-, left⟩ := Family.running_survives drops foundOne runs other
    -- a child of process 1 records the number 1, so nothing holds it
    have numberOne := sound.coherent.pid_of_slot entryOne foundOne
    have recorded := sound.family.lineage p one own block
      (sound.family.forked one block foundOne p member) found foundOne
    have freed : Freed w.pm p own p := .inr ⟨rfl, fun held => by
      have two := held.1
      omega⟩
    have alive := now one block left runs p member
    rw [drops.freed p freed] at alive
    cases alive
  intro safe x block foundX runs c member
  obtain ⟨other, before⟩ := Family.survivor_running drops foundX runs
  have alive := exact_ x block before runs c member
  have forked := sound.family.forked x block before c member
  -- a child of a process other than process 1 is kept for it
  have kept : ¬ Freed w.pm p own c := by
    by_cases two : 2 ≤ block.myPid
    · exact sound.family.not_freed_of_forker_running sound.coherent found forked other
        before runs two
    have listed := sound.coherent.listed x block before
    have one : block.myPid = 1 := by omega
    rintro (⟨mine, -⟩ | ⟨rfl, -⟩)
    · have forked' := sound.family.forked p own found c mine
      rw [forked] at forked'
      exact other (Option.some.inj forked')
    · refine safe c x block entry ?_ before member
      exact (runningAt_eq_some _ _ _).mpr ⟨one ▸ listed.2.2, block, before, runs⟩
  rw [drops.kept c kept]
  by_cases self : c = p
  · subst c
    simp
  · rwa [heap_setBlock_other _ _ self]

/-- Children arrays are exact in every state of a run, and no exit touches a freed block,
exactly when no child of process 1 exits while process 1 is running. -/
theorem children_exact_iff (booted : Booted procs start) (run : Run Step start history w) :
    (∀ t ∈ visited history w, ChildrenExact t) ↔
      ∀ taken ∈ history, NotChildOfOne taken.1 taken.2 := by
  have clean : ChildrenExact start := by
    rw [booted.sound.childrenExact_iff]
    intro x block found _ c member
    rw [((booted.heap_eq_some x block).mp found).2] at member
    cases member
  refine run.good_iff (Sound procs) booted.sound clean
    (fun _ _ _ sound taken => sound.step taken) ?_
  intro s event t sound exact_ taken
  cases event with
  | fork parent mem => exact iff_of_true (exact_.fork sound taken) trivial
  | exit pid status => exact exact_.exit_iff sound taken

theorem children_exact_iff_family :
    ∃ history w, Run Step bootWorld history w ∧ history.map Prod.snd = smallFamily.reverse ∧
      ((∀ t ∈ visited history w, ChildrenExact t) ↔
        ∀ taken ∈ history, NotChildOfOne taken.1 taken.2) := by
  obtain ⟨history, w, run, same⟩ := smallFamily_runs
  exact ⟨history, w, run, same, children_exact_iff booted_bootWorld run⟩

/-- One fork and one exit leave process 1 with a dangling child, and its own exit would
follow the pointer. -/
theorem child_of_one_dangles :
    ∃ w, execute World.step bootWorld [.fork 1 plenty, .exit 2 0] = some w ∧ ¬ ChildrenExact w := by
  obtain ⟨w, reached, listed, gone⟩ :
      ∃ w, execute World.step bootWorld [.fork 1 plenty, .exit 2 0] = some w ∧
        (w.pm.heap 1).map (fun block => (block.isExited, block.children.toList)) =
          some (false, [2]) ∧
        (w.pm.heap 2).isNone := execute_check (by decide +kernel)
  obtain ⟨block, found, fields⟩ := Option.map_eq_some_iff.mp listed
  obtain ⟨runs, children⟩ := Prod.mk.inj fields
  obtain ⟨history, run, -⟩ := Run.of_execute reached
  refine ⟨w, reached, fun exact_ => ?_⟩
  have alive := (booted_bootWorld.sound_of_run run).childrenExact_iff.mp exact_ 1 block found runs 2
    (by simp [children])
  rw [Option.isNone_iff_eq_none.mp gone] at alive
  cases alive

end Os161.Pid
