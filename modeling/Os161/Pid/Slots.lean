import Os161.Pid.Adding

/-!
# The entries of `pid_info_blocks` that are touched

Every access to the table goes through `get_pid_block` and `set_pid_block`, which test the pid and
then use the entry at `pid - 1`. For each function of the manager, the list of the entries it
touches, in the order it does.
-/
namespace Os161.Pid

open PidManager Foundation

/-! ### Accesses -/

/-- The entry that `get_pid_block(pid)` reads, and that `set_pid_block(pid, _)` writes. -/
def slotOf (pid : Int) : List Int := if validatePid pid then [pid - 1] else []

namespace PidManager

/-- `should_free_pid` looks at the parent of an exited process, a second time if there is one. -/
def shouldFreePidSlots (pm : PidManager) (block : PidInfoBlock) : List Int :=
  if block.isExited = false ∨ block.myParent < 2 then []
  else if pm.isPidFree block.myParent then slotOf block.myParent
  else slotOf block.myParent ++ slotOf block.myParent

end PidManager

/-- The loop of `scan_free` looks at a pid each time around. -/
def scanLoopSlots (max : Int) (free : Int → Bool) (start : Int) : Nat → Int → Bool → List Int
  | 0, _, _ => []
  | fuel + 1, i, consideredStart =>
    slotOf i ++
      if !free i && !(decide (i = start) && consideredStart) then
        scanLoopSlots max free start fuel (i % max + 1) (consideredStart || decide (i = start))
      else []

namespace PidManager

def scanFreeSlots (pm : PidManager) : List Int :=
  if pm.numberOfProcs = BitVec.ofInt 32 maxPids then []
  else scanLoopSlots maxPids pm.isPidFree pm.nextPid (maxPids.toNat + 1) pm.nextPid false

def informProcessAddSlots (mem : AddMemory) (pm : PidManager) (parentId : Int) : List Int :=
  if pm.numberOfProcs = BitVec.ofInt 32 maxPids then []
  else
    pm.scanFreeSlots ++
      match pm.scanFree with
      | .error _ => []
      | .ok i =>
        if i = -1 then []
        else
          match createPidBlock mem i parentId with
          | none => []
          | some _ =>
            slotOf parentId ++
              match pm.linkChild mem.grow parentId pm.brk with
              | .ok (some _) => slotOf i
              | _ => []

/-- One iteration of the child loop of `inform_process_exit`. -/
def reapChildSlots (pm : PidManager) (child : Ptr) : List Int :=
  match pm.deref child with
  | .error _ => []
  | .ok block =>
    pm.shouldFreePidSlots block ++
      match pm.shouldFreePid block with
      | .ok true => slotOf block.myPid
      | _ => []

def reapChildrenSlots : PidManager → List Ptr → List Int
  | _, [] => []
  | pm, child :: rest =>
    pm.reapChildSlots child ++
      match pm.reapChild child with
      | .error _ => []
      | .ok pm => reapChildrenSlots pm rest

def reapSelfSlots (pm : PidManager) (p : Ptr) (pid : Int) : List Int :=
  match pm.deref p with
  | .error _ => []
  | .ok block =>
    pm.shouldFreePidSlots block ++
      match pm.shouldFreePid block with
      | .ok true => slotOf pid
      | _ => []

def informProcessExitSlots (pm : PidManager) (pid : Int) (status : CInt) : List Int :=
  slotOf pid ++
    match pm.getPidBlock pid with
    | none => []
    | some p =>
      match pm.deref p with
      | .error _ => []
      | .ok block =>
        let marked := pm.setBlock p { block with isExited := true, exitStatus := status }
        marked.reapChildrenSlots block.children.toList ++
          match marked.reapChildren block.children.toList with
          | .error _ => []
          | .ok reaped => reaped.reapSelfSlots p pid

/-- `wait_pid` asks for the parent, and if it is the caller looks the block up again with the lock
held and once more after it has slept. -/
def waitPidSlots (pm : PidManager) (pid caller : Int) : List Int :=
  if validatePid pid = false then []
  else
    slotOf pid ++
      match pm.waitAdmits pid caller with
      | .ok true => slotOf pid ++ slotOf pid
      | _ => []

end PidManager

/-! ### Bounds -/

def InTable (i : Int) : Prop := 0 ≤ i ∧ i < maxPids

def AllInTable (slots : List Int) : Prop := ∀ i ∈ slots, InTable i

theorem allInTable_nil : AllInTable [] := by
  intro i member
  cases member

theorem allInTable_append {left right : List Int} :
    AllInTable (left ++ right) ↔ AllInTable left ∧ AllInTable right :=
  List.forall_mem_append

theorem allInTable_slotOf {pid : Int} : AllInTable (slotOf pid) ↔ pid ≠ 0 := by
  unfold slotOf
  split
  next valid =>
    have range := (validatePid_iff pid).mp valid
    simp only [AllInTable, List.mem_singleton, forall_eq, InTable]
    omega
  next invalid =>
    refine iff_of_true allInTable_nil ?_
    rintro rfl
    exact invalid rfl

/-- The pids that the table holds are in range. -/
structure Ranged (pm : PidManager) : Prop where
  pid : ∀ p block, pm.heap p = some block → 1 ≤ block.myPid
  cursor : 1 ≤ pm.nextPid

namespace Ranged

variable {pm : PidManager}

private theorem of_coherent {procs : CInt} (coherent : Coherent procs pm) : Ranged pm :=
  ⟨fun p block found => (coherent.listed p block found).1, coherent.nextInRange.1⟩

private theorem bootstrap (procs : CInt) (front : Option Ptr) :
    Ranged (pidManagerBootstrap procs front) := by
  refine ⟨fun p block found => ?_, Int.le_refl 1⟩
  cases found

private theorem setBlock (ranged : Ranged pm) {p : Ptr} {old block : PidInfoBlock}
    (found : pm.heap p = some old) (same : block.myPid = old.myPid) :
    Ranged (pm.setBlock p block) := by
  refine ⟨fun q b allocated => ?_, ranged.cursor⟩
  rcases update_some_eq_some.mp allocated with ⟨-, rfl⟩ | ⟨-, allocated⟩
  · exact same ▸ ranged.pid p old found
  · exact ranged.pid q b allocated

private theorem release (ranged : Ranged pm) (p : Ptr) (block : PidInfoBlock) :
    Ranged (pm.release p block) := by
  constructor
  · intro q b allocated
    by_cases same : q = p
    · simp [PidManager.release, destroyPidBlock, same] at allocated
    · refine ranged.pid q b ?_
      simpa [PidManager.release, destroyPidBlock, same] using allocated
  · simpa [PidManager.release, destroyPidBlock] using ranged.cursor

private theorem reapChild (ranged : Ranged pm) {child : Ptr} {after : PidManager}
    (returned : pm.reapChild child = .ok after) : Ranged after := by
  obtain ⟨block, -, ⟨-, rfl⟩ | ⟨-, rfl⟩⟩ := reapChild_cases returned
  · exact ranged
  · exact ranged.release child block

end Ranged

/-! ### One function after the other -/

/-- Parents below 2 are not looked up. -/
theorem allInTable_shouldFreePid (pm : PidManager) (block : PidInfoBlock) :
    AllInTable (pm.shouldFreePidSlots block) := by
  unfold shouldFreePidSlots
  split
  · exact allInTable_nil
  next large =>
    have parent : AllInTable (slotOf block.myParent) := allInTable_slotOf.mpr (by omega)
    split
    · exact parent
    · exact allInTable_append.mpr ⟨parent, parent⟩

/-- Whatever is free, the search stays at positive pids. -/
theorem allInTable_scanLoop {max : Int} (positive : 0 < max) (free : Int → Bool) (start : Int)
    (fuel : Nat) (i : Int) (consideredStart : Bool) (low : 1 ≤ i) :
    AllInTable (scanLoopSlots max free start fuel i consideredStart) := by
  induction fuel generalizing i consideredStart with
  | zero => exact allInTable_nil
  | succ fuel ih =>
    rw [scanLoopSlots, allInTable_append]
    refine ⟨allInTable_slotOf.mpr (by omega), ?_⟩
    split
    · have nonneg := Int.emod_nonneg i (Int.ne_of_gt positive)
      exact ih _ _ (by omega)
    · exact allInTable_nil

/-- The assertion of `scan_free` keeps what it returns in range. -/
theorem scanFree_positive {pm : PidManager} {i : Int} (scanned : pm.scanFree = .ok i)
    (some_pid : i ≠ -1) : 0 < i := by
  unfold scanFree at scanned
  dsimp only at scanned
  split at scanned
  · cases scanned
    exact absurd rfl some_pid
  split at scanned
  · cases scanned
    exact absurd rfl some_pid
  split at scanned
  next range =>
    cases scanned
    exact range.1
  · cases scanned

namespace Ranged

variable {pm : PidManager}

private theorem allInTable_add (ranged : Ranged pm) (mem : AddMemory) {parentId : Int}
    (nonzero : parentId ≠ 0) : AllInTable (pm.informProcessAddSlots mem parentId) := by
  unfold informProcessAddSlots
  split
  · exact allInTable_nil
  rw [allInTable_append]
  constructor
  · unfold scanFreeSlots
    split
    · exact allInTable_nil
    · exact allInTable_scanLoop (by decide) _ _ _ _ _ ranged.cursor
  split
  · exact allInTable_nil
  next i scanned =>
    split
    · exact allInTable_nil
    next some_pid =>
      have positive := scanFree_positive scanned some_pid
      split
      · exact allInTable_nil
      rw [allInTable_append]
      refine ⟨allInTable_slotOf.mpr nonzero, ?_⟩
      split
      · exact allInTable_slotOf.mpr (by omega)
      · exact allInTable_nil

private theorem allInTable_reapChild (ranged : Ranged pm) (child : Ptr) :
    AllInTable (pm.reapChildSlots child) := by
  unfold reapChildSlots
  split
  · exact allInTable_nil
  next block found =>
    have low := ranged.pid child block ((deref_eq_ok pm child block).mp found)
    refine allInTable_append.mpr ⟨allInTable_shouldFreePid pm block, ?_⟩
    split
    · exact allInTable_slotOf.mpr (by omega)
    · exact allInTable_nil

private theorem allInTable_reapChildren (ranged : Ranged pm) (children : List Ptr) :
    AllInTable (pm.reapChildrenSlots children) := by
  induction children generalizing pm with
  | nil => exact allInTable_nil
  | cons child rest ih =>
    rw [reapChildrenSlots, allInTable_append]
    refine ⟨ranged.allInTable_reapChild child, ?_⟩
    split
    · exact allInTable_nil
    next middle first => exact ih (ranged.reapChild first)

private theorem allInTable_exit (ranged : Ranged pm) {pid : Int} (nonzero : pid ≠ 0)
    (status : CInt) : AllInTable (pm.informProcessExitSlots pid status) := by
  have mine : AllInTable (slotOf pid) := allInTable_slotOf.mpr nonzero
  rw [informProcessExitSlots, allInTable_append]
  refine ⟨mine, ?_⟩
  split
  · exact allInTable_nil
  next p entry =>
    split
    · exact allInTable_nil
    next block found =>
      have marked : Ranged (pm.setBlock p { block with isExited := true, exitStatus := status }) :=
        ranged.setBlock ((deref_eq_ok pm p block).mp found) rfl
      refine allInTable_append.mpr ⟨marked.allInTable_reapChildren _, ?_⟩
      split
      · exact allInTable_nil
      next reaped loop =>
        unfold reapSelfSlots
        split
        · exact allInTable_nil
        refine allInTable_append.mpr ⟨allInTable_shouldFreePid _ _, ?_⟩
        split
        · exact mine
        · exact allInTable_nil

end Ranged

private theorem allInTable_wait {pm : PidManager} {pid : Int} (nonzero : pid ≠ 0) (caller : Int) :
    AllInTable (pm.waitPidSlots pid caller) := by
  have mine : AllInTable (slotOf pid) := allInTable_slotOf.mpr nonzero
  unfold waitPidSlots
  split
  · exact allInTable_nil
  refine allInTable_append.mpr ⟨mine, ?_⟩
  split
  · exact allInTable_append.mpr ⟨mine, mine⟩
  · exact allInTable_nil

/-- The accesses of all functions of the manager for `pid`: the three on the table, of which
`get_parent` and `get_exit_status` use the first, and the others. -/
def touched (pm : PidManager) (pid caller : Int) (status : CInt) (mem : AddMemory) : List Int :=
  slotOf pid ++ pm.waitPidSlots pid caller ++ pm.informProcessExitSlots pid status ++
    pm.informProcessAddSlots mem pid

/-- No process has this number, for any function of the manager. -/
structure Nonexistent (pm : PidManager) (pid : Int) : Prop where
  getParent : pm.getParent pid = .ok (-1)
  getExitStatus : pm.getExitStatus pid = .ok (-1)
  /-- `wait_pid` returns `EINVAL`. -/
  waitPid : ∀ caller, pm.waitAdmits pid caller = .ok false
  informProcessExit : ∀ status, pm.informProcessExit pid status = .ok (.EINVAL, pm)
  /-- `inform_process_add` finds no parent block. -/
  parent : ∀ grow child, pm.linkChild grow pid child = .ok (some pm)

private theorem nonexistent_of_invalid (pm : PidManager) {pid : Int}
    (outside : pid < 0 ∨ maxPids < pid) : Nonexistent pm pid := by
  have invalid : validatePid pid = false := by
    simp only [validatePid, Bool.not_eq_false', Bool.or_eq_true, decide_eq_true_eq]
    exact outside
  have none : pm.getPidBlock pid = none := by
    rw [getPidBlock, if_neg (by simp [invalid])]
  constructor
  · rw [PidManager.getParent, none]
  · rw [PidManager.getExitStatus, none]
  · intro caller
    rw [waitAdmits, if_pos invalid]
  · intro status
    rw [PidManager.informProcessExit, none]
  · intro grow child
    rw [linkChild, none]

/-- In every table, all accesses for a pid are in bounds exactly if it is not 0, and no process has
a number that the test of `validate_pid` refuses. -/
theorem slots_in_bounds {procs : CInt} {pm : PidManager}
    (reached : (∃ front, pm = pidManagerBootstrap procs front) ∨ Reached procs pm) (pid : Int) :
    ((∀ caller status mem, AllInTable (touched pm pid caller status mem)) ↔ pid ≠ 0) ∧
      (pid < 0 ∨ maxPids < pid → Nonexistent pm pid) := by
  have ranged : Ranged pm := by
    rcases reached with ⟨front, rfl⟩ | reached
    · exact .bootstrap procs front
    · exact .of_coherent reached.settled.coherent
  refine ⟨⟨fun all => ?_, fun nonzero caller status mem => ?_⟩, nonexistent_of_invalid pm⟩
  · have here := all 0 0 plenty
    simp only [touched, allInTable_append] at here
    exact allInTable_slotOf.mp here.1.1.1
  · simp only [touched, allInTable_append]
    exact ⟨⟨⟨allInTable_slotOf.mpr nonzero, allInTable_wait nonzero caller⟩,
      ranged.allInTable_exit nonzero status⟩, ranged.allInTable_add mem nonzero⟩

theorem slots_in_bounds_boot :
    (∀ caller status mem, AllInTable (touched bootWorld.pm 100 caller status mem)) ∧
      Nonexistent bootWorld.pm 101 := by
  have reached : Reached 0 bootWorld.pm := ⟨none, plenty, _, [], by rfl, .start⟩
  exact ⟨(slots_in_bounds (.inr reached) 100).1.mpr (by decide),
    (slots_in_bounds (.inr reached) 101).2 (by decide)⟩

/-- The call of `thread_bootstrap` reads the word in front of the table. -/
theorem slots_in_bounds_zero :
    -1 ∈ (pidManagerBootstrap 0 none).informProcessAddSlots plenty 0 ∧ slotOf 0 = [-1] := by
  constructor
  · decide +kernel
  · decide

/-! ### `destroy_pid_manager` -/

/-- The loop of `destroy_pid_manager` over these pids, with the blocks it hands to
`destroy_pid_block`. -/
def PidManager.destroyBlocks : PidManager → List Int → PidManager × List Ptr
  | pm, [] => (pm, [])
  | pm, i :: rest =>
    match pm.getPidBlock i with
    | none => pm.destroyBlocks rest
    | some block =>
      let (after, destroyed) := (pm.destroyPidBlock block).destroyBlocks rest
      (after, block :: destroyed)

def loopPids : List Int := (List.range maxPids.toNat).map (↑·)

def PidManager.destroyPidManager (pm : PidManager) : PidManager × List Ptr :=
  pm.destroyBlocks loopPids

def destroyPidManagerSlots : List Int := loopPids.flatMap slotOf

/-- The blocks in the table, by their pids. -/
def PidManager.blocks (pm : PidManager) : List Ptr :=
  ((List.range maxPids.toNat).map fun i => (i : Int) + 1).filterMap pm.getPidBlock

private theorem destroyBlocks_eq (pm : PidManager) (pids : List Int) :
    (pm.destroyBlocks pids).2 = pids.filterMap pm.getPidBlock := by
  induction pids generalizing pm with
  | nil => rfl
  | cons i rest ih =>
    rw [destroyBlocks]
    cases found : pm.getPidBlock i with
    | none => exact (ih pm).trans (List.filterMap_cons_none found).symm
    | some block =>
      exact (congrArg (block :: ·) (ih _)).trans (List.filterMap_cons_some found).symm

/-- The loop begins at pid 0, whose entry is in front of the table, and ends before the last. -/
theorem destroy_pid_manager_iff (pm : PidManager) :
    (pm.getPidBlock 0 = none →
        (pm.destroyPidManager.2 = pm.blocks ↔ pm.getPidBlock maxPids = none)) ∧
      ∃ rest, destroyPidManagerSlots = -1 :: rest ∧ AllInTable rest := by
  have first : loopPids = 0 :: loopPids.tail := rfl
  have last : (List.range maxPids.toNat).map (fun i => (i : Int) + 1) =
      loopPids.tail ++ [maxPids] :=
    rfl
  refine ⟨fun front => ?_, loopPids.tail.flatMap slotOf, rfl, ?_⟩
  · rw [destroyPidManager, destroyBlocks_eq, first, List.filterMap_cons_none front, blocks, last,
      List.filterMap_append, List.self_eq_append_right]
    simp
  · intro i member
    obtain ⟨pid, inside, here⟩ := List.mem_flatMap.mp member
    have positive : ∀ pid ∈ loopPids.tail, pid ≠ 0 := by decide
    exact allInTable_slotOf.mpr (positive pid inside) i here

/-- The block of the boot process is destroyed; in a full table one block is left. -/
theorem destroy_pid_manager_iff_full :
    bootWorld.pm.destroyPidManager.2 = bootWorld.pm.blocks ∧
      ∃ full, Reached 0 full ∧ full.destroyPidManager.2 ≠ full.blocks := by
  obtain ⟨full, reached, -, front, last⟩ := exists_full
  exact ⟨((destroy_pid_manager_iff bootWorld.pm).1 rfl).mpr rfl, full, reached,
    mt ((destroy_pid_manager_iff full).1 front).mp last⟩

/-- Already in the table of the boot process, an entry outside is read. -/
theorem destroy_pid_manager_outside :
    Reached 0 bootWorld.pm ∧ ¬ AllInTable destroyPidManagerSlots :=
  ⟨⟨none, plenty, _, [], by rfl, .start⟩, fun all => absurd (all (-1) (.head _)).1 (by decide)⟩

end Os161.Pid
