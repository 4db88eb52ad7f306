import Os161.Pid.Manager
import Mathlib.Data.Finset.Card

/-!
# Coherence of the process table

A table is coherent when its entries and the allocated blocks match one to one:
the block in the slot of a pid carries that pid, and every allocated block sits in
the slot of its own pid. Whatever `inform_process_add` and `inform_process_exit`
do, they do through four primitive changes, each of which keeps the table coherent.
-/
namespace Os161.Pid

open PidManager

/-! ### Reading after writing -/

theorem validatePid_iff (pid : Int) : validatePid pid = true ↔ 0 ≤ pid ∧ pid ≤ maxPids := by
  simp [validatePid]

namespace PidManager

theorem getPidBlock_setPidBlock (pm : PidManager) (pid other : Int) (block : Option Ptr)
    (valid : validatePid pid = true) :
    (pm.setPidBlock pid block).getPidBlock other =
      if other = pid then block else pm.getPidBlock other := by
  simp only [setPidBlock, valid, getPidBlock, ite_true]
  by_cases same : other = pid
  · simp [same, valid]
  · simp [same]

@[simp] theorem getPidBlock_setBlock (pm : PidManager) (p : Ptr) (block : PidInfoBlock)
    (pid : Int) : (pm.setBlock p block).getPidBlock pid = pm.getPidBlock pid := rfl

@[simp] theorem brk_setBlock (pm : PidManager) (p : Ptr) (block : PidInfoBlock) :
    (pm.setBlock p block).brk = pm.brk := rfl

@[simp] theorem heap_setBlock_same (pm : PidManager) (p : Ptr) (block : PidInfoBlock) :
    (pm.setBlock p block).heap p = some block := by
  simp [setBlock]

theorem heap_setBlock_other (pm : PidManager) {p q : Ptr} (block : PidInfoBlock) (other : q ≠ p) :
    (pm.setBlock p block).heap q = pm.heap q := by
  simp [setBlock, other]

section

variable (pm : PidManager) (pid : Int) (block : Option Ptr)

include pm pid block

@[simp] theorem heap_setPidBlock : (pm.setPidBlock pid block).heap = pm.heap := by
  unfold setPidBlock
  split <;> rfl

@[simp] theorem numberOfProcs_setPidBlock :
    (pm.setPidBlock pid block).numberOfProcs = pm.numberOfProcs := by
  unfold setPidBlock
  split <;> rfl

@[simp] theorem brk_setPidBlock : (pm.setPidBlock pid block).brk = pm.brk := by
  unfold setPidBlock
  split <;> rfl

@[simp] theorem nextPid_setPidBlock : (pm.setPidBlock pid block).nextPid = pm.nextPid := by
  unfold setPidBlock
  split <;> rfl

@[simp] theorem lock_setPidBlock : (pm.setPidBlock pid block).lock = pm.lock := by
  unfold setPidBlock
  split <;> rfl

end

theorem deref_eq_ok (pm : PidManager) (p : Ptr) (block : PidInfoBlock) :
    pm.deref p = .ok block ↔ pm.heap p = some block := by
  unfold deref
  cases pm.heap p <;> simp

def pids : Finset Int := (Finset.range maxPids.toNat).image fun n : Nat => (n : Int) + 1

theorem mem_pids (pid : Int) : pid ∈ pids ↔ 1 ≤ pid ∧ pid ≤ maxPids := by
  simp only [pids, Finset.mem_image, Finset.mem_range, maxPids]
  constructor
  · rintro ⟨n, small, rfl⟩
    omega
  · rintro ⟨low, high⟩
    exact ⟨(pid - 1).toNat, by omega, by omega⟩

/-- The pids whose entry of `pid_info_blocks` is not NULL. -/
def occupied (pm : PidManager) : Finset Int :=
  pids.filter fun pid => (pm.getPidBlock pid).isSome

end PidManager

/-! ### What coherence is -/

/-- `procs` is the value `number_of_procs` had before the first process was added. -/
structure Coherent (procs : CInt) (pm : PidManager) : Prop where
  /-- An entry points to an allocated block that carries the entry's pid. -/
  filled : ∀ pid p, pm.getPidBlock pid = some p → ∃ block, pm.heap p = some block ∧
    block.myPid = pid
  /-- Every allocated block is in the table. -/
  listed : ∀ p block, pm.heap p = some block →
    1 ≤ block.myPid ∧ block.myPid ≤ maxPids ∧ pm.getPidBlock block.myPid = some p
  /-- Addresses from `brk` on are unused. -/
  fresh : ∀ p block, pm.heap p = some block → p < pm.brk
  counted : pm.numberOfProcs - procs = BitVec.ofNat 32 pm.occupied.card
  nextInRange : 1 ≤ pm.nextPid ∧ pm.nextPid ≤ maxPids

namespace Coherent

variable {procs : CInt} {pm : PidManager}

section

variable (coherent : Coherent procs pm)

include coherent

theorem pid_of_slot {pid : Int} {p : Ptr} {block : PidInfoBlock}
    (entry : pm.getPidBlock pid = some p) (found : pm.heap p = some block) : block.myPid = pid := by
  obtain ⟨b, again, number⟩ := coherent.filled pid p entry
  rw [found] at again
  cases again
  exact number

theorem slot_inj {left right : Int} {p : Ptr} (first : pm.getPidBlock left = some p)
    (second : pm.getPidBlock right = some p) : left = right := by
  obtain ⟨block, found, mine⟩ := coherent.filled left p first
  rw [← mine, coherent.pid_of_slot second found]

/-- The next block will be none of the allocated ones. -/
theorem ne_brk {p : Ptr} {block : PidInfoBlock} (found : pm.heap p = some block) : p ≠ pm.brk :=
  Nat.ne_of_lt (coherent.fresh p block found)

theorem mem_occupied (pid : Int) : pid ∈ pm.occupied ↔ (pm.getPidBlock pid).isSome := by
  simp only [occupied, Finset.mem_filter, mem_pids, and_iff_right_iff_imp]
  intro filled
  obtain ⟨p, found⟩ := Option.isSome_iff_exists.mp filled
  obtain ⟨block, allocated, same⟩ := coherent.filled pid p found
  have range := coherent.listed p block allocated
  rw [same] at range
  exact ⟨range.1, range.2.1⟩

/-- Replacing a block by one with the same pid: marking it exited, or adding a child to it. -/
theorem setBlock {p : Ptr} {old block : PidInfoBlock} (found : pm.heap p = some old)
    (same : block.myPid = old.myPid) : Coherent procs (pm.setBlock p block) := by
  constructor
  case filled =>
    intro pid q entry
    obtain ⟨b, allocated, mine⟩ := coherent.filled pid q entry
    by_cases here : q = p
    · subst q
      rw [found] at allocated
      cases allocated
      exact ⟨block, heap_setBlock_same pm p block, same.trans mine⟩
    · exact ⟨b, (heap_setBlock_other pm block here).trans allocated, mine⟩
  case listed =>
    intro q b allocated
    by_cases here : q = p
    · subst q
      rw [heap_setBlock_same] at allocated
      cases allocated
      rw [same]
      exact coherent.listed p old found
    · exact coherent.listed q b (heap_setBlock_other pm block here ▸ allocated)
  case fresh =>
    intro q b allocated
    by_cases here : q = p
    · subst q
      exact coherent.fresh p old found
    · exact coherent.fresh q b (heap_setBlock_other pm block here ▸ allocated)
  -- the entries, the count and the cursor are not touched
  case counted => exact coherent.counted
  case nextInRange => exact coherent.nextInRange

end

end Coherent

/-- The block `p` leaves the table and is freed. Both places in `inform_process_exit` that
free a block do this, in different orders. -/
def PidManager.release (pm : PidManager) (p : Ptr) (block : PidInfoBlock) : PidManager :=
  { (pm.setPidBlock block.myPid none).destroyPidBlock p with
    numberOfProcs := pm.numberOfProcs - 1 }

namespace Coherent

variable {procs : CInt} {pm : PidManager} {p : Ptr} {block : PidInfoBlock}

section

variable (coherent : Coherent procs pm) (found : pm.heap p = some block)

include coherent found

theorem valid_of_listed : validatePid block.myPid = true := by
  have range := coherent.listed p block found
  exact (validatePid_iff _).mpr ⟨by omega, range.2.1⟩

theorem getPidBlock_release (pid : Int) :
    (pm.release p block).getPidBlock pid =
      if pm.getPidBlock pid = some p then none else pm.getPidBlock pid := by
  have shape : (pm.release p block).getPidBlock pid =
      (pm.setPidBlock block.myPid none).getPidBlock pid := rfl
  rw [shape, getPidBlock_setPidBlock _ _ _ _ (coherent.valid_of_listed found)]
  by_cases here : pid = block.myPid
  · simp [here, (coherent.listed p block found).2.2]
  · rw [if_neg here, if_neg]
    intro entry
    exact here (coherent.slot_inj entry (coherent.listed p block found).2.2)

private theorem occupied_release :
    (pm.release p block).occupied = pm.occupied.erase block.myPid := by
  have mine := (coherent.listed p block found).2.2
  ext pid
  simp only [occupied, Finset.mem_filter, Finset.mem_erase, getPidBlock_release coherent found]
  by_cases here : pid = block.myPid
  · simp [here, mine]
  · have other : pm.getPidBlock pid ≠ some p := fun entry => here (coherent.slot_inj entry mine)
    simp [here, other]

theorem release : Coherent procs (pm.release p block) := by
  have heap : ∀ q, (pm.release p block).heap q = if q = p then none else pm.heap q := by
    intro q
    simp [PidManager.release, destroyPidBlock, Function.update_apply]
  constructor
  case filled =>
    intro pid q entry
    rw [getPidBlock_release coherent found] at entry
    split at entry
    · cases entry
    next other =>
      have apart : q ≠ p := fun same => other (same ▸ entry)
      simpa [heap, apart] using coherent.filled pid q entry
  case listed =>
    intro q b allocated
    rw [heap] at allocated
    split at allocated
    · cases allocated
    next apart =>
      have kept := coherent.listed q b allocated
      refine ⟨kept.1, kept.2.1, ?_⟩
      rw [getPidBlock_release coherent found, if_neg, kept.2.2]
      rw [kept.2.2]
      exact fun same => apart (Option.some.inj same)
  case fresh =>
    intro q b allocated
    rw [heap] at allocated
    split at allocated
    · cases allocated
    · simpa [PidManager.release, destroyPidBlock] using coherent.fresh q b allocated
  case counted =>
    -- one entry and one unit of the count go together; `int` arithmetic wraps
    have member : block.myPid ∈ pm.occupied := by
      rw [coherent.mem_occupied, (coherent.listed p block found).2.2]
      rfl
    have size : pm.occupied.card = (pm.occupied.erase block.myPid).card + 1 :=
      (Finset.card_erase_add_one member).symm
    have count := coherent.counted
    rw [occupied_release coherent found]
    have down : (pm.release p block).numberOfProcs = pm.numberOfProcs - 1 := rfl
    bv_omega
  case nextInRange => simpa [PidManager.release, destroyPidBlock] using coherent.nextInRange

end

theorem getPidBlock_claim (pm : PidManager) (i : Int) (block : PidInfoBlock)
    (valid : validatePid i = true) (pid : Int) :
    (pm.claim i block).getPidBlock pid = if pid = i then some pm.brk else pm.getPidBlock pid := by
  have shape : (pm.claim i block).getPidBlock pid =
      (pm.setPidBlock i (some pm.brk)).getPidBlock pid := rfl
  rw [shape, getPidBlock_setPidBlock _ _ _ _ valid]

theorem heap_claim (pm : PidManager) (i : Int) (block : PidInfoBlock) (q : Ptr) :
    (pm.claim i block).heap q = if q = pm.brk then some block else pm.heap q := by
  simp [claim, PidManager.setBlock, Function.update_apply]

theorem occupied_claim (coherent : Coherent procs pm) {i : Int} (low : 1 ≤ i) (high : i ≤ maxPids) :
    (pm.claim i block).occupied = insert i pm.occupied := by
  have valid : validatePid i = true := (validatePid_iff i).mpr ⟨by omega, high⟩
  ext pid
  rw [Finset.mem_insert, coherent.mem_occupied]
  simp only [occupied, Finset.mem_filter, mem_pids, getPidBlock_claim pm i block valid]
  by_cases here : pid = i
  · simp [here, low, high]
  · simp only [here, ite_false, false_or]
    rw [← coherent.mem_occupied]
    simp [occupied, mem_pids]

theorem claim (coherent : Coherent procs pm) {i : Int} (low : 1 ≤ i) (high : i ≤ maxPids)
    (free : pm.getPidBlock i = none) (mine : block.myPid = i) :
    Coherent procs (pm.claim i block) := by
  have valid : validatePid i = true := (validatePid_iff i).mpr ⟨by omega, high⟩
  constructor
  case filled =>
    intro pid q entry
    rw [getPidBlock_claim pm i block valid] at entry
    split at entry
    next here =>
      cases entry
      exact ⟨block, by simp [heap_claim], mine.trans here.symm⟩
    next apart =>
      obtain ⟨b, allocated, same⟩ := coherent.filled pid q entry
      exact ⟨b, by simpa [heap_claim, coherent.ne_brk allocated] using allocated, same⟩
  case listed =>
    intro q b allocated
    rw [heap_claim] at allocated
    rw [getPidBlock_claim pm i block valid]
    split at allocated
    next here =>
      cases allocated
      exact ⟨by omega, by omega, by simp [mine, here]⟩
    next apart =>
      have kept := coherent.listed q b allocated
      refine ⟨kept.1, kept.2.1, ?_⟩
      rw [if_neg, kept.2.2]
      -- no other block has the new pid, for its entry was free
      intro clash
      rw [← clash, kept.2.2] at free
      cases free
  case fresh =>
    intro q b allocated
    rw [heap_claim] at allocated
    split at allocated
    next here => exact here ▸ Nat.lt_succ_self _
    · exact Nat.lt_succ_of_lt (coherent.fresh q b allocated)
  case counted =>
    have absent : i ∉ pm.occupied := by
      rw [coherent.mem_occupied, free]
      simp
    have up : (pm.claim i block).numberOfProcs = pm.numberOfProcs + 1 := by
      simp [PidManager.claim]
    have count := coherent.counted
    have swap : pm.numberOfProcs + 1 - procs = pm.numberOfProcs - procs + 1 := by bv_omega
    rw [occupied_claim coherent low high, Finset.card_insert_of_notMem absent, up, swap, count,
      BitVec.ofNat_add]
    rfl
  case nextInRange =>
    have step : (pm.claim i block).nextPid = i % maxPids + 1 := rfl
    have bound : (0 : Int) < maxPids := by decide
    exact ⟨by have := Int.emod_nonneg i (ne_of_gt bound); omega,
      by have := Int.emod_lt_of_pos i bound; omega⟩

end Coherent

/-! ### The cyclic search -/

/-- The pid the search looks at after `k` steps from `start`. -/
def scanPos (max start : Int) (k : Nat) : Int := (start - 1 + k) % max + 1

theorem scanPos_zero {max start : Int} (low : 1 ≤ start) (high : start ≤ max) :
    scanPos max start 0 = start := by
  have inside : (start - 1) % max = start - 1 := Int.emod_eq_of_lt (by omega) (by omega)
  simp [scanPos, inside]

private theorem scanPos_succ (max start : Int) (k : Nat) :
    scanPos max start k % max + 1 = scanPos max start (k + 1) := by
  simp [scanPos, Int.add_assoc]

theorem scanPos_range {max : Int} (start : Int) (k : Nat) (positive : 1 ≤ max) :
    1 ≤ scanPos max start k ∧ scanPos max start k ≤ max := by
  have nonneg := Int.emod_nonneg (start - 1 + k) (show max ≠ 0 by omega)
  have below := Int.emod_lt_of_pos (start - 1 + k) (show 0 < max by omega)
  exact ⟨by unfold scanPos; omega, by unfold scanPos; omega⟩

theorem scanPos_max {max start : Int} (low : 1 ≤ start) (high : start ≤ max) :
    scanPos max start max.toNat = start := by
  have wrap : (start - 1 + max) % max = start - 1 := by
    rw [Int.add_emod_right]
    exact Int.emod_eq_of_lt (by omega) (by omega)
  rw [scanPos, Int.toNat_of_nonneg (by omega)]
  omega

/-- One turn around the table is enough: with fuel for it, the loop of `scan_free` stops
at a free pid or back at its start, and every pid it has passed is taken. -/
theorem scanLoop_stops {max start : Int} (free : Int → Bool) (low : 1 ≤ start)
    (high : start ≤ max) (fuel k : Nat) (turn : max.toNat < fuel + k) (within : k ≤ max.toNat) :
    ∃ j ≤ max.toNat, scanLoop max free start fuel (scanPos max start k) (decide (0 < k)) =
        (scanPos max start j, decide (0 < j)) ∧
      (∀ m, k ≤ m → m < j → free (scanPos max start m) = false) ∧
      (free (scanPos max start j) = true ∨ scanPos max start j = start ∧ 0 < j) := by
  -- `fuel + k` stays above the number of pids, so the fuel outlasts the turn
  induction fuel generalizing k with
  | zero => omega
  | succ fuel ih =>
    simp only [scanLoop]
    split
    next more =>
      -- the flag is raised by the first iteration and stays up
      have flag : (decide (0 < k) || decide (scanPos max start k = start)) =
          decide (0 < k + 1) := by
        by_cases first : k = 0
        · simp [first, scanPos_zero low high]
        · simp [Nat.pos_of_ne_zero first]
      rw [flag, scanPos_succ]
      obtain ⟨j, bound, stopped, passed, why⟩ := ih (k + 1) (by omega) (by
        -- after a whole turn the search is back at its start with the flag up, and stops
        by_contra last
        have full : k = max.toNat := by omega
        have positive : 0 < k := by omega
        simp [full ▸ scanPos_max low high, positive] at more)
      refine ⟨j, bound, stopped, fun m from_k below => ?_, why⟩
      rcases Nat.eq_or_lt_of_le from_k with rfl | later
      · simp only [Bool.and_eq_true, Bool.not_eq_true'] at more
        exact more.1
      · exact passed m later below
    next stop =>
      refine ⟨k, within, rfl, fun m from_k below => absurd below (by omega), ?_⟩
      by_cases freed : free (scanPos max start k) = true
      · exact .inl freed
      · simpa [freed, Nat.pos_iff_ne_zero] using stop

/-- A search that comes back to its start has passed every pid. -/
theorem exists_scanPos {max start pid : Int} {j : Nat} (low : 1 ≤ start) (high : start ≤ max)
    (back : scanPos max start j = start) (some : 0 < j) (first : 1 ≤ pid) (last : pid ≤ max) :
    ∃ m < j, scanPos max start m = pid := by
  -- the pid is met within one turn, and `j` is at least one
  have turn : max ≤ j := by
    have same : (start - 1 + j) % max = (start - 1) % max := by
      rw [Int.emod_eq_of_lt (a := start - 1) (by omega) (by omega)]
      unfold scanPos at back
      omega
    have divides : max ∣ (j : Int) := by
      have difference := Int.emod_eq_emod_iff_emod_sub_eq_zero.mp same
      rw [show start - 1 + (j : Int) - (start - 1) = j by omega] at difference
      exact Int.dvd_of_emod_eq_zero difference
    exact Int.le_of_dvd (by omega) divides
  refine ⟨((pid - start) % max).toNat, ?_, ?_⟩
  · have below := Int.emod_lt_of_pos (pid - start) (show 0 < max by omega)
    omega
  have nonneg := Int.emod_nonneg (pid - start) (show max ≠ 0 by omega)
  rw [scanPos, Int.toNat_of_nonneg nonneg, Int.add_emod_emod,
    Int.emod_eq_of_lt (by omega) (by omega)]
  omega

/-- `scan_free` for a table of `max` pids. -/
def scanTable (max : Int) (free : Int → Bool) (procs : CInt) (start : Int) (fuel : Nat) :
    Except Fault Int :=
  if procs = BitVec.ofInt 32 max then .ok (-1)
  else
    let (i, consideredStart) := scanLoop max free start fuel start false
    if i = start ∧ consideredStart then .ok (-1)
    else if i > 0 ∧ i ≤ max then .ok i
    else .error .assertion

section

variable {max start : Int} {procs : CInt} {fuel : Nat} (free : Int → Bool) (low : 1 ≤ start)
  (high : start ≤ max) (room : procs ≠ BitVec.ofInt 32 max) (turn : max.toNat < fuel)

include low high room turn

theorem scanTable_stops : ∃ j ≤ max.toNat, (∀ m < j, free (scanPos max start m) = false) ∧
    (scanTable max free procs start fuel = .ok (scanPos max start j) ∧
        free (scanPos max start j) = true ∨
      scanTable max free procs start fuel = .ok (-1) ∧ scanPos max start j = start ∧ 0 < j) := by
  obtain ⟨j, bound, at_j, passed, why⟩ := scanLoop_stops free low high fuel 0 turn (Nat.zero_le _)
  rw [scanPos_zero low high] at at_j
  simp only [Nat.lt_irrefl, decide_false] at at_j
  have range := scanPos_range start j (show 1 ≤ max by omega)
  refine ⟨j, bound, fun m => passed m (Nat.zero_le m), ?_⟩
  simp only [scanTable, if_neg room, at_j]
  split
  next stop => exact .inr ⟨rfl, stop.1, of_decide_eq_true stop.2⟩
  next go =>
    -- the assertion on the range holds
    rw [if_pos ⟨by omega, range.2⟩]
    exact .inl ⟨rfl, why.resolve_right fun back => go (back.imp id decide_eq_true)⟩

/-- The search is over after one turn, with the first free pid from the start on, or with none if
there is none. -/
theorem scan_free_next_fit :
    (∃ k < max.toNat, scanTable max free procs start fuel = .ok (scanPos max start k) ∧
      free (scanPos max start k) = true ∧ ∀ m < k, free (scanPos max start m) = false) ∨
    (scanTable max free procs start fuel = .ok (-1) ∧
      ∀ pid, 1 ≤ pid → pid ≤ max → free pid = false) := by
  obtain ⟨j, bound, passed, ⟨found, here⟩ | ⟨none, back, some⟩⟩ :=
    scanTable_stops free low high room turn
  · refine .inl ⟨j, Nat.lt_of_le_of_ne bound ?_, found, here, passed⟩
    -- a whole turn ends at the start, which is free or has been passed
    rintro rfl
    have first := passed 0 (by omega)
    rw [scanPos_zero low high, ← scanPos_max low high, here] at first
    cases first
  · refine .inr ⟨none, fun pid one last => ?_⟩
    obtain ⟨m, before, rfl⟩ := exists_scanPos low high back some one last
    exact passed m before

end

/-- From pid 2 around to pid 1. -/
theorem scan_free_next_fit_around :
    scanTable 3 (fun i => decide (i = 1)) 2 2 4 = .ok 1 := by
  rcases @scan_free_next_fit 3 2 2 4 (fun i => decide (i = 1)) (by decide) (by decide) (by decide)
    (by decide) with ⟨k, -, found, here, -⟩ | ⟨-, taken⟩
  · rw [found, of_decide_eq_true here]
  · exact absurd (taken 1 (by decide) (by decide)) (by decide)

namespace Coherent

variable {procs : CInt} {pm : PidManager}

/-- `scan_free` passes its assertion, and the pid it returns is free. If it returns none, the
counter says that the table is full or it is. -/
theorem scanFree_cases (coherent : Coherent procs pm) :
    (pm.scanFree = .ok (-1) ∧
      (pm.numberOfProcs = BitVec.ofInt 32 maxPids ∨ pm.occupied = pids)) ∨
    ∃ i, pm.scanFree = .ok i ∧ pm.numberOfProcs ≠ BitVec.ofInt 32 maxPids ∧
      1 ≤ i ∧ i ≤ maxPids ∧ pm.getPidBlock i = none := by
  obtain ⟨low, high⟩ := coherent.nextInRange
  have scan : pm.scanFree = scanTable maxPids pm.isPidFree pm.numberOfProcs pm.nextPid
    (maxPids.toNat + 1) := rfl
  rw [scan]
  by_cases full : pm.numberOfProcs = BitVec.ofInt 32 maxPids
  · exact .inl ⟨if_pos full, .inl full⟩
  obtain ⟨j, -, passed, ⟨found, free⟩ | ⟨none, back, some⟩⟩ :=
    scanTable_stops pm.isPidFree low high full (Nat.lt_succ_self _)
  · have range := scanPos_range pm.nextPid j (show (1 : Int) ≤ maxPids by decide)
    exact .inr ⟨_, found, full, range.1, range.2, by simpa [isPidFree] using free⟩
  refine .inl ⟨none, .inr (Finset.filter_true_of_mem fun pid member => ?_)⟩
  obtain ⟨first, last⟩ := (mem_pids pid).mp member
  obtain ⟨m, before, rfl⟩ := exists_scanPos low high back some first last
  simpa [isPidFree, Option.isSome_iff_ne_none] using passed m before

theorem scanFree_spec (coherent : Coherent procs pm) :
    ∃ i, pm.scanFree = .ok i ∧
      (i ≠ -1 → 1 ≤ i ∧ i ≤ maxPids ∧ pm.getPidBlock i = none) := by
  rcases coherent.scanFree_cases with ⟨none, -⟩ | ⟨i, found, -, range⟩
  · exact ⟨-1, none, fun other => absurd rfl other⟩
  · exact ⟨i, found, fun _ => range⟩

end Coherent

/-! ### What the two operations can do -/

/-- The block `create_pid_block` fills in. -/
def newBlock (pid parent : Int) : PidInfoBlock where
  myPid := pid
  myParent := parent
  children := .create
  isExited := false
  exitStatus := 0

variable {parentId : Int}

theorem linkChild_cases {pm linked : PidManager} {grow : Option (Nat → Ptr)}
    {child : Ptr} (returned : pm.linkChild grow parentId child = .ok (some linked)) :
    (pm.getPidBlock parentId = none ∧ linked = pm) ∨
    (∃ p parent, pm.getPidBlock parentId = some p ∧ pm.heap p = some parent ∧
      (parent.children.add grow child).result = .success ∧
      linked = pm.setBlock p
        { parent with children := (parent.children.add grow child).state }) := by
  unfold PidManager.linkChild at returned
  split at returned
  next absent =>
    cases returned
    exact .inl ⟨absent, rfl⟩
  next p present =>
    cases found : pm.deref p with
    | error fault => simp [found] at returned
    | ok parent =>
      simp only [found] at returned
      split at returned
      next added =>
        cases returned
        exact .inr ⟨p, parent, present, (deref_eq_ok pm p parent).mp found, added, rfl⟩
      next => cases returned

/-- How an `inform_process_add` can end, by how far it got. -/
inductive AddEnds (pm : PidManager) (mem : AddMemory) (me : Ptr) (parentId : Int) : AddReply → Prop
  | full (full : pm.numberOfProcs = BitVec.ofInt 32 maxPids) :
    AddEnds pm mem me parentId ⟨.EAGAIN, 0, pm⟩
  /-- The caller held the lock that is released here. -/
  | blockless (missing : ¬ (mem.block ∧ mem.children ∧ mem.cv ∧ mem.cvName))
      (held : pm.lock = some me) : AddEnds pm mem me parentId ⟨.ENOMEM, 0, { pm with lock := none }⟩
  | unlinked (link : pm.linkChild mem.grow parentId pm.brk = .ok none) :
      AddEnds pm mem me parentId ⟨.ENOMEM, 0, pm⟩
  | added {i : Int} {linked : PidManager} (room : pm.numberOfProcs ≠ BitVec.ofInt 32 maxPids)
      (granted : mem.block ∧ mem.children ∧ mem.cv ∧ mem.cvName)
      (scanned : pm.scanFree = .ok i) (some_pid : i ≠ -1)
      (link : pm.linkChild mem.grow parentId pm.brk = .ok (some linked)) :
      AddEnds pm mem me parentId ⟨.success, i, linked.claim i (newBlock i parentId)⟩

theorem informProcessAdd_ends {pm : PidManager} {mem : AddMemory} {me : Ptr}
    {reply : AddReply} (returned : pm.informProcessAdd mem me parentId = .ok reply) :
    AddEnds pm mem me parentId reply := by
  unfold informProcessAdd at returned
  split at returned
  next full =>
    cases returned
    exact .full full
  next room =>
    cases scanned : pm.scanFree with
    | error fault => simp [scanned] at returned
    | ok i =>
      simp only [scanned, createPidBlock] at returned
      split at returned
      · cases returned
      next some_pid =>
        by_cases granted : mem.block ∧ mem.children ∧ mem.cv ∧ mem.cvName
        · rw [if_pos granted] at returned
          cases link : pm.linkChild mem.grow parentId pm.brk with
          | error fault => simp [link] at returned
          | ok outcome =>
            simp only [link] at returned
            cases outcome with
            | none =>
              cases returned
              exact .unlinked link
            | some linked =>
              cases returned
              exact .added room granted scanned some_pid link
        rw [if_neg granted] at returned
        simp only at returned
        split at returned
        next held =>
          cases returned
          exact .blockless granted held
        next => cases returned

/-- Either nothing happened, except that a lock the caller held was released, or the new
block was linked to its parent and put into a free slot. -/
theorem Coherent.informProcessAdd_cases {procs : CInt} {pm : PidManager}
    (coherent : Coherent procs pm) {mem : AddMemory} {me : Ptr} {reply : AddReply}
    (returned : pm.informProcessAdd mem me parentId = .ok reply) :
    (reply.result ≠ .success ∧ reply.pid = 0 ∧
      (reply.pm = pm ∨ pm.lock = some me ∧ reply.pm = { pm with lock := none })) ∨
    (reply.result = .success ∧ 1 ≤ reply.pid ∧ reply.pid ≤ maxPids ∧
      pm.getPidBlock reply.pid = none ∧
      ∃ linked, pm.linkChild mem.grow parentId pm.brk = .ok (some linked) ∧
        reply.pm = linked.claim reply.pid (newBlock reply.pid parentId)) := by
  cases informProcessAdd_ends returned with
  | full => exact .inl ⟨by simp, rfl, .inl rfl⟩
  | blockless _ held => exact .inl ⟨by simp, rfl, .inr ⟨held, rfl⟩⟩
  | unlinked => exact .inl ⟨by simp, rfl, .inl rfl⟩
  | @added i linked _ _ scanned some_pid link =>
    obtain ⟨i', scanned', range⟩ := coherent.scanFree_spec
    rw [scanned] at scanned'
    cases scanned'
    obtain ⟨low, high, free⟩ := range some_pid
    exact .inr ⟨rfl, low, high, free, linked, link, rfl⟩

theorem reapChild_cases {pm after : PidManager} {child : Ptr}
    (returned : pm.reapChild child = .ok after) :
    ∃ block, pm.heap child = some block ∧
      ((pm.shouldFreePid block = .ok false ∧ after = pm) ∨
       (pm.shouldFreePid block = .ok true ∧ after = pm.release child block)) := by
  unfold reapChild at returned
  cases found : pm.deref child with
  | error fault => simp [found] at returned
  | ok block =>
    refine ⟨block, (deref_eq_ok pm child block).mp found, ?_⟩
    simp only [found] at returned
    cases free : pm.shouldFreePid block with
    | error fault => simp [free] at returned
    | ok verdict =>
      cases verdict with
      | false =>
        simp only [free] at returned
        cases returned
        exact .inl ⟨rfl, rfl⟩
      | true =>
        simp only [free] at returned
        cases returned
        exact .inr ⟨rfl, by simp [release, destroyPidBlock]⟩

theorem reapSelf_cases {pm after : PidManager} {p : Ptr} {pid : Int}
    (returned : pm.reapSelf p pid = .ok after) :
    ∃ block, pm.heap p = some block ∧
      ((pm.shouldFreePid block = .ok false ∧ after = pm) ∨
       (pm.shouldFreePid block = .ok true ∧ (block.myPid = pid → after = pm.release p block))) := by
  unfold reapSelf at returned
  cases found : pm.deref p with
  | error fault => simp [found] at returned
  | ok block =>
    refine ⟨block, (deref_eq_ok pm p block).mp found, ?_⟩
    simp only [found] at returned
    cases free : pm.shouldFreePid block with
    | error fault => simp [free] at returned
    | ok verdict =>
      cases verdict with
      | false =>
        simp only [free, Bool.false_eq_true, ite_false] at returned
        split at returned
        · cases returned
        · cases returned
          exact .inl ⟨rfl, rfl⟩
      | true =>
        simp only [free, ite_true] at returned
        split at returned
        · cases returned
        cases returned
        refine .inr ⟨rfl, ?_⟩
        rintro rfl
        unfold release setPidBlock
        split <;> rfl

theorem exitCritical_cases {pm after : PidManager} {p : Ptr} {pid : Int} {status : CInt}
    (returned : pm.exitCritical p pid status = .ok after) :
    ∃ block reaped, pm.heap p = some block ∧
      (pm.setBlock p { block with isExited := true, exitStatus := status }).reapChildren
        block.children.toList = .ok reaped ∧
      reaped.reapSelf p pid = .ok after := by
  unfold exitCritical at returned
  cases found : pm.deref p with
  | error fault => simp [found] at returned
  | ok block =>
    simp only [found] at returned
    split at returned
    · cases returned
    next reaped loop => exact ⟨block, reaped, (deref_eq_ok pm p block).mp found, loop, returned⟩

end Os161.Pid
