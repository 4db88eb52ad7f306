import Os161.Pid.Runs

/-!
# `inform_process_add` on every table

The tables here are those that any calls of `inform_process_add` and `inform_process_exit` leave,
with any arguments, after the boot process has its block. Whether a call adds a process or changes
nothing is then a matter of the counter and of the allocations in `create_pid_block`, and the
counter tells whether the table is full if it started at 0.
-/
namespace Os161.Pid

open PidManager Foundation

/-! ### Tables that calls reach -/

/-- A call, by thread `me` where that matters. -/
inductive Request where
  | add (mem : AddMemory) (me : Ptr) (parent : Int)
  | exit (pid : Int) (status : CInt)

/-- The table after a call that returns. -/
def PidManager.serve (pm : PidManager) : Request → Option PidManager
  | .add mem me parent =>
    match pm.informProcessAdd mem me parent with
    | .error _ => none
    | .ok reply => some reply.pm
  | .exit pid status =>
    match pm.informProcessExit pid status with
    | .error _ => none
    | .ok (_, after) => some after

/-- The boot process has been added, and any calls have returned since. -/
def Reached (procs : CInt) (pm : PidManager) : Prop :=
  ∃ front mem booted history,
    threadBootstrap procs front mem = .ok booted ∧ Run (Computes serve) booted history pm

/-- What holds of these tables. -/
structure Settled (procs : CInt) (pm : PidManager) : Prop where
  coherent : Coherent procs pm
  unlocked : pm.lock = none

section

variable {procs : CInt} {pm : PidManager}

/-- The parent's block is there if the table has one. -/
theorem Coherent.linkChild_total (coherent : Coherent procs pm) (grow : Option (Nat → Ptr))
    (parentId : Int) (child : Ptr) : ∃ outcome, pm.linkChild grow parentId child = .ok outcome := by
  unfold PidManager.linkChild
  split
  · exact ⟨_, rfl⟩
  next p entry =>
    obtain ⟨parent, found, -⟩ := coherent.filled parentId p entry
    simp only [(deref_eq_ok pm p parent).mpr found]
    split
    · exact ⟨_, rfl⟩
    · exact ⟨_, rfl⟩

variable {parentId : Int} {mem : AddMemory}

/-- A new child changes one block of the table. -/
theorem Coherent.linkChild (coherent : Coherent procs pm) {grow : Option (Nat → Ptr)}
    {child : Ptr} {linked : PidManager}
    (link : pm.linkChild grow parentId child = .ok (some linked)) :
    Coherent procs linked ∧ linked.lock = pm.lock ∧
      (∀ pid, linked.getPidBlock pid = pm.getPidBlock pid) := by
  rcases linkChild_cases link with ⟨-, rfl⟩ | ⟨p, parent, -, found, -, rfl⟩
  · exact ⟨coherent, rfl, fun _ => rfl⟩
  · exact ⟨coherent.setBlock found rfl, rfl, fun _ => rfl⟩

/-- The child loop only removes blocks. -/
theorem Coherent.reapChildren {children : List Ptr} {after : PidManager}
    (coherent : Coherent procs pm) (returned : pm.reapChildren children = .ok after) :
    Coherent procs after ∧ after.lock = pm.lock ∧
      ∀ q block, after.heap q = some block → pm.heap q = some block := by
  induction children generalizing pm with
  | nil =>
    cases returned
    exact ⟨coherent, rfl, fun _ _ => id⟩
  | cons child rest ih =>
    cases first : pm.reapChild child with
    | error fault => simp [PidManager.reapChildren, first] at returned
    | ok middle =>
      simp only [PidManager.reapChildren, first] at returned
      obtain ⟨block, found, ⟨-, rfl⟩ | ⟨-, rfl⟩⟩ := reapChild_cases first
      · exact ih coherent returned
      obtain ⟨coherent', lock, kept⟩ := ih (coherent.release found) returned
      refine ⟨coherent', lock.trans (lock_setPidBlock ..), fun q b there => ?_⟩
      have before := kept q b there
      by_cases same : q = child
      · simp [PidManager.release, destroyPidBlock, same] at before
      · simpa [PidManager.release, destroyPidBlock, same] using before

namespace Settled

private theorem add {mem : AddMemory} {me : Ptr} {parent : Int} {reply : AddReply}
    (settled : Settled procs pm) (returned : pm.informProcessAdd mem me parent = .ok reply) :
    Settled procs reply.pm := by
  rcases settled.coherent.informProcessAdd_cases returned with
    ⟨-, -, same | ⟨held, -⟩⟩ | ⟨-, low, high, free, linked, link, same⟩
  · exact same ▸ settled
  · rw [settled.unlocked] at held
    cases held
  obtain ⟨coherent, lock, entries⟩ := settled.coherent.linkChild link
  rw [same]
  refine ⟨coherent.claim low high ((entries _).trans free) rfl, ?_⟩
  exact (lock_setPidBlock ..).trans (lock.trans settled.unlocked)

private theorem exit {pid : Int} {status : CInt} {code : Errno} {after : PidManager}
    (settled : Settled procs pm) (returned : pm.informProcessExit pid status = .ok (code, after)) :
    Settled procs after := by
  unfold informProcessExit at returned
  split at returned
  · cases returned
    exact settled
  next p entry =>
    cases body : pm.exitCritical p pid status with
    | error fault => simp [body, Except.map] at returned
    | ok left =>
      simp only [body, Except.map, Except.ok.injEq, Prod.mk.injEq] at returned
      obtain ⟨-, rfl⟩ := returned
      obtain ⟨block, reaped, found, loop, last⟩ := exitCritical_cases body
      have marked : Coherent procs
          (pm.setBlock p { block with isExited := true, exitStatus := status }) :=
        settled.coherent.setBlock found rfl
      obtain ⟨coherent, lock, kept⟩ := marked.reapChildren loop
      have unlocked : reaped.lock = none := lock.trans settled.unlocked
      obtain ⟨own, still, ⟨-, rfl⟩ | ⟨-, freed⟩⟩ := reapSelf_cases last
      · exact ⟨coherent, unlocked⟩
      -- the block that is freed still has the number it was looked up by
      have number : own.myPid = pid := by
        have same := kept p own still
        rw [heap_setBlock_same] at same
        cases same
        exact (settled.coherent.pid_of_slot entry found : block.myPid = pid)
      rw [freed number]
      exact ⟨coherent.release still, (lock_setPidBlock ..).trans unlocked⟩

private theorem serve {request : Request} {after : PidManager} (settled : Settled procs pm)
    (served : Computes PidManager.serve pm request after) : Settled procs after := by
  cases request with
  | add mem me parent =>
    simp only [Computes, PidManager.serve] at served
    split at served
    · cases served
    next reply returned =>
      cases served
      exact settled.add returned
  | exit pid status =>
    simp only [Computes, PidManager.serve] at served
    split at served
    · cases served
    next code left returned =>
      cases served
      exact settled.exit returned

end Settled

theorem Reached.settled (reached : Reached procs pm) : Settled procs pm := by
  obtain ⟨front, mem, booted, history, started, run⟩ := reached
  have sound := Booted.sound (w := ⟨booted, fun _ => none⟩) ⟨front, mem, booted, started, rfl⟩
  exact run.invariant ⟨sound.coherent, sound.unlocked⟩ fun _ _ _ settled served =>
    settled.serve served

/-! ### All or nothing -/

/-- A process has been added in a free slot, or nothing has changed. -/
def AllOrNothing (pm : PidManager) : Except Fault AddReply → Prop
  | .error _ => False
  | .ok reply =>
    (reply.result = .success ∧ reply.pid ∈ pids ∧ pm.getPidBlock reply.pid = none ∧
      reply.pm.occupied = insert reply.pid pm.occupied) ∨
    ((reply.result = .EAGAIN ∨ reply.result = .ENOMEM) ∧ reply.pid = 0 ∧ reply.pm = pm)

/-- A free pid has been found. What is left to decide are the allocations. -/
theorem informProcessAdd_found {me : Ptr} {parentId i : Int}
    (room : pm.numberOfProcs ≠ BitVec.ofInt 32 maxPids) (scanned : pm.scanFree = .ok i)
    (some_pid : i ≠ -1) (unheld : pm.lock ≠ some me) :
    pm.informProcessAdd mem me parentId =
      if mem.block ∧ mem.children ∧ mem.cv ∧ mem.cvName then
        (pm.linkChild mem.grow parentId pm.brk).map fun outcome =>
          outcome.elim ⟨.ENOMEM, 0, pm⟩ fun linked =>
            ⟨.success, i, linked.claim i (newBlock i parentId)⟩
      else .error .assertion := by
  unfold informProcessAdd
  simp only [if_neg room, scanned, if_neg some_pid, createPidBlock]
  by_cases granted : mem.block ∧ mem.children ∧ mem.cv ∧ mem.cvName
  · simp only [if_pos granted]
    cases pm.linkChild mem.grow parentId pm.brk with
    | error fault => rfl
    | ok outcome => cases outcome <;> rfl
  · simp [if_neg granted, if_neg unheld]

/-- A call is all or nothing exactly if the counter stops it, or if there is a free slot and
`create_pid_block` gets all its memory. -/
theorem add_all_or_nothing (reached : Reached procs pm) (mem : AddMemory) (me : Ptr)
    (parentId : Int) :
    AllOrNothing pm (pm.informProcessAdd mem me parentId) ↔
      pm.numberOfProcs = BitVec.ofInt 32 maxPids ∨
        (pm.occupied ≠ pids ∧ mem.block ∧ mem.children ∧ mem.cv ∧ mem.cvName) := by
  obtain ⟨coherent, unlocked⟩ := reached.settled
  by_cases full : pm.numberOfProcs = BitVec.ofInt 32 maxPids
  · simp only [full, true_or, iff_true]
    rw [informProcessAdd, if_pos full]
    exact .inr ⟨.inl rfl, rfl, rfl⟩
  simp only [full, false_or]
  rcases coherent.scanFree_cases with ⟨scanned, taken⟩ | ⟨i, scanned, -, low, high, free⟩
  · -- the panic
    have all : pm.occupied = pids := taken.resolve_left full
    unfold informProcessAdd
    simp only [if_neg full, scanned]
    simp [AllOrNothing, all]
  have some_pid : i ≠ -1 := by omega
  have unheld : pm.lock ≠ some me := by
    rw [unlocked]
    simp
  have space : pm.occupied ≠ pids := by
    intro all
    have member : i ∈ pm.occupied := all ▸ (mem_pids i).mpr ⟨low, high⟩
    rw [coherent.mem_occupied, free] at member
    cases member
  rw [informProcessAdd_found full scanned some_pid unheld]
  by_cases granted : mem.block ∧ mem.children ∧ mem.cv ∧ mem.cvName
  · simp only [ne_eq, space, not_false_eq_true, true_and, granted, iff_true]
    obtain ⟨outcome, link⟩ := coherent.linkChild_total mem.grow parentId pm.brk
    rw [link]
    cases outcome with
    | none => exact .inr ⟨.inr rfl, rfl, rfl⟩
    | some linked =>
      obtain ⟨coherent', -, entries⟩ := coherent.linkChild link
      refine .inl ⟨rfl, (mem_pids i).mpr ⟨low, high⟩, free, ?_⟩
      have same : linked.occupied = pm.occupied := by
        simp [occupied, entries]
      have inserted : (linked.claim i (newBlock i parentId)).occupied =
          insert i linked.occupied := coherent'.occupied_claim low high
      rwa [same] at inserted
  · rw [if_neg granted]
    simp only [AllOrNothing, false_iff]
    exact fun both => granted both.2

/-- Nothing is missing: the fork of process 1 gets its slot. -/
theorem add_all_or_nothing_plenty :
    Reached 0 bootWorld.pm ∧
      AllOrNothing bootWorld.pm (bootWorld.pm.informProcessAdd plenty bootBlock 1) := by
  have reached : Reached 0 bootWorld.pm := ⟨none, plenty, _, [], by rfl, .start⟩
  refine ⟨reached, (add_all_or_nothing reached plenty bootBlock 1).mpr (.inr ⟨?_, by decide⟩)⟩
  intro full
  have member : (2 : Int) ∈ bootWorld.pm.occupied :=
    full ▸ (mem_pids 2).mpr ⟨by decide, by decide⟩
  rw [reached.settled.coherent.mem_occupied] at member
  cases member

/-- No memory for the block: the lock that is released is not held. -/
theorem add_all_or_nothing_blockless :
    Reached 0 bootWorld.pm ∧
      bootWorld.pm.informProcessAdd { plenty with block := false } bootBlock 1 =
        .error .assertion ∧
      ¬ AllOrNothing bootWorld.pm
        (bootWorld.pm.informProcessAdd { plenty with block := false } bootBlock 1) := by
  have stopped : bootWorld.pm.informProcessAdd { plenty with block := false } bootBlock 1 =
      .error .assertion := by rfl
  refine ⟨⟨none, plenty, _, [], by rfl, .start⟩, stopped, ?_⟩
  exact id

/-! ### Full tables -/

theorem add_eagain {me : Ptr} :
    (∃ reply, pm.informProcessAdd mem me parentId = .ok reply ∧ reply.result = .EAGAIN) ↔
      pm.numberOfProcs = BitVec.ofInt 32 maxPids := by
  constructor
  · rintro ⟨reply, returned, again⟩
    cases informProcessAdd_ends returned with
    | full full => exact full
    | blockless => cases again
    | unlinked => cases again
    | added => cases again
  · intro full
    exact ⟨_, if_pos full, rfl⟩

private theorem scanFree_error {fault : Fault} (stopped : pm.scanFree = .error fault) :
    fault = .assertion := by
  unfold scanFree at stopped
  dsimp only at stopped
  split at stopped
  · cases stopped
  split at stopped
  · cases stopped
  split at stopped
  · cases stopped
  · cases stopped
    rfl

private theorem linkChild_error {grow : Option (Nat → Ptr)} {child : Ptr} {fault : Fault}
    (stopped : pm.linkChild grow parentId child = .error fault) : fault = .useAfterFree := by
  unfold PidManager.linkChild at stopped
  split at stopped
  · cases stopped
  split at stopped
  next wild =>
    cases stopped
    unfold deref at wild
    split at wild
    · cases wild
    · cases wild
      rfl
  · dsimp only at stopped
    split at stopped <;> cases stopped

/-- The panic comes from a search that finds nothing. -/
theorem add_panic {me : Ptr}
    (stopped : pm.informProcessAdd mem me parentId = .error .panic) :
    pm.numberOfProcs ≠ BitVec.ofInt 32 maxPids ∧ pm.scanFree = .ok (-1) := by
  unfold informProcessAdd at stopped
  split at stopped
  · cases stopped
  next room =>
    refine ⟨room, ?_⟩
    split at stopped
    next fault scanned =>
      cases stopped
      cases scanFree_error scanned
    next i scanned =>
      split at stopped
      next none => rw [scanned, none]
      · split at stopped
        · split at stopped <;> cases stopped
        split at stopped
        next fault link =>
          cases stopped
          cases linkChild_error link
        · cases stopped
        · cases stopped

/-- If the counter started at 0, it tells whether the table is full. -/
theorem Coherent.full_iff (coherent : Coherent 0 pm) :
    pm.numberOfProcs = BitVec.ofInt 32 maxPids ↔ pm.occupied = pids := by
  have all : pids.card = 100 := by
    refine (Finset.card_image_of_injective _ fun m n same => ?_).trans (Finset.card_range _)
    omega
  have count : pm.numberOfProcs = BitVec.ofNat 32 pm.occupied.card := by
    rw [← coherent.counted]
    exact (BitVec.sub_zero _).symm
  have bound : BitVec.ofInt 32 maxPids = BitVec.ofNat 32 100 := rfl
  rw [count, bound]
  constructor
  · intro same
    refine Finset.eq_of_subset_of_card_le (Finset.filter_subset _ _) ?_
    bv_omega
  · intro full
    rw [full, all]

private theorem not_mem_occupied_bootstrap (procs : CInt) (front : Option Ptr) :
    (1 : Int) ∉ (pidManagerBootstrap procs front).occupied := by
  intro member
  have taken := (Finset.mem_filter.mp member).2
  cases taken

/-- With a counter that starts at 0, `EAGAIN` is returned exactly when all pids are taken, and the
two tests for a full table never disagree. -/
theorem add_eagain_iff_full
    (reached : (∃ front, pm = pidManagerBootstrap 0 front) ∨ Reached 0 pm)
    (mem : AddMemory) (me : Ptr) (parentId : Int) :
    ((∃ reply, pm.informProcessAdd mem me parentId = .ok reply ∧ reply.result = .EAGAIN) ↔
        pm.occupied = pids) ∧
      pm.informProcessAdd mem me parentId ≠ .error .panic := by
  rcases reached with ⟨front, rfl⟩ | reached
  · have room : (pidManagerBootstrap 0 front).numberOfProcs ≠ BitVec.ofInt 32 maxPids := by
      simp [pidManagerBootstrap, maxPids]
    constructor
    · rw [add_eagain]
      refine iff_of_false room fun full => ?_
      exact not_mem_occupied_bootstrap 0 front (full ▸ (mem_pids 1).mpr ⟨by decide, by decide⟩)
    · intro stopped
      have none := (add_panic stopped).2
      cases none
  have coherent := reached.settled.coherent
  constructor
  · rw [add_eagain, coherent.full_iff]
  intro stopped
  obtain ⟨room, none⟩ := add_panic stopped
  rcases coherent.scanFree_cases with ⟨-, full | all⟩ | ⟨i, found, -, low, -⟩
  · exact room full
  · exact room (coherent.full_iff.mpr all)
  · rw [none] at found
    cases found
    exact absurd low (by decide)

/-- A hundred processes: the boot process has 99 children. -/
theorem exists_full :
    ∃ full, Reached 0 full ∧ full.numberOfProcs = BitVec.ofInt 32 maxPids ∧
      full.getPidBlock 0 = none ∧ full.getPidBlock maxPids ≠ none := by
  obtain ⟨history, full, run, -, facts⟩ : ∃ history full,
      Run (Computes serve) bootWorld.pm history full ∧
      history.map Prod.snd = (List.replicate 99 (.add plenty bootBlock 1)).reverse ∧
      full.numberOfProcs = BitVec.ofInt 32 maxPids ∧ full.getPidBlock 0 = none ∧
      full.getPidBlock maxPids ≠ none := Run.of_check (by decide +kernel)
  exact ⟨full, ⟨none, plenty, _, history, by rfl, run⟩, facts⟩

/-- There the next process gets no pid. -/
theorem add_eagain_iff_full_hundred :
    ∃ full, Reached 0 full ∧ full.occupied = pids ∧
      ∃ reply, full.informProcessAdd plenty bootBlock 1 = .ok reply ∧ reply.result = .EAGAIN := by
  obtain ⟨full, reached, count, -⟩ := exists_full
  have again : ∃ reply, full.informProcessAdd plenty bootBlock 1 = .ok reply ∧
      reply.result = .EAGAIN := add_eagain.mpr count
  exact ⟨full, reached, (add_eagain_iff_full (.inr reached) plenty bootBlock 1).1.mp again, again⟩

/-- The word at `number_of_procs` happens to be 100: the empty table has no pid to give. -/
theorem add_eagain_iff_full_stale :
    (pidManagerBootstrap 100 none).occupied = ∅ ∧
      ∃ reply, (pidManagerBootstrap 100 none).informProcessAdd plenty bootBlock 0 = .ok reply ∧
        reply.result = .EAGAIN := by
  constructor
  · simp [occupied, getPidBlock, pidManagerBootstrap]
  · exact ⟨_, rfl, rfl⟩

end

end Os161.Pid
