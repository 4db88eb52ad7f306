import Os161.Pid.Table

/-!
# Who forked whom

A block records its parent only as a number, and numbers are recycled. `World` adds
what the kernel does not keep: for every block ever handed out, the block of the
process that forked it. `Family` is what the number, the children arrays and this
record have to do with each other in every reachable table.
-/
namespace Os161.Pid

open PidManager

structure World where
  pm : PidManager
  /-- The process whose `thread_fork` created a block; the boot process has none. -/
  forker : Ptr → Option Ptr

/-! ### Blocks leaving the table -/

/-- `after` is `pm` without the blocks in `gone`. -/
structure Drops (pm after : PidManager) (gone : Ptr → Prop) : Prop where
  freed : ∀ q, gone q → after.heap q = none
  kept : ∀ q, ¬ gone q → after.heap q = pm.heap q
  slot : ∀ pid q, after.getPidBlock pid = some q ↔ pm.getPidBlock pid = some q ∧ ¬ gone q
  brk : after.brk = pm.brk
  nextPid : after.nextPid = pm.nextPid
  lock : after.lock = pm.lock

theorem Drops.refl (pm : PidManager) : Drops pm pm (fun _ => False) := by
  constructor <;> simp

theorem Drops.trans {pm middle after : PidManager} {first second : Ptr → Prop}
    (one : Drops pm middle first) (two : Drops middle after second) :
    Drops pm after (fun q => first q ∨ second q) := by
  constructor
  · intro q gone
    by_cases now : second q
    · exact two.freed q now
    · rw [two.kept q now, one.freed q (gone.resolve_right now)]
  · intro q stays
    rw [not_or] at stays
    rw [two.kept q stays.2, one.kept q stays.1]
  · intro pid q
    rw [two.slot, one.slot, not_or, and_assoc]
  · rw [two.brk, one.brk]
  · rw [two.nextPid, one.nextPid]
  · rw [two.lock, one.lock]

theorem Drops.congr {pm after : PidManager} {gone same : Ptr → Prop} (drops : Drops pm after gone)
    (iff : ∀ q, gone q ↔ same q) : Drops pm after same := by
  have eq : gone = same := funext fun q => propext (iff q)
  exact eq ▸ drops

theorem Coherent.drops_release {procs : CInt} {pm : PidManager} {p : Ptr} {block : PidInfoBlock}
    (coherent : Coherent procs pm) (found : pm.heap p = some block) :
    Drops pm (pm.release p block) (· = p) := by
  constructor
  · rintro q rfl
    simp [PidManager.release, destroyPidBlock]
  · intro q other
    simp [PidManager.release, destroyPidBlock, Function.update_of_ne other]
  · intro pid q
    rw [coherent.getPidBlock_release found]
    by_cases mine : pm.getPidBlock pid = some p
    · simp [mine, eq_comm]
    rw [if_neg mine]
    constructor
    · intro entry
      exact ⟨entry, fun same => mine (same ▸ entry)⟩
    · exact And.left
  · simp [PidManager.release, destroyPidBlock]
  · simp [PidManager.release, destroyPidBlock]
  · simp [PidManager.release, destroyPidBlock]

/-! ### The verdict of `should_free_pid` -/

/-- The process that now carries the number of `block`'s parent is running and is not
process 1, which may not hold others. -/
def Held (pm : PidManager) (block : PidInfoBlock) : Prop :=
  2 ≤ block.myParent ∧ ∃ q parent, pm.getPidBlock block.myParent = some q ∧
    pm.heap q = some parent ∧ parent.isExited = false

theorem Coherent.shouldFreePid_exited {procs : CInt} {pm : PidManager} {block : PidInfoBlock}
    (coherent : Coherent procs pm) (exited : block.isExited = true) :
    (Held pm block ∧ pm.shouldFreePid block = .ok false) ∨
    (¬ Held pm block ∧ pm.shouldFreePid block = .ok true) := by
  unfold shouldFreePid Held
  -- the three tests of the source in its order: a small number, a free slot, a dead parent
  by_cases small : block.myParent < 2
  · exact .inr ⟨fun held => absurd held.1 (by omega), by simp [exited, small]⟩
  cases entry : pm.getPidBlock block.myParent with
  | none => exact .inr ⟨by simp, by simp [exited, isPidFree, entry]⟩
  | some q =>
    obtain ⟨parent, allocated, -⟩ := coherent.filled _ q entry
    have followed := (deref_eq_ok pm q parent).mpr allocated
    cases verdict : parent.isExited with
    | false =>
      exact .inl ⟨⟨by omega, q, parent, rfl, allocated, verdict⟩,
        by simp [exited, small, isPidFree, entry, followed, Except.map, verdict]⟩
    | true =>
      refine .inr ⟨?_, by simp [exited, small, isPidFree, entry, followed, Except.map, verdict]⟩
      rintro ⟨-, q', other, same, found, running⟩
      cases same
      rw [allocated] at found
      cases found
      simp [verdict] at running

/-! ### What an exit does to the table -/

/-- The blocks that the exit of `p` frees: its exited children, and itself unless held. -/
def Freed (pm : PidManager) (p : Ptr) (block : PidInfoBlock) (q : Ptr) : Prop :=
  (q ∈ block.children.toList ∧ ∃ child, pm.heap q = some child ∧ child.isExited = true) ∨
    (q = p ∧ ¬ Held pm block)

theorem not_freed_of_running {pm : PidManager} {p q : Ptr} {block b : PidInfoBlock}
    (found : pm.heap q = some b) (runs : b.isExited = false) (other : q ≠ p) :
    ¬ Freed pm p block q := by
  rintro (⟨-, child, again, dead⟩ | ⟨same, -⟩)
  · rw [found] at again
    cases again
    simp [runs] at dead
  · exact other same

/-- The situation of the child loop: `p` is marked exited and sits in slot `pid`, and the
children still to visit record `pid` as their parent. -/
structure Reaping (procs : CInt) (pm : PidManager) (p : Ptr) (pid : Int) (children : List Ptr) :
    Prop where
  coherent : Coherent procs pm
  self : ∃ block, pm.heap p = some block ∧ block.isExited = true ∧ block.myPid = pid
  nodup : children.Nodup
  others : p ∉ children
  lineage : ∀ c ∈ children, ∀ block, pm.heap c = some block → block.myParent = pid

namespace Reaping

variable {procs : CInt} {pm : PidManager} {p : Ptr} {pid : Int} {c : Ptr} {children : List Ptr}

/-- Of the children of an exited process, `should_free_pid` wants the exited ones freed. -/
theorem verdict (reaping : Reaping procs pm p pid (c :: children)) {block : PidInfoBlock}
    (found : pm.heap c = some block) : pm.shouldFreePid block = .ok block.isExited := by
  cases exited : block.isExited with
  | false => simp [shouldFreePid, exited]
  | true =>
    -- nothing holds the child: the process in its parent's slot is `p`, which is marked
    rcases reaping.coherent.shouldFreePid_exited exited with ⟨held, -⟩ | ⟨-, free⟩
    · obtain ⟨own, mine, dead, number⟩ := reaping.self
      obtain ⟨-, q, parent, entry, allocated, running⟩ := held
      have same : pm.getPidBlock block.myParent = some p := by
        rw [reaping.lineage c (by simp) block found, ← number]
        exact (reaping.coherent.listed p own mine).2.2
      rw [same] at entry
      cases entry
      rw [mine] at allocated
      cases allocated
      simp [dead] at running
    · exact free

/-- Visiting one child leaves the loop in the same situation for the rest. -/
theorem visit (reaping : Reaping procs pm p pid (c :: children)) {block : PidInfoBlock}
    (found : pm.heap c = some block) :
    ∃ after, pm.reapChild c = .ok after ∧ Reaping procs after p pid children ∧
      Drops pm after (fun q => q = c ∧ block.isExited = true) := by
  have outside : p ≠ c := fun same => reaping.others (by simp [same])
  have rest : p ∉ children := fun member => reaping.others (by simp [member])
  have followed := (deref_eq_ok pm c block).mpr found
  have verdict := reaping.verdict found
  cases exited : block.isExited with
  | false =>
    -- a running child is passed over
    rw [exited] at verdict
    refine ⟨pm, by simp [reapChild, followed, verdict], ?_, (Drops.refl pm).congr (by simp)⟩
    exact ⟨reaping.coherent, reaping.self, (List.nodup_cons.mp reaping.nodup).2, rest,
      fun q member => reaping.lineage q (by simp [member])⟩
  | true =>
    rw [exited] at verdict
    have drops := reaping.coherent.drops_release found
    refine ⟨pm.release c block, ?_, ?_, drops.congr (by simp)⟩
    · simp [reapChild, followed, verdict, release, destroyPidBlock]
    refine ⟨reaping.coherent.release found, ?_, (List.nodup_cons.mp reaping.nodup).2, rest, ?_⟩
    · rw [drops.kept p outside]
      exact reaping.self
    intro q member b allocated
    have apart : q ≠ c := by
      rintro rfl
      exact (List.nodup_cons.mp reaping.nodup).1 member
    rw [drops.kept q apart] at allocated
    exact reaping.lineage q (by simp [member]) b allocated

/-- The child loop frees the exited children and nothing else. -/
theorem reapChildren_spec {after : PidManager} (reaping : Reaping procs pm p pid children)
    (returned : pm.reapChildren children = .ok after) :
    Coherent procs after ∧
      Drops pm after (fun q =>
        q ∈ children ∧ ∃ block, pm.heap q = some block ∧ block.isExited = true) := by
  -- induction on the children left to visit; `visit` keeps the situation for the rest
  induction children generalizing pm with
  | nil =>
    cases returned
    exact ⟨reaping.coherent, (Drops.refl _).congr (by simp)⟩
  | cons c children ih =>
    cases first : pm.reapChild c with
    | error fault => simp [reapChildren, first] at returned
    | ok middle =>
      simp only [reapChildren, first] at returned
      obtain ⟨block, found, -⟩ := reapChild_cases first
      obtain ⟨middle', same, reaping', drops⟩ := reaping.visit found
      rw [first] at same
      cases same
      obtain ⟨coherent, rest⟩ := ih reaping' returned
      refine ⟨coherent, (drops.trans rest).congr ?_⟩
      intro q
      by_cases here : q = c
      · subst q
        -- `c` has had its turn, and does not come again
        have once : c ∉ children := (List.nodup_cons.mp reaping.nodup).1
        simp [once, found]
      · have untouched : middle.heap q = pm.heap q := drops.kept q (by simp [here])
        simp [here, untouched]

/-- If no child has been freed yet, the loop runs to its end. -/
theorem reapChildren_total (reaping : Reaping procs pm p pid children)
    (alive : ∀ c ∈ children, (pm.heap c).isSome) :
    ∃ after, pm.reapChildren children = .ok after := by
  induction children generalizing pm with
  | nil => exact ⟨pm, rfl⟩
  | cons c children ih =>
    obtain ⟨block, found⟩ := Option.isSome_iff_exists.mp (alive c (by simp))
    obtain ⟨middle, first, reaping', drops⟩ := reaping.visit found
    obtain ⟨after, rest⟩ := ih reaping' (by
      intro q member
      have apart : q ≠ c := by
        rintro rfl
        exact (List.nodup_cons.mp reaping.nodup).1 member
      rw [drops.kept q (by simp [apart])]
      exact alive q (by simp [member]))
    exact ⟨after, by simp [reapChildren, first, rest]⟩

end Reaping

/-! ### The family record -/

structure Family (w : World) : Prop where
  recent : ∀ c x, w.forker c = some x → x < c ∧ c < w.pm.brk
  /-- While both blocks are allocated, the recorded number is the forker's pid. -/
  lineage : ∀ c x block parent, w.forker c = some x → w.pm.heap c = some block →
    w.pm.heap x = some parent → parent.myPid = block.myParent
  positive : ∀ c x block, w.forker c = some x → w.pm.heap c = some block → 1 ≤ block.myParent
  root : ∀ c block, w.forker c = none → w.pm.heap c = some block → block.myParent = 0
  /-- A process never records its own number. -/
  apart : ∀ c block, w.pm.heap c = some block → block.myPid ≠ block.myParent
  nodup : ∀ x parent, w.pm.heap x = some parent → parent.children.toList.Nodup
  /-- A children array lists processes its owner forked, freed or not. -/
  forked : ∀ x parent, w.pm.heap x = some parent → ∀ c ∈ parent.children.toList, w.forker c = some x
  /-- It lists all of them that are still allocated. -/
  complete : ∀ c x block parent, w.forker c = some x → w.pm.heap c = some block →
    w.pm.heap x = some parent → c ∈ parent.children.toList
  /-- A running process other than process 1 keeps its children. -/
  keeps : ∀ c x parent, w.forker c = some x → w.pm.heap x = some parent →
    parent.isExited = false → 2 ≤ parent.myPid → (w.pm.heap c).isSome

namespace Family

variable {procs : CInt} {w : World} {p : Ptr} {block : PidInfoBlock} {pid : Int} {status : CInt}

/-- The block of a process while `inform_process_exit` runs its loop. -/
abbrev exitedBlock (block : PidInfoBlock) (status : CInt) : PidInfoBlock :=
  { block with isExited := true, exitStatus := status }

theorem not_own_child (family : Family w) (found : w.pm.heap p = some block) :
    p ∉ block.children.toList := by
  intro member
  exact Nat.lt_irrefl p (family.recent p p (family.forked p block found p member)).1

section

variable (family : Family w) (coherent : Coherent procs w.pm) (found : w.pm.heap p = some block)

include family coherent found

theorem reaping (status : CInt) :
    Reaping procs (w.pm.setBlock p (exitedBlock block status)) p block.myPid
      block.children.toList where
  coherent := coherent.setBlock found rfl
  self := ⟨exitedBlock block status, heap_setBlock_same _ _ _, rfl, rfl⟩
  nodup := family.nodup p block found
  others := family.not_own_child found
  lineage := by
    intro c member b allocated
    have apart : c ≠ p := fun same => family.not_own_child found (same ▸ member)
    rw [heap_setBlock_other _ _ apart] at allocated
    exact (family.lineage c p b block (family.forked p block found c member) allocated found).symm

/-- Neither the mark on `p` nor the freed children change whether `p` is held. -/
theorem held_after_loop {reaped : PidManager}
    (drops : Drops (w.pm.setBlock p (exitedBlock block status)) reaped
      (fun q => q ∈ block.children.toList ∧
        ∃ child, (w.pm.setBlock p (exitedBlock block status)).heap q = some child ∧
          child.isExited = true)) : Held reaped (exitedBlock block status) ↔ Held w.pm block := by
  -- no process is its own parent, so the mark is on another block than the one tested
  have elsewhere : ∀ q, w.pm.getPidBlock block.myParent = some q → q ≠ p := by
    rintro q entry rfl
    exact family.apart q block found (coherent.pid_of_slot entry found)
  constructor
  · rintro ⟨two, q, parent, entry, allocated, running⟩
    obtain ⟨entry', stays⟩ := (drops.slot _ q).mp entry
    have other := elsewhere q entry'
    rw [drops.kept q stays, heap_setBlock_other _ _ other] at allocated
    exact ⟨two, q, parent, entry', allocated, running⟩
  rintro ⟨two, q, parent, entry, allocated, running⟩
  have other := elsewhere q entry
  have stays : ¬ (q ∈ block.children.toList ∧
      ∃ child, (w.pm.setBlock p (exitedBlock block status)).heap q = some child ∧
        child.isExited = true) := by
    rintro ⟨-, child, again, dead⟩
    rw [heap_setBlock_other _ _ other, allocated] at again
    cases again
    simp [running] at dead
  refine ⟨two, q, parent, (drops.slot _ q).mpr ⟨entry, stays⟩, ?_, running⟩
  rw [drops.kept q stays, heap_setBlock_other _ _ other, allocated]

abbrev Exits (pm : PidManager) (p : Ptr) (block : PidInfoBlock) (status : CInt)
    (after : PidManager) : Prop :=
  Drops (pm.setBlock p (exitedBlock block status)) after (Freed pm p block)

theorem exitCritical_spec {after : PidManager}
    (returned : w.pm.exitCritical p block.myPid status = .ok after) :
    Coherent procs after ∧ Exits w.pm p block status after := by
  obtain ⟨b, reaped, again, loop, last⟩ := exitCritical_cases returned
  rw [found] at again
  cases again
  obtain ⟨coherent', drops⟩ := (family.reaping coherent found status).reapChildren_spec loop
  have outside := family.not_own_child found
  have mine : reaped.heap p = some (exitedBlock block status) := by
    rw [drops.kept p (by simp [outside]), heap_setBlock_same]
  -- the mark on `p` is not seen by the loop over its children
  have children : ∀ q, (q ∈ block.children.toList ∧
      ∃ child, (w.pm.setBlock p (exitedBlock block status)).heap q = some child ∧
        child.isExited = true) ↔
      (q ∈ block.children.toList ∧ ∃ child, w.pm.heap q = some child ∧ child.isExited = true) := by
    intro q
    refine and_congr_right fun member => ?_
    have apart : q ≠ p := fun same => outside (same ▸ member)
    simp [heap_setBlock_other _ _ apart]
  obtain ⟨own, mine', verdict⟩ := reapSelf_cases last
  rw [mine] at mine'
  cases mine'
  have exited : (exitedBlock block status).isExited = true := rfl
  -- the block itself goes last, judged in the table the loop has left
  rcases coherent'.shouldFreePid_exited exited with
    ⟨held, keep⟩ | ⟨free, drop⟩
  · rw [family.held_after_loop coherent found drops] at held
    rcases verdict with ⟨-, rfl⟩ | ⟨clash, -⟩
    · exact ⟨coherent', drops.congr fun q => by simp [Freed, held, children q]⟩
    · rw [keep] at clash
      cases clash
  have unheld : ¬ Held w.pm block := fun held =>
    free ((family.held_after_loop coherent found drops).mpr held)
  rcases verdict with ⟨clash, -⟩ | ⟨-, done⟩
  · rw [drop] at clash
    cases clash
  rw [done rfl]
  refine ⟨coherent'.release mine, (drops.trans (coherent'.drops_release mine)).congr ?_⟩
  intro q
  simp [Freed, unheld, children q]

end

variable {q : Ptr} {b : PidInfoBlock}

/-- The blocks left after an exit are the old ones, `p` marked. -/
theorem survivor {after : PidManager} (drops : Exits w.pm p block status after)
    (left : after.heap q = some b) :
    (q = p ∧ b = exitedBlock block status) ∨ (q ≠ p ∧ w.pm.heap q = some b) := by
  have stays : ¬ Freed w.pm p block q := by
    intro gone
    rw [drops.freed q gone] at left
    cases left
  rw [drops.kept q stays] at left
  by_cases here : q = p
  · subst q
    rw [heap_setBlock_same] at left
    exact .inl ⟨rfl, (Option.some.inj left).symm⟩
  · rw [heap_setBlock_other _ _ here] at left
    exact .inr ⟨here, left⟩

/-- What an exit leaves of a block: its numbers and its children array. -/
theorem survivor_fields (found : w.pm.heap p = some block) {after : PidManager}
    (drops : Exits w.pm p block status after)
    (left : after.heap q = some b) :
    ∃ old, w.pm.heap q = some old ∧ b.myPid = old.myPid ∧ b.myParent = old.myParent ∧
      b.children = old.children := by
  rcases survivor drops left with ⟨rfl, rfl⟩ | ⟨-, old⟩
  · exact ⟨block, found, rfl, rfl, rfl⟩
  · exact ⟨b, old, rfl, rfl, rfl⟩

/-- A process that is still running after an exit was running before it and has the same
block. -/
theorem survivor_running {after : PidManager} (drops : Exits w.pm p block status after)
    (left : after.heap q = some b) (running : b.isExited = false) :
    q ≠ p ∧ w.pm.heap q = some b := by
  rcases survivor drops left with ⟨-, rfl⟩ | old
  · simp at running
  · exact old

/-- A process other than `p` that was running before an exit is found unchanged after it. -/
theorem running_survives {pm after : PidManager} (drops : Exits pm p block status after)
    (alive : pm.heap q = some b) (running : b.isExited = false)
    (other : q ≠ p) : ¬ Freed pm p block q ∧ after.heap q = some b := by
  have stays : ¬ Freed pm p block q := not_freed_of_running alive running other
  exact ⟨stays, (drops.kept q stays).trans ((heap_setBlock_other _ _ other).trans alive)⟩

section

variable (family : Family w) (coherent : Coherent procs w.pm) (found : w.pm.heap p = some block)

include family coherent found

/-- An exit frees no child of a process that goes on running, process 1 apart. -/
theorem not_freed_of_forker_running {c x : Ptr} {parent : PidInfoBlock}
    (forked : w.forker c = some x) (other : x ≠ p) (alive : w.pm.heap x = some parent)
    (running : parent.isExited = false) (two : 2 ≤ parent.myPid) : ¬ Freed w.pm p block c := by
  rintro (⟨member, -⟩ | ⟨rfl, unheld⟩)
  -- a child in the array of `p` was forked by `p`, and `p` itself is held by its forker
  · have mine := family.forked p block found c member
    rw [forked] at mine
    exact other (Option.some.inj mine)
  have number := family.lineage c x block parent forked found alive
  apply unheld
  refine ⟨by omega, x, parent, ?_, alive, running⟩
  rw [← number]
  exact (coherent.listed x parent alive).2.2

theorem exit {after : PidManager} (drops : Exits w.pm p block status after) :
    Family { w with pm := after } := by
  constructor
  case recent =>
    intro c x forked
    exact drops.brk ▸ family.recent c x forked
  case lineage =>
    intro c x b parent forked left kept
    obtain ⟨old, hold, -, number, -⟩ := survivor_fields found drops left
    obtain ⟨dad, hdad, pid, -, -⟩ := survivor_fields found drops kept
    rw [number, pid]
    exact family.lineage c x old dad forked hold hdad
  case positive =>
    intro c x b forked left
    obtain ⟨old, hold, -, number, -⟩ := survivor_fields found drops left
    rw [number]
    exact family.positive c x old forked hold
  case root =>
    intro c b unforked left
    obtain ⟨old, hold, -, number, -⟩ := survivor_fields found drops left
    rw [number]
    exact family.root c old unforked hold
  case apart =>
    intro c b left
    obtain ⟨old, hold, pid, number, -⟩ := survivor_fields found drops left
    rw [number, pid]
    exact family.apart c old hold
  case nodup =>
    intro x parent kept
    obtain ⟨dad, hdad, -, -, children⟩ := survivor_fields found drops kept
    rw [children]
    exact family.nodup x dad hdad
  case forked =>
    intro x parent kept
    obtain ⟨dad, hdad, -, -, children⟩ := survivor_fields found drops kept
    rw [children]
    exact family.forked x dad hdad
  case complete =>
    intro c x b parent forked left kept
    obtain ⟨old, hold, -, -, -⟩ := survivor_fields found drops left
    obtain ⟨dad, hdad, -, -, children⟩ := survivor_fields found drops kept
    rw [children]
    exact family.complete c x old dad forked hold hdad
  case keeps =>
    -- the forker goes on running, so it is not the process that exits
    intro c x parent forked kept running two
    obtain ⟨other, alive⟩ := survivor_running drops kept running
    have stays := family.not_freed_of_forker_running coherent found forked other alive running two
    have before := family.keeps c x parent forked alive running two
    rw [drops.kept c stays]
    by_cases here : c = p
    · subst c
      simp
    · rwa [heap_setBlock_other _ _ here]

/-- With no freed child in its array, an exit ends normally or in the assertion on
`number_of_procs`. -/
theorem exitCritical_safe (status : CInt)
    (alive : ∀ c ∈ block.children.toList, (w.pm.heap c).isSome) :
    (∃ after, w.pm.exitCritical p block.myPid status = .ok after) ∨
      w.pm.exitCritical p block.myPid status = .error .assertion := by
  have reaping := family.reaping coherent found status
  obtain ⟨reaped, loop⟩ := reaping.reapChildren_total (by
    intro c member
    have apart : c ≠ p := fun same => family.not_own_child found (same ▸ member)
    rw [heap_setBlock_other _ _ apart]
    exact alive c member)
  obtain ⟨coherent', drops⟩ := reaping.reapChildren_spec loop
  have mine : reaped.heap p = some (exitedBlock block status) := by
    rw [drops.kept p (by simp [family.not_own_child found]), heap_setBlock_same]
  have start := (deref_eq_ok w.pm p block).mpr found
  have last := (deref_eq_ok reaped p _).mpr mine
  have run : w.pm.exitCritical p block.myPid status = reaped.reapSelf p block.myPid := by
    simp [exitCritical, start, loop]
  rw [run]
  unfold reapSelf
  simp only [last]
  have exited : (exitedBlock block status).isExited = true := rfl
  rcases coherent'.shouldFreePid_exited exited with
    ⟨-, verdict⟩ | ⟨-, verdict⟩ <;>
  · simp only [verdict, Bool.false_eq_true, ite_false, ite_true]
    split
    · exact .inr rfl
    · exact .inl ⟨_, rfl⟩

end

end Family

/-! ### What a fork does to the table -/

/-- `after` is `pm` with a new process `i` at address `pm.brk`, forked by `x`. -/
structure Adds (pm after : PidManager) (x : Ptr) (i parentId : Int) : Prop where
  slot : ∀ pid q, after.getPidBlock pid = some q ↔
    (pid = i ∧ q = pm.brk) ∨ (pid ≠ i ∧ pm.getPidBlock pid = some q)
  new : after.heap pm.brk = some (newBlock i parentId)
  forker : ∃ parent block, pm.heap x = some parent ∧ after.heap x = some block ∧
    block.children.toList = parent.children.toList ++ [pm.brk] ∧ block.myPid = parent.myPid ∧
    block.myParent = parent.myParent ∧ block.isExited = parent.isExited ∧
    block.exitStatus = parent.exitStatus
  other : ∀ q, q ≠ pm.brk → q ≠ x → after.heap q = pm.heap q
  brk : after.brk = pm.brk + 1
  lock : after.lock = pm.lock

namespace Adds

variable {pm after : PidManager} {x : Ptr} {i parentId : Int}

/-- The block of an older process: as before, but for the forker's children array. -/
theorem survivor (adds : Adds pm after x i parentId) {q : Ptr} {b : PidInfoBlock}
    (older : q ≠ pm.brk) (left : after.heap q = some b) :
    ∃ old, pm.heap q = some old ∧ b.myPid = old.myPid ∧ b.myParent = old.myParent ∧
      b.isExited = old.isExited ∧ b.exitStatus = old.exitStatus ∧
      b.children.toList = old.children.toList ++ (if q = x then [pm.brk] else []) := by
  by_cases here : q = x
  · subst q
    obtain ⟨parent, block, before, now, children, pid, number, exited, status⟩ := adds.forker
    rw [now] at left
    cases left
    exact ⟨parent, before, pid, number, exited, status, by simp [children]⟩
  · rw [adds.other q older here] at left
    exact ⟨b, left, rfl, rfl, rfl, rfl, by simp [here]⟩

/-- No older block is lost. -/
theorem persists (adds : Adds pm after x i parentId) {q : Ptr} {old : PidInfoBlock}
    (older : q ≠ pm.brk) (before : pm.heap q = some old) :
    ∃ b, after.heap q = some b ∧ b.myPid = old.myPid ∧ b.myParent = old.myParent ∧
      b.isExited = old.isExited := by
  by_cases here : q = x
  · subst q
    obtain ⟨parent, block, again, now, -, pid, number, exited, -⟩ := adds.forker
    rw [before] at again
    cases again
    exact ⟨block, now, pid, number, exited⟩
  · exact ⟨old, (adds.other q older here).trans before, rfl, rfl, rfl⟩

/-- An entry that was in use is not handed out again. -/
theorem slot_kept (adds : Adds pm after x i parentId) (free : pm.getPidBlock i = none) {pid : Int}
    {q : Ptr} (entry : pm.getPidBlock pid = some q) : after.getPidBlock pid = some q := by
  refine (adds.slot pid q).mpr (.inr ⟨?_, entry⟩)
  rintro rfl
  rw [free] at entry
  cases entry

end Adds

/-- A successful `inform_process_add` for the process in slot `parentId`. -/
theorem Coherent.adds {procs : CInt} {pm : PidManager} (coherent : Coherent procs pm)
    {mem : AddMemory} {me x : Ptr} {parentId : Int} {reply : AddReply}
    (entry : pm.getPidBlock parentId = some x)
    (returned : pm.informProcessAdd mem me parentId = .ok reply)
    (success : reply.result = .success) :
    Coherent procs reply.pm ∧ Adds pm reply.pm x reply.pid parentId ∧
      pm.getPidBlock reply.pid = none := by
  rcases coherent.informProcessAdd_cases returned with
    ⟨failed, -⟩ | ⟨-, low, high, free, linked, link, eq⟩
  · exact absurd success failed
  rcases linkChild_cases link with ⟨absent, -⟩ | ⟨p, parent, present, found, added, rfl⟩
  · rw [entry] at absent
    cases absent
  rw [entry] at present
  cases present
  let grown : PidInfoBlock :=
    { parent with children := (parent.children.add mem.grow pm.brk).state }
  have linkedCoherent : Coherent procs (pm.setBlock x grown) := coherent.setBlock found rfl
  have older := coherent.ne_brk found
  have valid : validatePid reply.pid = true := (validatePid_iff _).mpr ⟨by omega, high⟩
  rw [eq]
  refine ⟨linkedCoherent.claim low high free rfl, ?_, free⟩
  constructor
  case slot =>
    intro pid q
    rw [Coherent.getPidBlock_claim _ _ _ valid]
    by_cases here : pid = reply.pid
    · simp [here, eq_comm]
    · simp [here]
  case new => exact (Coherent.heap_claim _ _ _ _).trans (if_pos rfl)
  case forker =>
    refine ⟨parent, grown, found, (Coherent.heap_claim _ _ _ _).trans ?_, ?_, rfl, rfl, rfl, rfl⟩
    · exact (if_neg older).trans (heap_setBlock_same pm x grown)
    · exact KArray.toList_add mem.grow parent.children pm.brk added
  case other =>
    intro q newer other
    rw [Coherent.heap_claim]
    exact (if_neg newer).trans (heap_setBlock_other _ _ other)
  case brk => rfl
  case lock => exact lock_setPidBlock _ _ _

/-- A fork on record is older than the next block. -/
theorem Family.older {w : World} (family : Family w) {c x : Ptr} (forked : w.forker c = some x) :
    c ≠ w.pm.brk ∧ x ≠ w.pm.brk := by
  obtain ⟨before, allocated⟩ := family.recent c x forked
  exact ⟨Nat.ne_of_lt allocated, Nat.ne_of_lt (Nat.lt_trans before allocated)⟩

theorem Family.fork {procs : CInt} {w : World} {after : PidManager} {x : Ptr} {i parentId : Int}
    (family : Family w) (coherent : Coherent procs w.pm)
    (entry : w.pm.getPidBlock parentId = some x) (free : w.pm.getPidBlock i = none)
    (adds : Adds w.pm after x i parentId) :
    Family { pm := after, forker := Function.update w.forker w.pm.brk (some x) } := by
  -- each field: the new process by what `adds` says of it, the older ones as before
  obtain ⟨parent, found, number⟩ := coherent.filled parentId x entry
  have positive : 1 ≤ parentId := number ▸ (coherent.listed x parent found).1
  constructor
  case recent =>
    intro c q forked
    rw [adds.brk]
    rcases update_some_eq_some.mp forked with ⟨rfl, rfl⟩ | ⟨-, old⟩
    · exact ⟨coherent.fresh q parent found, Nat.lt_succ_self _⟩
    · exact ⟨(family.recent c q old).1, Nat.lt_succ_of_lt (family.recent c q old).2⟩
  case lineage =>
    intro c q b dad forked left kept
    rcases update_some_eq_some.mp forked with ⟨rfl, rfl⟩ | ⟨older, old⟩
    · rw [adds.new] at left
      cases left
      obtain ⟨was, before, pid, -⟩ := adds.survivor (coherent.ne_brk found) kept
      rw [found] at before
      cases before
      exact pid.trans number
    obtain ⟨was, before, -, same, -⟩ := adds.survivor older left
    obtain ⟨dad', before', pid, -⟩ := adds.survivor (family.older old).2 kept
    rw [same, pid]
    exact family.lineage c q was dad' old before before'
  case positive =>
    intro c q b forked left
    rcases update_some_eq_some.mp forked with ⟨rfl, rfl⟩ | ⟨older, old⟩
    · rw [adds.new] at left
      cases left
      exact positive
    · obtain ⟨was, before, -, same, -⟩ := adds.survivor older left
      rw [same]
      exact family.positive c q was old before
  case root =>
    intro c b unforked left
    by_cases new : c = w.pm.brk
    · simp [new] at unforked
    · obtain ⟨was, before, -, same, -⟩ := adds.survivor new left
      rw [same]
      exact family.root c was (by simpa [Function.update_of_ne new] using unforked) before
  case apart =>
    intro c b left
    by_cases new : c = w.pm.brk
    · subst c
      rw [adds.new] at left
      cases left
      -- the slot of the new process was free, the slot of its parent was not
      intro same
      change i = parentId at same
      rw [same, entry] at free
      cases free
    · obtain ⟨was, before, pid, same, -⟩ := adds.survivor new left
      rw [pid, same]
      exact family.apart c was before
  case nodup =>
    intro q dad kept
    by_cases new : q = w.pm.brk
    · subst q
      rw [adds.new] at kept
      cases kept
      exact List.nodup_nil
    obtain ⟨was, before, -, -, -, -, children⟩ := adds.survivor new kept
    rw [children]
    split
    · -- the block added is younger than every child already listed
      refine List.nodup_append.mpr ⟨family.nodup q was before, by simp, ?_⟩
      rintro c member d last rfl
      rw [List.mem_singleton.mp last] at member
      exact (family.older (family.forked q was before _ member)).1 rfl
    · simpa using family.nodup q was before
  case forked =>
    intro q dad kept c member
    by_cases new : q = w.pm.brk
    · subst q
      rw [adds.new] at kept
      cases kept
      simp [newBlock] at member
    obtain ⟨was, before, -, -, -, -, children⟩ := adds.survivor new kept
    rw [children, List.mem_append] at member
    rcases member with old | last
    · have forked := family.forked q was before c old
      exact (Function.update_of_ne (family.older forked).1 _ _).trans forked
    split at last
    next here =>
      rw [List.mem_singleton.mp last, here]
      exact Function.update_self _ _ _
    next => simp at last
  case complete =>
    intro c q b dad forked left kept
    rcases update_some_eq_some.mp forked with ⟨rfl, rfl⟩ | ⟨older, old⟩
    · obtain ⟨was, before, -, -, -, -, children⟩ := adds.survivor (coherent.ne_brk found) kept
      simp [children]
    obtain ⟨was, before, -⟩ := adds.survivor older left
    obtain ⟨dad', before', -, -, -, -, children⟩ := adds.survivor (family.older old).2 kept
    rw [children]
    exact List.mem_append_left _ (family.complete c q was dad' old before before')
  case keeps =>
    intro c q dad forked kept running two
    rcases update_some_eq_some.mp forked with ⟨rfl, rfl⟩ | ⟨older, old⟩
    · simp [adds.new]
    obtain ⟨dad', before', pid, -, exited, -⟩ := adds.survivor (family.older old).2 kept
    have alive := family.keeps c q dad' old before' (exited ▸ running) (pid ▸ two)
    obtain ⟨b, before⟩ := Option.isSome_iff_exists.mp alive
    obtain ⟨b', now, -⟩ := adds.persists older before
    simp [now]

end Os161.Pid
