import Mathlib.Algebra.BigOperators.Pi
import Mathlib.Algebra.GroupWithZero.Nat
import Mathlib.Algebra.Order.BigOperators.Group.Finset
import Os161.Vfs.Emufs

/-!
# References to vnodes of emufs

However threads interleave, the count of a vnode in the table is the number of references that
threads have to it, and one more for every time that `emufs_reclaim` has found it in use: the
reference that the caller has given up is then still counted, and nobody will ever give it up again.
-/
namespace Os161.Emufs

open Foundation Vfs
open Function (update update_of_ne update_self)
open Call (secures_bind secures_held secures_ite secures_modify secures_state secures_yield)

/-- What a thread can have: `e_lock`, the lock of a vnode, a reference, or a vnode that it has
taken out of the table. -/
inductive Item where
  | elock
  | count (p : Ptr)
  | ref (p : Ptr)
  | out (p : Ptr)
  deriving DecidableEq

/-- So many of each. -/
abbrev Hand := Item → Nat

abbrev one (x : Item) : Hand := Pi.single x 1

/-- What all threads have together of a vnode. -/
structure ValidAt (all : Hand) (s : EmufsFs) (p : Ptr) : Prop where
  count : ∀ ev, s.heap p = some ev → all (.count p) = if ev.locked = true then 1 else 0
  table : p ∈ s.vnodes → ∃ ev, s.heap p = some ev ∧ ev.refcount = all (.ref p) + s.refused p ∧
    0 < ev.refcount ∧ ev.opencount = 0
  outside : p ∉ s.vnodes → all (.count p) = 0 ∧ all (.ref p) = 0 ∧ s.refused p = 0
  out : all (.out p) ≠ 0 → all (.out p) = 1 ∧ p ∉ s.vnodes ∧ s.heap p ≠ none
  fresh : s.brk ≤ p → s.heap p = none

structure Valid (all : Hand) (s : EmufsFs) : Prop where
  elock : all .elock = if s.locked = true then 1 else 0
  each : ∀ p, ValidAt all s p
  nodup : s.vnodes.Nodup
  closes : ∀ k, s.closes k = .ok ()

/-- What others leave alone. -/
structure Frame (own : Hand) (s t : EmufsFs) : Prop where
  table : own .elock ≠ 0 → t.vnodes = s.vnodes
  locked : ∀ p, own (.count p) ≠ 0 → t.heap p = s.heap p
  out : ∀ p, own (.out p) ≠ 0 → t.heap p = s.heap p
  /-- The last reference to a vnode that can be found only under the lock. -/
  sole : own .elock ≠ 0 → ∀ p ∈ s.vnodes, ∀ ev, s.heap p = some ev → ev.locked = false →
    own (.ref p) ≠ 0 → ev.refcount ≤ own (.ref p) → t.heap p = some ev

section

variable {own rest after : Hand} {s t u : EmufsFs} {p q : Ptr} {ev ev' : EmufsVnode}

namespace Frame

theorem trans (first : Frame own s t) (second : Frame own t u) : Frame own s u where
  table mine := (second.table mine).trans (first.table mine)
  locked p mine := (second.locked p mine).trans (first.locked p mine)
  out p mine := (second.out p mine).trans (first.out p mine)
  sole mine p member ev here free some all := by
    have here' := first.sole mine p member ev here free some all
    have member' : p ∈ t.vnodes := (first.table mine).symm ▸ member
    exact second.sole mine p member' ev here' free some all

theorem part (frame : Frame (own + rest) s t) : Frame own s t where
  table mine := frame.table (by rw [Pi.add_apply]; omega)
  locked p mine := frame.locked p (by rw [Pi.add_apply]; omega)
  out p mine := frame.out p (by rw [Pi.add_apply]; omega)
  sole mine p member ev here free some all := by
    refine frame.sole ?_ p member ev here free ?_ ?_ <;> rw [Pi.add_apply] <;> omega

theorem of_same (heap : t.heap = s.heap) (vnodes : t.vnodes = s.vnodes) : Frame own s t where
  table _ := vnodes
  locked _ _ := by rw [heap]
  out _ _ := by rw [heap]
  sole _ p _ ev here _ _ _ := by rw [heap, here]

/-- Something happens to the vnode at `p` only, and nobody else can tell. -/
theorem of_others (vnodes : t.vnodes = s.vnodes) (others : ∀ q, q ≠ p → t.heap q = s.heap q)
    (unlocked : own (.count p) = 0) (not_out : own (.out p) = 0)
    (hidden : own .elock ≠ 0 → p ∈ s.vnodes → ∀ ev, s.heap p = some ev → ev.locked = false →
      own (.ref p) ≠ 0 → ev.refcount ≤ own (.ref p) → False) : Frame own s t where
  table _ := vnodes
  locked q mine := others q fun same => mine (same ▸ unlocked)
  out q mine := others q fun same => mine (same ▸ not_out)
  sole mine q member ev here free some all := by
    by_cases same : q = p
    · subst same
      exact (hidden mine member ev here free some all).elim
    · exact (others q same).trans here

end Frame

/-- The protocol of all threads; nobody halts. -/
abbrev sharing : Protocol Halt EmufsFs Hand := pooled Valid Frame (fun _ => True) fun _ => False

private theorem agreement (n : Nat) :
    Agreement sharing (fun (shares : Fin n → Hand) s => Valid (∑ i, shares i) s) fun _ => True :=
  pooled_agreement (fun _ _ => .of_same rfl rfl) Frame.trans Frame.part

def EmufsFs.put (s : EmufsFs) (p : Ptr) (ev : EmufsVnode) : EmufsFs :=
  { s with heap := update s.heap p (some ev) }

theorem EmufsFs.heap_put : (s.put p ev).heap p = some ev := update_self ..

theorem EmufsFs.heap_put_of_ne (other : q ≠ p) : (s.put p ev).heap q = s.heap q :=
  update_of_ne other ..

open EmufsFs (heap_put heap_put_of_ne)

section

variable {all all' : Hand}

/-- A vnode to which nothing happens, except that a reference may be counted in another place. -/
theorem ValidAt.congr (valid : ValidAt all s q) (heap : t.heap q = s.heap q)
    (vnodes : q ∈ t.vnodes ↔ q ∈ s.vnodes) (brk : s.brk ≤ t.brk)
    (count : all' (.count q) = all (.count q)) (out : all' (.out q) = all (.out q))
    (ref : all' (.ref q) + t.refused q = all (.ref q) + s.refused q) : ValidAt all' t q where
  count ev found := count.trans (valid.count ev (heap ▸ found))
  table member := by
    obtain ⟨ev, found, counted, used⟩ := valid.table (vnodes.mp member)
    exact ⟨ev, heap.trans found, counted.trans ref.symm, used⟩
  outside absent := by
    obtain ⟨unlocked, unused, never⟩ := valid.outside (mt vnodes.mpr absent)
    exact ⟨count.trans unlocked, by omega, by omega⟩
  out some := by
    rw [heap, vnodes, out]
    exact valid.out (out ▸ some)
  fresh above := heap.trans (valid.fresh (Nat.le_trans brk above))

namespace Valid

/-- Something happens to the vnode at `p` only. -/
theorem change (valid : Valid all s) (elock : all' .elock = if t.locked = true then 1 else 0)
    (here : ValidAt all' t p) (others : ∀ q, q ≠ p → t.heap q = s.heap q ∧
      (q ∈ t.vnodes ↔ q ∈ s.vnodes) ∧ all' (.count q) = all (.count q) ∧
      all' (.out q) = all (.out q) ∧ all' (.ref q) + t.refused q = all (.ref q) + s.refused q)
    (brk : s.brk ≤ t.brk) (nodup : t.vnodes.Nodup) (closes : t.closes = s.closes) :
    Valid all' t := by
  refine ⟨elock, fun q => ?_, nodup, closes ▸ valid.closes⟩
  by_cases same : q = p
  · exact same ▸ here
  · obtain ⟨heap, vnodes, count, out, ref⟩ := others q same
    exact (valid.each q).congr heap vnodes brk count out ref

theorem put (valid : Valid all s) (here : s.heap p = some ev) (elock : all' .elock = all .elock)
    (out : ∀ q, all' (.out q) = all (.out q))
    (others : ∀ q, q ≠ p → all' (.count q) = all (.count q) ∧ all' (.ref q) = all (.ref q))
    (count : all' (.count p) = if ev'.locked = true then 1 else 0)
    (ref : p ∈ s.vnodes → ev'.refcount = all' (.ref p) + s.refused p ∧ 0 < ev'.refcount ∧
      ev'.opencount = 0)
    (outside : p ∉ s.vnodes → all' (.count p) = 0 ∧ all' (.ref p) = 0) :
    Valid all' (s.put p ev') := by
  have before := valid.each p
  refine valid.change (elock.trans valid.elock) ⟨fun ew found => ?_, fun member =>
    ⟨ev', heap_put, ref member⟩, fun absent => ?_, fun some => ?_, fun above => ?_⟩
    (fun q other => ⟨heap_put_of_ne other, Iff.rfl, (others q other).1, out q, ?_⟩) (Nat.le_refl _)
    valid.nodup rfl
  · cases heap_put.symm.trans found
    exact count
  · exact ⟨(outside absent).1, (outside absent).2, (before.outside absent).2.2⟩
  · rw [out p] at some ⊢
    obtain ⟨once, absent, -⟩ := before.out some
    exact ⟨once, absent, by rw [heap_put]; exact Option.some_ne_none _⟩
  · cases here.symm.trans (before.fresh above)
  · rw [(others q other).2]
    rfl

/-- Nothing happens to the vnodes and the table. -/
theorem same_heap (valid : Valid all s) (heap : t.heap = s.heap) (vnodes : t.vnodes = s.vnodes)
    (brk : s.brk ≤ t.brk) (closes : t.closes = s.closes)
    (elock : all' .elock = if t.locked = true then 1 else 0)
    (count : ∀ q, all' (.count q) = all (.count q)) (out : ∀ q, all' (.out q) = all (.out q))
    (ref : ∀ q, all' (.ref q) + t.refused q = all (.ref q) + s.refused q) : Valid all' t where
  elock := elock
  each q := (valid.each q).congr (by rw [heap]) (by rw [vnodes]) brk (count q) (out q) (ref q)
  nodup := vnodes ▸ valid.nodup
  closes := closes ▸ valid.closes

/-- Whoever has a reference or the lock of a vnode finds it in the table. -/
theorem mem_of_ref (valid : Valid (own + rest) s) (mine : own (.ref p) ≠ 0) : p ∈ s.vnodes := by
  by_contra absent
  have none := ((valid.each p).outside absent).2.1
  rw [Pi.add_apply] at none
  omega

theorem mem_of_count (valid : Valid (own + rest) s) (mine : own (.count p) ≠ 0) :
    p ∈ s.vnodes := by
  by_contra absent
  have none := ((valid.each p).outside absent).1
  rw [Pi.add_apply] at none
  omega

theorem not_out (valid : Valid all s) (member : p ∈ s.vnodes) : all (.out p) = 0 := by
  by_contra some
  exact ((valid.each p).out some).2.1 member

end Valid

end

/-! ### Steps of a thread -/

theorem guar_counters (heap : t.heap = s.heap) (vnodes : t.vnodes = s.vnodes)
    (locked : t.locked = s.locked) (refused : t.refused = s.refused) (closes : t.closes = s.closes)
    (brk : s.brk ≤ t.brk) : sharing.guar own own s t := by
  refine fun rest valid => ⟨?_, .of_same heap vnodes⟩
  refine valid.same_heap heap vnodes brk closes ?_ (fun _ => rfl) (fun _ => rfl) fun _ => by
    rw [refused]
  rw [locked]
  exact valid.elock

private theorem guar_acquire (free : s.locked = false) :
    sharing.guar own (own + one .elock) s { s with locked := true } := by
  refine fun rest valid => ⟨?_, .of_same rfl rfl⟩
  have none := valid.elock
  refine valid.same_heap rfl rfl (Nat.le_refl _) rfl ?_ ?_ ?_ ?_
  all_goals simp_all

private theorem guar_release :
    sharing.guar (after + one .elock) after s { s with locked := false } := by
  refine fun rest valid => ⟨?_, .of_same rfl rfl⟩
  have all := valid.elock
  refine valid.same_heap rfl rfl (Nat.le_refl _) rfl ?_ ?_ ?_ ?_
  · simp only [Pi.add_apply, Pi.single_eq_same] at all ⊢
    split at all
    · rw [if_neg (by decide)]
      omega
    · omega
  all_goals simp

/-- A refused reference is counted in another place. -/
theorem guar_refuse :
    sharing.guar (after + one (.ref p)) after s
      { s with refused := update s.refused p (s.refused p + 1) } := by
  refine fun rest valid => ⟨?_, .of_same rfl rfl⟩
  refine valid.same_heap rfl rfl (Nat.le_refl _) rfl ?_ ?_ ?_ fun q => ?_
  · simpa using valid.elock
  · simp
  · simp
  by_cases same : q = p
  · subst same
    simp only [Pi.add_apply, Pi.single_eq_same, update_self]
    omega
  · simp [same]

/-- The lock of a vnode in the table that the thread has a reference to, or has found. -/
theorem guar_lock (here : s.heap p = some ev) (free : ev.locked = false) (member : p ∈ s.vnodes)
    (reach : own (.ref p) ≠ 0 ∨ own .elock ≠ 0) :
    sharing.guar own (own + one (.count p)) s (s.put p { ev with locked := true }) := by
  intro rest valid
  have none := (valid.each p).count ev here
  rw [free, if_neg (by decide)] at none
  obtain ⟨ew, found, counted, used, unopened⟩ := (valid.each p).table member
  cases here.symm.trans found
  constructor
  · refine valid.put here ?_ ?_ (fun q other => ?_) ?_ (fun _ => ?_) fun absent =>
      absurd member absent
    · simp
    · simp
    · simp [other]
    · simp_all
    · simpa using ⟨counted, used, unopened⟩
  have out := valid.not_out member
  rw [Pi.add_apply] at none out
  refine .of_others rfl (fun q other => heap_put_of_ne other) (by omega) (by omega) ?_
  intro theirs _ ew found _ some all
  cases here.symm.trans found
  have lock := valid.elock
  rw [Pi.add_apply] at counted lock
  rcases reach with mine | mine
  · omega
  · split at lock <;> omega

/-- The vnode changes while the thread has its lock. -/
theorem frame_of_locked (valid : Valid (own + rest) s) (mine : own (.count p) ≠ 0)
    (here : s.heap p = some ev) : Frame rest s (s.put p ev') := by
  have lock := (valid.each p).count ev here
  have out := valid.not_out (valid.mem_of_count mine)
  rw [Pi.add_apply] at lock out
  refine .of_others rfl (fun q other => heap_put_of_ne other) ?_ (by omega) ?_
  · split at lock <;> omega
  intro _ _ ew found free _ _
  cases here.symm.trans found
  rw [free, if_neg (by decide)] at lock
  omega

/-- A thread that has the lock of a vnode changes its count, or gives the lock up. -/
theorem guar_locked (here : s.heap p = some ev) (mine : own (.count p) ≠ 0)
    (same : ∀ x, x ≠ .count p → x ≠ .ref p → after x = own x)
    (lock : own (.count p) = after (.count p) + if ev'.locked = true then 0 else 1)
    (ref : ev'.refcount + own (.ref p) = ev.refcount + after (.ref p))
    (used : 0 < ev.refcount → 0 < ev'.refcount) (opened : ev'.opencount = ev.opencount) :
    sharing.guar own after s (s.put p ev') := by
  intro rest valid
  have member := valid.mem_of_count mine
  have once := (valid.each p).count ev here
  obtain ⟨ew, found, counted, positive, unopened⟩ := (valid.each p).table member
  cases here.symm.trans found
  refine ⟨?_, frame_of_locked valid mine here⟩
  refine valid.put here ?_ (fun q => ?_) (fun q other => ?_) ?_
    (fun _ => ⟨?_, used positive, opened.trans unopened⟩) fun absent => absurd member absent
  · simp [same]
  · simp [same]
  · simp [same, other]
  · rw [Pi.add_apply] at once ⊢
    split at lock
    next held =>
      rw [if_pos held]
      split at once <;> omega
    next free =>
      rw [if_neg free]
      split at once <;> omega
  · rw [Pi.add_apply] at counted ⊢
    omega

/-- The vnode goes out of the table with its last reference. -/
theorem guar_erase (lock : after .elock ≠ 0) (here : s.heap p = some ev) (free : ev.locked = false)
    (last : ev.refcount = 1) :
    sharing.guar (after + one (.ref p)) (after + one (.out p)) s
      { s with vnodes := s.vnodes.erase p } := by
  intro rest valid
  have member : p ∈ s.vnodes := valid.mem_of_ref (by simp)
  have absent : p ∉ s.vnodes.erase p := valid.nodup.not_mem_erase
  have not_out := valid.not_out member
  have unlocked := (valid.each p).count ev here
  rw [free, if_neg (by decide)] at unlocked
  obtain ⟨ew, found, counted, -⟩ := (valid.each p).table member
  cases here.symm.trans found
  simp only [Pi.add_apply, Pi.single_eq_same] at counted
  constructor
  · refine valid.change (p := p) ?_ ⟨fun ew found => ?_, fun inside => absurd inside absent,
      fun _ => ?_, fun _ => ⟨?_, absent, by simp [here]⟩, (valid.each p).fresh⟩
      (fun q other => ⟨rfl, List.mem_erase_of_ne other, ?_, ?_, ?_⟩) (Nat.le_refl _)
      (valid.nodup.erase p) rfl
    · simpa using valid.elock
    · simpa using (valid.each p).count ew found
    · simp at unlocked ⊢
      omega
    · simp_all
    all_goals simp [other]
  · have one := valid.elock
    simp only [Pi.add_apply] at one
    have theirs : rest .elock = 0 := by split at one <;> omega
    exact ⟨fun mine => absurd theirs mine, fun _ _ => rfl, fun _ _ => rfl,
      fun mine => absurd theirs mine⟩

/-- `vnode_kill`, of a vnode that is no longer in the table. -/
theorem guar_kill (here : s.heap p = some ev) (mine : own (.out p) ≠ 0)
    (free : ev'.locked = false) : sharing.guar own own s (s.put p ev') := by
  intro rest valid
  have some : (own + rest) (.out p) ≠ 0 := by
    rw [Pi.add_apply]
    omega
  obtain ⟨once, absent, -⟩ := (valid.each p).out some
  obtain ⟨unlocked, unused, -⟩ := (valid.each p).outside absent
  refine ⟨?_, ?_⟩
  · refine valid.put here rfl (fun _ => rfl) (fun _ _ => ⟨rfl, rfl⟩) ?_
      (fun member => absurd member absent) fun _ => ⟨unlocked, unused⟩
    rw [free, if_neg (by decide), unlocked]
  · rw [Pi.add_apply] at unlocked once
    exact .of_others rfl (fun q other => heap_put_of_ne other) (by omega) (by omega)
      fun _ member => absurd member absent

private theorem guar_free :
    sharing.guar (after + one (.out p)) after s
      { s with heap := update s.heap p none } := by
  intro rest valid
  have some : (after + one (.out p) + rest) (.out p) ≠ 0 := by simp
  obtain ⟨once, absent, -⟩ := (valid.each p).out some
  obtain ⟨unlocked, unused, -⟩ := (valid.each p).outside absent
  have left : (after + rest) (.out p) = 0 := by
    simp only [Pi.add_apply, Pi.single_eq_same] at once ⊢
    omega
  have other : ∀ q, q ≠ p → update s.heap p none q = s.heap q := fun q apart =>
    update_of_ne apart ..
  constructor
  · refine valid.change (p := p) ?_ ⟨fun ew found => ?_, fun member => absurd member absent,
      fun _ => ?_, fun some => absurd left some, fun _ => update_self ..⟩
      (fun q apart => ⟨other q apart, Iff.rfl, ?_, ?_, ?_⟩) (Nat.le_refl _) valid.nodup rfl
    · simpa using valid.elock
    · cases (update_self ..).symm.trans found
    · simpa using (valid.each p).outside absent
    all_goals simp [apart]
  · simp only [Pi.add_apply] at unlocked left
    exact .of_others rfl other (by omega) (by omega) fun _ member => absurd member absent

private theorem guar_insert (mine : own .elock ≠ 0) (none : s.heap p = none) (handed : p < s.brk)
    (last : ev.refcount = 1) (unopened : ev.opencount = 0) (free : ev.locked = false) :
    sharing.guar own (own + one (.ref p)) s
      { s with heap := update s.heap p (some ev), vnodes := s.vnodes ++ [p] } := by
  intro rest valid
  have absent : p ∉ s.vnodes := by
    intro member
    obtain ⟨ew, found, -⟩ := (valid.each p).table member
    cases none.symm.trans found
  obtain ⟨unlocked, unused, never⟩ := (valid.each p).outside absent
  have not_out : (own + rest) (.out p) = 0 := by
    by_contra some
    exact ((valid.each p).out some).2.2 none
  have other : ∀ q, q ≠ p → update s.heap p (some ev) q = s.heap q := fun q apart =>
    update_of_ne apart ..
  have here : update s.heap p (some ev) p = some ev := update_self ..
  constructor
  · refine valid.change (p := p) ?_ ⟨fun ew found => ?_,
      fun _ => ⟨ev, here, ?_, by omega, unopened⟩,
      fun gone => absurd (List.mem_append_right _ (List.mem_singleton_self p)) gone,
      fun some => absurd not_out (by simpa using some),
      fun above => absurd handed (Nat.not_lt.mpr above)⟩
      (fun q apart => ⟨other q apart, by simp [apart], ?_, ?_, ?_⟩) (Nat.le_refl _)
      (valid.nodup.append (List.nodup_singleton p) (by simpa using absent)) rfl
    · simpa using valid.elock
    · cases here.symm.trans found
      simp_all
    · simp only [Pi.add_apply, Pi.single_eq_same] at unused ⊢
      omega
    all_goals simp [apart]
  · have lock := valid.elock
    rw [Pi.add_apply] at lock unlocked not_out
    have theirs : rest .elock = 0 := by split at lock <;> omega
    refine ⟨fun mine => absurd theirs mine, fun q mine => other q ?_, fun q mine => other q ?_,
      fun mine => absurd theirs mine⟩
    · rintro rfl
      omega
    · rintro rfl
      omega

/-! ### Calls -/

variable {α : Type} {E : Errno → Hand → EmufsFs → Prop} {Q : Unit → Hand → EmufsFs → Prop}

theorem secures_fetch {Q : Vnode → Hand → EmufsFs → Prop} (here : s.heap p = some ev) :
    (fetch p : Code EmufsFs Vnode).Secures sharing own s Q E ↔ Q ev.toVnode own s := by
  have found : Vnodes.vnode s p = some ev.toVnode :=
    congrArg (Option.map EmufsVnode.toVnode) here
  rw [fetch, secures_bind, secures_state, found, Call.secures_expect_some]

theorem secures_alter {f : Vnode → Vnode} (here : s.heap p = some ev) :
    (alter p f : Code EmufsFs Unit).Secures sharing own s Q E ↔
      ∃ after, sharing.guar own after s (s.put p { ev with toVnode := f ev.toVnode }) ∧
        Q () after (s.put p { ev with toVnode := f ev.toVnode }) := by
  have same : Vnodes.setVnode p (f ev.toVnode) s =
      s.put p { ev with toVnode := f ev.toVnode } := by
    change { s with heap := update s.heap p ((s.heap p).map _) } = _
    rw [here]
    rfl
  rw [alter, secures_bind, secures_fetch here, secures_modify, same]

theorem secures_elockAcquire
    (next : ∀ t, Fits Valid (own + one .elock) t → Q () (own + one .elock) t) :
    elockAcquire.Secures sharing own s Q E := by
  rw [elockAcquire, secures_bind, Call.secures_await]
  refine ⟨False.elim, fun t _ free => ?_⟩
  rw [secures_bind, secures_modify]
  refine ⟨own + one .elock, guar_acquire (by simpa using free), ?_⟩
  rw [secures_yield]
  exact fun u passed => next u passed.1.1

theorem secures_elockRelease
    (next : ∀ u t, Frame (after + one .elock) s u → Frame after { u with locked := false } t →
      Fits Valid after t → Q () after t) :
    elockRelease.Secures sharing (after + one .elock) s Q E := by
  rw [elockRelease, secures_bind, secures_yield]
  rintro u ⟨⟨⟨rest, valid⟩, frame⟩, -⟩
  have held : u.locked = true := by
    have lock := valid.elock
    by_contra free
    simp [free] at lock
  rw [secures_bind, secures_state, secures_bind, secures_held held, secures_bind, secures_modify]
  refine ⟨after, guar_release, ?_⟩
  rw [secures_yield]
  exact fun t passed => next u t frame passed.1.2 passed.1.1

/-- The lock of a vnode, for a thread that has a reference or has found it under `e_lock`. -/
theorem secures_lockAcquire (reach : own (.ref p) ≠ 0 ∨ (own .elock ≠ 0 ∧ p ∈ s.vnodes))
    (next : ∀ t ev, Fits Valid (own + one (.count p)) t → t.heap p = some ev → ev.locked = true →
      Q () (own + one (.count p)) t) :
    (lockAcquire p : Code EmufsFs Unit).Secures sharing own s Q E := by
  rw [lockAcquire, secures_bind, Call.secures_await]
  refine ⟨False.elim, ?_⟩
  rintro t ⟨⟨⟨rest, valid⟩, frame⟩, -⟩ ready
  have member : p ∈ t.vnodes := by
    rcases reach with mine | ⟨mine, member⟩
    · exact valid.mem_of_ref mine
    · exact (frame.table mine).symm ▸ member
  obtain ⟨ev, here, -⟩ := (valid.each p).table member
  have free : ev.locked = false := by
    change ((t.heap p).map EmufsVnode.toVnode).all (!·.locked) = true at ready
    rw [here] at ready
    simpa using ready
  rw [secures_bind, secures_alter here]
  refine ⟨own + one (.count p), guar_lock here free member (reach.imp_right And.left), ?_⟩
  rw [secures_yield]
  rintro u ⟨⟨fits, frame'⟩, -⟩
  have kept : u.heap p = some { ev with locked := true } :=
    (frame'.locked p (by simp)).trans heap_put
  exact next u _ fits kept rfl

theorem secures_lockRelease (here : s.heap p = some ev) (held : ev.locked = true)
    (next : ∀ u t, Frame (after + one (.count p)) s u →
      Frame after (u.put p { ev with locked := false }) t → Fits Valid after t → Q () after t) :
    (lockRelease p : Code EmufsFs Unit).Secures sharing (after + one (.count p)) s Q E := by
  rw [lockRelease, secures_bind, secures_yield]
  rintro u ⟨⟨-, frame⟩, -⟩
  have here' : u.heap p = some ev := (frame.locked p (by simp)).trans here
  rw [secures_bind, secures_fetch here', secures_bind, secures_held held, secures_bind,
    secures_alter here']
  refine ⟨after, guar_locked here' (by simp) (fun _ lock _ => by simp [lock]) (by simp) (by simp) id
    rfl, ?_⟩
  rw [secures_yield]
  exact fun t passed => next u t frame passed.1.2 passed.1.1

private theorem secures_vnodeIncref (lock : own .elock ≠ 0) (member : p ∈ s.vnodes)
    (next : ∀ t, Fits Valid (own + one (.ref p)) t → Q () (own + one (.ref p)) t) :
    (vnodeIncref p : Code EmufsFs Unit).Secures sharing own s Q E := by
  rw [vnodeIncref, secures_bind]
  refine secures_lockAcquire (.inr ⟨lock, member⟩) fun t ev _ here held => ?_
  rw [secures_bind, secures_alter here]
  refine ⟨own + one (.ref p) + one (.count p), guar_locked here (by simp)
    (fun _ _ ref => by simp [ref]) (by simp [held]) ?_ (fun _ => Nat.succ_pos _) rfl, ?_⟩
  · simp only [Pi.add_apply, Pi.single_eq_same]
    omega
  exact secures_lockRelease heap_put held fun _ u _ _ fits => next u fits

private theorem secures_vnodeCheck (mine : own (.ref p) ≠ 0) (fits : Fits Valid own s)
    (next : ∀ t, Fits Valid own t → Q () own t) :
    (vnodeCheck p true : Code EmufsFs Unit).Secures sharing own s Q E := by
  obtain ⟨rest, valid⟩ := fits
  obtain ⟨ev, here, -⟩ := (valid.each p).table (valid.mem_of_ref mine)
  rw [vnodeCheck, secures_bind, secures_fetch here, secures_bind]
  refine secures_lockAcquire (.inl mine) fun t ev' _ here' held => ?_
  rw [secures_bind, secures_fetch here', secures_bind, secures_held (.inr rfl)]
  exact secures_lockRelease here' held fun _ u _ _ fits => next u fits

/-- The device does not fail, so `emu_close` needs one operation. -/
theorem secures_emuClose (fits : Fits Valid own s)
    (next : ∀ t, Frame own s t → Fits Valid own t → Q () own t) :
    emuClose.Secures sharing own s Q E := by
  obtain ⟨rest, valid⟩ := fits
  have success := valid.closes s.started
  rw [emuClose, closeLoop, secures_bind, closeOnce, secures_bind, secures_state,
    secures_bind, secures_modify]
  refine ⟨own, guar_counters rfl rfl rfl rfl rfl (Nat.le_refl _), ?_⟩
  rw [secures_bind, secures_yield]
  rintro t ⟨⟨fits, frame⟩, -⟩
  rw [Call.secures_pure, success, if_neg (by decide), Call.secures_ofExcept_ok]
  have same : Frame own s { s with started := s.started + 1 } := .of_same rfl rfl
  exact next t (same.trans frame) fits

/-- `emufs_reclaim` takes the reference with it, whatever it returns. -/
theorem secures_emufsReclaim :
    (emufsReclaim p).Secures sharing (after + one (.ref p)) s (fun _ left _ => left = after)
      fun _ left _ => left = after := by
  rw [emufsReclaim, secures_bind]
  refine secures_elockAcquire fun t _ => ?_
  rw [secures_bind]
  refine secures_lockAcquire (.inl (by simp)) fun t ev fits here held => ?_
  rw [secures_bind, secures_fetch here, secures_ite]
  refine ⟨fun _ => ?_, fun last => ?_⟩
  · -- somebody has loaded the vnode again
    rw [secures_bind, secures_modify]
    have hand : after + one (.ref p) + one .elock + one (.count p) =
        after + one .elock + one (.count p) + one (.ref p) := by
      rw [add_right_comm after, add_right_comm]
    rw [hand]
    refine ⟨_, guar_refuse, ?_⟩
    rw [secures_bind]
    refine secures_lockRelease here held fun _ u _ _ _ => ?_
    rw [secures_bind]
    exact secures_elockRelease fun _ _ _ _ _ => rfl
  have last : ev.refcount = 1 := not_not.mp last
  obtain ⟨rest, valid⟩ := fits
  have member : p ∈ t.vnodes := valid.mem_of_ref (by simp)
  obtain ⟨ew, found, -, -, unopened⟩ := (valid.each p).table member
  cases here.symm.trans found
  rw [secures_bind]
  refine secures_lockRelease here held fun u t frame frame' fits => ?_
  -- nobody else can come to the vnode as long as `e_lock` is held
  have member' : p ∈ u.vnodes := (frame.table (by simp)).symm ▸ member
  have kept := frame'.sole (by simp) p member' _ heap_put rfl (by simp) (by simp [last])
  rw [secures_bind, Call.secures_attempt]
  refine secures_emuClose fits fun v frame'' fits' => ?_
  have member'' : p ∈ t.vnodes := (frame'.table (by simp)).symm ▸ member'
  have kept' := frame''.sole (by simp) p member'' _ kept rfl (by simp) (by simp [last])
  obtain ⟨rest', valid'⟩ := fits'
  rw [secures_bind, secures_state, secures_bind, secures_held (valid'.mem_of_ref (by simp)),
    secures_bind, secures_modify, add_right_comm]
  refine ⟨_, guar_erase (by simp) kept' rfl last, ?_⟩
  rw [secures_bind, add_right_comm]
  refine secures_elockRelease fun w x out out' _ => ?_
  have gone : x.heap p = some { ev with locked := false } :=
    ((out'.out p (by simp)).trans (out.out p (by simp))).trans kept'
  rw [secures_bind, vnodeKill, secures_bind, secures_fetch gone, secures_bind, secures_held last,
    secures_bind, secures_held unopened, secures_alter gone]
  refine ⟨_, guar_kill gone (by simp) rfl, ?_⟩
  exact ⟨after, guar_free, rfl⟩

/-- `VOP_DECREF` takes one reference. -/
theorem secures_emufsDecref :
    (emufsDecref p).Secures sharing (after + one (.ref p)) s (fun _ left _ => left = after)
      fun _ left _ => left = after := by
  rw [emufsDecref, vnodeDecref, secures_bind]
  refine secures_lockAcquire (.inl (by simp)) fun t ev fits here held => ?_
  obtain ⟨rest, valid⟩ := fits
  obtain ⟨ew, found, -, used, -⟩ := (valid.each p).table (valid.mem_of_ref (by simp))
  cases here.symm.trans found
  rw [secures_bind, secures_fetch here, secures_bind, secures_held used, secures_ite]
  refine ⟨fun more => ?_, fun _ => ?_⟩
  · rw [secures_bind, secures_alter here]
    refine ⟨after + one (.count p), guar_locked here (by simp) (fun _ _ ref => by simp [ref])
      (by simp [held]) ?_ (fun _ => Nat.sub_pos_of_lt more) rfl, ?_⟩
    · simp only [Pi.add_apply, Pi.single_eq_same]
      omega
    exact secures_lockRelease heap_put held fun _ _ _ _ _ => rfl
  rw [secures_bind]
  refine secures_lockRelease here held fun _ u _ _ fits' => ?_
  rw [secures_bind]
  refine secures_vnodeCheck (by simp) fits' fun v _ => ?_
  rw [secures_bind, Call.secures_attempt]
  exact secures_emufsReclaim

variable {handle : CUnsigned}

private theorem secures_findHandle {Q : Option Ptr → Hand → EmufsFs → Prop}
    (vnodes : List Ptr) (inside : ∀ q ∈ vnodes, s.heap q ≠ none) (missing : Q none own s)
    (found : ∀ q ∈ vnodes, Q (some q) own s) :
    (findHandle handle vnodes).Secures sharing own s Q E := by
  induction vnodes with
  | nil => exact missing
  | cons q vnodes ih =>
    obtain ⟨ev, here⟩ := Option.ne_none_iff_exists'.mp (inside q List.mem_cons_self)
    rw [findHandle, secures_bind, secures_state, here, secures_bind,
      Call.secures_expect_some, secures_ite]
    refine ⟨fun _ => found q List.mem_cons_self, fun _ => ih ?_ ?_⟩
    · exact fun r member => inside r (List.mem_cons_of_mem q member)
    · exact fun r member => found r (List.mem_cons_of_mem q member)

private theorem secures_kmalloc
    (next : ∀ asked, Q () own { s with asked := asked })
    (failed : ∀ asked, E .ENOMEM own { s with asked := asked }) :
    kmalloc.Secures sharing own s Q E := by
  rw [kmalloc, secures_bind, secures_state, secures_bind, secures_modify]
  refine ⟨own, guar_counters rfl rfl rfl rfl rfl (Nat.le_refl _), ?_⟩
  rw [secures_ite]
  exact ⟨fun _ => failed _, fun _ => next _⟩

private theorem secures_makeVnode {Q : Ptr → Hand → EmufsFs → Prop} {isdir : Bool}
    (lock : own .elock ≠ 0) (fits : Fits Valid own s)
    (next : ∀ q t, Q q (own + one (.ref q)) t) (failed : ∀ t, E .ENOMEM own t) :
    (makeVnode handle isdir).Secures sharing own s Q E := by
  obtain ⟨rest, valid⟩ := fits
  have fresh : s.heap s.brk = none := (valid.each s.brk).fresh (Nat.le_refl _)
  rw [makeVnode, secures_bind]
  refine secures_kmalloc (fun _ => ?_) fun _ => failed _
  rw [secures_bind, secures_state, secures_bind, secures_modify]
  refine ⟨own, guar_counters rfl rfl rfl rfl rfl (Nat.le_succ _), ?_⟩
  rw [secures_bind]
  refine secures_kmalloc (fun _ => ?_) fun _ => failed _
  rw [secures_bind]
  refine secures_kmalloc (fun _ => ?_) fun _ => failed _
  rw [secures_bind, secures_modify]
  exact ⟨_, guar_insert lock fresh (Nat.lt_succ_self _) rfl rfl rfl, next _ _⟩

/-- `emufs_loadvnode` returns a vnode with a reference for its caller. -/
theorem secures_emufsLoadvnode {isdir : Bool} :
    (emufsLoadvnode handle isdir).Secures sharing own s
      (fun q left _ => left = own + one (.ref q)) fun _ left _ => left = own := by
  rw [emufsLoadvnode, secures_bind]
  refine secures_elockAcquire fun t fits => ?_
  have inside : ∀ q ∈ t.vnodes, t.heap q ≠ none := by
    intro q member empty
    obtain ⟨rest, valid⟩ := fits
    obtain ⟨ev, here, -⟩ := (valid.each q).table member
    cases empty.symm.trans here
  rw [secures_bind, secures_state, secures_bind]
  refine secures_findHandle t.vnodes inside ?_ fun q member => ?_
  · -- no vnode has the handle
    rw [secures_bind, Call.secures_attempt]
    refine secures_makeVnode (by simp) fits (fun q u => ?_) fun u => ?_
    · rw [secures_bind, add_right_comm]
      exact secures_elockRelease fun _ _ _ _ _ => rfl
    · rw [secures_bind]
      exact secures_elockRelease fun _ _ _ _ _ => rfl
  rw [secures_bind]
  refine secures_vnodeIncref (by simp) member fun u _ => ?_
  rw [secures_bind, add_right_comm]
  exact secures_elockRelease fun _ _ _ _ _ => rfl

end

/-! ### Whole runs -/

/-- The share of a thread between two calls: its references. -/
def hand (held : Ptr → Nat) : Hand
  | .ref p => held p
  | _ => 0

theorem hand_add (held : Ptr → Nat) (p : Ptr) :
    hand held + one (.ref p) = hand (update held p (held p + 1)) := by
  funext x
  cases x with
  | ref q =>
    by_cases same : q = p
    · subst same
      simp [hand]
    · simp [hand, same]
  | elock | count q | out q => simp [hand]

private theorem hand_take {held : Ptr → Nat} {p : Ptr} (some : held p ≠ 0) :
    hand held = hand (update held p (held p - 1)) + one (.ref p) := by
  rw [hand_add, update_self, Function.update_idem,
    Nat.sub_add_cancel (Nat.pos_of_ne_zero some), Function.update_eq_self]

/-- During a call the references that the thread has besides. -/
def Keeps (held : Ptr → Nat) (own : Hand) : Prop := ∃ more, own = hand held + more

private theorem serves (n : Nat) :
    Serves sharing (fun (shares : Fin n → Hand) s => Valid (∑ i, shares i) s)
      (fun _ => True) service (fun held own => own = hand held) Keeps where
  prompt := id
  keeps {held left own r} owns begun := by
    cases r with
    | load handle isdir =>
      cases begun
      exact ⟨0, owns⟩
    | release p =>
      obtain ⟨some, same⟩ := Option.ite_none_left_eq_some.mp begun
      cases same
      exact ⟨_, owns.trans (hand_take some)⟩
  secures {shares s i held left r} _ _ owns begun := by
    cases r with
    | load handle isdir =>
      cases begun
      dsimp only [service]
      rw [owns, ← add_zero (hand held), secures_bind]
      refine (secures_emufsLoadvnode.frame (hand held) Frame.part).mono ?_ ?_
      · rintro q _ _ ⟨_, rfl, rfl⟩
        rw [zero_add]
        exact hand_add held q
      · rintro e _ _ ⟨_, rfl, rfl⟩
        exact add_zero _
    | release p =>
      obtain ⟨some, same⟩ := Option.ite_none_left_eq_some.mp begun
      cases same
      have decref : (emufsDecref p).Secures sharing (0 + one (.ref p)) s (fun _ left _ => left = 0)
          fun _ left _ => left = 0 := secures_emufsDecref
      rw [zero_add] at decref
      dsimp only [service]
      rw [owns, hand_take some, secures_bind]
      refine (decref.frame _ Frame.part).mono ?_ ?_
      · rintro _ _ _ ⟨_, rfl, rfl⟩
        exact add_zero _
      · rintro _ _ _ ⟨_, rfl, rfl⟩
        exact add_zero _

private theorem valid_attached (memory : Nat → Bool) :
    Valid 0 (attached memory fun _ => .ok ()) where
  elock := rfl
  each _ := {
    count _ here := by cases here
    table member := by cases member
    outside _ := ⟨rfl, rfl, rfl⟩
    out some := absurd rfl some
    fresh _ := rfl }
  nodup := List.nodup_nil
  closes _ := rfl

/-- The count of every vnode in the table is the number of references that threads have, and there
are some. -/
def Exact {n : Nat} (w : Threads n) : Prop :=
  ∀ p ∈ w.shared.vnodes, ∃ ev, w.shared.heap p = some ev ∧ ev.refcount = ∑ i, w.has i p ∧
    0 < ∑ i, w.has i p

def Settled {n : Nat} (w : Threads n) : Prop :=
  w.Sound sharing (fun shares s => Valid (∑ i, shares i) s) service
    (fun held own => own = hand held) Keeps

theorem settled_run {n : Nat} {memory : Nat → Bool}
    {history : List (Threads n × Move (Fin n) Request)} {w : Threads n}
    (run : Run (Computes (Crowd.next service))
      (quietThreads n (attached memory fun _ => .ok ())) history w) : Settled w := by
  refine run.invariant ?_ fun _ _ _ settled moved =>
    settled.next (agreement n) (serves n) trivial moved
  refine ⟨fun _ => 0, ?_, fun i => .idle (by funext x; cases x <;> rfl)⟩
  dsimp only
  rw [Finset.sum_const_zero]
  exact valid_attached memory

/-- In no interleaving does a thread halt, and while no thread is in a call the counts are exact
just if `emufs_reclaim` has never found a vnode in use. -/
theorem counts_exact_iff {n : Nat} {memory : Nat → Bool}
    {history : List (Threads n × Move (Fin n) Request)} {w : Threads n}
    (run : Run (Computes (Crowd.next service))
      (quietThreads n (attached memory fun _ => .ok ())) history w) :
    (∀ i r h, w.doing i ≠ .busy r (.halt h)) ∧
      ((∀ i, w.doing i = .idle) →
        (∀ p ∈ w.shared.vnodes, ∃ ev, w.shared.heap p = some ev ∧
          ev.refcount = (∑ i, w.has i p) + w.shared.refused p) ∧
        (Exact w ↔ ∀ p, w.shared.refused p = 0)) := by
  have sound : Settled w := settled_run run
  refine ⟨fun i r h busy => sound.halts busy, fun quiet => ?_⟩
  obtain ⟨shares, valid, placed⟩ := sound
  have total : ∀ p, (∑ i, shares i) (.ref p) = ∑ i, w.has i p := by
    intro p
    rw [Finset.sum_apply]
    refine Finset.sum_congr rfl fun i _ => ?_
    have here := placed i
    rw [quiet i] at here
    cases here with
    | idle owns =>
      rw [owns]
      rfl
  have counted : ∀ p ∈ w.shared.vnodes, ∃ ev, w.shared.heap p = some ev ∧
      ev.refcount = (∑ i, w.has i p) + w.shared.refused p ∧ 0 < ev.refcount := by
    intro p member
    obtain ⟨ev, here, count, used, -⟩ := (valid.each p).table member
    exact ⟨ev, here, total p ▸ count, used⟩
  refine ⟨fun p member => ?_, fun exact_counts p => ?_, fun never p member => ?_⟩
  · obtain ⟨ev, here, count, -⟩ := counted p member
    exact ⟨ev, here, count⟩
  · by_cases member : p ∈ w.shared.vnodes
    · obtain ⟨ev, here, count, -⟩ := counted p member
      obtain ⟨ew, found, same, -⟩ := exact_counts p member
      cases here.symm.trans found
      omega
    · exact ((valid.each p).outside member).2.2
  · obtain ⟨ev, here, count, used⟩ := counted p member
    rw [never p, Nat.add_zero] at count
    exact ⟨ev, here, count, count ▸ used⟩

/-- A thread loads a vnode, while another one comes and goes. -/
theorem counts_exact_iff_loaded :
    ∃ history, ∃ w : Threads 2, Run (Computes (Crowd.next service))
      (quietThreads 2 (attached (fun _ => true) fun _ => .ok ())) history w ∧
      w.shared.vnodes = [1] ∧ Exact w := by
  obtain ⟨w, reached, quiet, table, never⟩ : ∃ w : Threads 2, execute (Crowd.next service)
      (quietThreads 2 (attached (fun _ => true) fun _ => .ok ()))
      ([.start 0 (.load 7 false)] ++ List.replicate 4 (.resume 0) ++
        [.finish 0, .start 1 (.load 7 false)] ++ List.replicate 8 (.resume 1) ++
        [.finish 1, .start 0 (.release 1)] ++ List.replicate 4 (.resume 0) ++
          [.finish 0]) = some w ∧
      (∀ i, w.doing i = .idle) ∧ w.shared.vnodes = [1] ∧ ∀ p, w.shared.refused p = 0 :=
    ⟨_, rfl, Fin.forall_fin_two.mpr ⟨rfl, rfl⟩, rfl, fun _ => rfl⟩
  obtain ⟨history, run, -⟩ := Run.of_execute reached
  exact ⟨history, w, run, table, ((counts_exact_iff run).2 quiet).2.mpr never⟩

/-- The first thread gives up the only reference; before `emufs_reclaim` looks at the count again,
the second one loads the vnode. When both are done, the vnode stays with a count of 1. -/
theorem reclaim_strands_vnode :
    ∃ history, ∃ w : Threads 2, Run (Computes (Crowd.next service))
      (quietThreads 2 (attached (fun _ => true) fun _ => .ok ())) history w ∧
      (∀ i, w.doing i = .idle) ∧ w.shared.vnodes = [1] ∧
      (w.shared.heap 1).map (·.refcount) = some 1 ∧ ∑ i, w.has i 1 = 0 := by
  obtain ⟨w, reached, facts⟩ : ∃ w : Threads 2, execute (Crowd.next service)
      (quietThreads 2 (attached (fun _ => true) fun _ => .ok ()))
      ([.start 0 (.load 7 false)] ++ List.replicate 4 (.resume 0) ++
        [.finish 0, .start 0 (.release 1)] ++ List.replicate 4 (.resume 0) ++
        [.start 1 (.load 7 false)] ++ List.replicate 8 (.resume 1) ++ [.finish 1] ++
        List.replicate 12 (.resume 0) ++ [.finish 0, .start 1 (.release 1)] ++
        List.replicate 4 (.resume 1) ++ [.finish 1]) = some w ∧
      (∀ i, w.doing i = .idle) ∧ w.shared.vnodes = [1] ∧
      (w.shared.heap 1).map (·.refcount) = some 1 ∧ ∑ i, w.has i 1 = 0 :=
    ⟨_, rfl, Fin.forall_fin_two.mpr ⟨rfl, rfl⟩, rfl, rfl, rfl⟩
  obtain ⟨history, run, -⟩ := Run.of_execute reached
  exact ⟨history, w, run, facts⟩

/-- A vnode that threads have references to is always in the table, and counts them all. -/
theorem vnodes_in_use_kept {n : Nat} {memory : Nat → Bool}
    {history : List (Threads n × Move (Fin n) Request)} {w : Threads n}
    (run : Run (Computes (Crowd.next service))
      (quietThreads n (attached memory fun _ => .ok ())) history w) {i : Fin n} {p : Ptr}
    (refers : 0 < w.has i p) :
    p ∈ w.shared.vnodes ∧ ∃ ev, w.shared.heap p = some ev ∧ ∑ j, w.has j p ≤ ev.refcount := by
  obtain ⟨shares, valid, placed⟩ := settled_run run
  have part (j : Fin n) : w.has j p ≤ shares j (.ref p) := by
    have here := placed j
    generalize w.doing j = doing at here
    cases here with
    | idle owns =>
      rw [owns]
      exact Nat.le_refl _
    | busy _ _ _ keeps _ =>
      obtain ⟨more, owns⟩ := keeps
      rw [owns]
      exact Nat.le_add_right _ _
  have all : ∑ j, w.has j p ≤ (∑ j, shares j) (.ref p) := by
    rw [Finset.sum_apply]
    exact Finset.sum_le_sum fun j _ => part j
  have mine : w.has i p ≤ ∑ j, w.has j p :=
    Finset.single_le_sum (f := (w.has · p)) (fun _ _ => Nat.zero_le _) (Finset.mem_univ i)
  have member : p ∈ w.shared.vnodes := by
    by_contra absent
    have zero := ((valid.each p).outside absent).2.1
    omega
  obtain ⟨ev, here, count, -⟩ := (valid.each p).table member
  exact ⟨member, ev, here, by omega⟩

theorem vnodes_in_use_kept_loaded :
    ∃ history, ∃ w : Threads 2, Run (Computes (Crowd.next service))
      (quietThreads 2 (attached (fun _ => true) fun _ => .ok ())) history w ∧
      1 ∈ w.shared.vnodes := by
  obtain ⟨w, reached, has⟩ : ∃ w : Threads 2, execute (Crowd.next service)
      (quietThreads 2 (attached (fun _ => true) fun _ => .ok ()))
      ([.start 0 (.load 7 false)] ++ List.replicate 4 (.resume 0) ++ [.finish 0]) = some w ∧
      w.has 0 1 = 1 := ⟨_, rfl, rfl⟩
  obtain ⟨history, run, -⟩ := Run.of_execute reached
  exact ⟨history, w, run, (vnodes_in_use_kept run (has ▸ Nat.one_pos)).1⟩

end Os161.Emufs
