import Os161.Sfs.Inodes
import Os161.Sfs.Truncation

/-!
# The state of a volume between calls

The inodes that are in use form a table. Each of them is in memory, or on the disk as it is in
the table; its blocks are in use, and no block is used twice. `Backed` says this of a volume, and
work on one file changes one row of the table.
-/
namespace Os161.Sfs

open Foundation Vfs
open Function (update update_of_ne update_self)

/-- The inodes that are in use, by their numbers. -/
abbrev Inodes := CUnsigned → Option Inode

/-- All places that refer to a block: an inode is in its own block. -/
def refs (I : Inodes) (disk : CUnsigned → Block) : CUnsigned × Option Ref → CUnsigned
  | (ino, none) => if (I ino).isSome then ino else 0
  | (ino, some r) => (I ino).elim 0 fun i => i.tree disk r

/-- The superblock and the blocks of the freemap. -/
def System (nblocks : CUnsigned) : Set CUnsigned :=
  { b | b = 0 ∨ (2 ≤ b.toNat ∧ b.toNat < 2 + (SFS_BITBLOCKS nblocks).toNat) }

/-- The superblock as `sfs_domount` takes it from its block. -/
def superOf (b : Block) : Super :=
  { Super.ofBlock b with volname := update (Super.ofBlock b).volname 31 0 }

/-- The vnodes that there are: `h` and `o` are their counts. -/
structure Tabled (h o : Ptr → Nat) (s : Volume) : Prop where
  /-- The array has each of them once. -/
  table : ∀ p, p ∈ s.vnodes ↔ (s.heap p).isSome
  nodup : s.vnodes.Nodup
  fresh : ∀ p, s.brk ≤ p → s.heap p = none
  counts : ∀ p sv, s.heap p = some sv → sv.toVnode = ⟨h p, o p, false⟩ ∧ 0 < h p ∧
    opsOf sv.inode.type = some sv.ops
  absent : ∀ p, s.heap p = none → h p = 0 ∧ o p = 0
  distinct : ∀ p q sv sv', s.heap p = some sv → s.heap q = some sv' → sv.ino = sv'.ino → p = q

/-- Each block is used once, and those in use are marked: `L` are blocks that were lost for want
of memory. -/
structure Accounted (I : Inodes) (L : Set CUnsigned) (s : Volume) : Prop where
  sane : Sane s
  zero : I 0 = none
  tidy : Tidy (refs I s.disk)
  inside : ∀ b ∈ held (refs I s.disk), b < s.super.nblocks ∧ b ∉ System s.super.nblocks
  lost : ∀ b ∈ L, b < s.super.nblocks ∧ b ∉ System s.super.nblocks ∧ b ∉ held (refs I s.disk)
  marked : ∀ b, b < s.super.nblocks →
    (s.Marked b ↔ b ∈ System s.super.nblocks ∨ b ∈ held (refs I s.disk) ∨ b ∈ L)
  system : 2 + (SFS_BITBLOCKS s.super.nblocks).toNat ≤ s.super.nblocks.toNat

/-- The inodes are in memory or on the disk, and what is not dirty is on the disk. -/
structure Stored (I : Inodes) (s : Volume) : Prop where
  loaded : ∀ p sv, s.heap p = some sv → I sv.ino = some sv.inode
  clean : ∀ p sv, s.heap p = some sv → sv.dirty = false → s.disk sv.ino = sv.inode.toBlock
  away : ∀ ino i, I ino = some i → (∃ p sv, s.heap p = some sv ∧ sv.ino = ino) ∨
    (s.disk ino = i.toBlock ∧ i.linkcount ≠ 0)
  map : s.freemapdirty = false → ∀ b : CUnsigned, 2 ≤ b.toNat →
    b.toNat < 2 + (SFS_BITBLOCKS s.super.nblocks).toNat →
    s.disk b = chunk s.freemap.v (b.toNat - 2)
  superdirty : s.superdirty = false
  super : superOf (s.disk 0) = s.super

structure Backed (I : Inodes) (L : Set CUnsigned) (h o : Ptr → Nat) (s : Volume) : Prop where
  tabled : Tabled h o s
  accounted : Accounted I L s
  stored : Stored I s

/-- The share of a call for a vnode, when it starts. -/
abbrev SfsVnode.share (sv : SfsVnode) (s : Volume) : Share := held (sv.inode.tree s.disk)

section

variable {I : Inodes} {L : Set CUnsigned} {h o : Ptr → Nat} {s t : Volume} {p : Ptr}
  {sv sv' : SfsVnode} {ino b : CUnsigned} {i : Inode}

theorem refs_self (live : I ino = some i) (disk : CUnsigned → Block) :
    refs I disk (ino, none) = ino := by
  rw [refs, live]
  rfl

theorem refs_tree (live : I ino = some i) (disk : CUnsigned → Block) (r : Ref) :
    refs I disk (ino, some r) = i.tree disk r := by
  rw [refs, live]
  rfl

/-- The row of an inode that has been put into the table. -/
theorem refs_update_self (I : Inodes) (ino : CUnsigned) (i : Inode) (disk : CUnsigned → Block) :
    refs (update I ino (some i)) disk (ino, none) = ino :=
  refs_self (update_self ..) disk

theorem refs_update_tree (I : Inodes) (ino : CUnsigned) (i : Inode) (disk : CUnsigned → Block)
    (r : Ref) : refs (update I ino (some i)) disk (ino, some r) = i.tree disk r :=
  refs_tree (update_self ..) disk r

namespace Accounted

variable (good : Accounted I L s)

include good

theorem marked_of_held (mem : b ∈ held (refs I s.disk)) : s.Marked b :=
  (good.marked b (good.inside b mem).1).mpr (.inr (.inl mem))

theorem ino_mem (live : I ino = some i) : ino ∈ held (refs I s.disk) := by
  refine ⟨?_, (ino, none), refs_self live s.disk⟩
  rintro rfl
  exact absurd (good.zero.symm.trans live) nofun

omit good in
theorem tree_mem (live : I ino = some i) (mem : b ∈ held (i.tree s.disk)) :
    b ∈ held (refs I s.disk) := by
  obtain ⟨some, r, rfl⟩ := mem
  exact ⟨some, (ino, .some r), refs_tree live s.disk r⟩

private theorem tree_tidy (live : I ino = some i) : Tidy (i.tree s.disk) := by
  intro r r' some same
  have one : (ino, Option.some r) = (ino, Option.some r') := by
    apply good.tidy
    · rwa [refs_tree live]
    · rw [refs_tree live, refs_tree live, same]
  injection one with _ one
  injection one

/-- The blocks of a file are not in other rows, and it does not refer to its inode. -/
theorem notMem_tree (live : I ino = some i) {k : CUnsigned × Option Ref}
    (holds : refs I s.disk k = b) (other : k.1 ≠ ino ∨ k.2 = none) : b ∉ held (i.tree s.disk) := by
  rintro ⟨some, r, here⟩
  have one : (ino, Option.some r) = k := by
    apply good.tidy
    · rwa [refs_tree live, here]
    · rw [refs_tree live, here, holds]
  subst one
  rcases other with other | other
  · exact other rfl
  · cases other

/-- A call may start its work on a file. -/
theorem mapped (live : I sv.ino = some sv.inode) (here : s.heap p = some sv) :
    Mapped p (sv.share s) sv s where
  sane := good.sane
  here := here
  tidy := good.tree_tidy live
  blocks := rfl
  marked _ mem := good.marked_of_held (tree_mem live mem)
  valid _ mem := (good.inside _ (tree_mem live mem)).1

private theorem system_marked (mem : b ∈ System s.super.nblocks) : s.Marked b := by
  have valid : b < s.super.nblocks := by
    have size := good.system
    rw [BitVec.lt_def]
    rcases mem with rfl | ⟨-, high⟩
    · have none : (0 : CUnsigned).toNat = 0 := rfl
      omega
    · omega
  exact (good.marked b valid).mpr (.inl mem)

end Accounted

/-! ### Work on one file -/

/-- What a call that worked on the file of `p` has left of the rest. -/
structure Worked (p : Ptr) (sv : SfsVnode) (s : Volume) (after : Share) (sv' : SfsVnode)
    (t : Volume) : Prop where
  keeps : Keeps p (sv.share s) after s t
  mapped : Mapped p after sv' t
  here : s.heap p = some sv

namespace Worked

variable {after : Share} (work : Worked p sv s after sv' t)

include work

theorem here' : t.heap p = some sv' := work.mapped.here

theorem grown : Grown sv sv' := by
  obtain ⟨sv'', found, grown⟩ := work.keeps.grown sv work.here
  have same : sv'' = sv' := Option.some.inj (found.symm.trans work.here')
  exact same ▸ grown

variable (good : Accounted I L s) (live : I sv.ino = some sv.inode)

include good live

/-- Blocks that do not belong to the file are as they were. -/
theorem kept {k : CUnsigned × Option Ref} (holds : refs I s.disk k = b) (some : b ≠ 0)
    (other : k.1 ≠ sv.ino ∨ k.2 = none) :
    b ∉ after ∧ t.Marked b ∧ t.disk b = s.disk b := by
  have marked := good.marked_of_held ⟨some, k, holds⟩
  have outside := good.notMem_tree live holds other
  exact ⟨fun mem => work.keeps.taken b mem outside marked, work.keeps.kept b outside marked⟩

theorem kept_system (mem : b ∈ System s.super.nblocks) :
    b ∉ after ∧ t.Marked b ∧ t.disk b = s.disk b := by
  have marked := good.system_marked mem
  have outside : b ∉ held (sv.inode.tree s.disk) := fun inside =>
    (good.inside b (Accounted.tree_mem live inside)).2 mem
  exact ⟨fun inside => work.keeps.taken b inside outside marked, work.keeps.kept b outside marked⟩

/-- Other inodes have their blocks as before. -/
theorem tree_other (other : ino ≠ sv.ino) (live' : I ino = some i) :
    i.tree t.disk = i.tree s.disk := by
  apply Inode.tree_congr_held
  rintro b ⟨some, r, rfl⟩
  exact (work.kept good live (k := (ino, .some r)) (refs_tree live' s.disk r) some (.inl other)).2.2

private theorem contents_other (other : ino ≠ sv.ino) (live' : I ino = some i) :
    (i.tree t.disk).logical t.disk = (i.tree s.disk).logical s.disk := by
  rw [work.tree_other good live other live']
  apply Tree.logical_congr
  intro k mapped
  obtain ⟨some, r, here⟩ := Tree.blockAt_mem mapped
  rw [← here] at some ⊢
  exact (work.kept good live (k := (ino, .some r)) (refs_tree live' s.disk r) some (.inl other)).2.2

theorem refs_other (other : ino ≠ sv.ino) (r : Option Ref) :
    refs (update I sv.ino (some sv'.inode)) t.disk (ino, r) = refs I s.disk (ino, r) := by
  cases live' : I ino with
  | none => cases r <;> simp only [refs, update_of_ne other, live', Option.isSome_none,
      Option.elim_none]
  | some i =>
    have still : update I sv.ino (some sv'.inode) ino = some i := by
      rw [update_of_ne other, live']
    cases r with
    | none => rw [refs_self still, refs_self live']
    | some r => rw [refs_tree still, refs_tree live', work.tree_other good live other live']

/-- Where a block that is referred to was before. -/
theorem mem_held_iff :
    b ∈ held (refs (update I sv.ino (some sv'.inode)) t.disk) ↔
      b ∈ after ∨ (b ≠ 0 ∧ ∃ k : CUnsigned × Option Ref, refs I s.disk k = b ∧
        (k.1 ≠ sv.ino ∨ k.2 = none)) := by
  have others := fun ino r (other : ino ≠ sv.ino) => work.refs_other good live other r
  rw [mem_held_row others]
  constructor
  · rintro (⟨some, r, here⟩ | ⟨some, ino, r, other, here⟩)
    · cases r with
      | none =>
        rw [refs_update_self] at here
        exact .inr ⟨some, (sv.ino, none), (refs_self live s.disk).trans here, .inr rfl⟩
      | some r =>
        rw [refs_update_tree] at here
        exact .inl (work.mapped.blocks ▸ ⟨some, r, here⟩)
    · exact .inr ⟨some, (ino, r), here, .inl other⟩
  rintro (mem | ⟨some, ⟨ino, r⟩, here, other⟩)
  · rw [work.mapped.blocks] at mem
    obtain ⟨some, r, here⟩ := mem
    exact .inl ⟨some, .some r, (refs_update_tree ..).trans here⟩
  by_cases same : ino = sv.ino
  · subst same
    have none : r = none := other.resolve_left fun other => other rfl
    subst none
    rw [refs_self live] at here
    exact .inl ⟨some, none, (refs_update_self ..).trans here⟩
  · exact .inr ⟨some, ino, r, same, here⟩

private theorem tidy : Tidy (refs (update I sv.ino (some sv'.inode)) t.disk) := by
  have own_ino : sv.ino ∉ after :=
    (work.kept good live (refs_self live s.disk) (good.ino_mem live).1 (.inr rfl)).1
  apply good.tidy.row fun ino r (other : ino ≠ sv.ino) => work.refs_other good live other r
  · -- the row itself: the inode's own block is not among the others
    intro r r' some same
    simp only at some same
    cases r with
    | none =>
      rw [refs_update_self] at some same
      cases r' with
      | none => rfl
      | some r' =>
        rw [refs_update_tree] at same
        exact absurd (work.mapped.blocks ▸ ⟨some, r', same.symm⟩) own_ino
    | some r =>
      rw [refs_update_tree] at some same
      cases r' with
      | none =>
        rw [refs_update_self] at same
        exact absurd (work.mapped.blocks ▸ ⟨same ▸ some, r, same⟩) own_ino
      | some r' =>
        rw [refs_update_tree] at same
        exact congrArg _ (work.mapped.tidy some same)
  intro r some
  cases r with
  | none => exact .inl ⟨none, by rw [refs_self live, refs_update_self]⟩
  | some r =>
    rw [refs_update_tree] at some ⊢
    have mem : sv'.inode.tree t.disk r ∈ after := work.mapped.mem_blocks some
    by_cases before : sv'.inode.tree t.disk r ∈ sv.share s
    · obtain ⟨-, r', here⟩ := before
      exact .inl ⟨.some r', (refs_tree live s.disk r').trans here⟩
    · exact .inr fun held => work.keeps.taken _ mem before (good.marked_of_held held)

private theorem accounted : Accounted (update I sv.ino (some sv'.inode)) L t := by
  have super : t.super = s.super := work.keeps.super
  have own_held : ∀ b ∈ sv.share s, b ∈ held (refs I s.disk) := fun b mem =>
    Accounted.tree_mem live mem
  exact {
    sane := work.keeps.sane good.sane
    zero := by
      rw [update_of_ne (good.ino_mem live).1.symm]
      exact good.zero
    tidy := work.tidy good live
    inside := by
      intro b mem
      rw [super]
      rcases (work.mem_held_iff good live).mp mem with mem | ⟨some, k, here, -⟩
      · refine ⟨super ▸ work.mapped.valid b mem, fun system => ?_⟩
        exact (work.kept_system good live system).1 mem
      · exact good.inside b ⟨some, k, here⟩
    lost := by
      intro b mem
      obtain ⟨valid, apart, unheld⟩ := good.lost b mem
      rw [super]
      refine ⟨valid, apart, fun held => ?_⟩
      rcases (work.mem_held_iff good live).mp held with inside | ⟨some, k, here, -⟩
      · refine work.keeps.taken b inside (fun own => unheld (own_held b own)) ?_
        exact (good.marked b valid).mpr (.inr (.inr mem))
      · exact unheld ⟨some, k, here⟩
    marked := by
      intro b valid
      rw [super] at valid ⊢
      constructor
      · intro marked
        by_cases mem : b ∈ after
        · exact .inr (.inl ((work.mem_held_iff good live).mpr (.inl mem)))
        -- it was in use already, and not by this file
        have before : b ∉ sv.share s ∧ s.Marked b := by
          by_contra none
          rw [not_and_or, not_not] at none
          exact work.keeps.freed b mem none marked
        rcases (good.marked b valid).mp before.2 with system | ⟨some, k, here⟩ | lost
        · exact .inl system
        · refine .inr (.inl ((work.mem_held_iff good live).mpr (.inr ⟨some, k, here, ?_⟩)))
          by_contra both
          rw [not_or, not_not] at both
          obtain ⟨ino, r⟩ := k
          obtain ⟨rfl, noted⟩ := both
          cases r with
          | none => exact noted rfl
          | some r =>
            rw [refs_tree live] at here
            exact before.1 ⟨some, r, here⟩
        · exact .inr (.inr lost)
      · rintro (system | mem | lost)
        · exact (work.kept_system good live system).2.1
        · rcases (work.mem_held_iff good live).mp mem with mem | ⟨some, k, here, other⟩
          · exact work.keeps.held (fun b own => good.marked_of_held (own_held b own)) b mem
          · exact (work.kept good live here some other).2.1
        · refine (work.keeps.kept b (fun own => ?_)
            ((good.marked b valid).mpr (.inr (.inr lost)))).1
          exact (good.lost b lost).2.2 (own_held b own)
    system := by
      rw [super]
      exact good.system }

omit good live in
/-- The vnodes are those that there were. -/
theorem heap_cases {q : Ptr} {sv₁ : SfsVnode} (found : t.heap q = some sv₁) :
    (q = p ∧ sv₁ = sv') ∨ (q ≠ p ∧ s.heap q = some sv₁) := by
  by_cases same : q = p
  · subst same
    exact .inl ⟨rfl, Option.some.inj (found.symm.trans work.here')⟩
  · exact .inr ⟨same, (work.keeps.heap q same).symm.trans found⟩

omit good live in
private theorem heap_isSome (q : Ptr) : (t.heap q).isSome = (s.heap q).isSome := by
  by_cases same : q = p
  · rw [same, work.here', work.here, Option.isSome_some, Option.isSome_some]
  · rw [work.keeps.heap q same]

omit good live in
private theorem tabled (before : Tabled h o s) : Tabled h o t := by
  have grown := work.grown
  exact {
    table := by
      intro q
      rw [work.keeps.vnodes, work.heap_isSome q]
      exact before.table q
    nodup := by
      rw [work.keeps.vnodes]
      exact before.nodup
    fresh := by
      intro q above
      rw [work.keeps.brk] at above
      rw [← Option.isNone_iff_eq_none, ← Option.not_isSome, work.heap_isSome q]
      simp [before.fresh q above]
    counts := by
      intro q sv₁ found
      rcases work.heap_cases found with ⟨rfl, rfl⟩ | ⟨-, found⟩
      · rw [grown.vnode, grown.ops, grown.type]
        exact before.counts q sv work.here
      · exact before.counts q sv₁ found
    absent := by
      intro q none
      refine before.absent q ?_
      rw [← Option.isNone_iff_eq_none, ← Option.not_isSome, ← work.heap_isSome q]
      simp [none]
    distinct := by
      intro q q' sv₁ sv₂ found found' same
      rcases work.heap_cases found with ⟨rfl, rfl⟩ | ⟨other, found⟩ <;>
        rcases work.heap_cases found' with ⟨rfl, rfl⟩ | ⟨other', found'⟩
      · rfl
      · exact before.distinct _ _ _ _ work.here found' (grown.ino.symm.trans same)
      · exact before.distinct _ _ _ _ found work.here (same.trans grown.ino)
      · exact before.distinct _ _ _ _ found found' same }

private theorem stored (table : Tabled h o s) (before : Stored I s) :
    Stored (update I sv.ino (some sv'.inode)) t := by
  have grown := work.grown
  -- inodes in other blocks are still there
  have elsewhere : ∀ ino i, ino ≠ sv.ino → I ino = some i → t.disk ino = s.disk ino :=
    fun ino i other live' => (work.kept good live (k := (ino, none)) (refs_self live' s.disk)
      (good.ino_mem live').1 (.inl other)).2.2
  have own : t.disk sv.ino = s.disk sv.ino :=
    (work.kept good live (refs_self live s.disk) (good.ino_mem live).1 (.inr rfl)).2.2
  have apart : ∀ q sv₁, q ≠ p → s.heap q = some sv₁ → sv₁.ino ≠ sv.ino :=
    fun q sv₁ other found same => other (table.distinct _ _ _ _ found work.here same)
  exact {
    loaded := by
      intro q sv₁ found
      rcases work.heap_cases found with ⟨rfl, rfl⟩ | ⟨other, found⟩
      · rw [grown.ino, update_self]
      · rw [update_of_ne (apart q sv₁ other found)]
        exact before.loaded q sv₁ found
    clean := by
      intro q sv₁ found clean
      rcases work.heap_cases found with ⟨rfl, rfl⟩ | ⟨other, found⟩
      · have clean' : sv.dirty = false :=
          Bool.eq_false_iff.mpr fun was => Bool.eq_false_iff.mp clean (grown.dirty was)
        rw [grown.ino, own, grown.changed clean]
        exact before.clean q sv work.here clean'
      · rw [elsewhere _ _ (apart q sv₁ other found) (before.loaded q sv₁ found)]
        exact before.clean q sv₁ found clean
    away := by
      intro ino i live'
      by_cases same : ino = sv.ino
      · exact .inl ⟨p, sv', work.here', grown.ino.trans same.symm⟩
      rw [update_of_ne same] at live'
      rcases before.away ino i live' with ⟨q, sv₁, found, at_ino⟩ | ⟨stored, linked⟩
      · refine .inl ⟨q, sv₁, ?_, at_ino⟩
        have other : q ≠ p := by
          rintro rfl
          cases found.symm.trans work.here
          exact same at_ino.symm
        rw [work.keeps.heap q other, found]
      · exact .inr ⟨(elsewhere ino i same live').trans stored, linked⟩
    map := by
      intro clean b low high
      rw [work.keeps.super] at high
      have clean' : s.freemapdirty = false :=
        Bool.eq_false_iff.mpr fun was => Bool.eq_false_iff.mp clean (work.keeps.freemapdirty was)
      rw [(work.kept_system good live (.inr ⟨low, high⟩)).2.2, work.keeps.freemap clean]
      exact before.map clean' b low high
    superdirty := work.keeps.superdirty.trans before.superdirty
    super := by
      rw [(work.kept_system good live (.inl rfl)).2.2, work.keeps.super]
      exact before.super }

end Worked

/-- Work on a file changes the row of its inode. -/
theorem Backed.worked {after : Share} (good : Backed I L h o s) (work : Worked p sv s after sv' t) :
    Backed (update I sv.ino (some sv'.inode)) L h o t := by
  have live := good.stored.loaded p sv work.here
  exact ⟨work.tabled good.tabled, work.accounted good.accounted live,
    work.stored good.accounted live good.tabled good.stored⟩

end

/-! ### Files without their blocks -/

/-- What there is to see of a file. -/
structure Node where
  type : BitVec 16
  linkcount : BitVec 16
  size : CUnsigned
  contents : Nat → Block

def Inode.node (i : Inode) (disk : CUnsigned → Block) : Node :=
  ⟨i.type, i.linkcount, i.size, (i.tree disk).logical disk⟩

/-- The files of a volume, by the numbers of their inodes. -/
abbrev Files := CUnsigned → Option Node

def Holds (A : Files) (L : Set CUnsigned) (h o : Ptr → Nat) (s : Volume) : Prop :=
  ∃ I, Backed I L h o s ∧ ∀ ino, A ino = (I ino).map (·.node s.disk)

section

variable {A : Files} {L : Set CUnsigned} {h o : Ptr → Nat} {s : Volume} {p : Ptr} {sv : SfsVnode}

theorem Holds.node (holds : Holds A L h o s) (here : s.heap p = some sv) :
    A sv.ino = some (sv.inode.node s.disk) := by
  obtain ⟨I, good, files⟩ := holds
  rw [files, good.stored.loaded p sv here]
  rfl

/-- A call that works on one file, from what it does with the share of that file. -/
theorem Holds.work {α : Type} {halts : Halt → Prop} {c : Code Volume α}
    {Q : α → Volume → Prop} {E : Errno → Volume → Prop}
    {Q₁ : α → Share → Volume → Prop} {E₁ : Errno → Share → Volume → Prop}
    (holds : Holds A L h o s) (here : s.heap p = some sv)
    (call : FileHas p sv.inode.size (sv.contents s.disk) (sv.share s) s →
      c.Secures (sharing p halts) (sv.share s) s Q₁ E₁)
    (returned : ∀ a after t, Keeps p (sv.share s) after s t → Q₁ a after t →
      (∀ size contents, FileHas p size contents after t →
        Holds (update A sv.ino
          (some ⟨sv.inode.type, sv.inode.linkcount, size, contents⟩)) L h o t) → Q a t)
    (failed : ∀ e after t, Keeps p (sv.share s) after s t → E₁ e after t →
      (∀ size contents, FileHas p size contents after t →
        Holds (update A sv.ino
          (some ⟨sv.inode.type, sv.inode.linkcount, size, contents⟩)) L h o t) → E e t) :
    c.Ensures halts s Q E := by
  obtain ⟨I, good, files⟩ := holds
  have live := good.stored.loaded p sv here
  have mapped := good.accounted.mapped live here
  have frame : ∀ after t, Keeps p (sv.share s) after s t → ∀ size contents,
      FileHas p size contents after t →
      Holds (update A sv.ino
        (some ⟨sv.inode.type, sv.inode.linkcount, size, contents⟩)) L h o t := by
    rintro after t keeps size contents ⟨sv', file, rfl, rfl⟩
    have work : Worked p sv s after sv' t := ⟨keeps, file, here⟩
    refine ⟨_, good.worked work, fun ino => ?_⟩
    by_cases same : ino = sv.ino
    · subst same
      have grown := work.grown
      rw [update_self, update_self, Option.map_some, Inode.node, grown.type,
        grown.linkcount]
      rfl
    rw [update_of_ne same, update_of_ne same, files]
    cases live' : I ino with
    | none => rfl
    | some i =>
      rw [Option.map_some, Option.map_some, Inode.node, Inode.node,
        work.contents_other good.accounted live same live']
  refine (alone (call ⟨sv, mapped, rfl, rfl⟩)).mono ?_ ?_
  · rintro a t ⟨after, keeps, done⟩
    exact returned a after t keeps done (frame after t keeps)
  · rintro e t ⟨after, keeps, done⟩
    exact failed e after t keeps done (frame after t keeps)

end

end Os161.Sfs
