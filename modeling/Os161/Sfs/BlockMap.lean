import Os161.Sfs.Alone

/-!
# `sfs_bmap` on a file

The map of a file takes the numbers of its blocks to blocks of the disk. It is injective, and so
are the places behind it, with the indirect block among them. `sfs_bmap` looks a number up, and maps
it to a free block if it is asked to and there is none.
-/
namespace Os161.Sfs

open Foundation Vfs

/-- The map of the file at `p` is injective into blocks in use. -/
structure Orderly (p : Ptr) (sv : SfsVnode) (s : Volume) : Prop where
  sane : Sane s
  here : s.heap p = some sv
  injective : Tidy (sv.inode.tree s.disk)
  inUse : ∀ b ∈ held (sv.inode.tree s.disk), s.Marked b ∧ b < s.super.nblocks

/-- At most the buffer of `sfs_bmap` and the number of operations on the device differ. -/
def Looked (s t : Volume) : Prop := t = { s with idbuf := t.idbuf, started := t.started }

/-- What `sfs_bmap` has done when it has mapped block `k`: the file refers to blocks by `m'` now. -/
structure Allocated (s : Volume) (m : Tree) (k : Nat) (block : CUnsigned) (t : Volume) (m' : Tree) :
    Prop where
  nonzero : block ≠ 0
  inUse : t.Marked block
  here : m'.blockAt k = block
  old : m.blockAt k ≠ 0 → block = m.blockAt k
  fresh : m.blockAt k = 0 → ¬ s.Marked block ∧ t.disk block = Block.zero
  others : ∀ l, l ≠ k → m'.blockAt l = m.blockAt l

section

variable {H : Halt → Prop} {p : Ptr} {sv sv' : SfsVnode} {s t : Volume} {own after : Share}
  {E : Errno → Volume → Prop}

namespace Orderly

theorem mapped (file : Orderly p sv s) : Mapped p (sv.share s) sv s where
  sane := file.sane
  here := file.here
  tidy := file.injective
  blocks := rfl
  marked b inside := (file.inUse b inside).1
  valid b inside := (file.inUse b inside).2

theorem of_mapped (file : Mapped p own sv s) : Orderly p sv s where
  sane := file.sane
  here := file.here
  injective := file.tidy
  inUse b inside := by
    rw [← file.blocks] at inside
    exact ⟨file.marked b inside, file.valid b inside⟩

theorem blockAt_inUse (file : Orderly p sv s) {k : Nat}
    (mapped : (sv.inode.tree s.disk).blockAt k ≠ 0) :
    s.Marked ((sv.inode.tree s.disk).blockAt k) ∧
      (sv.inode.tree s.disk).blockAt k < s.super.nblocks :=
  file.inUse _ (Tree.blockAt_mem mapped)

end Orderly

/-! ### Lookup -/

variable {Q : CUnsigned → Volume → Prop}

private theorem ensures_handBack {block : CUnsigned}
    (used : block ≠ 0 → s.Marked block ∧ block < s.super.nblocks) (next : Q block s) :
    (handBack block).Ensures H s Q E := by
  rw [handBack, Call.ensures_ite]
  refine ⟨fun nonzero => ?_, fun _ => next⟩
  obtain ⟨marked, valid⟩ := used nonzero
  rw [Call.ensures_bind, ensures_bused valid marked]
  exact next

/-- Without `doalloc` nothing is changed. -/
theorem Orderly.lookup (file : Orderly p sv s) (fileblock : CUnsigned)
    (beyond : 143 ≤ fileblock.toNat → E .EINVAL s)
    (next : fileblock.toNat < 143 → ∀ t, Looked s t →
      Q ((sv.inode.tree s.disk).blockAt fileblock.toNat) t) :
    (sfsBmap p fileblock false).Ensures H s Q E := by
  have used := fun mapped => file.blockAt_inUse (k := fileblock.toNat) mapped
  rw [sfsBmap]
  split
  next direct =>
    have place := Tree.blockAt_eq (m := sv.inode.tree s.disk) (Tree.place_direct direct)
    rw [sfsBmapDirect, Call.ensures_bind, ensures_svAt file.here, if_neg (by simp)]
    rw [place] at used next
    exact ensures_handBack used (next (by omega) s rfl)
  next large =>
    rw [Call.ensures_ite, idnum_pos large]
    refine ⟨beyond, fun small => ?_⟩
    have small : fileblock.toNat < 143 := Nat.lt_of_not_le small
    have place := Tree.blockAt_eq (m := sv.inode.tree s.disk) (Tree.place_entry large small)
    have index : idoff (fileblock - SFS_NDIRECT) = ⟨fileblock.toNat - 15, by omega⟩ := by
      have sum := idoff_add large small
      apply Fin.ext
      dsimp only
      omega
    rw [place, ← index] at used next
    rw [sfsBmapIndirect, Call.ensures_bind, ensures_svAt file.here, Call.ensures_ite]
    refine ⟨fun none => ?_, fun some => ?_⟩
    · have hole : sv.inode.tree s.disk (.entry (idoff (fileblock - SFS_NDIRECT))) = 0 := by
        rw [Inode.tree, if_pos none.1]
      rw [hole] at next
      exact next small s rfl
    have indirect : sv.inode.indirect ≠ 0 := fun zero => some ⟨zero, rfl⟩
    have entry : sv.inode.tree s.disk (.entry (idoff (fileblock - SFS_NDIRECT))) =
        (s.disk sv.inode.indirect).words (idoff (fileblock - SFS_NDIRECT)) := by
      rw [Inode.tree, if_neg indirect]
    rw [entry] at used next
    have valid : sv.inode.indirect < s.super.nblocks :=
      (file.inUse _ (mem_held (i := Ref.indirect) indirect)).2
    rw [if_neg indirect, Call.ensures_bind, ensures_rblock file.sane valid, sfsBmapEntry,
      Call.ensures_bind, Call.ensures_state, if_neg (by simp)]
    exact ensures_handBack used (next small _ rfl)

/-! ### Allocation -/

/-- Where block `k` is mapped, the other blocks stay where they are. -/
theorem Tree.blockAt_fills {m m' : Tree} {k l : Nat} (fills : Fills (Tree.Uses k) m m')
    (other : l ≠ k) : m'.blockAt l = m.blockAt l := by
  cases place : Tree.place l with
  | none => simp [Tree.blockAt, place]
  | some r =>
    rw [Tree.blockAt_eq place, Tree.blockAt_eq place]
    refine fills.others r ?_
    rintro (same | ⟨-, rfl⟩)
    · exact other (Tree.place_injective place same)
    · exact Tree.place_ne_indirect place

theorem Tree.blockAt_kept {m m' : Tree} {k l : Nat} (fills : Fills (Tree.Uses k) m m')
    (mapped : m.blockAt l ≠ 0) : m'.blockAt l = m.blockAt l := by
  cases place : Tree.place l with
  | none => simp [Tree.blockAt, place]
  | some r =>
    rw [Tree.blockAt_eq place] at mapped
    rw [Tree.blockAt_eq place, Tree.blockAt_eq place, fills.kept r mapped]

/-- A block that is referred to now and was not before is new to the file. -/
theorem Tree.blockAt_new {m m' : Tree} {k : Nat} (fills : Fills (Tree.Uses k) m m')
    (tidy : Tidy m') (hole : m.blockAt k = 0) (mapped : m'.blockAt k ≠ 0) :
    m'.blockAt k ∉ held m := by
  rintro ⟨some, r, same⟩
  cases place : Tree.place k with
  | none =>
    rw [Tree.blockAt, place] at mapped
    exact mapped rfl
  | some r' =>
    rw [Tree.blockAt_eq place] at some same hole
    have kept : m' r = m r := fills.kept r (same ▸ some)
    have one : r = r' := tidy (kept ▸ same ▸ some) (kept.trans same)
    exact some (same ▸ one ▸ hole)

theorem Bmapped.allocated {k : Nat} {block : CUnsigned}
    (done : Bmapped p sv s true k block after sv' t)
    (keeps : Keeps p (sv.share s) after s t)
    (fills : Fills (Tree.Uses k) (sv.inode.tree s.disk) (sv'.inode.tree t.disk)) :
    Allocated s (sv.inode.tree s.disk) k block t (sv'.inode.tree t.disk) := by
  obtain ⟨⟨file, -, contents⟩, rfl, alloc⟩ := done
  have nonzero := alloc rfl
  have mine := file.blockAt_mem nonzero
  refine ⟨nonzero, file.marked _ mine, rfl, Tree.blockAt_kept fills, fun hole => ⟨?_, ?_⟩,
    fun l other => Tree.blockAt_fills fills other⟩
  · exact keeps.taken _ mine (Tree.blockAt_new fills file.tidy hole nonzero)
  · have same : sv'.contents t.disk k = sv.contents s.disk k := congrFun contents k
    rwa [SfsVnode.contents, SfsVnode.contents, Tree.logical_mapped nonzero,
      Tree.logical_unmapped hole] at same

/-- What `sfs_bmap` does, with and without `doalloc`. -/
theorem bmap_faithful (file : Orderly p sv s) (fileblock : CUnsigned) (doalloc : Bool) :
    (sfsBmap p fileblock doalloc).Ensures (fun _ => False) s
      (fun block t => fileblock.toNat < 143 ∧ ∃ sv', Orderly p sv' t ∧
        (doalloc = false → Looked s t ∧
          block = (sv.inode.tree s.disk).blockAt fileblock.toNat) ∧
        (doalloc = true → Allocated s (sv.inode.tree s.disk) fileblock.toNat block t
            (sv'.inode.tree t.disk) ∧
          (sfsBmap p fileblock false).Ensures (fun _ => False) t
            (fun again _ => again = block) fun _ _ => False))
      (fun e t => (e = .EINVAL ∧ 143 ≤ fileblock.toNat ∧ t = s) ∨
        (e = .ENOSPC ∧ fileblock.toNat < 143 ∧ doalloc = true ∧ t.Full ∧ ∃ sv', Orderly p sv' t ∧
          ∀ k, (sv'.inode.tree t.disk).blockAt k = (sv.inode.tree s.disk).blockAt k)) := by
  cases doalloc with
  | false =>
    apply file.lookup
    · exact fun large => .inl ⟨rfl, large, rfl⟩
    intro small t looked
    refine ⟨small, sv, ?_, fun _ => ⟨looked, rfl⟩, fun wrong => absurd wrong (by decide)⟩
    rw [looked]
    exact ⟨file.sane.congr rfl rfl rfl, file.here, file.injective, file.inUse⟩
  | true =>
    have call : (sfsBmap p fileblock true).Secures (sharing p fun _ => False) (sv.share s) s
        (fun block after t => fileblock.toNat < 143 ∧ ∃ sv',
          Bmapped p sv s true fileblock.toNat block after sv' t ∧
            Fills (Tree.Uses fileblock.toNat) (sv.inode.tree s.disk) (sv'.inode.tree t.disk))
        fun e _ t => (e = .EINVAL ∧ 143 ≤ fileblock.toNat ∧ t = s) ∨
          (e = .ENOSPC ∧ fileblock.toNat < 143 ∧ true = true ∧ t.Full ∧ ∃ sv', Orderly p sv' t ∧
            ∀ k, (sv'.inode.tree t.disk).blockAt k = (sv.inode.tree s.disk).blockAt k) := by
      apply secures_bmap file.mapped fileblock true
      · intro _ small hole after sv' t done fills still full
        refine .inr ⟨rfl, small, rfl, full, sv', .of_mapped done.mapped, fun k => ?_⟩
        by_cases same : k = fileblock.toNat
        · rw [same, still, hole]
        · exact Tree.blockAt_fills fills same
      · exact fun large => .inl ⟨rfl, large, rfl⟩
      · exact fun block after sv' t small done fills => ⟨small, sv', done, fills⟩
    refine (alone call).mono ?_ ?_
    · rintro block t ⟨after, keeps, small, sv', done, fills⟩
      have orderly : Orderly p sv' t := .of_mapped done.remapped.mapped
      refine ⟨small, sv', orderly, fun wrong => absurd wrong (by decide),
        fun _ => ⟨done.allocated keeps fills, ?_⟩⟩
      apply orderly.lookup
      · exact fun large => absurd large (by omega)
      · exact fun _ _ _ => done.blockAt
    · rintro e t ⟨-, -, error⟩
      exact error

end

/-! ### A small volume -/

/-- A volume of eight blocks with the file `inode` at address 0; `used` says which of the blocks are
in use. -/
def smallVolume (used : Byte) (inode : Inode) (disk : CUnsigned → Block) : Volume :=
  { Volume.blank { blocksize := SFS_BLOCKSIZE, blocks := 8, outcome := fun _ => .ok } disk
      fun _ => true with
    super := { Super.ofBlock Block.zero with magic := SFS_MAGIC, nblocks := 8 }
    freemap := ⟨4096, fun ix => if ix = 0 then used else 255⟩
    heap := fun p => if p = 0 then some ⟨⟨1, 1, false⟩, .fileops, inode, 3, false⟩ else none
    vnodes := [0]
    brk := 1 }

def smallFile (inode : Inode) : SfsVnode := ⟨⟨1, 1, false⟩, .fileops, inode, 3, false⟩

theorem sane_smallVolume {used : Byte} (inode : Inode) (disk : CUnsigned → Block)
    (first : used.getLsbD 0 = true) : Sane (smallVolume used inode disk) where
  reliable _ := rfl
  blocksize := rfl
  magic := rfl
  small := show (8 : CUnsigned).toNat < 2 ^ 22 by decide
  onDevice := show (8 : CUnsigned) ≤ 8 by decide
  nbits := show (4096 : CUnsigned) = SFS_BITMAPSIZE 8 by decide
  padded i low _ := by
    have low : 8 ≤ i := low
    have later : i / 8 ≠ 0 := by omega
    have all : (255 : Byte) = BitVec.allOnes 8 := by decide
    change BitVec.getLsbD (if i / 8 = 0 then used else 255) (i % 8) = true
    rw [if_neg later, all, BitVec.getLsbD_allOnes]
    exact decide_eq_true (Nat.mod_lt i (by decide))
  superblock := first

/-- A file of a given size, without blocks. -/
def emptyInode (size : CUnsigned) : Inode := ⟨size, 1, 1, fun _ => 0, 0, fun _ => 0⟩

theorem orderly_empty {used : Byte} (size : CUnsigned) (disk : CUnsigned → Block)
    (first : used.getLsbD 0 = true) :
    Orderly 0 (smallFile (emptyInode size)) (smallVolume used (emptyInode size) disk) where
  sane := sane_smallVolume _ disk first
  here := rfl
  injective r _ some := absurd (Inode.tree_blank (fun _ => rfl) rfl r) some
  inUse b inside := by
    obtain ⟨some, r, rfl⟩ := inside
    exact absurd (Inode.tree_blank (fun _ => rfl) rfl r) some

/-! ### A file behind its direct blocks -/

/-- Block 15 of the file is at 5, and the indirect block at 4. -/
def sparseInode : Inode := { emptyInode (16 * 512) with indirect := 4 }

def sparseDisk : CUnsigned → Block := fun b =>
  if b = 4 then Block.ofWords fun j => if j = 0 then 5 else 0 else fun _ => 7

theorem tree_sparse (r : Ref) : sparseInode.tree sparseDisk r =
    if r = .indirect then 4 else if r = .entry 0 then 5 else 0 := by
  cases r with
  | direct i => rfl
  | indirect => rfl
  | entry j =>
    have some : sparseInode.indirect ≠ 0 := by decide
    have words : (sparseDisk sparseInode.indirect).words = fun j => if j = 0 then 5 else 0 := by
      rw [sparseDisk, if_pos (show sparseInode.indirect = 4 from rfl), Block.words_ofWords]
    rw [Inode.tree, if_neg some, words]
    simp

theorem orderly_sparse :
    Orderly 0 (smallFile sparseInode) (smallVolume 63 sparseInode sparseDisk) where
  sane := sane_smallVolume _ _ (by decide)
  here := rfl
  injective r r' some same := by
    change sparseInode.tree sparseDisk r ≠ 0 at some
    change sparseInode.tree sparseDisk r = sparseInode.tree sparseDisk r' at same
    rw [tree_sparse] at some
    rw [tree_sparse, tree_sparse] at same
    split_ifs at some same <;> simp_all
  inUse b inside := by
    obtain ⟨some, r, here⟩ := inside
    change sparseInode.tree sparseDisk r = b at here
    rw [tree_sparse] at here
    split_ifs at here
    · subst here
      exact ⟨rfl, by decide⟩
    · subst here
      exact ⟨rfl, by decide⟩
    · exact absurd here.symm some

/-- Block 15 is found, and block 16 gets the first free block. -/
theorem bmap_faithful_sparse :
    (sfsBmap 0 15 false).Ensures (fun _ => False) (smallVolume 63 sparseInode sparseDisk)
        (fun block t => block = 5 ∧ Looked (smallVolume 63 sparseInode sparseDisk) t)
        (fun _ _ => False) ∧
      ∃ t sv', (sfsBmap 0 16 true).run (smallVolume 63 sparseInode sparseDisk) = .returned 6 t ∧
        Orderly 0 sv' t ∧ Allocated (smallVolume 63 sparseInode sparseDisk)
          (sparseInode.tree sparseDisk) 16 6 t (sv'.inode.tree t.disk) := by
  constructor
  · refine (bmap_faithful orderly_sparse 15 false).mono ?_ ?_
    · rintro block t ⟨-, sv', -, looked, -⟩
      obtain ⟨same, rfl⟩ := looked rfl
      exact ⟨(Tree.blockAt_entry _ 0).trans (tree_sparse (.entry 0)), same⟩
    · rintro e t (⟨-, large, -⟩ | ⟨-, -, wrong, -⟩)
      · exact absurd large (by decide)
      · cases wrong
  · obtain ⟨-, sv', orderly, -, mapped⟩ := (bmap_faithful orderly_sparse 16 true).returned rfl
    exact ⟨_, sv', rfl, orderly, (mapped rfl).1⟩

end Os161.Sfs
