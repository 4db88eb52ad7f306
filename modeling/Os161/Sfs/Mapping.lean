import Os161.Sfs.Share

/-!
# `sfs_bmap`

While a call works on a file, the blocks that the file refers to are its share, and each of them
is in use. `sfs_bmap` may map a block that was not there, and the contents of the file stay as
they are.
-/
namespace Os161.Sfs

open Foundation Vfs
open Function (update update_of_ne update_self)
open Call (secures_bind secures_ite)

/-- The contents of a file, block by block. -/
def SfsVnode.contents (sv : SfsVnode) (disk : CUnsigned → Block) : Nat → Block :=
  (sv.inode.tree disk).logical disk

/-- The share is the blocks of the file of the vnode at `p`. -/
structure Mapped (p : Ptr) (own : Share) (sv : SfsVnode) (s : Volume) : Prop where
  sane : Sane s
  here : s.heap p = some sv
  tidy : Tidy (sv.inode.tree s.disk)
  blocks : own = held (sv.inode.tree s.disk)
  marked : ∀ b ∈ own, s.Marked b
  valid : ∀ b ∈ own, b < s.super.nblocks

/-- Blocks may have been mapped, or taken from where the contents were zero. -/
structure Remapped (p : Ptr) (sv : SfsVnode) (s : Volume) (after : Share) (sv' : SfsVnode)
    (t : Volume) : Prop where
  mapped : Mapped p after sv' t
  size : sv'.inode.size = sv.inode.size
  contents : sv'.contents t.disk = sv.contents s.disk

section

variable {p : Ptr} {own own' own'' : Share} {sv sv' sv'' : SfsVnode} {s t u : Volume}
  {b : CUnsigned}

namespace Mapped

section

variable (file : Mapped p own sv s)

include file

theorem mem_blocks {r : Ref} (refers : sv.inode.tree s.disk r ≠ 0) :
    sv.inode.tree s.disk r ∈ own :=
  file.blocks ▸ mem_held refers

theorem blockAt_mem {k : Nat} (mapped : (sv.inode.tree s.disk).blockAt k ≠ 0) :
    (sv.inode.tree s.disk).blockAt k ∈ own :=
  file.blocks ▸ Tree.blockAt_mem mapped

theorem congr (device : t.device = s.device) (super : t.super = s.super)
    (freemap : t.freemap = s.freemap) (heap : t.heap p = s.heap p) (disk : t.disk = s.disk) :
    Mapped p own sv t where
  sane := file.sane.congr device super freemap
  here := heap.trans file.here
  tidy := disk ▸ file.tidy
  blocks := disk ▸ file.blocks
  marked b inside := by
    rw [Volume.Marked, freemap]
    exact file.marked b inside
  valid b inside := super ▸ file.valid b inside

end

end Mapped

namespace Remapped

theorem refl (file : Mapped p own sv s) : Remapped p sv s own sv s := ⟨file, rfl, rfl⟩

private theorem trans (first : Remapped p sv s own' sv' t)
    (second : Remapped p sv' t own'' sv'' u) : Remapped p sv s own'' sv'' u where
  mapped := second.mapped
  size := second.size.trans first.size
  contents := second.contents.trans first.contents

end Remapped

/-- A free block comes to a place where there was none. -/
theorem Mapped.put (file : Mapped p own sv s) {r : Ref} (empty : sv.inode.tree s.disk r = 0)
    (free : ¬ s.Marked b) (valid : b < s.super.nblocks) (sane : Sane t) (super : t.super = s.super)
    (here : t.heap p = some sv')
    (tree : sv'.inode.tree t.disk = update (sv.inode.tree s.disk) r b)
    (marked : ∀ c ∈ insert b own, t.Marked c) (zero : t.disk b = Block.zero)
    (same : ∀ k, (sv.inode.tree s.disk).blockAt k ≠ 0 →
      t.disk ((sv.inode.tree s.disk).blockAt k) = s.disk ((sv.inode.tree s.disk).blockAt k))
    (size : sv'.inode.size = sv.inode.size) : Remapped p sv s (insert b own) sv' t := by
  have nonzero : b ≠ 0 := by
    rintro rfl
    exact free file.sane.superblock
  have outside : b ∉ own := fun inside => free (file.marked b inside)
  have tidy : Tidy (sv'.inode.tree t.disk) := by
    rw [tree]
    exact file.tidy.put (file.blocks ▸ outside)
  have blocks : insert b own = held (sv'.inode.tree t.disk) := by
    rw [tree, held_put empty nonzero, ← file.blocks]
  have contents : sv'.contents t.disk = sv.contents s.disk := by
    rw [SfsVnode.contents, tree, Tree.logical_put empty zero]
    exact Tree.logical_congr same
  refine ⟨⟨sane, here, tidy, blocks, marked, ?_⟩, size, contents⟩
  rintro c (rfl | inside)
  · exact super ▸ valid
  · exact super ▸ file.valid c inside

/-- What the new block and the share look like after `sfs_balloc`. -/
theorem Mapped.allocated (file : Mapped p own sv s) (free : ¬ s.Marked b) :
    Sane (s.allocated b) ∧ (s.allocated b).disk b = Block.zero ∧
      (∀ c ∈ own, (s.allocated b).disk c = s.disk c) ∧
      sv.inode.tree (s.allocated b).disk = sv.inode.tree s.disk ∧
      ∀ c ∈ insert b own, (s.allocated b).Marked c := by
  have same : ∀ c ∈ own, (s.allocated b).disk c = s.disk c := by
    intro c inside
    refine update_of_ne ?_ ..
    rintro rfl
    exact free (file.marked c inside)
  exact ⟨file.sane.mark.congr rfl rfl rfl, update_self .., same,
    Inode.tree_congr_held fun c inside => same c (file.blocks ▸ inside),
    fun c inside => marked_mark.mpr (inside.imp id (file.marked c))⟩

end

section

variable {halts : Halt → Prop} {p : Ptr} {own : Share} {sv : SfsVnode} {s : Volume}
  {Q : CUnsigned → Share → Volume → Prop} {E : Errno → Share → Volume → Prop}

private theorem secures_handBack {block : CUnsigned}
    (used : block ≠ 0 → block < s.super.nblocks ∧ s.Marked block) (next : Q block own s) :
    (handBack block).Secures (sharing p halts) own s Q E := by
  rw [handBack, secures_ite]
  refine ⟨fun nonzero => ?_, fun _ => next⟩
  rw [secures_bind]
  apply secures_bused (used nonzero).1 (used nonzero).2
  exact next

theorem Mapped.handBack (file : Mapped p own sv s) {k : Nat} {block : CUnsigned}
    (at_k : (sv.inode.tree s.disk).blockAt k = block) (next : Q block own s) :
    (handBack block).Secures (sharing p halts) own s Q E := by
  subst at_k
  apply secures_handBack _ next
  intro nonzero
  have inside := file.blockAt_mem nonzero
  exact ⟨file.valid _ inside, file.marked _ inside⟩

/-- What the functions here leave: block `k` is at `block`, if it is anywhere. -/
structure Bmapped (p : Ptr) (sv : SfsVnode) (s : Volume) (doalloc : Bool) (k : Nat)
    (block : CUnsigned) (after : Share) (sv' : SfsVnode) (t : Volume) : Prop where
  remapped : Remapped p sv s after sv' t
  blockAt : (sv'.inode.tree t.disk).blockAt k = block
  alloc : doalloc = true → block ≠ 0

private theorem secures_bmapDirect (file : Mapped p own sv s) (k : Fin 15) (doalloc : Bool)
    (full : doalloc = true → (sv.inode.tree s.disk).blockAt k = 0 → s.Full → E .ENOSPC own s)
    (next : ∀ block after sv' t, Bmapped p sv s doalloc k block after sv' t →
      Fills (Tree.Uses k) (sv.inode.tree s.disk) (sv'.inode.tree t.disk) → Q block after t) :
    (sfsBmapDirect p k doalloc).Secures (sharing p halts) own s Q E := by
  have place : Tree.place k = some (.direct k) := Tree.place_direct k.isLt
  have here : (sv.inode.tree s.disk).blockAt k = sv.inode.direct k := Tree.blockAt_eq place
  rw [sfsBmapDirect, secures_bind, secures_svAt file.here, secures_ite]
  constructor
  · rintro ⟨empty, alloc⟩
    rw [secures_bind]
    apply secures_balloc file.sane (full alloc (here.trans empty))
    intro b free valid
    obtain ⟨sane, zero, same, tree, marked⟩ := file.allocated free
    rw [secures_bind]
    refine secures_alterSv { sv.inode with direct := update sv.inode.direct k b } file.here rfl
      rfl rfl ?_
    have grown : { sv.inode with direct := update sv.inode.direct k b }.tree
        (s.allocated b).disk = update (sv.inode.tree s.disk) (.direct k) b := by
      rw [Inode.tree_setDirect, tree]
    have after : Remapped p sv s (insert b own)
        { sv with
          inode := { sv.inode with direct := update sv.inode.direct k b }, dirty := true }
        { s.allocated b with started := s.started + 1, heap := update s.heap p _ } :=
      file.put (r := .direct k) empty free valid (sane.congr rfl rfl rfl) rfl
        (update_self ..) grown marked zero
        (fun k mapped => same _ (file.blockAt_mem mapped)) rfl
    have now : Bmapped p sv s doalloc k b _ _ _ :=
      ⟨after, by rw [Tree.blockAt_eq place]; exact update_self ..,
        fun _ zero => free (zero ▸ file.sane.superblock)⟩
    exact after.mapped.handBack now.blockAt
      (next _ _ _ _ now (.put grown empty (.inl place)))
  · intro settled
    refine file.handBack here (next _ _ _ _ ⟨.refl file, here, fun alloc zero => ?_⟩ (.refl _ _))
    exact settled ⟨zero, alloc⟩

/-- With the indirect block in the buffer. -/
theorem secures_bmapEntry (file : Mapped p own sv s) (j : Fin 128)
    (some : sv.inode.indirect ≠ 0) (loaded : s.idbuf = (s.disk sv.inode.indirect).words)
    (doalloc : Bool)
    (full : doalloc = true → (sv.inode.tree s.disk).blockAt (j + 15) = 0 → s.Full →
      E .ENOSPC own s)
    (next : ∀ block after sv' t, Bmapped p sv s doalloc (j + 15) block after sv' t →
      Fills (Tree.Uses (j + 15)) (sv.inode.tree s.disk) (sv'.inode.tree t.disk) →
      Q block after t) :
    (sfsBmapEntry sv.inode.indirect j doalloc).Secures (sharing p halts) own s Q E := by
  have place : Tree.place (j + 15) = Option.some (.entry j) :=
    Tree.place_entry (by omega) (by omega)
  have entry : sv.inode.tree s.disk (.entry j) = s.idbuf j := by
    rw [Inode.tree, if_neg some, loaded]
  have here : (sv.inode.tree s.disk).blockAt (j + 15) = s.idbuf j :=
    (Tree.blockAt_eq place).trans entry
  have indirect : sv.inode.indirect ∈ own := file.mem_blocks (r := .indirect) some
  rw [sfsBmapEntry, secures_bind, Call.secures_state, secures_ite]
  constructor
  · rintro ⟨empty, alloc⟩
    rw [secures_bind]
    apply secures_balloc file.sane (full alloc (here.trans empty))
    intro b free valid
    obtain ⟨sane, zero, same, unchanged, marked⟩ := file.allocated free
    rw [secures_bind, Call.secures_modify]
    refine ⟨insert b own, .buffers .., ?_⟩
    rw [secures_bind]
    refine secures_wblock ?_ ?_ (.inr indirect) ?_
    · exact sane.congr rfl rfl rfl
    · exact file.valid _ indirect
    have tree : sv.inode.tree (update (s.allocated b).disk sv.inode.indirect
        (Block.ofWords (update s.idbuf j b))) = update (sv.inode.tree s.disk) (.entry j) b := by
      rw [loaded, ← same _ indirect, Inode.tree_setEntry some, unchanged]
    have fresh : b ≠ sv.inode.indirect := by
      intro same
      exact free (file.marked b (same ▸ indirect))
    have after : Remapped p sv s (insert b own) sv
        { s.allocated b with
          started := s.started + 1 + 1
          idbuf := update s.idbuf j b
          disk := update (s.allocated b).disk sv.inode.indirect
            (Block.ofWords (update s.idbuf j b)) } := by
      refine file.put (r := .entry j) (entry.trans empty) free valid (sane.congr rfl rfl rfl) rfl
        file.here tree marked ((update_of_ne fresh ..).trans zero) ?_ rfl
      intro k mapped
      exact (update_of_ne (Tree.blockAt_ne_indirect file.tidy mapped) ..).trans
        (same _ (file.blockAt_mem mapped))
    have now : Bmapped p sv s doalloc (j + 15) b _ _ _ :=
      ⟨after, by rw [Tree.blockAt_eq place, tree, update_self],
        fun _ zero => free (zero ▸ file.sane.superblock)⟩
    exact after.mapped.handBack now.blockAt
      (next _ _ _ _ now (.put tree (entry.trans empty) (.inl place)))
  · intro settled
    refine file.handBack here (next _ _ _ _ ⟨.refl file, here, fun alloc zero => ?_⟩ (.refl _ _))
    exact settled ⟨zero, alloc⟩

theorem Bmapped.after {own' own'' : Share} {sv' sv'' : SfsVnode} {t u : Volume} {doalloc : Bool}
    {k : Nat} {block : CUnsigned} (first : Remapped p sv s own' sv' t)
    (second : Bmapped p sv' t doalloc k block own'' sv'' u) :
    Bmapped p sv s doalloc k block own'' sv'' u :=
  ⟨first.trans second.remapped, second.blockAt, second.alloc⟩

private theorem secures_bmapIndirect (file : Mapped p own sv s) (j : Fin 128) (doalloc : Bool)
    (full : doalloc = true → (sv.inode.tree s.disk).blockAt (j + 15) = 0 →
      ∀ after sv' t, Remapped p sv s after sv' t →
        Fills (Tree.Uses (j + 15)) (sv.inode.tree s.disk) (sv'.inode.tree t.disk) →
        (sv'.inode.tree t.disk).blockAt (j + 15) = 0 → t.Full → E .ENOSPC after t)
    (next : ∀ block after sv' t, Bmapped p sv s doalloc (j + 15) block after sv' t →
      Fills (Tree.Uses (j + 15)) (sv.inode.tree s.disk) (sv'.inode.tree t.disk) →
      Q block after t) :
    (sfsBmapIndirect p j doalloc).Secures (sharing p halts) own s Q E := by
  have place : Tree.place (j + 15) = Option.some (.entry j) :=
    Tree.place_entry (by omega) (by omega)
  rw [sfsBmapIndirect, secures_bind, secures_svAt file.here, secures_ite]
  constructor
  · rintro ⟨none, noalloc⟩
    refine next 0 own sv s ⟨.refl file, ?_, fun alloc => ?_⟩ (.refl _ _)
    · rw [Tree.blockAt_eq place, Inode.tree, if_pos none]
    · simp [noalloc] at alloc
  intro asked
  rw [secures_ite]
  constructor
  · intro none
    have alloc : doalloc = true := by simpa [none] using asked
    have hole : (sv.inode.tree s.disk).blockAt (j + 15) = 0 := by
      rw [Tree.blockAt_eq place, Inode.tree, if_pos none]
    rw [secures_bind]
    apply secures_balloc file.sane (full alloc hole _ _ _ (.refl file) (.refl _ _) hole)
    intro b free valid
    obtain ⟨sane, zero, same, tree, marked⟩ := file.allocated free
    rw [secures_bind]
    refine secures_alterSv { sv.inode with indirect := b } file.here rfl rfl rfl ?_
    refine ⟨_, .buffers .., ?_⟩
    have grown : { sv.inode with indirect := b }.tree (s.allocated b).disk =
        update (sv.inode.tree s.disk) .indirect b := by
      rw [Inode.tree_setIndirect none zero, tree]
    have filled : Fills (Tree.Uses (j + 15)) (sv.inode.tree s.disk)
        ({ sv.inode with indirect := b }.tree (s.allocated b).disk) :=
      .put grown none (.inr ⟨by omega, rfl⟩)
    have after : Remapped p sv s (insert b own)
        { sv with inode := { sv.inode with indirect := b }, dirty := true }
        { s.allocated b with
          started := s.started + 1
          heap := update s.heap p _
          idbuf := fun _ => 0 } :=
      file.put (r := .indirect) none free valid (sane.congr rfl rfl rfl) rfl
        (update_self ..) grown marked zero
        (fun k mapped => same _ (file.blockAt_mem mapped)) rfl
    refine secures_bmapEntry after.mapped j ?_ ?_ doalloc
      (fun _ still => full alloc hole _ _ _ after filled still) ?_
    · rintro rfl
      exact free file.sane.superblock
    · rw [zero]
      exact funext fun j => (Block.words_zero j).symm
    · exact fun block own' sv' u last more => next _ _ _ _ (.after after last) (filled.trans more)
  · intro some
    have indirect : sv.inode.indirect ∈ own := file.mem_blocks (r := .indirect) some
    rw [secures_bind]
    apply secures_rblock file.sane (file.valid _ indirect) fun _ => .buffers ..
    have between : Remapped p sv s own sv
        { s with started := s.started + 1, idbuf := (s.disk sv.inode.indirect).words } :=
      ⟨file.congr rfl rfl rfl rfl rfl, rfl, rfl⟩
    exact secures_bmapEntry between.mapped j some rfl doalloc
      (fun alloc hole => full alloc hole _ _ _ between (.refl _ _) hole)
      fun block own' sv' u last more => next _ _ _ _ (.after between last) more

section

variable {fileblock : CUnsigned} (large : ¬ fileblock.toNat < 15)

include large

/-- The numbers of `sfs_bmap` behind the direct blocks. -/
theorem toNat_sub_direct : (fileblock - SFS_NDIRECT).toNat = fileblock.toNat - 15 := by
  rw [BitVec.toNat_sub_of_le (BitVec.le_def.mpr (Nat.le_of_not_lt large))]
  rfl

theorem idnum_pos : 0 < (fileblock - SFS_NDIRECT) / SFS_DBPERIDB ↔ 143 ≤ fileblock.toNat := by
  have number : ((fileblock - SFS_NDIRECT) / SFS_DBPERIDB).toNat =
      (fileblock.toNat - 15) / 128 := by
    rw [BitVec.toNat_udiv, toNat_sub_direct large]
    rfl
  have zero : (0 : CUnsigned).toNat = 0 := rfl
  rw [BitVec.lt_def]
  omega

theorem idoff_add (small : fileblock.toNat < 143) :
    (idoff (fileblock - SFS_NDIRECT)).val + 15 = fileblock.toNat := by
  have offset : (idoff (fileblock - SFS_NDIRECT)).val = (fileblock.toNat - 15) % 128 := by
    rw [← toNat_sub_direct large]
    rfl
  omega

end

/-- What `sfs_bmap` does with a block of the file. -/
theorem secures_bmap (file : Mapped p own sv s)
    (fileblock : CUnsigned) (doalloc : Bool)
    (full : doalloc = true → fileblock.toNat < 143 →
      (sv.inode.tree s.disk).blockAt fileblock.toNat = 0 →
      ∀ after sv' t, Remapped p sv s after sv' t →
        Fills (Tree.Uses fileblock.toNat) (sv.inode.tree s.disk) (sv'.inode.tree t.disk) →
        (sv'.inode.tree t.disk).blockAt fileblock.toNat = 0 → t.Full → E .ENOSPC after t)
    (beyond : 143 ≤ fileblock.toNat → E .EINVAL own s)
    (next : ∀ block after sv' t, fileblock.toNat < 143 →
      Bmapped p sv s doalloc fileblock.toNat block after sv' t →
      Fills (Tree.Uses fileblock.toNat) (sv.inode.tree s.disk) (sv'.inode.tree t.disk) →
      Q block after t) :
    (sfsBmap p fileblock doalloc).Secures (sharing p halts) own s Q E := by
  rw [sfsBmap]
  split
  next direct =>
    exact secures_bmapDirect file ⟨fileblock.toNat, direct⟩ doalloc
      (fun alloc hole => full alloc (by omega) hole _ _ _ (.refl file) (.refl _ _) hole)
      fun block after sv' t done more => next block after sv' t (by omega) done more
  next indirect =>
    rw [secures_ite, idnum_pos indirect]
    refine ⟨beyond, fun small => ?_⟩
    have index := idoff_add indirect (Nat.lt_of_not_le small)
    refine secures_bmapIndirect file _ doalloc ?_ ?_ <;> rw [index]
    · exact fun alloc => full alloc (by omega)
    · exact fun block after sv' t done more => next block after sv' t (by omega) done more

end

/-! ### Files by their contents -/

/-- The share is the blocks of a file of this size and with these contents. -/
structure FileHas (p : Ptr) (size : CUnsigned) (contents : Nat → Block) (own : Share)
    (s : Volume) : Prop where
  file : ∃ sv, Mapped p own sv s ∧ sv.inode.size = size ∧ sv.contents s.disk = contents

/-- And the places of its blocks are as `T` says. -/
structure FileWith (T : Tree → Prop) (p : Ptr) (size : CUnsigned) (contents : Nat → Block)
    (own : Share) (s : Volume) : Prop where
  file : ∃ sv, Mapped p own sv s ∧ sv.inode.size = size ∧ sv.contents s.disk = contents ∧
    T (sv.inode.tree s.disk)

/-- And block `k` is at `block`. -/
abbrev FileAt (T : Tree → Prop) (p : Ptr) (size : CUnsigned) (contents : Nat → Block) (k : Nat)
    (block : CUnsigned) : Share → Volume → Prop :=
  FileWith (fun m => T m ∧ m.blockAt k = block) p size contents

/-- What is known of the places stays true when block `k` is mapped. -/
def Grows (T : Tree → Prop) (k : Nat) : Prop := ∀ m m', T m → Fills (Tree.Uses k) m m' → T m'

theorem Grows.any {k : Nat} : Grows (fun _ => True) k := fun _ _ _ _ => trivial

section

variable {T T' : Tree → Prop} {p : Ptr} {own : Share} {size : CUnsigned} {contents : Nat → Block}
  {k : Nat} {block : CUnsigned} {s t : Volume}

theorem FileHas.fileWith (has : FileHas p size contents own s) :
    FileWith (fun _ => True) p size contents own s := by
  obtain ⟨sv, file, of_size, holds⟩ := has
  exact ⟨sv, file, of_size, holds, trivial⟩

namespace FileWith

section

variable (has : FileWith T p size contents own s)

include has

theorem fileHas : FileHas p size contents own s := by
  obtain ⟨sv, file, of_size, holds, -⟩ := has
  exact ⟨sv, file, of_size, holds⟩

theorem sane : Sane s := has.file.elim fun _ file => file.1.sane

theorem mono (weaker : ∀ m, T m → T' m) : FileWith T' p size contents own s := by
  obtain ⟨sv, file, of_size, holds, placed⟩ := has
  exact ⟨sv, file, of_size, holds, weaker _ placed⟩

theorem congr (device : t.device = s.device) (super : t.super = s.super)
    (freemap : t.freemap = s.freemap) (heap : t.heap = s.heap) (disk : t.disk = s.disk) :
    FileWith T p size contents own t := by
  obtain ⟨sv, file, of_size, holds, placed⟩ := has
  exact ⟨sv, file.congr device super freemap (congrFun heap _) disk, of_size, disk ▸ holds,
    disk ▸ placed⟩

end

section

variable (at_k : FileAt T p size contents k block own s)

include at_k

theorem anywhere : FileWith T p size contents own s := at_k.mono fun _ => And.left

theorem hole (none : block = 0) : contents k = Block.zero := by
  obtain ⟨sv, -, -, rfl, -, here⟩ := at_k
  exact Tree.logical_unmapped (here.trans none)

/-- The block is in the share, and holds these contents. -/
theorem mapped (some : block ≠ 0) :
    block ∈ own ∧ block < s.super.nblocks ∧ s.disk block = contents k := by
  obtain ⟨sv, file, -, rfl, -, rfl⟩ := at_k
  have inside := file.blockAt_mem some
  exact ⟨inside, file.valid _ inside, (Tree.logical_mapped some).symm⟩

theorem write (some : block ≠ 0) (data : Block) :
    FileWith T p size (update contents k data) own
      { s with disk := update s.disk block data } := by
  obtain ⟨sv, file, of_size, rfl, placed, rfl⟩ := at_k
  -- the block that is written is not the indirect block
  have tree : sv.inode.tree (update s.disk ((sv.inode.tree s.disk).blockAt k) data) =
      sv.inode.tree s.disk := by
    apply Inode.tree_congr
    intro _
    exact update_of_ne (Tree.blockAt_ne_indirect file.tidy some).symm ..
  refine ⟨sv, ⟨file.sane.congr rfl rfl rfl, file.here, ?_, ?_, file.marked, file.valid⟩,
    of_size, ?_, ?_⟩
  · rw [tree]
    exact file.tidy
  · rw [tree]
    exact file.blocks
  · rw [SfsVnode.contents, tree]
    exact Tree.logical_write file.tidy some data
  · rw [tree]
    exact placed

end

theorem bmap {halts : Halt → Prop} {Q : CUnsigned → Share → Volume → Prop}
    {E : Errno → Share → Volume → Prop} (has : FileWith T p size contents own s)
    (fileblock : CUnsigned) (doalloc : Bool) (grows : Grows T fileblock.toNat)
    (full : doalloc = true → ∀ after t, FileAt T p size contents fileblock.toNat 0 after t →
      t.Full → E .ENOSPC after t)
    (beyond : 143 ≤ fileblock.toNat → E .EINVAL own s)
    (next : ∀ block after t, fileblock.toNat < 143 →
      FileAt T p size contents fileblock.toNat block after t → (doalloc = true → block ≠ 0) →
      Q block after t) :
    (sfsBmap p fileblock doalloc).Secures (sharing p halts) own s Q E := by
  obtain ⟨sv, file, rfl, rfl, placed⟩ := has
  apply secures_bmap file fileblock doalloc
  · intro alloc _ hole after sv' t done fills still all
    exact full alloc after t ⟨sv', done.mapped, done.size, done.contents,
      grows _ _ placed fills, still⟩ all
  · exact beyond
  intro block after sv' t small done fills
  exact next block after t small ⟨sv', done.remapped.mapped, done.remapped.size,
    done.remapped.contents, grows _ _ placed fills, done.blockAt⟩ done.alloc

end FileWith

end

end Os161.Sfs
