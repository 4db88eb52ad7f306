import Os161.Sfs.Alone

/-!
# Mounting

What `sfs_domount` makes of a disk: the superblock and the freemap are those on it, and no vnode
is in memory.
-/
namespace Os161.Sfs

open Foundation Vfs
open Call (ensures_bind ensures_modify ensures_state)

/-- The freemap in the first `n` blocks of the map on the disk. -/
def mapOf (disk : CUnsigned → Block) (n : Nat) : Nat → Byte := fun i =>
  if i / 512 < n then
    disk (SFS_MAP_LOCATION + BitVec.ofNat 32 (i / 512)) ⟨i % 512, mod_blocksize_lt i⟩
  else 0

def Volume.mounted (device : Device) (disk : CUnsigned → Block) (memory : Nat → Bool)
    (asked started : Nat) : Volume :=
  { Volume.blank device disk memory with
    super := superOf (disk 0)
    freemap := ⟨SFS_BITMAPSIZE (superOf (disk 0)).nblocks,
      mapOf disk (SFS_BITBLOCKS (superOf (disk 0)).nblocks).toNat⟩
    asked := asked
    started := started }

private theorem setChunk_mapOf (disk : CUnsigned → Block) (j : Nat) :
    setChunk (mapOf disk j) j (disk (SFS_MAP_LOCATION + BitVec.ofNat 32 j)) =
      mapOf disk (j + 1) := by
  funext i
  rw [setChunk, mapOf, mapOf]
  by_cases here : i / 512 = j
  · rw [if_pos here, if_pos (by omega)]
    subst here
    rfl
  rw [if_neg here]
  by_cases before : i / 512 < j
  · rw [if_pos before, if_pos (by omega)]
  · rw [if_neg before, if_neg (by omega)]

/-- Block `j` of the map on the disk. -/
theorem chunk_mapOf (disk : CUnsigned → Block) {n j : Nat} (inside : j < n) :
    chunk (mapOf disk n) j = disk (SFS_MAP_LOCATION + BitVec.ofNat 32 j) := by
  funext i
  have block : (j * 512 + i.val) / 512 = j := by omega
  have place : (j * 512 + i.val) % 512 = i := by omega
  simp [chunk, mapOf, block, place, inside]

theorem mapOf_chunk (v : Nat → Byte) {disk : CUnsigned → Block} {n : Nat}
    (same : ∀ j < n, disk (SFS_MAP_LOCATION + BitVec.ofNat 32 j) = chunk v j) {i : Nat}
    (inside : i < n * 512) : mapOf disk n i = v i := by
  have block : i / 512 < n := by omega
  rw [mapOf, if_pos block, same _ block]
  exact congrArg v (Nat.div_add_mod' i 512)

section

variable {H : Halt → Prop} {s : Volume} {b : CUnsigned} {Q : Unit → Volume → Prop}
  {E : Errno → Volume → Prop}

private theorem ensures_mapRead (j left : Nat) (known : s.freemap.v = mapOf s.disk j)
    (small : 2 + j + left ≤ 2 ^ 22) (inside : 2 + j + left ≤ s.device.blocks.toNat)
    (next : ∀ started, Q () { s with
      freemap := { s.freemap with v := mapOf s.disk (j + left) }, started := started })
    (broken : (∃ n, s.device.outcome n = .fails) → ∀ t, E .EIo t) :
    (mapRead j left).Ensures H s Q E := by
  induction left generalizing j s with
  | zero =>
    have same := next s.started
    rw [Nat.add_zero, ← known] at same
    exact same
  | succ left ih =>
    have number := toNat_mapLocation (show 2 + j < 2 ^ 32 by omega)
    rw [mapRead, ensures_bind]
    refine ensures_read (sectorOf_inside (by omega) (by omega)) ?_ fun fails => broken ⟨_, fails⟩ _
    -- one more block of the map is in memory
    have step : setChunk s.freemap.v j (s.disk (SFS_MAP_LOCATION + BitVec.ofNat 32 j)) =
        mapOf s.disk (j + 1) := by
      rw [known, setChunk_mapOf]
    refine ih (j + 1) step (by omega) (by change _ ≤ s.device.blocks.toNat; omega) ?_ broken
    intro started
    have all : j + 1 + left = j + (left + 1) := by omega
    rw [all]
    exact next started

private theorem ensures_loadFreemap {nblocks : CUnsigned} (small : nblocks.toNat ≤ 2 ^ 31)
    (room : 2 + (SFS_BITBLOCKS nblocks).toNat ≤ s.device.blocks.toNat)
    (next : ∀ started, Q () { s with
      freemap := ⟨SFS_BITMAPSIZE nblocks, mapOf s.disk (SFS_BITBLOCKS nblocks).toNat⟩
      asked := s.asked + 1
      started := started })
    (lacks : (∃ k, s.memory k = false) → ∀ t, E .ENOMEM t)
    (broken : (∃ n, s.device.outcome n = .fails) → ∀ t, E .EIo t) :
    (loadFreemap nblocks).Ensures H s Q E := by
  have limit := @toNat_bitblocks nblocks (by omega)
  have bits := @toNat_bitmapsize nblocks (by omega)
  have created : Bitmap.create (SFS_BITMAPSIZE nblocks) =
      .ok ⟨SFS_BITMAPSIZE nblocks, fun _ => 0⟩ :=
    Bitmap.create_eq (by omega) (by omega)
  rw [loadFreemap, ensures_bind, ensures_kmalloc]
  refine ⟨fun _ => ?_, fun none => lacks ⟨_, none⟩ _⟩
  rw [created]
  refine ensures_mapRead 0 (SFS_BITBLOCKS nblocks).toNat ?_ (by omega)
    (by omega) (fun started => ?_) broken
  · funext i
    rw [mapOf, if_neg (Nat.not_lt_zero _)]
  · rw [Nat.zero_add]
    exact next started

theorem ensures_domount {device : Device} {disk : CUnsigned → Block} {memory : Nat → Bool}
    (blocksize : device.blocksize = SFS_BLOCKSIZE) (magic : (superOf (disk 0)).magic = SFS_MAGIC)
    (small : (superOf (disk 0)).nblocks.toNat ≤ 2 ^ 31)
    (room : 2 + (SFS_BITBLOCKS (superOf (disk 0)).nblocks).toNat ≤ device.blocks.toNat)
    (next : ∀ asked started, Q () (Volume.mounted device disk memory asked started))
    (lacks : (∃ k, memory k = false) → ∀ t, E .ENOMEM t)
    (broken : (∃ n, device.outcome n = .fails) → ∀ t, E .EIo t) :
    sfsDomount.Ensures H (Volume.blank device disk memory) Q E := by
  rw [sfsDomount, ensures_bind, ensures_state, Call.ensures_ite]
  refine ⟨fun wrong => absurd blocksize wrong, fun _ => ?_⟩
  rw [ensures_bind, ensures_kmalloc]
  refine ⟨fun _ => ?_, fun none => lacks ⟨_, none⟩ _⟩
  rw [ensures_bind, ensures_kmalloc]
  refine ⟨fun _ => ?_, fun none => lacks ⟨_, none⟩ _⟩
  rw [ensures_bind, ensures_modify, ensures_bind]
  -- the state is written out after each block that is read
  have present : SFS_SB_LOCATION.toNat < device.blocks.toNat := by
    change 0 < device.blocks.toNat
    omega
  refine ensures_read (sectorOf_inside (by decide) present) ?_ fun fails => broken ⟨_, fails⟩ _
  rw [ensures_bind, ensures_state, Call.ensures_ite]
  refine ⟨fun wrong => absurd magic wrong, fun _ => ?_⟩
  rw [ensures_bind, ensures_modify, ensures_bind, ensures_state,
    ensures_bind]
  refine ensures_loadFreemap small room (fun started => ?_) lacks broken
  exact next 3 started

end

/-! ### The blocks of a mounted volume

When the superblock has more blocks than the device, `sfs_domount` only warns. What it mounts
can be used to its last block if there was no warning and the offsets fit into an `off_t`. -/

section

variable {s : Volume} {b : CUnsigned}

/-- A block that is read, from a device that may refuse it. -/
theorem ensures_rblock_any {store : Block → Volume → Volume} {Q : Block → Volume → Prop}
    {E : Errno → Volume → Prop}
    (next : ∀ data, Q data (store data { s with started := s.started + 1 }))
    (broken : ∀ t, E .EIo t) : (rblock store b).Ensures (fun _ => True) s Q E := by
  simp [rblock, operate, ensures_bind, Call.ensures_ite, next, broken]

private theorem ensures_mapRead_any (j left : Nat) :
    (mapRead j left).Ensures (fun _ => True) s
      (fun _ t => t.super = s.super ∧ t.device = s.device ∧ t.freemap.nbits = s.freemap.nbits)
      fun _ _ => True := by
  induction left generalizing j s with
  | zero => simp [mapRead]
  | succ left ih =>
    rw [mapRead, ensures_bind]
    exact ensures_rblock_any (fun _ => ih (j + 1)) fun _ => trivial

private theorem ensures_loadFreemap_any (nblocks : CUnsigned) :
    (loadFreemap nblocks).Ensures (fun _ => True) s
      (fun _ t => t.super = s.super ∧ t.device = s.device ∧
        t.freemap.nbits = SFS_BITMAPSIZE nblocks)
      fun _ _ => True := by
  rw [loadFreemap, ensures_bind, ensures_kmalloc]
  refine ⟨fun _ => ?_, fun _ => trivial⟩
  cases created : Bitmap.create (SFS_BITMAPSIZE nblocks) with
  | error _ => exact trivial
  | ok freemap =>
    rw [← Bitmap.create_nbits created]
    exact ensures_mapRead_any 0 _

/-- Whatever is on the disk, the freemap has the size that the superblock asks for. -/
theorem domount_nbits (device : Device) (disk : CUnsigned → Block) (memory : Nat → Bool) :
    sfsDomount.Ensures (fun _ => True) (Volume.blank device disk memory)
      (fun _ t => t.device = device ∧ t.freemap.nbits = SFS_BITMAPSIZE t.super.nblocks)
      fun _ _ => True := by
  simp only [sfsDomount, ensures_bind, ensures_state, Call.ensures_ite, Call.ensures_fail,
    ensures_kmalloc, ensures_modify, implies_true, true_and, and_true]
  intro _ _ _
  refine ensures_rblock_any (fun data _ => ?_) fun _ => trivial
  refine (ensures_loadFreemap_any _).mono (fun _ t loaded => ?_) fun _ _ => id
  obtain ⟨super, device, bits⟩ := loaded
  exact ⟨device, by rw [bits, super]⟩

/-- Block `b` is in the freemap, at an offset that leads back to it, and on the device, where reads
and writes of it do not panic. -/
structure Addressable (device : Device) (t : Volume) (b : CUnsigned) : Prop where
  mapped : b < t.freemap.nbits
  offset : 0 ≤ (b * SFS_BLOCKSIZE).toInt ∧ (b * SFS_BLOCKSIZE).sdiv Io.LHD_SECTSIZE = b
  onDevice : b < device.blocks
  accessed : ∀ (lh : Io.Lhd) (cur : Io.Curthread) (d : Io.Disk) (data : Address),
    data.toNat + Io.LHD_SECTSIZE.toNat ≤ 2 ^ 32 → lh.blocks = device.blocks →
    (∀ n, lh.completes n ≠ .invsect) →
      sfsRblock (Io.lhdIo lh cur) d data b ≠ .error .panic ∧
        sfsWblock (Io.lhdIo lh cur) d data b ≠ .error .panic

/-- A write that fails is tried again one block further. -/
def Retried (device : Device) (nblocks : CUnsigned) : Prop :=
  nblocks.toNat < 2 ^ 22 ∨ nblocks.toNat = 2 ^ 22 ∧ sectorOf nblocks ≤ device.blocks

variable {device : Device}

private theorem addressable {t : Volume}
    (bits : t.freemap.nbits = SFS_BITMAPSIZE t.super.nblocks)
    (fits : t.super.nblocks ≤ device.blocks) (retried : Retried device t.super.nblocks)
    (valid : b < t.super.nblocks) : Addressable device t b := by
  rw [BitVec.lt_def] at valid
  rw [BitVec.le_def] at fits
  have small : t.super.nblocks.toNat ≤ 2 ^ 22 := by
    rcases retried with below | ⟨last, -⟩ <;> omega
  obtain ⟨same, inside⟩ := sectorOf_inside (show b.toNat < 2 ^ 22 by omega)
    (show b.toNat < device.blocks.toNat by omega)
  refine ⟨?_, ⟨?_, ?_⟩, BitVec.lt_def.mpr (by omega), ?_⟩
  · rw [bits, BitVec.lt_def, toNat_bitmapsize (by omega)]
    omega
  · rw [toInt_offset, same, BitVec.toInt_eq_toNat_of_lt (by omega)]
    omega
  · rw [sdiv_offset, same]
  intro lh cur d data room size working
  have after : (b + 1).toNat = b.toNat + 1 := by
    rw [BitVec.toNat_add_of_lt (by change _ + 1 < _; omega)]
    rfl
  have beyond : ¬ device.blocks < sectorOf (b + 1) := by
    by_cases last : b + 1 = t.super.nblocks ∧ t.super.nblocks.toNat = 2 ^ 22
    · rcases retried with below | ⟨-, covered⟩
      · omega
      · rw [last.1]
        exact BitVec.not_lt.mpr covered
    · have before : (b + 1).toNat < 2 ^ 22 := by
        by_contra full
        exact last ⟨BitVec.eq_of_toNat_eq (by omega), by omega⟩
      rw [sectorOf_eq before, BitVec.lt_def]
      omega
  rw [← size] at inside beyond
  refine ⟨fun panics => ?_, ?_⟩
  · have kept : Kept (sfsRblock (Io.lhdIo lh cur) d data b) _ := (read_kept_iff room working).mpr
      ⟨inside, .inl (congrArg d.sectors same)⟩
    rw [panics] at kept
    exact not_kept_error kept
  cases completion : lh.completes d.started.length with
  | invsect => exact absurd completion (working _)
  | ok => simp [sfsWblock_ok (BitVec.not_lt.mpr inside) completion]
  | media =>
    rw [sfsWblock_failed (BitVec.not_lt.mpr inside) completion, if_neg beyond]
    simp

/-- Behind the last block whose successor has an offset, a write that fails panics. -/
theorem retried_of_addressable {t : Volume} {nblocks : CUnsigned}
    (all : ∀ b < nblocks, Addressable device t b) : Retried device nblocks := by
  by_contra outside
  obtain ⟨large, uncovered⟩ := not_or.mp outside
  have last : (0x3fffff : CUnsigned) < nblocks := by
    rw [BitVec.lt_def]
    change 4194303 < _
    omega
  by_cases full : nblocks.toNat = 2 ^ 22
  · obtain rfl : nblocks = 0x400000 := BitVec.eq_of_toNat_eq full
    have addressed := all 0x3fffff last
    have same : sectorOf 0x3fffff = 0x3fffff := by decide
    have inside : sectorOf 0x3fffff + 1 ≤ device.blocks := by
      have onDevice := BitVec.lt_def.mp addressed.onDevice
      rw [same, BitVec.le_def]
      exact onDevice
    refine (addressed.accessed ⟨0, device.blocks, fun _ => .media, by decide⟩ Io.idleThread
      Io.idleDisk 0 (by decide) rfl (fun _ => by simp)).2 ?_
    rw [sfsWblock_failed (BitVec.not_lt.mpr inside) rfl]
    exact if_pos (BitVec.not_le.mp fun covered => uncovered ⟨full, covered⟩)
  · have behind : (0x400000 : CUnsigned) < nblocks := by
      rw [BitVec.lt_def]
      change 4194304 < _
      omega
    exact absurd (all 0x400000 behind).offset.1 (by decide)

private theorem le_of_addressable {t : Volume} {nblocks : CUnsigned}
    (all : ∀ b < nblocks, Addressable device t b) : nblocks ≤ device.blocks := by
  by_contra beyond
  exact BitVec.lt_irrefl _ (all device.blocks (BitVec.not_le.mp beyond)).onDevice

/-- Exactly the volumes that are no larger than their device, and whose last block can be written
again, can be used to their last block. -/
theorem mounted_blocks {device : Device} {disk : CUnsigned → Block} {memory : Nat → Bool}
    {t : Volume} (mounted : sfsDomount.run (Volume.blank device disk memory) = .returned () t) :
    (∀ b < t.super.nblocks, Addressable device t b) ↔
      t.super.nblocks ≤ device.blocks ∧ Retried device t.super.nblocks := by
  obtain ⟨-, bits⟩ := (domount_nbits device disk memory).returned mounted
  constructor
  · intro all
    exact ⟨le_of_addressable all, retried_of_addressable all⟩
  · rintro ⟨fits, retried⟩ b valid
    exact addressable bits fits retried valid

/-- A disk on which the superblock is the only block that is not empty. -/
def superDisk (nblocks : CUnsigned) : CUnsigned → Block := fun b =>
  if b = 0 then (⟨SFS_MAGIC, nblocks, fun _ => 0, fun _ => 0⟩ : Super).toBlock else Block.zero

private theorem superOf_superDisk (nblocks : CUnsigned) :
    superOf (superDisk nblocks 0) = ⟨SFS_MAGIC, nblocks, fun _ => 0, fun _ => 0⟩ := by
  rw [superDisk, superOf]
  simp

/-- It is mounted if the device has room for the free map. -/
theorem superDisk_mounted (nblocks blocks : CUnsigned) (small : nblocks.toNat ≤ 2 ^ 31)
    (room : 2 + (SFS_BITBLOCKS nblocks).toNat ≤ blocks.toNat) :
    ∃ t, sfsDomount.run (Volume.blank ⟨SFS_BLOCKSIZE, blocks, fun _ => .ok⟩ (superDisk nblocks)
      fun _ => true) = .returned () t ∧ t.super.nblocks = nblocks := by
  have super := superOf_superDisk nblocks
  have ends : sfsDomount.Ensures (fun _ => False)
      (Volume.blank ⟨SFS_BLOCKSIZE, blocks, fun _ => .ok⟩
      (superDisk nblocks) fun _ => true) (fun _ t => t.super.nblocks = nblocks)
      fun _ _ => False := by
    refine ensures_domount rfl (by rw [super]) (by rw [super]; exact small)
      (by rw [super]; exact room) (fun _ _ => congrArg Super.nblocks super) ?_ ?_
    · simp
    · simp
  obtain ⟨_, t, ran, size⟩ := ends.returns
  exact ⟨t, ran, size⟩

theorem mounted_blocks_eight : ∃ t, sfsDomount.run (Volume.blank ⟨SFS_BLOCKSIZE, 8, fun _ => .ok⟩
    (superDisk 8) fun _ => true) = .returned () t ∧ 7 < t.freemap.nbits := by
  obtain ⟨t, ran, size⟩ := superDisk_mounted 8 8 (by decide) (by decide)
  have all := (mounted_blocks ran).mpr
  rw [size] at all
  exact ⟨t, ran, (all ⟨by decide, .inl (by decide)⟩ 7 (by decide)).mapped⟩

/-- A volume of eight blocks is mounted on a device of three, and `sfs_rwblock` panics at the
fourth. Without a warning, one of `2 ^ 22 + 1` blocks is mounted on a device that has them, and it
panics at the last, the offset of which is negative. -/
theorem mounted_beyond_device :
    (∃ t, sfsDomount.run (Volume.blank ⟨SFS_BLOCKSIZE, 3, fun _ => .ok⟩ (superDisk 8)
        fun _ => true) = .returned () t ∧
      3 < t.super.nblocks ∧ ∀ (lh : Io.Lhd) (cur : Io.Curthread) (d : Io.Disk) (data : Address),
        lh.blocks = 3 → sfsRblock (Io.lhdIo lh cur) d data 3 = .error .panic) ∧
    ∃ t, sfsDomount.run (Volume.blank ⟨SFS_BLOCKSIZE, 0x400001, fun _ => .ok⟩
        (superDisk 0x400001) fun _ => true) = .returned () t ∧
      0x400000 < t.super.nblocks ∧ ∀ (lh : Io.Lhd) (cur : Io.Curthread) (d : Io.Disk)
        (data : Address), lh.blocks = 0x400001 →
          sfsRblock (Io.lhdIo lh cur) d data 0x400000 = .error .panic := by
  obtain ⟨t, ran, size⟩ := superDisk_mounted 8 3 (by decide) (by decide)
  obtain ⟨t', ran', size'⟩ := superDisk_mounted 0x400001 0x400001 (by decide) (by decide)
  refine ⟨⟨t, ran, by rw [size]; decide, fun lh cur d data blocks => ?_⟩,
    t', ran', by rw [size']; decide, fun lh cur d data blocks => ?_⟩ <;>
  · rw [sfsRblock, sfsRwblock_refused (by rw [blocks]; decide)]
    rfl

end

end Os161.Sfs
