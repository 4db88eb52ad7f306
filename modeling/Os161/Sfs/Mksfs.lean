import Os161.Sfs.Catalogue
import Os161.Sfs.Mount

/-!
# `mksfs`

The program that makes a file system, `sbin/mksfs/mksfs.c`, and what `sfs_domount` finds on a
disk that it has made.
-/
namespace Os161.Sfs

open Foundation Vfs
open Bits (bit bit_setBit setBit)
open Function (update update_of_ne update_self)

/-- How the program can end before it is done. -/
inductive Exit where
  | illegalName
  | nameTooLong
  | wrongBlocksize
  /-- A block that the device does not have. -/
  | write
  | tooLarge
  | assertion
  /-- A bit that the array `bitbuf` does not have. -/
  | overrun
  deriving DecidableEq

def MAXBITBLOCKS : CUnsigned := 32

/-- The volume name: one trailing colon is removed, and slashes are not allowed. -/
def volumeName (arg : Name) : Except Exit (List Byte) :=
  let colon := arg.val.dropWhile (· ≠ 0x3a)
  if colon ≠ [] ∧ colon.length ≠ 1 then .error .illegalName
  else
    let volname := arg.val.takeWhile (· ≠ 0x3a)
    if 0x2f ∈ volname then .error .illegalName else .ok volname

def diskblocksize : CUnsigned := 512

/-- `diskblocks`, by the size of the device file. -/
def diskblocks (st_size : Nat) : CUnsigned := BitVec.ofNat 32 (st_size / 512)

section

-- the number of blocks that the device has
variable (size : CUnsigned)

def diskwrite (data : Block) (block : CUnsigned) (disk : CUnsigned → Block) :
    Except Exit (CUnsigned → Block) :=
  if block < size then .ok (update disk block data) else .error .write

def writesuper (volname : List Byte) (disk : CUnsigned → Block) :
    Except Exit (CUnsigned → Block) :=
  if SFS_VOLNAME_SIZE ≤ volname.length then .error .nameTooLong
  else diskwrite size (Super.toBlock ⟨SFS_MAGIC, size, strcpy 32 volname, fun _ => 0⟩)
    SFS_SB_LOCATION disk

def writerootdir (disk : CUnsigned → Block) : Except Exit (CUnsigned → Block) :=
  diskwrite size (Inode.toBlock ⟨0, SFS_TYPE_DIR, 1, fun _ => 0, 0, fun _ => 0⟩)
    SFS_ROOT_LOCATION disk

def doallocbit (bitbuf : Nat → Byte) (bit : CUnsigned) : Except Exit (Nat → Byte) :=
  let byte := bit.toNat / 8
  let mask := 1#8 <<< (bit.toNat % 8)
  if 32 * 512 ≤ byte then .error .overrun
  else if bitbuf byte &&& mask = 0 then .ok (update bitbuf byte (bitbuf byte ||| mask))
  else .error .assertion

/-- The loops that allocate bits, from `i` on. -/
def doallocbits (bitbuf : Nat → Byte) (i : CUnsigned) : Nat → Except Exit (Nat → Byte)
  | 0 => .ok bitbuf
  | left + 1 => do doallocbits (← doallocbit bitbuf i) (i + 1) left

/-- The loop that writes the map, from block `i` on. -/
def writebits (bitbuf : Nat → Byte) (i : Nat) :
    Nat → (CUnsigned → Block) → Except Exit (CUnsigned → Block)
  | 0, disk => .ok disk
  | left + 1, disk => do
    let disk ← diskwrite size (chunk bitbuf i) (SFS_MAP_LOCATION + BitVec.ofNat 32 i) disk
    writebits bitbuf (i + 1) left disk

def writebitmap (disk : CUnsigned → Block) : Except Exit (CUnsigned → Block) := do
  let nbits := SFS_BITMAPSIZE size
  let nblocks := SFS_BITBLOCKS size
  if MAXBITBLOCKS < nblocks then throw .tooLarge
  let bitbuf ← doallocbit (fun _ => 0) SFS_SB_LOCATION
  let bitbuf ← doallocbit bitbuf SFS_ROOT_LOCATION
  let bitbuf ← doallocbits bitbuf SFS_MAP_LOCATION nblocks.toNat
  let bitbuf ← doallocbits bitbuf size (nbits.toNat - size.toNat)
  writebits size bitbuf 0 nblocks.toNat disk

/-- `main`, by its second argument. -/
def mksfs (arg : Name) (disk : CUnsigned → Block) : Except Exit (CUnsigned → Block) := do
  let volname ← volumeName arg
  if diskblocksize ≠ SFS_BLOCKSIZE then throw .wrongBlocksize
  let disk ← writesuper size volname disk
  let disk ← writerootdir size disk
  writebitmap size disk

end

/-! ### The map -/

theorem doallocbit_eq {bitbuf : Nat → Byte} {b : CUnsigned} (inside : b.toNat < 2 ^ 17)
    (clear : bit bitbuf b.toNat = false) :
    doallocbit bitbuf b = .ok (setBit bitbuf b.toNat) := by
  have small : b.toNat % 8 < 8 := Nat.mod_lt _ (by decide)
  simp only [doallocbit]
  rw [if_neg (by omega), if_pos (show _ = (0 : Byte) from (Bits.and_mask_eq_zero small).mpr clear)]
  rfl

/-- A loop sets its bits and no others. -/
theorem doallocbits_eq {bitbuf : Nat → Byte} {i : CUnsigned} {left : Nat}
    (inside : i.toNat + left ≤ 2 ^ 17)
    (clear : ∀ k, i.toNat ≤ k → k < i.toNat + left → bit bitbuf k = false) :
    ∃ bitbuf', doallocbits bitbuf i left = .ok bitbuf' ∧ ∀ k, bit bitbuf' k =
      (decide (i.toNat ≤ k ∧ k < i.toNat + left) || bit bitbuf k) := by
  induction left generalizing bitbuf i with
  | zero =>
    refine ⟨bitbuf, rfl, fun k => ?_⟩
    rw [decide_eq_false (by omega), Bool.false_or]
  | succ left ih =>
    have number : (i + 1).toNat = i.toNat + 1 := by
      have one : (1 : CUnsigned).toNat = 1 := rfl
      rw [BitVec.toNat_add]
      omega
    have first := doallocbit_eq (by omega) (clear i.toNat le_rfl (by omega))
    obtain ⟨bitbuf', rest, bits⟩ := @ih (setBit bitbuf i.toNat) (i + 1) (by omega) (by
      intro k low high
      rw [bit_setBit (by decide), clear k (by omega) (by omega), decide_eq_false (by omega)]
      rfl)
    refine ⟨bitbuf', ?_, fun k => ?_⟩
    · rw [doallocbits, first]
      exact rest
    rw [bits, bit_setBit (by decide), ← Bool.or_assoc, ← Bool.decide_or]
    congr 2
    simp only [eq_iff_iff]
    omega

section

variable {size : CUnsigned}

/-- The blocks of the map are written, and no others. -/
theorem writebits_eq (bitbuf : Nat → Byte) (i left : Nat) (inside : 2 + i + left ≤ size.toNat)
    (disk : CUnsigned → Block) :
    ∃ disk', writebits size bitbuf i left disk = .ok disk' ∧ ∀ b : CUnsigned, disk' b =
      if 2 + i ≤ b.toNat ∧ b.toNat < 2 + i + left then chunk bitbuf (b.toNat - 2) else disk b := by
  induction left generalizing i disk with
  | zero =>
    refine ⟨disk, rfl, fun b => ?_⟩
    rw [if_neg (by omega)]
  | succ left ih =>
    have number := toNat_mapLocation (show 2 + i < 2 ^ 32 by omega)
    have valid : SFS_MAP_LOCATION + BitVec.ofNat 32 i < size := by
      rw [BitVec.lt_def]
      omega
    obtain ⟨disk', rest, blocks⟩ := ih (i + 1) (by omega)
      (update disk (SFS_MAP_LOCATION + BitVec.ofNat 32 i) (chunk bitbuf i))
    refine ⟨disk', ?_, fun b => ?_⟩
    · rw [writebits, diskwrite, if_pos valid]
      exact rest
    rw [blocks]
    by_cases here : b = SFS_MAP_LOCATION + BitVec.ofNat 32 i
    · subst here
      have offset : 2 + i - 2 = i := by omega
      rw [number, if_neg (by omega), update_self, if_pos (by omega), offset]
    have apart : b.toNat ≠ 2 + i := by
      rw [← number]
      exact fun same => here (BitVec.eq_of_toNat_eq same)
    rw [update_of_ne here]
    congr 1
    simp only [eq_iff_iff]
    omega

/-- The free map of a new file system: what is clear is behind the map and on the disk. -/
def Fresh (size : CUnsigned) (v : Nat → Byte) : Prop :=
  ∀ k < (SFS_BITMAPSIZE size).toNat, bit v k = false ↔
    2 + (SFS_BITBLOCKS size).toNat ≤ k ∧ k < size.toNat

private theorem writebitmap_eq (three : 3 ≤ size.toNat) (few : (size.toNat + 4095) / 4096 ≤ 32)
    (disk : CUnsigned → Block) :
    ∃ v, Fresh size v ∧ ∃ disk', writebitmap size disk = .ok disk' ∧ ∀ b : CUnsigned, disk' b =
      if 2 ≤ b.toNat ∧ b.toNat < 2 + (SFS_BITBLOCKS size).toNat then chunk v (b.toNat - 2)
      else disk b := by
  have nblocks := @toNat_bitblocks size (by omega)
  have nbits := @toNat_bitmapsize size (by omega)
  have two : SFS_MAP_LOCATION.toNat = 2 := rfl
  have bits₀ : ∀ k, bit (n := 8) (fun _ => 0) k = false := fun k => BitVec.getLsbD_zero
  have first := doallocbit_eq (b := SFS_SB_LOCATION) (by decide) (bits₀ _)
  have bits₁ := bit_setBit (n := 8) (by decide) (fun _ => 0) SFS_SB_LOCATION.toNat
  generalize setBit (fun _ => 0) SFS_SB_LOCATION.toNat = v₁ at first bits₁
  have second := doallocbit_eq (b := SFS_ROOT_LOCATION) (by decide) (bits₁ _)
  have bits₂ := bit_setBit (by decide) v₁ SFS_ROOT_LOCATION.toNat
  generalize setBit v₁ SFS_ROOT_LOCATION.toNat = v₂ at second bits₂
  have low : ∀ k, bit v₂ k = decide (k < 2) := by
    intro k
    rw [bits₂, bits₁, bits₀, Bool.or_false, ← Bool.decide_or]
    congr 1
    have zero : SFS_SB_LOCATION.toNat = 0 := rfl
    have one : SFS_ROOT_LOCATION.toNat = 1 := rfl
    simp only [eq_iff_iff, zero, one]
    omega
  obtain ⟨v₃, third, bits₃⟩ := @doallocbits_eq v₂ SFS_MAP_LOCATION (SFS_BITBLOCKS size).toNat
    (by omega) (fun k above _ => by rw [low, decide_eq_false (by omega)])
  obtain ⟨v₄, fourth, bits₄⟩ := @doallocbits_eq v₃ size
    ((SFS_BITMAPSIZE size).toNat - size.toNat) (by omega) (fun k above _ => by
      rw [bits₃, low, decide_eq_false (by omega), decide_eq_false (by omega)]
      rfl)
  obtain ⟨disk', written, blocks⟩ := @writebits_eq size v₄ 0 (SFS_BITBLOCKS size).toNat
    (by omega) disk
  refine ⟨v₄, fun k inside => ?_, disk', ?_, blocks⟩
  · rw [bits₄, bits₃, low, ← Bool.decide_or, ← Bool.decide_or, decide_eq_false_iff_not]
    omega
  have enough : ¬ MAXBITBLOCKS < SFS_BITBLOCKS size := by
    have limit : MAXBITBLOCKS.toNat = 32 := rfl
    rw [BitVec.lt_def]
    omega
  simp only [writebitmap, if_neg enough, first, second, third, fourth, written, bind,
    Except.bind]

/-! ### The disk -/

def Super.fresh (size : CUnsigned) (volname : List Byte) : Super :=
  ⟨SFS_MAGIC, size, strcpy 32 volname, fun _ => 0⟩

/-- The inode of the root directory. -/
def Inode.fresh : Inode := ⟨0, SFS_TYPE_DIR, 1, fun _ => 0, 0, fun _ => 0⟩

structure Made (size : CUnsigned) (volname : List Byte) (disk : CUnsigned → Block) : Prop where
  three : 3 ≤ size.toNat
  few : (size.toNat + 4095) / 4096 ≤ 32
  short : volname.length < 32
  clean : 0 ∉ volname
  super : disk 0 = (Super.fresh size volname).toBlock
  root : disk SFS_ROOT_LOCATION = Inode.fresh.toBlock
  map : Fresh size (mapOf disk (SFS_BITBLOCKS size).toNat)

theorem Fresh.congr {v w : Nat → Byte} (fresh : Fresh size v) (three : 3 ≤ size.toNat)
    (few : (size.toNat + 4095) / 4096 ≤ 32)
    (same : ∀ i < (SFS_BITBLOCKS size).toNat * 512, w i = v i) : Fresh size w := by
  have nblocks := @toNat_bitblocks size (by omega)
  have nbits := @toNat_bitmapsize size (by omega)
  intro k inside
  rw [← fresh k inside, bit, bit, same (k / 8) (by omega)]

theorem mksfs_made {arg : Name} {volname : List Byte} (three : 3 ≤ size.toNat)
    (few : (size.toNat + 4095) / 4096 ≤ 32) (named : volumeName arg = .ok volname)
    (short : volname.length < SFS_VOLNAME_SIZE) (disk : CUnsigned → Block) :
    ∃ disk', mksfs size arg disk = .ok disk' ∧ Made size volname disk' := by
  have nblocks := @toNat_bitblocks size (by omega)
  have clean : 0 ∉ volname := by
    simp only [volumeName] at named
    split at named
    · cases named
    split at named
    · cases named
    · cases named
      exact fun mem => arg.property (List.takeWhile_subset _ mem)
  have first : SFS_SB_LOCATION < size := BitVec.lt_def.mpr (by change 0 < size.toNat; omega)
  have second : SFS_ROOT_LOCATION < size := BitVec.lt_def.mpr (by change 1 < size.toNat; omega)
  obtain ⟨v, fresh, disk', written, blocks⟩ := writebitmap_eq three few
    (update (update disk SFS_SB_LOCATION (Super.fresh size volname).toBlock)
      SFS_ROOT_LOCATION Inode.fresh.toBlock)
  refine ⟨disk', ?_, three, few, short, clean, ?_, ?_, fresh.congr three few ?_⟩
  · simp only [mksfs, named, bind, Except.bind]
    simp only [writesuper, if_neg (Nat.not_le_of_lt short), diskwrite, if_pos first, writerootdir,
      if_pos second]
    exact written
  · rw [blocks]
    rfl
  · rw [blocks]
    rfl
  intro i inside
  refine mapOf_chunk v (fun j low => ?_) inside
  have number := toNat_mapLocation (show 2 + j < 2 ^ 32 by omega)
  have offset : 2 + j - 2 = j := by omega
  rw [blocks, number, if_pos (by omega), offset]

/-! ### Mounting it -/

namespace Made

variable {volname : List Byte} {disk : CUnsigned → Block}

theorem superOf_eq (made : Made size volname disk) :
    superOf (disk 0) = Super.fresh size volname := by
  have last : strcpy 32 volname 31 = 0 := by
    have short := made.short
    exact List.getD_eq_default _ _ (Nat.le_of_lt_succ short)
  rw [superOf, made.super, Super.ofBlock_toBlock, Super.fresh, ← last, Function.update_eq_self]

theorem mounted (made : Made size volname disk) (device : Device) (memory : Nat → Bool)
    (asked started : Nat) :
    Volume.mounted device disk memory asked started =
      { Volume.blank device disk memory with
        super := Super.fresh size volname
        freemap := ⟨SFS_BITMAPSIZE size, mapOf disk (SFS_BITBLOCKS size).toNat⟩
        asked := asked
        started := started } := by
  rw [Volume.mounted, made.superOf_eq]
  rfl

theorem domount (made : Made size volname disk) {device : Device} {memory : Nat → Bool}
    (blocksize : device.blocksize = SFS_BLOCKSIZE) (blocks : device.blocks = size)
    {H : Halt → Prop} {Q : Unit → Volume → Prop} {E : Errno → Volume → Prop}
    (next : ∀ asked started, Q () (Volume.mounted device disk memory asked started))
    (lacks : (∃ k, memory k = false) → ∀ t, E .ENOMEM t)
    (broken : (∃ n, device.outcome n = .fails) → ∀ t, E .EIo t) :
    sfsDomount.Ensures H (Volume.blank device disk memory) Q E := by
  have three := made.three
  have few := made.few
  have nblocks := @toNat_bitblocks size (by omega)
  refine ensures_domount blocksize ?_ ?_ ?_ next lacks broken
  · rw [made.superOf_eq]
    rfl
  · rw [made.superOf_eq]
    change size.toNat ≤ _
    omega
  · rw [made.superOf_eq, blocks]
    change 2 + (SFS_BITBLOCKS size).toNat ≤ _
    omega

end Made

/-- The root is in use. -/
theorem Made.marked_root {volname : List Byte} {disk : CUnsigned → Block}
    (made : Made size volname disk) :
    bit (mapOf disk (SFS_BITBLOCKS size).toNat) SFS_ROOT_LOCATION.toNat = true := by
  have three := made.three
  have few := made.few
  have nbits := @toNat_bitmapsize size (by omega)
  have one : SFS_ROOT_LOCATION.toNat = 1 := rfl
  rw [← Bool.not_eq_false, made.map _ (by omega)]
  omega

/-- What `sfs_loadvnode` gives for the root, before any vnode is in memory. -/
theorem Made.loadRoot {volname : List Byte} {disk : CUnsigned → Block}
    (made : Made size volname disk) {device : Device} {memory : Nat → Bool}
    (blocks : device.blocks = size) (asked started : Nat) {H : Halt → Prop}
    {Q : Ptr → Volume → Prop} {E : Errno → Volume → Prop}
    (next : ∀ p t sv, t.heap p = some sv → sv.inode = Inode.fresh → Q p t)
    (lacks : (∃ k, memory k = false) → ∀ t, E .ENOMEM t)
    (broken : (∃ n, device.outcome n = .fails) → ∀ t, E .EIo t) :
    (sfsLoadvnode SFS_ROOT_LOCATION SFS_TYPE_INVAL).Ensures H
      (Volume.mounted device disk memory asked started) Q E := by
  have three := made.three
  have valid : SFS_ROOT_LOCATION < size := BitVec.lt_def.mpr (by change 1 < size.toNat; omega)
  have present : SFS_ROOT_LOCATION.toNat < device.blocks.toNat := by
    rw [blocks]
    omega
  have inode : Inode.load SFS_TYPE_INVAL (disk SFS_ROOT_LOCATION) = Inode.fresh := by
    rw [Inode.load, if_pos rfl, made.root, Inode.ofBlock_toBlock]
  rw [sfsLoadvnode, Call.ensures_bind]
  -- the table is empty
  have typed : opsOf (Inode.load SFS_TYPE_INVAL (disk SFS_ROOT_LOCATION)).type = some .dirops := by
    rw [inode]
    rfl
  refine ensures_readVnode (s := Volume.mounted device disk memory asked started)
    (sectorOf_inside (by decide) present) ?_ ?_ (.inl rfl) typed ?_ ?_ broken
  · rw [made.mounted]
    exact valid
  · rw [made.mounted]
    exact made.marked_root
  · intro t _ _ _
    exact next _ _ _ Volume.heap_add inode
  · intro t _ _ lack
    exact lacks lack t

/-- Mount the disk, and look at the file system and at the vnode of its root. -/
def mountRoot : Code Volume (Volume × SfsVnode) := do
  sfsDomount
  let fs ← Call.state
  let root ← sfsLoadvnode SFS_ROOT_LOCATION SFS_TYPE_INVAL
  return (fs, ← svAt root)

/-- A new file system can be mounted, and is empty. -/
theorem domount_mksfs (size : CUnsigned) (three : 3 ≤ size.toNat)
    (few : (size.toNat + 4095) / 4096 ≤ 32) (arg : Name) (volname : List Byte)
    (named : volumeName arg = .ok volname) (short : volname.length < SFS_VOLNAME_SIZE)
    (disk : CUnsigned → Block) (device : Device) (blocksize : device.blocksize = SFS_BLOCKSIZE)
    (blocks : device.blocks = size) (memory : Nat → Bool) :
    ∃ disk', mksfs size arg disk = .ok disk' ∧
      mountRoot.Ensures (fun _ => False) (Volume.blank device disk' memory)
        (fun r _ => r.1.super.nblocks = size ∧ cstring r.1.super.volname = volname ∧
          r.1.freemap.nbits = SFS_BITMAPSIZE size ∧ Fresh size r.1.freemap.v ∧
          r.2.inode.type = SFS_TYPE_DIR ∧ r.2.inode.size = 0 ∧ r.2.inode.linkcount = 1)
        (fun e _ => (e = .ENOMEM ∧ ∃ k, memory k = false) ∨
          (e = .EIo ∧ ∃ n, device.outcome n = .fails)) := by
  obtain ⟨disk', done, made⟩ := mksfs_made three few named short disk
  refine ⟨disk', done, ?_⟩
  rw [mountRoot, Call.ensures_bind]
  refine made.domount blocksize blocks (fun asked started => ?_)
    (fun lacks _ => .inl ⟨rfl, lacks⟩) fun broken _ => .inr ⟨rfl, broken⟩
  rw [Call.ensures_bind, Call.ensures_state, Call.ensures_bind]
  refine made.loadRoot blocks asked started (fun p t sv here inode => ?_)
    (fun lacks _ => .inl ⟨rfl, lacks⟩) fun broken _ => .inr ⟨rfl, broken⟩
  rw [Call.ensures_bind, ensures_svAt here, Call.ensures_pure, made.mounted, inode]
  refine ⟨rfl, ?_, rfl, made.map, rfl, rfl, rfl⟩
  exact cstring_eq made.short (fun _ => rfl) made.clean

/-- A disk of two blocks of map, named `v:`. -/
theorem domount_mksfs_5000 :
    ∃ disk', mksfs 5000 ⟨[0x76, 0x3a], by decide⟩ (fun _ => Block.zero) = .ok disk' ∧
      mountRoot.Ensures (fun _ => False)
        (Volume.blank ⟨SFS_BLOCKSIZE, 5000, fun _ => .ok⟩ disk' fun _ => true)
        (fun r _ => r.1.super.nblocks = 5000 ∧ cstring r.1.super.volname = [0x76] ∧
          r.2.inode.type = SFS_TYPE_DIR) (fun _ _ => False) := by
  obtain ⟨disk', done, mounts⟩ := domount_mksfs 5000 (by decide) (by decide)
    ⟨[0x76, 0x3a], by decide⟩ [0x76] (by decide) (by decide) (fun _ => Block.zero)
    ⟨SFS_BLOCKSIZE, 5000, fun _ => .ok⟩ rfl rfl (fun _ => true)
  refine ⟨disk', done, mounts.mono (fun r t right => ?_) fun e t wrong => ?_⟩
  · exact ⟨right.1, right.2.1, right.2.2.2.2.1⟩
  · rcases wrong with ⟨-, k, lacks⟩ | ⟨-, n, fails⟩
    · cases lacks
    · cases fails

/-! ### What is there to start with -/

private theorem ok_of_bind {ε α β : Type} {x : Except ε α} {f : α → Except ε β} {r : β}
    (done : (x >>= f) = .ok r) : ∃ a, x = .ok a ∧ f a = .ok r := by
  cases x with
  | error e => cases done
  | ok a => exact ⟨a, rfl, done⟩

private theorem lt_of_diskwrite {data : Block} {block : CUnsigned} {disk disk' : CUnsigned → Block}
    (done : diskwrite size data block disk = .ok disk') : block < size := by
  rw [diskwrite] at done
  by_contra outside
  rw [if_neg outside] at done
  cases done

private theorem length_of_writesuper {volname : List Byte} {disk disk' : CUnsigned → Block}
    (done : writesuper size volname disk = .ok disk') :
    volname.length < SFS_VOLNAME_SIZE := by
  rw [writesuper] at done
  by_contra long
  rw [if_pos (Nat.le_of_not_lt long)] at done
  cases done

private theorem bitblocks_of_writebitmap {disk disk' : CUnsigned → Block}
    (done : writebitmap size disk = .ok disk') : SFS_BITBLOCKS size ≤ MAXBITBLOCKS ∧ size ≠ 2 := by
  constructor
  · by_contra large
    rw [BitVec.not_le] at large
    simp only [writebitmap, if_pos large] at done
    cases done
  · rintro rfl
    cases done

/-- The size of a device file is an `off_t`, so no size is too large for the calculations. -/
theorem Made.of_mksfs {st_size : Nat} (small : st_size < 2 ^ 31) {arg : Name}
    {disk disk' : CUnsigned → Block} (done : mksfs (diskblocks st_size) arg disk = .ok disk') :
    ∃ volname, Made (diskblocks st_size) volname disk' := by
  have limit : (diskblocks st_size).toNat < 2 ^ 22 := by
    rw [diskblocks, BitVec.toNat_ofNat]
    omega
  generalize diskblocks st_size = size at *
  have whole := done
  obtain ⟨volname, named, done⟩ := ok_of_bind done
  obtain ⟨disk₁, super, done⟩ := ok_of_bind done
  obtain ⟨disk₂, root, done⟩ := ok_of_bind done
  obtain ⟨few, other⟩ := bitblocks_of_writebitmap done
  have second := BitVec.lt_def.mp (lt_of_diskwrite root)
  have one : SFS_ROOT_LOCATION.toNat = 1 := rfl
  have two : size.toNat ≠ 2 := fun same => other (BitVec.eq_of_toNat_eq same)
  have nblocks := @toNat_bitblocks size (by omega)
  have max : MAXBITBLOCKS.toNat = 32 := rfl
  rw [BitVec.le_def] at few
  obtain ⟨disk₃, same, made⟩ := @mksfs_made size arg volname (by omega) (by omega) named
    (length_of_writesuper super) disk
  cases whole.symm.trans same
  exact ⟨volname, made⟩

def Files.fresh (disk : CUnsigned → Block) : Files :=
  update (fun _ => none) SFS_ROOT_LOCATION (some (Inode.fresh.node disk))

def View.fresh (disk : CUnsigned → Block) (memory : Nat → Bool) : View where
  files := Files.fresh disk
  vnode _ := none
  refs _ := 0
  opens _ := 0
  lost := ∅
  memory := memory

def Inodes.fresh : Inodes := update (fun _ => none) SFS_ROOT_LOCATION (some Inode.fresh)

private theorem files_fresh (disk : CUnsigned → Block) (ino : CUnsigned) :
    Files.fresh disk ino = (Inodes.fresh ino).map (·.node disk) := by
  rw [Files.fresh, Inodes.fresh]
  by_cases here : ino = SFS_ROOT_LOCATION
  · subst here
    rw [update_self, update_self, Option.map_some]
  · rw [update_of_ne here, update_of_ne here, Option.map_none]

private theorem refs_fresh (disk : CUnsigned → Block) :
    refs Inodes.fresh disk =
      update (fun _ => 0) (SFS_ROOT_LOCATION, none) SFS_ROOT_LOCATION := by
  rw [Inodes.fresh, refs_update_bare (fun _ => rfl)]
  · congr 1
    funext ⟨ino, r⟩
    cases r <;> rfl
  · rintro _ ⟨⟩
    exact Inode.tree_blank (fun _ => rfl) rfl

theorem Sound.fresh (disk : CUnsigned → Block) :
    Sound (Files.fresh disk) ∧ ∀ name, directory (Files.fresh disk) name = none := by
  have root : Files.fresh disk SFS_ROOT_LOCATION = some (Inode.fresh.node disk) :=
    update_self ..
  have none : (Inode.fresh.node disk).slots = 0 := by simp [Node.slots, Inode.node, Inode.fresh]
  have others : ∀ ino m, Files.fresh disk ino = some m → ino = SFS_ROOT_LOCATION := by
    intro ino m live
    by_contra other
    rw [Files.fresh, update_of_ne other] at live
    cases live
  have listed : Listed (Files.fresh disk) (Inode.fresh.node disk) := {
    root := root
    type := rfl
    whole := rfl
    fits := Nat.zero_le _
    unique := fun k _ _ _ _ named => absurd named.inside (by omega)
    live := fun k low => absurd low (by omega)
    files := fun ino m live other => absurd (others ino m live) other
    zero := update_of_ne (by decide) .. }
  refine ⟨⟨_, listed, fun ino m live => ?_⟩, fun name => ?_⟩
  · cases others ino m live
    cases root.symm.trans live
    have unnamed : (Inode.fresh.node disk).links SFS_ROOT_LOCATION = 0 :=
      Nat.le_zero.mp (none ▸ Node.links_le ..)
    rw [unnamed]
    rfl
  · rw [listed.directory_eq, listed.lookup_eq_none]
    intro k ino named
    exact absurd named.inside (by omega)

section

variable {volname : List Byte} {disk : CUnsigned → Block} (made : Made size volname disk)
  {device : Device} {memory : Nat → Bool} (asked started : Nat)

include made

section

variable (blocksize : device.blocksize = SFS_BLOCKSIZE) (blocks : device.blocks = size)
  (reliable : ∀ n, device.outcome n = .ok)

include blocksize blocks reliable

theorem Made.sane : Sane (Volume.mounted device disk memory asked started) := by
  have three := made.three
  have few := made.few
  have nbits := @toNat_bitmapsize size (by omega)
  have words := Bitmap.toNat_words (mapOf disk (SFS_BITBLOCKS size).toNat)
    (show (SFS_BITMAPSIZE size).toNat + 7 < 2 ^ 32 by omega)
  rw [made.mounted]
  exact {
    reliable := reliable
    blocksize := blocksize
    magic := rfl
    small := by
      change size.toNat < _
      omega
    onDevice := by
      change size ≤ device.blocks
      rw [blocks]
      exact BitVec.le_refl _
    nbits := rfl
    padded := by
      intro i (above : size.toNat ≤ i)
        (inside : i < 8 * Bitmap.words ⟨SFS_BITMAPSIZE size, mapOf disk (SFS_BITBLOCKS size).toNat⟩)
      rw [← Bool.not_eq_false, made.map i (by omega)]
      exact fun clear => absurd clear.2 (Nat.not_lt_of_le above)
    superblock := by
      change bit _ 0 = true
      rw [← Bool.not_eq_false, made.map 0 (by omega)]
      exact fun clear => absurd clear.1 (by omega) }

theorem Made.accounted :
    Accounted Inodes.fresh ∅ (Volume.mounted device disk memory asked started) := by
  have three := made.three
  have few := made.few
  have nblocks := @toNat_bitblocks size (by omega)
  have nbits := @toNat_bitmapsize size (by omega)
  have sane : Sane (Volume.mounted device disk memory asked started) :=
    made.sane asked started blocksize blocks reliable
  have one : SFS_ROOT_LOCATION.toNat = 1 := rfl
  have nonzero : SFS_ROOT_LOCATION ≠ 0 := by decide
  have place : ∀ r, refs Inodes.fresh disk r ≠ 0 → r = (SFS_ROOT_LOCATION, none) := by
    intro r holds
    by_contra other
    rw [refs_fresh, update_of_ne other] at holds
    exact holds rfl
  have root : refs Inodes.fresh disk (SFS_ROOT_LOCATION, none) = SFS_ROOT_LOCATION := by
    rw [refs_fresh, update_self]
  have only : ∀ b, b ∈ held (refs Inodes.fresh disk) ↔ b = SFS_ROOT_LOCATION := by
    intro b
    constructor
    · rintro ⟨holds, r, rfl⟩
      rw [place r holds, root]
    · rintro rfl
      exact ⟨nonzero, _, root⟩
  rw [made.mounted] at sane ⊢
  exact {
    sane := sane
    zero := update_of_ne (by decide) ..
    tidy := fun i j holds same => (place i holds).trans (place j (same ▸ holds)).symm
    inside := by
      intro b mem
      cases (only b).mp mem
      refine ⟨BitVec.lt_def.mpr (by change 1 < size.toNat; omega), ?_⟩
      rintro (zero | ⟨above, -⟩)
      · exact nonzero zero
      · omega
    lost := fun b mem => absurd mem (Set.notMem_empty b)
    marked := by
      intro b (valid : b < size)
      have below := BitVec.lt_def.mp valid
      change bit (mapOf disk (SFS_BITBLOCKS size).toNat) b.toNat = true ↔
        (b = 0 ∨ 2 ≤ b.toNat ∧ b.toNat < 2 + (SFS_BITBLOCKS size).toNat) ∨
          b ∈ held (refs Inodes.fresh disk) ∨ b ∈ (∅ : Set CUnsigned)
      have zero : (0 : CUnsigned).toNat = 0 := rfl
      rw [← Bool.not_eq_false, made.map _ (by omega), only, ← BitVec.toNat_inj, ← BitVec.toNat_inj,
        Set.mem_empty_iff_false, or_false]
      omega
    system := by
      change 2 + (SFS_BITBLOCKS size).toNat ≤ size.toNat
      omega }

/-- A new volume after it is mounted. -/
theorem Made.shows :
    Shows (View.fresh disk memory) (Volume.mounted device disk memory asked started) := by
  refine ⟨⟨Inodes.fresh, ⟨?_, made.accounted asked started blocksize blocks reliable, ?_⟩,
    fun ino => ?_⟩, fun _ => rfl, rfl⟩
  · exact {
      table := fun p => ⟨fun mem => absurd mem (List.not_mem_nil), nofun⟩
      nodup := .nil
      fresh := fun _ _ => rfl
      counts := nofun
      absent := fun _ _ => ⟨rfl, rfl⟩
      distinct := nofun }
  · exact {
      loaded := nofun
      clean := nofun
      away := by
        intro ino i live
        by_cases here : ino = SFS_ROOT_LOCATION
        · subst here
          cases (update_self ..).symm.trans live
          exact .inr ⟨made.root, by decide⟩
        · cases (update_of_ne here ..).symm.trans live
      map := by
        intro _ b low (high : b.toNat < 2 + (SFS_BITBLOCKS (superOf (disk 0)).nblocks).toNat)
        have same : SFS_MAP_LOCATION + BitVec.ofNat 32 (b.toNat - 2) = b := by
          have number := toNat_mapLocation (show 2 + (b.toNat - 2) < 2 ^ 32 by omega)
          exact BitVec.eq_of_toNat_eq (number.trans (by omega))
        exact ((chunk_mapOf disk (by omega)).trans (congrArg disk same)).symm
      superdirty := rfl
      super := rfl }
  · exact files_fresh disk ino

end

end

end

end Os161.Sfs
