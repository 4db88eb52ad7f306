import Mathlib.Data.List.OfFn
import Os161.Foundation.Words
import Os161.Kern.Bitmap
import Os161.Sfs.Block

/-!
# What is on the disk, `kern/sfs.h`

The structures of the file system fill a block each. In memory they have the layout that they
have on the disk, so a block that is read into one of them gives the value of every field, and
none is lost when it is written back.
-/
namespace Os161.Sfs

open Foundation

def SFS_MAGIC : CUnsigned := 0xabadf001

def SFS_VOLNAME_SIZE : Nat := 32

def SFS_NDIRECT : CUnsigned := 15

def SFS_DBPERIDB : CUnsigned := 128

def SFS_NAMELEN : Nat := 60

def SFS_SB_LOCATION : CUnsigned := 0

def SFS_ROOT_LOCATION : CUnsigned := 1

def SFS_MAP_LOCATION : CUnsigned := 2

def SFS_NOINO : CUnsigned := 0

def SFS_BLOCKBITS : CUnsigned := SFS_BLOCKSIZE * BITS_PER_WORD

def SFS_BITMAPSIZE (nblocks : CUnsigned) : CUnsigned :=
  (nblocks + SFS_BLOCKBITS - 1) / SFS_BLOCKBITS * SFS_BLOCKBITS

def SFS_BITBLOCKS (nblocks : CUnsigned) : CUnsigned := SFS_BITMAPSIZE nblocks / SFS_BLOCKBITS

/-- The map is rounded up to whole blocks. -/
theorem toNat_bitmapsize {nblocks : CUnsigned} (small : nblocks.toNat ≤ 2 ^ 31) :
    (SFS_BITMAPSIZE nblocks).toNat = (nblocks.toNat + 4095) / 4096 * 4096 := by
  have bits : SFS_BLOCKBITS.toNat = 4096 := by decide
  have sum : (nblocks + SFS_BLOCKBITS - 1).toNat = nblocks.toNat + 4095 := by
    have one : (1 : CUnsigned).toNat = 1 := rfl
    rw [BitVec.toNat_sub, BitVec.toNat_add]
    omega
  rw [SFS_BITMAPSIZE, BitVec.toNat_mul, BitVec.toNat_udiv, bits]
  omega

theorem toNat_bitblocks {nblocks : CUnsigned} (small : nblocks.toNat ≤ 2 ^ 31) :
    (SFS_BITBLOCKS nblocks).toNat = (nblocks.toNat + 4095) / 4096 := by
  have bits : SFS_BLOCKBITS.toNat = 4096 := by decide
  rw [SFS_BITBLOCKS, BitVec.toNat_udiv, toNat_bitmapsize small, bits]
  omega

theorem toNat_mapLocation {j : Nat} (small : 2 + j < 2 ^ 32) :
    (SFS_MAP_LOCATION + BitVec.ofNat 32 j).toNat = 2 + j := by
  have two : SFS_MAP_LOCATION.toNat = 2 := rfl
  rw [BitVec.toNat_add, BitVec.toNat_ofNat]
  omega

def SFS_TYPE_INVAL : BitVec 16 := 0

def SFS_TYPE_FILE : BitVec 16 := 1

def SFS_TYPE_DIR : BitVec 16 := 2

abbrev Block := Fin 512 → Byte

theorem mod_blocksize_lt (n : Nat) : n % 512 < 512 := Nat.mod_lt n (by decide)

namespace Block

def zero : Block := fun _ => 0

/-- An indirect block. -/
def words (b : Block) : Fin 128 → CUnsigned := word (n := 128) b

def ofWords (w : Fin 128 → CUnsigned) : Block := unwords w

@[simp] theorem words_ofWords (w : Fin 128 → CUnsigned) : (ofWords w).words = w :=
  word_unwords w

theorem words_zero (i : Fin 128) : zero.words i = 0 := by
  have bytes : Word.ofBytes 0 0 0 0 = 0 := by decide
  exact bytes

end Block

/-! ### Inodes -/

/-- `struct sfs_inode`. -/
@[ext] structure Inode where
  size : CUnsigned
  type : BitVec 16
  linkcount : BitVec 16
  direct : Fin 15 → CUnsigned
  indirect : CUnsigned
  waste : Fin 110 → CUnsigned

namespace Inode

def toWords (i : Inode) : Fin 128 → CUnsigned := fun k =>
  if k.val = 0 then i.size
  else if k.val = 1 then i.type ++ i.linkcount
  else if direct : k.val < 17 then i.direct ⟨k - 2, by omega⟩
  else if k.val = 17 then i.indirect
  else i.waste ⟨k - 18, by omega⟩

def ofWords (w : Fin 128 → CUnsigned) : Inode where
  size := w 0
  type := (w 1).extractLsb' 16 16
  linkcount := (w 1).extractLsb' 0 16
  direct k := w ⟨k + 2, by omega⟩
  indirect := w 17
  waste k := w ⟨k + 18, by omega⟩

def toBlock (i : Inode) : Block := Block.ofWords i.toWords

def ofBlock (b : Block) : Inode := ofWords b.words

private theorem ofWords_toWords (i : Inode) : ofWords i.toWords = i := by
  have second : i.toWords 1 = i.type ++ i.linkcount := rfl
  ext k
  · rfl
  · rw [ofWords, second, BitVec.extractLsb'_append_eq_left]
  · rw [ofWords, second, BitVec.extractLsb'_append_eq_right]
  · have inside : k.val + 2 < 17 := by omega
    simp [ofWords, toWords, inside]
  · rfl
  · have behind : ¬ k.val + 18 < 17 := by omega
    simp [ofWords, toWords, behind]

@[simp] theorem ofBlock_toBlock (i : Inode) : ofBlock i.toBlock = i := by
  rw [ofBlock, toBlock, Block.words_ofWords, ofWords_toWords]

end Inode

/-! ### The superblock -/

/-- `struct sfs_super`. -/
@[ext] structure Super where
  magic : CUnsigned
  nblocks : CUnsigned
  volname : Fin 32 → Byte
  reserved : Fin 118 → CUnsigned

namespace Super

def toWords (sp : Super) : Fin 128 → CUnsigned := fun k =>
  if k.val = 0 then sp.magic
  else if k.val = 1 then sp.nblocks
  else if name : k.val < 10 then word (n := 8) sp.volname ⟨k - 2, by omega⟩
  else sp.reserved ⟨k - 10, by omega⟩

def ofWords (w : Fin 128 → CUnsigned) : Super where
  magic := w 0
  nblocks := w 1
  volname := unwords (n := 8) fun k => w ⟨k + 2, by omega⟩
  reserved k := w ⟨k + 10, by omega⟩

def toBlock (sp : Super) : Block := Block.ofWords sp.toWords

def ofBlock (b : Block) : Super := ofWords b.words

private theorem ofWords_toWords (sp : Super) : ofWords sp.toWords = sp := by
  apply Super.ext
  · rfl
  · rfl
  · have name : (fun k : Fin 8 => sp.toWords ⟨k + 2, by omega⟩) = word (n := 8) sp.volname := by
      funext k
      have inside : k.val + 2 < 10 := by omega
      simp [toWords, inside]
    exact (congrArg unwords name).trans (unwords_word (n := 8) sp.volname)
  · funext k
    simp [ofWords, toWords]

@[simp] theorem ofBlock_toBlock (sp : Super) : ofBlock sp.toBlock = sp := by
  rw [ofBlock, toBlock, Block.words_ofWords, ofWords_toWords]

end Super

/-! ### Strings and directory entries -/

/-- The string in an array: the bytes before the first 0. -/
def cstring {n : Nat} (b : Fin n → Byte) : List Byte := (List.ofFn b).takeWhile (· ≠ 0)

/-- What `strcpy` leaves in an array of zeros. -/
def strcpy (n : Nat) (s : List Byte) : Fin n → Byte := fun i => s.getD i 0

/-- `struct sfs_dir`. -/
@[ext] structure Entry where
  ino : CUnsigned
  name : Fin 60 → Byte

namespace Entry

def toBytes (e : Entry) : Fin 64 → Byte := fun p =>
  if number : p.val < 4 then unwords (n := 1) (fun _ => e.ino) ⟨p, number⟩
  else e.name ⟨p - 4, by omega⟩

def ofBytes (b : Fin 64 → Byte) : Entry where
  ino := word (n := 1) (fun p => b ⟨p, by omega⟩) 0
  name p := b ⟨p + 4, by omega⟩

@[simp] theorem ofBytes_toBytes (e : Entry) : ofBytes e.toBytes = e := by
  have number : (fun p : Fin 4 => e.toBytes ⟨p, by omega⟩) = unwords (n := 1) fun _ => e.ino := by
    funext p
    have inside : p.val < 4 := p.isLt
    simp [toBytes, inside]
  apply Entry.ext
  · have same := congrFun (word_unwords (n := 1) fun _ => e.ino) 0
    rwa [← number] at same
  · funext p
    have behind : ¬ p.val + 4 < 4 := by omega
    simp [ofBytes, toBytes, behind]

end Entry

end Os161.Sfs
