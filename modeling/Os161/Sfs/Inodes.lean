import Os161.Sfs.File

/-!
# Vnodes of files, and the volume as a whole

`sfs_loadvnode`, `sfs_reclaim` and what they call, from `fs/sfs/sfs_vnode.c`; `sfs_sync` and
`sfs_domount`, from `fs/sfs/sfs_fs.c`.
-/
namespace Os161.Sfs

open Foundation Vfs
open Call (ensure fail modify state)

def sfsSyncInode (p : Ptr) : Code Volume Unit := do
  let sv ← svAt p
  if sv.dirty = true then
    wblock (fun s => (s.heap p).elim Block.zero (·.inode.toBlock)) sv.ino
    alterSv p ({ · with dirty := false })

/-- A `VOP_` of a vnode: it is checked, and then the function is taken from its table. -/
def vop {α : Type} (p : Ptr) (fileop dirop : Code Volume α) : Code Volume α := do
  vnodeCheck p false
  match (← svAt p).ops with
  | .fileops => fileop
  | .dirops => dirop

def vopFsync (p : Ptr) : Code Volume Unit := vop p (sfsSyncInode p) (sfsSyncInode p)

def vopTruncate (p : Ptr) (len : CInt) : Code Volume Unit :=
  vop p (sfsTruncate p len) (fail .EISDIR)

/-! ### Loading and reclaiming -/

def findVnode (ino : CUnsigned) : List Ptr → Code Volume (Option Ptr)
  | [] => return none
  | p :: rest => do
    let sv ← svAt p
    let used ← sfsBused sv.ino
    ensure (used = true) .foundUnallocated
    if sv.ino = ino then return some p else findVnode ino rest

/-- The function table for a type. -/
def opsOf (type : BitVec 16) : Option Ops :=
  if type = SFS_TYPE_FILE then some .fileops
  else if type = SFS_TYPE_DIR then some .dirops
  else none

/-- `sfs_loadvnode` for an inode that is not in the table. -/
def readVnode (ino : CUnsigned) (forcetype : BitVec 16) : Code Volume Ptr := do
  kmalloc
  let p := (← state).brk
  modify ({ · with brk := p + 1 })
  let used ← sfsBused ino
  ensure (used = true) .loadUnallocated
  let inode := Inode.ofBlock (← rblock (fun _ s => s) ino)
  ensure (forcetype = SFS_TYPE_INVAL ∨ inode.type = SFS_TYPE_INVAL) .forcedType
  let inode := if forcetype = SFS_TYPE_INVAL then inode else { inode with type := forcetype }
  let ops ← Call.expect .invalidType (opsOf inode.type)
  -- `VOP_INIT` creates the lock of the vnode
  kmalloc
  -- and `array_add` may have to grow the array
  kmalloc
  let dirty := decide (forcetype ≠ SFS_TYPE_INVAL)
  modify fun s => { s with
    heap := Function.update s.heap p (some { vnodeInit with ops, inode, ino, dirty })
    vnodes := s.vnodes ++ [p] }
  return p

def sfsLoadvnode (ino : CUnsigned) (forcetype : BitVec 16) : Code Volume Ptr := do
  match ← findVnode ino (← state).vnodes with
  | some p =>
    ensure (forcetype = SFS_TYPE_INVAL) .forcedResident
    modify fun s => { s with finding := p :: s.finding }
    vnodeIncref p
    modify fun s => { s with finding := s.finding.erase p }
    return p
  | none => readVnode ino forcetype

/-- The end of `sfs_reclaim`: the vnode goes out of the table and is freed. -/
def freeVnode (p : Ptr) : Code Volume Unit := do
  ensure (p ∈ (← state).vnodes) .notInPool
  modify fun s => { s with vnodes := s.vnodes.erase p }
  vnodeKill p
  modify fun s => { s with heap := Function.update s.heap p none }

/-- `sfs_reclaim` behind the truncation. -/
def reclaimRest (p : Ptr) : Code Volume Unit := do
  sfsSyncInode p
  let sv ← svAt p
  if sv.inode.linkcount = 0 then sfsBfree sv.ino
  freeVnode p

/-- `sfs_reclaim` from where it has decided to. -/
def reclaimUnused (p : Ptr) : Code Volume Unit := do
  if (← svAt p).inode.linkcount = 0 then vopTruncate p 0
  reclaimRest p

def sfsReclaim (p : Ptr) : Code Volume Unit := do
  lockAcquire p
  let v ← fetch p
  if v.refcount ≠ 1 then
    ensure (1 < v.refcount) .reclaimCount
    alter p fun v => { v with refcount := v.refcount - 1 }
    lockRelease p
    fail .EBUSY
  else
    modify fun s => { s with reclaiming := p :: s.reclaiming }
    lockRelease p
    let result ← (reclaimUnused p).attempt
    modify fun s => { s with reclaiming := s.reclaiming.erase p }
    Call.ofExcept result

/-- `VOP_DECREF`. -/
def sfsDecref (p : Ptr) : Code Volume Unit := vnodeDecref (sfsReclaim p) p

def sfsGetroot : Code Volume Ptr := do
  match ← (sfsLoadvnode SFS_ROOT_LOCATION SFS_TYPE_INVAL).attempt with
  | .ok p => return p
  | .error _ => Call.halt .cannotLoadRoot

/-! ### The whole volume -/

/-- Sector `j` of the free map, at `bitdata + j*SFS_BLOCKSIZE`. -/
def chunk (v : Nat → Byte) (j : Nat) : Block := fun i => v (j * 512 + i)

def setChunk (v : Nat → Byte) (j : Nat) (b : Block) : Nat → Byte := fun i =>
  if i / 512 = j then b ⟨i % 512, mod_blocksize_lt i⟩ else v i

/-- `sfs_mapio` for writing, from sector `j` on. -/
def mapWrite (j : Nat) : Nat → Code Volume Unit
  | 0 => return ()
  | left + 1 => do
    wblock (fun s => chunk s.freemap.v j) (SFS_MAP_LOCATION + BitVec.ofNat 32 j)
    mapWrite (j + 1) left

/-- `sfs_mapio` for reading. -/
def mapRead (j : Nat) : Nat → Code Volume Unit
  | 0 => return ()
  | left + 1 => do
    let _ ← rblock (fun b s =>
      { s with freemap := { s.freemap with v := setChunk s.freemap.v j b } })
      (SFS_MAP_LOCATION + BitVec.ofNat 32 j)
    mapRead (j + 1) left

/-- The loop of `sfs_sync`; what `VOP_FSYNC` returns is not looked at. -/
def syncVnodes (i : Nat) : Nat → Code Volume Unit
  | 0 => return ()
  | left + 1 => do
    let p ← Call.expect .arrayIndex ((← state).vnodes[i]?)
    let _ ← (vopFsync p).attempt
    syncVnodes (i + 1) left

def sfsSync : Code Volume Unit := do
  syncVnodes 0 (← state).vnodes.length
  let s ← state
  if s.freemapdirty = true then
    mapWrite 0 (SFS_BITBLOCKS s.super.nblocks).toNat
    modify ({ · with freemapdirty := false })
  if s.superdirty = true then
    wblock (·.super.toBlock) SFS_SB_LOCATION
    modify ({ · with superdirty := false })

/-- Before `sfs_domount`, with the device and the memory there are. -/
def Volume.blank (device : Device) (disk : CUnsigned → Block) (memory : Nat → Bool) : Volume where
  super := Super.ofBlock Block.zero
  superdirty := false
  freemap := ⟨0, fun _ => 0⟩
  freemapdirty := false
  vnodes := []
  heap := fun _ => none
  brk := 0
  memory := memory
  asked := 0
  disk := disk
  device := device
  started := 0
  iobuf := Block.zero
  idbuf := fun _ => 0
  truncbuf := fun _ => 0
  finding := []
  reclaiming := []

/-- `sfs_domount` where it loads the free space bitmap. -/
def loadFreemap (nblocks : CUnsigned) : Code Volume Unit := do
  kmalloc
  match Bitmap.create (SFS_BITMAPSIZE nblocks) with
  | .error _ => Call.halt .bitmap
  | .ok freemap =>
    modify ({ · with freemap := freemap })
    mapRead 0 (SFS_BITBLOCKS nblocks).toNat

def sfsDomount : Code Volume Unit := do
  if (← state).device.blocksize ≠ SFS_BLOCKSIZE then fail .ENxIo
  kmalloc
  kmalloc
  modify ({ · with vnodes := [] })
  let _ ← rblock (fun b s => { s with super := Super.ofBlock b }) SFS_SB_LOCATION
  if (← state).super.magic ≠ SFS_MAGIC then fail .EINVAL
  modify fun s => { s with
    super := { s.super with volname := Function.update s.super.volname 31 0 } }
  loadFreemap (← state).super.nblocks
  modify ({ · with superdirty := false, freemapdirty := false })

end Os161.Sfs
