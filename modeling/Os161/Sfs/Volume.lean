import Os161.Sfs.Layout
import Os161.Vfs.Vnode

/-!
# A mounted file system: blocks and block maps

The state of a volume, block input and output, the allocation of blocks and `sfs_bmap`, from
`fs/sfs/sfs_vnode.c`. The buffers that the source declares as `static` are part of the state:
all calls share them.
-/
namespace Os161.Sfs

open Foundation Vfs
open Function (update)
open Call (ensure fail modify state yield)

/-- What an operation on a block comes to. A device that fails can lose a write that is then
reported as done; see `sfsWblock_failed`. -/
inductive Outcome where
  | ok
  | lost
  | fails
  deriving DecidableEq

/-- The device below, and what it will do, by the number of the operation. -/
structure Device where
  blocksize : CUnsigned
  blocks : CUnsigned
  outcome : Nat → Outcome

/-- The function tables `sfs_fileops` and `sfs_dirops`. -/
inductive Ops where
  | fileops
  | dirops
  deriving DecidableEq

structure SfsVnode extends Vnode where
  ops : Ops
  inode : Inode
  ino : CUnsigned
  dirty : Bool

/-- `struct sfs_fs`, with the memory, the device and the static buffers. -/
structure Volume where
  super : Super
  superdirty : Bool
  freemap : Bitmap
  freemapdirty : Bool
  /-- The array `sfs_vnodes`. -/
  vnodes : List Ptr
  heap : Ptr → Option SfsVnode
  /-- The address that `kmalloc` gives next. -/
  brk : Ptr
  /-- Which of the calls of `kmalloc` have memory. -/
  memory : Nat → Bool
  asked : Nat
  disk : CUnsigned → Block
  device : Device
  /-- How many operations were started. -/
  started : Nat
  /-- The buffer of `sfs_partialio`. -/
  iobuf : Block
  /-- The buffer of `sfs_bmap`. -/
  idbuf : Fin 128 → CUnsigned
  /-- The buffer of `sfs_truncate`. -/
  truncbuf : Fin 128 → CUnsigned
  /-- For the record: vnodes that `sfs_loadvnode` has found and not yet counted. -/
  finding : List Ptr
  /-- For the record: vnodes that `sfs_reclaim` has found to be unused and not yet freed. -/
  reclaiming : List Ptr

instance : Vnodes Volume where
  vnode s p := (s.heap p).map SfsVnode.toVnode
  setVnode p v s :=
    { s with heap := update s.heap p ((s.heap p).map ({ · with toVnode := v })) }

def svAt (p : Ptr) : Code Volume SfsVnode := do
  Call.expect .danglingVnode ((← state).heap p)

def alterSv (p : Ptr) (f : SfsVnode → SfsVnode) : Code Volume Unit := do
  let sv ← svAt p
  modify fun s => { s with heap := update s.heap p (some (f sv)) }

def kmalloc : Code Volume Unit := do
  let s ← state
  modify ({ · with asked := s.asked + 1 })
  if s.memory s.asked = false then fail .ENOMEM

/-! ### Block input and output -/

/-- The device refuses a sector that it does not have, and `sfs_rwblock` panics. -/
def operate (block : CUnsigned) : Code Volume Outcome := do
  let s ← state
  ensure (sectorOf block + 1 ≤ s.device.blocks) .blockOutOfRange
  modify ({ · with started := s.started + 1 })
  return s.device.outcome s.started

/-- `sfs_rblock`, into the buffer that `store` writes to. -/
def rblock (store : Block → Volume → Volume) (block : CUnsigned) : Code Volume Block := do
  yield
  if (← operate block) = .fails then
    yield
    fail .EIo
  else
    let b := (← state).disk (sectorOf block)
    modify (store b)
    yield
    return b

/-- `sfs_wblock`, with the data of the moment at which the device takes it. -/
def wblock (data : Volume → Block) (block : CUnsigned) : Code Volume Unit := do
  yield
  let outcome ← operate block
  if outcome = .ok then
    modify fun s => { s with disk := update s.disk (sectorOf block) (data s) }
  yield
  if outcome = .fails then fail .EIo

/-! ### Space allocation -/

def sfsClearblock (block : CUnsigned) : Code Volume Unit := wblock (fun _ => Block.zero) block

def sfsBalloc : Code Volume CUnsigned := do
  let s ← state
  match s.freemap.alloc with
  | .error _ => Call.halt .bitmap
  | .ok none => fail .ENOSPC
  | .ok (some (diskblock, freemap)) =>
    modify ({ · with freemap := freemap, freemapdirty := true })
    ensure (diskblock < s.super.nblocks) .ballocInvalid
    sfsClearblock diskblock
    return diskblock

def sfsBfree (diskblock : CUnsigned) : Code Volume Unit := do
  let s ← state
  match s.freemap.unmark diskblock with
  | .error _ => Call.halt .bitmap
  | .ok freemap => modify ({ · with freemap := freemap, freemapdirty := true })

def sfsBused (diskblock : CUnsigned) : Code Volume Bool := do
  let s ← state
  ensure (diskblock < s.super.nblocks) .busedOutOfRange
  return s.freemap.isset diskblock

/-! ### Block mapping -/

/-- The end of `sfs_bmap`: hand back the block. -/
def handBack (block : CUnsigned) : Code Volume CUnsigned := do
  if block ≠ 0 then
    let used ← sfsBused block
    ensure (used = true) .markedFree
  return block

def sfsBmapDirect (p : Ptr) (fileblock : Fin 15) (doalloc : Bool) : Code Volume CUnsigned := do
  let sv ← svAt p
  let block := sv.inode.direct fileblock
  if block = 0 ∧ doalloc = true then
    let block ← sfsBalloc
    alterSv p fun sv => { sv with
      inode := { sv.inode with direct := update sv.inode.direct fileblock block }
      dirty := true }
    handBack block
  else handBack block

/-- From where the indirect block is in `idbuf`. -/
def sfsBmapEntry (idblock : CUnsigned) (idoff : Fin 128) (doalloc : Bool) :
    Code Volume CUnsigned := do
  let block := (← state).idbuf idoff
  if block = 0 ∧ doalloc = true then
    let block ← sfsBalloc
    modify fun s => { s with idbuf := update s.idbuf idoff block }
    wblock (fun s => Block.ofWords s.idbuf) idblock
    handBack block
  else handBack block

def sfsBmapIndirect (p : Ptr) (idoff : Fin 128) (doalloc : Bool) : Code Volume CUnsigned := do
  let sv ← svAt p
  let idblock := sv.inode.indirect
  if idblock = 0 ∧ doalloc = false then return 0
  else if idblock = 0 then
    let idblock ← sfsBalloc
    alterSv p fun sv => { sv with inode := { sv.inode with indirect := idblock }, dirty := true }
    modify ({ · with idbuf := fun _ => 0 })
    sfsBmapEntry idblock idoff doalloc
  else
    let _ ← rblock (fun b s => { s with idbuf := b.words }) idblock
    sfsBmapEntry idblock idoff doalloc

def idoff (fileblock : CUnsigned) : Fin 128 :=
  ⟨(fileblock % SFS_DBPERIDB).toNat, Nat.mod_lt fileblock.toNat (by decide)⟩

def sfsBmap (p : Ptr) (fileblock : CUnsigned) (doalloc : Bool) : Code Volume CUnsigned :=
  if direct : fileblock.toNat < 15 then sfsBmapDirect p ⟨fileblock.toNat, direct⟩ doalloc
  else
    let fileblock := fileblock - SFS_NDIRECT
    let idnum := fileblock / SFS_DBPERIDB
    if 0 < idnum then fail .EINVAL
    else sfsBmapIndirect p (idoff fileblock) doalloc

end Os161.Sfs
