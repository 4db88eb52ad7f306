import Os161.Sfs.Volume

/-!
# Files: input, output and truncation

`sfs_io` and the functions below it, and `sfs_truncate`, from `fs/sfs/sfs_vnode.c`. A request is
a `struct uio` with the bytes of its region in place of addresses; it is a variable of the
caller, and calls that fail have moved it as far as they came.
-/
namespace Os161.Sfs

open Foundation Vfs
open Call (ensure fail modify state yield)

open Io (UioRw)

/-! ### Requests -/

/-- `struct uio`. -/
structure Transfer where
  /-- The bytes of the region, from where it began. -/
  bytes : Nat → Byte
  /-- The places there that cannot be reached; in the kernel's memory there are none. -/
  bad : Nat → Bool
  /-- How far `iov_base` has moved. -/
  base : Nat
  /-- `iov_len`. -/
  len : CUnsigned
  offset : CInt
  resid : CUnsigned
  rw : UioRw

namespace Transfer

def advance (t : Transfer) (size : CUnsigned) : Transfer :=
  { t with
    base := t.base + size.toNat
    len := t.len - size
    resid := t.resid - size
    offset := t.offset + size }

/-- How many of the next places can be reached, up to the first that cannot. -/
def reach (t : Transfer) (base : Nat) : Nat → Nat
  | 0 => 0
  | left + 1 => if t.bad base then 0 else t.reach (base + 1) left + 1

/-- `k` bytes come from a buffer. -/
def receive (t : Transfer) (k : Nat) (data : Nat → Byte) : Transfer :=
  { t with bytes := fun i => if t.base ≤ i ∧ i < t.base + k then data (i - t.base) else t.bytes i }

end Transfer

abbrev IoCode (α : Type) := Code (Volume × Transfer) α

/-- A call that does not know the request. -/
def onVolume {α : Type} (c : Code Volume α) : IoCode α := c.zoom Lens.shared

def uio : IoCode Transfer := return (← state).2

def alterUio (f : Transfer → Transfer) : IoCode Unit := modify fun s => (s.1, f s.2)

/-- A buffer of the kernel: the bytes in it, what it holds when the first bytes are overwritten,
and its size. -/
structure Kbuf where
  load : Volume → Nat → Byte
  save : Nat → (Nat → Byte) → Volume → Volume
  room : Nat

/-- The copy in `uiomove`, as far as the region can be reached. -/
def copyBytes (buf : Kbuf) (reached : Nat) : IoCode Unit := do
  let t ← uio
  match t.rw with
  | .UIO_READ => modify fun s => (s.1, s.2.receive reached (buf.load s.1))
  | .UIO_WRITE => modify fun s => (buf.save reached (fun j => t.bytes (t.base + j)) s.1, s.2)

/-- The loop of `uiomove` has one pass: a second one would find `iov_len` to be 0. -/
def uiomove (buf : Kbuf) (n : CUnsigned) : IoCode Unit := do
  let t ← uio
  if 0 < n ∧ 0 < t.resid then
    let size := if n < t.len then n else t.len
    ensure (size ≠ 0) .uiomoveEmpty
    ensure (size.toNat ≤ buf.room) .overrun
    let reached := t.reach t.base size.toNat
    copyBytes buf reached
    if reached < size.toNat then fail .EFAULT
    alterUio (·.advance size)
    ensure (n = size ∨ t.resid - size = 0) .uiomoveEmpty

def zerosBuf : Kbuf where
  load _ _ := 0
  save _ _ s := s
  room := 16

/-- With at most `left` passes. -/
def uiomovezeros (n : CUnsigned) : Nat → IoCode Unit
  | 0 => return ()
  | left + 1 => do
    if 0 < n then
      let amt := if 16 < n then 16 else n
      uiomove zerosBuf amt
      uiomovezeros (n - amt) left

/-! ### Input and output -/

/-- A block of which a part is overwritten. -/
def patch (b : Block) (skip k : Nat) (data : Nat → Byte) : Block := fun i =>
  if skip ≤ i.val ∧ i.val < skip + k then data (i - skip) else b i

/-- The bytes of a block behind the first ones. -/
def Block.drop (b : Block) (skip : Nat) : Nat → Byte := fun j =>
  if inside : skip + j < 512 then b ⟨skip + j, inside⟩ else 0

/-- `iobuf+skipstart`. -/
def iobufAt (skipstart : CUnsigned) : Kbuf where
  load s := s.iobuf.drop skipstart.toNat
  save k data s := { s with iobuf := patch s.iobuf skipstart.toNat k data }
  room := 512 - skipstart.toNat

def sfsPartialio (p : Ptr) (skipstart len : CUnsigned) : IoCode Unit := do
  let t ← uio
  let doalloc := decide (t.rw = .UIO_WRITE)
  ensure (skipstart + len ≤ SFS_BLOCKSIZE) .partialLength
  let fileblock := t.offset.sdiv SFS_BLOCKSIZE
  let diskblock ← onVolume (sfsBmap p fileblock doalloc)
  if diskblock = 0 then
    ensure (t.rw = .UIO_READ) .partialHole
    onVolume (modify ({ · with iobuf := Block.zero }))
  else
    let _ ← onVolume (rblock (fun b s => { s with iobuf := b }) diskblock)
  uiomove (iobufAt skipstart) len
  if t.rw = .UIO_WRITE then onVolume (wblock (·.iobuf) diskblock)

/-- The driver's `uiomove` of a sector. -/
def moveSector : IoCode Unit := do
  let t ← uio
  let size := if SFS_BLOCKSIZE < t.len then SFS_BLOCKSIZE else t.len
  ensure (size ≠ 0) .uiomoveEmpty
  if t.reach t.base size.toNat < size.toNat then fail .EFAULT
  ensure (size = SFS_BLOCKSIZE) .uiomoveEmpty
  alterUio (·.advance SFS_BLOCKSIZE)

/-- `sfs_rwblock` with the caller's request. On a write it moves on before the device is asked. -/
def rwblock (diskblock : CUnsigned) : IoCode Unit := do
  onVolume yield
  let t ← uio
  match t.rw with
  | .UIO_READ =>
    if (← onVolume (operate diskblock)) = .fails then fail .EIo
    let b := (← state).1.disk (sectorOf diskblock)
    alterUio fun t => t.receive (t.reach t.base 512) (b.drop 0)
    moveSector
    onVolume yield
  | .UIO_WRITE =>
    ensure (sectorOf diskblock + 1 ≤ (← state).1.device.blocks) .blockOutOfRange
    moveSector
    let outcome ← onVolume (operate diskblock)
    if outcome = .ok then
      onVolume (modify fun s => { s with
        disk := Function.update s.disk (sectorOf diskblock) fun j => t.bytes (t.base + j) })
    onVolume yield
    if outcome = .fails then fail .EIo

/-- The request with an offset that makes sense to the device, for one block. -/
def Transfer.onDisk (t : Transfer) (diskoff : CInt) : Transfer :=
  { t with offset := diskoff, resid := SFS_BLOCKSIZE }

/-- The offset and residue of `saved`, updated by the amount of input or output done. -/
def Transfer.restore (t saved : Transfer) (diskoff : CInt) : Transfer :=
  { t with
    offset := t.offset - diskoff + saved.offset
    resid := t.resid - SFS_BLOCKSIZE + saved.resid }

def sfsBlockio (p : Ptr) : IoCode Unit := do
  let t ← uio
  let doalloc := decide (t.rw = .UIO_WRITE)
  let fileblock := t.offset.sdiv SFS_BLOCKSIZE
  let diskblock ← onVolume (sfsBmap p fileblock doalloc)
  if diskblock = 0 then
    ensure (t.rw = .UIO_READ) .blockHole
    uiomovezeros SFS_BLOCKSIZE 32
  else
    let diskoff := diskblock * SFS_BLOCKSIZE
    ensure (SFS_BLOCKSIZE ≤ t.resid) .blockResid
    alterUio (·.onDisk diskoff)
    let result ← (rwblock diskblock).attempt
    alterUio (·.restore t diskoff)
    Call.ofExcept result

/-- The loop over whole blocks. -/
def sfsBlocks (p : Ptr) : Nat → IoCode Unit
  | 0 => return ()
  | left + 1 => do
    sfsBlockio p
    sfsBlocks p left

/-- `sfs_io` behind the leading partial block, up to the label `out`. -/
def sfsIoAligned (p : Ptr) : IoCode Unit := do
  let t ← uio
  if t.resid ≠ 0 then
    ensure (t.offset.srem SFS_BLOCKSIZE = 0) .notAligned
    sfsBlocks p (t.resid / SFS_BLOCKSIZE).toNat
    let t ← uio
    ensure (t.resid < SFS_BLOCKSIZE) .restTooLong
    if 0 < t.resid then sfsPartialio p 0 t.resid

/-- `sfs_io` up to the label `out`. -/
def sfsIoBody (p : Ptr) : IoCode Unit := do
  let t ← uio
  let blkoff := t.offset.srem SFS_BLOCKSIZE
  if blkoff ≠ 0 then
    let len := SFS_BLOCKSIZE - blkoff
    sfsPartialio p blkoff (if t.resid < len then t.resid else len)
  sfsIoAligned p

/-- From the label `out` on, except for the result. -/
def sfsIoOut (p : Ptr) (extraresid : CUnsigned) : IoCode Unit := do
  let t ← uio
  let sv ← onVolume (svAt p)
  if t.rw = .UIO_WRITE ∧ sv.inode.size.slt t.offset = true then
    onVolume (alterSv p fun sv => { sv with
      inode := { sv.inode with size := t.offset }, dirty := true })
  alterUio fun t => { t with resid := t.resid + extraresid }

def sfsIo (p : Ptr) : IoCode Unit := do
  let t ← uio
  let size := (← onVolume (svAt p)).inode.size
  let endpos := t.offset + t.resid
  if t.rw = .UIO_READ ∧ size.sle t.offset = true then return ()
  let extraresid := if t.rw = .UIO_READ ∧ size.slt endpos = true then endpos - size else 0
  if t.rw = .UIO_READ ∧ size.slt endpos = true then
    ensure (extraresid < t.resid) .extraResid
    alterUio fun t => { t with resid := t.resid - extraresid }
  let result ← (sfsIoBody p).attempt
  sfsIoOut p extraresid
  Call.ofExcept result

/-- `sfs_read` and `sfs_write`, for a request of the right kind. -/
def sfsRequest (p : Ptr) (t : Transfer) : Code Volume (Except Errno Unit × Transfer) :=
  (sfsIo p).locally t

/-! ### Truncation -/

def truncateDirect (p : Ptr) (blocklen : CUnsigned) : List (Fin 15) → Code Volume Unit
  | [] => return ()
  | i :: rest => do
    let block := (← svAt p).inode.direct i
    if blocklen ≤ BitVec.ofNat 32 i ∧ block ≠ 0 then
      sfsBfree block
      alterSv p fun sv => { sv with
        inode := { sv.inode with direct := Function.update sv.inode.direct i 0 }, dirty := true }
    truncateDirect p blocklen rest

/-- The loop over the indirect block; the result is `hasnonzero` and `iddirty`. -/
def truncateEntries (blocklen : CUnsigned) :
    (hasnonzero iddirty : Bool) → List (Fin 128) → Code Volume (Bool × Bool)
  | hasnonzero, iddirty, [] => return (hasnonzero, iddirty)
  | hasnonzero, iddirty, j :: rest => do
    let block := (← state).truncbuf j
    if blocklen < SFS_NDIRECT + BitVec.ofNat 32 j ∧ block ≠ 0 then
      sfsBfree block
      modify fun s => { s with truncbuf := Function.update s.truncbuf j 0 }
      truncateEntries blocklen hasnonzero true rest
    else truncateEntries blocklen (hasnonzero || block ≠ 0) iddirty rest

def truncateIndirect (p : Ptr) (blocklen : CUnsigned) : Code Volume Unit := do
  let idblock := (← svAt p).inode.indirect
  let highblock := SFS_NDIRECT + SFS_DBPERIDB - 1
  if blocklen < highblock ∧ idblock ≠ 0 then
    let _ ← rblock (fun b s => { s with truncbuf := b.words }) idblock
    let (hasnonzero, iddirty) ← truncateEntries blocklen false false (List.finRange 128)
    if hasnonzero = false then
      sfsBfree idblock
      alterSv p fun sv => { sv with inode := { sv.inode with indirect := 0 }, dirty := true }
    else if iddirty = true then
      wblock (fun s => Block.ofWords s.truncbuf) idblock

/-- `DIVROUNDUP(len, SFS_BLOCKSIZE)`; `len` is signed. -/
def blocklen (len : CInt) : CUnsigned := (len + SFS_BLOCKSIZE - 1).sdiv SFS_BLOCKSIZE

def sfsTruncate (p : Ptr) (len : CInt) : Code Volume Unit := do
  truncateDirect p (blocklen len) (List.finRange 15)
  truncateIndirect p (blocklen len)
  alterSv p fun sv => { sv with inode := { sv.inode with size := len }, dirty := true }

end Os161.Sfs
