import Os161.Foundation.Call
import Os161.Kern.Base

/-!
# Vnodes, `fs/vfs/vnode.c`

A vnode counts the references to it and how often it is open. The counts are kept under a lock
of its own; a thread may lose the processor wherever it takes or gives back a lock. File systems
keep their vnodes in states of their own, so the functions are about any state that has vnodes.
-/
namespace Os161

open Foundation

/-- The assertions and panics of the file systems, by the place in the source. -/
inductive Halt where
  -- `vnode.c`, and the lock in a vnode
  | danglingVnode
  | lockNotHeld
  | killReferenced
  | killOpen
  | noReference
  | notOpen
  | zeroRefcount
  -- `bitmap.c` and `array.c`
  | bitmap
  | arrayIndex
  -- `uio.c`
  | uiomoveEmpty
  | overrun
  -- `sfs_io.c`
  | blockOutOfRange
  -- `sfs_vnode.c`, by functions
  | ballocInvalid
  | busedOutOfRange
  | markedFree
  | partialLength
  | partialHole
  | blockHole
  | blockResid
  | extraResid
  | notAligned
  | restTooLong
  | shortEntry
  | shortWrite
  | notDirectory
  | invalidSize
  | nameTwice
  | linkCountZero
  | reclaimCount
  | notInPool
  | invalidType
  | linkCount
  | renameAcross
  | renameNotRoot
  | renameNotFile
  | cannotRecover
  | foundUnallocated
  | forcedResident
  | loadUnallocated
  | forcedType
  | cannotLoadRoot
  deriving DecidableEq

abbrev Code (σ α : Type) := Call Halt Errno σ α

/-- `struct vnode`, without the pointers. The counts are `int` there: with fewer than `2 ^ 31`
references they are never negative, and the panics of `vnode_check` for that do not occur. -/
structure Vnode where
  refcount : Nat
  opencount : Nat
  /-- `vn_countlock` has an owner. -/
  locked : Bool

/-- A state with vnodes. An address without one is dangling. -/
class Vnodes (σ : Type) where
  vnode : σ → Ptr → Option Vnode
  setVnode : Ptr → Vnode → σ → σ

namespace Vfs

variable {σ : Type} [Vnodes σ]

def fetch (p : Ptr) : Code σ Vnode := do
  Call.expect .danglingVnode (Vnodes.vnode (← Call.state) p)

def alter (p : Ptr) (f : Vnode → Vnode) : Code σ Unit := do
  let v ← fetch p
  Call.modify (Vnodes.setVnode p (f v))

/-! ### The lock of a vnode -/

def lockAcquire (p : Ptr) : Code σ Unit := do
  Call.await fun s => (Vnodes.vnode s p).all (!·.locked)
  alter p ({ · with locked := true })
  Call.yield

def lockRelease (p : Ptr) : Code σ Unit := do
  Call.yield
  let v ← fetch p
  Call.ensure (v.locked = true) .lockNotHeld
  alter p ({ · with locked := false })
  Call.yield

/-! ### The functions -/

def vnodeInit : Vnode where
  refcount := 1
  opencount := 0
  locked := false

/-- The caller frees the memory next. -/
def vnodeKill (p : Ptr) : Code σ Unit := do
  let v ← fetch p
  Call.ensure (v.refcount = 1) .killReferenced
  Call.ensure (v.opencount = 0) .killOpen
  alter p fun _ => { refcount := 0, opencount := 0, locked := false }

def vnodeIncref (p : Ptr) : Code σ Unit := do
  lockAcquire p
  alter p fun v => { v with refcount := v.refcount + 1 }
  lockRelease p

/-- For each `VOP_`; counts are never negative here. -/
def vnodeCheck (p : Ptr) (reclaims : Bool) : Code σ Unit := do
  let _ ← fetch p
  lockAcquire p
  let v ← fetch p
  Call.ensure (v.refcount ≠ 0 ∨ reclaims = true) .zeroRefcount
  lockRelease p

/-- The file system's `reclaim` may fail; that is at most a warning. -/
def vnodeDecref (reclaim : Code σ Unit) (p : Ptr) : Code σ Unit := do
  lockAcquire p
  let v ← fetch p
  Call.ensure (0 < v.refcount) .noReference
  if 1 < v.refcount then
    alter p fun v => { v with refcount := v.refcount - 1 }
    lockRelease p
  else
    lockRelease p
    vnodeCheck p true
    let _ ← reclaim.attempt

def vnodeIncopen (p : Ptr) : Code σ Unit := do
  lockAcquire p
  alter p fun v => { v with opencount := v.opencount + 1 }
  lockRelease p

def vnodeDecopen (close : Code σ Unit) (p : Ptr) : Code σ Unit := do
  lockAcquire p
  let v ← fetch p
  Call.ensure (0 < v.opencount) .notOpen
  alter p fun v => { v with opencount := v.opencount - 1 }
  lockRelease p
  if v.opencount - 1 = 0 then
    vnodeCheck p false
    let _ ← close.attempt

end Vfs

end Os161
