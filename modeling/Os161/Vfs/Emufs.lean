import Os161.Foundation.Threads
import Os161.Vfs.Vnode

/-!
# Vnodes of emufs, `dev/lamebus/emu.c`

`emufs_loadvnode` and `emufs_reclaim` work on the table of vnodes under the lock of the device.
`vnode_decref` decides to reclaim a vnode under the vnode's own lock only, so `emufs_reclaim` looks
at the count once more.
-/
namespace Os161.Emufs

open Foundation Vfs
open Function (update)

/-- `struct emufs_vnode`; `isdir` stands for the table of functions. -/
structure EmufsVnode extends Vnode where
  handle : CUnsigned
  isdir : Bool

/-- `struct emufs_fs`, with its device. -/
structure EmufsFs where
  /-- `e_lock` has an owner. -/
  locked : Bool
  /-- `ef_vnodes`. -/
  vnodes : List Ptr
  heap : Ptr → Option EmufsVnode
  /-- No address from here on has been handed out. -/
  brk : Ptr
  /-- Which calls of `kmalloc` succeed, and how many there were. -/
  memory : Nat → Bool
  asked : Nat
  /-- What the close operations of the device return, and how many there were. -/
  closes : Nat → Except Errno Unit
  started : Nat
  /-- For the record: how often `emufs_reclaim` has found a vnode in use. -/
  refused : Ptr → Nat

instance : Vnodes EmufsFs where
  vnode s p := (s.heap p).map EmufsVnode.toVnode
  setVnode p v s :=
    { s with heap := update s.heap p ((s.heap p).map ({ · with toVnode := v })) }

def kmalloc : Code EmufsFs Unit := do
  let s ← Call.state
  Call.modify ({ · with asked := s.asked + 1 })
  if s.memory s.asked = false then Call.fail .ENOMEM

/-! ### The device -/

def elockAcquire : Code EmufsFs Unit := do
  Call.await (!·.locked)
  Call.modify ({ · with locked := true })
  Call.yield

def elockRelease : Code EmufsFs Unit := do
  Call.yield
  Call.ensure ((← Call.state).locked = true) .lockNotHeld
  Call.modify ({ · with locked := false })
  Call.yield

/-- The operation, and `emu_waitdone`. -/
def closeOnce : Code EmufsFs (Except Errno Unit) := do
  let s ← Call.state
  Call.modify ({ · with started := s.started + 1 })
  Call.yield
  return s.closes s.started

/-- The loop of `emu_close`, with `left` retries to go. -/
def closeLoop : Nat → Code EmufsFs Unit
  | 0 => do
    Call.ofExcept (← closeOnce)
  | left + 1 => do
    let result ← closeOnce
    if result = .error .EIo then closeLoop left else Call.ofExcept result

/-- Its only caller has the lock already. -/
def emuClose : Code EmufsFs Unit := closeLoop 10

/-! ### Vnodes -/

def findHandle (handle : CUnsigned) : List Ptr → Code EmufsFs (Option Ptr)
  | [] => return none
  | p :: rest => do
    let ev ← Call.expect .danglingVnode ((← Call.state).heap p)
    if ev.handle = handle then return some p else findHandle handle rest

/-- A vnode for a handle that has none. Until it is in the table nobody else sees it. -/
def makeVnode (handle : CUnsigned) (isdir : Bool) : Code EmufsFs Ptr := do
  kmalloc
  let p := (← Call.state).brk
  Call.modify ({ · with brk := p + 1 })
  -- `VOP_INIT` creates the lock of the vnode
  kmalloc
  -- and `array_add` may have to grow the array
  kmalloc
  Call.modify fun s => { s with
    heap := update s.heap p (some { vnodeInit with handle, isdir })
    vnodes := s.vnodes ++ [p] }
  return p

def emufsLoadvnode (handle : CUnsigned) (isdir : Bool) : Code EmufsFs Ptr := do
  elockAcquire
  match ← findHandle handle (← Call.state).vnodes with
  | some p =>
    vnodeIncref p
    elockRelease
    return p
  | none =>
    let result ← (makeVnode handle isdir).attempt
    elockRelease
    Call.ofExcept result

def emufsReclaim (p : Ptr) : Code EmufsFs Unit := do
  elockAcquire
  lockAcquire p
  let v ← fetch p
  if v.refcount ≠ 1 then
    -- the count stays as it is, unlike in `sfs_reclaim`
    Call.modify fun s => { s with refused := update s.refused p (s.refused p + 1) }
    lockRelease p
    elockRelease
    Call.fail .EBUSY
  else
    lockRelease p
    match ← emuClose.attempt with
    | .error e =>
      elockRelease
      Call.fail e
    | .ok _ =>
      Call.ensure (p ∈ (← Call.state).vnodes) .notInPool
      Call.modify fun s => { s with vnodes := s.vnodes.erase p }
      elockRelease
      vnodeKill p
      Call.modify fun s => { s with heap := update s.heap p none }

/-- `VOP_DECREF`. -/
def emufsDecref (p : Ptr) : Code EmufsFs Unit := vnodeDecref (emufsReclaim p) p

/-! ### Threads -/

inductive Request where
  | load (handle : CUnsigned) (isdir : Bool)
  | release (p : Ptr)

/-- A thread has references, so many to each vnode. It gives one up when it calls `VOP_DECREF`. -/
def service : Service Halt Errno EmufsFs (Option Ptr) Request (Ptr → Nat) where
  code
    | .load handle isdir => do return some (← emufsLoadvnode handle isdir)
    | .release p => do
      emufsDecref p
      return none
  begins held
    | .load _ _ => some held
    | .release p => if held p = 0 then none else some (update held p (held p - 1))
  ends held _
    | .ok (some p) => update held p (held p + 1)
    | _ => held

/-- The state after `emufs` has been attached. -/
def attached (memory : Nat → Bool) (closes : Nat → Except Errno Unit) : EmufsFs where
  locked := false
  vnodes := []
  heap _ := none
  brk := 1
  memory
  asked := 0
  closes
  started := 0
  refused _ := 0

abbrev Threads (n : Nat) := Crowd (Fin n) Halt Errno EmufsFs (Option Ptr) Request (Ptr → Nat)

def quietThreads (n : Nat) (s : EmufsFs) : Threads n where
  shared := s
  has _ _ := 0
  doing _ := .idle

end Os161.Emufs
