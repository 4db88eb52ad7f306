import Os161.Sfs.Inodes

/-!
# The directory

Entries of the directory, and the operations on names, from `fs/sfs/sfs_vnode.c`. There is one
directory, the root; its entries are slots of equal size in a file.
-/
namespace Os161.Sfs

open Foundation Vfs
open Call (ensure fail ofExcept)

/-- A string of C has no 0 before its end. -/
abbrev Name := { s : List Byte // 0 ∉ s }

/-- `mk_kuio` for a directory entry. -/
def entryUio (e : Fin 64 → Byte) (slot : Nat) (rw : Io.UioRw) : Transfer where
  bytes i := if inside : i < 64 then e ⟨i, inside⟩ else 0
  bad _ := false
  base := 0
  len := 64
  offset := BitVec.ofNat 32 (slot * 64)
  resid := 64
  rw := rw

def sfsReaddir (p : Ptr) (slot : Nat) : Code Volume Entry := do
  let (result, t) ← sfsRequest p (entryUio (fun _ => 0) slot .UIO_READ)
  ofExcept result
  ensure (t.resid = 0) .shortEntry
  return Entry.ofBytes fun i => t.bytes i

def sfsWritedir (p : Ptr) (sd : Entry) (slot : Nat) : Code Volume Unit := do
  let (result, t) ← sfsRequest p (entryUio sd.toBytes slot .UIO_WRITE)
  ofExcept result
  ensure (t.resid = 0) .shortWrite

def sfsDirNentries (p : Ptr) : Code Volume Nat := do
  let sv ← svAt p
  ensure (sv.inode.type = SFS_TYPE_DIR) .notDirectory
  ensure (sv.inode.size.toNat % 64 = 0) .invalidSize
  return sv.inode.size.toNat / 64

/-- The name in an entry, with the null termination ensured. -/
def Entry.string (e : Entry) : List Byte := cstring (Function.update e.name 59 0)

/-- What `sfs_dir_findname` hands back: the slot and the inode of the name, and an empty slot. -/
structure Found where
  slot : Option (Nat × CUnsigned)
  emptyslot : Option Nat

/-- The loop, from slot `i` on. -/
def findFrom (p : Ptr) (name : Name) (found : Found) (i : Nat) : Nat → Code Volume Found
  | 0 => return found
  | left + 1 => do
    let tsd ← sfsReaddir p i
    if tsd.ino = SFS_NOINO then
      findFrom p name { found with emptyslot := some i } (i + 1) left
    else if tsd.string = name.val then
      ensure (found.slot = none) .nameTwice
      findFrom p name { found with slot := some (i, tsd.ino) } (i + 1) left
    else findFrom p name found (i + 1) left

/-- `ENOENT` is a result here as any other. -/
def sfsDirFindname (p : Ptr) (name : Name) : Code Volume Found := do
  findFrom p name ⟨none, none⟩ 0 (← sfsDirNentries p)

def sfsDirLink (p : Ptr) (name : Name) (ino : CUnsigned) : Code Volume Nat := do
  let found ← sfsDirFindname p name
  if found.slot.isSome = true then fail .EEXIST
  if SFS_NAMELEN < name.val.length + 1 then fail .ENAMETOOLONG
  let slot ← match found.emptyslot with
    | some slot => pure slot
    | none => sfsDirNentries p
  sfsWritedir p ⟨ino, strcpy 60 name.val⟩ slot
  return slot

def sfsDirUnlink (p : Ptr) (slot : Nat) : Code Volume Unit :=
  sfsWritedir p ⟨SFS_NOINO, fun _ => 0⟩ slot

/-- The vnode of a name, and the slot. -/
def sfsLookonce (p : Ptr) (name : Name) : Code Volume (Ptr × Nat) := do
  match (← sfsDirFindname p name).slot with
  | none => fail .ENOENT
  | some (slot, ino) =>
    let q ← sfsLoadvnode ino SFS_TYPE_INVAL
    ensure ((← svAt q).inode.linkcount ≠ 0) .linkCountZero
    return (q, slot)

def sfsMakeobj (type : BitVec 16) : Code Volume Ptr := do
  let ino ← sfsBalloc
  sfsLoadvnode ino type

/-! ### Vnode operations -/

/-- The link count changes, and the inode is dirty. -/
def setLinks (p : Ptr) (f : BitVec 16 → BitVec 16) : Code Volume Unit :=
  alterSv p fun sv => { sv with
    inode := { sv.inode with linkcount := f sv.inode.linkcount }, dirty := true }

def sfsCreat (p : Ptr) (name : Name) (excl : Bool) : Code Volume Ptr := do
  match (← sfsDirFindname p name).slot with
  | some (_, ino) =>
    if excl = true then fail .EEXIST
    sfsLoadvnode ino SFS_TYPE_INVAL
  | none =>
    let newguy ← sfsMakeobj SFS_TYPE_FILE
    match ← (sfsDirLink p name (← svAt newguy).ino).attempt with
    | .error result =>
      sfsDecref newguy
      fail result
    | .ok _ =>
      setLinks newguy (· + 1)
      return newguy

def sfsLink (dir : Ptr) (name : Name) (file : Ptr) : Code Volume Unit := do
  let _ ← sfsDirLink dir name (← svAt file).ino
  setLinks file (· + 1)

def sfsRemove (dir : Ptr) (name : Name) : Code Volume Unit := do
  let (victim, slot) ← sfsLookonce dir name
  let result ← (sfsDirUnlink dir slot).attempt
  if result.isOk = true then
    ensure (0 < (← svAt victim).inode.linkcount) .linkCount
    setLinks victim (· - 1)
  sfsDecref victim
  ofExcept result

/-- `sfs_rename` between the two labels: what is done while the file is held. -/
def renameHeld (dir : Ptr) (slot1 : Nat) (n2 : Name) (g1 : Ptr) : Code Volume Unit := do
  let slot2 ← sfsDirLink dir n2 (← svAt g1).ino
  setLinks g1 (· + 1)
  match ← (sfsDirUnlink dir slot1).attempt with
  | .ok _ =>
    ensure (0 < (← svAt g1).inode.linkcount) .linkCount
    setLinks g1 (· - 1)
  | .error result =>
    match ← (sfsDirUnlink dir slot2).attempt with
    | .error _ => Call.halt .cannotRecover
    | .ok _ =>
      alterSv g1 fun sv => { sv with
        inode := { sv.inode with linkcount := sv.inode.linkcount - 1 } }
      fail result

def sfsRename (d1 : Ptr) (n1 : Name) (d2 : Ptr) (n2 : Name) : Code Volume Unit := do
  ensure (d1 = d2) .renameAcross
  ensure ((← svAt d1).ino = SFS_ROOT_LOCATION) .renameNotRoot
  let (g1, slot1) ← sfsLookonce d1 n1
  ensure ((← svAt g1).inode.type = SFS_TYPE_FILE) .renameNotFile
  let result ← (renameHeld d1 slot1 n2 g1).attempt
  sfsDecref g1
  ofExcept result

/-- The name is copied into a buffer of `buflen` bytes. -/
def sfsLookparent (p : Ptr) (path : Name) (buflen : Nat) : Code Volume (Ptr × Name) := do
  if (← svAt p).inode.type ≠ SFS_TYPE_DIR then fail .ENOTDIR
  if buflen < path.val.length + 1 then fail .ENAMETOOLONG
  vnodeIncref p
  return (p, path)

def sfsLookup (p : Ptr) (path : Name) : Code Volume Ptr := do
  if (← svAt p).inode.type ≠ SFS_TYPE_DIR then fail .ENOTDIR
  let (final, _) ← sfsLookonce p path
  return final

/-! ### The function tables -/

def vopCreat (p : Ptr) (name : Name) (excl : Bool) : Code Volume Ptr :=
  vop p (fail .ENOTDIR) (sfsCreat p name excl)

def vopLink (dir : Ptr) (name : Name) (file : Ptr) : Code Volume Unit :=
  vop dir (fail .ENOTDIR) (sfsLink dir name file)

def vopRemove (dir : Ptr) (name : Name) : Code Volume Unit :=
  vop dir (fail .ENOTDIR) (sfsRemove dir name)

def vopRename (d1 : Ptr) (n1 : Name) (d2 : Ptr) (n2 : Name) : Code Volume Unit :=
  vop d1 (fail .ENOTDIR) (sfsRename d1 n1 d2 n2)

def vopLookup (p : Ptr) (path : Name) : Code Volume Ptr :=
  vop p (fail .ENOTDIR) (sfsLookup p path)

def vopLookparent (p : Ptr) (path : Name) (buflen : Nat) : Code Volume (Ptr × Name) :=
  vop p (fail .ENOTDIR) (sfsLookparent p path buflen)

/-- `VOP_READ` or `VOP_WRITE`, by the kind of the request. -/
def vopRequest (p : Ptr) (t : Transfer) : Code Volume (Except Errno Unit × Transfer) :=
  vop p (sfsRequest p t) (fail .EISDIR)

def vopClose (p : Ptr) : Code Volume Unit := vop p (vopFsync p) (vopFsync p)

end Os161.Sfs
