import Os161.Foundation.Memory
import Os161.Foundation.Transition
import Os161.Kern.Base

/-!
# The table of devices, `vfslist.c`

A device answers to its name, to its raw name, and while a file system is mounted on it to the
name of the volume. New devices are checked against all names in use; what is mounted later is
not. All four functions run under one lock, so a call is one step.
-/
namespace Os161.Vfs

open Foundation

/-- A C string, without its end. -/
abbrev CString := List Byte

/-- `struct knowndev`. With a file system comes the name of its volume, if it has one. -/
structure KnownDev where
  name : CString
  rawname : Option CString
  fs : Option (Option CString)
  deriving DecidableEq

abbrev KnownDevs := List KnownDev

namespace KnownDev

/-- `FSOP_GETVOLNAME`, if there is a file system. -/
def volname (kd : KnownDev) : Option CString := kd.fs.join

/-- The names that the device answers to. -/
def names (kd : KnownDev) : List CString := kd.name :: (kd.rawname.toList ++ kd.volname.toList)

end KnownDev

variable {knowndevs : KnownDevs} {fs : Option (Option CString)}

/-- `mkrawname`: the name and `raw`. -/
def mkrawname (name : CString) : CString := name ++ [0x72, 0x61, 0x77]

/-- `samestring`; NULL is the same as nothing. -/
def samestring (a b : Option CString) : Bool := a.isSome && a == b

def samestring3 (a b c d : Option CString) : Bool :=
  samestring a b || samestring a c || samestring a d

def badnames (knowndevs : KnownDevs) (n1 n2 n3 : Option CString) : Bool :=
  knowndevs.any fun kd =>
    (kd.fs.isSome && samestring3 kd.volname n1 n2 n3) ||
      samestring3 kd.rawname n1 n2 n3 || samestring3 (some kd.name) n1 n2 n3

/-- `vfs_doadd`. `memory` says whether the strings and structures can be made, `room` whether
the array can grow. -/
def doadd (dname : CString) (mountable : Bool) (fs : Option (Option CString)) (memory room : Bool)
    (knowndevs : KnownDevs) : Errno × KnownDevs :=
  if memory then
    let rawname := if mountable then some (mkrawname dname) else none
    if badnames knowndevs (some dname) rawname fs.join then (.EEXIST, knowndevs)
    else if room then (.success, knowndevs ++ [⟨dname, rawname, fs⟩])
    else (.ENOMEM, knowndevs)
  else (.ENOMEM, knowndevs)

def adddev (devname : CString) (mountable memory room : Bool) : KnownDevs → Errno × KnownDevs :=
  doadd devname mountable none memory room

def addfs (devname : CString) (volname : Option CString) (memory room : Bool) :
    KnownDevs → Errno × KnownDevs :=
  doadd devname false (some volname) memory room

/-- `findmount`: the first mountable device of the name. -/
def findmount (devname : CString) (knowndevs : KnownDevs) : Option Nat :=
  knowndevs.findIdx? fun kd => kd.rawname.isSome && devname == kd.name

def setfs (i : Nat) (fs : Option (Option CString)) (knowndevs : KnownDevs) : KnownDevs :=
  knowndevs.modify i fun kd => { kd with fs := fs }

def mounted (i : Nat) (knowndevs : KnownDevs) : Bool :=
  (knowndevs[i]?.bind (·.fs)).isSome

/-- `vfs_mount`, with what `mountfunc` returns. -/
def mount (devname : CString) (mountfunc : Except Errno (Option CString)) (knowndevs : KnownDevs) :
    Errno × KnownDevs :=
  match findmount devname knowndevs with
  | none => (.ENODEV, knowndevs)
  | some i =>
    if mounted i knowndevs then (.EBUSY, knowndevs)
    else match mountfunc with
      | .error e => (e, knowndevs)
      | .ok volname => (.success, setfs i (some volname) knowndevs)

/-- `vfs_unmount`, with what `FSOP_SYNC` and `FSOP_UNMOUNT` return. -/
def unmount (devname : CString) (sync result : Errno) (knowndevs : KnownDevs) :
    Errno × KnownDevs :=
  match findmount devname knowndevs with
  | none => (.ENODEV, knowndevs)
  | some i =>
    if mounted i knowndevs then
      if sync ≠ .success then (sync, knowndevs)
      else if result ≠ .success then (result, knowndevs)
      else (.success, setfs i none knowndevs)
    else (.EINVAL, knowndevs)

inductive DevCall where
  | adddev (devname : CString) (mountable memory room : Bool)
  | addfs (devname : CString) (volname : Option CString) (memory room : Bool)
  | mount (devname : CString) (mountfunc : Except Errno (Option CString))
  | unmount (devname : CString) (sync result : Errno)

def DevCall.perform : DevCall → KnownDevs → Errno × KnownDevs
  | .adddev devname mountable memory room => Vfs.adddev devname mountable memory room
  | .addfs devname volname memory room => Vfs.addfs devname volname memory room
  | .mount devname mountfunc => Vfs.mount devname mountfunc
  | .unmount devname sync result => Vfs.unmount devname sync result

def devNext (knowndevs : KnownDevs) (call : DevCall) : Option KnownDevs :=
  some (call.perform knowndevs).2

/-- No name belongs to two devices. -/
def Unambiguous (knowndevs : KnownDevs) : Prop :=
  ∀ (i j : Nat) (a b : KnownDev), knowndevs[i]? = some a → knowndevs[j]? = some b →
    ∀ name, name ∈ a.names → name ∈ b.names → i = j

/-- A volume that gets mounted has a name that no other device has. -/
def DevCall.Safe (knowndevs : KnownDevs) (call : DevCall) : Prop :=
  ∀ devname volname i, call = .mount devname (.ok (some volname)) →
    findmount devname knowndevs = some i → mounted i knowndevs = false →
      ∀ (j : Nat) (b : KnownDev), knowndevs[j]? = some b → volname ∈ b.names → j = i

/-! ### Names -/

private theorem samestring3_eq_false {a b c d : Option CString} :
    samestring3 a b c d = false ↔ ∀ name, a = some name → b ≠ some name ∧ c ≠ some name ∧
      d ≠ some name := by
  cases a with
  | none => simp [samestring3, samestring]
  | some name =>
    simp only [samestring3, samestring, Option.isSome_some, Bool.true_and, Bool.or_eq_false_iff,
      beq_eq_false_iff_ne, Option.some.injEq, forall_eq', and_assoc]
    exact and_congr ne_comm (and_congr ne_comm ne_comm)

theorem mem_names {kd : KnownDev} {name : CString} :
    name ∈ kd.names ↔ kd.name = name ∨ kd.rawname = some name ∨ kd.volname = some name := by
  simp [KnownDev.names, eq_comm, Option.mem_toList]

/-- `badnames` looks at all names of all devices. -/
theorem badnames_eq_false {n1 n2 n3 : Option CString} :
    badnames knowndevs n1 n2 n3 = false ↔
      ∀ kd ∈ knowndevs, ∀ name ∈ kd.names, n1 ≠ some name ∧ n2 ≠ some name ∧ n3 ≠ some name := by
  rw [badnames, List.any_eq_false]
  refine forall_congr' fun kd => imp_congr_right fun _ => ?_
  -- a file system is only asked for its name if there is one
  have volume : (kd.fs.isSome && samestring3 kd.volname n1 n2 n3) =
      samestring3 kd.volname n1 n2 n3 := by
    cases mounted : kd.fs with
    | none => simp [KnownDev.volname, mounted, samestring3, samestring]
    | some fs => rfl
  rw [volume, Bool.not_eq_true, Bool.or_eq_false_iff, Bool.or_eq_false_iff, samestring3_eq_false,
    samestring3_eq_false, samestring3_eq_false]
  simp only [mem_names, Option.some.injEq]
  constructor
  · rintro ⟨⟨volume, raw⟩, plain⟩ name (here | here | here)
    · exact plain name here
    · exact raw name here
    · exact volume name here
  · intro all
    exact ⟨⟨fun name here => all name (.inr (.inr here)),
      fun name here => all name (.inr (.inl here))⟩, fun name here => all name (.inl here)⟩

/-! ### Steps -/

/-- The new entry is the last one. -/
theorem getElem?_added {new kd : KnownDev} {k : Nat} (here : (knowndevs ++ [new])[k]? = some kd) :
    knowndevs[k]? = some kd ∨ (k = knowndevs.length ∧ kd = new) := by
  rw [List.getElem?_append] at here
  split at here
  · exact .inl here
  have bound := (List.getElem?_eq_some_iff.mp here).1
  rw [List.length_singleton] at bound
  have zero : k - knowndevs.length = 0 := by omega
  rw [zero] at here
  exact .inr ⟨by omega, (Option.some.inj here).symm⟩

theorem Unambiguous.add (unambiguous : Unambiguous knowndevs) {new : KnownDev}
    (fresh : ∀ kd ∈ knowndevs, ∀ name ∈ kd.names, name ∉ new.names) :
    Unambiguous (knowndevs ++ [new]) := by
  intro i j a b hereA hereB name inA inB
  rcases getElem?_added hereA with oldA | ⟨lastA, rfl⟩ <;>
    rcases getElem?_added hereB with oldB | ⟨lastB, same⟩
  · exact unambiguous i j a b oldA oldB name inA inB
  · exact absurd (same ▸ inB) (fresh a (List.mem_of_getElem? oldA) name inA)
  · exact absurd inA (fresh b (List.mem_of_getElem? oldB) name inB)
  · rw [lastA, lastB]

theorem getElem?_setfs {i j : Nat} {a : KnownDev} (here : (setfs i fs knowndevs)[j]? = some a) :
    ∃ b, knowndevs[j]? = some b ∧ ((j = i ∧ a = { b with fs := fs }) ∨ (j ≠ i ∧ a = b)) := by
  rw [setfs, List.getElem?_modify, Option.map_eq_map, Option.map_eq_some_iff] at here
  obtain ⟨b, found, rfl⟩ := here
  refine ⟨b, found, ?_⟩
  by_cases same : i = j
  · exact .inl ⟨same.symm, if_pos same⟩
  · exact .inr ⟨fun wrong => same wrong.symm, if_neg same⟩

private theorem getElem?_setfs_self {i : Nat} {b : KnownDev} (found : knowndevs[i]? = some b) :
    (setfs i fs knowndevs)[i]? = some { b with fs := fs } := by
  rw [setfs, List.getElem?_modify, found, Option.map_eq_map, Option.map_some, if_pos rfl]

private theorem getElem?_setfs_of_ne {i j : Nat} {b : KnownDev} (found : knowndevs[j]? = some b)
    (other : j ≠ i) : (setfs i fs knowndevs)[j]? = some b := by
  rw [setfs, List.getElem?_modify, found, Option.map_eq_map, Option.map_some,
    if_neg fun same => other same.symm]

/-- Names that are dropped can be used again. -/
theorem Unambiguous.setfs_none (unambiguous : Unambiguous knowndevs) (i : Nat) :
    Unambiguous (setfs i none knowndevs) := by
  intro j k a b hereA hereB name inA inB
  have fewer {l : Nat} {kd : KnownDev} (here : (setfs i none knowndevs)[l]? = some kd)
      (member : name ∈ kd.names) : ∃ old, knowndevs[l]? = some old ∧ name ∈ old.names := by
    obtain ⟨old, found, ⟨-, rfl⟩ | ⟨-, rfl⟩⟩ := getElem?_setfs here
    · refine ⟨old, found, ?_⟩
      rw [mem_names] at member ⊢
      rcases member with plain | raw | volume
      · exact .inl plain
      · exact .inr (.inl raw)
      · cases volume
    · exact ⟨kd, found, member⟩
  obtain ⟨a', hereA, inA⟩ := fewer hereA inA
  obtain ⟨b', hereB, inB⟩ := fewer hereB inB
  exact unambiguous j k a' b' hereA hereB name inA inB

/-- A volume may be mounted if the other devices do not have its name. -/
theorem unambiguous_setfs_some (unambiguous : Unambiguous knowndevs) {i : Nat} {kd : KnownDev}
    (found : knowndevs[i]? = some kd) (volname : Option CString) :
    Unambiguous (setfs i (some volname) knowndevs) ↔
      ∀ name, volname = some name → ∀ (j : Nat) (b : KnownDev), knowndevs[j]? = some b →
        name ∈ b.names → j = i := by
  constructor
  · intro after name named j b here member
    by_contra other
    have fresh : name ∈ KnownDev.names { kd with fs := some volname } :=
      mem_names.mpr (.inr (.inr named))
    exact other (after j i b _ (getElem?_setfs_of_ne here other) (getElem?_setfs_self found) name
      member fresh)
  intro free j k a b hereA hereB name inA inB
  -- a name is an old one of the device, or that of the volume
  have origin {l : Nat} {d : KnownDev} (here : (setfs i (some volname) knowndevs)[l]? = some d)
      (member : name ∈ d.names) :
      (∃ old, knowndevs[l]? = some old ∧ name ∈ old.names) ∨ (l = i ∧ volname = some name) := by
    obtain ⟨old, before, ⟨place, rfl⟩ | ⟨-, rfl⟩⟩ := getElem?_setfs here
    · rw [mem_names] at member
      rcases member with plain | raw | volume
      · exact .inl ⟨old, before, mem_names.mpr (.inl plain)⟩
      · exact .inl ⟨old, before, mem_names.mpr (.inr (.inl raw))⟩
      · exact .inr ⟨place, volume⟩
    · exact .inl ⟨d, before, member⟩
  rcases origin hereA inA with ⟨a', oldA, memA⟩ | ⟨rfl, named⟩ <;>
    rcases origin hereB inB with ⟨b', oldB, memB⟩ | ⟨rfl, named'⟩
  · exact unambiguous j k a' b' oldA oldB name memA memB
  · exact free name named' j a' oldA memA
  · exact (free name named k b' oldB memB).symm
  · rfl

private theorem unambiguous_doadd (unambiguous : Unambiguous knowndevs) (dname : CString)
    (mountable : Bool) (fs : Option (Option CString)) (memory room : Bool) :
    Unambiguous (doadd dname mountable fs memory room knowndevs).2 := by
  unfold doadd
  generalize (if mountable then some (mkrawname dname) else none) = rawname
  split
  next =>
    dsimp only
    split
    next => exact unambiguous
    next good =>
      split
      next =>
        refine unambiguous.add fun kd member name here new => ?_
        have apart := badnames_eq_false.mp (by simpa using good) kd member name here
        rcases mem_names.mp new with plain | raw | volume
        · exact apart.1 (congrArg some plain)
        · exact apart.2.1 raw
        · exact apart.2.2 volume
      next => exact unambiguous
  next => exact unambiguous

private theorem findmount_some {devname : CString} {i : Nat}
    (found : findmount devname knowndevs = some i) : ∃ kd, knowndevs[i]? = some kd := by
  obtain ⟨inside, -⟩ := List.findIdx?_eq_some_iff_getElem.mp found
  exact ⟨_, List.getElem?_eq_getElem inside⟩

/-- A call keeps the names apart exactly if it is safe. -/
theorem unambiguous_perform (unambiguous : Unambiguous knowndevs) (call : DevCall) :
    Unambiguous (call.perform knowndevs).2 ↔ call.Safe knowndevs := by
  cases call with
  | adddev devname mountable memory room =>
    exact iff_of_true (unambiguous_doadd unambiguous _ _ _ _ _) nofun
  | addfs devname volname memory room =>
    exact iff_of_true (unambiguous_doadd unambiguous _ _ _ _ _) nofun
  | unmount devname sync result =>
    refine iff_of_true ?_ nofun
    unfold DevCall.perform unmount
    dsimp only
    split
    · exact unambiguous
    split
    · split
      · exact unambiguous
      split
      · exact unambiguous
      · exact unambiguous.setfs_none _
    · exact unambiguous
  | mount devname mountfunc =>
    unfold DevCall.perform mount
    dsimp only
    split
    next missing =>
      refine iff_of_true unambiguous ?_
      rintro _ _ i same found
      cases same
      exact absurd (missing.symm.trans found) nofun
    next i found =>
      split
      next busy =>
        refine iff_of_true unambiguous ?_
        rintro _ _ k same found' free
        cases same
        cases found.symm.trans found'
        exact absurd (busy.symm.trans free) nofun
      next free =>
        split
        next => exact iff_of_true unambiguous nofun
        next volname =>
          obtain ⟨kd, here⟩ := findmount_some found
          rw [unambiguous_setfs_some unambiguous here volname]
          constructor
          · rintro apart _ name k same found' -
            cases same
            cases found.symm.trans found'
            exact apart name rfl
          · rintro safe name rfl
            exact safe devname name i rfl found (by simpa using free)

/-- At every moment no name belongs to two devices, exactly if no volume gets mounted whose name
another device has. -/
theorem unambiguous_iff {history : List (KnownDevs × DevCall)} {knowndevs : KnownDevs}
    (run : Run (Computes devNext) [] history knowndevs) :
    (∀ t ∈ visited history knowndevs, Unambiguous t) ↔
      ∀ taken ∈ history, taken.2.Safe taken.1 := by
  refine run.good_iff (fun _ => True) trivial (fun i _ a _ here => ?_) (fun _ _ _ _ _ => trivial)
    fun s call t _ unambiguous stepped => ?_
  · cases here
  · cases stepped
    exact unambiguous_perform unambiguous call

/-- `lhd0`, `lhd1` and the names of two volumes. -/
def lhd0 : CString := [0x6c, 0x68, 0x64, 0x30]

def lhd1 : CString := [0x6c, 0x68, 0x64, 0x31]

def boot : CString := [0x62, 0x6f, 0x6f, 0x74]

def home : CString := [0x68, 0x6f, 0x6d, 0x65]

def disk (name : CString) (fs : Option (Option CString)) : KnownDev :=
  ⟨name, some (mkrawname name), fs⟩

/-- Two disks are found, and a volume is mounted on each. -/
theorem run_disks (first second : CString) :
    Run (Computes devNext) [] [([disk lhd0 (some (some first)), disk lhd1 none],
        .mount lhd1 (.ok (some second))),
      ([disk lhd0 none, disk lhd1 none], .mount lhd0 (.ok (some first))),
      ([disk lhd0 none], .adddev lhd1 true true true), ([], .adddev lhd0 true true true)]
      [disk lhd0 (some (some first)), disk lhd1 (some (some second))] :=
  .next (.next (.next (.next .start rfl) rfl) rfl) rfl

theorem unambiguous_disks :
    Unambiguous [disk lhd0 (some (some boot)), disk lhd1 (some (some home))] := by
  refine (unambiguous_iff (run_disks boot home)).mpr ?_ _ List.mem_cons_self
  refine List.forall_mem_cons.mpr ⟨?_, List.forall_mem_cons.mpr ⟨?_, List.forall_mem_cons.mpr
    ⟨nofun, List.forall_mem_singleton.mpr nofun⟩⟩⟩
  · rintro _ _ i same found - j b here member
    cases same
    cases (show findmount lhd1 [disk lhd0 (some (some boot)), disk lhd1 none] = some 1 by
      decide).symm.trans found
    match j with
    | 0 =>
      cases here
      exact absurd member (by decide)
    | 1 => rfl
    | j + 2 => cases here
  rintro _ _ i same found - j b here member
  cases same
  cases (show findmount lhd0 [disk lhd0 none, disk lhd1 none] = some 0 by decide).symm.trans found
  match j with
  | 0 => rfl
  | 1 =>
    cases here
    exact absurd member (by decide)
  | j + 2 => cases here

/-- Two volumes of one name: both disks answer to it. -/
theorem ambiguous_disks :
    ∃ history, Run (Computes devNext) [] history
        [disk lhd0 (some (some boot)), disk lhd1 (some (some boot))] ∧
      ¬ Unambiguous [disk lhd0 (some (some boot)), disk lhd1 (some (some boot))] := by
  refine ⟨_, run_disks boot boot, fun wrong => ?_⟩
  exact absurd (wrong 0 1 _ _ rfl rfl boot (by decide) (by decide)) (by decide)

/-! ### `vfs_getroot` -/

/-- What a name leads to: the root of the file system of an entry, or the entry's own vnode. -/
inductive Found where
  | root (kd : KnownDev)
  | vnode (kd : KnownDev)

/-- `vfs_getroot` on the entries and whether their `kd_device` is set; `none` where an assertion
stops the kernel. -/
def getroot (devname : CString) : List (KnownDev × Bool) → Option (Except Errno Found)
  | [] => some (.error .ENODEV)
  | (kd, device) :: rest =>
    if kd.fs.isSome ∧ (kd.name = devname ∨ kd.volname = some devname) then some (.ok (.root kd))
    else if kd.fs = none ∧ kd.rawname.isSome ∧ kd.name = devname then some (.error .ENxIo)
    else if kd.name = devname then
      if kd.fs = none ∧ kd.rawname = none ∧ device then some (.ok (.vnode kd)) else none
    else if kd.rawname = some devname then
      if device then some (.ok (.vnode kd)) else none
    else getroot devname rest

/-- `vfs_adddev` is given a device, `vfs_addfs` passes NULL. -/
def DevCall.device : DevCall → Bool
  | .adddev .. => true
  | _ => false

/-- A call on the table with its column `kd_device`, in which only a new entry is set. -/
def entriesNext (entries : List (KnownDev × Bool)) (call : DevCall) :
    Option (List (KnownDev × Bool)) :=
  some ((call.perform (entries.map Prod.fst)).2.zip (entries.map Prod.snd ++ [call.device]))

/-- A device is there unless the entry has a file system for good. -/
def Wired (e : KnownDev × Bool) : Prop :=
  (∀ raw, e.1.rawname = some raw → raw = mkrawname e.1.name ∧ e.2 = true) ∧
    (e.1.fs = none → e.2 = true)

/-- An entry keeps its names, and loses its file system only if it can be mounted. -/
def KnownDev.Becomes (b a : KnownDev) : Prop :=
  a.name = b.name ∧ a.rawname = b.rawname ∧ (a.fs = none → b.fs = none ∨ b.rawname.isSome)

theorem KnownDev.becomes_self (kd : KnownDev) : kd.Becomes kd := ⟨rfl, rfl, .inl⟩

/-- Where the entries come from. -/
theorem perform_origin {call : DevCall} {j : Nat} {a : KnownDev}
    (here : (call.perform knowndevs).2[j]? = some a) :
    (∃ b, knowndevs[j]? = some b ∧ b.Becomes a) ∨
      (j = knowndevs.length ∧ Wired (a, call.device)) := by
  have added {new : KnownDev} (here : (knowndevs ++ [new])[j]? = some a)
      (wired : Wired (new, call.device)) : (∃ b, knowndevs[j]? = some b ∧ b.Becomes a) ∨
        (j = knowndevs.length ∧ Wired (a, call.device)) := by
    rcases getElem?_added here with old | ⟨last, rfl⟩
    · exact .inl ⟨a, old, a.becomes_self⟩
    · exact .inr ⟨last, wired⟩
  have moved {i : Nat} {devname : CString} {fs : Option (Option CString)}
      (found : findmount devname knowndevs = some i) (here : (setfs i fs knowndevs)[j]? = some a) :
      ∃ b, knowndevs[j]? = some b ∧ b.Becomes a := by
    obtain ⟨b, old, ⟨rfl, rfl⟩ | ⟨-, rfl⟩⟩ := getElem?_setfs here
    · -- only a device with a raw name is found
      obtain ⟨inside, fits, -⟩ := List.findIdx?_eq_some_iff_getElem.mp found
      cases old.symm.trans (List.getElem?_eq_getElem inside)
      exact ⟨_, old, rfl, rfl, fun _ => .inr (Bool.and_eq_true_iff.mp fits).1⟩
    · exact ⟨a, old, a.becomes_self⟩
  cases call <;> simp only [DevCall.perform, adddev, addfs, doadd, mount, unmount,
    Bool.false_eq_true, if_false] at here
  all_goals repeat' split at here
  all_goals try exact .inl ⟨a, here, a.becomes_self⟩
  · exact added here (by simp [Wired, DevCall.device])
  · exact added here (by simp [Wired, DevCall.device])
  · exact added here (by simp [Wired])
  · exact .inl (moved ‹_› here)
  · exact .inl (moved ‹_› here)

private theorem wired_next {entries after : List (KnownDev × Bool)} {call : DevCall}
    (wired : ∀ e ∈ entries, Wired e) (taken : entriesNext entries call = some after) :
    ∀ e ∈ after, Wired e := by
  cases taken
  rintro ⟨a, d⟩ member
  obtain ⟨j, here⟩ := List.mem_iff_getElem?.mp member
  obtain ⟨inside, column⟩ := List.getElem?_zip_eq_some.mp here
  rcases perform_origin inside with ⟨b, old, name, raw, lost⟩ | ⟨rfl, new⟩
  · rw [List.getElem?_map, Option.map_eq_some_iff] at old
    obtain ⟨⟨b', d'⟩, found, rfl⟩ := old
    have bound := (List.getElem?_eq_some_iff.mp found).1
    rw [List.getElem?_append_left (by simpa using bound), List.getElem?_map, found] at column
    cases column
    obtain ⟨named, bare⟩ := wired _ (List.mem_of_getElem? found)
    refine ⟨?_, fun none => (lost none).elim bare fun mountable => ?_⟩
    · rw [name, raw]
      exact named
    · obtain ⟨raw', same⟩ := Option.isSome_iff_exists.mp mountable
      exact (named raw' same).2
  · simp at column
    cases column
    exact new

section

variable {s : CString} {kd : KnownDev} {device : Bool} {entries rest : List (KnownDev × Bool)}

theorem getroot_past (other : s ∉ kd.names) :
    getroot s ((kd, device) :: rest) = getroot s rest := by
  simp only [mem_names, not_or] at other
  simp [getroot, other]

/-- The loop ends at an entry that has the name. -/
theorem getroot_here (named : s ∈ kd.names) :
    getroot s ((kd, device) :: rest) = getroot s [(kd, device)] := by
  have volume (same : kd.volname = some s) : kd.fs.isSome := by
    cases mounted : kd.fs with
    | none => simp [KnownDev.volname, mounted] at same
    | some fs => rfl
  unfold getroot
  repeat' split
  all_goals try rfl
  next no _ other raw =>
    rcases mem_names.mp named with plain | raw' | same
    · exact absurd plain other
    · exact absurd raw' raw
    · exact absurd ⟨volume same, .inr same⟩ no

private theorem getroot_none (other : ∀ e ∈ entries, s ∉ e.1.names) :
    getroot s entries = some (.error .ENODEV) := by
  induction entries with
  | nil => rfl
  | cons e rest ih =>
    rw [getroot_past (other e List.mem_cons_self)]
    exact ih fun e' member => other e' (List.mem_cons_of_mem e member)

/-- The one entry that has the name decides. -/
theorem getroot_only (member : (kd, device) ∈ entries) (named : s ∈ kd.names)
    (only : ∀ e ∈ entries, s ∈ e.1.names → e = (kd, device)) :
    getroot s entries = getroot s [(kd, device)] := by
  induction entries with
  | nil => cases member
  | cons e rest ih =>
    by_cases here : s ∈ e.1.names
    · cases only e List.mem_cons_self here
      exact getroot_here here
    rw [getroot_past here]
    refine ih ((List.mem_cons.mp member).resolve_left ?_) fun e' member' =>
      only e' (List.mem_cons_of_mem e member')
    rintro rfl
    exact here named

theorem Unambiguous.only (apart : Unambiguous (entries.map Prod.fst))
    (member : (kd, device) ∈ entries) (named : s ∈ kd.names) :
    ∀ e ∈ entries, s ∈ e.1.names → e = (kd, device) := by
  intro e member' named'
  obtain ⟨i, here⟩ := List.mem_iff_getElem?.mp member
  obtain ⟨j, here'⟩ := List.mem_iff_getElem?.mp member'
  have same := apart j i e.1 kd (by simp [here']) (by simp [here]) s named' named
  rw [same, here] at here'
  exact (Option.some.inj here').symm

end

/-- On a table that the calls have built, with no name in two entries, the rules for names hold,
whatever the order of the entries. -/
theorem getroot_rules {history : List (List (KnownDev × Bool) × DevCall)}
    {entries : List (KnownDev × Bool)} (run : Run (Computes entriesNext) [] history entries)
    (apart : Unambiguous (entries.map Prod.fst)) (s : CString) :
    (∀ kd device, (kd, device) ∈ entries →
      (kd.fs.isSome → kd.name = s ∨ kd.volname = some s →
        getroot s entries = some (.ok (.root kd))) ∧
      (kd.fs = none → kd.rawname.isSome → kd.name = s →
        getroot s entries = some (.error .ENxIo)) ∧
      (kd.fs = none → kd.rawname = none → kd.name = s →
        getroot s entries = some (.ok (.vnode kd))) ∧
      (kd.rawname = some s → kd.volname ≠ some s →
        getroot s entries = some (.ok (.vnode kd)))) ∧
    ((∀ e ∈ entries, s ∉ e.1.names) → getroot s entries = some (.error .ENODEV)) ∧
    getroot s entries ≠ none ∧
    ∀ other : List (KnownDev × Bool), other.Perm entries → getroot s other = getroot s entries := by
  have wired : ∀ e ∈ entries, Wired e :=
    run.invariant (fun _ member => absurd member List.not_mem_nil)
      fun _ _ _ wired taken => wired_next wired taken
  refine ⟨fun kd device member => ?_, getroot_none, ?_⟩
  · obtain ⟨raw, bare⟩ := wired _ member
    have only (named : s ∈ kd.names) := getroot_only member named (apart.only member named)
    refine ⟨fun mounted same => ?_, fun free mountable same => ?_, fun free fixed same => ?_,
      fun same other => ?_⟩
    · rw [only (mem_names.mpr (same.imp_right .inr))]
      simp [getroot, mounted, same]
    · rw [only (mem_names.mpr (.inl same))]
      simp [getroot, free, mountable, same]
    · rw [only (mem_names.mpr (.inl same))]
      simp_all [getroot]
    rw [only (mem_names.mpr (.inr (.inl same)))]
    obtain ⟨rfl, set⟩ := raw s same
    have longer : kd.name ≠ mkrawname kd.name := by simp [mkrawname]
    simp only at set
    simp [getroot, same, other, longer, set]
  by_cases none : ∀ e ∈ entries, s ∉ e.1.names
  · refine ⟨by simp [getroot_none none], fun other perm => ?_⟩
    rw [getroot_none none, getroot_none fun e member => none e (perm.mem_iff.mp member)]
  simp only [not_forall, not_not] at none
  obtain ⟨⟨kd, device⟩, member, named⟩ := none
  have only := apart.only member named
  rw [getroot_only member named only]
  refine ⟨?_, fun other perm => getroot_only (perm.mem_iff.mpr member) named
    fun e member' => only e (perm.mem_iff.mp member')⟩
  obtain ⟨raw, bare⟩ := wired _ member
  simp only [getroot]
  repeat' split
  all_goals simp_all

theorem unambiguous_single (kd : KnownDev) : Unambiguous [kd] := by
  intro i j a b hereA hereB
  have boundA := (List.getElem?_eq_some_iff.mp hereA).1
  have boundB := (List.getElem?_eq_some_iff.mp hereB).1
  simp only [List.length_singleton] at boundA boundB
  omega

/-- Of two disks the second has a volume. -/
def twoDisks : List (KnownDev × Bool) :=
  [(disk lhd0 none, true), (disk lhd1 (some (some home)), true)]

theorem getroot_rules_disks :
    getroot lhd0 twoDisks = some (.error .ENxIo) ∧
      getroot (mkrawname lhd0) twoDisks = some (.ok (.vnode (disk lhd0 none))) ∧
      getroot home twoDisks = some (.ok (.root (disk lhd1 (some (some home))))) := by
  have run : Run (Computes entriesNext) []
      [([(disk lhd0 none, true), (disk lhd1 none, true)], .mount lhd1 (.ok (some home))),
        ([(disk lhd0 none, true)], .adddev lhd1 true true true), ([], .adddev lhd0 true true true)]
      twoDisks := .next (.next (.next .start rfl) rfl) rfl
  have apart : Unambiguous (twoDisks.map Prod.fst) :=
    (unambiguous_single (disk lhd0 none)).add (by decide)
  have first := ((getroot_rules run apart lhd0).1 _ _ (List.mem_cons_self ..)).2.1 rfl rfl rfl
  have raw := ((getroot_rules run apart (mkrawname lhd0)).1 _ _ (List.mem_cons_self ..)).2.2.2 rfl
  have second := ((getroot_rules run apart home).1 _ _ (.tail _ (.head _))).1 rfl
  exact ⟨first, raw (by decide), second (.inr rfl)⟩

/-- A volume called like the raw device hides it. -/
theorem getroot_raw_hidden :
    ∃ history kd, Run (Computes entriesNext) [] history [(kd, true)] ∧ Unambiguous [kd] ∧
      kd.rawname = some (mkrawname lhd0) ∧
      getroot (mkrawname lhd0) [(kd, true)] = some (.ok (.root kd)) :=
  ⟨[([(disk lhd0 none, true)], .mount lhd0 (.ok (some (mkrawname lhd0)))),
    ([], .adddev lhd0 true true true)], disk lhd0 (some (some (mkrawname lhd0))),
    .next (.next .start rfl) rfl, unambiguous_single _, rfl, by rw [getroot, if_pos (by decide)]⟩

end Os161.Vfs
