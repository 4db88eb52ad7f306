import Os161.Sfs.Accounting

/-!
# The directory as a map

As long as only regular files are linked, the slots of the root directory are a map from names to
inodes. Each operation is the operation on maps that it is for, or it fails and the map stays as it
was; the link counts are the numbers of slots.
-/
namespace Os161.Sfs

open Foundation Vfs
open Function (update_of_ne update_self)

/-- No name leads to the root directory. -/
def Volume.Unnamed (s : Volume) : Prop := ∀ name, s.names name ≠ some SFS_ROOT_LOCATION

/-- The slots that are in use have the names of the map, each of them once, and the link counts are
right. -/
structure NameTable (s : Volume) : Prop where
  map : ∀ name ino, s.names name = some ino ↔ ∃ k, s.rootNode.Names k name.val ino
  once : ∀ k k' name ino ino', s.rootNode.Names k name ino → s.rootNode.Names k' name ino' → k = k'
  short : ∀ k name ino, s.rootNode.Names k name ino → name.length < SFS_NAMELEN ∧ 0 ∉ name
  counts : ∀ ino, s.Live ino → (s.nodeOf ino).linkcount.toNat =
    s.rootNode.links ino + if ino = SFS_ROOT_LOCATION then 1 else 0
  whole : s.rootNode.size.toNat % 64 = 0

/-- The errors of an operation that makes an entry: those about the name, and those of a disk or a
directory that is full. -/
def EntryError (s : Volume) (full : Prop) (e : Errno) : Prop :=
  e = .EEXIST ∨ e = .ENAMETOOLONG ∨ (e = .ENOSPC ∧ full) ∨ (e = .EINVAL ∧ s.rootNode.slots = 1144)

/-- The errors with which an operation on names can fail and leave the volume `t`. -/
def Request.Errors (s t : Volume) (e : Errno) : Request → Prop
  | creat dir name _ => EntryError s (Crowded (creatEntry dir name) s) e
  | link .. => EntryError s t.Full e
  | rename dir n1 n2 => e = .ENOENT ∨ EntryError s (Crowded (renameEntry dir n1 n2) s) e
  | _ => e = .ENOENT

section

variable {v : View} {s : Volume}

theorem Shows.entryError (shows : Shows v s) (name : Name) {full : Prop} {e : Errno}
    (wrong : LinkError v.files name full e) : EntryError s full e := by
  rcases wrong with ⟨rfl, -⟩ | ⟨rfl, -⟩ | crowded | ⟨rfl, n, root, slots⟩
  · exact .inl rfl
  · exact .inr (.inl rfl)
  · exact .inr (.inr (.inl crowded))
  · exact .inr (.inr (.inr ⟨rfl, by rw [Volume.rootNode, shows.nodeOf root, slots]⟩))

theorem Shows.nameTable (shows : Shows v s) (sound : Sound v.files) : NameTable s := by
  obtain ⟨n, indexed⟩ := id sound
  have root := shows.rootNode indexed.listed
  constructor
  · intro name ino
    rw [Volume.names, root, indexed.listed.lookup_eq_some]
  · rw [root]
    exact indexed.listed.unique
  · rintro k name ino ⟨-, -, -, rfl⟩
    exact ⟨Entry.length_string _, zero_notMem_cstring _⟩
  · intro ino live
    have known : (v.files ino).isSome := (shows.live_iff sound).mpr live
    obtain ⟨m, known⟩ := Option.isSome_iff_exists.mp known
    rw [shows.nodeOf known, root]
    exact sound.links known indexed.listed.root
  · rw [root]
    exact indexed.listed.whole

end

namespace Session

/-- The request does not link a directory. -/
def PlainLink (w : Session) : Request → Prop
  | .link _ _ file => ∀ ino ∈ w.volume.number file, (w.volume.nodeOf ino).type = SFS_TYPE_FILE
  | _ => True

section

variable {w : Session} {v : View} {H : Halt → Prop} (good : w.Good v)

include good

theorem Good.names : w.volume.names = directory v.files := good.shows.names good.sound

/-- A new file is not the root. -/
theorem Good.unnamed_creat {dir : Ptr} (held : 0 < w.held dir) (name : Name) (excl : Bool)
    (unnamed : w.volume.Unnamed) :
    (Request.creat dir name excl).code.Ensures H w.volume (fun _ t => t.Unnamed)
      (fun _ _ => True) := by
  rw [Request.code, Call.ensures_bind]
  refine good.dirop held (fun root => ?_) trivial
  refine (good.shows.sfsCreat root good.sound name excl).mono ?_ fun _ _ _ => trivial
  rintro p t ⟨A', ino, sound, after, -, found⟩
  have names : t.names = directory A' := after.names sound
  have before := good.names
  intro other
  rw [names]
  rcases found with ⟨-, -, rfl⟩ | ⟨-, -, dead, same, -⟩
  · rw [← before]
    exact unnamed other
  rw [same]
  by_cases here : other = name
  · rw [here, update_self]
    intro wrong
    obtain ⟨n, indexed⟩ := good.sound
    cases wrong
    cases dead.symm.trans indexed.listed.root
  · rw [update_of_ne here, ← before]
    exact unnamed other

theorem Good.unnamed_link {dir file : Ptr} (held : 0 < w.held dir) (held' : 0 < w.held file)
    (name : Name) (unnamed : w.volume.Unnamed) (plain : w.PlainLink (.link dir name file)) :
    (Request.link dir name file).code.Ensures H w.volume (fun _ t => t.Unnamed)
      (fun _ _ => True) := by
  obtain ⟨ino, n, here, live, kind⟩ := good.kind held'
  have type := plain ino ((number_eq good.shows file).trans here)
  rw [good.shows.nodeOf live] at type
  have other : ino ≠ SFS_ROOT_LOCATION := by
    rcases kind with ⟨-, wrong⟩ | ⟨other, -⟩
    · exact absurd (wrong.symm.trans type) (by decide)
    · exact other
  rw [Request.code, Call.ensures_bind]
  refine good.dirop held (fun root => ?_) trivial
  refine (good.shows.sfsLink root good.sound name here).mono ?_ fun _ _ _ => trivial
  rintro _ t ⟨A', sound, -, same, after⟩ name'
  rw [after.names sound, same]
  by_cases self : name' = name
  · rw [self, update_self]
    exact fun wrong => other (Option.some.inj wrong)
  · rw [update_of_ne self, ← good.names]
    exact unnamed name'

/-- What a request does to a map without the root, if it is not one that makes a name. -/
theorem Good.unnamed_of_moves {r : Request} {reply : Reply} {t : Volume} {m' : NameMap}
    (unnamed : w.volume.Unnamed) (moves : r.Moves t.number (directory v.files) reply m')
    (creates : ∀ dir name excl, r ≠ .creat dir name excl)
    (links : ∀ dir name file, r ≠ .link dir name file) (name : Name) :
    m' name ≠ some SFS_ROOT_LOCATION := by
  have old (name : Name) : directory v.files name ≠ some SFS_ROOT_LOCATION := by
    rw [← good.names]
    exact unnamed name
  cases r with
  | creat dir name' excl => exact absurd rfl (creates dir name' excl)
  | link dir name' file => exact absurd rfl (links dir name' file)
  | remove dir name' =>
    obtain ⟨-, rfl⟩ := moves
    by_cases self : name = name'
    · rw [self, update_self]
      exact nofun
    · rw [update_of_ne self]
      exact old name
  | rename dir n1 n2 =>
    obtain ⟨ino, there, -, rfl⟩ := moves
    by_cases first : name = n1
    · rw [first, update_self]
      exact nofun
    rw [update_of_ne first]
    by_cases second : name = n2
    · rw [second, update_self, ← there]
      exact old n1
    · rw [update_of_ne second]
      exact old name
  | lookup dir path =>
    obtain ⟨p, -, -, -, rfl⟩ := moves
    exact old name
  | _ =>
    obtain rfl : m' = directory v.files := moves
    exact old name

theorem Good.unnamed_step {r : Request} (allowed : w.Allows r) (plain : w.PlainLink r)
    (unnamed : w.volume.Unnamed) {w' : Session} (stepped : w.next r = some w') :
    w'.volume.Unnamed := by
  have step := good.step allowed (H := fun _ => True) fun _ _ => trivial
  rw [Session.next, if_pos allowed] at stepped
  cases ran : r.code.run w.volume with
  | returned reply t =>
    rw [ran] at stepped
    cases stepped
    have volume : (w.after r reply t).volume = t := by
      cases r <;> cases reply <;> rfl
    rw [volume]
    obtain ⟨v', good', -, moves⟩ := step.returned ran
    cases r with
    | creat dir name excl =>
      have made := good.unnamed_creat (H := fun _ => True) (allowed.1 _ (.head _)) name excl unnamed
      exact made.returned ran
    | link dir name file =>
      have made := good.unnamed_link (H := fun _ => True) (allowed.1 _ (.head _))
        (allowed.1 _ (.tail _ (.head _))) name unnamed plain
      exact made.returned ran
    | _ =>
      intro name
      rw [← volume, good'.names]
      refine good.unnamed_of_moves unnamed moves (fun _ _ _ wrong => ?_)
        (fun _ _ _ wrong => ?_) name <;> cases wrong
  | failed e t =>
    rw [ran] at stepped
    cases stepped
    obtain ⟨v', good', -, same, -⟩ := step.failed ran
    intro name
    rw [good'.names, same, ← good.names]
    exact unnamed name
  | halted h =>
    rw [ran] at stepped
    cases stepped
  | blocked => exact absurd ran step.not_blocked

end

theorem Starts.unnamed {w₀ w : Session} {device : Device} {memory : Nat → Bool}
    (starts : w₀.Starts device memory) (reliable : ∀ n, device.outcome n = .ok)
    (plenty : ∀ k, memory k = true) {history : List (Session × Request)}
    (run : Run (Computes Session.next) w₀ history w)
    (plain : ∀ taken ∈ history, PlainLink taken.1 taken.2) : w.volume.Unnamed := by
  induction run with
  | start =>
    obtain ⟨disk, good⟩ := starts.good reliable
    intro name
    have empty : directory (View.fresh disk memory).files name = none := (Sound.fresh disk).2 name
    rw [good.names, empty]
    exact nofun
  | next run stepped ih =>
    rename_i earlier u r u'
    obtain ⟨v, good, -⟩ := starts.run reliable plenty run
    have allowed : u.Allows r := by
      by_contra refused
      have stepped : u.next r = some u' := stepped
      rw [Session.next, if_neg refused] at stepped
      cases stepped
    refine good.unnamed_step allowed (plain (u, r) (List.mem_cons_self ..))
      (ih fun taken member => ?_) stepped
    exact plain taken (List.mem_cons_of_mem _ member)

/-! ### The operations on names -/

/-- One of the operations on names, of the root directory. -/
inductive OnNames (w : Session) : Request → Prop
  | creat {dir : Ptr} (root : w.volume.number dir = some SFS_ROOT_LOCATION) (name : Name)
      (excl : Bool) : OnNames w (.creat dir name excl)
  | link {dir : Ptr} (root : w.volume.number dir = some SFS_ROOT_LOCATION) (name : Name)
      (file : Ptr) : OnNames w (.link dir name file)
  | remove {dir : Ptr} (root : w.volume.number dir = some SFS_ROOT_LOCATION) (name : Name) :
      OnNames w (.remove dir name)
  | rename {dir : Ptr} (root : w.volume.number dir = some SFS_ROOT_LOCATION) (n1 n2 : Name) :
      OnNames w (.rename dir n1 n2)
  | lookup {dir : Ptr} (root : w.volume.number dir = some SFS_ROOT_LOCATION) (name : Name) :
      OnNames w (.lookup dir name)

section

variable {w : Session} {v : View} {H : Halt → Prop} (good : w.Good v)

include good

theorem Good.rootop {α : Type} {op : Code Volume α} {Q : α → Volume → Prop}
    {E : Errno → Volume → Prop} {dir : Ptr} (root : w.volume.number dir = some SFS_ROOT_LOCATION)
    (ensures : v.vnode dir = some SFS_ROOT_LOCATION → op.Ensures H w.volume Q E) :
    (vop dir (Call.fail .ENOTDIR) op).Ensures H w.volume Q E := by
  have here := (number_eq good.shows dir).symm.trans root
  obtain ⟨n, indexed⟩ := good.sound
  rw [good.shows.vop_dir here indexed.listed.root indexed.listed.type]
  exact ensures here

/-- With enough memory there are no other errors. -/
theorem Good.errors (plenty : ∀ k, v.memory k = true) {r : Request} (request : w.OnNames r)
    (allowed : w.Allows r) :
    r.code.Ensures (fun _ => True) w.volume (fun _ _ => True) fun e t => r.Errors w.volume t e := by
  have enough {e : Errno} : ¬ Lacking v e := by
    rintro ⟨-, k, short⟩
    cases (plenty k).symm.trans short
  cases request with
  | creat root name excl =>
    rw [Request.code, Call.ensures_bind]
    refine good.rootop root fun here => ?_
    refine (good.shows.sfsCreat here good.sound name excl).mono (fun _ _ _ => trivial) ?_
    rintro e t ⟨-, ⟨rfl, -⟩ | long | crowded | full | lacks⟩
    · exact .inl rfl
    · exact .inr (.inl long.1)
    · exact .inr (.inr (.inl crowded))
    · exact good.shows.entryError name (.inr (.inr (.inr full)))
    · exact absurd lacks enough
  | link root name file =>
    obtain ⟨ino, -, there, -⟩ := good.kind (allowed.1 file (.tail _ (.head _)))
    rw [Request.code, Call.ensures_bind]
    refine good.rootop root fun here => ?_
    refine (good.shows.sfsLink here good.sound name there).mono (fun _ _ _ => trivial) ?_
    rintro e t ⟨-, wrong⟩
    exact good.shows.entryError name wrong
  | remove root name =>
    rw [Request.code, Call.ensures_bind]
    refine good.rootop root fun here => ?_
    refine (good.shows.sfsRemove here good.sound good.fair' name).mono (fun _ _ _ => trivial) ?_
    rintro e t ⟨-, ⟨rfl, -⟩ | lacks⟩
    · rfl
    · exact absurd lacks enough
  | rename root n1 n2 =>
    rw [Request.code, Call.ensures_bind]
    refine good.rootop root fun here => ?_
    refine (good.shows.sfsRename here good.sound good.fair' n1 n2 fun _ => trivial).mono
      (fun _ _ _ => trivial) ?_
    rintro e t ⟨-, ⟨rfl, -⟩ | ⟨-, wrong⟩ | lacks⟩
    · exact .inl rfl
    · exact .inr (good.shows.entryError n2 wrong)
    · exact absurd lacks enough
  | lookup root name =>
    rw [Request.code, Call.ensures_bind]
    refine good.rootop root fun here => ?_
    refine (good.shows.sfsLookup here good.sound name).mono (fun _ _ _ => trivial) ?_
    rintro e t ⟨-, ⟨rfl, -⟩ | lacks⟩
    · rfl
    · exact absurd lacks enough

/-- They do not halt if the root has no name. -/
theorem Good.not_halted (unnamed : w.volume.Unnamed) {r : Request} (request : w.OnNames r)
    (allowed : w.Allows r) (h : Halt) : r.code.run w.volume ≠ .halted h := by
  intro ran
  have may := (good.step allowed fun _ => id).halted ran
  cases request with
  | rename root n1 n2 =>
    have named := may.2
    rw [← good.names] at named
    exact unnamed n1 named
  | creat | link | remove | lookup => exact may

end

private theorem volume_after (w : Session) (r : Request) (reply : Reply) (t : Volume) :
    (w.after r reply t).volume = t := by
  cases r <;> cases reply <;> rfl

/-- In a session in which only regular files are linked, the directory is a map of names: what each
operation does to it, with which errors it can fail, and that it comes to an end. -/
theorem names_refined {w₀ w : Session} {device : Device} {memory : Nat → Bool}
    (starts : w₀.Starts device memory) (reliable : ∀ n, device.outcome n = .ok)
    (plenty : ∀ k, memory k = true) {history : List (Session × Request)}
    (run : Run (Computes Session.next) w₀ history w)
    (plain : ∀ taken ∈ history, PlainLink taken.1 taken.2) :
    NameTable w.volume ∧ ∀ r, w.Allows r →
      (∀ reply t, r.code.run w.volume = .returned reply t →
        r.Moves t.number w.volume.names reply t.names) ∧
      (∀ e t, r.code.run w.volume = .failed e t →
        t.names = w.volume.names ∧ r.Refuses w.volume.names e) ∧
      (w.OnNames r → (∃ reply t, r.code.run w.volume = .returned reply t) ∨
        ∃ e t, r.code.run w.volume = .failed e t ∧ r.Errors w.volume t e) := by
  obtain ⟨v, good, -, same⟩ := starts.run reliable plenty run
  have unnamed := starts.unnamed reliable plenty run plain
  refine ⟨good.shows.nameTable good.sound, fun r allowed => ?_⟩
  have step := good.step allowed (H := fun _ => True) fun _ _ => trivial
  refine ⟨fun reply t ran => ?_, fun e t ran => ?_, fun request => ?_⟩
  · obtain ⟨v', good', -, moves⟩ := step.returned ran
    have names := good'.names
    rw [volume_after] at names
    rw [good.names, names]
    exact moves
  · obtain ⟨v', good', -, kept, refuses⟩ := step.failed ran
    have names : t.names = directory v'.files := good'.names
    rw [good.names, names]
    exact ⟨kept, refuses⟩
  cases ran : r.code.run w.volume with
  | returned reply t => exact .inl ⟨reply, t, rfl⟩
  | failed e t =>
    have known := (good.errors (by rwa [same]) request allowed).failed ran
    exact .inr ⟨e, t, rfl, known⟩
  | halted h => exact absurd ran (good.not_halted unnamed request allowed h)
  | blocked => exact absurd ran step.not_blocked

/-! ### A file with two names, one after the other -/

def renames : List Request :=
  [.getroot, .creat 0 letterA true, .rename 0 letterA letterB,
    .lookup 0 letterB]

theorem names_refined_renames :
    ∃ w₀ w history, w₀.Starts steady (fun _ => true) ∧ Run (Computes Session.next) w₀ history w ∧
      history.map Prod.snd = renames.reverse ∧ NameTable w.volume := by
  obtain ⟨w₀, w, history, starts, run, same, -⟩ : ∃ w₀ w history, w₀.Starts steady (fun _ => true) ∧
      Run (Computes Session.next) w₀ history w ∧ history.map Prod.snd = renames.reverse ∧ True :=
    exists_run (4096 * 512) ⟨[0x76], by decide⟩ (fun _ => Block.zero) (by decide) rfl
      (by decide +kernel)
  -- none of the requests is a link
  have plain : ∀ taken ∈ history, PlainLink taken.1 taken.2 := by
    intro taken member
    have listed : taken.2 ∈ renames.reverse := same ▸ List.mem_map_of_mem member
    cases request : taken.2 with
    | link dir name file =>
      rw [request] at listed
      simp [renames] at listed
    | _ => trivial
  exact ⟨w₀, w, history, starts, run, same,
    (names_refined starts (fun _ => rfl) (fun _ => rfl) run plain).1⟩

/-- Also without memory every request ends; it halts only for an odd transfer, a root with a name,
or a root that cannot be loaded. -/
theorem requests_end {w₀ w : Session} {device : Device} {memory : Nat → Bool}
    (starts : w₀.Starts device memory) (reliable : ∀ n, device.outcome n = .ok)
    {history : List (Session × Request)} (run : Run (Computes Session.next) w₀ history w)
    {r : Request} (allowed : w.Allows r) :
    r.code.run w.volume ≠ .blocked ∧
      ∀ h, r.code.run w.volume = .halted h → r.MayHalt w.volume.names memory h := by
  obtain ⟨disk, fresh⟩ := starts.good reliable
  obtain ⟨v, good, evolved⟩ := fresh.run run
  have step := good.step allowed fun _ => id
  refine ⟨step.not_blocked, fun h halted => ?_⟩
  have may := step.halted halted
  rwa [← good.names, evolved.memory] at may

theorem requests_end_sync :
    ∃ w₀ w history, w₀.Starts steady (fun _ => true) ∧ Run (Computes Session.next) w₀ history w ∧
      Request.sync.code.run w.volume ≠ .blocked := by
  obtain ⟨w₀, w, history, starts, run, -⟩ := released
  have allowed : w.Allows .sync := ⟨fun _ member => absurd member List.not_mem_nil, trivial⟩
  exact ⟨w₀, w, history, starts, run, (requests_end starts (fun _ => rfl) run allowed).1⟩

end Session

end Os161.Sfs
