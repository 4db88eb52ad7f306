import Os161.Sfs.Mksfs
import Os161.Sfs.Operations
import Os161.Sfs.Syncing

/-!
# Requests to a volume, one at a time

A session is a mounted volume together with the references that its users hold. Requests are
made of vnodes that are held, each runs alone, and the session goes on with the volume it leaves,
whether it succeeds or fails.
-/
namespace Os161.Sfs

open Foundation Vfs
open Function (update update_eq_self update_of_ne update_self)
open Call (ensures_bind)

inductive Request where
  | getroot
  | creat (dir : Ptr) (name : Name) (excl : Bool)
  | link (dir : Ptr) (name : Name) (file : Ptr)
  | remove (dir : Ptr) (name : Name)
  | rename (dir : Ptr) (n1 n2 : Name)
  | lookup (dir : Ptr) (path : Name)
  | lookparent (dir : Ptr) (path : Name) (buflen : Nat)
  /-- `VOP_READ` or `VOP_WRITE`. -/
  | transfer (p : Ptr) (t : Transfer)
  | truncate (p : Ptr) (len : CInt)
  | incref (p : Ptr)
  | decref (p : Ptr)
  | incopen (p : Ptr)
  | decopen (p : Ptr)
  | fsync (p : Ptr)
  | sync

inductive Reply where
  | done
  | vnode (p : Ptr)
  | moved (result : Except Errno Unit) (t : Transfer)

namespace Request

def code : Request → Code Volume Reply
  | getroot => return .vnode (← sfsGetroot)
  | creat dir name excl => return .vnode (← vopCreat dir name excl)
  | link dir name file => do
    vopLink dir name file
    return .done
  | remove dir name => do
    vopRemove dir name
    return .done
  | rename dir n1 n2 => do
    vopRename dir n1 dir n2
    return .done
  | lookup dir path => return .vnode (← vopLookup dir path)
  | lookparent dir path buflen => return .vnode (← vopLookparent dir path buflen).1
  | transfer p t => do
    let (result, t') ← vopRequest p t
    return .moved result t'
  | truncate p len => do
    vopTruncate p len
    return .done
  | incref p => do
    vnodeIncref p
    return .vnode p
  | decref p => do
    sfsDecref p
    return .done
  | incopen p => do
    vnodeIncopen p
    return .done
  | decopen p => do
    vnodeDecopen (vopClose p) p
    return .done
  | fsync p => do
    vopFsync p
    return .done
  | sync => do
    sfsSync
    return .done

def vnodes : Request → List Ptr
  | getroot | sync => []
  | creat p _ _ | remove p _ | rename p _ _ | lookup p _ | lookparent p _ _ | transfer p _
  | truncate p _ | incref p | decref p | incopen p | decopen p | fsync p => [p]
  | link dir _ file => [dir, file]

end Request

structure Session where
  volume : Volume
  held : Ptr → Nat
  /-- How many of the references are open. -/
  opened : Ptr → Nat

namespace Session

/-- A reference is not given back while it is open, nor opened twice. -/
def Counts (w : Session) : Request → Prop
  | .decref p | .incopen p => w.opened p < w.held p
  | .decopen p => 0 < w.opened p
  | _ => True

instance (w : Session) : (r : Request) → Decidable (w.Counts r)
  | .decref p | .incopen p => inferInstanceAs (Decidable (w.opened p < w.held p))
  | .decopen p => inferInstanceAs (Decidable (0 < w.opened p))
  | .getroot | .creat .. | .link .. | .remove .. | .rename .. | .lookup .. | .lookparent ..
  | .transfer .. | .truncate .. | .incref _ | .fsync _ | .sync => isTrue trivial

/-- The request is made of vnodes that are held. -/
def Allows (w : Session) (r : Request) : Prop := (∀ p ∈ r.vnodes, 0 < w.held p) ∧ w.Counts r

instance (w : Session) (r : Request) : Decidable (w.Allows r) :=
  inferInstanceAs (Decidable (_ ∧ _))

/-- The references after a request was answered. -/
def after (w : Session) (r : Request) (reply : Reply) (t : Volume) : Session :=
  match r, reply with
  | .decref p, _ => { w with volume := t, held := update w.held p (w.held p - 1) }
  | .incopen p, _ => { w with volume := t, opened := update w.opened p (w.opened p + 1) }
  | .decopen p, _ => { w with volume := t, opened := update w.opened p (w.opened p - 1) }
  | _, .vnode p => { w with volume := t, held := update w.held p (w.held p + 1) }
  | _, _ => { w with volume := t }

def next (w : Session) (r : Request) : Option Session :=
  if w.Allows r then
    match r.code.run w.volume with
    | .returned reply t => some (w.after r reply t)
    | .failed _ t => some { w with volume := t }
    | .halted _ => none
    | .blocked => none
  else none

/-- A disk is made by `mksfs` and mounted. -/
structure Starts (w : Session) (device : Device) (memory : Nat → Bool) : Prop where
  made : ∃ st_size arg disk disk', st_size < 2 ^ 31 ∧ device.blocks = diskblocks st_size ∧
    mksfs (diskblocks st_size) arg disk = .ok disk' ∧
    sfsDomount.run (Volume.blank device disk' memory) = .returned () w.volume
  held : w.held = fun _ => 0
  opened : w.opened = fun _ => 0

end Session

/-! ### The map of names -/

/-- A directory: the numbers of the files, by their names. -/
abbrev NameMap := Name → Option CUnsigned

def Volume.number (s : Volume) (p : Ptr) : Option CUnsigned := (s.heap p).map (·.ino)

namespace Request

/-- What a request that succeeds does to the map: insert, delete, move and look up. -/
def Moves (r : Request) (number : Ptr → Option CUnsigned) (m : NameMap) (reply : Reply)
    (m' : NameMap) : Prop :=
  match r with
  | creat _ name excl => ∃ p ino, reply = .vnode p ∧ number p = some ino ∧
      ((m name = some ino ∧ excl = false ∧ m' = m) ∨
        (m name = none ∧ m' = update m name (some ino)))
  | link _ name file => ∃ ino, number file = some ino ∧ m name = none ∧
      m' = update m name (some ino)
  | remove _ name => (m name).isSome ∧ m' = update m name none
  | rename _ n1 n2 => ∃ ino, m n1 = some ino ∧ m n2 = none ∧
      m' = update (update m n2 (some ino)) n1 none
  | lookup _ name => ∃ p, reply = .vnode p ∧ number p = m name ∧ (m name).isSome ∧ m' = m
  | _ => m' = m

/-- What an error tells of the map. -/
def Refuses (r : Request) (m : NameMap) (e : Errno) : Prop :=
  match r with
  | creat _ name excl => (e = .EEXIST → excl = true ∧ (m name).isSome) ∧ e ≠ .ENOENT ∧
      (e = .ENAMETOOLONG → SFS_NAMELEN ≤ name.val.length)
  | link _ name _ => (e = .EEXIST → (m name).isSome) ∧ e ≠ .ENOENT ∧
      (e = .ENAMETOOLONG → SFS_NAMELEN ≤ name.val.length)
  | remove _ name => e ≠ .EEXIST ∧ (e = .ENOENT → m name = none) ∧ e ≠ .ENAMETOOLONG
  | rename _ n1 n2 => (e = .EEXIST → (m n2).isSome) ∧ (e = .ENOENT → m n1 = none) ∧
      (e = .ENAMETOOLONG → SFS_NAMELEN ≤ n2.val.length)
  | lookup _ name => e ≠ .EEXIST ∧ (e = .ENOENT → m name = none) ∧ e ≠ .ENAMETOOLONG
  | _ => True

/-- For what a request may halt: requests for odd transfers, and the two panics for a root that
has a name and for a root that cannot be loaded. -/
def MayHalt (r : Request) (m : NameMap) (memory : Nat → Bool) (h : Halt) : Prop :=
  match r with
  | transfer _ _ => h ∈ odd
  | rename _ n1 _ => h = .renameNotFile ∧ m n1 = some SFS_ROOT_LOCATION
  | getroot => h = .cannotLoadRoot ∧ ∃ k, memory k = false
  | _ => False

theorem MayHalt.mem {r : Request} {m : NameMap} {memory : Nat → Bool} {h : Halt}
    (may : r.MayHalt m memory h) : h ∈ odd ++ [.renameNotFile, .cannotLoadRoot] := by
  cases r with
  | transfer p t => exact List.mem_append_left _ may
  | rename dir n1 n2 => exact List.mem_append_right _ (may.1 ▸ .head _)
  | getroot => exact List.mem_append_right _ (may.1 ▸ .tail _ (.head _))
  | _ => exact may.elim

end Request

/-! ### What one request preserves -/

namespace Session

/-- The session is as the view has it, and the files are in order. -/
structure Good (w : Session) (v : View) : Prop where
  shows : Shows v w.volume
  sound : Sound v.files
  refs : v.refs = w.held
  opens : v.opens = w.opened
  fair : ∀ p, w.opened p ≤ w.held p

/-- What never changes, but that blocks can be lost for want of memory. -/
structure Evolved (v v' : View) : Prop where
  memory : v'.memory = v.memory
  lost : v'.lost = v.lost ∨ ∃ k, v.memory k = false

theorem Evolved.refl (v : View) : Evolved v v := ⟨rfl, .inl rfl⟩

theorem le_update {o h : Ptr → Nat} (fair : ∀ q, o q ≤ h q) (p : Ptr) {a b : Nat} (here : a ≤ b)
    (q : Ptr) : update o p a q ≤ update h p b q := by
  by_cases same : q = p
  · subst same
    rwa [update_self, update_self]
  · rw [update_of_ne same, update_of_ne same]
    exact fair q

section

variable {w : Session} {v : View} {t : Volume} {p : Ptr} {ino : CUnsigned} {A' : Files}
  (good : w.Good v)

namespace Good

include good

theorem fair' (q : Ptr) : v.opens q ≤ v.refs q := by
  rw [good.opens, good.refs]
  exact good.fair q

theorem same (after : Shows v t) : Good { w with volume := t } v :=
  ⟨after, good.sound, good.refs, good.opens, good.fair⟩

theorem files (after : Shows { v with files := A' } t) (sound : Sound A') :
    Good { w with volume := t } { v with files := A' } :=
  ⟨after, sound, good.refs, good.opens, good.fair⟩

theorem take (after : Shows ({ v with files := A' }.take p ino) t) (sound : Sound A') :
    Good { w with volume := t, held := update w.held p (w.held p + 1) }
      ({ v with files := A' }.take p ino) where
  shows := after
  sound := sound
  refs := by
    rw [← good.refs]
    rfl
  opens := good.opens
  fair := by
    have before := good.fair p
    have kept := le_update good.fair p (show w.opened p ≤ w.held p + 1 by omega)
    rwa [update_eq_self] at kept

/-- A vnode that is held is that of the root, or of a file. -/
theorem kind (held : 0 < w.held p) :
    ∃ ino n, v.vnode p = some ino ∧ v.files ino = some n ∧
      ((ino = SFS_ROOT_LOCATION ∧ n.type = SFS_TYPE_DIR) ∨
        (ino ≠ SFS_ROOT_LOCATION ∧ n.type = SFS_TYPE_FILE)) := by
  cases here : v.vnode p with
  | none =>
    have zero := (good.shows.refs_eq_zero here).1
    rw [good.refs] at zero
    omega
  | some ino =>
    obtain ⟨n, live⟩ := good.shows.live here
    obtain ⟨root, indexed⟩ := good.sound
    refine ⟨ino, n, rfl, live, ?_⟩
    by_cases same : ino = SFS_ROOT_LOCATION
    · subst same
      cases indexed.listed.root.symm.trans live
      exact .inl ⟨rfl, indexed.listed.type⟩
    · exact .inr ⟨same, indexed.listed.files ino n live same⟩

theorem dirop {α : Type} {op : Code Volume α} {H : Halt → Prop} {Q : α → Volume → Prop}
    {E : Errno → Volume → Prop} (held : 0 < w.held p)
    (root : v.vnode p = some SFS_ROOT_LOCATION → op.Ensures H w.volume Q E)
    (file : E .ENOTDIR w.volume) :
    (vop p (Call.fail .ENOTDIR) op).Ensures H w.volume Q E := by
  obtain ⟨ino, n, here, live, ⟨rfl, type⟩ | ⟨-, type⟩⟩ := good.kind held
  · rw [good.shows.vop_dir here live type]
    exact root here
  · rw [good.shows.vop_file here live type]
    exact file

private theorem fileop {α : Type} {op : Code Volume α} {H : Halt → Prop} {Q : α → Volume → Prop}
    {E : Errno → Volume → Prop} (held : 0 < w.held p)
    (file : ∀ ino n, v.vnode p = some ino → v.files ino = some n → n.type = SFS_TYPE_FILE →
      op.Ensures H w.volume Q E)
    (root : E .EISDIR w.volume) :
    (vop p op (Call.fail .EISDIR)).Ensures H w.volume Q E := by
  obtain ⟨ino, n, here, live, ⟨rfl, type⟩ | ⟨-, type⟩⟩ := good.kind held
  · rw [good.shows.vop_dir here live type]
    exact root
  · rw [good.shows.vop_file here live type]
    exact file ino n here live type

end Good

/-- The request was answered: what the view is then, and what became of the map. -/
def Answered (w : Session) (v : View) (r : Request) (reply : Reply) (t : Volume) : Prop :=
  ∃ v', (w.after r reply t).Good v' ∧ Evolved v v' ∧
    r.Moves t.number (directory v.files) reply (directory v'.files)

/-- The request failed, and the map is what it was. -/
def Failed (w : Session) (v : View) (r : Request) (e : Errno) (t : Volume) : Prop :=
  ∃ v', Good { w with volume := t } v' ∧ Evolved v v' ∧ directory v'.files = directory v.files ∧
    r.Refuses (directory v.files) e

variable {r : Request}

theorem Good.failed (good : w.Good v) {e : Errno} (after : Shows v t)
    (refuses : r.Refuses (directory v.files) e) : Failed w v r e t :=
  ⟨v, good.same after, .refl v, rfl, refuses⟩

theorem Good.files_failed (good : w.Good v) {e : Errno} {losing : Prop}
    (after : Unchanged v t losing)
    (refuses : r.Refuses (directory v.files) e) : Failed w v r e t := by
  rcases after with ⟨shows, -⟩ | ⟨-, lacks, b, -, shows⟩
  · exact good.failed shows refuses
  · exact ⟨_, ⟨shows, good.sound, good.refs, good.opens, good.fair⟩, ⟨rfl, .inr lacks⟩, rfl,
      refuses⟩

theorem number_eq (shows : Shows v t) (p : Ptr) : t.number p = v.vnode p := (shows.vnode p).symm

theorem refuses_of_linkError {A : Files} {name : Name} {full : Prop} {e : Errno}
    (wrong : LinkError A name full e) :
    (e = .EEXIST → (directory A name).isSome) ∧ e ≠ .ENOENT ∧
      (e = .ENAMETOOLONG → SFS_NAMELEN ≤ name.val.length) := by
  rcases wrong with ⟨rfl, there⟩ | ⟨rfl, long⟩ | ⟨rfl, -⟩ | ⟨rfl, -⟩
  · exact ⟨fun _ => there, nofun, nofun⟩
  · exact ⟨nofun, nofun, fun _ => long⟩
  all_goals exact ⟨nofun, nofun, nofun⟩

/-- The request is answered or fails as it should. -/
abbrev Settles (H : Halt → Prop) (w : Session) (v : View) (r : Request) : Prop :=
  r.code.Ensures H w.volume (Answered w v r) (Failed w v r)

namespace Good

variable {H : Halt → Prop}

include good

private theorem creat {dir : Ptr} (held : 0 < w.held dir) (name : Name) (excl : Bool) :
    Settles H w v (.creat dir name excl) := by
  rw [Settles, Request.code, ensures_bind]
  refine good.dirop held (fun root => ?_) (good.failed good.shows ⟨nofun, nofun, nofun⟩)
  refine (good.shows.sfsCreat root good.sound name excl).mono ?_ ?_
  · rintro p t ⟨A', ino, sound, after, -, found⟩
    have number : t.number p = some ino := (number_eq after p).trans (update_self ..)
    refine ⟨_, good.take after sound, ⟨rfl, .inl rfl⟩, p, ino, rfl, number, ?_⟩
    rcases found with ⟨there, shared, rfl⟩ | ⟨absent, -, -, same, -⟩
    · exact .inl ⟨there, shared, rfl⟩
    · exact .inr ⟨absent, same⟩
  rintro e t ⟨after, wrong⟩
  refine good.files_failed after ?_
  rcases wrong with ⟨rfl, there⟩ | ⟨rfl, long⟩ | ⟨rfl, -⟩ | ⟨rfl, -⟩ | ⟨rfl, -⟩
  · exact ⟨fun _ => there, nofun, nofun⟩
  · exact ⟨nofun, nofun, fun _ => long⟩
  all_goals exact ⟨nofun, nofun, nofun⟩

private theorem link {dir file : Ptr} (held : 0 < w.held dir) (held' : 0 < w.held file)
    (name : Name) : Settles H w v (.link dir name file) := by
  obtain ⟨ino, -, here, -⟩ := good.kind held'
  rw [Settles, Request.code, ensures_bind]
  refine good.dirop held (fun root => ?_) (good.failed good.shows ⟨nofun, nofun, nofun⟩)
  refine (good.shows.sfsLink root good.sound name here).mono ?_ ?_
  · rintro _ t ⟨A', sound, absent, same, after⟩
    exact ⟨_, good.files after sound, ⟨rfl, .inl rfl⟩, ino, (number_eq after file).trans here,
      absent, same⟩
  · rintro e t ⟨after, wrong⟩
    exact good.failed after (refuses_of_linkError wrong)

section

variable {dir : Ptr} (held : 0 < w.held dir)

include held

private theorem remove (name : Name) : Settles H w v (.remove dir name) := by
  rw [Settles, Request.code, ensures_bind]
  refine good.dirop held (fun root => ?_) (good.failed good.shows ⟨nofun, nofun, nofun⟩)
  refine (good.shows.sfsRemove root good.sound good.fair' name).mono ?_ ?_
  · rintro _ t ⟨A', ino, there, sound, same, after⟩
    exact ⟨_, good.files after sound, ⟨rfl, .inl rfl⟩, by rw [there]; rfl, same⟩
  · rintro e t ⟨after, ⟨rfl, absent⟩ | ⟨rfl, -⟩⟩
    · exact good.failed after ⟨nofun, fun _ => absent, nofun⟩
    · exact good.failed after ⟨nofun, nofun, nofun⟩

private theorem rename (n1 n2 : Name)
    (panics : directory v.files n1 = some SFS_ROOT_LOCATION → H .renameNotFile) :
    Settles H w v (.rename dir n1 n2) := by
  rw [Settles, Request.code, ensures_bind]
  refine good.dirop held (fun root => ?_) (good.failed good.shows ⟨nofun, nofun, nofun⟩)
  refine (good.shows.sfsRename root good.sound good.fair' n1 n2 panics).mono ?_ ?_
  · rintro _ t ⟨A', ino, there, absent, sound, same, after⟩
    exact ⟨_, good.files after sound, ⟨rfl, .inl rfl⟩, ino, there, absent, same⟩
  rintro e t ⟨after, ⟨rfl, absent⟩ | ⟨-, wrong⟩ | ⟨rfl, -⟩⟩
  · exact good.failed after ⟨nofun, fun _ => absent, nofun⟩
  · obtain ⟨exist, other, long⟩ := refuses_of_linkError wrong
    exact good.failed after ⟨exist, fun same => absurd same other, long⟩
  · exact good.failed after ⟨nofun, nofun, nofun⟩

private theorem lookup (name : Name) : Settles H w v (.lookup dir name) := by
  rw [Settles, Request.code, ensures_bind]
  refine good.dirop held (fun root => ?_) (good.failed good.shows ⟨nofun, nofun, nofun⟩)
  refine (good.shows.sfsLookup root good.sound name).mono ?_ ?_
  · rintro p t ⟨ino, there, after, -⟩
    have number : t.number p = some ino := (number_eq after p).trans (update_self ..)
    exact ⟨_, good.take after good.sound, ⟨rfl, .inl rfl⟩, p, rfl, number.trans there.symm,
      by rw [there]; rfl, rfl⟩
  · rintro e t ⟨after, ⟨rfl, absent⟩ | ⟨rfl, -⟩⟩
    · exact good.failed after ⟨nofun, fun _ => absent, nofun⟩
    · exact good.failed after ⟨nofun, nofun, nofun⟩

private theorem lookparent (path : Name) (buflen : Nat) :
    Settles H w v (.lookparent dir path buflen) := by
  rw [Settles, Request.code, ensures_bind]
  refine good.dirop held (fun root => ?_) (good.failed good.shows trivial)
  refine (good.shows.sfsLookparent root good.sound path buflen).mono ?_ ?_
  · rintro _ t ⟨rfl, after⟩
    exact ⟨_, good.take after good.sound, ⟨rfl, .inl rfl⟩, rfl⟩
  · rintro e t ⟨after, -⟩
    exact good.failed after trivial

end

private theorem transfer (held : 0 < w.held p) (u : Transfer) (halts : ∀ h ∈ odd, H h) :
    Settles H w v (.transfer p u) := by
  rw [Settles, Request.code, ensures_bind]
  refine good.fileop held (fun ino n here live type => ?_) (good.failed good.shows trivial)
  cases kind : u.rw with
  | UIO_READ =>
    refine (good.shows.request_read here live kind (.inl halts)).mono ?_ fun _ _ => False.elim
    rintro ⟨result, u'⟩ t ⟨-, after⟩
    exact ⟨v, good.same after, .refl v, rfl⟩
  | UIO_WRITE =>
    refine (good.shows.request_write here live kind (.inl halts)).mono ?_ fun _ _ => False.elim
    rintro ⟨result, u'⟩ t ⟨contents, -, after⟩
    obtain ⟨sound, same⟩ := good.sound.write live type (newSize n.size u'.offset) contents
    exact ⟨_, good.files after sound, ⟨rfl, .inl rfl⟩, same⟩

private theorem truncate (held : 0 < w.held p) (len : CInt) : Settles H w v (.truncate p len) := by
  rw [Settles, Request.code, ensures_bind]
  obtain ⟨ino, n, here, live, ⟨rfl, type⟩ | ⟨-, type⟩⟩ := good.kind held
  · rw [vopTruncate, good.shows.vop_dir here live type]
    exact good.failed good.shows trivial
  · refine good.shows.vopTruncate here live type len fun t sv _ after _ => ?_
    obtain ⟨sound, same⟩ := good.sound.write live type len (truncated (blocklen len) n.contents)
    exact ⟨_, good.files after sound, ⟨rfl, .inl rfl⟩, same⟩

private theorem incref (held : 0 < w.held p) : Settles H w v (.incref p) := by
  obtain ⟨ino, n, here, -⟩ := good.kind held
  refine (good.shows.incref here).bind (fun _ t after => ?_) fun _ _ => False.elim
  exact ⟨_, good.take after good.sound, ⟨rfl, .inl rfl⟩, rfl⟩

private theorem decref (held : w.opened p < w.held p) : Settles H w v (.decref p) := by
  obtain ⟨ino, n, here, live, -⟩ := good.kind (Nat.zero_lt_of_lt held)
  have closed : v.refs p = 1 → v.opens p = 0 := by
    rw [good.refs, good.opens]
    omega
  refine (good.shows.decref here closed fun m live zero => good.sound.plain live zero).bind
    (fun _ t after => ?_) fun _ _ => False.elim
  obtain ⟨files, refs, opens, lost, memory⟩ := v.drop_eq p ino
  obtain ⟨sound, same⟩ := good.sound.forgets live (v.refs p = 1)
  rw [← files] at sound same
  refine ⟨v.drop p ino, ⟨after, sound, ?_, opens.trans good.opens, ?_⟩, ⟨memory, .inl lost⟩, same⟩
  · rw [refs, good.refs]
    rfl
  · have kept := le_update good.fair p (show w.opened p ≤ w.held p - 1 by omega)
    rwa [update_eq_self] at kept

private theorem incopen (held : w.opened p < w.held p) : Settles H w v (.incopen p) := by
  obtain ⟨ino, n, here, -⟩ := good.kind (Nat.zero_lt_of_lt held)
  refine (good.shows.incopen here).bind (fun _ t after => ?_) fun _ _ => False.elim
  refine ⟨_, ⟨after, good.sound, good.refs, ?_, ?_⟩, ⟨rfl, .inl rfl⟩, rfl⟩
  · rw [good.opens]
    rfl
  · have kept := le_update good.fair p (show w.opened p + 1 ≤ w.held p by omega)
    rwa [update_eq_self] at kept

private theorem decopen (opened : 0 < w.opened p) : Settles H w v (.decopen p) := by
  obtain ⟨ino, n, here, -⟩ := good.kind (Nat.lt_of_lt_of_le opened (good.fair p))
  refine (good.shows.decopen here (by rwa [good.opens])).bind (fun _ t after => ?_)
    fun _ _ => False.elim
  refine ⟨_, ⟨after, good.sound, good.refs, ?_, ?_⟩, ⟨rfl, .inl rfl⟩, rfl⟩
  · rw [good.opens]
    rfl
  · have before := good.fair p
    have kept := le_update good.fair p (show w.opened p - 1 ≤ w.held p by omega)
    rwa [update_eq_self] at kept

private theorem fsync (held : 0 < w.held p) : Settles H w v (.fsync p) := by
  obtain ⟨ino, n, here, -⟩ := good.kind held
  refine (good.shows.fsync here).bind (fun _ t after => ?_) fun _ _ => False.elim
  exact ⟨v, good.same after, .refl v, rfl⟩

private theorem sync : Settles H w v .sync := by
  refine good.shows.sync.bind (fun _ t after => ?_) fun _ _ => False.elim
  exact ⟨v, good.same after.1, .refl v, rfl⟩

private theorem getroot (panics : (∃ k, v.memory k = false) → H .cannotLoadRoot) :
    Settles H w v .getroot := by
  obtain ⟨n, indexed⟩ := id good.sound
  refine (good.shows.getroot indexed.listed.root (good.sound.typed indexed.listed.root)
    panics).bind (fun p t after => ?_) fun _ _ => False.elim
  exact ⟨_, good.take after.1 good.sound, ⟨rfl, .inl rfl⟩, rfl⟩

end Good

theorem Good.step (good : w.Good v) (allowed : w.Allows r) {H : Halt → Prop}
    (halts : ∀ h, r.MayHalt (directory v.files) v.memory h → H h) :
    r.code.Ensures H w.volume (Answered w v r) (Failed w v r) := by
  obtain ⟨held, counts⟩ := allowed
  cases r with
  | getroot => exact good.getroot fun lacks => halts _ ⟨rfl, lacks⟩
  | creat dir name excl => exact good.creat (held _ (.head _)) name excl
  | link dir name file => exact good.link (held _ (.head _)) (held _ (.tail _ (.head _))) name
  | remove dir name => exact good.remove (held _ (.head _)) name
  | rename dir n1 n2 =>
    exact good.rename (held _ (.head _)) n1 n2 fun named => halts _ ⟨rfl, named⟩
  | lookup dir path => exact good.lookup (held _ (.head _)) path
  | lookparent dir path buflen => exact good.lookparent (held _ (.head _)) path buflen
  | transfer p t => exact good.transfer (held _ (.head _)) t halts
  | truncate p len => exact good.truncate (held _ (.head _)) len
  | incref p => exact good.incref (held _ (.head _))
  | decref p => exact good.decref counts
  | incopen p => exact good.incopen counts
  | decopen p => exact good.decopen counts
  | fsync p => exact good.fsync (held _ (.head _))
  | sync => exact good.sync

/-! ### What a run preserves -/

theorem Evolved.trans {v v' v'' : View} (first : Evolved v v') (second : Evolved v' v'') :
    Evolved v v'' := by
  refine ⟨second.memory.trans first.memory, ?_⟩
  rcases second.lost with same | lacks
  · rcases first.lost with same' | lacks
    · exact .inl (same.trans same')
    · exact .inr lacks
  · exact .inr (first.memory ▸ lacks)

theorem Good.next (good : w.Good v) {w' : Session} (stepped : w.next r = some w') :
    ∃ v', w'.Good v' ∧ Evolved v v' := by
  rw [Session.next] at stepped
  by_cases allowed : w.Allows r
  · have answer := good.step allowed (H := fun _ => True) fun _ _ => trivial
    rw [if_pos allowed] at stepped
    cases ran : r.code.run w.volume with
    | returned reply t =>
      obtain ⟨v', good', evolved, -⟩ := answer.returned ran
      rw [ran] at stepped
      cases stepped
      exact ⟨v', good', evolved⟩
    | failed e t =>
      obtain ⟨v', good', evolved, -⟩ := answer.failed ran
      rw [ran] at stepped
      cases stepped
      exact ⟨v', good', evolved⟩
    | halted h =>
      rw [ran] at stepped
      cases stepped
    | blocked => exact absurd ran answer.not_blocked
  · rw [if_neg allowed] at stepped
    cases stepped

theorem Good.run {w₀ : Session} {v₀ : View} (good : w₀.Good v₀) {history : List (Session × Request)}
    (run : Run (Computes Session.next) w₀ history w) : ∃ v, w.Good v ∧ Evolved v₀ v := by
  induction run with
  | start => exact ⟨v₀, good, .refl v₀⟩
  | next _ stepped ih =>
    obtain ⟨v, before, evolved⟩ := ih
    obtain ⟨v', after, more⟩ := before.next stepped
    exact ⟨v', after, evolved.trans more⟩

end

variable {device : Device} {memory : Nat → Bool}

/-- A volume that `mksfs` has made. -/
theorem Starts.good {w : Session} (starts : w.Starts device memory)
    (reliable : ∀ n, device.outcome n = .ok) :
    ∃ disk, w.Good (View.fresh disk memory) := by
  obtain ⟨⟨st_size, arg, disk, disk', small, blocks, done, mounted⟩, held, opened⟩ := starts
  obtain ⟨volname, made⟩ := Made.of_mksfs small done
  have blocksize : device.blocksize = SFS_BLOCKSIZE := by
    by_contra other
    have refused : sfsDomount.Ensures (fun _ => True) (Volume.blank device disk' memory)
        (fun _ _ => False) fun _ _ => True := by
      rw [sfsDomount, ensures_bind, Call.ensures_state, Call.ensures_ite]
      exact ⟨fun _ => trivial, fun wrong => absurd other wrong⟩
    exact refused.returned mounted
  have shows := made.domount (H := fun _ => True)
    (Q := fun _ t => Shows (View.fresh disk' memory) t) (E := fun _ _ => True) blocksize blocks
    (fun asked started => made.shows asked started blocksize blocks reliable) (fun _ _ => trivial)
    fun _ _ => trivial
  refine ⟨disk', shows.returned mounted, (Sound.fresh disk').1, held.symm, opened.symm, ?_⟩
  intro p
  rw [held, opened]

/-! ### Sessions that are computed -/

def mkfs (st_size : Nat) (arg : Name) (disk : CUnsigned → Block) (device : Device)
    (memory : Nat → Bool) : Option Session :=
  match mksfs (diskblocks st_size) arg disk with
  | .error _ => none
  | .ok disk' =>
    match sfsDomount.run (Volume.blank device disk' memory) with
    | .returned _ volume => some ⟨volume, fun _ => 0, fun _ => 0⟩
    | .failed _ _ => none
    | .halted _ => none
    | .blocked => none

theorem Starts.of_mkfs {st_size : Nat} {arg : Name} {disk : CUnsigned → Block}
    {w : Session} (small : st_size < 2 ^ 31)
    (blocks : device.blocks = diskblocks st_size)
    (made : mkfs st_size arg disk device memory = some w) : w.Starts device memory := by
  rw [mkfs] at made
  cases done : mksfs (diskblocks st_size) arg disk with
  | error e =>
    rw [done] at made
    cases made
  | ok disk' =>
    simp only [done] at made
    cases mounted : sfsDomount.run (Volume.blank device disk' memory) with
    | returned u volume =>
      rw [mounted] at made
      cases made
      exact ⟨⟨st_size, arg, disk, disk', small, blocks, done, mounted⟩, rfl, rfl⟩
    | _ =>
      rw [mounted] at made
      cases made

def letterA : Name := ⟨[0x61], by decide⟩

def letterB : Name := ⟨[0x62], by decide⟩

/-- Requests that are made of a new file system, with a check on where they lead. -/
theorem exists_run (st_size : Nat) (arg : Name) (disk : CUnsigned → Block)
    (small : st_size < 2 ^ 31) (blocks : device.blocks = diskblocks st_size)
    {requests : List Request} {check : Session → Prop} [DecidablePred check]
    (passed : ((mkfs st_size arg disk device memory).bind fun w₀ =>
      (execute Session.next w₀ requests).map fun w => decide (check w)) = some true) :
    ∃ w₀ w history, w₀.Starts device memory ∧ Run (Computes Session.next) w₀ history w ∧
      history.map Prod.snd = requests.reverse ∧ check w := by
  obtain ⟨w₀, made, ran⟩ := Option.bind_eq_some_iff.mp passed
  obtain ⟨history, w, run, same, holds⟩ := Run.of_check ran
  exact ⟨w₀, w, history, .of_mkfs small blocks made, run, same, holds⟩

end Session

end Os161.Sfs
