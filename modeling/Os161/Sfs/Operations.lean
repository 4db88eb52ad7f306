import Os161.Sfs.Catalogue

/-!
# The operations on names

`sfs_creat`, `sfs_link`, `sfs_remove`, `sfs_rename` and `sfs_lookup` on the root directory, by
what they do to the map from names to inodes and to the view.
-/
namespace Os161.Sfs

open Foundation Vfs
open Function (update update_eq_self update_idem update_of_ne update_self)
open Call (ensures_attempt ensures_bind ensures_ensure ensures_held ensures_ite)

/-! ### Searching -/

/-- What the search has found in the slots before `i`. -/
structure FoundTo (n : Node) (name : List Byte) (i : Nat) (found : Found) : Prop where
  slot : ∀ k ino, found.slot = some (k, ino) → k < i ∧ n.Names k name ino
  absent : found.slot = none → ∀ k < i, ∀ ino, ¬ n.Names k name ino
  empty : ∀ k, found.emptyslot = some k → k < n.slots ∧ (n.entry k).ino = 0

section

variable {v : View} {s : Volume} {d : Ptr} {n : Node} {H : Halt → Prop} {E : Errno → Volume → Prop}

section

variable (shows : Shows v s) (here : v.vnode d = some SFS_ROOT_LOCATION) (listed : Listed v.files n)

include shows here listed

theorem Shows.findFrom (name : Name) {found : Found} {Q : Found → Volume → Prop} (i left : Nat)
    (sofar : FoundTo n name.val i found) (all : i + left = n.slots)
    (next : ∀ found t, Shows v t → FoundTo n name.val n.slots found → Q found t) :
    (findFrom d name found i left).Ensures H s Q E := by
  induction left generalizing s found i with
  | zero =>
    exact next found s shows (all ▸ sofar)
  | succ left ih =>
    have inside : i < n.slots := by omega
    rw [Sfs.findFrom, ensures_bind]
    apply shows.readdir here listed.root inside listed.fits
    intro t shows'
    rw [ensures_ite]
    refine ⟨fun free => ?_, fun used => ?_⟩
    · refine ih shows' (i + 1) ⟨?_, ?_, ?_⟩ (by omega)
      · intro k ino here
        obtain ⟨low, named⟩ := sofar.slot k ino here
        exact ⟨by omega, named⟩
      · intro none k low ino named
        rcases Nat.lt_succ_iff_lt_or_eq.mp low with low | rfl
        · exact sofar.absent none k low ino named
        · exact named.used (named.number.symm.trans free)
      · intro k same
        cases same
        exact ⟨inside, free⟩
    rw [ensures_ite]
    refine ⟨fun same => ?_, fun other => ?_⟩
    · have named : n.Names i name.val (n.entry i).ino := ⟨inside, rfl, used, same⟩
      rw [ensures_bind, ensures_ensure]
      refine ⟨fun none => ?_, fun twice => ?_⟩
      · refine ih shows' (i + 1) ⟨?_, nofun, sofar.empty⟩ (by omega)
        intro k ino same
        cases same
        exact ⟨Nat.lt_succ_self i, named⟩
      -- a name that was found before is in another slot
      obtain ⟨⟨k, ino⟩, found'⟩ := Option.ne_none_iff_exists'.mp twice
      obtain ⟨low, named'⟩ := sofar.slot k ino found'
      have same := listed.unique _ _ _ _ _ named' named
      omega
    refine ih shows' (i + 1) ⟨?_, ?_, sofar.empty⟩ (by omega)
    · intro k ino here
      obtain ⟨low, named⟩ := sofar.slot k ino here
      exact ⟨by omega, named⟩
    intro none k low ino named
    rcases Nat.lt_succ_iff_lt_or_eq.mp low with low | rfl
    · exact sofar.absent none k low ino named
    · exact other named.name

theorem Shows.dirNentries {Q : Nat → Volume → Prop} (next : Q n.slots s) :
    (sfsDirNentries d).Ensures H s Q E := by
  obtain ⟨sv, stands⟩ := shows.stands here
  cases stands.node.symm.trans listed.root
  have type : sv.inode.type = SFS_TYPE_DIR := listed.type
  have whole : sv.inode.size.toNat % 64 = 0 := listed.whole
  rw [sfsDirNentries, ensures_bind, ensures_svAt stands.here, ensures_bind, ensures_held type,
    ensures_bind, ensures_held whole]
  exact next

theorem Shows.dirFindname (name : Name) {Q : Found → Volume → Prop}
    (next : ∀ found t, Shows v t → FoundTo n name.val n.slots found → Q found t) :
    (sfsDirFindname d name).Ensures H s Q E := by
  rw [sfsDirFindname, ensures_bind]
  apply shows.dirNentries here listed
  refine shows.findFrom here listed name 0 n.slots ⟨nofun, ?_, nofun⟩ (Nat.zero_add _) next
  intro _ k low
  omega

end

/-- What the search says of the map. -/
theorem FoundTo.lookup {A : Files} {name : List Byte} {found : Found}
    (result : FoundTo n name n.slots found) (listed : Listed A n) :
    n.lookup name = found.slot.map Prod.snd := by
  cases slot : found.slot with
  | none =>
    rw [Option.map_none, listed.lookup_eq_none]
    intro k ino named
    exact result.absent slot k named.inside ino named
  | some place =>
    obtain ⟨k, ino⟩ := place
    rw [Option.map_some, listed.lookup_eq_some]
    exact ⟨k, (result.slot k ino slot).2⟩

/-! ### Entries for names -/

def LinkError (A : Files) (name : Name) (full : Prop) (e : Errno) : Prop :=
  (e = .EEXIST ∧ (directory A name).isSome) ∨ (e = .ENAMETOOLONG ∧ 60 ≤ name.val.length) ∨
    (e = .ENOSPC ∧ full) ∨ (e = .EINVAL ∧ ∃ n, A SFS_ROOT_LOCATION = some n ∧ n.slots = 1144)

theorem LinkError.mono {A : Files} {name : Name} {full full' : Prop} {e : Errno}
    (wrong : LinkError A name full e) (weaker : e = .ENOSPC → full → full') :
    LinkError A name full' e :=
  wrong.imp_right (Or.imp_right (Or.imp_left fun crowded =>
    ⟨crowded.1, weaker crowded.1 crowded.2⟩))

variable (shows : Shows v s) (here : v.vnode d = some SFS_ROOT_LOCATION)

section

variable (listed : Listed v.files n)

include shows here listed

theorem Shows.dirLink (name : Name) {ino : CUnsigned} (used : ino ≠ 0) :
    (sfsDirLink d name ino).Ensures H s
      (fun slot t => ∃ n', n.Put slot ⟨ino, strcpy 60 name.val⟩ n' ∧ slot ≤ n.slots ∧
        (slot < n.slots → (n.entry slot).ino = 0) ∧ n'.size.toNat ≤ 143 * 512 ∧
        name.val.length < 60 ∧ n.lookup name.val = none ∧
        Shows (v.setFile SFS_ROOT_LOCATION n') t)
      (fun e t => Shows v t ∧ LinkError v.files name t.Full e) := by
  rw [sfsDirLink, ensures_bind]
  apply shows.dirFindname here listed
  intro found t shows' result
  have lookup := result.lookup listed
  rw [ensures_ite]
  refine ⟨fun there => ⟨shows', .inl ⟨rfl, ?_⟩⟩, fun absent => ?_⟩
  · rw [listed.directory_eq, lookup, Option.isSome_map]
    exact there
  have none : found.slot = none := by simpa using absent
  rw [none] at lookup
  rw [ensures_ite]
  refine ⟨fun long => ⟨shows', .inr (.inl ⟨rfl, Nat.le_of_lt_succ long⟩)⟩, fun short => ?_⟩
  have fits : name.val.length < 60 := by
    have limit : SFS_NAMELEN = 60 := rfl
    omega
  -- the empty slot, or the end of the directory
  have write : ∀ slot, slot ≤ n.slots → (slot < n.slots → (n.entry slot).ino = 0) → ∀ u, Shows v u →
      (do sfsWritedir d ⟨ino, strcpy 60 name.val⟩ slot; return slot : Code Volume Nat).Ensures H u
        (fun slot t => ∃ n', n.Put slot ⟨ino, strcpy 60 name.val⟩ n' ∧ slot ≤ n.slots ∧
          (slot < n.slots → (n.entry slot).ino = 0) ∧ n'.size.toNat ≤ 143 * 512 ∧
          name.val.length < 60 ∧ n.lookup name.val = Option.none ∧
          Shows (v.setFile SFS_ROOT_LOCATION n') t)
        (fun e t => Shows v t ∧ LinkError v.files name t.Full e) := by
    intro slot inside free u shows''
    refine (shows''.writedir here listed.root inside listed.whole listed.fits
      (.inr used)).bind ?_ ?_
    · rintro _ t ⟨n', put, small, after⟩
      exact ⟨n', put, inside, free, small, fits, lookup, after⟩
    · rintro e t ⟨after, ⟨rfl, -, all⟩ | ⟨rfl, last⟩⟩
      · exact ⟨after, .inr (.inr (.inl ⟨rfl, all⟩))⟩
      · have few := listed.slots_le
        exact ⟨after, .inr (.inr (.inr ⟨rfl, n, listed.root, by omega⟩))⟩
  cases empty : found.emptyslot with
  | some slot =>
    obtain ⟨low, free⟩ := result.empty slot empty
    exact write slot low.le (fun _ => free) t shows'
  | none =>
    rw [ensures_bind]
    exact shows'.dirNentries here listed
      (write n.slots le_rfl (fun low => absurd low (by omega)) t shows')

/-- An entry that is in use has its block already. -/
theorem Shows.dirUnlink {slot : Nat} {name : List Byte} {ino : CUnsigned}
    (named : n.Names slot name ino) :
    (sfsDirUnlink d slot).Ensures H s
      (fun _ t => ∃ n', n.Put slot ⟨SFS_NOINO, fun _ => 0⟩ n' ∧
        Shows (v.setFile SFS_ROOT_LOCATION n') t) E := by
  refine (shows.writedir here listed.root named.inside.le listed.whole listed.fits
    (.inl named.inside)).mono ?_ ?_
  · rintro _ t ⟨n', put, -, after⟩
    exact ⟨n', put, after⟩
  rintro e t ⟨-, ⟨-, free, -⟩ | ⟨-, last⟩⟩
  · exact absurd (named.number.symm.trans free) named.used
  · have low := named.inside
    have few := listed.slots_le
    omega

end

/-- There was no memory. -/
def Lacking (v : View) (e : Errno) : Prop := e = .ENOMEM ∧ ∃ k, v.memory k = false

section

variable (sound : Sound v.files)

include shows here sound

theorem Shows.lookonce (name : Name) :
    (sfsLookonce d name).Ensures H s
      (fun r t => ∃ n ino, Listed v.files n ∧ n.Names r.2 name.val ino ∧
        directory v.files name = some ino ∧ Shows (v.take r.1 ino) t ∧
        (v.vnode r.1 = none ∨ v.vnode r.1 = some ino))
      (fun e t => Shows v t ∧ ((e = .ENOENT ∧ directory v.files name = none) ∨ Lacking v e)) := by
  obtain ⟨n, listed, -⟩ := id sound
  rw [sfsLookonce, ensures_bind]
  apply shows.dirFindname here listed
  intro found t shows' result
  have lookup := result.lookup listed
  cases slot : found.slot with
  | none =>
    rw [slot] at lookup
    exact ⟨shows', .inl ⟨rfl, (listed.directory_eq name).trans lookup⟩⟩
  | some place =>
    obtain ⟨k, ino⟩ := place
    rw [slot] at lookup
    obtain ⟨-, named⟩ := result.slot k ino slot
    obtain ⟨m, live⟩ := listed.live_of_lookup lookup
    refine (shows'.load live (listed.typed live)).bind ?_ ?_
    · rintro q u ⟨after, was⟩
      have resident : (v.take q ino).vnode q = some ino := update_self ..
      obtain ⟨sv, stands⟩ := after.stands resident
      rw [ensures_bind, ensures_svAt stands.here, ensures_bind, ensures_ensure]
      refine ⟨fun _ => ?_, fun unlinked => ?_⟩
      · exact ⟨n, ino, listed, named, (listed.directory_eq name).trans lookup, after, was⟩
      · have positive := sound.linkcount_ne_zero ((listed.directory_eq name).trans lookup)
          stands.node
        exact absurd positive unlinked
    · rintro e u ⟨after, rfl, lacks⟩
      exact ⟨after, .inr ⟨rfl, lacks⟩⟩

theorem Shows.sfsLookup (name : Name) :
    (sfsLookup d name).Ensures H s
      (fun p t => ∃ ino, directory v.files name = some ino ∧ Shows (v.take p ino) t ∧
        (v.vnode p = none ∨ v.vnode p = some ino))
      (fun e t => Shows v t ∧ ((e = .ENOENT ∧ directory v.files name = none) ∨ Lacking v e)) := by
  obtain ⟨n, listed, -⟩ := id sound
  obtain ⟨sv, stands⟩ := shows.stands here
  have type : sv.inode.type = SFS_TYPE_DIR := by
    cases stands.node.symm.trans listed.root
    exact listed.type
  rw [Sfs.sfsLookup, ensures_bind, ensures_svAt stands.here, if_neg (not_not.mpr type)]
  refine (shows.lookonce here sound name).bind ?_ fun _ _ => id
  rintro ⟨p, slot⟩ t ⟨-, ino, -, -, found, after, was⟩
  exact ⟨ino, found, after, was⟩

theorem Shows.sfsLookparent (path : Name) (buflen : Nat) :
    (sfsLookparent d path buflen).Ensures H s
      (fun r t => r = (d, path) ∧ Shows (v.take d SFS_ROOT_LOCATION) t)
      (fun e t => Shows v t ∧ e = .ENAMETOOLONG ∧ buflen ≤ path.val.length) := by
  obtain ⟨n, listed, -⟩ := sound
  obtain ⟨sv, stands⟩ := shows.stands here
  have type : sv.inode.type = SFS_TYPE_DIR := by
    cases stands.node.symm.trans listed.root
    exact listed.type
  rw [Sfs.sfsLookparent, ensures_bind, ensures_svAt stands.here, ensures_ite]
  refine ⟨fun wrong => absurd type wrong, fun _ => ?_⟩
  rw [ensures_ite]
  refine ⟨fun long => ⟨shows, rfl, Nat.le_of_lt_succ long⟩, fun _ => ?_⟩
  refine (shows.incref here).bind (fun _ t after => ?_) fun _ _ => False.elim
  exact ⟨rfl, after⟩

end

/-! ### References for a while -/

theorem View.vnode_take (v : View) {q : Ptr} {ino i : CUnsigned}
    (was : v.vnode q = none ∨ v.vnode q = some ino) (there : v.vnode d = some i) :
    (v.take q ino).vnode d = some i := by
  by_cases same : d = q
  · subst same
    rcases was with absent | resident
    · exact absurd (there.symm.trans absent) nofun
    · exact (update_self ..).trans (resident.symm.trans there)
  · exact (update_of_ne same ..).trans there

section

variable {q : Ptr} {ino : CUnsigned} (shows : Shows v s)
  (was : v.vnode q = none ∨ v.vnode q = some ino)

include shows was

/-- A reference was taken, files changed, and it is given back. -/
theorem Shows.take_drop (B : Files) :
    ({ v with files := B }.take q ino).drop q ino =
      { v with files := if v.refs q = 0 ∧ unlinked B ino = true then update B ino none
        else B } := by
  rcases was with absent | resident
  · obtain ⟨zero, -⟩ := shows.refs_eq_zero absent
    have back : update v.vnode q none = v.vnode := by
      rw [← absent, update_eq_self]
    simp [View.drop, View.take, zero, back]
  have pos := shows.refs_pos resident
  have back : update v.vnode q (some ino) = v.vnode := by
    rw [← resident, update_eq_self]
  have zero : v.refs q ≠ 0 := by omega
  simp [View.drop, View.take, zero, back]

/-- Giving back a reference: the files are sound, and the map is as it was. -/
theorem Shows.release {B : Files} {t : Volume} (closed : v.opens q ≤ v.refs q)
    (after : Shows ({ v with files := B }.take q ino) t) (sound : Sound B) :
    (sfsDecref q).Ensures H t
      (fun _ u => ∃ A', Sound A' ∧ directory A' = directory B ∧
        Shows { v with files := A' } u) E := by
  have resident : ({ v with files := B }.take q ino).vnode q = some ino := update_self ..
  refine (after.decref resident (fun last => ?_) fun n live zero => sound.plain live zero).mono ?_
    fun _ _ => id
  · have count : v.refs q + 1 = 1 := by
      simpa only [View.take, update_self] using last
    simp only [View.take]
    omega
  intro _ u dropped
  rw [shows.take_drop was] at dropped
  obtain ⟨m, live⟩ := after.live resident
  obtain ⟨sound', same⟩ := sound.forgets live (v.refs q = 0)
  exact ⟨_, sound', same, dropped⟩

/-- A file that has a name stays when a reference is given back. -/
theorem Shows.restore {t : Volume} (closed : v.opens q ≤ v.refs q) (after : Shows (v.take q ino) t)
    (linked : unlinked v.files ino = false) :
    (sfsDecref q).Ensures H t (fun _ u => Shows v u) E := by
  have resident : (v.take q ino).vnode q = some ino := update_self ..
  refine (after.decref resident (fun last => ?_) fun n live zero => ?_).mono
    (fun _ u dropped => ?_) fun _ _ => id
  · have count : v.refs q + 1 = 1 := by
      simpa only [View.take, update_self] using last
    simp only [View.take]
    omega
  · have found : v.files ino = some n := live
    rw [unlinked, found, Option.all_some, zero] at linked
    cases linked
  have same := shows.take_drop was v.files
  have kept : ¬(v.refs q = 0 ∧ unlinked v.files ino = true) := by
    rw [linked]
    rintro ⟨-, wrong⟩
    cases wrong
  rw [if_neg kept] at same
  rw [← show _ = v from same]
  exact dropped

end

/-- A new file that got no name goes with its only reference. -/
theorem Shows.abandon {p : Ptr} {ino : CUnsigned} {t : Volume} (shows : Shows v s)
    (new : v.vnode p = none) (dead : v.files ino = none)
    (after : Shows ((v.take p ino).setFile ino (Node.blank SFS_TYPE_FILE)) t) :
    (sfsDecref p).Ensures H t (fun _ u => Shows v u) E := by
  obtain ⟨unheld, closed⟩ := shows.refs_eq_zero new
  have resident : ((v.take p ino).setFile ino (Node.blank SFS_TYPE_FILE)).vnode p = some ino :=
    update_self ..
  refine (after.decref resident (fun _ => closed) fun m live _ => ?_).mono (fun _ u dropped => ?_)
    fun _ _ => id
  · cases (update_self ino _ v.files).symm.trans live
    rfl
  have last : unlinked (update v.files ino (some (Node.blank SFS_TYPE_FILE))) ino = true := by
    rw [unlinked, update_self]
    rfl
  have same := shows.take_drop (.inl new : v.vnode p = none ∨ v.vnode p = some ino)
    (update v.files ino (some (Node.blank SFS_TYPE_FILE)))
  rw [if_pos ⟨unheld, last⟩, update_idem, ← dead, update_eq_self] at same
  have final : Shows v u := by
    rw [← show _ = v from same]
    exact dropped
  exact final

/-! ### Making and removing names -/

/-- `sfs_creat` up to the entry for the new file. -/
def creatEntry (p : Ptr) (name : Name) : Code Volume Nat := do
  let _ ← sfsDirFindname p name
  let newguy ← sfsMakeobj SFS_TYPE_FILE
  sfsDirLink p name (← svAt newguy).ino

/-- `sfs_rename` up to where the file is released. -/
def renameEntry (dir : Ptr) (n1 n2 : Name) : Code Volume Unit := do
  let (g1, slot1) ← sfsLookonce dir n1
  renameHeld dir slot1 n2 g1

/-- The call fails on a volume that is then full. -/
def Crowded {α : Type} (c : Code Volume α) (s : Volume) : Prop :=
  ∃ t, c.run s = .failed .ENOSPC t ∧ t.Full

def CreatError (v : View) (name : Name) (excl : Bool) (full : Prop) (e : Errno) : Prop :=
  (e = .EEXIST ∧ excl = true ∧ (directory v.files name).isSome) ∨
    (e = .ENAMETOOLONG ∧ 60 ≤ name.val.length) ∨ (e = .ENOSPC ∧ full) ∨
    (e = .EINVAL ∧ ∃ n, v.files SFS_ROOT_LOCATION = some n ∧ n.slots = 1144) ∨ Lacking v e

/-- Nothing has changed, except that in one case a block is lost for want of memory. -/
def Unchanged (v : View) (t : Volume) (losing : Prop) : Prop :=
  (Shows v t ∧ ¬ losing) ∨ losing ∧ (∃ k, v.memory k = false) ∧
    ∃ b ∉ v.lost, Shows { v with lost := insert b v.lost } t

section

private theorem run_svAt {p : Ptr} {sv : SfsVnode} (there : s.heap p = some sv) :
    (svAt p).run s = .returned sv s := by
  rw [svAt, Call.run_bind (a := s) (t := s) rfl, there]
  rfl

include shows here

theorem Shows.sfsLink (sound : Sound v.files) (name : Name) {f : Ptr} {ino : CUnsigned}
    (file : v.vnode f = some ino) :
    (sfsLink d name f).Ensures H s
      (fun _ t => ∃ A', Sound A' ∧ directory v.files name = none ∧
        directory A' = update (directory v.files) name (some ino) ∧
        Shows { v with files := A' } t)
      (fun e t => Shows v t ∧ LinkError v.files name t.Full e) := by
  obtain ⟨n, indexed⟩ := sound
  obtain ⟨sv, stands⟩ := shows.stands file
  obtain ⟨m₀, live₀⟩ := shows.live file
  rw [Sfs.sfsLink, ensures_bind, ensures_svAt stands.here, stands.number]
  have used : ino ≠ 0 := by
    rintro rfl
    exact absurd (indexed.listed.zero.symm.trans live₀) nofun
  refine (shows.dirLink here indexed.listed name used).bind ?_ fun _ _ => id
  rintro slot t ⟨n', put, inside, free, fits, short, new, after⟩
  obtain ⟨m, live⟩ := after.live file
  obtain ⟨indexed', lookup⟩ := indexed.link put inside free fits short new live
  refine (after.setLinks file live (· + 1)).mono (fun _ u done => ?_)
    fun _ _ => False.elim
  refine ⟨_, ⟨_, indexed'⟩, ?_, directory_update indexed.listed indexed'.listed lookup, done⟩
  exact (indexed.listed.directory_eq name).trans new

variable (sound : Sound v.files)

include sound

theorem Shows.sfsCreat (name : Name) (excl : Bool) :
    (sfsCreat d name excl).Ensures H s
      (fun p t => ∃ A' ino, Sound A' ∧ Shows ({ v with files := A' }.take p ino) t ∧
        (v.vnode p = none ∨ v.vnode p = some ino) ∧
        ((directory v.files name = some ino ∧ excl = false ∧ A' = v.files) ∨
          (directory v.files name = none ∧ v.vnode p = none ∧ v.files ino = none ∧
            directory A' = update (directory v.files) name (some ino) ∧
            ∃ l, A' ino = some { Node.blank SFS_TYPE_FILE with linkcount := l })))
      (fun e t => Unchanged v t (e = .ENOMEM ∧ directory v.files name = none) ∧
        CreatError v name excl (Crowded (creatEntry d name) s) e) := by
  obtain ⟨n, indexed⟩ := id sound
  have listed := indexed.listed
  have search : (sfsDirFindname d name).Ensures H s
      (fun found t => Shows v t ∧ FoundTo n name.val n.slots found) fun _ _ => False :=
    shows.dirFindname here listed name fun _ _ after result => ⟨after, result⟩
  refine search.tracked.bind ?_ fun _ _ wrong => wrong.1.elim
  rintro found t ⟨⟨shows', result⟩, searched⟩
  have lookup := result.lookup listed
  cases slot : found.slot with
  | some place =>
    obtain ⟨k, ino⟩ := place
    rw [slot] at lookup
    have there : directory v.files name = some ino := (listed.directory_eq name).trans lookup
    obtain ⟨m, live⟩ := listed.live_of_lookup lookup
    rw [ensures_ite]
    refine ⟨fun exclusive => ?_, fun shared => ?_⟩
    · exact ⟨.inl ⟨shows', by simp⟩, .inl ⟨rfl, exclusive, by rw [there]; rfl⟩⟩
    refine (shows'.load live (listed.typed live)).mono ?_ ?_
    · rintro p u ⟨after, was⟩
      exact ⟨v.files, ino, sound, after, was, .inl ⟨there, by simpa using shared, rfl⟩⟩
    · rintro e u ⟨after, lacks⟩
      exact ⟨.inl ⟨after, by simp [there]⟩, .inr (.inr (.inr (.inr lacks)))⟩
  | none =>
    rw [slot] at lookup
    have absent : directory v.files name = none := (listed.directory_eq name).trans lookup
    refine (shows'.makeobj (show (opsOf SFS_TYPE_FILE).isSome from rfl)).tracked.bind ?_ ?_
    · rintro p u ⟨⟨ino, dead, new, made⟩, built⟩
      have used : ino ≠ 0 := by
        rintro rfl
        have there : update v.files 0 (some (Node.blank SFS_TYPE_FILE)) 0 = none :=
          made.zero
        cases there
      have other : ino ≠ SFS_ROOT_LOCATION := by
        rintro rfl
        exact nomatch dead.symm.trans listed.root
      obtain ⟨⟨n₁, indexed₁⟩, same⟩ := sound.add dead used
      have here₁ : ((v.take p ino).setFile ino (Node.blank SFS_TYPE_FILE)).vnode d =
          some SFS_ROOT_LOCATION := v.vnode_take (.inl new) here
      have file : ((v.take p ino).setFile ino (Node.blank SFS_TYPE_FILE)).vnode p = some ino :=
        update_self ..
      obtain ⟨sv, stands⟩ := made.stands file
      rw [ensures_bind, ensures_svAt stands.here, stands.number, ensures_bind,
        ensures_attempt]
      refine (made.dirLink here₁ indexed₁.listed name used).tracked.mono ?_ ?_
      · rintro place w ⟨⟨n', put, inside, free, fits, short, unused, after⟩, -⟩
        obtain ⟨m, live⟩ := after.live file
        obtain ⟨indexed', lookup⟩ := indexed₁.link put inside free fits short unused live
        refine (after.setLinks file live (· + 1)).bind (fun _ x done => ?_) fun _ _ => False.elim
        refine ⟨_, ino, ⟨_, indexed'⟩, done, .inl new, .inr ⟨absent, new, dead, ?_, m.linkcount + 1,
          ?_⟩⟩
        · rw [directory_update indexed₁.listed indexed'.listed lookup, same]
        have blank : m = Node.blank SFS_TYPE_FILE := by
          change update (update v.files ino _) SFS_ROOT_LOCATION _ ino = _ at live
          rw [update_of_ne other, update_self] at live
          exact (Option.some.inj live).symm
        subst blank
        exact update_self ..
      rintro e w ⟨⟨after, wrong⟩, entered⟩
      refine (shows.abandon new dead after).bind ?_ fun _ _ => False.elim
      intro _ x dropped
      refine ⟨.inl ⟨dropped, ?_⟩, ?_⟩
      · rintro ⟨rfl, -⟩
        simp [LinkError] at wrong
      rcases wrong with ⟨-, there⟩ | long | ⟨rfl, full⟩ | ⟨rfl, m, root, many⟩
      · have unnamed : directory ((v.take p ino).setFile ino (Node.blank SFS_TYPE_FILE)).files
            name = none := (congrFun same name).trans absent
        rw [unnamed] at there
        cases there
      · exact .inr (.inl long)
      · refine .inr (.inr (.inl ⟨rfl, w, ?_, full⟩))
        rw [creatEntry, Call.run_bind searched, Call.run_bind built,
          Call.run_bind (run_svAt stands.here), stands.number]
        exact entered
      · exact .inr (.inr (.inr (.inl ⟨rfl, m, (update_of_ne other.symm ..).symm.trans root, many⟩)))
    · rintro e u ⟨⟨rfl, rfl, full⟩ | ⟨rfl, lacks, b, -, -, unlost, after⟩, failed⟩
      · refine ⟨.inl ⟨shows', by simp⟩, .inr (.inr (.inl ⟨rfl, u, ?_, full⟩))⟩
        rw [creatEntry, Call.run_bind searched]
        exact Call.run_bind_failed failed
      · exact ⟨.inr ⟨⟨rfl, absent⟩, lacks, b, unlost, after⟩,
          .inr (.inr (.inr (.inr ⟨rfl, lacks⟩)))⟩

omit shows here sound in
/-- The count of links is above 0 after the entry is cleared, and goes down. -/
theorem Shows.unname {slot : Nat} {name : Name} {q : Ptr} {ino : CUnsigned} {n n' : Node}
    {u : Volume} (after : Shows (v.setFile SFS_ROOT_LOCATION n') u) (file : v.vnode q = some ino)
    (indexed : Indexed v.files n) (named : n.Names slot name.val ino)
    (put : n.Put slot ⟨SFS_NOINO, fun _ => 0⟩ n') :
    ∃ sv, u.heap q = some sv ∧ 0 < sv.inode.linkcount ∧
      (Sfs.setLinks q (· - 1)).Ensures H u
        (fun _ t => ∃ A', Sound A' ∧
          directory A' = update (directory v.files) name none ∧
          Shows { v with files := A' } t) E := by
  obtain ⟨m, live⟩ := after.live file
  obtain ⟨positive, indexed', lookup⟩ := indexed.unlink named put live
  obtain ⟨sv, stands⟩ := after.stands file
  refine ⟨sv, stands.here, ?_, (after.setLinks file live (· - 1)).mono (fun _ t done => ?_)
    fun _ _ => id⟩
  · cases stands.node.symm.trans live
    exact positive
  · exact ⟨_, ⟨_, indexed'⟩, directory_update indexed.listed indexed'.listed lookup, done⟩

omit here sound in
/-- `sfs_rename` while the file is held. -/
theorem Shows.renameHeld {slot : Nat} {n1 n2 : Name} {q : Ptr} {ino : CUnsigned} {n : Node}
    (root : v.vnode d = some SFS_ROOT_LOCATION) (file : v.vnode q = some ino)
    (indexed : Indexed v.files n) (named : n.Names slot n1.val ino) :
    (renameHeld d slot n2 q).Ensures H s
      (fun _ t => directory v.files n2 = none ∧ ∃ A', Sound A' ∧
        directory A' =
          update (update (directory v.files) n2 (some ino)) n1 none ∧
        Shows { v with files := A' } t)
      (fun e t => Shows v t ∧ LinkError v.files n2 t.Full e) := by
  obtain ⟨sv, stands⟩ := shows.stands file
  rw [Sfs.renameHeld, ensures_bind, ensures_svAt stands.here, stands.number]
  refine (shows.dirLink root indexed.listed n2 named.used).bind ?_ fun _ _ => id
  rintro slot2 t ⟨n', put, inside, free, fits, short, new, after⟩
  obtain ⟨m, live⟩ := after.live file
  obtain ⟨indexed', lookup⟩ := indexed.link put inside free fits short new live
  have moved := directory_update indexed.listed indexed'.listed lookup
  refine (after.setLinks file live (· + 1)).bind ?_ fun _ _ => False.elim
  intro _ u linked
  -- the slot that was free is not the one of the old name
  have apart : slot ≠ slot2 := by
    rintro rfl
    exact named.used (named.number.symm.trans (free named.inside))
  have still : (n'.relinked ino (m.linkcount + 1)).Names slot n1.val ino := by
    obtain ⟨size, contents, -⟩ := n'.relinked_same ino (m.linkcount + 1)
    rw [Node.names_congr size contents, put.names_iff indexed.listed.whole inside]
    exact .inr ⟨apart, named⟩
  rw [ensures_bind, ensures_attempt]
  refine (linked.dirUnlink root indexed'.listed still).mono ?_ fun _ _ => False.elim
  rintro _ w ⟨n'', put', cleared⟩
  obtain ⟨sv', resident, positive, down⟩ := cleared.unname file indexed' still put'
  rw [ensures_bind, ensures_svAt resident, ensures_bind, ensures_ensure]
  refine ⟨fun _ => down.mono ?_ fun _ _ => False.elim, fun wrong => absurd positive wrong⟩
  rintro _ x ⟨A', sound', same, done⟩
  refine ⟨(indexed.listed.directory_eq n2).trans new, A', sound', ?_, done⟩
  rw [same, ← moved]
  rfl

variable (fair : ∀ q, v.opens q ≤ v.refs q)

include fair

theorem Shows.sfsRemove (name : Name) :
    (sfsRemove d name).Ensures H s
      (fun _ t => ∃ A' ino, directory v.files name = some ino ∧ Sound A' ∧
        directory A' = update (directory v.files) name none ∧
        Shows { v with files := A' } t)
      (fun e t => Shows v t ∧ ((e = .ENOENT ∧ directory v.files name = none) ∨ Lacking v e)) := by
  obtain ⟨n, indexed⟩ := id sound
  refine (shows.lookonce here sound name).bind ?_ fun _ _ => id
  rintro ⟨q, slot⟩ t ⟨n₀, ino, listed, named, found, taken, was⟩
  cases listed.root.symm.trans indexed.listed.root
  have root : (v.take q ino).vnode d = some SFS_ROOT_LOCATION := v.vnode_take was here
  have file : (v.take q ino).vnode q = some ino := update_self ..
  rw [ensures_bind, ensures_attempt]
  refine (taken.dirUnlink root indexed.listed named).mono ?_ fun _ _ => False.elim
  rintro _ u ⟨n', put, after⟩
  obtain ⟨sv, resident, positive, down⟩ := after.unname file indexed named put
  rw [ensures_ite]
  refine ⟨fun _ => ?_, fun wrong => absurd rfl wrong⟩
  rw [ensures_bind, ensures_svAt resident, ensures_bind, ensures_held positive]
  refine down.bind ?_ fun _ _ => False.elim
  rintro _ w ⟨B, sound', same, done⟩
  refine (shows.release was (fair q) done sound').bind ?_ fun _ _ => False.elim
  rintro _ x ⟨A', sound'', same', final⟩
  exact ⟨A', ino, found, sound'', same'.trans same, final⟩

def RenameError (v : View) (n1 n2 : Name) (full : Prop) (e : Errno) : Prop :=
  (e = .ENOENT ∧ directory v.files n1 = none) ∨
    ((directory v.files n1).isSome ∧ LinkError v.files n2 full e) ∨ Lacking v e

theorem Shows.sfsRename (n1 n2 : Name)
    (panics : directory v.files n1 = some SFS_ROOT_LOCATION → H .renameNotFile) :
    (sfsRename d n1 d n2).Ensures H s
      (fun _ t => ∃ A' ino, directory v.files n1 = some ino ∧ directory v.files n2 = none ∧
        Sound A' ∧
        directory A' =
          update (update (directory v.files) n2 (some ino)) n1 none ∧
        Shows { v with files := A' } t)
      (fun e t => Shows v t ∧ RenameError v n1 n2 (Crowded (renameEntry d n1 n2) s) e) := by
  obtain ⟨n, indexed⟩ := id sound
  obtain ⟨sv, stands⟩ := shows.stands here
  rw [Sfs.sfsRename, ensures_bind, ensures_held rfl, ensures_bind, ensures_svAt stands.here,
    ensures_bind, ensures_held stands.number]
  refine (shows.lookonce here sound n1).tracked.bind ?_ ?_
  · rintro ⟨q, slot⟩ t ⟨⟨n₀, ino, listed, named, found, taken, was⟩, looked⟩
    cases listed.root.symm.trans indexed.listed.root
    have root : (v.take q ino).vnode d = some SFS_ROOT_LOCATION := v.vnode_take was here
    have file : (v.take q ino).vnode q = some ino := update_self ..
    obtain ⟨sv', stands'⟩ := taken.stands file
    rw [ensures_bind, ensures_svAt stands'.here, ensures_bind, ensures_ensure]
    refine ⟨fun _ => ?_, fun wrong => panics ?_⟩
    · rw [ensures_bind, ensures_attempt]
      refine (taken.renameHeld root file indexed named).tracked.mono ?_ ?_
      · rintro _ u ⟨⟨absent, B, sound', same, done⟩, -⟩
        refine (shows.release was (fair q) done sound').bind ?_ fun _ _ => False.elim
        rintro _ w ⟨A', sound'', same', final⟩
        exact ⟨A', ino, found, absent, sound'', same'.trans same, final⟩
      rintro e u ⟨⟨after, wrong⟩, failed⟩
      refine (shows.restore was (fair q) after ?_).bind ?_ fun _ _ => False.elim
      · exact sound.unlinked_eq_false found
      · intro _ w final
        refine ⟨final, .inr (.inl ⟨by rw [found]; rfl, wrong.mono fun full all => ⟨u, ?_, all⟩⟩)⟩
        rw [renameEntry, Call.run_bind looked, ← full]
        exact failed
    -- a file of another type is the root
    by_contra other
    have type := indexed.listed.files ino _ stands'.node fun same => other (same ▸ found)
    exact wrong type
  · rintro e t ⟨⟨after, absent | lacks⟩, -⟩
    · exact ⟨after, .inl absent⟩
    · exact ⟨after, .inr (.inr lacks)⟩

end

end

end Os161.Sfs
