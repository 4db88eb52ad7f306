import Os161.Sfs.Session

/-!
# The inodes that are in use

Which inodes are in use can be told from the volume itself: the root, those that an entry of the
directory refers to, and those that have a vnode in memory. They are the files of the view.
-/
namespace Os161.Sfs

open Foundation Vfs

namespace Volume

variable (s : Volume)

/-- The vnode of an inode, if it is in memory. -/
def resident (ino : CUnsigned) : Option SfsVnode :=
  (s.vnodes.find? fun p => (s.heap p).any (·.ino = ino)).bind s.heap

/-- An inode is in its vnode, or else on the disk. -/
def inodeOf (ino : CUnsigned) : Inode :=
  (s.resident ino).elim (Inode.ofBlock (s.disk ino)) (·.inode)

def nodeOf (ino : CUnsigned) : Node := (s.inodeOf ino).node s.disk

def rootNode : Node := s.nodeOf SFS_ROOT_LOCATION

/-- The map that the slots of the root directory are. -/
def names : NameMap := fun name => s.rootNode.lookup name.val

def Resident (ino : CUnsigned) : Prop := ∃ p ∈ s.vnodes, s.number p = some ino

/-- An entry of the directory refers to the inode. -/
def Named (ino : CUnsigned) : Prop :=
  ino ≠ 0 ∧ ∃ k < s.rootNode.slots, (s.rootNode.entry k).ino = ino

instance (ino : CUnsigned) : Decidable (s.Resident ino) :=
  inferInstanceAs (Decidable (∃ p ∈ s.vnodes, _))

instance (ino : CUnsigned) : Decidable (s.Named ino) :=
  inferInstanceAs (Decidable (_ ∧ ∃ k, k < _ ∧ _))

/-- The inodes with a property, as they are. -/
def inodes (live : CUnsigned → Prop) [DecidablePred live] : Inodes := fun ino =>
  if live ino then some (s.inodeOf ino) else none

end Volume

section

variable {v : View} {s : Volume} {p : Ptr} {ino : CUnsigned} {sv : SfsVnode} {n : Node}

theorem Shows.resident_eq (shows : Shows v s) (here : s.heap p = some sv) :
    s.resident sv.ino = some sv := by
  obtain ⟨I, good, -⟩ := shows.holds
  have listed : p ∈ s.vnodes := (good.tabled.table p).mpr (by rw [here]; rfl)
  rw [Volume.resident]
  cases found : s.vnodes.find? fun q => (s.heap q).any (·.ino = sv.ino) with
  | none =>
    have missed := List.find?_eq_none.mp found p listed
    simp [here] at missed
  | some q =>
    have same := List.find?_some found
    obtain ⟨sv', there, number⟩ := (Option.any_eq_true _ _).mp same
    have one : q = p :=
      good.tabled.distinct q p sv' sv there here (of_decide_eq_true number)
    rw [Option.bind_some, one, here]

private theorem resident_eq_none (absent : ∀ p sv, s.heap p = some sv → sv.ino ≠ ino) :
    s.resident ino = none := by
  rw [Volume.resident, List.find?_eq_none.mpr, Option.bind_none]
  intro q _ found
  obtain ⟨sv', there, number⟩ := (Option.any_eq_true _ _).mp found
  exact absent q sv' there (of_decide_eq_true number)

/-- The table of inodes is that of the volume. -/
theorem Shows.inodeOf {I : Inodes} {L : Set CUnsigned} {h o : Ptr → Nat} {i : Inode}
    (shows : Shows v s) (good : Backed I L h o s) (live : I ino = some i) : s.inodeOf ino = i := by
  rw [Volume.inodeOf]
  rcases good.stored.away ino i live with ⟨p, sv, here, rfl⟩ | ⟨stored, -⟩
  · cases (good.stored.loaded p sv here).symm.trans live
    rw [shows.resident_eq here, Option.elim_some]
  by_cases resident : ∃ p sv, s.heap p = some sv ∧ sv.ino = ino
  · obtain ⟨p, sv, here, rfl⟩ := resident
    cases (good.stored.loaded p sv here).symm.trans live
    rw [shows.resident_eq here, Option.elim_some]
  · rw [resident_eq_none fun p sv here same => resident ⟨p, sv, here, same⟩, Option.elim_none,
      stored, Inode.ofBlock_toBlock]

theorem Shows.nodeOf (shows : Shows v s) (live : v.files ino = some n) : s.nodeOf ino = n := by
  obtain ⟨I, good, files⟩ := shows.holds
  rw [files, Option.map_eq_some_iff] at live
  obtain ⟨i, live, rfl⟩ := live
  rw [Volume.nodeOf, shows.inodeOf good live]

theorem Shows.resident_iff (shows : Shows v s) : s.Resident ino ↔ ∃ p, v.vnode p = some ino := by
  obtain ⟨I, good, -⟩ := shows.holds
  constructor
  · rintro ⟨p, -, number⟩
    exact ⟨p, (shows.vnode p).trans number⟩
  rintro ⟨p, here⟩
  rw [shows.vnode] at here
  obtain ⟨sv, found, -⟩ := Option.map_eq_some_iff.mp here
  exact ⟨p, (good.tabled.table p).mpr (by rw [found]; rfl), here⟩

theorem Shows.rootNode (shows : Shows v s) (listed : Listed v.files n) : s.rootNode = n :=
  shows.nodeOf listed.root

theorem Shows.names (shows : Shows v s) (sound : Sound v.files) : s.names = directory v.files := by
  obtain ⟨n, indexed⟩ := sound
  funext name
  rw [Volume.names, shows.rootNode indexed.listed, indexed.listed.directory_eq]

theorem Shows.live_iff (shows : Shows v s) (sound : Sound v.files) :
    (v.files ino).isSome ↔ ino = SFS_ROOT_LOCATION ∨ s.Named ino ∨ s.Resident ino := by
  obtain ⟨n, indexed⟩ := id sound
  have listed := indexed.listed
  have root := shows.rootNode listed
  constructor
  · intro live
    obtain ⟨m, live⟩ := Option.isSome_iff_exists.mp live
    by_cases resident : ∃ p, v.vnode p = some ino
    · exact .inr (.inr (shows.resident_iff.mpr resident))
    -- a file without a vnode has links
    obtain ⟨I, good, files⟩ := shows.holds
    have found := live
    rw [files, Option.map_eq_some_iff] at found
    obtain ⟨i, found, rfl⟩ := found
    have linked : i.linkcount ≠ 0 := by
      rcases good.stored.away ino i found with ⟨p, sv, here, rfl⟩ | ⟨-, linked⟩
      · exact absurd ⟨p, by rw [shows.vnode, here, Option.map_some]⟩ resident
      · exact linked
    have count := sound.links live listed.root
    by_cases same : ino = SFS_ROOT_LOCATION
    · exact .inl same
    rw [if_neg same, Nat.add_zero] at count
    have pos : 0 < n.links ino := by
      rw [← count]
      exact Nat.pos_of_ne_zero fun zero => linked (BitVec.eq_of_toNat_eq zero)
    obtain ⟨k, low, number⟩ := Node.links_pos.mp pos
    exact .inr (.inl ⟨sound.zero_ne live, k, by rw [root]; exact low, by rw [root]; exact number⟩)
  rintro (rfl | ⟨used, k, low, number⟩ | resident)
  · rw [listed.root]
    rfl
  · rw [root] at low number
    have live := listed.live k low (by rwa [number])
    rwa [number] at live
  obtain ⟨p, here⟩ := shows.resident_iff.mp resident
  obtain ⟨m, live⟩ := shows.live here
  rw [live]
  rfl

end

end Os161.Sfs
