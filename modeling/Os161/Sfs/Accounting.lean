import Os161.Sfs.Presence

/-!
# The freemap

Between requests, the blocks that are marked in the freemap are those of the system and those
that inodes in use refer to, and no block is referred to twice.
-/
namespace Os161.Sfs

open Foundation Vfs

namespace Volume

/-- One with an entry of the directory or with a vnode in memory. -/
def Used (s : Volume) (ino : CUnsigned) : Prop := s.Named ino ∨ s.Resident ino

/-- The same, and always the root. -/
def Live (s : Volume) (ino : CUnsigned) : Prop := ino = SFS_ROOT_LOCATION ∨ s.Used ino

instance (s : Volume) : DecidablePred s.Used := fun ino =>
  inferInstanceAs (Decidable (s.Named ino ∨ s.Resident ino))

instance (s : Volume) : DecidablePred s.Live := fun ino =>
  inferInstanceAs (Decidable (ino = SFS_ROOT_LOCATION ∨ s.Used ino))

end Volume

/-- The blocks in use, when certain inodes are: an inode refers to its own block, and to what it
has as its direct and indirect blocks. -/
structure Accounting (s : Volume) (live : CUnsigned → Prop) [DecidablePred live] : Prop where
  marked : ∀ b, b < s.super.nblocks → (s.Marked b ↔
    b = SFS_SB_LOCATION ∨ b = SFS_ROOT_LOCATION ∨
      (2 ≤ b.toNat ∧ b.toNat < 2 + (SFS_BITBLOCKS s.super.nblocks).toNat) ∨
      b ∈ held (refs (s.inodes live) s.disk))
  once : Tidy (refs (s.inodes live) s.disk)
  apart : ∀ b ∈ held (refs (s.inodes live) s.disk),
    b < s.super.nblocks ∧ b ∉ System s.super.nblocks

/-- The panics and assertions about blocks that are not marked as they should be. -/
def freemapPanics : List Halt :=
  [.bitmap, .ballocInvalid, .busedOutOfRange, .markedFree, .foundUnallocated, .loadUnallocated]

section

variable {v : View} {s : Volume}

theorem refs_inodes {live : CUnsigned → Prop} [DecidablePred live] {ino : CUnsigned}
    (holds : live ino) (disk : CUnsigned → Block) (r : Option Ref) :
    refs (s.inodes live) disk (ino, r) = refs (fun _ => some (s.inodeOf ino)) disk (ino, r) := by
  have found : s.inodes live ino = some (s.inodeOf ino) := if_pos holds
  cases r <;> simp [refs, found]

theorem live_of_refs {live : CUnsigned → Prop} [DecidablePred live] {ino : CUnsigned}
    {disk : CUnsigned → Block} {r : Option Ref} (refers : refs (s.inodes live) disk (ino, r) ≠ 0) :
    live ino := by
  by_contra dead
  have absent : s.inodes live ino = none := if_neg dead
  cases r <;> simp [refs, absent] at refers

theorem Shows.inodes_live (shows : Shows v s) (sound : Sound v.files) {I : Inodes}
    {L : Set CUnsigned} {h o : Ptr → Nat} (good : Backed I L h o s)
    (files : ∀ ino, v.files ino = (I ino).map (·.node s.disk)) : s.inodes s.Live = I := by
  funext ino
  have live : s.Live ino ↔ (I ino).isSome := by
    rw [Volume.Live, Volume.Used, ← shows.live_iff sound, files, Option.isSome_map]
  rw [Volume.inodes]
  cases found : I ino with
  | none =>
    rw [found] at live
    rw [if_neg fun holds => nomatch live.mp holds]
  | some i =>
    rw [found] at live
    rw [if_pos (live.mpr rfl), shows.inodeOf good found]

theorem Shows.accounting (shows : Shows v s) (sound : Sound v.files) (kept : v.lost = ∅) :
    Accounting s s.Live := by
  obtain ⟨I, good, files⟩ := id shows.holds
  have same := shows.inodes_live sound good files
  obtain ⟨n, indexed⟩ := id sound
  have root : SFS_ROOT_LOCATION ∈ held (refs I s.disk) := by
    have live := indexed.listed.root
    rw [files, Option.map_eq_some_iff] at live
    obtain ⟨i, live, -⟩ := live
    exact good.accounted.ino_mem live
  refine ⟨fun b valid => ?_, ?_, ?_⟩
  · rw [same, good.accounted.marked b valid, kept]
    constructor
    · rintro ((rfl | map) | held | lost)
      · exact .inl rfl
      · exact .inr (.inr (.inl map))
      · exact .inr (.inr (.inr held))
      · exact absurd lost (Set.notMem_empty b)
    rintro (rfl | rfl | map | held)
    · exact .inl (.inl rfl)
    · exact .inr (.inl root)
    · exact .inl (.inr map)
    · exact .inr (.inl held)
  · rw [same]
    exact good.accounted.tidy
  · rw [same]
    exact good.accounted.inside

end

/-- In a session without a lack of memory no block is lost. -/
theorem Session.Starts.run {w₀ w : Session} {device : Device} {memory : Nat → Bool}
    (starts : w₀.Starts device memory) (reliable : ∀ n, device.outcome n = .ok)
    (plenty : ∀ k, memory k = true) {history : List (Session × Request)}
    (run : Run (Computes Session.next) w₀ history w) :
    ∃ v, w.Good v ∧ v.lost = ∅ ∧ v.memory = memory := by
  obtain ⟨disk, fresh⟩ := starts.good reliable
  obtain ⟨v, good, evolved⟩ := fresh.run run
  refine ⟨v, good, ?_, evolved.memory⟩
  rcases evolved.lost with same | ⟨k, lacks⟩
  · exact same
  · exact absurd (lacks.symm.trans (plenty k)) nofun

/-- After every request the accounts are right, and no request finds them wrong. -/
theorem Session.blocks_accounted {w₀ w : Session} {device : Device} {memory : Nat → Bool}
    (starts : w₀.Starts device memory) (reliable : ∀ n, device.outcome n = .ok)
    (plenty : ∀ k, memory k = true) {history : List (Session × Request)}
    (run : Run (Computes Session.next) w₀ history w) :
    Accounting w.volume w.volume.Live ∧
      ∀ r, w.Allows r → ∀ h, r.code.run w.volume = .halted h → h ∉ freemapPanics := by
  obtain ⟨v, good, kept, -⟩ := starts.run reliable plenty run
  refine ⟨good.shows.accounting good.sound kept, fun r allowed h halted => ?_⟩
  have may := (good.step allowed fun _ => id).halted halted
  have others : ∀ h ∈ odd ++ [.renameNotFile, .cannotLoadRoot], h ∉ freemapPanics := by decide
  exact others h may.mem

/-! ### A file is created and everything is given back -/

/-- A disk of 4096 blocks that never fails. -/
def steady : Device := ⟨SFS_BLOCKSIZE, 4096, fun _ => .ok⟩

/-- Root and file are released after the file has got a name. -/
def releases : List Request :=
  [.getroot, .creat 0 Session.letterA true, .decref 1, .decref 0]

/-- What the requests lead to: no vnode is in memory, and the root has a block of its own. -/
def Released (w : Session) : Prop :=
  w.volume.vnodes = [] ∧ (w.volume.inodeOf SFS_ROOT_LOCATION).direct 0 = 4 ∧
    ¬ w.volume.Named SFS_ROOT_LOCATION ∧ w.volume.freemap.isset 4 = true ∧
    w.volume.super.nblocks = 4096

instance : DecidablePred Released := fun _ => inferInstanceAs (Decidable (_ ∧ _ ∧ _ ∧ _ ∧ _))

theorem released :
    ∃ w₀ w history, w₀.Starts steady (fun _ => true) ∧ Run (Computes Session.next) w₀ history w ∧
      history.map Prod.snd = releases.reverse ∧ Released w :=
  Session.exists_run (4096 * 512) ⟨[0x76], by decide⟩ (fun _ => Block.zero) (by decide) rfl
    (by decide +kernel)

/-- A file is created, and its inode is written. -/
def Session.creates : List Request := [.getroot, .creat 0 Session.letterA true, .fsync 1]

theorem Session.created :
    ∃ w₀ w history, w₀.Starts steady (fun _ => true) ∧ Run (Computes Session.next) w₀ history w ∧
      history.map Prod.snd = creates.reverse ∧ (w.volume.heap 1).map (·.dirty) = some false :=
  exists_run (4096 * 512) ⟨[0x76], by decide⟩ (fun _ => Block.zero) (by decide) rfl
    (by decide +kernel)

theorem Session.blocks_accounted_released :
    ∃ w₀ w history, w₀.Starts steady (fun _ => true) ∧ Run (Computes Session.next) w₀ history w ∧
      history.map Prod.snd = releases.reverse ∧ Accounting w.volume w.volume.Live := by
  obtain ⟨w₀, w, history, starts, run, same, -⟩ := released
  exact ⟨w₀, w, history, starts, run, same,
    (Session.blocks_accounted starts (fun _ => rfl) (fun _ => rfl) run).1⟩

/-- The block of the root is in use then, though nothing that is `Used` refers to it. -/
theorem Session.used_not_accounted :
    ∃ w₀ w history, w₀.Starts steady (fun _ => true) ∧ Run (Computes Session.next) w₀ history w ∧
      ¬ Accounting w.volume w.volume.Used := by
  obtain ⟨w₀, w, history, starts, run, -, empty, block, unnamed, marked, size⟩ := released
  refine ⟨w₀, w, history, starts, run, fun wrong => ?_⟩
  obtain ⟨v, good, kept, -⟩ := starts.run (fun _ => rfl) (fun _ => rfl) run
  have right := good.shows.accounting good.sound kept
  have valid : (4 : CUnsigned) < w.volume.super.nblocks := by
    rw [size]
    decide
  rw [Bitmap.isset_eq] at marked
  rcases (wrong.marked 4 valid).mp marked with super | root | map | ⟨-, ⟨ino, r⟩, here⟩
  · exact absurd super (by decide)
  · exact absurd root (by decide)
  · rw [size] at map
    exact absurd map (by decide)
  -- the inode that refers to it is not the root, but in the right accounts the root does
  have used : w.volume.Used ino := live_of_refs (here.trans_ne (by decide))
  have other : ino ≠ SFS_ROOT_LOCATION := by
    rintro rfl
    rcases used with named | ⟨p, listed, -⟩
    · exact unnamed named
    · rw [empty] at listed
      exact absurd listed List.not_mem_nil
  have first : refs (w.volume.inodes w.volume.Live) w.volume.disk (ino, r) = 4 := by
    rw [refs_inodes (.inr used), ← refs_inodes used]
    exact here
  have second : refs (w.volume.inodes w.volume.Live) w.volume.disk
      (SFS_ROOT_LOCATION, some (.direct 0)) = 4 := by
    exact block
  have same := right.once (first.trans_ne (by decide)) (first.trans second.symm)
  exact other (congrArg Prod.fst same)

/-! ### Calls that fail to allocate -/

/-- The block is marked and nothing points to it. -/
structure Volume.Lost (s : Volume) (b : CUnsigned) : Prop where
  valid : b < s.super.nblocks
  marked : s.Marked b
  system : b ∉ System s.super.nblocks
  unheld : b ∉ held (refs (s.inodes s.Live) s.disk)

/-- A block that is marked now was so before, or something points to it. -/
def NoLeak (s t : Volume) : Prop := ∀ b, t.Lost b → s.Marked b

/-- If the call fails, it has lost no block. -/
def Thrifty {α : Type} (s : Volume) (c : Code Volume α) : Prop :=
  c.Ensures (fun _ => True) s (fun _ _ => True) fun _ t => NoLeak s t

theorem Shows.lost_iff {v : View} {s : Volume} {b : CUnsigned} (shows : Shows v s)
    (sound : Sound v.files) : s.Lost b ↔ b ∈ v.lost := by
  obtain ⟨I, good, files⟩ := id shows.holds
  have inodes := shows.inodes_live sound good files
  constructor
  · rintro ⟨valid, marked, system, unheld⟩
    rw [inodes] at unheld
    exact (((good.accounted.marked b valid).mp marked).resolve_left system).resolve_left unheld
  · intro lost
    obtain ⟨valid, system, unheld⟩ := good.accounted.lost b lost
    exact ⟨valid, (good.accounted.marked b valid).mpr (.inr (.inr lost)), system, inodes ▸ unheld⟩

theorem Shows.noLeak {v : View} {s t : Volume} (before : Shows v s) (after : Shows v t)
    (sound : Sound v.files) : NoLeak s t := fun _ lost =>
  ((before.lost_iff sound).mpr ((after.lost_iff sound).mp lost)).marked

/-- An empty volume of eight blocks, without memory for vnodes. -/
def tightVolume : Volume :=
  { Volume.blank ⟨SFS_BLOCKSIZE, 8, fun _ => .ok⟩ (fun _ => Block.zero) fun _ => false with
    super := { Super.ofBlock Block.zero with magic := SFS_MAGIC, nblocks := 8 }
    freemap := ⟨4096, fun ix => if ix = 0 then 7 else 255⟩ }

end Os161.Sfs
