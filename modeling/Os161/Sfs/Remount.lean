import Os161.Sfs.Names

/-!
# A volume that is mounted again

After `sfs_sync` the disk has everything that the volume has in memory. A mount of this disk
brings the same superblock, freemap and directory, and `sfs_loadvnode` brings the same files.
-/
namespace Os161.Sfs

open Foundation Vfs
open Volume (blank mounted)

/-- `sfs_loadvnode` brings a vnode of the file. -/
def Volume.Loads (u : Volume) (ino : CUnsigned) (n : Node) : Prop :=
  ∃ p t sv, (sfsLoadvnode ino SFS_TYPE_INVAL).run u = .returned p t ∧ t.heap p = some sv ∧
    sv.ino = ino ∧ sv.inode.node t.disk = n

/-- A volume without vnodes has all that another one has. -/
structure Restores (u s : Volume) : Prop where
  super : u.super = s.super
  nbits : u.freemap.nbits = s.freemap.nbits
  freemap : ∀ i < s.freemap.words, u.freemap.v i = s.freemap.v i
  names : u.names = s.names
  files : ∀ ino, s.Live ino → u.Loads ino (s.nodeOf ino)

section

variable {v : View} {s t : Volume} {ino : CUnsigned} {n : Node} {I : Inodes} {L : Set CUnsigned}
  {h o : Ptr → Nat} {i : Inode} {asked started : Nat}

/-- The inodes that are in use are on the disk. -/
theorem Synced.stored (synced : Synced t) (good : Backed I L h o t) (live : I ino = some i) :
    t.disk ino = i.toBlock := by
  rcases good.stored.away ino i live with ⟨p, sv, here, rfl⟩ | ⟨stored, -⟩
  · cases (good.stored.loaded p sv here).symm.trans live
    exact good.stored.clean p sv here (synced.vnodes p sv here)
  · exact stored

/-- The freemap is on the disk. -/
theorem Synced.mapOf (synced : Synced t) (good : Backed I L h o t) {i : Nat}
    (inside : i < t.freemap.words) :
    mapOf t.disk (SFS_BITBLOCKS t.super.nblocks).toNat i = t.freemap.v i := by
  have small := good.accounted.sane.small
  have blocks := @toNat_bitblocks t.super.nblocks (by omega)
  have bits := @toNat_bitmapsize t.super.nblocks (by omega)
  obtain ⟨size, -, -⟩ := good.accounted.sane.size
  rw [good.accounted.sane.nbits] at size
  apply mapOf_chunk
  · intro j below
    have number := toNat_mapLocation (show 2 + j < 2 ^ 32 by omega)
    have written := good.stored.map synced.freemapdirty (SFS_MAP_LOCATION + BitVec.ofNat 32 j)
      (by omega) (by omega)
    rw [written, number, Nat.add_sub_cancel_left]
  · omega

theorem plenty : ¬ ∃ k : Nat, (fun _ => true) k = false := by
  rintro ⟨_, wrong⟩
  cases wrong

theorem Shows.domount (shows : Shows v t) {Q : Unit → Volume → Prop}
    (next : ∀ asked started,
      Q () (mounted t.device t.disk (fun _ => true) asked started)) :
    sfsDomount.Ensures (fun _ => False) (blank t.device t.disk fun _ => true) Q
      fun _ _ => False := by
  obtain ⟨I, good, -⟩ := shows.holds
  have sane := good.accounted.sane
  have system := good.accounted.system
  have onDevice := BitVec.le_def.mp sane.onDevice
  have same := good.stored.super
  refine ensures_domount sane.blocksize ?_ ?_ ?_ next (fun lacks => absurd lacks plenty)
    fun broken => absurd broken sane.unbroken
  · rw [same]
    exact sane.magic
  · rw [same]
    exact sane.small.le.trans (by decide)
  · rw [same]
    omega

theorem Synced.marked (synced : Synced t) (good : Backed I L h o t) (live : I ino = some i) :
    (mounted t.device t.disk (fun _ => true) asked started).Marked ino := by
  have mem := good.accounted.ino_mem live
  have valid := BitVec.lt_def.mp (good.accounted.inside ino mem).1
  obtain ⟨size, room, -⟩ := good.accounted.sane.size
  have set : Bits.bit t.freemap.v ino.toNat = true := good.accounted.marked_of_held mem
  change Bits.bit (Sfs.mapOf t.disk (SFS_BITBLOCKS (superOf (t.disk 0)).nblocks).toNat) _ = true
  rw [Bits.bit, good.stored.super, synced.mapOf good (by omega)]
  exact set

theorem Shows.loads (shows : Shows v t) (synced : Synced t) (sound : Sound v.files)
    (live : v.files ino = some n) :
    (mounted t.device t.disk (fun _ => true) asked started).Loads ino n := by
  obtain ⟨I, good, files⟩ := shows.holds
  obtain ⟨ops, typed⟩ := Option.isSome_iff_exists.mp (sound.typed live)
  rw [files, Option.map_eq_some_iff] at live
  obtain ⟨i, live, rfl⟩ := live
  have mem := good.accounted.ino_mem live
  have valid := (good.accounted.inside ino mem).1
  have inode : Inode.load SFS_TYPE_INVAL (t.disk ino) = i := by
    rw [Inode.load, if_pos rfl, synced.stored good live, Inode.ofBlock_toBlock]
  have loaded : (sfsLoadvnode ino SFS_TYPE_INVAL).Ensures (fun _ => False)
      (mounted t.device t.disk (fun _ => true) asked started)
      (fun p u => ∃ sv, u.heap p = some sv ∧ sv.ino = ino ∧ sv.inode.node u.disk = i.node t.disk)
      fun _ _ => False := by
    refine ensures_readVnode (s := mounted t.device t.disk (fun _ => true) asked started)
      (good.accounted.sane.sector valid) ?_ (synced.marked good live) (.inl rfl)
      (show opsOf (Inode.load _ (t.disk ino)).type = some ops from inode ▸ typed) ?_
      (fun _ _ _ lacks => absurd lacks plenty)
      fun broken => absurd broken good.accounted.sane.unbroken
    · change ino < (superOf (t.disk 0)).nblocks
      rwa [good.stored.super]
    intro u alike _ _
    refine ⟨_, Volume.heap_add, rfl, ?_⟩
    change (Inode.load SFS_TYPE_INVAL (t.disk ino)).node u.disk = i.node t.disk
    rw [inode, alike.disk]
    rfl
  obtain ⟨p, u, ran, sv, here, number, node⟩ := loaded.returns
  exact ⟨p, u, sv, ran, here, number, node⟩

theorem Shows.nodeOf_mounted (shows : Shows v t) (synced : Synced t) (live : v.files ino = some n) :
    (mounted t.device t.disk (fun _ => true) asked started).nodeOf ino = n := by
  obtain ⟨I, good, files⟩ := shows.holds
  rw [files, Option.map_eq_some_iff] at live
  obtain ⟨i, live, rfl⟩ := live
  change (Inode.ofBlock (t.disk ino)).node t.disk = i.node t.disk
  rw [synced.stored good live, Inode.ofBlock_toBlock]

theorem Shows.restores (shows : Shows v s) (sound : Sound v.files) (after : Shows v t)
    (synced : Synced t) (same : SameSystem s t) :
    Restores (mounted t.device t.disk (fun _ => true) asked started) s := by
  obtain ⟨I, good, files⟩ := after.holds
  obtain ⟨n, indexed⟩ := id sound
  have root := indexed.listed.root
  refine ⟨?_, ?_, ?_, ?_, ?_⟩
  · rw [← same.super]
    exact good.stored.super
  · rw [← same.freemap, good.accounted.sane.nbits, ← good.stored.super]
    rfl
  · intro i inside
    rw [← same.freemap] at inside ⊢
    change Sfs.mapOf t.disk (SFS_BITBLOCKS (superOf (t.disk 0)).nblocks).toNat i = _
    rw [good.stored.super]
    exact synced.mapOf good inside
  · funext name
    rw [Volume.names, Volume.rootNode, after.nodeOf_mounted synced root, Volume.names,
      shows.rootNode indexed.listed]
  intro ino live
  obtain ⟨m, live⟩ := Option.isSome_iff_exists.mp ((shows.live_iff sound).mpr live)
  rw [shows.nodeOf live]
  exact after.loads synced sound live

end

namespace Session

/-- What `sfs_sync` leaves on the disk is all that the volume had. -/
theorem sync_remount {w₀ w : Session} {device : Device} {memory : Nat → Bool}
    (starts : w₀.Starts device memory) (reliable : ∀ n, device.outcome n = .ok)
    {history : List (Session × Request)} (run : Run (Computes Session.next) w₀ history w) :
    ∃ t u, sfsSync.run w.volume = .returned () t ∧
      sfsDomount.run (blank t.device t.disk fun _ => true) = .returned () u ∧
      Restores u w.volume := by
  obtain ⟨disk, fresh⟩ := starts.good reliable
  obtain ⟨v, good, -⟩ := fresh.run run
  obtain ⟨⟨⟩, t, synced, after, clean, same⟩ := good.shows.sync.returns
  obtain ⟨⟨⟩, u, mounted, restores⟩ := (after.domount (Q := fun _ u => Restores u w.volume)
    fun _ _ => good.shows.restores good.sound after clean same).returns
  exact ⟨t, u, synced, mounted, restores⟩

theorem sync_remount_creates :
    ∃ w₀ w history, w₀.Starts steady (fun _ => true) ∧ Run (Computes Session.next) w₀ history w ∧
      history.map Prod.snd = creates.reverse ∧ ∃ t u, sfsSync.run w.volume = .returned () t ∧
        sfsDomount.run (blank t.device t.disk fun _ => true) = .returned () u ∧
        Restores u w.volume := by
  obtain ⟨w₀, w, history, starts, run, same, -⟩ := created
  exact ⟨w₀, w, history, starts, run, same, sync_remount starts (fun _ => rfl) run⟩

/-! ### A write that is lost -/

/-- A disk of 4096 blocks that loses one write, which is reported as done. -/
def lossy : Device := ⟨SFS_BLOCKSIZE, 4096, fun n => if n = 8 then .lost else .ok⟩

/-- `sfs_loadvnode` panics after the mount. -/
def unloadable (ino : CUnsigned) (u : Volume) : Bool :=
  match (sfsLoadvnode ino SFS_TYPE_INVAL).run u with
  | .halted _ => true
  | _ => false

/-- What `sfs_sync` leaves is mounted again, with a check. -/
def remounted (s : Volume) (check : Volume → Bool) : Bool :=
  match sfsSync.run s with
  | .returned _ t =>
    match sfsDomount.run (blank t.device t.disk fun _ => true) with
    | .returned _ u => check u
    | _ => false
  | _ => false

private theorem of_remounted {s : Volume} {check : Volume → Bool}
    (holds : remounted s check = true) :
    ∃ t u, sfsSync.run s = .returned () t ∧
      sfsDomount.run (blank t.device t.disk fun _ => true) = .returned () u ∧
      check u = true := by
  rw [remounted] at holds
  split at holds
  next t synced =>
    split at holds
    next u mounted => exact ⟨t, u, synced, mounted, holds⟩
    next => cases holds
  next => cases holds

private theorem not_restores {s u : Volume} {ino : CUnsigned} (resident : s.Resident ino)
    (panics : unloadable ino u = true) : ¬ Restores u s := by
  intro restores
  obtain ⟨p, t, sv, ran, -⟩ := restores.files ino (.inr (.inr resident))
  rw [unloadable, ran] at panics
  cases panics

/-- The inode of the new file was not written, and its vnode is not dirty any more. All that the
device does from then on succeeds. -/
theorem sync_remount_lost :
    ∃ w₀ w history, w₀.Starts lossy (fun _ => true) ∧ Run (Computes Session.next) w₀ history w ∧
      (∀ n, w.volume.started ≤ n → lossy.outcome n = .ok) ∧
      ∃ t u, sfsSync.run w.volume = .returned () t ∧
        sfsDomount.run (blank t.device t.disk fun _ => true) = .returned () u ∧
        ¬ Restores u w.volume := by
  obtain ⟨w₀, w, history, starts, run, -, later, resident, forgets⟩ : ∃ w₀ w history,
      w₀.Starts lossy (fun _ => true) ∧ Run (Computes Session.next) w₀ history w ∧
      history.map Prod.snd = creates.reverse ∧ 8 < w.volume.started ∧ w.volume.Resident 3 ∧
        remounted w.volume (unloadable 3) = true :=
    exists_run (4096 * 512) ⟨[0x76], by decide⟩ (fun _ => Block.zero) (by decide) rfl
      (by decide +kernel)
  obtain ⟨t, u, synced, mounted, panics⟩ := of_remounted forgets
  refine ⟨w₀, w, history, starts, run, fun n low => if_neg (by omega), t, u, synced, mounted, ?_⟩
  exact not_restores resident panics

end Session

end Os161.Sfs
