import Os161.Sfs.Accounting
import Os161.Sfs.BlockMap

/-!
# What `sfs_sync` leaves on a device that fails

`sfs_sync` does not look at what `VOP_FSYNC` returns, and a write that the medium loses is
reported as done: the call can succeed although the block of an inode is not on the disk.
-/
namespace Os161.Sfs

open Foundation Vfs
open Call (ensures_bind ensures_state)

/-- The table of vnodes is in order, and what is kept in memory has blocks of its own. -/
structure Mounted (s : Volume) : Prop where
  small : s.super.nblocks.toNat < 2 ^ 22
  onDevice : s.super.nblocks ≤ s.device.blocks
  system : 2 + (SFS_BITBLOCKS s.super.nblocks).toNat ≤ s.super.nblocks.toNat
  nodup : s.vnodes.Nodup
  table : ∀ p ∈ s.vnodes, ∃ sv, s.heap p = some sv ∧ sv.locked = false ∧ sv.refcount ≠ 0 ∧
    sv.ino < s.super.nblocks ∧ sv.ino ∉ System s.super.nblocks
  distinct : ∀ p ∈ s.vnodes, ∀ q ∈ s.vnodes, ∀ sv sv', s.heap p = some sv → s.heap q = some sv' →
    sv.ino = sv'.ino → p = q

/-- What is not dirty is as it is on the disk. -/
structure Reflected (s : Volume) : Prop where
  inodes : ∀ p ∈ s.vnodes, ∀ sv, s.heap p = some sv → sv.dirty = false →
    s.disk sv.ino = sv.inode.toBlock
  map : s.freemapdirty = false → ∀ j, j < (SFS_BITBLOCKS s.super.nblocks).toNat →
    s.disk (SFS_MAP_LOCATION + BitVec.ofNat 32 j) = chunk s.freemap.v j
  super : s.superdirty = false → s.disk SFS_SB_LOCATION = s.super.toBlock

/-- Nothing is dirty, and everything is on the disk. -/
structure OnDisk (s : Volume) : Prop where
  clean : ∀ p ∈ s.vnodes, ∀ sv, s.heap p = some sv → sv.dirty = false
  freemapdirty : s.freemapdirty = false
  superdirty : s.superdirty = false
  inodes : ∀ p ∈ s.vnodes, ∀ sv, s.heap p = some sv → s.disk sv.ino = sv.inode.toBlock
  map : ∀ j, j < (SFS_BITBLOCKS s.super.nblocks).toNat →
    s.disk (SFS_MAP_LOCATION + BitVec.ofNat 32 j) = chunk s.freemap.v j
  super : s.disk SFS_SB_LOCATION = s.super.toBlock

section

variable {s t : Volume} {p : Ptr} {sv : SfsVnode} {H : Halt → Prop} {E : Errno → Volume → Prop}
  {b : CUnsigned} {n : Nat}

theorem Mounted.sector (mounted : Mounted s) (valid : b < s.super.nblocks) :
    sectorOf b = b ∧ sectorOf b + 1 ≤ s.device.blocks := by
  have small := mounted.small
  have below := BitVec.lt_def.mp valid
  have device := BitVec.le_def.mp mounted.onDevice
  exact sectorOf_inside (by omega) (by omega)

/-- A block of the map is one of the system's, behind the superblock. -/
theorem Mounted.mapBlock (mounted : Mounted s) {j : Nat}
    (below : j < (SFS_BITBLOCKS s.super.nblocks).toNat) :
    (SFS_MAP_LOCATION + BitVec.ofNat 32 j).toNat = 2 + j ∧
      SFS_MAP_LOCATION + BitVec.ofNat 32 j ∈ System s.super.nblocks := by
  have system := mounted.system
  have number := toNat_mapLocation (show 2 + j < 2 ^ 32 by omega)
  exact ⟨number, .inr ⟨by omega, by omega⟩⟩

/-- Changes that the table does not see. -/
theorem Mounted.congr (mounted : Mounted s) (super : t.super = s.super)
    (device : t.device = s.device) (vnodes : t.vnodes = s.vnodes) (heap : t.heap = s.heap) :
    Mounted t := by
  constructor
  · rw [super]
    exact mounted.small
  · rw [super, device]
    exact mounted.onDevice
  · rw [super]
    exact mounted.system
  · rw [vnodes]
    exact mounted.nodup
  · rw [vnodes, heap, super]
    exact mounted.table
  · rw [vnodes, heap]
    exact mounted.distinct

/-! ### Vnodes -/

/-- The writes that these vnodes are due. -/
def Volume.pending (s : Volume) (ps : List Ptr) : List (CUnsigned × Block) :=
  ps.filterMap fun p => (s.heap p).bind fun sv =>
    if sv.dirty = true then some (sv.ino, sv.inode.toBlock) else none

/-- From `s` to `t` these writes were made. -/
structure Issued (s : Volume) (ws : List (CUnsigned × Block)) (t : Volume) : Prop where
  system : SameSystem s t
  vnodes : t.vnodes = s.vnodes
  disk : t.disk = s.device.written s.started ws s.disk
  started : t.started = s.started + ws.length

theorem Issued.trans {u : Volume} {ws ws' : List (CUnsigned × Block)} (first : Issued s ws t)
    (second : Issued t ws' u) : Issued s (ws ++ ws') u where
  system := first.system.trans second.system
  vnodes := second.vnodes.trans first.vnodes
  disk := by rw [second.disk, first.system.device, first.started, first.disk, written_append]
  started := by rw [second.started, first.started, List.length_append, Nat.add_assoc]

/-- From `s` to `t` these vnodes were flushed: those whose write has not failed are clean. -/
structure Flushed (ps : List Ptr) (s t : Volume) : Prop where
  issued : Issued s (s.pending ps) t
  flags : t.freemapdirty = s.freemapdirty ∧ t.superdirty = s.superdirty
  others : ∀ q ∉ ps, t.heap q = s.heap q
  inodes : ∀ q sv, s.heap q = some sv → ∃ d, t.heap q = some { sv with dirty := d }
  clean : (∀ q ∈ ps, ∀ sv, t.heap q = some sv → sv.dirty = false) ↔
    ∀ k < (s.pending ps).length, s.device.outcome (s.started + k) ≠ .fails

/-- What `VOP_FSYNC` does to the volume. -/
def Volume.fsynced (s : Volume) (p : Ptr) (sv : SfsVnode) : Volume :=
  if sv.dirty = false then s
  else if s.device.outcome s.started = .fails then { s with started := s.started + 1 }
  else Volume.put { s with
    started := s.started + 1
    disk := s.device.commit s.started (sv.ino, sv.inode.toBlock) s.disk } p
      { sv with dirty := false }

theorem Mounted.fsync (mounted : Mounted s) (mem : p ∈ s.vnodes) (here : s.heap p = some sv) :
    (vopFsync p).attempt.Ensures H s (fun _ t => t = s.fsynced p sv) E := by
  obtain ⟨sv', there, free, counted, valid, -⟩ := mounted.table p mem
  cases here.symm.trans there
  have cleaned {s' : Volume} (found : s'.heap p = some sv)
      (done : s'.put p { sv with dirty := false } = s.fsynced p sv) :
      (alterSv p ({ · with dirty := false })).Ensures H s' (fun _ t => t = s.fsynced p sv)
        (fun _ t => t = s.fsynced p sv) := (ensures_alterSv found).mpr done
  have inode : (sfsSyncInode p).attempt.Ensures H s (fun _ t => t = s.fsynced p sv) E := by
    rw [Call.ensures_attempt, sfsSyncInode, ensures_bind, ensures_svAt here, Call.ensures_ite]
    refine ⟨fun dirty => ?_, fun clean => (if_pos (Bool.eq_false_iff.mpr clean)).symm⟩
    have stale : ¬ sv.dirty = false := by rw [dirty]; decide
    rw [ensures_bind]
    refine ensures_write (mounted.sector valid) (fun passes => cleaned here ?_) fun fails => ?_
    · have data : (s.heap p).elim Block.zero (·.inode.toBlock) = sv.inode.toBlock := by
        rw [here, Option.elim_some]
      rw [data, Volume.fsynced, if_neg stale, if_neg passes]
    · rw [Volume.fsynced, if_neg stale, if_pos fails]
  rw [Call.ensures_attempt] at inode ⊢
  rw [vopFsync, vop, ensures_bind, ensures_check here free counted, ensures_bind,
    ensures_svAt here]
  cases sv.ops <;> exact inode

private theorem flushed_one (here : s.heap p = some sv) : Flushed [p] s (s.fsynced p sv) := by
  unfold Volume.fsynced
  split
  next clean =>
    have none : s.pending [p] = [] := by simp [Volume.pending, here, clean]
    refine ⟨⟨⟨rfl, rfl, rfl⟩, rfl, by rw [none]; rfl, by rw [none]; rfl⟩, ⟨rfl, rfl⟩,
      fun _ _ => rfl, fun q sv' there => ⟨sv'.dirty, there⟩, iff_of_true ?_ ?_⟩
    · intro q only sv' there
      cases List.mem_singleton.mp only
      cases here.symm.trans there
      exact clean
    · rw [none]
      exact fun k below => absurd below (Nat.not_lt_zero k)
  next dirty =>
    have one : s.pending [p] = [(sv.ino, sv.inode.toBlock)] := by
      simp [Volume.pending, here, Bool.of_not_eq_false dirty]
    split
    next fails =>
      have failed : s.device.commit s.started (sv.ino, sv.inode.toBlock) s.disk = s.disk :=
        if_neg (by rw [fails]; decide)
      refine ⟨⟨⟨rfl, rfl, rfl⟩, rfl, by rw [one]; exact failed.symm, by rw [one]; rfl⟩, ⟨rfl, rfl⟩,
        fun _ _ => rfl, fun q sv' there => ⟨sv'.dirty, there⟩, iff_of_false ?_ ?_⟩
      · exact fun all => dirty (all p (List.mem_singleton_self p) sv here)
      · rw [one]
        exact fun all => all 0 (Nat.lt_succ_self 0) fails
    next passes =>
      refine ⟨⟨⟨rfl, rfl, rfl⟩, rfl, by rw [one]; rfl, by rw [one]; rfl⟩, ⟨rfl, rfl⟩,
        fun q other => Volume.heap_put_of_ne (fun same => other (by simp [same])),
        fun q sv' there => ?_, iff_of_true ?_ ?_⟩
      · by_cases same : q = p
        · subst same
          cases here.symm.trans there
          exact ⟨false, Volume.heap_put⟩
        · exact ⟨sv'.dirty, (Volume.heap_put_of_ne same).trans there⟩
      · intro q only sv' there
        cases List.mem_singleton.mp only
        cases there.symm.trans Volume.heap_put
        rfl
      · rw [one]
        intro k below
        obtain rfl : k = 0 := Nat.lt_one_iff.mp below
        exact passes

theorem forall_lt_add {a b : Nat} {P : Nat → Prop} :
    (∀ k < a + b, P k) ↔ (∀ k < a, P k) ∧ ∀ k < b, P (a + k) := by
  refine ⟨fun all => ⟨fun k below => all k (by omega), fun k below => all _ (by omega)⟩, ?_⟩
  rintro ⟨low, high⟩ k below
  rcases Nat.lt_or_ge k a with inside | beyond
  · exact low k inside
  · have here := high (k - a) (by omega)
    rwa [Nat.add_sub_cancel' beyond] at here

theorem Flushed.trans {ps qs : List Ptr} {u : Volume} (first : Flushed ps s t)
    (second : Flushed qs t u) (apart : ∀ q ∈ qs, q ∉ ps) : Flushed (ps ++ qs) s u := by
  have same : t.pending qs = s.pending qs :=
    List.filterMap_congr fun q member => by rw [first.others q (apart q member)]
  have parts : s.pending (ps ++ qs) = s.pending ps ++ t.pending qs := by
    rw [same, Volume.pending, Volume.pending, Volume.pending, List.filterMap_append]
  refine ⟨parts ▸ first.issued.trans second.issued, ⟨second.flags.1.trans first.flags.1,
    second.flags.2.trans first.flags.2⟩, fun q other => ?_, fun q sv here => ?_, ?_⟩
  · rw [List.mem_append, not_or] at other
    exact (second.others q other.2).trans (first.others q other.1)
  · obtain ⟨d, there⟩ := first.inodes q sv here
    obtain ⟨d', later⟩ := second.inodes q _ there
    exact ⟨d', later⟩
  · have kept : ∀ q ∈ ps, u.heap q = t.heap q := fun q member =>
      second.others q fun other => apart q other member
    have device := first.issued.system.device
    have started := first.issued.started
    rw [parts, List.length_append, forall_lt_add, ← first.clean, List.forall_mem_append]
    simp only [← Nat.add_assoc]
    rw [← started, ← device, ← second.clean]
    exact and_congr_left' (forall₂_congr fun q member => by rw [kept q member])

theorem Mounted.flushed {ps : List Ptr} (mounted : Mounted s) (flushed : Flushed ps s t) :
    Mounted t := by
  have numbers : ∀ q ∈ s.vnodes, ∀ sv, t.heap q = some sv →
      ∃ sv', s.heap q = some sv' ∧ sv'.ino = sv.ino := by
    intro q member sv found
    obtain ⟨sv', there, -⟩ := mounted.table q member
    obtain ⟨d, later⟩ := flushed.inodes q sv' there
    cases found.symm.trans later
    exact ⟨sv', there, rfl⟩
  obtain ⟨⟨⟨super, -, device⟩, vnodes, -, -⟩, -, -, inodes, -⟩ := flushed
  constructor
  · rw [super]
    exact mounted.small
  · rw [super, device]
    exact mounted.onDevice
  · rw [super]
    exact mounted.system
  · rw [vnodes]
    exact mounted.nodup
  · rw [vnodes, super]
    intro q member
    obtain ⟨sv, here, facts⟩ := mounted.table q member
    obtain ⟨d, later⟩ := inodes q sv here
    exact ⟨_, later, facts⟩
  · rw [vnodes]
    intro q member r member' sv₁ sv₂ found found' same
    obtain ⟨sv₁', there, ino⟩ := numbers q member sv₁ found
    obtain ⟨sv₂', there', ino'⟩ := numbers r member' sv₂ found'
    exact mounted.distinct q member r member' sv₁' sv₂' there there'
      (ino.trans (same.trans ino'.symm))

theorem Mounted.syncVnodes {Q : Unit → Volume → Prop} {i : Nat} (mounted : Mounted s) (left : Nat)
    (all : i + left = s.vnodes.length) (next : ∀ t, Flushed (s.vnodes.drop i) s t → Q () t) :
    (syncVnodes i left).Ensures H s Q E := by
  induction left generalizing s i with
  | zero =>
    refine next s ?_
    rw [List.drop_eq_nil_of_le (by omega)]
    exact ⟨⟨⟨rfl, rfl, rfl⟩, rfl, rfl, rfl⟩, ⟨rfl, rfl⟩, fun _ _ => rfl,
      fun q sv here => ⟨sv.dirty, here⟩, by simp [Volume.pending]⟩
  | succ left ih =>
    have inside : i < s.vnodes.length := by omega
    have place : s.vnodes[i]? = some s.vnodes[i] := List.getElem?_eq_getElem inside
    obtain ⟨sv, here, -⟩ := mounted.table _ (List.getElem_mem inside)
    rw [Sfs.syncVnodes, ensures_bind, ensures_state, place]
    refine (mounted.fsync (List.getElem_mem inside) here).bind ?_ fun _ _ => id
    rintro _ t rfl
    have one := flushed_one here
    refine ih (mounted.flushed one) (by rw [one.issued.vnodes]; omega) fun u later => next u ?_
    rw [one.issued.vnodes] at later
    rw [List.drop_eq_getElem_cons inside]
    refine one.trans later fun q member only => ?_
    rw [List.mem_singleton.mp only] at member
    have nodup := (List.drop_sublist i s.vnodes).nodup mounted.nodup
    rw [List.drop_eq_getElem_cons inside, List.nodup_cons] at nodup
    exact nodup.1 member

/-! ### The map and the superblock -/

def Volume.mapPending (s : Volume) : List (CUnsigned × Block) :=
  if s.freemapdirty = true then mapWrites s 0 (SFS_BITBLOCKS s.super.nblocks).toNat else []

def Volume.superPending (s : Volume) : List (CUnsigned × Block) :=
  if s.superdirty = true then [(SFS_SB_LOCATION, s.super.toBlock)] else []

/-- The writes of `sfs_sync`, in their order. -/
def Volume.writes (s : Volume) : List (CUnsigned × Block) :=
  s.pending s.vnodes ++ (s.mapPending ++ s.superPending)

section

variable {ps : List Ptr} {w : CUnsigned × Block}

theorem mem_pending :
    w ∈ s.pending ps ↔
      ∃ p ∈ ps, ∃ sv, s.heap p = some sv ∧ sv.dirty = true ∧ (sv.ino, sv.inode.toBlock) = w := by
  simp [Volume.pending, Option.bind_eq_some_iff]

theorem mem_mapPending :
    w ∈ s.mapPending ↔ s.freemapdirty = true ∧ ∃ j < (SFS_BITBLOCKS s.super.nblocks).toNat,
      (SFS_MAP_LOCATION + BitVec.ofNat 32 j, chunk s.freemap.v j) = w := by
  unfold Volume.mapPending
  split <;> simp [mapWrites, *]

theorem mem_superPending :
    w ∈ s.superPending ↔ s.superdirty = true ∧ (SFS_SB_LOCATION, s.super.toBlock) = w := by
  unfold Volume.superPending
  split <;> simp [*, eq_comm]

/-- Inodes, the map and the superblock lie in different blocks. -/
theorem Mounted.pending_outside (mounted : Mounted s) (member : w ∈ s.pending s.vnodes) :
    w.1 ∉ System s.super.nblocks := by
  obtain ⟨p, listed, sv, here, -, rfl⟩ := mem_pending.mp member
  obtain ⟨sv', there, -, -, -, other⟩ := mounted.table p listed
  cases here.symm.trans there
  exact other

theorem Mounted.map_inside (mounted : Mounted s) (member : w ∈ s.mapPending) :
    2 ≤ w.1.toNat ∧ w.1 ∈ System s.super.nblocks := by
  obtain ⟨-, j, below, rfl⟩ := mem_mapPending.mp member
  obtain ⟨number, inside⟩ := mounted.mapBlock below
  exact ⟨by dsimp only; omega, inside⟩

theorem superPending_first (member : w ∈ s.superPending) : w.1 = SFS_SB_LOCATION := by
  obtain ⟨-, rfl⟩ := mem_superPending.mp member
  rfl

theorem Mounted.nodup_pending (mounted : Mounted s) :
    ((s.pending s.vnodes).map Prod.fst).Nodup := by
  have apart : s.vnodes.Pairwise fun p q => ∀ sv sv', s.heap p = some sv →
      s.heap q = some sv' → sv.ino ≠ sv'.ino := by
    refine List.Pairwise.imp_of_mem ?_ mounted.nodup
    exact fun here there other sv sv' found found' same =>
      other (mounted.distinct _ here _ there sv sv' found found' same)
  refine List.pairwise_map.mpr (apart.filterMap _ ?_)
  intro p q other w found w' found'
  obtain ⟨sv, here, due⟩ := Option.bind_eq_some_iff.mp found
  obtain ⟨sv', there, due'⟩ := Option.bind_eq_some_iff.mp found'
  rw [Option.ite_none_right_eq_some] at due due'
  rw [← Option.some.inj due.2, ← Option.some.inj due'.2]
  exact other sv sv' here there

theorem Mounted.nodup_writes (mounted : Mounted s) : (s.writes.map Prod.fst).Nodup := by
  have small := mounted.small
  have system := mounted.system
  have zero : SFS_SB_LOCATION.toNat = 0 := rfl
  rw [Volume.writes, List.map_append, List.map_append, List.nodup_append', List.nodup_append']
  refine ⟨mounted.nodup_pending, ⟨?_, ?_, ?_⟩, ?_⟩
  · unfold Volume.mapPending
    split
    · exact nodup_mapWrites (by omega)
    · exact List.nodup_nil
  · unfold Volume.superPending
    split
    · exact List.nodup_singleton _
    · exact List.nodup_nil
  · rintro b first second
    obtain ⟨w, member, rfl⟩ := List.mem_map.mp first
    obtain ⟨w', member', same⟩ := List.mem_map.mp second
    have inside := (mounted.map_inside member).1
    rw [← same, superPending_first member'] at inside
    omega
  · rintro b first second
    obtain ⟨w, member, rfl⟩ := List.mem_map.mp first
    refine mounted.pending_outside member ?_
    rcases List.mem_append.mp second with second | second
    · obtain ⟨w', member', same⟩ := List.mem_map.mp second
      exact same ▸ (mounted.map_inside member').2
    · obtain ⟨w', member', same⟩ := List.mem_map.mp second
      exact .inl (same ▸ superPending_first member')

end

/-- A volume with all its writes made is on the disk just if the device has kept them. -/
theorem Mounted.onDisk_iff {u : Volume} (mounted : Mounted s) (reflected : Reflected s)
    (flushed : Flushed s.vnodes s t) (issued : Issued s s.writes u) (heap : u.heap = t.heap)
    (freemap : u.freemapdirty = false) (super : u.superdirty = false)
    (passed : ∀ k < (s.mapPending ++ s.superPending).length,
      s.device.outcome (s.started + ((s.pending s.vnodes).length + k)) ≠ .fails) :
    OnDisk u ↔ s.device.Keeps s.disk s.started s.writes := by
  have zero : SFS_SB_LOCATION.toNat = 0 := rfl
  obtain ⟨⟨sameSuper, sameMap, -⟩, vnodes, disk, -⟩ := issued
  rw [keeps_iff mounted.nodup_writes, ← disk, Volume.writes, List.length_append, forall_lt_add,
    and_iff_left passed, ← flushed.clean, ← heap]
  simp only [List.forall_mem_append]
  constructor
  · intro done
    refine ⟨vnodes ▸ done.clean, fun w member => ?_, fun w member => ?_, fun w member => ?_⟩
    · obtain ⟨p, listed, sv, here, -, rfl⟩ := mem_pending.mp member
      obtain ⟨d, there⟩ := flushed.inodes p sv here
      exact done.inodes p (vnodes ▸ listed) { sv with dirty := d } ((congrFun heap p).trans there)
    · obtain ⟨-, j, below, rfl⟩ := mem_mapPending.mp member
      exact sameMap ▸ done.map j (sameSuper ▸ below)
    · obtain ⟨-, rfl⟩ := mem_superPending.mp member
      exact sameSuper ▸ done.super
  · rintro ⟨clean, inodes, map, first⟩
    have kept : ∀ b, (∀ w ∈ s.pending s.vnodes, w.1 ≠ b) → (∀ w ∈ s.mapPending, w.1 ≠ b) →
        (∀ w ∈ s.superPending, w.1 ≠ b) → u.disk b = s.disk b := by
      intro b others others' others''
      rw [disk, written_of_ne]
      simp only [Volume.writes, List.forall_mem_append]
      exact ⟨others, others', others''⟩
    refine ⟨vnodes ▸ clean, freemap, super, fun p listed sv found => ?_, fun j below => ?_, ?_⟩
    · rw [vnodes] at listed
      obtain ⟨old, here, -, -, -, other⟩ := mounted.table p listed
      obtain ⟨d, there⟩ := flushed.inodes p old here
      cases found.symm.trans ((congrFun heap p).trans there)
      cases dirty : old.dirty with
      | true => exact inodes _ (mem_pending.mpr ⟨p, listed, old, here, dirty, rfl⟩)
      | false =>
        refine (kept _ (fun w member same => ?_) (fun w member same => ?_)
          fun w member same => ?_).trans (reflected.inodes p listed old here dirty)
        · obtain ⟨q, listed', sv', here', dirty', rfl⟩ := mem_pending.mp member
          cases mounted.distinct q listed' p listed sv' old here' here same
          cases here.symm.trans here'
          exact absurd (dirty.symm.trans dirty') (by decide)
        · exact other (same ▸ (mounted.map_inside member).2)
        · exact other (.inl (same.symm.trans (superPending_first member)))
    · rw [sameSuper] at below
      rw [sameMap]
      cases dirty : s.freemapdirty with
      | true => exact map _ (mem_mapPending.mpr ⟨dirty, j, below, rfl⟩)
      | false =>
        obtain ⟨number, inside⟩ := mounted.mapBlock below
        refine (kept _ (fun w member same => ?_) (fun w member same => ?_)
          fun w member same => ?_).trans (reflected.map dirty j below)
        · exact mounted.pending_outside member (same ▸ inside)
        · exact absurd (dirty.symm.trans (mem_mapPending.mp member).1) (by decide)
        · rw [← same, superPending_first member, zero] at number
          omega
    · rw [sameSuper]
      cases dirty : s.superdirty with
      | true => exact first _ (mem_superPending.mpr ⟨dirty, rfl⟩)
      | false =>
        refine (kept _ (fun w member same => ?_) (fun w member same => ?_)
          fun w member same => ?_).trans (reflected.super dirty)
        · exact mounted.pending_outside member (.inl same)
        · have low := (mounted.map_inside member).1
          rw [same, zero] at low
          omega
        · exact absurd (dirty.symm.trans (mem_superPending.mp member).1) (by decide)

theorem Backed.mounted {I : Inodes} {L : Set CUnsigned} {h o : Ptr → Nat}
    (good : Backed I L h o s) : Mounted s where
  small := good.accounted.sane.small
  onDevice := good.accounted.sane.onDevice
  system := good.accounted.system
  nodup := good.tabled.nodup
  table p mem := by
    obtain ⟨sv, here⟩ := Option.isSome_iff_exists.mp ((good.tabled.table p).mp mem)
    obtain ⟨vnode, counted, -⟩ := good.tabled.counts p sv here
    have ino := good.accounted.ino_mem (good.stored.loaded p sv here)
    obtain ⟨valid, other⟩ := good.accounted.inside _ ino
    refine ⟨sv, here, ?_, ?_, valid, other⟩
    · rw [vnode]
    · rw [vnode]
      exact Nat.ne_of_gt counted
  distinct p _ q _ sv sv' here there same := good.tabled.distinct p q sv sv' here there same

/-- Between requests every vnode has an inode of its own, and what is not dirty is as it is on the
disk. -/
theorem Session.cache_coherent {w₀ w : Session} {device : Device} {memory : Nat → Bool}
    (starts : w₀.Starts device memory) (reliable : ∀ n, device.outcome n = .ok)
    {history : List (Session × Request)} (run : Run (Computes Session.next) w₀ history w) :
    Mounted w.volume ∧
    (∀ p sv, w.volume.heap p = some sv → sv.dirty = false →
      w.volume.disk sv.ino = sv.inode.toBlock) ∧
    (w.volume.freemapdirty = false → ∀ j < (SFS_BITBLOCKS w.volume.super.nblocks).toNat,
      w.volume.disk (SFS_MAP_LOCATION + BitVec.ofNat 32 j) = chunk w.volume.freemap.v j) := by
  obtain ⟨disk, fresh⟩ := starts.good reliable
  obtain ⟨v, good, -⟩ := fresh.run run
  obtain ⟨I, backed, -⟩ := good.shows.holds
  refine ⟨backed.mounted, backed.stored.clean, fun clean j below => ?_⟩
  have system := backed.accounted.system
  have number := toNat_mapLocation (show 2 + j < 2 ^ 32 by omega)
  rw [backed.stored.map clean _ (by omega) (by omega), number, Nat.add_sub_cancel_left]

/-- The new file is in memory, not dirty. -/
theorem Session.cache_coherent_created :
    ∃ w₀ w history sv, w₀.Starts steady (fun _ => true) ∧
      Run (Computes Session.next) w₀ history w ∧ history.map Prod.snd = creates.reverse ∧
      Mounted w.volume ∧ w.volume.heap 1 = some sv ∧ w.volume.disk sv.ino = sv.inode.toBlock := by
  obtain ⟨w₀, w, history, starts, run, same, clean⟩ := created
  obtain ⟨sv, here, clean⟩ := Option.map_eq_some_iff.mp clean
  obtain ⟨mounted, inodes, -⟩ := Session.cache_coherent starts (fun _ => rfl) run
  exact ⟨w₀, w, history, sv, starts, run, same, mounted, here, inodes 1 sv here clean⟩

end

/-! ### A dirty vnode -/

/-- A volume on which everything is dirty; the outcomes are those of the device. -/
def dirtyVolume (outcome : Nat → Outcome) : Volume :=
  { smallVolume 15 (emptyInode 0) fun _ => Block.zero with
    superdirty := true
    freemapdirty := true
    heap := fun p => if p = 0 then some { smallFile (emptyInode 0) with dirty := true } else none
    device := { blocksize := SFS_BLOCKSIZE, blocks := 8, outcome := outcome } }

private theorem mounted_dirtyVolume (outcome : Nat → Outcome) : Mounted (dirtyVolume outcome) where
  small := show (8 : CUnsigned).toNat < 2 ^ 22 by decide
  onDevice := show (8 : CUnsigned) ≤ 8 by decide
  system := show 2 + (SFS_BITBLOCKS 8).toNat ≤ (8 : CUnsigned).toNat by decide
  nodup := List.nodup_singleton 0
  table p mem := by
    cases List.mem_singleton.mp mem
    refine ⟨_, rfl, rfl, show (1 : Nat) ≠ 0 by decide, show (3 : CUnsigned) < 8 by decide, ?_⟩
    rintro (zero | ⟨-, high⟩)
    · exact absurd zero (show ¬ (3 : CUnsigned) = 0 by decide)
    · exact absurd high (show ¬ (3 : CUnsigned).toNat < 2 + (SFS_BITBLOCKS 8).toNat by decide)
  distinct p mem q mem' _ _ _ _ _ := by
    rw [List.mem_singleton.mp mem, List.mem_singleton.mp mem']

private theorem reflected_dirtyVolume (outcome : Nat → Outcome) :
    Reflected (dirtyVolume outcome) where
  inodes p mem sv here clean := by
    cases List.mem_singleton.mp mem
    cases here
    cases clean
  map clean := by cases clean
  super clean := by cases clean

end Os161.Sfs
