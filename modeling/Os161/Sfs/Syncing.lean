import Os161.Sfs.View

/-!
# `sfs_sync`

Every vnode is written, then the freemap; the view stays as it is, and nothing is dirty.
-/
namespace Os161.Sfs

open Foundation Vfs
open Call (ensures_bind ensures_pure ensures_state)

section

variable {v : View} {s t : Volume} {p q : Ptr} {ino ino' : CUnsigned} {sv sv' : SfsVnode} {n : Node}
  {H : Halt → Prop} {E : Errno → Volume → Prop} {Q : Unit → Volume → Prop}

/-- The vnodes before place `i` are written. -/
def CleanTo (s : Volume) (i : Nat) : Prop :=
  ∀ j < i, ∀ p sv, s.vnodes[j]? = some p → s.heap p = some sv → sv.dirty = false

theorem CleanTo.flushed {i : Nat} (clean : CleanTo s i) (here : s.heap p = some sv)
    (place : s.vnodes[i]? = some p) : CleanTo (s.flushed p sv) (i + 1) := by
  have vnodes : (s.flushed p sv).vnodes = s.vnodes := by
    rw [Volume.flushed]
    split <;> rfl
  have others : ∀ q, q ≠ p → (s.flushed p sv).heap q = s.heap q := by
    intro q other
    rw [Volume.flushed]
    split
    · exact Volume.heap_put_of_ne other
    · rfl
  intro j below q sv' found there
  rw [vnodes] at found
  by_cases same : q = p
  · subst same
    cases there.symm.trans (Volume.heap_flushed here)
    rfl
  rw [others q same] at there
  have before : j < i := by
    rcases Nat.lt_succ_iff_lt_or_eq.mp below with before | rfl
    · exact before
    · exact absurd (Option.some.inj (found.symm.trans place)) same
  exact clean j before q sv' found there

/-- What `sfs_sync` never changes. -/
structure SameSystem (s t : Volume) : Prop where
  super : t.super = s.super
  freemap : t.freemap = s.freemap
  device : t.device = s.device

theorem SameSystem.trans {r s t : Volume} (first : SameSystem r s) (second : SameSystem s t) :
    SameSystem r t :=
  ⟨second.super.trans first.super, second.freemap.trans first.freemap,
    second.device.trans first.device⟩

/-- The flush of one vnode leaves the rest as it is. -/
theorem Volume.flushed_frame (s : Volume) (p : Ptr) (sv : SfsVnode) :
    (s.flushed p sv).vnodes = s.vnodes ∧ SameSystem s (s.flushed p sv) := by
  rw [flushed]
  split <;> exact ⟨rfl, rfl, rfl, rfl⟩

theorem Shows.syncVnodes (shows : Shows v s) (i left : Nat) (clean : CleanTo s i)
    (all : i + left = s.vnodes.length)
    (next : ∀ t, Shows v t → CleanTo t t.vnodes.length → SameSystem s t → Q () t) :
    (syncVnodes i left).Ensures H s Q E := by
  induction left generalizing s i with
  | zero =>
    exact next s shows (all ▸ clean) ⟨rfl, rfl, rfl⟩
  | succ left ih =>
    have inside : i < s.vnodes.length := by omega
    have place : s.vnodes[i]? = some s.vnodes[i] := List.getElem?_eq_getElem inside
    have resident : (v.vnode s.vnodes[i]).isSome := by
      obtain ⟨⟨I, good, -⟩, vnode, -⟩ := shows
      rw [vnode, Option.isSome_map]
      exact (good.tabled.table _).mp (List.getElem_mem inside)
    obtain ⟨ino, here⟩ := Option.isSome_iff_exists.mp resident
    obtain ⟨sv, stands⟩ := shows.stands here
    obtain ⟨vnodes, system⟩ := s.flushed_frame s.vnodes[i] sv
    rw [Sfs.syncVnodes, ensures_bind, ensures_state, place, ensures_bind,
      Call.ensures_expect_some, ensures_bind, Call.ensures_attempt, stands.fsync]
    refine ih (shows.flushed stands) (i + 1) (clean.flushed stands.here place)
      (by rw [vnodes]; omega) ?_
    intro t shows' clean' same
    exact next t shows' clean' (system.trans same)

/-! ### A series of writes -/

/-- The disk after these writes, from operation `n` on. -/
def Device.written (device : Device) :
    Nat → List (CUnsigned × Block) → (CUnsigned → Block) → CUnsigned → Block
  | _, [], disk => disk
  | n, w :: ws, disk => device.written (n + 1) ws (device.commit n w disk)

/-- No write fails, and those that are lost are of blocks that were on the disk already. -/
def Device.Keeps (device : Device) (disk : CUnsigned → Block) :
    Nat → List (CUnsigned × Block) → Prop
  | _, [] => True
  | n, w :: ws => (device.outcome n = .ok ∨ device.outcome n = .lost ∧ disk w.1 = w.2) ∧
      device.Keeps disk (n + 1) ws

section

variable {device : Device} {disk disk' : CUnsigned → Block} {m : Nat}
  {ws : List (CUnsigned × Block)} {w : CUnsigned × Block} {b : CUnsigned}

theorem commit_of_ne (other : w.1 ≠ b) : device.commit m w disk b = disk b := by
  unfold Device.commit
  split
  · exact Function.update_of_ne other.symm ..
  · rfl

theorem written_of_ne (others : ∀ w ∈ ws, w.1 ≠ b) : device.written m ws disk b = disk b := by
  induction ws generalizing m disk with
  | nil => rfl
  | cons w ws ih =>
    rw [Device.written, ih (List.forall_mem_of_forall_mem_cons others),
      commit_of_ne (others w List.mem_cons_self)]

theorem written_append (ws' : List (CUnsigned × Block)) :
    device.written m (ws ++ ws') disk =
      device.written (m + ws.length) ws' (device.written m ws disk) := by
  induction ws generalizing m disk with
  | nil => rfl
  | cons w ws ih =>
    rw [List.cons_append, Device.written, ih, List.length_cons, Nat.add_right_comm, ← Nat.add_assoc]
    rfl

theorem Keeps.congr (same : ∀ w ∈ ws, disk' w.1 = disk w.1) :
    device.Keeps disk' m ws ↔ device.Keeps disk m ws := by
  induction ws generalizing m with
  | nil => rfl
  | cons w ws ih =>
    rw [Device.Keeps, Device.Keeps, ih (List.forall_mem_of_forall_mem_cons same),
      same w List.mem_cons_self]

theorem keeps_of_ok (ok : ∀ k, device.outcome k = .ok) : device.Keeps disk m ws := by
  induction ws generalizing m with
  | nil => trivial
  | cons w ws ih => exact ⟨.inl (ok m), ih⟩

/-- What is on the disk after writes of different blocks. -/
theorem keeps_iff (nodup : (ws.map Prod.fst).Nodup) :
    device.Keeps disk m ws ↔ (∀ k < ws.length, device.outcome (m + k) ≠ .fails) ∧
      ∀ w ∈ ws, device.written m ws disk w.1 = w.2 := by
  induction ws generalizing m disk with
  | nil => simp [Device.Keeps]
  | cons w ws ih =>
    rw [List.map_cons, List.nodup_cons] at nodup
    have apart : ∀ w' ∈ ws, w.1 ≠ w'.1 := fun w' member same =>
      nodup.1 (same ▸ List.mem_map_of_mem member)
    have first : device.written (m + 1) ws (device.commit m w disk) w.1 =
        if device.outcome m = .ok then w.2 else disk w.1 := by
      rw [written_of_ne fun w' member => (apart w' member).symm, Device.commit]
      split
      · exact Function.update_self ..
      · rfl
    have steps : (∀ k < (w :: ws).length, device.outcome (m + k) ≠ .fails) ↔
        device.outcome m ≠ .fails ∧ ∀ k < ws.length, device.outcome (m + 1 + k) ≠ .fails := by
      rw [List.length_cons, Nat.forall_lt_succ_left]
      simp only [Nat.add_zero, Nat.add_right_comm, ← Nat.add_assoc]
    have same : device.Keeps (device.commit m w disk) (m + 1) ws ↔ device.Keeps disk (m + 1) ws :=
      Keeps.congr fun w' member => commit_of_ne (apart w' member)
    rw [Device.Keeps, steps, List.forall_mem_cons, Device.written, first, ← same, ih nodup.2]
    cases outcome : device.outcome m <;> simp [and_left_comm]

end

/-- The blocks of the map, from the `j`th on. -/
def mapWrites (s : Volume) (j left : Nat) : List (CUnsigned × Block) :=
  (List.range' j left).map fun j => (SFS_MAP_LOCATION + BitVec.ofNat 32 j, chunk s.freemap.v j)

theorem nodup_mapWrites {j left : Nat} (small : 2 + j + left < 2 ^ 32) :
    ((mapWrites s j left).map Prod.fst).Nodup := by
  rw [mapWrites, List.map_map]
  refine List.Nodup.map_on (fun a here b there same => ?_) List.nodup_range'
  rw [List.mem_range'_1] at here there
  have first := toNat_mapLocation (show 2 + a < 2 ^ 32 by omega)
  have second := toNat_mapLocation (show 2 + b < 2 ^ 32 by omega)
  have numbers := congrArg BitVec.toNat same
  simp only [Function.comp] at numbers
  omega

/-- The map is written if the device does not fail. -/
theorem ensures_mapWrite (small : s.super.nblocks.toNat < 2 ^ 22)
    (onDevice : s.super.nblocks ≤ s.device.blocks) (j left : Nat)
    (fits : 2 + j + left ≤ s.super.nblocks.toNat)
    (next : (∀ k < left, s.device.outcome (s.started + k) ≠ .fails) → Q () { s with
      disk := s.device.written s.started (mapWrites s j left) s.disk
      started := s.started + left })
    (broken : ∀ k t, s.device.outcome k = .fails → E .EIo t) :
    (mapWrite j left).Ensures H s Q E := by
  induction left generalizing j s with
  | zero => exact next fun k none => absurd none (Nat.not_lt_zero k)
  | succ left ih =>
    have number := toNat_mapLocation (show 2 + j < 2 ^ 32 by omega)
    have device := BitVec.le_def.mp onDevice
    rw [mapWrite, ensures_bind]
    refine ensures_write (sectorOf_inside (by omega) (by omega)) (fun passes => ?_)
      fun fails => broken _ _ fails
    refine ih ?_ ?_ (j + 1) ?_ (fun rest => ?_) ?_
    · exact small
    · exact onDevice
    · change _ ≤ s.super.nblocks.toNat
      omega
    swap
    · exact broken
    have total : s.started + 1 + left = s.started + (left + 1) := by omega
    dsimp only at rest ⊢
    rw [total]
    refine next fun k below => ?_
    cases k with
    | zero => exact passes
    | succ k =>
      have later := rest k (by omega)
      rwa [Nat.add_right_comm, Nat.add_assoc] at later

theorem Shows.mapWritten (shows : Shows v s) {disk : CUnsigned → Block}
    (outside : ∀ b, (2 ≤ b.toNat → 2 + (SFS_BITBLOCKS s.super.nblocks).toNat ≤ b.toNat) →
      disk b = s.disk b)
    (map : ∀ j < (SFS_BITBLOCKS s.super.nblocks).toNat,
      disk (SFS_MAP_LOCATION + BitVec.ofNat 32 j) = chunk s.freemap.v j) (started : Nat) :
    Shows v { s with disk := disk, started := started, freemapdirty := false } := by
  obtain ⟨⟨I, good, files⟩, vnode, memory⟩ := shows
  have system := good.accounted.system
  have other : ∀ b, b ∉ System s.super.nblocks → disk b = s.disk b := fun b far =>
    outside b fun low => Nat.le_of_not_lt fun high => far (.inr ⟨low, high⟩)
  have trees : ∀ ino i, I ino = some i → ∀ b ∈ held (i.tree s.disk), disk b = s.disk b :=
    fun ino i live b mem => other b (good.accounted.inside b (Accounted.tree_mem live mem)).2
  have inodes : ∀ ino i, I ino = some i → disk ino = s.disk ino := fun ino i live =>
    other ino (good.accounted.inside ino (good.accounted.ino_mem live)).2
  refine ⟨⟨I, ⟨good.tabled.congr rfl rfl le_rfl,
    good.accounted.congr rfl rfl rfl (refs_congr trees), ?_⟩, fun ino => ?_⟩, vnode, memory⟩
  · exact {
      loaded := good.stored.loaded
      clean := by
        intro q sv found clean
        rw [← good.stored.clean q sv found clean]
        exact inodes _ _ (good.stored.loaded q sv found)
      away := by
        intro ino i live
        rcases good.stored.away ino i live with resident | ⟨stored, linked⟩
        · exact .inl resident
        · exact .inr ⟨(inodes ino i live).trans stored, linked⟩
      map := by
        intro _ b low high
        have high : b.toNat < 2 + (SFS_BITBLOCKS s.super.nblocks).toNat := high
        have number := toNat_mapLocation (show 2 + (b.toNat - 2) < 2 ^ 32 by omega)
        have same : SFS_MAP_LOCATION + BitVec.ofNat 32 (b.toNat - 2) = b :=
          BitVec.eq_of_toNat_eq (by omega)
        rw [← map _ (by omega), same]
      superdirty := good.stored.superdirty
      super := (congrArg superOf (outside 0 fun low => absurd low (by decide))).trans
        good.stored.super }
  · rw [files]
    cases live : I ino with
    | none => rw [Option.map_none, Option.map_none]
    | some i => rw [Option.map_some, Option.map_some, node_congr (trees ino i live)]

private theorem mem_mapWrites {w : CUnsigned × Block} {j left : Nat}
    (member : w ∈ mapWrites s j left) :
    ∃ k, j ≤ k ∧ k < j + left ∧
      w = (SFS_MAP_LOCATION + BitVec.ofNat 32 k, chunk s.freemap.v k) := by
  obtain ⟨k, inside, rfl⟩ := List.mem_map.mp member
  rw [List.mem_range'_1] at inside
  exact ⟨k, inside.1, inside.2, rfl⟩

/-- Nothing is dirty. -/
structure Synced (s : Volume) : Prop where
  vnodes : ∀ p sv, s.heap p = some sv → sv.dirty = false
  freemapdirty : s.freemapdirty = false

theorem Shows.sync (shows : Shows v s) :
    sfsSync.Ensures H s (fun _ t => Shows v t ∧ Synced t ∧ SameSystem s t) E := by
  -- every vnode is at some place of the array
  have clean_all : ∀ t, Shows v t → CleanTo t t.vnodes.length →
      ∀ p sv, t.heap p = some sv → sv.dirty = false := by
    intro t shows' clean p sv found
    obtain ⟨⟨I, good, -⟩, -, -⟩ := shows'
    have listed : p ∈ t.vnodes := (good.tabled.table p).mpr (by rw [found]; rfl)
    obtain ⟨j, inside, rfl⟩ := List.getElem_of_mem listed
    exact clean j inside _ sv (List.getElem?_eq_getElem inside) found
  rw [sfsSync, ensures_bind, ensures_state, ensures_bind]
  apply shows.syncVnodes 0 s.vnodes.length (fun _ below => absurd below (by omega)) (by omega)
  intro t shows' clean same
  obtain ⟨I, good, -⟩ := shows'.holds
  have super : ¬ t.superdirty = true := Bool.eq_false_iff.mp good.stored.superdirty
  rw [ensures_bind, ensures_state]
  by_cases dirty : t.freemapdirty = true
  · rw [if_pos dirty, ensures_bind]
    have sane := good.accounted.sane
    have small := sane.small
    have system := good.accounted.system
    refine ensures_mapWrite small sane.onDevice 0 _ (by omega) (fun passes => ?_)
      fun k _ fails => ?_
    swap
    · rw [sane.reliable] at fails
      cases fails
    rw [ensures_bind, if_neg super]
    refine ⟨shows'.mapWritten (fun b far => ?_) (fun j below => ?_) _,
      ⟨clean_all t shows' clean, rfl⟩, same.super, same.freemap, same.device⟩
    · refine written_of_ne fun w member => ?_
      obtain ⟨k, -, below, rfl⟩ := mem_mapWrites member
      have number := toNat_mapLocation (show 2 + k < 2 ^ 32 by omega)
      intro same
      rw [← same] at far
      dsimp only at far
      omega
    · exact ((keeps_iff (nodup_mapWrites (by omega))).mp (keeps_of_ok sane.reliable)).2 _
        (List.mem_map_of_mem (List.mem_range'_1.mpr ⟨Nat.zero_le _, by omega⟩))
  · rw [if_neg dirty, if_neg super]
    exact ⟨shows', ⟨clean_all t shows' clean, Bool.eq_false_iff.mpr dirty⟩, same⟩

end

end Os161.Sfs
