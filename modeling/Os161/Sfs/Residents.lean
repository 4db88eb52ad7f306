import Os161.Sfs.Alone

/-!
# Vnodes come and go

What `sfs_loadvnode`, `sfs_sync_inode`, `sfs_reclaim` and the counts of `vnode.c` do to the table
of inodes and to the vnodes in memory.
-/
namespace Os161.Sfs

open Foundation Vfs
open Function (update update_of_ne update_self)

section

variable {I : Inodes} {L : Set CUnsigned} {h o : Ptr → Nat} {s t : Volume} {p : Ptr}
  {sv sv' : SfsVnode} {ino b : CUnsigned} {i i' : Inode} {disk disk' : CUnsigned → Block}

/-! ### The table against the disk -/

private theorem refs_update_same (live : I ino = some i) (same : i'.tree disk = i.tree disk) :
    refs (update I ino (some i')) disk = refs I disk := by
  funext ⟨ino', r⟩
  by_cases here : ino' = ino
  · subst here
    cases r with
    | none => rw [refs_update_self, refs_self live]
    | some r => rw [refs_update_tree, refs_tree live, same]
  · cases r <;> simp only [refs, update_of_ne here]

/-- An inode without other blocks comes or goes. -/
theorem refs_update_bare {new : Option Inode} (before : ∀ r, refs I disk (ino, some r) = 0)
    (after : ∀ i, new = some i → ∀ r, i.tree disk r = 0) : refs (update I ino new) disk =
      update (refs I disk) (ino, none) (if new.isSome then ino else 0) := by
  funext ⟨ino', r⟩
  by_cases here : ino' = ino
  · subst here
    cases r with
    | none => rw [update_self, refs, update_self]
    | some r =>
      rw [update_of_ne (by simp), before, refs, update_self]
      cases new with
      | none => rfl
      | some i => exact after i rfl r
  · rw [update_of_ne fun one => here (congrArg Prod.fst one)]
    cases r <;> simp only [refs, update_of_ne here]

/-- Data in a block that is no file's block does not change the trees. -/
theorem refs_congr (same : ∀ ino i, I ino = some i → ∀ b ∈ held (i.tree disk), disk' b = disk b) :
    refs I disk' = refs I disk := by
  funext ⟨ino, r⟩
  cases live : I ino with
  | none => cases r <;> simp only [refs, live, Option.isSome_none, Option.elim_none]
  | some i =>
    cases r with
    | none => rw [refs_self live, refs_self live]
    | some r => rw [refs_tree live, refs_tree live, Inode.tree_congr_held (same ino i live)]

theorem node_congr (same : ∀ b ∈ held (i.tree disk), disk' b = disk b) :
    i.node disk' = i.node disk := by
  rw [Inode.node, Inode.tree_congr_held same]
  congr 1
  exact Tree.logical_congr fun k mapped => same _ (Tree.blockAt_mem mapped)

/-- The block of an inode is no file's block. -/
theorem Accounted.ne_ino (good : Accounted I L s) (live : I ino = some i) {ino' : CUnsigned}
    (live' : I ino' = some i') : ∀ b ∈ held (i'.tree s.disk), b ≠ ino := by
  rintro b mem rfl
  exact good.notMem_tree live' (refs_self live s.disk) (.inr rfl) mem

theorem Accounted.congr (good : Accounted I L s) (device : t.device = s.device)
    (super : t.super = s.super) (freemap : t.freemap = s.freemap)
    (same : refs I t.disk = refs I s.disk) : Accounted I L t where
  sane := good.sane.congr device super freemap
  zero := good.zero
  tidy := by
    rw [same]
    exact good.tidy
  inside := by
    rw [same, super]
    exact good.inside
  lost := by
    rw [same, super]
    exact good.lost
  marked := by
    rw [same, super]
    intro b valid
    have before := good.marked b valid
    rwa [Volume.Marked, ← freemap] at before
  system := by
    rw [super]
    exact good.system

theorem Tabled.congr (table : Tabled h o s) (vnodes : t.vnodes = s.vnodes) (heap : t.heap = s.heap)
    (brk : s.brk ≤ t.brk) : Tabled h o t where
  table := by
    rw [vnodes, heap]
    exact table.table
  nodup := by
    rw [vnodes]
    exact table.nodup
  fresh p above := by
    rw [heap]
    exact table.fresh p (brk.trans above)
  counts := heap ▸ table.counts
  absent := heap ▸ table.absent
  distinct := heap ▸ table.distinct

/-- Changes that the table does not see. -/
structure Alike (s t : Volume) : Prop where
  super : t.super = s.super
  superdirty : t.superdirty = s.superdirty
  freemap : t.freemap = s.freemap
  freemapdirty : t.freemapdirty = s.freemapdirty
  vnodes : t.vnodes = s.vnodes
  heap : t.heap = s.heap
  brk : s.brk ≤ t.brk
  disk : t.disk = s.disk
  device : t.device = s.device

theorem Backed.congr (good : Backed I L h o s) (alike : Alike s t) : Backed I L h o t where
  tabled := good.tabled.congr alike.vnodes alike.heap alike.brk
  accounted := good.accounted.congr alike.device alike.super alike.freemap (by rw [alike.disk])
  stored := by
    obtain ⟨super, superdirty, freemap, freemapdirty, -, heap, -, disk, -⟩ := alike
    exact {
      loaded := by
        rw [heap]
        exact good.stored.loaded
      clean := by
        rw [heap, disk]
        exact good.stored.clean
      away := by
        rw [heap, disk]
        exact good.stored.away
      map := by
        rw [freemapdirty, freemap, disk, super]
        exact good.stored.map
      superdirty := superdirty.trans good.stored.superdirty
      super := by
        rw [disk, super]
        exact good.stored.super }

/-! ### A vnode changes -/

/-- A vnode gets other counts, another link count or size, or is clean after it was written. -/
theorem Backed.put (good : Backed I L h o s) (here : s.heap p = some sv) {a c : Nat}
    (counts : sv'.toVnode = ⟨a, c, false⟩) (counted : 0 < a) (ino : sv'.ino = sv.ino)
    (ops : opsOf sv'.inode.type = some sv'.ops)
    (tree : sv'.inode.tree s.disk = sv.inode.tree s.disk)
    (clean : sv'.dirty = false → s.disk sv.ino = sv'.inode.toBlock) :
    Backed (update I sv.ino (some sv'.inode)) L (update h p a)
      (update o p c) (s.put p sv') := by
  have live := good.stored.loaded p sv here
  have is_some : ∀ q, ((s.put p sv').heap q).isSome = (s.heap q).isSome := by
    intro q
    by_cases same : q = p
    · rw [same, Volume.heap_put, here, Option.isSome_some, Option.isSome_some]
    · rw [Volume.heap_put_of_ne same]
  have is_none : ∀ q, (s.put p sv').heap q = none ↔ s.heap q = none := by
    intro q
    rw [← Option.not_isSome_iff_eq_none, is_some, Option.not_isSome_iff_eq_none]
  have apart : ∀ q sv₁, q ≠ p → s.heap q = some sv₁ → sv₁.ino ≠ sv.ino :=
    fun q sv₁ other found same => other (good.tabled.distinct _ _ _ _ found here same)
  refine ⟨?_, ?_, ?_⟩
  · exact {
      table := fun q => by
        rw [is_some]
        exact good.tabled.table q
      nodup := good.tabled.nodup
      fresh := fun q above => (is_none q).mpr (good.tabled.fresh q above)
      counts := by
        intro q sv₁ found
        rcases update_some_eq_some.mp found with ⟨rfl, rfl⟩ | ⟨other, found⟩
        · rw [update_self, update_self]
          exact ⟨counts, counted, ops⟩
        · rw [update_of_ne other, update_of_ne other]
          exact good.tabled.counts q sv₁ found
      absent := by
        intro q none
        have none' := (is_none q).mp none
        have other : q ≠ p := by
          rintro rfl
          exact absurd (none'.symm.trans here) nofun
        rw [update_of_ne other, update_of_ne other]
        exact good.tabled.absent q none'
      distinct := by
        intro q q' sv₁ sv₂ found found' same
        rcases update_some_eq_some.mp found with ⟨rfl, rfl⟩ | ⟨other, before⟩ <;>
          rcases update_some_eq_some.mp found' with ⟨rfl, rfl⟩ | ⟨other', before'⟩
        · rfl
        · exact absurd (same.symm.trans ino) (apart q' sv₂ other' before')
        · exact absurd (same.trans ino) (apart q sv₁ other before)
        · exact good.tabled.distinct _ _ _ _ before before' same }
  · have same : refs (update I sv.ino (some sv'.inode)) s.disk = refs I s.disk :=
      refs_update_same live tree
    have before := good.accounted
    exact {
      sane := before.sane.congr rfl rfl rfl
      zero := by
        rw [update_of_ne (before.ino_mem live).1.symm]
        exact before.zero
      tidy := same.symm ▸ before.tidy
      inside := same.symm ▸ before.inside
      lost := same.symm ▸ before.lost
      marked := same.symm ▸ before.marked
      system := before.system }
  exact {
    loaded := by
      intro q sv₁ found
      rcases update_some_eq_some.mp found with ⟨rfl, rfl⟩ | ⟨other, found⟩
      · rw [ino, update_self]
      · rw [update_of_ne (apart q sv₁ other found)]
        exact good.stored.loaded q sv₁ found
    clean := by
      intro q sv₁ found written
      rcases update_some_eq_some.mp found with ⟨rfl, rfl⟩ | ⟨other, found⟩
      · rw [ino]
        exact clean written
      · exact good.stored.clean q sv₁ found written
    away := by
      intro ino' i' live'
      by_cases same : ino' = sv.ino
      · exact .inl ⟨p, sv', Volume.heap_put, ino.trans same.symm⟩
      rw [update_of_ne same] at live'
      rcases good.stored.away ino' i' live' with ⟨q, sv₁, found, at_ino⟩ | away
      · refine .inl ⟨q, sv₁, ?_, at_ino⟩
        have other : q ≠ p := by
          rintro rfl
          cases found.symm.trans here
          exact same at_ino.symm
        rw [Volume.heap_put_of_ne other, found]
      · exact .inr away
    map := good.stored.map
    superdirty := good.stored.superdirty
    super := good.stored.super }

/-- `sfs_sync_inode` writes the block of the inode. -/
theorem Backed.write_inode (good : Backed I L h o s) (here : s.heap p = some sv) :
    Backed I L h o { s with disk := update s.disk sv.ino sv.inode.toBlock } := by
  have live := good.stored.loaded p sv here
  have apart := fun ino i (live' : I ino = some i) b mem =>
    update_of_ne (good.accounted.ne_ino live live' b mem) sv.inode.toBlock s.disk
  have system : ∀ b ∈ System s.super.nblocks, b ≠ sv.ino := by
    rintro b mem rfl
    exact (good.accounted.inside _ (good.accounted.ino_mem live)).2 mem
  refine ⟨good.tabled.congr rfl rfl le_rfl,
    good.accounted.congr rfl rfl rfl (refs_congr apart), ?_⟩
  exact {
    loaded := good.stored.loaded
    clean := by
      intro q sv₁ found clean
      by_cases same : sv₁.ino = sv.ino
      · have one := good.stored.loaded q sv₁ found
        rw [same, live] at one
        simp [same, Option.some.inj one]
      · simp only [update_of_ne same]
        exact good.stored.clean q sv₁ found clean
    away := by
      intro ino i live'
      rcases good.stored.away ino i live' with resident | ⟨stored, linked⟩
      · exact .inl resident
      by_cases same : ino = sv.ino
      · exact .inl ⟨p, sv, here, same.symm⟩
      · refine .inr ⟨?_, linked⟩
        simp only [update_of_ne same]
        exact stored
    map := by
      intro clean b low high
      have other := system b (.inr ⟨low, high⟩)
      simp only [update_of_ne other]
      exact good.stored.map clean b low high
    superdirty := good.stored.superdirty
    super := by
      have other := system 0 (.inl rfl)
      simp only [update_of_ne other]
      exact good.stored.super }

/-! ### Blocks for inodes -/

theorem Accounted.notMem_of_free (good : Accounted I L s) (free : ¬ s.Marked b)
    (valid : b < s.super.nblocks) :
    b ∉ System s.super.nblocks ∧ b ∉ held (refs I s.disk) ∧ b ∉ L := by
  rw [good.marked b valid, not_or, not_or] at free
  exact free

/-- A block that was free is in no tree. -/
theorem Accounted.refs_allocated (good : Accounted I L s) (free : ¬ s.Marked b)
    (data : Block) : refs I (update s.disk b data) = refs I s.disk := by
  refine refs_congr fun ino i live c mem => update_of_ne ?_ ..
  rintro rfl
  exact free (good.marked_of_held (tree_mem live mem))

/-- A block from `sfs_balloc` is nobody's yet. -/
theorem Accounted.allocated (good : Accounted I L s) (free : ¬ s.Marked b)
    (valid : b < s.super.nblocks) : Accounted I (insert b L) (s.allocated b) := by
  have same : refs I (s.allocated b).disk = refs I s.disk := good.refs_allocated free Block.zero
  obtain ⟨system, unheld, unlost⟩ := good.notMem_of_free free valid
  exact {
    sane := good.sane.mark.congr rfl rfl rfl
    zero := good.zero
    tidy := by
      rw [same]
      exact good.tidy
    inside := by
      rw [same]
      exact good.inside
    lost := by
      rw [same]
      rintro c (rfl | mem)
      · exact ⟨valid, system, unheld⟩
      · exact good.lost c mem
    marked := by
      intro c inside
      rw [same]
      have marked : (s.allocated b).Marked c ↔ c = b ∨ s.Marked c := marked_mark
      rw [marked, good.marked c inside, Set.mem_insert_iff]
      tauto
    system := good.system }

theorem Backed.allocated (good : Backed I L h o s) (free : ¬ s.Marked b)
    (valid : b < s.super.nblocks) : Backed I (insert b L) h o (s.allocated b) := by
  obtain ⟨system, unheld, -⟩ := good.accounted.notMem_of_free free valid
  have other : ∀ ino i, I ino = some i → ino ≠ b := by
    rintro ino i live rfl
    exact unheld (good.accounted.ino_mem live)
  have same : ∀ ino i, I ino = some i → (s.allocated b).disk ino = s.disk ino :=
    fun ino i live => update_of_ne (other ino i live) ..
  refine ⟨good.tabled.congr rfl rfl le_rfl, good.accounted.allocated free valid, ?_⟩
  exact {
    loaded := good.stored.loaded
    clean := by
      intro q sv₁ found clean
      rw [same _ _ (good.stored.loaded q sv₁ found)]
      exact good.stored.clean q sv₁ found clean
    away := by
      intro ino i live
      rw [same ino i live]
      exact good.stored.away ino i live
    map := nofun
    superdirty := good.stored.superdirty
    super := by
      have apart : (0 : CUnsigned) ≠ b := by
        rintro rfl
        exact system (.inl rfl)
      have first : (s.allocated b).disk 0 = s.disk 0 := update_of_ne apart ..
      rw [first]
      exact good.stored.super }

/-- A block without an owner becomes the block of an inode. -/
theorem Accounted.adopt (good : Accounted I L s) (mem : b ∈ L) (proper : b ≠ 0)
    (empty : ∀ r, i.tree s.disk r = 0) :
    Accounted (update I b (some i)) (L \ {b}) s := by
  obtain ⟨valid, system, unheld⟩ := good.lost b mem
  have dead : I b = none := by
    cases live : I b with
    | none => rfl
    | some i => exact absurd (good.ino_mem live) unheld
  have before (r : Option Ref) : refs I s.disk (b, r) = 0 := by
    cases r <;> simp [refs, dead]
  have same : refs (update I b (some i)) s.disk = update (refs I s.disk) (b, none) b :=
    refs_update_bare (fun r => before r) fun i' one => Option.some.inj one ▸ empty
  have blocks : held (refs (update I b (some i)) s.disk) = insert b (held (refs I s.disk)) :=
    same ▸ held_put (before none) proper
  exact {
    sane := good.sane
    zero := by
      rw [update_of_ne proper.symm]
      exact good.zero
    tidy := same ▸ good.tidy.put unheld
    inside := by
      rw [blocks]
      rintro c (rfl | mem)
      · exact ⟨valid, system⟩
      · exact good.inside c mem
    lost := by
      rw [blocks]
      rintro c ⟨mem, other⟩
      obtain ⟨valid, system, unheld⟩ := good.lost c mem
      exact ⟨valid, system, fun held => held.elim other unheld⟩
    marked := by
      intro c inside
      rw [good.marked c inside, blocks]
      by_cases here : c = b
      · simp [here, mem]
      · simp [here]
    system := good.system }

/-- The block of an inode without other blocks is free again. -/
theorem Accounted.release (good : Accounted I L s) (live : I ino = some i)
    (empty : ∀ r, i.tree s.disk r = 0) :
    Accounted (update I ino none) L (s.unmark ino) := by
  have mem := good.ino_mem live
  obtain ⟨valid, system⟩ := good.inside ino mem
  have same : refs (update I ino none) s.disk = update (refs I s.disk) (ino, none) 0 :=
    refs_update_bare (fun r => (refs_tree live _ r).trans (empty r)) nofun
  have blocks : held (refs (update I ino none) s.disk) = held (refs I s.disk) \ {ino} := by
    rw [same, held_take good.tidy, refs_self live]
  exact {
    sane := good.sane.unmark valid mem.1
    zero := by
      rw [update_of_ne mem.1.symm]
      exact good.zero
    tidy := same ▸ good.tidy.take
    inside := by
      intro c held
      exact good.inside c ((blocks ▸ held :) : c ∈ Foundation.held (refs I s.disk) \ {ino}).1
    lost := by
      intro c lost
      obtain ⟨valid, system, unheld⟩ := good.lost c lost
      refine ⟨valid, system, fun held => unheld ?_⟩
      exact ((blocks ▸ held :) : c ∈ Foundation.held (refs I s.disk) \ {ino}).1
    marked := by
      intro c inside
      have disk : (s.unmark ino).disk = s.disk := rfl
      rw [marked_unmark, good.marked c inside, disk, blocks]
      by_cases here : c = ino
      · subst here
        have unlost : c ∉ L := fun lost => (good.lost c lost).2.2 mem
        simp [unlost]
        exact system
      · simp [here]
        rfl
    system := good.system }

/-! ### A vnode comes into memory, or goes -/

/-- The end of `sfs_loadvnode`: a new vnode. -/
def Volume.add (s : Volume) (p : Ptr) (sv : SfsVnode) : Volume :=
  { s with heap := update s.heap p (some sv), vnodes := s.vnodes ++ [p] }

theorem Volume.heap_add {s : Volume} {p : Ptr} {sv : SfsVnode} : (s.add p sv).heap p = some sv :=
  update_self ..

/-- The end of `sfs_reclaim`. -/
def Volume.forget (s : Volume) (p : Ptr) : Volume :=
  { s with heap := update s.heap p none, vnodes := s.vnodes.erase p }

theorem Volume.of_heap_forget {q : Ptr} (found : (s.forget p).heap q = some sv) :
    q ≠ p ∧ s.heap q = some sv := by
  have other : q ≠ p := by
    rintro rfl
    exact absurd ((update_self ..).symm.trans found) nofun
  exact ⟨other, (update_of_ne other ..).symm.trans found⟩

theorem Tabled.add (table : Tabled h o s) (free : s.heap p = none) (below : p < s.brk)
    (counts : sv.toVnode = vnodeInit) (ops : opsOf sv.inode.type = some sv.ops)
    (new : ∀ q sv', s.heap q = some sv' → sv'.ino ≠ sv.ino) :
    Tabled (update h p 1) o (s.add p sv) := by
  have unlisted : p ∉ s.vnodes := by
    rw [table.table, free]
    simp
  exact {
    table := by
      intro q
      by_cases same : q = p
      · subst same
        simp [Volume.add]
      · simp only [Volume.add, List.mem_append, List.mem_singleton, same, or_false,
          update_of_ne same]
        exact table.table q
    nodup := by
      refine List.nodup_append.mpr ⟨table.nodup, by simp, ?_⟩
      rintro q mem _ (_ | ⟨_, ⟨⟩⟩) rfl
      exact unlisted mem
    fresh := by
      intro q above
      have other : q ≠ p := by
        rintro rfl
        exact absurd below (Nat.not_lt.mpr above)
      exact (update_of_ne other ..).trans (table.fresh q above)
    counts := by
      intro q sv₁ found
      rcases update_some_eq_some.mp found with ⟨rfl, rfl⟩ | ⟨other, found⟩
      · rw [update_self, (table.absent q free).2]
        exact ⟨counts, Nat.one_pos, ops⟩
      · rw [update_of_ne other]
        exact table.counts q sv₁ found
    absent := by
      intro q none
      have other : q ≠ p := by
        rintro rfl
        exact absurd ((update_self ..).symm.trans none) nofun
      rw [update_of_ne other]
      exact table.absent q ((update_of_ne other ..).symm.trans none)
    distinct := by
      intro q q' sv₁ sv₂ found found' same
      rcases update_some_eq_some.mp found with ⟨rfl, rfl⟩ | ⟨other, before⟩ <;>
        rcases update_some_eq_some.mp found' with ⟨rfl, rfl⟩ | ⟨other', before'⟩
      · rfl
      · exact absurd same.symm (new q' sv₂ before')
      · exact absurd same (new q sv₁ before)
      · exact table.distinct _ _ _ _ before before' same }

theorem Stored.add (stored : Stored I s) (new : ∀ q sv', s.heap q = some sv' → sv'.ino ≠ sv.ino)
    (free : s.heap p = none) (clean : sv.dirty = false → s.disk sv.ino = sv.inode.toBlock) :
    Stored (update I sv.ino (some sv.inode)) (s.add p sv) where
  loaded := by
    intro q sv₁ found
    rcases update_some_eq_some.mp found with ⟨rfl, rfl⟩ | ⟨-, before⟩
    · rw [update_self]
    · rw [update_of_ne (new q sv₁ before)]
      exact stored.loaded q sv₁ before
  clean := by
    intro q sv₁ found written
    rcases update_some_eq_some.mp found with ⟨rfl, rfl⟩ | ⟨-, before⟩
    · exact clean written
    · exact stored.clean q sv₁ before written
  away := by
    intro ino i live
    by_cases same : ino = sv.ino
    · exact .inl ⟨p, sv, update_self .., same.symm⟩
    rw [update_of_ne same] at live
    rcases stored.away ino i live with ⟨q, sv₁, found, at_ino⟩ | away
    · refine .inl ⟨q, sv₁, ?_, at_ino⟩
      have other : q ≠ p := by
        rintro rfl
        exact absurd (free.symm.trans found) nofun
      exact (update_of_ne other ..).trans found
    · exact .inr away
  map := stored.map
  superdirty := stored.superdirty
  super := stored.super

theorem Tabled.forget (table : Tabled h o s) (closed : o p = 0) :
    Tabled (update h p 0) o (s.forget p) where
  table := by
    intro q
    by_cases same : q = p
    · subst same
      simp only [Volume.forget, update_self, Option.isSome_none, Bool.false_eq_true, iff_false]
      exact table.nodup.not_mem_erase
    · simp only [Volume.forget, update_of_ne same]
      rw [List.mem_erase_of_ne same]
      exact table.table q
  nodup := table.nodup.erase p
  fresh := by
    intro q above
    by_cases same : q = p
    · exact same ▸ update_self ..
    · exact (update_of_ne same ..).trans (table.fresh q above)
  counts := by
    intro q sv₁ found
    obtain ⟨other, found⟩ := Volume.of_heap_forget found
    rw [update_of_ne other]
    exact table.counts q sv₁ found
  absent := by
    intro q none
    by_cases same : q = p
    · subst same
      exact ⟨update_self .., closed⟩
    · rw [update_of_ne same]
      exact table.absent q ((update_of_ne same ..).symm.trans none)
  distinct := by
    intro q q' sv₁ sv₂ found found' same
    exact table.distinct _ _ _ _ (Volume.of_heap_forget found).2 (Volume.of_heap_forget found').2
      same

theorem Stored.unmark (stored : Stored I s) : Stored I (s.unmark b) where
  loaded := stored.loaded
  clean := stored.clean
  away := stored.away
  map := nofun
  superdirty := stored.superdirty
  super := stored.super

/-- What is still linked is on the disk, and the rest is gone. -/
theorem Stored.forget {I' : Inodes} (stored : Stored I s) (table : Tabled h o s)
    (here : s.heap p = some sv) (others : ∀ ino, ino ≠ sv.ino → I' ino = I ino)
    (own : ∀ i, I' sv.ino = some i → s.disk sv.ino = i.toBlock ∧ i.linkcount ≠ 0) :
    Stored I' (s.forget p) where
  loaded := by
    intro q sv₁ found
    obtain ⟨other, found⟩ := Volume.of_heap_forget found
    rw [others _ fun same => other (table.distinct _ _ _ _ found here same)]
    exact stored.loaded q sv₁ found
  clean := fun q sv₁ found => stored.clean q sv₁ (Volume.of_heap_forget found).2
  away := by
    intro ino i live
    by_cases same : ino = sv.ino
    · subst same
      exact .inr (own i live)
    rw [others ino same] at live
    rcases stored.away ino i live with ⟨q, sv₁, found, at_ino⟩ | away
    · refine .inl ⟨q, sv₁, ?_, at_ino⟩
      have other : q ≠ p := by
        rintro rfl
        cases found.symm.trans here
        exact same at_ino.symm
      exact (update_of_ne other ..).trans found
    · exact .inr away
  map := stored.map
  superdirty := stored.superdirty
  super := stored.super

theorem Backed.forget (good : Backed I L h o s) (here : s.heap p = some sv)
    (clean : sv.dirty = false) (linked : sv.inode.linkcount ≠ 0) (closed : o p = 0) :
    Backed I L (update h p 0) o (s.forget p) where
  tabled := good.tabled.forget closed
  accounted := good.accounted.congr rfl rfl rfl rfl
  stored := by
    refine good.stored.forget good.tabled here (fun _ _ => rfl) fun i live => ?_
    cases (good.stored.loaded p sv here).symm.trans live
    exact ⟨good.stored.clean p sv here clean, linked⟩

/-- A vnode goes with its inode. -/
theorem Backed.release (good : Backed I L h o s) (here : s.heap p = some sv)
    (empty : ∀ r, sv.inode.tree s.disk r = 0) (closed : o p = 0) :
    Backed (update I sv.ino none) L (update h p 0) o
      ((s.unmark sv.ino).forget p) where
  tabled := (good.tabled.congr (t := s.unmark sv.ino) rfl rfl le_rfl).forget closed
  accounted :=
    (good.accounted.release (good.stored.loaded p sv here) empty).congr rfl rfl rfl rfl
  stored := by
    refine good.stored.unmark.forget (good.tabled.congr rfl rfl le_rfl) here
      (fun _ other => update_of_ne other ..) fun i live => ?_
    rw [update_self] at live
    cases live

end

end Os161.Sfs
