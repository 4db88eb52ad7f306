import Os161.Sfs.BlockMap

/-!
# What `sfs_truncate` gives back

With `blocklen` blocks to keep, the direct blocks behind them go. Of the entries of the indirect
block the first one behind them stays, and with 142 blocks or more to keep the indirect block is not
looked at. So blocks behind the end can stay, and an indirect block can stay that nobody needs.
-/
namespace Os161.Sfs

open Foundation Vfs

/-! ### The tree that is left -/

namespace Tree

variable {m : Tree} {blocklen k : Nat}

private theorem truncated_thins (m : Tree) (blocklen : Nat) : Thins m (m.truncated blocklen) := by
  intro r
  cases r with
  | direct i =>
    rw [truncated, cutIndirect, cutDirect]
    split
    · exact .inl rfl
    · exact .inr rfl
  | indirect =>
    rw [truncated, cutIndirect]
    split
    · exact .inl rfl
    · exact .inr rfl
  | entry j =>
    rw [truncated, cutIndirect, keptEntry]
    split
    · split
      · exact .inl rfl
      · exact .inr rfl
    · exact .inr rfl

/-- Behind the direct blocks, the first block behind the end stays. -/
theorem blockAt_truncated (m : Tree) (blocklen k : Nat) :
    (m.truncated blocklen).blockAt k =
      if (k < 15 ∧ blocklen ≤ k) ∨ (15 ≤ k ∧ blocklen < k) then 0 else m.blockAt k := by
  by_cases direct : k < 15
  · rw [blockAt_eq (place_direct direct), blockAt_eq (place_direct direct), truncated, cutIndirect,
      cutDirect]
    congr 1
    simp only [eq_iff_iff]
    omega
  by_cases entry : k < 143
  · rw [blockAt_eq (place_entry direct entry), blockAt_eq (place_entry direct entry), truncated,
      cutIndirect, keptEntry]
    dsimp only
    split_ifs <;> first | rfl | omega
  · have none : ∀ m : Tree, m.blockAt k = 0 := fun m => by rw [blockAt, place_none entry]; rfl
    rw [none, none, ite_self]

theorem blockAt_of_entries {m : Tree} (none : ∀ j, m (.entry j) = 0) {k : Nat} (large : 15 ≤ k) :
    m.blockAt k = 0 := by
  by_cases entry : k < 143
  · rw [blockAt_eq (place_entry (by omega) entry)]
    exact none _
  · rw [blockAt, place_none entry]
    rfl

/-- The indirect block goes if it is looked at and no entry stays. -/
theorem truncated_indirect (m : Tree) (blocklen : Nat) :
    (blocklen < 142 ∧ (∀ k, 15 ≤ k → (m.truncated blocklen).blockAt k = 0) ∧
        m.truncated blocklen .indirect = 0) ∨
      (¬ (blocklen < 142 ∧ ∀ k, 15 ≤ k → (m.truncated blocklen).blockAt k = 0) ∧
        m.truncated blocklen .indirect = m .indirect) := by
  have entries : blocklen < 142 → ((∀ j, (m.cutDirect blocklen).keptEntry blocklen j = 0) ↔
      ∀ k, 15 ≤ k → (m.truncated blocklen).blockAt k = 0) := by
    refine fun low => ⟨fun none k large => ?_, fun none j => ?_⟩
    · refine blockAt_of_entries (fun j => ?_) large
      rw [truncated, cutIndirect, if_pos low]
      exact none j
    · have here := none (15 + j.val) (by omega)
      rwa [blockAt_entry, truncated, cutIndirect, if_pos low] at here
  by_cases gone : blocklen < 142 ∧ ∀ k, 15 ≤ k → (m.truncated blocklen).blockAt k = 0
  · refine .inl ⟨gone.1, gone.2, ?_⟩
    rw [truncated, cutIndirect, if_pos ⟨gone.1, (entries gone.1).mpr gone.2⟩]
  · refine .inr ⟨gone, ?_⟩
    rw [truncated, cutIndirect, if_neg fun both => gone ⟨both.1, (entries both.1).mp both.2⟩]
    rfl

/-- Where the blocks behind the end are just those that go. -/
structure Trimmable (m : Tree) (blocklen : Nat) : Prop where
  next : blocklen < 15 ∨ m.blockAt blocklen = 0
  indirect : 142 ≤ blocklen → m .indirect = 0 ∨ ∃ k, 15 ≤ k ∧ m.blockAt k ≠ 0

end Tree

/-- `m'` is what is left of `m` when `blocklen` blocks stay, and the rest is free. -/
structure Trimmed (m : Tree) (s : Volume) (blocklen : Nat) (m' : Tree) (t : Volume) : Prop where
  unmapped : ∀ k, blocklen ≤ k → m'.blockAt k = 0
  freed : ∀ k, blocklen ≤ k → m.blockAt k ≠ 0 → ¬ t.Marked (m.blockAt k)
  kept : ∀ k, k < blocklen → m'.blockAt k = m.blockAt k
  indirect : m' .indirect = 0 ↔ ∀ k, 15 ≤ k → m'.blockAt k = 0
  indirectFreed : m' .indirect = 0 → m .indirect ≠ 0 → ¬ t.Marked (m .indirect)
  others : ∀ b, (∀ k, blocklen ≤ k → m.blockAt k = b → b = 0) →
    (m' .indirect = 0 → m .indirect = b → b = 0) → (t.Marked b ↔ s.Marked b)

section

variable {p : Ptr} {sv sv' : SfsVnode} {s t : Volume} {after : Share} {n : Nat}

/-- Whatever has gone from the tree is free, and nothing else has changed in the freemap. -/
structure GaveBack (m : Tree) (s : Volume) (m' : Tree) (t : Volume) : Prop where
  free : ∀ r, m r ≠ 0 → m' r = 0 → ¬ t.Marked (m r)
  others : ∀ b, (∀ r, m r = b → m' r = 0 → b = 0) → (t.Marked b ↔ s.Marked b)

theorem Orderly.gaveBack (file : Orderly p sv s) (keeps : Keeps p (sv.share s) after s t)
    {m' : Tree} (blocks : after = held m') (thins : Thins (sv.inode.tree s.disk) m') :
    GaveBack (sv.inode.tree s.disk) s m' t where
  free r was gone := by
    refine keeps.freed _ ?_ (.inl (mem_held was))
    rw [blocks]
    exact thins.notMem_held file.injective was gone
  others b stays := by
    by_cases mine : b ∈ held (sv.inode.tree s.disk)
    · refine iff_of_true ?_ (file.inUse b mine).1
      refine keeps.held (fun c inside => (file.inUse c inside).1) b ?_
      obtain ⟨some, r, here⟩ := mine
      rw [blocks]
      refine ⟨some, r, ?_⟩
      rcases thins r with gone | same
      · exact absurd (stays r here gone) some
      · exact same.trans here
    constructor
    · intro now
      by_contra free
      refine keeps.freed b ?_ (.inr free) now
      rw [blocks]
      exact fun inside => mine (thins.held_subset inside)
    · exact fun used => (keeps.kept b mine used).1

/-- `sfs_truncate` on a file in order. -/
theorem Orderly.truncate (file : Orderly p sv s) (len : CInt) :
    (sfsTruncate p len).Ensures (fun _ => False) s
      (fun _ t => ∃ sv', Orderly p sv' t ∧ sv'.inode.size = len ∧
        sv'.inode.tree t.disk = (sv.inode.tree s.disk).truncated (blocklen len).toNat ∧
        GaveBack (sv.inode.tree s.disk) s (sv'.inode.tree t.disk) t)
      fun _ _ => False := by
  have has : FileHas p sv.inode.size (sv.contents s.disk) (sv.share s) s :=
    ⟨sv, file.mapped, rfl, rfl⟩
  refine (alone
    (Q := fun _ after t => (∃ contents, FileHas p len contents after t) ∧
      ∃ sv', t.heap p = some sv' ∧
        sv'.inode.tree t.disk = (sv.inode.tree s.disk).truncated (blocklen len).toNat)
    (E := fun _ _ _ => False)
    (has.truncate len fun after t has' _ tree => ⟨⟨_, has'⟩, tree sv file.here⟩)).mono ?_ ?_
  · rintro _ t ⟨after, keeps, ⟨contents, sv', mapped, size, -⟩, _, here, tree⟩
    cases mapped.here.symm.trans here
    refine ⟨sv', .of_mapped mapped, size, tree, file.gaveBack keeps mapped.blocks ?_⟩
    rw [tree]
    exact Tree.truncated_thins _ _
  · rintro e t ⟨-, -, never⟩
    exact never

theorem Trimmed.trimmable {i : Inode} {disk : CUnsigned → Block}
    (done : Trimmed (i.tree disk) s n ((i.tree disk).truncated n) t) :
    (i.tree disk).Trimmable n where
  next := by
    by_cases direct : n < 15
    · exact .inl direct
    · have gone := done.unmapped n (Nat.le_refl _)
      rw [Tree.blockAt_truncated, if_neg (by omega)] at gone
      exact .inr gone
  indirect high := by
    rcases (i.tree disk).truncated_indirect n with ⟨low, -⟩ | ⟨-, stays⟩
    · omega
    by_contra wrong
    push Not at wrong
    refine wrong.1 (stays.symm.trans (done.indirect.mpr fun k large => ?_))
    rw [Tree.blockAt_truncated, wrong.2 k large, ite_self]

theorem Tree.Trimmable.trimmed {i : Inode} {disk : CUnsigned → Block}
    (able : (i.tree disk).Trimmable n)
    (gave : GaveBack (i.tree disk) s ((i.tree disk).truncated n) t) :
    Trimmed (i.tree disk) s n ((i.tree disk).truncated n) t := by
  have unmapped : ∀ k, n ≤ k → ((i.tree disk).truncated n).blockAt k = 0 := by
    intro k behind
    rw [blockAt_truncated]
    split
    next => rfl
    next stays =>
      -- it is the first block behind the end
      have same : k = n := by omega
      rw [same]
      exact able.next.resolve_left (by omega)
  have kept : ∀ k, k < n → ((i.tree disk).truncated n).blockAt k = (i.tree disk).blockAt k := by
    intro k before
    rw [blockAt_truncated, if_neg (by omega)]
  have indirect : (i.tree disk).truncated n .indirect = 0 ↔
      ∀ k, 15 ≤ k → ((i.tree disk).truncated n).blockAt k = 0 := by
    rcases (i.tree disk).truncated_indirect n with ⟨-, empty, gone⟩ | ⟨some, stays⟩
    · exact iff_of_true gone empty
    rw [stays]
    constructor
    · intro none k large
      rw [blockAt_truncated, Tree.blockAt_of_entries (fun _ => if_pos none) large, ite_self]
    intro empty
    -- the indirect block was not looked at, and no entry of it is there
    have high : 142 ≤ n := by
      by_contra low
      exact some ⟨by omega, empty⟩
    refine (able.indirect high).resolve_right ?_
    rintro ⟨k, large, mapped⟩
    by_cases before : k < n
    · exact mapped ((kept k before).symm.trans (empty k large))
    by_cases last : k = n
    · exact mapped (last ▸ able.next.resolve_left (by omega))
    · refine mapped ?_
      rw [blockAt, place_none (by omega)]
      rfl
  refine ⟨unmapped, fun k behind was => ?_, kept, indirect,
    fun gone was => gave.free _ was gone, ?_⟩
  · cases place : Tree.place k with
    | none =>
      rw [blockAt, place] at was
      exact absurd rfl was
    | some r =>
      have gone := unmapped k behind
      rw [blockAt_eq place] at was gone ⊢
      exact gave.free r was gone
  intro b data alone
  -- a block that has gone from a place in front of the end was none
  have front : ∀ k r, Tree.place k = some r → i.tree disk r = b → (i.tree disk).truncated n r = 0 →
      b = 0 := by
    intro k r place here gone
    by_cases behind : n ≤ k
    · exact data k behind ((blockAt_eq place).trans here)
    · have same := kept k (by omega)
      rw [blockAt_eq place, blockAt_eq place] at same
      exact here.symm.trans (same.symm.trans gone)
  refine gave.others b fun r here gone => ?_
  cases r with
  | direct l => exact front l.val _ (place_direct l.isLt) here gone
  | indirect => exact alone gone here
  | entry j =>
    refine front (15 + j.val) (.entry j) ?_ here gone
    rw [place_entry (by omega) (by omega)]
    congr
    omega

/-- `sfs_truncate` gives back just the blocks behind the end if the file is such that they are the
ones it takes away. -/
theorem truncate_frees_iff (file : Orderly p sv s) {len : CInt} (limit : len.toNat ≤ 143 * 512) :
    (sfsTruncate p len).Ensures (fun _ => False) s
      (fun _ t => ∃ sv', Orderly p sv' t ∧ sv'.inode.size = len ∧
        (Trimmed (sv.inode.tree s.disk) s ((len.toNat + 511) / 512) (sv'.inode.tree t.disk) t ↔
          (sv.inode.tree s.disk).Trimmable ((len.toNat + 511) / 512)))
      fun _ _ => False := by
  refine (file.truncate len).mono ?_ fun _ _ => id
  rintro _ t ⟨sv', orderly, size, tree, gave⟩
  refine ⟨sv', orderly, size, ?_⟩
  rw [toNat_blocklen limit] at tree
  rw [tree] at gave ⊢
  exact ⟨Trimmed.trimmable, fun able => able.trimmed gave⟩

end

/-! ### A file behind its direct blocks -/

/-- Cut to nothing, the file gives all its blocks back. -/
theorem truncate_frees_iff_all :
    (sfsTruncate 0 0).Ensures (fun _ => False) (smallVolume 63 sparseInode sparseDisk)
      (fun _ t => ∃ sv', Orderly 0 sv' t ∧
        Trimmed (sparseInode.tree sparseDisk) (smallVolume 63 sparseInode sparseDisk) 0
          (sv'.inode.tree t.disk) t)
      fun _ _ => False := by
  have limit : (0 : CInt).toNat ≤ 143 * 512 := by decide
  refine (truncate_frees_iff orderly_sparse limit).mono ?_ fun _ _ => id
  rintro _ t ⟨sv', orderly, -, just⟩
  exact ⟨sv', orderly, just.mpr ⟨.inl (by decide), fun high => absurd high (by decide)⟩⟩

/-- Cut to 15 blocks, it keeps block 15. -/
theorem truncate_keeps_next :
    (sfsTruncate 0 (15 * 512)).Ensures (fun _ => False) (smallVolume 63 sparseInode sparseDisk)
      (fun _ t => ∃ sv', t.heap 0 = some sv' ∧ sv'.inode.size = 15 * 512 ∧
        (sv'.inode.tree t.disk).blockAt 15 = 5)
      fun _ _ => False := by
  refine (orderly_sparse.truncate (15 * 512)).mono ?_ fun _ _ => id
  rintro _ t ⟨sv', orderly, size, tree, -⟩
  refine ⟨sv', orderly.here, size, ?_⟩
  rw [tree]
  exact (Tree.blockAt_entry _ 0).trans (tree_sparse (.entry 0))

end Os161.Sfs
