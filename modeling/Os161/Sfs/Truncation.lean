import Os161.Sfs.Requests

/-!
# `sfs_truncate`

Blocks behind the new end are given back. The direct blocks go one by one; the entries of the
indirect block are taken out of a copy of it, and until the copy is written back the disk still
refers to blocks that are free already.
-/
namespace Os161.Sfs

open Foundation Vfs
open Function (update update_of_ne update_self)
open Call (secures_bind secures_ite)

theorem toNat_blocklen {len : CInt} (small : len.toNat ≤ 143 * 512) :
    (blocklen len).toNat = (len.toNat + 511) / 512 := by
  have size : SFS_BLOCKSIZE.toNat = 512 := by decide
  have one : (1 : CInt).toNat = 1 := rfl
  have sum : (len + SFS_BLOCKSIZE - 1).toNat = len.toNat + 511 := by
    rw [BitVec.toNat_sub, BitVec.toNat_add]
    omega
  have quotient := toNat_sdiv (x := len + SFS_BLOCKSIZE - 1) (by omega)
  rw [blocklen, quotient, sum]

/-- The share is the blocks of a tree. -/
structure Owning (own : Share) (m : Tree) (s : Volume) : Prop where
  sane : Sane s
  tidy : Tidy m
  blocks : own = held m
  marked : ∀ b ∈ own, s.Marked b
  valid : ∀ b ∈ own, b < s.super.nblocks

section

variable {halts : Halt → Prop} {p : Ptr} {own : Share} {m : Tree} {sv : SfsVnode}
  {s : Volume} {E : Errno → Share → Volume → Prop}

theorem Mapped.owning (file : Mapped p own sv s) : Owning own (sv.inode.tree s.disk) s :=
  ⟨file.sane, file.tidy, file.blocks, file.marked, file.valid⟩

theorem Owning.mapped (owning : Owning own m s) (tree : sv.inode.tree s.disk = m)
    (here : s.heap p = some sv) : Mapped p own sv s := by
  subst tree
  exact ⟨owning.sane, here, owning.tidy, owning.blocks, owning.marked, owning.valid⟩

theorem Owning.congr {t : Volume} (owning : Owning own m s) (device : t.device = s.device)
    (super : t.super = s.super) (freemap : t.freemap = s.freemap) : Owning own m t where
  sane := owning.sane.congr device super freemap
  tidy := owning.tidy
  blocks := owning.blocks
  marked b inside := by
    rw [Volume.Marked, freemap]
    exact owning.marked b inside
  valid b inside := super ▸ owning.valid b inside

theorem Owning.bfree {Q : Unit → Share → Volume → Prop} (owning : Owning own m s) {r : Ref}
    {b : CUnsigned} (here : m r = b) (some : b ≠ 0)
    (next : Owning (own \ {b}) (update m r 0) (s.unmark b) → Q () (own \ {b}) (s.unmark b)) :
    (sfsBfree b).Secures (sharing p halts) own s Q E := by
  subst here
  have mine : m r ∈ own := owning.blocks ▸ mem_held some
  have valid := owning.valid _ mine
  apply secures_bfree owning.sane valid some mine (owning.marked _ mine)
  apply next
  refine ⟨owning.sane.unmark valid some, owning.tidy.take, ?_, ?_, ?_⟩
  · rw [held_take owning.tidy, ← owning.blocks]
  · exact fun c inside => marked_unmark.mpr ⟨inside.2, owning.marked c inside.1⟩
  · exact fun c inside => owning.valid c inside.1

/-! ### Direct blocks -/

/-- The contents without the direct blocks of `l` that are behind the end. -/
def cutDirect (blocklen : CUnsigned) (l : List (Fin 15)) (contents : Nat → Block) : Nat → Block :=
  fun k => if blocklen.toNat ≤ k ∧ ∃ i ∈ l, i.val = k then Block.zero else contents k

variable {size : CUnsigned} {contents : Nat → Block} {Q : Unit → Share → Volume → Prop}

def Inode.cutDirect (i : Inode) (blocklen : CUnsigned) (l : List (Fin 15)) : Inode :=
  { i with direct := fun k => if k ∈ l ∧ blocklen.toNat ≤ k.val then 0 else i.direct k }

theorem FileHas.truncateDirect (has : FileHas p size contents own s)
    (here : s.heap p = some sv) (blocklen : CUnsigned) (l : List (Fin 15))
    (next : ∀ after t sv', FileHas p size (cutDirect blocklen l contents) after t →
      t.heap p = some sv' → sv'.inode = sv.inode.cutDirect blocklen l → t.disk = s.disk →
      Q () after t) :
    (truncateDirect p blocklen l).Secures (sharing p halts) own s Q E := by
  induction l generalizing own s sv contents with
  | nil =>
    have same : cutDirect blocklen [] contents = contents := by
      funext k
      simp [cutDirect]
    rw [same] at next
    exact next own s sv has here (by simp [Inode.cutDirect]) rfl
  | cons i rest ih =>
    obtain ⟨_, file, of_size, rfl⟩ := has
    cases here.symm.trans file.here
    have number : (BitVec.ofNat 32 i.val).toNat = i.val := by
      rw [BitVec.toNat_ofNat, Nat.mod_eq_of_lt (by omega)]
    have place : Tree.place i = some (.direct i) := Tree.place_direct i.isLt
    have behind : blocklen ≤ BitVec.ofNat 32 i.val ↔ blocklen.toNat ≤ i.val := by
      rw [BitVec.le_def, number]
    -- in both cases block `i` is gone if it is behind the end
    have goes : ∀ contents' after t sv', FileHas p size contents' after t →
        t.heap p = some sv' → sv'.inode = sv.inode.cutDirect blocklen [i] →
        t.disk = s.disk → (∀ k, contents' k = if blocklen.toNat ≤ k ∧ i.val = k then Block.zero
          else sv.contents s.disk k) →
        (Sfs.truncateDirect p blocklen rest).Secures (sharing p halts) after t Q E := by
      intro contents' after t sv' has' here' inode disk result
      apply ih has' here'
      intro after' t' sv'' has'' here'' inode' disk'
      refine next after' t' sv'' ?_ here'' ?_ (disk'.trans disk)
      · have same : cutDirect blocklen rest contents' =
            cutDirect blocklen (i :: rest) (sv.contents s.disk) := by
          funext k
          by_cases last : blocklen.toNat ≤ k <;> by_cases at_i : i.val = k <;>
            simp [cutDirect, result, last, at_i]
        exact same ▸ has''
      rw [inode', inode]
      simp only [Inode.cutDirect, Inode.mk.injEq, true_and, and_true]
      funext k
      by_cases at_i : k = i
      · subst at_i
        by_cases last : blocklen.toNat ≤ k.val <;> simp [last]
      · simp [at_i]
    rw [Sfs.truncateDirect, secures_bind, secures_svAt here, secures_ite]
    refine ⟨fun ⟨last, mapped⟩ => ?_, fun keep => ?_⟩
    · rw [secures_bind]
      apply file.owning.bfree (r := .direct i) rfl mapped
      intro owning
      rw [secures_bind]
      refine secures_alterSv { sv.inode with direct := update sv.inode.direct i 0 } here
        rfl rfl rfl ?_
      have tree : { sv.inode with direct := update sv.inode.direct i 0 }.tree s.disk =
          update (sv.inode.tree s.disk) (.direct i) 0 := Inode.tree_setDirect i 0
      have file' : ∀ heap, heap p = some { sv with
            inode := { sv.inode with direct := update sv.inode.direct i 0 }, dirty := true } →
          Mapped p (own \ {sv.inode.direct i}) _
            { s.unmark (sv.inode.direct i) with heap := heap } :=
        fun heap found => Owning.mapped (owning.congr rfl rfl rfl) tree found
      refine goes (update (sv.contents s.disk) i Block.zero) _ _ _
        ⟨_, file' _ (update_self ..), of_size, ?_⟩ (update_self ..) ?_ rfl fun k => ?_
      · exact (congrArg (Tree.logical · s.disk) tree).trans (Tree.logical_take place)
      · simp only [Inode.cutDirect, Inode.mk.injEq, true_and, and_true]
        funext k
        by_cases at_i : k = i
        · subst at_i
          rw [update_self, if_pos ⟨List.mem_singleton_self k, behind.mp last⟩]
        · rw [update_of_ne at_i, if_neg fun both => at_i (List.mem_singleton.mp both.1)]
      · by_cases at_i : i.val = k
        · rw [← at_i, update_self, if_pos ⟨behind.mp last, rfl⟩]
        · rw [update_of_ne (Ne.symm at_i), if_neg fun both => at_i both.2]
    have none : blocklen.toNat ≤ i.val → sv.inode.direct i = 0 := by
      intro last
      by_contra mapped
      exact keep ⟨behind.mpr last, mapped⟩
    refine goes (sv.contents s.disk) own s sv ⟨sv, file, of_size, rfl⟩ here ?_ rfl
      fun k => ?_
    · have same : sv.inode.cutDirect blocklen [i] = sv.inode := by
        apply Inode.ext <;> try rfl
        funext k
        simp only [Inode.cutDirect, List.mem_singleton]
        split
        next both =>
          obtain ⟨rfl, last⟩ := both
          exact (none last).symm
        next => rfl
      exact same.symm
    split
    next both =>
      obtain ⟨last, rfl⟩ := both
      exact Tree.logical_unmapped ((Tree.blockAt_eq place).trans (none last))
    next => rfl

end

/-! ### The indirect block -/

/-- The tree with the entries that are in the copy. -/
def Tree.withEntries (m : Tree) (w : Fin 128 → CUnsigned) : Tree
  | .entry j => w j
  | .direct i => m (.direct i)
  | .indirect => m .indirect

theorem Tree.withEntries_update (m : Tree) (w : Fin 128 → CUnsigned) (j : Fin 128) (b : CUnsigned) :
    m.withEntries (update w j b) = update (m.withEntries w) (.entry j) b := by
  funext r
  cases r with
  | direct i =>
    rfl
  | indirect =>
    rfl
  | entry l =>
    by_cases here : l = j
    · subst here
      simp [withEntries]
    · have apart : Ref.entry l ≠ .entry j := fun same => here (by injection same)
      simp [withEntries, update_of_ne here, update_of_ne apart]

/-- The entries without those of `l` that are behind the end. -/
def cutEntries (blocklen : CUnsigned) (l : List (Fin 128)) (w : Fin 128 → CUnsigned) :
    Fin 128 → CUnsigned :=
  fun j => if j ∈ l ∧ blocklen.toNat < 15 + j.val then 0 else w j

section

variable {halts : Halt → Prop} {p : Ptr} {own : Share} {m : Tree} {sv : SfsVnode}
  {s : Volume} {E : Errno → Share → Volume → Prop}

theorem Owning.truncateEntries {Q : Bool × Bool → Share → Volume → Prop}
    (owning : Owning own (m.withEntries s.truncbuf) s) (blocklen : CUnsigned)
    (hasnonzero iddirty : Bool) (l : List (Fin 128))
    (next : ∀ hasnonzero' iddirty' after t,
      t.heap = s.heap → t.disk = s.disk → t.truncbuf = cutEntries blocklen l s.truncbuf →
      Owning after (m.withEntries t.truncbuf) t →
      (hasnonzero' = true ↔ hasnonzero = true ∨ ∃ j ∈ l, t.truncbuf j ≠ 0) →
      (iddirty' = false → iddirty = false ∧ t.truncbuf = s.truncbuf) →
      Q (hasnonzero', iddirty') after t) :
    (truncateEntries blocklen hasnonzero iddirty l).Secures (sharing p halts) own s Q E := by
  induction l generalizing own s hasnonzero iddirty with
  | nil =>
    have same : cutEntries blocklen [] s.truncbuf = s.truncbuf := by
      funext j
      simp [cutEntries]
    exact next _ _ own s rfl rfl same.symm owning (by simp) fun clean => ⟨clean, rfl⟩
  | cons j rest ih =>
    have number : (SFS_NDIRECT + BitVec.ofNat 32 j.val).toNat = 15 + j.val := by
      have direct : SFS_NDIRECT.toNat = 15 := by decide
      rw [BitVec.toNat_add, BitVec.toNat_ofNat]
      omega
    have behind : blocklen < SFS_NDIRECT + BitVec.ofNat 32 j.val ↔ blocklen.toNat < 15 + j.val := by
      rw [BitVec.lt_def, number]
    rw [Sfs.truncateEntries, secures_bind, Call.secures_state, secures_ite]
    refine ⟨fun ⟨last, mapped⟩ => ?_, fun keep => ?_⟩
    · rw [secures_bind]
      apply owning.bfree (r := .entry j) rfl mapped
      intro fewer
      refine ⟨_, .buffers .., ?_⟩
      rw [← Tree.withEntries_update] at fewer
      refine ih ?_ hasnonzero true ?_
      · exact fewer.congr rfl rfl rfl
      intro hn id after t heap disk buffer owned nonzero dirty
      have cut : cutEntries blocklen rest (update s.truncbuf j 0) =
          cutEntries blocklen (j :: rest) s.truncbuf := by
        funext l
        by_cases here : l = j
        · subst here
          simp [cutEntries, behind.mp last]
        · simp [cutEntries, here]
      have buffer' : t.truncbuf = cutEntries blocklen (j :: rest) s.truncbuf := buffer.trans cut
      refine next hn id after t heap disk buffer' owned (nonzero.trans ?_) fun clean => ?_
      · have gone : t.truncbuf j = 0 := by
          rw [buffer']
          simp [cutEntries, behind.mp last]
        simp [gone]
      · simpa using (dirty clean).1
    refine ih owning _ iddirty ?_
    intro hn id after t heap disk buffer owned nonzero dirty
    have zero : blocklen.toNat < 15 + j.val → s.truncbuf j = 0 := by
      intro last
      by_contra mapped
      exact keep ⟨behind.mpr last, mapped⟩
    have cut : cutEntries blocklen rest s.truncbuf =
        cutEntries blocklen (j :: rest) s.truncbuf := by
      funext l
      by_cases here : l = j
      · subst here
        by_cases last : blocklen.toNat < 15 + l.val
        · simp [cutEntries, last, zero last]
        · simp [cutEntries, last]
      · simp [cutEntries, here]
    have buffer' : t.truncbuf = cutEntries blocklen (j :: rest) s.truncbuf := buffer.trans cut
    refine next hn id after t heap disk buffer' owned (nonzero.trans ?_) dirty
    have kept : t.truncbuf j ≠ 0 ↔ s.truncbuf j ≠ 0 := by
      rw [buffer']
      by_cases last : blocklen.toNat < 15 + j.val
      · simp [cutEntries, last, zero last]
      · simp [cutEntries, last]
    simp only [Bool.or_eq_true, decide_eq_true_eq, List.mem_cons, exists_eq_or_imp, kept, or_assoc]

/-- The contents without the blocks that `sfs_truncate` takes away: behind the direct blocks, the
first block behind the end stays. -/
def truncated (blocklen : CUnsigned) (contents : Nat → Block) : Nat → Block := fun k =>
  if (k < 15 ∧ blocklen.toNat ≤ k) ∨ (15 ≤ k ∧ blocklen.toNat < k) then Block.zero else contents k

/-- A tree with other entries, by its contents. -/
theorem Tree.logical_withEntries (m : Tree) (w : Fin 128 → CUnsigned) (disk : CUnsigned → Block)
    (blocklen : CUnsigned) (same : ∀ j, m (.entry j) = w j) (k : Nat) :
    (m.withEntries (cutEntries blocklen (List.finRange 128) w)).logical disk k =
      if 15 ≤ k ∧ blocklen.toNat < k then Block.zero else m.logical disk k := by
  by_cases direct : k < 15
  · have here : (m.withEntries (cutEntries blocklen (List.finRange 128) w)).blockAt k =
        m.blockAt k := by
      rw [blockAt_eq (place_direct direct), blockAt_eq (place_direct direct)]
      rfl
    rw [if_neg (by omega), logical, logical, here]
  by_cases entry : k < 143
  · have place := place_entry direct entry
    have here : (m.withEntries (cutEntries blocklen (List.finRange 128) w)).blockAt k =
        if blocklen.toNat < k then 0 else m.blockAt k := by
      rw [blockAt_eq place, blockAt_eq place, same, withEntries, cutEntries]
      simp only [List.mem_finRange, true_and]
      congr 1
      simp only [eq_iff_iff]
      omega
    by_cases last : blocklen.toNat < k
    · rw [if_pos last] at here
      rw [if_pos ⟨by omega, last⟩, logical_unmapped here]
    · rw [if_neg last] at here
      rw [if_neg fun both => last both.2, logical, logical, here]
  · have none : ∀ m : Tree, m.blockAt k = 0 := fun m => by rw [blockAt, place_none entry]; rfl
    rw [logical_unmapped (none _), logical_unmapped (none _), ite_self]

/-- An entry of the indirect block, if it stays. -/
def Tree.keptEntry (m : Tree) (blocklen : Nat) (j : Fin 128) : CUnsigned :=
  if blocklen < 15 + j.val then 0 else m (.entry j)

/-- The tree without what `sfs_truncate` takes away behind the direct blocks. The indirect block is
looked at only if the end is in front of its last entry. -/
def Tree.cutIndirect (m : Tree) (blocklen : Nat) : Tree
  | .direct i => m (.direct i)
  | .entry j => if blocklen < 142 then m.keptEntry blocklen j else m (.entry j)
  | .indirect => if blocklen < 142 ∧ ∀ j, m.keptEntry blocklen j = 0 then 0 else m .indirect

theorem Tree.cutIndirect_eq {w : Fin 128 → CUnsigned} {blocklen : Nat} (low : blocklen < 142)
    (entries : ∀ j, w j = m.keptEntry blocklen j) {b : CUnsigned}
    (last : b = if ∀ j, w j = 0 then 0 else m .indirect) :
    update (m.withEntries w) .indirect b = m.cutIndirect blocklen := by
  funext r
  cases r with
  | direct i => rfl
  | indirect => simp [cutIndirect, last, entries, low]
  | entry j =>
    have apart : Ref.entry j ≠ .indirect := by simp
    rw [update_of_ne apart, withEntries, cutIndirect, if_pos low, entries]

variable {size : CUnsigned} {contents : Nat → Block} {Q : Unit → Share → Volume → Prop}

theorem FileHas.truncateIndirect (has : FileHas p size contents own s)
    (here : s.heap p = some sv) (blocklen : CUnsigned)
    (next : ∀ after t sv', FileHas p size
      (fun k => if 15 ≤ k ∧ blocklen.toNat < k then Block.zero else contents k) after t →
      t.heap p = some sv' → sv'.inode.direct = sv.inode.direct →
      (blocklen = 0 → sv'.inode.indirect = 0) →
      sv'.inode.tree t.disk = (sv.inode.tree s.disk).cutIndirect blocklen.toNat → Q () after t) :
    (truncateIndirect p blocklen).Secures (sharing p halts) own s Q E := by
  obtain ⟨_, file, of_size, rfl⟩ := has
  cases here.symm.trans file.here
  have high : (SFS_NDIRECT + SFS_DBPERIDB - 1).toNat = 142 := by decide
  rw [Sfs.truncateIndirect, secures_bind, secures_svAt here]
  rw [secures_ite]
  refine ⟨fun within => ?_, fun keep => ?_⟩
  · obtain ⟨low, mapped⟩ := within
    have indirect : sv.inode.indirect ∈ own := file.mem_blocks (r := .indirect) mapped
    rw [secures_bind]
    apply secures_rblock file.sane (file.valid _ indirect) fun _ => .buffers ..
    have entries : ∀ j, sv.inode.tree s.disk (.entry j) = (s.disk sv.inode.indirect).words j := by
      intro j
      rw [Inode.tree, if_neg mapped]
    have whole : (sv.inode.tree s.disk).withEntries (s.disk sv.inode.indirect).words =
        sv.inode.tree s.disk := by
      funext r
      cases r with
      | direct i => rfl
      | indirect => rfl
      | entry j => exact (entries j).symm
    rw [secures_bind]
    apply Owning.truncateEntries (m := sv.inode.tree s.disk)
      ((whole.symm ▸ file.owning).congr rfl rfl rfl)
    intro hasnonzero iddirty after u heap disk cut owned nonzero clean
    have here' : u.heap p = some sv := by rw [heap, file.here]
    -- the contents that the copy stands for
    have result : (Tree.withEntries (sv.inode.tree s.disk) u.truncbuf).logical u.disk =
        fun k => if 15 ≤ k ∧ blocklen.toNat < k then Block.zero else sv.contents s.disk k := by
      funext k
      rw [cut, disk]
      exact Tree.logical_withEntries _ _ _ _ entries k
    have entries' : ∀ j, u.truncbuf j = (sv.inode.tree s.disk).keptEntry blocklen.toNat j := by
      intro j
      rw [cut, cutEntries, Tree.keptEntry, entries]
      simp
    have found_iff : hasnonzero = true ↔ ∃ j, u.truncbuf j ≠ 0 := by
      rw [nonzero]
      simp
    rw [secures_ite]
    refine ⟨fun empty => ?_, fun kept => ?_⟩
    · -- no entry is left, and the indirect block goes too
      have zero : ∀ j, u.truncbuf j = 0 := by
        intro j
        by_contra entry
        exact Bool.eq_false_iff.mp empty (found_iff.mpr ⟨j, entry⟩)
      rw [secures_bind]
      apply owned.bfree (r := .indirect) rfl mapped
      intro fewer
      refine secures_alterSv { sv.inode with indirect := 0 } here' rfl rfl rfl ?_
      have tree : { sv.inode with indirect := 0 }.tree u.disk =
          update ((sv.inode.tree s.disk).withEntries u.truncbuf) .indirect 0 := by
        funext r
        cases r with
        | direct i => rfl
        | indirect => rfl
        | entry j => exact (zero j).symm
      refine next _ _ _ ⟨{ sv with inode := { sv.inode with indirect := 0 }, dirty := true },
        Owning.mapped (fewer.congr rfl rfl rfl) tree (update_self ..), of_size, ?_⟩
        (update_self ..) rfl (fun _ => rfl) ?_
      · rw [← result]
        exact (congrArg (Tree.logical · u.disk) tree).trans (Tree.logical_indirect _ 0 _)
      · exact tree.trans (Tree.cutIndirect_eq low entries' (if_pos zero).symm)
    obtain ⟨j, entry⟩ : ∃ j, u.truncbuf j ≠ 0 := found_iff.mp (by simpa using kept)
    -- the tree that the copy stands for
    have tree_u : (sv.inode.tree s.disk).withEntries u.truncbuf =
        (sv.inode.tree s.disk).cutIndirect blocklen.toNat := by
      have last : (sv.inode.tree s.disk).withEntries u.truncbuf .indirect =
          if ∀ j, u.truncbuf j = 0 then 0 else sv.inode.tree s.disk .indirect := by
        rw [if_neg fun all => entry (all j)]
        rfl
      rw [← Tree.cutIndirect_eq low entries' last, Function.update_eq_self]
    -- with nothing to keep, no entry is left
    have some_kept : blocklen ≠ 0 := by
      rintro rfl
      refine entry ?_
      have low : (0 : CUnsigned).toNat < 15 + j.val :=
        Nat.lt_of_lt_of_le (by decide) (Nat.le_add_right 15 _)
      rw [cut, cutEntries, if_pos ⟨List.mem_finRange j, low⟩]
    rw [secures_ite]
    have inside : sv.inode.indirect ∈ after := by
      rw [owned.blocks]
      exact mem_held (m := (sv.inode.tree s.disk).withEntries u.truncbuf) (i := .indirect) mapped
    refine ⟨fun _ => ?_, fun unchanged => ?_⟩
    · apply secures_wblock owned.sane (owned.valid _ inside) inside
      have tree : sv.inode.tree (update u.disk sv.inode.indirect (Block.ofWords u.truncbuf)) =
          (sv.inode.tree s.disk).withEntries u.truncbuf := by
        funext r
        cases r with
        | direct i => rfl
        | indirect => rfl
        | entry j =>
          rw [Inode.tree, if_neg mapped, update_self, Block.words_ofWords, Tree.withEntries]
      refine next _ _ sv ⟨sv, Owning.mapped (owned.congr rfl rfl rfl) tree here', of_size, ?_⟩
        here' rfl (fun zero => absurd zero some_kept) (tree.trans tree_u)
      rw [SfsVnode.contents, tree, ← result]
      apply Tree.logical_congr
      intro k some
      exact update_of_ne (Tree.blockAt_ne_indirect owned.tidy some) ..
    · have same : u.truncbuf = (s.disk sv.inode.indirect).words :=
        (clean (by simpa using unchanged)).2
      have tree : sv.inode.tree u.disk = (sv.inode.tree s.disk).withEntries u.truncbuf := by
        rw [disk, same, whole]
      refine next _ _ sv ⟨sv, owned.mapped tree here', of_size, ?_⟩ here' rfl
        (fun zero => absurd zero some_kept) (tree.trans tree_u)
      rw [SfsVnode.contents, tree, result]
  · rw [BitVec.lt_def] at keep
    refine next own s sv ⟨sv, file, of_size, funext fun k => ?_⟩ here rfl (fun zero => ?_)
      (funext fun r => ?_)
    rotate_left
    · by_contra mapped
      exact keep ⟨by rw [zero]; decide, mapped⟩
    · by_cases low : blocklen.toNat < 142
      · have none : sv.inode.indirect = 0 := by
          by_contra some
          exact keep ⟨low, some⟩
        cases r with
        | direct i => rfl
        | indirect => simp [Inode.tree, none, Tree.cutIndirect]
        | entry j => simp [Inode.tree, none, Tree.cutIndirect, Tree.keptEntry]
      cases r with
      | direct i => rfl
      | indirect => rw [Tree.cutIndirect, if_neg fun both => low both.1]
      | entry j => rw [Tree.cutIndirect, if_neg low]
    split
    next behind =>
      refine Tree.logical_unmapped ?_
      by_cases entry : k < 143
      · have none : sv.inode.indirect = 0 := by
          by_contra some
          exact keep ⟨by omega, some⟩
        rw [Tree.blockAt_eq (Tree.place_entry (by omega) entry), Inode.tree, if_pos none]
      · rw [Tree.blockAt, Tree.place_none entry]
        rfl
    next => rfl

theorem FileHas.here (has : FileHas p size contents own s) : ∃ sv, s.heap p = some sv := by
  obtain ⟨sv, file, -, -⟩ := has
  exact ⟨sv, file.here⟩

/-- Without a pointer the file has no blocks. -/
theorem Mapped.blocks_eq_empty (file : Mapped p own sv s) (direct : ∀ i, sv.inode.direct i = 0)
    (indirect : sv.inode.indirect = 0) : own = ∅ := by
  rw [file.blocks, Set.eq_empty_iff_forall_notMem]
  rintro _ ⟨some, r, rfl⟩
  refine some ?_
  cases r with
  | direct i => exact direct i
  | indirect => exact indirect
  | entry j => rw [Inode.tree, if_pos indirect]

def Tree.cutDirect (m : Tree) (blocklen : Nat) : Tree
  | .direct i => if blocklen ≤ i.val then 0 else m (.direct i)
  | .indirect => m .indirect
  | .entry j => m (.entry j)

def Tree.truncated (m : Tree) (blocklen : Nat) : Tree := (m.cutDirect blocklen).cutIndirect blocklen

theorem Inode.tree_cutDirect (i : Inode) (disk : CUnsigned → Block) (blocklen : CUnsigned) :
    ((i.cutDirect blocklen (List.finRange 15)).tree disk).cutIndirect blocklen.toNat =
      (i.tree disk).truncated blocklen.toNat := by
  congr 1
  funext r
  cases r with
  | direct k => simp [Inode.tree, Inode.cutDirect, Tree.cutDirect]
  | indirect => rfl
  | entry j => rfl

/-- `sfs_truncate` takes away the blocks behind the end and sets the size. -/
theorem FileHas.truncate (has : FileHas p size contents own s) (len : CInt)
    (next : ∀ after t, FileHas p len (truncated (blocklen len) contents) after t →
      (blocklen len = 0 → after = ∅) →
      (∀ sv, s.heap p = some sv → ∃ sv', t.heap p = some sv' ∧
        sv'.inode.tree t.disk = (sv.inode.tree s.disk).truncated (blocklen len).toNat) →
      Q () after t) :
    (sfsTruncate p len).Secures (sharing p halts) own s Q E := by
  obtain ⟨sv₀, here⟩ := has.here
  rw [sfsTruncate, secures_bind]
  apply has.truncateDirect here
  intro after t sv₁ has' here' cut disk
  rw [secures_bind]
  apply has'.truncateIndirect here'
  rintro last u sv ⟨_, file, -, holds⟩ here'' direct indirect tree
  cases here''.symm.trans file.here
  refine secures_alterSv { sv.inode with size := len } file.here rfl rfl rfl ?_
  refine next _ _ ⟨{ sv with inode := { sv.inode with size := len }, dirty := true },
    ⟨file.sane.congr rfl rfl rfl, update_self .., file.tidy, file.blocks, file.marked, file.valid⟩,
    rfl, ?_⟩ (fun zero => ?_) fun sv₀' found => ⟨_, update_self .., ?_⟩
  rotate_left
  · refine file.blocks_eq_empty (fun i => ?_) (indirect zero)
    rw [direct, cut, zero]
    exact if_pos ⟨List.mem_finRange i, Nat.zero_le _⟩
  · cases here.symm.trans found
    rw [← Inode.tree_cutDirect, ← cut, ← disk]
    exact tree
  refine Eq.trans holds (funext fun k => ?_)
  simp only [truncated, cutDirect, List.mem_finRange, true_and]
  by_cases direct : k < 15
  · have exists_k : ∃ i : Fin 15, i.val = k := ⟨⟨k, direct⟩, rfl⟩
    have not_entry : ¬ 15 ≤ k := by omega
    simp [direct, exists_k, not_entry]
  have not_direct : ¬ ∃ i : Fin 15, i.val = k := by
    rintro ⟨i, rfl⟩
    omega
  simp [direct, not_direct]

end

end Os161.Sfs
