import Os161.Foundation.Places
import Os161.Sfs.Layout

/-!
# The blocks of a file

An inode refers to blocks, and its indirect block refers to more of them. The contents of a file
are a block for each number; where no block is mapped they are zero.
-/
namespace Os161.Sfs

open Foundation
open Function (update update_of_ne update_self)

/-- Block 0 is none. -/
instance : Zero CUnsigned := ⟨0⟩

/-- A place in an inode or in its indirect block that refers to a block. -/
inductive Ref where
  | direct (i : Fin 15)
  | indirect
  | entry (j : Fin 128)
  deriving DecidableEq

/-- What the places refer to. -/
abbrev Tree := Ref → CUnsigned

/-- The places of an inode, with the indirect block as it is on the disk. -/
def Inode.tree (i : Inode) (disk : CUnsigned → Block) : Tree
  | .direct k => i.direct k
  | .indirect => i.indirect
  | .entry j => if i.indirect = 0 then 0 else (disk i.indirect).words j

namespace Tree

/-- The place for block `k` of a file. -/
def place (k : Nat) : Option Ref :=
  if direct : k < 15 then some (.direct ⟨k, direct⟩)
  else if entry : k < 143 then some (.entry ⟨k - 15, by omega⟩)
  else none

/-- Where block `k` of the file is, or 0. -/
def blockAt (m : Tree) (k : Nat) : CUnsigned := (place k).elim 0 m

def logical (m : Tree) (disk : CUnsigned → Block) (k : Nat) : Block :=
  if m.blockAt k = 0 then Block.zero else disk (m.blockAt k)

/-- The places that are filled when block `k` is mapped. -/
def Uses (k : Nat) (r : Ref) : Prop := place k = some r ∨ (15 ≤ k ∧ r = .indirect)

theorem place_direct {k : Nat} (small : k < 15) : place k = some (.direct ⟨k, small⟩) := by
  rw [place, dif_pos small]

theorem place_entry {k : Nat} (large : ¬ k < 15) (small : k < 143) :
    place k = some (.entry ⟨k - 15, by omega⟩) := by
  rw [place, dif_neg large, dif_pos small]

theorem place_none {k : Nat} (large : ¬ k < 143) : place k = none := by
  rw [place, dif_neg (by omega), dif_neg large]

variable {r : Ref}

theorem place_injective {k l : Nat} (one : place k = some r) (two : place l = some r) :
    k = l := by
  unfold place at one two
  split at one <;> split at two
  · cases one
    simpa using two.symm
  · cases one
    split at two <;> simp at two
  · cases two
    split at one <;> simp at one
  split at one
  · cases one
    split at two
    · simp only [Option.some.injEq, Ref.entry.injEq, Fin.mk.injEq] at two
      omega
    · cases two
  · cases one

theorem place_ne_indirect {k : Nat} : place k ≠ some .indirect := by
  unfold place
  split
  · simp
  · split <;> simp

variable {m : Tree} {disk disk' : CUnsigned → Block} {k : Nat} {b : CUnsigned}

theorem blockAt_eq (here : place k = some r) : m.blockAt k = m r := by
  rw [blockAt, here, Option.elim_some]

theorem blockAt_entry (m : Tree) (j : Fin 128) : m.blockAt (15 + j.val) = m (.entry j) := by
  have place : Tree.place (15 + j.val) = some (.entry j) := by
    rw [place_entry (by omega) (by omega)]
    congr
    omega
  exact blockAt_eq place

theorem blockAt_mem (mapped : m.blockAt k ≠ 0) : m.blockAt k ∈ held m := by
  cases here : place k with
  | none =>
    rw [blockAt, here] at mapped
    exact absurd rfl mapped
  | some r =>
    rw [blockAt_eq here] at mapped ⊢
    exact mem_held mapped

theorem logical_mapped (mapped : m.blockAt k ≠ 0) : m.logical disk k = disk (m.blockAt k) :=
  if_neg mapped

theorem logical_unmapped (hole : m.blockAt k = 0) : m.logical disk k = Block.zero := if_pos hole

/-- The contents depend on the data blocks of the file only. -/
theorem logical_congr
    (same : ∀ k, m.blockAt k ≠ 0 → disk' (m.blockAt k) = disk (m.blockAt k)) :
    m.logical disk' = m.logical disk := by
  funext k
  by_cases mapped : m.blockAt k = 0
  · rw [logical_unmapped mapped, logical_unmapped mapped]
  · rw [logical_mapped mapped, logical_mapped mapped, same k mapped]

/-- A block of zeros in place of no block. -/
theorem logical_put (empty : m r = 0) (zero : disk b = Block.zero) :
    logical (update m r b) disk = m.logical disk := by
  funext k
  by_cases here : place k = some r
  · have now : blockAt (update m r b) k = b := by
      rw [blockAt_eq here, update_self]
    have before : m.blockAt k = 0 := (blockAt_eq here).trans empty
    rw [logical_unmapped before, logical, now]
    split
    · rfl
    · exact zero
  have same : blockAt (update m r b) k = m.blockAt k := by
    cases other : place k with
    | none => simp [blockAt, other]
    | some r' =>
      have apart : r' ≠ r := fun same => here (other.trans (congrArg some same))
      rw [blockAt_eq other, blockAt_eq other, update_of_ne apart]
  rw [logical, logical, same]

/-- A data block is not the indirect block. -/
theorem blockAt_ne_indirect (tidy : Tidy m) (mapped : m.blockAt k ≠ 0) :
    m.blockAt k ≠ m .indirect := by
  intro same
  cases here : place k with
  | none =>
    rw [blockAt, here] at mapped
    exact mapped rfl
  | some r =>
    rw [blockAt_eq here] at mapped same
    have one : r = .indirect := tidy mapped same
    exact place_ne_indirect (here.trans (congrArg some one))

/-- The contents do not depend on where the indirect block is. -/
theorem logical_indirect (m : Tree) (b : CUnsigned) (disk : CUnsigned → Block) :
    logical (update m .indirect b) disk = m.logical disk := by
  funext k
  have same : blockAt (update m .indirect b) k = m.blockAt k := by
    cases here : place k with
    | none => simp [blockAt, here]
    | some r =>
      have apart : r ≠ .indirect := by
        rintro rfl
        exact place_ne_indirect here
      rw [blockAt_eq here, blockAt_eq here, update_of_ne apart]
  rw [logical, logical, same]

theorem logical_take (here : place k = some r) :
    logical (update m r 0) disk = update (m.logical disk) k Block.zero := by
  funext l
  by_cases same : l = k
  · have none : blockAt (update m r 0) k = 0 := by
      rw [blockAt_eq here, update_self]
    rw [same, update_self, logical_unmapped none]
  have other : blockAt (update m r 0) l = m.blockAt l := by
    cases there : place l with
    | none => simp [blockAt, there]
    | some r' =>
      have apart : r' ≠ r := by
        rintro rfl
        exact same (place_injective there here)
      rw [blockAt_eq there, blockAt_eq there, update_of_ne apart]
  rw [update_of_ne same, logical, logical, other]

theorem logical_write (tidy : Tidy m) (mapped : m.blockAt k ≠ 0) (data : Block) :
    m.logical (update disk (m.blockAt k) data) =
      update (m.logical disk) k data := by
  funext l
  by_cases here : l = k
  · rw [here, update_self, logical_mapped mapped, update_self]
  rw [update_of_ne here, logical, logical]
  split
  · rfl
  next nonzero =>
    have apart : m.blockAt l ≠ m.blockAt k := by
      intro same
      cases atL : place l with
      | none =>
        rw [blockAt, atL] at nonzero
        exact nonzero rfl
      | some r =>
        cases atK : place k with
        | none =>
          rw [blockAt, atK] at mapped
          exact mapped rfl
        | some r' =>
          rw [blockAt_eq atL, blockAt_eq atK] at same
          rw [blockAt_eq atL] at nonzero
          have one : r = r' := tidy nonzero same
          exact here (place_injective atL (one ▸ atK))
    exact update_of_ne apart ..

end Tree

/-! ### Inodes -/

namespace Inode

variable {i : Inode} {disk disk' : CUnsigned → Block}

theorem tree_blank (direct : ∀ k, i.direct k = 0) (indirect : i.indirect = 0) (r : Ref) :
    i.tree disk r = 0 := by
  cases r with
  | direct k => exact direct k
  | indirect => exact indirect
  | entry j => rw [tree, if_pos indirect]

/-- The places depend on the inode and its indirect block only. -/
theorem tree_congr (same : i.indirect ≠ 0 → disk' i.indirect = disk i.indirect) :
    i.tree disk' = i.tree disk := by
  funext r
  cases r with
  | direct k => rfl
  | indirect => rfl
  | entry j =>
    by_cases none : i.indirect = 0
    · simp [tree, none]
    · simp [tree, same none]

theorem tree_congr_held (same : ∀ b ∈ held (i.tree disk), disk' b = disk b) :
    i.tree disk' = i.tree disk :=
  tree_congr fun some => same _ (mem_held (m := i.tree disk) (i := .indirect) some)

theorem tree_setDirect (k : Fin 15) (b : CUnsigned) :
    { i with direct := update i.direct k b }.tree disk =
      update (i.tree disk) (.direct k) b := by
  funext r
  cases r with
  | direct l =>
    by_cases here : l = k
    · subst here
      simp [tree]
    · have apart : Ref.direct l ≠ .direct k := fun same => here (by injection same)
      simp [tree, update_of_ne here, update_of_ne apart]
  | indirect => rfl
  | entry j => rfl

/-- A new indirect block has no entries. -/
theorem tree_setIndirect (none : i.indirect = 0) {b : CUnsigned} (zero : disk b = Block.zero) :
    { i with indirect := b }.tree disk = update (i.tree disk) .indirect b := by
  funext r
  cases r with
  | direct l => rfl
  | indirect => rfl
  | entry j =>
    simp [tree, none, zero, Block.words_zero]

theorem tree_setEntry (some : i.indirect ≠ 0) (j : Fin 128) (b : CUnsigned) :
    i.tree (update disk i.indirect
        (Block.ofWords (update (disk i.indirect).words j b))) =
      update (i.tree disk) (.entry j) b := by
  funext r
  cases r with
  | direct l => rfl
  | indirect => rfl
  | entry l =>
    simp only [tree, some, if_false, update_self, Block.words_ofWords]
    by_cases here : l = j
    · subst here
      rw [update_self, update_self]
    · have apart : Ref.entry l ≠ .entry j := fun same => here (by injection same)
      rw [update_of_ne here, update_of_ne apart]
      simp only [tree, some, if_false]

end Inode

end Os161.Sfs
