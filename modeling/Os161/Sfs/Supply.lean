import Os161.Sfs.Extremes

/-!
# Writes with enough free blocks

A write maps the blocks that it touches, and with them the indirect block. It fails for want of
space only when all blocks of the volume are in use and one of these places is still empty, so there
were fewer free blocks than empty places when it began.
-/
namespace Os161.Sfs

open Foundation Vfs

/-- The blocks that can be allocated. -/
def Volume.free (s : Volume) : Set CUnsigned := { b | b < s.super.nblocks ∧ ¬ s.Marked b }

/-- There is a free block for every place that is to be filled. -/
def EnoughFree (m : Tree) (t : Transfer) (s : Volume) : Prop :=
  { r | t.Uses r ∧ m r = 0 }.ncard ≤ s.free.ncard

instance : Finite Ref := by
  let code : Ref → Fin 15 ⊕ Option (Fin 128)
    | .direct i => .inl i
    | .indirect => .inr none
    | .entry j => .inr (some j)
  refine Finite.of_injective code fun r r' same => ?_
  cases r <;> cases r' <;> simp_all [code]

section

variable {p : Ptr} {sv : SfsVnode} {s u : Volume} {t : Transfer} {after : Share}

/-- A write that finds no space has filled all the space there was, and that was less than it
needed. -/
theorem FileWith.not_enough {size : CUnsigned} {contents : Nat → Block} {k : Nat}
    (file : Orderly p sv s) (keeps : Keeps p (sv.share s) after s u)
    (has : FileAt (Fills t.Uses (sv.inode.tree s.disk)) p size contents k 0 after u) (full : u.Full)
    (touched : t.Touches k) (small : k < 143) : ¬ EnoughFree (sv.inode.tree s.disk) t s := by
  obtain ⟨sv', mapped, -, -, fills, empty⟩ := has
  have used : s.free ⊆ held (sv'.inode.tree u.disk) \ held (sv.inode.tree s.disk) := by
    rintro b ⟨valid, free⟩
    refine ⟨?_, fun mine => free (file.inUse b mine).1⟩
    rw [← mapped.blocks]
    by_contra outside
    exact keeps.freed b outside (.inr free) (full b (keeps.super ▸ valid))
  cases place : Tree.place k with
  | none =>
    unfold Tree.place at place
    split_ifs at place
  | some r =>
    rw [Tree.blockAt_eq place] at empty
    exact Nat.not_le_of_lt (fills.ncard_lt used ⟨k, touched, .inl place⟩ empty)

/-! ### Requests do what they are asked for -/

/-- The rest of the volume is as it was: other vnodes, blocks in use elsewhere, and the bytes of
every file whose blocks are elsewhere. -/
structure OthersKept (p : Ptr) (m : Tree) (s u : Volume) : Prop where
  vnodes : ∀ q, q ≠ p → u.heap q = s.heap q
  blocks : ∀ b, s.Marked b → b ∉ held m → u.Marked b ∧ u.disk b = s.disk b
  bytes : ∀ i : Inode, (∀ b ∈ held (i.tree s.disk), s.Marked b ∧ b ∉ held m) →
    ∀ n, byteAt ((i.tree u.disk).logical u.disk) n = byteAt ((i.tree s.disk).logical s.disk) n

theorem Keeps.othersKept (keeps : Keeps p (sv.share s) after s u) :
    OthersKept p (sv.inode.tree s.disk) s u where
  vnodes := keeps.heap
  blocks b marked other := keeps.kept b other marked
  bytes i elsewhere n := by
    have same : ∀ b ∈ Foundation.held (i.tree s.disk), u.disk b = s.disk b := fun b inside =>
      (keeps.kept b (elsewhere b inside).2 (elsewhere b inside).1).2
    rw [Inode.tree_congr_held same,
      Tree.logical_congr fun k mapped => same _ (Tree.blockAt_mem mapped)]

/-- The bytes have been written, and no other byte has changed. -/
structure WroteExactly (p : Ptr) (sv : SfsVnode) (s : Volume) (t : Transfer)
    (r : Except Errno Unit × Transfer) (u : Volume) : Prop where
  ok : r.1 = .ok ()
  whole : r.2.resid = 0
  file : ∃ sv', u.heap p = some sv' ∧
    sv'.inode.size.toNat = max sv.inode.size.toNat (t.offset.toNat + t.resid.toNat) ∧
    ∀ i, byteAt (sv'.contents u.disk) i =
      if t.offset.toNat ≤ i ∧ i < t.offset.toNat + t.resid.toNat then
        t.bytes (t.base + (i - t.offset.toNat))
      else byteAt (sv.contents s.disk) i
  others : OthersKept p (sv.inode.tree s.disk) s u

/-- The bytes up to the end of the file have been brought, and no file has changed. -/
structure ReadExactly (p : Ptr) (sv : SfsVnode) (s : Volume) (t : Transfer)
    (r : Except Errno Unit × Transfer) (u : Volume) : Prop where
  ok : r.1 = .ok ()
  brought : r.2 = t.filled sv.inode.size (sv.contents s.disk)
  file : ∃ sv', u.heap p = some sv' ∧ sv'.inode.size = sv.inode.size ∧
    sv'.contents u.disk = sv.contents s.disk
  others : OthersKept p (sv.inode.tree s.disk) s u

end

section

variable {p : Ptr} {sv : SfsVnode} {s : Volume} {t : Transfer} (file : Orderly p sv s)
  (small : sv.inode.size.toNat < 2 ^ 31) (inside : t.offset.toNat + t.resid.toNat ≤ 143 * 512)
  (room : t.resid.toNat ≤ t.len.toNat) (reachable : ∀ i, t.bad i = false)

include file small inside room reachable

private theorem write_exact (write : t.rw = .UIO_WRITE)
    (enough : EnoughFree (sv.inode.tree s.disk) t s) :
    (sfsRequest p t).Ensures (fun _ => False) s (WroteExactly p sv s t) fun _ _ => False := by
  have proper : t.Proper := ⟨by omega, room⟩
  have grows : ∀ k, (t.Proper → t.Touches k) → Grows (Fills t.Uses (sv.inode.tree s.disk)) k :=
    fun k touches _ _ fills more =>
      fills.trans (more.mono fun r uses => ⟨k, touches proper, uses⟩)
  have has : FileWith (Fills t.Uses (sv.inode.tree s.disk)) p sv.inode.size (sv.contents s.disk)
      (sv.share s) s := ⟨sv, file.mapped, rfl, rfl, .refl _ _⟩
  have call : (sfsRequest p t).Secures (sharing p (fun _ => False)) (sv.share s) s
      (fun r after u => ∃ contents',
        FileHas p (newSize sv.inode.size r.2.offset) contents' after u ∧
        Wrote (sv.contents s.disk) t contents' r.2 ∧
        (r.1 = .ok () ∧ r.2.resid.toNat = 0 ∨ ∃ k, t.Touches k ∧ u.Full ∧
          FileAt (Fills t.Uses (sv.inode.tree s.disk)) p (newSize sv.inode.size r.2.offset)
            contents' k 0 after u)) (fun _ _ _ => False) := by
    rw [sfsRequest, Call.secures_locally]
    refine (has.io_write grows write (.inr proper)).mono ?_ ?_
    · rintro _ after ⟨u, t'⟩ ⟨⟨contents', has, wrote⟩, finished⟩
      exact ⟨contents', has.fileHas, wrote proper, .inl ⟨rfl, finished proper⟩⟩
    rintro e after ⟨u, t'⟩ ⟨error, contents', has, stopped⟩
    obtain ⟨wrote, -, more, full⟩ := stopped proper
    have touched := ((served_write write).mpr wrote).touches proper more
    refine ⟨contents', has.fileHas, wrote, .inr ⟨_, touched, ?_⟩⟩
    rcases error with ⟨rfl, -⟩ | ⟨-, beyond⟩ | ⟨-, i, bad⟩
    · exact ⟨(full rfl).2, has.mono fun _ stuck => ⟨stuck.1, stuck.2 rfl⟩⟩
    · exact absurd (beyond proper) (by omega)
    · exact absurd ((reachable i).symm.trans bad) (by decide)
  refine (alone call).mono ?_ ?_
  · rintro ⟨result, t'⟩ u ⟨after, keeps, contents', has, ⟨n, part, moved, bytes⟩, ends⟩
    obtain ⟨sv', mapped, of_size, holds⟩ := has
    rcases ends with ⟨ok, finished⟩ | ⟨k, touched, full, stuck⟩
    · -- all the bytes have gone
      obtain ⟨-, offset, resid, -⟩ := proper.advance part
      rw [← moved] at offset resid
      have all : n = t.resid.toNat := by omega
      refine ⟨ok, toNat_eq_zero.mp finished, ⟨sv', mapped.here, ?_, fun i => ?_⟩, keeps.othersKept⟩
      · rw [of_size, toNat_newSize small (by omega), offset, all]
      · rw [holds, bytes, all]
    · have last : k * 512 < t.offset.toNat + t.resid.toNat := touched.1
      exact absurd enough (stuck.not_enough file keeps full touched (by omega))
  · rintro e u ⟨-, -, never⟩
    exact never

private theorem read_exact (read : t.rw = .UIO_READ) :
    (sfsRequest p t).Ensures (fun _ => False) s (ReadExactly p sv s t) fun _ _ => False := by
  have call := file.reads read ⟨by omega, room⟩ small reachable (.inr inside)
  refine (alone call).mono ?_ ?_
  · rintro r u ⟨after, keeps, has, rfl⟩
    obtain ⟨sv', mapped, of_size, holds⟩ := has
    exact ⟨rfl, rfl, ⟨sv', mapped.here, of_size, holds⟩, keeps.othersKept⟩
  · rintro e u ⟨-, -, never⟩
    exact never

/-- A request inside the largest file does what it is asked for, on a file whose size is not
negative as an offset. -/
theorem io_exact :
    (t.rw = .UIO_WRITE → EnoughFree (sv.inode.tree s.disk) t s →
      (sfsRequest p t).Ensures (fun _ => False) s (WroteExactly p sv s t) fun _ _ => False) ∧
    (t.rw = .UIO_READ →
      (sfsRequest p t).Ensures (fun _ => False) s (ReadExactly p sv s t) fun _ _ => False) :=
  ⟨write_exact file small inside room reachable, read_exact file small inside room reachable⟩

end

/-! ### Small requests -/

/-- A request to write 1000 bytes from byte 100 on. -/
def sevens : Transfer := { kernelUio 100 1000 .UIO_WRITE with bytes := fun _ => 7 }

private theorem missing_sevens (m : Tree) :
    { r | sevens.Uses r ∧ m r = 0 } ⊆ ({.direct 0, .direct 1, .direct 2} : Finset Ref) := by
  rintro r ⟨⟨k, touches, uses⟩, -⟩
  have last : k * 512 < 1100 := touches.1
  rcases uses with place | ⟨large, -⟩
  · obtain rfl | rfl | rfl : k = 0 ∨ k = 1 ∨ k = 2 := by omega
    all_goals
      cases place
      exact Finset.mem_coe.mpr (by decide)
  · omega

/-- The bytes are written to an empty file, on a volume with four free blocks, and other bytes are
read from a hole into the block behind it. -/
theorem io_exact_sevens :
    (sfsRequest 0 sevens).Ensures (fun _ => False)
        (smallVolume 15 (emptyInode 0) fun _ => Block.zero)
        (WroteExactly 0 (smallFile (emptyInode 0))
          (smallVolume 15 (emptyInode 0) fun _ => Block.zero) sevens) (fun _ _ => False) ∧
      (sfsRequest 0 (kernelUio 7600 400 .UIO_READ)).Ensures (fun _ => False)
        (smallVolume 63 sparseInode sparseDisk)
        (ReadExactly 0 (smallFile sparseInode) (smallVolume 63 sparseInode sparseDisk)
          (kernelUio 7600 400 .UIO_READ)) fun _ _ => False := by
  have file : Orderly 0 (smallFile (emptyInode 0))
      (smallVolume 15 (emptyInode 0) fun _ => Block.zero) := orderly_empty 0 _ (by decide)
  have finite : Finite CUnsigned := Finite.of_injective BitVec.toFin fun _ _ =>
    BitVec.eq_of_toFin_eq
  have free : ↑({4, 5, 6} : Finset CUnsigned) ⊆
      (smallVolume 15 (emptyInode 0) fun _ => Block.zero).free := by
    intro b member
    rw [Finset.mem_coe, Finset.mem_insert, Finset.mem_insert, Finset.mem_singleton] at member
    rcases member with rfl | rfl | rfl
    all_goals
      refine ⟨by decide, ?_⟩
      unfold Volume.Marked
      decide
  have enough : EnoughFree ((smallFile (emptyInode 0)).inode.tree fun _ => Block.zero) sevens
      (smallVolume 15 (emptyInode 0) fun _ => Block.zero) := by
    have missing := Set.ncard_le_ncard
      (missing_sevens ((smallFile (emptyInode 0)).inode.tree fun _ => Block.zero))
    have left := Set.ncard_le_ncard free
    rw [Set.ncard_coe_finset] at missing left
    exact missing.trans left
  have write := io_exact (t := sevens) file (by decide) (by decide) (Nat.le_refl _) fun _ => rfl
  have read := io_exact (t := kernelUio 7600 400 .UIO_READ) orderly_sparse (by decide) (by decide)
    (Nat.le_refl _) fun _ => rfl
  exact ⟨write.1 rfl enough, read.2 rfl⟩

/-- The size of a file in order is `2 ^ 31`, and a read of its first byte returns without it. -/
theorem read_negative_size :
    Orderly 0 (smallFile (emptyInode 0x80000000))
        (smallVolume 15 (emptyInode 0x80000000) fun _ => Block.zero) ∧
      (sfsRequest 0 (kernelUio 0 1 .UIO_READ)).run
          (smallVolume 15 (emptyInode 0x80000000) fun _ => Block.zero) =
        .returned (.ok (), kernelUio 0 1 .UIO_READ)
          (smallVolume 15 (emptyInode 0x80000000) fun _ => Block.zero) :=
  ⟨orderly_empty _ _ (by decide), rfl⟩

end Os161.Sfs
