import Os161.Sfs.Bounds

/-!
# Requests of any size

`uio_offset` and `uio_resid` are 32 bits wide, and `sfs_io` adds them. Where the sum is beyond the
largest `off_t`, the end of the file does not stop a read, and both reads and writes go on until
`sfs_bmap` refuses a block. They stop with `EINVAL`, and no assertion fails before that as long as
the offset is not negative. In front of the file `sfs_bmap` refuses all blocks but the first, to
which the last offsets below 0 are counted as well.
-/
namespace Os161.Sfs

open Foundation Vfs
open Call (ensures_bind ensures_ensure ensures_held ensures_ite ensures_state)

section

variable {p : Ptr} {sv : SfsVnode} {s : Volume} {t : Transfer}

/-- A read whose end is an offset, where it or the file does not leave the largest file. -/
theorem Orderly.reads (file : Orderly p sv s) (read : t.rw = .UIO_READ) (proper : t.Proper)
    (small : sv.inode.size.toNat < 2 ^ 31) (reachable : ∀ i, t.bad i = false)
    (inside : sv.inode.size.toNat ≤ 143 * 512 ∨ t.offset.toNat + t.resid.toNat ≤ 143 * 512) :
    (sfsRequest p t).Secures (sharing p (fun _ => False)) (sv.share s) s
      (fun r after u => FileHas p sv.inode.size (sv.contents s.disk) after u ∧
        r = (.ok (), t.filled sv.inode.size (sv.contents s.disk))) (fun _ _ _ => False) := by
  rw [sfsRequest, Call.secures_locally]
  refine (file.has.io_read read (.inr ⟨proper, small⟩)).mono ?_ ?_
  · rintro _ after ⟨u, t'⟩ ⟨has, brought⟩
    exact ⟨has, congrArg (Prod.mk _) (brought proper small)⟩
  · rintro e after ⟨u, t'⟩ ⟨-, ⟨-, large⟩ | ⟨-, i, bad⟩⟩
    · have := large proper small
      omega
    · exact absurd ((reachable i).symm.trans bad) (by decide)

section

variable (file : Orderly p sv s) (limit : sv.inode.size.toNat ≤ 143 * 512) (read : t.rw = .UIO_READ)

include file limit read

/-- A read that starts behind the end of the file, however long it is. -/
theorem Orderly.read_behind (low : t.offset.toNat < 2 ^ 31)
    (behind : sv.inode.size.toNat ≤ t.offset.toNat) :
    (sfsRequest p t).Ensures (fun _ => False) s
      (fun r _ => r = (.ok (), t.filled sv.inode.size (sv.contents s.disk))) fun _ _ => False := by
  have past : sv.inode.size.sle t.offset = true := (sle_iff (by omega) low).mpr behind
  rw [sfsRequest, Call.ensures_locally, sfsIo, ensures_bind, ensures_uio, ensures_bind,
    ensures_onVolume]
  refine (ensures_svAt file.here).mpr ?_
  rw [if_pos ⟨read, past⟩, Transfer.filled_behind behind]
  rfl

/-- A read that starts in the file and whose end is not an offset. -/
theorem Orderly.read_beyond (room : t.resid.toNat ≤ t.len.toNat) (reachable : ∀ i, t.bad i = false)
    (inside : t.offset.toNat < sv.inode.size.toNat)
    (beyond : 2 ^ 31 ≤ t.offset.toNat + t.resid.toNat) :
    (sfsRequest p t).Ensures (fun _ => False) s (fun r _ => r.1 = .error .EINVAL)
      fun _ _ => False := by
  have fails : (sfsRequest p t).Ensures Spared s (fun r _ => r.1 ≠ .ok ()) fun _ _ => True := by
    rw [sfsRequest, Call.ensures_locally]
    refine (io_far file.sane.superblock (by omega) beyond room).mono ?_ fun _ _ _ wrong => ?_
    · rintro _ _ ⟨sv', here, behind⟩
      cases file.here.symm.trans here
      rw [sle_iff (by omega) (by omega)] at behind
      omega
    · cases wrong
  refine ((file.request_returns (by omega) room).and fails).mono ?_ fun _ _ both => both.1
  rintro ⟨result, t'⟩ _ ⟨error, failed⟩
  cases result with
  | ok => exact absurd rfl failed
  | error e =>
    rcases error e rfl with ⟨-, write⟩ | rfl | ⟨-, i, bad⟩
    · exact absurd (read.symm.trans write) (by decide)
    · rfl
    · exact absurd ((reachable i).symm.trans bad) (by decide)

/-- A read brings what there is up to the end of the file just if it starts behind the end or its
own end is an offset. -/
theorem read_clipped_iff (low : t.offset.toNat < 2 ^ 31) (room : t.resid.toNat ≤ t.len.toNat)
    (reachable : ∀ i, t.bad i = false) :
    (sfsRequest p t).Ensures (fun _ => False) s
      (fun r _ => r = (.ok (), t.filled sv.inode.size (sv.contents s.disk)) ↔
        sv.inode.size.toNat ≤ t.offset.toNat ∨ t.offset.toNat + t.resid.toNat < 2 ^ 31)
      fun _ _ => False := by
  by_cases behind : sv.inode.size.toNat ≤ t.offset.toNat
  · exact (file.read_behind limit read low behind).mono
      (fun r _ same => iff_of_true same (.inl behind)) fun _ _ => id
  by_cases within : t.offset.toNat + t.resid.toNat < 2 ^ 31
  · have call := file.reads read ⟨within, room⟩ (by omega) reachable (.inl limit)
    exact (alone_ensures (call.mono (fun _ _ _ both => both.2) fun _ _ _ => id)).mono
      (fun r _ same => iff_of_true same (.inr within)) fun _ _ => id
  refine (file.read_beyond limit read room reachable (by omega) (by omega)).mono ?_
    fun _ _ => id
  intro r u failed
  refine iff_of_false (fun same => ?_) (by omega)
  rw [same] at failed
  cases failed

end

/-- Two bytes of a file that has one. -/
theorem read_clipped_iff_short :
    (sfsRequest 0 (kernelUio 0 2 .UIO_READ)).Ensures (fun _ => False)
      (smallVolume 15 (emptyInode 1) fun _ => Block.zero)
      (fun r _ => r = (.ok (), (kernelUio 0 2 .UIO_READ).filled 1
        ((smallFile (emptyInode 1)).contents fun _ => Block.zero)))
      fun _ _ => False := by
  have file : Orderly 0 (smallFile (emptyInode 1))
      (smallVolume 15 (emptyInode 1) fun _ => Block.zero) := orderly_empty 1 _ (by decide)
  have limit : (1 : CUnsigned).toNat ≤ 143 * 512 := by decide
  have low : (0 : CInt).toNat < 2 ^ 31 := by decide
  have within : (0 : CInt).toNat + (2 : CUnsigned).toNat < 2 ^ 31 := by decide
  exact (read_clipped_iff (t := kernelUio 0 2 .UIO_READ) file limit rfl low (Nat.le_refl _)
    fun _ => rfl).mono (fun _ _ holds => holds.mpr (.inr within)) fun _ _ => id

/-- `2 ^ 31` bytes of a file of one byte are asked for, and the one byte does not come. -/
theorem read_end_wraps :
    ∃ len : CUnsigned, len.toNat = 2 ^ 31 ∧
      (sfsRequest 0 (kernelUio 0 len .UIO_READ)).Ensures (fun _ => False)
        (smallVolume 15 (emptyInode 1) fun _ => Block.zero)
        (fun r _ => r.1 = .error .EINVAL) fun _ _ => False := by
  obtain ⟨len, large⟩ : ∃ len : CUnsigned, len.toNat = 2 ^ 31 := ⟨0x80000000, by simp⟩
  have file : Orderly 0 (smallFile (emptyInode 1))
      (smallVolume 15 (emptyInode 1) fun _ => Block.zero) := orderly_empty 1 _ (by decide)
  have limit : (1 : CUnsigned).toNat ≤ 143 * 512 := by decide
  have inside : (0 : CInt).toNat < (1 : CUnsigned).toNat := by decide
  refine ⟨len, large, file.read_beyond limit rfl (Nat.le_refl _) (fun _ => rfl) inside ?_⟩
  dsimp only [kernelUio]
  omega

end

/-! ### Negative offsets -/

section

section

variable {x : CInt} (negative : x.toInt < 0)

include negative

theorem toNat_neg_pos : 0 < (-x).toNat ∧ (-x).toNat ≤ 2 ^ 31 ∧ x.toInt = -((-x).toNat : Int) := by
  have small := BitVec.toInt_neg_iff.mp negative
  rw [BitVec.toInt_eq_toNat_cond, if_neg (by omega), BitVec.toNat_neg]
  omega

/-- The remainder of a negative number is negative, and its quotient is rounded towards 0. -/
theorem srem_of_neg : x.srem SFS_BLOCKSIZE = -(-x % SFS_BLOCKSIZE) := by
  have sign : x.msb = true := by rw [BitVec.msb_eq_toInt]; exact decide_eq_true negative
  have sign' : SFS_BLOCKSIZE.msb = false := by decide
  simp [BitVec.srem_eq, sign, sign']

private theorem sdiv_of_neg : x.sdiv SFS_BLOCKSIZE = -(-x / SFS_BLOCKSIZE) := by
  have sign : x.msb = true := by rw [BitVec.msb_eq_toInt]; exact decide_eq_true negative
  have sign' : SFS_BLOCKSIZE.msb = false := by decide
  simp [BitVec.sdiv_eq, sign, sign']

theorem toNat_srem_of_neg :
    (x.srem SFS_BLOCKSIZE).toNat = (2 ^ 32 - (-x).toNat % 512) % 2 ^ 32 := by
  rw [srem_of_neg negative, BitVec.toNat_neg, BitVec.toNat_umod]
  rfl

theorem toNat_sdiv_of_neg :
    (x.sdiv SFS_BLOCKSIZE).toNat = (2 ^ 32 - (-x).toNat / 512) % 2 ^ 32 := by
  rw [sdiv_of_neg negative, BitVec.toNat_neg, BitVec.toNat_udiv]
  rfl

end

variable {p : Ptr} {s : Volume} {t : Transfer} {H : Halt → Prop}
  {E : Errno → Volume × Transfer → Prop} {Q : Unit → Volume × Transfer → Prop}

/-- So far in front of the file that `sfs_bmap` refuses its block, and not ending within a block. -/
structure Transfer.Refused (t : Transfer) : Prop where
  far : t.offset.toInt ≤ -512
  reaches : (-t.offset).toNat % 512 ≤ t.resid.toNat

theorem bmap_refused {fileblock : CUnsigned} {doalloc : Bool} {Q : CUnsigned → Volume → Prop}
    {E : Errno → Volume → Prop} (large : 143 ≤ fileblock.toNat) (refused : E .EINVAL s) :
    (sfsBmap p fileblock doalloc).Ensures H s Q E := by
  rw [sfsBmap, dif_neg (by omega), ensures_ite]
  refine ⟨fun _ => refused, fun small => absurd large ?_⟩
  rw [idnum_pos (by omega)] at small
  exact small

namespace Transfer.Refused

variable (refused : t.Refused) (error : E .EINVAL (s, t))

include refused

theorem block : 143 ≤ (t.offset.sdiv SFS_BLOCKSIZE).toNat := by
  have far := refused.far
  obtain ⟨pos, small, same⟩ := toNat_neg_pos (x := t.offset) (by omega)
  rw [toNat_sdiv_of_neg (by omega)]
  omega

include error

private theorem partialio {skip len : CUnsigned} (inside : skip + len ≤ SFS_BLOCKSIZE) :
    (sfsPartialio p skip len).Ensures H (s, t) Q E := by
  rw [sfsPartialio, ensures_bind, ensures_uio, ensures_bind, ensures_held inside, ensures_bind,
    ensures_onVolume]
  exact bmap_refused refused.block error

private theorem blockio : (sfsBlockio p).Ensures H (s, t) Q E := by
  rw [sfsBlockio, ensures_bind, ensures_uio, ensures_bind, ensures_onVolume]
  exact bmap_refused refused.block error

private theorem body (done : Q () (s, t)) : (sfsIoBody p).Ensures H (s, t) Q E := by
  have limit : SFS_BLOCKSIZE.toNat = 512 := by decide
  have lead := toNat_srem_of_neg (Int.lt_of_le_of_lt refused.far (by decide))
  have reaches := refused.reaches
  rw [sfsIoBody, ensures_bind, ensures_uio]
  dsimp only
  rw [ensures_ite]
  refine ⟨fun crooked => ?_, fun even => ?_⟩
  · -- the sum of the two wraps around
    generalize t.offset.srem SFS_BLOCKSIZE = skip at lead crooked
    have some : skip.toNat ≠ 0 := fun none => crooked (toNat_eq_zero.mp none)
    generalize length : (if t.resid < SFS_BLOCKSIZE - skip then t.resid else SFS_BLOCKSIZE - skip) =
      len
    have inside : skip + len ≤ SFS_BLOCKSIZE := by
      rw [← length]
      split
      next less =>
        rw [BitVec.lt_def, BitVec.toNat_sub] at less
        rw [BitVec.le_def, BitVec.toNat_add]
        omega
      next => rw [BitVec.add_comm, BitVec.sub_add_cancel]; exact BitVec.le_refl _
    rw [ensures_bind]
    exact refused.partialio error inside
  · rw [sfsIoAligned, ensures_bind, ensures_uio, ensures_ite]
    refine ⟨fun some => ?_, fun _ => done⟩
    rw [ensures_bind, ensures_held (not_not.mp even), ensures_bind]
    cases whole : (t.resid / SFS_BLOCKSIZE).toNat with
    | zero =>
      rw [BitVec.toNat_udiv, limit] at whole
      have short : t.resid < SFS_BLOCKSIZE := BitVec.lt_def.mpr (by omega)
      have inside : 0#32 + t.resid ≤ SFS_BLOCKSIZE := by
        rw [BitVec.zero_add]
        exact BitVec.le_of_lt short
      rw [sfsBlocks, Call.ensures_pure, ensures_bind, ensures_uio, ensures_bind, ensures_held short,
        ensures_ite]
      exact ⟨fun _ => refused.partialio error inside, fun _ => done⟩
    | succ left =>
      rw [sfsBlocks, ensures_bind]
      exact refused.blockio error

omit error in
/-- What a read would bring from the file is not less than what it needs. -/
theorem cut {size : CUnsigned} (small : size.toNat < 2 ^ 31) :
    Refused { t with resid := t.resid - (t.offset + t.resid - size) } := by
  have far := refused.far
  obtain ⟨pos, low, -⟩ := toNat_neg_pos (x := t.offset) (by omega)
  refine ⟨far, ?_⟩
  have same : t.resid - (t.offset + t.resid - size) = size + -t.offset := by bv_omega
  change _ ≤ (t.resid - (t.offset + t.resid - size)).toNat
  rw [same, BitVec.toNat_add]
  dsimp only
  omega

omit error in
private theorem request {sv : SfsVnode} (here : s.heap p = some sv)
    (small : sv.inode.size.toNat < 2 ^ 31) :
    (sfsRequest p t).Ensures H s (fun _ _ => True) fun _ _ => False := by
  have out {t' : Transfer} (extraresid : CUnsigned) :
      (sfsIoOut p extraresid).Ensures H (s, t') (fun _ _ => True) fun _ _ => True := by
    rw [sfsIoOut, ensures_bind, ensures_uio, ensures_bind, ensures_onVolume, ensures_svAt here,
      ensures_ite]
    refine ⟨fun _ => ?_, fun _ => trivial⟩
    rw [ensures_bind, ensures_onVolume]
    exact (ensures_alterSv here).mpr trivial
  have finish (extraresid : CUnsigned) {t' : Transfer} (refused' : t'.Refused) :
      ((sfsIoBody p).attempt >>= fun result =>
          sfsIoOut p extraresid >>= fun _ => Call.ofExcept result).Ensures H (s, t')
        (fun _ _ => True) fun _ _ => True := by
    rw [ensures_bind, Call.ensures_attempt]
    exact refused'.body ((out extraresid).bind (fun _ _ => id) fun _ _ => id)
      ((out extraresid).bind (fun _ _ => id) fun _ _ => id)
  rw [sfsRequest, Call.ensures_locally, sfsIo, ensures_bind, ensures_uio, ensures_bind,
    ensures_onVolume]
  refine (ensures_svAt here).mpr ?_
  rw [ensures_ite]
  refine ⟨fun _ => trivial, fun inside => ?_⟩
  rw [ensures_ite]
  refine ⟨fun cut => ?_, fun uncut => finish _ refused⟩
  rw [if_pos cut, ensures_bind,
    ensures_held (sub_lt_of_between (fun behind => inside ⟨cut.1, behind⟩) cut.2)]
  exact finish _ (refused.cut small)

end Transfer.Refused

/-! ### In front of the buffer -/

/-- A file with one block, and one byte in it. -/
def oneByte : Volume := smallVolume 31 ⟨1, 1, 1, fun _ => 4, 0, fun _ => 0⟩ fun _ => Block.zero

private theorem bmap_oneByte {doalloc : Bool} :
    (sfsBmap 0 0 doalloc).run oneByte = .returned 4 oneByte := rfl

/-- There is no room behind the end of the buffer. -/
theorem uiomove_overruns {buf : Kbuf} {n : CUnsigned} (none : buf.room = 0) (some : 0 < n)
    (left : 0 < t.resid) : (uiomove buf n).Ensures (· ∈ ioAssertions) (s, t) Q E := by
  rw [uiomove, ensures_bind, ensures_uio, ensures_ite]
  refine ⟨fun _ => ?_, fun wrong => absurd ⟨some, left⟩ wrong⟩
  rw [ensures_bind, ensures_ensure]
  refine ⟨fun size => ?_, fun _ => by decide⟩
  rw [ensures_bind, ensures_ensure, none]
  exact ⟨fun fits => absurd (toNat_eq_zero.mp (Nat.le_zero.mp fits)) size, fun _ => by decide⟩

/-- The place in the block and the length add up to at most a block only because they wrap around.
-/
theorem body_overruns (negative : t.offset.toInt < 0) (reached : ¬ t.Refused) :
    (sfsIoBody 0).Ensures (· ∈ ioAssertions) (oneByte, t) Q E := by
  have limit : SFS_BLOCKSIZE.toNat = 512 := by decide
  obtain ⟨pos, low, same⟩ := toNat_neg_pos negative
  have lead := toNat_srem_of_neg negative
  have quotient := toNat_sdiv_of_neg negative
  have near : ¬ (512 ≤ (-t.offset).toNat ∧ (-t.offset).toNat % 512 ≤ t.resid.toNat) :=
    fun ⟨far, reaches⟩ => reached ⟨by omega, reaches⟩
  rw [sfsIoBody, ensures_bind, ensures_uio]
  dsimp only
  rw [ensures_ite]
  refine ⟨fun crooked => ?_, fun even => ?_⟩
  · generalize t.offset.srem SFS_BLOCKSIZE = skip at lead crooked
    generalize length : (if t.resid < SFS_BLOCKSIZE - skip then t.resid else SFS_BLOCKSIZE - skip) =
      len
    have some : skip.toNat ≠ 0 := fun none => crooked (toNat_eq_zero.mp none)
    have rest : len.toNat ≤ t.resid.toNat := by
      rw [← length]
      split
      next => exact Nat.le_refl _
      next more => exact BitVec.le_def.mp (BitVec.not_lt.mp more)
    rw [ensures_bind, sfsPartialio, ensures_bind, ensures_uio, ensures_bind, ensures_ensure]
    refine ⟨fun inside => ?_, fun _ => by decide⟩
    rw [BitVec.le_def, BitVec.toNat_add] at inside
    have first : t.offset.sdiv SFS_BLOCKSIZE = 0 := toNat_eq_zero.mp (by omega)
    rw [first, ensures_bind, ensures_onVolume]
    refine Call.ensures_iff.mpr (.inl ⟨4, oneByte, bmap_oneByte, ?_⟩)
    rw [if_neg (by decide), ensures_bind, ensures_onVolume]
    refine ensures_read (b := 4) ⟨by decide, by decide⟩ ?_ fun wrong => by cases wrong
    rw [ensures_bind]
    refine uiomove_overruns ?_ (BitVec.lt_def.mpr ?_) (BitVec.lt_def.mpr ?_)
    · dsimp only [iobufAt]
      omega
    · change 0 < len.toNat
      omega
    · change 0 < t.resid.toNat
      omega
  · have none := toNat_eq_zero.mpr (not_not.mp even)
    omega

private theorem request_overruns (negative : t.offset.toInt < 0) (reached : ¬ t.Refused) :
    (sfsRequest 0 t).Ensures (· ∈ ioAssertions) oneByte (fun _ _ => False) fun _ _ => False := by
  have finish (extraresid : CUnsigned) {t' : Transfer} (same : t'.offset = t.offset)
      (less : t'.resid ≤ t.resid) :
      ((sfsIoBody 0).attempt >>= fun result =>
          sfsIoOut 0 extraresid >>= fun _ => Call.ofExcept result).Ensures (· ∈ ioAssertions)
        (oneByte, t') (fun _ _ => False) fun _ _ => False := by
    rw [ensures_bind, Call.ensures_attempt]
    refine body_overruns (same ▸ negative) fun refused => reached ⟨same ▸ refused.far, ?_⟩
    exact Nat.le_trans (same ▸ refused.reaches) (BitVec.le_def.mp less)
  rw [sfsRequest, Call.ensures_locally, sfsIo, ensures_bind, ensures_uio, ensures_bind,
    ensures_onVolume]
  refine (ensures_svAt rfl).mpr ?_
  rw [ensures_ite]
  refine ⟨fun behind => ?_, fun inside => ?_⟩
  · have one : (1 : CUnsigned).toInt = 1 := by decide
    have wrong := BitVec.sle_iff_toInt_le.mp behind.2
    rw [one] at wrong
    omega
  rw [ensures_ite]
  refine ⟨fun cut => ?_, fun uncut => finish _ rfl (BitVec.le_refl _)⟩
  have less := sub_lt_of_between (fun behind => inside ⟨cut.1, behind⟩) cut.2
  rw [if_pos cut, ensures_bind, ensures_held less]
  refine finish _ rfl ?_
  rw [BitVec.le_def, BitVec.toNat_sub_of_le (BitVec.le_of_lt less)]
  exact Nat.sub_le _ _

/-- What a request has to keep: on a volume whose block 0 is in use no assertion of `sfs_io`,
`sfs_partialio` or `sfs_blockio` fails and the buffer is not left, and on a file in order nothing
fails at all. -/
def Transfer.Kept (t : Transfer) (p : Ptr) (s : Volume) : Prop :=
  (s.Marked 0 → (sfsRequest p t).Ensures Spared s (fun _ _ => True) fun _ _ => False) ∧
    ∀ sv, Orderly p sv s →
      (sfsRequest p t).Ensures (fun _ => False) s (fun _ _ => True) fun _ _ => False

end

end Os161.Sfs
