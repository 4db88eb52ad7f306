import Os161.Io.Lhd

/-!
# Blocks of the file system, `fs/sfs/sfs_io.c`

`sfs_rwblock` hands a request to the device, and again if the device reports an error. A write
that has failed once has no data left when it is handed over again, and the device grants it.
-/
namespace Os161.Sfs

open Foundation Libc Io

def SFS_BLOCKSIZE : CUnsigned := 512

abbrev DeviceIo := Uio → Disk → Except Fault (Errno × Uio × Disk)

/-- From the label `retry` on, with `10 - tries` more tries left. -/
def sfsRetry (dIo : DeviceIo) (left : Nat) (uio : Uio) (d : Disk) :
    Except Fault (Errno × Uio × Disk) := do
  let (result, uio, d) ← dIo uio d
  if result = .EINVAL then throw .panic
  if result = .EIo then
    match left with
    | 0 => return (result, uio, d)
    | left + 1 => sfsRetry dIo left uio d
  else return (result, uio, d)

def sfsRwblock (dIo : DeviceIo) : DeviceIo := sfsRetry dIo 10

/-- `SFSUIO`; an `off_t` has 32 bits. -/
def sfsuio (ptr : Address) (block : CUnsigned) (rw : UioRw) : Uio :=
  mkKuio ptr SFS_BLOCKSIZE (block * SFS_BLOCKSIZE) rw

/-- The caller sees the result; the `uio` was a local variable. -/
def answer (done : Errno × Uio × Disk) : Errno × Disk := (done.1, done.2.2)

def sfsRblock (dIo : DeviceIo) (d : Disk) (data : Address) (block : CUnsigned) :
    Except Fault (Errno × Disk) :=
  (sfsRwblock dIo (sfsuio data block .UIO_READ) d).map answer

def sfsWblock (dIo : DeviceIo) (d : Disk) (data : Address) (block : CUnsigned) :
    Except Fault (Errno × Disk) :=
  (sfsRwblock dIo (sfsuio data block .UIO_WRITE) d).map answer

/-! ### Offsets -/

/-- The sector at the offset of a block: an `off_t` has room for 23 bits of the number. -/
def sectorOf (block : CUnsigned) : CUnsigned := (block.setWidth 23).signExtend 32

theorem toInt_sectorOf (block : CUnsigned) :
    (sectorOf block).toInt = (block.toNat : Int).bmod (2 ^ 23) := by
  rw [sectorOf, BitVec.toInt_signExtend_of_le (by decide), BitVec.toInt_setWidth]

/-- Blocks of small disks are where their numbers say. -/
theorem sectorOf_eq {block : CUnsigned} (small : block.toNat < 2 ^ 22) :
    sectorOf block = block := by
  apply BitVec.eq_of_toInt_eq
  rw [toInt_sectorOf, BitVec.toInt_eq_toNat_of_lt (by omega), Int.bmod_def]
  omega

theorem toInt_offset (block : CUnsigned) :
    (block * SFS_BLOCKSIZE).toInt = 512 * (sectorOf block).toInt := by
  have size : SFS_BLOCKSIZE.toNat = 512 := rfl
  rw [toInt_sectorOf, BitVec.toInt_eq_toNat_bmod, BitVec.toNat_mul, size]
  simp only [Int.bmod_def]
  omega

theorem sdiv_offset (block : CUnsigned) :
    (block * SFS_BLOCKSIZE).sdiv LHD_SECTSIZE = sectorOf block := by
  have size : LHD_SECTSIZE.toInt = 512 := rfl
  apply BitVec.eq_of_toInt_eq
  rw [BitVec.toInt_sdiv, toInt_offset, size, Int.mul_tdiv_cancel_left _ (by decide),
    BitVec.toInt_bmod_cancel]

theorem srem_offset (block : CUnsigned) : (block * SFS_BLOCKSIZE).srem LHD_SECTSIZE = 0 := by
  have size : LHD_SECTSIZE.toInt = 512 := rfl
  apply BitVec.eq_of_toInt_eq
  rw [BitVec.toInt_srem, toInt_offset, size, Int.mul_tmod_right]
  rfl

/-! ### Retries -/

section

variable {dIo : DeviceIo} {left : Nat} {uio uio' : Uio} {d d' : Disk}

theorem sfsRetry_success (done : dIo uio d = .ok (.success, uio', d')) :
    sfsRetry dIo left uio d = .ok (.success, uio', d') := by
  rw [sfsRetry.eq_def, done]
  rfl

theorem sfsRetry_refused (refused : dIo uio d = .ok (.EINVAL, uio', d')) :
    sfsRetry dIo left uio d = .error .panic := by
  rw [sfsRetry.eq_def, refused]
  rfl

theorem sfsRetry_again (failed : dIo uio d = .ok (.EIo, uio', d')) :
    sfsRetry dIo (left + 1) uio d = sfsRetry dIo left uio' d' := by
  rw [sfsRetry.eq_def, failed]
  rfl

end

/-! ### Requests for a block -/

section

variable {lh : Lhd} {cur : Curthread} {d : Disk} {data : Address} {block : CUnsigned} {rw : UioRw}

private theorem sfsuio_offset : (sfsuio data block rw).offset = block * SFS_BLOCKSIZE := rfl

theorem sfsuio_resid : (sfsuio data block rw).resid = LHD_SECTSIZE := rfl

theorem sfsuio_ready : (sfsuio data block rw).Ready :=
  ⟨rfl, rfl, Nat.le_refl _, by rw [sfsuio_resid]; decide⟩

/-- The device looks at the sector that the offset of the block gives. -/
theorem lhdIo_sfsuio :
    lhdIo lh cur (sfsuio data block rw) d =
      if lh.blocks < sectorOf block + 1 then .ok (.EINVAL, sfsuio data block rw, d)
      else lhdSector lh cur (sectorOf block) (sfsuio data block rw) d := by
  rw [lhdIo_one (by rw [sfsuio_offset, srem_offset]) sfsuio_resid, sfsuio_offset, sdiv_offset]

/-- After a failed write it looks where the next block would be, and has nothing to do. -/
theorem lhdIo_advanced :
    lhdIo lh cur ((sfsuio data block rw).advance LHD_SECTSIZE) d =
      if lh.blocks < sectorOf (block + 1) then
        .ok (.EINVAL, (sfsuio data block rw).advance LHD_SECTSIZE, d)
      else .ok (.success, (sfsuio data block rw).advance LHD_SECTSIZE, d) := by
  have offset : ((sfsuio data block rw).advance LHD_SECTSIZE).offset =
      (block + 1) * SFS_BLOCKSIZE := by
    rw [BitVec.add_mul]
    rfl
  have resid : ((sfsuio data block rw).advance LHD_SECTSIZE).resid = 0 := by
    rw [Uio.advance, sfsuio_resid]
    rfl
  rw [lhdIo_nothing (by rw [offset, srem_offset]) resid, offset, sdiv_offset]

/-- What the first attempt to write leaves. -/
def wrote (lh : Lhd) (d : Disk) (data : Address) (block : CUnsigned) : Disk :=
  (lh.operate (lh.load d data) (sectorOf block) (LHD_WORKING ||| LHD_ISWRITE)).2

theorem lhdIo_write (cur : Curthread) (d : Disk) (data : Address)
    (inside : ¬ lh.blocks < sectorOf block + 1) :
    lhdIo lh cur (sfsuio data block .UIO_WRITE) d =
      .ok ((lh.completes d.started.length).errno,
        (sfsuio data block .UIO_WRITE).advance LHD_SECTSIZE, wrote lh d data block) := by
  rw [lhdIo_sfsuio, if_neg inside, lhdSector_write sfsuio_ready rfl]
  rfl

private theorem lhdIo_read (cur : Curthread) (d : Disk) (data : Address)
    (inside : ¬ lh.blocks < sectorOf block + 1) :
    lhdIo lh cur (sfsuio data block .UIO_READ) d =
      if lh.completes d.started.length = .ok then
        .ok (.success, (sfsuio data block .UIO_READ).advance LHD_SECTSIZE,
          lh.deliver d (sectorOf block) data)
      else
        .ok ((lh.completes d.started.length).errno, sfsuio data block .UIO_READ,
          { d with started := (sectorOf block, LHD_WORKING) :: d.started }) := by
  rw [lhdIo_sfsuio, if_neg inside, lhdSector_read sfsuio_ready rfl]
  rfl

theorem sfsRwblock_refused (outside : lh.blocks < sectorOf block + 1) :
    sfsRwblock (lhdIo lh cur) (sfsuio data block rw) d = .error .panic :=
  sfsRetry_refused (lhdIo_sfsuio.trans (if_pos outside))

/-- A write that the device completes is done. -/
theorem sfsWblock_ok (inside : ¬ lh.blocks < sectorOf block + 1)
    (works : lh.completes d.started.length = .ok) :
    sfsWblock (lhdIo lh cur) d data block = .ok (.success, wrote lh d data block) := by
  have asked := lhdIo_write cur d data inside
  rw [works] at asked
  rw [sfsWblock, sfsRwblock, sfsRetry_success asked]
  rfl

/-- One that fails is tried again without its data, and that is granted. -/
theorem sfsWblock_failed (inside : ¬ lh.blocks < sectorOf block + 1)
    (fails : lh.completes d.started.length = .media) :
    sfsWblock (lhdIo lh cur) d data block =
      if lh.blocks < sectorOf (block + 1) then .error .panic
      else .ok (.success, wrote lh d data block) := by
  have asked := lhdIo_write cur d data inside
  rw [fails] at asked
  rw [sfsWblock, sfsRwblock, sfsRetry_again asked]
  split
  next outside => rw [sfsRetry_refused (lhdIo_advanced.trans (if_pos outside))]; rfl
  next inside => rw [sfsRetry_success (lhdIo_advanced.trans (if_neg inside))]; rfl

private theorem wrote_ok (room : data.toNat + LHD_SECTSIZE.toNat ≤ 2 ^ 32)
    (works : lh.completes d.started.length = .ok) :
    (wrote lh d data block).sectors =
      Function.update d.sectors (sectorOf block) (d.mem.block data LHD_SECTSIZE.toNat) := by
  have loaded : lh.completes (lh.load d data).started.length = .ok := works
  rw [wrote, operate_write loaded, block_load room]
  rfl

private theorem wrote_failed (fails : lh.completes d.started.length = .media) :
    (wrote lh d data block).sectors = d.sectors := by
  have loaded : lh.completes (lh.load d data).started.length = .media := fails
  rw [wrote, operate_failed (by rw [loaded]; decide)]
  rfl

/-! ### What the caller gets -/

/-- The call returns; if it returns 0, then the disk and the memory are as they should be. -/
def Kept (outcome : Except Fault (Errno × Disk)) (Good : Disk → Prop) : Prop :=
  ∃ result d', outcome = .ok (result, d') ∧ (result = .success → Good d')

theorem kept_ok {result : Errno} {Good : Disk → Prop} :
    Kept (.ok (result, d)) Good ↔ (result = .success → Good d) :=
  ⟨fun ⟨_, _, same, good⟩ => by cases same; exact good, fun good => ⟨_, _, rfl, good⟩⟩

theorem not_kept_error {fault : Fault} {Good : Disk → Prop} : ¬ Kept (.error fault) Good :=
  fun ⟨_, _, same, _⟩ => nomatch same

section

variable (room : data.toNat + LHD_SECTSIZE.toNat ≤ 2 ^ 32)
  (working : ∀ n, lh.completes n ≠ .invsect)

include room working

/-- A block is written, or was on the disk before. -/
theorem write_kept_iff :
    Kept (sfsWblock (lhdIo lh cur) d data block)
        (fun d' => d'.sectors block = d.mem.block data LHD_SECTSIZE.toNat) ↔
      sectorOf block + 1 ≤ lh.blocks ∧
        ((lh.completes d.started.length = .ok ∧ sectorOf block = block) ∨
          (d.sectors block = d.mem.block data LHD_SECTSIZE.toNat ∧
            (lh.completes d.started.length = .ok ∨ sectorOf (block + 1) ≤ lh.blocks))) := by
  by_cases outside : lh.blocks < sectorOf block + 1
  · have refused : sfsWblock (lhdIo lh cur) d data block = .error .panic := by
      rw [sfsWblock, sfsRwblock_refused outside]
      rfl
    rw [refused]
    exact iff_of_false not_kept_error fun holds => absurd holds.1 (BitVec.not_le.mpr outside)
  rw [and_iff_right (BitVec.not_lt.mp outside)]
  cases completion : lh.completes d.started.length with
  | invsect => exact absurd completion (working _)
  | ok =>
    rw [sfsWblock_ok outside completion, kept_ok, wrote_ok room completion]
    by_cases right : sectorOf block = block
    · simp [right]
    · simp [right, Ne.symm right]
  | media =>
    rw [sfsWblock_failed outside completion]
    split
    next beyond =>
      refine iff_of_false not_kept_error ?_
      rintro (⟨ok, -⟩ | ⟨-, ok | fits⟩)
      · cases ok
      · cases ok
      · exact BitVec.not_le.mpr beyond fits
    next fits =>
      rw [kept_ok, wrote_failed completion]
      constructor
      · intro same
        exact .inr ⟨same rfl, .inr (BitVec.not_lt.mp fits)⟩
      · rintro (⟨ok, -⟩ | ⟨same, -⟩) -
        · cases ok
        · exact same

private theorem retry_read_kept_iff (inside : ¬ lh.blocks < sectorOf block + 1) (left : Nat)
    (d : Disk) :
    Kept ((sfsRetry (lhdIo lh cur) left (sfsuio data block .UIO_READ) d).map answer)
        (fun d' => d'.mem.block data LHD_SECTSIZE.toNat = d'.sectors block) ↔
      d.sectors (sectorOf block) = d.sectors block ∨
        ∀ n ≤ left, lh.completes (d.started.length + n) = .media := by
  have asked := lhdIo_read cur d data inside
  cases completion : lh.completes d.started.length with
  | invsect => exact absurd completion (working _)
  | ok =>
    rw [completion] at asked
    rw [sfsRetry_success asked]
    have delivered : (lh.deliver d (sectorOf block) data).mem.block data LHD_SECTSIZE.toNat =
      d.sectors (sectorOf block) := block_deliver room
    have now : ¬ ∀ n ≤ left, lh.completes (d.started.length + n) = .media := by
      intro never
      cases completion.symm.trans (never 0 (Nat.zero_le _))
    rw [or_iff_left now, ← delivered]
    exact kept_ok.trans (forall_prop_of_true rfl)
  | media =>
    rw [completion] at asked
    cases left with
    | zero =>
      rw [sfsRetry.eq_def, asked]
      refine iff_of_true (kept_ok.mpr nofun) (.inr fun n none => ?_)
      rw [Nat.le_zero.mp none]
      exact completion
    | succ left =>
      rw [sfsRetry_again asked, retry_read_kept_iff inside left]
      -- the request is as it was, and one operation more has been started
      refine or_congr Iff.rfl ⟨fun rest n bound => ?_, fun all n bound => ?_⟩
      · cases n with
        | zero => exact completion
        | succ n =>
          rw [← Nat.succ_add_eq_add_succ]
          exact rest n (Nat.le_of_succ_le_succ bound)
      · have later := all (n + 1) (Nat.succ_le_succ bound)
        rwa [← Nat.succ_add_eq_add_succ] at later

/-- A block is read, or the device fails eleven times. -/
theorem read_kept_iff :
    Kept (sfsRblock (lhdIo lh cur) d data block)
        (fun d' => d'.mem.block data LHD_SECTSIZE.toNat = d'.sectors block) ↔
      sectorOf block + 1 ≤ lh.blocks ∧
        (d.sectors (sectorOf block) = d.sectors block ∨
          ∀ n ≤ 10, lh.completes (d.started.length + n) = .media) := by
  by_cases outside : lh.blocks < sectorOf block + 1
  · have refused : sfsRblock (lhdIo lh cur) d data block = .error .panic := by
      rw [sfsRblock, sfsRwblock_refused outside]
      rfl
    rw [refused]
    exact iff_of_false not_kept_error fun holds => absurd holds.1 (BitVec.not_le.mpr outside)
  rw [sfsRblock, sfsRwblock, retry_read_kept_iff room working outside]
  exact (and_iff_right (BitVec.not_lt.mp outside)).symm

/-- When a block is written or read as it should be. -/
theorem block_kept_iff :
    (Kept (sfsWblock (lhdIo lh cur) d data block)
        (fun d' => d'.sectors block = d.mem.block data LHD_SECTSIZE.toNat) ↔
      sectorOf block + 1 ≤ lh.blocks ∧
        ((lh.completes d.started.length = .ok ∧ sectorOf block = block) ∨
          (d.sectors block = d.mem.block data LHD_SECTSIZE.toNat ∧
            (lh.completes d.started.length = .ok ∨ sectorOf (block + 1) ≤ lh.blocks)))) ∧
    (Kept (sfsRblock (lhdIo lh cur) d data block)
        (fun d' => d'.mem.block data LHD_SECTSIZE.toNat = d'.sectors block) ↔
      sectorOf block + 1 ≤ lh.blocks ∧
        (d.sectors (sectorOf block) = d.sectors block ∨
          ∀ n ≤ 10, lh.completes (d.started.length + n) = .media)) :=
  ⟨write_kept_iff room working, read_kept_iff room working⟩

end

end

/-! ### A disk -/

def kernelThread : Curthread where
  vmspace := none
  copyin := fun m _ _ _ => (.success, m)
  copyout := fun m _ _ _ => (.success, m)

/-- A disk of 5120 sectors whose first operation may fail. -/
def smallDisk (first : Completion) : Lhd where
  buf := 0xb0008000
  blocks := 5120
  completes := fun n => if n = 0 then first else .ok
  room := by decide

/-- Zeros on the disk, and ones in the memory. -/
def fresh : Disk where
  mem := fun _ => 1
  sectors := fun _ _ => 0
  started := []

theorem block_kept_iff_fifth :
    Kept (sfsWblock (lhdIo (smallDisk .ok) kernelThread) fresh 0x80100000 5)
        (fun d' => d'.sectors 5 = fresh.mem.block 0x80100000 LHD_SECTSIZE.toNat) ∧
      Kept (sfsRblock (lhdIo (smallDisk .ok) kernelThread) fresh 0x80100000 5)
        (fun d' => d'.mem.block 0x80100000 LHD_SECTSIZE.toNat = d'.sectors 5) := by
  have working : ∀ n, (smallDisk .ok).completes n ≠ .invsect := by
    intro n
    simp [smallDisk]
  obtain ⟨write, read⟩ :=
    @block_kept_iff (smallDisk .ok) kernelThread fresh 0x80100000 5 (by decide) working
  exact ⟨write.mpr ⟨by decide, .inl ⟨rfl, by decide⟩⟩, read.mpr ⟨by decide, .inl rfl⟩⟩

/-- The device fails once. The write returns 0, and the disk is as it was. -/
theorem write_lost_fifth :
    ∃ d', sfsWblock (lhdIo (smallDisk .media) kernelThread) fresh 0x80100000 5 =
        .ok (.success, d') ∧
      d'.sectors 5 ≠ fresh.mem.block 0x80100000 LHD_SECTSIZE.toNat := by
  refine ⟨wrote (smallDisk .media) fresh 0x80100000 5, ?_, ?_⟩
  · rw [sfsWblock_failed (by decide) rfl, if_neg (by decide)]
  · intro same
    have byte := congrFun same ⟨0, by decide⟩
    exact absurd byte (by decide)

end Os161.Sfs
