import Os161.Io.Uio

/-!
# The LAMEbus hard disk, `dev/lamebus/lhd.c`

The card has one buffer for a sector, which is part of the memory. A write goes into it before
the operation is started, a read comes out of it afterwards. The semaphores of the driver let
one caller at a time through; here that caller is followed.
-/
namespace Os161.Io

open Foundation Libc

def LHD_SECTSIZE : CUnsigned := 512

def LHD_WORKING : CUnsigned := 1

def LHD_OK : CUnsigned := 4

def LHD_INVSECT : CUnsigned := 12

def LHD_MEDIA : CUnsigned := 20

def LHD_ISWRITE : CUnsigned := 2

def LHD_STATEMASK : CUnsigned := 0x1d

abbrev Sector := Fin LHD_SECTSIZE.toNat → Byte

/-! ### The device -/

/-- How an operation ends. In the states `LHD_IDLE` and `LHD_WORKING` it has not. -/
inductive Completion where
  | ok
  | invsect
  | media
  deriving DecidableEq

/-- What the status register shows at the end of an operation that was started with `statval`. -/
def Completion.status (statval : CUnsigned) : Completion → CUnsigned
  | ok => LHD_OK ||| (statval &&& LHD_ISWRITE)
  | invsect => LHD_INVSECT ||| (statval &&& LHD_ISWRITE)
  | media => LHD_MEDIA ||| (statval &&& LHD_ISWRITE)

structure Disk where
  mem : Memory 32
  sectors : CUnsigned → Sector
  /-- The operations so far, the last one first: what was written to `LHD_REG_SECT` and
  `LHD_REG_STAT`. -/
  started : List (CUnsigned × CUnsigned)

/-- The parts of `struct lhd_softc` that do not change, and what the device will do. -/
structure Lhd where
  buf : Address
  blocks : CUnsigned
  /-- How the device completes its operations, by their number. -/
  completes : Nat → Completion
  room : buf.toNat + LHD_SECTSIZE.toNat ≤ 2 ^ 32

/-- `lh` is left out: it is for the message on an unknown code. -/
def lhdCodeToErrno (code : CUnsigned) : Errno :=
  if code &&& LHD_STATEMASK = LHD_OK then .success
  else if code &&& LHD_STATEMASK = LHD_INVSECT then .EINVAL
  else if code &&& LHD_STATEMASK = LHD_MEDIA then .EIo
  else .EAGAIN

/-- One operation, from the writes to the registers to `P(lh_done)`; the result is `lh_result`. -/
def Lhd.operate (lh : Lhd) (d : Disk) (sect statval : CUnsigned) : Errno × Disk :=
  let completion := lh.completes d.started.length
  let recorded := { d with started := (sect, statval) :: d.started }
  (lhdCodeToErrno (completion.status statval),
    if completion ≠ .ok then recorded
    else if statval &&& LHD_ISWRITE ≠ 0 then
      let loaded := d.mem.block lh.buf LHD_SECTSIZE.toNat
      { recorded with sectors := Function.update d.sectors sect loaded }
    else { recorded with mem := d.mem.store lh.buf (d.sectors sect) })

/-! ### The driver -/

/-- One pass of the loop of `lhd_io`. -/
def lhdSector (lh : Lhd) (cur : Curthread) (sect : CUnsigned) (uio : Uio) (d : Disk) :
    Except Fault (Errno × Uio × Disk) :=
  match uio.rw with
  | .UIO_WRITE => do
    let (result, uio, mem) ← uiomove cur d.mem lh.buf LHD_SECTSIZE uio
    if result ≠ .success then return (result, uio, { d with mem })
    let (result, d) := lh.operate { d with mem } sect (LHD_WORKING ||| LHD_ISWRITE)
    return (result, uio, d)
  | .UIO_READ => do
    let (result, d) := lh.operate d sect LHD_WORKING
    if result ≠ .success then return (result, uio, d)
    let (result, uio, mem) ← uiomove cur d.mem lh.buf LHD_SECTSIZE uio
    return (result, uio, { d with mem })

/-- The loop, with this many sectors to go from `sect` on. -/
def lhdSectors (lh : Lhd) (cur : Curthread) :
    Nat → CUnsigned → Uio → Disk → Except Fault (Errno × Uio × Disk)
  | 0, _, uio, d => .ok (.success, uio, d)
  | left + 1, sect, uio, d => do
    let (result, uio, d) ← lhdSector lh cur sect uio d
    if result ≠ .success then return (result, uio, d)
    lhdSectors lh cur left (sect + 1) uio d

def lhdIo (lh : Lhd) (cur : Curthread) (uio : Uio) (d : Disk) :
    Except Fault (Errno × Uio × Disk) :=
  -- `uio_offset` is signed, and what is computed from it is not
  let sector : CUnsigned := uio.offset.sdiv LHD_SECTSIZE
  let sectoff : CUnsigned := uio.offset.srem LHD_SECTSIZE
  let len := uio.resid / LHD_SECTSIZE
  let lenoff := uio.resid % LHD_SECTSIZE
  if sectoff ≠ 0 ∨ lenoff ≠ 0 then .ok (.EINVAL, uio, d)
  else if lh.blocks < sector + len then .ok (.EINVAL, uio, d)
  else lhdSectors lh cur len.toNat sector uio d

/-! ### Operations -/

def Completion.errno : Completion → Errno
  | ok => .success
  | invsect => .EINVAL
  | media => .EIo

theorem Completion.errno_eq_success {completion : Completion} :
    completion.errno = .success ↔ completion = .ok := by
  cases completion <;> decide

theorem lhdCodeToErrno_status (completion : Completion) (statval : CUnsigned) :
    lhdCodeToErrno (completion.status statval) = completion.errno := by
  have masked : ∀ code : CUnsigned, (code ||| (statval &&& LHD_ISWRITE)) &&& LHD_STATEMASK =
      code &&& LHD_STATEMASK := by
    intro code
    have apart : LHD_ISWRITE &&& LHD_STATEMASK = 0#32 := rfl
    rw [BitVec.and_comm, BitVec.and_or_distrib_left, BitVec.and_comm _ (_ &&& _), BitVec.and_assoc,
      apart, BitVec.and_zero, BitVec.or_zero, BitVec.and_comm]
  cases completion <;> simp only [Completion.status, lhdCodeToErrno, masked] <;> rfl

section

variable {lh : Lhd} {cur : Curthread} {d : Disk} {sect statval : CUnsigned} {uio : Uio}

theorem operate_result : (lh.operate d sect statval).1 = (lh.completes d.started.length).errno :=
  lhdCodeToErrno_status _ _

/-- An operation that fails has no effect. -/
theorem operate_failed (fails : lh.completes d.started.length ≠ .ok) :
    (lh.operate d sect statval).2 = { d with started := (sect, statval) :: d.started } :=
  if_pos fails

theorem operate_write (works : lh.completes d.started.length = .ok) :
    (lh.operate d sect (LHD_WORKING ||| LHD_ISWRITE)).2.sectors =
      Function.update d.sectors sect (d.mem.block lh.buf LHD_SECTSIZE.toNat) := by
  simp only [Lhd.operate, works]
  rfl

private theorem operate_read (works : lh.completes d.started.length = .ok) :
    (lh.operate d sect LHD_WORKING).2 =
      { d with
        mem := d.mem.store lh.buf (d.sectors sect)
        started := (sect, LHD_WORKING) :: d.started } := by
  simp only [Lhd.operate, works]
  rfl

/-- The request is for a kernel buffer, and a sector of it is left. -/
structure Uio.Ready (uio : Uio) : Prop where
  segflg : uio.segflg = .UIO_SYSSPACE
  space : uio.space = none
  len : LHD_SECTSIZE ≤ uio.len
  resid : 0 < uio.resid

/-- The card holds what is at `p`. -/
def Lhd.load (lh : Lhd) (d : Disk) (p : Address) : Disk :=
  { d with mem := memmove d.mem lh.buf p LHD_SECTSIZE }

theorem block_load {p : Address} (room : p.toNat + LHD_SECTSIZE.toNat ≤ 2 ^ 32) :
    (lh.load d p).mem.block lh.buf LHD_SECTSIZE.toNat = d.mem.block p LHD_SECTSIZE.toNat := by
  rw [Lhd.load, memmove_eq lh.room room, Memory.block_copy (by decide)]

/-- On a write, the request has moved on before the device is asked. -/
theorem lhdSector_write (ready : uio.Ready) (writes : uio.rw = .UIO_WRITE) :
    lhdSector lh cur sect uio d =
      .ok ((lh.completes d.started.length).errno, uio.advance LHD_SECTSIZE,
        (lh.operate (lh.load d uio.base) sect (LHD_WORKING ||| LHD_ISWRITE)).2) := by
  have moved : uiomove cur d.mem lh.buf LHD_SECTSIZE uio =
      .ok (.success, uio.advance LHD_SECTSIZE, (copyPiece cur d.mem lh.buf LHD_SECTSIZE uio).2) :=
    uiomove_sys ready.segflg ready.space (by decide) ready.len ready.resid
  have result : (lh.operate (lh.load d uio.base) sect (LHD_WORKING ||| LHD_ISWRITE)).1 =
      (lh.completes d.started.length).errno := operate_result
  rw [copyPiece_write ready.segflg writes] at moved
  unfold lhdSector
  rw [writes]
  simp only [moved]
  rw [← result]
  rfl

/-- A sector has been read and moved to `p`. -/
def Lhd.deliver (lh : Lhd) (d : Disk) (sect : CUnsigned) (p : Address) : Disk :=
  { d with
    mem := memmove (d.mem.store lh.buf (d.sectors sect)) p lh.buf LHD_SECTSIZE
    started := (sect, LHD_WORKING) :: d.started }

theorem block_deliver {p : Address} (room : p.toNat + LHD_SECTSIZE.toNat ≤ 2 ^ 32) :
    (lh.deliver d sect p).mem.block p LHD_SECTSIZE.toNat = d.sectors sect := by
  rw [Lhd.deliver, memmove_eq room lh.room, Memory.block_copy (by decide),
    Memory.block_store _ (by decide)]

/-- On a read, it moves on only if the device has delivered. -/
theorem lhdSector_read (ready : uio.Ready) (reads : uio.rw = .UIO_READ) :
    lhdSector lh cur sect uio d =
      if lh.completes d.started.length = .ok then
        .ok (.success, uio.advance LHD_SECTSIZE, lh.deliver d sect uio.base)
      else
        .ok ((lh.completes d.started.length).errno, uio,
          { d with started := (sect, LHD_WORKING) :: d.started }) := by
  have moved : ∀ m, uiomove cur m lh.buf LHD_SECTSIZE uio =
      .ok (.success, uio.advance LHD_SECTSIZE, (copyPiece cur m lh.buf LHD_SECTSIZE uio).2) :=
    fun m => uiomove_sys ready.segflg ready.space (by decide) ready.len ready.resid
  simp only [copyPiece_read ready.segflg reads] at moved
  unfold lhdSector
  rw [reads]
  simp only [moved, operate_result]
  by_cases works : lh.completes d.started.length = .ok
  · rw [if_pos works, if_neg (not_not.mpr (Completion.errno_eq_success.mpr works)),
      operate_read works]
    rfl
  · rw [if_neg works, if_pos (mt Completion.errno_eq_success.mp works), operate_failed works]
    rfl

/-! ### Requests for a sector -/

private theorem lhdSectors_one : lhdSectors lh cur 1 sect uio d = lhdSector lh cur sect uio d := by
  unfold lhdSectors
  cases lhdSector lh cur sect uio d with
  | error fault => rfl
  | ok done =>
    obtain ⟨result, uio', d'⟩ := done
    cases result <;> rfl

theorem lhdIo_one (whole : uio.offset.srem LHD_SECTSIZE = 0) (one : uio.resid = LHD_SECTSIZE) :
    lhdIo lh cur uio d =
      if lh.blocks < uio.offset.sdiv LHD_SECTSIZE + 1 then .ok (.EINVAL, uio, d)
      else lhdSector lh cur (uio.offset.sdiv LHD_SECTSIZE) uio d := by
  have len : LHD_SECTSIZE / LHD_SECTSIZE = 1 := by decide
  have lenoff : LHD_SECTSIZE % LHD_SECTSIZE = 0 := by decide
  simp only [lhdIo, whole, one, len, lenoff, ne_eq, not_true_eq_false, or_self, if_false]
  rw [show (1 : CUnsigned).toNat = 1 from rfl, lhdSectors_one]

/-- A request for nothing is granted. -/
theorem lhdIo_nothing (whole : uio.offset.srem LHD_SECTSIZE = 0) (none : uio.resid = 0) :
    lhdIo lh cur uio d =
      if lh.blocks < uio.offset.sdiv LHD_SECTSIZE then .ok (.EINVAL, uio, d)
      else .ok (.success, uio, d) := by
  have len : (0 : CUnsigned) / LHD_SECTSIZE = 0 := by decide
  have lenoff : (0 : CUnsigned) % LHD_SECTSIZE = 0 := by decide
  simp only [lhdIo, whole, none, len, lenoff, ne_eq, not_true_eq_false, or_self, if_false]
  rw [show (0 : CUnsigned) = 0#32 from rfl,
    BitVec.add_zero]
  rfl

/-! ### The sectors that are asked for -/

private theorem operate_started :
    (lh.operate d sect statval).2.started = (sect, statval) :: d.started := by
  unfold Lhd.operate
  dsimp only
  split
  · rfl
  · split <;> rfl

variable {result : Errno} {uio' : Uio} {d' : Disk}

/-- A pass asks for its sector, or ends the loop before that. -/
theorem lhdSector_started (done : lhdSector lh cur sect uio d = .ok (result, uio', d')) :
    (∃ statval, d'.started = (sect, statval) :: d.started) ∨
      (result ≠ .success ∧ d'.started = d.started) := by
  unfold lhdSector at done
  cases kind : uio.rw with
  | UIO_WRITE =>
    rw [kind] at done
    obtain ⟨⟨r, u, mem⟩, -, rest⟩ := bind_eq_ok done
    dsimp only at rest
    split at rest
    next fails =>
      cases rest
      exact .inr ⟨fails, rfl⟩
    next =>
      cases rest
      exact .inl ⟨_, operate_started⟩
  | UIO_READ =>
    rw [kind] at done
    dsimp only at done
    split at done
    next =>
      cases done
      exact .inl ⟨_, operate_started⟩
    next =>
      obtain ⟨⟨r, u, mem⟩, -, rest⟩ := bind_eq_ok done
      cases rest
      exact .inl ⟨_, operate_started⟩

private theorem lhdSectors_started {left : Nat} (small : sect.toNat + left < 2 ^ 32)
    (done : lhdSectors lh cur left sect uio d = .ok (result, uio', d')) :
    ∃ count ≤ left, d'.started.map (·.1.toNat) =
      (List.range' sect.toNat count).reverse ++ d.started.map (·.1.toNat) := by
  induction left generalizing sect uio d with
  | zero =>
    cases done
    exact ⟨0, Nat.le_refl _, rfl⟩
  | succ left ih =>
    obtain ⟨⟨r, u, e⟩, pass, rest⟩ := bind_eq_ok done
    dsimp only at rest
    split at rest
    next fails =>
      cases rest
      rcases lhdSector_started pass with ⟨statval, asked⟩ | ⟨-, same⟩
      · exact ⟨1, Nat.le_add_left .., by rw [asked]; rfl⟩
      · exact ⟨0, Nat.zero_le _, by rw [same]; rfl⟩
    next works =>
      rcases lhdSector_started pass with ⟨statval, asked⟩ | ⟨fails, -⟩
      · have next : (sect + 1).toNat = sect.toNat + 1 := by bv_omega
        obtain ⟨count, few, list⟩ := ih (by omega) rest
        refine ⟨count + 1, Nat.succ_le_succ few, ?_⟩
        rw [list, asked, next, List.range'_succ, List.reverse_cons, List.append_assoc]
        rfl
      · exact absurd fails works

/-- Between `d` and `d'`, sectors of the request were asked for in their order, all on the disk. -/
def Uio.Asks (uio : Uio) (lh : Lhd) (d d' : Disk) : Prop :=
  ∃ count ≤ uio.resid.toNat / 512, (∀ i < count, uio.offset.toNat / 512 + i < lh.blocks.toNat) ∧
    d'.started.map (·.1.toNat) =
      (List.range' (uio.offset.toNat / 512) count).reverse ++ d.started.map (·.1.toNat)

/-- The request asks for its own sectors; one that is negative, not aligned or ends behind the disk
asks for none and changes nothing. -/
structure Uio.Confined (uio : Uio) (lh : Lhd) (cur : Curthread) (d : Disk) : Prop where
  refused : (uio.offset.toInt < 0 ∨ uio.offset.toNat % 512 ≠ 0 ∨ uio.resid.toNat % 512 ≠ 0 ∨
      lh.blocks.toNat < uio.offset.toNat / 512 + uio.resid.toNat / 512) →
    lhdIo lh cur uio d = .ok (.EINVAL, uio, d)
  asks : ∀ r, lhdIo lh cur uio d = .ok r → uio.Asks lh d r.2.2

/-- The two tests of `lhd_io`, as it computes them. -/
def Refused (offset : CInt) (resid blocks : CUnsigned) : Prop :=
  offset.srem LHD_SECTSIZE ≠ 0 ∨ resid % LHD_SECTSIZE ≠ 0 ∨
    blocks < offset.sdiv LHD_SECTSIZE + resid / LHD_SECTSIZE

private theorem lhdIo_refused (refused : Refused uio.offset uio.resid lh.blocks) :
    lhdIo lh cur uio d = .ok (.EINVAL, uio, d) := by
  unfold lhdIo
  dsimp only
  rcases refused with crooked | crooked | beyond
  · rw [if_pos (.inl crooked)]
  · rw [if_pos (.inr crooked)]
  · rw [if_pos beyond, ite_self]

theorem lhdIo_accepted (accepted : ¬ Refused uio.offset uio.resid lh.blocks) :
    lhdIo lh cur uio d = lhdSectors lh cur (uio.resid / LHD_SECTSIZE).toNat
      (uio.offset.sdiv LHD_SECTSIZE) uio d := by
  obtain ⟨sectoff, rest⟩ := not_or.mp accepted
  obtain ⟨lenoff, inside⟩ := not_or.mp rest
  unfold lhdIo
  dsimp only
  rw [if_neg (not_or.mpr ⟨sectoff, lenoff⟩), if_neg inside]

private theorem lhdSectors_broken {left : Nat} (broken : ∀ n, lh.completes n = .media)
    (reads : uio.rw = .UIO_READ) : lhdSectors lh cur left sect uio d ≠ .ok (.EINVAL, uio, d) := by
  intro refused
  cases left with
  | zero => cases refused
  | succ left =>
    have failed : (lh.operate d sect LHD_WORKING).1 = .EIo := by rw [operate_result, broken]; rfl
    simp only [lhdSectors, lhdSector, reads, failed] at refused
    cases refused

theorem confined_refused (refused : Refused uio.offset uio.resid lh.blocks) :
    uio.Confined lh cur d := by
  refine ⟨fun _ => lhdIo_refused refused, fun r done => ?_⟩
  rw [lhdIo_refused refused] at done
  cases done
  exact ⟨0, Nat.zero_le _, fun i none => absurd none (Nat.not_lt_zero i), rfl⟩

private theorem confined_nonneg (nonneg : 0 ≤ uio.offset.toInt) : uio.Confined lh cur d := by
  by_cases refused : Refused uio.offset uio.resid lh.blocks
  · exact confined_refused refused
  have low := toNat_lt_of_nonneg nonneg
  have sector : (uio.offset.sdiv LHD_SECTSIZE).toNat = uio.offset.toNat / 512 :=
    toNat_sdiv_of_small low (by decide)
  have sectoff : (uio.offset.srem LHD_SECTSIZE).toNat = uio.offset.toNat % 512 :=
    toNat_srem_of_small low (by decide)
  have len : (uio.resid / LHD_SECTSIZE).toNat = uio.resid.toNat / 512 := BitVec.toNat_udiv
  have lenoff : (uio.resid % LHD_SECTSIZE).toNat = uio.resid.toNat % 512 := BitVec.toNat_umod
  have last : (uio.offset.sdiv LHD_SECTSIZE + uio.resid / LHD_SECTSIZE).toNat =
      uio.offset.toNat / 512 + uio.resid.toNat / 512 := by
    rw [BitVec.toNat_add, sector, len, Nat.mod_eq_of_lt (by omega)]
  obtain ⟨first, rest⟩ := not_or.mp refused
  obtain ⟨second, inside⟩ := not_or.mp rest
  rw [not_not.mp first] at sectoff
  rw [not_not.mp second] at lenoff
  have even : uio.offset.toNat % 512 = 0 ∧ uio.resid.toNat % 512 = 0 := ⟨sectoff.symm, lenoff.symm⟩
  have fits := mt BitVec.lt_def.mpr inside
  refine ⟨fun wrong => by omega, fun r done => ?_⟩
  rw [lhdIo_accepted refused, len] at done
  obtain ⟨count, few, list⟩ := lhdSectors_started (by omega) done
  rw [sector] at list
  exact ⟨count, few, fun i below => by omega, list⟩

end

/-- A disk of 8 sectors, on which every operation fails. -/
def brokenLhd : Lhd where
  buf := 0
  blocks := 8
  completes _ := .media
  room := by decide

def idleDisk : Disk := ⟨fun _ => 0, fun _ _ => 0, []⟩

def idleThread : Curthread := ⟨none, fun m _ _ _ => (.success, m), fun m _ _ _ => (.success, m)⟩

/-- Exactly the negative requests that pass both tests go wrong: one of a sector or more is carried
out on the device, an empty one is granted. -/
theorem lhdIo_sectors (offset : CInt) (resid blocks : CUnsigned) :
    (∀ (lh : Lhd) (cur : Curthread) (uio : Uio) (d : Disk), lh.blocks = blocks →
        uio.offset = offset → uio.resid = resid → uio.Confined lh cur d) ↔
      0 ≤ offset.toInt ∨ Refused offset resid blocks := by
  constructor
  · intro confined
    by_contra bad
    obtain ⟨negative, accepted⟩ := not_or.mp bad
    obtain ⟨lh, rfl, broken⟩ : ∃ lh : Lhd, lh.blocks = blocks ∧ ∀ n, lh.completes n = .media :=
      ⟨{ brokenLhd with blocks }, rfl, fun _ => rfl⟩
    obtain ⟨uio, rfl, rfl, reads⟩ :
        ∃ uio : Uio, uio.offset = offset ∧ uio.resid = resid ∧ uio.rw = .UIO_READ :=
      ⟨mkKuio 0 resid offset .UIO_READ, rfl, rfl, rfl⟩
    have refused := (confined lh idleThread uio idleDisk rfl rfl rfl).refused
      (.inl (Int.not_le.mp negative))
    rw [lhdIo_accepted accepted] at refused
    exact lhdSectors_broken broken reads refused
  · rintro (nonneg | refused) lh cur uio d rfl rfl rfl
    · exact confined_nonneg nonneg
    · exact confined_refused refused

theorem lhdIo_sectors_first :
    ∃ r, lhdIo brokenLhd idleThread (mkKuio 0 512 512 .UIO_READ) idleDisk = .ok r ∧
      (mkKuio 0 512 512 .UIO_READ).Asks brokenLhd idleDisk r.2.2 := by
  have nonneg : 0 ≤ (512 : CInt).toInt := by decide
  have done : lhdIo brokenLhd idleThread (mkKuio 0 512 512 .UIO_READ) idleDisk =
      .ok (.EIo, mkKuio 0 512 512 .UIO_READ, { idleDisk with started := [(1, 1)] }) := rfl
  exact ⟨_, done, ((lhdIo_sectors 512 512 8).mpr (.inl nonneg) brokenLhd idleThread _ idleDisk
    rfl rfl rfl).asks _ done⟩

/-- The sector in front of the disk: its number and the length add up to 0. -/
theorem lhdIo_negative :
    lhdIo brokenLhd idleThread (mkKuio 0 512 (-512) .UIO_READ) idleDisk =
      .ok (.EIo, mkKuio 0 512 (-512) .UIO_READ, { idleDisk with started := [(0xffffffff, 1)] }) :=
  rfl

end Os161.Io
