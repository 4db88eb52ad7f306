import Os161.Sfs.Mapping

/-!
# Reading and writing a file

What `sfs_partialio`, `sfs_blockio` and `sfs_io` do to the contents of a file and to a request.
A request that does not make sense may stop the machine; it never does harm to the blocks.
-/
namespace Os161.Sfs

open Foundation Vfs
open Call (secures_bind secures_ensure secures_held secures_ite secures_zoom)

/-- The assertions that a request can fail. -/
def odd : List Halt :=
  [.partialLength, .overrun, .uiomoveEmpty, .notAligned, .restTooLong, .extraResid, .blockResid]

/-- A request that makes sense: offsets do not wrap around, and there is room for the bytes. -/
structure Transfer.Proper (t : Transfer) : Prop where
  range : t.offset.toNat + t.resid.toNat < 2 ^ 31
  room : t.resid.toNat ≤ t.len.toNat

/-- A request has the `struct uio` beside its share of the volume. -/
abbrev serving (p : Ptr) (halts : Halt → Prop) := (sharing p halts).locally Transfer

/-- Byte `n` of the contents of a file. -/
def byteAt (contents : Nat → Block) (n : Nat) : Byte :=
  contents (n / 512) ⟨n % 512, mod_blocksize_lt n⟩

/-! ### Requests -/

namespace Transfer

variable {t : Transfer}

theorem advance_zero (t : Transfer) : t.advance 0 = t := by
  simp [advance]

theorem receive_zero (t : Transfer) (data : Nat → Byte) : t.receive 0 data = t := by
  have none : ∀ i, ¬ (t.base ≤ i ∧ i < t.base + 0) := by omega
  simp only [receive, none, if_false]

theorem advance_advance (a b : CUnsigned) (fits : a.toNat + b.toNat < 2 ^ 32) :
    (t.advance a).advance b = t.advance (a + b) := by
  have sum : (a + b).toNat = a.toNat + b.toNat := by
    rw [BitVec.toNat_add, Nat.mod_eq_of_lt fits]
  simp only [advance, mk.injEq, true_and, and_true, sum]
  refine ⟨by omega, ?_, ?_, ?_⟩ <;> bv_omega

/-- One piece after the other is one piece. -/
theorem receive_receive (t : Transfer) (k l : Nat) (f g : Nat → Byte) (a : CUnsigned)
    (here : a.toNat = k) :
    ((t.receive k f).advance a).receive l g =
      (t.receive (k + l) fun j => if j < k then f j else g (j - k)).advance a := by
  simp only [advance, receive, mk.injEq, and_true, here]
  funext i
  by_cases first : t.base ≤ i ∧ i < t.base + k
  · have all : t.base ≤ i ∧ i < t.base + (k + l) := by omega
    have small : i - t.base < k := by omega
    simp [first, all, small]
  by_cases second : t.base + k ≤ i ∧ i < t.base + k + l
  · have all : t.base ≤ i ∧ i < t.base + (k + l) := by omega
    have large : ¬ i - t.base < k := by omega
    rw [if_pos second, if_pos all, if_neg large, Nat.sub_sub]
  · have none : ¬ (t.base ≤ i ∧ i < t.base + (k + l)) := by omega
    rw [if_neg second, if_neg first, if_neg none]

theorem bad_of_reach {base n : Nat} (short : t.reach base n < n) : ∃ i, t.bad i = true := by
  induction n generalizing base with
  | zero => exact absurd short (Nat.not_lt_zero _)
  | succ n ih =>
    rw [reach] at short
    split at short
    next stuck => exact ⟨base, stuck⟩
    next => exact ih (Nat.lt_of_succ_lt_succ short)

theorem reach_le {base n : Nat} : t.reach base n ≤ n := by
  induction n generalizing base with
  | zero => exact Nat.le_refl 0
  | succ n ih =>
    rw [reach]
    split
    · exact Nat.zero_le _
    · exact Nat.succ_le_succ ih

private theorem reach_receive (t : Transfer) (k : Nat) (data : Nat → Byte) (base n : Nat) :
    (t.receive k data).reach base n = t.reach base n := by
  induction n generalizing base with
  | zero => rfl
  | succ n ih =>
    rw [reach, ih]
    rfl

/-- The size of what `uiomove` moves for `n` bytes. -/
def moved (t : Transfer) (n : CUnsigned) : CUnsigned :=
  if 0 < n ∧ 0 < t.resid then if n < t.len then n else t.len else 0

theorem moved_eq {n : CUnsigned} (room : n ≤ t.len) (rest : n ≤ t.resid) : t.moved n = n := by
  unfold moved
  split
  next => split <;> bv_omega
  next idle => bv_omega

end Transfer

/-! ### `uiomove` -/

section

variable {halts : Halt → Prop} {p : Ptr} {own : Share} {s : Volume} {t : Transfer}
  {E : Errno → Share → Volume × Transfer → Prop}

theorem secures_uio {Q : Transfer → Share → Volume × Transfer → Prop} :
    uio.Secures (serving p halts) own (s, t) Q E ↔ Q t own (s, t) := Iff.rfl

theorem secures_alterUio {f : Transfer → Transfer} {Q : Unit → Share → Volume × Transfer → Prop}
    (next : Q () own (s, f t)) :
    (alterUio f).Secures (serving p halts) own (s, t) Q E :=
  ⟨own, Keeps.refl p own s, next⟩

/-- An assertion holds of requests that fit, and may fail of others. -/
theorem secures_fits {fit q : Prop} [Decidable q] {h : Halt} {st : Volume × Transfer}
    {Q : Unit → Share → Volume × Transfer → Prop} (fits : (∀ h ∈ odd, halts h) ∨ fit)
    (listed : h ∈ odd) (holds : fit → q) (next : q → Q () own st) :
    (Call.ensure q h).Secures (serving p halts) own st Q E :=
  secures_ensure.mpr ⟨next, fun wrong => fits.elim (fun allowed => allowed h listed) fun fit =>
    absurd (holds fit) wrong⟩

variable {buf : Kbuf} {n : CUnsigned} {Q : Unit → Share → Volume × Transfer → Prop}

/-- `f` and `g` are what the copy of some bytes leaves. -/
theorem secures_uiomove {f : Nat → Volume} {g : Nat → Transfer}
    (copies : ∀ k R, R () own (f k, g k) →
      (copyBytes buf k).Secures (serving p halts) own (s, t) R E)
    (fits : (∀ h ∈ odd, halts h) ∨ (n ≤ t.len ∧ n ≤ t.resid ∧ n.toNat ≤ buf.room))
    (idle : t.moved n = 0 → Q () own (s, t))
    (next : Q () own (f (t.moved n).toNat, (g (t.moved n).toNat).advance (t.moved n)))
    (fault : ∀ k, (∃ i, t.bad i = true) → E .EFAULT own (f k, g k)) :
    (uiomove buf n).Secures (serving p halts) own (s, t) Q E := by
  rw [uiomove, secures_bind, secures_uio, secures_ite]
  refine ⟨fun busy => ?_, fun still => idle (by rw [Transfer.moved, if_neg still])⟩
  have size : t.moved n = if n < t.len then n else t.len := by rw [Transfer.moved, if_pos busy]
  have whole (fit : n ≤ t.len ∧ n ≤ t.resid ∧ n.toNat ≤ buf.room) : t.moved n = n :=
    Transfer.moved_eq fit.1 fit.2.1
  rw [← size, secures_bind]
  refine secures_fits fits (by decide) (fun fit => ?_) fun _ => ?_
  · bv_omega
  rw [secures_bind]
  refine secures_fits fits (by decide) (fun fit => (whole fit).symm ▸ fit.2.2) fun _ => ?_
  rw [secures_bind]
  apply copies
  rw [secures_ite]
  refine ⟨fun short => fault _ (Transfer.bad_of_reach short), fun reached => ?_⟩
  have all : t.reach t.base (t.moved n).toNat = (t.moved n).toNat :=
    Nat.le_antisymm Transfer.reach_le (Nat.le_of_not_lt reached)
  rw [all, secures_bind]
  apply secures_alterUio
  exact secures_fits fits (by decide) (fun fit => .inl (whole fit).symm) fun _ => next

theorem secures_uiomove_read (read : t.rw = .UIO_READ)
    (fits : (∀ h ∈ odd, halts h) ∨ (n ≤ t.len ∧ n ≤ t.resid ∧ n.toNat ≤ buf.room))
    (next : Q () own (s, (t.receive (t.moved n).toNat (buf.load s)).advance (t.moved n)))
    (fault : ∀ k, (∃ i, t.bad i = true) → E .EFAULT own (s, t.receive k (buf.load s))) :
    (uiomove buf n).Secures (serving p halts) own (s, t) Q E := by
  apply secures_uiomove (f := fun _ => s) (g := fun k => t.receive k (buf.load s)) ?_ fits ?_ next
    fault
  · intro k R holds
    rw [copyBytes, secures_bind, secures_uio]
    simp only [read]
    exact ⟨own, Keeps.refl p own s, holds⟩
  · intro none
    rw [none, Transfer.advance_zero] at next
    exact (Transfer.receive_zero t (buf.load s)) ▸ next

private theorem secures_uiomove_write (write : t.rw = .UIO_WRITE)
    (saves : ∀ k data, Keeps p own own s (buf.save k data s))
    (fits : (∀ h ∈ odd, halts h) ∨ (n ≤ t.len ∧ n ≤ t.resid ∧ n.toNat ≤ buf.room))
    (idle : t.moved n = 0 → Q () own (s, t))
    (next : Q () own (buf.save (t.moved n).toNat (fun j => t.bytes (t.base + j)) s,
      t.advance (t.moved n)))
    (fault : ∀ k, (∃ i, t.bad i = true) →
      E .EFAULT own (buf.save k (fun j => t.bytes (t.base + j)) s, t)) :
    (uiomove buf n).Secures (serving p halts) own (s, t) Q E := by
  apply secures_uiomove (f := fun k => buf.save k (fun j => t.bytes (t.base + j)) s)
    (g := fun _ => t) ?_ fits idle next fault
  intro k R holds
  rw [copyBytes, secures_bind, secures_uio]
  simp only [write]
  exact ⟨own, saves _ _, holds⟩

end

/-! ### Parts of a block -/

/-- With `ENOSPC` block `k` has not been mapped. -/
def StuckAt (T : Tree → Prop) (e : Errno) (k : Nat) (m : Tree) : Prop :=
  T m ∧ (e = .ENOSPC → m.blockAt k = 0)

theorem FileWith.stuckAt {T : Tree → Prop} {p : Ptr} {size : CUnsigned} {contents : Nat → Block}
    {own : Share} {s : Volume} (has : FileWith T p size contents own s) {e : Errno}
    (other : e ≠ .ENOSPC) (k : Nat) : FileWith (StuckAt T e k) p size contents own s :=
  has.mono fun _ placed => ⟨placed, fun same => absurd same other⟩

def WriteError (contents : Nat → Block) (t : Transfer) (k : Nat) (s : Volume) (e : Errno) : Prop :=
  (e = .ENOSPC ∧ contents k = Block.zero ∧ s.Full) ∨ (e = .EINVAL ∧ 143 ≤ k) ∨
    (e = .EFAULT ∧ ∃ i, t.bad i = true)

def ReadError (t : Transfer) (k : Nat) (e : Errno) : Prop :=
  (e = .EINVAL ∧ 143 ≤ k) ∨ (e = .EFAULT ∧ ∃ i, t.bad i = true)

section

variable {T : Tree → Prop} {halts : Halt → Prop} {p : Ptr} {own : Share} {size : CUnsigned}
  {contents : Nat → Block} {s : Volume} {t : Transfer} {skip len : CUnsigned} {k : Nat}
  {Q : Unit → Share → Volume × Transfer → Prop} {E : Errno → Share → Volume × Transfer → Prop}

/-- The assertion of `sfs_partialio` and those of `uiomove`. -/
theorem fits_iobuf
    (fits : (∀ h ∈ odd, halts h) ∨ (skip.toNat + len.toNat ≤ 512 ∧ len ≤ t.len ∧ len ≤ t.resid)) :
    (¬ skip + len ≤ SFS_BLOCKSIZE → halts .partialLength) ∧
      ((∀ h ∈ odd, halts h) ∨ (len ≤ t.len ∧ len ≤ t.resid ∧ len.toNat ≤ (iobufAt skip).room)) := by
  rcases fits with allowed | ⟨inside, room, rest⟩
  · exact ⟨fun _ => allowed _ (by decide), .inl allowed⟩
  have limit : SFS_BLOCKSIZE.toNat = 512 := by decide
  refine ⟨fun beyond => absurd ?_ beyond, .inr ⟨room, rest, ?_⟩⟩
  · rw [BitVec.le_def, BitVec.toNat_add]
    omega
  · have free : (iobufAt skip).room = 512 - skip.toNat := rfl
    omega

/-! ### Whole blocks -/

theorem secures_moveSector (fits : (∀ h ∈ odd, halts h) ∨ SFS_BLOCKSIZE ≤ t.len)
    (next : t.reach t.base 512 = 512 → Q () own (s, t.advance SFS_BLOCKSIZE))
    (fault : (∃ i, t.bad i = true) → E .EFAULT own (s, t)) :
    moveSector.Secures (serving p halts) own (s, t) Q E := by
  rw [moveSector, secures_bind, secures_uio]
  have large : SFS_BLOCKSIZE ≤ t.len →
      (if SFS_BLOCKSIZE < t.len then SFS_BLOCKSIZE else t.len) = SFS_BLOCKSIZE := by
    intro room
    split <;> bv_omega
  rw [secures_bind]
  refine secures_fits fits (by decide) (fun room => ?_) fun _ => ?_
  · rw [large room]
    decide
  rw [secures_ite]
  refine ⟨fun short => fault (Transfer.bad_of_reach short), fun whole => ?_⟩
  rw [secures_bind]
  refine secures_fits fits (by decide) large fun size => ?_
  rw [size] at whole
  exact secures_alterUio (next (Nat.le_antisymm Transfer.reach_le (Nat.le_of_not_lt whole)))

theorem FileWith.rwblock_write {block : CUnsigned} (at_k : FileAt T p size contents k block own s)
    (some : block ≠ 0) (write : t.rw = .UIO_WRITE)
    (fits : (∀ h ∈ odd, halts h) ∨ SFS_BLOCKSIZE ≤ t.len)
    (next : ∀ s', FileWith T p size (Function.update contents k fun j => t.bytes (t.base + j)) own
      s' → Q () own (s', t.advance SFS_BLOCKSIZE))
    (fault : ∀ s', FileWith T p size contents own s' → (∃ i, t.bad i = true) →
      E .EFAULT own (s', t)) :
    (rwblock block).Secures (serving p halts) own (s, t) Q E := by
  rw [rwblock, secures_bind, onVolume, secures_zoom, secures_pause]
  obtain ⟨inside, valid, -⟩ := at_k.mapped some
  obtain ⟨sector, onDevice⟩ := at_k.anywhere.sane.sector valid
  rw [secures_bind, secures_uio]
  simp only [write]
  rw [secures_bind, Call.secures_state, secures_bind, secures_held onDevice, secures_bind]
  refine secures_moveSector fits (fun _ => ?_) fun bad => fault s at_k.anywhere bad
  rw [secures_bind, onVolume, secures_zoom]
  apply secures_operate at_k.anywhere.sane valid
  rw [if_pos rfl, secures_bind, onVolume, secures_zoom, Call.secures_modify, sector]
  refine ⟨own, .setDisk inside _ _, ?_⟩
  rw [secures_bind, secures_zoom, secures_pause]
  have at_started : FileAt T p size contents k block own { s with started := s.started + 1 } :=
    at_k.congr rfl rfl rfl rfl rfl
  exact next _ (at_started.write some _)

theorem FileWith.rwblock_read {block : CUnsigned} (at_k : FileAt T p size contents k block own s)
    (some : block ≠ 0) (read : t.rw = .UIO_READ)
    (fits : (∀ h ∈ odd, halts h) ∨ SFS_BLOCKSIZE ≤ t.len)
    (next : ∀ s', FileWith T p size contents own s' →
      Q () own (s', (t.receive 512 ((contents k).drop 0)).advance SFS_BLOCKSIZE))
    (fault : ∀ s' n, FileWith T p size contents own s' → (∃ i, t.bad i = true) →
      E .EFAULT own (s', t.receive n ((contents k).drop 0))) :
    (rwblock block).Secures (serving p halts) own (s, t) Q E := by
  rw [rwblock, secures_bind, onVolume, secures_zoom, secures_pause]
  obtain ⟨inside, valid, holds⟩ := at_k.mapped some
  obtain ⟨sector, -⟩ := at_k.anywhere.sane.sector valid
  rw [secures_bind, secures_uio]
  simp only [read]
  rw [secures_bind, onVolume, secures_zoom]
  apply secures_operate at_k.anywhere.sane valid
  have has_v : FileWith T p size contents own { s with started := s.started + 1 } :=
    at_k.anywhere.congr rfl rfl rfl rfl rfl
  rw [if_neg (by decide), secures_bind, Call.secures_state, secures_bind]
  apply secures_alterUio
  simp only [sector, holds]
  rw [secures_bind]
  refine secures_moveSector fits (fun whole => ?_) fun bad => fault _ _ has_v bad
  have all : t.reach t.base 512 = 512 := (Transfer.reach_receive ..).symm.trans whole
  rw [secures_zoom, secures_pause, all]
  exact next _ has_v

/-- A piece of zeros after the other. -/
theorem secures_uiomovezeros {left : Nat} {n : CUnsigned} (read : t.rw = .UIO_READ)
    (passes : n.toNat ≤ 16 * left)
    (fits : (∀ h ∈ odd, halts h) ∨ (n ≤ t.len ∧ n ≤ t.resid))
    (next : ∀ t', t'.rw = t.rw → t'.bad = t.bad → (n ≤ t.len → n ≤ t.resid →
      t' = (t.receive n.toNat fun _ => 0).advance n) → Q () own (s, t'))
    (fault : ∀ t', t'.rw = t.rw → (∃ i, t.bad i = true) → E .EFAULT own (s, t')) :
    (uiomovezeros n left).Secures (serving p halts) own (s, t) Q E := by
  induction left generalizing n t with
  | zero =>
    have none : n = 0 := by bv_omega
    refine next t rfl rfl fun _ _ => ?_
    subst none
    rw [Transfer.advance_zero]
    exact (Transfer.receive_zero t _).symm
  | succ left ih =>
    rw [uiomovezeros, secures_ite]
    refine ⟨fun more => ?_, fun done => ?_⟩
    · have piece : ∀ amt, amt = (if 16 < n then 16 else n) → amt ≤ n ∧ amt.toNat ≤ 16 ∧
          (n - amt).toNat ≤ 16 * left := by
        rintro _ rfl
        split <;> bv_omega
      generalize amount : (if 16 < n then (16 : CUnsigned) else n) = amt
      obtain ⟨part, small, rest⟩ := piece amt amount.symm
      rw [secures_bind]
      apply secures_uiomove_read read
      · refine fits.imp id fun ⟨room, resid⟩ => ?_
        have space : zerosBuf.room = 16 := rfl
        exact ⟨by bv_omega, by bv_omega, by omega⟩
      · apply ih (t := (t.receive (t.moved amt).toNat fun _ => 0).advance (t.moved amt)) read rest
        · refine fits.imp id fun ⟨room, resid⟩ => ?_
          rw [Transfer.moved_eq (by bv_omega) (by bv_omega)]
          simp only [Transfer.advance, Transfer.receive]
          constructor <;> bv_omega
        · intro t' kind bad result
          refine next t' kind bad fun room resid => ?_
          have all : t.moved amt = amt := Transfer.moved_eq (by bv_omega) (by bv_omega)
          rw [all] at result
          have sum : amt.toNat + (n - amt).toNat = n.toNat := by bv_omega
          rw [result (by simp only [Transfer.advance, Transfer.receive]; bv_omega)
            (by simp only [Transfer.advance, Transfer.receive]; bv_omega),
            Transfer.receive_receive _ _ _ _ _ _ rfl,
            Transfer.advance_advance _ _ (by bv_omega), sum]
          simp only [ite_self]
          congr 1
          bv_omega
        · exact fun t' kind bad => fault t' kind bad
      · exact fun k bad => fault _ rfl bad
    · have none : n = 0 := by bv_omega
      refine next t rfl rfl fun _ _ => ?_
      subst none
      rw [Transfer.advance_zero]
      exact (Transfer.receive_zero t _).symm

theorem Transfer.restore_onDisk (t : Transfer) (diskoff : CInt) :
    (t.onDisk diskoff).restore t diskoff = t := by
  simp [onDisk, restore]

theorem Transfer.restore_advance (t : Transfer) (diskoff : CInt) :
    ((t.onDisk diskoff).advance SFS_BLOCKSIZE).restore t diskoff = t.advance SFS_BLOCKSIZE := by
  have offset : diskoff + SFS_BLOCKSIZE - diskoff + t.offset = t.offset + SFS_BLOCKSIZE := by
    bv_omega
  have resid : SFS_BLOCKSIZE - SFS_BLOCKSIZE - SFS_BLOCKSIZE + t.resid =
      t.resid - SFS_BLOCKSIZE := by
    bv_omega
  simp only [onDisk, restore, advance, offset, resid]

/-! ### Requests at block `k` -/

section

variable (has : FileWith T p size contents own s) (number : (t.offset.sdiv SFS_BLOCKSIZE).toNat = k)
  (grows : Grows T k) {R : CUnsigned → Share → Volume × Transfer → Prop}

include has number grows

section

variable (write : t.rw = .UIO_WRITE)
  (fails : ∀ e after s', FileWith (StuckAt T e k) p size contents after s' →
    WriteError contents t k s' e → E e after (s', t))

include write fails

theorem FileWith.bmap_write (next : ∀ block after s', k < 143 → block ≠ 0 →
      FileAt T p size contents k block after s' → R block after (s', t)) :
    (onVolume (sfsBmap p (t.offset.sdiv SFS_BLOCKSIZE) (decide (t.rw = .UIO_WRITE)))).Secures
      (serving p halts) own (s, t) R E := by
  rw [onVolume, secures_zoom]
  apply has.bmap <;> rw [number]
  · exact grows
  · exact fun _ after s' none all => fails _ _ _
      (none.mono fun _ placed => ⟨placed.1, fun _ => placed.2⟩) (.inl ⟨rfl, none.hole rfl, all⟩)
  · exact fun large => fails _ _ _ (has.stuckAt (by decide) k) (.inr (.inl ⟨rfl, large⟩))
  · exact fun block after s' small at_k alloc =>
      next block after s' small (alloc (by simp [write])) at_k

theorem FileWith.partialio_write
    (fits : (∀ h ∈ odd, halts h) ∨ (skip.toNat + len.toNat ≤ 512 ∧ len ≤ t.len ∧ len ≤ t.resid))
    (next : ∀ after s', k < 143 → FileWith T p size (Function.update contents k
        (patch (contents k) skip.toNat (t.moved len).toNat fun j => t.bytes (t.base + j)))
        after s' →
      Q () after (s', t.advance (t.moved len))) :
    (sfsPartialio p skip len).Secures (serving p halts) own (s, t) Q E := by
  obtain ⟨short, fits⟩ := fits_iobuf fits
  rw [sfsPartialio, secures_bind, secures_uio, secures_bind, secures_ensure]
  refine ⟨fun _ => ?_, short⟩
  rw [secures_bind]
  apply has.bmap_write number grows write fails
  intro block after s' small some at_k
  obtain ⟨inside, valid, holds⟩ := at_k.mapped some
  rw [if_neg some, secures_bind, onVolume, secures_zoom]
  apply secures_rblock at_k.anywhere.sane valid fun _ => .buffers ..
  rw [secures_bind]
  -- from here on, `v` is the volume with the new bytes in the buffer
  have store : ∀ v : Volume, FileAt T p size contents k block after v →
      v.iobuf = patch (contents k) skip.toNat (t.moved len).toNat
        (fun j => t.bytes (t.base + j)) →
      (onVolume (wblock (·.iobuf) block)).Secures (serving p halts) after
        (v, t.advance (t.moved len)) Q E := by
    intro v at_v patched
    rw [onVolume, secures_zoom]
    apply secures_wblock at_v.anywhere.sane (at_v.mapped some).2.1 inside
    have at_started : FileAt T p size contents k block after { v with started := v.started + 1 } :=
      at_v.congr rfl rfl rfl rfl rfl
    refine next _ _ small ?_
    rw [← patched]
    exact at_started.write some _
  apply secures_uiomove_write write (fun _ _ => .buffers ..) fits
  · intro none
    rw [if_pos write]
    have same := store { s' with started := s'.started + 1, iobuf := s'.disk block }
      (at_k.congr rfl rfl rfl rfl rfl)
    rw [none, Transfer.advance_zero] at same
    refine same (holds.trans (funext fun i => ?_))
    have outside : ¬ (skip.toNat ≤ i.val ∧ i.val < skip.toNat + (0 : CUnsigned).toNat) := by simp
    rw [patch, if_neg outside]
  · rw [if_pos write]
    exact store _ (at_k.congr rfl rfl rfl rfl rfl) (by simp [iobufAt, holds])
  · intro _ bad
    have still := at_k.anywhere.stuckAt (by decide : .EFAULT ≠ _) k
    exact fails _ _ _ (still.congr rfl rfl rfl rfl rfl) (.inr (.inr ⟨rfl, bad⟩))

theorem FileWith.blockio_write
    (fits : (∀ h ∈ odd, halts h) ∨ (SFS_BLOCKSIZE ≤ t.len ∧ SFS_BLOCKSIZE ≤ t.resid))
    (next : ∀ after s', k < 143 → FileWith T p size
        (Function.update contents k fun j => t.bytes (t.base + j)) after s' →
      Q () after (s', t.advance SFS_BLOCKSIZE)) :
    (sfsBlockio p).Secures (serving p halts) own (s, t) Q E := by
  rw [sfsBlockio, secures_bind, secures_uio, secures_bind]
  apply has.bmap_write number grows write fails
  intro block after s' small some at_k
  rw [if_neg some, secures_bind]
  refine secures_fits fits (by decide) And.right fun _ => ?_
  rw [secures_bind]
  apply secures_alterUio
  rw [secures_bind, Call.secures_attempt]
  refine at_k.rwblock_write some write (fits.imp id And.left) ?_ ?_
  · intro s'' has'
    rw [secures_bind]
    apply secures_alterUio
    rw [Transfer.restore_advance]
    exact next after s'' small has'
  intro s'' has' bad
  rw [secures_bind]
  apply secures_alterUio
  rw [Transfer.restore_onDisk]
  exact fails .EFAULT after s'' (has'.stuckAt (by decide) k) (.inr (.inr ⟨rfl, bad⟩))

end

variable (read : t.rw = .UIO_READ)
  (fails : ∀ e after s' t', FileWith T p size contents after s' → t'.rw = t.rw →
    ReadError t k e → E e after (s', t'))

include read fails

theorem FileWith.bmap_read (next : ∀ block after s', k < 143 →
      FileAt T p size contents k block after s' → R block after (s', t)) :
    (onVolume (sfsBmap p (t.offset.sdiv SFS_BLOCKSIZE) (decide (t.rw = .UIO_WRITE)))).Secures
      (serving p halts) own (s, t) R E := by
  rw [onVolume, secures_zoom]
  apply has.bmap <;> rw [number]
  · exact grows
  · simp [read]
  · exact fun large => fails _ _ _ _ has rfl (.inl ⟨rfl, large⟩)
  · exact fun block after s' small at_k _ => next block after s' small at_k

theorem FileWith.partialio_read
    (fits : (∀ h ∈ odd, halts h) ∨ (skip.toNat + len.toNat ≤ 512 ∧ len ≤ t.len ∧ len ≤ t.resid))
    (next : ∀ after s', k < 143 → FileWith T p size contents after s' →
      Q () after (s',
        (t.receive (t.moved len).toNat ((contents k).drop skip.toNat)).advance (t.moved len))) :
    (sfsPartialio p skip len).Secures (serving p halts) own (s, t) Q E := by
  obtain ⟨short, fits⟩ := fits_iobuf fits
  have other : t.rw ≠ .UIO_WRITE := by simp [read]
  rw [sfsPartialio, secures_bind, secures_uio, secures_bind, secures_ensure]
  refine ⟨fun _ => ?_, short⟩
  rw [secures_bind]
  apply has.bmap_read number grows read fails
  intro block after s' small at_k
  -- what is left when the contents are in the buffer
  have deliver : ∀ u : Volume, FileWith T p size contents after u → u.iobuf = contents k →
      (uiomove (iobufAt skip) len >>= fun _ =>
        if t.rw = .UIO_WRITE then onVolume (wblock (·.iobuf) block) else pure ()).Secures
          (serving p halts) after (u, t) Q E := by
    intro u has_u buffer
    rw [secures_bind]
    apply secures_uiomove_read read fits
    · rw [if_neg other]
      have holds := next after u small has_u
      rw [← buffer] at holds
      exact holds
    · exact fun _ bad => fails _ _ _ _ has_u rfl (.inr ⟨rfl, bad⟩)
  rw [secures_ite]
  refine ⟨fun none => ?_, fun some => ?_⟩
  · rw [secures_bind, secures_held read, secures_bind, onVolume]
    refine ⟨after, .buffers .., ?_⟩
    exact deliver _ (at_k.anywhere.congr rfl rfl rfl rfl rfl) (at_k.hole none).symm
  obtain ⟨inside, valid, holds⟩ := at_k.mapped some
  rw [secures_bind, onVolume, secures_zoom]
  apply secures_rblock at_k.anywhere.sane valid fun _ => .buffers ..
  exact deliver _ (at_k.anywhere.congr rfl rfl rfl rfl rfl) holds

theorem FileWith.blockio_read
    (fits : (∀ h ∈ odd, halts h) ∨ (SFS_BLOCKSIZE ≤ t.len ∧ SFS_BLOCKSIZE ≤ t.resid))
    (next : ∀ after s' t', k < 143 → FileWith T p size contents after s' → t'.rw = t.rw →
      t'.bad = t.bad →
      (SFS_BLOCKSIZE ≤ t.len → SFS_BLOCKSIZE ≤ t.resid →
        t' = (t.receive 512 ((contents k).drop 0)).advance SFS_BLOCKSIZE) → Q () after (s', t')) :
    (sfsBlockio p).Secures (serving p halts) own (s, t) Q E := by
  rw [sfsBlockio, secures_bind, secures_uio, secures_bind]
  apply has.bmap_read number grows read fails
  intro block after s' small at_k
  rw [secures_ite]
  refine ⟨fun none => ?_, fun some => ?_⟩
  · rw [secures_bind, secures_held read]
    have zeros : (contents k).drop 0 = fun _ => 0 := by
      rw [at_k.hole none]
      funext j
      simp [Block.drop, Block.zero]
    apply secures_uiomovezeros read (by decide) fits
    · intro t' kind bad result
      exact next after s' t' small at_k.anywhere kind bad (zeros ▸ result)
    · exact fun t' kind bad => fails _ _ _ _ at_k.anywhere kind (.inr ⟨rfl, bad⟩)
  rw [secures_bind]
  refine secures_fits fits (by decide) And.right fun _ => ?_
  rw [secures_bind]
  apply secures_alterUio
  rw [secures_bind, Call.secures_attempt]
  refine at_k.rwblock_read some read (fits.imp id And.left) ?_ ?_
  · intro s'' has'
    rw [secures_bind]
    apply secures_alterUio
    refine next after s'' _ small has' rfl rfl fun _ _ => ?_
    exact (t.receive 512 ((contents k).drop 0)).restore_advance (block * SFS_BLOCKSIZE)
  intro s'' n has' bad
  rw [secures_bind]
  apply secures_alterUio
  exact fails .EFAULT after s'' _ has' rfl (.inr ⟨rfl, bad⟩)

end

end

end Os161.Sfs
