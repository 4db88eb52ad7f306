import Os161.Sfs.Transfers

/-!
# Whole requests

A request that makes sense is served byte by byte: writing replaces the bytes at the offset of
the request by those of its region, and reading brings the bytes of the file there, up to the
end of the file. Either may stop early with an error, and then has done a part.
-/
namespace Os161.Sfs

open Foundation Vfs
open Call (secures_bind secures_ite)

/-! ### Numbers -/

theorem toNat_sdiv {x : CInt} (small : x.toNat < 2 ^ 31) :
    (x.sdiv SFS_BLOCKSIZE).toNat = x.toNat / 512 :=
  toNat_sdiv_of_small small (by decide)

theorem toNat_srem {x : CInt} (small : x.toNat < 2 ^ 31) :
    (x.srem SFS_BLOCKSIZE).toNat = x.toNat % 512 :=
  toNat_srem_of_small small (by decide)

/-- The length of the piece in front of the first whole block. -/
theorem toNat_lead {offset : CInt} (resid : CUnsigned) (small : offset.toNat < 2 ^ 31) :
    (if resid < SFS_BLOCKSIZE - offset.srem SFS_BLOCKSIZE then resid
      else SFS_BLOCKSIZE - offset.srem SFS_BLOCKSIZE).toNat =
      min resid.toNat (512 - offset.toNat % 512) := by
  have limit : SFS_BLOCKSIZE.toNat = 512 := by decide
  have start : (offset.srem SFS_BLOCKSIZE).toNat = offset.toNat % 512 := toNat_srem small
  have rest : (SFS_BLOCKSIZE - offset.srem SFS_BLOCKSIZE).toNat = 512 - offset.toNat % 512 := by
    rw [BitVec.toNat_sub_of_le (BitVec.le_def.mpr (by omega)), limit, start]
  split
  next short =>
    rw [BitVec.lt_def] at short
    omega
  next long =>
    rw [BitVec.lt_def] at long
    omega

theorem toNat_eq_zero {x : CUnsigned} : x.toNat = 0 ↔ x = 0 := by
  constructor
  · exact fun none => BitVec.eq_of_toNat_eq none
  · rintro rfl
    rfl

private theorem byteAt_update (contents : Nat → Block) (k : Nat) (data : Block) (i : Nat) :
    byteAt (Function.update contents k data) i =
      if i / 512 = k then data ⟨i % 512, Nat.mod_lt i (by decide)⟩ else byteAt contents i := by
  unfold byteAt
  by_cases here : i / 512 = k
  · rw [here, Function.update_self, if_pos rfl]
  · rw [Function.update_of_ne here, if_neg here]

/-! ### Progress -/

namespace Transfer

variable {t : Transfer}

/-- After `n` bytes of what is left. -/
theorem Proper.advance (proper : t.Proper) {n : Nat} (part : n ≤ t.resid.toNat) :
    (t.advance (BitVec.ofNat 32 n)).Proper ∧
      (t.advance (BitVec.ofNat 32 n)).offset.toNat = t.offset.toNat + n ∧
      (t.advance (BitVec.ofNat 32 n)).resid.toNat = t.resid.toNat - n ∧
      (t.advance (BitVec.ofNat 32 n)).base = t.base + n := by
  obtain ⟨range, room⟩ := proper
  have number : (BitVec.ofNat 32 n).toNat = n := by
    rw [BitVec.toNat_ofNat, Nat.mod_eq_of_lt (by omega)]
  have offset : (t.offset + BitVec.ofNat 32 n).toNat = t.offset.toNat + n := by
    rw [BitVec.toNat_add]
    omega
  have resid : (t.resid - BitVec.ofNat 32 n).toNat = t.resid.toNat - n := by
    rw [BitVec.toNat_sub]
    omega
  have len : (t.len - BitVec.ofNat 32 n).toNat = t.len.toNat - n := by
    rw [BitVec.toNat_sub]
    omega
  refine ⟨⟨?_, ?_⟩, offset, resid, ?_⟩
  · rw [Transfer.advance]
    simp only [offset, resid]
    omega
  · rw [Transfer.advance]
    simp only [len, resid]
    omega
  · rw [Transfer.advance, number]

theorem receive_congr {n : Nat} {f g : Nat → Byte} (same : ∀ j < n, f j = g j) :
    t.receive n f = t.receive n g := by
  simp only [receive, mk.injEq, and_true]
  funext i
  split
  next inside => exact same _ (by omega)
  next => rfl

end Transfer

/-- The bytes between the offsets of `t` and `t'` have been replaced. -/
def Wrote (contents : Nat → Block) (t : Transfer) (contents' : Nat → Block)
    (t' : Transfer) : Prop :=
  ∃ n ≤ t.resid.toNat, t' = t.advance (BitVec.ofNat 32 n) ∧
    ∀ i, byteAt contents' i =
      if t.offset.toNat ≤ i ∧ i < t.offset.toNat + n then t.bytes (t.base + (i - t.offset.toNat))
      else byteAt contents i

/-- The bytes between the offsets of `t` and `t'` have been brought. -/
def Brought (contents : Nat → Block) (t t' : Transfer) : Prop :=
  ∃ n ≤ t.resid.toNat,
    t' = (t.receive n fun j => byteAt contents (t.offset.toNat + j)).advance (BitVec.ofNat 32 n)

section

variable {contents contents' contents'' : Nat → Block} {t t' t'' : Transfer}

theorem Wrote.refl (contents : Nat → Block) (t : Transfer) : Wrote contents t contents t := by
  refine ⟨0, Nat.zero_le _, (t.advance_zero).symm, fun i => ?_⟩
  rw [if_neg (by omega)]

theorem Wrote.trans (proper : t.Proper) (first : Wrote contents t contents' t')
    (second : Wrote contents' t' contents'' t'') : Wrote contents t contents'' t'' := by
  obtain ⟨n, part, rfl, bytes⟩ := first
  obtain ⟨m, part', rfl, bytes'⟩ := second
  obtain ⟨-, offset, resid, base⟩ := proper.advance part
  refine ⟨n + m, by omega, ?_, fun i => ?_⟩
  · rw [Transfer.advance_advance, BitVec.ofNat_add]
    rw [BitVec.toNat_ofNat, BitVec.toNat_ofNat]
    omega
  rw [bytes', offset]
  have data : (t.advance (BitVec.ofNat 32 n)).bytes = t.bytes := rfl
  rw [data, bytes]
  by_cases later : t.offset.toNat + n ≤ i ∧ i < t.offset.toNat + n + m
  · rw [if_pos later, if_pos (by omega)]
    congr 1
    omega
  rw [if_neg later]
  by_cases early : t.offset.toNat ≤ i ∧ i < t.offset.toNat + n
  · rw [if_pos early, if_pos (by omega)]
  · rw [if_neg early, if_neg (by omega)]

theorem Wrote.part {n : Nat} (rest : n ≤ t.resid.toNat)
    (inside : t.offset.toNat % 512 + n ≤ 512) :
    Wrote contents t
      (Function.update contents (t.offset.toNat / 512)
        (patch (contents (t.offset.toNat / 512)) (t.offset.toNat % 512) n
          fun j => t.bytes (t.base + j)))
      (t.advance (BitVec.ofNat 32 n)) := by
  refine ⟨n, rest, rfl, fun i => ?_⟩
  rw [byteAt_update]
  by_cases block : i / 512 = t.offset.toNat / 512
  · rw [if_pos block, patch]
    simp only
    by_cases new : t.offset.toNat ≤ i ∧ i < t.offset.toNat + n
    · rw [if_pos (by omega), if_pos new]
      congr 2
      omega
    · rw [if_neg (by omega), if_neg new, byteAt, block]
  · rw [if_neg block, if_neg (by omega)]

theorem Wrote.block (rest : 512 ≤ t.resid.toNat) (aligned : t.offset.toNat % 512 = 0) :
    Wrote contents t
      (Function.update contents (t.offset.toNat / 512) fun j => t.bytes (t.base + j))
      (t.advance SFS_BLOCKSIZE) := by
  have part : Wrote contents t _ _ := Wrote.part rest (by omega)
  rw [aligned] at part
  have all : patch (contents (t.offset.toNat / 512)) 0 512 (fun j => t.bytes (t.base + j)) =
      fun j : Fin 512 => t.bytes (t.base + j) := by
    funext j
    rw [patch, if_pos ⟨Nat.zero_le _, by omega⟩]
    rfl
  rw [all] at part
  exact part

theorem Brought.refl (contents : Nat → Block) (t : Transfer) : Brought contents t t := by
  refine ⟨0, Nat.zero_le _, ?_⟩
  rw [Transfer.receive_zero]
  exact (t.advance_zero).symm

theorem Brought.trans (proper : t.Proper) (first : Brought contents t t')
    (second : Brought contents t' t'') : Brought contents t t'' := by
  obtain ⟨n, part, rfl⟩ := first
  obtain ⟨m, part', rfl⟩ := second
  obtain ⟨-, offset, resid, base⟩ := proper.advance part
  have number : (BitVec.ofNat 32 n).toNat = n := by
    rw [BitVec.toNat_ofNat, Nat.mod_eq_of_lt (by omega)]
  have offset' : ((t.receive n fun j => byteAt contents (t.offset.toNat + j)).advance
      (BitVec.ofNat 32 n)).offset.toNat = t.offset.toNat + n := offset
  have resid' : ((t.receive n fun j => byteAt contents (t.offset.toNat + j)).advance
      (BitVec.ofNat 32 n)).resid.toNat = t.resid.toNat - n := resid
  refine ⟨n + m, by omega, ?_⟩
  rw [Transfer.receive_receive _ _ _ _ _ _ number, Transfer.advance_advance,
    BitVec.ofNat_add]
  · congr 1
    apply Transfer.receive_congr
    intro j inside
    split
    · rfl
    · congr 1
      omega
  · rw [BitVec.toNat_ofNat, BitVec.toNat_ofNat]
    omega

theorem Brought.part {n : Nat} (rest : n ≤ t.resid.toNat)
    (inside : t.offset.toNat % 512 + n ≤ 512) :
    Brought contents t
      ((t.receive n ((contents (t.offset.toNat / 512)).drop (t.offset.toNat % 512))).advance
        (BitVec.ofNat 32 n)) := by
  refine ⟨n, rest, ?_⟩
  congr 1
  apply Transfer.receive_congr
  intro j small
  have block : (t.offset.toNat + j) / 512 = t.offset.toNat / 512 := by omega
  have place : (t.offset.toNat + j) % 512 = t.offset.toNat % 512 + j := by omega
  have fits : t.offset.toNat % 512 + j < 512 := by omega
  simp [byteAt, Block.drop, fits, block, place]

/-- One or the other, by the kind of the request. -/
def Served (contents : Nat → Block) (t : Transfer) (contents' : Nat → Block)
    (t' : Transfer) : Prop :=
  match t.rw with
  | .UIO_READ => contents' = contents ∧ Brought contents t t'
  | .UIO_WRITE => Wrote contents t contents' t'

theorem served_read (read : t.rw = .UIO_READ) :
    Served contents t contents' t' ↔ contents' = contents ∧ Brought contents t t' := by
  simp [Served, read]

theorem served_write (write : t.rw = .UIO_WRITE) :
    Served contents t contents' t' ↔ Wrote contents t contents' t' := by
  simp [Served, write]

theorem Served.refl (contents : Nat → Block) (t : Transfer) : Served contents t contents t := by
  cases kind : t.rw with
  | UIO_READ => exact (served_read kind).mpr ⟨rfl, .refl contents t⟩
  | UIO_WRITE => exact (served_write kind).mpr (.refl contents t)

theorem Served.trans (proper : t.Proper) (same : t'.rw = t.rw)
    (first : Served contents t contents' t') (second : Served contents' t' contents'' t'') :
    Served contents t contents'' t'' := by
  cases kind : t.rw with
  | UIO_READ =>
    obtain ⟨rfl, brought⟩ := (served_read kind).mp first
    obtain ⟨rfl, brought'⟩ := (served_read (same.trans kind)).mp second
    exact (served_read kind).mpr ⟨rfl, brought.trans proper brought'⟩
  | UIO_WRITE =>
    have wrote := (served_write kind).mp first
    have wrote' := (served_write (same.trans kind)).mp second
    exact (served_write kind).mpr (wrote.trans proper wrote')

/-- Block `k` is one of those that the request goes through. -/
def Transfer.Touches (t : Transfer) (k : Nat) : Prop :=
  k * 512 < t.offset.toNat + t.resid.toNat ∧ t.offset.toNat < (k + 1) * 512

/-- The places that are filled when these blocks are mapped. -/
def Transfer.Uses (t : Transfer) (r : Ref) : Prop := ∃ k, t.Touches k ∧ Tree.Uses k r

/-- The request has moved by the bytes that have been served. -/
theorem Served.moved (proper : t.Proper) (served : Served contents t contents' t') :
    t'.Proper ∧ ∃ n ≤ t.resid.toNat, t'.offset.toNat = t.offset.toNat + n ∧
      t'.resid.toNat = t.resid.toNat - n := by
  cases kind : t.rw with
  | UIO_READ =>
    obtain ⟨-, n, part, rfl⟩ := (served_read kind).mp served
    obtain ⟨still, offset, resid, -⟩ := proper.advance part
    exact ⟨⟨still.range, still.room⟩, n, part, offset, resid⟩
  | UIO_WRITE =>
    obtain ⟨n, part, rfl, -⟩ := (served_write kind).mp served
    obtain ⟨still, offset, resid, -⟩ := proper.advance part
    exact ⟨still, n, part, offset, resid⟩

theorem Served.touches (proper : t.Proper) (served : Served contents t contents' t')
    (more : t'.offset.toNat % 512 ≠ 0 ∨ 0 < t'.resid.toNat) :
    t.Touches (t'.offset.sdiv SFS_BLOCKSIZE).toNat := by
  obtain ⟨⟨range, -⟩, n, part, offset, resid⟩ := served.moved proper
  rw [toNat_sdiv (by omega)]
  constructor <;> omega

end

/-! ### The loop of `sfs_io` -/

/-- The errors of a request: a full disk, a place behind the largest file, a bad address. -/
def IoError (t : Transfer) (e : Errno) : Prop :=
  (e = .ENOSPC ∧ t.rw = .UIO_WRITE) ∨
    (e = .EINVAL ∧ (t.Proper → 143 * 512 < t.offset.toNat + t.resid.toNat)) ∨
    (e = .EFAULT ∧ ∃ i, t.bad i = true)

/-- Where a write has stopped: it comes from block to block. -/
structure StoppedAt (contents' : Nat → Block) (t : Transfer) (st : Volume × Transfer) (e : Errno) :
    Prop where
  place : st.2.offset.toNat = t.offset.toNat ∨ st.2.offset.toNat % 512 = 0
  more : st.2.offset.toNat % 512 ≠ 0 ∨ 0 < st.2.resid.toNat
  full : e = .ENOSPC → contents' (st.2.offset.toNat / 512) = Block.zero ∧ st.1.Full

/-- How far the request `t` has come. -/
structure Going (T : Tree → Prop) (p : Ptr) (size : CUnsigned) (contents : Nat → Block)
    (t : Transfer) (own : Share) (st : Volume × Transfer) : Prop where
  kind : st.2.rw = t.rw
  bad : st.2.bad = t.bad
  served : ∃ contents', FileWith T p size contents' own st.1 ∧
    (t.rw = .UIO_READ → contents' = contents) ∧ (t.Proper → Served contents t contents' st.2)

/-- Where it has stopped with an error, and with `ENOSPC` before a block that is not mapped. -/
structure Stopped (T : Tree → Prop) (p : Ptr) (size : CUnsigned) (contents : Nat → Block)
    (t : Transfer) (e : Errno) (own : Share) (st : Volume × Transfer) : Prop where
  kind : st.2.rw = t.rw
  served : ∃ contents',
    FileWith (StuckAt T e (st.2.offset.sdiv SFS_BLOCKSIZE).toNat) p size contents' own st.1 ∧
    (t.rw = .UIO_READ → contents' = contents) ∧
    (t.Proper → t.rw = .UIO_WRITE → Wrote contents t contents' st.2 ∧ StoppedAt contents' t st e)
  error : IoError t e

section

variable {T : Tree → Prop} {halts : Halt → Prop} {p : Ptr} {own : Share} {size : CUnsigned}
  {contents : Nat → Block} {s : Volume} {t t' : Transfer} {skip len : CUnsigned}

namespace Going

private theorem start (has : FileWith T p size contents own s) :
    Going T p size contents t own (s, t) :=
  ⟨rfl, rfl, contents, has, fun _ => rfl, fun _ => .refl contents t⟩

section

variable (going : Going T p size contents t own (s, t'))

include going

theorem moved (proper : t.Proper) :
    t'.Proper ∧ ∃ n ≤ t.resid.toNat, t'.offset.toNat = t.offset.toNat + n ∧
      t'.resid.toNat = t.resid.toNat - n := by
  obtain ⟨_, -, -, served⟩ := going.served
  exact (served proper).moved proper

theorem step {after : Share} {s' : Volume} {contents' contents'' : Nat → Block} {t'' : Transfer}
    (before : (t.rw = .UIO_READ → contents' = contents) ∧
      (t.Proper → Served contents t contents' t')) (has : FileWith T p size contents'' after s')
    (kind : t''.rw = t'.rw) (bad : t''.bad = t'.bad)
    (read : t.rw = .UIO_READ → contents'' = contents')
    (served : t.Proper → Served contents' t' contents'' t'') :
    Going T p size contents t after (s', t'') where
  kind := kind.trans going.kind
  bad := bad.trans going.bad
  served := ⟨contents'', has, fun isRead => (read isRead).trans (before.1 isRead),
    fun proper => (before.2 proper).trans proper going.kind (served proper)⟩

section

variable (more : t.Proper → t'.offset.toNat % 512 ≠ 0 ∨ 0 < t'.resid.toNat)

include more

theorem touches (proper : t.Proper) : t.Touches (t'.offset.sdiv SFS_BLOCKSIZE).toNat := by
  obtain ⟨_, -, -, served⟩ := going.served
  exact (served proper).touches proper (more proper)

/-- The block where a request fails is behind the largest file. -/
theorem beyond (large : 143 ≤ (t'.offset.sdiv SFS_BLOCKSIZE).toNat) (proper : t.Proper) :
    143 * 512 < t.offset.toNat + t.resid.toNat :=
  (Nat.mul_le_mul_right 512 large).trans_lt (going.touches more proper).1

variable {contents' : Nat → Block} {after : Share} {s' : Volume} {e : Errno}
  (before : (t.rw = .UIO_READ → contents' = contents) ∧
    (t.Proper → Served contents t contents' t'))

include before

/-- A step that fails does not change the file. -/
theorem stopRead {t'' : Transfer} (read : t.rw = .UIO_READ)
    (has : FileWith T p size contents' after s')
    (kind : t''.rw = t'.rw) (error : ReadError t' (t'.offset.sdiv SFS_BLOCKSIZE).toNat e) :
    Stopped T p size contents t e after (s', t'') := by
  have other : e ≠ .ENOSPC := by
    rcases error with ⟨rfl, -⟩ | ⟨rfl, -⟩ <;> decide
  refine ⟨kind.trans going.kind, ⟨contents', has.stuckAt other _, before.1, fun _ write => ?_⟩, ?_⟩
  · exact absurd (read.symm.trans write) (by decide)
  · rcases error with ⟨rfl, large⟩ | ⟨rfl, bad⟩
    · exact .inr (.inl ⟨rfl, going.beyond more large⟩)
    · exact .inr (.inr ⟨rfl, going.bad ▸ bad⟩)

theorem stopWrite (write : t.rw = .UIO_WRITE)
    (place : t.Proper → t'.offset.toNat = t.offset.toNat ∨ t'.offset.toNat % 512 = 0)
    (has : FileWith (StuckAt T e (t'.offset.sdiv SFS_BLOCKSIZE).toNat) p size contents' after s')
    (error : WriteError contents' t' (t'.offset.sdiv SFS_BLOCKSIZE).toNat s' e) :
    Stopped T p size contents t e after (s', t') := by
  refine ⟨going.kind, ⟨contents', has, before.1, fun proper _ => ⟨?_, ?_⟩⟩, ?_⟩
  · exact (served_write write).mp (before.2 proper)
  · obtain ⟨⟨range, -⟩, -⟩ := going.moved proper
    rw [toNat_sdiv (by omega)] at error
    refine ⟨place proper, more proper, ?_⟩
    rintro rfl
    rcases error with ⟨-, zero⟩ | ⟨other, -⟩ | ⟨other, -⟩
    · exact zero
    · cases other
    · cases other
  rcases error with ⟨rfl, -⟩ | ⟨rfl, large⟩ | ⟨rfl, bad⟩
  · exact .inl ⟨rfl, write⟩
  · exact .inr (.inl ⟨rfl, going.beyond more large⟩)
  · exact .inr (.inr ⟨rfl, going.bad ▸ bad⟩)

end

/-- What is known of a piece of a request that makes sense. -/
private theorem piece (proper : t.Proper) (rest : len.toNat ≤ t'.resid.toNat) :
    len ≤ t'.len ∧ len ≤ t'.resid ∧
      (t'.offset.sdiv SFS_BLOCKSIZE).toNat = t'.offset.toNat / 512 ∧
      (t'.advance len).offset.toNat = t'.offset.toNat + len.toNat ∧
      (t'.advance len).resid.toNat = t'.resid.toNat - len.toNat := by
  obtain ⟨proper', -⟩ := going.moved proper
  have room := proper'.room
  have range := proper'.range
  obtain ⟨-, offset, resid, -⟩ := proper'.advance rest
  rw [BitVec.ofNat_toNat, BitVec.setWidth_eq] at offset resid
  exact ⟨BitVec.le_def.mpr (by omega), BitVec.le_def.mpr rest, toNat_sdiv (by omega), offset, resid⟩

variable (grows : ∀ k, (t.Proper → t.Touches k) → Grows T k)
  (fits : (∀ h ∈ odd, halts h) ∨ t.Proper)

include grows fits

theorem partialio
    (shape : t.Proper → skip.toNat = t'.offset.toNat % 512 ∧ skip.toNat + len.toNat ≤ 512 ∧
      len.toNat ≤ t'.resid.toNat)
    (place : t.Proper → t'.offset.toNat = t.offset.toNat ∨ t'.offset.toNat % 512 = 0)
    (more : t.Proper → t'.offset.toNat % 512 ≠ 0 ∨ 0 < t'.resid.toNat) :
    (sfsPartialio p skip len).Secures (serving p halts) own (s, t')
      (fun _ after st => Going T p size contents t after st ∧
        (t.Proper → st.2.offset.toNat = t'.offset.toNat + len.toNat ∧
          st.2.resid.toNat = t'.resid.toNat - len.toNat))
      (Stopped T p size contents t) := by
  obtain ⟨contents', has, before⟩ := going.served
  have numbers := fun proper => going.piece proper (shape proper).2.2
  have moved (proper : t.Proper) : t'.moved len = len :=
    Transfer.moved_eq (numbers proper).1 (numbers proper).2.1
  have fits' : (∀ h ∈ odd, halts h) ∨
      (skip.toNat + len.toNat ≤ 512 ∧ len ≤ t'.len ∧ len ≤ t'.resid) := by
    refine fits.imp id fun proper => ?_
    obtain ⟨room, rest, -⟩ := numbers proper
    exact ⟨(shape proper).2.1, room, rest⟩
  have piece : BitVec.ofNat 32 len.toNat = len := by simp
  have advanced : t.Proper → (t'.advance (t'.moved len)).offset.toNat =
      t'.offset.toNat + len.toNat ∧
        (t'.advance (t'.moved len)).resid.toNat = t'.resid.toNat - len.toNat := by
    intro proper
    rw [moved proper]
    exact (numbers proper).2.2.2
  cases kind : t.rw with
  | UIO_READ =>
    apply has.partialio_read rfl (grows _ (going.touches more)) (going.kind.trans kind)
      (fun e after s' t'' has' => going.stopRead more before kind has') fits'
    · intro after s' _ has'
      refine ⟨going.step before has' rfl rfl (fun _ => rfl) fun proper => ?_, advanced⟩
      · obtain ⟨skipped, inside, rest⟩ := shape proper
        refine (served_read (going.kind.trans kind)).mpr ⟨rfl, ?_⟩
        have part : Brought contents' t' _ := Brought.part rest (skipped ▸ inside)
        rw [piece] at part
        rw [moved proper, (numbers proper).2.2.1, skipped]
        exact part
  | UIO_WRITE =>
    have write := going.kind.trans kind
    apply has.partialio_write rfl (grows _ (going.touches more)) write
      (fun e after s' has' => going.stopWrite more before kind place has') fits'
    · intro after s' _ has'
      refine ⟨going.step before has' rfl rfl ?_ fun proper => ?_, advanced⟩
      · exact fun read => absurd (kind.symm.trans read) (by decide)
      obtain ⟨skipped, inside, rest⟩ := shape proper
      refine (served_write write).mpr ?_
      have part : Wrote contents' t' _ _ := Wrote.part rest (skipped ▸ inside)
      rw [piece] at part
      rw [moved proper, (numbers proper).2.2.1, skipped]
      exact part

private theorem blockio (shape : t.Proper → t'.offset.toNat % 512 = 0 ∧ 512 ≤ t'.resid.toNat) :
    (sfsBlockio p).Secures (serving p halts) own (s, t')
      (fun _ after st => Going T p size contents t after st ∧
        (t.Proper → st.2.offset.toNat = t'.offset.toNat + 512 ∧
          st.2.resid.toNat = t'.resid.toNat - 512))
      (Stopped T p size contents t) := by
  obtain ⟨contents', has, before⟩ := going.served
  have more : t.Proper → t'.offset.toNat % 512 ≠ 0 ∨ 0 < t'.resid.toNat := fun proper =>
    .inr (by have := (shape proper).2; omega)
  have whole (proper : t.Proper) : SFS_BLOCKSIZE.toNat ≤ t'.resid.toNat := (shape proper).2
  have numbers := fun proper => going.piece proper (whole proper)
  have fits' : (∀ h ∈ odd, halts h) ∨ (SFS_BLOCKSIZE ≤ t'.len ∧ SFS_BLOCKSIZE ≤ t'.resid) :=
    fits.imp id fun proper => ⟨(numbers proper).1, (numbers proper).2.1⟩
  cases kind : t.rw with
  | UIO_READ =>
    apply has.blockio_read rfl (grows _ (going.touches more)) (going.kind.trans kind)
      (fun e after s' t'' has' => going.stopRead more before kind has') fits'
    · intro after s' t'' _ has' same bad result
      refine ⟨going.step before has' same bad (fun _ => rfl) fun proper => ?_, fun proper => ?_⟩
      · obtain ⟨aligned, rest⟩ := shape proper
        refine (served_read (going.kind.trans kind)).mpr ⟨rfl, ?_⟩
        have part : Brought contents' t' _ := Brought.part rest (by omega)
        rw [aligned, ← (numbers proper).2.2.1] at part
        rw [result (numbers proper).1 (numbers proper).2.1]
        exact part
      · rw [result (numbers proper).1 (numbers proper).2.1]
        exact (numbers proper).2.2.2
  | UIO_WRITE =>
    have write := going.kind.trans kind
    apply has.blockio_write rfl (grows _ (going.touches more)) write (fun e after s' has' =>
      going.stopWrite more before kind (fun proper => .inr (shape proper).1) has') fits'
    · intro after s' _ has'
      refine ⟨going.step before has' rfl rfl ?_ fun proper => ?_,
        fun proper => (numbers proper).2.2.2⟩
      · exact fun read => absurd (kind.symm.trans read) (by decide)
      · refine (served_write write).mpr ?_
        rw [(numbers proper).2.2.1]
        exact Wrote.block (shape proper).2 (shape proper).1

private theorem blocks (n : Nat)
    (shape : t.Proper → t'.offset.toNat % 512 = 0 ∧ 512 * n ≤ t'.resid.toNat) :
    (sfsBlocks p n).Secures (serving p halts) own (s, t')
      (fun _ after st => Going T p size contents t after st ∧
        (t.Proper → st.2.offset.toNat = t'.offset.toNat + 512 * n ∧
          st.2.resid.toNat = t'.resid.toNat - 512 * n))
      (Stopped T p size contents t) := by
  induction n generalizing own s t' with
  | zero => exact ⟨going, fun _ => ⟨rfl, rfl⟩⟩
  | succ n ih =>
    refine (going.blockio grows fits fun proper => ?_).bind ?_ fun _ _ _ => id
    · have := shape proper
      omega
    rintro _ after ⟨s', t''⟩ ⟨going', moved⟩
    dsimp only at moved
    refine (ih going' fun proper => ?_).mono ?_ fun _ _ _ => id
    · have now := shape proper
      have := moved proper
      omega
    rintro _ last st ⟨going'', moved'⟩
    refine ⟨going'', fun proper => ?_⟩
    have := moved proper
    have := moved' proper
    omega

private theorem aligned (shape : t.Proper → t'.resid.toNat = 0 ∨ t'.offset.toNat % 512 = 0) :
    (sfsIoAligned p).Secures (serving p halts) own (s, t')
      (fun _ after st => Going T p size contents t after st ∧
        (t.Proper → st.2.resid.toNat = 0))
      (Stopped T p size contents t) := by
  have limit : SFS_BLOCKSIZE.toNat = 512 := by decide
  rw [sfsIoAligned, secures_bind, secures_uio, secures_ite]
  refine ⟨fun more => ?_, fun done => ⟨going, fun _ => toNat_eq_zero.mpr (by simpa using done)⟩⟩
  have start : t.Proper → t'.offset.toNat < 2 ^ 31 ∧ t'.offset.toNat % 512 = 0 := by
    intro proper
    have range := (going.moved proper).1.range
    exact ⟨by omega, (shape proper).resolve_left fun none => more (toNat_eq_zero.mp none)⟩
  have count : (t'.resid / SFS_BLOCKSIZE).toNat = t'.resid.toNat / 512 := by
    rw [BitVec.toNat_udiv, limit]
  rw [secures_bind]
  refine secures_fits fits (by decide) (fun proper => toNat_eq_zero.mp ?_) fun _ => ?_
  · obtain ⟨range, aligned⟩ := start proper
    rw [toNat_srem range, aligned]
  refine (going.blocks grows fits _ fun proper => ?_).bind ?_ fun _ _ _ => id
  · exact ⟨(start proper).2, by omega⟩
  rintro _ after ⟨s', t''⟩ ⟨going', moved⟩
  dsimp only at moved
  rw [secures_bind, secures_uio, secures_bind]
  refine secures_fits fits (by decide) (fun proper => BitVec.lt_def.mpr ?_) fun _ => ?_
  · have := moved proper
    omega
  rw [secures_ite]
  refine ⟨fun rest => ?_, fun done => ⟨going', fun _ => ?_⟩⟩
  · refine (going'.partialio grows fits (fun proper => ?_) (fun proper => .inr ?_)
      fun proper => .inr rest).mono ?_ fun _ _ _ => id
    · have := moved proper
      have aligned := (start proper).2
      have none : (0 : CUnsigned).toNat = 0 := rfl
      omega
    · have := moved proper
      have aligned := (start proper).2
      omega
    rintro _ last st ⟨going'', moved'⟩
    refine ⟨going'', fun proper => ?_⟩
    obtain ⟨-, resid⟩ := moved' proper
    omega
  · have none : ¬ 0 < t''.resid.toNat := done
    dsimp only
    omega

end

end Going

/-- `sfs_io` up to the label `out`. -/
theorem FileWith.body (has : FileWith T p size contents own s)
    (grows : ∀ k, (t.Proper → t.Touches k) → Grows T k) (fits : (∀ h ∈ odd, halts h) ∨ t.Proper) :
    (sfsIoBody p).Secures (serving p halts) own (s, t)
      (fun _ after st => Going T p size contents t after st ∧
        (t.Proper → st.2.resid.toNat = 0))
      (Stopped T p size contents t) := by
  have going : Going T p size contents t own (s, t) := .start has
  have lead : t.Proper → (t.offset.srem SFS_BLOCKSIZE).toNat = t.offset.toNat % 512 := by
    intro proper
    have range := proper.range
    exact toNat_srem (by omega)
  rw [sfsIoBody, secures_bind, secures_uio, secures_ite]
  refine ⟨fun crooked => ?_, fun even => ?_⟩
  · dsimp only
    generalize length : (if t.resid < SFS_BLOCKSIZE - t.offset.srem SFS_BLOCKSIZE then t.resid
      else SFS_BLOCKSIZE - t.offset.srem SFS_BLOCKSIZE) = len
    have shape : t.Proper → t.offset.toNat % 512 ≠ 0 ∧
        len.toNat = min t.resid.toNat (512 - t.offset.toNat % 512) := by
      intro proper
      have range := proper.range
      refine ⟨fun aligned => crooked (toNat_eq_zero.mp ((lead proper).trans aligned)), ?_⟩
      rw [← length]
      exact toNat_lead t.resid (by omega)
    refine (going.partialio grows fits (fun proper => ?_) (fun _ => .inl rfl)
      fun proper => .inl (shape proper).1).bind ?_ fun _ _ _ => id
    · have := shape proper
      have start := lead proper
      omega
    rintro _ after ⟨s', t'⟩ ⟨going', moved⟩
    refine going'.aligned grows fits fun proper => ?_
    obtain ⟨offset, resid⟩ := moved proper
    have := shape proper
    simp only at offset resid
    omega
  · refine going.aligned grows fits fun proper => .inr ?_
    rw [← lead proper]
    exact toNat_eq_zero.mpr (by simpa using even)

/-! ### `sfs_io` -/

/-- The size of a file after a write that has come to `offset`. -/
def newSize (size : CUnsigned) (offset : CInt) : CUnsigned :=
  if size.slt offset = true then offset else size

/-- The larger of the old size and the new end. -/
theorem toNat_newSize {size : CUnsigned} {offset : CInt} (small : size.toNat < 2 ^ 31)
    (low : offset.toNat < 2 ^ 31) : (newSize size offset).toNat = max size.toNat offset.toNat := by
  rw [newSize]
  split
  next larger =>
    have := (slt_iff small low).mp larger
    omega
  next smaller =>
    have := mt (slt_iff small low).mpr smaller
    omega

section

variable {E : Errno → Share → Volume × Transfer → Prop}

theorem FileHas.svAt (has : FileHas p size contents own s)
    {Q : SfsVnode → Share → Volume × Transfer → Prop}
    (next : ∀ sv, s.heap p = some sv → sv.inode.size = size → Q sv own (s, t)) :
    (onVolume (svAt p)).Secures (serving p halts) own (s, t) Q E := by
  obtain ⟨sv, file, of_size, -⟩ := has
  rw [onVolume, Call.secures_zoom, secures_svAt file.here]
  exact next sv file.here of_size

section

variable (has : FileWith T p size contents own s)

include has

/-- From the label `out` on, after a write. -/
theorem FileWith.out_write {Q : Unit → Share → Volume × Transfer → Prop} (write : t.rw = .UIO_WRITE)
    (next : ∀ s', FileWith T p (newSize size t.offset) contents own s' → (s.Full → s'.Full) →
      Q () own (s', t)) :
    (sfsIoOut p 0).Secures (serving p halts) own (s, t) Q E := by
  have same : { t with resid := t.resid + 0 } = t := by simp
  rw [sfsIoOut, secures_bind, secures_uio, secures_bind]
  apply has.fileHas.svAt
  intro sv here of_size
  rw [secures_ite, of_size]
  refine ⟨fun longer => ?_, fun still => ?_⟩
  · obtain ⟨sv', file, -, holds, placed⟩ := has
    cases here.symm.trans file.here
    rw [secures_bind, onVolume, Call.secures_zoom]
    refine secures_alterSv { sv.inode with size := t.offset } here rfl rfl rfl ?_
    apply secures_alterUio
    rw [same]
    have size' : newSize size t.offset = t.offset := if_pos longer.2
    exact next _ ⟨{ sv with inode := { sv.inode with size := t.offset }, dirty := true },
      ⟨file.sane.congr rfl rfl rfl, Function.update_self .., file.tidy, file.blocks, file.marked,
        file.valid⟩, size'.symm, holds, placed⟩ id
  · apply secures_alterUio
    rw [same]
    have size' : newSize size t.offset = size := if_neg fun longer => still ⟨write, longer⟩
    rw [size'] at next
    exact next s has id

/-- What a write leaves, with or without an error. -/
structure Written (T : Tree → Prop) (p : Ptr) (size : CUnsigned) (contents : Nat → Block)
    (t : Transfer) (own : Share) (st : Volume × Transfer) : Prop where
  written : ∃ contents', FileWith T p (newSize size st.2.offset) contents' own st.1 ∧
    (t.Proper → Wrote contents t contents' st.2)

theorem FileWith.io_write (grows : ∀ k, (t.Proper → t.Touches k) → Grows T k)
    (write : t.rw = .UIO_WRITE) (fits : (∀ h ∈ odd, halts h) ∨ t.Proper) :
    (sfsIo p).Secures (serving p halts) own (s, t)
      (fun _ after st => Written T p size contents t after st ∧
        (t.Proper → st.2.resid.toNat = 0))
      (fun e after st => IoError t e ∧
        ∃ contents', FileWith (StuckAt T e (st.2.offset.sdiv SFS_BLOCKSIZE).toNat) p
            (newSize size st.2.offset) contents' after st.1 ∧
          (t.Proper → Wrote contents t contents' st.2 ∧ StoppedAt contents' t st e)) := by
  have other : t.rw ≠ .UIO_READ := by simp [write]
  rw [sfsIo, secures_bind, secures_uio, secures_bind]
  apply has.fileHas.svAt
  intro sv here of_size
  simp only [other, false_and, if_false]
  rw [secures_bind, Call.secures_attempt]
  refine (has.body grows fits).mono ?_ ?_
  · rintro _ after ⟨s', t'⟩ ⟨going, finished⟩
    obtain ⟨contents', has', -, served⟩ := going.served
    rw [secures_bind]
    apply has'.out_write (going.kind.trans write)
    intro s'' has'' _
    exact ⟨⟨contents', has'', fun proper => (served_write write).mp (served proper)⟩, finished⟩
  rintro e after ⟨s', t'⟩ ⟨kind, ⟨contents', has', -, wrote⟩, error⟩
  rw [secures_bind]
  apply has'.out_write (kind.trans write)
  intro s'' has'' full
  refine ⟨error, contents', has'', fun proper => ?_⟩
  obtain ⟨wrote, place, more, all⟩ := wrote proper write
  exact ⟨wrote, place, more, fun e => (all e).imp_right full⟩

end

/-- How many bytes a read brings. -/
def readable (size : CUnsigned) (t : Transfer) : Nat :=
  min t.resid.toNat (size.toNat - t.offset.toNat)

/-- The request after a read that has brought what there is up to the end of the file. -/
def Transfer.filled (t : Transfer) (size : CUnsigned) (contents : Nat → Block) : Transfer :=
  (t.receive (readable size t) fun j => byteAt contents (t.offset.toNat + j)).advance
    (BitVec.ofNat 32 (readable size t))

theorem Transfer.filled_behind (behind : size.toNat ≤ t.offset.toNat) :
    t.filled size contents = t := by
  have none : readable size t = 0 := by
    rw [readable]
    omega
  rw [filled, none, receive_zero]
  exact t.advance_zero

/-- What a read leaves. -/
def ReadDone (p : Ptr) (size : CUnsigned) (contents : Nat → Block) (t : Transfer) (own : Share)
    (st : Volume × Transfer) : Prop :=
  FileHas p size contents own st.1 ∧
    (t.Proper → size.toNat < 2 ^ 31 → st.2 = t.filled size contents)

/-- What it leaves where it fails. -/
def ReadStopped (p : Ptr) (size : CUnsigned) (contents : Nat → Block) (t : Transfer) (e : Errno)
    (own : Share) (st : Volume × Transfer) : Prop :=
  FileHas p size contents own st.1 ∧
    (e = .EINVAL ∧ (t.Proper → size.toNat < 2 ^ 31 →
        143 * 512 < size.toNat ∧ 143 * 512 < t.offset.toNat + t.resid.toNat) ∨
      e = .EFAULT ∧ ∃ i, t.bad i = true)

section

variable (has : FileHas p size contents own s)

include has

/-- From the label `out` on, after a read. -/
theorem FileHas.out_read {Q : Unit → Share → Volume × Transfer → Prop} (read : t.rw = .UIO_READ)
    (extraresid : CUnsigned) (next : Q () own (s, { t with resid := t.resid + extraresid })) :
    (sfsIoOut p extraresid).Secures (serving p halts) own (s, t)
      Q E := by
  have other : ¬ (t.rw = .UIO_WRITE) := by simp [read]
  rw [sfsIoOut, secures_bind, secures_uio, secures_bind]
  apply has.svAt
  intro sv here of_size
  rw [if_neg fun both => other both.1]
  exact secures_alterUio next

/-- The request is cut down by `extra`, to what there is. -/
theorem FileHas.read_body (read : t.rw = .UIO_READ)
    (fits : (∀ h ∈ odd, halts h) ∨ (t.Proper ∧ size.toNat < 2 ^ 31)) {t₁ : Transfer}
    {extra : CUnsigned} (cut : t₁ = { t with resid := t.resid - extra })
    (numbers : t.Proper → size.toNat < 2 ^ 31 → extra.toNat = t.resid.toNat - readable size t ∧
      t.offset.toNat + readable size t ≤ size.toNat) :
    ((sfsIoBody p).attempt >>= fun result =>
        sfsIoOut p extra >>= fun _ => Call.ofExcept result).Secures (serving p halts) own (s, t₁)
      (fun _ => ReadDone p size contents t) (ReadStopped p size contents t) := by
  subst cut
  have less : readable size t ≤ t.resid.toNat := Nat.min_le_left ..
  have rest (proper : t.Proper) (small : size.toNat < 2 ^ 31) :
      (t.resid - extra).toNat = readable size t := by
    have := numbers proper small
    rw [BitVec.toNat_sub_of_le (BitVec.le_def.mpr (by omega))]
    omega
  have proper' (proper : t.Proper) (small : size.toNat < 2 ^ 31) :
      Transfer.Proper { t with resid := t.resid - extra } := by
    have := rest proper small
    have range := proper.range
    have room := proper.room
    exact ⟨by dsimp only; omega, by dsimp only; omega⟩
  rw [secures_bind, Call.secures_attempt]
  refine (has.fileWith.body (fun _ _ => .any)
    (fits.imp id fun both => proper' both.1 both.2)).mono ?_ ?_
  · rintro _ after ⟨s', t'⟩ ⟨going, finished⟩
    obtain ⟨contents', has', same, served⟩ := going.served
    cases same read
    rw [secures_bind]
    apply has'.fileHas.out_read (going.kind.trans read)
    refine ⟨has'.fileHas, fun proper small => ?_⟩
    obtain ⟨-, n, part, moved⟩ := (served_read (by exact read)).mp (served (proper' proper small))
    obtain ⟨-, -, resid, -⟩ := (proper' proper small).advance part
    have none := finished (proper' proper small)
    subst moved
    -- nothing is left, so all of it was brought
    have all : n = readable size t := by
      rw [← rest proper small]
      exact Nat.le_antisymm part (Nat.le_of_sub_eq_zero (resid.symm.trans none))
    have back (x : CUnsigned) : t.resid - extra - x + extra = t.resid - x := by bv_omega
    simp [all, Transfer.filled, Transfer.advance, Transfer.receive, back]
  · rintro e after ⟨s', t'⟩ ⟨kind, ⟨contents', has', same, -⟩, error⟩
    cases same read
    rw [secures_bind]
    refine has'.fileHas.out_read (kind.trans read) _ ⟨has'.fileHas, ?_⟩
    rcases error with ⟨-, write⟩ | ⟨rfl, large⟩ | fault
    · exact absurd (read.symm.trans write) (by decide)
    · refine .inl ⟨rfl, fun proper small => ?_⟩
      have beyond := large (proper' proper small)
      dsimp only at beyond
      rw [rest proper small] at beyond
      have := (numbers proper small).2
      omega
    · exact .inr fault

theorem FileHas.io_read (read : t.rw = .UIO_READ)
    (fits : (∀ h ∈ odd, halts h) ∨ (t.Proper ∧ size.toNat < 2 ^ 31)) :
    (sfsIo p).Secures (serving p halts) own (s, t) (fun _ => ReadDone p size contents t)
      (ReadStopped p size contents t) := by
  rw [sfsIo, secures_bind, secures_uio, secures_bind]
  apply has.svAt
  intro sv here of_size
  simp only [read, true_and, of_size]
  have sum (proper : t.Proper) : (t.offset + t.resid).toNat = t.offset.toNat + t.resid.toNat := by
    have range := proper.range
    rw [BitVec.toNat_add, Nat.mod_eq_of_lt (by omega)]
  rw [secures_ite]
  refine ⟨fun behind => ⟨has, fun proper small => ?_⟩, fun before => ?_⟩
  · have range := proper.range
    exact (Transfer.filled_behind ((sle_iff small (by omega)).mp behind)).symm
  by_cases cut : size.slt (t.offset + t.resid) = true
  · -- the file ends in the middle of the request
    simp only [cut, if_true]
    have numbers (proper : t.Proper) (small : size.toNat < 2 ^ 31) :
        (t.offset + t.resid - size).toNat < t.resid.toNat ∧
          (t.offset + t.resid - size).toNat = t.resid.toNat - readable size t ∧
          t.offset.toNat + readable size t ≤ size.toNat := by
      have range := proper.range
      have sum := sum proper
      have first := mt (sle_iff small (by omega)).mpr before
      have second := (slt_iff small (by omega)).mp cut
      rw [BitVec.toNat_sub_of_le (BitVec.le_def.mpr (by omega)), sum, readable]
      omega
    rw [secures_bind]
    refine secures_fits fits (by decide) (fun both => BitVec.lt_def.mpr (numbers both.1 both.2).1)
      fun _ => ?_
    rw [secures_bind]
    apply secures_alterUio
    exact has.read_body read fits rfl fun proper small => (numbers proper small).2
  · simp only [cut, Bool.false_eq_true, if_false]
    refine has.read_body read fits (by simp) fun proper small => ?_
    have range := proper.range
    have sum := sum proper
    have inside := mt (slt_iff small (by omega)).mpr cut
    have none : (0 : CUnsigned).toNat = 0 := rfl
    rw [readable]
    omega

end

end

end

end Os161.Sfs
