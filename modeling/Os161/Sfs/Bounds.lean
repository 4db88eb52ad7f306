import Os161.Sfs.BlockMap

/-!
# Requests on any volume

What holds of `sfs_io` whatever the disk says and whatever the device does. The block numbers in
inodes may be wrong, operations may fail and writes may get lost; all that is asked for is that
block 0 is in use, so that `sfs_balloc` does not hand it out. The offsets and lengths are then as
`sfs_partialio` and `sfs_blockio` expect them, as long as the request starts at an offset that is
not negative.
-/
namespace Os161.Sfs

open Foundation Vfs
open Call (ensures_bind ensures_ensure ensures_held ensures_ite ensures_state)

/-- The assertions of `sfs_io`, `sfs_partialio`, `sfs_blockio` and `uiomove`, and an access outside
of the buffer. -/
def ioAssertions : List Halt := .partialHole :: .blockHole :: odd

/-- Any other reason to halt. -/
def Spared (h : Halt) : Prop := h ∉ ioAssertions

instance : DecidablePred Spared := fun h => inferInstanceAs (Decidable (h ∉ ioAssertions))

/-- Block 0 stays in use, none of the assertions fails, and a call that returns does so with `Q`. -/
def Safe {α : Type} (c : Code Volume α) (Q : α → Prop) : Prop :=
  ∀ s, s.Marked 0 → c.Ensures Spared s (fun a t => t.Marked 0 ∧ Q a) fun _ t => t.Marked 0

section

variable {α β : Type} {c d : Code Volume α} {f : α → Code Volume β} {Q Q' : α → Prop} {R : β → Prop}
  {p : Ptr} {block : CUnsigned}

namespace Safe

theorem mono (safe : Safe c Q) (weaker : ∀ a, Q a → Q' a) : Safe c Q' := fun s zero =>
  (safe s zero).mono (fun a _ holds => ⟨holds.1, weaker a holds.2⟩) fun _ _ => id

theorem bind (first : Safe c Q) (second : ∀ a, Q a → Safe (f a) R) :
    Safe (c >>= f) R := fun s zero =>
  (first s zero).bind (fun a t holds => second a holds.2 t holds.1) fun _ _ => id

theorem pure {a : α} (holds : Q a) : Safe (pure a) Q := fun _ zero => ⟨zero, holds⟩

theorem yield : Safe Call.yield fun _ => True := fun _ zero => ⟨rfl, zero, trivial⟩

theorem fail {e : Errno} : Safe (Call.fail e) Q := fun _ zero => zero

theorem ite {P : Prop} [Decidable P] (yes : P → Safe c Q) (no : ¬ P → Safe d Q) :
    Safe (if P then c else d) Q := by
  split
  next holds => exact yes holds
  next holds => exact no holds

theorem modify {g : Volume → Volume} (same : ∀ s, (g s).freemap = s.freemap) :
    Safe (Call.modify g) fun _ => True := by
  intro s zero
  refine ⟨?_, trivial⟩
  rw [Volume.Marked, same]
  exact zero

theorem svAt : Safe (svAt p) fun _ => True := by
  intro s zero
  rw [Sfs.svAt, ensures_bind, ensures_state]
  cases s.heap p with
  | none => exact (by decide : Spared .danglingVnode)
  | some sv => exact ⟨zero, trivial⟩

theorem alterSv {g : SfsVnode → SfsVnode} : Safe (alterSv p g) fun _ => True :=
  svAt.bind fun _ _ => modify fun _ => rfl

/-! ### Blocks -/

theorem operate : Safe (operate block) fun _ => True := by
  intro s zero
  rw [Sfs.operate, ensures_bind, ensures_state, ensures_bind, ensures_ensure]
  exact ⟨fun _ => ⟨zero, trivial⟩, fun _ => by decide⟩

theorem rblock {store : Block → Volume → Volume} (same : ∀ b s, (store b s).freemap = s.freemap) :
    Safe (rblock store block) fun _ => True := by
  refine yield.bind fun _ _ => operate.bind fun _ _ => ite (fun _ => ?_) fun _ => ?_
  · exact yield.bind fun _ _ => fail
  · intro s zero
    exact ((modify (same _)).bind fun _ _ => yield.bind fun _ _ => pure trivial) s zero

theorem wblock {data : Volume → Block} : Safe (wblock data block) fun _ => True := by
  refine yield.bind fun _ _ => operate.bind fun outcome _ => ?_
  have ending : Safe (Call.yield >>= fun _ =>
      if outcome = .fails then Call.fail .EIo else Pure.pure ())
      fun _ => True := yield.bind fun _ _ => ite (fun _ => fail) fun _ => pure trivial
  refine ite (fun _ => .bind (modify ?_) fun _ _ => ending) fun _ => ending
  exact fun _ => rfl

theorem balloc : Safe sfsBalloc (· ≠ 0) := by
  intro s zero
  rw [sfsBalloc, ensures_bind, ensures_state]
  cases found : s.freemap.alloc with
  | error => exact (by decide : Spared .bitmap)
  | ok result =>
    cases result with
    | none => exact zero
    | some taken =>
      obtain ⟨b, freemap⟩ := taken
      obtain ⟨clear, set⟩ := Bitmap.bit_of_alloc found
      have other : b ≠ 0 := by
        rintro rfl
        exact absurd (zero.symm.trans clear) (by decide)
      have zero' : Volume.Marked { s with freemap := freemap, freemapdirty := true } 0 := by
        rw [Volume.Marked, set, Bits.bit_setBit (n := 8) (by decide)]
        exact Bool.or_eq_true_iff.mpr (.inr zero)
      rw [ensures_bind, Call.ensures_modify, ensures_bind, ensures_ensure]
      refine ⟨fun _ => ?_, fun _ => by decide⟩
      exact (wblock.bind fun _ _ => pure (Q := (· ≠ 0)) other) _ zero'

theorem handBack : Safe (handBack block) (· = block) := by
  refine ite (fun _ => ?_) fun _ => pure rfl
  intro s zero
  rw [sfsBused, ensures_bind, ensures_bind, ensures_state, ensures_bind,
    ensures_ensure]
  refine ⟨fun _ => ?_, fun _ => by decide⟩
  rw [Call.ensures_pure, ensures_bind, ensures_ensure]
  exact ⟨fun _ => ⟨zero, rfl⟩, fun _ => by decide⟩

/-! ### Block maps -/

variable {doalloc : Bool}

private theorem bmapDirect {fileblock : Fin 15} :
    Safe (sfsBmapDirect p fileblock doalloc) fun b => doalloc = true → b ≠ 0 := by
  refine svAt.bind fun sv _ => ite (fun _ => ?_) fun some => ?_
  · refine balloc.bind fun b other => alterSv.bind fun _ _ => handBack.mono ?_
    rintro _ rfl _
    exact other
  · refine handBack.mono ?_
    rintro _ rfl asked zero
    exact some ⟨zero, asked⟩

private theorem bmapEntry {idblock : CUnsigned} {idoff : Fin 128} :
    Safe (sfsBmapEntry idblock idoff doalloc) fun b => doalloc = true → b ≠ 0 := by
  intro s zero
  refine ite (fun _ => ?_) (fun some => ?_) s zero
  · refine balloc.bind fun b other => .bind (modify ?_) fun _ _ => wblock.bind fun _ _ =>
      handBack.mono ?_
    · exact fun _ => rfl
    · rintro _ rfl _
      exact other
  · refine handBack.mono ?_
    rintro _ rfl asked zero
    exact some ⟨zero, asked⟩

private theorem bmapIndirect {idoff : Fin 128} :
    Safe (sfsBmapIndirect p idoff doalloc) fun b => doalloc = true → b ≠ 0 := by
  refine svAt.bind fun sv _ => ite (fun none => ?_) fun _ => ite (fun _ => ?_) fun _ => ?_
  · exact pure fun asked => absurd (none.2.symm.trans asked) (by decide)
  · refine balloc.bind fun _ _ => alterSv.bind fun _ _ => .bind (modify ?_) fun _ _ => bmapEntry
    exact fun _ => rfl
  · refine .bind (rblock ?_) fun _ _ => bmapEntry
    exact fun _ _ => rfl

/-- A block that `sfs_bmap` knows of is one of the 143. -/
theorem bmap {fileblock : CUnsigned} :
    Safe (sfsBmap p fileblock doalloc) fun b =>
      fileblock.toNat < 143 ∧ (doalloc = true → b ≠ 0) := by
  rw [sfsBmap]
  split
  next direct => exact bmapDirect.mono fun _ asked => ⟨by omega, asked⟩
  next large =>
    refine ite (fun _ => fail) fun small => bmapIndirect.mono fun _ asked => ⟨?_, asked⟩
    rw [idnum_pos large] at small
    exact Nat.lt_of_not_le small

end Safe

end

/-! ### Requests -/

/-- The request `t` has moved on by `n` bytes. -/
structure Moved (t : Transfer) (n : CUnsigned) (st : Volume × Transfer) : Prop where
  zero : st.1.Marked 0
  kind : st.2.rw = t.rw
  offset : st.2.offset = t.offset + n
  resid : st.2.resid = t.resid - n
  len : st.2.len = t.len - n

section

variable {α : Type} {p : Ptr} {s : Volume} {t : Transfer} {n skip len : CUnsigned}

variable {E : Errno → Volume × Transfer → Prop}

theorem ensures_onVolume {c : Code Volume α} {Q : α → Volume × Transfer → Prop} {H : Halt → Prop} :
    (onVolume c).Ensures H (s, t) Q E ↔
      c.Ensures H s (fun a s' => Q a (s', t)) (fun e s' => E e (s', t)) := Call.ensures_zoom

theorem Safe.onVolume {c : Code Volume α} {Q : α → Prop} {R : α → Volume × Transfer → Prop}
    (safe : Safe c Q) (zero : s.Marked 0) (next : ∀ a s', s'.Marked 0 → Q a → R a (s', t)) :
    (onVolume c).Ensures Spared (s, t) R fun _ st => st.1.Marked 0 := by
  rw [ensures_onVolume]
  exact (safe s zero).mono (fun a s' holds => next a s' holds.1 holds.2) fun _ _ => id

theorem ensures_uio {Q : Transfer → Volume × Transfer → Prop} {H : Halt → Prop} :
    uio.Ensures H (s, t) Q E ↔ Q t (s, t) := Iff.rfl

theorem ensures_alterUio {Q : Unit → Volume × Transfer → Prop} {H : Halt → Prop}
    {g : Transfer → Transfer} :
    (alterUio g).Ensures H (s, t) Q E ↔ Q () (s, g t) := Iff.rfl

section

variable (zero : s.Marked 0)

include zero

/-- The copy leaves the request where it is. -/
theorem copyBytes_safe {buf : Kbuf} {reached : Nat} {R : Unit → Volume × Transfer → Prop}
    (same : ∀ k data s, (buf.save k data s).freemap = s.freemap)
    (next : ∀ s' bytes, s'.Marked 0 → R () (s', { t with bytes := bytes })) :
    (copyBytes buf reached).Ensures Spared (s, t) R E := by
  rw [copyBytes, ensures_bind, ensures_uio]
  cases kind : t.rw with
  | UIO_READ => exact next s _ zero
  | UIO_WRITE =>
    refine next _ t.bytes ?_
    rw [Volume.Marked, same]
    exact zero

theorem Moved.none : Moved t 0 (s, t) :=
  ⟨zero, rfl, (BitVec.add_zero _).symm, (BitVec.sub_zero _).symm, (BitVec.sub_zero _).symm⟩

theorem uiomove_moved {buf : Kbuf} (same : ∀ k data s, (buf.save k data s).freemap = s.freemap)
    (inside : n.toNat ≤ buf.room) (room : n ≤ t.len) (rest : n ≤ t.resid) :
    (uiomove buf n).Ensures Spared (s, t) (fun _ => Moved t n) fun _ st => st.1.Marked 0 := by
  rw [uiomove, ensures_bind, ensures_uio, ensures_ite]
  refine ⟨fun some => ?_, fun none => ?_⟩
  · have size : (if n < t.len then n else t.len) = n := by
      split
      next => rfl
      next long => exact BitVec.le_antisymm (BitVec.not_lt.mp long) room
    have positive : n ≠ 0 := by
      rintro rfl
      exact absurd some.1 (by decide)
    simp only [size]
    rw [ensures_bind, ensures_held positive, ensures_bind, ensures_held inside, ensures_bind]
    apply copyBytes_safe zero same
    intro s' bytes zero'
    rw [ensures_ite]
    exact ⟨fun _ => zero', fun _ => ⟨zero', rfl, rfl, rfl, rfl⟩⟩
  have empty : n = 0 := by
    rw [BitVec.lt_def, BitVec.lt_def] at none
    rw [BitVec.le_def] at rest
    apply BitVec.eq_of_toNat_eq
    simp only [BitVec.ofNat_eq_ofNat, BitVec.toNat_ofNat, Nat.zero_mod] at none ⊢
    omega
  subst empty
  exact .none zero

/-- What `sfs_partialio` gets is a piece of a block, and what it asks `sfs_bmap` for is there. -/
theorem partialio_moved (inside : skip.toNat + len.toNat ≤ 512) (room : len ≤ t.len)
    (rest : len ≤ t.resid) :
    (sfsPartialio p skip len).Ensures Spared (s, t)
      (fun _ st => (t.offset.sdiv SFS_BLOCKSIZE).toNat < 143 ∧ Moved t len st)
      fun _ st => st.1.Marked 0 := by
  have limit : SFS_BLOCKSIZE.toNat = 512 := by decide
  -- the sum does not wrap around
  have sum : skip + len ≤ SFS_BLOCKSIZE := by
    rw [BitVec.le_def, BitVec.toNat_add]
    omega
  have buffer : len.toNat ≤ (iobufAt skip).room := by
    dsimp only [iobufAt]
    omega
  have finish (diskblock : CUnsigned) {s' : Volume} (zero' : s'.Marked 0)
      (small : (t.offset.sdiv SFS_BLOCKSIZE).toNat < 143) :
      (uiomove (iobufAt skip) len >>= fun _ =>
          if t.rw = .UIO_WRITE then onVolume (wblock (·.iobuf) diskblock)
          else pure ()).Ensures Spared
        (s', t) (fun _ st => (t.offset.sdiv SFS_BLOCKSIZE).toNat < 143 ∧ Moved t len st)
        fun _ st => st.1.Marked 0 := by
    refine (uiomove_moved zero' (fun _ _ _ => rfl) buffer room rest).bind ?_ fun _ _ => id
    rintro _ ⟨s'', t''⟩ moved
    rw [ensures_ite]
    refine ⟨fun _ => ?_, fun _ => ⟨small, moved⟩⟩
    apply Safe.wblock.onVolume moved.zero
    exact fun _ _ kept _ => ⟨small, { moved with zero := kept }⟩
  rw [sfsPartialio, ensures_bind, ensures_uio, ensures_bind, ensures_held sum, ensures_bind]
  apply Safe.bmap.onVolume zero
  rintro diskblock s' zero' ⟨small, asked⟩
  rw [ensures_ite]
  refine ⟨fun hole => ?_, fun _ => ?_⟩
  · rw [ensures_bind, ensures_ensure]
    refine ⟨fun _ => ?_, fun write => absurd hole (asked ?_)⟩
    · rw [ensures_bind]
      refine Safe.onVolume (.modify ?_) zero' fun _ _ zero'' _ => finish diskblock zero'' small
      exact fun _ => rfl
    · cases kind : t.rw with
      | UIO_READ => exact absurd kind write
      | UIO_WRITE => rfl
  · rw [ensures_bind]
    refine Safe.onVolume (.rblock ?_) zero' fun _ _ zero'' _ => finish diskblock zero'' small
    exact fun _ _ => rfl

/-- The zeros come in pieces of 16. -/
theorem uiomovezeros_moved {left : Nat} (enough : n.toNat ≤ 16 * left) (room : n ≤ t.len)
    (rest : n ≤ t.resid) : (uiomovezeros n left).Ensures Spared (s, t) (fun _ => Moved t n)
      fun _ st => st.1.Marked 0 := by
  have sixteen : (16 : CUnsigned).toNat = 16 := by decide
  induction left generalizing s t n with
  | zero =>
    have empty : n = 0 := toNat_eq_zero.mp (by omega)
    subst empty
    exact .none zero
  | succ left ih =>
    rw [uiomovezeros, ensures_ite]
    refine ⟨fun _ => ?_, fun none => ?_⟩
    · generalize piece : (if 16 < n then 16 else n) = amt
      have amt_le : amt.toNat ≤ 16 ∧ amt.toNat ≤ n.toNat ∧ (n.toNat - amt.toNat ≤ 16 * left) := by
        rw [← piece]
        split
        next long =>
          rw [BitVec.lt_def] at long
          omega
        next short =>
          rw [BitVec.lt_def] at short
          omega
      have part : amt ≤ n := BitVec.le_def.mpr amt_le.2.1
      refine (uiomove_moved zero (fun _ _ _ => rfl) amt_le.1 (BitVec.le_trans part room)
        (BitVec.le_trans part rest)).bind ?_ fun _ _ => id
      rintro _ ⟨s', t'⟩ ⟨zero', kind, offset, resid, length⟩
      have less : (n - amt).toNat = n.toNat - amt.toNat := BitVec.toNat_sub_of_le part
      have room' : n - amt ≤ t'.len := by
        have all := BitVec.le_def.mp room
        rw [length, BitVec.le_def, BitVec.toNat_sub_of_le (BitVec.le_trans part room)]
        omega
      have rest' : n - amt ≤ t'.resid := by
        have all := BitVec.le_def.mp rest
        rw [resid, BitVec.le_def, BitVec.toNat_sub_of_le (BitVec.le_trans part rest)]
        omega
      refine (ih zero' (by omega) room' rest').mono ?_ fun _ _ => id
      rintro _ st moved
      refine ⟨moved.zero, moved.kind.trans kind, ?_, ?_, ?_⟩
      · rw [moved.offset]
        bv_omega
      · rw [moved.resid]
        bv_omega
      · rw [moved.len]
        bv_omega
    · have empty : n = 0 := by
        exact toNat_eq_zero.mp (Nat.eq_zero_of_not_pos none)
      subst empty
      exact .none zero

/-! ### Whole blocks -/

theorem moveSector_moved (room : SFS_BLOCKSIZE ≤ t.len) :
    moveSector.Ensures Spared (s, t) (fun _ => Moved t SFS_BLOCKSIZE)
      fun _ st => st.1.Marked 0 := by
  have size : (if SFS_BLOCKSIZE < t.len then SFS_BLOCKSIZE else t.len) = SFS_BLOCKSIZE := by
    split
    next => rfl
    next long => exact BitVec.le_antisymm (BitVec.not_lt.mp long) room
  rw [moveSector, ensures_bind, ensures_uio]
  simp only [size]
  rw [ensures_bind, ensures_held (by decide), ensures_ite]
  exact ⟨fun _ => zero, fun _ => ⟨zero, rfl, rfl, rfl, rfl⟩⟩

private theorem rwblock_moved {diskblock : CUnsigned} (room : SFS_BLOCKSIZE ≤ t.len) :
    (rwblock diskblock).Ensures Spared (s, t) (fun _ => Moved t SFS_BLOCKSIZE)
      fun _ st => st.1.Marked 0 := by
  rw [rwblock, ensures_bind]
  apply Safe.yield.onVolume zero
  intro _ s₁ zero₁ _
  rw [ensures_bind, ensures_uio]
  cases kind : t.rw with
  | UIO_READ =>
    rw [ensures_bind]
    apply Safe.operate.onVolume zero₁
    intro outcome s₂ zero₂ _
    rw [ensures_ite]
    refine ⟨fun _ => zero₂, fun _ => ?_⟩
    refine (moveSector_moved (t := t.receive _ _) zero₂ room).bind ?_ fun _ _ => id
    rintro _ ⟨s₃, t₃⟩ ⟨zero₃, kind', offset, resid, length⟩
    apply Safe.yield.onVolume zero₃
    exact fun _ _ kept _ => ⟨kept, kind', offset, resid, length⟩
  | UIO_WRITE =>
    rw [ensures_bind, ensures_state, ensures_bind, ensures_ensure]
    refine ⟨fun _ => ?_, fun _ => by decide⟩
    refine (moveSector_moved zero₁ room).bind ?_ fun _ _ => id
    rintro _ ⟨s₂, t₂⟩ moved
    rw [ensures_bind]
    apply Safe.operate.onVolume moved.zero
    intro outcome s₃ zero₃ _
    have ending {s' : Volume} (zero' : s'.Marked 0) :
        (onVolume Call.yield >>= fun _ =>
          if outcome = .fails then Call.fail .EIo else pure ()).Ensures
          Spared (s', t₂) (fun _ => Moved t SFS_BLOCKSIZE) fun _ st => st.1.Marked 0 := by
      rw [ensures_bind]
      apply Safe.yield.onVolume zero'
      intro _ s'' zero'' _
      rw [ensures_ite]
      exact ⟨fun _ => zero'', fun _ => { moved with zero := zero'' }⟩
    rw [ensures_ite]
    refine ⟨fun _ => ?_, fun _ => ending zero₃⟩
    rw [ensures_bind]
    refine Safe.onVolume (.modify ?_) zero₃ fun _ _ zero' _ => ending zero'
    exact fun _ => rfl

theorem blockio_moved (room : SFS_BLOCKSIZE ≤ t.len) (rest : SFS_BLOCKSIZE ≤ t.resid) :
    (sfsBlockio p).Ensures Spared (s, t)
      (fun _ st => (t.offset.sdiv SFS_BLOCKSIZE).toNat < 143 ∧ Moved t SFS_BLOCKSIZE st)
      fun _ st => st.1.Marked 0 := by
  rw [sfsBlockio, ensures_bind, ensures_uio, ensures_bind]
  apply Safe.bmap.onVolume zero
  rintro diskblock s' zero' ⟨small, asked⟩
  rw [ensures_ite]
  refine ⟨fun hole => ?_, fun _ => ?_⟩
  · rw [ensures_bind, ensures_ensure]
    refine ⟨fun _ => ?_, fun write => absurd hole (asked ?_)⟩
    · exact (uiomovezeros_moved zero' (by decide) room rest).mono
        (fun _ _ moved => ⟨small, moved⟩) fun _ _ => id
    · cases kind : t.rw with
      | UIO_READ => exact absurd kind write
      | UIO_WRITE => rfl
  rw [ensures_bind, ensures_ensure]
  refine ⟨fun _ => ?_, fun short => absurd rest short⟩
  rw [ensures_bind, ensures_alterUio, ensures_bind, Call.ensures_attempt]
  refine (rwblock_moved (t := t.onDisk (diskblock * SFS_BLOCKSIZE)) zero' room).mono ?_ ?_
  · rintro _ ⟨s'', t''⟩ ⟨zero'', kind, offset, resid, length⟩
    dsimp only [Transfer.onDisk] at zero'' kind offset resid length
    refine ⟨small, zero'', kind, ?_, ?_, length⟩
    · dsimp only [Transfer.restore]
      bv_omega
    · dsimp only [Transfer.restore]
      bv_omega
  · rintro e ⟨s'', t''⟩ zero''
    exact zero''

end

/-! ### `sfs_io` -/

/-- The request `t₀` has come to `st`. -/
structure Left (t₀ : Transfer) (st : Volume × Transfer) : Prop where
  zero : st.1.Marked 0
  low : st.2.offset.toNat < 2 ^ 31
  room : st.2.resid.toNat ≤ st.2.len.toNat
  last : st.2.offset.toNat + st.2.resid.toNat = t₀.offset.toNat + t₀.resid.toNat
  /-- As soon as a piece has been done, the offset is in the largest file. -/
  near : st.2.offset.toNat ≤ 143 * 512 ∨ st.2.resid = t₀.resid

namespace Left

variable {t₀ : Transfer} (left : Left t₀ (s, t))

include left

/-- A request that has moved on in a file is nowhere near the largest offset. -/
theorem moved {st : Volume × Transfer}
    (moved : (t.offset.sdiv SFS_BLOCKSIZE).toNat < 143 ∧ Moved t n st)
    (piece : t.offset.toNat % 512 + n.toNat ≤ 512) (rest : n ≤ t.resid) :
    Left t₀ st ∧ st.2.offset.toNat = t.offset.toNat + n.toNat ∧
      st.2.resid.toNat = t.resid.toNat - n.toNat := by
  obtain ⟨small, zero, -, offset, resid, length⟩ := moved
  have low : t.offset.toNat < 2 ^ 31 := left.low
  have room : t.resid.toNat ≤ t.len.toNat := left.room
  have last : t.offset.toNat + t.resid.toNat = _ := left.last
  have part := BitVec.le_def.mp rest
  rw [toNat_sdiv low] at small
  have offset' : st.2.offset.toNat = t.offset.toNat + n.toNat := by
    rw [offset, BitVec.toNat_add]
    omega
  have resid' : st.2.resid.toNat = t.resid.toNat - n.toNat := by
    rw [resid, BitVec.toNat_sub_of_le rest]
  have length' : st.2.len.toNat = t.len.toNat - n.toNat := by
    rw [length, BitVec.toNat_sub_of_le (BitVec.le_def.mpr (part.trans room))]
  exact ⟨⟨zero, by omega, by omega, by omega, .inl (by omega)⟩, offset', resid'⟩

private theorem blocks {k : Nat} (rest : 512 * k ≤ t.resid.toNat)
    (aligned : t.offset.toNat % 512 = 0) :
    (sfsBlocks p k).Ensures Spared (s, t) (fun _ st => Left t₀ st ∧
      st.2.resid.toNat = t.resid.toNat - 512 * k ∧ st.2.offset.toNat % 512 = 0)
      fun _ st => st.1.Marked 0 := by
  have limit : SFS_BLOCKSIZE.toNat = 512 := by decide
  induction k generalizing s t with
  | zero => exact ⟨left, rfl, aligned⟩
  | succ k ih =>
    have room : t.resid.toNat ≤ t.len.toNat := left.room
    have rest' : SFS_BLOCKSIZE ≤ t.resid := BitVec.le_def.mpr (by omega)
    refine (blockio_moved left.zero (BitVec.le_def.mpr (by omega)) rest').bind ?_ fun _ _ => id
    rintro _ ⟨s', t'⟩ moved
    obtain ⟨left', offset, resid⟩ := left.moved moved (by omega) rest'
    dsimp only at offset resid
    refine (ih left' (by omega) (by omega)).mono ?_ fun _ _ => id
    rintro _ st ⟨left'', resid', aligned'⟩
    exact ⟨left'', by omega, aligned'⟩

private theorem aligned (aligned : t.resid.toNat = 0 ∨ t.offset.toNat % 512 = 0) :
    (sfsIoAligned p).Ensures Spared (s, t) (fun _ st => Left t₀ st ∧ st.2.resid.toNat = 0)
      fun _ st => st.1.Marked 0 := by
  have limit : SFS_BLOCKSIZE.toNat = 512 := by decide
  have count : (t.resid / SFS_BLOCKSIZE).toNat = t.resid.toNat / 512 := by
    rw [BitVec.toNat_udiv, limit]
  rw [sfsIoAligned, ensures_bind, ensures_uio, ensures_ite]
  refine ⟨fun some => ?_, fun none => ⟨left, toNat_eq_zero.mpr (not_not.mp none)⟩⟩
  have even := aligned.resolve_left fun none => some (toNat_eq_zero.mp none)
  have whole : t.offset.srem SFS_BLOCKSIZE = 0 :=
    toNat_eq_zero.mp ((toNat_srem left.low).trans even)
  rw [ensures_bind, ensures_held whole]
  refine (left.blocks (by omega) even).bind ?_ fun _ _ => id
  rintro _ ⟨s', t'⟩ ⟨left', resid, even'⟩
  dsimp only at resid even'
  have short : t'.resid < SFS_BLOCKSIZE := BitVec.lt_def.mpr (by omega)
  rw [ensures_bind, ensures_uio, ensures_bind, ensures_held short, ensures_ite]
  refine ⟨fun _ => ?_, fun none => ⟨left', ?_⟩⟩
  · have none : (0 : CUnsigned).toNat = 0 := rfl
    have room : t'.resid ≤ t'.len := BitVec.le_def.mpr left'.room
    refine (partialio_moved left'.zero (by omega) room (BitVec.le_refl _)).mono ?_ fun _ _ => id
    rintro _ st moved
    obtain ⟨left'', -, done⟩ := left'.moved moved (by omega) (BitVec.le_refl _)
    exact ⟨left'', by omega⟩
  · exact Nat.eq_zero_of_not_pos fun some => none (BitVec.lt_def.mpr some)

end Left

/-- All pieces are inside the largest file, or the request fails. -/
theorem body_safe (zero : s.Marked 0) (low : t.offset.toNat < 2 ^ 31)
    (room : t.resid.toNat ≤ t.len.toNat) :
    (sfsIoBody p).Ensures Spared (s, t) (fun _ st => st.1.Marked 0 ∧
      (0 < t.resid.toNat → t.offset.toNat + t.resid.toNat ≤ 143 * 512))
      fun _ st => st.1.Marked 0 := by
  have left : Left t (s, t) := ⟨zero, low, room, rfl, .inr rfl⟩
  have lead : (t.offset.srem SFS_BLOCKSIZE).toNat = t.offset.toNat % 512 := toNat_srem low
  -- what is left at the end
  have done : ∀ (_ : Unit) (st : Volume × Transfer), Left t st ∧ st.2.resid.toNat = 0 →
      st.1.Marked 0 ∧ (0 < t.resid.toNat → t.offset.toNat + t.resid.toNat ≤ 143 * 512) := by
    rintro _ st ⟨left', none⟩
    refine ⟨left'.zero, fun some => ?_⟩
    have last := left'.last
    rcases left'.near with near | same
    · omega
    · rw [same] at none
      omega
  rw [sfsIoBody, ensures_bind, ensures_uio]
  dsimp only
  rw [ensures_ite]
  refine ⟨fun crooked => ?_, fun even => ?_⟩
  · have lead' : t.offset.toNat % 512 ≠ 0 := fun none =>
      crooked (toNat_eq_zero.mp (lead.trans none))
    generalize length : (if t.resid < SFS_BLOCKSIZE - t.offset.srem SFS_BLOCKSIZE then t.resid
      else SFS_BLOCKSIZE - t.offset.srem SFS_BLOCKSIZE) = len
    have len_eq : len.toNat = min t.resid.toNat (512 - t.offset.toNat % 512) := by
      rw [← length]
      exact toNat_lead t.resid low
    have rest : len ≤ t.resid := BitVec.le_def.mpr (by omega)
    refine (partialio_moved zero (by omega) (BitVec.le_def.mpr (by omega)) rest).bind ?_
      fun _ _ => id
    rintro _ ⟨s', t'⟩ moved
    obtain ⟨left', offset, resid⟩ := left.moved moved (by omega) rest
    dsimp only at offset resid
    exact (left'.aligned (by omega)).mono done fun _ _ => id
  · refine (left.aligned (.inr ?_)).mono done fun _ _ => id
    rw [← lead]
    exact toNat_eq_zero.mpr (not_not.mp even)

theorem out_safe (zero : s.Marked 0) (extraresid : CUnsigned) :
    (sfsIoOut p extraresid).Ensures Spared (s, t) (fun _ st => st.1.Marked 0)
      fun _ st => st.1.Marked 0 := by
  rw [sfsIoOut, ensures_bind, ensures_uio, ensures_bind]
  apply Safe.svAt.onVolume zero
  intro sv s' zero' _
  rw [ensures_ite]
  refine ⟨fun _ => ?_, fun _ => zero'⟩
  rw [ensures_bind]
  apply Safe.alterSv.onVolume zero'
  exact fun _ _ zero'' _ => zero''

section

variable {offset : CInt} (low : offset.toNat < 2 ^ 31)

include low

/-- A size that is negative as an offset is behind no offset. -/
theorem lt_of_not_sle {size : CUnsigned} (before : ¬ size.sle offset = true) :
    offset.toNat < size.toNat ∧ size.toNat < 2 ^ 31 := by
  rw [BitVec.sle_iff_toInt_le, BitVec.toInt_eq_toNat_cond, BitVec.toInt_eq_toNat_cond] at before
  split at before <;> split at before <;> omega

/-- The end of a request that is too long has wrapped around, below its start, or is negative. -/
theorem not_slt_wrapped {size resid : CUnsigned} (beyond : 2 ^ 31 ≤ offset.toNat + resid.toNat)
    (before : ¬ size.sle offset = true) : ¬ size.slt (offset + resid) = true := by
  obtain ⟨inside, small⟩ := lt_of_not_sle low before
  rw [BitVec.slt_iff_toInt_lt, BitVec.toInt_eq_toNat_of_lt (by omega), BitVec.toInt_eq_toNat_cond,
    BitVec.toNat_add]
  split <;> omega

end

/-- Between a place and one behind it there is less than between an earlier place and that. -/
theorem sub_lt_of_between {offset size resid : BitVec 32} (before : ¬ size.sle offset = true)
    (cut : size.slt (offset + resid) = true) : offset + resid - size < resid := by
  obtain ⟨last, same⟩ : ∃ last, last = offset + resid := ⟨_, rfl⟩
  have all : resid = last - offset := by rw [same, BitVec.add_comm, BitVec.add_sub_cancel]
  rw [← same] at cut ⊢
  rw [all, BitVec.lt_def]
  rw [BitVec.sle_iff_toInt_le, BitVec.toInt_eq_toNat_cond, BitVec.toInt_eq_toNat_cond] at before
  rw [BitVec.slt_iff_toInt_lt, BitVec.toInt_eq_toNat_cond, BitVec.toInt_eq_toNat_cond] at cut
  rw [BitVec.toNat_sub, BitVec.toNat_sub]
  have := offset.isLt
  have := last.isLt
  have := size.isLt
  split at before <;> split at before <;> split at cut <;> split at cut <;> omega

theorem io_safe (zero : s.Marked 0) (low : t.offset.toNat < 2 ^ 31)
    (room : t.resid.toNat ≤ t.len.toNat) :
    (sfsIo p).Ensures Spared (s, t) (fun _ st => st.1.Marked 0) fun _ st => st.1.Marked 0 := by
  have finish (extraresid : CUnsigned) {s' : Volume} {t' : Transfer} (zero' : s'.Marked 0)
      (low' : t'.offset.toNat < 2 ^ 31) (room' : t'.resid.toNat ≤ t'.len.toNat) :
      ((sfsIoBody p).attempt >>= fun result =>
          sfsIoOut p extraresid >>= fun _ => Call.ofExcept result).Ensures Spared (s', t')
        (fun _ st => st.1.Marked 0) fun _ st => st.1.Marked 0 := by
    rw [ensures_bind, Call.ensures_attempt]
    refine (body_safe zero' low' room').mono ?_ ?_
    · rintro _ ⟨s'', t''⟩ ⟨zero'', -⟩
      exact (out_safe zero'' extraresid).bind (fun _ _ => id) fun _ _ => id
    · rintro e ⟨s'', t''⟩ zero''
      exact (out_safe zero'' extraresid).bind (fun _ _ => id) fun _ _ => id
  rw [sfsIo, ensures_bind, ensures_uio, ensures_bind]
  apply Safe.svAt.onVolume zero
  intro sv s' zero' _
  rw [ensures_ite]
  refine ⟨fun _ => zero', fun inside => ?_⟩
  rw [ensures_ite]
  refine ⟨fun cut => ?_, fun uncut => finish _ zero' low room⟩
  rw [if_pos cut]
  have less := sub_lt_of_between (fun behind => inside ⟨cut.1, behind⟩) cut.2
  rw [ensures_bind, ensures_held less]
  refine finish _ zero' low ?_
  dsimp only
  rw [BitVec.toNat_sub_of_le (BitVec.le_of_lt less)]
  omega

/-- A request that goes beyond the largest offset fails, unless it is a read behind the end. -/
theorem io_far (zero : s.Marked 0) (low : t.offset.toNat < 2 ^ 31)
    (beyond : 2 ^ 31 ≤ t.offset.toNat + t.resid.toNat) (room : t.resid.toNat ≤ t.len.toNat) :
    (sfsIo p).Ensures Spared (s, t)
      (fun _ _ => ∃ sv, s.heap p = some sv ∧ sv.inode.size.sle t.offset = true)
      fun _ _ => True := by
  rw [sfsIo, ensures_bind, ensures_uio, ensures_bind, ensures_onVolume]
  cases here : s.heap p with
  | none =>
    rw [svAt, ensures_bind, ensures_state, here]
    exact (by decide : Spared .danglingVnode)
  | some sv =>
    refine (ensures_svAt here).mpr ?_
    rw [ensures_ite]
    refine ⟨fun behind => ⟨sv, rfl, behind.2⟩, fun before => ?_⟩
    have uncut : ¬ (t.rw = .UIO_READ ∧ sv.inode.size.slt (t.offset + t.resid) = true) := fun cut =>
      not_slt_wrapped low beyond (fun behind => before ⟨cut.1, behind⟩) cut.2
    rw [if_neg uncut, if_neg uncut, ensures_bind, Call.ensures_attempt]
    refine (body_safe zero low room).mono ?_ ?_
    · rintro _ st ⟨-, near⟩
      omega
    · rintro e ⟨s', t'⟩ zero'
      exact (out_safe zero' 0).bind (fun _ _ _ => trivial) fun _ _ _ => trivial

theorem Orderly.has {p : Ptr} {sv : SfsVnode} {s : Volume} (file : Orderly p sv s) :
    FileHas p sv.inode.size (sv.contents s.disk) (sv.share s) s :=
  ⟨sv, file.mapped, rfl, rfl⟩

/-- The errors of a request on a file in order. -/
def RequestError (t : Transfer) (e : Errno) : Prop :=
  (e = .ENOSPC ∧ t.rw = .UIO_WRITE) ∨ e = .EINVAL ∨ (e = .EFAULT ∧ ∃ i, t.bad i = true)

/-- On a file in order the call returns: no halt is possible both there and on any volume. -/
theorem Orderly.request_returns {sv : SfsVnode} (file : Orderly p sv s)
    (low : t.offset.toNat < 2 ^ 31) (room : t.resid.toNat ≤ t.len.toNat) :
    (sfsRequest p t).Ensures (fun _ => False) s (fun r _ => ∀ e, r.1 = .error e → RequestError t e)
      fun _ _ => False := by
  have call : (sfsRequest p t).Secures (sharing p (· ∈ odd)) (sv.share s) s
      (fun r _ _ => ∀ e, r.1 = .error e → RequestError t e) (fun _ _ _ => False) := by
    rw [sfsRequest, Call.secures_locally]
    cases kind : t.rw with
    | UIO_READ =>
      refine (file.has.io_read kind (.inl fun _ => id)).mono ?_ ?_
      · rintro _ _ _ - e wrong
        cases wrong
      · rintro _ _ _ ⟨-, error⟩ e same
        cases same
        exact .inr (error.imp_left And.left)
    | UIO_WRITE =>
      refine (file.has.fileWith.io_write (fun _ _ => .any) kind (.inl fun _ => id)).mono ?_ ?_
      · rintro _ _ _ - e wrong
        cases wrong
      · rintro _ _ _ ⟨error, -⟩ e same
        cases same
        exact error.imp_right (Or.imp_left And.left)
  have safe : (sfsRequest p t).Ensures Spared s (fun _ _ => True) fun _ _ => False := by
    rw [sfsRequest, Call.ensures_locally]
    exact (io_safe file.sane.superblock low room).mono (fun _ _ _ => trivial) fun _ _ _ => trivial
  refine ((alone_ensures call).meet safe ?_).mono (fun _ _ both => both.1) fun _ _ both => both.1
  exact fun h inside spared => spared (List.mem_cons_of_mem _ (List.mem_cons_of_mem _ inside))

end

/-- A request of the kernel, for `len` bytes at `offset`; the bytes themselves are zeros. -/
def kernelUio (offset : CInt) (len : CUnsigned) (rw : Io.UioRw) : Transfer where
  bytes _ := 0
  bad _ := false
  base := 0
  len := len
  offset := offset
  resid := len
  rw := rw

end Os161.Sfs
