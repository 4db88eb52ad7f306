import Os161.Foundation.Sharing
import Os161.Sfs.File
import Os161.Sfs.Tree

/-!
# Work on one file

A call that works on a file has a share of the volume: the blocks of the file. It takes blocks
that are free, and gives back blocks of its own. `Keeps` is what it does to the volume. It is
alone, and the device does not fail here.
-/
namespace Os161.Sfs

open Foundation Vfs
open Call (secures_bind secures_modify secures_pure secures_state secures_yield)
open Function (update)

/-- The freemap has the block in use. -/
def Volume.Marked (s : Volume) (b : CUnsigned) : Prop := Bits.bit s.freemap.v b.toNat = true

/-- The sizes fit together, and blocks that must not be allocated are not free. -/
structure Sane (s : Volume) : Prop where
  reliable : ∀ n, s.device.outcome n = .ok
  blocksize : s.device.blocksize = SFS_BLOCKSIZE
  magic : s.super.magic = SFS_MAGIC
  small : s.super.nblocks.toNat < 2 ^ 22
  onDevice : s.super.nblocks ≤ s.device.blocks
  nbits : s.freemap.nbits = SFS_BITMAPSIZE s.super.nblocks
  padded : ∀ i, s.super.nblocks.toNat ≤ i → i < 8 * s.freemap.words →
    Bits.bit s.freemap.v i = true
  superblock : s.Marked 0

/-- The blocks of the file that a call works on. -/
abbrev Share := Set CUnsigned

/-- Changes of a vnode that reading, writing and truncating make. A new inode is dirty. -/
structure Grown (sv sv' : SfsVnode) : Prop where
  vnode : sv'.toVnode = sv.toVnode
  ops : sv'.ops = sv.ops
  ino : sv'.ino = sv.ino
  type : sv'.inode.type = sv.inode.type
  linkcount : sv'.inode.linkcount = sv.inode.linkcount
  dirty : sv.dirty = true → sv'.dirty = true
  changed : sv'.dirty = false → sv'.inode = sv.inode

theorem Grown.refl (sv : SfsVnode) : Grown sv sv := ⟨rfl, rfl, rfl, rfl, rfl, id, fun _ => rfl⟩

theorem Grown.trans {sv sv' sv'' : SfsVnode} (first : Grown sv sv') (second : Grown sv' sv'') :
    Grown sv sv'' where
  vnode := second.vnode.trans first.vnode
  ops := second.ops.trans first.ops
  ino := second.ino.trans first.ino
  type := second.type.trans first.type
  linkcount := second.linkcount.trans first.linkcount
  dirty was := second.dirty (first.dirty was)
  changed clean := by
    have clean' : sv'.dirty = false :=
      Bool.eq_false_iff.mpr fun was => Bool.eq_false_iff.mp clean (second.dirty was)
    exact (second.changed clean).trans (first.changed clean')

/-- What a call for the vnode at `p` that had the share `own` has done when its share is
`after`. -/
structure Keeps (p : Ptr) (own after : Share) (s t : Volume) : Prop where
  super : t.super = s.super
  superdirty : t.superdirty = s.superdirty
  device : t.device = s.device
  memory : t.memory = s.memory ∧ t.asked = s.asked
  sane : Sane s → Sane t
  vnodes : t.vnodes = s.vnodes
  brk : t.brk = s.brk
  finding : t.finding = s.finding
  reclaiming : t.reclaiming = s.reclaiming
  heap : ∀ q, q ≠ p → t.heap q = s.heap q
  grown : ∀ sv, s.heap p = some sv → ∃ sv', t.heap p = some sv' ∧ Grown sv sv'
  /-- A block that it has now was its own or free. -/
  taken : ∀ b ∈ after, b ∉ own → ¬ s.Marked b
  /-- The blocks of others are as they were. -/
  kept : ∀ b, b ∉ own → s.Marked b → t.Marked b ∧ t.disk b = s.disk b
  /-- A block that it gave back, or that was free, is free. -/
  freed : ∀ b, b ∉ after → b ∈ own ∨ ¬ s.Marked b → ¬ t.Marked b
  held : (∀ b ∈ own, s.Marked b) → ∀ b ∈ after, t.Marked b
  freemapdirty : s.freemapdirty = true → t.freemapdirty = true
  freemap : t.freemapdirty = false → t.freemap = s.freemap

namespace Keeps

variable {p : Ptr} {own own' own'' : Share} {s t u : Volume}

theorem refl (p : Ptr) (own : Share) (s : Volume) : Keeps p own own s s where
  super := rfl
  superdirty := rfl
  device := rfl
  memory := ⟨rfl, rfl⟩
  sane := id
  vnodes := rfl
  brk := rfl
  finding := rfl
  reclaiming := rfl
  heap _ _ := rfl
  grown sv here := ⟨sv, here, .refl sv⟩
  taken _ inside outside := absurd inside outside
  kept _ _ marked := ⟨marked, rfl⟩
  freed _ outside was := was.resolve_left outside
  held marked := marked
  freemapdirty := id
  freemap _ := rfl

private theorem trans (first : Keeps p own own' s t) (second : Keeps p own' own'' t u) :
    Keeps p own own'' s u := by
  -- a block that was in use elsewhere has not come into the share
  have apart : ∀ b, b ∉ own → s.Marked b → b ∉ own' := fun b outside marked inside =>
    first.taken b inside outside marked
  exact {
    super := second.super.trans first.super
    superdirty := second.superdirty.trans first.superdirty
    device := second.device.trans first.device
    memory := ⟨second.memory.1.trans first.memory.1, second.memory.2.trans first.memory.2⟩
    sane := second.sane ∘ first.sane
    vnodes := second.vnodes.trans first.vnodes
    brk := second.brk.trans first.brk
    finding := second.finding.trans first.finding
    reclaiming := second.reclaiming.trans first.reclaiming
    heap := fun q other => (second.heap q other).trans (first.heap q other)
    grown := by
      intro sv here
      obtain ⟨sv', here', step⟩ := first.grown sv here
      obtain ⟨sv'', here'', step'⟩ := second.grown sv' here'
      exact ⟨sv'', here'', step.trans step'⟩
    taken := by
      intro b inside outside marked
      exact second.taken b inside (apart b outside marked) (first.kept b outside marked).1
    kept := by
      intro b outside marked
      obtain ⟨still, disk⟩ := first.kept b outside marked
      obtain ⟨still', disk'⟩ := second.kept b (apart b outside marked) still
      exact ⟨still', disk'.trans disk⟩
    freed := by
      intro b outside was
      refine second.freed b outside ?_
      by_cases between : b ∈ own'
      · exact .inl between
      · exact .inr (first.freed b between was)
    held := fun marked => second.held (first.held marked)
    freemapdirty := second.freemapdirty ∘ first.freemapdirty
    freemap := by
      intro clean
      have clean' : t.freemapdirty = false :=
        Bool.eq_false_iff.mpr fun was => Bool.eq_false_iff.mp clean (second.freemapdirty was)
      exact (second.freemap clean).trans (first.freemap clean') }

end Keeps

/-- The protocol of a call that works alone on the file of the vnode at `p`, by the reasons for
which it may halt. -/
def sharing (p : Ptr) (halts : Halt → Prop) : Protocol Halt Volume Share where
  rely _ s t := t = s
  guar := Keeps p
  halts := halts
  prompt := True

theorem alone {ε α : Type} {p : Ptr} {halts : Halt → Prop} {c : Call Halt ε Volume α} {own : Share}
    {s : Volume} {Q : α → Share → Volume → Prop} {E : ε → Share → Volume → Prop}
    (done : c.Secures (sharing p halts) own s Q E) :
    c.Ensures halts s (fun a t => ∃ after, Keeps p own after s t ∧ Q a after t)
      (fun e t => ∃ after, Keeps p own after s t ∧ E e after t) :=
  done.alone trivial ⟨fun _ _ => rfl, fun _ _ _ _ => flip Eq.trans⟩ (Keeps.refl p)
    fun _ _ _ _ _ _ => Keeps.trans

/-- Where it does not matter what share the call ends with. -/
theorem alone_ensures {ε α : Type} {p : Ptr} {halts : Halt → Prop} {c : Call Halt ε Volume α}
    {own : Share} {s : Volume} {Q : α → Volume → Prop} {E : ε → Volume → Prop}
    (done : c.Secures (sharing p halts) own s (fun a _ t => Q a t) fun e _ t => E e t) :
    c.Ensures halts s Q E := by
  refine (alone done).mono ?_ ?_
  · rintro a t ⟨-, -, result⟩
    exact result
  · rintro e t ⟨-, -, error⟩
    exact error

/-! ### Assignments that keep to a share -/

theorem sectorOf_inside {b blocks : CUnsigned} (small : b.toNat < 2 ^ 22)
    (inside : b.toNat < blocks.toNat) : sectorOf b = b ∧ sectorOf b + 1 ≤ blocks := by
  have same : sectorOf b = b := sectorOf_eq small
  refine ⟨same, ?_⟩
  have one : (1 : CUnsigned).toNat = 1 := rfl
  rw [same, BitVec.le_def, BitVec.toNat_add]
  omega

namespace Sane

variable {s t : Volume}

theorem congr (sane : Sane s) (device : t.device = s.device) (super : t.super = s.super)
    (freemap : t.freemap = s.freemap) : Sane t where
  reliable := by
    rw [device]
    exact sane.reliable
  blocksize := by
    rw [device]
    exact sane.blocksize
  magic := by
    rw [super]
    exact sane.magic
  small := by
    rw [super]
    exact sane.small
  onDevice := by
    rw [device, super]
    exact sane.onDevice
  nbits := by
    rw [freemap, super]
    exact sane.nbits
  padded := by
    rw [freemap, super]
    exact sane.padded
  superblock := by
    rw [Volume.Marked, freemap]
    exact sane.superblock

/-- The map has a bit for each block, and no bytes beyond. -/
theorem size (sane : Sane s) :
    8 * s.freemap.words = s.freemap.nbits.toNat ∧ s.super.nblocks.toNat ≤ s.freemap.nbits.toNat ∧
      s.freemap.nbits.toNat ≤ 2 ^ 22 := by
  have small := sane.small
  have bits : s.freemap.nbits.toNat = (s.super.nblocks.toNat + 4095) / 4096 * 4096 := by
    rw [sane.nbits, toNat_bitmapsize (by omega)]
  have fits : s.freemap.nbits.toNat + 7 < 2 ^ 32 := by omega
  have words : s.freemap.words = (s.freemap.nbits.toNat + 7) / 8 :=
    Bitmap.toNat_words s.freemap.v fits
  omega

theorem sector (sane : Sane s) {b : CUnsigned} (valid : b < s.super.nblocks) :
    sectorOf b = b ∧ sectorOf b + 1 ≤ s.device.blocks := by
  have small := sane.small
  have onDevice := BitVec.le_def.mp sane.onDevice
  have below := BitVec.lt_def.mp valid
  exact sectorOf_inside (by omega) (by omega)

theorem unbroken (sane : Sane s) : ¬ ∃ n, s.device.outcome n = .fails := by
  rintro ⟨n, fails⟩
  exact absurd (fails.symm.trans (sane.reliable n)) nofun

end Sane

/-- The freemap with one block more in use. -/
def Volume.mark (s : Volume) (b : CUnsigned) : Volume :=
  { s with freemap := { s.freemap with v := Bits.setBit s.freemap.v b.toNat },
           freemapdirty := true }

def Volume.unmark (s : Volume) (b : CUnsigned) : Volume :=
  { s with freemap := { s.freemap with v := Bits.resetBit s.freemap.v b.toNat },
           freemapdirty := true }

section

variable {s : Volume} {b c : CUnsigned}

theorem marked_mark : (s.mark b).Marked c ↔ c = b ∨ s.Marked c := by
  simp [Volume.Marked, Volume.mark, Bits.bit_setBit (n := 8) (by decide), BitVec.toNat_inj]

theorem marked_unmark : (s.unmark b).Marked c ↔ c ≠ b ∧ s.Marked c := by
  simp [Volume.Marked, Volume.unmark, Bits.bit_resetBit (n := 8) (by decide), BitVec.toNat_inj]

theorem Sane.mark (sane : Sane s) : Sane (s.mark b) where
  reliable := sane.reliable
  blocksize := sane.blocksize
  magic := sane.magic
  small := sane.small
  onDevice := sane.onDevice
  nbits := sane.nbits
  padded i low high := by
    have set := sane.padded i low high
    simp [Volume.mark, Bits.bit_setBit (n := 8) (by decide), set]
  superblock := marked_mark.mpr (.inr sane.superblock)

theorem Sane.unmark (sane : Sane s) (valid : b < s.super.nblocks) (other : b ≠ 0) :
    Sane (s.unmark b) where
  reliable := sane.reliable
  blocksize := sane.blocksize
  magic := sane.magic
  small := sane.small
  onDevice := sane.onDevice
  nbits := sane.nbits
  padded i low high := by
    have set := sane.padded i low high
    have apart : i ≠ b.toNat := by
      have inside := BitVec.lt_def.mp valid
      have low : s.super.nblocks.toNat ≤ i := low
      omega
    simp [Volume.unmark, Bits.bit_resetBit (n := 8) (by decide), set, apart]
  superblock := marked_unmark.mpr ⟨other.symm, sane.superblock⟩

end

namespace Keeps

variable {p : Ptr} {own : Share} {s : Volume} {b : CUnsigned}

private theorem mark (free : ¬ s.Marked b) : Keeps p own (insert b own) s (s.mark b) :=
  { Keeps.refl p own s with
    sane := Sane.mark
    taken := by
      rintro c (rfl | inside) outside
      · exact free
      · exact absurd inside outside
    kept := fun c _ marked => ⟨marked_mark.mpr (.inr marked), rfl⟩
    freed := by
      rintro c outside was marked
      rcases marked_mark.mp marked with rfl | marked
      · exact outside (Set.mem_insert ..)
      · exact (was.resolve_left fun inside => outside (.inr inside)) marked
    held := by
      rintro marked c (rfl | inside)
      · exact marked_mark.mpr (.inl rfl)
      · exact marked_mark.mpr (.inr (marked c inside))
    freemapdirty := fun _ => rfl
    freemap := nofun }

private theorem unmark (mine : b ∈ own) (valid : b < s.super.nblocks) (other : b ≠ 0) :
    Keeps p own (own \ {b}) s (s.unmark b) :=
  { Keeps.refl p own s with
    sane := fun sane => sane.unmark valid other
    taken := fun c inside outside => absurd inside.1 outside
    kept := by
      intro c outside marked
      refine ⟨marked_unmark.mpr ⟨?_, marked⟩, rfl⟩
      rintro rfl
      exact outside mine
    freed := by
      intro c outside was marked
      obtain ⟨apart, marked⟩ := marked_unmark.mp marked
      rcases was with inside | free
      · exact outside ⟨inside, apart⟩
      · exact free marked
    held := fun marked c inside => marked_unmark.mpr ⟨inside.2, marked c inside.1⟩
    freemapdirty := fun _ => rfl
    freemap := nofun }

theorem buffers (p : Ptr) (own : Share) (s : Volume) (started : Nat) (iobuf : Block)
    (idbuf truncbuf : Fin 128 → CUnsigned) :
    Keeps p own own s { s with started, iobuf, idbuf, truncbuf } :=
  { Keeps.refl p own s with sane := fun sane => sane.congr rfl rfl rfl }

theorem setDisk (mine : b ∈ own) (s : Volume) (data : Block) :
    Keeps p own own s { s with disk := update s.disk b data } :=
  { Keeps.refl p own s with
    sane := fun sane => sane.congr rfl rfl rfl
    kept := fun c outside marked =>
      ⟨marked, Function.update_of_ne (fun same : c = b => outside (same ▸ mine)) ..⟩ }

private theorem setVnode {sv sv' : SfsVnode} (here : s.heap p = some sv) (grown : Grown sv sv') :
    Keeps p own own s { s with heap := update s.heap p (some sv') } :=
  { Keeps.refl p own s with
    sane := fun sane => sane.congr rfl rfl rfl
    heap := fun q other => Function.update_of_ne other ..
    grown := by
      intro sv₁ here₁
      cases here.symm.trans here₁
      exact ⟨sv', Function.update_self .., grown⟩ }

end Keeps

/-! ### Block input and output, and space -/

section

variable {halts : Halt → Prop} {p : Ptr} {own : Share} {s : Volume} {b : CUnsigned}
  {E : Errno → Share → Volume → Prop}

theorem secures_svAt {q : Ptr} {sv : SfsVnode} {Q : SfsVnode → Share → Volume → Prop}
    (here : s.heap q = some sv) :
    (svAt q).Secures (sharing p halts) own s Q E ↔ Q sv own s := by
  rw [svAt, secures_bind, secures_state, here, Call.secures_expect_some]

variable {Q : Unit → Share → Volume → Prop}

/-- An assignment to the inode also makes it dirty. -/
theorem secures_alterSv {sv : SfsVnode} {f : SfsVnode → SfsVnode} (i : Inode)
    (here : s.heap p = some sv)
    (result : f sv = { sv with inode := i, dirty := true }) (type : i.type = sv.inode.type)
    (linkcount : i.linkcount = sv.inode.linkcount) (next : Q () own
      { s with heap := update s.heap p (some { sv with inode := i, dirty := true }) }) :
    (alterSv p f).Secures (sharing p halts) own s Q E := by
  rw [alterSv, secures_bind, secures_svAt here, result]
  exact ⟨own, .setVnode here ⟨rfl, rfl, rfl, type, linkcount, fun _ => rfl, nofun⟩, next⟩

theorem secures_operate {Q : Outcome → Share → Volume → Prop} (sane : Sane s)
    (valid : b < s.super.nblocks) (next : Q .ok own { s with started := s.started + 1 }) :
    (operate b).Secures (sharing p halts) own s Q E := by
  rw [operate, secures_bind, secures_state, secures_bind, Call.secures_held ((sane.sector valid).2),
    secures_bind]
  refine ⟨own, .buffers p own s .., ?_⟩
  rw [sane.reliable]
  exact next

theorem secures_pause :
    (Call.yield : Code Volume Unit).Secures (sharing p halts) own s Q E ↔ Q () own s := by
  rw [secures_yield]
  constructor
  · exact fun holds => holds s rfl
  · rintro holds _ rfl
    exact holds

section

variable (sane : Sane s) (valid : b < s.super.nblocks)

include sane valid

theorem secures_rblock {store : Block → Volume → Volume} {Q : Block → Share → Volume → Prop}
    (stores : ∀ t, Keeps p own own t (store (s.disk b) t))
    (next : Q (s.disk b) own (store (s.disk b) { s with started := s.started + 1 })) :
    (rblock store b).Secures (sharing p halts) own s Q E := by
  rw [rblock, secures_bind, secures_pause, secures_bind]
  apply secures_operate sane valid
  rw [if_neg (by decide), secures_bind, secures_state, secures_bind, (sane.sector valid).1,
    secures_modify]
  refine ⟨own, stores _, ?_⟩
  rw [secures_bind, secures_pause]
  exact next

theorem secures_wblock {data : Volume → Block} {Q : Unit → Share → Volume → Prop} (mine : b ∈ own)
    (next : Q () own { s with
      started := s.started + 1
      disk := update s.disk b (data { s with started := s.started + 1 }) }) :
    (wblock data b).Secures (sharing p halts) own s Q E := by
  rw [wblock, secures_bind, secures_pause, secures_bind]
  apply secures_operate sane valid
  rw [if_pos rfl, secures_bind, (sane.sector valid).1, secures_modify]
  refine ⟨own, .setDisk mine _ _, ?_⟩
  rw [secures_bind, secures_pause]
  exact next

end

/-- A new block, in use and cleared. -/
def Volume.allocated (s : Volume) (b : CUnsigned) : Volume :=
  { s.mark b with disk := update s.disk b Block.zero }

/-- Every block of the volume is in use. -/
def Volume.Full (s : Volume) : Prop := ∀ b, b < s.super.nblocks → s.Marked b

/-- `bitmap_alloc` finds a block of the volume, or there is none. -/
theorem Sane.alloc_cases (sane : Sane s) :
    (s.freemap.alloc = .ok none ∧ s.Full) ∨
      ∃ b, s.freemap.alloc = .ok (some (b, (s.mark b).freemap)) ∧
        ¬ s.Marked b ∧ b < s.super.nblocks := by
  obtain ⟨words, more, small⟩ := sane.size
  have padded : s.freemap.Padded := by
    intro i low high
    exact sane.padded i (by omega) high
  rcases s.freemap.alloc_cases padded with ⟨none, all⟩ | ⟨b, found, inside, clear, -⟩
  · refine .inl ⟨none, fun b valid => all b.toNat ?_⟩
    have below := BitVec.lt_def.mp valid
    omega
  have free : ¬ s.Marked b := by simp [Volume.Marked, clear]
  refine .inr ⟨b, found, free, ?_⟩
  rw [BitVec.lt_def]
  by_contra beyond
  have below := BitVec.lt_def.mp inside
  exact free (sane.padded b.toNat (by omega) (by omega))

theorem secures_balloc {Q : CUnsigned → Share → Volume → Prop} (sane : Sane s)
    (full : s.Full → E .ENOSPC own s)
    (next : ∀ b, ¬ s.Marked b → b < s.super.nblocks →
      Q b (insert b own) { s.allocated b with started := s.started + 1 }) :
    sfsBalloc.Secures (sharing p halts) own s Q E := by
  rw [sfsBalloc, secures_bind, secures_state]
  rcases sane.alloc_cases with ⟨none, all⟩ | ⟨b, found, free, valid⟩
  · simp only [none, Call.secures_fail]
    exact full all
  simp only [found, secures_bind, secures_modify]
  refine ⟨insert b own, .mark free, ?_⟩
  rw [Call.secures_held valid]
  exact secures_wblock sane.mark valid (Set.mem_insert ..) (next b free valid)

theorem secures_bfree (sane : Sane s)
    (valid : b < s.super.nblocks) (other : b ≠ 0) (mine : b ∈ own) (marked : s.Marked b)
    (next : Q () (own \ {b}) (s.unmark b)) :
    (sfsBfree b).Secures (sharing p halts) own s Q E := by
  have inside : b < s.freemap.nbits := by
    have below := BitVec.lt_def.mp valid
    have size := sane.size
    rw [BitVec.lt_def]
    omega
  rw [sfsBfree, secures_bind, secures_state, Bitmap.unmark_eq inside marked]
  exact ⟨own \ {b}, .unmark mine valid other, next⟩

theorem secures_bused {Q : Bool → Share → Volume → Prop} (valid : b < s.super.nblocks)
    (marked : s.Marked b) (next : Q true own s) :
    (sfsBused b).Secures (sharing p halts) own s Q E := by
  rw [sfsBused, secures_bind, secures_state, secures_bind, Call.secures_held valid,
    Bitmap.isset_eq, marked]
  exact next

end

end Os161.Sfs
