import Os161.Sfs.View

/-!
# Entries of the directory

Reading and writing through a vnode, as the view has it, and with it `sfs_readdir` and
`sfs_writedir`: an entry lies in one block, so it is written as a whole or not at all.
-/
namespace Os161.Sfs

open Foundation Vfs

/-! ### Requests -/

section

variable {v : View} {s : Volume} {p : Ptr} {ino : CUnsigned} {n : Node} {H : Halt → Prop}
  {E : Errno → Volume → Prop} {t : Transfer}

def WriteEnd (n : Node) (t : Transfer) (contents' : Nat → Block) (r : Except Errno Unit × Transfer)
    (u : Volume) : Prop :=
  (t.Proper → Wrote n.contents t contents' r.2) ∧
    ((r.1 = .ok () ∧ (t.Proper → r.2.resid.toNat = 0)) ∨
      ∃ e, r.1 = .error e ∧ IoError t e ∧ (t.Proper → StoppedAt contents' t (u, r.2) e))

theorem Shows.request_write (shows : Shows v s) (here : v.vnode p = some ino)
    (node : v.files ino = some n) (write : t.rw = .UIO_WRITE)
    (fits : (∀ h ∈ odd, H h) ∨ t.Proper) :
    (sfsRequest p t).Ensures H s
      (fun r u => ∃ contents', WriteEnd n t contents' r u ∧
        Shows (v.setFile ino { n with size := newSize n.size r.2.offset, contents := contents' }) u)
      E := by
  obtain ⟨sv, stands⟩ := shows.stands here
  have call (has : FileHas p n.size n.contents (sv.share s) s) :
      (sfsRequest p t).Secures (sharing p H) (sv.share s) s
        (fun r after u => ∃ contents', WriteEnd n t contents' r u ∧
          FileHas p (newSize n.size r.2.offset) contents' after u)
        (fun _ _ _ => False) := by
    rw [sfsRequest, Call.secures_locally]
    refine (has.fileWith.io_write (fun _ _ => .any) write fits).mono ?_ ?_
    · rintro _ after ⟨u, t'⟩ ⟨⟨contents', has', wrote⟩, finished⟩
      exact ⟨contents', ⟨wrote, .inl ⟨rfl, finished⟩⟩, has'.fileHas⟩
    · rintro e after ⟨u, t'⟩ ⟨error, contents', has', stopped⟩
      exact ⟨contents', ⟨fun proper => (stopped proper).1, .inr ⟨e, rfl, error,
        fun proper => (stopped proper).2⟩⟩, has'.fileHas⟩
  refine shows.work stands node call ?_ fun _ _ _ => False.elim
  rintro r after u ⟨contents', wrote, has⟩ result
  exact ⟨contents', wrote, result _ _ has⟩

def ReadEnd (n : Node) (t : Transfer) (r : Except Errno Unit × Transfer) : Prop :=
  (r.1 = .ok () ∧ (t.Proper → n.size.toNat < 2 ^ 31 →
    r.2 = (t.receive (readable n.size t) fun j => byteAt n.contents (t.offset.toNat + j)).advance
      (BitVec.ofNat 32 (readable n.size t)))) ∨
    ∃ e, r.1 = .error e ∧
      (e = .EINVAL ∧ (t.Proper → n.size.toNat < 2 ^ 31 → 143 * 512 < n.size.toNat) ∨
        e = .EFAULT ∧ ∃ i, t.bad i = true)

theorem Shows.request_read (shows : Shows v s) (here : v.vnode p = some ino)
    (node : v.files ino = some n) (read : t.rw = .UIO_READ)
    (fits : (∀ h ∈ odd, H h) ∨ (t.Proper ∧ n.size.toNat < 2 ^ 31)) :
    (sfsRequest p t).Ensures H s (fun r u => ReadEnd n t r ∧ Shows v u) E := by
  obtain ⟨sv, stands⟩ := shows.stands here
  have call (has : FileHas p n.size n.contents (sv.share s) s) :
      (sfsRequest p t).Secures (sharing p H) (sv.share s) s
        (fun r after u => ReadEnd n t r ∧
          FileHas p n.size n.contents after u) (fun _ _ _ => False) := by
    rw [sfsRequest, Call.secures_locally]
    refine (has.io_read read fits).mono ?_ ?_
    · rintro _ after ⟨u, t'⟩ ⟨has', brought⟩
      exact ⟨.inl ⟨rfl, brought⟩, has'⟩
    · rintro e after ⟨u, t'⟩ ⟨has', error⟩
      refine ⟨.inr ⟨e, rfl, error.imp_left fun beyond => ?_⟩, has'⟩
      exact ⟨beyond.1, fun proper small => (beyond.2 proper small).1⟩
  refine shows.work stands node call ?_ fun _ _ _ => False.elim
  rintro r after u ⟨brought, has⟩ result
  refine ⟨brought, ?_⟩
  have after := result _ _ has
  rwa [View.setFile_self node] at after

end

/-- Contents are their bytes. -/
theorem contents_ext {c c' : Nat → Block} (same : ∀ i, byteAt c i = byteAt c' i) : c = c' := by
  funext k j
  have here := same (k * 512 + j)
  have number : (k * 512 + j.val) / 512 = k := by omega
  have place : (⟨(k * 512 + j.val) % 512, Nat.mod_lt _ (by decide)⟩ : Fin 512) = j := by
    apply Fin.ext
    simp only
    omega
  rwa [byteAt, byteAt, number, place] at here

/-- No file is larger than its tree. -/
theorem Shows.contents_beyond {v : View} {s : Volume} {ino : CUnsigned} {n : Node}
    (shows : Shows v s)
    (node : v.files ino = some n) {k : Nat} (large : 143 ≤ k) : n.contents k = Block.zero := by
  obtain ⟨⟨I, -, files⟩, -, -⟩ := shows
  rw [files, Option.map_eq_some_iff] at node
  obtain ⟨i, -, rfl⟩ := node
  refine Tree.logical_unmapped ?_
  rw [Tree.blockAt, Tree.place_none (by omega)]
  rfl

/-! ### Entries -/

namespace Node

def entry (n : Node) (k : Nat) : Entry := Entry.ofBytes fun i => byteAt n.contents (k * 64 + i)

/-- `sfs_dir_nentries`. -/
def slots (n : Node) : Nat := n.size.toNat / 64

/-- The file with another entry in a slot. -/
structure Put (n : Node) (slot : Nat) (sd : Entry) (n' : Node) : Prop where
  type : n'.type = n.type
  linkcount : n'.linkcount = n.linkcount
  size : n'.size.toNat = max n.size.toNat (slot * 64 + 64)
  entry : ∀ k, n'.entry k = if k = slot then sd else n.entry k

/-- A block of zeros has free slots only. -/
theorem entry_of_zero {n : Node} {k : Nat} (zero : n.contents (k * 64 / 512) = Block.zero) :
    (n.entry k).ino = 0 := by
  have bytes : (fun p : Fin 4 => byteAt n.contents (k * 64 + p)) = fun _ => 0 := by
    funext p
    have inside : (k * 64 + p) / 512 = k * 64 / 512 := by omega
    rw [byteAt, inside, zero]
    rfl
  have same : (n.entry k).ino = word (n := 1) (fun p => byteAt n.contents (k * 64 + p)) 0 := rfl
  rw [same, bytes]
  decide

end Node

section

variable {v : View} {s : Volume} {p : Ptr} {ino : CUnsigned} {n : Node} {H : Halt → Prop}
  {E : Errno → Volume → Prop} {slot : Nat}

theorem entryUio_proper (slot : Nat) (e : Fin 64 → Byte) (small : slot ≤ 1144) (rw' : Io.UioRw) :
    (entryUio e slot rw').Proper ∧ (entryUio e slot rw').offset.toNat = slot * 64 ∧
      (entryUio e slot rw').resid.toNat = 64 := by
  have offset : (entryUio e slot rw').offset.toNat = slot * 64 := by
    simp only [entryUio, BitVec.toNat_ofNat]
    omega
  have resid : (entryUio e slot rw').resid.toNat = 64 := rfl
  have len : (entryUio e slot rw').len.toNat = 64 := rfl
  exact ⟨⟨by omega, by omega⟩, offset, resid⟩

theorem Shows.readdir (shows : Shows v s) (here : v.vnode p = some ino)
    (node : v.files ino = some n)
    (inside : slot < n.slots) (fits : n.size.toNat ≤ 143 * 512) {Q : Entry → Volume → Prop}
    (next : ∀ t, Shows v t → Q (n.entry slot) t) :
    (sfsReaddir p slot).Ensures H s Q E := by
  have small : slot * 64 + 64 ≤ n.size.toNat := by
    unfold Node.slots at inside
    omega
  obtain ⟨proper, offset, resid⟩ := entryUio_proper slot (fun _ => 0) (by omega) .UIO_READ
  refine (shows.request_read here node (t := entryUio (fun _ => 0) slot .UIO_READ) rfl
    (.inr ⟨proper, by omega⟩)).bind (E := E) ?_ fun _ _ => id
  rintro ⟨result, t'⟩ u ⟨ended, shows'⟩
  rcases ended with ⟨ok, brought⟩ | ⟨e, -, ⟨-, large⟩ | ⟨-, i, bad⟩⟩
  · have all : readable n.size (entryUio (fun _ => 0) slot .UIO_READ) = 64 := by
      rw [readable]
      omega
    have moved := brought proper (by omega)
    rw [all, offset] at moved
    subst ok moved
    simp only [Call.ensures_bind, Call.ensures_ofExcept_ok, Call.ensures_ensure, Call.ensures_pure]
    refine ⟨fun _ => ?_, fun short => absurd (by decide : (64 : CUnsigned) - 64#32 = 0) short⟩
    have bytes : (fun i : Fin 64 => (((entryUio (fun _ => 0) slot .UIO_READ).receive 64
        fun j => byteAt n.contents (slot * 64 + j)).advance (BitVec.ofNat 32 64)).bytes i) =
        fun i : Fin 64 => byteAt n.contents (slot * 64 + i) := by
      simp [Transfer.advance, Transfer.receive, entryUio]
    rw [bytes]
    exact next u shows'
  · have := large proper (by omega)
    omega
  · cases bad

/-- On a failure nothing was written. It does not fail for want of space where the block is
there, as it is for a slot that is in use. -/
theorem Shows.writedir (shows : Shows v s) (here : v.vnode p = some ino)
    (node : v.files ino = some n) (inside : slot ≤ n.slots) (whole : n.size.toNat % 64 = 0)
    (fits : n.size.toNat ≤ 143 * 512) {sd : Entry} (used : slot < n.slots ∨ sd.ino ≠ 0) :
    (sfsWritedir p sd slot).Ensures H s
      (fun _ t => ∃ n', n.Put slot sd n' ∧ n'.size.toNat ≤ 143 * 512 ∧ Shows (v.setFile ino n') t)
      (fun e t => Shows v t ∧ ((e = .ENOSPC ∧ (n.entry slot).ino = 0 ∧ t.Full) ∨
        (e = .EINVAL ∧ slot = 1144))) := by
  have small : slot * 64 ≤ n.size.toNat := by
    unfold Node.slots at inside
    omega
  obtain ⟨proper, offset, resid⟩ := entryUio_proper slot sd.toBytes (by omega) .UIO_WRITE
  refine (shows.request_write here node (t := entryUio sd.toBytes slot .UIO_WRITE) rfl
    (.inr proper)).bind ?_ fun _ _ => id
  rintro ⟨result, t'⟩ u ⟨contents', ⟨wrote, ended⟩, shows'⟩
  dsimp only at wrote ended shows'
  obtain ⟨done, part, moved, bytes⟩ := wrote proper
  obtain ⟨-, offset', resid', -⟩ := proper.advance (n := done) (by omega)
  rw [← moved] at offset'
  rw [← moved] at resid'
  -- the size goes by where the request has come to
  have size : (newSize n.size t'.offset).toNat = max n.size.toNat (slot * 64 + done) := by
    have signed : n.size.slt t'.offset = true ↔ n.size.toNat < t'.offset.toNat := by
      rw [BitVec.slt_iff_toInt_lt, BitVec.toInt_eq_toNat_of_lt (by omega),
        BitVec.toInt_eq_toNat_of_lt (by omega)]
      omega
    rw [newSize]
    split
    next longer =>
      have := signed.mp longer
      omega
    next shorter =>
      have := mt signed.mpr shorter
      omega
  rcases ended with ⟨rfl, finished⟩ | ⟨e, rfl, error, stopped⟩
  · have all : done = 64 := by
      have := finished proper
      omega
    subst all
    have zero : t'.resid = 0 := toNat_eq_zero.mp (finished proper)
    have put : n.Put slot sd ⟨n.type, n.linkcount, newSize n.size t'.offset, contents'⟩ := by
      refine ⟨rfl, rfl, size, fun k => ?_⟩
      by_cases same : k = slot
      · subst same
        have written : (fun i : Fin 64 => byteAt contents' (k * 64 + i)) = sd.toBytes := by
          funext i
          rw [bytes, offset]
          simp [entryUio]
        simp [Node.entry, written]
      rw [if_neg same, Node.entry]
      congr 1
      funext i
      rw [bytes, if_neg (by omega)]
    simp only [Call.ensures_bind, Call.ensures_ensure]
    refine ⟨fun _ => ⟨_, put, ?_, shows'⟩, fun short => absurd zero short⟩
    -- behind the largest file there is nothing, so an entry that is in use is not there
    have last : slot ≠ 1144 := by
      rintro rfl
      have free := Node.entry_of_zero (k := 1144)
        (shows'.contents_beyond (Function.update_self ..) (k := 143) le_rfl)
      rw [put.entry] at free
      rcases used with below | used
      · unfold Node.slots at below
        omega
      · exact used free
    change (newSize n.size t'.offset).toNat ≤ 143 * 512
    omega
  · -- it stopped in the block where it began
    have none : done = 0 := by
      obtain ⟨place, more, -⟩ := stopped proper
      dsimp only at place more
      omega
    have same : contents' = n.contents := by
      apply contents_ext
      intro i
      rw [bytes, if_neg (by omega)]
    have still : newSize n.size t'.offset = n.size := by
      apply BitVec.eq_of_toNat_eq
      omega
    rw [same, still, View.setFile_self node] at shows'
    refine ⟨shows', ?_⟩
    rcases error with ⟨rfl, -⟩ | ⟨rfl, large⟩ | ⟨-, i, bad⟩
    · obtain ⟨zero, all⟩ := (stopped proper).full rfl
      refine .inl ⟨rfl, Node.entry_of_zero ?_, all⟩
      rw [same] at zero
      have number : t'.offset.toNat = slot * 64 := by omega
      rwa [number] at zero
    · have := large proper
      exact .inr ⟨rfl, by omega⟩
    · cases bad

end

end Os161.Sfs
