import Os161.Sfs.Accounting

/-!
# Files as strings of bytes

Writes, truncations and reads of one file, against what they do to a string of bytes. `sfs_truncate`
leaves what is in the blocks that it keeps; the file is such a string as long as only zeros are
left there.
-/
namespace Os161.Sfs

open Foundation Vfs

/-! ### Strings -/

namespace Str

/-- A write behind the end fills the gap with zeros. -/
def write (l : List Byte) (off : Nat) (data : List Byte) : List Byte :=
  (l ++ List.replicate (off - l.length) 0).take off ++ data ++ l.drop (off + data.length)

/-- A longer string ends with zeros. -/
def truncate (l : List Byte) (len : Nat) : List Byte :=
  l.take len ++ List.replicate (len - l.length) 0

def read (l : List Byte) (off n : Nat) : List Byte := (l.drop off).take n

theorem getD_append (l l' : List Byte) (i : Nat) :
    (l ++ l').getD i 0 = if i < l.length then l.getD i 0 else l'.getD (i - l.length) 0 := by
  simp only [List.getD_eq_getElem?_getD, List.getElem?_append]
  split <;> rfl

theorem getD_take (l : List Byte) (n i : Nat) :
    (l.take n).getD i 0 = if i < n then l.getD i 0 else 0 := by
  simp only [List.getD_eq_getElem?_getD, List.getElem?_take]
  split <;> rfl

theorem getD_drop (l : List Byte) (n i : Nat) : (l.drop n).getD i 0 = l.getD (n + i) 0 := by
  simp

theorem getD_zeros (n i : Nat) : (List.replicate n (0 : Byte)).getD i 0 = 0 := by
  simp only [List.getD_eq_getElem?_getD, List.getElem?_replicate]
  split <;> rfl

theorem length_gap (l : List Byte) (off : Nat) :
    ((l ++ List.replicate (off - l.length) 0).take off).length = off := by
  rw [List.length_take, List.length_append, List.length_replicate]
  omega

private theorem length_write (l : List Byte) (off : Nat) (data : List Byte) :
    (write l off data).length = max l.length (off + data.length) := by
  rw [write, List.length_append, List.length_append, length_gap, List.length_drop]
  omega

private theorem getD_write (l : List Byte) (off : Nat) (data : List Byte) (i : Nat) :
    (write l off data).getD i 0 =
      if off ≤ i ∧ i < off + data.length then data.getD (i - off) 0 else l.getD i 0 := by
  rw [write, getD_append, List.length_append, getD_append, length_gap, getD_take,
    getD_append, getD_zeros, getD_drop]
  by_cases low : i < off
  · have before : ¬ (off ≤ i ∧ i < off + data.length) := by omega
    rw [if_pos (show i < off + data.length by omega), if_pos low, if_neg before]
    by_cases gap : i < l.length
    · rw [if_pos low, if_pos gap]
    · rw [if_pos low, if_neg gap, List.getD_eq_default _ _ (by omega)]
  by_cases high : i < off + data.length
  · rw [if_pos high, if_neg low, if_pos ⟨by omega, high⟩]
  · rw [if_neg high, if_neg fun inside => high inside.2]
    congr 1
    omega

private theorem length_truncate (l : List Byte) (len : Nat) : (truncate l len).length = len := by
  rw [truncate, List.length_append, List.length_take, List.length_replicate]
  omega

private theorem getD_truncate (l : List Byte) (len i : Nat) :
    (truncate l len).getD i 0 = if i < len then l.getD i 0 else 0 := by
  rw [truncate, getD_append, getD_take, getD_zeros, List.length_take]
  by_cases inside : i < len
  · split
    · rfl
    next gap => rw [List.getD_eq_default _ _ (by omega)]
  · split <;> rfl

end Str

/-! ### Operations on one file -/

/-- The largest size that the blocks of an inode allow. -/
def maxSize : Nat := 143 * 512

inductive FileOp where
  | write (t : Transfer)
  | truncate (len : CInt)
  | read (t : Transfer)

def Transfer.data (t : Transfer) : List Byte :=
  (List.range t.resid.toNat).map fun j => t.bytes (t.base + j)

namespace FileOp

def apply (l : List Byte) : FileOp → List Byte
  | write t => Str.write l t.offset.toNat t.data
  | truncate len => Str.truncate l len.toNat
  | read _ => l

/-- The string after operations on an empty one, the last operation first. -/
def after : List FileOp → List Byte
  | [] => []
  | op :: earlier => op.apply (after earlier)

def Proper : FileOp → Prop
  | write t => t.rw = .UIO_WRITE ∧ t.Proper
  | truncate len => len.toNat ≤ maxSize
  | read t => t.rw = .UIO_READ ∧ t.Proper

/-- The operation on the file, if it succeeds. -/
def next (p : Ptr) (s : Volume) : FileOp → Option Volume
  | write t | read t =>
    match (vopRequest p t).run s with
    | .returned (.ok _, _) s' => some s'
    | _ => none
  | truncate len =>
    match (vopTruncate p len).run s with
    | .returned _ s' => some s'
    | _ => none

/-- `sfs_truncate` keeps this block; behind the direct blocks it keeps one too many. -/
def Keeps (len k : Nat) : Prop :=
  if k < 15 then k < (len + 511) / 512 else k ≤ (len + 511) / 512

instance (len k : Nat) : Decidable (Keeps len k) := by
  unfold Keeps
  infer_instance

/-- What a truncation cuts off is zero in the blocks that are kept. A write ends where files may. -/
def Clean (l : List Byte) : FileOp → Prop
  | write t => t.offset.toNat + t.resid.toNat ≤ maxSize
  | truncate len => ∀ i < l.length, len.toNat ≤ i → Keeps len.toNat (i / 512) → l.getD i 0 = 0
  | read _ => True

/-- The same of every operation, the last one first. -/
def AllClean : List FileOp → Prop
  | [] => True
  | op :: earlier => op.Clean (after earlier) ∧ AllClean earlier

end FileOp

/-- A read brings what the string has. -/
def ReadsAs (p : Ptr) (s : Volume) (l : List Byte) : Prop :=
  ∀ t : Transfer, t.rw = .UIO_READ → t.Proper → (∀ i, t.bad i = false) →
    ∃ t' s', (vopRequest p t).run s = .returned (.ok (), t') s' ∧
      t'.resid.toNat = t.resid.toNat - (Str.read l t.offset.toNat t.resid.toNat).length ∧
      ∀ j < (Str.read l t.offset.toNat t.resid.toNat).length,
        t'.bytes (t.base + j) = (Str.read l t.offset.toNat t.resid.toNat).getD j 0

section

variable {v : View} {s : Volume} {p : Ptr} {ino : CUnsigned} {n : Node} {l : List Byte}

/-- The file is the string, and there are zeros behind it. -/
structure Represents (n : Node) (l : List Byte) : Prop where
  size : n.size.toNat = l.length
  small : l.length ≤ maxSize
  bytes : ∀ i, byteAt n.contents i = l.getD i 0

/-- A volume with the file. -/
structure FileIs (p : Ptr) (s : Volume) (l : List Byte) : Prop where
  shown : ∃ v ino n, Shows v s ∧ v.vnode p = some ino ∧ v.files ino = some n ∧
    n.type = SFS_TYPE_FILE ∧ Represents n l

private theorem byteAt_truncated {len : CInt} (small : len.toNat ≤ maxSize) (contents : Nat → Block)
    (i : Nat) :
    byteAt (truncated (blocklen len) contents) i =
      if FileOp.Keeps len.toNat (i / 512) then byteAt contents i else 0 := by
  rw [byteAt, truncated, toNat_blocklen small]
  by_cases direct : i / 512 < 15
  · have keeps : FileOp.Keeps len.toNat (i / 512) ↔ i / 512 < (len.toNat + 511) / 512 := by
      rw [FileOp.Keeps, if_pos direct]
    by_cases kept : i / 512 < (len.toNat + 511) / 512
    · rw [if_neg (by omega), if_pos (keeps.mpr kept)]
      rfl
    · rw [if_pos (by omega), if_neg (mt keeps.mp kept)]
      rfl
  have keeps : FileOp.Keeps len.toNat (i / 512) ↔ i / 512 ≤ (len.toNat + 511) / 512 := by
    rw [FileOp.Keeps, if_neg direct]
  by_cases kept : i / 512 ≤ (len.toNat + 511) / 512
  · rw [if_neg (by omega), if_pos (keeps.mpr kept)]
    rfl
  · rw [if_pos (by omega), if_neg (mt keeps.mp kept)]
    rfl

/-! ### One operation -/

theorem Represents.truncate (file : Represents n l) {len : CInt} (small : len.toNat ≤ maxSize)
    (clean : FileOp.Clean l (.truncate len)) :
    Represents { n with size := len, contents := truncated (blocklen len) n.contents }
      (Str.truncate l len.toNat) := by
  refine ⟨(Str.length_truncate l _).symm, by rw [Str.length_truncate]; exact small, fun i => ?_⟩
  rw [byteAt_truncated small, Str.getD_truncate, file.bytes i]
  by_cases inside : i < len.toNat
  · have kept : FileOp.Keeps len.toNat (i / 512) := by
      rw [FileOp.Keeps]
      split <;> omega
    rw [if_pos kept, if_pos inside]
  rw [if_neg inside]
  by_cases kept : FileOp.Keeps len.toNat (i / 512)
  · rw [if_pos kept]
    by_cases cut : i < l.length
    · exact clean i cut (by omega) kept
    · exact List.getD_eq_default _ _ (by omega)
  · rw [if_neg kept]

private theorem getD_data (t : Transfer) {j : Nat} (small : j < t.resid.toNat) :
    t.data.getD j 0 = t.bytes (t.base + j) := by
  rw [Transfer.data, List.getD_eq_getElem?_getD, List.getElem?_map, List.getElem?_range small]
  rfl

theorem Represents.write (file : Represents n l) {t t' : Transfer} {contents' : Nat → Block}
    (clean : FileOp.Clean l (.write t)) (wrote : Wrote n.contents t contents' t')
    (finished : t'.resid.toNat = 0) :
    Represents { n with size := newSize n.size t'.offset, contents := contents' }
      (Str.write l t.offset.toNat t.data) := by
  have clean : t.offset.toNat + t.resid.toNat ≤ maxSize := clean
  have large := file.small
  have length : t.data.length = t.resid.toNat := by
    rw [Transfer.data, List.length_map, List.length_range]
  obtain ⟨m, part, rfl, bytes⟩ := wrote
  rw [maxSize] at clean large
  -- all bytes have been written
  have all : m = t.resid.toNat := by
    have rest : (t.resid - BitVec.ofNat 32 m).toNat = t.resid.toNat - m := by
      rw [BitVec.toNat_sub_of_le (by rw [BitVec.le_def, BitVec.toNat_ofNat]; omega),
        BitVec.toNat_ofNat]
      omega
    have finished : (t.resid - BitVec.ofNat 32 m).toNat = 0 := finished
    omega
  subst all
  have offset : (t.offset + BitVec.ofNat 32 t.resid.toNat).toNat =
      t.offset.toNat + t.resid.toNat := by
    rw [BitVec.toNat_add, BitVec.toNat_ofNat]
    omega
  constructor
  · have before := file.size
    change (newSize n.size (t.offset + BitVec.ofNat 32 t.resid.toNat)).toNat = _
    rw [Str.length_write, toNat_newSize (by omega) (by omega)]
    omega
  · rw [Str.length_write, maxSize]
    omega
  intro i
  rw [bytes i, Str.getD_write, length, file.bytes i]
  split
  next inside => rw [getD_data t (by omega)]
  next => rfl

variable {H : Halt → Prop} {E : Errno → Volume → Prop}

theorem FileIs.truncate (holds : FileIs p s l) {len : CInt} (small : len.toNat ≤ maxSize)
    (clean : FileOp.Clean l (.truncate len)) :
    (vopTruncate p len).Ensures H s (fun _ s' => FileIs p s' (Str.truncate l len.toNat)) E := by
  obtain ⟨v, ino, n, shows, here, node, type, file⟩ := holds
  refine shows.vopTruncate here node type len fun t sv _ after _ => ?_
  exact ⟨_, ino, _, after, here, Function.update_self .., type, file.truncate small clean⟩

theorem FileIs.write (holds : FileIs p s l) {t : Transfer} (write : t.rw = .UIO_WRITE)
    (proper : t.Proper) (clean : FileOp.Clean l (.write t))
    :
    (vopRequest p t).Ensures H s (fun r s' => r.1 = .ok () →
      FileIs p s' (Str.write l t.offset.toNat t.data)) E := by
  obtain ⟨v, ino, n, shows, here, node, type, file⟩ := holds
  rw [vopRequest, shows.vop_file here node type]
  refine (shows.request_write here node write (.inr proper)).mono ?_ fun _ _ => id
  rintro ⟨result, t'⟩ s' ⟨contents', ⟨wrote, ⟨-, finished⟩ | ⟨e, wrong, -⟩⟩, after⟩ success
  · exact ⟨_, ino, _, after, here, Function.update_self .., type,
      file.write clean (wrote proper) (finished proper)⟩
  · exact nomatch wrong.symm.trans success

theorem FileIs.read (holds : FileIs p s l) {t : Transfer} (read : t.rw = .UIO_READ)
    (proper : t.Proper) :
    (vopRequest p t).Ensures H s (fun r s' => FileIs p s' l ∧
      ((r.1 = .ok () ∧ r.2 = (t.receive (min t.resid.toNat (l.length - t.offset.toNat))
          fun j => l.getD (t.offset.toNat + j) 0).advance
            (BitVec.ofNat 32 (min t.resid.toNat (l.length - t.offset.toNat)))) ∨
        ∃ i, t.bad i = true)) E := by
  obtain ⟨v, ino, n, shows, here, node, type, file⟩ := holds
  have size := file.size
  have small := file.small
  rw [maxSize] at small
  rw [vopRequest, shows.vop_file here node type]
  refine (shows.request_read here node read (.inr ⟨proper, by omega⟩)).mono ?_ fun _ _ => id
  rintro ⟨result, t'⟩ s' ⟨ended, after⟩
  refine ⟨⟨v, ino, n, after, here, node, type, file⟩, ?_⟩
  rcases ended with ⟨success, brought⟩ | ⟨e, wrong, ⟨rfl, large⟩ | ⟨rfl, bad⟩⟩
  · refine .inl ⟨success, (brought proper (by omega)).trans ?_⟩
    rw [readable, size]
    simp [file.bytes]
  · have := large proper (by omega)
    omega
  · exact .inr bad

private theorem length_read (l : List Byte) (off n : Nat) :
    (Str.read l off n).length = min n (l.length - off) := by
  rw [Str.read, List.length_take, List.length_drop]

theorem FileIs.readsAs (holds : FileIs p s l) : ReadsAs p s l := by
  intro t read proper fine
  have done := holds.read (H := fun _ => False) (E := fun _ _ => False) read proper
  cases ran : (vopRequest p t).run s with
  | returned r s' =>
    obtain ⟨-, ⟨success, result⟩ | ⟨i, bad⟩⟩ := done.returned ran
    · obtain ⟨outcome, t'⟩ := r
      obtain rfl : outcome = .ok () := success
      obtain rfl : t' = _ := result
      refine ⟨_, s', rfl, ?_, fun j small => ?_⟩
      · rw [length_read]
        change (t.resid - BitVec.ofNat 32 (min t.resid.toNat (l.length - t.offset.toNat))).toNat = _
        rw [BitVec.toNat_sub_of_le (by rw [BitVec.le_def, BitVec.toNat_ofNat]; omega),
          BitVec.toNat_ofNat]
        omega
      rw [length_read] at small
      change (if t.base ≤ t.base + j ∧ t.base + j < t.base + _ then _ else _) = _
      rw [if_pos ⟨by omega, by omega⟩, Nat.add_sub_cancel_left, Str.read, Str.getD_take,
        if_pos (by omega), Str.getD_drop]
    · exact nomatch (fine i).symm.trans bad
  | failed e s' => exact (done.failed ran).elim
  | halted h => exact (done.halted ran).elim
  | blocked => exact absurd ran done.not_blocked

theorem FileIs.step (holds : FileIs p s l) {op : FileOp} (proper : op.Proper) (clean : op.Clean l)
    {s' : Volume} (stepped : FileOp.next p s op = some s') : FileIs p s' (op.apply l) := by
  cases op with
  | write t =>
    have done := holds.write (H := fun _ => False) (E := fun _ _ => False) proper.1 proper.2 clean
    rw [FileOp.next] at stepped
    split at stepped
    next r t' u ran =>
      cases stepped
      exact done.returned ran rfl
    next => cases stepped
  | read t =>
    have done := holds.read (H := fun _ => False) (E := fun _ _ => False) proper.1 proper.2
    rw [FileOp.next] at stepped
    split at stepped
    next r t' u ran =>
      cases stepped
      exact (done.returned ran).1
    next => cases stepped
  | truncate len =>
    have done := holds.truncate (H := fun _ => False) (E := fun _ _ => False) proper clean
    rw [FileOp.next] at stepped
    split at stepped
    next r u ran =>
      cases stepped
      exact done.returned ran
    next => cases stepped

end

/-! ### Runs -/

/-- A file that has just been made is empty. -/
theorem Session.Good.fileIs_creat {w : Session} {v : View} (good : w.Good v) {dir p : Ptr}
    (held : 0 < w.held dir) {name : Name} {s : Volume}
    (made : (vopCreat dir name true).run w.volume = .returned p s) : FileIs p s [] := by
  have done : (vopCreat dir name true).Ensures (fun _ => True) w.volume (fun p t => FileIs p t [])
      (fun _ _ => True) := by
    refine good.dirop held (fun root => ?_) trivial
    refine (good.shows.sfsCreat root good.sound name true).mono ?_ fun _ _ _ => trivial
    rintro p t ⟨A', ino, -, after, -, ⟨-, wrong, -⟩ | ⟨-, -, -, -, l, blank⟩⟩
    · cases wrong
    · refine ⟨_, ino, _, after, Function.update_self .., blank, rfl, rfl, Nat.zero_le _,
        fun i => rfl⟩
  exact done.returned made

/-- A file that `sfs_creat` has made, and operations on it that are all clean: what can be read is
what they make of a string. -/
theorem Session.file_bytes {w₀ w : Session} {device : Device} {memory : Nat → Bool}
    (starts : w₀.Starts device memory) (reliable : ∀ n, device.outcome n = .ok)
    {requests : List (Session × Request)} (run : Run (Computes Session.next) w₀ requests w)
    {dir p : Ptr} (held : 0 < w.held dir) {name : Name} {s₀ s : Volume}
    (made : (vopCreat dir name true).run w.volume = .returned p s₀)
    {history : List (Volume × FileOp)} (ops : Run (Computes (FileOp.next p)) s₀ history s)
    (proper : ∀ taken ∈ history, taken.2.Proper) (clean : FileOp.AllClean (history.map Prod.snd)) :
    ReadsAs p s (FileOp.after (history.map Prod.snd)) := by
  obtain ⟨disk, fresh⟩ := starts.good reliable
  obtain ⟨v, good, -⟩ := fresh.run run
  have start := good.fileIs_creat held made
  suffices holds : FileIs p s (FileOp.after (history.map Prod.snd)) from holds.readsAs
  induction ops with
  | start => exact start
  | next _ taken ih =>
    have before := ih (fun taken member => proper taken (List.mem_cons_of_mem _ member)) clean.2
    exact before.step (proper _ (List.mem_cons_self ..)) clean.1 taken

/-! ### Two bytes -/

/-- A file system is made, a file in it, and operations are tried on the file. -/
def tryOps (device : Device) (ops : List FileOp) (check : Volume → Bool) : Option Bool :=
  (Session.mkfs (4096 * 512) ⟨[0x76], by decide⟩ (fun _ => Block.zero) device fun _ => true).bind
    fun w₀ => (execute Session.next w₀ [.getroot]).bind fun w =>
      match (vopCreat 0 Session.letterA true).run w.volume with
      | .returned 1 s₀ =>
        if 0 < w.held 0 then (execute (FileOp.next 1) s₀ ops).map check else none
      | _ => none

theorem exists_tryOps (device : Device) (blocks : device.blocks = diskblocks (4096 * 512))
    (ops : List FileOp) (check : Volume → Bool) (passed : tryOps device ops check = some true) :
    ∃ w₀ w requests s₀ history s, Session.Starts w₀ device (fun _ => true) ∧
      Run (Computes Session.next) w₀ requests w ∧ 0 < w.held 0 ∧
      (vopCreat 0 Session.letterA true).run w.volume = .returned 1 s₀ ∧
      Run (Computes (FileOp.next 1)) s₀ history s ∧ history.map Prod.snd = ops.reverse ∧
      check s = true := by
  obtain ⟨w₀, formatted, tried⟩ := Option.bind_eq_some_iff.mp passed
  obtain ⟨w, reached, tried⟩ := Option.bind_eq_some_iff.mp tried
  obtain ⟨requests, run, -⟩ := Run.of_execute reached
  split at tried
  next s₀ made =>
    obtain ⟨held, tried⟩ := Option.ite_none_right_eq_some.mp tried
    obtain ⟨s, done, holds⟩ := Option.map_eq_some_iff.mp tried
    obtain ⟨history, ops, same⟩ := Run.of_execute done
    exact ⟨w₀, w, requests, s₀, history, s, .of_mkfs (by decide) blocks formatted, run, held, made,
      ops, same, holds⟩
  next => cases tried

def twoBytes (rw : Io.UioRw) : Transfer :=
  ⟨fun i => if i = 0 then 1 else 2, fun _ => false, 0, 2, 0, 2, rw⟩

theorem proper_twoBytes (rw : Io.UioRw) : (twoBytes rw).Proper := by
  cases rw <;> exact ⟨by decide, by decide⟩

/-- The file is cut to nothing before it is extended. -/
theorem Session.file_bytes_emptied :
    ∃ w₀ w requests s₀ history s, Session.Starts w₀ steady (fun _ => true) ∧
      Run (Computes Session.next) w₀ requests w ∧
      (vopCreat 0 Session.letterA true).run w.volume = .returned 1 s₀ ∧
      Run (Computes (FileOp.next 1)) s₀ history s ∧
      history.map Prod.snd = [.truncate 2, .truncate 0, .write (twoBytes .UIO_WRITE)] ∧
      ReadsAs 1 s [0, 0] := by
  obtain ⟨w₀, w, requests, s₀, history, s, starts, run, held, made, ops, same, -⟩ :=
    exists_tryOps steady rfl [.write (twoBytes .UIO_WRITE), .truncate 0, .truncate 2]
      (fun _ => true) (by decide +kernel)
  refine ⟨w₀, w, requests, s₀, history, s, starts, run, made, ops, same, ?_⟩
  have proper : ∀ taken ∈ history, taken.2.Proper := by
    intro taken member
    have listed : taken.2 ∈ history.map Prod.snd := List.mem_map_of_mem member
    rw [same] at listed
    simp only [List.reverse_cons, List.reverse_nil, List.nil_append, List.cons_append,
      List.mem_cons, List.not_mem_nil, or_false] at listed
    rcases listed with here | here | here <;> rw [here]
    · exact (by decide : (2 : CInt).toNat ≤ maxSize)
    · exact (by decide : (0 : CInt).toNat ≤ maxSize)
    · exact ⟨rfl, proper_twoBytes _⟩
  have clean : FileOp.AllClean (history.map Prod.snd) := by
    rw [same]
    refine ⟨nofun, ?_, (by decide : 0 + 2 ≤ maxSize), trivial⟩
    exact fun i small _ kept => absurd kept (by revert i; decide)
  have reads := file_bytes starts (fun _ => rfl) run held made ops proper clean
  rw [same] at reads
  exact reads

/-- A read brings the second byte. -/
def bringsTwo (s : Volume) : Bool :=
  match (vopRequest 1 (twoBytes .UIO_READ)).run s with
  | .returned (_, t') _ => t'.bytes 1 = 2
  | _ => false

/-- One byte is cut off, and is there again after the file has been extended. -/
theorem Session.file_bytes_stale :
    ∃ w₀ w requests s₀ history s, Session.Starts w₀ steady (fun _ => true) ∧
      Run (Computes Session.next) w₀ requests w ∧
      (vopCreat 0 Session.letterA true).run w.volume = .returned 1 s₀ ∧
      Run (Computes (FileOp.next 1)) s₀ history s ∧
      history.map Prod.snd = [.truncate 2, .truncate 1, .write (twoBytes .UIO_WRITE)] ∧
      ¬ ReadsAs 1 s (FileOp.after (history.map Prod.snd)) := by
  obtain ⟨w₀, w, requests, s₀, history, s, starts, run, held, made, ops, same, stale⟩ :=
    exists_tryOps steady rfl [.write (twoBytes .UIO_WRITE), .truncate 1, .truncate 2] bringsTwo
      (by decide +kernel)
  refine ⟨w₀, w, requests, s₀, history, s, starts, run, made, ops, same, fun right => ?_⟩
  rw [same] at right
  obtain ⟨t', s', ran, -, bytes⟩ := right (twoBytes .UIO_READ) rfl (proper_twoBytes _) fun _ => rfl
  have zero : t'.bytes 1 = 0 := bytes 1 (by decide)
  rw [bringsTwo, ran] at stale
  have two : t'.bytes 1 = 2 := by simpa using stale
  exact absurd (zero.symm.trans two) (by decide)

end Os161.Sfs
