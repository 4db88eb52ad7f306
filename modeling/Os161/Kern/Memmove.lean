import Mathlib.Data.List.Range
import Os161.Foundation.Memory
import Os161.Kern.Base

/-!
# Copying memory, `lib/libc/memmove.c` and `memcpy.c`

Both copy by words where the pointers and the length allow it, and `memmove` chooses the
direction in which it does not run into what it has stored.
-/
namespace Os161.Libc

open Foundation

abbrev sizeofLong : Nat := 4

section

variable (size : Nat) (dst src : Address)

/-- `d[i] = s[i]` with elements of this size. -/
def copyElement (m : Memory 32) (i : Nat) : Memory 32 :=
  m.copy (dst + BitVec.ofNat 32 (size * i)) (src + BitVec.ofNat 32 (size * i)) size

/-- For `i` from 0 up to `count`. -/
def copyForwards (count : Nat) (m : Memory 32) : Memory 32 :=
  (List.range count).foldl (copyElement size dst src) m

/-- For `i` from `count` down, element `i - 1`. -/
def copyBackwards (count : Nat) (m : Memory 32) : Memory 32 :=
  (List.range count).foldr (fun i m => copyElement size dst src m i) m

end

def WordAligned (dst src : Address) (len : CUnsigned) : Prop :=
  dst.toNat % sizeofLong = 0 ∧ src.toNat % sizeofLong = 0 ∧ len.toNat % sizeofLong = 0

instance (dst src : Address) (len : CUnsigned) : Decidable (WordAligned dst src len) :=
  inferInstanceAs (Decidable (_ ∧ _ ∧ _))

def memcpy (m : Memory 32) (dst src : Address) (len : CUnsigned) : Memory 32 :=
  if WordAligned dst src len then copyForwards sizeofLong dst src (len.toNat / sizeofLong) m
  else copyForwards 1 dst src len.toNat m

def memmove (m : Memory 32) (dst src : Address) (len : CUnsigned) : Memory 32 :=
  if dst < src then memcpy m dst src len
  else if WordAligned dst src len then
    copyBackwards sizeofLong dst src (len.toNat / sizeofLong) m
  else copyBackwards 1 dst src len.toNat m

/-! ### What they do -/

variable {size count : Nat} {m : Memory 32} {dst src : Address} {len : CUnsigned}

private theorem copyForwards_eq (above : dst.toNat ≤ src.toNat)
    (room : src.toNat + size * count ≤ 2 ^ 32) :
    copyForwards size dst src count m = m.copy dst src (size * count) := by
  unfold copyForwards
  induction count with
  | zero => exact Memory.copy_zero.symm
  | succ count ih =>
    rw [Nat.mul_succ] at room ⊢
    rw [List.range_succ, List.foldl_append, ih (by omega)]
    exact Memory.copy_next above room

private theorem copyBackwards_eq (below : src.toNat ≤ dst.toNat)
    (room : dst.toNat + size * count ≤ 2 ^ 32) :
    copyBackwards size dst src count m = m.copy dst src (size * count) := by
  unfold copyBackwards
  induction count generalizing m with
  | zero => exact Memory.copy_zero.symm
  | succ count ih =>
    rw [Nat.mul_succ] at room ⊢
    rw [List.range_succ, List.foldr_append, ih (by omega)]
    exact Memory.copy_previous below room

/-- Words or bytes, the length is the same. -/
theorem WordAligned.length (aligned : WordAligned dst src len) :
    sizeofLong * (len.toNat / sizeofLong) = len.toNat :=
  Nat.mul_div_cancel' (Nat.dvd_of_mod_eq_zero aligned.2.2)

private theorem memcpy_eq (above : dst.toNat ≤ src.toNat) (room : src.toNat + len.toNat ≤ 2 ^ 32) :
    memcpy m dst src len = m.copy dst src len.toNat := by
  unfold memcpy
  split
  next aligned => rw [copyForwards_eq above (by rwa [aligned.length]), aligned.length]
  next => rw [copyForwards_eq above (by omega), Nat.one_mul]

theorem memmove_eq (dstRoom : dst.toNat + len.toNat ≤ 2 ^ 32)
    (srcRoom : src.toNat + len.toNat ≤ 2 ^ 32) :
    memmove m dst src len = m.copy dst src len.toNat := by
  unfold memmove
  split
  next above => exact memcpy_eq (Nat.le_of_lt above) srcRoom
  next not =>
    have below : src.toNat ≤ dst.toNat := Nat.le_of_not_lt not
    split
    next aligned => rw [copyBackwards_eq below (by rwa [aligned.length]), aligned.length]
    next => rw [copyBackwards_eq below (by omega), Nat.one_mul]

/-- Whatever the overlap and the alignment: what was at the source is at the destination, and
nothing else has changed. -/
theorem memmove_moves (dstRoom : dst.toNat + len.toNat ≤ 2 ^ 32)
    (srcRoom : src.toNat + len.toNat ≤ 2 ^ 32) :
    (∀ i < len.toNat,
      memmove m dst src len (dst + BitVec.ofNat 32 i) = m (src + BitVec.ofNat 32 i)) ∧
    ∀ a, (∀ i < len.toNat, a ≠ dst + BitVec.ofNat 32 i) → memmove m dst src len a = m a := by
  rw [memmove_eq dstRoom srcRoom]
  constructor
  · intro i inside
    rw [Memory.copy_offset (by omega), if_pos inside]
  · exact fun a => Memory.copy_of_ne

/-- Two bytes up, by bytes and from the back. -/
theorem memmove_moves_up :
    memmove (BitVec.setWidth 8) 2 0 5 (2 + BitVec.ofNat 32 3) =
      BitVec.setWidth 8 (0 + BitVec.ofNat 32 3) :=
  (memmove_moves (by decide) (by decide)).1 3 (by decide)

end Os161.Libc
