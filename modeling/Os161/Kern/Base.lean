import Mathlib.Algebra.Group.Int.Defs
import Mathlib.Algebra.Group.Nat.Defs
import Mathlib.Data.Nat.Basic
import Mathlib.Logic.Function.Basic

/-!
# Values and failures shared by the kernel modules

A pointer is never handed out twice, so a dangling pointer stays recognisable:
dereferencing it is a fault of its own.
-/
namespace Os161

/-- Address of a heap object. -/
abbrev Ptr := Nat

/-- What an address holds after one object has been stored. -/
theorem update_some_eq_some {β : Type} {heap : Ptr → Option β} {p q : Ptr} {new b : β} :
    Function.update heap p (some new) q = some b ↔
      (q = p ∧ b = new) ∨ (q ≠ p ∧ heap q = some b) := by
  by_cases here : q = p
  · simp [here, eq_comm]
  · simp [here]

theorem bind_eq_ok {ε α β : Type} {x : Except ε α} {f : α → Except ε β} {b : β}
    (done : x >>= f = .ok b) : ∃ a, x = .ok a ∧ f a = .ok b := by
  cases x with
  | error e => cases done
  | ok a => exact ⟨a, rfl, done⟩

/-! Threads and array elements are often named by numerals of a small finite type. -/

instance finNumeral {n k : Nat} : OfNat (Fin (n + 1)) k := ⟨Fin.ofNat (n + 1) k⟩

/-- A C `int`: 32 bits, wrapping. -/
abbrev CInt := BitVec 32

/-- A C `unsigned`, and so `size_t` and `u_int32_t`. -/
abbrev CUnsigned := BitVec 32

theorem toNat_lt_of_nonneg {x : CInt} (nonneg : 0 ≤ x.toInt) : x.toNat < 2 ^ 31 := by
  have low := mt BitVec.toInt_neg_iff.mpr (Int.not_lt.mpr nonneg)
  omega

section

variable {x y : CInt} (small : x.toNat < 2 ^ 31) (small' : y.toNat < 2 ^ 31)

include small small'

/-- Signed comparisons of numbers that are not negative. -/
theorem slt_iff : x.slt y = true ↔ x.toNat < y.toNat := by
  rw [BitVec.slt_iff_toInt_lt, BitVec.toInt_eq_toNat_of_lt (by omega),
    BitVec.toInt_eq_toNat_of_lt (by omega)]
  exact Int.ofNat_lt

theorem sle_iff : x.sle y = true ↔ x.toNat ≤ y.toNat := by
  rw [BitVec.sle_iff_toInt_le, BitVec.toInt_eq_toNat_of_lt (by omega),
    BitVec.toInt_eq_toNat_of_lt (by omega)]
  exact Int.ofNat_le

/-- Their signed division. -/
theorem toNat_sdiv_of_small : (x.sdiv y).toNat = x.toNat / y.toNat := by
  have sign : x.msb = false := BitVec.msb_eq_false_iff_two_mul_lt.mpr (by omega)
  have sign' : y.msb = false := BitVec.msb_eq_false_iff_two_mul_lt.mpr (by omega)
  simp [BitVec.sdiv_eq, sign, sign']

theorem toNat_srem_of_small : (x.srem y).toNat = x.toNat % y.toNat := by
  have sign : x.msb = false := BitVec.msb_eq_false_iff_two_mul_lt.mpr (by omega)
  have sign' : y.msb = false := BitVec.msb_eq_false_iff_two_mul_lt.mpr (by omega)
  simp [BitVec.srem_eq, sign, sign']

end

abbrev Address := BitVec 32

/-- The codes of `kern/errno.h` that the modelled functions return; `success` is 0, `EIo` is
`EIO`. -/
inductive Errno where
  | success
  | EINVAL
  | EFAULT
  | ENAMETOOLONG
  | ENOMEM
  | EIo
  | ENOENT
  | ENOTDIR
  | EISDIR
  | EEXIST
  | EXDEV
  | EAGAIN
  | EUNIMP
  | ENxIo
  | ENODEV
  | EBUSY
  | ENOSPC
  | ENOEXEC
  deriving DecidableEq, Repr

/-- The ways in which kernel code stops. It never returns from any of them. -/
inductive Fault where
  | panic
  | assertion
  | nullDereference
  | useAfterFree
  deriving DecidableEq, Repr

/-- What a call that may have to grow a buffer returns. `asked` records whether it
called `kmalloc` at all. -/
structure Grown (σ : Type) where
  result : Errno
  state : σ
  asked : Bool

end Os161
