import Os161.Kern.Memmove

/-!
# Requests for I/O, `userprog/uio.c`

A `uio` says where the data of a request is and how much of it is left to transfer; every
transfer takes its share off.
-/
namespace Os161.Io

open Foundation Libc

inductive UioRw where
  | UIO_READ
  | UIO_WRITE
  deriving DecidableEq

inductive UioSeg where
  | UIO_USERSPACE
  | UIO_SYSSPACE
  | UIO_USERISPACE
  deriving DecidableEq

structure Uio where
  /-- `iov_kbase` or `iov_ubase`. -/
  base : Address
  len : CUnsigned
  offset : CInt
  resid : CUnsigned
  segflg : UioSeg
  rw : UioRw
  /-- `none` is `NULL`. -/
  space : Option Ptr

/-- What `uiomove` uses of the current thread: its address space, and how to reach it. Copies
to and from it can fail. -/
structure Curthread where
  vmspace : Option Ptr
  copyin : Memory 32 → (usersrc dest : Address) → (len : CUnsigned) → Errno × Memory 32
  copyout : Memory 32 → (src userdest : Address) → (len : CUnsigned) → Errno × Memory 32

/-! ### `uiomove` -/

def copyPiece (cur : Curthread) (m : Memory 32) (ptr : Address) (size : CUnsigned) (uio : Uio) :
    Errno × Memory 32 :=
  match uio.segflg, uio.rw with
  | .UIO_SYSSPACE, .UIO_READ => (.success, memmove m uio.base ptr size)
  | .UIO_SYSSPACE, .UIO_WRITE => (.success, memmove m ptr uio.base size)
  | _, .UIO_READ => cur.copyout m ptr uio.base size
  | _, .UIO_WRITE => cur.copyin m uio.base ptr size

def Uio.advance (uio : Uio) (size : CUnsigned) : Uio :=
  { uio with
    base := uio.base + size
    len := uio.len - size
    resid := uio.resid - size
    offset := uio.offset + size }

private theorem sub_lt_of_ne_zero {n size : CUnsigned} (small : size ≤ n) (some : size ≠ 0) :
    (n - size).toNat < n.toNat := by
  bv_omega

/-- The loop of `uiomove`; `size` is not compared with `uio_resid`. -/
def moveLoop (cur : Curthread) (m : Memory 32) (ptr : Address) (n : CUnsigned) (uio : Uio) :
    Except Fault (Errno × Uio × Memory 32) :=
  if 0 < n ∧ 0 < uio.resid then
    let size := if n < uio.len then n else uio.len
    if _ : size = 0 then .error .panic
    else
      let (result, m) := copyPiece cur m ptr size uio
      if result ≠ .success then .ok (result, uio, m)
      else moveLoop cur m (ptr + size) (n - size) (uio.advance size)
  else .ok (.success, uio, m)
termination_by n.toNat
decreasing_by exact sub_lt_of_ne_zero (by split <;> bv_omega) ‹_›

def uiomove (cur : Curthread) (m : Memory 32) (ptr : Address) (n : CUnsigned) (uio : Uio) :
    Except Fault (Errno × Uio × Memory 32) :=
  if uio.space = (if uio.segflg = .UIO_SYSSPACE then none else cur.vmspace) then
    moveLoop cur m ptr n uio
  else .error .assertion

def mkKuio (kbuf : Address) (len : CUnsigned) (pos : CInt) (rw : UioRw) : Uio where
  base := kbuf
  len := len
  offset := pos
  resid := len
  segflg := .UIO_SYSSPACE
  rw := rw
  space := none

/-! ### Kernel buffers -/

section

variable {cur : Curthread} {m : Memory 32} {ptr : Address} {n : CUnsigned} {uio : Uio}

private theorem moveLoop_nothing (nothing : n = 0 ∨ uio.resid = 0) :
    moveLoop cur m ptr n uio = .ok (.success, uio, m) := by
  rw [moveLoop, if_neg]
  rintro ⟨more, left⟩
  rcases nothing with rfl | none
  · exact absurd more (by decide)
  · rw [none] at left
    exact absurd left (by decide)

theorem copyPiece_read (sys : uio.segflg = .UIO_SYSSPACE) (reads : uio.rw = .UIO_READ) :
    copyPiece cur m ptr n uio = (.success, memmove m uio.base ptr n) := by
  unfold copyPiece
  rw [sys, reads]

theorem copyPiece_write (sys : uio.segflg = .UIO_SYSSPACE) (writes : uio.rw = .UIO_WRITE) :
    copyPiece cur m ptr n uio = (.success, memmove m ptr uio.base n) := by
  unfold copyPiece
  rw [sys, writes]

/-- A transfer that the buffer has room for is done in one pass. -/
theorem uiomove_sys (sys : uio.segflg = .UIO_SYSSPACE) (space : uio.space = none) (pos : 0 < n)
    (room : n ≤ uio.len) (left : 0 < uio.resid) :
    uiomove cur m ptr n uio =
      .ok (.success, uio.advance n, (copyPiece cur m ptr n uio).2) := by
  have size : (if n < uio.len then n else uio.len) = n := by
    split
    next => rfl
    next full => bv_omega
  have copied : (copyPiece cur m ptr n uio).1 = .success := by
    cases direction : uio.rw with
    | UIO_READ => rw [copyPiece_read sys direction]
    | UIO_WRITE => rw [copyPiece_write sys direction]
  rw [uiomove, if_pos (by rw [sys, space]; rfl), moveLoop, if_pos ⟨pos, left⟩]
  simp only [size, copied, ne_eq, not_true_eq_false, if_false]
  rw [dif_neg (by bv_omega), moveLoop_nothing (.inl (BitVec.sub_self n))]

end

end Os161.Io
