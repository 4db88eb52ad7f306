import Os161.Kern.Memmove
import Os161.Vm.Ram

/-!
# Copies to and from user space, `lib/copyinout.c`

`copycheck` looks at the range before anything is copied; a fault of the copy itself is caught by
`pcb_badfaultfunc`. The last address of an empty range is the one in front of it, so `copycheck`
takes such a range for one that wraps around or reaches into the kernel.
-/
namespace Os161.Vm

open Foundation Libc

def USERTOP : Address := MIPS_KSEG0

/-- `&p[i]`. -/
abbrev nth (p : Address) (i : Nat) : Address := p + BitVec.ofNat 32 i

/-- The result and `*stoplen`. -/
def copycheck (userptr : Address) (len : CUnsigned) : Errno × CUnsigned :=
  let bot := userptr
  let top := bot + len - 1
  if top < bot then (.EFAULT, len)
  else if USERTOP ≤ bot then (.EFAULT, len)
  else if USERTOP ≤ top then (.success, USERTOP - bot)
  else (.success, len)

/-- The memory, and whether `pcb_badfaultfunc` is set. -/
structure Reach where
  mem : Memory 32
  badfaultfunc : Bool

section

/-! `bad` are the addresses where an access faults. -/

variable (bad : Address → Bool)

/-- `memcpy` between `setjmp` and the end of the call, up to the first element that faults. -/
def guardedMemcpy (dst src : Address) (len : CUnsigned) (s : Reach) : Errno × Reach :=
  let size := if WordAligned dst src len then sizeofLong else 1
  let faults (i : Nat) := (List.range size).any fun j =>
    bad (nth dst (size * i + j)) || bad (nth src (size * i + j))
  let done := ((List.range (len.toNat / size)).takeWhile fun i => !faults i).length
  (if done < len.toNat / size then .EFAULT else .success,
    ⟨copyForwards size dst src done s.mem, false⟩)

/-- `copyin` and `copyout`; a single block cannot be truncated. -/
def copyBlock (userptr dst src : Address) (len : CUnsigned) (s : Reach) : Errno × Reach :=
  let (result, stoplen) := copycheck userptr len
  if result ≠ .success then (result, s)
  else if stoplen ≠ len then (.EFAULT, s)
  else guardedMemcpy bad dst src len s

def copyin (usersrc dest : Address) := copyBlock bad usersrc dest usersrc

def copyout (src userdest : Address) := copyBlock bad userdest userdest src

/-- The loop of `copystr` with `left` passes to go: a fault, the index of the NUL, or neither. -/
def copystrLoop (dest src : Address) :
    (left i : Nat) → Memory 32 → Except Unit (Option Nat) × Memory 32
  | 0, _, m => (.ok none, m)
  | left + 1, i, m =>
    if bad (nth dest i) = true ∨ bad (nth src i) = true then (.error (), m)
    else
      let m := Function.update m (nth dest i) (m (nth src i))
      if m (nth src i) = 0 then (.ok (some i), m) else copystrLoop dest src left (i + 1) m

/-- `copyinstr` and `copyoutstr` with `copystr`; the second result is `*actual`, if it is set. -/
def copyString (userptr dest src : Address) (len : CUnsigned) (s : Reach) :
    Errno × Option CUnsigned × Reach :=
  let (result, stoplen) := copycheck userptr len
  if result ≠ .success then (result, none, s)
  else
    match copystrLoop bad dest src (min len.toNat stoplen.toNat) 0 s.mem with
    | (.error _, m) => (.EFAULT, none, ⟨m, false⟩)
    | (.ok (some i), m) => (.success, some (BitVec.ofNat 32 (i + 1)), ⟨m, false⟩)
    | (.ok none, m) =>
      (if stoplen < len then .EFAULT else .ENAMETOOLONG, none, ⟨m, false⟩)

def copyinstr (usersrc dest : Address) := copyString bad usersrc dest usersrc

def copyoutstr (src userdest : Address) := copyString bad userdest userdest src

end

/-! ### The range -/

/-- The bytes of the range from `p` on that are in user space. -/
def userLength (p : Address) (len : CUnsigned) : Nat := min len.toNat (USERTOP.toNat - p.toNat)

section

variable {p : Address} {len : CUnsigned}

private theorem copycheck_wraps (wraps : 2 ^ 32 < p.toNat + len.toNat) :
    copycheck p len = (.EFAULT, len) := by
  have top : p + len - 1 < p := by bv_omega
  exact if_pos top

private theorem copycheck_kernel (kernel : USERTOP ≤ p) : copycheck p len = (.EFAULT, len) := by
  unfold copycheck
  dsimp only
  rw [if_pos kernel, ite_self]

variable (some : 0 < len.toNat)

include some

theorem copycheck_inside (fits : p.toNat + len.toNat ≤ 2 ^ 32) (user : p < USERTOP) :
    ∃ stoplen, copycheck p len = (.success, stoplen) ∧ stoplen.toNat = userLength p len := by
  have top : (p + len - 1).toNat = p.toNat + len.toNat - 1 := by bv_omega
  have straight : ¬ p + len - 1 < p := by
    rw [BitVec.lt_def]
    omega
  unfold copycheck userLength
  rw [if_neg straight, if_neg (BitVec.not_le.mpr user)]
  split
  next reaches =>
    rw [BitVec.le_def] at reaches
    refine ⟨_, rfl, ?_⟩
    rw [BitVec.toNat_sub_of_le (BitVec.le_of_lt user)]
    omega
  next ends =>
    rw [BitVec.le_def] at ends
    exact ⟨_, rfl, by omega⟩

end

/-- The range passes exactly if it starts in user space and does not wrap around, `*stoplen` is
what is left of user space, and `copyin` and `copyout` go on to the copy if that is all of it. -/
structure Confined (p : Address) (len : CUnsigned) : Prop where
  passes : (copycheck p len).1 = .success ↔ p < USERTOP ∧ p.toNat + len.toNat ≤ 2 ^ 32
  stoplen : (copycheck p len).1 = .success → (copycheck p len).2.toNat = userLength p len
  copies : p < USERTOP → p.toNat + len.toNat ≤ USERTOP.toNat → ∀ bad buf s,
    copyin bad p buf len s = guardedMemcpy bad buf p len s ∧
    copyout bad buf p len s = guardedMemcpy bad p buf len s

private theorem confined_kernel {p : Address} {len : CUnsigned} (kernel : USERTOP ≤ p) :
    Confined p len := by
  have outside : ¬ p < USERTOP := BitVec.not_lt.mpr kernel
  have refused : copycheck p len = (.EFAULT, len) := copycheck_kernel kernel
  refine ⟨⟨fun passed => ?_, fun both => absurd both.1 outside⟩, fun passed => ?_,
    fun user => absurd user outside⟩ <;>
  · rw [refused] at passed
    cases passed

private theorem confined_user {p : Address} {len : CUnsigned} (some : 0 < len.toNat)
    (user : p < USERTOP) : Confined p len := by
  by_cases fits : p.toNat + len.toNat ≤ 2 ^ 32
  case neg =>
    have refused := copycheck_wraps (Nat.lt_of_not_le fits)
    have top : USERTOP.toNat ≤ 2 ^ 32 := by decide
    refine ⟨⟨fun passed => ?_, fun both => absurd both.2 fits⟩, fun passed => ?_,
      fun _ within => absurd (within.trans top) fits⟩ <;>
    · rw [refused] at passed
      cases passed
  obtain ⟨stoplen, checked, stop⟩ := copycheck_inside some fits user
  refine ⟨⟨fun _ => ⟨user, fits⟩, fun _ => by rw [checked]⟩, fun _ => by rw [checked, stop],
    fun _ within bad buf s => ?_⟩
  rw [userLength, Nat.min_eq_left (by omega)] at stop
  have whole : stoplen = len := BitVec.eq_of_toNat_eq stop
  simp [copyin, copyout, copyBlock, checked, whole]

/-- Only the empty ranges of user space are not treated as they should be. -/
theorem copycheck_exact (p : Address) (len : CUnsigned) :
    Confined p len ↔ 0 < len.toNat ∨ USERTOP ≤ p := by
  constructor
  · intro confined
    by_contra empty
    obtain ⟨none, user⟩ := not_or.mp empty
    obtain rfl : len = 0 := BitVec.eq_of_toNat_eq (Nat.eq_zero_of_not_pos none)
    have passed := confined.passes.mpr ⟨BitVec.not_le.mp user, p.isLt.le⟩
    -- The range at 0 ends at the top of memory, any other one in front of where it starts.
    by_cases zero : p = 0
    · subst zero
      exact absurd (confined.stoplen passed) (by decide)
    · rw [copycheck, if_pos (by bv_omega)] at passed
      cases passed
  · intro meets
    by_cases kernel : USERTOP ≤ p
    · exact confined_kernel kernel
    · exact confined_user (meets.resolve_right kernel) (BitVec.not_le.mp kernel)

theorem copycheck_exact_page : (copycheck 0x1000 0x1000).1 = .success :=
  ((copycheck_exact 0x1000 0x1000).mpr (by decide)).passes.mpr (by decide)

/-- An empty range in user space. -/
theorem copycheck_empty :
    (copycheck 0x1000 0).1 = .EFAULT ∧ copycheck 0 0 = (.success, USERTOP) := by
  decide

/-! ### Strings -/

/-- Everything up to the first NUL has been copied; if it is out of reach, everything in reach. -/
def copied (m : Memory 32) (dest src p : Address) (len : CUnsigned) :
    Errno × Option CUnsigned × Reach :=
  ((List.range (userLength p len)).find? fun k => m (nth src k) = 0).elim
    (if USERTOP.toNat - p.toNat < len.toNat then .EFAULT else .ENAMETOOLONG, none,
      ⟨m.copy dest src (userLength p len), false⟩)
    fun k => (.success, some (BitVec.ofNat 32 (k + 1)), ⟨m.copy dest src (k + 1), false⟩)

/-- No access to the two ranges faults, and they do not overlap. -/
structure Clear (bad : Address → Bool) (dest src : Address) (stop : Nat) : Prop where
  good : ∀ i < stop, bad (nth dest i) = false ∧ bad (nth src i) = false
  apart : ∀ i < stop, ∀ j < stop, nth dest i ≠ nth src j

section

variable {bad : Address → Bool} {dest src : Address} {stop : Nat}

theorem Clear.symm (clear : Clear bad dest src stop) : Clear bad src dest stop :=
  ⟨fun i inside => (clear.good i inside).symm,
    fun i inside j inside' => (clear.apart j inside' i inside).symm⟩

/-- With the first `i` bytes copied. -/
theorem copystrLoop_eq (clear : Clear bad dest src stop) (m : Memory 32) (small : stop ≤ 2 ^ 32)
    (left i : Nat) (sum : i + left = stop) :
    copystrLoop bad dest src left i (m.copy dest src i) =
      ((List.range' i left).find? fun k => m (nth src k) = 0).elim (.ok none, m.copy dest src stop)
        fun k => (.ok (some k), m.copy dest src (k + 1)) := by
  induction left generalizing i with
  | zero =>
    subst sum
    rfl
  | succ left ih =>
    have inside : i < stop := by omega
    have unread (n : Nat) (few : n ≤ stop) : m.copy dest src n (nth src i) = m (nth src i) :=
      Memory.copy_of_ne fun j below => (clear.apart j (by omega) i inside).symm
    have fine : ¬ (bad (nth dest i) = true ∨ bad (nth src i) = true) := by
      simp [clear.good i inside]
    rw [copystrLoop, if_neg fine]
    dsimp only
    rw [unread i (by omega), Memory.copy_succ (by omega), unread (i + 1) inside, List.range'_succ]
    by_cases nul : m (nth src i) = 0
    · rw [if_pos nul, List.find?_cons_of_pos (by simpa using nul)]
      rfl
    · rw [if_neg nul, List.find?_cons_of_neg (by simpa using nul)]
      exact ih (i + 1) (by omega)

variable {p buf : Address} {len : CUnsigned} {s : Reach} (user : p < USERTOP) (some : 0 < len.toNat)
  (straight : p.toNat + (len.toNat - 1) < 2 ^ 32)

include user some straight

private theorem copyString_eq (clear : Clear bad dest src (userLength p len)) :
    copyString bad p dest src len s = copied s.mem dest src p len := by
  obtain ⟨stoplen, checked, least⟩ := copycheck_inside some (by omega) user
  have few : userLength p len ≤ len.toNat := Nat.min_le_left ..
  have passes : min len.toNat stoplen.toNat = userLength p len := by omega
  have cut : stoplen < len ↔ USERTOP.toNat - p.toNat < len.toNat := by
    rw [BitVec.lt_def, least, userLength]
    omega
  have loop := copystrLoop_eq clear s.mem (by omega) (userLength p len) 0 (Nat.zero_add _)
  rw [Memory.copy_zero, ← List.range_eq_range'] at loop
  simp only [copyString, checked, passes, loop, copied, cut]
  cases (List.range (userLength p len)).find? fun k => s.mem (nth src k) = 0 <;> rfl

/-- Both calls copy up to the first NUL. Addresses behind `userLength` may fault: they are not
accessed. -/
theorem strings_copied (clear : Clear bad buf p (userLength p len)) :
    copyinstr bad p buf len s = copied s.mem buf p p len ∧
      copyoutstr bad buf p len s = copied s.mem p buf p len :=
  ⟨copyString_eq user some straight clear, copyString_eq user some straight clear.symm⟩

end

/-- Four bytes of user space are left; everything but them and the buffer faults. -/
theorem strings_copied_end :
    copyinstr (fun a => !(a - 0x7ffffffc).ult 4 && !(a - 0x80001000).ult 4) 0x7ffffffc 0x80001000 16
      ⟨fun _ => 1, false⟩ = copied (fun _ => 1) 0x80001000 0x7ffffffc 0x7ffffffc 16 := by
  refine (strings_copied (by decide) (by decide) (by decide) ⟨?_, ?_⟩).1
  · decide
  · decide

end Os161.Vm
