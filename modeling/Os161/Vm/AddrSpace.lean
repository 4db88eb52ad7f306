import Os161.Vm.Ram

/-!
# Address spaces of `dumbvm.c`

A process has two regions of pages and a stack, each in one piece of physical memory. `vm_fault`
enters the page it is called for into the TLB, after a dozen assertions about the address space.
-/
namespace Os161.Vm

def PAGE_FRAME : CUnsigned := 0xfffff000

structure AddrSpace where
  vbase1 : CUnsigned
  pbase1 : CUnsigned
  npages1 : CUnsigned
  vbase2 : CUnsigned
  pbase2 : CUnsigned
  npages2 : CUnsigned
  stackpbase : CUnsigned
  deriving DecidableEq

/-- `as_create`, when there is memory for it. -/
def asCreate : AddrSpace := ⟨0, 0, 0, 0, 0, 0, 0⟩

/-- The number of pages that a region of `sz` bytes at `vaddr` touches. -/
def regionPages (vaddr sz : CUnsigned) : CUnsigned :=
  ((sz + (vaddr &&& ~~~PAGE_FRAME) + PAGE_SIZE - 1) &&& PAGE_FRAME) / PAGE_SIZE

/-- `as_define_region`. A region takes the first place whose base is 0. -/
def asDefineRegion (as : AddrSpace) (vaddr sz : CUnsigned) : Except Errno AddrSpace :=
  if as.vbase1 = 0 then
    .ok { as with vbase1 := vaddr &&& PAGE_FRAME, npages1 := regionPages vaddr sz }
  else if as.vbase2 = 0 then
    .ok { as with vbase2 := vaddr &&& PAGE_FRAME, npages2 := regionPages vaddr sz }
  else .error .EUNIMP

def DUMBVM_STACKPAGES : CUnsigned := 12

def asPrepareLoad (as : AddrSpace) (ram : Ram) : Except Fault (Errno × AddrSpace × Ram) :=
  if as.pbase1 = 0 ∧ as.pbase2 = 0 ∧ as.stackpbase = 0 then
    let first := getppages as.npages1 ram
    let as := { as with pbase1 := first.1 }
    if first.1 = 0 then .ok (.ENOMEM, as, first.2)
    else
      let second := getppages as.npages2 first.2
      let as := { as with pbase2 := second.1 }
      if second.1 = 0 then .ok (.ENOMEM, as, second.2)
      else
        let stack := getppages DUMBVM_STACKPAGES second.2
        let as := { as with stackpbase := stack.1 }
        if stack.1 = 0 then .ok (.ENOMEM, as, stack.2) else .ok (.success, as, stack.2)
  else .error .assertion

/-! ### The TLB -/

def NUM_TLB : Nat := 64

def TLBLO_DIRTY : CUnsigned := 0x400

def TLBLO_VALID : CUnsigned := 0x200

structure TlbEntry where
  ehi : CUnsigned
  elo : CUnsigned
  deriving DecidableEq

def TlbEntry.Valid (entry : TlbEntry) : Prop := entry.elo &&& TLBLO_VALID ≠ 0

instance (entry : TlbEntry) : Decidable entry.Valid := inferInstanceAs (Decidable (_ ≠ _))

/-- `TLBHI_INVALID(i)` and `TLBLO_INVALID()`. -/
def TlbEntry.invalid (i : Fin NUM_TLB) : TlbEntry := ⟨(0x80000 + BitVec.ofNat 32 i) <<< 12, 0⟩

abbrev Tlb := Fin NUM_TLB → TlbEntry

/-- `as_activate`; its argument plays no part. -/
def asActivate : Tlb := TlbEntry.invalid

/-! ### `vm_fault` -/

/-- The kinds of faults of `vm.h`, and any other number. -/
inductive FaultType where
  | read
  | write
  | readonly
  | other
  deriving DecidableEq

/-- The assertions of `vm_fault` about the address space. -/
def AddrSpace.Proper (as : AddrSpace) : Prop :=
  as.vbase1 ≠ 0 ∧ as.pbase1 ≠ 0 ∧ as.npages1 ≠ 0 ∧ as.vbase2 ≠ 0 ∧ as.pbase2 ≠ 0 ∧ as.npages2 ≠ 0 ∧
    as.stackpbase ≠ 0 ∧ as.vbase1 &&& PAGE_FRAME = as.vbase1 ∧
    as.pbase1 &&& PAGE_FRAME = as.pbase1 ∧ as.vbase2 &&& PAGE_FRAME = as.vbase2 ∧
    as.pbase2 &&& PAGE_FRAME = as.pbase2 ∧ as.stackpbase &&& PAGE_FRAME = as.stackpbase

instance : DecidablePred AddrSpace.Proper := fun _ => inferInstanceAs (Decidable (_ ∧ _))

def USERSTACK : CUnsigned := MIPS_KSEG0

/-- The physical address that `vm_fault` computes for a page. -/
def AddrSpace.paddr (as : AddrSpace) (faultaddress : CUnsigned) : Option CUnsigned :=
  let vtop1 := as.vbase1 + as.npages1 * PAGE_SIZE
  let vtop2 := as.vbase2 + as.npages2 * PAGE_SIZE
  let stackbase := USERSTACK - DUMBVM_STACKPAGES * PAGE_SIZE
  let stacktop := USERSTACK
  if faultaddress ≥ as.vbase1 ∧ faultaddress < vtop1 then
    some ((faultaddress - as.vbase1) + as.pbase1)
  else if faultaddress ≥ as.vbase2 ∧ faultaddress < vtop2 then
    some ((faultaddress - as.vbase2) + as.pbase2)
  else if faultaddress ≥ stackbase ∧ faultaddress < stacktop then
    some ((faultaddress - stackbase) + as.stackpbase)
  else none

/-- The loop of `vm_fault` over the TLB: the first entry that is not valid. -/
def Tlb.free (tlb : Tlb) : Option (Fin NUM_TLB) :=
  (List.finRange NUM_TLB).find? fun i => ¬ (tlb i).Valid

def TlbEntry.mapping (faultaddress paddr : CUnsigned) : TlbEntry :=
  ⟨faultaddress, paddr ||| TLBLO_DIRTY ||| TLBLO_VALID⟩

/-- `vm_fault`, with the address space of the current thread. -/
def vmFault (faulttype : FaultType) (faultaddress : CUnsigned) (vmspace : Option AddrSpace)
    (tlb : Tlb) : Except Fault (Errno × Tlb) :=
  let faultaddress := faultaddress &&& PAGE_FRAME
  match faulttype with
  | .readonly => .error .panic
  | .other => .ok (.EINVAL, tlb)
  | .read | .write =>
    match vmspace with
    | none => .ok (.EFAULT, tlb)
    | some as =>
      if as.Proper then
        match as.paddr faultaddress with
        | none => .ok (.EFAULT, tlb)
        | some paddr =>
          if paddr &&& PAGE_FRAME = paddr then
            match tlb.free with
            | some i => .ok (.success, Function.update tlb i (.mapping faultaddress paddr))
            | none => .ok (.EFAULT, tlb)
          else .error .assertion
      else .error .assertion

/-! ### Pages -/

/-- The mask keeps the number of the page. -/
theorem toNat_and_frame (a : CUnsigned) : (a &&& PAGE_FRAME).toNat = a.toNat / 4096 * 4096 := by
  have frame : ∀ i < 32, PAGE_FRAME.getLsbD i = decide (12 ≤ i) := by decide
  have shifted : a &&& PAGE_FRAME = (a >>> 12) <<< 12 := by
    apply BitVec.eq_of_getLsbD_eq
    intro i inside
    rw [BitVec.getLsbD_and, frame i inside]
    by_cases low : i < 12
    · simp [low, show ¬ 12 ≤ i by omega]
    · simp [low, inside, show 12 ≤ i by omega]
  rw [shifted, BitVec.toNat_shiftLeft, BitVec.toNat_ushiftRight]
  omega

/-- An address of a page. -/
theorem and_frame_eq_self {a : CUnsigned} : a &&& PAGE_FRAME = a ↔ a.toNat % 4096 = 0 := by
  rw [← BitVec.toNat_inj, toNat_and_frame]
  omega

theorem and_frame_twice (a : CUnsigned) : a &&& PAGE_FRAME &&& PAGE_FRAME = a &&& PAGE_FRAME := by
  rw [and_frame_eq_self, toNat_and_frame]
  omega

/-- The distance between pages, added to the address of a page. -/
theorem toNat_sub_add_mod {a b c : CUnsigned} (page : a.toNat % 4096 = 0)
    (page' : b.toNat % 4096 = 0) (page'' : c.toNat % 4096 = 0) :
    (a - b + c).toNat % 4096 = 0 := by
  rw [BitVec.toNat_add, BitVec.toNat_sub]
  omega

variable {as : AddrSpace}

/-- The address that `vm_fault` computes is that of a page. -/
theorem AddrSpace.Proper.paddr_page (proper : as.Proper)
    {faultaddress paddr : CUnsigned} (page : faultaddress &&& PAGE_FRAME = faultaddress)
    (found : as.paddr faultaddress = some paddr) : paddr &&& PAGE_FRAME = paddr := by
  obtain ⟨-, -, -, -, -, -, -, vbase1, pbase1, vbase2, pbase2, stackpbase⟩ := proper
  simp only [and_frame_eq_self] at *
  unfold AddrSpace.paddr at found
  dsimp only at found
  split at found
  · cases found
    exact toNat_sub_add_mod page vbase1 pbase1
  split at found
  · cases found
    exact toNat_sub_add_mod page vbase2 pbase2
  split at found
  · cases found
    exact toNat_sub_add_mod page (by decide) stackpbase
  · cases found

/-- What `vm_fault` does for a read or a write, in a proper address space. -/
theorem vmFault_proper {faulttype : FaultType} (access : faulttype = .read ∨ faulttype = .write)
    (proper : as.Proper) (faultaddress : CUnsigned) (tlb : Tlb) :
    ((as.paddr (faultaddress &&& PAGE_FRAME) = none ∨ tlb.free = none) ∧
        vmFault faulttype faultaddress (some as) tlb = .ok (.EFAULT, tlb)) ∨
      ∃ paddr i, as.paddr (faultaddress &&& PAGE_FRAME) = some paddr ∧
        paddr &&& PAGE_FRAME = paddr ∧ tlb.free = some i ∧
        vmFault faulttype faultaddress (some as) tlb =
          .ok (.success, Function.update tlb i (.mapping (faultaddress &&& PAGE_FRAME) paddr)) := by
  have same : vmFault faulttype faultaddress (some as) tlb =
      vmFault .read faultaddress (some as) tlb := by
    rcases access with rfl | rfl <;> simp only [vmFault]
  rw [same, vmFault]
  simp only [if_pos proper]
  cases found : as.paddr (faultaddress &&& PAGE_FRAME) with
  | none => exact .inl ⟨.inl rfl, rfl⟩
  | some paddr =>
    have page := proper.paddr_page (and_frame_twice faultaddress) found
    simp only [if_pos page]
    cases slot : tlb.free with
    | none => exact .inl ⟨.inr rfl, rfl⟩
    | some i => exact .inr ⟨paddr, i, rfl, page, rfl, rfl⟩

/-- Otherwise it does not return. -/
theorem vmFault_improper {faulttype : FaultType} (access : faulttype = .read ∨ faulttype = .write)
    (improper : ¬ as.Proper) (faultaddress : CUnsigned) (tlb : Tlb) :
    vmFault faulttype faultaddress (some as) tlb = .error .assertion := by
  rcases access with rfl | rfl <;> simp only [vmFault, if_neg improper]

/-! ### Physical pages for a program -/

theorem getppages_page (npages : CUnsigned) {ram : Ram}
    (page : ram.firstpaddr.toNat % 4096 = 0) :
    (getppages npages ram).1.toNat % 4096 = 0 ∧
      (getppages npages ram).2.firstpaddr.toNat % 4096 = 0 := by
  have size : PAGE_SIZE.toNat = 4096 := by decide
  unfold getppages ramStealmem
  dsimp only
  split
  · exact ⟨rfl, page⟩
  · refine ⟨page, ?_⟩
    rw [BitVec.toNat_add, BitVec.toNat_mul, size]
    omega

/-- `as_prepare_load` gives the regions and the stack memory of their own. -/
theorem asPrepareLoad_eq {as as' : AddrSpace} {ram ram' : Ram}
    (prepared : asPrepareLoad as ram = .ok (.success, as', ram')) :
    ∃ pbase1 pbase2 stackpbase : CUnsigned,
      as' = { as with pbase1 := pbase1, pbase2 := pbase2, stackpbase := stackpbase } ∧
      pbase1 ≠ 0 ∧ pbase2 ≠ 0 ∧ stackpbase ≠ 0 ∧ (ram.firstpaddr.toNat % 4096 = 0 →
        pbase1.toNat % 4096 = 0 ∧ pbase2.toNat % 4096 = 0 ∧ stackpbase.toNat % 4096 = 0) := by
  unfold asPrepareLoad at prepared
  dsimp only at prepared
  split at prepared
  next =>
    split at prepared
    next => cases prepared
    next first =>
      split at prepared
      next => cases prepared
      next second =>
        split at prepared
        next => cases prepared
        next third =>
          simp only [Except.ok.injEq, Prod.mk.injEq, true_and] at prepared
          refine ⟨_, _, _, prepared.1.symm, first, second, third, fun page => ?_⟩
          obtain ⟨page1, after1⟩ := getppages_page as.npages1 page
          obtain ⟨page2, after2⟩ := getppages_page as.npages2 after1
          exact ⟨page1, page2, (getppages_page DUMBVM_STACKPAGES after2).1⟩
  next => cases prepared

end Os161.Vm
