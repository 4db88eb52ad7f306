import Os161.Vm.AddrSpace
import Mathlib.Data.List.Find

/-!
# Faults

What `vm_fault` does on each of its paths. It compares the bounds of a region in 32 bits; here they
are numbers. A fault without an address space leaves interrupts off.
-/
namespace Os161.Vm

def SPL_HIGH : CInt := 15

/-- `vm_fault` called at level `curspl`, with the level at its return. All returns but one come
behind `splx(spl)`. -/
def vmFaultAt (curspl : CInt) (faulttype : FaultType) (faultaddress : CUnsigned)
    (vmspace : Option AddrSpace) (tlb : Tlb) : Except Fault (Errno × Tlb × CInt) :=
  match faulttype, vmspace with
  | .read, none | .write, none => .ok (.EFAULT, tlb, SPL_HIGH)
  | faulttype, vmspace =>
    (vmFault faulttype faultaddress vmspace tlb).map fun r => (r.1, r.2, curspl)

/-- A region: its first page, the number of its pages and where they are in memory. -/
structure Region where
  vbase : CUnsigned
  npages : CUnsigned
  pbase : CUnsigned

def Region.Holds (r : Region) (page : CUnsigned) : Prop :=
  r.vbase.toNat ≤ page.toNat ∧ page.toNat < r.vbase.toNat + r.npages.toNat * 4096

instance (r : Region) (page : CUnsigned) : Decidable (r.Holds page) :=
  inferInstanceAs (Decidable (_ ∧ _))

/-- The regions in the order in which they are looked at. -/
def AddrSpace.regions (as : AddrSpace) : List Region :=
  [⟨as.vbase1, as.npages1, as.pbase1⟩, ⟨as.vbase2, as.npages2, as.pbase2⟩,
    ⟨USERSTACK - DUMBVM_STACKPAGES * PAGE_SIZE, DUMBVM_STACKPAGES, as.stackpbase⟩]

/-- The comparison as `vm_fault` makes it: the end of the region is computed in 32 bits. -/
def Region.Matches (r : Region) (page : CUnsigned) : Prop :=
  page ≥ r.vbase ∧ page < r.vbase + r.npages * PAGE_SIZE

instance (r : Region) (page : CUnsigned) : Decidable (r.Matches page) :=
  inferInstanceAs (Decidable (_ ∧ _))

def Region.entry (r : Region) (page : CUnsigned) : TlbEntry :=
  .mapping page (page - r.vbase + r.pbase)

/-- The comparisons lead to the entry that the numbers lead to. -/
def AddrSpace.Sees (as : AddrSpace) (page : CUnsigned) : Prop :=
  (as.regions.find? (·.Matches page)).map (·.entry page) =
    (as.regions.find? (·.Holds page)).map (·.entry page)

/-- The region does not reach the end of the addresses, or it begins behind the page. -/
def Region.Clear (r : Region) (page : CUnsigned) : Prop :=
  r.vbase.toNat + r.npages.toNat * 4096 < 2 ^ 32 ∨ page < r.vbase

instance (r : Region) (page : CUnsigned) : Decidable (r.Clear page) :=
  inferInstanceAs (Decidable (_ ∨ _))

private theorem matches_iff {r : Region} {page : CUnsigned} (clear : r.Clear page) :
    r.Matches page ↔ r.Holds page := by
  rcases clear with below | before
  · have size : PAGE_SIZE.toNat = 4096 := by decide
    have top : (r.vbase + r.npages * PAGE_SIZE).toNat =
        r.vbase.toNat + r.npages.toNat * 4096 := by
      rw [BitVec.toNat_add, BitVec.toNat_mul, size]
      omega
    rw [Region.Holds, ← top]
    rfl
  · have outside : ¬ r.vbase.toNat ≤ page.toNat := Nat.not_le.mpr (BitVec.lt_def.mp before)
    exact ⟨fun found => absurd found.1 outside, fun held => absurd held.1 outside⟩

private theorem sees_of_clear {as : AddrSpace} {page : CUnsigned}
    (clear : ∀ r ∈ as.regions, r.Clear page) : as.Sees page := by
  have same : as.regions.find? (·.Matches page) = as.regions.find? (·.Holds page) :=
    List.find?_congr fun r member => decide_eq_decide.mpr (matches_iff (clear r member))
  rw [AddrSpace.Sees, same]

/-- The page is looked for in one region after the other. -/
theorem paddr_eq_find (as : AddrSpace) (page : CUnsigned) :
    as.paddr page = (as.regions.find? (·.Matches page)).map fun r => page - r.vbase + r.pbase := by
  have top : USERSTACK - DUMBVM_STACKPAGES * PAGE_SIZE + DUMBVM_STACKPAGES * PAGE_SIZE =
      USERSTACK := by decide
  have first : page ≥ as.vbase1 ∧ page < as.vbase1 + as.npages1 * PAGE_SIZE ↔
      Region.Matches ⟨as.vbase1, as.npages1, as.pbase1⟩ page := Iff.rfl
  have second : page ≥ as.vbase2 ∧ page < as.vbase2 + as.npages2 * PAGE_SIZE ↔
      Region.Matches ⟨as.vbase2, as.npages2, as.pbase2⟩ page := Iff.rfl
  have third : page ≥ USERSTACK - DUMBVM_STACKPAGES * PAGE_SIZE ∧ page < USERSTACK ↔
      Region.Matches ⟨USERSTACK - DUMBVM_STACKPAGES * PAGE_SIZE, DUMBVM_STACKPAGES,
        as.stackpbase⟩ page := by rw [Region.Matches, top]
  simp only [AddrSpace.paddr, AddrSpace.regions, List.find?_cons, List.find?_nil, first, second,
    third]
  repeat' split <;> simp_all

/-- What a fault at a page is to do, among these regions: the page gets into the first invalid entry
and into no other, or nothing happens; the level is what it was. -/
structure Handled (curspl : CInt) (page : CUnsigned) (regions : List Region) (tlb : Tlb)
    (done : Except Fault (Errno × Tlb × CInt)) : Prop where
  enters : ∀ r i, regions.find? (·.Holds page) = some r → ¬ (tlb i).Valid →
    (∀ j < i, (tlb j).Valid) → done = .ok (.success, Function.update tlb i (r.entry page), curspl)
  refuses : (∀ r ∈ regions, ¬ r.Holds page) ∨ (∀ i, (tlb i).Valid) →
    done = .ok (.EFAULT, tlb, curspl)

/-- The return with `entry` for slot `i`. -/
def outcome (curspl : CInt) (tlb : Tlb) (i : Fin NUM_TLB) :
    Option TlbEntry → Except Fault (Errno × Tlb × CInt)
  | none => .ok (.EFAULT, tlb, curspl)
  | some entry => .ok (.success, Function.update tlb i entry, curspl)

section

variable {curspl : CInt} {tlb : Tlb} {i : Fin NUM_TLB}

private theorem outcome_inj {found held : Option TlbEntry} :
    outcome curspl tlb i found = outcome curspl tlb i held ↔ found = held := by
  refine ⟨fun same => ?_, fun same => same ▸ rfl⟩
  cases found <;> cases held
  case none.none => rfl
  case some.some e e' =>
    obtain ⟨-, tables⟩ := Prod.mk.inj (Except.ok.inj same)
    have here := congrFun (Prod.mk.inj tables).1 i
    rw [Function.update_self, Function.update_self] at here
    rw [here]
  all_goals cases same

theorem free_first (free : tlb.free = some i) : ¬ (tlb i).Valid ∧ ∀ j < i, (tlb j).Valid := by
  rw [Tlb.free, List.find?_eq_some_iff_getElem] at free
  obtain ⟨invalid, k, inside, here, first⟩ := free
  obtain rfl : ⟨k, by simpa using inside⟩ = i := by simpa using here
  refine ⟨by simpa using invalid, fun j before => ?_⟩
  simpa using first j before

private theorem handled_iff {regions : List Region} {page : CUnsigned}
    {done : Except Fault (Errno × Tlb × CInt)} (free : tlb.free = some i) :
    Handled curspl page regions tlb done ↔
      done = outcome curspl tlb i ((regions.find? (·.Holds page)).map (·.entry page)) := by
  obtain ⟨invalid, first⟩ := free_first free
  constructor
  · intro handled
    cases held : regions.find? (·.Holds page) with
    | none => exact handled.refuses (.inl (by simpa using held))
    | some r => exact handled.enters r i held invalid first
  · rintro rfl
    refine ⟨fun r j held invalid' first' => ?_, fun nothing => ?_⟩
    · -- Both are the first invalid entry.
      have same : i = j := Fin.le_antisymm
        (Fin.not_lt.mp fun before => invalid' (first j before))
        (Fin.not_lt.mp fun before => invalid (first' i before))
      rw [held, same]
      rfl
    · rcases nothing with outside | full
      · rw [List.find?_eq_none.mpr (by simpa using outside)]
        rfl
      · exact absurd (full i) invalid

end

end Os161.Vm
