import Os161.Kern.Memmove
import Os161.Vm.Faults

/-!
# Copies of address spaces, `as_copy` of `dumbvm.c`

The copy gets pages of its own and the bytes of the original's. Physical memory is seen through
the kernel's addresses for it. That `getppages` hands out no page twice is an assumption here.
-/
namespace Os161.Vm

open Foundation Libc

/-- The memory at a physical address. -/
def phys (m : Memory 32) (paddr : CUnsigned) : Byte := m (paddrToKvaddr paddr)

def copyPages (m : Memory 32) (new old npages : CUnsigned) : Memory 32 :=
  memmove m (paddrToKvaddr new) (paddrToKvaddr old) (npages * PAGE_SIZE)

/-- One `memmove` for each pair of a new and an old region. -/
def copyAll (pairs : List (Region × Region)) (m : Memory 32) : Memory 32 :=
  pairs.foldl (fun m p => copyPages m p.1.pbase p.2.pbase p.2.npages) m

/-- `as_copy`, with the result of `kmalloc` in `as_create`; `none` is a `*ret` that is not
written. -/
def asCopy (memory : Bool) (old : AddrSpace) (ram : Ram) (m : Memory 32) :
    Except Fault (Errno × Option AddrSpace × Ram × Memory 32) :=
  if memory = false then .ok (.ENOMEM, none, ram, m)
  else do
    let new := { asCreate with
      vbase1 := old.vbase1, npages1 := old.npages1, vbase2 := old.vbase2, npages2 := old.npages2 }
    let (result, new, ram) ← asPrepareLoad new ram
    if result ≠ .success then return (.ENOMEM, none, ram, m)
    if new.pbase1 = 0 ∨ new.pbase2 = 0 ∨ new.stackpbase = 0 then throw .assertion
    return (.success, some new, ram, copyAll (new.regions.zip old.regions) m)

def Region.Has (r : Region) (paddr : CUnsigned) : Prop :=
  ∃ i < r.npages.toNat * 4096, paddr = r.pbase + BitVec.ofNat 32 i

/-- Its pages are in the physical memory that the kernel can reach. -/
def Region.Inside (r : Region) : Prop := r.pbase.toNat + r.npages.toNat * 4096 ≤ 2 ^ 31

section

variable {m : Memory 32} {new old : Region} (same : new.npages = old.npages) (fits : new.Inside)
  (fits' : old.Inside)

include same fits fits'

theorem copyPages_eq : copyPages m new.pbase old.pbase old.npages =
    m.copy (paddrToKvaddr new.pbase) (paddrToKvaddr old.pbase) (old.npages.toNat * 4096) := by
  have size : PAGE_SIZE.toNat = 4096 := by decide
  have kseg0 : MIPS_KSEG0.toNat = 2 ^ 31 := by decide
  unfold Region.Inside at fits fits'
  rw [same] at fits
  have len : (old.npages * PAGE_SIZE).toNat = old.npages.toNat * 4096 := by
    rw [BitVec.toNat_mul, size]
    omega
  rw [copyPages, memmove_eq, len] <;>
    rw [paddrToKvaddr, BitVec.toNat_add] <;> omega

private theorem phys_copied {i : Nat} (inside : i < old.npages.toNat * 4096) :
    phys (copyPages m new.pbase old.pbase old.npages) (new.pbase + BitVec.ofNat 32 i) =
      phys m (old.pbase + BitVec.ofNat 32 i) := by
  have shift (p : CUnsigned) :
      paddrToKvaddr (p + BitVec.ofNat 32 i) = paddrToKvaddr p + BitVec.ofNat 32 i := by
    unfold paddrToKvaddr
    ac_rfl
  unfold Region.Inside at fits'
  rw [phys, phys, copyPages_eq same fits fits', shift, shift, Memory.copy_offset (by omega),
    if_pos inside]

theorem phys_kept {paddr : CUnsigned} (outside : ¬ new.Has paddr) :
    phys (copyPages m new.pbase old.pbase old.npages) paddr = phys m paddr := by
  rw [copyPages_eq same fits fits']
  refine Memory.copy_of_ne fun i inside here => outside ⟨i, same ▸ inside, ?_⟩
  unfold paddrToKvaddr at here
  bv_omega

end

/-- Pairs of a region of the copy and the region it is copied from: all are in memory, and what
`getppages` has handed out for the copy was in no use. -/
structure Fresh (used : CUnsigned → Prop) (pairs : List (Region × Region)) : Prop where
  inside : ∀ p ∈ pairs, p.1.Inside ∧ p.2.Inside
  apart : pairs.Pairwise fun p q => ∀ b, p.1.Has b → ¬ q.1.Has b
  unused : ∀ p ∈ pairs, ∀ b, (p.1.Has b → ¬ used b) ∧ (p.2.Has b → used b)

section

variable {used : CUnsigned → Prop} {p : Region × Region} {pairs : List (Region × Region)}

theorem Fresh.tail (fresh : Fresh used (p :: pairs)) : Fresh used pairs :=
  ⟨fun q member => fresh.inside q (.tail _ member), fresh.apart.tail,
    fun q member => fresh.unused q (.tail _ member)⟩

/-- What is copied to none of the pages stays. -/
theorem Fresh.kept (fresh : Fresh used pairs) (sizes : ∀ p ∈ pairs, p.1.npages = p.2.npages)
    (m : Memory 32) {b : CUnsigned} (outside : ∀ p ∈ pairs, ¬ p.1.Has b) :
    phys (copyAll pairs m) b = phys m b := by
  induction pairs generalizing m with
  | nil => rfl
  | cons p rest ih =>
    obtain ⟨fits, fits'⟩ := fresh.inside p List.mem_cons_self
    rw [copyAll, List.foldl_cons, ← copyAll, ih fresh.tail
      (List.forall_mem_of_forall_mem_cons sizes) _ fun q member => outside q (.tail _ member),
      phys_kept (sizes p List.mem_cons_self) fits fits' (outside p List.mem_cons_self)]

theorem Fresh.copied (fresh : Fresh used pairs) (sizes : ∀ p ∈ pairs, p.1.npages = p.2.npages)
    (m : Memory 32) (member : p ∈ pairs) {i : Nat} (inside : i < p.2.npages.toNat * 4096) :
    phys (copyAll pairs m) (p.1.pbase + BitVec.ofNat 32 i) =
      phys m (p.2.pbase + BitVec.ofNat 32 i) := by
  induction pairs generalizing m with
  | nil => cases member
  | cons q rest ih =>
    obtain ⟨fits, fits'⟩ := fresh.inside p member
    have same := sizes p member
    have sizes' := List.forall_mem_of_forall_mem_cons sizes
    rw [copyAll, List.foldl_cons, ← copyAll]
    rcases List.mem_cons.mp member with rfl | later
    · -- nothing is copied over it later
      rw [fresh.tail.kept sizes' _ fun r other => List.rel_of_pairwise_cons fresh.apart other _
          ⟨i, same ▸ inside, rfl⟩,
        phys_copied same fits fits' inside]
    -- and nothing over what is copied
    have source := (fresh.unused p member _).2 ⟨i, inside, rfl⟩
    obtain ⟨first, first'⟩ := fresh.inside q List.mem_cons_self
    rw [ih fresh.tail sizes' _ later, phys_kept (sizes q List.mem_cons_self) first first'
      fun hit => (fresh.unused q List.mem_cons_self _).1 hit source]

end

def AddrSpace.moved (as : AddrSpace) (pbase1 pbase2 stackpbase : CUnsigned) : AddrSpace :=
  { as with pbase1, pbase2, stackpbase }

private theorem sizes_moved (old : AddrSpace) (p₁ p₂ p₃ : CUnsigned) :
    ∀ p ∈ (old.moved p₁ p₂ p₃).regions.zip old.regions, p.1.npages = p.2.npages := by
  simp [AddrSpace.regions, AddrSpace.moved]

/-- Whatever its pages, an address is in the same place of the same region. -/
theorem paddr_moved {old : AddrSpace} (p₁ p₂ p₃ : CUnsigned) {a b : CUnsigned}
    (found : old.paddr a = some b) :
    ∃ p ∈ (old.moved p₁ p₂ p₃).regions.zip old.regions, ∃ i < p.2.npages.toNat * 4096,
      b = p.2.pbase + BitVec.ofNat 32 i ∧
        (old.moved p₁ p₂ p₃).paddr a = some (p.1.pbase + BitVec.ofNat 32 i) := by
  have size : PAGE_SIZE.toNat = 4096 := by decide
  have place (base v : CUnsigned) : a - v + base = base + BitVec.ofNat 32 (a - v).toNat := by
    rw [BitVec.ofNat_toNat, BitVec.setWidth_eq, BitVec.add_comm]
  have few {v n : CUnsigned} (above : a ≥ v) (below : a < v + n * PAGE_SIZE) :
      (a - v).toNat < n.toNat * 4096 := by
    rw [BitVec.lt_def, BitVec.toNat_add, BitVec.toNat_mul, size] at below
    rw [BitVec.toNat_sub_of_le above]
    have := BitVec.le_def.mp above
    omega
  have top : USERSTACK =
      USERSTACK - DUMBVM_STACKPAGES * PAGE_SIZE + DUMBVM_STACKPAGES * PAGE_SIZE := by decide
  unfold AddrSpace.paddr at found ⊢
  simp only [AddrSpace.moved] at found ⊢
  simp only [place] at found ⊢
  split at found
  next first =>
    cases found
    exact ⟨_, List.mem_cons_self, _, few first.1 first.2, rfl, if_pos first⟩
  next first =>
    rw [if_neg first]
    split at found
    next second =>
      cases found
      exact ⟨_, .tail _ List.mem_cons_self, _, few second.1 second.2, rfl, if_pos second⟩
    next second =>
      rw [if_neg second]
      split at found
      next third =>
        cases found
        exact ⟨_, .tail _ (.tail _ List.mem_cons_self), _, few third.1 (top ▸ third.2), rfl,
          if_pos third⟩
      next => cases found

/-- The copy is at other pages and has the same bytes, and nothing that is in use has changed; or
there is no copy and nothing has changed. -/
theorem asCopy_copies {memory : Bool} {old : AddrSpace} {ram : Ram} {m : Memory 32}
    {r : Errno × Option AddrSpace × Ram × Memory 32} (done : asCopy memory old ram m = .ok r) :
    (r.1 = .success → ∃ new, r.2.1 = some new ∧
      ∀ used, Fresh used (new.regions.zip old.regions) →
        (∀ a b, old.paddr a = some b → used b ∧ ∃ b', new.paddr a = some b' ∧ ¬ used b' ∧
          phys r.2.2.2 b' = phys m b) ∧
        ∀ b, used b → phys r.2.2.2 b = phys m b) ∧
    (r.1 ≠ .success → r.1 = .ENOMEM ∧ r.2.1 = none ∧ r.2.2.2 = m) := by
  unfold asCopy at done
  split at done
  · cases done
    exact ⟨fun wrong => Errno.noConfusion wrong, fun _ => ⟨rfl, rfl, rfl⟩⟩
  obtain ⟨⟨result, new, ram'⟩, prepared, rest⟩ := bind_eq_ok done
  dsimp only at rest
  split at rest
  · cases rest
    exact ⟨fun wrong => Errno.noConfusion wrong, fun _ => ⟨rfl, rfl, rfl⟩⟩
  next works =>
    cases not_not.mp works
    obtain ⟨p₁, p₂, p₃, moved, first, second, third, -⟩ := asPrepareLoad_eq prepared
    subst moved
    split at rest
    next wrong => exact absurd wrong (not_or.mpr ⟨first, not_or.mpr ⟨second, third⟩⟩)
    cases rest
    dsimp only
    have sizes := sizes_moved old p₁ p₂ p₃
    refine ⟨fun _ => ⟨_, rfl, fun used fresh => ⟨fun a b found => ?_, fun b inUse => ?_⟩⟩,
      fun wrong => absurd rfl wrong⟩
    · obtain ⟨p, member, i, inside, rfl, there⟩ := paddr_moved p₁ p₂ p₃ found
      exact ⟨(fresh.unused p member _).2 ⟨i, inside, rfl⟩, _, there,
        (fresh.unused p member _).1 ⟨i, sizes p member ▸ inside, rfl⟩,
        fresh.copied sizes m member inside⟩
    · exact fresh.kept sizes m fun p member hit => (fresh.unused p member b).1 hit inUse

/-- Two regions of a page each and a stack, with the pages from `base` on. -/
def smallSpace (base : CUnsigned) : AddrSpace :=
  ⟨0x400000, base, 1, 0x10000000, base + 0x1000, 1, base + 0x2000⟩

private theorem has_bounds {r : Region} {b : CUnsigned} (fits : r.Inside) (has : r.Has b) :
    r.pbase.toNat ≤ b.toNat ∧ b.toNat < r.pbase.toNat + r.npages.toNat * 4096 := by
  obtain ⟨i, inside, rfl⟩ := has
  unfold Region.Inside at fits
  rw [BitVec.toNat_add, BitVec.toNat_ofNat]
  omega

/-- Everything below the copy's pages is in use. -/
theorem fresh_small : Fresh (·.toNat < 0x10000)
    ((smallSpace 0x10000).regions.zip (smallSpace 0x1000).regions) := by
  have inside : ∀ p ∈ (smallSpace 0x10000).regions.zip (smallSpace 0x1000).regions,
      p.1.Inside ∧ p.2.Inside := by
    unfold Region.Inside
    decide
  have ranges : ∀ p ∈ (smallSpace 0x10000).regions.zip (smallSpace 0x1000).regions,
      0x10000 ≤ p.1.pbase.toNat ∧ p.2.pbase.toNat + p.2.npages.toNat * 4096 ≤ 0x10000 := by
    decide
  have apart : ((smallSpace 0x10000).regions.zip (smallSpace 0x1000).regions).Pairwise
      fun p q => p.1.Inside ∧ q.1.Inside ∧
        p.1.pbase.toNat + p.1.npages.toNat * 4096 ≤ q.1.pbase.toNat := by
    unfold Region.Inside
    decide
  refine ⟨inside, apart.imp fun order b first second => ?_, fun p member b => ⟨fun has => ?_,
    fun has => ?_⟩⟩
  · have low := has_bounds order.1 first
    have high := has_bounds order.2.1 second
    omega
  · have bounds := has_bounds (inside p member).1 has
    have range := ranges p member
    omega
  · have bounds := has_bounds (inside p member).2 has
    have range := ranges p member
    omega

/-- A byte of the text is copied, in a memory where every page is different. -/
theorem asCopy_copies_small :
    ∃ r, asCopy true (smallSpace 0x1000) ⟨0x10000, 0x100000⟩ (fun a => (a >>> 12).setWidth 8) =
      .ok r ∧ phys r.2.2.2 0x10123 = 1 ∧ phys r.2.2.2 0x1123 = 1 := by
  have done : ∃ m, asCopy true (smallSpace 0x1000) ⟨0x10000, 0x100000⟩
      (fun a => (a >>> 12).setWidth 8) =
        .ok (.success, some (smallSpace 0x10000), ⟨0x1e000, 0x100000⟩, m) := ⟨_, rfl⟩
  obtain ⟨m, done⟩ := done
  obtain ⟨new, same, copied⟩ := (asCopy_copies done).1 rfl
  cases same
  obtain ⟨translated, kept⟩ := copied _ fresh_small
  obtain ⟨inUse, b', there, -, byte⟩ := translated 0x400123 0x1123 rfl
  cases there
  exact ⟨_, done, byte, kept _ inUse⟩

end Os161.Vm
