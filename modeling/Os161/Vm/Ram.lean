import Mathlib.Data.List.Pairwise
import Os161.Foundation.Transition
import Os161.Kern.Base

/-!
# Physical pages

`ram.c` hands out physical memory from one address upwards, `dumbvm.c` and `kheap.c` call it for
pages and for large blocks. All sizes have 32 bits. The pages are handed out once, exactly if no
size wraps around.
-/
namespace Os161.Vm

open Foundation

def PAGE_SIZE : CUnsigned := 4096

def MIPS_KSEG0 : CUnsigned := 0x80000000

def LARGEST_SUBPAGE_SIZE : CUnsigned := 2048

/-- The variables of `ram.c`. -/
structure Ram where
  firstpaddr : CUnsigned
  lastpaddr : CUnsigned
  deriving DecidableEq

def maxRamsize : CUnsigned := 508 * 1024 * 1024

/-- `ram_bootstrap`, with what `mips_ramsize` and `start.S` found. -/
def ramBootstrap (ramsize firstfree : CUnsigned) : Ram :=
  ⟨firstfree - MIPS_KSEG0, if ramsize > maxRamsize then maxRamsize else ramsize⟩

def ramStealmem (npages : CUnsigned) (ram : Ram) : CUnsigned × Ram :=
  let size := npages * PAGE_SIZE
  if ram.firstpaddr + size > ram.lastpaddr then (0, ram)
  else (ram.firstpaddr, { ram with firstpaddr := ram.firstpaddr + size })

def getppages (npages : CUnsigned) (ram : Ram) : CUnsigned × Ram := ramStealmem npages ram

def paddrToKvaddr (paddr : CUnsigned) : CUnsigned := paddr + MIPS_KSEG0

/-- `alloc_kpages`; its argument is signed, but only its bits matter. -/
def allocKpages (npages : CInt) (ram : Ram) : CUnsigned × Ram :=
  let (pa, ram') := getppages npages ram
  if pa = 0 then (0, ram') else (paddrToKvaddr pa, ram')

/-- `kmalloc` of a block that takes whole pages. -/
def kmalloc (sz : CUnsigned) (ram : Ram) : CUnsigned × Ram :=
  allocKpages ((sz + PAGE_SIZE - 1) / PAGE_SIZE) ram

/-! ### Requests -/

inductive Request where
  | stealmem (npages : CUnsigned)
  | getppages (npages : CUnsigned)
  | allocKpages (npages : CInt)
  | kmalloc (sz : CUnsigned)
  deriving DecidableEq

namespace Request

/-- Smaller blocks come from elsewhere. -/
def Large : Request → Prop
  | .kmalloc sz => LARGEST_SUBPAGE_SIZE ≤ sz
  | _ => True

def perform : Request → Ram → CUnsigned × Ram
  | .stealmem npages => ramStealmem npages
  | .getppages npages => Vm.getppages npages
  | .allocKpages npages => Vm.allocKpages npages
  | .kmalloc sz => Vm.kmalloc sz

def bytes : Request → Nat
  | .stealmem npages | .getppages npages | .allocKpages npages => npages.toNat * 4096
  | .kmalloc sz => sz.toNat

/-- The pages that `ram_stealmem` is called with. -/
def pages : Request → CUnsigned
  | .stealmem npages | .getppages npages | .allocKpages npages => npages
  | .kmalloc sz => (sz + PAGE_SIZE - 1) / PAGE_SIZE

/-- The physical address of what was returned: two of the functions return kernel addresses. -/
def base (answer : CUnsigned) : Request → Nat
  | .stealmem _ | .getppages _ => answer.toNat
  | .allocKpages _ | .kmalloc _ => (answer - MIPS_KSEG0).toNat

/-- No size of the request wraps around. -/
def Fits (request : Request) (ram : Ram) : Prop :=
  ram.firstpaddr.toNat + request.pages.toNat * 4096 < 2 ^ 32 ∧
    match request with
    | .kmalloc sz => sz.toNat + 4095 < 2 ^ 32
    | _ => True

/-- If there is memory and `ram_stealmem` finds that it is enough, no size wraps around. -/
def Safe (request : Request) (ram : Ram) : Prop :=
  ram.firstpaddr ≠ 0 ∧ ram.firstpaddr + request.pages * PAGE_SIZE ≤ ram.lastpaddr →
    request.Fits ram

instance : DecidablePred Large := fun request =>
  match request with
  | .kmalloc sz => inferInstanceAs (Decidable (LARGEST_SUBPAGE_SIZE ≤ sz))
  | .stealmem _ | .getppages _ | .allocKpages _ => inferInstanceAs (Decidable True)

instance (request : Request) (ram : Ram) : Decidable (request.Fits ram) :=
  match request with
  | .kmalloc _ | .stealmem _ | .getppages _ | .allocKpages _ =>
    inferInstanceAs (Decidable (_ ∧ _))

instance (request : Request) (ram : Ram) : Decidable (request.Safe ram) :=
  inferInstanceAs (Decidable (_ → _))

end Request

def next (ram : Ram) (request : Request) : Option Ram :=
  if request.Large then some (request.perform ram).2 else none

/-- A call that a run has made: the state it found is in the history. -/
abbrev Made := Ram × Request

def Made.answer (made : Made) : CUnsigned := (made.2.perform made.1).1

def Made.base (made : Made) : Nat := made.2.base made.answer

def Made.limit (made : Made) : Nat := made.base + made.2.bytes

/-- What the callers rely on: every region is of the size that was asked for and lies in the
memory there was at first, no two overlap, and the rest of the memory only shrinks. -/
structure HandedOut (start : Ram) (history : List Made) (ram : Ram) : Prop where
  inside : ∀ made ∈ history, Made.answer made ≠ 0 →
    start.firstpaddr.toNat ≤ Made.base made ∧ Made.limit made ≤ start.lastpaddr.toNat
  apart : history.Pairwise fun a b => Made.answer a ≠ 0 → Made.answer b ≠ 0 →
    Made.limit a ≤ Made.base b ∨ Made.limit b ≤ Made.base a
  rising : (visited history ram).Pairwise fun later earlier =>
    earlier.firstpaddr ≤ later.firstpaddr
  bounded : ∀ s ∈ visited history ram, s.firstpaddr ≤ s.lastpaddr

/-! ### One call -/

section

variable {ram : Ram} {request : Request}

/-- What is there to give lies in the part of memory that the kernel can address. -/
structure Sane (ram : Ram) : Prop where
  bounded : ram.firstpaddr.toNat ≤ ram.lastpaddr.toNat
  small : ram.lastpaddr.toNat ≤ 508 * 1024 * 1024

theorem Sane.of_bootstrap {ramsize firstfree : CUnsigned}
    (free : (ramBootstrap ramsize firstfree).firstpaddr ≤
      (ramBootstrap ramsize firstfree).lastpaddr) :
    Sane (ramBootstrap ramsize firstfree) := by
  refine ⟨BitVec.le_def.mp free, ?_⟩
  unfold ramBootstrap
  have max : maxRamsize.toNat = 508 * 1024 * 1024 := by decide
  dsimp only
  split
  next => rw [max]
  next small =>
    rw [gt_iff_lt, BitVec.lt_def] at small
    omega

theorem allocKpages_eq (npages : CInt) (ram : Ram) :
    allocKpages npages ram = (if (ramStealmem npages ram).1 = 0 then 0
      else paddrToKvaddr (ramStealmem npages ram).1, (ramStealmem npages ram).2) := by
  unfold allocKpages getppages
  dsimp only
  split <;> rfl

/-- The four functions differ in the number of pages and in the kind of address. -/
theorem perform_snd (request : Request) (ram : Ram) :
    (request.perform ram).2 = (ramStealmem request.pages ram).2 := by
  cases request with
  | stealmem | getppages => rfl
  | allocKpages | kmalloc => simp [Request.perform, Request.pages, kmalloc, allocKpages_eq]

private theorem toNat_ramStealmem_le (npages : CUnsigned) (sane : Sane ram) :
    (ramStealmem npages ram).1.toNat ≤ 508 * 1024 * 1024 := by
  have bounded := sane.bounded
  have small := sane.small
  unfold ramStealmem
  dsimp only
  split
  · exact Nat.zero_le _
  · dsimp only
    omega

/-- An address in kseg0 is not NULL, and leads back to the physical one. -/
theorem allocKpages_fst (npages : CInt) (sane : Sane ram) :
    ((allocKpages npages ram).1 = 0 ↔ (ramStealmem npages ram).1 = 0) ∧
      ((allocKpages npages ram).1 ≠ 0 →
        ((allocKpages npages ram).1 - MIPS_KSEG0).toNat = (ramStealmem npages ram).1.toNat) := by
  rw [allocKpages_eq]
  by_cases null : (ramStealmem npages ram).1 = 0
  · rw [if_pos null]
    exact ⟨iff_of_true rfl null, fun wrong => absurd rfl wrong⟩
  rw [if_neg null]
  refine ⟨iff_of_false (fun wrong => ?_) null, fun _ => ?_⟩
  · have small := toNat_ramStealmem_le npages sane
    have sum := congrArg BitVec.toNat wrong
    have kseg0 : MIPS_KSEG0.toNat = 2 ^ 31 := by decide
    have zero : (0 : CUnsigned).toNat = 0 := rfl
    rw [paddrToKvaddr, BitVec.toNat_add] at sum
    omega
  · rw [paddrToKvaddr, BitVec.add_sub_cancel]

private theorem perform_fst (request : Request) (sane : Sane ram) :
    ((request.perform ram).1 = 0 ↔ (ramStealmem request.pages ram).1 = 0) ∧
      ((request.perform ram).1 ≠ 0 →
        request.base (request.perform ram).1 = (ramStealmem request.pages ram).1.toNat) := by
  cases request with
  | stealmem | getppages => exact ⟨Iff.rfl, fun _ => rfl⟩
  | allocKpages | kmalloc => exact allocKpages_fst _ sane

/-- A call is answered if there is enough memory, and if it does not begin at 0. -/
theorem perform_ne_zero (request : Request) (sane : Sane ram) :
    ((request.perform ram).1 ≠ 0 ↔ ram.firstpaddr ≠ 0 ∧
        ram.firstpaddr + request.pages * PAGE_SIZE ≤ ram.lastpaddr) ∧
      ((request.perform ram).1 ≠ 0 →
        request.base (request.perform ram).1 = ram.firstpaddr.toNat) := by
  obtain ⟨null, place⟩ := perform_fst request sane
  unfold ramStealmem at null place
  dsimp only at null place
  by_cases enough : ram.firstpaddr + request.pages * PAGE_SIZE ≤ ram.lastpaddr
  · rw [if_neg (BitVec.not_lt.mpr enough)] at null place
    exact ⟨⟨fun given => ⟨mt null.mpr given, enough⟩, fun both => mt null.mp both.1⟩, place⟩
  · rw [if_pos (BitVec.not_le.mp enough)] at null
    have refused := null.mpr rfl
    exact ⟨iff_of_false (fun given => given refused) fun both => enough both.2,
      fun given => absurd refused given⟩

private theorem toNat_pages_mul
    (fits : ram.firstpaddr.toNat + request.pages.toNat * 4096 < 2 ^ 32) :
    (ram.firstpaddr + request.pages * PAGE_SIZE).toNat =
      ram.firstpaddr.toNat + request.pages.toNat * 4096 := by
  have page : PAGE_SIZE.toNat = 4096 := by decide
  rw [BitVec.toNat_add, BitVec.toNat_mul, page]
  omega

/-- Rounding up to whole pages. -/
theorem Request.bytes_le (fits : request.Fits ram) :
    request.bytes ≤ request.pages.toNat * 4096 := by
  cases request with
  | kmalloc sz =>
    have page : PAGE_SIZE.toNat = 4096 := by decide
    have one : (1 : CUnsigned).toNat = 1 := rfl
    have small : sz.toNat + 4095 < 2 ^ 32 := fits.2
    have sum : (sz + PAGE_SIZE - 1).toNat = sz.toNat + 4095 := by
      rw [BitVec.toNat_sub, BitVec.toNat_add]
      omega
    rw [Request.bytes, Request.pages, BitVec.toNat_udiv, page]
    omega
  | _ => exact Nat.le_refl _

/-- A safe call takes its region from the front of what is left. -/
theorem safe_step (sane : Sane ram) (safe : request.Safe ram) :
    ram.firstpaddr.toNat ≤ (request.perform ram).2.firstpaddr.toNat ∧
      (request.perform ram).2.firstpaddr.toNat ≤ ram.lastpaddr.toNat ∧
      (request.perform ram).2.lastpaddr = ram.lastpaddr ∧
      ((request.perform ram).1 ≠ 0 →
        request.base (request.perform ram).1 = ram.firstpaddr.toNat ∧
        ram.firstpaddr.toNat + request.bytes ≤ (request.perform ram).2.firstpaddr.toNat) := by
  have bounded := sane.bounded
  obtain ⟨given, place⟩ := perform_ne_zero request sane
  rw [perform_snd, ramStealmem]
  by_cases enough : ram.firstpaddr + request.pages * PAGE_SIZE ≤ ram.lastpaddr
  · have high := BitVec.le_def.mp enough
    rw [if_neg (BitVec.not_lt.mpr enough)]
    by_cases zero : ram.firstpaddr = 0
    · -- the first free address was 0, which callers take for a failure
      have first : ram.firstpaddr.toNat = 0 := BitVec.toNat_eq.mp zero
      exact ⟨by omega, high, rfl, fun wrong => absurd zero (given.mp wrong).1⟩
    have fits := safe ⟨zero, enough⟩
    have sum := toNat_pages_mul fits.1
    have rounded := request.bytes_le fits
    refine ⟨?_, high, rfl, fun some => ⟨place some, ?_⟩⟩ <;> rw [sum] <;> omega
  · rw [if_pos (BitVec.not_le.mp enough)]
    exact ⟨Nat.le_refl _, bounded, rfl, fun wrong => absurd (given.mp wrong).2 enough⟩

/-- A call that is not safe returns memory that is not there. -/
theorem fits_of_inside (sane : Sane ram)
    (inside : request.base (request.perform ram).1 + request.bytes ≤ ram.lastpaddr.toNat)
    (given : (request.perform ram).1 ≠ 0) : request.Fits ram := by
  have small := sane.small
  rw [(perform_ne_zero request sane).2 given] at inside
  cases request with
  | kmalloc sz =>
    have page : PAGE_SIZE.toNat = 4096 := by decide
    have one : (1 : CUnsigned).toNat = 1 := rfl
    have bytes : ram.firstpaddr.toNat + sz.toNat ≤ ram.lastpaddr.toNat := inside
    have sum : (sz + PAGE_SIZE - 1).toNat = sz.toNat + 4095 := by
      rw [BitVec.toNat_sub, BitVec.toNat_add]
      omega
    refine ⟨?_, by omega⟩
    rw [Request.pages, BitVec.toNat_udiv, page]
    omega
  | stealmem npages | getppages npages | allocKpages npages =>
    refine ⟨?_, trivial⟩
    have bytes : ram.firstpaddr.toNat + npages.toNat * 4096 ≤ ram.lastpaddr.toNat := inside
    change ram.firstpaddr.toNat + npages.toNat * 4096 < _
    omega

end

/-! ### Runs -/

section

variable {start ram : Ram} {history : List Made}

/-- What the calls of a run without wrap-around leave: all regions lie before the free memory. -/
structure Below (start : Ram) (history : List Made) (ram : Ram) : Prop where
  sane : Sane ram
  last : ram.lastpaddr = start.lastpaddr
  first : start.firstpaddr.toNat ≤ ram.firstpaddr.toNat
  earlier : ∀ s ∈ history.map Prod.fst, s.firstpaddr.toNat ≤ ram.firstpaddr.toNat
  regions : ∀ made ∈ history, Made.answer made ≠ 0 →
    start.firstpaddr.toNat ≤ Made.base made ∧ Made.limit made ≤ ram.firstpaddr.toNat

theorem next_eq {request : Request} {t : Ram} (stepped : next ram request = some t) :
    t = (request.perform ram).2 := by
  obtain ⟨-, same⟩ := Option.ite_none_right_eq_some.mp stepped
  exact (Option.some.inj same).symm

theorem Below.step {request : Request} (below : Below start history ram)
    (safe : request.Safe ram) :
    Below start ((ram, request) :: history) (request.perform ram).2 := by
  obtain ⟨rises, bounded, last, region⟩ := safe_step below.sane safe
  have first := below.first
  refine ⟨⟨by rw [last]; exact bounded, by rw [last]; exact below.sane.small⟩,
    last.trans below.last, by omega, ?_, ?_⟩
  · rw [List.map_cons, List.forall_mem_cons]
    exact ⟨rises, fun s member => Nat.le_trans (below.earlier s member) rises⟩
  rw [List.forall_mem_cons]
  constructor
  · intro given
    obtain ⟨place, size⟩ := region given
    have base : Made.base (ram, request) = ram.firstpaddr.toNat := place
    rw [Made.limit, base]
    exact ⟨first, size⟩
  · intro made member given
    obtain ⟨low, high⟩ := below.regions made member given
    exact ⟨low, Nat.le_trans high rises⟩

theorem Below.handedOut_step {request : Request} (below : Below start history ram)
    (so_far : HandedOut start history ram) (safe : request.Safe ram) :
    HandedOut start ((ram, request) :: history) (request.perform ram).2 := by
  have after := below.step safe
  obtain ⟨-, -, -, region⟩ := safe_step below.sane safe
  constructor
  · intro made member given
    obtain ⟨low, high⟩ := after.regions made member given
    have bounded := after.sane.bounded
    rw [after.last] at bounded
    exact ⟨low, Nat.le_trans high bounded⟩
  · refine List.pairwise_cons.mpr ⟨fun made member new old => .inr ?_, so_far.apart⟩
    -- what was given before lies below the place of the new region
    have base : Made.base (ram, request) = ram.firstpaddr.toNat := (region new).1
    rw [base]
    exact (below.regions made member old).2
  · refine List.pairwise_cons.mpr ⟨fun s member => BitVec.le_def.mpr ?_, so_far.rising⟩
    exact after.earlier s member
  · exact List.forall_mem_cons.mpr ⟨BitVec.le_def.mpr after.sane.bounded, so_far.bounded⟩

/-- Memory is handed out as it should be exactly when no size wraps around. -/
theorem handedOut_iff {ramsize firstfree : CUnsigned}
    (free : (ramBootstrap ramsize firstfree).firstpaddr ≤
      (ramBootstrap ramsize firstfree).lastpaddr)
    (run : Run (Computes next) (ramBootstrap ramsize firstfree) history ram) :
    HandedOut (ramBootstrap ramsize firstfree) history ram ↔
      ∀ made ∈ history, Request.Safe made.2 made.1 := by
  have sane := Sane.of_bootstrap free
  generalize ramBootstrap ramsize firstfree = start at run free sane
  suffices both : (HandedOut start history ram → ∀ made ∈ history, Request.Safe made.2 made.1) ∧
      ((∀ made ∈ history, Request.Safe made.2 made.1) →
        Below start history ram ∧ HandedOut start history ram) from
    ⟨both.1, fun safe => (both.2 safe).2⟩
  -- both directions go along the run together, as each call starts where safe ones have led
  induction run with
  | start =>
    refine ⟨fun _ => nofun, fun _ => ⟨⟨sane, rfl, Nat.le_refl _, nofun, nofun⟩, ?_⟩⟩
    exact ⟨nofun, .nil, List.pairwise_singleton _ _, List.forall_mem_singleton.mpr free⟩
  | @next history s request t _ taken ih =>
    cases next_eq taken
    constructor
    · intro handed
      have before : HandedOut start history s :=
        ⟨(List.forall_mem_cons.mp handed.inside).2, (List.pairwise_cons.mp handed.apart).2,
          (List.pairwise_cons.mp handed.rising).2, (List.forall_mem_cons.mp handed.bounded).2⟩
      have safe := ih.1 before
      refine List.forall_mem_cons.mpr ⟨fun enough => ?_, safe⟩
      have below := (ih.2 safe).1
      have given := (perform_ne_zero request below.sane).1.mpr enough
      have inside := ((List.forall_mem_cons.mp handed.inside).1 given).2
      rw [← below.last] at inside
      exact fits_of_inside below.sane inside given
    intro safe
    obtain ⟨last, earlier⟩ := List.forall_mem_cons.mp safe
    obtain ⟨below, so_far⟩ := ih.2 earlier
    exact ⟨below.step last, below.handedOut_step so_far last⟩

end

/-- Half a megabyte of memory, of which the kernel takes the first 128k. -/
def small : Ram := ramBootstrap 0x80000 0x80020000

/-- Requests of the usual sizes. -/
theorem handedOut_small :
    ∃ history ram, Run (Computes next) small history ram ∧
      history.map Prod.snd = [.stealmem 12, .kmalloc 5000, .allocKpages 1] ∧
      HandedOut small history ram := by
  have run : Run (Computes next) small [(⟨0x23000, 0x80000⟩, .stealmem 12),
      (⟨0x21000, 0x80000⟩, .kmalloc 5000), (small, .allocKpages 1)] ⟨0x2f000, 0x80000⟩ :=
    .next (.next (.next .start rfl) rfl) rfl
  exact ⟨_, _, run, rfl, (handedOut_iff (by decide) run).mpr (by decide)⟩

/-- A program may ask for `0xfffff` pages. It gets an address, and the next page that is handed
out belongs to the kernel. -/
theorem not_handedOut_small :
    ∃ history ram, Run (Computes next) small history ram ∧
      history.map Prod.snd = [.allocKpages 1, .getppages 0xfffff] ∧
      history.map Made.answer = [0x8001f000, 0x20000] ∧
      ram.firstpaddr = small.firstpaddr ∧ ¬ HandedOut small history ram := by
  have run : Run (Computes next) small [(⟨0x1f000, 0x80000⟩, .allocKpages 1),
      (small, .getppages 0xfffff)] ⟨0x20000, 0x80000⟩ :=
    .next (.next .start rfl) rfl
  refine ⟨_, _, run, rfl, by decide, by decide, fun handed => ?_⟩
  have inside := (handed.inside (⟨0x1f000, 0x80000⟩, .allocKpages 1) (by decide) (by decide)).1
  exact absurd inside (by decide)

end Os161.Vm
