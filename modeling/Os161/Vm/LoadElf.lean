import Os161.Foundation.Words
import Os161.Vm.AddrSpace

/-!
# Loading a program, `loadelf.c`

`load_elf` goes through the program headers of a file and defines a region for each segment that
is to be loaded. Then `as_prepare_load` gives them memory, and the pages of the program can be
touched. Whether `vm_fault` accepts the address space depends on the file alone.
-/
namespace Os161.Vm

open Foundation

/-- `VOP_READ` of a file: some bytes at an offset, fewer than asked for at its end. -/
abbrev VopRead := CInt → Nat → Except Errno (List Byte)

/-- A read into a structure, which must be filled. -/
def VopRead.whole (read : VopRead) (offset : CInt) (length : Nat) : Except Errno (List Byte) := do
  let bytes ← read offset length
  if bytes.length = length then .ok bytes else .error .ENOEXEC

/-- A field of two bytes, the higher first. -/
def half (bytes : List Byte) (i : Nat) : BitVec 16 := bytes.getD i 0 ++ bytes.getD (i + 1) 0

def word (bytes : List Byte) (i : Nat) : CUnsigned :=
  Word.ofBytes (bytes.getD i 0) (bytes.getD (i + 1) 0) (bytes.getD (i + 2) 0) (bytes.getD (i + 3) 0)

/-- What `load_elf` uses of an `Elf_Ehdr`. -/
structure Ehdr where
  phoff : CUnsigned
  phentsize : BitVec 16
  phnum : BitVec 16
  deriving DecidableEq

/-- The first 7 bytes: the magic number, `ELFCLASS32`, `ELFDATA2MSB` and `EV_CURRENT`. -/
def ident : List Byte := [0x7f, 0x45, 0x4c, 0x46, 1, 2, 1]

/-- The header of an executable file for this machine: `EV_CURRENT`, `ET_EXEC` and `EM_MIPS`. -/
def ehdr (bytes : List Byte) : Except Errno Ehdr :=
  if bytes.take 7 = ident ∧ word bytes 20 = 1 ∧ half bytes 16 = 2 ∧ half bytes 18 = 8 then
    .ok ⟨word bytes 28, half bytes 42, half bytes 44⟩
  else .error .ENOEXEC

/-- What `load_elf` uses of an `Elf_Phdr` when it sets up the address space. -/
structure Phdr where
  type : CUnsigned
  vaddr : CUnsigned
  memsz : CUnsigned
  deriving DecidableEq

/-- Program header `i`, at `eh.e_phoff + i*eh.e_phentsize`. -/
def readPhdr (read : VopRead) (eh : Ehdr) (i : Nat) : Except Errno Phdr := do
  let bytes ← read.whole (eh.phoff + BitVec.ofNat 32 i * eh.phentsize.setWidth 32) 32
  .ok ⟨word bytes 0, word bytes 8, word bytes 20⟩

def PT_LOAD : CUnsigned := 1

/-- `PT_NULL`, `PT_PHDR` and `PT_MIPS_REGINFO`. -/
def skipped : List CUnsigned := [0, 6, 0x70000000]

/-- The first loop of `load_elf`, from header `i` on. -/
def scanLoop (read : VopRead) (eh : Ehdr) : Nat → Nat → AddrSpace → Except Errno AddrSpace
  | 0, _, as => .ok as
  | left + 1, i, as =>
    match readPhdr read eh i with
    | .error e => .error e
    | .ok ph =>
      if ph.type ∈ skipped then scanLoop read eh left (i + 1) as
      else if ph.type = PT_LOAD then
        match asDefineRegion as ph.vaddr ph.memsz with
        | .error e => .error e
        | .ok as' => scanLoop read eh left (i + 1) as'
      else .error .ENOEXEC

/-- `load_elf` up to `as_prepare_load`, in a new address space. -/
def scan (read : VopRead) : Except Errno AddrSpace :=
  match read.whole 0 52 with
  | .error e => .error e
  | .ok bytes =>
    match ehdr bytes with
    | .error e => .error e
    | .ok eh => scanLoop read eh eh.phnum.toNat 0 asCreate

/-! ### The segments of a file -/

/-- The segments to be loaded, from header `i` on. -/
def segmentsFrom (read : VopRead) (eh : Ehdr) : Nat → Nat → List Phdr
  | 0, _ => []
  | left + 1, i =>
    match readPhdr read eh i with
    | .error _ => []
    | .ok ph => if ph.type = PT_LOAD then ph :: segmentsFrom read eh left (i + 1)
      else segmentsFrom read eh left (i + 1)

def segments (read : VopRead) : List Phdr :=
  match read.whole 0 52 with
  | .error _ => []
  | .ok bytes =>
    match ehdr bytes with
    | .error _ => []
    | .ok eh => segmentsFrom read eh eh.phnum.toNat 0

namespace Phdr

def base (ph : Phdr) : CUnsigned := ph.vaddr &&& PAGE_FRAME

def pages (ph : Phdr) : CUnsigned := regionPages ph.vaddr ph.memsz

end Phdr

/-- The segments that do not begin on page 0, whose base counts as no region. -/
def placed (segments : List Phdr) : List Phdr := segments.filter fun ph => ph.base ≠ 0

/-- Exactly two segments lie beyond page 0, and neither is empty. -/
def TwoRegions (segments : List Phdr) : Prop :=
  ∃ first second, placed segments = [first, second] ∧ first.pages ≠ 0 ∧ second.pages ≠ 0

theorem placed_cons_zero {ph : Phdr} (zero : ph.base = 0) (l : List Phdr) :
    placed (ph :: l) = placed l :=
  List.filter_cons_of_neg fun beyond => of_decide_eq_true beyond zero

theorem placed_cons {ph : Phdr} (beyond : ph.base ≠ 0) (l : List Phdr) :
    placed (ph :: l) = ph :: placed l :=
  List.filter_cons_of_pos (decide_eq_true beyond)

def defineAll : AddrSpace → List Phdr → Except Errno AddrSpace
  | as, [] => .ok as
  | as, ph :: l =>
    match asDefineRegion as ph.vaddr ph.memsz with
    | .error e => .error e
    | .ok as' => defineAll as' l

private theorem scanLoop_eq {read : VopRead} {eh : Ehdr} {left i : Nat} {as as' : AddrSpace}
    (scanned : scanLoop read eh left i as = .ok as') :
    defineAll as (segmentsFrom read eh left i) = .ok as' := by
  induction left generalizing i as with
  | zero => exact scanned
  | succ left ih =>
    unfold scanLoop at scanned
    unfold segmentsFrom
    cases header : readPhdr read eh i with
    | error e => simp only [header, reduceCtorEq] at scanned
    | ok ph =>
      simp only [header] at scanned ⊢
      by_cases skip : ph.type ∈ skipped
      · have other : ph.type ≠ PT_LOAD := fun load => by
          rw [load] at skip
          exact absurd skip (by decide)
        rw [if_pos skip] at scanned
        rw [if_neg other]
        exact ih scanned
      rw [if_neg skip] at scanned
      by_cases load : ph.type = PT_LOAD
      · rw [if_pos load] at scanned ⊢
        unfold defineAll
        cases defined : asDefineRegion as ph.vaddr ph.memsz with
        | error e => simp only [defined, reduceCtorEq] at scanned
        | ok as₁ =>
          simp only [defined] at scanned ⊢
          exact ih scanned
      · rw [if_neg load] at scanned
        cases scanned

private theorem scan_eq {read : VopRead} {as : AddrSpace} (scanned : scan read = .ok as) :
    defineAll asCreate (segments read) = .ok as := by
  unfold scan at scanned
  unfold segments
  cases start : read.whole 0 52 with
  | error e => simp only [start, reduceCtorEq] at scanned
  | ok bytes =>
    simp only [start] at scanned ⊢
    cases header : ehdr bytes with
    | error e => simp only [header, reduceCtorEq] at scanned
    | ok eh =>
      simp only [header] at scanned ⊢
      exact scanLoop_eq scanned

/-! ### The two places for regions -/

section

variable {as as' : AddrSpace} {l : List Phdr}

/-- The address space with the first region set, and with the second. -/
def AddrSpace.withFirst (as : AddrSpace) (ph : Phdr) : AddrSpace :=
  { as with vbase1 := ph.base, npages1 := ph.pages }

def AddrSpace.withSecond (as : AddrSpace) (ph : Phdr) : AddrSpace :=
  { as with vbase2 := ph.base, npages2 := ph.pages }

theorem defineAll_first (free : as.vbase1 = 0) (ph : Phdr) :
    defineAll as (ph :: l) = defineAll (as.withFirst ph) l := by
  rw [defineAll, asDefineRegion, if_pos free]
  rfl

theorem defineAll_second (first : as.vbase1 ≠ 0) (free : as.vbase2 = 0) (ph : Phdr) :
    defineAll as (ph :: l) = defineAll (as.withSecond ph) l := by
  rw [defineAll, asDefineRegion, if_neg first, if_pos free]
  rfl

/-- When both are taken there is none for another region. -/
theorem defineAll_full (first : as.vbase1 ≠ 0) (second : as.vbase2 ≠ 0)
    (defined : defineAll as l = .ok as') : l = [] ∧ as' = as := by
  cases l with
  | nil =>
    cases defined
    exact ⟨rfl, rfl⟩
  | cons ph l =>
    rw [defineAll, asDefineRegion, if_neg first, if_neg second] at defined
    cases defined

private theorem defineAll_one (first : as.vbase1 ≠ 0) (free : as.vbase2 = 0)
    (defined : defineAll as l = .ok as') :
    as'.vbase1 = as.vbase1 ∧ as'.npages1 = as.npages1 ∧
      ((placed l = [] ∧ as'.vbase2 = 0) ∨
        ∃ ph, placed l = [ph] ∧ as'.vbase2 = ph.base ∧ as'.npages2 = ph.pages) := by
  induction l generalizing as with
  | nil =>
    cases defined
    exact ⟨rfl, rfl, .inl ⟨rfl, free⟩⟩
  | cons ph l ih =>
    rw [defineAll_second first free] at defined
    by_cases zero : ph.base = 0
    · -- a base of 0 leaves the place free, for the next region to take
      rw [placed_cons_zero zero]
      exact @ih (as.withSecond ph) first zero defined
    have before : (as.withSecond ph).vbase1 ≠ 0 := first
    have taken : (as.withSecond ph).vbase2 ≠ 0 := zero
    obtain ⟨rfl, rfl⟩ := defineAll_full before taken defined
    rw [placed_cons zero]
    exact ⟨rfl, rfl, .inr ⟨ph, rfl, rfl, rfl⟩⟩

private theorem defineAll_none (free : as.vbase1 = 0) (free' : as.vbase2 = 0)
    (defined : defineAll as l = .ok as') :
    (placed l = [] ∧ as'.vbase1 = 0) ∨ (∃ ph, placed l = [ph] ∧ as'.vbase2 = 0) ∨
      ∃ first second, placed l = [first, second] ∧ as'.vbase1 = first.base ∧
        as'.npages1 = first.pages ∧ as'.vbase2 = second.base ∧ as'.npages2 = second.pages := by
  induction l generalizing as with
  | nil =>
    cases defined
    exact .inl ⟨rfl, free⟩
  | cons ph l ih =>
    rw [defineAll_first free] at defined
    by_cases zero : ph.base = 0
    · rw [placed_cons_zero zero]
      exact @ih (as.withFirst ph) zero free' defined
    rw [placed_cons zero]
    have taken : (as.withFirst ph).vbase1 ≠ 0 := zero
    obtain ⟨base, pages, ⟨none, second⟩ | ⟨other, one, base', pages'⟩⟩ :=
      defineAll_one taken free' defined
    · exact .inr (.inl ⟨ph, by rw [none], second⟩)
    · exact .inr (.inr ⟨ph, other, by rw [one], base, pages, base', pages'⟩)

private theorem placed_base_ne {ph : Phdr} (member : ph ∈ placed l) : ph.base ≠ 0 :=
  of_decide_eq_true (List.mem_filter.mp member).2

/-- The address space of a program is proper if its segments are. -/
theorem proper_iff {ram ram' : Ram} (page : ram.firstpaddr.toNat % 4096 = 0)
    (defined : defineAll asCreate l = .ok as)
    (prepared : asPrepareLoad as ram = .ok (.success, as', ram')) :
    as'.Proper ↔ TwoRegions l := by
  obtain ⟨pbase1, pbase2, stackpbase, rfl, first, second, stack, pages⟩ := asPrepareLoad_eq prepared
  obtain ⟨page1, page2, page3⟩ := pages page
  simp only [AddrSpace.Proper, and_frame_eq_self]
  rcases defineAll_none rfl rfl defined with
    ⟨none, zero⟩ | ⟨ph, one, zero⟩ | ⟨ph, ph', both, base, pages, base', pages'⟩
  · refine iff_of_false (fun proper => proper.1 zero) ?_
    rintro ⟨_, _, two, -⟩
    rw [none] at two
    cases two
  · refine iff_of_false (fun proper => proper.2.2.2.1 zero) ?_
    rintro ⟨_, _, two, -⟩
    rw [one] at two
    cases two
  have beyond : ph.base ≠ 0 := placed_base_ne (l := l) (by rw [both]; exact List.mem_cons_self)
  have beyond' : ph'.base ≠ 0 :=
    placed_base_ne (l := l) (by rw [both]; exact List.mem_cons_of_mem _ List.mem_cons_self)
  have aligned (p : Phdr) : p.base.toNat % 4096 = 0 := by
    rw [← and_frame_eq_self]
    exact and_frame_twice p.vaddr
  constructor
  · rintro ⟨-, -, some1, -, -, some2, -⟩
    exact ⟨ph, ph', both, by rwa [← pages], by rwa [← pages']⟩
  rintro ⟨p, p', two, some1, some2⟩
  rw [both] at two
  cases two
  rw [base, base', pages, pages']
  exact ⟨beyond, first, some1, beyond', second, some2, stack, aligned _, page1, aligned _, page2,
    page3⟩

end

/-! ### What the regions cover -/

/-- The bytes from `start` up to `stop` lie in one of the two regions. -/
def AddrSpace.Covers (as : AddrSpace) (start stop : Nat) : Prop :=
  (as.vbase1.toNat ≤ start ∧ stop ≤ as.vbase1.toNat + as.npages1.toNat * 4096) ∨
    (as.vbase2.toNat ≤ start ∧ stop ≤ as.vbase2.toNat + as.npages2.toNat * 4096)

instance (as : AddrSpace) (start stop : Nat) : Decidable (as.Covers start stop) :=
  inferInstanceAs (Decidable (_ ∨ _))

private theorem toNat_and_not_frame (a : CUnsigned) :
    (a &&& ~~~PAGE_FRAME).toNat = a.toNat % 4096 := by
  have mask : (~~~PAGE_FRAME).toNat = 2 ^ 12 - 1 := by decide
  rw [BitVec.toNat_and, mask, Nat.and_two_pow_sub_one_eq_mod]

/-- Behind page 0 nothing wraps around. -/
theorem Phdr.covered {ph : Phdr} (beyond : 4096 ≤ ph.vaddr.toNat)
    (inside : ph.vaddr.toNat + ph.memsz.toNat ≤ 2 ^ 32) :
    ph.base ≠ 0 ∧ ph.base.toNat ≤ ph.vaddr.toNat ∧
      ph.vaddr.toNat + ph.memsz.toNat ≤ ph.base.toNat + ph.pages.toNat * 4096 := by
  have size : PAGE_SIZE.toNat = 4096 := by decide
  have one : (1 : CUnsigned).toNat = 1 := rfl
  have base : ph.base.toNat = ph.vaddr.toNat / 4096 * 4096 := toNat_and_frame ph.vaddr
  have total : (ph.memsz + (ph.vaddr &&& ~~~PAGE_FRAME) + PAGE_SIZE - 1).toNat =
      ph.memsz.toNat + ph.vaddr.toNat % 4096 + 4095 := by
    rw [BitVec.toNat_sub, BitVec.toNat_add, BitVec.toNat_add, toNat_and_not_frame]
    omega
  have pages : ph.pages.toNat = (ph.memsz.toNat + ph.vaddr.toNat % 4096 + 4095) / 4096 := by
    rw [Phdr.pages, regionPages, BitVec.toNat_udiv, toNat_and_frame, size]
    omega
  refine ⟨fun zero => ?_, by omega, by omega⟩
  have none : ph.base.toNat = 0 := congrArg BitVec.toNat zero
  omega

/-- If no region begins on page 0, all bytes that were asked for are covered. -/
theorem regions_cover {l : List Phdr} {as : AddrSpace} (defined : defineAll asCreate l = .ok as)
    (inside : ∀ ph ∈ l, ph.vaddr.toNat + ph.memsz.toNat ≤ 2 ^ 32)
    (beyond : ∀ ph ∈ l, 4096 ≤ ph.vaddr.toNat) :
    ∀ ph ∈ l, as.Covers ph.vaddr.toNat (ph.vaddr.toNat + ph.memsz.toNat) := by
  have fits := fun ph member => Phdr.covered (beyond ph member) (inside ph member)
  match l with
  | [] => simp
  | [ph] =>
    cases defined
    have first := fits ph (by simp)
    simpa using .inl first.2
  | ph :: ph' :: l =>
    have first := fits ph (by simp)
    have second := fits ph' (by simp)
    rw [defineAll_first rfl, defineAll_second first.1 rfl] at defined
    -- there is no place for a third region
    have taken : ((asCreate.withFirst ph).withSecond ph').vbase1 ≠ 0 := first.1
    obtain ⟨rfl, rfl⟩ := defineAll_full taken second.1 defined
    simpa using ⟨.inl first.2, .inr second.2⟩

/-- Text and data of a program. -/
theorem regions_cover_program :
    ∃ as, defineAll asCreate [⟨1, 0x400010, 0x1234⟩, ⟨1, 0x10000000, 0x800⟩] = .ok as ∧
      as.Covers 0x400010 0x401244 := by
  refine ⟨⟨0x400000, 0, 2, 0x10000000, 0, 1, 0⟩, by decide, ?_⟩
  exact regions_cover (l := [⟨1, 0x400010, 0x1234⟩, ⟨1, 0x10000000, 0x800⟩]) (by decide) (by decide)
    (by decide) ⟨1, 0x400010, 0x1234⟩ (by decide)

/-- A region on page 0 is gone when the next one is defined. -/
theorem region_dropped :
    ∃ as, defineAll asCreate [⟨1, 0, 0x1000⟩, ⟨1, 0x400000, 0x1000⟩] = .ok as ∧
      ¬ as.Covers 0 0x1000 :=
  ⟨⟨0x400000, 0, 1, 0, 0, 0, 0⟩, by decide, by decide⟩

/-! ### Faults of a program -/

/-- The address that `start.S` stores in `firstfree`: after the kernel, a boot string of `length`
bytes and a page for the first stack. -/
def firstfree (kernelEnd length : CUnsigned) : CUnsigned :=
  ((kernelEnd + length + 1 + 4095) &&& PAGE_FRAME) + 4096

/-- Free memory begins at a page, whatever has been handed out. -/
theorem firstpaddr_page {ramsize kernelEnd length : CUnsigned} {history : List Made} {ram : Ram}
    (run : Run (Computes next) (ramBootstrap ramsize (firstfree kernelEnd length)) history ram) :
    ram.firstpaddr.toNat % 4096 = 0 := by
  induction run with
  | start =>
    have page := toNat_and_frame (kernelEnd + length + 1 + 4095)
    have kseg0 : MIPS_KSEG0.toNat = 2 ^ 31 := by decide
    have step : (4096 : CUnsigned).toNat = 4096 := rfl
    rw [ramBootstrap, firstfree, BitVec.toNat_sub, BitVec.toNat_add]
    omega
  | next _ taken ih =>
    cases next_eq taken
    rw [perform_snd]
    exact (getppages_page _ ih).2

/-- Every access to the memory of the program returns, with 0 or `EFAULT`. -/
def Accepted (as : AddrSpace) : Prop :=
  ∀ faulttype, faulttype = .read ∨ faulttype = .write → ∀ faultaddress tlb, ∃ result tlb',
    vmFault faulttype faultaddress (some as) tlb = .ok (result, tlb') ∧
      (result = .success ∨ result = .EFAULT)

theorem accepted_iff {as : AddrSpace} : Accepted as ↔ as.Proper := by
  constructor
  · intro accepted
    by_contra improper
    obtain ⟨result, tlb', returned, -⟩ := accepted .read (.inl rfl) 0 asActivate
    rw [vmFault_improper (.inl rfl) improper] at returned
    cases returned
  intro proper faulttype access faultaddress tlb
  rcases vmFault_proper access proper faultaddress tlb with ⟨-, refused⟩ | ⟨_, _, -, -, -, done⟩
  · exact ⟨_, _, refused, .inr rfl⟩
  · exact ⟨_, _, done, .inl rfl⟩

/-- The program can be run exactly if its file has two segments that are not empty and do not
begin on page 0, besides any that do. -/
theorem accepted_iff_twoRegions {ramsize kernelEnd length : CUnsigned} {history : List Made}
    {ram ram' : Ram} {as as' : AddrSpace}
    (run : Run (Computes next) (ramBootstrap ramsize (firstfree kernelEnd length)) history ram)
    (read : VopRead) (scanned : scan read = .ok as)
    (prepared : asPrepareLoad as ram = .ok (.success, as', ram')) :
    Accepted as' ↔ TwoRegions (segments read) := by
  rw [accepted_iff]
  exact proper_iff (firstpaddr_page run) (scan_eq scanned) prepared

/-! ### Files -/

def unword (w : CUnsigned) : List Byte := (List.range 4).map (Word.byte w)

/-- A file with these segments, as they are `(p_vaddr, p_memsz)`. -/
def elfFile (loads : List (CUnsigned × CUnsigned)) : List Byte :=
  ident ++ List.replicate 9 0 ++ [0, 2, 0, 8] ++ unword 1 ++ unword 0x400000 ++ unword 52 ++
    List.replicate 10 0 ++ [0, 32, 0, BitVec.ofNat 8 loads.length] ++ List.replicate 6 0 ++
    loads.flatMap fun load => unword PT_LOAD ++ unword 0 ++ unword load.1 ++ unword 0 ++ unword 0 ++
      unword load.2 ++ unword 5 ++ unword 4096

def contents (file : List Byte) : VopRead := fun offset length =>
  .ok ((file.drop offset.toNat).take length)

/-- Text and data, as the linker makes them. -/
theorem accepted_linked :
    ∃ as as' ram', scan (contents (elfFile [(0x400000, 0x1234), (0x10000000, 0x800)])) = .ok as ∧
      asPrepareLoad as (ramBootstrap 0x80000 (firstfree 0x8001e5a0 5)) = .ok (.success, as', ram') ∧
      Accepted as' := by
  have scanned : scan (contents (elfFile [(0x400000, 0x1234), (0x10000000, 0x800)])) =
      .ok ⟨0x400000, 0, 2, 0x10000000, 0, 1, 0⟩ := by decide +kernel
  have prepared : asPrepareLoad ⟨0x400000, 0, 2, 0x10000000, 0, 1, 0⟩
      (ramBootstrap 0x80000 (firstfree 0x8001e5a0 5)) =
      .ok (.success, ⟨0x400000, 0x20000, 2, 0x10000000, 0x22000, 1, 0x23000⟩,
        ⟨0x2f000, 0x80000⟩) := by decide +kernel
  refine ⟨_, _, _, scanned, prepared, (accepted_iff_twoRegions .start _ scanned prepared).mpr ?_⟩
  exact ⟨⟨PT_LOAD, 0x400000, 0x1234⟩, ⟨PT_LOAD, 0x10000000, 0x800⟩, by decide +kernel, by decide,
    by decide⟩

/-- A program without data is loaded, and its first instruction stops the machine. -/
theorem not_accepted_one_segment :
    ∃ as as' ram', scan (contents (elfFile [(0x400000, 0x1234)])) = .ok as ∧
      asPrepareLoad as (ramBootstrap 0x80000 (firstfree 0x8001e5a0 5)) = .ok (.success, as', ram') ∧
      vmFault .read 0x400000 (some as') asActivate = .error .assertion ∧ ¬ Accepted as' := by
  have scanned : scan (contents (elfFile [(0x400000, 0x1234)])) =
      .ok ⟨0x400000, 0, 2, 0, 0, 0, 0⟩ := by decide +kernel
  have prepared : asPrepareLoad ⟨0x400000, 0, 2, 0, 0, 0, 0⟩
      (ramBootstrap 0x80000 (firstfree 0x8001e5a0 5)) =
      .ok (.success, ⟨0x400000, 0x20000, 2, 0, 0x22000, 0, 0x22000⟩, ⟨0x2e000, 0x80000⟩) := by
    decide +kernel
  have improper : ¬ AddrSpace.Proper ⟨0x400000, 0x20000, 2, 0, 0x22000, 0, 0x22000⟩ := by decide
  exact ⟨_, _, _, scanned, prepared, vmFault_improper (.inl rfl) improper 0x400000 asActivate,
    fun accepted => improper (accepted_iff.mp accepted)⟩

end Os161.Vm
