import Mathlib.Algebra.Group.Nat.Defs
import Os161.Foundation.Bits
import Os161.Foundation.Chain

/-!
# The subpage allocator, `kheap.c`

Blocks of one size lie together on a page. A page has an entry in `pagerefs`, which is on the list
of its size and on the list of all pages; the free blocks of a page are a list too, with the
pointers in the blocks. Addresses and words are numbers below `2 ^ 32`, and sums and differences
of them wrap around.
-/
namespace Os161.Kheap

open Foundation
open Function (update)

def PAGE_SIZE : Nat := 4096

def MIPS_KSEG0 : Nat := 0x80000000

def MIPS_KSEG1 : Nat := 0xa0000000

def NSIZES : Nat := 8

def sizes : List Nat := [16, 32, 64, 128, 256, 512, 1024, 2048]

def size (blktype : Nat) : Nat := sizes.getD blktype 0

def LARGEST_SUBPAGE_SIZE : Nat := 2048

def NPAGEREFS : Nat := 256

def INUSE_WORDS : Nat := NPAGEREFS / 32

def INVALID_OFFSET : Nat := 0xffff

/-- A sum and a difference of 32-bit words. -/
def add32 (a b : Nat) : Nat := (a + b) % 2 ^ 32

def sub32 (a b : Nat) : Nat := (a + 2 ^ 32 - b) % 2 ^ 32

/-- What keeps a call from returning. -/
inductive Stop where
  | assertion
  | panic
  /-- A loop over a list does not end. -/
  | endless
  deriving DecidableEq

/-- The variables of `kheap.c`, and memory by words. A pointer to a `struct pageref` is its index,
and the fields of the structures are functions of it. -/
structure Heap where
  nextSamesize : Nat → Option Nat
  nextAll : Nat → Option Nat
  pageaddrAndBlocktype : Nat → Nat
  freelistOffset : Nat → Nat
  nfree : Nat → Nat
  inuse : Nat → BitVec 32
  sizebases : Nat → Option Nat
  allbase : Option Nat
  memory : Nat → Nat

namespace Heap

/-- `PR_PAGEADDR`: the bits in `PAGE_FRAME`. -/
def pageaddr (h : Heap) (pr : Nat) : Nat :=
  h.pageaddrAndBlocktype pr - h.pageaddrAndBlocktype pr % PAGE_SIZE

/-- `PR_BLOCKTYPE`: the others. -/
def blocktype (h : Heap) (pr : Nat) : Nat := h.pageaddrAndBlocktype pr % PAGE_SIZE

def mkpab (pa blk : Nat) : Nat := pa - pa % PAGE_SIZE + blk % PAGE_SIZE

/-! ### Pagerefs -/

/-- `for (k=1,j=0; k!=0; k<<=1,j++)`, up to the first bit that is clear. -/
def clearBit (w : BitVec 32) : Nat → BitVec 32 → Nat → Except Stop (BitVec 32 × Nat)
  | 0, _, _ => .error .endless
  | rounds + 1, k, j =>
    if k = 0 then .error .assertion
    else if w &&& k = 0 then .ok (k, j)
    else clearBit w rounds (k <<< 1) (j + 1)

/-- The loop of `allocpageref`, from word `i` on. -/
def allocpagerefFrom (h : Heap) (i : Nat) : Nat → Except Stop (Option Nat × Heap)
  | 0 => .ok (none, h)
  | left + 1 =>
    if h.inuse i = 0xffffffff then allocpagerefFrom h (i + 1) left
    else
      match clearBit (h.inuse i) 33 1 0 with
      | .error stop => .error stop
      | .ok (k, j) =>
        .ok (some (i * 32 + j), { h with inuse := update h.inuse i (h.inuse i ||| k) })

def allocpageref (h : Heap) : Except Stop (Option Nat × Heap) := h.allocpagerefFrom 0 INUSE_WORDS

def freepageref (p : Nat) (h : Heap) : Except Stop Heap :=
  if p < NPAGEREFS ∧ h.inuse (p / 32) &&& 1#32 <<< (p % 32) ≠ 0 then
    .ok { h with
      inuse := update h.inuse (p / 32) (h.inuse (p / 32) &&& ~~~(1#32 <<< (p % 32))) }
  else .error .assertion

/-! ### `subpage_kmalloc` -/

def removeLists (pr blktype : Nat) (h : Heap) : Except Stop Heap :=
  if blktype < NSIZES then
    match Links.remove .endless pr (NPAGEREFS + 1) none ⟨h.sizebases blktype, h.nextSamesize⟩ with
    | .error stop => .error stop
    | .ok same =>
      match Links.remove .endless pr (NPAGEREFS + 1) none ⟨h.allbase, h.nextAll⟩ with
      | .error stop => .error stop
      | .ok all =>
        .ok { h with
          sizebases := update h.sizebases blktype same.base, nextSamesize := same.next
          allbase := all.base, nextAll := all.next }
  else .error .assertion

/-- `blocktype`. -/
def blocktypeOf (sz : Nat) : Except Stop Nat :=
  match sizes.findIdx? (sz ≤ ·) with
  | some i => .ok i
  | none => .error .panic

/-- From `doalloc` on: takes the first block of the page `pr`. -/
def doalloc (pr : Nat) (h : Heap) : Except Stop (Nat × Heap) :=
  if h.freelistOffset pr < PAGE_SIZE then
    let prpage := h.pageaddr pr
    let retptr := add32 prpage (h.freelistOffset pr)
    let fl := h.memory retptr
    let nfree := (h.nfree pr + 0xffff) % 2 ^ 16
    let offset := sub32 fl prpage
    if fl ≠ 0 then
      if 0 < nfree ∧ offset < PAGE_SIZE then
        .ok (retptr, { h with
          nfree := update h.nfree pr nfree
          freelistOffset := update h.freelistOffset pr offset })
      else .error .assertion
    else if nfree = 0 then
      .ok (retptr, { h with
        nfree := update h.nfree pr nfree
        freelistOffset := update h.freelistOffset pr INVALID_OFFSET })
    else .error .assertion
  else .error .assertion

/-- The loop that makes the list of free blocks, from block `i` on, with the block that `fl` points
to at its end. -/
def thread (fla sz i : Nat) : Nat → Nat → (Nat → Nat) → Except Stop (Nat × (Nat → Nat))
  | 0, fl, memory => .ok (fl, memory)
  | left + 1, _, memory =>
    let fl := add32 fla (i * sz)
    let before := add32 fla ((i - 1) * sz)
    if fl ≠ before then thread fla sz (i + 1) left fl (update memory fl before)
    else .error .assertion

def freshPage (pr blktype prpage : Nat) (h : Heap) : Except Stop Heap :=
  let nfree := PAGE_SIZE / size blktype
  match thread prpage (size blktype) 1 (nfree - 1) prpage (update h.memory prpage 0) with
  | .error stop => .error stop
  | .ok (fl, memory) =>
    let offset := sub32 fl prpage % 2 ^ 16
    if offset = (nfree - 1) * size blktype then
      .ok { h with
        pageaddrAndBlocktype := update h.pageaddrAndBlocktype pr (mkpab prpage blktype)
        nfree := update h.nfree pr nfree
        memory := memory
        freelistOffset := update h.freelistOffset pr offset
        nextSamesize := update h.nextSamesize pr (h.sizebases blktype)
        sizebases := update h.sizebases blktype (some pr)
        nextAll := update h.nextAll pr h.allbase
        allbase := some pr }
    else .error .assertion

/-- The body of the loop over the pages of one size. -/
def hasFree (h : Heap) (blktype pr : Nat) : Except Stop Bool :=
  if h.blocktype pr = blktype then .ok (0 < h.nfree pr) else .error .assertion

/-- `subpage_kmalloc`. The answer of `allocpageref` is `NULL` if it is `refused`, and `page` is that
of `alloc_kpages`. -/
def subpageKmalloc (sz : Nat) (refused : Bool) (page : Nat) (h : Heap) : Except Stop (Nat × Heap) :=
  match blocktypeOf sz with
  | .error stop => .error stop
  | .ok blktype =>
    match search .endless h.nextSamesize (h.hasFree blktype) (NPAGEREFS + 1)
      (h.sizebases blktype) with
    | .error stop => .error stop
    | .ok (some pr) => h.doalloc pr
    | .ok none =>
      match if refused then .ok (none, h) else h.allocpageref with
      | .error stop => .error stop
      | .ok (none, h) => .ok (0, h)
      | .ok (some pr, h) =>
        if page = 0 then (h.freepageref pr).map fun h => (0, h)
        else
          match h.freshPage pr blktype page with
          | .error stop => .error stop
          | .ok h => h.doalloc pr

def kmalloc (sz : Nat) (refused : Bool) (page : Nat) (h : Heap) : Except Stop (Nat × Heap) :=
  -- `alloc_kpages` is asked for all the pages of a large block
  if LARGEST_SUBPAGE_SIZE ≤ sz then .ok (page, h) else h.subpageKmalloc sz refused page

/-! ### `subpage_kfree` -/

/-- `fill_deadbeef`, in words. -/
def fillDeadbeef (ptr : Nat) : Nat → (Nat → Nat) → Nat → Nat
  | 0, memory => memory
  | len + 1, memory => fillDeadbeef (ptr + 4) len (update memory ptr 0xdeadbeef)

/-- The body of the loop over all pages. -/
def holds (h : Heap) (ptraddr pr : Nat) : Except Stop Bool :=
  if h.blocktype pr < NSIZES then
    .ok (h.pageaddr pr ≤ ptraddr ∧ ptraddr < add32 (h.pageaddr pr) PAGE_SIZE)
  else .error .assertion

/-- The block at `offset` becomes the first one on the list of the page. -/
def putBlock (pr offset : Nat) (h : Heap) : Heap :=
  let prpage := h.pageaddr pr
  let fla := add32 prpage offset
  let next := if h.freelistOffset pr = INVALID_OFFSET then 0 else add32 prpage (h.freelistOffset pr)
  { h with
    memory := update h.memory fla next
    freelistOffset := update h.freelistOffset pr (offset % 2 ^ 16)
    nfree := update h.nfree pr ((h.nfree pr + 1) % 2 ^ 16) }

/-- The end of `subpage_kfree`: a page without a block in use is given up. `free_kpages` does
nothing. -/
def release (pr blktype : Nat) (h : Heap) : Except Stop (Bool × Heap) :=
  if h.nfree pr ≤ PAGE_SIZE / size blktype then
    if h.nfree pr = PAGE_SIZE / size blktype then
      match h.removeLists pr blktype with
      | .error stop => .error stop
      | .ok h => (h.freepageref pr).map fun h => (true, h)
    else .ok (true, h)
  else .error .assertion

/-- `subpage_kfree`; the answer is whether the block is on a page, 0 in the source. -/
def subpageKfree (ptraddr : Nat) (h : Heap) : Except Stop (Bool × Heap) :=
  match search .endless h.nextAll (h.holds ptraddr) (NPAGEREFS + 1) h.allbase with
  | .error stop => .error stop
  | .ok none => .ok (false, h)
  | .ok (some pr) =>
    let blktype := h.blocktype pr
    let offset := sub32 ptraddr (h.pageaddr pr)
    if PAGE_SIZE ≤ offset ∨ offset % size blktype ≠ 0 then .error .panic
    else
      let filled := { h with memory := fillDeadbeef ptraddr (size blktype / 4) h.memory }
      (filled.putBlock pr offset).release pr blktype

def kfree (ptr : Nat) (h : Heap) : Except Stop Heap :=
  if ptr = 0 then .ok h
  else
    match h.subpageKfree ptr with
    | .error stop => .error stop
    | .ok (true, h) => .ok h
    | .ok (false, h) => if ptr % PAGE_SIZE = 0 then .ok h else .error .assertion

/-- Before the first call; memory may hold anything. -/
def initial (memory : Nat → Nat) : Heap :=
  ⟨fun _ => none, fun _ => none, fun _ => 0, fun _ => 0, fun _ => 0, fun _ => 0,
    fun _ => none, none, memory⟩

end Heap

end Os161.Kheap
