import Mathlib.Data.List.Perm.Subperm
import Os161.Kern.Kheap

/-!
# Pages of the subpage allocator

What one page with its list of free blocks looks like, and what the parts of `kheap.c` that work on
one page do to it.
-/
namespace Os161.Kheap

open Foundation
open Function (update update_of_ne update_self)

/-! ### Blocks -/

theorem size_facts {b : Nat} (small : b < NSIZES) :
    16 ≤ size b ∧ size b ≤ 2048 ∧ size b ∣ PAGE_SIZE ∧ 4 ∣ size b := by
  revert b
  decide

/-- `a` is the address of a block of `s` bytes on the page at `p`. -/
def IsBlock (p s a : Nat) : Prop := ∃ k < PAGE_SIZE / s, a = p + k * s

namespace IsBlock

variable {p s a b : Nat}

theorem bounds (block : IsBlock p s a) (divides : s ∣ PAGE_SIZE) :
    p ≤ a ∧ a + s ≤ p + PAGE_SIZE := by
  obtain ⟨k, small, rfl⟩ := block
  have inside : (k + 1) * s ≤ PAGE_SIZE / s * s := Nat.mul_le_mul_right s small
  rw [Nat.div_mul_cancel divides, Nat.add_mul] at inside
  exact ⟨Nat.le_add_right .., by omega⟩

/-- Two blocks of a page do not overlap. -/
theorem disjoint (block : IsBlock p s a) (block' : IsBlock p s b) (other : a ≠ b) :
    a + s ≤ b ∨ b + s ≤ a := by
  obtain ⟨k, -, rfl⟩ := block
  obtain ⟨k', -, rfl⟩ := block'
  rcases Nat.lt_trichotomy k k' with less | rfl | more
  · have := Nat.mul_le_mul_right s (Nat.succ_le_of_lt less)
    rw [Nat.succ_mul] at this
    omega
  · exact absurd rfl other
  · have := Nat.mul_le_mul_right s (Nat.succ_le_of_lt more)
    rw [Nat.succ_mul] at this
    omega

/-- There are not more blocks than a page has. -/
theorem length_le {l : List Nat} (blocks : ∀ a ∈ l, IsBlock p s a) (nodup : l.Nodup) :
    l.length ≤ PAGE_SIZE / s := by
  have all : l ⊆ (List.range (PAGE_SIZE / s)).map fun k => p + k * s := by
    intro a member
    obtain ⟨k, small, rfl⟩ := blocks a member
    exact List.mem_map.mpr ⟨k, List.mem_range.mpr small, rfl⟩
  have fewer := (nodup.subperm all).length_le
  rwa [List.length_map, List.length_range] at fewer

end IsBlock

/-! ### Lists of free blocks -/

/-- The pointer in the first word of a free block. -/
def link (memory : Nat → Nat) (a : Nat) : Option Nat :=
  if memory a = 0 then none else some (memory a)

theorem link_congr {memory memory' : Nat → Nat} {a : Nat} (same : memory' a = memory a) :
    link memory' a = link memory a := by
  rw [link, link, same]

/-- The first `n` blocks of a page, the last one first. -/
def descending (p s : Nat) : Nat → List Nat
  | 0 => []
  | n + 1 => (p + n * s) :: descending p s n

theorem mem_descending {p s n a : Nat} : a ∈ descending p s n ↔ ∃ k < n, a = p + k * s := by
  induction n with
  | zero => simp [descending]
  | succ n ih =>
    rw [descending, List.mem_cons, ih]
    constructor
    · rintro (rfl | ⟨k, small, rfl⟩)
      · exact ⟨n, Nat.lt_succ_self n, rfl⟩
      · exact ⟨k, Nat.lt_succ_of_lt small, rfl⟩
    rintro ⟨k, small, rfl⟩
    rcases Nat.lt_succ_iff_lt_or_eq.mp small with less | rfl
    · exact .inr ⟨k, less, rfl⟩
    · exact .inl rfl

private theorem length_descending (p s n : Nat) : (descending p s n).length = n := by
  induction n with
  | zero => rfl
  | succ n ih => rw [descending, List.length_cons, ih]

theorem add32_eq {a b : Nat} (fits : a + b < 2 ^ 32) : add32 a b = a + b := Nat.mod_eq_of_lt fits

theorem sub32_eq {a b : Nat} (above : b ≤ a) (small : a < 2 ^ 32) : sub32 a b = a - b := by
  unfold sub32
  omega

namespace Heap

variable {h h' : Heap} {pr : Nat}

/-- The loop over the blocks of a new page: the list has `i` blocks already. -/
theorem thread_eq {p s i left : Nat} {memory : Nat → Nat} (positive : 0 < s) (nonzero : 0 < p)
    (first : 0 < i) (fits : p + (i + left) * s < 2 ^ 32)
    (chain : Chain (link memory) (some (p + (i - 1) * s)) (descending p s i)) :
    ∃ memory', thread p s i left (p + (i - 1) * s) memory =
        .ok (p + (i + left - 1) * s, memory') ∧
      Chain (link memory') (some (p + (i + left - 1) * s)) (descending p s (i + left)) ∧
      ∀ a, a < p ∨ p + (i + left) * s ≤ a → memory' a = memory a := by
  induction left generalizing i memory with
  | zero => exact ⟨memory, rfl, chain, fun _ _ => rfl⟩
  | succ left ih =>
    have step : i * s = (i - 1) * s + s := by
      conv_lhs => rw [← Nat.sub_add_cancel first]
      rw [Nat.add_mul, Nat.one_mul]
    have room : i * s + s ≤ (i + (left + 1)) * s := by
      rw [← Nat.succ_mul]
      exact Nat.mul_le_mul_right s (by omega)
    rw [thread, add32_eq (by omega), add32_eq (by omega), if_pos (by omega)]
    -- the new block is not yet on the list
    have new : p + i * s ∉ descending p s i := by
      intro member
      obtain ⟨k, small, same⟩ := mem_descending.mp member
      have below := Nat.mul_le_mul_right s (Nat.succ_le_of_lt small)
      rw [Nat.succ_mul] at below
      omega
    have longer : Chain (link (update memory (p + i * s) (p + (i - 1) * s)))
        (some (p + (i + 1 - 1) * s)) (descending p s (i + 1)) := by
      refine ⟨rfl, ?_⟩
      have here : link (update memory (p + i * s) (p + (i - 1) * s)) (p + i * s) =
          some (p + (i - 1) * s) := by
        rw [link, update_self, if_neg (by omega)]
      rw [here]
      refine chain.congr fun a member => link_congr (update_of_ne ?_ ..)
      rintro rfl
      exact new member
    have shift : i + 1 + left = i + (left + 1) := by omega
    obtain ⟨memory', done, chain', frame⟩ := ih (Nat.succ_pos i) (shift ▸ fits) longer
    rw [shift] at done chain' frame
    refine ⟨memory', done, chain', fun a outside => (frame a outside).trans ?_⟩
    exact update_of_ne (by omega) ..

/-! ### Pages -/

/-- The pointer to the first free block of a page. -/
def freelist (h : Heap) (pr : Nat) : Option Nat :=
  if h.freelistOffset pr = INVALID_OFFSET then none
  else some (h.pageaddr pr + h.freelistOffset pr)

def blocksize (h : Heap) (pr : Nat) : Nat := size (h.blocktype pr)

/-- A page of the kernel with the free blocks `free`. -/
structure Page (h : Heap) (pr : Nat) (free : List Nat) : Prop where
  typed : h.blocktype pr < NSIZES
  low : MIPS_KSEG0 ≤ h.pageaddr pr
  high : h.pageaddr pr < MIPS_KSEG1
  chain : Chain (link h.memory) (h.freelist pr) free
  blocks : ∀ a ∈ free, IsBlock (h.pageaddr pr) (h.blocksize pr) a
  count : free.length = h.nfree pr

theorem pageaddr_mod (h : Heap) (pr : Nat) : h.pageaddr pr % PAGE_SIZE = 0 := by
  rw [pageaddr, PAGE_SIZE]
  omega

/-- What is known of the entry of a page does not change with the other entries. -/
structure Kept (h h' : Heap) (pr : Nat) : Prop where
  address : ∀ j ≠ pr, h'.pageaddrAndBlocktype j = h.pageaddrAndBlocktype j
  offset : ∀ j ≠ pr, h'.freelistOffset j = h.freelistOffset j
  nfree : ∀ j ≠ pr, h'.nfree j = h.nfree j

namespace Page

variable {free rest : List Nat} {a : Nat}

section

variable (page : h.Page pr free)

include page

theorem divides : h.blocksize pr ∣ PAGE_SIZE := (size_facts page.typed).2.2.1

theorem blocksize_pos : 16 ≤ h.blocksize pr := (size_facts page.typed).1

theorem nodup : free.Nodup := page.chain.nodup

/-- A block that is not free leaves room on the list. -/
theorem length_lt (block : IsBlock (h.pageaddr pr) (h.blocksize pr) a) (used : a ∉ free) :
    free.length < PAGE_SIZE / h.blocksize pr := by
  have blocks : ∀ b ∈ a :: free, IsBlock (h.pageaddr pr) (h.blocksize pr) b := by
    intro b member
    rcases List.mem_cons.mp member with rfl | member
    · exact block
    · exact page.blocks b member
  exact IsBlock.length_le blocks (List.nodup_cons.mpr ⟨used, page.nodup⟩)

theorem length_le : free.length ≤ 256 := by
  have fewer := IsBlock.length_le page.blocks page.nodup
  have small : PAGE_SIZE / h.blocksize pr ≤ PAGE_SIZE / 16 :=
    Nat.div_le_div_left page.blocksize_pos (by decide)
  exact Nat.le_trans fewer small

/-- The addresses on a page do not wrap around. -/
theorem address_lt : h.pageaddr pr + PAGE_SIZE < 2 ^ 32 := by
  have high := page.high
  rw [MIPS_KSEG1] at high
  rw [PAGE_SIZE]
  omega

theorem address_pos : 0 < h.pageaddr pr :=
  Nat.lt_of_lt_of_le (by decide) page.low

end

theorem kept {j : Nat} (page : h.Page j free) (kept : Kept h h' pr) (other : j ≠ pr)
    (memory : ∀ a ∈ free, h'.memory a = h.memory a) : h'.Page j free := by
  have address : h'.pageaddr j = h.pageaddr j := by rw [pageaddr, pageaddr, kept.address j other]
  have type : h'.blocktype j = h.blocktype j := by rw [blocktype, blocktype, kept.address j other]
  have first : h'.freelist j = h.freelist j := by
    rw [freelist, freelist, kept.offset j other, address]
  constructor
  · rw [type]; exact page.typed
  · rw [address]; exact page.low
  · rw [address]; exact page.high
  · rw [first]
    exact page.chain.congr fun a member => link_congr (memory a member)
  · rw [address, blocksize, type]; exact page.blocks
  · rw [kept.nfree j other]; exact page.count

/-- The offset of the first free block. -/
theorem freelistOffset_eq (page : h.Page pr (a :: rest)) :
    h.freelistOffset pr < PAGE_SIZE ∧ h.pageaddr pr + h.freelistOffset pr = a := by
  have head := page.chain.1
  rw [freelist] at head
  split at head
  · cases head
  have same := Option.some.inj head
  have inside := (page.blocks a (List.mem_cons_self ..)).bounds page.divides
  have positive := page.blocksize_pos
  exact ⟨by omega, same⟩

/-- `INVALID_OFFSET` stands for the empty list. -/
theorem freelistOffset_iff (page : h.Page pr free) :
    h.freelistOffset pr = INVALID_OFFSET ↔ free = [] := by
  cases free with
  | nil =>
    have head : h.freelist pr = none := page.chain
    rw [freelist] at head
    split at head
    next invalid => exact iff_of_true invalid rfl
    next => cases head
  | cons a rest =>
    have small := page.freelistOffset_eq.1
    refine iff_of_false (fun invalid => ?_) (List.cons_ne_nil _ _)
    rw [invalid] at small
    exact absurd small (by decide)

/-- The address of a block that is free, or could be. -/
theorem offset_facts (page : h.Page pr free) (block : IsBlock (h.pageaddr pr) (h.blocksize pr) a) :
    h.pageaddr pr ≤ a ∧ a < h.pageaddr pr + PAGE_SIZE ∧ a < 2 ^ 32 ∧
      sub32 a (h.pageaddr pr) = a - h.pageaddr pr := by
  have inside := block.bounds page.divides
  have positive := page.blocksize_pos
  have fits := page.address_lt
  exact ⟨inside.1, by omega, by omega, sub32_eq inside.1 (by omega)⟩

end Page

/-! ### Taking a block -/

/-- The page with its list one block shorter. -/
def took (h : Heap) (pr left offset : Nat) : Heap :=
  { h with nfree := update h.nfree pr left
           freelistOffset := update h.freelistOffset pr offset }

theorem kept_took (h : Heap) (pr left offset : Nat) : Kept h (h.took pr left offset) pr where
  address _ _ := rfl
  offset _ other := update_of_ne other ..
  nfree _ other := update_of_ne other ..

private theorem freelist_took (h : Heap) (pr left offset : Nat) :
    (h.took pr left offset).freelist pr =
      if offset = INVALID_OFFSET then none else some (h.pageaddr pr + offset) := by
  have stored : (h.took pr left offset).freelistOffset pr = offset := update_self ..
  rw [freelist, stored]
  rfl

theorem doalloc_eq {a : Nat} {rest : List Nat} (page : h.Page pr (a :: rest)) :
    ∃ offset, h.doalloc pr = .ok (a, h.took pr rest.length offset) ∧
      (h.took pr rest.length offset).Page pr rest := by
  obtain ⟨small, first⟩ := page.freelistOffset_eq
  have fits := page.address_lt
  have retptr : add32 (h.pageaddr pr) (h.freelistOffset pr) = a := by
    rw [add32_eq (by omega), first]
  have bound := page.length_le
  have nfree : (h.nfree pr + 0xffff) % 2 ^ 16 = rest.length := by
    rw [← page.count]
    rw [List.length_cons] at bound ⊢
    omega
  have tail : Chain (link h.memory) (link h.memory a) rest := page.chain.2
  have rebuilt {offset : Nat} (head : (h.took pr rest.length offset).freelist pr =
      link h.memory a) : (h.took pr rest.length offset).Page pr rest := by
    refine ⟨page.typed, page.low, page.high, ?_, fun b member => ?_, ?_⟩
    · rw [head]
      exact tail
    · exact page.blocks b (List.mem_cons_of_mem _ member)
    · simp [took]
  unfold doalloc
  rw [if_pos small]
  dsimp only
  rw [retptr, nfree]
  by_cases last : h.memory a = 0
  · have ends : link h.memory a = none := if_pos last
    rw [ends] at tail
    obtain rfl : rest = [] := by
      cases rest with
      | nil => rfl
      | cons => exact nomatch tail.1
    rw [if_neg (not_not_intro last)]
    refine ⟨INVALID_OFFSET, rfl, rebuilt ?_⟩
    rw [ends, freelist_took, if_pos rfl]
  have goes : link h.memory a = some (h.memory a) := if_neg last
  rw [goes] at tail
  obtain ⟨more, rfl⟩ : ∃ more, rest = h.memory a :: more := by
    cases rest with
    | nil => exact nomatch tail
    | cons b more => exact ⟨more, by rw [Option.some.inj tail.1]⟩
  have block := page.blocks (h.memory a) (List.mem_cons_of_mem _ (List.mem_cons_self ..))
  obtain ⟨above, below, -, offset⟩ := page.offset_facts block
  rw [if_pos last, if_pos ⟨Nat.succ_pos _, by omega⟩]
  refine ⟨_, rfl, rebuilt ?_⟩
  have valid : h.memory a - h.pageaddr pr ≠ INVALID_OFFSET := by
    rw [INVALID_OFFSET]
    rw [PAGE_SIZE] at below
    omega
  rw [goes, freelist_took, offset, if_neg valid]
  exact congrArg some (Nat.add_sub_cancel' above)

/-! ### A new page -/

theorem freshPage_eq {blktype page : Nat} (typed : blktype < NSIZES)
    (aligned : page % PAGE_SIZE = 0)
    (low : MIPS_KSEG0 ≤ page) (high : page < MIPS_KSEG1) (h : Heap) (pr : Nat) :
    ∃ h', h.freshPage pr blktype page = .ok h' ∧ Kept h h' pr ∧ h'.pageaddr pr = page ∧
      h'.blocktype pr = blktype ∧ h'.inuse = h.inuse ∧
      h'.nextSamesize = update h.nextSamesize pr (h.sizebases blktype) ∧
      h'.sizebases = update h.sizebases blktype (some pr) ∧
      h'.nextAll = update h.nextAll pr h.allbase ∧ h'.allbase = some pr ∧
      (∀ a, a < page ∨ page + PAGE_SIZE ≤ a → h'.memory a = h.memory a) ∧
      ∃ a rest, h'.Page pr (a :: rest) := by
  obtain ⟨atLeast, atMost, divides, -⟩ := size_facts typed
  obtain ⟨n, count⟩ : ∃ n, PAGE_SIZE / size blktype = n + 1 :=
    Nat.exists_eq_add_one.mpr (Nat.div_pos (by rw [PAGE_SIZE]; omega) (by omega))
  have whole : (n + 1) * size blktype = PAGE_SIZE := by rw [← count, Nat.div_mul_cancel divides]
  have kseg : 0 < page ∧ page + PAGE_SIZE < 2 ^ 32 := by
    rw [MIPS_KSEG0] at low
    rw [MIPS_KSEG1] at high
    rw [PAGE_SIZE]
    omega
  have start : Chain (link (update h.memory page 0)) (some (page + (1 - 1) * size blktype))
      (descending page (size blktype) 1) := by
    have clear : link (update h.memory page 0) (page + 0 * size blktype) = none := by
      rw [Nat.zero_mul, Nat.add_zero, link, update_self, if_pos rfl]
    exact ⟨rfl, clear⟩
  have fits : page + (1 + n) * size blktype < 2 ^ 32 := by
    rw [Nat.add_comm 1, whole]
    exact kseg.2
  obtain ⟨memory, done, chain, frame⟩ := thread_eq (by omega) kseg.1 Nat.one_pos fits start
  rw [Nat.add_comm 1 n, Nat.add_sub_cancel] at done chain
  rw [Nat.add_comm 1 n, whole] at frame
  rw [Nat.zero_mul, Nat.add_zero] at done
  have below : n * size blktype < PAGE_SIZE := by
    rw [← whole, Nat.add_mul]
    omega
  have offset : sub32 (page + n * size blktype) page % 2 ^ 16 = n * size blktype := by
    rw [sub32_eq (Nat.le_add_right ..) (by omega)]
    rw [PAGE_SIZE] at below
    omega
  have pab : mkpab page blktype = page + blktype := by
    rw [mkpab, aligned, Nat.sub_zero, Nat.mod_eq_of_lt (Nat.lt_trans typed (by decide))]
  have type : (page + blktype) % PAGE_SIZE = blktype := by
    rw [Nat.add_mod, aligned, Nat.zero_add, Nat.mod_mod,
      Nat.mod_eq_of_lt (Nat.lt_trans typed (by decide))]
  unfold freshPage
  rw [count]
  dsimp only
  rw [Nat.add_sub_cancel, done]
  dsimp only
  rw [offset, if_pos rfl, pab]
  refine ⟨_, rfl, ⟨fun _ other => update_of_ne other .., fun _ other =>
    update_of_ne other .., fun _ other => update_of_ne other ..⟩, ?_⟩
  have pageaddr : page + blktype - (page + blktype) % PAGE_SIZE = page := by
    rw [type, Nat.add_sub_cancel]
  refine ⟨?_, ?_, rfl, rfl, rfl, rfl, rfl, fun a outside => ?_, page + n * size blktype,
    descending page (size blktype) n, ?_⟩
  · simp only [Heap.pageaddr, update_self]
    exact pageaddr
  · simp only [Heap.blocktype, update_self]
    exact type
  · refine (frame a outside).trans (update_of_ne ?_ ..)
    omega
  constructor
  · simp only [Heap.blocktype, update_self]
    rw [type]
    exact typed
  · simp only [Heap.pageaddr, update_self]
    rw [pageaddr]
    exact low
  · simp only [Heap.pageaddr, update_self]
    rw [pageaddr]
    exact high
  · have valid : n * size blktype ≠ INVALID_OFFSET := by
      rw [INVALID_OFFSET]
      rw [PAGE_SIZE] at below
      omega
    simp only [Heap.freelist, Heap.pageaddr, update_self]
    rw [if_neg valid, pageaddr]
    exact chain
  · intro a member
    simp only [Heap.pageaddr, Heap.blocksize, Heap.blocktype, update_self]
    rw [pageaddr, type, IsBlock, count]
    exact mem_descending.mp member
  · simp only [update_self]
    exact length_descending page (size blktype) (n + 1)

/-! ### Giving a block back -/

private theorem fillDeadbeef_frame (ptr len : Nat) (memory : Nat → Nat) {a : Nat}
    (outside : a < ptr ∨ ptr + 4 * len ≤ a) : fillDeadbeef ptr len memory a = memory a := by
  induction len generalizing ptr memory with
  | zero => rfl
  | succ len ih =>
    rw [fillDeadbeef, ih _ _ (by omega)]
    exact update_of_ne (by omega) ..

/-- The page after its block has been given back. -/
def gave (h : Heap) (pr a : Nat) : Heap :=
  { h with memory := fillDeadbeef a (h.blocksize pr / 4) h.memory }.putBlock pr (a - h.pageaddr pr)

theorem kept_gave (h : Heap) (pr a : Nat) : Kept h (h.gave pr a) pr where
  address _ _ := rfl
  offset _ other := update_of_ne other ..
  nfree _ other := update_of_ne other ..

theorem gave_page {free : List Nat} {a : Nat} (page : h.Page pr free)
    (block : IsBlock (h.pageaddr pr) (h.blocksize pr) a) (used : a ∉ free) :
    (h.gave pr a).Page pr (a :: free) ∧ (h.gave pr a).nfree pr = free.length + 1 ∧
      ∀ b, b < a ∨ a + h.blocksize pr ≤ b → (h.gave pr a).memory b = h.memory b := by
  obtain ⟨above, below, small, -⟩ := page.offset_facts block
  have fits := page.address_lt
  have words : 4 * (h.blocksize pr / 4) = h.blocksize pr :=
    Nat.mul_div_cancel' (size_facts page.typed).2.2.2
  have positive := page.blocksize_pos
  have fla : add32 (h.pageaddr pr) (a - h.pageaddr pr) = a := by
    rw [add32_eq (by omega)]
    omega
  have frame : ∀ b, b < a ∨ a + h.blocksize pr ≤ b → (h.gave pr a).memory b = h.memory b := by
    intro b outside
    change update (fillDeadbeef a (h.blocksize pr / 4) h.memory)
      (add32 (h.pageaddr pr) (a - h.pageaddr pr)) _ b = _
    rw [update_of_ne (by omega)]
    exact fillDeadbeef_frame a _ h.memory (words.symm ▸ outside)
  have next : (h.gave pr a).memory a = if h.freelistOffset pr = INVALID_OFFSET then 0
      else add32 (h.pageaddr pr) (h.freelistOffset pr) := by
    change update (fillDeadbeef a (h.blocksize pr / 4) h.memory)
      (add32 (h.pageaddr pr) (a - h.pageaddr pr)) _ a = _
    rw [fla, update_self]
    rfl
  -- the pointer in the block leads to the old list
  have linked : link (h.gave pr a).memory a = h.freelist pr := by
    rw [link, next, freelist]
    by_cases invalid : h.freelistOffset pr = INVALID_OFFSET
    · rw [if_pos invalid, if_pos rfl, if_pos invalid]
    have filled := mt page.freelistOffset_iff.mpr invalid
    obtain ⟨b, rest, rfl⟩ := List.exists_cons_of_ne_nil filled
    have inside := page.freelistOffset_eq.1
    have start := page.address_pos
    rw [if_neg invalid, if_neg invalid, add32_eq (by omega), if_neg (by omega)]
  have bound := page.length_le
  have count : (h.gave pr a).nfree pr = free.length + 1 := by
    have : (h.gave pr a).nfree pr = (h.nfree pr + 1) % 2 ^ 16 := update_self ..
    rw [this, ← page.count]
    omega
  refine ⟨⟨page.typed, page.low, page.high, ⟨?_, ?_⟩, fun b member => ?_, ?_⟩, count, frame⟩
  · have stored : (h.gave pr a).freelistOffset pr = (a - h.pageaddr pr) % 2 ^ 16 :=
      update_self ..
    have valid : (a - h.pageaddr pr) % 2 ^ 16 ≠ INVALID_OFFSET ∧
        h.pageaddr pr + (a - h.pageaddr pr) % 2 ^ 16 = a := by
      rw [INVALID_OFFSET]
      rw [PAGE_SIZE] at below
      omega
    rw [freelist, stored, if_neg valid.1]
    exact congrArg some valid.2
  · rw [linked]
    refine page.chain.congr fun b member => link_congr (frame b ?_)
    have other : b ≠ a := fun same => used (same ▸ member)
    have apart := (page.blocks b member).disjoint block other
    omega
  · rcases List.mem_cons.mp member with rfl | member
    · exact block
    · exact page.blocks b member
  · rw [count, List.length_cons]

end Heap

end Os161.Kheap
