import Os161.Foundation.Refinement
import Os161.Kern.KheapPages

/-!
# Runs of the subpage allocator

The lists, the pages and the live blocks fit together before the first call, and every call keeps
that, whichever requests for pagerefs and pages fail. Between calls the blocks that are in use may
be written to.
-/
namespace Os161.Kheap

open Foundation
open Function (update update_of_ne update_self)

namespace Heap

variable {h : Heap} {pr : Nat}

/-! ### Pagerefs -/

private theorem clearBit_eq {w : BitVec 32} {rounds j clear : Nat} (enough : 32 < rounds + j)
    (from_ : j ≤ clear) (small : clear < 32) (zero : w.getLsbD clear = false) :
    ∃ found < 32, clearBit w rounds (1#32 <<< j) j = .ok (1#32 <<< found, found) ∧
      w.getLsbD found = false := by
  induction rounds generalizing j with
  | zero => omega
  | succ rounds ih =>
    have inside : j < 32 := by omega
    have mask : 1#32 <<< j ≠ 0 := Bits.mask_ne_zero inside
    rw [clearBit, if_neg mask]
    by_cases here : w &&& 1#32 <<< j = 0
    · rw [if_pos here]
      exact ⟨j, inside, rfl, (Bits.and_mask_eq_zero inside).mp here⟩
    have later : j ≠ clear := by
      rintro rfl
      exact here ((Bits.and_mask_eq_zero inside).mpr zero)
    rw [if_neg here, ← BitVec.shiftLeft_add]
    exact ih (by omega) (by omega)

private theorem allocpagerefFrom_cases (h : Heap) (i left : Nat) :
    h.allocpagerefFrom i left = .ok (none, h) ∨
      ∃ pr < (i + left) * 32, Bits.bit h.inuse pr = false ∧
        h.allocpagerefFrom i left = .ok (some pr, { h with inuse := Bits.setBit h.inuse pr }) := by
  induction left generalizing i with
  | zero => exact .inl rfl
  | succ left ih =>
    rw [allocpagerefFrom]
    by_cases full : h.inuse i = 0xffffffff
    · rw [if_pos full]
      rcases ih (i + 1) with out | ⟨pr, small, clear, done⟩
      · exact .inl out
      · exact .inr ⟨pr, by omega, clear, done⟩
    -- some bit of the word is clear
    have some_clear : ∃ k < 32, (h.inuse i).getLsbD k = false := by
      by_contra none_clear
      refine full (Bits.eq_allOnes_iff.mpr fun k small => ?_)
      by_contra clear
      exact none_clear ⟨k, small, by simpa using clear⟩
    obtain ⟨k, small, zero⟩ := some_clear
    obtain ⟨j, inside, found, clear⟩ := @clearBit_eq (h.inuse i) 33 0 k (by omega) (by omega)
      small zero
    rw [if_neg full]
    have start : (1#32 <<< 0) = 1 := rfl
    rw [start] at found
    rw [found]
    have word : (i * 32 + j) / 32 = i := by omega
    have place : (i * 32 + j) % 32 = j := by omega
    refine .inr ⟨i * 32 + j, by omega, ?_, ?_⟩
    · rw [Bits.bit, word, place]
      exact clear
    · rw [Bits.setBit, word, place]

theorem freepageref_eq (small : pr < NPAGEREFS) (set : Bits.bit h.inuse pr = true) :
    h.freepageref pr = .ok { h with inuse := Bits.resetBit h.inuse pr } := by
  have meets : h.inuse (pr / 32) &&& 1#32 <<< (pr % 32) ≠ 0 := by
    intro zero
    have clear := (Bits.and_mask_eq_zero (Nat.mod_lt pr (by decide))).mp zero
    rw [Bits.bit, clear] at set
    cases set
  rw [freepageref, if_pos ⟨small, meets⟩]
  rfl

/-! ### The whole heap -/

/-- The entries on the list of all pages and on the lists of the sizes, and the free blocks of the
pages. -/
structure Layout where
  all : List Nat
  same : Nat → List Nat
  free : Nat → List Nat

/-- The lists of the heap are those of the layout, and the blocks in `live`, with the sizes that
were asked for, are none of the free ones. -/
structure Describes (h : Heap) (live : List (Nat × Nat)) (pages : Layout) : Prop where
  all : Chain h.nextAll h.allbase pages.all
  same : ∀ b < NSIZES, Chain h.nextSamesize (h.sizebases b) (pages.same b)
  sorted : ∀ b < NSIZES, ∀ pr, pr ∈ pages.same b ↔ pr ∈ pages.all ∧ h.blocktype pr = b
  refs : ∀ pr, pr ∈ pages.all ↔ pr < NPAGEREFS ∧ Bits.bit h.inuse pr = true
  apart : ∀ pr ∈ pages.all, ∀ pr' ∈ pages.all, h.pageaddr pr = h.pageaddr pr' → pr = pr'
  page : ∀ pr ∈ pages.all, h.Page pr (pages.free pr)
  held : ∀ a sz, (a, sz) ∈ live → ∃ pr ∈ pages.all,
    IsBlock (h.pageaddr pr) (h.blocksize pr) a ∧ sz ≤ h.blocksize pr ∧ a ∉ pages.free pr
  once : (live.map Prod.fst).Nodup

/-- A page that `alloc_kpages` may return: it is one of the kernel's, and not in use here. -/
def Available (h : Heap) (page : Nat) : Prop :=
  page % PAGE_SIZE = 0 ∧ MIPS_KSEG0 ≤ page ∧ page < MIPS_KSEG1 ∧
    ∀ pr < NPAGEREFS, Bits.bit h.inuse pr = true → h.pageaddr pr ≠ page

namespace Describes

variable {live : List (Nat × Nat)} {pages : Layout} {a b sz : Nat}

section

variable (sound : h.Describes live pages)

include sound

/-- A block lies on one page. -/
theorem page_unique {pr pr' : Nat} (member : pr ∈ pages.all) (member' : pr' ∈ pages.all)
    (block : IsBlock (h.pageaddr pr) (h.blocksize pr) a)
    (block' : IsBlock (h.pageaddr pr') (h.blocksize pr') a) : pr = pr' := by
  obtain ⟨above, below, -⟩ := (sound.page pr member).offset_facts block
  obtain ⟨above', below', -⟩ := (sound.page pr' member').offset_facts block'
  have aligned := h.pageaddr_mod pr
  have aligned' := h.pageaddr_mod pr'
  rw [PAGE_SIZE] at below below' aligned aligned'
  exact sound.apart pr member pr' member' (by omega)

/-- Blocks on different pages are apart. -/
theorem apart_of_ne {pr pr' : Nat} (member : pr ∈ pages.all) (member' : pr' ∈ pages.all)
    (other : pr ≠ pr') (block : IsBlock (h.pageaddr pr) (h.blocksize pr) a)
    (block' : IsBlock (h.pageaddr pr') (h.blocksize pr') b) :
    a + h.blocksize pr ≤ b ∨ b + h.blocksize pr' ≤ a := by
  have inside := block.bounds (sound.page pr member).divides
  have inside' := block'.bounds (sound.page pr' member').divides
  have aligned := h.pageaddr_mod pr
  have aligned' := h.pageaddr_mod pr'
  have different : h.pageaddr pr ≠ h.pageaddr pr' :=
    fun same => other (sound.apart pr member pr' member' same)
  rw [PAGE_SIZE] at inside inside' aligned aligned'
  omega

theorem length_all : pages.all.length < NPAGEREFS + 1 := by
  have within : pages.all ⊆ List.range NPAGEREFS := fun pr member =>
    List.mem_range.mpr ((sound.refs pr).mp member).1
  have fewer := (sound.all.nodup.subperm within).length_le
  rw [List.length_range] at fewer
  exact Nat.lt_succ_of_le fewer

theorem length_same (typed : b < NSIZES) : (pages.same b).length < NPAGEREFS + 1 := by
  have within : pages.same b ⊆ pages.all := fun pr member => ((sound.sorted b typed pr).mp member).1
  have fewer := ((sound.same b typed).nodup.subperm within).length_le
  exact Nat.lt_of_le_of_lt fewer sound.length_all

/-! ### Taking a block -/

private theorem take {rest : List Nat} (member : pr ∈ pages.all) (first : pages.free pr = a :: rest)
    (enough : sz ≤ h.blocksize pr) :
    ∃ h', h.doalloc pr = .ok (a, h') ∧
      h'.Describes ((a, sz) :: live) { pages with free := update pages.free pr rest } := by
  have page := sound.page pr member
  rw [first] at page
  obtain ⟨offset, done, taken⟩ := doalloc_eq page
  refine ⟨_, done, sound.all, sound.same, sound.sorted, sound.refs, sound.apart, fun j listed => ?_,
    fun c bytes here => ?_, List.nodup_cons.mpr ⟨fun again => ?_, sound.once⟩⟩
  · dsimp only
    by_cases self : j = pr
    · subst self
      rw [update_self]
      exact taken
    · rw [update_of_ne self]
      exact (sound.page j listed).kept (h.kept_took pr _ offset) self fun _ _ => rfl
  · rcases List.mem_cons.mp here with new | old
    · cases new
      refine ⟨pr, member, page.blocks a (List.mem_cons_self ..), enough, ?_⟩
      dsimp only
      rw [update_self]
      exact (List.nodup_cons.mp page.nodup).1
    obtain ⟨j, listed, block, room, used⟩ := sound.held c bytes old
    refine ⟨j, listed, block, room, ?_⟩
    dsimp only
    by_cases self : j = pr
    · subst self
      rw [update_self]
      rw [first] at used
      exact fun free => used (List.mem_cons_of_mem _ free)
    · rwa [update_of_ne self]
  · -- a live block is not on the list it is taken from
    obtain ⟨⟨c, bytes⟩, old, rfl⟩ := List.mem_map.mp again
    obtain ⟨j, listed, block, -, used⟩ := sound.held c bytes old
    cases sound.page_unique member listed (page.blocks c (List.mem_cons_self ..)) block
    rw [first] at used
    exact used (List.mem_cons_self ..)

/-! ### A new page -/

private theorem fresh {page : Nat} (typed : b < NSIZES) (aligned : page % PAGE_SIZE = 0)
    (low : MIPS_KSEG0 ≤ page) (high : page < MIPS_KSEG1)
    (unused : ∀ j ∈ pages.all, h.pageaddr j ≠ page) (small : pr < NPAGEREFS)
    (new : pr ∉ pages.all) :
    ∃ h' a rest, freshPage pr b page { h with inuse := Bits.setBit h.inuse pr } = .ok h' ∧
      h'.blocktype pr = b ∧
      h'.Describes live ⟨pr :: pages.all, update pages.same b (pr :: pages.same b),
        update pages.free pr (a :: rest)⟩ := by
  obtain ⟨h', done, kept, address, type, inuse, nextSamesize, sizebases, nextAll, allbase, frame, a,
    rest, made⟩ := freshPage_eq typed aligned low high { h with inuse := Bits.setBit h.inuse pr } pr
  have other {j : Nat} (listed : j ∈ pages.all) : j ≠ pr := fun same => new (same ▸ listed)
  have address_of {j : Nat} (listed : j ∈ pages.all) : h'.pageaddr j = h.pageaddr j := by
    rw [pageaddr, pageaddr, kept.address j (other listed)]
  have type_of {j : Nat} (listed : j ∈ pages.all) : h'.blocktype j = h.blocktype j := by
    rw [blocktype, blocktype, kept.address j (other listed)]
  have outside {b : Nat} (typed : b < NSIZES) : pr ∉ pages.same b := fun listed =>
    new ((sound.sorted b typed pr).mp listed).1
  refine ⟨h', a, rest, done, type, ?_, fun c typed' => ?_, fun c typed' j => ?_, fun j => ?_,
    fun j listed j' listed' => ?_, fun j listed => ?_, fun c bytes here => ?_, sound.once⟩
  · rw [nextAll, allbase]
    exact sound.all.push new
  · rw [nextSamesize, sizebases]
    dsimp only
    by_cases same : c = b
    · subst same
      rw [update_self, update_self]
      exact (sound.same c typed').push (outside typed')
    rw [update_of_ne same, update_of_ne same]
    refine (sound.same c typed').congr fun j listed => update_of_ne ?_ ..
    rintro rfl
    exact outside typed' listed
  · dsimp only
    by_cases self : j = pr
    · subst self
      rw [type]
      by_cases same : c = b
      · subst same
        simp
      · rw [update_of_ne same]
        exact iff_of_false (outside typed') fun wrong => same wrong.2.symm
    have listed_iff : j ∈ pr :: pages.all ↔ j ∈ pages.all := by simp [self]
    have same_iff : j ∈ update pages.same b (pr :: pages.same b) c ↔
        j ∈ pages.same c := by
      by_cases same : c = b
      · subst same
        simp [self]
      · rw [update_of_ne same]
    rw [same_iff, listed_iff, sound.sorted c typed' j]
    exact and_congr_right fun listed => by rw [type_of listed]
  · rw [inuse, Bits.bit_setBit (by decide), List.mem_cons, sound.refs j]
    by_cases self : j = pr
    · subst self
      simp [small]
    · simp [self]
  · intro same
    rcases List.mem_cons.mp listed with rfl | old <;>
      rcases List.mem_cons.mp listed' with rfl | old'
    · rfl
    · rw [address, address_of old'] at same
      exact absurd same.symm (unused j' old')
    · rw [address, address_of old] at same
      exact absurd same (unused j old)
    · rw [address_of old, address_of old'] at same
      exact sound.apart j old j' old' same
  · dsimp only
    by_cases self : j = pr
    · subst self
      rw [update_self]
      exact made
    have listed : j ∈ pages.all := (List.mem_cons.mp listed).resolve_left self
    rw [update_of_ne self]
    -- the blocks of the other pages are not on the new one
    refine (sound.page j listed).kept ⟨kept.address, kept.offset, kept.nfree⟩ self
      fun c free => frame c ?_
    obtain ⟨above, below, -⟩ := (sound.page j listed).offset_facts
      ((sound.page j listed).blocks c free)
    have different := unused j listed
    have aligned' := h.pageaddr_mod j
    rw [PAGE_SIZE] at below aligned aligned' ⊢
    omega
  obtain ⟨j, listed, block, room, used⟩ := sound.held c bytes here
  refine ⟨j, List.mem_cons_of_mem _ listed, ?_, ?_, ?_⟩
  · rw [address_of listed, blocksize, type_of listed]
    exact block
  · rw [blocksize, type_of listed]
    exact room
  · dsimp only
    rwa [update_of_ne (other listed)]

/-! ### Giving a block back -/

private theorem give (member : pr ∈ pages.all) (block : IsBlock (h.pageaddr pr) (h.blocksize pr) a)
    (used : a ∉ pages.free pr) :
    (h.gave pr a).Describes (live.filter (·.1 ≠ a))
        { pages with free := update pages.free pr (a :: pages.free pr) } ∧
      (h.gave pr a).nfree pr = (pages.free pr).length + 1 := by
  obtain ⟨given, count, frame⟩ := gave_page (sound.page pr member) block used
  refine ⟨⟨sound.all, sound.same, sound.sorted, sound.refs, sound.apart, fun j listed => ?_,
    fun c bytes here => ?_, ?_⟩, count⟩
  · dsimp only
    by_cases self : j = pr
    · subst self
      rw [update_self]
      exact given
    rw [update_of_ne self]
    refine (sound.page j listed).kept (h.kept_gave pr a) self fun c free => frame c ?_
    have positive := (sound.page j listed).blocksize_pos
    have apart := sound.apart_of_ne listed member self ((sound.page j listed).blocks c free) block
    omega
  · obtain ⟨here, other⟩ := List.mem_filter.mp here
    have other : c ≠ a := by simpa using other
    obtain ⟨j, listed, block', room, used'⟩ := sound.held c bytes here
    refine ⟨j, listed, block', room, ?_⟩
    dsimp only
    by_cases self : j = pr
    · subst self
      rw [update_self]
      exact List.not_mem_cons_of_ne_of_not_mem other used'
    · rwa [update_of_ne self]
  · exact sound.once.sublist (List.filter_sublist.map _)

/-- A page without a live block leaves the lists. -/
theorem drop (member : pr ∈ pages.all)
    (full : (pages.free pr).length = PAGE_SIZE / h.blocksize pr) :
    ∃ h' h'', h.removeLists pr (h.blocktype pr) = .ok h' ∧ h'.freepageref pr = .ok h'' ∧
      h''.Describes live ⟨pages.all.erase pr, fun b => (pages.same b).erase pr, pages.free⟩ := by
  have typed := (sound.page pr member).typed
  obtain ⟨same, sameDone, sameChain, sameFrame⟩ := Links.remove_eq Stop.endless
    ⟨h.sizebases (h.blocktype pr), h.nextSamesize⟩ pr (sound.same _ typed) (sound.length_same typed)
  obtain ⟨all, allDone, allChain, -⟩ := Links.remove_eq Stop.endless ⟨h.allbase, h.nextAll⟩ pr
    sound.all sound.length_all
  have nodup := sound.all.nodup
  obtain ⟨small, set⟩ := (sound.refs pr).mp member
  have listed_iff {j : Nat} : j ∈ pages.all.erase pr ↔ j ≠ pr ∧ j ∈ pages.all :=
    nodup.mem_erase_iff
  have removed : h.removeLists pr (h.blocktype pr) = .ok { h with
      sizebases := update h.sizebases (h.blocktype pr) same.base
      nextSamesize := same.next, allbase := all.base, nextAll := all.next } := by
    rw [removeLists, if_pos typed, sameDone]
    rw [allDone]
  refine ⟨_, _, removed, freepageref_eq small set, allChain, fun b typed' => ?_,
    fun b typed' j => ?_, fun j => ?_, fun j listed j' listed' => ?_, fun j listed => ?_,
    fun c bytes here => ?_, sound.once⟩
  · by_cases here : b = h.blocktype pr
    · subst here
      dsimp only
      rw [update_self]
      exact sameChain
    -- the lists of the other sizes have none of these entries
    have outside : pr ∉ pages.same b := fun listed =>
      here ((sound.sorted b typed' pr).mp listed).2.symm
    dsimp only
    rw [update_of_ne here, List.erase_of_not_mem outside]
    refine (sound.same b typed').congr fun j listed => sameFrame j fun listed' => ?_
    exact here (((sound.sorted b typed' j).mp listed).2.symm.trans
      ((sound.sorted _ typed j).mp listed').2)
  · have split : j ∈ (pages.same b).erase pr ↔ j ≠ pr ∧ j ∈ pages.same b :=
      (sound.same b typed').nodup.mem_erase_iff
    rw [split, listed_iff, sound.sorted b typed' j, and_assoc]
    rfl
  · rw [listed_iff, Bits.bit_resetBit (by decide), sound.refs j]
    by_cases self : j = pr
    · simp [self]
    · simp [self]
  · exact sound.apart j (listed_iff.mp listed).2 j' (listed_iff.mp listed').2
  · have page := sound.page j (listed_iff.mp listed).2
    exact ⟨page.typed, page.low, page.high, page.chain, page.blocks, page.count⟩
  · obtain ⟨j, listed, block, room, used⟩ := sound.held c bytes here
    refine ⟨j, listed_iff.mpr ⟨?_, listed⟩, block, room, used⟩
    rintro rfl
    have := (sound.page j member).length_lt block used
    omega

end

/-! ### `kmalloc` and `kfree` -/

private theorem blocktypeOf_eq (small : sz ≤ LARGEST_SUBPAGE_SIZE) :
    ∃ b < NSIZES, blocktypeOf sz = .ok b ∧ sz ≤ size b := by
  have found : (sizes.findIdx? (sz ≤ ·)).isSome := by
    rw [List.findIdx?_isSome, List.any_eq_true]
    exact ⟨LARGEST_SUBPAGE_SIZE, by decide, by simpa using small⟩
  obtain ⟨b, here⟩ := Option.isSome_iff_exists.mp found
  obtain ⟨inside, enough, -⟩ := List.findIdx?_eq_some_iff_getElem.mp here
  refine ⟨b, inside, by rw [blocktypeOf, here], ?_⟩
  have here : sizes.getD b 0 = sizes[b] := by
    rw [List.getD_eq_getElem?_getD, List.getElem?_eq_getElem inside]
    rfl
  rw [size, here]
  simpa using enough

section

variable (sound : h.Describes live pages)

include sound

/-- A block from a page, or `NULL` and nothing has changed. -/
theorem kmalloc (small : sz < LARGEST_SUBPAGE_SIZE) (refused : Bool) {page : Nat}
    (available : page = 0 ∨ h.Available page) :
    h.kmalloc sz refused page = .ok (0, h) ∨
      ∃ a h' pages', h.kmalloc sz refused page = .ok (a, h') ∧ a ≠ 0 ∧
        h'.Describes ((a, sz) :: live) pages' := by
  obtain ⟨b, typed, type, enough⟩ := blocktypeOf_eq (Nat.le_of_lt small)
  have body : ∀ pr ∈ pages.same b, h.hasFree b pr = .ok (decide (0 < h.nfree pr)) := by
    intro pr listed
    rw [hasFree, if_pos ((sound.sorted b typed pr).mp listed).2]
  have scanned := search_eq Stop.endless (sound.same b typed) (sound.length_same typed) body
  have large : ¬ LARGEST_SUBPAGE_SIZE ≤ sz := Nat.not_le_of_lt small
  rw [Heap.kmalloc, if_neg large, subpageKmalloc, type]
  dsimp only
  rw [scanned]
  -- the address of a block is not `NULL`
  have nonzero {h' : Heap} {live' : List (Nat × Nat)} {pages' : Layout} {a : Nat}
      (sound : h'.Describes ((a, sz) :: live') pages') : a ≠ 0 := by
    obtain ⟨pr, listed, block, -⟩ := sound.held a sz (List.mem_cons_self ..)
    have above := (block.bounds (sound.page pr listed).divides).1
    have positive := (sound.page pr listed).address_pos
    omega
  cases found : (pages.same b).find? fun pr => decide (0 < h.nfree pr) with
  | some pr =>
    have listed := List.mem_of_find?_eq_some found
    have free : 0 < h.nfree pr := by simpa using List.find?_some found
    obtain ⟨member, same⟩ := (sound.sorted b typed pr).mp listed
    obtain ⟨a, rest, first⟩ : ∃ a rest, pages.free pr = a :: rest := by
      refine List.exists_cons_of_length_pos ?_
      rw [(sound.page pr member).count]
      exact free
    obtain ⟨h', done, sound'⟩ := sound.take member first (show sz ≤ h.blocksize pr by
      rw [blocksize, same]; exact enough)
    exact .inr ⟨a, h', _, done, nonzero sound', sound'⟩
  | none =>
    cases refused with
    | true => exact .inl rfl
    | false =>
      rw [if_neg Bool.false_ne_true, allocpageref]
      rcases h.allocpagerefFrom_cases 0 INUSE_WORDS with out | ⟨pr, inside, clear, got⟩
      · rw [out]
        exact .inl rfl
      rw [got]
      dsimp only
      have new : pr ∉ pages.all := fun listed => by
        have set := ((sound.refs pr).mp listed).2
        rw [clear] at set
        cases set
      rcases available with rfl | ⟨aligned, low, high, unused⟩
      · have set : Bits.bit (Bits.setBit h.inuse pr) pr = true := by
          rw [Bits.bit_setBit (by decide)]
          simp
        rw [freepageref_eq inside set]
        simp [Except.map, Bits.resetBit_setBit (show 0 < 32 by decide) clear]
      have given : page ≠ 0 := by
        rw [MIPS_KSEG0] at low
        omega
      obtain ⟨h', a, rest, made, type', sound'⟩ := sound.fresh typed aligned low high
        (fun j listed => unused j ((sound.refs j).mp listed).1 ((sound.refs j).mp listed).2)
        inside new
      obtain ⟨h'', done, sound''⟩ := sound'.take (List.mem_cons_self ..)
        (update_self ..) (show sz ≤ h'.blocksize pr by
          rw [blocksize, type']; exact enough)
      rw [if_neg given, made]
      exact .inr ⟨a, h'', _, done, nonzero sound'', sound''⟩

/-- The loop over all pages finds the one that a block lies on. -/
theorem find (member : pr ∈ pages.all) (block : IsBlock (h.pageaddr pr) (h.blocksize pr) a) :
    search .endless h.nextAll (h.holds a) (NPAGEREFS + 1) h.allbase = .ok (some pr) := by
  have body : ∀ j ∈ pages.all, h.holds a j =
      .ok (decide (h.pageaddr j ≤ a ∧ a < h.pageaddr j + PAGE_SIZE)) := by
    intro j listed
    have page := sound.page j listed
    rw [holds, if_pos page.typed, add32_eq page.address_lt]
  rw [search_eq Stop.endless sound.all sound.length_all body]
  congr 1
  refine List.find?_eq_some_iff_append.mpr ?_
  obtain ⟨above, below, -⟩ := (sound.page pr member).offset_facts block
  obtain ⟨before, after, split⟩ := List.append_of_mem member
  refine ⟨by simpa using ⟨above, below⟩, before, after, split, fun j earlier => ?_⟩
  -- no other page has the address
  have listed : j ∈ pages.all := split ▸ List.mem_append_left _ earlier
  have other : j ≠ pr := by
    rintro rfl
    have nodup := sound.all.nodup
    rw [split] at nodup
    exact (List.nodup_append.mp nodup).2.2 j earlier j (List.mem_cons_self ..) rfl
  have different : h.pageaddr j ≠ h.pageaddr pr :=
    fun same => other (sound.apart j listed pr member same)
  have aligned := h.pageaddr_mod pr
  have aligned' := h.pageaddr_mod j
  have outside : ¬ (h.pageaddr j ≤ a ∧ a < h.pageaddr j + PAGE_SIZE) := by
    rw [PAGE_SIZE] at below aligned aligned' ⊢
    omega
  rw [decide_eq_false outside]
  rfl

private theorem subpageKfree (here : (a, sz) ∈ live) :
    ∃ h' pages', h.subpageKfree a = .ok (true, h') ∧
      h'.Describes (live.filter (·.1 ≠ a)) pages' := by
  obtain ⟨pr, member, block, -, used⟩ := sound.held a sz here
  have page := sound.page pr member
  obtain ⟨above, below, -, offset⟩ := page.offset_facts block
  have inside : ¬ (PAGE_SIZE ≤ a - h.pageaddr pr ∨
      (a - h.pageaddr pr) % size (h.blocktype pr) ≠ 0) := by
    have multiple : (a - h.pageaddr pr) % size (h.blocktype pr) = 0 := by
      obtain ⟨k, -, rfl⟩ := block
      rw [Nat.add_sub_cancel_left]
      exact Nat.mul_mod_left k _
    rw [not_or, not_not]
    exact ⟨by omega, multiple⟩
  obtain ⟨given, count⟩ := sound.give member block used
  have room := page.length_lt block used
  rw [Heap.subpageKfree, sound.find member block]
  dsimp only
  rw [offset, if_neg inside]
  change ∃ h' pages', (h.gave pr a).release pr (h.blocktype pr) = _ ∧ _
  rw [release, if_pos (show (h.gave pr a).nfree pr ≤ _ from count ▸ room)]
  by_cases full : (h.gave pr a).nfree pr = PAGE_SIZE / size (h.blocktype pr)
  · have all : (update pages.free pr (a :: pages.free pr) pr).length =
        PAGE_SIZE / size (h.blocktype pr) := by
      rw [update_self, List.length_cons, ← count]
      exact full
    obtain ⟨h', h'', removed, freed, dropped⟩ := given.drop member all
    have removed : (h.gave pr a).removeLists pr (h.blocktype pr) = .ok h' := removed
    refine ⟨h'', _, ?_, dropped⟩
    rw [if_pos full, removed]
    dsimp only
    rw [freed]
    rfl
  · rw [if_neg full]
    exact ⟨_, _, rfl, given⟩

theorem kfree (here : a ∈ live.map Prod.fst) :
    ∃ h' pages', h.subpageKfree a = .ok (true, h') ∧ h.kfree a = .ok h' ∧
      h'.Describes (live.filter (·.1 ≠ a)) pages' := by
  obtain ⟨⟨c, sz⟩, member, rfl⟩ := List.mem_map.mp here
  obtain ⟨h', pages', done, sound'⟩ := sound.subpageKfree member
  refine ⟨h', pages', done, ?_, sound'⟩
  have nonzero : c ≠ 0 := by
    obtain ⟨pr, listed, block, -⟩ := sound.held c sz member
    have above := (block.bounds (sound.page pr listed).divides).1
    have positive := (sound.page pr listed).address_pos
    omega
  rw [Heap.kfree, if_neg nonzero, done]

/-- A word that is not in a free block is written. -/
theorem store (word : Nat) (outside : ∀ pr ∈ pages.all, a ∉ pages.free pr) :
    Describes { h with memory := update h.memory a word } live pages := by
  refine ⟨sound.all, sound.same, sound.sorted, sound.refs, sound.apart, fun pr member => ?_,
    sound.held, sound.once⟩
  have page := sound.page pr member
  refine ⟨page.typed, page.low, page.high, page.chain.congr fun c free => ?_, page.blocks,
    page.count⟩
  refine link_congr (update_of_ne ?_ ..)
  rintro rfl
  exact outside pr member free

/-- The block of a live address, on its page. -/
theorem block_of (member : pr ∈ pages.all) (here : a ∈ live.map Prod.fst) (low : h.pageaddr pr ≤ a)
    (high : a < h.pageaddr pr + PAGE_SIZE) :
    IsBlock (h.pageaddr pr) (h.blocksize pr) a ∧ a ∉ pages.free pr := by
  obtain ⟨⟨c, sz⟩, listed, rfl⟩ := List.mem_map.mp here
  obtain ⟨pr', member', block, -, used⟩ := sound.held c sz listed
  obtain ⟨above, below, -⟩ := (sound.page pr' member').offset_facts block
  have aligned := h.pageaddr_mod pr
  have aligned' := h.pageaddr_mod pr'
  have same : pr' = pr := by
    rw [PAGE_SIZE] at below high aligned aligned'
    exact sound.apart pr' member' pr member (by omega)
  subst same
  exact ⟨block, used⟩

end

end Describes

private theorem describes_initial (memory : Nat → Nat) :
    (initial memory).Describes [] ⟨[], fun _ => [], fun _ => []⟩ where
  all := rfl
  same _ _ := rfl
  sorted _ _ _ := by simp
  refs pr := by
    have clear : Bits.bit (initial memory).inuse pr = false := BitVec.getLsbD_zero
    simp [clear]
  apart _ := nofun
  page _ := nofun
  held _ _ := nofun
  once := List.nodup_nil

end Heap

/-! ### Runs -/

/-- The heap, and the blocks that have not been freed, with the sizes that were asked for. -/
structure Machine where
  heap : Heap
  live : List (Nat × Nat)

inductive Call where
  | kmalloc (sz : Nat) (refused : Bool) (page : Nat)
  | kfree (ptr : Nat)
  /-- A word of memory is written by the rest of the kernel. -/
  | store (address word : Nat)

namespace Machine

/-- The address is in a live block on the page. -/
def Owned (m : Machine) (address pr : Nat) : Prop :=
  ∃ ptr ∈ m.live.map Prod.fst,
    m.heap.pageaddr pr ≤ ptr ∧ ptr ≤ address ∧ address < ptr + m.heap.blocksize pr

/-- `alloc_kpages` returns 0 or a page that is not in use, only live blocks are freed, and on the
pages of the heap only live blocks are written to. -/
def Allowed (m : Machine) : Call → Prop
  | .kmalloc sz _ page => sz < LARGEST_SUBPAGE_SIZE ∧ (page = 0 ∨ m.heap.Available page)
  | .kfree ptr => ptr ∈ m.live.map Prod.fst
  | .store address _ => ∀ pr < NPAGEREFS, Bits.bit m.heap.inuse pr = true →
    m.heap.pageaddr pr ≤ address → address < m.heap.pageaddr pr + PAGE_SIZE → m.Owned address pr

def perform (m : Machine) : Call → Except Stop (Nat × Machine)
  | .kmalloc sz refused page =>
    match m.heap.kmalloc sz refused page with
    | .error stop => .error stop
    | .ok (ptr, h) => .ok (ptr, ⟨h, if ptr = 0 then m.live else (ptr, sz) :: m.live⟩)
  | .kfree ptr =>
    match m.heap.kfree ptr with
    | .error stop => .error stop
    | .ok h => .ok (0, ⟨h, m.live.filter (·.1 ≠ ptr)⟩)
  | .store address word =>
    .ok (0, ⟨{ m.heap with memory := update m.heap.memory address word }, m.live⟩)

private theorem describes_step {m m' : Machine} {call : Call} {reply : Nat} {pages : Heap.Layout}
    (sound : m.heap.Describes m.live pages) (allowed : m.Allowed call)
    (done : m.perform call = .ok (reply, m')) : ∃ pages', m'.heap.Describes m'.live pages' := by
  cases call with
  | kmalloc sz refused page =>
    rcases sound.kmalloc allowed.1 refused allowed.2 with refusal |
      ⟨a, h', pages', got, nonzero, sound'⟩
    · rw [perform, refusal] at done
      cases done
      exact ⟨pages, sound⟩
    rw [perform, got] at done
    dsimp only at done
    rw [if_neg nonzero] at done
    cases done
    exact ⟨pages', sound'⟩
  | kfree ptr =>
    obtain ⟨h', pages', -, freed, sound'⟩ := sound.kfree allowed
    rw [perform, freed] at done
    cases done
    exact ⟨pages', sound'⟩
  | store address word =>
    cases done
    refine ⟨pages, sound.store word fun pr member free => ?_⟩
    -- a free block on the page does not overlap the live one that the word is in
    have page := sound.page pr member
    have block := page.blocks address free
    obtain ⟨above, below, -⟩ := page.offset_facts block
    obtain ⟨small, set⟩ := (sound.refs pr).mp member
    obtain ⟨ptr, here, low, high, inside⟩ := allowed pr small set above below
    obtain ⟨live, used⟩ := sound.block_of member here low (by omega)
    have other : ptr ≠ address := fun same => used (same ▸ free)
    have apart := live.disjoint block other
    omega

private theorem sound_of_run {memory : Nat → Nat} {history : List (Machine × Call × Nat)}
    {m : Machine} (run : Run (Answers Allowed perform) ⟨.initial memory, []⟩ history m) :
    ∃ pages, m.heap.Describes m.live pages := by
  induction run with
  | start => exact ⟨_, Heap.describes_initial memory⟩
  | next _ taken ih =>
    obtain ⟨pages, sound⟩ := ih
    exact describes_step sound taken.1 taken.2

/-- After every run of calls the lists are lists of pages and of blocks, every live block is large
enough and on its own, and the next call returns: `kmalloc` with `NULL` only if it has changed
nothing, `kfree` having found the page. -/
theorem subpage_allocator {memory : Nat → Nat} {history : List (Machine × Call × Nat)} {m : Machine}
    (run : Run (Answers Allowed perform) ⟨.initial memory, []⟩ history m) :
    ∃ pages : Heap.Layout, m.heap.Describes m.live pages ∧ pages.all.Nodup ∧
      (∀ pr ∈ pages.all, (pages.free pr).Nodup ∧
        (m.heap.freelistOffset pr = INVALID_OFFSET ↔ pages.free pr = [])) ∧
      (∀ a sz, (a, sz) ∈ m.live → ∃ pr ∈ pages.all, sz ≤ m.heap.blocksize pr ∧
        m.heap.pageaddr pr ≤ a ∧ a + m.heap.blocksize pr ≤ m.heap.pageaddr pr + PAGE_SIZE ∧
        ∀ pr' ∈ pages.all, a ∉ pages.free pr' ∧
          ∀ b, IsBlock (m.heap.pageaddr pr') (m.heap.blocksize pr') b → b ≠ a →
            a + m.heap.blocksize pr ≤ b ∨ b + m.heap.blocksize pr' ≤ a) ∧
      (∀ sz refused page, m.Allowed (.kmalloc sz refused page) →
        ∃ ptr h, m.heap.kmalloc sz refused page = .ok (ptr, h) ∧ (ptr = 0 → h = m.heap)) ∧
      ∀ ptr, m.Allowed (.kfree ptr) →
        ∃ h, m.heap.subpageKfree ptr = .ok (true, h) ∧ m.heap.kfree ptr = .ok h := by
  obtain ⟨pages, sound⟩ := sound_of_run run
  refine ⟨pages, sound, sound.all.nodup, fun pr member => ?_, fun a sz here => ?_,
    fun sz refused page allowed => ?_, fun ptr allowed => ?_⟩
  · have page := sound.page pr member
    exact ⟨page.nodup, page.freelistOffset_iff⟩
  · obtain ⟨pr, member, block, enough, used⟩ := sound.held a sz here
    obtain ⟨low, high⟩ := block.bounds (sound.page pr member).divides
    refine ⟨pr, member, enough, low, high, fun pr' member' => ⟨fun free => ?_, fun b block' other =>
      ?_⟩⟩
    · cases sound.page_unique member member' block ((sound.page pr' member').blocks a free)
      exact used free
    by_cases same : pr = pr'
    · subst same
      exact block.disjoint block' other.symm
    · exact sound.apart_of_ne member member' same block block'
  · rcases sound.kmalloc allowed.1 refused allowed.2 with refusal |
      ⟨a, h', pages', got, nonzero, -⟩
    · exact ⟨0, m.heap, refusal, fun _ => rfl⟩
    · exact ⟨a, h', got, fun null => absurd null nonzero⟩
  · obtain ⟨h', pages', found, freed, -⟩ := sound.kfree allowed
    exact ⟨h', found, freed⟩

instance (h : Heap) (page : Nat) : Decidable (h.Available page) :=
  inferInstanceAs (Decidable (_ ∧ _ ∧ _ ∧ _))

instance (m : Machine) (address pr : Nat) : Decidable (m.Owned address pr) :=
  inferInstanceAs (Decidable (∃ ptr ∈ _, _))

instance (m : Machine) (call : Call) : Decidable (m.Allowed call) :=
  match call with
  | .kmalloc .. => inferInstanceAs (Decidable (_ ∧ _))
  | .kfree _ => inferInstanceAs (Decidable (_ ∈ _))
  | .store .. => inferInstanceAs (Decidable (∀ pr < NPAGEREFS, _ → _ → _ → _))

/-- Two blocks from one page; a third one finds no memory. The page goes when both are free. -/
theorem subpage_allocator_two :
    ∃ history m, Run (Answers Allowed perform) ⟨.initial fun _ => 0, []⟩ history m ∧
      history.map (·.2.2) = [0, 0, 0, 0, 0x80010000, 0x80010800] ∧ m.live = [] ∧
      ∃ pages : Heap.Layout, m.heap.Describes m.live pages := by
  obtain ⟨history, m, run, same, empty⟩ := Run.of_answering Allowed perform
    ⟨.initial fun _ => 0, []⟩
    [(.kmalloc 2000 false 0x80010000, 0x80010800), (.kmalloc 1500 false 0x80020000, 0x80010000),
      (.kmalloc 100 false 0, 0), (.store 0x80010004 7, 0), (.kfree 0x80010800, 0),
      (.kfree 0x80010000, 0)]
    (fun m => m.live = []) (by decide +kernel)
  obtain ⟨pages, sound, -⟩ := subpage_allocator run
  refine ⟨history, m, run, ?_, empty, pages, sound⟩
  have replies := congrArg (List.map Prod.snd) same
  rw [List.map_map] at replies
  exact replies

end Machine

end Os161.Kheap
