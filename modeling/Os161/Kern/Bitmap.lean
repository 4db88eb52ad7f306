import Os161.Foundation.Bits
import Os161.Foundation.Memory
import Os161.Kern.Base

/-!
# Arrays of bits, `lib/bitmap.c`

The bits are kept in bytes. `bit` looks at one of them by its number, and every operation is
described by the bits it leaves.
-/
namespace Os161

open Foundation
open Bits (bit resetBit setBit)

def BITS_PER_WORD : CUnsigned := 8

def WORD_ALLBITS : Byte := 0xff

def divroundup (a b : CUnsigned) : CUnsigned := (a + b - 1) / b

structure Bitmap where
  nbits : CUnsigned
  v : Nat → Byte

namespace Bitmap

/-- The number of bytes. -/
def words (b : Bitmap) : Nat := (divroundup b.nbits BITS_PER_WORD).toNat

/-- The loop of `bitmap_create` that marks the leftover bits of the last byte. -/
def fill (w : Byte) (j : Nat) : Nat → Byte
  | 0 => w
  | left + 1 => fill (w ||| 1#8 <<< j) (j + 1) left

/-- `bitmap_create`, when there is memory for it. -/
def create (nbits : CUnsigned) : Except Fault Bitmap :=
  let words := divroundup nbits BITS_PER_WORD
  if nbits / BITS_PER_WORD < words then
    let ix := words - 1
    let overbits := nbits - ix * BITS_PER_WORD
    if nbits / BITS_PER_WORD = words - 1 ∧ 0 < overbits ∧ overbits < BITS_PER_WORD then
      .ok ⟨nbits, Function.update (fun _ => 0) ix.toNat
        (fill 0 overbits.toNat (8 - overbits.toNat))⟩
    else .error .assertion
  else .ok ⟨nbits, fun _ => 0⟩

/-- The loops of `bitmap_alloc`: the first byte with a clear bit, from `ix` on. -/
def clearWord (v : Nat → Byte) (ix : Nat) : Nat → Option Nat
  | 0 => none
  | left + 1 => if v ix ≠ WORD_ALLBITS then some ix else clearWord v (ix + 1) left

/-- The first clear bit of a byte, from `offset` on. -/
def clearBit (w : Byte) (offset : Nat) : Nat → Option Nat
  | 0 => none
  | left + 1 => if w &&& 1#8 <<< offset = 0 then some offset else clearBit w (offset + 1) left

/-- `bitmap_alloc`; `none` is `ENOSPC`. -/
def alloc (b : Bitmap) : Except Fault (Option (CUnsigned × Bitmap)) :=
  match clearWord b.v 0 b.words with
  | none => .ok none
  | some ix =>
    match clearBit (b.v ix) 0 8 with
    | none => .error .assertion
    | some offset =>
      let index := BitVec.ofNat 32 (ix * 8 + offset)
      if index < b.nbits then .ok (some (index, { b with v := setBit b.v (ix * 8 + offset) }))
      else .error .assertion

/-- `bitmap_isset`, which has no assertion. -/
def isset (b : Bitmap) (index : CUnsigned) : Bool :=
  b.v (index.toNat / 8) &&& 1#8 <<< (index.toNat % 8) ≠ 0

def mark (b : Bitmap) (index : CUnsigned) : Except Fault Bitmap :=
  if index < b.nbits ∧ b.isset index = false then
    .ok { b with v := setBit b.v index.toNat }
  else .error .assertion

def unmark (b : Bitmap) (index : CUnsigned) : Except Fault Bitmap :=
  if index < b.nbits ∧ b.isset index = true then
    .ok { b with v := resetBit b.v index.toNat }
  else .error .assertion

/-! ### Bits -/

theorem isset_eq (b : Bitmap) (index : CUnsigned) : b.isset index = bit b.v index.toNat := by
  have meets := @Bits.and_mask_eq_zero _ (b.v (index.toNat / 8)) _
    (Nat.mod_lt index.toNat (by decide))
  rw [isset, bit]
  cases set : (b.v (index.toNat / 8)).getLsbD (index.toNat % 8) with
  | false => simpa using meets.mpr set
  | true => simpa [set] using mt meets.mp

/-! ### `bitmap_alloc` -/

variable {v : Nat → Byte} {n : CUnsigned}

private theorem clearWord_eq_none {ix left : Nat} :
    clearWord v ix left = none ↔ ∀ k < left, v (ix + k) = WORD_ALLBITS := by
  induction left generalizing ix with
  | zero => simp [clearWord]
  | succ left ih =>
    rw [clearWord, Nat.forall_lt_succ_left']
    split
    next clear => simp [clear]
    next full =>
      have full : v ix = WORD_ALLBITS := by simpa using full
      simp only [ih, Nat.add_zero, full, true_and]
      refine forall_congr' fun k => imp_congr_right fun _ => ?_
      rw [Nat.add_right_comm, Nat.add_assoc]

theorem clearWord_eq_some {ix left found : Nat}
    (here : clearWord v ix left = some found) :
    ix ≤ found ∧ found < ix + left ∧ v found ≠ WORD_ALLBITS ∧
      ∀ k, ix ≤ k → k < found → v k = WORD_ALLBITS := by
  induction left generalizing ix with
  | zero => cases here
  | succ left ih =>
    rw [clearWord] at here
    split at here
    next clear =>
      cases here
      exact ⟨Nat.le_refl _, by omega, clear, fun k low high => by omega⟩
    next full =>
      obtain ⟨low, high, clear, before⟩ := ih here
      refine ⟨by omega, by omega, clear, fun k above below => ?_⟩
      by_cases first : k = ix
      · subst first
        simpa using full
      · exact before k (by omega) below

private theorem clearBit_eq_none {w : Byte} {offset left : Nat} (inside : offset + left ≤ 8) :
    clearBit w offset left = none ↔ ∀ k < left, w.getLsbD (offset + k) = true := by
  induction left generalizing offset with
  | zero => simp [clearBit]
  | succ left ih =>
    have meets := @Bits.and_mask_eq_zero _ w offset (by omega)
    rw [clearBit, Nat.forall_lt_succ_left']
    split
    next clear => simp [meets.mp clear]
    next set =>
      have set : w.getLsbD offset = true := by simpa using mt meets.mpr set
      simp only [ih (show offset + 1 + left ≤ 8 by omega), Nat.add_zero, set, true_and]
      refine forall_congr' fun k => imp_congr_right fun _ => ?_
      rw [Nat.add_right_comm, Nat.add_assoc]

theorem clearBit_eq_some {w : Byte} {offset left found : Nat} (inside : offset + left ≤ 8)
    (here : clearBit w offset left = some found) :
    offset ≤ found ∧ found < offset + left ∧ w.getLsbD found = false ∧
      ∀ k, offset ≤ k → k < found → w.getLsbD k = true := by
  induction left generalizing offset with
  | zero => cases here
  | succ left ih =>
    have meets := @Bits.and_mask_eq_zero _ w offset (by omega)
    rw [clearBit] at here
    split at here
    next clear =>
      cases here
      exact ⟨Nat.le_refl _, by omega, meets.mp clear, fun k low high => by omega⟩
    next set =>
      obtain ⟨low, high, clear, before⟩ := ih (by omega) here
      refine ⟨by omega, by omega, clear, fun k above below => ?_⟩
      by_cases first : k = offset
      · subst first
        simpa using mt meets.mpr set
      · exact before k (by omega) below

/-- A byte is full when its eight bits are set. -/
theorem eq_allbits_iff {w : Byte} : w = WORD_ALLBITS ↔ ∀ k < 8, w.getLsbD k = true :=
  Bits.eq_allOnes_iff

/-- The bits that the last byte has too many are set. -/
def Padded (b : Bitmap) : Prop := ∀ i, b.nbits.toNat ≤ i → i < 8 * b.words → bit b.v i = true

private theorem bit_of_full {n : Nat} (full : ∀ ix < n, v ix = WORD_ALLBITS) {i : Nat}
    (inside : i < 8 * n) : bit v i = true :=
  eq_allbits_iff.mp (full (i / 8) (by omega)) _ (Nat.mod_lt _ (by decide))

private theorem words_lt (b : Bitmap) : b.words < 2 ^ 29 := by
  have bits : BITS_PER_WORD.toNat = 8 := by decide
  rw [words, divroundup, BitVec.toNat_udiv, bits]
  omega

/-- The index that `bitmap_alloc` makes of a byte and a place in it does not wrap. -/
theorem toNat_index (b : Bitmap) {ix offset : Nat} (inside : ix < b.words) (small : offset < 8) :
    (BitVec.ofNat 32 (ix * 8 + offset)).toNat = ix * 8 + offset := by
  have bound := b.words_lt
  rw [BitVec.toNat_ofNat, Nat.mod_eq_of_lt (by omega)]

theorem bit_index (v : Nat → Byte) {ix offset : Nat} (small : offset < 8) :
    bit v (ix * 8 + offset) = (v ix).getLsbD offset := by
  have word : (ix * 8 + offset) / 8 = ix := by omega
  have place : (ix * 8 + offset) % 8 = offset := by omega
  rw [bit, word, place]

/-- `bitmap_alloc` takes a bit that is clear, also where bits are missing. -/
theorem bit_of_alloc {b b' : Bitmap} {index : CUnsigned}
    (found : b.alloc = .ok (some (index, b'))) :
    bit b.v index.toNat = false ∧ b'.v = setBit b.v index.toNat := by
  rw [alloc] at found
  cases word : clearWord b.v 0 b.words with
  | none => simp [word] at found
  | some ix =>
    obtain ⟨-, inside, -, -⟩ := clearWord_eq_some word
    cases first : clearBit (b.v ix) 0 8 with
    | none => simp [word, first] at found
    | some offset =>
      obtain ⟨-, small, unset, -⟩ := clearBit_eq_some (by decide) first
      simp only [word, first] at found
      split at found
      · cases found
        rw [b.toNat_index (Nat.zero_add b.words ▸ inside) small, bit_index b.v small]
        exact ⟨unset, rfl⟩
      · cases found

/-- `bitmap_alloc` takes the first clear bit, and fails if all are set. -/
theorem alloc_cases (b : Bitmap) (padded : b.Padded) :
    (b.alloc = .ok none ∧ ∀ i < 8 * b.words, bit b.v i = true) ∨
      ∃ index : CUnsigned, b.alloc = .ok (some (index, { b with v := setBit b.v index.toNat })) ∧
        index < b.nbits ∧ bit b.v index.toNat = false ∧
        ∀ i < index.toNat, bit b.v i = true := by
  cases word : clearWord b.v 0 b.words with
  | none =>
    refine .inl ⟨by simp [alloc, word], fun i inside => ?_⟩
    have full := clearWord_eq_none.mp word
    simp only [Nat.zero_add] at full
    exact bit_of_full full inside
  | some ix =>
    obtain ⟨-, inside, clear, before⟩ := clearWord_eq_some word
    cases first : clearBit (b.v ix) 0 8 with
    | none =>
      have all := (clearBit_eq_none (by decide)).mp first
      simp only [Nat.zero_add] at all
      exact absurd (eq_allbits_iff.mpr all) clear
    | some offset =>
      obtain ⟨-, small, unset, lower⟩ := clearBit_eq_some (by decide) first
      have number := b.toNat_index (Nat.zero_add b.words ▸ inside) small
      have here : bit b.v (ix * 8 + offset) = false := (bit_index b.v small).trans unset
      -- the bits behind `nbits` are set, so this one is not among them
      have valid : BitVec.ofNat 32 (ix * 8 + offset) < b.nbits := by
        rw [BitVec.lt_def, number]
        by_contra beyond
        rw [padded _ (Nat.le_of_not_lt beyond) (by omega)] at here
        cases here
      refine .inr ⟨BitVec.ofNat 32 (ix * 8 + offset), ?_, valid, by rwa [number], ?_⟩
      · simp [alloc, word, first, number, if_pos valid]
      intro i less
      by_cases same : i / 8 = ix
      · rw [bit, same]
        exact lower (i % 8) (Nat.zero_le _) (by omega)
      · exact bit_of_full (n := ix) (fun k below => before k (Nat.zero_le _) below) (by omega)

theorem toNat_words (v : Nat → Byte) (fits : n.toNat + 7 < 2 ^ 32) :
    words ⟨n, v⟩ = (n.toNat + 7) / 8 := by
  have bits : BITS_PER_WORD.toNat = 8 := by decide
  have sum : (n + BITS_PER_WORD - 1).toNat = n.toNat + 7 := by
    have one : (1 : CUnsigned).toNat = 1 := rfl
    rw [BitVec.toNat_sub, BitVec.toNat_add]
    omega
  rw [words, divroundup, BitVec.toNat_udiv, sum, bits]

/-- Whole bytes leave no bits over. -/
theorem create_nbits {b : Bitmap} (created : create n = .ok b) : b.nbits = n := by
  simp only [create] at created
  split at created
  · split at created <;> cases created
    rfl
  · cases created
    rfl

theorem create_eq (fits : n.toNat + 7 < 2 ^ 32) (whole : n.toNat % 8 = 0) :
    create n = .ok ⟨n, fun _ => 0⟩ := by
  have bits : BITS_PER_WORD.toNat = 8 := by decide
  have words : (divroundup n BITS_PER_WORD).toNat = (n.toNat + 7) / 8 :=
    toNat_words (fun _ => 0) fits
  have none : ¬ n / BITS_PER_WORD < divroundup n BITS_PER_WORD := by
    rw [BitVec.lt_def, BitVec.toNat_udiv, bits]
    omega
  simp [create, if_neg none]

theorem unmark_eq {b : Bitmap} {index : CUnsigned} (valid : index < b.nbits)
    (set : bit b.v index.toNat = true) :
    b.unmark index = .ok { b with v := resetBit b.v index.toNat } := by
  rw [unmark, if_pos ⟨valid, by rwa [isset_eq]⟩]

end Bitmap

end Os161
