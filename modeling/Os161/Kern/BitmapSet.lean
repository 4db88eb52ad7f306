import Mathlib.Data.Finset.Basic
import Os161.Foundation.Refinement
import Os161.Kern.Bitmap

/-!
# The bitmap is a set of numbers

The bits below `nbits` are the members of the set. The bits that the last byte has too many are
set from the beginning and stay so, which keeps `bitmap_alloc` from giving them out.
-/
namespace Os161.Bitmap

open Foundation
open Bits (bit resetBit setBit)

/-! ### `bitmap_create` -/

private theorem getLsbD_fill (w : Byte) (j left : Nat) (inside : j + left ≤ 8) (k : Nat) :
    (fill w j left).getLsbD k = (w.getLsbD k || decide (j ≤ k ∧ k < j + left)) := by
  induction left generalizing w j with
  | zero =>
    have nothing : ¬ (j ≤ k ∧ k < j + 0) := by omega
    rw [fill, decide_eq_false nothing, Bool.or_false]
  | succ left ih =>
    have small : j < 8 := by omega
    rw [fill, ih _ _ (by omega), BitVec.getLsbD_or, ← BitVec.twoPow_eq, BitVec.getLsbD_twoPow,
      Bool.or_assoc, decide_eq_true small, Bool.true_and, ← Bool.decide_or]
    congr 2
    rw [eq_iff_iff]
    omega

/-- Of the bits of a new bitmap those that are left over are set. -/
theorem create_spec {nbits : CUnsigned} (fits : nbits.toNat + 7 < 2 ^ 32) :
    ∃ v, create nbits = .ok ⟨nbits, v⟩ ∧
      ∀ i < 8 * words ⟨nbits, v⟩, bit v i = decide (nbits.toNat ≤ i) := by
  have bits : BITS_PER_WORD.toNat = 8 := by decide
  have one : (1 : CUnsigned).toNat = 1 := rfl
  have words_eq (v : Nat → Byte) : words ⟨nbits, v⟩ = (nbits.toNat + 7) / 8 := toNat_words v fits
  have count : (divroundup nbits BITS_PER_WORD).toNat = (nbits.toNat + 7) / 8 :=
    words_eq fun _ => 0
  have whole : (nbits / BITS_PER_WORD).toNat = nbits.toNat / 8 := by
    rw [BitVec.toNat_udiv, bits]
  by_cases even : nbits.toNat % 8 = 0
  · refine ⟨fun _ => 0, create_eq fits even, fun i inside => ?_⟩
    rw [words_eq] at inside
    have below : ¬ nbits.toNat ≤ i := by omega
    rw [decide_eq_false below]
    exact BitVec.getLsbD_zero
  have more : nbits / BITS_PER_WORD < divroundup nbits BITS_PER_WORD := by
    rw [BitVec.lt_def]
    omega
  have last : (divroundup nbits BITS_PER_WORD - 1).toNat = nbits.toNat / 8 := by
    rw [BitVec.toNat_sub]
    omega
  have overbits : (nbits - (divroundup nbits BITS_PER_WORD - 1) * BITS_PER_WORD).toNat =
      nbits.toNat % 8 := by
    rw [BitVec.toNat_sub, BitVec.toNat_mul, bits]
    omega
  have asserted : nbits / BITS_PER_WORD = divroundup nbits BITS_PER_WORD - 1 ∧
      0 < nbits - (divroundup nbits BITS_PER_WORD - 1) * BITS_PER_WORD ∧
      nbits - (divroundup nbits BITS_PER_WORD - 1) * BITS_PER_WORD < BITS_PER_WORD := by
    refine ⟨BitVec.eq_of_toNat_eq (by rw [whole, last]), ?_, ?_⟩
    · have zero : (0 : CUnsigned).toNat = 0 := rfl
      rw [BitVec.lt_def]
      omega
    · rw [BitVec.lt_def]
      omega
  have made := by simpa only [if_pos more, if_pos asserted] using create.eq_1 nbits
  refine ⟨_, made, fun i inside => ?_⟩
  rw [words_eq] at inside
  rw [last, bit]
  by_cases here : i / 8 = nbits.toNat / 8
  · rw [here, Function.update_self, getLsbD_fill _ _ _ (by omega)]
    have clear : (0 : Byte).getLsbD (i % 8) = false := BitVec.getLsbD_zero
    rw [clear, Bool.false_or]
    congr 1
    rw [eq_iff_iff]
    omega
  · have below : ¬ nbits.toNat ≤ i := by omega
    rw [Function.update_of_ne here, decide_eq_false below]
    exact BitVec.getLsbD_zero

/-! ### Runs of calls -/

inductive Call where
  | alloc
  | mark (index : CUnsigned)
  | unmark (index : CUnsigned)
  | isset (index : CUnsigned)

/-- What a call answers; `full` is `ENOSPC`. -/
inductive Reply where
  | index (i : CUnsigned)
  | full
  | done
  | truth (value : Bool)
  deriving DecidableEq

/-- The indices lie below `nbits`, and only clear bits are marked and only set ones unmarked. -/
def Allowed (b : Bitmap) : Call → Prop
  | .alloc => True
  | .mark index => index < b.nbits ∧ bit b.v index.toNat = false
  | .unmark index => index < b.nbits ∧ bit b.v index.toNat = true
  | .isset index => index < b.nbits

instance (b : Bitmap) (call : Call) : Decidable (b.Allowed call) :=
  match call with
  | .alloc => inferInstanceAs (Decidable True)
  | .mark _ | .unmark _ => inferInstanceAs (Decidable (_ ∧ _))
  | .isset index => inferInstanceAs (Decidable (index < b.nbits))

def perform (b : Bitmap) : Call → Except Fault (Reply × Bitmap)
  | .alloc =>
    match b.alloc with
    | .error fault => .error fault
    | .ok none => .ok (.full, b)
    | .ok (some (index, b')) => .ok (.index index, b')
  | .mark index => (b.mark index).map fun b' => (.done, b')
  | .unmark index => (b.unmark index).map fun b' => (.done, b')
  | .isset index => .ok (.truth (b.isset index), b)

def members (b : Bitmap) : Finset Nat :=
  (Finset.range b.nbits.toNat).filter fun i => bit b.v i = true

/-- What a call does to a set of numbers below `n`, and what it answers. -/
inductive Taken (n : Nat) : Finset Nat → Call × Reply → Finset Nat → Prop
  | least (S : Finset Nat) (index : CUnsigned) (inside : index.toNat < n) (new : index.toNat ∉ S)
      (before : ∀ i < index.toNat, i ∈ S) :
      Taken n S (.alloc, .index index) (insert index.toNat S)
  | full (S : Finset Nat) (all : S = Finset.range n) : Taken n S (.alloc, .full) S
  | marked (S : Finset Nat) (index : CUnsigned) (inside : index.toNat < n)
      (new : index.toNat ∉ S) : Taken n S (.mark index, .done) (insert index.toNat S)
  | unmarked (S : Finset Nat) (index : CUnsigned) (inside : index.toNat < n)
      (old : index.toNat ∈ S) : Taken n S (.unmark index, .done) (S.erase index.toNat)
  | asked (S : Finset Nat) (index : CUnsigned) (inside : index.toNat < n) :
      Taken n S (.isset index, .truth (decide (index.toNat ∈ S))) S

/-- The one bit that a call changes. -/
def changed : Call × Reply → Option Nat
  | (.alloc, .index index) => some index.toNat
  | (.mark index, _) => some index.toNat
  | (.unmark index, _) => some index.toNat
  | _ => none

/-- What a step can do: nothing, or set or reset one bit. -/
inductive Effect (b : Bitmap) : Call × Reply → Bitmap → Prop
  | alloc (index : CUnsigned) (inside : index < b.nbits) (clear : bit b.v index.toNat = false)
      (before : ∀ i < index.toNat, bit b.v i = true) :
      Effect b (.alloc, .index index) { b with v := setBit b.v index.toNat }
  | full (all : ∀ i < 8 * b.words, bit b.v i = true) : Effect b (.alloc, .full) b
  | mark (index : CUnsigned) (inside : index < b.nbits) (clear : bit b.v index.toNat = false) :
      Effect b (.mark index, .done) { b with v := setBit b.v index.toNat }
  | unmark (index : CUnsigned) (inside : index < b.nbits) (set : bit b.v index.toNat = true) :
      Effect b (.unmark index, .done) { b with v := resetBit b.v index.toNat }
  | isset (index : CUnsigned) (inside : index < b.nbits) :
      Effect b (.isset index, .truth (bit b.v index.toNat)) b

structure Usable (nbits : CUnsigned) (b : Bitmap) : Prop where
  nbits : b.nbits = nbits
  padded : b.Padded

theorem mem_members {b : Bitmap} {i : Nat} :
    i ∈ b.members ↔ i < b.nbits.toNat ∧ bit b.v i = true := by
  simp [members]

private theorem members_setBit (b : Bitmap) {i : Nat} (inside : i < b.nbits.toNat) :
    members { b with v := setBit b.v i } = insert i b.members := by
  ext j
  simp only [mem_members, Finset.mem_insert, Bits.bit_setBit (n := 8) (by decide),
    Bool.or_eq_true, decide_eq_true_eq]
  constructor
  · rintro ⟨small, rfl | set⟩
    · exact .inl rfl
    · exact .inr ⟨small, set⟩
  · rintro (rfl | ⟨small, set⟩)
    · exact ⟨inside, .inl rfl⟩
    · exact ⟨small, .inr set⟩

private theorem members_resetBit (b : Bitmap) (i : Nat) :
    members { b with v := resetBit b.v i } = b.members.erase i := by
  ext j
  simp only [mem_members, Finset.mem_erase, Bits.bit_resetBit (n := 8) (by decide),
    Bool.and_eq_true, Bool.not_eq_true', decide_eq_false_iff_not]
  tauto

section

variable {nbits : CUnsigned} {b t : Bitmap} {call : Call} {reply : Reply}

theorem le_words (fits : b.nbits.toNat + 7 < 2 ^ 32) : b.nbits.toNat ≤ 8 * b.words := by
  have count : b.words = (b.nbits.toNat + 7) / 8 := toNat_words b.v fits
  omega

/-- Every allowed call returns, and has one of the effects. -/
theorem perform_effect (padded : b.Padded) (allowed : b.Allowed call) :
    ∃ reply t, b.perform call = .ok (reply, t) ∧ b.Effect (call, reply) t := by
  cases call with
  | alloc =>
    rcases b.alloc_cases padded with ⟨none, all⟩ | ⟨index, some, inside, clear, before⟩
    · exact ⟨.full, b, by simp [perform, none], .full all⟩
    · exact ⟨.index index, _, by simp [perform, some], .alloc index inside clear before⟩
  | mark index =>
    refine ⟨.done, _, ?_, .mark index allowed.1 allowed.2⟩
    rw [perform, mark, if_pos (by rwa [isset_eq])]
    rfl
  | unmark index =>
    refine ⟨.done, _, ?_, .unmark index allowed.1 allowed.2⟩
    rw [perform, unmark_eq allowed.1 allowed.2]
    rfl
  | isset index =>
    refine ⟨.truth (b.isset index), b, rfl, ?_⟩
    rw [isset_eq]
    exact .isset index allowed

theorem Answers.effect (padded : b.Padded) {label : Call × Reply}
    (answered : Answers Allowed perform b label t) : b.Effect label t := by
  obtain ⟨reply, u, done, effect⟩ := perform_effect padded answered.1
  have same := done.symm.trans answered.2
  cases same
  exact effect

section

variable {label : Call × Reply} (effect : b.Effect label t)

include effect

theorem Effect.unchanged {j : Nat} (other : changed label ≠ some j) : bit t.v j = bit b.v j := by
  cases effect with
  | full | isset => rfl
  | alloc index | mark index =>
    have apart : j ≠ index.toNat := fun same => other (by rw [same]; rfl)
    rw [Bits.bit_setBit (by decide), decide_eq_false apart, Bool.false_or]
  | unmark index =>
    have apart : j ≠ index.toNat := fun same => other (by rw [same]; rfl)
    rw [Bits.bit_resetBit (by decide), decide_eq_false apart, Bool.not_false, Bool.true_and]

theorem Effect.nbits_eq : t.nbits = b.nbits := by
  cases effect <;> rfl

/-- The bit that changes is one of the set. -/
theorem Effect.changed_lt {j : Nat} (here : changed label = some j) : j < b.nbits.toNat := by
  cases effect with
  | full | isset => cases here
  | alloc _ inside | mark _ inside | unmark _ inside =>
    cases here
    exact BitVec.lt_def.mp inside

theorem Effect.padded (padded : b.Padded) : t.Padded := by
  intro i beyond inside
  have size := effect.nbits_eq
  rw [size] at beyond
  rw [words, size] at inside
  rw [effect.unchanged fun here => absurd (effect.changed_lt here) (by omega)]
  exact padded i beyond inside

theorem Effect.taken (fits : b.nbits.toNat + 7 < 2 ^ 32) :
    Taken b.nbits.toNat b.members label t.members := by
  cases effect with
  | alloc index inside clear before =>
    have small := BitVec.lt_def.mp inside
    rw [members_setBit b small]
    refine .least _ index small (fun old => ?_) fun i less =>
      mem_members.mpr ⟨by omega, before i less⟩
    rw [mem_members, clear] at old
    exact nomatch old.2
  | full all =>
    refine .full _ (Finset.ext fun i => ?_)
    rw [mem_members, Finset.mem_range]
    exact ⟨And.left, fun small => ⟨small, all i (Nat.lt_of_lt_of_le small (le_words fits))⟩⟩
  | mark index inside clear =>
    have small := BitVec.lt_def.mp inside
    rw [members_setBit b small]
    refine .marked _ index small fun old => ?_
    rw [mem_members, clear] at old
    exact nomatch old.2
  | unmark index inside set =>
    have small := BitVec.lt_def.mp inside
    rw [members_resetBit]
    exact .unmarked _ index small (mem_members.mpr ⟨small, set⟩)
  | isset index inside =>
    have small := BitVec.lt_def.mp inside
    have truth : bit b.v index.toNat = decide (index.toNat ∈ b.members) := by
      rw [Bool.eq_iff_iff, decide_eq_true_eq, mem_members]
      exact ⟨fun set => ⟨small, set⟩, And.right⟩
    rw [truth]
    exact .asked _ index small

end

end

/-- From `bitmap_create` on the calls answer as a set does that is empty at first; no assertion
fails, the bits left over stay set, and a call changes no bit but its own. -/
theorem finite_set {nbits : CUnsigned} (fits : nbits.toNat + 7 < 2 ^ 32) :
    ∃ b₀, create nbits = .ok b₀ ∧
      ∀ history b, Run (Answers Allowed perform) b₀ history b →
        Run (Taken nbits.toNat) ∅ (history.map fun taken => (taken.1.members, taken.2)) b.members ∧
        b.nbits = nbits ∧ b.Padded ∧
        (∀ call, b.Allowed call → ∃ reply t, b.perform call = .ok (reply, t)) ∧
        ∀ label t, Answers Allowed perform b label t →
          ∀ j, changed label ≠ some j → bit t.v j = bit b.v j := by
  obtain ⟨v, created, fresh⟩ := create_spec fits
  have padded : Padded ⟨nbits, v⟩ := by
    intro i beyond inside
    rw [fresh i inside, decide_eq_true beyond]
  have empty : members ⟨nbits, v⟩ = ∅ := by
    have covered : nbits.toNat ≤ 8 * words ⟨nbits, v⟩ := le_words (b := ⟨nbits, v⟩) fits
    ext i
    rw [mem_members]
    refine iff_of_false ?_ (Finset.notMem_empty i)
    rintro ⟨small, set⟩
    rw [fresh i (Nat.lt_of_lt_of_le small covered), decide_eq_true_eq] at set
    exact absurd small (Nat.not_lt.mpr set)
  refine ⟨_, created, fun history b run => ?_⟩
  obtain ⟨usable, specified⟩ := run.simulate (Taken nbits.toNat) (Usable nbits) members
    ⟨rfl, padded⟩ fun s label t usable taken => by
      have fits' : s.nbits.toNat + 7 < 2 ^ 32 := by rwa [usable.nbits]
      have effect := Answers.effect usable.padded taken
      have kept := effect.taken fits'
      rw [usable.nbits] at kept
      exact ⟨⟨effect.nbits_eq.trans usable.nbits, effect.padded usable.padded⟩, kept⟩
  rw [empty] at specified
  refine ⟨specified, usable.nbits, usable.padded, fun call allowed => ?_,
    fun label t answered j => ?_⟩
  · obtain ⟨reply, t, done, -⟩ := perform_effect usable.padded allowed
    exact ⟨reply, t, done⟩
  · exact (Answers.effect usable.padded answered).unchanged

/-- Ten bits in two bytes. -/
theorem finite_set_ten :
    ∃ b₀, create 10 = .ok b₀ ∧ ∃ history b, Run (Answers Allowed perform) b₀ history b ∧
      history.map Prod.snd = [(.alloc, .index 1), (.alloc, .index 0), (.mark 2, .done)] ∧
      b.Padded := by
  obtain ⟨b₀, created, runs⟩ := @finite_set 10 (by decide)
  refine ⟨b₀, created, ?_⟩
  cases created
  obtain ⟨history, b, run, same, -⟩ := Run.of_answering Allowed perform
    ⟨10, Function.update (fun _ => 0) 1 (fill 0 2 6)⟩
    [(.mark 2, .done), (.alloc, .index 0), (.alloc, .index 1)] (fun _ => True) (by decide)
  exact ⟨history, b, run, same, (runs history b run).2.2.1⟩

end Os161.Bitmap
