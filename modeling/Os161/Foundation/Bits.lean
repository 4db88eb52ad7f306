import Mathlib.Logic.Function.Basic

/-!
# Bits in an array of words

Bit `i` of an array of words of `n` bits is bit `i % n` of word `i / n`, and is reached with a mask.
-/
namespace Os161.Foundation.Bits

variable {n : Nat}

theorem mask_ne_zero {k : Nat} (small : k < n) : 1#n <<< k ≠ 0#n := by
  intro zero
  have here : (1#n <<< k).getLsbD k = false := by rw [zero, BitVec.getLsbD_zero]
  simp [small] at here

/-- The mask of a bit meets a word where the bit is set. -/
theorem and_mask_eq_zero {w : BitVec n} {k : Nat} (small : k < n) :
    w &&& 1#n <<< k = 0#n ↔ w.getLsbD k = false := by
  rw [← BitVec.twoPow_eq, BitVec.and_twoPow]
  cases set : w.getLsbD k with
  | false => simp
  | true => simpa [BitVec.twoPow_eq] using mask_ne_zero small

theorem eq_allOnes_iff {w : BitVec n} : w = BitVec.allOnes n ↔ ∀ k < n, w.getLsbD k = true := by
  constructor
  · rintro rfl k small
    rw [BitVec.getLsbD_allOnes, decide_eq_true small]
  intro set
  apply BitVec.eq_of_getLsbD_eq
  intro k small
  rw [set k small, BitVec.getLsbD_allOnes, decide_eq_true small]

def bit (v : Nat → BitVec n) (i : Nat) : Bool := (v (i / n)).getLsbD (i % n)

def setBit (v : Nat → BitVec n) (i : Nat) : Nat → BitVec n :=
  Function.update v (i / n) (v (i / n) ||| 1#n <<< (i % n))

def resetBit (v : Nat → BitVec n) (i : Nat) : Nat → BitVec n :=
  Function.update v (i / n) (v (i / n) &&& ~~~(1#n <<< (i % n)))

/-- Two bits in one word are one bit if they are at one place. -/
theorem eq_of_same_word {i j : Nat} (word : j / n = i / n) : j % n = i % n ↔ j = i := by
  constructor
  · intro place
    rw [← Nat.div_add_mod j n, word, place, Nat.div_add_mod]
  · exact fun same => by rw [same]

theorem bit_setBit (positive : 0 < n) (v : Nat → BitVec n) (i j : Nat) :
    bit (setBit v i) j = (decide (j = i) || bit v j) := by
  unfold bit setBit
  by_cases word : j / n = i / n
  · rw [word, Function.update_self, ← BitVec.twoPow_eq]
    have small : i % n < n := Nat.mod_lt _ positive
    simp [small, ← eq_of_same_word word, eq_comm, Bool.or_comm]
  · have apart : j ≠ i := fun same => word (by rw [same])
    rw [Function.update_of_ne word]
    simp [apart]

theorem bit_resetBit (positive : 0 < n) (v : Nat → BitVec n) (i j : Nat) :
    bit (resetBit v i) j = (!decide (j = i) && bit v j) := by
  unfold bit resetBit
  by_cases word : j / n = i / n
  · rw [word, Function.update_self, BitVec.getLsbD_and, ← BitVec.twoPow_eq]
    have small' : j % n < n := Nat.mod_lt _ positive
    simp [small', ← eq_of_same_word word, eq_comm, Bool.and_comm]
  · have apart : j ≠ i := fun same => word (by rw [same])
    rw [Function.update_of_ne word]
    simp [apart]

/-- Arrays of words are told apart by their bits. -/
theorem eq_of_bit_eq (positive : 0 < n) {v v' : Nat → BitVec n} (same : ∀ i, bit v i = bit v' i) :
    v = v' := by
  funext ix
  apply BitVec.eq_of_getLsbD_eq
  intro k small
  have here := same (n * ix + k)
  unfold bit at here
  rwa [Nat.mul_add_div positive, Nat.div_eq_of_lt small, Nat.mul_add_mod,
    Nat.mod_eq_of_lt small] at here

/-- A bit that was set and is reset again. -/
theorem resetBit_setBit (positive : 0 < n) {v : Nat → BitVec n} {i : Nat}
    (clear : bit v i = false) : resetBit (setBit v i) i = v := by
  refine eq_of_bit_eq positive fun j => ?_
  rw [bit_resetBit positive, bit_setBit positive]
  by_cases same : j = i
  · rw [same, clear]
    simp
  · simp [same]

end Os161.Foundation.Bits
