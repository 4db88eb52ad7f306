import Mathlib.Data.Fin.Basic
import Os161.Foundation.Memory

/-!
# Words in blocks of bytes

A word has four bytes, and the first of them is its highest.
-/
namespace Os161.Foundation

abbrev Word := BitVec 32

namespace Word

def ofBytes (a b c d : Byte) : Word := a ++ b ++ c ++ d

def byte (w : Word) (j : Nat) : Byte := w.extractLsb' (24 - 8 * j) 8

theorem ofBytes_byte (w : Word) : ofBytes (byte w 0) (byte w 1) (byte w 2) (byte w 3) = w := by
  apply BitVec.eq_of_getLsbD_eq
  intro i small
  simp only [ofBytes, byte, BitVec.getLsbD_append, BitVec.getLsbD_extractLsb']
  by_cases first : i < 8
  · simp [first]
  by_cases second : i - 8 < 8
  · simp [first, second, show 8 + (i - 8) = i by omega]
  by_cases third : i - 8 - 8 < 8
  · simp [first, second, third, show 16 + (i - 8 - 8) = i by omega]
  · simp [first, second, third, show i - 8 - 8 - 8 < 8 by omega,
      show 24 + (i - 8 - 8 - 8) = i by omega]

theorem byte_ofBytes (a b c d : Byte) :
    byte (ofBytes a b c d) 0 = a ∧ byte (ofBytes a b c d) 1 = b ∧ byte (ofBytes a b c d) 2 = c ∧
      byte (ofBytes a b c d) 3 = d := by
  refine ⟨?_, ?_, ?_, ?_⟩ <;> apply BitVec.eq_of_getLsbD_eq <;> intro i inside <;>
    simp only [byte, ofBytes, BitVec.getLsbD_extractLsb', BitVec.getLsbD_append, inside,
      decide_true, Bool.true_and]
  · rw [if_neg (by omega), if_neg (by omega), if_neg (by omega)]
    exact congrArg _ (by omega)
  · rw [if_neg (by omega), if_neg (by omega), if_pos (by omega)]
    exact congrArg _ (by omega)
  · rw [if_neg (by omega), if_pos (by omega)]
    exact congrArg _ (by omega)
  · rw [if_pos (by omega)]
    exact congrArg _ (by omega)

end Word

variable {n : Nat}

/-- The word that starts at byte `4 * i`. -/
def word (b : Fin (4 * n) → Byte) (i : Fin n) : Word :=
  .ofBytes (b ⟨4 * i, by omega⟩) (b ⟨4 * i + 1, by omega⟩) (b ⟨4 * i + 2, by omega⟩)
    (b ⟨4 * i + 3, by omega⟩)

def unwords (w : Fin n → Word) : Fin (4 * n) → Byte :=
  fun p => Word.byte (w ⟨p / 4, by omega⟩) (p % 4)

theorem unwords_at (w : Fin n → Word) (i : Fin n) {p j : Nat} (inside : p < 4 * n)
    (at_j : p = 4 * i.val + j) (small : j < 4) : unwords w ⟨p, inside⟩ = Word.byte (w i) j := by
  have number : p / 4 = i := by omega
  have place : p % 4 = j := by omega
  simp [unwords, number, place]

theorem word_unwords (w : Fin n → Word) : word (unwords w) = w := by
  funext i
  rw [word, unwords_at w i _ (Nat.add_zero _).symm (by decide), unwords_at w i _ rfl (by decide),
    unwords_at w i _ rfl (by decide), unwords_at w i _ rfl (by decide), Word.ofBytes_byte]

theorem unwords_word (b : Fin (4 * n) → Byte) : unwords (word b) = b := by
  funext p
  obtain ⟨first, second, third, fourth⟩ := Word.byte_ofBytes
    (b ⟨4 * (p / 4), by omega⟩) (b ⟨4 * (p / 4) + 1, by omega⟩) (b ⟨4 * (p / 4) + 2, by omega⟩)
    (b ⟨4 * (p / 4) + 3, by omega⟩)
  have places : p.val % 4 = 0 ∨ p.val % 4 = 1 ∨ p.val % 4 = 2 ∨ p.val % 4 = 3 := by omega
  rw [unwords, word]
  rcases places with place | place | place | place
  · rw [place, first]
    exact congrArg b (Fin.ext (by simp only; omega))
  · rw [place, second]
    exact congrArg b (Fin.ext (by simp only; omega))
  · rw [place, third]
    exact congrArg b (Fin.ext (by simp only; omega))
  · rw [place, fourth]
    exact congrArg b (Fin.ext (by simp only; omega))

end Os161.Foundation
