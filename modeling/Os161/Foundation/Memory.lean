import Mathlib.Algebra.Group.Nat.Defs
import Mathlib.Logic.Function.Basic

/-!
# Bytes at addresses

A memory is a function from addresses to bytes; addresses wrap around. Blocks are read and
stored as a whole, and a large copy is put together from smaller ones in the order that does
not read what it has overwritten.
-/
namespace Os161.Foundation

abbrev Byte := BitVec 8

abbrev Memory (w : Nat) := BitVec w → Byte

namespace Memory

variable {w : Nat} {m : Memory w} {p q dst src : BitVec w} {i k n : Nat}

/-- The `n` bytes from `p` on. -/
def block (m : Memory w) (p : BitVec w)
    (n : Nat) : Fin n → Byte := fun i => m (p + BitVec.ofNat w i)

def store (m : Memory w) (p : BitVec w) (b : Fin n → Byte) : Memory w := fun a =>
  if inside : (a - p).toNat < n then b ⟨(a - p).toNat, inside⟩ else m a

/-- Loads `n` bytes and then stores them. -/
def copy (m : Memory w) (dst src : BitVec w) (n : Nat) : Memory w := m.store dst (m.block src n)

/-! ### Offsets -/

theorem exists_offset (p a : BitVec w) : ∃ i < 2 ^ w, a = p + BitVec.ofNat w i :=
  ⟨(a - p).toNat, (a - p).isLt, by rw [BitVec.ofNat_toNat, BitVec.setWidth_eq, BitVec.add_comm,
    BitVec.sub_add_cancel]⟩

theorem toNat_offset (small : i < 2 ^ w) : (p + BitVec.ofNat w i - p).toNat = i := by
  rw [BitVec.add_comm, BitVec.add_sub_cancel, BitVec.toNat_ofNat, Nat.mod_eq_of_lt small]

theorem add_offset (p : BitVec w) (i k : Nat) :
    p + BitVec.ofNat w i + BitVec.ofNat w k = p + BitVec.ofNat w (i + k) := by
  rw [BitVec.ofNat_add, BitVec.add_assoc]

/-- What lies before `p` is far behind it. -/
theorem offset_wraps (p : BitVec w) (n i : Nat) (small : n ≤ 2 ^ w) :
    p + BitVec.ofNat w i = p + BitVec.ofNat w n + BitVec.ofNat w (2 ^ w - n + i) := by
  have turn : BitVec.ofNat w (2 ^ w) = 0#w := by
    apply BitVec.eq_of_toNat_eq
    rw [BitVec.toNat_ofNat, Nat.mod_self, BitVec.toNat_ofNat, Nat.zero_mod]
  rw [add_offset, ← Nat.add_assoc, Nat.add_sub_of_le small, BitVec.ofNat_add, turn, BitVec.zero_add]

/-! ### Blocks -/

theorem store_offset (b : Fin n → Byte) (small : i < 2 ^ w) :
    m.store p b (p + BitVec.ofNat w i) =
      if inside : i < n then b ⟨i, inside⟩ else m (p + BitVec.ofNat w i) := by
  simp only [store, toNat_offset small]

theorem copy_offset (small : i < 2 ^ w) :
    m.copy dst src n (dst + BitVec.ofNat w i) =
      if i < n then m (src + BitVec.ofNat w i) else m (dst + BitVec.ofNat w i) := by
  rw [copy, store_offset _ small]
  rfl

theorem copy_of_ne {a : BitVec w} (outside : ∀ i < n, a ≠ dst + BitVec.ofNat w i) :
    m.copy dst src n a = m a := by
  obtain ⟨i, small, rfl⟩ := exists_offset dst a
  rw [copy_offset small, if_neg fun inside => outside i inside rfl]

theorem copy_succ (small : n < 2 ^ w) :
    Function.update (m.copy dst src n) (dst + BitVec.ofNat w n) (m (src + BitVec.ofNat w n)) =
      m.copy dst src (n + 1) := by
  funext a
  obtain ⟨i, small', rfl⟩ := exists_offset dst a
  rw [copy_offset small']
  by_cases here : i = n
  · subst here
    rw [Function.update_self, if_pos (Nat.lt_succ_self i)]
  have other : dst + BitVec.ofNat w i ≠ dst + BitVec.ofNat w n := fun same =>
    here ((toNat_offset small').symm.trans ((congrArg (fun a => (a - dst).toNat) same).trans
      (toNat_offset small)))
  have below : i < n + 1 ↔ i < n := by omega
  rw [Function.update_of_ne other, copy_offset small']
  simp only [below]

theorem block_store (b : Fin n → Byte) (fits : n ≤ 2 ^ w) : (m.store p b).block p n = b := by
  funext i
  rw [block, store_offset b (by omega), dif_pos i.isLt]

theorem block_copy (fits : n ≤ 2 ^ w) : (m.copy dst src n).block dst n = m.block src n :=
  block_store _ fits

theorem copy_zero : m.copy dst src 0 = m := by
  funext a
  simp [copy, store]

/-! ### Copies in pieces -/

/-- The addresses from `q` on, seen from an address before it. -/
theorem offset_of_le (above : p.toNat ≤ q.toNat) (i : Nat) :
    q + BitVec.ofNat w i = p + BitVec.ofNat w (q.toNat - p.toNat + i) := by
  apply BitVec.eq_of_toNat_eq
  simp only [BitVec.toNat_add, BitVec.toNat_ofNat, Nat.add_mod_mod]
  congr 1
  omega

/-- From front to back, where the destination is not above the source. -/
theorem copy_next (above : dst.toNat ≤ src.toNat) (room : src.toNat + (n + k) ≤ 2 ^ w) :
    (m.copy dst src n).copy (dst + BitVec.ofNat w n) (src + BitVec.ofNat w n) k =
      m.copy dst src (n + k) := by
  funext a
  obtain ⟨i, small, rfl⟩ := exists_offset dst a
  rw [copy_offset small]
  by_cases done : i < n
  · -- an address of the first piece
    rw [offset_wraps dst n i (by omega), copy_offset (by omega), if_neg (by omega),
      ← offset_wraps dst n i (by omega), copy_offset small, if_pos done, if_pos (by omega)]
  obtain ⟨j, rfl⟩ := Nat.exists_eq_add_of_le (Nat.le_of_not_lt done)
  rw [← add_offset dst, copy_offset (by omega), add_offset, add_offset, copy_offset small,
    if_neg done]
  by_cases now : j < k
  · rw [if_pos now, if_pos (by omega), offset_of_le above, copy_offset (by omega),
      if_neg (by omega)]
  · rw [if_neg now, if_neg (by omega)]

/-- From back to front, where it is not below. -/
theorem copy_previous (below : src.toNat ≤ dst.toNat) (room : dst.toNat + (n + k) ≤ 2 ^ w) :
    (m.copy (dst + BitVec.ofNat w n) (src + BitVec.ofNat w n) k).copy dst src n =
      m.copy dst src (n + k) := by
  funext a
  obtain ⟨i, small, rfl⟩ := exists_offset dst a
  rw [copy_offset small, copy_offset small]
  by_cases last : i < n
  · -- the second piece was not stored over this byte of the source
    have start := offset_of_le below n
    rw [if_pos last, if_pos (by omega), offset_wraps src (dst.toNat - src.toNat + n) i (by omega),
      ← start, copy_offset (by omega), if_neg (by omega), start, ← offset_wraps src _ i (by omega)]
  obtain ⟨j, rfl⟩ := Nat.exists_eq_add_of_le (Nat.le_of_not_lt last)
  rw [if_neg last, ← add_offset dst, copy_offset (by omega), add_offset, add_offset]
  by_cases stored : j < k
  · rw [if_pos stored, if_pos (by omega)]
  · rw [if_neg stored, if_neg (by omega)]

end Memory

end Os161.Foundation
