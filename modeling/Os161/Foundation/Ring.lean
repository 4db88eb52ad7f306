import Mathlib.Data.List.Range

/-!
# Windows in a ring of cells

A window starts at a read position and runs forward, around the end of the ring if need
be, up to a write position. Equal positions mean an empty window, so a ring of `size`
cells holds at most `size - 1` elements.
-/
namespace Os161.Foundation

variable {α : Type*} {size r w : Nat}

/-! ### Positions -/

/-- Steps forward from `r` to `w`. -/
def ringDist (size r w : Nat) : Nat := if r ≤ w then w - r else w + size - r

theorem succ_mod_eq (inside : w < size) : (w + 1) % size = if w + 1 = size then 0 else w + 1 := by
  split
  next last => rw [last, Nat.mod_self]
  next => exact Nat.mod_eq_of_lt (by omega)

theorem add_mod_eq {k : Nat} (inside : r < size) (turn : k < size) :
    (r + k) % size = if r + k < size then r + k else r + k - size := by
  split
  next before => exact Nat.mod_eq_of_lt before
  next wrapped =>
    rw [Nat.mod_eq_sub_mod (by omega), Nat.mod_eq_of_lt (by omega)]

theorem ringDist_lt (read : r < size) (write : w < size) : ringDist size r w < size := by
  unfold ringDist
  split <;> omega

theorem ringDist_eq_zero (read : r < size) : ringDist size r w = 0 ↔ w = r := by
  unfold ringDist
  split <;> omega

section

variable (read : r < size) (write : w < size)

include read write

/-- The cell behind the last one of a window is the one at the write position. -/
theorem add_ringDist_mod : (r + ringDist size r w) % size = w := by
  rw [add_mod_eq read (ringDist_lt read write)]
  unfold ringDist
  split <;> split <;> omega

theorem ringDist_next_write (room : (w + 1) % size ≠ r) :
    ringDist size r ((w + 1) % size) = ringDist size r w + 1 := by
  rw [succ_mod_eq write] at room ⊢
  unfold ringDist
  -- the write position may wrap, and the window may run around the end of the ring
  split_ifs at room ⊢ <;> omega

theorem ringDist_next_read (filled : w ≠ r) :
    ringDist size r w = ringDist size ((r + 1) % size) w + 1 := by
  rw [succ_mod_eq read]
  unfold ringDist
  split_ifs <;> omega

/-- The write position has caught up with the read position from behind. -/
theorem next_write_eq_read : (w + 1) % size = r ↔ ringDist size r w + 1 = size := by
  rw [succ_mod_eq write]
  unfold ringDist
  split <;> split <;> omega

end

/-! ### Contents -/

def ringWindow (size : Nat) (cells : Nat → α) (r w : Nat) : List α :=
  (List.range (ringDist size r w)).map fun k => cells ((r + k) % size)

@[simp] theorem length_ringWindow (cells : Nat → α) :
    (ringWindow size cells r w).length = ringDist size r w := by
  simp [ringWindow]

theorem ringWindow_self (cells : Nat → α) : ringWindow size cells r r = [] := by
  simp [ringWindow, ringDist]

theorem ringWindow_write (cells : Nat → α) (x : α) (read : r < size) (write : w < size)
    (room : (w + 1) % size ≠ r) :
    ringWindow size (Function.update cells w x) r ((w + 1) % size) =
      ringWindow size cells r w ++ [x] := by
  unfold ringWindow
  rw [ringDist_next_write read write room, List.range_succ, List.map_append, List.map_singleton,
    add_ringDist_mod read write, Function.update_self]
  congr 1
  apply List.map_congr_left
  intro k inside
  rw [List.mem_range] at inside
  -- the cells of the old window are not the one written to
  have apart : (r + k) % size ≠ w := by
    have bound := ringDist_lt read write
    rw [add_mod_eq read (by omega)]
    unfold ringDist at inside bound
    split <;> split at inside <;> omega
  rw [Function.update_of_ne apart]

theorem ringWindow_read (cells : Nat → α) (read : r < size) (write : w < size) (filled : w ≠ r) :
    ringWindow size cells r w = cells r :: ringWindow size cells ((r + 1) % size) w := by
  unfold ringWindow
  rw [ringDist_next_read read write filled, List.range_succ_eq_map, List.map_cons, List.map_map,
    Nat.add_zero, Nat.mod_eq_of_lt read]
  congr 1
  apply List.map_congr_left
  intro k _
  -- both sides read the same cell, counted from `r` and from the one behind it
  simp only [Function.comp_apply, Nat.mod_add_mod]
  congr 2
  omega

end Os161.Foundation
