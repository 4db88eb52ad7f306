import Os161.Kern.Base
import Mathlib.Data.List.Range

/-!
# The growable pointer array of `lib/array.c`

The buffer is a function from indices to words of which the first `max` exist.
The outcome of a `kmalloc` is an argument: `none` when it returns NULL, otherwise
the words that happen to be in the new buffer.
-/
namespace Os161

open Function (update)

/-- `struct array`. The assertion `a->num <= a->max` of every operation is a field. -/
structure KArray (α : Type) where
  num : Nat
  max : Nat
  v : Nat → α
  fits : num ≤ max

namespace KArray

variable {α : Type}

def create [Inhabited α] : KArray α := ⟨0, 0, fun _ => default, Nat.le_refl 0⟩

/-- The entries in use, in order. -/
def toList (a : KArray α) : List α := (List.range a.num).map a.v

/-- `while (nguys > newmax) newmax = (newmax+1)*2`, with `fuel` iterations at most. -/
def growMax (nguys : Nat) : Nat → Nat → Nat
  | 0, newmax => newmax
  | fuel + 1, newmax =>
    if nguys > newmax then growMax nguys fuel ((newmax + 1) * 2) else newmax

theorem le_growMax (nguys fuel newmax : Nat) : newmax ≤ growMax nguys fuel newmax := by
  induction fuel generalizing newmax with
  | zero => exact Nat.le_refl _
  | succ fuel ih =>
    simp only [growMax]
    split
    · exact Nat.le_trans (by omega) (ih _)
    · exact Nat.le_refl _

/-- Every iteration adds at least one, so `nguys` of them are enough. -/
theorem growMax_reaches (nguys fuel newmax : Nat) (enough : nguys ≤ newmax + fuel) :
    nguys ≤ growMax nguys fuel newmax := by
  induction fuel generalizing newmax with
  | zero => simpa [growMax] using enough
  | succ fuel ih =>
    simp only [growMax]
    split
    · exact ih _ (by omega)
    · omega

/-- `array_preallocate`. It calls `kmalloc` even when the buffer is large enough. -/
def preallocate (mem : Option (Nat → α)) (a : KArray α) (nguys : Nat) : Grown (KArray α) :=
  match mem with
  | none => ⟨.ENOMEM, a, true⟩
  -- the entries in use are copied, the rest of the new buffer is what was there
  | some words => ⟨.success,
      { num := a.num
        max := growMax nguys nguys a.max
        v := fun i => if i < a.num then a.v i else words i
        fits := Nat.le_trans a.fits (le_growMax nguys nguys a.max) }, true⟩

theorem preallocate_reaches (mem : Option (Nat → α)) (a : KArray α) (nguys : Nat)
    (granted : (preallocate mem a nguys).result = .success) :
    nguys ≤ (preallocate mem a nguys).state.max := by
  cases mem with
  | none => simp [preallocate] at granted
  | some words => exact growMax_reaches nguys nguys a.max (by omega)

/-- `array_setsize`. Emptying an array of more than 16 words gives its buffer back. -/
def setsize (mem : Option (Nat → α)) (a : KArray α) (nguys : Nat) : Grown (KArray α) :=
  if large : nguys > a.max then
    let grown := preallocate mem a nguys
    -- a failed `array_preallocate` leaves the old buffer in place
    if granted : grown.result = .success then
      ⟨.success, { grown.state with
        num := nguys, fits := preallocate_reaches mem a nguys granted }, true⟩
    else grown
  else if nguys = 0 ∧ a.max > 16 then
    ⟨.success, { a with num := 0, max := 0, fits := Nat.le_refl 0 }, false⟩
  else ⟨.success, { a with num := nguys, fits := Nat.le_of_not_lt large }, false⟩

def add (mem : Option (Nat → α)) (a : KArray α) (guy : α) : Grown (KArray α) :=
  let sized := setsize mem a (a.num + 1)
  if sized.result = .success then
    ⟨.success, { sized.state with v := update sized.state.v a.num guy }, sized.asked⟩
  else sized

/-- `array_getguy`, with its assertion on the index. -/
def getguy (a : KArray α) (index : Nat) : Except Fault α :=
  if index < a.num then .ok (a.v index) else .error .assertion

def setguy (a : KArray α) (index : Nat) (ptr : α) : Except Fault (KArray α) :=
  if index < a.num then .ok { a with v := update a.v index ptr } else .error .assertion

/-- `array_remove`: the `memmove` shifts the entries behind `index` down by one. -/
def remove (a : KArray α) (index : Nat) : Except Fault (KArray α) :=
  if index < a.num then
    .ok { num := a.num - 1
          max := a.max
          v := fun i => if index ≤ i ∧ i < a.num - 1 then a.v (i + 1) else a.v i
          fits := Nat.le_trans (Nat.sub_le _ _) a.fits }
  else .error .assertion

/-! ### The three ways an `array_add` goes -/

theorem add_room (mem : Option (Nat → α)) (a : KArray α) (guy : α) (room : a.num < a.max) :
    add mem a guy = ⟨.success, ⟨a.num + 1, a.max, update a.v a.num guy, room⟩, false⟩ := by
  -- the size asked for is not 0, so the buffer is not given back either
  simp [add, setsize, show ¬ a.num + 1 > a.max by omega]

theorem add_refused (a : KArray α) (guy : α) (full : a.max ≤ a.num) :
    add none a guy = ⟨.ENOMEM, a, true⟩ := by
  simp [add, setsize, preallocate, show a.num + 1 > a.max by omega]

theorem add_granted (words : Nat → α) (a : KArray α) (guy : α) (full : a.max ≤ a.num) :
    add (some words) a guy = ⟨.success,
      ⟨a.num + 1, growMax (a.num + 1) (a.num + 1) a.max,
        update (fun i => if i < a.num then a.v i else words i) a.num guy,
        growMax_reaches _ _ _ (by omega)⟩, true⟩ := by
  simp [add, setsize, preallocate, show a.num + 1 > a.max by omega]

section

variable (mem : Option (Nat → α)) (a : KArray α) (guy : α)

include mem a guy

/-- `array_add` calls `kmalloc` exactly when the buffer is full. -/
theorem add_asked : (add mem a guy).asked = decide (a.max ≤ a.num) := by
  by_cases full : a.max ≤ a.num
  · cases mem with
    | none => simp [add_refused a guy full, full]
    | some words => simp [add_granted words a guy full, full]
  · simp [add_room mem a guy (by omega), full]

/-- `array_add` fails only when it asks for memory and gets none. -/
theorem add_result :
    (add mem a guy).result = if a.num < a.max ∨ mem.isSome then .success else .ENOMEM := by
  by_cases full : a.max ≤ a.num
  · cases mem with
    | none => simp [add_refused a guy full, show ¬ a.num < a.max by omega]
    | some words => simp [add_granted words a guy full]
  · simp [add_room mem a guy (by omega), show a.num < a.max by omega]

/-- A failed `array_add` had no room. -/
theorem full_of_add_failed (failed : (add mem a guy).result ≠ .success) : ¬ a.num < a.max := by
  intro room
  rw [add_room mem a guy room] at failed
  exact failed rfl

theorem max_add : a.max ≤ (add mem a guy).state.max := by
  by_cases full : a.max ≤ a.num
  · cases mem with
    | none => rw [add_refused a guy full]
    | some words =>
      rw [add_granted words a guy full]
      exact le_growMax _ _ _
  · rw [add_room mem a guy (by omega)]

end

/-! ### The list an array holds -/

@[simp] theorem length_toList (a : KArray α) : a.toList.length = a.num := by
  simp [toList]

@[simp] theorem toList_create [Inhabited α] : (create : KArray α).toList = [] := rfl

theorem getguy_eq (a : KArray α) (index : Nat) (inside : index < a.num) :
    a.getguy index = .ok (a.toList.get ⟨index, by simpa using inside⟩) := by
  simp [getguy, toList, inside]

theorem toList_preallocate (mem : Option (Nat → α)) (a : KArray α) (nguys : Nat) :
    (preallocate mem a nguys).state.toList = a.toList := by
  cases mem with
  | none => rfl
  | some words =>
    apply List.map_congr_left
    intro i member
    exact if_pos (List.mem_range.mp member)

theorem max_preallocate (mem : Option (Nat → α)) (a : KArray α) (nguys : Nat) :
    a.max ≤ (preallocate mem a nguys).state.max := by
  cases mem with
  | none => exact Nat.le_refl _
  | some words => exact le_growMax _ _ _

/-- Writing entry `num` of a buffer that agrees with `a` on the entries in use. -/
private theorem map_range_update (a : KArray α) (words : Nat → α) (guy : α)
    (agree : ∀ i, i < a.num → words i = a.v i) :
    (List.range (a.num + 1)).map (update words a.num guy) = a.toList ++ [guy] := by
  simp only [toList, List.range_succ, List.map_append, List.map_cons, List.map_nil,
    Function.update_self, List.append_cancel_right_eq]
  apply List.map_congr_left
  intro i member
  have inside : i < a.num := List.mem_range.mp member
  -- the entry written is behind all entries in use
  rw [Function.update_of_ne (Nat.ne_of_lt inside), agree i inside]

section

variable (mem : Option (Nat → α)) (a : KArray α)

include mem a

theorem toList_add (guy : α) (added : (add mem a guy).result = .success) :
    (add mem a guy).state.toList = a.toList ++ [guy] := by
  by_cases full : a.max ≤ a.num
  · cases mem with
    | none => simp [add_refused a guy full] at added
    | some words =>
      rw [add_granted words a guy full]
      exact map_range_update a _ guy (fun i inside => if_pos inside)
  · rw [add_room mem a guy (by omega)]
    exact map_range_update a _ guy (fun _ _ => rfl)

/-- Emptying an array asks for no memory. -/
theorem setsize_zero :
    (setsize mem a 0).result = .success ∧ (setsize mem a 0).state.toList = [] := by
  unfold setsize
  rw [dif_neg (Nat.not_lt_zero _)]
  split <;> exact ⟨rfl, rfl⟩

/-- A buffer of the right size keeps the entries that stay. -/
theorem getElem_toList_setsize (nguys : Nat) (sized : (setsize mem a nguys).result = .success) :
    (setsize mem a nguys).state.num = nguys ∧
      ∀ i < a.num, i < nguys → (setsize mem a nguys).state.v i = a.v i := by
  unfold setsize at sized ⊢
  split
  next large =>
    rw [dif_pos large] at sized
    cases mem with
    | none => simp [preallocate] at sized
    | some words => exact ⟨rfl, fun i inside _ => if_pos inside⟩
  next => split <;> exact ⟨by simp_all, fun _ _ _ => rfl⟩

theorem setsize_failed (nguys : Nat) (failed : (setsize mem a nguys).result ≠ .success) :
    mem = none ∧ setsize mem a nguys = ⟨.ENOMEM, a, true⟩ := by
  unfold setsize at failed ⊢
  split
  next large =>
    rw [dif_pos large] at failed
    cases mem with
    | none => exact ⟨rfl, rfl⟩
    | some words => exact absurd rfl failed
  next fits =>
    rw [dif_neg fits] at failed
    split at failed <;> exact absurd rfl failed

end

theorem toList_setguy (a : KArray α) (index : Nat) (ptr : α) (inside : index < a.num) :
    ∃ b, a.setguy index ptr = .ok b ∧ b.toList = a.toList.set index ptr := by
  refine ⟨_, if_pos inside, ?_⟩
  apply List.ext_getElem
  · simp [toList]
  intro i left right
  simp only [toList, List.getElem_map, List.getElem_range, List.getElem_set, eq_comm (a := index)]
  by_cases here : i = index
  · rw [here, Function.update_self, if_pos rfl]
  · rw [Function.update_of_ne here, if_neg here]

theorem toList_remove (a b : KArray α) (index : Nat) (removed : a.remove index = .ok b) :
    b.toList = a.toList.eraseIdx index ∧ b.max = a.max := by
  unfold remove at removed
  split at removed
  next inside =>
    cases removed
    refine ⟨?_, rfl⟩
    -- position by position: those before `index` stay, the others move down
    apply List.ext_getElem
    · simp [toList, List.length_eraseIdx, inside]
    intro i left right
    simp only [toList, List.getElem_map, List.getElem_range, List.getElem_eraseIdx]
    simp only [toList, List.length_map, List.length_range] at left
    by_cases before : i < index
    · simp [before, show ¬ index ≤ i by omega]
    · simp [before, show index ≤ i by omega, left]
  next => cases removed

end KArray

end Os161
