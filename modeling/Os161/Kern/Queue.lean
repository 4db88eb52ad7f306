import Os161.Kern.Base
import Os161.Foundation.Ring

/-!
# The pointer queue of `lib/queue.c`

A ring buffer that doubles when it is full. One cell always stays empty, so a queue of
`size` cells is full with `size - 1` elements. As for arrays, the outcome of a
`kmalloc` is an argument.
-/
namespace Os161

open Foundation

/-- `struct queue`. Both positions stay inside the buffer, so its size is positive. -/
structure Queue (α : Type) where
  size : Nat
  nextwrite : Nat
  nextread : Nat
  data : Nat → α
  write_lt : nextwrite < size
  read_lt : nextread < size

namespace Queue

variable {α : Type}

/-- `q_create`, and the buffer `q_grow` starts to fill: `words` is what was there. -/
def create (size : Nat) (positive : 0 < size) (words : Nat → α) : Queue α :=
  ⟨size, 0, 0, words, positive, positive⟩

def empty (q : Queue α) : Bool := q.nextwrite == q.nextread

/-- The end of `q_addtail`: write the element and step on. -/
def put (q : Queue α) (ptr : α) : Queue α :=
  { q with
    data := Function.update q.data q.nextwrite ptr
    nextwrite := (q.nextwrite + 1) % q.size
    write_lt := Nat.mod_lt _ (Nat.zero_lt_of_lt q.write_lt) }

/-- `while (nsize < targetsize) nsize *= 2`, with `fuel` iterations at most. -/
def growSize (targetsize : Nat) : Nat → Nat → Nat
  | 0, nsize => nsize
  | fuel + 1, nsize => if nsize < targetsize then growSize targetsize fuel (nsize * 2) else nsize

theorem le_growSize (targetsize fuel nsize : Nat) : nsize ≤ growSize targetsize fuel nsize := by
  induction fuel generalizing nsize with
  | zero => exact Nat.le_refl _
  | succ fuel ih =>
    simp only [growSize]
    split
    · exact Nat.le_trans (by omega) (ih _)
    · exact Nat.le_refl _

/-- Doubling a positive size adds at least one. -/
theorem growSize_reaches (targetsize fuel nsize : Nat) (positive : 0 < nsize)
    (enough : targetsize ≤ nsize + fuel) : targetsize ≤ growSize targetsize fuel nsize := by
  induction fuel generalizing nsize with
  | zero => simpa [growSize] using enough
  | succ fuel ih =>
    simp only [growSize]
    split
    · exact ih _ (by omega) (by omega)
    · omega

/-- The copying loop of `q_grow`, from position `i` of the old queue on, with `add` for its
calls of `q_addtail`. -/
def copyLoop (old : Queue α) (add : Queue α → α → Queue α) : Nat → Nat → Queue α → Queue α
  | 0, _, q => q
  | fuel + 1, i, q =>
    if i = old.nextwrite then q
    else copyLoop old add fuel ((i + 1) % old.size) (add q (old.data i))

/-- `q_grow`. The calls of `q_addtail` in its loop find room, as `growBy_eq` shows, so
only their last part is left of them. -/
def grow (mem : Option (Nat → α)) (q : Queue α) (targetsize : Nat) : Grown (Queue α) :=
  match mem with
  | none => ⟨.ENOMEM, q, true⟩
  | some words =>
    -- `q->nextread = q->nextwrite = 0` in the new buffer
    let blank := create (growSize targetsize targetsize q.size)
      (Nat.lt_of_lt_of_le (Nat.zero_lt_of_lt q.read_lt) (le_growSize _ _ _)) words
    ⟨.success, q.copyLoop put q.size q.nextread blank, true⟩

def preallocate (mem : Option (Nat → α)) (q : Queue α) (size : Nat) : Grown (Queue α) :=
  if size > q.size then q.grow mem size else ⟨.success, q, false⟩

def addtail (mem : Option (Nat → α)) (q : Queue α) (ptr : α) : Grown (Queue α) :=
  -- only one cell is free, and it has to stay free
  if (q.nextwrite + 1) % q.size = q.nextread then
    let grown := q.grow mem (q.size + 1)
    if grown.result = .success then ⟨.success, grown.state.put ptr, true⟩ else grown
  else ⟨.success, q.put ptr, false⟩

/-- `q_remhead`, with its assertion. -/
def remhead (q : Queue α) : Except Fault (α × Queue α) :=
  if q.empty then .error .assertion
  else .ok (q.data q.nextread,
    { q with
      nextread := (q.nextread + 1) % q.size
      read_lt := Nat.mod_lt _ (Nat.zero_lt_of_lt q.read_lt) })

/-! ### The list a queue holds -/

def toList (q : Queue α) : List α := ringWindow q.size q.data q.nextread q.nextwrite

theorem length_toList_lt (q : Queue α) : q.toList.length < q.size := by
  rw [toList, length_ringWindow]
  exact ringDist_lt q.read_lt q.write_lt

/-- The test of `q_addtail` for a full buffer. -/
theorem full_iff (q : Queue α) :
    (q.nextwrite + 1) % q.size = q.nextread ↔ q.toList.length + 1 = q.size := by
  rw [toList, length_ringWindow]
  exact next_write_eq_read q.read_lt q.write_lt

@[simp] theorem toList_create (size : Nat) (positive : 0 < size) (words : Nat → α) :
    (create size positive words).toList = [] := ringWindow_self words

theorem empty_iff (q : Queue α) : q.empty = true ↔ q.toList = [] := by
  rw [← List.length_eq_zero_iff, toList, length_ringWindow, ringDist_eq_zero q.read_lt, empty,
    beq_iff_eq]

theorem toList_put (q : Queue α) (ptr : α) (room : q.toList.length + 1 < q.size) :
    (q.put ptr).toList = q.toList ++ [ptr] := by
  have gap : (q.nextwrite + 1) % q.size ≠ q.nextread := fun full =>
    Nat.ne_of_lt room (q.full_iff.mp full)
  exact ringWindow_write q.data ptr q.read_lt q.write_lt gap

theorem addtail_room (mem : Option (Nat → α)) (q : Queue α) (ptr : α)
    (room : q.toList.length + 1 < q.size) : q.addtail mem ptr = ⟨.success, q.put ptr, false⟩ := by
  have gap : ¬ (q.nextwrite + 1) % q.size = q.nextread := fun full =>
    Nat.ne_of_lt room (q.full_iff.mp full)
  simp [addtail, gap]

theorem remhead_eq (q : Queue α) (filled : q.toList ≠ []) :
    ∃ ptr rest, q.remhead = .ok (ptr, rest) ∧ q.toList = ptr :: rest.toList ∧
      rest.size = q.size := by
  have apart : q.empty = false := by
    rw [← Bool.not_eq_true, q.empty_iff]
    exact filled
  have gap : q.nextwrite ≠ q.nextread := by simpa [empty] using apart
  refine ⟨q.data q.nextread, { q with
    nextread := (q.nextread + 1) % q.size
    read_lt := Nat.mod_lt _ (Nat.zero_lt_of_lt q.read_lt) }, ?_, ?_, rfl⟩
  · rw [remhead, apart]
    rfl
  · exact ringWindow_read q.data q.read_lt q.write_lt gap

/-! ### Growing -/

/-- What is left of the old queue from position `i` on. -/
def remaining (old : Queue α) (i : Nat) : List α := ringWindow old.size old.data i old.nextwrite

private theorem copyLoop_spec (old : Queue α) (fuel i : Nat) (q : Queue α) (inside : i < old.size)
    (enough : (old.remaining i).length ≤ fuel)
    (room : q.toList.length + (old.remaining i).length < q.size) :
    (old.copyLoop put fuel i q).toList = q.toList ++ old.remaining i ∧
      (old.copyLoop put fuel i q).size = q.size := by
  -- the fuel is at least the number of elements left to copy
  induction fuel generalizing i q with
  | zero =>
    have nothing : old.remaining i = [] := List.length_eq_zero_iff.mp (by omega)
    simp [copyLoop, nothing]
  | succ fuel ih =>
    simp only [copyLoop]
    split
    next last => simp [remaining, last, ringWindow_self]
    next more =>
      -- one element moves from the front of the old queue to the end of the new one
      have first : old.remaining i = old.data i :: old.remaining ((i + 1) % old.size) :=
        ringWindow_read old.data inside old.write_lt (Ne.symm more)
      rw [first, List.length_cons] at enough room
      have one : (q.put (old.data i)).toList = q.toList ++ [old.data i] :=
        q.toList_put _ (by omega)
      obtain ⟨contents, size⟩ := ih ((i + 1) % old.size) (q.put (old.data i))
        (Nat.mod_lt _ (by omega)) (by omega) (by
          rw [one, List.length_append, List.length_singleton]
          change _ < q.size
          omega)
      exact ⟨by rw [contents, one, first]; simp, size⟩

theorem grow_granted (words : Nat → α) (q : Queue α) (targetsize : Nat) :
    ((q.grow (some words) targetsize).state.toList = q.toList ∧
      targetsize ≤ (q.grow (some words) targetsize).state.size) ∧
      q.size ≤ (q.grow (some words) targetsize).state.size := by
  have positive := Nat.zero_lt_of_lt q.read_lt
  have bound := q.length_toList_lt
  have larger := le_growSize targetsize targetsize q.size
  -- the new buffer is at least as large, so it takes all elements of the old one
  obtain ⟨contents, size⟩ := q.copyLoop_spec q.size q.nextread
    (create (growSize targetsize targetsize q.size) (Nat.lt_of_lt_of_le positive larger) words)
    q.read_lt (Nat.le_of_lt bound) (by
      simp only [toList_create, List.length_nil, Nat.zero_add]
      exact Nat.lt_of_lt_of_le bound larger)
  refine ⟨⟨contents, ?_⟩, ?_⟩
  · exact Nat.le_trans (growSize_reaches _ _ _ positive (by omega)) (Nat.le_of_eq size.symm)
  · exact Nat.le_trans larger (Nat.le_of_eq size.symm)

/-! ### What the two operations that may grow do -/

section

variable (mem : Option (Nat → α)) (q : Queue α) (ptr : α)

include mem q ptr

theorem addtail_full (full : q.toList.length + 1 = q.size) :
    q.addtail mem ptr =
      match mem with
      | none => ⟨.ENOMEM, q, true⟩
      | some words => ⟨.success, (q.grow (some words) (q.size + 1)).state.put ptr, true⟩ := by
  rw [addtail, if_pos (q.full_iff.mpr full)]
  cases mem <;> rfl

/-- `q_addtail` calls `kmalloc` exactly when all cells but one are in use. -/
theorem addtail_asked : (q.addtail mem ptr).asked = decide (q.toList.length + 1 = q.size) := by
  by_cases full : q.toList.length + 1 = q.size
  · rw [addtail_full mem q ptr full]
    cases mem <;> simp [full]
  · have bound := q.length_toList_lt
    simp [addtail_room mem q ptr (by omega), full]

theorem addtail_result :
    (q.addtail mem ptr).result =
      if q.toList.length + 1 = q.size ∧ mem = none then .ENOMEM else .success := by
  by_cases full : q.toList.length + 1 = q.size
  · rw [addtail_full mem q ptr full]
    cases mem <;> simp [full]
  · have bound := q.length_toList_lt
    simp [addtail_room mem q ptr (by omega), full]

theorem addtail_added (added : (q.addtail mem ptr).result = .success) :
    (q.addtail mem ptr).state.toList = q.toList ++ [ptr] ∧
      q.size ≤ (q.addtail mem ptr).state.size := by
  by_cases full : q.toList.length + 1 = q.size
  · cases mem with
    | none => simp [addtail_full none q ptr full] at added
    | some words =>
      rw [addtail_full _ q ptr full]
      obtain ⟨⟨contents, target⟩, larger⟩ := q.grow_granted words (q.size + 1)
      refine ⟨?_, larger⟩
      -- the grown queue has the same elements and at least one cell more
      rw [toList_put _ _ (by rw [contents]; omega), contents]
  · have bound := q.length_toList_lt
    rw [addtail_room mem q ptr (by omega)]
    exact ⟨q.toList_put ptr (by omega), Nat.le_refl _⟩

/-- A failed `q_addtail` leaves the queue alone. -/
theorem addtail_failed (failed : (q.addtail mem ptr).result ≠ .success) :
    (q.addtail mem ptr).state = q := by
  rw [addtail_result] at failed
  simp only [ne_eq, ite_eq_right_iff, reduceCtorEq, imp_false, not_not] at failed
  rw [failed.2, addtail_full none q ptr failed.1]

end

theorem preallocate_spec (mem : Option (Nat → α)) (q : Queue α) (size : Nat) :
    (q.preallocate mem size).state.toList = q.toList ∧
      q.size ≤ (q.preallocate mem size).state.size ∧
      ((q.preallocate mem size).result = .success →
        size ≤ (q.preallocate mem size).state.size) := by
  unfold preallocate
  split
  next larger =>
    cases mem with
    | none => simp [grow]
    | some words =>
      obtain ⟨⟨contents, target⟩, grown⟩ := q.grow_granted words size
      exact ⟨contents, grown, fun _ => target⟩
  next fits => exact ⟨rfl, Nat.le_refl _, fun _ => Nat.le_of_not_lt fits⟩

end Queue

end Os161
