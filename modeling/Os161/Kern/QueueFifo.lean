import Os161.Foundation.Refinement
import Os161.Kern.Queue

/-!
# The queue is a first-in first-out list

`q_grow` fills the new buffer through `q_addtail`, which calls `q_grow` when it finds the buffer
full. Here both are as in the source, with an arbitrary function for the inner `q_grow`: it is
never called. Then a run of calls of the queue is a run of a list that grows at its end and
shrinks at its front.
-/
namespace Os161.Queue

open Foundation

variable {α : Type}

/-! ### `q_grow` and `q_addtail` call each other -/

/-- `q_addtail`, with `inner` for `q_grow`. -/
def addtailBy (inner : Queue α → Nat → Except Fault (Grown (Queue α))) (q : Queue α) (ptr : α) :
    Except Fault (Grown (Queue α)) :=
  if (q.nextwrite + 1) % q.size = q.nextread then
    match inner q (q.size + 1) with
    | .error fault => .error fault
    | .ok grown => if grown.result = .success then .ok ⟨.success, grown.state.put ptr, true⟩
      else .ok grown
  else .ok ⟨.success, q.put ptr, false⟩

/-- The loop of `q_grow`, with its assertion that `q_addtail` returns 0. -/
def copyBy (old : Queue α) (inner : Queue α → Nat → Except Fault (Grown (Queue α))) :
    Nat → Nat → Queue α → Except Fault (Queue α)
  | 0, _, q => .ok q
  | fuel + 1, i, q =>
    if i = old.nextwrite then .ok q
    else match addtailBy inner q (old.data i) with
      | .error fault => .error fault
      | .ok added => if added.result = .success then
          copyBy old inner fuel ((i + 1) % old.size) added.state
        else .error .assertion

theorem growSize_pos (q : Queue α) (targetsize : Nat) :
    0 < growSize targetsize targetsize q.size :=
  Nat.lt_of_lt_of_le (Nat.zero_lt_of_lt q.read_lt) (le_growSize _ _ _)

/-- `q_grow`. -/
def growBy (inner : Queue α → Nat → Except Fault (Grown (Queue α))) (mem : Option (Nat → α))
    (q : Queue α) (targetsize : Nat) : Except Fault (Grown (Queue α)) :=
  match mem with
  | none => .ok ⟨.ENOMEM, q, true⟩
  | some words =>
    let blank := create (growSize targetsize targetsize q.size) (growSize_pos q targetsize) words
    match copyBy q inner q.size q.nextread blank with
    | .error fault => .error fault
    | .ok copied => .ok ⟨.success, copied, true⟩

variable {inner : Queue α → Nat → Except Fault (Grown (Queue α))}

private theorem addtailBy_room (q : Queue α) (ptr : α) (room : q.toList.length + 1 < q.size) :
    q.addtailBy inner ptr = .ok ⟨.success, q.put ptr, false⟩ :=
  if_neg fun full => Nat.ne_of_lt room (q.full_iff.mp full)

/-- While there is room for all that is left, the loop does not grow the queue. -/
theorem copyBy_eq (old : Queue α) (fuel i : Nat) (q : Queue α) (inside : i < old.size)
    (room : q.toList.length + (old.remaining i).length < q.size) :
    old.copyBy inner fuel i q = .ok (old.copyLoop put fuel i q) := by
  induction fuel generalizing i q with
  | zero => rfl
  | succ fuel ih =>
    simp only [copyBy, copyLoop]
    split
    next => rfl
    next more =>
      have first : old.remaining i = old.data i :: old.remaining ((i + 1) % old.size) :=
        ringWindow_read old.data inside old.write_lt (Ne.symm more)
      rw [first, List.length_cons] at room
      rw [addtailBy_room q _ (by omega)]
      apply ih _ _ (Nat.mod_lt _ (by omega))
      rw [q.toList_put _ (by omega), List.length_append, List.length_singleton]
      change _ < q.size
      omega

/-- Whatever the inner `q_grow` does, the outer one does what the model says. -/
theorem growBy_eq (mem : Option (Nat → α)) (q : Queue α) (targetsize : Nat) :
    q.growBy inner mem targetsize = .ok (q.grow mem targetsize) := by
  cases mem with
  | none => rfl
  | some words =>
    have room := Nat.lt_of_lt_of_le q.length_toList_lt (le_growSize targetsize targetsize q.size)
    simp only [growBy, grow]
    rw [copyBy_eq q _ _ _ q.read_lt (by
      simp only [toList_create, List.length_nil, Nat.zero_add]
      exact room)]

private theorem addtailBy_eq (mem : Option (Nat → α)) (q : Queue α) (ptr : α) :
    q.addtailBy (growBy inner mem) ptr = .ok (q.addtail mem ptr) := by
  unfold addtailBy addtail
  split
  · rw [growBy_eq]
    dsimp only
    split <;> rfl
  · rfl

/-! ### The loop that visits a queue -/

/-- `for (i = q_getstart(q); i != q_getend(q); i = (i+1) % q_getsize(q))` with `q_getguy` of each
position, `fuel` iterations at most. -/
def visit (q : Queue α) : Nat → Nat → List α
  | 0, _ => []
  | fuel + 1, i => if i = q.nextwrite then [] else q.data i :: visit q fuel ((i + 1) % q.size)

private theorem visit_eq (q : Queue α) (fuel i : Nat) (inside : i < q.size)
    (enough : (q.remaining i).length ≤ fuel) : q.visit fuel i = q.remaining i := by
  induction fuel generalizing i with
  | zero => rw [visit, List.length_eq_zero_iff.mp (Nat.le_zero.mp enough)]
  | succ fuel ih =>
    rw [visit]
    split
    next last => rw [last, remaining, ringWindow_self]
    next more =>
      have first : q.remaining i = q.data i :: q.remaining ((i + 1) % q.size) :=
        ringWindow_read q.data inside q.write_lt (Ne.symm more)
      rw [first, List.length_cons] at enough
      rw [first, ih _ (Nat.mod_lt _ (by omega)) (by omega)]

/-! ### Runs of calls -/

/-- A call, with the outcome of the `kmalloc` it may make. -/
inductive Call (α : Type) where
  | addtail (mem : Option (Nat → α)) (ptr : α)
  | remhead
  | preallocate (mem : Option (Nat → α)) (size : Nat)
  | empty

inductive Reply (α : Type) where
  | code (result : Errno)
  | element (ptr : α)
  | truth (value : Bool)
  deriving DecidableEq

/-- `q_remhead` is only called on a queue that is not empty. -/
def Allowed (q : Queue α) : Call α → Prop
  | .remhead => q.empty = false
  | _ => True

instance (q : Queue α) (call : Call α) : Decidable (q.Allowed call) :=
  match call with
  | .remhead => inferInstanceAs (Decidable (q.empty = false))
  | .addtail .. | .preallocate .. | .empty => inferInstanceAs (Decidable True)

def perform (q : Queue α) : Call α → Except Fault (Reply α × Queue α)
  | .addtail mem ptr => .ok (.code (q.addtail mem ptr).result, (q.addtail mem ptr).state)
  | .remhead => q.remhead.map fun (ptr, rest) => (.element ptr, rest)
  | .preallocate mem size =>
    .ok (.code (q.preallocate mem size).result, (q.preallocate mem size).state)
  | .empty => .ok (.truth q.empty, q)

/-- What a call does to a list, and what it answers. -/
inductive Fifo : List α → Call α × Reply α → List α → Prop
  | added (l : List α) (mem : Option (Nat → α)) (ptr : α) :
      Fifo l (.addtail mem ptr, .code .success) (l ++ [ptr])
  | refused (l : List α) (ptr : α) : Fifo l (.addtail none ptr, .code .ENOMEM) l
  | removed (l : List α) (ptr : α) : Fifo (ptr :: l) (.remhead, .element ptr) l
  | extended (l : List α) (mem : Option (Nat → α)) (size : Nat) :
      Fifo l (.preallocate mem size, .code .success) l
  | short (l : List α) (size : Nat) : Fifo l (.preallocate none size, .code .ENOMEM) l
  | asked (l : List α) : Fifo l (.empty, .truth l.isEmpty) l

private theorem fifo_addtail (mem : Option (Nat → α)) (q : Queue α) (ptr : α) :
    Fifo q.toList (.addtail mem ptr, .code (q.addtail mem ptr).result)
      (q.addtail mem ptr).state.toList := by
  by_cases failed : q.toList.length + 1 = q.size ∧ mem = none
  · obtain ⟨full, rfl⟩ := failed
    rw [q.addtail_full none ptr full]
    exact .refused _ _
  · have added : (q.addtail mem ptr).result = .success := by rw [addtail_result, if_neg failed]
    rw [added, (q.addtail_added mem ptr added).1]
    exact .added _ _ _

private theorem fifo_preallocate (mem : Option (Nat → α)) (q : Queue α) (size : Nat) :
    Fifo q.toList (.preallocate mem size, .code (q.preallocate mem size).result)
      (q.preallocate mem size).state.toList := by
  rw [(q.preallocate_spec mem size).1]
  unfold preallocate
  split
  · cases mem with
    | none => exact .short _ _
    | some words => exact .extended _ _ _
  · exact .extended _ _ _

private theorem isEmpty_toList (q : Queue α) : q.toList.isEmpty = q.empty := by
  rw [Bool.eq_iff_iff, List.isEmpty_iff, empty_iff]

private theorem fifo_perform {q t : Queue α} {call : Call α} {reply : Reply α}
    (done : q.perform call = .ok (reply, t)) : Fifo q.toList (call, reply) t.toList := by
  cases call with
  | addtail mem ptr =>
    cases done
    exact fifo_addtail mem q ptr
  | preallocate mem size =>
    cases done
    exact fifo_preallocate mem q size
  | empty =>
    cases done
    rw [← isEmpty_toList]
    exact .asked _
  | remhead =>
    cases vacant : q.empty with
    | true => simp [perform, remhead, vacant, Except.map] at done
    | false =>
      have filled : q.toList ≠ [] := fun nil => by simp [q.empty_iff.mpr nil] at vacant
      obtain ⟨ptr, rest, taken, contents, -⟩ := q.remhead_eq filled
      rw [perform, taken] at done
      cases done
      rw [contents]
      exact .removed _ _

/-- No allowed call fails an assertion. -/
theorem perform_ok {q : Queue α} {call : Call α} (allowed : q.Allowed call) :
    ∃ reply t, q.perform call = .ok (reply, t) := by
  cases call with
  | remhead =>
    have filled : q.toList ≠ [] := fun nil => by
      rw [Allowed, q.empty_iff.mpr nil] at allowed
      cases allowed
    obtain ⟨ptr, rest, taken, -⟩ := q.remhead_eq filled
    exact ⟨.element ptr, rest, by rw [perform, taken]; rfl⟩
  | _ => exact ⟨_, _, rfl⟩

/-- What a call added, and what it removed. -/
def added : Call α × Reply α → List α
  | (.addtail _ ptr, .code .success) => [ptr]
  | _ => []

def removed : Call α × Reply α → List α
  | (.remhead, .element ptr) => [ptr]
  | _ => []

/-- All that a run has added or removed; the newest call comes first in its history. -/
def total (f : Call α × Reply α → List α) (history : List (List α × Call α × Reply α)) : List α :=
  history.reverse.flatMap fun taken => f taken.2

private theorem total_cons (f : Call α × Reply α → List α) (l : List α) (label : Call α × Reply α)
    (history : List (List α × Call α × Reply α)) :
    total f ((l, label) :: history) = total f history ++ f label := by
  simp [total]

/-- What is in the list is what has been added after all that has been removed. -/
theorem total_added {l : List α} {history : List (List α × Call α × Reply α)}
    (run : Run Fifo [] history l) : total added history = total removed history ++ l := by
  induction run with
  | start => rfl
  | next _ taken ih =>
    rw [total_cons, total_cons, ih]
    cases taken <;> simp [added, removed]

/-- The calls of the queue answer as a list does, the loop over the queue visits that list, and
what is left is what was added last. -/
theorem fifo {size : Nat} {positive : 0 < size} {words : Nat → α} {q : Queue α}
    {history : List (Queue α × Call α × Reply α)}
    (run : Run (Answers Allowed perform) (create size positive words) history q) :
    let story := history.map fun taken => (taken.1.toList, taken.2)
    Run Fifo [] story q.toList ∧ q.visit q.size q.nextread = q.toList ∧
      total added story = total removed story ++ q.toList ∧
      (q.empty = true ↔ total added story = total removed story) ∧
      (∀ call, q.Allowed call → ∃ reply t, q.perform call = .ok (reply, t)) ∧
      (∀ inner mem targetsize, q.growBy inner mem targetsize = .ok (q.grow mem targetsize)) ∧
      ∀ inner mem ptr, q.addtailBy (growBy inner mem) ptr = .ok (q.addtail mem ptr) := by
  intro story
  have specified : Run Fifo [] story q.toList := by
    have simulated := run.simulate Fifo (fun _ => True) toList trivial
      fun s label t _ taken => ⟨trivial, fifo_perform taken.2⟩
    exact simulated.2
  have balance := total_added specified
  refine ⟨specified, q.visit_eq _ _ q.read_lt (Nat.le_of_lt q.length_toList_lt), balance, ?_,
    fun call allowed => perform_ok allowed,
    fun inner mem targetsize => growBy_eq mem q targetsize,
    fun inner mem ptr => addtailBy_eq mem q ptr⟩
  rw [q.empty_iff, balance]
  simp

/-- Two cells: the queue grows when its contents lie around the end of the buffer. -/
theorem fifo_around :
    ∃ (history : List (Queue Nat × Call Nat × Reply Nat)) (q : Queue Nat),
      Run (Answers Allowed perform) (create 2 (by decide) fun _ => 0) history q ∧
      history.map (·.2.2) = [.code .success, .code .success, .element 1, .code .success] ∧
      q.visit q.size q.nextread = q.toList ∧ q.toList = [2, 3] := by
  obtain ⟨history, q, run, same, contents⟩ := Run.of_answering Allowed perform
    (create 2 (by decide) fun _ => 0)
    [(.addtail none 1, .code .success), (.remhead, .element 1), (.addtail none 2, .code .success),
      (.addtail (some fun _ => 9) 3, .code .success)]
    (fun q : Queue Nat => q.toList = [2, 3]) (by decide)
  refine ⟨history, q, run, ?_, (fifo run).2.1, contents⟩
  have replies := congrArg (List.map Prod.snd) same
  rw [List.map_map] at replies
  exact replies

end Os161.Queue
