import Os161.Foundation.Refinement
import Os161.Kern.Array

/-!
# The array is a list

`RawArray` is `struct array` with its C types: sizes are signed, and the buffer may be NULL. As
long as `array_setsize` is not asked for a negative size, it behaves as `KArray` does, and that
as a list. Sizes are taken to be small enough for `int`.
-/
namespace Os161

open Foundation

/-- `struct array`; `none` is a buffer that is NULL. -/
structure RawArray (α : Type) where
  num : Int
  max : Int
  v : Option (Nat → α)

namespace RawArray

variable {α : Type}

def create : RawArray α := ⟨0, 0, none⟩

/-- `assert(a->num >= 0 && a->num <= a->max)`. -/
def Counted (a : RawArray α) : Prop := 0 ≤ a.num ∧ a.num ≤ a.max

/-- `assert(a->num <= a->max)` and `assert(index >= 0 && index < a->num)`. -/
def Within (a : RawArray α) (index : Int) : Prop := a.num ≤ a.max ∧ 0 ≤ index ∧ index < a.num

instance (a : RawArray α) : Decidable a.Counted := inferInstanceAs (Decidable (_ ∧ _))

instance (a : RawArray α) (index : Int) : Decidable (a.Within index) :=
  inferInstanceAs (Decidable (_ ∧ _ ∧ _))

/-- An access through the pointer to the buffer. -/
def buffer (a : RawArray α) : Except Fault (Nat → α) :=
  match a.v with
  | none => .error .nullDereference
  | some v => .ok v

/-- The body of `while (nguys > newmax)`. -/
def double (newmax : Int) : Int := (newmax + 1) * 2

/-- That loop, with `fuel` iterations at most. -/
def growMax (nguys : Int) : Nat → Int → Int
  | 0, newmax => newmax
  | fuel + 1, newmax => if nguys > newmax then growMax nguys fuel (double newmax) else newmax

/-- `array_preallocate`; the entries in use are copied. -/
def preallocate (mem : Option (Nat → α)) (a : RawArray α) (nguys : Int) :
    Except Fault (Errno × RawArray α) :=
  if a.Counted then
    match mem with
    | none => .ok (.ENOMEM, a)
    | some words =>
      if 0 < a.num then do
        let old ← a.buffer
        .ok (.success, ⟨a.num, growMax nguys nguys.toNat a.max,
          some fun i => if i < a.num.toNat then old i else words i⟩)
      else .ok (.success, ⟨a.num, growMax nguys nguys.toNat a.max, some words⟩)
  else .error .assertion

def setsize (mem : Option (Nat → α)) (a : RawArray α) (nguys : Int) :
    Except Fault (Errno × RawArray α) :=
  if a.Counted then
    if nguys > a.max then do
      let (result, grown) ← preallocate mem a nguys
      if result = .success then .ok (.success, { grown with num := nguys }) else .ok (result, grown)
    else if nguys = 0 ∧ a.max > 16 then
      -- `assert(a->v != NULL)`, and the buffer is given back
      if a.v.isSome then .ok (.success, ⟨nguys, 0, none⟩) else .error .assertion
    else .ok (.success, { a with num := nguys })
  else .error .assertion

def getguy (a : RawArray α) (index : Int) : Except Fault α :=
  if a.Within index then do
    let v ← a.buffer
    .ok (v index.toNat)
  else .error .assertion

def setguy (a : RawArray α) (index : Int) (ptr : α) : Except Fault (RawArray α) :=
  if a.Within index then do
    let v ← a.buffer
    .ok { a with v := some (Function.update v index.toNat ptr) }
  else .error .assertion

def add (mem : Option (Nat → α)) (a : RawArray α) (guy : α) :
    Except Fault (Errno × RawArray α) := do
  let (result, sized) ← setsize mem a (a.num + 1)
  if result = .success then
    let v ← sized.buffer
    .ok (.success, { sized with v := some (Function.update v a.num.toNat guy) })
  else .ok (result, sized)

def remove (a : RawArray α) (index : Int) : Except Fault (RawArray α) :=
  if a.Within index then do
    let v ← a.buffer
    .ok ⟨a.num - 1, a.max, some fun i =>
      if index.toNat ≤ i ∧ i < a.num.toNat - 1 then v (i + 1) else v i⟩
  else .error .assertion

/-! ### The entries -/

def toList (a : RawArray α) : List α :=
  match a.v with
  | none => []
  | some v => (List.range a.num.toNat).map v

/-- The two models stand for the same array: a NULL buffer has no room. -/
structure Models (r : RawArray α) (a : KArray α) : Prop where
  num : r.num = a.num
  max : r.max = a.max
  v : ∀ v, r.v = some v → v = a.v
  null : r.v = none → a.max = 0

namespace Models

variable {r : RawArray α} {a : KArray α}

theorem counted (models : r.Models a) : r.Counted := by
  have fits := a.fits
  rw [Counted, models.num, models.max]
  omega

private theorem within (models : r.Models a) (index : Int) :
    r.Within index ↔ 0 ≤ index ∧ index.toNat < a.num := by
  have fits := a.fits
  rw [Within, models.num, models.max]
  omega

theorem toList_eq (models : r.Models a) : r.toList = a.toList := by
  unfold toList KArray.toList
  cases held : r.v with
  | none =>
    have fits := a.fits
    have none := models.null held
    have zero : a.num = 0 := by omega
    rw [zero]
    rfl
  | some v =>
    have same : r.num.toNat = a.num := by rw [models.num, Int.toNat_natCast]
    simp [same, models.v v held]

theorem buffer_eq (models : r.Models a) (room : 0 < a.max) : r.buffer = .ok a.v := by
  unfold buffer
  cases held : r.v with
  | none => exact absurd (models.null held) (by omega)
  | some v => rw [models.v v held]

end Models

private theorem growMax_natCast (nguys fuel newmax : Nat) :
    growMax nguys fuel newmax = (KArray.growMax nguys fuel newmax : Nat) := by
  induction fuel generalizing newmax with
  | zero => rfl
  | succ fuel ih =>
    have doubled : double newmax = ((newmax + 1) * 2 : Nat) := by
      rw [double]
      omega
    rw [growMax, KArray.growMax, doubled, ih]
    simp only [gt_iff_lt, Int.ofNat_lt]
    split <;> rfl

private theorem growMax_eq (nguys : Int) (newmax : Nat) :
    growMax nguys nguys.toNat newmax = (KArray.growMax nguys.toNat nguys.toNat newmax : Nat) := by
  by_cases positive : 0 ≤ nguys
  · obtain ⟨n, rfl⟩ := Int.eq_ofNat_of_zero_le positive
    rw [Int.toNat_natCast, growMax_natCast]
  · have zero : nguys.toNat = 0 := by omega
    rw [zero]
    rfl

section

variable {r : RawArray α} {a : KArray α} (models : r.Models a)
include models

theorem preallocate_models (mem : Option (Nat → α)) (nguys : Int) :
    ∃ r', r.preallocate mem nguys = .ok ((a.preallocate mem nguys.toNat).result, r') ∧
      r'.Models (a.preallocate mem nguys.toNat).state := by
  unfold preallocate
  rw [if_pos models.counted]
  cases mem with
  | none => exact ⟨r, rfl, models⟩
  | some words =>
    have max := growMax_eq nguys a.max
    rw [← models.max] at max
    have fits := a.fits
    by_cases filled : 0 < r.num
    · have room : 0 < a.max := by
        rw [models.num] at filled
        omega
      refine ⟨_, by simp only [if_pos filled, models.buffer_eq room]; rfl, ?_⟩
      refine ⟨models.num, max, fun v held => ?_, nofun⟩
      cases held
      have same : r.num.toNat = a.num := by rw [models.num, Int.toNat_natCast]
      rw [same]
      rfl
    refine ⟨⟨r.num, growMax nguys nguys.toNat r.max, some words⟩,
      by simp only [if_neg filled]; rfl, ⟨models.num, max, fun v held => ?_, nofun⟩⟩
    cases held
    have zero : a.num = 0 := by
      rw [models.num] at filled
      omega
    funext i
    exact (if_neg (by omega)).symm

theorem setsize_models (mem : Option (Nat → α)) (nguys : Nat) :
    ∃ r', r.setsize mem nguys = .ok ((a.setsize mem nguys).result, r') ∧
      r'.Models (a.setsize mem nguys).state := by
  unfold setsize KArray.setsize
  rw [if_pos models.counted, models.max]
  simp only [gt_iff_lt, Int.ofNat_lt]
  split
  next large =>
    obtain ⟨r', grown, models'⟩ := preallocate_models models mem (nguys : Int)
    rw [Int.toNat_natCast] at grown models'
    rw [grown]
    dsimp only [bind, Except.bind]
    split
    · exact ⟨_, rfl, ⟨rfl, models'.max, models'.v, models'.null⟩⟩
    · exact ⟨_, rfl, models'⟩
  next =>
    have same : ((nguys : Int) = 0 ∧ 16 < (a.max : Int)) ↔ nguys = 0 ∧ 16 < a.max := by omega
    simp only [same]
    split
    next back =>
      have held : r.v.isSome = true := by
        rw [Option.isSome_iff_ne_none]
        exact fun null => absurd (models.null null) (by omega)
      rw [if_pos held]
      refine ⟨_, rfl, ⟨by rw [back.1], rfl, fun v wrong => ?_, fun _ => rfl⟩⟩
      cases wrong
    next => exact ⟨_, rfl, ⟨rfl, rfl, models.v, models.null⟩⟩

private theorem add_models (mem : Option (Nat → α)) (guy : α) :
    ∃ r', r.add mem guy = .ok ((a.add mem guy).result, r') ∧ r'.Models (a.add mem guy).state := by
  have next : r.num + 1 = ((a.num + 1 : Nat) : Int) := by
    rw [models.num]
    rfl
  obtain ⟨r', sized, models'⟩ := setsize_models models mem (a.num + 1)
  unfold add KArray.add
  rw [next, sized]
  dsimp only [bind, Except.bind]
  split
  next done =>
    have fits := (a.setsize mem (a.num + 1)).state.fits
    rw [(a.getElem_toList_setsize mem (a.num + 1) done).1] at fits
    rw [models'.buffer_eq (by omega)]
    refine ⟨_, rfl, ⟨models'.num, models'.max, fun v held => ?_, fun wrong => by cases wrong⟩⟩
    cases held
    rw [models.num, Int.toNat_natCast]
  next => exact ⟨_, rfl, models'⟩

/-- A position in range is a number. -/
theorem inside_models {index : Int} (within : r.Within index) :
    ∃ i : Nat, index = i ∧ i < a.num ∧ r.buffer = .ok a.v := by
  have fits := a.fits
  obtain ⟨positive, inside⟩ := (models.within index).mp within
  obtain ⟨i, rfl⟩ := Int.eq_ofNat_of_zero_le positive
  exact ⟨i, rfl, inside, models.buffer_eq (by omega)⟩

private theorem getguy_models {i : Nat} (within : r.Within i) : r.getguy i = a.getguy i := by
  obtain ⟨j, same, inside, held⟩ := inside_models models within
  cases same
  rw [getguy, if_pos within, held, KArray.getguy, if_pos inside]
  rfl

private theorem setguy_models {i : Nat} (within : r.Within i) (ptr : α) :
    ∃ r' b, r.setguy i ptr = .ok r' ∧ a.setguy i ptr = .ok b ∧ r'.Models b := by
  obtain ⟨j, same, inside, held⟩ := inside_models models within
  cases same
  rw [setguy, if_pos within, held, KArray.setguy, if_pos inside]
  refine ⟨_, _, rfl, rfl, ⟨models.num, models.max, fun v here => ?_, nofun⟩⟩
  cases here
  rfl

private theorem remove_models {i : Nat} (within : r.Within i) :
    ∃ r' b, r.remove i = .ok r' ∧ a.remove i = .ok b ∧ r'.Models b := by
  obtain ⟨j, same, inside, held⟩ := inside_models models within
  cases same
  rw [remove, if_pos within, held, KArray.remove, if_pos inside]
  refine ⟨_, _, rfl, rfl, ⟨?_, models.max, fun v here => ?_, nofun⟩⟩
  · change r.num - 1 = ((a.num - 1 : Nat) : Int)
    rw [models.num]
    omega
  · cases here
    rw [models.num]
    rfl

end

/-! ### Runs of calls -/

/-- A call, with the outcome of the `kmalloc` it may make. -/
inductive Call (α : Type) where
  | add (mem : Option (Nat → α)) (guy : α)
  | remove (index : Int)
  | setguy (index : Int) (ptr : α)
  | getguy (index : Int)
  | setsize (mem : Option (Nat → α)) (nguys : Int)
  | preallocate (mem : Option (Nat → α)) (nguys : Int)

inductive Reply (α : Type) where
  | code (result : Errno)
  | element (ptr : α)
  | done
  deriving DecidableEq

def InRange (a : RawArray α) : Call α → Prop
  | .remove index | .setguy index _ | .getguy index => 0 ≤ index ∧ index < a.num
  | _ => True

/-- And a size that is set is a number of elements. -/
def Allowed (a : RawArray α) : Call α → Prop
  | .setsize _ nguys => 0 ≤ nguys
  | call => a.InRange call

def perform (a : RawArray α) : Call α → Except Fault (Reply α × RawArray α)
  | .add mem guy => (a.add mem guy).map fun (result, a') => (.code result, a')
  | .remove index => (a.remove index).map fun a' => (.done, a')
  | .setguy index ptr => (a.setguy index ptr).map fun a' => (.done, a')
  | .getguy index => (a.getguy index).map fun ptr => (.element ptr, a)
  | .setsize mem nguys => (a.setsize mem nguys).map fun (result, a') => (.code result, a')
  | .preallocate mem nguys => (a.preallocate mem nguys).map fun (result, a') => (.code result, a')

instance (a : RawArray α) (call : Call α) : Decidable (a.InRange call) :=
  match call with
  | .remove _ | .setguy .. | .getguy _ => inferInstanceAs (Decidable (_ ∧ _))
  | .add .. | .setsize .. | .preallocate .. => inferInstanceAs (Decidable True)

instance (a : RawArray α) (call : Call α) : Decidable (a.Allowed call) :=
  match call with
  | .setsize _ nguys => inferInstanceAs (Decidable (0 ≤ nguys))
  | .remove _ | .setguy .. | .getguy _ => inferInstanceAs (Decidable (_ ∧ _))
  | .add .. | .preallocate .. => inferInstanceAs (Decidable True)

/-- What a call does to a list, and what it answers. A longer list has any elements at its end. -/
inductive Listed : List α → Call α × Reply α → List α → Prop
  | added (l : List α) (mem : Option (Nat → α)) (guy : α) :
      Listed l (.add mem guy, .code .success) (l ++ [guy])
  | notAdded (l : List α) (guy : α) : Listed l (.add none guy, .code .ENOMEM) l
  | removed (l : List α) (i : Nat) (inside : i < l.length) :
      Listed l (.remove i, .done) (l.eraseIdx i)
  | set (l : List α) (i : Nat) (ptr : α) (inside : i < l.length) :
      Listed l (.setguy i ptr, .done) (l.set i ptr)
  | got (l : List α) (i : Nat) (ptr : α) (here : l[i]? = some ptr) :
      Listed l (.getguy i, .element ptr) l
  | sized (l l' : List α) (mem : Option (Nat → α)) (nguys : Nat) (length : l'.length = nguys)
      (same : ∀ i < l.length, i < nguys → l'[i]? = l[i]?) :
      Listed l (.setsize mem nguys, .code .success) l'
  | notSized (l : List α) (nguys : Int) : Listed l (.setsize none nguys, .code .ENOMEM) l
  | preallocated (l : List α) (mem : Option (Nat → α)) (nguys : Int) :
      Listed l (.preallocate mem nguys, .code .success) l
  | notPreallocated (l : List α) (nguys : Int) :
      Listed l (.preallocate none nguys, .code .ENOMEM) l

private theorem listed_add (mem : Option (Nat → α)) (a : KArray α) (guy : α) :
    Listed a.toList (.add mem guy, .code (a.add mem guy).result) (a.add mem guy).state.toList := by
  by_cases done : (a.add mem guy).result = .success
  · rw [a.toList_add mem guy done, done]
    exact .added _ _ _
  have full := a.full_of_add_failed mem guy done
  cases mem with
  | none =>
    rw [a.add_refused guy (by omega)]
    exact .notAdded _ _
  | some words =>
    rw [a.add_granted words guy (by omega)] at done
    exact absurd rfl done

private theorem listed_setsize (mem : Option (Nat → α)) (a : KArray α) (nguys : Nat) :
    Listed a.toList (.setsize mem nguys, .code (a.setsize mem nguys).result)
      (a.setsize mem nguys).state.toList := by
  by_cases done : (a.setsize mem nguys).result = .success
  · obtain ⟨num, same⟩ := a.getElem_toList_setsize mem nguys done
    rw [done]
    refine .sized _ _ _ _ (by rw [KArray.length_toList, num]) fun i inside below => ?_
    rw [KArray.length_toList] at inside
    simp [KArray.toList, num, inside, below, same i inside below]
  · obtain ⟨rfl, failed⟩ := a.setsize_failed mem nguys done
    rw [failed]
    exact .notSized _ _

private theorem listed_preallocate (mem : Option (Nat → α)) (a : KArray α) (nguys : Int) :
    Listed a.toList (.preallocate mem nguys, .code (a.preallocate mem nguys.toNat).result)
      (a.preallocate mem nguys.toNat).state.toList := by
  rw [a.toList_preallocate]
  cases mem with
  | none => exact .notPreallocated _ _
  | some words => exact .preallocated _ _ _

/-- An allowed call returns, does to the list what it should and leaves an array. -/
theorem perform_listed {r : RawArray α} {a : KArray α} (models : r.Models a) {call : Call α}
    (allowed : r.Allowed call) :
    ∃ reply r' a', r.perform call = .ok (reply, r') ∧ r'.Models a' ∧
      Listed r.toList (call, reply) r'.toList := by
  have inside {index : Int} (range : 0 ≤ index ∧ index < r.num) :
      ∃ i : Nat, index = i ∧ i < a.num ∧ r.Within i := by
    obtain ⟨i, rfl⟩ := Int.eq_ofNat_of_zero_le range.1
    have num := models.num
    exact ⟨i, rfl, by omega, models.counted.2, range⟩
  rw [models.toList_eq]
  cases call with
  | add mem guy =>
    obtain ⟨r', done, models'⟩ := add_models models mem guy
    refine ⟨_, r', _, by rw [perform, done]; rfl, models', ?_⟩
    rw [models'.toList_eq]
    exact listed_add mem a guy
  | remove index =>
    obtain ⟨i, rfl, small, within⟩ := inside allowed
    obtain ⟨r', b, done, removed, models'⟩ := remove_models models within
    refine ⟨.done, r', b, by rw [perform, done]; rfl, models', ?_⟩
    rw [models'.toList_eq, (a.toList_remove b i removed).1]
    exact .removed _ _ (by rwa [KArray.length_toList])
  | setguy index ptr =>
    obtain ⟨i, rfl, small, within⟩ := inside allowed
    obtain ⟨r', b, done, set, models'⟩ := setguy_models models within ptr
    obtain ⟨b', set', contents⟩ := a.toList_setguy i ptr small
    cases set.symm.trans set'
    refine ⟨.done, r', b, by rw [perform, done]; rfl, models', ?_⟩
    rw [models'.toList_eq, contents]
    exact .set _ _ _ (by rwa [KArray.length_toList])
  | getguy index =>
    obtain ⟨i, rfl, small, within⟩ := inside allowed
    refine ⟨_, r, a, by rw [perform, getguy_models models within, a.getguy_eq i small]; rfl,
      models, ?_⟩
    rw [models.toList_eq]
    exact .got _ _ _ (by simp)
  | setsize mem nguys =>
    obtain ⟨n, rfl⟩ := Int.eq_ofNat_of_zero_le allowed
    obtain ⟨r', done, models'⟩ := setsize_models models mem n
    refine ⟨_, r', _, by rw [perform, done]; rfl, models', ?_⟩
    rw [models'.toList_eq]
    exact listed_setsize mem a n
  | preallocate mem nguys =>
    obtain ⟨r', done, models'⟩ := preallocate_models models mem nguys
    refine ⟨_, r', _, by rw [perform, done]; rfl, models', ?_⟩
    rw [models'.toList_eq]
    exact listed_preallocate mem a nguys

/-- The loop of `array_preallocate` ends. -/
theorem double_reaches (nguys : Int) (newmax : Nat) :
    ∃ k, nguys ≤ double^[k] newmax := by
  have above (k : Nat) : (k : Int) ≤ double^[k] newmax := by
    induction k with
    | zero => exact Int.natCast_nonneg newmax
    | succ k ih =>
      rw [Function.iterate_succ_apply', double]
      omega
  exact ⟨nguys.toNat, Int.le_trans (Int.self_le_toNat nguys) (above _)⟩

/-- With sizes that are not negative, the calls answer as a list does, no assertion fails and the
loop of `array_preallocate` ends. -/
theorem list [Inhabited α] {r : RawArray α} {history : List (RawArray α × Call α × Reply α)}
    (run : Run (Answers Allowed perform) create history r) :
    Run Listed [] (history.map fun taken => (taken.1.toList, taken.2)) r.toList ∧
      (0 ≤ r.num ∧ r.num ≤ r.max) ∧ (r.toList.length : Int) = r.num ∧
      (∀ call, r.Allowed call → ∃ reply t, r.perform call = .ok (reply, t)) ∧
      ∀ nguys : Int, ∃ k, nguys ≤ double^[k] r.max := by
  obtain ⟨⟨a, models⟩, specified⟩ := run.simulate Listed (fun r => ∃ a, r.Models a) toList
    ⟨KArray.create, rfl, rfl, nofun, fun _ => rfl⟩ fun s label t inv taken => by
      obtain ⟨a, models⟩ := inv
      obtain ⟨reply, r', a', done, models', listed⟩ := perform_listed models taken.1
      cases done.symm.trans taken.2
      exact ⟨⟨a', models'⟩, listed⟩
  refine ⟨specified, models.counted, ?_, fun call allowed => ?_, fun nguys => ?_⟩
  · rw [models.toList_eq, KArray.length_toList, models.num]
  · obtain ⟨reply, t, -, done, -⟩ := perform_listed models allowed
    exact ⟨reply, t, done⟩
  · rw [models.max]
    exact double_reaches nguys a.max

/-- Three are added, one is removed from the middle, and the next finds no memory. -/
theorem list_refused :
    ∃ (history : List (RawArray Nat × Call Nat × Reply Nat)) (r : RawArray Nat),
      Run (Answers Allowed perform) create history r ∧ history.map (·.2.2) =
        [.code .ENOMEM, .element 3, .done, .code .success, .code .success, .code .success] ∧
      (0 ≤ r.num ∧ r.num ≤ r.max) ∧ r.toList = [1, 3] := by
  obtain ⟨history, r, run, same, contents⟩ := Run.of_answering Allowed perform create
    [(.add (some fun _ => 9) 1, .code .success), (.add none 2, .code .success),
      (.add (some fun _ => 9) 3, .code .success), (.remove 1, .done), (.getguy 1, .element 3),
      (.setsize none 7, .code .ENOMEM)]
    (fun r : RawArray Nat => r.toList = [1, 3]) (by decide)
  refine ⟨history, r, run, ?_, (list run).2.1, contents⟩
  have replies := congrArg (List.map Prod.snd) same
  rw [List.map_map] at replies
  exact replies

/-- `array_setsize` takes a negative size as it comes. -/
theorem setsize_negative :
    ∃ (history : List (RawArray Nat × Call Nat × Reply Nat)) (r : RawArray Nat),
      Run (Answers InRange perform) create history r ∧
      history.map Prod.snd = [(.setsize none (-1), .code .success)] ∧ ¬ 0 ≤ r.num ∧
      r.perform (.add none 1) = .error .assertion := by
  obtain ⟨history, r, run, same, negative⟩ := Run.of_answering InRange perform create
    [(.setsize none (-1), .code .success)] (fun r : RawArray Nat => ¬ 0 ≤ r.num) (by decide)
  refine ⟨history, r, run, same, negative, ?_⟩
  have wrong : ¬ r.Counted := fun counted => negative counted.1
  simp [perform, add, setsize, wrong, Except.map, bind, Except.bind]

end RawArray

end Os161
