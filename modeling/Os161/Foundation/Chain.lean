import Mathlib.Data.List.Nodup

/-!
# Linked lists

Objects that point to one another, by a function `next` that is `none` where the pointer is `NULL`.
A list is what a pointer leads through. Loops that follow the pointers are given a number of
rounds, since the pointers alone do not say that they end.
-/
namespace Os161.Foundation

variable {ι : Type*} {next next' : ι → Option ι} {head : Option ι} {i : ι} {l l' : List ι}

/-- The pointer `head` leads through the objects in `l`. -/
def Chain (next : ι → Option ι) : Option ι → List ι → Prop
  | head, [] => head = none
  | head, i :: l => head = some i ∧ Chain next (next i) l

namespace Chain

theorem unique (chain : Chain next head l) (chain' : Chain next head l') : l = l' := by
  induction l generalizing head l' with
  | nil =>
    cases l' with
    | nil => rfl
    | cons i l' => exact nomatch chain.symm.trans chain'.1
  | cons i l ih =>
    cases l' with
    | nil => exact nomatch chain.1.symm.trans chain'
    | cons j l' =>
      cases chain.1.symm.trans chain'.1
      rw [ih chain.2 chain'.2]

theorem congr (chain : Chain next head l) (same : ∀ i ∈ l, next' i = next i) :
    Chain next' head l := by
  induction l generalizing head with
  | nil => exact chain
  | cons i l ih =>
    refine ⟨chain.1, ?_⟩
    rw [same i (List.mem_cons_self ..)]
    exact ih chain.2 fun j member => same j (List.mem_cons_of_mem _ member)

theorem of_append {before : List ι} (chain : Chain next head (before ++ i :: l)) :
    Chain next (some i) (i :: l) := by
  induction before generalizing head with
  | nil => exact ⟨rfl, chain.2⟩
  | cons j before ih => exact ih chain.2

/-- A pointer that leads to `NULL` does not come back to an object. -/
theorem nodup (chain : Chain next head l) : l.Nodup := by
  induction l generalizing head with
  | nil => exact List.nodup_nil
  | cons i l ih =>
    refine List.nodup_cons.mpr ⟨fun again => ?_, ih chain.2⟩
    obtain ⟨before, after, rfl⟩ := List.append_of_mem again
    have again : Chain next (some i) (i :: (before ++ i :: after)) := ⟨rfl, chain.2⟩
    have same := (of_append chain.2).unique again
    have lengths := congrArg List.length same
    simp only [List.length_cons, List.length_append] at lengths
    omega

theorem push [DecidableEq ι] (chain : Chain next head l) (new : i ∉ l) :
    Chain (Function.update next i head) (some i) (i :: l) := by
  refine ⟨rfl, ?_⟩
  rw [Function.update_self]
  refine chain.congr fun j member => Function.update_of_ne ?_ ..
  rintro rfl
  exact new member

end Chain

/-! ### Loops over a list -/

/-- `for (i = head; i != NULL; i = i->next)` with a body that may fail, or leave the loop. -/
def search {ε : Type*} (endless : ε) (next : ι → Option ι) (body : ι → Except ε Bool) :
    Nat → Option ι → Except ε (Option ι)
  | 0, _ => .error endless
  | _ + 1, none => .ok none
  | rounds + 1, some i =>
    match body i with
    | .error failure => .error failure
    | .ok true => .ok (some i)
    | .ok false => search endless next body rounds (next i)

/-- A loop that cannot fail on the list finds the first object of the kind it looks for. -/
theorem search_eq {ε : Type*} (endless : ε) {body : ι → Except ε Bool} {wanted : ι → Bool}
    {rounds : Nat} (chain : Chain next head l) (short : l.length < rounds)
    (passes : ∀ i ∈ l, body i = .ok (wanted i)) :
    search endless next body rounds head = .ok (l.find? wanted) := by
  induction l generalizing head rounds with
  | nil =>
    obtain ⟨rounds, rfl⟩ : ∃ n, rounds = n + 1 := Nat.exists_eq_add_one.mpr short
    cases chain
    rfl
  | cons i l ih =>
    obtain ⟨rounds, rfl⟩ : ∃ n, rounds = n + 1 :=
      Nat.exists_eq_add_one.mpr (Nat.zero_lt_of_lt short)
    obtain ⟨rfl, chain⟩ := chain
    rw [search, passes i (List.mem_cons_self ..), List.find?_cons]
    cases wanted i with
    | true => rfl
    | false =>
      exact ih chain (Nat.lt_of_succ_lt_succ short) fun j member =>
        passes j (List.mem_cons_of_mem _ member)

/-! ### Removing an object -/

/-- The pointers of a list: to its first object, and from each object to the next. -/
structure Links (ι : Type*) where
  base : Option ι
  next : ι → Option ι

namespace Links

variable [DecidableEq ι]

/-- `*guy`, where `guy` points to the pointer of an object, or else to the base. -/
def read (k : Links ι) : Option ι → Option ι
  | none => k.base
  | some i => k.next i

/-- `*guy = p`. -/
def write (k : Links ι) (p : Option ι) : Option ι → Links ι
  | none => { k with base := p }
  | some i => { k with next := Function.update k.next i p }

/-- `for (; *guy; guy = &(*guy)->next)`, until `*guy` is `pr`; then `*guy = pr->next`. -/
def remove {ε : Type*} (endless : ε) (pr : ι) : Nat → Option ι → Links ι → Except ε (Links ι)
  | 0, _, _ => .error endless
  | rounds + 1, guy, k =>
    match k.read guy with
    | none => .ok k
    | some i =>
      if i = pr then .ok (k.write (k.next pr) guy) else remove endless pr rounds (some i) k

variable {k : Links ι} {pr : ι}

omit [DecidableEq ι] in
/-- What a pointer in the middle leads to is read as before if its objects and the base are. -/
theorem read_of_eq {k' : Links ι} {guy : Option ι} (base : k'.base = k.base)
    (next : ∀ i, guy = some i → k'.next i = k.next i) : k'.read guy = k.read guy := by
  cases guy with
  | none => exact base
  | some i => exact next i rfl

theorem read_write (k : Links ι) (p guy : Option ι) : (k.write p guy).read guy = p := by
  cases guy with
  | none => rfl
  | some i => exact Function.update_self ..

theorem next_write (k : Links ι) (p guy : Option ι) {i : ι} (other : guy ≠ some i) :
    (k.write p guy).next i = k.next i := by
  cases guy with
  | none => rfl
  | some j =>
    refine Function.update_of_ne ?_ ..
    rintro rfl
    exact other rfl

theorem remove_from {ε : Type*} (endless : ε) {rounds : Nat} {guy : Option ι}
    (chain : Chain k.next (k.read guy) l) (short : l.length < rounds)
    (before : ∀ i, guy = some i → i ∉ l) :
    ∃ k', remove endless pr rounds guy k = .ok k' ∧ Chain k'.next (k'.read guy) (l.erase pr) ∧
      (∀ i ∉ l, guy ≠ some i → k'.next i = k.next i) ∧ (guy ≠ none → k'.base = k.base) := by
  obtain ⟨rounds, rfl⟩ : ∃ n, rounds = n + 1 := Nat.exists_eq_add_one.mpr (Nat.zero_lt_of_lt short)
  induction l generalizing guy rounds with
  | nil => exact ⟨k, by rw [remove, chain], chain, fun _ _ _ => rfl, fun _ => rfl⟩
  | cons i l ih =>
    have nodup := chain.nodup
    obtain ⟨here, rest⟩ := chain
    rw [remove, here]
    dsimp only
    by_cases found : i = pr
    · subst found
      refine ⟨k.write (k.next i) guy, if_pos rfl, ?_, fun j _ other => next_write _ _ _ other, ?_⟩
      · rw [List.erase_cons_head, read_write]
        refine rest.congr fun j member => next_write _ _ _ fun same => ?_
        exact before j same (List.mem_cons_of_mem _ member)
      intro inside
      cases guy with
      | none => exact absurd rfl inside
      | some j => rfl
    rw [if_neg found]
    obtain ⟨rounds, rfl⟩ : ∃ n, rounds = n + 1 :=
      Nat.exists_eq_add_one.mpr (Nat.zero_lt_of_lt (Nat.lt_of_succ_lt_succ short))
    -- the objects from `i` on; the pointer that led to `i` is not touched
    obtain ⟨k', done, chain', same, base⟩ := @ih (some i) rest
      (fun j at_ => by cases at_; exact (List.nodup_cons.mp nodup).1) rounds
      (Nat.lt_of_succ_lt_succ short)
    have led : k'.read guy = some i := by
      rw [← here]
      refine read_of_eq (base (Option.some_ne_none i)) fun j at_ => ?_
      have outside := before j at_
      rw [List.mem_cons, not_or] at outside
      exact same j outside.2 fun eq => outside.1 (Option.some.inj eq).symm
    refine ⟨k', done, ?_, fun j outside other => ?_, fun _ => base (Option.some_ne_none i)⟩
    · rw [List.erase_cons_tail (by simpa using found)]
      exact ⟨led, chain'⟩
    · rw [List.mem_cons, not_or] at outside
      exact same j outside.2 fun eq => outside.1 (Option.some.inj eq).symm

/-- The list loses the object, and only pointers of its objects change. -/
theorem remove_eq {ε : Type*} (endless : ε) (k : Links ι) (pr : ι) {rounds : Nat}
    (chain : Chain k.next k.base l) (short : l.length < rounds) :
    ∃ k', remove endless pr rounds none k = .ok k' ∧ Chain k'.next k'.base (l.erase pr) ∧
      ∀ i ∉ l, k'.next i = k.next i := by
  obtain ⟨k', done, chain', same, -⟩ := @remove_from _ _ _ _ pr _ endless _ none chain short nofun
  exact ⟨k', done, chain', fun i outside => same i outside nofun⟩

end Links

end Os161.Foundation
