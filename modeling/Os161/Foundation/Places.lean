import Mathlib.Data.Set.Card

/-!
# Places that hold things

Every place holds one thing or nothing, which is 0. It is kept tidy: nothing is held at two
places.
-/
namespace Os161.Foundation

open Function (update update_of_ne update_self)

variable {ι κ β : Type} [Zero β]

def Tidy (m : ι → β) : Prop := ∀ ⦃i j⦄, m i ≠ 0 → m i = m j → i = j

def held (m : ι → β) : Set β := { b | b ≠ 0 ∧ ∃ i, m i = b }

theorem mem_held {m : ι → β} {i : ι} (holds : m i ≠ 0) : m i ∈ held m := ⟨holds, i, rfl⟩

section

variable [DecidableEq ι] {m : ι → β} {i : ι} {b : β}

/-- A thing that was nowhere is put where nothing was. -/
theorem Tidy.put (tidy : Tidy m) (fresh : b ∉ held m) : Tidy (update m i b) := by
  intro j k holds same
  -- `fresh` says that `b` is at no other place
  have elsewhere : ∀ l, m l = b → b = 0 := by
    intro l here
    by_contra thing
    exact fresh ⟨thing, l, here⟩
  by_cases atJ : j = i <;> by_cases atK : k = i
  · rw [atJ, atK]
  · rw [atJ, update_self] at holds
    rw [atJ, update_self, update_of_ne atK] at same
    exact absurd (elsewhere k same.symm) holds
  · rw [update_of_ne atJ] at holds
    rw [atK, update_self, update_of_ne atJ] at same
    exact absurd (same.trans (elsewhere j same)) holds
  · rw [update_of_ne atJ] at holds
    rw [update_of_ne atJ, update_of_ne atK] at same
    exact tidy holds same

theorem held_put (empty : m i = 0) (thing : b ≠ 0) :
    held (update m i b) = insert b (held m) := by
  ext c
  constructor
  · rintro ⟨nonzero, j, here⟩
    by_cases atI : j = i
    · rw [atI, update_self] at here
      exact .inl here.symm
    · rw [update_of_ne atI] at here
      exact .inr ⟨nonzero, j, here⟩
  rintro (rfl | ⟨nonzero, j, here⟩)
  · exact ⟨thing, i, update_self ..⟩
  have atJ : j ≠ i := by
    rintro rfl
    exact nonzero (here.symm.trans empty)
  exact ⟨nonzero, j, by rw [update_of_ne atJ, here]⟩

/-- What a place holds is taken away. -/
theorem Tidy.take (tidy : Tidy m) : Tidy (update m i 0) :=
  tidy.put fun inside => inside.1 rfl

theorem held_take (tidy : Tidy m) : held (update m i 0) = held m \ {m i} := by
  ext c
  constructor
  · rintro ⟨nonzero, j, here⟩
    by_cases atI : j = i
    · rw [atI, update_self] at here
      exact absurd here.symm nonzero
    · rw [update_of_ne atI] at here
      refine ⟨⟨nonzero, j, here⟩, fun same => atI ?_⟩
      exact tidy (here ▸ nonzero) (here.trans same)
  rintro ⟨⟨nonzero, j, here⟩, other⟩
  have atJ : j ≠ i := by
    rintro rfl
    exact other here.symm
  exact ⟨nonzero, j, by rw [update_of_ne atJ, here]⟩

end

/-! ### More things -/

/-- Things have come to places in `room` where nothing was. -/
structure Fills (room : ι → Prop) (m m' : ι → β) : Prop where
  kept : ∀ i, m i ≠ 0 → m' i = m i
  others : ∀ i, ¬ room i → m' i = m i

namespace Fills

variable {room room' : ι → Prop} {m m' m'' : ι → β}

theorem refl (room : ι → Prop) (m : ι → β) : Fills room m m := ⟨fun _ _ => rfl, fun _ _ => rfl⟩

theorem trans (first : Fills room m m') (second : Fills room m' m'') : Fills room m m'' where
  kept i thing := by
    have same := first.kept i thing
    rw [second.kept i (same ▸ thing), same]
  others i outside := (second.others i outside).trans (first.others i outside)

theorem mono (fills : Fills room m m') (wider : ∀ i, room i → room' i) : Fills room' m m' where
  kept := fills.kept
  others i outside := fills.others i fun inside => outside (wider i inside)

theorem put [DecidableEq ι] {i : ι} {b : β} (result : m' = update m i b)
    (empty : m i = 0) (inside : room i) : Fills room m m' where
  kept j thing := by
    have apart : j ≠ i := by
      rintro rfl
      exact thing empty
    rw [result, update_of_ne apart]
  others j outside := by
    have apart : j ≠ i := by
      rintro rfl
      exact outside inside
    rw [result, update_of_ne apart]

/-- New things are at places that have been filled. -/
theorem new_subset (fills : Fills room m m') :
    held m' \ held m ⊆ Set.image m' { i | room i ∧ m i = 0 ∧ m' i ≠ 0 } := by
  rintro b ⟨⟨thing, i, rfl⟩, fresh⟩
  have empty : m i = 0 := by
    by_contra full
    rw [fills.kept i full] at fresh
    exact fresh (mem_held full)
  refine ⟨i, ⟨?_, empty, thing⟩, rfl⟩
  by_contra outside
  exact thing ((fills.others i outside).trans empty)

/-- Where all things of a supply have come, and a place is still empty, the supply was too small. -/
theorem ncard_lt [Finite ι] (fills : Fills room m m') {supply : Set β}
    (used : supply ⊆ held m' \ held m) {i : ι} (inside : room i) (empty : m' i = 0) :
    supply.ncard < { j | room j ∧ m j = 0 }.ncard := by
  have before : m i = 0 := by
    by_contra thing
    exact thing ((fills.kept i thing).symm.trans empty)
  have fewer : { j | room j ∧ m j = 0 ∧ m' j ≠ 0 } ⊂ { j | room j ∧ m j = 0 } := by
    refine ⟨fun j filled => ⟨filled.1, filled.2.1⟩, fun all => ?_⟩
    exact (all ⟨inside, before⟩).2.2 empty
  calc supply.ncard
      ≤ (Set.image m' { j | room j ∧ m j = 0 ∧ m' j ≠ 0 }).ncard :=
        Set.ncard_le_ncard (used.trans fills.new_subset) (Set.toFinite _)
    _ ≤ { j | room j ∧ m j = 0 ∧ m' j ≠ 0 }.ncard := Set.ncard_image_le
    _ < { j | room j ∧ m j = 0 }.ncard := Set.ncard_lt_ncard fewer

end Fills

/-- Things have gone from some places. -/
def Thins (m m' : ι → β) : Prop := ∀ i, m' i = 0 ∨ m' i = m i

namespace Thins

variable {m m' : ι → β}

theorem held_subset (thins : Thins m m') : held m' ⊆ held m := by
  rintro b ⟨thing, i, here⟩
  refine ⟨thing, i, ?_⟩
  rcases thins i with gone | same
  · exact absurd (here.symm.trans gone) thing
  · exact same.symm.trans here

/-- What has gone from its place is nowhere. -/
theorem notMem_held (thins : Thins m m') (tidy : Tidy m) {i : ι} (was : m i ≠ 0) (gone : m' i = 0) :
    m i ∉ held m' := by
  rintro ⟨-, j, here⟩
  rcases thins j with none | same
  · exact was (here.symm.trans none)
  · cases tidy was (here.symm.trans same)
    exact was (here.symm.trans gone)

end Thins

/-! ### Rows of places -/

/-- A row gets other things: some of those it had, or things that were nowhere. -/
theorem Tidy.row {m m' : κ × ι → β} (tidy : Tidy m) {k : κ}
    (others : ∀ j i, j ≠ k → m' (j, i) = m (j, i)) (row : Tidy fun i => m' (k, i))
    (apart : ∀ i, m' (k, i) ≠ 0 → (∃ i', m (k, i') = m' (k, i)) ∨ m' (k, i) ∉ held m) :
    Tidy m' := by
  -- what the row holds is in no other row
  have alone : ∀ i j i', j ≠ k → m' (k, i) ≠ 0 → m' (k, i) ≠ m' (j, i') := by
    intro i j i' other holds same
    rw [others j i' other] at same
    rcases apart i holds with ⟨i'', before⟩ | new
    · have one := tidy (before ▸ holds) (before.trans same)
      exact other (congrArg Prod.fst one).symm
    · exact new ⟨holds, (j, i'), same.symm⟩
  rintro ⟨j, i⟩ ⟨j', i'⟩ holds same
  by_cases first : j = k <;> by_cases second : j' = k
  · subst first
    rw [second] at same ⊢
    exact congrArg _ (row holds same)
  · subst first
    exact absurd same (alone i j' i' second holds)
  · subst second
    exact absurd same.symm (alone i' j i first (same ▸ holds))
  · rw [others j i first] at holds same
    rw [others j' i' second] at same
    exact tidy holds same

theorem mem_held_row {m m' : κ × ι → β} {k : κ} (others : ∀ j i, j ≠ k → m' (j, i) = m (j, i))
    {b : β} :
    b ∈ held m' ↔ (b ≠ 0 ∧ ∃ i, m' (k, i) = b) ∨ (b ≠ 0 ∧ ∃ j i, j ≠ k ∧ m (j, i) = b) := by
  constructor
  · rintro ⟨thing, ⟨j, i⟩, here⟩
    by_cases same : j = k
    · subst same
      exact .inl ⟨thing, i, here⟩
    · exact .inr ⟨thing, j, i, same, (others j i same).symm.trans here⟩
  · rintro (⟨thing, i, here⟩ | ⟨thing, j, i, other, here⟩)
    · exact ⟨thing, (k, i), here⟩
    · exact ⟨thing, (j, i), (others j i other).trans here⟩

end Os161.Foundation
