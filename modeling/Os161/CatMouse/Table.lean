import Os161.CatMouse.Catsem

/-!
# Who has a dish

Under `vars_mutex` the bits of `dishes_in_use` say which dishes animals have, in all runs. That
cats and mice do not eat together needs more: an animal that claims a dish must do so in its
own turn, and in one that its species has from `wait_turn`. `claim_dish` gives the turn to the
other species while its own is eating, and a turn that an animal has seen may be over when it
claims.
-/
namespace Os161.CatMouse.Catsem

open Foundation Synch Synch.Flow
open Function (update update_of_ne update_self)
open View (move)

variable {number : Species → Nat}

/-! ### Bits -/

/-- The value of `dishes_in_use` for the dishes in use. -/
def mask (f : Dish → Bool) : CInt :=
  (if f .one then Dish.one.bit else 0) ||| if f .two then Dish.two.bit else 0

theorem mask_and (f : Dish → Bool) (d : Dish) : mask f &&& d.bit = 0 ↔ f d = false := by
  cases d <;> cases one : f .one <;> cases two : f .two <;> simp [mask, Dish.bit, one, two]

private theorem mask_or (f : Dish → Bool) (d : Dish) :
    mask f ||| d.bit = mask (update f d true) := by
  cases d <;> cases one : f .one <;> cases two : f .two <;> simp [mask, Dish.bit, one, two]

private theorem mask_clear (f : Dish → Bool) (d : Dish) :
    mask f &&& ~~~ d.bit = mask (update f d false) := by
  cases d <;> cases one : f .one <;> cases two : f .two <;> simp [mask, Dish.bit, one, two]

private theorem mask_eq_zero (f : Dish → Bool) : mask f = 0 ↔ ∀ d, f d = false := by
  constructor
  · intro zero d
    rw [← mask_and, zero]
    simp
  · intro free
    simp [mask, free]

theorem mask_eq_full (f : Dish → Bool) :
    mask f = Dish.one.bit ||| Dish.two.bit ↔ ∀ d, f d = true := by
  constructor
  · intro full d
    rw [← Bool.not_eq_false, ← mask_and, full]
    cases d <;> simp [Dish.bit]
  · intro taken
    simp [mask, taken]

theorem bit_inj {d e : Dish} (same : d.bit = e.bit) : d = e := by
  cases d <;> cases e <;> simp [Dish.bit] at same ⊢

/-! ### Places -/

/-- The animal is between `P(vars_mutex)` and `V(vars_mutex)`. -/
def inVars : Point → Bool
  | .look | .looked | .waitAssert | .waitSet | .waitDone => true
  | .claimAssert | .choose | .goes _ | .uses _ | .handOver | .switch | .claimDone => true
  | .clear | .released | .tryTest | .reset | .giveTurn | .tryDone => true
  | .count | .countTest | .mark | .counted | .fault => true
  | _ => false

def holding : Point → Bool
  | .handOver | .switch | .claimDone | .eat | .release | .clear => true
  | _ => false

def held (v : View number) (t : Animal number) : Option CInt :=
  if holding (v.pc t) then some (v.own t).myDish else none

def taken (v : View number) (d : Dish) : Bool := decide (∃ t, held v t = some d.bit)

/-- Only statements under `vars_mutex` write shared variables. -/
theorem silent_of_not_inVars {me : Species} {k : Point} (outside : inVars k = false) :
    (code number me k).Silent := by
  cases k <;> trivial

theorem vars_balanced (me : Species) (k : Point) :
    (code number me k).Balanced varsMutex (fun k => inVars k) k := by
  cases k <;> cases me <;>
    simp [code, assign, test, Instr.Balanced, inVars, varsMutex, turnMutex, allDone, sem]

/-! ### What a step does -/

section

variable {v v' : View number} {t : Animal number}

/-- What a step of `t` does to the turn and to the dishes. -/
inductive Moves (v : View number) (t : Animal number) (v' : View number) : Prop
  | quiet (turn : v'.shared.turn = v.shared.turn) (handed : v'.shared.handed = v.shared.handed)
      (dishes : v'.shared.dishesInUse = v.shared.dishesInUse) (same : ∀ u, held v' u = held v u)
  /-- `turn = animal_code` in `wait_turn` -/
  | sets (here : v.pc t = .waitSet) (turn : v'.shared.turn = some t.1)
      (handed : v'.shared.handed = false)
      (dishes : v'.shared.dishesInUse = v.shared.dishesInUse) (same : ∀ u, held v' u = held v u)
  /-- `turn = 2` in `claim_dish` -/
  | switches (here : v.pc t = .switch) (turn : v'.shared.turn = some t.1.other)
      (handed : v'.shared.handed = true)
      (dishes : v'.shared.dishesInUse = v.shared.dishesInUse) (same : ∀ u, held v' u = held v u)
  /-- `turn = 0` in `try_release_turn` -/
  | resets (here : v.pc t = .reset) (turn : v'.shared.turn = none)
      (handed : v'.shared.handed = false)
      (dishes : v'.shared.dishesInUse = v.shared.dishesInUse) (same : ∀ u, held v' u = held v u)
  /-- `dishes_in_use |= DISH1` in `claim_dish` -/
  | takes (d : Dish) (here : v.pc t = .uses d) (turn : v'.shared.turn = v.shared.turn)
      (handed : v'.shared.handed = v.shared.handed)
      (dishes : v'.shared.dishesInUse = v.shared.dishesInUse ||| d.bit)
      (before : held v t = none) (now : held v' t = some d.bit)
      (same : ∀ u, u ≠ t → held v' u = held v u)
  /-- `dishes_in_use &= ~my_dish` in `release_dish` -/
  | gives (here : v.pc t = .clear) (turn : v'.shared.turn = v.shared.turn)
      (handed : v'.shared.handed = v.shared.handed)
      (dishes : v'.shared.dishesInUse = v.shared.dishesInUse &&& ~~~ (v.own t).myDish)
      (before : held v t = some (v.own t).myDish) (now : held v' t = none)
      (same : ∀ u, u ≠ t → held v' u = held v u)

section

variable (taken : v.next (catmousesem number) t = some v')

include taken

theorem held_others {u : Animal number} (other : u ≠ t) : held v' u = held v u := by
  obtain ⟨pc, own⟩ := others_next taken other
  simp [held, pc, own]

private theorem held_same (place : holding (v'.pc t) = holding (v.pc t))
    (own : (v'.own t).myDish = (v.own t).myDish) (u : Animal number) : held v' u = held v u := by
  by_cases me : u = t
  · subst me
    simp [held, place, own]
  · exact held_others taken me

theorem moves_of_next : Moves v t v' := by
  have others : ∀ u, u ≠ t → held v' u = held v u := fun u => held_others taken
  have same := held_same taken
  simp only [View.next, catmousesem] at taken
  cases here : v.pc t <;> rw [here] at taken
  case waitSet =>
    cases taken
    exact .sets here rfl rfl rfl (same (by simp [move, here, holding]) (by simp))
  case switch =>
    cases taken
    exact .switches here rfl rfl rfl (same (by simp [move, here, holding]) (by simp))
  case reset =>
    cases taken
    exact .resets here rfl rfl rfl (same (by simp [move, here, holding]) (by simp))
  case uses d =>
    cases taken
    exact .takes d here rfl rfl rfl (by simp [held, here, holding])
      (by simp [held, move, holding]) others
  case clear =>
    cases taken
    exact .gives here rfl rfl rfl (by simp [held, here, holding])
      (by simp [held, move, holding]) others
  case ended | fault => cases taken
  all_goals
    -- all other statements leave the turn and the dishes alone
    simp only [code, assign, test, View.statement, Option.ite_none_right_eq_some,
      Option.some.injEq] at taken
    obtain ⟨-, rfl⟩ := taken
    refine .quiet rfl rfl rfl (same ?_ ?_)
    · simp only [move, View.add, here, update_self, apply_ite holding]
      simp [holding]
    · simp [move, View.add]

end

/-- What a thread knows under `vars_mutex`, in all runs. -/
def Facts (_ : Animal number) : Point → Shared → Prop
  | .waitSet, g => g.turn = none
  | .choose, g => g.dishesInUse ≠ Dish.one.bit ||| Dish.two.bit
  | .goes d, g | .uses d, g => g.dishesInUse &&& d.bit = 0
  | .reset, g => g.dishesInUse = 0
  | _, _ => True

/-- The dishes in use are those that animals have, one each. -/
structure Table (v : View number) : Prop where
  vars : Section varsMutex (fun _ k => inVars k) Facts v
  dish : ∀ t d, held v t = some d → ∃ e : Dish, d = e.bit
  apart : ∀ t u d, held v t = some d → held v u = some d → t = u
  dishes : v.shared.dishesInUse = mask (taken v)

/-- The second dish is free if the first is not and not both are in use. -/
theorem Table.second_free (table : Table v) (first : v.shared.dishesInUse &&& Dish.one.bit ≠ 0)
    (room : v.shared.dishesInUse ≠ Dish.one.bit ||| Dish.two.bit) :
    v.shared.dishesInUse &&& Dish.two.bit = 0 := by
  rw [table.dishes] at first room ⊢
  rw [Ne, mask_and, Bool.not_eq_false] at first
  rw [Ne, mask_eq_full] at room
  rw [mask_and]
  by_contra two
  rw [Bool.not_eq_false] at two
  exact room fun d => by cases d <;> assumption

/-- What the statements of `t` find out, it knows. -/
theorem Table.facts_next (table : Table v) (taken : v.next (catmousesem number) t = some v') :
    Facts t (v'.pc t) v'.shared := by
  have known := table.vars.knows t
  simp only [View.next, catmousesem] at taken
  generalize v.pc t = pc at taken known
  cases pc
  case waitAssert =>
    cases taken
    simp only [move, update_self, decide_eq_true_eq]
    split
    next idle => exact idle
    next => trivial
  case claimAssert =>
    cases taken
    simp only [move, update_self, decide_eq_true_eq]
    split
    next room => exact room
    next => trivial
  case choose =>
    cases taken
    simp only [move, update_self, decide_eq_true_eq]
    split
    next free => exact free
    next used => exact table.second_free used (known rfl)
  case goes d =>
    cases taken
    simp only [move, update_self]
    exact known rfl
  case tryTest =>
    cases taken
    simp only [move, update_self, decide_eq_true_eq]
    split
    next empty => exact empty
    next => trivial
  case ended | fault => cases taken
  all_goals
    simp only [code, assign, test, View.statement, Option.ite_none_right_eq_some,
      Option.some.injEq] at taken
    obtain ⟨-, rfl⟩ := taken
    simp only [move, View.add, update_self]
    first | trivial | (split <;> trivial)

private theorem taken_congr (same : ∀ u, held v' u = held v u) :
    Catsem.taken v' = Catsem.taken v := by
  funext d
  simp [Catsem.taken, same]

private theorem taken_take {d : Dish} (before : held v t = none) (now : held v' t = some d.bit)
    (same : ∀ u, u ≠ t → held v' u = held v u) :
    Catsem.taken v' = update (Catsem.taken v) d true := by
  funext e
  by_cases here : e = d
  · subst here
    rw [update_self, Catsem.taken, decide_eq_true_iff]
    exact ⟨t, now⟩
  rw [update_of_ne here, Catsem.taken, Catsem.taken, decide_eq_decide]
  refine exists_congr fun u => ?_
  by_cases me : u = t
  · subst me
    simp only [before, now, Option.some.injEq, reduceCtorEq, iff_false]
    exact fun same => here (bit_inj same).symm
  · rw [same u me]

theorem Table.taken_give (table : Table v) {d : Dish} (before : held v t = some d.bit)
    (now : held v' t = none) (same : ∀ u, u ≠ t → held v' u = held v u) :
    Catsem.taken v' = update (Catsem.taken v) d false := by
  funext e
  by_cases here : e = d
  · subst here
    rw [update_self, Catsem.taken, decide_eq_false_iff_not]
    rintro ⟨u, holds⟩
    by_cases me : u = t
    · subst me
      cases now.symm.trans holds
    · rw [same u me] at holds
      exact me (table.apart u t e.bit holds before)
  rw [update_of_ne here, Catsem.taken, Catsem.taken, decide_eq_decide]
  refine exists_congr fun u => ?_
  by_cases me : u = t
  · subst me
    simp only [before, now, Option.some.injEq, reduceCtorEq, false_iff]
    exact fun same => here (bit_inj same).symm
  · rw [same u me]

theorem written_next (taken : v.next (catmousesem number) t = some v') :
    inVars (v.pc t) ∨ v'.shared = v.shared := by
  cases here : inVars (v.pc t) with
  | true => exact .inl rfl
  | false => exact .inr (shared_next (silent_of_not_inVars here) taken)

theorem Table.next (table : Table v) (taken : v.next (catmousesem number) t = some v') :
    Table v' := by
  have vars := table.vars.next taken (vars_balanced _ _) (written_next taken)
    fun _ => table.facts_next taken
  -- most statements do nothing to the dishes
  have still : v'.shared.dishesInUse = v.shared.dishesInUse → (∀ u, held v' u = held v u) →
      Table v' := by
    intro dishes same
    constructor
    case vars => exact vars
    case dish => exact fun u d here => table.dish u d (same u ▸ here)
    case apart =>
      exact fun u w d first second => table.apart u w d (same u ▸ first) (same w ▸ second)
    case dishes => rw [dishes, taken_congr same, table.dishes]
  cases moves_of_next taken with
  | quiet turn handed dishes same => exact still dishes same
  | sets here turn handed dishes same => exact still dishes same
  | switches here turn handed dishes same => exact still dishes same
  | resets here turn handed dishes same => exact still dishes same
  | takes d here turn handed dishes before now same =>
    have free : ∀ u, held v u ≠ some d.bit := by
      have known := table.vars.knows t
      rw [here] at known
      have bit : v.shared.dishesInUse &&& d.bit = 0 := known rfl
      rw [table.dishes, mask_and] at bit
      intro u holds
      exact Bool.false_ne_true (bit.symm.trans (decide_eq_true ⟨u, holds⟩))
    constructor
    case vars => exact vars
    case dish =>
      intro u e holds
      by_cases me : u = t
      · subst me
        exact ⟨d, Option.some.inj (holds.symm.trans now)⟩
      · exact table.dish u e (same u me ▸ holds)
    case apart =>
      intro u w e first second
      by_cases left : u = t <;> by_cases right : w = t
      · exact left.trans right.symm
      · subst left
        rw [same w right, ← first, now] at second
        exact absurd second (free w)
      · subst right
        rw [same u left, ← second, now] at first
        exact absurd first (free u)
      · exact table.apart u w e (same u left ▸ first) (same w right ▸ second)
    case dishes => rw [dishes, table.dishes, mask_or, taken_take before now same]
  | gives here turn handed dishes before now same =>
    obtain ⟨d, bit⟩ := table.dish t _ before
    rw [bit] at dishes before
    constructor
    case vars => exact vars
    case dish =>
      intro u e holds
      by_cases me : u = t
      · subst me
        cases now.symm.trans holds
      · exact table.dish u e (same u me ▸ holds)
    case apart =>
      intro u w e first second
      have left : u ≠ t := by
        rintro rfl
        cases now.symm.trans first
      have right : w ≠ t := by
        rintro rfl
        cases now.symm.trans second
      exact table.apart u w e (same u left ▸ first) (same w right ▸ second)
    case dishes => rw [dishes, table.dishes, mask_clear, table.taken_give before now same]

/-! ### Exclusion -/

/-- When it comes to claim a dish, it has the turn, and not by the grace of `claim_dish`. -/
def ClaimsInTurn (v : View number) (t : Animal number) : Prop :=
  v.pc t = .claimAssert → v.shared.turn = some t.1 ∧ v.shared.handed = false

/-- It still has it when it takes the dish. -/
def Claims (t : Animal number) : Point → Shared → Prop
  | .choose, g | .goes _, g | .uses _, g => g.turn = some t.1 ∧ g.handed = false
  | _, _ => True

/-- Those who have a dish are of one species, which has the turn unless it has been handed on. -/
structure Apart (v : View number) : Prop where
  claims : Section varsMutex (fun _ k => inVars k) Claims v
  together : ∀ t u d e, held v t = some d → held v u = some e → t.1 = u.1
  turn : v.shared.handed = false → ∀ t d, held v t = some d → v.shared.turn = some t.1
  handed : v.shared.handed = true → v.shared.turn ≠ none

theorem Apart.claims_next (apart : Apart v) (inTurn : ClaimsInTurn v t)
    (taken : v.next (catmousesem number) t = some v') : Claims t (v'.pc t) v'.shared := by
  have known := apart.claims.knows t
  simp only [View.next, catmousesem] at taken
  generalize here : v.pc t = pc at taken known
  cases pc
  case claimAssert =>
    cases taken
    simp only [move, update_self, decide_eq_true_eq]
    split
    next => exact inTurn here
    next => trivial
  case choose =>
    cases taken
    simp only [move, update_self, decide_eq_true_eq]
    split
    next => exact known rfl
    next => exact known rfl
  case goes d =>
    cases taken
    simp only [move, update_self]
    exact known rfl
  case ended | fault => cases taken
  all_goals
    simp only [code, assign, test, View.statement, Option.ite_none_right_eq_some,
      Option.some.injEq] at taken
    obtain ⟨-, rfl⟩ := taken
    simp only [move, View.add, update_self]
    first | trivial | (split <;> trivial)

/-- Nobody has a dish when no dish is in use. -/
theorem Table.held_of_zero (table : Table v) (zero : v.shared.dishesInUse = 0) (t : Animal number) :
    held v t = none := by
  cases holds : held v t with
  | none => rfl
  | some d =>
    obtain ⟨e, rfl⟩ := table.dish t d holds
    rw [table.dishes, mask_eq_zero] at zero
    have used : Catsem.taken v e = true := decide_eq_true ⟨t, holds⟩
    cases used.symm.trans (zero e)

/-- Nor while nobody has the turn. -/
theorem Apart.held_of_idle (apart : Apart v) (idle : v.shared.turn = none) (t : Animal number) :
    held v t = none := by
  cases holds : held v t with
  | none => rfl
  | some d =>
    cases handed : v.shared.handed with
    | true => exact absurd idle (apart.handed handed)
    | false => cases idle.symm.trans (apart.turn handed t d holds)

theorem Apart.next (apart : Apart v) (table : Table v) (inTurn : ClaimsInTurn v t)
    (taken : v.next (catmousesem number) t = some v') : Apart v' := by
  have claims := apart.claims.next taken (vars_balanced _ _) (written_next taken)
    fun _ => apart.claims_next inTurn taken
  have facts := table.vars.knows t
  -- where the dishes stay as they are
  have still : (∀ u, held v' u = held v u) →
      (v'.shared.handed = false → ∀ u d, held v u = some d → v'.shared.turn = some u.1) →
      (v'.shared.handed = true → v'.shared.turn ≠ none) → Apart v' := by
    intro same turn handed
    constructor
    case claims => exact claims
    case together =>
      intro u w d e first second
      exact apart.together u w d e (same u ▸ first) (same w ▸ second)
    case turn => exact fun fair u d holds => turn fair u d (same u ▸ holds)
    case handed => exact handed
  cases moves_of_next taken with
  | quiet turn handed dishes same =>
    refine still same ?_ ?_
    · rw [turn, handed]
      exact apart.turn
    · rw [turn, handed]
      exact apart.handed
  | sets here turn handed dishes same =>
    rw [here] at facts
    refine still same (fun _ u d holds => ?_) (fun handed' => ?_)
    · cases (apart.held_of_idle (facts rfl) u).symm.trans holds
    · cases handed.symm.trans handed'
  | switches here turn handed dishes same =>
    refine still same (fun fair => ?_) (fun _ => by simp [turn])
    cases handed.symm.trans fair
  | resets here turn handed dishes same =>
    rw [here] at facts
    refine still same (fun _ u d holds => ?_) (fun handed' => ?_)
    · cases (table.held_of_zero (facts rfl) u).symm.trans holds
    · cases handed.symm.trans handed'
  | takes d here turn handed dishes before now same =>
    have known := apart.claims.knows t
    rw [here] at known
    obtain ⟨mine, fair⟩ : v.shared.turn = some t.1 ∧ v.shared.handed = false := known rfl
    -- whoever has a dish is of the species that has the turn
    have theirs : ∀ u e, held v' u = some e → u.1 = t.1 := by
      intro u e holds
      by_cases me : u = t
      · rw [me]
      · have turn := apart.turn fair u e (same u me ▸ holds)
        exact Option.some.inj (turn.symm.trans mine)
    constructor
    case claims => exact claims
    case together =>
      exact fun u w e f first second => (theirs u e first).trans (theirs w f second).symm
    case turn =>
      intro _ u e holds
      rw [turn, mine, theirs u e holds]
    case handed =>
      intro handed'
      rw [handed, fair] at handed'
      cases handed'
  | gives here turn handed dishes before now same =>
    have others : ∀ u e, held v' u = some e → held v u = some e := by
      intro u e holds
      by_cases me : u = t
      · subst me
        cases now.symm.trans holds
      · exact same u me ▸ holds
    constructor
    case claims => exact claims
    case together =>
      intro u w e f first second
      exact apart.together u w e f (others u e first) (others w f second)
    case turn =>
      rw [turn, handed]
      exact fun fair u e holds => apart.turn fair u e (others u e holds)
    case handed =>
      rw [turn, handed]
      exact apart.handed

end

/-! ### Runs -/

theorem count_start (s : Ptr) : (start number).view.count s = (initial s).toInt := rfl

theorem held_start (t : Animal number) : held (start number).view t = none := rfl

/-- Before the first step nobody is in a critical section. -/
theorem section_start (Knows : Animal number → Point → Shared → Prop) :
    Section varsMutex (fun _ k => inVars k) Knows (start number).view where
  natural := by
    rw [count_start]
    decide
  alone := by
    have nobody : tally (fun _ k => inVars k) (start number).view.pc = 0 :=
      tally_eq_zero.mpr fun t => by simp [start, State.start, State.view, inVars]
    rw [nobody]
    rfl
  knows t inside := by simp [start, State.start, State.view, inVars] at inside

theorem Table.start : Table (start number).view where
  vars := section_start Facts
  dish := fun _ _ here => nomatch here
  apart := fun _ _ _ here => nomatch here
  dishes := by
    have free : Catsem.taken (Catsem.start number).view = fun _ => false := by
      funext d
      simp [Catsem.taken, held_start]
    rw [free]
    rfl

theorem Apart.start : Apart (start number).view where
  claims := section_start Claims
  together := fun _ _ _ _ here => nomatch here
  turn := fun _ _ _ here => nomatch here
  handed := fun handed => nomatch handed

variable {σ : State number} {history : List (State number × Flow.Label (Animal number))}

theorem fits_start : Fits (catmousesem number) (start number) := Fits.start _ _ _ _

private theorem table_of_run (run : Run (Step number) (start number) history σ) : Table σ.view :=
  invariant_of_run fits_start Table.start
    (fun _ _ _ table (_ : True) taken => table.next taken) run fun _ _ _ _ => trivial

private theorem apart_of_run (run : Run (Step number) (start number) history σ)
    (inTurn : ∀ taken ∈ history, ∀ t, taken.2.thread = some t → ClaimsInTurn taken.1.view t) :
    Apart σ.view := by
  have preserved : ∀ v t v', Table v ∧ Apart v → ClaimsInTurn v t →
      v.next (catmousesem number) t = some v' → Table v' ∧ Apart v' := by
    rintro v t v' ⟨table, apart⟩ inTurn taken
    exact ⟨table.next taken, apart.next table inTurn taken⟩
  exact (invariant_of_run fits_start ⟨Table.start, Apart.start⟩ preserved run inTurn).2

instance (v : View number) (t : Animal number) : Decidable (ClaimsInTurn v t) :=
  inferInstanceAs (Decidable (_ = _ → _))

/-- No two animals have the same dish. If all claims are made in turn, then never a cat and a
mouse have one at the same time. -/
theorem dishes_kept_apart (run : Run (Step number) (start number) history σ) :
    (∀ t u, holding (σ.pc t) → holding (σ.pc u) → (σ.own t).myDish = (σ.own u).myDish → t = u) ∧
    ((∀ taken ∈ history, ∀ t, taken.2.thread = some t → ClaimsInTurn taken.1.view t) →
      ∀ c m, ¬ (holding (σ.pc ⟨.cat, c⟩) ∧ holding (σ.pc ⟨.mouse, m⟩))) := by
  have held_of_holding : ∀ t, holding (σ.pc t) → held σ.view t = some (σ.own t).myDish :=
    fun t place => if_pos place
  constructor
  · intro t u first second same
    refine (table_of_run run).apart t u _ (held_of_holding t first) ?_
    rw [held_of_holding u second, same]
  rintro inTurn c m ⟨cat, mouse⟩
  have together := (apart_of_run run inTurn).together _ _ _ _ (held_of_holding _ cat)
    (held_of_holding _ mouse)
  cases together

/-! ### Schedules -/

section

variable (t : Animal number)

/-- A call that is not kept waiting. -/
def calls : List (Flow.Label (Animal number)) := [.statement t, .goOn t]

/-- Some statements between `P(vars_mutex)` and `V(vars_mutex)`. -/
def inside (statements : Nat) : List (Flow.Label (Animal number)) :=
  calls t ++ List.replicate statements (.statement t) ++ calls t

/-- `P(cat_sem)` and `is_my_turn`. -/
def comes : List (Flow.Label (Animal number)) := calls t ++ inside t 1 ++ [.statement t]

/-- `wait_turn` and `is_my_turn`. -/
def waits : List (Flow.Label (Animal number)) :=
  calls t ++ inside t 2 ++ inside t 1 ++ [.statement t]

/-- The end of `clocksleep`, and `release_dish`. -/
def rises : List (Flow.Label (Animal number)) := [.statement t, .wakeup lbolt] ++ inside t 1

end

def cat (n : Fin 6) : Animal population := ⟨.cat, n⟩

def mouse (n : Fin 2) : Animal population := ⟨.mouse, n⟩

/-- Two cats eat, and a mouse waits for the turn. -/
def twoCats : List (Flow.Label (Animal population)) :=
  comes (cat 0) ++ waits (cat 0) ++ inside (cat 0) 5 ++ comes (cat 1) ++ inside (cat 1) 5 ++
    comes (mouse 0) ++ calls (mouse 0)

theorem dishes_kept_apart_twoCats :
    ∃ history σ, Run (Step population) (start population) history σ ∧
      history.map Prod.snd = twoCats.reverse ∧ σ.pc (cat 0) = .eat ∧ σ.pc (cat 1) = .eat ∧
      (σ.own (cat 0)).myDish ≠ (σ.own (cat 1)).myDish ∧
      ∀ m, holding (σ.pc ⟨.mouse, m⟩) = false := by
  obtain ⟨σ, reached, first, second⟩ :
      ∃ σ, execute (checked
          (fun σ label => ∀ t, label.thread = some t → ClaimsInTurn (State.view σ) t)
          (State.next (catmousesem population))) (start population) twoCats = some σ ∧
        σ.pc (cat 0) = .eat ∧ σ.pc (cat 1) = .eat :=
    execute_check (by decide +kernel)
  obtain ⟨history, guarded, same⟩ := Run.of_execute reached
  obtain ⟨run, inTurn⟩ := guarded.of_checked
  obtain ⟨dishes, apart⟩ := dishes_kept_apart run
  refine ⟨history, σ, run, same, first, second, fun equal => ?_, fun m => ?_⟩
  · have one := dishes (cat 0) (cat 1) (by rw [first]; rfl) (by rw [second]; rfl) equal
    cases one
  · rw [← Bool.not_eq_true]
    have cat_eats : holding (σ.pc ⟨.cat, (0 : Fin 6)⟩) = true := by
      rw [show (⟨.cat, _⟩ : Animal population) = cat 0 from rfl, first]
      rfl
    exact fun eats => apart inTurn (0 : Fin 6) m ⟨cat_eats, eats⟩

/-- Two mice eat; the second one gives the turn to the cats, and when the first has left a cat
claims its dish. -/
def mouseAndCat : List (Flow.Label (Animal population)) :=
  comes (mouse 0) ++ waits (mouse 0) ++ inside (mouse 0) 5 ++ comes (mouse 1) ++
    inside (mouse 1) 6 ++ rises (mouse 0) ++ comes (cat 0) ++ inside (cat 0) 5

theorem eat_together_mouseAndCat :
    ∃ history σ, Run (Step population) (start population) history σ ∧
      history.map Prod.snd = mouseAndCat.reverse ∧ σ.pc (cat 0) = .eat ∧ σ.pc (mouse 1) = .eat :=
  Run.of_check (by decide +kernel)

end Os161.CatMouse.Catsem
