import Os161.CatMouse.Catlock

/-!
# Taking turns

The invariant of `catlock.c` when its lock is free: the counters count threads, only the
species whose turn it is has anyone inside, a turn that is not idle has somebody to use it,
and whoever sleeps on `cat_turn` or `mouse_turn` cannot be admitted yet.
-/
namespace Os161.CatMouse

open Foundation Synch Synch.Monitor
open Function (update update_of_ne update_self)

theorem Species.eq_or_eq_other (s me : Species) : s = me ∨ s = me.other := by
  cases s <;> cases me <;> simp [other]

@[simp]
theorem Species.other_ne (s : Species) : s.other ≠ s := by
  cases s <;> simp [other]

@[simp]
theorem Species.other_other (s : Species) : s.other.other = s := by
  cases s <;> rfl

namespace Catlock

variable {number : Species → Nat}

variable {q : Place → Prop}

/-- The kinds of places that the invariant tells apart. -/
inductive Place where
  | out
  | waiting
  | seeking
  | inside (d : Dish)
  | finished
  | watching
  deriving DecidableEq

def Point.place : Point → Place
  | unborn | petitioning | forking _ => .out
  | turning => .waiting
  | seeking => .seeking
  | served d | eating d _ => .inside d
  | finished => .finished
  | watching => .watching

def Place.dish : Place → Option Dish
  | inside d => some d
  | _ => none

abbrev View (number : Species → Nat) := Monitor.View (Thread number) Place Shared Own

/-! ### Counting -/

/-- The animals of a species at places that the predicate accepts. -/
def count (q : Place → Prop) [DecidablePred q] (place : Thread number → Place)
    (s : Species) : Nat :=
  tally (fun t k => t.species = some s ∧ q k) place

theorem count_move [DecidablePred q] (place : Thread number → Place) {t : Thread number}
    {me : Species} (mine : t.species = some me) (k : Place) (s : Species) :
    (count q (update place t k) s : Int) = count q place s +
      if s = me then (if q k then 1 else 0) - (if q (place t) then 1 else 0) else 0 := by
  have moved := tally_update (fun t k => t.species = some s ∧ q k) place t k
  simp only [count, mine] at moved ⊢
  by_cases here : s = me
  · subst here
    simp only [true_and, if_true] at moved ⊢
    by_cases now : q k <;> by_cases before : q (place t)
    all_goals
      simp only [now, before, if_true, if_false] at moved ⊢
      omega
  · simp only [Option.some.injEq, Ne.symm here, false_and, if_false, here] at moved ⊢
    omega

theorem count_driver [DecidablePred q] {place : Thread number → Place} (k : Place) (s : Species) :
    count q (update place .driver k) s = count q place s :=
  tally_update_same (by simp [Thread.species, Thread.driver])

theorem count_pos_iff [DecidablePred q] {place : Thread number → Place} {s : Species} :
    0 < count q place s ↔ ∃ t : Thread number, t.species = some s ∧ q (place t) :=
  tally_pos (p := fun (t : Thread number) k => t.species = some s ∧ q k)

theorem count_pos [DecidablePred q] {place : Thread number → Place} {t : Thread number}
    {s : Species} (species : t.species = some s) (here : q (place t)) : 0 < count q place s :=
  count_pos_iff.mpr ⟨t, species, here⟩

/-- A counter that follows a count when one thread moves. -/
theorem update_add {f n n' : Species → Int} {me : Species} {k : Int} (old : ∀ s, f s = n s)
    (moved : ∀ s, n' s = n s + if s = me then k else 0) (s : Species) :
    update f me (f me + k) s = n' s := by
  by_cases here : s = me
  · rw [here, update_self, moved, if_pos rfl, old]
  · rw [update_of_ne here, moved, if_neg here, old, add_zero]

def waits : (Thread number → Place) → Species → Nat := count fun k => k = .waiting

def insides : (Thread number → Place) → Species → Nat := count fun k => k.dish.isSome

def ended : (Thread number → Place) → Species → Nat := count fun k => k = .finished

section

variable {t : Thread number} {me : Species}

section

variable (place : Thread number → Place) (mine : t.species = some me) (k : Place) (s : Species)

include place mine k s

theorem waits_move :
    (waits (update place t k) s : Int) = waits place s +
      if s = me then (if k = .waiting then 1 else 0) - (if place t = .waiting then 1 else 0)
      else 0 :=
  count_move place mine k s

theorem insides_move :
    (insides (update place t k) s : Int) = insides place s +
      if s = me then (if k.dish.isSome then 1 else 0) - (if (place t).dish.isSome then 1 else 0)
      else 0 :=
  count_move place mine k s

theorem ended_move :
    (ended (update place t k) s : Int) = ended place s +
      if s = me then (if k = .finished then 1 else 0) - (if place t = .finished then 1 else 0)
      else 0 :=
  count_move place mine k s

end

end

/-! ### Who has which dish -/

/-- Every dish that somebody has bears the code of the holder, and every other one 0. -/
structure Holders (dishes : Dish → Option Species) (own : Thread number → Own) : Prop where
  dishes : ∀ d s, dishes d = some s ↔ ∃ t, t.species = some s ∧ own t = some d
  apart : ∀ t u d, own t = some d → own u = some d → t = u
  driver : own .driver = none

namespace Holders

variable {dishes : Dish → Option Species} {own : Thread number → Own} {t : Thread number}
  {me : Species} {d : Dish}

section

variable (holders : Holders dishes own)

include holders

private theorem species (here : own t = some d) : ∃ s, t.species = some s := by
  rcases t with _ | a
  · cases holders.driver.symm.trans here
  · exact ⟨a.1, rfl⟩

private theorem not_own (free : dishes d = none) (u : Thread number) : own u ≠ some d := by
  intro here
  obtain ⟨s, species⟩ := holders.species here
  cases free.symm.trans ((holders.dishes d s).mpr ⟨u, species, here⟩)

/-- `dishes[my_bowl] = my_type` -/
theorem take (mine : t.species = some me) (nothing : own t = none) (free : dishes d = none) :
    Holders (update dishes d (some me)) (update own t (some d)) := by
  have others := holders.not_own free
  constructor
  case dishes =>
    intro e s
    by_cases here : e = d
    · -- nobody else has the dish that was free
      subst here
      simp only [update_self, Option.some.injEq]
      constructor
      · rintro rfl
        exact ⟨t, mine, update_self ..⟩
      rintro ⟨u, species, holds⟩
      by_cases same : u = t
      · subst same
        exact Option.some.inj (mine.symm.trans species)
      · rw [update_of_ne same] at holds
        exact absurd holds (others u)
    rw [update_of_ne here, holders.dishes]
    refine exists_congr fun u => and_congr_right fun _ => ?_
    by_cases same : u = t
    · subst same
      simp [nothing, Ne.symm here]
    · rw [update_of_ne same]
  case apart =>
    intro u w e first second
    by_cases left : u = t <;> by_cases right : w = t
    · exact left.trans right.symm
    · subst left
      rw [update_self] at first
      rw [update_of_ne right, ← first] at second
      exact absurd second (others w)
    · subst right
      rw [update_self] at second
      rw [update_of_ne left, ← second] at first
      exact absurd first (others u)
    · rw [update_of_ne left] at first
      rw [update_of_ne right] at second
      exact holders.apart u w e first second
  case driver =>
    rw [update_of_ne, holders.driver]
    rintro rfl
    cases mine

/-- `dishes[my_dish] = 0` -/
theorem give (here : own t = some d) : Holders (update dishes d none) (update own t none) := by
  constructor
  case dishes =>
    intro e s
    by_cases same : e = d
    · -- only `t` had it
      subst same
      simp only [update_self, reduceCtorEq, false_iff, not_exists, not_and]
      intro u _ holds
      by_cases me : u = t
      · subst me
        simp at holds
      · rw [update_of_ne me] at holds
        exact me (holders.apart u t e holds here)
    rw [update_of_ne same, holders.dishes]
    refine exists_congr fun u => and_congr_right fun _ => ?_
    by_cases me : u = t
    · subst me
      simp [here, Ne.symm same]
    · rw [update_of_ne me]
  case apart =>
    intro u w e first second
    have left : u ≠ t := by
      rintro rfl
      simp at first
    have right : w ≠ t := by
      rintro rfl
      simp at second
    rw [update_of_ne left] at first
    rw [update_of_ne right] at second
    exact holders.apart u w e first second
  case driver =>
    rw [update_of_ne, holders.driver]
    rintro rfl
    cases holders.driver.symm.trans here

end

end Holders

/-! ### The invariant -/

/-- What holds when the lock is free. -/
structure Rest (v : View number) : Prop where
  waiting : ∀ s, v.shared.waiting s = waits v.place s
  admitted : ∀ s, v.shared.admitted s = v.shared.left s + insides v.place s
  bound : ∀ s, v.shared.admitted s ≤ TURN_COUNT
  left : ∀ s, 0 ≤ v.shared.left s ∧ v.shared.left s < TURN_COUNT
  done : ∀ s, v.shared.done s = ended v.place s
  /-- Nobody waits for a turn that nobody has. -/
  idle : v.shared.whosTurn = none → ∀ s, waits v.place s = 0 ∧ v.shared.admitted s = 0
  /-- The others are not admitted, and somebody will end the turn. -/
  turn : ∀ s, v.shared.whosTurn = some s → v.shared.admitted s.other = 0 ∧
    (0 < waits v.place s ∨ 0 < insides v.place s)
  /-- Whoever is asleep could not go on. -/
  asleep : ∀ t c, (t, c) ∈ v.asleep →
    (∃ s, t.species = some s ∧ c = Catlock.turn s ∧ v.place t = .waiting ∧
      (v.shared.whosTurn = some s → v.shared.admitted s = TURN_COUNT)) ∨
    (t = .driver ∧ c = allDone ∧ v.place t = .watching)
  holds : ∀ t d, v.own t = some d ↔ v.place t = .inside d
  holders : Holders v.shared.dishes v.own

/-- What holds in all states: holders are of one species, have a dish each, and the dishes
say so. -/
structure Safe (v : View number) : Prop where
  holders : Holders v.shared.dishes v.own
  together : ∀ t u d e s r, v.own t = some d → v.own u = some e → t.species = some s →
    u.species = some r → s = r

/-- Nobody sleeps through its turn. -/
def Calm (v : View number) : Prop :=
  ∀ t s, (t, turn s) ∈ v.asleep → v.shared.whosTurn = some s → TURN_COUNT ≤ v.shared.admitted s

/-- What holds while `t` owns the lock. -/
structure Busy (t : Thread number) (v : View number) : Prop where
  safe : Safe v
  holds : ∀ u d, u ≠ t → (v.own u = some d ↔ v.place u = .inside d)
  calm : Calm v

private theorem turn_inj {s r : Species} (same : turn s = turn r) : s = r := by
  cases s <;> cases r <;> simp [turn] at same ⊢

theorem turn_ne_allDone (s : Species) : turn s ≠ allDone := by
  cases s <;> simp [turn, allDone]

private theorem turn_ne_emptyDish (s : Species) : turn s ≠ emptyDish := by
  cases s <;> simp [turn, emptyDish]

namespace Rest

variable {v : View number} {t : Thread number} {me : Species}

/-- An animal with a dish is inside, and it is its turn. -/
theorem whosTurn_of_own (rest : Rest v) {d : Dish} (own : v.own t = some d)
    (mine : t.species = some me) : v.shared.whosTurn = some me := by
  have inside : 0 < insides v.place me :=
    count_pos mine (by simp [(rest.holds t d).mp own, Place.dish])
  have admitted := rest.admitted me
  have left := (rest.left me).1
  cases now : v.shared.whosTurn with
  | none =>
    have nobody := (rest.idle now me).2
    omega
  | some s =>
    rcases Species.eq_or_eq_other me s with rfl | rfl
    · rfl
    · have nobody := (rest.turn s now).1
      omega

theorem safe (rest : Rest v) : Safe v where
  holders := rest.holders
  together t u d e s r first second left right := by
    have one := rest.whosTurn_of_own first left
    have two := rest.whosTurn_of_own second right
    exact Option.some.inj (one.symm.trans two)

theorem calm (rest : Rest v) : Calm v := by
  intro t s asleep now
  rcases rest.asleep t _ asleep with ⟨r, -, same, -, full⟩ | ⟨-, same, -⟩
  · cases turn_inj same
    exact (full now).ge
  · exact absurd same (turn_ne_allDone s)

/-- Nobody sleeps on `empty_dish`. -/
theorem not_asleep_emptyDish (rest : Rest v) (t : Thread number) : (t, emptyDish) ∉ v.asleep := by
  intro asleep
  rcases rest.asleep t _ asleep with ⟨s, -, same, -⟩ | ⟨-, same, -⟩
  · exact turn_ne_emptyDish s same.symm
  · cases same

theorem wake (rest : Rest v) {asleep : List (Thread number × Ptr)}
    (fewer : ∀ e ∈ asleep, e ∈ v.asleep) : Rest { v with asleep } :=
  { rest with asleep := fun t c member => rest.asleep t c (fewer _ member) }

/-- A species that waits has the turn or the others have it. -/
theorem whosTurn_of_waiting (rest : Rest v) (mine : t.species = some me)
    (waiting : v.place t = .waiting) :
    v.shared.whosTurn = some me ∨ v.shared.whosTurn = some me.other := by
  have some_waits : 0 < waits v.place me := count_pos mine waiting
  cases now : v.shared.whosTurn with
  | none =>
    have nobody := (rest.idle now me).1
    omega
  | some s => rcases Species.eq_or_eq_other s me with rfl | rfl <;> simp

end Rest

namespace Busy

variable {t : Thread number} {u v : View number}

/-- What another view of the same dishes and places needs. -/
theorem of_same (busy : Busy t u) (dishes : v.shared.dishes = u.shared.dishes)
    (own : v.own = u.own) (place : ∀ w,
      w ≠ t → v.place w = u.place w) (calm : Calm v) : Busy t v where
  safe := {
    holders := by
      rw [dishes, own]
      exact busy.safe.holders
    together := own ▸ busy.safe.together }
  holds w d other := by
    rw [own, place w other]
    exact busy.holds w d other
  calm := calm

theorem wake (busy : Busy t v) {asleep : List (Thread number × Ptr)}
    (fewer : ∀ e ∈ asleep, e ∈ v.asleep) : Busy t { v with asleep } :=
  busy.of_same rfl rfl (fun _ _ => rfl) fun w s member => busy.calm w s (fewer _ member)

end Busy

theorem Rest.busy {v : View number} (rest : Rest v) (t : Thread number) : Busy t v :=
  ⟨rest.safe, fun u d _ => rest.holds u d, rest.calm⟩

/-! ### What the pieces of code do -/

/-- Being counted as waiting, after the claim of an idle turn. -/
def asks (v : View number) (t : Thread number) (me : Species) : View number where
  shared := { v.shared with
    whosTurn := if v.shared.whosTurn = none then some me else v.shared.whosTurn
    waiting := update v.shared.waiting me (v.shared.waiting me + 1) }
  own := v.own
  place := update v.place t .waiting
  asleep := v.asleep

def enters (v : View number) (t : Thread number) (me : Species) (d : Dish) : View number where
  shared := { v.shared with
    waiting := update v.shared.waiting me (v.shared.waiting me - 1)
    admitted := update v.shared.admitted me (v.shared.admitted me + 1)
    admissions := update v.shared.admissions me (v.shared.admissions me + 1)
    dishes := update v.shared.dishes d (some me) }
  own := update v.own t (some d)
  place := update v.place t (.inside d)
  asleep := v.asleep

/-- Leaving a turn that goes on. -/
def leaves (v : View number) (t : Thread number) (me : Species) (d : Dish) : View number where
  shared := { v.shared with
    dishes := update v.shared.dishes d none
    left := update v.shared.left me (v.shared.left me + 1)
    done := update v.shared.done me (v.shared.done me + 1) }
  own := update v.own t none
  place := update v.place t .finished
  asleep := v.asleep

/-- Leaving a turn that ends. -/
def closes (v : View number) (t : Thread number) (me : Species) (d : Dish) (next : Option Species)
    (asleep : List (Thread number × Ptr)) : View number where
  shared := { v.shared with
    dishes := update v.shared.dishes d none
    admitted := fun _ => 0
    left := fun _ => 0
    whosTurn := next
    done := update v.shared.done me (v.shared.done me + 1) }
  own := update v.own t none
  place := update v.place t .finished
  asleep := asleep

/-- What `return_dish_to_guardian` comes to, up to the signal to the driver. -/
inductive Finishes (v : View number) (t : Thread number) (me : Species) (d : Dish) :
    View number → Prop
  | leaves (more : v.shared.left me + 1 < v.shared.admitted me ∨
      (v.shared.left me + 1 < TURN_COUNT ∧ 0 < v.shared.waiting me)) :
      Finishes v t me d (leaves v t me d)
  | closes {next : Option Species} {asleep : List (Thread number × Ptr)}
      (last : ¬ v.shared.left me + 1 < v.shared.admitted me)
      (idle : next = none → ∀ s, v.shared.waiting s = 0)
      (wanted : ∀ s, next = some s → v.shared.waiting s ≠ 0)
      -- the others have precedence
      (switch : v.shared.waiting me.other ≠ 0 → next = some me.other)
      (fewer : asleep.Sublist v.asleep)
      (woken : ∀ s, next = some s → ∀ u, (u, turn s) ∉ asleep) :
      Finishes v t me d (closes v t me d next asleep)

/-! ### Getting a dish -/

theorem getEmptyDish_some {g : Shared} {d : Dish} (found : g.getEmptyDish = some d) :
    g.dishes d = none := by
  simpa using List.find?_some found

private theorem getEmptyDish_none {g : Shared} (nothing : g.getEmptyDish = none) (d : Dish) :
    g.dishes d ≠ none := by
  have all := List.find?_eq_none.mp nothing d (List.mem_finRange d)
  simpa using all

namespace Rest

variable {v : View number} {t : Thread number} {me : Species}

/-- While a turn has room, a dish is free. -/
theorem exists_emptyDish (rest : Rest v) (now : v.shared.whosTurn = some me)
    (room : v.shared.admitted me < TURN_COUNT) : ∃ d, v.shared.getEmptyDish = some d := by
  cases found : v.shared.getEmptyDish with
  | some d => exact ⟨d, rfl⟩
  | none =>
    -- both dishes taken would make two animals inside
    have taken : ∀ d, ∃ u, u.species = some me ∧ v.own u = some d := by
      intro d
      obtain ⟨s, there⟩ := Option.ne_none_iff_exists'.mp (getEmptyDish_none found d)
      obtain ⟨u, species, own⟩ := (rest.holders.dishes d s).mp there
      have turn := rest.whosTurn_of_own own species
      exact ⟨u, by rw [species, ← turn, now], own⟩
    obtain ⟨first, one, here⟩ := taken 0
    obtain ⟨second, two, there⟩ := taken 1
    have different : first ≠ second := by
      rintro rfl
      cases here.symm.trans there
    have both : 2 ≤ insides v.place me := by
      unfold insides count
      exact two_le_tally different ⟨one, by simp [(rest.holds _ _).mp here, Place.dish]⟩
        ⟨two, by simp [(rest.holds _ _).mp there, Place.dish]⟩
    have admitted := rest.admitted me
    have left := (rest.left me).1
    simp only [TURN_COUNT] at room
    omega

/-- Having a dish is being inside, also for the thread that moves. -/
theorem holds_move (rest : Rest v) {own : Own} {k : Place}
    (here : ∀ d, own = some d ↔ k = .inside d) (u : Thread number) (d : Dish) :
    update v.own t own u = some d ↔ update v.place t k u = .inside d := by
  by_cases same : u = t
  · rw [same, update_self, update_self]
    exact here d
  · rw [update_of_ne same, update_of_ne same]
    exact rest.holds u d

theorem ask (rest : Rest v) (mine : t.species = some me) (out : v.place t = .out)
    (awake : ∀ c, (t, c) ∉ v.asleep) : Rest (asks v t me) := by
  unfold asks
  have waits := waits_move v.place mine .waiting
  have insides := insides_move v.place mine .waiting
  have ended := ended_move v.place mine .waiting
  simp only [out, Place.dish, reduceCtorEq, if_false, if_true, Option.isSome_none,
    Bool.false_eq_true, sub_self, ite_self, sub_zero, add_zero] at waits insides ended
  constructor
  case waiting => exact update_add rest.waiting waits
  case admitted =>
    intro s
    rw [insides s]
    exact rest.admitted s
  case bound => exact rest.bound
  case left => exact rest.left
  case done =>
    intro s
    rw [ended s]
    exact rest.done s
  case idle =>
    intro idle
    split at idle
    · cases idle
    · contradiction
  case turn =>
    intro s turn
    have moved := waits s
    have same := insides s
    dsimp only at turn ⊢
    split at turn
    next idle =>
      cases turn
      rw [if_pos rfl] at moved
      exact ⟨(rest.idle idle me.other).2, .inl (by omega)⟩
    next =>
      obtain ⟨others, somebody⟩ := rest.turn s turn
      refine ⟨others, somebody.imp (fun waiting => ?_) (fun inside => by omega)⟩
      split at moved <;> omega
  case asleep =>
    intro u c asleep
    have other : u ≠ t := fun same => awake c (same ▸ asleep)
    simp only [update_of_ne other]
    refine (rest.asleep u c asleep).imp_left ?_
    rintro ⟨s, species, same, place, full⟩
    refine ⟨s, species, same, place, fun turn => ?_⟩
    split at turn
    next idle =>
      -- nobody sleeps for an idle turn
      have nobody := (rest.idle idle s).1
      have somebody : 0 < Catlock.waits v.place s := count_pos species place
      omega
    next => exact full turn
  case holds =>
    intro u d
    by_cases same : u = t
    · subst same
      simpa [out] using rest.holds u d
    · simpa only [update_of_ne same] using rest.holds u d
  case holders => exact rest.holders

/-- Going to sleep on the turn's condition variable. -/
theorem sleep (rest : Rest v) (mine : t.species = some me) (waiting : v.place t = .waiting)
    (blocked : v.shared.whosTurn ≠ some me ∨ TURN_COUNT ≤ v.shared.admitted me) :
    Rest (v.sleep t (Catlock.turn me)) := by
  refine { rest with asleep := ?_ }
  intro u c member
  rcases List.mem_append.mp member with before | now
  · exact rest.asleep u c before
  rw [List.mem_singleton] at now
  cases now
  refine .inl ⟨me, mine, rfl, waiting, ?_⟩
  intro turn
  exact le_antisymm (rest.bound me) (blocked.resolve_left fun not => not turn)

theorem enter (rest : Rest v) (mine : t.species = some me) (waiting : v.place t = .waiting)
    (awake : ∀ c, (t, c) ∉ v.asleep) (now : v.shared.whosTurn = some me)
    (room : v.shared.admitted me < TURN_COUNT) {d : Dish} (free : v.shared.dishes d = none) :
    Rest (enters v t me d) := by
  unfold enters
  have nothing : v.own t = none := by
    cases own : v.own t with
    | none => rfl
    | some e => cases ((rest.holds t e).mp own).symm.trans waiting
  have waits := waits_move v.place mine (.inside d)
  have insides := insides_move v.place mine (.inside d)
  have ended := ended_move v.place mine (.inside d)
  simp only [waiting, Place.dish, reduceCtorEq, if_false, if_true, Option.isSome_some,
    Option.isSome_none, Bool.false_eq_true, zero_sub, sub_zero, sub_self, ite_self, add_zero]
    at waits insides ended
  constructor
  case waiting => exact update_add rest.waiting waits
  case admitted => exact update_add rest.admitted fun s => by rw [insides s, add_assoc]
  case bound =>
    intro s
    by_cases here : s = me
    · subst here
      simp only [update_self]
      omega
    · simpa only [update_of_ne here] using rest.bound s
  case left => exact rest.left
  case done =>
    intro s
    rw [ended s]
    exact rest.done s
  case idle => exact fun idle => absurd (now.symm.trans idle) (by simp)
  case turn =>
    intro s turn
    cases now.symm.trans turn
    have moved := insides me
    rw [if_pos rfl] at moved
    simp only [update_of_ne (Species.other_ne me)]
    exact ⟨(rest.turn me now).1, .inr (by omega)⟩
  case asleep =>
    intro u c asleep
    have other : u ≠ t := fun same => awake c (same ▸ asleep)
    simp only [update_of_ne other]
    refine (rest.asleep u c asleep).imp_left ?_
    rintro ⟨s, species, same, place, full⟩
    refine ⟨s, species, same, place, fun turn => ?_⟩
    -- a sleeper of this species would have no room either
    cases now.symm.trans turn
    exact absurd (full turn) (ne_of_lt room)
  case holds => exact rest.holds_move fun e => by simp
  case holders => exact rest.holders.take mine nothing free

/-! ### Giving it back -/

theorem leave_counts (mine : t.species = some me) {d : Dish} (inside : v.place t = .inside d)
    (s : Species) :
    waits (update v.place t .finished) s = waits v.place s ∧
      (insides (update v.place t .finished) s : Int) =
        insides v.place s - (if s = me then 1 else 0) ∧
      (ended (update v.place t .finished) s : Int) =
        ended v.place s + if s = me then 1 else 0 := by
  have waits := waits_move v.place mine .finished s
  have insides := insides_move v.place mine .finished s
  have ended := ended_move v.place mine .finished s
  simp only [inside, Place.dish, reduceCtorEq, if_false, if_true, Option.isSome_some,
    Option.isSome_none, Bool.false_eq_true] at waits insides ended
  refine ⟨by omega, ?_, ?_⟩
  · rw [insides]
    split <;> omega
  · rw [ended]
    split <;> omega

/-- What the one who leaves does to the dishes. -/
theorem leave_holders (rest : Rest v) {d : Dish} (inside : v.place t = .inside d) :
    Holders (update v.shared.dishes d none) (update v.own t none) ∧
      ∀ u e, update v.own t none u = some e ↔
        update v.place t .finished u = .inside e := by
  have own := (rest.holds t d).mpr inside
  exact ⟨rest.holders.give own, rest.holds_move fun e => by simp⟩

section

variable {d : Dish} (rest : Rest v) (mine : t.species = some me) (inside : v.place t = .inside d)

include rest mine inside

private theorem leave (awake : ∀ c, (t, c) ∉ v.asleep)
    (more : v.shared.left me + 1 < v.shared.admitted me ∨
      (v.shared.left me + 1 < TURN_COUNT ∧ 0 < v.shared.waiting me)) : Rest (leaves v t me d) := by
  unfold leaves
  have counts := leave_counts mine inside
  obtain ⟨holders, holds⟩ := rest.leave_holders inside
  have now := rest.whosTurn_of_own ((rest.holds t d).mpr inside) mine
  constructor
  case waiting =>
    intro s
    simp only [(counts s).1]
    exact rest.waiting s
  case admitted =>
    -- who has left is no longer inside
    have moved : ∀ s, v.shared.admitted s - insides (update v.place t .finished) s =
        v.shared.admitted s - insides v.place s + if s = me then 1 else 0 := by
      intro s
      rw [(counts s).2.1, sub_add]
    intro s
    have gone := update_add (fun s => eq_sub_of_add_eq (rest.admitted s).symm) moved s
    exact (add_eq_of_eq_sub gone).symm
  case bound => exact rest.bound
  case left =>
    intro s
    have old := rest.left s
    have bound := rest.bound s
    by_cases here : s = me
    · subst here
      simp only [update_self]
      omega
    · simpa only [update_of_ne here] using old
  case done => exact update_add rest.done fun s => (counts s).2.2
  case idle => exact fun idle => absurd (now.symm.trans idle) (by simp)
  case turn =>
    intro s turn
    cases now.symm.trans turn
    refine ⟨(rest.turn me now).1, ?_⟩
    -- either somebody is still inside, or somebody of this species waits
    have moved := (counts me).2.1
    have admitted := rest.admitted me
    have waiting := rest.waiting me
    simp only [(counts me).1]
    omega
  case asleep =>
    intro u c asleep
    have other : u ≠ t := fun same => awake c (same ▸ asleep)
    simp only [update_of_ne other]
    exact rest.asleep u c asleep
  case holds => exact holds
  case holders => exact holders

private theorem close (awake : ∀ c, (t, c) ∉ v.asleep)
    (last : ¬ v.shared.left me + 1 < v.shared.admitted me) {next : Option Species}
    (idle : next = none → ∀ s, v.shared.waiting s = 0)
    (wanted : ∀ s, next = some s → v.shared.waiting s ≠ 0) {asleep : List (Thread number × Ptr)}
    (fewer : asleep.Sublist v.asleep)
    (woken : ∀ s, next = some s → ∀ u, (u, Catlock.turn s) ∉ asleep) :
    Rest (closes v t me d next asleep) := by
  unfold closes
  have counts := leave_counts mine inside
  obtain ⟨holders, holds⟩ := rest.leave_holders inside
  have now := rest.whosTurn_of_own ((rest.holds t d).mpr inside) mine
  constructor
  case waiting =>
    intro s
    simp only [(counts s).1]
    exact rest.waiting s
  case admitted =>
    intro s
    have old := rest.admitted s
    have left := (rest.left s).1
    have moved := (counts s).2.1
    -- the last one has left, and nobody of the others was inside
    rcases Species.eq_or_eq_other s me with rfl | rfl
    · simp only [if_true] at moved ⊢
      omega
    · have nobody := (rest.turn me now).1
      simp only [Species.other_ne, if_false] at moved ⊢
      omega
  case bound | left => exact fun s => by simp [TURN_COUNT]
  case done => exact update_add rest.done fun s => (counts s).2.2
  case idle =>
    intro none s
    have nobody := idle none s
    have waiting := rest.waiting s
    simp only [(counts s).1]
    exact ⟨by omega, trivial⟩
  case turn =>
    intro s turn
    have somebody := wanted s turn
    have waiting := rest.waiting s
    simp only [(counts s).1]
    exact ⟨trivial, .inl (by omega)⟩
  case asleep =>
    intro u c member
    have before := fewer.mem member
    have other : u ≠ t := fun same => awake c (same ▸ before)
    simp only [update_of_ne other]
    refine (rest.asleep u c before).imp_left ?_
    rintro ⟨s, species, rfl, place, -⟩
    -- whoever sleeps on the condition variable of the next turn has been woken
    exact ⟨s, species, rfl, place, fun turn => absurd member (woken s turn u)⟩
  case holds => exact holds
  case holders => exact holders

theorem finish (awake : ∀ c, (t, c) ∉ v.asleep) {w : View number} (finishes : Finishes v t me d w) :
    Rest w := by
  cases finishes with
  | leaves more => exact rest.leave mine inside awake more
  | closes last idle wanted switch fewer woken =>
    exact rest.close mine inside awake last idle wanted fewer woken

end

/-! ### The driver -/

theorem watch (rest : Rest v) (out : v.place .driver = .out) :
    Rest ((v.arrive .driver .watching).sleep .driver allDone) := by
  -- no count and no dish has to do with the driver
  have others : ∀ u : Thread number, u.species.isSome →
      update v.place .driver .watching u = v.place u := by
    rintro u animal
    refine update_of_ne ?_ ..
    rintro rfl
    cases animal
  constructor
  case waiting => exact fun s => (rest.waiting s).trans (congrArg _ (count_driver _ s).symm)
  case admitted =>
    intro s
    simp only [View.arrive, View.sleep, insides, count_driver]
    exact rest.admitted s
  case bound => exact rest.bound
  case left => exact rest.left
  case done => exact fun s => (rest.done s).trans (congrArg _ (count_driver _ s).symm)
  case idle =>
    intro idle s
    simp only [View.arrive, View.sleep, waits, count_driver]
    exact rest.idle idle s
  case turn =>
    intro s turn
    simp only [View.arrive, View.sleep, waits, insides, count_driver]
    exact rest.turn s turn
  case asleep =>
    intro t c member
    rcases List.mem_append.mp member with before | now
    · refine (rest.asleep t c before).imp ?_ ?_
      · rintro ⟨s, species, same, place, full⟩
        exact ⟨s, species, same, (others t (by simp [species])).trans place, full⟩
      · rintro ⟨rfl, -, place⟩
        cases out.symm.trans place
    · rw [List.mem_singleton] at now
      cases now
      exact .inr ⟨rfl, rfl, by simp [View.arrive, View.sleep]⟩
  case holds =>
    intro t d
    by_cases same : t = .driver
    · subst same
      simp [View.arrive, View.sleep, rest.holders.driver]
    · simpa only [View.arrive, View.sleep, update_of_ne same] using rest.holds t d
  case holders => exact rest.holders

theorem start : Rest (⟨globalInit, fun _ => none, fun _ => .out, []⟩ : View number) := by
  have nobody : ∀ (q : Place → Prop) [DecidablePred q] (s : Species), ¬ q .out →
      count q (fun _ : Thread number => .out) s = 0 :=
    fun q _ s not => tally_eq_zero.mpr fun t here => not here.2
  have waits : ∀ s, waits (fun _ : Thread number => .out) s = 0 := fun s => nobody _ s (by simp)
  have insides : ∀ s, insides (fun _ : Thread number => .out) s = 0 :=
    fun s => nobody _ s (by simp [Place.dish])
  have ended : ∀ s, ended (fun _ : Thread number => .out) s = 0 := fun s => nobody _ s (by simp)
  constructor
  case waiting => exact fun s => by simp [globalInit, waits]
  case admitted => exact fun s => by simp [globalInit, insides]
  case bound | left => exact fun s => by simp [globalInit, TURN_COUNT]
  case done => exact fun s => by simp [globalInit, ended]
  case idle => exact fun _ s => ⟨waits s, rfl⟩
  case turn => exact fun s turn => nomatch turn
  case asleep => exact fun t c member => nomatch member
  case holds => exact fun t d => by simp
  case holders =>
    constructor
    case dishes => exact fun d s => by simp [globalInit]
    case apart => exact fun t u d first => nomatch first
    case driver => rfl

end Rest

end Catlock

end Os161.CatMouse
