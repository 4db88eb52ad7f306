import Os161.CatMouse.Table

/-!
# The assertions of the semaphore version

Two seats for each species, and one turn: it is with `turn_mutex`, with the animal that is
about to take it or to give it back, or in `turn`. If claims are made in turn, and the turn is
given back only when no other animal that has returned its dish is still to look for the last
one, then no assertion fails and `turn_mutex` is never above 1.
-/
namespace Os161.CatMouse.Catsem

open Foundation Synch Synch.Flow

variable {number : Species → Nat}

/-! ### Places -/

/-- The animal is between `P(cat_sem)` and `V(cat_sem)`. -/
def seated : Point → Bool
  | .seat | .finish | .count | .countTest | .mark | .counted | .last | .signal | .ended => false
  | _ => true

/-- The turn is with the animal, and not in `turn`. -/
def turning : Point → Bool
  | .waitVars | .waitAssert | .waitSet | .giveTurn | .fault => true
  | _ => false

/-- The animal has returned its dish, and has not given the turn back or seen that others eat. -/
def leaving : Point → Bool
  | .released | .tryTurn | .tryTest | .reset => true
  | _ => false

/-- When it gives the turn back, no other animal is as far. -/
def ReleasesAlone (v : View number) (t : Animal number) : Prop :=
  v.pc t = .reset → ∀ u, u ≠ t → leaving (v.pc u) = false

instance (v : View number) (t : Animal number) : Decidable (ReleasesAlone v t) :=
  inferInstanceAs (Decidable (_ = _ → ∀ _, _ ≠ _ → _ = _))

private theorem seats_balanced (s me : Species) (k : Point) :
    (code number me k).Balanced (sem s) (fun k => me = s ∧ seated k) k := by
  cases k <;> cases me <;> cases s <;>
    simp [code, assign, test, Instr.Balanced, seated, varsMutex, turnMutex, allDone, sem]

private theorem turning_balanced (me : Species) {k : Point} (set : k ≠ .waitSet)
    (reset : k ≠ .reset) (assertion : k ≠ .claimAssert) :
    (code number me k).Balanced turnMutex (fun k => turning k) k := by
  cases k <;> first | contradiction | cases me <;>
    simp [code, assign, test, Instr.Balanced, turning, varsMutex, turnMutex, allDone, sem]

section

variable {v v' : View number} {t : Animal number}

/-- Who sits, and where the turn is. -/
structure Seats (v : View number) : Prop where
  natural : ∀ s, 0 ≤ v.count s
  seats : ∀ s, v.count (sem s) + tally (fun (t : Animal number) k => t.1 = s ∧ seated k) v.pc = 2
  turn : v.count turnMutex + tally (fun _ k => turning k) v.pc +
    (if v.shared.turn = none then 0 else 1) = 1
  leaving : ∀ t, leaving (v.pc t) → v.shared.turn ≠ none
  fine : ∀ t, v.pc t ≠ .fault

/-! ### What a step does -/

section

variable (taken : v.next (catmousesem number) t = some v')

include taken

private theorem leaving_next (now : leaving (v'.pc t)) :
    (leaving (v.pc t) ∧ v.pc t ≠ .reset) ∨ v.pc t = .clear := by
  have goes := pc_next taken
  cases here : v.pc t <;>
    simp only [here, catmousesem, code, assign, test, Instr.target, Option.some.injEq,
      reduceCtorEq] at goes <;>
    simp only [← goes, apply_ite leaving] at now <;>
    simp [leaving] at now ⊢

/-- An assertion fails only if what it asserts is false. -/
theorem fault_next (now : v'.pc t = .fault) :
    (v.pc t = .waitAssert ∧ v.shared.turn ≠ none) ∨
      (v.pc t = .claimAssert ∧ v.shared.dishesInUse = Dish.one.bit ||| Dish.two.bit) := by
  have goes := pc_next taken
  rw [now] at goes
  cases here : v.pc t <;>
    simp only [here, catmousesem, code, assign, test, Instr.target, Option.some.injEq,
      reduceCtorEq] at goes <;>
    split at goes <;> simp_all

/-- The turn changes only where it is set, handed on or reset. -/
theorem turn_next (set : v.pc t ≠ .waitSet) (switch : v.pc t ≠ .switch) (reset : v.pc t ≠ .reset) :
    v'.shared.turn = v.shared.turn := by
  cases moves_of_next taken with
  | quiet turn => exact turn
  | sets here => exact absurd here set
  | switches here => exact absurd here switch
  | resets here => exact absurd here reset
  | takes d here turn => exact turn
  | gives here turn => exact turn

end

private theorem holding_of_held {d : CInt} (holds : held v t = some d) : holding (v.pc t) := by
  by_contra empty
  simp [held, empty] at holds

private theorem seated_of_holding {k : Point} (holds : holding k) : seated k := by
  cases k <;> first | rfl | cases holds

/-- Who has a dish or has just returned it has a turn to give back. -/
theorem Apart.turn_of_holding (apart : Apart v) (holds : holding (v.pc t)) :
    v.shared.turn ≠ none := by
  intro idle
  have nothing := apart.held_of_idle idle t
  simp [held, holds] at nothing

namespace Seats

/-- An animal in its turn finds a free dish: its species has two seats. -/
theorem room (seats : Seats v) (table : Table v) (apart : Apart v) (inTurn : ClaimsInTurn v t)
    (here : v.pc t = .claimAssert) : v.shared.dishesInUse ≠ Dish.one.bit ||| Dish.two.bit := by
  intro full
  obtain ⟨turn, fair⟩ := inTurn here
  rw [table.dishes, mask_eq_full] at full
  have eater : ∀ d : Dish, ∃ u : Animal number, held v u = some d.bit ∧ u ≠ t ∧
      (u.1 = t.1 ∧ seated (v.pc u)) := by
    intro d
    obtain ⟨u, holds⟩ := of_decide_eq_true (full d)
    have place := holding_of_held holds
    refine ⟨u, holds, ?_, ?_, seated_of_holding place⟩
    · rintro rfl
      rw [here] at place
      cases place
    · exact Option.some.inj ((apart.turn fair u _ holds).symm.trans turn)
  obtain ⟨first, one, notFirst, sits⟩ := eater .one
  obtain ⟨second, two, notSecond, sits'⟩ := eater .two
  have different : first ≠ second := by
    rintro rfl
    cases bit_inj (Option.some.inj (one.symm.trans two))
  have three : 3 ≤ tally (fun (u : Animal number) k => u.1 = t.1 ∧ seated k) v.pc :=
    three_le_tally sits sits' (w := t) ⟨rfl, by rw [here]; rfl⟩ different notFirst notSecond
  have two := seats.seats t.1
  have natural := seats.natural (sem t.1)
  omega

/-- An animal that has got `turn_mutex` finds no turn set. -/
theorem idle (seats : Seats v) (turns : turning (v.pc t)) : v.shared.turn = none := by
  by_contra busy
  have mine : 0 < tally (fun (_ : Animal number) k => turning k) v.pc := tally_pos.mpr ⟨t, turns⟩
  have natural := seats.natural turnMutex
  have turn := seats.turn
  rw [if_neg busy] at turn
  omega

/-- There is one turn, wherever it is. -/
theorem turn_next (seats : Seats v) (table : Table v) (apart : Apart v) (inTurn : ClaimsInTurn v t)
    (taken : v.next (catmousesem number) t = some v') :
    v'.count turnMutex + tally (fun (_ : Animal number) k => turning k) v'.pc +
      (if v'.shared.turn = none then 0 else 1) = 1 := by
  have before := seats.turn
  have moved := fun k => tally_update (fun (_ : Animal number) k => turning k) v.pc t k
  by_cases set : v.pc t = .waitSet
  · have idle := seats.idle (t := t) (by rw [set]; rfl)
    have moved := moved .waitDone
    simp only [View.next, catmousesem, set] at taken
    cases taken
    simp only [set, turning, idle, if_true, Bool.false_eq_true, if_false, reduceCtorEq, View.move]
      at moved before ⊢
    omega
  by_cases reset : v.pc t = .reset
  · have busy := seats.leaving t (by rw [reset]; rfl)
    have moved := moved .giveTurn
    simp only [View.next, catmousesem, reset] at taken
    cases taken
    simp only [reset, turning, busy, if_true, Bool.false_eq_true, if_false, View.move]
      at moved before ⊢
    omega
  by_cases assertion : v.pc t = .claimAssert
  · have room := seats.room table apart inTurn assertion
    have same : tally (fun (_ : Animal number) k => turning k) (Function.update v.pc t .choose) =
        tally (fun (_ : Animal number) k => turning k) v.pc :=
      tally_update_same (by rw [assertion]; rfl)
    simp only [View.next, catmousesem, assertion, code, test, View.statement, decide_eq_true_eq,
      room, ne_eq, not_false_eq_true, if_true, Option.some.injEq] at taken
    subst taken
    simp only [View.move, same]
    exact before
  -- everywhere else `turn_mutex` and the animals have it between them
  have balanced :
      (catmousesem number t (v.pc t)).Balanced turnMutex (fun k => turning k) (v.pc t) :=
    turning_balanced t.1 set reset assertion
  rw [balance_next (p := fun _ k => turning k) balanced taken]
  by_cases switch : v.pc t = .switch
  · have busy := apart.turn_of_holding (t := t) (by rw [switch]; rfl)
    have handed : v'.shared.turn ≠ none := by
      simp only [View.next, catmousesem, switch] at taken
      cases taken
      simp
    rw [if_neg busy] at before
    rw [if_neg handed, before]
  · rw [Catsem.turn_next taken set switch reset, before]

private theorem next (seats : Seats v) (table : Table v) (apart : Apart v)
    (inTurn : ClaimsInTurn v t)
    (alone : ReleasesAlone v t) (taken : v.next (catmousesem number) t = some v') : Seats v' where
  natural s := natural_next (seats.natural s) taken
  seats s := (balance_next (seats_balanced s t.1 (v.pc t)) taken).trans (seats.seats s)
  turn := seats.turn_next table apart inTurn taken
  leaving u there := by
    intro idle
    -- nobody who is leaving is left behind without a turn
    have busy : v.shared.turn ≠ none := by
      by_cases me : u = t
      · subst me
        rcases leaving_next taken there with ⟨before, -⟩ | clear
        · exact seats.leaving u before
        · exact apart.turn_of_holding (by rw [clear]; rfl)
      · rw [(others_next taken me).1] at there
        exact seats.leaving u there
    cases moves_of_next taken with
    | quiet turn => exact busy (turn ▸ idle)
    | sets here turn => cases turn.symm.trans idle
    | switches here turn => cases turn.symm.trans idle
    | resets here turn =>
      by_cases me : u = t
      · subst me
        rcases leaving_next taken there with ⟨-, not⟩ | clear
        · exact not here
        · cases here.symm.trans clear
      · rw [(others_next taken me).1, alone here u me] at there
        cases there
    | takes d here turn => exact busy (turn ▸ idle)
    | gives here turn => exact busy (turn ▸ idle)
  fine u := by
    by_cases me : u = t
    · subst me
      intro now
      rcases fault_next taken now with ⟨here, busy⟩ | ⟨here, full⟩
      · exact busy (seats.idle (by rw [here]; rfl))
      · exact seats.room table apart inTurn here full
    · rw [(others_next taken me).1]
      exact seats.fine u

end Seats

end

/-! ### Runs -/

theorem Seats.start : Seats (start number).view where
  natural s := by
    rw [count_start]
    unfold initial
    split_ifs <;> decide
  seats s := by
    have nobody : tally (fun (t : Animal number) k => t.1 = s ∧ seated k)
        (Catsem.start number).view.pc = 0 :=
      tally_eq_zero.mpr fun t => by simp [Catsem.start, State.start, State.view, seated]
    rw [nobody]
    cases s <;> rfl
  turn := by
    have nobody : tally (fun (_ : Animal number) k => turning k)
        (Catsem.start number).view.pc = 0 :=
      tally_eq_zero.mpr fun t => by simp [Catsem.start, State.start, State.view, turning]
    rw [nobody]
    rfl
  leaving := fun _ there => nomatch there
  fine := fun _ here => nomatch here

variable {σ : State number} {history : List (State number × Flow.Label (Animal number))}

private theorem seats_of_run (run : Run (Step number) (start number) history σ)
    (inTurn : ∀ taken ∈ history, ∀ t, taken.2.thread = some t →
      ClaimsInTurn taken.1.view t ∧ ReleasesAlone taken.1.view t) : Seats σ.view := by
  have preserved : ∀ v t v', Table v ∧ Apart v ∧ Seats v → ClaimsInTurn v t ∧ ReleasesAlone v t →
      v.next (catmousesem number) t = some v' → Table v' ∧ Apart v' ∧ Seats v' := by
    rintro v t v' ⟨table, apart, seats⟩ ⟨inTurn, alone⟩ taken
    exact ⟨table.next taken, apart.next table inTurn taken,
      seats.next table apart inTurn alone taken⟩
  exact (invariant_of_run fits_start ⟨Table.start, Apart.start, Seats.start⟩ preserved run
    inTurn).2.2

/-- If all claims are made in turn and turns are given back alone, then no assertion fails and
at most one animal can take the turn. -/
theorem assertions_hold (run : Run (Step number) (start number) history σ)
    (inTurn : ∀ taken ∈ history, ∀ t, taken.2.thread = some t →
      ClaimsInTurn taken.1.view t ∧ ReleasesAlone taken.1.view t) :
    (∀ t, σ.pc t ≠ .fault) ∧ (σ.sys.objects.count turnMutex).toInt ≤ 1 := by
  have seats := seats_of_run run inTurn
  refine ⟨seats.fine, ?_⟩
  have turn : (σ.sys.objects.count turnMutex).toInt + _ + _ = (1 : Int) := seats.turn
  split at turn <;> omega

/-! ### Schedules -/

/-- `try_release_turn` of the last one to leave. -/
def givesBack (t : Animal number) : List (Flow.Label (Animal number)) :=
  calls t ++ [.statement t, .statement t] ++ calls t ++ calls t

/-- A cat eats and gives the turn back, and a mouse takes it. -/
def catThenMouse : List (Flow.Label (Animal population)) :=
  comes (cat 0) ++ waits (cat 0) ++ inside (cat 0) 5 ++ rises (cat 0) ++ givesBack (cat 0) ++
    comes (mouse 0) ++ waits (mouse 0) ++ inside (mouse 0) 5

theorem assertions_hold_catThenMouse :
    ∃ history σ, Run (Step population) (start population) history σ ∧
      history.map Prod.snd = catThenMouse.reverse ∧ σ.pc (mouse 0) = .eat ∧
      (∀ t, σ.pc t ≠ .fault) ∧ (σ.sys.objects.count turnMutex).toInt ≤ 1 := by
  obtain ⟨σ, reached, eats⟩ :
      ∃ σ, execute (checked
          (fun σ label => ∀ t, label.thread = some t →
            ClaimsInTurn (State.view σ) t ∧ ReleasesAlone (State.view σ) t)
          (State.next (catmousesem population))) (start population) catThenMouse = some σ ∧
        σ.pc (mouse 0) = .eat :=
    execute_check (by decide +kernel)
  obtain ⟨history, guarded, same⟩ := Run.of_execute reached
  obtain ⟨run, inTurn⟩ := guarded.of_checked
  exact ⟨history, σ, run, same, eats, assertions_hold run inTurn⟩

/-- Two mice eat; the second one gives the turn to the cats, and a cat claims a dish. -/
def mouseMouseCat : List (Flow.Label (Animal population)) :=
  comes (mouse 0) ++ waits (mouse 0) ++ inside (mouse 0) 5 ++ comes (mouse 1) ++
    inside (mouse 1) 6 ++ comes (cat 0) ++ calls (cat 0)

/-- Two cats eat; both return their dishes, and then both find that nobody eats. -/
def bothLast : List (Flow.Label (Animal population)) :=
  comes (cat 0) ++ waits (cat 0) ++ inside (cat 0) 5 ++ comes (cat 1) ++ inside (cat 1) 5 ++
    rises (cat 0) ++ rises (cat 1) ++ givesBack (cat 0) ++ givesBack (cat 1)

/-- After that a mouse takes the turn, and a cat does so too. -/
def twoTurns : List (Flow.Label (Animal population)) :=
  bothLast ++ comes (mouse 0) ++ waits (mouse 0) ++ calls (cat 0) ++ comes (cat 2) ++
    calls (cat 2) ++ calls (cat 2)

/-- After these steps the animal stands at an assertion, and its next step fails it. -/
def FailsAt (labels : List (Flow.Label (Animal population))) (t : Animal population)
    (here : Point) : Prop :=
  ∃ history σ σ', Run (Step population) (start population) history σ ∧
    history.map Prod.snd = labels.reverse ∧ σ.pc t = here ∧
    Step population σ (.statement t) σ' ∧ σ'.pc t = .fault

private theorem failsAt_of_execute {labels : List (Flow.Label (Animal population))}
    {t : Animal population} {here : Point}
    (reached : ∃ σ, execute (State.next (catmousesem population)) (start population) labels =
        some σ ∧ σ.pc t = here ∧
      ∃ σ',
        State.next (catmousesem population) σ (.statement t) = some σ' ∧ σ'.pc t = .fault) :
    FailsAt labels t here := by
  obtain ⟨σ, reached, stands, σ', taken, fails⟩ := reached
  obtain ⟨history, run, same⟩ := Run.of_execute reached
  exact ⟨history, σ, σ', run, same, stands, taken, fails⟩

/-- Both assertions can fail, and `turn_mutex` can be above 1. -/
theorem assertions_fail_mouseMouseCat_twoTurns :
    FailsAt mouseMouseCat (cat 0) .claimAssert ∧ FailsAt twoTurns (cat 2) .waitAssert ∧
    ∃ history σ, Run (Step population) (start population) history σ ∧
      history.map Prod.snd = bothLast.reverse ∧ σ.sys.objects.count turnMutex = 2 := by
  refine ⟨failsAt_of_execute ?_, failsAt_of_execute ?_, ?_⟩
  · exact execute_check (by decide +kernel)
  · exact execute_check (by decide +kernel)
  · exact Run.of_check (by decide +kernel)

end Os161.CatMouse.Catsem
