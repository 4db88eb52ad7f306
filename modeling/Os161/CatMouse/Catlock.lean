import Mathlib.Data.Fintype.Option
import Mathlib.Data.Fintype.Sigma
import Os161.Foundation.Tally
import Os161.Synch.Monitor

/-!
# Cats and mice with a lock, `asst1/catlock.c`

Cats and mice eat from two dishes, and never at the same time. An animal asks for a dish in
`petition_guardian` and gives it back in `return_dish_to_guardian`; all that they share is
touched under one lock. The functions for cats and mice are copies of each other. The
numbers of animals are parameters, few enough for the counters to be integers.
-/
namespace Os161.CatMouse

open Foundation Synch Synch.Monitor
open Function (update)

inductive Species where
  | cat
  | mouse
  deriving DecidableEq

def Species.other : Species → Species
  | cat => mouse
  | mouse => cat

instance : Fintype Species := ⟨{.cat, .mouse}, fun s => by cases s <;> simp⟩

/-- `NCATS` and `NMICE`, the same in `catlock.c` and `catsem.c`. -/
def population : Species → Nat
  | .cat => 6
  | .mouse => 2

/-- The thread of `catmouselock`, and one thread for each animal. -/
abbrev Thread (number : Species → Nat) := Option ((s : Species) × Fin (number s))

namespace Thread

variable {number : Species → Nat}

def driver : Thread number := none

def animal (s : Species) (n : Fin (number s)) : Thread number := some ⟨s, n⟩

def species : Thread number → Option Species
  | none => none
  | some a => some a.1

end Thread

namespace Catlock

/-! ### Constants and shared variables -/

abbrev NFOODBOWLS : Nat := 2

def MAX_WAIT : Nat := 2

def TURN_COUNT : Int := 2

abbrev Dish := Fin NFOODBOWLS

def lock : Ptr := 1

/-- `cat_turn` and `mouse_turn`. -/
def turn : Species → Ptr
  | .cat => 2
  | .mouse => 3

def emptyDish : Ptr := 4

def allDone : Ptr := 5

def lbolt : Ptr := 6

/-- The global variables; those for cats and those for mice are values of one function. -/
structure Shared where
  /-- 0 is `none`, the codes of the animals are `some`. -/
  dishes : Dish → Option Species
  done : Species → Int
  admitted : Species → Int
  left : Species → Int
  waiting : Species → Int
  whosTurn : Option Species
  /-- Kept for the record: how many have been admitted in all turns. -/
  admissions : Species → Nat

/-- Where a thread stands when it does not own the lock. -/
inductive Point where
  | unborn
  /-- It calls `petition_guardian`. -/
  | petitioning
  /-- In `cv_wait` in the loop of its turn logic. -/
  | turning
  /-- In `cv_wait` in the loop over `get_empty_dish`. -/
  | seeking
  /-- `petition_guardian` has returned. -/
  | served (d : Dish)
  /-- In `clocksleep`, with some seconds left; after it, it calls `return_dish_to_guardian`. -/
  | eating (d : Dish) (secs : Nat)
  | finished
  /-- The driver has forked this many threads. -/
  | forking (forked : Nat)
  /-- The driver is in `cv_wait`. -/
  | watching
  deriving DecidableEq

/-- The dish that a thread has and not yet given back. -/
abbrev Own := Option Dish

abbrev Code := Monitor.Code Point Shared Own

/-! ### The functions -/

def assign (f : Shared → Shared) (rest : Code) : Code := .act (fun g own => (f g, own)) rest

def test (p : Shared → Prop) [DecidablePred p] (yes no : Code) : Code :=
  .look fun g _ => if p g then yes else no

def assert (p : Shared → Prop) [DecidablePred p] (rest : Code) : Code := test p rest .fault

def clearTurnCounters (rest : Code) : Code :=
  assign (fun g => { g with admitted := update g.admitted .cat 0 }) <|
  assign (fun g => { g with admitted := update g.admitted .mouse 0 }) <|
  assign (fun g => { g with left := update g.left .cat 0 }) <|
  assign (fun g => { g with left := update g.left .mouse 0 }) rest

def checkFinished (number : Species → Nat) (me : Species) (rest : Code) : Code :=
  .holds <|
  assign (fun g => { g with done := update g.done me (g.done me + 1) }) <|
  test (fun g => g.done .cat = number .cat ∧ g.done .mouse = number .mouse)
    (.signal allDone rest) rest

/-- The loop of `get_empty_dish`; -1 is `none`. -/
def Shared.getEmptyDish (g : Shared) : Option Dish :=
  (List.finRange NFOODBOWLS).find? fun i => g.dishes i = none

/-- The loop of `cat_turn_logic`, what follows it, and then `rest`. -/
def turnLoop (me : Species) (rest : Code) : Code :=
  test (fun g => g.whosTurn ≠ some me ∨ TURN_COUNT ≤ g.admitted me) (.wait (turn me) .turning) <|
  assign (fun g => { g with waiting := update g.waiting me (g.waiting me - 1) }) <|
  assign (fun g => { g with
    admitted := update g.admitted me (g.admitted me + 1)
    admissions := update g.admissions me (g.admissions me + 1) }) <|
  assert (fun g => g.admitted me ≤ TURN_COUNT) <|
  assert (fun g => 0 ≤ g.waiting me) rest

def turnLogic (me : Species) (rest : Code) : Code :=
  assign (fun g => { g with waiting := update g.waiting me (g.waiting me + 1) }) <|
  turnLoop me rest

def catTurnLogic : Code → Code := turnLogic .cat

def mouseTurnLogic : Code → Code := turnLogic .mouse

def endTurnLogic (me : Species) (rest : Code) : Code :=
  assign (fun g => { g with left := update g.left me (g.left me + 1) }) <|
  test (fun g => g.left me < g.admitted me) rest <|
  test (fun g => g.left me < TURN_COUNT ∧ 0 < g.waiting me) rest <|
  test (fun g => g.waiting me.other ≠ 0)
    (assign (fun g => { g with whosTurn := some me.other }) <|
      .broadcast (turn me.other) <| clearTurnCounters rest) <|
  test (fun g => g.waiting me ≠ 0)
    (.broadcast (turn me) <| clearTurnCounters rest)
    (assign (fun g => { g with whosTurn := none }) <| clearTurnCounters rest)

def catEndTurnLogic : Code → Code := endTurnLogic .cat

def mouseEndTurnLogic : Code → Code := endTurnLogic .mouse

/-- `petition_guardian` from its call of `get_empty_dish` on. -/
def findDish (me : Species) : Code :=
  .holds <| .look fun g _ =>
    match g.getEmptyDish with
    | none => .wait emptyDish .seeking
    | some d =>
      .act (fun g _ => ({ g with dishes := update g.dishes d (some me) }, some d)) <|
      .release (.served d)

/-- `petition_guardian` with the lock. -/
def petitionGuardian (me : Species) : Code :=
  assign (fun g => { g with whosTurn := if g.whosTurn = none then some me else g.whosTurn }) <|
  match me with
  | .cat => catTurnLogic (findDish me)
  | .mouse => mouseTurnLogic (findDish me)

/-- `return_dish_to_guardian` with the lock. -/
def returnDishToGuardian (number : Species → Nat) (me : Species) (d : Dish) : Code :=
  .act (fun g _ => ({ g with dishes := update g.dishes d none }, none)) <|
  let rest := .signal emptyDish <| checkFinished number me <| .release .finished
  match me with
  | .cat => catEndTurnLogic rest
  | .mouse => mouseEndTurnLogic rest

/-! ### The threads -/

/-- `catlock` and `mouselock`: what the animal does under the lock. -/
def animalCode (number : Species → Nat) (me : Species) : Point → Code
  | .petitioning => petitionGuardian me
  | .turning => turnLoop me (findDish me)
  | .seeking => findDish me
  | .eating d _ => returnDishToGuardian number me d
  | _ => .fault

/-- And without it: `eat` sleeps for `random() % MAX_WAIT` seconds. -/
def animalOutside {τ : Type} : Point → Nat → Outside τ Point
  | .petitioning, _ => .enter
  | .served d, random => .move (.eating d (random % MAX_WAIT))
  | .eating d (secs + 1), _ => .nap lbolt (.eating d secs)
  | .eating _ 0, _ => .enter
  | _, _ => .stop

/-- `catmouselock` under the lock. It frees what it shares with the others at its end, and the
lock with it. -/
def driverCode : Point → Code
  | .forking _ => .wait allDone .watching
  | .watching => .halt
  | _ => .fault

/-- And without it: it forks the cats and then the mice. -/
def driverOutside (number : Species → Nat) : Point → Outside (Thread number) Point
  | .forking k =>
    if cat : k < number .cat then .fork (.animal .cat ⟨k, cat⟩) (.forking (k + 1))
    else if mouse : k - number .cat < number .mouse then
      .fork (.animal .mouse ⟨k - number .cat, mouse⟩) (.forking (k + 1))
    else .enter
  | _ => .stop

def catmouselock (number : Species → Nat) : Program (Thread number) Point Shared Own where
  lock := lock
  code
    | none => driverCode
    | some a => animalCode number a.1
  outside
    | none => fun label _ => driverOutside number label
    | some _ => animalOutside
  unborn := .unborn
  born := fun _ => .petitioning

def globalInit : Shared where
  dishes := fun _ => none
  done := fun _ => 0
  admitted := fun _ => 0
  left := fun _ => 0
  waiting := fun _ => 0
  whosTurn := none
  admissions := fun _ => 0

abbrev State (number : Species → Nat) := Monitor.State (Thread number) Point Shared Own

abbrev Step (number : Species → Nat) :
    State number → Monitor.Label (Thread number) → State number → Prop :=
  Monitor.State.Step (catmouselock number)

/-- The driver has initialised the variables and forked nobody. -/
def start (number : Species → Nat) (initial : Ptr → CInt) : State number :=
  Monitor.State.start initial globalInit (fun _ => none) fun
    | none => .forking 0
    | some _ => .unborn

end Catlock

end Os161.CatMouse
