import Os161.CatMouse.Catlock
import Os161.Synch.Flow

/-!
# Cats and mice with semaphores, `asst1/catsem.c`

At most two animals of a species are past `cat_sem` or `mouse_sem`. They go on if it is the turn
of their species, and otherwise get the turn through `turn_mutex`; the last one to leave gives
it back. All that they share is touched under `vars_mutex`. `catsem` and `mousesem` are copies
of each other. An animal that has not been forked is one that has not been scheduled.
-/
namespace Os161.CatMouse.Catsem

open Foundation Synch Synch.Flow

abbrev Animal (number : Species → Nat) := (s : Species) × Fin (number s)

/-! ### Shared and local variables -/

def varsMutex : Ptr := 1

def turnMutex : Ptr := 2

/-- `cat_sem` and `mouse_sem`. -/
def sem : Species → Ptr
  | .cat => 3
  | .mouse => 4

def allDone : Ptr := 5

def lbolt : Ptr := 6

inductive Dish where
  | one
  | two
  deriving DecidableEq

instance : Fintype Dish := ⟨{.one, .two}, fun d => by cases d <;> simp⟩

/-- `DISH1` and `DISH2`. -/
def Dish.bit : Dish → CInt
  | one => 1
  | two => 2

structure Shared where
  /-- 0 is `none`, the codes of the animals are `some`. -/
  turn : Option Species
  dishesInUse : CInt
  done : Species → Nat
  gone : Species → Nat
  /-- Kept for the record: whether `turn` was last set by `claim_dish`. -/
  handed : Bool

structure Own where
  /-- What `is_my_turn` has returned. -/
  isMyTurn : Bool
  myDish : CInt
  isFinished : Bool

/-- The statement that an animal executes next. -/
inductive Point where
  /-- `P(cat_sem)` -/
  | seat
  -- `is_my_turn`, and the test of the loop
  | ask
  | look
  | looked
  | loop
  -- `wait_turn`
  | wait
  | waitVars
  | waitAssert
  | waitSet
  | waitDone
  -- `claim_dish`
  | claim
  | claimAssert
  | choose
  | goes (d : Dish)
  | uses (d : Dish)
  | handOver
  | switch
  | claimDone
  | eat
  -- `release_dish`
  | release
  | clear
  | released
  -- `try_release_turn`
  | tryTurn
  | tryTest
  | reset
  | giveTurn
  | tryDone
  /-- `V(cat_sem)` -/
  | unseat
  -- `check_finished`
  | finish
  | count
  | countTest
  | mark
  | counted
  | last
  | signal
  | ended
  /-- An assertion has failed. -/
  | fault
  deriving DecidableEq

/-! ### The program -/

def assign (f : Shared → Shared) (next : Point) : Instr Point Shared Own :=
  .act (fun g own => (f g, own)) next

def test (p : Shared → Prop) [DecidablePred p] (yes no : Point) : Instr Point Shared Own :=
  .test (fun g _ => p g) yes no

/-- `catsem` and `mousesem`. -/
def code (number : Species → Nat) (me : Species) : Point → Instr Point Shared Own
  | .seat => .P (sem me) .ask
  | .ask => .P varsMutex .look
  | .look => .act (fun g own => (g, { own with isMyTurn := g.turn = some me })) .looked
  | .looked => .V varsMutex .loop
  | .loop => .test (fun _ own => own.isMyTurn) .claim .wait
  | .wait => .P turnMutex .waitVars
  | .waitVars => .P varsMutex .waitAssert
  | .waitAssert => test (fun g => g.turn = none) .waitSet .fault
  | .waitSet => assign (fun g => { g with turn := some me, handed := false }) .waitDone
  | .waitDone => .V varsMutex .ask
  | .claim => .P varsMutex .claimAssert
  | .claimAssert => test (fun g => g.dishesInUse ≠ Dish.one.bit ||| Dish.two.bit) .choose .fault
  | .choose => test (fun g => g.dishesInUse &&& Dish.one.bit = 0) (.goes .one) (.goes .two)
  | .goes d =>
    assign (fun g => { g with gone := Function.update g.gone me (g.gone me + 1) }) (.uses d)
  -- and `my_dish = DISH1`, which nobody else sees
  | .uses d => .act (fun g own => ({ g with dishesInUse := g.dishesInUse ||| d.bit },
      { own with myDish := d.bit })) .handOver
  | .handOver => test (fun g => g.gone me % 3 = 0 ∨ g.gone me = number me) .switch .claimDone
  | .switch => assign (fun g => { g with turn := some me.other, handed := true }) .claimDone
  | .claimDone => .V varsMutex .eat
  | .eat => .nap lbolt .release
  | .release => .P varsMutex .clear
  | .clear =>
    .act (fun g own => ({ g with dishesInUse := g.dishesInUse &&& ~~~ own.myDish }, own)) .released
  | .released => .V varsMutex .tryTurn
  | .tryTurn => .P varsMutex .tryTest
  | .tryTest => test (fun g => g.dishesInUse = 0) .reset .tryDone
  | .reset => assign (fun g => { g with turn := none, handed := false }) .giveTurn
  | .giveTurn => .V turnMutex .tryDone
  | .tryDone => .V varsMutex .unseat
  | .unseat => .V (sem me) .finish
  | .finish => .P varsMutex .count
  | .count =>
    assign (fun g => { g with done := Function.update g.done me (g.done me + 1) }) .countTest
  | .countTest => test (fun g => g.done .cat = number .cat ∧ g.done .mouse = number .mouse)
      .mark .counted
  | .mark => .act (fun g own => (g, { own with isFinished := true })) .counted
  | .counted => .V varsMutex .last
  | .last => .test (fun _ own => own.isFinished) .signal .ended
  | .signal => .V allDone .ended
  | .ended | .fault => .stop

def catmousesem (number : Species → Nat) : Program (Animal number) Point Shared Own :=
  fun t => code number t.1

def globalInit : Shared where
  turn := none
  dishesInUse := 0
  done := fun _ => 0
  gone := fun _ => 0
  handed := false

def initial (s : Ptr) : CInt :=
  if s = varsMutex ∨ s = turnMutex then 1 else if s = sem .cat ∨ s = sem .mouse then 2 else 0

abbrev State (number : Species → Nat) := Flow.State (Animal number) Point Shared Own

abbrev View (number : Species → Nat) := Flow.View (Animal number) Point Shared Own

abbrev Step (number : Species → Nat) :
    State number → Flow.Label (Animal number) → State number → Prop :=
  Flow.State.Step (catmousesem number)

def start (number : Species → Nat) : State number :=
  Flow.State.start initial globalInit (fun _ => ⟨false, 0, false⟩) fun _ => .seat

end Os161.CatMouse.Catsem
