import Mathlib.Data.List.Perm.Basic

/-!
# Members moving between lists

At most one member is current; the others are ready, asleep or dead. The moves of a
scheduler rearrange the members without losing or doubling any, which is a permutation
of the four lists taken together.
-/
namespace Os161.Foundation

structure Roster (τ : Type*) where
  current : Option τ
  ready : List τ
  asleep : List τ
  dead : List τ

namespace Roster

variable {τ : Type*}

def live (r : Roster τ) : List τ := r.current.toList ++ r.ready ++ r.asleep

def members (r : Roster τ) : List τ := r.live ++ r.dead

/-! ### Moves -/

/-- The current member goes to the end of the ready list. -/
def yield (r : Roster τ) : Roster τ :=
  { r with current := none, ready := r.ready ++ r.current.toList }

def sleep (r : Roster τ) : Roster τ :=
  { r with current := none, asleep := r.asleep ++ r.current.toList }

def leave (r : Roster τ) : Roster τ :=
  { r with current := none, dead := r.dead ++ r.current.toList }

/-- The first ready member becomes current. -/
def dispatch (r : Roster τ) : Roster τ :=
  match r.ready with
  | [] => r
  | t :: rest => { r with current := some t, ready := rest }

def bury (r : Roster τ) : Roster τ := { r with dead := [] }

/-- The sleeping members that satisfy `p` become ready, in their order. -/
def wake (p : τ → Bool) (r : Roster τ) : Roster τ :=
  { r with ready := r.ready ++ r.asleep.filter p, asleep := r.asleep.filter fun t => !p t }

/-- The first sleeping member that satisfies `p` becomes ready. -/
def wakeFirst (p : τ → Bool) (r : Roster τ) : Roster τ :=
  { r with ready := r.ready ++ (r.asleep.find? p).toList, asleep := r.asleep.eraseP p }

def spawn (t : τ) (r : Roster τ) : Roster τ := { r with ready := r.ready ++ [t] }

/-! ### Nobody is lost -/

theorem live_yield (r : Roster τ) : r.yield.live.Perm r.live := by
  simp only [live, yield, Option.toList_none, List.nil_append]
  exact List.perm_append_comm.append_right r.asleep

theorem live_sleep (r : Roster τ) : r.sleep.live.Perm r.live := by
  simp only [live, sleep, Option.toList_none, List.nil_append]
  -- the current member moves from the front to the end
  rw [← List.append_assoc, List.append_assoc r.current.toList]
  exact List.perm_append_comm

/-- The one who leaves is counted among the dead. -/
theorem members_leave (r : Roster τ) : r.leave.members.Perm r.members := by
  simp only [members, live, leave, Option.toList_none, List.nil_append]
  rw [← List.append_assoc, List.append_assoc r.current.toList,
    List.append_assoc r.current.toList (r.ready ++ r.asleep)]
  exact List.perm_append_comm

theorem length_live_leave (r : Roster τ) :
    r.leave.live.length + r.current.toList.length = r.live.length := by
  simp only [live, leave, Option.toList_none, List.nil_append, List.length_append]
  omega

theorem live_dispatch (r : Roster τ) (idle : r.current = none) : r.dispatch.live.Perm r.live := by
  unfold dispatch
  split
  next => exact List.Perm.refl _
  next t rest ready => simp [live, idle, ready]

theorem members_bury (r : Roster τ) : r.bury.members = r.live := by
  simp [members, live, bury]

theorem live_wake (p : τ → Bool) (r : Roster τ) : (r.wake p).live.Perm r.live := by
  simp only [live, wake, List.append_assoc]
  exact (List.filter_append_perm p r.asleep).append_left r.ready |>.append_left _

theorem find_append_eraseP (p : τ → Bool) (l : List τ) :
    ((l.find? p).toList ++ l.eraseP p).Perm l := by
  induction l with
  | nil => exact List.Perm.refl _
  | cons a l ih =>
    cases found : p a with
    | true => simp [found]
    | false =>
      -- `a` stays in front, and the member found moves past it
      simp only [List.find?_cons, found, List.eraseP_cons, cond_false]
      exact List.perm_middle.trans (ih.cons a)

theorem live_wakeFirst (p : τ → Bool) (r : Roster τ) : (r.wakeFirst p).live.Perm r.live := by
  simp only [live, wakeFirst, List.append_assoc]
  exact (find_append_eraseP p r.asleep).append_left r.ready |>.append_left _

theorem live_spawn (t : τ) (r : Roster τ) : (r.spawn t).live.Perm (t :: r.live) := by
  simp only [live, spawn, List.append_assoc, List.singleton_append]
  exact (List.perm_middle.append_left _).trans List.perm_middle

/-- A move that keeps the dead and rearranges the others rearranges all. -/
theorem members_perm {r s : Roster τ} (live : s.live.Perm r.live) (dead : s.dead = r.dead) :
    s.members.Perm r.members := by
  unfold members
  rw [dead]
  exact live.append_right _

end Roster

end Os161.Foundation
