import Os161.CatMouse.Turns

/-!
# The guardian of the dishes

Every piece of code of `catlock.c` restores the invariant, whichever way its tests go. So
cats and mice never eat together, and they never all wait for each other.
-/
namespace Os161.CatMouse.Catlock

open Foundation Synch Synch.Monitor
open Function (update update_of_ne update_self)

variable {number : Species → Nat}

/-! ### Statements and tests -/

section

variable {S : Spec (Thread number) Point Place Shared Own} {t : Thread number} {v : View number}

theorem wp_assign {f : Shared → Shared} {rest : Code} (always : S.always t (assign f rest) v)
    (wp : S.wp t rest { v with shared := f v.shared }) : S.wp t (assign f rest) v :=
  ⟨always, fun _ => by simpa [View.act] using wp⟩

theorem wp_test {p : Shared → Prop} [DecidablePred p] {yes no : Code}
    (always : S.always t (test p yes no) v) (left : p v.shared → S.wp t yes v)
    (right : ¬ p v.shared → S.wp t no v) : S.wp t (test p yes no) v := by
  refine ⟨always, fun _ => ?_⟩
  by_cases holds : p v.shared
  · simpa only [holds, if_true] using left holds
  · simpa only [holds, if_false] using right holds

private theorem wp_assert {p : Shared → Prop} [DecidablePred p] {rest : Code}
    (always : S.always t (assert p rest) v) (holds : p v.shared) (wp : S.wp t rest v) :
    S.wp t (assert p rest) v :=
  wp_test always (fun _ => wp) fun fails => absurd holds fails

end

/-! ### The specification -/

/-- What holds while `t` owns the lock and has `code` to execute. A turn can have sleepers only
before the broadcast that comes next. -/
structure Steady (t : Thread number) (code : Code) (v : View number) : Prop where
  safe : Safe v
  holds : ∀ u d, u ≠ t → (v.own u = some d ↔ v.place u = .inside d)
  calm : Calm v ∨ ∃ s rest, code = .broadcast (turn s) rest ∧ v.shared.whosTurn = some s

theorem Busy.steady {t : Thread number} {v : View number} (busy : Busy t v) (code : Code) :
    Steady t code v :=
  ⟨busy.safe, busy.holds, .inl busy.calm⟩

/-- Statements that leave dishes, places and sleepers alone, in a turn without sleepers. -/
theorem Busy.steady_of_same {t : Thread number} {v v' : View number} {code : Code}
    (busy : Busy t v)
    (woken : ∀ s, v.shared.whosTurn = some s → ∀ u, (u, turn s) ∉ v.asleep)
    (dishes : v'.shared.dishes = v.shared.dishes) (own : v'.own = v.own)
    (place : v'.place = v.place) (asleep : v'.asleep = v.asleep)
    (turn : v'.shared.whosTurn = v.shared.whosTurn) : Steady t code v' := by
  refine Busy.steady (busy.of_same dishes own (fun w _ => congrFun place w) ?_) code
  intro u s member here
  exact absurd (asleep ▸ member) (woken s (turn ▸ here) u)

/-- Where threads enter. Nobody waits for a dish. -/
def entry : Thread number → Point → Prop
  | none, .forking _ | none, .watching => True
  | some _, .petitioning | some _, .turning | some _, .eating _ _ => True
  | _, _ => False

def spec (number : Species → Nat) : Spec (Thread number) Point Place Shared Own where
  program := catmouselock number
  kind := Point.place
  entry := entry
  rest := Rest
  always := Steady
  given := fun _ _ _ => True

/-! ### The pieces of code

What they have to show is left open: whatever is asked of the states of a piece of code follows
if it follows from `Steady` and the admissions so far, and it remains what is asked of the
states in which the lock is free again. -/

/-- In the code of `t` nothing is asked beyond `Steady`, with these admissions. -/
def Covers (extra : Extra (Thread number) Point Place Shared Own) (t : Thread number)
    (admissions : Species → Nat) : Prop :=
  ∀ code v, Steady t code v → v.shared.admissions = admissions → extra.always t code v

def AllDone (v : View number) : Prop :=
  v.shared.done .cat = number .cat ∧ v.shared.done .mouse = number .mouse

section

variable {extra : Extra (Thread number) Point Place Shared Own} {t : Thread number} {me : Species}
  {v : View number}

/-- The loop of the turn logic and all that follows, for a thread that is counted as waiting. -/
theorem wp_turnLoop (mine : t.species = some me) (entry : (spec number).entry t .turning)
    (rest : Rest (v.arrive t .waiting)) (awake : ∀ c, (t, c) ∉ v.asleep)
    (before : Covers extra t v.shared.admissions)
    (sleep : v.shared.whosTurn ≠ some me ∨ TURN_COUNT ≤ v.shared.admitted me →
      extra.rest ((v.arrive t .waiting).sleep t (turn me)))
    (after : v.shared.whosTurn = some me → v.shared.admitted me < TURN_COUNT →
      Covers extra t (update v.shared.admissions me (v.shared.admissions me + 1)))
    (enter : v.shared.whosTurn = some me → v.shared.admitted me < TURN_COUNT →
      ∀ d, v.shared.dishes d = none → extra.rest (enters (v.arrive t .waiting) t me d)) :
    ((spec number).only extra).wp t (turnLoop me (findDish me)) v := by
  have busy : Busy t v := by
    refine (rest.busy t).of_same rfl rfl (fun w other => ?_) rest.calm
    simp [View.arrive, update_of_ne other]
  refine wp_test (before _ _ (busy.steady _) rfl) (fun blocked => ?_) (fun free => ?_)
  · exact ⟨before _ _ (busy.steady _) rfl, entry, fun _ => sleep blocked⟩
  simp only [not_or, not_not, not_le] at free
  obtain ⟨now, room⟩ := free
  have woken : ∀ s, v.shared.whosTurn = some s → ∀ u, (u, turn s) ∉ v.asleep := by
    intro s here u asleep
    cases now.symm.trans here
    exact absurd (rest.calm u me asleep now) (not_le.mpr room)
  have after := after now room
  have some_waits : 0 < waits (v.arrive t .waiting).place me :=
    count_pos mine (update_self ..)
  have counted : v.shared.waiting me = waits (v.arrive t .waiting).place me := rest.waiting me
  obtain ⟨d, found⟩ := rest.exists_emptyDish now room
  have free := getEmptyDish_some found
  have final := rest.enter mine (update_self ..) awake now room free
  have asked := enter now room d free
  simp only [enters, View.arrive, Function.update_idem] at final asked found
  refine wp_assign (before _ _ (busy.steady_of_same woken rfl rfl rfl rfl rfl) rfl) ?_
  refine wp_assign (before _ _ (busy.steady_of_same woken rfl rfl rfl rfl rfl) rfl) ?_
  refine wp_assert (after _ _ (busy.steady_of_same woken rfl rfl rfl rfl rfl) rfl) ?_ ?_
  · simp only [update_self]
    omega
  refine wp_assert (after _ _ (busy.steady_of_same woken rfl rfl rfl rfl rfl) rfl) ?_ ?_
  · simp only [update_self]
    omega
  refine ⟨after _ _ (busy.steady_of_same woken rfl rfl rfl rfl rfl) rfl, fun _ => ?_⟩
  refine ⟨after _ _ (busy.steady_of_same woken rfl rfl rfl rfl rfl) rfl, fun _ => ?_⟩
  have still : Shared.getEmptyDish { v.shared with
      waiting := update v.shared.waiting me (v.shared.waiting me - 1)
      admitted := update v.shared.admitted me (v.shared.admitted me + 1)
      admissions := update v.shared.admissions me (v.shared.admissions me + 1) } =
      some d := found
  simp only [still]
  refine ⟨after _ _ (busy.steady_of_same woken rfl rfl rfl rfl rfl) rfl, fun _ => ?_⟩
  refine ⟨after _ _ (Busy.steady ?_ _) rfl, fun _ => asked⟩
  refine (final.busy t).of_same rfl rfl (fun w other => ?_) final.calm
  simp [View.act, update_of_ne other]

private theorem petitionGuardian_eq (me : Species) : petitionGuardian me =
    assign (fun g => { g with whosTurn := if g.whosTurn = none then some me else g.whosTurn })
      (turnLogic me (findDish me)) := by
  cases me <;> rfl

private theorem returnDishToGuardian_eq (me : Species) (d : Dish) :
    returnDishToGuardian number me d =
    .act (fun g _ => ({ g with dishes := update g.dishes d none }, none))
      (endTurnLogic me (.signal emptyDish <| checkFinished number me <| .release .finished)) := by
  cases me <;> rfl

private theorem wp_petitionGuardian (mine : t.species = some me)
    (entry : (spec number).entry t .turning)
    (rest : Rest v) (out : v.place t = .out) (awake : ∀ c, (t, c) ∉ v.asleep)
    (before : Covers extra t v.shared.admissions)
    (sleep : (asks v t me).shared.whosTurn ≠ some me ∨ TURN_COUNT ≤ v.shared.admitted me →
      extra.rest ((asks v t me).sleep t (turn me)))
    (after : (asks v t me).shared.whosTurn = some me → v.shared.admitted me < TURN_COUNT →
      Covers extra t (update v.shared.admissions me (v.shared.admissions me + 1)))
    (enter : (asks v t me).shared.whosTurn = some me → v.shared.admitted me < TURN_COUNT →
      ∀ d, v.shared.dishes d = none → extra.rest (enters (asks v t me) t me d)) :
    ((spec number).only extra).wp t (petitionGuardian me) v := by
  have asked := rest.ask mine out awake
  rw [petitionGuardian_eq]
  refine wp_assign (before _ _ ((rest.busy t).steady _) rfl) ?_
  refine wp_assign (before _ _ (Busy.steady ?_ _) rfl)
    (wp_turnLoop mine entry asked awake before sleep after enter)
  exact (rest.busy t).of_same rfl rfl (fun _ _ => rfl) asked.calm

private theorem wakeOne_of_none {c : Ptr} (nobody : ∀ u, (u, c) ∉ v.asleep) : v.wakeOne c = v := by
  have same : v.asleep.eraseP (fun e => e.2 = c) = v.asleep :=
    List.eraseP_of_forall_not fun e member here =>
      nobody e.1 (by simpa [← of_decide_eq_true here] using member)
  simp [View.wakeOne, same]

/-- `return_dish_to_guardian` from its call of `cv_signal` on. -/
theorem wp_leave {w : View number} (busy : Busy t v) (nobody : ∀ u, (u, emptyDish) ∉ v.asleep)
    (covers : Covers extra t v.shared.admissions)
    (last : { v with shared := { v.shared with
      done := update v.shared.done me (v.shared.done me + 1) } }.arrive t .finished = w)
    (signal : AllDone w → ∀ rest u, u.asleep = w.asleep → extra.given t (.signal allDone rest) u →
      extra.rest (w.wakeOne allDone))
    (release : ¬ AllDone w → extra.rest w) :
    ((spec number).only extra).wp t
      (.signal emptyDish <| checkFinished number me <| .release .finished) v := by
  subst last
  have counted : Busy t { v with shared := { v.shared with
      done := update v.shared.done me (v.shared.done me + 1) } } :=
    busy.of_same rfl rfl (fun _ _ => rfl) busy.calm
  have fewer : ∀ e ∈ v.asleep.eraseP (fun e => e.2 = allDone), e ∈ v.asleep :=
    fun e member => List.mem_of_mem_eraseP member
  refine ⟨covers _ _ (busy.steady _) rfl, fun _ => ?_⟩
  rw [wakeOne_of_none nobody]
  refine ⟨covers _ _ (busy.steady _) rfl, fun _ => ?_⟩
  refine wp_assign (covers _ _ (busy.steady _) rfl) ?_
  refine wp_test (covers _ _ (counted.steady _) rfl) (fun all => ?_) (fun more => ?_)
  · refine ⟨covers _ _ (counted.steady _) rfl, fun given => ?_⟩
    refine ⟨covers _ _ ((counted.wake fewer).steady _) rfl, fun _ => ?_⟩
    refine signal all _ _ ?_ given
    rfl
  · exact ⟨covers _ _ (counted.steady _) rfl, fun _ => release more⟩

private theorem update_cat_mouse (f : Species → Int) :
    update (update f .cat 0) .mouse 0 = fun _ => 0 := by
  funext s
  cases s <;> rfl

/-- `clear_turn_counters`, when the turn has no sleepers. -/
theorem wp_clearTurnCounters {rest : Code} (busy : Busy t v)
    (woken : ∀ s, v.shared.whosTurn = some s → ∀ u, (u, turn s) ∉ v.asleep)
    (covers : Covers extra t v.shared.admissions)
    (wp : Busy t { v with shared := { v.shared with admitted := fun _ => 0, left := fun _ => 0 } } →
      ((spec number).only extra).wp t rest { v with
        shared := { v.shared with admitted := fun _ => 0, left := fun _ => 0 } }) :
    ((spec number).only extra).wp t (clearTurnCounters rest) v := by
  refine wp_assign (covers _ _ (busy.steady_of_same woken rfl rfl rfl rfl rfl) rfl) ?_
  refine wp_assign (covers _ _ (busy.steady_of_same woken rfl rfl rfl rfl rfl) rfl) ?_
  refine wp_assign (covers _ _ (busy.steady_of_same woken rfl rfl rfl rfl rfl) rfl) ?_
  refine wp_assign (covers _ _ (busy.steady_of_same woken rfl rfl rfl rfl rfl) rfl) ?_
  simp only [update_cat_mouse]
  refine wp (busy.of_same rfl rfl (fun _ _ => rfl) fun u s member here => ?_)
  exact absurd member (woken s here u)

private theorem not_mem_wakeAll {c : Ptr} (u : Thread number) : (u, c) ∉ (v.wakeAll c).asleep := by
  simp [View.wakeAll]

private theorem busy_give (rest : Rest v) {d : Dish} (inside : v.place t = .inside d) :
    Busy t (v.act t fun g _ => ({ g with dishes := update g.dishes d none }, none)) := by
  have own := (rest.holds t d).mpr inside
  have before : ∀ u e, update v.own t none u = some e → v.own u = some e := by
    intro u e holds
    by_cases me : u = t
    · subst me
      simp at holds
    · rwa [update_of_ne me] at holds
  refine ⟨⟨rest.holders.give own, ?_⟩, ?_, rest.calm⟩
  · intro u w e f s r first second
    exact rest.safe.together u w e f s r (before u e first) (before w f second)
  · intro u e other
    simp only [View.act, update_of_ne other]
    exact rest.holds u e

private theorem wp_returnDishToGuardian (mine : t.species = some me) (rest : Rest v) {d : Dish}
    (inside : v.place t = .inside d) (covers : Covers extra t v.shared.admissions)
    (signal : ∀ w, Finishes v t me d w → AllDone w → ∀ rest u, u.asleep = w.asleep →
      extra.given t (.signal allDone rest) u → extra.rest (w.wakeOne allDone))
    (release : ∀ w, Finishes v t me d w → ¬ AllDone w → extra.rest w) :
    ((spec number).only extra).wp t (returnDishToGuardian number me d) v := by
  have now := rest.whosTurn_of_own ((rest.holds t d).mpr inside) mine
  have given := busy_give rest inside
  have nobody := rest.not_asleep_emptyDish
  rw [returnDishToGuardian_eq]
  refine ⟨covers _ _ ((rest.busy t).steady _) rfl, fun _ => ?_⟩
  refine wp_assign (covers _ _ (given.steady _) rfl) ?_
  -- the tests of the end of the turn
  let gone : View number := { v.act t (fun g _ =>
      ({ g with dishes := update g.dishes d none }, none)) with
    shared := { v.shared with
      dishes := update v.shared.dishes d none
      left := update v.shared.left me (v.shared.left me + 1) } }
  have left : gone.shared.left me = v.shared.left me + 1 := update_self ..
  have busy : Busy t gone := given.of_same rfl rfl (fun _ _ => rfl) given.calm
  have covered : ∀ code, extra.always t code gone := fun code => covers _ _ (busy.steady code) rfl
  refine wp_test (v := gone) (covered _) (fun more => ?_) (fun last => ?_)
  · have finishes : Finishes v t me d _ := .leaves (.inl (left ▸ more))
    exact wp_leave busy nobody covers rfl (signal _ finishes) (release _ finishes)
  refine wp_test (v := gone) (covered _) (fun more => ?_) (fun full => ?_)
  · have finishes : Finishes v t me d _ := .leaves (.inr (left ▸ more))
    exact wp_leave busy nobody covers rfl (signal _ finishes) (release _ finishes)
  rw [left] at last
  refine wp_test (v := gone) (covered _) (fun wanted => ?_) (fun unwanted => ?_)
  · -- the turn goes to the others
    refine wp_assign (covered _) ⟨covers _ _ ⟨⟨busy.safe.holders, busy.safe.together⟩, busy.holds,
      .inr ⟨_, _, rfl, rfl⟩⟩ rfl, fun _ => ?_⟩
    have woken : ∀ s, some me.other = some s →
        ∀ u, (u, turn s) ∉ (v.wakeAll (turn me.other)).asleep := by
      rintro _ ⟨⟩ u
      exact not_mem_wakeAll u
    have finishes : Finishes v t me d
        (closes v t me d (some me.other) (v.wakeAll (turn me.other)).asleep) := by
      refine .closes last nofun ?_ (fun _ => rfl) List.filter_sublist woken
      rintro _ ⟨⟩
      exact wanted
    refine wp_clearTurnCounters ?_ woken covers fun busy => ?_
    · exact busy.of_same rfl rfl (fun _ _ => rfl) fun u s member here =>
        absurd member (woken s here u)
    · exact wp_leave busy (fun u member => nobody u (List.mem_of_mem_filter member)) covers rfl
        (signal _ finishes) (release _ finishes)
  refine wp_test (v := gone) (covered _) (fun wanted => ?_) (fun unwanted' => ?_)
  · -- it is the next turn of the same species
    refine ⟨covered _, fun _ => ?_⟩
    have woken : ∀ s, v.shared.whosTurn = some s →
        ∀ u, (u, turn s) ∉ (v.wakeAll (turn me)).asleep := by
      intro s here u
      cases now.symm.trans here
      exact not_mem_wakeAll u
    have finishes : Finishes v t me d
        (closes v t me d v.shared.whosTurn (v.wakeAll (turn me)).asleep) := by
      refine .closes last ?_ ?_ (fun others => absurd others unwanted) List.filter_sublist woken
      · exact fun idle => absurd (now.symm.trans idle) (by simp)
      · intro s here
        cases now.symm.trans here
        exact wanted
    refine wp_clearTurnCounters (busy.wake fun _ => List.mem_of_mem_filter) woken covers
      fun busy => ?_
    exact wp_leave busy (fun u member => nobody u (List.mem_of_mem_filter member)) covers rfl
      (signal _ finishes) (release _ finishes)
  -- nobody waits
  have finishes : Finishes v t me d (closes v t me d none v.asleep) := by
    refine .closes last (fun _ s => ?_) nofun (fun others => absurd others unwanted)
      (List.Sublist.refl _) nofun
    rcases Species.eq_or_eq_other s me with rfl | rfl
    · exact not_not.mp unwanted'
    · exact not_not.mp unwanted
  refine wp_assign (covered _) (wp_clearTurnCounters ?_ nofun covers fun busy => ?_)
  · exact busy.of_same rfl rfl (fun _ _ => rfl) nofun
  · exact wp_leave busy nobody covers rfl (signal _ finishes) (release _ finishes)

end

/-! ### The whole program -/

/-- What a thread without the lock may do next. -/
def Goes (t : Thread number) (label : Point) : Outside (Thread number) Point → Prop
  | .enter => entry t label
  | .move next | .nap _ next | .fork _ next => next.place = label.place
  | .stop => True

private theorem goes_of_outside {t : Thread number} {label : Point} {random : Nat}
    {next : Outside (Thread number) Point}
    (outside : (catmouselock number).outside t label random = next) : Goes t label next := by
  subst outside
  rcases t with _ | a
  · simp only [catmouselock]
    fun_cases driverOutside number label <;> trivial
  · simp only [catmouselock]
    fun_cases animalOutside (τ := Thread number) label random <;> trivial

/-- What is to be shown of the pieces of code: that each of the things they come to keeps what
is asked of the states in which the lock is free. -/
structure Kept (extra : Extra (Thread number) Point Place Shared Own) : Prop where
  covers : ∀ v t me, Rest v → extra.rest v → t.species = some me →
    Covers extra t v.shared.admissions
  asks : ∀ v t me, Rest v → extra.rest v → t.species = some me → v.place t = .out →
    (∀ c, (t, c) ∉ v.asleep) → extra.rest (asks v t me)
  sleeps : ∀ v t me, Rest v → extra.rest v → t.species = some me → v.place t = .waiting →
    (v.shared.whosTurn ≠ some me ∨ TURN_COUNT ≤ v.shared.admitted me) →
    extra.rest (v.sleep t (turn me))
  admits : ∀ v t me, Rest v → extra.rest v → t.species = some me → v.place t = .waiting →
    v.shared.whosTurn = some me → v.shared.admitted me < TURN_COUNT →
    Covers extra t (update v.shared.admissions me (v.shared.admissions me + 1))
  enters : ∀ v t me d, Rest v → extra.rest v → t.species = some me → v.place t = .waiting →
    (∀ c, (t, c) ∉ v.asleep) → v.shared.whosTurn = some me →
    v.shared.admitted me < TURN_COUNT → v.shared.dishes d = none → extra.rest (enters v t me d)
  signals : ∀ v t me d w, Rest v → extra.rest v → t.species = some me → v.place t = .inside d →
    (∀ c, (t, c) ∉ v.asleep) → Finishes v t me d w → AllDone w →
    ∀ rest u, u.asleep = w.asleep → extra.given t (.signal allDone rest) u →
    extra.rest (w.wakeOne allDone)
  finishes : ∀ v t me d w, Rest v → extra.rest v → t.species = some me → v.place t = .inside d →
    (∀ c, (t, c) ∉ v.asleep) → Finishes v t me d w → ¬ AllDone w → extra.rest w
  driver : ∀ v code, Rest v → extra.rest v → extra.always .driver code v
  watches : ∀ v, Rest v → extra.rest v → v.place .driver = .out →
    (∀ c, (.driver, c) ∉ v.asleep) →
    extra.rest ((v.arrive .driver .watching).sleep .driver allDone)

theorem Kept.sections {extra : Extra (Thread number) Point Place Shared Own} (kept : Kept extra)
    (t : Thread number) (label : Point) (v : View number) (entry : (spec number).entry t label)
    (place : v.place t = label.place) (awake : ∀ c, (t, c) ∉ v.asleep) (rest : Rest v)
    (more : extra.rest v) :
    ((spec number).only extra).wp t ((catmouselock number).code t label) v := by
  rcases t with _ | a
  · cases label with
    | forking k =>
      exact ⟨kept.driver v _ rest more, trivial, fun _ => kept.watches v rest more place awake⟩
    | watching => exact kept.driver v _ rest more
    | _ => cases entry
  have covers := kept.covers v (some a) a.1 rest more rfl
  cases label with
  | petitioning =>
    have asked := rest.ask rfl place awake
    have more' := kept.asks v _ a.1 rest more rfl place awake
    have waiting : (Catlock.asks v (some a) a.1).place (some a) = .waiting :=
      update_self ..
    exact wp_petitionGuardian rfl entry rest place awake covers
      (kept.sleeps _ _ _ asked more' rfl waiting)
      (kept.admits _ _ _ asked more' rfl waiting)
      (fun now room d => kept.enters _ _ _ d asked more' rfl waiting awake now room)
  | turning =>
    have same : v.arrive (some a) .waiting = v := by
      rw [View.arrive, Function.update_eq_self_iff.mpr place.symm]
    refine wp_turnLoop rfl entry (same.symm ▸ rest) awake covers ?_ ?_ ?_
    · rw [same]
      exact kept.sleeps v _ _ rest more rfl place
    · exact kept.admits v _ _ rest more rfl place
    · rw [same]
      exact fun now room d => kept.enters v _ _ d rest more rfl place awake now room
  | eating d secs =>
    exact wp_returnDishToGuardian rfl rest place covers
      (fun w => kept.signals v _ _ d w rest more rfl place awake)
      (fun w => kept.finishes v _ _ d w rest more rfl place awake)
  | _ => cases entry

theorem Rest.kept :
    Kept (⟨Rest, Steady, fun _ _ _ => True⟩ : Extra (Thread number) Point Place Shared Own) where
  covers _ _ _ _ _ _ := fun _ _ steady _ => steady
  asks _ _ _ rest _ mine out awake := rest.ask mine out awake
  sleeps _ _ _ rest _ mine waiting blocked := rest.sleep mine waiting blocked
  admits _ _ _ _ _ _ _ _ _ := fun _ _ steady _ => steady
  enters _ _ _ _ rest _ mine waiting awake now room free :=
    rest.enter mine waiting awake now room free
  signals _ _ _ _ _ rest _ mine inside awake finishes _ _ _ _ _ :=
    (rest.finish mine inside awake finishes).wake fun _ => List.mem_of_mem_eraseP
  finishes _ _ _ _ _ rest _ mine inside awake finishes _ := rest.finish mine inside awake finishes
  driver _ code rest _ := (rest.busy .driver).steady code
  watches _ rest _ out _ := rest.watch out

theorem verified : (spec number).Verified where
  enters _ _ _ enters := goes_of_outside enters
  moves _ _ _ _ moves := goes_of_outside moves
  naps _ _ _ _ _ naps := goes_of_outside naps
  forks _ _ _ _ _ forks := goes_of_outside forks
  births _ := rfl
  sections t label v entry place awake rest :=
    Rest.kept.sections t label v entry place awake rest rest

theorem view_start (initial : Ptr → CInt) : (start number initial).view Point.place =
    ⟨globalInit, fun _ => none, fun _ => .out, []⟩ := by
  have out : (fun t => ((start number initial).ctl t).label.place) = fun _ => .out := by
    funext t
    cases t <;> rfl
  simp only [State.view, out]
  rfl

variable {initial : Ptr → CInt} {σ : State number}
  {history : List (State number × Monitor.Label (Thread number))}

section

variable (run : Run (Step number) (start number initial) history σ)

include run

theorem inv_of_run : (spec number).Inv initial σ := by
  have rest : Rest ((start number initial).view Point.place) := by
    rw [view_start]
    exact Rest.start
  exact Spec.Inv.of_run verified (Spec.Inv.start _ _ _ _ _ rest) run fun _ _ _ _ _ _ _ => trivial

/-! ### Safety -/

/-- What the invariant says of every state. -/
theorem safe_of_run : Safe (σ.view Point.place) := by
  have inv := inv_of_run run
  cases owner : σ.sys.objects.owner lock with
  | none => exact (inv.rest owner).safe
  | some t =>
    obtain ⟨label, code, running⟩ := inv.running_of_owner owner
    exact (inv.always running).safe

/-- Who is in `eat` has the dish it has been given. -/
theorem own_of_eating {t : Thread number} {d : Dish} {label : Point}
    (outside : σ.ctl t = .outside label) (eating : label.place = .inside d) : σ.own t = some d := by
  have inv := inv_of_run run
  have place : (σ.view Point.place).place t = .inside d := by
    simp only [State.view, outside]
    exact eating
  cases owner : σ.sys.objects.owner lock with
  | none => exact ((inv.rest owner).holds t d).mpr place
  | some u =>
    obtain ⟨label', code, running⟩ := inv.running_of_owner owner
    have other : t ≠ u := by
      rintro rfl
      cases outside.symm.trans running
    exact ((inv.always running).holds t d other).mpr place

end

/-- Whatever the interleaving: who eats has a dish, all who have one are of one species, no two
have the same one, the table shows exactly what they have, and no assertion fails. -/
theorem cats_and_mice_apart (run : Run (Step number) (start number initial) history σ) :
    (∀ t d, (σ.ctl t = .outside (.served d) ∨ ∃ secs, σ.ctl t = .outside (.eating d secs)) →
      σ.own t = some d) ∧
    (∀ c m, σ.own (.animal .cat c) = none ∨ σ.own (.animal .mouse m) = none) ∧
    (∀ t u d, σ.own t = some d → σ.own u = some d → t = u) ∧
    (∀ s n d, σ.own (.animal s n) = some d → σ.shared.dishes d = some s) ∧
    (∀ d, (∀ s n, σ.own (.animal s n) ≠ some d) → σ.shared.dishes d = none) ∧
    (∀ t label, σ.ctl t ≠ .running label .fault) ∧
    (∀ t why, σ.sys.step (.goOn t) ≠ some (.error why)) := by
  have inv := inv_of_run run
  obtain ⟨holders, together⟩ := safe_of_run run
  refine ⟨?_, ?_, holders.apart, ?_, ?_, fun t label => inv.busy t label .fault,
    fun t why => inv.never_stops why⟩
  · rintro t d (outside | ⟨secs, outside⟩)
    · exact own_of_eating run outside rfl
    · exact own_of_eating run outside rfl
  · intro c m
    cases cat : σ.own (.animal .cat c) with
    | none => exact .inl rfl
    | some d =>
      cases mouse : σ.own (.animal .mouse m) with
      | none => exact .inr rfl
      | some e => cases together _ _ d e .cat .mouse cat mouse rfl rfl
  · intro s n d own
    exact (holders.dishes d s).mpr ⟨_, rfl, own⟩
  intro d nobody
  cases dish : σ.shared.dishes d with
  | none => rfl
  | some s =>
    obtain ⟨t, species, own⟩ := (holders.dishes d s).mp dish
    rcases t with _ | ⟨r, n⟩
    · cases species
    · exact absurd own (nobody r n)

/-- `lock_acquire`, up to its first look at the owner. -/
def acquires (t : Thread number) : List (Monitor.Label (Thread number)) :=
  [.statement t 0, .goOn t, .goOn t]

/-- An animal asks for a dish in its turn, and goes to `eat`. -/
def served (t : Thread number) : List (Monitor.Label (Thread number)) :=
  acquires t ++ List.replicate 8 (.statement t 0) ++ [.goOn t] ++
    List.replicate 3 (.statement t 0) ++ [.goOn t, .goOn t, .statement t 0]

/-- An animal asks for a dish in the turn of the others. -/
def refused (t : Thread number) : List (Monitor.Label (Thread number)) :=
  acquires t ++ List.replicate 4 (.statement t 0) ++ [.goOn t]

/-- A cat is served, and a mouse waits. -/
def catFirst : List (Monitor.Label (Thread fun _ => 1)) :=
  [.statement .driver 0, .statement .driver 0] ++ served (.animal .cat 0) ++
    refused (.animal .mouse 0)

theorem cats_and_mice_apart_catFirst :
    ∃ history σ, Run (Step fun _ => 1) (start _ fun _ => 0) history σ ∧
      history.map Prod.snd = catFirst.reverse ∧ σ.own (.animal .cat 0) = some 0 ∧
      (.animal .mouse 0, .cv (turn .mouse)) ∈ σ.sys.objects.sleepers ∧
      σ.own (.animal .mouse 0) = none ∧ σ.shared.dishes 0 = some .cat := by
  obtain ⟨σ, reached, own, asleep⟩ :
      ∃ σ, execute (State.next (catmouselock fun _ => 1)) (start _ fun _ => 0) catFirst = some σ ∧
        σ.own (.animal .cat 0) = some 0 ∧
        (.animal .mouse 0, .cv (turn .mouse)) ∈ σ.sys.objects.sleepers :=
    execute_check (by decide +kernel)
  obtain ⟨history, run, same⟩ := Run.of_execute reached
  obtain ⟨-, apart, -, dishes, -⟩ := cats_and_mice_apart run
  have nothing := (apart 0 0).resolve_left (by simp [own])
  exact ⟨history, σ, run, same, own, asleep, nothing, dishes .cat 0 0 own⟩

/-! ### Progress -/

/-- An animal that has been forked and has not returned. -/
def Unfinished (σ : State number) (t : Thread number) : Prop :=
  (σ.ctl t).label ≠ .unborn ∧ (σ.ctl t).label ≠ .finished

instance (σ : State number) (t : Thread number) : Decidable (Unfinished σ t) :=
  inferInstanceAs (Decidable (_ ∧ _))

/-- A thread that is asleep on `cat_turn`, `mouse_turn`, `empty_dish` or the lock. -/
def Blocked (σ : State number) (t : Thread number) : Prop :=
  (∃ s, (t, .cv (turn s)) ∈ σ.sys.objects.sleepers) ∨
    (t, .cv emptyDish) ∈ σ.sys.objects.sleepers ∨ (t, .lock lock) ∈ σ.sys.objects.sleepers

instance (σ : State number) (t : Thread number) : Decidable (Blocked σ t) :=
  inferInstanceAs (Decidable (_ ∨ _))

/-- A thread that sleeps on a condition variable of the animals waits for its turn, which has
not come. -/
theorem Rest.waiting_of_blocked (rest : Rest (σ.view Point.place))
    (sound : σ.sys.Sound initial) (free : σ.sys.objects.owner lock = none) {t : Thread number}
    (blocked : Blocked σ t) : ∃ s, t.species = some s ∧
      (σ.view Point.place).place t = .waiting ∧
      (σ.shared.whosTurn = some s → σ.shared.admitted s = TURN_COUNT) := by
  rcases blocked with ⟨s, asleep⟩ | asleep | asleep
  · rcases rest.asleep t _ (mem_cvSleepers.mpr asleep) with ⟨r, species, same, place, full⟩ | ⟨-,
      same, -⟩
    · exact ⟨r, species, place, full⟩
    · exact absurd same (turn_ne_allDone s)
  · exact absurd (mem_cvSleepers.mpr asleep) (rest.not_asleep_emptyDish t)
  · exact absurd free (sound.objects.awaited t lock asleep)

/-- With the lock free, an animal that has not finished has company that can go on. -/
theorem Rest.exists_not_blocked (rest : Rest (σ.view Point.place))
    (sound : σ.sys.Sound initial) (free : σ.sys.objects.owner lock = none) {t : Thread number}
    (unfinished : Unfinished σ t) {s : Species} (species : t.species = some s) :
    ∃ u r, u.species = some r ∧ Unfinished σ u ∧ ¬ Blocked σ u := by
  by_cases blocked : Blocked σ t
  case neg => exact ⟨t, s, species, unfinished, blocked⟩
  obtain ⟨r, same, place, -⟩ := rest.waiting_of_blocked sound free blocked
  obtain ⟨now, turn⟩ : ∃ now, σ.shared.whosTurn = some now :=
    (rest.whosTurn_of_waiting same place).elim (fun mine => ⟨_, mine⟩) fun theirs => ⟨_, theirs⟩
  have somebody : ∀ u, u.species = some now → (σ.view Point.place).place u ≠ .out →
      (σ.view Point.place).place u ≠ .finished →
      ((σ.view Point.place).place u = .waiting → σ.shared.admitted now ≠ TURN_COUNT) →
      ∃ u r, u.species = some r ∧ Unfinished σ u ∧ ¬ Blocked σ u := by
    intro u species not_out not_finished room
    refine ⟨u, now, species, ⟨?_, ?_⟩, fun blocked => ?_⟩
    · exact fun unborn => not_out (congrArg Point.place unborn)
    · exact fun finished => not_finished (congrArg Point.place finished)
    · obtain ⟨_, same, waiting, full⟩ := rest.waiting_of_blocked sound free blocked
      cases species.symm.trans same
      exact room waiting (full turn)
  by_cases nobody : insides (σ.view Point.place).place now = 0
  · -- the turn has room, and nobody who waits for it is asleep
    have waits := ((rest.turn now turn).2.resolve_right (by omega))
    obtain ⟨u, species, waiting⟩ := count_pos_iff.mp waits
    refine somebody u species (by simp [waiting]) (by simp [waiting]) fun _ full => ?_
    have admitted := rest.admitted now
    have left := (rest.left now).2
    simp only [State.view] at admitted left nobody
    omega
  · obtain ⟨u, species, inside⟩ := count_pos_iff.mp (Nat.pos_of_ne_zero nobody)
    refine somebody u species ?_ ?_ ?_ <;> intro there <;> simp [there, Place.dish] at inside

/-- Unless the driver has the lock for a moment, some animal that has not finished is not asleep
on the lock or a condition variable of the animals; and an animal sleeps through its own turn
only until the owner of the lock executes the broadcast that it has come to. -/
theorem never_stuck (run : Run (Step number) (start number initial) history σ) :
    (σ.sys.objects.owner lock ≠ some .driver →
      (∃ s n, Unfinished σ (.animal s n)) →
      ∃ s n, Unfinished σ (.animal s n) ∧ ¬ Blocked σ (.animal s n)) ∧
    (∀ s n, (.animal s n, .cv (turn s)) ∈ σ.sys.objects.sleepers → σ.shared.whosTurn = some s →
      σ.shared.admitted s < TURN_COUNT →
      ∃ t label rest, σ.ctl t = .running label (.broadcast (turn s) rest)) := by
  have inv := inv_of_run run
  cases owner : σ.sys.objects.owner lock with
  | none =>
    have rest := inv.rest owner
    constructor
    · rintro - ⟨s, n, unfinished⟩
      obtain ⟨u, r, species, found⟩ := rest.exists_not_blocked inv.sound owner unfinished rfl
      rcases u with _ | ⟨r', m⟩
      · cases species
      · exact ⟨r', m, found⟩
    · intro s n asleep now room
      exact absurd (rest.calm _ s (mem_cvSleepers.mpr asleep) now) (not_le.mpr room)
  | some t =>
    obtain ⟨label, code, running⟩ := inv.running_of_owner owner
    constructor
    · intro not_driver _
      obtain ⟨-, -, entry⟩ := running ▸ inv.fits t
      rcases t with _ | ⟨s, n⟩
      · exact absurd rfl not_driver
      refine ⟨s, n, ?_, ?_⟩
      · have label_eq : (σ.ctl (.animal s n)).label = label := congrArg Ctl.label running
        rw [Unfinished, label_eq]
        constructor <;> rintro rfl <;> exact entry
      have awake := inv.awake_of_running running
      rintro (⟨r, asleep⟩ | asleep | asleep)
      · exact (awake 0 _).2 asleep
      · exact (awake 0 _).2 asleep
      · exact (awake _ 0).1 asleep
    · intro s n asleep now room
      rcases (inv.always running).calm with calm | ⟨r, rest, rfl, turn⟩
      · exact absurd (calm _ s (mem_cvSleepers.mpr asleep) now) (not_le.mpr room)
      · cases now.symm.trans turn
        exact ⟨t, label, rest, running⟩

theorem never_stuck_catFirst :
    ∃ history σ, Run (Step fun _ => 1) (start _ fun _ => 0) history σ ∧
      history.map Prod.snd = catFirst.reverse ∧ Blocked σ (.animal .mouse 0) ∧
      ∃ s n, Unfinished σ (.animal s n) ∧ ¬ Blocked σ (.animal s n) := by
  obtain ⟨σ, reached, owner, unfinished, blocked⟩ :
      ∃ σ, execute (State.next (catmouselock fun _ => 1)) (start _ fun _ => 0) catFirst = some σ ∧
        σ.sys.objects.owner lock ≠ some .driver ∧ Unfinished σ (.animal .mouse 0) ∧
        Blocked σ (.animal .mouse 0) :=
    execute_check (by decide +kernel)
  obtain ⟨history, run, same⟩ := Run.of_execute reached
  exact ⟨history, σ, run, same, blocked, (never_stuck run).1 owner ⟨_, _, unfinished⟩⟩

/-- The animals ask for the lock when the driver has taken it and not yet called `cv_wait`. -/
def driverFirst : List (Monitor.Label (Thread fun _ => 1)) :=
  [.statement .driver 0, .statement .driver 0] ++ acquires .driver ++
    acquires (.animal .cat 0) ++ acquires (.animal .mouse 0)

/-- The cat leaves, and has given the turn to the mouse. -/
def catLeaves : List (Monitor.Label (Thread fun _ => 1)) :=
  catFirst ++ acquires (.animal .cat 0) ++ List.replicate 6 (.statement (.animal .cat 0) 0)

/-- Both moments occur: all animals are asleep while the driver has the lock, and the mouse is
asleep in its turn before the broadcast. -/
theorem asleep_for_a_moment :
    (∃ history σ, Run (Step fun _ => 1) (start _ fun _ => 0) history σ ∧
      history.map Prod.snd = driverFirst.reverse ∧ (∃ s n, Unfinished σ (.animal s n)) ∧
      ∀ s n, Unfinished σ (.animal s n) → Blocked σ (.animal s n)) ∧
    ∃ history σ, Run (Step fun _ => 1) (start _ fun _ => 0) history σ ∧
      history.map Prod.snd = catLeaves.reverse ∧
      (.animal .mouse 0, .cv (turn .mouse)) ∈ σ.sys.objects.sleepers ∧
      σ.shared.whosTurn = some .mouse ∧ σ.shared.admitted .mouse < TURN_COUNT :=
  ⟨Run.of_check (by decide +kernel), Run.of_check (by decide +kernel)⟩

end Os161.CatMouse.Catlock
