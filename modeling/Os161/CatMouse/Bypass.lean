import Os161.CatMouse.Guardian

/-!
# How many go first

While an animal waits, the others are admitted at most `TURN_COUNT` times before one of its
own species is. What bounds them is what is left of the turn of the others, if they have it,
and a whole turn otherwise: it begins only after somebody of the waiting species has left, and
it is followed by a turn of that species, which nobody of the others can end.
-/
namespace Os161.CatMouse.Catlock

open Foundation Synch Synch.Monitor
open Function (update_of_ne update_self)

variable {number : Species → Nat}

/-- How many of the others may still come before one of `s`. -/
def pending (v : View number) (s : Species) : Int :=
  if v.shared.whosTurn = some s.other then TURN_COUNT - v.shared.admitted s.other
  else if insides v.place s = 0 then 0 else TURN_COUNT

/-- Since there were `a` admissions of `s` and `b` of the others, `w` has been waiting, or one of
`s` has been admitted. -/
def bypass (w : Thread number) (s : Species) (a b : Nat) :
    Extra (Thread number) Point Place Shared Own where
  rest := fun v => a ≤ v.shared.admissions s ∧ (v.shared.admissions s = a →
    v.place w = .waiting ∧ v.shared.admissions s.other + pending v s ≤ b + TURN_COUNT)
  always := fun _ _ v =>
    v.shared.admissions s = a → v.shared.admissions s.other ≤ b + TURN_COUNT
  given := fun _ _ _ => True

section

variable {v : View number} {t w : Thread number} {s me : Species} {a b : Nat}

theorem Rest.pending_bounds (rest : Rest v) (s : Species) :
    0 ≤ pending v s ∧ pending v s ≤ TURN_COUNT := by
  have bound := rest.bound s.other
  have left := (rest.left s.other).1
  have admitted := rest.admitted s.other
  unfold pending
  split_ifs <;> omega

/-- While one of `s` is inside, a whole turn of the others may follow. -/
theorem pending_of_inside (mine : t.species = some s) {d : Dish} (inside : v.place t = .inside d)
    (now : v.shared.whosTurn = some s) : pending v s = TURN_COUNT := by
  have inside : insides v.place s ≠ 0 :=
    Nat.ne_of_gt (count_pos mine (by simp [inside, Place.dish]))
  simp [pending, now, inside, (Species.other_ne s).symm]

/-- Who is admitted uses up one of the admissions that were pending, or ends the wait. -/
theorem bypass_enters (species : w.species = some s) (bound : (bypass w s a b).rest v)
    (mine : t.species = some me) (now : v.shared.whosTurn = some me) (d : Dish) :
    (bypass w s a b).rest (enters v t me d) := by
  obtain ⟨least, bound⟩ := bound
  rcases Species.eq_or_eq_other me s with rfl | rfl
  · -- one of the waiting species
    have more : (enters v t me d).shared.admissions me = v.shared.admissions me + 1 :=
      update_self ..
    exact ⟨by omega, fun here => by omega⟩
  have same : (enters v t s.other d).shared.admissions s = v.shared.admissions s :=
    update_of_ne (Species.other_ne s).symm ..
  refine ⟨same ▸ least, fun here => ?_⟩
  obtain ⟨waits, le⟩ := bound (same ▸ here)
  have other : w ≠ t := by
    rintro rfl
    exact Species.other_ne s (Option.some.inj (mine.symm.trans species))
  refine ⟨(update_of_ne other ..).trans waits, ?_⟩
  simp only [pending, now, enters, if_true, update_self] at le ⊢
  omega

/-- A turn of the others that ends is followed by one of `s`. -/
theorem bypass_finishes (species : w.species = some s) (rest : Rest v)
    (bound : (bypass w s a b).rest v) (mine : t.species = some me) {d : Dish}
    (inside : v.place t = .inside d) (awake : ∀ c, (t, c) ∉ v.asleep) {v' : View number}
    (finishes : Finishes v t me d v') : (bypass w s a b).rest v' := by
  obtain ⟨least, bound⟩ := bound
  have final := rest.finish mine inside awake finishes
  have now := rest.whosTurn_of_own ((rest.holds t d).mpr inside) mine
  have same : v'.shared.admissions = v.shared.admissions := by
    cases finishes <;> rfl
  refine ⟨same ▸ least, fun here => ?_⟩
  obtain ⟨waits, le⟩ := bound (same ▸ here)
  have place : v'.place = Function.update v.place t .finished := by
    cases finishes <;> rfl
  have other : w ≠ t := by
    rintro rfl
    cases waits.symm.trans inside
  refine ⟨by rw [place, update_of_ne other, waits], ?_⟩
  rw [same]
  rcases Species.eq_or_eq_other me s with rfl | rfl
  · -- a whole turn of the others was pending before
    have before := pending_of_inside mine inside now
    have after := (final.pending_bounds me).2
    omega
  have others : insides v'.place s = insides v.place s := by
    have moved := insides_move v.place mine .finished s
    simp only [(Species.other_ne s).symm, if_false, add_zero] at moved
    rw [place]
    exact_mod_cast moved
  suffices pending v' s ≤ pending v s by omega
  cases finishes with
  | leaves more => exact le_of_eq (by simp [pending, leaves, now])
  | @closes next asleep last idle wanted switch fewer woken =>
    -- `w` is waiting, so it is the turn of `s`, and nobody is inside
    have waiting := rest.waiting s
    have some_waits : 0 < Catlock.waits v.place s := count_pos species waits
    rw [Species.other_other] at switch
    have theirs := switch (by omega)
    have nobody : insides v.place s = 0 := by
      have admitted := rest.admitted s
      have left := (rest.left s).1
      have none := (rest.turn _ now).1
      rw [Species.other_other] at none
      omega
    have nothing : pending (closes v t s.other d next asleep) s = 0 := by
      rw [pending, others, nobody]
      simp [closes, theirs, (Species.other_ne s).symm]
    rw [nothing]
    exact (rest.pending_bounds s).1

theorem bypass_now (rest : Rest v) (bound : (bypass w s a b).rest v)
    (here : v.shared.admissions s = a) : v.shared.admissions s.other ≤ b + TURN_COUNT :=
  le_trans (le_add_of_nonneg_right (rest.pending_bounds s).1) (bound.2 here).2

private theorem bypass_kept (species : w.species = some s) : Kept (bypass w s a b) where
  covers v t me rest bound mine := by
    intro code v' _ same here
    rw [same] at here ⊢
    exact bypass_now rest bound here
  driver v code rest bound := bypass_now rest bound
  asks v t me rest bound mine out awake := by
    refine ⟨bound.1, fun here => ?_⟩
    obtain ⟨waiting, le⟩ := bound.2 here
    have other : w ≠ t := by
      rintro rfl
      cases waiting.symm.trans out
    -- the turn is not idle, since `w` is waiting
    have turn : (asks v t me).shared.whosTurn = v.shared.whosTurn := by
      rcases rest.whosTurn_of_waiting species waiting with now | now <;> simp [asks, now]
    have inside : insides (asks v t me).place s = insides v.place s := by
      have moved := insides_move v.place mine .waiting s
      simp only [out, Place.dish, Option.isSome_none, Bool.false_eq_true, if_false, sub_self,
        ite_self, add_zero] at moved
      exact_mod_cast moved
    refine ⟨(update_of_ne other ..).trans waiting, ?_⟩
    rw [pending, turn, inside]
    exact le
  sleeps v t me rest bound mine waiting blocked := bound
  admits v t me rest bound mine waiting now room := by
    intro code v' _ same here
    rw [same] at here ⊢
    rcases Species.eq_or_eq_other me s with rfl | rfl
    · have least := bound.1
      rw [update_self] at here
      omega
    rw [update_of_ne (Species.other_ne s).symm] at here
    have le := (bound.2 here).2
    simp only [pending, now, if_true, update_self] at le ⊢
    omega
  enters v t me d rest bound mine waiting awake now room free :=
    bypass_enters species bound mine now d
  signals v t me d v' rest bound mine inside awake finishes _ _ _ _ _ := by
    have kept := bypass_finishes species rest bound mine inside awake finishes
    exact kept
  finishes v t me d v' rest bound mine inside awake finishes _ :=
    bypass_finishes species rest bound mine inside awake finishes
  watches v rest bound out awake := by
    refine ⟨bound.1, fun here => ?_⟩
    obtain ⟨waiting, le⟩ := bound.2 here
    have other : w ≠ .driver := by
      rintro rfl
      cases species
    refine ⟨(update_of_ne other ..).trans waiting, ?_⟩
    simp only [pending, View.arrive, View.sleep, insides, count_driver] at le ⊢
    exact le

end

/-! ### Bounded bypass -/

/-- Where the thread is about to call `cv_wait`, and where it will go on after it. -/
def awaits : Ctl Point Shared Own → Option (Ptr × Point)
  | .running _ (.wait c label) => some (c, label)
  | _ => none

private theorem running_of_awaits {ctl : Ctl Point Shared Own} {c : Ptr} {next : Point}
    (here : awaits ctl = some (c, next)) : ∃ label, ctl = .running label (.wait c next) := by
  unfold awaits at here
  split at here
  · cases here
    exact ⟨_, rfl⟩
  · cases here

variable {initial : Ptr → CInt} {σ σ' : State number}
  {history later : List (State number × Monitor.Label (Thread number))}

/-- From the moment at which an animal has found that it must wait, as long as none of its
species is admitted, at most `TURN_COUNT` of the others are. -/
theorem bounded_bypass (run : Run (Step number) (start number initial) history σ) (s : Species)
    (n : Fin (number s)) (waits : awaits (σ.ctl (.animal s n)) = some (turn s, .turning))
    (more : Run (Step number) σ later σ')
    (nobody : σ'.shared.admissions s = σ.shared.admissions s) :
    σ'.shared.admissions s.other ≤ σ.shared.admissions s.other + TURN_COUNT := by
  have inv := inv_of_run run
  obtain ⟨label, running⟩ := running_of_awaits waits
  have mine := (running ▸ inv.fits (.animal s n)).1
  have rest := (inv.busy _ _ _ running).2.2 trivial
  have bounds := rest.pending_bounds s
  -- the bound holds when the call of `cv_wait` has released the lock
  have begun : ((spec number).add (bypass (.animal s n) s (σ.shared.admissions s)
      (σ.shared.admissions s.other))).Inv initial σ := by
    refine inv.add (fun free => ?_) (fun t label' code now => ?_)
    · cases free.symm.trans mine
    have owner := (now ▸ inv.fits t).1
    cases owner.symm.trans mine
    cases now.symm.trans running
    refine ⟨fun _ => ?_, trivial, fun _ => ⟨le_refl _, fun _ => ⟨?_, ?_⟩⟩⟩
    · exact le_add_of_nonneg_right (bounds.1.trans bounds.2)
    · exact update_self ..
    · exact Int.add_le_add_left bounds.2 _
  have kept : Kept (bypass (.animal s n) s (σ.shared.admissions s) (σ.shared.admissions s.other)) :=
    bypass_kept rfl
  have inv' := begun.of_run (verified.add fun t label v entry place awake rest more =>
    kept.sections t label v entry place awake rest more) more fun _ _ _ _ _ _ _ => ⟨trivial,
      trivial⟩
  cases owner : σ'.sys.objects.owner lock with
  | none =>
    obtain ⟨rest', bound⟩ := inv'.rest owner
    exact bypass_now rest' bound nobody
  | some t =>
    obtain ⟨label', code, running'⟩ := inv'.running_of_owner owner
    exact (inv'.always running').2 nobody

/-- A cat is served, and a mouse finds that it must wait. -/
def mouseWaits : List (Monitor.Label (Thread fun _ => 2)) :=
  List.replicate 4 (.statement .driver 0) ++ served (.animal .cat 0) ++
    acquires (.animal .mouse 0) ++ List.replicate 3 (.statement (.animal .mouse 0) 0)

/-- Then it calls `cv_wait`, and the other cat is served. -/
def catBypasses : List (Monitor.Label (Thread fun _ => 2)) :=
  [.statement (.animal .mouse 0) 0, .goOn (.animal .mouse 0)] ++ served (.animal .cat 1)

theorem bounded_bypass_mouseWaits :
    ∃ history σ later σ', Run (Step fun _ => 2) (start _ fun _ => 0) history σ ∧
      history.map Prod.snd = mouseWaits.reverse ∧ Run (Step fun _ => 2) σ later σ' ∧
      later.map Prod.snd = catBypasses.reverse ∧
      σ'.shared.admissions .cat = σ.shared.admissions .cat + 1 ∧
      σ'.shared.admissions .cat ≤ σ.shared.admissions .cat + TURN_COUNT := by
  obtain ⟨σ, reached, waits, none, one⟩ :
      ∃ σ, execute (State.next (catmouselock fun _ => 2)) (start _ fun _ => 0) mouseWaits = some σ ∧
        awaits (σ.ctl (.animal .mouse 0)) = some (turn .mouse, .turning) ∧
        (execute (State.next (catmouselock fun _ => 2)) σ catBypasses).map
          (fun σ' => σ'.shared.admissions .mouse) = some (σ.shared.admissions .mouse) ∧
        (execute (State.next (catmouselock fun _ => 2)) σ catBypasses).map
          (fun σ' => σ'.shared.admissions .cat) = some (σ.shared.admissions .cat + 1) :=
    execute_check (by decide +kernel)
  obtain ⟨history, run, same⟩ := Run.of_execute reached
  obtain ⟨σ', reached', nobody⟩ := Option.map_eq_some_iff.mp none
  obtain ⟨later, more, same'⟩ := Run.of_execute reached'
  rw [reached', Option.map_some, Option.some.injEq] at one
  exact ⟨history, σ, later, σ', run, same, more, same', one,
    bounded_bypass run .mouse 0 waits more nobody⟩

end Os161.CatMouse.Catlock
