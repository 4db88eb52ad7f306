import Os161.CatMouse.Guardian

/-!
# Whether the driver sees the end

The last animal signals `all_done`, once. The driver waits for that signal without a test,
so it misses it if it is not yet waiting, and then sleeps for ever. If it is waiting whenever
the signal is given, it wakes up.
-/
namespace Os161.CatMouse.Catlock

open Foundation Synch Synch.Monitor

variable {number : Species → Nat}

/-- When all animals are done the driver has been woken. -/
def completion (number : Species → Nat) : Extra (Thread number) Point Place Shared Own where
  rest := fun v => (AllDone v → v.place .driver = .watching ∧ (.driver, allDone) ∉ v.asleep) ∧
    v.asleep.countP (fun e => e.2 = allDone) ≤ 1
  always := fun t _ v => t = .driver → (∀ s, ended v.place s = number s) →
    v.place .driver = .watching
  given := fun _ code v => ∀ rest, code = .signal allDone rest → (.driver, allDone) ∈ v.asleep

section

variable {v : View number} {t : Thread number} {me : Species}

private theorem ne_driver (mine : t.species = some me) : .driver ≠ t := by
  rintro rfl
  cases mine

theorem Rest.allDone_iff (rest : Rest v) : AllDone v ↔ ∀ s, ended v.place s = number s := by
  have cats := rest.done .cat
  have mice := rest.done .mouse
  simp only [AllDone, cats, mice, Int.natCast_inj]
  constructor
  · rintro ⟨cat, mouse⟩ s
    cases s
    · exact cat
    · exact mouse
  · exact fun all => ⟨all .cat, all .mouse⟩

/-- Only the driver sleeps on `all_done`. -/
theorem Rest.asleep_allDone (rest : Rest v) (asleep : (t, allDone) ∈ v.asleep) :
    t = .driver ∧ v.place t = .watching := by
  rcases rest.asleep t allDone asleep with ⟨s, -, same, -⟩ | ⟨driver, -, watching⟩
  · exact absurd same.symm (turn_ne_allDone s)
  · exact ⟨driver, watching⟩

theorem Rest.countP_allDone (rest : Rest v) (awake : ∀ c, (.driver, c) ∉ v.asleep) :
    v.asleep.countP (fun e => e.2 = allDone) = 0 := by
  refine List.countP_eq_zero.mpr fun ⟨t, c⟩ member here => ?_
  cases of_decide_eq_true here
  obtain ⟨rfl, -⟩ := rest.asleep_allDone member
  exact awake _ member

theorem Finishes.asleep_sublist {d : Dish} {v' : View number} (finishes : Finishes v t me d v') :
    v'.asleep.Sublist v.asleep := by
  cases finishes with
  | leaves more => exact List.Sublist.refl _
  | closes last idle wanted switch fewer woken => exact fewer

/-- The signal wakes the only sleeper. -/
theorem countP_wakeOne {asleep : List (Thread number × Ptr)} {c : Ptr}
    (one : asleep.countP (fun e => e.2 = c) ≤ 1) (member : (t, c) ∈ asleep) :
    (asleep.eraseP fun e => e.2 = c).countP (fun e => e.2 = c) = 0 := by
  obtain ⟨e, before, after, -, here, whole, erased⟩ :=
    List.exists_of_eraseP (p := fun e => e.2 = c) member (by simp)
  rw [whole, List.countP_append, List.countP_cons, if_pos here] at one
  rw [erased, List.countP_append]
  omega

private theorem completion_kept : Kept (completion number) where
  covers v t me rest more mine := fun _ _ _ _ driver => absurd driver.symm (ne_driver mine)
  asks v t me rest more mine out awake := by
    refine ⟨fun all => ?_, more.2⟩
    obtain ⟨watching, awake⟩ := more.1 all
    exact ⟨(Function.update_of_ne (ne_driver mine) ..).trans watching, awake⟩
  sleeps v t me rest more mine waiting blocked := by
    refine ⟨fun all => ?_, ?_⟩
    · obtain ⟨watching, awake⟩ := more.1 all
      refine ⟨watching, fun member => ?_⟩
      rcases List.mem_append.mp member with before | now
      · exact awake before
      · exact ne_driver mine (congrArg Prod.fst (List.mem_singleton.mp now))
    · simpa [View.sleep, turn_ne_allDone] using more.2
  admits v t me rest more mine waiting now room :=
    fun _ _ _ _ driver => absurd driver.symm (ne_driver mine)
  enters v t me d rest more mine waiting awake now room free := by
    refine ⟨fun all => ?_, more.2⟩
    obtain ⟨watching, awake⟩ := more.1 all
    exact ⟨(Function.update_of_ne (ne_driver mine) ..).trans watching, awake⟩
  signals v t me d v' rest more mine inside awake finishes all code u same given := by
    have rest' := rest.finish mine inside awake finishes
    have member : (.driver, allDone) ∈ v'.asleep := same ▸ given code rfl
    have nobody := countP_wakeOne (finishes.asleep_sublist.countP_le.trans more.2) member
    refine ⟨fun _ => ⟨(rest'.asleep_allDone member).2, fun again => ?_⟩,
      nobody.trans_le zero_le_one⟩
    exact List.countP_eq_zero.mp nobody _ again (by simp)
  finishes v t me d v' rest more mine inside awake finishes left :=
    ⟨fun all => absurd all left, finishes.asleep_sublist.countP_le.trans more.2⟩
  driver v code rest more _ ended := (more.1 (rest.allDone_iff.mpr ended)).1
  watches v rest more out awake := by
    refine ⟨fun all => ?_, ?_⟩
    · cases out.symm.trans (more.1 all).1
    · simp [View.arrive, View.sleep, rest.countP_allDone awake]

end

/-! ### Completion -/

/-- There are as many threads of a species as it has animals. -/
theorem card_species (s : Species) :
    (Finset.univ.filter fun t : Thread number => t.species = some s).card = number s := by
  have all : (Finset.univ.filter fun t : Thread number => t.species = some s) =
      Finset.univ.image (Thread.animal s) := by
    ext t
    simp only [Finset.mem_filter, Finset.mem_univ, true_and, Finset.mem_image]
    rcases t with _ | ⟨r, n⟩
    · simp [Thread.species, Thread.animal]
    constructor
    · rintro ⟨⟩
      exact ⟨n, rfl⟩
    · rintro ⟨m, ⟨⟩⟩
      rfl
  have injective : Function.Injective (Thread.animal s : Fin (number s) → Thread number) :=
    fun n m same => by simpa [Thread.animal] using same
  rw [all, Finset.card_image_of_injective _ injective, Finset.card_univ, Fintype.card_fin]

private theorem count_eq_number {q : Place → Prop} [DecidablePred q] {place : Thread number → Place}
    {s : Species} (all : ∀ t, t.species = some s → q (place t)) : count q place s = number s := by
  refine Eq.trans ?_ (card_species s)
  exact tally_eq_card (p := fun (t : Thread number) k => t.species = some s ∧ q k)
    fun t => ⟨fun species => ⟨species, all t species⟩, And.left⟩

/-- All animals have run `check_finished` and released the lock. -/
def AllFinished (σ : State number) : Prop :=
  ∀ s n, (σ.ctl (.animal s n)).label = .finished

instance (σ : State number) : Decidable (AllFinished σ) :=
  inferInstanceAs (Decidable (∀ _ _, _ = _))

theorem AllFinished.ended {σ : State number} (all : AllFinished σ) (s : Species) :
    ended (σ.view Point.place).place s = number s := by
  refine count_eq_number fun t species => ?_
  rcases t with _ | ⟨r, n⟩
  · cases species
  · exact congrArg Point.place (all r n)

/-- The condition variable that the thread is about to signal. -/
def signalled : Ctl Point Shared Own → Option Ptr
  | .running _ (.signal c _) => some c
  | _ => none

/-- Whoever is about to signal `all_done` finds the driver asleep on it. -/
def DriverWaits (σ : State number) : Prop :=
  ∀ t, signalled (σ.ctl t) = some allDone → (.driver, .cv allDone) ∈ σ.sys.objects.sleepers

instance (σ : State number) : Decidable (DriverWaits σ) :=
  inferInstanceAs (Decidable (∀ _, _ = _ → _))

variable {initial : Ptr → CInt} {σ : State number}
  {history : List (State number × Monitor.Label (Thread number))}

private theorem completion_of_run (animals : 0 < number .cat + number .mouse)
    (run : Run (Step number) (start number initial) history σ)
    (waits : ∀ taken ∈ history, DriverWaits taken.1) :
    ((spec number).add (completion number)).Inv initial σ := by
  have rest : Rest ((start number initial).view Point.place) ∧
      (completion number).rest ((start number initial).view Point.place) := by
    rw [view_start]
    refine ⟨Rest.start, fun all => ?_, by simp⟩
    simp only [AllDone, globalInit] at all
    omega
  refine Spec.Inv.of_run (verified.add completion_kept.sections)
    (Spec.Inv.start _ _ _ _ _ rest) run ?_
  intro taken member t label code _ running
  refine ⟨trivial, ?_⟩
  rintro rest rfl
  exact mem_cvSleepers.mpr (waits taken member t (by rw [running]; rfl))

/-- If the driver is waiting whenever `all_done` is signalled, then once all animals have finished
it is past `cv_wait` and not asleep in it. -/
theorem driver_sees_completion (animals : 0 < number .cat + number .mouse)
    (run : Run (Step number) (start number initial) history σ)
    (waits : ∀ taken ∈ history, DriverWaits taken.1) (all : AllFinished σ) :
    (.driver, .cv allDone) ∉ σ.sys.objects.sleepers ∧ (σ.ctl .driver).label = .watching := by
  have inv := completion_of_run animals run waits
  have label_of_place : (σ.view Point.place).place .driver = .watching →
      (σ.ctl .driver).label = .watching := by
    intro place
    simp only [State.view] at place
    generalize (σ.ctl .driver).label = label at place
    cases label <;> first | rfl | cases place
  cases owner : σ.sys.objects.owner lock with
  | none =>
    obtain ⟨rest, more, -⟩ := inv.rest owner
    obtain ⟨watching, awake⟩ := more (rest.allDone_iff.mpr all.ended)
    exact ⟨fun asleep => awake (mem_cvSleepers.mpr asleep), label_of_place watching⟩
  | some t =>
    obtain ⟨label, code, running⟩ := inv.running_of_owner owner
    obtain ⟨-, -, entry⟩ := running ▸ inv.fits t
    rcases t with _ | ⟨s, n⟩
    · exact ⟨(inv.awake_of_running running 0 allDone).2,
        label_of_place ((inv.always running).2 rfl all.ended)⟩
    -- an animal with the lock has not finished
    have finished := all s n
    rw [Thread.animal, running] at finished
    cases finished
    cases entry

/-- An animal that has eaten alone gives its dish back and is counted. -/
def returns (t : Thread number) : List (Monitor.Label (Thread number)) :=
  acquires t ++ List.replicate 12 (.statement t 0) ++ [.goOn t, .statement t 0, .goOn t] ++
    List.replicate 2 (.statement t 0)

def releases (t : Thread number) : List (Monitor.Label (Thread number)) :=
  [.statement t 0, .goOn t, .goOn t]

def signals (t : Thread number) : List (Monitor.Label (Thread number)) :=
  [.statement t 0, .goOn t] ++ releases t

def watches : List (Monitor.Label (Thread number)) :=
  acquires .driver ++ [.statement .driver 0, .goOn .driver]

/-- The driver waits before the animals come. -/
def driverInTime : List (Monitor.Label (Thread fun _ => 1)) :=
  List.replicate 2 (.statement .driver 0) ++ watches ++
    served (.animal .cat 0) ++ returns (.animal .cat 0) ++ releases (.animal .cat 0) ++
    served (.animal .mouse 0) ++ returns (.animal .mouse 0) ++ signals (.animal .mouse 0)

theorem driver_sees_completion_driverInTime :
    ∃ history σ, Run (Step fun _ => 1) (start _ fun _ => 0) history σ ∧
      history.map Prod.snd = driverInTime.reverse ∧ AllFinished σ ∧
      (.driver, .cv allDone) ∉ σ.sys.objects.sleepers ∧ (σ.ctl .driver).label = .watching := by
  obtain ⟨σ, reached, all⟩ :
      ∃ σ, execute (checked (fun σ _ => DriverWaits σ) (State.next (catmouselock fun _ => 1)))
          (start _ fun _ => 0) driverInTime = some σ ∧ AllFinished σ :=
    execute_check (by decide +kernel)
  obtain ⟨history, guarded, same⟩ := Run.of_execute reached
  obtain ⟨run, waits⟩ := guarded.of_checked
  exact ⟨history, σ, run, same, all, driver_sees_completion (by decide) run waits all⟩

/-- All animals come and go before the driver takes the lock. -/
def driverTooLate : List (Monitor.Label (Thread population)) :=
  let cats := (List.finRange _).map (Thread.animal .cat)
  let mice := (List.finRange _).map (Thread.animal .mouse)
  List.replicate 8 (.statement .driver 0) ++
    (cats ++ mice.dropLast).flatMap (fun t => served t ++ returns t ++ releases t) ++
    mice.getLast?.toList.flatMap (fun t => served t ++ returns t ++ signals t) ++ watches

/-- Then all have finished, and the driver is asleep. -/
theorem driver_asleep_driverTooLate :
    ∃ history σ, Run (Step population) (start _ fun _ => 0) history σ ∧
      history.map Prod.snd = driverTooLate.reverse ∧ AllFinished σ ∧
      (.driver, .cv allDone) ∈ σ.sys.objects.sleepers :=
  Run.of_check (by decide +kernel)

end Os161.CatMouse.Catlock
