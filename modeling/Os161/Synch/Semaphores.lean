import Os161.Synch.Locks

/-!
# Semaphores

Units are conserved: the count is what the semaphore was created with, plus the calls of `V`
and minus the calls of `P` that have returned. Handlers take part like threads.
-/
namespace Os161.Synch

open Foundation

variable {τ : Type} [DecidableEq τ] {initial : Ptr → CInt}

/-- `assert(count>0)` can only fail in a `V` on a semaphore with the largest count there is. -/
theorem System.Sound.full_of_step {σ : System τ} (sound : σ.Sound initial) {s : Ptr}
    (created : 0 ≤ (initial s).toInt) {label : Label τ}
    (failed : σ.step label = some (.error (.notPositive s))) :
    (σ.objects.count s).toInt = 2 ^ 31 - 1 := by
  have start := (sound.objects.balance s created).1
  have bound := (σ.objects.count s).toInt_lt
  have full : ¬ 0 < (σ.objects.count s + 1).toInt →
      (σ.objects.count s).toInt = 2 ^ 31 - 1 := by
    rw [toInt_add_one_pos start]
    omega
  rcases sound.refuses_of_step failed with ⟨t, refuses⟩ | ⟨k, same, overflow⟩
  · generalize (σ.stages t).call = call at refuses
    cases refuses with
    | negative s negative => omega
    | overflow s overflow => exact full overflow
  · cases same
    exact full overflow

namespace Machine

variable {m : Machine τ} {history : List (Machine τ × Event τ)}

/-- The count is the balance of the calls that have returned and never negative, nobody sleeps
while a unit is left, and `assert(count>0)` holds until a `V` takes the balance past the
largest `int`. -/
theorem semaphore_balance (run : Run Machine.Step (Machine.start initial) history m) (s : Ptr)
    (created : 0 ≤ (initial s).toInt) :
    (m.Settled →
      (m.objects.count s).toInt = (initial s).toInt + m.objects.ups s - m.objects.downs s ∧
      0 ≤ (m.objects.count s).toInt ∧
      ∀ t, (t, .sem s) ∈ m.objects.sleepers → m.objects.count s = 0) ∧
    (m.stopped = some (.notPositive s) →
      (initial s).toInt + m.objects.ups s - m.objects.downs s = 2 ^ 31 - 1) := by
  constructor
  · intro settled
    have sound := sound_of_run run settled
    obtain ⟨start, balance⟩ := sound.balance s created
    exact ⟨balance, start, fun t asleep => sound.exhausted t s asleep⟩
  intro stopped
  obtain ⟨σ, reaches, follows⟩ := simulated_of_run run
  simp only [Follows, stopped] at follows
  obtain ⟨⟨label, failed⟩, ups, downs⟩ := follows
  have sound := System.Sound.of_reaches reaches
  have balance := (sound.objects.balance s created).2
  rw [← ups, ← downs, ← balance]
  exact sound.full_of_step created failed

/-- A thread sleeps in `P`, an interrupt handler calls `V`, and the thread goes on. -/
def handover : List (Event (Fin 2)) :=
  [.dispatch 0, .call (.P 3), .run, .run, .interrupt 3, .dispatch 0] ++ List.replicate 4 .run

theorem semaphore_balance_handover :
    ∃ history m, Run Machine.Step (Machine.start fun _ => 0) history m ∧
      history.map Prod.snd = handover.reverse ∧ m.Settled ∧
      m.objects.ups 3 = 1 ∧ m.objects.downs 3 = 1 ∧ (m.objects.count 3).toInt = 0 := by
  obtain ⟨m, reached, running, level, ups, downs⟩ :
      ∃ m, execute Machine.next (Machine.start fun _ => 0) handover = some m ∧
        m.stopped = none ∧ m.curspl = .zero ∧ m.objects.ups 3 = 1 ∧ m.objects.downs 3 = 1 :=
    execute_check (by decide +kernel)
  obtain ⟨history, run, same⟩ := Run.of_execute reached
  have settled : m.Settled := ⟨running, fun _ _ => .inr level⟩
  obtain ⟨balance, -⟩ := (semaphore_balance run 3 (by decide)).1 settled
  refine ⟨history, m, run, same, settled, ups, downs, ?_⟩
  rw [balance, ups, downs]
  rfl

end Machine

end Os161.Synch
