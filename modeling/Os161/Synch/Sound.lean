import Mathlib.Data.List.Pairwise
import Os161.Synch.Sections

/-!
# What the sections of `thread/synch.c` keep

`Objects.Sound` says how owners, counts and sleepers fit together. `Stage.Knows` says what
a thread may take for granted at the point where it is. A step of one thread keeps both,
for itself and for all others.
-/
namespace Os161.Synch

open Foundation
open Function (update_of_ne update_self)

variable {τ : Type}

/-! ### The order of the sleepers -/

/-- The sleepers stand in the order in which they went to sleep. -/
structure Objects.Ordered (o : Objects τ) : Prop where
  order : o.sleepers.Pairwise fun e f => o.since e.1 < o.since f.1
  recent : ∀ e ∈ o.sleepers, o.since e.1 < o.naps

namespace Objects.Ordered

variable {o o' : Objects τ}

theorem of_sublist (ordered : o.Ordered) (fewer : o'.sleepers.Sublist o.sleepers)
    (since : o'.since = o.since) (naps : o'.naps = o.naps) : o'.Ordered := by
  constructor
  case order =>
    rw [since]
    exact ordered.order.sublist fewer
  case recent =>
    intro e member
    rw [since, naps]
    exact ordered.recent e (fewer.mem member)

theorem threadSleep [DecidableEq τ] (ordered : o.Ordered) {t : τ} (awake : ¬ o.Asleep t)
    (a : Addr) : (o.threadSleep t a).Ordered := by
  have older : ∀ e ∈ o.sleepers, Function.update o.since t o.naps e.1 = o.since e.1 := by
    intro e member
    exact update_of_ne (fun same => awake ⟨e, member, same⟩) _ _
  constructor
  case order =>
    simp only [Objects.threadSleep, List.pairwise_append, List.pairwise_singleton, true_and,
      List.mem_singleton, forall_eq, update_self]
    constructor
    · refine ordered.order.imp_of_mem ?_
      intro e f left right before
      rw [older e left, older f right]
      exact before
    · intro e member
      rw [older e member]
      exact ordered.recent e member
  case recent =>
    intro e member
    simp only [Objects.threadSleep, List.mem_append, List.mem_singleton] at member ⊢
    rcases member with member | rfl
    · rw [older e member]
      exact Nat.lt_succ_of_lt (ordered.recent e member)
    · simp

end Objects.Ordered

/-! ### Counts -/

theorem toInt_sub_one {c : CInt} (positive : 0 < c.toInt) : (c - 1).toInt = c.toInt - 1 := by
  have bound := c.toInt_lt
  rw [BitVec.toInt_sub, show (1 : CInt).toInt = 1 from rfl]
  rw [Int.bmod_eq_of_le] <;> omega

theorem toInt_add_one {c : CInt} (small : c.toInt < 2 ^ 31 - 1) :
    (c + 1).toInt = c.toInt + 1 := by
  have bound := c.le_toInt
  rw [BitVec.toInt_add, show (1 : CInt).toInt = 1 from rfl]
  rw [Int.bmod_eq_of_le] <;> omega

/-- `count++` wraps from the largest `int` to the smallest. -/
theorem toInt_add_one_pos {c : CInt} (start : 0 ≤ c.toInt) :
    0 < (c + 1).toInt ↔ c.toInt < 2 ^ 31 - 1 := by
  constructor
  · intro positive
    by_contra large
    have bound := c.toInt_lt
    have top : c = BitVec.ofInt 32 (2 ^ 31 - 1) := by
      apply BitVec.eq_of_toInt_eq
      rw [show (BitVec.ofInt 32 (2 ^ 31 - 1)).toInt = 2 ^ 31 - 1 from rfl]
      omega
    rw [top] at positive
    exact absurd positive (by decide)
  · intro small
    rw [toInt_add_one small]
    omega

/-! ### The objects -/

/-- How owners, counts and sleepers fit together, for semaphores created with the counts in
`initial`. -/
structure Objects.Sound (initial : Ptr → CInt) (o : Objects τ) : Prop where
  ordered : o.Ordered
  owned : ∀ l t, o.owner l = some t ↔ o.held l t = true
  /-- Nobody sleeps on a free lock. -/
  awaited : ∀ t l, (t, .lock l) ∈ o.sleepers → o.owner l ≠ none
  /-- Nobody sleeps on a semaphore with a unit left. -/
  exhausted : ∀ t s, (t, .sem s) ∈ o.sleepers → o.count s = 0
  /-- Units are neither lost nor made. -/
  balance : ∀ s, 0 ≤ (initial s).toInt →
    0 ≤ (o.count s).toInt ∧ (o.count s).toInt = (initial s).toInt + o.ups s - o.downs s

namespace Objects.Sound

variable {initial : Ptr → CInt} {o o' : Objects τ}

section

variable (sound : o.Sound initial)

include sound

/-- Sleepers may leave at any time. -/
theorem wake (fewer : o'.sleepers.Sublist o.sleepers)
    (rest : o' = { o with sleepers := o'.sleepers }) : o'.Sound initial := by
  rw [rest]
  constructor
  case ordered => exact sound.ordered.of_sublist fewer rfl rfl
  case owned => exact sound.owned
  case awaited => exact fun t l member => sound.awaited t l (fewer.mem member)
  case exhausted => exact fun t s member => sound.exhausted t s (fewer.mem member)
  case balance => exact sound.balance

theorem threadWakeup (a : Addr) : (o.threadWakeup a).Sound initial :=
  sound.wake List.filter_sublist rfl

theorem threadWakeOne (a : Addr) : (o.threadWakeOne a).Sound initial :=
  sound.wake List.eraseP_sublist rfl

theorem threadSleep [DecidableEq τ] {t : τ} (awake : ¬ o.Asleep t) {a : Addr}
    (taken : ∀ l, a = .lock l → o.owner l ≠ none) (used : ∀ s, a = .sem s → o.count s = 0) :
    (o.threadSleep t a).Sound initial := by
  constructor
  case ordered => exact sound.ordered.threadSleep awake a
  case owned => exact sound.owned
  case awaited =>
    intro u l member
    simp only [Objects.threadSleep, List.mem_append, List.mem_singleton, Prod.mk.injEq] at member
    rcases member with before | ⟨-, now⟩
    · exact sound.awaited u l before
    · exact taken l now.symm
  case exhausted =>
    intro u s member
    simp only [Objects.threadSleep, List.mem_append, List.mem_singleton, Prod.mk.injEq] at member
    rcases member with before | ⟨-, now⟩
    · exact sound.exhausted u s before
    · exact used s now.symm
  case balance => exact sound.balance

private theorem acquired [DecidableEq τ] {l : Ptr} (free : o.owner l = none) (t : τ) :
    ((o.setOwner l (some t)).setHeld l t true).Sound initial := by
  constructor
  case ordered => exact sound.ordered.of_sublist (List.Sublist.refl _) rfl rfl
  case owned =>
    intro k u
    by_cases here : k = l
    · subst here
      have before := sound.owned k u
      by_cases me : u = t
      · simp [setHeld, setOwner, me]
      · simp only [free, reduceCtorEq, false_iff] at before
        simp [setHeld, setOwner, me, before, Ne.symm me]
    · simp [setHeld, setOwner, here, sound.owned]
  case awaited =>
    intro u k member
    by_cases here : k = l
    · simp [setHeld, setOwner, here]
    · simpa [setHeld, setOwner, here] using sound.awaited u k member
  case exhausted => exact sound.exhausted
  case balance => exact sound.balance

theorem release [DecidableEq τ] {l : Ptr} {t : τ} (mine : o.owner l = some t) :
    (o.release t l).Sound initial := by
  have fewer : (o.release t l).sleepers.Sublist o.sleepers := List.filter_sublist
  constructor
  case ordered => exact sound.ordered.of_sublist fewer rfl rfl
  case owned =>
    intro k u
    by_cases here : k = l
    · subst here
      have before := sound.owned k u
      by_cases me : u = t
      · simp [Objects.release, Objects.threadWakeup, setHeld, setOwner, me]
      · simp only [mine, Option.some.injEq, Ne.symm me, false_iff] at before
        simp [Objects.release, Objects.threadWakeup, setHeld, setOwner, me, before]
    · simp [Objects.release, Objects.threadWakeup, setHeld, setOwner, here, sound.owned]
  case awaited =>
    intro u k member
    simp only [Objects.release, Objects.threadWakeup, List.mem_filter, ne_eq, decide_not,
      Bool.not_eq_eq_eq_not, Bool.not_true, decide_eq_false_iff_not, Addr.lock.injEq] at member
    simpa [Objects.release, Objects.threadWakeup, setHeld, setOwner, member.2]
      using sound.awaited u k member.1
  case exhausted => exact fun u s member => sound.exhausted u s (fewer.mem member)
  case balance => exact sound.balance

private theorem downed {s : Ptr} (positive : 0 < (o.count s).toInt) :
    ((o.setCount s (o.count s - 1)).downed s).Sound initial := by
  constructor
  case ordered => exact sound.ordered.of_sublist (List.Sublist.refl _) rfl rfl
  case owned => exact sound.owned
  case awaited => exact sound.awaited
  case exhausted =>
    intro u k member
    have zero := sound.exhausted u k member
    have apart : k ≠ s := by
      rintro rfl
      rw [zero] at positive
      exact absurd positive (by decide)
    simpa [Objects.downed, setCount, apart] using zero
  case balance =>
    intro k natural
    have before := sound.balance k natural
    by_cases here : k = s
    · subst here
      simp only [Objects.downed, setCount, update_self, toInt_sub_one positive]
      omega
    · simpa [Objects.downed, setCount, here] using before

private theorem upped {s : Ptr} (positive : 0 < (o.count s + 1).toInt) :
    (((o.setCount s (o.count s + 1)).threadWakeup (.sem s)).upped s).Sound initial := by
  constructor
  case ordered => exact sound.ordered.of_sublist List.filter_sublist rfl rfl
  case owned => exact sound.owned
  case awaited =>
    exact fun u k member => sound.awaited u k (List.mem_of_mem_filter member)
  case exhausted =>
    intro u k member
    simp only [Objects.upped, Objects.threadWakeup, setCount, List.mem_filter, ne_eq, decide_not,
      Bool.not_eq_eq_eq_not, Bool.not_true, decide_eq_false_iff_not, Addr.sem.injEq] at member
    simpa [Objects.upped, Objects.threadWakeup, setCount, member.2]
      using sound.exhausted u k member.1
  case balance =>
    intro k natural
    have before := sound.balance k natural
    by_cases here : k = s
    · subst here
      have more := toInt_add_one ((toInt_add_one_pos before.1).mp positive)
      simp only [Objects.upped, Objects.threadWakeup, setCount, update_self, more]
      omega
    · simpa [Objects.upped, Objects.threadWakeup, setCount, here] using before

end

end Objects.Sound

/-! ### The threads -/

variable [DecidableEq τ]

def Objects.Owns (o : Objects τ) (t : τ) (l : Ptr) : Prop := o.owner l = some t

/-- What a thread knows about the lock of its last call, in terms of the locks it owns. -/
def Stage.Knows (mine : Ptr → Prop) (st : Stage) : Prop :=
  match st.call, st.pos with
  | some (.lockAcquire l), .tested | some (.lockRelease l), .tested
  | some (.lockDoIHold l), .returned => st.answer = true ↔ mine l
  | some (.lockAcquire l), .looping | some (.cvWait _ l), .looping | some (.cvWait _ l), .woken
  | some (.lockRelease l), .returned => ¬ mine l
  | some (.lockAcquire l), .returned | some (.cvWait _ l), .returned => mine l
  | _, _ => True

/-- The call has the loop of `lock_acquire` as its last part. -/
def Stage.Acquires (l : Ptr) (st : Stage) : Prop :=
  st.call = some (.lockAcquire l) ∨ ∃ c, st.call = some (.cvWait c l)

/-- A thread at this point may sleep on the address. -/
def Stage.Waits (st : Stage) : Addr → Prop
  | .sem s => st.call = some (.P s) ∧ st.pos = .looping
  | .lock l => st.Acquires l ∧ st.pos = .looping
  | .cv c => (∃ l, st.call = some (.cvWait c l)) ∧ st.pos = .woken
  | .other _ => st.pos = .returned

/-- What a section of `t` leaves. -/
structure Objects.Kept (initial : Ptr → CInt) (t : τ) (o o' : Objects τ) (st' : Stage) : Prop where
  sound : o'.Sound initial
  knows : st'.Knows (o'.Owns t)
  /-- It takes no lock from another thread and gives it none. -/
  spares : ∀ u, u ≠ t → o'.Owns u = o.Owns u
  slept : ∀ e ∈ o'.sleepers, e ∈ o.sleepers ∨ (e.1 = t ∧ st'.Waits e.2)

namespace Objects

variable {initial : Ptr → CInt} {o : Objects τ} {t : τ} {l : Ptr}

omit [DecidableEq τ] in
private theorem owns_setOwner_some (free : o.owner l = none) {u : τ} (other : u ≠ t) :
    (o.setOwner l (some t)).Owns u = o.Owns u := by
  funext k
  by_cases here : k = l
  · simp [Owns, setOwner, here, free, Ne.symm other]
  · simp [Owns, setOwner, here]

theorem owns_release (mine : o.owner l = some t) {u : τ} (other : u ≠ t) :
    (o.release t l).Owns u = o.Owns u := by
  funext k
  by_cases here : k = l
  · simp [Owns, release, setOwner, setHeld, threadWakeup, here, mine, Ne.symm other]
  · simp [Owns, release, setOwner, setHeld, threadWakeup, here]

theorem not_owns_release (l : Ptr) : ¬ (o.release t l).Owns t l := by
  simp [Owns, release, setOwner, setHeld, threadWakeup]

private theorem kept_acquire (sound : o.Sound initial) (awake : ¬ o.Asleep t)
    (stranger : ¬ o.Owns t l) {st st' : Stage} {o' : Objects τ} (acquires : st.Acquires l)
    (done : o.acquire t l st = (o', st')) : o.Kept initial t o' st' := by
  unfold acquire at done
  split at done
  next free =>
    cases done
    have record : (o.setOwner l (some t)).returned t st.call =
        (o.setOwner l (some t)).setHeld l t true := by
      rcases acquires with call | ⟨c, call⟩ <;> rw [call] <;> rfl
    have mine : ((o.setOwner l (some t)).setHeld l t true).Owns t l := by
      simp [Owns, setOwner, setHeld]
    rw [record]
    constructor
    case sound => exact sound.acquired free t
    case knows =>
      rcases acquires with call | ⟨c, call⟩ <;> simp only [Stage.Knows, call] <;> exact mine
    case spares => exact fun u other => owns_setOwner_some free other
    case slept => exact fun e member => .inl member
  next taken =>
    cases done
    constructor
    case sound =>
      refine sound.threadSleep awake ?_ (by simp)
      rintro k same
      cases same
      exact taken
    case knows =>
      rcases acquires with call | ⟨c, call⟩ <;> simp only [Stage.Knows, call] <;> exact stranger
    case spares => exact fun u other => rfl
    case slept =>
      intro e member
      rcases List.mem_append.mp member with before | now
      · exact .inl before
      · rw [List.mem_singleton] at now
        subst now
        exact .inr ⟨rfl, acquires, rfl⟩

private theorem kept_release (sound : o.Sound initial) (mine : o.Owns t l) {st' : Stage}
    (call : st'.call = some (.lockRelease l)) (pos : st'.pos = .returned) :
    o.Kept initial t (o.release t l) st' := by
  constructor
  case sound => exact sound.release mine
  case knows => simpa only [Stage.Knows, call, pos] using not_owns_release l
  case spares => exact fun u other => owns_release mine other
  case slept => exact fun e member => .inl (List.mem_of_mem_filter member)

/-- `cv_wait` up to its sleep. -/
theorem kept_wait (sound : o.Sound initial) (awake : ¬ o.Asleep t) {c l : Ptr}
    (mine : o.Owns t l) {st' : Stage} (call : st'.call = some (.cvWait c l))
    (pos : st'.pos = .woken) :
    o.Kept initial t ((o.release t l).threadSleep t (.cv c)) st' := by
  have still : ¬ (o.release t l).Asleep t := by
    rintro ⟨e, member, same⟩
    exact awake ⟨e, List.mem_of_mem_filter member, same⟩
  constructor
  case sound => exact (sound.release mine).threadSleep still (by simp) (by simp)
  case knows =>
    simp only [Stage.Knows, call, pos]
    exact not_owns_release l
  case spares => exact fun u other => owns_release mine other
  case slept =>
    intro e member
    rcases List.mem_append.mp member with before | now
    · exact .inl (List.mem_of_mem_filter before)
    · rw [List.mem_singleton] at now
      subst now
      exact .inr ⟨rfl, ⟨l, call⟩, pos⟩

omit [DecidableEq τ] in
/-- A section that changes no owner, wakes whom it likes and leaves its thread at a point
where it needs to know nothing. -/
theorem kept_quiet {o' : Objects τ} {st' : Stage} (sound : o'.Sound initial)
    (owner : o'.owner = o.owner) (fewer : o'.sleepers.Sublist o.sleepers)
    (knows : st'.Knows (o.Owns t)) : o.Kept initial t o' st' := by
  have same : ∀ u, o'.Owns u = o.Owns u := by
    intro u
    unfold Owns
    rw [owner]
  constructor
  case sound => exact sound
  case knows => exact same t ▸ knows
  case spares => exact fun u _ => same u
  case slept => exact fun e member => .inl (fewer.mem member)

private theorem kept_down (sound : o.Sound initial) (awake : ¬ o.Asleep t) {s : Ptr}
    {st st' : Stage}
    {o' : Objects τ} (call : st.call = some (.P s)) (done : o.down t s st = .ok (o', st')) :
    o.Kept initial t o' st' := by
  unfold down at done
  split at done
  next zero =>
    cases done
    constructor
    case sound =>
      refine sound.threadSleep awake (by simp) ?_
      rintro k same
      cases same
      exact zero
    case knows => simp [Stage.Knows, call]
    case spares => exact fun u other => rfl
    case slept =>
      intro e member
      rcases List.mem_append.mp member with before | now
      · exact .inl before
      · rw [List.mem_singleton] at now
        subst now
        exact .inr ⟨rfl, call, rfl⟩
  next =>
    split at done
    next positive =>
      cases done
      exact kept_quiet (sound.downed positive) rfl (List.Sublist.refl _)
        (by simp [Stage.Knows, call])
    next => cases done

omit [DecidableEq τ] in
theorem sound_up (sound : o.Sound initial) {s : Ptr} {o' : Objects τ} (done : o.up s = .ok o') :
    o'.Sound initial ∧ o'.owner = o.owner ∧ o'.sleepers.Sublist o.sleepers := by
  unfold up at done
  split at done
  next positive =>
    cases done
    exact ⟨sound.upped positive, rfl, List.filter_sublist⟩
  next => cases done

end Objects

/-- Every section of every function. -/
theorem Stage.kept_advance {initial : Ptr → CInt} {o o' : Objects τ} {t : τ} {st st' : Stage}
    (sound : o.Sound initial) (awake : ¬ o.Asleep t) (knows : st.Knows (o.Owns t))
    (done : st.advance t o = some (.ok (o', st'))) : o.Kept initial t o' st' := by
  have same := List.Sublist.refl o.sleepers
  unfold Stage.advance at done
  split at done
  -- the answer of `lock_do_i_hold`
  next l call pos =>
    cases done
    exact Objects.kept_quiet sound rfl same (by simp [Stage.Knows, call, Objects.Owns])
  next l call pos =>
    cases done
    exact Objects.kept_quiet sound rfl same (by simp [Stage.Knows, call, Objects.Owns])
  next l call pos =>
    cases done
    exact Objects.kept_quiet sound rfl same (by simp [Stage.Knows, call, Objects.Owns])
  -- `lock_acquire` and `lock_release` act on it; nobody else can have made it wrong
  next l call pos =>
    simp only [Stage.Knows, call, pos] at knows
    split at done
    · cases done
    next no =>
      simp only [Option.some.injEq, Except.ok.injEq] at done
      exact Objects.kept_acquire sound awake (fun mine => no (knows.mpr mine)) (.inl call) done
  next l call pos =>
    simp only [Stage.Knows, call, pos] at knows
    split at done
    next yes =>
      cases done
      exact Objects.kept_release sound (knows.mp yes) call rfl
    · cases done
  -- `cv_wait`
  next c l call pos =>
    split at done
    next mine =>
      cases done
      exact Objects.kept_wait sound awake mine call rfl
    · cases done
  next c l call pos =>
    split at done
    · cases done
    next stranger =>
      simp only [Option.some.injEq, Except.ok.injEq] at done
      have acquires : Stage.Acquires l { st with answer := false } := .inr ⟨c, call⟩
      exact Objects.kept_acquire sound awake stranger acquires done
  -- one more turn of the loop of `lock_acquire`
  next l call pos =>
    simp only [Stage.Knows, call, pos] at knows
    simp only [Option.some.injEq, Except.ok.injEq] at done
    exact Objects.kept_acquire sound awake knows (.inl call) done
  next c l call pos =>
    simp only [Stage.Knows, call, pos] at knows
    simp only [Option.some.injEq, Except.ok.injEq] at done
    exact Objects.kept_acquire sound awake knows (.inr ⟨c, call⟩) done
  -- `cv_signal` and `cv_broadcast`
  next c l call pos =>
    split at done
    · cases done
      exact Objects.kept_quiet (sound.threadWakeOne _) rfl List.eraseP_sublist
        (by simp [Stage.Knows, call])
    · cases done
  next c l call pos =>
    split at done
    · cases done
      exact Objects.kept_quiet (sound.threadWakeup _) rfl List.filter_sublist
        (by simp [Stage.Knows, call])
    · cases done
  -- `P` and `V`
  next s call pos =>
    rw [Option.some.injEq] at done
    exact Objects.kept_down sound awake call done
  next s call pos =>
    rw [Option.some.injEq] at done
    exact Objects.kept_down sound awake call done
  next s call pos =>
    cases outcome : o.up s with
    | error why =>
      rw [outcome] at done
      cases done
    | ok after =>
      rw [outcome] at done
      cases done
      obtain ⟨kept, owner, fewer⟩ := Objects.sound_up sound outcome
      exact Objects.kept_quiet kept owner fewer (by simp [Stage.Knows, call])
  next => cases done

/-! ### The system -/

structure System.Sound (initial : Ptr → CInt) (σ : System τ) : Prop where
  objects : σ.objects.Sound initial
  knows : ∀ t, (σ.stages t).Knows (σ.objects.Owns t)
  waits : ∀ e ∈ σ.objects.sleepers, (σ.stages e.1).Waits e.2

namespace System

variable {initial : Ptr → CInt} {σ after : System τ}

/-- A section of `t` moves nobody else. -/
theorem Sound.setStage (sound : σ.Sound initial) {t : τ} {o : Objects τ} {st : Stage}
    (awake : ¬ σ.objects.Asleep t) (kept : σ.objects.Kept initial t o st) :
    (σ.setStage t o st).Sound initial := by
  constructor
  case objects => exact kept.sound
  case knows =>
    intro u
    by_cases me : u = t
    · subst me
      simpa only [System.setStage, update_self] using kept.knows
    · simp only [System.setStage, update_of_ne me, kept.spares u me]
      exact sound.knows u
  case waits =>
    intro e member
    rcases kept.slept e member with before | ⟨me, waits⟩
    · have other : e.1 ≠ t := fun same => awake ⟨e, before, same⟩
      simp only [System.setStage, update_of_ne other]
      exact sound.waits e before
    · simp only [System.setStage, me, update_self]
      exact waits

omit [DecidableEq τ] in
/-- A wakeup from outside the calls changes nothing but the sleepers. -/
theorem Sound.setObjects (sound : σ.Sound initial) {o : Objects τ} (kept : o.Sound initial)
    (owner : o.owner = σ.objects.owner) (fewer : o.sleepers.Sublist σ.objects.sleepers) :
    ({ σ with objects := o } : System τ).Sound initial := by
  constructor
  case objects => exact kept
  case knows =>
    intro t
    have same : o.Owns t = σ.objects.Owns t := by
      unfold Objects.Owns
      rw [owner]
    exact same ▸ sound.knows t
  case waits => exact fun e member => sound.waits e (fewer.mem member)

theorem Sound.next (sound : σ.Sound initial) {label : Label τ}
    (taken : σ.next label = some after) : after.Sound initial := by
  unfold System.next at taken
  split at taken
  next after' stepped =>
    cases taken
    cases label with
    | call t op =>
      simp only [step, Option.ite_none_right_eq_some, Option.some.injEq, Except.ok.injEq] at stepped
      obtain ⟨free, rfl⟩ := stepped
      refine sound.setStage free.2 (Objects.kept_quiet sound.objects rfl (List.Sublist.refl _) ?_)
      cases op <;> simp only [Stage.Knows]
    | goOn t =>
      simp only [step, Option.ite_none_left_eq_some, Option.map_eq_some_iff] at stepped
      obtain ⟨awake, outcome, advanced, mapped⟩ := stepped
      cases outcome with
      | error why => cases mapped
      | ok moved =>
        cases mapped
        exact sound.setStage awake
          (Stage.kept_advance sound.objects awake (sound.knows t) advanced)
    | sleep t p =>
      simp only [step, Option.ite_none_right_eq_some, Option.some.injEq, Except.ok.injEq] at stepped
      obtain ⟨free, rfl⟩ := stepped
      constructor
      case objects => exact sound.objects.threadSleep free.2 (by simp) (by simp)
      case knows => exact sound.knows
      case waits =>
        intro e member
        rcases List.mem_append.mp member with before | now
        · exact sound.waits e before
        · rw [List.mem_singleton] at now
          subst now
          exact free.1
    | interrupt s =>
      simp only [step, Option.some.injEq] at stepped
      cases outcome : σ.objects.up s with
      | error why =>
        rw [outcome] at stepped
        cases stepped
      | ok o =>
        rw [outcome] at stepped
        cases stepped
        obtain ⟨kept, owner, fewer⟩ := Objects.sound_up sound.objects outcome
        exact sound.setObjects kept owner fewer
    | wakeup p =>
      cases stepped
      exact sound.setObjects (sound.objects.threadWakeup _) rfl List.filter_sublist
    | wakeOne p =>
      cases stepped
      exact sound.setObjects (sound.objects.threadWakeOne _) rfl List.eraseP_sublist
  next => cases taken

omit [DecidableEq τ] in
theorem Sound.start (initial : Ptr → CInt) : (System.start initial : System τ).Sound initial := by
  constructor
  case objects =>
    constructor
    case ordered => exact ⟨List.Pairwise.nil, by simp [System.start, Machine.start]⟩
    case owned => simp [System.start, Machine.start]
    case awaited => simp [System.start, Machine.start]
    case exhausted => simp [System.start, Machine.start]
    case balance => simp [System.start, Machine.start]
  case knows => exact fun t => trivial
  case waits => simp [System.start, Machine.start]

end System

end Os161.Synch
