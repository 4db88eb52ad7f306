import Mathlib.Data.List.Nodup
import Os161.Foundation.Baton
import Os161.Foundation.Transition

/-!
# The console, `lser.c` and `console.c`

`putch` sends a character in one of two ways. With interrupts on it waits for the unit of
`cs_wsem`, which the interrupt at the end of a character gives back. With interrupts off it waits
in a loop, and borrows the device from the other way if need be. Threads and interrupt handlers
are not told apart here: a call is made with interrupts on or off.
-/
namespace Os161.Io

open Foundation
open Function (update update_of_ne update_self)

/-- The serial port. `active` is the bit `LSER_IRQ_ACTIVE`: a character has been sent. -/
inductive Line where
  | idle
  | sending
  | active
  deriving DecidableEq

/-- Where a thread is in `putch`, with the number of the call and its character. -/
inductive Putting (γ : Type) where
  | idle
  /-- At `P(cs_wsem)`. -/
  | wanting (n : Nat) (ch : γ)
  /-- Between `P(cs_wsem)` and `lser_write`. -/
  | admitted (n : Nat) (ch : γ)
  /-- At the test of `ls_wbusy` in `lser_writepolled`. -/
  | polled (n : Nat) (ch : γ)
  /-- In the first loop. -/
  | draining (n : Nat) (ch : γ)
  /-- At the write of the character, with `irqpending`. -/
  | sending (n : Nat) (ch : γ) (irqpending : Bool)
  /-- In the second loop. -/
  | spinning (irqpending : Bool)

structure Console (τ γ : Type) where
  /-- The count of `cs_wsem`. -/
  wsem : Nat
  wbusy : Bool
  line : Line
  /-- The thread that is in `lser_writepolled`; nothing else runs then. -/
  polling : Option τ
  place : τ → Putting γ
  /-- The characters passed to `putch`, and those the device got, by the numbers of the calls. -/
  passed : List γ
  written : List (Nat × γ)
  /-- `panic("lser: Not clear to write")`. -/
  stopped : Bool

namespace Console

variable {τ γ : Type} [DecidableEq τ]

def move (c : Console τ γ) (t : τ) (k : Putting γ) : Console τ γ :=
  { c with place := update c.place t k }

/-- A write to `LSER_REG_CHAR`. -/
def send (c : Console τ γ) (n : Nat) (ch : γ) : Console τ γ :=
  { c with line := .sending, written := c.written ++ [(n, ch)] }

inductive Event (τ γ : Type) where
  /-- `putch`, with interrupts off or on. -/
  | putch (t : τ) (ch : γ) (off : Bool)
  | down (t : τ)
  /-- `lser_write`. -/
  | write (t : τ)
  /-- The device has sent its character. -/
  | complete
  /-- `lser_irq`. -/
  | irq
  /-- A step of `lser_writepolled`. -/
  | poll (t : τ)

/-- The events that need the processor, and interrupts on. -/
def interruptible (c : Console τ γ) : Event τ γ → Option (Console τ γ)
  | .putch t ch off =>
    match c.place t with
    | .idle =>
      let called := { c with passed := c.passed ++ [ch] }
      if off then some { called.move t (.polled c.passed.length ch) with polling := some t }
      else some (called.move t (.wanting c.passed.length ch))
    | _ => none
  | .down t =>
    match c.place t with
    | .wanting n ch =>
      if 0 < c.wsem then some { c.move t (.admitted n ch) with wsem := c.wsem - 1 } else none
    | _ => none
  | .write t =>
    match c.place t with
    | .admitted n ch =>
      if c.wbusy then some { c with stopped := true }
      else some { (c.move t .idle).send n ch with wbusy := true }
    | _ => none
  | .irq =>
    match c.line with
    | .active => some { c with wbusy := false, line := .idle, wsem := c.wsem + 1 }
    | _ => some c
  | _ => none

/-- A step of `lser_writepolled`; a loop goes on until the device has sent its character. -/
def pollStep (c : Console τ γ) (t : τ) : Option (Console τ γ) :=
  match c.place t with
  | .polled n ch => if c.wbusy then some (c.move t (.draining n ch))
      else some (c.move t (.sending n ch false))
  | .draining n ch =>
    match c.line with
    | .active => some { c.move t (.sending n ch true) with line := .idle }
    | _ => none
  | .sending n ch irqpending => some ((c.move t (.spinning irqpending)).send n ch)
  | .spinning irqpending =>
    match c.line with
    | .active =>
      let returned := { c.move t .idle with polling := none }
      -- an interrupt that was pending is left for the handler
      if irqpending then some returned else some { returned with line := .idle }
    | _ => none
  | _ => none

def react (c : Console τ γ) : Event τ γ → Option (Console τ γ)
  | .complete =>
    match c.line with
    | .sending => some { c with line := .active }
    | _ => none
  | .poll t => if c.polling = some t then c.pollStep t else none
  | event => if c.polling = none then c.interruptible event else none

def next (c : Console τ γ) (event : Event τ γ) : Option (Console τ γ) :=
  if c.stopped then none else c.react event

theorem next_eq {c : Console τ γ} (running : c.stopped = false) (event : Event τ γ) :
    c.next event = c.react event := by
  rw [next, running, if_neg Bool.false_ne_true]

def initial : Console τ γ := ⟨1, false, .idle, none, fun _ => .idle, [], [], false⟩

/-! ### The unit of `cs_wsem` -/

def Admitted : Putting γ → Prop
  | .admitted .. => True
  | _ => False

/-- The unit is in the semaphore, with a thread, or with the device. -/
inductive Token (c : Console τ γ) : Prop
  | free (nobody : Holder Admitted c.place none) (wsem : c.wsem = 1) (ready : c.wbusy = false)
  | held (t : τ) (holder : Holder Admitted c.place (some t)) (wsem : c.wsem = 0)
      (ready : c.wbusy = false)
  | sent (nobody : Holder Admitted c.place none) (wsem : c.wsem = 0) (busy : c.wbusy = true)

/-! ### The device -/

def Polling : Putting γ → Prop
  | .polled .. | .draining .. | .sending .. | .spinning .. => True
  | _ => False

/-- What is known of the device while it is written to by polling. -/
def Stage (c : Console τ γ) : Putting γ → Prop
  | .polled .. => c.line = .idle ↔ c.wbusy = false
  | .draining .. => c.line ≠ .idle ∧ c.wbusy = true
  | .sending _ _ irqpending => c.line = .idle ∧ c.wbusy = irqpending
  | .spinning irqpending => c.line ≠ .idle ∧ c.wbusy = irqpending
  | _ => False

/-- Outside, the device is at work exactly while `ls_wbusy` is set. -/
inductive Steady (c : Console τ γ) : Prop
  | quiet (on : c.polling = none) (nobody : Holder Polling c.place none)
      (line : c.line = .idle ↔ c.wbusy = false)
  | polling (t : τ) (off : c.polling = some t) (holder : Holder Polling c.place (some t))
      (stage : c.Stage (c.place t))

/-! ### The characters -/

/-- The call that has not yet been written. -/
def pending : Putting γ → Option (Nat × γ)
  | .wanting n ch | .admitted n ch | .polled n ch | .draining n ch | .sending n ch _ => some (n, ch)
  | .idle | .spinning _ => none

/-- Every call is pending or written, and once. -/
structure Accounted (c : Console τ γ) : Prop where
  waiting : ∀ t n ch, pending (c.place t) = some (n, ch) →
    c.passed[n]? = some ch ∧ n ∉ c.written.map Prod.fst
  apart : ∀ t u n ch ch', Console.pending (c.place t) = some (n, ch) →
    Console.pending (c.place u) = some (n, ch') → t = u
  once : (c.written.map Prod.fst).Nodup
  right : ∀ n ch, (n, ch) ∈ c.written → c.passed[n]? = some ch
  all : ∀ n < c.passed.length, n ∈ c.written.map Prod.fst ∨
    ∃ t ch, Console.pending (c.place t) = some (n, ch)

structure Inv (c : Console τ γ) : Prop where
  running : c.stopped = false
  token : c.Token
  steady : c.Steady
  accounted : c.Accounted

omit [DecidableEq τ] in
private theorem inv_initial : Inv (initial : Console τ γ) where
  running := rfl
  token := .free (fun _ => id) rfl rfl
  steady := .quiet rfl (fun _ => id) (iff_of_true rfl rfl)
  accounted := ⟨nofun, nofun, List.nodup_nil, nofun, nofun⟩

section

variable {c d : Console τ γ} {t : τ} {k : Putting γ}

/-! ### Moves that an invariant does not notice -/

theorem Token.pass (token : c.Token) (moved : d.place = update c.place t k)
    (before : ¬ Admitted (c.place t)) (after : ¬ Admitted k) (wsem : d.wsem = c.wsem)
    (wbusy : d.wbusy = c.wbusy) : d.Token := by
  cases token with
  | free nobody units ready =>
    exact .free (moved ▸ nobody.pass before after) (wsem.trans units) (wbusy.trans ready)
  | held u holder units ready =>
    exact .held u (moved ▸ holder.pass before after) (wsem.trans units) (wbusy.trans ready)
  | sent nobody units busy =>
    exact .sent (moved ▸ nobody.pass before after) (wsem.trans units) (wbusy.trans busy)

omit [DecidableEq τ] in
/-- With interrupts on nobody polls. -/
theorem Steady.line (steady : c.Steady) (on : c.polling = none) :
    Holder Polling c.place none ∧ (c.line = .idle ↔ c.wbusy = false) := by
  cases steady with
  | quiet _ nobody line => exact ⟨nobody, line⟩
  | polling u off => exact nomatch on.symm.trans off

omit [DecidableEq τ] in
theorem Steady.stage (steady : c.Steady) (off : c.polling = some t) :
    Holder Polling c.place (some t) ∧ c.Stage (c.place t) := by
  cases steady with
  | quiet on => exact nomatch on.symm.trans off
  | polling u off' holder stage =>
    cases off'.symm.trans off
    exact ⟨holder, stage⟩

theorem Steady.pass (steady : c.Steady) (on : c.polling = none)
    (moved : d.place = update c.place t k) (after : ¬ Polling k)
    (polling : d.polling = c.polling) (line : d.line = .idle ↔ d.wbusy = false) : d.Steady := by
  obtain ⟨nobody, -⟩ := steady.line on
  exact .quiet (polling.trans on) (moved ▸ nobody.pass (nobody t) after) line

/-- The polling thread goes on. -/
theorem Steady.advance (holder : Holder Polling c.place (some t)) (off : c.polling = some t)
    (moved : d.place = update c.place t k) (inside : Polling k)
    (polling : d.polling = c.polling) (stage : d.Stage k) : d.Steady := by
  refine .polling t (polling.trans off) (moved ▸ holder.stay inside) ?_
  rw [moved, update_self]
  exact stage

/-! ### The three ways in which the calls change -/

/-- A move that keeps the call keeps all the calls. -/
theorem pending_update {place : τ → Putting γ} {u : τ} (same : pending k = pending (place u)) :
    pending (update place u k t) = pending (place t) := by
  by_cases self : t = u
  · rw [self, update_self, same]
  · rw [update_of_ne self]

section

variable (accounted : c.Accounted) (moved : d.place = update c.place t k)

include accounted moved

theorem Accounted.keep (same : pending k = pending (c.place t)) (passed : d.passed = c.passed)
    (written : d.written = c.written) : d.Accounted := by
  have all (u : τ) : pending (d.place u) = pending (c.place u) := by
    rw [moved, pending_update same]
  constructor
  · intro u n ch
    rw [all, passed, written]
    exact accounted.waiting u n ch
  · intro u w n ch ch'
    rw [all, all]
    exact accounted.apart u w n ch ch'
  · rw [written]
    exact accounted.once
  · rw [written, passed]
    exact accounted.right
  · intro n
    simp only [all, written, passed]
    exact accounted.all n

theorem Accounted.issue {ch : γ} (before : pending (c.place t) = none)
    (after : pending k = some (c.passed.length, ch)) (passed : d.passed = c.passed ++ [ch])
    (written : d.written = c.written) : d.Accounted := by
  -- the numbers in use are smaller than that of the new call
  have old {n : Nat} {x : γ} (here : c.passed[n]? = some x) :
      n < c.passed.length ∧ (c.passed ++ [ch])[n]? = some x := by
    have small := (List.getElem?_eq_some_iff.mp here).1
    exact ⟨small, by rw [List.getElem?_append_left small, here]⟩
  have place {u : τ} {n : Nat} {x : γ} (here : pending (d.place u) = some (n, x)) :
      (u = t ∧ n = c.passed.length ∧ x = ch) ∨ pending (c.place u) = some (n, x) := by
    rw [moved] at here
    by_cases self : u = t
    · rw [self, update_self, after] at here
      cases here
      exact .inl ⟨self, rfl, rfl⟩
    · rw [update_of_ne self] at here
      exact .inr here
  have fresh : c.passed.length ∉ c.written.map Prod.fst := by
    intro member
    obtain ⟨⟨n, x⟩, listed, same⟩ := List.mem_map.mp member
    have small := (old (accounted.right n x listed)).1
    exact absurd same (Nat.ne_of_lt small)
  constructor
  · intro u n x here
    rw [passed, written]
    rcases place here with ⟨-, rfl, rfl⟩ | earlier
    · exact ⟨List.getElem?_concat_length, fresh⟩
    · obtain ⟨found, unwritten⟩ := accounted.waiting u n x earlier
      exact ⟨(old found).2, unwritten⟩
  · intro u w n x y first second
    rcases place first with ⟨rfl, rfl, -⟩ | first <;>
      rcases place second with ⟨rfl, same, -⟩ | second
    · rfl
    · exact absurd (old (accounted.waiting w _ y second).1).1 (Nat.lt_irrefl _)
    · rw [same] at first
      exact absurd (old (accounted.waiting u _ x first).1).1 (Nat.lt_irrefl _)
    · exact accounted.apart u w n x y first second
  · rw [written]
    exact accounted.once
  · intro n x listed
    rw [written] at listed
    rw [passed]
    exact (old (accounted.right n x listed)).2
  intro n small
  rw [passed, List.length_append, List.length_singleton] at small
  rw [written, moved]
  by_cases new : n = c.passed.length
  · exact .inr ⟨t, ch, by rw [update_self, after, new]⟩
  rcases accounted.all n (by omega) with done | ⟨u, x, here⟩
  · exact .inl done
  refine .inr ⟨u, x, ?_⟩
  have other : u ≠ t := fun same => by
    rw [same, before] at here
    cases here
  rwa [update_of_ne other]

theorem Accounted.emit {n : Nat} {ch : γ} (before : pending (c.place t) = some (n, ch))
    (after : pending k = none) (passed : d.passed = c.passed)
    (written : d.written = c.written ++ [(n, ch)]) : d.Accounted := by
  obtain ⟨found, unwritten⟩ := accounted.waiting t n ch before
  have place {u : τ} {m : Nat} {x : γ} (here : pending (d.place u) = some (m, x)) :
      u ≠ t ∧ pending (c.place u) = some (m, x) := by
    rw [moved] at here
    by_cases self : u = t
    · rw [self, update_self, after] at here
      cases here
    · rw [update_of_ne self] at here
      exact ⟨self, here⟩
  have numbers : d.written.map Prod.fst = c.written.map Prod.fst ++ [n] := by
    rw [written, List.map_append]
    rfl
  constructor
  · intro u m x here
    obtain ⟨other, here⟩ := place here
    obtain ⟨found', unwritten'⟩ := accounted.waiting u m x here
    rw [passed, numbers, List.mem_append, List.mem_singleton]
    refine ⟨found', ?_⟩
    rintro (old | rfl)
    · exact unwritten' old
    · exact other (accounted.apart u t m x ch here before)
  · intro u w m x y first second
    exact accounted.apart u w m x y (place first).2 (place second).2
  · rw [numbers]
    exact List.concat_eq_append ▸ accounted.once.concat unwritten
  · intro m x listed
    rw [written, List.mem_append, List.mem_singleton] at listed
    rw [passed]
    rcases listed with old | new
    · exact accounted.right m x old
    · cases new
      exact found
  intro m small
  rw [passed] at small
  rw [numbers, List.mem_append, List.mem_singleton, moved]
  rcases accounted.all m small with done | ⟨u, x, here⟩
  · exact .inl (.inl done)
  by_cases self : u = t
  · rw [self, before] at here
    cases here
    exact .inl (.inr rfl)
  · exact .inr ⟨u, x, by rwa [update_of_ne self]⟩

end

/-! ### Steps -/

section

variable (inv : c.Inv) (on : c.polling = none)

include inv on

theorem Inv.putch {ch : γ} {off : Bool} (stepped : c.interruptible (.putch t ch off) = some d) :
    d.Inv := by
  simp only [interruptible] at stepped
  split at stepped
  next here =>
    have out : ¬ Admitted (c.place t) := by rw [here]; exact id
    have nothing : pending (c.place t) = none := by rw [here]; rfl
    obtain ⟨nobody, line⟩ := inv.steady.line on
    split at stepped
    · cases stepped
      refine ⟨inv.running, inv.token.pass rfl out id rfl rfl, ?_,
        inv.accounted.issue rfl nothing rfl rfl rfl⟩
      refine .polling t rfl (nobody.enter trivial) ?_
      change Stage _ (update c.place t (.polled c.passed.length ch) t)
      rw [update_self]
      exact line
    · cases stepped
      exact ⟨inv.running, inv.token.pass rfl out id rfl rfl, inv.steady.pass on rfl id rfl line,
        inv.accounted.issue rfl nothing rfl rfl rfl⟩
  next => cases stepped

theorem Inv.down (stepped : c.interruptible (.down t) = some d) : d.Inv := by
  simp only [interruptible] at stepped
  split at stepped
  next n ch here =>
    obtain ⟨units, same⟩ := Option.ite_none_right_eq_some.mp stepped
    cases same
    refine ⟨inv.running, ?_, inv.steady.pass on rfl id rfl (inv.steady.line on).2,
      inv.accounted.keep (t := t) rfl (by rw [here]; rfl) rfl rfl⟩
    -- only the semaphore itself can have the unit
    cases inv.token with
    | free nobody wsem ready =>
      refine .held t (nobody.enter trivial) ?_ ready
      change c.wsem - 1 = 0
      omega
    | held _ _ wsem => omega
    | sent _ wsem => omega
  next => cases stepped

/-- The thread that has the unit finds the device ready. -/
theorem Inv.write (stepped : c.interruptible (.write t) = some d) : d.Inv := by
  simp only [interruptible] at stepped
  split at stepped
  next n ch here =>
    have inside : Admitted (c.place t) := by rw [here]; trivial
    cases inv.token with
    | free nobody => exact absurd inside (nobody t)
    | sent nobody => exact absurd inside (nobody t)
    | held u holder wsem ready =>
      cases holder.2 t inside
      rw [ready] at stepped
      cases stepped
      refine ⟨inv.running, .sent (holder.leave id) wsem rfl, ?_,
        inv.accounted.emit (t := t) rfl (by rw [here]; rfl) rfl rfl rfl⟩
      exact inv.steady.pass on rfl id rfl (iff_of_false nofun nofun)
  next => cases stepped

omit [DecidableEq τ] in
theorem Inv.irq (active : c.line = .active) :
    Inv { c with wbusy := false, line := .idle, wsem := c.wsem + 1 } := by
  obtain ⟨nobody, line⟩ := inv.steady.line on
  have busy : c.wbusy ≠ false := fun ready => nomatch active.symm.trans (line.mpr ready)
  refine ⟨inv.running, ?_, .quiet on nobody (iff_of_true rfl rfl), ?_⟩
  · cases inv.token with
    | free _ _ ready => exact absurd ready busy
    | held _ _ _ ready => exact absurd ready busy
    | sent nobody wsem =>
      refine .free nobody ?_ rfl
      change c.wsem + 1 = 1
      omega
  · exact { inv.accounted with }

end

omit [DecidableEq τ] in
theorem Inv.complete (inv : c.Inv) (sending : c.line = .sending) :
    Inv { c with line := .active } := by
  have busy : c.line ≠ .idle := fun idle => nomatch sending.symm.trans idle
  refine ⟨inv.running, ?_, ?_, ?_⟩
  · cases inv.token with
    | free nobody wsem ready => exact .free nobody wsem ready
    | held t holder wsem ready => exact .held t holder wsem ready
    | sent nobody wsem busy => exact .sent nobody wsem busy
  · cases inv.steady with
    | quiet on nobody line =>
      exact .quiet on nobody (iff_of_false nofun fun ready => busy (line.mpr ready))
    | polling t off holder stage =>
      refine .polling t off holder ?_
      generalize c.place t = place at stage ⊢
      cases place with
      | polled => exact iff_of_false nofun fun ready => busy (stage.mpr ready)
      | draining | spinning => exact ⟨nofun, stage.2⟩
      | sending => exact absurd stage.1 busy
      | idle | wanting | admitted => exact stage
  · exact { inv.accounted with }

theorem Inv.poll (inv : c.Inv) (off : c.polling = some t) (stepped : c.pollStep t = some d) :
    d.Inv := by
  obtain ⟨holder, stage⟩ := inv.steady.stage off
  have out : ¬ Admitted (c.place t) := by
    have inside := holder.1
    cases here : c.place t with
    | admitted =>
      rw [here] at inside
      exact inside.elim
    | _ => exact id
  simp only [pollStep] at stepped
  split at stepped
  next n ch here =>
    rw [here] at stage
    split at stepped
    next busy =>
      cases stepped
      refine ⟨inv.running, inv.token.pass rfl out id rfl rfl,
        .advance holder off rfl trivial rfl ?_,
        inv.accounted.keep (t := t) rfl (by rw [here]; rfl) rfl rfl⟩
      refine ⟨fun idle => ?_, busy⟩
      cases busy.symm.trans (stage.mp idle)
    next ready =>
      have ready : c.wbusy = false := by simpa using ready
      cases stepped
      exact ⟨inv.running, inv.token.pass rfl out id rfl rfl,
        .advance holder off rfl trivial rfl ⟨stage.mpr ready, ready⟩,
        inv.accounted.keep (t := t) rfl (by rw [here]; rfl) rfl rfl⟩
  next n ch here =>
    rw [here] at stage
    split at stepped
    next =>
      cases stepped
      exact ⟨inv.running, inv.token.pass rfl out id rfl rfl,
        .advance holder off rfl trivial rfl ⟨rfl, stage.2⟩,
        inv.accounted.keep (t := t) rfl (by rw [here]; rfl) rfl rfl⟩
    next => cases stepped
  next n ch irqpending here =>
    rw [here] at stage
    cases stepped
    exact ⟨inv.running, inv.token.pass rfl out id rfl rfl,
      .advance holder off rfl trivial rfl ⟨nofun, stage.2⟩,
      inv.accounted.emit (t := t) rfl (by rw [here]; rfl) rfl rfl rfl⟩
  next irqpending here =>
    rw [here] at stage
    split at stepped
    next active =>
      split at stepped
      next pending =>
        cases stepped
        refine ⟨inv.running, inv.token.pass rfl out id rfl rfl, .quiet rfl (holder.leave id) ?_,
          inv.accounted.keep (t := t) rfl (by rw [here]; rfl) rfl rfl⟩
        exact iff_of_false (fun idle => nomatch active.symm.trans idle)
          fun ready => nomatch pending.symm.trans (stage.2.symm.trans ready)
      next pending =>
        have ready : c.wbusy = false := stage.2.trans (by simpa using pending)
        cases stepped
        exact ⟨inv.running, inv.token.pass rfl out id rfl rfl,
          .quiet rfl (holder.leave id) (iff_of_true rfl ready),
          inv.accounted.keep (t := t) rfl (by rw [here]; rfl) rfl rfl⟩
    next => cases stepped
  next => cases stepped

theorem Inv.step (inv : c.Inv) {event : Event τ γ} (stepped : c.next event = some d) : d.Inv := by
  rw [next_eq inv.running] at stepped
  cases event with
  | complete =>
    simp only [react] at stepped
    split at stepped
    next sending =>
      cases stepped
      exact inv.complete sending
    next => cases stepped
  | poll t =>
    obtain ⟨off, stepped⟩ := Option.ite_none_right_eq_some.mp stepped
    exact inv.poll off stepped
  | putch t ch off =>
    obtain ⟨on, stepped⟩ := Option.ite_none_right_eq_some.mp stepped
    exact inv.putch on stepped
  | down t =>
    obtain ⟨on, stepped⟩ := Option.ite_none_right_eq_some.mp stepped
    exact inv.down on stepped
  | write t =>
    obtain ⟨on, stepped⟩ := Option.ite_none_right_eq_some.mp stepped
    exact inv.write on stepped
  | irq =>
    obtain ⟨on, stepped⟩ := Option.ite_none_right_eq_some.mp stepped
    simp only [interruptible] at stepped
    split at stepped
    next active =>
      cases stepped
      exact inv.irq on active
    next =>
      cases stepped
      exact inv

/-! ### What can still be written -/

variable {n : Nat} {ch : γ}

/-- The call can still come to its end. -/
def Writable (c : Console τ γ) (n : Nat) (ch : γ) : Prop :=
  ∃ events d, execute next c events = some d ∧ (n, ch) ∈ d.written

theorem Writable.step {event : Event τ γ} (stepped : c.next event = some d)
    (later : d.Writable n ch) : c.Writable n ch := by
  obtain ⟨events, e, done, listed⟩ := later
  refine ⟨event :: events, e, ?_, listed⟩
  rw [execute, stepped]
  exact done

theorem Writable.of_mem (listed : (n, ch) ∈ c.written) : c.Writable n ch := ⟨[], c, rfl, listed⟩

section

variable (inv : c.Inv)

include inv

/-- The thread that has the unit goes on. -/
theorem Inv.writable_admitted (on : c.polling = none) (here : c.place t = .admitted n ch) :
    c.Writable n ch := by
  have inside : Admitted (c.place t) := by rw [here]; trivial
  cases inv.token with
  | free nobody => exact absurd inside (nobody t)
  | sent nobody => exact absurd inside (nobody t)
  | held u holder wsem ready =>
    have stepped : c.next (.write t) =
        some { (c.move t .idle).send n ch with wbusy := true } := by
      simp [next_eq inv.running, react, interruptible, on, here, ready]
    exact .step stepped (.of_mem (List.mem_concat_self ..))

/-- A thread takes the unit of the semaphore. -/
theorem Inv.writable_free (on : c.polling = none) (units : 0 < c.wsem)
    (here : c.place t = .wanting n ch) : c.Writable n ch := by
  have stepped : c.next (.down t) =
      some { c.move t (.admitted n ch) with wsem := c.wsem - 1 } := by
    simp [next_eq inv.running, react, interruptible, on, here, units]
  exact .step stepped ((inv.step stepped).writable_admitted on (update_self ..))

/-- The device sends its character. -/
theorem Inv.writable_of_active (busy : c.line ≠ .idle)
    (later : ∀ d : Console τ γ, d.Inv → d.line = .active → d.polling = c.polling →
      d.place = c.place → d.Writable n ch) : c.Writable n ch := by
  cases line : c.line with
  | idle => exact absurd line busy
  | active => exact later c inv line rfl rfl
  | sending =>
    have stepped : c.next .complete = some { c with line := .active } := by
      simp [next_eq inv.running, react, line]
    exact .step stepped (later _ (inv.step stepped) rfl rfl rfl)

/-- The interrupt gives the unit back. -/
theorem Inv.writable_busy (on : c.polling = none) (busy : c.line ≠ .idle)
    (here : c.place t = .wanting n ch) : c.Writable n ch := by
  refine inv.writable_of_active busy fun d inv line polling place => ?_
  rw [← polling] at on
  rw [← place] at here
  have stepped : d.next .irq =
      some { d with wbusy := false, line := .idle, wsem := d.wsem + 1 } := by
    simp [next_eq inv.running, react, interruptible, on, line]
  exact .step stepped ((inv.step stepped).writable_free on (Nat.succ_pos _) here)

/-- With interrupts on: whoever has the unit gives it back. -/
theorem Inv.writable_on (on : c.polling = none) (waits : pending (c.place t) = some (n, ch)) :
    c.Writable n ch := by
  obtain ⟨nobody, line⟩ := inv.steady.line on
  have outside := nobody t
  generalize here : c.place t = place at waits outside
  cases place with
  | idle | spinning => cases waits
  | polled | draining | sending => exact absurd trivial outside
  | admitted m x =>
    cases waits
    exact inv.writable_admitted on here
  | wanting m x =>
    cases waits
    cases inv.token with
    | free nobody wsem ready => exact inv.writable_free on (by omega) here
    | sent nobody wsem busy =>
      exact inv.writable_busy on (fun idle => nomatch busy.symm.trans (line.mp idle)) here
    | held u holder wsem ready =>
      -- `u` writes its character first
      have inside := holder.1
      cases there : c.place u with
      | admitted m x =>
        have other : t ≠ u := fun same => by
          rw [same, there] at here
          cases here
        have stepped : c.next (.write u) =
            some { (c.move u .idle).send m x with wbusy := true } := by
          simp [next_eq inv.running, react, interruptible, on, there, ready]
        refine .step stepped ((inv.step stepped).writable_busy (t := t) on nofun ?_)
        exact (update_of_ne other ..).trans here
      | _ =>
        rw [there] at inside
        exact inside.elim

/-- A thread that polls returns when the device has sent the character. -/
theorem Inv.writable_spinning {u : τ} {irqpending : Bool} (off : c.polling = some u)
    (there : c.place u = .spinning irqpending) (waits : pending (c.place t) = some (n, ch)) :
    c.Writable n ch := by
  have stage := (inv.steady.stage off).2
  rw [there] at stage
  refine inv.writable_of_active stage.1 fun d inv line polling place => ?_
  rw [← polling] at off
  rw [← place] at there waits
  have kept : pending (update d.place u .idle t) = some (n, ch) :=
    (pending_update (by rw [there]; rfl)).trans waits
  cases irqpending with
  | true =>
    have stepped : d.next (.poll u) = some { d.move u .idle with polling := none } := by
      simp [next_eq inv.running, react, off, pollStep, there, line]
    exact .step stepped ((inv.step stepped).writable_on rfl kept)
  | false =>
    have stepped : d.next (.poll u) =
        some { d.move u .idle with polling := none, line := .idle } := by
      simp [next_eq inv.running, react, off, pollStep, there, line]
    exact .step stepped ((inv.step stepped).writable_on rfl kept)

/-- It writes its own character, and then lets the others go on. -/
theorem Inv.writable_sending {u : τ} {m : Nat} {x : γ} {irqpending : Bool}
    (off : c.polling = some u) (there : c.place u = .sending m x irqpending)
    (waits : pending (c.place t) = some (n, ch)) : c.Writable n ch := by
  have stepped : c.next (.poll u) = some ((c.move u (.spinning irqpending)).send m x) := by
    simp [next_eq inv.running, react, off, pollStep, there]
  refine .step stepped ?_
  by_cases self : t = u
  · rw [self, there] at waits
    cases waits
    exact .of_mem (List.mem_concat_self ..)
  · refine (inv.step stepped).writable_spinning (t := t) off (update_self ..) ?_
    exact (congrArg pending (update_of_ne self ..)).trans waits

theorem Inv.writable_draining {u : τ} {m : Nat} {x : γ} (off : c.polling = some u)
    (there : c.place u = .draining m x) (waits : pending (c.place t) = some (n, ch)) :
    c.Writable n ch := by
  have stage := (inv.steady.stage off).2
  rw [there] at stage
  refine inv.writable_of_active stage.1 fun d inv line polling place => ?_
  rw [← polling] at off
  rw [← place] at there waits
  have stepped : d.next (.poll u) =
      some { d.move u (.sending m x true) with line := .idle } := by
    simp [next_eq inv.running, react, off, pollStep, there, line]
  refine .step stepped ((inv.step stepped).writable_sending (t := t) off
    (update_self ..) ?_)
  exact (pending_update (by rw [there]; rfl)).trans waits

theorem Inv.writable (waits : pending (c.place t) = some (n, ch)) : c.Writable n ch := by
  cases inv.steady with
  | quiet on => exact inv.writable_on on waits
  | polling u off holder stage =>
    cases there : c.place u with
    | idle | wanting | admitted =>
      rw [there] at stage
      exact stage.elim
    | draining => exact inv.writable_draining off there waits
    | sending => exact inv.writable_sending off there waits
    | spinning => exact inv.writable_spinning off there waits
    | polled m x =>
      cases busy : c.wbusy with
      | true =>
        have stepped : c.next (.poll u) = some (c.move u (.draining m x)) := by
          simp [next_eq inv.running, react, off, pollStep, there, busy]
        refine .step stepped ((inv.step stepped).writable_draining (t := t) off
          (update_self ..) ?_)
        exact (pending_update (by rw [there]; rfl)).trans waits
      | false =>
        have stepped : c.next (.poll u) = some (c.move u (.sending m x false)) := by
          simp [next_eq inv.running, react, off, pollStep, there, busy]
        refine .step stepped ((inv.step stepped).writable_sending (t := t) off
          (update_self ..) ?_)
        exact (pending_update (by rw [there]; rfl)).trans waits

end

end

/-! ### Runs -/

/-- The panic is not reached, and the unit of `cs_wsem` is in one of three places. Every character
that the device got is that of one call of `putch`; every call has been written, once, or its
thread has not returned, and then it can still be written. -/
theorem console_output {history : List (Console τ γ × Event τ γ)} {c : Console τ γ}
    (run : Run (Computes next) initial history c) :
    c.stopped = false ∧
      (∃ between, Holder Admitted c.place between ∧
        c.wsem + between.toList.length + c.wbusy.toNat = 1) ∧
      (c.written.map Prod.fst).Nodup ∧ (∀ n ch, (n, ch) ∈ c.written → c.passed[n]? = some ch) ∧
      ∀ n ch, c.passed[n]? = some ch →
        ((n, ch) ∈ c.written ↔ ¬ ∃ t, pending (c.place t) = some (n, ch)) ∧ c.Writable n ch := by
  have inv : c.Inv := run.invariant inv_initial fun _ _ _ before stepped => before.step stepped
  refine ⟨inv.running, ?_, inv.accounted.once, inv.accounted.right, fun n ch here => ?_⟩
  · cases inv.token with
    | free nobody wsem ready => exact ⟨none, nobody, by rw [wsem, ready]; rfl⟩
    | held t holder wsem ready => exact ⟨some t, holder, by rw [wsem, ready]; rfl⟩
    | sent nobody wsem busy => exact ⟨none, nobody, by rw [wsem, busy]; rfl⟩
  have small := (List.getElem?_eq_some_iff.mp here).1
  rcases inv.accounted.all n small with member | ⟨t, x, waits⟩
  · obtain ⟨⟨m, x⟩, listed, rfl⟩ := List.mem_map.mp member
    cases (inv.accounted.right m x listed).symm.trans here
    refine ⟨iff_of_true listed ?_, .of_mem listed⟩
    rintro ⟨t, waits⟩
    exact (inv.accounted.waiting t m ch waits).2 member
  obtain ⟨found, unwritten⟩ := inv.accounted.waiting t n x waits
  cases found.symm.trans here
  refine ⟨iff_of_false (fun listed => unwritten (List.mem_map_of_mem listed)) ?_,
    inv.writable waits⟩
  exact fun done => done ⟨t, waits⟩

/-- A thread writes `'a'`; before the interrupt another one writes `'b'` with interrupts off. -/
theorem console_output_borrowed :
    ∃ history, ∃ c : Console (Fin 2) Char, Run (Computes next) initial history c ∧
      c.written = [(0, 'a'), (1, 'b')] ∧ c.wsem = 1 ∧ c.stopped = false := by
  obtain ⟨c, done, check⟩ : ∃ c : Console (Fin 2) Char,
      execute next initial [.putch 0 'a' false, .down 0, .write 0, .putch 1 'b' true, .poll 1,
        .complete, .poll 1, .poll 1, .complete, .poll 1, .irq] = some c ∧
      (c.written = [(0, 'a'), (1, 'b')] ∧ c.wsem = 1) := execute_check (by decide +kernel)
  obtain ⟨history, run, -⟩ := Run.of_execute done
  exact ⟨history, c, run, check.1, check.2, (console_output run).1⟩

end Console

end Os161.Io
