import Mathlib.Algebra.Order.Group.Multiset
import Mathlib.Data.Fintype.Option
import Os161.Foundation.Threads
import Os161.Io.Lhd

/-!
# Threads that share a disk

`lhd_io` takes the disk with `P(lh_clear)` for one sector at a time, starts an operation, and
waits with `P(lh_done)` for `lhd_irq`. Between any two statements other threads run and the card
goes on. What the owner of the disk knows is an assertion that the card does not make false; the
assertion is the share of its thread, and there is one at most.
-/
namespace Os161.Io

open Foundation
open Call (secures_await secures_bind secures_held secures_ite secures_modify secures_state
  secures_yield)

/-- The status register. An operation ends in the state `finished`. -/
inductive Status where
  | idle
  | working (rw : UioRw)
  | finished (rw : UioRw) (completion : Completion)
  deriving DecidableEq

/-- The value written to `LHD_REG_STAT` to start an operation. -/
def statval : UioRw → CUnsigned
  | .UIO_READ => LHD_WORKING
  | .UIO_WRITE => LHD_WORKING ||| LHD_ISWRITE

/-- An operation that has ended, with the bytes that it was to transfer. -/
structure Ended where
  completion : Completion
  rw : UioRw
  sect : CUnsigned
  bytes : Sector

/-- The card, and the driver's part of it. -/
structure Card where
  /-- The counts of `lh_clear` and `lh_done`. -/
  clear : Nat
  done : Nat
  result : Errno
  buf : Sector
  sect : CUnsigned
  status : Status
  disk : CUnsigned → Sector
  /-- The operations that have ended, in their order. -/
  ended : List Ended

namespace Card

/-- What an operation transfers: the bytes on the card, for a write, or on the disk. -/
def bytes (s : Card) : UioRw → Sector
  | .UIO_WRITE => s.buf
  | .UIO_READ => s.disk s.sect

/-- The operation under way is completed. One that fails has no effect; after one that succeeds the
card and the disk have the same bytes. -/
def complete (completion : Completion) (s : Card) : Card :=
  match s.status with
  | .working rw => { s with
      status := .finished rw completion
      buf := if completion = .ok then s.bytes rw else s.buf
      disk := if completion = .ok then Function.update s.disk s.sect (s.bytes rw) else s.disk
      ended := s.ended ++ [⟨completion, rw, s.sect, s.bytes rw⟩] }
  | _ => s

/-- `lhd_irq`. -/
def irq (s : Card) : Card :=
  match s.status with
  | .finished rw completion => { s with
      status := .idle
      result := lhdCodeToErrno (completion.status (statval rw))
      done := s.done + 1 }
  | _ => s

/-- What the card does: it completes its operation, or its interrupt is taken. -/
def turn : Option Completion → Card → Card
  | some completion => complete completion
  | none => irq

/-- After `config_lhd`. -/
def initial (disk : CUnsigned → Sector) (buf : Sector) (sect : CUnsigned) (result : Errno) : Card :=
  ⟨1, 0, result, buf, sect, .idle, disk, []⟩

end Card

/-- It halts where an operation is started before the last one has been seen to. -/
abbrev Driver := Call Unit Empty Card

def downClear : Driver Unit := do
  Call.await fun s => 0 < s.clear
  Call.modify fun s => { s with clear := s.clear - 1 }

def upClear : Driver Unit := Call.modify fun s => { s with clear := s.clear + 1 }

def downDone : Driver Unit := do
  Call.await fun s => 0 < s.done
  Call.modify fun s => { s with done := s.done - 1 }

/-- What a `uiomove` finds, for a write, and what it returns. -/
structure Move where
  data : Sector
  result : Errno

/-- A pass of the loop: its operation, if it has come to that, with what is on record of it; the
bytes it has moved; and `result`. -/
structure Pass where
  op : Option (Nat × Option Ended)
  moved : Sector
  result : Errno

/-- A pass from the write to `LHD_REG_SECT` on. -/
def lhdOperation (rw : UioRw) (sect : CUnsigned) (move : Move) : Driver Pass := do
  Call.modify ({ · with sect := sect })
  Call.yield
  let started ← Call.state
  Call.ensure (started.status = .idle) ()
  Call.modify ({ · with status := .working rw })
  downDone
  Call.yield
  let collected ← Call.state
  Call.yield
  -- a read moves the bytes if the operation has succeeded
  let delivered ← Call.state
  Call.yield
  upClear
  let op := started.ended.length
  return {
    op := some (op, delivered.ended[op]?)
    moved := if rw = .UIO_READ then delivered.buf else move.data
    result := if rw = .UIO_READ ∧ collected.result = .success then move.result
      else collected.result }

def lhdPass (rw : UioRw) (sect : CUnsigned) (move : Move) : Driver Pass := do
  downClear
  Call.yield
  Call.modify fun s => { s with buf := if rw = .UIO_WRITE then move.data else s.buf }
  Call.yield
  if rw = .UIO_WRITE ∧ move.result ≠ .success then do
    upClear
    return ⟨none, move.data, move.result⟩
  else lhdOperation rw sect move

/-- The loop of `lhd_io`, with these sectors to go: what it returns, and its passes. -/
def lhdPasses (rw : UioRw) : CUnsigned → List Move → Driver (Errno × List Pass)
  | _, [] => return (.success, [])
  | sect, move :: rest => do
    let pass ← lhdPass rw sect move
    if pass.result ≠ .success then return (pass.result, [pass])
    else do
      let (result, passes) ← lhdPasses rw (sect + 1) rest
      return (result, pass :: passes)

/-- A call of `lhd_io` with a request that passes its checks, or a turn of the card. -/
inductive DiskRequest where
  | io (rw : UioRw) (sector : CUnsigned) (moves : List Move)
  | card (event : Option Completion)

/-- What a thread has called, and what was returned. -/
abbrev Record := List (DiskRequest × Errno × List Pass)

def diskService : Service Unit Empty Card (Errno × List Pass) DiskRequest Record where
  code
    | .io rw sector moves => lhdPasses rw sector moves
    | .card event => do
      Call.modify (·.turn event)
      return (.success, [])
  begins record _ := some record
  ends record r
    | .ok reply => (r, reply) :: record
    | .error e => e.elim

/-! ### What is asserted of the card -/

/-- The operation was for this pass. -/
def Ended.Of (rw : UioRw) (sect : CUnsigned) (move : Move) (e : Ended) : Prop :=
  e.rw = rw ∧ e.sect = sect ∧ (rw = .UIO_WRITE → e.bytes = move.data)

namespace Card

/-- The card is idle, and what it did has been taken note of. -/
def Quiet (s : Card) : Prop := s.status = .idle ∧ s.done = 0

/-- The card does not make it false. -/
def Stable (p : Card → Prop) : Prop := ∀ s, p s → ∀ event, p (s.turn event)

/-- A write has its bytes on the card. -/
def Loaded (rw : UioRw) (move : Move) (s : Card) : Prop :=
  s.Quiet ∧ (rw = .UIO_WRITE → s.buf = move.data)

/-- Operation `n` has ended. If it has succeeded, its bytes are on the card. -/
def Outcome (n : Nat) (e : Ended) (s : Card) : Prop :=
  s.ended[n]? = some e ∧ (e.completion = .ok → s.buf = e.bytes)

/-- Operation `n` is under way, or has ended, or has been reported. -/
def Waiting (rw : UioRw) (sect : CUnsigned) (move : Move) (n : Nat) (s : Card) : Prop :=
  (s.status = .working rw ∧ s.done = 0 ∧ (rw = .UIO_WRITE → s.buf = move.data) ∧ s.sect = sect ∧
      s.ended.length = n) ∨
    ∃ e, e.Of rw sect move ∧ s.Outcome n e ∧
      (s.status = .finished rw e.completion ∧ s.done = 0 ∨
        s.status = .idle ∧ s.done = 1 ∧ s.result = e.completion.errno)

theorem stable_of_quiet {p : Card → Prop} (quiet : ∀ s, p s → s.Quiet) : Stable p := by
  intro s holds event
  cases event <;> simpa only [turn, complete, irq, (quiet s holds).1] using holds

theorem stable_waiting {rw : UioRw} {sect : CUnsigned} {move : Move} (n : Nat) :
    Stable (Waiting rw sect move n) := by
  rintro s (⟨status, done, loaded, addressed, count⟩ | ⟨e, own, outcome, after⟩) (_ | completion)
  · simp only [turn, irq, status]
    exact .inl ⟨status, done, loaded, addressed, count⟩
  · simp only [turn, complete, status]
    refine .inr ⟨⟨completion, rw, s.sect, s.bytes rw⟩, ⟨rfl, addressed, ?_⟩,
      ⟨?_, fun ok => if_pos ok⟩, .inl ⟨rfl, done⟩⟩
    · rintro rfl
      exact loaded rfl
    · dsimp only
      rw [← count, List.getElem?_concat_length]
  · rcases after with ⟨status, done⟩ | ⟨status, reported⟩ <;> simp only [turn, irq, status]
    · refine .inr ⟨e, own, outcome, .inr ⟨rfl, ?_, lhdCodeToErrno_status _ _⟩⟩
      dsimp only
      rw [done]
    · exact .inr ⟨e, own, outcome, .inr ⟨status, reported⟩⟩
  · rcases after with ⟨status, done⟩ | ⟨status, reported⟩ <;> simp only [turn, complete, status]
    · exact .inr ⟨e, own, outcome, .inl ⟨status, done⟩⟩
    · exact .inr ⟨e, own, outcome, .inr ⟨status, reported⟩⟩

theorem clear_turn (s : Card) (event : Option Completion) : (s.turn event).clear = s.clear := by
  cases event with
  | none =>
    simp only [turn, irq]
    split <;> rfl
  | some =>
    simp only [turn, complete]
    split <;> rfl

end Card

/-! ### Shares -/

/-- The assertion of the owner of the disk, if it is this thread. -/
abbrev Hand := Multiset (Card → Prop)

def Valid (all : Hand) (s : Card) : Prop :=
  all = 0 ∧ s.clear = 1 ∧ s.Quiet ∨ ∃ p, all = {p} ∧ s.clear = 0 ∧ Card.Stable p ∧ p s

abbrev sharing : Protocol Unit Card Hand :=
  pooled Valid (fun _ _ _ => True) (fun _ => True) fun _ => False

/-- The protocol of a thread that knows `fact` besides. -/
abbrev knowing (fact : Prop) : Protocol Unit Card Hand := sharing.keeping fun _ => fact

section

variable {p q : Card → Prop} {fact : Prop} {rest : Hand} {s t : Card}

theorem Valid.own (valid : Valid ({p} + rest) s) : s.clear = 0 ∧ p s ∧ rest = 0 := by
  rw [Multiset.singleton_add] at valid
  rcases valid with ⟨none, -⟩ | ⟨q, one, clear, -, holds⟩
  · cases Multiset.cons_ne_zero none
  · obtain ⟨rfl, alone⟩ := (Multiset.singleton_eq_cons_iff _).mp one.symm
    exact ⟨clear, holds, alone⟩

theorem own_of_rely (passed : (knowing fact).rely {p} s t) : p t := by
  obtain ⟨⟨⟨rest, valid⟩, -⟩, -⟩ := passed
  exact valid.own.2.1

variable (kept : fact)

include kept

/-- The owner goes on from one assertion to the next. -/
theorem guar_own (stable : Card.Stable q) (clear : t.clear = s.clear) (step : p s → q t) :
    (knowing fact).guar {p} {q} s t := by
  refine ⟨kept, fun rest valid => ⟨.inr ⟨q, ?_, ?_, stable, step valid.own.2.1⟩, trivial⟩⟩
  · rw [valid.own.2.2, add_zero]
  · rw [clear, valid.own.1]

theorem guar_take (some : 0 < s.clear) :
    (knowing fact).guar 0 {Card.Quiet} s { s with clear := s.clear - 1 } := by
  refine ⟨kept, fun rest valid => ?_⟩
  rw [zero_add] at valid
  rcases valid with ⟨rfl, clear, quiet⟩ | ⟨q, -, clear, -⟩
  · refine ⟨.inr ⟨Card.Quiet, add_zero _, ?_, Card.stable_of_quiet fun _ => id, quiet⟩, trivial⟩
    dsimp only
    rw [clear]
  · omega

/-- The owner gives the disk back. -/
theorem guar_give (quiet : p s → s.Quiet) :
    (knowing fact).guar {p} 0 s { s with clear := s.clear + 1 } := by
  refine ⟨kept, fun rest valid => ⟨.inl ⟨?_, ?_, quiet valid.own.2.1⟩, trivial⟩⟩
  · rw [valid.own.2.2, add_zero]
  · dsimp only
    rw [valid.own.1]

theorem guar_turn (own : Hand) (event : Option Completion) :
    (knowing fact).guar own own s (s.turn event) := by
  refine ⟨kept, fun rest valid => ⟨valid.imp ?_ ?_, trivial⟩⟩
  · rintro ⟨none, clear, quiet⟩
    exact ⟨none, (s.clear_turn event).trans clear,
      Card.stable_of_quiet (fun _ => id) s quiet event⟩
  · rintro ⟨p, one, clear, stable, holds⟩
    exact ⟨p, one, (s.clear_turn event).trans clear, stable, stable s holds event⟩

end

/-! ### The driver -/

/-- What a pass returns goes back to its own operation, or to its `uiomove`. -/
def Pass.Right (rw : UioRw) (sect : CUnsigned) (move : Move) (pass : Pass) : Prop :=
  (rw = .UIO_WRITE ∧ pass.op = none ∧ pass.result = move.result ∧ pass.result ≠ .success) ∨
    ∃ n e, pass.op = some (n, some e) ∧ e.Of rw sect move ∧
      (rw = .UIO_READ → e.completion = .ok → pass.moved = e.bytes ∧ pass.result = move.result) ∧
      (rw = .UIO_WRITE ∨ e.completion ≠ .ok → pass.result = e.completion.errno)

/-- What a call returns: 0 after a pass for each of its sectors, or what its last pass has. -/
def Replies (rw : UioRw) : CUnsigned → List Move → Errno × List Pass → Prop
  | _, [], reply => reply = (.success, [])
  | sect, move :: rest, reply => ∃ pass later, reply.2 = pass :: later ∧ pass.Right rw sect move ∧
    (pass.result ≠ .success → reply = (pass.result, [pass])) ∧
    (pass.result = .success → Replies rw (sect + 1) rest (reply.1, later))

section

variable {fact : Prop} {s : Card} (kept : fact)

include kept

theorem secures_lhdOperation (rw : UioRw) (sect : CUnsigned) (move : Move) :
    (lhdOperation rw sect move).Secures (knowing fact) {Card.Loaded rw move} s
      (fun pass after _ => after = 0 ∧ pass.Right rw sect move) fun _ _ _ => False := by
  rw [lhdOperation, secures_bind, secures_modify]
  refine ⟨_, guar_own (q := fun s => s.Loaded rw move ∧ s.sect = sect) kept
    (Card.stable_of_quiet fun _ holds => holds.1.1) rfl fun loaded => ⟨loaded, rfl⟩, ?_⟩
  rw [secures_bind, secures_yield]
  intro started passed
  obtain ⟨⟨quiet, loaded⟩, addressed⟩ := own_of_rely passed
  rw [secures_bind, secures_state, secures_bind, secures_held quiet.1, secures_bind, secures_modify]
  refine ⟨_, guar_own kept (Card.stable_waiting started.ended.length) rfl fun _ =>
    .inl ⟨rfl, quiet.2, loaded, addressed, rfl⟩, ?_⟩
  rw [secures_bind, downDone, secures_bind, secures_await]
  refine ⟨fun never => absurd never id, fun u passed some => ?_⟩
  obtain ⟨-, done, -⟩ | ⟨e, own, outcome, ⟨-, done⟩ | ⟨status, done, result⟩⟩ := own_of_rely passed
  · simp [done] at some
  · simp [done] at some
  -- From here on the operation and its outcome are known.
  rw [secures_modify]
  refine ⟨_, guar_own (q := fun s => s.Quiet ∧ s.Outcome started.ended.length e ∧
    s.result = e.completion.errno) kept (Card.stable_of_quiet fun _ holds => holds.1) rfl
      fun _ => ⟨⟨status, ?_⟩, outcome, result⟩, ?_⟩
  · dsimp only
    rw [done]
  rw [secures_bind, secures_yield]
  intro collected passed
  obtain ⟨-, -, code⟩ := own_of_rely passed
  rw [secures_bind, secures_state, secures_bind, secures_yield]
  intro delivered passed
  obtain ⟨-, ⟨recorded, arrived⟩, -⟩ := own_of_rely passed
  rw [secures_bind, secures_state, secures_bind, secures_yield]
  intro v passed
  rw [secures_bind, upClear, secures_modify]
  refine ⟨_, guar_give kept And.left, rfl, .inr ⟨started.ended.length, e, ?_, own, ?_, ?_⟩⟩
  · rw [recorded]
  · rintro rfl ok
    simp [arrived ok, code, ok, Completion.errno]
  · rintro (rfl | fails)
    · simp [code]
    · simp [code, mt Completion.errno_eq_success.mp fails]

theorem secures_lhdPass (rw : UioRw) (sect : CUnsigned) (move : Move) :
    (lhdPass rw sect move).Secures (knowing fact) 0 s
      (fun pass after _ => after = 0 ∧ pass.Right rw sect move) fun _ _ _ => False := by
  rw [lhdPass, secures_bind, downClear, secures_bind, secures_await]
  refine ⟨fun never => absurd never id, fun t _ some => ?_⟩
  rw [secures_modify]
  refine ⟨_, guar_take kept (of_decide_eq_true some), ?_⟩
  rw [secures_bind, secures_yield]
  intro u passed
  rw [secures_bind, secures_modify]
  refine ⟨_, guar_own (q := Card.Loaded rw move) kept (Card.stable_of_quiet fun _ => And.left)
    rfl fun quiet => ⟨quiet, fun writes => if_pos writes⟩, ?_⟩
  rw [secures_bind, secures_yield]
  intro v passed
  rw [secures_ite]
  refine ⟨fun fails => ?_, fun _ => secures_lhdOperation kept rw sect move⟩
  rw [secures_bind, upClear, secures_modify]
  exact ⟨_, guar_give kept And.left, rfl, .inl ⟨fails.1, rfl, rfl, fails.2⟩⟩

theorem secures_lhdPasses (rw : UioRw) (sect : CUnsigned) (moves : List Move) :
    (lhdPasses rw sect moves).Secures (knowing fact) 0 s
      (fun reply after _ => after = 0 ∧ Replies rw sect moves reply) fun _ _ _ => False := by
  induction moves generalizing sect s with
  | nil => exact ⟨rfl, rfl⟩
  | cons move rest ih =>
    refine (secures_lhdPass kept rw sect move).bind ?_ fun _ _ _ => id
    rintro pass _ t ⟨rfl, right⟩
    rw [secures_ite]
    refine ⟨fun fails => ⟨rfl, pass, [], rfl, right, fun _ => rfl, fun works => absurd works fails⟩,
      fun works => ?_⟩
    refine (ih (sect + 1)).bind ?_ fun _ _ _ => id
    rintro ⟨result, passes⟩ after u ⟨none, replies⟩
    exact ⟨none, pass, passes, rfl, right, fun fails => absurd fails works, fun _ => replies⟩

end

/-! ### All threads -/

/-- What is returned to a thread is for its own request. -/
def Recorded (record : Record) : Prop :=
  ∀ rw sector moves reply, (.io rw sector moves, reply) ∈ record → Replies rw sector moves reply

section

variable {τ : Type} [DecidableEq τ] [Fintype τ]

/-- The threads; any of them can be the card. -/
abbrev Threads (τ : Type) := Crowd τ Unit Empty Card (Errno × List Pass) DiskRequest Record

def atRest (s : Card) : Threads τ := ⟨s, fun _ => [], fun _ => .idle⟩

omit [DecidableEq τ] in
private theorem serves : Serves sharing (fun (shares : τ → Hand) s => Valid (∑ i, shares i) s)
    (fun _ => True) diskService (fun record own => own = 0 ∧ Recorded record)
    fun record _ => Recorded record where
  prompt := id
  keeps owns begun := by
    cases begun
    exact owns.2
  secures {shares s i record left r} _ _ owns begun := by
    cases begun
    obtain ⟨none, kept⟩ := owns
    rw [none]
    cases r with
    | io rw sector moves =>
      refine (secures_lhdPasses kept rw sector moves).mono ?_ fun _ _ _ => False.elim
      rintro reply after t ⟨none, replies⟩
      refine ⟨none, fun rw' sector' moves' reply' member => ?_⟩
      rcases List.mem_cons.mp member with same | old
      · cases same
        exact replies
      · exact kept rw' sector' moves' reply' old
    | card event =>
      refine ⟨0, guar_turn kept 0 event, rfl, fun rw' sector' moves' reply' member => ?_⟩
      rcases List.mem_cons.mp member with same | old
      · cases same
      · exact kept rw' sector' moves' reply' old

end

/-- A pass of a thread, while the card is a thread of its own. -/
def passOf (i : Fin 2) (completion : Completion) :
    List (Foundation.Move (Option (Fin 2)) DiskRequest) :=
  List.replicate 4 (.resume i) ++ [.start none (.card (some completion)), .finish none,
    .start none (.card none), .finish none] ++ List.replicate 4 (.resume i) ++ [.finish i]

/-- An operation, from its start to the interrupt, is what it is for one caller. -/
theorem turns_eq_operate {lh : Lhd} {d : Disk} {s : Card} (rw : UioRw) (disk : s.disk = d.sectors)
    (buf : s.buf = d.mem.block lh.buf LHD_SECTSIZE.toNat) :
    ∃ u, u = (({ s with status := .working rw }).turn (some (lh.completes d.started.length))).turn
        none ∧ u.result = (lh.operate d s.sect (statval rw)).1 ∧
      u.disk = (lh.operate d s.sect (statval rw)).2.sectors ∧
      u.buf = (lh.operate d s.sect (statval rw)).2.mem.block lh.buf LHD_SECTSIZE.toNat := by
  refine ⟨_, rfl, rfl, ?_⟩
  simp only [Card.turn, Card.complete, Card.irq, Lhd.operate]
  by_cases works : lh.completes d.started.length = .ok
  · cases rw with
    | UIO_WRITE => simp [works, Card.bytes, statval, LHD_WORKING, LHD_ISWRITE, buf, disk]
    | UIO_READ =>
      simp only [works, Card.bytes, statval, disk]
      exact ⟨Function.update_eq_self .., (Memory.block_store _ (by decide)).symm⟩
  · simp [works, buf, disk]

end Os161.Io
