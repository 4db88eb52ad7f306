import Os161.Vm.AddrSpace

/-!
# The TLB and the running process

The TLB is shared by all processes. It is flushed on a switch to a thread that has an address
space, and filled one page at a time by `vm_fault`. On every run it holds pages of the process
that is running, each once.
-/
namespace Os161.Vm

open Foundation
open Function (update_of_ne update_self)

/-- The processor and the threads: which one runs, and the `t_vmspace` of each. An address space
belongs to one thread only. -/
structure Machine where
  curthread : Nat
  vmspace : Nat → Option AddrSpace
  tlb : Tlb

namespace Machine

/-- The events that the TLB depends on. -/
inductive Event where
  /-- `mi_switch` returns in another thread. -/
  | switch (thread : Nat)
  /-- A new thread begins in `mi_threadstart`. -/
  | threadstart (thread : Nat)
  /-- `runprogram` makes an address space and activates it. -/
  | runprogram
  /-- `load_elf` defines a region. -/
  | defineRegion (vaddr sz : CUnsigned)
  /-- `load_elf` prepares the address space, with the memory that is left. -/
  | prepareLoad (ram : Ram)
  /-- A TLB miss at an address. -/
  | fault (faulttype : FaultType) (faultaddress : CUnsigned)
  /-- The part of `thread_exit` that drops the address space. -/
  | exit

def current (m : Machine) : Option AddrSpace := m.vmspace m.curthread

def setCurrent (m : Machine) (vmspace : Option AddrSpace) : Machine :=
  { m with vmspace := Function.update m.vmspace m.curthread vmspace }

/-- `if (curthread->t_vmspace) as_activate(curthread->t_vmspace)`, which both ways of switching
end with. -/
def activate (m : Machine) : Machine :=
  match m.current with
  | none => m
  | some _ => { m with tlb := asActivate }

/-- The processor finds a page by the number in `ehi`. -/
def Missing (m : Machine) (faultaddress : CUnsigned) : Prop :=
  ∀ i, (m.tlb i).Valid → (m.tlb i).ehi &&& PAGE_FRAME ≠ faultaddress &&& PAGE_FRAME

instance (m : Machine) (faultaddress : CUnsigned) : Decidable (m.Missing faultaddress) :=
  inferInstanceAs (Decidable (∀ _, _))

/-- What an event does; `none` if it cannot happen or the kernel stops. -/
def next (m : Machine) : Event → Option Machine
  | .switch thread | .threadstart thread => some { m with curthread := thread }.activate
  | .runprogram =>
    -- `assert(curthread->t_vmspace == NULL)`
    match m.current with
    | none => some { m.setCurrent (some asCreate) with tlb := asActivate }
    | some _ => none
  | .defineRegion vaddr sz =>
    match m.current with
    | none => none
    | some as =>
      -- regions are only defined while there is no memory for them
      if as.pbase1 = 0 then
        match asDefineRegion as vaddr sz with
        | .ok as' => some (m.setCurrent (some as'))
        | .error _ => some m
      else none
  | .prepareLoad ram =>
    match m.current with
    | none => none
    | some as =>
      match asPrepareLoad as ram with
      | .ok (_, as', _) => some (m.setCurrent (some as'))
      | .error _ => none
  | .fault faulttype faultaddress =>
    if m.Missing faultaddress then
      match vmFault faulttype faultaddress m.current m.tlb with
      | .ok (_, tlb') => some { m with tlb := tlb' }
      | .error _ => none
    else none
  | .exit => some (m.setCurrent none)

/-- The machine starts in a thread of the kernel; the TLB may hold anything. -/
def boot (tlb : Tlb) : Machine := ⟨0, fun _ => none, tlb⟩

/-! ### Entries -/

/-- An entry maps a page to where `vm_fault` would map it. -/
def Maps (as : AddrSpace) (entry : TlbEntry) : Prop :=
  as.paddr (entry.ehi &&& PAGE_FRAME) = some (entry.elo &&& PAGE_FRAME)

/-- All entries are of the address space, and no page has two. -/
structure Clean (as : AddrSpace) (tlb : Tlb) : Prop where
  maps : ∀ i, (tlb i).Valid → as.Proper ∧ Maps as (tlb i)
  once : ∀ i j, (tlb i).Valid → (tlb j).Valid →
    (tlb i).ehi &&& PAGE_FRAME = (tlb j).ehi &&& PAGE_FRAME → i = j

private theorem not_valid_invalid (i : Fin NUM_TLB) : ¬ (TlbEntry.invalid i).Valid := by
  intro valid
  exact valid (BitVec.zero_and)

/-- After `as_activate` no entry is valid. -/
theorem Clean.activate (as : AddrSpace) : Clean as asActivate :=
  ⟨fun i valid => absurd valid (not_valid_invalid i),
    fun i _ valid => absurd valid (not_valid_invalid i)⟩

variable {tlb : Tlb} {as : AddrSpace}

/-- Nothing has been entered for an address space that is not ready. -/
theorem Clean.of_improper {as as' : AddrSpace} (clean : Clean as tlb)
    (improper : ¬ as.Proper) : Clean as' tlb :=
  ⟨fun i valid => absurd (clean.maps i valid).1 improper,
    fun i _ valid => absurd (clean.maps i valid).1 improper⟩

/-- The flags lie below the number of the page. -/
theorem mapping_frame {page paddr : CUnsigned} (aligned : page &&& PAGE_FRAME = page)
    (aligned' : paddr &&& PAGE_FRAME = paddr) :
    (TlbEntry.mapping page paddr).ehi &&& PAGE_FRAME = page ∧
      (TlbEntry.mapping page paddr).elo &&& PAGE_FRAME = paddr := by
  refine ⟨aligned, ?_⟩
  have spread (a b : CUnsigned) : (a ||| b) &&& PAGE_FRAME =
      a &&& PAGE_FRAME ||| b &&& PAGE_FRAME := by
    apply BitVec.eq_of_getLsbD_eq
    intro i _
    simp [Bool.and_or_distrib_right]
  rw [TlbEntry.mapping, spread, spread, aligned']
  exact (BitVec.or_zero).trans BitVec.or_zero

/-- One page more, which was not there. -/
theorem Clean.enter (clean : Clean as tlb) (proper : as.Proper)
    {page paddr : CUnsigned} (aligned : page &&& PAGE_FRAME = page)
    (aligned' : paddr &&& PAGE_FRAME = paddr) (found : as.paddr page = some paddr)
    (missing : ∀ j, (tlb j).Valid → (tlb j).ehi &&& PAGE_FRAME ≠ page) (i : Fin NUM_TLB) :
    Clean as (Function.update tlb i (.mapping page paddr)) := by
  obtain ⟨virtual, physical⟩ := mapping_frame aligned aligned'
  constructor
  · intro j valid
    by_cases here : j = i
    · subst here
      rw [update_self, Maps, virtual, physical]
      exact ⟨proper, found⟩
    · rw [update_of_ne here] at valid ⊢
      exact clean.maps j valid
  intro j k first second same
  by_cases atJ : j = i <;> by_cases atK : k = i
  · rw [atJ, atK]
  · rw [update_of_ne atK] at second same
    rw [atJ, update_self, virtual] at same
    exact absurd same.symm (missing k second)
  · rw [update_of_ne atJ] at first same
    rw [atK, update_self, virtual] at same
    exact absurd same (missing j first)
  rw [update_of_ne atJ, update_of_ne atK] at same
  rw [update_of_ne atJ] at first
  rw [update_of_ne atK] at second
  exact clean.once j k first second same

/-! ### Runs -/

/-- What the running process may rely on. -/
def Private (m : Machine) : Prop := ∀ as, m.current = some as → Clean as m.tlb

private theorem private_activate (m : Machine) : m.activate.Private := by
  unfold activate
  cases running : m.current with
  | none =>
    intro as some
    rw [running] at some
    cases some
  | some as => exact fun _ _ => Clean.activate _

private theorem not_proper_of_pbase1 (none : as.pbase1 = 0) : ¬ as.Proper :=
  fun proper => proper.2.1 none

private theorem asPrepareLoad_pbase1 {ram : Ram} {r : Errno × AddrSpace × Ram}
    (prepared : asPrepareLoad as ram = .ok r) : as.pbase1 = 0 := by
  unfold asPrepareLoad at prepared
  split at prepared
  next fresh => exact fresh.1
  next => cases prepared

private theorem private_access {m : Machine} {faulttype : FaultType} {faultaddress : CUnsigned}
    (access : faulttype = .read ∨ faulttype = .write) (clean : Clean as m.tlb)
    (missing : m.Missing faultaddress) {result : Errno}
    (done : vmFault faulttype faultaddress (some as) m.tlb = .ok (result, tlb)) :
    Clean as tlb := by
  by_cases proper : as.Proper
  · rcases vmFault_proper access proper faultaddress m.tlb with ⟨-, refused⟩ | entered
    · cases refused.symm.trans done
      exact clean
    · obtain ⟨paddr, i, found, page, -, entered⟩ := entered
      cases entered.symm.trans done
      exact clean.enter proper (and_frame_twice faultaddress) page found missing i
  · cases (vmFault_improper access proper faultaddress m.tlb).symm.trans done

private theorem private_fault {m : Machine} {faulttype : FaultType} {faultaddress : CUnsigned}
    (inv : m.Private) (missing : m.Missing faultaddress) {result : Errno}
    (done : vmFault faulttype faultaddress m.current m.tlb = .ok (result, tlb)) :
    Private { m with tlb := tlb } := by
  intro as running
  change m.current = some as at running
  have clean := inv as running
  rw [running] at done
  cases faulttype with
  | readonly => cases done
  | other =>
    cases done
    exact clean
  | read => exact private_access (.inl rfl) clean missing done
  | write => exact private_access (.inr rfl) clean missing done

private theorem private_next {m t : Machine} {event : Event} (inv : m.Private)
    (stepped : m.next event = some t) : t.Private := by
  cases event with
  | switch thread | threadstart thread =>
    cases stepped
    exact private_activate _
  | runprogram =>
    simp only [next] at stepped
    split at stepped
    next =>
      cases stepped
      exact fun _ _ => Clean.activate _
    next => cases stepped
  | defineRegion vaddr sz =>
    simp only [next] at stepped
    split at stepped
    next => cases stepped
    next as running =>
      split at stepped
      next unprepared =>
        split at stepped
        next as' _ =>
          cases stepped
          intro _ _
          exact (inv as running).of_improper (not_proper_of_pbase1 unprepared)
        next =>
          cases stepped
          exact inv
      next => cases stepped
  | prepareLoad ram =>
    simp only [next] at stepped
    split at stepped
    next => cases stepped
    next as running =>
      split at stepped
      next prepared =>
        cases stepped
        intro _ _
        exact (inv as running).of_improper (not_proper_of_pbase1 (asPrepareLoad_pbase1 prepared))
      next => cases stepped
  | fault faulttype faultaddress =>
    simp only [next] at stepped
    split at stepped
    next missing =>
      split at stepped
      next done =>
        cases stepped
        exact private_fault inv missing done
      next => cases stepped
    next => cases stepped
  | exit =>
    cases stepped
    intro as some
    cases (update_self ..).symm.trans some

/-- Whenever a process runs, every valid entry is one that `vm_fault` would make for it, and no
page has two. -/
theorem tlb_private {tlb : Tlb} {history : List (Machine × Event)} {m : Machine}
    (run : Run (Computes next) (boot tlb) history m) {as : AddrSpace}
    (running : m.vmspace m.curthread = some as) :
    (∀ i, (m.tlb i).Valid → as.paddr ((m.tlb i).ehi &&& PAGE_FRAME) =
      some ((m.tlb i).elo &&& PAGE_FRAME)) ∧
      ∀ i j, (m.tlb i).Valid → (m.tlb j).Valid →
        (m.tlb i).ehi &&& PAGE_FRAME = (m.tlb j).ehi &&& PAGE_FRAME → i = j := by
  have inv : m.Private := run.invariant (by rintro as ⟨⟩)
    (fun _ _ _ before stepped => private_next before stepped)
  have clean := inv as running
  exact ⟨fun i valid => (clean.maps i valid).2, clean.once⟩

/-- A program is started, touches a page, and is found again after another thread has run. -/
def session : List Event :=
  [.threadstart 1, .runprogram, .defineRegion 0x400000 0x1234, .defineRegion 0x10000000 0x800,
    .prepareLoad ⟨0x20000, 0x80000⟩, .fault .read 0x400010, .switch 2, .switch 1,
    .fault .write 0x401abc]

/-- The first entry then is the page touched last. -/
def Resumed (m : Machine) : Prop :=
  m.tlb ⟨0, by decide⟩ = ⟨0x401000, 0x21600⟩ ∧
    m.vmspace m.curthread = some ⟨0x400000, 0x20000, 2, 0x10000000, 0x22000, 1, 0x23000⟩

instance : DecidablePred Resumed := fun _ => inferInstanceAs (Decidable (_ ∧ _))

theorem tlb_private_session :
    ∃ history m, Run (Computes next) (boot fun _ => ⟨0x400000, 0x77600⟩) history m ∧
      history.map Prod.snd = session.reverse ∧ Resumed m ∧
      ∀ i j, (m.tlb i).Valid → (m.tlb j).Valid →
        (m.tlb i).ehi &&& PAGE_FRAME = (m.tlb j).ehi &&& PAGE_FRAME → i = j := by
  obtain ⟨m, done, resumed⟩ : ∃ m, execute next (boot fun _ => ⟨0x400000, 0x77600⟩) session =
      some m ∧ Resumed m := execute_check (by decide +kernel)
  obtain ⟨history, run, same⟩ := Run.of_execute done
  exact ⟨history, m, run, same, resumed, (tlb_private run resumed.2).2⟩

end Machine

end Os161.Vm
