import Mathlib.Data.List.Induction
import Os161.Foundation.Bits
import Os161.Kern.Base

/-!
# Interrupts of the bus, `lamebus_interrupt`

One call looks through the slots that assert an interrupt and runs their handlers. What it finds
without a handler it counts in `duds`, a static variable, so the count goes from one call to the
next. A handler may change the bus and the interrupt register, which are given as every handler
leaves them; `duds` it cannot change.

The assertions at the start are about the caller, `mips_interrupt`, which raises `curspl` and
passes the bus it has found at boot.
-/
namespace Os161.Io

open Foundation

/-- The fields of `struct lamebus_softc` that are read here. -/
structure Bus where
  slotsinuse : CUnsigned
  /-- Whether `ls_irqfuncs[slot]` is set. -/
  irqfuncs : Nat → Bool

/-- One call: the bus and the register it finds, and both as every handler leaves them. -/
structure Interrupt where
  bus : Bus
  irqs : CUnsigned
  handled : Nat → Bus × CUnsigned

def LB_NSLOTS : Nat := 32

structure Poll where
  bus : Bus
  irqs : CUnsigned
  duds : CInt
  dudsThisTime : CInt

def Poll.dud (p : Poll) : Poll :=
  { p with duds := p.duds + 1, dudsThisTime := p.dudsThisTime + 1 }

def pollSlot (handled : Nat → Bus × CUnsigned) (slot : Nat) (mask : CUnsigned) (p : Poll) : Poll :=
  if p.irqs &&& mask = 0 then p
  else if p.bus.slotsinuse &&& mask = 0 then p.dud
  else if p.bus.irqfuncs slot = false then p.dud
  else { p with bus := (handled slot).1, irqs := (handled slot).2 }

def pollSlots (handled : Nat → Bus × CUnsigned) : Nat → Nat → CUnsigned → Poll → Poll
  | 0, _, _, p => p
  | left + 1, slot, mask, p =>
    pollSlots handled left (slot + 1) (mask <<< 1) (pollSlot handled slot mask p)

/-- The value of `duds` after the call. -/
def lamebusInterrupt (duds : CInt) (call : Interrupt) : Except Fault CInt :=
  if call.irqs = 0 then
    -- the check below is not reached
    .ok (duds + 1)
  else
    let p := pollSlots call.handled LB_NSLOTS 0 1
      { bus := call.bus, irqs := call.irqs, duds := duds, dudsThisTime := 0 }
    let duds := if p.dudsThisTime = 0 ∧ (0 : CInt).slt p.duds then 0 else p.duds
    if (10000 : CInt).slt duds then .error .panic else .ok duds

/-- Calls one after the other, from the start of the system. -/
def interrupts (calls : List Interrupt) : Except Fault CInt :=
  calls.foldlM lamebusInterrupt 0

/-! ### Duds -/

/-- The slots at which a call finds no one to handle an interrupt, from `slot` on. -/
def dudSlots (handled : Nat → Bus × CUnsigned) : Nat → Nat → Bus → CUnsigned → List Nat
  | 0, _, _, _ => []
  | left + 1, slot, bus, irqs =>
    if irqs.getLsbD slot = false then dudSlots handled left (slot + 1) bus irqs
    else if bus.slotsinuse.getLsbD slot = true ∧ bus.irqfuncs slot = true then
      dudSlots handled left (slot + 1) (handled slot).1 (handled slot).2
    else slot :: dudSlots handled left (slot + 1) bus irqs

def Interrupt.duds (call : Interrupt) : Nat :=
  if call.irqs = 0 then 1
  else (dudSlots call.handled LB_NSLOTS 0 call.bus call.irqs).length

/-- The dud events since the last call without one. -/
def dudsInARow (calls : List Interrupt) : Nat :=
  calls.foldl (fun n call => if call.duds = 0 then 0 else n + call.duds) 0

theorem dudsInARow_concat (calls : List Interrupt) (call : Interrupt) :
    dudsInARow (calls ++ [call]) =
      if call.duds = 0 then 0 else dudsInARow calls + call.duds := by
  simp [dudsInARow]

theorem interrupts_concat (calls : List Interrupt) (call : Interrupt) :
    interrupts (calls ++ [call]) = interrupts calls >>= (lamebusInterrupt · call) := by
  simp [interrupts]

private theorem length_dudSlots_le (handled : Nat → Bus × CUnsigned) (left slot : Nat) (bus : Bus)
    (irqs : CUnsigned) : (dudSlots handled left slot bus irqs).length ≤ left := by
  induction left generalizing slot bus irqs with
  | zero => exact Nat.le_refl 0
  | succ left ih =>
    rw [dudSlots]
    split
    · exact Nat.le_succ_of_le (ih ..)
    · split
      · exact Nat.le_succ_of_le (ih ..)
      · exact Nat.succ_le_succ (ih ..)

theorem Interrupt.duds_le (call : Interrupt) : call.duds ≤ 32 := by
  rw [duds]
  split
  · decide
  · exact length_dudSlots_le ..

/-- The loop counts the duds, and touches the count in no other way. -/
theorem pollSlots_duds (handled : Nat → Bus × CUnsigned) (left slot : Nat) (p : Poll)
    (within : slot + left = 32) :
    (pollSlots handled left slot (1#32 <<< slot) p).duds =
        p.duds + BitVec.ofNat 32 (dudSlots handled left slot p.bus p.irqs).length ∧
      (pollSlots handled left slot (1#32 <<< slot) p).dudsThisTime =
        p.dudsThisTime + BitVec.ofNat 32 (dudSlots handled left slot p.bus p.irqs).length := by
  induction left generalizing slot p with
  | zero => simp [pollSlots, dudSlots]
  | succ left ih =>
    have small : slot < 32 := by omega
    have shifted : 1#32 <<< slot <<< 1 = 1#32 <<< (slot + 1) :=
      (BitVec.shiftLeft_add _ slot 1).symm
    have next := ih (slot + 1) (pollSlot handled slot (1#32 <<< slot) p) (by omega)
    rw [pollSlots, shifted, next.1, next.2]
    have one_more : ∀ (d : CInt) (n : Nat),
        d + 1 + BitVec.ofNat 32 n = d + BitVec.ofNat 32 (n + 1) := by
      intro d n
      rw [BitVec.ofNat_add, BitVec.add_assoc, BitVec.add_comm 1]
      rfl
    rw [pollSlot, dudSlots]
    have tested := fun word : CUnsigned => Bits.and_mask_eq_zero (w := word) small
    have zero : (0 : CUnsigned) = 0#32 := rfl
    simp only [zero, tested]
    split
    · exact ⟨rfl, rfl⟩
    split
    next unused =>
      rw [if_neg (by simp [unused])]
      exact ⟨one_more .., one_more ..⟩
    next used =>
      split
      next none =>
        rw [if_neg (by simp [none])]
        exact ⟨one_more .., one_more ..⟩
      next found =>
        rw [if_pos (by simpa using And.intro used found)]
        exact ⟨rfl, rfl⟩

/-- Numbers that are the same signed and unsigned. -/
theorem slt_ofNat {k m : Nat} (hk : k < 2 ^ 31) (hm : m < 2 ^ 31) :
    (BitVec.ofNat 32 k).slt (BitVec.ofNat 32 m) = true ↔ k < m := by
  have left : (BitVec.ofNat 32 k).toNat = k := Nat.mod_eq_of_lt (by omega)
  have right : (BitVec.ofNat 32 m).toNat = m := Nat.mod_eq_of_lt (by omega)
  rw [slt_iff (by omega) (by omega), left, right]

/-- What a call does to a count of `n` that has not wrapped. -/
theorem lamebusInterrupt_eq (n : Nat) (small : n < 2 ^ 31 - 32) (call : Interrupt) :
    lamebusInterrupt (BitVec.ofNat 32 n) call =
      if call.duds = 0 then .ok 0
      else if n + call.duds ≤ 10000 ∨ call.irqs = 0 then .ok (BitVec.ofNat 32 (n + call.duds))
      else .error .panic := by
  have few := call.duds_le
  rw [lamebusInterrupt]
  by_cases stray : call.irqs = 0
  · have one : call.duds = 1 := if_pos stray
    rw [if_pos stray, one, if_neg (by decide), if_pos (.inr stray), BitVec.ofNat_add]
    rfl
  have found : call.duds = (dudSlots call.handled LB_NSLOTS 0 call.bus call.irqs).length :=
    if_neg stray
  obtain ⟨total, now⟩ := pollSlots_duds call.handled LB_NSLOTS 0
    { bus := call.bus, irqs := call.irqs, duds := BitVec.ofNat 32 n, dudsThisTime := 0 } rfl
  have start : 1#32 <<< 0 = 1 := rfl
  simp only [← found, start] at total now
  have quiet : (0 : CInt) + BitVec.ofNat 32 call.duds = 0 ↔ call.duds = 0 := by
    bv_omega
  have counted : (0 : CInt).slt (BitVec.ofNat 32 (n + call.duds)) = true ↔ 0 < n + call.duds :=
    slt_ofNat (k := 0) (by decide) (by omega)
  simp only [if_neg stray, total, now, ← BitVec.ofNat_add, quiet, counted]
  by_cases none : call.duds = 0
  · have cleared : (if call.duds = 0 ∧ 0 < n + call.duds then 0
        else BitVec.ofNat 32 (n + call.duds)) = (0 : CInt) := by
      split
      · rfl
      next empty =>
        rw [show n + call.duds = 0 by omega]
        rfl
    rw [cleared, if_neg (by decide), if_pos none]
  have above : (10000 : CInt).slt (BitVec.ofNat 32 (n + call.duds)) = true ↔
      10000 < n + call.duds := slt_ofNat (k := 10000) (by decide) (by omega)
  have kept : ¬ (call.duds = 0 ∧ 0 < n + call.duds) := fun both => none both.1
  simp only [if_neg kept, if_neg none, above, stray, or_false]
  by_cases large : 10000 < n + call.duds
  · rw [if_pos large, if_neg (Nat.not_le_of_lt large)]
  · rw [if_neg large, if_pos (Nat.le_of_not_lt large)]

/-! ### Sequences of calls -/

/-- The count never went above `bound` in these calls. -/
def Within (bound : Nat) (calls : List Interrupt) : Prop :=
  ∀ earlier, earlier <+: calls → dudsInARow earlier ≤ bound

/-- `call` is the first at which the count is above 10000. -/
def FirstExceeds (calls : List Interrupt) (call : Interrupt) : Prop :=
  Within 10000 calls ∧ 10000 < dudsInARow (calls ++ [call])

variable {calls : List Interrupt}

theorem Within.init {bound : Nat} {call : Interrupt}
    (within : Within bound (calls ++ [call])) : Within bound calls :=
  fun earlier before => within earlier (before.trans (List.prefix_append calls [call]))

/-- As long as there has been no panic, `duds` is the count. -/
theorem interrupts_count {duds : CInt}
    (within : Within (2 ^ 31 - 33) calls) (done : interrupts calls = .ok duds) :
    duds = BitVec.ofNat 32 (dudsInARow calls) := by
  induction calls using List.reverseRecOn generalizing duds with
  | nil =>
    cases done
    rfl
  | append_singleton calls call ih =>
    rw [interrupts_concat] at done
    cases before : interrupts calls with
    | error fault =>
      rw [before] at done
      cases done
    | ok old =>
      have small := within calls (List.prefix_append calls [call])
      rw [before, ih within.init before] at done
      change lamebusInterrupt _ call = _ at done
      rw [lamebusInterrupt_eq _ (by omega)] at done
      rw [dudsInARow_concat]
      split at done
      next none =>
        cases done
        rw [if_pos none]
        rfl
      next some =>
        split at done
        · cases done
          rw [if_neg some]
        · cases done

/-- There is no panic while the count is not above its limit. -/
theorem interrupts_within (within : Within 10000 calls) :
    interrupts calls = .ok (BitVec.ofNat 32 (dudsInARow calls)) := by
  induction calls using List.reverseRecOn with
  | nil => rfl
  | append_singleton calls call ih =>
    have small := within calls (List.prefix_append calls [call])
    have now := within _ List.prefix_rfl
    rw [dudsInARow_concat] at now ⊢
    rw [interrupts_concat, ih within.init]
    change lamebusInterrupt _ call = _
    rw [lamebusInterrupt_eq _ (by omega)]
    split
    · rfl
    next some =>
      rw [if_neg some] at now
      rw [if_pos (.inl now)]

/-- The call in which the count first exceeds 10000 panics unless it is a stray interrupt, and a
call without duds clears the count. -/
theorem stuck_line (calls : List Interrupt) (call : Interrupt) :
    (FirstExceeds calls call →
      (interrupts (calls ++ [call]) = .error .panic ↔ call.irqs ≠ 0)) ∧
    (Within (2 ^ 31 - 33) calls → call.duds = 0 → ∀ duds, interrupts calls = .ok duds →
      interrupts (calls ++ [call]) = .ok 0) := by
  constructor
  · rintro ⟨within, above⟩
    have small := within calls List.prefix_rfl
    rw [dudsInARow_concat] at above
    have some : call.duds ≠ 0 := by
      intro none
      rw [if_pos none] at above
      omega
    rw [if_neg some] at above
    rw [interrupts_concat, interrupts_within within]
    change lamebusInterrupt _ call = _ ↔ _
    rw [lamebusInterrupt_eq _ (by omega), if_neg some]
    have exceeds : ¬ dudsInARow calls + call.duds ≤ 10000 := by omega
    by_cases stray : call.irqs = 0
    · simp [stray]
    · simp [exceeds]
  · intro within none duds before
    have small := within calls List.prefix_rfl
    rw [interrupts_concat, before, interrupts_count within before]
    change lamebusInterrupt _ call = _
    rw [lamebusInterrupt_eq _ (by omega), if_pos none]

/-- Nothing asserts an interrupt. -/
def stray : Interrupt :=
  { bus := ⟨0, fun _ => false⟩, irqs := 0, handled := fun _ => (⟨0, fun _ => false⟩, 0) }

/-- Slot 0 does, and no one uses it. -/
def unclaimed : Interrupt := { stray with irqs := 1 }

theorem dudsInARow_stray (n : Nat) : dudsInARow (List.replicate n stray) = n := by
  induction n with
  | zero => rfl
  | succ n ih =>
    have one : stray.duds = 1 := rfl
    rw [List.replicate_succ', dudsInARow_concat, ih, one, if_neg (by decide)]

theorem within_stray (n : Nat) : Within n (List.replicate n stray) := by
  intro earlier before
  obtain ⟨length, same⟩ := List.prefix_replicate_iff.mp before
  rw [same, dudsInARow_stray]
  exact length

/-- Ten thousand stray interrupts, then one of a slot that is not in use. -/
theorem stuck_line_unclaimed :
    FirstExceeds (List.replicate 10000 stray) unclaimed ∧
      interrupts (List.replicate 10000 stray ++ [unclaimed]) = .error .panic := by
  have first : FirstExceeds (List.replicate 10000 stray) unclaimed := by
    have one : unclaimed.duds = 1 := by decide
    refine ⟨within_stray 10000, ?_⟩
    rw [dudsInARow_concat, dudsInARow_stray]
    decide
  exact ⟨first, ((stuck_line _ unclaimed).1 first).mpr (by decide)⟩

/-- Stray interrupts alone are never noticed. -/
theorem stuck_line_stray :
    FirstExceeds (List.replicate 10000 stray) stray ∧
      interrupts (List.replicate 10000 stray ++ [stray]) = .ok 10001 := by
  refine ⟨⟨within_stray 10000, ?_⟩, ?_⟩
  · rw [dudsInARow_concat, dudsInARow_stray]
    decide
  · rw [interrupts_concat, interrupts_within (within_stray 10000), dudsInARow_stray]
    rfl

end Os161.Io
