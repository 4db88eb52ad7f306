import Os161.Sfs.Accounts

/-!
# Statements of a call that runs alone

What the functions of `vnode.c`, block input and output and the freemap do to a volume when no
other thread runs and the device does not fail.
-/
namespace Os161.Sfs

open Foundation Vfs
open Call (ensures_bind ensures_ensure ensures_held ensures_modify ensures_pure ensures_state
  ensures_yield)

def Volume.put (s : Volume) (p : Ptr) (sv : SfsVnode) : Volume :=
  { s with heap := Function.update s.heap p (some sv) }

namespace Volume

variable {s : Volume} {p : Ptr} {sv sv' : SfsVnode}

@[simp] theorem heap_put : (s.put p sv).heap p = some sv := Function.update_self ..

theorem heap_put_of_ne {q : Ptr} (other : q ≠ p) : (s.put p sv).heap q = s.heap q :=
  Function.update_of_ne other ..

@[simp] theorem put_put : (s.put p sv).put p sv' = s.put p sv' := by
  simp [put]

theorem put_self (here : s.heap p = some sv) : s.put p sv = s := by
  rw [put, ← here, Function.update_eq_self]

end Volume

open Volume (heap_put put_put)

section

variable {H : Halt → Prop} {s : Volume} {p : Ptr} {sv : SfsVnode} {b : CUnsigned}
  {E : Errno → Volume → Prop}

/-! ### Vnodes -/

theorem ensures_svAt {Q : SfsVnode → Volume → Prop} (here : s.heap p = some sv) :
    (svAt p).Ensures H s Q E ↔ Q sv s := by
  rw [svAt, ensures_bind, ensures_state, here, Call.ensures_expect_some]

variable {Q : Unit → Volume → Prop} {reclaims : Bool} {f : SfsVnode → SfsVnode}

section

variable (here : s.heap p = some sv)

include here

theorem ensures_alterSv :
    (alterSv p f).Ensures H s Q E ↔ Q () (s.put p (f sv)) := by
  rw [alterSv, ensures_bind, ensures_svAt here]
  rfl

theorem ensures_fetch {Q : Vnode → Volume → Prop} :
    (fetch p).Ensures H s Q E ↔ Q sv.toVnode s := by
  have found : Vnodes.vnode s p = some sv.toVnode := by
    simp [Vnodes.vnode, here]
  rw [fetch, ensures_bind, ensures_state, found, Call.ensures_expect_some]

theorem ensures_alter {f : Vnode → Vnode} :
    (alter p f).Ensures H s Q E ↔ Q () (s.put p { sv with toVnode := f sv.toVnode }) := by
  have result : Vnodes.setVnode p (f sv.toVnode) s =
      s.put p { sv with toVnode := f sv.toVnode } := by
    simp [Vnodes.setVnode, here, Volume.put]
  rw [alter, ensures_bind, ensures_fetch here, ensures_modify, result]

theorem ensures_lockRelease (held : sv.locked = true) :
    (lockRelease p).Ensures H s Q E ↔ Q () (s.put p { sv with locked := false }) := by
  rw [lockRelease, ensures_bind, ensures_yield, ensures_bind, ensures_fetch here,
    ensures_bind, ensures_held held, ensures_bind, ensures_alter here, ensures_yield]

variable (free : sv.locked = false)

include free

theorem ensures_lockAcquire :
    (lockAcquire p).Ensures H s Q E ↔ Q () (s.put p { sv with locked := true }) := by
  have ready : (Vnodes.vnode s p).all (!·.locked) = true := by
    simp [Vnodes.vnode, here, free]
  rw [lockAcquire, ensures_bind, Call.ensures_await, and_iff_right ready, ensures_bind,
    ensures_alter here, ensures_yield]

/-- A change of the counts under the lock. -/
theorem ensures_locked {f : Vnode → Vnode} (keeps : ∀ v, v.locked = true → (f v).locked = true) :
    (do lockAcquire p; alter p f; lockRelease p : Code Volume Unit).Ensures H s Q E ↔
      Q () (s.put p { sv with
        toVnode := { f { sv.toVnode with locked := true } with locked := false } }) := by
  rw [ensures_bind, ensures_lockAcquire here free, ensures_bind,
    ensures_alter heap_put, put_put, ensures_lockRelease heap_put (keeps _ rfl),
    put_put]

theorem ensures_incref :
    (vnodeIncref p).Ensures H s Q E ↔ Q () (s.put p { sv with refcount := sv.refcount + 1 }) := by
  rw [vnodeIncref, ensures_locked (f := fun v => { v with refcount := v.refcount + 1 }) here free
    fun _ held => held, ← free]

theorem ensures_incopen :
    (vnodeIncopen p).Ensures H s Q E ↔
      Q () (s.put p { sv with opencount := sv.opencount + 1 }) := by
  rw [vnodeIncopen, ensures_locked (f := fun v => { v with opencount := v.opencount + 1 }) here free
    fun _ held => held, ← free]

theorem ensures_check (counted : sv.refcount ≠ 0) :
    (vnodeCheck p reclaims).Ensures H s Q E ↔ Q () s := by
  have back : (s.put p { sv with locked := true }).put p { sv with locked := false } = s := by
    rw [put_put, ← free]
    exact Volume.put_self here
  rw [vnodeCheck, ensures_bind, ensures_fetch here, ensures_bind,
    ensures_lockAcquire here free, ensures_bind, ensures_fetch heap_put,
    ensures_bind, ensures_held (Or.inl counted), ensures_lockRelease heap_put rfl, back]

/-- One of several references goes. -/
theorem ensures_decref_more {reclaim : Code Volume Unit}
    (more : 1 < sv.refcount) :
    (vnodeDecref reclaim p).Ensures H s Q E ↔
      Q () (s.put p { sv with refcount := sv.refcount - 1 }) := by
  rw [vnodeDecref, ensures_bind, ensures_lockAcquire here free, ensures_bind,
    ensures_fetch heap_put, ensures_bind,
    ensures_held (show 0 < sv.refcount from Nat.zero_lt_of_lt more), if_pos more,
    ensures_bind, ensures_alter heap_put, put_put,
    ensures_lockRelease heap_put rfl, put_put, ← free]

/-- The last reference goes with the vnode. -/
theorem ensures_decref_last {reclaim : Code Volume Unit}
    (last : sv.refcount = 1) :
    (vnodeDecref reclaim p).Ensures H s Q E ↔
      reclaim.Ensures H s (fun _ => Q ()) (fun _ => Q ()) := by
  have back : (s.put p { sv with locked := true }).put p { sv with locked := false } = s := by
    rw [put_put, ← free]
    exact Volume.put_self here
  rw [vnodeDecref, ensures_bind, ensures_lockAcquire here free, ensures_bind,
    ensures_fetch heap_put, ensures_bind, ensures_held (show 0 < sv.refcount by omega),
    if_neg (show ¬ 1 < sv.refcount by omega), ensures_bind,
    ensures_lockRelease heap_put rfl, back, ensures_bind,
    ensures_check here free (by omega), ensures_bind, Call.ensures_attempt]
  rfl

theorem ensures_decopen {close : Code Volume Unit}
    (opened : 0 < sv.opencount) (counted : sv.refcount ≠ 0) :
    (vnodeDecopen close p).Ensures H s Q E ↔
      if sv.opencount = 1 then
        close.Ensures H (s.put p { sv with opencount := 0 }) (fun _ => Q ()) (fun _ => Q ())
      else Q () (s.put p { sv with opencount := sv.opencount - 1 }) := by
  have result : ((s.put p { sv with locked := true }).put p
      { sv with opencount := sv.opencount - 1, locked := true }).put p
        { sv with opencount := sv.opencount - 1, locked := false } =
      s.put p { sv with opencount := sv.opencount - 1 } := by
    rw [put_put, put_put, ← free]
  rw [vnodeDecopen, ensures_bind, ensures_lockAcquire here free, ensures_bind,
    ensures_fetch heap_put, ensures_bind, ensures_held opened, ensures_bind,
    ensures_alter heap_put, ensures_bind, ensures_lockRelease heap_put rfl, result]
  by_cases last : sv.opencount = 1
  · have checked : ∀ Q : Unit → Volume → Prop,
        (vnodeCheck p false).Ensures H (s.put p { sv with opencount := sv.opencount - 1 }) Q E ↔
          Q () (s.put p { sv with opencount := sv.opencount - 1 }) :=
      fun Q => ensures_check heap_put free counted
    rw [if_pos (by simp [last]), ensures_bind, checked, ensures_bind,
      Call.ensures_attempt, last]
    rfl
  · rw [if_neg last, if_neg (show ¬ sv.opencount - 1 = 0 by omega)]
    rfl

end

/-! ### Memory, blocks and space -/

theorem ensures_kmalloc :
    kmalloc.Ensures H s Q E ↔
      (s.memory s.asked = true → Q () { s with asked := s.asked + 1 }) ∧
        (s.memory s.asked = false → E .ENOMEM { s with asked := s.asked + 1 }) := by
  rw [kmalloc, ensures_bind, ensures_state, ensures_bind]
  cases s.memory s.asked <;> simp

theorem ensures_operate {Q : Outcome → Volume → Prop} (sane : Sane s)
    (valid : b < s.super.nblocks) :
    (operate b).Ensures H s Q E ↔ Q .ok { s with started := s.started + 1 } := by
  rw [operate, ensures_bind, ensures_state, ensures_bind, ensures_held (sane.sector valid).2,
    ensures_bind, ensures_modify, ensures_pure, sane.reliable]

/-- A block is read from a device that can fail. -/
theorem ensures_read {store : Block → Volume → Volume} {Q : Block → Volume → Prop}
    (sector : sectorOf b = b ∧ sectorOf b + 1 ≤ s.device.blocks)
    (next : Q (s.disk b) (store (s.disk b) { s with started := s.started + 1 }))
    (broken : s.device.outcome s.started = .fails → E .EIo { s with started := s.started + 1 }) :
    (rblock store b).Ensures H s Q E := by
  rw [rblock, ensures_bind, ensures_yield, ensures_bind, operate, ensures_bind, ensures_state,
    ensures_bind, ensures_held sector.2, ensures_bind, ensures_modify, ensures_pure,
    Call.ensures_ite, sector.1]
  refine ⟨fun fails => ?_, fun _ => ?_⟩
  · rw [ensures_bind, ensures_yield]
    exact broken fails
  · rw [ensures_bind, ensures_state, ensures_bind, ensures_modify,
      ensures_bind, ensures_yield]
    exact next

/-- The disk after operation `n`, a write: it has the block if the operation succeeded. -/
def Device.commit (device : Device) (n : Nat) (w : CUnsigned × Block) (disk : CUnsigned → Block) :
    CUnsigned → Block :=
  if device.outcome n = .ok then Function.update disk w.1 w.2 else disk

/-- A block is written or lost, or an error comes. -/
theorem ensures_write {data : Volume → Block}
    (sector : sectorOf b = b ∧ sectorOf b + 1 ≤ s.device.blocks)
    (next : s.device.outcome s.started ≠ .fails → Q () { s with
      started := s.started + 1
      disk := s.device.commit s.started (b, data { s with started := s.started + 1 }) s.disk })
    (broken : s.device.outcome s.started = .fails → E .EIo { s with started := s.started + 1 }) :
    (wblock data b).Ensures H s Q E := by
  rw [wblock, ensures_bind, ensures_yield, ensures_bind, operate, ensures_bind, ensures_state,
    ensures_bind, ensures_held sector.2, ensures_bind, ensures_modify, ensures_pure]
  unfold Device.commit at next
  cases outcome : s.device.outcome s.started with
  | ok =>
    rw [if_pos rfl, ensures_bind, ensures_modify, ensures_bind, ensures_yield, sector.1]
    simpa [outcome] using next
  | lost =>
    rw [if_neg (by decide), ensures_bind, ensures_yield]
    simpa [outcome] using next
  | fails =>
    rw [if_neg (by decide), ensures_bind, ensures_yield]
    exact broken outcome

theorem ensures_rblock {store : Block → Volume → Volume} {Q : Block → Volume → Prop} (sane : Sane s)
    (valid : b < s.super.nblocks) :
    (rblock store b).Ensures H s Q E ↔
      Q (s.disk b) (store (s.disk b) { s with started := s.started + 1 }) := by
  rw [rblock, ensures_bind, ensures_yield, ensures_bind, ensures_operate sane valid,
    if_neg (by decide), ensures_bind, ensures_state, ensures_bind,
    ensures_modify, ensures_bind, ensures_yield, ensures_pure,
    (sane.sector valid).1]

theorem ensures_wblock {data : Volume → Block} (sane : Sane s) (valid : b < s.super.nblocks) :
    (wblock data b).Ensures H s Q E ↔
      Q () { s with
        started := s.started + 1
        disk := Function.update s.disk b (data { s with started := s.started + 1 }) } := by
  rw [wblock, ensures_bind, ensures_yield, ensures_bind, ensures_operate sane valid,
    if_pos rfl, ensures_bind, ensures_modify, ensures_bind, ensures_yield,
    if_neg (by decide), ensures_pure, (sane.sector valid).1]

theorem ensures_balloc {Q : CUnsigned → Volume → Prop} (sane : Sane s)
    (full : s.Full → E .ENOSPC s)
    (next : ∀ b, ¬ s.Marked b → b < s.super.nblocks →
      Q b { s.allocated b with started := s.started + 1 }) :
    sfsBalloc.Ensures H s Q E := by
  have call : sfsBalloc.Secures (sharing 0 H) ∅ s (fun b _ => Q b) fun e _ => E e :=
    secures_balloc sane full next
  exact alone_ensures call

theorem ensures_bfree (sane : Sane s) (valid : b < s.super.nblocks) (marked : s.Marked b) :
    (sfsBfree b).Ensures H s Q E ↔ Q () (s.unmark b) := by
  have inside : b < s.freemap.nbits := by
    have below := BitVec.lt_def.mp valid
    have size := sane.size
    rw [BitVec.lt_def]
    omega
  rw [sfsBfree, ensures_bind, ensures_state, Bitmap.unmark_eq inside marked]
  rfl

theorem ensures_bused {Q : Bool → Volume → Prop} (valid : b < s.super.nblocks)
    (marked : s.Marked b) : (sfsBused b).Ensures H s Q E ↔ Q true s := by
  rw [sfsBused, ensures_bind, ensures_state, ensures_bind, ensures_held valid, ensures_pure,
    Bitmap.isset_eq, marked]

end

end Os161.Sfs
