import Os161.Sfs.Directory
import Os161.Sfs.Residents

/-!
# A volume as its users see it

A `View` has the files of a volume, the vnodes that are in memory for them and how often they
are held. Each function on vnodes changes the view in one way, whether or not the file had a
vnode before.
-/
namespace Os161.Sfs

open Inode (ofBlock)

open Foundation Vfs
open Function (update update_eq_self update_idem update_of_ne update_self)
open Call (ensures_bind ensures_ensure ensures_held ensures_modify ensures_pure ensures_state)

/-- No entry of the directory refers to the file. -/
def unlinked (A : Files) (ino : CUnsigned) : Bool := (A ino).all (·.linkcount = 0)

structure View where
  files : Files
  /-- The inodes of the vnodes that are in memory. -/
  vnode : Ptr → Option CUnsigned
  refs : Ptr → Nat
  opens : Ptr → Nat
  /-- Blocks that were lost when there was no memory for a new vnode. -/
  lost : Set CUnsigned
  memory : Nat → Bool

namespace View

def setFile (v : View) (ino : CUnsigned) (n : Node) : View :=
  { v with files := update v.files ino (some n) }

/-- One reference more to the vnode of a file, which may be new. -/
def take (v : View) (p : Ptr) (ino : CUnsigned) : View :=
  { v with vnode := update v.vnode p (some ino)
           refs := update v.refs p (v.refs p + 1) }

/-- One reference less. With the last one the vnode goes, and the file if it is not linked. -/
def drop (v : View) (p : Ptr) (ino : CUnsigned) : View :=
  if v.refs p = 1 then
    { v with files := if unlinked v.files ino then update v.files ino none else v.files
             vnode := update v.vnode p none
             refs := update v.refs p 0 }
  else { v with refs := update v.refs p (v.refs p - 1) }

theorem drop_eq (v : View) (p : Ptr) (ino : CUnsigned) :
    (v.drop p ino).files = (if v.refs p = 1 ∧ unlinked v.files ino = true then
      update v.files ino none else v.files) ∧
    (v.drop p ino).refs = update v.refs p (v.refs p - 1) ∧ (v.drop p ino).opens = v.opens ∧
      (v.drop p ino).lost = v.lost ∧ (v.drop p ino).memory = v.memory := by
  by_cases last : v.refs p = 1 <;> simp [drop, last]

end View

/-- The volume is as the view has it. -/
structure Shows (v : View) (s : Volume) : Prop where
  holds : Holds v.files v.lost v.refs v.opens s
  vnode : ∀ p, v.vnode p = (s.heap p).map (·.ino)
  memory : s.memory = v.memory

/-- The vnode at `p` is that of inode `ino`. -/
structure Stands (v : View) (s : Volume) (p : Ptr) (ino : CUnsigned) (sv : SfsVnode) : Prop where
  here : s.heap p = some sv
  number : sv.ino = ino
  counts : sv.toVnode = ⟨v.refs p, v.opens p, false⟩
  counted : 0 < v.refs p
  node : v.files ino = some (sv.inode.node s.disk)
  ops : opsOf sv.inode.type = some sv.ops
  valid : ino < s.super.nblocks
  marked : s.Marked ino
  sane : Sane s

section

variable {v : View} {s t : Volume} {p q : Ptr} {ino ino' : CUnsigned} {sv sv' : SfsVnode} {n : Node}

namespace Stands

variable (stands : Stands v s p ino sv)

include stands

theorem free : sv.locked = false := congrArg Vnode.locked stands.counts

theorem refcount : sv.refcount = v.refs p := congrArg Vnode.refcount stands.counts

theorem opencount : sv.opencount = v.opens p := congrArg Vnode.opencount stands.counts

theorem refcount_ne_zero : sv.refcount ≠ 0 := by
  rw [stands.refcount]
  exact stands.counted.ne'

end Stands

namespace Shows

variable (shows : Shows v s)

include shows

theorem stands (here : v.vnode p = some ino) : ∃ sv, Stands v s p ino sv := by
  rw [shows.vnode, Option.map_eq_some_iff] at here
  obtain ⟨sv, found, rfl⟩ := here
  obtain ⟨I, good, files⟩ := shows.holds
  obtain ⟨counts, counted, ops⟩ := good.tabled.counts p sv found
  have live := good.stored.loaded p sv found
  have mem := good.accounted.ino_mem live
  exact ⟨sv, found, rfl, counts, counted, shows.holds.node found, ops,
    (good.accounted.inside _ mem).1, good.accounted.marked_of_held mem, good.accounted.sane⟩

theorem live (here : v.vnode p = some ino) : ∃ n, v.files ino = some n := by
  obtain ⟨sv, stands⟩ := shows.stands here
  exact ⟨_, stands.node⟩

theorem vnode_none (free : s.heap p = none) : v.vnode p = none := by
  rw [shows.vnode, free, Option.map_none]

theorem zero : v.files 0 = none := by
  obtain ⟨I, good, files⟩ := shows.holds
  rw [files, good.accounted.zero, Option.map_none]

theorem refs_pos (here : v.vnode p = some ino) : 0 < v.refs p := by
  obtain ⟨sv, stands⟩ := shows.stands here
  exact stands.counted

theorem refs_eq_zero (none : v.vnode p = none) : v.refs p = 0 ∧ v.opens p = 0 := by
  obtain ⟨I, good, -⟩ := shows.holds
  rw [shows.vnode, Option.map_eq_none_iff] at none
  exact good.tabled.absent p none

theorem congr (alike : Alike s t) (memory : t.memory = s.memory) : Shows v t := by
  obtain ⟨⟨I, good, files⟩, vnode, before⟩ := shows
  refine ⟨⟨I, good.congr alike, ?_⟩, ?_, memory.trans before⟩
  · rw [alike.disk]
    exact files
  · rw [alike.heap]
    exact vnode

/-! ### The counts and the link count -/

theorem put (stands : Stands v s p ino sv) (sv' : SfsVnode) {a c : Nat}
    (counts : sv'.toVnode = ⟨a, c, false⟩)
    (counted : 0 < a) (number : sv'.ino = ino) (ops : opsOf sv'.inode.type = some sv'.ops)
    (direct : sv'.inode.direct = sv.inode.direct)
    (indirect : sv'.inode.indirect = sv.inode.indirect)
    (clean : sv'.dirty = false → s.disk ino = sv'.inode.toBlock) :
    Shows { v with files := update v.files ino (some (sv'.inode.node s.disk))
                   refs := update v.refs p a
                   opens := update v.opens p c } (s.put p sv') := by
  obtain ⟨⟨I, good, files⟩, vnode, memory⟩ := shows
  obtain rfl := stands.number
  have tree : sv'.inode.tree s.disk = sv.inode.tree s.disk := by
    funext r
    cases r with
    | direct i => exact congrFun direct i
    | indirect => exact indirect
    | entry j => rw [Inode.tree, Inode.tree, indirect]
  refine ⟨⟨_, good.put stands.here counts counted number ops tree clean, fun ino => ?_⟩,
    fun q => ?_, memory⟩
  · by_cases same : ino = sv.ino
    · subst same
      simp only [update_self, Option.map_some]
      rfl
    · simp only [update_of_ne same]
      exact files ino
  by_cases same : q = p
  · subst same
    rw [Volume.heap_put, Option.map_some, number, vnode, stands.here]
    rfl
  · rw [Volume.heap_put_of_ne same]
    exact vnode q

theorem recount (stands : Stands v s p ino sv) {a c : Nat} (counted : 0 < a) :
    Shows { v with refs := update v.refs p a, opens := update v.opens p c }
      (s.put p { sv with toVnode := ⟨a, c, false⟩ }) := by
  have clean : sv.dirty = false → s.disk ino = sv.inode.toBlock := by
    intro clean
    obtain ⟨⟨I, good, -⟩, -, -⟩ := shows
    obtain rfl := stands.number
    exact good.stored.clean p sv stands.here clean
  have after := shows.put stands { sv with toVnode := ⟨a, c, false⟩ } rfl counted
    stands.number stands.ops rfl rfl clean
  rwa [← stands.node, update_eq_self] at after

end Shows

/-! ### The functions of `vnode.c` -/

variable {H : Halt → Prop} {E : Errno → Volume → Prop} {Q : Unit → Volume → Prop}

namespace Shows

variable (shows : Shows v s) (here : v.vnode p = some ino)

include shows here

theorem check (reclaims : Bool) : (vnodeCheck p reclaims).Ensures H s Q E ↔ Q () s := by
  obtain ⟨sv, stands⟩ := shows.stands here
  exact ensures_check stands.here stands.free stands.refcount_ne_zero

theorem incref : (vnodeIncref p).Ensures H s (fun _ t => Shows (v.take p ino) t) E := by
  obtain ⟨sv, stands⟩ := shows.stands here
  rw [ensures_incref stands.here stands.free]
  have after := shows.recount stands (a := v.refs p + 1) (c := v.opens p) (Nat.succ_pos _)
  rw [update_eq_self] at after
  have same : v.take p ino = { v with refs := update v.refs p (v.refs p + 1) } := by
    rw [View.take, ← here, update_eq_self]
  have counts : ({ sv with refcount := sv.refcount + 1 } : SfsVnode) =
      { sv with toVnode := ⟨v.refs p + 1, v.opens p, false⟩ } := by
    rw [stands.refcount, ← stands.opencount, ← stands.free]
  rw [same, counts]
  exact after

theorem incopen : (vnodeIncopen p).Ensures H s
    (fun _ t => Shows { v with opens := update v.opens p (v.opens p + 1) } t) E := by
  obtain ⟨sv, stands⟩ := shows.stands here
  rw [ensures_incopen stands.here stands.free]
  have after := shows.recount stands (a := v.refs p) (c := v.opens p + 1) stands.counted
  rw [update_eq_self] at after
  have counts : ({ sv with opencount := sv.opencount + 1 } : SfsVnode) =
      { sv with toVnode := ⟨v.refs p, v.opens p + 1, false⟩ } := by
    rw [stands.opencount, ← stands.refcount, ← stands.free]
  rw [counts]
  exact after

/-- The table of functions goes by the type. -/
theorem ops_eq (node : v.files ino = some n) {ops : Ops} (typed : opsOf n.type = some ops) :
    ∃ sv, s.heap p = some sv ∧ sv.ops = ops := by
  obtain ⟨sv, stands⟩ := shows.stands here
  cases stands.node.symm.trans node
  exact ⟨sv, stands.here, Option.some.inj (stands.ops.symm.trans typed)⟩

theorem vop_file {α : Type} {Q : α → Volume → Prop} {fileop dirop : Code Volume α}
    (node : v.files ino = some n) (type : n.type = SFS_TYPE_FILE) :
    (vop p fileop dirop).Ensures H s Q E ↔ fileop.Ensures H s Q E := by
  obtain ⟨sv, found, ops⟩ := shows.ops_eq here node (type ▸ rfl : opsOf n.type = some .fileops)
  rw [vop, ensures_bind, shows.check here, ensures_bind, ensures_svAt found, ops]

theorem vop_dir {α : Type} {Q : α → Volume → Prop} {fileop dirop : Code Volume α}
    (node : v.files ino = some n) (type : n.type = SFS_TYPE_DIR) :
    (vop p fileop dirop).Ensures H s Q E ↔ dirop.Ensures H s Q E := by
  obtain ⟨sv, found, ops⟩ := shows.ops_eq here node (type ▸ rfl : opsOf n.type = some .dirops)
  rw [vop, ensures_bind, shows.check here, ensures_bind, ensures_svAt found, ops]

theorem setLinks (node : v.files ino = some n) (f : BitVec 16 → BitVec 16) :
    (setLinks p f).Ensures H s
      (fun _ t => Shows (v.setFile ino { n with linkcount := f n.linkcount }) t) E := by
  obtain ⟨sv, stands⟩ := shows.stands here
  rw [Sfs.setLinks, ensures_alterSv stands.here]
  have after := shows.put stands { sv with
      inode := { sv.inode with linkcount := f sv.inode.linkcount }, dirty := true }
    stands.counts stands.counted stands.number stands.ops rfl rfl nofun
  cases stands.node.symm.trans node
  rw [update_eq_self, update_eq_self] at after
  exact after

end Shows

/-! ### Loading -/

/-- The search finds the vnode of the inode if there is one. -/
theorem Shows.findVnode (shows : Shows v s) (ino : CUnsigned) {Q : Option Ptr → Volume → Prop}
    (l : List Ptr) (listed : ∀ p ∈ l, (v.vnode p).isSome)
    (found : ∀ p, v.vnode p = some ino → Q (some p) s)
    (absent : (∀ p ∈ l, v.vnode p ≠ some ino) → Q none s) :
    (findVnode ino l).Ensures H s Q E := by
  induction l with
  | nil =>
    exact absent (by simp)
  | cons p rest ih =>
    obtain ⟨ino', here⟩ := Option.isSome_iff_exists.mp (listed p (List.mem_cons_self ..))
    obtain ⟨sv, stands⟩ := shows.stands here
    obtain rfl := stands.number
    rw [Sfs.findVnode, ensures_bind, ensures_svAt stands.here, ensures_bind,
      ensures_bused stands.valid stands.marked, ensures_bind, ensures_ensure,
      Call.ensures_ite]
    refine ⟨fun _ => ⟨fun same => ?_, fun other => ?_⟩, fun none => absurd rfl none⟩
    · exact found p (same ▸ here)
    refine ih (fun q mem => listed q (List.mem_cons_of_mem _ mem)) fun others => absent ?_
    intro q mem
    rcases List.mem_cons.mp mem with rfl | mem
    · rw [here]
      exact fun same => other (Option.some.inj same)
    · exact others q mem

/-- An inode comes from its block, or is new and gets the type. -/
def Inode.load (forcetype : BitVec 16) (b : Block) : Inode :=
  if forcetype = SFS_TYPE_INVAL then ofBlock b
  else { ofBlock b with type := forcetype }

theorem ensures_readVnode {Q : Ptr → Volume → Prop} {forcetype : BitVec 16} {ops : Ops}
    (sector : sectorOf ino = ino ∧ sectorOf ino + 1 ≤ s.device.blocks)
    (valid : ino < s.super.nblocks) (marked : s.Marked ino)
    (forced : forcetype = SFS_TYPE_INVAL ∨ (ofBlock (s.disk ino)).type = SFS_TYPE_INVAL)
    (typed : opsOf (Inode.load forcetype (s.disk ino)).type = some ops)
    (next : ∀ t, Alike s t → t.memory = s.memory → s.brk < t.brk →
      Q s.brk (t.add s.brk ⟨vnodeInit, ops, Inode.load forcetype (s.disk ino), ino,
        decide (forcetype ≠ SFS_TYPE_INVAL)⟩))
    (fails : ∀ t, Alike s t → t.memory = s.memory → (∃ n, s.memory n = false) → E .ENOMEM t)
    (broken : (∃ n, s.device.outcome n = .fails) → ∀ t, E .EIo t) :
    (readVnode ino forcetype).Ensures H s Q E := by
  have alike : ∀ asked brk started, s.brk ≤ brk →
      Alike s { s with asked := asked, brk := brk, started := started } :=
    fun _ _ _ above => ⟨rfl, rfl, rfl, rfl, rfl, rfl, above, rfl, rfl⟩
  have loaded : (if forcetype = SFS_TYPE_INVAL then ofBlock (s.disk ino)
      else { ofBlock (s.disk ino) with type := forcetype }) =
        Inode.load forcetype (s.disk ino) := rfl
  rw [readVnode, ensures_bind, ensures_kmalloc]
  refine ⟨fun _ => ?_, fun none => fails _ (alike _ _ _ le_rfl) rfl ⟨_, none⟩⟩
  rw [ensures_bind, ensures_state, ensures_bind, ensures_modify, ensures_bind,
    ensures_bused (s := { s with asked := s.asked + 1, brk := s.brk + 1 }) valid marked,
    ensures_bind, ensures_held rfl, ensures_bind]
  refine ensures_read sector ?_ fun fails => broken ⟨_, fails⟩ _
  rw [ensures_bind, ensures_held forced]
  dsimp only
  rw [loaded, typed, ensures_bind, Call.ensures_expect_some, ensures_bind,
    ensures_kmalloc]
  refine ⟨fun _ => ?_, fun none => fails _ (alike _ _ _ (Nat.le_succ _)) rfl ⟨_, none⟩⟩
  rw [ensures_bind, ensures_kmalloc]
  refine ⟨fun _ => ?_, fun none => fails _ (alike _ _ _ (Nat.le_succ _)) rfl ⟨_, none⟩⟩
  exact next _ (alike _ (s.brk + 1) _ (Nat.le_succ _)) rfl (Nat.lt_succ_self _)

/-- A new vnode, for an inode that is in the table or new in it. -/
theorem Shows.add {I : Inodes} {L : Set CUnsigned} (shows : Shows v s) (sv : SfsVnode)
    (good : Backed I v.lost v.refs v.opens s)
    (files : ∀ ino, v.files ino = (I ino).map (·.node s.disk))
    (accounted : Accounted (update I sv.ino (some sv.inode)) L s) (free : s.heap p = none)
    (below : p < s.brk) (counts : sv.toVnode = vnodeInit) (ops : opsOf sv.inode.type = some sv.ops)
    (new : ∀ q sv', s.heap q = some sv' → sv'.ino ≠ sv.ino)
    (clean : sv.dirty = false → s.disk sv.ino = sv.inode.toBlock) :
    Shows (({ v with lost := L }.take p sv.ino).setFile sv.ino (sv.inode.node s.disk))
      (s.add p sv) := by
  have count : v.refs p = 0 := (good.tabled.absent _ free).1
  refine ⟨⟨update I sv.ino (some sv.inode), ⟨?_, accounted.congr rfl rfl rfl rfl,
    good.stored.add new free clean⟩, fun ino => ?_⟩, fun q => ?_, shows.memory⟩
  · simp only [View.setFile, View.take, count]
    exact good.tabled.add free below counts ops new
  · by_cases same : ino = sv.ino
    · subst same
      simp only [View.setFile, update_self, Option.map_some]
      rfl
    · simp only [View.setFile, View.take, update_of_ne same]
      exact files ino
  by_cases here : q = p
  · subst here
    simp [View.setFile, View.take, Volume.add]
  · simp only [View.setFile, View.take, Volume.add, update_of_ne here]
    exact shows.vnode q

theorem View.setFile_self (live : v.files ino = some n) : v.setFile ino n = v := by
  rw [View.setFile, ← live, update_eq_self]

/-- The vnode of a file: the one in memory, or a new one. -/
theorem Shows.load (shows : Shows v s) (live : v.files ino = some n)
    (typed : (opsOf n.type).isSome) :
    (sfsLoadvnode ino SFS_TYPE_INVAL).Ensures H s
      (fun p t => Shows (v.take p ino) t ∧ (v.vnode p = none ∨ v.vnode p = some ino))
      (fun e t => Shows v t ∧ e = .ENOMEM ∧ ∃ k, v.memory k = false) := by
  rw [sfsLoadvnode, ensures_bind, ensures_state, ensures_bind]
  apply shows.findVnode ino s.vnodes
  · intro p mem
    obtain ⟨⟨I, good, -⟩, vnode, -⟩ := shows
    rw [vnode, Option.isSome_map]
    exact (good.tabled.table p).mp mem
  · intro p here
    have shows' : Shows v { s with finding := p :: s.finding } :=
      shows.congr ⟨rfl, rfl, rfl, rfl, rfl, rfl, le_rfl, rfl, rfl⟩ rfl
    simp only [ensures_bind, ensures_ensure, ensures_modify, ensures_pure]
    refine ⟨fun _ => (shows'.incref here).mono (fun _ t after => ⟨?_, .inr here⟩) fun _ _ => id,
      fun none => absurd trivial none⟩
    exact after.congr ⟨rfl, rfl, rfl, rfl, rfl, rfl, le_rfl, rfl, rfl⟩ rfl
  intro absent
  obtain ⟨I, good, files⟩ := shows.holds
  have row : ∃ i, I ino = some i ∧ i.node s.disk = n := by
    rw [files, Option.map_eq_some_iff] at live
    exact live
  obtain ⟨i, live', rfl⟩ := row
  -- no vnode has this inode, so it is on the disk
  have new : ∀ q sv', s.heap q = some sv' → sv'.ino ≠ ino := by
    intro q sv' found same
    have listed : q ∈ s.vnodes := (good.tabled.table q).mpr (by rw [found]; rfl)
    exact absent q listed (by rw [shows.vnode, found, Option.map_some, same])
  have stored : s.disk ino = i.toBlock := by
    rcases good.stored.away ino i live' with ⟨q, sv', found, same⟩ | away
    · exact absurd same (new q sv' found)
    · exact away.1
  have mem := good.accounted.ino_mem live'
  have inode : Inode.load SFS_TYPE_INVAL (s.disk ino) = i := by
    rw [Inode.load, if_pos rfl, stored, Inode.ofBlock_toBlock]
  obtain ⟨ops, typed⟩ := Option.isSome_iff_exists.mp typed
  have free : s.heap s.brk = none := good.tabled.fresh s.brk le_rfl
  have valid := (good.accounted.inside ino mem).1
  refine ensures_readVnode (good.accounted.sane.sector valid) valid
    (good.accounted.marked_of_held mem) (.inl rfl) (inode ▸ typed) ?_ ?_
    fun broken => absurd broken good.accounted.sane.unbroken
  · intro t alike memory above
    have good' := good.congr alike
    have same : update I ino (some i) = I := by
      rw [← live', update_eq_self]
    rw [inode]
    have after : Shows ((v.take s.brk ino).setFile ino (i.node t.disk)) _ :=
      (shows.congr alike memory).add
        ⟨vnodeInit, ops, i, ino, decide (SFS_TYPE_INVAL ≠ SFS_TYPE_INVAL)⟩ good'
        (by rwa [alike.disk]) (same.symm ▸ good'.accounted) (by rw [alike.heap, free]) above rfl
        typed (by rwa [alike.heap]) fun _ => by rw [alike.disk, stored]
    have kept : (v.take s.brk ino).files ino = some (i.node s.disk) := live
    rw [alike.disk, View.setFile_self kept] at after
    exact ⟨after, .inl (shows.vnode_none free)⟩
  · intro t alike memory lacks
    exact ⟨shows.congr alike memory, rfl, shows.memory ▸ lacks⟩

/-! ### A new file -/

def Node.blank (type : BitVec 16) : Node := ⟨type, 0, 0, fun _ => Block.zero⟩

theorem Inode.ofBlock_zero :
    (ofBlock Block.zero).type = 0 ∧ (ofBlock Block.zero).linkcount = 0 ∧
      (ofBlock Block.zero).size = 0 ∧ (ofBlock Block.zero).indirect = 0 ∧
      ∀ k, (ofBlock Block.zero).direct k = 0 := by
  simp [ofBlock, Inode.ofWords, Block.words_zero]

theorem Shows.makeobj (shows : Shows v s) {type : BitVec 16} (typed : (opsOf type).isSome) :
    (sfsMakeobj type).Ensures H s
      (fun p t => ∃ ino, v.files ino = none ∧ v.vnode p = none ∧
        Shows ((v.take p ino).setFile ino (Node.blank type)) t)
      (fun e t => (e = .ENOSPC ∧ t = s ∧ s.Full) ∨
        (e = .ENOMEM ∧ (∃ k, v.memory k = false) ∧
          ∃ b, ¬ s.Marked b ∧ b < s.super.nblocks ∧ b ∉ v.lost ∧
            Shows { v with lost := insert b v.lost } t)) := by
  obtain ⟨I, good, files⟩ := shows.holds
  have sane := good.accounted.sane
  obtain ⟨ops, typed⟩ := Option.isSome_iff_exists.mp typed
  have proper : type ≠ SFS_TYPE_INVAL := by
    rintro rfl
    cases typed
  rw [sfsMakeobj, ensures_bind]
  refine ensures_balloc sane (fun all => .inl ⟨rfl, rfl, all⟩) fun b free valid => ?_
  obtain ⟨system, unheld, unlost⟩ := good.accounted.notMem_of_free free valid
  have dead : I b = none := by
    cases live : I b with
    | none => rfl
    | some i => exact absurd (good.accounted.ino_mem live) unheld
  have absent : v.files b = none := by rw [files, dead, Option.map_none]
  -- the block is marked and cleared, and nobody's
  generalize state : ({ s.allocated b with started := s.started + 1 } : Volume) = s₁
  have alike : Alike (s.allocated b) s₁ := by
    subst state
    exact ⟨rfl, rfl, rfl, rfl, rfl, rfl, le_rfl, rfl, rfl⟩
  have disk : s₁.disk = update s.disk b Block.zero := alike.disk
  have zero : s₁.disk b = Block.zero := by rw [disk, update_self]
  have heap : s₁.heap = s.heap := alike.heap
  have good₁ : Backed I (insert b v.lost) v.refs v.opens s₁ :=
    (good.allocated free valid).congr alike
  have files₁ : ∀ ino, v.files ino = (I ino).map (·.node s₁.disk) := by
    intro ino
    rw [files]
    cases live : I ino with
    | none => rfl
    | some i =>
      refine congrArg some (node_congr fun c mem => ?_).symm
      rw [disk]
      refine update_of_ne ?_ ..
      rintro rfl
      exact unheld (Accounted.tree_mem live mem)
  have shows₁ : Shows { v with lost := insert b v.lost } s₁ := by
    refine ⟨⟨I, good₁, files₁⟩, ?_, ?_⟩
    · rw [heap]
      exact shows.vnode
    · subst state
      exact shows.memory
  have new : ∀ q sv', s₁.heap q = some sv' → sv'.ino ≠ b := by
    rintro q sv' found rfl
    exact absurd (dead.symm.trans (good₁.stored.loaded q sv' found)) nofun
  have marked : s₁.Marked b := (good₁.accounted.marked b (alike.super ▸ valid)).mpr
    (.inr (.inr (.inl rfl)))
  rw [sfsLoadvnode, ensures_bind, ensures_state, ensures_bind]
  apply shows₁.findVnode b s₁.vnodes
  · intro p mem
    rw [shows₁.vnode, Option.isSome_map]
    exact (good₁.tabled.table p).mp mem
  · intro p here
    obtain ⟨n, live⟩ := shows₁.live here
    exact absurd (absent.symm.trans live) nofun
  intro _
  obtain ⟨type_zero, links, size, indirect, direct⟩ := Inode.ofBlock_zero
  have inode : Inode.load type (s₁.disk b) = { ofBlock Block.zero with type := type } := by
    rw [Inode.load, if_neg proper, zero]
  have empty : ∀ disk r, { ofBlock Block.zero with type := type }.tree disk r = 0 :=
    fun disk => Inode.tree_blank direct indirect
  have free₁ : s₁.heap s₁.brk = none := good₁.tabled.fresh s₁.brk le_rfl
  have valid₁ : b < s₁.super.nblocks := alike.super ▸ valid
  refine ensures_readVnode (good₁.accounted.sane.sector valid₁) valid₁ marked
    (.inr (zero.symm ▸ type_zero)) (by rw [inode]; exact typed) ?_ ?_
    fun broken => absurd broken good₁.accounted.sane.unbroken
  · intro t alike' memory above
    rw [inode]
    have good' := good₁.congr alike'
    have nonzero : b ≠ 0 := by
      rintro rfl
      exact free sane.superblock
    have adopted := good'.accounted.adopt (Set.mem_insert b v.lost) nonzero (empty t.disk)
    rw [Set.insert_sdiff_self_of_notMem unlost] at adopted
    have after := (shows₁.congr alike' memory).add
      ⟨vnodeInit, ops, { ofBlock Block.zero with type := type }, b,
        decide (type ≠ SFS_TYPE_INVAL)⟩ good' (by rwa [alike'.disk]) adopted
      (by rw [alike'.heap, free₁]) above rfl typed (by rwa [alike'.heap])
      fun clean => absurd clean (by simp [proper])
    have blank : { ofBlock Block.zero with type := type }.node t.disk = Node.blank type := by
      simp only [Inode.node, Node.blank, links, size]
      congr 1
      funext k
      refine Tree.logical_unmapped ?_
      by_contra mapped
      obtain ⟨some, r, here⟩ := Tree.blockAt_mem mapped
      exact some (here.symm.trans (empty t.disk r))
    rw [blank] at after
    exact ⟨b, absent, shows₁.vnode_none free₁, after⟩
  · intro t alike' memory lacks
    exact .inr ⟨rfl, shows₁.memory ▸ lacks, b, free, valid, unlost, shows₁.congr alike' memory⟩

/-! ### Writing inodes back -/

/-- The inode is written if it is dirty. -/
def Volume.flushed (s : Volume) (p : Ptr) (sv : SfsVnode) : Volume :=
  if sv.dirty = true then
    { s.put p { sv with dirty := false } with
      started := s.started + 1
      disk := update s.disk sv.ino sv.inode.toBlock }
  else s

theorem Stands.syncInode (stands : Stands v s p ino sv) :
    (sfsSyncInode p).Ensures H s Q E ↔ Q () (s.flushed p sv) := by
  obtain rfl := stands.number
  rw [sfsSyncInode, ensures_bind, ensures_svAt stands.here, Volume.flushed]
  by_cases dirty : sv.dirty = true
  · rw [if_pos dirty, if_pos dirty, ensures_bind, ensures_wblock stands.sane stands.valid]
    rw [stands.here]
    exact ensures_alterSv stands.here
  · rw [if_neg dirty, if_neg dirty, ensures_pure]

theorem Shows.write_inode (shows : Shows v s) (stands : Stands v s p ino sv) :
    Shows v { s with disk := update s.disk ino sv.inode.toBlock } := by
  obtain ⟨⟨I, good, files⟩, vnode, memory⟩ := shows
  obtain rfl := stands.number
  have live := good.stored.loaded p sv stands.here
  refine ⟨⟨I, good.write_inode stands.here, fun ino => ?_⟩, vnode, memory⟩
  rw [files]
  cases live' : I ino with
  | none => rfl
  | some i =>
    refine congrArg some (node_congr fun b mem => ?_).symm
    exact update_of_ne (good.accounted.ne_ino live live' b mem) ..

theorem Shows.flushed (shows : Shows v s) (stands : Stands v s p ino sv) :
    Shows v (s.flushed p sv) := by
  rw [Volume.flushed]
  split
  next dirty =>
    have written := shows.write_inode stands
    have resident : v.vnode p = some ino := by
      rw [shows.vnode, stands.here, Option.map_some, stands.number]
    obtain ⟨sv', stands'⟩ := written.stands resident
    obtain rfl : sv' = sv := Option.some.inj (stands'.here.symm.trans stands.here)
    have after := written.put stands' { sv' with dirty := false } stands'.counts
      stands'.counted stands'.number stands'.ops rfl rfl fun _ => update_self ..
    rw [update_eq_self, update_eq_self] at after
    rw [← stands'.node, update_eq_self] at after
    obtain rfl := stands.number
    exact after.congr ⟨rfl, rfl, rfl, rfl, rfl, rfl, le_rfl, rfl, rfl⟩ rfl
  next => exact shows

theorem Stands.fsync (stands : Stands v s p ino sv) :
    (vopFsync p).Ensures H s Q E ↔ Q () (s.flushed p sv) := by
  rw [vopFsync, vop, ensures_bind, ensures_check stands.here stands.free
    stands.refcount_ne_zero, ensures_bind, ensures_svAt stands.here]
  cases sv.ops <;> exact stands.syncInode

section

variable (shows : Shows v s) (here : v.vnode p = some ino)

include shows here

theorem Shows.fsync : (vopFsync p).Ensures H s (fun _ t => Shows v t) E := by
  obtain ⟨sv, stands⟩ := shows.stands here
  rw [stands.fsync]
  exact shows.flushed stands

theorem Shows.close : (vopClose p).Ensures H s (fun _ t => Shows v t) E := by
  obtain ⟨sv, stands⟩ := shows.stands here
  rw [vopClose, vop, ensures_bind, shows.check here, ensures_bind,
    ensures_svAt stands.here]
  cases sv.ops <;> exact shows.fsync here

/-- `VOP_DECOPEN`: the last one closes the file, which writes its inode. -/
theorem Shows.decopen (opened : 0 < v.opens p) :
    (vnodeDecopen (vopClose p) p).Ensures H s
      (fun _ t => Shows { v with opens := update v.opens p (v.opens p - 1) } t) E := by
  obtain ⟨sv, stands⟩ := shows.stands here
  have opens : 0 < sv.opencount := by
    rw [stands.opencount]
    exact opened
  have after := shows.recount stands (a := v.refs p) (c := v.opens p - 1) stands.counted
  rw [update_eq_self] at after
  have counts : ({ sv with opencount := sv.opencount - 1 } : SfsVnode) =
      { sv with toVnode := ⟨v.refs p, v.opens p - 1, false⟩ } := by
    rw [stands.opencount, ← stands.refcount, ← stands.free]
  rw [ensures_decopen stands.here stands.free opens stands.refcount_ne_zero]
  split
  next last =>
    have zero : ({ sv with opencount := 0 } : SfsVnode) =
        { sv with toVnode := ⟨v.refs p, v.opens p - 1, false⟩ } := by
      rw [← counts, last]
    rw [zero]
    exact after.close here
  next =>
    rw [counts]
    exact after

end

theorem Volume.heap_flushed (here : s.heap p = some sv) :
    (s.flushed p sv).heap p = some { sv with dirty := false } := by
  rw [flushed]
  split
  next => exact heap_put
  next clean =>
    rw [here, ← Bool.eq_false_iff.mpr clean]

/-! ### Work on a file -/

theorem Shows.work {α : Type} {c : Code Volume α} {Q : α → Volume → Prop}
    {E : Errno → Volume → Prop}
    {Q₁ : α → Share → Volume → Prop} {E₁ : Errno → Share → Volume → Prop} (shows : Shows v s)
    (stands : Stands v s p ino sv) (node : v.files ino = some n)
    (call : FileHas p n.size n.contents (sv.share s) s →
      c.Secures (sharing p H) (sv.share s) s Q₁ E₁)
    (returned : ∀ a after t, Q₁ a after t →
      (∀ size contents, FileHas p size contents after t →
        Shows (v.setFile ino { n with size := size, contents := contents }) t) → Q a t)
    (failed : ∀ e after t, E₁ e after t →
      (∀ size contents, FileHas p size contents after t →
        Shows (v.setFile ino { n with size := size, contents := contents }) t) → E e t) :
    c.Ensures H s Q E := by
  obtain rfl := stands.number
  cases stands.node.symm.trans node
  -- the vnodes and the memory are those that there were
  have rest : ∀ after t, Keeps p (sv.share s) after s t →
      (∀ q, v.vnode q = (t.heap q).map (·.ino)) ∧ t.memory = v.memory := by
    intro after t keeps
    refine ⟨fun q => ?_, keeps.memory.1.trans shows.memory⟩
    by_cases same : q = p
    · subst same
      obtain ⟨sv', found, grown⟩ := keeps.grown sv stands.here
      have found : t.heap q = some sv' := found
      rw [shows.vnode, stands.here, found, Option.map_some, Option.map_some, grown.ino]
    · rw [keeps.heap q same]
      exact shows.vnode q
  refine shows.holds.work stands.here call (fun a after t keeps done holds => ?_)
    fun e after t keeps done holds => ?_
  · obtain ⟨vnode, memory⟩ := rest after t keeps
    exact returned a after t done fun size contents has => ⟨holds size contents has, vnode, memory⟩
  · obtain ⟨vnode, memory⟩ := rest after t keeps
    exact failed e after t done fun size contents has => ⟨holds size contents has, vnode, memory⟩

/-- `sfs_truncate` through its vnode, for a file. -/
theorem Shows.vopTruncate {Q : Unit → Volume → Prop} (shows : Shows v s)
    (here : v.vnode p = some ino)
    (node : v.files ino = some n) (type : n.type = SFS_TYPE_FILE) (len : CInt)
    (next : ∀ t sv, Stands (v.setFile ino { n with
          size := len, contents := truncated (blocklen len) n.contents }) t p ino sv →
      Shows (v.setFile ino { n with
        size := len, contents := truncated (blocklen len) n.contents }) t →
      (blocklen len = 0 → held (sv.inode.tree t.disk) = ∅) → Q () t) :
    (vopTruncate p len).Ensures H s Q E := by
  obtain ⟨sv, stands⟩ := shows.stands here
  rw [Sfs.vopTruncate, shows.vop_file here node type]
  have call (has : FileHas p n.size n.contents (sv.share s) s) :
      (sfsTruncate p len).Secures (sharing p H) (sv.share s) s
        (fun _ after t => FileHas p len (truncated (blocklen len) n.contents) after t ∧
          (blocklen len = 0 → after = ∅)) (fun _ _ _ => False) :=
    has.truncate len fun after t has' empty _ => ⟨has', empty⟩
  refine shows.work stands node call ?_ fun _ _ _ => False.elim
  rintro _ after t ⟨has, empty⟩ result
  have shows' := result _ _ has
  obtain ⟨sv', stands'⟩ := shows'.stands here
  refine next t sv' stands' shows' fun zero => ?_
  obtain ⟨_, mapped, -, -⟩ := has
  cases mapped.here.symm.trans stands'.here
  rw [← mapped.blocks]
  exact empty zero

/-! ### Giving back a reference -/

private theorem ensures_freeVnode (here : s.heap p = some sv) (listed : p ∈ s.vnodes)
    (count : sv.refcount = 1) (closed : sv.opencount = 0) :
    (freeVnode p).Ensures H s Q E ↔ Q () (s.forget p) := by
  have here' : ({ s with vnodes := s.vnodes.erase p } : Volume).heap p = some sv := here
  rw [freeVnode, ensures_bind, ensures_state, ensures_bind, ensures_held listed, ensures_bind,
    ensures_modify, vnodeKill, ensures_bind, ensures_bind, ensures_fetch here',
    ensures_bind, ensures_held count, ensures_bind, ensures_held closed, ensures_alter here']
  simp [Volume.put, Volume.forget]

/-- Nobody else holds the vnode. If the file is not linked, its blocks are gone already. -/
theorem Shows.reclaimRest (shows : Shows v s) (stands : Stands v s p ino sv)
    (count : v.refs p = 1) (closed : v.opens p = 0)
    (empty : sv.inode.linkcount = 0 → held (sv.inode.tree s.disk) = ∅) :
    (reclaimRest p).Ensures H s (fun _ t => Shows (v.drop p ino) t) E := by
  obtain rfl := stands.number
  have here : v.vnode p = some sv.ino := by rw [shows.vnode, stands.here, Option.map_some]
  rw [Sfs.reclaimRest, ensures_bind, stands.syncInode]
  have shows₁ := shows.flushed stands
  have heap₁ := Volume.heap_flushed stands.here
  obtain ⟨sv₁, stands₁⟩ := shows₁.stands here
  generalize s.flushed p sv = s₁ at shows₁ stands₁ heap₁
  have links : unlinked v.files sv.ino = decide (sv.inode.linkcount = 0) := by
    rw [unlinked, stands.node]
    rfl
  obtain ⟨⟨I, good, files⟩, vnode, memory⟩ := shows₁
  have listed : p ∈ s₁.vnodes := (good.tabled.table p).mpr (by rw [heap₁]; rfl)
  have counted : sv.refcount = 1 := stands.refcount.trans count
  have unopened : sv.opencount = 0 := stands.opencount.trans closed
  have vnode' : ∀ q, (v.drop p sv.ino).vnode q =
      ((s₁.forget p).heap q).map (·.ino) := by
    intro q
    rw [View.drop, if_pos count]
    by_cases same : q = p
    · subst same
      simp [Volume.forget]
    · simp only [Volume.forget, update_of_ne same]
      exact vnode q
  rw [ensures_bind, ensures_svAt heap₁]
  by_cases zero : sv.inode.linkcount = 0
  · -- the block of the inode goes, too
    rw [if_pos zero, ensures_bind,
      ensures_bfree stands₁.sane stands₁.valid stands₁.marked,
      ensures_freeVnode (s := s₁.unmark sv.ino) heap₁ listed counted unopened]
    have blank : ∀ r, sv.inode.tree s₁.disk r = 0 := by
      have none : ∀ r, sv.inode.tree s.disk r = 0 := by
        intro r
        by_contra some
        have mem := mem_held some
        rw [empty zero] at mem
        exact mem
      exact Inode.tree_blank (fun k => none (.direct k)) (none .indirect)
    refine ⟨⟨update I sv.ino none, ?_, fun ino => ?_⟩, vnode', ?_⟩
    · have after := good.release heap₁ blank closed
      rw [View.drop, if_pos count]
      exact after
    · rw [View.drop, if_pos count]
      simp only [links, zero, decide_true, if_true]
      by_cases same : ino = sv.ino
      · subst same
        rw [update_self, update_self]
        rfl
      · rw [update_of_ne same, update_of_ne same]
        exact files ino
    · rw [View.drop, if_pos count]
      exact memory
  rw [if_neg zero, ensures_freeVnode heap₁ listed counted unopened]
  refine ⟨⟨I, ?_, fun ino => ?_⟩, vnode', ?_⟩
  · have after := good.forget heap₁ rfl zero closed
    rw [View.drop, if_pos count]
    exact after
  · rw [View.drop, if_pos count]
    simp only [links, zero, decide_false, Bool.false_eq_true, if_false]
    exact files ino
  · rw [View.drop, if_pos count]
    exact memory

theorem Shows.reclaimUnused (shows : Shows v s) (here : v.vnode p = some ino)
    (count : v.refs p = 1) (closed : v.opens p = 0)
    (plain : ∀ n, v.files ino = some n → n.linkcount = 0 → n.type = SFS_TYPE_FILE) :
    (reclaimUnused p).Ensures H s (fun _ t => Shows (v.drop p ino) t) E := by
  obtain ⟨sv, stands⟩ := shows.stands here
  rw [Sfs.reclaimUnused, ensures_bind, ensures_svAt stands.here]
  by_cases zero : sv.inode.linkcount = 0
  · have links : unlinked v.files ino = true := by
      rw [unlinked, stands.node]
      exact decide_eq_true zero
    rw [if_pos zero, ensures_bind]
    refine shows.vopTruncate here stands.node (plain _ stands.node zero) 0 ?_
    intro t sv' stands' shows' empty
    have after := shows'.reclaimRest (H := H) (E := E) stands' count closed fun _ =>
      empty (by decide)
    have same : (v.setFile ino { sv.inode.node s.disk with
        size := 0, contents := truncated (blocklen 0) (sv.inode.node s.disk).contents }).drop
          p ino =
        v.drop p ino := by
      have links' : ∀ size contents, unlinked (update v.files ino
          (some ⟨sv.inode.type, sv.inode.linkcount, size, contents⟩)) ino = true := by
        intro size contents
        rw [unlinked, update_self]
        exact decide_eq_true zero
      simp [View.drop, View.setFile, Inode.node, links, links', count]
    rw [same] at after
    exact after
  · rw [if_neg zero]
    exact shows.reclaimRest stands count closed fun none => absurd none zero

theorem Shows.decref (shows : Shows v s) (here : v.vnode p = some ino)
    (closed : v.refs p = 1 → v.opens p = 0)
    (plain : ∀ n, v.files ino = some n → n.linkcount = 0 → n.type = SFS_TYPE_FILE) :
    (sfsDecref p).Ensures H s (fun _ t => Shows (v.drop p ino) t) E := by
  obtain ⟨sv, stands⟩ := shows.stands here
  rw [sfsDecref]
  by_cases count : v.refs p = 1
  · rw [ensures_decref_last stands.here stands.free (stands.refcount.trans count), sfsReclaim,
      ensures_bind, ensures_lockAcquire stands.here stands.free, ensures_bind,
      ensures_fetch Volume.heap_put]
    have one : ¬ sv.refcount ≠ 1 := not_not.mpr (stands.refcount.trans count)
    have alike : Alike s { s with reclaiming := p :: s.reclaiming } :=
      ⟨rfl, rfl, rfl, rfl, rfl, rfl, le_rfl, rfl, rfl⟩
    generalize noted : ({ s with reclaiming := p :: s.reclaiming } : Volume) = s₁ at alike
    have state : ({ s.put p { sv with locked := true } with
        reclaiming := p :: (s.put p { sv with locked := true }).reclaiming } : Volume) =
        s₁.put p { sv with locked := true } := by
      subst noted
      rfl
    have here₁ : s₁.heap p = some sv := alike.heap ▸ stands.here
    have back : (s₁.put p { sv with locked := true }).put p { sv with locked := false } = s₁ := by
      rw [Volume.put_put, ← stands.free]
      exact Volume.put_self here₁
    have shows₁ : Shows v s₁ := by
      refine shows.congr alike ?_
      subst noted
      rfl
    rw [if_neg one, ensures_bind, ensures_modify, state, ensures_bind,
      ensures_lockRelease Volume.heap_put rfl, back, ensures_bind, Call.ensures_attempt]
    refine (shows₁.reclaimUnused here count (closed count) plain).mono (fun _ t after => ?_)
      fun _ _ => False.elim
    exact after.congr ⟨rfl, rfl, rfl, rfl, rfl, rfl, le_rfl, rfl, rfl⟩ rfl
  have more : 1 < sv.refcount := by
    have positive := stands.counted
    rw [stands.refcount]
    omega
  rw [ensures_decref_more stands.here stands.free more]
  have after := shows.recount stands (a := v.refs p - 1) (c := v.opens p) (by
    rw [← stands.refcount]
    omega)
  rw [update_eq_self] at after
  have counts : ({ sv with refcount := sv.refcount - 1 } : SfsVnode) =
      { sv with toVnode := ⟨v.refs p - 1, v.opens p, false⟩ } := by
    rw [stands.refcount, ← stands.opencount, ← stands.free]
  rw [View.drop, if_neg count, counts]
  exact after

theorem Shows.getroot (shows : Shows v s) (live : v.files SFS_ROOT_LOCATION = some n)
    (typed : (opsOf n.type).isSome)
    (panics : (∃ k, v.memory k = false) → H .cannotLoadRoot) :
    sfsGetroot.Ensures H s
      (fun p t => Shows (v.take p SFS_ROOT_LOCATION) t ∧
        (v.vnode p = none ∨ v.vnode p = some SFS_ROOT_LOCATION)) E := by
  rw [sfsGetroot, ensures_bind, Call.ensures_attempt]
  refine (shows.load live typed).mono (fun p t after => ?_) fun e t failed => ?_
  · exact after
  · exact panics failed.2.2

end

end Os161.Sfs
