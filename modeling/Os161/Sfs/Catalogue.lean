import Mathlib.Data.List.GetD
import Mathlib.Data.List.TakeWhile
import Os161.Sfs.Entries

/-!
# The directory as a map

The slots of the root directory that are in use give a map from names to inodes. `Listed` says
that each name is there once and each entry is that of a file, `Linked` that the link counts are
the numbers of the slots.
-/
namespace Os161.Sfs

open Foundation
open Function (update update_eq_self update_idem update_of_ne update_self)

/-! ### Names in entries -/

theorem cstring_eq {n : Nat} {b : Fin n → Byte} {l : List Byte} (short : l.length < n)
    (bytes : ∀ i : Fin n, b i = l.getD i 0) (clean : 0 ∉ l) : cstring b = l := by
  -- the array is the string with zeros behind it
  have array : List.ofFn b = l ++ List.replicate (n - l.length) 0 := by
    apply List.ext_getElem
    · simp
      omega
    intro i low high
    rw [List.getElem_ofFn, bytes, List.getElem_append]
    split
    next inside => exact List.getD_eq_getElem l 0 inside
    next behind =>
      rw [List.getElem_replicate]
      exact List.getD_eq_default l 0 (Nat.not_lt.mp behind)
  have zeros : (List.replicate (n - l.length) (0 : Byte)).takeWhile (· ≠ 0) = [] := by
    cases n - l.length <;> simp [List.replicate_succ]
  rw [cstring, array, List.takeWhile_append_of_pos, zeros, List.append_nil]
  intro c mem
  simp only [ne_eq, decide_not, Bool.not_eq_true', decide_eq_false_iff_not]
  rintro rfl
  exact clean mem

theorem zero_notMem_cstring {n : Nat} (b : Fin n → Byte) : 0 ∉ cstring b := by
  intro mem
  have kept := List.mem_takeWhile_imp mem
  simp at kept

theorem Entry.string_strcpy {name : Name} (ino : CUnsigned) (short : name.val.length < 60) :
    Entry.string ⟨ino, strcpy 60 name.val⟩ = name.val := by
  refine cstring_eq short (fun i => ?_) name.property
  by_cases last : i = 59
  · subst last
    rw [update_self, List.getD_eq_default]
    exact Nat.le_of_lt_succ short
  · rw [update_of_ne last]
    rfl

theorem Entry.length_string (e : Entry) : e.string.length < 60 := by
  -- the last byte is 0 in any case
  have last : (update e.name 59 0) 59 = 0 := update_self ..
  rw [Entry.string]
  generalize update e.name 59 0 = b at last
  by_contra long
  have whole : (List.ofFn b).length = 60 := List.length_ofFn
  have all : cstring b = List.ofFn b := by
    refine List.IsPrefix.eq_of_length (List.takeWhile_prefix _) ?_
    have bound : (cstring b).length ≤ (List.ofFn b).length :=
      (List.takeWhile_prefix _).length_le
    omega
  refine zero_notMem_cstring b ?_
  rw [all, List.mem_ofFn]
  exact ⟨59, last⟩

namespace Node

/-- Slot `k` has the name, for inode `ino`. -/
structure Names (n : Node) (k : Nat) (name : List Byte) (ino : CUnsigned) : Prop where
  inside : k < n.slots
  number : (n.entry k).ino = ino
  used : ino ≠ 0
  name : (n.entry k).string = name

instance (n : Node) (k : Nat) (name : List Byte) (ino : CUnsigned) :
    Decidable (n.Names k name ino) :=
  decidable_of_iff (k < n.slots ∧ (n.entry k).ino = ino ∧ ino ≠ 0 ∧ (n.entry k).string = name)
    ⟨fun ⟨a, b, c, d⟩ => ⟨a, b, c, d⟩, fun ⟨a, b, c, d⟩ => ⟨a, b, c, d⟩⟩

def lookup (n : Node) (name : List Byte) : Option CUnsigned :=
  ((List.range n.slots).find? fun k => n.Names k name (n.entry k).ino).map fun k => (n.entry k).ino

/-- How many slots are for an inode. -/
def links (n : Node) (ino : CUnsigned) : Nat :=
  ((Finset.range n.slots).filter fun k => (n.entry k).ino = ino).card

theorem links_le (n : Node) (ino : CUnsigned) : n.links ino ≤ n.slots := by
  have bound := Finset.card_filter_le (Finset.range n.slots) fun k => (n.entry k).ino = ino
  rwa [Finset.card_range] at bound

theorem links_pos {n : Node} {ino : CUnsigned} :
    0 < n.links ino ↔ ∃ k < n.slots, (n.entry k).ino = ino := by
  simp [links, Finset.card_pos, Finset.Nonempty]

end Node

/-- The names are there once, and their files are. -/
structure Listed (A : Files) (n : Node) : Prop where
  root : A SFS_ROOT_LOCATION = some n
  type : n.type = SFS_TYPE_DIR
  whole : n.size.toNat % 64 = 0
  fits : n.size.toNat ≤ 143 * 512
  unique : ∀ k k' name ino ino', n.Names k name ino → n.Names k' name ino' → k = k'
  live : ∀ k < n.slots, (n.entry k).ino ≠ 0 → (A (n.entry k).ino).isSome
  files : ∀ ino m, A ino = some m → ino ≠ SFS_ROOT_LOCATION → m.type = SFS_TYPE_FILE
  zero : A 0 = none

/-- The link counts, up to `owed`: an operation changes the directory first. -/
def Linked (A : Files) (n : Node) (owed : CUnsigned → Int) : Prop :=
  ∀ ino m, A ino = some m → (m.linkcount.toNat : Int) + owed ino =
    n.links ino + if ino = SFS_ROOT_LOCATION then 1 else 0

/-- Files and directory, with the link counts as they should be. -/
structure Indexed (A : Files) (n : Node) : Prop where
  listed : Listed A n
  linked : Linked A n fun _ => 0

/-- The files of a volume between operations. -/
def Sound (A : Files) : Prop := ∃ n, Indexed A n

def directory (A : Files) (name : Name) : Option CUnsigned :=
  (A SFS_ROOT_LOCATION).bind (·.lookup name.val)

section

variable {A A' : Files} {n n' m : Node} {slot : Nat} {sd : Entry} {name : List Byte}
  {ino : CUnsigned} {owed : CUnsigned → Int}

namespace Listed

variable (listed : Listed A n)

include listed

theorem slots_le : n.slots ≤ 1144 := by
  have fits := listed.fits
  unfold Node.slots
  omega

theorem lookup_eq_some : n.lookup name = some ino ↔ ∃ k, n.Names k name ino := by
  rw [Node.lookup, Option.map_eq_some_iff]
  constructor
  · rintro ⟨k, found, rfl⟩
    exact ⟨k, by simpa using List.find?_some found⟩
  rintro ⟨k, named⟩
  have some : ((List.range n.slots).find? fun k => n.Names k name (n.entry k).ino).isSome := by
    rw [List.find?_isSome]
    refine ⟨k, List.mem_range.mpr named.inside, ?_⟩
    obtain rfl := named.number
    simpa using named
  obtain ⟨k', found⟩ := Option.isSome_iff_exists.mp some
  have named' : n.Names k' name (n.entry k').ino := by simpa using List.find?_some found
  have same : k' = k := listed.unique _ _ _ _ _ named' named
  subst same
  exact ⟨k', found, named.number⟩

theorem lookup_eq_none : n.lookup name = none ↔ ∀ k ino, ¬ n.Names k name ino := by
  rw [Option.eq_none_iff_forall_ne_some]
  constructor
  · intro none k ino named
    exact none ino (listed.lookup_eq_some.mpr ⟨k, named⟩)
  · intro none ino found
    obtain ⟨k, named⟩ := listed.lookup_eq_some.mp found
    exact none k ino named

theorem directory_eq (name : Name) : directory A name = n.lookup name.val := by
  rw [directory, listed.root]
  rfl

theorem live_of_lookup (found : n.lookup name = some ino) : ∃ m, A ino = some m := by
  obtain ⟨k, named⟩ := listed.lookup_eq_some.mp found
  obtain rfl := named.number
  exact Option.isSome_iff_exists.mp (listed.live k named.inside named.used)

theorem typed (live : A ino = some m) : (opsOf m.type).isSome := by
  by_cases root : ino = SFS_ROOT_LOCATION
  · subst root
    cases listed.root.symm.trans live
    rw [listed.type]
    rfl
  · rw [listed.files ino m live root]
    rfl

end Listed

/-! ### An entry changes -/

namespace Node.Put

variable (put : n.Put slot sd n') (whole : n.size.toNat % 64 = 0) (inside : slot ≤ n.slots)

include put whole inside

theorem slots : n'.slots = max n.slots (slot + 1) := by
  have size := put.size
  unfold Node.slots at *
  omega

omit inside in
theorem whole' : n'.size.toNat % 64 = 0 := by
  have size := put.size
  omega

/-- What the slots hold now. -/
theorem names_iff {k : Nat} {name : List Byte} {ino : CUnsigned} :
    n'.Names k name ino ↔ (k = slot ∧ sd.ino = ino ∧ ino ≠ 0 ∧ sd.string = name) ∨
      (k ≠ slot ∧ n.Names k name ino) := by
  have slots := put.slots whole inside
  by_cases same : k = slot
  · subst same
    have entry : n'.entry k = sd := by rw [put.entry, if_pos rfl]
    constructor
    · rintro ⟨-, number, used, named⟩
      rw [entry] at number named
      exact .inl ⟨rfl, number, used, named⟩
    · rintro (⟨-, number, used, named⟩ | ⟨other, -⟩)
      · exact ⟨by omega, entry ▸ number, used, entry ▸ named⟩
      · exact absurd rfl other
  have entry : n'.entry k = n.entry k := by rw [put.entry, if_neg same]
  constructor
  · rintro ⟨low, number, used, named⟩
    exact .inr ⟨same, by omega, entry ▸ number, used, entry ▸ named⟩
  · rintro (⟨here, -⟩ | ⟨-, low, number, used, named⟩)
    · exact absurd here same
    · exact ⟨by omega, entry.symm ▸ number, used, entry.symm ▸ named⟩

private theorem links (ino : CUnsigned) :
    n'.links ino + (if slot < n.slots ∧ (n.entry slot).ino = ino then 1 else 0) =
      n.links ino + if sd.ino = ino then 1 else 0 := by
  have slots := put.slots whole inside
  have others : ((Finset.range n'.slots).filter fun k => (n'.entry k).ino = ino).erase slot =
      ((Finset.range n.slots).filter fun k => (n.entry k).ino = ino).erase slot := by
    ext k
    simp only [Finset.mem_erase, Finset.mem_filter, Finset.mem_range, put.entry, slots]
    refine and_congr_right fun other => ?_
    rw [if_neg other]
    constructor <;> rintro ⟨low, number⟩ <;> exact ⟨by omega, number⟩
  have count (l : Finset Nat) : (l.erase slot).card + (if slot ∈ l then 1 else 0) = l.card := by
    split
    next here => exact Finset.card_erase_add_one here
    next absent => rw [Finset.erase_eq_of_notMem absent, Nat.add_zero]
  have before := count ((Finset.range n.slots).filter fun k => (n.entry k).ino = ino)
  have after := count ((Finset.range n'.slots).filter fun k => (n'.entry k).ino = ino)
  have low : slot < n'.slots := by omega
  rw [Node.links, Node.links, ← before, ← after, others]
  simp only [Finset.mem_filter, Finset.mem_range, put.entry, if_true, low, true_and]
  exact Nat.add_right_comm ..

end Node.Put

/-! ### The operations on the map -/

/-- An entry may change where it was empty or had the name that it gets, and no other entry has
it. -/
theorem Listed.put (listed : Listed A n) (put : n.Put slot sd n') (inside : slot ≤ n.slots)
    (fits : n'.size.toNat ≤ 143 * 512) (alone : ∀ k ino, n.Names k name ino → k = slot)
    (own : ∀ name' ino, n.Names slot name' ino → name' = name)
    (string : sd.ino ≠ 0 → sd.string = name) (live : sd.ino ≠ 0 → (A sd.ino).isSome) :
    Listed (update A SFS_ROOT_LOCATION (some n')) n' ∧
      n'.lookup = update n.lookup name (if sd.ino = 0 then none else some sd.ino) := by
  have names : ∀ k name' ino', n'.Names k name' ino' ↔
      (k = slot ∧ sd.ino = ino' ∧ ino' ≠ 0 ∧ sd.string = name') ∨
        (k ≠ slot ∧ n.Names k name' ino') := fun _ _ _ => put.names_iff listed.whole inside
  have listed' : Listed (update A SFS_ROOT_LOCATION (some n')) n' := {
    root := update_self ..
    type := put.type.trans listed.type
    whole := put.whole' listed.whole
    fits := fits
    unique := by
      intro k k' name' ino₁ ino₂ first second
      rw [names] at first second
      rcases first with ⟨rfl, rfl, used, rfl⟩ | ⟨other, first⟩ <;>
        rcases second with ⟨rfl, rfl, used', same⟩ | ⟨other', second⟩
      · rfl
      · exact absurd (alone _ _ (string used ▸ second)) other'
      · exact absurd (alone _ _ ((same.symm.trans (string used')) ▸ first)) other
      · exact listed.unique _ _ _ _ _ first second
    live := by
      intro k low some
      have target : (A (n'.entry k).ino).isSome := by
        rw [put.entry] at some ⊢
        split at some
        next same =>
          rw [if_pos same]
          exact live some
        next other =>
          have slots := put.slots listed.whole inside
          rw [if_neg other]
          exact listed.live k (by omega) some
      by_cases root : (n'.entry k).ino = SFS_ROOT_LOCATION
      · rw [root]
        rfl
      · rw [update_of_ne root]
        exact target
    files := by
      intro ino' m' live' other
      rw [update_of_ne other] at live'
      exact listed.files ino' m' live' other
    zero := listed.zero }
  refine ⟨listed', funext fun name' => Option.ext fun ino' => ?_⟩
  rw [listed'.lookup_eq_some]
  simp only [names]
  by_cases same : name' = name
  · subst same
    rw [update_self, Option.ite_none_left_eq_some]
    constructor
    · rintro ⟨k, ⟨-, rfl, used, -⟩ | ⟨other, named⟩⟩
      · exact ⟨used, rfl⟩
      · exact absurd (alone _ _ named) other
    · rintro ⟨used, number⟩
      cases number
      exact ⟨slot, .inl ⟨rfl, rfl, used, string used⟩⟩
  rw [update_of_ne same, listed.lookup_eq_some]
  constructor
  · rintro ⟨k, ⟨-, rfl, used, here⟩ | ⟨-, named⟩⟩
    · exact absurd (here.symm.trans (string used)) same
    · exact ⟨k, named⟩
  rintro ⟨k, named⟩
  refine ⟨k, .inr ⟨?_, named⟩⟩
  rintro rfl
  exact same (own _ _ named)

/-! ### Link counts -/

/-- The counts after an entry has changed. -/
theorem Linked.put (linked : Linked A n fun _ => 0) (listed : Listed A n) (put : n.Put slot sd n')
    (inside : slot ≤ n.slots) (links : ∀ ino, ino ≠ 0 → owed ino =
      (if sd.ino = ino then 1 else 0) -
        if slot < n.slots ∧ (n.entry slot).ino = ino then 1 else 0) :
    Linked (update A SFS_ROOT_LOCATION (some n')) n' owed := by
  intro ino m live
  have used : ino ≠ 0 := by
    rintro rfl
    exact absurd (listed.zero.symm.trans live) nofun
  -- the root itself has the count that it had
  obtain ⟨m₀, live₀, same⟩ : ∃ m₀, A ino = some m₀ ∧ m.linkcount = m₀.linkcount := by
    by_cases root : ino = SFS_ROOT_LOCATION
    · subst root
      cases live
      exact ⟨n, listed.root, put.linkcount⟩
    · rw [update_of_ne root] at live
      exact ⟨m, live, rfl⟩
  have before : (m₀.linkcount.toNat : Int) + 0 = _ := linked ino m₀ live₀
  have now := congrArg (Nat.cast (R := Int)) (put.links listed.whole inside ino)
  push_cast at now
  rw [same, links ino used]
  omega

/-- No link count comes near to its limit. -/
theorem Linked.bound (linked : Linked A n owed) (listed : Listed A n) (live : A ino = some m) :
    (m.linkcount.toNat : Int) + owed ino ≤ 1145 := by
  have count := linked ino m live
  have few := (n.links_le ino).trans listed.slots_le
  split at count <;> omega

/-- The root when the link count of an inode changes. -/
def Node.relinked (n : Node) (ino : CUnsigned) (l : BitVec 16) : Node :=
  if ino = SFS_ROOT_LOCATION then { n with linkcount := l } else n

theorem Node.relinked_same (n : Node) (ino : CUnsigned) (l : BitVec 16) :
    (n.relinked ino l).size = n.size ∧ (n.relinked ino l).contents = n.contents ∧
      (n.relinked ino l).type = n.type := by
  rw [relinked]
  split <;> exact ⟨rfl, rfl, rfl⟩

theorem Node.slots_entry (size : n'.size = n.size) (contents : n'.contents = n.contents) :
    n'.slots = n.slots ∧ n'.entry = n.entry := by
  refine ⟨by rw [slots, size, slots], ?_⟩
  funext k
  rw [entry, contents, entry]

theorem Node.names_congr (size : n'.size = n.size) (contents : n'.contents = n.contents)
    (k : Nat) (name : List Byte) (ino : CUnsigned) :
    n'.Names k name ino ↔ n.Names k name ino := by
  obtain ⟨slots, entry⟩ := slots_entry size contents
  constructor <;> rintro ⟨low, number, used, named⟩
  · exact ⟨slots ▸ low, entry ▸ number, used, entry ▸ named⟩
  · exact ⟨slots.symm ▸ low, entry.symm ▸ number, used, entry.symm ▸ named⟩

/-- Two directories with the same entries. -/
theorem Listed.congr (listed : Listed A n) (size : n'.size = n.size)
    (contents : n'.contents = n.contents) (type : n'.type = n.type)
    (root : A' SFS_ROOT_LOCATION = some n') (zero : A' 0 = none)
    (live : ∀ k < n.slots, (n.entry k).ino ≠ 0 → (A' (n.entry k).ino).isSome)
    (files : ∀ ino m, A' ino = some m → ino ≠ SFS_ROOT_LOCATION → m.type = SFS_TYPE_FILE) :
    Listed A' n' ∧ n'.lookup = n.lookup ∧ n'.links = n.links := by
  obtain ⟨slots, entry⟩ := Node.slots_entry size contents
  have names := Node.names_congr size contents
  refine ⟨?_, ?_, ?_⟩
  · exact {
      root := root
      type := type.trans listed.type
      whole := size ▸ listed.whole
      fits := size ▸ listed.fits
      unique := fun k k' name ino ino' first second =>
        listed.unique k k' name ino ino' ((names ..).mp first) ((names ..).mp second)
      live := by
        rw [slots, entry]
        exact live
      files := files
      zero := zero }
  · funext name
    simp [Node.lookup, slots, entry, names]
  · funext ino
    rw [Node.links, slots, entry, Node.links]

theorem Listed.relink {d : Int} (listed : Listed A n)
    (linked : Linked A n (update (fun _ => 0) ino d)) (live : A ino = some m) {l : BitVec 16}
    (count : (l.toNat : Int) = m.linkcount.toNat + d) :
    Indexed (update A ino (some { m with linkcount := l })) (n.relinked ino l) ∧
      (n.relinked ino l).lookup = n.lookup := by
  obtain ⟨size, contents, type⟩ := n.relinked_same ino l
  have same : Listed (update A ino (some { m with linkcount := l })) (n.relinked ino l) ∧
      (n.relinked ino l).lookup = n.lookup ∧ (n.relinked ino l).links = n.links := by
    refine listed.congr size contents type ?_ ?_ ?_ ?_
    · by_cases root : ino = SFS_ROOT_LOCATION
      · subst root
        cases listed.root.symm.trans live
        rw [update_self, Node.relinked, if_pos rfl]
      · rw [update_of_ne (Ne.symm root), Node.relinked, if_neg root]
        exact listed.root
    · have other : (0 : CUnsigned) ≠ ino := by
        rintro rfl
        exact absurd (listed.zero.symm.trans live) nofun
      rw [update_of_ne other]
      exact listed.zero
    · intro k low used
      by_cases here : (n.entry k).ino = ino
      · rw [here, update_self]
        rfl
      · rw [update_of_ne here]
        exact listed.live k low used
    intro ino' m' live' other
    by_cases here : ino' = ino
    · subst here
      rw [update_self] at live'
      cases live'
      exact listed.files ino' m live other
    · rw [update_of_ne here] at live'
      exact listed.files ino' m' live' other
  obtain ⟨listed', lookup, links⟩ := same
  refine ⟨⟨listed', fun ino' m' live' => ?_⟩, lookup⟩
  rw [links]
  by_cases here : ino' = ino
  · subst here
    have before := linked ino' m live
    rw [update_self] at live' before
    cases live'
    simp only
    omega
  · have before := linked ino' m'
    rw [update_of_ne here] at live' before
    exact before live'

theorem directory_update {name : Name} {new : Option CUnsigned} (listed : Listed A n)
    (listed' : Listed A' n') (lookup : n'.lookup = update n.lookup name.val new) :
    directory A' = update (directory A) name new := by
  funext name'
  rw [listed'.directory_eq, lookup]
  by_cases same : name' = name
  · subst same
    rw [update_self, update_self]
  · rw [update_of_ne same, update_of_ne fun one => same (Subtype.ext one)]
    exact (listed.directory_eq name').symm

/-- An entry is made, and the link count of its file goes up. -/
theorem Indexed.link (indexed : Indexed A n) {name : Name}
    (put : n.Put slot ⟨ino, strcpy 60 name.val⟩ n')
    (inside : slot ≤ n.slots) (free : slot < n.slots → (n.entry slot).ino = 0)
    (fits : n'.size.toNat ≤ 143 * 512) (short : name.val.length < 60)
    (new : n.lookup name.val = none)
    (live : update A SFS_ROOT_LOCATION (some n') ino = some m) :
    Indexed (update (update A SFS_ROOT_LOCATION (some n')) ino
        (some { m with linkcount := m.linkcount + 1 })) (n'.relinked ino (m.linkcount + 1)) ∧
      (n'.relinked ino (m.linkcount + 1)).lookup =
        update n.lookup name.val (some ino) := by
  obtain ⟨listed, linked⟩ := indexed
  obtain ⟨m₀, live₀⟩ : ∃ m₀, A ino = some m₀ := by
    by_cases root : ino = SFS_ROOT_LOCATION
    · exact ⟨n, root ▸ listed.root⟩
    · rw [update_of_ne root] at live
      exact ⟨m, live⟩
  have used : ino ≠ 0 := by
    rintro rfl
    exact absurd (listed.zero.symm.trans live₀) nofun
  rw [listed.lookup_eq_none] at new
  obtain ⟨listed', lookup⟩ := listed.put put inside fits
    (fun k ino named => absurd named (new k ino))
    (fun _ _ named => absurd (named.number.symm.trans (free named.inside)) named.used)
    (fun _ => Entry.string_strcpy ino short) fun _ => Option.isSome_iff_exists.mpr ⟨m₀, live₀⟩
  have linked' : Linked (update A SFS_ROOT_LOCATION (some n')) n' (update (fun _ => 0) ino 1) := by
    refine linked.put listed put inside fun ino' some => ?_
    have empty : ¬ (slot < n.slots ∧ (n.entry slot).ino = ino') := fun here =>
      some (here.2.symm.trans (free here.1))
    rw [Function.update_apply, if_neg empty, Int.sub_zero]
    exact if_congr eq_comm rfl rfl
  -- the count is small enough to go up
  have bound := linked'.bound listed' live
  rw [update_self] at bound
  have count : ((m.linkcount + 1).toNat : Int) = m.linkcount.toNat + 1 := by
    have one : (1 : BitVec 16).toNat = 1 := rfl
    rw [BitVec.toNat_add]
    omega
  obtain ⟨indexed', same⟩ := listed'.relink linked' live count
  rw [if_neg used] at lookup
  exact ⟨indexed', same.trans lookup⟩

/-- An entry goes, and the link count of its file goes down. -/
theorem Indexed.unlink (indexed : Indexed A n) {name : Name} (named : n.Names slot name.val ino)
    (put : n.Put slot ⟨SFS_NOINO, fun _ => 0⟩ n')
    (live : update A SFS_ROOT_LOCATION (some n') ino = some m) :
    0 < m.linkcount ∧
      Indexed (update (update A SFS_ROOT_LOCATION (some n')) ino
        (some { m with linkcount := m.linkcount - 1 })) (n'.relinked ino (m.linkcount - 1)) ∧
      (n'.relinked ino (m.linkcount - 1)).lookup = update n.lookup name.val none := by
  obtain ⟨listed, linked⟩ := indexed
  have fits : n'.size.toNat ≤ 143 * 512 := by
    have size := put.size
    have low := named.inside
    have fits := listed.fits
    unfold Node.slots at low
    omega
  obtain ⟨listed', lookup⟩ := listed.put put named.inside.le fits
    (fun _ _ other => listed.unique _ _ _ _ _ other named)
    (fun _ _ other => other.name.symm.trans named.name) (absurd rfl) (absurd rfl)
  have linked' : Linked (update A SFS_ROOT_LOCATION (some n')) n'
      (update (fun _ => 0) ino (-1)) := by
    refine linked.put listed put named.inside.le fun ino' some => ?_
    have gone : ¬ SFS_NOINO = ino' := some.symm
    have here : slot < n.slots ∧ (n.entry slot).ino = ino' ↔ ino' = ino := by
      rw [named.number, eq_comm]
      exact and_iff_right named.inside
    rw [Function.update_apply, if_neg gone, if_congr here rfl rfl]
    split <;> rfl
  have some : 1 ≤ m.linkcount.toNat := by
    have count := linked' ino m live
    rw [update_self] at count
    split at count <;> omega
  have positive : 0 < m.linkcount := by
    have zero : (0 : BitVec 16).toNat = 0 := rfl
    rw [BitVec.lt_def]
    omega
  have count : ((m.linkcount - 1).toNat : Int) = m.linkcount.toNat + -1 := by
    have one : (1 : BitVec 16).toNat = 1 := rfl
    rw [BitVec.toNat_sub_of_le (BitVec.le_def.mpr (by omega))]
    omega
  obtain ⟨indexed', same⟩ := listed'.relink linked' live count
  exact ⟨positive, indexed', same.trans lookup⟩

/-! ### Files come, change and go -/

section

variable (sound : Sound A)

include sound

/-- A change of one file that is not the root, of its type and link count as the directory has
them. -/
theorem Sound.change (other : ino ≠ SFS_ROOT_LOCATION) {new : Option Node} (zero : ino ≠ 0)
    (gone : new = none → ∀ n, A SFS_ROOT_LOCATION = some n → n.links ino = 0)
    (kept : ∀ m, new = some m → m.type = SFS_TYPE_FILE ∧
      ∀ n, A SFS_ROOT_LOCATION = some n → m.linkcount.toNat = n.links ino) :
    Sound (update A ino new) ∧ directory (update A ino new) = directory A := by
  obtain ⟨n, listed, linked⟩ := sound
  have root : update A ino new SFS_ROOT_LOCATION = some n := by
    rw [update_of_ne other.symm]
    exact listed.root
  have same : Listed (update A ino new) n ∧ n.lookup = n.lookup ∧ n.links = n.links := by
    refine listed.congr rfl rfl rfl root ?_ ?_ ?_
    · rw [update_of_ne zero.symm]
      exact listed.zero
    · intro k low used
      by_cases here : (n.entry k).ino = ino
      · rw [here, update_self]
        cases new with
        | some m => rfl
        | none =>
          have none := gone rfl n listed.root
          exact absurd (Node.links_pos.mpr ⟨k, low, here⟩) (by omega)
      · rw [update_of_ne here]
        exact listed.live k low used
    intro ino' m' live' apart
    by_cases here : ino' = ino
    · subst here
      rw [update_self] at live'
      exact (kept m' live').1
    · rw [update_of_ne here] at live'
      exact listed.files ino' m' live' apart
  refine ⟨⟨n, same.1, fun ino' m' live' => ?_⟩, ?_⟩
  · by_cases here : ino' = ino
    · subst here
      rw [update_self] at live'
      have count := (kept m' live').2 n listed.root
      rw [if_neg other]
      simp only
      omega
    · rw [update_of_ne here] at live'
      exact linked ino' m' live'
  · funext name
    rw [same.1.directory_eq, listed.directory_eq]

theorem Sound.zero_ne (live : A ino = some m) : ino ≠ 0 := by
  obtain ⟨n, listed, -⟩ := sound
  rintro rfl
  exact absurd (listed.zero.symm.trans live) nofun

theorem Sound.links (live : A ino = some m) (root : A SFS_ROOT_LOCATION = some n) :
    m.linkcount.toNat = n.links ino + if ino = SFS_ROOT_LOCATION then 1 else 0 := by
  obtain ⟨n', listed, linked⟩ := sound
  cases listed.root.symm.trans root
  have count := linked ino m live
  by_cases here : ino = SFS_ROOT_LOCATION
  · simp only [here, if_true] at count ⊢
    omega
  · simp only [here, if_false] at count ⊢
    omega

/-- There is a slot for a file that has a name, so its link count is positive. -/
theorem Sound.linkcount_ne_zero {name : Name} (found : directory A name = some ino)
    (live : A ino = some m) : m.linkcount ≠ 0 := by
  obtain ⟨n, indexed⟩ := id sound
  have listed := indexed.listed
  rw [listed.directory_eq, listed.lookup_eq_some] at found
  obtain ⟨k, named⟩ := found
  have count := sound.links live listed.root
  have pos : 0 < n.links ino := Node.links_pos.mpr ⟨k, named.inside, named.number⟩
  intro zero
  have bound : n.links ino ≤ m.linkcount.toNat := count ▸ Nat.le_add_right ..
  have none : (0 : BitVec 16).toNat = 0 := rfl
  rw [zero] at bound
  omega

theorem Sound.unlinked_eq_false {name : Name} (found : directory A name = some ino) :
    unlinked A ino = false := by
  obtain ⟨n, indexed⟩ := id sound
  obtain ⟨m, live⟩ := indexed.listed.live_of_lookup
    ((indexed.listed.directory_eq name).symm.trans found)
  rw [unlinked, live]
  exact decide_eq_false (sound.linkcount_ne_zero found live)

section

variable (live : A ino = some m)

include live

/-- A file that is not linked is not the root. -/
theorem Sound.ne_root (unlinked : m.linkcount = 0) : ino ≠ SFS_ROOT_LOCATION := by
  rintro rfl
  have count := sound.links live live
  rw [unlinked, if_pos rfl] at count
  have zero : (0 : BitVec 16).toNat = 0 := rfl
  omega

theorem Sound.plain (unlinked : m.linkcount = 0) : m.type = SFS_TYPE_FILE := by
  have other := sound.ne_root live unlinked
  obtain ⟨n, listed, -⟩ := sound
  exact listed.files ino m live other

theorem Sound.typed : (opsOf m.type).isSome := by
  obtain ⟨n, listed, -⟩ := sound
  exact listed.typed live

theorem Sound.forget (unlinked : m.linkcount = 0) :
    Sound (update A ino none) ∧ directory (update A ino none) = directory A := by
  refine sound.change (sound.ne_root live unlinked) (sound.zero_ne live) (fun _ n root => ?_) nofun
  have count := sound.links live root
  rw [unlinked, if_neg (sound.ne_root live unlinked)] at count
  exact count.symm

theorem Sound.forgets (last : Prop) [Decidable last] :
    Sound (if last ∧ unlinked A ino = true then update A ino none else A) ∧
      directory (if last ∧ unlinked A ino = true then update A ino none else A) =
        directory A := by
  split
  next gone =>
    have zero := gone.2
    rw [unlinked, live] at zero
    exact sound.forget live (of_decide_eq_true zero)
  next => exact ⟨sound, rfl⟩

end

theorem Sound.add (free : A ino = none) (used : ino ≠ 0) :
    Sound (update A ino (some (Node.blank SFS_TYPE_FILE))) ∧
      directory (update A ino (some (Node.blank SFS_TYPE_FILE))) = directory A := by
  obtain ⟨n, listed, -⟩ := id sound
  have other : ino ≠ SFS_ROOT_LOCATION := by
    rintro rfl
    exact absurd (free.symm.trans listed.root) nofun
  refine sound.change other used nofun fun m same => ?_
  cases same
  refine ⟨rfl, fun n' root => ?_⟩
  cases listed.root.symm.trans root
  have none : ¬ 0 < n.links ino := by
    rw [Node.links_pos]
    rintro ⟨k, low, rfl⟩
    exact absurd (free ▸ listed.live k low used) nofun
  have zero : (Node.blank SFS_TYPE_FILE).linkcount.toNat = 0 := rfl
  omega

theorem Sound.write (live : A ino = some m) (type : m.type = SFS_TYPE_FILE) (size : CUnsigned)
    (contents : Nat → Block) :
    Sound (update A ino (some { m with size := size, contents := contents })) ∧
      directory (update A ino (some { m with size := size, contents := contents })) =
        directory A := by
  have other : ino ≠ SFS_ROOT_LOCATION := by
    rintro rfl
    obtain ⟨n, listed, -⟩ := sound
    cases listed.root.symm.trans live
    exact absurd (type.symm.trans listed.type) (by decide)
  refine sound.change other (sound.zero_ne live) nofun fun m' same => ?_
  cases same
  refine ⟨type, fun n root => ?_⟩
  have count := sound.links live root
  rwa [if_neg other] at count

end

end

end Os161.Sfs
