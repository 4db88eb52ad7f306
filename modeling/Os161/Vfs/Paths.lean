import Os161.Vfs.Devices

/-!
# Path names, `vfslookup.c`

`getdevice` takes the name of a device off the front of a path, in place. A pointer into the
buffer of the path is given by what lies from there to the end, and to read at the end is a fault.
-/
namespace Os161.Vfs

open Foundation

def COLON : Byte := 0x3a

def SLASH : Byte := 0x2f

inductive PathFault where
  | outOfBounds
  | assertion

/-- What a lookup can start from: `V` are the vnodes and `F` the file systems. -/
structure Starts (V F : Type) where
  getcurdir : Except Errno V
  getroot : CString → Except Errno V
  bootfsVnode : Option V
  /-- `vn_fs`. -/
  fs : V → Option F
  /-- `FSOP_GETROOT`. -/
  fsRoot : F → V

/-- The loop that looks for the first slash or colon, from index `i` on. -/
def findMark (i : Int) : List Byte → Except PathFault (Int × Int)
  | [] => .error .outOfBounds
  | c :: rest =>
    if c = 0 then .ok (-1, -1)
    else if c = COLON then .ok (-1, i)
    else if c = SLASH then .ok (i, -1)
    else findMark (i + 1) rest

/-- The loops that move a pointer over slashes. -/
def skipSlashes : List Byte → Except PathFault (List Byte)
  | [] => .error .outOfBounds
  | c :: rest => if c = SLASH then skipSlashes rest else .ok (c :: rest)

/-- The string that begins at a pointer. -/
def stringAt (p : List Byte) : CString := p.takeWhile (· ≠ 0)

section

variable {V F : Type} (starts : Starts V F)

/-- The start of `/path` and `:path`. -/
def Starts.rooted (c : Byte) : Except PathFault (Except Errno V) :=
  if c = SLASH then .ok (starts.bootfsVnode.elim (.error .ENOENT) .ok)
  else if c ≠ COLON then .error .assertion
  else match starts.getcurdir with
    | .error e => .ok (.error e)
    | .ok vn => match starts.fs vn with
      | none => .error .assertion
      | some fs => .ok (.ok (starts.fsRoot fs))

/-- The result is the buffer, and an error or `*startvn` and `*subpath`. -/
def getdevice (path : List Byte) :
    Except PathFault (List Byte × Except Errno (V × List Byte)) :=
  match findMark 0 path with
  | .error fault => .error fault
  | .ok (slash, colon) =>
    if colon < 0 ∧ slash ≠ 0 then .ok (path, starts.getcurdir.map (·, path))
    else if 0 < colon then
      let edited := path.set colon.toNat 0
      (skipSlashes (edited.drop (colon.toNat + 1))).map fun subpath =>
        (edited, (starts.getroot (stringAt edited)).map (·, subpath))
    else if ¬ (colon = 0 ∨ slash = 0) then .error .assertion
    else match path with
      | [] => .error .outOfBounds
      | c :: rest => match starts.rooted c with
        | .error fault => .error fault
        | .ok (.error e) => .ok (path, .error e)
        | .ok (.ok vn) => (skipSlashes rest).map fun subpath => (path, .ok (vn, subpath))

end

/-! ### What is found in a path -/

/-- A part of a path without separators. -/
def Plain (a : CString) : Prop := ∀ c ∈ a, c ≠ 0 ∧ c ≠ COLON ∧ c ≠ SLASH

theorem findMark_append {a : CString} (plain : Plain a) (i : Int) (rest : List Byte) :
    findMark i (a ++ rest) = findMark (i + a.length) rest := by
  induction a generalizing i with
  | nil => simp
  | cons c a ih =>
    obtain ⟨nul, colon, slash⟩ := plain c List.mem_cons_self
    have tail : Plain a := fun d member => plain d (List.mem_cons_of_mem c member)
    simp only [List.cons_append, findMark, nul, colon, slash, if_false, ih tail, List.length_cons]
    congr 1
    omega

theorem skipSlashes_eq (b : CString) :
    skipSlashes (b ++ [0]) = .ok (b.dropWhile (· = SLASH) ++ [0]) := by
  induction b with
  | nil => rfl
  | cons c b ih =>
    by_cases slash : c = SLASH
    · simpa only [List.cons_append, skipSlashes, List.dropWhile_cons, slash, decide_true, if_true]
    · simp [skipSlashes, slash]

private theorem stringAt_append {a : CString} (plain : Plain a) (rest : List Byte) :
    stringAt (a ++ 0 :: rest) = a := by
  rw [stringAt, List.takeWhile_append_of_pos fun c member => decide_eq_true (plain c member).1]
  simp

section

variable {V F : Type} {starts : Starts V F} {a b : CString}

private theorem getdevice_relative {path : List Byte} {slash : Int}
    (found : findMark 0 path = .ok (slash, -1))
    (inner : slash ≠ 0) : getdevice starts path = .ok (path, starts.getcurdir.map (·, path)) := by
  simp only [getdevice, found]
  exact if_pos ⟨by decide, inner⟩

private theorem getdevice_device (plain : Plain a) (some : a ≠ []) :
    getdevice starts (a ++ COLON :: b ++ [0]) =
      .ok (a ++ 0 :: b ++ [0], (starts.getroot a).map (·, b.dropWhile (· = SLASH) ++ [0])) := by
  have positive := List.length_pos_iff.mpr some
  have found : findMark 0 (a ++ COLON :: b ++ [0]) = .ok (-1, a.length) := by
    rw [List.append_assoc, findMark_append plain, Int.zero_add]
    rfl
  have edited : (a ++ COLON :: b ++ [0]).set a.length 0 = a ++ 0 :: b ++ [0] := by simp
  have rest : (a ++ 0 :: b ++ [0]).drop (a.length + 1) = b ++ [0] := by
    rw [List.append_assoc, ← List.drop_drop, List.drop_left]
    rfl
  have name : stringAt (a ++ 0 :: b ++ [0]) = a := by
    rw [List.append_assoc]
    exact stringAt_append plain _
  simp only [getdevice, found]
  rw [if_neg (by omega), if_pos (by omega), Int.toNat_natCast, edited, rest, skipSlashes_eq, name]
  rfl

private theorem getdevice_rooted {c : Byte} (mark : c = SLASH ∨ c = COLON) {start : Except Errno V}
    (begins : starts.rooted c = .ok start) :
    getdevice starts (c :: b ++ [0]) =
      .ok (c :: b ++ [0], start.map (·, b.dropWhile (· = SLASH) ++ [0])) := by
  have skips := skipSlashes_eq b
  rcases mark with rfl | rfl <;> cases start <;>
    simp only [List.cons_append, getdevice, begins, skips] <;> rfl

end

/-- The start and the rest of every path, by its first separator. For a path that begins with a
colon the current directory has to have a file system. No byte behind the path is read. -/
theorem getdevice_parses {V F : Type} (starts : Starts V F) {a : CString} (plain : Plain a)
    (b : CString) :
    getdevice starts (a ++ [0]) = .ok (a ++ [0], starts.getcurdir.map (·, a ++ [0])) ∧
    (a ≠ [] → getdevice starts (a ++ SLASH :: b ++ [0]) =
      .ok (a ++ SLASH :: b ++ [0], starts.getcurdir.map (·, a ++ SLASH :: b ++ [0]))) ∧
    (a ≠ [] → getdevice starts (a ++ COLON :: b ++ [0]) =
      .ok (a ++ 0 :: b ++ [0], (starts.getroot a).map (·, b.dropWhile (· = SLASH) ++ [0]))) ∧
    getdevice starts (SLASH :: b ++ [0]) =
      .ok (SLASH :: b ++ [0], starts.bootfsVnode.elim (.error .ENOENT)
        fun vn => .ok (vn, b.dropWhile (· = SLASH) ++ [0])) ∧
    ∀ fs : V → F, (∀ vn, starts.getcurdir = .ok vn → starts.fs vn = some (fs vn)) →
      getdevice starts (COLON :: b ++ [0]) =
        .ok (COLON :: b ++ [0], starts.getcurdir.map
          fun vn => (starts.fsRoot (fs vn), b.dropWhile (· = SLASH) ++ [0])) := by
  refine ⟨?_, fun some => ?_, getdevice_device plain, ?_, fun fs rooted => ?_⟩
  · exact getdevice_relative (findMark_append plain 0 [0]) (by decide)
  · have inner : (0 + a.length : Int) ≠ 0 := by
      have positive := List.length_pos_iff.mpr some
      omega
    refine getdevice_relative ?_ inner
    rw [List.append_assoc, findMark_append plain]
    rfl
  · rw [getdevice_rooted (.inl rfl) rfl]
    cases starts.bootfsVnode <;> rfl
  cases here : starts.getcurdir with
  | error e =>
    have begins : starts.rooted COLON = .ok (.error e) := by
      simp [Starts.rooted, here, COLON, SLASH]
    exact getdevice_rooted (.inr rfl) begins
  | ok vn =>
    have begins : starts.rooted COLON = .ok (.ok (starts.fsRoot (fs vn))) := by
      simp [Starts.rooted, here, rooted vn here, COLON, SLASH]
    exact getdevice_rooted (.inr rfl) begins

theorem getdevice_parses_slashes :
    getdevice (⟨.ok 1, fun _ => .ok 2, none, some, id⟩ : Starts Nat Nat)
        [0x61, COLON, SLASH, SLASH, 0x62, 0] =
      .ok ([0x61, 0, SLASH, SLASH, 0x62, 0], .ok (2, [0x62, 0])) :=
  (getdevice_parses _ (show Plain [0x61] by unfold Plain; decide) [SLASH, SLASH, 0x62]).2.2.1
    (by decide)

/-! ### The boot file system -/

/-- `strchr`; the result is a pointer into the string. -/
def strchr (ch : Byte) : CString → Option CString
  | [] => none
  | c :: rest => if c = ch then some (c :: rest) else strchr ch rest

section

variable {σ V : Type} (chdir : CString → σ → Errno × σ) (getcurdir : σ → Except Errno V)

/-- The end of `vfs_setbootfs`, from the call of `vfs_chdir` on. -/
def changeBootfs (tmp : CString) (s : σ × Option V) : Errno × σ × Option V :=
  let (result, after) := chdir tmp s.1
  if result ≠ .success then (result, after, s.2)
  else match getcurdir after with
    | .error e => (e, after, s.2)
    | .ok newguy => (.success, after, some newguy)

/-- `vfs_setbootfs`. The state is that of the VFS layer and `bootfs_vnode`. -/
def setbootfs (fsname : CString) (s : σ × Option V) : Errno × σ × Option V :=
  -- `snprintf` has room for `NAME_MAX - 1` characters
  let tmp := fsname.take 254
  match strchr COLON tmp with
  | some p => if 0 < p.length then (.EINVAL, s) else changeBootfs chdir getcurdir tmp s
  | none => changeBootfs chdir getcurdir (tmp ++ [COLON]) s

variable {chdir getcurdir}

/-- The pointer is to the colon, which is not the end of the string. -/
theorem strchr_eq_some {ch : Byte} {d : CString} (inside : ch ∈ d) :
    ∃ p, strchr ch d = some p ∧ 0 < p.length := by
  induction d with
  | nil => cases inside
  | cons c d ih =>
    rw [strchr]
    split
    next => exact ⟨_, rfl, Nat.succ_pos _⟩
    next other => exact ih ((List.mem_cons.mp inside).resolve_left (Ne.symm other))

private theorem setbootfs_refused {e : CString} (inside : COLON ∈ e.take 254) (s : σ × Option V) :
    setbootfs chdir getcurdir e s = (.EINVAL, s) := by
  obtain ⟨p, found, some⟩ := strchr_eq_some inside
  simp [setbootfs, found, if_pos some]

private theorem strchr_eq_none {ch : Byte} {d : CString} (outside : ch ∉ d) :
    strchr ch d = none := by
  induction d with
  | nil => rfl
  | cons c d ih =>
    obtain ⟨first, rest⟩ := not_or.mp (mt List.mem_cons.mpr outside)
    rw [strchr, if_neg (Ne.symm first), ih rest]

private theorem setbootfs_plain {d : CString} (short : d.length ≤ 253) (plain : COLON ∉ d)
    (s : σ × Option V) :
    setbootfs chdir getcurdir d s = changeBootfs chdir getcurdir (d ++ [COLON]) s := by
  have whole : d.take 254 = d := List.take_of_length_le (by omega)
  simp only [setbootfs, whole, strchr_eq_none plain]

/-- What `vfs_chdir` and `vfs_getcurdir` have to return for a refusal without effect. -/
theorem changeBootfs_refused {tmp : CString} {s : σ × Option V} :
    changeBootfs chdir getcurdir tmp s = (.EINVAL, s) ↔ chdir tmp s.1 = (.EINVAL, s.1) ∨
      chdir tmp s.1 = (.success, s.1) ∧ getcurdir s.1 = .error .EINVAL := by
  obtain ⟨vfs, bootfs⟩ := s
  dsimp only [changeBootfs]
  rcases chdir tmp vfs with ⟨result, after⟩
  by_cases moved : result = .success
  · subst moved
    cases here : getcurdir after with
    | error e => aesop
    | ok newguy => aesop
  · aesop

/-- A colon is refused wherever it is: it is optional only where `vfs_chdir` or `vfs_getcurdir`
refuses the device in the same way, and never where both succeed. -/
theorem setbootfs_colon (s : σ × Option V) :
    (∀ e, COLON ∈ e.take 254 → setbootfs chdir getcurdir e s = (.EINVAL, s)) ∧
      ∀ d : CString, d.length ≤ 253 → COLON ∉ d →
        (setbootfs chdir getcurdir d s = setbootfs chdir getcurdir (d ++ [COLON]) s ↔
          chdir (d ++ [COLON]) s.1 = (.EINVAL, s.1) ∨
            chdir (d ++ [COLON]) s.1 = (.success, s.1) ∧ getcurdir s.1 = .error .EINVAL) ∧
        ∀ after newguy, chdir (d ++ [COLON]) s.1 = (.success, after) →
          getcurdir after = .ok newguy →
          setbootfs chdir getcurdir d s = (.success, after, some newguy) ∧
            setbootfs chdir getcurdir (d ++ [COLON]) s = (.EINVAL, s) := by
  refine ⟨fun e inside => setbootfs_refused inside s, fun d short plain => ?_⟩
  have inside : COLON ∈ (d ++ [COLON]).take 254 := by
    rw [List.take_of_length_le (by simp; omega)]
    simp
  rw [setbootfs_refused inside, setbootfs_plain short plain]
  refine ⟨changeBootfs_refused, fun after newguy moved found => ⟨?_, rfl⟩⟩
  simp [changeBootfs, moved, found]

theorem setbootfs_colon_emu0 :
    setbootfs (fun _ s => (.success, s)) (fun _ => .ok 1) [0x65, 0x6d, 0x75, 0x30] ((), none) ≠
      setbootfs (fun _ s => (.success, s)) (fun _ => .ok 1) [0x65, 0x6d, 0x75, 0x30, COLON]
        ((), none) :=
  mt ((@setbootfs_colon Unit Nat (fun _ s => (.success, s)) (fun _ => .ok 1) ((), none)).2
    [0x65, 0x6d, 0x75, 0x30] (by decide) (by decide)).1.mp (by simp)

/-- With `emu0` it is set, with `emu0:` it is not. -/
theorem setbootfs_trailing_colon :
    setbootfs (fun _ s => (.success, s)) (fun _ : Unit => .ok 1) [0x65, 0x6d, 0x75, 0x30]
        ((), none) = (.success, (), some 1) ∧
      setbootfs (fun _ s => (.success, s)) (fun _ : Unit => .ok 1) [0x65, 0x6d, 0x75, 0x30, COLON]
        ((), none) = (.EINVAL, (), none) :=
  ⟨rfl, rfl⟩

end

end Os161.Vfs
