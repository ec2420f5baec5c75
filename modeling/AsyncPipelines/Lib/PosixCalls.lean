import AsyncPipelines.Lib.Posix
import Mathlib.Logic.Function.Basic

/-!
The calls a process makes on the filesystem, each with its answer and the state it leaves.
A call that fails leaves the state as it was.
-/

namespace Posix

variable {ν β : Type}

section

variable (fs : Fs ν β) (K : Kernel ν)

def without (mode bits : Nat) : Nat := mode ^^^ (mode &&& bits)

def Kernel.masked (mode : Nat) : Nat := without mode K.umask

/-- What the process is to a file that it makes in the directory: the group is its own, or that
of a directory that hands its group on. -/
def Fs.born (dir : Place ν) : Standing :=
  match fs.node dir with
  | some (.dir r) => ⟨true, !r.groups || r.standing.member⟩
  | _ => .owner

def Fs.inherited (dir : Place ν) : Nat :=
  match fs.node dir with
  | some (.dir r) => r.mode &&& setgid
  | _ => 0

/-- The mode that `chmod` gives a file: the set-group-ID bit is dropped for a process outside
the file's group. -/
def Kernel.granted (s : Standing) (mode : Nat) : Nat :=
  if K.privileged || s.member then mode else without mode setgid

def Kernel.accepts (dir : Place ν) : Bool :=
  match fs.node dir with
  | some (.dir r) => K.mayWrite r
  | _ => false

/-- Whether an entry of a sticky directory is kept from the process. -/
def Kernel.guards (here : Place ν) : Bool :=
  match fs.node here.tail, fs.node here with
  | some (.dir r), some found =>
    r.sticky && !K.privileged && !r.standing.owns && !(fs.rights found).standing.owns
  | _, _ => false

def Kernel.refuses (here : Place ν) : Option Errno :=
  if K.accepts fs here.tail = false then some .EACCES
  else if K.guards fs here then some .EPERM
  else none

/-- `os.access` for writing. -/
def Kernel.writable (p : Path ν) : Bool :=
  match K.stat fs p with
  | .error _ => false
  | .ok (_, found) => K.mayWrite (fs.rights found)

def Path.named (p : Path ν) : Bool :=
  match p.parts.getLast? with
  | some (.name _) => true
  | _ => false

def Fs.setFile (ino : Nat) (changed : File β) : Fs ν β :=
  { fs with file := Function.update fs.file ino changed }

def Fs.append (ino : Nat) (more : List β) : Fs ν β :=
  fs.setFile ino { fs.file ino with content := (fs.file ino).content ++ more }

/-- `os.chmod` of a file; of a directory it is left out. -/
def Kernel.chmod (p : Path ν) (mode : Nat) : Except Errno Unit × Fs ν β :=
  match K.stat fs p with
  | .error e => (.error e, fs)
  | .ok (_, .file ino) =>
    if K.privileged || (fs.file ino).rights.standing.owns then
      (.ok (), fs.setFile ino { fs.file ino with
        rights := { (fs.file ino).rights with mode := K.granted (fs.file ino).rights.standing mode } })
    else (.error .EPERM, fs)
  | .ok _ => (.error .EPERM, fs)

@[simp] theorem without_and (mode bits : Nat) : without mode bits &&& bits = 0 := by
  rw [without, Nat.and_xor_distrib_right, Nat.and_assoc, Nat.and_self, Nat.xor_self]

theorem without_of_disjoint {mode bits : Nat} (disjoint : mode &&& bits = 0) : without mode bits = mode := by
  rw [without, disjoint, Nat.xor_zero]

theorem without_and_other {bits other : Nat} (disjoint : bits &&& other = 0) (mode : Nat) :
    without mode bits &&& other = mode &&& other := by
  rw [without, Nat.and_xor_distrib_right, Nat.and_assoc, disjoint, Nat.and_zero, Nat.xor_zero]

@[simp] theorem born_owns (dir : Place ν) : (fs.born dir).owns = true := by
  unfold Fs.born
  split <;> rfl

theorem born_congr {fs fs' : Fs ν β} {dir : Place ν} (same : fs'.node dir = fs.node dir) :
    fs'.born dir = fs.born dir := by
  unfold Fs.born
  rw [same]

@[simp] theorem granted_granted (s : Standing) (mode : Nat) :
    K.granted s (K.granted s mode) = K.granted s mode := by
  unfold Kernel.granted
  split
  · rfl
  · exact without_of_disjoint (without_and mode setgid)

/-- The bits for reading, writing and searching are given as they are asked for. -/
theorem granted_permissions (s : Standing) (mode : Nat) : K.granted s mode &&& 0o777 = mode &&& 0o777 := by
  unfold Kernel.granted
  split
  · rfl
  · exact without_and_other rfl mode

theorem granted_masked (s : Standing) {mode : Nat} (plain : mode &&& setgid = 0) :
    K.granted s (K.masked mode) = K.masked mode := by
  unfold Kernel.granted
  split
  · rfl
  · apply without_of_disjoint
    rw [Kernel.masked, without, Nat.and_xor_distrib_right, plain, Nat.and_assoc, Nat.and_comm K.umask,
      ← Nat.and_assoc, plain, Nat.zero_and, Nat.xor_self]

@[simp] theorem setFile_node (ino : Nat) (changed : File β) :
    (fs.setFile ino changed).node = fs.node := rfl

@[simp] theorem setFile_next (ino : Nat) (changed : File β) :
    (fs.setFile ino changed).next = fs.next := rfl

@[simp] theorem setFile_file (ino : Nat) (changed : File β) (k : Nat) :
    (fs.setFile ino changed).file k = if k = ino then changed else fs.file k := by
  simp [Fs.setFile, Function.update_apply]

theorem walks_unnamed {fs : Fs ν β} {K : Kernel ν} {follow : Bool} {count : Nat} {here final : Place ν}
    {ps : List (Segment ν)} (walks : Walks K fs follow count here ps final)
    (begins : ps = [] → isDir (fs.node here) = true) (unnamed : ∀ n, ps.getLast? ≠ some (.name n)) :
    isDir (fs.node final) = true := by
  induction walks with
  | done here => exact begins rfl
  | @up count here final rest opened further ih =>
      refine ih (fun _ => isDir_tail fs (isDir_of_opens opened)) fun n last => ?_
      apply unnamed n
      cases rest with
      | nil => cases last
      | cons part rest => rw [List.getLast?_cons_cons, last]
  | @name count here next final n rest entered plain further ih =>
      cases rest with
      | nil => exact absurd rfl (unnamed n)
      | cons part rest => exact ih nofun fun m last => unnamed m (by rw [List.getLast?_cons_cons, last])
  | last entered found kept => exact absurd rfl (unnamed _)
  | @link count here next final n rest target r entered found followed further ih =>
      cases rest with
      | nil => exact absurd rfl (unnamed n)
      | cons part rest =>
          refine ih (by simp) fun m last => unnamed m ?_
          rw [List.getLast?_append_of_ne_nil _ (by simp)] at last
          rw [List.getLast?_cons_cons, last]

theorem isDir_of_unnamed {fs : Fs ν β} {K : Kernel ν} {follow : Bool} {p : Path ν} {here : Place ν}
    (found : K.lookup fs follow p = .ok here) (unnamed : p.named = false) :
    isDir (fs.node here) = true := by
  simp only [Kernel.lookup] at found
  split at found
  · rename_i begins
    obtain ⟨count, _, walks⟩ := walk_ok found
    refine walks_unnamed walks (fun _ => begins) fun n last => ?_
    simp [Path.named, last] at unnamed
  · cases found

theorem accepts_isDir {fs : Fs ν β} {K : Kernel ν} {dir : Place ν} (accepts : K.accepts fs dir = true) :
    isDir (fs.node dir) = true := by
  unfold Kernel.accepts at accepts
  split at accepts
  · rename_i r found
    rw [found]
    rfl
  · cases accepts

theorem accepts_congr {fs fs' : Fs ν β} {K : Kernel ν} {dir : Place ν}
    (same : fs'.node dir = fs.node dir) : K.accepts fs' dir = K.accepts fs dir := by
  unfold Kernel.accepts
  rw [same]

theorem guards_congr {fs fs' : Fs ν β} {K : Kernel ν} {here : Place ν}
    (parent : fs'.node here.tail = fs.node here.tail) (entry : fs'.node here = fs.node here)
    (standing : ∀ found, fs.node here = some found →
      (fs'.rights found).standing = (fs.rights found).standing) :
    K.guards fs' here = K.guards fs here := by
  unfold Kernel.guards
  rw [parent, entry]
  cases found : fs.node here with
  | none => rcases fs.node here.tail with _ | (r | ino | ⟨target, r⟩) <;> rfl
  | some entry =>
      have same := standing entry found
      rcases fs.node here.tail with _ | (r | ino | ⟨target, r⟩)
      · rfl
      · simp only [same]
      · rfl
      · rfl

theorem leaf_of_missing {fs : Fs ν β} {here : Place ν} (missing : fs.node here = none) :
    isDir (fs.node here) = false := by
  simp [isDir, missing]

end

section

variable [DecidableEq ν] (fs : Fs ν β) (K : Kernel ν)

def Fs.alter (here : Place ν) (found : Option (Node ν)) (leaf : isDir (fs.node here) = false)
    (inside : found ≠ none → isDir (fs.node here.tail) = true)
    (known : ∀ ino, found = some (.file ino) → ino < fs.next) : Fs ν β where
  node := Function.update fs.node here found
  file := fs.file
  next := fs.next
  rooted := by
    have distinct : [] ≠ here := by
      rintro rfl
      simp [fs.rooted] at leaf
    rw [Function.update_of_ne distinct]
    exact fs.rooted
  housed n above there := by
    have dir : isDir (fs.node above) = true := by
      by_cases same : n :: above = here
      · subst same
        exact inside (by simpa using there)
      · rw [Function.update_of_ne same] at there
        exact fs.housed n above there
    have distinct : above ≠ here := by
      rintro rfl
      simp [dir] at leaf
    rw [Function.update_of_ne distinct]
    exact dir
  numbered place ino there := by
    by_cases same : place = here
    · subst same
      exact known ino (by simpa using there)
    · rw [Function.update_of_ne same] at there
      exact fs.numbered place ino there

def Fs.alloc (made : File β) : Fs ν β where
  node := fs.node
  file := Function.update fs.file fs.next made
  next := fs.next + 1
  rooted := fs.rooted
  housed := fs.housed
  numbered here ino there := Nat.lt_succ_of_lt (fs.numbered here ino there)

def Fs.insertFile (here : Place ν) (missing : fs.node here = none)
    (inside : isDir (fs.node here.tail) = true) (r : Rights) : Fs ν β :=
  (fs.alloc ⟨[], r⟩).alter here (some (.file fs.next)) (leaf_of_missing missing) (fun _ => inside) (by
    intro ino same
    cases same
    exact Nat.lt_succ_self _)

def Fs.insertDir (here : Place ν) (missing : fs.node here = none)
    (inside : isDir (fs.node here.tail) = true) (r : Rights) : Fs ν β :=
  fs.alter here (some (.dir r)) (leaf_of_missing missing) (fun _ => inside) (by simp)

def Fs.remove (here : Place ν) (leaf : isDir (fs.node here) = false) : Fs ν β :=
  fs.alter here none leaf (by simp) (by simp)

def Fs.move (source target : Place ν) (leaf : isDir (fs.node source) = false)
    (free : isDir (fs.node target) = false) (inside : isDir (fs.node target.tail) = true) : Fs ν β :=
  (fs.remove source leaf).alter target (fs.node source)
    (by
      by_cases same : target = source
      · subst same
        simp [Fs.remove, Fs.alter, isDir]
      · simpa [Fs.remove, Fs.alter, Function.update_of_ne same] using free)
    (by
      intro _
      have distinct : target.tail ≠ source := by
        rintro rfl
        simp [inside] at leaf
      simpa [Fs.remove, Fs.alter, Function.update_of_ne distinct] using inside)
    (fun ino there => fs.numbered source ino there)

/-- `os.open` with `O_CREAT | O_EXCL`, to the number of the new file. -/
def Kernel.create (p : Path ν) (mode : Nat) : Except Errno Nat × Fs ν β :=
  match K.lookup fs false p with
  | .error e => (.error e, fs)
  | .ok here =>
    if there : fs.node here ≠ none then (.error .EEXIST, fs)
    else if accepts : K.accepts fs here.tail = true then
      (.ok fs.next, fs.insertFile here (by simpa using there) (accepts_isDir accepts)
        ⟨K.masked mode, fs.born here.tail⟩)
    else (.error .EACCES, fs)

/-- `os.mkdir`. -/
def Kernel.mkdir (p : Path ν) (mode : Nat) : Except Errno Unit × Fs ν β :=
  match K.lookup fs false p with
  | .error e => (.error e, fs)
  | .ok here =>
    if there : fs.node here ≠ none then (.error .EEXIST, fs)
    else if accepts : K.accepts fs here.tail = true then
      (.ok (), fs.insertDir here (by simpa using there) (accepts_isDir accepts)
        ⟨K.masked mode ||| fs.inherited here.tail, fs.born here.tail⟩)
    else (.error .EACCES, fs)

/-- `os.unlink`. -/
def Kernel.unlink (p : Path ν) : Except Errno Unit × Fs ν β :=
  match K.lookup fs false p with
  | .error e => (.error e, fs)
  | .ok here =>
    if fs.node here = none then (.error .ENOENT, fs)
    else match K.refuses fs here with
      | some e => (.error e, fs)
      | none =>
        if leaf : isDir (fs.node here) = false then (.ok (), fs.remove here leaf)
        else (.error .EISDIR, fs)

def Fs.same (source target : Place ν) : Prop :=
  source = target ∨ ∃ ino, fs.node source = some (.file ino) ∧ fs.node target = some (.file ino)

instance Fs.same.decidable (source target : Place ν) : Decidable (fs.same source target) :=
  match found : fs.node source with
  | some (.file ino) =>
    decidable_of_iff (source = target ∨ fs.node target = some (.file ino)) (by
      simp only [Fs.same, found]
      constructor
      · rintro (same | there)
        · exact .inl same
        · exact .inr ⟨ino, rfl, there⟩
      · rintro (same | ⟨ino', isFile, there⟩)
        · exact .inl same
        · cases isFile
          exact .inr there)
  | none => decidable_of_iff (source = target) (by simp [Fs.same, found])
  | some (.dir _) => decidable_of_iff (source = target) (by simp [Fs.same, found])
  | some (.link _ _) => decidable_of_iff (source = target) (by simp [Fs.same, found])

/-- `os.replace` of an entry that is no directory; of a directory it is left out. -/
def Kernel.replace (old new : Path ν) : Except Errno Unit × Fs ν β :=
  match K.lookup fs false old, K.lookup fs false new with
  | .error e, _ => (.error e, fs)
  | _, .error e => (.error e, fs)
  | .ok source, .ok target =>
    if new.named = false then (.error .EBUSY, fs)
    else if fs.node source = none then (.error .ENOENT, fs)
    else if fs.same source target then (.ok (), fs)
    else match K.refuses fs source, K.refuses fs target with
      | some e, _ => (.error e, fs)
      | _, some e => (.error e, fs)
      | none, none =>
        if leaf : isDir (fs.node source) = false ∧ isDir (fs.node target) = false ∧
            isDir (fs.node target.tail) = true then
          (.ok (), fs.move source target leaf.1 leaf.2.1 leaf.2.2)
        else (.error .EISDIR, fs)

end

section

variable [DecidableEq ν] {fs : Fs ν β} {K : Kernel ν}

@[simp] theorem insertFile_node {here : Place ν} {missing : fs.node here = none}
    {inside : isDir (fs.node here.tail) = true} {r : Rights} (k : Place ν) :
    (fs.insertFile here missing inside r).node k = if k = here then some (.file fs.next) else fs.node k := by
  simp [Fs.insertFile, Fs.alter, Fs.alloc, Function.update_apply]

@[simp] theorem insertFile_file {here : Place ν} {missing : fs.node here = none}
    {inside : isDir (fs.node here.tail) = true} {r : Rights} (ino : Nat) :
    (fs.insertFile here missing inside r).file ino = if ino = fs.next then ⟨[], r⟩ else fs.file ino := by
  simp [Fs.insertFile, Fs.alter, Fs.alloc, Function.update_apply]

@[simp] theorem insertFile_next {here : Place ν} {missing : fs.node here = none}
    {inside : isDir (fs.node here.tail) = true} {r : Rights} :
    (fs.insertFile here missing inside r).next = fs.next + 1 := rfl

@[simp] theorem insertDir_node {here : Place ν} {missing : fs.node here = none}
    {inside : isDir (fs.node here.tail) = true} {r : Rights} (k : Place ν) :
    (fs.insertDir here missing inside r).node k = if k = here then some (.dir r) else fs.node k := by
  simp [Fs.insertDir, Fs.alter, Function.update_apply]

@[simp] theorem insertDir_file {here : Place ν} {missing : fs.node here = none}
    {inside : isDir (fs.node here.tail) = true} {r : Rights} :
    (fs.insertDir here missing inside r).file = fs.file := rfl

@[simp] theorem insertDir_next {here : Place ν} {missing : fs.node here = none}
    {inside : isDir (fs.node here.tail) = true} {r : Rights} :
    (fs.insertDir here missing inside r).next = fs.next := rfl

@[simp] theorem remove_node {here : Place ν} {leaf : isDir (fs.node here) = false} (k : Place ν) :
    (fs.remove here leaf).node k = if k = here then none else fs.node k := by
  simp [Fs.remove, Fs.alter, Function.update_apply]

@[simp] theorem remove_file {here : Place ν} {leaf : isDir (fs.node here) = false} :
    (fs.remove here leaf).file = fs.file := rfl

@[simp] theorem remove_next {here : Place ν} {leaf : isDir (fs.node here) = false} :
    (fs.remove here leaf).next = fs.next := rfl

@[simp] theorem move_node {source target : Place ν} {leaf : isDir (fs.node source) = false}
    {free : isDir (fs.node target) = false} {inside : isDir (fs.node target.tail) = true}
    (k : Place ν) :
    (fs.move source target leaf free inside).node k =
      if k = target then fs.node source else if k = source then none else fs.node k := by
  simp [Fs.move, Fs.remove, Fs.alter, Function.update_apply]

@[simp] theorem move_file {source target : Place ν} {leaf : isDir (fs.node source) = false}
    {free : isDir (fs.node target) = false} {inside : isDir (fs.node target.tail) = true} :
    (fs.move source target leaf free inside).file = fs.file := rfl

@[simp] theorem move_next {source target : Place ν} {leaf : isDir (fs.node source) = false}
    {free : isDir (fs.node target) = false} {inside : isDir (fs.node target.tail) = true} :
    (fs.move source target leaf free inside).next = fs.next := rfl

theorem create_ok {p : Path ν} {mode ino : Nat} {after : Fs ν β}
    (made : K.create fs p mode = (.ok ino, after)) :
    ∃ here, ∃ (missing : fs.node here = none) (inside : isDir (fs.node here.tail) = true),
      K.lookup fs false p = .ok here ∧ K.accepts fs here.tail = true ∧ ino = fs.next ∧
        after = fs.insertFile here missing inside ⟨K.masked mode, fs.born here.tail⟩ := by
  unfold Kernel.create at made
  split at made
  · cases made
  · rename_i here found
    split at made
    · cases made
    · rename_i missing
      split at made
      · rename_i accepts
        cases made
        exact ⟨here, by simpa using missing, accepts_isDir accepts, found, accepts, rfl, rfl⟩
      · cases made

theorem create_error {p : Path ν} {mode : Nat} {e : Errno} {after : Fs ν β}
    (refused : K.create fs p mode = (.error e, after)) : after = fs := by
  unfold Kernel.create at refused
  repeat' split at refused
  all_goals cases refused
  all_goals rfl

theorem mkdir_ok {p : Path ν} {mode : Nat} {after : Fs ν β}
    (made : K.mkdir fs p mode = (.ok (), after)) :
    ∃ here, ∃ (missing : fs.node here = none) (inside : isDir (fs.node here.tail) = true),
      K.lookup fs false p = .ok here ∧ K.accepts fs here.tail = true ∧
        after = fs.insertDir here missing inside
          ⟨K.masked mode ||| fs.inherited here.tail, fs.born here.tail⟩ := by
  unfold Kernel.mkdir at made
  split at made
  · cases made
  · rename_i here found
    split at made
    · cases made
    · rename_i missing
      split at made
      · rename_i accepts
        cases made
        exact ⟨here, by simpa using missing, accepts_isDir accepts, found, accepts, rfl⟩
      · cases made

theorem mkdir_error {p : Path ν} {mode : Nat} {e : Errno} {after : Fs ν β}
    (refused : K.mkdir fs p mode = (.error e, after)) : after = fs := by
  unfold Kernel.mkdir at refused
  repeat' split at refused
  all_goals cases refused
  all_goals rfl

theorem unlink_ok {p : Path ν} {after : Fs ν β} (removed : K.unlink fs p = (.ok (), after)) :
    ∃ here, ∃ leaf : isDir (fs.node here) = false, K.lookup fs false p = .ok here ∧
      fs.node here ≠ none ∧ after = fs.remove here leaf := by
  unfold Kernel.unlink at removed
  split at removed
  · cases removed
  · rename_i here found
    split at removed
    · cases removed
    · rename_i there
      split at removed
      · cases removed
      · split at removed
        · rename_i leaf
          cases removed
          exact ⟨here, leaf, found, there, rfl⟩
        · cases removed

theorem unlink_error {p : Path ν} {e : Errno} {after : Fs ν β}
    (refused : K.unlink fs p = (.error e, after)) : after = fs := by
  unfold Kernel.unlink at refused
  repeat' split at refused
  all_goals cases refused
  all_goals rfl

theorem replace_ok {old new : Path ν} {after : Fs ν β}
    (replaced : K.replace fs old new = (.ok (), after)) :
    ∃ source target, K.lookup fs false old = .ok source ∧ K.lookup fs false new = .ok target ∧
      new.named = true ∧ fs.node source ≠ none ∧
      ((fs.same source target ∧ after = fs) ∨
        ∃ (leaf : isDir (fs.node source) = false) (free : isDir (fs.node target) = false)
          (inside : isDir (fs.node target.tail) = true),
          K.refuses fs target = none ∧ after = fs.move source target leaf free inside) := by
  unfold Kernel.replace at replaced
  split at replaced
  · cases replaced
  · cases replaced
  · rename_i source target from_old from_new
    split at replaced
    · cases replaced
    · rename_i named
      split at replaced
      · cases replaced
      · rename_i there
        refine ⟨source, target, from_old, from_new, by simpa using named, there, ?_⟩
        split at replaced
        · rename_i same
          cases replaced
          exact .inl ⟨same, rfl⟩
        · split at replaced
          · cases replaced
          · cases replaced
          · rename_i free
            split at replaced
            · rename_i leaf
              cases replaced
              exact .inr ⟨leaf.1, leaf.2.1, leaf.2.2, free, rfl⟩
            · cases replaced

theorem replace_of_free {old new : Path ν} {source target : Place ν}
    (from_old : K.lookup fs false old = .ok source) (from_new : K.lookup fs false new = .ok target)
    (named : new.named = true) (there : fs.node source ≠ none) (leaf : isDir (fs.node source) = false)
    (free : isDir (fs.node target) = false) (inside : isDir (fs.node target.tail) = true)
    (given : K.refuses fs source = none) (taken : K.refuses fs target = none) :
    (K.replace fs old new).1 = .ok () := by
  unfold Kernel.replace
  rw [from_old, from_new]
  simp only [named, there, given, taken, leaf, free, inside, Bool.true_eq_false, if_false]
  split <;> rfl

theorem replace_error {old new : Path ν} {e : Errno} {after : Fs ν β}
    (refused : K.replace fs old new = (.error e, after)) : after = fs := by
  unfold Kernel.replace at refused
  repeat' split at refused
  all_goals cases refused
  all_goals rfl

end

section

variable {fs : Fs ν β} {K : Kernel ν}

theorem chmod_ok {p : Path ν} {mode : Nat} {after : Fs ν β}
    (changed : K.chmod fs p mode = (.ok (), after)) :
    ∃ here ino, K.stat fs p = .ok (here, .file ino) ∧
      after = fs.setFile ino { fs.file ino with
        rights := { (fs.file ino).rights with mode := K.granted (fs.file ino).rights.standing mode } } := by
  unfold Kernel.chmod at changed
  split at changed
  · cases changed
  · rename_i here ino found
    split at changed
    · cases changed
      exact ⟨here, ino, found, rfl⟩
    · cases changed
  · cases changed

theorem chmod_error {p : Path ν} {mode : Nat} {e : Errno} {after : Fs ν β}
    (refused : K.chmod fs p mode = (.error e, after)) : after = fs := by
  unfold Kernel.chmod at refused
  repeat' split at refused
  all_goals cases refused
  all_goals rfl

end

end Posix
