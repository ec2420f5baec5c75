import Mathlib.Data.List.Basic

/-!
A POSIX filesystem as one process sees it: places, entries, permission bits, and the
resolution of a path by the kernel.
-/

namespace Posix

inductive Errno
  | ENOENT | ENOTDIR | EISDIR | EEXIST | EACCES | EPERM | ELOOP | ENAMETOOLONG | EBUSY
  /-- Any other number, such as EIO or ENOSPC. -/
  | other (code : Nat)
  deriving DecidableEq

inductive Segment (ν : Type)
  | name (n : ν)
  | up
  deriving DecidableEq

/-- A path with its empty and `.` parts left out. -/
structure Path (ν : Type) where
  absolute : Bool
  parts : List (Segment ν)
  deriving DecidableEq

/-- Where an entry is: the names that lead to it as the filesystem compares them, the
innermost first. -/
abbrev Place (ν : Type) := List ν

structure Standing where
  owns : Bool
  member : Bool
  deriving DecidableEq

def Standing.owner : Standing := ⟨true, true⟩

def Standing.other : Standing := ⟨false, false⟩

structure Rights where
  mode : Nat
  standing : Standing
  deriving DecidableEq

def Standing.shift (s : Standing) : Nat := if s.owns then 6 else if s.member then 3 else 0

def Rights.write (r : Rights) : Bool := r.mode.testBit (r.standing.shift + 1)

def Rights.search (r : Rights) : Bool := r.mode.testBit r.standing.shift

def Rights.sticky (r : Rights) : Bool := r.mode.testBit 9

def setgid : Nat := 0o2000

def Rights.groups (r : Rights) : Bool := r.mode &&& setgid != 0

inductive Node (ν : Type)
  | dir (r : Rights)
  | file (ino : Nat)
  | link (target : Path ν) (r : Rights)
  deriving DecidableEq

structure File (β : Type) where
  content : List β
  rights : Rights

def isDir {ν : Type} : Option (Node ν) → Bool
  | some (.dir _) => true
  | _ => false

def isLink {ν : Type} : Option (Node ν) → Bool
  | some (.link _ _) => true
  | _ => false

structure Fs (ν β : Type) where
  node : Place ν → Option (Node ν)
  file : Nat → File β
  next : Nat
  rooted : isDir (node [])
  housed : ∀ n here, node (n :: here) ≠ none → isDir (node here)
  numbered : ∀ here ino, node here = some (.file ino) → ino < next

/-- What does not change while the process runs: the filesystem's rules on names, the
limit on links in one resolution, and the process's own part. -/
structure Kernel (ν : Type) where
  fold : ν → ν
  tooLong : ν → Bool
  links : Nat
  cwd : List ν
  privileged : Bool
  umask : Nat
  /-- How deep links may nest in a resolution outside the kernel. -/
  patience : Nat
  patient : links ≤ patience

variable {ν β : Type} (K : Kernel ν) (fs : Fs ν β)

def Kernel.place (names : List ν) : Place ν := (names.map K.fold).reverse

def Kernel.mayWrite (r : Rights) : Bool := K.privileged || r.write

def Kernel.maySearch (r : Rights) : Bool := K.privileged || r.search

def Kernel.opens (here : Place ν) : Except Errno Unit :=
  match fs.node here with
  | none => .error .ENOENT
  | some (.dir r) => if K.maySearch r then .ok () else .error .EACCES
  | some _ => .error .ENOTDIR

def Kernel.enter (here : Place ν) (n : ν) : Except Errno (Place ν) :=
  match K.opens fs here with
  | .error e => .error e
  | .ok () => if K.tooLong n then .error .ENAMETOOLONG else .ok (K.fold n :: here)

def Kernel.walkIn (follow : Bool) (onLink : Place ν → List (Segment ν) → Except Errno (Place ν)) :
    Place ν → List (Segment ν) → Except Errno (Place ν)
  | here, [] => .ok here
  | here, .up :: rest =>
    match K.opens fs here with
    | .error e => .error e
    | .ok () => Kernel.walkIn follow onLink here.tail rest
  | here, .name n :: rest =>
    match K.enter fs here n with
    | .error e => .error e
    | .ok next =>
      match fs.node next with
      | some (.link target _) =>
        if rest.isEmpty && !follow then .ok next
        else onLink (if target.absolute then [] else here) (target.parts ++ rest)
      | _ => Kernel.walkIn follow onLink next rest

def Kernel.walk (follow : Bool) : Nat → Place ν → List (Segment ν) → Except Errno (Place ν)
  | 0 => K.walkIn fs follow fun _ _ => .error .ELOOP
  | budget + 1 => K.walkIn fs follow (Kernel.walk follow budget)

def Kernel.start (p : Path ν) : Place ν := if p.absolute then [] else K.place K.cwd

def Kernel.lookup (follow : Bool) (p : Path ν) : Except Errno (Place ν) :=
  if isDir (fs.node (K.start p)) then K.walk fs follow K.links (K.start p) p.parts
  else .error .ENOENT

def Kernel.entry (follow : Bool) (p : Path ν) : Except Errno (Place ν × Node ν) :=
  match K.lookup fs follow p with
  | .error e => .error e
  | .ok here =>
    match fs.node here with
    | none => .error .ENOENT
    | some found => .ok (here, found)

/-- `os.stat`. -/
def Kernel.stat (p : Path ν) : Except Errno (Place ν × Node ν) := K.entry fs true p

/-- `os.lstat`. -/
def Kernel.lstat (p : Path ν) : Except Errno (Place ν × Node ν) := K.entry fs false p

def Fs.rights : Node ν → Rights
  | .dir r => r
  | .file ino => (fs.file ino).rights
  | .link _ r => r

def Path.parent (p : Path ν) : Path ν := { p with parts := p.parts.dropLast }

def Path.child (p : Path ν) (n : ν) : Path ν := { p with parts := p.parts ++ [.name n] }

@[simp] theorem Path.parent_child (p : Path ν) (n : ν) : (p.child n).parent = p := by
  simp [Path.parent, Path.child]

@[simp] theorem Path.child_absolute (p : Path ν) (n : ν) : (p.child n).absolute = p.absolute := rfl

@[simp] theorem Path.parent_absolute (p : Path ν) : p.parent.absolute = p.absolute := rfl

theorem isDir_iff {found : Option (Node ν)} : isDir found = true ↔ ∃ r, found = some (.dir r) := by
  rcases found with _ | (r | ino | ⟨target, r⟩) <;> simp [isDir]

theorem isLink_iff {found : Option (Node ν)} :
    isLink found = true ↔ ∃ target r, found = some (.link target r) := by
  rcases found with _ | (r | ino | ⟨target, r⟩) <;> simp [isLink]

theorem not_isLink_of_isDir {found : Option (Node ν)} (dir : isDir found) : isLink found = false := by
  obtain ⟨r, rfl⟩ := isDir_iff.mp dir
  rfl

section

variable {K} {fs}

@[simp] theorem walk_nil (follow : Bool) (budget : Nat) (here : Place ν) :
    K.walk fs follow budget here [] = .ok here := by
  cases budget <;> rfl

theorem opens_ok {here : Place ν} :
    K.opens fs here = .ok () ↔ ∃ r, fs.node here = some (.dir r) ∧ K.maySearch r = true := by
  unfold Kernel.opens
  rcases fs.node here with _ | (r | ino | ⟨target, r⟩)
  · simp
  · by_cases searchable : K.maySearch r <;> simp [searchable]
  · simp
  · simp

theorem enter_ok {here next : Place ν} {n : ν} (entered : K.enter fs here n = .ok next) :
    K.opens fs here = .ok () ∧ K.tooLong n = false ∧ next = K.fold n :: here := by
  unfold Kernel.enter at entered
  split at entered
  · cases entered
  · rename_i opened
    split at entered
    · cases entered
    · rename_i short
      exact ⟨opened, by simpa using short, by simpa using entered.symm⟩

theorem enter_of_opens {here : Place ν} {n : ν} (opened : K.opens fs here = .ok ())
    (short : K.tooLong n = false) : K.enter fs here n = .ok (K.fold n :: here) := by
  simp [Kernel.enter, opened, short]

variable (K) (fs) in
inductive Walks (follow : Bool) : Nat → Place ν → List (Segment ν) → Place ν → Prop
  | done (here : Place ν) : Walks follow 0 here [] here
  | up {count : Nat} {here final : Place ν} {rest : List (Segment ν)} (opened : K.opens fs here = .ok ())
      (further : Walks follow count here.tail rest final) : Walks follow count here (.up :: rest) final
  | name {count : Nat} {here next final : Place ν} {n : ν} {rest : List (Segment ν)}
      (entered : K.enter fs here n = .ok next) (plain : isLink (fs.node next) = false)
      (further : Walks follow count next rest final) : Walks follow count here (.name n :: rest) final
  | last {here next : Place ν} {n : ν} (entered : K.enter fs here n = .ok next)
      (found : isLink (fs.node next) = true) (kept : follow = false) :
      Walks follow 0 here [.name n] next
  | link {count : Nat} {here next final : Place ν} {n : ν} {rest : List (Segment ν)} {target : Path ν}
      {r : Rights} (entered : K.enter fs here n = .ok next)
      (found : fs.node next = some (.link target r)) (followed : rest ≠ [] ∨ follow = true)
      (further : Walks follow count (if target.absolute then [] else here) (target.parts ++ rest) final) :
      Walks follow (count + 1) here (.name n :: rest) final

variable {follow : Bool}

theorem walkIn_ok {onLink : Place ν → List (Segment ν) → Except Errno (Place ν)} {budget : Nat}
    (linked : ∀ here ps final, onLink here ps = .ok final →
      ∃ count < budget, Walks K fs follow count here ps final)
    {here final : Place ν} {ps : List (Segment ν)}
    (walked : K.walkIn fs follow onLink here ps = .ok final) :
    ∃ count ≤ budget, Walks K fs follow count here ps final := by
  induction ps generalizing here with
  | nil =>
      simp only [Kernel.walkIn, Except.ok.injEq] at walked
      exact ⟨0, Nat.zero_le _, walked ▸ .done here⟩
  | cons part rest ih =>
      cases part with
      | up =>
          simp only [Kernel.walkIn] at walked
          split at walked
          · cases walked
          · rename_i opened
            obtain ⟨count, within, further⟩ := ih walked
            exact ⟨count, within, .up opened further⟩
      | name n =>
          simp only [Kernel.walkIn] at walked
          split at walked
          · cases walked
          · rename_i next entered
            split at walked
            · rename_i target r found
              split at walked
              · rename_i stops
                obtain ⟨empty, kept⟩ : rest = [] ∧ follow = false := by simpa using stops
                simp only [Except.ok.injEq] at walked
                subst walked empty
                exact ⟨0, Nat.zero_le _, .last entered (by simp [isLink, found]) kept⟩
              · rename_i goes
                obtain ⟨count, within, further⟩ := linked _ _ _ walked
                refine ⟨count + 1, within, .link entered found ?_ further⟩
                by_contra stops
                apply goes
                push Not at stops
                simp [stops.1, stops.2]
            · rename_i plain
              obtain ⟨count, within, further⟩ := ih walked
              refine ⟨count, within, .name entered ?_ further⟩
              by_contra isALink
              obtain ⟨target, r, found⟩ := isLink_iff.mp (by simpa using isALink)
              exact plain target r found

theorem walk_ok {budget : Nat} {here final : Place ν} {ps : List (Segment ν)}
    (walked : K.walk fs follow budget here ps = .ok final) :
    ∃ count ≤ budget, Walks K fs follow count here ps final := by
  induction budget generalizing here ps final with
  | zero => exact walkIn_ok (fun _ _ _ impossible => by cases impossible) walked
  | succ budget ih =>
      refine walkIn_ok (fun here ps final walked => ?_) walked
      obtain ⟨count, within, walks⟩ := ih walked
      exact ⟨count, Nat.lt_succ_of_le within, walks⟩

theorem Walks.walk {count budget : Nat} {here final : Place ν} {ps : List (Segment ν)}
    (walks : Walks K fs follow count here ps final) (within : count ≤ budget) :
    K.walk fs follow budget here ps = .ok final := by
  induction walks generalizing budget with
  | done here => cases budget <;> rfl
  | up opened further ih =>
      have rest := ih within
      cases budget <;> simpa [Kernel.walk, Kernel.walkIn, opened] using rest
  | @name count here next final n rest entered plain further ih =>
      have later := ih within
      have same : ∀ onLink : Place ν → List (Segment ν) → Except Errno (Place ν),
          K.walkIn fs follow onLink here (.name n :: rest) = K.walkIn fs follow onLink next rest := by
        intro onLink
        simp only [Kernel.walkIn, entered]
        split
        · rename_i found
          simp [isLink, found] at plain
        · rfl
      cases budget <;> simpa [Kernel.walk, same] using later
  | @last here next n entered found kept =>
      obtain ⟨target, r, found⟩ := isLink_iff.mp found
      cases budget <;> simp [Kernel.walk, Kernel.walkIn, entered, found, kept]
  | @link count here next final n rest target r entered found followed further ih =>
      cases budget with
      | zero => simp at within
      | succ budget =>
          have later := ih (Nat.le_of_succ_le_succ within)
          have goes : (rest.isEmpty && !follow) = false := by
            rcases followed with nonempty | following
            · simp [nonempty]
            · simp [following]
          simp only [Kernel.walk, Kernel.walkIn, entered, found, goes]
          exact later

theorem Walks.unique {count count' : Nat} {here final final' : Place ν} {ps : List (Segment ν)}
    (walks : Walks K fs follow count here ps final) (again : Walks K fs follow count' here ps final') :
    count = count' ∧ final = final' := by
  induction walks generalizing count' final' with
  | done here =>
      cases again
      exact ⟨rfl, rfl⟩
  | up opened further ih =>
      cases again with
      | up opened' further' => exact ih further'
  | name entered plain further ih =>
      cases again with
      | name entered' plain' further' =>
          cases entered.symm.trans entered'
          exact ih further'
      | last entered' found' kept' =>
          cases entered.symm.trans entered'
          simp [plain] at found'
      | link entered' found' followed' further' =>
          cases entered.symm.trans entered'
          simp [isLink, found'] at plain
  | last entered found kept =>
      cases again with
      | name entered' plain' further' =>
          cases entered.symm.trans entered'
          simp [found] at plain'
      | last entered' found' kept' =>
          cases entered.symm.trans entered'
          exact ⟨rfl, rfl⟩
      | link entered' found' followed' further' =>
          simp [kept] at followed'
  | link entered found followed further ih =>
      cases again with
      | name entered' plain' further' =>
          cases entered.symm.trans entered'
          simp [isLink, found] at plain'
      | last entered' found' kept' =>
          simp [kept'] at followed
      | link entered' found' followed' further' =>
          cases entered.symm.trans entered'
          cases found.symm.trans found'
          obtain ⟨same, sameFinal⟩ := ih further'
          exact ⟨by omega, sameFinal⟩

theorem not_isLink_of_opens {here : Place ν} (opened : K.opens fs here = .ok ()) :
    isLink (fs.node here) = false := by
  obtain ⟨r, found, _⟩ := opens_ok.mp opened
  rw [found]
  rfl

theorem isDir_of_opens {here : Place ν} (opened : K.opens fs here = .ok ()) :
    isDir (fs.node here) = true := by
  obtain ⟨r, found, _⟩ := opens_ok.mp opened
  rw [found]
  rfl

theorem isDir_tail (fs : Fs ν β) {here : Place ν} (dir : isDir (fs.node here) = true) :
    isDir (fs.node here.tail) = true := by
  cases here with
  | nil => exact fs.rooted
  | cons n here =>
      apply fs.housed n here
      intro missing
      simp [missing, isDir] at dir

theorem Walks.not_isLink {count : Nat} {here final : Place ν} {ps : List (Segment ν)}
    (walks : Walks K fs true count here ps final) (plain : isLink (fs.node here) = false) :
    isLink (fs.node final) = false := by
  generalize following : true = follow at walks
  induction walks with
  | done here => exact plain
  | up opened further ih =>
      exact ih (not_isLink_of_isDir (isDir_tail fs (isDir_of_opens opened)))
  | name entered passed further ih => exact ih passed
  | last entered found kept => simp [kept] at following
  | link entered found followed further ih =>
      apply ih
      split
      · exact not_isLink_of_isDir fs.rooted
      · exact not_isLink_of_opens (enter_ok entered).1

def Keeps (fs fs' : Fs ν β) : Prop :=
  ∀ here, isDir (fs.node here) = true ∨ isLink (fs.node here) = true → fs'.node here = fs.node here

theorem keeps_of_missing {fs' : Fs ν β} {here : Place ν} (missing : fs.node here = none)
    (rest : ∀ k, k ≠ here → fs'.node k = fs.node k) : Keeps fs fs' := by
  intro k there
  apply rest
  rintro rfl
  simp [missing, isDir, isLink] at there

theorem Keeps.opens {fs' : Fs ν β} (keeps : Keeps fs fs') {here : Place ν}
    (opened : K.opens fs here = .ok ()) : K.opens fs' here = .ok () := by
  have same := keeps here (.inl (isDir_of_opens opened))
  rw [opens_ok] at opened ⊢
  rw [same]
  exact opened

theorem Keeps.enter {fs' : Fs ν β} (keeps : Keeps fs fs') {here next : Place ν} {n : ν}
    (entered : K.enter fs here n = .ok next) : K.enter fs' here n = .ok next := by
  obtain ⟨opened, short, rfl⟩ := enter_ok entered
  exact enter_of_opens (keeps.opens opened) short

/-- A resolution that succeeds still does, to the same place, where no link has come to
stand at its end. -/
theorem Walks.keeps {fs' : Fs ν β} (keeps : Keeps fs fs') {count : Nat} {here final : Place ν}
    {ps : List (Segment ν)} (walks : Walks K fs follow count here ps final)
    (ends : isLink (fs'.node final) = true → isLink (fs.node final) = true) :
    Walks K fs' follow count here ps final := by
  induction walks with
  | done here => exact .done here
  | up opened further ih => exact .up (keeps.opens opened) (ih ends)
  | @name count here next final n rest entered plain further ih =>
      refine .name (keeps.enter entered) ?_ (ih ends)
      cases further with
      | done =>
          by_contra found
          simp [ends (by simpa using found)] at plain
      | up opened further =>
          rw [keeps next (.inl (isDir_of_opens opened))]
          exact plain
      | name entered' plain' further' =>
          rw [keeps next (.inl (isDir_of_opens (enter_ok entered').1))]
          exact plain
      | last entered' found' kept' =>
          rw [keeps next (.inl (isDir_of_opens (enter_ok entered').1))]
          exact plain
      | link entered' found' followed' further' =>
          rw [keeps next (.inl (isDir_of_opens (enter_ok entered').1))]
          exact plain
  | @last here next n entered found kept =>
      refine .last (keeps.enter entered) ?_ kept
      rw [keeps next (.inr found)]
      exact found
  | @link count here next final n rest target r entered found followed further ih =>
      have stays : fs'.node next = some (.link target r) := by
        rw [keeps next (.inr (by simp [isLink, found]))]
        exact found
      exact .link (keeps.enter entered) stays followed (ih ends)

/-- Only on a link do the two kinds of resolution differ. -/
theorem walkIn_follow {onLink onLink' : Place ν → List (Segment ν) → Except Errno (Place ν)}
    (linked : ∀ here ps, (∀ final, onLink here ps = .ok final → isLink (fs.node final) = false) →
      onLink' here ps = onLink here ps)
    (here : Place ν) (ps : List (Segment ν))
    (plain : ∀ final, K.walkIn fs false onLink here ps = .ok final → isLink (fs.node final) = false) :
    K.walkIn fs true onLink' here ps = K.walkIn fs false onLink here ps := by
  induction ps generalizing here with
  | nil => rfl
  | cons part rest ih =>
      cases part with
      | up =>
          simp only [Kernel.walkIn] at plain ⊢
          split
          · rfl
          · rename_i opened
            simp only [opened] at plain
            exact ih _ plain
      | name n =>
          simp only [Kernel.walkIn] at plain ⊢
          split
          · rfl
          · rename_i next entered
            simp only [entered] at plain
            split
            · rename_i target r found
              simp only [found] at plain
              cases rest with
              | nil =>
                  have isALink := plain next rfl
                  simp [isLink, found] at isALink
              | cons second others =>
                  simp only [List.isEmpty_cons, Bool.false_and, Bool.false_eq_true, if_false] at plain ⊢
                  exact linked _ _ plain
            · rename_i notLink
              apply ih
              intro final walked
              apply plain
              split
              · rename_i target r found
                exact absurd found (notLink target r)
              · exact walked

theorem walk_follow (budget : Nat) (here : Place ν) (ps : List (Segment ν))
    (plain : ∀ final, K.walk fs false budget here ps = .ok final → isLink (fs.node final) = false) :
    K.walk fs true budget here ps = K.walk fs false budget here ps := by
  induction budget generalizing here ps with
  | zero => exact walkIn_follow (fun _ _ _ => rfl) here ps plain
  | succ budget ih => exact walkIn_follow ih here ps plain

variable (K) (fs) in
def Kernel.pass (here : Place ν) : Segment ν → Except Errno (Place ν)
  | .name n => K.enter fs here n
  | .up =>
    match K.opens fs here with
    | .error e => .error e
    | .ok () => .ok here.tail

/-- The last part is looked up where the parts before it lead. -/
theorem walkIn_snoc {onLink onLink' : Place ν → List (Segment ν) → Except Errno (Place ν)} {last : Segment ν}
    (linked : ∀ here ps, onLink here (ps ++ [last]) =
      match onLink' here ps with
      | .error e => .error e
      | .ok middle => K.pass fs middle last)
    (here : Place ν) (ps : List (Segment ν)) :
    K.walkIn fs false onLink here (ps ++ [last]) =
      match K.walkIn fs true onLink' here ps with
      | .error e => .error e
      | .ok middle => K.pass fs middle last := by
  induction ps generalizing here with
  | nil =>
      cases last with
      | up => rfl
      | name n =>
          simp only [List.nil_append, Kernel.walkIn, Kernel.pass]
          cases K.enter fs here n with
          | error e => rfl
          | ok next =>
              simp only [List.isEmpty_nil, Bool.not_false, Bool.and_self, if_true]
              split <;> rfl
  | cons part rest ih =>
      cases part with
      | up =>
          simp only [List.cons_append, Kernel.walkIn]
          cases K.opens fs here with
          | error e => rfl
          | ok _ => exact ih _
      | name m =>
          simp only [List.cons_append, Kernel.walkIn]
          cases K.enter fs here m with
          | error e => rfl
          | ok next =>
              dsimp only
              split
              · rename_i target r found
                have nonempty : (rest ++ [last]).isEmpty = false := by simp
                simp only [nonempty, Bool.false_and, Bool.not_true, Bool.and_false, Bool.false_eq_true,
                  if_false, ← List.append_assoc]
                exact linked _ _
              · rename_i notLink
                exact ih _

theorem walk_snoc (budget : Nat) (here : Place ν) (ps : List (Segment ν)) (last : Segment ν) :
    K.walk fs false budget here (ps ++ [last]) =
      match K.walk fs true budget here ps with
      | .error e => .error e
      | .ok middle => K.pass fs middle last := by
  induction budget generalizing here ps with
  | zero => exact walkIn_snoc (fun _ _ => rfl) here ps
  | succ budget ih => exact walkIn_snoc ih here ps

theorem lookup_snoc (absolute : Bool) (ps : List (Segment ν)) (last : Segment ν) :
    K.lookup fs false ⟨absolute, ps ++ [last]⟩ =
      match K.lookup fs true ⟨absolute, ps⟩ with
      | .error e => .error e
      | .ok middle => K.pass fs middle last := by
  have same : K.start ⟨absolute, ps ++ [last]⟩ = K.start ⟨absolute, ps⟩ := rfl
  simp only [Kernel.lookup, same]
  split
  · exact walk_snoc _ _ _ last
  · rfl

theorem lookup_child (p : Path ν) (n : ν) :
    K.lookup fs false (p.child n) =
      match K.lookup fs true p with
      | .error e => .error e
      | .ok middle => K.enter fs middle n :=
  lookup_snoc p.absolute p.parts (.name n)

theorem opens_of_pass {here next : Place ν} {part : Segment ν} (passed : K.pass fs here part = .ok next) :
    K.opens fs here = .ok () := by
  cases part with
  | name n => exact (enter_ok passed).1
  | up =>
      simp only [Kernel.pass] at passed
      split at passed
      · cases passed
      · assumption

theorem pass_missing {here : Place ν} (missing : fs.node here = none) (part : Segment ν) :
    K.pass fs here part = .error .ENOENT := by
  have shut : K.opens fs here = .error .ENOENT := by simp [Kernel.opens, missing]
  cases part with
  | name n => simp [Kernel.pass, Kernel.enter, shut]
  | up => simp [Kernel.pass, shut]

theorem Path.eq_child {p : Path ν} {n : ν} (last : p.parts.getLast? = some (.name n)) :
    p = p.parent.child n := by
  obtain ⟨front, parts⟩ := List.getLast?_eq_some_iff.mp last
  cases p
  simp_all [Path.parent, Path.child]

theorem lookup_follow {p : Path ν}
    (plain : ∀ final, K.lookup fs false p = .ok final → isLink (fs.node final) = false) :
    K.lookup fs true p = K.lookup fs false p := by
  simp only [Kernel.lookup] at plain ⊢
  split
  · rename_i dir
    simp only [dir] at plain
    exact walk_follow _ _ _ plain
  · rfl

theorem lookup_not_isLink {p : Path ν} {final : Place ν} (found : K.lookup fs true p = .ok final) :
    isLink (fs.node final) = false := by
  simp only [Kernel.lookup] at found
  split at found
  · rename_i dir
    obtain ⟨count, _, walks⟩ := walk_ok found
    exact walks.not_isLink (not_isLink_of_isDir dir)
  · cases found

theorem lookup_keeps {fs' : Fs ν β} (keeps : Keeps fs fs') {p : Path ν} {final : Place ν}
    (found : K.lookup fs follow p = .ok final)
    (ends : isLink (fs'.node final) = true → isLink (fs.node final) = true) :
    K.lookup fs' follow p = .ok final := by
  simp only [Kernel.lookup] at found ⊢
  split at found
  · rename_i dir
    obtain ⟨count, within, walks⟩ := walk_ok found
    rw [keeps _ (.inl dir), if_pos dir]
    exact (walks.keeps keeps ends).walk within
  · cases found

theorem entry_ok {p : Path ν} {here : Place ν} {found : Node ν} :
    K.entry fs follow p = .ok (here, found) ↔
      K.lookup fs follow p = .ok here ∧ fs.node here = some found := by
  unfold Kernel.entry
  constructor
  · intro entered
    split at entered
    · cases entered
    · rename_i final looked
      split at entered
      · cases entered
      · rename_i node there
        cases entered
        exact ⟨looked, there⟩
  · rintro ⟨looked, there⟩
    simp [looked, there]

structure Alike (fs fs' : Fs ν β) : Prop where
  there : Keeps fs fs'
  back : Keeps fs' fs

theorem Alike.isLink {fs' : Fs ν β} (alike : Alike fs fs') (here : Place ν) :
    isLink (fs'.node here) = isLink (fs.node here) := by
  by_cases link : Posix.isLink (fs.node here) = true
  · rw [alike.there here (.inr link)]
  · by_cases link' : Posix.isLink (fs'.node here) = true
    · rw [alike.back here (.inr link')]
    · simp only [Bool.not_eq_true] at link link'
      rw [link, link']

theorem Alike.lookup {fs' : Fs ν β} (alike : Alike fs fs') {p : Path ν} {here : Place ν} :
    K.lookup fs' follow p = .ok here ↔ K.lookup fs follow p = .ok here :=
  ⟨fun found => lookup_keeps alike.back found fun link => by rwa [alike.isLink],
    fun found => lookup_keeps alike.there found fun link => by rwa [← alike.isLink]⟩

theorem Alike.link {fs' : Fs ν β} (alike : Alike fs fs') {p target : Path ν} {here : Place ν} {r : Rights} :
    K.lstat fs' p = .ok (here, .link target r) ↔ K.lstat fs p = .ok (here, .link target r) := by
  have same : fs'.node here = some (.link target r) ↔ fs.node here = some (.link target r) := by
    constructor
    · intro found
      rw [alike.back here (.inr (by rw [found]; rfl)), found]
    · intro found
      rw [alike.there here (.inr (by rw [found]; rfl)), found]
  rw [Kernel.lstat, Kernel.lstat, entry_ok, entry_ok, alike.lookup, same]

theorem lookup_exists {p : Path ν} {here : Place ν} (found : K.lookup fs true p = .ok here)
    (there : fs.node here ≠ none) :
    ∃ listed, K.lookup fs false p = .ok listed ∧ fs.node listed ≠ none := by
  by_contra none
  push Not at none
  have plain : ∀ final, K.lookup fs false p = .ok final → isLink (fs.node final) = false := by
    intro final listed
    rw [none final listed]
    rfl
  rw [lookup_follow plain] at found
  exact there (none here found)

section

variable {fs' : Fs ν β} (same : fs'.node = fs.node)

include same

theorem opens_congr (here : Place ν) : K.opens fs' here = K.opens fs here := by
  simp only [Kernel.opens, same]

theorem enter_congr (here : Place ν) (n : ν) : K.enter fs' here n = K.enter fs here n := by
  simp only [Kernel.enter, opens_congr same]

theorem walkIn_congr (follow : Bool) (onLink : Place ν → List (Segment ν) → Except Errno (Place ν))
    (here : Place ν) (ps : List (Segment ν)) :
    K.walkIn fs' follow onLink here ps = K.walkIn fs follow onLink here ps := by
  induction ps generalizing here with
  | nil => rfl
  | cons part rest ih => cases part <;> simp only [Kernel.walkIn, opens_congr same, enter_congr same, ih, same]

theorem walk_congr (follow : Bool) (budget : Nat) : K.walk fs' follow budget = K.walk fs follow budget := by
  induction budget with
  | zero => exact funext fun here => funext fun ps => walkIn_congr same follow _ here ps
  | succ budget ih =>
      funext here ps
      simp only [Kernel.walk, ih, walkIn_congr same]

theorem lookup_congr (follow : Bool) (p : Path ν) : K.lookup fs' follow p = K.lookup fs follow p := by
  simp only [Kernel.lookup, same, walk_congr same]

theorem entry_congr (follow : Bool) (p : Path ν) : K.entry fs' follow p = K.entry fs follow p := by
  simp only [Kernel.entry, same, lookup_congr same]

end

end

end Posix
