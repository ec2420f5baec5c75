import AsyncPipelines.IoUtils.OutputPair

/-!
The file derived beside a report: `sibling_path` and `_aliases` of `io_utils.py`, with
`_json_path_for` and `_resolve_out_paths` of the benchmark scripts.
-/

namespace AsyncPipelines

open Posix

def dot : PyChar := .scalar '.'

/-- `str.rfind('.')`. -/
def rfindDot (n : Name) : Option Nat :=
  let back := (n.reverse.takeWhile (· ≠ dot)).length
  if back = n.length then none else some (n.length - 1 - back)

/-- `Path.suffix` of a path with this name. -/
def nameSuffix (n : Name) : Name :=
  match rfindDot n with
  | none => []
  | some i => if 0 < i ∧ i < n.length - 1 then n.drop i else []

def nameStem (n : Name) : Name := n.take (n.length - (nameSuffix n).length)

/-- `Path.with_suffix`. -/
def withSuffix (p : PyPath) (suffix : Name) : PyPath :=
  p.parent.child (nameStem (pathName p) ++ suffix)

/-- `str.lower`, as far as the letters of `.md` and `.json` go. -/
def PyChar.lower : PyChar → PyChar
  | .scalar c => .scalar c.toLower
  | .escaped byte => .escaped byte

def lowerName (n : Name) : Name := n.map PyChar.lower

section

variable (S : System)

/-- `_aliases`. -/
def aliases (a b : PyPath) : Io Bool := do
  if ← pathIsDir S a.parent then
    match ← (sameFile S a b).attempt with
    | .ok answer => return answer
    | .error e => if e.isOs then return false else .fail e
  else return false

/-- `sibling_path`. -/
def siblingPath (p : PyPath) (own other : Name) : Io PyPath := do
  if nameSuffix (pathName p) = own then return withSuffix p other
  else if lowerName (nameSuffix (pathName p)) = lowerName own then
    if ← aliases S p (withSuffix p own) then return withSuffix p other
    else return p.parent.child (pathName p ++ other)
  else return p.parent.child (pathName p ++ other)

def mdSuffix : Name := Name.ofString ".md"

def jsonSuffix : Name := Name.ofString ".json"

/-- `_json_path_for`. -/
def jsonPathFor (outPath : PyPath) : Io PyPath := siblingPath S outPath mdSuffix jsonSuffix

/-- `_DEFAULT_OUT_MD`. -/
def defaultOutMd : PyPath := ⟨false, [.name (Name.ofString "docs"), .name (Name.ofString "backpressure.md")]⟩

/-- `_DEFAULT_OUT_JSON`. -/
def defaultOutJson : PyPath :=
  ⟨false, [.name (Name.ofString "docs"), .name (Name.ofString "backpressure.json")]⟩

/-- `_resolve_out_paths`. -/
def resolveOutPaths (outMd outJson : Option PyPath) : Io (PyPath × PyPath) :=
  match outMd, outJson with
  | none, none => return (defaultOutMd, defaultOutJson)
  | some md, some json => return (md, json)
  | some given, none =>
    if pathName given = [] then .fail .value
    else do
      let derived ← siblingPath S given mdSuffix jsonSuffix
      return (given, derived)
  | none, some given =>
    if pathName given = [] then .fail .value
    else do
      let derived ← siblingPath S given jsonSuffix mdSuffix
      return (derived, given)

end

def variantPlace (S : System) (p : PyPath) (suffix : Name) (d : Place Name) : Place Name :=
  S.fold (nameStem (pathName p) ++ suffix) :: d

/-- No link is involved in a path: none is followed on the way to its directory, none stands
there under its name with whatever suffix, and no two of these entries are one file. -/
structure Unlinked (S : System) (fs : Disk) (p : PyPath) : Prop where
  straight : ∀ d, S.lookup fs true p.parent = .ok d → Straight S.toKernel fs p.parent d
  plain : ∀ d suffix, S.lookup fs true p.parent = .ok d →
    isLink (fs.node (variantPlace S p suffix d)) = false
  single : ∀ d suffix suffix' i, S.lookup fs true p.parent = .ok d →
    fs.node (variantPlace S p suffix d) = some (.file i) →
    fs.node (variantPlace S p suffix' d) = some (.file i) →
    variantPlace S p suffix d = variantPlace S p suffix' d

/-- The path names a file in an existing directory, at this place. -/
def Names (S : System) (fs : Disk) (p : PyPath) (k : Place Name) : Prop :=
  p.named = true ∧ ∃ d, S.lookup fs true p.parent = .ok d ∧ isDir (fs.node d) = true ∧
    k = S.fold (pathName p) :: d

/-- The filesystem compares names letter by letter, each for what it stands for, and tells
the two suffixes apart. -/
structure Letterwise (S : System) : Prop where
  letters : ∃ letter : PyChar → Name, (∀ c, letter c ≠ []) ∧ ∀ n, S.fold n = n.flatMap letter
  apart : S.fold mdSuffix ≠ S.fold jsonSuffix

/-- The suffix is the path's own, or a case variant that the filesystem takes for it. -/
def Swaps (S : System) (fs : Disk) (p : PyPath) (own : Name) : Prop :=
  nameSuffix (pathName p) = own ∨
    (lowerName (nameSuffix (pathName p)) = lowerName own ∧
      ((aliases S p (withSuffix p own)).run fs).1 = .ok true)

def SiblingName (S : System) (fs : Disk) (p : PyPath) (own other n : Name) : Prop :=
  Swaps S fs p own ∧ n = nameStem (pathName p) ++ other ∨ ¬ Swaps S fs p own ∧ n = pathName p ++ other

def OneFile (S : System) (fs : Disk) (p q : PyPath) : Prop := ∃ k, Names S fs p k ∧ Names S fs q k

def SuffixPair (own other : Name) : Prop :=
  own = mdSuffix ∧ other = jsonSuffix ∨ own = jsonSuffix ∧ other = mdSuffix

/-- The name of `q` is the name of `p` without its suffix, and only the suffix of `p` is
swapped. -/
def Crossed (S : System) (fs : Disk) (own : Name) (p q : PyPath) : Prop :=
  Swaps S fs p own ∧ ¬ Swaps S fs q own ∧
    (∃ d, S.lookup fs true p.parent = .ok d ∧ S.lookup fs true q.parent = .ok d) ∧
    S.fold (nameStem (pathName p)) = S.fold (pathName q)

section

variable {S : System} {fs g h : Disk} {p q : PyPath} {own other : Name} {n m : Name}

theorem named_child (p : PyPath) (n : Name) : (p.child n).named = true := by
  simp [Path.named, Path.child]

theorem names_child {k : Place Name} :
    Names S fs (p.child n) k ↔ ∃ d, S.lookup fs true p = .ok d ∧ isDir (fs.node d) = true ∧
      k = S.fold n :: d := by
  simp [Names, named_child, pathName_child]

theorem stem_append_suffix (n : Name) : nameStem n ++ nameSuffix n = n := by
  unfold nameStem nameSuffix
  split
  · simp
  · rename_i i _
    split
    · rename_i inside
      have length : n.length - (n.drop i).length = i := by
        rw [List.length_drop]
        omega
      rw [length, List.take_append_drop]
    · simp

structure Plain (S : System) (g : Disk) (d : Place Name) (n m : Name) : Prop where
  dir : isDir (g.node d) = true
  first : isLink (g.node (S.fold n :: d)) = false
  second : isLink (g.node (S.fold m :: d)) = false
  single : ∀ i, g.node (S.fold n :: d) = some (.file i) → g.node (S.fold m :: d) = some (.file i) →
    S.fold n = S.fold m

theorem Plain.held {c d : Place Name} (plain : Plain S g d n m) (held : Held S g c h) :
    Plain S h d n m := by
  have link : ∀ k, isLink (g.node k) = false → isLink (h.node k) = false := by
    intro k before
    rw [held.node]
    split
    · rfl
    · exact before
  refine ⟨?_, link _ plain.first, link _ plain.second, fun i one other => ?_⟩
  · rw [held.node]
    split
    · rename_i here
      have dir := plain.dir
      rw [here, held.missing] at dir
      cases dir
    · exact plain.dir
  · have known : ∀ {l : Place Name}, h.node l = some (.file i) →
        l = c ∧ i = g.next ∨ g.node l = some (.file i) := by
      intro l there
      rw [held.node] at there
      split at there
      · rename_i here
        cases there
        exact .inl ⟨here, rfl⟩
      · exact .inr there
    rcases known one with ⟨here, rfl⟩ | old
    · rcases known other with ⟨here', _⟩ | old
      · exact (List.cons.inj (here.trans here'.symm)).1
      · exact absurd (g.numbered _ _ old) (Nat.lt_irrefl _)
    · rcases known other with ⟨_, rfl⟩ | old'
      · exact absurd (g.numbered _ _ old) (Nat.lt_irrefl _)
      · exact plain.single i old old'

theorem realpath_child {d : Place Name} (straight : Straight S.toKernel g q d)
    (begins : Begins S.toKernel g q) :
    ∃ names : List Name, names.map S.fold = d ∧
      ∀ n, isLink (g.node (S.fold n :: d)) = false → S.realpath g (q.child n) = spell (n :: names) := by
  have starts : Begins S.toKernel g ⟨q.absolute, []⟩ := begins
  have fresh : ∀ p ∈ ([] : List PyPath), ∀ total middle,
      Walks S.toKernel g true total (S.start p) p.parts middle → 0 < total := by simp
  obtain ⟨r, joined, there, begins', _⟩ :=
    joinRealpath_walks (Nat.zero_le S.patience) fresh starts (.done _) straight
  obtain ⟨onLink, joins⟩ : ∃ onLink, S.joinRealpath g S.patience [] = S.joinIn g onLink := by
    cases S.patience with
    | zero => exact ⟨_, rfl⟩
    | succ depth => exact ⟨_, rfl⟩
  rw [joins] at joined
  have start : S.start r = (if r.absolute then [] else S.cwd.reverse).map S.fold := by
    unfold Kernel.start
    split
    · rfl
    · exact (List.map_reverse ..).symm
  have walks : Walks S.toKernel g true 0 (S.start r) r.parts d := there
  rw [start] at walks
  refine ⟨collapse (if r.absolute then [] else S.cwd.reverse) r.parts, collapse_place walks, ?_⟩
  intro n plain
  have last : ∀ here, S.lookup g false (r.child n) = .ok here → isLink (g.node here) = false := by
    intro here looked
    rw [lookup_child, there.lookup begins'] at looked
    obtain ⟨_, _, rfl⟩ := enter_ok looked
    exact plain
  have whole : S.joinRealpath g S.patience [] ⟨q.absolute, []⟩ (q.parts ++ [.name n]) =
      (r.child n, true) := by
    rw [joins, joinIn_append [.name n] joined, joinIn_plain onLink last]
  unfold Kernel.realpath
  rw [Path.child_absolute, show (q.child n).parts = q.parts ++ [.name n] from rfl, whole]
  simp only [Kernel.abspath, Path.child, collapse_append]
  rfl

theorem samefile_names {names : List Name} (plain : Plain S g (names.map S.fold) n m)
    (ran : (samefile S (spell (n :: names)) (spell (m :: names))).run g = (.ok true, h)) :
    S.fold n = S.fold m := by
  simp only [samefile, Program.run_bind, Io.run_ask] at ran
  cases first : S.stat g (spell (n :: names)) with
  | error e =>
      rw [first] at ran
      cases ran
  | ok found =>
      cases second : S.stat g (spell (m :: names)) with
      | error e =>
          simp only [first, second, Except.mapError] at ran
          cases ran
      | ok found' =>
          obtain ⟨here, entry⟩ := found
          obtain ⟨here', entry'⟩ := found'
          obtain ⟨looked, there⟩ := entry_ok.mp first
          obtain ⟨looked', there'⟩ := entry_ok.mp second
          obtain rfl := lookup_spell plain.dir plain.first looked
          obtain rfl := lookup_spell plain.dir plain.second looked'
          simp only [first, second, Except.mapError, Prod.mk.injEq, Except.ok.injEq,
            decide_eq_true_eq] at ran
          rcases ran.1 with same | ⟨i, one, other⟩
          · exact (List.cons.inj same).1
          · exact plain.single i one other

/-- Where no link is involved `same_file` takes two names in one directory for one only if they
are the same to the filesystem. -/
theorem sameFile_names {d : Place Name} (leads : S.lookup g true q = .ok d)
    (straight : Straight S.toKernel g q d) (plain : Plain S g d n m)
    (answer : ((sameFile S (q.child n) (q.child m)).run g).1 = .ok true) : S.fold n = S.fold m := by
  have begins : Begins S.toKernel g q := by
    simp only [Kernel.lookup] at leads
    split at leads
    · assumption
    · cases leads
  obtain ⟨names, rfl, spelled⟩ := realpath_child straight begins
  have first := spelled n plain.first
  have second := spelled m plain.second
  by_cases differ : S.realpath g (q.child n) = S.realpath g (q.child m)
  · rw [first, second] at differ
    have same : n = m := by simpa [spell] using differ
    rw [same]
  by_cases there : (S.stat g (S.realpath g (q.child n))).isOk = true <;>
    by_cases there' : (S.stat g (S.realpath g (q.child m))).isOk = true
  · simp only [sameFile, Program.run_bind, Io.run_ask, Except.mapError, differ, if_false, run_pathExists,
      there, there', Bool.and_self, if_true] at answer
    rw [first, second] at answer
    exact samefile_names plain (Prod.ext answer rfl)
  · simp [sameFile, Program.run_bind, Io.run_ask, Except.mapError, differ, run_pathExists, there,
      there'] at answer
  · simp [sameFile, Program.run_bind, Io.run_ask, Except.mapError, differ, run_pathExists, there,
      there'] at answer
  · rcases run_sameFile_missing rfl rfl differ (by simpa using there) (by simpa using there') with
      ⟨e, failed⟩ | ⟨c, held, after, _, isHeld, _, _, ended⟩
    · rw [failed] at answer
      cases answer
    · rw [ended] at answer
      simp only [probe, Program.run_bind, run_pathExists] at answer
      cases appeared : (S.stat held (S.realpath g (q.child m))).isOk with
      | false => simp [appeared] at answer
      | true =>
          simp only [appeared, if_true] at answer
          rw [first, second] at answer
          exact samefile_names (plain.held isHeld) (Prod.ext answer rfl)

def OsOnly {α : Type} (program : Io α) : Prop := ∀ g e, (program.run g).1 = .error e → e.isOs = true

theorem OsOnly.bind {α β : Type} {program : Io α} {f : α → Io β} (first : OsOnly program)
    (later : ∀ a, OsOnly (f a)) : OsOnly (program >>= f) := by
  intro g e raised
  rw [Program.run_bind] at raised
  split at raised
  · exact later _ _ e raised
  · rename_i e' after ran
    cases raised
    exact first g e (by rw [ran])

theorem osOnly_os {α : Type} (effect : Disk → Except Errno α × Disk) : OsOnly (Io.os effect) := by
  intro g e raised
  rw [Io.run_os] at raised
  cases answered : (effect g).1 with
  | ok a =>
      rw [answered] at raised
      cases raised
  | error code =>
      rw [answered] at raised
      cases raised
      rfl

theorem osOnly_pathExists (p : PyPath) : OsOnly (pathExists S p) := by
  intro g e raised
  rw [run_pathExists] at raised
  cases raised

theorem osOnly_samefile (a b : PyPath) : OsOnly (samefile S a b) :=
  (osOnly_os _).bind fun _ => (osOnly_os _).bind fun _ => osOnly_os _

theorem osOnly_probe (a b : PyPath) : OsOnly (probe S a b) := by
  refine (osOnly_pathExists b).bind fun there => ?_
  cases there with
  | true => exact osOnly_samefile a b
  | false =>
      intro g e raised
      cases raised

theorem osOnly_sameFile (a b : PyPath) : OsOnly (sameFile S a b) := by
  refine (osOnly_os _).bind fun ra => (osOnly_os _).bind fun rb => ?_
  split
  · intro g e raised
    cases raised
  · refine (osOnly_pathExists ra).bind fun first => (osOnly_pathExists rb).bind fun second => ?_
    split
    · exact osOnly_samefile ra rb
    · split
      · intro g e raised
        cases raised
      · refine (osOnly_os _).bind fun _ => (osOnly_os _).bind fun _ => ?_
        intro g e raised
        rw [Program.run_bind, Program.run_attempt] at raised
        refine OsOnly.bind (osOnly_os _) (fun _ => ?_) _ e raised
        intro h e raised
        rw [Program.run_ofExcept] at raised
        exact osOnly_probe ra rb g e raised

theorem withSuffix_eq (p : PyPath) (suffix : Name) :
    withSuffix p suffix = p.parent.child (nameStem (pathName p) ++ suffix) := rfl

theorem pathIsDir_true {d : Place Name} (found : S.lookup g true p = .ok d)
    (dir : isDir (g.node d) = true) : (pathIsDir S p).run g = (.ok true, g) :=
  Prod.ext (run_pathIsDir.mpr (isFolder_iff.mpr ⟨d, found, dir⟩)) (run_pathIsDir_still p g)

theorem Unlinked.pair {d : Place Name} (unlinked : Unlinked S fs p)
    (leads : S.lookup fs true p.parent = .ok d) (dir : isDir (fs.node d) = true) (suffix : Name) :
    Plain S fs d (pathName p) (nameStem (pathName p) ++ suffix) := by
  have own : variantPlace S p (nameSuffix (pathName p)) d = S.fold (pathName p) :: d := by
    rw [variantPlace, stem_append_suffix]
  have single := fun i => unlinked.single d (nameSuffix (pathName p)) suffix i leads
  have plain := unlinked.plain d (nameSuffix (pathName p)) leads
  rw [own] at single plain
  exact ⟨dir, plain, unlinked.plain d suffix leads,
    fun i one other => (List.cons.inj (single i one other)).1⟩

theorem run_aliases {k : Place Name} (names : Names S fs p k) (unlinked : Unlinked S fs p) (suffix : Name) :
    ∃ answer, ((aliases S p (withSuffix p suffix)).run fs).1 = .ok answer ∧
      (answer = true → S.fold (pathName p) = S.fold (nameStem (pathName p) ++ suffix)) := by
  obtain ⟨named, d, leads, dir, _⟩ := names
  have whole := eq_child_of_named named
  have plain := unlinked.pair leads dir suffix
  simp only [aliases, Program.run_bind, pathIsDir_true leads dir, if_true, Program.run_attempt]
  cases asked : ((sameFile S p (withSuffix p suffix)).run fs).1 with
  | ok answer =>
      refine ⟨answer, rfl, ?_⟩
      rintro rfl
      rw [withSuffix_eq] at asked
      nth_rewrite 1 [whole] at asked
      exact sameFile_names leads (unlinked.straight d leads) plain asked
  | error e =>
      have isOs := osOnly_sameFile p (withSuffix p suffix) fs e asked
      exact ⟨false, by simp [isOs], by simp⟩

/-- The name beside the path, by its suffix. -/
theorem run_siblingPath {k : Place Name} (names : Names S fs p k) (unlinked : Unlinked S fs p)
    (own other : Name) :
    ∃ n, ((siblingPath S p own other).run fs).1 = .ok (p.parent.child n) ∧
      SiblingName S fs p own other n := by
  by_cases mine : nameSuffix (pathName p) = own
  · refine ⟨nameStem (pathName p) ++ other, ?_, .inl ⟨.inl mine, rfl⟩⟩
    simp [siblingPath, mine, withSuffix]
  by_cases variant : lowerName (nameSuffix (pathName p)) = lowerName own
  · obtain ⟨answer, asked, _⟩ := run_aliases names unlinked own
    cases answer with
    | true =>
        refine ⟨nameStem (pathName p) ++ other, ?_, .inl ⟨.inr ⟨variant, asked⟩, rfl⟩⟩
        rw [siblingPath, if_neg mine, if_pos variant, Program.run_bind]
        split
        · rename_i ran
          rw [ran] at asked
          cases asked
          rfl
        · rename_i ran
          rw [ran] at asked
          cases asked
    | false =>
        refine ⟨pathName p ++ other, ?_, .inr ⟨?_, rfl⟩⟩
        · rw [siblingPath, if_neg mine, if_pos variant, Program.run_bind]
          split
          · rename_i ran
            rw [ran] at asked
            cases asked
            rfl
          · rename_i ran
            rw [ran] at asked
            cases asked
        · rintro (same | ⟨_, yes⟩)
          · exact mine same
          · rw [asked] at yes
            cases yes
  · refine ⟨pathName p ++ other, ?_, .inr ⟨?_, rfl⟩⟩
    · rw [siblingPath, if_neg mine, if_neg variant]
      rfl
    · rintro (same | ⟨same, _⟩)
      · exact mine same
      · exact variant same

theorem Swaps.fold {k : Place Name} (swaps : Swaps S fs p own) (names : Names S fs p k)
    (unlinked : Unlinked S fs p) : S.fold (pathName p) = S.fold (nameStem (pathName p) ++ own) := by
  rcases swaps with mine | ⟨_, asked⟩
  · rw [← mine, stem_append_suffix]
  · obtain ⟨answer, asked', same⟩ := run_aliases names unlinked own
    rw [asked'] at asked
    cases asked
    exact same rfl

theorem SuffixPair.apart (pair : SuffixPair own other) (letterwise : Letterwise S) :
    S.fold own ≠ S.fold other := by
  rcases pair with ⟨rfl, rfl⟩ | ⟨rfl, rfl⟩
  · exact letterwise.apart
  · exact letterwise.apart.symm

theorem SuffixPair.own_ne (pair : SuffixPair own other) : own ≠ [] := by
  rcases pair with ⟨rfl, rfl⟩ | ⟨rfl, rfl⟩ <;> decide

theorem SuffixPair.other_ne (pair : SuffixPair own other) : other ≠ [] := by
  rcases pair with ⟨rfl, rfl⟩ | ⟨rfl, rfl⟩ <;> decide

theorem Letterwise.append (letterwise : Letterwise S) (n m : Name) :
    S.fold (n ++ m) = S.fold n ++ S.fold m := by
  obtain ⟨letter, _, folds⟩ := letterwise.letters
  rw [folds, folds, folds, List.flatMap_append]

theorem Letterwise.fold_ne (letterwise : Letterwise S) (nonempty : n ≠ []) : S.fold n ≠ [] := by
  obtain ⟨letter, shown, folds⟩ := letterwise.letters
  cases n with
  | nil => exact absurd rfl nonempty
  | cons c rest => simp [folds, shown c]

theorem sibling_elsewhere
    (folds : Swaps S fs p own → S.fold (pathName p) = S.fold (nameStem (pathName p) ++ own))
    (letterwise : Letterwise S) (pair : SuffixPair own other)
    (called : SiblingName S fs p own other n) : S.fold n ≠ S.fold (pathName p) := by
  rcases called with ⟨swaps, rfl⟩ | ⟨_, rfl⟩
  · rw [folds swaps, letterwise.append, letterwise.append]
    intro same
    exact pair.apart letterwise (List.append_cancel_left same).symm
  · rw [letterwise.append]
    intro same
    exact letterwise.fold_ne pair.other_ne (by simpa using same)

/-- Siblings in one place are of one report, or of two that are crossed. -/
theorem siblings_meet {k j : Place Name} (names : Names S fs p k) (names' : Names S fs q j)
    (folds : Swaps S fs p own → S.fold (pathName p) = S.fold (nameStem (pathName p) ++ own))
    (folds' : Swaps S fs q own → S.fold (pathName q) = S.fold (nameStem (pathName q) ++ own))
    (letterwise : Letterwise S)
    (called : SiblingName S fs p own other n)
    (called' : SiblingName S fs q own other m)
    (meet : OneFile S fs (p.parent.child n) (q.parent.child m)) :
    OneFile S fs p q ∨ Crossed S fs own p q ∨ Crossed S fs own q p := by
  obtain ⟨l, first, second⟩ := meet
  obtain ⟨d, leads, dir, rfl⟩ := names_child.mp first
  obtain ⟨d', leads', dir', same⟩ := names_child.mp second
  obtain ⟨heads, rfl⟩ := List.cons.inj same
  have one : S.fold (pathName p) = S.fold (pathName q) → OneFile S fs p q := fun folded =>
    ⟨S.fold (pathName p) :: d, ⟨names.1, d, leads, dir, rfl⟩, ⟨names'.1, d, leads', dir, by rw [folded]⟩⟩
  rcases called with ⟨swaps, rfl⟩ | ⟨appends, rfl⟩ <;> rcases called' with ⟨swaps', rfl⟩ | ⟨appends', rfl⟩
  all_goals
    rw [letterwise.append, letterwise.append] at heads
    have trimmed := List.append_cancel_right heads
  · left
    apply one
    rw [folds swaps, folds' swaps', letterwise.append, letterwise.append,
      trimmed]
  · exact .inr (.inl ⟨swaps, appends', ⟨d, leads, leads'⟩, trimmed⟩)
  · exact .inr (.inr ⟨swaps', appends, ⟨d, leads', leads⟩, trimmed.symm⟩)
  · exact .inl (one trimmed)

theorem Crossed.meet {k : Place Name} (crossed : Crossed S fs own p q) (names : Names S fs p k)
    (folds : Swaps S fs p own → S.fold (pathName p) = S.fold (nameStem (pathName p) ++ own))
    (letterwise : Letterwise S) (pair : SuffixPair own other)
    (called : SiblingName S fs p own other n)
    (called' : SiblingName S fs q own other m) :
    OneFile S fs (p.parent.child n) (q.parent.child m) ∧ ¬ OneFile S fs p q := by
  obtain ⟨swaps, appends', ⟨d, leads, leads'⟩, bare⟩ := crossed
  obtain ⟨_, rfl⟩ := called.resolve_right fun no => no.1 swaps
  obtain ⟨_, rfl⟩ := called'.resolve_left fun yes => appends' yes.1
  have folded := folds swaps
  rw [letterwise.append, bare] at folded
  obtain ⟨_, e, leads'', dir, rfl⟩ := names
  cases leads.symm.trans leads''
  constructor
  · refine ⟨_, names_child.mpr ⟨d, leads, dir, rfl⟩, names_child.mpr ⟨d, leads', dir, ?_⟩⟩
    rw [letterwise.append, letterwise.append, bare]
  · rintro ⟨l, ⟨_, e, first, _, rfl⟩, ⟨_, e', second, _, same⟩⟩
    have short := (List.cons.inj same).1
    rw [folded] at short
    exact letterwise.fold_ne pair.own_ne (by simpa using short)

theorem run_resolveOutPaths_md {md json : PyPath} :
    ((resolveOutPaths S (some p) none).run fs).1 = .ok (md, json) ↔
      pathName p ≠ [] ∧ md = p ∧ ((siblingPath S p mdSuffix jsonSuffix).run fs).1 = .ok json := by
  by_cases empty : pathName p = []
  · simp [resolveOutPaths, empty]
  · simp only [resolveOutPaths, empty, if_false, Program.run_bind]
    split
    · rename_i ran
      simp [ran, empty, eq_comm]
    · rename_i ran
      simp [ran]

theorem run_resolveOutPaths_json {md json : PyPath} :
    ((resolveOutPaths S none (some p)).run fs).1 = .ok (md, json) ↔
      pathName p ≠ [] ∧ json = p ∧ ((siblingPath S p jsonSuffix mdSuffix).run fs).1 = .ok md := by
  by_cases empty : pathName p = []
  · simp [resolveOutPaths, empty]
  · simp only [resolveOutPaths, empty, if_false, Program.run_bind]
    split
    · rename_i ran
      simp [ran, empty, eq_comm, and_comm]
    · rename_i ran
      simp [ran]

/-- A lone flag derives the other half of the committed pair when its path is crossed with the
committed name, and otherwise only for the committed name itself. -/
theorem lone_flag {k : Place Name} {given committed sibling : PyPath} (names : Names S fs given k)
    (unlinked : Unlinked S fs given) (letterwise : Letterwise S) (pair : SuffixPair own other)
    (suffix : nameSuffix (pathName committed) = own) (dotted : nameStem (pathName committed) ≠ [])
    (named : committed.named = true)
    (beside : committed.parent.child (nameStem (pathName committed) ++ other) = sibling) :
    (¬ OneFile S fs given committed → ∀ derived, pathName given ≠ [] →
      ((siblingPath S given own other).run fs).1 = .ok derived → ¬ OneFile S fs derived sibling) ↔
      ¬ Crossed S fs own committed given := by
  subst beside
  have called : SiblingName S fs committed own other (nameStem (pathName committed) ++ other) :=
    .inl ⟨.inl suffix, rfl⟩
  have mine : Swaps S fs committed own →
      S.fold (pathName committed) = S.fold (nameStem (pathName committed) ++ own) := fun _ => by
    rw [← suffix, stem_append_suffix]
  obtain ⟨n, ran, called'⟩ := run_siblingPath names unlinked own other
  constructor
  · intro apart crossed
    obtain ⟨_, _, ⟨d, leads, leads'⟩, bare⟩ := id crossed
    obtain ⟨_, e, leads'', dir, _⟩ := id names
    cases leads'.symm.trans leads''
    have names' : Names S fs committed (S.fold (pathName committed) :: d) := ⟨named, d, leads, dir, rfl⟩
    obtain ⟨meet, differ⟩ := crossed.meet names' mine letterwise pair called called'
    have nonempty : pathName given ≠ [] := by
      intro empty
      have shown := letterwise.fold_ne dotted
      rw [bare, empty] at shown
      apply shown
      obtain ⟨letter, _, folds⟩ := letterwise.letters
      rw [folds]
      rfl
    obtain ⟨l, one, second⟩ := meet
    exact apart (fun ⟨l, one, second⟩ => differ ⟨l, second, one⟩) _ nonempty ran ⟨l, second, one⟩
  · intro uncrossed differ derived _ derives meet
    rw [ran] at derives
    cases derives
    obtain ⟨l, one, second⟩ := id meet
    obtain ⟨d, leads, dir, _⟩ := names_child.mp second
    have names' : Names S fs committed (S.fold (pathName committed) :: d) := ⟨named, d, leads, dir, rfl⟩
    have folds := fun swaps : Swaps S fs given own => swaps.fold names unlinked
    rcases siblings_meet names names' folds mine letterwise called' called meet with
      same | crossed | crossed
    · exact differ same
    · exact crossed.2.1 (.inl suffix)
    · exact uncrossed crossed

end

/-- Two reports have siblings of their own exactly when neither is named like the other
without the suffix that is swapped for the other's sibling. -/
theorem sibling_path_own (S : System) (fs : Disk) (p q : PyPath) (own other : Name)
    (pair : SuffixPair own other) (unlinked : Unlinked S fs p) (unlinked' : Unlinked S fs q)
    (letterwise : Letterwise S) (k j : Place Name) (names : Names S fs p k) (names' : Names S fs q j) :
    ((∃ a b, ((siblingPath S p own other).run fs).1 = .ok a ∧
        ((siblingPath S q own other).run fs).1 = .ok b ∧ (∃ l, Names S fs a l) ∧
        (∃ l, Names S fs b l) ∧ (OneFile S fs a b → OneFile S fs p q) ∧ ¬ OneFile S fs a p ∧
        ¬ OneFile S fs b q) ↔
      ¬ Crossed S fs own p q ∧ ¬ Crossed S fs own q p) ∧
    ((¬ OneFile S fs p defaultOutMd →
        ∀ md json, ((resolveOutPaths S (some p) none).run fs).1 = .ok (md, json) →
          ¬ OneFile S fs json defaultOutJson) ↔
      ¬ Crossed S fs mdSuffix defaultOutMd p) ∧
    ((¬ OneFile S fs p defaultOutJson →
        ∀ md json, ((resolveOutPaths S none (some p)).run fs).1 = .ok (md, json) →
          ¬ OneFile S fs md defaultOutMd) ↔
      ¬ Crossed S fs jsonSuffix defaultOutJson p) := by
  obtain ⟨n, ran, called⟩ := run_siblingPath names unlinked own other
  obtain ⟨m, ran', called'⟩ := run_siblingPath names' unlinked' own other
  have folds := fun swaps : Swaps S fs p own => swaps.fold names unlinked
  have folds' := fun swaps : Swaps S fs q own => swaps.fold names' unlinked'
  refine ⟨⟨?_, ?_⟩, ?_, ?_⟩
  · rintro ⟨a, b, derives, derives', _, _, apart, _, _⟩
    rw [ran] at derives
    rw [ran'] at derives'
    cases derives
    cases derives'
    constructor
    · intro crossed
      obtain ⟨meet, differ⟩ := crossed.meet names folds letterwise pair called called'
      exact differ (apart meet)
    · intro crossed
      obtain ⟨⟨l, one, two⟩, differ⟩ := crossed.meet names' folds' letterwise pair called' called
      obtain ⟨i, one', two'⟩ := apart ⟨l, two, one⟩
      exact differ ⟨i, two', one'⟩
  · rintro ⟨uncrossed, uncrossed'⟩
    have beside : ∀ {r : PyPath} {i : Place Name} {l : Name}, Names S fs r i →
        (Swaps S fs r own → S.fold (pathName r) = S.fold (nameStem (pathName r) ++ own)) →
        SiblingName S fs r own other l →
        (∃ i, Names S fs (r.parent.child l) i) ∧ ¬ OneFile S fs (r.parent.child l) r := by
      intro r i l there folds sibling
      obtain ⟨_, d, leads, dir, _⟩ := id there
      refine ⟨⟨_, names_child.mpr ⟨d, leads, dir, rfl⟩⟩, ?_⟩
      rintro ⟨_, first, ⟨_, e, _, _, rfl⟩⟩
      obtain ⟨_, _, _, same⟩ := names_child.mp first
      exact sibling_elsewhere folds letterwise pair sibling (List.cons.inj same).1.symm
    obtain ⟨placed, elsewhere⟩ := beside names folds called
    obtain ⟨placed', elsewhere'⟩ := beside names' folds' called'
    refine ⟨_, _, ran, ran', placed, placed', fun meet => ?_, elsewhere, elsewhere'⟩
    rcases siblings_meet names names' folds folds' letterwise called called' meet with
      same | crossed | crossed
    · exact same
    · exact absurd crossed uncrossed
    · exact absurd crossed uncrossed'
  · rw [← lone_flag names unlinked letterwise (.inl ⟨rfl, rfl⟩) (by decide) (by decide) (by decide) rfl]
    simp only [run_resolveOutPaths_md]
    exact ⟨fun holds differ derived named derives => holds differ p derived ⟨named, rfl, derives⟩,
      fun holds differ md json ⟨named, _, derives⟩ => holds differ json named derives⟩
  · rw [← lone_flag names unlinked letterwise (.inr ⟨rfl, rfl⟩) (by decide) (by decide) (by decide) rfl]
    simp only [run_resolveOutPaths_json]
    exact ⟨fun holds differ derived named derives => holds differ derived p ⟨named, rfl, derives⟩,
      fun holds differ md json ⟨named, _, derives⟩ => holds differ md named derives⟩

theorem unlinked_of_plain {S : System} {fs : Disk} (plain : ∀ k, isLink (fs.node k) = false)
    (single : ∀ k j i, fs.node k = some (.file i) → fs.node j = some (.file i) → k = j) (p : PyPath) :
    Unlinked S fs p where
  straight d leads := by
    have none : ∀ {count : Nat} {here final : Place Name} {ps : List (Segment Name)},
        Walks S.toKernel fs true count here ps final → count = 0 := by
      intro count here final ps walks
      induction walks with
      | done => rfl
      | up opened further ih => exact ih
      | name entered isPlain further ih => exact ih
      | last => rfl
      | link entered found =>
          have absent := congrArg isLink found
          rw [plain] at absent
          cases absent
    simp only [Kernel.lookup] at leads
    split at leads
    · obtain ⟨count, _, walks⟩ := walk_ok leads
      obtain rfl := none walks
      exact walks
    · cases leads
  plain d suffix _ := plain _
  single d suffix suffix' i _ one other := single _ _ i one other

def docsDisk : Disk :=
  flatDisk ⟨0o755, .owner⟩
    [(Name.ofString "docs", .dir ⟨0o755, .owner⟩), (Name.ofString "run.md", .file 0)]
    [⟨[9], ⟨0o644, .owner⟩⟩] (by
      intro n ino there
      simp only [List.lookup_cons, List.lookup_nil] at there
      split at there
      · cases there
      · split at there <;> cases there
        decide)

theorem docsDisk_unlinked (S : System) (p : PyPath) : Unlinked S docsDisk p := by
  have entries : ∀ k, docsDisk.node k = none ∨ docsDisk.node k = some (.dir ⟨0o755, .owner⟩) ∨
      k = [Name.ofString "run.md"] ∧ docsDisk.node k = some (.file 0) := by
    intro k
    rcases k with _ | ⟨n, _ | ⟨m, above⟩⟩
    · exact .inr (.inl rfl)
    · simp only [docsDisk, flatDisk, List.lookup_cons, List.lookup_nil]
      split
      · exact .inr (.inl rfl)
      · split
        · rename_i same
          exact .inr (.inr ⟨by rw [eq_of_beq same], rfl⟩)
        · exact .inl rfl
    · exact .inl rfl
  refine unlinked_of_plain (fun k => ?_) (fun k j i one other => ?_) p
  · rcases entries k with there | there | ⟨_, there⟩ <;> rw [there] <;> rfl
  · rcases entries k with there | there | ⟨rfl, _⟩
    · rw [there] at one
      cases one
    · rw [there] at one
      cases one
    · rcases entries j with there | there | ⟨rfl, _⟩
      · rw [there] at other
        cases other
      · rw [there] at other
        cases other
      · rfl

theorem plainSystem_letterwise : Letterwise plainSystem :=
  ⟨⟨fun c => [c], by simp, by simp [plainSystem]⟩, by decide⟩

def foldingSystem : System := { plainSystem with fold := lowerName }

theorem foldingSystem_letterwise : Letterwise foldingSystem :=
  ⟨⟨fun c => [c.lower], by simp, fun n => List.map_eq_flatMap⟩, by decide⟩

theorem not_oneFile {S : System} {fs : Disk} {p q : PyPath}
    (differ : S.fold (pathName p) ≠ S.fold (pathName q)) : ¬ OneFile S fs p q := by
  rintro ⟨k, ⟨_, d, _, _, rfl⟩, ⟨_, e, _, _, same⟩⟩
  exact differ (List.cons.inj same).1

/-- `run.MD` is taken for the report that is there as `run.md`, so its suffix is swapped; the
suffix of `notes.txt` is kept. -/
theorem sibling_path_own_new :
    ((siblingPath foldingSystem (bareName "run.MD") mdSuffix jsonSuffix).run docsDisk).1 =
      .ok (bareName "run.json") ∧
    ((siblingPath foldingSystem (bareName "notes.txt") mdSuffix jsonSuffix).run docsDisk).1 =
      .ok (bareName "notes.txt.json") ∧
    (OneFile foldingSystem docsDisk (bareName "run.json") (bareName "notes.txt.json") →
      OneFile foldingSystem docsDisk (bareName "run.MD") (bareName "notes.txt")) ∧
    ¬ OneFile foldingSystem docsDisk (bareName "run.json") (bareName "run.MD") ∧
    ¬ OneFile foldingSystem docsDisk (bareName "notes.txt.json") (bareName "notes.txt") ∧
    ((resolveOutPaths foldingSystem (some (bareName "run.MD")) none).run docsDisk).1 =
      .ok (bareName "run.MD", bareName "run.json") ∧
    ¬ OneFile foldingSystem docsDisk (bareName "run.json") defaultOutJson ∧
    ((resolveOutPaths foldingSystem none (some (bareName "run.MD"))).run docsDisk).1 =
      .ok (bareName "run.MD.md", bareName "run.MD") ∧
    ¬ OneFile foldingSystem docsDisk (bareName "run.MD.md") defaultOutMd := by
  have report : Names foldingSystem docsDisk (bareName "run.MD") [Name.ofString "run.md"] :=
    ⟨rfl, [], rfl, rfl, by decide⟩
  have notes : Names foldingSystem docsDisk (bareName "notes.txt") [Name.ofString "notes.txt"] :=
    ⟨rfl, [], rfl, rfl, by decide⟩
  have apart : ∀ {own : Name} {p q : PyPath},
      foldingSystem.fold (nameStem (pathName p)) ≠ foldingSystem.fold (pathName q) →
        ¬ Crossed foldingSystem docsDisk own p q := fun differ crossed => differ crossed.2.2.2
  have derives : ((siblingPath foldingSystem (bareName "run.MD") mdSuffix jsonSuffix).run docsDisk).1 =
      .ok (bareName "run.json") := by decide
  have derives' : ((siblingPath foldingSystem (bareName "notes.txt") mdSuffix jsonSuffix).run docsDisk).1 =
      .ok (bareName "notes.txt.json") := by decide
  have loneMd : ((resolveOutPaths foldingSystem (some (bareName "run.MD")) none).run docsDisk).1 =
      .ok (bareName "run.MD", bareName "run.json") := by decide
  have loneJson : ((resolveOutPaths foldingSystem none (some (bareName "run.MD"))).run docsDisk).1 =
      .ok (bareName "run.MD.md", bareName "run.MD") := by decide
  obtain ⟨pair, md, json⟩ := sibling_path_own foldingSystem docsDisk (bareName "run.MD")
    (bareName "notes.txt") mdSuffix jsonSuffix (.inl ⟨rfl, rfl⟩) (docsDisk_unlinked _ _)
    (docsDisk_unlinked _ _) foldingSystem_letterwise _ _ report notes
  obtain ⟨a, b, first, second, _, _, own, elsewhere, elsewhere'⟩ :=
    pair.mpr ⟨apart (by decide), apart (by decide)⟩
  rw [derives] at first
  rw [derives'] at second
  cases first
  cases second
  exact ⟨derives, derives', own, elsewhere, elsewhere', loneMd,
    md.mpr (apart (by decide)) (not_oneFile (by decide)) _ _ loneMd, loneJson,
    json.mpr (apart (by decide)) (not_oneFile (by decide)) _ _ loneJson⟩

/-- `report.md` and `report` share `report.json`, and `docs/backpressure` alone derives the
committed JSON. -/
theorem sibling_path_shared :
    (∀ p, Unlinked plainSystem docsDisk p) ∧ Letterwise plainSystem ∧
    Names plainSystem docsDisk (bareName "report.md") [Name.ofString "report.md"] ∧
    Names plainSystem docsDisk (bareName "report") [Name.ofString "report"] ∧
    ¬ OneFile plainSystem docsDisk (bareName "report.md") (bareName "report") ∧
    ((jsonPathFor plainSystem (bareName "report.md")).run docsDisk).1 = .ok (bareName "report.json") ∧
    ((jsonPathFor plainSystem (bareName "report")).run docsDisk).1 = .ok (bareName "report.json") ∧
    Names plainSystem docsDisk ⟨false, [.name (Name.ofString "docs"), .name (Name.ofString "backpressure")]⟩
      [Name.ofString "backpressure", Name.ofString "docs"] ∧
    ((resolveOutPaths plainSystem
        (some ⟨false, [.name (Name.ofString "docs"), .name (Name.ofString "backpressure")]⟩) none).run
      docsDisk).1 = .ok (⟨false, [.name (Name.ofString "docs"), .name (Name.ofString "backpressure")]⟩,
        defaultOutJson) := by
  refine ⟨docsDisk_unlinked _, plainSystem_letterwise, ⟨rfl, [], rfl, rfl, rfl⟩, ⟨rfl, [], rfl, rfl, rfl⟩,
    not_oneFile (by decide), by decide, by decide, ⟨rfl, [Name.ofString "docs"], ?_, ?_, rfl⟩, ?_⟩
  · decide
  · decide
  · decide

end AsyncPipelines
