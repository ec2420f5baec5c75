import AsyncPipelines.IoUtils.AtomicWriteChecks

/-!
The writer under faults: what a reader of the destination sees after every call, whichever
of them fault.
-/

namespace AsyncPipelines

open Posix

/-- What a reader who may open the path finds there. -/
inductive Seen
  | nothing
  | folder
  | text (content : List UInt8) (mode : Nat)
  deriving DecidableEq

def seen (S : System) (fs : Disk) (p : PyPath) : Seen :=
  match S.stat fs p with
  | .ok (_, .file ino) => .text (fs.file ino).content (fs.file ino).rights.mode
  | .ok (_, .dir _) => .folder
  | _ => .nothing

structure Held (S : System) (f : Disk) (c : Place Name) (g : Disk) : Prop where
  missing : f.node c = none
  node : ∀ k, g.node k = if k = c then some (.file f.next) else f.node k
  file : ∀ i, i ≠ f.next → g.file i = f.file i
  standing : (g.file f.next).rights.standing = f.born c.tail
  accepts : S.accepts f c.tail = true

section

variable {S : System} {fs f g : Disk} {c : Place Name} {follow : Bool}

theorem seen_of_missing {p : PyPath} (missing : ∀ k, S.lookup fs true p ≠ .ok k) :
    seen S fs p = .nothing := by
  unfold seen Kernel.stat Kernel.entry
  cases looked : S.lookup fs true p with
  | error e => rfl
  | ok k => exact absurd looked (missing k)

theorem seen_congr {p : PyPath}
    (same : ∀ k, S.lookup g true p = .ok k ↔ S.lookup f true p = .ok k)
    (there : ∀ k, S.lookup f true p = .ok k → g.node k = f.node k ∧
      ∀ ino, f.node k = some (.file ino) → g.file ino = f.file ino) :
    seen S g p = seen S f p := by
  cases looked : S.lookup f true p with
  | error e =>
      have missing : ∀ k, S.lookup f true p ≠ .ok k := by simp [looked]
      rw [seen_of_missing missing, seen_of_missing fun k found => missing k ((same k).mp found)]
  | ok k =>
      obtain ⟨node, file⟩ := there k looked
      have again := (same k).mpr looked
      unfold seen Kernel.stat Kernel.entry
      rw [looked, again]
      simp only [node]
      rcases found : f.node k with _ | (r | ino | ⟨target, r⟩)
      · rfl
      · rfl
      · simp [file ino found]
      · rfl

theorem seen_text {p : PyPath} {content : List UInt8} {mode : Nat}
    (text : seen S fs p = .text content mode) :
    ∃ k ino, S.lookup fs true p = .ok k ∧ fs.node k = some (.file ino) ∧
      (fs.file ino).content = content ∧ (fs.file ino).rights.mode = mode := by
  unfold seen at text
  split at text
  · rename_i k ino found
    obtain ⟨looked, there⟩ := entry_ok.mp found
    simp only [Seen.text.injEq] at text
    exact ⟨k, ino, looked, there, text.1, text.2⟩
  · cases text
  · cases text

theorem seen_file {p : PyPath} {k : Place Name} {ino : Nat} (looked : S.lookup fs true p = .ok k)
    (there : fs.node k = some (.file ino)) :
    seen S fs p = .text (fs.file ino).content (fs.file ino).rights.mode := by
  unfold seen Kernel.stat
  rw [entry_ok.mpr ⟨looked, there⟩]

theorem Held.of_create {p : PyPath} {mode ino : Nat} (made : S.create f p mode = (.ok ino, g)) :
    ∃ c, S.lookup f false p = .ok c ∧ ino = f.next ∧ Held S f c g ∧ (g.file ino).content = [] := by
  obtain ⟨c, missing, inside, looked, accepts, rfl, rfl⟩ := create_ok made
  refine ⟨c, looked, rfl, ⟨missing, insertFile_node, fun i other => ?_, ?_, accepts⟩, ?_⟩
  · rw [insertFile_file, if_neg other]
  · rw [insertFile_file, if_pos rfl]
  · rw [insertFile_file, if_pos rfl]

theorem Held.setFile (held : Held S f c g) (changed : File UInt8)
    (standing : changed.rights.standing = f.born c.tail) : Held S f c (g.setFile f.next changed) where
  missing := held.missing
  node := held.node
  file i other := by
    rw [setFile_file, if_neg other]
    exact held.file i other
  standing := by
    rw [setFile_file, if_pos rfl]
    exact standing
  accepts := held.accepts

theorem Held.mine (held : Held S f c g) : (g.file f.next).rights.standing.owns = true := by
  rw [held.standing, born_owns]

theorem Held.append (held : Held S f c g) (more : List UInt8) : Held S f c (g.append f.next more) :=
  held.setFile _ held.standing

theorem Held.alike (held : Held S f c g) : Alike f g where
  there := keeps_of_missing held.missing fun k other => by rw [held.node, if_neg other]
  back k there := by
    have other : k ≠ c := by
      rintro rfl
      simp [held.node, isDir, isLink] at there
    rw [held.node, if_neg other]

theorem Held.lookup (held : Held S f c g) {p : PyPath} {k : Place Name} :
    S.lookup g follow p = .ok k ↔ S.lookup f follow p = .ok k :=
  held.alike.lookup

theorem Held.seen (held : Held S f c g) {p : PyPath} (away : S.lookup f true p ≠ .ok c) :
    seen S g p = seen S f p := by
  refine seen_congr (fun _ => held.lookup) fun k found => ?_
  have other : k ≠ c := by
    rintro rfl
    exact away found
  refine ⟨by rw [held.node, if_neg other], fun ino there => held.file ino ?_⟩
  have known := f.numbered k ino there
  omega

theorem Held.unlinked (held : Held S f c g) {tmpPath : PyPath} {after : Disk}
    (placed : S.lookup f false tmpPath = .ok c) (removed : S.unlink g tmpPath = (.ok (), after)) :
    after.node = f.node ∧ after.file = g.file := by
  obtain ⟨here, leaf, looked, _, rfl⟩ := unlink_ok removed
  obtain rfl : here = c := by
    have same := held.lookup.mp looked
    rw [placed] at same
    cases same
    rfl
  refine ⟨funext fun k => ?_, rfl⟩
  rw [remove_node, held.node]
  split
  · rename_i same
    rw [same, held.missing]
  · rfl

structure Grown (fs f : Disk) : Prop where
  kept : ∀ k, fs.node k ≠ none → f.node k = fs.node k
  file : f.file = fs.file
  next : f.next = fs.next
  added : ∀ k, fs.node k = none → f.node k ≠ none → isDir (f.node k) = true

theorem Parented.grown {target : PyPath} (parented : Parented S target fs f) : Grown fs f := by
  induction parented with
  | start => exact ⟨fun _ _ => rfl, rfl, rfl, fun _ missing there => absurd missing there⟩
  | @made now after q before absolute above made ih =>
      obtain ⟨here, missing, inside, _, _, rfl⟩ := mkdir_ok made
      refine ⟨fun k there => ?_, ih.file, ih.next, fun k gone there => ?_⟩
      · have other : k ≠ here := by
          rintro rfl
          rw [ih.kept _ there] at missing
          exact there missing
        rw [insertDir_node, if_neg other]
        exact ih.kept k there
      · rw [insertDir_node] at there ⊢
        split
        · rfl
        · rename_i other
          rw [if_neg other] at there
          exact ih.added k gone there

theorem Grown.keeps (grown : Grown fs f) : Keeps fs f := by
  intro k there
  apply grown.kept
  intro missing
  simp [missing, isDir, isLink] at there

end

/-- What the writer relies on where it makes missing parents of the target: the path shows
the same throughout, it does not lead to where the temporary file goes, and it leads to
the target. -/
structure Steady (S : System) (fs : Disk) (path target : PyPath) (draws : Nat → Token) : Prop where
  shows : ∀ f, Parented S target fs f → seen S f path = seen S fs path
  apart : ∀ f, Parented S target fs f → ∀ ino tmpPath g c,
    (createTemp S target draws).run f = (.ok (ino, tmpPath), g) →
      S.lookup f false tmpPath = .ok c → S.lookup f true path ≠ .ok c
  leads : ∀ f, Parented S target fs f → ∀ k, S.lookup f false target = .ok k → target.named = true →
    isDir (f.node k) = false → S.refuses f k = none → S.lookup f true path = .ok k

def Aims (S : System) (fs : Disk) (path target : PyPath) : Prop :=
  (resolveSymlinkedTarget S path).run fs = (.ok target, fs) ∧
    (refuseUnwritableTarget S target).run fs = (.ok (), fs)

structure Untouched (fs g : Disk) (but : Place Name → Prop) : Prop where
  entries : ∀ k, fs.node k ≠ none → but k ∨ g.node k = fs.node k
  files : ∀ i, i < fs.next → g.file i = fs.file i

def NothingLeft (fs g : Disk) (but : Place Name → Prop) : Prop :=
  ∀ k, fs.node k = none → g.node k ≠ none → but k ∨ isDir (g.node k) = true

def OldOrNew (S : System) (fs : Disk) (path : PyPath) (text : Text) (g : Disk) : Prop :=
  seen S g path = seen S fs path ∨
    ∃ bytes mode, text.encoded = some bytes ∧ seen S g path = .text bytes mode

/-- A call that raised changed nothing, and left no file behind unless the removal of its
temporary file is what failed. -/
structure Unchanged (S : System) (fs : Disk) (path : PyPath) (e : Failure) (g : Disk) : Prop where
  seen : seen S g path = seen S fs path
  untouched : Untouched fs g fun _ => False
  left : (∀ later first, e ≠ .unremoved later first) → NothingLeft fs g fun _ => False

/-- A call that returned wrote the text where the path leads, and nothing else. The permission
bits are the old ones, and so is all of the mode but for the set-group-ID bit, which the
process is not granted where it is not in the group of the files it makes there. -/
structure Written (S : System) (fs : Disk) (path : PyPath) (text : Text) (g : Disk) : Prop where
  holds : ∃ bytes mode, text.encoded = some bytes ∧ seen S g path = .text bytes mode ∧
    ∀ content old, seen S fs path = .text content old → mode &&& 0o777 = old &&& 0o777 ∧
      ∀ k, S.lookup g true path = .ok k → mode = S.granted (g.born k.tail) old
  untouched : Untouched fs g fun k => S.lookup g true path = .ok k
  left : NothingLeft fs g fun k => S.lookup g true path = .ok k
  link : ∀ k target r, S.lstat fs path = .ok (k, .link target r) →
    S.lstat g path = .ok (k, .link target r)

def AllOrNothing (S : System) (fs : Disk) (path : PyPath) (text : Text) :
    Except Failure Unit → Disk → Prop
  | .ok () => Written S fs path text
  | .error e => Unchanged S fs path e

section

variable {S : System} {fs f g : Disk} {c : Place Name} {path target : PyPath} {text : Text}
  {draws : Nat → Token}

theorem Grown.unchanged (grown : Grown fs f) (shows : seen S f path = seen S fs path)
    (e : Failure) : Unchanged S fs path e f where
  seen := shows
  untouched := ⟨fun k there => .inr (grown.kept k there), fun i _ => by rw [grown.file]⟩
  left _ k missing there := .inr (grown.added k missing there)

theorem Held.untouched (held : Held S f c g) (grown : Grown fs f) :
    Untouched fs g fun _ => False where
  entries k there := by
    have other : k ≠ c := by
      rintro rfl
      have missing := held.missing
      rw [grown.kept _ there] at missing
      exact there missing
    right
    rw [held.node, if_neg other]
    exact grown.kept k there
  files i old := by
    have other : i ≠ f.next := by
      have next := grown.next
      omega
    rw [held.file i other, grown.file]

theorem Held.unremoved (held : Held S f c g) (grown : Grown fs f)
    (shows : AsyncPipelines.seen S f path = AsyncPipelines.seen S fs path)
    (apart : S.lookup f true path ≠ .ok c) (later : Errno) (first : Failure) :
    Unchanged S fs path (.unremoved later first) g where
  seen := (held.seen apart).trans shows
  untouched := held.untouched grown
  left removed := absurd rfl (removed later first)

theorem Held.cleaned (held : Held S f c g) (grown : Grown fs f)
    (shows : AsyncPipelines.seen S f path = AsyncPipelines.seen S fs path)
    {after : Disk} (node : after.node = f.node)
    (file : after.file = g.file) (e : Failure) : Unchanged S fs path e after where
  seen := by
    rw [← shows]
    refine seen_congr (fun k => by rw [lookup_congr node]) fun k found =>
      ⟨by rw [node], fun ino there => ?_⟩
    rw [file]
    apply held.file
    have known := f.numbered k ino there
    omega
  untouched := by
    refine ⟨fun k there => .inr ?_, fun i old => ?_⟩
    · rw [node]
      exact grown.kept k there
    · rw [file]
      exact (held.untouched grown).files i old
  left _ k missing there := by
    right
    rw [node] at there ⊢
    exact grown.added k missing there

theorem Held.rights (held : Held S f c g) {k : Place Name} {found : Node Name}
    (there : f.node k = some found) : g.rights found = f.rights found := by
  cases found with
  | dir r => rfl
  | file ino =>
      have known := f.numbered k ino there
      have older : ino ≠ f.next := by omega
      simp only [Fs.rights, held.file ino older]
  | link goal r => rfl

theorem Held.refuses (held : Held S f c g) {k : Place Name} (free : S.refuses g k = none)
    (inside : isDir (f.node k.tail) = true) : S.refuses f k = none := by
  have outside : k.tail ≠ c := by
    intro same
    rw [same, held.missing] at inside
    cases inside
  have parent : g.node k.tail = f.node k.tail := by rw [held.node, if_neg outside]
  unfold Kernel.refuses at free ⊢
  split at free
  · cases free
  · rename_i accepts
    split at free
    · cases free
    · rename_i guards
      rw [accepts_congr parent] at accepts
      have unguarded : ¬ S.guards f k = true := by
        by_cases same : k = c
        · unfold Kernel.guards
          rw [same, held.missing]
          simp
        · rw [guards_congr parent (by rw [held.node, if_neg same])] at guards
          · exact guards
          · exact fun found there => congrArg Rights.standing (held.rights there)
      rw [if_neg accepts, if_neg unguarded]

theorem pathName_child (p : PyPath) (n : Name) : pathName (p.child n) = n := by
  simp [pathName, Path.child]

theorem eq_child_of_named {p : PyPath} (named : p.named = true) :
    p = p.parent.child (pathName p) := by
  unfold Path.named at named
  split at named
  · rename_i n last
    have name : pathName p = n := by simp [pathName, last]
    rw [name]
    exact Path.eq_child last
  · cases named

theorem same_parent {k : Place Name} {n : Name} (named : target.named = true)
    (placed : S.lookup f false (target.parent.child n) = .ok c) (looked : S.lookup f false target = .ok k) :
    k.tail = c.tail := by
  rw [eq_child_of_named named, lookup_child] at looked
  rw [lookup_child] at placed
  cases middle : S.lookup f true target.parent with
  | error e =>
      rw [middle] at placed
      cases placed
  | ok d =>
      rw [middle] at placed looked
      obtain ⟨_, _, rfl⟩ := enter_ok placed
      obtain ⟨_, _, rfl⟩ := enter_ok looked
      rfl

theorem createTemp_ok {ino : Nat} {tmpPath : PyPath}
    (drawn : (createTemp S target draws).run f = (.ok (ino, tmpPath), g)) :
    ∃ n, tmpPath = target.parent.child n ∧ S.create f tmpPath 0o666 = (.ok ino, g) := by
  suffices every : ∀ remaining i, (createTempFrom S target draws remaining i).run f = (.ok (ino, tmpPath), g) →
      ∃ n, tmpPath = target.parent.child n ∧ S.create f tmpPath 0o666 = (.ok ino, g) from
    every _ _ drawn
  intro remaining
  induction remaining with
  | zero => exact fun _ drawn => by cases drawn
  | succ remaining ih =>
      intro i drawn
      rw [run_createTempFrom] at drawn
      split at drawn
      · rename_i made after created
        cases drawn
        exact ⟨_, rfl, created⟩
      · exact ih _ drawn
      · cases drawn

structure Replaced (S : System) (f : Disk) (target : PyPath) (text : Text) (k : Place Name) (h : Disk) :
    Prop where
  looked : S.lookup f false target = .ok k
  named : target.named = true
  free : isDir (f.node k) = false
  allowed : S.refuses f k = none
  node : ∀ j, h.node j = if j = k then some (.file f.next) else f.node j
  file : ∀ i, i ≠ f.next → h.file i = f.file i
  encoded : text.encoded = some (h.file f.next).content
  mode : ∀ i, f.node k = some (.file i) →
    (h.file f.next).rights.mode = S.granted (f.born k.tail) (f.file i).rights.mode

theorem Replaced.rest {k : Place Name} (replaced : Replaced S f target text k g) {j : Place Name}
    (other : j ≠ k) : g.node j = f.node j := by
  rw [replaced.node, if_neg other]

theorem Replaced.written {k : Place Name} (replaced : Replaced S f target text k g) (grown : Grown fs f)
    (shows : seen S f path = seen S fs path) (leads : S.lookup f true path = .ok k) :
    Written S fs path text g := by
  have plain : isLink (f.node k) = false := lookup_not_isLink leads
  have keeps : Keeps f g := by
    intro j there
    apply replaced.rest
    rintro rfl
    simp [replaced.free, plain] at there
  have found : g.node k = some (.file f.next) := by rw [replaced.node, if_pos rfl]
  have there : S.lookup g true path = .ok k := by
    refine lookup_keeps keeps leads fun link => ?_
    rw [found] at link
    cases link
  refine ⟨⟨_, _, replaced.encoded, seen_file there found, fun content old before => ?_⟩,
    ⟨fun j old => ?_, fun i old => ?_⟩, fun j missing new => ?_, fun j goal r listed => ?_⟩
  · rw [← shows] at before
    obtain ⟨k', ino, leads', isFile, _, was⟩ := seen_text before
    rw [leads] at leads'
    cases leads'
    have above : k.tail ≠ k := by
      intro same
      have root : k = [] := by
        cases k with
        | nil => rfl
        | cons n rest => simp at same
      have dir := f.rooted
      rw [← root, replaced.free] at dir
      cases dir
    have mode := replaced.mode ino isFile
    rw [was] at mode
    refine ⟨?_, fun k' leads' => ?_⟩
    · rw [mode]
      exact granted_permissions _ _ _
    · rw [there] at leads'
      cases leads'
      rw [mode, born_congr (replaced.rest above)]
  · by_cases same : j = k
    · exact .inl (same ▸ there)
    · right
      rw [replaced.rest same]
      exact grown.kept j old
  · have other : i ≠ f.next := by
      have next := grown.next
      omega
    rw [replaced.file i other, grown.file]
  · by_cases same : j = k
    · exact .inl (same ▸ there)
    · right
      rw [replaced.rest same] at new ⊢
      exact grown.added j missing new
  · obtain ⟨looked, isALink⟩ := entry_ok.mp listed
    have kept : f.node j = some (.link goal r) := by
      rw [grown.kept j (by simp [isALink]), isALink]
    have stays : g.node j = some (.link goal r) := by
      rw [replaced.rest, kept]
      rintro rfl
      simp [isLink, kept] at plain
    refine entry_ok.mpr ⟨?_, stays⟩
    refine lookup_keeps keeps (lookup_keeps grown.keeps looked ?_) ?_
    · exact fun _ => by simp [isLink, isALink]
    · exact fun _ => by simp [isLink, kept]

structure Filled (S : System) (f : Disk) (c : Place Name) (target : PyPath) (text : Text) (g : Disk) :
    Prop where
  held : Held S f c g
  encoded : text.encoded = some (g.file f.next).content
  mode : ∀ k i, S.lookup f false target = .ok k → f.node k = some (.file i) →
    (g.file f.next).rights.mode = S.granted (f.born c.tail) (f.file i).rights.mode

theorem Held.stat_temp (held : Held S f c g) {tmpPath : PyPath}
    (placed : S.lookup f false tmpPath = .ok c) :
    S.stat g tmpPath = .ok (c, .file f.next) := by
  have there : g.node c = some (.file f.next) := by rw [held.node, if_pos rfl]
  have listed : S.lookup g false tmpPath = .ok c := held.lookup.mpr placed
  refine entry_ok.mpr ⟨?_, there⟩
  rw [lookup_follow]
  · exact listed
  · intro k found
    rw [listed] at found
    cases found
    rw [there]
    rfl

theorem Held.stat_file (held : Held S f c g) {p : PyPath} {k : Place Name} {i : Nat}
    (looked : S.lookup f false p = .ok k) (there : f.node k = some (.file i)) :
    S.stat g p = .ok (k, .file i) := by
  have other : k ≠ c := by
    rintro rfl
    simp [held.missing] at there
  have listed : S.lookup g false p = .ok k := held.lookup.mpr looked
  have entry : g.node k = some (.file i) := by rw [held.node, if_neg other, there]
  refine entry_ok.mpr ⟨?_, entry⟩
  rw [lookup_follow]
  · exact listed
  · intro k' found
    rw [listed] at found
    cases found
    rw [entry]
    rfl

theorem holds_mode (target : PyPath) {tmpPath : PyPath} (held : Held S f c g) (placed : S.lookup f false tmpPath = .ok c)
    (encoded : text.encoded = some (g.file f.next).content) :
    Program.Holds IsFault (Held S f c)
      (fun result h => match result with
        | .ok () => Filled S f c target text h
        | .error _ => Held S f c h)
      (copyExistingMode S target tmpPath) g := by
  refine holds_copyExistingMode held (fun absent => ?_) (fun found after stated changed => ?_)
    fun _ _ => held
  · refine ⟨held, encoded, fun k i looked there => ?_⟩
    rw [held.stat_file looked there] at absent
    cases absent
  · obtain ⟨here, ino, isTemp, rfl⟩ := chmod_ok changed
    rw [held.stat_temp placed] at isTemp
    cases isTemp
    have kept := held.setFile
      { g.file f.next with rights := { (g.file f.next).rights with
          mode := S.granted (g.file f.next).rights.standing (g.rights found.2).mode } }
      held.standing
    refine ⟨kept, kept, ?_, fun k i looked there => ?_⟩
    · rw [setFile_file, if_pos rfl]
      exact encoded
    · rw [held.stat_file looked there] at stated
      cases stated
      have same : (g.file i).rights = (f.file i).rights := held.rights there
      rw [setFile_file, if_pos rfl, ← same, ← held.standing]
      rfl

/-- The rename puts the temporary file in the place of the target. -/
theorem Filled.replaced {n : Name} {after : Disk} (filled : Filled S f c target text g)
    (placed : S.lookup f false (target.parent.child n) = .ok c)
    (moved : S.replace g (target.parent.child n) target = (.ok (), after)) :
    ∃ k, Replaced S f target text k after := by
  obtain ⟨held, encoded, modes⟩ := filled
  have isTemp : g.node c = some (.file f.next) := by rw [held.node, if_pos rfl]
  obtain ⟨source, k, from_temp, to_target, named, there, done⟩ := replace_ok moved
  have same := held.lookup.mp from_temp
  rw [placed] at same
  cases same
  have looked := held.lookup.mp to_target
  have beside := same_parent named placed looked
  have mode : ∀ i, f.node k = some (.file i) →
      (g.file f.next).rights.mode = S.granted (f.born k.tail) (f.file i).rights.mode := by
    rw [beside]
    exact fun i isFile => modes k i looked isFile
  refine ⟨k, ?_⟩
  rcases done with ⟨same, rfl⟩ | ⟨leaf, free, inside, allowed, rfl⟩
  · -- the name that was drawn is the target's own
    have own : k = c := by
      rcases same with same | ⟨ino, found, again⟩
      · exact same.symm
      · rw [isTemp] at found
        cases found
        by_contra other
        rw [held.node, if_neg other] at again
        have known := f.numbered k _ again
        omega
    subst own
    have unguarded : S.guards f k = false := by
      unfold Kernel.guards
      rw [held.missing]
      cases f.node k.tail with
      | none => rfl
      | some found => cases found <;> rfl
    have allowed : S.refuses f k = none := by
      unfold Kernel.refuses
      rw [held.accepts, unguarded]
      rfl
    exact ⟨looked, named, by rw [held.missing]; rfl, allowed, held.node, held.file, encoded, mode⟩
  · have outside : k.tail ≠ c := by
      intro same
      rw [same, isTemp] at inside
      cases inside
    rw [held.node, if_neg outside] at inside
    have wasFree : isDir (f.node k) = false := by
      by_cases same : k = c
      · rw [same, held.missing]
        rfl
      · rwa [held.node, if_neg same] at free
    refine ⟨looked, named, wasFree, held.refuses allowed inside, fun j => ?_, held.file, encoded, mode⟩
    rw [move_node, isTemp]
    split
    · rfl
    · split
      · rename_i same
        rw [same, held.missing]
      · rename_i other
        rw [held.node, if_neg other]

/-- Everything the writer does once its temporary file exists. -/
theorem holds_rest (text : Text) (target : PyPath) (spill : List UInt8) {n : Name} (held : Held S f c g)
    (placed : S.lookup f false (target.parent.child n) = .ok c) (empty : (g.file f.next).content = []) :
    Program.Holds IsFault (fun h => Held S f c h ∨ ∃ k, Replaced S f target text k h)
      (fun result h => match result with
        | .ok () => ∃ k, Replaced S f target text k h
        | .error _ => Held S f c h)
      (do
        fillTemp S f.next text spill
        copyExistingMode S target (target.parent.child n)
        Io.os fun fs => S.replace fs (target.parent.child n) target) g := by
  refine .bind ((holds_fillTemp (fun _ more held => held.append more) held empty).mono
    (fun _ held => .inl held) ?_)
  rintro (e | ⟨⟩) g ⟨held, filled⟩
  · exact held
  refine .bind ((holds_mode target held placed (filled rfl)).mono (fun _ held => .inl held) ?_)
  rintro (e | ⟨⟩) g ended
  · exact ended
  have filled : Filled S f c target text g := ended
  refine Io.holds_os ?_ ?_ fun _ _ => filled.held
  · rcases result : S.replace g (target.parent.child n) target with ⟨e | ⟨⟩, after⟩
    · rw [replace_error result]
      exact .inl filled.held
    · exact .inr (filled.replaced placed result)
  · rcases result : S.replace g (target.parent.child n) target with ⟨e | ⟨⟩, after⟩
    · obtain rfl := replace_error result
      exact filled.held
    · exact filled.replaced placed result

theorem holds_atomicWriteText {chance : Chance}
    (steady : ∀ target, Aims S fs path target → Steady S fs path target chance.draws) :
    Program.Holds IsFault (OldOrNew S fs path text) (AllOrNothing S fs path text)
      (atomicWriteText S path text chance) fs := by
  have still : ∀ e, Unchanged S fs path e fs := fun e =>
    ⟨rfl, ⟨fun _ _ => .inr rfl, fun _ _ => rfl⟩, fun _ _ missing there => absurd missing there⟩
  have old : ∀ {f}, seen S f path = seen S fs path → OldOrNew S fs path text f := .inl
  refine .bind (holds_resolveSymlinkedTarget (old rfl) (fun target resolved => ?_) fun e _ => still e)
  refine .bind (holds_refuseUnwritableTarget (old rfl) (fun allowed => ?_) fun e _ => still e)
  have steady := steady target ⟨resolved, allowed⟩
  refine .bind ((holds_mkdirParents target .start).mono
    (fun f parented => old (steady.shows f parented)) fun result f made => ?_)
  have parented := made.1
  have grown := parented.grown
  have shows := steady.shows f parented
  rcases result with e | ⟨⟩
  · exact grown.unchanged shows e
  refine .bind (holds_createTemp (old shows) (fun ino tmpPath g made drawn => ?_)
    fun e _ => grown.unchanged shows e)
  obtain ⟨n, rfl, _⟩ := createTemp_ok drawn
  obtain ⟨c, placed, rfl, held, empty⟩ := Held.of_create made
  have away := steady.apart f parented _ _ _ _ drawn placed
  have written : ∀ h, (∃ k, Replaced S f target text k h) → Written S fs path text h := by
    rintro h ⟨k, replaced⟩
    exact replaced.written grown shows
      (steady.leads f parented k replaced.looked replaced.named replaced.free replaced.allowed)
  have fits : ∀ h, Held S f c h ∨ (∃ k, Replaced S f target text k h) → OldOrNew S fs path text h := by
    rintro h (held | replaced)
    · exact .inl ((held.seen away).trans shows)
    · obtain ⟨bytes, mode, encoded, there, _⟩ := (written h replaced).holds
      exact .inr ⟨bytes, mode, encoded, there⟩
  refine ⟨fits g (.inl held), .bind (.attempt ((holds_rest text target _ held placed empty).mono fits ?_))⟩
  rintro (e | ⟨⟩) h ended
  · refine holds_cleanUp (fits h (.inl ended)) (fun after removed => ?_) (fun absent => ?_) fun later => ?_
    · obtain ⟨node, file⟩ := Held.unlinked ended placed removed
      have cleaned := Held.cleaned ended grown shows node file e
      exact ⟨.inl cleaned.seen, cleaned⟩
    · -- the temporary file is there, so it is not the missing one
      have listed : S.lookup h false (target.parent.child n) = .ok c := (Held.lookup ended).mpr placed
      have there : h.node c ≠ none := by simp [Held.node ended]
      unfold Kernel.unlink at absent
      rw [listed] at absent
      simp only [there, if_false] at absent
      split at absent
      · rename_i reason refused
        unfold Kernel.refuses at refused
        split at refused <;> [skip; split at refused] <;> cases refused <;> cases absent
      · split at absent <;> cases absent
    · exact Held.unremoved ended grown shows away later e
  · exact written h ended

/-- Whichever calls of the writer fault, a reader of the path sees what was there before or
the whole new text at every point; a call that raises changed nothing and left nothing
behind, and one that returns wrote the text and nothing else. -/
theorem atomic_write_all_or_nothing (S : System) (fs : Disk) (path : PyPath) (text : Text)
    (chance : Chance)
    (steady : ∀ target, Aims S fs path target → Steady S fs path target chance.draws)
    (q : Io Unit) (g : Disk)
    (visited : Program.Visits IsFault (atomicWriteText S path text chance, fs) (q, g)) :
    OldOrNew S fs path text g ∧ (∀ e, q = .fail e → Unchanged S fs path e g) ∧
      (q = .ret () → Written S fs path text g) := by
  obtain ⟨sees, later⟩ := (holds_atomicWriteText steady).visits (.inl rfl) visited
  refine ⟨sees, ?_, ?_⟩
  · rintro e rfl
    exact later
  · rintro rfl
    exact later

end

theorem Parented.same {S : System} {fs f : Disk} {target : PyPath} (parented : Parented S target fs f)
    (top : target.parts.dropLast = []) (start : isDir (fs.node (S.start target)) = true) : f = fs := by
  induction parented with
  | start => rfl
  | @made now after q before absolute above made ih =>
      subst ih
      rw [top, List.prefix_nil] at above
      obtain ⟨here, missing, _, looked, _, _⟩ := mkdir_ok made
      have begins : S.start q = S.start target := by simp only [Kernel.start, absolute]
      unfold Kernel.lookup at looked
      rw [begins, if_pos start, above, walk_nil] at looked
      cases looked
      rw [missing] at start
      cases start

def emptyDisk : Disk := flatDisk ⟨0o755, .owner⟩ [] [] (by simp)

def linkedDisk : Disk :=
  flatDisk ⟨0o755, .owner⟩
    [(Name.ofString "l", .link (bareName "x") ⟨0o777, .owner⟩), (Name.ofString "x", .file 0)]
    [⟨[1], ⟨0o600, .owner⟩⟩] (by
      intro n ino found
      simp only [List.lookup_cons, List.lookup_nil] at found
      split at found
      · cases found
      · split at found
        · cases found
          decide
        · cases found)

/-- The writer overwrites the file through the link; and where the rename faults, its fifteenth
call, it leaves the file as it was. -/
theorem atomic_write_all_or_nothing_new :
    (∃ g, Program.Visits IsFault
        (atomicWriteText plainSystem (bareName "l") ⟨true, some [7]⟩ firstDraw, linkedDisk) (.ret (), g) ∧
      Written plainSystem linkedDisk (bareName "l") ⟨true, some [7]⟩ g ∧
      seen plainSystem g (bareName "l") = .text [7] 0o600) ∧
    ∃ g, Program.Visits IsFault
        (atomicWriteText plainSystem (bareName "l") ⟨true, some [7]⟩ firstDraw, linkedDisk)
        (.fail (.os (.other 5)), g) ∧
      Unchanged plainSystem linkedDisk (bareName "l") (.os (.other 5)) g ∧
      seen plainSystem g (bareName "l") = .text [1] 0o600 := by
  have steady : ∀ target, Aims plainSystem linkedDisk (bareName "l") target →
      Steady plainSystem linkedDisk (bareName "l") target firstDraw.draws := by
    intro target aims
    obtain rfl : (⟨true, [.name (Name.ofString "x")]⟩ : PyPath) = target := by
      have ran := aims.1
      cases ran
      rfl
    have same : ∀ f, Parented plainSystem ⟨true, [.name (Name.ofString "x")]⟩ linkedDisk f → f = linkedDisk :=
      fun f parented => parented.same rfl rfl
    have leads : plainSystem.lookup linkedDisk true (bareName "l") = .ok [Name.ofString "x"] := rfl
    refine ⟨fun f parented => by rw [same f parented], fun f parented ino tmpPath g c drawn placed => ?_,
      fun f parented k looked _ _ _ => ?_⟩
    · obtain rfl := same f parented
      cases drawn
      cases placed
      rw [leads]
      decide
    · obtain rfl := same f parented
      cases looked
      exact leads
  have wrote := Program.run_visits IsFault
    (atomicWriteText plainSystem (bareName "l") ⟨true, some [7]⟩ firstDraw) linkedDisk
  have faulted : Program.Visits IsFault
      (atomicWriteText plainSystem (bareName "l") ⟨true, some [7]⟩ firstDraw, linkedDisk)
      (Program.play (List.replicate 14 none ++ [some (.os (.other 5)), none])
        (atomicWriteText plainSystem (bareName "l") ⟨true, some [7]⟩ firstDraw, linkedDisk)) :=
    Program.play_visits (by simpa using ⟨_, rfl⟩) .start
  exact ⟨⟨_, wrote, (atomic_write_all_or_nothing _ _ _ _ _ steady _ _ wrote).2.2 rfl, rfl⟩,
    ⟨_, faulted, (atomic_write_all_or_nothing _ _ _ _ _ steady _ _ faulted).2.1 _ rfl, rfl⟩⟩

/-- A link to `m/../x`, where there is no `m` and `x` is another file. -/
def danglingDisk : Disk :=
  flatDisk ⟨0o755, .owner⟩
    [(Name.ofString "l", .link ⟨false, [.name (Name.ofString "m"), .up, .name (Name.ofString "x")]⟩
        ⟨0o777, .owner⟩),
      (Name.ofString "x", .file 0)]
    [⟨[1], ⟨0o644, .owner⟩⟩] (by
      intro n ino found
      simp only [List.lookup_cons, List.lookup_nil] at found
      split at found
      · cases found
      · split at found
        · cases found
          decide
        · cases found)

/-- The call returns, the link still leads nowhere and the other file is overwritten. -/
theorem atomic_write_misses :
    ∃ g, Program.Visits IsFault
        (atomicWriteText plainSystem (bareName "l") ⟨true, some [7]⟩ firstDraw, danglingDisk)
        (.ret (), g) ∧
      seen plainSystem g (bareName "l") = .nothing ∧
      seen plainSystem danglingDisk (bareName "x") = .text [1] 0o644 ∧
      seen plainSystem g (bareName "x") = .text [7] 0o644 ∧
      ¬ Written plainSystem danglingDisk (bareName "l") ⟨true, some [7]⟩ g := by
  have visited := Program.run_visits IsFault
    (atomicWriteText plainSystem (bareName "l") ⟨true, some [7]⟩ firstDraw) danglingDisk
  have lost : seen plainSystem
      ((atomicWriteText plainSystem (bareName "l") ⟨true, some [7]⟩ firstDraw).run danglingDisk).2
      (bareName "l") = .nothing := by decide +kernel
  refine ⟨_, visited, lost, by decide +kernel, by decide +kernel, fun written => ?_⟩
  obtain ⟨bytes, mode, _, there, _⟩ := written.holds
  rw [lost] at there
  cases there

end AsyncPipelines
