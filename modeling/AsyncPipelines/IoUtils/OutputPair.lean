import AsyncPipelines.IoUtils.Preflight

/-!
Two outputs checked together: `check_writable` on both and `same_file` on the pair, and the
two writes that follow.
-/

namespace AsyncPipelines

open Posix

/-- The preflight of `main_async`, with both outputs given: whether they name one file. -/
def checkOutputs (S : System) (a b : PyPath) (drawsA drawsB : Nat → Token) : Io Bool := do
  checkWritable S a drawsA
  checkWritable S b drawsB
  sameFile S a b

structure Grows (g h : Disk) : Prop where
  kept : ∀ k, g.node k ≠ none → h.node k = g.node k
  files : ∀ k i, g.node k = some (.file i) → h.file i = g.file i
  added : ∀ k, g.node k = none → h.node k ≠ none → isDir (h.node k) = true

structure Ready (S : System) (g : Disk) (p target : PyPath) (k : Place Name) : Prop where
  resolved : (resolveSymlinkedTarget S p).run g = (.ok target, g)
  leads : S.lookup g true p = .ok k
  looked : S.lookup g false target = .ok k
  free : isDir (g.node k) = false
  allowed : S.refuses g k = none
  writable : ∀ found, g.node k = some found → S.mayWrite (g.rights found) = true

/-- One of the names drawn is free in the directory of the place. -/
def Lucky (S : System) (g : Disk) (target : PyPath) (k : Place Name) (draws : Nat → Token) : Prop :=
  ∃ i < tempAttempts, g.node (S.fold (tempName (pathName target) (draws i)) :: k.tail) = none

section

variable {S : System} {fs f g h made : Disk} {c k : Place Name} {p path target : PyPath} {text : Text}
  {draws : Nat → Token}

theorem Grows.trans (first : Grows f g) (second : Grows g h) : Grows f h where
  kept k there := by
    have same := first.kept k there
    rw [second.kept k (by rwa [same]), same]
  files k i there := by
    have same : g.node k = some (.file i) := by rw [first.kept k (by simp [there]), there]
    rw [second.files k i same, first.files k i there]
  added k missing there := by
    cases middle : g.node k with
    | none => exact second.added k middle there
    | some found =>
        have dir := first.added k missing (by simp [middle])
        rwa [second.kept k (by simp [middle])]

theorem Grows.of_node (node : g.node = f.node) (files : ∀ i, i < f.next → g.file i = f.file i) :
    Grows f g where
  kept k _ := by rw [node]
  files k i there := files i (f.numbered k i there)
  added k missing there := by
    rw [node] at there
    exact absurd missing there

theorem OnlyNewParents.grows (only : OnlyNewParents S f g target) : Grows f g where
  kept := only.kept
  files k i there := only.files i (f.numbered k i there)
  added k missing there := (only.added k missing there).1

theorem Grows.keeps (grows : Grows f g) : Keeps f g := by
  intro k there
  apply grows.kept
  intro missing
  simp [missing, isDir, isLink] at there

theorem Grows.link (grows : Grows f g) {k : Place Name} (link : isLink (g.node k) = true) :
    isLink (f.node k) = true := by
  cases before : f.node k with
  | none =>
      obtain ⟨goal, r, found⟩ := isLink_iff.mp link
      have dir := grows.added k before (by simp [found])
      rw [found] at dir
      cases dir
  | some entry =>
      rwa [grows.kept k (by simp [before]), before] at link

theorem Grows.lookup (grows : Grows f g) {follow : Bool} (found : S.lookup f follow p = .ok k) :
    S.lookup g follow p = .ok k :=
  lookup_keeps grows.keeps found grows.link

theorem Grows.rights (grows : Grows f g) {found : Node Name} (there : f.node k = some found) :
    g.rights found = f.rights found := by
  cases found with
  | dir r => rfl
  | file i => simp only [Fs.rights, grows.files k i there]
  | link goal r => rfl

theorem resolved_cases (leads : S.lookup g true p = .ok k) :
    (∃ j goal r, S.lstat g p = .ok (j, .link goal r) ∧
      (resolveSymlinkedTarget S p).run g = (.ok (S.realpath g p), g)) ∨
    (S.lookup g false p = .ok k ∧ (resolveSymlinkedTarget S p).run g = (.ok p, g)) := by
  have ran := run_resolveSymlinkedTarget (S := S) p g
  by_cases link : ∃ j, S.lookup g false p = .ok j ∧ isLink (g.node j) = true
  · obtain ⟨j, looked, isALink⟩ := link
    obtain ⟨goal, r, found⟩ := isLink_iff.mp isALink
    have listed : S.lstat g p = .ok (j, .link goal r) := entry_ok.mpr ⟨looked, found⟩
    rw [listed] at ran
    exact .inl ⟨j, goal, r, listed, ran⟩
  · right
    have plain : ∀ final, S.lookup g false p = .ok final → isLink (g.node final) = false := by
      intro final looked
      by_contra isALink
      exact link ⟨final, looked, by simpa using isALink⟩
    have looked : S.lookup g false p = .ok k := by rw [← lookup_follow plain, leads]
    refine ⟨looked, ran.trans ?_⟩
    simp only [Kernel.lstat, Kernel.entry, looked]
    rcases found : g.node k with _ | (r | ino | ⟨goal, r⟩)
    · rfl
    · rfl
    · rfl
    · have none := plain k looked
      simp [isLink, found] at none

theorem resolved_alike (alike : Alike f g) (leads : S.lookup f true p = .ok k)
    (resolved : (resolveSymlinkedTarget S p).run f = (.ok target, f)) :
    (resolveSymlinkedTarget S p).run g = (.ok target, g) := by
  have leads' : S.lookup g true p = .ok k := alike.lookup.mpr leads
  have same : S.realpath g p = S.realpath f p := realpath_congr (fun p k target r => alike.link) p
  rcases resolved_cases leads with ⟨j, goal, r, listed, ran⟩ | ⟨looked, ran⟩
  · rw [resolved] at ran
    rcases resolved_cases leads' with ⟨_, _, _, _, ran'⟩ | ⟨looked', _⟩
    · rw [ran', same]
      cases ran
      rfl
    · obtain ⟨looked, found⟩ := entry_ok.mp (alike.link.mpr listed)
      rw [looked'] at looked
      cases looked
      have plain := lookup_not_isLink leads'
      simp [isLink, found] at plain
  · rw [resolved] at ran
    rcases resolved_cases leads' with ⟨j, goal, r, listed, _⟩ | ⟨_, ran'⟩
    · obtain ⟨looked', found⟩ := entry_ok.mp (alike.link.mp listed)
      rw [looked] at looked'
      cases looked'
      have plain := lookup_not_isLink leads
      simp [isLink, found] at plain
    · rw [ran']
      cases ran
      rfl

theorem stat_of_looked (looked : S.lookup g false target = .ok k) (plain : isLink (g.node k) = false) :
    S.lookup g true target = .ok k := by
  rw [lookup_follow, looked]
  intro final found
  rw [looked] at found
  cases found
  exact plain

theorem Ready.plain (ready : Ready S g p target k) : isLink (g.node k) = false :=
  lookup_not_isLink ready.leads

theorem Ready.named (ready : Ready S g p target k) : target.named = true := by
  by_contra unnamed
  have dir := isDir_of_unnamed ready.looked (by simpa using unnamed)
  rw [ready.free] at dir
  cases dir

theorem Ready.refuse (ready : Ready S g p target k) :
    (refuseUnwritableTarget S target).run g = (.ok (), g) := by
  have leads := stat_of_looked ready.looked ready.plain
  rw [run_refuseUnwritableTarget]
  simp only [Kernel.stat, Kernel.entry, leads]
  cases found : g.node k with
  | none => rfl
  | some entry => simp [ready.writable entry found]

theorem Ready.parent (ready : Ready S g p target k) :
    S.lookup g true target.parent = .ok k.tail ∧ S.opens g k.tail = .ok () := by
  have named := ready.named
  have looked := ready.looked
  unfold Path.named at named
  split at named
  · rename_i n last
    rw [Path.eq_child last, lookup_child] at looked
    cases middle : S.lookup g true target.parent with
    | error e =>
        rw [middle] at looked
        cases looked
    | ok d =>
        rw [middle] at looked
        obtain ⟨opened, _, rfl⟩ := enter_ok looked
        exact ⟨rfl, opened⟩
  · cases named

theorem Ready.write (ready : Ready S g p target k) {chance : Chance} {bytes : List UInt8}
    (lucky : Lucky S g target k chance.draws) (known : text.known = true)
    (encoded : text.encoded = some bytes) :
    ∃ h, (atomicWriteText S p text chance).run g = (.ok (), h) ∧ Replaced S g target text k h := by
  obtain ⟨parent, opened⟩ := ready.parent
  have accepts : S.accepts g k.tail = true := by
    have allowed := ready.allowed
    unfold Kernel.refuses at allowed
    split at allowed
    · cases allowed
    · rename_i accepts
      simpa using accepts
  have unguarded : S.guards g k = false := by
    have allowed := ready.allowed
    unfold Kernel.refuses at allowed
    split at allowed
    · cases allowed
    · split at allowed
      · cases allowed
      · rename_i unguarded
        simpa using unguarded
  have making := run_mkdirParents_folder (isFolder_iff.mpr ⟨_, parent, isDir_of_opens opened⟩)
  obtain ⟨ino, tmpPath, g', drawing⟩ := createTemp_of_free ⟨parent, opened, accepts⟩ lucky
  obtain ⟨n, rfl, created⟩ := createTemp_ok drawing
  obtain ⟨c, placed, rfl, held, empty⟩ := Held.of_create created
  rcases finishing : Program.run
    (do
      fillTemp S g.next text chance.spill
      copyExistingMode S target (target.parent.child n)
      Io.os fun fs => S.replace fs (target.parent.child n) target) g' with ⟨ended, h⟩
  have renames : Renames S g' target := by
    have looked : S.lookup g' false target = .ok k := held.lookup.mpr ready.looked
    have entry : g'.node k = some (.file g.next) ∨ g'.node k = g.node k := by
      rw [held.node]
      split
      · exact .inl rfl
      · exact .inr rfl
    refine ⟨ready.named, ⟨k, looked, ?_, ?_⟩, fun e refused => ?_⟩
    · rcases entry with isTemp | same
      · rw [isTemp]
        rfl
      · rw [same, ready.free]
    · by_cases same : k = c
      · rw [same]
        exact held.unguarded
      · have outside : k.tail ≠ c := by
          intro parent
          have dir := accepts_isDir accepts
          rw [parent, held.missing] at dir
          cases dir
        have parent : g'.node k.tail = g.node k.tail := by rw [held.node, if_neg outside]
        have here : g'.node k = g.node k := by rw [held.node, if_neg same]
        rw [guards_congr parent here]
        · exact unguarded
        · exact fun found there => congrArg Rights.standing (held.rights there)
    · have plain : isLink (g'.node k) = false := by
        rcases entry with isTemp | same
        · rw [isTemp]
          rfl
        · rw [same, ready.plain]
      have leads := stat_of_looked looked plain
      simp only [Kernel.stat, Kernel.entry, leads] at refused
      split at refused
      · cases refused
        rfl
      · cases refused
  have done : ended = .ok () := (held.run_rest placed known encoded finishing).1.mpr renames
  subst done
  have replaced := (holds_rest text target chance.spill held placed empty).run
  rw [finishing] at replaced
  obtain ⟨k', replaced⟩ := replaced
  have same : k' = k := by
    have looked := replaced.looked
    rw [ready.looked] at looked
    cases looked
    rfl
  subst same
  refine ⟨h, ?_, replaced⟩
  simp only [atomicWriteText, Program.run_bind, ready.resolved, ready.refuse, making, drawing,
    Program.run_attempt]
  simp only [Program.run_bind] at finishing
  simp only [finishing, Program.run_pure]

theorem Replaced.alike (replaced : Replaced S f target text k g) (plain : isLink (f.node k) = false) :
    Alike f g where
  there j there := by
    apply replaced.rest
    rintro rfl
    simp [replaced.free, plain] at there
  back j there := by
    refine (replaced.rest ?_).symm
    rintro rfl
    rw [replaced.node, if_pos rfl] at there
    simp [isDir, isLink] at there

/-- Writing one path leaves another that is ready so, if it leads elsewhere. -/
theorem Ready.after {q goal : PyPath} {j : Place Name} (ready : Ready S f q goal j)
    (replaced : Replaced S f target text k g) (plain : isLink (f.node k) = false) (apart : j ≠ k) :
    Ready S g q goal j := by
  have alike := replaced.alike plain
  have same := replaced.rest apart
  have parent : g.node j.tail = f.node j.tail :=
    alike.there _ (.inl (isDir_of_opens ready.parent.2))
  have rights : ∀ found, f.node j = some found → g.rights found = f.rights found := by
    intro found there
    cases found with
    | dir r => rfl
    | file i =>
        have known := f.numbered j i there
        simp only [Fs.rights, replaced.file i (by omega)]
    | link to_ r => rfl
  refine ⟨resolved_alike alike ready.leads ready.resolved, alike.lookup.mpr ready.leads,
    alike.lookup.mpr ready.looked, by rw [same, ready.free], ?_, fun found there => ?_⟩
  · have allowed := ready.allowed
    unfold Kernel.refuses at allowed ⊢
    rw [accepts_congr parent, guards_congr parent same fun found there => by rw [rights found there]]
    exact allowed
  · rw [same] at there
    rw [rights found there]
    exact ready.writable found there

theorem run_pathExists (p : PyPath) (g : Disk) :
    (pathExists S p).run g = (.ok (S.stat g p).isOk, g) := by
  simp only [pathExists, Program.run_bind, Program.run_attempt, Io.run_ask]
  cases S.stat g p <;> rfl

theorem ask_still {α : Type} (answer : Disk → Except Errno α) : (Io.ask answer).Still := by
  intro g
  rw [Io.run_ask]

theorem samefile_still (a b : PyPath) : (samefile S a b).Still :=
  (ask_still _).bind fun _ => (ask_still _).bind fun _ => ask_still _

theorem probe_still (a b : PyPath) : (probe S a b).Still := by
  refine Program.Still.bind (fun g => by rw [run_pathExists]) fun answer => ?_
  cases answer with
  | true => exact samefile_still a b
  | false => exact fun _ => rfl

theorem samefile_true {a b : PyPath} {entry : Node Name} (first : S.stat g a = .ok (k, entry))
    (second : S.stat g b = .ok (k, entry)) : (samefile S a b).run g = (.ok true, g) := by
  have same : g.same k k := .inl rfl
  simp [samefile, Program.run_bind, Io.run_ask, first, second, Except.mapError, same]

/-- What `same_file` does where neither path exists: it makes the first, asks about the
second and removes the first again. -/
theorem run_sameFile_missing {a b ra rb : PyPath} (first : S.realpath g a = ra)
    (second : S.realpath g b = rb) (differ : ra ≠ rb) (noFirst : (S.stat g ra).isOk = false)
    (noSecond : (S.stat g rb).isOk = false) :
    (∃ e, (sameFile S a b).run g = (.error e, g)) ∨
      ∃ c held after, S.lookup g false ra = .ok c ∧ Held S g c held ∧ after.node = g.node ∧
        after.file = held.file ∧
        (sameFile S a b).run g = (((probe S ra rb).run held).1, after) := by
  subst first second
  simp only [sameFile, Program.run_bind, Io.run_ask, Except.mapError, differ, if_false, run_pathExists,
    noFirst, noSecond, Bool.and_self, Bool.or_self, Bool.false_eq_true, Io.run_os, Program.run_attempt]
  rcases creating : S.create g (S.realpath g a) 0o600 with ⟨e | ino, held⟩
  · exact .inl ⟨.os e, by rw [create_error creating]⟩
  · obtain ⟨c, placed, rfl, isHeld, _⟩ := Held.of_create creating
    obtain ⟨after, removed, node, file⟩ := isHeld.unlink_temp placed
    have same := probe_still (S := S) (S.realpath g a) (S.realpath g b) held
    simp only [same, removed, Program.run_ofExcept]
    exact .inr ⟨c, held, after, placed, isHeld, node, file, rfl⟩

theorem sameFile_still {a b : PyPath} {result : Except Failure Bool}
    (ran : (sameFile S a b).run g = (result, h)) :
    h.node = g.node ∧ ∀ i, i < g.next → h.file i = g.file i := by
  by_cases differ : S.realpath g a = S.realpath g b
  · simp only [sameFile, Program.run_bind, Io.run_ask, Except.mapError, differ, if_true] at ran
    cases ran
    exact ⟨rfl, fun _ _ => rfl⟩
  by_cases first : (S.stat g (S.realpath g a)).isOk = true <;>
    by_cases second : (S.stat g (S.realpath g b)).isOk = true
  · have kept := samefile_still (S := S) (S.realpath g a) (S.realpath g b) g
    simp only [sameFile, Program.run_bind, Io.run_ask, Except.mapError, differ, if_false, run_pathExists,
      first, second, Bool.and_self, if_true] at ran
    rw [ran] at kept
    obtain rfl : h = g := kept
    exact ⟨rfl, fun _ _ => rfl⟩
  · simp only [sameFile, Program.run_bind, Io.run_ask, Except.mapError, differ, if_false, run_pathExists,
      first, second, Bool.true_and, Bool.true_or, if_true] at ran
    cases ran
    exact ⟨rfl, fun _ _ => rfl⟩
  · simp only [sameFile, Program.run_bind, Io.run_ask, Except.mapError, differ, if_false, run_pathExists,
      first, second, Bool.false_and, Bool.false_or, if_true] at ran
    cases ran
    exact ⟨rfl, fun _ _ => rfl⟩
  · rcases run_sameFile_missing rfl rfl differ (by simpa using first) (by simpa using second) with
      ⟨e, failed⟩ | ⟨c, held, after, _, isHeld, node, file, ended⟩
    · rw [failed] at ran
      cases ran
      exact ⟨rfl, fun _ _ => rfl⟩
    · rw [ended] at ran
      cases ran
      refine ⟨node, fun i old => ?_⟩
      rw [file]
      exact isHeld.file i (by omega)

/-- Of two paths that lead to one place, `same_file` never answers that they differ. -/
theorem sameFile_false {a b : PyPath} (ran : (sameFile S a b).run g = (.ok false, h))
    (first : S.lookup g true a = .ok k) (second : S.lookup g true b = .ok k)
    (anchored : S.Anchored g a) (anchored' : S.Anchored g b) : False := by
  have ra : ∀ follow, S.lookup g follow (S.realpath g a) = .ok k :=
    fun follow => lookup_realpath anchored first
  have rb : ∀ follow, S.lookup g follow (S.realpath g b) = .ok k :=
    fun follow => lookup_realpath anchored' second
  by_cases differ : S.realpath g a = S.realpath g b
  · simp only [sameFile, Program.run_bind, Io.run_ask, Except.mapError, differ, if_true] at ran
    cases ran
  cases found : g.node k with
  | some entry =>
      have statA : S.stat g (S.realpath g a) = .ok (k, entry) := entry_ok.mpr ⟨ra true, found⟩
      have statB : S.stat g (S.realpath g b) = .ok (k, entry) := entry_ok.mpr ⟨rb true, found⟩
      simp only [sameFile, Program.run_bind, Io.run_ask, Except.mapError, differ, if_false, run_pathExists,
        statA, statB, Except.isOk, Except.toBool, Bool.and_self, if_true,
        samefile_true statA statB] at ran
      cases ran
  | none =>
      have missing : ∀ p, S.lookup g true p = .ok k → (S.stat g p).isOk = false := by
        intro p leads
        simp [Kernel.stat, Kernel.entry, leads, found, Except.isOk, Except.toBool]
      rcases run_sameFile_missing rfl rfl differ (missing _ (ra true)) (missing _ (rb true)) with
        ⟨e, failed⟩ | ⟨c, held, after, placed, isHeld, _, _, ended⟩
      · rw [failed] at ran
        cases ran
      · rw [ra] at placed
        cases placed
        have isTemp : held.node k = some (.file g.next) := by rw [isHeld.node, if_pos rfl]
        have statA : S.stat held (S.realpath g a) = .ok (k, .file g.next) :=
          entry_ok.mpr ⟨isHeld.lookup.mpr (ra true), isTemp⟩
        have statB : S.stat held (S.realpath g b) = .ok (k, .file g.next) :=
          entry_ok.mpr ⟨isHeld.lookup.mpr (rb true), isTemp⟩
        have asked : (probe S (S.realpath g a) (S.realpath g b)).run held = (.ok true, held) := by
          simp only [probe, Program.run_bind, run_pathExists, statB, Except.isOk, Except.toBool, if_true,
            samefile_true statA statB]
        rw [ended, asked] at ran
        cases ran

end

/-- What a path keeps from `f`, where it was checked, to `g`, after the preflight: it resolves
to the same target, it leads to a place that is no directory and that no sticky bit guards,
a file it has only now come to lead to may be written, and its resolved text starts where it
can be reached. -/
structure Steadfast (S : System) (f g : Disk) (p target : PyPath) (k : Place Name) : Prop where
  checked : (resolveSymlinkedTarget S p).run f = (.ok target, f)
  resolved : (resolveSymlinkedTarget S p).run g = (.ok target, g)
  leads : S.lookup g true p = .ok k
  free : isDir (g.node k) = false
  unguarded : S.guards g k = false
  writable : ∀ found, g.node k = some found → S.stat f target = .error .ENOENT →
    S.mayWrite (g.rights found) = true
  anchored : S.Anchored g p

section

variable {S : System} {f f' g : Disk} {k : Place Name} {p target : PyPath} {draws : Nat → Token}

/-- A path that passed its check and is steadfast is ready to be written. -/
theorem Steadfast.ready (steadfast : Steadfast S f g p target k)
    (passed : (checkWritable S p draws).run f = (.ok (), f')) (grows : Grows f g)
    (later : Grows f' g) : Ready S g p target k := by
  have plain : isLink (g.node k) = false := lookup_not_isLink steadfast.leads
  have looked : S.lookup g false target = .ok k := by
    rcases resolved_cases steadfast.leads with ⟨_, _, _, _, ran⟩ | ⟨looked, ran⟩
    · rw [steadfast.resolved] at ran
      cases ran
      exact lookup_realpath steadfast.anchored steadfast.leads
    · rw [steadfast.resolved] at ran
      cases ran
      exact looked
  have named : target.named = true := by
    by_contra unnamed
    have dir := isDir_of_unnamed looked (by simpa using unnamed)
    rw [steadfast.free] at dir
    cases dir
  obtain ⟨target', made, prepared, ⟨ino, tmpPath, held, drawn⟩, node⟩ := (check_spec passed).2.2.2 rfl
  have same : target' = target := by
    have again := prepared.aims.1
    rw [steadfast.checked] at again
    cases again
    rfl
  subst same
  obtain ⟨n, rfl, created⟩ := createTemp_ok drawn
  obtain ⟨c, placed, _, isHeld, _⟩ := Held.of_create created
  have accepts : S.accepts g k.tail = true := by
    have placed' : S.lookup g false (target'.parent.child n) = .ok c := by
      apply later.lookup
      rw [lookup_congr node]
      exact placed
    obtain ⟨r, dir⟩ := isDir_iff.mp (accepts_isDir isHeld.accepts)
    have kept : g.node c.tail = made.node c.tail := by
      rw [later.kept _ (by rw [node, dir]; simp), node]
    rw [same_parent named placed' looked, accepts_congr kept]
    exact isHeld.accepts
  have allowed : S.refuses g k = none := by
    unfold Kernel.refuses
    rw [accepts, steadfast.unguarded]
    rfl
  refine ⟨steadfast.resolved, steadfast.leads, looked, steadfast.free, allowed, fun found there => ?_⟩
  have asked := prepared.aims.2
  rw [run_refuseUnwritableTarget] at asked
  cases stated : S.stat f target' with
  | error e =>
      rw [stated] at asked
      cases e with
      | ENOENT => exact steadfast.writable found there stated
      | ENOTDIR | EISDIR | EEXIST | EACCES | EPERM | ELOOP | ENAMETOOLONG | EBUSY | other => cases asked
  | ok entry =>
      obtain ⟨k', found'⟩ := entry
      obtain ⟨leads, there'⟩ := entry_ok.mp stated
      have leads' := grows.lookup leads
      rw [stat_of_looked looked plain] at leads'
      cases leads'
      rw [grows.kept k (by simp [there']), there'] at there
      cases there
      rw [grows.rights there']
      rw [stated] at asked
      simp only at asked
      split at asked
      · assumption
      · cases asked

theorem check_grows {result : Except Failure Unit} (ran : (checkWritable S p draws).run f = (result, g)) :
    Grows f g := by
  rcases (check_spec ran).2.2.1 with ⟨target, _, only⟩ | same
  · exact only.grows
  · exact .of_node (by rw [same]) fun i _ => by rw [same]

theorem checkOutputs_grows (fs : Disk) (a b : PyPath) (drawsA drawsB : Nat → Token) :
    Grows fs ((checkOutputs S a b drawsA drawsB).run fs).2 := by
  simp only [checkOutputs, Program.run_bind]
  rcases checkedA : (checkWritable S a drawsA).run fs with ⟨e | ⟨⟩, fs₁⟩
  · exact check_grows checkedA
  · simp only
    rcases checkedB : (checkWritable S b drawsB).run fs₁ with ⟨e | ⟨⟩, fs₂⟩
    · exact (check_grows checkedA).trans (check_grows checkedB)
    · obtain ⟨node, files⟩ := @sameFile_still S fs₂ _ a b _ rfl
      exact ((check_grows checkedA).trans (check_grows checkedB)).trans (.of_node node files)

end

/-- The preflight changes nothing but adds directories, however it ends; and where both checks
pass, the two are told apart and both paths are steadfast, both writes succeed and each path
then shows its own text. -/
theorem output_pair_sound (S : System) (fs : Disk) (a b : PyPath) (drawsA drawsB : Nat → Token) :
    Grows fs ((checkOutputs S a b drawsA drawsB).run fs).2 ∧
    ∀ fs₁ fs₂ fs₃, (checkWritable S a drawsA).run fs = (.ok (), fs₁) →
      (checkWritable S b drawsB).run fs₁ = (.ok (), fs₂) → (sameFile S a b).run fs₂ = (.ok false, fs₃) →
      ∀ targetA targetB kA kB, Steadfast S fs fs₃ a targetA kA → Steadfast S fs₁ fs₃ b targetB kB →
      ∀ (x y : List UInt8) (textA textB : Text) (chanceA chanceB : Chance),
        textA.known = true → textA.encoded = some x → textB.known = true → textB.encoded = some y →
        Lucky S fs₃ targetA kA chanceA.draws →
        (∀ g, (atomicWriteText S a textA chanceA).run fs₃ = (.ok (), g) →
          Lucky S g targetB kB chanceB.draws) →
        ∃ g₁ g₂, (atomicWriteText S a textA chanceA).run fs₃ = (.ok (), g₁) ∧
          (atomicWriteText S b textB chanceB).run g₁ = (.ok (), g₂) ∧
          (∃ mode, seen S g₂ a = .text x mode) ∧ ∃ mode, seen S g₂ b = .text y mode := by
  refine ⟨checkOutputs_grows fs a b drawsA drawsB, ?_⟩
  intro fs₁ fs₂ fs₃ checkedA checkedB differ
  obtain ⟨node, files⟩ := sameFile_still differ
  have last : Grows fs₂ fs₃ := .of_node node files
  have growsB : Grows fs₁ fs₃ := (check_grows checkedB).trans last
  have growsA : Grows fs fs₃ := (check_grows checkedA).trans growsB
  intro targetA targetB kA kB steadyA steadyB x y textA textB chanceA chanceB knownA encodedA knownB
    encodedB luckyA luckyB
  have readyA := steadyA.ready checkedA growsA growsB
  have readyB := steadyB.ready checkedB growsB last
  have apart : kB ≠ kA := by
    rintro rfl
    have back : ∀ p, S.lookup fs₂ true p = S.lookup fs₃ true p := fun p => (lookup_congr node true p).symm
    have anchored : ∀ p, S.Anchored fs₃ p → S.Anchored fs₂ p := by
      rintro p (absolute | reachable)
      · exact .inl absolute
      · refine .inr ?_
        unfold Kernel.cwdReachable at reachable ⊢
        rwa [walk_congr node] at reachable
    exact sameFile_false differ ((back a).trans steadyA.leads) ((back b).trans steadyB.leads)
      (anchored a steadyA.anchored) (anchored b steadyB.anchored)
  obtain ⟨g₁, wroteA, replacedA⟩ := readyA.write luckyA knownA encodedA
  have readyB' := readyB.after replacedA readyA.plain apart
  obtain ⟨g₂, wroteB, replacedB⟩ := readyB'.write (luckyB g₁ wroteA) knownB encodedB
  have alikeA := replacedA.alike readyA.plain
  have alikeB := replacedB.alike readyB'.plain
  refine ⟨g₁, g₂, wroteA, wroteB, ⟨(g₁.file fs₃.next).rights.mode, ?_⟩,
    ⟨(g₂.file g₁.next).rights.mode, ?_⟩⟩
  · have leads : S.lookup g₂ true a = .ok kA := alikeB.lookup.mpr (alikeA.lookup.mpr readyA.leads)
    have written : g₁.node kA = some (.file fs₃.next) := by rw [replacedA.node, if_pos rfl]
    have there : g₂.node kA = some (.file fs₃.next) := by rw [replacedB.rest (Ne.symm apart), written]
    have known := g₁.numbered kA _ written
    have content := replacedA.encoded
    rw [encodedA] at content
    rw [seen_file leads there, replacedB.file _ (by omega), Option.some.inj content]
  · have leads : S.lookup g₂ true b = .ok kB := alikeB.lookup.mpr readyB'.leads
    have there : g₂.node kB = some (.file g₁.next) := by rw [replacedB.node, if_pos rfl]
    have content := replacedB.encoded
    rw [encodedB] at content
    rw [seen_file leads there, Option.some.inj content]

def checkedDisk (a b : PyPath) : Disk × Disk × Disk :=
  let first := ((checkWritable plainSystem a firstDraw.draws).run emptyDisk).2
  let second := ((checkWritable plainSystem b firstDraw.draws).run first).2
  (first, second, ((sameFile plainSystem a b).run second).2)

theorem output_pair_sound_new :
    ∃ g₁ g₂,
      (atomicWriteText plainSystem (bareName "a") ⟨true, some [7]⟩ firstDraw).run
          (checkedDisk (bareName "a") (bareName "b")).2.2 = (.ok (), g₁) ∧
        (atomicWriteText plainSystem (bareName "b") ⟨true, some [8]⟩ firstDraw).run g₁ = (.ok (), g₂) ∧
        (∃ mode, seen plainSystem g₂ (bareName "a") = .text [7] mode) ∧
        ∃ mode, seen plainSystem g₂ (bareName "b") = .text [8] mode := by
  refine (output_pair_sound plainSystem emptyDisk (bareName "a") (bareName "b") firstDraw.draws
    firstDraw.draws).2 (checkedDisk (bareName "a") (bareName "b")).1
    (checkedDisk (bareName "a") (bareName "b")).2.1 (checkedDisk (bareName "a") (bareName "b")).2.2
    rfl rfl rfl (bareName "a") (bareName "b") [Name.ofString "a"] [Name.ofString "b"] ?_ ?_ [7] [8]
    ⟨true, some [7]⟩ ⟨true, some [8]⟩ firstDraw firstDraw rfl rfl rfl rfl ?_ ?_
  · exact ⟨rfl, rfl, rfl, rfl, rfl, (fun found there => by cases there), .inr rfl⟩
  · exact ⟨rfl, rfl, rfl, rfl, rfl, (fun found there => by cases there), .inr rfl⟩
  · exact ⟨0, by decide, rfl⟩
  · intro g wrote
    cases wrote
    exact ⟨0, by decide, rfl⟩

/-- `out` and `out/report.json`, neither there: the second check makes a directory of the
first path, the two are told apart, and the first write fails. -/
theorem output_pair_nested :
    let a : PyPath := bareName "out"
    let b : PyPath := ⟨false, [.name (Name.ofString "out"), .name (Name.ofString "report.json")]⟩
    ((checkWritable plainSystem a firstDraw.draws).run emptyDisk).1 = .ok () ∧
      ((checkWritable plainSystem b firstDraw.draws).run (checkedDisk a b).1).1 = .ok () ∧
      ((sameFile plainSystem a b).run (checkedDisk a b).2.1).1 = .ok false ∧
      ((atomicWriteText plainSystem a ⟨true, some [7]⟩ firstDraw).run (checkedDisk a b).2.2).1 =
        .error (.os .EISDIR) :=
  ⟨rfl, rfl, rfl, rfl⟩

end AsyncPipelines
