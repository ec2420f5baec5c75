import AsyncPipelines.IoUtils.Parents

/-!
The preflight against the writer, where no call faults: `check_writable` stops before the
rename, and the two part where only the rename would fail.
-/

namespace AsyncPipelines

open Posix

structure Prepared (S : System) (fs : Disk) (path target : PyPath) (made : Disk) : Prop where
  aims : Aims S fs path target
  parents : (mkdirParents S target.parent).run fs = (.ok (), made)

structure Renames (S : System) (g : Disk) (target : PyPath) : Prop where
  named : target.named = true
  free : ∃ k, S.lookup g false target = .ok k ∧ isDir (g.node k) = false ∧ S.guards g k = false
  stated : ∀ e, S.stat g target = .error e → e = .ENOENT

def HasTemp (S : System) (made : Disk) (target : PyPath) (draws : Nat → Token) : Prop :=
  ∃ ino tmpPath g, (createTemp S target draws).run made = (.ok (ino, tmpPath), g)

/-- The entry at the target's own name, in the directory at `d`, can be replaced by a temporary
file at `c`: the name is not over-long, no directory stands there, the sticky bit does not keep
the entry from the process, and the mode of what the target leads to can be read. -/
structure Replaceable (S : System) (h : Disk) (target : PyPath) (d c : Place Name) : Prop where
  named : target.named = true
  short : S.tooLong (pathName target) = false
  free : isDir (h.node (S.fold (pathName target) :: d)) = false
  unguarded : S.guards h (S.fold (pathName target) :: d) = false
  legible : ∀ g, Held S h c g → ∀ e, S.stat g target = .error e → e = .ENOENT

/-- What a target must be, before the call and with its missing parents there: if it leads to
no directory before the call, its own entry can be replaced; if it does, it cannot; and a free
name is drawn by both or by none, unless that makes no difference. -/
structure Foretold (S : System) (fs h : Disk) (target : PyPath) (d : Place Name) (draws draws' : Nat → Token) :
    Prop where
  plain : ¬ IsFolder S fs target → (∃ c, FreeDraw S h target d draws c) →
    ∃ c, FreeDraw S h target d draws' c ∧ Replaceable S h target d c
  folder : IsFolder S fs target → ∀ c, FreeDraw S h target d draws' c → ¬ Replaceable S h target d c
  taken : ¬ IsFolder S fs target → (∀ c, ¬ FreeDraw S h target d draws c) →
    ∀ c, FreeDraw S h target d draws' c → ¬ Replaceable S h target d c

/-- Every target that is missing or may be written is so, in the filesystem with its missing
parents, if its directory takes new entries there. -/
def Foretells (S : System) (fs : Disk) (path : PyPath) (draws draws' : Nat → Token) : Prop :=
  ∀ target h d, Aims S fs path target → Paved S target.absolute fs target.parent.parts.reverse h →
    Opened S h target d → Foretold S fs h target d draws draws'

def RaisesOs {α : Type} (p : Io α) (fs : Disk) : Prop :=
  ∃ e, (p.run fs).1 = .error e ∧ e.isOs = true

/-- The filesystem as it was, but for new directories at parents of the target. -/
structure OnlyNewParents (S : System) (fs g : Disk) (target : PyPath) : Prop where
  kept : ∀ k, fs.node k ≠ none → g.node k = fs.node k
  files : ∀ i, i < fs.next → g.file i = fs.file i
  added : ∀ k, fs.node k = none → g.node k ≠ none → isDir (g.node k) = true ∧
    ∃ q : PyPath, q.absolute = target.absolute ∧ q.parts <+: target.parts.dropLast ∧
      S.lookup g false q = .ok k

section

variable {S : System} {fs f g made : Disk} {c : Place Name} {path target : PyPath} {text : Text}
  {draws : Nat → Token}

theorem createTemp_error {e : Failure} (drawn : (createTemp S target draws).run f = (.error e, g)) :
    g = f ∧ e.isOs = true := by
  have holds : Program.Holds IsFault (fun _ => True)
      (fun result after => ∀ e, result = .error e → after = f ∧ e.isOs = true)
      (createTemp S target draws) f := by
    refine holds_createTemp trivial (fun _ _ _ _ _ => ⟨trivial, nofun⟩) fun e isOs _ same => ?_
    cases same
    exact ⟨rfl, isOs⟩
  have ended := holds.run
  rw [drawn] at ended
  exact ended e rfl

theorem mkdirParents_run {result : Except Failure Unit}
    (ran : (mkdirParents S target.parent).run fs = (result, made)) : OnlyParents S target fs result made := by
  have holds : Program.Holds IsFault (Parented S target fs) (OnlyParents S target fs)
      (mkdirParents S target.parent) fs := holds_mkdirParents target .start
  have ended := holds.run
  rw [ran] at ended
  exact ended

theorem Held.accepts_temp (held : Held S f c g) : S.accepts g c.tail = true := by
  have outside : c.tail ≠ c := by
    intro same
    have dir := accepts_isDir held.accepts
    rw [same, held.missing] at dir
    cases dir
  have same : g.node c.tail = f.node c.tail := by rw [held.node, if_neg outside]
  rw [accepts_congr same]
  exact held.accepts

theorem Held.unguarded (held : Held S f c g) : S.guards g c = false := by
  have mine : (g.rights (.file f.next)).standing.owns = true := held.mine
  unfold Kernel.guards
  rw [held.node c, if_pos rfl]
  cases g.node c.tail with
  | none => rfl
  | some parent =>
      cases parent with
      | dir r => simp [mine]
      | file ino => rfl
      | link goal r => rfl

theorem Held.refuses_temp (held : Held S f c g) : S.refuses g c = none := by
  unfold Kernel.refuses
  rw [held.accepts_temp, held.unguarded]
  rfl

theorem Held.unlink_temp (held : Held S f c g) {tmpPath : PyPath}
    (placed : S.lookup f false tmpPath = .ok c) :
    ∃ after, S.unlink g tmpPath = (.ok (), after) ∧ after.node = f.node ∧ after.file = g.file := by
  have listed : S.lookup g false tmpPath = .ok c := held.lookup.mpr placed
  have there : g.node c = some (.file f.next) := by rw [held.node, if_pos rfl]
  have removed : ∃ after, S.unlink g tmpPath = (.ok (), after) := by
    unfold Kernel.unlink
    rw [listed]
    simp [there, held.refuses_temp, isDir]
  obtain ⟨after, removed⟩ := removed
  exact ⟨after, removed, held.unlinked placed removed⟩

theorem run_writePieces (ino : Nat) (pieces : List (List UInt8)) (fs : Disk) :
    (writePieces ino pieces).run fs = (.ok (), pieces.foldl (fun f piece => f.append ino piece) fs) := by
  induction pieces generalizing fs with
  | nil => rfl
  | cons piece rest ih =>
      rw [writePieces, Program.run_bind, Io.run_os]
      exact ih _

theorem held_pieces (held : Held S f c g) (pieces : List (List UInt8)) :
    Held S f c (pieces.foldl (fun f' piece => f'.append f.next piece) g) := by
  induction pieces generalizing g with
  | nil => exact held
  | cons piece rest ih => exact ih (held.append piece)

theorem run_fillTemp {ino : Nat} {bytes spill : List UInt8} (known : text.known = true)
    (encoded : text.encoded = some bytes) (fs : Disk) :
    (fillTemp S ino text spill).run fs =
      (.ok (), (S.cut bytes).foldl (fun f piece => f.append ino piece) fs) := by
  simp only [fillTemp, Program.run_bind, Program.run_perform, known, encoded, Program.run_attempt,
    run_writePieces, Io.run_ask, if_true, Except.mapError]

theorem Held.guards {h : Disk} (held : Held S f c g) (later : Held S f c h) (k : Place Name) :
    S.guards h k = S.guards g k := by
  apply guards_congr
  · rw [later.node, held.node]
  · rw [later.node, held.node]
  · intro found there
    rw [held.node] at there
    split at there
    · cases there
      exact later.standing.trans held.standing.symm
    · rw [held.rights there, later.rights there]

theorem Held.node_eq {h : Disk} (held : Held S f c g) (later : Held S f c h) : h.node = g.node :=
  funext fun k => by rw [later.node, held.node]

theorem Held.run_copy (held : Held S f c g) (target : PyPath) {tmpPath : PyPath} (placed : S.lookup f false tmpPath = .ok c) :
    Held S f c ((copyExistingMode S target tmpPath).run g).2 ∧
      (∀ e, ((copyExistingMode S target tmpPath).run g).1 = .error e → e.isOs = true) ∧
      (((copyExistingMode S target tmpPath).run g).1 = .ok () ↔
        ∀ e, S.stat g target = .error e → e = .ENOENT) := by
  have isTemp := held.stat_temp placed
  simp only [copyExistingMode, Program.run_bind, Program.run_attempt, Io.run_ask]
  cases found : S.stat g target with
  | error e =>
      cases e with
      | ENOENT => exact ⟨held, nofun, by simp [Except.map, Except.mapError]⟩
      | ENOTDIR | EISDIR | EEXIST | EACCES | EPERM | ELOOP | ENAMETOOLONG | EBUSY | other =>
          refine ⟨held, fun e same => ?_, by simp [Except.map, Except.mapError]⟩
          simp only [Except.map, Except.mapError, Program.run_fail, Except.error.injEq] at same
          subst same
          rfl
  | ok entry =>
      have allowed : S.privileged || (g.file f.next).rights.standing.owns := by
        simp [held.mine]
      simp only [Except.map, Except.mapError, Io.run_os, Kernel.chmod, isTemp, allowed, if_true]
      exact ⟨held.setFile _ held.standing, nofun, by simp⟩

theorem Held.replace_iff (held : Held S f c g) {n : Name}
    (placed : S.lookup f false (target.parent.child n) = .ok c) :
    (S.replace g (target.parent.child n) target).1 = .ok () ↔
      target.named = true ∧
        ∃ k, S.lookup g false target = .ok k ∧ isDir (g.node k) = false ∧ S.guards g k = false := by
  have there : g.node c = some (.file f.next) := by rw [held.node, if_pos rfl]
  have listed := held.lookup.mpr placed
  constructor
  · intro done
    rcases result : S.replace g (target.parent.child n) target with ⟨e | ⟨⟩, after⟩
    · rw [result] at done
      cases done
    · obtain ⟨source, k, from_temp, to_target, named, _, how⟩ := replace_ok result
      refine ⟨named, k, to_target, ?_⟩
      rw [listed] at from_temp
      cases from_temp
      rcases how with ⟨same, _⟩ | ⟨_, free, _, allowed, _⟩
      · have isTemp : k = c := by
          rcases same with same | ⟨ino, isTemp, found⟩
          · exact same.symm
          · rw [there] at isTemp
            cases isTemp
            by_contra other
            rw [held.node, if_neg other] at found
            have known := f.numbered k _ found
            omega
        subst isTemp
        exact ⟨by rw [there]; rfl, held.unguarded⟩
      · refine ⟨free, ?_⟩
        unfold Kernel.refuses at allowed
        split at allowed
        · cases allowed
        · split at allowed
          · cases allowed
          · rename_i unguarded
            simpa using unguarded
  · rintro ⟨named, k, looked, free, unguarded⟩
    have siblings := same_parent named placed (held.lookup.mp looked)
    have accepts : S.accepts g k.tail = true := by
      rw [siblings]
      exact held.accepts_temp
    have taken : S.refuses g k = none := by
      unfold Kernel.refuses
      rw [accepts, unguarded]
      rfl
    exact replace_of_free listed looked named (by rw [there]; simp) (by rw [there]; rfl) free
      (accepts_isDir accepts) held.refuses_temp taken

theorem Held.run_rest (held : Held S f c g) {n : Name} {bytes spill : List UInt8}
    (placed : S.lookup f false (target.parent.child n) = .ok c) (known : text.known = true)
    (encoded : text.encoded = some bytes) {result : Except Failure Unit} {h : Disk}
    (ran : Program.run
      (do
        fillTemp S f.next text spill
        copyExistingMode S target (target.parent.child n)
        Io.os fun fs => S.replace fs (target.parent.child n) target) g = (result, h)) :
    (result = .ok () ↔ Renames S g target) ∧ ∀ e, result = .error e → e.isOs = true ∧ Held S f c h := by
  rw [Program.run_bind, run_fillTemp known encoded] at ran
  have filled := held_pieces held (S.cut bytes)
  generalize (S.cut bytes).foldl (fun f' piece => f'.append f.next piece) g = g' at ran filled
  have same := held.node_eq filled
  obtain ⟨copied, isOs, copies⟩ := filled.run_copy target placed
  simp only [Program.run_bind] at ran
  rcases copying : (copyExistingMode S target (target.parent.child n)).run g' with ⟨e | ⟨⟩, g''⟩
  · rw [copying] at ran copied isOs copies
    cases ran
    refine ⟨⟨(fun done => by cases done), fun renames => ?_⟩, fun e' same => ?_⟩
    · have stated : ∀ e, S.stat g' target = .error e → e = .ENOENT := by
        intro e
        rw [Kernel.stat, entry_congr same]
        exact renames.stated e
      cases copies.mpr stated
    · cases same
      exact ⟨isOs e rfl, copied⟩
  · rw [copying] at ran copied isOs copies
    have same' := held.node_eq copied
    have stated : ∀ e, S.stat g target = .error e → e = .ENOENT := by
      intro e
      have known := copies.mp rfl e
      rwa [Kernel.stat, entry_congr same] at known
    have last := copied.replace_iff placed
    rw [lookup_congr same', same'] at last
    simp only [Io.run_os] at ran
    rcases moving : S.replace g'' (target.parent.child n) target with ⟨e | ⟨⟩, after⟩
    · rw [moving] at ran last
      obtain rfl := replace_error moving
      cases ran
      refine ⟨⟨(fun done => by cases done), fun renames => ?_⟩, fun e' same => ?_⟩
      · obtain ⟨k, looked, free, unguarded⟩ := renames.free
        rw [← held.guards copied] at unguarded
        cases last.mpr ⟨renames.named, k, looked, free, unguarded⟩
      · cases same
        exact ⟨rfl, copied⟩
    · rw [moving] at ran last
      cases ran
      obtain ⟨named, k, looked, free, unguarded⟩ := last.mp rfl
      rw [held.guards copied] at unguarded
      exact ⟨⟨fun _ => ⟨named, ⟨k, looked, free, unguarded⟩, stated⟩, fun _ => rfl⟩, fun _ failed => by cases failed⟩

theorem Parented.added (parented : Parented S target fs f) {k : Place Name}
    (missing : fs.node k = none) (there : f.node k ≠ none) :
    ∃ q : PyPath, q.absolute = target.absolute ∧ q.parts <+: target.parts.dropLast ∧
      S.lookup f false q = .ok k := by
  induction parented with
  | start => exact absurd missing there
  | @made now after q before absolute above made ih =>
      obtain ⟨here, gone, inside, looked, _, rfl⟩ := mkdir_ok made
      have keeps : ∀ r, Keeps now (now.insertDir here gone inside r) := fun r =>
        keeps_of_missing gone fun k other => by rw [insertDir_node, if_neg other]
      by_cases same : k = here
      · subst same
        refine ⟨q, absolute, above, lookup_keeps (keeps _) looked ?_⟩
        rw [insertDir_node, if_pos rfl]
        exact nofun
      · rw [insertDir_node, if_neg same] at there
        obtain ⟨q', absolute', above', looked'⟩ := ih there
        refine ⟨q', absolute', above', lookup_keeps (keeps _) looked' ?_⟩
        rw [insertDir_node, if_neg same]
        exact id

theorem Parented.onlyNew (parented : Parented S target fs f) (node : g.node = f.node)
    (files : ∀ i, i < f.next → g.file i = f.file i) : OnlyNewParents S fs g target where
  kept k there := by
    rw [node]
    exact parented.grown.kept k there
  files i old := by
    rw [← parented.grown.next] at old
    rw [files i old, parented.grown.file]
  added k missing there := by
    rw [node] at there ⊢
    obtain ⟨q, absolute, above, looked⟩ := parented.added missing there
    exact ⟨parented.grown.added k missing there, q, absolute, above, by rwa [lookup_congr node]⟩

theorem resolve_error {e : Failure} (ran : (resolveSymlinkedTarget S path).run fs = (.error e, g)) :
    e.isOs = true := by
  rw [run_resolveSymlinkedTarget] at ran
  repeat' split at ran
  all_goals cases ran
  rfl

theorem resolve_still {result : Except Failure PyPath}
    (ran : (resolveSymlinkedTarget S path).run fs = (result, g)) : g = fs := by
  rw [run_resolveSymlinkedTarget] at ran
  cases ran
  rfl

theorem refuse_still {result : Except Failure Unit}
    (ran : (refuseUnwritableTarget S target).run fs = (result, g)) : g = fs := by
  rw [run_refuseUnwritableTarget] at ran
  cases ran
  rfl

theorem refuse_error {e : Failure} (ran : (refuseUnwritableTarget S target).run fs = (.error e, g)) :
    e.isOs = true := by
  rw [run_refuseUnwritableTarget] at ran
  repeat' split at ran
  all_goals cases ran
  all_goals rfl

theorem isDir_still {result : Except Failure Bool} (ran : (pathIsDir S target).run fs = (result, g)) :
    g = fs := by
  rw [pathIsDir, run_testEntry] at ran
  cases ran
  rfl

theorem isDir_error {e : Failure} (ran : (pathIsDir S target).run fs = (.error e, g)) :
    e.isOs = true := by
  rw [pathIsDir, run_testEntry] at ran
  repeat' split at ran
  all_goals cases ran
  rfl

theorem isDir_answers (allowed : (refuseUnwritableTarget S target).run fs = (.ok (), fs)) :
    ∃ answer, (pathIsDir S target).run fs = (.ok answer, fs) := by
  rw [run_refuseUnwritableTarget] at allowed
  rw [pathIsDir, run_testEntry]
  cases stated : S.stat fs target with
  | ok found =>
      have stated : S.entry fs true target = .ok found := stated
      rw [stated]
      exact ⟨_, rfl⟩
  | error e =>
      rw [stated] at allowed
      have stated : S.entry fs true target = .error e := stated
      rw [stated]
      cases e with
      | ENOENT => exact ⟨_, rfl⟩
      | ENOTDIR | EISDIR | EEXIST | EACCES | EPERM | ELOOP | ENAMETOOLONG | EBUSY | other => cases allowed

/-- The preflight passes where the path is prepared, its target is no directory and a
temporary file can be made; it leaves nothing but new parents. -/
theorem check_spec {result : Except Failure Unit} (ran : (checkWritable S path draws).run fs = (result, g)) :
    (result = .ok () ↔ ∃ target made, Prepared S fs path target made ∧ ¬ IsFolder S fs target ∧
      HasTemp S made target draws) ∧
    (∀ e, result = .error e → e.isOs = true) ∧
    ((∃ target, (resolveSymlinkedTarget S path).run fs = (.ok target, fs) ∧
        OnlyNewParents S fs g target) ∨
      g = fs) ∧
    (result = .ok () → ∃ target made, Prepared S fs path target made ∧ HasTemp S made target draws ∧
      g.node = made.node) := by
  have rests : ∀ target, (resolveSymlinkedTarget S path).run fs = (.ok target, fs) →
      ∀ target' made, Prepared S fs path target' made → target' = target := by
    intro target resolved target' made prepared
    have again := prepared.aims.1
    rw [resolved] at again
    cases again
    rfl
  rw [checkWritable, Program.run_bind] at ran
  rcases resolving : (resolveSymlinkedTarget S path).run fs with ⟨e | target, fs'⟩
  · rw [resolving] at ran
    obtain rfl := resolve_still resolving
    cases ran
    refine ⟨⟨nofun, ?_⟩, fun e' same => ?_, .inr rfl, nofun⟩
    · rintro ⟨target, made, prepared, _⟩
      have again := prepared.aims.1
      rw [resolving] at again
      cases again
    · cases same
      exact resolve_error resolving
  obtain rfl := resolve_still resolving
  have only := rests target resolving
  simp only [resolving, Program.run_bind] at ran
  rcases testing : (pathIsDir S target).run fs' with ⟨e | answer, fs''⟩
  · simp only [testing] at ran
    obtain rfl := isDir_still testing
    cases ran
    refine ⟨⟨nofun, ?_⟩, fun e' same => ?_, .inr rfl, nofun⟩
    · rintro ⟨target', made, prepared, _⟩
      obtain rfl := only target' made prepared
      obtain ⟨answer, again⟩ := isDir_answers prepared.aims.2
      rw [testing] at again
      cases again
    · cases same
      exact isDir_error testing
  obtain rfl := isDir_still testing
  simp only [testing] at ran
  cases answer with
  | true =>
      cases ran
      refine ⟨⟨nofun, ?_⟩, fun e' same => by cases same; rfl, .inr rfl, nofun⟩
      rintro ⟨target', made, prepared, noFolder, _⟩
      obtain rfl := only target' made prepared
      exact absurd (run_pathIsDir.mp (by rw [testing])) noFolder
  | false =>
      have noFolder : ¬ IsFolder S fs'' target := by
        rw [← run_pathIsDir, testing]
        simp
      simp only [Bool.false_eq_true, if_false, Program.run_bind] at ran
      rcases refusing : (refuseUnwritableTarget S target).run fs'' with ⟨e | ⟨⟩, f⟩
      · simp only [refusing] at ran
        obtain rfl := refuse_still refusing
        cases ran
        refine ⟨⟨nofun, ?_⟩, fun e' same => ?_, .inr rfl, nofun⟩
        · rintro ⟨target', made, prepared, _⟩
          obtain rfl := only target' made prepared
          have again := prepared.aims.2
          rw [refusing] at again
          cases again
        · cases same
          exact refuse_error refusing
      obtain rfl := refuse_still refusing
      simp only [refusing] at ran
      rcases making : (mkdirParents S target.parent).run f with ⟨e | ⟨⟩, made⟩
      · simp only [making] at ran
        obtain ⟨parented, isOs⟩ := mkdirParents_run making
        cases ran
        refine ⟨⟨nofun, ?_⟩, isOs, .inl ⟨target, rfl, parented.onlyNew rfl fun _ _ => rfl⟩, nofun⟩
        rintro ⟨target', made', prepared, _⟩
        obtain rfl := only target' made' prepared
        have again := prepared.parents
        rw [making] at again
        cases again
      simp only [making] at ran
      have parented := (mkdirParents_run making).1
      have prepared : Prepared S f path target made := ⟨⟨resolving, refusing⟩, making⟩
      rcases drawing : (createTemp S target draws).run made with ⟨e | ⟨ino, tmpPath⟩, held⟩
      · simp only [drawing] at ran
        obtain ⟨rfl, isOs⟩ := createTemp_error drawing
        cases ran
        refine ⟨⟨nofun, ?_⟩, fun e' same => ?_, .inl ⟨target, rfl, parented.onlyNew rfl fun _ _ => rfl⟩, nofun⟩
        · rintro ⟨target', made', prepared', _, ino, tmpPath, g, again⟩
          obtain rfl := only target' made' prepared'
          have same := prepared'.parents
          rw [making] at same
          cases same
          rw [drawing] at again
          cases again
        · cases same
          exact isOs
      · simp only [drawing, Io.run_ask, Except.mapError, Io.run_os] at ran
        obtain ⟨n, rfl, created⟩ := createTemp_ok drawing
        obtain ⟨c, placed, rfl, held, _⟩ := Held.of_create created
        obtain ⟨after, removed, node, file⟩ := held.unlink_temp placed
        rw [removed] at ran
        cases ran
        refine ⟨⟨fun _ => ⟨target, made, prepared, noFolder, _, _, _, drawing⟩, fun _ => rfl⟩,
          nofun, .inl ⟨target, rfl, parented.onlyNew node fun i old => ?_⟩,
          fun _ => ⟨target, made, prepared, ⟨_, _, _, drawing⟩, node⟩⟩
        rw [file]
        exact held.file i (by omega)

/-- The writer passes where the path is prepared, a temporary file can be made and the
rename goes through. -/
theorem write_spec {chance : Chance} {bytes : List UInt8} (known : text.known = true)
    (encoded : text.encoded = some bytes) {result : Except Failure Unit}
    (ran : (atomicWriteText S path text chance).run fs = (result, g)) :
    (result = .ok () ↔ ∃ target made, Prepared S fs path target made ∧
      ∃ ino tmpPath held, (createTemp S target chance.draws).run made = (.ok (ino, tmpPath), held) ∧
        Renames S held target) ∧
    (∀ e, result = .error e → e.isOs = true) := by
  rw [atomicWriteText, Program.run_bind] at ran
  rcases resolving : (resolveSymlinkedTarget S path).run fs with ⟨e | target, fs'⟩
  · rw [resolving] at ran
    cases ran
    refine ⟨⟨nofun, ?_⟩, fun e' same => ?_⟩
    · rintro ⟨target, made, prepared, _⟩
      have again := prepared.aims.1
      rw [resolving] at again
      cases again
    · cases same
      exact resolve_error resolving
  obtain rfl := resolve_still resolving
  have only : ∀ target' made, Prepared S fs' path target' made → target' = target := by
    intro target' made prepared
    have again := prepared.aims.1
    rw [resolving] at again
    cases again
    rfl
  simp only [resolving, Program.run_bind] at ran
  rcases refusing : (refuseUnwritableTarget S target).run fs' with ⟨e | ⟨⟩, f⟩
  · simp only [refusing] at ran
    cases ran
    refine ⟨⟨nofun, ?_⟩, fun e' same => ?_⟩
    · rintro ⟨target', made, prepared, _⟩
      obtain rfl := only target' made prepared
      have again := prepared.aims.2
      rw [refusing] at again
      cases again
    · cases same
      exact refuse_error refusing
  obtain rfl := refuse_still refusing
  simp only [refusing] at ran
  rcases making : (mkdirParents S target.parent).run f with ⟨e | ⟨⟩, made⟩
  · simp only [making] at ran
    cases ran
    refine ⟨⟨nofun, ?_⟩, (mkdirParents_run making).2⟩
    rintro ⟨target', made', prepared, _⟩
    obtain rfl := only target' made' prepared
    have again := prepared.parents
    rw [making] at again
    cases again
  simp only [making] at ran
  have prepared : Prepared S f path target made := ⟨⟨resolving, refusing⟩, making⟩
  rcases drawing : (createTemp S target chance.draws).run made with ⟨e | ⟨ino, tmpPath⟩, held⟩
  · simp only [drawing] at ran
    cases ran
    refine ⟨⟨nofun, ?_⟩, fun e' same => ?_⟩
    · rintro ⟨target', made', prepared', ino, tmpPath, g, again, _⟩
      obtain rfl := only target' made' prepared'
      have same := prepared'.parents
      rw [making] at same
      cases same
      rw [drawing] at again
      cases again
    · cases same
      exact (createTemp_error drawing).2
  · simp only [drawing, Program.run_attempt] at ran
    obtain ⟨n, rfl, created⟩ := createTemp_ok drawing
    obtain ⟨c, placed, rfl, isHeld, _⟩ := Held.of_create created
    rcases finishing : Program.run
      (do
        fillTemp S made.next text chance.spill
        copyExistingMode S target (target.parent.child n)
        Io.os fun fs => S.replace fs (target.parent.child n) target) held with ⟨ended, h⟩
    obtain ⟨renames, isOs⟩ := isHeld.run_rest placed known encoded finishing
    simp only [finishing] at ran
    have unique : (∃ target' made', Prepared S f path target' made' ∧
        ∃ ino tmpPath held', (createTemp S target' chance.draws).run made' = (.ok (ino, tmpPath), held') ∧
          Renames S held' target') ↔ Renames S held target := by
      constructor
      · rintro ⟨target', made', prepared', ino, tmpPath, held', again, renames⟩
        obtain rfl := only target' made' prepared'
        have same := prepared'.parents
        rw [making] at same
        cases same
        rw [drawing] at again
        cases again
        exact renames
      · exact fun renames => ⟨target, made, prepared, _, _, held, drawing, renames⟩
    rw [unique, ← renames]
    rcases ended with e | ⟨⟩
    · obtain ⟨isOs, later⟩ := isOs e rfl
      obtain ⟨after, removed, _⟩ := later.unlink_temp placed
      simp only [cleanUp, Program.run_bind, Program.run_attempt, Io.run_os, removed, Except.mapError] at ran
      cases ran
      exact ⟨⟨nofun, nofun⟩, fun e' same => by cases same; exact isOs⟩
    · cases ran
      exact ⟨⟨fun _ => rfl, fun _ => rfl⟩, nofun⟩

theorem hasTemp_iff : HasTemp S made target draws ↔
    ∃ d c, Opened S made target d ∧ FreeDraw S made target d draws c := by
  constructor
  · rintro ⟨ino, tmpPath, g, drawn⟩
    obtain ⟨d, c, opened, draw, _⟩ := createTemp_draws drawn
    exact ⟨d, c, opened, draw⟩
  · rintro ⟨d, c, opened, i, below, rfl, free, _⟩
    exact createTemp_of_free opened ⟨i, below, free⟩

theorem Held.renames (held : Held S f c g) {d : Place Name} (opened : Opened S f target d) :
    Renames S g target ↔ Replaceable S f target d c := by
  have own : target.named = true → S.lookup f false target = S.enter f d (pathName target) := by
    intro named
    rw [eq_child_of_named named, lookup_child, opened.leads, pathName_child]
  have stated : (∀ h, Held S f c h → ∀ e, S.stat h target = .error e → e = .ENOENT) ↔
      ∀ e, S.stat g target = .error e → e = .ENOENT := by
    refine ⟨fun every => every g held, fun here h later e failed => here e ?_⟩
    rwa [Kernel.stat, entry_congr (held.node_eq later)] at failed
  have entry : ∀ k, isDir (g.node k) = isDir (f.node k) ∧ (k.tail = d → S.guards g k = S.guards f k) := by
    intro k
    by_cases same : k = c
    · subst same
      refine ⟨by rw [held.node, if_pos rfl, held.missing]; rfl, fun _ => ?_⟩
      rw [held.unguarded]
      unfold Kernel.guards
      rw [held.missing]
      cases f.node k.tail with
      | none => rfl
      | some found => cases found <;> rfl
    · refine ⟨by rw [held.node, if_neg same], fun inside => guards_congr ?_ ?_ ?_⟩
      · have outside : k.tail ≠ c := by
          intro above
          have dir := isDir_of_opens opened.opens
          rw [← inside, above, held.missing] at dir
          cases dir
        rw [held.node, if_neg outside]
      · rw [held.node, if_neg same]
      · exact fun found there => congrArg Rights.standing (held.rights there)
  constructor
  · rintro ⟨named, ⟨k, looked, free, unguarded⟩, legible⟩
    have entered := held.lookup.mp looked
    rw [own named] at entered
    obtain ⟨_, short, rfl⟩ := enter_ok entered
    rw [(entry _).1] at free
    rw [(entry _).2 rfl] at unguarded
    exact ⟨named, short, free, unguarded, stated.mpr legible⟩
  · rintro ⟨named, short, free, unguarded, legible⟩
    have looked : S.lookup f false target = .ok (S.fold (pathName target) :: d) := by
      rw [own named]
      exact enter_of_opens opened.opens short
    refine ⟨named, ⟨_, held.lookup.mpr looked, ?_, ?_⟩, stated.mp legible⟩
    · rw [(entry _).1, free]
    · rw [(entry _).2 rfl, unguarded]

/-- Only a link at the target's own name can keep its mode from being read. -/
theorem legible_of_plain {d : Place Name} (opened : Opened S f target d) (named : target.named = true)
    (short : S.tooLong (pathName target) = false)
    (plain : isLink (f.node (S.fold (pathName target) :: d)) = false) :
    ∀ g, Held S f c g → ∀ e, S.stat g target = .error e → e = .ENOENT := by
  intro g held e failed
  have looked : S.lookup f false target = .ok (S.fold (pathName target) :: d) := by
    rw [eq_child_of_named named, lookup_child, opened.leads, pathName_child]
    exact enter_of_opens opened.opens short
  have listed : S.lookup g false target = .ok (S.fold (pathName target) :: d) := held.lookup.mpr looked
  have leads : S.lookup g true target = .ok (S.fold (pathName target) :: d) := by
    rw [lookup_follow, listed]
    intro final again
    rw [listed] at again
    cases again
    rwa [held.alike.isLink]
  simp only [Kernel.stat, Kernel.entry, leads] at failed
  split at failed <;> cases failed
  rfl

/-- The writer gets through where a free name is drawn and the entry can be replaced. -/
theorem renames_iff :
    (∃ ino tmpPath held, (createTemp S target draws).run made = (.ok (ino, tmpPath), held) ∧
        Renames S held target) ↔
      ∃ d c, Opened S made target d ∧ FreeDraw S made target d draws c ∧ Replaceable S made target d c := by
  have holding : ∀ {ino : Nat} {tmpPath : PyPath} {held : Disk} {d c : Place Name}, Opened S made target d →
      FreeDraw S made target d draws c → (createTemp S target draws).run made = (.ok (ino, tmpPath), held) →
      Held S made c held := by
    intro ino tmpPath held d c opened draw drawn
    obtain ⟨n, rfl, created⟩ := createTemp_ok drawn
    obtain ⟨c', placed, _, isHeld, _⟩ := Held.of_create created
    obtain ⟨d', c'', opened', draw', looked⟩ := createTemp_draws drawn
    obtain rfl : d = d' := by
      have leads := opened.leads
      rw [opened'.leads] at leads
      cases leads
      rfl
    obtain rfl := draw.unique draw'
    rw [placed] at looked
    cases looked
    exact isHeld
  constructor
  · rintro ⟨ino, tmpPath, held, drawn, renames⟩
    obtain ⟨d, c, opened, draw, _⟩ := createTemp_draws drawn
    exact ⟨d, c, opened, draw, ((holding opened draw drawn).renames opened).mp renames⟩
  · rintro ⟨d, c, opened, draw, replaceable⟩
    obtain ⟨ino, tmpPath, held, drawn⟩ := hasTemp_iff.mpr ⟨d, c, opened, draw⟩
    exact ⟨ino, tmpPath, held, drawn, ((holding opened draw drawn).renames opened).mpr replaceable⟩

theorem Prepared.unique {target' : PyPath} {made' : Disk} (first : Prepared S fs path target made)
    (second : Prepared S fs path target' made') : target' = target ∧ made' = made := by
  have again := second.aims.1
  rw [first.aims.1] at again
  cases again
  have again := second.parents
  rw [first.parents] at again
  cases again
  exact ⟨rfl, rfl⟩

theorem Opened.unique {d d' : Place Name} (first : Opened S made target d) (second : Opened S made target d') :
    d' = d := by
  have leads := second.leads
  rw [first.leads] at leads
  cases leads
  rfl

theorem raisesOs_iff {p : Io Unit} {result : Except Failure Unit} (ran : p.run fs = (result, g))
    (isOs : ∀ e, result = .error e → e.isOs = true) : RaisesOs p fs ↔ ¬ result = .ok () := by
  unfold RaisesOs
  rw [ran]
  rcases result with e | ⟨⟩
  · exact ⟨fun _ => nofun, fun _ => ⟨e, rfl, isOs e rfl⟩⟩
  · simp

/-- What the preflight asks for and what the writer asks for come to the same where the
filesystem before the call foretells it. -/
theorem agree_iff {draws' : Nat → Token} :
    ((∃ target made, Prepared S fs path target made ∧ ¬ IsFolder S fs target ∧
        ∃ d c, Opened S made target d ∧ FreeDraw S made target d draws c) ↔
      ∃ target made, Prepared S fs path target made ∧
        ∃ d c, Opened S made target d ∧ FreeDraw S made target d draws' c ∧ Replaceable S made target d c) ↔
      Foretells S fs path draws draws' := by
  constructor
  · intro agree target made d aims paved opened
    have prepared : Prepared S fs path target made := ⟨aims, run_mkdirParents.mpr paved⟩
    have writing : ∀ c, FreeDraw S made target d draws' c → Replaceable S made target d c →
        ¬ IsFolder S fs target ∧ ∃ c, FreeDraw S made target d draws c := by
      intro c draw replaceable
      obtain ⟨target', made', prepared', noFolder, d', c', opened', draw'⟩ :=
        agree.mpr ⟨target, made, prepared, d, c, opened, draw, replaceable⟩
      obtain ⟨rfl, rfl⟩ := prepared.unique prepared'
      obtain rfl := opened.unique opened'
      exact ⟨noFolder, c', draw'⟩
    refine ⟨fun noFolder free => ?_, fun folder c draw replaceable => ?_,
      fun _ taken c draw replaceable => ?_⟩
    · obtain ⟨c, draw⟩ := free
      obtain ⟨target', made', prepared', d', c', opened', draw', replaceable⟩ :=
        agree.mp ⟨target, made, prepared, noFolder, d, c, opened, draw⟩
      obtain ⟨rfl, rfl⟩ := prepared.unique prepared'
      obtain rfl := opened.unique opened'
      exact ⟨c', draw', replaceable⟩
    · exact (writing c draw replaceable).1 folder
    · obtain ⟨c', draw'⟩ := (writing c draw replaceable).2
      exact taken c' draw'
  · intro foretells
    have foretold : ∀ {target made d}, Prepared S fs path target made → Opened S made target d →
        Foretold S fs made target d draws draws' := fun prepared opened =>
      foretells _ _ _ prepared.aims (run_mkdirParents.mp prepared.parents) opened
    constructor
    · rintro ⟨target, made, prepared, noFolder, d, c, opened, draw⟩
      obtain ⟨c', draw', replaceable⟩ := (foretold prepared opened).plain noFolder ⟨c, draw⟩
      exact ⟨target, made, prepared, d, c', opened, draw', replaceable⟩
    · rintro ⟨target, made, prepared, d, c, opened, draw, replaceable⟩
      have told := foretold prepared opened
      have noFolder : ¬ IsFolder S fs target := fun folder => told.folder folder c draw replaceable
      refine ⟨target, made, prepared, noFolder, d, ?_⟩
      by_contra none
      push Not at none
      exact told.taken noFolder (fun c' => none c' opened) c draw replaceable

/-- For a text that can be encoded, `check_writable` raises an `OSError` exactly when
`atomic_write_text` would, if and only if the filesystem before the call foretells it; either
way it leaves nothing but new parent directories. -/
theorem check_predicts_write (S : System) (fs : Disk) (path : PyPath) (text : Text)
    (draws : Nat → Token) (chance : Chance) (known : text.known = true)
    (encodable : text.encoded.isSome = true) :
    ((RaisesOs (checkWritable S path draws) fs ↔ RaisesOs (atomicWriteText S path text chance) fs) ↔
      Foretells S fs path draws chance.draws) ∧
    ((∃ target, (resolveSymlinkedTarget S path).run fs = (.ok target, fs) ∧
        OnlyNewParents S fs ((checkWritable S path draws).run fs).2 target) ∨
      ((checkWritable S path draws).run fs).2 = fs) := by
  obtain ⟨bytes, encoded⟩ := Option.isSome_iff_exists.mp encodable
  rcases checking : (checkWritable S path draws).run fs with ⟨checked, after⟩
  rcases writing : (atomicWriteText S path text chance).run fs with ⟨wrote, after'⟩
  obtain ⟨passes, checkOs, neutral, _⟩ := check_spec checking
  obtain ⟨writes, writeOs⟩ := write_spec known encoded writing
  refine ⟨?_, neutral⟩
  rw [raisesOs_iff checking checkOs, raisesOs_iff writing writeOs, not_iff_not, passes, writes]
  simp only [renames_iff, hasTemp_iff]
  exact agree_iff

end

def nestedName : PyPath := ⟨false, [.name (Name.ofString "m"), .name (Name.ofString "f")]⟩

theorem check_predicts_write_new :
    Foretells plainSystem emptyDisk nestedName firstDraw.draws firstDraw.draws ∧
      (RaisesOs (checkWritable plainSystem nestedName firstDraw.draws) emptyDisk ↔
        RaisesOs (atomicWriteText plainSystem nestedName ⟨true, some [7]⟩ firstDraw) emptyDisk) := by
  have foretells : Foretells plainSystem emptyDisk nestedName firstDraw.draws firstDraw.draws := by
    intro target h d aims paved opened
    obtain rfl : nestedName = target := by
      have resolved := aims.1
      cases resolved
      rfl
    have made : (mkdirParents plainSystem nestedName.parent).run emptyDisk = (.ok (), h) :=
      run_mkdirParents.mpr paved
    cases made
    obtain rfl : [Name.ofString "m"] = d := by
      have leads := opened.leads
      cases leads
      rfl
    have noFolder : ¬ IsFolder plainSystem emptyDisk nestedName := by
      rintro ⟨k, r, stated⟩
      cases stated
    have draw : FreeDraw plainSystem ((mkdirParents plainSystem nestedName.parent).run emptyDisk).2 nestedName
        [Name.ofString "m"] firstDraw.draws (draft plainSystem nestedName [Name.ofString "m"] firstToken) :=
      ⟨0, by decide, rfl, rfl, fun _ impossible => absurd impossible (Nat.not_lt_zero _)⟩
    exact ⟨fun _ _ => ⟨_, draw, rfl, rfl, rfl, rfl, legible_of_plain opened rfl rfl rfl⟩,
      fun folder => absurd folder noFolder, fun _ taken => absurd draw (taken _)⟩
  exact ⟨foretells, (check_predicts_write plainSystem emptyDisk nestedName ⟨true, some [7]⟩ firstDraw.draws
    firstDraw rfl rfl).1.mpr foretells⟩

def stickyDisk : Disk :=
  flatDisk ⟨0o1777, .other⟩ [(Name.ofString "f", .file 0)] [⟨[1], ⟨0o666, .other⟩⟩] (by
    intro n ino found
    simp only [List.lookup_cons, List.lookup_nil] at found
    split at found
    · cases found
      decide
    · cases found)

/-- The preflight passes, and the rename is refused. -/
theorem check_misses_sticky :
    ¬ (RaisesOs (checkWritable plainSystem (bareName "f") firstDraw.draws) stickyDisk ↔
      RaisesOs (atomicWriteText plainSystem (bareName "f") ⟨true, some [7]⟩ firstDraw) stickyDisk) := by
  have passes : ((checkWritable plainSystem (bareName "f") firstDraw.draws).run stickyDisk).1 = .ok () := rfl
  have refused : ((atomicWriteText plainSystem (bareName "f") ⟨true, some [7]⟩ firstDraw).run
      stickyDisk).1 = .error (.os .EPERM) := rfl
  intro same
  obtain ⟨e, raised, _⟩ := same.mpr ⟨_, refused, rfl⟩
  rw [passes] at raised
  cases raised

end AsyncPipelines
