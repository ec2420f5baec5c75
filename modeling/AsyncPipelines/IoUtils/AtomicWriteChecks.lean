import AsyncPipelines.IoUtils.AtomicWrite

/-!
What each step of the writer and of the preflight does to the filesystem, whichever of its
calls fault.
-/

namespace AsyncPipelines

open Posix

/-- What a call may fail with that the code has no answer for. -/
def IsFault (e : Failure) : Prop := ∃ code, e = .os (.other code)

theorem isOs_of_isFault {e : Failure} (isFault : IsFault e) : e.isOs = true := by
  obtain ⟨code, rfl⟩ := isFault
  rfl

inductive Parented (S : System) (target : PyPath) (fs : Disk) : Disk → Prop
  | start : Parented S target fs fs
  | made {now after : Disk} (q : PyPath) (before : Parented S target fs now)
      (absolute : q.absolute = target.absolute) (above : q.parts <+: target.parts.dropLast)
      (made : S.mkdir now q 0o777 = (.ok (), after)) : Parented S target fs after

section

variable {S : System}

theorem Io.run_os {α : Type} (effect : Disk → Except Errno α × Disk) (fs : Disk) :
    (Io.os effect).run fs = ((effect fs).1.mapError .os, (effect fs).2) := by
  simp [Io.os]

theorem Io.run_ask {α : Type} (answer : Disk → Except Errno α) (fs : Disk) :
    (Io.ask answer).run fs = ((answer fs).mapError .os, fs) := by
  simp [Io.ask, Io.run_os]

variable {α : Type} {inv : Disk → Prop} {post : Except Failure α → Disk → Prop} {fs : Disk}

theorem Io.holds_os {effect : Disk → Except Errno α × Disk} (after : inv (effect fs).2)
    (answered : post ((effect fs).1.mapError .os) (effect fs).2)
    (faulted : ∀ e, IsFault e → post (.error e) fs) :
    Program.Holds IsFault inv post (Io.os effect) fs :=
  .perform after answered faulted

theorem Io.holds_ask {answer : Disk → Except Errno α} (here : inv fs)
    (answered : post ((answer fs).mapError .os) fs)
    (faulted : ∀ e, IsFault e → post (.error e) fs) :
    Program.Holds IsFault inv post (Io.ask answer) fs :=
  .perform here answered faulted

theorem run_testEntry (follow : Bool) (test : Option (Node Name) → Bool) (p : PyPath) (fs : Disk) :
    (testEntry S follow test p).run fs =
      (match S.entry fs follow p with
        | .ok (_, found) => .ok (test (some found))
        | .error e => if ignoreError e then .ok false else .error (.os e), fs) := by
  simp only [testEntry, Program.run_bind, Program.run_attempt, Io.run_ask]
  cases S.entry fs follow p with
  | ok found => rfl
  | error e =>
      simp only [Except.mapError]
      split <;> rfl

theorem holds_testEntry {follow : Bool} {test : Option (Node Name) → Bool} {p : PyPath}
    {post : Except Failure Bool → Disk → Prop} (here : inv fs)
    (answered : ∀ answer, (testEntry S follow test p).run fs = (.ok answer, fs) → post (.ok answer) fs)
    (failed : ∀ e, e.isOs = true → post (.error e) fs) :
    Program.Holds IsFault inv post (testEntry S follow test p) fs := by
  have ran := run_testEntry (S := S) follow test p fs
  refine .bind (.attempt (Io.holds_ask here ?_ ?_))
  · cases found : S.entry fs follow p with
    | ok entry =>
        simp only [found] at ran
        exact answered _ ran
    | error e =>
        simp only [found] at ran
        simp only [Except.mapError]
        split
        · rename_i ignored
          rw [if_pos ignored] at ran
          exact answered _ ran
        · exact failed _ rfl
  · rintro e ⟨code, rfl⟩
    exact failed _ rfl

theorem run_resolveSymlinkedTarget (p : PyPath) (fs : Disk) :
    (resolveSymlinkedTarget S p).run fs =
      (match S.lstat fs p with
        | .ok (_, .link _ _) => .ok (S.realpath fs p)
        | .ok _ => .ok p
        | .error e => if ignoreError e then .ok p else .error (.os e), fs) := by
  simp only [resolveSymlinkedTarget, isSymlink, Program.run_bind, run_testEntry, Kernel.lstat]
  cases S.entry fs false p with
  | ok found =>
      obtain ⟨k, r | ino | ⟨target, r⟩⟩ := found
      · rfl
      · rfl
      · simp [isLink, Io.run_ask, Except.mapError]
  | error e =>
      simp only
      cases ignoreError e <;> rfl

theorem holds_resolveSymlinkedTarget {p : PyPath} {post : Except Failure PyPath → Disk → Prop}
    (here : inv fs)
    (answered : ∀ target, (resolveSymlinkedTarget S p).run fs = (.ok target, fs) →
      post (.ok target) fs)
    (failed : ∀ e, e.isOs = true → post (.error e) fs) :
    Program.Holds IsFault inv post (resolveSymlinkedTarget S p) fs := by
  refine .bind (holds_testEntry here ?_ failed)
  intro answer ran
  have whole : (resolveSymlinkedTarget S p).run fs = _ := Program.run_bind (isSymlink S p) _ fs
  rw [show (isSymlink S p).run fs = (.ok answer, fs) from ran] at whole
  cases answer with
  | true =>
      refine Io.holds_ask here ?_ fun e isFault => failed e (isOs_of_isFault isFault)
      apply answered
      rw [whole]
      simp [Io.run_ask, Except.mapError]
  | false =>
      apply answered
      rw [whole]
      rfl

theorem run_access (target : PyPath) (fs : Disk) :
    (access S target).run fs = (.ok (S.writable fs target), fs) := by
  simp [access, Program.run_bind, Io.run_ask, Except.mapError]

theorem run_refuseUnwritableTarget (target : PyPath) (fs : Disk) :
    (refuseUnwritableTarget S target).run fs =
      (match S.stat fs target with
        | .error .ENOENT => .ok ()
        | .error e => .error (.os e)
        | .ok (_, found) => if S.mayWrite (fs.rights found) then .ok () else .error (.os .EACCES), fs) := by
  simp only [refuseUnwritableTarget, Program.run_bind, Program.run_attempt, Io.run_ask]
  cases found : S.stat fs target with
  | ok entry =>
      simp only [Except.mapError, Program.run_bind, run_access, Kernel.writable, found]
      cases S.mayWrite (fs.rights entry.2) <;> rfl
  | error e => cases e <;> rfl

theorem holds_refuseUnwritableTarget {target : PyPath} {post : Except Failure Unit → Disk → Prop}
    (here : inv fs)
    (answered : (refuseUnwritableTarget S target).run fs = (.ok (), fs) → post (.ok ()) fs)
    (failed : ∀ e, e.isOs = true → post (.error e) fs) :
    Program.Holds IsFault inv post (refuseUnwritableTarget S target) fs := by
  have ran := run_refuseUnwritableTarget (S := S) target fs
  refine .bind (.attempt (Io.holds_ask here ?_ ?_))
  · cases found : S.stat fs target with
    | ok entry =>
        simp only [found] at ran
        refine .bind (.bind (.attempt (Io.holds_ask here ?_ ?_)))
        · simp only [Except.mapError, Kernel.writable, found]
          cases allowed : S.mayWrite (fs.rights entry.2) with
          | true =>
              rw [allowed] at ran
              exact answered ran
          | false => exact failed _ rfl
        · rintro e ⟨code, rfl⟩
          exact failed _ rfl
    | error e =>
        simp only [found] at ran
        cases e with
        | ENOENT => exact answered ran
        | ENOTDIR | EISDIR | EEXIST | EACCES | EPERM | ELOOP | ENAMETOOLONG | EBUSY | other =>
            exact failed _ rfl
  · rintro e ⟨code, rfl⟩
    exact failed _ rfl

def OnlyParents (S : System) (target : PyPath) (begin : Disk) (result : Except Failure Unit)
    (f : Disk) : Prop :=
  Parented S target begin f ∧ ∀ e, result = .error e → e.isOs = true

theorem OnlyParents.of_error {target : PyPath} {begin : Disk} (here : Parented S target begin fs)
    {e : Failure} (isOs : e.isOs = true) : OnlyParents S target begin (.error e) fs :=
  ⟨here, fun _ same => by cases same; exact isOs⟩

theorem OnlyParents.of_ok {target : PyPath} {begin : Disk} (here : Parented S target begin fs) :
    OnlyParents S target begin (.ok ()) fs :=
  ⟨here, nofun⟩

theorem holds_mkdirOr (target p : PyPath) {missing : Io Unit} (absolute : p.absolute = target.absolute)
    (above : p.parts <+: target.parts.dropLast) {begin : Disk} (here : Parented S target begin fs)
    (otherwise : Program.Holds IsFault (Parented S target begin) (OnlyParents S target begin) missing fs) :
    Program.Holds IsFault (Parented S target begin) (OnlyParents S target begin)
      (mkdirOr S p missing) fs := by
  have tested : ∀ e, e.isOs = true → Program.Holds IsFault (Parented S target begin)
      (OnlyParents S target begin)
      (do if ← pathIsDir S p then pure () else Program.fail e) fs := by
    intro e isOs
    refine .bind (holds_testEntry here (fun answer _ => ?_) fun _ isOs => .of_error here isOs)
    cases answer with
    | true => exact .of_ok here
    | false => exact .of_error here isOs
  have made : Parented S target begin (S.mkdir fs p 0o777).2 := by
    rcases result : S.mkdir fs p 0o777 with ⟨e | ⟨⟩, after⟩
    · rw [mkdir_error result]
      exact here
    · exact .made p here absolute above result
  refine .bind (.attempt (Io.holds_os made ?_ ?_))
  · rcases result : S.mkdir fs p 0o777 with ⟨e | ⟨⟩, after⟩
    · obtain rfl := mkdir_error result
      cases e with
      | ENOENT => exact otherwise
      | ENOTDIR | EISDIR | EEXIST | EACCES | EPERM | ELOOP | ENAMETOOLONG | EBUSY | other =>
          exact tested _ rfl
    · rw [result] at made
      exact .of_ok made
  · rintro e ⟨code, rfl⟩
    exact tested _ rfl

theorem holds_mkdirParents (target : PyPath) {begin : Disk} (here : Parented S target begin fs) :
    Program.Holds IsFault (Parented S target begin) (OnlyParents S target begin)
      (mkdirParents S target.parent) fs := by
  suffices every : ∀ back : List (Segment Name), back.reverse <+: target.parts.dropLast →
      ∀ fs, Parented S target begin fs →
        Program.Holds IsFault (Parented S target begin) (OnlyParents S target begin)
          (mkdirBack S target.absolute back) fs by
    apply every _ _ fs here
    simp [Path.parent]
  intro back
  induction back with
  | nil =>
      exact fun above fs here => holds_mkdirOr target ⟨target.absolute, []⟩ rfl above here
        (.of_error here rfl)
  | cons last back ih =>
      intro above fs here
      refine holds_mkdirOr target ⟨target.absolute, (last :: back).reverse⟩ rfl above here (.bind ?_)
      have below : back.reverse <+: target.parts.dropLast := by
        refine List.IsPrefix.trans ?_ above
        simp
      refine (ih below fs here).mono (fun _ kept => kept) fun result f parented => ?_
      cases result with
      | ok _ =>
          exact holds_mkdirOr target ⟨target.absolute, (last :: back).reverse⟩ rfl above parented.1
            (.of_error parented.1 rfl)
      | error e => exact parented

theorem run_createTempFrom (target : PyPath) (draws : Nat → Token) (remaining i : Nat) (fs : Disk) :
    (createTempFrom S target draws (remaining + 1) i).run fs =
      match S.create fs (candidate target draws i) 0o666 with
      | (.ok ino, after) => (.ok (ino, candidate target draws i), after)
      | (.error .EEXIST, _) => (createTempFrom S target draws remaining (i + 1)).run fs
      | (.error e, _) => (.error (.os e), fs) := by
  simp only [createTempFrom, Program.run_bind, Program.run_attempt, Io.run_os]
  rcases result : S.create fs (candidate target draws i) 0o666 with ⟨e | ino, after⟩
  · obtain rfl := create_error result
    cases e <;> rfl
  · rfl

theorem holds_createTemp {target : PyPath} {draws : Nat → Token}
    {post : Except Failure (Nat × PyPath) → Disk → Prop} (here : inv fs)
    (made : ∀ ino tmpPath after, S.create fs tmpPath 0o666 = (.ok ino, after) →
      (createTemp S target draws).run fs = (.ok (ino, tmpPath), after) →
        inv after ∧ post (.ok (ino, tmpPath)) after)
    (failed : ∀ e, e.isOs = true → post (.error e) fs) :
    Program.Holds IsFault inv post (createTemp S target draws) fs := by
  suffices every : ∀ remaining i,
      (∀ ino tmpPath after, S.create fs tmpPath 0o666 = (.ok ino, after) →
        (createTempFrom S target draws remaining i).run fs = (.ok (ino, tmpPath), after) →
          inv after ∧ post (.ok (ino, tmpPath)) after) →
      Program.Holds IsFault inv post (createTempFrom S target draws remaining i) fs from
    every _ _ made
  intro remaining
  induction remaining with
  | zero => exact fun i _ => failed _ rfl
  | succ remaining ih =>
      intro i made
      have ran := run_createTempFrom (S := S) target draws remaining i fs
      refine .bind (.attempt (Io.holds_os ?_ ?_ ?_))
      · rcases result : S.create fs (candidate target draws i) 0o666 with ⟨e | ino, after⟩
        · rw [create_error result]
          exact here
        · rw [result] at ran
          exact (made ino _ after result ran).1
      · rcases result : S.create fs (candidate target draws i) 0o666 with ⟨e | ino, after⟩
        · obtain rfl := create_error result
          cases e with
          | EEXIST =>
              rw [result] at ran
              exact ih (i + 1) fun ino tmpPath after created later =>
                made ino tmpPath after created (ran.trans later)
          | ENOENT | ENOTDIR | EISDIR | EACCES | EPERM | ELOOP | ENAMETOOLONG | EBUSY | other =>
              exact failed _ rfl
        · rw [result] at ran
          exact (made ino _ after result ran).2
      · rintro e ⟨code, rfl⟩
        exact failed _ rfl

theorem holds_writePieces {ino : Nat} (grows : ∀ f more, inv f → inv (f.append ino more)) (here : inv fs)
    (pieces : List (List UInt8)) :
    Program.Holds IsFault inv
      (fun result f => inv f ∧ (result = .ok () →
        (f.file ino).content = (fs.file ino).content ++ pieces.flatten))
      (writePieces ino pieces) fs := by
  induction pieces generalizing fs with
  | nil => exact ⟨here, fun _ => by simp⟩
  | cons piece rest ih =>
      have next := grows fs piece here
      refine .bind (Io.holds_os next ?_ fun e _ => ⟨here, nofun⟩)
      refine (ih next).mono (fun _ kept => kept) fun result f ended => ⟨ended.1, fun ok => ?_⟩
      rw [ended.2 ok]
      simp [Fs.append]

theorem holds_spill {ino : Nat} {spill : List UInt8} {e : Failure}
    {post : Except Failure Unit → Disk → Prop} (grows : ∀ f more, inv f → inv (f.append ino more))
    (failed : ∀ e f, inv f → post (.error e) f) (here : inv fs) :
    Program.Holds IsFault inv post
      (do
        Io.os fun fs => (.ok (), fs.append ino spill)
        Program.fail e) fs :=
  .bind (Io.holds_os (grows fs spill here) (failed e _ (grows fs spill here))
    fun later _ => failed later fs here)

theorem holds_fillTemp {ino : Nat} {text : Text} {spill : List UInt8}
    (grows : ∀ f more, inv f → inv (f.append ino more)) (here : inv fs)
    (empty : (fs.file ino).content = []) :
    Program.Holds IsFault inv
      (fun result f => inv f ∧ (result = .ok () →
        text.encoded = some (f.file ino).content))
      (fillTemp S ino text spill) fs := by
  refine .bind (.perform here ?_ fun _ _ => ⟨here, nofun⟩)
  cases text.known with
  | false => exact ⟨here, nofun⟩
  | true =>
      refine .bind (.attempt (.bind (.perform here ?_
        fun e _ => holds_spill grows (fun _ _ there => ⟨there, nofun⟩) here)))
      cases encoded : text.encoded with
      | none => exact holds_spill grows (fun _ _ there => ⟨there, nofun⟩) here
      | some bytes =>
          refine .bind ((holds_writePieces grows here (S.cut bytes)).mono (fun _ kept => kept) ?_)
          rintro (e | ⟨⟩) f ⟨there, written⟩
          · exact holds_spill grows (fun _ _ there => ⟨there, nofun⟩) there
          · have whole := written rfl
            rw [empty, S.whole, List.nil_append] at whole
            refine Io.holds_ask there ?_
              fun e _ => holds_spill grows (fun _ _ there => ⟨there, nofun⟩) there
            exact Io.holds_ask there ⟨there, fun _ => by rw [whole]⟩ fun _ _ => ⟨there, nofun⟩

theorem holds_copyExistingMode {target tmpPath : PyPath} {post : Except Failure Unit → Disk → Prop}
    (here : inv fs) (absent : S.stat fs target = .error .ENOENT → post (.ok ()) fs)
    (changed : ∀ found after, S.stat fs target = .ok found →
      S.chmod fs tmpPath (fs.rights found.2).mode = (.ok (), after) → inv after ∧ post (.ok ()) after)
    (failed : ∀ e, e.isOs = true → post (.error e) fs) :
    Program.Holds IsFault inv post (copyExistingMode S target tmpPath) fs := by
  refine .bind (.attempt (Io.holds_ask here ?_ ?_))
  · cases found : S.stat fs target with
    | error e =>
        cases e with
        | ENOENT => exact absent found
        | ENOTDIR | EISDIR | EEXIST | EACCES | EPERM | ELOOP | ENAMETOOLONG | EBUSY | other =>
            exact failed _ rfl
    | ok entry =>
        refine Io.holds_os ?_ ?_ fun e isFault => failed e (isOs_of_isFault isFault)
        · rcases result : S.chmod fs tmpPath (fs.rights entry.2).mode with ⟨e | ⟨⟩, after⟩
          · rw [chmod_error result]
            exact here
          · exact (changed entry after found result).1
        · rcases result : S.chmod fs tmpPath (fs.rights entry.2).mode with ⟨e | ⟨⟩, after⟩
          · obtain rfl := chmod_error result
            exact failed _ rfl
          · exact (changed entry after found result).2
  · rintro e ⟨code, rfl⟩
    exact failed _ rfl

theorem holds_cleanUp {tmpPath : PyPath} {e : Failure} {post : Except Failure Unit → Disk → Prop}
    (here : inv fs)
    (removed : ∀ after, S.unlink fs tmpPath = (.ok (), after) → inv after ∧ post (.error e) after)
    (absent : (S.unlink fs tmpPath).1 = .error .ENOENT → post (.error e) fs)
    (kept : ∀ later, post (.error (.unremoved later e)) fs) :
    Program.Holds IsFault inv post (cleanUp S tmpPath e) fs := by
  refine .bind (.attempt (Io.holds_os ?_ ?_ ?_))
  · rcases result : S.unlink fs tmpPath with ⟨refused | ⟨⟩, after⟩
    · rw [unlink_error result]
      exact here
    · exact (removed after result).1
  · rcases result : S.unlink fs tmpPath with ⟨refused | ⟨⟩, after⟩
    · obtain rfl := unlink_error result
      cases refused with
      | ENOENT => exact absent (by rw [result])
      | ENOTDIR | EISDIR | EEXIST | EACCES | EPERM | ELOOP | ENAMETOOLONG | EBUSY | other =>
          exact kept _
    · exact (removed after result).2
  · rintro e' ⟨code, rfl⟩
    exact kept _

end

end AsyncPipelines
