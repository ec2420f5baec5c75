import AsyncPipelines.IoUtils.AtomicWriteFaults

/-!
What the writer and the preflight make before they come to the target: its missing parents,
and the temporary file beside it.
-/

namespace AsyncPipelines

open Posix

def IsFolder (S : System) (fs : Disk) (target : PyPath) : Prop :=
  ∃ k r, S.stat fs target = .ok (k, .dir r)

abbrev backPath (absolute : Bool) (back : List (Segment Name)) : PyPath := ⟨absolute, back.reverse⟩

/-- `g` is `f` with the missing directories of a path made, the outer ones first. -/
inductive Paved (S : System) (absolute : Bool) (f : Disk) : List (Segment Name) → Disk → Prop
  | start (begins : isDir (f.node (S.start ⟨absolute, []⟩)) = true) : Paved S absolute f [] f
  | there {last : Segment Name} {above : List (Segment Name)} {g : Disk} (paved : Paved S absolute f above g)
      (folder : IsFolder S g (backPath absolute (last :: above))) : Paved S absolute f (last :: above) g
  | made {last : Segment Name} {above : List (Segment Name)} {g h : Disk} (paved : Paved S absolute f above g)
      (makes : S.mkdir g (backPath absolute (last :: above)) 0o777 = (.ok (), h)) :
      Paved S absolute f (last :: above) h

structure Opened (S : System) (g : Disk) (target : PyPath) (d : Place Name) : Prop where
  leads : S.lookup g true target.parent = .ok d
  opens : S.opens g d = .ok ()
  accepts : S.accepts g d = true

def draft (S : System) (target : PyPath) (d : Place Name) (token : Token) : Place Name :=
  S.fold (tempName (pathName target) token) :: d

/-- The first of the names drawn that is free stands for `c`. -/
def FreeDraw (S : System) (g : Disk) (target : PyPath) (d : Place Name) (draws : Nat → Token)
    (c : Place Name) : Prop :=
  ∃ i < tempAttempts, c = draft S target d (draws i) ∧ g.node c = none ∧
    ∀ j < i, g.node (draft S target d (draws j)) ≠ none

section

variable {S : System} {fs f g h : Disk} {p target : PyPath} {absolute : Bool} {last : Segment Name}
  {above back front : List (Segment Name)} {c d : Place Name} {draws : Nat → Token}

theorem isFolder_iff : IsFolder S g p ↔ ∃ k, S.lookup g true p = .ok k ∧ isDir (g.node k) = true := by
  constructor
  · rintro ⟨k, r, stated⟩
    obtain ⟨leads, there⟩ := entry_ok.mp stated
    exact ⟨k, leads, isDir_iff.mpr ⟨r, there⟩⟩
  · rintro ⟨k, leads, dir⟩
    obtain ⟨r, there⟩ := isDir_iff.mp dir
    exact ⟨k, r, entry_ok.mpr ⟨leads, there⟩⟩

theorem run_pathIsDir_still (p : PyPath) (g : Disk) : ((pathIsDir S p).run g).2 = g := by
  rw [pathIsDir, run_testEntry]

theorem run_pathIsDir : ((pathIsDir S p).run g).1 = .ok true ↔ IsFolder S g p := by
  rw [pathIsDir, run_testEntry]
  constructor
  · intro answered
    split at answered
    · rename_i k found stated
      obtain ⟨r, same⟩ := isDir_iff.mp (Except.ok.inj answered)
      cases same
      exact ⟨k, r, stated⟩
    · split at answered <;> cases answered
  · rintro ⟨k, r, stated⟩
    have stated : S.entry g true p = .ok (k, .dir r) := stated
    rw [stated]
    rfl

theorem mkdir_folder (folder : IsFolder S g p) : S.mkdir g p 0o777 = (.error .EEXIST, g) := by
  obtain ⟨k, leads, dir⟩ := isFolder_iff.mp folder
  obtain ⟨r, isADir⟩ := isDir_iff.mp dir
  obtain ⟨listed, looked, there⟩ := lookup_exists leads (by simp [isADir])
  unfold Kernel.mkdir
  rw [looked]
  simp [there]

theorem mkdirOr_ok {missing : Io Unit} : (mkdirOr S p missing).run g = (.ok (), h) ↔
    S.mkdir g p 0o777 = (.ok (), h) ∨ (IsFolder S g p ∧ h = g) ∨
      ((S.mkdir g p 0o777).1 = .error .ENOENT ∧ missing.run g = (.ok (), h)) := by
  simp only [mkdirOr, Program.run_bind, Program.run_attempt, Io.run_os]
  rcases result : S.mkdir g p 0o777 with ⟨e | ⟨⟩, after⟩
  · obtain rfl := mkdir_error result
    have tested : ((do if ← pathIsDir S p then return else Program.fail (.os e) : Io Unit).run after =
        (.ok (), h)) ↔ IsFolder S after p ∧ h = after := by
      rw [← run_pathIsDir, Program.run_bind]
      have still : ((pathIsDir S p).run after).2 = after := run_pathIsDir_still p after
      rcases asking : (pathIsDir S p).run after with ⟨e' | answer, now⟩
      · simp
      · rw [asking] at still
        obtain rfl : now = after := still
        cases answer <;> simp [eq_comm]
    cases e with
    | ENOENT =>
        have folder : ¬ IsFolder S after p := by
          intro folder
          rw [mkdir_folder folder] at result
          cases result
        simp [Except.mapError, folder]
    | ENOTDIR | EISDIR | EEXIST | EACCES | EPERM | ELOOP | ENAMETOOLONG | EBUSY | other =>
        simp only [Except.mapError]
        rw [tested]
        simp
  · have folder : ¬ IsFolder S g p := by
      intro folder
      rw [mkdir_folder folder] at result
      cases result
    simp [Except.mapError, folder]

theorem lookup_back (last : Segment Name) (above : List (Segment Name)) :
    S.lookup g false (backPath absolute (last :: above)) =
      match S.lookup g true (backPath absolute above) with
      | .error e => .error e
      | .ok middle => S.pass g middle last := by
  rw [backPath, List.reverse_cons, lookup_snoc]
  cases S.lookup g true (backPath absolute above) <;> rfl

theorem folder_of_lookup {k : Place Name}
    (looked : S.lookup g false (backPath absolute (last :: above)) = .ok k) :
    IsFolder S g (backPath absolute above) := by
  rw [lookup_back] at looked
  cases middle : S.lookup g true (backPath absolute above) with
  | error e =>
      rw [middle] at looked
      cases looked
  | ok e =>
      rw [middle] at looked
      exact isFolder_iff.mpr ⟨e, middle, isDir_of_opens (opens_of_pass looked)⟩

theorem paved_of_folder (folder : IsFolder S f (backPath absolute back)) : Paved S absolute f back f := by
  induction back with
  | nil =>
      obtain ⟨k, leads, dir⟩ := isFolder_iff.mp folder
      simp only [Kernel.lookup] at leads
      split at leads
      · rename_i begins
        exact .start begins
      · cases leads
  | cons last above ih =>
      obtain ⟨k, leads, dir⟩ := isFolder_iff.mp folder
      obtain ⟨r, there⟩ := isDir_iff.mp dir
      obtain ⟨listed, looked, _⟩ := lookup_exists leads (by simp [there])
      exact .there (ih (folder_of_lookup looked)) folder

theorem lookup_beyond {k : Place Name} (looked : S.lookup f false (backPath absolute back) = .ok k)
    (missing : f.node k = none) (longer : front ≠ []) :
    S.lookup f false (backPath absolute (front ++ back)) = .error .ENOENT := by
  induction front with
  | nil => exact absurd rfl longer
  | cons last rest ih =>
      rw [List.cons_append, lookup_back]
      cases rest with
      | nil =>
          have plain : ∀ final, S.lookup f false (backPath absolute back) = .ok final →
              isLink (f.node final) = false := by
            intro final again
            rw [looked] at again
            cases again
            rw [missing]
            rfl
          rw [List.nil_append, lookup_follow plain, looked]
          exact pass_missing missing last
      | cons next rest =>
          have before := ih (by simp)
          have plain : ∀ final, S.lookup f false (backPath absolute (next :: rest ++ back)) = .ok final →
              isLink (f.node final) = false := by
            intro final again
            rw [before] at again
            cases again
          rw [lookup_follow plain, before]

theorem mkdir_beyond {after : Disk} (makes : S.mkdir f (backPath absolute back) 0o777 = (.ok (), after))
    (longer : front ≠ []) : (S.mkdir f (backPath absolute (front ++ back)) 0o777).1 = .error .ENOENT := by
  obtain ⟨here, missing, _, looked, _⟩ := mkdir_ok makes
  unfold Kernel.mkdir
  rw [lookup_beyond looked missing longer]

theorem Paved.first (paved : Paved S absolute f back g) :
    g = f ∨ ∃ front rest after, back = front ++ rest ∧
      S.mkdir f (backPath absolute rest) 0o777 = (.ok (), after) := by
  induction paved with
  | start begins => exact .inl rfl
  | @there last above g paved folder ih =>
      rcases ih with same | ⟨front, rest, after, rfl, makes⟩
      · exact .inl same
      · exact .inr ⟨last :: front, rest, after, rfl, makes⟩
  | @made last above g h paved makes ih =>
      rcases ih with rfl | ⟨front, rest, after, rfl, makes'⟩
      · exact .inr ⟨[], last :: above, h, rfl, makes⟩
      · exact .inr ⟨last :: front, rest, after, rfl, makes'⟩

theorem run_mkdirBack : (mkdirBack S absolute back).run f = (.ok (), h) ↔ Paved S absolute f back h := by
  constructor
  · intro ran
    induction back generalizing h with
    | nil =>
        rcases mkdirOr_ok.mp ran with made | ⟨folder, rfl⟩ | ⟨_, failed⟩
        · obtain ⟨here, missing, _, looked, _⟩ := mkdir_ok made
          simp only [Kernel.lookup] at looked
          split at looked
          · rename_i begins
            simp only [walk_nil, Except.ok.injEq] at looked
            rw [looked, missing] at begins
            cases begins
          · cases looked
        · exact paved_of_folder folder
        · cases failed
    | cons last above ih =>
        rcases mkdirOr_ok.mp ran with made | ⟨folder, rfl⟩ | ⟨_, rest⟩
        · obtain ⟨here, missing, _, looked, _⟩ := mkdir_ok made
          exact .made (paved_of_folder (folder_of_lookup looked)) made
        · exact paved_of_folder folder
        · rw [Program.run_bind] at rest
          rcases before : (mkdirBack S absolute above).run f with ⟨e | ⟨⟩, g⟩
          · rw [before] at rest
            cases rest
          · rw [before] at rest
            rcases mkdirOr_ok.mp rest with made | ⟨folder, rfl⟩ | ⟨_, failed⟩
            · exact .made (ih before) made
            · exact .there (ih before) folder
            · cases failed
  · intro paved
    induction paved with
    | start begins =>
        refine mkdirOr_ok.mpr (.inr (.inl ⟨isFolder_iff.mpr ⟨_, ?_, begins⟩, rfl⟩))
        unfold Kernel.lookup
        rw [if_pos begins, walk_nil]
    | @there last above g paved folder ih =>
        rcases paved.first with rfl | ⟨front, rest, after, rfl, makes⟩
        · exact mkdirOr_ok.mpr (.inr (.inl ⟨folder, rfl⟩))
        · have absent := mkdir_beyond makes (List.cons_ne_nil last front)
          refine mkdirOr_ok.mpr (.inr (.inr ⟨absent, ?_⟩))
          rw [Program.run_bind, ih]
          exact mkdirOr_ok.mpr (.inr (.inl ⟨folder, rfl⟩))
    | @made last above g h paved makes ih =>
        rcases paved.first with rfl | ⟨front, rest, after, rfl, makes'⟩
        · exact mkdirOr_ok.mpr (.inl makes)
        · have absent := mkdir_beyond makes' (List.cons_ne_nil last front)
          refine mkdirOr_ok.mpr (.inr (.inr ⟨absent, ?_⟩))
          rw [Program.run_bind, ih]
          exact mkdirOr_ok.mpr (.inl makes)

/-- The parents are made exactly where they can be, the outer ones first. -/
theorem run_mkdirParents : (mkdirParents S p).run f = (.ok (), h) ↔
    Paved S p.absolute f p.parts.reverse h := run_mkdirBack

theorem run_mkdirParents_folder (folder : IsFolder S f p) : (mkdirParents S p).run f = (.ok (), f) := by
  have whole : p = backPath p.absolute p.parts.reverse := by simp [backPath]
  rw [run_mkdirParents]
  exact paved_of_folder (whole ▸ folder)

theorem FreeDraw.unique {c' : Place Name} (first : FreeDraw S g target d draws c)
    (second : FreeDraw S g target d draws c') : c = c' := by
  obtain ⟨i, _, rfl, free, taken⟩ := first
  obtain ⟨j, _, rfl, free', taken'⟩ := second
  rcases Nat.lt_trichotomy i j with earlier | rfl | later
  · exact absurd free (taken' i earlier)
  · rfl
  · exact absurd free' (taken j later)

theorem create_exists {mode : Nat} {after : Disk} (refused : S.create g p mode = (.error .EEXIST, after))
    (looked : S.lookup g false p = .ok c) : g.node c ≠ none := by
  unfold Kernel.create at refused
  rw [looked] at refused
  simp only at refused
  split at refused
  · assumption
  · split at refused <;> cases refused

theorem lookup_candidate (opened : Opened S g target d) (i : Nat) :
    S.lookup g false (candidate target draws i) = .ok (draft S target d (draws i)) := by
  rw [candidate, lookup_child, opened.leads]
  exact enter_of_opens opened.opens (S.tempName_fits _ _)

/-- A temporary file is made at the first name that is free. -/
theorem createTemp_draws {ino : Nat} {tmpPath : PyPath}
    (drawn : (createTemp S target draws).run g = (.ok (ino, tmpPath), h)) :
    ∃ d c, Opened S g target d ∧ FreeDraw S g target d draws c ∧ S.lookup g false tmpPath = .ok c := by
  suffices every : ∀ remaining i, i + remaining = tempAttempts →
      (∀ d, Opened S g target d → ∀ j < i, g.node (draft S target d (draws j)) ≠ none) →
      (createTempFrom S target draws remaining i).run g = (.ok (ino, tmpPath), h) →
      ∃ d c, Opened S g target d ∧ FreeDraw S g target d draws c ∧ S.lookup g false tmpPath = .ok c from
    every _ 0 (Nat.zero_add _) (fun _ _ _ impossible => absurd impossible (Nat.not_lt_zero _)) drawn
  intro remaining
  induction remaining with
  | zero => exact fun i _ _ drawn => by cases drawn
  | succ remaining ih =>
      intro i count taken drawn
      rw [run_createTempFrom] at drawn
      split at drawn
      · rename_i made after created
        cases drawn
        obtain ⟨here, missing, _, looked, accepts, _, _⟩ := create_ok created
        have walked := looked
        rw [candidate, lookup_child] at walked
        cases middle : S.lookup g true target.parent with
        | error e =>
            rw [middle] at walked
            cases walked
        | ok d =>
            rw [middle] at walked
            obtain ⟨opens, _, rfl⟩ := enter_ok walked
            have opened : Opened S g target d := ⟨middle, opens, accepts⟩
            exact ⟨d, _, opened, ⟨i, by omega, rfl, missing, taken d opened⟩, looked⟩
      · rename_i after refused
        refine ih (i + 1) (by omega) (fun d opened j below => ?_) drawn
        rcases Nat.lt_succ_iff_lt_or_eq.mp below with earlier | rfl
        · exact taken d opened j earlier
        · exact create_exists refused (lookup_candidate opened j)
      · cases drawn

theorem createTemp_of_free (opened : Opened S g target d)
    (lucky : ∃ i < tempAttempts, g.node (draft S target d (draws i)) = none) :
    ∃ ino tmpPath h, (createTemp S target draws).run g = (.ok (ino, tmpPath), h) := by
  obtain ⟨i, below, free⟩ := lucky
  suffices every : ∀ remaining start, start ≤ i → i < start + remaining →
      ∃ ino tmpPath h, (createTempFrom S target draws remaining start).run g = (.ok (ino, tmpPath), h) from
    every _ 0 (Nat.zero_le _) (by omega)
  intro remaining
  induction remaining with
  | zero => exact fun start low high => by omega
  | succ remaining ih =>
      intro start low high
      have looked : S.lookup g false (candidate target draws start) = .ok (draft S target d (draws start)) :=
        lookup_candidate opened start
      rw [run_createTempFrom]
      unfold Kernel.create
      rw [looked]
      have accepts : S.accepts g (draft S target d (draws start)).tail = true := opened.accepts
      by_cases there : g.node (draft S target d (draws start)) = none
      · simp [there, accepts]
      · have later : start ≠ i := by
          rintro rfl
          exact there free
        simp only [there, ne_eq, not_false_eq_true, dif_pos]
        exact ih (start + 1) (by omega) (by omega)

end

end AsyncPipelines
