import AsyncPipelines.IoUtils.OutputPair
import AsyncPipelines.Lib.Interference

/-!
Calls of `atomic_write_text` that run at once, their system calls interleaved in any order,
each of them faulting or not, and a call that stops where it is.
-/

namespace AsyncPipelines

open Posix

structure Writer where
  path : PyPath
  text : Text
  chance : Chance
  target : PyPath
  place : Place Name

def Writer.program (S : System) (w : Writer) : Io Unit := atomicWriteText S w.path w.text w.chance

/-- Where the temporary file of the writer may go. -/
def Writer.Drafts (S : System) (fs : Disk) (w : Writer) (c : Place Name) : Prop :=
  ∃ n, S.lookup fs false (candidate w.target w.chance.draws n) = .ok c

/-- The path leads to a place that is no directory, in a directory that is there. -/
structure Writer.Aimed (S : System) (fs : Disk) (w : Writer) : Prop where
  resolved : (resolveSymlinkedTarget S w.path).run fs = (.ok w.target, fs)
  leads : S.lookup fs true w.path = .ok w.place
  looked : S.lookup fs false w.target = .ok w.place
  free : isDir (fs.node w.place) = false

/-- The mode a file has after it is written: that of the file it replaces, as far as the process
is granted it, or what the umask leaves of `0o666`. -/
def keptMode (S : System) (fs : Disk) (k : Place Name) : Nat :=
  match fs.node k with
  | some (.file ino) => S.granted (fs.born k.tail) (fs.file ino).rights.mode
  | _ => S.masked 0o666

/-- How far a writer has come: its temporary file, and then the file it has put in place. -/
inductive Role
  | idle
  | holding (c : Place Name) (ino : Nat) (file : File UInt8)
  | placed (ino : Nat) (file : File UInt8)

namespace Role

def owns : Role → Option (Nat × File UInt8)
  | idle => none
  | holding _ ino file => some (ino, file)
  | placed ino file => some (ino, file)

def temp : Role → Option (Place Name)
  | holding c _ _ => some c
  | _ => none

inductive Moves : Role → Role → Prop
  | stay (r : Role) : Moves r r
  | draws (c : Place Name) (ino : Nat) (file : File UInt8) : Moves idle (holding c ino file)
  | edits (c : Place Name) (ino : Nat) (file changed : File UInt8) :
      Moves (holding c ino file) (holding c ino changed)
  | places (c : Place Name) (ino : Nat) (file : File UInt8) :
      Moves (holding c ino file) (placed ino file)
  | drops (c : Place Name) (ino : Nat) (file : File UInt8) : Moves (holding c ino file) idle

end Role

variable {ι : Type}

structure Fits (S : System) (fs : Disk) (w : ι → Writer) (rs : ι → Role) (g : Disk) : Prop where
  next : fs.next ≤ g.next
  files : ∀ n, n < fs.next → g.file n = fs.file n
  holding : ∀ i c ino file, rs i = .holding c ino file →
    (w i).Drafts S fs c ∧ fs.node c = none ∧ g.node c = some (.file ino)
  owned : ∀ i ino file, (rs i).owns = some (ino, file) →
    fs.next ≤ ino ∧ ino < g.next ∧ g.file ino = file
  placed : ∀ i ino file, rs i = .placed ino file →
    (w i).text.encoded = some file.content ∧ file.rights.mode = keptMode S fs (w i).place
  apart : ∀ i j ino a b, (rs i).owns = some (ino, a) → (rs j).owns = some (ino, b) → i = j
  target : ∀ i,
    (g.node (w i).place = fs.node (w i).place ∧
      ∀ j ino file, (w j).place = (w i).place → rs j ≠ .placed ino file) ∨
    ∃ j ino file, (w j).place = (w i).place ∧ rs j = .placed ino file ∧
      g.node (w i).place = some (.file ino)
  rest : ∀ d, (∀ i, d ≠ (w i).place) → (∀ i ino file, rs i ≠ .holding d ino file) →
    g.node d = fs.node d

/-- The writers, none of whose paths leads to where another's temporary file may go. -/
structure Company (S : System) (fs : Disk) (w : ι → Writer) : Prop where
  aimed : ∀ i, (w i).Aimed S fs
  clear : ∀ i j, ¬ (w i).Drafts S fs (w j).place

section

variable {S : System} {fs g : Disk} {w : ι → Writer} {rs : ι → Role}

theorem granted_keptMode (S : System) (fs : Disk) (k : Place Name) :
    S.granted (fs.born k.tail) (keptMode S fs k) = keptMode S fs k := by
  unfold keptMode
  split
  · exact granted_granted ..
  · exact granted_masked _ _ rfl

theorem Writer.Aimed.plain {v : Writer} (aimed : v.Aimed S fs) : isLink (fs.node v.place) = false :=
  lookup_not_isLink aimed.leads

theorem Writer.Aimed.named {v : Writer} (aimed : v.Aimed S fs) : v.target.named = true := by
  by_contra unnamed
  have dir := isDir_of_unnamed aimed.looked (by simpa using unnamed)
  rw [aimed.free] at dir
  cases dir

theorem Writer.Aimed.parent {v : Writer} (aimed : v.Aimed S fs) :
    S.lookup fs true v.target.parent = .ok v.place.tail ∧ S.opens fs v.place.tail = .ok () := by
  have named := aimed.named
  have looked := aimed.looked
  unfold Path.named at named
  split at named
  · rename_i n last
    rw [Path.eq_child last, lookup_child] at looked
    cases middle : S.lookup fs true v.target.parent with
    | error e =>
        rw [middle] at looked
        cases looked
    | ok d =>
        rw [middle] at looked
        obtain ⟨opened, _, same⟩ := enter_ok looked
        rw [same]
        exact ⟨rfl, opened⟩
  · cases named

theorem Fits.alike (fits : Fits S fs w rs g) (company : Company S fs w) : Alike fs g where
  there d there := by
    apply fits.rest
    · rintro i rfl
      simp [(company.aimed i).free, (company.aimed i).plain] at there
    · intro i ino file holds
      obtain ⟨_, missing, _⟩ := fits.holding i d ino file holds
      simp [missing, isDir, isLink] at there
  back d there := by
    by_cases isPlace : ∃ i, d = (w i).place
    · obtain ⟨i, rfl⟩ := isPlace
      rcases fits.target i with ⟨same, _⟩ | ⟨j, ino, file, _, _, isFile⟩
      · exact same.symm
      · simp [isFile, isDir, isLink] at there
    · by_cases held : ∃ i ino file, rs i = .holding d ino file
      · obtain ⟨i, ino, file, holds⟩ := held
        obtain ⟨_, _, isFile⟩ := fits.holding i d ino file holds
        simp [isFile, isDir, isLink] at there
      · refine (fits.rest d (fun i same => isPlace ⟨i, same⟩) fun i ino file holds => ?_).symm
        exact held ⟨i, ino, file, holds⟩

theorem Fits.was_free (fits : Fits S fs w rs g) (company : Company S fs w) {i : ι} {c : Place Name}
    (drafts : (w i).Drafts S fs c) (free : g.node c = none) : fs.node c = none := by
  rw [← free]
  refine (fits.rest c ?_ fun j ino file holds => ?_).symm
  · rintro j rfl
    exact company.clear i j drafts
  · obtain ⟨_, _, there⟩ := fits.holding j c ino file holds
    rw [free] at there
    cases there

theorem Fits.mode (fits : Fits S fs w rs g) (company : Company S fs w) (i : ι) :
    (g.node (w i).place = none ∧ fs.node (w i).place = none) ∨
      ∃ ino, g.node (w i).place = some (.file ino) ∧
        S.granted (fs.born (w i).place.tail) (g.file ino).rights.mode = keptMode S fs (w i).place := by
  rcases fits.target i with ⟨same, _⟩ | ⟨j, ino, file, shared, isPlaced, there⟩
  · rcases found : fs.node (w i).place with _ | (r | ino | ⟨goal, r⟩)
    · exact .inl ⟨by rw [same, found], rfl⟩
    · have free := (company.aimed i).free
      simp [isDir, found] at free
    · right
      refine ⟨ino, by rw [same, found], ?_⟩
      rw [fits.files ino (fs.numbered _ ino found), keptMode, found]
    · have plain := (company.aimed i).plain
      simp [isLink, found] at plain
  · obtain ⟨_, _, content⟩ := fits.owned j ino file (by rw [isPlaced]; rfl)
    obtain ⟨_, mode⟩ := fits.placed j ino file isPlaced
    exact .inr ⟨ino, there, by rw [content, mode, shared, granted_keptMode]⟩

theorem Fits.only (fits : Fits S fs w rs g) {i : ι} {c d : Place Name} {ino : Nat} {file : File UInt8}
    (holds : rs i = .holding c ino file) (there : g.node d = some (.file ino)) : d = c := by
  have mine : (rs i).owns = some (ino, file) := by rw [holds]; rfl
  obtain ⟨low, _, _⟩ := fits.owned i ino file mine
  have old : fs.node d ≠ some (.file ino) := by
    intro before
    have known := fs.numbered d ino before
    omega
  by_cases isPlace : ∃ j, d = (w j).place
  · obtain ⟨j, rfl⟩ := isPlace
    rcases fits.target j with ⟨same, _⟩ | ⟨j', ino', file', _, isPlaced, there'⟩
    · rw [same] at there
      exact absurd there old
    · rw [there] at there'
      cases there'
      have same := fits.apart i j' ino file file' mine (by rw [isPlaced]; rfl)
      subst same
      rw [holds] at isPlaced
      cases isPlaced
  · by_cases held : ∃ j ino' file', rs j = .holding d ino' file'
    · obtain ⟨j, ino', file', holds'⟩ := held
      obtain ⟨_, _, there'⟩ := fits.holding j d ino' file' holds'
      rw [there] at there'
      cases there'
      have same := fits.apart i j ino file file' mine (by rw [holds']; rfl)
      subst same
      rw [holds] at holds'
      cases holds'
      rfl
    · rw [fits.rest d (fun j same => isPlace ⟨j, same⟩)
        fun j ino' file' holds' => held ⟨j, ino', file', holds'⟩] at there
      exact absurd there old

theorem Fits.stat_target (fits : Fits S fs w rs g) (company : Company S fs w) (i : ι) :
    S.stat g (w i).target = match g.node (w i).place with
      | none => .error .ENOENT
      | some found => .ok ((w i).place, found) := by
  have alike := fits.alike company
  have looked : S.lookup g false (w i).target = .ok (w i).place :=
    alike.lookup.mpr (company.aimed i).looked
  have plain : isLink (g.node (w i).place) = false := by
    rw [alike.isLink]
    exact (company.aimed i).plain
  simp only [Kernel.stat, Kernel.entry, stat_of_looked looked plain]
  cases g.node (w i).place <;> rfl

theorem Fits.stat_temp (fits : Fits S fs w rs g) (company : Company S fs w) {i : ι} {c : Place Name}
    {ino : Nat} {file : File UInt8} {tmpPath : PyPath} (drawn : S.lookup fs false tmpPath = .ok c)
    (holds : rs i = .holding c ino file) : S.stat g tmpPath = .ok (c, .file ino) := by
  obtain ⟨_, _, there⟩ := fits.holding i c ino file holds
  have listed : S.lookup g false tmpPath = .ok c := (fits.alike company).lookup.mpr drawn
  exact entry_ok.mpr ⟨stat_of_looked listed (by rw [there]; rfl), there⟩

theorem unlink_present {p : PyPath} {k : Place Name} (looked : S.lookup g false p = .ok k)
    (there : g.node k ≠ none) : (S.unlink g p).1 ≠ .error .ENOENT := by
  intro absent
  unfold Kernel.unlink at absent
  rw [looked] at absent
  simp only [there, if_false] at absent
  split at absent
  · rename_i reason refused
    unfold Kernel.refuses at refused
    split at refused <;> [skip; split at refused] <;> cases refused <;> cases absent
  · split at absent <;> cases absent

theorem role_of_update [DecidableEq ι] {rs : ι → Role} {i j : ι} {r now : Role}
    (after : Function.update rs i r j = now) : j = i ∧ r = now ∨ j ≠ i ∧ rs j = now := by
  by_cases same : j = i
  · subst same
    rw [Function.update_self] at after
    exact .inl ⟨rfl, after⟩
  · rw [Function.update_of_ne same] at after
    exact .inr ⟨same, after⟩

theorem Fits.start : Fits S fs w (fun _ => .idle) fs where
  next := Nat.le_refl _
  files _ _ := rfl
  holding _ _ _ _ impossible := by cases impossible
  owned _ _ _ impossible := by cases impossible
  placed _ _ _ impossible := by cases impossible
  apart _ _ _ _ _ impossible := by cases impossible
  target _ := .inl ⟨rfl, fun _ _ _ _ impossible => by cases impossible⟩
  rest _ _ _ := rfl

/-- What a path that leads to no temporary file shows. -/
theorem Fits.shows (fits : Fits S fs w rs g) (company : Company S fs w) {p : PyPath}
    (away : ∀ i c, (w i).Drafts S fs c → S.lookup fs true p ≠ .ok c) :
    (seen S g p = seen S fs p ∧
      ∀ j ino file, rs j = .placed ino file → S.lookup fs true p ≠ .ok (w j).place) ∨
    ∃ j ino file, S.lookup fs true p = .ok (w j).place ∧ rs j = .placed ino file ∧
      seen S g p = .text file.content file.rights.mode := by
  have alike := fits.alike company
  have unchanged : (∀ d, S.lookup fs true p = .ok d → g.node d = fs.node d) →
      seen S g p = seen S fs p := by
    intro same
    refine seen_congr (fun _ => alike.lookup) fun d leads => ⟨same d leads, fun ino there => ?_⟩
    exact fits.files ino (fs.numbered d ino there)
  by_cases isPlace : ∃ i, S.lookup fs true p = .ok (w i).place
  · obtain ⟨i, leads⟩ := isPlace
    rcases fits.target i with ⟨same, none⟩ | ⟨j, ino, file, shared, isPlaced, there⟩
    · refine .inl ⟨unchanged fun d leads' => ?_, fun j ino file isPlaced leads' => ?_⟩
      · rw [leads] at leads'
        cases leads'
        exact same
      · rw [leads, Except.ok.injEq] at leads'
        exact none j ino file leads'.symm isPlaced
    · refine .inr ⟨j, ino, file, by rw [leads, shared], isPlaced, ?_⟩
      obtain ⟨_, _, content⟩ := fits.owned j ino file (by rw [isPlaced]; rfl)
      rw [seen_file (alike.lookup.mpr leads) there, content]
  · refine .inl ⟨unchanged fun d leads => ?_, fun j ino file _ leads => isPlace ⟨j, leads⟩⟩
    refine fits.rest d (fun i same => isPlace ⟨i, same ▸ leads⟩) fun i ino file holds => ?_
    exact away i d (fits.holding i d ino file holds).1 leads

theorem Fits.elsewhere (fits : Fits S fs w rs g) (d : Place Name) :
    g.node d = fs.node d ∨ (∃ i, d = (w i).place) ∨ ∃ i, (rs i).temp = some d := by
  by_cases isPlace : ∃ i, d = (w i).place
  · exact .inr (.inl isPlace)
  · by_cases held : ∃ i, (rs i).temp = some d
    · exact .inr (.inr held)
    · refine .inl (fits.rest d (fun i same => isPlace ⟨i, same⟩) fun i ino file holds => held ⟨i, ?_⟩)
      rw [holds]
      rfl

theorem Fits.settled (fits : Fits S fs w rs g) {d : Place Name} {n : Nat}
    (away : ∀ i, ¬ (w i).Drafts S fs d) (there : g.node d = some (.file n)) :
    n < fs.next ∨ ∃ j file, rs j = .placed n file := by
  by_cases isPlace : ∃ i, d = (w i).place
  · obtain ⟨i, rfl⟩ := isPlace
    rcases fits.target i with ⟨same, _⟩ | ⟨j, ino, file, _, isPlaced, there'⟩
    · rw [same] at there
      exact .inl (fs.numbered _ n there)
    · rw [there] at there'
      cases there'
      exact .inr ⟨j, file, isPlaced⟩
  · rw [fits.rest d (fun i same => isPlace ⟨i, same⟩)
      fun i ino file holds => away i (fits.holding i d ino file holds).1] at there
    exact .inl (fs.numbered d n there)

theorem Fits.apart_update [DecidableEq ι] (fits : Fits S fs w rs g) {i : ι} {r : Role}
    (others : ∀ ino a, r.owns = some (ino, a) → ∀ j, j ≠ i → ∀ b, (rs j).owns ≠ some (ino, b)) :
    ∀ j k ino a b, (Function.update rs i r j).owns = some (ino, a) →
      (Function.update rs i r k).owns = some (ino, b) → j = k := by
  intro j k ino a b first second
  by_cases mine : j = i
  · by_cases mine' : k = i
    · rw [mine, mine']
    · rw [mine, Function.update_self] at first
      rw [Function.update_of_ne mine'] at second
      exact absurd second (others ino a first k mine' b)
  · rw [Function.update_of_ne mine] at first
    by_cases mine' : k = i
    · rw [mine', Function.update_self] at second
      exact absurd first (others ino b second j mine a)
    · rw [Function.update_of_ne mine'] at second
      exact fits.apart j k ino a b first second

theorem Fits.stay [DecidableEq ι] (fits : Fits S fs w rs g) {i : ι} {r : Role} (role : rs i = r) :
    Fits S fs w (Function.update rs i r) g := by
  rw [← role, Function.update_eq_self]
  exact fits

theorem Fits.draw [DecidableEq ι] (fits : Fits S fs w rs g) (company : Company S fs w) {i : ι}
    (idle : rs i = .idle) {c : Place Name} (drafts : (w i).Drafts S fs c) (missing : g.node c = none)
    (inside : isDir (g.node c.tail) = true) (r : Rights) :
    Fits S fs w (Function.update rs i (.holding c g.next ⟨[], r⟩))
      (g.insertFile c missing inside r) where
  next := by
    have before := fits.next
    rw [insertFile_next]
    omega
  files n old := by
    have before := fits.next
    rw [insertFile_file, if_neg (by omega), fits.files n old]
  holding j d ino file after := by
    rcases role_of_update after with ⟨rfl, same⟩ | ⟨_, before⟩
    · cases same
      exact ⟨drafts, fits.was_free company drafts missing, by rw [insertFile_node, if_pos rfl]⟩
    · obtain ⟨drafts', free, there⟩ := fits.holding j d ino file before
      have other : d ≠ c := by
        rintro rfl
        rw [missing] at there
        cases there
      exact ⟨drafts', free, by rw [insertFile_node, if_neg other, there]⟩
  owned j ino file mine := by
    have before := fits.next
    rcases role_of_update (rfl : Function.update rs i (.holding c g.next ⟨[], r⟩) j = _) with
      ⟨_, same⟩ | ⟨_, same⟩
    · rw [← same] at mine
      cases mine
      refine ⟨before, by rw [insertFile_next]; omega, by rw [insertFile_file, if_pos rfl]⟩
    · rw [← same] at mine
      obtain ⟨low, high, content⟩ := fits.owned j ino file mine
      refine ⟨low, by rw [insertFile_next]; omega, ?_⟩
      rw [insertFile_file, if_neg (by omega), content]
  placed j ino file after := by
    rcases role_of_update after with ⟨_, same⟩ | ⟨_, before⟩
    · cases same
    · exact fits.placed j ino file before
  apart := by
    refine fits.apart_update fun ino a mine j _ b theirs => ?_
    cases mine
    obtain ⟨_, high, _⟩ := fits.owned j g.next b theirs
    omega
  target j := by
    have other : (w j).place ≠ c := by
      rintro rfl
      exact company.clear i j drafts
    rw [insertFile_node, if_neg other]
    rcases fits.target j with ⟨same, none⟩ | ⟨k, ino, file, shared, before, there⟩
    · refine .inl ⟨same, fun k ino file shared after => ?_⟩
      rcases role_of_update after with ⟨_, impossible⟩ | ⟨_, before⟩
      · cases impossible
      · exact none k ino file shared before
    · refine .inr ⟨k, ino, file, shared, ?_, there⟩
      have different : k ≠ i := by
        rintro rfl
        rw [idle] at before
        cases before
      rw [Function.update_of_ne different, before]
  rest d elsewhere free := by
    have other : d ≠ c := by
      rintro rfl
      exact free i g.next ⟨[], r⟩ (Function.update_self ..)
    rw [insertFile_node, if_neg other]
    refine fits.rest d elsewhere fun j ino file before => ?_
    have different : j ≠ i := by
      rintro rfl
      rw [idle] at before
      cases before
    exact free j ino file (by rw [Function.update_of_ne different, before])

theorem Fits.alone (fits : Fits S fs w rs g) {i : ι} {c : Place Name} {n : Nat} {file : File UInt8}
    (holds : rs i = .holding c n file) {j : ι} (other : j ≠ i) (b : File UInt8) :
    (rs j).owns ≠ some (n, b) := by
  intro theirs
  exact other (fits.apart j i n b file theirs (by rw [holds]; rfl))

theorem Fits.edit [DecidableEq ι] (fits : Fits S fs w rs g) {i : ι} {c : Place Name} {n : Nat}
    {file : File UInt8} (holds : rs i = .holding c n file) (changed : File UInt8) :
    Fits S fs w (Function.update rs i (.holding c n changed)) (g.setFile n changed) where
  next := fits.next
  files m old := by
    obtain ⟨low, _, _⟩ := fits.owned i n file (by rw [holds]; rfl)
    rw [setFile_file, if_neg (by omega), fits.files m old]
  holding j d ino edited after := by
    rcases role_of_update after with ⟨rfl, same⟩ | ⟨_, before⟩
    · cases same
      exact fits.holding j c n file holds
    · exact fits.holding j d ino edited before
  owned j ino edited mine := by
    by_cases same : j = i
    · subst same
      rw [Function.update_self] at mine
      cases mine
      obtain ⟨low, high, _⟩ := fits.owned j n file (by rw [holds]; rfl)
      exact ⟨low, high, by rw [setFile_file, if_pos rfl]⟩
    · rw [Function.update_of_ne same] at mine
      obtain ⟨low, high, content⟩ := fits.owned j ino edited mine
      have different : ino ≠ n := by
        rintro rfl
        exact fits.alone holds same edited mine
      exact ⟨low, high, by rw [setFile_file, if_neg different, content]⟩
  placed j ino edited after := by
    rcases role_of_update after with ⟨_, same⟩ | ⟨_, before⟩
    · cases same
    · exact fits.placed j ino edited before
  apart := by
    refine fits.apart_update fun ino a mine j other b => ?_
    cases mine
    exact fits.alone holds other b
  target j := by
    rw [setFile_node]
    rcases fits.target j with ⟨same, none⟩ | ⟨k, ino, file', shared, before, there⟩
    · refine .inl ⟨same, fun k ino file' shared after => ?_⟩
      rcases role_of_update after with ⟨_, impossible⟩ | ⟨_, before⟩
      · cases impossible
      · exact none k ino file' shared before
    · refine .inr ⟨k, ino, file', shared, ?_, there⟩
      have different : k ≠ i := by
        rintro rfl
        rw [holds] at before
        cases before
      rw [Function.update_of_ne different, before]
  rest d elsewhere free := by
    refine fits.rest d elsewhere fun j ino file' before => ?_
    by_cases same : j = i
    · subst same
      rw [holds] at before
      cases before
      exact free j n changed (Function.update_self ..)
    · exact free j ino file' (by rw [Function.update_of_ne same, before])

theorem Fits.drop [DecidableEq ι] (fits : Fits S fs w rs g) (company : Company S fs w) {i : ι}
    {c : Place Name} {n : Nat} {file : File UInt8} (holds : rs i = .holding c n file)
    (leaf : isDir (g.node c) = false) :
    Fits S fs w (Function.update rs i .idle) (g.remove c leaf) where
  next := fits.next
  files := fits.files
  holding j d ino file' after := by
    rcases role_of_update after with ⟨_, same⟩ | ⟨other, before⟩
    · cases same
    · obtain ⟨drafts, missing, there⟩ := fits.holding j d ino file' before
      have different : d ≠ c := by
        rintro rfl
        obtain ⟨_, _, mine⟩ := fits.holding i _ n file holds
        rw [there] at mine
        cases mine
        exact fits.alone holds other file' (by rw [before]; rfl)
      exact ⟨drafts, missing, by rw [remove_node, if_neg different, there]⟩
  owned j ino file' mine := by
    by_cases same : j = i
    · subst same
      rw [Function.update_self] at mine
      cases mine
    · rw [Function.update_of_ne same] at mine
      exact fits.owned j ino file' mine
  placed j ino file' after := by
    rcases role_of_update after with ⟨_, same⟩ | ⟨_, before⟩
    · cases same
    · exact fits.placed j ino file' before
  apart := fits.apart_update fun _ _ mine => by cases mine
  target j := by
    obtain ⟨drafts, _, _⟩ := fits.holding i c n file holds
    have other : (w j).place ≠ c := by
      rintro rfl
      exact company.clear i j drafts
    rw [remove_node, if_neg other]
    rcases fits.target j with ⟨same, none⟩ | ⟨k, ino, file', shared, before, there⟩
    · refine .inl ⟨same, fun k ino file' shared after => ?_⟩
      rcases role_of_update after with ⟨_, impossible⟩ | ⟨_, before⟩
      · cases impossible
      · exact none k ino file' shared before
    · refine .inr ⟨k, ino, file', shared, ?_, there⟩
      have different : k ≠ i := by
        rintro rfl
        rw [holds] at before
        cases before
      rw [Function.update_of_ne different, before]
  rest d elsewhere free := by
    obtain ⟨_, missing, _⟩ := fits.holding i c n file holds
    rw [remove_node]
    split
    · rename_i same
      rw [same, missing]
    · rename_i different
      refine fits.rest d elsewhere fun j ino file' before => ?_
      by_cases same : j = i
      · subst same
        rw [holds] at before
        cases before
        exact different rfl
      · exact free j ino file' (by rw [Function.update_of_ne same, before])

/-- A writer renames its temporary file, complete by then, onto its target. -/
theorem Fits.place [DecidableEq ι] (fits : Fits S fs w rs g) (company : Company S fs w) {i : ι}
    {c : Place Name} {n : Nat} {file : File UInt8} (holds : rs i = .holding c n file)
    (encoded : (w i).text.encoded = some file.content)
    (mode : file.rights.mode = keptMode S fs (w i).place) (leaf : isDir (g.node c) = false)
    (free : isDir (g.node (w i).place) = false) (inside : isDir (g.node (w i).place.tail) = true) :
    Fits S fs w (Function.update rs i (.placed n file)) (g.move c (w i).place leaf free inside) where
  next := fits.next
  files := fits.files
  holding j d ino file' after := by
    rcases role_of_update after with ⟨_, same⟩ | ⟨other, before⟩
    · cases same
    · obtain ⟨drafts, missing, there⟩ := fits.holding j d ino file' before
      have different : d ≠ c := by
        rintro rfl
        obtain ⟨_, _, mine⟩ := fits.holding i _ n file holds
        rw [there] at mine
        cases mine
        exact fits.alone holds other file' (by rw [before]; rfl)
      have elsewhere : d ≠ (w i).place := by
        rintro rfl
        exact company.clear j i drafts
      exact ⟨drafts, missing, by rw [move_node, if_neg elsewhere, if_neg different, there]⟩
  owned j ino file' mine := by
    by_cases same : j = i
    · subst same
      rw [Function.update_self] at mine
      cases mine
      exact fits.owned j n file (by rw [holds]; rfl)
    · rw [Function.update_of_ne same] at mine
      exact fits.owned j ino file' mine
  placed j ino file' after := by
    rcases role_of_update after with ⟨rfl, same⟩ | ⟨_, before⟩
    · cases same
      exact ⟨encoded, mode⟩
    · exact fits.placed j ino file' before
  apart := by
    refine fits.apart_update fun ino a mine j other b => ?_
    cases mine
    exact fits.alone holds other b
  target j := by
    obtain ⟨drafts, _, there⟩ := fits.holding i c n file holds
    by_cases here : (w j).place = (w i).place
    · refine .inr ⟨i, n, file, here.symm, Function.update_self .., ?_⟩
      rw [move_node, if_pos here, there]
    · have other : (w j).place ≠ c := by
        rintro rfl
        exact company.clear i j drafts
      rw [move_node, if_neg here, if_neg other]
      rcases fits.target j with ⟨same, none⟩ | ⟨k, ino, file', shared, before, there⟩
      · refine .inl ⟨same, fun k ino file' shared after => ?_⟩
        rcases role_of_update after with ⟨rfl, _⟩ | ⟨_, before⟩
        · exact here shared.symm
        · exact none k ino file' shared before
      · refine .inr ⟨k, ino, file', shared, ?_, there⟩
        have different : k ≠ i := by
          rintro rfl
          exact here shared.symm
        rw [Function.update_of_ne different, before]
  rest d elsewhere free := by
    obtain ⟨_, missing, _⟩ := fits.holding i c n file holds
    rw [move_node, if_neg (elsewhere i)]
    split
    · rename_i same
      rw [same, missing]
    · rename_i different
      refine fits.rest d elsewhere fun j ino file' before => ?_
      by_cases same : j = i
      · subst same
        rw [holds] at before
        cases before
        exact different rfl
      · exact free j ino file' (by rw [Function.update_of_ne same, before])

end

def writing (S : System) (fs : Disk) (w : ι → Writer) : Contract ι Role Disk where
  moves := Role.Moves
  stay := .stay
  fits := Fits S fs w

section

variable {α : Type} [DecidableEq ι] {S : System} {fs : Disk} {w : ι → Writer} {i : ι} {r : Role}
  {post : Except Failure α → Role → Prop}

theorem plays_os {effect : Disk → Except Errno α × Disk}
    (calls : ∀ rs g, Fits S fs w rs g → rs i = r → ∃ r', r.Moves r' ∧
      Fits S fs w (Function.update rs i r') (effect g).2 ∧ post ((effect g).1.mapError .os) r')
    (faulted : ∀ e, IsFault e → post (.error e) r) :
    Program.Plays (writing S fs w) IsFault i post (Io.os effect) r :=
  .perform calls faulted

theorem plays_ask {answer : Disk → Except Errno α}
    (answered : ∀ rs g, Fits S fs w rs g → rs i = r → post ((answer g).mapError .os) r)
    (faulted : ∀ e, IsFault e → post (.error e) r) :
    Program.Plays (writing S fs w) IsFault i post (Io.ask answer) r :=
  .still (fun _ => rfl) answered faulted

theorem plays_testEntry {follow : Bool} {test : Option (Node Name) → Bool} {p : PyPath}
    {post : Except Failure Bool → Role → Prop}
    (answered : ∀ rs g answer, Fits S fs w rs g →
      (testEntry S follow test p).run g = (.ok answer, g) → post (.ok answer) r)
    (failed : ∀ e, post (.error e) r) :
    Program.Plays (writing S fs w) IsFault i post (testEntry S follow test p) r := by
  refine .bind (.attempt (plays_ask (fun rs g fits _ => ?_) ?_))
  · have ran := run_testEntry (S := S) follow test p g
    cases found : S.entry g follow p with
    | ok entry =>
        simp only [found] at ran
        exact answered rs g _ fits ran
    | error e =>
        simp only [found] at ran
        simp only [Except.mapError]
        split
        · rename_i ignored
          rw [if_pos ignored] at ran
          exact answered rs g _ fits ran
        · exact failed _
  · rintro e ⟨code, rfl⟩
    exact failed _

theorem plays_resolveSymlinkedTarget (company : Company S fs w)
    {post : Except Failure PyPath → Role → Prop} (answered : post (.ok (w i).target) r)
    (failed : ∀ e, post (.error e) r) :
    Program.Plays (writing S fs w) IsFault i post (resolveSymlinkedTarget S (w i).path) r := by
  have aimed := company.aimed i
  refine .bind (plays_testEntry (fun rs g answer fits ran => ?_) failed)
  have whole : (resolveSymlinkedTarget S (w i).path).run g = _ :=
    Program.run_bind (isSymlink S (w i).path) _ g
  rw [show (isSymlink S (w i).path).run g = (.ok answer, g) from ran,
    resolved_alike (fits.alike company) aimed.leads aimed.resolved] at whole
  cases answer with
  | true =>
      simp only [if_true, Io.run_ask, Except.mapError] at whole
      refine plays_ask (fun rs' g' fits' _ => ?_) fun e _ => failed e
      have first : S.realpath g (w i).path = S.realpath fs (w i).path :=
        realpath_congr (fun _ _ _ _ => (fits.alike company).link) _
      have later : S.realpath g' (w i).path = S.realpath fs (w i).path :=
        realpath_congr (fun _ _ _ _ => (fits'.alike company).link) _
      have same := Except.ok.inj (Prod.mk.inj whole).1
      rw [same, first, ← later] at answered
      exact answered
  | false =>
      have same := Except.ok.inj (Prod.mk.inj whole).1
      rw [same] at answered
      exact answered

theorem plays_refuseUnwritableTarget {target : PyPath} {post : Except Failure Unit → Role → Prop}
    (any : ∀ result, post result r) :
    Program.Plays (writing S fs w) IsFault i post (refuseUnwritableTarget S target) r := by
  refine .bind (.attempt (plays_ask (fun rs g fits _ => ?_) ?_))
  · cases S.stat g target with
    | ok entry =>
        refine .bind (.bind (.attempt (plays_ask (fun rs g fits _ => ?_) ?_)))
        · simp only [Except.mapError]
          cases S.writable g target with
          | true => exact any _
          | false => exact any _
        · rintro e ⟨code, rfl⟩
          exact any _
    | error e => cases e <;> exact any _
  · rintro e ⟨code, rfl⟩
    exact any _

theorem plays_mkdirParents (company : Company S fs w) {post : Except Failure Unit → Role → Prop}
    (any : ∀ result, post result r) :
    Program.Plays (writing S fs w) IsFault i post (mkdirParents S (w i).target.parent) r := by
  have aimed := company.aimed i
  have there : ∀ rs g, Fits S fs w rs g →
      S.mkdir g (w i).target.parent 0o777 = (.error .EEXIST, g) := by
    intro rs g fits
    obtain ⟨parent, opened⟩ := aimed.parent
    have alike := fits.alike company
    have dir : isDir (g.node (w i).place.tail) = true := by
      rw [alike.there _ (.inl (isDir_of_opens opened))]
      exact isDir_of_opens opened
    exact mkdir_folder (isFolder_iff.mpr ⟨_, alike.lookup.mpr parent, dir⟩)
  have tested : ∀ e, Program.Plays (writing S fs w) IsFault i post
      (do if ← pathIsDir S (w i).target.parent then pure () else Program.fail e) r := by
    intro e
    refine .bind (plays_testEntry (fun rs g answer fits _ => ?_) fun e => any _)
    cases answer with
    | true => exact any _
    | false => exact any _
  have kept : ∀ missing, Program.Plays (writing S fs w) IsFault i post
      (mkdirOr S (w i).target.parent missing) r := by
    intro missing
    refine .bind (.attempt (plays_os (fun rs g fits role => ⟨r, .stay r, ?_, ?_⟩) ?_))
    · rw [there rs g fits]
      exact fits.stay role
    · rw [there rs g fits]
      exact tested _
    · rintro e ⟨code, rfl⟩
      exact tested _
  have whole : (w i).target.parent =
      ⟨(w i).target.parent.absolute, (w i).target.parent.parts.reverse.reverse⟩ := by
    rw [List.reverse_reverse]
  unfold mkdirParents
  cases back : (w i).target.parent.parts.reverse with
  | nil =>
      rw [back] at whole
      rw [mkdirBack, ← List.reverse_nil, ← whole]
      exact kept _
  | cons last above =>
      rw [back] at whole
      rw [mkdirBack, ← whole]
      exact kept _

theorem plays_createTemp (company : Company S fs w) {post : Except Failure (Nat × PyPath) → Role → Prop}
    (made : ∀ c ino tmpPath, S.lookup fs false tmpPath = .ok c →
      post (.ok (ino, tmpPath))
        (.holding c ino ⟨[], ⟨S.masked 0o666, fs.born (w i).place.tail⟩⟩))
    (failed : ∀ e, post (.error e) .idle) :
    Program.Plays (writing S fs w) IsFault i post
      (createTemp S (w i).target (w i).chance.draws) .idle := by
  suffices every : ∀ remaining start, Program.Plays (writing S fs w) IsFault i post
      (createTempFrom S (w i).target (w i).chance.draws remaining start) .idle from every _ _
  intro remaining
  induction remaining with
  | zero => exact fun start => failed _
  | succ remaining ih =>
      intro start
      refine .bind (.attempt (plays_os (fun rs g fits role => ?_) ?_))
      · rcases result : S.create g (candidate (w i).target (w i).chance.draws start) 0o666 with
          ⟨e | ino, after⟩
        · obtain rfl := create_error result
          refine ⟨.idle, .stay _, fits.stay role, ?_⟩
          cases e with
          | EEXIST => exact ih (start + 1)
          | ENOENT | ENOTDIR | EISDIR | EACCES | EPERM | ELOOP | ENAMETOOLONG | EBUSY | other =>
              exact failed _
        · obtain ⟨c, missing, inside, looked, _, rfl, rfl⟩ := create_ok result
          have alike := fits.alike company
          have placed := alike.lookup.mp looked
          have standing : g.born c.tail = fs.born (w i).place.tail := by
            rw [born_congr (alike.back _ (.inl inside)).symm,
              same_parent (company.aimed i).named placed (company.aimed i).looked]
          refine ⟨_, .draws c _ _, fits.draw company role ⟨start, placed⟩ missing inside _, ?_⟩
          rw [standing]
          exact made c _ _ placed
      · rintro e ⟨code, rfl⟩
        exact failed _

theorem plays_append {c : Place Name} {ino : Nat} {file : File UInt8} {more : List UInt8}
    {post : Except Failure Unit → Role → Prop}
    (written : post (.ok ()) (.holding c ino { file with content := file.content ++ more }))
    (faulted : ∀ e, IsFault e → post (.error e) (.holding c ino file)) :
    Program.Plays (writing S fs w) IsFault i post (Io.os fun fs => (.ok (), fs.append ino more))
      (.holding c ino file) := by
  refine plays_os (fun rs g fits role => ⟨_, .edits c ino file _, ?_, written⟩) faulted
  obtain ⟨_, _, content⟩ := fits.owned i ino file (by rw [role]; rfl)
  rw [Fs.append, content]
  exact fits.edit role _

def Filling (c : Place Name) (ino : Nat) (rights : Rights) (wanted : Option (List UInt8))
    (result : Except Failure Unit) (r : Role) : Prop :=
  ∃ file : File UInt8, r = .holding c ino file ∧ file.rights = rights ∧
    (result = .ok () → wanted = some file.content)

theorem plays_writePieces {c : Place Name} {ino : Nat} {file : File UInt8} (pieces : List (List UInt8)) :
    Program.Plays (writing S fs w) IsFault i
      (Filling c ino file.rights (some (file.content ++ pieces.flatten)))
      (writePieces ino pieces) (.holding c ino file) := by
  induction pieces generalizing file with
  | nil => exact ⟨file, rfl, rfl, fun _ => by simp⟩
  | cons piece rest ih =>
      refine .bind (plays_append ?_ fun e _ => ⟨file, rfl, rfl, nofun⟩)
      refine ih.mono fun result r ended => ?_
      obtain ⟨now, same, rights, content⟩ := ended
      refine ⟨now, same, rights, fun ok => ?_⟩
      rw [← content ok]
      simp

theorem plays_spill {c : Place Name} {ino : Nat} {file : File UInt8} {spill : List UInt8} {e : Failure}
    {rights : Rights} {wanted : Option (List UInt8)} (same : file.rights = rights) :
    Program.Plays (writing S fs w) IsFault i (Filling c ino rights wanted)
      (do
        Io.os fun fs => (.ok (), fs.append ino spill)
        Program.fail e) (.holding c ino file) :=
  .bind (plays_append ⟨_, rfl, same, nofun⟩ fun _ _ => ⟨file, rfl, same, nofun⟩)

theorem plays_fillTemp {c : Place Name} {ino : Nat} {file : File UInt8} (empty : file.content = [])
    (text : Text) (spill : List UInt8) :
    Program.Plays (writing S fs w) IsFault i (Filling c ino file.rights text.encoded)
      (fillTemp S ino text spill) (.holding c ino file) := by
  refine .bind (.still (fun _ => rfl) (fun _ _ _ _ => ?_) fun _ _ => ⟨file, rfl, rfl, nofun⟩)
  cases text.known with
  | false => exact ⟨file, rfl, rfl, nofun⟩
  | true =>
      refine .bind (.attempt (.bind (.still (fun _ => rfl) (fun _ _ _ _ => ?_)
        fun e _ => plays_spill rfl)))
      cases encoded : text.encoded with
      | none => exact plays_spill rfl
      | some bytes =>
          refine .bind ((plays_writePieces (S.cut bytes)).mono ?_)
          rintro (e | ⟨⟩) r ⟨now, rfl, rights, written⟩
          · exact plays_spill rights
          · have whole := written rfl
            rw [empty, S.whole, List.nil_append] at whole
            refine plays_ask (fun _ _ _ _ => ?_) fun e _ => plays_spill rights
            exact plays_ask (fun _ _ _ _ => ⟨now, rfl, rights, fun _ => whole⟩)
              fun _ _ => ⟨now, rfl, rights, nofun⟩

theorem plays_copyExistingMode (company : Company S fs w) {c : Place Name} {ino : Nat} {file : File UInt8}
    {tmpPath : PyPath} (drawn : S.lookup fs false tmpPath = .ok c)
    (fresh : file.rights = ⟨S.masked 0o666, fs.born (w i).place.tail⟩) :
    Program.Plays (writing S fs w) IsFault i
      (fun result r => ∃ now : File UInt8, r = .holding c ino now ∧ now.content = file.content ∧
        (result = .ok () → now.rights.mode = keptMode S fs (w i).place))
      (copyExistingMode S (w i).target tmpPath) (.holding c ino file) := by
  refine .bind (.attempt (plays_ask (fun rs g fits role => ?_) ?_))
  · rw [fits.stat_target company i]
    rcases fits.mode company i with ⟨missing, before⟩ | ⟨n, there, mode⟩
    · rw [missing]
      exact ⟨file, rfl, rfl, fun _ => by rw [fresh, keptMode, before]⟩
    · rw [there]
      refine plays_os (fun rs g' fits' role' => ?_) fun e _ => ⟨file, rfl, rfl, nofun⟩
      rcases result : S.chmod g' tmpPath (g.rights (.file n)).mode with ⟨e | ⟨⟩, after⟩
      · obtain rfl := chmod_error result
        refine ⟨_, .stay _, fits'.stay role', file, rfl, rfl, nofun⟩
      · obtain ⟨d, m, isTemp, rfl⟩ := chmod_ok result
        rw [fits'.stat_temp company drawn role'] at isTemp
        cases isTemp
        obtain ⟨_, _, content⟩ := fits'.owned i ino file (by rw [role']; rfl)
        refine ⟨_, .edits c ino file _, fits'.edit role' _, _, rfl, by rw [content], fun _ => ?_⟩
        rw [← mode, content, fresh]
        rfl
  · rintro e ⟨code, rfl⟩
    exact ⟨file, rfl, rfl, nofun⟩

def Ended (result : Except Failure Unit) (r : Role) : Prop :=
  match result with
  | .ok () => ∃ ino file, r = .placed ino file
  | .error e => r = .idle ∨ (∃ later first, e = .unremoved later first) ∧ ∃ c ino file, r = .holding c ino file

theorem plays_replace (company : Company S fs w) {c : Place Name} {ino : Nat} {file : File UInt8}
    {tmpPath : PyPath} (drawn : S.lookup fs false tmpPath = .ok c)
    (encoded : (w i).text.encoded = some file.content)
    (mode : file.rights.mode = keptMode S fs (w i).place) :
    Program.Plays (writing S fs w) IsFault i
      (fun result r => match result with
        | .ok () => r = .placed ino file
        | .error _ => r = .holding c ino file)
      (Io.os fun fs => S.replace fs tmpPath (w i).target) (.holding c ino file) := by
  refine plays_os (fun rs g fits role => ?_) fun e _ => rfl
  rcases result : S.replace g tmpPath (w i).target with ⟨e | ⟨⟩, after⟩
  · obtain rfl := replace_error result
    exact ⟨_, .stay _, fits.stay role, rfl⟩
  · have alike := fits.alike company
    obtain ⟨source, k, from_temp, to_target, _, _, done⟩ := replace_ok result
    obtain rfl : c = source := by
      have same := alike.lookup.mp from_temp
      rw [drawn] at same
      cases same
      rfl
    obtain rfl : (w i).place = k := by
      have same := alike.lookup.mp to_target
      rw [(company.aimed i).looked] at same
      cases same
      rfl
    obtain ⟨drafts, _, there⟩ := fits.holding i c ino file role
    have apart : (w i).place ≠ c := by
      rintro rfl
      exact company.clear i i drafts
    rcases done with ⟨same | ⟨n, isTemp, again⟩, _⟩ | ⟨leaf, free, inside, _, rfl⟩
    · exact absurd same.symm apart
    · rw [there] at isTemp
      cases isTemp
      exact absurd (fits.only role again) apart
    · exact ⟨_, .places c ino file, fits.place company role encoded mode leaf free inside, rfl⟩

theorem plays_cleanUp (company : Company S fs w) {c : Place Name} {ino : Nat} {file : File UInt8}
    {tmpPath : PyPath} (drawn : S.lookup fs false tmpPath = .ok c) (e : Failure) :
    Program.Plays (writing S fs w) IsFault i Ended (cleanUp S tmpPath e) (.holding c ino file) := by
  refine .bind (.attempt (plays_os (fun rs g fits role => ?_) ?_))
  · have listed : S.lookup g false tmpPath = .ok c := (fits.alike company).lookup.mpr drawn
    obtain ⟨_, _, there⟩ := fits.holding i c ino file role
    rcases result : S.unlink g tmpPath with ⟨refused | ⟨⟩, after⟩
    · obtain rfl := unlink_error result
      refine ⟨_, .stay _, fits.stay role, ?_⟩
      have present : refused ≠ .ENOENT := by
        rintro rfl
        refine unlink_present listed (by simp [there]) ?_
        rw [result]
      cases refused with
      | ENOENT => exact absurd rfl present
      | ENOTDIR | EISDIR | EEXIST | EACCES | EPERM | ELOOP | ENAMETOOLONG | EBUSY | other =>
          exact .inr ⟨⟨_, _, rfl⟩, c, ino, file, rfl⟩
    · obtain ⟨d, leaf, looked, _, rfl⟩ := unlink_ok result
      rw [listed] at looked
      cases looked
      exact ⟨.idle, .drops c ino file, fits.drop company role leaf, .inl rfl⟩
  · rintro e' ⟨code, rfl⟩
    exact .inr ⟨⟨_, _, rfl⟩, c, ino, file, rfl⟩

/-- Every call of the writer plays its role. -/
theorem plays_program (company : Company S fs w) :
    Program.Plays (writing S fs w) IsFault i Ended ((w i).program S) .idle := by
  refine .bind (plays_resolveSymlinkedTarget company ?_ fun e => .inl rfl)
  refine .bind (plays_refuseUnwritableTarget ?_)
  rintro (e | ⟨⟩)
  · exact .inl rfl
  refine .bind (plays_mkdirParents company ?_)
  rintro (e | ⟨⟩)
  · exact .inl rfl
  refine .bind (plays_createTemp company (fun c ino tmpPath drawn => ?_) fun e => .inl rfl)
  refine .bind (.attempt (.bind ((plays_fillTemp rfl (w i).text (w i).chance.spill).mono ?_)))
  rintro (e | ⟨⟩) r ⟨file, rfl, rights, filled⟩
  · exact plays_cleanUp company drawn e
  refine .bind ((plays_copyExistingMode company drawn rights).mono ?_)
  rintro (e | ⟨⟩) r ⟨now, rfl, content, copied⟩
  · exact plays_cleanUp company drawn e
  have encoded : (w i).text.encoded = some now.content := by rw [content, filled rfl]
  refine (plays_replace company drawn encoded (copied rfl)).mono ?_
  rintro (e | ⟨⟩) r ended
  · obtain rfl := ended
    exact plays_cleanUp company drawn e
  · exact ⟨_, _, ended⟩

theorem Role.placed_stays {ino : Nat} {file : File UInt8} {r : Role}
    (moved : Relation.ReflTransGen Role.Moves (.placed ino file) r) : r = .placed ino file := by
  induction moved with
  | refl => rfl
  | tail _ moves ih =>
      subst ih
      cases moves
      rfl

end

structure Orderly (S : System) (fs : Disk) (w : ι → Writer) (qs : ι → Io Unit) (g : Disk) : Prop where
  /-- A path that leads to no temporary file shows what it showed, and no call that writes it
  has returned; or the whole text of one that writes it and has not failed. -/
  shows : ∀ p, (∀ i c, (w i).Drafts S fs c → S.lookup fs true p ≠ .ok c) →
    (seen S g p = seen S fs p ∧ ∀ j, qs j = .ret () → S.lookup fs true p ≠ .ok (w j).place) ∨
    ∃ j bytes, S.lookup fs true p = .ok (w j).place ∧ (∀ e, qs j ≠ .fail e) ∧
      (w j).text.encoded = some bytes ∧ seen S g p = .text bytes (keptMode S fs (w j).place)
  /-- Each call has at most one temporary file, while it runs or where it failed to remove it,
  and nothing else but the targets has changed. -/
  left : ∃ temp : ι → Option (Place Name),
    (∀ d, g.node d = fs.node d ∨ (∃ i, d = (w i).place) ∨ ∃ i, temp i = some d) ∧
    ∀ i c, temp i = some c → (w i).Drafts S fs c ∧ fs.node c = none ∧ qs i ≠ .ret () ∧
      ∀ e, qs i = .fail e → ∃ later first, e = .unremoved later first
  files : ∀ n, n < fs.next → g.file n = fs.file n

/-- Calls of the writer that run at once, each system call of any of them next and each of
them faulting or not, keep order at every point; and a file that a reader may open then is
not written to from there on. -/
theorem concurrent_writes [DecidableEq ι] (S : System) (fs : Disk) (w : ι → Writer)
    (company : Company S fs w) (qs : ι → Io Unit) (g : Disk)
    (run : Program.Interleaved IsFault (fun i => (w i).program S) fs qs g) :
    Orderly S fs w qs g ∧
      ∀ qs' g', Program.Interleaved IsFault qs g qs' g' →
        ∀ d n, (∀ i, ¬ (w i).Drafts S fs d) → g.node d = some (.file n) → g'.file n = g.file n := by
  obtain ⟨rs, _, fits, plays⟩ := Program.Plays.interleaved (C := writing S fs w) .start
    (fun _ => plays_program company) run
  have fits : Fits S fs w rs g := fits
  have returned : ∀ j, qs j = .ret () → ∃ ino file, rs j = .placed ino file := by
    intro j done
    have ended := plays j
    rw [done] at ended
    exact ended
  have failed : ∀ j e, qs j = .fail e →
      rs j = .idle ∨ (∃ later first, e = .unremoved later first) ∧ ∃ c ino file, rs j = .holding c ino file := by
    intro j e done
    have ended := plays j
    rw [done] at ended
    exact ended
  refine ⟨⟨fun p away => ?_, ⟨fun i => (rs i).temp, fits.elsewhere, fun i c isTemp => ?_⟩, fits.files⟩,
    fun qs' g' later d n away there => ?_⟩
  · rcases fits.shows company away with ⟨same, none⟩ | ⟨j, ino, file, leads, isPlaced, shown⟩
    · refine .inl ⟨same, fun j done => ?_⟩
      obtain ⟨ino, file, isPlaced⟩ := returned j done
      exact none j ino file isPlaced
    · obtain ⟨encoded, mode⟩ := fits.placed j ino file isPlaced
      refine .inr ⟨j, file.content, leads, fun e done => ?_, encoded, by rw [shown, mode]⟩
      rcases failed j e done with idle | ⟨_, c, ino', file', holds⟩
      · rw [isPlaced] at idle
        cases idle
      · rw [isPlaced] at holds
        cases holds
  · rcases role : rs i with _ | ⟨d, ino, file⟩ | ⟨ino, file⟩
    · simp only [role, Role.temp] at isTemp
      cases isTemp
    · simp only [role, Role.temp, Option.some.injEq] at isTemp
      subst isTemp
      obtain ⟨drafts, missing, _⟩ := fits.holding i d ino file role
      refine ⟨drafts, missing, fun done => ?_, fun e done => ?_⟩
      · obtain ⟨_, _, isPlaced⟩ := returned i done
        rw [role] at isPlaced
        cases isPlaced
      · rcases failed i e done with idle | ⟨unremoved, _⟩
        · rw [role] at idle
          cases idle
        · exact unremoved
    · simp only [role, Role.temp] at isTemp
      cases isTemp
  · obtain ⟨rs', moved, fits', _⟩ := Program.Plays.interleaved (C := writing S fs w) fits plays later
    have fits' : Fits S fs w rs' g' := fits'
    rcases fits.settled away there with old | ⟨j, file, isPlaced⟩
    · rw [fits'.files n old, fits.files n old]
    · have stays := moved j
      rw [isPlaced] at stays
      obtain ⟨_, _, before⟩ := fits.owned j n file (by rw [isPlaced]; rfl)
      obtain ⟨_, _, after⟩ := fits'.owned j n file (by rw [Role.placed_stays stays]; rfl)
      rw [before, after]

inductive Trio
  | first
  | second
  | other
  deriving DecidableEq

def threeWriters : Trio → Writer
  | .first => ⟨bareName "a", ⟨true, some [7]⟩, firstDraw, bareName "a", [Name.ofString "a"]⟩
  | .second =>
      let draws : Nat → Token := fun _ => ⟨List.replicate 8 ⟨1, by decide⟩, rfl⟩
      ⟨bareName "a", ⟨true, some [8]⟩, ⟨draws, []⟩, bareName "a", [Name.ofString "a"]⟩
  | .other => ⟨bareName "b", ⟨true, some [9]⟩, firstDraw, bareName "b", [Name.ofString "b"]⟩

/-- All three come as far as their temporary files, where the third stops; then the first returns,
and the rename of the second faults. -/
theorem concurrent_writes_stopped :
    ∃ qs g, Program.Interleaved IsFault (fun i => (threeWriters i).program plainSystem) emptyDisk qs g ∧
      qs .first = .ret () ∧ qs .second = .fail (.os (.other 5)) ∧ qs .other ≠ .ret () ∧ (∀ e, qs .other ≠ .fail e) ∧
      seen plainSystem g (bareName "a") = .text [7] 0o644 ∧
      Orderly plainSystem emptyDisk threeWriters qs g := by
  have company : Company plainSystem emptyDisk threeWriters := by
    refine ⟨fun i => ?_, fun i j ⟨n, drawn⟩ => ?_⟩
    · cases i <;> exact ⟨rfl, rfl, rfl, rfl⟩
    · cases i <;> cases j <;> cases drawn
  have calm : ∀ (count : Nat) (e : Failure), some e ∈ List.replicate count (none : Option Failure) → IsFault e :=
    fun _ _ there => by simp at there
  have begins : Program.Interleaved IsFault (fun i => (threeWriters i).program plainSystem) emptyDisk
      (fun i => (threeWriters i).program plainSystem) emptyDisk := .start
  have drawn := ((begins.play .first _ (calm 8)).play .second _ (calm 9)).play .other _ (calm 6)
  have run := (drawn.play .first _ (calm 4)).play .second [none, none, none, some (.os (.other 5)), none]
    (by simpa using ⟨_, rfl⟩)
  refine ⟨_, _, run, rfl, rfl, nofun, nofun, rfl,
    (concurrent_writes plainSystem emptyDisk threeWriters company _ _ run).1⟩

end AsyncPipelines
