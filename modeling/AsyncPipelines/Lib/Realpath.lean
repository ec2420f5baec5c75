import AsyncPipelines.Lib.Posix

/-!
`os.path.realpath` without `strict`: links are resolved one part at a time, what cannot be
looked up is taken for no link, and the result is made absolute and collapsed as text. It
leads where the kernel's own resolution leads, wherever that one succeeds.
-/

namespace Posix

variable {ν β : Type}

/-- `..` taken on the text resolved so far. -/
def Path.climb (p : Path ν) : Path ν :=
  match p.parts.getLast? with
  | none => if p.absolute then p else { p with parts := [.up] }
  | some .up => { p with parts := p.parts ++ [.up] }
  | some (.name _) => p.parent

section

variable (K : Kernel ν) (fs : Fs ν β)

/-- `_joinrealpath`, to the path and whether it is resolved; a link is left to `onLink`. -/
def Kernel.joinIn (onLink : Path ν → Path ν → List (Segment ν) → Path ν × Bool) :
    Path ν → List (Segment ν) → Path ν × Bool
  | path, [] => (path, true)
  | path, .up :: rest => Kernel.joinIn onLink path.climb rest
  | path, .name n :: rest =>
    match K.lstat fs (path.child n) with
    | .ok (_, .link target _) =>
      match onLink (if target.absolute then ⟨true, []⟩ else path) (path.child n) target.parts with
      | (resolved, true) => Kernel.joinIn onLink resolved rest
      | (resolved, false) => ({ resolved with parts := resolved.parts ++ rest }, false)
    | _ => Kernel.joinIn onLink (path.child n) rest

/-- A link met while it is itself being resolved is left where it stands, with the rest of the
path after it; `seen` holds the links being resolved. What a resolved link led to is not kept:
it is found again. -/
def Kernel.joinRealpath [DecidableEq ν] :
    Nat → List (Path ν) → Path ν → List (Segment ν) → Path ν × Bool
  | 0, _ => K.joinIn fs fun _ newpath _ => (newpath, false)
  | depth + 1, seen => K.joinIn fs fun path newpath parts =>
      if newpath ∈ seen then (newpath, false)
      else Kernel.joinRealpath depth (newpath :: seen) path parts

/-- `normpath` of an absolute path, to its names with the innermost first. -/
def collapse (names : List ν) : List (Segment ν) → List ν
  | [] => names
  | .up :: rest => collapse names.tail rest
  | .name n :: rest => collapse (n :: names) rest

def spell (names : List ν) : Path ν := ⟨true, names.reverse.map .name⟩

def Kernel.abspath (p : Path ν) : Path ν :=
  spell (collapse (if p.absolute then [] else K.cwd.reverse) p.parts)

def Kernel.realpath [DecidableEq ν] (p : Path ν) : Path ν :=
  K.abspath (K.joinRealpath fs K.patience [] ⟨p.absolute, []⟩ p.parts).1

def Kernel.cwdReachable : Prop :=
  K.walk fs true 0 [] (K.cwd.map .name) = .ok (K.place K.cwd)

end

variable {K : Kernel ν} {fs : Fs ν β} {follow : Bool}

theorem Walks.split {count : Nat} {here final : Place ν} {front back : List (Segment ν)}
    (walks : Walks K fs true count here (front ++ back) final) :
    ∃ first second middle, Walks K fs true first here front middle ∧
      Walks K fs true second middle back final ∧ first + second = count := by
  generalize parts : front ++ back = all at walks
  generalize following : true = follow at walks
  induction walks generalizing front with
  | done here =>
      obtain ⟨rfl, rfl⟩ := List.append_eq_nil_iff.mp parts
      exact ⟨0, 0, here, .done here, .done here, rfl⟩
  | @up count here final rest opened further ih =>
      cases front with
      | nil =>
          simp only [List.nil_append] at parts
          subst parts
          exact ⟨0, count, here, .done here, .up opened further, by omega⟩
      | cons part others =>
          simp only [List.cons_append, List.cons.injEq] at parts
          obtain ⟨rfl, same⟩ := parts
          obtain ⟨first, second, middle, early, late, sum⟩ := ih same
          exact ⟨first, second, middle, .up opened early, late, sum⟩
  | @name count here next final n rest entered plain further ih =>
      cases front with
      | nil =>
          simp only [List.nil_append] at parts
          subst parts
          exact ⟨0, count, here, .done here, .name entered plain further, by omega⟩
      | cons part others =>
          simp only [List.cons_append, List.cons.injEq] at parts
          obtain ⟨rfl, same⟩ := parts
          obtain ⟨first, second, middle, early, late, sum⟩ := ih same
          exact ⟨first, second, middle, .name entered plain early, late, sum⟩
  | last entered found kept => simp [kept] at following
  | @link count here next final n rest target r entered found followed further ih =>
      cases front with
      | nil =>
          simp only [List.nil_append] at parts
          subst parts
          exact ⟨0, count + 1, here, .done here, .link entered found followed further, by omega⟩
      | cons part others =>
          simp only [List.cons_append, List.cons.injEq] at parts
          obtain ⟨rfl, same⟩ := parts
          obtain ⟨first, second, middle, early, late, sum⟩ :=
            ih (by rw [← same, List.append_assoc])
          exact ⟨first + 1, second, middle, .link entered found (.inr following.symm) early, late,
            by omega⟩

theorem Walks.append {first second : Nat} {here middle final : Place ν} {front back : List (Segment ν)}
    (early : Walks K fs true first here front middle) (late : Walks K fs true second middle back final) :
    Walks K fs true (first + second) here (front ++ back) final := by
  generalize following : true = follow at early
  induction early with
  | done here =>
      rw [Nat.zero_add]
      exact following ▸ late
  | up opened further ih => exact .up opened (ih late)
  | name entered plain further ih => exact .name entered plain (ih late)
  | last entered found kept => simp [kept] at following
  | link entered found followed further ih =>
      have later := ih late
      rw [List.append_assoc] at later
      rw [Nat.add_right_comm]
      exact .link entered found (.inr following.symm) later

def Straight (K : Kernel ν) (fs : Fs ν β) (p : Path ν) (here : Place ν) : Prop :=
  Walks K fs true 0 (K.start p) p.parts here

theorem Straight.lookup {p : Path ν} {here : Place ν} (straight : Straight K fs p here)
    (dir : isDir (fs.node (K.start p)) = true) : K.lookup fs true p = .ok here := by
  simp only [Kernel.lookup, dir, if_true]
  exact straight.walk (Nat.zero_le _)

theorem walks_snoc {here final : Place ν} {front : List (Segment ν)} {n : ν}
    (walks : Walks K fs true 0 here (front ++ [.name n]) final) :
    Walks K fs true 0 here front final.tail := by
  obtain ⟨first, second, middle, early, late, sum⟩ := walks.split
  obtain ⟨rfl, rfl⟩ : first = 0 ∧ second = 0 := by omega
  cases late with
  | name entered plain further =>
      cases further
      obtain ⟨_, _, rfl⟩ := enter_ok entered
      exact early
  | last entered found kept => cases kept

theorem Straight.climb {p : Path ν} {here : Place ν} (straight : Straight K fs p here)
    (opened : K.opens fs here = .ok ()) : Straight K fs p.climb here.tail := by
  have same : ∀ parts, K.start { p with parts := parts } = K.start p := fun _ => rfl
  unfold Path.climb
  split
  · rename_i empty
    have parts : p.parts = [] := by simpa using empty
    have there : here = K.start p := by
      unfold Straight at straight
      rw [parts] at straight
      cases straight
      rfl
    subst there
    split
    · rename_i absolute
      have root : K.start p = [] := by simp [Kernel.start, absolute]
      unfold Straight
      rw [parts, root]
      exact .done _
    · exact .up opened (.done _)
  · unfold Straight
    rw [same]
    exact Walks.append straight (.up opened (.done _))
  · rename_i n last
    have parts := congrArg Path.parts (Path.eq_child last)
    unfold Straight at straight ⊢
    rw [parts] at straight
    exact walks_snoc straight

theorem Straight.child {p : Path ν} {here next : Place ν} {n : ν} (straight : Straight K fs p here)
    (entered : K.enter fs here n = .ok next) (plain : isLink (fs.node next) = false) :
    Straight K fs (p.child n) next :=
  Walks.append straight (.name entered plain (.done _))

theorem Straight.lstat {p : Path ν} {here next : Place ν} {n : ν} (straight : Straight K fs p here)
    (dir : isDir (fs.node (K.start p)) = true) (entered : K.enter fs here n = .ok next) :
    K.lookup fs false (p.child n) = .ok next := by
  rw [lookup_child, straight.lookup dir]
  exact entered

theorem Path.climb_absolute (p : Path ν) : p.climb.absolute = p.absolute := by
  unfold Path.climb
  split
  · split <;> rfl
  · rfl
  · rfl

def Begins (K : Kernel ν) (fs : Fs ν β) (p : Path ν) : Prop := isDir (fs.node (K.start p)) = true

theorem begins_of_absolute {p q : Path ν} (same : p.absolute = q.absolute) (begins : Begins K fs q) :
    Begins K fs p := by
  unfold Begins Kernel.start at *
  rwa [same]

theorem joinIn_walks {limit : Nat} {onLink : Path ν → Path ν → List (Segment ν) → Path ν × Bool}
    (linked : ∀ count, count < limit → ∀ path newpath here ps final, Begins K fs path →
      Straight K fs path here → Walks K fs true count here ps final →
      Walks K fs true (count + 1) (K.start newpath) newpath.parts final →
        ∃ resolved, onLink path newpath ps = (resolved, true) ∧ Straight K fs resolved final ∧
          Begins K fs resolved ∧ (path.absolute = true → resolved.absolute = true))
    {count : Nat} (within : count ≤ limit) {path : Path ν} {here final : Place ν} {ps : List (Segment ν)}
    (begins : Begins K fs path) (straight : Straight K fs path here)
    (walks : Walks K fs true count here ps final) :
    ∃ resolved, K.joinIn fs onLink path ps = (resolved, true) ∧ Straight K fs resolved final ∧
      Begins K fs resolved ∧ (path.absolute = true → resolved.absolute = true) := by
  induction ps generalizing count path here with
  | nil =>
      cases walks
      exact ⟨path, rfl, straight, begins, id⟩
  | cons part rest ih =>
      cases walks with
      | up opened further =>
          have same := path.climb_absolute
          obtain ⟨resolved, joined, there, starts, absolute⟩ :=
            ih within (begins_of_absolute same begins) (straight.climb opened) further
          exact ⟨resolved, joined, there, starts, fun isAbsolute => absolute (same.trans isAbsolute)⟩
      | name entered plain further =>
          rename_i next n
          obtain ⟨resolved, joined, there, rests⟩ := ih within
            (begins_of_absolute (path.child_absolute n) begins) (straight.child entered plain) further
          refine ⟨resolved, ?_, there, rests⟩
          have notLink : ∀ target r, fs.node next ≠ some (.link target r) := by
            intro target r found
            simp [isLink, found] at plain
          simp only [Kernel.joinIn]
          split
          · rename_i k target r listed
            obtain ⟨looked, found⟩ := entry_ok.mp listed
            rw [straight.lstat begins entered] at looked
            cases looked
            exact absurd found (notLink target r)
          · exact joined
      | last entered found kept => cases kept
      | link entered found followed further =>
          rename_i count next n target r
          obtain ⟨first, second, middle, early, late, sum⟩ := further.split
          have listed : K.lstat fs (path.child n) = .ok (next, .link target r) :=
            entry_ok.mpr ⟨straight.lstat begins entered, found⟩
          have begins' : Begins K fs (if target.absolute then ⟨true, []⟩ else path) := by
            split
            · exact fs.rooted
            · exact begins
          have straight' : Straight K fs (if target.absolute then ⟨true, []⟩ else path)
              (if target.absolute then [] else here) := by
            split
            · exact Walks.done _
            · exact straight
          have along : Walks K fs true (first + 1) (K.start (path.child n)) (path.child n).parts middle := by
            rw [← Nat.zero_add (first + 1)]
            refine Walks.append straight (.link entered found (.inr rfl) ?_)
            rw [List.append_nil]
            exact early
          obtain ⟨resolved, done, there, starts, absolute⟩ :=
            linked first (by omega) _ (path.child n) _ _ _ begins' straight' early along
          obtain ⟨resolved', joined, there', starts', absolute'⟩ := ih (by omega) starts there late
          refine ⟨resolved', ?_, there', starts', fun isAbsolute => absolute' (absolute ?_)⟩
          · simp only [Kernel.joinIn, listed, done]
            exact joined
          · split
            · rfl
            · exact isAbsolute

-- A walk that ends comes to no link inside the resolution of that link: the walk along the
-- inner one would be as long as the one along the outer, of which it is a proper part.
theorem joinRealpath_walks [DecidableEq ν] {depth count : Nat} (within : count ≤ depth) {seen : List (Path ν)}
    (fresh : ∀ q ∈ seen, ∀ total middle, Walks K fs true total (K.start q) q.parts middle → count < total)
    {path : Path ν} {here final : Place ν} {ps : List (Segment ν)} (begins : Begins K fs path)
    (straight : Straight K fs path here) (walks : Walks K fs true count here ps final) :
    ∃ resolved, K.joinRealpath fs depth seen path ps = (resolved, true) ∧ Straight K fs resolved final ∧
      Begins K fs resolved ∧ (path.absolute = true → resolved.absolute = true) := by
  induction depth generalizing count seen path here final ps with
  | zero =>
      refine joinIn_walks (fun first below => ?_) within begins straight walks
      exact absurd below (Nat.not_lt_zero first)
  | succ depth ih =>
      refine joinIn_walks ?_ (Nat.le_refl count) begins straight walks
      intro first below path newpath here ps middle begins straight early along
      have unseen : newpath ∉ seen := by
        intro resolving
        have longer := fresh newpath resolving _ _ along
        omega
      simp only [unseen, if_false]
      refine ih (by omega) ?_ begins straight early
      intro q there total middle' walked
      rcases List.mem_cons.mp there with rfl | there
      · have same := (Walks.unique walked along).1
        omega
      · exact Nat.lt_trans below (fresh q there total middle' walked)

theorem collapse_walks {names : List ν} {here final : Place ν} {ps : List (Segment ν)}
    (reached : Walks K fs true 0 [] (names.reverse.map .name) here)
    (walks : Walks K fs true 0 here ps final) :
    Walks K fs true 0 [] ((collapse names ps).reverse.map .name) final := by
  induction ps generalizing names here with
  | nil =>
      cases walks
      exact reached
  | cons part rest ih =>
      cases walks with
      | up opened further =>
          refine ih ?_ further
          cases names with
          | nil =>
              cases reached
              exact .done _
          | cons n names =>
              rw [List.reverse_cons, List.map_append] at reached
              exact walks_snoc reached
      | name entered plain further =>
          refine ih ?_ further
          rw [List.reverse_cons, List.map_append]
          exact Walks.append reached (.name entered plain (.done _))
      | last entered found kept => cases kept

/-- Whether the text of a resolved path starts at a place that can be reached. -/
def Kernel.Anchored (K : Kernel ν) (fs : Fs ν β) (p : Path ν) : Prop :=
  p.absolute = true ∨ K.cwdReachable fs

/-- Where the kernel finds its way along a path, the resolved path leads to the same place
without a link. -/
theorem straight_realpath [DecidableEq ν] {p : Path ν} (anchored : K.Anchored fs p) {final : Place ν}
    (found : K.lookup fs true p = .ok final) : Straight K fs (K.realpath fs p) final := by
  have walked : Begins K fs p ∧ ∃ count ≤ K.links, Walks K fs true count (K.start p) p.parts final := by
    simp only [Kernel.lookup] at found
    split at found
    · rename_i begins
      exact ⟨begins, walk_ok found⟩
    · cases found
  obtain ⟨begins, count, within, walks⟩ := walked
  have empty : Straight K fs ⟨p.absolute, []⟩ (K.start p) := .done _
  have starts : Begins K fs ⟨p.absolute, []⟩ := begins
  have fresh : ∀ q ∈ ([] : List (Path ν)), ∀ total middle,
      Walks K fs true total (K.start q) q.parts middle → count < total := by simp
  obtain ⟨resolved, joined, there, _, absolute⟩ :=
    joinRealpath_walks (Nat.le_trans within K.patient) fresh starts empty walks
  simp only [Straight, Kernel.realpath, joined, Kernel.abspath, spell]
  have there : Walks K fs true 0 (K.start resolved) resolved.parts final := there
  by_cases isAbsolute : resolved.absolute = true
  · rw [if_pos isAbsolute]
    simp only [Kernel.start, isAbsolute, if_true] at there
    have reached : Walks K fs true 0 [] (([] : List ν).reverse.map .name) [] := .done _
    exact collapse_walks reached there
  · rw [if_neg isAbsolute]
    simp only [Kernel.start, isAbsolute] at there
    have reached : K.walk fs true 0 [] (K.cwd.map .name) = .ok (K.place K.cwd) := by
      rcases anchored with given | reached
      · exact absurd (absolute given) isAbsolute
      · exact reached
    obtain ⟨none, zero, cwd⟩ := walk_ok reached
    obtain rfl : none = 0 := by omega
    refine collapse_walks ?_ there
    rw [List.reverse_reverse]
    exact cwd

theorem walks_any {count : Nat} {here final : Place ν} {ps : List (Segment ν)}
    (walks : Walks K fs true count here ps final) (none : count = 0) :
    Walks K fs follow 0 here ps final := by
  generalize following : true = flag at walks
  induction walks with
  | done here => exact .done here
  | up opened further ih => exact .up opened (ih none)
  | name entered plain further ih => exact .name entered plain (ih none)
  | last entered found kept => simp [kept] at following
  | link => simp at none

theorem lookup_realpath [DecidableEq ν] {p : Path ν} (anchored : K.Anchored fs p) {final : Place ν}
    (found : K.lookup fs true p = .ok final) :
    K.lookup fs follow (K.realpath fs p) = .ok final := by
  have straight := straight_realpath anchored found
  have begins : isDir (fs.node (K.start (K.realpath fs p))) = true := fs.rooted
  simp only [Kernel.lookup, begins, if_true]
  exact (walks_any straight rfl).walk (Nat.zero_le _)

theorem joinIn_append {onLink : Path ν → Path ν → List (Segment ν) → Path ν × Bool}
    {path resolved : Path ν} {ps : List (Segment ν)} (qs : List (Segment ν))
    (joined : K.joinIn fs onLink path ps = (resolved, true)) :
    K.joinIn fs onLink path (ps ++ qs) = K.joinIn fs onLink resolved qs := by
  induction ps generalizing path with
  | nil =>
      cases joined
      rfl
  | cons part rest ih =>
      cases part with
      | up => exact ih joined
      | name n =>
          simp only [List.cons_append, Kernel.joinIn] at joined ⊢
          split at joined
          · split at joined
            · exact ih joined
            · cases joined
          · exact ih joined

theorem joinIn_plain (onLink : Path ν → Path ν → List (Segment ν) → Path ν × Bool) {path : Path ν} {n : ν}
    (plain : ∀ here, K.lookup fs false (path.child n) = .ok here → isLink (fs.node here) = false) :
    K.joinIn fs onLink path [.name n] = (path.child n, true) := by
  simp only [Kernel.joinIn]
  split
  · rename_i here target r listed
    obtain ⟨looked, found⟩ := entry_ok.mp listed
    have none := plain here looked
    simp [isLink, found] at none
  · rfl

theorem collapse_append (names : List ν) (ps : List (Segment ν)) (n : ν) :
    collapse names (ps ++ [.name n]) = n :: collapse names ps := by
  induction ps generalizing names with
  | nil => rfl
  | cons part rest ih => cases part <;> exact ih _

/-- Where no link is met, the text alone says where a path leads. -/
theorem collapse_place {names : List ν} {final : Place ν} {ps : List (Segment ν)}
    (walks : Walks K fs true 0 (names.map K.fold) ps final) : (collapse names ps).map K.fold = final := by
  induction ps generalizing names with
  | nil =>
      cases walks
      rfl
  | cons part rest ih =>
      cases walks with
      | up opened further =>
          rw [← List.map_tail] at further
          exact ih further
      | name entered plain further =>
          obtain ⟨_, _, rfl⟩ := enter_ok entered
          rw [← List.map_cons] at further
          exact ih further
      | last entered found kept => cases kept

theorem walks_plain {count : Nat} {above : Place ν} {names : List ν} {final : Place ν}
    (plain : ∀ front back, names = front ++ back → front ≠ [] →
      isLink (fs.node ((front.map K.fold).reverse ++ above)) = false)
    (walks : Walks K fs follow count above (names.map .name) final) :
    final = (names.map K.fold).reverse ++ above := by
  induction names generalizing count above with
  | nil =>
      cases walks
      rfl
  | cons n rest ih =>
      have first := plain [n] rest rfl (by simp)
      have later : ∀ front back, rest = front ++ back → front ≠ [] →
          isLink (fs.node ((front.map K.fold).reverse ++ (K.fold n :: above))) = false := by
        intro front back same nonempty
        have whole := plain (n :: front) back (by rw [same]; rfl) (by simp)
        rwa [List.map_cons, List.reverse_cons, List.append_assoc] at whole
      simp only [List.map_cons, List.map_nil, List.reverse_cons, List.reverse_nil, List.nil_append,
        List.append_assoc, List.singleton_append] at first walks ⊢
      generalize mapped : rest.map Segment.name = parts at walks
      cases walks with
      | name entered isPlain further =>
          obtain ⟨_, _, rfl⟩ := enter_ok entered
          subst mapped
          exact ih later further
      | last entered found kept =>
          obtain ⟨_, _, rfl⟩ := enter_ok entered
          rw [first] at found
          cases found
      | link entered found followed further =>
          obtain ⟨_, _, rfl⟩ := enter_ok entered
          simp [isLink, found] at first

theorem isDir_suffix {front back : Place ν} (dir : isDir (fs.node (front ++ back)) = true) :
    isDir (fs.node back) = true := by
  induction front with
  | nil => exact dir
  | cons n front ih => exact ih (isDir_tail fs dir)

theorem lookup_spell {names : List ν} {n : ν} {here : Place ν}
    (dir : isDir (fs.node (names.map K.fold)) = true)
    (plain : isLink (fs.node (K.fold n :: names.map K.fold)) = false)
    (found : K.lookup fs follow (spell (n :: names)) = .ok here) : here = K.fold n :: names.map K.fold := by
  simp only [Kernel.lookup] at found
  split at found
  · obtain ⟨count, _, walks⟩ := walk_ok found
    have whole : ((n :: names).reverse.map K.fold).reverse = K.fold n :: names.map K.fold := by
      rw [← List.map_reverse, List.reverse_reverse, List.map_cons]
    rw [← whole, ← List.append_nil (List.reverse _)]
    refine walks_plain ?_ walks
    intro front back same nonempty
    have split : (K.fold n :: names.map K.fold) = (back.map K.fold).reverse ++ (front.map K.fold).reverse := by
      rw [← whole, same, List.map_append, List.reverse_append]
    rw [List.append_nil]
    cases rests : (back.map K.fold).reverse with
    | nil =>
        rw [rests, List.nil_append] at split
        rwa [← split]
    | cons m above =>
        rw [rests, List.cons_append] at split
        have inside := (List.cons.inj split).2
        rw [inside] at dir
        exact not_isLink_of_isDir (isDir_suffix dir)
  · cases found

theorem joinIn_congr {fs' : Fs ν β}
    (links : ∀ p k target r, K.lstat fs' p = .ok (k, .link target r) ↔ K.lstat fs p = .ok (k, .link target r))
    {onLink onLink' : Path ν → Path ν → List (Segment ν) → Path ν × Bool}
    (same : ∀ path newpath ps, onLink' path newpath ps = onLink path newpath ps)
    (path : Path ν) (ps : List (Segment ν)) : K.joinIn fs' onLink' path ps = K.joinIn fs onLink path ps := by
  induction ps generalizing path with
  | nil => rfl
  | cons part rest ih =>
      cases part with
      | up => exact ih _
      | name n =>
          simp only [Kernel.joinIn]
          split
          · rename_i k target r listed
            rw [(links _ _ _ _).mp listed]
            simp only [same]
            split
            · exact ih _
            · rfl
          · rename_i plain
            split
            · rename_i k target r listed
              exact absurd ((links _ _ _ _).mpr listed) (plain k target r)
            · exact ih _

theorem realpath_congr [DecidableEq ν] {fs' : Fs ν β}
    (links : ∀ p k target r, K.lstat fs' p = .ok (k, .link target r) ↔ K.lstat fs p = .ok (k, .link target r))
    (p : Path ν) : K.realpath fs' p = K.realpath fs p := by
  have every : ∀ depth seen path ps,
      K.joinRealpath fs' depth seen path ps = K.joinRealpath fs depth seen path ps := by
    intro depth
    induction depth with
    | zero => exact fun _ => joinIn_congr links fun _ _ _ => rfl
    | succ depth ih => exact fun seen => joinIn_congr links fun path newpath ps => by simp only [ih]
  simp only [Kernel.realpath, every]

end Posix
