import Mathlib.Data.List.Forall2
import Mathlib.Data.List.Nodup
import Mathlib.Data.List.Perm.Subperm
import Mathlib.Logic.Function.Basic

/-!
Mutable objects that refer to each other, and the code that reads and edits them in place.
Code holds values in registers and sees an object's cells, never an address: two stores
that are alike along a link of their addresses cannot be told apart by it.
-/

namespace ObjectStore

variable {κ τ π : Type}

inductive Value (τ : Type)
  | atom (a : τ)
  | ref (l : Nat)
  deriving DecidableEq

structure Obj (κ τ : Type) where
  tag : τ
  cells : List (κ × Value τ)
  deriving DecidableEq

abbrev Store (κ τ : Type) := List (Obj κ τ)

abbrev Registers (τ : Type) := List (Value τ)

/-- The operands are registers, and what an instruction yields goes to new ones. Every edit of an
object in place is a `write` of what it holds from then on. -/
inductive Instr (κ τ : Type)
  | const (a : τ)
  | make (tag : τ) (cells : List (κ × Nat))
  | write (x : Nat) (cells : List (κ × Nat))
  | look (x : Nat)
  | same (x y : Nat)
  deriving DecidableEq

/-- What code learns: of a reference only that it is one. -/
inductive Answer (κ τ : Type)
  | done
  | atom (a : τ)
  | object (tag : τ) (cells : List (κ × Option τ))
  | truth (same : Bool)
  | refused
  deriving DecidableEq

def Value.atom? : Value τ → Option τ
  | atom a => some a
  | ref _ => none

def pick (env : Registers τ) : List (κ × Nat) → Option (List (κ × Value τ))
  | [] => some []
  | (k, x) :: rest =>
      match env[x]?, pick env rest with
      | some v, some cells => some ((k, v) :: cells)
      | _, _ => none

def Obj.view (o : Obj κ τ) : Answer κ τ := .object o.tag (o.cells.map fun cell => (cell.1, cell.2.atom?))

def exec (h : Store κ τ) (env : Registers τ) : Instr κ τ → Store κ τ × Registers τ × Answer κ τ
  | .const a => (h, env ++ [.atom a], .done)
  | .make tag cells =>
      match pick env cells with
      | some held => (h ++ [⟨tag, held⟩], env ++ [.ref h.length], .done)
      | none => (h, env, .refused)
  | .write x cells =>
      match env[x]?, pick env cells with
      | some (.ref l), some held => (h.modify l fun o => { o with cells := held }, env, .done)
      | _, _ => (h, env, .refused)
  | .look x =>
      match env[x]? with
      | some (.atom a) => (h, env, .atom a)
      | some (.ref l) =>
          match h[l]? with
          | some o => (h, env ++ o.cells.map Prod.snd, o.view)
          | none => (h, env, .refused)
      | none => (h, env, .refused)
  | .same x y =>
      match env[x]?, env[y]? with
      | some (.ref l), some (.ref m) => (h, env, .truth (l == m))
      | _, _ => (h, env, .refused)

inductive Value.Linked (link : Nat → Nat → Prop) : Value τ → Value τ → Prop
  | atom (a : τ) : Linked link (.atom a) (.atom a)
  | ref {l l' : Nat} (linked : link l l') : Linked link (.ref l) (.ref l')

abbrev LinkedCells (link : Nat → Nat → Prop) : List (κ × Value τ) → List (κ × Value τ) → Prop :=
  List.Forall₂ fun cell cell' => cell.1 = cell'.1 ∧ cell.2.Linked link cell'.2

abbrev LinkedRegisters (link : Nat → Nat → Prop) : Registers τ → Registers τ → Prop :=
  List.Forall₂ (Value.Linked link)

structure Alike (link : Nat → Nat → Prop) (h h' : Store κ τ) : Prop where
  unique : ∀ {l l' m m'}, link l l' → link m m' → (l = m ↔ l' = m')
  objs : ∀ {l l'}, link l l' → ∃ o o', h[l]? = some o ∧ h'[l']? = some o' ∧ o.tag = o'.tag ∧
    LinkedCells link o.cells o'.cells

/-- The same contents, down to which objects are shared. -/
def Same (h : Store κ τ) (v : Value τ) (h' : Store κ τ) (v' : Value τ) : Prop :=
  ∃ link, Alike link h h' ∧ v.Linked link v'

section links

variable {link more : Nat → Nat → Prop} {h h' k : Store κ τ} {v w : Value τ}

theorem Value.Linked.mono (wider : ∀ l l', link l l' → more l l') (linked : v.Linked link w) :
    v.Linked more w := by
  cases linked with
  | atom a => exact .atom a
  | ref linked => exact .ref (wider _ _ linked)

theorem Value.Linked.symm (linked : v.Linked link w) : w.Linked (fun l l' => link l' l) v := by
  cases linked with
  | atom a => exact .atom a
  | ref linked => exact .ref linked

theorem Value.Linked.trans {u : Value τ} (first : v.Linked link w) (second : w.Linked more u) :
    v.Linked (fun l m => ∃ n, link l n ∧ more n m) u := by
  cases first with
  | atom a =>
      cases second
      exact .atom a
  | ref linked =>
      cases second with
      | ref linked' => exact .ref ⟨_, linked, linked'⟩

theorem Value.Linked.view (linked : v.Linked link w) : v.atom? = w.atom? := by
  cases linked <;> rfl

theorem LinkedCells.mono {cells cells' : List (κ × Value τ)} (wider : ∀ l l', link l l' → more l l')
    (linked : LinkedCells link cells cells') : LinkedCells more cells cells' :=
  linked.imp fun _ _ both => ⟨both.1, both.2.mono wider⟩

theorem LinkedRegisters.mono {env env' : Registers τ} (wider : ∀ l l', link l l' → more l l')
    (linked : LinkedRegisters link env env') : LinkedRegisters more env env' :=
  linked.imp fun _ _ one => one.mono wider

theorem LinkedCells.source {cells cells' : List (κ × Value τ)} (linked : LinkedCells link cells cells')
    {cell : κ × Value τ} (member : cell ∈ cells') : ∃ source : Value τ, source.Linked link cell.2 := by
  induction linked with
  | nil => simp at member
  | cons one _ ih =>
      rcases List.mem_cons.mp member with rfl | member
      · exact ⟨_, one.2⟩
      · exact ih member

theorem LinkedRegisters.get {env env' : Registers τ} (linked : LinkedRegisters link env env') (x : Nat) :
    (env[x]? = none ∧ env'[x]? = none) ∨
      ∃ v v', env[x]? = some v ∧ env'[x]? = some v' ∧ v.Linked link v' := by
  induction linked generalizing x with
  | nil => exact .inl ⟨by simp, by simp⟩
  | cons one _ ih =>
      cases x with
      | zero => exact .inr ⟨_, _, by simp, by simp, one⟩
      | succ x => simpa using ih x

theorem LinkedRegisters.pick {env env' : Registers τ} (linked : LinkedRegisters link env env')
    (cells : List (κ × Nat)) :
    (pick env cells = none ∧ pick env' cells = none) ∨
      ∃ held held', pick env cells = some held ∧ pick env' cells = some held' ∧
        LinkedCells link held held' := by
  induction cells with
  | nil => exact .inr ⟨[], [], rfl, rfl, .nil⟩
  | cons cell rest ih =>
      rcases linked.get cell.2 with ⟨none, none'⟩ | ⟨v, v', some, some', one⟩
      · exact .inl ⟨by simp [ObjectStore.pick, none], by simp [ObjectStore.pick, none']⟩
      · rcases ih with ⟨none, none'⟩ | ⟨held, held', picked, picked', all⟩
        · exact .inl ⟨by simp [ObjectStore.pick, none], by simp [ObjectStore.pick, none']⟩
        · refine .inr ⟨(cell.1, v) :: held, (cell.1, v') :: held', ?_, ?_, .cons ⟨rfl, one⟩ all⟩
          · simp [ObjectStore.pick, some, picked]
          · simp [ObjectStore.pick, some', picked']

theorem Alike.bound (alike : Alike link h h') {l l' : Nat} (linked : link l l') :
    l < h.length ∧ l' < h'.length := by
  obtain ⟨o, o', read, read', _⟩ := alike.objs linked
  exact ⟨(List.getElem?_eq_some_iff.mp read).1, (List.getElem?_eq_some_iff.mp read').1⟩

theorem Alike.symm (alike : Alike link h h') : Alike (fun l l' => link l' l) h' h := by
  refine ⟨fun one two => (alike.unique one two).symm, fun linked => ?_⟩
  obtain ⟨o, o', read, read', tags, cells⟩ := alike.objs linked
  refine ⟨o', o, read', read, tags.symm, List.Forall₂.flip (cells.imp ?_)⟩
  exact fun cell cell' both => ⟨both.1.symm, both.2.symm⟩

theorem LinkedCells.trans {cells cells' cells'' : List (κ × Value τ)} (first : LinkedCells link cells cells')
    (second : LinkedCells more cells' cells'') :
    LinkedCells (fun l m => ∃ k, link l k ∧ more k m) cells cells'' := by
  induction first generalizing cells'' with
  | nil =>
      cases second
      exact .nil
  | cons one _ ih =>
      cases second with
      | cons two rest =>
          exact .cons ⟨one.1.trans two.1, one.2.trans two.2⟩ (ih rest)

theorem Alike.trans (first : Alike link h h') (second : Alike more h' k) :
    Alike (fun l m => ∃ n, link l n ∧ more n m) h k := by
  constructor
  · rintro l l' m m' ⟨n, one, two⟩ ⟨n', one', two'⟩
    exact (first.unique one one').trans (second.unique two two')
  · rintro l m ⟨n, one, two⟩
    obtain ⟨o, o', read, read', tags, cells⟩ := first.objs one
    obtain ⟨p, p', read'', last, tags', cells'⟩ := second.objs two
    obtain rfl : o' = p := Option.some.inj (read'.symm.trans read'')
    exact ⟨o, p', read, last, tags.trans tags', cells.trans cells'⟩

theorem Same.symm (same : Same h v h' w) : Same h' w h v := by
  obtain ⟨link, alike, linked⟩ := same
  exact ⟨_, alike.symm, linked.symm⟩

theorem Same.trans {u : Value τ} (first : Same h v h' w) (second : Same h' w k u) : Same h v k u := by
  obtain ⟨link, alike, linked⟩ := first
  obtain ⟨more, alike', linked'⟩ := second
  exact ⟨_, alike.trans alike', linked.trans linked'⟩

theorem Alike.congr (alike : Alike link h h') (kept : ∀ l l', link l l' → k[l']? = h'[l']?) :
    Alike link h k := by
  refine ⟨alike.unique, fun linked => ?_⟩
  obtain ⟨o, o', read, read', rest⟩ := alike.objs linked
  exact ⟨o, o', read, (kept _ _ linked).trans read', rest⟩

theorem Same.grown (same : Same h v h' w) (more : Store κ τ) : Same h v (h' ++ more) w := by
  obtain ⟨link, alike, linked⟩ := same
  exact ⟨link, alike.congr fun l l' member => List.getElem?_append_left (alike.bound member).2, linked⟩

/-- Code gets the same answers from stores that are alike, and leaves them alike. -/
theorem exec_alike {env env' : Registers τ} (alike : Alike link h h')
    (linked : LinkedRegisters link env env') (i : Instr κ τ) :
    (exec h env i).2.2 = (exec h' env' i).2.2 ∧
    ∃ more, (∀ l l', link l l' → more l l') ∧
      (∀ l l', more l l' → link l l' ∨ h'.length ≤ l') ∧
      Alike more (exec h env i).1 (exec h' env' i).1 ∧
      LinkedRegisters more (exec h env i).2.1 (exec h' env' i).2.1 := by
  have unmoved : ∃ more, (∀ l l', link l l' → more l l') ∧
      (∀ l l', more l l' → link l l' ∨ h'.length ≤ l') ∧ Alike more h h' ∧
      LinkedRegisters more env env' :=
    ⟨link, fun _ _ => id, fun _ _ => .inl, alike, linked⟩
  cases i with
  | const a =>
      exact ⟨rfl, link, fun _ _ => id, fun _ _ => .inl, alike, List.rel_append linked (.cons (.atom a) .nil)⟩
  | make tag cells =>
      rcases linked.pick cells with ⟨none, none'⟩ | ⟨held, held', picked, picked', all⟩
      · simpa only [exec, none, none', true_and] using unmoved
      · simp only [exec, picked, picked', true_and]
        have wider : ∀ l l', link l l' → link l l' ∨ l = h.length ∧ l' = h'.length :=
          fun _ _ => .inl
        refine ⟨fun l l' => link l l' ∨ l = h.length ∧ l' = h'.length, wider, ?_, ⟨?_, ?_⟩, ?_⟩
        · rintro l l' (old | new)
          · exact .inl old
          · exact .inr (by omega)
        · rintro l l' m m' (one | one) (two | two)
          · exact alike.unique one two
          · have bound := alike.bound one
            omega
          · have bound := alike.bound two
            omega
          · omega
        · rintro l l' (old | ⟨rfl, rfl⟩)
          · obtain ⟨o, o', read, read', tags, both⟩ := alike.objs old
            have bound := alike.bound old
            refine ⟨o, o', ?_, ?_, tags, both.mono wider⟩
            · rwa [List.getElem?_append_left bound.1]
            · rwa [List.getElem?_append_left bound.2]
          · exact ⟨⟨tag, held⟩, ⟨tag, held'⟩, by simp, by simp, rfl, all.mono wider⟩
        · exact List.rel_append (linked.mono wider) (.cons (.ref (.inr ⟨rfl, rfl⟩)) .nil)
  | write x cells =>
      rcases linked.get x with ⟨none, none'⟩ | ⟨v, v', some, some', one⟩
      · simpa only [exec, none, none', true_and] using unmoved
      · rcases linked.pick cells with ⟨none, none'⟩ | ⟨held, held', picked, picked', all⟩
        · cases one <;> simpa only [exec, some, some', none, none', true_and] using unmoved
        · cases one with
          | atom a => simpa only [exec, some, some', true_and] using unmoved
          | @ref l l' here =>
              simp only [exec, some, some', picked, picked', true_and]
              refine ⟨link, fun _ _ => id, fun _ _ => .inl, ⟨alike.unique, ?_⟩, linked⟩
              intro m m' other
              obtain ⟨o, o', read, read', tags, both⟩ := alike.objs other
              simp only [List.getElem?_modify]
              by_cases same : l = m
              · obtain rfl := same
                obtain rfl := (alike.unique here other).mp rfl
                exact ⟨{ o with cells := held }, { o' with cells := held' }, by simp [read],
                  by simp [read'], tags, all⟩
              · have apart : l' ≠ m' := fun same' => same ((alike.unique here other).mpr same')
                exact ⟨o, o', by simp [same, read], by simp [apart, read'], tags, both⟩
  | look x =>
      rcases linked.get x with ⟨none, none'⟩ | ⟨v, v', some, some', one⟩
      · simpa only [exec, none, none', true_and] using unmoved
      · cases one with
        | atom a => simpa only [exec, some, some', true_and] using unmoved
        | ref here =>
            obtain ⟨o, o', read, read', tags, both⟩ := alike.objs here
            simp only [exec, some, some', read, read']
            refine ⟨?_, link, fun _ _ => id, fun _ _ => .inl, alike, List.rel_append linked ?_⟩
            · simp only [Obj.view, tags, Answer.object.injEq, true_and]
              refine List.forall₂_eq_eq_eq ▸ List.forall₂_map_left_iff.mpr
                (List.forall₂_map_right_iff.mpr (both.imp fun cell cell' one => ?_))
              exact Prod.ext one.1 one.2.view
            · exact List.forall₂_map_left_iff.mpr (List.forall₂_map_right_iff.mpr
                (both.imp fun _ _ one => one.2))
  | same x y =>
      rcases linked.get x with ⟨none, none'⟩ | ⟨v, v', some, some', one⟩
      · simpa only [exec, none, none', true_and] using unmoved
      · rcases linked.get y with ⟨none, none'⟩ | ⟨w, w', found, found', two⟩
        · cases one <;> simpa only [exec, some, some', none, none', true_and] using unmoved
        · cases one with
          | atom a => simpa only [exec, some, some', true_and] using unmoved
          | ref here =>
              cases two with
              | atom a => simpa only [exec, some, some', found, found', true_and] using unmoved
              | ref there =>
                  simp only [exec, some, some', found, found', Answer.truth.injEq]
                  refine ⟨?_, unmoved⟩
                  rw [Bool.eq_iff_iff, beq_iff_eq, beq_iff_eq]
                  exact alike.unique here there

end links

section owners

variable {home : Nat → π} {p q : π} {h k : Store κ τ} {v : Value τ}

def Owned (home : Nat → π) (h : Store κ τ) (p : π) (v : Value τ) : Prop :=
  ∀ l, v = .ref l → l < h.length ∧ home l = p

def Closed (home : Nat → π) (h : Store κ τ) : Prop :=
  ∀ l o, h[l]? = some o → ∀ cell ∈ o.cells, Owned home h (home l) cell.2

theorem owned_atom (a : τ) : Owned home h p (.atom a) := fun l isRef => by cases isRef

def settle (home : Nat → π) (n : Nat) (p : π) (l : Nat) : π := if l < n then home l else p

structure Within (home : Nat → π) (p : π) (h k : Store κ τ) : Prop where
  grown : h.length ≤ k.length
  closed : Closed (settle home h.length p) k
  kept : ∀ l, l < h.length → home l ≠ p → k[l]? = h[l]?

theorem settle_old {n l : Nat} (old : l < n) : settle home n p l = home l := by simp [settle, old]

theorem settle_new {n l : Nat} (new : n ≤ l) : settle home n p l = p := by
  simp [settle, Nat.not_lt.mpr new]

theorem Owned.later (owned : Owned home h q v) (grown : h.length ≤ k.length) :
    Owned (settle home h.length p) k q v := by
  intro l isRef
  obtain ⟨bound, own⟩ := owned l isRef
  exact ⟨by omega, by rw [settle_old bound, own]⟩

theorem Within.refl (closed : Closed home h) : Within home p h h := by
  refine ⟨Nat.le_refl _, fun l o read cell member => ?_, fun _ _ _ => rfl⟩
  have bound := (List.getElem?_eq_some_iff.mp read).1
  rw [settle_old bound]
  exact (closed l o read cell member).later (Nat.le_refl _)

theorem pick_owned {env : Registers τ} (owned : ∀ v ∈ env, Owned home h p v) {cells : List (κ × Nat)}
    {held : List (κ × Value τ)} (picked : pick env cells = some held) :
    ∀ cell ∈ held, Owned home h p cell.2 := by
  induction cells generalizing held with
  | nil =>
      obtain rfl : [] = held := by simpa [pick] using picked
      simp
  | cons cell rest ih =>
      simp only [pick] at picked
      split at picked
      · rename_i v others found restPicked
        obtain rfl : (cell.1, v) :: others = held := by simpa using picked
        intro other member
        rcases List.mem_cons.mp member with rfl | member
        · exact owned v (List.mem_of_getElem? found)
        · exact ih restPicked other member
      · simp at picked

theorem append_within {o : Obj κ τ} (closed : Closed home h) (held : ∀ cell ∈ o.cells, Owned home h p cell.2) :
    Within home p h (h ++ [o]) ∧ Owned (settle home h.length p) (h ++ [o]) p (.ref h.length) := by
  have grown : h.length ≤ (h ++ [o]).length := by simp
  refine ⟨⟨grown, fun l other read cell member => ?_, fun l bound _ => List.getElem?_append_left bound⟩, ?_⟩
  · by_cases old : l < h.length
    · rw [List.getElem?_append_left old] at read
      rw [settle_old old]
      exact (closed l other read cell member).later grown
    · rw [settle_new (Nat.le_of_not_lt old)]
      rw [List.getElem?_append_right (Nat.le_of_not_lt old), List.getElem?_singleton] at read
      split at read
      · exact (held cell (Option.some.inj read ▸ member)).later grown
      · simp at read
  · intro l isRef
    cases isRef
    exact ⟨by simp, settle_new (Nat.le_refl _)⟩

/-- Code that holds only its own objects stays with them. -/
theorem exec_within {env : Registers τ} (closed : Closed home h) (owned : ∀ v ∈ env, Owned home h p v)
    (i : Instr κ τ) :
    Within home p h (exec h env i).1 ∧
      ∀ v ∈ (exec h env i).2.1, Owned (settle home h.length p) (exec h env i).1 p v := by
  have before : ∀ v ∈ env, Owned (settle home h.length p) h p v := fun v member =>
    (owned v member).later (Nat.le_refl _)
  have unmoved : Within home p h h ∧ ∀ v ∈ env, Owned (settle home h.length p) h p v :=
    ⟨.refl closed, before⟩
  cases i with
  | const a =>
      refine ⟨.refl closed, fun v member => ?_⟩
      rcases List.mem_append.mp member with member | member
      · exact before v member
      · obtain rfl : v = .atom a := by simpa using member
        exact owned_atom a
  | make tag cells =>
      simp only [exec]
      split
      · rename_i held picked
        obtain ⟨within, new⟩ := append_within (o := ⟨tag, held⟩) closed (pick_owned owned picked)
        refine ⟨within, fun v member => ?_⟩
        rcases List.mem_append.mp member with member | member
        · exact (owned v member).later within.grown
        · obtain rfl : v = .ref h.length := by simpa using member
          exact new
      · exact unmoved
  | write x cells =>
      simp only [exec]
      split
      · rename_i l held found picked
        have own := owned _ (List.mem_of_getElem? found) l rfl
        have grown : h.length ≤ (h.modify l fun o => { o with cells := held }).length := by simp
        refine ⟨⟨grown, fun m o read cell member => ?_, fun m bound other => ?_⟩, fun v member => ?_⟩
        · rw [List.getElem?_modify] at read
          obtain ⟨old, before, rfl⟩ := Option.map_eq_some_iff.mp read
          have bound := (List.getElem?_eq_some_iff.mp before).1
          rw [settle_old bound]
          by_cases here : l = m
          · subst here
            rw [own.2]
            exact (pick_owned owned picked cell (by simpa using member)).later grown
          · simp only [here, ↓reduceIte] at member
            exact (closed m old before cell member).later grown
        · have apart : l ≠ m := by
            rintro rfl
            exact other own.2
          simp [apart]
        · exact (owned v member).later grown
      · exact unmoved
  | look x =>
      simp only [exec]
      split
      · exact unmoved
      · rename_i l found
        have own := owned _ (List.mem_of_getElem? found) l rfl
        split
        · rename_i o read
          refine ⟨.refl closed, fun v member => ?_⟩
          rcases List.mem_append.mp member with member | member
          · exact before v member
          · obtain ⟨cell, inside, rfl⟩ := List.mem_map.mp member
            rw [← own.2]
            exact (closed l o read cell inside).later (Nat.le_refl _)
        · exact unmoved
      · exact unmoved
  | same x y =>
      simp only [exec]
      split
      · exact unmoved
      · exact unmoved

structure AlikeIn (home : Nat → π) (p : π) (link : Nat → Nat → Prop) (h h' : Store κ τ) : Prop
    extends Alike link h h' where
  own : ∀ {l l'}, link l l' → home l' = p

variable {link : Nat → Nat → Prop} {h' : Store κ τ}

theorem AlikeIn.later (alike : AlikeIn home p link h h') (within : Within home q h' k) (other : p ≠ q) :
    AlikeIn (settle home h'.length q) p link h k := by
  refine ⟨alike.toAlike.congr fun l l' linked => ?_, fun {l l'} linked => ?_⟩
  · exact within.kept l' (alike.bound linked).2 (alike.own linked ▸ other)
  · rw [settle_old (alike.bound linked).2, alike.own linked]

theorem AlikeIn.exec {env env' : Registers τ} (alike : AlikeIn home p link h h')
    (linked : LinkedRegisters link env env') (i : Instr κ τ) :
    (ObjectStore.exec h env i).2.2 = (ObjectStore.exec h' env' i).2.2 ∧
    ∃ more, AlikeIn (settle home h'.length p) p more (ObjectStore.exec h env i).1
        (ObjectStore.exec h' env' i).1 ∧
      LinkedRegisters more (ObjectStore.exec h env i).2.1 (ObjectStore.exec h' env' i).2.1 := by
  obtain ⟨answers, more, _, new, alike', linked'⟩ := exec_alike alike.toAlike linked i
  refine ⟨answers, more, ⟨alike', fun {l l'} member => ?_⟩, linked'⟩
  rcases new l l' member with old | fresh
  · rw [settle_old (alike.bound old).2, alike.own old]
  · exact settle_new fresh

end owners

section copies

abbrev Memo := List (Nat × Nat)

def copyCells (copy : Store κ τ → Memo → Value τ → Option (Store κ τ × Memo × Value τ)) :
    Store κ τ → Memo → List (κ × Value τ) → Option (Store κ τ × Memo × List (κ × Value τ))
  | h, memo, [] => some (h, memo, [])
  | h, memo, (key, v) :: rest => do
      let (h, memo, v) ← copy h memo v
      let (h, memo, rest) ← copyCells copy h memo rest
      some (h, memo, (key, v) :: rest)

/-- A new object is in the memo before what it holds is copied, so a cycle ends there. -/
def copyValue : Nat → Store κ τ → Memo → Value τ → Option (Store κ τ × Memo × Value τ)
  | _, h, memo, .atom a => some (h, memo, .atom a)
  | depth, h, memo, .ref l =>
      match memo.lookup l, depth with
      | some copied, _ => some (h, memo, .ref copied)
      | none, 0 => none
      | none, depth + 1 => do
          let o ← h[l]?
          let (k, memo, cells) ← copyCells (copyValue depth) (h ++ [⟨o.tag, []⟩]) ((l, h.length) :: memo) o.cells
          some (k.set h.length ⟨o.tag, cells⟩, memo, .ref h.length)

/-- `copy.deepcopy`. It goes no deeper than there are objects. -/
def deepcopy (h : Store κ τ) (v : Value τ) : Option (Store κ τ × Value τ) :=
  (copyValue h.length h [] v).map fun copied => (copied.1, copied.2.2)

variable {src h k : Store κ τ} {memo memo' : Memo}

def Made (src h : Store κ τ) (memo : Memo) (l l' : Nat) : Prop :=
  ∃ o o', src[l]? = some o ∧ h[l']? = some o' ∧ o.tag = o'.tag ∧
    LinkedCells (fun m m' => (m, m') ∈ memo) o.cells o'.cells

structure Copying (src h : Store κ τ) (memo : Memo) : Prop where
  grown : src.length ≤ h.length
  kept : ∀ l, l < src.length → h[l]? = src[l]?
  originals : (memo.map Prod.fst).Nodup
  copies : (memo.map Prod.snd).Nodup
  apart : ∀ l l', (l, l') ∈ memo → l < src.length ∧ src.length ≤ l' ∧ l' < h.length

structure Copied (src h : Store κ τ) (memo : Memo) (k : Store κ τ) (memo' : Memo) : Prop where
  copying : Copying src k memo'
  grown : h.length ≤ k.length
  kept : ∀ l, l < h.length → k[l]? = h[l]?
  more : ∀ pair ∈ memo, pair ∈ memo'
  longer : memo.length ≤ memo'.length
  made : ∀ l l', (l, l') ∈ memo' → (l, l') ∈ memo ∨ h.length ≤ l' ∧ Made src k memo' l l'
  all : ∀ l', h.length ≤ l' → l' < k.length → ∃ l, (l, l') ∈ memo'

theorem Copied.refl (copying : Copying src h memo) : Copied src h memo h memo :=
  ⟨copying, Nat.le_refl _, fun _ _ => rfl, fun _ => id, Nat.le_refl _, fun _ _ => .inl, fun _ _ _ => by omega⟩

theorem Made.later {l l' : Nat} (made : Made src h memo l l') (kept : k[l']? = h[l']?)
    (more : ∀ pair ∈ memo, pair ∈ memo') : Made src k memo' l l' := by
  obtain ⟨o, o', read, read', tags, cells⟩ := made
  exact ⟨o, o', read, kept.trans read', tags, cells.mono fun m m' => more (m, m')⟩

theorem Copied.trans {middle : Store κ τ} {half : Memo} (first : Copied src h memo middle half)
    (second : Copied src middle half k memo') : Copied src h memo k memo' := by
  refine ⟨second.copying, Nat.le_trans first.grown second.grown, fun l bound => ?_,
    fun pair member => second.more pair (first.more pair member), Nat.le_trans first.longer second.longer,
    fun l l' member => ?_, fun l' above below => ?_⟩
  · have grown := first.grown
    exact (second.kept l (by omega)).trans (first.kept l bound)
  · rcases second.made l l' member with before | ⟨above, made⟩
    · rcases first.made l l' before with old | ⟨above, made⟩
      · exact .inl old
      · have bound := (first.copying.apart l l' before).2.2
        exact .inr ⟨above, made.later (second.kept l' bound) second.more⟩
    · have grown := first.grown
      exact .inr ⟨by omega, made⟩
  · by_cases early : l' < middle.length
    · obtain ⟨l, member⟩ := first.all l' above early
      exact ⟨l, second.more _ member⟩
    · exact second.all l' (Nat.le_of_not_lt early) below

def Value.Inside (src : Store κ τ) (v : Value τ) : Prop := ∀ l, v = .ref l → l < src.length

def Shut (src : Store κ τ) : Prop :=
  ∀ (l : Nat) o, src[l]? = some o → ∀ cell ∈ o.cells, cell.2.Inside src

abbrev Into (memo : Memo) (l l' : Nat) : Prop := (l, l') ∈ memo

def Copies (src : Store κ τ) (depth : Nat)
    (copy : Store κ τ → Memo → Value τ → Option (Store κ τ × Memo × Value τ)) : Prop :=
  ∀ h memo v, Copying src h memo → v.Inside src → src.length ≤ depth + memo.length →
    ∃ k memo' v', copy h memo v = some (k, memo', v') ∧ Copied src h memo k memo' ∧ v.Linked (Into memo') v'

theorem copyCells_spec {depth : Nat}
    {copy : Store κ τ → Memo → Value τ → Option (Store κ τ × Memo × Value τ)}
    (copies : Copies src depth copy) (cells : List (κ × Value τ)) (copying : Copying src h memo)
    (inside : ∀ cell ∈ cells, cell.2.Inside src) (deep : src.length ≤ depth + memo.length) :
    ∃ k memo' cells', copyCells copy h memo cells = some (k, memo', cells') ∧
      Copied src h memo k memo' ∧ LinkedCells (Into memo') cells cells' := by
  induction cells generalizing h memo with
  | nil => exact ⟨h, memo, [], rfl, .refl copying, .nil⟩
  | cons cell rest ih =>
      obtain ⟨key, v⟩ := cell
      obtain ⟨middle, half, v', one, first, linked⟩ := copies h memo v copying (inside _ List.mem_cons_self) deep
      have longer := first.longer
      obtain ⟨k, memo', rest', others, second, all⟩ := ih first.copying
        (fun cell member => inside cell (List.mem_cons_of_mem _ member)) (by omega)
      refine ⟨k, memo', (key, v') :: rest', ?_, first.trans second, .cons ⟨rfl, ?_⟩ all⟩
      · simp [copyCells, one, others]
      · exact linked.mono fun l l' => second.more (l, l')

theorem Copying.fresh {l : Nat} (copying : Copying src h memo) (bound : l < src.length)
    (fresh : memo.lookup l = none) (tag : τ) :
    Copying src (h ++ [(⟨tag, []⟩ : Obj κ τ)]) ((l, h.length) :: memo) := by
  have unseen : l ∉ memo.map Prod.fst := by
    intro member
    obtain ⟨pair, inside, rfl⟩ := List.mem_map.mp member
    exact absurd (List.lookup_eq_none_iff.mp fresh pair inside) (by simp)
  have grown := copying.grown
  refine ⟨by simp; omega, fun m below => ?_, ?_, ?_, ?_⟩
  · rw [List.getElem?_append_left (by omega)]
    exact copying.kept m below
  · exact List.nodup_cons.mpr ⟨unseen, copying.originals⟩
  · refine List.nodup_cons.mpr ⟨fun member => ?_, copying.copies⟩
    obtain ⟨⟨m, m'⟩, inside, same⟩ := List.mem_map.mp member
    have below := (copying.apart m m' inside).2.2
    dsimp only at same
    omega
  · intro m m' member
    simp only [List.length_append, List.length_singleton]
    rcases List.mem_cons.mp member with same | member
    · cases same
      omega
    · have apart := copying.apart m m' member
      omega

theorem Copying.room {l : Nat} (copying : Copying src h memo) (bound : l < src.length)
    (fresh : memo.lookup l = none) : memo.length < src.length := by
  have next := copying.fresh bound fresh (Obj.tag <| src.get ⟨l, bound⟩)
  have within : ((l, h.length) :: memo).map Prod.fst ⊆ List.range src.length := by
    intro m member
    obtain ⟨⟨m, m'⟩, inside, rfl⟩ := List.mem_map.mp member
    exact List.mem_range.mpr (next.apart m m' inside).1
  have fewer := (List.Nodup.subperm next.originals within).length_le
  simp only [List.map_cons, List.length_cons, List.length_map, List.length_range] at fewer
  omega

theorem Copied.fill {l : Nat} {o : Obj κ τ} (copying : Copying src h memo) (read : src[l]? = some o)
    (cells : List (κ × Value τ))
    (done : Copied src (h ++ [(⟨o.tag, []⟩ : Obj κ τ)]) ((l, h.length) :: memo) k memo')
    (linked : LinkedCells (Into memo') o.cells cells) :
    Copied src h memo (k.set h.length ⟨o.tag, cells⟩) memo' := by
  have grown := done.grown
  have before := copying.grown
  simp only [List.length_append, List.length_singleton] at grown
  have others : ∀ m, m ≠ h.length → (k.set h.length ⟨o.tag, cells⟩)[m]? = k[m]? := fun m other =>
    List.getElem?_set_ne other.symm
  have own : (l, h.length) ∈ memo' := done.more _ List.mem_cons_self
  refine ⟨⟨?_, fun m bound => ?_, done.copying.originals, done.copying.copies, ?_⟩, ?_, fun m bound => ?_,
    fun pair member => done.more _ (List.mem_cons_of_mem _ member), ?_, fun m m' member => ?_,
    fun m' above below => ?_⟩
  · simpa using done.copying.grown
  · rw [others m (by omega), done.copying.kept m bound]
  · simpa using done.copying.apart
  · simp
    omega
  · rw [others m (by omega), done.kept m (by simp; omega), List.getElem?_append_left bound]
  · have longer := done.longer
    simp only [List.length_cons] at longer
    omega
  · rcases done.made m m' member with early | ⟨above, made⟩
    · rcases List.mem_cons.mp early with same | old
      · obtain ⟨rfl, rfl⟩ := Prod.mk.inj same
        refine .inr ⟨Nat.le_refl _, o, ⟨o.tag, cells⟩, read, ?_, rfl, linked⟩
        exact List.getElem?_set_self (by omega)
      · exact .inl old
    · simp only [List.length_append, List.length_singleton] at above
      exact .inr ⟨by omega, made.later (others m' (by omega)) fun _ => id⟩
  · simp only [List.length_set] at below
    by_cases here : m' = h.length
    · exact ⟨l, here ▸ own⟩
    · exact done.all m' (by simp; omega) below

theorem mem_of_lookup {l l' : Nat} (found : memo.lookup l = some l') : (l, l') ∈ memo := by
  obtain ⟨before, after, rfl, _⟩ := List.lookup_eq_some_iff.mp found
  simp

theorem copyValue_spec (shut : Shut src) (depth : Nat) : Copies src depth (copyValue depth) := by
  induction depth with
  | zero =>
      intro h memo v copying inside deep
      cases v with
      | atom a => exact ⟨h, memo, .atom a, rfl, .refl copying, .atom a⟩
      | ref l =>
          have bound := inside l rfl
          cases found : memo.lookup l with
          | some l' =>
              refine ⟨h, memo, .ref l', by simp [copyValue, found], .refl copying, .ref ?_⟩
              exact mem_of_lookup found
          | none =>
              have room := copying.room bound found
              omega
  | succ depth ih =>
      intro h memo v copying inside deep
      cases v with
      | atom a => exact ⟨h, memo, .atom a, rfl, .refl copying, .atom a⟩
      | ref l =>
          have bound := inside l rfl
          cases found : memo.lookup l with
          | some l' =>
              refine ⟨h, memo, .ref l', by simp [copyValue, found], .refl copying, .ref ?_⟩
              exact mem_of_lookup found
          | none =>
              obtain ⟨o, read⟩ : ∃ o, src[l]? = some o := ⟨_, List.getElem?_eq_getElem bound⟩
              have here : h[l]? = some o := (copying.kept l bound).trans read
              have begun := copying.fresh bound found o.tag
              obtain ⟨k, memo', cells, copied, done, linked⟩ := copyCells_spec ih o.cells begun
                (shut l o read) (by simp only [List.length_cons]; omega)
              refine ⟨k.set h.length ⟨o.tag, cells⟩, memo', .ref h.length, ?_, ?_, .ref ?_⟩
              · simp [copyValue, found, here, copied]
              · exact done.fill copying read cells linked
              · exact done.more _ (by simp)

variable {home : Nat → π} {p q : π} {v : Value τ}

theorem Closed.shut (closed : Closed home h) : Shut h := fun l o read cell member m isRef =>
  (closed l o read cell member m isRef).1

theorem Copying.start (h : Store κ τ) : Copying h h [] :=
  ⟨Nat.le_refl _, fun _ _ => rfl, List.nodup_nil, List.nodup_nil, by simp⟩

theorem Memo.unique (copying : Copying src h memo) {l l' m m' : Nat} (one : (l, l') ∈ memo)
    (two : (m, m') ∈ memo) : l = m ↔ l' = m' := by
  constructor
  · rintro rfl
    exact congrArg Prod.snd (List.inj_on_of_nodup_map copying.originals one two rfl)
  · rintro rfl
    exact congrArg Prod.fst (List.inj_on_of_nodup_map copying.copies one two rfl)

/-- A deep copy has the contents of the original, and shares no object with anything. -/
theorem deepcopy_spec (closed : Closed home h) (owned : Owned home h p v) (q : π) :
    ∃ k v' link, deepcopy h v = some (k, v') ∧ Alike link h k ∧ v.Linked link v' ∧
      (∀ l l', link l l' → h.length ≤ l') ∧ Within home q h k ∧
      (∀ l, l < h.length → k[l]? = h[l]?) ∧ Owned (settle home h.length q) k q v' := by
  obtain ⟨k, memo, v', copied, done, linked⟩ := copyValue_spec closed.shut h.length h [] v (.start h)
    (fun l isRef => (owned l isRef).1) (by simp)
  have above : ∀ l l', (l, l') ∈ memo → h.length ≤ l' := fun l l' member =>
    (done.copying.apart l l' member).2.1
  have made : ∀ l l', (l, l') ∈ memo → Made h k memo l l' := fun l l' member =>
    ((done.made l l' member).resolve_left (by simp)).2
  have fresh : ∀ w w', Value.Linked (Into memo) w w' → Owned (settle home h.length q) k q w' := by
    rintro w w' linked m rfl
    cases linked with
    | ref member =>
        exact ⟨(done.copying.apart _ _ member).2.2, settle_new (above _ _ member)⟩
  refine ⟨k, v', Into memo, by simp [deepcopy, copied], ⟨Memo.unique done.copying, made _ _⟩, linked, above,
    ⟨done.grown, fun l o read cell member => ?_, fun l bound _ => done.kept l bound⟩, done.kept,
    fresh v v' linked⟩
  by_cases old : l < h.length
  · rw [done.kept l old] at read
    rw [settle_old old]
    exact (closed l o read cell member).later done.grown
  · have old := Nat.le_of_not_lt old
    obtain ⟨origin, member'⟩ := done.all l old (List.getElem?_eq_some_iff.mp read).1
    obtain ⟨o', o'', _, read', _, cells⟩ := made origin l member'
    obtain rfl : o = o'' := Option.some.inj (read.symm.trans read')
    rw [settle_new old]
    obtain ⟨source, linked⟩ := cells.source member
    exact fresh _ _ linked

end copies

end ObjectStore
