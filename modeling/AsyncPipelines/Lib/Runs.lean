import Mathlib.Data.List.Basic

/-!
Machines given by a partial step function: their runs over a list of actions,
and the induction rules that carry an invariant along a run.
-/

namespace Runs

variable {σ act : Type} {step : σ → act → Option σ}

def run (step : σ → act → Option σ) (s : σ) : List act → Option σ
  | [] => some s
  | a :: rest => (step s a).bind fun next => run step next rest

@[simp] theorem run_nil (s : σ) : run step s [] = some s := rfl

@[simp] theorem run_cons (s : σ) (a : act) (rest : List act) :
    run step s (a :: rest) = (step s a).bind fun next => run step next rest := rfl

theorem run_append (s : σ) (first second : List act) :
    run step s (first ++ second) = (run step s first).bind fun middle => run step middle second := by
  induction first generalizing s with
  | nil => rfl
  | cons a rest ih =>
      simp only [List.cons_append, run_cons]
      cases step s a with
      | none => rfl
      | some next => exact ih next

def Reaches (step : σ → act → Option σ) (s t : σ) : Prop :=
  ∃ actions, run step s actions = some t

theorem Reaches.refl (s : σ) : Reaches step s s := ⟨[], rfl⟩

theorem Reaches.next {s t u : σ} {a : act} (reached : Reaches step s t)
    (stepped : step t a = some u) : Reaches step s u := by
  obtain ⟨actions, ran⟩ := reached
  exact ⟨actions ++ [a], by simp [run_append, ran, stepped]⟩

theorem Reaches.trans {s t u : σ} (first : Reaches step s t) (second : Reaches step t u) :
    Reaches step s u := by
  obtain ⟨actions, ran⟩ := first
  obtain ⟨more, further⟩ := second
  exact ⟨actions ++ more, by simp [run_append, ran, further]⟩

theorem Reaches.one {s t : σ} {a : act} (stepped : step s a = some t) : Reaches step s t :=
  (Reaches.refl s).next stepped

/-- What holds at the start and is kept by every step of an allowed kind holds wherever a
run of such steps ends. -/
theorem run_invariant_within {p : σ → Prop} {allowed : act → Prop}
    (kept : ∀ s a t, allowed a → p s → step s a = some t → p t)
    {s t : σ} {actions : List act} (within : ∀ a ∈ actions, allowed a) (start : p s)
    (ran : run step s actions = some t) : p t := by
  induction actions generalizing s with
  | nil =>
      simp only [run_nil, Option.some.injEq] at ran
      exact ran ▸ start
  | cons a rest ih =>
      simp only [run_cons, Option.bind_eq_some_iff] at ran
      obtain ⟨next, stepped, ran⟩ := ran
      rw [List.forall_mem_cons] at within
      exact ih within.2 (kept s a next within.1 start stepped) ran

theorem run_invariant {p : σ → Prop}
    (kept : ∀ s a t, p s → step s a = some t → p t)
    {s t : σ} {actions : List act} (start : p s) (ran : run step s actions = some t) :
    p t :=
  run_invariant_within (fun s a t (_ : True) => kept s a t) (fun _ _ => trivial) start ran

theorem Reaches.invariant {p : σ → Prop}
    (kept : ∀ s a t, p s → step s a = some t → p t)
    {s t : σ} (reached : Reaches step s t) (start : p s) : p t := by
  obtain ⟨actions, ran⟩ := reached
  exact run_invariant kept start ran

theorem Reaches.weaken {fewer : σ → act → Option σ}
    (same : ∀ s a t, fewer s a = some t → step s a = some t) {s t : σ}
    (reached : Reaches fewer s t) : Reaches step s t :=
  reached.invariant (p := Reaches step s) (fun _ a _ before stepped => before.next (same _ a _ stepped))
    (Reaches.refl s)

/-- A machine that takes one step at a time without a choice comes to rest in one state. -/
theorem Reaches.rest_unique {step : σ → Unit → Option σ} {s t u : σ} (first : Reaches step s t)
    (second : Reaches step s u) (rest : step t () = none) (rest' : step u () = none) : t = u := by
  obtain ⟨actions, ran⟩ := first
  obtain ⟨others, ran'⟩ := second
  induction actions generalizing s others with
  | nil =>
      obtain rfl := Option.some.inj ran
      cases others with
      | nil => exact Option.some.inj ran'
      | cons a others => simp [rest] at ran'
  | cons a actions ih =>
      simp only [run_cons, Option.bind_eq_some_iff] at ran
      obtain ⟨next, stepped, ran⟩ := ran
      cases others with
      | nil =>
          obtain rfl := Option.some.inj ran'
          simp [rest'] at stepped
      | cons b others =>
          simp only [run_cons, stepped, Option.bind_some] at ran'
          exact ih ran others ran'

/-- Every state the run visits, both ends included, satisfies `good`. -/
def Along (step : σ → act → Option σ) (good : σ → Prop) (s : σ) : List act → Prop
  | [] => good s
  | a :: rest => good s ∧ ∀ next, step s a = some next → Along step good next rest

instance Along.decidable {good : σ → Prop} [DecidablePred good] :
    ∀ (s : σ) (actions : List act), Decidable (Along step good s actions)
  | s, [] => inferInstanceAs (Decidable (good s))
  | s, a :: rest =>
      match stepped : step s a with
      | none => decidable_of_iff (good s) (by simp [Along, stepped])
      | some next =>
          have : Decidable (Along step good next rest) := Along.decidable next rest
          decidable_of_iff (good s ∧ Along step good next rest) (by simp [Along, stepped])

theorem Along.head {good : σ → Prop} {s : σ} {actions : List act}
    (along : Along step good s actions) : good s := by
  cases actions with
  | nil => exact along
  | cons a rest => exact along.1

/-- As `run_invariant`, where a step has to keep the invariant only between good states. -/
theorem along_invariant {p good : σ → Prop}
    (kept : ∀ s a t, good s → good t → p s → step s a = some t → p t)
    {s t : σ} {actions : List act} (start : p s) (along : Along step good s actions)
    (ran : run step s actions = some t) : p t ∧ good t := by
  induction actions generalizing s with
  | nil =>
      simp only [run_nil, Option.some.injEq] at ran
      subst ran
      exact ⟨start, along⟩
  | cons a rest ih =>
      simp only [run_cons, Option.bind_eq_some_iff] at ran
      obtain ⟨next, stepped, ran⟩ := ran
      have later := along.2 next stepped
      exact ih (kept s a next along.1 later.head start stepped) later ran

/-- Every step of the run is a good one in the state it is taken from. -/
def AlongSteps (step : σ → act → Option σ) (good : σ → act → Prop) (s : σ) : List act → Prop
  | [] => True
  | a :: rest => ∀ next, step s a = some next → good s a ∧ AlongSteps step good next rest

instance AlongSteps.decidable {good : σ → act → Prop} [∀ s a, Decidable (good s a)] :
    ∀ (s : σ) (actions : List act), Decidable (AlongSteps step good s actions)
  | _, [] => inferInstanceAs (Decidable True)
  | s, a :: rest =>
      match stepped : step s a with
      | none => isTrue (by simp [AlongSteps, stepped])
      | some next =>
          have : Decidable (AlongSteps step good next rest) := AlongSteps.decidable next rest
          decidable_of_iff (good s a ∧ AlongSteps step good next rest) (by simp [AlongSteps, stepped])

theorem AlongSteps.here {good : σ → act → Prop} {s t u : σ} {a : act} {before rest : List act}
    (along : AlongSteps step good s (before ++ a :: rest)) (ran : run step s before = some t)
    (stepped : step t a = some u) : good t a := by
  induction before generalizing s with
  | nil =>
      simp only [run_nil, Option.some.injEq] at ran
      subst ran
      exact (along u stepped).1
  | cons first before ih =>
      simp only [run_cons, Option.bind_eq_some_iff] at ran
      obtain ⟨next, taken, ran⟩ := ran
      exact ih (along next taken).2 ran

/-- As `run_invariant`, where only good steps have to keep the invariant. -/
theorem along_steps_invariant {p : σ → Prop} {good : σ → act → Prop}
    (kept : ∀ s a t, good s a → p s → step s a = some t → p t)
    {s t : σ} {actions : List act} (start : p s) (along : AlongSteps step good s actions)
    (ran : run step s actions = some t) : p t := by
  induction actions generalizing s with
  | nil =>
      simp only [run_nil, Option.some.injEq] at ran
      exact ran ▸ start
  | cons a rest ih =>
      simp only [run_cons, Option.bind_eq_some_iff] at ran
      obtain ⟨next, stepped, ran⟩ := ran
      obtain ⟨here, later⟩ := along next stepped
      exact ih (kept s a next here start stepped) later ran

theorem AlongSteps.imp {p : σ → Prop} {good good' : σ → act → Prop}
    (better : ∀ s a t, p s → step s a = some t → good s a → good' s a)
    (kept : ∀ s a t, good s a → p s → step s a = some t → p t)
    {s : σ} {actions : List act} (start : p s) (along : AlongSteps step good s actions) :
    AlongSteps step good' s actions := by
  induction actions generalizing s with
  | nil => trivial
  | cons a rest ih =>
      intro next stepped
      obtain ⟨here, later⟩ := along next stepped
      exact ⟨better s a next start stepped here, ih (kept s a next here start stepped) later⟩

variable {ρ : Type} {note : σ → act → σ → ρ → ρ}

def watch (step : σ → act → Option σ) (note : σ → act → σ → ρ → ρ) (w : σ × ρ) (a : act) : Option (σ × ρ) :=
  (step w.1 a).map fun t => (t, note w.1 a t w.2)

theorem watch_step {w v : σ × ρ} {a : act} (stepped : watch step note w a = some v) :
    step w.1 a = some v.1 ∧ v.2 = note w.1 a v.1 w.2 := by
  obtain ⟨t, found, rfl⟩ := Option.map_eq_some_iff.mp stepped
  exact ⟨found, rfl⟩

theorem run_unwatch {w v : σ × ρ} {actions : List act} (ran : run (watch step note) w actions = some v) :
    run step w.1 actions = some v.1 := by
  induction actions generalizing w with
  | nil =>
      simp only [run_nil, Option.some.injEq] at ran
      simp [ran]
  | cons a rest ih =>
      simp only [run_cons, Option.bind_eq_some_iff] at ran
      obtain ⟨next, stepped, ran⟩ := ran
      simp [(watch_step stepped).1, ih ran]

end Runs
