import AsyncPipelines.Asyncio.TaskGroup

/-!
Why a group aborts and what that does to the way it ends. `Scope.Sound` holds
from the moment the parent waits in `__aexit__`, whatever the tasks do.
-/

namespace Asyncio

variable {χ ε : Type}

namespace Scope

structure Sound (s : Scope χ ε) : Prop where
  aborted : s.group.aborting = true → s.group.propagate = true ∨ s.group.errors ≠ []
  erred : s.group.errors ≠ [] → s.group.aborting = true
  requested : s.group.parentCancelRequested = true → s.group.aborting = true
  based : s.group.baseError ≠ none → s.group.errors ≠ []
  collected : ∀ e ∈ s.group.errors, ∃ j, (s.child j).ended = some (.raised e)
  reported : ∀ j e, (s.child j).ended = some (.raised e) → j ∈ s.group.tasks ∨ e ∈ s.group.errors
  flagged : ∀ j, (s.child j).groupCancelled = true → s.group.aborting = true
  reached : s.group.aborting = true → ∀ j, s.live j = true → (s.child j).groupCancelled = true
  waiting : s.exit = none →
    ∃ fut, s.parent.waiter = some fut ∧ (fut = .pending → s.group.tasks ≠ [])
  distinct : s.group.tasks.Nodup
  returned : s.exit = some .returned → s.group.aborting = false ∧ s.group.tasks = [] ∧
    ∀ j e, (s.child j).ended ≠ some (.raised e)
  closed : ∀ e, s.exit = some e → s.group.tasks = [] ∧ e = s.group.outcome

structure TaskStep (s t : Scope χ ε) : Prop where
  parent : t.parent = s.parent
  exit : t.exit = s.exit
  group : ∃ fresh, t.group = { s.group with tasks := s.group.tasks ++ fresh } ∧
    (fresh ≠ [] → s.group.aborting = false)
  ended : ∀ j e, (s.child j).ended = some e → (t.child j).ended = some e
  flagged : ∀ j, (t.child j).groupCancelled = true → (s.child j).groupCancelled = true
  kept : s.group.aborting = true → ∀ j, (s.child j).groupCancelled = true →
    (t.child j).groupCancelled = true
  raised : ∀ j e, (t.child j).ended = some (.raised e) →
    (s.child j).ended = some (.raised e) ∨ j ∈ t.group.tasks

theorem TaskStep.refl (s : Scope χ ε) : TaskStep s s where
  parent := rfl
  exit := rfl
  group := ⟨[], by simp, by simp⟩
  ended := fun _ _ found => found
  flagged := fun _ found => found
  kept := fun _ _ found => found
  raised := fun _ _ found => Or.inl found

theorem TaskStep.aborting {s t : Scope χ ε} (step : TaskStep s t) :
    t.group.aborting = s.group.aborting := by
  obtain ⟨fresh, group, _⟩ := step.group
  rw [group]

theorem TaskStep.errors {s t : Scope χ ε} (step : TaskStep s t) :
    t.group.errors = s.group.errors := by
  obtain ⟨fresh, group, _⟩ := step.group
  rw [group]

theorem TaskStep.tasks {s t : Scope χ ε} (step : TaskStep s t) {j : Nat}
    (member : j ∈ s.group.tasks) : j ∈ t.group.tasks := by
  obtain ⟨fresh, group, _⟩ := step.group
  rw [group]
  exact List.mem_append_left _ member

theorem TaskStep.trans {s t u : Scope χ ε} (first : TaskStep s t) (second : TaskStep t u) :
    TaskStep s u where
  parent := second.parent.trans first.parent
  exit := second.exit.trans first.exit
  group := by
    obtain ⟨fresh, group, open_⟩ := first.group
    obtain ⟨later, next, stillOpen⟩ := second.group
    refine ⟨fresh ++ later, by simp [next, group], ?_⟩
    intro some
    by_cases none : fresh = []
    · rw [← first.aborting]
      exact stillOpen (by simpa [none] using some)
    · exact open_ none
  ended := fun j e found => second.ended j e (first.ended j e found)
  flagged := fun j found => first.flagged j (second.flagged j found)
  kept := fun aborting j found =>
    second.kept (first.aborting.trans aborting) j (first.kept aborting j found)
  raised := by
    intro j e found
    rcases second.raised j e found with before | member
    · rcases first.raised j e before with start | member
      · exact Or.inl start
      · exact Or.inr (second.tasks member)
    · exact Or.inr member

theorem Sound.taskStep {s t : Scope χ ε} (sound : Sound s) (step : TaskStep s t)
    (distinct : t.group.tasks.Nodup) (done : s.exit = none) : Sound t := by
  obtain ⟨fresh, group, open_⟩ := step.group
  have aborting := step.aborting
  have errors := step.errors
  constructor
  · intro aborted
    have before := sound.aborted (aborting ▸ aborted)
    simpa [group] using before
  · intro erred
    exact aborting.trans (sound.erred (errors ▸ erred))
  · intro requested
    rw [aborting]
    exact sound.requested (by simpa [group] using requested)
  · intro based
    rw [errors]
    exact sound.based (by simpa [group] using based)
  · intro e member
    obtain ⟨j, raised⟩ := sound.collected e (errors ▸ member)
    exact ⟨j, step.ended j _ raised⟩
  · intro j e raised
    rcases step.raised j e raised with before | member
    · rcases sound.reported j e before with member | erred
      · exact Or.inl (step.tasks member)
      · exact Or.inr (errors ▸ erred)
    · exact Or.inl member
  · intro j flag
    rw [aborting]
    exact sound.flagged j (step.flagged j flag)
  · intro aborted j alive
    rw [aborting] at aborted
    have none : fresh = [] := by
      by_contra some
      simp [open_ some] at aborted
    refine step.kept aborted j (sound.reached aborted j ?_)
    simp only [live, group, none, List.append_nil, Bool.and_eq_true, decide_eq_true_eq] at alive ⊢
    refine ⟨alive.1, ?_⟩
    cases found : (s.child j).ended with
    | none => rfl
    | some e => simp [step.ended j e found] at alive
  · intro running
    obtain ⟨fut, waiter, pending⟩ := sound.waiting (step.exit ▸ running)
    refine ⟨fut, by rw [step.parent, waiter], ?_⟩
    intro isPending
    simp [group, pending isPending]
  · exact distinct
  · intro returned
    simp [step.exit, done] at returned
  · intro e ended
    simp [step.exit, done] at ended

theorem cancelAll_ended (tasks : List Nat) (child : Nat → Child χ ε) (j : Nat) :
    (cancelAll tasks child j).ended = (child j).ended := by
  unfold cancelAll
  split <;> simp

theorem cancelAll_flagged (tasks : List Nat) (child : Nat → Child χ ε) (j : Nat)
    (member : j ∈ tasks) (open_ : (child j).ended = none) :
    (cancelAll tasks child j).groupCancelled = true := by
  simp [cancelAll, member, Child.cancel, open_]

/-- The group after the done callback of a task: either the task was the first
to fail and the group aborts, or only the records of the group change. -/
theorem taskDone_group (isBase : ε → Bool) (g : TaskGroup ε) (parent : Task) (i : Nat)
    (ended : TaskEnd ε) :
    ((g.taskDone isBase parent i ended).1.tasks = g.tasks.erase i) ∧
    ((g.taskDone isBase parent i ended).1.propagate = g.propagate) ∧
    ((∃ e, ended = .raised e ∧ (g.taskDone isBase parent i ended).1.errors = g.errors ++ [e] ∧
        ((g.taskDone isBase parent i ended).1.aborting = true ∨
          g.parentCancelRequested = true ∧ g.aborting = false)) ∨
      (∀ e, ended ≠ .raised e) ∧ (g.taskDone isBase parent i ended).1.errors = g.errors ∧
        (g.taskDone isBase parent i ended).1.aborting = g.aborting ∧
        (g.taskDone isBase parent i ended).1.baseError = g.baseError ∧
        (g.taskDone isBase parent i ended).1.parentCancelRequested = g.parentCancelRequested) := by
  cases ended with
  | returned => simp [TaskGroup.taskDone]
  | cancelled => simp [TaskGroup.taskDone]
  | raised e =>
      simp only [TaskGroup.taskDone]
      by_cases aborting : g.aborting = true
      · simp [aborting]
      · by_cases requested : g.parentCancelRequested = true <;> simp_all

theorem taskDone_requested (isBase : ε → Bool) (g : TaskGroup ε) (parent : Task) (i : Nat)
    (ended : TaskEnd ε)
    (requested : (g.taskDone isBase parent i ended).1.parentCancelRequested = true) :
    g.parentCancelRequested = true ∨ (g.taskDone isBase parent i ended).1.aborting = true := by
  cases ended with
  | returned => exact Or.inl requested
  | cancelled => exact Or.inl requested
  | raised e =>
      simp only [TaskGroup.taskDone] at requested ⊢
      split at requested
      · exact Or.inl requested
      · rename_i first
        simp [first]

theorem taskDone_aborting (isBase : ε → Bool) (g : TaskGroup ε) (parent : Task) (i : Nat)
    (ended : TaskEnd ε) (aborting : g.aborting = true) :
    (g.taskDone isBase parent i ended).1.aborting = true := by
  cases ended <;> simp [TaskGroup.taskDone, aborting]

theorem taskDone_based (isBase : ε → Bool) (g : TaskGroup ε) (parent : Task) (i : Nat)
    (ended : TaskEnd ε) (based : g.baseError ≠ none → g.errors ≠ []) :
    (g.taskDone isBase parent i ended).1.baseError ≠ none →
      (g.taskDone isBase parent i ended).1.errors ≠ [] := by
  rcases (taskDone_group isBase g parent i ended).2.2 with ⟨e, _, errors, _⟩ | ⟨_, errors, _, base, _⟩
  · simp [errors]
  · rw [errors, base]
    exact based

/-- The future of `__aexit__` is set by the last task, and the cancellation of the
parent by a failing one leaves a future that is not pending. -/
theorem taskDone_waiter (isBase : ε → Bool) (g : TaskGroup ε) (parent : Task) (i : Nat)
    (ended : TaskEnd ε) (fut : Fut) (waiter : parent.waiter = some fut) :
    ∃ next, (g.taskDone isBase parent i ended).2.waiter = some next ∧
      (next = .pending → fut = .pending ∧ g.tasks.erase i ≠ []) := by
  have set : ∃ next, (if g.tasks.erase i = [] ∧ parent.waiter = some .pending then parent.fulfil
      else parent).waiter = some next ∧ (next = .pending → fut = .pending ∧ g.tasks.erase i ≠ []) := by
    split
    · exact ⟨.done, rfl, by simp⟩
    · rename_i other
      refine ⟨fut, waiter, fun pending => ⟨pending, fun empty => other ⟨empty, ?_⟩⟩⟩
      rw [waiter, pending]
  cases ended with
  | returned => exact set
  | cancelled => exact set
  | raised e =>
      obtain ⟨next, found, pending⟩ := set
      simp only [TaskGroup.taskDone]
      split
      · exact ⟨next, found, pending⟩
      · by_cases isPending : next = .pending
        · exact ⟨.cancelled, by rw [Task.cancel_waiter, found]; simp [isPending], by simp⟩
        · refine ⟨next, ?_, pending⟩
          rw [Task.cancel_waiter, found]
          simp [isPending]

theorem taskDone_child_ended (isBase : ε → Bool) (s : Scope χ ε) (i j : Nat) (ended : TaskEnd ε) :
    ((s.taskDone isBase i ended).child j).ended = (s.child j).ended := by
  simp only [taskDone]
  split
  · exact cancelAll_ended _ _ _
  · rfl

theorem Sound.taskDone {s : Scope χ ε} (sound : Sound s) (isBase : ε → Bool) {i : Nat}
    {ended : TaskEnd ε} (found : (s.child i).ended = some ended)
    (running : s.exit = none) : Sound (s.taskDone isBase i ended) := by
  have shape := taskDone_group isBase s.group s.parent i ended
  obtain ⟨tasks, propagate, change⟩ := shape
  have monotone := taskDone_aborting isBase s.group s.parent i ended
  have live_before : ∀ j, (s.taskDone isBase i ended).live j = true → s.live j = true := by
    intro j alive
    simp only [live, Bool.and_eq_true, decide_eq_true_eq, taskDone_child_ended] at alive ⊢
    exact ⟨List.mem_of_mem_erase (tasks ▸ alive.1), alive.2⟩
  constructor
  · intro aborted
    rw [show (s.taskDone isBase i ended).group.propagate = s.group.propagate from propagate]
    rcases change with ⟨e, _, errors, _⟩ | ⟨_, errors, same, _⟩
    · right
      simp [Scope.taskDone, errors]
    · have before := sound.aborted (same ▸ aborted)
      simpa [Scope.taskDone, errors] using before
  · intro erred
    rcases change with ⟨e, _, _, aborted | ⟨requested, idle⟩⟩ | ⟨_, errors, same, _⟩
    · exact aborted
    · simp [sound.requested requested] at idle
    · exact monotone (sound.erred (by simpa [Scope.taskDone, errors] using erred))
  · intro requested
    rcases taskDone_requested isBase s.group s.parent i ended requested with before | now
    · exact monotone (sound.requested before)
    · exact now
  · exact taskDone_based isBase s.group s.parent i ended sound.based
  · intro e member
    have before : e ∈ s.group.errors ∨ ended = .raised e := by
      rcases change with ⟨first, isRaised, errors, _⟩ | ⟨_, errors, _⟩
      · simp only [Scope.taskDone, errors, List.mem_append, List.mem_singleton] at member
        rcases member with old | new
        · exact Or.inl old
        · exact Or.inr (new ▸ isRaised)
      · exact Or.inl (by simpa [Scope.taskDone, errors] using member)
    rcases before with old | new
    · obtain ⟨j, raised⟩ := sound.collected e old
      exact ⟨j, by rw [taskDone_child_ended, raised]⟩
    · exact ⟨i, by rw [taskDone_child_ended, found, new]⟩
  · intro j e raised
    rw [taskDone_child_ended] at raised
    by_cases same : j = i
    · right
      have isRaised : ended = .raised e := Option.some.inj (found.symm.trans (same ▸ raised))
      rcases change with ⟨first, isFirst, errors, _⟩ | ⟨notRaised, _⟩
      · have here : e = first := by simpa [isRaised] using isFirst
        simp [Scope.taskDone, errors, here]
      · exact absurd isRaised (notRaised e)
    · rcases sound.reported j e raised with member | erred
      · left
        simpa [Scope.taskDone, tasks] using (List.mem_erase_of_ne same).mpr member
      · right
        rcases change with ⟨first, _, errors, _⟩ | ⟨_, errors, _⟩
        · simp [Scope.taskDone, errors, erred]
        · simpa [Scope.taskDone, errors] using erred
  · intro j flag
    by_cases before : (s.child j).groupCancelled = true
    · exact monotone (sound.flagged j before)
    · simp only [Scope.taskDone] at flag ⊢
      split at flag
      · rename_i first
        simp only [Bool.and_eq_true] at first
        exact first.1
      · exact absurd flag before
  · intro aborted j alive
    have alive' := live_before j alive
    by_cases before : s.group.aborting = true
    · simpa [Scope.taskDone, before] using sound.reached before j alive'
    · simp only [live, Bool.and_eq_true, decide_eq_true_eq, taskDone_child_ended,
        Option.isNone_iff_eq_none] at alive
      have aborted' : (s.group.taskDone isBase s.parent i ended).1.aborting = true := aborted
      simp only [Scope.taskDone, aborted', before, Bool.not_false, Bool.and_self, ↓reduceIte]
      exact cancelAll_flagged _ _ _ alive.1 alive.2
  · intro _
    obtain ⟨fut, waiter, pending⟩ := sound.waiting running
    obtain ⟨next, found, left⟩ := taskDone_waiter isBase s.group s.parent i ended fut waiter
    refine ⟨next, found, fun isPending => ?_⟩
    simpa [Scope.taskDone, tasks] using (left isPending).2
  · simpa [Scope.taskDone, tasks] using sound.distinct.erase i
  · intro returned
    simp [Scope.taskDone, running] at returned
  · intro e ended
    simp [Scope.taskDone, running] at ended

theorem wake_child_ended (s : Scope χ ε) (j : Nat) :
    (s.wake.child j).ended = (s.child j).ended := by
  simp only [wake]
  split
  · exact cancelAll_ended _ _ _
  · rfl

theorem wake_group (g : TaskGroup ε) (parent : Task) :
    (g.wake parent).1 = g.caught parent.throws := by
  simp only [TaskGroup.wake]
  split <;> rfl

theorem wake_exit (g : TaskGroup ε) (parent : Task) :
    (g.wake parent).2.2 = if (g.caught parent.throws).tasks = [] then
      some (g.caught parent.throws).outcome else none := by
  simp only [TaskGroup.wake]
  split <;> rfl

theorem wake_parent (g : TaskGroup ε) (parent : Task) :
    (g.wake parent).2.1 = if (g.caught parent.throws).tasks = [] then parent.resume
      else parent.resume.await := by
  simp only [TaskGroup.wake]
  split <;> rfl

theorem outcome_returned {g : TaskGroup ε} (returned : g.outcome = .returned) :
    g.propagate = false ∧ g.errors = [] := by
  cases base : g.baseError with
  | some e => simp [TaskGroup.outcome, base] at returned
  | none =>
      simp only [TaskGroup.outcome, base] at returned
      split at returned
      · simp at returned
      · rename_i quiet
        split at returned
        · rename_i empty
          exact ⟨by simpa [empty] using quiet, empty⟩
        · simp at returned

theorem outcome_group {g : TaskGroup ε} {errors : List ε} (raises : g.outcome = .group errors) :
    g.errors ≠ [] ∧ errors = g.errors := by
  cases base : g.baseError with
  | some e => simp [TaskGroup.outcome, base] at raises
  | none =>
      simp only [TaskGroup.outcome, base] at raises
      split at raises
      · simp at raises
      · split at raises
        · simp at raises
        · rename_i some_
          exact ⟨some_, (Exit.group.inj raises).symm⟩

theorem wake_child_exit {s : Scope χ ε} (closed : s.wake.exit ≠ none) :
    s.group.tasks = [] ∧ s.wake.child = s.child := by
  have tasks : (s.group.caught s.parent.throws).tasks = s.group.tasks := by
    rw [TaskGroup.caught]; split <;> rfl
  have exit : s.wake.exit = if (s.group.caught s.parent.throws).tasks = [] then _ else none :=
    wake_exit s.group s.parent
  have empty : s.group.tasks = [] := by
    by_contra left
    simp [tasks, left] at exit
    exact closed exit
  refine ⟨empty, ?_⟩
  have nobody : (s.group.wake s.parent).1.tasks = [] := by
    rw [wake_group, tasks, empty]
  simp only [wake, nobody]
  split
  · funext j
    simp [cancelAll]
  · rfl

theorem Sound.wake {s : Scope χ ε} (sound : Sound s) : Sound s.wake := by
  have group : s.wake.group = s.group.caught s.parent.throws := wake_group s.group s.parent
  have tasks : s.wake.group.tasks = s.group.tasks := by
    rw [group, TaskGroup.caught]; split <;> rfl
  have errors : s.wake.group.errors = s.group.errors := by
    rw [group, TaskGroup.caught]; split <;> rfl
  have base : s.wake.group.baseError = s.group.baseError := by
    rw [group, TaskGroup.caught]; split <;> rfl
  have requested : s.wake.group.parentCancelRequested = s.group.parentCancelRequested := by
    rw [group, TaskGroup.caught]; split <;> rfl
  have monotone : s.group.aborting = true → s.wake.group.aborting = true := by
    intro aborting
    rw [group, TaskGroup.caught]; split <;> simp [aborting]
  have aborted : s.wake.group.aborting = true →
      s.wake.group.propagate = true ∨ s.wake.group.errors ≠ [] := by
    rw [group, TaskGroup.caught]
    split
    · exact fun _ => Or.inl rfl
    · exact sound.aborted
  constructor
  · exact aborted
  · intro erred
    exact monotone (sound.erred (errors ▸ erred))
  · exact fun asked => monotone (sound.requested (requested ▸ asked))
  · rw [base, errors]
    exact sound.based
  · intro e member
    obtain ⟨j, raised⟩ := sound.collected e (errors ▸ member)
    exact ⟨j, by rw [wake_child_ended, raised]⟩
  · intro j e raised
    rw [wake_child_ended] at raised
    rw [tasks, errors]
    exact sound.reported j e raised
  · intro j flag
    by_cases before : (s.child j).groupCancelled = true
    · exact monotone (sound.flagged j before)
    · simp only [Scope.wake] at flag ⊢
      split at flag
      · rename_i first
        simp only [Bool.and_eq_true] at first
        exact first.1
      · exact absurd flag before
  · intro aborting j alive
    simp only [live, Bool.and_eq_true, decide_eq_true_eq, wake_child_ended, tasks] at alive
    by_cases before : s.group.aborting = true
    · simpa [Scope.wake, before] using sound.reached before j (by simpa [live] using alive)
    · have now : (s.group.wake s.parent).1.aborting = true := aborting
      simp only [Scope.wake, now, before, Bool.not_false, Bool.and_self, ↓reduceIte]
      refine cancelAll_flagged _ _ _ ?_ (by simpa using alive.2)
      rw [show (s.group.wake s.parent).1.tasks = s.group.tasks from tasks]
      exact alive.1
  · intro running
    have exit : s.wake.exit = if (s.group.caught s.parent.throws).tasks = [] then _ else none :=
      wake_exit s.group s.parent
    have parent : s.wake.parent = if (s.group.caught s.parent.throws).tasks = [] then _ else _ :=
      wake_parent s.group s.parent
    by_cases empty : (s.group.caught s.parent.throws).tasks = []
    · simp [exit, empty] at running
    · refine ⟨.pending, by simp [parent, empty, Task.await_waiter], fun _ => ?_⟩
      rw [group]
      exact empty
  · rw [tasks]
    exact sound.distinct
  · intro returned
    have exit : s.wake.exit = if (s.group.caught s.parent.throws).tasks = [] then _ else none :=
      wake_exit s.group s.parent
    rw [returned, ← group] at exit
    split at exit
    · rename_i empty
      have quiet := outcome_returned (Option.some.inj exit).symm
      refine ⟨?_, empty, ?_⟩
      · by_contra aborting
        have reason := aborted (by simpa using aborting)
        simp [quiet] at reason
      · intro j e raised
        rw [wake_child_ended] at raised
        rcases sound.reported j e raised with member | erred
        · rw [← tasks, empty] at member
          simp at member
        · rw [← errors, quiet.2] at erred
          simp at erred
    · simp at exit
  · intro e ended
    have exit : s.wake.exit = if (s.group.caught s.parent.throws).tasks = [] then _ else none :=
      wake_exit s.group s.parent
    rw [ended, ← group] at exit
    split at exit
    · rename_i empty
      exact ⟨empty, Option.some.inj exit⟩
    · simp at exit

theorem Sound.cancelParent {s : Scope χ ε} (sound : Sound s) (running : s.exit = none) :
    Sound { s with parent := s.parent.cancel } := by
  obtain ⟨fut, waiter, pending⟩ := sound.waiting running
  refine { sound with
    waiting := fun _ => ?_
    returned := fun returned => by simp [running] at returned
    closed := fun _ ended => by simp [running] at ended }
  by_cases isPending : fut = .pending
  · exact ⟨.cancelled, by simp [Task.cancel_waiter, waiter, isPending], by simp⟩
  · exact ⟨fut, by simp [Task.cancel_waiter, waiter, isPending], pending⟩

end Scope

end Asyncio
