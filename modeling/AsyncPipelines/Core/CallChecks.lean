import AsyncPipelines.Core.Call

/-!
The stopping signal `failed or caller.cancelled()` is exact. Where the group is
aborting it is true, and a call for which it was ever true does not return.
-/

namespace AsyncPipelines

open Asyncio

variable {χ α β σ ε : Type}

namespace Call

structure Sound (c : Call χ α β σ ε) : Prop extends Scope.Sound c.toScope where
  latched : ∀ j e, (c.child j).ended = some (.raised e) → c.failed = true ∧ e ≠ .cancelledError
  cause : c.exit = none → c.failed = true →
    c.callerCancelled = true ∨ ∃ j e, (c.child j).ended = some (.raised e)
  propagated : c.exit = none → c.group.propagate = true → c.callerCancelled = true
  delivered : c.exit = none → c.callerCancelled = true →
    c.parent.throws = true ∨ c.group.aborting = true
  thrown : c.exit = none → c.parent.throws = true →
    c.callerCancelled = true ∨ c.group.aborting = true
  baseline : c.exit = none → c.caller.baseline ≤ c.parent.cancelling
  rearmed : c.caller.rearms ≤ c.rearms
  quiet : c.exit = some .returned → c.stopping = false

/-- What one step of a task does to the call: the latch is set only with a
failure that leaves the task, or where the pipeline is stopping already. -/
structure TaskStep (c d : Call χ α β σ ε) : Prop extends
    Scope.TaskStep c.toScope d.toScope where
  rearms : d.rearms = c.rearms
  caller : d.caller = c.caller
  latched : c.failed = true → d.failed = true
  cause : d.failed = true → c.stopping = true ∨ ∃ j e, (d.child j).ended = some (.raised e)
  blamed : ∀ j e, (d.child j).ended = some (.raised e) →
    (c.child j).ended = some (.raised e) ∨ d.failed = true ∧ e ≠ .cancelledError

theorem stopping_iff (c : Call χ α β σ ε) :
    c.stopping = true ↔ c.failed = true ∨ c.callerCancelled = true := by
  simp [stopping]

theorem callerCancelled_iff (c : Call χ α β σ ε) :
    c.callerCancelled = true ↔ c.caller.pending = true ∨ c.rearms ≠ c.caller.rearms ∨
      c.caller.baseline < c.parent.cancelling := by
  simp [callerCancelled, CancelProbe.cancelled_iff]

theorem callerCancelled_mono {c d : Call χ α β σ ε} (caller : d.caller = c.caller)
    (count : c.parent.cancelling ≤ d.parent.cancelling)
    (rearms : c.rearms ≤ d.rearms) (rearmed : c.caller.rearms ≤ c.rearms)
    (cancelled : c.callerCancelled = true) : d.callerCancelled = true := by
  rw [callerCancelled_iff] at cancelled ⊢
  rw [caller]
  rcases cancelled with pending | moved | above
  · exact Or.inl pending
  · exact Or.inr (Or.inl (by omega))
  · exact Or.inr (Or.inr (by omega))

theorem TaskStep.callerCancelled {c d : Call χ α β σ ε} (step : TaskStep c d) :
    d.callerCancelled = c.callerCancelled := by
  simp [Call.callerCancelled, step.caller, step.rearms, step.parent]

theorem TaskStep.stopping {c d : Call χ α β σ ε} (step : TaskStep c d)
    (stopping : c.stopping = true) : d.stopping = true := by
  rw [stopping_iff] at stopping ⊢
  rw [step.callerCancelled]
  exact stopping.imp_left step.latched

theorem TaskStep.refl (c : Call χ α β σ ε) : TaskStep c c where
  toTaskStep := Scope.TaskStep.refl _
  rearms := rfl
  caller := rfl
  latched := id
  cause := fun failed => Or.inl ((stopping_iff c).mpr (Or.inl failed))
  blamed := fun _ _ raised => Or.inl raised

theorem TaskStep.trans {c d e : Call χ α β σ ε} (first : TaskStep c d) (second : TaskStep d e) :
    TaskStep c e where
  toTaskStep := first.toTaskStep.trans second.toTaskStep
  rearms := second.rearms.trans first.rearms
  caller := second.caller.trans first.caller
  latched := fun failed => second.latched (first.latched failed)
  cause := by
    intro failed
    rcases second.cause failed with stopping | raised
    · rw [stopping_iff, first.callerCancelled] at stopping
      rcases stopping with latched | cancelled
      · rcases first.cause latched with stopping | ⟨j, error, raised⟩
        · exact Or.inl stopping
        · exact Or.inr ⟨j, error, second.ended j _ raised⟩
      · exact Or.inl ((stopping_iff c).mpr (Or.inr cancelled))
    · exact Or.inr raised
  blamed := by
    intro j error raised
    rcases second.blamed j error raised with before | failed
    · rcases first.blamed j error before with start | failed
      · exact Or.inl start
      · exact Or.inr ⟨second.latched failed.1, failed.2⟩
    · exact Or.inr failed

theorem Sound.aborting_stopping {c : Call χ α β σ ε} (sound : Sound c) (open_ : c.exit = none)
    (aborting : c.group.aborting = true) : c.stopping = true := by
  rw [stopping_iff]
  rcases sound.aborted aborting with propagate | erred
  · exact Or.inr (sound.propagated open_ propagate)
  · obtain ⟨error, rest, errors⟩ := List.exists_cons_of_ne_nil erred
    obtain ⟨j, raised⟩ := sound.collected error (by simp [errors])
    exact Or.inl (sound.latched j error raised).1

theorem Sound.cancelled_stopping {c : Call χ α β σ ε} (sound : Sound c) (open_ : c.exit = none)
    {i : Nat} (cancelled : (c.child i).groupCancelled = true) : c.stopping = true :=
  sound.aborting_stopping open_ (sound.flagged i cancelled)

theorem Sound.taskStep {c d : Call χ α β σ ε} (sound : Sound c) (step : TaskStep c d)
    (distinct : d.group.tasks.Nodup) (open_ : c.exit = none) : Sound d where
  toSound := sound.toSound.taskStep step.toTaskStep distinct open_
  latched := by
    intro j error raised
    rcases step.blamed j error raised with before | failed
    · have before := sound.latched j error before
      exact ⟨step.latched before.1, before.2⟩
    · exact failed
  cause := by
    intro _ failed
    rw [step.callerCancelled]
    rcases step.cause failed with stopping | raised
    · rw [stopping_iff] at stopping
      rcases stopping with latched | cancelled
      · rcases sound.cause open_ latched with cancelled | ⟨j, error, raised⟩
        · exact Or.inl cancelled
        · exact Or.inr ⟨j, error, step.ended j _ raised⟩
      · exact Or.inl cancelled
    · exact Or.inr raised
  propagated := by
    intro _ propagate
    obtain ⟨fresh, group, _⟩ := step.group
    rw [step.callerCancelled]
    exact sound.propagated open_ (by simpa [group] using propagate)
  delivered := by
    intro _ cancelled
    rw [step.parent, step.aborting]
    exact sound.delivered open_ (step.callerCancelled ▸ cancelled)
  thrown := by
    intro _ throws
    rw [step.callerCancelled, step.aborting]
    exact sound.thrown open_ (step.parent ▸ throws)
  baseline := by
    intro _
    rw [step.caller, step.parent]
    exact sound.baseline open_
  rearmed := by
    rw [step.caller, step.rearms]
    exact sound.rearmed
  quiet := by
    intro returned
    simp [step.exit, open_] at returned

theorem Sound.cancelCaller {c : Call χ α β σ ε} (sound : Sound c) (open_ : c.exit = none) :
    Sound c.cancelCaller := by
  have more : c.caller.baseline < c.cancelCaller.parent.cancelling := by
    have base := sound.baseline open_
    simp only [Call.cancelCaller, Task.cancel_cancelling]
    omega
  have cancelled : c.cancelCaller.callerCancelled = true :=
    (callerCancelled_iff _).mpr (Or.inr (Or.inr more))
  exact {
    toSound := sound.toSound.cancelParent open_
    latched := sound.latched
    cause := fun _ _ => Or.inl cancelled
    propagated := fun _ _ => cancelled
    delivered := fun _ _ => Or.inl (Task.cancel_throws _)
    thrown := fun _ _ => Or.inl cancelled
    baseline := fun _ => Nat.le_of_lt more
    rearmed := sound.rearmed
    quiet := fun returned => by simp [Call.cancelCaller, open_] at returned }

theorem Sound.rearm {c : Call χ α β σ ε} (sound : Sound c) (open_ : c.exit = none)
    (entryCancelling : Int) (entryProbe : CancelProbe) :
    Sound (c.rearm entryCancelling entryProbe) := by
  rcases rearm_cases ⟨c.parent, c.rearms⟩ false entryCancelling entryProbe with same | moved
  · simpa only [Call.rearm, same] using sound
  · have parent : (c.rearm entryCancelling entryProbe).parent = c.parent.uncancel.cancel := by
      simp [Call.rearm, moved]
    have rearms : (c.rearm entryCancelling entryProbe).rearms = c.rearms + 1 := by
      simp [Call.rearm, moved]
    have cancelled : (c.rearm entryCancelling entryProbe).callerCancelled = true := by
      have before := sound.rearmed
      refine (callerCancelled_iff _).mpr (Or.inr (Or.inl ?_))
      rw [rearms]
      show c.rearms + 1 ≠ c.caller.rearms
      omega
    have inner : Scope.Sound { c.toScope with parent := c.parent.uncancel } := by
      obtain ⟨fut, waiter, pending⟩ := sound.waiting open_
      exact { sound.toSound with
        waiting := fun _ => ⟨fut, waiter, pending⟩
        returned := fun returned => by simp [open_] at returned }
    exact {
      toSound := by simpa [Call.rearm, moved] using inner.cancelParent open_
      latched := sound.latched
      cause := fun _ _ => Or.inl cancelled
      propagated := fun _ _ => cancelled
      delivered := fun _ _ => Or.inl (by rw [parent]; exact Task.cancel_throws _)
      thrown := fun _ _ => Or.inl cancelled
      baseline := by
        intro _
        have base := sound.baseline open_
        rw [parent, Task.cancel_cancelling]
        show c.caller.baseline ≤ c.parent.cancelling - 1 + 1
        omega
      rearmed := by
        have before := sound.rearmed
        rw [rearms]
        show c.caller.rearms ≤ c.rearms + 1
        omega
      quiet := fun returned => by simp [Call.rearm, open_] at returned }

theorem taskDone_parent (isBase : Exc ε → Bool) (g : TaskGroup (Exc ε)) (parent : Task) (i : Nat)
    (ended : TaskEnd (Exc ε)) :
    parent.cancelling ≤ (g.taskDone isBase parent i ended).2.cancelling ∧
      (parent.throws = true → (g.taskDone isBase parent i ended).2.throws = true) ∧
      ((g.taskDone isBase parent i ended).2.cancelling ≤ parent.cancelling ∧
        ((g.taskDone isBase parent i ended).2.throws = true → parent.throws = true) ∨
        (g.taskDone isBase parent i ended).1.aborting = true) := by
  have set : (if g.tasks.erase i = [] ∧ parent.waiter = some .pending then parent.fulfil
      else parent).cancelling = parent.cancelling ∧
      (if g.tasks.erase i = [] ∧ parent.waiter = some .pending then parent.fulfil
      else parent).throws = parent.throws := by
    split
    · rename_i last
      refine ⟨rfl, ?_⟩
      simp only [Task.throws, Task.fulfil, last.2]
      rfl
    · exact ⟨rfl, rfl⟩
  cases ended with
  | returned => simp only [TaskGroup.taskDone, set, le_refl, imp_self, and_self, true_or]
  | cancelled => simp only [TaskGroup.taskDone, set, le_refl, imp_self, and_self, true_or]
  | raised error =>
      simp only [TaskGroup.taskDone]
      split
      · simp only [set, le_refl, imp_self, and_self, true_or]
      · refine ⟨?_, fun _ => Task.cancel_throws _, Or.inr rfl⟩
        rw [Task.cancel_cancelling, set.1]
        exact Nat.le_succ _

theorem Sound.taskDone {c : Call χ α β σ ε} (sound : Sound c) (open_ : c.exit = none) {i : Nat}
    {ended : TaskEnd (Exc ε)} (found : (c.child i).ended = some ended) :
    Sound { c with toScope := c.toScope.taskDone Exc.isBaseError i ended } := by
  obtain ⟨count, throws, change⟩ := taskDone_parent Exc.isBaseError c.group c.parent i ended
  have monotone := Scope.taskDone_aborting Exc.isBaseError c.group c.parent i ended
  have ended_same := Scope.taskDone_child_ended Exc.isBaseError c.toScope i
  have propagate := (Scope.taskDone_group Exc.isBaseError c.group c.parent i ended).2.1
  have kept : c.callerCancelled = true → Call.callerCancelled (α := α) (β := β) (σ := σ)
      { c with toScope := c.toScope.taskDone Exc.isBaseError i ended } = true := by
    intro cancelled
    exact callerCancelled_mono (c := c) rfl count (le_refl _) sound.rearmed cancelled
  exact {
    toSound := sound.toSound.taskDone Exc.isBaseError found open_
    latched := fun j error raised => sound.latched j error (by rw [← ended_same, raised])
    cause := by
      intro _ failed
      rcases sound.cause open_ failed with cancelled | ⟨j, error, raised⟩
      · exact Or.inl (kept cancelled)
      · exact Or.inr ⟨j, error, by rw [ended_same, raised]⟩
    propagated := fun _ asked => kept (sound.propagated open_ (propagate ▸ asked))
    delivered := by
      intro _ cancelled
      rcases change with ⟨same, _⟩ | aborting
      · have before : c.callerCancelled = true := by
          rw [callerCancelled_iff] at cancelled ⊢
          refine cancelled.imp_right (Or.imp_right fun above => ?_)
          exact Nat.lt_of_lt_of_le above same
        exact (sound.delivered open_ before).imp throws monotone
      · exact Or.inr aborting
    thrown := by
      intro _ thrown
      rcases change with ⟨_, back⟩ | aborting
      · exact (sound.thrown open_ (back thrown)).imp kept monotone
      · exact Or.inr aborting
    baseline := fun _ => Nat.le_trans (sound.baseline open_) count
    rearmed := sound.rearmed
    quiet := fun returned => by simp [Scope.taskDone, open_] at returned }

theorem wake_parent_cancelling (g : TaskGroup (Exc ε)) (parent : Task) :
    (g.wake parent).2.1.cancelling = parent.cancelling := by
  rw [Scope.wake_parent]
  split <;> simp

theorem Sound.wake {c : Call χ α β σ ε} (sound : Sound c) (open_ : c.exit = none) :
    Sound { c with toScope := c.toScope.wake } := by
  have ended_same := Scope.wake_child_ended c.toScope
  have count : c.toScope.wake.parent.cancelling = c.parent.cancelling :=
    wake_parent_cancelling c.group c.parent
  have group : c.toScope.wake.group = c.group.caught c.parent.throws :=
    Scope.wake_group c.group c.parent
  have inner := sound.toSound.wake
  have same : Call.callerCancelled (α := α) (β := β) (σ := σ) { c with toScope := c.toScope.wake } =
      c.callerCancelled := by
    simp [Call.callerCancelled, CancelProbe.cancelled, CancelProbe.broughtInALiveCancel, count]
  have monotone : c.group.aborting = true → c.toScope.wake.group.aborting = true := by
    intro aborting
    rw [group, TaskGroup.caught]; split <;> simp [aborting]
  have caught : c.callerCancelled = true → c.toScope.wake.group.aborting = true := by
    intro cancelled
    rcases sound.delivered open_ cancelled with throws | aborting
    · rw [group, TaskGroup.caught]
      split
      · rfl
      · rename_i idle
        simpa [throws] using idle
    · exact monotone aborting
  have calm : c.toScope.wake.exit = none → c.toScope.wake.parent.throws = false := by
    intro waiting
    have exit : c.toScope.wake.exit = if (c.group.caught c.parent.throws).tasks = [] then _ else none :=
      Scope.wake_exit c.group c.parent
    have parent : c.toScope.wake.parent = if (c.group.caught c.parent.throws).tasks = [] then _ else _ :=
      Scope.wake_parent c.group c.parent
    rw [waiting] at exit
    split at exit
    · simp at exit
    · rename_i left
      simp [parent, left, Task.await_throws]
  exact {
    toSound := inner
    latched := fun j error raised => sound.latched j error (by rw [← ended_same, raised])
    cause := by
      intro _ failed
      rw [same]
      rcases sound.cause open_ failed with cancelled | ⟨j, error, raised⟩
      · exact Or.inl cancelled
      · exact Or.inr ⟨j, error, by rw [ended_same, raised]⟩
    propagated := by
      intro _ propagate
      rw [same]
      simp only [group, TaskGroup.caught] at propagate
      split at propagate
      · rename_i first
        simp only [Bool.and_eq_true, Bool.not_eq_true'] at first
        rcases sound.thrown open_ first.1 with cancelled | aborting
        · exact cancelled
        · simp [first.2] at aborting
      · exact sound.propagated open_ propagate
    delivered := fun _ cancelled => Or.inr (caught (same ▸ cancelled))
    thrown := fun waiting throws => by simp [calm waiting] at throws
    baseline := by
      intro _
      show c.caller.baseline ≤ c.toScope.wake.parent.cancelling
      rw [count]
      exact sound.baseline open_
    rearmed := sound.rearmed
    quiet := by
      intro returned
      obtain ⟨idle, _, noFailure⟩ := inner.returned returned
      rw [← Bool.not_eq_true, stopping_iff, same]
      rintro (failed | cancelled)
      · rcases sound.cause open_ failed with cancelled | ⟨j, error, raised⟩
        · simp [caught cancelled] at idle
        · exact noFailure j error (by rw [ended_same, raised])
      · simp [caught cancelled] at idle }

theorem wakeCaller_cases (c : Call χ α β σ ε) :
    c.wakeCaller = { c with toScope := c.toScope.wake } ∨
      (∃ errors, c.wakeCaller.exit = some (.group errors)) := by
  unfold wakeCaller
  dsimp only
  split
  · rename_i errors found
    exact Or.inr ⟨errors, found⟩
  · exact Or.inl rfl

theorem wakeCaller_child (c : Call χ α β σ ε) : c.wakeCaller.child = c.toScope.wake.child := by
  unfold wakeCaller
  dsimp only
  split <;> rfl

theorem wakeCaller_group (c : Call χ α β σ ε) : c.wakeCaller.group = c.toScope.wake.group := by
  unfold wakeCaller
  dsimp only
  split <;> rfl

theorem wakeCaller_exit (c : Call χ α β σ ε) : c.wakeCaller.exit = c.toScope.wake.exit := by
  unfold wakeCaller
  dsimp only
  split <;> rfl

theorem Sound.wakeCaller {c : Call χ α β σ ε} (sound : Sound c) (open_ : c.exit = none) :
    Sound c.wakeCaller := by
  have inner := sound.wake open_
  rcases wakeCaller_cases c with same | ⟨errors, exit⟩
  · rw [same]
    exact inner
  · have closed : c.wakeCaller.exit ≠ none := by simp [exit]
    have raises : c.wakeCaller.exit ≠ some .returned := by simp [exit]
    have child := wakeCaller_child c
    have group := wakeCaller_group c
    have failed : c.wakeCaller.failed = c.failed := by unfold Call.wakeCaller; dsimp only
    have live : ∀ j, c.wakeCaller.live j = c.toScope.wake.live j := by
      intro j
      simp [Scope.live, child, group]
    exact {
      aborted := by rw [group]; exact inner.aborted
      erred := by rw [group]; exact inner.erred
      requested := by rw [group]; exact inner.requested
      based := by rw [group]; exact inner.based
      collected := by rw [group, child]; exact inner.collected
      reported := by rw [group, child]; exact inner.reported
      flagged := by rw [group, child]; exact inner.flagged
      reached := by
        intro aborting j alive
        rw [child]
        exact inner.reached (group ▸ aborting) j (live j ▸ alive)
      waiting := fun open_ => absurd open_ closed
      distinct := by rw [group]; exact inner.distinct
      returned := fun returned => absurd returned raises
      closed := by rw [group, wakeCaller_exit]; exact inner.closed
      latched := by rw [child, failed]; exact inner.latched
      cause := fun open_ => absurd open_ closed
      propagated := fun open_ => absurd open_ closed
      delivered := fun open_ => absurd open_ closed
      thrown := fun open_ => absurd open_ closed
      baseline := fun open_ => absurd open_ closed
      rearmed := sound.rearmed
      quiet := fun returned => absurd returned raises }

theorem Sound.loopStep {c d : Call χ α β σ ε} {a : LoopAct} (sound : Sound c)
    (stepped : c.loopStep a = some d) : Sound d := by
  cases a with
  | cancelCaller =>
      simp only [Call.loopStep, Option.isNone_iff_eq_none] at stepped
      split at stepped
      · rename_i open_
        simp only [Option.some.injEq] at stepped
        exact stepped ▸ sound.cancelCaller open_
      · simp at stepped
  | rearm entryCancelling entryProbe =>
      simp only [Call.loopStep, Option.isNone_iff_eq_none] at stepped
      split at stepped
      · rename_i ready
        simp only [Option.some.injEq] at stepped
        exact stepped ▸ sound.rearm ready.1 entryCancelling entryProbe
      · simp at stepped
  | wakeCaller =>
      simp only [Call.loopStep, Option.isNone_iff_eq_none] at stepped
      split at stepped
      · rename_i ready
        simp only [Option.some.injEq] at stepped
        exact stepped ▸ sound.wakeCaller ready.1
      · simp at stepped
  | taskDone i =>
      simp only [Call.loopStep, Option.isNone_iff_eq_none] at stepped
      split at stepped
      · rename_i ended found
        split at stepped
        · rename_i ready
          simp only [Option.some.injEq] at stepped
          exact stepped ▸ sound.taskDone ready.1 found
        · simp at stepped
      · simp at stepped

/-- The caller enters with any count, with or without a request still to be
delivered, and the group has its tasks. -/
theorem Sound.enter (caller : Caller) (tasks : List Nat) (child : Nat → Child χ (Exc ε))
    (some_ : tasks ≠ []) (distinct : tasks.Nodup)
    (fresh : ∀ j, (child j).ended = none ∧ (child j).groupCancelled = false) :
    Sound (Call.enter (α := α) (β := β) (σ := σ) caller tasks child) := by
  have signal : Call.callerCancelled (Call.enter (α := α) (β := β) (σ := σ) caller tasks child) =
      caller.task.mustCancel := by
    rw [Bool.eq_iff_iff, callerCancelled_iff]
    simp [Call.enter, CancelProbe.enter]
  constructor
  case delivered =>
    intro _ cancelled
    rw [signal] at cancelled
    exact Or.inl (by simpa [Call.enter, Task.await_throws] using cancelled)
  case thrown =>
    intro _ throws
    rw [signal]
    exact Or.inl (by simpa [Call.enter, Task.await_throws] using throws)
  case toSound =>
    constructor
    case waiting =>
      intro _
      refine ⟨if caller.task.mustCancel then .cancelled else .pending, ?_, fun _ => some_⟩
      simp only [Call.enter, Task.await_waiter]
      split <;> rfl
    case distinct => exact distinct
    all_goals simp [Call.enter, fresh]
  all_goals simp [Call.enter, CancelProbe.enter, fresh]

/-- Once the signal is true it stays true: a group that undoes its own request on
the caller has a failure to raise. -/
theorem stopping_loopStep {c d : Call χ α β σ ε} {a : LoopAct} (sound : Sound c)
    (stopping : c.stopping = true) (stepped : c.loopStep a = some d) : d.stopping = true := by
  have keep : ∀ d : Call χ α β σ ε, d.failed = c.failed → d.caller = c.caller →
      c.parent.cancelling ≤ d.parent.cancelling → c.rearms ≤ d.rearms → d.stopping = true := by
    intro d failed caller count rearms
    rw [stopping_iff] at stopping ⊢
    exact stopping.imp (fun latched => failed.trans latched)
      (callerCancelled_mono caller count rearms sound.rearmed)
  cases a with
  | cancelCaller =>
      simp only [Call.loopStep] at stepped
      split at stepped <;> simp only [Option.some.injEq, reduceCtorEq] at stepped
      exact stepped ▸ keep _ rfl rfl (by simp [Call.cancelCaller]) (le_refl _)
  | rearm entryCancelling entryProbe =>
      simp only [Call.loopStep] at stepped
      split at stepped <;> simp only [Option.some.injEq, reduceCtorEq] at stepped
      refine stepped ▸ keep _ rfl rfl ?_ ?_ <;>
        rcases rearm_cases ⟨c.parent, c.rearms⟩ false entryCancelling entryProbe with same | moved
      · simp [Call.rearm, same]
      · simp only [Call.rearm, moved, Task.cancel_cancelling, Task.uncancel]
        omega
      · simp [Call.rearm, same]
      · simp [Call.rearm, moved]
  | wakeCaller =>
      simp only [Call.loopStep] at stepped
      split at stepped <;> simp only [Option.some.injEq, reduceCtorEq] at stepped
      rename_i ready
      subst stepped
      rcases wakeCaller_cases c with same | ⟨errors, raised⟩
      · rw [same]
        exact keep _ rfl rfl (le_of_eq (wake_parent_cancelling c.group c.parent).symm) (le_refl _)
      · have closed : c.wakeCaller.exit = c.toScope.wake.exit := wakeCaller_exit c
        have exit : c.toScope.wake.exit = if (c.group.caught c.parent.throws).tasks = [] then _
            else none := Scope.wake_exit c.group c.parent
        rw [← closed, raised] at exit
        split at exit
        · have erred := Scope.outcome_group (Option.some.inj exit).symm
          have same : (c.group.caught c.parent.throws).errors = c.group.errors := by
            rw [TaskGroup.caught]; split <;> rfl
          obtain ⟨error, rest, errors⟩ := List.exists_cons_of_ne_nil (same ▸ erred.1)
          obtain ⟨j, found⟩ := sound.collected error (by simp [errors])
          have failed : c.failed = true := (sound.latched j error found).1
          refine (stopping_iff _).mpr (Or.inl ?_)
          rw [← failed]
          unfold Call.wakeCaller
          dsimp only
        · simp at exit
  | taskDone i =>
      simp only [Call.loopStep] at stepped
      split at stepped
      · split at stepped <;> simp only [Option.some.injEq, reduceCtorEq] at stepped
        exact stepped ▸ keep _ rfl rfl
          (taskDone_parent Exc.isBaseError c.group c.parent i _).1 (le_refl _)
      · simp at stepped

theorem loopStep_exit {c d : Call χ α β σ ε} {a : LoopAct} (stepped : c.loopStep a = some d) :
    c.exit = none ∧ (d.exit = none ∨ d = c.wakeCaller) := by
  cases a with
  | cancelCaller =>
      simp only [Call.loopStep, Option.isNone_iff_eq_none] at stepped
      split at stepped <;> simp only [Option.some.injEq, reduceCtorEq] at stepped
      rename_i open_
      exact ⟨open_, Or.inl (stepped ▸ open_)⟩
  | rearm entryCancelling entryProbe =>
      simp only [Call.loopStep, Option.isNone_iff_eq_none] at stepped
      split at stepped <;> simp only [Option.some.injEq, reduceCtorEq] at stepped
      rename_i ready
      exact ⟨ready.1, Or.inl (stepped ▸ ready.1)⟩
  | wakeCaller =>
      simp only [Call.loopStep, Option.isNone_iff_eq_none] at stepped
      split at stepped <;> simp only [Option.some.injEq, reduceCtorEq] at stepped
      rename_i ready
      exact ⟨ready.1, Or.inr stepped.symm⟩
  | taskDone i =>
      simp only [Call.loopStep, Option.isNone_iff_eq_none] at stepped
      split at stepped
      · split at stepped <;> simp only [Option.some.injEq, reduceCtorEq] at stepped
        rename_i ready
        exact ⟨ready.1, Or.inl (stepped ▸ ready.1)⟩
      · simp at stepped

/-- A task that the group has cancelled sees the signal, also once the call has ended. -/
theorem flagged_loopStep {c d : Call χ α β σ ε} {a : LoopAct} (sound : Sound c)
    (stepped : c.loopStep a = some d) {j : Nat} (flag : (d.child j).groupCancelled = true) :
    d.stopping = true := by
  obtain ⟨open_, still | woken⟩ := loopStep_exit stepped
  · exact (sound.loopStep stepped).cancelled_stopping still flag
  · by_cases closed : c.toScope.wake.exit = none
    · have still : d.exit = none := by rw [woken, wakeCaller_exit, closed]
      exact (sound.loopStep stepped).cancelled_stopping still flag
    · rw [woken, wakeCaller_child, (Scope.wake_child_exit closed).2] at flag
      exact stopping_loopStep sound (sound.cancelled_stopping open_ flag) stepped

theorem TaskStep.of_same {c d : Call χ α β σ ε} (scope : d.toScope = c.toScope)
    (rearms : d.rearms = c.rearms) (caller : d.caller = c.caller) (failed : d.failed = c.failed) :
    TaskStep c d where
  toTaskStep := scope ▸ Scope.TaskStep.refl _
  rearms := rearms
  caller := caller
  latched := fun latched => failed.trans latched
  cause := fun latched => Or.inl ((stopping_iff c).mpr (Or.inl (failed ▸ latched)))
  blamed := fun _ _ raised => Or.inl (scope ▸ raised)

theorem TaskStep.setChild {c : Call χ α β σ ε} {i : Nat} {d : Child χ (Exc ε)}
    (ended : d.ended = (c.child i).ended)
    (flag : d.groupCancelled = (c.child i).groupCancelled) : TaskStep c (c.setChild i d) := by
  have same : ∀ j, ((c.setChild i d).child j).ended = (c.child j).ended ∧
      ((c.setChild i d).child j).groupCancelled = (c.child j).groupCancelled := by
    intro j
    simp only [Call.setChild, Function.update_apply]
    split
    · rename_i here
      rw [here]
      exact ⟨ended, flag⟩
    · exact ⟨rfl, rfl⟩
  exact {
    parent := rfl
    exit := rfl
    group := ⟨[], by simp [Call.setChild], by simp⟩
    ended := fun j error found => by rw [(same j).1, found]
    flagged := fun j found => by rw [← (same j).2, found]
    kept := fun _ j found => by rw [(same j).2, found]
    raised := fun j error found => Or.inl (by rw [← (same j).1, found])
    rearms := rfl
    caller := rfl
    latched := id
    cause := fun failed => Or.inl ((stopping_iff c).mpr (Or.inl failed))
    blamed := fun j error found => Or.inl (by rw [← (same j).1, found]) }

theorem TaskStep.setTask (c : Call χ α β σ ε) (i : Nat) (task : Task) :
    TaskStep c (c.setTask i task) :=
  TaskStep.setChild rfl rfl

theorem endTask_ended (c : Call χ α β σ ε) (i j : Nat) (ended : TaskEnd (Exc ε)) :
    ((c.endTask i ended).child j).ended = if j = i then
      some (match ended with
        | .returned => if (c.child i).task.mustCancel then .cancelled else .returned
        | other => other) else (c.child j).ended := by
  simp only [Call.endTask, Call.setChild, Function.update_apply]
  split <;> rfl

theorem TaskStep.endTask {c : Call χ α β σ ε} {i : Nat} {ended : TaskEnd (Exc ε)} {failed : Bool}
    (alive : c.live i = true) (latched : c.failed = true → failed = true)
    (blamed : ∀ error, ended = .raised error → failed = true ∧ error ≠ .cancelledError)
    (cause : failed = true → c.stopping = true ∨ ∃ error, ended = .raised error) :
    TaskStep c { c.endTask i ended with failed := failed } := by
  simp only [Scope.live, Bool.and_eq_true, decide_eq_true_eq, Option.isNone_iff_eq_none] at alive
  have flag : ∀ j, ((c.endTask i ended).child j).groupCancelled = (c.child j).groupCancelled := by
    intro j
    simp only [Call.endTask, Call.setChild, Function.update_apply]
    split
    · rename_i here
      rw [here]
    · rfl
  have raised : ∀ j error, ((c.endTask i ended).child j).ended = some (.raised error) →
      (c.child j).ended = some (.raised error) ∨ j = i ∧ ended = .raised error := by
    intro j error found
    rw [endTask_ended] at found
    split at found
    · rename_i here
      refine Or.inr ⟨here, ?_⟩
      cases ended with
      | returned =>
          simp only [Option.some.injEq] at found
          split at found <;> simp at found
      | cancelled => simp at found
      | raised other => simpa using found
    · exact Or.inl found
  exact {
    parent := rfl
    exit := rfl
    group := ⟨[], by simp [Call.endTask, Call.setChild], by simp⟩
    ended := by
      intro j error found
      show ((c.endTask i ended).child j).ended = some error
      rw [endTask_ended]
      split
      · rename_i here
        rw [here, alive.2] at found
        simp at found
      · exact found
    flagged := fun j found => by rw [← flag j]; exact found
    kept := fun _ j found => (flag j).trans found
    raised := by
      intro j error found
      rcases raised j error found with before | ⟨here, _⟩
      · exact Or.inl before
      · exact Or.inr (here ▸ alive.1)
    rearms := rfl
    caller := rfl
    latched := latched
    cause := by
      intro now
      rcases cause now with stopping | ⟨error, isRaised⟩
      · exact Or.inl stopping
      · refine Or.inr ⟨i, error, ?_⟩
        show ((c.endTask i ended).child i).ended = some (.raised error)
        rw [endTask_ended, isRaised]
        simp
    blamed := by
      intro j error found
      exact (raised j error found).imp_right fun here => blamed error here.2 }

theorem TaskStep.userStep {c d : Call χ α β σ ε} {inUser : χ → Bool} {a : UserAct}
    (stepped : c.userStep inUser a = some d) : TaskStep c d := by
  cases a <;> simp only [Call.userStep] at stepped <;> split at stepped <;>
    simp only [Option.some.injEq, reduceCtorEq] at stepped
  case resume.isTrue i _ =>
    exact stepped ▸ (TaskStep.setTask c i _).trans (TaskStep.of_same rfl rfl rfl rfl)
  case suspend.isTrue i _ =>
    exact stepped ▸ (TaskStep.setTask c i _).trans (TaskStep.of_same rfl rfl rfl rfl)
  case cancelSelf.isTrue i _ => exact stepped ▸ TaskStep.setTask c i _
  case uncancelSelf.isTrue i _ => exact stepped ▸ TaskStep.setTask c i _

end Call

end AsyncPipelines
