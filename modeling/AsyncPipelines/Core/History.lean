import AsyncPipelines.Core.CallChecks
import AsyncPipelines.Core.ErrorsChecks

/-!
The log of a call, index by index: an item is called, its deadline may fire, and
the call ends. `Logged` ties the latch to the log, and `Frame` says what may
happen to a task while it is not the one that takes a step.
-/

namespace AsyncPipelines

open Asyncio

variable {χ α β σ ε : Type}

namespace Event

def index : Event α β σ ε → Option Nat
  | called index _ => some index
  | deadline index => some index
  | ended index _ _ => some index
  | _ => none

def isCall : Event α β σ ε → Bool
  | called _ _ => true
  | _ => false

def fails : Event α β σ ε → Bool
  | ended _ _ (.failed _) => true
  | sourceFailed _ _ _ _ => true
  | _ => false

def failure? : Event α β σ ε → Option (Exc ε)
  | ended _ _ (.failed exc) => some exc
  | sourceFailed _ _ _ exc => some exc
  | _ => none

def stopped : Event α β σ ε → Bool
  | ended _ call _ => call.stopping
  | sourceFailed _ stopping _ _ => stopping
  | _ => false

def pulled? : Event α β σ ε → Option α
  | pulled item => some item
  | _ => none

def called? : Event α β σ ε → Option (Nat × α)
  | called index item => some (index, item)
  | _ => none

def ended? : Event α β σ ε → Option (Nat × CallEnd β ε × Completion σ ε)
  | ended index call completion => some (index, call, completion)
  | _ => none

def sentinel? : Event α β σ ε → Option Nat
  | sentinel task => some task
  | _ => none

end Event

def callLog (log : List (Event α β σ ε)) : List (Nat × α) := log.filterMap Event.called?

def InFlight (log : List (Event α β σ ε)) (i : Nat) : Prop :=
  (∃ item, .called i item ∈ log) ∧ ∀ call completion, .ended i call completion ∉ log

def StartsInOrder (items : List α) (log : List (Event α β σ ε)) : Prop :=
  (callLog log).map Prod.fst = List.range (callLog log).length ∧ (callLog log).map Prod.snd <+: items

def history (i : Nat) (log : List (Event α β σ ε)) : List (Event α β σ ε) :=
  log.filter fun event => event.index == some i

theorem history_append (i : Nat) (log more : List (Event α β σ ε)) :
    history i (log ++ more) = history i log ++ history i more := by
  simp [history]

theorem history_other {i : Nat} {e : Event α β σ ε} (other : e.index ≠ some i)
    (log : List (Event α β σ ε)) : history i (log ++ [e]) = history i log := by
  simp [history, other]

theorem history_same {i : Nat} {e : Event α β σ ε} (same : e.index = some i)
    (log : List (Event α β σ ε)) : history i (log ++ [e]) = history i log ++ [e] := by
  simp [history, same]

theorem mem_history {i : Nat} {e : Event α β σ ε} {log : List (Event α β σ ε)} :
    e ∈ history i log ↔ e ∈ log ∧ e.index = some i := by
  simp [history]

def opening (i : Nat) (item : α) (expired : Bool) : List (Event α β σ ε) :=
  .called i item :: if expired then [.deadline i] else []

theorem CallEnd.Faithful.of_leave {timeout : Option ℚ} {c : Call χ α β σ ε} {i : Nat}
    {cm : Option Timeout} {t : Task} (out : FnEnd β ε)
    (timed : cm.isSome = timeout.isSome)
    (open_ : ∀ own, cm = some own → own.state = .entered ∨ own.state = .expiring)
    (signalled : (c.child i).groupCancelled = true → c.stopping = true) :
    (c.callEnd i out (leaveTimeout cm t out)).Faithful timeout ∧
      (c.callEnd i out (leaveTimeout cm t out)).expired = cm.any Timeout.expired := by
  cases cm with
  | none =>
      refine ⟨⟨fun _ => rfl, fun cancelled => Or.inl ?_, ?_, signalled⟩, rfl⟩
      · simp_all [Call.callEnd, leaveTimeout, FnEnd.result]
      · simp [Call.callEnd, leaveTimeout]
  | some own =>
      have expired := Timeout.exit_expired own t out.isCancelled (open_ own rfl)
      have raises := Timeout.exit_raises own t out.isCancelled
      refine ⟨⟨?_, ?_, fun _ => by simpa using timed.symm, signalled⟩, expired⟩
      · intro notCancelled
        have calm : out.isCancelled = false := by
          cases out <;> simp_all [Call.callEnd, FnEnd.isCancelled]
        have quiet : (own.exit t out.isCancelled).2.2 = false := by
          rw [← Bool.not_eq_true]
          intro raised
          simp [(raises raised).2] at calm
        simp [Call.callEnd, leaveTimeout, quiet]
      · intro cancelled
        have cancelled : out = .cancelled := cancelled
        by_cases raised : (own.exit t out.isCancelled).2.2 = true
        · refine Or.inr ⟨by simp [Call.callEnd, leaveTimeout, raised], ?_⟩
          refine expired.trans ?_
          simp [Timeout.expired, (raises raised).1]
        · left
          simp only [Bool.not_eq_true] at raised
          simp [Call.callEnd, leaveTimeout, raised]
          simp [cancelled, FnEnd.result]

namespace Call

structure Logged (c : Call χ α β σ ε) : Prop where
  latch : c.failed = true ↔ ∃ event ∈ c.log, event.fails = true
  quiet : c.log.Pairwise fun first second => first.fails = true → second.isCall = false

theorem Logged.of_same {c d : Call χ α β σ ε} (logged : Logged c) (log : d.log = c.log)
    (failed : d.failed = c.failed) : Logged d :=
  ⟨by rw [failed, log]; exact logged.latch, by rw [log]; exact logged.quiet⟩

theorem Logged.called {c d : Call χ α β σ ε} (logged : Logged c) (open_ : c.failed = false)
    {e : Event α β σ ε} (harmless : e.fails = false) (log : d.log = c.log ++ [e])
    (failed : d.failed = c.failed) : Logged d := by
  have none : ∀ e ∈ c.log, e.fails = false := by
    intro e member
    rw [← Bool.not_eq_true]
    intro fails
    simp [logged.latch.mpr ⟨e, member, fails⟩] at open_
  refine ⟨?_, ?_⟩
  · rw [failed, log, logged.latch]
    constructor
    · rintro ⟨before, member, fails⟩
      exact ⟨before, List.mem_append_left _ member, fails⟩
    · rintro ⟨before, member, fails⟩
      rcases List.mem_append.mp member with old | new
      · exact ⟨before, old, fails⟩
      · simp_all
  · rw [log, List.pairwise_append]
    refine ⟨logged.quiet, List.pairwise_singleton _ _, ?_⟩
    intro before member _ _ fails
    simp [none before member] at fails

theorem Logged.noted {c d : Call χ α β σ ε} (logged : Logged c) {e : Event α β σ ε}
    (noCall : e.isCall = false) (log : d.log = c.log ++ [e])
    (failed : d.failed = (c.failed || e.fails)) : Logged d := by
  refine ⟨?_, ?_⟩
  · rw [failed, log, Bool.or_eq_true, logged.latch]
    constructor
    · rintro (⟨before, member, fails⟩ | fails)
      · exact ⟨before, List.mem_append_left _ member, fails⟩
      · exact ⟨e, by simp, fails⟩
    · rintro ⟨before, member, fails⟩
      rcases List.mem_append.mp member with old | new
      · exact Or.inl ⟨before, old, fails⟩
      · exact Or.inr (by simpa [List.mem_singleton.mp new] using fails)
  · rw [log, List.pairwise_append]
    refine ⟨logged.quiet, List.pairwise_singleton _ _, ?_⟩
    intro _ _ after member _
    rw [List.mem_singleton.mp member]
    exact noCall

/-- What an event of the log says about the state it is in: the stopping signal stays,
and a failure is that of a task, unless the pipeline was stopping. -/
structure Noted (c : Call χ α β σ ε) (e : Event α β σ ε) : Prop where
  heard : e.stopped = true → c.stopping = true
  blamed : ∀ exc, e.failure? = some exc →
    exc = .cancelledError ∨ ∃ j, (c.child j).ended = some (.raised exc)
  source : ∀ caught stopping groupCancelled exc,
    e = .sourceFailed caught stopping groupCancelled exc →
      (groupCancelled = true → stopping = true) ∧
      exc = strayCancellationAsError caught stopping none (some "the producer")

theorem Noted.kept {c d : Call χ α β σ ε} {e : Event α β σ ε} (noted : Noted c e)
    (stopping : c.stopping = true → d.stopping = true)
    (ended : ∀ j how, (c.child j).ended = some how → (d.child j).ended = some how) : Noted d e where
  heard := fun stopped => stopping (noted.heard stopped)
  blamed := fun exc failure =>
    (noted.blamed exc failure).imp_right fun ⟨j, found⟩ => ⟨j, ended j _ found⟩
  source := noted.source

theorem Noted.harmless {c : Call χ α β σ ε} {e : Event α β σ ε} (harmless : e.fails = false)
    (heard : e.stopped = true → c.stopping = true) : Noted c e where
  heard := heard
  blamed := by
    intro exc failure
    cases e with
    | ended _ _ completion =>
        cases completion <;> simp_all [Event.fails, Event.failure?]
    | sourceFailed _ _ _ _ => simp [Event.fails] at harmless
    | pulled | called | deadline | sentinel => simp [Event.failure?] at failure
  source := by
    rintro _ _ _ _ rfl
    simp [Event.fails] at harmless

end Call

structure Frame (c d : Child χ ε) : Prop where
  pc : d.pc = c.pc
  ended : d.ended = c.ended
  flagged : c.groupCancelled = true → d.groupCancelled = true
  throws : d.task.throws = true → c.task.throws = true ∨ d.groupCancelled = true

theorem Frame.refl (c : Child χ ε) : Frame c c := ⟨rfl, rfl, id, Or.inl⟩

theorem Frame.of_eq {c d : Child χ ε} (same : d = c) : Frame c d := same ▸ Frame.refl c

theorem Frame.trans {b c d : Child χ ε} (first : Frame b c) (second : Frame c d) : Frame b d where
  pc := second.pc.trans first.pc
  ended := second.ended.trans first.ended
  flagged := fun flag => second.flagged (first.flagged flag)
  throws := by
    intro throws
    rcases second.throws throws with before | flag
    · exact (first.throws before).imp_right second.flagged
    · exact Or.inr flag

theorem Frame.cancel (c : Child χ ε) : Frame c c.cancel where
  pc := Child.cancel_pc c
  ended := Child.cancel_ended c
  flagged := by
    intro flag
    unfold Child.cancel
    split
    · exact flag
    · rfl
  throws := by
    intro throws
    unfold Child.cancel at throws ⊢
    split at throws
    · exact Or.inl throws
    · rename_i alive
      simp [alive]

theorem Frame.fulfil {c d : Child χ ε} (pc : d.pc = c.pc) (ended : d.ended = c.ended)
    (flag : d.groupCancelled = c.groupCancelled) (task : d.task = c.task.fulfil) : Frame c d where
  pc := pc
  ended := ended
  flagged := fun flagged => flag.trans flagged
  throws := by
    intro throws
    left
    simpa [task, Task.throws] using Or.inl (by simpa [task, Task.throws] using throws)

theorem Call.loopStep_child {c d : Call χ α β σ ε} {a : Call.LoopAct}
    (stepped : c.loopStep a = some d) (j : Nat) :
    d.child j = c.child j ∨ d.child j = (c.child j).cancel := by
  have all : ∀ tasks, Scope.cancelAll tasks c.child j = c.child j ∨
      Scope.cancelAll tasks c.child j = (c.child j).cancel := by
    intro tasks
    unfold Scope.cancelAll
    split
    · exact Or.inr rfl
    · exact Or.inl rfl
  cases a with
  | cancelCaller =>
      simp only [Call.loopStep] at stepped
      split at stepped <;> simp only [Option.some.injEq, reduceCtorEq] at stepped
      exact Or.inl (stepped ▸ rfl)
  | rearm entryCancelling entryProbe =>
      simp only [Call.loopStep] at stepped
      split at stepped <;> simp only [Option.some.injEq, reduceCtorEq] at stepped
      exact Or.inl (stepped ▸ rfl)
  | wakeCaller =>
      simp only [Call.loopStep] at stepped
      split at stepped <;> simp only [Option.some.injEq, reduceCtorEq] at stepped
      rw [← stepped, Call.wakeCaller_child]
      simp only [Scope.wake]
      split
      · exact all _
      · exact Or.inl rfl
  | taskDone i =>
      simp only [Call.loopStep] at stepped
      split at stepped
      · split at stepped <;> simp only [Option.some.injEq, reduceCtorEq] at stepped
        rw [← stepped]
        simp only [Scope.taskDone]
        split
        · exact all _
        · exact Or.inl rfl
      · simp at stepped

theorem Call.loopStep_other {c d : Call χ α β σ ε} {a : Call.LoopAct}
    (stepped : c.loopStep a = some d) {j : Nat} (absent : j ∉ c.group.tasks) :
    d.child j = c.child j := by
  have none : ∀ tasks, (∀ i ∈ tasks, i ∈ c.group.tasks) → Scope.cancelAll tasks c.child j = c.child j := by
    intro tasks fewer
    unfold Scope.cancelAll
    split
    · rename_i member
      exact absurd (fewer j member) absent
    · rfl
  cases a with
  | cancelCaller =>
      simp only [Call.loopStep] at stepped
      split at stepped <;> simp only [Option.some.injEq, reduceCtorEq] at stepped
      exact stepped ▸ rfl
  | rearm entryCancelling entryProbe =>
      simp only [Call.loopStep] at stepped
      split at stepped <;> simp only [Option.some.injEq, reduceCtorEq] at stepped
      exact stepped ▸ rfl
  | wakeCaller =>
      simp only [Call.loopStep] at stepped
      split at stepped <;> simp only [Option.some.injEq, reduceCtorEq] at stepped
      rw [← stepped, Call.wakeCaller_child]
      simp only [Scope.wake]
      split
      · refine none _ fun i member => ?_
        rw [Scope.wake_group, TaskGroup.caught] at member
        split at member <;> exact member
      · rfl
  | taskDone i =>
      simp only [Call.loopStep] at stepped
      split at stepped
      · split at stepped <;> simp only [Option.some.injEq, reduceCtorEq] at stepped
        rw [← stepped]
        simp only [Scope.taskDone]
        split
        · refine none _ fun i member => ?_
          rw [(Scope.taskDone_group _ _ _ _ _).1] at member
          exact List.mem_of_mem_erase member
        · rfl
      · simp at stepped

/-- While the group does not abort, a step of the loop leaves the tasks alone. -/
theorem Call.loopStep_calm {c d : Call χ α β σ ε} {a : Call.LoopAct}
    (stepped : c.loopStep a = some d) (calm : d.group.aborting = false) :
    d.child = c.child ∧ c.group.aborting = false := by
  cases a with
  | cancelCaller =>
      simp only [Call.loopStep] at stepped
      split at stepped <;> simp only [Option.some.injEq, reduceCtorEq] at stepped
      exact stepped ▸ ⟨rfl, (congrArg (·.group.aborting) stepped).trans calm⟩
  | rearm entryCancelling entryProbe =>
      simp only [Call.loopStep] at stepped
      split at stepped <;> simp only [Option.some.injEq, reduceCtorEq] at stepped
      exact stepped ▸ ⟨rfl, (congrArg (·.group.aborting) stepped).trans calm⟩
  | wakeCaller =>
      simp only [Call.loopStep] at stepped
      split at stepped <;> simp only [Option.some.injEq, reduceCtorEq] at stepped
      rw [← stepped, Call.wakeCaller_group] at calm
      rw [← stepped, Call.wakeCaller_child]
      have before : c.group.aborting = false := by
        have quiet : (c.group.caught c.parent.throws).aborting = false := Scope.wake_group c.group c.parent ▸ calm
        unfold TaskGroup.caught at quiet
        split at quiet
        · simp at quiet
        · exact quiet
      refine ⟨?_, before⟩
      have calm : (c.group.wake c.parent).1.aborting = false := calm
      simp [Scope.wake, calm]
  | taskDone i =>
      simp only [Call.loopStep] at stepped
      split at stepped
      · rename_i ended _
        split at stepped <;> simp only [Option.some.injEq, reduceCtorEq] at stepped
        rw [← stepped] at calm ⊢
        have calm : (c.group.taskDone Exc.isBaseError c.parent i ended).1.aborting = false := calm
        refine ⟨by simp [Scope.taskDone, calm], ?_⟩
        rw [← Bool.not_eq_true]
        intro aborting
        simp [Scope.taskDone_aborting Exc.isBaseError c.group c.parent i ended aborting] at calm
      · simp at stepped

theorem Frame.loopStep {c d : Call χ α β σ ε} {a : Call.LoopAct} (stepped : c.loopStep a = some d)
    (j : Nat) : Frame (c.child j) (d.child j) := by
  rcases Call.loopStep_child stepped j with same | cancelled
  · exact Frame.of_eq same
  · exact cancelled ▸ Frame.cancel _

namespace Call

/-- A step of the loop is no step of a task: the log, the latch and the running
task stay, and a task leaves the group only when it has ended. -/
theorem loopStep_same {c d : Call χ α β σ ε} {a : LoopAct} (stepped : c.loopStep a = some d) :
    d.log = c.log ∧ d.failed = c.failed ∧ d.running = c.running ∧
      (∀ j, j ∈ d.group.tasks → j ∈ c.group.tasks) ∧
      (∀ j, j ∈ c.group.tasks → j ∉ d.group.tasks → (c.child j).ended ≠ none) := by
  cases a with
  | cancelCaller =>
      simp only [Call.loopStep] at stepped
      split at stepped <;> simp only [Option.some.injEq, reduceCtorEq] at stepped
      subst stepped
      exact ⟨rfl, rfl, rfl, fun _ member => member, fun _ member left => absurd member left⟩
  | rearm entryCancelling entryProbe =>
      simp only [Call.loopStep] at stepped
      split at stepped <;> simp only [Option.some.injEq, reduceCtorEq] at stepped
      subst stepped
      exact ⟨rfl, rfl, rfl, fun _ member => member, fun _ member left => absurd member left⟩
  | wakeCaller =>
      simp only [Call.loopStep] at stepped
      split at stepped <;> simp only [Option.some.injEq, reduceCtorEq] at stepped
      subst stepped
      have tasks : c.wakeCaller.group.tasks = c.group.tasks := by
        rw [wakeCaller_group]
        show (c.group.wake c.parent).1.tasks = _
        rw [Scope.wake_group, TaskGroup.caught]
        split <;> rfl
      refine ⟨?_, ?_, ?_, fun j member => tasks ▸ member, fun j member left => ?_⟩
      · unfold wakeCaller; rfl
      · unfold wakeCaller; rfl
      · unfold wakeCaller; rfl
      · exact absurd (tasks ▸ member) left
  | taskDone i =>
      simp only [Call.loopStep] at stepped
      split at stepped
      · rename_i ended found
        split at stepped <;> simp only [Option.some.injEq, reduceCtorEq] at stepped
        subst stepped
        have tasks : (c.group.taskDone Exc.isBaseError c.parent i ended).1.tasks =
            c.group.tasks.erase i := (Scope.taskDone_group _ _ _ _ _).1
        refine ⟨rfl, rfl, rfl, ?_, ?_⟩
        · intro j member
          exact List.mem_of_mem_erase (tasks ▸ member)
        · intro j member left
          by_cases same : j = i
          · simp [same, found]
          · refine absurd ?_ left
            show j ∈ (c.group.taskDone Exc.isBaseError c.parent i ended).1.tasks
            rw [tasks]
            exact (List.mem_erase_of_ne same).mpr member
      · simp at stepped

theorem userStep_same {c d : Call χ α β σ ε} {inUser : χ → Bool} {a : UserAct}
    (stepped : c.userStep inUser a = some d) :
    d.log = c.log ∧ d.failed = c.failed ∧ d.group = c.group ∧ c.exit = none ∧
      (∃ task, d.child = (c.setTask a.task task).child) ∧
      (inUser (c.child a.task).pc = true ∧ (c.running = some a.task ∨ c.live a.task = true)) ∧
      (c.running = none ∨ c.running = some a.task) ∧
      (d.running = none ∨ d.running = some a.task) := by
  cases a <;> simp only [Call.userStep, Option.isNone_iff_eq_none] at stepped <;>
    split at stepped <;> simp only [Option.some.injEq, reduceCtorEq] at stepped <;>
    rename_i ready <;> subst stepped
  case resume i =>
    exact ⟨rfl, rfl, rfl, ready.1, ⟨_, rfl⟩, ⟨ready.2.2.2, Or.inr ready.2.2.1⟩, Or.inl ready.2.1,
      Or.inr rfl⟩
  case suspend i =>
    exact ⟨rfl, rfl, rfl, ready.1, ⟨_, rfl⟩, ⟨ready.2.2, Or.inl ready.2.1⟩, Or.inr ready.2.1,
      Or.inl rfl⟩
  case cancelSelf i =>
    exact ⟨rfl, rfl, rfl, ready.1, ⟨_, rfl⟩, ⟨ready.2.2, Or.inl ready.2.1⟩, Or.inr ready.2.1,
      Or.inr ready.2.1⟩
  case uncancelSelf i =>
    exact ⟨rfl, rfl, rfl, ready.1, ⟨_, rfl⟩, ⟨ready.2.2, Or.inl ready.2.1⟩, Or.inr ready.2.1,
      Or.inr ready.2.1⟩

theorem LateAct.after_waiter (task : Task) (act : LateAct) : (act.after task).waiter = task.waiter ∨
    task.waiter = some .pending ∧ (act.after task).waiter = some .cancelled := by
  have cancelled : ∀ t : Task, t.waiter = task.waiter → t.cancel.waiter = task.waiter ∨
      task.waiter = some .pending ∧ t.cancel.waiter = some .cancelled := by
    intro t same
    rw [Task.cancel_waiter, same]
    split
    · rename_i pending
      exact Or.inr ⟨pending, rfl⟩
    · exact Or.inl rfl
  cases act with
  | cancel i => exact cancelled task rfl
  | uncancel i => exact Or.inl rfl
  | rearm i rearms entryCancelling entryProbe =>
      rcases rearm_cases ⟨task, rearms⟩ false entryCancelling entryProbe with same | moved
      · exact Or.inl (by simp only [after, same])
      · simpa only [after, moved] using cancelled task.uncancel rfl

theorem LateAct.after_throws {task : Task} (act : LateAct) (throws : task.throws = true) :
    (act.after task).throws = true := by
  cases act with
  | cancel i => exact Task.cancel_throws _
  | uncancel i => exact throws
  | rearm i rearms entryCancelling entryProbe =>
      rcases rearm_cases ⟨task, rearms⟩ false entryCancelling entryProbe with same | moved
      · simpa only [after, same] using throws
      · simp only [after, moved, Task.cancel_throws]

theorem setTask_child (c : Call χ α β σ ε) (i j : Nat) (task : Task) :
    (c.setTask i task).child j = if j = i then { c.child i with task := task } else c.child j := by
  simp only [Call.setTask, Call.setChild, Function.update_apply]

theorem fulfil_child (c : Call χ α β σ ε) (woken : Option Nat) (j : Nat) :
    (c.fulfil woken).child j = if woken = some j then
      { c.child j with task := (c.child j).task.fulfil } else c.child j := by
  cases woken with
  | none => rfl
  | some i =>
      simp only [fulfil, setTask_child, Option.some.injEq, eq_comm (a := i)]
      split
      · rename_i here
        rw [here]
      · rfl

end Call

end AsyncPipelines
