import AsyncPipelines.Core.CancelProbe
import AsyncPipelines.Lib.Runs

/-!
The whole `async with _TaskGroup()` statement on 3.11 and 3.12, its body included, and what
it does to the cancel count of the task that runs it. The children may do anything: all
that reaches the group is that they are created and that they end.
-/

namespace AsyncPipelines

open Asyncio

variable {ε : Type}

/-- The cancel requests of the caller's task, by who made and withdrew them. `idle` counts the
calls of `uncancel()` that found nothing to withdraw. -/
structure Ledger where
  made : Nat := 0
  withdrawn : Nat := 0
  asked : Nat := 0
  undone : Nat := 0
  idle : Nat := 0
  deriving DecidableEq, Repr

def Ledger.withdraw (l : Ledger) (count : Nat) : Ledger :=
  { l with withdrawn := l.withdrawn + 1, idle := l.idle + if count = 0 then 1 else 0 }

def Ledger.undo (l : Ledger) (count : Nat) : Ledger :=
  { l with undone := l.undone + 1, idle := l.idle + if count = 0 then 1 else 0 }

inductive ExitStage (ε : Type)
  | body
  | waiting (raised : Option ε)
  | left (exit : Exit ε)

/-- An open group, the task that runs the statement, and what `__aexit__` has read of the
group's own request on entry. -/
structure OpenGroup (ε : Type) where
  parent : Task
  group : TaskGroup ε := {}
  requestedBefore : Bool := false
  stage : ExitStage ε := .body
  ledger : Ledger := {}

namespace OpenGroup

/-- `TaskGroup.__aexit__` after its loop, where the body may have raised. -/
def leave (g : TaskGroup ε) (raised : Option ε) : Exit ε :=
  match g.baseError with
  | some error => .base error
  | none =>
      if g.propagate ∧ g.errors = [] then .cancelled
      else if g.errors ++ raised.toList = [] then .returned
      else .group (g.errors ++ raised.toList)

/-- `_TaskGroup.__aexit__` after that of its base class. -/
def finish (s : OpenGroup ε) (raised : Option ε) : OpenGroup ε :=
  match leave s.group raised with
  | .group errors =>
      let undoes := s.group.parentCancelRequested && !s.requestedBefore
      { s with
        parent := undoOwnRequest s.group s.requestedBefore s.parent
        stage := .left (.group errors)
        ledger := if undoes then s.ledger.undo s.parent.cancelling else s.ledger }
  | exit => { s with stage := .left exit }

/-- The loop in `TaskGroup.__aexit__`, at its condition. -/
def awaitTasks (s : OpenGroup ε) (raised : Option ε) : OpenGroup ε :=
  if s.group.tasks = [] then s.finish raised
  else { s with parent := s.parent.await, stage := .waiting raised }

/-- `__aexit__` is called: the body has ended so. -/
def leaveBody (isBase : ε → Bool) (s : OpenGroup ε) (ended : TaskEnd ε) : OpenGroup ε :=
  let requested := s.group.parentCancelRequested
  let parent := if requested then s.parent.uncancel else s.parent
  let own : TaskGroup ε × Option ε := match ended with
    | .raised error =>
        ({ s.group with
            aborting := true
            baseError := s.group.baseError.or (if isBase error then some error else none) }, some error)
    | .cancelled =>
        ({ s.group with aborting := true, propagate := !requested || parent.cancelling != 0 }, none)
    | .returned => (s.group, none)
  { s with
    parent := parent
    group := own.1
    requestedBefore := requested
    ledger := if requested then s.ledger.undo s.parent.cancelling else s.ledger
    : OpenGroup ε }.awaitTasks own.2

/-- `create`, `suspend`, `resume` and `fulfil` are what the body does and waits for, `cancel` and
`uncancel` are calls on the caller's task from anywhere but the group, and `taskDone` is the
done callback of a child. -/
inductive Act (ε : Type)
  | create (i : Nat)
  | suspend
  | resume
  | fulfil
  | cancel
  | uncancel
  | taskDone (i : Nat) (ended : TaskEnd ε)
  | leaveBody (ended : TaskEnd ε)
  | wake

def cancel (s : OpenGroup ε) : OpenGroup ε :=
  { s with parent := s.parent.cancel, ledger := { s.ledger with made := s.ledger.made + 1 } }

def withdraw (s : OpenGroup ε) : OpenGroup ε :=
  { s with parent := s.parent.uncancel, ledger := s.ledger.withdraw s.parent.cancelling }

def Act.isCancel : Act ε → Bool
  | cancel => true
  | _ => false

def Act.isUncancel : Act ε → Bool
  | uncancel => true
  | _ => false

def taskDone (isBase : ε → Bool) (s : OpenGroup ε) (i : Nat) (ended : TaskEnd ε) : OpenGroup ε :=
  let next := s.group.taskDone isBase s.parent i ended
  { s with
    group := next.1
    parent := next.2
    ledger := if next.1.parentCancelRequested && !s.group.parentCancelRequested then
      { s.ledger with asked := s.ledger.asked + 1 } else s.ledger }

def step (isBase : ε → Bool) (s : OpenGroup ε) : Act ε → Option (OpenGroup ε)
  | .cancel =>
      match s.stage with
      | .left _ => none
      | _ => some s.cancel
  | .uncancel =>
      match s.stage with
      | .left _ => none
      | _ => some s.withdraw
  | .create i =>
      let created := { s with group := { s.group with tasks := s.group.tasks ++ [i] } }
      match s.stage with
      | .body => if i ∉ s.group.tasks ∧ s.group.aborting = false then some created else none
      | .waiting _ =>
          if i ∉ s.group.tasks ∧ s.group.aborting = false ∧ s.group.tasks ≠ [] then some created
          else none
      | .left _ => none
  | .suspend =>
      match s.stage with
      | .body => if s.parent.waiter = none then some { s with parent := s.parent.await } else none
      | _ => none
  | .resume =>
      match s.stage with
      | .body => if s.parent.woken then some { s with parent := s.parent.resume } else none
      | _ => none
  | .fulfil =>
      match s.stage with
      | .body =>
          if s.parent.waiter = some .pending then some { s with parent := s.parent.fulfil } else none
      | _ => none
  | .taskDone i ended =>
      match s.stage with
      | .left _ => none
      | _ =>
          -- callbacks run between the steps of the caller
          if s.parent.waiter ≠ none ∧ i ∈ s.group.tasks then some (s.taskDone isBase i ended) else none
  | .leaveBody ended =>
      match s.stage with
      | .body => if s.parent.waiter = none then some (s.leaveBody isBase ended) else none
      | _ => none
  | .wake =>
      match s.stage with
      | .waiting raised =>
          if s.parent.woken then
            some ({ s with
              group := s.group.caught s.parent.throws
              parent := s.parent.resume }.awaitTasks raised)
          else none
      | _ => none

def enter (task : Task) : OpenGroup ε := { parent := task }

structure Counted (entry : Nat) (s : OpenGroup ε) : Prop where
  count : s.parent.cancelling + s.ledger.withdrawn + s.ledger.undone =
    entry + s.ledger.made + s.ledger.asked + s.ledger.idle
  asked : s.ledger.asked = if s.group.parentCancelRequested then 1 else 0
  before : s.requestedBefore = true → s.group.parentCancelRequested = true

structure Balanced (entry : Nat) (s : OpenGroup ε) : Prop extends Counted entry s where
  undone : match s.stage with
    | .body => s.ledger.undone = 0
    | .waiting _ => s.ledger.undone = if s.requestedBefore then 1 else 0
    | .left (.group _) => s.ledger.undone = s.ledger.asked
    | .left _ => True

section

variable {s t : OpenGroup ε} {entry : Nat} {isBase : ε → Bool}

theorem Balanced.enter (task : Task) : Balanced task.cancelling (enter task : OpenGroup ε) :=
  ⟨⟨by simp [OpenGroup.enter], rfl, by simp [OpenGroup.enter]⟩, rfl⟩

theorem uncancel_count (task : Task) :
    task.uncancel.cancelling + 1 = task.cancelling + if task.cancelling = 0 then 1 else 0 := by
  have counted : task.uncancel.cancelling = task.cancelling - 1 := rfl
  split <;> omega

theorem Counted.finish {raised : Option ε} (counted : Counted entry s)
    (waits : s.ledger.undone = if s.requestedBefore then 1 else 0) :
    Balanced entry (s.finish raised) := by
  have count := counted.count
  have asked := counted.asked
  unfold OpenGroup.finish
  split
  · rename_i errors _
    by_cases undoes : s.group.parentCancelRequested = true ∧ s.requestedBefore = false
    · have own := uncancel_count s.parent
      refine ⟨⟨?_, ?_, ?_⟩, ?_⟩
      · simp only [undoOwnRequest, undoes, Bool.not_false, Bool.and_self, ↓reduceIte, Ledger.undo]
        omega
      · simpa [undoes, Ledger.undo] using asked
      · simp [undoes]
      · simp only [undoes, Bool.not_false, Bool.and_self, ↓reduceIte, Ledger.undo]
        simp only [undoes, ↓reduceIte, Bool.false_eq_true] at waits asked
        omega
    · have keeps : (s.group.parentCancelRequested && !s.requestedBefore) = false := by
        rw [← Bool.not_eq_true]
        simpa using undoes
      refine ⟨⟨?_, ?_, ?_⟩, ?_⟩
      · simpa [undoOwnRequest, keeps] using count
      · simpa [keeps] using asked
      · exact counted.before
      · have before := counted.before
        simp only [keeps, Bool.false_eq_true, ↓reduceIte]
        rw [waits, asked]
        cases requested : s.requestedBefore with
        | true => simp [before requested]
        | false => simpa [requested] using keeps
  · rename_i other
    refine ⟨⟨count, asked, counted.before⟩, ?_⟩
    split
    · rename_i inBody
      cases inBody
    · rename_i inWait
      cases inWait
    · rename_i isGroup
      exact absurd (ExitStage.left.inj isGroup) (other _)
    · trivial

theorem Counted.awaitTasks {raised : Option ε} (counted : Counted entry s)
    (waits : s.ledger.undone = if s.requestedBefore then 1 else 0) :
    Balanced entry (s.awaitTasks raised) := by
  unfold OpenGroup.awaitTasks
  split
  · exact counted.finish waits
  · refine ⟨⟨?_, counted.asked, counted.before⟩, waits⟩
    simpa using counted.count

theorem Balanced.leaveBody (balanced : Balanced entry s) (inBody : s.stage = .body) (ended : TaskEnd ε) :
    Balanced entry (s.leaveBody isBase ended) := by
  have count := balanced.count
  have asked := balanced.asked
  have none : s.ledger.undone = 0 := by
    have undone := balanced.undone
    rwa [inBody] at undone
  have requests : ∀ g : TaskGroup ε, g.parentCancelRequested = s.group.parentCancelRequested →
      ∀ raised, Balanced entry (OpenGroup.awaitTasks
        { s with
          parent := if s.group.parentCancelRequested then s.parent.uncancel else s.parent
          group := g
          requestedBefore := s.group.parentCancelRequested
          ledger := if s.group.parentCancelRequested then s.ledger.undo s.parent.cancelling
            else s.ledger } raised) := by
    intro g same raised
    cases requested : s.group.parentCancelRequested with
    | false =>
        simp only [Bool.false_eq_true, ↓reduceIte]
        refine Counted.awaitTasks ⟨count, ?_, by simp⟩ none
        simpa [same, requested] using asked
    | true =>
        have own := uncancel_count s.parent
        simp only [requested, ↓reduceIte] at asked
        refine Counted.awaitTasks ⟨?_, ?_, ?_⟩ ?_
        · simp only [↓reduceIte, Ledger.undo]
          omega
        · simpa [same, requested, Ledger.undo] using asked
        · exact fun _ => same.trans requested
        · simpa [Ledger.undo] using none
  cases ended with
  | returned =>
      apply requests
      rfl
  | cancelled =>
      apply requests
      rfl
  | raised error =>
      apply requests
      rfl

theorem taskDone_count (isBase : ε → Bool) (g : TaskGroup ε) (parent : Task) (i : Nat)
    (ended : TaskEnd ε) :
    ((g.taskDone isBase parent i ended).1.parentCancelRequested = g.parentCancelRequested ∧
      (g.taskDone isBase parent i ended).2.cancelling = parent.cancelling) ∨
    (g.parentCancelRequested = false ∧
      (g.taskDone isBase parent i ended).1.parentCancelRequested = true ∧
      (g.taskDone isBase parent i ended).2.cancelling = parent.cancelling + 1) := by
  have woken : ∀ c : Prop, [Decidable c] →
      (if c then parent.fulfil else parent).cancelling = parent.cancelling := by
    intro c _
    split <;> rfl
  cases ended with
  | returned => exact .inl ⟨rfl, woken _⟩
  | cancelled => exact .inl ⟨rfl, woken _⟩
  | raised error =>
      simp only [TaskGroup.taskDone]
      split
      · exact .inl ⟨rfl, woken _⟩
      · rename_i first
        have asks : g.parentCancelRequested = false := by
          simp only [Bool.or_eq_true, not_or, Bool.not_eq_true] at first
          exact first.2
        exact .inr ⟨asks, rfl, by rw [Task.cancel_cancelling, woken]⟩

theorem Balanced.taskDone (balanced : Balanced entry s) (open_ : ∀ exit, s.stage ≠ .left exit) (i : Nat)
    (ended : TaskEnd ε) : Balanced entry (s.taskDone isBase i ended) := by
  have count := balanced.count
  have asked := balanced.asked
  have undone := balanced.undone
  rcases taskDone_count isBase s.group s.parent i ended with ⟨same, kept⟩ | ⟨first, asks, grown⟩
  · have still : ((s.group.taskDone isBase s.parent i ended).1.parentCancelRequested &&
        !s.group.parentCancelRequested) = false := by
      rw [same]
      simp
    refine ⟨⟨?_, ?_, ?_⟩, ?_⟩
    · simpa [OpenGroup.taskDone, still, kept] using count
    · simpa [OpenGroup.taskDone, still, same] using asked
    · simpa [OpenGroup.taskDone, same] using balanced.before
    · simpa only [OpenGroup.taskDone, still, Bool.false_eq_true, ↓reduceIte] using undone
  · simp only [first, Bool.false_eq_true, ↓reduceIte] at asked
    refine ⟨⟨?_, ?_, ?_⟩, ?_⟩
    · simp only [OpenGroup.taskDone, first, asks, grown, Bool.not_false, Bool.and_self, ↓reduceIte]
      omega
    · simp [OpenGroup.taskDone, first, asks, asked]
    · exact fun _ => asks
    · simp only [OpenGroup.taskDone, first, asks, Bool.not_false, Bool.and_self, ↓reduceIte]
      split
      · rename_i inBody
        simpa [inBody] using undone
      · rename_i inWait
        simpa [inWait] using undone
      · rename_i gone
        exact absurd gone (open_ _)
      · trivial

theorem Balanced.cancel (balanced : Balanced entry s) : Balanced entry s.cancel := by
  have count := balanced.count
  refine ⟨⟨?_, balanced.asked, balanced.before⟩, balanced.undone⟩
  simp only [OpenGroup.cancel, Task.cancel_cancelling]
  omega

theorem Balanced.withdraw (balanced : Balanced entry s) : Balanced entry s.withdraw := by
  have count := balanced.count
  have own := uncancel_count s.parent
  refine ⟨⟨?_, balanced.asked, balanced.before⟩, balanced.undone⟩
  simp only [OpenGroup.withdraw, Ledger.withdraw]
  omega

theorem Balanced.step {a : Act ε} (balanced : Balanced entry s) (stepped : OpenGroup.step isBase s a = some t) :
    Balanced entry t := by
  have count := balanced.count
  have undone := balanced.undone
  cases inStage : s.stage with
  | left exit => cases a <;> simp [OpenGroup.step, inStage] at stepped
  | body =>
      rw [inStage] at undone
      cases a with
      | wake => simp [OpenGroup.step, inStage] at stepped
      | leaveBody ended =>
          simp only [OpenGroup.step, inStage] at stepped
          split at stepped <;> simp only [Option.some.injEq, reduceCtorEq] at stepped
          exact stepped ▸ balanced.leaveBody inStage ended
      | taskDone i ended =>
          simp only [OpenGroup.step, inStage] at stepped
          split at stepped <;> simp only [Option.some.injEq, reduceCtorEq] at stepped
          exact stepped ▸ balanced.taskDone (by simp [inStage]) i ended
      | cancel =>
          simp only [OpenGroup.step, inStage, Option.some.injEq] at stepped
          exact stepped ▸ balanced.cancel
      | uncancel =>
          simp only [OpenGroup.step, inStage, Option.some.injEq] at stepped
          exact stepped ▸ balanced.withdraw
      | _ =>
          simp only [OpenGroup.step, inStage] at stepped
          split at stepped <;> simp only [Option.some.injEq, reduceCtorEq] at stepped
          subst stepped
          exact ⟨⟨by simpa using count, balanced.asked, balanced.before⟩, by simpa [inStage] using undone⟩
  | waiting raised =>
      rw [inStage] at undone
      cases a with
      | wake =>
          simp only [OpenGroup.step, inStage] at stepped
          split at stepped <;> simp only [Option.some.injEq, reduceCtorEq] at stepped
          subst stepped
          have same : (s.group.caught s.parent.throws).parentCancelRequested =
              s.group.parentCancelRequested := by
            unfold TaskGroup.caught
            split <;> rfl
          refine Counted.awaitTasks ⟨by simpa using count, ?_, ?_⟩ undone
          · simpa [same] using balanced.asked
          · simpa [same] using balanced.before
      | taskDone i ended =>
          simp only [OpenGroup.step, inStage] at stepped
          split at stepped <;> simp only [Option.some.injEq, reduceCtorEq] at stepped
          exact stepped ▸ balanced.taskDone (by simp [inStage]) i ended
      | cancel =>
          simp only [OpenGroup.step, inStage, Option.some.injEq] at stepped
          exact stepped ▸ balanced.cancel
      | uncancel =>
          simp only [OpenGroup.step, inStage, Option.some.injEq] at stepped
          exact stepped ▸ balanced.withdraw
      | create i =>
          simp only [OpenGroup.step, inStage] at stepped
          split at stepped <;> simp only [Option.some.injEq, reduceCtorEq] at stepped
          subst stepped
          exact ⟨⟨count, balanced.asked, balanced.before⟩, by simpa [inStage] using undone⟩
      | _ => simp [OpenGroup.step, inStage] at stepped

theorem finish_ledger (raised : Option ε) :
    (s.finish raised).ledger = s.ledger ∨
      s.group.parentCancelRequested = true ∧ s.requestedBefore = false ∧
        (s.finish raised).ledger = s.ledger.undo s.parent.cancelling := by
  unfold OpenGroup.finish
  split
  · by_cases undoes : (s.group.parentCancelRequested && !s.requestedBefore) = true
    · simp only [undoes, ↓reduceIte, and_true]
      right
      simpa using undoes
    · left
      simp [undoes]
  · exact .inl rfl

theorem awaitTasks_ledger (raised : Option ε) :
    (s.awaitTasks raised).ledger = s.ledger ∨
      s.group.parentCancelRequested = true ∧ s.requestedBefore = false ∧
        (s.awaitTasks raised).ledger = s.ledger.undo s.parent.cancelling := by
  unfold OpenGroup.awaitTasks
  split
  · exact finish_ledger raised
  · exact .inl rfl

/-- The calls on the caller's task are the requests made and withdrawn. -/
theorem step_ledger {a : Act ε} (stepped : OpenGroup.step isBase s a = some t) :
    t.ledger.made = s.ledger.made + (if a.isCancel then 1 else 0) ∧
      t.ledger.withdrawn = s.ledger.withdrawn + (if a.isUncancel then 1 else 0) := by
  have waits : ∀ (v : OpenGroup ε) raised, (v.awaitTasks raised).ledger.made = v.ledger.made ∧
      (v.awaitTasks raised).ledger.withdrawn = v.ledger.withdrawn := by
    intro v raised
    rcases awaitTasks_ledger (s := v) raised with same | ⟨_, _, undoes⟩
    · rw [same]
      exact ⟨rfl, rfl⟩
    · rw [undoes]
      exact ⟨rfl, rfl⟩
  have undoes : ∀ (c : Prop) [Decidable c] count,
      (if c then s.ledger.undo count else s.ledger).made = s.ledger.made ∧
      (if c then s.ledger.undo count else s.ledger).withdrawn = s.ledger.withdrawn := by
    intro c _ count
    split <;> exact ⟨rfl, rfl⟩
  cases a with
  | leaveBody ended =>
      simp only [OpenGroup.step] at stepped
      split at stepped
      · split at stepped <;> simp only [Option.some.injEq, reduceCtorEq] at stepped
        subst stepped
        obtain ⟨made, withdrawn⟩ := waits _ _
        exact ⟨made.trans (undoes _ _).1, withdrawn.trans (undoes _ _).2⟩
      · simp at stepped
  | wake =>
      simp only [OpenGroup.step] at stepped
      split at stepped
      · split at stepped <;> simp only [Option.some.injEq, reduceCtorEq] at stepped
        subst stepped
        exact waits _ _
      · simp at stepped
  | taskDone i ended =>
      simp only [OpenGroup.step] at stepped
      split at stepped
      · simp at stepped
      · split at stepped <;> simp only [Option.some.injEq, reduceCtorEq] at stepped
        subst stepped
        simp only [OpenGroup.taskDone, Act.isCancel, Act.isUncancel, Bool.false_eq_true, ↓reduceIte]
        split <;> exact ⟨rfl, rfl⟩
  | cancel =>
      simp only [OpenGroup.step] at stepped
      split at stepped <;> simp only [Option.some.injEq, reduceCtorEq] at stepped
      subst stepped
      exact ⟨rfl, rfl⟩
  | uncancel =>
      simp only [OpenGroup.step] at stepped
      split at stepped <;> simp only [Option.some.injEq, reduceCtorEq] at stepped
      subst stepped
      exact ⟨rfl, rfl⟩
  | create i =>
      simp only [OpenGroup.step] at stepped
      split at stepped
      · split at stepped <;> simp only [Option.some.injEq, reduceCtorEq] at stepped
        subst stepped
        exact ⟨rfl, rfl⟩
      · split at stepped <;> simp only [Option.some.injEq, reduceCtorEq] at stepped
        subst stepped
        exact ⟨rfl, rfl⟩
      · simp at stepped
  | _ =>
      simp only [OpenGroup.step] at stepped
      split at stepped
      · split at stepped <;> simp only [Option.some.injEq, reduceCtorEq] at stepped
        subst stepped
        exact ⟨rfl, rfl⟩
      · simp at stepped

theorem run_ledger {acts : List (Act ε)} (ran : Runs.run (OpenGroup.step isBase) s acts = some t) :
    t.ledger.made = s.ledger.made + acts.countP Act.isCancel ∧
      t.ledger.withdrawn = s.ledger.withdrawn + acts.countP Act.isUncancel := by
  induction acts generalizing s with
  | nil =>
      simp only [Runs.run_nil, Option.some.injEq] at ran
      exact ran ▸ ⟨rfl, rfl⟩
  | cons a rest ih =>
      simp only [Runs.run_cons, Option.bind_eq_some_iff] at ran
      obtain ⟨next, stepped, ran⟩ := ran
      obtain ⟨made, withdrawn⟩ := ih ran
      obtain ⟨first, second⟩ := step_ledger stepped
      rw [List.countP_cons, List.countP_cons]
      omega

/-- While no more is withdrawn than others have requested, no call of `uncancel()` is idle. -/
theorem step_idle {a : Act ε} (balanced : Balanced entry s) (busy : s.ledger.idle = 0)
    (within : t.ledger.withdrawn ≤ entry + t.ledger.made)
    (stepped : OpenGroup.step isBase s a = some t) : t.ledger.idle = 0 := by
  have count := balanced.count
  have asked := balanced.asked
  have undone := balanced.undone
  obtain ⟨made, withdrawn⟩ := step_ledger stepped
  cases a with
  | uncancel =>
      simp only [OpenGroup.step] at stepped
      have some_count : s.ledger.undone ≤ s.ledger.asked → s.parent.cancelling ≠ 0 := by
        simp only [Act.isCancel, Act.isUncancel, Bool.false_eq_true, ↓reduceIte] at made withdrawn
        omega
      have fits : (∀ exit, s.stage ≠ .left exit) → s.ledger.undone ≤ s.ledger.asked := by
        intro open_
        split at undone
        · omega
        · have before := balanced.before
          cases requested : s.requestedBefore with
          | false => simp [undone, requested]
          | true => simp [undone, asked, requested, before requested]
        · rename_i gone
          exact absurd gone (open_ _)
        · rename_i gone
          exact absurd gone (open_ _)
      split at stepped <;> simp only [Option.some.injEq, reduceCtorEq] at stepped
      rename_i open_
      subst stepped
      have positive := some_count (fits fun exit gone => open_ exit gone)
      simp [OpenGroup.withdraw, Ledger.withdraw, busy, positive]
  | leaveBody ended =>
      simp only [OpenGroup.step] at stepped
      split at stepped
      · rename_i inBody
        rw [inBody] at undone
        split at stepped <;> simp only [Option.some.injEq, reduceCtorEq] at stepped
        have first : (if s.group.parentCancelRequested then s.ledger.undo s.parent.cancelling
            else s.ledger).idle = 0 := by
          split
          · rename_i requested
            simp only [requested, ↓reduceIte] at asked
            have positive : s.parent.cancelling ≠ 0 := by
              simp only [Act.isCancel, Act.isUncancel, Bool.false_eq_true, ↓reduceIte] at made withdrawn
              omega
            simp [Ledger.undo, busy, positive]
          · exact busy
        subst stepped
        rcases awaitTasks_ledger _ with same | ⟨requested, fresh, _⟩
        · exact (congrArg Ledger.idle same).trans first
        · have both : s.group.parentCancelRequested = true := by cases ended <;> exact requested
          have not_both : s.group.parentCancelRequested = false := fresh
          rw [both] at not_both
          cases not_both
      · simp at stepped
  | wake =>
      simp only [OpenGroup.step] at stepped
      split at stepped
      · rename_i raised inWait
        rw [inWait] at undone
        split at stepped <;> simp only [Option.some.injEq, reduceCtorEq] at stepped
        subst stepped
        rcases awaitTasks_ledger _ with same | ⟨requested, fresh, undoes⟩
        · exact (congrArg Ledger.idle same).trans busy
        · have requested : s.group.parentCancelRequested = true := by
            unfold TaskGroup.caught at requested
            split at requested <;> exact requested
          have fresh : s.requestedBefore = false := fresh
          simp only [requested, fresh, Bool.false_eq_true, ↓reduceIte] at asked undone
          have positive : s.parent.cancelling ≠ 0 := by
            simp only [Act.isCancel, Act.isUncancel, Bool.false_eq_true, ↓reduceIte] at made withdrawn
            omega
          rw [undoes]
          simp [Ledger.undo, busy, positive]
      · simp at stepped
  | taskDone i ended =>
      simp only [OpenGroup.step] at stepped
      split at stepped
      · simp at stepped
      · split at stepped <;> simp only [Option.some.injEq, reduceCtorEq] at stepped
        subst stepped
        simp only [OpenGroup.taskDone]
        split <;> exact busy
  | cancel =>
      simp only [OpenGroup.step] at stepped
      split at stepped <;> simp only [Option.some.injEq, reduceCtorEq] at stepped
      subst stepped
      exact busy
  | create i =>
      simp only [OpenGroup.step] at stepped
      split at stepped
      · split at stepped <;> simp only [Option.some.injEq, reduceCtorEq] at stepped
        subst stepped
        exact busy
      · split at stepped <;> simp only [Option.some.injEq, reduceCtorEq] at stepped
        subst stepped
        exact busy
      · simp at stepped
  | _ =>
      simp only [OpenGroup.step] at stepped
      split at stepped
      · split at stepped <;> simp only [Option.some.injEq, reduceCtorEq] at stepped
        subst stepped
        exact busy
      · simp at stepped

theorem balanced_of_run {task : Task} {acts : List (Act ε)}
    (ran : Runs.run (OpenGroup.step isBase) (OpenGroup.enter task) acts = some s) :
    Balanced task.cancelling s :=
  Runs.run_invariant (fun _ _ _ balanced stepped => balanced.step stepped) (Balanced.enter task) ran

end

/-- Where a group leaves with its errors, the count is what it was on entry with what others
have requested and withdrawn since, an idle `uncancel()` not counted, and the group has undone
its own request as often as it has made it. -/
theorem group_count_neutral (isBase : ε → Bool) (task : Task) (acts : List (Act ε))
    (s : OpenGroup ε) (errors : List ε)
    (ran : Runs.run (step isBase) (enter task) acts = some s)
    (left : s.stage = .left (.group errors)) :
    s.parent.cancelling + acts.countP Act.isUncancel =
        task.cancelling + acts.countP Act.isCancel + s.ledger.idle ∧
      s.ledger.undone = s.ledger.asked ∧ s.ledger.asked ≤ 1 ∧
      (Runs.Along (step isBase)
          (fun v => v.ledger.withdrawn ≤ task.cancelling + v.ledger.made) (enter task) acts →
        s.ledger.idle = 0) := by
  have balanced := balanced_of_run ran
  have count := balanced.count
  have asked := balanced.asked
  have undone := balanced.undone
  rw [left] at undone
  obtain ⟨made, withdrawn⟩ := run_ledger ran
  have none_made : (enter task : OpenGroup ε).ledger.made = 0 := rfl
  have none_withdrawn : (enter task : OpenGroup ε).ledger.withdrawn = 0 := rfl
  refine ⟨by omega, undone, by split at asked <;> omega, fun along => ?_⟩
  have kept := Runs.along_invariant
    (p := fun v => Balanced task.cancelling v ∧ v.ledger.idle = 0)
    (fun v a w _ within inv stepped => ⟨inv.1.step stepped, step_idle inv.1 inv.2 within stepped⟩)
    ⟨Balanced.enter task, rfl⟩ along ran
  exact kept.1.2

def cancelledThenFailed : List (Act Unit) :=
  [.create 0, .leaveBody .returned, .cancel, .taskDone 0 (.raised ()), .wake]

theorem group_count_neutral_cancelled :
    ∃ s, Runs.run (step fun _ => false) (enter {}) cancelledThenFailed = some s ∧
      s.stage = .left (.group [()]) ∧ s.parent.cancelling + 0 = 0 + 1 + s.ledger.idle ∧
      s.ledger.undone = s.ledger.asked := by
  obtain ⟨count, undone, _⟩ :=
    group_count_neutral (fun _ => false) {} cancelledThenFailed _ [()] rfl rfl
  exact ⟨_, rfl, rfl, count, undone⟩

/-- An `uncancel()` that finds no request leaves the count where it is, so the count is not
that of the calls. -/
theorem group_count_clamped :
    ∃ s, Runs.run (step fun _ => false) (enter {})
        [.uncancel, .cancel, .create 0, .leaveBody .returned, .taskDone 0 (.raised ()), .wake] = some s ∧
      s.stage = .left (.group [()]) ∧ s.parent.cancelling = 1 ∧
      ((s.parent.cancelling : Int) ≠ 0 + 1 - 1) :=
  ⟨_, rfl, rfl, rfl, by decide⟩

end OpenGroup

end AsyncPipelines
