import AsyncPipelines.Asyncio.Task
import Mathlib.Data.List.Basic
import Mathlib.Logic.Function.Basic

/-!
`asyncio.TaskGroup` from the moment its parent waits in `__aexit__`: the done
callback of a child, the wake-up of the parent, and what the group raises.
The invariant `Scope.Sound` says why a group is aborting and how it can end.
-/

namespace Asyncio

variable {χ ε : Type}

/-- The fields of `asyncio.TaskGroup`. `propagate` says that
`propagate_cancellation_error` is set; tasks are named by numbers. -/
structure TaskGroup (ε : Type) where
  tasks : List Nat := []
  aborting : Bool := false
  parentCancelRequested : Bool := false
  propagate : Bool := false
  errors : List ε := []
  baseError : Option ε := none

inductive Exit (ε : Type)
  | returned
  | cancelled
  | group (errors : List ε)
  | base (error : ε)

namespace TaskGroup

/-- `_on_task_done` for a task that ended so, without the cancellation of the
other tasks that `_abort` makes. -/
def taskDone (isBase : ε → Bool) (g : TaskGroup ε) (parent : Task) (i : Nat)
    (ended : TaskEnd ε) : TaskGroup ε × Task :=
  let g := { g with tasks := g.tasks.erase i }
  -- the last task sets the future that `__aexit__` waits on
  let parent := if g.tasks = [] ∧ parent.waiter = some .pending then parent.fulfil else parent
  match ended with
  | .raised error =>
      let g := { g with
        errors := g.errors ++ [error]
        baseError := g.baseError.or (if isBase error then some error else none) }
      if g.aborting || g.parentCancelRequested then (g, parent)
      else ({ g with aborting := true, parentCancelRequested := true }, parent.cancel)
  | _ => (g, parent)

/-- What `__aexit__` does once no task is left. -/
def outcome (g : TaskGroup ε) : Exit ε :=
  match g.baseError with
  | some error => .base error
  | none =>
      if g.propagate ∧ g.errors = [] then .cancelled
      else if g.errors = [] then .returned
      else .group g.errors

/-- The `except CancelledError` clause around the wait in `__aexit__`: the
cancellation aborts the group, unless the group is aborting already. -/
def caught (g : TaskGroup ε) (thrown : Bool) : TaskGroup ε :=
  if thrown && !g.aborting then { g with propagate := true, aborting := true } else g

/-- The parent is woken in `__aexit__` and waits again while a task is left. -/
def wake (g : TaskGroup ε) (parent : Task) : TaskGroup ε × Task × Option (Exit ε) :=
  let g := g.caught parent.throws
  if g.tasks = [] then (g, parent.resume, some g.outcome) else (g, parent.resume.await, none)

end TaskGroup

/-- A task of the group. `pc` is where its coroutine is suspended and
`groupCancelled` records that the group has cancelled it. -/
structure Child (χ ε : Type) where
  pc : χ
  task : Task := .fresh
  ended : Option (TaskEnd ε) := none
  groupCancelled : Bool := false

/-- `task.cancel()` as `_abort` calls it. -/
def Child.cancel (c : Child χ ε) : Child χ ε :=
  if c.ended.isSome then c else { c with task := c.task.cancel, groupCancelled := true }

@[simp] theorem Child.cancel_ended (c : Child χ ε) : c.cancel.ended = c.ended := by
  unfold Child.cancel
  split <;> rfl

@[simp] theorem Child.cancel_pc (c : Child χ ε) : c.cancel.pc = c.pc := by
  unfold Child.cancel
  split <;> rfl

structure Scope (χ ε : Type) where
  parent : Task
  group : TaskGroup ε := {}
  child : Nat → Child χ ε
  exit : Option (Exit ε) := none

namespace Scope

/-- `_abort`, for the tasks of the list. -/
def cancelAll (tasks : List Nat) (child : Nat → Child χ ε) : Nat → Child χ ε :=
  fun i => if i ∈ tasks then (child i).cancel else child i

/-- The done callback of task `i` runs. -/
def taskDone (isBase : ε → Bool) (s : Scope χ ε) (i : Nat) (ended : TaskEnd ε) : Scope χ ε :=
  let next := s.group.taskDone isBase s.parent i ended
  { s with
    group := next.1
    parent := next.2
    child := if next.1.aborting && !s.group.aborting then cancelAll next.1.tasks s.child else s.child }

/-- The step of the parent that is waiting in `__aexit__`. -/
def wake (s : Scope χ ε) : Scope χ ε :=
  let next := s.group.wake s.parent
  { s with
    group := next.1
    parent := next.2.1
    exit := next.2.2
    child := if next.1.aborting && !s.group.aborting then cancelAll next.1.tasks s.child else s.child }

def live (s : Scope χ ε) (i : Nat) : Bool := decide (i ∈ s.group.tasks) && (s.child i).ended.isNone

end Scope

end Asyncio
