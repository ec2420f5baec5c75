import AsyncPipelines.Asyncio.TaskGroup

/-!
`_CallerCancelProbe`, `_TaskGroup` and `_rearm_pending_cancel` of `core.py`,
on the task that called the pipeline.
-/

namespace AsyncPipelines

open Asyncio

/-- The caller's task and its entry in `_REARMS`. -/
structure Caller where
  task : Task
  rearms : Nat := 0
  deriving DecidableEq, Repr

/-- `_CallerCancelProbe`. The caller is always a task: `TaskGroup.__aenter__`
refuses to run outside one. -/
structure CancelProbe where
  baseline : Nat
  pending : Bool
  rearms : Nat
  deriving DecidableEq, Repr

namespace CancelProbe

/-- `_CallerCancelProbe.__init__`. -/
def enter (caller : Caller) : CancelProbe :=
  { baseline := caller.task.cancelling
    pending := caller.task.mustCancel
    rearms := caller.rearms }

/-- `_CallerCancelProbe.brought_in_a_live_cancel`. -/
def broughtInALiveCancel (p : CancelProbe) (caller : Caller) : Bool :=
  p.pending || caller.rearms != p.rearms

/-- `_CallerCancelProbe.cancelled`. -/
def cancelled (p : CancelProbe) (caller : Caller) : Bool :=
  if p.broughtInALiveCancel caller then true else decide (p.baseline < caller.task.cancelling)

theorem cancelled_iff (p : CancelProbe) (caller : Caller) :
    p.cancelled caller = true ↔
      p.pending = true ∨ caller.rearms ≠ p.rearms ∨ p.baseline < caller.task.cancelling := by
  by_cases pending : p.pending = true <;> by_cases same : caller.rearms = p.rearms <;>
    simp [cancelled, broughtInALiveCancel, pending, same]

end CancelProbe

/-- `_rearm_pending_cancel`. -/
def rearmPendingCancel (caller : Caller) (done : Bool) (entryCancelling : Int)
    (entryProbe : CancelProbe) : Caller :=
  let entryCancelling :=
    if entryProbe.broughtInALiveCancel caller then entryCancelling - 1 else entryCancelling
  if !done && decide (entryCancelling < caller.task.cancelling) then
    { task := caller.task.uncancel.cancel, rearms := caller.rearms + 1 }
  else caller

/-- `_TaskGroup.__aexit__` on 3.11 and 3.12, where the group raised its errors:
a request the group made while it was waiting is undone. -/
def undoOwnRequest {ε : Type} (g : TaskGroup ε) (requestedBefore : Bool) (parent : Task) : Task :=
  if g.parentCancelRequested && !requestedBefore then parent.uncancel else parent

theorem rearm_cases (caller : Caller) (done : Bool) (entryCancelling : Int)
    (entryProbe : CancelProbe) :
    rearmPendingCancel caller done entryCancelling entryProbe = caller ∨
      rearmPendingCancel caller done entryCancelling entryProbe =
        { task := caller.task.uncancel.cancel, rearms := caller.rearms + 1 } := by
  unfold rearmPendingCancel
  generalize (if entryProbe.broughtInALiveCancel caller then entryCancelling - 1
    else entryCancelling) = threshold
  dsimp only
  split
  · exact Or.inr rfl
  · exact Or.inl rfl

end AsyncPipelines
