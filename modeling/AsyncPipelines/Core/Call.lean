import AsyncPipelines.Asyncio.TaskGroupChecks
import AsyncPipelines.Core.CancelProbe
import AsyncPipelines.Core.Errors

/-!
What `process`, `stream` and `dispatch_tool_calls` share while they run: the
`_TaskGroup` with its tasks, the caller and its probe, the fail-fast latch, and
the event loop, which runs one task at a time. User code is a task that is
inside `fn` or inside the source; it may do anything there to its own task.
-/

namespace AsyncPipelines

open Asyncio

variable {χ α β σ ε : Type}

/-- What a run leaves behind, in order: an item of the source, a call of `fn`, the
deadline of a call, the end of a call, a sentinel that a consumer takes, and the
failure of the source, with what was caught, whether the pipeline was stopping and
whether the group had cancelled the producer. -/
inductive Event (α β σ ε : Type)
  | pulled (item : α)
  | called (index : Nat) (item : α)
  | deadline (index : Nat)
  | ended (index : Nat) (call : CallEnd β ε) (completion : Completion σ ε)
  | sentinel (task : Nat)
  | sourceFailed (caught : Exc ε) (stopping groupCancelled : Bool) (exc : Exc ε)

/-- `caller` is the probe; `running` is the task whose user code has the CPU. -/
structure Call (χ α β σ ε : Type) extends Scope χ (Exc ε) where
  rearms : Nat
  caller : CancelProbe
  failed : Bool := false
  running : Option Nat := none
  log : List (Event α β σ ε) := []

namespace Call

/-- `caller.cancelled()`. -/
def callerCancelled (c : Call χ α β σ ε) : Bool := c.caller.cancelled ⟨c.parent, c.rearms⟩

/-- `failed or caller.cancelled()`. -/
def stopping (c : Call χ α β σ ε) : Bool := c.failed || c.callerCancelled

/-- The caller enters the group and waits in `__aexit__`: the body only creates
tasks, so it has not been suspended in between. -/
def enter (caller : Caller) (tasks : List Nat) (child : Nat → Child χ (Exc ε)) : Call χ α β σ ε :=
  { parent := caller.task.await
    group := { tasks := tasks }
    child := child
    rearms := caller.rearms
    caller := CancelProbe.enter caller }

def setChild (c : Call χ α β σ ε) (i : Nat) (child : Child χ (Exc ε)) : Call χ α β σ ε :=
  { c with child := Function.update c.child i child }

def setTask (c : Call χ α β σ ε) (i : Nat) (task : Task) : Call χ α β σ ε :=
  c.setChild i { c.child i with task := task }

/-- The coroutine of task `i` ends. A task that returns with a request still to
be delivered ends cancelled. -/
def endTask (c : Call χ α β σ ε) (i : Nat) (ended : TaskEnd (Exc ε)) : Call χ α β σ ε :=
  let ended := match ended with
    | .returned => if (c.child i).task.mustCancel then .cancelled else .returned
    | other => other
  { c.setChild i { c.child i with task := (c.child i).task.resume, ended := some ended } with
    running := none }

def emit (c : Call χ α β σ ε) (event : Event α β σ ε) : Call χ α β σ ε :=
  { c with log := c.log ++ [event] }

/-- `fn(item)` is called in task `i`, which has the CPU from here on. -/
def beginCall (c : Call χ α β σ ε) (i : Nat) (pc : χ) (index : Nat) (item : α) :
    Call χ α β σ ε :=
  { (c.setChild i { c.child i with pc := pc }).emit (.called index item) with running := some i }

/-- `left` is what `leaveTimeout` gives for the call that task `i` is in. -/
def callEnd (c : Call χ α β σ ε) (i : Nat) (out : FnEnd β ε)
    (left : Except (Exc ε) β × Bool × Task) : CallEnd β ε :=
  { out := out
    block := left.1
    expired := left.2.1
    stopping := c.stopping
    groupCancelled := (c.child i).groupCancelled }

/-- `Future.set_result` on the future of a task, if there is one to wake. -/
def fulfil (c : Call χ α β σ ε) : Option Nat → Call χ α β σ ε
  | some i => c.setTask i (c.child i).task.fulfil
  | none => c

/-- Steps of the event loop and of whoever holds the caller's task. The
arguments of `rearm` are those a previous group gave to `call_soon`. -/
inductive LoopAct
  | cancelCaller
  | rearm (entryCancelling : Int) (entryProbe : CancelProbe)
  | wakeCaller
  | taskDone (i : Nat)
  deriving DecidableEq

def cancelCaller (c : Call χ α β σ ε) : Call χ α β σ ε := { c with parent := c.parent.cancel }

def rearm (c : Call χ α β σ ε) (entryCancelling : Int) (entryProbe : CancelProbe) :
    Call χ α β σ ε :=
  let caller := rearmPendingCancel ⟨c.parent, c.rearms⟩ false entryCancelling entryProbe
  { c with parent := caller.task, rearms := caller.rearms }

/-- The caller's step in `_TaskGroup.__aexit__`. -/
def wakeCaller (c : Call χ α β σ ε) : Call χ α β σ ε :=
  let scope := c.toScope.wake
  { c with toScope := match scope.exit with
    | some (.group _) => { scope with parent := undoOwnRequest scope.group false scope.parent }
    | _ => scope }

def loopStep (c : Call χ α β σ ε) : LoopAct → Option (Call χ α β σ ε)
  | .cancelCaller => if c.exit.isNone then some c.cancelCaller else none
  | .rearm entryCancelling entryProbe =>
      if c.exit.isNone ∧ c.running = none then some (c.rearm entryCancelling entryProbe) else none
  | .wakeCaller =>
      if c.exit.isNone ∧ c.running = none ∧ c.parent.woken then some c.wakeCaller else none
  | .taskDone i =>
      match (c.child i).ended with
      | some ended =>
          if c.exit.isNone ∧ c.running = none ∧ i ∈ c.group.tasks then
            some { c with toScope := c.toScope.taskDone Exc.isBaseError i ended }
          else none
      | none => none

/-- What user code does to its own task, and when it is suspended and resumed. -/
inductive UserAct
  | resume (i : Nat)
  | suspend (i : Nat)
  | cancelSelf (i : Nat)
  | uncancelSelf (i : Nat)
  deriving DecidableEq

def UserAct.task : UserAct → Nat
  | resume i => i
  | suspend i => i
  | cancelSelf i => i
  | uncancelSelf i => i

/-- `inUser` tells the places of a coroutine that are inside user code. -/
def userStep (inUser : χ → Bool) (c : Call χ α β σ ε) : UserAct → Option (Call χ α β σ ε)
  | .resume i =>
      if c.exit.isNone ∧ c.running = none ∧ c.live i ∧ inUser (c.child i).pc then
        some { c.setTask i (c.child i).task.resume with running := some i }
      else none
  | .suspend i =>
      if c.exit.isNone ∧ c.running = some i ∧ inUser (c.child i).pc then
        some { c.setTask i (c.child i).task.await with running := none }
      else none
  | .cancelSelf i =>
      if c.exit.isNone ∧ c.running = some i ∧ inUser (c.child i).pc then
        some (c.setTask i (c.child i).task.cancel)
      else none
  | .uncancelSelf i =>
      if c.exit.isNone ∧ c.running = some i ∧ inUser (c.child i).pc then
        some (c.setTask i (c.child i).task.uncancel)
      else none

/-- What user code leaves to the loop with `call_soon`, for the task it runs in: a cancel, its
withdrawal, or `_rearm_pending_cancel` of a pipeline that was called in that task. -/
inductive LateAct
  | cancel (i : Nat)
  | uncancel (i : Nat)
  | rearm (i rearms : Nat) (entryCancelling : Int) (entryProbe : CancelProbe)
  deriving DecidableEq

def LateAct.task : LateAct → Nat
  | cancel i => i
  | uncancel i => i
  | rearm i _ _ _ => i

def LateAct.after (task : Task) : LateAct → Task
  | cancel _ => task.cancel
  | uncancel _ => task.uncancel
  | rearm _ rearms entryCancelling entryProbe =>
      (rearmPendingCancel ⟨task, rearms⟩ false entryCancelling entryProbe).task

/-- The loop gets to it between two steps, wherever the task is by then. -/
def lateStep (begun : χ → Bool) (c : Call χ α β σ ε) (act : LateAct) : Option (Call χ α β σ ε) :=
  if c.exit.isNone ∧ c.running = none ∧ c.live act.task ∧ begun (c.child act.task).pc then
    some (c.setTask act.task (act.after (c.child act.task).task))
  else none

end Call

end AsyncPipelines
