import AsyncPipelines.Asyncio.Semaphore
import AsyncPipelines.Core.Call
import AsyncPipelines.Lib.Runs

/-!
What `process` and `dispatch_tool_calls` have in common: one task for each item,
an optional semaphore around its body, the fail-fast latch, an optional deadline
around the call. The `_run_one` of the two differs in what it does with a call
that has ended, which is `complete` here.
-/

namespace AsyncPipelines

open Asyncio

variable {α β κ σ ε : Type}

/-- `stub` is the outcome of a call that runs no user code, whatever its action says. `complete` gets the
index, the item, a reading of the clock and the call that has ended. -/
structure Fanout (α β κ σ ε : Type) where
  items : List α
  concurrency : Option Nat
  timeout : Option ℚ
  stub : α → Option (FnEnd β ε)
  complete : Nat → α → κ → CallEnd β ε → Completion σ ε

namespace Fanout

/-- Where the coroutine `_run_one` of a task is suspended. -/
inductive Pc
  | created
  | acquiring
  | calling (cm : Option Timeout)
  deriving DecidableEq

def Pc.inUser : Pc → Bool
  | calling _ => true
  | _ => false

structure State (α β σ ε : Type) extends Call Pc α β σ ε where
  sem : Option Semaphore
  results : List (Option σ)

/-- The caller calls. With no items the function returns before it makes a probe
or a group. -/
def init (f : Fanout α β κ σ ε) (caller : Caller) : State α β σ ε :=
  let call := Call.enter caller (List.range f.items.length) fun _ => { pc := .created }
  { toCall :=
      if f.items = [] then
        { call with
          parent := caller.task
          caller := { baseline := caller.task.cancelling, pending := false, rearms := caller.rearms }
          exit := some .returned }
      else call
    sem := f.concurrency.map fun value => { value := value }
    results := List.replicate f.items.length none }

namespace State

def wakeUpNext (s : State α β σ ε) : State α β σ ε :=
  match s.sem with
  | none => s
  | some sem =>
      let next := sem.wakeUpNext fun j => (s.child j).task
      { s with toCall := s.toCall.fulfil next.2, sem := some next.1 }

/-- `Semaphore.release`, at the end of the `async with` block. -/
def release (s : State α β σ ε) : State α β σ ε :=
  wakeUpNext { s with sem := s.sem.map fun sem => { sem with value := sem.value + 1 } }

def endTask (s : State α β σ ε) (i : Nat) (ended : TaskEnd (Exc ε)) : State α β σ ε :=
  { s with toCall := s.toCall.endTask i ended }

end State

/-- Task `i` has its slot: it leaves again where the batch has failed, and calls
`fn` otherwise. -/
def enterSlot (f : Fanout α β κ σ ε) (s : State α β σ ε) (i : Nat) (item : α) : State α β σ ε :=
  if s.failed then s.release.endTask i .returned
  else
    let cm := f.timeout.map fun _ => Timeout.enter (s.child i).task
    { s with toCall := s.toCall.beginCall i (.calling cm) i item }

/-- The first step of task `i`. -/
def firstStep (f : Fanout α β κ σ ε) (s : State α β σ ε) (i : Nat) (item : α) : State α β σ ε :=
  if (s.child i).task.throws then s.endTask i .cancelled
  else
    match s.sem with
    | none => f.enterSlot s i item
    | some sem =>
        if sem.locked fun j => (s.child j).task then
          { s with
            toCall := s.toCall.setChild i
              { s.child i with pc := .acquiring, task := (s.child i).task.await }
            sem := some { sem with waiters := sem.waiters ++ [i] } }
        else f.enterSlot { s with sem := some { sem with value := sem.value - 1 } } i item

/-- The step of task `i` in which `await fut` in `acquire` ends. -/
def acquired (f : Fanout α β κ σ ε) (s : State α β σ ε) (i : Nat) (item : α) : State α β σ ε :=
  let task := (s.child i).task
  let left : State α β σ ε := { s with
    toCall := s.toCall.setTask i task.resume
    sem := s.sem.map fun sem => { sem with waiters := sem.waiters.erase i } }
  if task.throws then
    -- a waiter that was woken and then cancelled hands its slot on
    (if task.waiter = some .cancelled then left else left.release).endTask i .cancelled
  else
    f.enterSlot (if left.sem.any fun sem => 0 < sem.value then left.wakeUpNext else left) i item

/-- The call that task `i` is in ends. -/
def finish (f : Fanout α β κ σ ε) (s : State α β σ ε) (i : Nat) (item : α) (cm : Option Timeout)
    (out : FnEnd β ε) (clock : κ) : State α β σ ε :=
  let left := leaveTimeout cm (s.child i).task out
  let call := s.callEnd i out left
  let completion := f.complete i item clock call
  let s : State α β σ ε := { s with
    toCall := (s.toCall.setTask i left.2.2).emit (.ended i call completion) }
  match completion with
  | .stored slot => { s with results := s.results.set i (some slot) }.release.endTask i .returned
  | .failed exc => { s with failed := true }.release.endTask i exc.taskEnd

inductive Act (β κ ε : Type)
  | loop (act : Call.LoopAct)
  | user (act : Call.UserAct)
  | run (i : Nat)
  | deadline (i : Nat)
  | finish (i : Nat) (out : FnEnd β ε) (clock : κ)

/-- The event loop runs one task at a time, and any of the ready ones. -/
def step (f : Fanout α β κ σ ε) (s : State α β σ ε) :
    Act β κ ε → Option (State α β σ ε)
  | .loop act => (s.toCall.loopStep act).map fun call => { s with toCall := call }
  | .user act =>
      if (f.items[act.task]?).all fun item => (f.stub item).isNone then
        (s.toCall.userStep Pc.inUser act).map fun call => { s with toCall := call }
      else none
  | .run i =>
      if s.exit.isNone ∧ s.running = none ∧ s.live i then
        match f.items[i]?, (s.child i).pc with
        | some item, .created => some (f.firstStep s i item)
        | some item, .acquiring =>
            if (s.child i).task.woken then some (f.acquired s i item) else none
        | _, _ => none
      else none
  | .deadline i =>
      match (s.child i).pc with
      | .calling (some cm) =>
          if s.exit.isNone ∧ s.running = none ∧ s.live i ∧ cm.state = .entered then
            some { s with toCall := (s.toCall.setChild i { s.child i with
              pc := .calling (some cm.fire), task := (s.child i).task.cancel }).emit (.deadline i) }
          else none
      | _ => none
  | .finish i out clock =>
      match f.items[i]?, (s.child i).pc with
      | some item, .calling cm =>
          if s.exit.isNone ∧ s.running = some i ∧ s.live i then
            some (f.finish s i item cm ((f.stub item).getD out) clock)
          else none
      | _, _ => none

/-- The list that the entry point has when its group ends without raising. -/
def returned (s : State α β σ ε) : Option (List (Option σ)) :=
  match s.exit with
  | some .returned => some s.results
  | _ => none

end Fanout

end AsyncPipelines
