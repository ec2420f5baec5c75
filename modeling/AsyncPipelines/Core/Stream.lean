import AsyncPipelines.Asyncio.Queue
import AsyncPipelines.Core.Call
import AsyncPipelines.Lib.Runs

/-!
`stream` of `core.py`. Task 0 is the producer `_produce`; it starts the consumers
1, 2, ..., whose coroutine is `_consume`. A step of the loop runs a task from one
program point to the next; the points outside user code and outside a wait on the
queue are left again before any other task runs. `index_lock` and `results_lock`
are held over no `await`, so they never suspend anybody and are left out.
-/

namespace AsyncPipelines

open Asyncio

variable {α β ε : Type}

/-- The fields of `StreamMetrics` that count. -/
structure StreamMetrics where
  produced : Nat := 0
  consumed : Nat := 0
  producerPauses : Nat := 0
  maxQueueDepth : Nat := 0
  deriving DecidableEq, Repr

structure Stream where
  concurrency : Nat
  queueSize : Nat
  returnExceptions : Bool
  metrics : Bool
  timeout : Option ℚ

namespace Stream

/-- Program points. `pulling` is inside the source and `calling` inside `fn`. The
producer tries to put an item (`offering`) or the sentinels that are left
(`finishing`), and waits for room at `putting` and `puttingSentinel`, where `left`
sentinels are to follow the one that waits. A consumer is
at the top of its loop (`looping`), tries to get (`taking`) or waits (`getting`). -/
inductive Pc (α : Type)
  | created
  | pulling
  | offering (item : α)
  | putting (item : α)
  | finishing (left : Nat)
  | puttingSentinel (left : Nat)
  | looping
  | taking
  | getting
  | calling (index : Nat) (item : α) (cm : Option Timeout)

def Pc.inUser : Pc α → Bool
  | pulling => true
  | calling _ _ _ => true
  | _ => false

def Pc.begun : Pc α → Bool
  | created => false
  | _ => true

/-- An entry of the queue is an item, or `none` for the sentinel. -/
structure State (α β ε : Type) extends Call (Pc α) α β (Slot β ε) ε where
  queue : List (Option α) := []
  getters : List Nat := []
  putters : List Nat := []
  started : Nat := 0
  consumedIndex : Nat := 0
  results : List (Slot β ε) := []
  metrics : StreamMetrics := {}

def init (caller : Caller) : State α β ε :=
  { toCall := Call.enter caller [0] fun _ => { pc := .created } }

namespace State

/-- `queue.full()`. -/
def full (s : State α β ε) (c : Stream) : Bool := decide (c.queueSize ≤ s.queue.length)

def wakeGetter (s : State α β ε) : State α β ε :=
  let next := wakeupNext (fun j => (s.child j).task) s.getters
  { s with toCall := s.toCall.fulfil next.2, getters := next.1 }

def wakePutter (s : State α β ε) : State α β ε :=
  let next := wakeupNext (fun j => (s.child j).task) s.putters
  { s with toCall := s.toCall.fulfil next.2, putters := next.1 }

def putNowait (s : State α β ε) (entry : Option α) : State α β ε :=
  wakeGetter { s with queue := s.queue ++ [entry] }

def setChild (s : State α β ε) (i : Nat) (child : Child (Pc α) (Exc ε)) : State α β ε :=
  { s with toCall := s.toCall.setChild i child }

def goto (s : State α β ε) (i : Nat) (pc : Pc α) : State α β ε :=
  s.setChild i { s.child i with pc := pc }

def park (s : State α β ε) (i : Nat) (pc : Pc α) : State α β ε :=
  let s := s.setChild i { s.child i with pc := pc, task := (s.child i).task.await }
  { s with running := none }

def enter (s : State α β ε) (i : Nat) (pc : Pc α) : State α β ε :=
  let s := s.setChild i { s.child i with pc := pc, task := (s.child i).task.resume }
  { s with running := some i }

def endTask (s : State α β ε) (i : Nat) (ended : TaskEnd (Exc ε)) : State α β ε :=
  { s with toCall := s.toCall.endTask i ended }

def emit (s : State α β ε) (event : Event α β (Slot β ε) ε) : State α β ε :=
  { s with toCall := s.toCall.emit event }

/-- The `except` clause of `Queue.put`: a putter that was woken and then cancelled
wakes the next one. -/
def leavePut (s : State α β ε) (c : Stream) (i : Nat) : State α β ε :=
  let left := { s with putters := s.putters.erase i }
  if !left.full c && (s.child i).task.waiter != some .cancelled then left.wakePutter else left

/-- The `except` clause of `Queue.get`. -/
def leaveGet (s : State α β ε) (i : Nat) : State α β ε :=
  let left := { s with getters := s.getters.erase i }
  if !left.queue.isEmpty && (s.child i).task.waiter != some .cancelled then left.wakeGetter
  else left

/-- The `except BaseException as caught` clause of `_produce`. -/
def failSource (s : State α β ε) (caught : Exc ε) : State α β ε :=
  let exc := strayCancellationAsError caught s.stopping none (some "the producer")
  let noted := s.emit (.sourceFailed caught s.stopping (s.child 0).groupCancelled exc)
  { noted with failed := true }.endTask 0 exc.taskEnd

/-- `tg.create_task(_consume())`, for the first items. `create_task` refuses once the
group aborts, which the check before this point excludes. -/
def spawn (s : State α β ε) (c : Stream) : State α β ε :=
  if s.started < c.concurrency && !s.failed then
    { s with
      group := { s.group with tasks := s.group.tasks ++ [s.started + 1] }
      started := s.started + 1 }
  else s

end State

inductive SourceAct (α ε : Type)
  | yields (item : α)
  | ends
  | raises (cls : ExcClass) (payload : ε)
  | raisesCancelled

inductive Act (α β ε : Type)
  | loop (act : Call.LoopAct)
  | user (act : Call.UserAct)
  | late (act : Call.LateAct)
  | start (i : Nat)
  | wake (i : Nat)
  | advance (i : Nat)
  | deadline (i : Nat)
  | source (act : SourceAct α ε)
  | finish (i : Nat) (out : FnEnd β ε)

def woken (c : Stream) (s : State α β ε) (i : Nat) : Option (State α β ε) :=
  let throws := (s.child i).task.throws
  match (s.child i).pc with
  | .putting item =>
      if throws then some ((s.leavePut c i).failSource .cancelledError)
      else some (s.enter i (.offering item))
  | .puttingSentinel left =>
      if throws then some ((s.leavePut c i).endTask i .cancelled)
      else some (s.enter i (.finishing (left + 1)))
  | .getting =>
      if throws then some ((s.leaveGet i).endTask i .cancelled) else some (s.enter i .taking)
  | _ => none

def advance (c : Stream) (s : State α β ε) (i : Nat) : Option (State α β ε) :=
  match (s.child i).pc with
  | .offering item =>
      if s.full c then some { s.park i (.putting item) with putters := s.putters ++ [i] }
      else
        let s := s.putNowait (some item)
        let depth := s.queue.length
        let metrics :=
          if c.metrics then { s.metrics with
            produced := s.metrics.produced + 1, maxQueueDepth := max s.metrics.maxQueueDepth depth }
          else s.metrics
        some ({ s with metrics := metrics }.goto i .pulling)
  | .finishing 0 => some (s.endTask i .returned)
  | .finishing (left + 1) =>
      if s.full c then
        some { s.park i (.puttingSentinel left) with putters := s.putters ++ [i] }
      else some ((s.putNowait none).goto i (.finishing left))
  | .looping => if s.stopping then some (s.endTask i .cancelled) else some (s.goto i .taking)
  | .taking =>
      match s.queue with
      | [] => some { s.park i .getting with getters := s.getters ++ [i] }
      | entry :: rest =>
          let s := { s with queue := rest }.wakePutter
          match entry with
          | none => some ((s.emit (.sentinel i)).endTask i .returned)
          | some item =>
              if s.failed then some (s.endTask i .returned)
              else
                let index := s.consumedIndex
                let cm := c.timeout.map fun _ => Timeout.enter (s.child i).task
                some { s with
                  toCall := s.toCall.beginCall i (.calling index item cm) index item
                  consumedIndex := index + 1 }
  | _ => none

def sourceStep (c : Stream) (s : State α β ε) : SourceAct α ε → State α β ε
  | .yields item =>
      let s := s.emit (.pulled item)
      if s.stopping then s.failSource .cancelledError
      else
        let s := s.spawn c
        let metrics :=
          if c.metrics && s.full c then
            { s.metrics with producerPauses := s.metrics.producerPauses + 1 }
          else s.metrics
        { s with metrics := metrics }.goto 0 (.offering item)
  | .ends => if s.stopping then s.failSource .cancelledError else s.goto 0 (.finishing s.started)
  | .raises cls payload => s.failSource (.raised cls payload)
  | .raisesCancelled => s.failSource .cancelledError

/-- The call that consumer `i` is in ends. -/
def finish (c : Stream) (s : State α β ε) (i index : Nat) (cm : Option Timeout)
    (out : FnEnd β ε) : State α β ε :=
  let left := leaveTimeout cm (s.child i).task out
  let call := s.callEnd i out left
  let completion := collect c.returnExceptions c.timeout index call
  let s := (s.setChild i { s.child i with task := left.2.2 }).emit (.ended index call completion)
  match completion with
  | .stored slot =>
      let metrics :=
        if c.metrics then { s.metrics with consumed := s.metrics.consumed + 1 } else s.metrics
      { s with results := s.results ++ [slot], metrics := metrics }.goto i .looping
  | .failed exc => { s with failed := true }.endTask i exc.taskEnd

def step (c : Stream) (s : State α β ε) : Act α β ε → Option (State α β ε)
  | .loop act =>
      -- whoever cancels the caller runs between two steps, or inside user code
      if s.running.all fun i => (s.child i).pc.inUser then
        (s.toCall.loopStep act).map fun call => { s with toCall := call }
      else none
  | .user act => (s.toCall.userStep Pc.inUser act).map fun call => { s with toCall := call }
  | .late act => (s.toCall.lateStep Pc.begun act).map fun call => { s with toCall := call }
  | .start i =>
      match (s.child i).pc with
      | .created =>
          if s.exit.isNone ∧ s.running = none ∧ s.live i then
            if (s.child i).task.throws then some (s.endTask i .cancelled)
            else some (s.enter i (if i = 0 then .pulling else .looping))
          else none
      | _ => none
  | .wake i =>
      if s.exit.isNone ∧ s.running = none ∧ s.live i ∧ (s.child i).task.woken then c.woken s i
      else none
  | .advance i => if s.exit.isNone ∧ s.running = some i ∧ s.live i then c.advance s i else none
  | .deadline i =>
      match (s.child i).pc with
      | .calling index item (some cm) =>
          if s.exit.isNone ∧ s.running = none ∧ s.live i ∧ cm.state = .entered then
            some ((s.setChild i { s.child i with
              pc := .calling index item (some cm.fire), task := (s.child i).task.cancel }).emit
                (.deadline index))
          else none
      | _ => none
  | .source act =>
      match (s.child 0).pc with
      | .pulling =>
          if s.exit.isNone ∧ s.running = some 0 ∧ s.live 0 then some (c.sourceStep s act) else none
      | _ => none
  | .finish i out =>
      match (s.child i).pc with
      | .calling index _ cm =>
          if s.exit.isNone ∧ s.running = some i ∧ s.live i then some (c.finish s i index cm out)
          else none
      | _ => none

/-- The list that `stream` returns when its group ends without raising. -/
def returned (s : State α β ε) : Option (List (Slot β ε)) :=
  match s.exit with
  | some .returned => some s.results
  | _ => none

end Stream

end AsyncPipelines
