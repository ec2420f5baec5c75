import Mathlib.Data.Rat.Defs
import AsyncPipelines.Asyncio.Task

/-!
The exceptions of `core.py` and what the entry points do with the end of one
`fn` call: `_stray_cancellation_as_error`, `_deadline_escaped` and the
`except` clauses around `asyncio.timeout`.
-/

namespace AsyncPipelines

open Asyncio

/-- The classes, other than `CancelledError`, that the source tells apart.
`exception` is an `Exception` that is no `TimeoutError`; `exit` is
`SystemExit` or `KeyboardInterrupt`; `baseException` is any other class. -/
inductive ExcClass
  | exception
  | timeoutError
  | baseException
  | exit
  deriving DecidableEq, Repr

/-- An exception object. `raised` is one that `fn` or the source made itself,
also where it comes from another pipeline call that `fn` ran; `timeoutError`
is the one `asyncio.timeout` makes; the others are made by this library.
`owner` is the `_dispatch_owner` attribute. -/
inductive Exc (ε : Type)
  | raised (cls : ExcClass) (payload : ε)
  | cancelledError
  | timeoutError
  | pipelineTimeoutError (index : Nat) (timeout_s : ℚ) (owner : Option Nat) (cause : Exc ε)
  | pipelineError (message : String) (cause : Exc ε)
  deriving DecidableEq

variable {β ε σ : Type}

namespace Exc

def isCancelledError : Exc ε → Bool
  | cancelledError => true
  | _ => false

def isTimeoutError : Exc ε → Bool
  | raised .timeoutError _ => true
  | timeoutError => true
  | _ => false

/-- `isinstance(e, Exception)`. -/
def isException : Exc ε → Bool
  | raised .baseException _ => false
  | raised .exit _ => false
  | cancelledError => false
  | _ => true

/-- `TaskGroup._is_base_error`. -/
def isBaseError : Exc ε → Bool
  | raised .exit _ => true
  | _ => false

def taskEnd : Exc ε → TaskEnd (Exc ε)
  | cancelledError => .cancelled
  | e => .raised e

theorem isCancelledError_iff (e : Exc ε) : e.isCancelledError = true ↔ e = cancelledError := by
  cases e <;> simp [isCancelledError]

theorem taskEnd_raised {e error : Exc ε} (raised : e.taskEnd = .raised error) :
    error = e ∧ e ≠ cancelledError := by
  cases e <;> simp_all [taskEnd, eq_comm]

theorem taskEnd_other {e : Exc ε} (other : e ≠ cancelledError) : e.taskEnd = .raised e := by
  cases e <;> simp_all [taskEnd]

end Exc

/-- The message of the `PipelineError` that replaces a stray `CancelledError`. -/
def strayMessage (index : Option Nat) : Option String → String
  | none => "item at index " ++ (match index with | some i => toString i | none => "None") ++
      ": fn raised CancelledError, but the pipeline was not cancelled -- treated as the item's failure"
  | some origin => origin ++
      " raised CancelledError, but the pipeline was not cancelled -- treated as its failure"

/-- `_stray_cancellation_as_error`. -/
def strayCancellationAsError (exc : Exc ε) (stopping : Bool) (index : Option Nat)
    (origin : Option String) : Exc ε :=
  if !exc.isCancelledError || stopping then exc
  else .pipelineError (strayMessage index origin) exc

/-- `_deadline_escaped`, given what `cm.expired()` says. -/
def deadlineEscaped (expired stopping : Bool) : Bool := expired && !stopping

/-- How the code under `await fn(item)` ended, before `asyncio.timeout` sees it. -/
inductive FnEnd (β ε : Type)
  | returned (value : β)
  | raised (cls : ExcClass) (payload : ε)
  | cancelled
  deriving DecidableEq

def FnEnd.result : FnEnd β ε → Except (Exc ε) β
  | returned value => .ok value
  | raised cls payload => .error (.raised cls payload)
  | cancelled => .error .cancelledError

def FnEnd.isCancelled : FnEnd β ε → Bool
  | cancelled => true
  | _ => false

/-- All that is known when a call has ended. `block` is what left the
`async with asyncio.timeout` block, or `fn` where there is no deadline,
`expired` is `cm.expired()`, and `stopping` is `failed or caller.cancelled()`.
`out` and `groupCancelled` are not read by the code: what `fn` did, and whether
the group had cancelled the task. -/
structure CallEnd (β ε : Type) where
  out : FnEnd β ε
  block : Except (Exc ε) β
  expired : Bool
  stopping : Bool
  groupCancelled : Bool

/-- The `async with asyncio.timeout(timeout) as cm` block around a call that
ended so: what leaves it, `cm.expired()` and the task. -/
def leaveTimeout (cm : Option Timeout) (t : Task) (out : FnEnd β ε) :
    Except (Exc ε) β × Bool × Task :=
  match cm with
  | none => (out.result, false, t)
  | some cm =>
      let left := cm.exit t out.isCancelled
      (if left.2.2 then .error .timeoutError else out.result, left.1.expired, left.2.1)

/-- The `except TimeoutError` and `except asyncio.CancelledError` clauses around
the block. `owner` is the token that `dispatch_tool_calls` puts on its own errors. -/
def ownDeadline (timeout : Option ℚ) (owner : Option Nat) (index : Nat) (call : CallEnd β ε) :
    Except (Exc ε) β :=
  match timeout, call.block with
  | some timeout_s, .error exc =>
      if exc.isTimeoutError then
        if call.expired then .error (.pipelineTimeoutError index timeout_s owner exc) else .error exc
      else if exc.isCancelledError then
        if deadlineEscaped call.expired call.stopping then
          .error (.pipelineTimeoutError index timeout_s owner exc)
        else .error exc
      else .error exc
  | _, block => block

/-- The call as the entry point goes on with it: its value, or the exception `e`
after the `except BaseException as caught` clause. -/
def classify (timeout : Option ℚ) (owner : Option Nat) (index : Nat) (call : CallEnd β ε) :
    Except (Exc ε) β :=
  match ownDeadline timeout owner index call with
  | .ok value => .ok value
  | .error caught => .error (strayCancellationAsError caught call.stopping (some index) none)

/-- What an entry point does with a call that has ended: keep a result, or
latch the failure and let it out of the task. -/
inductive Completion (σ ε : Type)
  | stored (slot : σ)
  | failed (exc : Exc ε)
  deriving DecidableEq

/-- An entry of the list that `process` and `stream` return. -/
inductive Slot (β ε : Type)
  | value (value : β)
  | error (exc : Exc ε)
  deriving DecidableEq

/-- The end of a call in `process._run_one` and in `stream._consume`. -/
def collect (returnExceptions : Bool) (timeout : Option ℚ) (index : Nat) (call : CallEnd β ε) :
    Completion (Slot β ε) ε :=
  match classify timeout none index call with
  | .ok value => .stored (.value value)
  | .error e => if returnExceptions && e.isException then .stored (.error e) else .failed e

end AsyncPipelines
