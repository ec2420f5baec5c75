import Mathlib.Data.Option.Basic

/-!
The state of an `asyncio.Task` that cancellation reads and writes, and the
`asyncio.timeout` context manager. A task is seen between two of its steps, so
all it waits on is one future, of which only the state matters here.
-/

namespace Asyncio

inductive Fut
  | pending
  | done
  | cancelled
  deriving DecidableEq, Repr

/-- `cancelling` is `_num_cancels_requested`, `mustCancel` is `_must_cancel` and
`waiter` is `_fut_waiter`, `none` while the task runs or has not started. A request
is never left waiting while the future can still be cancelled. -/
structure Task where
  cancelling : Nat := 0
  mustCancel : Bool := false
  waiter : Option Fut := none
  settled : waiter = some .pending → mustCancel = false := by decide
  deriving DecidableEq, Repr

inductive TaskEnd (ε : Type)
  | returned
  | cancelled
  | raised (error : ε)
  deriving DecidableEq, Repr

namespace Task

abbrev fresh : Task := {}

/-- `Task.cancel`: the pending future is cancelled, and where there is none the
request waits for the next step of the task. -/
def cancel (t : Task) : Task :=
  if pending : t.waiter = some .pending then
    { t with cancelling := t.cancelling + 1, waiter := some .cancelled, settled := by simp }
  else
    { t with cancelling := t.cancelling + 1, mustCancel := true, settled := by simp [pending] }

/-- `Task.uncancel`. It does not clear a request that is still to be delivered. -/
def uncancel (t : Task) : Task := { t with cancelling := t.cancelling - 1 }

/-- The task suspends on a fresh future. A request that was waiting for this
moment cancels the future at once. -/
def await (t : Task) : Task :=
  if pending : t.mustCancel = true then
    { t with mustCancel := false, waiter := some .cancelled, settled := by simp }
  else { t with waiter := some .pending, settled := by simp [pending] }

/-- `Future.set_result` on the future the task waits on. -/
def fulfil (t : Task) : Task := { t with waiter := some .done, settled := by simp }

/-- Does the next step throw `CancelledError` into the coroutine? -/
def throws (t : Task) : Bool := t.mustCancel || t.waiter == some .cancelled

def resume (t : Task) : Task := { t with mustCancel := false, waiter := none, settled := by simp }

def woken (t : Task) : Bool := t.waiter == some .done || t.waiter == some .cancelled

@[simp] theorem cancel_cancelling (t : Task) : t.cancel.cancelling = t.cancelling + 1 := by
  unfold cancel
  split <;> rfl

@[simp] theorem cancel_throws (t : Task) : t.cancel.throws = true := by
  unfold cancel
  split <;> simp [throws]

theorem cancel_waiter (t : Task) :
    t.cancel.waiter = if t.waiter = some .pending then some .cancelled else t.waiter := by
  unfold cancel
  split <;> simp_all

theorem throws_woken {t : Task} (throws : t.throws = true) (waits : t.waiter ≠ none) :
    t.woken = true := by
  cases waiter : t.waiter with
  | none => exact absurd waiter waits
  | some fut =>
      cases fut with
      | pending => simp [Task.throws, waiter, t.settled waiter] at throws
      | done => simp [woken, waiter]
      | cancelled => simp [woken, waiter]

@[simp] theorem uncancel_throws (t : Task) : t.uncancel.throws = t.throws := rfl

@[simp] theorem uncancel_waiter (t : Task) : t.uncancel.waiter = t.waiter := rfl

@[simp] theorem await_cancelling (t : Task) : t.await.cancelling = t.cancelling := by
  unfold await
  split <;> rfl

@[simp] theorem await_mustCancel (t : Task) : t.await.mustCancel = false := by
  unfold await
  split <;> simp_all

theorem await_waiter (t : Task) :
    t.await.waiter = if t.mustCancel then some .cancelled else some .pending := by
  unfold await
  split <;> simp_all

theorem await_throws (t : Task) : t.await.throws = t.mustCancel := by
  unfold await
  split <;> simp_all [throws]

@[simp] theorem resume_cancelling (t : Task) : t.resume.cancelling = t.cancelling := rfl

@[simp] theorem resume_mustCancel (t : Task) : t.resume.mustCancel = false := rfl

@[simp] theorem resume_waiter (t : Task) : t.resume.waiter = none := rfl

@[simp] theorem fulfil_cancelling (t : Task) : t.fulfil.cancelling = t.cancelling := rfl

@[simp] theorem fulfil_mustCancel (t : Task) : t.fulfil.mustCancel = t.mustCancel := rfl

@[simp] theorem fulfil_waiter (t : Task) : t.fulfil.waiter = some .done := rfl

end Task

/-- The states of `asyncio.Timeout` after `__aenter__`. -/
inductive TimeoutState
  | entered
  | expiring
  | expired
  | exited
  deriving DecidableEq, Repr

/-- `asyncio.Timeout`: `cancelling` is the count of its task on entry. -/
structure Timeout where
  state : TimeoutState
  cancelling : Nat
  deriving DecidableEq, Repr

namespace Timeout

def enter (t : Task) : Timeout := { state := .entered, cancelling := t.cancelling }

/-- `Timeout.expired`. -/
def expired (cm : Timeout) : Bool := cm.state == .expiring || cm.state == .expired

/-- `Timeout._on_timeout`, without the `task.cancel()` it makes. -/
def fire (cm : Timeout) : Timeout := { cm with state := .expiring }

/-- `Timeout.__aexit__`, for a block that did or did not end in `CancelledError`:
the context manager and the task after it, and whether it raises `TimeoutError`. -/
def exit (cm : Timeout) (t : Task) (cancelled : Bool) : Timeout × Task × Bool :=
  if cm.state = .expiring then
    ({ cm with state := .expired }, t.uncancel,
      cancelled && decide (t.uncancel.cancelling ≤ cm.cancelling))
  else
    ({ cm with state := .exited }, t, false)

theorem exit_expired (cm : Timeout) (t : Task) (cancelled : Bool)
    (open_ : cm.state = .entered ∨ cm.state = .expiring) :
    (cm.exit t cancelled).1.expired = cm.expired := by
  rcases open_ with entered | expiring
  · simp only [exit, expired, entered, reduceCtorEq, ↓reduceIte]
    rfl
  · simp [exit, expired, expiring]

theorem exit_raises (cm : Timeout) (t : Task) (cancelled : Bool)
    (raises : (cm.exit t cancelled).2.2 = true) : cm.state = .expiring ∧ cancelled = true := by
  unfold exit at raises
  split at raises
  · rename_i expiring
    simp only [Bool.and_eq_true] at raises
    exact ⟨expiring, raises.1⟩
  · simp at raises

end Timeout

end Asyncio
