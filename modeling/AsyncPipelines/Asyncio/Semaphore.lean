import AsyncPipelines.Asyncio.Task
import Mathlib.Data.List.Basic

/-!
`asyncio.Semaphore`. Its waiters are named by their tasks, since a task waits in
`acquire` at most once; the state of a waiter's future is that of its task.
-/

namespace Asyncio

structure Semaphore where
  value : Nat
  waiters : List Nat := []
  deriving DecidableEq, Repr

namespace Semaphore

variable (task : Nat → Task)

def locked (s : Semaphore) : Bool :=
  s.value == 0 || s.waiters.any fun j => (task j).waiter != some .cancelled

/-- `_wake_up_next`: the semaphore and the task whose future gets a result. -/
def wakeUpNext (s : Semaphore) : Semaphore × Option Nat :=
  match s.waiters.find? fun j => (task j).waiter == some .pending with
  | some j => ({ s with value := s.value - 1 }, some j)
  | none => (s, none)

theorem wakeUpNext_pending (s : Semaphore) {j : Nat} (woken : (s.wakeUpNext task).2 = some j) :
    (task j).waiter = some .pending := by
  unfold wakeUpNext at woken
  split at woken
  · rename_i first found
    simp only [Option.some.injEq] at woken
    have pending := List.find?_some found
    simpa [woken] using pending
  · simp at woken

end Semaphore

end Asyncio
