import AsyncPipelines.Asyncio.Task
import Mathlib.Data.List.Basic

/-!
The waiters of an `asyncio.Queue`: a deque of futures, named by the tasks that
wait on them.
-/

namespace Asyncio

/-- `Queue._wakeup_next`: the waiters that are left, and the task whose future gets
a result. Futures that are done already are dropped on the way. -/
def wakeupNext (task : Nat → Task) : List Nat → List Nat × Option Nat
  | [] => ([], none)
  | j :: rest =>
      if (task j).waiter = some .pending then (rest, some j) else wakeupNext task rest

theorem wakeupNext_suffix (task : Nat → Task) (waiters : List Nat) :
    (wakeupNext task waiters).1 <:+ waiters := by
  induction waiters with
  | nil => exact List.suffix_refl _
  | cons j rest ih =>
      simp only [wakeupNext]
      split
      · exact List.suffix_cons j rest
      · exact ih.trans (List.suffix_cons j rest)

theorem wakeupNext_spec (task : Nat → Task) (waiters : List Nat) :
    (∀ j, (wakeupNext task waiters).2 = some j →
      (task j).waiter = some .pending ∧ j ∈ waiters) ∧
    (∀ k ∈ waiters, (task k).waiter = some .pending →
      k ∈ (wakeupNext task waiters).1 ∨ (wakeupNext task waiters).2 = some k) ∧
    ((wakeupNext task waiters).2 = none → ∀ k ∈ waiters, (task k).waiter ≠ some .pending) := by
  induction waiters with
  | nil => simp [wakeupNext]
  | cons first rest ih =>
      simp only [wakeupNext]
      split
      · rename_i pending
        refine ⟨?_, ?_, by simp⟩
        · intro j woken
          obtain rfl : first = j := by simpa using woken
          exact ⟨pending, List.mem_cons_self⟩
        · intro k member _
          rcases List.mem_cons.mp member with same | later
          · exact Or.inr (by rw [same])
          · exact Or.inl later
      · rename_i busy
        obtain ⟨woken, waiting, nobody⟩ := ih
        refine ⟨?_, ?_, ?_⟩
        · intro j isWoken
          exact ⟨(woken j isWoken).1, List.mem_cons_of_mem _ (woken j isWoken).2⟩
        · intro k member pending
          rcases List.mem_cons.mp member with same | later
          · exact absurd (same ▸ pending) busy
          · exact waiting k later pending
        · intro none k member
          rcases List.mem_cons.mp member with same | later
          · exact same ▸ busy
          · exact nobody none k later

theorem wakeupNext_distinct (task : Nat → Task) {waiters : List Nat} (distinct : waiters.Nodup)
    {j : Nat} (woken : (wakeupNext task waiters).2 = some j) :
    j ∉ (wakeupNext task waiters).1 := by
  induction waiters with
  | nil => simp [wakeupNext] at woken
  | cons first rest ih =>
      simp only [wakeupNext] at woken ⊢
      split at woken
      · rename_i pending
        obtain rfl : first = j := by simpa using woken
        rw [if_pos pending]
        exact (List.nodup_cons.mp distinct).1
      · rename_i busy
        rw [if_neg busy]
        exact ih (List.nodup_cons.mp distinct).2 woken

end Asyncio
