import AsyncPipelines.Core.FanoutOrder
import AsyncPipelines.Core.StreamRuns
import AsyncPipelines.ToolDispatch

/-!
How much `process`, `stream` and `dispatch_tool_calls` have under way at a time, and the
order in which they start it.
-/

namespace AsyncPipelines

open Asyncio

variable {ι α β ε : Type}

/-- The calls in flight are never more than the bound, and the items called are the first
of the input. The order is that of a first-in first-out loop and semaphore. -/
theorem concurrency_bounds :
    (∀ (items : List α) (concurrency : Nat) (timeout : Option ℚ) (returnExceptions : Bool)
      (caller : Caller) (s : Fanout.State α β (Slot β ε) ε),
      (Runs.Reaches (process items concurrency timeout returnExceptions).step
        ((process items concurrency timeout returnExceptions).init caller) s →
        {i | InFlight s.log i}.encard ≤ concurrency) ∧
      (Runs.Reaches (process items concurrency timeout returnExceptions).stepInTurn
        ((process items concurrency timeout returnExceptions).init caller) s →
        StartsInOrder items s.log)) ∧
    (∀ (d : Dispatch ι ε) (f : Fanout (ToolCall ι) β ℚ (ToolResult β) ε) (concurrency : Nat),
      d.resolve = .ok f → d.concurrency = some concurrency →
      ∀ (caller : Caller) (s : Fanout.State (ToolCall ι) β (ToolResult β) ε),
      (Runs.Reaches f.step (f.init caller) s → {i | InFlight s.log i}.encard ≤ concurrency) ∧
      (Runs.Reaches f.stepInTurn (f.init caller) s → StartsInOrder d.toolCalls s.log)) ∧
    ∀ (c : Stream) (caller : Caller) (s : Stream.State α β ε) (p : Stream.Past), 1 ≤ c.concurrency →
      Runs.Reaches c.watched (Stream.init caller, {}) (s, p) → Stream.Bounded c s p := by
  refine ⟨?_, ?_, ?_⟩
  · intro items concurrency timeout returnExceptions caller s
    have strict := process_strict (β := β) (ε := ε) items concurrency timeout returnExceptions
    exact ⟨Fanout.inFlight_le strict rfl, Fanout.starts_in_order strict rfl⟩
  · intro d f concurrency resolved bounded caller s
    obtain ⟨rfl, _⟩ := Dispatch.resolve_fanout resolved
    exact ⟨Fanout.inFlight_le d.fanout_strict bounded, Fanout.starts_in_order d.fanout_strict bounded⟩
  · intro c caller s p sized reached
    exact Stream.bounded_of_reaches sized reached

def backlog : List (Stream.Act Nat Nat Unit) :=
  Stream.firstCall ++ [.user (.suspend 1), .user (.resume 0), .source (.yields 1), .advance 0,
    .source (.yields 2), .advance 0]

theorem concurrency_bounds_backlog : ∃ (s : Stream.State Nat Nat Unit) (p : Stream.Past),
    (Stream.pulls s).length = 3 ∧ (Stream.ends s).length = 0 ∧ p.lost = 0 ∧
      Stream.Bounded Stream.narrow s p := by
  have ends : (Runs.run Stream.narrow.watched (Stream.init { task := {} }, {}) backlog).any
      (fun w => (Stream.pulls w.1).length == 3 && (Stream.ends w.1).length == 0 && w.2.lost == 0) = true := by
    decide
  obtain ⟨⟨s, p⟩, ran, checked⟩ := (Option.any_eq_true _ _).mp ends
  simp only [Bool.and_eq_true, beq_iff_eq] at checked
  exact ⟨s, p, checked.1.1, checked.1.2, checked.2, (concurrency_bounds (ι := Unit)).2.2 Stream.narrow
    { task := {} } s p (le_refl 1) ⟨backlog, ran⟩⟩

end AsyncPipelines
