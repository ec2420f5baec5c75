import AsyncPipelines.Core.FanoutRuns

/-!
`process` of `core.py`, and what a list it returns says about the calls of `fn`.
-/

namespace AsyncPipelines

open Asyncio

variable {α β ε : Type}

/-- `process(items, fn, concurrency=..., return_exceptions=..., timeout=...)`. -/
def process (items : List α) (concurrency : Nat) (timeout : Option ℚ) (returnExceptions : Bool) :
    Fanout α β Unit (Slot β ε) ε where
  items := items
  concurrency := some concurrency
  timeout := timeout
  stub := fun _ => none
  complete := fun index _ _ call => collect returnExceptions timeout index call

theorem process_strict (items : List α) (concurrency : Nat) (timeout : Option ℚ)
    (returnExceptions : Bool) :
    (process items concurrency timeout returnExceptions : Fanout α β Unit (Slot β ε) ε).Strict :=
  fun _ _ _ _ failed => collect_cancelled failed

theorem process_complete (items : List α) (concurrency : Nat) (timeout : Option ℚ)
    (returnExceptions : Bool) (caller : Caller) (s : Fanout.State α β (Slot β ε) ε)
    (results : List (Option (Slot β ε)))
    (reached : Runs.Reaches (process items concurrency timeout returnExceptions).step
      ((process items concurrency timeout returnExceptions).init caller) s)
    (returned : Fanout.returned s = some results) :
    results.length = items.length ∧
    (∀ i item, items[i]? = some item → ∃ call slot,
      history i s.log = opening i item call.expired ++ [.ended i call (.stored slot)] ∧
      results[i]? = some (some slot) ∧ Outcome returnExceptions timeout i call slot) ∧
    ∀ i, items.length ≤ i → history i s.log = [] := by
  have inv := Fanout.inv_of_reaches (process_strict items concurrency timeout returnExceptions) reached
  obtain ⟨exit, rfl⟩ : s.exit = some .returned ∧ s.results = results := by
    unfold Fanout.returned at returned
    split at returned
    · rename_i exit
      exact ⟨exit, Option.some.inj returned⟩
    · simp at returned
  refine ⟨inv.size, ?_, fun i beyond => inv.untouched beyond⟩
  intro i item found
  obtain ⟨_, call, slot, record, faithful, _, result, kept⟩ := inv.complete exit found
  exact ⟨call, slot, record, kept, collect_outcome faithful result⟩

def oneByOne : List (Fanout.Act Nat Unit Unit) :=
  [.run 0, .user (.suspend 0), .run 1, .user (.resume 0), .finish 0 (.returned 10) (), .run 1,
    .finish 1 (.raised .exception ()) (), .loop (.taskDone 0), .loop (.taskDone 1), .loop .wakeCaller]

theorem process_complete_pair : ∃ s : Fanout.State Nat Nat (Slot Nat Unit) Unit,
    Fanout.returned s = some [some (.value 10), some (.error (.raised .exception ()))] ∧
      (∀ i item, [0, 1][i]? = some item → ∃ call slot,
        history i s.log = opening i item call.expired ++ [.ended i call (.stored slot)] ∧
        [some (Slot.value 10), some (.error (.raised .exception ()))][i]? = some (some slot) ∧
        Outcome true none i call slot) ∧
      ∀ i, 2 ≤ i → history i s.log = [] := by
  let f : Fanout Nat Nat Unit (Slot Nat Unit) Unit := process [0, 1] 1 none true
  have ends : (Runs.run f.step (f.init { task := {} }) oneByOne).any (fun s =>
      Fanout.returned s == some [some (.value 10), some (.error (.raised .exception ()))]) = true := by
    decide
  obtain ⟨s, ran, checked⟩ := (Option.any_eq_true _ _).mp ends
  have list := beq_iff_eq.mp checked
  exact ⟨s, list, (process_complete [0, 1] 1 none true { task := {} } s _ ⟨oneByOne, ran⟩ list).2⟩

end AsyncPipelines
