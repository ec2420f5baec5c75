import AsyncPipelines.Core.FanoutChecks

/-!
What the invariant of a fan-out says about its runs: every item of a list that
is returned has been called once and has the slot of that call, nothing is
called after a failure, and a call for which the stopping signal was true raises.
-/

namespace AsyncPipelines

open Asyncio

variable {α β κ σ ε : Type}

namespace Fanout

variable {f : Fanout α β κ σ ε} {s t : State α β σ ε}

theorem Inv.record (inv : Inv f s) {i : Nat} {call : CallEnd β ε} {completion : Completion σ ε}
    (member : .ended i call completion ∈ s.log) :
    ∃ item clock, f.items[i]? = some item ∧
      history i s.log = opening i item call.expired ++ [.ended i call completion] ∧
      call.Faithful f.timeout ∧ (∀ out, f.stub item = some out → call.out = out) ∧
      f.complete i item clock call = completion := by
  have own : .ended i call completion ∈ history i s.log := mem_history.mpr ⟨member, rfl⟩
  have plain : ∀ item expired, (.ended i call completion : Event α β σ ε) ∉ opening i item expired := by
    intro item expired
    cases expired <;> simp [opening]
  cases inv.item i with
  | absent _ untouched => simp [untouched] at own
  | waiting _ _ _ _ _ untouched _ => simp [untouched] at own
  | calling item cm _ _ _ _ _ record _ => exact absurd (record ▸ own) (plain item _)
  | skipped _ _ _ untouched _ _ => simp [untouched] at own
  | dropped _ _ _ untouched _ _ => simp [untouched] at own
  | stored item clock other slot found _ record faithful stub result _ =>
      simp only [record, List.mem_append, plain, List.mem_singleton, Event.ended.injEq, true_and,
        false_or] at own
      obtain ⟨rfl, rfl⟩ := own
      exact ⟨item, clock, found, record, faithful, stub, result⟩
  | failed item clock other exc found _ record faithful stub result _ _ =>
      simp only [record, List.mem_append, plain, List.mem_singleton, Event.ended.injEq, true_and,
        false_or] at own
      obtain ⟨rfl, rfl⟩ := own
      exact ⟨item, clock, found, record, faithful, stub, result⟩

theorem Inv.fired (inv : Inv f s) {i : Nat} {call : CallEnd β ε} {completion : Completion σ ε}
    (member : .ended i call completion ∈ s.log) :
    .deadline i ∈ s.log ↔ call.expired = true := by
  obtain ⟨item, _, _, record, _⟩ := inv.record member
  have own : .deadline i ∈ s.log ↔ (.deadline i : Event α β σ ε) ∈ history i s.log := by
    simp [mem_history, Event.index]
  rw [own, record]
  cases call.expired <;> simp [opening]

theorem Inv.complete (inv : Inv f s) (returned : s.exit = some .returned) {i : Nat} {item : α}
    (found : f.items[i]? = some item) :
    ∃ clock call slot,
      history i s.log = opening i item call.expired ++ [.ended i call (.stored slot)] ∧
      call.Faithful f.timeout ∧ (∀ out, f.stub item = some out → call.out = out) ∧
      f.complete i item clock call = .stored slot ∧ s.results[i]? = some (some slot) := by
  have calm := inv.sound.quiet returned
  have bound : i < f.items.length := (List.getElem?_eq_some_iff.mp found).1
  have empty := (inv.sound.returned returned).2.1
  have halted := inv.left i bound (by simp [empty])
  have open_ : s.failed = false := by
    simp only [Call.stopping, Bool.or_eq_false_iff] at calm
    exact calm.1
  cases inv.item i with
  | absent beyond _ => simp [found] at beyond
  | waiting _ _ _ alive _ _ _ => exact absurd alive halted
  | calling _ _ _ _ alive _ _ _ _ => exact absurd alive halted
  | skipped _ _ _ _ _ latched => simp [open_] at latched
  | dropped _ _ _ _ _ flagged => simp [inv.signalled i flagged] at calm
  | stored other clock call slot same _ record faithful stub result kept =>
      obtain rfl : item = other := by simpa [found] using same
      exact ⟨clock, call, slot, record, faithful, stub, result, kept⟩
  | failed _ _ _ _ _ _ _ _ _ _ _ latched => simp [open_] at latched

theorem Inv.untouched (inv : Inv f s) {i : Nat} (beyond : f.items.length ≤ i) :
    history i s.log = [] := by
  have none : f.items[i]? = none := List.getElem?_eq_none_iff.mpr beyond
  cases inv.item i with
  | absent _ untouched => exact untouched
  | waiting _ found _ _ _ _ _ => simp [none] at found
  | calling _ _ found _ _ _ _ _ _ => simp [none] at found
  | skipped _ found _ _ _ _ => simp [none] at found
  | dropped _ found _ _ _ _ => simp [none] at found
  | stored _ _ _ _ found _ _ _ _ _ _ => simp [none] at found
  | failed _ _ _ _ found _ _ _ _ _ _ _ => simp [none] at found

/-- An item whose task is over without a call was given up for a failure, or for
a cancellation of the caller. -/
theorem Inv.uncalled (inv : Inv f s) {i : Nat} (bound : i < f.items.length)
    (halted : (s.child i).ended ≠ none) (uncalled : ∀ item, .called i item ∉ s.log) :
    (∃ event ∈ s.log, event.fails = true) ∨ s.callerCancelled = true := by
  have opened : ∀ item rest, history i s.log = opening i item rest ++ [] ∨
      (∃ more, history i s.log = opening i item rest ++ more) → False := by
    intro item rest shape
    have first : (.called i item : Event α β σ ε) ∈ history i s.log := by
      rcases shape with shape | ⟨more, shape⟩ <;> simp [shape, opening]
    exact uncalled item (mem_history.mp first).1
  cases inv.item i with
  | absent beyond _ => simp at beyond; omega
  | waiting _ _ _ alive _ _ _ => exact absurd alive halted
  | calling _ _ _ _ alive _ _ _ _ => exact absurd alive halted
  | skipped _ _ _ _ _ latched => exact Or.inl (inv.logged.latch.mp latched)
  | dropped _ _ _ _ _ flagged =>
      have stopping := (Call.stopping_iff _).mp (inv.signalled i flagged)
      exact stopping.imp_left inv.logged.latch.mp
  | stored item _ call _ _ _ record _ _ _ _ => exact (opened item _ (Or.inr ⟨_, record⟩)).elim
  | failed item _ call _ _ _ record _ _ _ _ _ => exact (opened item _ (Or.inr ⟨_, record⟩)).elim

theorem step_stopping {a : Act β κ ε} (strict : f.Strict) (inv : Inv f s)
    (stopping : s.stopping = true) (stepped : f.step s a = some t) : t.stopping = true := by
  cases a with
  | loop act =>
      simp only [Fanout.step, Option.map_eq_some_iff] at stepped
      obtain ⟨call, moved, rfl⟩ := stepped
      exact Call.stopping_loopStep inv.sound stopping moved
  | user act =>
      simp only [Fanout.step] at stepped
      split at stepped
      · simp only [Option.map_eq_some_iff] at stepped
        obtain ⟨call, moved, rfl⟩ := stepped
        exact (Call.TaskStep.userStep moved).stopping stopping
      · simp at stepped
  | run i =>
      simp only [Fanout.step, Option.isNone_iff_eq_none] at stepped
      split at stepped
      · rename_i enabled
        split at stepped
        · rename_i item found place
          obtain ⟨ready, calm⟩ := inv.ready enabled.2.1 enabled.2.2 found (by simp [place, Pc.inUser])
          simp only [Option.some.injEq] at stepped
          exact stepped ▸ (firstStep_stepped ready calm).rest.step.stopping stopping
        · rename_i item found place
          obtain ⟨ready, calm⟩ := inv.ready enabled.2.1 enabled.2.2 found (by simp [place, Pc.inUser])
          split at stepped <;> simp only [Option.some.injEq, reduceCtorEq] at stepped
          exact stepped ▸ (acquired_stepped ready calm).rest.step.stopping stopping
        · simp at stepped
      · simp at stepped
  | deadline i =>
      simp only [Fanout.step] at stepped
      split at stepped
      · split at stepped <;> simp only [Option.some.injEq, reduceCtorEq] at stepped
        exact stepped ▸ stopping
      · simp at stepped
  | finish i out clock =>
      simp only [Fanout.step, Option.isNone_iff_eq_none] at stepped
      split at stepped
      · rename_i item cm found inside
        split at stepped <;> simp only [Option.some.injEq, reduceCtorEq] at stepped
        rename_i enabled
        have moved := finish_stepped ((f.stub item).getD out) clock strict inv.sound inv.logged enabled.1
          enabled.2.2 found inside (inv.item i)
          fun own isStub => by simp [isStub]
        exact stepped ▸ moved.rest.step.stopping stopping
      · simp at stepped

/-- Where the signal was true once, the call does not return. -/
theorem stopping_raises (strict : f.Strict) (inv : Inv f s) (stopping : s.stopping = true)
    (reached : Runs.Reaches f.step s t) : t.stopping = true ∧ t.exit ≠ some .returned := by
  have kept : Inv f t ∧ t.stopping = true := by
    refine reached.invariant (p := fun s => Inv f s ∧ s.stopping = true) ?_ ⟨inv, stopping⟩
    rintro s a t ⟨inv, stopping⟩ stepped
    exact ⟨inv.step strict stepped, step_stopping strict inv stopping stepped⟩
  refine ⟨kept.2, fun returned => ?_⟩
  simp [kept.1.sound.quiet returned] at kept

end Fanout

end AsyncPipelines
