import AsyncPipelines.Core.FanoutRuns
import AsyncPipelines.Core.Scripted

/-!
The errors of the group of a fan-out: the event loop runs the done callbacks of the tasks in
the order in which the tasks ended, and the group keeps the failures in that order.
-/

namespace AsyncPipelines

open Asyncio

variable {α β κ σ ε : Type}

namespace Fanout

def failing? : Nat × CallEnd β ε × Completion σ ε → Option (Nat × Exc ε)
  | (i, _, .failed exc) => if exc.isCancelledError then none else some (i, exc)
  | _ => none

def failures (log : List (Event α β σ ε)) : List (Nat × Exc ε) := (endLog log).filterMap failing?

/-- No failure is reported before one that came earlier. -/
def reportsInTurn (s : State α β σ ε) : Act β κ ε → Bool
  | .loop (.taskDone i) =>
      decide (i ∉ (failures s.log).map Prod.fst) ||
        (((failures s.log).map Prod.fst).takeWhile (· != i)).all fun j => decide (j ∉ s.group.tasks)
  | _ => true

def stepReporting (f : Fanout α β κ σ ε) (s : State α β σ ε) (a : Act β κ ε) :
    Option (State α β σ ε) :=
  if reportsInTurn s a then f.step s a else none

variable {f : Fanout α β κ σ ε} {s t : State α β σ ε} {i : Nat}

theorem stepReporting_eq {a : Act β κ ε} (stepped : f.stepReporting s a = some t) :
    reportsInTurn s a = true ∧ f.step s a = some t := by
  simp only [stepReporting] at stepped
  split at stepped
  · rename_i turn
    exact ⟨turn, stepped⟩
  · simp at stepped

theorem reaches_of_reporting {caller : Caller}
    (reached : Runs.Reaches f.stepReporting (f.init caller) s) :
    Runs.Reaches f.step (f.init caller) s :=
  reached.weaken fun _ _ _ stepped => (stepReporting_eq stepped).2

structure Reported (s : State α β σ ε) : Prop where
  split : ∃ done rest, failures s.log = done ++ rest ∧ s.group.errors = done.map Prod.snd ∧
    (∀ p ∈ done, p.1 ∉ s.group.tasks) ∧ ∀ p ∈ rest, p.1 ∈ s.group.tasks
  distinct : ((failures s.log).map Prod.fst).Nodup
  base : s.group.baseError = s.group.errors.find? Exc.isBaseError

theorem mem_failures {log : List (Event α β σ ε)} {exc : Exc ε} :
    (i, exc) ∈ failures log ↔
      exc ≠ .cancelledError ∧ ∃ call, .ended i call (.failed exc) ∈ log := by
  simp only [failures, List.mem_filterMap]
  constructor
  · rintro ⟨⟨j, call, completion⟩, member, failed⟩
    cases completion with
    | stored slot => simp [failing?] at failed
    | failed other =>
        simp only [failing?] at failed
        split at failed
        · simp at failed
        · rename_i plain
          simp only [Option.some.injEq, Prod.mk.injEq] at failed
          obtain ⟨rfl, rfl⟩ := failed
          refine ⟨?_, call, mem_endLog.mp member⟩
          rwa [Bool.not_eq_true, ← Bool.not_eq_true, Exc.isCancelledError_iff] at plain
  · rintro ⟨plain, call, member⟩
    refine ⟨(i, call, .failed exc), mem_endLog.mpr member, ?_⟩
    simp [failing?, (Exc.isCancelledError_iff exc).not.mpr plain]

theorem Inv.ended_of_failed (inv : Inv f s) {exc : Exc ε} (failed : (i, exc) ∈ failures s.log) :
    (s.child i).ended = some (.raised exc) := by
  obtain ⟨plain, call, member⟩ := mem_failures.mp failed
  have own : .ended i call (.failed exc) ∈ history i s.log := mem_history.mpr ⟨member, rfl⟩
  have before : ∀ item expired,
      (.ended i call (.failed exc) : Event α β σ ε) ∉ opening i item expired := by
    intro item expired
    cases expired <;> simp [opening]
  cases inv.item i with
  | absent _ untouched => simp [untouched] at own
  | waiting _ _ _ _ _ untouched _ => simp [untouched] at own
  | calling item cm _ _ _ _ _ record _ => exact absurd (record ▸ own) (before item _)
  | skipped _ _ _ untouched _ _ => simp [untouched] at own
  | dropped _ _ _ untouched _ _ => simp [untouched] at own
  | stored item _ other slot _ _ record _ _ _ _ => simp [record, before] at own
  | failed item _ other raised _ halted record _ _ _ _ _ =>
      simp only [record, List.mem_append, before, List.mem_singleton, Event.ended.injEq, true_and,
        Completion.failed.injEq, false_or] at own
      rw [halted, ← own.2, Exc.taskEnd_other plain]

theorem Inv.failed_of_ended (inv : Inv f s) (bound : i < f.items.length) {exc : Exc ε}
    (ended : (s.child i).ended = some (.raised exc)) : (i, exc) ∈ failures s.log := by
  cases inv.item i with
  | absent beyond _ =>
      rw [List.getElem?_eq_none_iff] at beyond
      omega
  | waiting _ _ _ alive _ _ _ => simp [alive] at ended
  | calling _ _ _ _ alive _ _ _ _ => simp [alive] at ended
  | skipped _ _ halted _ _ _ => simp [ended] at halted
  | dropped _ _ halted _ _ _ => simp [ended] at halted
  | stored _ _ _ _ _ halted _ _ _ _ _ => simp [ended] at halted
  | failed item clock call raised found halted record _ _ _ _ _ =>
      rw [halted, Option.some.injEq] at ended
      obtain ⟨rfl, plain⟩ := Exc.taskEnd_raised ended
      refine mem_failures.mpr ⟨plain, call, ?_⟩
      have last : .ended i call (.failed exc) ∈ history i s.log := by simp [record]
      exact (mem_history.mp last).1

theorem taskDone_base (isBase : Exc ε → Bool) (g : TaskGroup (Exc ε)) (parent : Task) (i : Nat)
    (ended : TaskEnd (Exc ε)) (base : g.baseError = g.errors.find? isBase) :
    (g.taskDone isBase parent i ended).1.baseError =
      (g.taskDone isBase parent i ended).1.errors.find? isBase := by
  cases ended with
  | returned => exact base
  | cancelled => exact base
  | raised error =>
      have joined : g.baseError.or (if isBase error then some error else none) =
          (g.errors ++ [error]).find? isBase := by
        rw [List.find?_append, ← base]
        cases chosen : isBase error <;> simp [chosen]
      simp only [TaskGroup.taskDone]
      split <;> exact joined

theorem Reported.grown (reported : Reported s) (group : t.group = s.group)
    (log : failures t.log = failures s.log ∨ ∃ exc, i ∈ s.group.tasks ∧
      i ∉ (failures s.log).map Prod.fst ∧ failures t.log = failures s.log ++ [(i, exc)]) :
    Reported t := by
  obtain ⟨⟨done, rest, whole, errors, gone, present⟩, distinct, base⟩ := reported
  rcases log with same | ⟨exc, member, fresh, grown⟩
  · refine ⟨⟨done, rest, same.trans whole, ?_, ?_, ?_⟩, same ▸ distinct, ?_⟩
    · rw [group, errors]
    · rwa [group]
    · rwa [group]
    · rw [group, base]
  · refine ⟨⟨done, rest ++ [(i, exc)], ?_, ?_, ?_, ?_⟩, ?_, ?_⟩
    · rw [grown, whole, List.append_assoc]
    · rw [group, errors]
    · rwa [group]
    · rw [group]
      intro p inside
      rcases List.mem_append.mp inside with old | new
      · exact present p old
      · rw [List.mem_singleton.mp new]
        exact member
    · rw [grown, List.map_append, List.nodup_append]
      refine ⟨distinct, by simp, ?_⟩
      rintro j old k new rfl
      rw [List.map_singleton, List.mem_singleton] at new
      rw [new] at old
      exact fresh old
    · rw [group, base]

/-- A callback that runs in its turn moves the first failure that waits to the errors. -/
theorem Reported.taskDone (reported : Reported s) (inv : Inv f s) {ended : TaskEnd (Exc ε)}
    (found : (s.child i).ended = some ended) (member : i ∈ s.group.tasks)
    (turn : reportsInTurn (κ := κ) s (.loop (.taskDone i)) = true) :
    Reported { s with toCall := { s.toCall with toScope := s.toCall.toScope.taskDone Exc.isBaseError i ended } } := by
  obtain ⟨⟨done, rest, whole, errors, gone, present⟩, distinct, base⟩ := reported
  obtain ⟨tasks, _, change⟩ := Scope.taskDone_group Exc.isBaseError s.group s.parent i ended
  have base' := taskDone_base Exc.isBaseError s.group s.parent i ended base
  have gone' : ∀ j, j ∉ s.group.tasks → j ∉ s.group.tasks.erase i :=
    fun j absent inside => absent (List.mem_of_mem_erase inside)
  rcases change with ⟨exc, rfl, grown, _⟩ | ⟨plain, same, _⟩
  · -- the failure is the first of those that wait
    have failed := inv.failed_of_ended (inv.tasks i member) found
    have waits : (i, exc) ∈ rest := by
      rw [whole] at failed
      rcases List.mem_append.mp failed with old | waits
      · exact absurd member (gone _ old)
      · exact waits
    obtain ⟨earlier, later, divided⟩ := List.append_of_mem waits
    have first : earlier = [] := by
      rw [List.eq_nil_iff_forall_not_mem]
      intro p inside
      have waiting := present p (by simp [divided, inside])
      have indices : (failures s.log).map Prod.fst =
          (done ++ earlier).map Prod.fst ++ i :: later.map Prod.fst := by
        simp [whole, divided]
      have others : ∀ j ∈ (done ++ earlier).map Prod.fst, (j != i) = true := by
        intro j before
        rw [indices, List.nodup_append] at distinct
        simpa using distinct.2.2 j before i (by simp)
      simp only [reportsInTurn, Bool.or_eq_true, decide_eq_true_eq] at turn
      rcases turn with absent | turn
      · exact absurd (List.mem_map.mpr ⟨_, failed, rfl⟩) absent
      · rw [indices, List.takeWhile_append_of_pos others, List.all_eq_true] at turn
        have left := turn p.1 (List.mem_append_left _ (List.mem_map.mpr ⟨p, by simp [inside], rfl⟩))
        exact of_decide_eq_true left waiting
    subst first
    rw [List.nil_append] at divided
    refine ⟨⟨done ++ [(i, exc)], later, ?_, ?_, ?_, ?_⟩, distinct, base'⟩
    · rw [whole, divided, List.append_assoc]
      rfl
    · rw [List.map_append, ← errors]
      exact grown
    · intro p inside
      show p.1 ∉ (s.group.taskDone Exc.isBaseError s.parent i (.raised exc)).1.tasks
      rw [tasks]
      rcases List.mem_append.mp inside with old | new
      · exact gone' _ (gone p old)
      · rw [List.mem_singleton.mp new]
        exact inv.sound.distinct.not_mem_erase
    · intro p inside
      show p.1 ∈ (s.group.taskDone Exc.isBaseError s.parent i (.raised exc)).1.tasks
      rw [tasks]
      refine (List.mem_erase_of_ne ?_).mpr (present p (by simp [divided, inside]))
      rintro rfl
      rw [whole, divided] at distinct
      simp only [List.map_append, List.map_cons, List.nodup_append, List.nodup_cons] at distinct
      exact distinct.2.1.1 (List.mem_map.mpr ⟨p, inside, rfl⟩)
  · have others : ∀ p ∈ failures s.log, p.1 ≠ i := by
      rintro ⟨j, exc⟩ inside rfl
      rw [inv.ended_of_failed inside, Option.some.injEq] at found
      exact plain exc found.symm
    refine ⟨⟨done, rest, whole, ?_, ?_, ?_⟩, distinct, base'⟩
    · rw [← errors]
      exact same
    · intro p inside
      show p.1 ∉ (s.group.taskDone Exc.isBaseError s.parent i ended).1.tasks
      rw [tasks]
      exact gone' _ (gone p inside)
    · intro p inside
      show p.1 ∈ (s.group.taskDone Exc.isBaseError s.parent i ended).1.tasks
      rw [tasks]
      exact (List.mem_erase_of_ne (others p (by simp [whole, inside]))).mpr (present p inside)

theorem Reported.loop {act : Call.LoopAct} {call : Call Pc α β σ ε} (reported : Reported s)
    (inv : Inv f s) (turn : reportsInTurn (κ := κ) s (.loop act) = true)
    (stepped : s.toCall.loopStep act = some call) : Reported { s with toCall := call } := by
  cases act with
  | taskDone i =>
      simp only [Call.loopStep] at stepped
      split at stepped
      · rename_i ended found
        split at stepped <;> simp only [Option.some.injEq, reduceCtorEq] at stepped
        rename_i enabled
        exact stepped ▸ reported.taskDone inv found enabled.2.2 turn
      · simp at stepped
  | wakeCaller =>
      simp only [Call.loopStep] at stepped
      split at stepped <;> simp only [Option.some.injEq, reduceCtorEq] at stepped
      subst stepped
      obtain ⟨tasks, errors, base⟩ : s.toCall.wakeCaller.group.tasks = s.group.tasks ∧
          s.toCall.wakeCaller.group.errors = s.group.errors ∧
          s.toCall.wakeCaller.group.baseError = s.group.baseError := by
        rw [Call.wakeCaller_group]
        unfold Scope.wake TaskGroup.wake TaskGroup.caught
        dsimp only
        split <;> split <;> exact ⟨rfl, rfl, rfl⟩
      obtain ⟨⟨done, rest, whole, recorded, gone, present⟩, distinct, based⟩ := reported
      exact ⟨⟨done, rest, whole, errors.trans recorded, fun p inside => tasks ▸ gone p inside,
        fun p inside => tasks ▸ present p inside⟩, distinct, by
          show s.toCall.wakeCaller.group.baseError = _
          rw [base, based, errors]⟩
  | cancelCaller =>
      simp only [Call.loopStep] at stepped
      split at stepped <;> simp only [Option.some.injEq, reduceCtorEq] at stepped
      exact stepped ▸ reported.grown (i := 0) rfl (.inl rfl)
  | rearm entryCancelling entryProbe =>
      simp only [Call.loopStep] at stepped
      split at stepped <;> simp only [Option.some.injEq, reduceCtorEq] at stepped
      exact stepped ▸ reported.grown (i := 0) rfl (.inl rfl)

theorem Local.group {i : Nat} (rest : Local i s t) : t.group = s.group := by
  obtain ⟨fresh, group, _⟩ := rest.step.group
  have tasks := rest.tasks
  rw [group] at tasks ⊢
  have none : fresh = [] := by simpa using tasks
  simp [none]

theorem Reported.aside {i : Nat} (reported : Reported s) (rest : Local i s t)
    (ends : endLog t.log = endLog s.log) : Reported t := by
  exact reported.grown (i := i) rest.group (.inl (by rw [failures, ends, failures]))

theorem Reported.step {a : Act β κ ε} (strict : f.Strict) (reported : Reported s) (inv : Inv f s)
    (stepped : f.stepReporting s a = some t) : Reported t := by
  obtain ⟨turn, stepped⟩ := stepReporting_eq stepped
  cases a with
  | loop act =>
      simp only [Fanout.step, Option.map_eq_some_iff] at stepped
      obtain ⟨call, moved, rfl⟩ := stepped
      exact reported.loop inv turn moved
  | user act =>
      simp only [Fanout.step] at stepped
      split at stepped
      · simp only [Option.map_eq_some_iff] at stepped
        obtain ⟨call, moved, rfl⟩ := stepped
        obtain ⟨log, _, group, _⟩ := Call.userStep_same moved
        exact reported.grown (i := 0) group (.inl (congrArg failures log))
      · simp at stepped
  | run i =>
      simp only [Fanout.step, Option.isNone_iff_eq_none] at stepped
      split at stepped
      · rename_i enabled
        obtain ⟨open_, idle, alive⟩ := enabled
        split at stepped
        · rename_i item found place
          simp only [Option.some.injEq] at stepped
          obtain ⟨ready, calm⟩ := inv.ready idle alive found (by simp [place, Pc.inUser])
          exact stepped ▸ reported.aside (firstStep_stepped ready calm).rest (firstStep_ends f s i item)
        · rename_i item found place
          split at stepped <;> simp only [Option.some.injEq, reduceCtorEq] at stepped
          obtain ⟨ready, calm⟩ := inv.ready idle alive found (by simp [place, Pc.inUser])
          exact stepped ▸ reported.aside (acquired_stepped ready calm).rest (acquired_ends f s i item)
        · simp at stepped
      · simp at stepped
  | deadline i =>
      simp only [Fanout.step] at stepped
      split at stepped
      · split at stepped <;> simp only [Option.some.injEq, reduceCtorEq] at stepped
        subst stepped
        exact reported.grown (i := i) rfl (.inl (congrArg (List.filterMap failing?) (endLog_called rfl)))
      · simp at stepped
  | finish i out clock =>
      simp only [Fanout.step, Option.isNone_iff_eq_none] at stepped
      split at stepped
      · rename_i item cm found inside
        split at stepped <;> simp only [Option.some.injEq, reduceCtorEq] at stepped
        rename_i enabled
        obtain ⟨open_, _, alive⟩ := enabled
        have rest := (finish_stepped ((f.stub item).getD out) clock strict inv.sound inv.logged open_
          alive found inside (inv.item i) fun own isStub => by simp [isStub]).rest
        obtain ⟨call, completion, _, ends⟩ := finish_ends f s i item cm ((f.stub item).getD out) clock
        subst stepped
        simp only [Scope.live, Bool.and_eq_true, decide_eq_true_eq, Option.isNone_iff_eq_none] at alive
        refine reported.grown (i := i) rest.group ?_
        rw [failures, ends, List.filterMap_append]
        cases failed : failing? (i, call, completion) with
        | none => exact .inl (by simp [failed, failures])
        | some p =>
            right
            have own : p.1 = i := by
              unfold failing? at failed
              split at failed
              · rename_i j _ exc same
                split at failed <;> simp only [Option.some.injEq, reduceCtorEq] at failed
                rw [← failed]
                exact (Prod.mk.inj same).1.symm
              · simp at failed
            refine ⟨p.2, alive.1, fun before => ?_, ?_⟩
            · obtain ⟨⟨j, exc⟩, member, rfl⟩ := List.mem_map.mp before
              rw [inv.ended_of_failed member] at alive
              simp at alive
            · have pair : p = (i, p.2) := by rw [← own]
              rw [← pair]
              simp [failed, failures]
      · simp at stepped

theorem Reported.init (f : Fanout α β κ σ ε) (caller : Caller) : Reported (f.init caller) := by
  have log : (f.init caller).log = [] := by
    simp only [Fanout.init]
    split <;> rfl
  have group : (f.init caller).group.errors = [] ∧ (f.init caller).group.baseError = none := by
    simp only [Fanout.init]
    split <;> exact ⟨rfl, rfl⟩
  have none : failures (f.init caller).log = [] := by
    rw [log]
    rfl
  exact ⟨⟨[], [], none, group.1, by simp, by simp⟩, by simp [none], by rw [group.1, group.2]; rfl⟩

theorem reported_of_reaches {caller : Caller} (strict : f.Strict)
    (reached : Runs.Reaches f.stepReporting (f.init caller) s) : Inv f s ∧ Reported s := by
  refine reached.invariant (p := fun s => Inv f s ∧ Reported s) ?_ ⟨Inv.init f caller, Reported.init f caller⟩
  rintro s a t ⟨inv, reported⟩ stepped
  exact ⟨inv.step strict (stepReporting_eq stepped).2, reported.step strict inv stepped⟩

/-- How a fan-out whose calls may fail ends: with the first `SystemExit` or `KeyboardInterrupt`,
or with all its failures in the order in which they came. -/
theorem exit_failures {caller : Caller} {exit : Exit (Exc ε)} (strict : f.Strict)
    (reached : Runs.Reaches f.stepReporting (f.init caller) s) (left : s.exit = some exit) :
    match ((failures s.log).map Prod.snd).find? Exc.isBaseError with
    | some error => exit = .base error
    | none =>
        if failures s.log = [] then exit = .returned ∨ exit = .cancelled
        else exit = .group ((failures s.log).map Prod.snd) := by
  obtain ⟨inv, ⟨done, rest, whole, errors, gone, present⟩, _, base⟩ := reported_of_reaches strict reached
  obtain ⟨empty, outcome⟩ := inv.sound.closed exit left
  have all : failures s.log = done := by
    cases rest with
    | nil => simpa using whole
    | cons p later =>
        have waiting := present p (by simp)
        simp [empty] at waiting
  rw [all, ← errors, ← base, outcome]
  unfold TaskGroup.outcome
  cases s.group.baseError with
  | some error => rfl
  | none =>
      have same : done = [] ↔ s.group.errors = [] := by simp [errors]
      simp only [same]
      by_cases none : s.group.errors = []
      · cases s.group.propagate <;> simp [none]
      · simp [none]

end Fanout

/-- What `process` raises for its calls: each of them fails at most once and with what is made
of its end, and the failures leave the group in the order in which they came, or the first
`SystemExit` or `KeyboardInterrupt` alone. -/
theorem process_raises (items : List α) (concurrency : Nat) (timeout : Option ℚ)
    (returnExceptions : Bool) (caller : Caller) (s : Fanout.State α β (Slot β ε) ε)
    (exit : Exit (Exc ε))
    (reached : Runs.Reaches (process items concurrency timeout returnExceptions).stepReporting
      ((process items concurrency timeout returnExceptions).init caller) s)
    (left : s.exit = some exit) :
    ((Fanout.failures s.log).map Prod.fst).Nodup ∧
    (∀ i exc, (i, exc) ∈ Fanout.failures s.log → ∃ item call, items[i]? = some item ∧
      .called i item ∈ s.log ∧ .ended i call (.failed exc) ∈ s.log ∧
      collect returnExceptions timeout i call = .failed exc ∧
      (returnExceptions = true → exc.isException = false)) ∧
    match ((Fanout.failures s.log).map Prod.snd).find? Exc.isBaseError with
    | some error => exit = .base error
    | none =>
        if Fanout.failures s.log = [] then exit = .returned ∨ exit = .cancelled
        else exit = .group ((Fanout.failures s.log).map Prod.snd) := by
  have strict := process_strict (β := β) (ε := ε) items concurrency timeout returnExceptions
  obtain ⟨inv, reported⟩ := Fanout.reported_of_reaches strict reached
  refine ⟨reported.distinct, fun i exc failed => ?_, Fanout.exit_failures strict reached left⟩
  obtain ⟨_, call, ended⟩ := Fanout.mem_failures.mp failed
  obtain ⟨item, _, found, record, _, _, result⟩ := inv.record ended
  have collected : collect returnExceptions timeout i call = .failed exc := result
  refine ⟨item, call, found, ?_, ended, collected, fun collects => ?_⟩
  · have first : .called i item ∈ history i s.log := by simp [record, opening]
    exact (mem_history.mp first).1
  · unfold collect at collected
    split at collected
    · simp at collected
    · rename_i e _
      split at collected
      · simp at collected
      · rename_i lets
        obtain rfl : e = exc := Completion.failed.inj collected
        simpa [collects] using lets

def failsTwice : List (Fanout.Act Nat Unit Nat) :=
  [.run 0, .user (.suspend 0), .run 1, .finish 1 (.raised .exception 1) (), .loop (.taskDone 1),
    .loop .wakeCaller, .user (.resume 0), .finish 0 (.raised .exception 0) (), .loop (.taskDone 0),
    .loop .wakeCaller]

theorem process_raises_pair : ∃ s : Fanout.State Nat Nat (Slot Nat Nat) Nat,
    Fanout.failures s.log = [(1, .raised .exception 1), (0, .raised .exception 0)] ∧
      s.exit = some (.group [.raised .exception 1, .raised .exception 0]) := by
  let f : Fanout Nat Nat Unit (Slot Nat Nat) Nat := process [0, 1] 2 none false
  have ends : (Runs.run f.stepReporting (f.init { task := {} }) failsTwice).any (fun s => s.exit.isSome &&
      Fanout.failures s.log == [(1, .raised .exception 1), (0, .raised .exception 0)]) = true := by decide
  obtain ⟨s, ran, checked⟩ := (Option.any_eq_true _ _).mp ends
  simp only [Bool.and_eq_true, beq_iff_eq] at checked
  obtain ⟨some_, failures⟩ := checked
  obtain ⟨exit, left⟩ := Option.isSome_iff_exists.mp some_
  have raises := (process_raises [0, 1] 2 none false { task := {} } s exit ⟨failsTwice, ran⟩ left).2.2
  rw [failures] at raises
  exact ⟨s, failures, left.trans (congrArg some raises)⟩

end AsyncPipelines
