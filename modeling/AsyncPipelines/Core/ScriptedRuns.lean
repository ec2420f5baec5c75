import AsyncPipelines.Core.FanoutSlots
import AsyncPipelines.Core.Scripted
import Mathlib.Algebra.Order.BigOperators.Group.Finset

/-!
A fan-out whose calls all return can return, from wherever a run has come to: as long
as nobody cancels its caller, no state of it is stuck.
-/

namespace AsyncPipelines

open Asyncio

variable {α β κ σ ε χ act : Type}

structure Script.Total (p : Script α β ε χ act) (rank : χ → Nat) : Prop where
  goesOn : ∀ i item x, p.Reach i item x → p.outcome x = none →
    ∃ a y, p.move x a = some y ∧ rank y < rank x
  returns : ∀ i item x out, p.Reach i item x → p.outcome x = some out → ∃ value, out = .returned value

namespace Fanout

structure Steady (f : Fanout α β κ σ ε) : Prop where
  strict : f.Strict
  plain : ∀ item, f.stub item = none
  keeps : ∀ index item clock call value, call.block = .ok value →
    ∃ slot, f.complete index item clock call = .stored slot
  untimed : f.timeout = none
  slots : ∃ slots, f.concurrency = some (slots + 1)

def Act.Harmless : Act β κ ε → Prop
  | .loop .cancelCaller => False
  | .loop (.rearm _ _) => False
  | .finish _ out _ => ∃ value, out = .returned value
  | _ => True

def Waits (child : Child Pc (Exc ε)) : Prop :=
  child.ended = none → child.pc = .acquiring → child.task.waiter ≠ none

structure Undisturbed (f : Fanout α β κ σ ε) (s : State α β σ ε) : Prop where
  inv : Inv f s
  slots : f.SlotsKept s
  calm : s.stopping = false
  exits : s.exit = none ∨ s.exit = some .returned
  waits : ∀ j, Waits (s.child j)

variable {f : Fanout α β κ σ ε} {s t : State α β σ ε} {i : Nat}

theorem enterSlot_latch (f : Fanout α β κ σ ε) (s : State α β σ ε) (i : Nat) (item : α) :
    (f.enterSlot s i item).failed = s.failed := by
  unfold enterSlot
  split
  · exact (quiet_release s).failed
  · rfl

theorem firstStep_latch (f : Fanout α β κ σ ε) (s : State α β σ ε) (i : Nat) (item : α) :
    (f.firstStep s i item).failed = s.failed := by
  unfold firstStep
  split
  · rfl
  · split
    · exact enterSlot_latch f s i item
    · split
      · rfl
      · exact enterSlot_latch f _ i item

theorem acquired_latch (f : Fanout α β κ σ ε) (s : State α β σ ε) (i : Nat) (item : α) :
    (f.acquired s i item).failed = s.failed := by
  unfold acquired
  dsimp only
  split
  · split
    · rfl
    · exact (quiet_release { s with
        toCall := s.toCall.setTask i (s.child i).task.resume
        sem := s.sem.map fun sem => { sem with waiters := sem.waiters.erase i } }).failed
  · split
    · refine (enterSlot_latch f _ i item).trans ?_
      exact (quiet_wakeUpNext { s with
        toCall := s.toCall.setTask i (s.child i).task.resume
        sem := s.sem.map fun sem => { sem with waiters := sem.waiters.erase i } }).failed
    · exact enterSlot_latch f _ i item

theorem setChild_waits {j : Nat} {child : Child Pc (Exc ε)} (own : Waits child)
    (before : j ≠ i → Waits (s.child j)) : Waits ((s.toCall.setChild i child).child j) := by
  by_cases here : j = i
  · simpa [Call.setChild, here] using own
  · simpa [Call.setChild, here] using before here

theorem wakeUpNext_waits {j : Nat} (before : Waits (s.child j)) : Waits (s.wakeUpNext.child j) := by
  unfold State.wakeUpNext
  split
  · exact before
  · show Waits ((s.toCall.fulfil _).child j)
    rw [Call.fulfil_child]
    split
    · simp [Waits]
    · exact before

theorem release_waits {j : Nat} (before : Waits (s.child j)) : Waits (s.release.child j) :=
  wakeUpNext_waits (s := { s with sem := s.sem.map fun sem => { sem with value := sem.value + 1 } }) before

theorem endTask_waits {j : Nat} (ended : TaskEnd (Exc ε)) (before : j ≠ i → Waits (s.child j)) :
    Waits ((s.endTask i ended).child j) :=
  setChild_waits (by simp [Waits]) before

theorem enterSlot_waits {j : Nat} (item : α) (before : j ≠ i → Waits (s.child j)) :
    Waits ((f.enterSlot s i item).child j) := by
  unfold enterSlot
  split
  · exact endTask_waits _ fun other => release_waits (before other)
  · exact setChild_waits (by simp [Waits]) before

theorem firstStep_waits {j : Nat} (item : α) (before : j ≠ i → Waits (s.child j)) :
    Waits ((f.firstStep s i item).child j) := by
  unfold firstStep
  split
  · exact endTask_waits _ before
  · split
    · exact enterSlot_waits item before
    · split
      · refine setChild_waits ?_ before
        intro _ _
        show (s.child i).task.await.waiter ≠ none
        rw [Task.await_waiter]
        split <;> simp
      · exact enterSlot_waits (s := { s with sem := some _ }) item before

theorem acquired_waits {j : Nat} (item : α) (before : j ≠ i → Waits (s.child j)) :
    Waits ((f.acquired s i item).child j) := by
  have left : j ≠ i → Waits ((s.toCall.setTask i (s.child i).task.resume).child j) := by
    intro other
    rw [Call.setTask_child, if_neg other]
    exact before other
  unfold acquired
  dsimp only
  split
  · split
    · exact endTask_waits _ left
    · exact endTask_waits _ fun other => release_waits (left other)
  · split
    · exact enterSlot_waits item fun other => wakeUpNext_waits (left other)
    · exact enterSlot_waits item left

theorem finish_waits {j : Nat} (item : α) (cm : Option Timeout) (out : FnEnd β ε) (clock : κ)
    (before : j ≠ i → Waits (s.child j)) : Waits ((f.finish s i item cm out clock).child j) := by
  have left : j ≠ i → Waits ((s.toCall.setTask i (leaveTimeout cm (s.child i).task out).2.2).child j) := by
    intro other
    rw [Call.setTask_child, if_neg other]
    exact before other
  unfold finish
  dsimp only
  split
  · exact endTask_waits _ fun other => release_waits (left other)
  · exact endTask_waits _ fun other => release_waits (left other)

theorem step_waits {a : Act β κ ε} (waits : ∀ j, Waits (s.child j))
    (stepped : f.step s a = some t) (j : Nat) : Waits (t.child j) := by
  cases a with
  | loop act =>
      simp only [Fanout.step, Option.map_eq_some_iff] at stepped
      obtain ⟨call, moved, rfl⟩ := stepped
      show Waits (call.child j)
      rcases Call.loopStep_child moved j with same | cancelled
      · exact same ▸ waits j
      · rw [cancelled]
        intro alive place
        have asleep := waits j (by simpa using alive) (by simpa using place)
        unfold Child.cancel
        split
        · exact asleep
        · rw [Task.cancel_waiter]
          split <;> simp [asleep]
  | user act =>
      simp only [Fanout.step] at stepped
      split at stepped
      · simp only [Option.map_eq_some_iff] at stepped
        obtain ⟨call, moved, rfl⟩ := stepped
        obtain ⟨_, _, _, _, ⟨task, child⟩, ⟨inside, _⟩, _⟩ := Call.userStep_same moved
        show Waits (call.child j)
        rw [child]
        refine setChild_waits (fun _ place => ?_) fun _ => waits j
        simp [show (s.child act.task).pc = .acquiring from place, Pc.inUser] at inside
      · simp at stepped
  | run i =>
      simp only [Fanout.step] at stepped
      split at stepped
      · split at stepped
        · exact Option.some.inj stepped ▸ firstStep_waits _ fun _ => waits j
        · split at stepped <;> simp only [Option.some.injEq, reduceCtorEq] at stepped
          exact stepped ▸ acquired_waits _ fun _ => waits j
        · simp at stepped
      · simp at stepped
  | deadline i =>
      simp only [Fanout.step] at stepped
      split at stepped
      · split at stepped <;> simp only [Option.some.injEq, reduceCtorEq] at stepped
        exact stepped ▸ setChild_waits (by simp [Waits]) fun _ => waits j
      · simp at stepped
  | finish i out clock =>
      simp only [Fanout.step] at stepped
      split at stepped
      · split at stepped <;> simp only [Option.some.injEq, reduceCtorEq] at stepped
        exact stepped ▸ finish_waits _ _ _ clock fun _ => waits j
      · simp at stepped

theorem finish_returned (steady : f.Steady) (s : State α β σ ε) (i : Nat) (item : α) (value : β)
    (clock : κ) : (f.finish s i item none (.returned value) clock).failed = s.failed ∧
      (f.finish s i item none (.returned value) clock).running = none ∧
      ((f.finish s i item none (.returned value) clock).child i).ended.isSome := by
  obtain ⟨slot, stored⟩ := steady.keeps i item clock
    (s.callEnd i (.returned value) (leaveTimeout none (s.child i).task (.returned value))) value rfl
  unfold finish
  simp only [stored]
  refine ⟨(quiet_release _).failed, rfl, ?_⟩
  simp [State.endTask, Call.endTask_ended]

theorem unaborted {c : Call χ α β σ ε} (sound : Call.Sound c) (open_ : c.exit = none)
    (calm : c.stopping = false) : c.group.aborting = false ∧ c.parent.throws = false := by
  have idle : c.group.aborting = false := by
    by_contra aborting
    simp [sound.aborting_stopping open_ (by simpa using aborting)] at calm
  refine ⟨idle, ?_⟩
  by_contra throws
  rcases sound.thrown open_ (by simpa using throws) with cancelled | aborting
  · simp [(Call.stopping_iff c).mpr (Or.inr cancelled)] at calm
  · simp [idle] at aborting

theorem calm_wakeCaller {c : Call χ α β σ ε} (sound : Call.Sound c) (open_ : c.exit = none)
    (calm : c.stopping = false) : c.wakeCaller.stopping = false ∧
      c.wakeCaller.exit = if c.group.tasks = [] then some .returned else none := by
  obtain ⟨idle, quiet⟩ := unaborted sound open_ calm
  have errors : c.group.errors = [] := by
    by_contra erred
    simp [sound.erred erred] at idle
  have base : c.group.baseError = none := by
    by_contra based
    exact sound.based based errors
  have unasked : c.group.propagate = false := by
    by_contra asked
    have cancelled := sound.propagated open_ (by simpa using asked)
    simp [(Call.stopping_iff c).mpr (Or.inr cancelled)] at calm
  have uncaught : c.group.caught c.parent.throws = c.group := by simp [TaskGroup.caught, quiet]
  have outcome : c.group.outcome = .returned := by
    simp [TaskGroup.outcome, base, unasked, errors]
  have exit : c.wakeCaller.exit = if c.group.tasks = [] then some .returned else none := by
    have own : c.toScope.wake.exit = _ := Scope.wake_exit c.group c.parent
    rw [Call.wakeCaller_exit, own, uncaught, outcome]
  refine ⟨?_, exit⟩
  rcases Call.wakeCaller_cases c with same | ⟨raised, isGroup⟩
  · rw [same, ← calm]
    have count : c.toScope.wake.parent.cancelling = c.parent.cancelling :=
      Call.wake_parent_cancelling c.group c.parent
    simp [Call.stopping, Call.callerCancelled, CancelProbe.cancelled,
      CancelProbe.broughtInALiveCancel, count]
  · rw [isGroup] at exit
    split at exit <;> simp at exit

theorem calm_taskDone {c d : Call χ α β σ ε} {i : Nat} (sound : Call.Sound c)
    (calm : c.stopping = false) (stepped : c.loopStep (.taskDone i) = some d) :
    d.stopping = false ∧ d.exit = none ∧ d.group.tasks = c.group.tasks.erase i ∧
      d.running = none ∧ d.child = c.child := by
  simp only [Call.loopStep, Option.isNone_iff_eq_none] at stepped
  split at stepped
  · rename_i ended found
    split at stepped <;> simp only [Option.some.injEq, reduceCtorEq] at stepped
    rename_i ready
    have quiet : ∀ error, ended ≠ .raised error := by
      rintro error rfl
      simp [(Call.stopping_iff c).mpr (Or.inl (sound.latched i error found).1)] at calm
    have idle := (unaborted sound ready.1 calm).1
    subst stepped
    obtain ⟨tasks, _, ⟨error, raised, _⟩ | ⟨_, _, aborting, _⟩⟩ :=
      Scope.taskDone_group Exc.isBaseError c.group c.parent i ended
    · exact absurd raised (quiet error)
    · obtain ⟨more, _, ⟨fewer, _⟩ | aborted⟩ := Call.taskDone_parent Exc.isBaseError c.group c.parent i ended
      · have count := Nat.le_antisymm fewer more
        refine ⟨?_, ready.1, tasks, ready.2.1, ?_⟩
        · rw [← calm]
          simp [Call.stopping, Call.callerCancelled, CancelProbe.cancelled,
            CancelProbe.broughtInALiveCancel, Scope.taskDone, count]
        · simp [Scope.taskDone, aborting, idle]
      · simp [aborting, idle] at aborted
  · simp at stepped

theorem Inv.untimed (inv : Inv f s) (untimed : f.timeout = none) {cm : Option Timeout}
    (inside : (s.child i).pc = .calling cm) (alive : s.live i = true) : cm = none := by
  simp only [Scope.live, Bool.and_eq_true, decide_eq_true_eq, Option.isNone_iff_eq_none] at alive
  cases inv.item i with
  | calling _ own _ place _ timed _ _ _ =>
      obtain rfl : cm = own := by simpa [inside] using place
      simpa [untimed] using timed
  | absent beyond _ =>
      have bound := inv.tasks i alive.1
      simp only [List.getElem?_eq_none_iff] at beyond
      omega
  | waiting _ _ outside _ _ _ _ => simp [inside, Pc.inUser] at outside
  | skipped _ _ halted _ _ _ => simp [alive.2] at halted
  | dropped _ _ halted _ _ _ => simp [alive.2] at halted
  | stored _ _ _ _ _ halted _ _ _ _ _ => simp [alive.2] at halted
  | failed _ _ _ _ _ halted _ _ _ _ _ _ => simp [alive.2] at halted

theorem Undisturbed.unthrown (und : Undisturbed f s) (open_ : s.exit = none) {item : α}
    (idle : s.running = none) (alive : s.live i = true) (found : f.items[i]? = some item)
    (outside : (s.child i).pc.inUser = false) : (s.child i).task.throws = false := by
  by_contra throws
  simp only [Bool.not_eq_false] at throws
  have flagged := (und.inv.ready idle alive found outside).2 throws
  exact absurd (und.inv.sound.cancelled_stopping open_ flagged) (by simp [und.calm])

theorem Undisturbed.step {a : Act β κ ε} (steady : f.Steady) (und : Undisturbed f s)
    (harmless : a.Harmless) (stepped : f.step s a = some t) : Undisturbed f t := by
  have inv := und.inv.step steady.strict stepped
  have waits := step_waits und.waits stepped
  have slots := und.slots.step und.inv stepped
  have kept : Call.TaskStep s.toCall t.toCall → t.failed = s.failed → Undisturbed f t := by
    intro step failed
    refine ⟨inv, slots, ?_, step.exit ▸ und.exits, waits⟩
    rw [← und.calm]
    simp [Call.stopping, step.callerCancelled, failed]
  cases a with
  | loop act =>
      simp only [Fanout.step, Option.map_eq_some_iff] at stepped
      obtain ⟨call, moved, rfl⟩ := stepped
      cases act with
      | cancelCaller => exact harmless.elim
      | rearm _ _ => exact harmless.elim
      | wakeCaller =>
          simp only [Call.loopStep, Option.isNone_iff_eq_none] at moved
          split at moved <;> simp only [Option.some.injEq, reduceCtorEq] at moved
          rename_i ready
          obtain ⟨calm, exit⟩ := calm_wakeCaller und.inv.sound ready.1 und.calm
          subst moved
          refine ⟨inv, slots, calm, ?_, waits⟩
          show s.toCall.wakeCaller.exit = none ∨ _
          rw [exit]
          split
          · exact Or.inr rfl
          · exact Or.inl rfl
      | taskDone i =>
          obtain ⟨calm, open_, _⟩ := calm_taskDone und.inv.sound und.calm moved
          exact ⟨inv, slots, calm, Or.inl open_, waits⟩
  | user act =>
      simp only [Fanout.step] at stepped
      split at stepped
      · simp only [Option.map_eq_some_iff] at stepped
        obtain ⟨call, moved, rfl⟩ := stepped
        exact kept (Call.TaskStep.userStep moved) (Call.userStep_same moved).2.1
      · simp at stepped
  | run i =>
      simp only [Fanout.step, Option.isNone_iff_eq_none] at stepped
      split at stepped
      · rename_i enabled
        split at stepped
        · rename_i item found place
          obtain ⟨ready, calm⟩ := und.inv.ready enabled.2.1 enabled.2.2 found (by simp [place, Pc.inUser])
          simp only [Option.some.injEq] at stepped
          subst stepped
          exact kept (firstStep_stepped ready calm).rest.step (firstStep_latch f s i item)
        · rename_i item found place
          obtain ⟨ready, calm⟩ := und.inv.ready enabled.2.1 enabled.2.2 found (by simp [place, Pc.inUser])
          split at stepped <;> simp only [Option.some.injEq, reduceCtorEq] at stepped
          subst stepped
          exact kept (acquired_stepped ready calm).rest.step (acquired_latch f s i item)
        · simp at stepped
      · simp at stepped
  | deadline i =>
      simp only [Fanout.step] at stepped
      split at stepped
      · split at stepped <;> simp only [Option.some.injEq, reduceCtorEq] at stepped
        subst stepped
        exact ⟨inv, slots, und.calm, und.exits, waits⟩
      · simp at stepped
  | finish i out clock =>
      obtain ⟨value, rfl⟩ := harmless
      simp only [Fanout.step, Option.isNone_iff_eq_none] at stepped
      split at stepped
      · rename_i item cm found inside
        split at stepped <;> simp only [Option.some.injEq, reduceCtorEq] at stepped
        rename_i enabled
        simp only [steady.plain, Option.getD_none] at stepped
        obtain rfl : cm = none := und.inv.untimed steady.untimed inside enabled.2.2
        have moved := finish_stepped (.returned value) clock steady.strict und.inv.sound und.inv.logged
          enabled.1 enabled.2.2 found inside (und.inv.item i) (by simp [steady.plain])
        subst stepped
        exact kept moved.rest.step (finish_returned steady s i item value clock).1
      · simp at stepped

def toGo (child : Child Pc (Exc ε)) : Nat :=
  if child.ended.isSome then 0 else if child.pc = .created then 2 else 1

def left (f : Fanout α β κ σ ε) (s : State α β σ ε) : Nat :=
  s.group.tasks.length + ∑ j ∈ Finset.range f.items.length, toGo (s.child j)

theorem left_local (moved : Local i s t) (bound : i < f.items.length)
    (fewer : toGo (t.child i) < toGo (s.child i)) : f.left t < f.left s := by
  have others : ∀ j ∈ Finset.range f.items.length, toGo (t.child j) ≤ toGo (s.child j) := by
    intro j _
    by_cases own : j = i
    · exact own ▸ Nat.le_of_lt fewer
    · simp [toGo, (moved.frame j own).pc, (moved.frame j own).ended]
  have sums := Finset.sum_lt_sum others ⟨i, Finset.mem_range.mpr bound, fewer⟩
  simp only [left, moved.tasks]
  omega

theorem Inv.alive (inv : Inv f s) (bound : i < f.items.length) (unended : (s.child i).ended = none) :
    s.live i = true := by
  simp only [Scope.live, Bool.and_eq_true, decide_eq_true_eq, Option.isNone_iff_eq_none]
  refine ⟨?_, unended⟩
  by_contra gone
  exact inv.left i bound gone unended

namespace Scripted

def stepCalm (f : Fanout α β κ σ ε) (p : Script α β ε χ act) (w : Scripted α β σ ε χ) :
    ScriptAct β κ ε act → Option (Scripted α β σ ε χ)
  | .core (.loop .cancelCaller) => none
  | .core (.loop (.rearm _ _)) => none
  | a => w.step f p a

theorem stepCalm_eq {p : Script α β ε χ act} {w v : Scripted α β σ ε χ} {a : ScriptAct β κ ε act}
    (stepped : w.stepCalm f p a = some v) : w.step f p a = some v := by
  unfold stepCalm at stepped
  split at stepped
  · simp at stepped
  · simp at stepped
  · exact stepped

end Scripted

structure Going (f : Fanout α β κ σ ε) (p : Script α β ε χ act) (w : Scripted α β σ ε χ) : Prop where
  follows : Follows f p w
  core : Undisturbed f w.core

variable {p : Script α β ε χ act} {w v : Scripted α β σ ε χ} {rank : χ → Nat}

theorem Going.init (f : Fanout α β κ σ ε) (p : Script α β ε χ act) {caller : Caller}
    (calm : caller.task.mustCancel = false) : Going f p (Scripted.init f caller) := by
  refine ⟨Follows.init f p caller, Inv.init f caller, SlotsKept.init f caller, ?_, ?_, fun j => ?_⟩
  · simp only [Scripted.init, Fanout.init]
    split <;> simp [Call.enter, Call.stopping, Call.callerCancelled, CancelProbe.cancelled,
      CancelProbe.broughtInALiveCancel, CancelProbe.enter, calm]
  · simp only [Scripted.init, Fanout.init]
    split
    · exact Or.inr rfl
    · exact Or.inl rfl
  · simp only [Scripted.init, Fanout.init]
    split <;> simp [Waits, Call.enter]

theorem Going.step {a : ScriptAct β κ ε act} (steady : f.Steady) (total : p.Total rank)
    (going : Going f p w) (stepped : w.stepCalm f p a = some v) : Going f p v := by
  have moved := Scripted.stepCalm_eq stepped
  refine ⟨going.follows.step steady.strict steady.plain moved, ?_⟩
  cases a with
  | core a =>
      obtain ⟨followed, notFinish⟩ := Follows.core_follow moved
      obtain ⟨t, core, rfl⟩ := Option.map_eq_some_iff.mp followed
      refine going.core.step steady ?_ core
      cases a with
      | loop act => cases act <;> simp_all [Scripted.stepCalm, Act.Harmless]
      | finish i out clock => exact absurd rfl (notFinish i out clock)
      | user act => trivial
      | run i => trivial
      | deadline i => trivial
  | move i a =>
      simp only [Scripted.step] at moved
      split at moved
      · obtain ⟨y, _, rfl⟩ := Option.map_eq_some_iff.mp moved
        exact going.core
      · simp at moved
  | aside i a =>
      simp only [Scripted.step] at moved
      split at moved
      · obtain ⟨y, _, rfl⟩ := Option.map_eq_some_iff.mp moved
        exact going.core
      · simp at moved
  | finish i clock =>
      simp only [Scripted.step] at moved
      split at moved
      · rename_i out ended
        obtain ⟨t, core, rfl⟩ := Option.map_eq_some_iff.mp moved
        obtain ⟨x, code, isOut⟩ := Option.bind_eq_some_iff.mp ended
        obtain ⟨item, _, reach⟩ := going.follows.reach i x code
        exact going.core.step (a := .finish i out clock) steady (total.returns i item x out reach isOut) core
      · simp at moved

theorem left_local_le (moved : Local i s t) (fewer : toGo (t.child i) ≤ toGo (s.child i)) :
    f.left t ≤ f.left s := by
  have others : ∀ j ∈ Finset.range f.items.length, toGo (t.child j) ≤ toGo (s.child j) := by
    intro j _
    by_cases own : j = i
    · exact own ▸ fewer
    · simp [toGo, (moved.frame j own).pc, (moved.frame j own).ended]
  have sums := Finset.sum_le_sum others
  simp only [left, moved.tasks]
  omega

theorem enterSlot_begins (item : α) (open_ : s.failed = false) (alive : (s.child i).ended = none) :
    (f.enterSlot s i item).running = some i ∧ toGo ((f.enterSlot s i item).child i) = 1 := by
  simp [enterSlot, open_, Call.beginCall, Call.emit, Call.setChild, toGo, alive]

theorem firstStep_begins (item : α) (open_ : s.failed = false) (alive : (s.child i).ended = none)
    (unthrown : (s.child i).task.throws = false) : toGo ((f.firstStep s i item).child i) = 1 ∧
      ((f.firstStep s i item).running = some i ∨ (f.firstStep s i item).running = s.running) := by
  unfold firstStep
  simp only [unthrown, Bool.false_eq_true, ↓reduceIte]
  split
  · exact ⟨(enterSlot_begins item open_ alive).2, Or.inl (enterSlot_begins item open_ alive).1⟩
  · split
    · exact ⟨by simp [Call.setChild, toGo, alive], Or.inr rfl⟩
    · rename_i sem _ _
      obtain ⟨busy, less⟩ := enterSlot_begins (f := f) (i := i)
        (s := { s with sem := some { sem with value := sem.value - 1 } }) item open_ alive
      exact ⟨less, Or.inl busy⟩

theorem acquired_begins (item : α) (open_ : s.failed = false) (alive : (s.child i).ended = none)
    (unthrown : (s.child i).task.throws = false) : toGo ((f.acquired s i item).child i) = 1 ∧
      (f.acquired s i item).running = some i := by
  have own : ((s.toCall.setTask i (s.child i).task.resume).child i).ended = none := by
    rw [Call.setTask_child, if_pos rfl]
    exact alive
  unfold acquired
  dsimp only
  simp only [unthrown, Bool.false_eq_true, ↓reduceIte]
  split
  · have quiet := quiet_wakeUpNext { s with
      toCall := s.toCall.setTask i (s.child i).task.resume
      sem := s.sem.map fun sem => { sem with waiters := sem.waiters.erase i } }
    exact (enterSlot_begins item (quiet.failed.trans open_) ((quiet.frame i).ended.trans own)).symm
  · exact (enterSlot_begins (s := { s with toCall := s.toCall.setTask i (s.child i).task.resume, sem := _ })
      item open_ own).symm

/-- While tasks only wait for slots, one of them has been woken. -/
theorem exists_woken {slots : Nat} (inv : Inv f s) (waits : ∀ j, Waits (s.child j))
    (kept : ∃ sem, Slotted f (slots + 1) s sem ∧ Fair s sem) {k : Nat} (member : k ∈ s.group.tasks)
    (waiting : ∀ j ∈ s.group.tasks, (s.child j).ended = none ∧ (s.child j).pc = .acquiring) :
    ∃ j ∈ s.group.tasks, (s.child j).task.woken = true := by
  obtain ⟨sem, slotted, fair⟩ := kept
  by_contra nobody
  simp only [not_exists, not_and, Bool.not_eq_true] at nobody
  have asleep : ∀ j ∈ s.group.tasks, (s.child j).task.waiter = some .pending := by
    intro j member
    have unwoken := nobody j member
    have waits := waits j (waiting j member).1 (waiting j member).2
    cases waiter : (s.child j).task.waiter with
    | none => exact absurd waiter waits
    | some fut => cases fut <;> simp_all [Task.woken]
  have done : ∀ j, awaits .done (s.child j) ≠ true := by
    intro j woken
    have bound := slotted.within j ((slotted.listed j).mpr (parked_of_awaits woken))
    simp only [awaits, Bool.and_eq_true, decide_eq_true_eq, Option.isNone_iff_eq_none] at woken
    have alive := inv.alive bound woken.1.1
    simp only [Scope.live, Bool.and_eq_true, decide_eq_true_eq] at alive
    simp [asleep j alive.1] at woken
  have nothing : f.held s = 0 := by
    rw [held, Nat.count_eq_card_filter_range, Finset.card_eq_zero, Finset.filter_eq_empty_iff]
    intro j bound
    rw [Finset.mem_range] at bound
    by_cases alive : (s.child j).ended = none
    · have here := inv.alive bound alive
      simp only [Scope.live, Bool.and_eq_true, decide_eq_true_eq] at here
      simp [not_holds (s.child j) (by simp [waiting j here.1, Pc.inUser]) (by simp [asleep j here.1])]
    · simp [(over_holds alive).1]
  obtain ⟨j, woken⟩ := fair (by have := slotted.balance; omega) k (by simp [awaits, waiting k member, asleep k member])
  exact done j woken

theorem Undisturbed.woken (steady : f.Steady) (und : Undisturbed f s) {k : Nat} (member : k ∈ s.group.tasks)
    (waiting : ∀ j ∈ s.group.tasks, (s.child j).ended = none ∧ (s.child j).pc = .acquiring) :
    ∃ j ∈ s.group.tasks, (s.child j).task.woken = true := by
  obtain ⟨slots, concurrency⟩ := steady.slots
  exact exists_woken und.inv und.waits (und.slots _ concurrency) member waiting

section Progress

variable (steady : f.Steady) (total : p.Total rank)
include steady total

theorem Going.take {a : Act β κ ε} (going : Going f p w)
    (same : w.stepCalm f p (.core a) = w.follow f p a) (moved : f.step w.core a = some t) :
    ∃ v, Runs.Reaches (Scripted.stepCalm f p) w v ∧ Going f p v ∧ v.core = t := by
  have stepped : w.stepCalm f p (.core a) = some ⟨t, w.codeAfter f p t⟩ := by
    rw [same]
    simp [Scripted.follow, moved]
  exact ⟨_, Runs.Reaches.one stepped, going.step steady total stepped, rfl⟩

theorem Going.close (going : Going f p w) (open_ : w.core.exit = none) (idle : w.core.running = none)
    (empty : w.core.group.tasks = []) :
    ∃ v, Runs.Reaches (Scripted.stepCalm f p) w v ∧ Going f p v ∧ v.core.exit = some .returned := by
  have sound := going.core.inv.sound
  obtain ⟨fut, waiter, pending⟩ := sound.waiting open_
  have woken : w.core.parent.woken = true := by
    cases fut with
    | pending => exact absurd empty (pending rfl)
    | done => simp [Task.woken, waiter]
    | cancelled => simp [Task.woken, waiter]
  have moved : f.step w.core (.loop .wakeCaller) = some { w.core with toCall := w.core.toCall.wakeCaller } := by
    simp [Fanout.step, Call.loopStep, open_, idle, woken]
  obtain ⟨v, reached, goes, same⟩ := going.take steady total rfl moved
  refine ⟨v, reached, goes, ?_⟩
  rw [same]
  show w.core.toCall.wakeCaller.exit = _
  rw [(calm_wakeCaller sound open_ going.core.calm).2, if_pos empty]

theorem Going.reap {i : Nat} (going : Going f p w) (open_ : w.core.exit = none)
    (idle : w.core.running = none) (member : i ∈ w.core.group.tasks)
    (ended : (w.core.child i).ended ≠ none) :
    ∃ v, Runs.Reaches (Scripted.stepCalm f p) w v ∧ Going f p v ∧ v.core.exit = none ∧
      v.core.running = none ∧ f.left v.core < f.left w.core := by
  obtain ⟨how, found⟩ := Option.ne_none_iff_exists'.mp ended
  have moved : ∃ d, w.core.toCall.loopStep (.taskDone i) = some d := by
    simp [Call.loopStep, found, open_, idle, member]
  obtain ⟨d, stepped⟩ := moved
  obtain ⟨_, still, tasks, quiet, child⟩ := calm_taskDone going.core.inv.sound going.core.calm stepped
  obtain ⟨v, reached, goes, same⟩ := going.take (a := .loop (.taskDone i)) (t := { w.core with toCall := d })
    steady total rfl (by simp [Fanout.step, stepped])
  refine ⟨v, reached, goes, ?_⟩
  rw [same]
  refine ⟨still, quiet, ?_⟩
  have shorter := List.length_erase_of_mem member
  have some_ := List.length_pos_of_mem member
  simp only [left, tasks, child]
  omega

variable [Inhabited κ]

theorem Going.drive {i : Nat} (going : Going f p w) (open_ : w.core.exit = none)
    (busy : w.core.running = some i) :
    ∃ v, Runs.Reaches (Scripted.stepCalm f p) w v ∧ Going f p v ∧ v.core.exit = none ∧
      v.core.running = none ∧ f.left v.core < f.left w.core := by
  obtain ⟨inside, unended⟩ := going.core.inv.running i busy
  obtain ⟨x, code⟩ := Option.isSome_iff_exists.mp ((going.follows.begun i).mp inside)
  induction moves : rank x using Nat.strong_induction_on generalizing w x with
  | _ moves ih =>
      obtain ⟨item, found, reach⟩ := going.follows.reach i x code
      have bound := (List.getElem?_eq_some_iff.mp found).1
      have alive := going.core.inv.alive bound unended
      cases outcome : p.outcome x with
      | none =>
          obtain ⟨a, y, moved, fewer⟩ := total.goesOn i item x reach outcome
          have stepped : w.stepCalm f p (.move i a : ScriptAct β κ ε act) = some (w.setCode i y) := by
            simp [Scripted.stepCalm, Scripted.step, open_, busy, code, moved]
          obtain ⟨v, reached, rest⟩ := ih (rank y) (moves ▸ fewer) (w := w.setCode i y)
            (going.step steady total stepped) open_ busy inside unended y (by simp [Scripted.setCode]) rfl
          exact ⟨v, (Runs.Reaches.one stepped).trans reached, rest⟩
      | some out =>
          obtain ⟨value, rfl⟩ := total.returns i item x out reach outcome
          obtain ⟨cm, place⟩ : ∃ cm, (w.core.child i).pc = .calling cm := by
            cases place : (w.core.child i).pc <;> simp_all [Pc.inUser]
          obtain rfl : cm = none := going.core.inv.untimed steady.untimed place alive
          have core : f.step w.core (.finish i (.returned value) default) =
              some (f.finish w.core i item none (.returned value) default) := by
            simp [Fanout.step, found, place, open_, busy, alive, steady.plain]
          obtain ⟨v, stepped, same⟩ : ∃ v, w.stepCalm f p (.finish i default : ScriptAct β κ ε act) = some v ∧
              v.core = f.finish w.core i item none (.returned value) default :=
            ⟨_, by simp [Scripted.stepCalm, Scripted.step, code, outcome, Scripted.follow, core]; rfl, rfl⟩
          have moved := (finish_stepped (.returned value) default steady.strict going.core.inv.sound
            going.core.inv.logged open_ alive found place (going.core.inv.item i)
            (by simp [steady.plain])).rest
          obtain ⟨_, idle, halted⟩ := finish_returned steady w.core i item value default
          refine ⟨v, Runs.Reaches.one stepped, going.step steady total stepped, ?_⟩
          rw [same]
          refine ⟨moved.step.exit.trans open_, idle, left_local moved bound ?_⟩
          simp only [toGo, halted, unended, place]
          simp

theorem Going.serve {a : Act β κ ε} {i : Nat} (going : Going f p w)
    (same : w.stepCalm f p (.core a) = w.follow f p a) (moved : f.step w.core a = some t)
    (open_ : t.exit = none) (busy : t.running = some i) (fewer : f.left t ≤ f.left w.core) :
    ∃ v, Runs.Reaches (Scripted.stepCalm f p) w v ∧ Going f p v ∧ v.core.exit = none ∧
      v.core.running = none ∧ f.left v.core < f.left w.core := by
  obtain ⟨u, reached, goes, rfl⟩ := going.take steady total same moved
  obtain ⟨v, further, rest, still, idle, less⟩ := goes.drive steady total open_ busy
  exact ⟨v, reached.trans further, rest, still, idle, by omega⟩

theorem Going.resume {i : Nat} (going : Going f p w) (open_ : w.core.exit = none)
    (idle : w.core.running = none) (alive : w.core.live i = true)
    (inside : (w.core.child i).pc.inUser = true) :
    ∃ v, Runs.Reaches (Scripted.stepCalm f p) w v ∧ Going f p v ∧ v.core.exit = none ∧
      v.core.running = none ∧ f.left v.core < f.left w.core := by
  have moved : f.step w.core (.user (.resume i)) = some { w.core with
      toCall := { w.core.toCall.setTask i (w.core.child i).task.resume with running := some i } } := by
    have plain : (f.items[i]?.all fun item => (f.stub item).isNone) = true := by
      cases f.items[i]? <;> simp [steady.plain]
    simp only [Fanout.step, Call.UserAct.task, plain, ↓reduceIte]
    simp [Call.userStep, open_, idle, alive, inside]
  refine going.serve steady total (i := i) (a := .user (.resume i)) rfl moved open_ rfl ?_
  refine Nat.le_of_eq ?_
  have same : ∀ j, toGo ((w.core.toCall.setTask i (w.core.child i).task.resume).child j) =
      toGo (w.core.child j) := by
    intro j
    rw [Call.setTask_child]
    split
    · rename_i here
      simp [toGo, here]
    · rfl
  simp only [left]
  exact congrArg _ (Finset.sum_congr rfl fun j _ => same j)

theorem Going.run {i : Nat} (going : Going f p w) (open_ : w.core.exit = none)
    (idle : w.core.running = none) (alive : w.core.live i = true)
    (ready : (w.core.child i).pc = .created ∨
      (w.core.child i).pc = .acquiring ∧ (w.core.child i).task.woken = true) :
    ∃ v, Runs.Reaches (Scripted.stepCalm f p) w v ∧ Going f p v ∧ v.core.exit = none ∧
      v.core.running = none ∧ f.left v.core < f.left w.core := by
  have inv := going.core.inv
  have failed : w.core.failed = false := by
    have calm := going.core.calm
    simp only [Call.stopping, Bool.or_eq_false_iff] at calm
    exact calm.1
  have unended := alive
  simp only [Scope.live, Bool.and_eq_true, decide_eq_true_eq, Option.isNone_iff_eq_none] at unended
  have bound := inv.tasks i unended.1
  have found : f.items[i]? = some f.items[i] := List.getElem?_eq_getElem bound
  have outside : (w.core.child i).pc.inUser = false := by
    rcases ready with place | ⟨place, _⟩ <;> simp [place, Pc.inUser]
  have unthrown := going.core.unthrown open_ idle alive found outside
  obtain ⟨readied, calm⟩ := inv.ready idle alive found outside
  rcases ready with place | ⟨place, woken⟩
  · have moved : f.step w.core (.run i) = some (f.firstStep w.core i f.items[i]) := by
      simp [Fanout.step, open_, idle, alive, place, found]
    have own := (firstStep_stepped readied calm).rest
    obtain ⟨one, busy | still⟩ := firstStep_begins (f := f) f.items[i] failed unended.2 unthrown
    · exact going.serve steady total rfl moved (own.step.exit.trans open_) busy
        (left_local_le own (by rw [one]; simp [toGo, unended.2, place]))
    · obtain ⟨v, reached, goes, same⟩ := going.take (a := .run i) steady total rfl moved
      refine ⟨v, reached, goes, ?_⟩
      rw [same]
      exact ⟨own.step.exit.trans open_, still.trans idle,
        left_local own bound (by rw [one]; simp [toGo, unended.2, place])⟩
  · have moved : f.step w.core (.run i) = some (f.acquired w.core i f.items[i]) := by
      simp [Fanout.step, open_, idle, alive, place, found, woken]
    have own := (acquired_stepped readied calm).rest
    obtain ⟨one, busy⟩ := acquired_begins (f := f) f.items[i] failed unended.2 unthrown
    exact going.serve steady total rfl moved (own.step.exit.trans open_) busy
      (left_local_le own (by rw [one]; simp [toGo, unended.2, place]))

/-- Where the call has not returned and no code has the CPU, there is a step to take. -/
theorem Going.progress (going : Going f p w) (open_ : w.core.exit = none)
    (idle : w.core.running = none) :
    ∃ v, Runs.Reaches (Scripted.stepCalm f p) w v ∧ Going f p v ∧
      (v.core.exit = some .returned ∨ v.core.exit = none ∧ v.core.running = none ∧
        f.left v.core < f.left w.core) := by
  have onward : (∃ v, Runs.Reaches (Scripted.stepCalm f p) w v ∧ Going f p v ∧ v.core.exit = none ∧
      v.core.running = none ∧ f.left v.core < f.left w.core) →
      ∃ v, Runs.Reaches (Scripted.stepCalm f p) w v ∧ Going f p v ∧
        (v.core.exit = some .returned ∨ v.core.exit = none ∧ v.core.running = none ∧
          f.left v.core < f.left w.core) :=
    fun ⟨v, reached, goes, rest⟩ => ⟨v, reached, goes, Or.inr rest⟩
  cases tasks : w.core.group.tasks with
  | nil =>
      obtain ⟨v, reached, goes, returned⟩ := going.close steady total open_ idle tasks
      exact ⟨v, reached, goes, Or.inl returned⟩
  | cons k rest =>
      have member : k ∈ w.core.group.tasks := by simp [tasks]
      by_cases ended : ∃ i ∈ w.core.group.tasks, (w.core.child i).ended ≠ none
      · obtain ⟨i, here, halted⟩ := ended
        exact onward (going.reap steady total open_ idle here halted)
      simp only [not_exists, not_and, not_not] at ended
      have alive : ∀ i ∈ w.core.group.tasks, w.core.live i = true := by
        intro i here
        simp [Scope.live, here, ended i here]
      by_cases ready : ∃ i ∈ w.core.group.tasks, (w.core.child i).pc = .created ∨
          (w.core.child i).pc = .acquiring ∧ (w.core.child i).task.woken = true
      · obtain ⟨i, here, ready⟩ := ready
        exact onward (going.run steady total open_ idle (alive i here) ready)
      by_cases calling : ∃ i ∈ w.core.group.tasks, (w.core.child i).pc.inUser = true
      · obtain ⟨i, here, inside⟩ := calling
        exact onward (going.resume steady total open_ idle (alive i here) inside)
      -- everyone waits for a slot, but one of them has been given one
      simp only [not_exists, not_and, not_or] at ready calling
      have waiting : ∀ j ∈ w.core.group.tasks, (w.core.child j).ended = none ∧
          (w.core.child j).pc = .acquiring := by
        intro j here
        refine ⟨ended j here, ?_⟩
        have notCreated := (ready j here).1
        have notCalling := calling j here
        cases place : (w.core.child j).pc <;> simp_all [Pc.inUser]
      obtain ⟨j, here, woken⟩ := going.core.woken steady member waiting
      exact absurd woken ((ready j here).2 (waiting j here).2)

/-- From wherever an undisturbed run has come to, the call can return. -/
theorem Going.returns (going : Going f p w) :
    ∃ v, Runs.Reaches (Scripted.stepCalm f p) w v ∧ v.core.exit = some .returned := by
  have idle : ∀ n w, f.left w.core = n → Going f p w → w.core.exit = none → w.core.running = none →
      ∃ v, Runs.Reaches (Scripted.stepCalm f p) w v ∧ v.core.exit = some .returned := by
    intro n
    induction n using Nat.strong_induction_on with
    | _ n ih =>
        intro w size going open_ quiet
        obtain ⟨v, reached, goes, returned | ⟨still, calm, fewer⟩⟩ := going.progress steady total open_ quiet
        · exact ⟨v, reached, returned⟩
        · obtain ⟨u, further, returned⟩ := ih _ (size ▸ fewer) v rfl goes still calm
          exact ⟨u, reached.trans further, returned⟩
  rcases going.core.exits with open_ | returned
  · cases busy : w.core.running with
    | none => exact idle _ w rfl going open_ busy
    | some i =>
        obtain ⟨v, reached, goes, still, calm, _⟩ := going.drive steady total open_ busy
        obtain ⟨u, further, returned⟩ := idle _ v rfl goes still calm
        exact ⟨u, reached.trans further, returned⟩
  · exact ⟨w, Runs.Reaches.refl w, returned⟩

end Progress

theorem going_of_reaches {caller : Caller} (steady : f.Steady) (total : p.Total rank)
    (calm : caller.task.mustCancel = false)
    (reached : Runs.Reaches (Scripted.stepCalm f p) (Scripted.init f caller) w) : Going f p w :=
  reached.invariant (fun _ _ _ going stepped => going.step steady total stepped) (Going.init f p calm)

end Fanout

namespace Fanout

/-- Whatever the schedule, a list that is returned is a good one; and while nobody cancels
the caller a run ends in no other way than by returning, and can always go on to that. -/
def Delivers (f : Fanout α β κ σ ε) (p : Script α β ε χ act)
    (good : Scripted α β σ ε χ → List (Option σ) → Prop) : Prop :=
  (∀ caller w results, Runs.Reaches (Scripted.step f p) (Scripted.init f caller) w →
    returned w.core = some results → good w results) ∧
  ∀ (caller : Caller) w, caller.task.mustCancel = false →
    Runs.Reaches (Scripted.stepCalm f p) (Scripted.init f caller) w →
    (w.core.exit = none ∨ (returned w.core).isSome) ∧
      ∃ v, Runs.Reaches (Scripted.stepCalm f p) w v ∧ (returned v.core).isSome

theorem returned_of_exit {s : State α β σ ε} (exit : s.exit = some .returned) :
    (returned s).isSome := by
  simp [returned, exit]

theorem delivers [Inhabited κ] {f : Fanout α β κ σ ε} {p : Script α β ε χ act} {rank : χ → Nat}
    {good : Scripted α β σ ε χ → List (Option σ) → Prop} (steady : f.Steady) (total : p.Total rank)
    (right : ∀ caller w results, Runs.Reaches (Scripted.step f p) (Scripted.init f caller) w →
      returned w.core = some results → good w results) : f.Delivers p good := by
  refine ⟨right, fun caller w calm reached => ?_⟩
  have going := going_of_reaches steady total calm reached
  obtain ⟨v, further, exit⟩ := going.returns steady total
  exact ⟨going.core.exits.imp_right returned_of_exit, v, further, returned_of_exit exit⟩

end Fanout

theorem process_steady (items : List α) {concurrency : Nat} (positive : 1 ≤ concurrency) :
    (process items concurrency none false : Fanout α β Unit (Slot β ε) ε).Steady where
  strict := process_strict items concurrency none false
  plain := fun _ => rfl
  keeps := fun _ _ _ _ value isValue => ⟨.value value, by simp [process, collect, classify, ownDeadline, isValue]⟩
  untimed := rfl
  slots := ⟨concurrency - 1, by simp only [process]; congr; omega⟩

end AsyncPipelines
