import AsyncPipelines.Core.ScriptedRuns
import AsyncPipelines.Lib.Potential
import AsyncPipelines.ToolDispatch

/-!
A fan-out ends, whatever fails and whoever is cancelled: while it has not, the loop has a
step of it to run or `fn` is at work, and there are only so many steps to run.
-/

namespace AsyncPipelines

open Asyncio

variable {α β κ σ ε : Type}

namespace Fanout

/-- The steps that are neither user code nor made by whoever cancels, nor a timer. The end
of a stub is one of them. -/
def library (f : Fanout α β κ σ ε) : Act β κ ε → Bool
  | .loop .wakeCaller => true
  | .loop (.taskDone _) => true
  | .run _ => true
  | .finish i _ _ => (f.items[i]?).any fun item => (f.stub item).isSome
  | _ => false

def Enabled (f : Fanout α β κ σ ε) (s : State α β σ ε) : Prop :=
  ∃ act, f.library act = true ∧ (f.step s act).isSome = true

def Outstanding (f : Fanout α β κ σ ε) (s : State α β σ ε) : Prop :=
  ∃ i item, f.items[i]? = some item ∧ f.stub item = none ∧ s.live i = true ∧
    (s.child i).pc.inUser = true

structure Lively (f : Fanout α β κ σ ε) (s : State α β σ ε) : Prop where
  inv : Inv f s
  slots : f.SlotsKept s
  waits : ∀ j, Waits (s.child j)
  free : f.concurrency = none → s.sem = none ∧ ∀ j, (s.child j).pc ≠ .acquiring
  busy : ∀ i, s.running = some i → s.live i = true
  prompt : ∀ i item own, f.items[i]? = some item → f.stub item = some own →
    (s.child i).pc.inUser = true → (s.child i).ended = none → s.running = some i

variable {f : Fanout α β κ σ ε} {s t : State α β σ ε} {i : Nat}

theorem wakeUpNext_sem (s : State α β σ ε) (none : s.sem = none) : s.wakeUpNext.sem = Option.none := by
  simp [State.wakeUpNext, none]

theorem release_sem (s : State α β σ ε) (none : s.sem = none) : s.release.sem = Option.none :=
  wakeUpNext_sem _ (by simp [none])

theorem enterSlot_place (f : Fanout α β κ σ ε) (s : State α β σ ε) (i : Nat) (item : α) :
    (s.sem = none → (f.enterSlot s i item).sem = none) ∧
    ((f.enterSlot s i item).running = some i ∧ ((f.enterSlot s i item).child i).pc ≠ .acquiring ∨
      ((f.enterSlot s i item).child i).ended ≠ none ∧
        ((f.enterSlot s i item).child i).pc = (s.child i).pc) := by
  unfold enterSlot
  split
  · refine ⟨release_sem s, Or.inr ⟨?_, ?_⟩⟩
    · rcases endTask_over s.release i with gone | gone <;> simp [gone]
    · refine Eq.trans ?_ ((quiet_release s).frame i).pc
      simp [State.endTask, Call.endTask, Call.setChild]
  · refine ⟨id, Or.inl ⟨rfl, ?_⟩⟩
    simp [Call.beginCall, Call.emit, Call.setChild]

theorem endTask_pc (s : State α β σ ε) (i : Nat) (ended : TaskEnd (Exc ε)) :
    ((s.endTask i ended).child i).pc = (s.child i).pc := by
  simp [State.endTask, Call.endTask, Call.setChild]

theorem endTask_halted (s : State α β σ ε) (i : Nat) (ended : TaskEnd (Exc ε)) :
    ((s.endTask i ended).child i).ended ≠ none := by
  simp [State.endTask, Call.endTask_ended]

theorem firstStep_place (place : (s.child i).pc = .created) (item : α) :
    (s.sem = none → (f.firstStep s i item).sem = none ∧
      ((f.firstStep s i item).child i).pc ≠ .acquiring) ∧
    ((f.firstStep s i item).running = some i ∨ ((f.firstStep s i item).child i).ended ≠ none ∨
      ((f.firstStep s i item).child i).pc = .acquiring) := by
  unfold firstStep
  split
  · refine ⟨fun none => ⟨none, ?_⟩, Or.inr (Or.inl (endTask_halted s i .cancelled))⟩
    rw [endTask_pc, place]
    simp
  · split
    · obtain ⟨sem, busy | gone⟩ := enterSlot_place f s i item
      · exact ⟨fun none => ⟨sem none, busy.2⟩, Or.inl busy.1⟩
      · exact ⟨fun none => ⟨sem none, by simp [gone.2, place]⟩, Or.inr (Or.inl gone.1)⟩
    · rename_i sem isSem
      split
      · refine ⟨fun none => by simp [isSem] at none, Or.inr (Or.inr ?_)⟩
        simp [Call.setChild]
      · refine ⟨fun none => by simp [isSem] at none, ?_⟩
        rcases (enterSlot_place f { s with sem := some { sem with value := sem.value - 1 } } i item).2
          with busy | gone
        · exact Or.inl busy.1
        · exact Or.inr (Or.inl gone.1)

theorem acquired_place (item : α) : (f.acquired s i item).running = some i ∨
    ((f.acquired s i item).child i).ended ≠ none := by
  rw [acquired_eq]
  split
  · exact Or.inr (endTask_halted _ i .cancelled)
  · exact (enterSlot_place f _ i item).2.imp And.left And.left

theorem finish_place (item : α) (cm : Option Timeout) (out : FnEnd β ε) (clock : κ) :
    (s.sem = none → (f.finish s i item cm out clock).sem = none) ∧
      ((f.finish s i item cm out clock).child i).ended ≠ none ∧
      ((f.finish s i item cm out clock).child i).pc = (s.child i).pc := by
  unfold finish
  dsimp only
  split
  · refine ⟨fun none => release_sem _ none, endTask_halted _ i _, ?_⟩
    rw [endTask_pc, ((quiet_release _).frame i).pc]
    simp [Call.emit, Call.setTask, Call.setChild]
  · refine ⟨fun none => release_sem _ none, endTask_halted _ i _, ?_⟩
    rw [endTask_pc, ((quiet_release _).frame i).pc]
    simp [Call.emit, Call.setTask, Call.setChild]

theorem Lively.still (lively : Lively f s) (inv : Inv f t) (slots : f.SlotsKept t)
    (waits : ∀ j, Waits (t.child j)) (sem : t.sem = s.sem)
    (same : ∀ j, (t.child j).ended = (s.child j).ended ∧ ((t.child j).pc = (s.child j).pc ∨
      (t.child j).pc.inUser = true ∧ (s.child j).pc.inUser = true))
    (busy : ∀ j, t.running = some j → t.live j = true)
    (running : ∀ j item own, f.items[j]? = some item → f.stub item = some own →
      s.running = some j → t.running = some j) : Lively f t where
  inv := inv
  slots := slots
  waits := waits
  free := by
    intro unbounded
    obtain ⟨none, outside⟩ := lively.free unbounded
    refine ⟨sem.trans none, fun j => ?_⟩
    rcases (same j).2 with pc | ⟨inside, _⟩
    · exact pc ▸ outside j
    · rintro acquiring
      simp [acquiring, Pc.inUser] at inside
  busy := busy
  prompt := by
    intro j item own found stub inside alive
    rw [(same j).1] at alive
    have before : (s.child j).pc.inUser = true := by
      rcases (same j).2 with pc | ⟨_, before⟩
      · exact pc ▸ inside
      · exact before
    exact running j item own found stub (lively.prompt j item own found stub before alive)

theorem Lively.moved (lively : Lively f s) (inv : Inv f t) (slots : f.SlotsKept t)
    (waits : ∀ j, Waits (t.child j)) (stepped : Stepped f i s t) (alive : s.live i = true)
    (alone : s.running = none ∨ s.running = some i)
    (free : f.concurrency = none → t.sem = none ∧ (t.child i).pc ≠ .acquiring)
    (place : t.running = some i ∨ (t.child i).ended ≠ none ∨ (t.child i).pc.inUser = false) :
    Lively f t where
  inv := inv
  slots := slots
  waits := waits
  free := by
    intro unbounded
    obtain ⟨none, outside⟩ := free unbounded
    refine ⟨none, fun j => ?_⟩
    by_cases own : j = i
    · exact own ▸ outside
    · rw [(stepped.rest.frame j own).pc]
      exact (lively.free unbounded).2 j
  busy := by
    intro j busy
    rcases stepped.running with idle | ⟨own, _, unended⟩
    · simp [idle] at busy
    · obtain rfl : i = j := by simpa [own] using busy
      simp only [Scope.live, Bool.and_eq_true, decide_eq_true_eq] at alive
      simp [Scope.live, stepped.rest.tasks, alive.1, unended]
  prompt := by
    intro j item own found stub inside unended
    by_cases here : j = i
    · subst here
      rcases place with busy | gone | outside
      · exact busy
      · exact absurd unended gone
      · simp [outside] at inside
    · rw [(stepped.rest.frame j here).pc] at inside
      rw [(stepped.rest.frame j here).ended] at unended
      have busy := lively.prompt j item own found stub inside unended
      rcases alone with idle | other
      · simp [idle] at busy
      · rw [other, Option.some.injEq] at busy
        exact absurd busy.symm here

theorem loopStep_busy {χ : Type} {c d : Call χ α β σ ε} {a : Call.LoopAct}
    (stepped : c.loopStep a = some d) (busy : c.running = some i) :
    d.group = c.group ∧ d.child = c.child := by
  cases a with
  | cancelCaller =>
      simp only [Call.loopStep] at stepped
      split at stepped <;> simp only [Option.some.injEq, reduceCtorEq] at stepped
      exact stepped ▸ ⟨rfl, rfl⟩
  | rearm entryCancelling entryProbe => simp [Call.loopStep, busy] at stepped
  | wakeCaller => simp [Call.loopStep, busy] at stepped
  | taskDone i =>
      simp only [Call.loopStep] at stepped
      split at stepped <;> simp [busy] at stepped

theorem Lively.step {a : Act β κ ε} (strict : f.Strict) (lively : Lively f s)
    (stepped : f.step s a = some t) : Lively f t := by
  have inv := lively.inv.step strict stepped
  have slots := lively.slots.step lively.inv stepped
  have waits := step_waits lively.waits stepped
  cases a with
  | loop act =>
      simp only [Fanout.step, Option.map_eq_some_iff] at stepped
      obtain ⟨call, moved, rfl⟩ := stepped
      have frame := Frame.loopStep moved
      refine lively.still inv slots waits rfl (fun j => ⟨(frame j).ended, Or.inl (frame j).pc⟩) (fun j busy => ?_) ?_
      · have running := (Call.loopStep_same moved).2.2.1.symm.trans busy
        obtain ⟨group, child⟩ := loopStep_busy moved running
        have before := lively.busy j running
        simp only [Scope.live, Bool.and_eq_true, decide_eq_true_eq] at before ⊢
        show j ∈ call.group.tasks ∧ (call.child j).ended.isNone = true
        rw [group, child]
        exact before
      · intro j _ _ _ _ busy
        exact (Call.loopStep_same moved).2.2.1.trans busy
  | user act =>
      simp only [Fanout.step] at stepped
      split at stepped
      · rename_i plain
        simp only [Option.map_eq_some_iff] at stepped
        obtain ⟨call, moved, rfl⟩ := stepped
        obtain ⟨_, _, group, _, ⟨task, child⟩, ⟨_, own⟩, alone, after⟩ := Call.userStep_same moved
        have alive : s.live act.task = true := own.elim (lively.busy _) id
        refine lively.still inv slots waits rfl (fun j => ?_) (fun j busy => ?_) ?_
        · have same : (call.child j).ended = (s.child j).ended ∧ (call.child j).pc = (s.child j).pc := by
            rw [child, Call.setTask_child]
            split
            · rename_i here
              simp [here]
            · exact ⟨rfl, rfl⟩
          exact ⟨same.1, Or.inl same.2⟩
        · rcases after with idle | running
          · simp [idle] at busy
          · obtain rfl : act.task = j := by simpa [running] using busy
            simp only [Scope.live, Bool.and_eq_true, decide_eq_true_eq] at alive ⊢
            show act.task ∈ call.group.tasks ∧ (call.child act.task).ended.isNone = true
            rw [group, child, Call.setTask_child, if_pos rfl]
            exact alive
        · intro j item own found stub busy
          rcases alone with idle | other
          · simp [idle] at busy
          · have here : act.task = j := by simpa [other] using busy
            simp [here, found, stub] at plain
      · simp at stepped
  | run i =>
      simp only [Fanout.step, Option.isNone_iff_eq_none] at stepped
      split at stepped
      · rename_i enabled
        obtain ⟨open_, idle, alive⟩ := enabled
        split at stepped
        · rename_i item found place
          obtain ⟨ready, calm⟩ := lively.inv.ready idle alive found (by simp [place, Pc.inUser])
          simp only [Option.some.injEq] at stepped
          subst stepped
          obtain ⟨free, after⟩ := firstStep_place (f := f) place item
          refine lively.moved inv slots waits (firstStep_stepped ready calm) alive (Or.inl idle)
            (fun unbounded => free (lively.free unbounded).1) ?_
          exact after.imp_right (Or.imp_right fun acquiring => by simp [acquiring, Pc.inUser])
        · rename_i item found place
          obtain ⟨ready, calm⟩ := lively.inv.ready idle alive found (by simp [place, Pc.inUser])
          split at stepped <;> simp only [Option.some.injEq, reduceCtorEq] at stepped
          subst stepped
          refine lively.moved inv slots waits (acquired_stepped ready calm) alive (Or.inl idle)
            (fun unbounded => absurd place ((lively.free unbounded).2 i)) ?_
          exact (acquired_place item).imp_right Or.inl
        · simp at stepped
      · simp at stepped
  | deadline i =>
      simp only [Fanout.step, Option.isNone_iff_eq_none] at stepped
      split at stepped
      · rename_i cm inside
        split at stepped <;> simp only [Option.some.injEq, reduceCtorEq] at stepped
        rename_i enabled
        subst stepped
        refine lively.still inv slots waits rfl (fun j => ?_) (fun j busy => ?_)
          fun _ _ _ _ _ busy => busy
        · by_cases here : j = i
          · subst here
            simp [Call.emit, Call.setChild, inside, Pc.inUser]
          · simp [Call.emit, Call.setChild, here]
        · exact absurd (enabled.2.1.symm.trans busy) (by simp)
      · simp at stepped
  | finish i out clock =>
      simp only [Fanout.step, Option.isNone_iff_eq_none] at stepped
      split at stepped
      · rename_i item cm found inside
        split at stepped <;> simp only [Option.some.injEq, reduceCtorEq] at stepped
        rename_i enabled
        obtain ⟨open_, busy, alive⟩ := enabled
        have moved := (finish_stepped ((f.stub item).getD out) clock strict lively.inv.sound
          lively.inv.logged open_ alive found inside (lively.inv.item i)
          fun own isStub => by simp [isStub])
        obtain ⟨free, gone, place⟩ := finish_place (f := f) (s := s) (i := i) item cm
          ((f.stub item).getD out) clock
        subst stepped
        refine lively.moved inv slots waits moved alive (Or.inr busy) (fun unbounded => ?_)
          (Or.inr (Or.inl gone))
        exact ⟨free (lively.free unbounded).1, by simp [place, inside]⟩
      · simp at stepped

theorem Lively.init (f : Fanout α β κ σ ε) (caller : Caller) : Lively f (f.init caller) := by
  have fresh : ∀ j, (f.init caller).child j = { pc := .created } := by
    intro j
    simp only [Fanout.init]
    split <;> rfl
  refine ⟨Inv.init f caller, SlotsKept.init f caller, ?_, ?_, ?_, ?_⟩
  · simp [fresh, Waits]
  · exact fun unbounded => ⟨by simp [Fanout.init, unbounded], by simp [fresh]⟩
  · intro i busy
    simp only [Fanout.init] at busy
    split at busy <;> simp [Call.enter] at busy
  · intro i item own _ _ inside
    simp [fresh, Pc.inUser] at inside

theorem lively_of_reaches {caller : Caller} (strict : f.Strict)
    (reached : Runs.Reaches f.step (f.init caller) s) : Lively f s :=
  reached.invariant (fun _ _ _ lively stepped => lively.step strict stepped) (Lively.init f caller)

theorem Inv.item_of_live (inv : Inv f s) (alive : s.live i = true) : ∃ item, f.items[i]? = some item := by
  simp only [Scope.live, Bool.and_eq_true, decide_eq_true_eq] at alive
  exact ⟨_, List.getElem?_eq_getElem (inv.tasks i alive.1)⟩

theorem Lively.finish_isSome (lively : Lively f s) (open_ : s.exit = none) (busy : s.running = some i)
    (out : FnEnd β ε) (clock : κ) : (f.step s (.finish i out clock)).isSome = true := by
  obtain ⟨inside, _⟩ := lively.inv.running i busy
  have alive := lively.busy i busy
  obtain ⟨item, found⟩ := lively.inv.item_of_live alive
  cases place : (s.child i).pc with
  | calling cm => simp [Fanout.step, found, place, open_, busy, alive]
  | created => simp [place, Pc.inUser] at inside
  | acquiring => simp [place, Pc.inUser] at inside

theorem Lively.working [Inhabited κ] (lively : Lively f s) (open_ : s.exit = none)
    (busy : s.running = some i) : f.Enabled s ∨ f.Outstanding s := by
  have alive := lively.busy i busy
  obtain ⟨item, found⟩ := lively.inv.item_of_live alive
  cases stub : f.stub item with
  | none => exact Or.inr ⟨i, item, found, stub, alive, (lively.inv.running i busy).1⟩
  | some own =>
      refine Or.inl ⟨.finish i .cancelled default, ?_, lively.finish_isSome open_ busy _ _⟩
      simp [library, found, stub]

/-- A fan-out that has not ended has a step to run, or waits for `fn`. -/
theorem Lively.progress [Inhabited κ] (lively : Lively f s) (sized : f.concurrency ≠ some 0)
    (open_ : s.exit = none) : f.Enabled s ∨ f.Outstanding s := by
  have inv := lively.inv
  cases idle : s.running with
  | some i => exact lively.working open_ idle
  | none =>
      by_cases empty : s.group.tasks = []
      · obtain ⟨fut, waiter, pending⟩ := inv.sound.waiting open_
        have woken : s.parent.woken = true := by
          cases fut with
          | pending => exact absurd empty (pending rfl)
          | done => simp [Task.woken, waiter]
          | cancelled => simp [Task.woken, waiter]
        exact Or.inl ⟨.loop .wakeCaller, rfl, by simp [Fanout.step, Call.loopStep, open_, idle, woken]⟩
      by_cases ended : ∃ i ∈ s.group.tasks, (s.child i).ended ≠ none
      · obtain ⟨i, member, halted⟩ := ended
        obtain ⟨how, found⟩ := Option.ne_none_iff_exists'.mp halted
        refine Or.inl ⟨.loop (.taskDone i), rfl, ?_⟩
        simp [Fanout.step, Call.loopStep, found, open_, idle, member]
      simp only [not_exists, not_and, not_not] at ended
      have alive : ∀ i ∈ s.group.tasks, s.live i = true := by
        intro i member
        simp [Scope.live, member, ended i member]
      by_cases ready : ∃ i ∈ s.group.tasks, (s.child i).pc = .created ∨
          (s.child i).pc = .acquiring ∧ (s.child i).task.woken = true
      · obtain ⟨i, member, ready⟩ := ready
        obtain ⟨item, found⟩ := inv.item_of_live (alive i member)
        refine Or.inl ⟨.run i, rfl, ?_⟩
        rcases ready with place | ⟨place, woken⟩
        · simp [Fanout.step, open_, idle, alive i member, place, found]
        · simp [Fanout.step, open_, idle, alive i member, place, found, woken]
      by_cases calling : ∃ i ∈ s.group.tasks, (s.child i).pc.inUser = true
      · obtain ⟨i, member, inside⟩ := calling
        obtain ⟨item, found⟩ := inv.item_of_live (alive i member)
        cases stub : f.stub item with
        | none => exact Or.inr ⟨i, item, found, stub, alive i member, inside⟩
        | some own =>
            -- a stub is never suspended
            have busy := lively.prompt i item own found stub inside (ended i member)
            simp [idle] at busy
      -- everyone waits for a slot, but one of them has been given one
      simp only [not_exists, not_and, not_or] at ready calling
      have waiting : ∀ j ∈ s.group.tasks, (s.child j).ended = none ∧ (s.child j).pc = .acquiring := by
        intro j member
        refine ⟨ended j member, ?_⟩
        have notCreated := (ready j member).1
        have notCalling := calling j member
        cases place : (s.child j).pc <;> simp_all [Pc.inUser]
      obtain ⟨k, member⟩ := List.exists_mem_of_ne_nil _ empty
      cases concurrency : f.concurrency with
      | none => exact absurd (waiting k member).2 ((lively.free concurrency).2 k)
      | some slots =>
          obtain ⟨slots, rfl⟩ : ∃ n, slots = n + 1 :=
            Nat.exists_eq_succ_of_ne_zero fun zero => sized (zero ▸ concurrency)
          obtain ⟨j, here, woken⟩ := exists_woken inv lively.waits (lively.slots _ concurrency) member waiting
          exact absurd woken ((ready j here).2 (waiting j here).2)

def Act.settles : Act β κ ε → Bool
  | .loop .wakeCaller => true
  | .loop (.taskDone _) => true
  | .run _ => true
  | .finish _ _ _ => true
  | _ => false

def Act.requests : Act β κ ε → Bool
  | .loop .cancelCaller => true
  | .loop (.rearm _ _) => true
  | _ => false

def toEnd (child : Child Pc (Exc ε)) : Nat :=
  if child.ended.isSome then 0
  else match child.pc with
    | .created => 3
    | .acquiring => 2
    | .calling _ => 1

def potential (f : Fanout α β κ σ ε) (s : State α β σ ε) : Nat :=
  (s.exit.isNone && s.parent.woken).toNat + 2 * s.group.tasks.length +
    ∑ j ∈ Finset.range f.items.length, toEnd (s.child j)

theorem toEnd_congr {c d : Child Pc (Exc ε)} (pc : d.pc = c.pc) (ended : d.ended = c.ended) :
    toEnd d = toEnd c := by
  simp [toEnd, pc, ended]

theorem potential_local {k : Nat} (moved : Local i s t) (bound : i < f.items.length)
    (fewer : toEnd (t.child i) + k ≤ toEnd (s.child i)) : f.potential t + k ≤ f.potential s := by
  have member : i ∈ Finset.range f.items.length := Finset.mem_range.mpr bound
  have others : ∑ j ∈ (Finset.range f.items.length).erase i, toEnd (t.child j) =
      ∑ j ∈ (Finset.range f.items.length).erase i, toEnd (s.child j) := by
    refine Finset.sum_congr rfl fun j other => ?_
    have frame := moved.frame j (Finset.ne_of_mem_erase other)
    exact toEnd_congr frame.pc frame.ended
  have before := Finset.add_sum_erase _ (fun j => toEnd (s.child j)) member
  have after := Finset.add_sum_erase _ (fun j => toEnd (t.child j)) member
  simp only [potential, moved.step.exit, moved.step.parent, moved.tasks]
  omega

theorem wakeCaller_tasks {χ : Type} (c : Call χ α β σ ε) : c.wakeCaller.group.tasks = c.group.tasks := by
  have group : c.toScope.wake.group = c.group.caught c.parent.throws :=
    Scope.wake_group c.group c.parent
  rw [Call.wakeCaller_group, group, TaskGroup.caught]
  split <;> rfl

theorem wakeCaller_asleep {χ : Type} (c : Call χ α β σ ε) :
    (c.wakeCaller.exit.isNone && c.wakeCaller.parent.woken) = false := by
  rcases Call.wakeCaller_cases c with same | ⟨errors, exit⟩
  · have exit : c.toScope.wake.exit = if (c.group.caught c.parent.throws).tasks = [] then _ else none :=
      Scope.wake_exit c.group c.parent
    have parent : c.toScope.wake.parent = if (c.group.caught c.parent.throws).tasks = [] then _ else _ :=
      Scope.wake_parent c.group c.parent
    rw [same]
    show (c.toScope.wake.exit.isNone && c.toScope.wake.parent.woken) = false
    rw [exit, parent]
    split
    · rfl
    · simp [Task.woken, Task.await_waiter]
  · simp [exit]

theorem potential_loop {act : Call.LoopAct} {call : Call Pc α β σ ε}
    (stepped : s.toCall.loopStep act = some call) :
    f.potential { s with toCall := call } + (Act.settles (.loop act : Act β κ ε)).toNat ≤
      f.potential s + (Act.requests (.loop act : Act β κ ε)).toNat := by
  have frame := Frame.loopStep stepped
  have tasks : ∑ j ∈ Finset.range f.items.length, toEnd (call.child j) =
      ∑ j ∈ Finset.range f.items.length, toEnd (s.child j) :=
    Finset.sum_congr rfl fun j _ => toEnd_congr (frame j).pc (frame j).ended
  have awake : ∀ b : Bool, b.toNat ≤ 1 := Bool.toNat_le
  cases act with
  | cancelCaller =>
      simp only [Call.loopStep] at stepped
      split at stepped <;> simp only [Option.some.injEq, reduceCtorEq] at stepped
      subst stepped
      have woken := awake (s.exit.isNone && s.parent.cancel.woken)
      simp only [potential, Call.cancelCaller, Act.settles, Act.requests, Bool.toNat_true,
        Bool.toNat_false]
      omega
  | rearm entryCancelling entryProbe =>
      simp only [Call.loopStep] at stepped
      split at stepped <;> simp only [Option.some.injEq, reduceCtorEq] at stepped
      subst stepped
      have woken := awake (s.exit.isNone && (s.toCall.rearm entryCancelling entryProbe).parent.woken)
      simp only [potential, Act.settles, Act.requests, Bool.toNat_true, Bool.toNat_false]
      simp only [Call.rearm] at woken tasks ⊢
      omega
  | wakeCaller =>
      simp only [Call.loopStep, Option.isNone_iff_eq_none] at stepped
      split at stepped <;> simp only [Option.some.injEq, reduceCtorEq] at stepped
      rename_i enabled
      subst stepped
      have asleep := wakeCaller_asleep s.toCall
      have left := wakeCaller_tasks s.toCall
      simp only [potential, asleep, left, tasks, enabled.1, enabled.2.2, Act.settles, Act.requests,
        Option.isNone_none, Bool.and_self, Bool.toNat_true, Bool.toNat_false]
      omega
  | taskDone i =>
      simp only [Call.loopStep, Option.isNone_iff_eq_none] at stepped
      split at stepped
      · rename_i ended found
        split at stepped <;> simp only [Option.some.injEq, reduceCtorEq] at stepped
        rename_i enabled
        subst stepped
        have erased := (Scope.taskDone_group Exc.isBaseError s.group s.parent i ended).1
        have shorter := List.length_erase_of_mem enabled.2.2
        have some_ := List.length_pos_of_mem enabled.2.2
        have woken := awake (s.exit.isNone &&
          (s.toCall.toScope.taskDone Exc.isBaseError i ended).parent.woken)
        simp only [potential, Act.settles, Act.requests, Bool.toNat_true, Bool.toNat_false]
        simp only [Scope.taskDone, erased] at woken tasks ⊢
        omega
      · simp at stepped

theorem toEnd_halted {child : Child Pc (Exc ε)} (halted : child.ended ≠ none) : toEnd child = 0 := by
  simp [toEnd, Option.isSome_iff_ne_none, halted]

theorem enterSlot_toEnd (f : Fanout α β κ σ ε) (s : State α β σ ε) (i : Nat) (item : α) :
    toEnd ((f.enterSlot s i item).child i) ≤ 1 := by
  unfold enterSlot
  split
  · rw [toEnd_halted (endTask_halted _ i .returned)]
    omega
  · simp only [Call.beginCall, Call.emit, Call.setChild, Function.update_self, toEnd]
    split <;> omega

theorem firstStep_toEnd (f : Fanout α β κ σ ε) (s : State α β σ ε) (i : Nat) (item : α) :
    toEnd ((f.firstStep s i item).child i) ≤ 2 := by
  unfold firstStep
  split
  · rw [toEnd_halted (endTask_halted _ i .cancelled)]
    omega
  · split
    · exact Nat.le_succ_of_le (enterSlot_toEnd f s i item)
    · split
      · simp only [Call.setChild, Function.update_self, toEnd]
        split <;> omega
      · exact Nat.le_succ_of_le (enterSlot_toEnd f _ i item)

theorem acquired_toEnd (f : Fanout α β κ σ ε) (s : State α β σ ε) (i : Nat) (item : α) :
    toEnd ((f.acquired s i item).child i) ≤ 1 := by
  rw [acquired_eq]
  split
  · rw [toEnd_halted (endTask_halted _ i .cancelled)]
    omega
  · exact enterSlot_toEnd f _ i item

theorem Lively.pays {a : Act β κ ε} (strict : f.Strict) (lively : Lively f s)
    (stepped : f.step s a = some t) :
    f.potential t + a.settles.toNat ≤ f.potential s + a.requests.toNat := by
  have within : ∀ {i : Nat} {item : α}, f.items[i]? = some item → i < f.items.length :=
    fun found => (List.getElem?_eq_some_iff.mp found).1
  cases a with
  | loop act =>
      simp only [Fanout.step, Option.map_eq_some_iff] at stepped
      obtain ⟨call, moved, rfl⟩ := stepped
      exact potential_loop moved
  | user act =>
      simp only [Fanout.step] at stepped
      split at stepped
      · simp only [Option.map_eq_some_iff] at stepped
        obtain ⟨call, moved, rfl⟩ := stepped
        obtain ⟨_, _, group, _, ⟨task, child⟩, _⟩ := Call.userStep_same moved
        have step := Call.TaskStep.userStep moved
        have same : ∀ j, toEnd (call.child j) = toEnd (s.child j) := by
          intro j
          rw [child, Call.setTask_child]
          split
          · rename_i here
            exact toEnd_congr (by rw [here]) (by rw [here])
          · rfl
        simp [potential, step.exit, step.parent, group, same, Act.settles]
      · simp at stepped
  | run i =>
      simp only [Fanout.step, Option.isNone_iff_eq_none] at stepped
      split at stepped
      · rename_i enabled
        obtain ⟨open_, idle, alive⟩ := enabled
        have unended := alive
        simp only [Scope.live, Bool.and_eq_true, Option.isNone_iff_eq_none] at unended
        split at stepped
        · rename_i item found place
          obtain ⟨ready, calm⟩ := lively.inv.ready idle alive found (by simp [place, Pc.inUser])
          simp only [Option.some.injEq] at stepped
          subst stepped
          have before : toEnd (s.child i) = 3 := by simp [toEnd, place, unended.2]
          have after := firstStep_toEnd f s i item
          exact potential_local (k := 1) (firstStep_stepped ready calm).rest (within found) (by omega)
        · rename_i item found place
          obtain ⟨ready, calm⟩ := lively.inv.ready idle alive found (by simp [place, Pc.inUser])
          split at stepped <;> simp only [Option.some.injEq, reduceCtorEq] at stepped
          subst stepped
          have before : toEnd (s.child i) = 2 := by simp [toEnd, place, unended.2]
          have after := acquired_toEnd f s i item
          exact potential_local (k := 1) (acquired_stepped ready calm).rest (within found) (by omega)
        · simp at stepped
      · simp at stepped
  | deadline i =>
      simp only [Fanout.step, Option.isNone_iff_eq_none] at stepped
      split at stepped
      · rename_i cm inside
        split at stepped <;> simp only [Option.some.injEq, reduceCtorEq] at stepped
        subst stepped
        have same : ∀ j, toEnd ((s.toCall.setChild i { s.child i with
            pc := .calling (some cm.fire), task := (s.child i).task.cancel }).child j) =
              toEnd (s.child j) := by
          intro j
          by_cases here : j = i
          · simp [Call.setChild, here, toEnd, inside]
          · simp [Call.setChild, here]
        simp only [potential, Call.emit, Act.settles, Bool.toNat_false, same]
        simp [Call.setChild]
      · simp at stepped
  | finish i out clock =>
      simp only [Fanout.step, Option.isNone_iff_eq_none] at stepped
      split at stepped
      · rename_i item cm found inside
        split at stepped <;> simp only [Option.some.injEq, reduceCtorEq] at stepped
        rename_i enabled
        obtain ⟨open_, busy, alive⟩ := enabled
        have moved := (finish_stepped ((f.stub item).getD out) clock strict lively.inv.sound
          lively.inv.logged open_ alive found inside (lively.inv.item i)
          fun own isStub => by simp [isStub]).rest
        have gone := (finish_place (f := f) (s := s) (i := i) item cm ((f.stub item).getD out) clock).2.1
        subst stepped
        simp only [Scope.live, Bool.and_eq_true, Option.isNone_iff_eq_none] at alive
        refine potential_local (k := 1) moved (within found) ?_
        rw [toEnd_halted gone]
        simp [toEnd, inside, alive.2]
      · simp at stepped

theorem pays (strict : f.Strict) : Runs.Pays f.step (Lively f) f.potential
    (fun a => a.settles.toNat) (fun a => a.requests.toNat) where
  kept := fun _ _ _ lively stepped => lively.step strict stepped
  pays := fun _ _ _ lively stepped => lively.pays strict stepped

theorem potential_init (f : Fanout α β κ σ ε) (caller : Caller) :
    f.potential (f.init caller) ≤ 5 * f.items.length + 1 := by
  have fresh : ∀ j, (f.init caller).child j = { pc := .created } := by
    intro j
    simp only [Fanout.init]
    split <;> rfl
  have tasks : (f.init caller).group.tasks = List.range f.items.length := by
    simp only [Fanout.init]
    split <;> rfl
  have woken := Bool.toNat_le ((f.init caller).exit.isNone && (f.init caller).parent.woken)
  have steps : ∑ j ∈ Finset.range f.items.length, toEnd ((f.init caller).child j) = f.items.length * 3 := by
    have all := Finset.sum_const_nat (s := Finset.range f.items.length) (m := 3)
      (f := fun j => toEnd ((f.init caller).child j)) fun j _ => by simp [fresh, toEnd]
    rwa [Finset.card_range] at all
  simp only [potential, tasks, steps, List.length_range]
  omega

def Act.Follows (ends : Nat → FnEnd β ε) : Act β κ ε → Prop
  | .user (.resume _) => True
  | .finish i out _ => out = ends i
  | a => a.settles = true

theorem Lively.take {a : Act β κ ε} {ends : Nat → FnEnd β ε} (strict : f.Strict) (lively : Lively f s)
    (follows : a.Follows ends) (settles : a.settles = true) (enabled : (f.step s a).isSome = true) :
    ∃ t, Runs.ReachesBy f.step (Act.Follows (κ := κ) ends) s t ∧ Lively f t ∧
      f.potential t < f.potential s := by
  obtain ⟨t, stepped⟩ := Option.isSome_iff_exists.mp enabled
  have paid := lively.pays strict stepped
  have idle : a.requests = false := by
    cases a with
    | loop act => cases act <;> simp_all [Act.settles, Act.requests]
    | _ => rfl
  refine ⟨t, Runs.ReachesBy.one follows stepped, lively.step strict stepped, ?_⟩
  simp only [settles, idle, Bool.toNat_true, Bool.toNat_false] at paid
  omega

/-- A fan-out that has not ended can come nearer to its end, with the calls it waits for
ending as they like. -/
theorem Lively.descends [Inhabited κ] (strict : f.Strict) (lively : Lively f s)
    (sized : f.concurrency ≠ some 0) (open_ : s.exit = none) (ends : Nat → FnEnd β ε) :
    ∃ t, Runs.ReachesBy f.step (Act.Follows (κ := κ) ends) s t ∧ Lively f t ∧
      f.potential t < f.potential s := by
  cases idle : s.running with
  | some i =>
      exact lively.take strict (a := .finish i (ends i) default) rfl rfl
        (lively.finish_isSome open_ idle _ _)
  | none =>
      rcases lively.progress sized open_ with ⟨act, library, enabled⟩ | ⟨i, item, found, plain, alive, inside⟩
      · cases act with
        | loop act =>
            cases act with
            | cancelCaller => simp [Fanout.library] at library
            | rearm _ _ => simp [Fanout.library] at library
            | wakeCaller => exact lively.take strict (a := .loop .wakeCaller) rfl rfl enabled
            | taskDone i => exact lively.take strict (a := .loop (.taskDone i)) rfl rfl enabled
        | user act => simp [Fanout.library] at library
        | run i => exact lively.take strict (a := .run i) rfl rfl enabled
        | deadline i => simp [Fanout.library] at library
        | finish i out clock =>
            simp only [Fanout.step, idle, reduceCtorEq, false_and, and_false, ↓reduceIte] at enabled
            split at enabled <;> simp at enabled
      · -- the call that waits gets the CPU, and ends
        obtain ⟨t, stepped⟩ : ∃ t, f.step s (.user (.resume i)) = some t := by
          simp [Fanout.step, Call.UserAct.task, found, plain, Call.userStep, open_, idle, alive, inside]
        have resumed := lively.step strict stepped
        have paid := lively.pays strict stepped
        have core := stepped
        simp only [Fanout.step, Call.UserAct.task, found, Option.all_some, plain, Option.isNone_none,
          ↓reduceIte, Call.userStep, open_, idle, alive, inside, and_self, Option.map_some,
          Option.some.injEq] at core
        have busy : t.running = some i := by rw [← core]
        have still : t.exit = none := by
          rw [← core]
          exact open_
        obtain ⟨u, further, kept, fewer⟩ := resumed.take strict (a := .finish i (ends i) default) rfl rfl
          (resumed.finish_isSome still busy _ _)
        refine ⟨u, (Runs.ReachesBy.one (a := .user (.resume i)) trivial stepped).trans further, kept, ?_⟩
        simp only [Act.settles, Act.requests, Bool.toNat_false] at paid
        omega

/-- What a fan-out that cannot hang does: while it has not ended, the loop has a step of it
to run or it waits for `fn`; the loop runs only so many steps; and whenever its calls end,
whatever they end with, it can end. -/
structure NeverHangs (f : Fanout α β κ σ ε) (s : State α β σ ε) (actions : List (Act β κ ε)) : Prop where
  goesOn : s.exit = none → f.Enabled s ∨ f.Outstanding s
  bounded : actions.countP Act.settles ≤ 5 * f.items.length + 1 + actions.countP Act.requests
  closes : ∀ ends : Nat → FnEnd β ε, ∃ more t, Runs.run f.step s more = some t ∧ t.exit ≠ none ∧
    ∀ a ∈ more, a.Follows ends

theorem total_toNat {act : Type} (p : act → Bool) (actions : List act) :
    Runs.total (fun a => (p a).toNat) actions = actions.countP p := by
  induction actions with
  | nil => rfl
  | cons a rest ih =>
      rw [Runs.total, ih, List.countP_cons]
      cases p a <;> simp [Nat.add_comm]

theorem never_hangs [Inhabited κ] (strict : f.Strict) (sized : f.concurrency ≠ some 0) {caller : Caller}
    {actions : List (Act β κ ε)} (ran : Runs.run f.step (f.init caller) actions = some s) :
    f.NeverHangs s actions := by
  have lively := lively_of_reaches strict ⟨actions, ran⟩
  refine ⟨lively.progress sized, ?_, fun ends => ?_⟩
  · have paid := (pays strict).run (Lively.init f caller) ran
    have start := potential_init f caller
    rw [total_toNat, total_toNat] at paid
    omega
  · obtain ⟨t, ⟨more, follows, further⟩, _, gone⟩ := Runs.reachesBy_of_descent (p := Lively f)
      (fun t => t.exit ≠ none) f.potential
      (fun s lively unended => lively.descends strict sized (not_not.mp unended) ends) lively
    exact ⟨more, t, further, gone, follows⟩

end Fanout

variable {ι : Type}

/-- Neither `process` nor `dispatch_tool_calls` hangs, whatever the calls and their deadlines
do and whoever is cancelled. -/
theorem calls_never_hang :
    (∀ (items : List α) (concurrency : Nat) (timeout : Option ℚ) (returnExceptions : Bool)
      (caller : Caller) (actions : List (Fanout.Act β Unit ε)) (s : Fanout.State α β (Slot β ε) ε),
      1 ≤ concurrency →
      Runs.run (process items concurrency timeout returnExceptions).step
        ((process items concurrency timeout returnExceptions).init caller) actions = some s →
      (process items concurrency timeout returnExceptions).NeverHangs s actions) ∧
    ∀ (d : Dispatch ι ε) (f : Fanout (ToolCall ι) β ℚ (ToolResult β) ε), d.resolve = .ok f →
      ∀ (caller : Caller) (actions : List (Fanout.Act β ℚ ε))
      (s : Fanout.State (ToolCall ι) β (ToolResult β) ε), d.concurrency ≠ some 0 →
      Runs.run f.step (f.init caller) actions = some s → f.NeverHangs s actions := by
  constructor
  · intro items concurrency timeout returnExceptions caller actions s sized ran
    refine Fanout.never_hangs (process_strict items concurrency timeout returnExceptions) ?_ ran
    intro zero
    obtain rfl : concurrency = 0 := Option.some.inj zero
    omega
  · intro d f resolved caller actions s sized ran
    obtain ⟨rfl, _⟩ := Dispatch.resolve_fanout resolved
    exact Fanout.never_hangs d.fanout_strict sized ran

def cancelledInLine : List (Fanout.Act Nat Unit Unit) :=
  [.run 0, .user (.suspend 0), .run 1, .loop .cancelCaller]

theorem calls_never_hang_cancelled : ∃ s t : Fanout.State Nat Nat (Slot Nat Unit) Unit,
    Runs.run (process [0, 1] 1 none false).step ((process [0, 1] 1 none false).init { task := {} })
      cancelledInLine = some s ∧ s.exit.isNone = true ∧
      Runs.Reaches (process [0, 1] 1 none false).step s t ∧ t.exit ≠ none := by
  have ends : (Runs.run (process [0, 1] 1 none false : Fanout Nat Nat Unit (Slot Nat Unit) Unit).step
      ((process [0, 1] 1 none false).init { task := {} }) cancelledInLine).any
        (fun s => s.exit.isNone) = true := by decide
  obtain ⟨s, ran, open_⟩ := (Option.any_eq_true _ _).mp ends
  obtain ⟨more, t, further, gone, _⟩ := ((calls_never_hang (ι := Unit)).1 [0, 1] 1 none false
    { task := {} } cancelledInLine s (le_refl 1) ran).closes fun _ => .returned 10
  exact ⟨s, t, ran, open_, ⟨more, further⟩, gone⟩

end AsyncPipelines
