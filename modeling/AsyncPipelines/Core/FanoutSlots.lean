import AsyncPipelines.Core.FanoutChecks
import AsyncPipelines.Lib.Count

/-!
The slots of the semaphore. Every slot is free, or held by a task that is in its call
or has been woken to it; and no slot stays free while a task waits for one, unless a
task that was woken is about to look.
-/

namespace AsyncPipelines

open Asyncio

variable {α β κ σ ε : Type}

namespace Fanout

def awaits (fut : Fut) (child : Child Pc (Exc ε)) : Bool :=
  child.ended.isNone && decide (child.pc = .acquiring) && decide (child.task.waiter = some fut)

def parked (child : Child Pc (Exc ε)) : Bool :=
  child.ended.isNone && decide (child.pc = .acquiring) && child.task.waiter.isSome

def holds (child : Child Pc (Exc ε)) : Bool :=
  (child.ended.isNone && child.pc.inUser) || awaits .done child

def held (f : Fanout α β κ σ ε) (s : State α β σ ε) : Nat :=
  Nat.count (fun j => holds (s.child j) = true) f.items.length

structure Slotted (f : Fanout α β κ σ ε) (slots : Nat) (s : State α β σ ε) (sem : Semaphore) : Prop where
  isSem : s.sem = some sem
  distinct : sem.waiters.Nodup
  within : ∀ j ∈ sem.waiters, j < f.items.length
  listed : ∀ j, j ∈ sem.waiters ↔ parked (s.child j) = true
  balance : sem.value + f.held s = slots

/-- While a slot is free and a task waits, one that was woken is on its way. -/
def Fair (s : State α β σ ε) (sem : Semaphore) : Prop :=
  0 < sem.value → ∀ k, awaits .pending (s.child k) = true → ∃ j, awaits .done (s.child j) = true

theorem parked_of_awaits {fut : Fut} {child : Child Pc (Exc ε)} (waiting : awaits fut child = true) :
    parked child = true := by
  simp only [awaits, Bool.and_eq_true, decide_eq_true_eq] at waiting
  simp [parked, waiting]

theorem awaits_cancel (child : Child Pc (Exc ε)) :
    awaits .done child.cancel = awaits .done child ∧ parked child.cancel = parked child ∧
      (awaits .pending child.cancel = true → awaits .pending child = true) := by
  unfold Child.cancel
  split
  · exact ⟨rfl, rfl, id⟩
  · simp only [awaits, parked, Task.cancel_waiter]
    cases waiter : child.task.waiter with
    | none => simp
    | some fut => cases fut <;> simp

theorem holds_cancel (child : Child Pc (Exc ε)) : holds child.cancel = holds child := by
  simp only [holds, (awaits_cancel child).1, Child.cancel_pc, Child.cancel_ended]

theorem not_parked (child : Child Pc (Exc ε)) (elsewhere : child.pc ≠ .acquiring) :
    parked child = false ∧ ∀ fut, awaits fut child = false := by
  simp [parked, awaits, elsewhere]

theorem not_holds (child : Child Pc (Exc ε)) (outside : child.pc.inUser = false)
    (notDone : child.task.waiter ≠ some .done) : holds child = false := by
  simp [holds, awaits, outside, notDone]

theorem over_holds {child : Child Pc (Exc ε)} (halted : child.ended ≠ none) :
    holds child = false ∧ parked child = false ∧ ∀ fut, awaits fut child = false := by
  simp [holds, parked, awaits, halted]

variable {f : Fanout α β κ σ ε} {s t : State α β σ ε} {sem : Semaphore} {slots i : Nat}

theorem Slotted.kept (slotted : Slotted f slots s sem) (sem_ : t.sem = s.sem)
    (holds_ : ∀ j, holds (t.child j) = holds (s.child j))
    (parked_ : ∀ j, parked (t.child j) = parked (s.child j)) : Slotted f slots t sem where
  isSem := sem_.trans slotted.isSem
  distinct := slotted.distinct
  within := slotted.within
  listed := fun j => by rw [parked_]; exact slotted.listed j
  balance := by
    have same : f.held t = f.held s := by simp only [held, holds_]
    rw [same]
    exact slotted.balance

theorem Fair.kept (fair : Fair s sem)
    (done : ∀ j, awaits .done (s.child j) = true → awaits .done (t.child j) = true)
    (pending : ∀ j, awaits .pending (t.child j) = true → awaits .pending (s.child j) = true) :
    Fair t sem := by
  intro free k waiting
  obtain ⟨j, woken⟩ := fair free k (pending k waiting)
  exact ⟨j, done j woken⟩

theorem held_own (bound : i < f.items.length) (others : ∀ j, j ≠ i → t.child j = s.child j) :
    f.held t + (if holds (s.child i) = true then 1 else 0) =
      f.held s + (if holds (t.child i) = true then 1 else 0) :=
  Count.count_change (p := fun j => holds (s.child j) = true) (q := fun j => holds (t.child j) = true)
    bound fun j other => by rw [others j other]

/-- `_wake_up_next`: the slot goes to the first that waits, if there is one. -/
theorem Slotted.wakeUpNext (slotted : Slotted f slots s sem) (free : 0 < sem.value) :
    ∃ next, Slotted f slots s.wakeUpNext next ∧ Fair s.wakeUpNext next ∧
      ∀ j, parked (s.child j) = false → s.wakeUpNext.child j = s.child j := by
  unfold State.wakeUpNext Semaphore.wakeUpNext
  simp only [slotted.isSem]
  split
  · rename_i j found
    have pending := List.find?_some found
    have member := List.mem_of_find?_eq_some found
    have listed := (slotted.listed j).mp member
    simp only [beq_iff_eq] at pending
    have here : s.toCall.fulfil (some j) = s.toCall.setTask j (s.child j).task.fulfil := rfl
    simp only [here]
    have others : ∀ k, k ≠ j → (s.toCall.setTask j (s.child j).task.fulfil).child k = s.child k := by
      intro k other
      rw [Call.setTask_child, if_neg other]
    have own : (s.toCall.setTask j (s.child j).task.fulfil).child j =
        { s.child j with task := (s.child j).task.fulfil } := by
      rw [Call.setTask_child, if_pos rfl]
    have woken : awaits .done ({ s.child j with task := (s.child j).task.fulfil } : Child Pc (Exc ε)) = true := by
      simpa [awaits, parked, pending] using listed
    have before : holds (s.child j) = false := by
      refine not_holds _ ?_ (by simp [pending])
      simp only [parked, Bool.and_eq_true, decide_eq_true_eq] at listed
      simp [listed.1.2, Pc.inUser]
    have after : holds ({ s.child j with task := (s.child j).task.fulfil } : Child Pc (Exc ε)) = true := by
      simp [holds, woken]
    refine ⟨{ sem with value := sem.value - 1 }, ⟨rfl, slotted.distinct, slotted.within, fun k => ?_, ?_⟩,
      ?_, ?_⟩
    · rw [slotted.listed k]
      by_cases isJ : k = j
      · subst isJ
        rw [own]
        simp [listed, parked_of_awaits woken]
      · rw [others k isJ]
    · have counted := held_own (f := f) (s := s) (t := { s with
          toCall := s.toCall.setTask j (s.child j).task.fulfil
          sem := some { sem with value := sem.value - 1 } }) (slotted.within j member) others
      simp only [own, before, after, Bool.false_eq_true, ↓reduceIte] at counted
      have balance := slotted.balance
      dsimp only
      omega
    · exact fun _ k _ => ⟨j, by rw [own]; exact woken⟩
    · intro k outside
      refine others k ?_
      rintro rfl
      simp [listed] at outside
  · rename_i nobody
    refine ⟨sem, ⟨rfl, slotted.distinct, slotted.within, slotted.listed, slotted.balance⟩, ?_,
      fun _ _ => rfl⟩
    intro _ k (waiting : awaits .pending (s.child k) = true)
    have asleep := List.find?_eq_none.mp nobody k ((slotted.listed k).mpr (parked_of_awaits waiting))
    simp only [awaits, Bool.and_eq_true, decide_eq_true_eq] at waiting
    simp [waiting.2] at asleep

/-- A slot is given back: there is one more than was in use, until its holder is gone. -/
theorem Slotted.release (slotted : Slotted f slots s sem) :
    ∃ next, Slotted f (slots + 1) s.release next ∧ Fair s.release next ∧
      ∀ j, parked (s.child j) = false → s.release.child j = s.child j := by
  have more : Slotted f (slots + 1)
      { s with sem := s.sem.map fun sem => { sem with value := sem.value + 1 } }
      { sem with value := sem.value + 1 } := by
    refine ⟨by simp [slotted.isSem], slotted.distinct, slotted.within, slotted.listed, ?_⟩
    have balance := slotted.balance
    show sem.value + 1 + f.held s = slots + 1
    omega
  exact more.wakeUpNext (Nat.succ_pos _)

theorem Slotted.own (slotted : Slotted f slots s sem) (bound : i < f.items.length)
    (others : ∀ j, j ≠ i → t.child j = s.child j) (sem_ : t.sem = s.sem)
    (before : parked (s.child i) = false) (after : parked (t.child i) = false) {left : Nat}
    (count : left + (if holds (s.child i) = true then 1 else 0) =
      slots + (if holds (t.child i) = true then 1 else 0)) : Slotted f left t sem where
  isSem := sem_.trans slotted.isSem
  distinct := slotted.distinct
  within := slotted.within
  listed := by
    intro j
    rw [slotted.listed j]
    by_cases here : j = i
    · rw [here, before, after]
    · rw [others j here]
  balance := by
    have counted := held_own (f := f) bound others
    have balance := slotted.balance
    omega

theorem Fair.own (fair : Fair s sem) (others : ∀ j, j ≠ i → t.child j = s.child j)
    (before : parked (s.child i) = false) (after : parked (t.child i) = false) : Fair t sem := by
  have apart : ∀ (child : Child Pc (Exc ε)) (fut : Fut), parked child = false →
      awaits fut child ≠ true := by
    intro child fut outside waiting
    simp [parked_of_awaits waiting] at outside
  refine fair.kept (fun j woken => ?_) fun j waiting => ?_
  · by_cases here : j = i
    · exact absurd (here ▸ woken) (apart _ _ before)
    · rw [others j here]
      exact woken
  · by_cases here : j = i
    · exact absurd (here ▸ waiting) (apart _ _ after)
    · rw [← others j here]
      exact waiting

theorem Slotted.endTask (slotted : Slotted f slots s sem) (fair : Fair s sem)
    (bound : i < f.items.length) (outside : parked (s.child i) = false) {left : Nat}
    (count : slots = left + if holds (s.child i) = true then 1 else 0) (ended : TaskEnd (Exc ε)) :
    Slotted f left (s.endTask i ended) sem ∧ Fair (s.endTask i ended) sem := by
  have others : ∀ j, j ≠ i → (s.endTask i ended).child j = s.child j := by
    intro j other
    simp [State.endTask, Call.endTask, Call.setChild, other]
  have halted : ((s.endTask i ended).child i).ended ≠ none := by
    simp only [State.endTask, Call.endTask_ended, ↓reduceIte]
    simp
  obtain ⟨none, gone, _⟩ := over_holds halted
  refine ⟨slotted.own bound others rfl outside gone ?_, fair.own others outside gone⟩
  simp only [none, Bool.false_eq_true, ↓reduceIte]
  omega

theorem Slotted.enterSlot (slotted : Slotted f slots s sem) (fair : Fair s sem)
    (bound : i < f.items.length) (alive : (s.child i).ended = none)
    (notParked : parked (s.child i) = false) (notHolds : holds (s.child i) = false) (item : α) :
    ∃ next, Slotted f (slots + 1) (f.enterSlot s i item) next ∧
      Fair (f.enterSlot s i item) next := by
  unfold Fanout.enterSlot
  split
  · obtain ⟨next, freed, fairly, same⟩ := slotted.release
    have here := same i notParked
    exact ⟨next, freed.endTask fairly bound (here ▸ notParked) (by simp [here, notHolds]) .returned⟩
  · dsimp only
    generalize isCm : (f.timeout.map fun _ => Timeout.enter (s.child i).task) = cm
    have others : ∀ j, j ≠ i → (s.toCall.beginCall i (.calling cm) i item).child j = s.child j := by
      intro j other
      simp [Call.beginCall, Call.emit, Call.setChild, other]
    have own : (s.toCall.beginCall i (.calling cm) i item).child i =
        { s.child i with pc := .calling cm } := by
      simp [Call.beginCall, Call.emit, Call.setChild]
    have gone : parked ((s.toCall.beginCall i (.calling cm) i item).child i) = false := by
      simp [own, parked]
    refine ⟨sem, slotted.own (t := { s with toCall := s.toCall.beginCall i (.calling cm) i item })
      bound others rfl notParked gone ?_, fair.own others notParked gone⟩
    have after : holds ((s.toCall.beginCall i (.calling cm) i item).child i) = true := by
      simp [own, holds, alive, Pc.inUser]
    simp only [notHolds, after, Bool.false_eq_true, ↓reduceIte, Nat.add_zero]

theorem Slotted.firstStep (slotted : Slotted f slots s sem) (fair : Fair s sem)
    (bound : i < f.items.length) (alive : (s.child i).ended = none)
    (place : (s.child i).pc = .created) (item : α) :
    ∃ next, Slotted f slots (f.firstStep s i item) next ∧ Fair (f.firstStep s i item) next := by
  have notParked := (not_parked (s.child i) (by simp [place])).1
  have notHolds : holds (s.child i) = false := by simp [holds, awaits, place, Pc.inUser]
  unfold Fanout.firstStep
  split
  · exact ⟨sem, slotted.endTask fair bound notParked (by simp [notHolds]) .cancelled⟩
  · simp only [slotted.isSem]
    split
    · have others : ∀ j, j ≠ i → (s.toCall.setChild i { s.child i with
          pc := .acquiring, task := (s.child i).task.await }).child j = s.child j := by
        intro j other
        simp [Call.setChild, other]
      have own : (s.toCall.setChild i { s.child i with
          pc := .acquiring, task := (s.child i).task.await }).child i =
            { s.child i with pc := .acquiring, task := (s.child i).task.await } := by
        simp [Call.setChild]
      have asleep : (s.child i).task.await.waiter ≠ some .done ∧ (s.child i).task.await.waiter ≠ none := by
        rw [Task.await_waiter]
        split <;> simp
      have fresh : i ∉ sem.waiters := fun member => by simp [notParked, slotted.listed i] at member
      refine ⟨{ sem with waiters := sem.waiters ++ [i] }, ⟨rfl, ?_, ?_, fun j => ?_, ?_⟩, ?_⟩
      · exact List.nodup_append.mpr ⟨slotted.distinct, by simp, by
          rintro j member k isI rfl
          exact fresh (List.mem_singleton.mp isI ▸ member)⟩
      · intro j member
        rcases List.mem_append.mp member with old | new
        · exact slotted.within j old
        · exact List.mem_singleton.mp new ▸ bound
      · rw [List.mem_append, List.mem_singleton, slotted.listed j]
        by_cases here : j = i
        · subst here
          rw [own]
          simp [parked, alive, Option.isSome_iff_ne_none, asleep.2]
        · rw [others j here]
          simp [here]
      · have counted := held_own (f := f) (s := s) (t := { s with
          toCall := s.toCall.setChild i { s.child i with
            pc := .acquiring, task := (s.child i).task.await }
          sem := some { sem with waiters := sem.waiters ++ [i] } }) bound others
        have after : holds { s.child i with
            pc := .acquiring, task := (s.child i).task.await } = false :=
          not_holds _ rfl asleep.1
        simp only [own, notHolds, after, Bool.false_eq_true, ↓reduceIte] at counted
        have balance := slotted.balance
        dsimp only
        omega
      · rename_i locked
        intro free k _
        have someone : ∃ j, awaits .done (s.child j) = true := by
          simp only [Semaphore.locked, Bool.or_eq_true, beq_iff_eq, List.any_eq_true, bne_iff_ne]
            at locked
          rcases locked with none | ⟨j, member, notCancelled⟩
          · exact absurd none (Nat.ne_of_gt free)
          · have waits := (slotted.listed j).mp member
            simp only [parked, Bool.and_eq_true, Option.isSome_iff_exists] at waits
            obtain ⟨waits, fut, isFut⟩ := waits
            cases fut with
            | pending => exact fair free j (by simp [awaits, waits, isFut])
            | done => exact ⟨j, by simp [awaits, waits, isFut]⟩
            | cancelled => exact absurd isFut notCancelled
        obtain ⟨j, woken⟩ := someone
        refine ⟨j, ?_⟩
        rw [others j]
        · exact woken
        · rintro rfl
          simp [parked_of_awaits woken] at notParked
    · rename_i free
      simp only [Semaphore.locked, Bool.or_eq_true, beq_iff_eq, not_or] at free
      have balance := slotted.balance
      have taken : Slotted f (slots - 1)
          { s with sem := some { sem with value := sem.value - 1 } }
          { sem with value := sem.value - 1 } := by
        refine ⟨rfl, slotted.distinct, slotted.within, slotted.listed, ?_⟩
        show sem.value - 1 + f.held s = slots - 1
        omega
      have fairly : Fair { s with sem := some { sem with value := sem.value - 1 } }
          { sem with value := sem.value - 1 } := by
        intro left k waiting
        exact fair (by omega) k waiting
      have entered := taken.enterSlot fairly bound alive notParked notHolds item
      rwa [Nat.sub_add_cancel (by omega)] at entered

/-- `self._waiters.remove(fut)`, in the step in which the wait of task `i` ends. -/
def State.leaveWaiters (s : State α β σ ε) (i : Nat) : State α β σ ε :=
  { s with
    toCall := s.toCall.setTask i (s.child i).task.resume
    sem := s.sem.map fun sem => { sem with waiters := sem.waiters.erase i } }

theorem acquired_eq (f : Fanout α β κ σ ε) (s : State α β σ ε) (i : Nat) (item : α) :
    f.acquired s i item =
      if (s.child i).task.throws then
        (if (s.child i).task.waiter = some .cancelled then s.leaveWaiters i
          else (s.leaveWaiters i).release).endTask i .cancelled
      else
        f.enterSlot (if (s.leaveWaiters i).sem.any fun sem => 0 < sem.value then
          (s.leaveWaiters i).wakeUpNext else s.leaveWaiters i) i item := rfl

theorem leaveWaiters_child (s : State α β σ ε) (i : Nat) :
    (∀ j, j ≠ i → (s.leaveWaiters i).child j = s.child j) ∧
      (s.leaveWaiters i).child i = { s.child i with task := (s.child i).task.resume } :=
  ⟨fun _ other => (Call.setTask_child _ _ _ _).trans (if_neg other),
    (Call.setTask_child _ _ _ _).trans (if_pos rfl)⟩

theorem Slotted.leaveWaiters (slotted : Slotted f slots s sem) (bound : i < f.items.length)
    (place : (s.child i).pc = .acquiring) (left : Nat)
    (count : slots = left + if holds (s.child i) = true then 1 else 0) :
    Slotted f left (s.leaveWaiters i) { sem with waiters := sem.waiters.erase i } := by
  obtain ⟨others, own⟩ := leaveWaiters_child s i
  have notParked : parked ((s.leaveWaiters i).child i) = false := by simp [own, parked]
  have notHolds : holds ((s.leaveWaiters i).child i) = false := by
    simp [own, holds, awaits, place, Pc.inUser]
  refine ⟨?_, slotted.distinct.erase i, ?_, fun j => ?_, ?_⟩
  · simp [State.leaveWaiters, slotted.isSem]
  · exact fun j member => slotted.within j (List.mem_of_mem_erase member)
  · rw [slotted.distinct.mem_erase_iff, slotted.listed j]
    by_cases here : j = i
    · subst here
      simp [notParked]
    · rw [others j here]
      simp [here]
  · have counted := held_own (f := f) bound others
    have balance := slotted.balance
    simp only [notHolds, Bool.false_eq_true, ↓reduceIte] at counted
    dsimp only
    omega

theorem Slotted.acquired (slotted : Slotted f slots s sem) (fair : Fair s sem)
    (bound : i < f.items.length) (alive : (s.child i).ended = none)
    (place : (s.child i).pc = .acquiring) (ready : (s.child i).task.woken = true) (item : α) :
    ∃ next, Slotted f slots (f.acquired s i item) next ∧ Fair (f.acquired s i item) next := by
  obtain ⟨others, own⟩ := leaveWaiters_child s i
  have aliveLeft : ((s.leaveWaiters i).child i).ended = none := by rw [own]; exact alive
  have notParked : parked ((s.leaveWaiters i).child i) = false := by simp [own, parked]
  have notHolds : holds ((s.leaveWaiters i).child i) = false := by
    simp [own, holds, awaits, place, Pc.inUser]
  rw [acquired_eq]
  by_cases cancelled : (s.child i).task.waiter = some .cancelled
  · have throws : (s.child i).task.throws = true := by simp [Task.throws, cancelled]
    have before : holds (s.child i) = false := not_holds _ (by simp [place, Pc.inUser]) (by simp [cancelled])
    have left := slotted.leaveWaiters bound place slots (by simp [before])
    have fairly : Fair (s.leaveWaiters i) { sem with waiters := sem.waiters.erase i } := by
      intro free k waiting
      have other : k ≠ i := by
        rintro rfl
        simp [parked_of_awaits waiting] at notParked
      obtain ⟨j, woken⟩ := fair free k (others k other ▸ waiting)
      refine ⟨j, ?_⟩
      rw [others j]
      · exact woken
      · rintro rfl
        simp [awaits, cancelled] at woken
    rw [if_pos throws, if_pos cancelled]
    exact ⟨_, left.endTask fairly bound notParked (by simp [notHolds]) .cancelled⟩
  · have done : (s.child i).task.waiter = some .done := by
      simpa [Task.woken, cancelled] using ready
    have before : holds (s.child i) = true := by simp [holds, awaits, alive, place, done]
    have balance := slotted.balance
    have counted := held_own (f := f) bound others
    simp only [before, notHolds, ↓reduceIte, Bool.false_eq_true] at counted
    have left := slotted.leaveWaiters bound place (slots - 1) (by
      simp only [before, ↓reduceIte]
      omega)
    have restored : slots - 1 + 1 = slots := by omega
    split
    · obtain ⟨next, freed, fairly, same⟩ := left.release
      have here := same i notParked
      rw [restored] at freed
      exact ⟨next, freed.endTask fairly bound (here ▸ notParked) (by simp [here, notHolds]) .cancelled⟩
    · by_cases free : 0 < sem.value
      · obtain ⟨next, woken, fairly, same⟩ := left.wakeUpNext free
        have here := same i notParked
        rw [if_pos (by simp [left.isSem, free])]
        have entered := woken.enterSlot fairly bound (here ▸ aliveLeft) (here ▸ notParked)
          (here ▸ notHolds) item
        rwa [restored] at entered
      · rw [if_neg (by simp [left.isSem, free])]
        have fairly : Fair (s.leaveWaiters i) { sem with waiters := sem.waiters.erase i } :=
          fun more => absurd more free
        have entered := left.enterSlot fairly bound aliveLeft notParked notHolds item
        rwa [restored] at entered

theorem Slotted.stays (slotted : Slotted f slots s sem) (fair : Fair s sem) (sem_ : t.sem = s.sem)
    (others : ∀ j, j ≠ i → t.child j = s.child j)
    (inside : (s.child i).pc.inUser = true ∧ (s.child i).ended = none)
    (still : (t.child i).pc.inUser = true ∧ (t.child i).ended = none) :
    Slotted f slots t sem ∧ Fair t sem := by
  have calls : ∀ child : Child Pc (Exc ε), child.pc.inUser = true ∧ child.ended = none →
      holds child = true ∧ parked child = false := by
    intro child here
    refine ⟨by simp [holds, here], (not_parked _ ?_).1⟩
    intro place
    simp [place, Pc.inUser] at here
  refine ⟨slotted.kept sem_ (fun j => ?_) fun j => ?_, fair.own others (calls _ inside).2 (calls _ still).2⟩
  · by_cases here : j = i
    · rw [here, (calls _ inside).1, (calls _ still).1]
    · rw [others j here]
  · by_cases here : j = i
    · rw [here, (calls _ inside).2, (calls _ still).2]
    · rw [others j here]

theorem Slotted.finish (slotted : Slotted f slots s sem)
    (bound : i < f.items.length) (alive : (s.child i).ended = none) {cm : Option Timeout}
    (inside : (s.child i).pc = .calling cm) (item : α) (out : FnEnd β ε) (clock : κ) :
    ∃ next, Slotted f slots (f.finish s i item cm out clock) next ∧
      Fair (f.finish s i item cm out clock) next := by
  unfold Fanout.finish
  dsimp only
  generalize s.callEnd i out (leaveTimeout cm (s.child i).task out) = call
  generalize (leaveTimeout cm (s.child i).task out).2.2 = task
  generalize f.complete i item clock call = completion
  have calls : ∀ task, holds { s.child i with task := task } = true ∧
      parked { s.child i with task := task } = false := by
    intro task
    simp [holds, parked, inside, alive, Pc.inUser]
  have before : holds (s.child i) = true ∧ parked (s.child i) = false := calls (s.child i).task
  -- the slot is given back while the task is still in its call
  have ends : ∀ (t : State α β σ ε) (ended : TaskEnd (Exc ε)), t.sem = s.sem →
      t.child = (s.toCall.setTask i task).child →
      ∃ next, Slotted f slots (t.release.endTask i ended) next ∧
        Fair (t.release.endTask i ended) next := by
    intro t ended sem_ child
    have others : ∀ j, j ≠ i → t.child j = s.child j := by
      intro j other
      rw [child, Call.setTask_child, if_neg other]
    have own : t.child i = { s.child i with task := task } := by
      rw [child, Call.setTask_child, if_pos rfl]
    obtain ⟨holds_, notParked⟩ := own ▸ calls task
    have kept : Slotted f slots t sem :=
      slotted.own bound others sem_ before.2 notParked (by simp [before.1, holds_])
    obtain ⟨next, freed, fairly, same⟩ := kept.release
    have here := same i notParked
    exact ⟨next, freed.endTask fairly bound (here ▸ notParked) (by simp [here, holds_]) ended⟩
  cases completion with
  | stored slot => exact ends _ _ rfl rfl
  | failed exc => exact ends _ _ rfl rfl

def SlotsKept (f : Fanout α β κ σ ε) (s : State α β σ ε) : Prop :=
  ∀ slots, f.concurrency = some slots → ∃ sem, Slotted f slots s sem ∧ Fair s sem

theorem SlotsKept.init (f : Fanout α β κ σ ε) (caller : Caller) : f.SlotsKept (f.init caller) := by
  intro slots concurrency
  have fresh : ∀ j, (f.init caller).child j = { pc := .created } := by
    intro j
    simp only [Fanout.init]
    split <;> rfl
  refine ⟨{ value := slots }, ⟨by simp [Fanout.init, concurrency], by simp, by simp, ?_, ?_⟩, ?_⟩
  · simp [fresh, parked]
  · simp [held, fresh, holds, awaits, Pc.inUser]
  · intro _ k waiting
    simp [fresh, awaits] at waiting

theorem SlotsKept.step {a : Act β κ ε} (inv : Inv f s) (slotted : f.SlotsKept s)
    (stepped : f.step s a = some t) : f.SlotsKept t := by
  intro slots concurrency
  obtain ⟨sem, slotted, fair⟩ := slotted slots concurrency
  have bound : ∀ {i : Nat} {item : α}, f.items[i]? = some item → i < f.items.length :=
    fun found => (List.getElem?_eq_some_iff.mp found).1
  cases a with
  | loop act =>
      simp only [Fanout.step, Option.map_eq_some_iff] at stepped
      obtain ⟨call, moved, rfl⟩ := stepped
      have child := Call.loopStep_child moved
      refine ⟨sem, slotted.kept rfl (fun j => ?_) fun j => ?_, fair.kept (fun j woken => ?_) fun j waiting => ?_⟩
      · rcases child j with same | cancelled
        · exact congrArg holds same
        · exact (congrArg holds cancelled).trans (holds_cancel _)
      · rcases child j with same | cancelled
        · exact congrArg parked same
        · exact (congrArg parked cancelled).trans (awaits_cancel _).2.1
      · rcases child j with same | cancelled
        · exact (congrArg (awaits .done) same).trans woken
        · exact (congrArg (awaits .done) cancelled).trans ((awaits_cancel _).1.trans woken)
      · rcases child j with same | cancelled
        · exact (congrArg (awaits .pending) same).symm.trans waiting
        · exact (awaits_cancel _).2.2 ((congrArg (awaits .pending) cancelled).symm.trans waiting)
  | user act =>
      simp only [Fanout.step] at stepped
      split at stepped
      · simp only [Option.map_eq_some_iff] at stepped
        obtain ⟨call, moved, rfl⟩ := stepped
        obtain ⟨_, _, _, _, ⟨task, child⟩, place, _, _⟩ := Call.userStep_same moved
        have inside : (s.child act.task).pc.inUser = true ∧ (s.child act.task).ended = none := by
          rcases place with ⟨inside, busy | alive⟩
          · exact inv.running _ busy
          · simp only [Scope.live, Bool.and_eq_true, Option.isNone_iff_eq_none] at alive
            exact ⟨inside, alive.2⟩
        refine ⟨sem, slotted.stays fair rfl (i := act.task) (fun j other => ?_) inside ?_⟩
        · show call.child j = s.child j
          rw [child, Call.setTask_child, if_neg other]
        · show (call.child act.task).pc.inUser = true ∧ (call.child act.task).ended = none
          rw [child, Call.setTask_child, if_pos rfl]
          exact inside
      · simp at stepped
  | run i =>
      simp only [Fanout.step, Option.isNone_iff_eq_none] at stepped
      split at stepped
      · rename_i enabled
        have alive := enabled.2.2
        simp only [Scope.live, Bool.and_eq_true, Option.isNone_iff_eq_none] at alive
        split at stepped
        · rename_i item found place
          simp only [Option.some.injEq] at stepped
          exact stepped ▸ slotted.firstStep fair (bound found) alive.2 place item
        · rename_i item found place
          split at stepped <;> simp only [Option.some.injEq, reduceCtorEq] at stepped
          rename_i ready
          exact stepped ▸ slotted.acquired fair (bound found) alive.2 place ready item
        · simp at stepped
      · simp at stepped
  | deadline i =>
      simp only [Fanout.step] at stepped
      split at stepped
      · rename_i cm inside
        split at stepped <;> simp only [Option.some.injEq, reduceCtorEq] at stepped
        rename_i enabled
        have alive := enabled.2.2.1
        simp only [Scope.live, Bool.and_eq_true, Option.isNone_iff_eq_none] at alive
        subst stepped
        refine ⟨sem, slotted.stays fair rfl (i := i) (fun j other => ?_) ⟨by simp [inside, Pc.inUser], alive.2⟩ ?_⟩
        · simp [Call.setChild, Call.emit, other]
        · simp [Call.setChild, Call.emit, Pc.inUser, alive.2]
      · simp at stepped
  | finish i out clock =>
      simp only [Fanout.step] at stepped
      split at stepped
      · rename_i item cm found inside
        split at stepped <;> simp only [Option.some.injEq, reduceCtorEq] at stepped
        rename_i enabled
        have alive := enabled.2.2
        simp only [Scope.live, Bool.and_eq_true, Option.isNone_iff_eq_none] at alive
        exact stepped ▸ slotted.finish (bound found) alive.2 inside item _ clock
      · simp at stepped

theorem slots_of_reaches {caller : Caller} (strict : f.Strict)
    (reached : Runs.Reaches f.step (f.init caller) s) : f.SlotsKept s := by
  have kept : Inv f s ∧ f.SlotsKept s := by
    refine reached.invariant (p := fun s => Inv f s ∧ f.SlotsKept s) ?_
      ⟨Inv.init f caller, SlotsKept.init f caller⟩
    rintro s a t ⟨inv, slotted⟩ stepped
    exact ⟨inv.step strict stepped, slotted.step inv stepped⟩
  exact kept.2

end Fanout

end AsyncPipelines
