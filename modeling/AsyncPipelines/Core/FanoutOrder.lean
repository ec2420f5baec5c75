import AsyncPipelines.Core.FanoutSlots
import Mathlib.Data.Set.Card

/-!
How many calls are in flight, and in which order they start. The event loop and the
semaphore are first-in first-out here: tasks begin in the order of their creation, and
a waiter that was woken does not overtake one that was woken before it.
-/

namespace AsyncPipelines

open Asyncio

variable {α β κ σ ε : Type}

namespace Fanout

/-- No task is run before one that was ready earlier. A task that was cancelled starts
no call, so its place does not matter. -/
def inTurn (s : State α β σ ε) : Act β κ ε → Bool
  | .run i =>
      match (s.child i).pc with
      | .created => (List.range i).all fun j => (s.child j).pc != .created || (s.child j).ended.isSome
      | .acquiring =>
          (s.child i).task.throws ||
            s.sem.any fun sem => sem.waiters.find? (fun j => (s.child j).task.woken) == some i
      | .calling _ => true
  | _ => true

def stepInTurn (f : Fanout α β κ σ ε) (s : State α β σ ε) (a : Act β κ ε) :
    Option (State α β σ ε) :=
  if inTurn s a then f.step s a else none

variable {f : Fanout α β κ σ ε} {s t : State α β σ ε} {sem : Semaphore} {slots k i : Nat}
  {woken asleep : List Nat}

theorem stepInTurn_eq {a : Act β κ ε} (stepped : f.stepInTurn s a = some t) :
    inTurn s a = true ∧ f.step s a = some t := by
  simp only [stepInTurn] at stepped
  split at stepped
  · rename_i turn
    exact ⟨turn, stepped⟩
  · simp at stepped

theorem reaches_of_inTurn {caller : Caller}
    (reached : Runs.Reaches f.stepInTurn (f.init caller) s) :
    Runs.Reaches f.step (f.init caller) s :=
  reached.weaken fun _ _ _ stepped => (stepInTurn_eq stepped).2

theorem Slotted.inFlight (inv : Inv f s) (slotted : Slotted f slots s sem) :
    {i | InFlight s.log i}.encard ≤ slots := by
  let holders := (Finset.range f.items.length).filter fun j => holds (s.child j) = true
  have inside : {i | InFlight s.log i} ⊆ (holders : Set Nat) := by
    rintro i ⟨⟨item, called⟩, unfinished⟩
    have own : .called i item ∈ history i s.log := mem_history.mpr ⟨called, rfl⟩
    have finished : ∀ call completion, .ended i call completion ∉ history i s.log :=
      fun call completion member => unfinished call completion (mem_history.mp member).1
    cases inv.item i with
    | calling _ _ found place alive _ _ _ _ =>
        have bound := (List.getElem?_eq_some_iff.mp found).1
        simp [holders, bound, holds, place, Pc.inUser, alive]
    | absent _ untouched => simp [untouched] at own
    | waiting _ _ _ _ _ untouched _ => simp [untouched] at own
    | skipped _ _ _ untouched _ _ => simp [untouched] at own
    | dropped _ _ _ untouched _ _ => simp [untouched] at own
    | stored _ _ call slot _ _ record _ _ _ _ =>
        exact absurd (by simp [record]) (finished call (.stored slot))
    | failed _ _ call exc _ _ record _ _ _ _ _ =>
        exact absurd (by simp [record]) (finished call (.failed exc))
  calc {i | InFlight s.log i}.encard ≤ (holders : Set Nat).encard := Set.encard_le_encard inside
    _ = f.held s := by
        rw [Set.encard_coe_eq_coe_finsetCard, held, Nat.count_eq_card_filter_range]
    _ ≤ slots := by
        have balance := slotted.balance
        exact_mod_cast (by omega : f.held s ≤ slots)

def Doomed (child : Child Pc (Exc ε)) : Prop :=
  child.groupCancelled = true → child.ended = none → child.pc.inUser = false →
    child.task.throws = true

/-- How the tasks stand while nothing has gone wrong: the first `k` have begun, the
first of these have been called or are about to be (`hand`), and of the others, which
wait in the deque, those in front have been woken. -/
structure Line (f : Fanout α β κ σ ε) (s : State α β σ ε) (sem : Semaphore) (k : Nat)
    (hand woken asleep : List Nat) : Prop where
  order : (callLog s.log).map Prod.fst ++ (hand ++ sem.waiters) = List.range k
  begun : ∀ j, j ∉ hand → ((s.child j).pc = .created ↔ k ≤ j)
  fresh : ∀ j, k ≤ j → (s.child j).ended = none
  deque : sem.waiters = woken ++ asleep
  served : ∀ j ∈ woken, awaits .done (s.child j) = true
  queued : ∀ j ∈ asleep, awaits .pending (s.child j) = true

def Calm (s : State α β σ ε) : Prop := s.failed = false ∧ s.group.aborting = false

structure InOrder (f : Fanout α β κ σ ε) (s : State α β σ ε) : Prop where
  doomed : ∀ j, Doomed (s.child j)
  first : ∃ m, (callLog s.log).map Prod.fst = List.range m
  line : Calm s → ∀ sem, s.sem = some sem → ∃ k woken asleep, Line f s sem k [] woken asleep

variable {hand : List Nat}

namespace Line

theorem congr (line : Line f s sem k hand woken asleep) (log : callLog t.log = callLog s.log)
    (child : t.child = s.child) {next : Semaphore} (waiters : next.waiters = sem.waiters) :
    Line f t next k hand woken asleep where
  order := by rw [log, waiters]; exact line.order
  begun := by rw [child]; exact line.begun
  fresh := by rw [child]; exact line.fresh
  deque := waiters.trans line.deque
  served := by rw [child]; exact line.served
  queued := by rw [child]; exact line.queued

theorem distinct (line : Line f s sem k hand woken asleep) : (hand ++ sem.waiters).Nodup := by
  have all : ((callLog s.log).map Prod.fst ++ (hand ++ sem.waiters)).Nodup :=
    line.order ▸ List.nodup_range
  exact (List.nodup_append.mp all).2.1

theorem first (line : Line f s sem k hand woken asleep) :
    ∃ m, (callLog s.log).map Prod.fst = List.range m := by
  generalize called : (callLog s.log).map Prod.fst = indices
  have order := line.order
  rw [called] at order
  refine ⟨min indices.length k, ?_⟩
  rw [← List.take_range, ← order, List.take_left']
  rfl

theorem waiting (line : Line f s sem k hand woken asleep) {j : Nat} (member : j ∈ sem.waiters) :
    awaits .done (s.child j) = true ∨ awaits .pending (s.child j) = true := by
  rw [line.deque, List.mem_append] at member
  exact member.imp (line.served j) (line.queued j)

theorem absent (line : Line f s sem k hand woken asleep) (elsewhere : (s.child i).pc ≠ .acquiring) :
    i ∉ sem.waiters := by
  intro member
  have outside := (not_parked (s.child i) elsewhere).2
  rcases line.waiting member with waits | waits <;> simp [outside] at waits

theorem wakeUpNext (line : Line f s sem k hand woken asleep) (isSem : s.sem = some sem) :
    ∃ next woken asleep, s.wakeUpNext.sem = some next ∧
      Line f s.wakeUpNext next k hand woken asleep := by
  have find : sem.waiters.find? (fun j => (s.child j).task.waiter == some .pending) = asleep.head? := by
    rw [line.deque, List.find?_append]
    have none : woken.find? (fun j => (s.child j).task.waiter == some .pending) = none := by
      refine List.find?_eq_none.mpr fun j member => ?_
      have done := line.served j member
      simp only [awaits, Bool.and_eq_true, decide_eq_true_eq] at done
      simp [done.2]
    rw [none, Option.none_or]
    cases asleep with
    | nil => rfl
    | cons first rest =>
        have pending := line.queued first List.mem_cons_self
        simp only [awaits, Bool.and_eq_true, decide_eq_true_eq] at pending
        simp [pending.2]
  have distinct : (woken ++ asleep).Nodup :=
    line.deque ▸ (List.nodup_append.mp line.distinct).2.1
  unfold State.wakeUpNext Semaphore.wakeUpNext
  simp only [isSem, find]
  cases asleep with
  | nil =>
      refine ⟨sem, woken, [], rfl, line.congr ?_ ?_ ?_⟩ <;> rfl
  | cons first rest =>
      have here : s.toCall.fulfil (some first) = s.toCall.setTask first (s.child first).task.fulfil := rfl
      simp only [List.head?_cons, here]
      have others : ∀ j, j ≠ first →
          (s.toCall.setTask first (s.child first).task.fulfil).child j = s.child j := by
        intro j other
        rw [Call.setTask_child, if_neg other]
      have own : (s.toCall.setTask first (s.child first).task.fulfil).child first =
          { s.child first with task := (s.child first).task.fulfil } := by
        rw [Call.setTask_child, if_pos rfl]
      have pending := line.queued first List.mem_cons_self
      refine ⟨_, woken ++ [first], rest, rfl, line.order, fun j notHand => ?_, fun j later => ?_,
        ?_, ?_, ?_⟩
      · rw [← line.begun j notHand]
        by_cases isFirst : j = first
        · rw [isFirst, own]
        · rw [others j isFirst]
      · rw [← line.fresh j later]
        by_cases isFirst : j = first
        · rw [isFirst, own]
        · rw [others j isFirst]
      · simp [line.deque]
      · intro j member
        by_cases isFirst : j = first
        · rw [isFirst, own]
          simp only [awaits, Bool.and_eq_true, decide_eq_true_eq] at pending
          simp [awaits, pending.1]
        · rw [others j isFirst]
          exact line.served j (by simpa [isFirst] using member)
      · intro j member
        have isOther : j ≠ first := by
          rintro rfl
          have later := (List.nodup_append.mp distinct).2.1
          exact (List.nodup_cons.mp later).1 member
        rw [others j isOther]
        exact line.queued j (List.mem_cons_of_mem _ member)

theorem release (line : Line f s sem k hand woken asleep) (isSem : s.sem = some sem) :
    ∃ next woken asleep, s.release.sem = some next ∧ Line f s.release next k hand woken asleep := by
  have more : Line f { s with sem := s.sem.map fun sem => { sem with value := sem.value + 1 } }
      { sem with value := sem.value + 1 } k hand woken asleep := by
    refine line.congr ?_ ?_ ?_ <;> rfl
  exact more.wakeUpNext (by simp [isSem])

theorem own (line : Line f s sem k hand woken asleep) (log : callLog t.log = callLog s.log)
    (others : ∀ j, j ≠ i → t.child j = s.child j) (absent : i ∉ sem.waiters) (before : i < k)
    (begun : (t.child i).pc ≠ .created) : Line f t sem k hand woken asleep where
  order := by rw [log]; exact line.order
  begun := by
    intro j notHand
    by_cases here : j = i
    · subst here
      simp only [begun, false_iff]
      omega
    · rw [others j here]
      exact line.begun j notHand
  fresh := by
    intro j later
    rw [others j (by omega)]
    exact line.fresh j later
  deque := line.deque
  served := by
    intro j member
    rw [others j]
    · exact line.served j member
    · rintro rfl
      exact absent (by simp [line.deque, member])
  queued := by
    intro j member
    rw [others j]
    · exact line.queued j member
    · rintro rfl
      exact absent (by simp [line.deque, member])

theorem call (line : Line f s sem k [i] woken asleep) (open_ : s.failed = false) (item : α) :
    Line f (f.enterSlot s i item) sem k [] woken asleep := by
  have before : i < k := by
    have member : i ∈ List.range k := line.order ▸ by simp
    exact List.mem_range.mp member
  have absent : i ∉ sem.waiters := by
    have distinct := line.distinct
    simp only [List.singleton_append, List.nodup_cons] at distinct
    exact distinct.1
  simp only [enterSlot, open_, Bool.false_eq_true, ↓reduceIte]
  generalize (f.timeout.map fun _ => Timeout.enter (s.child i).task) = cm
  have others : ∀ j, j ≠ i → (s.toCall.beginCall i (.calling cm) i item).child j = s.child j := by
    intro j other
    simp [Call.beginCall, Call.emit, Call.setChild, other]
  have place : ((s.toCall.beginCall i (.calling cm) i item).child i).pc = .calling cm := by
    simp [Call.beginCall, Call.emit, Call.setChild]
  have log : callLog (s.toCall.beginCall i (.calling cm) i item).log = callLog s.log ++ [(i, item)] := by
    simp [callLog, Call.beginCall, Call.emit, Call.setChild, Event.called?]
  have moved : Line f { s with toCall := { s.toCall.beginCall i (.calling cm) i item with log := s.log } }
      sem k [i] woken asleep :=
    line.own rfl others absent before (by simp [place])
  refine ⟨?_, fun j _ => ?_, moved.fresh, moved.deque, moved.served, moved.queued⟩
  · rw [log, ← line.order]
    simp
  · by_cases here : j = i
    · subst here
      simp only [place, reduceCtorEq, false_iff]
      omega
    · exact moved.begun j (by simpa using here)

theorem before (line : Line f s sem k hand woken asleep) {j : Nat} (member : j ∈ sem.waiters) : j < k := by
  have listed : j ∈ List.range k := line.order ▸ by simp [member]
  exact List.mem_range.mp listed

theorem park (line : Line f s sem i [] woken asleep) (alive : (s.child i).ended = none)
    (clean : (s.child i).task.mustCancel = false) :
    Line f { s with
        toCall := s.toCall.setChild i { s.child i with pc := .acquiring, task := (s.child i).task.await }
        sem := some { sem with waiters := sem.waiters ++ [i] } }
      { sem with waiters := sem.waiters ++ [i] } (i + 1) [] woken (asleep ++ [i]) := by
  have others : ∀ j, j ≠ i → (s.toCall.setChild i { s.child i with
      pc := .acquiring, task := (s.child i).task.await }).child j = s.child j := by
    intro j other
    simp [Call.setChild, other]
  have own : (s.toCall.setChild i { s.child i with
      pc := .acquiring, task := (s.child i).task.await }).child i =
        { s.child i with pc := .acquiring, task := (s.child i).task.await } := by
    simp [Call.setChild]
  refine ⟨?_, fun j _ => ?_, fun j later => ?_, by simp [line.deque], fun j member => ?_, fun j member => ?_⟩
  · show (callLog s.log).map Prod.fst ++ ([] ++ (sem.waiters ++ [i])) = _
    rw [List.range_succ, ← line.order]
    simp
  · by_cases here : j = i
    · rw [here, own]
      simp
    · rw [others j here, line.begun j (by simp)]
      omega
  · rw [others j (by omega)]
    exact line.fresh j (by omega)
  · have earlier := line.before (j := j) (by simp [line.deque, member])
    rw [others j (by omega)]
    exact line.served j member
  · rcases List.mem_append.mp member with old | new
    · have earlier := line.before (j := j) (by simp [line.deque, old])
      rw [others j (by omega)]
      exact line.queued j old
    · rw [List.mem_singleton.mp new, own]
      simp [awaits, alive, Task.await_waiter, clean]

theorem take (line : Line f s sem i [] woken asleep) (nobody : sem.waiters = [])
    (next : Semaphore) (same : next.waiters = sem.waiters) :
    Line f { s with sem := some next } next (i + 1) [i] woken asleep where
  order := by
    rw [List.range_succ, ← line.order, same, nobody]
    simp
  begun := by
    intro j notHand
    have begun := line.begun j (by simp)
    simp only [List.mem_singleton] at notHand
    rw [show i + 1 ≤ j ↔ i ≤ j by omega]
    exact begun
  fresh := fun j later => line.fresh j (by omega)
  deque := same.trans line.deque
  served := line.served
  queued := line.queued

end Line

theorem doomed_quiet (quiet : Quiet s t) {j : Nat} (before : Doomed (s.child j)) :
    Doomed (t.child j) := by
  by_cases pending : (s.child j).task.waiter = some .pending
  · intro flag alive outside
    have throws := before ((quiet.flagged j).symm.trans flag) ((quiet.frame j).ended.symm.trans alive)
      ((quiet.frame j).pc ▸ outside)
    simp [Task.throws, pending, (s.child j).task.settled pending] at throws
  · rw [quiet.calm j pending]
    exact before

theorem doomed_endTask (before : ∀ j, j ≠ i → Doomed (s.child j)) (ended : TaskEnd (Exc ε)) (j : Nat) :
    Doomed ((s.endTask i ended).child j) := by
  by_cases here : j = i
  · subst here
    intro _ alive
    simp [State.endTask, Call.endTask, Call.setChild] at alive
  · have same : (s.endTask i ended).child j = s.child j := by
      simp [State.endTask, Call.endTask, Call.setChild, here]
    rw [same]
    exact before j here

theorem doomed_enterSlot (before : ∀ j, j ≠ i → Doomed (s.child j)) (item : α) (j : Nat) :
    Doomed ((f.enterSlot s i item).child j) := by
  unfold enterSlot
  split
  · exact doomed_endTask (fun k other => doomed_quiet (quiet_release s) (before k other)) .returned j
  · by_cases here : j = i
    · subst here
      intro _ _ outside
      simp [Call.beginCall, Call.emit, Call.setChild, Pc.inUser] at outside
    · have same : (s.toCall.beginCall i (.calling (f.timeout.map fun _ =>
          Timeout.enter (s.child i).task)) i item).child j = s.child j := by
        simp [Call.beginCall, Call.emit, Call.setChild, here]
      show Doomed ((s.toCall.beginCall i _ i item).child j)
      rw [same]
      exact before j here

theorem enterSlot_failed (failed : s.failed = true) (item : α) :
    (f.enterSlot s i item).log = s.log := by
  simp only [enterSlot, failed, ↓reduceIte]
  exact (quiet_release s).log

theorem enterSlot_sem (open_ : s.failed = false) (item : α) : (f.enterSlot s i item).sem = s.sem := by
  simp [enterSlot, open_]

theorem not_calm (step : Call.TaskStep s.toCall t.toCall) (wrong : ¬ Calm s) : ¬ Calm t := by
  rintro ⟨failed, aborting⟩
  refine wrong ⟨?_, step.aborting.symm.trans aborting⟩
  rw [← Bool.not_eq_true]
  intro latched
  simp [step.latched latched] at failed

theorem InOrder.wrong (inOrder : InOrder f s) (wrong : ¬ Calm s) (step : Call.TaskStep s.toCall t.toCall)
    (doomed : ∀ j, Doomed (t.child j)) (log : callLog t.log = callLog s.log) : InOrder f t where
  doomed := doomed
  first := by rw [log]; exact inOrder.first
  line := fun calm => absurd calm (not_calm step wrong)

theorem InOrder.right (line : ∃ sem k woken asleep, t.sem = some sem ∧ Line f t sem k [] woken asleep)
    (doomed : ∀ j, Doomed (t.child j)) : InOrder f t := by
  obtain ⟨sem, k, woken, asleep, isSem, line⟩ := line
  refine ⟨doomed, line.first, fun _ other isOther => ⟨k, woken, asleep, ?_⟩⟩
  obtain rfl : sem = other := by simpa [isSem] using isOther
  exact line

theorem InOrder.throws_iff (inOrder : InOrder f s) (inv : Inv f s) (alive : s.live i = true)
    (calm : (s.child i).task.throws = true → (s.child i).groupCancelled = true)
    (outside : (s.child i).pc.inUser = false) :
    (s.child i).task.throws = true ↔ s.group.aborting = true := by
  have ended := alive
  simp only [Scope.live, Bool.and_eq_true, Option.isNone_iff_eq_none] at ended
  constructor
  · exact fun throws => inv.sound.flagged i (calm throws)
  · intro aborting
    exact inOrder.doomed i (inv.sound.reached aborting i alive) ended.2 outside

theorem InOrder.firstStep (inOrder : InOrder f s) (inv : Inv f s) (isSem : s.sem = some sem)
    {item : α} (ready : Ready f s i item)
    (calm : (s.child i).task.throws = true → (s.child i).groupCancelled = true)
    (place : (s.child i).pc = .created)
    (turn : ∀ j, j < i → (s.child j).pc ≠ .created ∨ (s.child j).ended ≠ none) :
    InOrder f (f.firstStep s i item) := by
  have stepped := (firstStep_stepped ready calm).rest.step
  have throws_iff := inOrder.throws_iff inv ready.alive calm (by simp [place, Pc.inUser])
  have alive := ready.alive
  simp only [Scope.live, Bool.and_eq_true, Option.isNone_iff_eq_none] at alive
  by_cases throws : (s.child i).task.throws = true
  · refine inOrder.wrong (fun nice => ?_) stepped ?_ ?_
    · simp [Calm, throws_iff.mp throws] at nice
    · simp only [Fanout.firstStep, throws, ↓reduceIte]
      exact doomed_endTask (fun k _ => inOrder.doomed k) .cancelled
    · simp only [Fanout.firstStep, throws, ↓reduceIte]
      rfl
  have running : s.group.aborting = false := by simpa [throws] using throws_iff.not.mp throws
  have clean : (s.child i).task.mustCancel = false := by
    simp only [Task.throws, Bool.or_eq_true, not_or, Bool.not_eq_true] at throws
    exact throws.1
  -- before anything goes wrong all tasks before this one have begun
  have next : Calm s → ∃ woken asleep, Line f s sem i [] woken asleep := by
    intro nice
    obtain ⟨k, woken, asleep, line⟩ := inOrder.line nice sem isSem
    have lower : k ≤ i := (line.begun i (by simp)).mp place
    have upper : ¬ k < i := by
      intro earlier
      rcases turn k earlier with begun | halted
      · exact begun ((line.begun k (by simp)).mpr (Nat.le_refl k))
      · exact halted (line.fresh k (Nat.le_refl k))
    obtain rfl : k = i := by omega
    exact ⟨woken, asleep, line⟩
  by_cases locked : sem.locked (fun j => (s.child j).task) = true
  · have parks : f.firstStep s i item = { s with
        toCall := s.toCall.setChild i { s.child i with pc := .acquiring, task := (s.child i).task.await }
        sem := some { sem with waiters := sem.waiters ++ [i] } } := by
      simp [Fanout.firstStep, throws, isSem, locked]
    rw [parks] at stepped ⊢
    have others : ∀ j, j ≠ i → (s.toCall.setChild i { s.child i with
        pc := .acquiring, task := (s.child i).task.await }).child j = s.child j := by
      intro j other
      simp [Call.setChild, other]
    have own : (s.toCall.setChild i { s.child i with
        pc := .acquiring, task := (s.child i).task.await }).child i =
          { s.child i with pc := .acquiring, task := (s.child i).task.await } := by
      simp [Call.setChild]
    have doomed : ∀ j, Doomed ((s.toCall.setChild i { s.child i with
        pc := .acquiring, task := (s.child i).task.await }).child j) := by
      intro j
      by_cases here : j = i
      · rw [here, own]
        intro flag
        exact absurd (inOrder.doomed i flag alive.2 (by simp [place, Pc.inUser])) throws
      · rw [others j here]
        exact inOrder.doomed j
    by_cases nice : Calm s
    · obtain ⟨woken, asleep, line⟩ := next nice
      exact .right ⟨_, i + 1, woken, asleep ++ [i], rfl, line.park alive.2 clean⟩ doomed
    · exact inOrder.wrong nice stepped doomed rfl
  · have enters : f.firstStep s i item =
        f.enterSlot { s with sem := some { sem with value := sem.value - 1 } } i item := by
      simp [Fanout.firstStep, throws, isSem, locked]
    have doomed : ∀ j, Doomed ((f.firstStep s i item).child j) := by
      rw [enters]
      exact doomed_enterSlot (s := { s with sem := some { sem with value := sem.value - 1 } })
        (fun k _ => inOrder.doomed k) item
    by_cases nice : Calm s
    · obtain ⟨woken, asleep, line⟩ := next nice
      have nobody : sem.waiters = [] := by
        refine List.eq_nil_iff_forall_not_mem.mpr fun j member => ?_
        simp only [Semaphore.locked, Bool.or_eq_true, List.any_eq_true, bne_iff_ne, not_or, not_exists,
          not_and, not_not] at locked
        have cancelled := locked.2 j member
        rcases line.waiting member with waits | waits <;> simp [awaits, cancelled] at waits
      have taken := line.take nobody { sem with value := sem.value - 1 } rfl
      have called := taken.call nice.1 item
      rw [enters] at doomed ⊢
      exact .right ⟨_, _, _, _, enterSlot_sem (s := { s with sem := some { sem with value := sem.value - 1 } })
        nice.1 item, called⟩ doomed
    · have failed : s.failed = true := by simpa [Calm, running] using nice
      refine inOrder.wrong nice stepped doomed ?_
      rw [enters, enterSlot_failed (s := { s with sem := some { sem with value := sem.value - 1 } }) failed]

/-- In turn, so it is the first of the deque that leaves it. -/
theorem Line.leaveWaiters (line : Line f s sem k [] woken asleep) (isSem : s.sem = some sem)
    (turn : sem.waiters.find? (fun j => (s.child j).task.woken) = some i) :
    ∃ next rest, (s.leaveWaiters i).sem = some next ∧ Line f (s.leaveWaiters i) next k [i] rest asleep := by
  have front : ∃ rest, woken = i :: rest := by
    rw [line.deque, List.find?_append] at turn
    cases woken with
    | nil =>
        have none : asleep.find? (fun j => (s.child j).task.woken) = none := by
          refine List.find?_eq_none.mpr fun j member => ?_
          have pending := line.queued j member
          simp only [awaits, Bool.and_eq_true, decide_eq_true_eq] at pending
          simp [Task.woken, pending.2]
        simp [none] at turn
    | cons first rest =>
        have done := line.served first List.mem_cons_self
        simp only [awaits, Bool.and_eq_true, decide_eq_true_eq] at done
        have isFirst : first = i := by simpa [Task.woken, done.2] using turn
        exact ⟨rest, by rw [isFirst]⟩
  obtain ⟨rest, rfl⟩ := front
  obtain ⟨others, own⟩ := leaveWaiters_child s i
  have deque : sem.waiters = i :: (rest ++ asleep) := line.deque
  have distinct := line.distinct
  rw [deque, List.nil_append, List.nodup_cons] at distinct
  have before := line.before (j := i) (by simp [deque])
  have left : sem.waiters.erase i = rest ++ asleep := by rw [deque, List.erase_cons_head]
  refine ⟨{ sem with waiters := sem.waiters.erase i }, rest, by simp [State.leaveWaiters, isSem],
    ?_, fun j notHand => ?_, fun j later => ?_, left, fun j member => ?_, fun j member => ?_⟩
  · have order := line.order
    rw [deque] at order
    rw [left]
    exact order
  · rw [others j (by simpa using notHand)]
    exact line.begun j (by simp)
  · rw [others j (by omega)]
    exact line.fresh j later
  · rw [others j fun same => distinct.1 (by simp [← same, member])]
    exact line.served j (List.mem_cons_of_mem _ member)
  · rw [others j fun same => distinct.1 (by simp [← same, member])]
    exact line.queued j member

theorem InOrder.acquired (inOrder : InOrder f s) (inv : Inv f s) (isSem : s.sem = some sem)
    {item : α} (ready : Ready f s i item)
    (calm : (s.child i).task.throws = true → (s.child i).groupCancelled = true)
    (place : (s.child i).pc = .acquiring)
    (turn : (s.child i).task.throws = true ∨
      sem.waiters.find? (fun j => (s.child j).task.woken) = some i) :
    InOrder f (f.acquired s i item) := by
  have stepped := (acquired_stepped ready calm).rest.step
  have throws_iff := inOrder.throws_iff inv ready.alive calm (by simp [place, Pc.inUser])
  obtain ⟨others, own⟩ := leaveWaiters_child s i
  have doomed : ∀ j, j ≠ i → Doomed ((s.leaveWaiters i).child j) := by
    intro j other
    rw [others j other]
    exact inOrder.doomed j
  by_cases throws : (s.child i).task.throws = true
  · refine inOrder.wrong (fun nice => ?_) stepped ?_ ?_
    · simp [Calm, throws_iff.mp throws] at nice
    · rw [acquired_eq, if_pos throws]
      split
      · exact doomed_endTask doomed .cancelled
      · exact doomed_endTask (fun j other => doomed_quiet (quiet_release _) (doomed j other)) .cancelled
    · rw [acquired_eq, if_pos throws]
      split
      · rfl
      · exact congrArg callLog (quiet_release (s.leaveWaiters i)).log
  have running : s.group.aborting = false := by simpa [throws] using throws_iff.not.mp throws
  rw [acquired_eq, if_neg throws] at stepped ⊢
  by_cases nice : Calm s
  · obtain ⟨k, woken, asleep, line⟩ := inOrder.line nice sem isSem
    obtain ⟨next, rest, isNext, line⟩ := line.leaveWaiters isSem (turn.resolve_left throws)
    split
    · obtain ⟨last, woken, asleep, isLast, line⟩ := line.wakeUpNext isNext
      have quiet := quiet_wakeUpNext (s.leaveWaiters i)
      have open_ : (s.leaveWaiters i).wakeUpNext.failed = false := quiet.failed.trans nice.1
      refine .right ⟨last, k, woken, asleep, (enterSlot_sem open_ item).trans isLast,
        line.call open_ item⟩ ?_
      exact doomed_enterSlot (fun j other => doomed_quiet quiet (doomed j other)) item
    · have open_ : (s.leaveWaiters i).failed = false := nice.1
      refine .right ⟨next, k, rest, asleep, (enterSlot_sem open_ item).trans isNext,
        line.call open_ item⟩ ?_
      exact doomed_enterSlot doomed item
  · have failed : s.failed = true := by simpa [Calm, running] using nice
    split at stepped
    · rename_i free
      have quiet := quiet_wakeUpNext (s.leaveWaiters i)
      rw [if_pos free]
      refine inOrder.wrong nice stepped
        (doomed_enterSlot (fun j other => doomed_quiet quiet (doomed j other)) item) ?_
      rw [enterSlot_failed (quiet.failed.trans failed), quiet.log]
      rfl
    · rename_i free
      rw [if_neg free]
      refine inOrder.wrong nice stepped (doomed_enterSlot doomed item) ?_
      rw [enterSlot_failed (s := s.leaveWaiters i) failed]
      rfl

theorem InOrder.finish (inOrder : InOrder f s) (isSem : s.sem = some sem) {item : α}
    {cm : Option Timeout} (inside : (s.child i).pc = .calling cm)
    (out : FnEnd β ε) (clock : κ) : InOrder f (f.finish s i item cm out clock) := by
  unfold Fanout.finish
  dsimp only
  generalize s.callEnd i out (leaveTimeout cm (s.child i).task out) = call
  generalize (leaveTimeout cm (s.child i).task out).2.2 = task
  generalize f.complete i item clock call = completion
  have noCall : ∀ completion, callLog (s.log ++ [.ended i call completion]) = callLog s.log := by
    intro completion
    simp [callLog, Event.called?]
  have others : ∀ j, j ≠ i → (s.toCall.setTask i task).child j = s.child j := by
    intro j other
    rw [Call.setTask_child, if_neg other]
  have own : (s.toCall.setTask i task).child i = { s.child i with task := task } := by
    rw [Call.setTask_child, if_pos rfl]
  have doomed : ∀ (t : State α β σ ε) (ended : TaskEnd (Exc ε)),
      t.child = (s.toCall.setTask i task).child → ∀ j, Doomed ((t.release.endTask i ended).child j) := by
    intro t ended child
    refine doomed_endTask (fun j other => doomed_quiet (quiet_release t) ?_) ended
    rw [child, others j other]
    exact inOrder.doomed j
  cases completion with
  | stored slot =>
      dsimp only
      generalize isNoted : ({ s with
        toCall := (s.toCall.setTask i task).emit (.ended i call (.stored slot))
        results := s.results.set i (some slot) } : State α β σ ε) = noted
      have child : noted.child = (s.toCall.setTask i task).child := by rw [← isNoted]; rfl
      have log : callLog noted.log = callLog s.log := by rw [← isNoted]; exact noCall _
      have kept : noted.sem = s.sem ∧ noted.failed = s.failed ∧ noted.group = s.group := by
        rw [← isNoted]
        exact ⟨rfl, rfl, rfl⟩
      have quiet := quiet_release noted
      have released : callLog (noted.release.endTask i .returned).log = callLog s.log :=
        (congrArg callLog quiet.log).trans log
      by_cases nice : Calm s
      · obtain ⟨k, woken, asleep, line⟩ := inOrder.line nice sem isSem
        have begun : i < k := by
          by_contra later
          have created := (line.begun i (by simp)).mpr (by omega)
          simp [inside] at created
        have moved : Line f noted sem k [] woken asleep := by
          refine line.own log (fun j other => ?_) (line.absent (by simp [inside])) begun ?_
          · rw [child, others j other]
          · rw [child, own]
            simp [inside]
        obtain ⟨next, woken, asleep, isNext, moved⟩ := moved.release (kept.1.trans isSem)
        have place : (noted.release.child i).pc = .calling cm := by
          rw [(quiet.frame i).pc, child, own]
          exact inside
        refine .right ⟨next, k, woken, asleep, isNext, moved.own (i := i) rfl (fun j other => ?_)
          (moved.absent (by simp [place])) begun ?_⟩ (doomed noted .returned child)
        · simp [State.endTask, Call.endTask, Call.setChild, other]
        · simp [State.endTask, Call.endTask, Call.setChild, place]
      · refine ⟨doomed noted .returned child, by rw [released]; exact inOrder.first, fun calm => absurd ?_ nice⟩
        refine ⟨?_, ?_⟩
        · exact (quiet.failed.trans kept.2.1).symm.trans calm.1
        · exact (congrArg TaskGroup.aborting (quiet.group.trans kept.2.2)).symm.trans calm.2
  | failed exc =>
      dsimp only
      generalize isNoted : ({ s with
        toCall := { (s.toCall.setTask i task).emit (.ended i call (.failed exc)) with failed := true }
        } : State α β σ ε) = noted
      have child : noted.child = (s.toCall.setTask i task).child := by rw [← isNoted]; rfl
      have log : callLog noted.log = callLog s.log := by rw [← isNoted]; exact noCall _
      have failed : noted.failed = true := by rw [← isNoted]
      have quiet := quiet_release noted
      refine ⟨doomed noted _ child, ?_, fun calm => ?_⟩
      · have released : callLog (noted.release.endTask i exc.taskEnd).log = callLog s.log :=
          (congrArg callLog quiet.log).trans log
        rw [released]
        exact inOrder.first
      · have latched : (noted.release.endTask i exc.taskEnd).failed = true := quiet.failed.trans failed
        simp [Calm, latched] at calm

theorem InOrder.stays (inOrder : InOrder f s) (sem_ : t.sem = s.sem) (log : callLog t.log = callLog s.log)
    (failed : t.failed = s.failed) (group : t.group = s.group)
    (others : ∀ j, j ≠ i → t.child j = s.child j) (inside : (s.child i).pc.inUser = true)
    (still : (t.child i).pc.inUser = true) : InOrder f t where
  doomed := by
    intro j
    by_cases here : j = i
    · intro _ _ outside
      simp [here, still] at outside
    · rw [others j here]
      exact inOrder.doomed j
  first := by rw [log]; exact inOrder.first
  line := by
    intro calm sem isSem
    have nice : Calm s := by rwa [Calm, failed, group] at calm
    obtain ⟨k, woken, asleep, line⟩ := inOrder.line nice sem (sem_.symm.trans isSem)
    have places : ∀ child : Child Pc (Exc ε), child.pc.inUser = true →
        child.pc ≠ .created ∧ child.pc ≠ .acquiring := by
      intro child here
      constructor <;> intro place <;> simp [place, Pc.inUser] at here
    have begun : i < k := by
      by_contra later
      exact (places _ inside).1 ((line.begun i (by simp)).mpr (by omega))
    exact ⟨k, woken, asleep,
      line.own log others (line.absent (places _ inside).2) begun (places _ still).1⟩

theorem InOrder.loop {call : Call Pc α β σ ε} {a : Call.LoopAct} (inOrder : InOrder f s)
    (moved : s.toCall.loopStep a = some call) : InOrder f { s with toCall := call } := by
  obtain ⟨log, failed, _, _, _⟩ := Call.loopStep_same moved
  refine ⟨fun j => ?_, by rw [log]; exact inOrder.first, fun calm sem isSem => ?_⟩
  · show Doomed (call.child j)
    rcases Call.loopStep_child moved j with same | cancelled
    · rw [same]
      exact inOrder.doomed j
    · rw [cancelled]
      intro flag alive _
      have open_ : (s.child j).ended = none := (Child.cancel_ended _).symm.trans alive
      simp [Child.cancel, open_]
  · obtain ⟨child, before⟩ := Call.loopStep_calm moved calm.2
    obtain ⟨k, woken, asleep, line⟩ := inOrder.line ⟨failed.symm.trans calm.1, before⟩ sem isSem
    exact ⟨k, woken, asleep, line.congr (congrArg callLog log) child rfl⟩

theorem InOrder.step {a : Act β κ ε} (inv : Inv f s) (isSem : s.sem = some sem)
    (inOrder : InOrder f s) (stepped : f.stepInTurn s a = some t) : InOrder f t := by
  obtain ⟨turn, stepped⟩ := stepInTurn_eq stepped
  cases a with
  | loop act =>
      simp only [Fanout.step, Option.map_eq_some_iff] at stepped
      obtain ⟨call, moved, rfl⟩ := stepped
      exact inOrder.loop moved
  | user act =>
      simp only [Fanout.step] at stepped
      split at stepped
      · simp only [Option.map_eq_some_iff] at stepped
        obtain ⟨call, moved, rfl⟩ := stepped
        obtain ⟨log, failed, group, _, ⟨task, child⟩, ⟨inside, _⟩, _, _⟩ := Call.userStep_same moved
        refine inOrder.stays (i := act.task) rfl (congrArg callLog log) failed group (fun j other => ?_) inside ?_
        · show call.child j = s.child j
          rw [child, Call.setTask_child, if_neg other]
        · show (call.child act.task).pc.inUser = true
          rw [child, Call.setTask_child, if_pos rfl]
          exact inside
      · simp at stepped
  | run i =>
      simp only [Fanout.step, Option.isNone_iff_eq_none] at stepped
      split at stepped
      · rename_i enabled
        obtain ⟨_, idle, alive⟩ := enabled
        split at stepped
        · rename_i item found place
          simp only [Option.some.injEq] at stepped
          obtain ⟨ready, calm⟩ := inv.ready idle alive found (by simp [place, Pc.inUser])
          refine stepped ▸ inOrder.firstStep inv isSem ready calm place fun j earlier => ?_
          simp only [inTurn, place, List.all_eq_true, List.mem_range, Bool.or_eq_true, bne_iff_ne,
            Option.isSome_iff_ne_none] at turn
          exact turn j earlier
        · rename_i item found place
          split at stepped <;> simp only [Option.some.injEq, reduceCtorEq] at stepped
          obtain ⟨ready, calm⟩ := inv.ready idle alive found (by simp [place, Pc.inUser])
          refine stepped ▸ inOrder.acquired inv isSem ready calm place ?_
          simpa [inTurn, place, isSem] using turn
        · simp at stepped
      · simp at stepped
  | deadline i =>
      simp only [Fanout.step] at stepped
      split at stepped
      · rename_i cm inside
        split at stepped <;> simp only [Option.some.injEq, reduceCtorEq] at stepped
        subst stepped
        refine inOrder.stays (i := i) rfl ?_ rfl rfl (fun j other => ?_) (by simp [inside, Pc.inUser]) ?_
        · simp [callLog, Call.emit, Call.setChild, Event.called?]
        · simp [Call.setChild, Call.emit, other]
        · simp [Call.setChild, Call.emit, Pc.inUser]
      · simp at stepped
  | finish i out clock =>
      simp only [Fanout.step] at stepped
      split at stepped
      · rename_i item cm found inside
        split at stepped <;> simp only [Option.some.injEq, reduceCtorEq] at stepped
        exact stepped ▸ inOrder.finish isSem inside _ clock
      · simp at stepped

theorem InOrder.init (f : Fanout α β κ σ ε) (caller : Caller) : InOrder f (f.init caller) := by
  have fresh : ∀ j, (f.init caller).child j = { pc := .created } := by
    intro j
    simp only [Fanout.init]
    split <;> rfl
  have log : (f.init caller).log = [] := by
    simp only [Fanout.init]
    split <;> rfl
  refine ⟨fun j => by simp [Doomed, fresh], ⟨0, by simp [log, callLog]⟩, fun _ sem isSem => ?_⟩
  have waiters : sem.waiters = [] := by
    simp only [Fanout.init, Option.map_eq_some_iff] at isSem
    obtain ⟨_, _, rfl⟩ := isSem
    rfl
  exact ⟨0, [], [], by simp [log, callLog, waiters], by simp [fresh], by simp [fresh], by simp [waiters],
    by simp, by simp⟩

theorem inOrder_of_reaches {caller : Caller} (strict : f.Strict) (concurrency : f.concurrency = some slots)
    (reached : Runs.Reaches f.stepInTurn (f.init caller) s) : InOrder f s := by
  have kept : Inv f s ∧ f.SlotsKept s ∧ InOrder f s := by
    refine reached.invariant (p := fun s => Inv f s ∧ f.SlotsKept s ∧ InOrder f s) ?_
      ⟨Inv.init f caller, SlotsKept.init f caller, InOrder.init f caller⟩
    rintro s a t ⟨inv, slotted, inOrder⟩ stepped
    obtain ⟨sem, own, _⟩ := slotted slots concurrency
    have plain := (stepInTurn_eq stepped).2
    exact ⟨inv.step strict plain, slotted.step inv plain, inOrder.step inv own.isSem stepped⟩
  exact kept.2.2

theorem Inv.called (inv : Inv f s) {item : α} (called : .called i item ∈ s.log) :
    f.items[i]? = some item := by
  have own : .called i item ∈ history i s.log := mem_history.mpr ⟨called, rfl⟩
  have opens : ∀ other expired, (.called i item : Event α β σ ε) ∈ opening i other expired →
      item = other := by
    intro other expired member
    cases expired <;> simpa [opening] using member
  cases inv.item i with
  | absent _ untouched => simp [untouched] at own
  | waiting _ _ _ _ _ untouched _ => simp [untouched] at own
  | skipped _ _ _ untouched _ _ => simp [untouched] at own
  | dropped _ _ _ untouched _ _ => simp [untouched] at own
  | calling other _ found _ _ _ _ record _ => exact opens other _ (record ▸ own) ▸ found
  | stored other _ _ _ found _ record _ _ _ _ =>
      exact opens other _ (by simpa [record] using own) ▸ found
  | failed other _ _ _ found _ record _ _ _ _ _ =>
      exact opens other _ (by simpa [record] using own) ▸ found

/-- The items that have been called are the first of the list. -/
theorem InOrder.starts (inOrder : InOrder f s) (inv : Inv f s) : StartsInOrder f.items s.log := by
  obtain ⟨m, first⟩ := inOrder.first
  have count : (callLog s.log).length = m := by
    have same := congrArg List.length first
    simpa using same
  refine ⟨by rw [first, count], List.prefix_iff_getElem?.mpr fun j bound => ?_⟩
  rw [List.length_map] at bound
  have index : ((callLog s.log)[j]).1 = j := by
    have same : ((callLog s.log).map Prod.fst)[j]? = (List.range m)[j]? := by rw [first]
    simpa [bound, ← count] using same
  obtain ⟨event, member, isCall⟩ := List.mem_filterMap.mp (List.getElem_mem bound)
  rw [List.getElem_map]
  cases event <;> simp only [Event.called?, Option.some.injEq, reduceCtorEq] at isCall
  rw [← isCall] at index ⊢
  exact index ▸ inv.called member

theorem inFlight_le {caller : Caller} (strict : f.Strict) (concurrency : f.concurrency = some slots)
    (reached : Runs.Reaches f.step (f.init caller) s) : {i | InFlight s.log i}.encard ≤ slots := by
  obtain ⟨sem, slotted, _⟩ := slots_of_reaches strict reached slots concurrency
  exact slotted.inFlight (inv_of_reaches strict reached)

theorem starts_in_order {caller : Caller} (strict : f.Strict) (concurrency : f.concurrency = some slots)
    (reached : Runs.Reaches f.stepInTurn (f.init caller) s) : StartsInOrder f.items s.log :=
  (inOrder_of_reaches strict concurrency reached).starts (inv_of_reaches strict (reaches_of_inTurn reached))

end Fanout

end AsyncPipelines
