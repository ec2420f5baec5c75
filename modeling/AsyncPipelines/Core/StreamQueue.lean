import AsyncPipelines.Core.StreamInv
import AsyncPipelines.Lib.Count

/-!
No wake-up of the queue is lost: while a consumer waits, every entry has a consumer
that is on its way to it, and while the producer waits, the queue is full.
-/

namespace AsyncPipelines

open Asyncio

variable {α β ε : Type}

namespace Stream

def hungry (child : Child (Pc α) (Exc ε)) : Bool :=
  child.ended.isNone && match child.pc with
    | .taking => true
    | .getting => child.task.waiter == some .done
    | _ => false

def Waits (gets : Pc α → Bool) (child : Child (Pc α) (Exc ε)) : Prop :=
  child.ended = none ∧ gets child.pc = true ∧ child.task.waiter = some .pending

def onTheirWay (c : Stream) (s : State α β ε) : Nat :=
  Nat.count (fun j => hungry (s.child j) = true) (c.concurrency + 1)

def Fed (c : Stream) (more less : Nat) (s : State α β ε) : Prop :=
  ∀ k, Waits Pc.gets (s.child k) → s.queue.length + more ≤ c.onTheirWay s + less

def Room (c : Stream) (s : State α β ε) : Prop :=
  ∀ k, Waits Pc.puts (s.child k) → c.queueSize ≤ s.queue.length

variable {c : Stream} {s t : State α β ε}

theorem Inv.bounded (inv : Inv c s) {i : Nat} (begun : (s.child i).pc ≠ .created) :
    i ≤ c.concurrency := by
  by_contra beyond
  have later : s.started < i := by
    have limit := inv.limit
    omega
  simp [inv.fresh i later] at begun

theorem hungry_begun {d : Child (Pc α) (Exc ε)} (isHungry : hungry d = true) :
    d.pc ≠ .created := by
  rintro created
  simp [hungry, created] at isHungry

theorem hungry_cancel (child : Child (Pc α) (Exc ε)) : hungry child.cancel = hungry child := by
  unfold Child.cancel
  split
  · rfl
  · cases pc : child.pc <;> simp only [hungry, pc]
    rw [Task.cancel_waiter]
    split
    · rename_i pending
      simp [pending]
      rfl
    · rfl

theorem waits_cancel {gets : Pc α → Bool} {d : Child (Pc α) (Exc ε)}
    (waiting : Waits gets d.cancel) : Waits gets d := by
  unfold Child.cancel at waiting
  split at waiting
  · exact waiting
  · obtain ⟨alive, place, waiter⟩ := waiting
    rw [Task.cancel_waiter] at waiter
    split at waiter
    · simp at waiter
    · exact ⟨alive, place, waiter⟩

theorem hungry_late {d : Child (Pc α) (Exc ε)} (act : Call.LateAct) (isHungry : hungry d = true) :
    hungry { d with task := act.after d.task } = true := by
  rcases act.after_waiter d.task with same | ⟨pending, _⟩
  · simpa only [hungry, same] using isHungry
  · cases pc : d.pc <;> simp_all [hungry]

theorem waits_late {gets : Pc α → Bool} {d : Child (Pc α) (Exc ε)} (act : Call.LateAct)
    (waiting : Waits gets { d with task := act.after d.task }) : Waits gets d := by
  obtain ⟨alive, place, waiter⟩ := waiting
  rcases act.after_waiter d.task with same | ⟨pending, _⟩
  · exact ⟨alive, place, same.symm.trans waiter⟩
  · exact ⟨alive, place, pending⟩

namespace Fed

variable {more less : Nat}

theorem of_kept (fed : Fed c more less s)
    (kept : ∀ j, hungry (s.child j) = true → hungry (t.child j) = true)
    (waits : ∀ k, Waits Pc.gets (t.child k) → Waits Pc.gets (s.child k))
    (queue : t.queue.length ≤ s.queue.length) : Fed c more less t := by
  intro k waiting
  have before := fed k (waits k waiting)
  have counted : c.onTheirWay s ≤ c.onTheirWay t := Nat.count_mono_left fun j _ => kept j
  omega

theorem drop (fed : Fed c (more + 1) less s) {i : Nat} (bound : i ≤ c.concurrency)
    (others : ∀ j, j ≠ i → t.child j = s.child j) (gone : ¬ Waits Pc.gets (t.child i))
    (queue : t.queue.length ≤ s.queue.length) : Fed c more less t := by
  intro k waiting
  have other : k ≠ i := by
    rintro rfl
    exact gone waiting
  have before := fed k (others k other ▸ waiting)
  have counted := Count.count_change (p := fun j => hungry (s.child j) = true)
    (q := fun j => hungry (t.child j) = true) (n := c.concurrency + 1) (i := i) (by omega)
    fun j differs => by rw [others j differs]
  have limits : c.onTheirWay s ≤ c.onTheirWay t + 1 := by
    unfold onTheirWay
    split at counted <;> split at counted <;> omega
  omega

theorem own (fed : Fed c more less s) {i : Nat} (others : ∀ j, j ≠ i → t.child j = s.child j)
    (still : hungry (s.child i) = true → hungry (t.child i) = true)
    (gone : ¬ Waits Pc.gets (t.child i)) (queue : t.queue.length ≤ s.queue.length) :
    Fed c more less t := by
  refine fed.of_kept (fun j isHungry => ?_) (fun k waiting => ?_) queue
  · by_cases here : j = i
    · subst here
      exact still isHungry
    · rw [others j here]
      exact isHungry
  · by_cases here : k = i
    · subst here
      exact absurd waiting gone
    · exact others k here ▸ waiting

theorem wakeGetter (placement : Placement s)
    (bounded : ∀ i, (s.child i).pc ≠ .created → i ≤ c.concurrency)
    (fed : Fed c more (less + 1) s) : Fed c more less s.wakeGetter := by
  intro k waiting
  obtain ⟨woken, _, nobody⟩ := wakeupNext_spec (fun j => (s.child j).task) s.getters
  have child : ∀ j, s.wakeGetter.child j = if (wakeupNext (fun j => (s.child j).task) s.getters).2 = some j
      then { s.child j with task := (s.child j).task.fulfil } else s.child j :=
    Call.fulfil_child _ _
  have waited : Waits Pc.gets (s.child k) := by
    rw [child] at waiting
    split at waiting
    · simp [Waits] at waiting
    · exact waiting
  have listed := (placement.each k).getter waited.1 waited.2.1 waited.2.2
  cases next : (wakeupNext (fun j => (s.child j).task) s.getters).2 with
  | none => exact absurd waited.2.2 (nobody next k listed)
  | some i =>
      obtain ⟨pending, member⟩ := woken i next
      have own := ((placement.each i).inDeque member).1
      have alive : (s.child i).ended = none := (placement.each i).listed (Or.inl member)
      have place : (s.child i).pc = .getting := by
        cases pc : (s.child i).pc <;> simp_all [Pc.gets]
      have counted := Count.count_change (p := fun j => hungry (s.child j) = true)
        (q := fun j => hungry (s.wakeGetter.child j) = true) (n := c.concurrency + 1) (i := i)
        (Nat.lt_succ_of_le (bounded i (by simp [place]))) fun j differs => by
          rw [child, next, if_neg]
          simpa using Ne.symm differs
      have before := fed k waited
      have asleep : hungry (s.child i) = false := by simp [hungry, place, pending]
      have awake : hungry (s.wakeGetter.child i) = true := by
        rw [child, next, if_pos rfl]
        simp [hungry, place, alive]
      simp only [asleep, awake, Bool.false_eq_true, ↓reduceIte] at counted
      have same : s.wakeGetter.queue = s.queue := rfl
      rw [same]
      unfold onTheirWay at before ⊢
      omega

theorem wakePutter (placement : Placement s) (fed : Fed c more less s) :
    Fed c more less s.wakePutter := by
  obtain ⟨woken, _, _⟩ := wakeupNext_spec (fun j => (s.child j).task) s.putters
  have child : ∀ j, s.wakePutter.child j = s.child j ∨
      (s.child j).pc.puts = true ∧ (s.wakePutter.child j).pc = (s.child j).pc := by
    intro j
    have after : s.wakePutter.child j = _ := Call.fulfil_child _ _ j
    rw [after]
    split
    · rename_i isWoken
      exact Or.inr ⟨((placement.each j).inDeque' (woken j isWoken).2).1, rfl⟩
    · exact Or.inl rfl
  refine fed.of_kept (fun j isHungry => ?_) (fun k waiting => ?_) (le_refl s.queue.length)
  · rcases child j with same | ⟨puts, _⟩
    · rw [same]
      exact isHungry
    · cases pc : (s.child j).pc <;> simp_all [hungry, Pc.puts]
  · rcases child k with same | ⟨puts, same⟩
    · exact same ▸ waiting
    · have gets := waiting.2.1
      rw [same] at gets
      cases pc : (s.child k).pc <;> simp_all [Pc.gets, Pc.puts]

theorem leavePut (placement : Placement s) {i : Nat} (notPending : (s.child i).task.waiter ≠ some .pending)
    (fed : Fed c more less s) : Fed c more less (s.leavePut c i) := by
  have erased : Fed c more less { s with putters := s.putters.erase i } := fed
  unfold State.leavePut
  dsimp only
  split
  · exact erased.wakePutter (placement.erasePutter notPending)
  · exact erased

end Fed

theorem endTask_child (s : State α β ε) (i : Nat) (ended : TaskEnd (Exc ε)) :
    (∀ j, j ≠ i → (s.endTask i ended).child j = s.child j) ∧
      ((s.endTask i ended).child i).ended ≠ none := by
  refine ⟨fun j other => ?_, ?_⟩
  · simp [State.endTask, Call.endTask, Call.setChild, other]
  · simp [State.endTask, Call.endTask_ended]

theorem setChild_child (s : State α β ε) (i : Nat) (child : Child (Pc α) (Exc ε)) :
    (∀ j, j ≠ i → (s.setChild i child).child j = s.child j) ∧ (s.setChild i child).child i = child := by
  refine ⟨fun j other => ?_, ?_⟩
  · simp [State.setChild, Call.setChild, other]
  · simp [State.setChild, Call.setChild]

namespace Fed

variable {more less : Nat}

theorem endTask (fed : Fed c more less s) {i : Nat} {ended : TaskEnd (Exc ε)}
    (idle : hungry (s.child i) = false) : Fed c more less (s.endTask i ended) := by
  obtain ⟨others, halted⟩ := endTask_child s i ended
  exact fed.own others (by simp [idle]) (fun waiting => halted waiting.1) (le_refl s.queue.length)

theorem endHungry (fed : Fed c (more + 1) less s) {i : Nat} {ended : TaskEnd (Exc ε)}
    (bound : i ≤ c.concurrency) : Fed c more less (s.endTask i ended) := by
  obtain ⟨others, halted⟩ := endTask_child s i ended
  exact fed.drop bound others (fun waiting => halted waiting.1) (le_refl s.queue.length)

theorem setChild (fed : Fed c more less s) {i : Nat} {d : Child (Pc α) (Exc ε)}
    (still : hungry (s.child i) = true → hungry d = true) (gone : d.pc.gets = false) :
    Fed c more less (s.setChild i d) := by
  obtain ⟨others, own⟩ := setChild_child s i d
  refine fed.own others (by rw [own]; exact still) (fun waiting => ?_) (le_refl s.queue.length)
  have gets := waiting.2.1
  simp [own, gone] at gets

theorem put (inv : Inv c s) (fed : Fed c 0 0 s) (entry : Option α) :
    Fed c 0 0 (s.putNowait entry) := by
  have longer : Fed c 0 1 { s with queue := s.queue ++ [entry] } := by
    intro k waiting
    have before := fed k waiting
    simp only [List.length_append, List.length_cons, List.length_nil]
    exact Nat.add_le_add_right before 1
  have placed : Placement { s with queue := s.queue ++ [entry] } :=
    inv.placement.congr rfl rfl rfl rfl
  exact longer.wakeGetter placed fun _ begun => inv.bounded begun

theorem pop (placement : Placement s) (fed : Fed c 0 0 s) {entry : Option α}
    {rest : List (Option α)} (front : s.queue = entry :: rest) :
    Fed c 1 0 { s with queue := rest }.wakePutter := by
  have shorter : Fed c 1 0 { s with queue := rest } := by
    intro k waiting
    have before := fed k waiting
    rw [front] at before
    exact before
  have placed : Placement { s with queue := rest } := placement.congr rfl rfl rfl rfl
  exact shorter.wakePutter placed

/-- A consumer that was woken and cancelled passes the wake-up on. -/
theorem deny (inv : Inv c s) (fed : Fed c 0 0 s) {i : Nat} {ended : TaskEnd (Exc ε)}
    (place : (s.child i).pc = .getting) (notPending : (s.child i).task.waiter ≠ some .pending) :
    Fed c 0 0 ((s.leaveGet i).endTask i ended) := by
  have bound : i ≤ c.concurrency := inv.bounded (by simp [place])
  unfold State.leaveGet
  dsimp only
  split
  · have spare : Fed c 1 1 { s with getters := s.getters.erase i } := by
      intro k waiting
      exact Nat.add_le_add_right (fed k waiting) 1
    exact (spare.wakeGetter (inv.placement.eraseGetter notPending) fun _ begun =>
      inv.bounded begun).endHungry bound
  · rename_i idle
    obtain ⟨others, isOver⟩ := endTask_child { s with getters := s.getters.erase i } i ended
    by_cases empty : s.queue = []
    · intro k waiting
      simp [State.endTask, empty]
    · have cancelled : (s.child i).task.waiter = some .cancelled := by
        simpa [empty] using idle
      have erased : Fed c 0 0 { s with getters := s.getters.erase i } := fed
      exact erased.endTask (by simp [hungry, place, cancelled])

theorem failSource (fed : Fed c more less s) {caught : Exc ε} (idle : hungry (s.child 0) = false) :
    Fed c more less (s.failSource caught) := by
  have noted : Fed c more less { s.emit (.sourceFailed caught s.stopping (s.child 0).groupCancelled
      (strayCancellationAsError caught s.stopping none (some "the producer"))) with failed := true } :=
    fed
  exact noted.endTask idle

theorem leave (fed : Fed c more less s) {i index : Nat} {item : α} {cm : Option Timeout} (task : Task)
    (place : (s.child i).pc = .calling index item cm) :
    Fed c more less (s.setChild i { s.child i with task := task }) ∧
      hungry ((s.setChild i { s.child i with task := task }).child i) = false := by
  refine ⟨fed.setChild (by simp [hungry, place]) (by simp [place, Pc.gets]), ?_⟩
  rw [(setChild_child s i _).2]
  simp [hungry, place]

theorem moves (inv : Inv c s) (fed : Fed c 0 0 s) (moved : Moves c s t) : Fed c 0 0 t := by
  cases moved with
  | loop act call calm moved =>
      refine fed.of_kept (fun j isHungry => ?_) (fun k waiting => ?_) (le_refl s.queue.length)
      · rcases Call.loopStep_child moved j with same | cancelled
        · exact same ▸ isHungry
        · rw [cancelled, hungry_cancel]
          exact isHungry
      · rcases Call.loopStep_child moved k with same | cancelled
        · exact same ▸ waiting
        · exact waits_cancel (cancelled ▸ waiting)
  | user act call moved =>
      obtain ⟨_, _, _, _, ⟨task, child⟩, ⟨inside, _⟩, _, _⟩ := Call.userStep_same moved
      have same : (call.child act.task).pc = (s.child act.task).pc := by
        rw [child, Call.setTask_child, if_pos rfl]
      refine fed.own (i := act.task) ?_ ?_ ?_ (le_refl s.queue.length)
      · intro j other
        show call.child j = s.child j
        rw [child, Call.setTask_child, if_neg other]
      · cases pc : (s.child act.task).pc <;> simp_all [hungry, Pc.inUser]
      · intro waiting
        have gets := waiting.2.1
        cases pc : (s.child act.task).pc <;> simp_all [Pc.gets, Pc.inUser]
  | late act at_ begun =>
      obtain ⟨others, own⟩ := setChild_child s act.task { s.child act.task with
        task := act.after (s.child act.task).task }
      refine fed.of_kept (fun j isHungry => ?_) (fun k waiting => ?_) (le_refl s.queue.length)
      · by_cases here : j = act.task
        · subst here
          rw [own]
          exact hungry_late act isHungry
        · rw [others j here]
          exact isHungry
      · by_cases here : k = act.task
        · subst here
          exact waits_late act (own ▸ waiting)
        · exact others k here ▸ waiting
  | dropped i at_ place throws => exact fed.endTask (by simp [hungry, place])
  | started i at_ place calm =>
      refine fed.setChild (by simp [hungry, place]) ?_
      split <;> rfl
  | putDenied i item at_ place throws notPending =>
      obtain rfl : i = 0 := (inv.placement.each i).produces (by simp [place, Pc.produces])
      have left := fed.leavePut inv.placement notPending
      have same := (leavePut_kept s c 0 notPending).2.2.2.2.1
      exact left.failSource (by simp [hungry, same, place])
  | putWoken i item at_ place done calm => exact fed.setChild (by simp [hungry, place]) rfl
  | sentinelDenied i left at_ place throws notPending =>
      have left := fed.leavePut inv.placement notPending
      have same := (leavePut_kept s c i notPending).2.2.2.2.1
      exact left.endTask (by simp [hungry, same, place])
  | sentinelWoken i left at_ place done calm => exact fed.setChild (by simp [hungry, place]) rfl
  | getDenied i at_ place throws notPending => exact fed.deny inv place notPending
  | getWoken i at_ place done calm =>
      have alive := (member_of_live at_.alive).2
      exact fed.setChild (by simp [hungry, alive]) rfl
  | putWaits i item at_ place full => exact fed.setChild (by simp [hungry, place]) rfl
  | put i item at_ place room metrics =>
      have given := fed.put inv (some item)
      obtain ⟨notListed, _⟩ := inv.atWork at_ (by simp [place, Pc.atWork])
      have same := (inv.putNowait (some item) at_ notListed).2.2.2
      have counted : Fed c 0 0 { s.putNowait (some item) with metrics := metrics } := given
      exact counted.setChild (by simp [hungry, same, place]) rfl
  | produced i at_ place => exact fed.endTask (by simp [hungry, place])
  | sentinelWaits i left at_ place full => exact fed.setChild (by simp [hungry, place]) rfl
  | sentinelPut i left at_ place room =>
      have given := fed.put inv none
      obtain ⟨notListed, _⟩ := inv.atWork at_ (by simp [place, Pc.atWork])
      have same := (inv.putNowait none at_ notListed).2.2.2
      exact given.setChild (by simp [hungry, same, place]) rfl
  | stopped i at_ place stopping => exact fed.endTask (by simp [hungry, place])
  | looped i at_ place running => exact fed.setChild (by simp [hungry, place]) rfl
  | getWaits i at_ place empty =>
      intro k _
      simp [State.park, State.setChild, empty]
  | gotSentinel i rest at_ place entry =>
      have taken : Fed c 1 0 ({ s with queue := rest }.wakePutter.emit (.sentinel i)) :=
        fed.pop inv.placement entry
      exact taken.endHungry (inv.bounded (i := i) (by simp [place]))
  | discarded i item rest at_ place entry failed =>
      have taken := fed.pop inv.placement entry
      exact taken.endHungry (inv.bounded (i := i) (by simp [place]))
  | called i item rest at_ place entry open_ cm timed entered =>
      have taken := fed.pop inv.placement entry
      obtain ⟨others, own⟩ := setChild_child { s with queue := rest }.wakePutter i
        { { s with queue := rest }.wakePutter.child i with
          pc := .calling s.consumedIndex item cm }
      refine taken.drop (inv.bounded (i := i) (by simp [place])) others (fun waiting => ?_) (le_refl _)
      have gets := waiting.2.1
      simp [Call.beginCall, Call.emit, Call.setChild, Pc.gets] at gets
  | deadline i index item cm at_ place entered =>
      exact fed.setChild (d := { s.child i with
        pc := .calling index item (some cm.fire), task := (s.child i).task.cancel })
        (by simp [hungry, place]) rfl
  | yieldedLate item at_ place stopping =>
      have noted : Fed c 0 0 (s.emit (.pulled item)) := fed
      exact noted.failSource (by simp [hungry, place, State.emit, Call.emit])
  | yielded item at_ place running metrics =>
      have noted : Fed c 0 0 { (s.emit (.pulled item)).spawn c with metrics := metrics } := by
        unfold State.spawn
        split <;> exact fed
      have same : ((s.emit (.pulled item)).spawn c).child 0 = s.child 0 := (spawn_kept c _).2.1 0
      have idle : hungry (((s.emit (.pulled item)).spawn c).child 0) = false := by
        simp [hungry, same, place]
      exact noted.setChild (fun isHungry => absurd isHungry (by simp [idle])) rfl
  | ended at_ place running => exact fed.setChild (by simp [hungry, place]) rfl
  | sourceFailed caught at_ place => exact fed.failSource (by simp [hungry, place])
  | finished i index item cm out slot at_ place stored metrics =>
      obtain ⟨left, idle⟩ := fed.leave (leaveTimeout cm (s.child i).task out).2.2 place
      have noted : Fed c 0 0 { (s.setChild i { s.child i with
          task := (leaveTimeout cm (s.child i).task out).2.2 }).emit
            (.ended index (s.callEnd i out (leaveTimeout cm (s.child i).task out)) (.stored slot)) with
          results := s.results ++ [slot], metrics := metrics } := left
      exact noted.setChild (fun isHungry => absurd (isHungry.symm.trans idle) (by simp)) rfl
  | failed i index item cm out exc at_ place fails =>
      obtain ⟨left, idle⟩ := fed.leave (leaveTimeout cm (s.child i).task out).2.2 place
      have noted : Fed c 0 0 { (s.setChild i { s.child i with
          task := (leaveTimeout cm (s.child i).task out).2.2 }).emit
            (.ended index (s.callEnd i out (leaveTimeout cm (s.child i).task out)) (.failed exc)) with
          failed := true } := left
      exact noted.endTask idle

end Fed

theorem fed_of_reaches {caller : Caller} (reached : Runs.Reaches c.step (init caller) s) :
    Fed c 0 0 s := by
  have both : Inv c s ∧ Fed c 0 0 s := by
    refine reached.invariant (p := fun s => Inv c s ∧ Fed c 0 0 s) ?_ ⟨Inv.init c caller, ?_⟩
    · rintro s a t ⟨inv, fed⟩ stepped
      exact ⟨inv.step stepped, fed.moves inv (step_moves stepped)⟩
    · intro k waiting
      simp [Waits, init, Call.enter, Pc.gets] at waiting
  exact both.2

namespace Room

theorem of_kept (room : Room c s)
    (waits : ∀ k, Waits Pc.puts (t.child k) → Waits Pc.puts (s.child k))
    (queue : s.queue.length ≤ t.queue.length) : Room c t :=
  fun k waiting => (room k (waits k waiting)).trans queue

theorem own (room : Room c s) {i : Nat} (others : ∀ j, j ≠ i → t.child j = s.child j)
    (gone : ¬ Waits Pc.puts (t.child i)) (queue : s.queue.length ≤ t.queue.length) : Room c t := by
  refine room.of_kept (fun k waiting => ?_) queue
  by_cases here : k = i
  · subst here
    exact absurd waiting gone
  · exact others k here ▸ waiting

theorem endTask (room : Room c s) {i : Nat} {ended : TaskEnd (Exc ε)} : Room c (s.endTask i ended) := by
  obtain ⟨others, halted⟩ := endTask_child s i ended
  exact room.own others (fun waiting => halted waiting.1) (le_refl s.queue.length)

theorem setChild (room : Room c s) {i : Nat} {d : Child (Pc α) (Exc ε)}
    (gone : d.pc.puts = false) : Room c (s.setChild i d) := by
  obtain ⟨others, own⟩ := setChild_child s i d
  refine room.own others (fun waiting => ?_) (le_refl s.queue.length)
  have puts := waiting.2.1
  simp [own, gone] at puts

theorem fulfil (room : Room c s) {woken : Option Nat} (call : t.toCall = s.toCall.fulfil woken)
    (queue : s.queue.length ≤ t.queue.length) : Room c t := by
  refine room.of_kept (fun k waiting => ?_) queue
  rw [call, Call.fulfil_child] at waiting
  split at waiting
  · simp [Waits] at waiting
  · exact waiting

theorem pop (placement : Placement s) (rest : List (Option α)) :
    Room c { s with queue := rest }.wakePutter := by
  intro k waiting
  have child : { s with queue := rest }.wakePutter.child k = _ := Call.fulfil_child _ _ k
  obtain ⟨woken, waiters, nobody⟩ := wakeupNext_spec (fun j => (s.child j).task) s.putters
  rw [child] at waiting
  split at waiting
  · simp [Waits] at waiting
  · rename_i asleep
    have listed := (placement.each k).putter waiting.1 waiting.2.1 waiting.2.2
    have isProducer : ∀ j, j ∈ s.putters → j = 0 := by
      intro j member
      have puts := ((placement.each j).inDeque' member).1
      exact (placement.each j).produces (by cases pc : (s.child j).pc <;> simp_all [Pc.puts, Pc.produces])
    cases next : (wakeupNext (fun j => (s.child j).task) s.putters).2 with
    | none => exact absurd waiting.2.2 (nobody next k listed)
    | some i =>
        have same : i = k := (isProducer i (woken i next).2).trans (isProducer k listed).symm
        exact absurd (same ▸ next) asleep

theorem leavePut (room : Room c s) (i : Nat) : Room c (s.leavePut c i) := by
  unfold State.leavePut
  dsimp only
  split
  · exact room.fulfil (t := State.wakePutter _) rfl (le_refl s.queue.length)
  · exact room

theorem leaveGet (room : Room c s) (i : Nat) : Room c (s.leaveGet i) := by
  unfold State.leaveGet
  dsimp only
  split
  · exact room.fulfil (t := State.wakeGetter _) rfl (le_refl s.queue.length)
  · exact room

theorem put (room : Room c s) (entry : Option α) : Room c (s.putNowait entry) :=
  room.fulfil rfl (by simp [State.putNowait, State.wakeGetter])

theorem park {i : Nat} {pc : Pc α} (full : s.full c = true) :
    Room c { s.park i pc with putters := s.putters ++ [i] } := by
  intro _ _
  show c.queueSize ≤ s.queue.length
  simpa [State.full] using full

theorem failSource (room : Room c s) {caught : Exc ε} : Room c (s.failSource caught) := by
  have noted : Room c { s.emit (.sourceFailed caught s.stopping (s.child 0).groupCancelled
      (strayCancellationAsError caught s.stopping none (some "the producer"))) with failed := true } :=
    room
  exact noted.endTask

theorem moves (inv : Inv c s) (room : Room c s) (moved : Moves c s t) : Room c t := by
  cases moved with
  | loop act call calm moved =>
      refine room.of_kept (fun k waiting => ?_) (le_refl s.queue.length)
      rcases Call.loopStep_child moved k with same | cancelled
      · exact same ▸ waiting
      · exact waits_cancel (cancelled ▸ waiting)
  | user act call moved =>
      obtain ⟨_, _, _, _, ⟨task, child⟩, ⟨inside, _⟩, _, _⟩ := Call.userStep_same moved
      have same : (call.child act.task).pc = (s.child act.task).pc := by
        rw [child, Call.setTask_child, if_pos rfl]
      refine room.own (i := act.task) ?_ ?_ (le_refl s.queue.length)
      · intro j other
        show call.child j = s.child j
        rw [child, Call.setTask_child, if_neg other]
      · intro waiting
        have puts := waiting.2.1
        cases pc : (s.child act.task).pc <;> simp_all [Pc.puts, Pc.inUser]
  | late act at_ begun =>
      obtain ⟨others, own⟩ := setChild_child s act.task { s.child act.task with
        task := act.after (s.child act.task).task }
      refine room.of_kept (fun k waiting => ?_) (le_refl s.queue.length)
      by_cases here : k = act.task
      · subst here
        exact waits_late act (own ▸ waiting)
      · exact others k here ▸ waiting
  | dropped | produced | stopped => exact room.endTask
  | started i at_ place calm =>
      refine room.setChild ?_
      split <;> rfl
  | putDenied i item at_ place throws notPending => exact (room.leavePut i).failSource
  | sentinelDenied i left at_ place throws notPending => exact (room.leavePut i).endTask
  | getDenied i at_ place throws notPending => exact (room.leaveGet i).endTask
  | putWoken | sentinelWoken | getWoken | looped | ended => exact room.setChild rfl
  | putWaits i item at_ place full => exact park full
  | sentinelWaits i left at_ place full => exact park full
  | put i item at_ place _ metrics =>
      have given : Room c { s.putNowait (some item) with metrics := metrics } := room.put (some item)
      exact given.setChild rfl
  | sentinelPut i left at_ place _ => exact (room.put none).setChild rfl
  | getWaits i at_ place empty => exact room.setChild (i := i) (d := _) rfl
  | gotSentinel i rest at_ place entry =>
      have taken : Room c ({ s with queue := rest }.wakePutter.emit (.sentinel i)) :=
        pop inv.placement rest
      exact taken.endTask
  | discarded i item rest at_ place entry failed => exact (pop inv.placement rest).endTask
  | called i item rest at_ place entry open_ cm timed entered =>
      exact (pop inv.placement rest).setChild (d := { { s with queue := rest }.wakePutter.child i with
        pc := .calling s.consumedIndex item cm }) rfl
  | deadline i index item cm at_ place entered =>
      exact room.setChild (d := { s.child i with
        pc := .calling index item (some cm.fire), task := (s.child i).task.cancel }) rfl
  | yieldedLate item at_ place stopping =>
      have noted : Room c (s.emit (.pulled item)) := room
      exact noted.failSource
  | yielded item at_ place running metrics =>
      have noted : Room c { (s.emit (.pulled item)).spawn c with metrics := metrics } := by
        unfold State.spawn
        split <;> exact room
      exact noted.setChild rfl
  | sourceFailed caught at_ place => exact room.failSource
  | finished i index item cm out slot at_ place stored metrics =>
      have left : Room c { (s.setChild i { s.child i with
          task := (leaveTimeout cm (s.child i).task out).2.2 }).emit
            (.ended index (s.callEnd i out (leaveTimeout cm (s.child i).task out)) (.stored slot)) with
          results := s.results ++ [slot], metrics := metrics } :=
        room.setChild (i := i) (d := { s.child i with
          task := (leaveTimeout cm (s.child i).task out).2.2 }) (by simp [place, Pc.puts])
      exact left.setChild rfl
  | failed i index item cm out exc at_ place fails =>
      have left : Room c { (s.setChild i { s.child i with
          task := (leaveTimeout cm (s.child i).task out).2.2 }).emit
            (.ended index (s.callEnd i out (leaveTimeout cm (s.child i).task out)) (.failed exc)) with
          failed := true } :=
        room.setChild (i := i) (d := { s.child i with
          task := (leaveTimeout cm (s.child i).task out).2.2 }) (by simp [place, Pc.puts])
      exact left.endTask

end Room

theorem room_of_reaches {caller : Caller} (reached : Runs.Reaches c.step (init caller) s) :
    Room c s := by
  have both : Inv c s ∧ Room c s := by
    refine reached.invariant (p := fun s => Inv c s ∧ Room c s) ?_ ⟨Inv.init c caller, ?_⟩
    · rintro s a t ⟨inv, room⟩ stepped
      exact ⟨inv.step stepped, room.moves inv (step_moves stepped)⟩
    · intro k waiting
      simp [Waits, init, Call.enter, Pc.puts] at waiting
  exact both.2

end Stream

end AsyncPipelines
