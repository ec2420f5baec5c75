import AsyncPipelines.Core.History
import AsyncPipelines.Core.Stream

/-!
Where the tasks of `stream` can be. `Moves` lists the steps of the machine with
what enables each of them; `Placed` says what the state of a task has to do with
its program point and with the deques of the queue.
-/

namespace AsyncPipelines

open Asyncio

variable {α β ε : Type}

namespace Stream

def Pc.atWork : Pc α → Bool
  | offering _ => true
  | finishing _ => true
  | looping => true
  | taking => true
  | _ => false

def Pc.gets : Pc α → Bool
  | getting => true
  | _ => false

def Pc.puts : Pc α → Bool
  | putting _ => true
  | puttingSentinel _ => true
  | _ => false

def Pc.waiting (pc : Pc α) : Bool := pc.gets || pc.puts

def Pc.produces : Pc α → Bool
  | pulling => true
  | offering _ => true
  | putting _ => true
  | finishing _ => true
  | puttingSentinel _ => true
  | _ => false

def Pc.consumes : Pc α → Bool
  | looping => true
  | taking => true
  | getting => true
  | calling _ _ _ => true
  | _ => false

structure Idle (s : State α β ε) (i : Nat) : Prop where
  open_ : s.exit = none
  idle : s.running = none
  alive : s.live i = true

structure Busy (s : State α β ε) (i : Nat) : Prop where
  open_ : s.exit = none
  busy : s.running = some i
  alive : s.live i = true

inductive Moves (c : Stream) (s : State α β ε) : State α β ε → Prop
  | loop (act : Call.LoopAct) (call : Call (Pc α) α β (Slot β ε) ε)
      (calm : ∀ i, s.running = some i → (s.child i).pc.inUser = true)
      (moved : s.toCall.loopStep act = some call) : Moves c s { s with toCall := call }
  | user (act : Call.UserAct) (call : Call (Pc α) α β (Slot β ε) ε)
      (moved : s.toCall.userStep Pc.inUser act = some call) : Moves c s { s with toCall := call }
  | late (act : Call.LateAct) (at_ : Idle s act.task) (begun : (s.child act.task).pc ≠ .created) :
      Moves c s (s.setChild act.task { s.child act.task with
        task := act.after (s.child act.task).task })
  | dropped (i : Nat) (at_ : Idle s i) (place : (s.child i).pc = .created)
      (throws : (s.child i).task.throws = true) : Moves c s (s.endTask i .cancelled)
  | started (i : Nat) (at_ : Idle s i) (place : (s.child i).pc = .created)
      (calm : (s.child i).task.throws = false) :
      Moves c s (s.enter i (if i = 0 then .pulling else .looping))
  | putDenied (i : Nat) (item : α) (at_ : Idle s i) (place : (s.child i).pc = .putting item)
      (throws : (s.child i).task.throws = true)
      (notPending : (s.child i).task.waiter ≠ some .pending) :
      Moves c s ((s.leavePut c i).failSource .cancelledError)
  | putWoken (i : Nat) (item : α) (at_ : Idle s i) (place : (s.child i).pc = .putting item)
      (done : (s.child i).task.waiter = some .done) (calm : (s.child i).task.throws = false) :
      Moves c s (s.enter i (.offering item))
  | sentinelDenied (i left : Nat) (at_ : Idle s i) (place : (s.child i).pc = .puttingSentinel left)
      (throws : (s.child i).task.throws = true)
      (notPending : (s.child i).task.waiter ≠ some .pending) :
      Moves c s ((s.leavePut c i).endTask i .cancelled)
  | sentinelWoken (i left : Nat) (at_ : Idle s i) (place : (s.child i).pc = .puttingSentinel left)
      (done : (s.child i).task.waiter = some .done) (calm : (s.child i).task.throws = false) :
      Moves c s (s.enter i (.finishing (left + 1)))
  | getDenied (i : Nat) (at_ : Idle s i) (place : (s.child i).pc = .getting)
      (throws : (s.child i).task.throws = true)
      (notPending : (s.child i).task.waiter ≠ some .pending) : Moves c s ((s.leaveGet i).endTask i .cancelled)
  | getWoken (i : Nat) (at_ : Idle s i) (place : (s.child i).pc = .getting)
      (done : (s.child i).task.waiter = some .done) (calm : (s.child i).task.throws = false) :
      Moves c s (s.enter i .taking)
  | putWaits (i : Nat) (item : α) (at_ : Busy s i) (place : (s.child i).pc = .offering item)
      (full : s.full c = true) :
      Moves c s { s.park i (.putting item) with putters := s.putters ++ [i] }
  | put (i : Nat) (item : α) (at_ : Busy s i) (place : (s.child i).pc = .offering item)
      (room : s.full c = false) (metrics : StreamMetrics) :
      Moves c s ({ s.putNowait (some item) with metrics := metrics }.goto i .pulling)
  | produced (i : Nat) (at_ : Busy s i) (place : (s.child i).pc = .finishing 0) :
      Moves c s (s.endTask i .returned)
  | sentinelWaits (i left : Nat) (at_ : Busy s i) (place : (s.child i).pc = .finishing (left + 1))
      (full : s.full c = true) :
      Moves c s { s.park i (.puttingSentinel left) with putters := s.putters ++ [i] }
  | sentinelPut (i left : Nat) (at_ : Busy s i) (place : (s.child i).pc = .finishing (left + 1))
      (room : s.full c = false) : Moves c s ((s.putNowait none).goto i (.finishing left))
  | stopped (i : Nat) (at_ : Busy s i) (place : (s.child i).pc = .looping)
      (stopping : s.stopping = true) : Moves c s (s.endTask i .cancelled)
  | looped (i : Nat) (at_ : Busy s i) (place : (s.child i).pc = .looping)
      (running : s.stopping = false) : Moves c s (s.goto i .taking)
  | getWaits (i : Nat) (at_ : Busy s i) (place : (s.child i).pc = .taking) (empty : s.queue = []) :
      Moves c s { s.park i .getting with getters := s.getters ++ [i] }
  | gotSentinel (i : Nat) (rest : List (Option α)) (at_ : Busy s i)
      (place : (s.child i).pc = .taking) (entry : s.queue = none :: rest) :
      Moves c s (({ s with queue := rest }.wakePutter.emit (.sentinel i)).endTask i .returned)
  | discarded (i : Nat) (item : α) (rest : List (Option α)) (at_ : Busy s i)
      (place : (s.child i).pc = .taking) (entry : s.queue = some item :: rest)
      (failed : s.failed = true) :
      Moves c s ({ s with queue := rest }.wakePutter.endTask i .returned)
  | called (i : Nat) (item : α) (rest : List (Option α)) (at_ : Busy s i)
      (place : (s.child i).pc = .taking) (entry : s.queue = some item :: rest)
      (open_ : s.failed = false) (cm : Option Timeout) (timed : cm.isSome = c.timeout.isSome)
      (entered : ∀ own, cm = some own → own.state = .entered) :
      Moves c s { { s with queue := rest }.wakePutter with
        toCall := { s with queue := rest }.wakePutter.toCall.beginCall i
          (.calling s.consumedIndex item cm) s.consumedIndex item
        consumedIndex := s.consumedIndex + 1 }
  | deadline (i index : Nat) (item : α) (cm : Timeout) (at_ : Idle s i)
      (place : (s.child i).pc = .calling index item (some cm)) (entered : cm.state = .entered) :
      Moves c s ((s.setChild i { s.child i with
        pc := .calling index item (some cm.fire), task := (s.child i).task.cancel }).emit
          (.deadline index))
  | yieldedLate (item : α) (at_ : Busy s 0) (place : (s.child 0).pc = .pulling)
      (stopping : s.stopping = true) :
      Moves c s ((s.emit (.pulled item)).failSource .cancelledError)
  | yielded (item : α) (at_ : Busy s 0) (place : (s.child 0).pc = .pulling)
      (running : s.stopping = false) (metrics : StreamMetrics) :
      Moves c s ({ (s.emit (.pulled item)).spawn c with metrics := metrics }.goto 0 (.offering item))
  | ended (at_ : Busy s 0) (place : (s.child 0).pc = .pulling) (running : s.stopping = false) :
      Moves c s (s.goto 0 (.finishing s.started))
  | sourceFailed (caught : Exc ε) (at_ : Busy s 0) (place : (s.child 0).pc = .pulling) :
      Moves c s (s.failSource caught)
  | finished (i index : Nat) (item : α) (cm : Option Timeout) (out : FnEnd β ε) (slot : Slot β ε)
      (at_ : Busy s i) (place : (s.child i).pc = .calling index item cm)
      (stored : collect c.returnExceptions c.timeout index
        (s.callEnd i out (leaveTimeout cm (s.child i).task out)) = .stored slot)
      (metrics : StreamMetrics) :
      Moves c s ({ (s.setChild i { s.child i with
          task := (leaveTimeout cm (s.child i).task out).2.2 }).emit
            (.ended index (s.callEnd i out (leaveTimeout cm (s.child i).task out)) (.stored slot)) with
        results := s.results ++ [slot], metrics := metrics }.goto i .looping)
  | failed (i index : Nat) (item : α) (cm : Option Timeout) (out : FnEnd β ε) (exc : Exc ε)
      (at_ : Busy s i) (place : (s.child i).pc = .calling index item cm)
      (fails : collect c.returnExceptions c.timeout index
        (s.callEnd i out (leaveTimeout cm (s.child i).task out)) = .failed exc) :
      Moves c s ({ (s.setChild i { s.child i with
          task := (leaveTimeout cm (s.child i).task out).2.2 }).emit
            (.ended index (s.callEnd i out (leaveTimeout cm (s.child i).task out)) (.failed exc)) with
        failed := true }.endTask i exc.taskEnd)

theorem fulfil_kept (call : Call (Pc α) α β (Slot β ε) ε) (woken : Option Nat) :
    (call.fulfil woken).failed = call.failed ∧ (call.fulfil woken).log = call.log ∧
      (call.fulfil woken).running = call.running ∧ (call.fulfil woken).group = call.group ∧
      (call.fulfil woken).exit = call.exit ∧ (call.fulfil woken).stopping = call.stopping := by
  cases woken <;> exact ⟨rfl, rfl, rfl, rfl, rfl, rfl⟩

theorem moves_woken {c : Stream} {s t : State α β ε} {i : Nat} (at_ : Idle s i)
    (ready : (s.child i).task.woken = true) (stepped : c.woken s i = some t) : Moves c s t := by
  have done : (s.child i).task.throws = false → (s.child i).task.waiter = some .done := by
    intro calm
    simp only [Task.throws, Bool.or_eq_false_iff, beq_eq_false_iff_ne] at calm
    simpa [Task.woken, calm.2] using ready
  have notPending : (s.child i).task.waiter ≠ some .pending := by
    intro pending
    simp [Task.woken, pending] at ready
  unfold woken at stepped
  dsimp only at stepped
  split at stepped
  · rename_i item place
    split at stepped <;> simp only [Option.some.injEq] at stepped <;> rename_i throws
    · exact stepped ▸ .putDenied i item at_ place throws notPending
    · simp only [Bool.not_eq_true] at throws
      exact stepped ▸ .putWoken i item at_ place (done throws) throws
  · rename_i left place
    split at stepped <;> simp only [Option.some.injEq] at stepped <;> rename_i throws
    · exact stepped ▸ .sentinelDenied i left at_ place throws notPending
    · simp only [Bool.not_eq_true] at throws
      exact stepped ▸ .sentinelWoken i left at_ place (done throws) throws
  · rename_i place
    split at stepped <;> simp only [Option.some.injEq] at stepped <;> rename_i throws
    · exact stepped ▸ .getDenied i at_ place throws notPending
    · simp only [Bool.not_eq_true] at throws
      exact stepped ▸ .getWoken i at_ place (done throws) throws
  · simp at stepped

theorem moves_advance {c : Stream} {s t : State α β ε} {i : Nat} (at_ : Busy s i)
    (stepped : c.advance s i = some t) : Moves c s t := by
  unfold advance at stepped
  split at stepped
  · rename_i item place
    split at stepped <;> simp only [Option.some.injEq] at stepped <;> rename_i full
    · exact stepped ▸ .putWaits i item at_ place full
    · exact stepped ▸ .put i item at_ place (by simpa using full) _
  · rename_i place
    simp only [Option.some.injEq] at stepped
    exact stepped ▸ .produced i at_ place
  · rename_i left place
    split at stepped <;> simp only [Option.some.injEq] at stepped <;> rename_i full
    · exact stepped ▸ .sentinelWaits i left at_ place full
    · exact stepped ▸ .sentinelPut i left at_ place (by simpa using full)
  · rename_i place
    split at stepped <;> simp only [Option.some.injEq] at stepped <;> rename_i stopping
    · exact stepped ▸ .stopped i at_ place stopping
    · exact stepped ▸ .looped i at_ place (by simpa using stopping)
  · rename_i place
    split at stepped
    · rename_i empty
      simp only [Option.some.injEq] at stepped
      exact stepped ▸ .getWaits i at_ place empty
    · rename_i entry rest isQueue
      dsimp only at stepped
      split at stepped
      · simp only [Option.some.injEq] at stepped
        exact stepped ▸ .gotSentinel i rest at_ place isQueue
      · rename_i item
        have same : { s with queue := rest }.wakePutter.failed = s.failed := (fulfil_kept _ _).1
        rw [same] at stepped
        split at stepped <;> simp only [Option.some.injEq] at stepped <;> rename_i failed
        · exact stepped ▸ .discarded i item rest at_ place isQueue failed
        · refine stepped ▸ .called i item rest at_ place isQueue (by simpa using failed)
            (c.timeout.map fun _ => Timeout.enter ({ s with queue := rest }.wakePutter.child i).task)
            (by simp) ?_
          · intro own isOwn
            simp only [Option.map_eq_some_iff] at isOwn
            obtain ⟨_, _, rfl⟩ := isOwn
            rfl
  · simp at stepped

theorem moves_source {c : Stream} {s : State α β ε} {act : SourceAct α ε} (at_ : Busy s 0)
    (place : (s.child 0).pc = .pulling) : Moves c s (c.sourceStep s act) := by
  cases act with
  | yields item =>
      simp only [sourceStep]
      have same : (s.emit (.pulled item)).stopping = s.stopping := rfl
      rw [same]
      split <;> rename_i stopping
      · exact .yieldedLate item at_ place stopping
      · exact .yielded item at_ place (by simpa using stopping) _
  | ends =>
      simp only [sourceStep]
      split <;> rename_i stopping
      · exact .sourceFailed .cancelledError at_ place
      · exact .ended at_ place (by simpa using stopping)
  | raises cls payload => exact .sourceFailed (.raised cls payload) at_ place
  | raisesCancelled => exact .sourceFailed .cancelledError at_ place

theorem moves_finish {c : Stream} {s : State α β ε} {i index : Nat} {item : α}
    {cm : Option Timeout} (out : FnEnd β ε) (at_ : Busy s i)
    (place : (s.child i).pc = .calling index item cm) :
    Moves c s (c.finish s i index cm out) := by
  unfold finish
  dsimp only
  split
  · rename_i slot stored
    rw [stored]
    exact .finished i index item cm out slot at_ place stored _
  · rename_i exc fails
    rw [fails]
    exact .failed i index item cm out exc at_ place fails

theorem step_moves {c : Stream} {s t : State α β ε} {a : Act α β ε}
    (stepped : c.step s a = some t) : Moves c s t := by
  cases a with
  | loop act =>
      simp only [step] at stepped
      split at stepped
      · rename_i calm
        simp only [Option.map_eq_some_iff] at stepped
        obtain ⟨call, moved, rfl⟩ := stepped
        exact .loop act call (fun i running => by simpa [running] using calm) moved
      · simp at stepped
  | user act =>
      simp only [step, Option.map_eq_some_iff] at stepped
      obtain ⟨call, moved, rfl⟩ := stepped
      exact .user act call moved
  | late act =>
      simp only [step, Call.lateStep, Option.isNone_iff_eq_none, Option.map_eq_some_iff,
        Option.ite_none_right_eq_some, Option.some.injEq] at stepped
      obtain ⟨call, ⟨ready, rfl⟩, rfl⟩ := stepped
      refine .late act ⟨ready.1, ready.2.1, ready.2.2.1⟩ fun created => ?_
      simp [created, Pc.begun] at ready
  | start i =>
      simp only [step, Option.isNone_iff_eq_none] at stepped
      split at stepped
      · rename_i place
        split at stepped
        · rename_i ready
          have at_ : Idle s i := ⟨ready.1, ready.2.1, ready.2.2⟩
          split at stepped <;> simp only [Option.some.injEq] at stepped <;> rename_i throws
          · exact stepped ▸ .dropped i at_ place throws
          · exact stepped ▸ .started i at_ place (by simpa using throws)
        · simp at stepped
      · simp at stepped
  | wake i =>
      simp only [step, Option.isNone_iff_eq_none] at stepped
      split at stepped
      · rename_i ready
        exact moves_woken ⟨ready.1, ready.2.1, ready.2.2.1⟩ ready.2.2.2 stepped
      · simp at stepped
  | advance i =>
      simp only [step, Option.isNone_iff_eq_none] at stepped
      split at stepped
      · rename_i ready
        exact moves_advance ⟨ready.1, ready.2.1, ready.2.2⟩ stepped
      · simp at stepped
  | deadline i =>
      simp only [step, Option.isNone_iff_eq_none] at stepped
      split at stepped
      · rename_i index item cm place
        split at stepped
        · rename_i ready
          simp only [Option.some.injEq] at stepped
          exact stepped ▸ .deadline i index item cm ⟨ready.1, ready.2.1, ready.2.2.1⟩ place ready.2.2.2
        · simp at stepped
      · simp at stepped
  | source act =>
      simp only [step, Option.isNone_iff_eq_none] at stepped
      split at stepped
      · rename_i place
        split at stepped
        · rename_i ready
          simp only [Option.some.injEq] at stepped
          exact stepped ▸ moves_source ⟨ready.1, ready.2.1, ready.2.2⟩ place
        · simp at stepped
      · simp at stepped
  | finish i out =>
      simp only [step, Option.isNone_iff_eq_none] at stepped
      split at stepped
      · rename_i index item cm place
        split at stepped
        · rename_i ready
          simp only [Option.some.injEq] at stepped
          exact stepped ▸ moves_finish out ⟨ready.1, ready.2.1, ready.2.2⟩ place
        · simp at stepped
      · simp at stepped

structure Placed (c : Child (Pc α) (Exc ε)) (i : Nat) (cpu inGetters inPutters : Prop) : Prop where
  onCpu : cpu → c.ended = none ∧ (c.pc.inUser = true ∨ c.pc.atWork = true)
  busy : c.ended = none → c.pc.atWork = true → cpu
  parked : c.ended = none → c.pc.waiting = true → c.task.waiter ≠ none
  getter : c.ended = none → c.pc.gets = true → c.task.waiter = some .pending → inGetters
  putter : c.ended = none → c.pc.puts = true → c.task.waiter = some .pending → inPutters
  inDeque : inGetters → c.pc.gets = true ∧ c.task.waiter ≠ some .done
  inDeque' : inPutters → c.pc.puts = true ∧ c.task.waiter ≠ some .done
  listed : inGetters ∨ inPutters → c.ended = none
  flagged : c.ended = none → c.pc.waiting = true ∨ c.pc = .created → c.groupCancelled = true →
    c.task.throws = true
  calm : c.ended = none → c.pc = .created → c.task.throws = true → c.groupCancelled = true
  clean : c.ended = none → c.pc.atWork = true → c.pc ≠ .looping → c.groupCancelled = false
  produces : c.pc.produces = true → i = 0
  consumes : c.pc.consumes = true → i ≠ 0

namespace Placed

variable {c : Child (Pc α) (Exc ε)} {i : Nat} {cpu inGetters inPutters : Prop}

theorem relist (placed : Placed c i cpu inGetters inPutters) {cpu' inGetters' inPutters' : Prop}
    (sameCpu : cpu' ↔ cpu) (fewer : inGetters' → inGetters)
    (kept : inGetters → c.task.waiter = some .pending → inGetters') (fewer' : inPutters' → inPutters)
    (kept' : inPutters → c.task.waiter = some .pending → inPutters') :
    Placed c i cpu' inGetters' inPutters' :=
  { placed with
    onCpu := fun has => placed.onCpu (sameCpu.mp has)
    busy := fun alive work => sameCpu.mpr (placed.busy alive work)
    getter := fun alive gets pending => kept (placed.getter alive gets pending) pending
    putter := fun alive puts pending => kept' (placed.putter alive puts pending) pending
    inDeque := fun member => placed.inDeque (fewer member)
    inDeque' := fun member => placed.inDeque' (fewer' member)
    listed := fun member => placed.listed (member.imp fewer fewer') }

theorem halted (ended : c.ended ≠ none) (produces : c.pc.produces = true → i = 0)
    (consumes : c.pc.consumes = true → i ≠ 0) (noCpu : ¬ cpu) (noGetter : ¬ inGetters)
    (noPutter : ¬ inPutters) : Placed c i cpu inGetters inPutters where
  onCpu := fun has => absurd has noCpu
  busy := fun alive => absurd alive ended
  parked := fun alive => absurd alive ended
  getter := fun alive => absurd alive ended
  putter := fun alive => absurd alive ended
  inDeque := fun member => absurd member noGetter
  inDeque' := fun member => absurd member noPutter
  listed := fun member => (member.elim noGetter noPutter).elim
  flagged := fun alive => absurd alive ended
  calm := fun alive => absurd alive ended
  clean := fun alive => absurd alive ended
  produces := produces
  consumes := consumes

theorem running (alive : c.ended = none) (has : cpu)
    (place : c.pc.inUser = true ∨ c.pc.atWork = true)
    (clean : c.pc.atWork = true → c.pc ≠ .looping → c.groupCancelled = false)
    (produces : c.pc.produces = true → i = 0) (consumes : c.pc.consumes = true → i ≠ 0)
    (noGetter : ¬ inGetters) (noPutter : ¬ inPutters) : Placed c i cpu inGetters inPutters := by
  have outside : c.pc.waiting = false ∧ c.pc ≠ .created := by
    cases pc : c.pc <;> simp_all [Pc.inUser, Pc.atWork, Pc.waiting, Pc.gets, Pc.puts]
  have lists : c.pc.gets = false ∧ c.pc.puts = false := by simpa [Pc.waiting] using outside.1
  exact {
    onCpu := fun _ => ⟨alive, place⟩
    busy := fun _ _ => has
    parked := fun _ waiting => by simp [outside.1] at waiting
    getter := fun _ gets => by simp [lists.1] at gets
    putter := fun _ puts => by simp [lists.2] at puts
    inDeque := fun member => absurd member noGetter
    inDeque' := fun member => absurd member noPutter
    listed := fun _ => alive
    flagged := fun _ at_ => by simp [outside] at at_
    calm := fun _ created => absurd created outside.2
    clean := fun _ => clean
    produces := produces
    consumes := consumes }

/-- A task inside user code has the CPU or not. -/
theorem inside (alive : c.ended = none) (inside : c.pc.inUser = true)
    (produces : c.pc.produces = true → i = 0) (consumes : c.pc.consumes = true → i ≠ 0)
    (noGetter : ¬ inGetters) (noPutter : ¬ inPutters) : Placed c i cpu inGetters inPutters := by
  have outside : c.pc.waiting = false ∧ c.pc.atWork = false ∧ c.pc ≠ .created := by
    cases pc : c.pc <;> simp_all [Pc.inUser, Pc.atWork, Pc.waiting, Pc.gets, Pc.puts]
  have lists : c.pc.gets = false ∧ c.pc.puts = false := by simpa [Pc.waiting] using outside.1
  exact {
    onCpu := fun _ => ⟨alive, Or.inl inside⟩
    busy := fun _ work => by simp [outside.2.1] at work
    parked := fun _ waiting => by simp [outside.1] at waiting
    getter := fun _ gets => by simp [lists.1] at gets
    putter := fun _ puts => by simp [lists.2] at puts
    inDeque := fun member => absurd member noGetter
    inDeque' := fun member => absurd member noPutter
    listed := fun _ => alive
    flagged := fun _ at_ => by simp [outside] at at_
    calm := fun _ created => absurd created outside.2.2
    clean := fun _ work => by simp [outside.2.1] at work
    produces := produces
    consumes := consumes }

theorem await (task : Task) (alive : c.ended = none) (isAwait : c.task = task.await) (waiting : c.pc.waiting = true)
    (clean : c.groupCancelled = false) (produces : c.pc.produces = true → i = 0)
    (consumes : c.pc.consumes = true → i ≠ 0) (noCpu : ¬ cpu)
    (getter : inGetters ↔ c.pc.gets = true) (putter : inPutters ↔ c.pc.puts = true) :
    Placed c i cpu inGetters inPutters := by
  have outside : c.pc.atWork = false ∧ c.pc ≠ .created := by
    cases pc : c.pc <;> simp_all [Pc.atWork, Pc.waiting, Pc.gets, Pc.puts]
  have waiter : c.task.waiter ≠ none ∧ c.task.waiter ≠ some .done := by
    rw [isAwait, Task.await_waiter]
    split <;> simp
  exact {
    onCpu := fun has => absurd has noCpu
    busy := fun _ work => by simp [outside.1] at work
    parked := fun _ _ => waiter.1
    getter := fun _ gets _ => getter.mpr gets
    putter := fun _ puts _ => putter.mpr puts
    inDeque := fun member => ⟨getter.mp member, waiter.2⟩
    inDeque' := fun member => ⟨putter.mp member, waiter.2⟩
    listed := fun _ => alive
    flagged := fun _ _ flag => by simp [clean] at flag
    calm := fun _ created => absurd created outside.2
    clean := fun _ work => by simp [outside.1] at work
    produces := produces
    consumes := consumes }

theorem fulfil (placed : Placed c i cpu inGetters inPutters) {inGetters' inPutters' : Prop}
    (pending : c.task.waiter = some .pending) (noGetter : ¬ inGetters') (noPutter : ¬ inPutters') :
    Placed { c with task := c.task.fulfil } i cpu inGetters' inPutters' where
  onCpu := placed.onCpu
  busy := placed.busy
  parked := fun _ _ => by simp
  getter := fun _ _ => by simp
  putter := fun _ _ => by simp
  inDeque := fun member => absurd member noGetter
  inDeque' := fun member => absurd member noPutter
  listed := fun member => (member.elim noGetter noPutter).elim
  flagged := by
    intro alive at_ flag
    simpa [Task.throws, pending] using placed.flagged alive at_ flag
  calm := by
    intro alive created throws
    refine placed.calm alive created ?_
    simpa [Task.throws, pending] using throws
  clean := placed.clean
  produces := placed.produces
  consumes := placed.consumes

theorem late (placed : Placed c i cpu inGetters inPutters) (act : Call.LateAct)
    (begun : c.pc ≠ .created) : Placed { c with task := act.after c.task } i cpu inGetters inPutters := by
  have waiter : ∀ fut, (act.after c.task).waiter = some fut → fut ≠ .cancelled → c.task.waiter = some fut := by
    intro fut found other
    rcases act.after_waiter c.task with same | ⟨_, cancelled⟩
    · exact same.symm.trans found
    · rw [cancelled, Option.some.injEq] at found
      exact absurd found.symm other
  exact {
    onCpu := placed.onCpu
    busy := placed.busy
    parked := by
      intro alive waiting none
      rcases act.after_waiter c.task with same | ⟨_, cancelled⟩
      · exact placed.parked alive waiting (same.symm.trans none)
      · simp [cancelled] at none
    getter := fun alive gets pending => placed.getter alive gets (waiter _ pending (by simp))
    putter := fun alive puts pending => placed.putter alive puts (waiter _ pending (by simp))
    inDeque := fun member =>
      ⟨(placed.inDeque member).1, fun done => (placed.inDeque member).2 (waiter _ done (by simp))⟩
    inDeque' := fun member =>
      ⟨(placed.inDeque' member).1, fun done => (placed.inDeque' member).2 (waiter _ done (by simp))⟩
    listed := placed.listed
    flagged := fun alive at_ flag => act.after_throws (placed.flagged alive at_ flag)
    calm := fun _ created => absurd created begun
    clean := placed.clean
    produces := placed.produces
    consumes := placed.consumes }

theorem cancel (placed : Placed c i cpu inGetters inPutters) (idle : cpu → c.pc.inUser = true) :
    Placed c.cancel i cpu inGetters inPutters := by
  unfold Child.cancel
  split
  · exact placed
  · rename_i open_
    simp only [Option.isSome_iff_ne_none, ne_eq, not_not] at open_
    have waiter : ∀ fut, c.task.cancel.waiter = some fut → fut ≠ .cancelled → c.task.waiter = some fut := by
      intro fut found other
      rw [Task.cancel_waiter] at found
      split at found
      · simp only [Option.some.injEq] at found
        exact absurd found.symm other
      · exact found
    exact {
      onCpu := placed.onCpu
      busy := placed.busy
      parked := by
        intro alive waiting none
        rw [Task.cancel_waiter] at none
        split at none
        · simp at none
        · exact placed.parked alive waiting none
      getter := fun alive gets pending => placed.getter alive gets (waiter _ pending (by simp))
      putter := fun alive puts pending => placed.putter alive puts (waiter _ pending (by simp))
      inDeque := fun member =>
        ⟨(placed.inDeque member).1, fun done => (placed.inDeque member).2 (waiter _ done (by simp))⟩
      inDeque' := fun member =>
        ⟨(placed.inDeque' member).1, fun done => (placed.inDeque' member).2 (waiter _ done (by simp))⟩
      listed := placed.listed
      flagged := fun _ _ _ => Task.cancel_throws _
      calm := fun _ _ _ => rfl
      clean := by
        intro alive work _
        have place := idle (placed.busy alive work)
        cases pc : c.pc <;> simp_all [Pc.inUser, Pc.atWork]
      produces := placed.produces
      consumes := placed.consumes }

end Placed

structure Placement (s : State α β ε) : Prop where
  each : ∀ i, Placed (s.child i) i (s.running = some i) (i ∈ s.getters) (i ∈ s.putters)
  getters : s.getters.Nodup
  putters : s.putters.Nodup

namespace Placement

variable {s t : State α β ε}

theorem notListed (placement : Placement s) {i : Nat} (outside : (s.child i).pc.waiting = false) :
    i ∉ s.getters ∧ i ∉ s.putters := by
  simp only [Pc.waiting, Bool.or_eq_false_iff] at outside
  refine ⟨fun member => ?_, fun member => ?_⟩
  · simp [((placement.each i).inDeque member).1] at outside
  · simp [((placement.each i).inDeque' member).1] at outside

theorem notListed_done (placement : Placement s) {i : Nat}
    (done : (s.child i).task.waiter = some .done) : i ∉ s.getters ∧ i ∉ s.putters :=
  ⟨fun member => ((placement.each i).inDeque member).2 done,
    fun member => ((placement.each i).inDeque' member).2 done⟩

theorem update (placement : Placement s) {i : Nat} (others : ∀ j, j ≠ i → t.child j = s.child j)
    (cpu : ∀ j, j ≠ i → (t.running = some j ↔ s.running = some j))
    (getters : ∀ j, j ≠ i → (j ∈ t.getters ↔ j ∈ s.getters))
    (putters : ∀ j, j ≠ i → (j ∈ t.putters ↔ j ∈ s.putters))
    (distinct : t.getters.Nodup) (distinct' : t.putters.Nodup)
    (own : Placed (t.child i) i (t.running = some i) (i ∈ t.getters) (i ∈ t.putters)) :
    Placement t where
  each := by
    intro j
    by_cases here : j = i
    · exact here ▸ own
    · rw [others j here]
      exact (placement.each j).relist (cpu j here) (getters j here).mp
        (fun member _ => (getters j here).mpr member) (putters j here).mp
        (fun member _ => (putters j here).mpr member)
  getters := distinct
  putters := distinct'

theorem wakeGetter (placement : Placement s) : Placement s.wakeGetter := by
  have suffix := wakeupNext_suffix (fun k => (s.child k).task) s.getters
  obtain ⟨woken, waiting, _⟩ := wakeupNext_spec (fun k => (s.child k).task) s.getters
  refine ⟨fun j => ?_, placement.getters.sublist suffix.sublist, placement.putters⟩
  show Placed ((s.toCall.fulfil (wakeupNext (fun k => (s.child k).task) s.getters).2).child j) j
    ((s.toCall.fulfil (wakeupNext (fun k => (s.child k).task) s.getters).2).running = some j)
    (j ∈ (wakeupNext (fun k => (s.child k).task) s.getters).1) (j ∈ s.putters)
  rw [Call.fulfil_child, (fulfil_kept _ _).2.2.1]
  split
  · rename_i isWoken
    have gets := ((placement.each j).inDeque (woken j isWoken).2).1
    have gone := wakeupNext_distinct (fun k => (s.child k).task) placement.getters isWoken
    refine (placement.each j).fulfil (woken j isWoken).1 gone fun member => ?_
    have puts := ((placement.each j).inDeque' member).1
    cases pc : (s.child j).pc <;> simp_all [Pc.gets, Pc.puts]
  · rename_i other
    refine (placement.each j).relist Iff.rfl (fun member => suffix.subset member) ?_ id
      fun member _ => member
    exact fun member pending => (waiting j member pending).resolve_right other

theorem wakePutter (placement : Placement s) : Placement s.wakePutter := by
  have suffix := wakeupNext_suffix (fun k => (s.child k).task) s.putters
  obtain ⟨woken, waiting, _⟩ := wakeupNext_spec (fun k => (s.child k).task) s.putters
  refine ⟨fun j => ?_, placement.getters, placement.putters.sublist suffix.sublist⟩
  show Placed ((s.toCall.fulfil (wakeupNext (fun k => (s.child k).task) s.putters).2).child j) j
    ((s.toCall.fulfil (wakeupNext (fun k => (s.child k).task) s.putters).2).running = some j)
    (j ∈ s.getters)
    (j ∈ (wakeupNext (fun k => (s.child k).task) s.putters).1)
  rw [Call.fulfil_child, (fulfil_kept _ _).2.2.1]
  split
  · rename_i isWoken
    have puts := ((placement.each j).inDeque' (woken j isWoken).2).1
    have gone := wakeupNext_distinct (fun k => (s.child k).task) placement.putters isWoken
    refine (placement.each j).fulfil (woken j isWoken).1 (fun member => ?_) gone
    have gets := ((placement.each j).inDeque member).1
    cases pc : (s.child j).pc <;> simp_all [Pc.gets, Pc.puts]
  · rename_i other
    refine (placement.each j).relist Iff.rfl id (fun member _ => member)
      (fun member => suffix.subset member) ?_
    exact fun member pending => (waiting j member pending).resolve_right other

theorem congr (placement : Placement s) (child : t.child = s.child) (running : t.running = s.running)
    (getters : t.getters = s.getters) (putters : t.putters = s.putters) : Placement t :=
  ⟨by rw [child, running, getters, putters]; exact placement.each, getters ▸ placement.getters,
    putters ▸ placement.putters⟩

theorem goesOn (placement : Placement s) {i : Nat} {d : Child (Pc α) (Exc ε)}
    (cpu : s.running = none ∨ s.running = some i) (notListed : i ∉ s.getters ∧ i ∉ s.putters)
    (alive : d.ended = none) (place : d.pc.inUser = true ∨ d.pc.atWork = true)
    (clean : d.pc.atWork = true → d.pc ≠ .looping → d.groupCancelled = false)
    (produces : d.pc.produces = true → i = 0) (consumes : d.pc.consumes = true → i ≠ 0)
    (isChild : t.child = Function.update s.child i d) (running : t.running = some i)
    (getters : t.getters = s.getters) (putters : t.putters = s.putters) : Placement t := by
  refine placement.update (i := i) ?_ ?_ (fun _ _ => by rw [getters]) (fun _ _ => by rw [putters])
    (getters ▸ placement.getters) (putters ▸ placement.putters) ?_
  · intro j other
    rw [isChild, Function.update_of_ne other]
  · intro j other
    rw [running]
    rcases cpu with idle | busy
    · simp [idle, Ne.symm other]
    · rw [busy]
  · rw [isChild, Function.update_self, running, getters, putters]
    exact .running alive rfl place clean produces consumes notListed.1 notListed.2

theorem ends (placement : Placement s) {i : Nat} {ended : TaskEnd (Exc ε)}
    (cpu : s.running = none ∨ s.running = some i) (notListed : i ∉ s.getters ∧ i ∉ s.putters) :
    Placement (s.endTask i ended) := by
  refine placement.update (i := i) ?_ ?_ (fun _ _ => Iff.rfl) (fun _ _ => Iff.rfl)
    placement.getters placement.putters ?_
  · intro j other
    simp [State.endTask, Call.endTask, Call.setChild, other]
  · intro j other
    rcases cpu with idle | busy
    · simp [State.endTask, Call.endTask, idle]
    · simp [State.endTask, Call.endTask, busy, Ne.symm other]
  · have own := placement.each i
    refine .halted ?_ ?_ ?_ ?_ notListed.1 notListed.2
    · simp [State.endTask, Call.endTask_ended]
    · simpa [State.endTask, Call.endTask, Call.setChild] using own.produces
    · simpa [State.endTask, Call.endTask, Call.setChild] using own.consumes
    · simp [State.endTask, Call.endTask]

theorem parkGet (placement : Placement s) {i : Nat} (busy : s.running = some i)
    (notListed : i ∉ s.getters ∧ i ∉ s.putters) (clean : (s.child i).groupCancelled = false)
    (consumer : i ≠ 0) :
    Placement { s.park i .getting with getters := s.getters ++ [i] } := by
  refine placement.update (i := i) ?_ ?_ ?_ (fun _ _ => Iff.rfl) ?_ placement.putters ?_
  · intro j other
    simp [State.park, State.setChild, Call.setChild, other]
  · intro j other
    simp [State.park, State.setChild, Call.setChild, busy, Ne.symm other]
  · intro j other
    simp [other]
  · exact List.nodup_append.mpr ⟨placement.getters, by simp, by
      intro j member k isI
      rw [List.mem_singleton.mp isI]
      exact fun same => notListed.1 (same ▸ member)⟩
  · have alive := ((placement.each i).onCpu busy).1
    refine .await (s.child i).task ?_ ?_ ?_ ?_ ?_ ?_ ?_ ?_ ?_ <;>
      simp [State.park, State.setChild, Call.setChild, Pc.waiting, Pc.gets, Pc.puts, Pc.produces,
        alive, clean, consumer, notListed]

theorem parkPut (placement : Placement s) {i : Nat} {pc : Pc α} (busy : s.running = some i)
    (notListed : i ∉ s.getters ∧ i ∉ s.putters) (clean : (s.child i).groupCancelled = false)
    (producer : i = 0) (puts : pc.puts = true) :
    Placement { s.park i pc with putters := s.putters ++ [i] } := by
  have shape : pc.gets = false ∧ pc.consumes = false ∧ pc.waiting = true := by
    cases pc <;> simp_all [Pc.gets, Pc.puts, Pc.consumes, Pc.waiting]
  subst producer
  refine placement.update (i := 0) ?_ ?_ (fun _ _ => Iff.rfl) ?_ placement.getters ?_ ?_
  · intro j other
    simp [State.park, State.setChild, Call.setChild, other]
  · intro j other
    simp [State.park, State.setChild, Call.setChild, busy, Ne.symm other]
  · intro j other
    simp [other]
  · exact List.nodup_append.mpr ⟨placement.putters, by simp, by
      intro j member k isI
      rw [List.mem_singleton.mp isI]
      exact fun same => notListed.2 (same ▸ member)⟩
  · have alive := ((placement.each 0).onCpu busy).1
    refine .await (s.child 0).task ?_ ?_ ?_ ?_ ?_ ?_ ?_ ?_ ?_ <;>
      simp [State.park, State.setChild, Call.setChild, shape, puts, alive, clean, notListed]

theorem eraseGetter (placement : Placement s) {i : Nat}
    (notPending : (s.child i).task.waiter ≠ some .pending) :
    Placement { s with getters := s.getters.erase i } where
  each := by
    intro j
    refine (placement.each j).relist Iff.rfl List.mem_of_mem_erase ?_ id fun member _ => member
    intro member pending
    refine (List.mem_erase_of_ne ?_).mpr member
    rintro rfl
    exact notPending pending
  getters := placement.getters.erase i
  putters := placement.putters

theorem erasePutter (placement : Placement s) {i : Nat}
    (notPending : (s.child i).task.waiter ≠ some .pending) :
    Placement { s with putters := s.putters.erase i } where
  each := by
    intro j
    refine (placement.each j).relist Iff.rfl id (fun member _ => member) List.mem_of_mem_erase ?_
    intro member pending
    refine (List.mem_erase_of_ne ?_).mpr member
    rintro rfl
    exact notPending pending
  getters := placement.getters
  putters := placement.putters.erase i

theorem leaveGet (placement : Placement s) {i : Nat}
    (notPending : (s.child i).task.waiter ≠ some .pending) : Placement (s.leaveGet i) := by
  unfold State.leaveGet
  dsimp only
  split
  · exact (placement.eraseGetter notPending).wakeGetter
  · exact placement.eraseGetter notPending

theorem leavePut (placement : Placement s) {c : Stream} {i : Nat}
    (notPending : (s.child i).task.waiter ≠ some .pending) : Placement (s.leavePut c i) := by
  unfold State.leavePut
  dsimp only
  split
  · exact (placement.erasePutter notPending).wakePutter
  · exact placement.erasePutter notPending

theorem loop (placement : Placement s) {act : Call.LoopAct} {call : Call (Pc α) α β (Slot β ε) ε}
    (calm : ∀ i, s.running = some i → (s.child i).pc.inUser = true)
    (moved : s.toCall.loopStep act = some call) : Placement { s with toCall := call } where
  each := by
    intro j
    have running : call.running = s.running := (Call.loopStep_same moved).2.2.1
    rcases Call.loopStep_child moved j with same | cancelled
    · show Placed (call.child j) j (call.running = some j) _ _
      rw [same, running]
      exact placement.each j
    · show Placed (call.child j) j (call.running = some j) _ _
      rw [cancelled, running]
      exact (placement.each j).cancel (calm j)
  getters := placement.getters
  putters := placement.putters

theorem late (placement : Placement s) (act : Call.LateAct) (begun : (s.child act.task).pc ≠ .created) :
    Placement (s.setChild act.task { s.child act.task with
      task := act.after (s.child act.task).task }) := by
  refine placement.update (i := act.task) ?_ (fun _ _ => Iff.rfl) (fun _ _ => Iff.rfl)
    (fun _ _ => Iff.rfl) placement.getters placement.putters ?_
  · intro j other
    simp [State.setChild, Call.setChild, other]
  · have own := (placement.each act.task).late act begun
    simpa [State.setChild, Call.setChild] using own

theorem user (placement : Placement s) {act : Call.UserAct} {call : Call (Pc α) α β (Slot β ε) ε}
    (moved : s.toCall.userStep Pc.inUser act = some call) : Placement { s with toCall := call } := by
  obtain ⟨_, _, _, _, ⟨task, child⟩, ⟨inside, place⟩, before, running⟩ := Call.userStep_same moved
  have outside : (s.child act.task).pc.waiting = false ∧ (s.child act.task).pc.atWork = false ∧
      (s.child act.task).pc ≠ .created := by
    cases pc : (s.child act.task).pc <;>
      simp_all [Pc.inUser, Pc.waiting, Pc.gets, Pc.puts, Pc.atWork]
  have own := placement.each act.task
  have alive : (s.child act.task).ended = none := by
    rcases place with busy | alive
    · exact (own.onCpu busy).1
    · simp only [Scope.live, Bool.and_eq_true, Option.isNone_iff_eq_none] at alive
      exact alive.2
  obtain ⟨noGetter, noPutter⟩ := placement.notListed outside.1
  have isChild : call.child act.task = { s.child act.task with task := task } := by
    rw [child, Call.setTask_child, if_pos rfl]
  refine placement.update (i := act.task) ?_ ?_ (fun _ _ => Iff.rfl) (fun _ _ => Iff.rfl)
    placement.getters placement.putters ?_
  · intro j other
    show call.child j = s.child j
    rw [child, Call.setTask_child, if_neg other]
  · intro j other
    show call.running = some j ↔ s.running = some j
    rcases before with idle | busy <;> rcases running with idle' | busy' <;>
      simp_all [Ne.symm other]
  · show Placed (call.child act.task) act.task (call.running = some act.task) _ _
    rw [isChild]
    exact .inside alive inside own.produces own.consumes noGetter noPutter

end Placement

structure Local (i : Nat) (s t : State α β ε) : Prop where
  step : Call.TaskStep s.toCall t.toCall
  tasks : t.group.tasks = s.group.tasks
  started : t.started = s.started
  others : ∀ j, j ≠ i → t.child j = s.child j ∨ (s.child j).task.waiter = some .pending ∧
    t.child j = { s.child j with task := (s.child j).task.fulfil }
  flagged : (t.child i).groupCancelled = (s.child i).groupCancelled

namespace Local

variable {i : Nat} {s t u : State α β ε}

theorem trans (first : Local i s t) (second : Local i t u) : Local i s u where
  step := first.step.trans second.step
  tasks := second.tasks.trans first.tasks
  started := second.started.trans first.started
  others := by
    intro j other
    rcases first.others j other with same | ⟨pending, woken⟩
    · rw [← same]
      exact second.others j other
    · rcases second.others j other with same | ⟨again, _⟩
      · exact Or.inr ⟨pending, same.trans woken⟩
      · simp [woken] at again
  flagged := second.flagged.trans first.flagged

theorem of_child {d : Child (Pc α) (Exc ε)} (ended : d.ended = (s.child i).ended)
    (flag : d.groupCancelled = (s.child i).groupCancelled)
    (scope : t.toScope = (s.toCall.setChild i d).toScope) (rearms : t.rearms = s.rearms)
    (caller : t.caller = s.caller) (failed : t.failed = s.failed) (started : t.started = s.started) :
    Local i s t where
  step := (Call.TaskStep.setChild ended flag).trans (Call.TaskStep.of_same scope rearms caller failed)
  tasks := by rw [scope]; rfl
  started := started
  others := by
    intro j other
    left
    rw [scope]
    simp [Call.setChild, other]
  flagged := by
    rw [scope]
    simpa [Call.setChild] using flag

theorem of_call (call : t.toCall = s.toCall) (started : t.started = s.started) : Local i s t where
  step := call ▸ Call.TaskStep.refl _
  tasks := by rw [call]
  started := started
  others := fun _ _ => Or.inl (by rw [call])
  flagged := by rw [call]

theorem fulfil {woken : Option Nat} (call : t.toCall = s.toCall.fulfil woken)
    (started : t.started = s.started)
    (pending : ∀ j, woken = some j → (s.child j).task.waiter = some .pending) : Local i s t where
  step := by
    rw [call]
    cases woken with
    | none => exact Call.TaskStep.refl _
    | some j => exact Call.TaskStep.setTask _ _ _
  tasks := by rw [call, (fulfil_kept _ _).2.2.2.1]
  started := started
  others := by
    intro j other
    rw [call, Call.fulfil_child]
    split
    · rename_i isWoken
      exact Or.inr ⟨pending j isWoken, rfl⟩
    · exact Or.inl rfl
  flagged := by
    rw [call, Call.fulfil_child]
    split <;> rfl

theorem wakeGetter (s : State α β ε) : Local i s s.wakeGetter :=
  fulfil rfl rfl fun j woken => ((wakeupNext_spec _ s.getters).1 j woken).1

theorem wakePutter (s : State α β ε) : Local i s s.wakePutter :=
  fulfil rfl rfl fun j woken => ((wakeupNext_spec _ s.putters).1 j woken).1

theorem leaveGet (s : State α β ε) : Local i s (s.leaveGet i) := by
  unfold State.leaveGet
  dsimp only
  split
  · have erased : Local i s { s with getters := s.getters.erase i } := of_call rfl rfl
    exact erased.trans (wakeGetter _)
  · exact of_call rfl rfl

theorem leavePut (s : State α β ε) (c : Stream) : Local i s (s.leavePut c i) := by
  unfold State.leavePut
  dsimp only
  split
  · have erased : Local i s { s with putters := s.putters.erase i } := of_call rfl rfl
    exact erased.trans (wakePutter _)
  · exact of_call rfl rfl

theorem ends {ended : TaskEnd (Exc ε)} (alive : s.live i = true)
    (quietly : ∀ error, ended ≠ .raised error) : Local i s (s.endTask i ended) where
  step := Call.TaskStep.endTask alive id (fun error raised => absurd raised (quietly error))
    fun failed => Or.inl ((Call.stopping_iff _).mpr (Or.inl failed))
  tasks := rfl
  started := rfl
  others := fun j other => Or.inl (by simp [State.endTask, Call.endTask, Call.setChild, other])
  flagged := by simp [State.endTask, Call.endTask, Call.setChild]

theorem fails {exc : Exc ε} (alive : s.live i = true)
    (strict : exc = .cancelledError → s.stopping = true) :
    Local i s ({ s with failed := true }.endTask i exc.taskEnd) where
  step := by
    refine Call.TaskStep.endTask (c := s.toCall) alive (fun _ => rfl) (fun error raised => ⟨rfl, ?_⟩)
      fun _ => ?_
    · have same := Exc.taskEnd_raised raised
      exact same.1 ▸ same.2
    · by_cases cancelled : exc = .cancelledError
      · exact Or.inl (strict cancelled)
      · exact Or.inr ⟨exc, by cases exc <;> simp_all [Exc.taskEnd]⟩
  tasks := rfl
  started := rfl
  others := fun j other => Or.inl (by simp [State.endTask, Call.endTask, Call.setChild, other])
  flagged := by simp [State.endTask, Call.endTask, Call.setChild]

theorem live (l : Local i s t) (ended : (t.child i).ended = (s.child i).ended)
    (alive : s.live i = true) : t.live i = true := by
  simpa [Scope.live, l.tasks, ended] using alive

end Local

end Stream

end AsyncPipelines
