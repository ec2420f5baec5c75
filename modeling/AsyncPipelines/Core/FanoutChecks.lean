import AsyncPipelines.Core.Fanout
import AsyncPipelines.Core.History

/-!
The invariant of a fan-out. `ItemState` lists the ways the task of an item can
stand, with the slot and the history of that item in each of them; a step of a
task changes the state of its own item and of no other.
-/

namespace AsyncPipelines

open Asyncio

variable {α β κ σ ε : Type}

namespace Fanout

inductive ItemState (f : Fanout α β κ σ ε) (s : State α β σ ε) (i : Nat) : Prop
  | absent (beyond : f.items[i]? = none) (untouched : history i s.log = [])
  | waiting (item : α) (found : f.items[i]? = some item)
      (outside : (s.child i).pc.inUser = false) (alive : (s.child i).ended = none)
      (calm : (s.child i).task.throws = true → (s.child i).groupCancelled = true)
      (untouched : history i s.log = []) (slot : s.results[i]? = some none)
  | calling (item : α) (cm : Option Timeout) (found : f.items[i]? = some item)
      (inside : (s.child i).pc = .calling cm) (alive : (s.child i).ended = none)
      (timed : cm.isSome = f.timeout.isSome)
      (open_ : ∀ own, cm = some own → own.state = .entered ∨ own.state = .expiring)
      (record : history i s.log = opening i item (cm.any Timeout.expired))
      (slot : s.results[i]? = some none)
  | skipped (item : α) (found : f.items[i]? = some item)
      (halted : (s.child i).ended = some .returned ∨ (s.child i).ended = some .cancelled)
      (untouched : history i s.log = []) (slot : s.results[i]? = some none)
      (latched : s.failed = true)
  | dropped (item : α) (found : f.items[i]? = some item)
      (halted : (s.child i).ended = some .cancelled)
      (untouched : history i s.log = []) (slot : s.results[i]? = some none)
      (flagged : (s.child i).groupCancelled = true)
  | stored (item : α) (clock : κ) (call : CallEnd β ε) (slot : σ) (found : f.items[i]? = some item)
      (halted : (s.child i).ended = some .returned ∨ (s.child i).ended = some .cancelled)
      (record : history i s.log =
        opening i item call.expired ++ [.ended i call (.stored slot)])
      (faithful : call.Faithful f.timeout) (stub : ∀ out, f.stub item = some out → call.out = out)
      (result : f.complete i item clock call = .stored slot)
      (kept : s.results[i]? = some (some slot))
  | failed (item : α) (clock : κ) (call : CallEnd β ε) (exc : Exc ε)
      (found : f.items[i]? = some item) (halted : (s.child i).ended = some exc.taskEnd)
      (record : history i s.log =
        opening i item call.expired ++ [.ended i call (.failed exc)])
      (faithful : call.Faithful f.timeout) (stub : ∀ out, f.stub item = some out → call.out = out)
      (result : f.complete i item clock call = .failed exc)
      (slot : s.results[i]? = some none) (latched : s.failed = true)

theorem ItemState.frame {f : Fanout α β κ σ ε} {s t : State α β σ ε} {i : Nat}
    (state : ItemState f s i) (frame : Frame (s.child i) (t.child i))
    (record : history i t.log = history i s.log) (slot : t.results[i]? = s.results[i]?)
    (latched : s.failed = true → t.failed = true) : ItemState f t i := by
  cases state with
  | absent beyond untouched => exact .absent beyond (record.trans untouched)
  | waiting item found outside alive calm untouched empty =>
      refine .waiting item found (frame.pc ▸ outside) (frame.ended.trans alive) ?_
        (record.trans untouched) (slot.trans empty)
      intro throws
      rcases frame.throws throws with before | flag
      · exact frame.flagged (calm before)
      · exact flag
  | calling item cm found inside alive timed open_ past empty =>
      exact .calling item cm found (frame.pc.trans inside) (frame.ended.trans alive) timed open_
        (record.trans past) (slot.trans empty)
  | skipped item found halted untouched empty failed =>
      exact .skipped item found (frame.ended ▸ halted) (record.trans untouched) (slot.trans empty)
        (latched failed)
  | dropped item found halted untouched empty flagged =>
      exact .dropped item found (frame.ended ▸ halted) (record.trans untouched) (slot.trans empty)
        (frame.flagged flagged)
  | stored item clock call value found halted past faithful stub result kept =>
      exact .stored item clock call value found (frame.ended ▸ halted) (record.trans past) faithful
        stub result (slot.trans kept)
  | failed item clock call exc found halted past faithful stub result empty failed =>
      exact .failed item clock call exc found (frame.ended ▸ halted) (record.trans past) faithful
        stub result (slot.trans empty) (latched failed)

structure Local (i : Nat) (s t : State α β σ ε) : Prop where
  step : Call.TaskStep s.toCall t.toCall
  tasks : t.group.tasks = s.group.tasks
  frame : ∀ j, j ≠ i → Frame (s.child j) (t.child j)
  record : ∀ j, j ≠ i → history j t.log = history j s.log
  slots : ∀ j, j ≠ i → t.results[j]? = s.results[j]?
  size : t.results.length = s.results.length
  flagged : (t.child i).groupCancelled = (s.child i).groupCancelled

theorem Local.trans {i : Nat} {s t u : State α β σ ε} (first : Local i s t) (second : Local i t u) :
    Local i s u where
  step := first.step.trans second.step
  tasks := second.tasks.trans first.tasks
  frame := fun j other => (first.frame j other).trans (second.frame j other)
  record := fun j other => (second.record j other).trans (first.record j other)
  slots := fun j other => (second.slots j other).trans (first.slots j other)
  size := second.size.trans first.size
  flagged := second.flagged.trans first.flagged

structure Quiet (s t : State α β σ ε) : Prop where
  step : Call.TaskStep s.toCall t.toCall
  group : t.group = s.group
  frame : ∀ j, Frame (s.child j) (t.child j)
  flagged : ∀ j, (t.child j).groupCancelled = (s.child j).groupCancelled
  calm : ∀ j, (s.child j).task.waiter ≠ some .pending → t.child j = s.child j
  log : t.log = s.log
  failed : t.failed = s.failed
  results : t.results = s.results
  running : t.running = s.running

theorem Quiet.local {s t : State α β σ ε} (quiet : Quiet s t) (i : Nat) : Local i s t where
  step := quiet.step
  tasks := by rw [quiet.group]
  frame := fun j _ => quiet.frame j
  record := fun j _ => by rw [quiet.log]
  slots := fun j _ => by rw [quiet.results]
  size := by rw [quiet.results]
  flagged := quiet.flagged i

theorem quiet_sem (s : State α β σ ε) (sem : Option Semaphore) : Quiet s { s with sem := sem } where
  step := Call.TaskStep.refl _
  group := rfl
  frame := fun _ => Frame.refl _
  flagged := fun _ => rfl
  calm := fun _ _ => rfl
  log := rfl
  failed := rfl
  results := rfl
  running := rfl

theorem Quiet.trans {s t u : State α β σ ε} (first : Quiet s t) (second : Quiet t u) : Quiet s u where
  step := first.step.trans second.step
  group := second.group.trans first.group
  frame := fun j => (first.frame j).trans (second.frame j)
  flagged := fun j => (second.flagged j).trans (first.flagged j)
  calm := by
    intro j busy
    have same := first.calm j busy
    rw [← same] at busy ⊢
    exact second.calm j busy
  log := second.log.trans first.log
  failed := second.failed.trans first.failed
  results := second.results.trans first.results
  running := second.running.trans first.running

theorem quiet_wakeUpNext (s : State α β σ ε) : Quiet s s.wakeUpNext := by
  unfold State.wakeUpNext
  split
  · exact quiet_sem s s.sem
  · rename_i sem _
    cases woken : (sem.wakeUpNext fun j => (s.child j).task).2 with
    | none =>
        simp only [woken, Call.fulfil]
        exact quiet_sem s _
    | some i =>
        have pending := Semaphore.wakeUpNext_pending _ sem woken
        simp only [woken, Call.fulfil]
        have other : ∀ j, j ≠ i →
            (s.toCall.setTask i (s.child i).task.fulfil).child j = s.child j := by
          intro j different
          simp [Call.setTask, Call.setChild, different]
        have same : (s.toCall.setTask i (s.child i).task.fulfil).child i =
            { s.child i with task := (s.child i).task.fulfil } := by
          simp [Call.setTask, Call.setChild]
        refine ⟨Call.TaskStep.setTask _ _ _, rfl, ?_, ?_, ?_, rfl, rfl, rfl, rfl⟩
        · intro j
          by_cases here : j = i
          · subst here
            exact Frame.fulfil (by rw [same]) (by rw [same]) (by rw [same]) (by rw [same])
          · exact Frame.of_eq (other j here)
        · intro j
          by_cases here : j = i
          · subst here
            show ((s.toCall.setTask j (s.child j).task.fulfil).child j).groupCancelled = _
            rw [same]
          · show ((s.toCall.setTask i (s.child i).task.fulfil).child j).groupCancelled = _
            rw [other j here]
        · intro j busy
          by_cases here : j = i
          · exact absurd (here ▸ pending) busy
          · exact other j here

theorem quiet_release (s : State α β σ ε) : Quiet s s.release :=
  (quiet_sem s _).trans (quiet_wakeUpNext _)

theorem local_endTask {s : State α β σ ε} {i : Nat} (ended : TaskEnd (Exc ε))
    (alive : s.live i = true) (quietly : ∀ error, ended ≠ .raised error) :
    Local i s (s.endTask i ended) where
  step := Call.TaskStep.endTask alive id (fun error raised => absurd raised (quietly error))
    fun failed => Or.inl ((Call.stopping_iff _).mpr (Or.inl failed))
  tasks := rfl
  frame := by
    intro j other
    exact Frame.of_eq (by simp [State.endTask, Call.endTask, Call.setChild, other])
  record := fun _ _ => rfl
  slots := fun _ _ => rfl
  size := rfl
  flagged := by simp [State.endTask, Call.endTask, Call.setChild]

theorem endTask_over (s : State α β σ ε) (i : Nat) :
    ((s.endTask i .returned).child i).ended = some .returned ∨
      ((s.endTask i .returned).child i).ended = some .cancelled := by
  simp only [State.endTask, Call.endTask_ended, ↓reduceIte]
  by_cases late : (s.child i).task.mustCancel = true <;> simp [late]

theorem endTask_ended (s : State α β σ ε) (i : Nat) {ended : TaskEnd (Exc ε)}
    (raises : ended ≠ .returned) : ((s.endTask i ended).child i).ended = some ended := by
  cases ended <;> simp_all [State.endTask, Call.endTask_ended]

theorem live_of_ended {s : State α β σ ε} {t : State α β σ ε} {i : Nat} (alive : s.live i = true)
    (tasks : t.group.tasks = s.group.tasks) (ended : (t.child i).ended = (s.child i).ended) :
    t.live i = true := by
  simpa [Scope.live, tasks, ended] using alive

theorem local_setChild {s : State α β σ ε} {i : Nat} {d : Child Pc (Exc ε)}
    (ended : d.ended = (s.child i).ended)
    (flag : d.groupCancelled = (s.child i).groupCancelled) :
    Local i s { s with toCall := s.toCall.setChild i d } where
  step := Call.TaskStep.setChild ended flag
  tasks := rfl
  frame := fun j other => Frame.of_eq (by simp [Call.setChild, other])
  record := fun _ _ => rfl
  slots := fun _ _ => rfl
  size := rfl
  flagged := by simpa [Call.setChild] using flag

theorem local_emit {s : State α β σ ε} {i : Nat} {e : Event α β σ ε} (running : Option Nat)
    (own : e.index = some i) :
    Local i s { s with toCall := { s.toCall.emit e with running := running } } where
  step := Call.TaskStep.of_same rfl rfl rfl rfl
  tasks := rfl
  frame := fun _ _ => Frame.refl _
  record := by
    intro j other
    refine history_other ?_ s.log
    rw [own]
    simpa using Ne.symm other
  slots := fun _ _ => rfl
  size := rfl
  flagged := rfl

structure Ready (f : Fanout α β κ σ ε) (s : State α β σ ε) (i : Nat) (item : α) : Prop where
  found : f.items[i]? = some item
  alive : s.live i = true
  untouched : history i s.log = []
  slot : s.results[i]? = some none
  logged : Call.Logged s.toCall
  idle : s.running = none

theorem Ready.quiet {f : Fanout α β κ σ ε} {s t : State α β σ ε} {i : Nat} {item : α}
    (ready : Ready f s i item) (quiet : Quiet s t) : Ready f t i item where
  found := ready.found
  alive := live_of_ended ready.alive (by rw [quiet.group]) (quiet.frame i).ended
  untouched := by rw [quiet.log]; exact ready.untouched
  slot := by rw [quiet.results]; exact ready.slot
  logged := ready.logged.of_same quiet.log quiet.failed
  idle := quiet.running.trans ready.idle

theorem Ready.setTask {f : Fanout α β κ σ ε} {s : State α β σ ε} {i : Nat} {item : α}
    (ready : Ready f s i item) (task : Task) :
    Ready f { s with toCall := s.toCall.setTask i task } i item where
  found := ready.found
  alive := live_of_ended ready.alive rfl (by simp [Call.setTask, Call.setChild])
  untouched := ready.untouched
  slot := ready.slot
  logged := ready.logged.of_same rfl rfl
  idle := ready.idle

structure Stepped (f : Fanout α β κ σ ε) (i : Nat) (s t : State α β σ ε) : Prop where
  rest : Local i s t
  item : ItemState f t i
  logged : Call.Logged t.toCall
  running : t.running = none ∨
    t.running = some i ∧ (t.child i).pc.inUser = true ∧ (t.child i).ended = none
  noted : ∀ e ∈ t.log, e ∈ s.log ∨ Call.Noted t.toCall e

theorem Stepped.after {f : Fanout α β κ σ ε} {i : Nat} {s t u : State α β σ ε}
    (before : Local i s t) (log : t.log = s.log) (stepped : Stepped f i t u) : Stepped f i s u :=
  ⟨before.trans stepped.rest, stepped.item, stepped.logged, stepped.running,
    fun e => log ▸ stepped.noted e⟩

theorem enterSlot_stepped {f : Fanout α β κ σ ε} {s : State α β σ ε} {i : Nat} {item : α}
    (ready : Ready f s i item) : Stepped f i s (f.enterSlot s i item) := by
  unfold enterSlot
  split
  · rename_i latched
    have quiet := quiet_release s
    have freed := ready.quiet quiet
    have failed : s.release.failed = true := quiet.failed.trans latched
    have left : Local i s.release (s.release.endTask i .returned) :=
      local_endTask _ freed.alive (by simp)
    refine Stepped.after (quiet.local i) quiet.log
      ⟨left, ?_, freed.logged.of_same rfl rfl, Or.inl rfl, fun _ member => Or.inl member⟩
    exact .skipped item ready.found (endTask_over _ _) freed.untouched freed.slot failed
  · rename_i open_
    simp only [Bool.not_eq_true] at open_
    have alive := ready.alive
    simp only [Scope.live, Bool.and_eq_true, Option.isNone_iff_eq_none] at alive
    have placed := local_setChild (s := s) (i := i) (d := { s.child i with
      pc := .calling (f.timeout.map fun _ => Timeout.enter (s.child i).task) }) rfl rfl
    refine ⟨placed.trans (local_emit _ rfl), ?_, ?_, Or.inr ⟨rfl, ?_, ?_⟩, ?_⟩
    · refine .calling item (f.timeout.map fun _ => Timeout.enter (s.child i).task) ready.found
        ?_ ?_ ?_ ?_ ?_ ready.slot
      · simp [Call.beginCall, Call.emit, Call.setChild]
      · simpa [Call.beginCall, Call.emit, Call.setChild] using alive.2
      · simp
      · intro own entered
        simp only [Option.map_eq_some_iff] at entered
        obtain ⟨_, _, rfl⟩ := entered
        exact Or.inl rfl
      · refine (history_same rfl s.log).trans ?_
        cases f.timeout <;> simp [ready.untouched, opening, Timeout.enter, Timeout.expired]
    · exact ready.logged.called (e := .called i item) open_ rfl rfl rfl
    · simp [Call.beginCall, Call.emit, Call.setChild, Pc.inUser]
    · simpa [Call.beginCall, Call.emit, Call.setChild] using alive.2
    · intro e member
      rcases List.mem_append.mp member with old | new
      · exact Or.inl old
      · obtain rfl := List.mem_singleton.mp new
        exact Or.inr (.harmless rfl (by simp [Event.stopped]))

theorem dropped_stepped {f : Fanout α β κ σ ε} {s : State α β σ ε} {i : Nat} {item : α}
    (ready : Ready f s i item) (flagged : (s.child i).groupCancelled = true) :
    Stepped f i s (s.endTask i .cancelled) where
  rest := local_endTask _ ready.alive (by simp)
  item := .dropped item ready.found (endTask_ended s i (by simp)) ready.untouched ready.slot
    (by simpa [State.endTask, Call.endTask, Call.setChild] using flagged)
  logged := ready.logged.of_same rfl rfl
  running := Or.inl rfl
  noted := fun _ member => Or.inl member

theorem firstStep_stepped {f : Fanout α β κ σ ε} {s : State α β σ ε} {i : Nat} {item : α}
    (ready : Ready f s i item)
    (calm : (s.child i).task.throws = true → (s.child i).groupCancelled = true) :
    Stepped f i s (f.firstStep s i item) := by
  unfold firstStep
  split
  · rename_i throws
    exact dropped_stepped ready (calm throws)
  · rename_i quietly
    split
    · exact enterSlot_stepped ready
    · rename_i sem _
      split
      · have alive := ready.alive
        simp only [Scope.live, Bool.and_eq_true, Option.isNone_iff_eq_none] at alive
        have parked := local_setChild (s := s) (i := i)
          (d := { s.child i with pc := .acquiring, task := (s.child i).task.await }) rfl rfl
        refine ⟨parked.trans ((quiet_sem _ _).local i), ?_, ready.logged.of_same rfl rfl,
          Or.inl ready.idle, fun _ member => Or.inl member⟩
        refine .waiting item ready.found ?_ ?_ ?_ ready.untouched ready.slot
        · simp [Call.setChild, Pc.inUser]
        · simpa [Call.setChild] using alive.2
        · intro throws
          have pending : (s.child i).task.mustCancel = true := by
            simpa [Call.setChild, Task.await_throws] using throws
          simpa [Call.setChild] using calm (by simp [Task.throws, pending])
      · have taken := quiet_sem s (some { sem with value := sem.value - 1 })
        exact Stepped.after (taken.local i) rfl (enterSlot_stepped (ready.quiet taken))

theorem acquired_stepped {f : Fanout α β κ σ ε} {s : State α β σ ε} {i : Nat} {item : α}
    (ready : Ready f s i item)
    (calm : (s.child i).task.throws = true → (s.child i).groupCancelled = true) :
    Stepped f i s (f.acquired s i item) := by
  have resumed : Local i s { s with toCall := s.toCall.setTask i (s.child i).task.resume } :=
    local_setChild rfl rfl
  have leaving := quiet_sem { s with toCall := s.toCall.setTask i (s.child i).task.resume }
    (s.sem.map fun sem => { sem with waiters := sem.waiters.erase i })
  have left := resumed.trans (leaving.local i)
  have again := (ready.setTask (s.child i).task.resume).quiet leaving
  unfold acquired
  dsimp only
  split
  · rename_i throws
    have flagged := calm throws
    split
    · exact Stepped.after left rfl (dropped_stepped again (left.flagged.trans flagged))
    · have handed := quiet_release { s with
        toCall := s.toCall.setTask i (s.child i).task.resume
        sem := s.sem.map fun sem => { sem with waiters := sem.waiters.erase i } }
      refine Stepped.after (left.trans (handed.local i)) handed.log
        (dropped_stepped (again.quiet handed) ?_)
      exact (handed.flagged i).trans (left.flagged.trans flagged)
  · split
    · have woken := quiet_wakeUpNext { s with
        toCall := s.toCall.setTask i (s.child i).task.resume
        sem := s.sem.map fun sem => { sem with waiters := sem.waiters.erase i } }
      exact Stepped.after (left.trans (woken.local i)) woken.log
        (enterSlot_stepped (again.quiet woken))
    · exact Stepped.after left rfl (enterSlot_stepped again)

/-- A `CancelledError` leaves the task of an item only where the call is stopping. -/
def Strict (f : Fanout α β κ σ ε) : Prop :=
  ∀ i item clock call, f.complete i item clock call = .failed .cancelledError → call.stopping = true

theorem local_results (s : State α β σ ε) (i : Nat) (slot : Option σ) :
    Local i s { s with results := s.results.set i slot } where
  step := Call.TaskStep.refl _
  tasks := rfl
  frame := fun _ _ => Frame.refl _
  record := fun _ _ => rfl
  slots := fun _ other => List.getElem?_set_ne (Ne.symm other)
  size := List.length_set ..
  flagged := rfl

theorem release_failed (s : State α β σ ε) (failed : Bool) :
    State.release { s with failed := failed } = { s.release with failed := failed } := by
  unfold State.release State.wakeUpNext
  cases s.sem with
  | none => rfl
  | some sem =>
      simp only [Option.map_some]
      cases (Semaphore.wakeUpNext (fun j => (s.child j).task)
        { sem with value := sem.value + 1 }).2 <;> rfl

/-- Task `i` fails the batch: its slot is released in between, so the latch and the
end of the task are one step here. -/
theorem local_fail {s : State α β σ ε} {i : Nat} (exc : Exc ε) (alive : s.live i = true)
    (strict : exc = .cancelledError → s.stopping = true) :
    Local i s ({ s with failed := true }.release.endTask i exc.taskEnd) := by
  have quiet := quiet_release s
  have freed := live_of_ended alive (by rw [quiet.group]) (quiet.frame i).ended
  have signal : s.stopping = true → s.release.stopping = true := quiet.step.stopping
  have left : Local i s.release ({ s.release with failed := true }.endTask i exc.taskEnd) := by
    refine ⟨Call.TaskStep.endTask freed (fun _ => rfl) (fun error raised => ⟨rfl, ?_⟩) fun _ => ?_,
      rfl, ?_, fun _ _ => rfl, fun _ _ => rfl, rfl, ?_⟩
    · have same := Exc.taskEnd_raised raised
      exact same.1 ▸ same.2
    · by_cases cancelled : exc = .cancelledError
      · exact Or.inl (signal (strict cancelled))
      · exact Or.inr ⟨exc, by cases exc <;> simp_all [Exc.taskEnd]⟩
    · intro j other
      exact Frame.of_eq (by simp [State.endTask, Call.endTask, Call.setChild, other])
    · simp [State.endTask, Call.endTask, Call.setChild]
  rw [release_failed]
  exact (quiet.local i).trans left

theorem finish_stepped {f : Fanout α β κ σ ε} {s : State α β σ ε} {i : Nat} {item : α}
    {cm : Option Timeout} (out : FnEnd β ε) (clock : κ) (strict : f.Strict)
    (sound : Call.Sound s.toCall) (logged : Call.Logged s.toCall) (open_ : s.exit = none)
    (alive : s.live i = true) (found : f.items[i]? = some item)
    (inside : (s.child i).pc = .calling cm) (state : ItemState f s i)
    (stub : ∀ own, f.stub item = some own → out = own) :
    Stepped f i s (f.finish s i item cm out clock) := by
  have ended : (s.child i).ended = none := by
    simp only [Scope.live, Bool.and_eq_true, Option.isNone_iff_eq_none] at alive
    exact alive.2
  obtain ⟨timed, entered, record, slot⟩ : cm.isSome = f.timeout.isSome ∧
      (∀ own, cm = some own → own.state = .entered ∨ own.state = .expiring) ∧
      history i s.log = opening i item (cm.any Timeout.expired) ∧ s.results[i]? = some none := by
    cases state with
    | calling other own foundOther insideOther _ timed entered record slot =>
        obtain rfl : item = other := by simpa [found] using foundOther
        obtain rfl : cm = own := by simpa [inside] using insideOther
        exact ⟨timed, entered, record, slot⟩
    | absent beyond _ => simp [found] at beyond
    | waiting _ _ outside _ _ _ _ => simp [inside, Pc.inUser] at outside
    | skipped _ _ halted _ _ _ => simp [ended] at halted
    | dropped _ _ halted _ _ _ => simp [ended] at halted
    | stored _ _ _ _ _ halted _ _ _ _ _ => simp [ended] at halted
    | failed _ _ _ _ _ halted _ _ _ _ _ _ => simp [ended] at halted
  have faithful := CallEnd.Faithful.of_leave (c := s.toCall) (i := i) (t := (s.child i).task)
    out timed entered fun flag => sound.cancelled_stopping open_ flag
  unfold finish
  dsimp only
  generalize isCall : s.callEnd i out (leaveTimeout cm (s.child i).task out) = call at *
  generalize isTask : (leaveTimeout cm (s.child i).task out).2.2 = task
  have isOut : call.out = out := by rw [← isCall]; rfl
  have isStopping : call.stopping = s.stopping := by rw [← isCall]; rfl
  generalize isResult : f.complete i item clock call = completion
  let noted : State α β σ ε := { s with
    toCall := (s.toCall.setTask i task).emit (.ended i call completion) }
  have taken : Local i s noted :=
    (local_setChild (s := s) (d := { s.child i with task := task }) rfl rfl).trans
      (local_emit s.running rfl)
  have noted_alive : noted.live i = true :=
    live_of_ended alive rfl (by simp [noted, Call.emit, Call.setTask, Call.setChild])
  have noted_record : history i noted.log =
      opening i item call.expired ++ [.ended i call completion] := by
    rw [faithful.2, ← record]
    exact history_same rfl s.log
  have new : ∀ (t : State α β σ ε), t.log = noted.log →
      Call.Noted t.toCall (.ended i call completion) →
      ∀ e ∈ t.log, e ∈ s.log ∨ Call.Noted t.toCall e := by
    intro t log own e member
    rw [log] at member
    rcases List.mem_append.mp member with old | new
    · exact Or.inl old
    · exact Or.inr (List.mem_singleton.mp new ▸ own)
  have signal : ∀ t, Local i s t → call.stopping = true → t.stopping = true :=
    fun t rest stopped => rest.step.stopping (isStopping ▸ stopped)
  cases completion with
  | stored value =>
      have kept := local_results noted i (some value)
      have quiet := quiet_release { noted with results := noted.results.set i (some value) }
      have freed := live_of_ended (t := State.release _) noted_alive (by rw [quiet.group])
        (quiet.frame i).ended
      have halted := local_endTask (i := i) .returned freed (by simp)
      have rest := taken.trans (kept.trans ((quiet.local i).trans halted))
      refine ⟨rest, ?_, ?_, Or.inl rfl, new _ quiet.log (.harmless rfl (signal _ rest))⟩
      · refine .stored item clock call value found (endTask_over _ i) ?_ faithful.1
          (fun own isStub => isOut.trans (stub own isStub)) isResult ?_
        · exact (congrArg (history i) quiet.log).trans noted_record
        · refine (congrArg (·[i]?) quiet.results).trans ?_
          have bound := (List.getElem?_eq_some_iff.mp slot).1
          exact List.getElem?_set_self bound
      · exact logged.noted (e := .ended i call (.stored value)) rfl quiet.log
          (quiet.failed.trans (by simp [noted, Event.fails, Call.emit, Call.setTask, Call.setChild]))
  | failed exc =>
      have fails := local_fail (i := i) exc noted_alive (by
        intro cancelled
        have signal := strict i item clock call (cancelled ▸ isResult)
        exact taken.step.stopping (isStopping ▸ signal))
      have quiet := quiet_release { noted with failed := true }
      have raises : exc.taskEnd ≠ .returned := by cases exc <;> simp [Exc.taskEnd]
      have halted := endTask_ended ({ noted with failed := true }.release) i raises
      have blamed : Call.Noted ({ noted with failed := true }.release.endTask i exc.taskEnd).toCall
          (.ended i call (.failed exc)) := by
        refine ⟨signal _ (taken.trans fails), fun other isOther => ?_, by simp⟩
        obtain rfl : exc = other := Option.some.inj isOther
        by_cases cancelled : exc = .cancelledError
        · exact Or.inl cancelled
        · exact Or.inr ⟨i, halted.trans (congrArg some (Exc.taskEnd_other cancelled))⟩
      refine ⟨taken.trans fails, ?_, ?_, Or.inl rfl, new _ quiet.log blamed⟩
      · refine .failed item clock call exc found halted ?_ faithful.1
          (fun own isStub => isOut.trans (stub own isStub)) isResult ?_ ?_
        · exact (congrArg (history i) quiet.log).trans noted_record
        · exact (congrArg (·[i]?) quiet.results).trans slot
        · exact quiet.failed
      · exact logged.noted (e := .ended i call (.failed exc)) rfl quiet.log
          (quiet.failed.trans (by simp [Event.fails]))

structure Inv (f : Fanout α β κ σ ε) (s : State α β σ ε) : Prop where
  sound : Call.Sound s.toCall
  logged : Call.Logged s.toCall
  item : ∀ i, ItemState f s i
  size : s.results.length = f.items.length
  tasks : ∀ i ∈ s.group.tasks, i < f.items.length
  left : ∀ i, i < f.items.length → i ∉ s.group.tasks → (s.child i).ended ≠ none
  running : ∀ i, s.running = some i → (s.child i).pc.inUser = true ∧ (s.child i).ended = none
  signalled : ∀ i, (s.child i).groupCancelled = true → s.stopping = true
  noted : ∀ e ∈ s.log, Call.Noted s.toCall e

theorem Inv.of_stepped {f : Fanout α β κ σ ε} {s t : State α β σ ε} {i : Nat} (inv : Inv f s)
    (open_ : s.exit = none) (stepped : Stepped f i s t) : Inv f t where
  sound := inv.sound.taskStep stepped.rest.step
    (by rw [stepped.rest.tasks]; exact inv.sound.distinct) open_
  logged := stepped.logged
  item := by
    intro j
    by_cases here : j = i
    · exact here ▸ stepped.item
    · exact (inv.item j).frame (stepped.rest.frame j here) (stepped.rest.record j here)
        (stepped.rest.slots j here) stepped.rest.step.latched
  size := stepped.rest.size.trans inv.size
  tasks := by rw [stepped.rest.tasks]; exact inv.tasks
  left := by
    intro j bound gone
    rw [stepped.rest.tasks] at gone
    cases ended : (s.child j).ended with
    | none => exact absurd ended (inv.left j bound gone)
    | some how => simp [stepped.rest.step.ended j how ended]
  running := by
    intro j running
    rcases stepped.running with idle | ⟨busy, inside, alive⟩
    · simp [idle] at running
    · rw [busy, Option.some.injEq] at running
      exact running ▸ ⟨inside, alive⟩
  signalled := fun j flag =>
    stepped.rest.step.stopping (inv.signalled j (stepped.rest.step.flagged j flag))
  noted := by
    intro e member
    rcases stepped.noted e member with before | now
    · exact (inv.noted e before).kept stepped.rest.step.stopping stepped.rest.step.ended
    · exact now

theorem Inv.loop {f : Fanout α β κ σ ε} {s : State α β σ ε} {call : Call Pc α β σ ε}
    {a : Call.LoopAct} (inv : Inv f s) (stepped : s.toCall.loopStep a = some call) :
    Inv f { s with toCall := call } := by
  obtain ⟨log, failed, running, fewer, gone⟩ := Call.loopStep_same stepped
  have frame := Frame.loopStep stepped
  exact {
    sound := inv.sound.loopStep stepped
    logged := inv.logged.of_same log failed
    item := fun i => (inv.item i).frame (frame i) (congrArg (history i) log) rfl
      fun latched => failed.trans latched
    size := inv.size
    tasks := fun i member => inv.tasks i (fewer i member)
    left := by
      intro i bound absent
      rw [(frame i).ended]
      by_cases member : i ∈ s.group.tasks
      · exact gone i member absent
      · exact inv.left i bound member
    running := by
      intro i busy
      rw [(frame i).pc, (frame i).ended]
      exact inv.running i (running ▸ busy)
    signalled := fun i flag => Call.flagged_loopStep inv.sound stepped flag
    noted := fun e member => (inv.noted e (log ▸ member)).kept
      (fun stopping => Call.stopping_loopStep inv.sound stopping stepped)
      fun j _ found => (frame j).ended.trans found }

theorem ItemState.user {f : Fanout α β κ σ ε} {s t : State α β σ ε} {i : Nat}
    (state : ItemState f s i) (inside : (s.child i).pc.inUser = true)
    (pc : (t.child i).pc = (s.child i).pc) (ended : (t.child i).ended = (s.child i).ended)
    (flag : (t.child i).groupCancelled = (s.child i).groupCancelled)
    (log : t.log = s.log) (slots : t.results = s.results) (latch : t.failed = s.failed) :
    ItemState f t i := by
  cases state with
  | absent beyond untouched => exact .absent beyond (log ▸ untouched)
  | waiting item _ outside _ _ _ _ => simp [inside] at outside
  | calling item cm found place alive timed open_ past empty =>
      exact .calling item cm found (pc.trans place) (ended.trans alive) timed open_ (log ▸ past)
        (slots ▸ empty)
  | skipped item found halted untouched empty failed =>
      exact .skipped item found (ended ▸ halted) (log ▸ untouched) (slots ▸ empty)
        (latch.trans failed)
  | dropped item found halted untouched empty flagged =>
      exact .dropped item found (ended ▸ halted) (log ▸ untouched) (slots ▸ empty)
        (flag.trans flagged)
  | stored item clock call value found halted past faithful stub result kept =>
      exact .stored item clock call value found (ended ▸ halted) (log ▸ past) faithful stub result
        (slots ▸ kept)
  | failed item clock call exc found halted past faithful stub result empty failed =>
      exact .failed item clock call exc found (ended ▸ halted) (log ▸ past) faithful stub result
        (slots ▸ empty) (latch.trans failed)

theorem Inv.user {f : Fanout α β κ σ ε} {s : State α β σ ε} {call : Call Pc α β σ ε}
    {a : Call.UserAct} (inv : Inv f s) (stepped : s.toCall.userStep Pc.inUser a = some call) :
    Inv f { s with toCall := call } := by
  obtain ⟨log, failed, group, open_, ⟨task, child⟩, place, _, running⟩ := Call.userStep_same stepped
  have step := Call.TaskStep.userStep stepped
  have inside : (s.child a.task).pc.inUser = true ∧ (s.child a.task).ended = none := by
    rcases place with ⟨inside, busy | alive⟩
    · exact inv.running _ busy
    · simp only [Scope.live, Bool.and_eq_true, Option.isNone_iff_eq_none] at alive
      exact ⟨inside, alive.2⟩
  have same : ∀ i, (call.child i).pc = (s.child i).pc ∧ (call.child i).ended = (s.child i).ended ∧
      (call.child i).groupCancelled = (s.child i).groupCancelled := by
    intro i
    rw [child, Call.setTask_child]
    split
    · rename_i here
      simp [here]
    · simp
  exact {
    sound := inv.sound.taskStep step (by rw [group]; exact inv.sound.distinct) open_
    logged := inv.logged.of_same log failed
    item := by
      intro i
      by_cases here : i = a.task
      · subst here
        exact (inv.item _).user inside.1 (same _).1 (same _).2.1 (same _).2.2 log rfl failed
      · refine (inv.item i).frame (Frame.of_eq ?_) (congrArg (history i) log) rfl
          fun latched => failed.trans latched
        rw [child, Call.setTask_child, if_neg here]
    size := inv.size
    tasks := by rw [group]; exact inv.tasks
    left := by
      intro i bound gone
      rw [(same i).2.1]
      exact inv.left i bound (group ▸ gone)
    running := by
      intro i busy
      rcases running with idle | own
      · simp [idle] at busy
      · have here : a.task = i := by simpa [own] using busy
        rw [(same i).1, (same i).2.1]
        exact here ▸ inside
    signalled := fun i flag => step.stopping (inv.signalled i ((same i).2.2 ▸ flag))
    noted := fun e member => (inv.noted e (log ▸ member)).kept step.stopping step.ended }

theorem Inv.deadline {f : Fanout α β κ σ ε} {s : State α β σ ε} {i : Nat} {cm : Timeout}
    (inv : Inv f s) (open_ : s.exit = none) (idle : s.running = none) (alive : s.live i = true)
    (inside : (s.child i).pc = .calling (some cm)) (entered : cm.state = .entered) :
    Inv f { s with
      toCall := (s.toCall.setChild i { s.child i with
        pc := .calling (some cm.fire), task := (s.child i).task.cancel }).emit (.deadline i) } := by
  have taken : Local i s { s with
      toCall := (s.toCall.setChild i { s.child i with
        pc := .calling (some cm.fire), task := (s.child i).task.cancel }).emit (.deadline i) } :=
    (local_setChild (s := s) (d := { s.child i with
      pc := .calling (some cm.fire), task := (s.child i).task.cancel }) rfl rfl).trans
      (local_emit s.running rfl)
  simp only [Scope.live, Bool.and_eq_true, Option.isNone_iff_eq_none] at alive
  refine inv.of_stepped open_ ⟨taken, ?_, ?_, Or.inl idle, fun e member => ?_⟩
  · cases inv.item i with
    | calling item own found place _ timed _ record slot =>
        obtain rfl : some cm = own := by simpa [inside] using place
        refine .calling item (some cm.fire) found ?_ ?_ timed ?_ ?_ slot
        · simp [Call.setChild, Call.emit]
        · simpa [Call.setChild, Call.emit] using alive.2
        · rintro _ ⟨rfl⟩
          exact Or.inr rfl
        · refine (history_same rfl s.log).trans ?_
          rw [record]
          simp [opening, Timeout.expired, Timeout.fire, entered]
    | absent beyond _ =>
        have bound := inv.tasks i (by simpa using alive.1)
        simp only [List.getElem?_eq_none_iff] at beyond
        omega
    | waiting _ _ outside _ _ _ _ => simp [inside, Pc.inUser] at outside
    | skipped _ _ halted _ _ _ => simp [alive.2] at halted
    | dropped _ _ halted _ _ _ => simp [alive.2] at halted
    | stored _ _ _ _ _ halted _ _ _ _ _ => simp [alive.2] at halted
    | failed _ _ _ _ _ halted _ _ _ _ _ _ => simp [alive.2] at halted
  · exact inv.logged.noted (e := .deadline i) rfl rfl (by simp [Event.fails, Call.emit, Call.setChild])
  · rcases List.mem_append.mp member with old | new
    · exact Or.inl old
    · obtain rfl := List.mem_singleton.mp new
      exact Or.inr (.harmless rfl (by simp [Event.stopped]))

theorem Inv.ready {f : Fanout α β κ σ ε} {s : State α β σ ε} {i : Nat} {item : α}
    (inv : Inv f s) (idle : s.running = none) (alive : s.live i = true)
    (found : f.items[i]? = some item) (outside : (s.child i).pc.inUser = false) :
    Ready f s i item ∧
      ((s.child i).task.throws = true → (s.child i).groupCancelled = true) := by
  have ended := alive
  simp only [Scope.live, Bool.and_eq_true, Option.isNone_iff_eq_none] at ended
  cases inv.item i with
  | waiting _ _ _ _ calm untouched slot =>
      exact ⟨⟨found, alive, untouched, slot, inv.logged, idle⟩, calm⟩
  | calling _ _ _ inside _ _ _ _ _ => simp [inside, Pc.inUser] at outside
  | absent beyond _ => simp [found] at beyond
  | skipped _ _ halted _ _ _ => simp [ended.2] at halted
  | dropped _ _ halted _ _ _ => simp [ended.2] at halted
  | stored _ _ _ _ _ halted _ _ _ _ _ => simp [ended.2] at halted
  | failed _ _ _ _ _ halted _ _ _ _ _ _ => simp [ended.2] at halted

theorem Inv.step {f : Fanout α β κ σ ε} {s t : State α β σ ε} {a : Act β κ ε}
    (strict : f.Strict) (inv : Inv f s) (stepped : f.step s a = some t) : Inv f t := by
  cases a with
  | loop act =>
      simp only [Fanout.step, Option.map_eq_some_iff] at stepped
      obtain ⟨call, moved, rfl⟩ := stepped
      exact inv.loop moved
  | user act =>
      simp only [Fanout.step] at stepped
      split at stepped
      · simp only [Option.map_eq_some_iff] at stepped
        obtain ⟨call, moved, rfl⟩ := stepped
        exact inv.user moved
      · simp at stepped
  | run i =>
      simp only [Fanout.step, Option.isNone_iff_eq_none] at stepped
      split at stepped
      · rename_i enabled
        obtain ⟨open_, idle, alive⟩ := enabled
        split at stepped
        · rename_i item found place
          simp only [Option.some.injEq] at stepped
          obtain ⟨ready, calm⟩ := inv.ready idle alive found (by simp [place, Pc.inUser])
          exact stepped ▸ inv.of_stepped open_ (firstStep_stepped ready calm)
        · rename_i item found place
          split at stepped
          · simp only [Option.some.injEq] at stepped
            obtain ⟨ready, calm⟩ := inv.ready idle alive found (by simp [place, Pc.inUser])
            exact stepped ▸ inv.of_stepped open_ (acquired_stepped ready calm)
          · simp at stepped
        · simp at stepped
      · simp at stepped
  | deadline i =>
      simp only [Fanout.step, Option.isNone_iff_eq_none] at stepped
      split at stepped
      · rename_i cm inside
        split at stepped
        · rename_i enabled
          obtain ⟨open_, idle, alive, entered⟩ := enabled
          simp only [Option.some.injEq] at stepped
          exact stepped ▸ inv.deadline open_ idle alive inside entered
        · simp at stepped
      · simp at stepped
  | finish i out clock =>
      simp only [Fanout.step, Option.isNone_iff_eq_none] at stepped
      split at stepped
      · rename_i item cm found inside
        split at stepped
        · rename_i enabled
          obtain ⟨open_, _, alive⟩ := enabled
          simp only [Option.some.injEq] at stepped
          refine stepped ▸ inv.of_stepped open_ (finish_stepped ((f.stub item).getD out) clock strict inv.sound inv.logged open_
            alive found inside (inv.item i) fun own isStub => ?_)
          simp [isStub]
        · simp at stepped
      · simp at stepped

theorem Inv.init (f : Fanout α β κ σ ε) (caller : Caller) : Inv f (f.init caller) := by
  have fresh : ∀ i, ((f.init caller).child i) = { pc := .created } := by
    intro i
    simp only [Fanout.init]
    split <;> rfl
  have log : (f.init caller).log = [] := by
    simp only [Fanout.init]
    split <;> rfl
  have failed : (f.init caller).failed = false := by
    simp only [Fanout.init]
    split <;> rfl
  have running : (f.init caller).running = none := by
    simp only [Fanout.init]
    split <;> rfl
  have tasks : (f.init caller).group.tasks = List.range f.items.length := by
    simp only [Fanout.init]
    split <;> rfl
  have sound : Call.Sound (f.init caller).toCall := by
    by_cases none : f.items = []
    · simp only [Fanout.init, none, ↓reduceIte, List.length_nil, List.range_zero]
      constructor
      case toSound => constructor <;> simp [Call.enter, TaskGroup.outcome]
      all_goals simp [Call.enter, Call.stopping, Call.callerCancelled, CancelProbe.cancelled,
        CancelProbe.broughtInALiveCancel]
    · simp only [Fanout.init, none, ↓reduceIte]
      exact Call.Sound.enter caller _ _ (by simpa using none) List.nodup_range (by simp)
  exact {
    sound := sound
    logged := ⟨by simp [failed, log], by simp [log]⟩
    item := by
      intro i
      cases found : f.items[i]? with
      | none => exact .absent found (by simp [log, history])
      | some item =>
          refine .waiting item found ?_ ?_ ?_ (by simp [log, history]) ?_
          · simp [fresh, Pc.inUser]
          · simp [fresh]
          · simp [fresh, Task.throws]
          · have bound := (List.getElem?_eq_some_iff.mp found).1
            simp [Fanout.init, bound]
    size := by simp [Fanout.init]
    tasks := by
      intro i member
      simpa [tasks] using member
    left := by
      intro i bound gone
      simp [tasks, bound] at gone
    running := by simp [running]
    signalled := by simp [fresh]
    noted := by simp [log] }

/-- The invariant holds in every state of every run. -/
theorem inv_of_reaches {f : Fanout α β κ σ ε} {caller : Caller} {s : State α β σ ε}
    (strict : f.Strict) (reached : Runs.Reaches f.step (f.init caller) s) : Inv f s :=
  reached.invariant (fun _ _ _ inv stepped => inv.step strict stepped) (Inv.init f caller)

end Fanout

end AsyncPipelines
