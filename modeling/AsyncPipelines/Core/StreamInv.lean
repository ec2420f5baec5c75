import AsyncPipelines.Core.StreamChecks

/-!
The invariant of `stream` that every run keeps: the stopping signal, the latch
and the log fit together, and every task is where `Placed` allows it to be.
-/

namespace AsyncPipelines

open Asyncio

variable {α β ε : Type}

namespace Stream

structure Inv (c : Stream) (s : State α β ε) : Prop where
  sound : Call.Sound s.toCall
  logged : Call.Logged s.toCall
  placement : Placement s
  tasks : ∀ i ∈ s.group.tasks, i ≤ s.started
  left : ∀ i, i ≤ s.started → i ∉ s.group.tasks → (s.child i).ended ≠ none
  fresh : ∀ i, s.started < i → s.child i = { pc := .created }
  limit : s.started ≤ c.concurrency
  signalled : ∀ i, (s.child i).groupCancelled = true → s.stopping = true
  noted : ∀ e ∈ s.log, Call.Noted s.toCall e

theorem member_of_live {s : State α β ε} {i : Nat} (alive : s.live i = true) :
    i ∈ s.group.tasks ∧ (s.child i).ended = none := by
  simpa [Scope.live] using alive

namespace Inv

variable {c : Stream} {s t : State α β ε}

theorem of_local (inv : Inv c s) {i : Nat} (open_ : s.exit = none) (l : Local i s t)
    (member : i ∈ s.group.tasks) (logged : Call.Logged t.toCall) (placement : Placement t)
    (noted : ∀ e ∈ t.log, e ∈ s.log ∨ Call.Noted t.toCall e) : Inv c t where
  sound := inv.sound.taskStep l.step (by rw [l.tasks]; exact inv.sound.distinct) open_
  logged := logged
  placement := placement
  tasks := by rw [l.tasks, l.started]; exact inv.tasks
  left := by
    intro j bound gone
    rw [l.tasks] at gone
    cases ended : (s.child j).ended with
    | none => exact absurd ended (inv.left j (l.started ▸ bound) gone)
    | some how => simp [l.step.ended j how ended]
  fresh := by
    intro j later
    rw [l.started] at later
    have other : j ≠ i := by
      rintro rfl
      have bound := inv.tasks j member
      omega
    have unused := inv.fresh j later
    rcases l.others j other with same | ⟨pending, _⟩
    · rw [same, unused]
    · simp [unused] at pending
  limit := by rw [l.started]; exact inv.limit
  signalled := fun j flag => l.step.stopping (inv.signalled j (l.step.flagged j flag))
  noted := by
    intro e member
    rcases noted e member with before | now
    · exact (inv.noted e before).kept l.step.stopping l.step.ended
    · exact now

theorem silent (inv : Inv c s) {i : Nat} (open_ : s.exit = none) (l : Local i s t)
    (member : i ∈ s.group.tasks) (log : t.log = s.log) (failed : t.failed = s.failed)
    (placement : Placement t) : Inv c t :=
  inv.of_local open_ l member (inv.logged.of_same log failed) placement
    fun _ found => Or.inl (log ▸ found)

theorem congr (inv : Inv c s) (call : t.toCall = s.toCall) (started : t.started = s.started)
    (getters : t.getters = s.getters) (putters : t.putters = s.putters) : Inv c t where
  sound := call ▸ inv.sound
  logged := call ▸ inv.logged
  placement := inv.placement.congr (by rw [call]) (by rw [call]) getters putters
  tasks := by rw [call, started]; exact inv.tasks
  left := by rw [call, started]; exact inv.left
  fresh := by rw [call, started]; exact inv.fresh
  limit := by rw [started]; exact inv.limit
  signalled := by rw [call]; exact inv.signalled
  noted := by rw [call]; exact inv.noted

theorem emit (inv : Inv c s) {e : Event α β (Slot β ε) ε} (noCall : e.isCall = false)
    (harmless : e.fails = false) (heard : e.stopped = true → s.stopping = true) :
    Inv c (s.emit e) where
  sound := { inv.sound with }
  logged := inv.logged.noted noCall rfl (by simp [State.emit, Call.emit, harmless])
  placement := inv.placement.congr rfl rfl rfl rfl
  tasks := inv.tasks
  left := inv.left
  fresh := inv.fresh
  limit := inv.limit
  signalled := inv.signalled
  noted := by
    intro event member
    rcases List.mem_append.mp member with old | new
    · exact (inv.noted event old).kept id fun _ _ found => found
    · obtain rfl := List.mem_singleton.mp new
      exact .harmless harmless heard

theorem wakeGetter (inv : Inv c s) {i : Nat} (open_ : s.exit = none) (member : i ∈ s.group.tasks) :
    Inv c s.wakeGetter :=
  inv.silent open_ (Local.wakeGetter s (i := i)) member (fulfil_kept _ _).2.1 (fulfil_kept _ _).1
    inv.placement.wakeGetter

theorem wakePutter (inv : Inv c s) {i : Nat} (open_ : s.exit = none) (member : i ∈ s.group.tasks) :
    Inv c s.wakePutter :=
  inv.silent open_ (Local.wakePutter s (i := i)) member (fulfil_kept _ _).2.1 (fulfil_kept _ _).1
    inv.placement.wakePutter

theorem endTask (inv : Inv c s) {i : Nat} {ended : TaskEnd (Exc ε)} (open_ : s.exit = none)
    (alive : s.live i = true) (cpu : s.running = none ∨ s.running = some i)
    (notListed : i ∉ s.getters ∧ i ∉ s.putters) (quietly : ∀ error, ended ≠ .raised error) :
    Inv c (s.endTask i ended) :=
  inv.silent open_ (Local.ends alive quietly) (member_of_live alive).1 rfl rfl
    (inv.placement.ends cpu notListed)

theorem fails (inv : Inv c s) {i : Nat} {exc : Exc ε} {e : Event α β (Slot β ε) ε}
    (open_ : s.exit = none) (alive : s.live i = true)
    (cpu : s.running = none ∨ s.running = some i) (notListed : i ∉ s.getters ∧ i ∉ s.putters)
    (noCall : e.isCall = false) (fails : e.fails = true)
    (strict : exc = .cancelledError → s.stopping = true) (failure : e.failure? = some exc)
    (heard : e.stopped = true → s.stopping = true)
    (source : ∀ caught stopping groupCancelled other,
      e = .sourceFailed caught stopping groupCancelled other →
        (groupCancelled = true → stopping = true) ∧
        other = strayCancellationAsError caught stopping none (some "the producer")) :
    Inv c ({ s.emit e with failed := true }.endTask i exc.taskEnd) := by
  have noted : Local i s (s.emit e) := Local.of_child (d := s.child i) rfl rfl
    (by simp [State.emit, Call.emit, Call.setChild]) rfl rfl rfl rfl
  have l := noted.trans (Local.fails (s := s.emit e) alive strict)
  refine inv.of_local open_ l (member_of_live alive).1 ?_ ?_ ?_
  · exact inv.logged.noted noCall rfl (by rw [fails, Bool.or_true]; rfl)
  · have placed : Placement { s.emit e with failed := true } :=
      inv.placement.congr rfl rfl rfl rfl
    exact placed.ends cpu notListed
  · intro event member
    rcases List.mem_append.mp member with old | new
    · exact Or.inl old
    · obtain rfl := List.mem_singleton.mp new
      refine Or.inr ⟨fun stopped => l.step.stopping (heard stopped), fun other isOther => ?_, source⟩
      obtain rfl : exc = other := Option.some.inj (failure.symm.trans isOther)
      by_cases cancelled : exc = .cancelledError
      · exact Or.inl cancelled
      · refine Or.inr ⟨i, (Call.endTask_ended _ _ _ _).trans ?_⟩
        simp [Exc.taskEnd_other cancelled]

theorem stray_strict {caught : Exc ε} {stopping : Bool} {index : Option Nat} {origin : Option String}
    (cancelled : strayCancellationAsError caught stopping index origin = .cancelledError) :
    stopping = true := by
  unfold strayCancellationAsError at cancelled
  split at cancelled
  · rename_i kept
    simpa [cancelled, Exc.isCancelledError] using kept
  · simp at cancelled

theorem failSource (inv : Inv c s) {caught : Exc ε} (open_ : s.exit = none)
    (alive : s.live 0 = true) (cpu : s.running = none ∨ s.running = some 0)
    (notListed : 0 ∉ s.getters ∧ 0 ∉ s.putters) : Inv c (s.failSource caught) :=
  inv.fails open_ alive cpu notListed rfl rfl stray_strict rfl id
    (by rintro _ _ _ _ ⟨rfl⟩; exact ⟨inv.signalled 0, rfl⟩)

theorem goesOn (inv : Inv c s) {i : Nat} {d : Child (Pc α) (Exc ε)} (open_ : s.exit = none)
    (alive : s.live i = true) (cpu : s.running = none ∨ s.running = some i)
    (notListed : i ∉ s.getters ∧ i ∉ s.putters) (ended : d.ended = none)
    (flag : d.groupCancelled = (s.child i).groupCancelled)
    (place : d.pc.inUser = true ∨ d.pc.atWork = true)
    (clean : d.pc.atWork = true → d.pc ≠ .looping → d.groupCancelled = false)
    (produces : d.pc.produces = true → i = 0) (consumes : d.pc.consumes = true → i ≠ 0)
    (scope : t.toScope = (s.toCall.setChild i d).toScope) (rearms : t.rearms = s.rearms)
    (caller : t.caller = s.caller) (failed : t.failed = s.failed) (running : t.running = some i)
    (log : t.log = s.log) (started : t.started = s.started) (getters : t.getters = s.getters)
    (putters : t.putters = s.putters) : Inv c t := by
  have l : Local i s t := Local.of_child (ended.trans (member_of_live alive).2.symm) flag scope rearms
    caller failed started
  exact inv.silent open_ l (member_of_live alive).1 log failed
    (inv.placement.goesOn cpu notListed ended place clean produces consumes (by rw [scope]; rfl)
      running getters putters)

theorem enter (inv : Inv c s) {i : Nat} {pc : Pc α} (at_ : Idle s i)
    (notListed : i ∉ s.getters ∧ i ∉ s.putters) (place : pc.inUser = true ∨ pc.atWork = true)
    (clean : pc.atWork = true → pc ≠ .looping → (s.child i).groupCancelled = false)
    (produces : pc.produces = true → i = 0) (consumes : pc.consumes = true → i ≠ 0) :
    Inv c (s.enter i pc) :=
  inv.goesOn (d := { s.child i with pc := pc, task := (s.child i).task.resume }) at_.open_
    at_.alive (Or.inl at_.idle) notListed (member_of_live at_.alive).2 rfl place clean produces
    consumes rfl rfl rfl rfl rfl rfl rfl rfl rfl

theorem goto (inv : Inv c s) {i : Nat} {pc : Pc α} (at_ : Busy s i)
    (notListed : i ∉ s.getters ∧ i ∉ s.putters) (place : pc.inUser = true ∨ pc.atWork = true)
    (clean : pc.atWork = true → pc ≠ .looping → (s.child i).groupCancelled = false)
    (produces : pc.produces = true → i = 0) (consumes : pc.consumes = true → i ≠ 0) :
    Inv c (s.goto i pc) :=
  inv.goesOn (d := { s.child i with pc := pc }) at_.open_ at_.alive (Or.inr at_.busy) notListed
    (member_of_live at_.alive).2 rfl place clean produces consumes rfl rfl rfl rfl at_.busy rfl rfl
    rfl rfl

theorem spawn (inv : Inv c s) (open_ : s.exit = none) (calm : s.stopping = false) :
    Inv c (s.spawn c) := by
  unfold State.spawn
  split
  · rename_i room
    simp only [Bool.and_eq_true, decide_eq_true_eq] at room
    have unused : s.started + 1 ∉ s.group.tasks := by
      intro member
      have bound := inv.tasks _ member
      omega
    have idle : s.group.aborting = false := by
      rw [← Bool.not_eq_true]
      intro aborting
      simp [inv.sound.aborting_stopping open_ aborting] at calm
    have step : Call.TaskStep s.toCall { s.toCall with
        group := { s.group with tasks := s.group.tasks ++ [s.started + 1] } } := {
      parent := rfl
      exit := rfl
      group := ⟨[s.started + 1], rfl, fun _ => idle⟩
      ended := fun _ _ found => found
      flagged := fun _ found => found
      kept := fun _ _ found => found
      raised := fun _ _ found => Or.inl found
      rearms := rfl
      caller := rfl
      latched := id
      cause := fun failed => Or.inl ((Call.stopping_iff _).mpr (Or.inl failed))
      blamed := fun _ _ found => Or.inl found }
    have distinct : (s.group.tasks ++ [s.started + 1]).Nodup :=
      List.nodup_append.mpr ⟨inv.sound.distinct, by simp, by
        intro j member k isNew
        rw [List.mem_singleton.mp isNew]
        exact fun same => unused (same ▸ member)⟩
    exact {
      sound := inv.sound.taskStep step distinct open_
      logged := inv.logged.of_same rfl rfl
      placement := inv.placement.congr rfl rfl rfl rfl
      tasks := by
        intro i member
        rcases List.mem_append.mp member with old | new
        · exact Nat.le_succ_of_le (inv.tasks i old)
        · exact le_of_eq (List.mem_singleton.mp new)
      left := by
        intro i bound gone
        simp only [List.mem_append, List.mem_singleton, not_or] at gone
        have bound : i ≤ s.started + 1 := bound
        exact inv.left i (by omega) gone.1
      fresh := by
        intro i later
        have later : s.started + 1 < i := later
        exact inv.fresh i (by omega)
      limit := room.1
      signalled := inv.signalled
      noted := fun e member => (inv.noted e member).kept id fun _ _ found => found }
  · exact inv

theorem loop (inv : Inv c s) {act : Call.LoopAct} {call : Call (Pc α) α β (Slot β ε) ε}
    (calm : ∀ i, s.running = some i → (s.child i).pc.inUser = true)
    (moved : s.toCall.loopStep act = some call) : Inv c { s with toCall := call } := by
  obtain ⟨log, failed, _, fewer, gone⟩ := Call.loopStep_same moved
  exact {
    sound := inv.sound.loopStep moved
    logged := inv.logged.of_same log failed
    placement := inv.placement.loop calm moved
    tasks := fun i member => inv.tasks i (fewer i member)
    left := by
      intro i bound absent
      show (call.child i).ended ≠ none
      rw [(Frame.loopStep moved i).ended]
      by_cases member : i ∈ s.group.tasks
      · exact gone i member absent
      · exact inv.left i bound member
    fresh := by
      intro i later
      show call.child i = _
      have unused := inv.fresh i later
      have absent : i ∉ s.group.tasks := by
        intro member
        have bound := inv.tasks i member
        have later : s.started < i := later
        omega
      rw [Call.loopStep_other moved absent, unused]
    limit := inv.limit
    signalled := fun i flag => Call.flagged_loopStep inv.sound moved flag
    noted := fun e member => (inv.noted e (log ▸ member)).kept
      (fun stopping => Call.stopping_loopStep inv.sound stopping moved)
      fun j how found => (Frame.loopStep moved j).ended.trans found }

theorem user (inv : Inv c s) {act : Call.UserAct} {call : Call (Pc α) α β (Slot β ε) ε}
    (moved : s.toCall.userStep Pc.inUser act = some call) : Inv c { s with toCall := call } := by
  obtain ⟨log, failed, group, open_, ⟨task, child⟩, ⟨inside, place⟩, _, _⟩ := Call.userStep_same moved
  have own : Local act.task s { s with toCall := call } := {
    step := Call.TaskStep.userStep moved
    tasks := by rw [group]
    started := rfl
    others := by
      intro j other
      left
      show call.child j = _
      rw [child, Call.setTask_child, if_neg other]
    flagged := by
      show (call.child act.task).groupCancelled = _
      rw [child, Call.setTask_child, if_pos rfl] }
  have alive : (s.child act.task).ended = none := by
    rcases place with busy | alive
    · exact ((inv.placement.each _).onCpu busy).1
    · exact (member_of_live alive).2
  have member : act.task ∈ s.group.tasks := by
    by_contra absent
    have bound : ¬ act.task ≤ s.started := fun bound => inv.left _ bound absent alive
    have unused := inv.fresh act.task (by omega)
    simp [unused, Pc.inUser] at inside
  exact inv.silent open_ own member log failed (inv.placement.user moved)

theorem calm_clean (inv : Inv c s) {i : Nat} (alive : s.live i = true)
    (waits : (s.child i).pc.waiting = true) (calm : (s.child i).task.throws = false) :
    (s.child i).groupCancelled = false := by
  rw [← Bool.not_eq_true]
  intro flag
  have throws := (inv.placement.each i).flagged (member_of_live alive).2 (Or.inl waits) flag
  simp [throws] at calm

theorem leaves (inv : Inv c s) {i : Nat} (at_ : Idle s i) (l : Local i s t)
    (log : t.log = s.log) (failed : t.failed = s.failed) (running : t.running = s.running)
    (placement : Placement t) (child : t.child i = s.child i) :
    Inv c t ∧ t.exit = none ∧ t.live i = true ∧ t.running = none :=
  ⟨inv.silent at_.open_ l (member_of_live at_.alive).1 log failed placement,
    l.step.exit.trans at_.open_, l.live (by rw [child]) at_.alive, running.trans at_.idle⟩

end Inv

theorem spawn_kept (c : Stream) (s : State α β ε) :
    ((s.spawn c).exit = s.exit ∧ (s.spawn c).running = s.running ∧
        ∀ i, s.live i = true → (s.spawn c).live i = true) ∧
      (∀ i, (s.spawn c).child i = s.child i) ∧
      ∀ i, i ∉ s.getters ∧ i ∉ s.putters → i ∉ (s.spawn c).getters ∧ i ∉ (s.spawn c).putters := by
  unfold State.spawn
  split
  · refine ⟨⟨rfl, rfl, fun i alive => ?_⟩, fun _ => rfl, fun _ => id⟩
    obtain ⟨member, ended⟩ := member_of_live alive
    simp [Scope.live, member, ended]
  · exact ⟨⟨rfl, rfl, fun _ => id⟩, fun _ => rfl, fun _ => id⟩

theorem leaveGet_kept (s : State α β ε) (i : Nat) (notPending : (s.child i).task.waiter ≠ some .pending) :
    (s.leaveGet i).log = s.log ∧ (s.leaveGet i).failed = s.failed ∧
      (s.leaveGet i).running = s.running ∧ (s.leaveGet i).putters = s.putters ∧
      (s.leaveGet i).child i = s.child i ∧
      ∀ j ∈ (s.leaveGet i).getters, j ∈ s.getters.erase i := by
  unfold State.leaveGet
  dsimp only
  split
  · have kept := fulfil_kept s.toCall
      (wakeupNext (fun j => (s.child j).task) (s.getters.erase i)).2
    refine ⟨kept.2.1, kept.1, kept.2.2.1, rfl, ?_,
      fun j member => (wakeupNext_suffix _ _).subset member⟩
    show (s.toCall.fulfil (wakeupNext (fun j => (s.child j).task) (s.getters.erase i)).2).child i = _
    rw [Call.fulfil_child, if_neg]
    exact fun woken => notPending ((wakeupNext_spec _ _).1 i woken).1
  · exact ⟨rfl, rfl, rfl, rfl, rfl, fun _ member => member⟩

theorem leavePut_kept (s : State α β ε) (c : Stream) (i : Nat)
    (notPending : (s.child i).task.waiter ≠ some .pending) :
    (s.leavePut c i).log = s.log ∧ (s.leavePut c i).failed = s.failed ∧
      (s.leavePut c i).running = s.running ∧ (s.leavePut c i).getters = s.getters ∧
      (s.leavePut c i).child i = s.child i ∧
      ∀ j ∈ (s.leavePut c i).putters, j ∈ s.putters.erase i := by
  unfold State.leavePut
  dsimp only
  split
  · have kept := fulfil_kept s.toCall
      (wakeupNext (fun j => (s.child j).task) (s.putters.erase i)).2
    refine ⟨kept.2.1, kept.1, kept.2.2.1, rfl, ?_,
      fun j member => (wakeupNext_suffix _ _).subset member⟩
    show (s.toCall.fulfil (wakeupNext (fun j => (s.child j).task) (s.putters.erase i)).2).child i = _
    rw [Call.fulfil_child, if_neg]
    exact fun woken => notPending ((wakeupNext_spec _ _).1 i woken).1
  · exact ⟨rfl, rfl, rfl, rfl, rfl, fun _ member => member⟩

namespace Inv

variable {c : Stream} {s t : State α β ε}

theorem leaveGet (inv : Inv c s) {i : Nat} (at_ : Idle s i) (place : (s.child i).pc = .getting)
    (notPending : (s.child i).task.waiter ≠ some .pending) :
    Inv c (s.leaveGet i) ∧ Idle (s.leaveGet i) i ∧
      (i ∉ (s.leaveGet i).getters ∧ i ∉ (s.leaveGet i).putters) := by
  obtain ⟨log, failed, running, putters, child, getters⟩ := leaveGet_kept s i notPending
  obtain ⟨left, open_, alive, idle⟩ := inv.leaves at_ (Local.leaveGet s) log failed running
    (inv.placement.leaveGet notPending) child
  refine ⟨left, ⟨open_, idle, alive⟩, fun member => ?_, fun member => ?_⟩
  · exact inv.placement.getters.not_mem_erase (getters i member)
  · have puts := ((inv.placement.each i).inDeque' (putters ▸ member)).1
    simp [place, Pc.puts] at puts

theorem leavePut (inv : Inv c s) {i : Nat} (at_ : Idle s i) (place : (s.child i).pc.puts = true)
    (notPending : (s.child i).task.waiter ≠ some .pending) :
    Inv c (s.leavePut c i) ∧ Idle (s.leavePut c i) i ∧
      (i ∉ (s.leavePut c i).getters ∧ i ∉ (s.leavePut c i).putters) := by
  obtain ⟨log, failed, running, getters, child, putters⟩ := leavePut_kept s c i notPending
  obtain ⟨left, open_, alive, idle⟩ := inv.leaves at_ (Local.leavePut s c) log failed running
    (inv.placement.leavePut notPending) child
  refine ⟨left, ⟨open_, idle, alive⟩, fun member => ?_, fun member => ?_⟩
  · have gets := ((inv.placement.each i).inDeque (getters ▸ member)).1
    cases pc : (s.child i).pc <;> simp_all [Pc.gets, Pc.puts]
  · exact inv.placement.putters.not_mem_erase (putters i member)

theorem pop (inv : Inv c s) {i : Nat} (rest : List (Option α)) (at_ : Busy s i)
    (notListed : i ∉ s.getters ∧ i ∉ s.putters) :
    Inv c { s with queue := rest }.wakePutter ∧ Busy { s with queue := rest }.wakePutter i ∧
      (i ∉ { s with queue := rest }.wakePutter.getters ∧
        i ∉ { s with queue := rest }.wakePutter.putters) ∧
      { s with queue := rest }.wakePutter.child i = s.child i := by
  have shorter : Inv c { s with queue := rest } := inv.congr rfl rfl rfl rfl
  have member := (member_of_live at_.alive).1
  have taken := shorter.wakePutter at_.open_ member
  have kept := fulfil_kept s.toCall (wakeupNext (fun j => (s.child j).task) s.putters).2
  have child : { s with queue := rest }.wakePutter.child i = s.child i := by
    show (s.toCall.fulfil (wakeupNext (fun j => (s.child j).task) s.putters).2).child i = _
    rw [Call.fulfil_child, if_neg]
    exact fun woken => notListed.2 ((wakeupNext_spec _ _).1 i woken).2
  have l : Local i s { s with queue := rest }.wakePutter :=
    Local.fulfil rfl rfl fun j woken => ((wakeupNext_spec _ s.putters).1 j woken).1
  refine ⟨taken, ⟨kept.2.2.2.2.1.trans at_.open_, kept.2.2.1.trans at_.busy,
    l.live (by rw [child]) at_.alive⟩, ⟨notListed.1, fun listed => ?_⟩, child⟩
  exact notListed.2 ((wakeupNext_suffix _ _).subset listed)

theorem putNowait (inv : Inv c s) {i : Nat} (entry : Option α) (at_ : Busy s i)
    (notListed : i ∉ s.getters ∧ i ∉ s.putters) :
    Inv c (s.putNowait entry) ∧ Busy (s.putNowait entry) i ∧
      (i ∉ (s.putNowait entry).getters ∧ i ∉ (s.putNowait entry).putters) ∧
      (s.putNowait entry).child i = s.child i := by
  have longer : Inv c { s with queue := s.queue ++ [entry] } := inv.congr rfl rfl rfl rfl
  have member := (member_of_live at_.alive).1
  have given := longer.wakeGetter at_.open_ member
  have kept := fulfil_kept s.toCall (wakeupNext (fun j => (s.child j).task) s.getters).2
  have child : (s.putNowait entry).child i = s.child i := by
    show (s.toCall.fulfil (wakeupNext (fun j => (s.child j).task) s.getters).2).child i = _
    rw [Call.fulfil_child, if_neg]
    exact fun woken => notListed.1 ((wakeupNext_spec _ _).1 i woken).2
  have l : Local i s (s.putNowait entry) :=
    Local.fulfil rfl rfl fun j woken => ((wakeupNext_spec _ s.getters).1 j woken).1
  refine ⟨given, ⟨kept.2.2.2.2.1.trans at_.open_, kept.2.2.1.trans at_.busy,
    l.live (by rw [child]) at_.alive⟩, ⟨fun listed => ?_, notListed.2⟩, child⟩
  exact notListed.1 ((wakeupNext_suffix _ _).subset listed)

theorem park (inv : Inv c s) {i : Nat} {pc : Pc α} (at_ : Busy s i) {getters putters : List Nat}
    (placement : Placement { s.park i pc with getters := getters, putters := putters }) :
    Inv c { s.park i pc with getters := getters, putters := putters } := by
  have l : Local i s { s.park i pc with getters := getters, putters := putters } :=
    Local.of_child (d := { s.child i with pc := pc, task := (s.child i).task.await }) rfl rfl rfl
      rfl rfl rfl rfl
  exact inv.silent at_.open_ l (member_of_live at_.alive).1 rfl rfl placement

theorem call (inv : Inv c s) {i index : Nat} {item : α} {cm : Option Timeout} {next : Nat}
    (at_ : Busy s i) (notListed : i ∉ s.getters ∧ i ∉ s.putters) (consumer : i ≠ 0)
    (open_ : s.failed = false) :
    Inv c { s with
      toCall := s.toCall.beginCall i (.calling index item cm) index item
      consumedIndex := next } := by
  have ended := (member_of_live at_.alive).2
  have l : Local i s { s with
      toCall := s.toCall.beginCall i (.calling index item cm) index item
      consumedIndex := next } :=
    Local.of_child (d := { s.child i with pc := .calling index item cm }) rfl rfl rfl rfl rfl
      rfl rfl
  refine inv.of_local at_.open_ l (member_of_live at_.alive).1 ?_ ?_ ?_
  · exact inv.logged.called (e := .called index item) open_ rfl rfl rfl
  · exact inv.placement.goesOn (d := { s.child i with pc := .calling index item cm })
      (Or.inr at_.busy) notListed ended (Or.inl rfl) (by simp [Pc.atWork]) (by simp [Pc.produces])
      (fun _ => consumer) rfl rfl rfl rfl
  · intro e member
    rcases List.mem_append.mp member with old | new
    · exact Or.inl old
    · exact Or.inr (List.mem_singleton.mp new ▸ Call.Noted.harmless rfl (by simp [Event.stopped]))

/-- A task that runs library code is in no deque, and the group has not cancelled
it, except that it may have returned from `fn` since. -/
theorem atWork (inv : Inv c s) {i : Nat} (at_ : Busy s i) (work : (s.child i).pc.atWork = true) :
    (i ∉ s.getters ∧ i ∉ s.putters) ∧
      ((s.child i).pc ≠ .looping → (s.child i).groupCancelled = false) := by
  have outside : (s.child i).pc.waiting = false := by
    cases pc : (s.child i).pc <;> simp_all [Pc.atWork, Pc.waiting, Pc.gets, Pc.puts]
  exact ⟨inv.placement.notListed outside,
    (inv.placement.each i).clean (member_of_live at_.alive).2 work⟩

theorem fire (inv : Inv c s) {i index : Nat} {item : α} {cm : Option Timeout} (at_ : Idle s i)
    (place : (s.child i).pc = .calling index item cm) (fired : Option Timeout) :
    Inv c (s.setChild i { s.child i with
      pc := .calling index item fired, task := (s.child i).task.cancel }) := by
  have ended := (member_of_live at_.alive).2
  have own := inv.placement.each i
  have outside : (s.child i).pc.waiting = false := by simp [place, Pc.waiting, Pc.gets, Pc.puts]
  have l : Local i s (s.setChild i { s.child i with
      pc := .calling index item fired, task := (s.child i).task.cancel }) :=
    Local.of_child (d := { s.child i with
      pc := .calling index item fired, task := (s.child i).task.cancel }) rfl rfl rfl rfl rfl rfl rfl
  refine inv.silent at_.open_ l (member_of_live at_.alive).1 rfl rfl ?_
  obtain ⟨noGetter, noPutter⟩ := inv.placement.notListed outside
  refine inv.placement.update (i := i) ?_ (fun _ _ => Iff.rfl) (fun _ _ => Iff.rfl)
    (fun _ _ => Iff.rfl) inv.placement.getters inv.placement.putters ?_
  · intro j other
    simp [State.setChild, Call.setChild, other]
  · have consumer := own.consumes (by simp [place, Pc.consumes])
    refine .inside ?_ ?_ ?_ ?_ noGetter noPutter <;>
      simp [State.setChild, Call.setChild, ended, consumer, Pc.inUser, Pc.produces]

theorem finish (inv : Inv c s) {i index : Nat} {item : α} {cm : Option Timeout} (task : Task)
    (at_ : Busy s i) (place : (s.child i).pc = .calling index item cm) :
    Inv c (s.setChild i { s.child i with task := task }) ∧
      Busy (s.setChild i { s.child i with task := task }) i ∧
      (i ∉ s.getters ∧ i ∉ s.putters) ∧ i ≠ 0 := by
  have ended := (member_of_live at_.alive).2
  have outside : (s.child i).pc.waiting = false := by simp [place, Pc.waiting, Pc.gets, Pc.puts]
  have notListed := inv.placement.notListed outside
  have consumer : i ≠ 0 := (inv.placement.each i).consumes (by simp [place, Pc.consumes])
  have l : Local i s (s.setChild i { s.child i with task := task }) :=
    Local.of_child (d := { s.child i with task := task }) rfl rfl rfl rfl rfl rfl rfl
  refine ⟨?_, ⟨at_.open_, at_.busy, ?_⟩, notListed, consumer⟩
  · exact inv.goesOn (d := { s.child i with task := task }) at_.open_ at_.alive
      (Or.inr at_.busy) notListed ended rfl (Or.inl (by simp [place, Pc.inUser]))
      (by simp [place, Pc.atWork]) (by simp [place, Pc.produces]) (fun _ => consumer) rfl rfl rfl
      rfl at_.busy rfl rfl rfl rfl
  · exact l.live (by simp [State.setChild, Call.setChild]) at_.alive

theorem moves (inv : Inv c s) (moved : Moves c s t) : Inv c t := by
  cases moved with
  | loop act call calm moved => exact inv.loop calm moved
  | user act call moved => exact inv.user moved
  | late act at_ begun =>
      have l : Local act.task s (s.setChild act.task { s.child act.task with
          task := act.after (s.child act.task).task }) :=
        Local.of_child (d := { s.child act.task with
          task := act.after (s.child act.task).task }) rfl rfl rfl rfl rfl rfl rfl
      exact inv.silent at_.open_ l (member_of_live at_.alive).1 rfl rfl (inv.placement.late act begun)
  | dropped i at_ place throws =>
      have notListed := inv.placement.notListed (i := i) (by simp [place, Pc.waiting, Pc.gets, Pc.puts])
      exact inv.endTask at_.open_ at_.alive (Or.inl at_.idle) notListed (by simp)
  | started i at_ place calm =>
      have notListed := inv.placement.notListed (i := i) (by simp [place, Pc.waiting, Pc.gets, Pc.puts])
      by_cases producer : i = 0
      · rw [if_pos producer]
        exact inv.enter at_ notListed (Or.inl rfl) (by simp [Pc.atWork]) (fun _ => producer)
          (by simp [Pc.consumes])
      · rw [if_neg producer]
        exact inv.enter at_ notListed (Or.inr rfl) (by simp) (by simp [Pc.produces]) fun _ => producer
  | putDenied i item at_ place throws notPending =>
      obtain rfl : i = 0 := (inv.placement.each i).produces (by simp [place, Pc.produces])
      obtain ⟨left, idle, notListed⟩ := inv.leavePut (c := c) at_ (by simp [place, Pc.puts]) notPending
      exact left.failSource idle.open_ idle.alive (Or.inl idle.idle) notListed
  | putWoken i item at_ place done calm =>
      have producer := (inv.placement.each i).produces (by simp [place, Pc.produces])
      have clean := inv.calm_clean at_.alive (by simp [place, Pc.waiting, Pc.puts]) calm
      exact inv.enter at_ (inv.placement.notListed_done done) (Or.inr rfl) (fun _ _ => clean)
        (fun _ => producer) (by simp [Pc.consumes])
  | sentinelDenied i left at_ place throws notPending =>
      obtain ⟨left, idle, notListed⟩ := inv.leavePut (c := c) at_ (by simp [place, Pc.puts]) notPending
      exact left.endTask idle.open_ idle.alive (Or.inl idle.idle) notListed (by simp)
  | sentinelWoken i left at_ place done calm =>
      have producer := (inv.placement.each i).produces (by simp [place, Pc.produces])
      have clean := inv.calm_clean at_.alive (by simp [place, Pc.waiting, Pc.puts]) calm
      exact inv.enter at_ (inv.placement.notListed_done done) (Or.inr rfl) (fun _ _ => clean)
        (fun _ => producer) (by simp [Pc.consumes])
  | getDenied i at_ place throws notPending =>
      obtain ⟨left, idle, notListed⟩ := inv.leaveGet at_ place notPending
      exact left.endTask idle.open_ idle.alive (Or.inl idle.idle) notListed (by simp)
  | getWoken i at_ place done calm =>
      have consumer := (inv.placement.each i).consumes (by simp [place, Pc.consumes])
      have clean := inv.calm_clean at_.alive (by simp [place, Pc.waiting, Pc.gets]) calm
      exact inv.enter at_ (inv.placement.notListed_done done) (Or.inr rfl) (fun _ _ => clean)
        (by simp [Pc.produces]) fun _ => consumer
  | putWaits i item at_ place full =>
      obtain ⟨notListed, clean⟩ := inv.atWork at_ (by simp [place, Pc.atWork])
      have producer := (inv.placement.each i).produces (by simp [place, Pc.produces])
      exact inv.park at_ (inv.placement.parkPut at_.busy notListed (clean (by simp [place])) producer rfl)
  | put i item at_ place room metrics =>
      obtain ⟨notListed, _⟩ := inv.atWork at_ (by simp [place, Pc.atWork])
      have producer := (inv.placement.each i).produces (by simp [place, Pc.produces])
      obtain ⟨given, busy, notListed, _⟩ := inv.putNowait (some item) at_ notListed
      have counted : Inv c { s.putNowait (some item) with metrics := metrics } :=
        given.congr rfl rfl rfl rfl
      exact counted.goto ⟨busy.open_, busy.busy, busy.alive⟩ notListed (Or.inl rfl)
        (by simp [Pc.atWork]) (fun _ => producer) (by simp [Pc.consumes])
  | produced i at_ place =>
      obtain ⟨notListed, _⟩ := inv.atWork at_ (by simp [place, Pc.atWork])
      exact inv.endTask at_.open_ at_.alive (Or.inr at_.busy) notListed (by simp)
  | sentinelWaits i left at_ place full =>
      obtain ⟨notListed, clean⟩ := inv.atWork at_ (by simp [place, Pc.atWork])
      have producer := (inv.placement.each i).produces (by simp [place, Pc.produces])
      exact inv.park at_ (inv.placement.parkPut at_.busy notListed (clean (by simp [place])) producer rfl)
  | sentinelPut i left at_ place room =>
      obtain ⟨notListed, clean⟩ := inv.atWork at_ (by simp [place, Pc.atWork])
      have producer := (inv.placement.each i).produces (by simp [place, Pc.produces])
      obtain ⟨given, busy, notListed, child⟩ := inv.putNowait none at_ notListed
      exact given.goto busy notListed (Or.inr rfl) (fun _ _ => child ▸ clean (by simp [place]))
        (fun _ => producer) (by simp [Pc.consumes])
  | stopped i at_ place stopping =>
      obtain ⟨notListed, _⟩ := inv.atWork at_ (by simp [place, Pc.atWork])
      exact inv.endTask at_.open_ at_.alive (Or.inr at_.busy) notListed (by simp)
  | looped i at_ place running =>
      obtain ⟨notListed, _⟩ := inv.atWork at_ (by simp [place, Pc.atWork])
      have consumer := (inv.placement.each i).consumes (by simp [place, Pc.consumes])
      have clean : (s.child i).groupCancelled = false := by
        rw [← Bool.not_eq_true]
        intro flag
        simp [inv.signalled i flag] at running
      exact inv.goto at_ notListed (Or.inr rfl) (fun _ _ => clean) (by simp [Pc.produces])
        fun _ => consumer
  | getWaits i at_ place empty =>
      obtain ⟨notListed, clean⟩ := inv.atWork at_ (by simp [place, Pc.atWork])
      have consumer := (inv.placement.each i).consumes (by simp [place, Pc.consumes])
      exact inv.park at_ (inv.placement.parkGet at_.busy notListed (clean (by simp [place])) consumer)
  | gotSentinel i rest at_ place entry =>
      obtain ⟨notListed, _⟩ := inv.atWork at_ (by simp [place, Pc.atWork])
      obtain ⟨taken, busy, notListed, _⟩ := inv.pop rest at_ notListed
      have noted := taken.emit (e := .sentinel i) rfl rfl (by simp [Event.stopped])
      exact noted.endTask busy.open_ busy.alive (Or.inr busy.busy) notListed (by simp)
  | discarded i item rest at_ place entry failed =>
      obtain ⟨notListed, _⟩ := inv.atWork at_ (by simp [place, Pc.atWork])
      obtain ⟨taken, busy, notListed, _⟩ := inv.pop rest at_ notListed
      exact taken.endTask busy.open_ busy.alive (Or.inr busy.busy) notListed (by simp)
  | called i item rest at_ place entry open_ cm timed entered =>
      obtain ⟨notListed, _⟩ := inv.atWork at_ (by simp [place, Pc.atWork])
      have consumer := (inv.placement.each i).consumes (by simp [place, Pc.consumes])
      obtain ⟨taken, busy, notListed, _⟩ := inv.pop rest at_ notListed
      exact taken.call busy notListed consumer ((fulfil_kept _ _).1.trans open_)
  | deadline i index item cm at_ place entered =>
      exact (inv.fire at_ place (some cm.fire)).emit rfl rfl (by simp [Event.stopped])
  | yieldedLate item at_ place stopping =>
      have notListed := inv.placement.notListed (i := 0) (by simp [place, Pc.waiting, Pc.gets, Pc.puts])
      have noted := inv.emit (e := .pulled item) rfl rfl (by simp [Event.stopped])
      exact noted.failSource at_.open_ at_.alive (Or.inr at_.busy) notListed
  | yielded item at_ place running metrics =>
      have notListed := inv.placement.notListed (i := 0) (by simp [place, Pc.waiting, Pc.gets, Pc.puts])
      have noted := inv.emit (e := .pulled item) rfl rfl (by simp [Event.stopped])
      have clean : (s.child 0).groupCancelled = false := by
        rw [← Bool.not_eq_true]
        intro flag
        simp [inv.signalled 0 flag] at running
      obtain ⟨kept, child, listed⟩ := spawn_kept c (s.emit (.pulled item))
      have counted : Inv c { (s.emit (.pulled item)).spawn c with metrics := metrics } :=
        (noted.spawn at_.open_ running).congr rfl rfl rfl rfl
      refine counted.goto ⟨kept.1.trans at_.open_, kept.2.1.trans at_.busy, ?_⟩ (listed 0 notListed)
        (Or.inr rfl) (fun _ _ => child 0 ▸ clean) (fun _ => rfl) (by simp [Pc.consumes])
      exact kept.2.2 0 at_.alive
  | ended at_ place running =>
      have notListed := inv.placement.notListed (i := 0) (by simp [place, Pc.waiting, Pc.gets, Pc.puts])
      have clean : (s.child 0).groupCancelled = false := by
        rw [← Bool.not_eq_true]
        intro flag
        simp [inv.signalled 0 flag] at running
      exact inv.goto at_ notListed (Or.inr rfl) (fun _ _ => clean) (fun _ => rfl) (by simp [Pc.consumes])
  | sourceFailed caught at_ place =>
      have notListed := inv.placement.notListed (i := 0) (by simp [place, Pc.waiting, Pc.gets, Pc.puts])
      exact inv.failSource at_.open_ at_.alive (Or.inr at_.busy) notListed
  | finished i index item cm out slot at_ place stored metrics =>
      obtain ⟨left, busy, notListed, consumer⟩ :=
        inv.finish (leaveTimeout cm (s.child i).task out).2.2 at_ place
      have noted := left.emit
        (e := .ended index (s.callEnd i out (leaveTimeout cm (s.child i).task out)) (.stored slot))
        rfl rfl id
      have added : Inv c { (s.setChild i { s.child i with
          task := (leaveTimeout cm (s.child i).task out).2.2 }).emit
            (.ended index (s.callEnd i out (leaveTimeout cm (s.child i).task out)) (.stored slot)) with
          results := s.results ++ [slot], metrics := metrics } := noted.congr rfl rfl rfl rfl
      exact added.goto ⟨busy.open_, busy.busy, busy.alive⟩ notListed (Or.inr rfl) (by simp)
        (by simp [Pc.produces]) fun _ => consumer
  | failed i index item cm out exc at_ place fails =>
      obtain ⟨left, busy, notListed, _⟩ :=
        inv.finish (leaveTimeout cm (s.child i).task out).2.2 at_ place
      refine left.fails busy.open_ busy.alive (Or.inr busy.busy) notListed rfl rfl ?_ rfl id (by simp)
      rintro rfl
      exact collect_cancelled fails

theorem init (c : Stream) (caller : Caller) : Inv c (Stream.init (α := α) (β := β) (ε := ε) caller) where
  sound := Call.Sound.enter caller _ _ (by simp) (by simp) (by simp)
  logged := ⟨by simp [Stream.init, Call.enter], by simp [Stream.init, Call.enter]⟩
  placement := by
    refine ⟨fun i => ?_, by simp [Stream.init], by simp [Stream.init]⟩
    constructor <;> simp [Stream.init, Call.enter, Pc.atWork, Pc.waiting, Pc.gets, Pc.puts,
      Pc.produces, Pc.consumes, Task.throws]
  tasks := by simp [Stream.init, Call.enter]
  left := by
    intro i bound gone
    simp [Stream.init, Call.enter] at bound gone
    omega
  fresh := by simp [Stream.init, Call.enter]
  limit := by simp [Stream.init]
  signalled := by simp [Stream.init, Call.enter]
  noted := by simp [Stream.init, Call.enter]

theorem step (inv : Inv c s) {a : Act α β ε} (stepped : c.step s a = some t) : Inv c t :=
  inv.moves (step_moves stepped)

end Inv

variable {c : Stream} {s t : State α β ε}

theorem inv_of_reaches {caller : Caller} (reached : Runs.Reaches c.step (init caller) s) : Inv c s :=
  reached.invariant (fun _ _ _ inv stepped => inv.step stepped) (Inv.init c caller)

theorem leaveGet_stopping (s : State α β ε) (i : Nat) : (s.leaveGet i).stopping = s.stopping := by
  unfold State.leaveGet
  dsimp only
  split
  · exact (fulfil_kept _ _).2.2.2.2.2
  · rfl

theorem leavePut_stopping (s : State α β ε) (c : Stream) (i : Nat) :
    (s.leavePut c i).stopping = s.stopping := by
  unfold State.leavePut
  dsimp only
  split
  · exact (fulfil_kept _ _).2.2.2.2.2
  · rfl

theorem spawn_stopping (s : State α β ε) (c : Stream) : (s.spawn c).stopping = s.stopping := by
  unfold State.spawn
  split <;> rfl

theorem Moves.stopping (inv : Inv c s) (moved : Moves c s t) (stopping : s.stopping = true) :
    t.stopping = true := by
  cases moved with
  | loop act call calm moved => exact Call.stopping_loopStep inv.sound stopping moved
  | user act call moved => exact (Call.TaskStep.userStep moved).stopping stopping
  | putDenied i item at_ place throws notPending => rfl
  | sentinelDenied i left at_ place throws notPending => exact (leavePut_stopping s c i).trans stopping
  | getDenied i at_ place throws notPending => exact (leaveGet_stopping s i).trans stopping
  | put i item at_ place room metrics => exact (fulfil_kept _ _).2.2.2.2.2.trans stopping
  | sentinelPut i left at_ place room => exact (fulfil_kept _ _).2.2.2.2.2.trans stopping
  | gotSentinel i rest at_ place entry => exact (fulfil_kept _ _).2.2.2.2.2.trans stopping
  | discarded i item rest at_ place entry failed => exact (fulfil_kept _ _).2.2.2.2.2.trans stopping
  | called i item rest at_ place entry open_ cm timed entered =>
      exact (fulfil_kept _ _).2.2.2.2.2.trans stopping
  | yielded item at_ place running metrics => exact (spawn_stopping _ c).trans stopping
  | yieldedLate item at_ place _ => rfl
  | sourceFailed caught at_ place => rfl
  | failed i index item cm out exc at_ place fails => rfl
  | late | dropped | started | putWoken | sentinelWoken | getWoken | putWaits | produced | sentinelWaits
  | stopped | looped | getWaits | deadline | ended | finished => exact stopping

/-- Where the signal was true once, the call does not return. -/
theorem stopping_raises (inv : Inv c s) (stopping : s.stopping = true)
    (reached : Runs.Reaches c.step s t) : t.stopping = true ∧ t.exit ≠ some .returned := by
  have kept : Inv c t ∧ t.stopping = true := by
    refine reached.invariant (p := fun s => Inv c s ∧ s.stopping = true) ?_ ⟨inv, stopping⟩
    rintro s a t ⟨inv, stopping⟩ stepped
    exact ⟨inv.step stepped, (step_moves stepped).stopping inv stopping⟩
  refine ⟨kept.2, fun returned => ?_⟩
  simp [kept.1.sound.quiet returned] at kept

end Stream

end AsyncPipelines
