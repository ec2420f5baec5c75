import AsyncPipelines.Core.StreamRuns

/-!
What `StreamMetrics` says in the states of a run, at its end, and of a source that never
suspends.
-/

namespace AsyncPipelines

open Asyncio Conveyor Meter

variable {α β ε : Type}

namespace Stream

variable {c : Stream} {s t : State α β ε} {p : Past}

theorem Past.deepens (c : Stream) (s : State α β ε) (a : Act α β ε) (t : State α β ε) (p : Past) :
    p.deepest ≤ (p.after c s a t).deepest := by
  unfold Past.after
  refine Nat.le_trans (Nat.le_of_eq ?_) (Nat.le_max_left _ _)
  repeat' split
  all_goals rfl

structure Still (s t : State α β ε) : Prop where
  pc : (t.child 0).pc = (s.child 0).pc
  ended : (s.child 0).ended ≠ none → (t.child 0).ended ≠ none

namespace Still

theorem trans {u : State α β ε} (first : Still s t) (second : Still t u) : Still s u :=
  ⟨second.pc.trans first.pc, fun ended => second.ended (first.ended ended)⟩

theorem same (same : t.child 0 = s.child 0) : Still s t := ⟨by rw [same], by rw [same]; exact id⟩

theorem woken {woken : Option Nat} (child : t.child 0 = (s.toCall.fulfil woken).child 0) : Still s t := by
  refine ⟨by rw [child]; exact fulfil_pc _ _ 0, ?_⟩
  rw [child, Call.fulfil_child]
  split <;> exact id

theorem endTask (i : Nat) (ended : TaskEnd (Exc ε)) (child : t.child = (s.endTask i ended).child) :
    Still s t := by
  by_cases producer : i = 0
  · subst producer
    exact ⟨by rw [child]; exact endTask_pc s 0 0 ended, fun _ => by rw [child]; exact (endTask_child s 0 ended).2⟩
  · exact same (by rw [child]; exact (endTask_child s i ended).1 0 (Ne.symm producer))

theorem leavePut (s : State α β ε) (c : Stream) (i : Nat) : Still s (s.leavePut c i) := by
  unfold State.leavePut
  dsimp only
  split
  · exact woken rfl
  · exact same rfl

theorem leaveGet (s : State α β ε) (i : Nat) : Still s (s.leaveGet i) := by
  unfold State.leaveGet
  dsimp only
  split
  · exact woken rfl
  · exact same rfl

theorem other {i : Nat} {d : Child (Pc α) (Exc ε)} (consumer : i ≠ 0)
    (child : t.child = (s.setChild i d).child) : Still s t :=
  same (by rw [child]; exact (setChild_child s i d).1 0 (Ne.symm consumer))

end Still

inductive Producing (s t : State α β ε) : Prop
  | still (still : Still s t)
  | begins (alive : (s.child 0).ended = none) (place : (s.child 0).pc = .created)
      (isNext : t = s.enter 0 .pulling)
  | goes (alive : (s.child 0).ended = none) (produces : (s.child 0).pc.produces = true)
      (owed : (s.child 0).pc.owed ≠ none → (t.child 0).pc.owed ≠ none)

theorem Moves.producing (inv : Inv c s) (moved : Moves c s t) : Producing s t := by
  have producer : ∀ i, (s.child i).pc.produces = true → i = 0 := fun i => (inv.placement.each i).produces
  have consumer : ∀ i, (s.child i).pc.consumes = true → i ≠ 0 := fun i => (inv.placement.each i).consumes
  cases moved with
  | loop act call calm moved =>
      have frame := Frame.loopStep moved 0
      exact .still ⟨frame.pc, fun ended => frame.ended ▸ ended⟩
  | user act call moved =>
      obtain ⟨_, _, _, _, ⟨task, child⟩, _, _, _⟩ := Call.userStep_same moved
      have own : (call.child 0).pc = (s.child 0).pc ∧ (call.child 0).ended = (s.child 0).ended := by
        rw [child, Call.setTask_child]
        split
        · rename_i here
          rw [here]
          exact ⟨rfl, rfl⟩
        · exact ⟨rfl, rfl⟩
      exact .still ⟨own.1, fun ended => own.2 ▸ ended⟩
  | late act at_ begun =>
      by_cases isProducer : act.task = 0
      · rw [isProducer]
        have own := (setChild_child s 0 { s.child 0 with task := act.after (s.child 0).task }).2
        refine .still ⟨by rw [own], fun ended => ?_⟩
        rw [own]
        exact ended
      · exact .still (.same ((setChild_child s act.task _).1 0 (Ne.symm isProducer)))
  | dropped i at_ place throws => exact .still (.endTask i _ rfl)
  | started i at_ place calm =>
      by_cases isProducer : i = 0
      · subst isProducer
        exact .begins (member_of_live at_.alive).2 place rfl
      · exact .still (.same ((setChild_child s i _).1 0 (Ne.symm isProducer)))
  | putDenied i item at_ place throws notPending =>
      exact .still ((Still.leavePut s c i).trans (.endTask 0 _ rfl))
  | sentinelDenied i left at_ place throws notPending =>
      exact .still ((Still.leavePut s c i).trans (.endTask i _ rfl))
  | getDenied i at_ place throws notPending => exact .still ((Still.leaveGet s i).trans (.endTask i _ rfl))
  | putWoken i item at_ place done calm =>
      obtain rfl := producer i (by simp [place, Pc.produces])
      exact .goes (member_of_live at_.alive).2 (by simp [place, Pc.produces]) (by simp [place, Pc.owed])
  | putWaits i item at_ place full =>
      obtain rfl := producer i (by simp [place, Pc.produces])
      exact .goes (member_of_live at_.alive).2 (by simp [place, Pc.produces]) (by simp [place, Pc.owed])
  | put i item at_ place room metrics =>
      obtain rfl := producer i (by simp [place, Pc.produces])
      exact .goes (member_of_live at_.alive).2 (by simp [place, Pc.produces]) (by simp [place, Pc.owed])
  | sentinelWoken i left at_ place done calm =>
      obtain rfl := producer i (by simp [place, Pc.produces])
      refine .goes (member_of_live at_.alive).2 (by simp [place, Pc.produces]) fun _ => ?_
      show ((s.setChild 0 _).child 0).pc.owed ≠ none
      simp [(setChild_child s 0 _).2, Pc.owed]
  | sentinelWaits i left at_ place full =>
      obtain rfl := producer i (by simp [place, Pc.produces])
      refine .goes (member_of_live at_.alive).2 (by simp [place, Pc.produces]) fun _ => ?_
      show ((s.setChild 0 _).child 0).pc.owed ≠ none
      simp [(setChild_child s 0 _).2, Pc.owed]
  | sentinelPut i left at_ place room =>
      obtain rfl := producer i (by simp [place, Pc.produces])
      refine .goes (member_of_live at_.alive).2 (by simp [place, Pc.produces]) fun _ => ?_
      show (((s.putNowait none).setChild 0 _).child 0).pc.owed ≠ none
      simp [(setChild_child (s.putNowait none) 0 _).2, Pc.owed]
  | produced i at_ place => exact .still (.endTask i _ rfl)
  | stopped i at_ place stopping => exact .still (.endTask i _ rfl)
  | getWoken i at_ place done calm =>
      exact .still (.other (consumer i (by simp [place, Pc.consumes])) rfl)
  | looped i at_ place running => exact .still (.other (consumer i (by simp [place, Pc.consumes])) rfl)
  | getWaits i at_ place empty => exact .still (.other (consumer i (by simp [place, Pc.consumes])) rfl)
  | deadline i index item cm at_ place entered =>
      exact .still (.other (consumer i (by simp [place, Pc.consumes])) rfl)
  | gotSentinel i rest at_ place entry =>
      exact .still ((Still.woken (t := { s with queue := rest }.wakePutter) rfl).trans
        (.endTask i .returned rfl))
  | discarded i item rest at_ place entry failed =>
      exact .still ((Still.woken (t := { s with queue := rest }.wakePutter) rfl).trans (.endTask i _ rfl))
  | called i item rest at_ place entry open_ cm timed entered =>
      exact .still ((Still.woken (t := { s with queue := rest }.wakePutter) rfl).trans
        (.other (consumer i (by simp [place, Pc.consumes])) rfl))
  | yieldedLate item at_ place stopping => exact .still (.endTask 0 _ rfl)
  | sourceFailed caught at_ place => exact .still (.endTask 0 _ rfl)
  | yielded item at_ place running metrics =>
      exact .goes (member_of_live at_.alive).2 (by simp [place, Pc.produces]) (by simp [place, Pc.owed])
  | ended at_ place running =>
      exact .goes (member_of_live at_.alive).2 (by simp [place, Pc.produces]) (by simp [place, Pc.owed])
  | finished i index item cm out slot at_ place stored metrics =>
      have other := consumer i (by simp [place, Pc.consumes])
      exact .still ((Still.other other rfl).trans (.other other rfl))
  | failed i index item cm out exc at_ place fails =>
      have other := consumer i (by simp [place, Pc.consumes])
      exact .still ((Still.other other rfl).trans (.endTask i _ rfl))

/-- What a run has come to in which the source never suspends: it has not begun, it fills
the queue, more has come than the queue holds, all has been put, or it will not end. -/
inductive Brisk (c : Stream) (s : State α β ε) (p : Past) : Prop
  | idle (place : (s.child 0).pc = .created) (none : pulls s = [])
  | filling (busy : s.running = some 0) (alive : (s.child 0).ended = Option.none)
      (place : (s.child 0).pc = .pulling ∨ ∃ item, (s.child 0).pc = .offering item)
      (lossless : p.lost = 0) (untaken : calls s = [])
  | overflown (more : c.queueSize < (pulls s).length) (deep : c.queueSize ≤ p.deepest)
      (paused : 0 < s.metrics.producerPauses)
  | closed (owed : (s.child 0).pc.owed ≠ Option.none) (all : (pulls s).length ≤ p.deepest)
  | gone (halted : (s.child 0).ended ≠ Option.none) (never : (s.child 0).pc.owed = Option.none)

namespace Brisk

theorem source {act : SourceAct α ε} (metered : Metered c s p) (after : Metered c t (p.after c s (.source act) t))
    (busy : s.running = some 0) (alive : (s.child 0).ended = none) (place : (s.child 0).pc = .pulling)
    (lossless : p.lost = 0) (untaken : calls s = []) (isNext : c.sourceStep s act = t) :
    Brisk c t (p.after c s (.source act) t) := by
  have fails : ∀ (u : State α β ε) (caught : Exc ε), u.child 0 = s.child 0 → u.failSource caught = t →
      Brisk c t (p.after c s (.source act) t) := by
    rintro u caught same rfl
    refine .gone (endTask_child _ 0 _).2 ?_
    have pc : ((u.failSource caught).child 0).pc = (u.child 0).pc := endTask_pc _ 0 0 _
    rw [pc, same, place]
    rfl
  cases act with
  | yields item =>
      simp only [sourceStep] at isNext
      split at isNext
      · exact fails (s.emit (.pulled item)) _ rfl isNext
      · rename_i running
        have quiet : s.stopping = false := Bool.not_eq_true _ ▸ running
        subst isNext
        obtain ⟨log, _, _⟩ := spawn_same (s.emit (.pulled item)) c
        have child : ((s.emit (.pulled item)).spawn c).child 0 = s.child 0 := (spawn_kept c _).2.1 0
        have own := (setChild_child ((s.emit (.pulled item)).spawn c) 0
          { ((s.emit (.pulled item)).spawn c).child 0 with pc := .offering item }).2
        refine .filling ((spawn_kept c (s.emit (.pulled item))).1.2.1.trans busy) ?_
          (Or.inr ⟨item, congrArg Child.pc own⟩) ?_ ?_
        · exact (congrArg Child.ended own).trans ((congrArg Child.ended child).trans alive)
        · simpa [Past.after, quiet] using lossless
        · have same : ((s.emit (.pulled item)).spawn c).log.filterMap Event.called? = calls s := by
            rw [log]
            simp [calls, State.emit, Call.emit, Event.called?]
          exact same.trans untaken
  | ends =>
      simp only [sourceStep] at isNext
      split at isNext
      · exact fails _ _ rfl isNext
      · subst isNext
        have own := (setChild_child s 0 { s.child 0 with pc := .finishing s.started }).2
        have pc := congrArg Child.pc own
        refine .closed (by rw [show ((s.goto 0 (.finishing s.started)).child 0).pc = _ from pc]; simp [Pc.owed]) ?_
        have free := (hand_free (c := c) (v := view s) (by simp [view, place, Pc.hand])).1
        have balance : (pulls s).length = p.lost + (view s).hand + queued s + (calls s).length :=
          metered.balanced.balance
        have deep : queued s ≤ p.deepest := metered.balanced.deepest.1
        have deeper := p.deepens c s (.source .ends) (s.goto 0 (.finishing s.started))
        have same : pulls (s.goto 0 (.finishing s.started)) = pulls s := rfl
        rw [same]
        simp only [untaken, List.length_nil] at balance
        omega
  | raises cls payload => exact fails _ _ rfl isNext
  | raisesCancelled => exact fails _ _ rfl isNext

theorem offer {item : α} (metered : Metered c s p) (counted : c.metrics = true) (after : Metered c t (p.after c s (.advance 0) t))
    (busy : s.running = some 0) (alive : (s.child 0).ended = none) (place : (s.child 0).pc = .offering item)
    (lossless : p.lost = 0) (untaken : calls s = []) (stepped : c.advance s 0 = some t) :
    Brisk c t (p.after c s (.advance 0) t) := by
  have hand : (view s).hand = 1 := by simp [View.hand, view, alive, place, Pc.hand]
  have balance : (pulls s).length = p.lost + (view s).hand + queued s + (calls s).length :=
    metered.balanced.balance
  have plain := metered.early.plain (by rw [place]; rfl)
  simp only [advance, place] at stepped
  split at stepped <;> simp only [Option.some.injEq] at stepped <;> rename_i full
  · have deeper := p.deepens c s (.advance 0) t
    have pauses : s.metrics.producerPauses = p.waits + (view s).due c :=
      (metered.exact_ counted).pauses
    simp only [State.full, decide_eq_true_eq] at full
    simp only [untaken, List.length_nil] at balance
    have deep : queued s ≤ p.deepest := metered.balanced.deepest.1
    have due : (view s).due c = 1 := by simp [View.due, view, place, alive, full]
    subst stepped
    refine .overflown ?_ (by omega) ?_
    · show c.queueSize < (pulls s).length
      omega
    · show 0 < s.metrics.producerPauses
      omega
  · subst stepped
    have own := (setChild_child (s.putNowait (some item)) 0
      { (s.putNowait (some item)).child 0 with pc := .pulling }).2
    have kept := fulfil_kept s.toCall
      (wakeupNext (fun j => (s.child j).task) s.getters).2
    refine .filling (kept.2.2.1.trans busy) ?_ (Or.inl (congrArg Child.pc own)) ?_ ?_
    · refine (congrArg Child.ended own).trans (Eq.trans ?_ alive)
      show ((s.toCall.fulfil _).child 0).ended = _
      rw [Call.fulfil_child]
      split <;> rfl
    · simpa [Past.after, place, full] using lossless
    · exact (congrArg (List.filterMap Event.called?) kept.2.1).trans untaken

theorem fills {a : Act α β ε} (metered : Metered c s p) (counted : c.metrics = true)
    (awake : a ≠ .user (.suspend 0)) (busy : s.running = some 0) (alive : (s.child 0).ended = none)
    (place : (s.child 0).pc = .pulling ∨ ∃ item, (s.child 0).pc = .offering item)
    (lossless : p.lost = 0) (untaken : calls s = []) (stepped : c.step s a = some t) :
    Brisk c t (p.after c s a t) := by
  have after := metered.step stepped
  have atSource : ∀ i index item cm, s.running = some i → (s.child i).pc ≠ .calling index item cm := by
    intro i index item cm isBusy calling
    obtain rfl : 0 = i := by simpa [busy] using isBusy
    rcases place with pulling | ⟨item, offering⟩ <;> simp_all
  have stays : t.running = s.running → (t.child 0).pc = (s.child 0).pc → (t.child 0).ended = (s.child 0).ended →
      t.log = s.log → (p.after c s a t).lost = p.lost → Brisk c t (p.after c s a t) := by
    intro running pc ended log lost
    exact .filling (running.trans busy) (ended.trans alive) (by rw [pc]; exact place) (lost.trans lossless)
      ((congrArg (List.filterMap Event.called?) log).trans untaken)
  cases a with
  | loop act =>
      simp only [step] at stepped
      split at stepped
      · obtain ⟨call, moved, rfl⟩ := Option.map_eq_some_iff.mp stepped
        obtain ⟨log, _, running, _⟩ := Call.loopStep_same moved
        have frame := Frame.loopStep moved 0
        exact stays running frame.pc frame.ended log rfl
      · simp at stepped
  | user act =>
      simp only [step] at stepped
      obtain ⟨call, moved, rfl⟩ := Option.map_eq_some_iff.mp stepped
      have inside : act.task = 0 := by
        rcases (Call.userStep_same moved).2.2.2.2.2.2.1 with idle | own
        · exact absurd (busy.symm.trans idle) (by simp)
        · simpa using own.symm.trans busy
      cases act <;> simp only [Call.UserAct.task] at inside <;> subst inside <;>
        simp only [Call.userStep] at moved <;> split at moved <;>
        simp only [Option.some.injEq, reduceCtorEq] at moved <;> subst moved
      case user.resume.isTrue ready => simp [busy] at ready
      case user.suspend.isTrue => exact absurd rfl awake
      case user.cancelSelf.isTrue => exact stays rfl rfl rfl rfl rfl
      case user.uncancelSelf.isTrue => exact stays rfl rfl rfl rfl rfl
  | late act =>
      simp only [step, Call.lateStep, busy] at stepped
      simp at stepped
  | start i =>
      simp only [step] at stepped
      split at stepped
      · split at stepped
        · rename_i ready
          simp [busy] at ready
        · simp at stepped
      · simp at stepped
  | wake i =>
      simp only [step, busy] at stepped
      simp at stepped
  | advance i =>
      simp only [step] at stepped
      split at stepped
      · rename_i ready
        obtain rfl : 0 = i := by simpa [busy] using ready.2.1
        rcases place with pulling | ⟨item, offering⟩
        · simp [advance, pulling] at stepped
        · exact offer metered counted after busy alive offering lossless untaken stepped
      · simp at stepped
  | deadline i =>
      simp only [step] at stepped
      split at stepped
      · split at stepped
        · rename_i ready
          simp [busy] at ready
        · simp at stepped
      · simp at stepped
  | source act =>
      simp only [step] at stepped
      split at stepped
      · rename_i pulling
        split at stepped <;> simp only [Option.some.injEq, reduceCtorEq] at stepped
        exact source metered after busy alive pulling lossless untaken stepped
      · simp at stepped
  | finish i out =>
      simp only [step] at stepped
      split at stepped
      · rename_i index item cm calling
        split at stepped <;> simp only [Option.some.injEq, reduceCtorEq] at stepped
        rename_i ready
        exact absurd calling (atSource i index item cm ready.2.1)
      · simp at stepped

theorem step {a : Act α β ε} (metered : Metered c s p) (counted : c.metrics = true)
    (brisk : Brisk c s p) (awake : a ≠ .user (.suspend 0)) (stepped : c.step s a = some t) :
    Brisk c t (p.after c s a t) := by
  have after := metered.step stepped
  have moved := step_moves stepped
  have producing := moved.producing metered.inv
  have gauged := step_gauge metered.inv metered.early metered.balanced.deepest.1 stepped
  rw [counted] at gauged
  obtain ⟨more, deeper, paused⟩ := gauged.grows
  cases brisk with
  | idle place none =>
      have same := moved.pulls_same (by simp [place])
      cases producing with
      | still still => exact .idle (still.pc.trans place) (same.trans none)
      | begins alive _ isNext =>
          have balance := after.balanced.balance
          have length : (gauge c t (p.after c s a t)).pulled = 0 := by
            show (pulls t).length = 0
            rw [same, none]
            rfl
          have untaken : (gauge c t (p.after c s a t)).taken = (calls t).length := rfl
          have lossless : (gauge c t (p.after c s a t)).lost = (p.after c s a t).lost := rfl
          have own := (setChild_child s 0 { s.child 0 with pc := .pulling, task := (s.child 0).task.resume }).2
          have child : t.child 0 = { s.child 0 with pc := .pulling, task := (s.child 0).task.resume } :=
            isNext ▸ own
          refine .filling (isNext ▸ rfl) (by rw [child]; exact alive) (Or.inl (by rw [child])) (by omega) ?_
          exact List.eq_nil_of_length_eq_zero (by omega)
      | goes _ produces _ => simp [place, Pc.produces] at produces
  | filling busy alive place lossless untaken =>
      exact fills metered counted awake busy alive place lossless untaken stepped
  | overflown before deep waited =>
      exact .overflown (Nat.lt_of_lt_of_le before more) (deep.trans deeper) (Nat.lt_of_lt_of_le waited paused)
  | closed owed all =>
      have same := moved.pulls_same fun pulling => owed (by rw [pulling]; rfl)
      have all : (pulls t).length ≤ (p.after c s a t).deepest := by
        rw [same]
        exact all.trans deeper
      cases producing with
      | still still => exact .closed (by rw [still.pc]; exact owed) all
      | begins _ place _ => simp [place, Pc.owed] at owed
      | goes _ _ still => exact .closed (still owed) all
  | gone halted never =>
      cases producing with
      | still still => exact .gone (still.ended halted) (by rw [still.pc]; exact never)
      | begins alive _ _ => exact absurd alive halted
      | goes alive _ _ => exact absurd alive halted

end Brisk

theorem Brisk.init (caller : Caller) : Brisk c (Stream.init caller : State α β ε) {} := .idle rfl rfl

theorem brisk_of_run {caller : Caller} {actions : List (Act α β ε)} (counted : c.metrics = true)
    (awake : .user (.suspend 0) ∉ actions)
    (ran : Runs.run c.watched (Stream.init caller, {}) actions = some (s, p)) : Brisk c s p := by
  have both : Metered c s p ∧ Brisk c s p := by
    refine Runs.run_invariant_within (p := fun w => Metered c w.1 w.2 ∧ Brisk c w.1 w.2) ?_
      (fun a member => ne_of_mem_of_not_mem member awake) ⟨Metered.init c caller, Brisk.init caller⟩ ran
    rintro w a v awake ⟨metered, brisk⟩ stepped
    obtain ⟨moved, noted⟩ := Runs.watch_step stepped
    exact noted ▸ ⟨metered.step moved, brisk.step metered counted awake moved⟩
  exact both.2

/-- Every task is suspended, or in user code. -/
def AtSuspension (s : State α β ε) : Prop := ∀ i, s.running = some i → (s.child i).pc.inUser = true

/-- The counters say what has happened. -/
structure Truthful (c : Stream) (s : State α β ε) (p : Past) : Prop where
  produced : s.metrics.produced = p.puts
  consumed : s.metrics.consumed = s.results.length
  balance : s.failed = false →
    s.metrics.produced = queued s + {k | InFlight s.log k}.ncard + s.metrics.consumed
  depth : s.metrics.maxQueueDepth = p.deepest ∧ p.deepest ≤ c.queueSize
  pauses : AtSuspension s → s.metrics.producerPauses = p.waits
  unpaused : p.offers ≤ c.queueSize → s.metrics.producerPauses = 0

theorem Metered.truthful (metered : Metered c s p) (books : Books c s) (counted : c.metrics = true) :
    Truthful c s p where
  produced := (metered.exact_ counted).produced
  consumed := (metered.exact_ counted).consumed
  balance := by
    intro open_
    have same : {k | InFlight s.log k} = (flying s : Set Nat) := by
      ext k
      exact books.mem_flying.symm
    rw [same, Set.ncard_coe_finset]
    have produced : s.metrics.produced = p.puts := (metered.exact_ counted).produced
    have consumed : s.metrics.consumed = s.results.length := (metered.exact_ counted).consumed
    obtain ⟨_, stored, puts⟩ := metered.balanced.whole open_
    have stored : s.results.length = (ends s).length := stored
    have puts : p.puts = queued s + (calls s).length := puts
    have flying := books.count_flying
    omega
  depth := ⟨(metered.exact_ counted).depth, metered.balanced.deepest.2.1⟩
  pauses := by
    intro suspended
    have pauses : s.metrics.producerPauses = p.waits + (view s).due c := (metered.exact_ counted).pauses
    have nothing : (view s).due c = 0 := by
      by_cases busy : s.running = some 0
      · have inside := suspended 0 busy
        unfold View.due
        split
        · rename_i item place
          have place : (s.child 0).pc = .offering item := place
          simp [place, Pc.inUser] at inside
        · rfl
      · exact due_elsewhere metered.inv busy rfl rfl
    omega
  unpaused := (metered.exact_ counted).unpaused

/-- A source that never suspends fills the queue before anybody takes from it. -/
theorem Brisk.counts (metered : Metered c s p) (counted : c.metrics = true) (brisk : Brisk c s p)
    (over_ : (s.child 0).pc.owed ≠ none) :
    s.metrics.maxQueueDepth = min (pulls s).length c.queueSize ∧
      (0 < s.metrics.producerPauses ↔ c.queueSize < (pulls s).length) := by
  have depth : s.metrics.maxQueueDepth = p.deepest := (metered.exact_ counted).depth
  have unpaused : p.offers ≤ c.queueSize → s.metrics.producerPauses = 0 := (metered.exact_ counted).unpaused
  have deepest : p.deepest ≤ c.queueSize ∧ p.deepest ≤ p.puts := metered.balanced.deepest.2
  have covered : p.puts + (view s).hand ≤ p.offers := metered.balanced.covered
  have offered : p.offers ≤ (pulls s).length := metered.balanced.offered
  cases brisk with
  | idle place none => simp [place, Pc.owed] at over_
  | filling _ _ place _ _ =>
      rcases place with pulling | ⟨item, offering⟩
      · simp [pulling, Pc.owed] at over_
      · simp [offering, Pc.owed] at over_
  | overflown more deep paused =>
      refine ⟨by omega, ?_⟩
      omega
  | closed owed all =>
      have never := unpaused (by omega)
      refine ⟨by omega, ?_⟩
      omega
  | gone halted never => exact absurd never over_

/-- The counters of `stream` are true in every state; where no consumer is lost they come
to the number of items, and where the source never suspends the queue fills up. -/
theorem stream_metrics (c : Stream) (sized : 1 ≤ c.concurrency) (counted : c.metrics = true)
    (caller : Caller) (actions : List (Act α β ε)) (s : State α β ε) (p : Past)
    (along : Runs.Along c.step Undisturbed (init caller) actions)
    (ran : Runs.run c.watched (init caller, {}) actions = some (s, p)) :
    Truthful c s p ∧
    (∀ results, returned s = some results →
      s.metrics.produced = (pulls s).length ∧ s.metrics.consumed = (pulls s).length) ∧
    (.user (.suspend 0) ∉ actions → (s.child 0).pc.owed ≠ none →
      s.metrics.maxQueueDepth = min (pulls s).length c.queueSize ∧
        (0 < s.metrics.producerPauses ↔ c.queueSize < (pulls s).length)) := by
  have plain : Runs.run c.step (init caller) actions = some s := Runs.run_unwatch ran
  have metered := metered_of_reaches ⟨actions, ran⟩
  have books := books_of_reaches ⟨actions, plain⟩
  have truthful := metered.truthful books counted
  refine ⟨truthful, ?_, fun awake over_ => (brisk_of_run counted awake ran).counts metered counted over_⟩
  intro results list
  obtain ⟨calls_, ended, stored, _, _, _, empty⟩ :=
    stream_complete c sized caller actions s results along plain list
  obtain ⟨exit, rfl⟩ : s.exit = some .returned ∧ s.results = results := by
    unfold returned at list
    split at list
    · rename_i exit
      exact ⟨exit, Option.some.inj list⟩
    · simp at list
  have calm := metered.inv.sound.quiet exit
  simp only [Call.stopping, Bool.or_eq_false_iff] at calm
  have puts : p.puts = queued s + (calls s).length := (metered.balanced.whole calm.1).2.2
  have called : (calls s).length = (pulls s).length := by rw [calls_]; simp
  have kept : s.results.length = (pulls s).length := by
    have lengths := congrArg List.length stored
    have all := ended.length_eq
    simp only [List.length_map, List.length_range] at lengths all
    omega
  have nothing : queued s = 0 := by simp [queued, empty]
  rw [truthful.produced, truthful.consumed]
  omega

def counting : Stream := { narrow with metrics := true }

def eager : List (Act Nat Nat Unit) :=
  [.start 0, .source (.yields 0), .advance 0, .source (.yields 1), .advance 0, .start 1, .advance 1,
    .advance 1, .finish 1 (.returned 10), .advance 1, .advance 1, .wake 0, .advance 0, .source .ends]

theorem stream_metrics_eager : ∃ (s : State Nat Nat Unit) (p : Past),
    s.metrics = { produced := 2, consumed := 1, producerPauses := 1, maxQueueDepth := 1 } ∧
      Truthful counting s p ∧ s.metrics.maxQueueDepth = min (pulls s).length 1 ∧
      (0 < s.metrics.producerPauses ↔ 1 < (pulls s).length) := by
  have ends : (Runs.run counting.watched (init { task := {} }, {}) eager).any
      (fun w => w.1.metrics == { produced := 2, consumed := 1, producerPauses := 1, maxQueueDepth := 1 } &&
        (w.1.child 0).pc.owed.isSome) = true := by decide
  obtain ⟨⟨s, p⟩, ran, checked⟩ := (Option.any_eq_true _ _).mp ends
  simp only [Bool.and_eq_true, beq_iff_eq, Option.isSome_iff_ne_none] at checked
  have along : Runs.Along counting.step Undisturbed (init { task := {} }) eager := by decide
  have awake : .user (.suspend 0) ∉ eager := by simp [eager]
  have told := stream_metrics counting (le_refl 1) rfl { task := {} } eager s p along ran
  exact ⟨s, p, checked.1, told.1, told.2.2 awake checked.2⟩

/-- The run of `stream_loses`, counted: the second item is never taken, and `stream` returns. -/
theorem stream_metrics_miscount : ¬ ∀ (c : Stream) (caller : Caller) (s : State Nat Nat Unit)
    (results : List (Slot Nat Unit)), 1 ≤ c.concurrency → 1 ≤ c.queueSize → c.metrics = true →
    Runs.Reaches c.step (init caller) s → returned s = some results →
    s.metrics.produced = (pulls s).length ∧ s.metrics.consumed = (pulls s).length := by
  intro complete
  have ends : (Runs.run { counting with queueSize := 2 }.step (init { task := {} }) lossyRun).any
      (fun s => (returned s).isSome && s.metrics.consumed != (pulls s).length) = true := by decide
  obtain ⟨s, ran, checked⟩ := (Option.any_eq_true _ _).mp ends
  simp only [Bool.and_eq_true, bne_iff_ne] at checked
  obtain ⟨results, list⟩ := Option.isSome_iff_exists.mp checked.1
  exact checked.2 (complete { counting with queueSize := 2 } { task := {} } s results (le_refl 1)
    (Nat.le_succ 1) rfl ⟨_, ran⟩ list).2

end Stream

end AsyncPipelines
