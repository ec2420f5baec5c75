import AsyncPipelines.Core.StreamQueue
import AsyncPipelines.Lib.Conveyor

/-!
`stream` moves its items like a conveyor belt: as long as no failure has latched,
each of its steps is a step of the belt or moves nothing on it.
-/

namespace AsyncPipelines

open Asyncio Conveyor

variable {α β ε : Type}

namespace Stream

def Pc.hand : Pc α → Option α
  | offering item => some item
  | putting item => some item
  | _ => none

def Pc.owed : Pc α → Option Nat
  | finishing left => some left
  | puttingSentinel left => some (left + 1)
  | _ => none

def pulls (s : State α β ε) : List α := s.log.filterMap Event.pulled?

def calls (s : State α β ε) : List (Nat × α) := s.log.filterMap Event.called?

def retired (s : State α β ε) : List Nat := s.log.filterMap Event.sentinel?

def belt (s : State α β ε) : Belt α where
  pulled := pulls s
  hand := (s.child 0).pc.hand
  owed := (s.child 0).pc.owed
  queue := s.queue
  workers := s.started
  retired := retired s
  taken := (calls s).map Prod.snd

variable {c : Stream} {s t : State α β ε}

theorem belt_congr (log : t.log = s.log) (hand : (t.child 0).pc.hand = (s.child 0).pc.hand)
    (owed : (t.child 0).pc.owed = (s.child 0).pc.owed) (queue : t.queue = s.queue)
    (started : t.started = s.started) : belt t = belt s := by
  simp only [belt, pulls, calls, retired, log, hand, owed, queue, started]

theorem belt_noted (s : State α β ε) {e : Event α β (Slot β ε) ε} (noPull : e.pulled? = none)
    (noCall : e.called? = none) (noSentinel : e.sentinel? = none) :
    belt (s.emit e) = belt s := by
  simp [belt, pulls, calls, retired, State.emit, Call.emit, noPull, noCall, noSentinel]

theorem fulfil_pc (call : Call (Pc α) α β (Slot β ε) ε) (woken : Option Nat) (j : Nat) :
    ((call.fulfil woken).child j).pc = (call.child j).pc := by
  rw [Call.fulfil_child]
  split <;> rfl

theorem endTask_pc (s : State α β ε) (i j : Nat) (ended : TaskEnd (Exc ε)) :
    ((s.endTask i ended).child j).pc = (s.child j).pc := by
  by_cases here : j = i
  · subst here
    simp [State.endTask, Call.endTask, Call.setChild]
  · simp [State.endTask, Call.endTask, Call.setChild, here]

theorem belt_endTask (s : State α β ε) (i : Nat) (ended : TaskEnd (Exc ε)) :
    belt (s.endTask i ended) = belt s :=
  belt_congr rfl (by rw [endTask_pc]) (by rw [endTask_pc]) rfl rfl

theorem belt_leavePut (s : State α β ε) (i : Nat) : belt (s.leavePut c i) = belt s := by
  unfold State.leavePut
  dsimp only
  split
  · exact belt_congr (fulfil_kept _ _).2.1 (congrArg Pc.hand (fulfil_pc _ _ 0))
      (congrArg Pc.owed (fulfil_pc _ _ 0)) rfl rfl
  · rfl

theorem belt_leaveGet (s : State α β ε) (i : Nat) : belt (s.leaveGet i) = belt s := by
  unfold State.leaveGet
  dsimp only
  split
  · exact belt_congr (fulfil_kept _ _).2.1 (congrArg Pc.hand (fulfil_pc _ _ 0))
      (congrArg Pc.owed (fulfil_pc _ _ 0)) rfl rfl
  · rfl

theorem belt_setChild {i : Nat} {d : Child (Pc α) (Exc ε)}
    (hand : d.pc.hand = (s.child i).pc.hand) (owed : d.pc.owed = (s.child i).pc.owed) :
    belt (s.setChild i d) = belt s := by
  by_cases producer : i = 0
  · subst producer
    refine belt_congr rfl ?_ ?_ rfl rfl <;> rw [(setChild_child s 0 d).2] <;> assumption
  · have same := (setChild_child s i d).1 0 (Ne.symm producer)
    exact belt_congr rfl (by rw [same]) (by rw [same]) rfl rfl

theorem belt_pop (s : State α β ε) (rest : List (Option α)) :
    belt { s with queue := rest }.wakePutter = { belt s with queue := rest } := by
  have log : { s with queue := rest }.wakePutter.log = s.log := (fulfil_kept _ _).2.1
  have pc : ({ s with queue := rest }.wakePutter.child 0).pc = (s.child 0).pc := fulfil_pc _ _ 0
  have queue : { s with queue := rest }.wakePutter.queue = rest := rfl
  have started : { s with queue := rest }.wakePutter.started = s.started := rfl
  simp only [belt, pulls, calls, retired, log, pc, queue, started]

theorem belt_put (s : State α β ε) (entry : Option α) :
    belt (s.putNowait entry) = { belt s with queue := s.queue ++ [entry] } := by
  have log : (s.putNowait entry).log = s.log := (fulfil_kept _ _).2.1
  have pc : ((s.putNowait entry).child 0).pc = (s.child 0).pc := fulfil_pc _ _ 0
  have queue : (s.putNowait entry).queue = s.queue ++ [entry] := rfl
  have started : (s.putNowait entry).started = s.started := rfl
  simp only [belt, pulls, calls, retired, log, pc, queue, started]

theorem belt_init (caller : Caller) : belt (init caller : State α β ε) = {} := rfl

theorem spawn_same (s : State α β ε) (c : Stream) :
    (s.spawn c).log = s.log ∧ (s.spawn c).queue = s.queue ∧ (s.spawn c).failed = s.failed := by
  unfold State.spawn
  split <;> exact ⟨rfl, rfl, rfl⟩

theorem spawn_staffed (sized : 1 ≤ c.concurrency) (open_ : s.failed = false) :
    1 ≤ (s.spawn c).started := by
  unfold State.spawn
  split
  · exact Nat.succ_le_succ (Nat.zero_le _)
  · rename_i enough
    simp only [open_, Bool.not_false, Bool.and_true, decide_eq_true_eq] at enough
    omega

theorem belt_producer (s : State α β ε) (child : Child (Pc α) (Exc ε)) :
    belt (s.setChild 0 child) = { belt s with hand := child.pc.hand, owed := child.pc.owed } := by
  have own := (setChild_child s 0 child).2
  have log : (s.setChild 0 child).log = s.log := rfl
  have queue : (s.setChild 0 child).queue = s.queue := rfl
  have started : (s.setChild 0 child).started = s.started := rfl
  simp only [belt, pulls, calls, retired, own, log, queue, started]

theorem belt_spawn (s : State α β ε) (c : Stream) :
    belt (s.spawn c) = { belt s with workers := (s.spawn c).started } := by
  obtain ⟨log, queue, _⟩ := spawn_same s c
  have child := (spawn_kept c s).2.1 0
  simp only [belt, pulls, calls, retired, log, queue, child]

theorem belt_pulled (s : State α β ε) (item : α) :
    belt (s.emit (.pulled item)) = { belt s with pulled := pulls s ++ [item] } := by
  simp [belt, pulls, calls, retired, State.emit, Call.emit, Event.pulled?, Event.called?,
    Event.sentinel?]

theorem belt_sentinel (s : State α β ε) (i : Nat) :
    belt (s.emit (.sentinel i)) = { belt s with retired := (belt s).retired ++ [i] } := by
  simp [belt, pulls, calls, retired, State.emit, Call.emit, Event.pulled?, Event.called?,
    Event.sentinel?]

theorem belt_called (s : State α β ε) (index : Nat) (item : α) :
    belt (s.emit (.called index item)) = { belt s with taken := (belt s).taken ++ [item] } := by
  simp [belt, pulls, calls, retired, State.emit, Call.emit, Event.pulled?, Event.called?,
    Event.sentinel?]

/-- Every step of the machine, until a failure latches, is one of the belt or none. -/
theorem belt_moves (inv : Inv c s) (sized : 1 ≤ c.concurrency) (moved : Moves c s t)
    (open_ : t.failed = false) : Conveyor.Step (belt s) (belt t) ∨ belt t = belt s := by
  cases moved with
  | loop act call calm moved =>
      have same := (Frame.loopStep moved 0).pc
      exact Or.inr (belt_congr (Call.loopStep_same moved).1 (congrArg Pc.hand same)
        (congrArg Pc.owed same) rfl rfl)
  | user act call moved =>
      obtain ⟨log, _, _, _, ⟨task, child⟩, _, _, _⟩ := Call.userStep_same moved
      have same : (call.child 0).pc = (s.child 0).pc := by
        rw [child, Call.setTask_child]
        split
        · rename_i here
          rw [here]
        · rfl
      exact Or.inr (belt_congr log (congrArg Pc.hand same) (congrArg Pc.owed same) rfl rfl)
  | late act at_ begun => exact Or.inr (belt_setChild (s := s) rfl rfl)
  | dropped | produced | stopped => exact Or.inr (belt_endTask s _ _)
  | started i at_ place calm =>
      refine Or.inr (belt_setChild (s := s) ?_ ?_) <;> rw [place] <;> split <;> rfl
  | putDenied i item at_ place throws notPending => simp [State.failSource, State.endTask, Call.endTask, Call.setChild] at open_
  | putWoken i item at_ place done calm =>
      exact Or.inr (belt_setChild (s := s) (by rw [place]; rfl) (by rw [place]; rfl))
  | sentinelDenied i left at_ place throws notPending =>
      exact Or.inr ((belt_endTask _ _ _).trans (belt_leavePut s i))
  | sentinelWoken i left at_ place done calm =>
      exact Or.inr (belt_setChild (s := s) (by rw [place]; rfl) (by rw [place]; rfl))
  | getDenied i at_ place throws notPending =>
      exact Or.inr ((belt_endTask _ _ _).trans (belt_leaveGet s i))
  | getWoken i at_ place done calm =>
      exact Or.inr (belt_setChild (s := s) (by rw [place]; rfl) (by rw [place]; rfl))
  | putWaits i item at_ place full =>
      exact Or.inr (belt_setChild (s := s) (i := i) (d := { s.child i with
        pc := .putting item, task := (s.child i).task.await }) (by rw [place]; rfl) (by rw [place]; rfl))
  | put i item at_ place room metrics =>
      obtain rfl : i = 0 := (inv.placement.each i).produces (by simp [place, Pc.produces])
      have owes : (belt s).owed = none := by simp [belt, place, Pc.owed]
      have holds : (belt s).hand = some item := by simp [belt, place, Pc.hand]
      have given : belt { s.putNowait (some item) with metrics := metrics } =
          { belt s with queue := s.queue ++ [some item] } := belt_put s (some item)
      have after : belt ({ s.putNowait (some item) with metrics := metrics }.goto 0 .pulling) =
          { belt s with hand := none, queue := s.queue ++ [some item] } := by
        refine (belt_producer _ _).trans ?_
        rw [given]
        simp [Pc.hand, Pc.owed, owes]
      exact Or.inl (after ▸ .put item holds)
  | sentinelWaits i left at_ place full =>
      exact Or.inr (belt_setChild (s := s) (i := i) (d := { s.child i with
        pc := .puttingSentinel left, task := (s.child i).task.await })
        (by rw [place]; rfl) (by rw [place]; rfl))
  | sentinelPut i left at_ place room =>
      obtain rfl : i = 0 := (inv.placement.each i).produces (by simp [place, Pc.produces])
      have owes : (belt s).owed = some (left + 1) := by simp [belt, place, Pc.owed]
      have free : (belt s).hand = none := by simp [belt, place, Pc.hand]
      have after : belt ((s.putNowait none).goto 0 (.finishing left)) =
          { belt s with owed := some left, queue := s.queue ++ [none] } := by
        refine (belt_producer _ _).trans ?_
        rw [belt_put]
        simp [Pc.hand, Pc.owed, free]
      exact Or.inl (after ▸ .mark left owes)
  | looped i at_ place running =>
      exact Or.inr (belt_setChild (s := s) (by rw [place]; rfl) (by rw [place]; rfl))
  | getWaits i at_ place empty =>
      exact Or.inr (belt_setChild (s := s) (i := i) (d := { s.child i with
        pc := .getting, task := (s.child i).task.await }) (by rw [place]; rfl) (by rw [place]; rfl))
  | gotSentinel i rest at_ place entry =>
      rw [belt_endTask, belt_sentinel, belt_pop]
      exact Or.inl (.retire i rest entry)
  | discarded i item rest at_ place entry failed =>
      have same : { s with queue := rest }.wakePutter.failed = s.failed := (fulfil_kept _ _).1
      simp [State.endTask, Call.endTask, Call.setChild, same, failed] at open_
  | called i item rest at_ place entry _ cm timed entered =>
      have own : ({ s with queue := rest }.wakePutter.child i).pc = .taking :=
        (fulfil_pc _ _ i).trans place
      have kept := belt_setChild (s := { s with queue := rest }.wakePutter) (i := i)
        (d := { { s with queue := rest }.wakePutter.child i with
          pc := .calling s.consumedIndex item cm }) (by rw [own]; rfl) (by rw [own]; rfl)
      have after := belt_called ({ s with queue := rest }.wakePutter.setChild i
        { { s with queue := rest }.wakePutter.child i with
          pc := .calling s.consumedIndex item cm }) s.consumedIndex item
      rw [kept, belt_pop] at after
      exact Or.inl (after ▸ .take item rest entry)
  | deadline i index item cm at_ place entered =>
      have kept := belt_setChild (s := s) (i := i) (d := { s.child i with
        pc := .calling index item (some cm.fire), task := (s.child i).task.cancel })
        (by rw [place]; rfl) (by rw [place]; rfl)
      exact Or.inr ((belt_noted _ rfl rfl rfl).trans kept)
  | yieldedLate item at_ place stopping => simp [State.failSource, State.endTask, Call.endTask, Call.setChild] at open_
  | yielded item at_ place running metrics =>
      have owes : (belt s).owed = none := by simp [belt, place, Pc.owed]
      have free : (belt s).hand = none := by simp [belt, place, Pc.hand]
      have calm : (s.emit (.pulled item)).failed = false := by
        simp only [Call.stopping, Bool.or_eq_false_iff] at running
        exact running.1
      have after : belt ({ (s.emit (.pulled item)).spawn c with metrics := metrics }.goto 0
          (.offering item)) = { belt s with
            pulled := pulls s ++ [item], hand := some item
            workers := ((s.emit (.pulled item)).spawn c).started } := by
        refine (belt_producer _ _).trans ?_
        rw [show belt { (s.emit (.pulled item)).spawn c with metrics := metrics } = _ from
          belt_spawn _ c, belt_pulled]
        simp [Pc.hand, Pc.owed, owes]
      exact Or.inl (after ▸ .pull item _ free owes (spawn_staffed sized calm))
  | ended at_ place running =>
      have owes : (belt s).owed = none := by simp [belt, place, Pc.owed]
      have free : (belt s).hand = none := by simp [belt, place, Pc.hand]
      have after : belt (s.goto 0 (.finishing s.started)) =
          { belt s with owed := some s.started } := by
        refine (belt_producer _ _).trans ?_
        simp [Pc.hand, Pc.owed, free]
      exact Or.inl (after ▸ .close free owes)
  | sourceFailed caught at_ place => simp [State.failSource, State.endTask, Call.endTask, Call.setChild] at open_
  | finished i index item cm out slot at_ place stored metrics =>
      let task := (leaveTimeout cm (s.child i).task out).2.2
      let noted := { (s.setChild i { s.child i with task := task }).emit
        (.ended index (s.callEnd i out (leaveTimeout cm (s.child i).task out)) (.stored slot)) with
        results := s.results ++ [slot], metrics := metrics }
      have own : (noted.child i).pc = .calling index item cm := by
        have same := (setChild_child s i { s.child i with task := task }).2
        exact (congrArg Child.pc same).trans place
      have left : belt (s.setChild i { s.child i with task := task }) = belt s :=
        belt_setChild rfl rfl
      have logged : belt noted = belt s := (belt_noted _ rfl rfl rfl).trans left
      have after : belt (noted.goto i .looping) = belt noted :=
        belt_setChild (by rw [own]; rfl) (by rw [own]; rfl)
      exact Or.inr (after.trans logged)
  | failed i index item cm out exc at_ place fails => simp [State.endTask, Call.endTask, Call.setChild] at open_

theorem Moves.latched (moved : Moves c s t) (failed : s.failed = true) : t.failed = true := by
  cases moved with
  | loop act call calm moved => exact (Call.loopStep_same moved).2.1.trans failed
  | user act call moved => exact (Call.userStep_same moved).2.1.trans failed
  | sentinelDenied i left at_ place throws notPending => exact (leavePut_kept s c i notPending).2.1.trans failed
  | getDenied i at_ place throws notPending => exact (leaveGet_kept s i notPending).2.1.trans failed
  | put i item at_ place room metrics => exact (fulfil_kept _ _).1.trans failed
  | sentinelPut i left at_ place room => exact (fulfil_kept _ _).1.trans failed
  | gotSentinel i rest at_ place entry => exact (fulfil_kept _ _).1.trans failed
  | discarded i item rest at_ place entry _ => exact (fulfil_kept _ _).1.trans failed
  | called i item rest at_ place entry open_ cm timed entered => simp [failed] at open_
  | yielded item at_ place running metrics => exact (spawn_same _ c).2.2.trans failed
  | putDenied | yieldedLate | sourceFailed | failed => rfl
  | late | dropped | started | putWoken | sentinelWoken | getWoken | putWaits | produced | sentinelWaits
  | stopped | looped | getWaits | deadline | ended | finished => exact failed

theorem sorted_of_reaches {caller : Caller} (sized : 1 ≤ c.concurrency)
    (reached : Runs.Reaches c.step (init caller) s) (open_ : s.failed = false) : Sorted (belt s) := by
  have both : Inv c s ∧ (s.failed = false → Sorted (belt s)) := by
    refine reached.invariant (p := fun s => Inv c s ∧ (s.failed = false → Sorted (belt s))) ?_
      ⟨Inv.init c caller, fun _ => belt_init (β := β) (ε := ε) caller ▸ sorted_start⟩
    rintro s a t ⟨inv, sorted⟩ stepped
    have moved := step_moves stepped
    refine ⟨inv.step stepped, fun open_ => ?_⟩
    have before : s.failed = false := by
      rw [← Bool.not_eq_true]
      intro failed
      simp [moved.latched failed] at open_
    rcases belt_moves inv sized moved open_ with step | same
    · exact step.sorted (sorted before)
    · exact same ▸ sorted before
  exact both.2 open_

/-- The points at which a `CancelledError` ends the task and nobody hears of it. -/
def Pc.mute : Pc α → Bool
  | getting => true
  | puttingSentinel _ => true
  | _ => false

/-- Until the pipeline is stopping, no request to cancel a task is on its way to it while it
waits on the queue at one of these points. -/
def undisturbed (s : State α β ε) : Bool :=
  s.stopping || (List.range (s.started + 1)).all fun i =>
    !((s.child i).ended.isNone && (s.child i).pc.mute && (s.child i).task.throws)

def Undisturbed (s : State α β ε) : Prop := undisturbed s = true

instance : DecidablePred (Undisturbed (α := α) (β := β) (ε := ε)) :=
  fun s => inferInstanceAs (Decidable (undisturbed s = true))

theorem Undisturbed.calm (undisturbed : Undisturbed s) (inv : Inv c s) (running : s.stopping = false)
    {i : Nat} (alive : s.live i = true) (mute : (s.child i).pc.mute = true) :
    (s.child i).task.throws = false := by
  obtain ⟨member, ended⟩ := member_of_live alive
  have known := inv.tasks i member
  simp only [Undisturbed, Stream.undisturbed, running, Bool.false_or, List.all_eq_true] at undisturbed
  have here := undisturbed i (List.mem_range.mpr (by omega))
  simpa [ended, mute] using here

def Kept (s t : State α β ε) : Prop :=
  ∀ j, (t.child j).ended = (s.child j).ended ∧
    ((s.child j).ended ≠ none → (t.child j).pc = (s.child j).pc)

namespace Kept

theorem setChild {i : Nat} {d : Child (Pc α) (Exc ε)} (alive : (s.child i).ended = none)
    (ended : d.ended = none) : Kept s (s.setChild i d) := by
  obtain ⟨others, own⟩ := setChild_child s i d
  intro j
  by_cases here : j = i
  · subst here
    exact ⟨by rw [own, ended, alive], fun halted => absurd alive halted⟩
  · rw [others j here]
    exact ⟨rfl, fun _ => rfl⟩

theorem fulfil {woken : Option Nat} (call : t.toCall = s.toCall.fulfil woken) : Kept s t := by
  intro j
  rw [call, Call.fulfil_child]
  split <;> exact ⟨rfl, fun _ => rfl⟩

end Kept

/-- The consumers that have ended are those that took a sentinel, one each, and the
producer ends when it owes no sentinel. -/
structure Staff (s : State α β ε) : Prop where
  gone : ∀ i, i ∈ retired s ↔ (1 ≤ i ∧ i ≤ s.started) ∧ (s.child i).ended ≠ none
  once : (retired s).Nodup
  done : (s.child 0).ended ≠ none → (s.child 0).pc = .finishing 0

namespace Staff

theorem of_kept (staff : Staff s) (kept : Kept s t) (retired_ : retired t = retired s)
    (started : t.started = s.started) : Staff t where
  gone := by
    intro i
    rw [retired_, started, (kept i).1]
    exact staff.gone i
  once := retired_ ▸ staff.once
  done := by
    intro halted
    rw [(kept 0).1] at halted
    exact ((kept 0).2 halted).trans (staff.done halted)

theorem retire (staff : Staff s) {i : Nat} {ended : TaskEnd (Exc ε)} (consumer : 1 ≤ i)
    (bound : i ≤ s.started) (alive : (s.child i).ended = none) :
    Staff ((s.emit (.sentinel i)).endTask i ended) := by
  obtain ⟨others, halted⟩ := endTask_child (s.emit (.sentinel i)) i ended
  have events : retired ((s.emit (.sentinel i)).endTask i ended) = retired s ++ [i] := by
    simp [retired, State.emit, Call.emit, State.endTask, Call.endTask, Call.setChild, Event.sentinel?]
  have fresh : i ∉ retired s := fun member => (staff.gone i).mp member |>.2 alive
  refine ⟨fun j => ?_, ?_, ?_⟩
  · rw [events, List.mem_append, List.mem_singleton, staff.gone]
    by_cases here : j = i
    · subst here
      exact ⟨fun _ => ⟨⟨consumer, bound⟩, halted⟩, fun _ => Or.inr rfl⟩
    · rw [others j here]
      simp only [here, or_false]
      exact Iff.rfl
  · rw [events]
    exact List.nodup_append.mpr ⟨staff.once, by simp, by
      intro j member k isI
      rw [List.mem_singleton.mp isI]
      exact fun same => fresh (same ▸ member)⟩
  · rw [others 0 (by omega)]
    exact staff.done

theorem produced (staff : Staff s) (place : (s.child 0).pc = .finishing 0) {ended : TaskEnd (Exc ε)} :
    Staff (s.endTask 0 ended) := by
  obtain ⟨others, _⟩ := endTask_child s 0 ended
  refine ⟨fun j => ?_, staff.once, fun _ => ?_⟩
  · show j ∈ retired s ↔ _
    rw [staff.gone]
    by_cases here : j = 0
    · simp [here]
    · rw [others j here]
      exact Iff.rfl
  · rw [endTask_pc]
    exact place

theorem spawn (inv : Inv c s) (staff : Staff s) : Staff (s.spawn c) := by
  unfold State.spawn
  split
  · refine ⟨fun i => ?_, staff.once, staff.done⟩
    show i ∈ retired s ↔ (1 ≤ i ∧ i ≤ s.started + 1) ∧ (s.child i).ended ≠ none
    rw [staff.gone]
    by_cases new : i = s.started + 1
    · subst new
      simp [inv.fresh (s.started + 1) (by omega)]
    · have same : i ≤ s.started ↔ i ≤ s.started + 1 := by omega
      rw [same]
  · exact staff

theorem fulfil (staff : Staff s) {woken : Option Nat} (call : t.toCall = s.toCall.fulfil woken)
    (started : t.started = s.started) : Staff t := by
  refine staff.of_kept (.fulfil call) ?_ started
  show t.log.filterMap Event.sentinel? = s.log.filterMap Event.sentinel?
  rw [call, (fulfil_kept _ _).2.1]

theorem setChild (staff : Staff s) {i : Nat} {d : Child (Pc α) (Exc ε)}
    (alive : (s.child i).ended = none) (ended : d.ended = none) : Staff (s.setChild i d) :=
  staff.of_kept (.setChild alive ended) rfl rfl

theorem noted (staff : Staff s) {e : Event α β (Slot β ε) ε} (noSentinel : e.sentinel? = none) :
    Staff (s.emit e) := by
  refine staff.of_kept (fun _ => ⟨rfl, fun _ => rfl⟩) ?_ rfl
  simp [retired, State.emit, Call.emit, noSentinel]

theorem moves (inv : Inv c s) (undisturbed : Undisturbed s) (staff : Staff s) (moved : Moves c s t)
    (calm : t.stopping = false) : Staff t := by
  have before : s.stopping = false := by
    rw [← Bool.not_eq_true]
    intro stopping
    simp [moved.stopping inv stopping] at calm
  have unflagged : ∀ i, (s.child i).groupCancelled = false := by
    intro i
    rw [← Bool.not_eq_true]
    intro flag
    simp [inv.signalled i flag] at before
  cases moved with
  | loop act call _ moved =>
      refine staff.of_kept (fun j => ?_) ?_ rfl
      · have frame := Frame.loopStep moved j
        exact ⟨frame.ended, fun _ => frame.pc⟩
      · show call.log.filterMap Event.sentinel? = s.log.filterMap Event.sentinel?
        rw [(Call.loopStep_same moved).1]
  | user act call moved =>
      obtain ⟨log, _, _, _, ⟨task, child⟩, _, _, _⟩ := Call.userStep_same moved
      refine staff.of_kept (fun j => ?_) ?_ rfl
      · show (call.child j).ended = _ ∧ (_ → (call.child j).pc = _)
        rw [child, Call.setTask_child]
        split
        · rename_i here
          subst here
          exact ⟨rfl, fun _ => rfl⟩
        · exact ⟨rfl, fun _ => rfl⟩
      · show call.log.filterMap Event.sentinel? = s.log.filterMap Event.sentinel?
        rw [log]
  | late act at_ begun =>
      have alive := (member_of_live at_.alive).2
      exact staff.setChild (d := { s.child act.task with task := _ }) alive alive
  | dropped i at_ place throws =>
      have flag := (inv.placement.each i).calm (member_of_live at_.alive).2 place throws
      simp [unflagged i] at flag
  | started i at_ place _ =>
      have alive := (member_of_live at_.alive).2
      exact staff.of_kept (.setChild (s := s) alive alive) rfl rfl
  | putDenied i item at_ place throws notPending => simp [Call.stopping, State.failSource, State.endTask, Call.endTask, Call.setChild] at calm
  | putWoken i item at_ place done _ =>
      have alive := (member_of_live at_.alive).2
      exact staff.of_kept (.setChild (s := s) alive alive) rfl rfl
  | sentinelDenied i left at_ place throws notPending =>
      have quiet := undisturbed.calm inv before at_.alive (by simp [place, Pc.mute])
      simp [throws] at quiet
  | sentinelWoken i left at_ place done _ =>
      have alive := (member_of_live at_.alive).2
      exact staff.of_kept (.setChild (s := s) alive alive) rfl rfl
  | getDenied i at_ place throws notPending =>
      have quiet := undisturbed.calm inv before at_.alive (by simp [place, Pc.mute])
      simp [throws] at quiet
  | getWoken i at_ place done _ =>
      have alive := (member_of_live at_.alive).2
      exact staff.of_kept (.setChild (s := s) alive alive) rfl rfl
  | putWaits i item at_ place full =>
      have alive := (member_of_live at_.alive).2
      exact staff.of_kept (.setChild (s := s) (d := _) alive alive) rfl rfl
  | put i item at_ place room metrics =>
      obtain ⟨notListed, _⟩ := inv.atWork at_ (by simp [place, Pc.atWork])
      obtain ⟨_, busy, _, _⟩ := inv.putNowait (some item) at_ notListed
      have alive := (member_of_live busy.alive).2
      have given : Staff { s.putNowait (some item) with metrics := metrics } := staff.fulfil rfl rfl
      exact given.setChild alive alive
  | produced i at_ place =>
      obtain rfl : i = 0 := (inv.placement.each i).produces (by simp [place, Pc.produces])
      exact staff.produced place
  | sentinelWaits i left at_ place full =>
      have alive := (member_of_live at_.alive).2
      exact staff.of_kept (.setChild (s := s) (d := _) alive alive) rfl rfl
  | sentinelPut i left at_ place room =>
      obtain ⟨notListed, _⟩ := inv.atWork at_ (by simp [place, Pc.atWork])
      obtain ⟨_, busy, _, _⟩ := inv.putNowait none at_ notListed
      have alive := (member_of_live busy.alive).2
      have given : Staff (s.putNowait none) := staff.fulfil rfl rfl
      exact given.setChild alive alive
  | stopped i at_ place stopping => simp [before] at stopping
  | looped i at_ place running =>
      have alive := (member_of_live at_.alive).2
      exact staff.setChild alive alive
  | getWaits i at_ place empty =>
      have alive := (member_of_live at_.alive).2
      exact staff.of_kept (.setChild (s := s) (d := _) alive alive) rfl rfl
  | gotSentinel i rest at_ place entry =>
      obtain ⟨notListed, _⟩ := inv.atWork at_ (by simp [place, Pc.atWork])
      obtain ⟨_, busy, _, _⟩ := inv.pop rest at_ notListed
      have taken : Staff { s with queue := rest }.wakePutter := staff.fulfil rfl rfl
      have consumer := (inv.placement.each i).consumes (by simp [place, Pc.consumes])
      have bound := inv.tasks i (member_of_live at_.alive).1
      exact taken.retire (by omega) bound (member_of_live busy.alive).2
  | discarded i item rest at_ place entry failed =>
      simp [Call.stopping, failed] at before
  | called i item rest at_ place entry open_ cm timed entered =>
      obtain ⟨notListed, _⟩ := inv.atWork at_ (by simp [place, Pc.atWork])
      obtain ⟨_, busy, _, _⟩ := inv.pop rest at_ notListed
      have alive := (member_of_live busy.alive).2
      have taken : Staff { s with queue := rest }.wakePutter := staff.fulfil rfl rfl
      have entered := taken.setChild (d := { { s with queue := rest }.wakePutter.child i with
        pc := .calling s.consumedIndex item cm }) alive alive
      have noted := entered.noted (e := .called s.consumedIndex item) rfl
      exact noted.of_kept (fun _ => ⟨rfl, fun _ => rfl⟩) rfl rfl
  | deadline i index item cm at_ place entered =>
      have alive := (member_of_live at_.alive).2
      have fired := staff.setChild (d := { s.child i with
        pc := .calling index item (some cm.fire), task := (s.child i).task.cancel }) alive alive
      exact fired.noted rfl
  | yieldedLate item at_ place stopping => simp [before] at stopping
  | yielded item at_ place running metrics =>
      have alive := (member_of_live at_.alive).2
      have noted := staff.noted (e := .pulled item) rfl
      have spawned := noted.spawn (inv.emit (e := .pulled item) rfl rfl (by simp [Event.stopped])) (c := c)
      have child : ((s.emit (.pulled item)).spawn c).child 0 = s.child 0 := (spawn_kept c _).2.1 0
      have counted : Staff { (s.emit (.pulled item)).spawn c with metrics := metrics } :=
        spawned.of_kept (fun _ => ⟨rfl, fun _ => rfl⟩) rfl rfl
      have still : ({ (s.emit (.pulled item)).spawn c with metrics := metrics }.child 0).ended = none :=
        (congrArg Child.ended child).trans alive
      exact counted.setChild still still
  | ended at_ place running =>
      have alive := (member_of_live at_.alive).2
      exact staff.setChild alive alive
  | sourceFailed caught at_ place => simp [Call.stopping, State.failSource, State.endTask, Call.endTask, Call.setChild] at calm
  | finished i index item cm out slot at_ place stored metrics =>
      have alive := (member_of_live at_.alive).2
      have left := staff.setChild (d := { s.child i with
        task := (leaveTimeout cm (s.child i).task out).2.2 }) alive alive
      have noted := left.noted (e := .ended index (s.callEnd i out
        (leaveTimeout cm (s.child i).task out)) (.stored slot)) rfl
      have added : Staff { State.emit _ _ with results := s.results ++ [slot], metrics := metrics } :=
        noted.of_kept (fun _ => ⟨rfl, fun _ => rfl⟩) rfl rfl
      have still : ((s.setChild i { s.child i with
          task := (leaveTimeout cm (s.child i).task out).2.2 }).child i).ended = none := by
        rw [(setChild_child s i _).2]
        exact alive
      exact added.setChild still still
  | failed i index item cm out exc at_ place fails => simp [Call.stopping, State.endTask, Call.endTask, Call.setChild] at calm

end Staff

/-- In an undisturbed run, until the call is stopping, no consumer ends but with a sentinel
of its own. -/
theorem staff_of_along {caller : Caller} {actions : List (Act α β ε)}
    (along : Runs.Along c.step Undisturbed (init caller) actions)
    (ran : Runs.run c.step (init caller) actions = some s) (calm : s.stopping = false) : Staff s := by
  have start : Staff (init caller : State α β ε) := by
    refine ⟨fun i => ?_, by simp [retired, init, Call.enter], by simp [init, Call.enter]⟩
    simp [retired, init, Call.enter]
  have all := Runs.along_invariant (p := fun s => Inv c s ∧ (s.stopping = false → Staff s))
    ?_ ⟨Inv.init c caller, fun _ => start⟩ along ran
  · exact all.1.2 calm
  · rintro s a t undisturbed _ ⟨inv, staff⟩ stepped
    have moved := step_moves stepped
    refine ⟨inv.step stepped, fun calm => ?_⟩
    have before : s.stopping = false := by
      rw [← Bool.not_eq_true]
      intro stopping
      simp [moved.stopping inv stopping] at calm
    exact (staff before).moves inv undisturbed moved calm

end Stream

end AsyncPipelines
