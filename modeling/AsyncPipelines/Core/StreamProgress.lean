import AsyncPipelines.Core.StreamFlow

/-!
A call of `stream` that has not finished is never stuck: the loop has a step to run,
or it waits for `fn` or for the source.
-/

namespace AsyncPipelines

open Asyncio Conveyor

variable {α β ε : Type}

namespace Stream

/-- The steps that are neither user code nor made by whoever cancels, nor a timer. -/
def Act.library : Act α β ε → Bool
  | loop .wakeCaller => true
  | loop (.taskDone _) => true
  | start _ => true
  | wake _ => true
  | advance _ => true
  | _ => false

def Enabled (c : Stream) (s : State α β ε) : Prop :=
  ∃ act : Act α β ε, act.library = true ∧ (c.step s act).isSome = true

def Outstanding (s : State α β ε) : Prop :=
  ∃ i, s.live i = true ∧ (s.child i).pc.inUser = true

variable {c : Stream} {s t : State α β ε}

theorem Inv.member (inv : Inv c s) {i : Nat} (alive : (s.child i).ended = none)
    (begun : (s.child i).pc ≠ .created) : s.live i = true := by
  have known : i ≤ s.started := by
    by_contra later
    simp [inv.fresh i (by omega)] at begun
  have member : i ∈ s.group.tasks := by
    by_contra gone
    exact inv.left i known gone alive
  simp [Scope.live, member, alive]

theorem advance_isSome (c : Stream) {i : Nat} (work : (s.child i).pc.atWork = true) :
    (c.advance s i).isSome = true := by
  unfold advance
  split
  · split <;> rfl
  · rfl
  · split <;> rfl
  · split <;> rfl
  · split
    · rfl
    · dsimp only
      split
      · rfl
      · split <;> rfl
  · rename_i place₁ place₂ place₃ place₄ place₅
    cases pc : (s.child i).pc <;> simp_all [Pc.atWork]
    rename_i left
    cases left <;> simp_all

theorem enabled_of_running (inv : Inv c s) (open_ : s.exit = none) {i : Nat}
    (busy : s.running = some i) : Enabled c s ∨ Outstanding s := by
  obtain ⟨alive, place⟩ := (inv.placement.each i).onCpu busy
  have begun : (s.child i).pc ≠ .created := by
    rintro created
    simp [created, Pc.inUser, Pc.atWork] at place
  have member := inv.member alive begun
  rcases place with inside | work
  · exact Or.inr ⟨i, member, inside⟩
  · refine Or.inl ⟨.advance i, rfl, ?_⟩
    simp only [step, open_, busy, member, Option.isNone_none, and_self, ↓reduceIte]
    exact advance_isSome c work

theorem enabled_of_done (open_ : s.exit = none) (idle : s.running = none) {i : Nat}
    (member : i ∈ s.group.tasks) (halted : (s.child i).ended ≠ none) : Enabled c s := by
  refine ⟨.loop (.taskDone i), rfl, ?_⟩
  obtain ⟨ended, found⟩ := Option.ne_none_iff_exists'.mp halted
  simp [step, idle, Call.loopStep, found, open_, member]

theorem enabled_of_created (open_ : s.exit = none) (idle : s.running = none) {i : Nat}
    (alive : s.live i = true) (place : (s.child i).pc = .created) : Enabled c s := by
  refine ⟨.start i, rfl, ?_⟩
  simp only [step, place, open_, idle, alive, Option.isNone_none, and_self, ↓reduceIte]
  split <;> rfl

theorem enabled_of_woken (open_ : s.exit = none) (idle : s.running = none) {i : Nat}
    (alive : s.live i = true) (waiting : (s.child i).pc.waiting = true)
    (woken : (s.child i).task.woken = true) : Enabled c s := by
  refine ⟨.wake i, rfl, ?_⟩
  simp only [step, open_, idle, alive, woken, Option.isNone_none, and_self, ↓reduceIte]
  unfold Stream.woken
  dsimp only
  split
  · split <;> rfl
  · split <;> rfl
  · split <;> rfl
  · cases pc : (s.child i).pc <;> simp_all [Pc.waiting, Pc.gets, Pc.puts]

theorem enabled_of_caller (open_ : s.exit = none) (idle : s.running = none)
    (woken : s.parent.woken = true) : Enabled c s :=
  ⟨.loop .wakeCaller, rfl, by simp [step, idle, Call.loopStep, open_, woken]⟩

/-- The state of a call in which nothing can move. -/
structure Stuck (c : Stream) (s : State α β ε) : Prop where
  open_ : s.exit = none
  disabled : ¬ Enabled c s
  nobody : ¬ Outstanding s

namespace Stuck

theorem idle (stuck : Stuck c s) (inv : Inv c s) : s.running = none := by
  cases running : s.running with
  | none => rfl
  | some i =>
      rcases enabled_of_running inv stuck.open_ running with enabled | outstanding
      · exact absurd enabled stuck.disabled
      · exact absurd outstanding stuck.nobody

theorem alive (stuck : Stuck c s) (inv : Inv c s) {i : Nat} (member : i ∈ s.group.tasks) :
    s.live i = true := by
  have alive : (s.child i).ended = none := by
    by_contra halted
    exact stuck.disabled (enabled_of_done stuck.open_ (stuck.idle inv) member halted)
  simp [Scope.live, member, alive]

theorem waiting (stuck : Stuck c s) (inv : Inv c s) {i : Nat} (alive : s.live i = true) :
    (s.child i).pc.waiting = true ∧ (s.child i).task.waiter = some .pending ∧
      (s.child i).groupCancelled = false := by
  have ended := (member_of_live alive).2
  have idle := stuck.idle inv
  have waits : (s.child i).pc.waiting = true := by
    have begun : (s.child i).pc ≠ .created := fun created =>
      stuck.disabled (enabled_of_created stuck.open_ idle alive created)
    have outside : (s.child i).pc.inUser ≠ true := fun inside => stuck.nobody ⟨i, alive, inside⟩
    have resting : (s.child i).pc.atWork ≠ true := by
      intro work
      have busy := (inv.placement.each i).busy ended work
      simp [idle] at busy
    cases pc : (s.child i).pc <;> simp_all [Pc.inUser, Pc.atWork, Pc.waiting, Pc.gets, Pc.puts]
  have asleep : (s.child i).task.woken ≠ true := fun woken =>
    stuck.disabled (enabled_of_woken stuck.open_ idle alive waits woken)
  have parked := (inv.placement.each i).parked ended waits
  refine ⟨waits, ?_, ?_⟩
  · cases waiter : (s.child i).task.waiter with
    | none => exact absurd waiter parked
    | some fut => cases fut <;> simp_all [Task.woken]
  · rw [← Bool.not_eq_true]
    intro flag
    have throws := (inv.placement.each i).flagged ended (Or.inl waits) flag
    exact asleep (Task.throws_woken throws parked)

theorem calm (stuck : Stuck c s) (inv : Inv c s) :
    (∃ i, s.live i = true) ∧ s.stopping = false := by
  have idle := stuck.idle inv
  have asleep : s.parent.woken ≠ true := fun woken =>
    stuck.disabled (enabled_of_caller stuck.open_ idle woken)
  obtain ⟨fut, waiter, tasks⟩ := inv.sound.waiting stuck.open_
  have pending : fut = .pending := by
    cases fut <;> simp_all [Task.woken]
  have some_ := tasks pending
  obtain ⟨i, member⟩ := List.exists_mem_of_ne_nil _ some_
  have alive := stuck.alive inv member
  have settled : s.group.aborting = false := by
    rw [← Bool.not_eq_true]
    intro aborting
    have flag := inv.sound.reached aborting i alive
    simp [(stuck.waiting inv alive).2.2] at flag
  have quiet : s.callerCancelled = false := by
    rw [← Bool.not_eq_true]
    intro cancelled
    rcases inv.sound.delivered stuck.open_ cancelled with throws | aborting
    · exact asleep (Task.throws_woken throws (by simp [waiter]))
    · simp [settled] at aborting
  refine ⟨⟨i, alive⟩, ?_⟩
  rw [← Bool.not_eq_true, Call.stopping_iff]
  rintro (failed | cancelled)
  · rcases inv.sound.cause stuck.open_ failed with cancelled | ⟨j, e, raised⟩
    · simp [quiet] at cancelled
    · rcases inv.sound.reported j e raised with member | erred
      · have alive := (member_of_live (stuck.alive inv member)).2
        simp [alive] at raised
      · have aborting := inv.sound.erred (List.ne_nil_of_mem erred)
        simp [settled] at aborting
  · simp [quiet] at cancelled

end Stuck

/-- A call in which everybody waits for a wake-up, and nobody is left to make one. -/
theorem stuck_of_asleep (idle : s.running = none)
    (asleep : ∀ i ∈ s.group.tasks, (s.child i).ended = none ∧ (s.child i).pc.waiting = true ∧
      (s.child i).task.waiter = some .pending)
    (caller : s.parent.woken = false) : ¬ Enabled c s ∧ ¬ Outstanding s := by
  have waits : ∀ i, s.live i = true → (s.child i).pc.waiting = true ∧
      (s.child i).task.waiter = some .pending :=
    fun i alive => (asleep i (member_of_live alive).1).2
  constructor
  · rintro ⟨act, library, enabled⟩
    obtain ⟨t, stepped⟩ := Option.isSome_iff_exists.mp enabled
    cases act with
    | loop act =>
        cases act with
        | cancelCaller => simp [Act.library] at library
        | rearm _ _ => simp [Act.library] at library
        | wakeCaller => simp [step, idle, Call.loopStep, caller] at stepped
        | taskDone i =>
            simp only [step, idle, Option.all_none, ↓reduceIte, Call.loopStep] at stepped
            split at stepped
            · rename_i ended found
              split at stepped
              · rename_i member
                simp [(asleep i member.2.2).1] at found
              · simp at stepped
            · simp at stepped
    | start i =>
        simp only [step] at stepped
        split at stepped
        · rename_i created
          split at stepped
          · rename_i ready
            have waiting := (waits i ready.2.2).1
            simp [created, Pc.waiting, Pc.gets, Pc.puts] at waiting
          · simp at stepped
        · simp at stepped
    | wake i =>
        simp only [step] at stepped
        split at stepped
        · rename_i ready
          have pending := (waits i ready.2.2.1).2
          simp [Task.woken, pending] at ready
        · simp at stepped
    | advance i => simp [step, idle] at stepped
    | user _ => simp [Act.library] at library
    | late _ => simp [Act.library] at library
    | deadline _ => simp [Act.library] at library
    | source _ => simp [Act.library] at library
    | finish _ _ => simp [Act.library] at library
  · rintro ⟨i, alive, inside⟩
    have waiting := (waits i alive).1
    cases pc : (s.child i).pc <;> simp_all [Pc.inUser, Pc.waiting, Pc.gets, Pc.puts]

namespace Staff

theorem within (staff : Staff s) : ∀ i ∈ retired s, i ∈ List.range' 1 s.started := by
  intro i member
  have bounds := ((staff.gone i).mp member).1
  rw [List.mem_range'_1]
  omega

theorem all (staff : Staff s) (count : (retired s).length = s.started) {i : Nat} (consumer : 1 ≤ i)
    (known : i ≤ s.started) : i ∈ retired s := by
  have perm := (List.subperm_of_subset staff.once staff.within).perm_of_length_le (by simp [count])
  rw [perm.mem_iff, List.mem_range'_1]
  omega

theorem left (staff : Staff s) (count : (retired s).length < s.started) :
    ∃ i, (1 ≤ i ∧ i ≤ s.started) ∧ (s.child i).ended = none := by
  by_contra none
  have every : ∀ i ∈ List.range' 1 s.started, i ∈ retired s := by
    intro i member
    rw [List.mem_range'_1] at member
    refine (staff.gone i).mpr ⟨by omega, fun alive => none ⟨i, by omega, alive⟩⟩
  have more := (List.subperm_of_subset List.nodup_range' every).length_le
  simp only [List.length_range'] at more
  omega

end Staff

theorem Inv.live_of_left (inv : Inv c s) {i : Nat} (known : i ≤ s.started)
    (alive : (s.child i).ended = none) : s.live i = true := by
  have member : i ∈ s.group.tasks := by
    by_contra gone
    exact inv.left i known gone alive
  simp [Scope.live, member, alive]

/-- The producer that waits for room has a consumer to make it. -/
theorem Staff.consumer (inv : Inv c s) (staff : Staff s) (sorted : Sorted (belt s))
    (waits : Waits Pc.puts (s.child 0)) : ∃ i, i ≠ 0 ∧ s.live i = true := by
  obtain ⟨_, puts, _⟩ := waits
  have more : (belt s).hand ≠ none ∨ ∃ left, (belt s).owed = some (left + 1) := by
    cases pc : (s.child 0).pc <;> simp_all [Pc.puts, belt, Pc.hand, Pc.owed]
  obtain ⟨i, known, alive⟩ := staff.left (sorted.manned more)
  exact ⟨i, by omega, inv.live_of_left known.2 alive⟩

/-- Once the producer has ended there is an entry left for a consumer that waits. -/
theorem Staff.entry (inv : Inv c s) (staff : Staff s) (sorted : Sorted (belt s)) {i : Nat}
    (waits : Waits Pc.gets (s.child i)) (halted : (s.child 0).ended ≠ none) : s.queue ≠ [] := by
  intro empty
  obtain ⟨alive, gets, _⟩ := waits
  have place : (s.child i).pc = .getting := by
    cases pc : (s.child i).pc <;> simp_all [Pc.gets]
  have consumer := (inv.placement.each i).consumes (by simp [place, Pc.consumes])
  have known := inv.tasks i (member_of_live (inv.member alive (by simp [place]))).1
  have paid : (belt s).owed = some 0 := by simp [belt, staff.done halted, Pc.owed]
  have gone := staff.all (sorted.drained paid empty) (by omega) known
  exact ((staff.gone i).mp gone).2 alive

/-- Where nothing can move, no consumer is on its way, so the queue is empty for a
consumer and full for the producer: neither can be. -/
theorem Stuck.impossible (stuck : Stuck c s) (inv : Inv c s) (fed : Fed c 0 0 s) (room : Room c s)
    (staff : Staff s) (sorted : Sorted (belt s)) (bounded : 1 ≤ c.queueSize) : False := by
  have nobody : c.onTheirWay s = 0 := by
    refine Nat.count_iff_forall_not.mpr fun j _ isHungry => ?_
    have alive : (s.child j).ended = none := by
      cases ended : (s.child j).ended <;> simp_all [hungry]
    obtain ⟨waits, pending, _⟩ := stuck.waiting inv (inv.member alive (hungry_begun isHungry))
    cases pc : (s.child j).pc <;> simp_all [hungry, Pc.waiting, Pc.gets, Pc.puts]
  have consumer : ∀ i, i ≠ 0 → s.live i = true → Waits Pc.gets (s.child i) := by
    intro i other alive
    obtain ⟨waits, pending, _⟩ := stuck.waiting inv alive
    refine ⟨(member_of_live alive).2, ?_, pending⟩
    have notProducer : (s.child i).pc.produces ≠ true :=
      fun produces => other ((inv.placement.each i).produces produces)
    cases pc : (s.child i).pc <;> simp_all [Pc.waiting, Pc.gets, Pc.puts, Pc.produces]
  have hungers : ∀ i, i ≠ 0 → s.live i = true → s.queue = [] := by
    intro i other alive
    have covered := fed i (consumer i other alive)
    rw [nobody] at covered
    exact List.length_eq_zero_iff.mp (by omega)
  cases producer : (s.child 0).ended with
  | none =>
      have alive := inv.live_of_left (Nat.zero_le _) producer
      obtain ⟨waits, pending, _⟩ := stuck.waiting inv alive
      have puts : Waits Pc.puts (s.child 0) := by
        refine ⟨producer, ?_, pending⟩
        have notConsumer : (s.child 0).pc.consumes ≠ true :=
          fun consumes => (inv.placement.each 0).consumes consumes rfl
        cases pc : (s.child 0).pc <;> simp_all [Pc.waiting, Pc.gets, Pc.puts, Pc.consumes]
      have full := room 0 puts
      obtain ⟨i, other, left⟩ := staff.consumer inv sorted puts
      simp only [hungers i other left, List.length_nil] at full
      omega
  | some ended =>
      obtain ⟨i, alive⟩ := (stuck.calm inv).1
      have other : i ≠ 0 := by
        rintro rfl
        simp [(member_of_live alive).2] at producer
      exact staff.entry inv sorted (consumer i other alive) (by simp [producer]) (hungers i other alive)

def Pc.atQueue (pc : Pc α) : Bool :=
  match pc with
  | offering _ => true
  | putting _ => true
  | finishing _ => true
  | puttingSentinel _ => true
  | taking => true
  | getting => true
  | _ => false

def Away (s t : State α β ε) : Prop :=
  ∀ j, (s.child j).pc.atQueue = false → (t.child j).pc.atQueue = false

namespace Away

theorem refl (s : State α β ε) : Away s s := fun _ away => away

theorem of_pc (same : ∀ j, (t.child j).pc = (s.child j).pc) : Away s t :=
  fun j away => (same j).symm ▸ away

theorem trans {u : State α β ε} (first : Away s t) (second : Away t u) : Away s u :=
  fun j away => second j (first j away)

theorem endTask (s : State α β ε) (i : Nat) (ended : TaskEnd (Exc ε)) : Away s (s.endTask i ended) :=
  of_pc fun _ => endTask_pc s i _ ended

theorem fulfil {woken : Option Nat} (call : t.toCall = s.toCall.fulfil woken) : Away s t :=
  of_pc fun j => by rw [call, fulfil_pc]

theorem setChild {i : Nat} {d : Child (Pc α) (Exc ε)}
    (own : (s.child i).pc.atQueue = false → d.pc.atQueue = false) : Away s (s.setChild i d) := by
  obtain ⟨others, same⟩ := setChild_child s i d
  intro j away
  by_cases here : j = i
  · subst here
    rw [same]
    exact own away
  · rw [others j here]
    exact away

theorem leavePut (s : State α β ε) (i : Nat) : Away s (s.leavePut c i) := by
  unfold State.leavePut
  dsimp only
  split
  · exact fulfil (s := { s with putters := s.putters.erase i }) rfl
  · exact refl s

theorem leaveGet (s : State α β ε) (i : Nat) : Away s (s.leaveGet i) := by
  unfold State.leaveGet
  dsimp only
  split
  · exact fulfil (s := { s with getters := s.getters.erase i }) rfl
  · exact refl s

theorem pop (s : State α β ε) (rest : List (Option α)) : Away s { s with queue := rest }.wakePutter :=
  fulfil (s := { s with queue := rest }) rfl

theorem put (s : State α β ε) (entry : Option α) : Away s (s.putNowait entry) :=
  fulfil (s := { s with queue := s.queue ++ [entry] }) rfl

theorem failSource (s : State α β ε) (caught : Exc ε) : Away s (s.failSource caught) :=
  of_pc fun _ => endTask_pc { s.emit _ with failed := true } 0 _ _

theorem moves (moved : Moves c s t) (stopping : s.stopping = true) : Away s t := by
  cases moved with
  | loop act call calm moved => exact of_pc fun j => (Frame.loopStep moved j).pc
  | user act call moved =>
      obtain ⟨_, _, _, _, ⟨task, child⟩, _, _, _⟩ := Call.userStep_same moved
      refine of_pc fun j => ?_
      show (call.child j).pc = _
      rw [child, Call.setTask_child]
      split
      · rename_i here
        rw [here]
      · rfl
  | late act at_ begun => exact setChild (s := s) id
  | dropped | produced | stopped => exact endTask s _ _
  | started i at_ place calm =>
      refine setChild (s := s) fun _ => ?_
      split <;> rfl
  | putDenied i item at_ place throws notPending => exact (leavePut s i).trans (failSource _ _)
  | sentinelDenied i left at_ place throws notPending => exact (leavePut s i).trans (endTask _ _ _)
  | getDenied i at_ place throws notPending => exact (leaveGet s i).trans (endTask _ _ _)
  | putWoken i item at_ place done calm => exact setChild (s := s) (by simp [place, Pc.atQueue])
  | sentinelWoken i left at_ place done calm => exact setChild (s := s) (by simp [place, Pc.atQueue])
  | getWoken i at_ place done calm => exact setChild (s := s) (by simp [place, Pc.atQueue])
  | putWaits i item at_ place full => exact setChild (s := s) (i := i) (d := { s.child i with
      pc := .putting item, task := (s.child i).task.await }) (by simp [place, Pc.atQueue])
  | put i item at_ place room metrics =>
      exact (put s (some item)).trans (setChild (s := { s.putNowait (some item) with metrics := metrics })
        fun _ => rfl)
  | sentinelWaits i left at_ place full => exact setChild (s := s) (i := i) (d := { s.child i with
      pc := .puttingSentinel left, task := (s.child i).task.await }) (by simp [place, Pc.atQueue])
  | sentinelPut i left at_ place room =>
      have own : ((s.putNowait none).child i).pc = .finishing (left + 1) :=
        (fulfil_pc _ _ i).trans place
      exact (put s none).trans (setChild (by simp [own, Pc.atQueue]))
  | looped i at_ place running => simp [running] at stopping
  | getWaits i at_ place empty => exact setChild (s := s) (i := i) (d := { s.child i with
      pc := .getting, task := (s.child i).task.await }) (by simp [place, Pc.atQueue])
  | gotSentinel i rest at_ place entry =>
      exact (pop s rest).trans (endTask ({ s with queue := rest }.wakePutter.emit (.sentinel i)) i _)
  | discarded i item rest at_ place entry failed => exact (pop s rest).trans (endTask _ i _)
  | called i item rest at_ place entry open_ cm timed entered =>
      exact (pop s rest).trans (setChild (d := { { s with queue := rest }.wakePutter.child i with
        pc := .calling s.consumedIndex item cm }) fun _ => rfl)
  | deadline i index item cm at_ place entered =>
      exact setChild (s := s) (i := i) (d := { s.child i with
        pc := .calling index item (some cm.fire), task := (s.child i).task.cancel }) fun _ => rfl
  | yieldedLate item at_ place _ => exact failSource (s.emit (.pulled item)) .cancelledError
  | yielded item at_ place running metrics => simp [running] at stopping
  | ended at_ place running => simp [running] at stopping
  | sourceFailed caught at_ place => exact failSource s caught
  | finished i index item cm out slot at_ place stored metrics =>
      have left : Away s { (s.setChild i { s.child i with
          task := (leaveTimeout cm (s.child i).task out).2.2 }).emit
            (.ended index (s.callEnd i out (leaveTimeout cm (s.child i).task out)) (.stored slot)) with
          results := s.results ++ [slot], metrics := metrics } :=
        setChild (i := i) (d := { s.child i with
          task := (leaveTimeout cm (s.child i).task out).2.2 }) id
      exact left.trans (setChild fun _ => rfl)
  | failed i index item cm out exc at_ place fails =>
      have left : Away s { (s.setChild i { s.child i with
          task := (leaveTimeout cm (s.child i).task out).2.2 }).emit
            (.ended index (s.callEnd i out (leaveTimeout cm (s.child i).task out)) (.failed exc)) with
          failed := true } :=
        setChild (i := i) (d := { s.child i with
          task := (leaveTimeout cm (s.child i).task out).2.2 }) id
      exact left.trans (endTask _ i _)

end Away

theorem away_of_reaches (inv : Inv c s) (stopping : s.stopping = true)
    (reached : Runs.Reaches c.step s t) : Away s t := by
  have all : (Inv c t ∧ t.stopping = true) ∧ Away s t := by
    refine reached.invariant (p := fun t => (Inv c t ∧ t.stopping = true) ∧ Away s t) ?_
      ⟨⟨inv, stopping⟩, Away.refl s⟩
    rintro t a u ⟨⟨inv, stopping⟩, away⟩ stepped
    have moved := step_moves stepped
    exact ⟨⟨inv.step stepped, moved.stopping inv stopping⟩, away.trans (Away.moves moved stopping)⟩
  exact all.2

/-- `stream` never hangs, in a run in which no request of user code reaches a task that waits on
the queue before the pipeline is stopping. -/
theorem stream_progress (c : Stream) (sized : 1 ≤ c.concurrency) (bounded : 1 ≤ c.queueSize)
    (caller : Caller) (actions : List (Act α β ε)) (s : State α β ε)
    (along : Runs.Along c.step Undisturbed (init caller) actions)
    (ran : Runs.run c.step (init caller) actions = some s) :
    (s.exit = none → Enabled c s ∨ Outstanding s) ∧
    (s.stopping = false → Waits Pc.puts (s.child 0) → ∃ i, i ≠ 0 ∧ s.live i = true) ∧
    (∀ i, s.stopping = false → Waits Pc.gets (s.child i) → s.live 0 = true ∨ s.queue ≠ []) ∧
    (∀ i t, s.stopping = true → (s.child i).pc.atQueue = false → Runs.Reaches c.step s t →
      (t.child i).pc.atQueue = false) ∧
    ∀ i, s.group.aborting = true → s.live i = true → (s.child i).pc.waiting = true →
      (s.child i).task.woken = true := by
  have reached : Runs.Reaches c.step (init caller) s := ⟨actions, ran⟩
  have inv := inv_of_reaches reached
  have sorted : s.stopping = false → Sorted (belt s) := by
    intro calm
    simp only [Call.stopping, Bool.or_eq_false_iff] at calm
    exact sorted_of_reaches sized reached calm.1
  refine ⟨fun open_ => ?_, fun calm waits => ?_, fun i calm waits => ?_, fun i t stopping away later => ?_,
    fun i aborting alive waits => ?_⟩
  · by_contra none
    have stuck : Stuck c s := ⟨open_, fun enabled => none (Or.inl enabled),
      fun outstanding => none (Or.inr outstanding)⟩
    have calm := (stuck.calm inv).2
    exact stuck.impossible inv (fed_of_reaches reached) (room_of_reaches reached)
      (staff_of_along along ran calm) (sorted calm) bounded
  · exact (staff_of_along along ran calm).consumer inv (sorted calm) waits
  · cases producer : (s.child 0).ended with
    | none => exact Or.inl (inv.live_of_left (Nat.zero_le _) producer)
    | some ended =>
        exact Or.inr ((staff_of_along along ran calm).entry inv (sorted calm) waits (by simp [producer]))
  · exact away_of_reaches inv stopping later i away
  · have ended := (member_of_live alive).2
    have flag := inv.sound.reached aborting i alive
    have throws := (inv.placement.each i).flagged ended (Or.inl waits) flag
    exact Task.throws_woken throws ((inv.placement.each i).parked ended waits)

def narrow : Stream where
  concurrency := 1
  queueSize := 1
  returnExceptions := false
  metrics := false
  timeout := none

def firstCall : List (Act Nat Nat Unit) :=
  [.start 0, .source (.yields 0), .advance 0, .user (.suspend 0), .start 1, .advance 1, .advance 1]

def secondItem : List (Act Nat Nat Unit) :=
  [.user (.resume 0), .source (.yields 1), .advance 0, .source .ends, .advance 0]

def goodCall : List (Act Nat Nat Unit) :=
  firstCall ++ [.finish 1 (.returned 10), .advance 1, .advance 1] ++ secondItem

theorem stream_progress_narrow : ∃ s : State Nat Nat Unit, s.exit = none ∧ s.queue = [some 1] ∧
    Runs.run narrow.step (init { task := {} }) goodCall = some s ∧
    (Enabled narrow s ∨ Outstanding s) := by
  have ends : (Runs.run narrow.step (init { task := {} }) goodCall).any
      (fun s => s.exit.isNone && s.queue == [some 1]) = true := by decide
  obtain ⟨s, ran, checked⟩ := (Option.any_eq_true _ _).mp ends
  simp only [Bool.and_eq_true, Option.isNone_iff_eq_none, beq_iff_eq] at checked
  have along : Runs.Along narrow.step Undisturbed (init { task := {} }) goodCall := by
    decide
  exact ⟨s, checked.1, checked.2, ran,
    (stream_progress narrow (le_refl 1) (le_refl 1) { task := {} } goodCall s along ran).1 checked.1⟩

def leftoverRequest : List (Act Nat Nat Unit) :=
  firstCall ++ [.user (.cancelSelf 1), .finish 1 (.returned 10), .advance 1, .advance 1, .wake 1] ++
    secondItem ++ [.loop (.taskDone 1)]

def allAsleep (s : State α β ε) : Bool :=
  s.exit.isNone && s.running.isNone && !s.parent.woken && s.group.tasks.all fun i =>
    (s.child i).ended.isNone && (s.child i).pc.waiting && (s.child i).task.waiter == some .pending

/-- The consumer dies at `queue.get()`, and the producer waits for room for ever. -/
theorem stream_hangs : ¬ ∀ (c : Stream) (caller : Caller) (s : State Nat Nat Unit),
    1 ≤ c.concurrency → 1 ≤ c.queueSize → Runs.Reaches c.step (init caller) s → s.exit = none →
    Enabled c s ∨ Outstanding s := by
  intro progress
  have ends : (Runs.run narrow.step (init { task := {} }) leftoverRequest).any allAsleep = true := by
    decide
  obtain ⟨s, ran, checked⟩ := (Option.any_eq_true _ _).mp ends
  simp only [allAsleep, Bool.and_eq_true, Option.isNone_iff_eq_none, Bool.not_eq_true',
    List.all_eq_true, beq_iff_eq] at checked
  obtain ⟨⟨⟨open_, idle⟩, caller⟩, asleep⟩ := checked
  have dead := stuck_of_asleep (c := narrow) idle (fun i member =>
    ⟨(asleep i member).1.1, (asleep i member).1.2, (asleep i member).2⟩) caller
  rcases progress narrow { task := {} } s (le_refl 1) (le_refl 1) ⟨_, ran⟩ open_ with enabled | outstanding
  · exact dead.1 enabled
  · exact dead.2 outstanding

end Stream

end AsyncPipelines
