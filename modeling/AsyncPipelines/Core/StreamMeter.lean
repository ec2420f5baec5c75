import AsyncPipelines.Core.StreamCalls
import AsyncPipelines.Lib.Meter

/-!
`stream` seen as a bounded buffer in numbers: each of its steps is a step of the gauge,
whose counters are the fields of `StreamMetrics`.
-/

namespace AsyncPipelines

open Asyncio Conveyor Meter

variable {α β ε : Type}

namespace Stream

/-- What happened in a run and does not show in its state: items that were dropped, puts
of items that were made, waited or begun, and the most items the queue has held. -/
structure Past where
  lost : Nat := 0
  puts : Nat := 0
  waits : Nat := 0
  offers : Nat := 0
  deepest : Nat := 0
  deriving DecidableEq

def queued (s : State α β ε) : Nat := s.queue.countP Option.isSome

def Past.after (c : Stream) (s : State α β ε) (a : Act α β ε) (t : State α β ε) (p : Past) : Past :=
  let p := match a with
    | .source (.yields _) =>
        if s.stopping then { p with lost := p.lost + 1 } else { p with offers := p.offers + 1 }
    | .advance i =>
        match (s.child i).pc with
        | .offering _ =>
            if s.full c then { p with waits := p.waits + 1 } else { p with puts := p.puts + 1 }
        | .taking =>
            match s.queue with
            | some _ :: _ => if s.failed then { p with lost := p.lost + 1 } else p
            | _ => p
        | _ => p
    | .wake i =>
        match (s.child i).pc with
        | .putting _ => if (s.child i).task.throws then { p with lost := p.lost + 1 } else p
        | _ => p
    | _ => p
  { p with deepest := max p.deepest (queued t) }

structure View (α : Type) where
  pulled : Nat
  taken : Nat
  ended : Nat
  queue : List (Option α)
  stored : Nat
  failed : Bool
  metrics : StreamMetrics
  place : Pc α
  alive : Bool

def view (s : State α β ε) : View α where
  pulled := (pulls s).length
  taken := (calls s).length
  ended := (ends s).length
  queue := s.queue
  stored := s.results.length
  failed := s.failed
  metrics := s.metrics
  place := (s.child 0).pc
  alive := (s.child 0).ended.isNone

namespace View

def hand (v : View α) : Nat := if v.alive && v.place.hand.isSome then 1 else 0

def due (c : Stream) (v : View α) : Nat :=
  match v.place with
  | .offering _ => if v.alive && decide (c.queueSize ≤ v.queue.length) then 1 else 0
  | _ => 0

def gauge (c : Stream) (v : View α) (p : Past) : Gauge where
  pulled := v.pulled
  hand := v.hand
  queued := v.queue.countP Option.isSome
  taken := v.taken
  ended := v.ended
  stored := v.stored
  lost := p.lost
  puts := p.puts
  waits := p.waits
  offers := p.offers
  due := v.due c
  deepest := p.deepest
  failed := v.failed
  produced := v.metrics.produced
  consumed := v.metrics.consumed
  pauses := v.metrics.producerPauses
  depth := v.metrics.maxQueueDepth

end View

def gauge (c : Stream) (s : State α β ε) (p : Past) : Gauge := (view s).gauge c p

/-- No sentinel is in the queue before the source has ended, and a producer that was
woken finds room. -/
structure Early (c : Stream) (s : State α β ε) : Prop where
  bounded : s.queue.length ≤ c.queueSize
  plain : (s.child 0).pc.owed = none → queued s = s.queue.length
  room : (s.child 0).ended = none → (s.child 0).pc.puts = true →
    (s.child 0).task.waiter = some .done → s.queue.length < c.queueSize

variable {c : Stream} {s t : State α β ε}

namespace Early

theorem kept (early : Early c s) (queue : t.queue = s.queue) (same : t.child 0 = s.child 0) :
    Early c t where
  bounded := queue ▸ early.bounded
  plain := by
    rw [same, queue]
    unfold queued
    rw [queue]
    exact early.plain
  room := by
    rw [same, queue]
    exact early.room

theorem moved (early : Early c s) (queue : t.queue = s.queue)
    (owed : (t.child 0).pc.owed = none → (s.child 0).pc.owed = none)
    (awake : (t.child 0).ended = none → (t.child 0).pc.puts = true →
      (t.child 0).task.waiter ≠ some .done) : Early c t where
  bounded := queue ▸ early.bounded
  plain := by
    intro none
    rw [queue]
    unfold queued
    rw [queue]
    exact early.plain (owed none)
  room := fun alive puts done => absurd done (awake alive puts)

theorem own (early : Early c s) {i : Nat} {d : Child (Pc α) (Exc ε)} (queue : t.queue = s.queue)
    (child : t.child = (s.setChild i d).child)
    (fits : i = 0 → (d.pc.owed = none → (s.child 0).pc.owed = none) ∧
      (d.pc.puts = true → d.task.waiter ≠ some .done)) : Early c t := by
  obtain ⟨others, own⟩ := setChild_child s i d
  by_cases producer : i = 0
  · subst producer
    have fits := fits rfl
    refine early.moved queue ?_ ?_ <;> rw [child, own]
    · exact fits.1
    · exact fun _ => fits.2
  · exact early.kept queue (by rw [child, others 0 (Ne.symm producer)])

theorem endTask (early : Early c s) (i : Nat) (ended : TaskEnd (Exc ε)) : Early c (s.endTask i ended) := by
  by_cases producer : i = 0
  · subst producer
    refine early.moved rfl (by rw [endTask_pc]; exact id) fun alive => ?_
    exact absurd alive (endTask_child s 0 ended).2
  · exact early.kept rfl ((endTask_child s i ended).1 0 (Ne.symm producer))

theorem wakeGetter (early : Early c s) (placement : Placement s) : Early c s.wakeGetter := by
  have woken := (wakeupNext_spec (fun k => (s.child k).task) s.getters).1
  have child : s.wakeGetter.child 0 = s.child 0 := by
    refine (Call.fulfil_child _ _ 0).trans (if_neg fun isWoken => ?_)
    have gets := ((placement.each 0).inDeque (woken 0 isWoken).2).1
    refine (placement.each 0).consumes ?_ rfl
    cases pc : (s.child 0).pc <;> simp_all [Pc.gets, Pc.consumes]
  exact early.kept rfl child

theorem pop (early : Early c s) {entry : Option α} {rest : List (Option α)}
    (front : s.queue = entry :: rest) : Early c { s with queue := rest }.wakePutter := by
  have bounded := early.bounded
  rw [front, List.length_cons] at bounded
  have queue : { s with queue := rest }.wakePutter.queue = rest := rfl
  refine ⟨by rw [queue]; omega, fun none => ?_, fun _ _ _ => by rw [queue]; omega⟩
  have pc : ({ s with queue := rest }.wakePutter.child 0).pc = (s.child 0).pc := fulfil_pc _ _ 0
  have plain := early.plain (pc ▸ none)
  unfold queued at plain ⊢
  rw [front] at plain
  rw [queue]
  have fewer := List.countP_le_length (p := Option.isSome) (l := rest)
  rw [List.countP_cons, List.length_cons] at plain
  split at plain <;> omega

theorem put (early : Early c s) (placement : Placement s) (room : s.full c = false)
    (outside : (s.child 0).pc.puts = false) (entry : Option α)
    (plain : (s.child 0).pc.owed = none → entry.isSome = true) : Early c (s.putNowait entry) := by
  simp only [State.full, decide_eq_false_iff_not] at room
  have put : Early c { s with queue := s.queue ++ [entry] } := by
    refine ⟨?_, fun none => ?_, fun _ puts => ?_⟩
    · simp
      omega
    · have before := early.plain none
      unfold queued at before ⊢
      simp [before, plain none]
    · simp [outside] at puts
  exact put.wakeGetter (placement.congr rfl rfl rfl rfl)

theorem leaveGet (early : Early c s) (placement : Placement s) {i : Nat}
    (notPending : (s.child i).task.waiter ≠ some .pending) : Early c (s.leaveGet i) := by
  have left : Early c { s with getters := s.getters.erase i } := early.kept rfl rfl
  unfold State.leaveGet
  dsimp only
  split
  · exact left.wakeGetter (placement.eraseGetter notPending)
  · exact left

theorem failSource (early : Early c s) (caught : Exc ε) : Early c (s.failSource caught) :=
  endTask (s := { s.emit _ with failed := true }) (early.kept rfl rfl) 0 _

theorem denied (early : Early c s) (same : belt t = belt s) (halted : (t.child 0).ended ≠ none) :
    Early c t := by
  refine early.moved (congrArg Belt.queue same) (fun none => ?_) fun alive => absurd alive halted
  exact (congrArg Belt.owed same).symm.trans none

theorem moves (inv : Inv c s) (early : Early c s) (moved : Moves c s t) : Early c t := by
  have producer : ∀ i, (s.child i).pc.produces = true → i = 0 := fun i => (inv.placement.each i).produces
  have consumer : ∀ i, (s.child i).pc.consumes = true → i ≠ 0 := fun i => (inv.placement.each i).consumes
  have asleep : ∀ task : Task, task.await.waiter ≠ some .done := by
    intro task
    rw [Task.await_waiter]
    split <;> simp
  cases moved with
  | loop act call calm moved =>
      have frame := Frame.loopStep moved 0
      refine ⟨early.bounded, fun none => early.plain (frame.pc ▸ none), fun alive puts done => ?_⟩
      refine early.room (frame.ended ▸ alive) (frame.pc ▸ puts) ?_
      rcases Call.loopStep_child moved 0 with same | cancelled
      · exact (congrArg (·.task.waiter) same).symm.trans done
      · have done : (s.child 0).cancel.task.waiter = some .done := cancelled ▸ done
        unfold Child.cancel at done
        split at done
        · exact done
        · rw [Task.cancel_waiter] at done
          split at done
          · simp at done
          · exact done
  | user act call moved =>
      obtain ⟨_, _, _, _, ⟨task, child⟩, ⟨inside, _⟩, _, _⟩ := Call.userStep_same moved
      refine early.own (i := act.task) rfl child fun isProducer => ⟨by rw [isProducer]; exact id, fun puts => ?_⟩
      cases pc : (s.child act.task).pc <;> simp_all [Pc.inUser, Pc.puts]
  | late act at_ begun =>
      obtain ⟨others, own⟩ := setChild_child s act.task { s.child act.task with
        task := act.after (s.child act.task).task }
      by_cases isProducer : act.task = 0
      · rw [isProducer] at own ⊢
        refine ⟨early.bounded, fun none => early.plain ?_, fun alive puts done => ?_⟩
        · rw [own] at none
          exact none
        rw [own] at alive puts done
        refine early.room alive puts ?_
        rcases act.after_waiter (s.child 0).task with same | ⟨_, cancelled⟩
        · exact same.symm.trans done
        · simp [cancelled] at done
      · refine early.own (i := act.task) rfl rfl fun same => absurd same isProducer
  | dropped i at_ place throws => exact early.endTask i _
  | started i at_ place calm =>
      refine early.own (i := i) rfl rfl fun isProducer => ?_
      rw [if_pos isProducer]
      exact ⟨fun _ => by rw [← isProducer, place]; rfl, by simp [Pc.puts]⟩
  | putDenied i item at_ place throws notPending =>
      obtain rfl := producer i (by simp [place, Pc.produces])
      have noted := belt_noted (s.leavePut c 0) (e := .sourceFailed .cancelledError
        (s.leavePut c 0).stopping ((s.leavePut c 0).child 0).groupCancelled
        (strayCancellationAsError .cancelledError (s.leavePut c 0).stopping none (some "the producer")))
        rfl rfl rfl
      exact early.denied ((belt_endTask _ 0 _).trans (noted.trans (belt_leavePut s 0)))
        (endTask_child _ 0 _).2
  | putWoken i item at_ place done calm =>
      refine early.own (i := i) rfl rfl fun isProducer => ⟨fun _ => ?_, by simp [Pc.puts]⟩
      rw [← isProducer, place]
      rfl
  | sentinelDenied i left at_ place throws notPending =>
      obtain rfl := producer i (by simp [place, Pc.produces])
      exact early.denied ((belt_endTask _ 0 _).trans (belt_leavePut s 0)) (endTask_child _ 0 _).2
  | sentinelWoken i left at_ place done calm =>
      exact early.own (i := i) rfl rfl fun _ => ⟨by simp [Pc.owed], by simp [Pc.puts]⟩
  | getDenied i at_ place throws notPending => exact (early.leaveGet inv.placement notPending).endTask i _
  | getWoken i at_ place done calm =>
      have other := consumer i (by simp [place, Pc.consumes])
      exact early.own (i := i) rfl rfl fun isProducer => absurd isProducer other
  | putWaits i item at_ place full =>
      refine early.own (i := i) rfl rfl fun isProducer => ⟨fun _ => ?_, fun _ => asleep _⟩
      rw [← isProducer, place]
      rfl
  | put i item at_ place room metrics =>
      obtain rfl := producer i (by simp [place, Pc.produces])
      have put := early.put inv.placement room (by simp [place, Pc.puts]) (some item) fun _ => rfl
      refine put.own (i := 0) rfl rfl fun _ => ⟨fun _ => ?_, by simp [Pc.puts]⟩
      have pc : ((s.putNowait (some item)).child 0).pc = (s.child 0).pc := fulfil_pc _ _ 0
      rw [pc, place]
      rfl
  | produced i at_ place => exact early.endTask i _
  | sentinelWaits i left at_ place full =>
      exact early.own (i := i) rfl rfl fun _ => ⟨by simp [Pc.owed], fun _ => asleep _⟩
  | sentinelPut i left at_ place room =>
      obtain rfl := producer i (by simp [place, Pc.produces])
      have put := early.put inv.placement room (by simp [place, Pc.puts]) none (by simp [place, Pc.owed])
      exact put.own (i := 0) rfl rfl fun _ => ⟨by simp [Pc.owed], by simp [Pc.puts]⟩
  | stopped i at_ place stopping => exact early.endTask i _
  | looped i at_ place running =>
      have other := consumer i (by simp [place, Pc.consumes])
      exact early.own (i := i) rfl rfl fun isProducer => absurd isProducer other
  | getWaits i at_ place empty =>
      have other := consumer i (by simp [place, Pc.consumes])
      exact early.own (i := i) rfl rfl fun isProducer => absurd isProducer other
  | gotSentinel i rest at_ place entry =>
      exact ((early.pop entry).kept (t := { s with queue := rest }.wakePutter.emit (.sentinel i)) rfl rfl).endTask i _
  | discarded i item rest at_ place entry failed => exact (early.pop entry).endTask i _
  | called i item rest at_ place entry open_ cm timed entered =>
      have other := consumer i (by simp [place, Pc.consumes])
      exact (early.pop entry).own (i := i) rfl rfl fun isProducer => absurd isProducer other
  | deadline i index item cm at_ place entered =>
      have other := consumer i (by simp [place, Pc.consumes])
      exact early.own (i := i) rfl rfl fun isProducer => absurd isProducer other
  | yieldedLate item at_ place stopping =>
      exact failSource (s := s.emit (.pulled item)) (early.kept rfl rfl) _
  | yielded item at_ place running metrics =>
      have spawned : Early c { (s.emit (.pulled item)).spawn c with metrics := metrics } := by
        refine early.kept (spawn_same _ _).2.1 ?_
        unfold State.spawn
        split <;> rfl
      refine spawned.own (i := 0) rfl rfl fun _ => ⟨fun _ => ?_, by simp [Pc.puts]⟩
      have child : ((s.emit (.pulled item)).spawn c).child 0 = s.child 0 := by
        unfold State.spawn
        split <;> rfl
      show (((s.emit (.pulled item)).spawn c).child 0).pc.owed = none
      rw [child, place]
      rfl
  | ended at_ place running =>
      exact early.own (i := 0) rfl rfl fun _ => ⟨by simp [Pc.owed], by simp [Pc.puts]⟩
  | sourceFailed caught at_ place => exact early.failSource caught
  | finished i index item cm out slot at_ place stored metrics =>
      have other := consumer i (by simp [place, Pc.consumes])
      have left : Early c (s.setChild i { s.child i with
          task := (leaveTimeout cm (s.child i).task out).2.2 }) :=
        early.own (i := i) rfl rfl fun isProducer => absurd isProducer other
      exact left.own (i := i) rfl rfl fun isProducer => absurd isProducer other
  | failed i index item cm out exc at_ place fails =>
      have other := consumer i (by simp [place, Pc.consumes])
      have left : Early c (s.setChild i { s.child i with
          task := (leaveTimeout cm (s.child i).task out).2.2 }) :=
        early.own (i := i) rfl rfl fun isProducer => absurd isProducer other
      have noted := left.kept (t := { (s.setChild i { s.child i with
          task := (leaveTimeout cm (s.child i).task out).2.2 }).emit (.ended index
            (s.callEnd i out (leaveTimeout cm (s.child i).task out)) (.failed exc)) with failed := true })
        rfl rfl
      exact noted.endTask i _

end Early

theorem view_fulfil {woken : Option Nat} (call : t.toCall = s.toCall.fulfil woken)
    (queue : t.queue = s.queue) (results : t.results = s.results) (metrics : t.metrics = s.metrics) :
    view t = view s := by
  have kept := fulfil_kept s.toCall woken
  have place : (t.child 0).pc = (s.child 0).pc := by rw [call]; exact fulfil_pc _ _ 0
  have ended : (t.child 0).ended = (s.child 0).ended := by
    rw [call, Call.fulfil_child]
    split <;> rfl
  have log : t.log = s.log := by rw [call]; exact kept.2.1
  have failed : t.failed = s.failed := by rw [call]; exact kept.1
  simp only [view, pulls, calls, ends, place, ended, log, failed, queue, results, metrics]

theorem view_leavePut (s : State α β ε) (i : Nat) : view (s.leavePut c i) = view s := by
  unfold State.leavePut
  dsimp only
  split
  · exact view_fulfil (s := { s with putters := s.putters.erase i }) rfl rfl rfl rfl
  · rfl

theorem view_leaveGet (s : State α β ε) (i : Nat) : view (s.leaveGet i) = view s := by
  unfold State.leaveGet
  dsimp only
  split
  · exact view_fulfil (s := { s with getters := s.getters.erase i }) rfl rfl rfl rfl
  · rfl

theorem view_pop (s : State α β ε) (rest : List (Option α)) :
    view { s with queue := rest }.wakePutter = { view s with queue := rest } :=
  view_fulfil (s := { s with queue := rest }) rfl rfl rfl rfl

theorem view_put (s : State α β ε) (entry : Option α) :
    view (s.putNowait entry) = { view s with queue := s.queue ++ [entry] } :=
  view_fulfil (s := { s with queue := s.queue ++ [entry] }) rfl rfl rfl rfl

theorem view_metered (s : State α β ε) (metrics : StreamMetrics) :
    view { s with metrics := metrics } = { view s with metrics := metrics } := rfl

theorem view_stored (s : State α β ε) (slot : Slot β ε) (metrics : StreamMetrics) :
    view { s with results := s.results ++ [slot], metrics := metrics } =
      { view s with stored := (view s).stored + 1, metrics := metrics } := by
  simp [view, pulls, calls, ends]

theorem view_latched (s : State α β ε) : view { s with failed := true } = { view s with failed := true } := rfl

theorem view_endTask (s : State α β ε) (i : Nat) (ended : TaskEnd (Exc ε)) :
    view (s.endTask i ended) = if i = 0 then { view s with alive := false } else view s := by
  by_cases producer : i = 0
  · subst producer
    have halted := (endTask_child s 0 ended).2
    have over_ : ((s.endTask 0 ended).child 0).ended.isNone = false := by
      simpa [← Option.isSome_iff_ne_none] using halted
    rw [if_pos rfl]
    simp only [view, over_, endTask_pc]
    rfl
  · have same := (endTask_child s i ended).1 0 (Ne.symm producer)
    rw [if_neg producer]
    simp only [view, same]
    rfl

theorem view_setChild (s : State α β ε) (i : Nat) (d : Child (Pc α) (Exc ε)) :
    view (s.setChild i d) =
      if i = 0 then { view s with place := d.pc, alive := d.ended.isNone } else view s := by
  obtain ⟨others, own⟩ := setChild_child s i d
  by_cases producer : i = 0
  · subst producer
    rw [if_pos rfl]
    simp only [view, own]
    rfl
  · rw [if_neg producer]
    simp only [view, others 0 (Ne.symm producer)]
    rfl

theorem view_emit (s : State α β ε) {e : Event α β (Slot β ε) ε} (noPull : e.pulled? = none)
    (noCall : e.called? = none) (noEnd : e.ended? = none) : view (s.emit e) = view s := by
  simp [view, pulls, calls, ends, State.emit, Call.emit, noPull, noCall, noEnd]

theorem view_failSource (s : State α β ε) (caught : Exc ε) :
    view (s.failSource caught) = { view s with failed := true, alive := false } := by
  unfold State.failSource
  rw [view_endTask, if_pos rfl]
  simp [view, pulls, calls, ends, State.emit, Call.emit, Event.pulled?, Event.called?, Event.ended?]

theorem view_beginCall (s : State α β ε) {i : Nat} (consumer : i ≠ 0) {pc : Pc α} {index next : Nat}
    {item : α} :
    view { s with toCall := s.toCall.beginCall i pc index item, consumedIndex := next } =
      { view s with taken := (view s).taken + 1 } := by
  have same : (s.toCall.beginCall i pc index item).child 0 = s.child 0 :=
    (setChild_child s i { s.child i with pc := pc }).1 0 (Ne.symm consumer)
  have called : (calls { s with toCall := s.toCall.beginCall i pc index item, consumedIndex := next }).length =
      (calls s).length + 1 := by
    simp [calls, Call.beginCall, Call.emit, Call.setChild, Event.called?]
  simp only [view, called, same]
  simp [pulls, ends, Call.beginCall, Call.emit, Call.setChild, Event.pulled?, Event.ended?]

theorem quietly {p q : Past} (deep : queued s ≤ p.deepest)
    (past : q = { p with deepest := max p.deepest (queued t) })
    (shown : view t = { view s with
      queue := (view t).queue, failed := t.failed, place := (view t).place, alive := (view t).alive })
    (same : queued t = queued s) (hand : (view t).hand = (view s).hand)
    (due : (view t).due c = (view s).due c) (latched : s.failed = true → t.failed = true) :
    Step c.queueSize c.metrics (gauge c s p) (gauge c t q) := by
  have isPast : q = p := by
    rw [past, same, Nat.max_eq_left deep]
  have isGauge : gauge c t q = { gauge c s p with failed := t.failed } := by
    rw [isPast]
    unfold gauge View.gauge
    rw [hand, due, shown]
    have count : (view t).queue.countP Option.isSome = (view s).queue.countP Option.isSome := same
    simp only [count]
  rw [isGauge]
  exact .skip t.failed latched

theorem unseen {p q : Past} (deep : queued s ≤ p.deepest)
    (past : q = { p with deepest := max p.deepest (queued t) }) (same : view t = view s) :
    Step c.queueSize c.metrics (gauge c s p) (gauge c t q) := by
  have failed : t.failed = s.failed := congrArg View.failed same
  have queue : t.queue = s.queue := congrArg View.queue same
  refine quietly deep past ?_ (by unfold queued; rw [queue]) (by rw [same]) (by rw [same])
    fun latched => failed.trans latched
  rw [same, failed]
  rfl

theorem replaced {p q : Past} (place : Pc α) (alive : Bool) (deep : queued s ≤ p.deepest)
    (past : q = { p with deepest := max p.deepest (queued t) })
    (shown : view t = { view s with place := place, alive := alive })
    (hand : { view s with place := place, alive := alive }.hand = (view s).hand)
    (due : { view s with place := place, alive := alive }.due c = (view s).due c) :
    Step c.queueSize c.metrics (gauge c s p) (gauge c t q) := by
  have failed : t.failed = s.failed := congrArg View.failed shown
  have queue : t.queue = s.queue := congrArg View.queue shown
  refine quietly deep past ?_ (by unfold queued; rw [queue]) (by rw [shown, hand]) (by rw [shown, due])
    fun latched => failed.trans latched
  rw [shown, failed]
  rfl

theorem step_loop {act : Call.LoopAct} {p : Past} (deep : queued s ≤ p.deepest)
    {call : Call (Pc α) α β (Slot β ε) ε} (moved : s.toCall.loopStep act = some call) :
    Step c.queueSize c.metrics (gauge c s p)
      (gauge c { s with toCall := call } (p.after c s (.loop act) { s with toCall := call })) := by
  obtain ⟨log, failed, _, _, _⟩ := Call.loopStep_same moved
  have frame := Frame.loopStep moved 0
  refine unseen deep rfl ?_
  simp only [view, pulls, calls, ends, log, failed, frame.pc, frame.ended]

theorem step_user {act : Call.UserAct} {p : Past} (deep : queued s ≤ p.deepest)
    {call : Call (Pc α) α β (Slot β ε) ε} (moved : s.toCall.userStep Pc.inUser act = some call) :
    Step c.queueSize c.metrics (gauge c s p)
      (gauge c { s with toCall := call } (p.after c s (.user act) { s with toCall := call })) := by
  obtain ⟨log, failed, _, _, ⟨task, child⟩, _, _, _⟩ := Call.userStep_same moved
  have producer : (call.child 0).pc = (s.child 0).pc ∧ (call.child 0).ended = (s.child 0).ended := by
    rw [child, Call.setTask_child]
    split
    · rename_i here
      rw [here]
      exact ⟨rfl, rfl⟩
    · exact ⟨rfl, rfl⟩
  refine unseen deep rfl ?_
  simp only [view, pulls, calls, ends, log, failed, producer]

theorem step_late {act : Call.LateAct} {p : Past} (deep : queued s ≤ p.deepest)
    {call : Call (Pc α) α β (Slot β ε) ε} (moved : s.toCall.lateStep Pc.begun act = some call) :
    Step c.queueSize c.metrics (gauge c s p)
      (gauge c { s with toCall := call } (p.after c s (.late act) { s with toCall := call })) := by
  simp only [Call.lateStep, Option.ite_none_right_eq_some, Option.some.injEq] at moved
  obtain ⟨_, rfl⟩ := moved
  have producer := Call.setTask_child s.toCall act.task 0 (act.after (s.child act.task).task)
  have same : ((s.toCall.setTask act.task (act.after (s.child act.task).task)).child 0).pc = (s.child 0).pc ∧
      ((s.toCall.setTask act.task (act.after (s.child act.task).task)).child 0).ended = (s.child 0).ended := by
    rw [producer]
    split
    · rename_i here
      rw [here]
      exact ⟨rfl, rfl⟩
    · exact ⟨rfl, rfl⟩
  refine unseen deep rfl ?_
  simp only [view, same]
  rfl

theorem hand_free {v : View α} (free : v.place.hand = none) : v.hand = 0 ∧ v.due c = 0 := by
  unfold View.hand View.due
  constructor
  · simp [free]
  · cases place : v.place <;> simp_all [Pc.hand]

theorem hand_ended {v : View α} (halted : v.alive = false) : v.hand = 0 ∧ v.due c = 0 := by
  unfold View.hand View.due
  constructor
  · simp [halted]
  · split <;> simp [halted]

theorem emptyHanded {p q : Past} (place : Pc α) (alive : Bool) (deep : queued s ≤ p.deepest)
    (past : q = { p with deepest := max p.deepest (queued t) })
    (shown : view t = { view s with place := place, alive := alive })
    (before : (s.child 0).pc.hand = none) (after : place.hand = none ∨ alive = false) :
    Step c.queueSize c.metrics (gauge c s p) (gauge c t q) := by
  have free := hand_free (c := c) (v := view s) before
  have none : { view s with place := place, alive := alive }.hand = 0 ∧
      { view s with place := place, alive := alive }.due c = 0 := by
    rcases after with empty | halted
    · exact hand_free empty
    · exact hand_ended halted
  exact replaced place alive deep past shown (none.1.trans free.1.symm) (none.2.trans free.2.symm)

theorem ends_quietly {p q : Past} (i : Nat) (ended : TaskEnd (Exc ε)) (deep : queued s ≤ p.deepest)
    (past : q = { p with deepest := max p.deepest (queued s) })
    (free : i = 0 → (s.child 0).pc.hand = none) :
    Step c.queueSize c.metrics (gauge c s p) (gauge c (s.endTask i ended) q) := by
  by_cases producer : i = 0
  · subst producer
    have shown : view (s.endTask 0 ended) =
        { view s with place := (s.child 0).pc, alive := false } := by
      rw [view_endTask, if_pos rfl]
      rfl
    exact emptyHanded (t := s.endTask 0 ended) _ _ deep past shown (free rfl) (Or.inr rfl)
  · exact unseen (t := s.endTask i ended) deep past (by rw [view_endTask, if_neg producer])

theorem goes_quietly {p q : Past} (i : Nat) (d : Child (Pc α) (Exc ε)) (deep : queued s ≤ p.deepest)
    (past : q = { p with deepest := max p.deepest (queued s) }) (same : view t = view (s.setChild i d))
    (free : i = 0 → (s.child 0).pc.hand = none ∧ d.pc.hand = none) :
    Step c.queueSize c.metrics (gauge c s p) (gauge c t q) := by
  have queue : t.queue = s.queue := (congrArg View.queue same :)
  have past : q = { p with deepest := max p.deepest (queued t) } := by
    unfold queued
    rw [past, queue]
    rfl
  rw [view_setChild] at same
  by_cases producer : i = 0
  · rw [if_pos producer] at same
    exact emptyHanded _ _ deep past same (free producer).1 (Or.inl (free producer).2)
  · rw [if_neg producer] at same
    exact unseen deep past same

theorem step_start {i : Nat} {p : Past} (deep : queued s ≤ p.deepest)
    (stepped : c.step s (.start i) = some t) :
    Step c.queueSize c.metrics (gauge c s p) (gauge c t (p.after c s (.start i) t)) := by
  simp only [step] at stepped
  split at stepped
  · rename_i place
    have free : i = 0 → (s.child 0).pc.hand = none := fun isProducer => by
      rw [← isProducer, place]
      rfl
    split at stepped
    · split at stepped <;> simp only [Option.some.injEq] at stepped <;> subst stepped
      · exact ends_quietly i _ deep rfl free
      · refine goes_quietly i { s.child i with
          pc := if i = 0 then .pulling else .looping, task := (s.child i).task.resume } deep rfl rfl ?_
        exact fun isProducer => ⟨free isProducer, by simp [isProducer, Pc.hand]⟩
    · simp at stepped
  · simp at stepped

theorem step_deadline {i : Nat} {p : Past} (inv : Inv c s) (deep : queued s ≤ p.deepest)
    (stepped : c.step s (.deadline i) = some t) :
    Step c.queueSize c.metrics (gauge c s p) (gauge c t (p.after c s (.deadline i) t)) := by
  simp only [step] at stepped
  split at stepped
  · rename_i index item cm place
    have consumer := (inv.placement.each i).consumes (by simp [place, Pc.consumes])
    split at stepped <;> simp only [Option.some.injEq, reduceCtorEq] at stepped
    subst stepped
    refine goes_quietly i { s.child i with
      pc := .calling index item (some cm.fire), task := (s.child i).task.cancel } deep rfl ?_
      fun isProducer => absurd isProducer consumer
    exact view_emit _ rfl rfl rfl
  · simp at stepped

theorem step_wake {i : Nat} {p : Past} (inv : Inv c s) (early : Early c s) (deep : queued s ≤ p.deepest)
    (stepped : c.step s (.wake i) = some t) :
    Step c.queueSize c.metrics (gauge c s p) (gauge c t (p.after c s (.wake i) t)) := by
  simp only [step] at stepped
  split at stepped
  · rename_i ready
    have alive := (member_of_live ready.2.2.1).2
    unfold woken at stepped
    dsimp only at stepped
    split at stepped
    · rename_i item place
      obtain rfl := (inv.placement.each i).produces (by simp [place, Pc.produces])
      split at stepped <;> simp only [Option.some.injEq] at stepped <;> rename_i throws <;> subst stepped
      · have shown : view ((s.leavePut c 0).failSource .cancelledError) =
            { view s with failed := true, alive := false } := by rw [view_failSource, view_leavePut]
        have held : (view s).hand = 1 ∧ (view s).due c = 0 := by
          simp [View.hand, View.due, view, alive, place, Pc.hand]
        have dropped := hand_ended (c := c) (v := { view s with failed := true, alive := false }) rfl
        have past : p.after c s (.wake 0) ((s.leavePut c 0).failSource .cancelledError) =
            { p with lost := p.lost + 1 } := by
          have queue : queued ((s.leavePut c 0).failSource .cancelledError) = queued s :=
            congrArg (fun v => v.queue.countP Option.isSome) shown
          simp [Past.after, place, throws, queue, Nat.max_eq_left deep]
        have isGauge : gauge c ((s.leavePut c 0).failSource .cancelledError) { p with lost := p.lost + 1 } =
            { gauge c s p with hand := 0, lost := p.lost + 1, failed := true } := by
          unfold gauge
          rw [shown]
          unfold View.gauge
          rw [dropped.1, dropped.2, held.2]
        rw [past, isGauge]
        exact .drop held.1 held.2
      · have done : (s.child 0).task.waiter = some .done := by
          have woken := ready.2.2.2
          simp only [Task.throws, Bool.or_eq_true, beq_iff_eq, not_or] at throws
          simpa [Task.woken, throws.2] using woken
        have room := early.room alive (by simp [place, Pc.puts]) done
        have shown : view (s.enter 0 (.offering item)) =
            { view s with place := .offering item, alive := true } := by
          refine (view_setChild s 0 _).trans ?_
          simp [alive]
        refine replaced (.offering item) true deep ?_ shown ?_ ?_
        · simp [Past.after, place, throws]
        · simp [View.hand, view, alive, place, Pc.hand]
        · simp [View.due, view, place, room]
    · rename_i left place
      obtain rfl := (inv.placement.each i).produces (by simp [place, Pc.produces])
      have past : ∀ t : State α β ε, p.after c s (.wake 0) t = { p with deepest := max p.deepest (queued t) } :=
        fun t => by simp [Past.after, place]
      have free : (s.child 0).pc.hand = none := by simp [place, Pc.hand]
      split at stepped <;> simp only [Option.some.injEq] at stepped <;> subst stepped
      · have shown : view ((s.leavePut c 0).endTask 0 .cancelled) =
            { view s with place := (s.child 0).pc, alive := false } := by
          rw [view_endTask, if_pos rfl, view_leavePut]
          rfl
        exact emptyHanded _ _ deep (past _) shown free (Or.inr rfl)
      · exact goes_quietly 0 { s.child 0 with
          pc := .finishing (left + 1), task := (s.child 0).task.resume } deep (past _) rfl
          fun _ => ⟨free, rfl⟩
    · rename_i place
      have consumer := (inv.placement.each i).consumes (by simp [place, Pc.consumes])
      have past : ∀ t : State α β ε, p.after c s (.wake i) t = { p with deepest := max p.deepest (queued t) } :=
        fun t => by simp [Past.after, place]
      split at stepped <;> simp only [Option.some.injEq] at stepped <;> subst stepped
      · exact unseen deep (past _) (by rw [view_endTask, if_neg consumer, view_leaveGet])
      · exact goes_quietly i { s.child i with pc := .taking, task := (s.child i).task.resume } deep
          (past _) rfl fun isProducer => absurd isProducer consumer
    · simp at stepped
  · simp at stepped

theorem step_wait {item : α} {p : Past} (deep : queued s ≤ p.deepest) (alive : (s.child 0).ended = none)
    (place : (s.child 0).pc = .offering item) (full : s.full c = true)
    (isNext : t = { s.park 0 (.putting item) with putters := s.putters ++ [0] }) :
    Step c.queueSize c.metrics (gauge c s p) (gauge c t (p.after c s (.advance 0) t)) := by
  have shown : view t = { view s with place := .putting item } := by
    rw [isNext]
    refine (view_setChild s 0 { s.child 0 with
      pc := .putting item, task := (s.child 0).task.await }).trans ?_
    simp [view]
  have queue : queued t = queued s := congrArg (fun v => v.queue.countP Option.isSome) shown
  have past : p.after c s (.advance 0) t = { p with waits := p.waits + 1 } := by
    simp [Past.after, place, full, queue, Nat.max_eq_left deep]
  have isDue : (view s).due c = 1 := by
    simp only [State.full, decide_eq_true_eq] at full
    simp [View.due, view, alive, place, full]
  have isGauge : gauge c t { p with waits := p.waits + 1 } =
      { gauge c s p with waits := p.waits + 1, due := 0 } := by
    unfold gauge
    rw [shown]
    simp [View.gauge, View.hand, View.due, view, alive, place, Pc.hand]
  rw [past, isGauge]
  exact .wait isDue

theorem step_put {item : α} {p : Past} (early : Early c s)
    (alive : (s.child 0).ended = none) (place : (s.child 0).pc = .offering item) (room : s.full c = false)
    (isNext : t = { s.putNowait (some item) with
      metrics := if c.metrics then { s.metrics with
        produced := s.metrics.produced + 1
        maxQueueDepth := max s.metrics.maxQueueDepth (s.putNowait (some item)).queue.length }
      else s.metrics }.goto 0 .pulling) :
    Step c.queueSize c.metrics (gauge c s p) (gauge c t (p.after c s (.advance 0) t)) := by
  have owed : (s.child 0).pc.owed = none := by rw [place]; rfl
  have plain := early.plain owed
  have length : (s.putNowait (some item)).queue.length = queued s + 1 := by
    rw [plain]
    exact List.length_append
  rw [length] at isNext
  have own : ((s.putNowait (some item)).child 0).ended = none := by
    have same : ((s.putNowait (some item)).child 0).ended.isNone = (s.child 0).ended.isNone :=
      congrArg View.alive (view_put s (some item))
    simpa [alive] using same
  have shown : view t = { view s with
      queue := s.queue ++ [some item]
      metrics := if c.metrics then { s.metrics with
        produced := s.metrics.produced + 1, maxQueueDepth := max s.metrics.maxQueueDepth (queued s + 1) }
      else s.metrics
      place := .pulling } := by
    rw [isNext]
    refine (view_setChild { s.putNowait (some item) with metrics := _ } 0
      { (s.putNowait (some item)).child 0 with pc := .pulling }).trans ?_
    rw [if_pos rfl, view_metered, view_put, own, ← alive]
    rfl
  have queue : queued t = queued s + 1 := by
    have := congrArg (fun v => v.queue.countP Option.isSome) shown
    simpa [queued, view] using this
  have past : p.after c s (.advance 0) t =
      { p with puts := p.puts + 1, deepest := max p.deepest (queued s + 1) } := by
    simp [Past.after, place, room, queue]
  simp only [State.full, decide_eq_false_iff_not, ← plain] at room
  have hand : (view s).hand = 1 := by simp [View.hand, view, alive, place, Pc.hand]
  have due : (view s).due c = 0 := by
    rw [plain] at room
    simp [View.due, view, place, room]
  have isGauge : gauge c t { p with puts := p.puts + 1, deepest := max p.deepest (queued s + 1) } =
      { gauge c s p with
        hand := 0, queued := queued s + 1, puts := p.puts + 1
        deepest := max p.deepest (queued s + 1)
        produced := count c.metrics s.metrics.produced 1
        depth := if c.metrics then max s.metrics.maxQueueDepth (queued s + 1) else s.metrics.maxQueueDepth } := by
    unfold gauge
    rw [shown]
    unfold View.gauge
    rw [due]
    cases metered : c.metrics <;>
      simp [View.hand, View.due, view, Pc.hand, Meter.count, queued]
  rw [past, isGauge]
  have room : queued s < c.queueSize := by omega
  exact .put hand room due

theorem step_sentinel {left : Nat} {p : Past} (deep : queued s ≤ p.deepest)
    (place : (s.child 0).pc = .finishing (left + 1))
    (isNext : t = (s.putNowait none).goto 0 (.finishing left)) :
    Step c.queueSize c.metrics (gauge c s p) (gauge c t (p.after c s (.advance 0) t)) := by
  have shown : view t = { view s with queue := s.queue ++ [none], place := .finishing left } := by
    have same : ((s.putNowait none).child 0).ended.isNone = (s.child 0).ended.isNone :=
      congrArg View.alive (view_put s none)
    rw [isNext]
    refine (view_setChild (s.putNowait none) 0
      { (s.putNowait none).child 0 with pc := .finishing left }).trans ?_
    rw [if_pos rfl, view_put, same]
    rfl
  have failed : t.failed = s.failed := congrArg View.failed shown
  have before := hand_free (c := c) (v := view s) (by simp [view, place, Pc.hand])
  have after := hand_free (c := c) (v := view t) (by rw [shown]; rfl)
  refine quietly deep ?_ ?_ ?_ (after.1.trans before.1.symm) (after.2.trans before.2.symm)
    fun latched => failed.trans latched
  · simp [Past.after, place]
  · rw [failed, shown]
    rfl
  · have queue : queued t = (s.queue ++ [none]).countP Option.isSome :=
      congrArg (fun v => v.queue.countP Option.isSome) shown
    rw [queue]
    simp [queued]

/-- Only a producer that has the CPU is about to wait. -/
theorem due_elsewhere (inv : Inv c s) (elsewhere : s.running ≠ some 0) {v : View α}
    (place : v.place = (s.child 0).pc) (alive : v.alive = (s.child 0).ended.isNone) : v.due c = 0 := by
  unfold View.due
  split
  · rename_i item here
    have away : v.alive = false := by
      rw [← Bool.not_eq_true]
      intro open_
      rw [alive, Option.isNone_iff_eq_none] at open_
      exact elsewhere ((inv.placement.each 0).busy open_ (by rw [← place, here]; rfl))
    simp [away]
  · rfl

theorem step_take {i : Nat} {p : Past} {entry : Option α} {rest : List (Option α)} (inv : Inv c s)
    (consumer : i ≠ 0) (busy : s.running = some i) (deep : queued s ≤ p.deepest)
    (place : (s.child i).pc = .taking) (front : s.queue = entry :: rest)
    (stepped : c.advance s i = some t) :
    Step c.queueSize c.metrics (gauge c s p) (gauge c t (p.after c s (.advance i) t)) := by
  have popped := view_pop s rest
  have elsewhere : s.running ≠ some 0 := by
    rw [busy]
    simpa using consumer
  have due : ∀ v : View α, v.place = (s.child 0).pc → v.alive = (s.child 0).ended.isNone → v.due c = 0 :=
    fun v place alive => due_elsewhere inv elsewhere place alive
  have before : (view s).due c = 0 := due _ rfl rfl
  simp only [advance, place, front] at stepped
  cases entry with
  | none =>
      simp only [Option.some.injEq] at stepped
      have shown : view t = { view s with queue := rest } := by
        rw [← stepped, view_endTask, if_neg consumer, view_emit _ rfl rfl rfl, popped]
      have failed : t.failed = s.failed := congrArg View.failed shown
      have queue : queued t = rest.countP Option.isSome :=
        congrArg (fun v => v.queue.countP Option.isSome) shown
      refine quietly deep ?_ ?_ ?_ ?_ ?_ fun before => failed.trans before
      · simp [Past.after, place, front]
      · rw [failed, shown]
        rfl
      · rw [queue]
        simp [queued, front]
      · rw [shown]
        rfl
      · rw [shown, before]
        exact due _ rfl rfl
  | some item =>
      have real : queued s = rest.countP Option.isSome + 1 := by simp [queued, front]
      have same : { s with queue := rest }.wakePutter.failed = s.failed := congrArg View.failed popped
      dsimp only at stepped
      rw [same] at stepped
      split at stepped <;> simp only [Option.some.injEq] at stepped <;> rename_i failed
      · have shown : view t = { view s with queue := rest } := by
          rw [← stepped, view_endTask, if_neg consumer, popped]
        have queue : queued t = rest.countP Option.isSome :=
          congrArg (fun v => v.queue.countP Option.isSome) shown
        have past : p.after c s (.advance i) t = { p with lost := p.lost + 1 } := by
          simp only [Past.after, place, front, failed, queue, ↓reduceIte]
          rw [Nat.max_eq_left (by omega)]
        have isGauge : gauge c t { p with lost := p.lost + 1 } =
            { gauge c s p with queued := rest.countP Option.isSome, lost := p.lost + 1 } := by
          unfold gauge
          rw [shown]
          unfold View.gauge
          rw [before, due { view s with queue := rest } rfl rfl]
          rfl
        rw [past, isGauge]
        exact .discard _ real failed
      · have shown : view t = { view s with queue := rest, taken := (view s).taken + 1 } := by
          rw [← stepped, view_beginCall _ consumer, popped]
        have queue : queued t = rest.countP Option.isSome :=
          congrArg (fun v => v.queue.countP Option.isSome) shown
        have past : p.after c s (.advance i) t = p := by
          simp only [Past.after, place, front, failed, queue]
          rw [if_neg (by decide), Nat.max_eq_left (by omega)]
        have isGauge : gauge c t p =
            { gauge c s p with queued := rest.countP Option.isSome, taken := (calls s).length + 1 } := by
          unfold gauge
          rw [shown]
          unfold View.gauge
          rw [before, due { view s with queue := rest, taken := (view s).taken + 1 } rfl rfl]
          rfl
        rw [past, isGauge]
        simp only [Bool.not_eq_true] at failed
        exact .take _ real failed

theorem step_advance {i : Nat} {p : Past} (inv : Inv c s) (early : Early c s) (deep : queued s ≤ p.deepest)
    (stepped : c.step s (.advance i) = some t) :
    Step c.queueSize c.metrics (gauge c s p) (gauge c t (p.after c s (.advance i) t)) := by
  simp only [step] at stepped
  split at stepped
  · rename_i ready
    have alive := (member_of_live ready.2.2).2
    have advanced := stepped
    unfold advance at stepped
    split at stepped
    · rename_i item place
      obtain rfl := (inv.placement.each i).produces (by simp [place, Pc.produces])
      split at stepped <;> simp only [Option.some.injEq] at stepped <;> rename_i full
      · exact step_wait deep alive place full stepped.symm
      · simp only [Bool.not_eq_true] at full
        exact step_put early alive place full stepped.symm
    · rename_i place
      obtain rfl := (inv.placement.each i).produces (by simp [place, Pc.produces])
      simp only [Option.some.injEq] at stepped
      subst stepped
      exact ends_quietly 0 _ deep (by simp [Past.after, place]; rfl) fun _ => by simp [place, Pc.hand]
    · rename_i left place
      obtain rfl := (inv.placement.each i).produces (by simp [place, Pc.produces])
      split at stepped <;> simp only [Option.some.injEq] at stepped <;> subst stepped
      · exact goes_quietly 0 { s.child 0 with
          pc := .puttingSentinel left, task := (s.child 0).task.await } deep
          (by simp [Past.after, place]; rfl) rfl fun _ => by simp [place, Pc.hand]
      · exact step_sentinel deep place rfl
    · rename_i place
      have consumer := (inv.placement.each i).consumes (by simp [place, Pc.consumes])
      split at stepped <;> simp only [Option.some.injEq] at stepped <;> subst stepped
      · exact ends_quietly i _ deep (by simp [Past.after, place]; rfl) fun isProducer => absurd isProducer consumer
      · exact goes_quietly i { s.child i with pc := .taking } deep (by simp [Past.after, place]; rfl) rfl
          fun isProducer => absurd isProducer consumer
    · rename_i place
      have consumer := (inv.placement.each i).consumes (by simp [place, Pc.consumes])
      split at stepped
      · rename_i empty
        simp only [Option.some.injEq] at stepped
        subst stepped
        exact goes_quietly i { s.child i with pc := .getting, task := (s.child i).task.await } deep
          (by simp [Past.after, place, empty]; rfl) rfl fun isProducer => absurd isProducer consumer
      · rename_i entry rest front
        exact step_take inv consumer ready.2.1 deep place front advanced
    · simp at stepped
  · simp at stepped

theorem view_pulled (s : State α β ε) (item : α) :
    view (s.emit (.pulled item)) = { view s with pulled := (view s).pulled + 1 } := by
  simp [view, pulls, calls, ends, State.emit, Call.emit, Event.pulled?, Event.called?, Event.ended?]

theorem view_spawn (s : State α β ε) : view (s.spawn c) = view s := by
  unfold State.spawn
  split <;> rfl

theorem step_raises {p q : Past} (deep : queued s ≤ p.deepest) (place : (s.child 0).pc = .pulling)
    (past : q = { p with deepest := max p.deepest (queued t) })
    (shown : view t = { view s with failed := true, alive := false }) :
    Step c.queueSize c.metrics (gauge c s p) (gauge c t q) := by
  have failed : t.failed = true := congrArg View.failed shown
  have queue : t.queue = s.queue := congrArg View.queue shown
  have before := hand_free (c := c) (v := view s) (by simp [view, place, Pc.hand])
  have after := hand_ended (c := c) (v := view t) (by rw [shown])
  refine quietly deep past ?_ (by unfold queued; rw [queue]) (after.1.trans before.1.symm)
    (after.2.trans before.2.symm) fun _ => failed
  rw [shown, failed]

theorem step_offer {item : α} {p : Past} (early : Early c s) (deep : queued s ≤ p.deepest)
    (alive : (s.child 0).ended = none) (place : (s.child 0).pc = .pulling) (running : s.stopping = false)
    (isNext : t = c.sourceStep s (.yields item)) :
    Step c.queueSize c.metrics (gauge c s p) (gauge c t (p.after c s (.source (.yields item)) t)) := by
  have plain := early.plain (by rw [place]; rfl)
  have spawned : view ((s.emit (.pulled item)).spawn c) = { view s with pulled := (view s).pulled + 1 } := by
    rw [view_spawn, view_pulled]
  have full : ((s.emit (.pulled item)).spawn c).full c = decide (c.queueSize ≤ queued s) := by
    rw [plain]
    exact congrArg (fun v => decide (c.queueSize ≤ v.queue.length)) spawned
  have metrics : ((s.emit (.pulled item)).spawn c).metrics = s.metrics := congrArg View.metrics spawned
  have own : (((s.emit (.pulled item)).spawn c).child 0).ended.isNone = true :=
    (congrArg View.alive spawned).trans (by simp [view, alive])
  have quiet : (s.emit (.pulled item)).stopping = false := running
  have shown : view t = { view s with
      pulled := (view s).pulled + 1
      metrics := if c.metrics && decide (c.queueSize ≤ queued s) then
        { s.metrics with producerPauses := s.metrics.producerPauses + 1 } else s.metrics
      place := .offering item
      alive := true } := by
    rw [isNext]
    simp only [sourceStep, quiet, Bool.false_eq_true, ↓reduceIte]
    rw [full, metrics]
    refine (view_setChild { (s.emit (.pulled item)).spawn c with metrics := _ } 0
      { ((s.emit (.pulled item)).spawn c).child 0 with pc := .offering item }).trans ?_
    rw [if_pos rfl, view_metered, spawned, own]
  have queue : queued t = queued s := congrArg (fun v => v.queue.countP Option.isSome) shown
  have past : p.after c s (.source (.yields item)) t = { p with offers := p.offers + 1 } := by
    simp [Past.after, running, queue, Nat.max_eq_left deep]
  have free := hand_free (c := c) (v := view s) (by simp [view, place, Pc.hand])
  have isGauge : gauge c t { p with offers := p.offers + 1 } =
      { gauge c s p with
        pulled := (gauge c s p).pulled + 1, hand := 1, offers := p.offers + 1
        due := if c.queueSize ≤ queued s then 1 else 0
        pauses := count c.metrics s.metrics.producerPauses (if c.queueSize ≤ queued s then 1 else 0) } := by
    unfold gauge
    rw [shown]
    unfold View.gauge
    have length : s.queue.length = queued s := plain.symm
    by_cases isFull : c.queueSize ≤ queued s <;> cases metered : c.metrics <;>
      simp [View.hand, View.due, view, Pc.hand, Meter.count, length, isFull]
  rw [past, isGauge]
  exact .offer free.1

theorem step_source {act : SourceAct α ε} {p : Past} (early : Early c s) (deep : queued s ≤ p.deepest)
    (stepped : c.step s (.source act) = some t) :
    Step c.queueSize c.metrics (gauge c s p) (gauge c t (p.after c s (.source act) t)) := by
  simp only [step] at stepped
  split at stepped
  · rename_i place
    split at stepped <;> simp only [Option.some.injEq, reduceCtorEq] at stepped
    rename_i ready
    have alive := (member_of_live ready.2.2).2
    cases act with
    | yields item =>
        by_cases stopping : s.stopping = true
        · have quiet : (s.emit (.pulled item)).stopping = true := stopping
          have shown : view t =
              { view s with pulled := (view s).pulled + 1, failed := true, alive := false } := by
            rw [← stepped]
            simp only [sourceStep, quiet, ↓reduceIte]
            rw [view_failSource, view_pulled]
          have queue : queued t = queued s := congrArg (fun v => v.queue.countP Option.isSome) shown
          have past : p.after c s (.source (.yields item)) t = { p with lost := p.lost + 1 } := by
            simp [Past.after, stopping, queue, Nat.max_eq_left deep]
          have before := hand_free (c := c) (v := view s) (by simp [view, place, Pc.hand])
          have after := hand_ended (c := c) (v := view t) (by rw [shown])
          have isGauge : gauge c t { p with lost := p.lost + 1 } =
              { gauge c s p with
                pulled := (gauge c s p).pulled + 1, lost := p.lost + 1, failed := true } := by
            unfold gauge View.gauge
            rw [before.1, before.2, after.1, after.2, shown]
          rw [past, isGauge]
          exact .late
        · simp only [Bool.not_eq_true] at stopping
          exact step_offer early deep alive place stopping stepped.symm
    | ends =>
        simp only [sourceStep] at stepped
        split at stepped
        · exact step_raises deep place rfl (by rw [← stepped, view_failSource])
        · refine emptyHanded (.finishing s.started) true deep rfl ?_ (by rw [place]; rfl)
            (Or.inl rfl)
          rw [← stepped]
          refine (view_setChild s 0 { s.child 0 with pc := .finishing s.started }).trans ?_
          simp [alive]
    | raises cls payload => exact step_raises deep place rfl (by rw [← stepped]; exact view_failSource _ _)
    | raisesCancelled => exact step_raises deep place rfl (by rw [← stepped]; exact view_failSource _ _)
  · simp at stepped

theorem view_ended (s : State α β ε) (index : Nat) (call : CallEnd β ε)
    (completion : Completion (Slot β ε) ε) :
    view (s.emit (.ended index call completion)) = { view s with ended := (view s).ended + 1 } := by
  simp [view, pulls, calls, ends, State.emit, Call.emit, Event.pulled?, Event.called?, Event.ended?]

theorem step_finish {i : Nat} {out : FnEnd β ε} {p : Past} (inv : Inv c s) (deep : queued s ≤ p.deepest)
    (stepped : c.step s (.finish i out) = some t) :
    Step c.queueSize c.metrics (gauge c s p) (gauge c t (p.after c s (.finish i out) t)) := by
  have past : queued t = queued s → p.after c s (.finish i out) t = p := fun queue => by
    simp [Past.after, queue, Nat.max_eq_left deep]
  simp only [step] at stepped
  split at stepped
  · rename_i index item cm place
    split at stepped <;> simp only [Option.some.injEq, reduceCtorEq] at stepped
    have consumer := (inv.placement.each i).consumes (by simp [place, Pc.consumes])
    have left : ∀ task call completion,
        view ((s.setChild i { s.child i with task := task }).emit (.ended index call completion)) =
          { view s with ended := (view s).ended + 1 } := fun task call completion => by
      rw [view_ended, view_setChild, if_neg consumer]
    unfold finish at stepped
    dsimp only at stepped
    split at stepped
    · have shown : view t = { view s with
          ended := (view s).ended + 1
          stored := (view s).stored + 1
          metrics := if c.metrics then { s.metrics with consumed := s.metrics.consumed + 1 }
            else s.metrics } := by
        rw [← stepped]
        refine (view_setChild _ i _).trans ?_
        rw [if_neg consumer, view_stored, left]
        rfl
      have queue : queued t = queued s := congrArg (fun v => v.queue.countP Option.isSome) shown
      have isGauge : gauge c t p = { gauge c s p with
          ended := (ends s).length + 1, stored := s.results.length + 1
          consumed := count c.metrics s.metrics.consumed 1 } := by
        unfold gauge
        rw [shown]
        cases metered : c.metrics <;> rfl
      rw [past queue, isGauge]
      exact .store
    · have shown : view t = { view s with ended := (view s).ended + 1, failed := true } := by
        rw [← stepped, view_endTask, if_neg consumer, view_latched, left]
      have queue : queued t = queued s := congrArg (fun v => v.queue.countP Option.isSome) shown
      have isGauge : gauge c t p = { gauge c s p with ended := (ends s).length + 1, failed := true } := by
        unfold gauge
        rw [shown]
        rfl
      rw [past queue, isGauge]
      exact .fail
  · simp at stepped

/-- `stream` moves its items as a bounded buffer does, and counts them so. -/
theorem step_gauge {a : Act α β ε} {p : Past} (inv : Inv c s) (early : Early c s)
    (deep : queued s ≤ p.deepest) (stepped : c.step s a = some t) :
    Step c.queueSize c.metrics (gauge c s p) (gauge c t (p.after c s a t)) := by
  cases a with
  | loop act =>
      simp only [step] at stepped
      split at stepped
      · obtain ⟨call, moved, rfl⟩ := Option.map_eq_some_iff.mp stepped
        exact step_loop deep moved
      · simp at stepped
  | user act =>
      simp only [step] at stepped
      obtain ⟨call, moved, rfl⟩ := Option.map_eq_some_iff.mp stepped
      exact step_user deep moved
  | late act =>
      simp only [step] at stepped
      obtain ⟨call, moved, rfl⟩ := Option.map_eq_some_iff.mp stepped
      exact step_late deep moved
  | start i => exact step_start deep stepped
  | wake i => exact step_wake inv early deep stepped
  | advance i => exact step_advance inv early deep stepped
  | deadline i => exact step_deadline inv deep stepped
  | source act => exact step_source early deep stepped
  | finish i out => exact step_finish inv deep stepped

end Stream

end AsyncPipelines
