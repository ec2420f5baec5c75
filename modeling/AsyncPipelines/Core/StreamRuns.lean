import AsyncPipelines.Core.StreamMeter
import Mathlib.Data.Set.Card
import Mathlib.Order.Interval.Finset.Nat

/-!
Bounds on what `stream` has in hand, over its runs.
-/

namespace AsyncPipelines

open Asyncio Conveyor Meter

variable {α β ε : Type}

namespace Stream

variable {c : Stream} {s t : State α β ε}

def watched (c : Stream) (w : State α β ε × Past) (a : Act α β ε) : Option (State α β ε × Past) :=
  Runs.watch c.step (Past.after c) w a

theorem Early.init (c : Stream) (caller : Caller) : Early c (Stream.init caller : State α β ε) where
  bounded := Nat.zero_le _
  plain := fun _ => rfl
  room := fun _ puts => by simp [Stream.init, Call.enter, Pc.puts] at puts

structure Metered (c : Stream) (s : State α β ε) (p : Past) : Prop where
  inv : Inv c s
  early : Early c s
  balanced : Balanced c.queueSize (gauge c s p)
  exact_ : c.metrics = true → Exact c.queueSize (gauge c s p)

theorem Metered.init (c : Stream) (caller : Caller) : Metered c (Stream.init caller : State α β ε) {} where
  inv := Inv.init c caller
  early := Early.init c caller
  balanced := Balanced.start
  exact_ := fun _ => Exact.start

theorem Metered.step {a : Act α β ε} {p : Past} (metered : Metered c s p) (stepped : c.step s a = some t) :
    Metered c t (p.after c s a t) := by
  have gauged := step_gauge metered.inv metered.early metered.balanced.deepest.1 stepped
  refine ⟨metered.inv.step stepped, metered.early.moves metered.inv (step_moves stepped),
    gauged.balanced metered.balanced, fun counted => ?_⟩
  rw [counted] at gauged
  exact gauged.exact metered.balanced (metered.exact_ counted)

theorem metered_of_reaches {caller : Caller} {p : Past}
    (reached : Runs.Reaches c.watched (init caller, {}) (s, p)) : Metered c s p := by
  refine reached.invariant (p := fun w => Metered c w.1 w.2) ?_ (Metered.init c caller)
  rintro w a v metered stepped
  obtain ⟨moved, noted⟩ := Runs.watch_step stepped
  exact noted ▸ metered.step moved

theorem reaches_of_watched {caller : Caller} {p : Past}
    (reached : Runs.Reaches c.watched (init caller, {}) (s, p)) : Runs.Reaches c.step (init caller) s := by
  obtain ⟨actions, ran⟩ := reached
  exact ⟨actions, Runs.run_unwatch ran⟩

/-- A step adds to the log: no call once a failure has latched, and an item only where
the source is running. -/
theorem Moves.notes (moved : Moves c s t) :
    ∃ more, t.log = s.log ++ more ∧ (t.failed = true → more.filterMap Event.called? = []) ∧
      ((s.child 0).pc ≠ .pulling → more.filterMap Event.pulled? = []) := by
  have same : t.log = s.log → ∃ more, t.log = s.log ++ more ∧
      (t.failed = true → more.filterMap Event.called? = []) ∧
      ((s.child 0).pc ≠ .pulling → more.filterMap Event.pulled? = []) :=
    fun same => ⟨[], by simp [same], fun _ => rfl, fun _ => rfl⟩
  have more : ∀ e : Event α β (Slot β ε) ε, e.called? = none → e.pulled? = none →
      t.log = s.log ++ [e] → ∃ more, t.log = s.log ++ more ∧
        (t.failed = true → more.filterMap Event.called? = []) ∧
        ((s.child 0).pc ≠ .pulling → more.filterMap Event.pulled? = []) :=
    fun e noCall noPull log => ⟨[e], log, fun _ => by simp [noCall], fun _ => by simp [noPull]⟩
  cases moved with
  | loop act call calm moved => exact same (Call.loopStep_same moved).1
  | user act call moved => exact same (Call.userStep_same moved).1
  | putDenied i item at_ place throws notPending =>
      exact more _ rfl rfl (congrArg (· ++ [_]) (leavePut_kept s c i notPending).1)
  | sentinelDenied i left at_ place throws notPending => exact same (leavePut_kept s c i notPending).1
  | getDenied i at_ place throws notPending => exact same (leaveGet_kept s i notPending).1
  | put i item at_ place room metrics => exact same (fulfil_kept _ _).2.1
  | sentinelPut i left at_ place room => exact same (fulfil_kept _ _).2.1
  | gotSentinel i rest at_ place entry =>
      exact more (.sentinel i) rfl rfl (congrArg (· ++ [_]) (fulfil_kept s.toCall _).2.1)
  | discarded i item rest at_ place entry _ => exact same (fulfil_kept _ _).2.1
  | called i item rest at_ place entry open_ cm timed entered =>
      refine ⟨[.called s.consumedIndex item], congrArg (· ++ [_]) (fulfil_kept s.toCall _).2.1,
        fun failed => ?_, fun _ => rfl⟩
      have still : s.failed = true := (fulfil_kept s.toCall _).1.symm.trans failed
      simp [open_] at still
  | yielded item at_ place running metrics =>
      exact ⟨[.pulled item], (spawn_same (s.emit (.pulled item)) c).1, fun _ => rfl,
        fun elsewhere => absurd place elsewhere⟩
  | yieldedLate item at_ place stopping =>
      exact ⟨[_, _], List.append_assoc s.log [_] [_], fun _ => rfl, fun elsewhere => absurd place elsewhere⟩
  | sourceFailed | deadline | finished | failed => exact more _ rfl rfl rfl
  | late | dropped | started | putWoken | sentinelWoken | getWoken | putWaits | produced | sentinelWaits
  | stopped | looped | getWaits | ended => exact same rfl

theorem Moves.pulls_grow (moved : Moves c s t) : pulls s <+: pulls t := by
  obtain ⟨more, log, _⟩ := moved.notes
  rw [pulls, pulls, log, List.filterMap_append]
  exact List.prefix_append _ _

theorem Moves.pulls_same (moved : Moves c s t) (elsewhere : (s.child 0).pc ≠ .pulling) :
    pulls t = pulls s := by
  obtain ⟨more, log, _, noPull⟩ := moved.notes
  rw [pulls, log, List.filterMap_append, noPull elsewhere, List.append_nil]
  rfl

theorem Moves.staffed (moved : Moves c s t) (staffed : s.started ≤ (pulls s).length) :
    t.started ≤ (pulls t).length := by
  have more : (pulls s).length ≤ (pulls t).length := moved.pulls_grow.length_le
  have same : t.started = s.started → t.started ≤ (pulls t).length := fun same => by omega
  cases moved with
  | yielded item at_ place running metrics =>
      have pulled : pulls ({ (s.emit (.pulled item)).spawn c with metrics := metrics }.goto 0 (.offering item)) =
          pulls s ++ [item] :=
        (congrArg (List.filterMap Event.pulled?) (spawn_same (s.emit (.pulled item)) c).1).trans
          (by simp [pulls, State.emit, Call.emit, Event.pulled?])
      have started : ((s.emit (.pulled item)).spawn c).started ≤ s.started + 1 := by
        unfold State.spawn
        split
        · exact Nat.le_refl _
        · exact Nat.le_succ _
      rw [pulled, List.length_append]
      exact started.trans (Nat.succ_le_succ staffed)
  | putDenied i item at_ place throws notPending =>
      refine same ?_
      show (s.leavePut c i).started = s.started
      unfold State.leavePut
      dsimp only
      split <;> rfl
  | sentinelDenied i left at_ place throws notPending =>
      refine same ?_
      show (s.leavePut c i).started = s.started
      unfold State.leavePut
      dsimp only
      split <;> rfl
  | getDenied i at_ place throws notPending =>
      refine same ?_
      show (s.leaveGet i).started = s.started
      unfold State.leaveGet
      dsimp only
      split <;> rfl
  | loop | user | late | put | sentinelPut | gotSentinel | discarded | called | yieldedLate | sourceFailed
  | deadline | finished | failed | dropped | started | putWoken | sentinelWoken | getWoken | putWaits
  | produced | sentinelWaits | stopped | looped | getWaits | ended => exact same rfl

/-- Items are called in the order of the source, also once a failure has latched. -/
def InLine (s : State α β ε) : Prop := (calls s).map Prod.snd <+: pulls s

theorem inLine_of_reaches {caller : Caller} (sized : 1 ≤ c.concurrency)
    (reached : Runs.Reaches c.step (init caller) s) :
    InLine s ∧ s.started ≤ (pulls s).length := by
  have all : Runs.Reaches c.step (init caller) s ∧ InLine s ∧ s.started ≤ (pulls s).length := by
    refine reached.invariant
      (p := fun s => Runs.Reaches c.step (init caller) s ∧ InLine s ∧ s.started ≤ (pulls s).length) ?_
      ⟨Runs.Reaches.refl _, List.prefix_refl _, Nat.le_refl 0⟩
    rintro s a t ⟨reached, inLine, staffed⟩ stepped
    have moved := step_moves stepped
    have next := reached.next stepped
    refine ⟨next, ?_, moved.staffed staffed⟩
    by_cases open_ : t.failed = true
    · obtain ⟨more, log, noCall, _⟩ := moved.notes
      have same : calls t = calls s := by simp [calls, log, noCall open_]
      rw [InLine, same]
      exact inLine.trans moved.pulls_grow
    · obtain ⟨items, marks, balanced⟩ := sorted_of_reaches sized next (by simpa using open_)
      exact ⟨items ++ (belt t).hand.toList, (List.append_assoc _ _ _).symm.trans balanced.order.symm⟩
  exact all.2

theorem Books.called_iff (books : Books c s) {k : Nat} :
    (∃ item, .called k item ∈ s.log) ↔ k < s.consumedIndex := by
  rw [← List.mem_range, ← books.indices, List.mem_map]
  constructor
  · rintro ⟨item, member⟩
    exact ⟨(k, item), mem_calls.mpr member, rfl⟩
  · rintro ⟨⟨index, item⟩, member, rfl⟩
    exact ⟨item, mem_calls.mp member⟩

def flying (s : State α β ε) : Finset Nat :=
  Finset.range s.consumedIndex \ ((ends s).map Prod.fst).toFinset

theorem Books.mem_flying (books : Books c s) {k : Nat} : k ∈ flying s ↔ InFlight s.log k := by
  rw [flying, Finset.mem_sdiff, Finset.mem_range, ← books.called_iff, List.mem_toFinset, mem_ends]
  simp [InFlight]

theorem Books.count_flying (books : Books c s) : (flying s).card + (ends s).length = (calls s).length := by
  have calls : (calls s).length = s.consumedIndex := by
    simpa using congrArg List.length books.indices
  have inside : ((ends s).map Prod.fst).toFinset ⊆ Finset.range s.consumedIndex := by
    intro k member
    rw [List.mem_toFinset, mem_ends] at member
    obtain ⟨call, completion, member⟩ := member
    rw [Finset.mem_range, ← books.called_iff]
    obtain ⟨item, record, _⟩ := books.record member
    have called : .called k item ∈ history k s.log := by
      rw [record]
      exact List.mem_cons_self
    exact ⟨item, (mem_history.mp called).1⟩
  have fewer := Finset.card_le_card inside
  rw [List.toFinset_card_of_nodup books.once, List.length_map, Finset.card_range] at fewer
  rw [flying, Finset.card_sdiff_of_subset inside, List.toFinset_card_of_nodup books.once, List.length_map,
    Finset.card_range]
  omega

theorem Books.flying_le (books : Books c s) (inv : Inv c s) : (flying s).card ≤ c.concurrency := by
  have inside : ∀ k ∈ flying s, ∃ i item cm, inCall (s.child i) = some (k, item, cm) := by
    intro k flies
    obtain ⟨⟨item, called⟩, unfinished⟩ := books.mem_flying.mp flies
    have own : .called k item ∈ history k s.log := mem_history.mpr ⟨called, rfl⟩
    cases books.index k with
    | uncalled _ _ untouched => simp [untouched] at own
    | calling i item cm _ inside _ _ _ _ => exact ⟨i, item, cm, inside⟩
    | settled _ call completion _ _ record _ _ =>
        have ended : .ended k call completion ∈ history k s.log := by simp [record]
        exact absurd (mem_history.mp ended).1 (unfinished call completion)
  choose! worker item cm inside using inside
  have bound : ∀ k ∈ flying s, worker k ∈ Finset.Icc 1 c.concurrency := by
    intro k flies
    have place := inside k flies
    have calling : (s.child (worker k)).pc.consumes = true ∧ (s.child (worker k)).pc ≠ .created := by
      unfold inCall at place
      split at place
      · cases pc : (s.child (worker k)).pc <;> simp_all [Pc.call?, Pc.consumes]
      · simp at place
    have consumer := (inv.placement.each (worker k)).consumes calling.1
    have limit := inv.bounded calling.2
    rw [Finset.mem_Icc]
    omega
  have apart : Set.InjOn worker (flying s) := by
    intro j flies k flies' same
    have first := inside j flies
    rw [same, inside k flies'] at first
    simp only [Option.some.injEq, Prod.mk.injEq] at first
    exact first.1.symm
  have fewer := Finset.card_le_card_of_injOn worker bound apart
  rw [Nat.card_Icc] at fewer
  omega

theorem Books.inFlight (books : Books c s) (inv : Inv c s) :
    {k | InFlight s.log k}.encard ≤ c.concurrency := by
  have same : {k | InFlight s.log k} = (flying s : Set Nat) := by
    ext k
    exact books.mem_flying.symm
  rw [same, Set.encard_coe_eq_coe_finsetCard]
  exact_mod_cast books.flying_le inv

structure Bounded (c : Stream) (s : State α β ε) (p : Past) : Prop where
  inFlight : {k | InFlight s.log k}.encard ≤ c.concurrency
  order : StartsInOrder (pulls s) s.log
  consumers : s.started ≤ min c.concurrency (pulls s).length
  queued : queued s ≤ c.queueSize
  ahead : (pulls s).length ≤ (ends s).length + p.lost + (c.concurrency + c.queueSize + 1)
  lossless : s.failed = false → p.lost = 0

theorem bounded_of_reaches {caller : Caller} {p : Past} (sized : 1 ≤ c.concurrency)
    (reached : Runs.Reaches c.watched (init caller, {}) (s, p)) : Bounded c s p := by
  have plain := reaches_of_watched reached
  have metered := metered_of_reaches reached
  have books := books_of_reaches plain
  obtain ⟨inLine, staffed⟩ := inLine_of_reaches sized plain
  have called : (calls s).length = s.consumedIndex := by
    simpa using congrArg List.length books.indices
  have balance : (pulls s).length = p.lost + (view s).hand + queued s + (calls s).length :=
    metered.balanced.balance
  have single : (view s).hand ≤ 1 := metered.balanced.single
  have room : queued s ≤ c.queueSize := metered.balanced.bounded
  have flying := books.count_flying
  have few := books.flying_le metered.inv
  exact {
    inFlight := books.inFlight metered.inv
    order := ⟨by rw [show callLog s.log = calls s from rfl, books.indices, called], inLine⟩
    consumers := Nat.le_min.mpr ⟨metered.inv.limit, staffed⟩
    queued := room
    ahead := by omega
    lossless := fun open_ => (metered.balanced.whole open_).1 }

end Stream

end AsyncPipelines
