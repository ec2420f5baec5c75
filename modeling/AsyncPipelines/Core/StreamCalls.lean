import AsyncPipelines.Core.StreamProgress

/-!
The calls that `stream` makes: the indices are handed out in order, each to one
consumer at a time, and every result is that of a call that has ended.
-/

namespace AsyncPipelines

open Asyncio Conveyor

variable {α β ε : Type}

def Completion.slot? {σ : Type} : Completion σ ε → Option σ
  | stored slot => some slot
  | failed _ => none

theorem Event.unindexed {σ : Type} {e : Event α β σ ε} (outside : e.index = none) :
    e.called? = none ∧ e.ended? = none := by
  cases e <;> simp_all [Event.index, Event.called?, Event.ended?]

namespace Stream

def Pc.call? : Pc α → Option (Nat × α × Option Timeout)
  | calling index item cm => some (index, item, cm)
  | _ => none

def inCall (child : Child (Pc α) (Exc ε)) : Option (Nat × α × Option Timeout) :=
  if child.ended.isNone then child.pc.call? else none

def ends (s : State α β ε) : List (Nat × CallEnd β ε × Completion (Slot β ε) ε) :=
  s.log.filterMap Event.ended?

inductive IndexState (c : Stream) (s : State α β ε) (k : Nat) : Prop
  | uncalled (later : s.consumedIndex ≤ k) (nobody : ∀ j item cm, inCall (s.child j) ≠ some (k, item, cm))
      (untouched : history k s.log = [])
  | calling (i : Nat) (item : α) (cm : Option Timeout) (earlier : k < s.consumedIndex)
      (inside : inCall (s.child i) = some (k, item, cm))
      (only : ∀ j other own, inCall (s.child j) = some (k, other, own) → j = i)
      (timed : cm.isSome = c.timeout.isSome)
      (open_ : ∀ own, cm = some own → own.state = .entered ∨ own.state = .expiring)
      (record : history k s.log = opening k item (cm.any Timeout.expired))
  | settled (item : α) (call : CallEnd β ε) (completion : Completion (Slot β ε) ε)
      (earlier : k < s.consumedIndex)
      (nobody : ∀ j item cm, inCall (s.child j) ≠ some (k, item, cm))
      (record : history k s.log = opening k item call.expired ++ [.ended k call completion])
      (faithful : call.Faithful c.timeout)
      (result : collect c.returnExceptions c.timeout k call = completion)

variable {c : Stream} {s t : State α β ε}

theorem IndexState.kept {k : Nat} (state : IndexState c s k)
    (same : ∀ j item cm, inCall (t.child j) = some (k, item, cm) ↔ inCall (s.child j) = some (k, item, cm))
    (record : history k t.log = history k s.log) (more : s.consumedIndex ≤ t.consumedIndex)
    (later : s.consumedIndex ≤ k → t.consumedIndex ≤ k) : IndexState c t k := by
  cases state with
  | uncalled after nobody untouched =>
      exact .uncalled (later after) (fun j item cm found => nobody j item cm ((same j item cm).mp found))
        (record.trans untouched)
  | calling i item cm earlier inside only timed open_ past =>
      exact .calling i item cm (by omega) ((same i item cm).mpr inside)
        (fun j other own found => only j other own ((same j other own).mp found)) timed open_
        (record.trans past)
  | settled item call completion earlier nobody past faithful result =>
      exact .settled item call completion (by omega)
        (fun j item cm found => nobody j item cm ((same j item cm).mp found)) (record.trans past)
        faithful result

structure Books (c : Stream) (s : State α β ε) : Prop where
  indices : (calls s).map Prod.fst = List.range s.consumedIndex
  index : ∀ k, IndexState c s k
  results : s.results = (ends s).filterMap fun record => record.2.2.slot?
  once : ((ends s).map Prod.fst).Nodup
  ordered : c.concurrency = 1 →
    (ends s).map Prod.fst ++ (inCall (s.child 1)).toList.map Prod.fst = List.range s.consumedIndex

structure Aside (s t : State α β ε) : Prop where
  same : ∀ j, inCall (t.child j) = inCall (s.child j)
  log : ∃ more, t.log = s.log ++ more ∧
    ∀ event ∈ more, (event : Event α β (Slot β ε) ε).index = none
  index : t.consumedIndex = s.consumedIndex
  results : t.results = s.results

namespace Aside

theorem refl (s : State α β ε) : Aside s s := ⟨fun _ => rfl, ⟨[], by simp, by simp⟩, rfl, rfl⟩

theorem trans {u : State α β ε} (first : Aside s t) (second : Aside t u) : Aside s u := by
  obtain ⟨more, log, outside⟩ := first.log
  obtain ⟨later, log', outside'⟩ := second.log
  refine ⟨fun j => (second.same j).trans (first.same j), ⟨more ++ later, ?_, ?_⟩,
    second.index.trans first.index, second.results.trans first.results⟩
  · rw [log', log, List.append_assoc]
  · intro event member
    exact (List.mem_append.mp member).elim (outside event) (outside' event)

theorem events (aside : Aside s t) : calls t = calls s ∧ ends t = ends s ∧
    ∀ k, history k t.log = history k s.log := by
  obtain ⟨more, log, outside⟩ := aside.log
  have noCalls : more.filterMap Event.called? = [] :=
    List.filterMap_eq_nil_iff.mpr fun event member => (Event.unindexed (outside event member)).1
  have noEnds : more.filterMap Event.ended? = [] :=
    List.filterMap_eq_nil_iff.mpr fun event member => (Event.unindexed (outside event member)).2
  refine ⟨by simp [calls, log, noCalls], by simp [ends, log, noEnds], fun k => ?_⟩
  have nothing : history k more = [] := by
    refine List.filter_eq_nil_iff.mpr fun event member => ?_
    simp [outside event member]
  rw [log, history_append, nothing, List.append_nil]

end Aside

theorem Books.aside (books : Books c s) (aside : Aside s t) : Books c t := by
  obtain ⟨called, ended, past⟩ := aside.events
  refine ⟨?_, fun k => ?_, ?_, ?_, fun one => ?_⟩
  · rw [called, aside.index]
    exact books.indices
  · refine (books.index k).kept (fun j item cm => by rw [aside.same]) (past k) ?_ ?_ <;>
      rw [aside.index]
    · intro later
      exact later
  · rw [aside.results, ended]
    exact books.results
  · rw [ended]
    exact books.once
  · rw [ended, aside.same, aside.index]
    exact books.ordered one

theorem inCall_of_pc {child : Child (Pc α) (Exc ε)} (place : child.pc.call? = none) :
    inCall child = none := by
  unfold inCall
  split
  · exact place
  · rfl

theorem inCall_over {child : Child (Pc α) (Exc ε)} (halted : child.ended ≠ none) :
    inCall child = none := by
  simp [inCall, halted]

theorem IndexState.running {k i : Nat} {item : α} {cm : Option Timeout} (state : IndexState c s k)
    (inside : inCall (s.child i) = some (k, item, cm)) :
    k < s.consumedIndex ∧
      (∀ j other own, inCall (s.child j) = some (k, other, own) → j = i) ∧
      cm.isSome = c.timeout.isSome ∧
      (∀ own, cm = some own → own.state = .entered ∨ own.state = .expiring) ∧
      history k s.log = opening k item (cm.any Timeout.expired) := by
  cases state with
  | uncalled _ nobody _ => exact absurd inside (nobody i item cm)
  | settled _ _ _ _ nobody _ _ _ => exact absurd inside (nobody i item cm)
  | calling j other own earlier place only timed open_ record =>
      obtain rfl := only i item cm inside
      obtain ⟨-, rfl, rfl⟩ : True ∧ item = other ∧ cm = own := by
        simpa [inside] using place
      exact ⟨earlier, only, timed, open_, record⟩

theorem mem_ends {k : Nat} : k ∈ (ends s).map Prod.fst ↔
    ∃ call completion, .ended k call completion ∈ s.log := by
  simp only [ends, List.mem_map, List.mem_filterMap]
  constructor
  · rintro ⟨⟨index, call, completion⟩, ⟨event, member, isEnd⟩, rfl⟩
    cases event <;> simp only [Event.ended?, Option.some.injEq, Prod.mk.injEq, reduceCtorEq] at isEnd
    obtain ⟨rfl, rfl, rfl⟩ := isEnd
    exact ⟨_, _, member⟩
  · rintro ⟨call, completion, member⟩
    exact ⟨(k, call, completion), ⟨_, member, rfl⟩, rfl⟩

namespace Books

theorem called (books : Books c s) {i : Nat} {item : α} {cm : Option Timeout}
    (free : inCall (s.child i) = none)
    (own : inCall (t.child i) = some (s.consumedIndex, item, cm))
    (others : ∀ j, j ≠ i → inCall (t.child j) = inCall (s.child j))
    (log : t.log = s.log ++ [.called s.consumedIndex item]) (index : t.consumedIndex = s.consumedIndex + 1)
    (results : t.results = s.results) (timed : cm.isSome = c.timeout.isSome)
    (entered : ∀ own, cm = some own → own.state = .entered) (single : c.concurrency = 1 → i = 1) :
    Books c t := by
  have called : calls t = calls s ++ [(s.consumedIndex, item)] := by
    simp [calls, log, Event.called?]
  have ended : ends t = ends s := by simp [ends, log, Event.ended?]
  refine ⟨?_, fun k => ?_, ?_, ?_, fun one => ?_⟩
  · rw [called, index, List.map_append, books.indices, List.range_succ]
    rfl
  · by_cases here : k = s.consumedIndex
    · subst here
      have fresh : (∀ j item cm, inCall (s.child j) ≠ some (s.consumedIndex, item, cm)) ∧
          history s.consumedIndex s.log = [] := by
        cases books.index s.consumedIndex with
        | uncalled _ nobody untouched => exact ⟨nobody, untouched⟩
        | calling _ _ _ earlier _ _ _ _ _ => omega
        | settled _ _ _ earlier _ _ _ _ => omega
      refine .calling i item cm (by omega) own (fun j other found inside => ?_) timed
        (fun found isCm => Or.inl (entered found isCm)) ?_
      · by_contra elsewhere
        rw [others j elsewhere] at inside
        exact fresh.1 j other found inside
      · rw [log, history_same rfl, fresh.2]
        cases cm with
        | none => rfl
        | some found => simp [opening, Timeout.expired, entered found rfl]
    · refine (books.index k).kept (fun j other found => ?_) ?_ (by omega) (fun later => by omega)
      · by_cases mine : j = i
        · subst mine
          rw [own, free]
          simp [Ne.symm here]
        · rw [others j mine]
      · rw [log, history_other (by simpa [Event.index] using Ne.symm here)]
  · rw [results, ended]
    exact books.results
  · rw [ended]
    exact books.once
  · obtain rfl := single one
    have before := books.ordered one
    rw [free] at before
    rw [ended, own, index, List.range_succ, ← before]
    simp

theorem fired (books : Books c s) {i k : Nat} {item : α} {cm : Timeout}
    (inside : inCall (s.child i) = some (k, item, some cm)) (entered : cm.state = .entered)
    (own : inCall (t.child i) = some (k, item, some cm.fire))
    (others : ∀ j, j ≠ i → inCall (t.child j) = inCall (s.child j))
    (log : t.log = s.log ++ [.deadline k]) (index : t.consumedIndex = s.consumedIndex)
    (results : t.results = s.results) : Books c t := by
  have called : calls t = calls s := by simp [calls, log, Event.called?]
  have ended : ends t = ends s := by simp [ends, log, Event.ended?]
  refine ⟨?_, fun j => ?_, ?_, ?_, fun one => ?_⟩
  · rw [called, index]
    exact books.indices
  · by_cases here : j = k
    · subst here
      obtain ⟨earlier, only, timed, _, record⟩ := (books.index j).running inside
      refine .calling i item (some cm.fire) (by omega) own (fun m other found at_ => ?_) timed ?_ ?_
      · by_contra elsewhere
        rw [others m elsewhere] at at_
        exact elsewhere (only m other found at_)
      · rintro _ ⟨rfl⟩
        exact Or.inr rfl
      · rw [log, history_same rfl, record]
        simp [opening, Timeout.expired, Timeout.fire, entered]
    · refine (books.index j).kept (fun m other found => ?_) ?_ (by omega) (fun later => by omega)
      · by_cases mine : m = i
        · subst mine
          rw [own, inside]
          simp [Ne.symm here]
        · rw [others m mine]
      · rw [log, history_other (by simpa [Event.index] using Ne.symm here)]
  · rw [results, ended]
    exact books.results
  · rw [ended]
    exact books.once
  · have before := books.ordered one
    rw [ended, index, ← before]
    by_cases mine : 1 = i
    · subst mine
      rw [own, inside]
      simp
    · rw [others 1 mine]

theorem ended (books : Books c s) {i k : Nat} {item : α} {cm : Option Timeout} {call : CallEnd β ε}
    {completion : Completion (Slot β ε) ε} (inside : inCall (s.child i) = some (k, item, cm))
    (own : inCall (t.child i) = none)
    (others : ∀ j, j ≠ i → inCall (t.child j) = inCall (s.child j))
    (log : t.log = s.log ++ [.ended k call completion]) (index : t.consumedIndex = s.consumedIndex)
    (results : t.results = s.results ++ completion.slot?.toList)
    (expired : call.expired = cm.any Timeout.expired) (faithful : call.Faithful c.timeout)
    (result : collect c.returnExceptions c.timeout k call = completion)
    (single : c.concurrency = 1 → i = 1) : Books c t := by
  have called : calls t = calls s := by simp [calls, log, Event.called?]
  have ended : ends t = ends s ++ [(k, call, completion)] := by simp [ends, log, Event.ended?]
  obtain ⟨earlier, only, _, _, record⟩ := (books.index k).running inside
  refine ⟨?_, fun j => ?_, ?_, ?_, fun one => ?_⟩
  · rw [called, index]
    exact books.indices
  · by_cases here : j = k
    · subst here
      refine .settled item call completion (by omega) (fun m other found at_ => ?_) ?_ faithful result
      · by_cases mine : m = i
        · subst mine
          simp [own] at at_
        · rw [others m mine] at at_
          exact mine (only m other found at_)
      · rw [log, history_same rfl, record, expired]
    · refine (books.index j).kept (fun m other found => ?_) ?_ (by omega) (fun later => by omega)
      · by_cases mine : m = i
        · subst mine
          rw [own, inside]
          simp [Ne.symm here]
        · rw [others m mine]
      · rw [log, history_other (by simpa [Event.index] using Ne.symm here)]
  · rw [results, ended, List.filterMap_append, books.results]
    cases completion <;> simp [Completion.slot?]
  · rw [ended, List.map_append]
    refine List.nodup_append.mpr ⟨books.once, by simp, ?_⟩
    intro j member m isK
    rw [List.mem_singleton.mp isK]
    rintro rfl
    obtain ⟨before, what, logged⟩ := mem_ends.mp member
    have past : .ended j before what ∈ history j s.log := mem_history.mpr ⟨logged, rfl⟩
    rw [record] at past
    cases cm.any Timeout.expired <;> simp [opening] at past
  · obtain rfl := single one
    have before := books.ordered one
    rw [inside] at before
    rw [ended, own, index, ← before]
    simp

end Books

namespace Aside

theorem fulfil {woken : Option Nat} (call : t.toCall = s.toCall.fulfil woken)
    (index : t.consumedIndex = s.consumedIndex) (results : t.results = s.results) : Aside s t := by
  refine ⟨fun j => ?_, ⟨[], ?_, by simp⟩, index, results⟩
  · rw [call, Call.fulfil_child]
    split <;> rfl
  · rw [call, (fulfil_kept _ _).2.1, List.append_nil]

theorem goesOn {i : Nat} {d : Child (Pc α) (Exc ε)} (child : t.child = (s.setChild i d).child)
    (before : (s.child i).pc.call? = none) (after : d.pc.call? = none) (log : t.log = s.log)
    (index : t.consumedIndex = s.consumedIndex) (results : t.results = s.results) : Aside s t := by
  obtain ⟨others, own⟩ := setChild_child s i d
  refine ⟨fun j => ?_, ⟨[], by simp [log], by simp⟩, index, results⟩
  rw [child]
  by_cases here : j = i
  · subst here
    rw [own, inCall_of_pc before, inCall_of_pc after]
  · rw [others j here]

theorem endTask {i : Nat} {ended : TaskEnd (Exc ε)} (free : inCall (s.child i) = none) :
    Aside s (s.endTask i ended) := by
  obtain ⟨others, halted⟩ := endTask_child s i ended
  refine ⟨fun j => ?_, ⟨[], by simp [State.endTask, Call.endTask, Call.setChild], by simp⟩, rfl, rfl⟩
  by_cases here : j = i
  · subst here
    rw [free, inCall_over halted]
  · rw [others j here]

theorem emit (s : State α β ε) {e : Event α β (Slot β ε) ε} (outside : e.index = none) :
    Aside s (s.emit e) :=
  ⟨fun _ => rfl, ⟨[e], rfl, by simp [outside]⟩, rfl, rfl⟩

theorem failSource {caught : Exc ε} (free : inCall (s.child 0) = none) :
    Aside s (s.failSource caught) := by
  have noted : Aside s { s.emit (.sourceFailed caught s.stopping (s.child 0).groupCancelled
      (strayCancellationAsError caught s.stopping none (some "the producer"))) with failed := true } :=
    ⟨fun _ => rfl, ⟨[_], rfl, by simp [Event.index]⟩, rfl, rfl⟩
  exact noted.trans (endTask free)

theorem leavePut (s : State α β ε) (i : Nat) : Aside s (s.leavePut c i) := by
  unfold State.leavePut
  dsimp only
  split
  · exact fulfil rfl rfl rfl
  · exact ⟨fun _ => rfl, ⟨[], by simp, by simp⟩, rfl, rfl⟩

theorem leaveGet (s : State α β ε) (i : Nat) : Aside s (s.leaveGet i) := by
  unfold State.leaveGet
  dsimp only
  split
  · exact fulfil rfl rfl rfl
  · exact ⟨fun _ => rfl, ⟨[], by simp, by simp⟩, rfl, rfl⟩

theorem put (s : State α β ε) (entry : Option α) : Aside s (s.putNowait entry) := fulfil rfl rfl rfl

theorem pop (s : State α β ε) (rest : List (Option α)) :
    Aside s { s with queue := rest }.wakePutter := fulfil rfl rfl rfl

theorem spawn (s : State α β ε) : Aside s (s.spawn c) := by
  unfold State.spawn
  split
  · exact ⟨fun _ => rfl, ⟨[], by simp, by simp⟩, rfl, rfl⟩
  · exact refl s

end Aside

theorem inCall_place {child : Child (Pc α) (Exc ε)} {index : Nat} {item : α} {cm : Option Timeout}
    (alive : child.ended = none) (place : child.pc = .calling index item cm) :
    inCall child = some (index, item, cm) := by
  simp [inCall, alive, place, Pc.call?]

theorem Books.finish (books : Books c s) (inv : Inv c s) {i index : Nat} {item : α}
    {cm : Option Timeout} {out : FnEnd β ε} {completion : Completion (Slot β ε) ε} (at_ : Busy s i)
    (place : (s.child i).pc = .calling index item cm)
    (result : collect c.returnExceptions c.timeout index
      (s.callEnd i out (leaveTimeout cm (s.child i).task out)) = completion)
    (own : inCall (t.child i) = none) (others : ∀ j, j ≠ i → inCall (t.child j) = inCall (s.child j))
    (log : t.log = s.log ++ [.ended index
      (s.callEnd i out (leaveTimeout cm (s.child i).task out)) completion])
    (same : t.consumedIndex = s.consumedIndex)
    (results : t.results = s.results ++ completion.slot?.toList) : Books c t := by
  obtain ⟨member, alive⟩ := member_of_live at_.alive
  have inside := inCall_place alive place
  obtain ⟨_, _, timed, open_, _⟩ := (books.index index).running inside
  have faithful := CallEnd.Faithful.of_leave (c := s.toCall) (i := i) (t := (s.child i).task) out timed
    open_ fun flag => inv.sound.cancelled_stopping at_.open_ flag
  have consumer := (inv.placement.each i).consumes (by simp [place, Pc.consumes])
  refine books.ended inside own others log same results faithful.2 faithful.1 result fun one => ?_
  have bound := inv.bounded (i := i) (by simp [place])
  omega

theorem Books.moves (inv : Inv c s) (books : Books c s) (moved : Moves c s t) : Books c t := by
  have free : ∀ i, (s.child i).pc.call? = none → inCall (s.child i) = none :=
    fun _ place => inCall_of_pc place
  cases moved with
  | loop act call calm moved =>
      refine books.aside ⟨fun j => ?_, ⟨[], ?_, by simp⟩, rfl, rfl⟩
      · have frame := Frame.loopStep moved j
        show inCall (call.child j) = _
        unfold inCall
        rw [frame.ended, frame.pc]
      · rw [List.append_nil]
        exact (Call.loopStep_same moved).1
  | user act call moved =>
      obtain ⟨log, _, _, _, ⟨task, child⟩, _, _, _⟩ := Call.userStep_same moved
      refine books.aside ⟨fun j => ?_, ⟨[], by simpa using log, by simp⟩, rfl, rfl⟩
      show inCall (call.child j) = _
      rw [child, Call.setTask_child]
      split
      · rename_i here
        rw [here]
        rfl
      · rfl
  | late act at_ begun =>
      obtain ⟨others, own⟩ := setChild_child s act.task { s.child act.task with
        task := act.after (s.child act.task).task }
      refine books.aside ⟨fun j => ?_, ⟨[], (List.append_nil _).symm, by simp⟩, rfl, rfl⟩
      by_cases here : j = act.task
      · subst here
        rw [own]
        rfl
      · rw [others j here]
  | dropped i at_ place throws => exact books.aside (.endTask (free i (by rw [place]; rfl)))
  | started i at_ place calm =>
      refine books.aside (.goesOn (i := i) rfl (by rw [place]; rfl) ?_ rfl rfl rfl)
      split <;> rfl
  | putDenied i item at_ place throws notPending =>
      obtain rfl : i = 0 := (inv.placement.each i).produces (by simp [place, Pc.produces])
      have same := (leavePut_kept s c 0 notPending).2.2.2.2.1
      exact books.aside ((Aside.leavePut s 0).trans (.failSource (by rw [same]; exact free 0 (by rw [place]; rfl))))
  | putWoken i item at_ place done calm =>
      exact books.aside (.goesOn (i := i) rfl (by rw [place]; rfl) rfl rfl rfl rfl)
  | sentinelDenied i left at_ place throws notPending =>
      have same := (leavePut_kept s c i notPending).2.2.2.2.1
      exact books.aside ((Aside.leavePut s i).trans (.endTask (by rw [same]; exact free i (by rw [place]; rfl))))
  | sentinelWoken i left at_ place done calm =>
      exact books.aside (.goesOn (i := i) rfl (by rw [place]; rfl) rfl rfl rfl rfl)
  | getDenied i at_ place throws notPending =>
      have same := (leaveGet_kept s i notPending).2.2.2.2.1
      exact books.aside ((Aside.leaveGet s i).trans (.endTask (by rw [same]; exact free i (by rw [place]; rfl))))
  | getWoken i at_ place done calm =>
      exact books.aside (.goesOn (i := i) rfl (by rw [place]; rfl) rfl rfl rfl rfl)
  | putWaits i item at_ place full =>
      exact books.aside (.goesOn (i := i) rfl (by rw [place]; rfl) rfl rfl rfl rfl)
  | put i item at_ place room metrics =>
      have own : ((s.putNowait (some item)).child i).pc = .offering item := (fulfil_pc _ _ i).trans place
      exact books.aside ((Aside.put s (some item)).trans
        (.goesOn (i := i) rfl (by rw [own]; rfl) rfl rfl rfl rfl))
  | produced i at_ place => exact books.aside (.endTask (free i (by rw [place]; rfl)))
  | sentinelWaits i left at_ place full =>
      exact books.aside (.goesOn (i := i) rfl (by rw [place]; rfl) rfl rfl rfl rfl)
  | sentinelPut i left at_ place room =>
      have own : ((s.putNowait none).child i).pc = .finishing (left + 1) := (fulfil_pc _ _ i).trans place
      exact books.aside ((Aside.put s none).trans
        (.goesOn (i := i) rfl (by rw [own]; rfl) rfl rfl rfl rfl))
  | stopped i at_ place stopping => exact books.aside (.endTask (free i (by rw [place]; rfl)))
  | looped i at_ place running =>
      exact books.aside (.goesOn (i := i) rfl (by rw [place]; rfl) rfl rfl rfl rfl)
  | getWaits i at_ place empty =>
      exact books.aside (.goesOn (i := i) rfl (by rw [place]; rfl) rfl rfl rfl rfl)
  | gotSentinel i rest at_ place entry =>
      have own : ({ s with queue := rest }.wakePutter.child i).pc = .taking :=
        (fulfil_pc _ _ i).trans place
      have noted := (Aside.pop s rest).trans (Aside.emit _ (e := .sentinel i) rfl)
      exact books.aside (noted.trans (.endTask (inCall_of_pc (congrArg Pc.call? own))))
  | discarded i item rest at_ place entry failed =>
      have own : ({ s with queue := rest }.wakePutter.child i).pc = .taking :=
        (fulfil_pc _ _ i).trans place
      exact books.aside ((Aside.pop s rest).trans (.endTask (inCall_of_pc (congrArg Pc.call? own))))
  | called i item rest at_ place entry open_ cm timed entered =>
      obtain ⟨notListed, _⟩ := inv.atWork at_ (by simp [place, Pc.atWork])
      obtain ⟨_, busy, _, _⟩ := inv.pop rest at_ notListed
      have alive := (member_of_live busy.alive).2
      have consumer := (inv.placement.each i).consumes (by simp [place, Pc.consumes])
      have bound := inv.bounded (i := i) (by simp [place])
      have own : ({ s with queue := rest }.wakePutter.child i).pc = .taking :=
        (fulfil_pc _ _ i).trans place
      have taken := books.aside (Aside.pop s rest)
      obtain ⟨others, same⟩ := setChild_child { s with queue := rest }.wakePutter i
        { { s with queue := rest }.wakePutter.child i with pc := .calling s.consumedIndex item cm }
      refine taken.called (i := i) (inCall_of_pc (congrArg Pc.call? own)) ?_ ?_ rfl rfl rfl timed
        entered fun one => by omega
      · exact (congrArg inCall same).trans (inCall_place alive rfl)
      · exact fun j other => congrArg inCall (others j other)
  | deadline i index item cm at_ place entered =>
      have alive := (member_of_live at_.alive).2
      obtain ⟨others, same⟩ := setChild_child s i { s.child i with
        pc := .calling index item (some cm.fire), task := (s.child i).task.cancel }
      refine books.fired (inCall_place alive place) entered ?_ ?_ rfl rfl rfl
      · exact (congrArg inCall same).trans (inCall_place alive rfl)
      · exact fun j other => congrArg inCall (others j other)
  | yieldedLate item at_ place stopping =>
      exact books.aside ((Aside.emit s rfl).trans (.failSource (free 0 (by rw [place]; rfl))))
  | yielded item at_ place running metrics =>
      have child : ((s.emit (.pulled item)).spawn c).child 0 = s.child 0 := (spawn_kept c _).2.1 0
      have spawned := (Aside.emit s (e := .pulled item) rfl).trans (Aside.spawn (c := c) _)
      exact books.aside (spawned.trans (.goesOn (i := 0) rfl (by rw [child, place]; rfl) rfl rfl rfl rfl))
  | ended at_ place running =>
      exact books.aside (.goesOn (i := 0) rfl (by rw [place]; rfl) rfl rfl rfl rfl)
  | sourceFailed caught at_ place => exact books.aside (.failSource (free 0 (by rw [place]; rfl)))
  | finished i index item cm out slot at_ place stored metrics =>
      obtain ⟨others, _⟩ := setChild_child s i
        { s.child i with task := (leaveTimeout cm (s.child i).task out).2.2 }
      obtain ⟨others', own⟩ := setChild_child (s.setChild i
        { s.child i with task := (leaveTimeout cm (s.child i).task out).2.2 }) i
        { (s.setChild i { s.child i with task := (leaveTimeout cm (s.child i).task out).2.2 }).child i with
          pc := .looping }
      refine books.finish inv at_ place stored ?_ ?_ rfl rfl rfl
      · exact (congrArg inCall own).trans (inCall_of_pc rfl)
      · exact fun j other => congrArg inCall ((others' j other).trans (others j other))
  | failed i index item cm out exc at_ place fails =>
      obtain ⟨others, _⟩ := setChild_child s i
        { s.child i with task := (leaveTimeout cm (s.child i).task out).2.2 }
      obtain ⟨others', halted⟩ := endTask_child (s.setChild i
        { s.child i with task := (leaveTimeout cm (s.child i).task out).2.2 }) i exc.taskEnd
      refine books.finish inv at_ place fails ?_ ?_ rfl rfl (by simp [Completion.slot?, State.endTask, State.emit, State.setChild])
      · exact inCall_over halted
      · exact fun j other => congrArg inCall ((others' j other).trans (others j other))

theorem books_of_reaches {caller : Caller} (reached : Runs.Reaches c.step (init caller) s) :
    Books c s := by
  have nobody : ∀ j, inCall ((init caller : State α β ε).child j) = none := fun _ => rfl
  have both : Inv c s ∧ Books c s := by
    refine reached.invariant (p := fun s => Inv c s ∧ Books c s) ?_ ⟨Inv.init c caller, ?_⟩
    · rintro s a t ⟨inv, books⟩ stepped
      exact ⟨inv.step stepped, books.moves inv (step_moves stepped)⟩
    · refine ⟨rfl, fun k => ?_, rfl, List.nodup_nil, fun _ => rfl⟩
      exact .uncalled (Nat.zero_le k) (fun j item cm => by simp [nobody]) rfl
  exact both.2

theorem Books.record (books : Books c s) {k : Nat} {call : CallEnd β ε}
    {completion : Completion (Slot β ε) ε} (member : .ended k call completion ∈ s.log) :
    ∃ item, history k s.log = opening k item call.expired ++ [.ended k call completion] ∧
      call.Faithful c.timeout ∧ collect c.returnExceptions c.timeout k call = completion := by
  have own : .ended k call completion ∈ history k s.log := mem_history.mpr ⟨member, rfl⟩
  have plain : ∀ item expired,
      (.ended k call completion : Event α β (Slot β ε) ε) ∉ opening k item expired := by
    intro item expired
    cases expired <;> simp [opening]
  cases books.index k with
  | uncalled _ _ untouched => simp [untouched] at own
  | calling _ item cm _ _ _ _ _ record => exact absurd (record ▸ own) (plain item _)
  | settled item other ending _ _ record faithful result =>
      simp only [record, List.mem_append, plain, List.mem_singleton, Event.ended.injEq, true_and,
        false_or] at own
      obtain ⟨rfl, rfl⟩ := own
      exact ⟨item, record, faithful, result⟩

theorem Books.fired_iff (books : Books c s) {k : Nat} {call : CallEnd β ε}
    {completion : Completion (Slot β ε) ε} (member : .ended k call completion ∈ s.log) :
    .deadline k ∈ s.log ↔ call.expired = true := by
  obtain ⟨item, record, _⟩ := books.record member
  have own : .deadline k ∈ s.log ↔ (.deadline k : Event α β (Slot β ε) ε) ∈ history k s.log := by
    simp [mem_history, Event.index]
  rw [own, record]
  cases call.expired <;> simp [opening]

theorem mem_calls {k : Nat} {item : α} : (k, item) ∈ calls s ↔ .called k item ∈ s.log := by
  simp only [calls, List.mem_filterMap]
  constructor
  · rintro ⟨event, member, isCall⟩
    cases event <;> simp only [Event.called?, Option.some.injEq, Prod.mk.injEq, reduceCtorEq] at isCall
    obtain ⟨rfl, rfl⟩ := isCall
    exact member
  · exact fun member => ⟨_, member, rfl⟩

theorem mem_ends_record {k : Nat} {call : CallEnd β ε} {completion : Completion (Slot β ε) ε} :
    (k, call, completion) ∈ ends s ↔ .ended k call completion ∈ s.log := by
  simp only [ends, List.mem_filterMap]
  constructor
  · rintro ⟨event, member, isEnd⟩
    cases event <;> simp only [Event.ended?, Option.some.injEq, Prod.mk.injEq, reduceCtorEq] at isEnd
    obtain ⟨rfl, rfl, rfl⟩ := isEnd
    exact member
  · exact fun member => ⟨_, member, rfl⟩

theorem slots_of_stored {σ γ : Type} {f : γ → Completion σ ε} {list : List γ}
    (stored : ∀ record ∈ list, ∃ slot, f record = .stored slot) :
    list.map f = (list.filterMap fun record => (f record).slot?).map Completion.stored := by
  induction list with
  | nil => rfl
  | cons record rest ih =>
      obtain ⟨slot, isStored⟩ := stored record List.mem_cons_self
      have later := ih fun other member => stored other (List.mem_cons_of_mem _ member)
      simp [isStored, Completion.slot?, later]

theorem Inv.nobody_calls (inv : Inv c s) (returned : s.exit = some .returned) (j : Nat) :
    inCall (s.child j) = none := by
  by_cases known : j ≤ s.started
  · have empty := (inv.sound.returned returned).2.1
    exact inCall_over (inv.left j known (by simp [empty]))
  · rw [inv.fresh j (by omega)]
    rfl

/-- Every index that was handed out has its end in the log, and no other has. -/
theorem Books.all_ended (books : Books c s) (nobody : ∀ j, inCall (s.child j) = none) :
    ((ends s).map Prod.fst).Perm (List.range s.consumedIndex) := by
  refine (List.perm_ext_iff_of_nodup books.once List.nodup_range).mpr fun k => ?_
  rw [List.mem_range, mem_ends]
  constructor
  · rintro ⟨call, completion, member⟩
    have own : .ended k call completion ∈ history k s.log := mem_history.mpr ⟨member, rfl⟩
    cases books.index k with
    | uncalled _ _ untouched => simp [untouched] at own
    | calling i item cm _ inside _ _ _ _ => simp [nobody] at inside
    | settled _ _ _ earlier _ _ _ _ => exact earlier
  · intro earlier
    cases books.index k with
    | uncalled later _ _ => omega
    | calling i item cm _ inside _ _ _ _ => simp [nobody] at inside
    | settled item call completion _ _ record _ _ =>
        have own : .ended k call completion ∈ history k s.log := by simp [record]
        exact ⟨call, completion, (mem_history.mp own).1⟩

/-- Where the call returns, everything that was pulled has been called, in order. -/
theorem Staff.finished (inv : Inv c s) (staff : Staff s) (sorted : Sorted (belt s))
    (returned : s.exit = some .returned) :
    (retired s).Perm (List.range' 1 s.started) ∧ s.queue = [] ∧ (calls s).map Prod.snd = pulls s := by
  have empty := (inv.sound.returned returned).2.1
  have halted : ∀ i, i ≤ s.started → (s.child i).ended ≠ none := fun i known =>
    inv.left i known (by simp [empty])
  have everyone : (retired s).Perm (List.range' 1 s.started) := by
    refine (List.perm_ext_iff_of_nodup staff.once List.nodup_range').mpr fun i => ?_
    rw [staff.gone, List.mem_range'_1]
    constructor
    · rintro ⟨known, _⟩
      omega
    · intro known
      exact ⟨by omega, halted i (by omega)⟩
  have paid : (belt s).owed = some 0 := by
    simp [belt, staff.done (halted 0 (Nat.zero_le _)), Pc.owed]
  have all := sorted.finished paid (by simpa [belt] using everyone.length_eq)
  exact ⟨everyone, all.1, all.2⟩

theorem stream_complete (c : Stream) (sized : 1 ≤ c.concurrency) (caller : Caller)
    (actions : List (Act α β ε)) (s : State α β ε) (results : List (Slot β ε))
    (along : Runs.Along c.step Undisturbed (init caller) actions)
    (ran : Runs.run c.step (init caller) actions = some s) (list : returned s = some results) :
    calls s = (List.range (pulls s).length).zip (pulls s) ∧
    ((ends s).map Prod.fst).Perm (List.range (pulls s).length) ∧
    (ends s).map (fun record => record.2.2) = results.map Completion.stored ∧
    (∀ k call slot, (k, call, .stored slot) ∈ ends s →
      Outcome c.returnExceptions c.timeout k call slot) ∧
    (c.concurrency = 1 → (ends s).map Prod.fst = List.range (pulls s).length) ∧
    (retired s).Perm (List.range' 1 s.started) ∧ s.queue = [] := by
  have reached : Runs.Reaches c.step (init caller) s := ⟨actions, ran⟩
  have inv := inv_of_reaches reached
  have books := books_of_reaches reached
  obtain ⟨exit, rfl⟩ : s.exit = some .returned ∧ s.results = results := by
    unfold returned at list
    split at list
    · rename_i exit
      exact ⟨exit, Option.some.inj list⟩
    · simp at list
  have calm := inv.sound.quiet exit
  have open_ : s.failed = false := by
    simp only [Call.stopping, Bool.or_eq_false_iff] at calm
    exact calm.1
  obtain ⟨everyone, empty, taken⟩ := (staff_of_along along ran calm).finished inv
    (sorted_of_reaches sized reached open_) exit
  have nobody := inv.nobody_calls exit
  have count : s.consumedIndex = (pulls s).length := by
    have lengths := congrArg List.length books.indices
    rw [← taken]
    simpa using lengths.symm
  have stored : ∀ record ∈ ends s, ∃ slot, record.2.2 = Completion.stored slot := by
    rintro ⟨k, call, completion⟩ member
    cases completion with
    | stored slot => exact ⟨slot, rfl⟩
    | failed exc =>
        have latched := inv.logged.latch.mpr ⟨_, mem_ends_record.mp member, rfl⟩
        simp [open_] at latched
  refine ⟨List.zip_of_prod (count ▸ books.indices) taken, count ▸ books.all_ended nobody, ?_, ?_, ?_,
    everyone, empty⟩
  · rw [books.results]
    exact slots_of_stored stored
  · intro k call slot member
    obtain ⟨_, _, faithful, result⟩ := books.record (mem_ends_record.mp member)
    exact collect_outcome faithful result
  · intro one
    have order := books.ordered one
    rw [nobody 1, count] at order
    simpa using order

def allDone : List (Act Nat Nat Unit) := [.loop (.taskDone 1), .loop (.taskDone 0), .loop .wakeCaller]

def goodRun : List (Act Nat Nat Unit) :=
  goodCall ++ [.wake 1, .advance 1, .finish 1 (.returned 11), .advance 1, .advance 1, .wake 0,
    .advance 0, .advance 0, .wake 1, .advance 1] ++ allDone

theorem stream_complete_narrow : ∃ (s : State Nat Nat Unit) (results : List (Slot Nat Unit)),
    returned s = some results ∧ pulls s = [0, 1] ∧
      calls s = (List.range (pulls s).length).zip (pulls s) := by
  have ends : (Runs.run narrow.step (init { task := {} }) goodRun).any
      (fun s => (returned s).isSome && pulls s == [0, 1]) = true := by decide
  obtain ⟨s, ran, checked⟩ := (Option.any_eq_true _ _).mp ends
  simp only [Bool.and_eq_true, beq_iff_eq] at checked
  obtain ⟨results, list⟩ := Option.isSome_iff_exists.mp checked.1
  have along : Runs.Along narrow.step Undisturbed (init { task := {} }) goodRun := by decide
  exact ⟨s, results, list, checked.2,
    (stream_complete narrow (le_refl 1) { task := {} } goodRun s results along ran list).1⟩

def lossyRun : List (Act Nat Nat Unit) :=
  firstCall ++ [.user (.cancelSelf 1), .finish 1 (.returned 10), .advance 1, .advance 1, .wake 1] ++
    secondItem ++ [.advance 0] ++ allDone

/-- The consumer dies at `queue.get()`, and the second item is never taken. -/
theorem stream_loses : ¬ ∀ (c : Stream) (caller : Caller) (s : State Nat Nat Unit)
    (results : List (Slot Nat Unit)), 1 ≤ c.concurrency → 1 ≤ c.queueSize →
    Runs.Reaches c.step (init caller) s → returned s = some results →
    (calls s).map Prod.snd = pulls s := by
  intro complete
  have ends : (Runs.run { narrow with queueSize := 2 }.step (init { task := {} }) lossyRun).any
      (fun s => (returned s).isSome && (calls s).map Prod.snd != pulls s) = true := by decide
  obtain ⟨s, ran, checked⟩ := (Option.any_eq_true _ _).mp ends
  simp only [Bool.and_eq_true, bne_iff_ne] at checked
  obtain ⟨results, list⟩ := Option.isSome_iff_exists.mp checked.1
  exact checked.2 (complete { narrow with queueSize := 2 } { task := {} } s results (le_refl 1)
    (Nat.le_succ 1) ⟨_, ran⟩ list)

end Stream

end AsyncPipelines
