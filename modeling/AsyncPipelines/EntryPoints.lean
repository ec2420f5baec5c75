import AsyncPipelines.Core.Policy
import AsyncPipelines.Core.StreamCalls
import AsyncPipelines.ToolDispatch

/-!
`process`, `stream` and `dispatch_tool_calls` follow the same policy in every state of
every run: the stopping signal, the fail-fast latch and the deadlines mean the same in
all three.
-/

namespace AsyncPipelines

open Asyncio

variable {ι α β κ σ ε : Type}

def Stream.policy (c : Stream) : Policy where
  returnExceptions := c.returnExceptions
  timeout := c.timeout

def Dispatch.policy (d : Dispatch ι ε) : Policy where
  returnExceptions := d.returnExceptions
  timeout := d.timeout
  owner := some d.owner

namespace Fanout

variable {f : Fanout α β κ σ ε} {s t : State α β σ ε}

def Slots (s : State α β σ ε) (i : Nat) (entry : σ) : Prop := s.results[i]? = some (some entry)

theorem Inv.kept (inv : Inv f s) {i : Nat} {call : CallEnd β ε} {entry : σ}
    (member : .ended i call (.stored entry) ∈ s.log) : Slots s i entry := by
  have own : .ended i call (.stored entry) ∈ history i s.log := mem_history.mpr ⟨member, rfl⟩
  have plain : ∀ item expired,
      (.ended i call (.stored entry) : Event α β σ ε) ∉ opening i item expired := by
    intro item expired
    cases expired <;> simp [opening]
  cases inv.item i with
  | absent _ untouched => simp [untouched] at own
  | waiting _ _ _ _ _ untouched _ => simp [untouched] at own
  | calling item cm _ _ _ _ _ record _ => exact absurd (record ▸ own) (plain item _)
  | skipped _ _ _ untouched _ _ => simp [untouched] at own
  | dropped _ _ _ untouched _ _ => simp [untouched] at own
  | stored item clock other slot found _ record faithful stub result kept =>
      simp only [record, List.mem_append, plain, List.mem_singleton, Event.ended.injEq, true_and,
        false_or, Completion.stored.injEq] at own
      exact own.2 ▸ kept
  | failed item clock other exc found _ record faithful stub result _ _ =>
      simp [record, plain] at own

theorem Inv.conducts (inv : Inv f s) {p : Policy} {shows : σ → Slot β ε → Prop}
    (timeout : p.timeout = f.timeout)
    (judges : ∀ i item clock call, Shows shows (f.complete i item clock call) (p.settle i call)) :
    Conducts p shows (Slots s) s.toCall where
  sound := inv.sound
  logged := inv.logged
  signalled := inv.signalled
  noted := inv.noted
  ended := by
    intro i call completion member
    obtain ⟨item, clock, _, _, faithful, _, result⟩ := inv.record member
    refine ⟨timeout ▸ faithful, inv.fired member, result ▸ judges i item clock call, ?_⟩
    rintro entry rfl
    exact inv.kept member

end Fanout

theorem collect_shows (p : Policy) (owner : p.owner = none) (i : Nat) (call : CallEnd β ε) :
    Shows Eq (collect p.returnExceptions p.timeout i call) (p.settle i call) := by
  obtain ⟨returnExceptions, timeout, _⟩ := p
  obtain rfl : _ = none := owner
  have same : Policy.settle ⟨returnExceptions, timeout, none⟩ i call =
      collect returnExceptions timeout i call := rfl
  rw [same]
  dsimp only
  cases collect returnExceptions timeout i call with
  | stored slot => exact .stored rfl
  | failed exc => exact .failed exc

theorem process_conducts {items : List α} {concurrency : Nat} {timeout : Option ℚ}
    {returnExceptions : Bool} {caller : Caller} {s : Fanout.State α β (Slot β ε) ε}
    (reached : Runs.Reaches (process items concurrency timeout returnExceptions).step
      ((process items concurrency timeout returnExceptions).init caller) s) :
    Conducts { returnExceptions := returnExceptions, timeout := timeout } Eq (Fanout.Slots s)
      s.toCall := by
  have inv := Fanout.inv_of_reaches (process_strict items concurrency timeout returnExceptions) reached
  exact inv.conducts rfl fun i _ _ call =>
    collect_shows { returnExceptions := returnExceptions, timeout := timeout } rfl i call

theorem Stream.conducts {c : Stream} {caller : Caller} {s : Stream.State α β ε}
    (reached : Runs.Reaches c.step (Stream.init caller) s) :
    Conducts c.policy Eq (fun _ entry => entry ∈ s.results) s.toCall := by
  have inv := inv_of_reaches reached
  have books := books_of_reaches reached
  refine ⟨inv.sound, inv.logged, inv.signalled, inv.noted, ?_⟩
  intro i call completion member
  obtain ⟨_, _, faithful, result⟩ := books.record member
  refine ⟨faithful, books.fired_iff member, result ▸ collect_shows c.policy rfl i call, ?_⟩
  rintro entry rfl
  rw [books.results, List.mem_filterMap]
  exact ⟨_, mem_ends_record.mpr member, rfl⟩

theorem Dispatch.shows (d : Dispatch ι ε) (i : Nat) (call : ToolCall ι) (elapsed : ℚ)
    (ended : CallEnd β ε) :
    Shows (Agrees d.reprs) (d.runWithTelemetry i call elapsed ended) (d.policy.settle i ended) := by
  cases judged : classify d.timeout (some d.owner) i ended with
  | ok value =>
      rw [Policy.settle_ok (p := d.policy) judged]
      simp only [runWithTelemetry, judged]
      exact .stored ⟨rfl, rfl, rfl⟩
  | error e =>
      rw [Policy.settle_error (p := d.policy) judged]
      simp only [runWithTelemetry, judged, policy]
      by_cases isException : e.isException = true
      · by_cases collects : d.returnExceptions = true
        · simp only [isException, collects, Bool.not_true, Bool.false_eq_true, Bool.and_self, ↓reduceIte]
          exact .stored ⟨rfl, rfl, rfl⟩
        · simp only [isException, collects, Bool.not_false, Bool.not_true, Bool.false_and,
            Bool.false_eq_true, ↓reduceIte]
          exact .failed e
      · simp only [isException, Bool.not_false, Bool.and_false, Bool.false_eq_true, ↓reduceIte]
        exact .failed e

theorem Dispatch.conducts {d : Dispatch ι ε} {f : Fanout (ToolCall ι) β ℚ (ToolResult β) ε}
    (resolved : d.resolve = .ok f) {caller : Caller}
    {s : Fanout.State (ToolCall ι) β (ToolResult β) ε}
    (reached : Runs.Reaches f.step (f.init caller) s) :
    Conducts d.policy (Agrees d.reprs) (Fanout.Slots s) s.toCall := by
  obtain ⟨rfl, _⟩ := resolve_fanout resolved
  exact (Fanout.inv_of_reaches d.fanout_strict reached).conducts rfl d.shows

/-- In every state of every run the stopping signal is exact, and once it is true the call
does not return. -/
theorem stopping_exact :
    (∀ (items : List α) (concurrency : Nat) (timeout : Option ℚ) (returnExceptions : Bool)
      (caller : Caller) (s : Fanout.State α β (Slot β ε) ε),
      Runs.Reaches (process items concurrency timeout returnExceptions).step
        ((process items concurrency timeout returnExceptions).init caller) s →
      SignalExact { returnExceptions := returnExceptions, timeout := timeout } Eq (Fanout.Slots s)
        s.toCall ∧
      (s.stopping = true → ∀ t,
        Runs.Reaches (process items concurrency timeout returnExceptions).step s t →
        t.exit ≠ some .returned)) ∧
    (∀ (c : Stream) (caller : Caller) (s : Stream.State α β ε),
      Runs.Reaches c.step (Stream.init caller) s →
      SignalExact c.policy Eq (fun _ entry => entry ∈ s.results) s.toCall ∧
      (s.stopping = true → ∀ t, Runs.Reaches c.step s t → t.exit ≠ some .returned)) ∧
    ∀ (d : Dispatch ι ε) (f : Fanout (ToolCall ι) β ℚ (ToolResult β) ε), d.resolve = .ok f →
      ∀ (caller : Caller) (s : Fanout.State (ToolCall ι) β (ToolResult β) ε),
      Runs.Reaches f.step (f.init caller) s →
      SignalExact d.policy (Dispatch.Agrees d.reprs) (Fanout.Slots s) s.toCall ∧
      (s.stopping = true → ∀ t, Runs.Reaches f.step s t → t.exit ≠ some .returned) := by
  refine ⟨?_, ?_, ?_⟩
  · intro items concurrency timeout returnExceptions caller s reached
    have strict := process_strict (β := β) (ε := ε) items concurrency timeout returnExceptions
    refine ⟨(process_conducts reached).signalExact, fun stopping t later => ?_⟩
    exact (Fanout.stopping_raises strict (Fanout.inv_of_reaches strict reached) stopping later).2
  · intro c caller s reached
    refine ⟨(Stream.conducts reached).signalExact, fun stopping t later => ?_⟩
    exact (Stream.stopping_raises (Stream.inv_of_reaches reached) stopping later).2
  · intro d f resolved caller s reached
    refine ⟨(Dispatch.conducts resolved reached).signalExact, fun stopping t later => ?_⟩
    obtain ⟨rfl, _⟩ := Dispatch.resolve_fanout resolved
    exact (Fanout.stopping_raises d.fanout_strict (Fanout.inv_of_reaches d.fanout_strict reached)
      stopping later).2

def cancelledMidCall : List (Fanout.Act Nat Unit Unit) :=
  [.run 0, .user (.suspend 0), .loop .cancelCaller, .loop .wakeCaller, .user (.resume 0),
    .finish 0 .cancelled ()]

theorem stopping_exact_cancelled : ∃ s : Fanout.State Nat Nat (Slot Nat Unit) Unit,
    (s.child 0).groupCancelled = true ∧ s.stopping = true ∧
      ∀ t, Runs.Reaches (process [7] 1 none true).step s t → t.exit ≠ some .returned := by
  let f : Fanout Nat Nat Unit (Slot Nat Unit) Unit := process [7] 1 none true
  have ends : (Runs.run f.step (f.init { task := {} }) cancelledMidCall).any
      (fun s => (s.child 0).groupCancelled) = true := by decide
  obtain ⟨s, ran, flagged⟩ := (Option.any_eq_true _ _).mp ends
  have exact_ := (stopping_exact (ι := Unit)).1 [7] 1 none true { task := {} } s ⟨cancelledMidCall, ran⟩
  have stopping := exact_.1.signalled 0 flagged
  exact ⟨s, flagged, stopping, exact_.2 stopping⟩

/-- No call starts after the batch has failed, and where it has not failed an item goes
without its call only if the caller was cancelled; what `stream` pulls is called in order. -/
theorem no_call_after_failure :
    (∀ (items : List α) (concurrency : Nat) (timeout : Option ℚ) (returnExceptions : Bool)
      (caller : Caller) (s : Fanout.State α β (Slot β ε) ε),
      Runs.Reaches (process items concurrency timeout returnExceptions).step
        ((process items concurrency timeout returnExceptions).init caller) s →
      FailsFast { returnExceptions := returnExceptions, timeout := timeout } s.toCall ∧
      ∀ i, i < items.length → (s.child i).ended ≠ none → (∀ item, .called i item ∉ s.log) →
        (∃ event ∈ s.log, event.fails = true) ∨ s.callerCancelled = true) ∧
    (∀ (c : Stream) (caller : Caller) (s : Stream.State α β ε), 1 ≤ c.concurrency →
      Runs.Reaches c.step (Stream.init caller) s →
      FailsFast c.policy s.toCall ∧
      ((∀ event ∈ s.log, event.fails = false) →
        Stream.pulls s = (Stream.calls s).map Prod.snd ++ s.queue.filterMap id ++
          (s.child 0).pc.hand.toList)) ∧
    ∀ (d : Dispatch ι ε) (f : Fanout (ToolCall ι) β ℚ (ToolResult β) ε), d.resolve = .ok f →
      ∀ (caller : Caller) (s : Fanout.State (ToolCall ι) β (ToolResult β) ε),
      Runs.Reaches f.step (f.init caller) s →
      FailsFast d.policy s.toCall ∧
      ∀ i, i < d.toolCalls.length → (s.child i).ended ≠ none → (∀ call, .called i call ∉ s.log) →
        (∃ event ∈ s.log, event.fails = true) ∨ s.callerCancelled = true := by
  refine ⟨?_, ?_, ?_⟩
  · intro items concurrency timeout returnExceptions caller s reached
    have strict := process_strict (β := β) (ε := ε) items concurrency timeout returnExceptions
    refine ⟨(process_conducts reached).failsFast, fun i bound halted uncalled => ?_⟩
    exact (Fanout.inv_of_reaches strict reached).uncalled bound halted uncalled
  · intro c caller s sized reached
    refine ⟨(Stream.conducts reached).failsFast, fun harmless => ?_⟩
    have open_ : s.failed = false := by
      rw [← Bool.not_eq_true, (Stream.inv_of_reaches reached).logged.latch]
      rintro ⟨event, member, fails⟩
      simp [harmless event member] at fails
    obtain ⟨items, marks, balanced⟩ := Stream.sorted_of_reaches sized reached open_
    have queue : s.queue = items.map some ++ List.replicate marks none := balanced.queue
    have queued : s.queue.filterMap id = items := by
      simp [queue, List.filterMap_append, List.filterMap_map]
    rw [queued]
    exact balanced.order
  · intro d f resolved caller s reached
    refine ⟨(Dispatch.conducts resolved reached).failsFast, fun i bound halted uncalled => ?_⟩
    obtain ⟨rfl, _⟩ := Dispatch.resolve_fanout resolved
    exact (Fanout.inv_of_reaches d.fanout_strict reached).uncalled bound halted uncalled

def failsFirst : List (Fanout.Act Nat Unit Unit) :=
  [.run 0, .finish 0 (.raised .exception ()) (), .run 1]

theorem no_call_after_failure_pair : ∃ s : Fanout.State Nat Nat (Slot Nat Unit) Unit,
    s.log.length = 2 ∧ (s.child 1).ended.isSome = true ∧
      s.log.Pairwise fun first second => first.fails = true → second.isCall = false := by
  let f : Fanout Nat Nat Unit (Slot Nat Unit) Unit := process [0, 1] 2 none false
  have ends : (Runs.run f.step (f.init { task := {} }) failsFirst).any
      (fun s => s.log.length == 2 && (s.child 1).ended.isSome) = true := by decide
  obtain ⟨s, ran, checked⟩ := (Option.any_eq_true _ _).mp ends
  simp only [Bool.and_eq_true, beq_iff_eq] at checked
  exact ⟨s, checked.1, checked.2, ((no_call_after_failure (ι := Unit)).1 [0, 1] 2 none false
    { task := {} } s ⟨failsFirst, ran⟩).1.quiet⟩

/-- A deadline is reported exactly when it fired. -/
theorem deadline_exact :
    (∀ (items : List α) (concurrency : Nat) (timeout : Option ℚ) (returnExceptions : Bool)
      (caller : Caller) (s : Fanout.State α β (Slot β ε) ε),
      Runs.Reaches (process items concurrency timeout returnExceptions).step
        ((process items concurrency timeout returnExceptions).init caller) s →
      DeadlineExact { returnExceptions := returnExceptions, timeout := timeout } Eq s.toCall) ∧
    (∀ (c : Stream) (caller : Caller) (s : Stream.State α β ε),
      Runs.Reaches c.step (Stream.init caller) s → DeadlineExact c.policy Eq s.toCall) ∧
    ∀ (d : Dispatch ι ε) (f : Fanout (ToolCall ι) β ℚ (ToolResult β) ε), d.resolve = .ok f →
      ∀ (caller : Caller) (s : Fanout.State (ToolCall ι) β (ToolResult β) ε),
      Runs.Reaches f.step (f.init caller) s →
      DeadlineExact d.policy (Dispatch.Agrees d.reprs) s.toCall := by
  refine ⟨?_, ?_, ?_⟩
  · intro items concurrency timeout returnExceptions caller s reached
    exact (process_conducts reached).deadlineExact
  · intro c caller s reached
    exact (Stream.conducts reached).deadlineExact
  · intro d f resolved caller s reached
    exact (Dispatch.conducts resolved reached).deadlineExact

def overrun : List (Fanout.Act Nat Unit Unit) :=
  [.run 0, .user (.suspend 0), .deadline 0, .user (.resume 0), .finish 0 .cancelled ()]

theorem deadline_exact_overrun : ∃ (s : Fanout.State Nat Nat (Slot Nat Unit) Unit) (call : CallEnd Nat Unit)
    (completion settled : Completion (Slot Nat Unit) Unit),
    Runs.run (process [7] 1 (some 1) false).step ((process [7] 1 (some 1) false).init { task := {} })
        overrun = some s ∧
      .ended 0 call completion ∈ s.log ∧ Shows Eq completion settled ∧
      ∃ timeout_s cause, some 1 = some timeout_s ∧
        Policy.report settled = .error (.pipelineTimeoutError 0 timeout_s none cause) := by
  let f : Fanout Nat Nat Unit (Slot Nat Unit) Unit := process [7] 1 (some 1) false
  let late : CallEnd Nat Unit := ⟨.cancelled, .error .timeoutError, true, false, false⟩
  let missed : Completion (Slot Nat Unit) Unit := .failed (.pipelineTimeoutError 0 1 none .timeoutError)
  obtain ⟨s, ran, log⟩ : ∃ s, Runs.run f.step (f.init { task := {} }) overrun = some s ∧
      s.log = [.called 0 7, .deadline 0, .ended 0 late missed] := ⟨_, rfl, rfl⟩
  have exact_ := (deadline_exact (ι := Unit)).1 [7] 1 (some 1) false { task := {} } s ⟨overrun, ran⟩
  have logged : .ended 0 late missed ∈ s.log := by simp [log]
  obtain ⟨settled, shows, reported, _⟩ := exact_.ended 0 late missed logged
  exact ⟨s, late, missed, settled, ran, logged, shows,
    reported.mpr ⟨by simp [log], .timeoutError, rfl, Or.inl rfl⟩⟩

end AsyncPipelines
