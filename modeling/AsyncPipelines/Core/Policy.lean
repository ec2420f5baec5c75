import AsyncPipelines.Core.History

/-!
What the three entry points promise about their calls, said once. `Policy.settle` is
what should become of a call; an entry point `Conducts` its calls by a policy when its
log and its results follow it, whatever form the entries of the results have.
-/

namespace AsyncPipelines

open Asyncio

variable {χ α β σ ε : Type}

/-- The arguments on which the fate of a call depends. `owner` marks the timeouts of
this dispatch. -/
structure Policy where
  returnExceptions : Bool
  timeout : Option ℚ
  owner : Option Nat := none

inductive Shows (shows : σ → Slot β ε → Prop) :
    Completion σ ε → Completion (Slot β ε) ε → Prop
  | stored {entry : σ} {slot : Slot β ε} (agrees : shows entry slot) :
      Shows shows (.stored entry) (.stored slot)
  | failed (exc : Exc ε) : Shows shows (.failed exc) (.failed exc)

namespace Policy

variable {p : Policy} {i : Nat} {call : CallEnd β ε}

def settle (p : Policy) (i : Nat) (call : CallEnd β ε) : Completion (Slot β ε) ε :=
  match classify p.timeout p.owner i call with
  | .ok value => .stored (.value value)
  | .error e => if p.returnExceptions && e.isException then .stored (.error e) else .failed e

def report : Completion (Slot β ε) ε → Except (Exc ε) β
  | .stored (.value value) => .ok value
  | .stored (.error e) => .error e
  | .failed e => .error e

theorem report_settle : report (p.settle i call) = classify p.timeout p.owner i call := by
  unfold settle
  split
  · rename_i value isValue
    simp [report, isValue]
  · rename_i e isError
    split <;> simp [report, isError]

theorem settle_ok {value : β} (judged : classify p.timeout p.owner i call = .ok value) :
    p.settle i call = .stored (.value value) := by
  simp [settle, judged]

theorem settle_error {e : Exc ε} (judged : classify p.timeout p.owner i call = .error e) :
    p.settle i call =
      if p.returnExceptions && e.isException then .stored (.error e) else .failed e := by
  simp [settle, judged]

theorem settle_cancelled (judged : classify p.timeout p.owner i call = .error .cancelledError) :
    p.settle i call = .failed .cancelledError := by
  simp [settle_error judged, Exc.isException]

theorem classify_block (block : call.block = .error .cancelledError) :
    classify p.timeout p.owner i call =
      if call.stopping then .error .cancelledError
      else match p.timeout, call.expired with
        | some timeout_s, true =>
            .error (.pipelineTimeoutError i timeout_s p.owner .cancelledError)
        | _, _ => .error (.pipelineError (strayMessage (some i) none) .cancelledError) := by
  cases timeout : p.timeout with
  | none =>
      cases stopping : call.stopping <;>
        simp [classify, ownDeadline, block, stopping, strayCancellationAsError,
          Exc.isCancelledError]
  | some timeout_s =>
      cases stopping : call.stopping <;> cases expired : call.expired <;>
        simp [classify, ownDeadline, block, stopping, expired, strayCancellationAsError,
          Exc.isCancelledError, Exc.isTimeoutError, deadlineEscaped]

end Policy

/-- A call that is in progress follows the policy `p`; `kept i entry` says that `entry`
is in the results as the entry of index `i`. -/
structure Conducts (p : Policy) (shows : σ → Slot β ε → Prop) (kept : Nat → σ → Prop)
    (s : Call χ α β σ ε) : Prop where
  sound : Call.Sound s
  logged : Call.Logged s
  signalled : ∀ j, (s.child j).groupCancelled = true → s.stopping = true
  noted : ∀ e ∈ s.log, Call.Noted s e
  ended : ∀ i call completion, .ended i call completion ∈ s.log →
    call.Faithful p.timeout ∧ (.deadline i ∈ s.log ↔ call.expired = true) ∧
    Shows shows completion (p.settle i call) ∧ ∀ entry, completion = .stored entry → kept i entry

/-- The stopping signal `failed or caller.cancelled()` is exact: it is true wherever the
group has cancelled, a cancellation of the group's stays one, and a `CancelledError` of
the call's own is reported. -/
structure SignalExact (p : Policy) (shows : σ → Slot β ε → Prop) (kept : Nat → σ → Prop)
    (s : Call χ α β σ ε) : Prop where
  signalled : ∀ j, (s.child j).groupCancelled = true → s.stopping = true
  torn : ∀ i call completion, .ended i call completion ∈ s.log → call.groupCancelled = true →
    call.stopping = true ∧
      (call.block = .error .cancelledError → completion = .failed .cancelledError)
  tornSource : ∀ stopping groupCancelled exc,
    .sourceFailed .cancelledError stopping groupCancelled exc ∈ s.log →
      (groupCancelled = true → stopping = true) ∧
      exc = if stopping then .cancelledError
        else .pipelineError (strayMessage none (some "the producer")) .cancelledError
  own : ∀ i call completion, .ended i call completion ∈ s.log →
    call.block = .error .cancelledError → call.stopping = false →
    ∃ exc : Exc ε,
      (exc = .pipelineError (strayMessage (some i) none) .cancelledError ∨
        ∃ timeout_s, exc = .pipelineTimeoutError i timeout_s p.owner .cancelledError) ∧
      (completion = .failed exc ∨
        ∃ entry, completion = .stored entry ∧ shows entry (.error exc) ∧ kept i entry)
  raised : ∀ e ∈ s.log, ∀ exc, e.failure? = some exc → exc ≠ .cancelledError →
    ∀ exit, s.exit = some exit →
      (∃ base, exit = .base base) ∨ ∃ errors, exit = .group errors ∧ exc ∈ errors
  clean : ∀ errors, s.exit = some (.group errors) → .cancelledError ∉ errors

/-- No call starts after the batch has failed, and it fails only by a failure that
propagates. -/
structure FailsFast (p : Policy) (s : Call χ α β σ ε) : Prop where
  quiet : s.log.Pairwise fun first second => first.fails = true → second.isCall = false
  propagates : ∀ i call completion, .ended i call completion ∈ s.log →
    ((∃ exc, completion = .failed exc) ↔
      ∃ exc, classify p.timeout p.owner i call = .error exc ∧
        (p.returnExceptions = false ∨ exc.isException = false))

/-- A deadline is reported exactly when it fired and ended the call. -/
structure DeadlineExact (p : Policy) (shows : σ → Slot β ε → Prop) (s : Call χ α β σ ε) :
    Prop where
  ended : ∀ i call completion, .ended i call completion ∈ s.log →
    ∃ settled : Completion (Slot β ε) ε, Shows shows completion settled ∧
      ((∃ timeout_s cause, p.timeout = some timeout_s ∧
          Policy.report settled = .error (.pipelineTimeoutError i timeout_s p.owner cause)) ↔
        .deadline i ∈ s.log ∧ ∃ exc, call.block = .error exc ∧
          (exc.isTimeoutError = true ∨ exc = .cancelledError ∧ call.stopping = false)) ∧
      (.deadline i ∉ s.log → ∀ cls payload, call.out = .raised cls payload →
        Policy.report settled = .error (.raised cls payload)) ∧
      (.deadline i ∉ s.log → call.out = .cancelled → call.stopping = false →
        Policy.report settled =
          .error (.pipelineError (strayMessage (some i) none) .cancelledError)) ∧
      (∀ value, call.out = .returned value → settled = .stored (.value value)) ∧
      (call.block = .error .cancelledError → call.stopping = true →
        settled = .failed .cancelledError)

/-- Where a task has ended with a failure, the call ends with the group of failures, or
with one that the group puts before all others. -/
theorem Call.Sound.raises {s : Call χ α β σ ε} (sound : Call.Sound s) {j : Nat} {exc : Exc ε}
    (raised : (s.child j).ended = some (.raised exc)) {exit : Exit (Exc ε)}
    (ended : s.exit = some exit) :
    (∃ base, exit = .base base) ∨ ∃ errors, exit = .group errors ∧ exc ∈ errors := by
  obtain ⟨empty, outcome⟩ := sound.closed exit ended
  have member : exc ∈ s.group.errors := by
    rcases sound.reported j exc raised with running | erred
    · simp [empty] at running
    · exact erred
  have some : s.group.errors ≠ [] := List.ne_nil_of_mem member
  rw [outcome]
  cases base : s.group.baseError with
  | some error => exact Or.inl ⟨error, by simp [TaskGroup.outcome, base]⟩
  | none => exact Or.inr ⟨s.group.errors, by simp [TaskGroup.outcome, base, some], member⟩

namespace Conducts

variable {p : Policy} {shows : σ → Slot β ε → Prop} {kept : Nat → σ → Prop} {s : Call χ α β σ ε}

theorem signalExact (conducts : Conducts p shows kept s) : SignalExact p shows kept s where
  signalled := conducts.signalled
  torn := by
    intro i call completion member flagged
    obtain ⟨faithful, _, judged, _⟩ := conducts.ended i call completion member
    have stopping := faithful.signalled flagged
    refine ⟨stopping, fun block => ?_⟩
    have cancelled : p.settle i call = .failed .cancelledError :=
      Policy.settle_cancelled (by simp [Policy.classify_block block, stopping])
    rw [cancelled] at judged
    cases judged
    rfl
  tornSource := by
    intro stopping flagged exc member
    obtain ⟨heard, isExc⟩ := (conducts.noted _ member).source _ _ _ _ rfl
    refine ⟨heard, isExc.trans ?_⟩
    cases stopping <;> simp [strayCancellationAsError, Exc.isCancelledError]
  own := by
    intro i call completion member block running
    obtain ⟨_, _, judged, keeps⟩ := conducts.ended i call completion member
    have result := Policy.classify_block (p := p) (i := i) block
    rw [running] at result
    obtain ⟨exc, isExc, shape⟩ : ∃ exc : Exc ε, classify p.timeout p.owner i call = .error exc ∧
        (exc = .pipelineError (strayMessage (some i) none) .cancelledError ∨
          ∃ timeout_s, exc = .pipelineTimeoutError i timeout_s p.owner .cancelledError) := by
      rw [result]
      simp only [Bool.false_eq_true, ↓reduceIte]
      split
      · exact ⟨_, rfl, Or.inr ⟨_, rfl⟩⟩
      · exact ⟨_, rfl, Or.inl rfl⟩
    refine ⟨exc, shape, ?_⟩
    rw [Policy.settle_error isExc] at judged
    split at judged
    · cases judged with
      | stored agrees => exact Or.inr ⟨_, rfl, agrees, keeps _ rfl⟩
    · cases judged
      exact Or.inl rfl
  raised := by
    intro e member exc failure other exit ended
    rcases (conducts.noted e member).blamed exc failure with cancelled | ⟨j, raised⟩
    · exact absurd cancelled other
    · exact conducts.sound.raises raised ended
  clean := by
    intro errors ended member
    obtain ⟨_, outcome⟩ := conducts.sound.closed _ ended
    obtain ⟨_, rfl⟩ := Scope.outcome_group outcome.symm
    obtain ⟨j, raised⟩ := conducts.sound.collected _ member
    exact (conducts.sound.latched j _ raised).2 rfl

theorem failsFast (conducts : Conducts p shows kept s) : FailsFast p s where
  quiet := conducts.logged.quiet
  propagates := by
    intro i call completion member
    obtain ⟨_, _, judged, _⟩ := conducts.ended i call completion member
    cases result : classify p.timeout p.owner i call with
    | ok value =>
        rw [Policy.settle_ok result] at judged
        cases judged
        simp
    | error e =>
        rw [Policy.settle_error result] at judged
        split at judged <;> rename_i collects
        · cases judged
          simpa using collects
        · cases judged
          simpa [imp_iff_not_or] using collects

theorem deadlineExact (conducts : Conducts p shows kept s) : DeadlineExact p shows s where
  ended := by
    intro i call completion member
    obtain ⟨faithful, fired, judged, _⟩ := conducts.ended i call completion member
    have classified := faithful.classified p.owner i
    refine ⟨p.settle i call, judged, ?_, ?_, ?_, ?_, ?_⟩
    · rw [Policy.report_settle, faithful.timeout_iff, fired]
      rfl
    · intro unfired cls payload out
      have early : call.expired = false := by simpa [fired] using unfired
      rw [Policy.report_settle]
      generalize classify p.timeout p.owner i call = result at classified
      cases classified with
      | returned value isOut => simp [out] at isOut
      | timedOut timeout_s cause timed deadline => simp [timed.1] at early
      | raised cls' payload' isOut untimed =>
          obtain ⟨rfl, rfl⟩ : cls = cls' ∧ payload = payload' := by simpa [out] using isOut
          rfl
      | cancelled isOut block stopping => simp [out] at isOut
      | stray isOut block running early => simp [out] at isOut
    · intro unfired out running
      have early : call.expired = false := by simpa [fired] using unfired
      rw [Policy.report_settle]
      generalize classify p.timeout p.owner i call = result at classified
      cases classified with
      | returned value isOut => simp [out] at isOut
      | timedOut timeout_s cause timed deadline => simp [timed.1] at early
      | raised cls payload isOut untimed => simp [out] at isOut
      | cancelled isOut block stopping => simp [running] at stopping
      | stray isOut block running early => rfl
    · intro value out
      refine Policy.settle_ok ?_
      have block : call.block = .ok value := by
        simpa [out, FnEnd.result] using faithful.kept (by simp [out])
      cases timeout : p.timeout <;> simp [classify, ownDeadline, block]
    · intro block stopping
      exact Policy.settle_cancelled (by simp [Policy.classify_block block, stopping])

end Conducts

end AsyncPipelines
