import AsyncPipelines.Core.Errors

/-!
Which exception a call ends with, in terms of what `fn` did, whether the
deadline fired and whether the pipeline was stopping.
-/

namespace AsyncPipelines

open Asyncio

variable {β ε σ : Type}

structure CallEnd.Faithful (timeout : Option ℚ) (call : CallEnd β ε) : Prop where
  kept : call.out ≠ .cancelled → call.block = call.out.result
  cancelled : call.out = .cancelled →
    call.block = .error .cancelledError ∨ call.block = .error .timeoutError ∧ call.expired = true
  timed : call.expired = true → timeout.isSome = true
  signalled : call.groupCancelled = true → call.stopping = true

namespace CallEnd

variable {timeout : Option ℚ} {owner : Option Nat} {index : Nat} {call : CallEnd β ε}

/-- The deadline fired and the call ended in `TimeoutError`, or in `CancelledError`
while nothing was stopping. -/
def timedOut (call : CallEnd β ε) : Prop :=
  call.expired = true ∧ ∃ exc, call.block = .error exc ∧
    (exc.isTimeoutError = true ∨ exc = .cancelledError ∧ call.stopping = false)

inductive Classified (timeout : Option ℚ) (owner : Option Nat) (index : Nat) (call : CallEnd β ε) :
    Except (Exc ε) β → Prop
  | returned (value : β) (out : call.out = .returned value) :
      Classified timeout owner index call (.ok value)
  | timedOut (timeout_s : ℚ) (cause : Exc ε) (timed : call.timedOut)
      (deadline : timeout = some timeout_s) :
      Classified timeout owner index call
        (.error (.pipelineTimeoutError index timeout_s owner cause))
  | raised (cls : ExcClass) (payload : ε) (out : call.out = .raised cls payload)
      (untimed : ¬ call.timedOut) :
      Classified timeout owner index call (.error (.raised cls payload))
  | cancelled (out : call.out = .cancelled) (block : call.block = .error .cancelledError)
      (stopping : call.stopping = true) :
      Classified timeout owner index call (.error .cancelledError)
  | stray (out : call.out = .cancelled) (block : call.block = .error .cancelledError)
      (running : call.stopping = false) (early : call.expired = false) :
      Classified timeout owner index call
        (.error (.pipelineError (strayMessage (some index) none) .cancelledError))

theorem Faithful.deadline (faithful : call.Faithful timeout) (expired : call.expired = true) :
    ∃ timeout_s, timeout = some timeout_s :=
  Option.isSome_iff_exists.mp (faithful.timed expired)

theorem Faithful.untimed (faithful : call.Faithful timeout) {cls : ExcClass} {payload : ε}
    (out : call.out = .raised cls payload) :
    call.timedOut ↔ call.expired = true ∧ cls = .timeoutError := by
  have block : call.block = .error (.raised cls payload) := by
    simpa [out, FnEnd.result] using faithful.kept (by simp [out])
  constructor
  · rintro ⟨expired, exc, isBlock, isTimeout | ⟨isCancelled, _⟩⟩
    · obtain rfl : .raised cls payload = exc := by simpa [block] using isBlock
      cases cls <;> simp_all [Exc.isTimeoutError]
    · simp [block, isCancelled] at isBlock
  · rintro ⟨expired, rfl⟩
    exact ⟨expired, _, block, Or.inl rfl⟩

theorem Faithful.classified (faithful : call.Faithful timeout) (owner : Option Nat) (index : Nat) :
    Classified timeout owner index call (classify timeout owner index call) := by
  cases out : call.out with
  | returned value =>
      have block : call.block = .ok value := by
        simpa [out, FnEnd.result] using faithful.kept (by simp [out])
      have ok : classify timeout owner index call = .ok value := by
        cases timeout <;> simp [classify, ownDeadline, block]
      exact ok ▸ .returned value out
  | raised cls payload =>
      have block : call.block = .error (.raised cls payload) := by
        simpa [out, FnEnd.result] using faithful.kept (by simp [out])
      by_cases timed : call.timedOut
      · obtain ⟨expired, rfl⟩ := (faithful.untimed out).mp timed
        obtain ⟨timeout_s, rfl⟩ := faithful.deadline expired
        have error : classify (some timeout_s) owner index call =
            .error (.pipelineTimeoutError index timeout_s owner (.raised .timeoutError payload)) := by
          simp [classify, ownDeadline, block, expired, Exc.isTimeoutError, strayCancellationAsError,
            Exc.isCancelledError]
        exact error ▸ .timedOut timeout_s _ timed rfl
      · have error : classify timeout owner index call = .error (.raised cls payload) := by
          rw [faithful.untimed out] at timed
          cases timeout <;> cases cls <;> simp_all [classify, ownDeadline, Exc.isTimeoutError,
            strayCancellationAsError, Exc.isCancelledError]
        exact error ▸ .raised cls payload out timed
  | cancelled =>
      rcases faithful.cancelled out with block | ⟨block, expired⟩
      · by_cases stopping : call.stopping = true
        · have error : classify timeout owner index call = .error .cancelledError := by
            cases timeout <;> simp [classify, ownDeadline, block, stopping, Exc.isTimeoutError,
              strayCancellationAsError, Exc.isCancelledError, deadlineEscaped]
          exact error ▸ .cancelled out block stopping
        · simp only [Bool.not_eq_true] at stopping
          by_cases expired : call.expired = true
          · obtain ⟨timeout_s, rfl⟩ := faithful.deadline expired
            have error : classify (some timeout_s) owner index call =
                .error (.pipelineTimeoutError index timeout_s owner .cancelledError) := by
              simp [classify, ownDeadline, block, expired, stopping, Exc.isTimeoutError,
                strayCancellationAsError, Exc.isCancelledError, deadlineEscaped]
            exact error ▸ .timedOut timeout_s _ ⟨expired, _, block, Or.inr ⟨rfl, stopping⟩⟩ rfl
          · simp only [Bool.not_eq_true] at expired
            have error : classify timeout owner index call =
                .error (.pipelineError (strayMessage (some index) none) .cancelledError) := by
              cases timeout <;> simp [classify, ownDeadline, block, stopping, expired,
                Exc.isTimeoutError, strayCancellationAsError, Exc.isCancelledError, deadlineEscaped]
            exact error ▸ .stray out block stopping expired
      · obtain ⟨timeout_s, rfl⟩ := faithful.deadline expired
        have error : classify (some timeout_s) owner index call =
            .error (.pipelineTimeoutError index timeout_s owner .timeoutError) := by
          simp [classify, ownDeadline, block, expired, Exc.isTimeoutError,
            strayCancellationAsError, Exc.isCancelledError]
        exact error ▸ .timedOut timeout_s _ ⟨expired, _, block, Or.inl rfl⟩ rfl

/-- A `CancelledError` is left as it is only where the pipeline is stopping. -/
theorem classify_cancelled (cancelled : classify timeout owner index call = .error .cancelledError) :
    call.stopping = true := by
  unfold classify at cancelled
  split at cancelled
  · simp at cancelled
  · simp only [Except.error.injEq, strayCancellationAsError] at cancelled
    split at cancelled
    · rename_i exc _ kept
      simpa [cancelled, Exc.isCancelledError] using kept
    · simp at cancelled

/-- A call is reported as its own `PipelineTimeoutError` exactly where it timed out. -/
theorem Faithful.timeout_iff (faithful : call.Faithful timeout) :
    (∃ timeout_s cause, timeout = some timeout_s ∧ classify timeout owner index call =
      .error (.pipelineTimeoutError index timeout_s owner cause)) ↔ call.timedOut := by
  have classified := faithful.classified owner index
  generalize classify timeout owner index call = result at classified
  cases classified with
  | returned value out =>
      have block := faithful.kept (by simp [out])
      simp [timedOut, block, out, FnEnd.result]
  | timedOut timeout_s cause timed deadline => simp [timed, deadline]
  | raised cls payload out untimed => simp [untimed]
  | cancelled out block stopping => simp [timedOut, block, stopping, Exc.isTimeoutError]
  | stray out block running early => simp [timedOut, early]

end CallEnd

def FnEnd.undisturbed (out : FnEnd β ε) : CallEnd β ε where
  out := out
  block := out.result
  expired := false
  stopping := false
  groupCancelled := false

def FnEnd.judged (index : Nat) : FnEnd β ε → Except (Exc ε) β
  | returned value => .ok value
  | raised cls payload => .error (.raised cls payload)
  | cancelled => .error (.pipelineError (strayMessage (some index) none) .cancelledError)

theorem FnEnd.undisturbed_faithful (out : FnEnd β ε) (timeout : Option ℚ) :
    out.undisturbed.Faithful timeout := by
  refine ⟨fun _ => rfl, fun isCancelled => .inl ?_, fun expired => ?_, fun signalled => ?_⟩
  · have isCancelled : out = .cancelled := isCancelled
    simp [undisturbed, isCancelled, result]
  · simp [undisturbed] at expired
  · simp [undisturbed] at signalled

theorem CallEnd.Faithful.judged {timeout : Option ℚ} {call : CallEnd β ε}
    (faithful : call.Faithful timeout) (early : call.expired = false) (running : call.stopping = false)
    (owner : Option Nat) (index : Nat) :
    classify timeout owner index call = call.out.judged index := by
  have classified := faithful.classified owner index
  generalize classify timeout owner index call = result at classified
  cases classified with
  | returned value out => simp [FnEnd.judged, out]
  | timedOut timeout_s cause timed deadline => simp [timedOut, early] at timed
  | raised cls payload out untimed => simp [FnEnd.judged, out]
  | cancelled out block stopping => simp [running] at stopping
  | stray out block _ _ => simp [FnEnd.judged, out]

/-- The exception without the attributes that its `repr` does not show. -/
def Exc.bare : Exc ε → Exc ε
  | pipelineTimeoutError index timeout_s _ _ => pipelineTimeoutError index timeout_s none timeoutError
  | e => e

/-- What becomes of a call while nothing is stopping: its outcome and its deadline
decide it, up to the attributes of the exception. -/
def verdict (timeout : Option ℚ) (index : Nat) (out : FnEnd β ε) (expired : Bool) :
    Except (Exc ε) β :=
  match out with
  | .returned value => .ok value
  | .raised cls payload =>
      if expired && decide (cls = .timeoutError) then
        .error (.pipelineTimeoutError index (timeout.getD 0) none .timeoutError)
      else .error (.raised cls payload)
  | .cancelled =>
      if expired then .error (.pipelineTimeoutError index (timeout.getD 0) none .timeoutError)
      else .error (.pipelineError (strayMessage (some index) none) .cancelledError)

theorem CallEnd.Faithful.verdict {timeout : Option ℚ} {call : CallEnd β ε}
    (faithful : call.Faithful timeout) (owner : Option Nat) (index : Nat)
    (running : call.stopping = false) :
    (classify timeout owner index call).mapError Exc.bare =
      AsyncPipelines.verdict timeout index call.out call.expired := by
  have classified := faithful.classified owner index
  generalize classify timeout owner index call = result at classified
  cases classified with
  | returned value out => simp [Except.mapError, AsyncPipelines.verdict, out]
  | timedOut timeout_s cause timed deadline =>
      cases out : call.out with
      | returned value =>
          obtain ⟨_, exc, block, _⟩ := timed
          simp [faithful.kept (by simp [out]), out, FnEnd.result] at block
      | raised cls payload =>
          obtain ⟨expired, rfl⟩ := (faithful.untimed out).mp timed
          simp [Except.mapError, AsyncPipelines.verdict, expired, Exc.bare, deadline]
      | cancelled =>
          simp [Except.mapError, AsyncPipelines.verdict, timed.1, Exc.bare, deadline]
  | raised cls payload out untimed =>
      rw [faithful.untimed out] at untimed
      have other : (call.expired && decide (cls = .timeoutError)) = false := by
        simpa using untimed
      simp [Except.mapError, AsyncPipelines.verdict, out, other, Exc.bare]
  | cancelled out block stopping => simp [running] at stopping
  | stray out block _ early => simp [Except.mapError, AsyncPipelines.verdict, out, early, Exc.bare]

/-- The entry that the caller may find at `index` for a call that ended so. -/
inductive Outcome (returnExceptions : Bool) (timeout : Option ℚ) (index : Nat)
    (call : CallEnd β ε) : Slot β ε → Prop
  | value (value : β) (out : call.out = .returned value) :
      Outcome returnExceptions timeout index call (.value value)
  | exception (cls : ExcClass) (payload : ε) (collects : returnExceptions = true)
      (out : call.out = .raised cls payload) (isException : (Exc.raised cls payload).isException = true)
      (untimed : ¬ call.timedOut) :
      Outcome returnExceptions timeout index call (.error (.raised cls payload))
  | deadline (timeout_s : ℚ) (cause : Exc ε) (collects : returnExceptions = true)
      (timed : call.timedOut) (isTimeout : timeout = some timeout_s) :
      Outcome returnExceptions timeout index call
        (.error (.pipelineTimeoutError index timeout_s none cause))
  | stray (collects : returnExceptions = true) (out : call.out = .cancelled)
      (nobody : call.stopping = false ∧ call.groupCancelled = false ∧ call.expired = false) :
      Outcome returnExceptions timeout index call
        (.error (.pipelineError (strayMessage (some index) none) .cancelledError))

theorem collect_cancelled {returnExceptions : Bool} {timeout : Option ℚ} {index : Nat}
    {call : CallEnd β ε} (failed : collect returnExceptions timeout index call = .failed .cancelledError) :
    call.stopping = true := by
  unfold collect at failed
  split at failed
  · simp at failed
  · rename_i e classified
    split at failed
    · simp at failed
    · simp only [Completion.failed.injEq] at failed
      exact CallEnd.classify_cancelled (failed ▸ classified)

theorem collect_outcome {returnExceptions : Bool} {timeout : Option ℚ} {index : Nat}
    {call : CallEnd β ε} {slot : Slot β ε} (faithful : call.Faithful timeout)
    (stored : collect returnExceptions timeout index call = .stored slot) :
    Outcome returnExceptions timeout index call slot := by
  have classified := faithful.classified none index
  unfold collect at stored
  generalize classify timeout none index call = result at classified stored
  have keeps : ∀ e : Exc ε, (if returnExceptions && e.isException then
      Completion.stored (Slot.error e) else .failed e) = .stored slot →
      (returnExceptions = true ∧ e.isException = true) ∧ .error e = slot := by
    intro e kept
    split at kept
    · rename_i both
      exact ⟨by simpa using both, by simpa using kept⟩
    · simp at kept
  cases classified with
  | returned value out =>
      obtain rfl : .value value = slot := by simpa using stored
      exact .value value out
  | timedOut timeout_s cause timed deadline =>
      obtain ⟨⟨collects, _⟩, rfl⟩ := keeps _ stored
      exact .deadline timeout_s cause collects timed deadline
  | raised cls payload out untimed =>
      obtain ⟨⟨collects, isException⟩, rfl⟩ := keeps _ stored
      exact .exception cls payload collects out isException untimed
  | cancelled out block stopping =>
      obtain ⟨⟨_, isException⟩, _⟩ := keeps _ stored
      simp [Exc.isException] at isException
  | stray out block running early =>
      obtain ⟨⟨collects, _⟩, rfl⟩ := keeps _ stored
      refine .stray collects out ⟨running, ?_, early⟩
      rw [← Bool.not_eq_true]
      intro flagged
      simp [faithful.signalled flagged] at running

end AsyncPipelines
