import AsyncPipelines.Core.FanoutErrors
import AsyncPipelines.ToolDispatch

/-!
What `dispatch_tool_calls` raises for the errors of its group, where a tool may be a
`dispatch_tool_calls` of its own and let its exception escape.
-/

namespace AsyncPipelines

open Asyncio

variable {ι β υ : Type}

/-- What user code raises: an exception of its own, one that a pipeline call inside it raised, or
an exception group. -/
inductive Err (υ : Type)
  | user (own : υ)
  | nested (escaped : Exc (Err υ))
  | group (errors : List (Exc (Err υ)))

mutual

/-- The attribute `_dispatch_owner`, `none` where there is none. -/
def Exc.dispatchOwner : Exc (Err υ) → Option Nat
  | .pipelineTimeoutError _ _ owner _ => owner
  | .raised _ payload => payload.dispatchOwner
  | _ => none

def Err.dispatchOwner : Err υ → Option Nat
  | .nested escaped => escaped.dispatchOwner
  | _ => none

end

mutual

/-- `isinstance(e, PipelineError)`. -/
def Exc.isPipelineError : Exc (Err υ) → Bool
  | .pipelineTimeoutError _ _ _ _ => true
  | .pipelineError _ _ => true
  | .raised _ payload => payload.isPipelineError
  | _ => false

def Err.isPipelineError : Err υ → Bool
  | .nested escaped => escaped.isPipelineError
  | _ => false

end

/-- `raise e from cause`. -/
def Exc.raisedFrom (e cause : Exc (Err υ)) : Exc (Err υ) :=
  match e with
  | .pipelineTimeoutError index timeout_s owner _ => .pipelineTimeoutError index timeout_s owner cause
  | .pipelineError message _ => .pipelineError message cause
  | e => e

namespace Dispatch

/-- The `except* Exception as eg` clause, for the exceptions it takes. -/
def surface (d : Dispatch ι (Err υ)) (first : Exc (Err υ)) (rest : List (Exc (Err υ))) : Exc (Err υ) :=
  if first.isPipelineError && first.dispatchOwner == some d.owner then
    first.raisedFrom (.raised .exception (.group (first :: rest)))
  else .pipelineError (first.repr d.reprs) first

/-- What leaves `dispatch_tool_calls` where its group ends so. The errors that are no `Exception`
pass the clause by, in a group with what it raises. -/
def raised (d : Dispatch ι (Err υ)) : Exit (Exc (Err υ)) → Option (Exc (Err υ))
  | .returned => none
  | .cancelled => some .cancelledError
  | .base error => some error
  | .group errors =>
      match errors.filter Exc.isException, errors.filter fun e => !e.isException with
      | [], others => some (.raised .baseException (.group others))
      | first :: rest, [] => some (d.surface first rest)
      | first :: rest, others =>
          some (.raised .baseException
            (.group [d.surface first rest, .raised .baseException (.group others)]))

def PlainNotFound (d : Dispatch ι (Err υ)) : Prop := ∀ name, ∃ own, d.notFound name = .user own

/-- What a `dispatch_tool_calls` raises that runs inside the dispatches with these tokens. Its own
token is a new object. -/
inductive Raises {υ : Type} : List Nat → Exc (Err υ) → Prop
  | unresolved {ι β : Type} (live : List Nat) (d : Dispatch ι (Err υ)) (e : Exc (Err υ))
      (plain : d.PlainNotFound) (unresolved : d.resolve (β := β) = .error e) : Raises live e
  | failed {ι β : Type} (live : List Nat) (d : Dispatch ι (Err υ)) (fresh : d.owner ∉ live)
      (plain : d.PlainNotFound) (caller : Caller)
      (s : Fanout.State (ToolCall ι) β (ToolResult β) (Err υ)) (exit : Exit (Exc (Err υ)))
      (x : Exc (Err υ)) (reached : Runs.Reaches d.fanout.stepReporting (d.fanout.init caller) s)
      (left : s.exit = some exit) (raises : d.raised exit = some x)
      (tools : ∀ i call completion, .ended i call completion ∈ s.log → ∀ cls escaped,
        call.out = .raised cls (.nested escaped) → Raises (d.owner :: live) escaped) :
      Raises live x

/-- The exceptions that tools let out of pipeline calls are those of dispatches inside this one. -/
def Contained (d : Dispatch ι (Err υ)) (live : List Nat)
    (s : Fanout.State (ToolCall ι) β (ToolResult β) (Err υ)) : Prop :=
  ∀ i call completion, .ended i call completion ∈ s.log → ∀ cls escaped,
    call.out = .raised cls (.nested escaped) → Raises (d.owner :: live) escaped

section

variable {d : Dispatch ι (Err υ)} {s : Fanout.State (ToolCall ι) β (ToolResult β) (Err υ)}
  {caller : Caller} {exit : Exit (Exc (Err υ))} {e x : Exc (Err υ)} {i : Nat} {live : List Nat}

theorem classified_of_failure (reached : Runs.Reaches d.fanout.stepReporting (d.fanout.init caller) s)
    (member : (i, e) ∈ Fanout.failures s.log) :
    ∃ call : CallEnd β (Err υ), .ended i call (.failed e) ∈ s.log ∧
      CallEnd.Classified d.timeout (some d.owner) i call (.error e) := by
  have inv := Fanout.inv_of_reaches d.fanout_strict (Fanout.reaches_of_reporting reached)
  obtain ⟨_, call, ended⟩ := Fanout.mem_failures.mp member
  obtain ⟨item, clock, _, _, faithful, _, complete⟩ := inv.record ended
  refine ⟨call, ended, ?_⟩
  have complete : d.runWithTelemetry i item clock call = .failed e := complete
  have classified : CallEnd.Classified d.timeout (some d.owner) i call
      (classify d.timeout (some d.owner) i call) := faithful.classified (some d.owner) i
  unfold runWithTelemetry at complete
  split at complete
  · simp at complete
  · rename_i error isError
    have same : error = e := by
      split at complete
      · simpa using complete
      · split at complete
        · simpa using complete
        · simp at complete
    rwa [isError, same] at classified

/-- An exception of a call carries the token of its dispatch where its deadline fired, and no
token of a dispatch around it otherwise. -/
theorem owner_of_failure (reached : Runs.Reaches d.fanout.stepReporting (d.fanout.init caller) s)
    (escaped : ∀ i call completion, .ended i call completion ∈ s.log → ∀ cls inner,
      call.out = .raised cls (.nested inner) → ∀ o ∈ d.owner :: live, inner.dispatchOwner ≠ some o)
    (member : (i, e) ∈ Fanout.failures s.log) :
    (∃ call : CallEnd β (Err υ), .ended i call (.failed e) ∈ s.log ∧ call.timedOut ∧
      ∃ timeout_s cause, d.timeout = some timeout_s ∧
        e = .pipelineTimeoutError i timeout_s (some d.owner) cause) ∨
    (∃ call : CallEnd β (Err υ), .ended i call (.failed e) ∈ s.log ∧ ¬ call.timedOut ∧
      ∀ o ∈ d.owner :: live, e.dispatchOwner ≠ some o) := by
  obtain ⟨call, ended, classified⟩ := classified_of_failure reached member
  cases classified with
  | timedOut timeout_s cause timed deadline =>
      exact .inl ⟨call, ended, timed, timeout_s, cause, deadline, rfl⟩
  | raised cls payload out untimed =>
      refine .inr ⟨call, ended, untimed, ?_⟩
      cases payload with
      | nested inner => exact escaped i call _ ended cls inner out
      | user own => simp [Exc.dispatchOwner, Err.dispatchOwner]
      | group errors => simp [Exc.dispatchOwner, Err.dispatchOwner]
  | cancelled out block stopping => exact absurd rfl (Fanout.mem_failures.mp member).1
  | stray out block running early =>
      refine .inr ⟨call, ended, ?_, by simp [Exc.dispatchOwner]⟩
      rintro ⟨expired, _⟩
      rw [early] at expired
      cases expired

theorem raisedFrom_owner (cause e : Exc (Err υ)) : (e.raisedFrom cause).dispatchOwner = e.dispatchOwner := by
  cases e <;> simp [Exc.raisedFrom, Exc.dispatchOwner]

theorem surface_owner (d : Dispatch ι (Err υ)) (first : Exc (Err υ)) (rest : List (Exc (Err υ))) :
    (d.surface first rest).dispatchOwner = none ∨ (d.surface first rest).dispatchOwner = some d.owner := by
  unfold surface
  split
  · rename_i own
    simp only [Bool.and_eq_true, beq_iff_eq] at own
    right
    rw [raisedFrom_owner, own.2]
  · exact .inl (by simp [Exc.dispatchOwner])

theorem raised_owner {errors : List (Exc (Err υ))} (raises : d.raised (.group errors) = some x) :
    x.dispatchOwner = none ∨ x.dispatchOwner = some d.owner := by
  simp only [raised] at raises
  split at raises <;> obtain rfl := Option.some.inj raises
  · exact .inl (by simp [Exc.dispatchOwner, Err.dispatchOwner])
  · exact surface_owner d _ _
  · exact .inl (by simp [Exc.dispatchOwner, Err.dispatchOwner])

theorem resolve_error (unresolved : d.resolve (β := β) = .error e) :
    ∃ call ∈ d.toolCalls, d.registry.contains call.name = false ∧
      e = .raised .exception (d.notFound call.name) := by
  unfold resolve at unresolved
  split at unresolved
  · rename_i call found
    split at unresolved <;> simp only [Except.error.injEq, reduceCtorEq] at unresolved
    exact ⟨call, List.mem_of_find?_eq_some found, by simpa using List.find?_some found, unresolved.symm⟩
  · simp at unresolved

/-- No exception that leaves a dispatch carries the token of a dispatch around it. -/
theorem Raises.owner (raises : Raises live x) : ∀ o ∈ live, x.dispatchOwner ≠ some o := by
  induction raises with
  | unresolved live d e plain unresolved =>
      obtain ⟨call, _, _, rfl⟩ := resolve_error unresolved
      obtain ⟨own, isOwn⟩ := plain call.name
      simp [isOwn, Exc.dispatchOwner, Err.dispatchOwner]
  | failed live d fresh plain caller s exit x reached left raises tools ih =>
      intro o around
      have other : d.owner ≠ o := by
        rintro rfl
        exact fresh around
      have ends := Fanout.exit_failures d.fanout_strict reached left
      split at ends
      · rename_i error found
        obtain rfl : error = x := by simpa [ends, raised] using raises
        obtain ⟨⟨i, e⟩, member, rfl⟩ := List.mem_map.mp (List.mem_of_find?_eq_some found)
        rcases owner_of_failure reached ih member with
          ⟨_, _, _, timeout_s, cause, _, isOwn⟩ | ⟨_, _, _, foreign⟩
        · rw [isOwn]
          simpa [Exc.dispatchOwner] using other
        · exact foreign o (List.mem_cons_of_mem _ around)
      · split at ends
        · rcases ends with rfl | rfl
          · simp [raised] at raises
          · obtain rfl : .cancelledError = x := by simpa [raised] using raises
            simp [Exc.dispatchOwner]
        · rw [ends] at raises
          rcases raised_owner raises with none | own
          · simp [none]
          · simpa [own] using other

theorem raised_exceptions {errors : List (Exc (Err υ))} (exceptions : ∀ e ∈ errors, e.isException = true)
    {first : Exc (Err υ)} {rest : List (Exc (Err υ))} (shape : errors = first :: rest) :
    d.raised (.group errors) = some (d.surface first rest) := by
  have kept : errors.filter Exc.isException = first :: rest := by
    rw [List.filter_eq_self.mpr exceptions, shape]
  have none : errors.filter (fun e => !e.isException) = [] := by
    rw [List.filter_eq_nil_iff]
    intro e member
    simp [exceptions e member]
  simp only [raised, kept, none]

theorem base_not_exception (e : Exc (Err υ)) (exception : e.isException = true) : e.isBaseError = false := by
  cases e with
  | raised cls payload => cases cls <;> simp_all [Exc.isException, Exc.isBaseError]
  | _ => rfl

theorem Classified.exception {call : CallEnd β (Err υ)}
    (classified : CallEnd.Classified d.timeout (some d.owner) i call (.error e))
    (plain : e ≠ .cancelledError)
    (tool : ∀ cls payload, call.out = .raised cls payload → cls = .exception ∨ cls = .timeoutError) :
    e.isException = true := by
  cases classified with
  | timedOut timeout_s cause timed deadline => rfl
  | raised cls payload out untimed =>
      rcases tool cls payload out with rfl | rfl <;> rfl
  | cancelled out block stopping => exact absurd rfl plain
  | stray out block running early => rfl

end

/-- Without `return_exceptions` a dispatch with an unregistered name calls no tool, and one whose
calls fail raises for the first of them: its own `PipelineTimeoutError` where the deadline of that
call fired, and a `PipelineError` from what the call failed with otherwise. -/
theorem dispatch_raises (d : Dispatch ι (Err υ)) (strictly : d.returnExceptions = false)
    (live : List Nat) :
    ((∃ call ∈ d.toolCalls, d.registry.contains call.name = false) →
      ∃ call ∈ d.toolCalls, d.registry.contains call.name = false ∧
        d.resolve (β := β) = .error (.raised .exception (d.notFound call.name))) ∧
    ∀ (f : Fanout (ToolCall ι) β ℚ (ToolResult β) (Err υ)), d.resolve = .ok f →
      ∀ (caller : Caller) (s : Fanout.State (ToolCall ι) β (ToolResult β) (Err υ))
        (exit : Exit (Exc (Err υ))),
      Runs.Reaches f.stepReporting (f.init caller) s → s.exit = some exit → d.Contained live s →
      (∀ i call completion, .ended i call completion ∈ s.log → ∀ cls payload,
        call.out = .raised cls payload → cls = .exception ∨ cls = .timeoutError) →
      ∀ i e rest, Fanout.failures s.log = (i, e) :: rest →
        ∃ (call : CallEnd β (Err υ)) (x : Exc (Err υ)), .ended i call (.failed e) ∈ s.log ∧
          d.raised exit = some x ∧
          ((call.timedOut ∧ .deadline i ∈ s.log ∧ ∃ timeout_s cause, d.timeout = some timeout_s ∧
              x = .pipelineTimeoutError i timeout_s (some d.owner) cause) ∨
            (¬ call.timedOut ∧ ∃ message, x = .pipelineError message e)) := by
  refine ⟨?_, ?_⟩
  · rintro ⟨call, member, missing⟩
    cases resolved : d.resolve (β := β) with
    | error e =>
        obtain ⟨other, inside, absent, rfl⟩ := resolve_error resolved
        exact ⟨other, inside, absent, rfl⟩
    | ok f =>
        have present := (resolve_fanout resolved).2 strictly call member
        rw [missing] at present
        cases present
  · intro f resolved caller s exit reached left contained exceptions i e rest first
    obtain ⟨rfl, _⟩ := resolve_fanout resolved
    have escaped : ∀ i call completion, .ended i call completion ∈ s.log → ∀ cls inner,
        call.out = .raised cls (.nested inner) → ∀ o ∈ d.owner :: live, inner.dispatchOwner ≠ some o :=
      fun i call completion ended cls inner out => (contained i call completion ended cls inner out).owner
    have plain : ∀ p ∈ Fanout.failures s.log, p.2.isException = true := by
      rintro ⟨j, error⟩ member
      obtain ⟨call, ended, classified⟩ := classified_of_failure reached member
      exact Classified.exception classified (Fanout.mem_failures.mp member).1
        (exceptions j call _ ended)
    have errors : ∀ error ∈ (Fanout.failures s.log).map Prod.snd, error.isException = true := by
      intro error member
      obtain ⟨p, inside, rfl⟩ := List.mem_map.mp member
      exact plain p inside
    have ends := Fanout.exit_failures d.fanout_strict reached left
    have nobody : ((Fanout.failures s.log).map Prod.snd).find? Exc.isBaseError = none := by
      rw [List.find?_eq_none]
      intro error member
      simp [base_not_exception error (errors error member)]
    have some_failed : Fanout.failures s.log ≠ [] := by simp [first]
    simp only [nobody, some_failed, ↓reduceIte] at ends
    have raises : d.raised exit = some (d.surface e (rest.map Prod.snd)) := by
      rw [ends]
      exact raised_exceptions errors (by simp [first])
    have member : (i, e) ∈ Fanout.failures s.log := by simp [first]
    rcases owner_of_failure reached escaped member with
      ⟨call, ended, timed, timeout_s, cause, deadline, rfl⟩ | ⟨call, ended, untimed, foreign⟩
    · refine ⟨call, _, ended, raises, .inl ⟨timed, ?_, timeout_s, ?_, deadline, ?_⟩⟩
      · have inv := Fanout.inv_of_reaches d.fanout_strict (Fanout.reaches_of_reporting reached)
        exact (inv.fired ended).mpr timed.1
      · exact .raised .exception (.group (.pipelineTimeoutError i timeout_s (some d.owner) cause ::
          rest.map Prod.snd))
      · simp [surface, Exc.isPipelineError, Exc.dispatchOwner, Exc.raisedFrom]
    · refine ⟨call, _, ended, raises, .inr ⟨untimed, e.repr d.reprs, ?_⟩⟩
      have others := foreign d.owner (by simp)
      simp [surface, others]

def lone (owner : Nat) (timeout : Option ℚ) : Dispatch Unit (Err Unit) where
  toolCalls := [⟨"a", "search", ()⟩]
  registry := ⟨["search"]⟩
  returnExceptions := false
  concurrency := none
  timeout := timeout
  owner := owner
  notFound := fun _ => .user ()
  reprs := ⟨fun _ => "", id, fun _ => ""⟩

def overdue : List (Fanout.Act Unit ℚ (Err Unit)) :=
  [.run 0, .user (.suspend 0), .deadline 0, .user (.resume 0), .finish 0 .cancelled 1,
    .loop (.taskDone 0), .loop .wakeCaller]

def lets (escaped : Exc (Err Unit)) : List (Fanout.Act Unit ℚ (Err Unit)) :=
  [.run 0, .finish 0 (.raised .exception (.nested escaped)) 1, .loop (.taskDone 0), .loop .wakeCaller]

theorem dispatch_raises_nested :
    ∃ (escaped e x : Exc (Err Unit)) (call : CallEnd Unit (Err Unit)),
      Raises [0] escaped ∧ escaped.dispatchOwner = some 1 ∧ e = .raised .exception (.nested escaped) ∧
        (lone 0 (some 5)).raised (.group [e]) = some x ∧
        ((call.timedOut ∧ ∃ timeout_s cause, (lone 0 (some 5)).timeout = some timeout_s ∧
            x = .pipelineTimeoutError 0 timeout_s (some 0) cause) ∨
          (¬ call.timedOut ∧ ∃ message, x = .pipelineError message e)) := by
  let own : Exc (Err Unit) := .pipelineTimeoutError 0 1 (some 1) .timeoutError
  let escaped : Exc (Err Unit) := own.raisedFrom (.raised .exception (.group [own]))
  let e : Exc (Err Unit) := .raised .exception (.nested escaped)
  have nested : Raises [0] escaped := by
    obtain ⟨s, ran, left, log⟩ : ∃ s : Fanout.State (ToolCall Unit) Unit (ToolResult Unit) (Err Unit),
        Runs.run (lone 1 (some 1)).fanout.stepReporting ((lone 1 (some 1)).fanout.init { task := {} })
          overdue = some s ∧
        s.exit = some (.group [own]) ∧
        s.log = [.called 0 ⟨"a", "search", ()⟩, .deadline 0, .ended 0
          { out := .cancelled, block := .error .timeoutError, expired := true, stopping := false,
            groupCancelled := false } (.failed own)] :=
      ⟨_, rfl, rfl, rfl⟩
    refine .failed [0] (lone 1 (some 1)) (by decide) (fun _ => ⟨(), rfl⟩) { task := {} } s _ escaped
      ⟨overdue, ran⟩ left rfl fun i call completion ended cls inner out => ?_
    simp only [log, List.mem_cons, List.not_mem_nil, reduceCtorEq, Event.ended.injEq, false_or,
      or_false] at ended
    rw [ended.2.1] at out
    cases out
  obtain ⟨s, ran, left, log⟩ : ∃ s : Fanout.State (ToolCall Unit) Unit (ToolResult Unit) (Err Unit),
      Runs.run (lone 0 (some 5)).fanout.stepReporting ((lone 0 (some 5)).fanout.init { task := {} })
        (lets escaped) = some s ∧
      s.exit = some (.group [e]) ∧
      s.log = [.called 0 ⟨"a", "search", ()⟩, .ended 0
        { out := .raised .exception (.nested escaped), block := .error e, expired := false,
          stopping := false, groupCancelled := false } (.failed e)] :=
    ⟨_, rfl, rfl, rfl⟩
  have only : ∀ i call completion, .ended i call completion ∈ s.log →
      call.out = .raised .exception (.nested escaped) := by
    intro i call completion ended
    simp only [log, List.mem_cons, List.not_mem_nil, reduceCtorEq, Event.ended.injEq, false_or,
      or_false] at ended
    rw [ended.2.1]
  have failed : Fanout.failures s.log = [(0, e)] := by
    rw [log]
    rfl
  obtain ⟨call, x, _, raises, either⟩ := (dispatch_raises (lone 0 (some 5)) rfl []).2 _ rfl { task := {} } s _
    ⟨lets escaped, ran⟩ left
    (fun i call completion ended cls inner out => by
      rw [only i call completion ended] at out
      cases out
      exact nested)
    (fun i call completion ended cls payload out => by
      rw [only i call completion ended] at out
      cases out
      exact .inl rfl)
    0 e [] failed
  refine ⟨escaped, e, x, call, nested, rfl, rfl, raises, ?_⟩
  rcases either with ⟨timed, _, timeout_s, cause, deadline, same⟩ | wrapped
  · exact .inl ⟨timed, timeout_s, cause, deadline, same⟩
  · exact .inr wrapped

end Dispatch

end AsyncPipelines
