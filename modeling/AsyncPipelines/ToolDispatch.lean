import AsyncPipelines.Core.Process

/-!
`dispatch_tool_calls` of `tool_dispatch.py`: the names are resolved first, then
the calls fan out like the items of `process`, each result is a `ToolResult`,
and the list that is returned keeps the slots that are not `None`.
-/

namespace AsyncPipelines

open Asyncio

variable {ι β σ ε : Type}

structure ToolCall (ι : Type) where
  id : String
  name : String
  arguments : ι
  deriving DecidableEq

structure ToolResult (β : Type) where
  toolCallId : String
  name : String
  ok : Bool
  value : Option β
  errorRepr : Option String
  elapsedMs : ℚ
  deriving DecidableEq

/-- The names that are registered. What a tool does is the user code of its call. -/
structure ToolRegistry where
  tools : List String
  deriving DecidableEq

def ToolRegistry.contains (r : ToolRegistry) (name : String) : Bool := decide (name ∈ r.tools)

/-- Python's `repr`, for the exceptions of user code and for what the messages of
this library hold. -/
structure Reprs (ε : Type) where
  payload : ε → String
  str : String → String
  float : ℚ → String

/-- `repr(e)`: the attributes of an exception, its owner among them, do not show. -/
def Exc.repr (r : Reprs ε) : Exc ε → String
  | raised _ payload => r.payload payload
  | cancelledError => "CancelledError()"
  | timeoutError => "TimeoutError()"
  | pipelineTimeoutError index timeout_s _ _ =>
      "PipelineTimeoutError(" ++ r.str ("item at index " ++ toString index ++
        " exceeded timeout of " ++ r.float timeout_s ++ "s") ++ ")"
  | pipelineError message _ => "PipelineError(" ++ r.str message ++ ")"

/-- The arguments of `dispatch_tool_calls` and the `owner` token it makes. `notFound`
is the `ToolNotFoundError` for a name. -/
structure Dispatch (ι ε : Type) where
  toolCalls : List (ToolCall ι)
  registry : ToolRegistry
  returnExceptions : Bool
  concurrency : Option Nat
  timeout : Option ℚ
  owner : Nat
  notFound : String → ε
  reprs : Reprs ε

namespace Dispatch

/-- `_run_with_telemetry`, from the end of the call on. -/
def runWithTelemetry (d : Dispatch ι ε) (idx : Nat) (call : ToolCall ι) (elapsed : ℚ)
    (ended : CallEnd β ε) : Completion (ToolResult β) ε :=
  match classify d.timeout (some d.owner) idx ended with
  | .ok value =>
      .stored { toolCallId := call.id, name := call.name, ok := true, value := some value
                errorRepr := none, elapsedMs := elapsed }
  | .error e =>
      if !e.isException then .failed e
      else if !d.returnExceptions then .failed e
      else
        .stored { toolCallId := call.id, name := call.name, ok := false, value := none
                  errorRepr := some (e.repr d.reprs), elapsedMs := elapsed }

/-- `_make_missing_tool_stub`. -/
def missingToolStub (d : Dispatch ι ε) (name : String) : FnEnd β ε :=
  .raised .exception (d.notFound name)

def fanout (d : Dispatch ι ε) : Fanout (ToolCall ι) β ℚ (ToolResult β) ε where
  items := d.toolCalls
  concurrency := d.concurrency
  timeout := d.timeout
  stub := fun call =>
    if d.registry.contains call.name then none else some (d.missingToolStub call.name)
  complete := d.runWithTelemetry

/-- `dispatch_tool_calls` up to its group: with an unregistered name it raises here,
unless exceptions are returned. -/
def resolve (d : Dispatch ι ε) : Except (Exc ε) (Fanout (ToolCall ι) β ℚ (ToolResult β) ε) :=
  match d.toolCalls.find? fun call => !d.registry.contains call.name with
  | some call =>
      if d.returnExceptions then .ok d.fanout
      else .error (.raised .exception (d.notFound call.name))
  | none => .ok d.fanout

/-- `[r for r in results if r is not None]`. -/
def returned (s : Fanout.State (ToolCall ι) β (ToolResult β) ε) : Option (List (ToolResult β)) :=
  (Fanout.returned s).map fun results => results.filterMap id

theorem resolve_fanout {d : Dispatch ι ε} {f : Fanout (ToolCall ι) β ℚ (ToolResult β) ε}
    (resolved : d.resolve = .ok f) :
    f = d.fanout ∧ (d.returnExceptions = false →
      ∀ call ∈ d.toolCalls, d.registry.contains call.name = true) := by
  unfold resolve at resolved
  split at resolved
  · split at resolved
    · rename_i collects
      exact ⟨(Except.ok.inj resolved).symm, by simp [collects]⟩
    · simp at resolved
  · rename_i nobody
    refine ⟨(Except.ok.inj resolved).symm, fun _ call member => ?_⟩
    simpa using List.find?_eq_none.mp nobody call member

theorem fanout_strict (d : Dispatch ι ε) : (d.fanout : Fanout _ β ℚ _ ε).Strict := by
  intro idx call elapsed ended failed
  have failed : d.runWithTelemetry idx call elapsed ended = .failed .cancelledError := failed
  unfold runWithTelemetry at failed
  split at failed
  · simp at failed
  · rename_i e classified
    have same : e = .cancelledError := by
      split at failed
      · simpa using failed
      · split at failed
        · simpa using failed
        · simp at failed
    exact CallEnd.classify_cancelled (same ▸ classified)

/-- A `ToolResult` says what an entry of the list of `process` says. -/
def Agrees (r : Reprs ε) (result : ToolResult β) : Slot β ε → Prop
  | .value value => result.ok = true ∧ result.value = some value ∧ result.errorRepr = none
  | .error e => result.ok = false ∧ result.value = none ∧ result.errorRepr = some (e.repr r)

theorem repr_bare (r : Reprs ε) (e : Exc ε) : e.bare.repr r = e.repr r := by
  cases e <;> rfl

/-- The two handlers leave agreeing entries for the same exception, up to its owner
and its cause. -/
theorem stored_agrees {d : Dispatch ι ε} {idx : Nat} {call : ToolCall ι} {elapsed : ℚ}
    {ended other : CallEnd β ε} {result : ToolResult β} {slot : Slot β ε}
    (same : (classify d.timeout (some d.owner) idx ended).mapError Exc.bare =
      (classify d.timeout none idx other).mapError Exc.bare)
    (stored : d.runWithTelemetry idx call elapsed ended = .stored result)
    (collected : collect d.returnExceptions d.timeout idx other = .stored slot) :
    Agrees d.reprs result slot := by
  unfold runWithTelemetry at stored
  unfold collect at collected
  generalize classify d.timeout (some d.owner) idx ended = here at same stored
  generalize classify d.timeout none idx other = there at same collected
  cases here with
  | ok value =>
      cases there with
      | error e => simp [Except.mapError] at same
      | ok value' =>
          obtain rfl : value = value' := by simpa [Except.mapError] using same
          obtain rfl : .value value = slot := by simpa using collected
          simp only [Completion.stored.injEq] at stored
          simp [Agrees, ← stored]
  | error e =>
      cases there with
      | ok value => simp [Except.mapError] at same
      | error e' =>
          have bare : e.bare = e'.bare := by simpa [Except.mapError] using same
          have isError : .error e' = slot := by
            dsimp only at collected
            split at collected
            · simpa using collected
            · simp at collected
          dsimp only at stored
          split at stored
          · simp at stored
          · split at stored
            · simp at stored
            · simp only [Completion.stored.injEq] at stored
              rw [← isError, ← stored]
              refine ⟨rfl, rfl, ?_⟩
              rw [← repr_bare, bare, repr_bare]

theorem stored_result {d : Dispatch ι ε} {idx : Nat} {call : ToolCall ι} {elapsed : ℚ}
    {ended : CallEnd β ε} {result : ToolResult β}
    (stored : d.runWithTelemetry idx call elapsed ended = .stored result) :
    result.toolCallId = call.id ∧ result.name = call.name ∧ result.elapsedMs = elapsed ∧
      (d.returnExceptions = false → result.ok = true) := by
  unfold runWithTelemetry at stored
  split at stored
  · simp only [Completion.stored.injEq] at stored
    simp [← stored]
  · split at stored
    · simp at stored
    · split at stored
      · simp at stored
      · rename_i collects
        simp only [Completion.stored.injEq] at stored
        simp at collects
        simp [← stored, collects]

theorem filterMap_id_of_some {σ : Type} (results : List (Option σ))
    (full : ∀ i, i < results.length → ∃ slot, results[i]? = some (some slot)) :
    (results.filterMap id).map some = results := by
  induction results with
  | nil => rfl
  | cons first rest ih =>
      obtain ⟨slot, found⟩ := full 0 (by simp)
      have rest_full := ih fun i bound => by simpa using full (i + 1) (by simpa using bound)
      obtain rfl : first = some slot := by simpa using found
      exact congrArg (List.cons (some slot)) rest_full

/-- The filter drops nothing: a list that is returned has a result for every call,
made from the one call of its tool. -/
theorem returned_complete (d : Dispatch ι ε) (caller : Caller)
    (s : Fanout.State (ToolCall ι) β (ToolResult β) ε) (results : List (ToolResult β))
    (reached : Runs.Reaches d.fanout.step (d.fanout.init caller) s)
    (list : returned s = some results) :
    s.results = results.map some ∧ results.length = d.toolCalls.length ∧ s.stopping = false ∧
    ∀ i call, d.toolCalls[i]? = some call → ∃ elapsed ended result,
      results[i]? = some result ∧
      history i s.log = opening i call ended.expired ++ [.ended i ended (.stored result)] ∧
      ended.Faithful d.timeout ∧ ended.stopping = false ∧
      (d.registry.contains call.name = false → ended.out = d.missingToolStub call.name) ∧
      d.runWithTelemetry i call elapsed ended = .stored result := by
  have inv := Fanout.inv_of_reaches d.fanout_strict reached
  obtain ⟨exit, filtered⟩ : s.exit = some .returned ∧ s.results.filterMap id = results := by
    simp only [returned, Fanout.returned, Option.map_eq_some_iff] at list
    obtain ⟨_, found, filtered⟩ := list
    split at found
    · rename_i exit
      exact ⟨exit, (Option.some.inj found) ▸ filtered⟩
    · simp at found
  have size : s.results.length = d.toolCalls.length := inv.size
  have full : s.results = results.map some := by
    rw [← filtered, filterMap_id_of_some]
    intro i bound
    obtain ⟨call, found⟩ : ∃ call, d.toolCalls[i]? = some call :=
      ⟨_, List.getElem?_eq_getElem (size ▸ bound)⟩
    obtain ⟨_, _, slot, _, _, _, _, kept⟩ := inv.complete exit (f := d.fanout) found
    exact ⟨slot, kept⟩
  have calm := inv.sound.quiet exit
  refine ⟨full, by rw [← size, full, List.length_map], calm, ?_⟩
  intro i call found
  obtain ⟨elapsed, ended, result, record, faithful, stub, stored, kept⟩ :=
    inv.complete exit (f := d.fanout) found
  have member : .ended i ended (.stored result) ∈ s.log :=
    (mem_history.mp (record ▸ List.mem_append_right _ (List.mem_singleton.mpr rfl))).1
  refine ⟨elapsed, ended, result, by simpa [full] using kept, record, faithful, ?_, ?_, stored⟩
  · rw [← Bool.not_eq_true]
    intro stopped
    simp [(inv.noted _ member).heard stopped] at calm
  · intro missing
    exact stub _ (by simp [fanout, missing])

/-- Entry by entry, a list of `dispatch_tool_calls` is one of `process`: position,
id and name are those of the call, and any run of `process` over the same calls in
which each call ends the same way has the corresponding entry. -/
theorem dispatch_refines_process (d : Dispatch ι ε)
    (f : Fanout (ToolCall ι) β ℚ (ToolResult β) ε) (resolved : d.resolve = .ok f)
    (caller : Caller) (s : Fanout.State (ToolCall ι) β (ToolResult β) ε)
    (results : List (ToolResult β)) (reached : Runs.Reaches f.step (f.init caller) s)
    (list : returned s = some results) :
    (s.results = results.map some ∧ results.length = d.toolCalls.length) ∧
    (∀ i call, d.toolCalls[i]? = some call → ∃ ended result, results[i]? = some result ∧
      history i s.log = opening i call ended.expired ++ [.ended i ended (.stored result)] ∧
      (result.toolCallId = call.id ∧ result.name = call.name) ∧
      (d.returnExceptions = false → result.ok = true) ∧
      (d.registry.contains call.name = false →
        d.returnExceptions = true ∧ ended.out = .raised .exception (d.notFound call.name))) ∧
    ∀ (concurrency : Nat) (caller' : Caller) (p : Fanout.State (ToolCall ι) β (Slot β ε) ε)
      (entries : List (Option (Slot β ε))),
      Runs.Reaches (process d.toolCalls concurrency d.timeout d.returnExceptions).step
        ((process d.toolCalls concurrency d.timeout d.returnExceptions).init caller') p →
      Fanout.returned p = some entries →
      (∀ i here there stored stored', .ended i here stored ∈ s.log → .ended i there stored' ∈ p.log →
        here.out = there.out ∧ here.expired = there.expired) →
      results.length = entries.length ∧
      ∀ (i : Nat) (result : ToolResult β), results[i]? = some result →
        ∃ slot, entries[i]? = some (some slot) ∧ Agrees d.reprs result slot := by
  obtain ⟨rfl, registered⟩ := resolve_fanout resolved
  obtain ⟨full, size, _, each⟩ := returned_complete d caller s results reached list
  refine ⟨⟨full, size⟩, ?_, ?_⟩
  · intro i call found
    obtain ⟨elapsed, ended, result, kept, record, _, _, stub, stored⟩ := each i call found
    obtain ⟨id, name, _, ok⟩ := stored_result stored
    refine ⟨ended, result, kept, record, ⟨id, name⟩, ok, fun missing => ⟨?_, stub missing⟩⟩
    rw [← Bool.not_eq_false]
    intro strictly
    have present := registered strictly call (List.mem_of_getElem? found)
    simp [missing] at present
  · intro concurrency caller' p entries reached' list' same
    have inv := Fanout.inv_of_reaches (process_strict d.toolCalls concurrency d.timeout
      d.returnExceptions) reached'
    obtain ⟨exit, rfl⟩ : p.exit = some .returned ∧ p.results = entries := by
      unfold Fanout.returned at list'
      split at list'
      · rename_i exit
        exact ⟨exit, Option.some.inj list'⟩
      · simp at list'
    have calm := inv.sound.quiet exit
    refine ⟨size.trans inv.size.symm, ?_⟩
    intro i result kept
    have bound : i < d.toolCalls.length := size ▸ (List.getElem?_eq_some_iff.mp kept).1
    have found : d.toolCalls[i]? = some d.toolCalls[i] := List.getElem?_eq_getElem bound
    obtain ⟨elapsed, here, result', kept', record, faithful, running, _, stored⟩ := each i _ found
    obtain rfl : result' = result := by simpa [kept] using kept'.symm
    obtain ⟨_, there, slot, record', faithful', _, collected, entry⟩ := inv.complete exit
      (f := process d.toolCalls concurrency d.timeout d.returnExceptions) found
    have member : .ended i here (.stored result') ∈ s.log :=
      (mem_history.mp (record ▸ List.mem_append_right _ (List.mem_singleton.mpr rfl))).1
    have member' : .ended i there (.stored slot) ∈ p.log :=
      (mem_history.mp (record' ▸ List.mem_append_right _ (List.mem_singleton.mpr rfl))).1
    have running' : there.stopping = false := by
      rw [← Bool.not_eq_true]
      intro stopped
      simp [(inv.noted _ member').heard stopped] at calm
    obtain ⟨out, expired⟩ := same i here there _ _ member member'
    refine ⟨slot, entry, stored_agrees ?_ stored collected⟩
    have verdict' := faithful'.verdict none i running'
    rw [faithful.verdict _ _ running, out, expired]
    exact verdict'.symm

def twins : Dispatch Unit Unit where
  toolCalls := [⟨"a", "search", ()⟩, ⟨"a", "unknown", ()⟩]
  registry := ⟨["search"]⟩
  returnExceptions := true
  concurrency := none
  timeout := none
  owner := 0
  notFound := fun _ => ()
  reprs := ⟨fun _ => "", id, fun _ => ""⟩

def bothCalls : List (Fanout.Act Nat ℚ Unit) :=
  [.run 0, .finish 0 (.returned 10) 1, .run 1, .finish 1 (.returned 11) 2, .loop (.taskDone 0),
    .loop (.taskDone 1), .loop .wakeCaller]

def endings (log : List (Event (ToolCall Unit) Nat σ Unit)) : List (Nat × FnEnd Nat Unit × Bool) :=
  log.filterMap fun
    | .ended i call _ => some (i, call.out, call.expired)
    | _ => none

/-- `process` over the same calls, the second of which raises what the missing tool does. -/
theorem dispatch_refines_process_twins :
    ∃ (s : Fanout.State (ToolCall Unit) Nat (ToolResult Nat) Unit) (results : List (ToolResult Nat))
      (p : Fanout.State (ToolCall Unit) Nat (Slot Nat Unit) Unit),
      returned s = some results ∧ results.map (·.ok) = [true, false] ∧ results.length = 2 ∧
        Fanout.returned p = some [some (.value 10), some (.error (.raised .exception ()))] ∧
        ∀ (i : Nat) (result : ToolResult Nat), results[i]? = some result →
          ∃ slot, [some (Slot.value 10), some (.error (.raised .exception ()))][i]? = some (some slot) ∧
            Agrees twins.reprs result slot := by
  let f : Fanout (ToolCall Unit) Nat Unit (Slot Nat Unit) Unit := process twins.toolCalls 1 none true
  have ends : (Runs.run (twins.fanout (β := Nat)).step (twins.fanout.init { task := {} }) bothCalls).any
      (fun s => endings s.log == [(0, .returned 10, false), (1, .raised .exception (), false)] &&
        (returned s).any fun results => results.map (·.ok) == [true, false]) = true := by
    decide
  have ends' : (Runs.run f.step (f.init { task := {} }) oneByOne).any
      (fun p => endings p.log == [(0, .returned 10, false), (1, .raised .exception (), false)] &&
        Fanout.returned p == some [some (.value 10), some (.error (.raised .exception ()))]) = true := by
    decide
  obtain ⟨s, ran, checked⟩ := (Option.any_eq_true _ _).mp ends
  obtain ⟨p, ran', checked'⟩ := (Option.any_eq_true _ _).mp ends'
  simp only [Bool.and_eq_true, beq_iff_eq] at checked checked'
  obtain ⟨results, list, oks⟩ := (Option.any_eq_true _ _).mp checked.2
  have resolved : twins.resolve = .ok (twins.fanout (β := Nat)) := rfl
  obtain ⟨⟨_, size⟩, _, agrees⟩ :=
    dispatch_refines_process twins twins.fanout resolved { task := {} } s results ⟨bothCalls, ran⟩ list
  refine ⟨s, results, p, list, beq_iff_eq.mp oks, size, checked'.2,
    (agrees 1 { task := {} } p _ ⟨oneByOne, ran'⟩ checked'.2 ?_).2⟩
  intro i here there stored stored' mine its
  have mine : (i, here.out, here.expired) ∈ endings s.log := List.mem_filterMap.mpr ⟨_, mine, rfl⟩
  have its : (i, there.out, there.expired) ∈ endings p.log := List.mem_filterMap.mpr ⟨_, its, rfl⟩
  rw [checked.1] at mine
  rw [checked'.1] at its
  simp only [List.mem_cons, Prod.mk.injEq, List.not_mem_nil, or_false] at mine its
  grind

end Dispatch

end AsyncPipelines
