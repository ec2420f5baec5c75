import AsyncPipelines.Core.Scripted
import AsyncPipelines.Lib.Windows

/-!
`BatchedAsyncPipeline` of `benchmark.py`: the documents in batches, two calls for each
batch, and `_check_batch_len`, which reads what a call replied. The callers are any code:
they may reply with any object, and keep the list they were handed and edit it.
-/

namespace AsyncPipelines

open Asyncio

variable {δ ε : Type}

inductive Stage
  | llm1
  | llm2
  deriving DecidableEq, Repr

/-- What `_refuse_bare_string` takes for one string. -/
inductive Bare
  | text
  | bytes
  | textArray
  | charArray
  deriving DecidableEq, Repr

def Bare.fix (repr : String) : Bare → String
  | text => "pass [" ++ repr ++ "]"
  | bytes => "decode it to str first"
  | textArray => "convert it with .tounicode() first"
  | charArray => "read its .value first"

/-- The message of `_refuse_bare_string`. -/
def bareMessage (name : String) (kind : Bare) (typeName repr : String) : String :=
  name ++ " must be a collection of items, not a bare " ++ typeName ++ ": " ++ repr ++
    " would be split into its characters -- " ++ kind.fix repr

/-- The documents a run is called with. A one-shot iterable gives its items to the first
that reads it. -/
inductive Docs (δ : Type)
  | bare (kind : Bare) (typeName repr : String)
  | collection (items : List δ)
  | oneShot (items : List δ)

/-- `_refuse_bare_string("docs", docs)` and a reading of the documents, which leaves a
one-shot iterable empty. -/
def Docs.read : Docs δ → Except String (List δ × Docs δ)
  | bare kind typeName repr => .error (bareMessage "docs" kind typeName repr)
  | collection items => .ok (items, collection items)
  | oneShot items => .ok (items, oneShot [])

/-- `_chunk`. -/
def chunk (items : List δ) (size : Nat) : List (List δ) :=
  (List.range' 0 ((items.length + size - 1) / size) size).map fun i => (items.drop i).take size

theorem chunk_eq (items : List δ) (size : Nat) : chunk items size = Windows.cut size items := by
  refine List.ext_getElem (by simp [chunk, Windows.cut]) fun k _ _ => ?_
  simp [chunk, Windows.cut, Nat.mul_comm]

/-- What a batch caller can reply with, as `_check_batch_len` tells it apart. -/
inductive Reply
  | bare (kind : Bare) (typeName repr : String)
  | unordered (typeName : String)
  | collection
  | iterator
  | other (typeName : String)
  deriving DecidableEq, Repr

def Stage.batchCaller : Stage → String
  | llm1 => "llm1_batch"
  | llm2 => "llm2_batch"

/-- `_check_batch_len` up to the reading of the reply: how many items it reads at most. -/
def readLimit (caller : String) (index : Nat) (sent : List δ) (got : Reply) :
    Except String (Option Nat) :=
  let name := caller ++ " output for batch " ++ toString index
  match got with
  | .bare kind typeName repr => .error (bareMessage name kind typeName repr)
  | .unordered typeName =>
      .error (name ++ " must be an ordered collection, not a " ++ typeName ++
        ": outputs are matched to inputs by position -- return a list")
  | .collection => .ok none
  | .iterator => .ok (some (sent.length + 1))
  | .other typeName =>
      .error (name ++ " must be a collection of items, not " ++ typeName ++
        ": return a list with one output per input")

/-- `_check_batch_len` from the reading of the reply on. -/
def checkLength (caller : String) (index : Nat) (sent : List δ) (limit : Option Nat)
    (outputs : List δ) : Except String (List δ) :=
  if limit.isSome ∧ sent.length < outputs.length then
    .error (caller ++ " returned more than " ++ toString sent.length ++ " outputs for batch " ++
      toString index ++ " of " ++ toString sent.length ++ " items; expected " ++ toString sent.length ++
      " (one per input, in input order)")
  else if outputs.length ≠ sent.length then
    .error (caller ++ " returned " ++ toString outputs.length ++ " outputs for batch " ++
      toString index ++ " of " ++ toString sent.length ++ " items; expected " ++ toString sent.length ++
      " (one per input, in input order)")
  else .ok outputs

inductive Fault (ε : Type)
  | valueError (message : String)
  | caller (payload : ε)
  deriving DecidableEq

/-- Where `process_batch` is: in a call, in the reading of the reply, after it, or at its
end. `more` says that the reply has further items, which the code does not learn. -/
inductive BatchPlace (δ ε : Type)
  | calling
  | reading (limit : Option Nat) (items : List δ)
  | read (limit : Option Nat) (outputs : List δ) (more : Bool)
  | returned (outs : List δ)
  | raised (cls : ExcClass) (fault : Fault ε)
  | cancelled

/-- `sent` is the list the caller was handed, as it stands now. The code does not read the
rest: `handed` is what the list was then, `calls` are the calls that were made, `replies` the
lists that `_check_batch_len` has returned, and `whole` says that each of these is all of its
reply. -/
structure BatchCode (δ ε : Type) where
  index : Nat
  stage : Stage
  sent : List δ
  handed : List δ
  place : BatchPlace δ ε
  calls : List (Stage × List δ)
  replies : List (List δ) := []
  whole : Bool := true

/-- What the callers do: reply, give the next item of the reply, raise, let a cancellation
out, and edit the list they were handed. A reading stops where the reply has no item left,
or at the limit. -/
inductive BatchAct (δ ε : Type)
  | reply (got : Reply)
  | item (y : δ)
  | stop (more : Bool)
  | check
  | raise (cls : ExcClass) (payload : ε)
  | cancel
  | edit (sent : List δ)

namespace BatchCode

/-- `process_batch(index)` calls `llm1_batch`. -/
def start (batches : List (List δ)) (index : Nat) : BatchCode δ ε :=
  { index := index
    stage := .llm1
    sent := batches.getD index []
    handed := batches.getD index []
    place := .calling
    calls := [(.llm1, batches.getD index [])] }

def goes (x : BatchCode δ ε) (place : BatchPlace δ ε) : BatchCode δ ε := { x with place := place }

/-- The reply of `llm1_batch` goes on to `llm2_batch`, and that of `llm2_batch` is returned. -/
def accept (x : BatchCode δ ε) (outputs : List δ) (more : Bool) : BatchCode δ ε :=
  let x := { x with replies := x.replies ++ [outputs], whole := x.whole && !more }
  match x.stage with
  | .llm1 =>
      { x with
        stage := .llm2
        sent := outputs
        handed := outputs
        place := .calling
        calls := x.calls ++ [(.llm2, outputs)] }
  | .llm2 => { x with place := .returned outputs }

def move (x : BatchCode δ ε) (a : BatchAct δ ε) : Option (BatchCode δ ε) :=
  match x.place, a with
  | .calling, .reply got =>
      match readLimit x.stage.batchCaller x.index x.sent got with
      | .ok limit => some (x.goes (.reading limit []))
      | .error message => some (x.goes (.raised .exception (.valueError message)))
  | .calling, .raise cls payload => some (x.goes (.raised cls (.caller payload)))
  | .calling, .cancel => some (x.goes .cancelled)
  | .reading limit items, .item y =>
      -- `islice` asks for no item past its limit
      if limit = some items.length then none else some (x.goes (.reading limit (items ++ [y])))
  | .reading limit items, .stop more =>
      if more ∧ limit ≠ some items.length then none else some (x.goes (.read limit items more))
  | .reading _ _, .raise cls payload => some (x.goes (.raised cls (.caller payload)))
  | .reading _ _, .cancel => some (x.goes .cancelled)
  | .read limit outputs more, .check =>
      match checkLength x.stage.batchCaller x.index x.sent limit outputs with
      | .ok outputs => some (x.accept outputs more)
      | .error message => some (x.goes (.raised .exception (.valueError message)))
  | _, _ => none

def aside (x : BatchCode δ ε) : BatchAct δ ε → Option (BatchCode δ ε)
  | .edit sent => some { x with sent := sent }
  | _ => none

def outcome (x : BatchCode δ ε) : Option (FnEnd (List δ) (Fault ε)) :=
  match x.place with
  | .returned outs => some (.returned outs)
  | .raised cls fault => some (.raised cls fault)
  | .cancelled => some .cancelled
  | _ => none

def awaits (x : BatchCode δ ε) : Bool :=
  match x.place with
  | .calling => true
  | _ => false

end BatchCode

def batchScript (batches : List (List δ)) :
    Script Nat (List δ) (Fault ε) (BatchCode δ ε) (BatchAct δ ε) where
  start := fun _ index => .start batches index
  move := BatchCode.move
  aside := BatchCode.aside
  awaits := BatchCode.awaits
  outcome := BatchCode.outcome
  settled := by
    intro x a out ended
    unfold BatchCode.outcome at ended
    unfold BatchCode.move
    split at ended <;> simp_all
  kept := by
    intro x a y out ended edited
    cases a <;> simp only [BatchCode.aside, Option.some.injEq, reduceCtorEq] at edited
    subst edited
    exact ended

/-- The fan-out of `BatchedAsyncPipeline.run` over the documents it has read. -/
def batchedAsyncPipeline (items : List δ) (size concurrency : Nat) :
    Fanout Nat (List δ) Unit (Slot (List δ) (Fault ε)) (Fault ε) :=
  process (List.range (chunk items size).length) concurrency none false

/-- A run of `BatchedAsyncPipeline.run`, with the code of its batches. -/
abbrev BatchRun (δ ε : Type) : Type :=
  Fanout.Scripted Nat (List δ) (Slot (List δ) (Fault ε)) (Fault ε) (BatchCode δ ε)

abbrev BatchRunAct (δ ε : Type) : Type := Fanout.ScriptAct (List δ) Unit (Fault ε) (BatchAct δ ε)

namespace BatchRun

abbrev step (items : List δ) (size concurrency : Nat) (w : BatchRun δ ε) (a : BatchRunAct δ ε) :
    Option (BatchRun δ ε) :=
  Fanout.Scripted.step (batchedAsyncPipeline items size concurrency) (batchScript (chunk items size)) w a

abbrev init (items : List δ) (size concurrency : Nat) (caller : Caller) : BatchRun δ ε :=
  Fanout.Scripted.init (batchedAsyncPipeline items size concurrency) caller

end BatchRun

def batchOut : Option (Slot (List δ) (Fault ε)) → List δ
  | some (.value out) => out
  | _ => []

/-- `flat.extend(batch_out)` for every batch. -/
def flat (outs : List (Option (Slot (List δ) (Fault ε)))) : List δ := outs.flatMap batchOut

theorem chunk_regular (items : List δ) {size : Nat} (positive : 1 ≤ size) :
    Windows.Regular size (chunk items size) ∧ (chunk items size).flatten = items := by
  rw [chunk_eq]
  exact ⟨Windows.cut_regular positive items, Windows.cut_flatten positive items⟩

/-- Replies that are as long as their batches are paired with the documents. -/
theorem flat_paired {items : List δ} {size : Nat} (positive : 1 ≤ size)
    {outs : List (Option (Slot (List δ) (Fault ε)))} (length : outs.length = (chunk items size).length)
    (sizes : ∀ (k : Nat) (batch : List δ), (chunk items size)[k]? = some batch →
      ∃ out, outs[k]? = some (some (.value out)) ∧ out.length = batch.length) :
    (flat outs).length = items.length ∧ ∀ i, i < items.length → ∃ out batch,
      outs[i / size]? = some (some (.value out)) ∧ (chunk items size)[i / size]? = some batch ∧
      i % size < batch.length ∧ items[i]? = batch[i % size]? ∧ (flat outs)[i]? = out[i % size]? := by
  obtain ⟨regular, whole⟩ := chunk_regular items positive
  have same : (outs.map batchOut).map List.length = (chunk items size).map List.length := by
    refine List.ext_getElem? fun k => ?_
    cases found : (chunk items size)[k]? with
    | none =>
        have beyond : outs.length ≤ k := length ▸ List.getElem?_eq_none_iff.mp found
        simp [found, List.getElem?_eq_none_iff.mpr beyond]
    | some batch =>
        obtain ⟨out, kept, long⟩ := sizes k batch found
        simp [found, kept, batchOut, long]
  have total : (flat outs).length = items.length := by
    rw [flat, List.flatMap_def, List.length_flatten, same, ← List.length_flatten, whole]
  refine ⟨total, fun i bound => ?_⟩
  obtain ⟨batch, found, inside⟩ := Windows.row_of_position positive regular (whole.symm ▸ bound)
  obtain ⟨out, kept, _⟩ := sizes _ batch found
  refine ⟨out, batch, kept, found, inside, ?_, ?_⟩
  · have here := Windows.getElem?_flatten positive regular i
    rw [whole, found] at here
    exact here
  · have here := Windows.getElem?_flatten positive (regular.of_lengths same) i
    rw [List.getElem?_map, kept, ← List.flatMap_def] at here
    exact here

end AsyncPipelines
