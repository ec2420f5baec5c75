import AsyncPipelines.Benchmark.Batches

/-!
When `BatchedAsyncPipeline.run` pairs every document with its output. `_check_batch_len`
measures the list that the caller was handed, which the caller may have edited since.
-/

namespace AsyncPipelines

open Asyncio

variable {δ ε : Type}

namespace BatchCode

/-- Where `_check_batch_len` measures the list of the caller, which it does for an iterator also
before it reads, the list is as long as it was when the caller was handed it. -/
def AsHanded (x : BatchCode δ ε) : BatchAct δ ε → Prop
  | .reply .iterator => x.sent.length = x.handed.length
  | .check => x.sent.length = x.handed.length
  | _ => True

instance (x : BatchCode δ ε) (a : BatchAct δ ε) : Decidable (x.AsHanded a) := by
  unfold AsHanded
  split <;> infer_instance

structure Paired (batch : List δ) (x : BatchCode δ ε) : Prop where
  size : x.handed.length = batch.length
  first : x.stage = .llm1 → x.replies = [] ∧ ∀ outs, x.place ≠ .returned outs
  second : x.stage = .llm2 → ∃ mids, mids.length = batch.length ∧
    (x.replies = [mids] ∧ (∀ outs, x.place ≠ .returned outs) ∨
      ∃ outs, outs.length = batch.length ∧ x.replies = [mids, outs] ∧ x.place = .returned outs)
  whole : x.whole = true
  reading : ∀ limit items, x.place = .reading limit items →
    ∀ most, limit = some most → most = batch.length + 1 ∧ items.length ≤ most
  read : ∀ limit outputs more, x.place = .read limit outputs more →
    (∀ most, limit = some most → most = batch.length + 1 ∧ outputs.length ≤ most) ∧
      (more = true → limit = some outputs.length)

variable {batch : List δ} {x y : BatchCode δ ε}

theorem checkLength_ok {caller : String} {index : Nat} {sent : List δ} {limit : Option Nat}
    {outputs kept : List δ} (ok : checkLength caller index sent limit outputs = .ok kept) :
    kept = outputs ∧ outputs.length = sent.length := by
  unfold checkLength at ok
  split at ok
  · simp at ok
  · split at ok
    · simp at ok
    · rename_i same
      simp only [ne_eq, not_not] at same
      exact ⟨(Except.ok.inj ok).symm, same⟩

theorem Paired.goes (paired : Paired batch x) {place : BatchPlace δ ε}
    (unended : ∀ outs, x.place ≠ .returned outs) (going : ∀ outs, place ≠ .returned outs)
    (reading : ∀ limit items, place = .reading limit items →
      ∀ most, limit = some most → most = batch.length + 1 ∧ items.length ≤ most)
    (read : ∀ limit outputs more, place = .read limit outputs more →
      (∀ most, limit = some most → most = batch.length + 1 ∧ outputs.length ≤ most) ∧
        (more = true → limit = some outputs.length)) : Paired batch (x.goes place) where
  size := paired.size
  first := fun stage => ⟨(paired.first stage).1, going⟩
  second := by
    intro stage
    obtain ⟨mids, length, ⟨replies, _⟩ | ⟨outs, _, _, ended⟩⟩ := paired.second stage
    · exact ⟨mids, length, Or.inl ⟨replies, going⟩⟩
    · exact absurd ended (unended outs)
  whole := paired.whole
  reading := reading
  read := read

/-- A reply is accepted: it has one output for each document, and no more. -/
theorem Paired.accept (paired : Paired batch x) {limit : Option Nat} {outputs : List δ} {more : Bool}
    (place : x.place = .read limit outputs more) (steady : x.sent.length = x.handed.length)
    (same : outputs.length = x.sent.length) : Paired batch (x.accept outputs more) := by
  have size := paired.size
  have exact_ : outputs.length = batch.length := by omega
  obtain ⟨bounded, cut⟩ := paired.read limit outputs more place
  have ended : more = false := by
    rw [← Bool.not_eq_true]
    intro further
    have full := (bounded outputs.length (cut further)).1
    omega
  cases stage : x.stage with
  | llm1 =>
      have replies := (paired.first stage).1
      constructor <;> simp [BatchCode.accept, stage, exact_, replies, paired.whole, ended]
  | llm2 =>
      obtain ⟨mids, length, ⟨replies, _⟩ | ⟨outs, _, _, returned⟩⟩ := paired.second stage
      · constructor <;> simp [BatchCode.accept, stage, exact_, replies, paired.whole, ended, size, length]
      · simp [place] at returned

theorem readLimit_ok {caller : String} {index : Nat} {sent : List δ} {got : Reply} {limit : Option Nat}
    (ok : readLimit caller index sent got = .ok limit) :
    ∀ most, limit = some most → got = .iterator ∧ most = sent.length + 1 := by
  rintro most rfl
  cases got <;> simp only [readLimit, reduceCtorEq, Except.ok.injEq, Option.some.injEq] at ok
  exact ⟨rfl, ok.symm⟩

theorem Paired.move {a : BatchAct δ ε} (paired : Paired batch x) (steady : x.AsHanded a)
    (moved : x.move a = some y) : Paired batch y := by
  have size := paired.size
  unfold BatchCode.move at moved
  split at moved
  case h_1 got place =>
      split at moved <;> simp only [Option.some.injEq] at moved <;> subst moved
      · rename_i limit ok
        refine paired.goes (by simp [place]) (by simp) ?_ (by simp)
        rintro _ _ ⟨rfl, rfl⟩ most bounded
        obtain ⟨rfl, isLimit⟩ := readLimit_ok ok most bounded
        have same : x.sent.length = x.handed.length := steady
        exact ⟨by omega, Nat.zero_le most⟩
      · exact paired.goes (by simp [place]) (by simp) (by simp) (by simp)
  case h_4 limit items y place =>
      split at moved <;> simp only [Option.some.injEq, reduceCtorEq] at moved
      rename_i below
      subst moved
      refine paired.goes (by simp [place]) (by simp) ?_ (by simp)
      rintro _ _ ⟨rfl, rfl⟩ most bounded
      obtain ⟨isLimit, within⟩ := paired.reading limit items place most bounded
      have room : most ≠ items.length := fun full => below (by rw [bounded, full])
      rw [List.length_append, List.length_singleton]
      omega
  case h_5 limit items more place =>
      split at moved <;> simp only [Option.some.injEq, reduceCtorEq] at moved
      rename_i ended
      subst moved
      refine paired.goes (by simp [place]) (by simp) (by simp) ?_
      rintro _ _ _ ⟨rfl, rfl, rfl⟩
      refine ⟨paired.reading limit items place, fun further => ?_⟩
      by_contra short
      exact ended ⟨further, short⟩
  case h_8 limit outputs more place =>
      split at moved <;> simp only [Option.some.injEq] at moved <;> subst moved
      · rename_i kept ok
        obtain ⟨rfl, same⟩ := checkLength_ok ok
        exact paired.accept place steady same
      · exact paired.goes (by simp [place]) (by simp) (by simp) (by simp)
  case h_9 => simp at moved
  all_goals
    rename_i place
    simp only [Option.some.injEq] at moved
    subst moved
    exact paired.goes (by simp [place]) (by simp) (by simp) (by simp)

theorem Paired.start (batches : List (List δ)) (k : Nat) :
    Paired (batches.getD k []) (BatchCode.start batches k : BatchCode δ ε) := by
  constructor <;> simp [BatchCode.start]

theorem Paired.aside {a : BatchAct δ ε} (paired : Paired batch x) (moved : x.aside a = some y) :
    Paired batch y := by
  cases a <;> simp only [BatchCode.aside, Option.some.injEq, reduceCtorEq] at moved
  subst moved
  exact ⟨paired.size, paired.first, paired.second, paired.whole, paired.reading, paired.read⟩

end BatchCode

open Fanout

variable {items : List δ} {size concurrency : Nat} {caller : Caller}
  {w v : BatchRun δ ε}

/-- No caller changes the length of a list that it was handed before its reply is checked. -/
def AsHanded (w : BatchRun δ ε) : BatchRunAct δ ε → Prop
  | .move k a => ∀ x ∈ w.code k, x.AsHanded a
  | _ => True

instance (w : BatchRun δ ε) (a : BatchRunAct δ ε) : Decidable (AsHanded w a) := by
  unfold AsHanded
  split <;> infer_instance

/-- One output for each document, paired with it; no second call for a batch whose first reply
was not so; and no reply of an iterator is read further than one item past its batch. -/
structure Aligned (items : List δ) (size : Nat)
    (w : BatchRun δ ε) : Prop where
  outputs : ∀ outs, returned w.core = some outs → (flat outs).length = items.length ∧
    ∀ i, i < items.length → ∃ x mids reply, w.code (i / size) = some x ∧ x.replies = [mids, reply] ∧
      x.whole = true ∧ ∃ output, reply[i % size]? = some output ∧ (flat outs)[i]? = some output
  second : ∀ k x batch, w.code k = some x → (chunk items size)[k]? = some batch → x.stage = .llm2 →
    x.whole = true ∧ ∃ mids, x.replies.head? = some mids ∧ mids.length = batch.length
  reads : ∀ k x batch limit taken, w.code k = some x → (chunk items size)[k]? = some batch →
    (x.place = .reading (some limit) taken ∨ ∃ more, x.place = .read (some limit) taken more) →
    taken.length ≤ batch.length + 1

def InPairs (items : List δ) (size : Nat)
    (w : BatchRun δ ε) : Prop :=
  ∀ k x, w.code k = some x → k < (chunk items size).length ∧ x.Paired ((chunk items size).getD k [])

theorem InPairs.step {a : BatchRunAct δ ε} (pairs : InPairs items size w) (steady : AsHanded w a)
    (stepped : BatchRun.step items size concurrency w a = some v) : InPairs items size v := by
  intro k x code
  rcases step_code stepped code with same | ⟨index, found, rfl⟩ | ⟨y, b, before, ⟨rfl, moved⟩ | ⟨_, moved⟩⟩
  · exact pairs k x same
  · obtain rfl : k = index := by
      have found : (List.range _)[k]? = some index := found
      rw [List.getElem?_eq_some_iff] at found
      simpa using found.2
    have bound := (List.getElem?_eq_some_iff.mp found).1
    exact ⟨by simpa [batchedAsyncPipeline, process] using bound, BatchCode.Paired.start _ k⟩
  · obtain ⟨bound, paired⟩ := pairs k y before
    exact ⟨bound, paired.move (steady y before) moved⟩
  · obtain ⟨bound, paired⟩ := pairs k y before
    exact ⟨bound, paired.aside moved⟩

theorem InPairs.aligned (positive : 1 ≤ size) (pairs : InPairs items size w)
    (reached : Runs.Reaches (BatchRun.step items size concurrency)
      (BatchRun.init items size concurrency caller) w) : Aligned items size w where
  outputs := by
    intro outs isReturned
    obtain ⟨length, calls⟩ := process_scripted reached isReturned
    rw [List.length_range] at length
    -- the outcome of a batch is its second reply
    have batches : ∀ (k : Nat) (batch : List δ), (chunk items size)[k]? = some batch → ∃ x mids out,
        w.code k = some x ∧ x.replies = [mids, out] ∧ x.whole = true ∧ out.length = batch.length ∧
        outs[k]? = some (some (.value out)) := by
      intro k batch found
      have bound := (List.getElem?_eq_some_iff.mp found).1
      obtain ⟨x, out, code, _, outcome, kept⟩ := calls k k (by simp [bound])
      have paired := (pairs k x code).2
      rw [List.getD_eq_getElem?_getD, found, Option.getD_some] at paired
      have place : x.place = .returned out := by
        have outcome : x.outcome = some (.returned out) := outcome
        unfold BatchCode.outcome at outcome
        split at outcome <;> simp_all
      cases stage : x.stage with
      | llm1 => exact absurd place ((paired.first stage).2 out)
      | llm2 =>
          obtain ⟨mids, _, ⟨_, open_⟩ | ⟨reply, long, replies, ended⟩⟩ := paired.second stage
          · exact absurd place (open_ out)
          · obtain rfl : out = reply := by simpa [place] using ended
            exact ⟨x, mids, out, code, replies, paired.whole, long, kept⟩
    obtain ⟨total, positions⟩ := flat_paired positive length fun k batch found => by
      obtain ⟨_, _, out, _, _, _, long, kept⟩ := batches k batch found
      exact ⟨out, kept, long⟩
    refine ⟨total, fun i bound => ?_⟩
    obtain ⟨out, batch, kept, found, inside, _, here⟩ := positions i bound
    obtain ⟨x, mids, reply, code, replies, whole, long, same⟩ := batches _ batch found
    obtain rfl : reply = out := by simpa [kept] using same.symm
    have output := List.getElem?_eq_getElem (long ▸ inside : i % size < reply.length)
    exact ⟨x, mids, reply, code, replies, whole, _, output, here.trans output⟩
  second := by
    intro k x batch code found stage
    have paired := (pairs k x code).2
    rw [List.getD_eq_getElem?_getD, found, Option.getD_some] at paired
    obtain ⟨mids, long, ⟨replies, _⟩ | ⟨_, _, replies, _⟩⟩ := paired.second stage
    · exact ⟨paired.whole, mids, by simp [replies], long⟩
    · exact ⟨paired.whole, mids, by simp [replies], long⟩
  reads := by
    intro k x batch limit taken code found place
    have paired := (pairs k x code).2
    rw [List.getD_eq_getElem?_getD, found, Option.getD_some] at paired
    rcases place with place | ⟨more, place⟩
    · obtain ⟨isLimit, within⟩ := paired.reading _ taken place limit rfl
      exact isLimit ▸ within
    · obtain ⟨isLimit, within⟩ := (paired.read _ taken more place).1 limit rfl
      exact isLimit ▸ within

/-- A run in which no caller changes the length of its list before the check pairs the outputs
with the documents, in every state it comes to. -/
theorem batched_aligned (docs : List δ) (size concurrency : Nat) (positive : 1 ≤ size) (caller : Caller)
    (actions : List (BatchRunAct δ ε)) (w : BatchRun δ ε)
    (along : Runs.AlongSteps (BatchRun.step docs size concurrency) AsHanded
      (BatchRun.init docs size concurrency caller) actions)
    (ran : Runs.run (BatchRun.step docs size concurrency) (BatchRun.init docs size concurrency caller)
      actions = some w) : Aligned docs size w := by
  have start : InPairs docs size (BatchRun.init docs size concurrency caller : BatchRun δ ε) := by
    intro k x code
    simp [Scripted.init] at code
  have pairs := Runs.along_steps_invariant (p := InPairs docs size)
    (fun _ _ _ steady pairs stepped => pairs.step steady stepped) start along ran
  exact pairs.aligned positive ⟨actions, ran⟩

def replied (k : Nat) (items : List Nat) : List (BatchRunAct Nat Unit) :=
  .move k (.reply .collection) :: items.map (fun y => .move k (.item y)) ++
    [.move k (.stop false), .move k .check]

def completed (k : Nat) : List (BatchRunAct Nat Unit) :=
  [.finish k (), .core (.loop (.taskDone k)), .core (.loop .wakeCaller)]

theorem batched_aligned_pair : ∃ w : BatchRun Nat Unit,
    returned w.core = some [some (.value [11, 21])] ∧ Aligned [1, 2] 2 w := by
  let start : BatchRun Nat Unit := BatchRun.init [1, 2] 2 1 { task := {} }
  let acts : List (BatchRunAct Nat Unit) :=
    .core (.run 0) :: replied 0 [10, 20] ++ .aside 0 (.edit [0, 0]) :: replied 0 [11, 21] ++ completed 0
  have ends : (Runs.run (BatchRun.step [1, 2] 2 1) start acts).any (fun w =>
      returned w.core == some [some (.value [11, 21])]) = true := by
    decide
  have along : Runs.AlongSteps (BatchRun.step [1, 2] 2 1) AsHanded start acts := by decide
  obtain ⟨w, ran, checked⟩ := (Option.any_eq_true _ _).mp ends
  exact ⟨w, beq_iff_eq.mp checked, batched_aligned [1, 2] 2 1 (by decide) { task := {} } acts w along ran⟩

/-- `llm1_batch` takes a document off the list it was handed and leaves it out of its reply. -/
theorem batched_shortened : ∃ (w : BatchRun Nat Unit) (outs : List (Option (Slot (List Nat) (Fault Unit)))),
    Runs.Reaches (BatchRun.step [1, 2] 2 1) (BatchRun.init [1, 2] 2 1 { task := {} }) w ∧
    returned w.core = some outs ∧ (flat outs).length ≠ [1, 2].length ∧ ¬ Aligned [1, 2] 2 w := by
  let acts : List (BatchRunAct Nat Unit) :=
    .core (.run 0) :: .aside 0 (.edit [1]) :: replied 0 [10] ++ replied 0 [11] ++ completed 0
  have ends : (Runs.run (BatchRun.step [1, 2] 2 1) (BatchRun.init [1, 2] 2 1 { task := {} }) acts).any
      (fun w => returned w.core == some [some (.value [11])]) = true := by
    decide
  obtain ⟨w, ran, checked⟩ := (Option.any_eq_true _ _).mp ends
  have isReturned := beq_iff_eq.mp checked
  have short : (flat (ε := Unit) [some (.value [11])]).length ≠ [1, 2].length := by decide
  exact ⟨w, _, ⟨acts, ran⟩, isReturned, short, fun aligned => short (aligned.outputs _ isReturned).1⟩

end AsyncPipelines
