import AsyncPipelines.Benchmark.Batches
import AsyncPipelines.Core.ScriptedRuns

/-!
The three pipelines of `benchmark.py` on calls that do not fail: a loop over the
documents, a fan-out over the documents and a fan-out over their batches.
-/

namespace AsyncPipelines

open Asyncio Fanout

variable {δ ε : Type}

/-- The loop of `SerialPipeline.run`, with the calls it has made. -/
def serialLoop (f g : δ → δ) : List δ → List δ → List (Stage × δ) → List δ × List (Stage × δ)
  | [], out, sent => (out, sent)
  | doc :: rest, out, sent =>
      let mid := f doc
      let final := g mid
      serialLoop f g rest (out ++ [final]) (sent ++ [(.llm1, doc), (.llm2, mid)])

/-- `SerialPipeline.run`. -/
def serialPipeline (f g : δ → δ) (docs : Docs δ) : Except String (List δ × List (Stage × δ)) :=
  docs.read.map fun read => serialLoop f g read.1 [] []

theorem serialLoop_eq (f g : δ → δ) (docs out : List δ) (sent : List (Stage × δ)) :
    serialLoop f g docs out sent = (out ++ docs.map (fun doc => g (f doc)),
      sent ++ docs.flatMap fun doc => [(.llm1, doc), (.llm2, f doc)]) := by
  induction docs generalizing out sent with
  | nil => simp [serialLoop]
  | cons doc rest ih => simp [serialLoop, ih]

inductive DocPlace (δ : Type)
  | llm1 (doc : δ)
  | llm2 (mid : δ)
  | returned (final : δ)

structure DocCode (δ : Type) where
  place : DocPlace δ
  sent : List (Stage × δ)

namespace DocCode

def start (doc : δ) : DocCode δ := { place := .llm1 doc, sent := [(.llm1, doc)] }

def move (f g : δ → δ) (x : DocCode δ) : Option (DocCode δ) :=
  match x.place with
  | .llm1 doc => some { place := .llm2 (f doc), sent := x.sent ++ [(.llm2, f doc)] }
  | .llm2 mid => some { x with place := .returned (g mid) }
  | .returned _ => none

def outcome (x : DocCode δ) : Option (FnEnd δ ε) :=
  match x.place with
  | .returned final => some (.returned final)
  | _ => none

def awaits (x : DocCode δ) : Bool :=
  match x.place with
  | .returned _ => false
  | _ => true

end DocCode

def docScript (f g : δ → δ) : Script δ δ ε (DocCode δ) Unit where
  start := fun _ doc => .start doc
  move := fun x _ => x.move f g
  aside := fun _ _ => none
  awaits := DocCode.awaits
  outcome := DocCode.outcome
  settled := by
    intro x a out ended
    unfold DocCode.outcome at ended
    unfold DocCode.move
    split at ended <;> simp_all
  kept := by simp

/-- The fan-out of `AsyncPipeline.run` over the documents it has read. -/
def asyncPipeline (items : List δ) (concurrency : Nat) : Fanout δ δ Unit (Slot δ ε) ε :=
  process items concurrency none false

theorem DocCode.reach {f g : δ → δ} {i : Nat} {doc : δ} {x : DocCode δ}
    (reach : (docScript f g : Script δ δ ε (DocCode δ) Unit).Reach i doc x) :
    x = .start doc ∨ x = ⟨.llm2 (f doc), [(.llm1, doc), (.llm2, f doc)]⟩ ∨
      x = ⟨.returned (g (f doc)), [(.llm1, doc), (.llm2, f doc)]⟩ := by
  induction reach with
  | start => exact Or.inl rfl
  | move _ moved ih =>
      rcases ih with rfl | rfl | rfl <;>
        simp only [docScript, DocCode.move, DocCode.start, Option.some.injEq, reduceCtorEq] at moved <;>
        subst moved
      · exact Or.inr (Or.inl rfl)
      · exact Or.inr (Or.inr rfl)
  | aside _ moved _ => simp [docScript] at moved

def DocCode.rank (x : DocCode δ) : Nat :=
  match x.place with
  | .llm1 _ => 2
  | .llm2 _ => 1
  | .returned _ => 0

theorem docScript_total (f g : δ → δ) :
    (docScript f g : Script δ δ ε (DocCode δ) Unit).Total DocCode.rank where
  goesOn := by
    intro i doc x reach unended
    rcases DocCode.reach reach with rfl | rfl | rfl
    · exact ⟨(), _, rfl, Nat.lt_succ_self 1⟩
    · exact ⟨(), _, rfl, Nat.lt_succ_self 0⟩
    · simp [docScript, DocCode.outcome] at unended
  returns := by
    intro i doc x out reach ended
    rcases DocCode.reach reach with rfl | rfl | rfl <;>
      simp only [docScript, DocCode.outcome, DocCode.start, Option.some.injEq, reduceCtorEq] at ended
    exact ⟨_, ended.symm⟩

/-- What `AsyncPipeline.run` returns, and which calls it has made for each document. -/
structure DocsDone (f g : δ → δ) (items : List δ) (w : Scripted δ δ (Slot δ ε) ε (DocCode δ))
    (outs : List (Option (Slot δ ε))) : Prop where
  outputs : outs = items.map fun doc => some (.value (g (f doc)))
  sent : ∀ i doc, items[i]? = some doc →
    (w.code i).map DocCode.sent = some [(.llm1, doc), (.llm2, f doc)]
  others : ∀ i, items.length ≤ i → w.code i = none

theorem asyncPipeline_delivers (f g : δ → δ) (items : List δ) {concurrency : Nat}
    (positive : 1 ≤ concurrency) :
    (asyncPipeline items concurrency : Fanout δ δ Unit (Slot δ ε) ε).Delivers (docScript f g)
      (DocsDone f g items) := by
  refine delivers (process_steady items positive) (docScript_total f g) ?_
  intro caller w outs reached isReturned
  obtain ⟨length, calls⟩ := process_scripted reached isReturned
  have codes : ∀ i doc, items[i]? = some doc →
      w.code i = some ⟨.returned (g (f doc)), [(.llm1, doc), (.llm2, f doc)]⟩ ∧
        outs[i]? = some (some (.value (g (f doc)))) := by
    intro i doc found
    obtain ⟨x, final, code, reach, ended, kept⟩ := calls i doc found
    rcases DocCode.reach reach with rfl | rfl | rfl <;>
      simp only [docScript, DocCode.outcome, DocCode.start, Option.some.injEq, FnEnd.returned.injEq,
        reduceCtorEq] at ended
    exact ⟨code, ended ▸ kept⟩
  constructor
  · refine List.ext_getElem? fun i => ?_
    rw [List.getElem?_map]
    cases found : items[i]? with
    | none =>
        have beyond : outs.length ≤ i := length ▸ List.getElem?_eq_none_iff.mp found
        simp [List.getElem?_eq_none_iff.mpr beyond]
    | some doc => exact (codes i doc found).2
  · intro i doc found
    simp [(codes i doc found).1]
  · intro i beyond
    by_contra some_
    obtain ⟨x, code⟩ := Option.ne_none_iff_exists'.mp some_
    have follows := follows_of_reaches (process_strict items concurrency none false) (fun _ => rfl) reached
    obtain ⟨doc, found, _⟩ := follows.reach i x code
    have found : items[i]? = some doc := found
    rw [List.getElem?_eq_none_iff.mpr beyond] at found
    simp at found

section Batched

variable (f g : δ → δ)

def Stage.apply : Stage → δ → δ
  | llm1 => f
  | llm2 => g

namespace BatchCode

/-- Batch callers that reply with their function mapped over the list they were handed, as a
list or as an iterator. They may edit the list, but it keeps its length. -/
def maps [DecidableEq δ] (x : BatchCode δ ε) : BatchAct δ ε → Bool
  | .reply .collection => true
  | .reply .iterator => true
  | .item y =>
      match x.place with
      | .reading _ items => (x.handed.map (x.stage.apply f g))[items.length]? == some y
      | _ => false
  | .stop _ =>
      match x.place with
      | .reading _ items => items.length == x.handed.length
      | _ => false
  | .check => true
  | .edit sent => sent.length == x.handed.length
  | _ => false

def OnTheWay (h : δ → δ) (handed : List δ) : BatchPlace δ ε → Prop
  | .calling => True
  | .reading limit items => items.length ≤ handed.length ∧ items = (handed.map h).take items.length ∧
      (limit = none ∨ limit = some (handed.length + 1))
  | .read limit outputs _ => outputs = handed.map h ∧ (limit = none ∨ limit = some (handed.length + 1))
  | .returned outs => outs = handed.map h
  | .raised _ _ => False
  | .cancelled => False

structure Mapped (batch : List δ) (x : BatchCode δ ε) : Prop where
  length : x.sent.length = x.handed.length
  place : OnTheWay (x.stage.apply f g) x.handed x.place
  first : x.stage = .llm1 → x.handed = batch ∧ x.calls = [(.llm1, batch)] ∧ ∀ outs, x.place ≠ .returned outs
  second : x.stage = .llm2 → x.handed = batch.map f ∧ x.calls = [(.llm1, batch), (.llm2, batch.map f)]

variable {f g} {batch : List δ} {x y : BatchCode δ ε}

theorem Mapped.goes (mapped : Mapped f g batch x) {place : BatchPlace δ ε}
    (way : OnTheWay (x.stage.apply f g) x.handed place) (open_ : ∀ outs, place ≠ .returned outs) :
    Mapped f g batch (x.goes place) where
  length := mapped.length
  place := way
  first := fun stage => ⟨(mapped.first stage).1, (mapped.first stage).2.1, open_⟩
  second := mapped.second

theorem Mapped.start (batches : List (List δ)) (k : Nat) :
    Mapped f g (batches.getD k []) (BatchCode.start batches k : BatchCode δ ε) := by
  constructor <;> simp [BatchCode.start, OnTheWay]

theorem Mapped.accept (mapped : Mapped f g batch x) {limit : Option Nat} {outputs : List δ} {more : Bool}
    (place : x.place = .read limit outputs more) : Mapped f g batch (x.accept outputs more) := by
  have way := mapped.place
  rw [place] at way
  obtain ⟨rfl, _⟩ := way
  cases stage : x.stage with
  | llm1 =>
      obtain ⟨rfl, calls, _⟩ := mapped.first stage
      constructor <;> simp [BatchCode.accept, stage, OnTheWay, Stage.apply, calls]
  | llm2 =>
      obtain ⟨handed, calls⟩ := mapped.second stage
      constructor <;> simp [BatchCode.accept, stage, OnTheWay, Stage.apply, calls, handed, mapped.length]

theorem Mapped.checked (mapped : Mapped f g batch x) {limit : Option Nat} {outputs : List δ} {more : Bool}
    (place : x.place = .read limit outputs more) :
    checkLength x.stage.batchCaller x.index x.sent limit outputs = .ok outputs := by
  have way := mapped.place
  rw [place] at way
  obtain ⟨rfl, _⟩ := way
  simp [checkLength, mapped.length]

variable [DecidableEq δ]

theorem Mapped.move {a : BatchAct δ ε} (mapped : Mapped f g batch x) (maps : x.maps f g a = true)
    (moved : x.move a = some y) : Mapped f g batch y := by
  have way := mapped.place
  unfold BatchCode.move at moved
  split at moved
  case h_1 got place =>
      cases got <;> simp only [BatchCode.maps, Bool.false_eq_true] at maps <;>
        simp only [readLimit, Option.some.injEq] at moved <;> subst moved
      · exact mapped.goes (by simp [OnTheWay]) (by simp)
      · exact mapped.goes (by simp [OnTheWay, mapped.length]) (by simp)
  case h_4 limit items y place =>
      split at moved <;> simp only [Option.some.injEq, reduceCtorEq] at moved
      subst moved
      rw [place] at way
      obtain ⟨short, taken, limited⟩ := way
      simp only [BatchCode.maps, place, beq_iff_eq] at maps
      have inside := (List.getElem?_eq_some_iff.mp maps).1
      rw [List.length_map] at inside
      refine mapped.goes ⟨?_, ?_, limited⟩ (by simp)
      · rw [List.length_append, List.length_singleton]
        omega
      · rw [List.length_append, List.length_singleton, List.take_add_one, maps, ← taken]
        rfl
  case h_5 limit items more place =>
      split at moved <;> simp only [Option.some.injEq, reduceCtorEq] at moved
      subst moved
      rw [place] at way
      obtain ⟨_, taken, limited⟩ := way
      simp only [BatchCode.maps, place, beq_iff_eq] at maps
      refine mapped.goes ⟨?_, limited⟩ (by simp)
      rw [taken, maps, List.take_of_length_le (by simp)]
  case h_8 limit outputs more place =>
      rw [mapped.checked place] at moved
      simp only [Option.some.injEq] at moved
      exact moved ▸ mapped.accept place
  case h_9 => simp at moved
  all_goals simp [BatchCode.maps] at maps

theorem Mapped.aside {a : BatchAct δ ε} (mapped : Mapped f g batch x) (maps : x.maps f g a = true)
    (moved : x.aside a = some y) : Mapped f g batch y := by
  cases a <;> simp only [BatchCode.aside, Option.some.injEq, reduceCtorEq] at moved
  subst moved
  simp only [BatchCode.maps, beq_iff_eq] at maps
  exact ⟨maps, mapped.place, mapped.first, mapped.second⟩

end BatchCode

def mappedScript [DecidableEq δ] (batches : List (List δ)) :
    Script Nat (List δ) (Fault ε) (BatchCode δ ε) (BatchAct δ ε) :=
  (batchScript batches).only (BatchCode.maps f g)

variable {f g} [DecidableEq δ]

theorem mapped_of_reach {batches : List (List δ)} {k index : Nat} {x : BatchCode δ ε}
    (reach : (mappedScript f g batches).Reach k index x) : x.Mapped f g (batches.getD index []) := by
  induction reach with
  | start => exact BatchCode.Mapped.start batches index
  | move _ moved ih =>
      simp only [mappedScript, Script.only, batchScript] at moved
      split at moved
      · rename_i maps
        exact ih.move maps moved
      · simp at moved
  | aside _ moved ih =>
      simp only [mappedScript, Script.only, batchScript] at moved
      split at moved
      · rename_i maps
        exact ih.aside maps moved
      · simp at moved

def BatchCode.rank (x : BatchCode δ ε) : Nat :=
  (match x.stage with
    | .llm1 => x.handed.length + 4
    | .llm2 => 0) +
  match x.place with
  | .calling => x.handed.length + 3
  | .reading _ items => x.handed.length + 2 - items.length
  | .read _ _ _ => 1
  | _ => 0

theorem mappedScript_total (batches : List (List δ)) :
    (mappedScript f g batches : Script Nat (List δ) (Fault ε) _ _).Total BatchCode.rank where
  goesOn := by
    intro k index x reach unended
    have mapped := mapped_of_reach reach
    have way := mapped.place
    cases place : x.place with
    | calling =>
        refine ⟨.reply .collection, x.goes (.reading none []), ?_, ?_⟩
        · simp [mappedScript, Script.only, BatchCode.maps, batchScript, BatchCode.move, place, readLimit]
        · simp [BatchCode.rank, BatchCode.goes, place]
    | reading limit items =>
        rw [place] at way
        obtain ⟨short, taken, limited⟩ := way
        have below : limit ≠ some items.length := by
          rcases limited with rfl | rfl
          · simp
          · simp only [ne_eq, Option.some.injEq]
            omega
        by_cases more : items.length < x.handed.length
        · have bound : items.length < (x.handed.map (x.stage.apply f g)).length := by simpa using more
          refine ⟨.item (x.handed.map (x.stage.apply f g))[items.length],
            x.goes (.reading limit (items ++ [(x.handed.map (x.stage.apply f g))[items.length]])), ?_, ?_⟩
          · have next := List.getElem?_eq_getElem bound
            simp only [mappedScript, Script.only, BatchCode.maps, place, next, beq_self_eq_true, ↓reduceIte]
            simp [batchScript, BatchCode.move, place, below]
          · simp only [BatchCode.rank, BatchCode.goes, place, List.length_append, List.length_singleton]
            omega
        · have all : items.length = x.handed.length := by omega
          refine ⟨.stop false, x.goes (.read limit items false), ?_, ?_⟩
          · simp [mappedScript, Script.only, BatchCode.maps, batchScript, BatchCode.move, place, all]
          · simp only [BatchCode.rank, BatchCode.goes, place]
            omega
    | read limit outputs more =>
        rw [place] at way
        obtain ⟨rfl, _⟩ := way
        refine ⟨.check, x.accept (x.handed.map (x.stage.apply f g)) more, ?_, ?_⟩
        · simp [mappedScript, Script.only, BatchCode.maps, batchScript, BatchCode.move, place,
            mapped.checked place]
        · cases stage : x.stage with
          | llm1 => simp [BatchCode.rank, BatchCode.accept, stage, place]
          | llm2 => simp [BatchCode.rank, BatchCode.accept, stage, place]
    | returned outs => simp [mappedScript, Script.only, batchScript, BatchCode.outcome, place] at unended
    | raised cls fault => simp [mappedScript, Script.only, batchScript, BatchCode.outcome, place] at unended
    | cancelled => simp [mappedScript, Script.only, batchScript, BatchCode.outcome, place] at unended
  returns := by
    intro k index x out reach ended
    have way := (mapped_of_reach reach).place
    have ended : x.outcome = some out := ended
    unfold BatchCode.outcome at ended
    split at ended <;> simp only [Option.some.injEq, reduceCtorEq] at ended
    · exact ⟨_, ended.symm⟩
    · rename_i place
      simp [place, BatchCode.OnTheWay] at way
    · rename_i place
      simp [place, BatchCode.OnTheWay] at way

/-- What `BatchedAsyncPipeline.run` returns, and which calls it has made for each batch. The
batches are consecutive runs of documents, and all but the last have the size. -/
structure BatchesDone (f g : δ → δ) (items : List δ) (size : Nat) (w : BatchRun δ ε)
    (outs : List (Option (Slot (List δ) (Fault ε)))) : Prop where
  outputs : flat outs = items.map fun doc => g (f doc)
  sent : ∀ k batch, (chunk items size)[k]? = some batch →
    (w.code k).map BatchCode.calls = some [(.llm1, batch), (.llm2, batch.map f)]
  others : ∀ k, (chunk items size).length ≤ k → w.code k = none
  consecutive : (chunk items size).flatten = items
  sizes : ∀ k batch, (chunk items size)[k]? = some batch →
    batch ≠ [] ∧ batch.length ≤ size ∧ (k + 1 < (chunk items size).length → batch.length = size)

theorem batchedAsyncPipeline_delivers (f g : δ → δ) (items : List δ) {size concurrency : Nat}
    (sized : 1 ≤ size) (positive : 1 ≤ concurrency) :
    (batchedAsyncPipeline items size concurrency :
      Fanout Nat (List δ) Unit (Slot (List δ) (Fault ε)) (Fault ε)).Delivers
      (mappedScript f g (chunk items size)) (BatchesDone f g items size) := by
  refine delivers (process_steady _ positive) (mappedScript_total _) ?_
  intro caller w outs reached isReturned
  obtain ⟨length, calls⟩ := process_scripted reached isReturned
  rw [List.length_range] at length
  obtain ⟨regular, whole⟩ := chunk_regular items sized
  have codes : ∀ (k : Nat) (batch : List δ), (chunk items size)[k]? = some batch →
      (w.code k).map BatchCode.calls = some [(.llm1, batch), (.llm2, batch.map f)] ∧
        outs[k]? = some (some (.value (batch.map fun doc => g (f doc)))) := by
    intro k batch found
    have bound := (List.getElem?_eq_some_iff.mp found).1
    obtain ⟨x, out, code, reach, ended, kept⟩ := calls k k (by simp [bound])
    have mapped := mapped_of_reach reach
    rw [List.getD_eq_getElem?_getD, found, Option.getD_some] at mapped
    have place : x.place = .returned out := by
      have ended : x.outcome = some (.returned out) := ended
      unfold BatchCode.outcome at ended
      split at ended <;> simp_all
    have way := mapped.place
    rw [place] at way
    cases stage : x.stage with
    | llm1 => exact absurd place ((mapped.first stage).2.2 out)
    | llm2 =>
        obtain ⟨handed, made⟩ := mapped.second stage
        have isOut : out = batch.map (g ∘ f) := by
          simpa only [BatchCode.OnTheWay, stage, Stage.apply, handed, List.map_map] using way
        exact ⟨by simp [code, made], by rw [kept, isOut]; rfl⟩
  obtain ⟨total, positions⟩ := flat_paired sized length fun k batch found =>
    ⟨_, (codes k batch found).2, by simp⟩
  constructor
  · refine List.ext_getElem? fun i => ?_
    rw [List.getElem?_map]
    by_cases bound : i < items.length
    · obtain ⟨out, batch, kept, found, inside, same, here⟩ := positions i bound
      obtain rfl : batch.map (fun doc => g (f doc)) = out := by
        simpa [kept] using (codes _ batch found).2.symm
      rw [here, same, List.getElem?_map]
    · rw [List.getElem?_eq_none_iff.mpr (by omega), List.getElem?_eq_none_iff.mpr (by omega), Option.map_none]
  · exact fun k batch found => (codes k batch found).1
  · intro k beyond
    by_contra some_
    obtain ⟨x, code⟩ := Option.ne_none_iff_exists'.mp some_
    have follows := follows_of_reaches (process_strict _ concurrency none false) (fun _ => rfl) reached
    obtain ⟨index, found, _⟩ := follows.reach k x code
    have bound := (List.getElem?_eq_some_iff.mp found).1
    have bound : k < (List.range (chunk items size).length).length := bound
    rw [List.length_range] at bound
    omega
  · exact whole
  · intro k batch found
    have member := List.mem_of_getElem? found
    exact ⟨Windows.cut_ne_nil sized items batch (chunk_eq items size ▸ member), regular.row found⟩

end Batched

/-- The three pipelines compute the same list. -/
theorem pipelines_agree [DecidableEq δ] (f g : δ → δ) (docs rest : Docs δ) (items : List δ)
    (read : docs.read = .ok (items, rest)) (size concurrency : Nat) (sized : 1 ≤ size)
    (positive : 1 ≤ concurrency) :
    serialPipeline f g docs = .ok (items.map (fun doc => g (f doc)),
      items.flatMap fun doc => [(.llm1, doc), (.llm2, f doc)]) ∧
    (asyncPipeline items concurrency : Fanout δ δ Unit (Slot δ ε) ε).Delivers (docScript f g)
      (DocsDone f g items) ∧
    (batchedAsyncPipeline items size concurrency :
      Fanout Nat (List δ) Unit (Slot (List δ) (Fault ε)) (Fault ε)).Delivers
      (mappedScript f g (chunk items size)) (BatchesDone f g items size) := by
  refine ⟨?_, asyncPipeline_delivers f g items positive, batchedAsyncPipeline_delivers f g items sized positive⟩
  rw [serialPipeline, read]
  simp [Except.map, serialLoop_eq]

theorem pipelines_agree_ragged :
    serialPipeline (· + 1) (· * 2) (.oneShot [1, 2, 3]) = .ok ([4, 6, 8],
      [(.llm1, 1), (.llm2, 2), (.llm1, 2), (.llm2, 3), (.llm1, 3), (.llm2, 4)]) ∧
    (batchedAsyncPipeline [1, 2, 3] 2 1 :
      Fanout Nat (List Nat) Unit (Slot (List Nat) (Fault Unit)) (Fault Unit)).Delivers
      (mappedScript (· + 1) (· * 2) [[1, 2], [3]]) (BatchesDone (· + 1) (· * 2) [1, 2, 3] 2) := by
  obtain ⟨serial, _, batched⟩ := pipelines_agree (ε := Unit) (· + 1) (· * 2) (.oneShot [1, 2, 3]) (.oneShot [])
    [1, 2, 3] rfl 2 1 (by decide) (by decide)
  exact ⟨serial, batched⟩

end AsyncPipelines
