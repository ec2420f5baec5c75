import Mathlib.Data.List.Basic

/-!
A producer feeds workers through a first-in first-out queue. When it has nothing
more it sends one mark for each worker, and a worker that takes a mark retires.
-/

namespace Conveyor

variable {α : Type}

/-- `hand` is the item that was pulled and is not in the queue yet, and `owed` the
number of marks still to be sent, once the source has ended. An entry of the queue
is an item, or `none` for a mark. -/
structure Belt (α : Type) where
  pulled : List α := []
  hand : Option α := none
  owed : Option Nat := none
  queue : List (Option α) := []
  workers : Nat := 0
  retired : List Nat := []
  taken : List α := []

inductive Step (b : Belt α) : Belt α → Prop
  | pull (item : α) (workers : Nat) (free : b.hand = none) (open_ : b.owed = none)
      (staffed : 1 ≤ workers) :
      Step b { b with pulled := b.pulled ++ [item], hand := some item, workers := workers }
  | put (item : α) (holds : b.hand = some item) :
      Step b { b with hand := none, queue := b.queue ++ [some item] }
  | close (free : b.hand = none) (open_ : b.owed = none) : Step b { b with owed := some b.workers }
  | mark (left : Nat) (owes : b.owed = some (left + 1)) :
      Step b { b with owed := some left, queue := b.queue ++ [none] }
  | take (item : α) (rest : List (Option α)) (front : b.queue = some item :: rest) :
      Step b { b with queue := rest, taken := b.taken ++ [item] }
  | retire (worker : Nat) (rest : List (Option α)) (front : b.queue = none :: rest) :
      Step b { b with queue := rest, retired := b.retired ++ [worker] }

/-- Items stand before marks, none is lost, and there is a mark for every worker. -/
structure Balanced (b : Belt α) (items : List α) (marks : Nat) : Prop where
  queue : b.queue = items.map some ++ List.replicate marks none
  order : b.pulled = b.taken ++ items ++ b.hand.toList
  closed : b.owed ≠ none → b.hand = none
  marked : b.owed = none → marks = 0 ∧ b.retired = []
  behind : b.retired ≠ [] → items = []
  paid : b.owed.getD b.workers + marks + b.retired.length = b.workers
  staffed : b.pulled ≠ [] → 1 ≤ b.workers

def Sorted (b : Belt α) : Prop := ∃ items marks, Balanced b items marks

theorem sorted_start : Sorted ({} : Belt α) :=
  ⟨[], 0, by simp, by simp, by simp, by simp, by simp, by simp, by simp⟩

namespace Balanced

variable {b : Belt α} {items : List α} {marks : Nat}

theorem front_item (balanced : Balanced b items marks) {item : α} {rest : List (Option α)}
    (front : b.queue = some item :: rest) :
    ∃ later, items = item :: later ∧ rest = later.map some ++ List.replicate marks none := by
  have queue := balanced.queue
  rw [front] at queue
  cases items with
  | nil => cases marks <;> simp [List.replicate_succ] at queue
  | cons first later =>
      simp only [List.map_cons, List.cons_append, List.cons.injEq, Option.some.injEq] at queue
      exact ⟨later, by rw [queue.1], queue.2⟩

theorem front_mark (balanced : Balanced b items marks) {rest : List (Option α)}
    (front : b.queue = none :: rest) :
    items = [] ∧ ∃ left, marks = left + 1 ∧ rest = List.replicate left none := by
  have queue := balanced.queue
  rw [front] at queue
  cases items with
  | nil =>
      cases marks with
      | zero => simp at queue
      | succ left =>
          simp only [List.map_nil, List.nil_append, List.replicate_succ, List.cons.injEq,
            true_and] at queue
          exact ⟨rfl, left, rfl, queue⟩
  | cons first later => simp at queue

end Balanced

theorem Step.sorted {b d : Belt α} (step : Step b d) (sorted : Sorted b) : Sorted d := by
  obtain ⟨items, marks, balanced⟩ := sorted
  have paid := balanced.paid
  cases step with
  | pull item workers free open_ staffed =>
      obtain ⟨noMarks, noneRetired⟩ := balanced.marked open_
      refine ⟨items, marks, balanced.queue, ?_, ?_, balanced.marked, balanced.behind, ?_, ?_⟩
      · have order := balanced.order
        rw [free] at order
        simp [order]
      · exact fun owes => absurd open_ owes
      · simp [open_, noMarks, noneRetired]
      · exact fun _ => staffed
  | put item holds =>
      have notClosed : b.owed = none := by
        by_contra owes
        simp [balanced.closed owes] at holds
      obtain ⟨noMarks, noneRetired⟩ := balanced.marked notClosed
      refine ⟨items ++ [item], marks, ?_, ?_, fun _ => rfl, balanced.marked, ?_, paid, balanced.staffed⟩
      · rw [balanced.queue, noMarks]
        simp
      · have order := balanced.order
        rw [holds] at order
        simp [order]
      · exact fun retired => absurd noneRetired retired
  | close free open_ =>
      obtain ⟨noMarks, noneRetired⟩ := balanced.marked open_
      refine ⟨items, marks, balanced.queue, balanced.order, fun _ => free, ?_, balanced.behind, ?_,
        balanced.staffed⟩
      · simp
      · simp [noMarks, noneRetired]
  | mark left owes =>
      have free := balanced.closed (by simp [owes])
      refine ⟨items, marks + 1, ?_, balanced.order, fun _ => free, by simp, balanced.behind, ?_,
        balanced.staffed⟩
      · rw [balanced.queue, List.replicate_succ', List.append_assoc]
      · simp only [owes, Option.getD_some] at paid ⊢
        omega
  | take item rest front =>
      obtain ⟨later, rfl, isRest⟩ := balanced.front_item front
      refine ⟨later, marks, isRest, ?_, balanced.closed, balanced.marked, ?_, paid, balanced.staffed⟩
      · rw [balanced.order]
        simp
      · intro retired
        have none := balanced.behind retired
        simp at none
  | retire worker rest front =>
      obtain ⟨rfl, left, rfl, isRest⟩ := balanced.front_mark front
      refine ⟨[], left, by simpa using isRest, balanced.order, balanced.closed, ?_, fun _ => rfl, ?_,
        balanced.staffed⟩
      · intro open_
        have marked := (balanced.marked open_).1
        omega
      · simp only [List.length_append, List.length_singleton]
        omega

namespace Sorted

variable {b : Belt α}

/-- All workers have retired, and no mark is owed: everything was taken, in order. -/
theorem finished (sorted : Sorted b) (paid : b.owed = some 0) (gone : b.retired.length = b.workers) :
    b.queue = [] ∧ b.taken = b.pulled := by
  obtain ⟨items, marks, balanced⟩ := sorted
  have count := balanced.paid
  simp only [paid, Option.getD_some] at count
  have noMarks : marks = 0 := by omega
  have noItems : items = [] := by
    by_cases staff : b.workers = 0
    · have order := balanced.order
      by_cases nothing : b.pulled = []
      · simp [nothing] at order
        exact order.2.1
      · have staffed := balanced.staffed nothing
        omega
    · refine balanced.behind fun none => ?_
      rw [none] at gone
      simp at gone
      omega
  have free := balanced.closed (by simp [paid])
  refine ⟨by simp [balanced.queue, noItems, noMarks], ?_⟩
  simp [balanced.order, noItems, free]

theorem drained (sorted : Sorted b) (paid : b.owed = some 0) (empty : b.queue = []) :
    b.retired.length = b.workers := by
  obtain ⟨items, marks, balanced⟩ := sorted
  have count := balanced.paid
  have queue := balanced.queue
  simp only [empty, paid, Option.getD_some] at count queue
  have noMarks : marks = 0 := by
    cases marks with
    | zero => rfl
    | succ left => simp [List.replicate_succ] at queue
  omega

theorem manned (sorted : Sorted b) (more : b.hand ≠ none ∨ ∃ left, b.owed = some (left + 1)) :
    b.retired.length < b.workers := by
  obtain ⟨items, marks, balanced⟩ := sorted
  have count := balanced.paid
  rcases more with holds | ⟨left, owes⟩
  · have open_ : b.owed = none := by
      by_contra owes
      exact holds (balanced.closed owes)
    have begun : b.pulled ≠ [] := by
      intro nothing
      have order := balanced.order
      rw [nothing] at order
      cases hand : b.hand with
      | none => exact holds hand
      | some item => simp [hand] at order
    have staffed := balanced.staffed begun
    rw [(balanced.marked open_).2]
    exact staffed
  · simp only [owes, Option.getD_some] at count
    omega

end Sorted

end Conveyor
