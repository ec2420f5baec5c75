import Mathlib.Data.Nat.Basic

/-!
A bounded buffer between a producer and its workers, in numbers: how many items are
where, and what counters say that are read and written along the way.
-/

namespace Meter

/-- `hand` counts the item that was pulled and is not in the buffer yet, `lost` those
that left without being taken, `due` a put that will have to wait. `waits`, `offers` and
`deepest` are facts about the past; the last four numbers are the counters. -/
structure Gauge where
  pulled : Nat := 0
  hand : Nat := 0
  queued : Nat := 0
  taken : Nat := 0
  ended : Nat := 0
  stored : Nat := 0
  lost : Nat := 0
  puts : Nat := 0
  waits : Nat := 0
  offers : Nat := 0
  due : Nat := 0
  deepest : Nat := 0
  failed : Bool := false
  produced : Nat := 0
  consumed : Nat := 0
  pauses : Nat := 0
  depth : Nat := 0

def count (metered : Bool) (counter more : Nat) : Nat := if metered then counter + more else counter

inductive Step (size : Nat) (metered : Bool) (x : Gauge) : Gauge → Prop
  | skip (failed : Bool) (latched : x.failed = true → failed = true) :
      Step size metered x { x with failed := failed }
  | offer (free : x.hand = 0) :
      Step size metered x { x with
        pulled := x.pulled + 1, hand := 1, offers := x.offers + 1
        due := if size ≤ x.queued then 1 else 0
        pauses := count metered x.pauses (if size ≤ x.queued then 1 else 0) }
  | late : Step size metered x { x with pulled := x.pulled + 1, lost := x.lost + 1, failed := true }
  | wait (isDue : x.due = 1) : Step size metered x { x with waits := x.waits + 1, due := 0 }
  | put (holds : x.hand = 1) (room : x.queued < size) (notDue : x.due = 0) :
      Step size metered x { x with
        hand := 0, queued := x.queued + 1, puts := x.puts + 1
        deepest := max x.deepest (x.queued + 1)
        produced := count metered x.produced 1
        depth := if metered then max x.depth (x.queued + 1) else x.depth }
  | drop (holds : x.hand = 1) (notDue : x.due = 0) :
      Step size metered x { x with hand := 0, lost := x.lost + 1, failed := true }
  | take (rest : Nat) (some : x.queued = rest + 1) (open_ : x.failed = false) :
      Step size metered x { x with queued := rest, taken := x.taken + 1 }
  | discard (rest : Nat) (some : x.queued = rest + 1) (failed : x.failed = true) :
      Step size metered x { x with queued := rest, lost := x.lost + 1 }
  | store : Step size metered x { x with
      ended := x.ended + 1, stored := x.stored + 1, consumed := count metered x.consumed 1 }
  | fail : Step size metered x { x with ended := x.ended + 1, failed := true }

structure Balanced (size : Nat) (x : Gauge) : Prop where
  balance : x.pulled = x.lost + x.hand + x.queued + x.taken
  single : x.hand ≤ 1
  bounded : x.queued ≤ size
  whole : x.failed = false → x.lost = 0 ∧ x.stored = x.ended ∧ x.puts = x.queued + x.taken
  covered : x.puts + x.hand ≤ x.offers
  offered : x.offers ≤ x.pulled
  queue : x.queued + x.taken ≤ x.puts
  deepest : x.queued ≤ x.deepest ∧ x.deepest ≤ size ∧ x.deepest ≤ x.puts
  due : x.due ≤ x.hand

structure Exact (size : Nat) (x : Gauge) : Prop where
  produced : x.produced = x.puts
  consumed : x.consumed = x.stored
  depth : x.depth = x.deepest
  pauses : x.pauses = x.waits + x.due
  unpaused : x.offers ≤ size → x.pauses = 0

variable {size : Nat} {metered : Bool} {x y : Gauge}

theorem Balanced.start : Balanced size {} := by
  constructor <;> simp

theorem Exact.start : Exact size {} := by
  constructor <;> simp

theorem Step.balanced (step : Step size metered x y) (balanced : Balanced size x) : Balanced size y := by
  obtain ⟨balance, single, bounded, whole, covered, offered, queue, deepest, due⟩ := balanced
  cases step with
  | skip failed latched =>
      refine ⟨balance, single, bounded, fun open_ => whole ?_, covered, offered, queue, deepest, due⟩
      rw [← Bool.not_eq_true]
      intro before
      have still : failed = false := open_
      simp [latched before] at still
  | offer free =>
      refine ⟨?_, ?_, bounded, whole, ?_, ?_, queue, deepest, ?_⟩ <;> dsimp only
      all_goals first | omega | (split <;> omega)
  | late => constructor <;> simp <;> omega
  | wait isDue =>
      exact ⟨balance, single, bounded, whole, covered, offered, queue, deepest, Nat.zero_le _⟩
  | put holds room notDue =>
      refine ⟨?_, ?_, ?_, fun open_ => ?_, ?_, offered, ?_, ?_, ?_⟩ <;> dsimp only
      all_goals first | omega | (have before := whole open_; omega)
  | drop holds notDue => constructor <;> simp <;> omega
  | take rest some open_ =>
      have before := whole open_
      refine ⟨?_, single, ?_, fun _ => ?_, covered, offered, ?_, ?_, due⟩ <;> dsimp only <;> omega
  | discard rest some failed =>
      refine ⟨?_, single, ?_, fun open_ => ?_, covered, offered, ?_, ?_, due⟩ <;> dsimp only
      · omega
      · omega
      · simp [failed] at open_
      · omega
      · omega
  | store =>
      refine ⟨balance, single, bounded, fun open_ => ?_, covered, offered, queue, deepest, due⟩
      have before := whole open_
      dsimp only
      omega
  | fail => exact ⟨balance, single, bounded, by simp, covered, offered, queue, deepest, due⟩

theorem Step.exact (step : Step size true x y) (balanced : Balanced size x) (exact_ : Exact size x) :
    Exact size y := by
  have covered := balanced.covered
  have queue := balanced.queue
  obtain ⟨produced, consumed, depth, pauses, unpaused⟩ := exact_
  cases step with
  | skip => exact ⟨produced, consumed, depth, pauses, unpaused⟩
  | offer free =>
      have due := balanced.due
      refine ⟨produced, consumed, depth, ?_, ?_⟩ <;> simp only [count, ↓reduceIte] <;> split <;> omega
  | late => exact ⟨produced, consumed, depth, pauses, unpaused⟩
  | wait isDue => exact ⟨produced, consumed, depth, by dsimp only; omega, unpaused⟩
  | put holds room notDue =>
      refine ⟨?_, consumed, ?_, pauses, unpaused⟩
      · simp only [count, ↓reduceIte]
        omega
      · simp only [↓reduceIte, depth]
  | drop => exact ⟨produced, consumed, depth, pauses, unpaused⟩
  | take => exact ⟨produced, consumed, depth, pauses, unpaused⟩
  | discard => exact ⟨produced, consumed, depth, pauses, unpaused⟩
  | store =>
      refine ⟨produced, ?_, depth, pauses, unpaused⟩
      simp only [count, ↓reduceIte]
      omega
  | fail => exact ⟨produced, consumed, depth, pauses, unpaused⟩

theorem Step.grows (step : Step size true x y) :
    x.pulled ≤ y.pulled ∧ x.deepest ≤ y.deepest ∧ x.pauses ≤ y.pauses := by
  cases step with
  | put => exact ⟨le_rfl, le_max_left .., le_rfl⟩
  | _ => simp [count]

end Meter
