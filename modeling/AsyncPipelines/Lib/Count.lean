import Mathlib.Data.Nat.Count

/-!
`Nat.count` for a predicate that changes at one number.
-/

namespace Count

variable {p q : Nat → Prop} [DecidablePred p] [DecidablePred q]

theorem count_congr {n : Nat} (same : ∀ i, i < n → (q i ↔ p i)) : Nat.count q n = Nat.count p n := by
  induction n with
  | zero => simp
  | succ n ih =>
      have here := same n (by omega)
      have rest := ih fun i bound => same i (by omega)
      simp only [Nat.count_succ, rest, here]

theorem count_change {n i : Nat} (bound : i < n) (same : ∀ j, j ≠ i → (q j ↔ p j)) :
    Nat.count q n + (if p i then 1 else 0) = Nat.count p n + (if q i then 1 else 0) := by
  induction n with
  | zero => omega
  | succ n ih =>
      simp only [Nat.count_succ]
      by_cases here : i = n
      · subst here
        have rest := count_congr (n := i) (p := p) (q := q) fun j small => same j (by omega)
        omega
      · have rest := ih (by omega)
        simp only [same n (by omega)]
        omega

end Count
