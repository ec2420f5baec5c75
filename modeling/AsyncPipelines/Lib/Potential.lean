import AsyncPipelines.Lib.Runs

/-!
Machines that run down. Every step costs something and may bring something in, the
potential of a state pays for the rest, and a machine that can always go on to a lower
potential comes to its goal.
-/

namespace Runs

variable {σ act : Type} {step : σ → act → Option σ}

@[simp] def total (cost : act → Nat) : List act → Nat
  | [] => 0
  | a :: rest => cost a + total cost rest

/-- No step costs more than it brings in and the potential loses. -/
structure Pays (step : σ → act → Option σ) (p : σ → Prop) (potential : σ → Nat)
    (cost gain : act → Nat) : Prop where
  kept : ∀ s a t, p s → step s a = some t → p t
  pays : ∀ s a t, p s → step s a = some t → potential t + cost a ≤ potential s + gain a

theorem Pays.run {p : σ → Prop} {potential : σ → Nat} {cost gain : act → Nat}
    (pays : Pays step p potential cost gain) {s t : σ} {actions : List act} (start : p s)
    (ran : run step s actions = some t) :
    potential t + total cost actions ≤ potential s + total gain actions := by
  induction actions generalizing s with
  | nil =>
      simp only [run_nil, Option.some.injEq] at ran
      simp [ran]
  | cons a rest ih =>
      simp only [run_cons, Option.bind_eq_some_iff] at ran
      obtain ⟨next, stepped, ran⟩ := ran
      have first := pays.pays s a next start stepped
      have later := ih (pays.kept s a next start stepped) ran
      simp only [total]
      omega

def ReachesBy (step : σ → act → Option σ) (allowed : act → Prop) (s t : σ) : Prop :=
  ∃ actions, (∀ a ∈ actions, allowed a) ∧ run step s actions = some t

variable {allowed : act → Prop}

theorem ReachesBy.refl (s : σ) : ReachesBy step allowed s s := ⟨[], by simp, rfl⟩

theorem ReachesBy.trans {s t u : σ} (first : ReachesBy step allowed s t)
    (second : ReachesBy step allowed t u) : ReachesBy step allowed s u := by
  obtain ⟨actions, within, ran⟩ := first
  obtain ⟨more, within', further⟩ := second
  refine ⟨actions ++ more, ?_, by simp [run_append, ran, further]⟩
  intro a member
  rcases List.mem_append.mp member with old | new
  · exact within a old
  · exact within' a new

theorem ReachesBy.one {s t : σ} {a : act} (own : allowed a) (stepped : step s a = some t) :
    ReachesBy step allowed s t :=
  ⟨[a], by simpa using own, by simp [stepped]⟩

/-- A machine that from every state but its goal comes to a lower potential comes to its
goal. -/
theorem reachesBy_of_descent {p : σ → Prop} (goal : σ → Prop) (potential : σ → Nat)
    (down : ∀ s, p s → ¬ goal s →
      ∃ t, ReachesBy step allowed s t ∧ p t ∧ potential t < potential s) {s : σ} (start : p s) :
    ∃ t, ReachesBy step allowed s t ∧ p t ∧ goal t := by
  induction high : potential s using Nat.strongRecOn generalizing s with
  | ind n ih =>
      by_cases there : goal s
      · exact ⟨s, ReachesBy.refl s, start, there⟩
      · obtain ⟨t, reached, kept, lower⟩ := down s start there
        obtain ⟨u, further, arrived⟩ := ih (potential t) (high ▸ lower) kept rfl
        exact ⟨u, reached.trans further, arrived⟩

end Runs
