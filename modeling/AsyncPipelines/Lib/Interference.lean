import AsyncPipelines.Lib.Program
import Mathlib.Logic.Function.Basic
import Mathlib.Logic.Relation

/-!
Programs that run at once on one state, their calls interleaved in any order. Each plays a
role that its calls move on, and one relation between the roles and the state is kept.
-/

/-- What parties that share a state agree on. -/
structure Contract (ι ρ S : Type) where
  /-- How a call may move the role of the party that makes it. -/
  moves : ρ → ρ → Prop
  stay : ∀ r, moves r r
  /-- How the roles and the state belong together. -/
  fits : (ι → ρ) → S → Prop

namespace Program

variable {ι ρ S E α β : Type} [DecidableEq ι]

inductive Interleaved (fault : E → Prop) (ps : ι → Program S E α) (s : S) :
    (ι → Program S E α) → S → Prop
  | start : Interleaved fault ps s ps s
  | next {qs : ι → Program S E α} {t t' : S} (i : ι) (q : Program S E α)
      (before : Interleaved fault ps s qs t) (step : Step fault (qs i, t) (q, t')) :
      Interleaved fault ps s (Function.update qs i q) t'

theorem Interleaved.visits {fault : E → Prop} {ps qs : ι → Program S E α} {s t t' : S} {i : ι}
    {q : Program S E α} (before : Interleaved fault ps s qs t)
    (visited : Visits fault (qs i, t) (q, t')) :
    Interleaved fault ps s (Function.update qs i q) t' := by
  generalize stop : (q, t') = now at visited
  induction visited generalizing q t' with
  | start =>
      cases stop
      rw [Function.update_eq_self]
      exact before
  | @next middle _ _ step ih =>
      subst stop
      have reached : Interleaved fault ps s (Function.update qs i middle.1) middle.2 := ih rfl
      have again : Step fault (Function.update qs i middle.1 i, middle.2) (q, t') := by
        rw [Function.update_self]
        exact step
      have later := reached.next i q again
      rwa [Function.update_idem] at later

theorem Interleaved.play {fault : E → Prop} {ps qs : ι → Program S E α} {s t : S} (i : ι)
    (faults : List (Option E)) (allowed : ∀ e, some e ∈ faults → fault e) (before : Interleaved fault ps s qs t) :
    Interleaved fault ps s (Function.update qs i (Program.play faults (qs i, t)).1)
      (Program.play faults (qs i, t)).2 :=
  before.visits (play_visits allowed .start)

/-- From role `r`, every call of party `i` keeps the contract, in whatever state the others
have left, and `post` holds of the result and the role it is reached in. -/
def Plays (C : Contract ι ρ S) (fault : E → Prop) (i : ι) (post : Except E α → ρ → Prop) :
    Program S E α → ρ → Prop
  | ret a, r => post (.ok a) r
  | fail e, r => post (.error e) r
  | call effect next, r =>
      (∀ rs s, C.fits rs s → rs i = r → ∃ r', C.moves r r' ∧
        C.fits (Function.update rs i r') (effect s).2 ∧
          Plays C fault i post (next (effect s).1) r') ∧
        ∀ e, fault e → Plays C fault i post (next (.error e)) r

variable {C : Contract ι ρ S} {fault : E → Prop} {i : ι} {post : Except E α → ρ → Prop} {r : ρ}

theorem Plays.mono {post' : Except E α → ρ → Prop} (posts : ∀ result r, post result r → post' result r)
    {p : Program S E α} (plays : Plays C fault i post p r) : Plays C fault i post' p r := by
  induction p generalizing r with
  | ret a => exact posts _ _ plays
  | fail e => exact posts _ _ plays
  | call effect next ih =>
      obtain ⟨calls, faults⟩ := plays
      refine ⟨fun rs s fits role => ?_, fun e isFault => ih _ (faults e isFault)⟩
      obtain ⟨r', moved, fits', later⟩ := calls rs s fits role
      exact ⟨r', moved, fits', ih _ later⟩

theorem Plays.bind {post' : Except E β → ρ → Prop} {p : Program S E α} {f : α → Program S E β}
    (plays : Plays C fault i (fun result r => match result with
      | .ok a => Plays C fault i post' (f a) r
      | .error e => post' (.error e) r) p r) :
    Plays C fault i post' (p >>= f) r := by
  change Plays C fault i post' (p.bind f) r
  induction p generalizing r with
  | ret a => exact plays
  | fail e => exact plays
  | call effect next ih =>
      obtain ⟨calls, faults⟩ := plays
      refine ⟨fun rs s fits role => ?_, fun e isFault => ih _ (faults e isFault)⟩
      obtain ⟨r', moved, fits', later⟩ := calls rs s fits role
      exact ⟨r', moved, fits', ih _ later⟩

theorem Plays.attempt {post' : Except E (Except E α) → ρ → Prop} {p : Program S E α}
    (plays : Plays C fault i (fun result r => post' (.ok result) r) p r) :
    Plays C fault i post' p.attempt r := by
  induction p generalizing r with
  | ret a => exact plays
  | fail e => exact plays
  | call effect next ih =>
      obtain ⟨calls, faults⟩ := plays
      refine ⟨fun rs s fits role => ?_, fun e isFault => ih _ (faults e isFault)⟩
      obtain ⟨r', moved, fits', later⟩ := calls rs s fits role
      exact ⟨r', moved, fits', ih _ later⟩

theorem Plays.ofExcept {answer : Except E α} (holds : post answer r) :
    Plays C fault i post (ofExcept answer) r := by
  cases answer <;> exact holds

theorem Plays.perform {effect : S → Except E α × S}
    (calls : ∀ rs s, C.fits rs s → rs i = r → ∃ r', C.moves r r' ∧
      C.fits (Function.update rs i r') (effect s).2 ∧ post (effect s).1 r')
    (faulted : ∀ e, fault e → post (.error e) r) : Plays C fault i post (perform effect) r := by
  refine ⟨fun rs s fits role => ?_, fun e isFault => .ofExcept (faulted e isFault)⟩
  obtain ⟨r', moved, fits', later⟩ := calls rs s fits role
  exact ⟨r', moved, fits', .ofExcept later⟩

theorem Plays.still {effect : S → Except E α × S} (same : ∀ s, (effect s).2 = s)
    (answered : ∀ rs s, C.fits rs s → rs i = r → post (effect s).1 r)
    (faulted : ∀ e, fault e → post (.error e) r) : Plays C fault i post (Program.perform effect) r := by
  refine .perform (fun rs s fits role => ⟨r, C.stay r, ?_, answered rs s fits role⟩) faulted
  rw [same, ← role, Function.update_eq_self]
  exact fits

/-- Parties that keep the contract keep it together. -/
theorem Plays.interleaved {posts : ι → Except E α → ρ → Prop} {ps qs : ι → Program S E α} {rs : ι → ρ}
    {s t : S} (fits : C.fits rs s) (plays : ∀ i, Plays C fault i (posts i) (ps i) (rs i))
    (run : Interleaved fault ps s qs t) :
    ∃ rs', (∀ i, Relation.ReflTransGen C.moves (rs i) (rs' i)) ∧ C.fits rs' t ∧
      ∀ i, Plays C fault i (posts i) (qs i) (rs' i) := by
  induction run with
  | start => exact ⟨rs, fun _ => .refl, fits, plays⟩
  | @next qs t t' i q before step ih =>
      obtain ⟨rs', moved, fits', plays'⟩ := ih
      have mine := plays' i
      suffices after : ∃ r', C.moves (rs' i) r' ∧ C.fits (Function.update rs' i r') t' ∧
          Plays C fault i (posts i) q r' by
        obtain ⟨r', moves, fits'', mine'⟩ := after
        refine ⟨Function.update rs' i r', fun j => ?_, fits'', fun j => ?_⟩
        · by_cases same : j = i
          · subst same
            rw [Function.update_self]
            exact (moved j).tail moves
          · rw [Function.update_of_ne same]
            exact moved j
        · by_cases same : j = i
          · subst same
            rw [Function.update_self, Function.update_self]
            exact mine'
          · rw [Function.update_of_ne same, Function.update_of_ne same]
            exact plays' j
      generalize now : qs i = p at step mine
      cases step with
      | answers effect next s => exact mine.1 rs' t fits' rfl
      | faults effect next s e isFault =>
          refine ⟨rs' i, C.stay _, ?_, mine.2 e isFault⟩
          rw [Function.update_eq_self]
          exact fits'

end Program
