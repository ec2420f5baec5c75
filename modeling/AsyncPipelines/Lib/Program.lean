import Mathlib.Data.Prod.Basic

/-!
Programs that make calls on a state they share with the outside, such as a filesystem: the
tree of their calls, its run without a fault, its runs where any call may fault, and the
rules for what holds at every point of those.
-/

/-- A call is its effect: what it answers, and the state it leaves. -/
inductive Program (S E : Type) (α : Type) : Type 1
  | ret (a : α)
  | fail (e : E)
  | call {R : Type} (effect : S → Except E R × S) (next : Except E R → Program S E α)

namespace Program

variable {S E α β : Type}

def run : Program S E α → S → Except E α × S
  | ret a, s => (.ok a, s)
  | fail e, s => (.error e, s)
  | call effect next, s => run (next (effect s).1) (effect s).2

protected def bind : Program S E α → (α → Program S E β) → Program S E β
  | ret a, f => f a
  | fail e, _ => fail e
  | call effect next, f => call effect fun answer => (next answer).bind f

instance : Monad (Program S E) where
  pure := ret
  bind := Program.bind

def attempt : Program S E α → Program S E (Except E α)
  | ret a => ret (.ok a)
  | fail e => ret (.error e)
  | call effect next => call effect fun answer => (next answer).attempt

def ofExcept : Except E α → Program S E α
  | .ok a => ret a
  | .error e => fail e

def perform (effect : S → Except E α × S) : Program S E α := call effect ofExcept

@[simp] theorem run_pure (a : α) (s : S) : (pure a : Program S E α).run s = (.ok a, s) := rfl

@[simp] theorem run_ret (a : α) (s : S) : (ret a : Program S E α).run s = (.ok a, s) := rfl

@[simp] theorem run_fail (e : E) (s : S) : (fail e : Program S E α).run s = (.error e, s) := rfl

@[simp] theorem run_ofExcept (answer : Except E α) (s : S) :
    (ofExcept answer : Program S E α).run s = (answer, s) := by
  cases answer <;> rfl

@[simp] theorem run_perform (effect : S → Except E α × S) (s : S) :
    (perform effect).run s = effect s := by
  simp [perform, run]

theorem run_bind (p : Program S E α) (f : α → Program S E β) (s : S) :
    (p >>= f).run s = match p.run s with
      | (.ok a, t) => (f a).run t
      | (.error e, t) => (.error e, t) := by
  change (p.bind f).run s = _
  induction p generalizing s with
  | ret a => rfl
  | fail e => rfl
  | call effect next ih => exact ih _ _

def Still (p : Program S E α) : Prop := ∀ s, (p.run s).2 = s

theorem Still.bind {p : Program S E α} {f : α → Program S E β} (still : p.Still)
    (later : ∀ a, (f a).Still) : (p >>= f).Still := by
  intro s
  have same := still s
  rw [run_bind]
  split
  · rename_i a t ran
    rw [ran] at same
    rw [later a t]
    exact same
  · rename_i e t ran
    rw [ran] at same
    exact same

@[simp] theorem run_attempt (p : Program S E α) (s : S) :
    p.attempt.run s = (.ok (p.run s).1, (p.run s).2) := by
  induction p generalizing s with
  | ret a => rfl
  | fail e => rfl
  | call effect next ih => exact ih _ _

/-- A call is answered, or refused with a fault that leaves the state as it was. -/
inductive Step (fault : E → Prop) : Program S E α × S → Program S E α × S → Prop
  | answers {R : Type} (effect : S → Except E R × S) (next : Except E R → Program S E α) (s : S) :
      Step fault (call effect next, s) (next (effect s).1, (effect s).2)
  | faults {R : Type} (effect : S → Except E R × S) (next : Except E R → Program S E α) (s : S)
      (e : E) (isFault : fault e) : Step fault (call effect next, s) (next (.error e), s)

inductive Visits (fault : E → Prop) (start : Program S E α × S) : Program S E α × S → Prop
  | start : Visits fault start start
  | next {now later : Program S E α × S} (visited : Visits fault start now)
      (step : Step fault now later) : Visits fault start later

def Holds (fault : E → Prop) (inv : S → Prop) (post : Except E α → S → Prop) :
    Program S E α → S → Prop
  | ret a, s => post (.ok a) s
  | fail e, s => post (.error e) s
  | call effect next, s =>
      (inv (effect s).2 ∧ Holds fault inv post (next (effect s).1) (effect s).2) ∧
        ∀ e, fault e → Holds fault inv post (next (.error e)) s

variable {fault : E → Prop} {inv : S → Prop} {post : Except E α → S → Prop}

theorem Holds.visits {p q : Program S E α} {s t : S} (holds : Holds fault inv post p s)
    (start : inv s) (visited : Visits fault (p, s) (q, t)) :
    inv t ∧ Holds fault inv post q t := by
  suffices every : ∀ now, Visits fault (p, s) now → inv now.2 ∧ Holds fault inv post now.1 now.2 from
    every (q, t) visited
  intro now visited
  induction visited with
  | start => exact ⟨start, holds⟩
  | next _ step ih =>
      obtain ⟨before, later⟩ := ih
      cases step with
      | answers effect next s => exact later.1
      | faults effect next s e isFault => exact ⟨before, later.2 e isFault⟩

theorem Holds.mono {inv' : S → Prop} {post' : Except E α → S → Prop}
    (invs : ∀ s, inv s → inv' s) (posts : ∀ r s, post r s → post' r s) {p : Program S E α} {s : S}
    (holds : Holds fault inv post p s) : Holds fault inv' post' p s := by
  induction p generalizing s with
  | ret a => exact posts _ _ holds
  | fail e => exact posts _ _ holds
  | call effect next ih =>
      obtain ⟨⟨after, later⟩, faults⟩ := holds
      exact ⟨⟨invs _ after, ih _ later⟩, fun e isFault => ih _ (faults e isFault)⟩

theorem Holds.bind {post' : Except E β → S → Prop} {p : Program S E α} {f : α → Program S E β} {s : S}
    (holds : Holds fault inv (fun r t => match r with
      | .ok a => Holds fault inv post' (f a) t
      | .error e => post' (.error e) t) p s) :
    Holds fault inv post' (p >>= f) s := by
  change Holds fault inv post' (p.bind f) s
  induction p generalizing s with
  | ret a => exact holds
  | fail e => exact holds
  | call effect next ih =>
      obtain ⟨⟨after, later⟩, faults⟩ := holds
      exact ⟨⟨after, ih _ later⟩, fun e isFault => ih _ (faults e isFault)⟩

theorem Holds.attempt {post' : Except E (Except E α) → S → Prop} {p : Program S E α} {s : S}
    (holds : Holds fault inv (fun r t => post' (.ok r) t) p s) :
    Holds fault inv post' p.attempt s := by
  induction p generalizing s with
  | ret a => exact holds
  | fail e => exact holds
  | call effect next ih =>
      obtain ⟨⟨after, later⟩, faults⟩ := holds
      exact ⟨⟨after, ih _ later⟩, fun e isFault => ih _ (faults e isFault)⟩

theorem Holds.ofExcept {answer : Except E α} {s : S} (holds : post answer s) :
    Holds fault inv post (ofExcept answer) s := by
  cases answer <;> exact holds

theorem Holds.perform {effect : S → Except E α × S} {s : S} (after : inv (effect s).2)
    (answered : post (effect s).1 (effect s).2) (faulted : ∀ e, fault e → post (.error e) s) :
    Holds fault inv post (perform effect) s :=
  ⟨⟨after, .ofExcept answered⟩, fun e isFault => .ofExcept (faulted e isFault)⟩

theorem Holds.run {p : Program S E α} {s : S} (holds : Holds fault inv post p s) :
    post (p.run s).1 (p.run s).2 := by
  induction p generalizing s with
  | ret a => exact holds
  | fail e => exact holds
  | call effect next ih => exact ih _ holds.1.2

theorem run_visits (fault : E → Prop) (p : Program S E α) (s : S) :
    Visits fault (p, s) (Program.ofExcept (p.run s).1, (p.run s).2) := by
  suffices from_here : ∀ (start : Program S E α × S) (q : Program S E α) (t : S),
      Visits fault start (q, t) →
        Visits fault start (Program.ofExcept (q.run t).1, (q.run t).2) from
    from_here (p, s) p s .start
  intro start q
  induction q with
  | ret a => exact fun _ visited => visited
  | fail e => exact fun _ visited => visited
  | call effect next ih =>
      exact fun t visited => ih _ _ (visited.next (.answers effect next t))

def play : List (Option E) → Program S E α × S → Program S E α × S
  | [], now => now
  | _ :: _, (ret a, s) => (ret a, s)
  | _ :: _, (fail e, s) => (fail e, s)
  | none :: rest, (call effect next, s) => play rest (next (effect s).1, (effect s).2)
  | some e :: rest, (call _ next, s) => play rest (next (.error e), s)

theorem play_visits {start now : Program S E α × S} {faults : List (Option E)}
    (allowed : ∀ e, some e ∈ faults → fault e) (visited : Visits fault start now) :
    Visits fault start (play faults now) := by
  induction faults generalizing now with
  | nil => exact visited
  | cons first rest ih =>
      have others : ∀ e, some e ∈ rest → fault e := fun e there => allowed e (List.mem_cons_of_mem _ there)
      obtain ⟨p, s⟩ := now
      cases p with
      | ret a => exact visited
      | fail e => exact visited
      | call effect next =>
          cases first with
          | none => exact ih others (visited.next (.answers effect next s))
          | some e => exact ih others (visited.next (.faults effect next s e (allowed e (by simp))))

end Program
