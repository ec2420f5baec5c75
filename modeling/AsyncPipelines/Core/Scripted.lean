import AsyncPipelines.Core.Process

/-!
A fan-out whose `fn` is known: each call runs a script. The script says what the code of
one call can do while it has the CPU, what others can do to it meanwhile, and how it ends.
-/

namespace AsyncPipelines

open Asyncio

variable {α β κ σ ε χ act : Type}

/-- `awaits` tells where the code may give the CPU away. Code that has ended takes no step,
and nobody else changes how it ended. -/
structure Script (α β ε χ act : Type) where
  start : Nat → α → χ
  move : χ → act → Option χ
  aside : χ → act → Option χ
  awaits : χ → Bool
  outcome : χ → Option (FnEnd β ε)
  settled : ∀ x a out, outcome x = some out → move x a = none
  kept : ∀ x a y out, outcome x = some out → aside x a = some y → outcome y = some out

namespace Script

inductive Reach (p : Script α β ε χ act) (i : Nat) (item : α) : χ → Prop
  | start : Reach p i item (p.start i item)
  | move {x y : χ} {a : act} (before : Reach p i item x) (moved : p.move x a = some y) : Reach p i item y
  | aside {x y : χ} {a : act} (before : Reach p i item x) (moved : p.aside x a = some y) : Reach p i item y

def only (p : Script α β ε χ act) (allowed : χ → act → Bool) : Script α β ε χ act where
  start := p.start
  move := fun x a => if allowed x a then p.move x a else none
  aside := fun x a => if allowed x a then p.aside x a else none
  awaits := p.awaits
  outcome := p.outcome
  settled := by
    intro x a out ended
    simp [p.settled x a out ended]
  kept := by
    intro x a y out ended moved
    split at moved
    · exact p.kept x a y out ended moved
    · simp at moved

end Script

namespace Fanout

/-- A fan-out and the code of its calls, which is `none` before a call has begun. -/
structure Scripted (α β σ ε χ : Type) where
  core : State α β σ ε
  code : Nat → Option χ

inductive ScriptAct (β κ ε act : Type)
  | core (a : Act β κ ε)
  | move (i : Nat) (a : act)
  | aside (i : Nat) (a : act)
  | finish (i : Nat) (clock : κ)

namespace Scripted

def codeAfter (f : Fanout α β κ σ ε) (p : Script α β ε χ act) (w : Scripted α β σ ε χ)
    (t : State α β σ ε) (j : Nat) : Option χ :=
  if (t.child j).pc.inUser && !(w.core.child j).pc.inUser then f.items[j]?.map (p.start j)
  else w.code j

def follow (f : Fanout α β κ σ ε) (p : Script α β ε χ act) (w : Scripted α β σ ε χ) (a : Act β κ ε) :
    Option (Scripted α β σ ε χ) :=
  (f.step w.core a).map fun t => { core := t, code := w.codeAfter f p t }

def setCode (w : Scripted α β σ ε χ) (i : Nat) (x : χ) : Scripted α β σ ε χ :=
  { w with code := fun j => if j = i then some x else w.code j }

/-- A call ends as its script says, and gives the CPU away only where the script awaits. -/
def step (f : Fanout α β κ σ ε) (p : Script α β ε χ act) (w : Scripted α β σ ε χ) :
    ScriptAct β κ ε act → Option (Scripted α β σ ε χ)
  | .core (.finish _ _ _) => none
  | .core (.user (.suspend i)) =>
      if (w.code i).any p.awaits then w.follow f p (.user (.suspend i)) else none
  | .core a => w.follow f p a
  | .move i a =>
      if w.core.exit.isNone ∧ w.core.running = some i then
        ((w.code i).bind fun x => p.move x a).map (w.setCode i)
      else none
  | .aside i a =>
      if w.core.exit.isNone then ((w.code i).bind fun x => p.aside x a).map (w.setCode i) else none
  | .finish i clock =>
      match (w.code i).bind p.outcome with
      | some out => w.follow f p (.finish i out clock)
      | none => none

def init (f : Fanout α β κ σ ε) (caller : Caller) : Scripted α β σ ε χ :=
  { core := f.init caller, code := fun _ => none }

end Scripted

variable {f : Fanout α β κ σ ε} {s t : State α β σ ε} {i : Nat}

def endLog (log : List (Event α β σ ε)) : List (Nat × CallEnd β ε × Completion σ ε) :=
  log.filterMap Event.ended?

theorem endLog_called {log : List (Event α β σ ε)} {e : Event α β σ ε} (noEnd : e.ended? = none) :
    endLog (log ++ [e]) = endLog log := by
  simp [endLog, noEnd]

theorem mem_endLog {log : List (Event α β σ ε)} {call : CallEnd β ε} {completion : Completion σ ε} :
    (i, call, completion) ∈ endLog log ↔ .ended i call completion ∈ log := by
  simp only [endLog, List.mem_filterMap]
  constructor
  · rintro ⟨event, member, isEnd⟩
    cases event <;> simp only [Event.ended?, Option.some.injEq, Prod.mk.injEq, reduceCtorEq] at isEnd
    obtain ⟨rfl, rfl, rfl⟩ := isEnd
    exact member
  · exact fun member => ⟨_, member, rfl⟩

theorem enterSlot_ends (f : Fanout α β κ σ ε) (s : State α β σ ε) (i : Nat) (item : α) :
    endLog (f.enterSlot s i item).log = endLog s.log := by
  unfold enterSlot
  split
  · exact congrArg endLog (quiet_release s).log
  · exact endLog_called rfl

theorem firstStep_ends (f : Fanout α β κ σ ε) (s : State α β σ ε) (i : Nat) (item : α) :
    endLog (f.firstStep s i item).log = endLog s.log := by
  unfold firstStep
  split
  · rfl
  · split
    · exact enterSlot_ends f s i item
    · split
      · rfl
      · exact enterSlot_ends f _ i item

theorem acquired_ends (f : Fanout α β κ σ ε) (s : State α β σ ε) (i : Nat) (item : α) :
    endLog (f.acquired s i item).log = endLog s.log := by
  unfold acquired
  dsimp only
  split
  · split
    · rfl
    · exact congrArg endLog (quiet_release { s with
        toCall := s.toCall.setTask i (s.child i).task.resume
        sem := s.sem.map fun sem => { sem with waiters := sem.waiters.erase i } }).log
  · split
    · refine (enterSlot_ends f _ i item).trans ?_
      exact congrArg endLog (quiet_wakeUpNext { s with
        toCall := s.toCall.setTask i (s.child i).task.resume
        sem := s.sem.map fun sem => { sem with waiters := sem.waiters.erase i } }).log
    · exact enterSlot_ends f _ i item

theorem finish_ends (f : Fanout α β κ σ ε) (s : State α β σ ε) (i : Nat) (item : α) (cm : Option Timeout)
    (out : FnEnd β ε) (clock : κ) : ∃ call completion, call.out = out ∧
      endLog (f.finish s i item cm out clock).log = endLog s.log ++ [(i, call, completion)] := by
  refine ⟨s.callEnd i out (leaveTimeout cm (s.child i).task out), f.complete i item clock
    (s.callEnd i out (leaveTimeout cm (s.child i).task out)), rfl, ?_⟩
  have noted : endLog (s.log ++ [.ended i (s.callEnd i out (leaveTimeout cm (s.child i).task out))
      (f.complete i item clock (s.callEnd i out (leaveTimeout cm (s.child i).task out)))]) =
      endLog s.log ++ [(i, s.callEnd i out (leaveTimeout cm (s.child i).task out),
        f.complete i item clock (s.callEnd i out (leaveTimeout cm (s.child i).task out)))] := by
    simp [endLog, Event.ended?]
  unfold finish
  dsimp only
  split
  · exact (congrArg endLog (quiet_release _).log).trans noted
  · exact (congrArg endLog (quiet_release _).log).trans noted

theorem finish_pc (f : Fanout α β κ σ ε) (s : State α β σ ε) (i : Nat) (item : α) (cm : Option Timeout)
    (out : FnEnd β ε) (clock : κ) : ((f.finish s i item cm out clock).child i).pc = (s.child i).pc := by
  have left : ∀ (u : State α β σ ε) ended, (u.child i).pc = (s.child i).pc →
      ((u.release.endTask i ended).child i).pc = (s.child i).pc := by
    intro u ended same
    have released := ((quiet_release u).frame i).pc
    simp [State.endTask, Call.endTask, Call.setChild, released, same]
  have own : ((s.toCall.setTask i (leaveTimeout cm (s.child i).task out).2.2).child i).pc = (s.child i).pc := by
    rw [Call.setTask_child, if_pos rfl]
  unfold finish
  dsimp only
  split
  · exact left _ _ own
  · exact left _ _ own

theorem step_ends {a : Act β κ ε} {call : CallEnd β ε} {completion : Completion σ ε}
    (stepped : f.step s a = some t) (ended : .ended i call completion ∈ t.log) :
    .ended i call completion ∈ s.log ∨ ∃ out clock item, a = .finish i out clock ∧
      f.items[i]? = some item ∧ call.out = (f.stub item).getD out := by
  have same : endLog t.log = endLog s.log → .ended i call completion ∈ s.log := fun same =>
    mem_endLog.mp (same ▸ mem_endLog.mpr ended)
  cases a with
  | loop act =>
      simp only [Fanout.step, Option.map_eq_some_iff] at stepped
      obtain ⟨other, moved, rfl⟩ := stepped
      exact Or.inl (same (congrArg endLog (Call.loopStep_same moved).1))
  | user act =>
      simp only [Fanout.step] at stepped
      split at stepped
      · simp only [Option.map_eq_some_iff] at stepped
        obtain ⟨other, moved, rfl⟩ := stepped
        exact Or.inl (same (congrArg endLog (Call.userStep_same moved).1))
      · simp at stepped
  | run j =>
      simp only [Fanout.step] at stepped
      split at stepped
      · split at stepped
        · simp only [Option.some.injEq] at stepped
          exact Or.inl (same (stepped ▸ firstStep_ends f s j _))
        · split at stepped <;> simp only [Option.some.injEq, reduceCtorEq] at stepped
          exact Or.inl (same (stepped ▸ acquired_ends f s j _))
        · simp at stepped
      · simp at stepped
  | deadline j =>
      simp only [Fanout.step] at stepped
      split at stepped
      · split at stepped <;> simp only [Option.some.injEq, reduceCtorEq] at stepped
        exact Or.inl (same (stepped ▸ endLog_called rfl))
      · simp at stepped
  | finish j out clock =>
      simp only [Fanout.step] at stepped
      split at stepped
      · rename_i item cm found place
        split at stepped <;> simp only [Option.some.injEq, reduceCtorEq] at stepped
        obtain ⟨own, judged, isOut, ends⟩ := finish_ends f s j item cm ((f.stub item).getD out) clock
        have member := mem_endLog.mpr ended
        rw [← stepped, ends, List.mem_append, List.mem_singleton] at member
        rcases member with before | new
        · exact Or.inl (mem_endLog.mp before)
        · simp only [Prod.mk.injEq] at new
          obtain ⟨rfl, rfl, rfl⟩ := new
          exact Or.inr ⟨out, clock, item, rfl, found, isOut⟩
      · simp at stepped

theorem step_begins {a : Act β κ ε} (strict : f.Strict) (inv : Inv f s) (stepped : f.step s a = some t)
    (j : Nat) : ((s.child j).pc.inUser = true → (t.child j).pc.inUser = true) ∧
      ((t.child j).pc.inUser = true → (s.child j).pc.inUser = true ∨ ∃ item, f.items[j]? = some item) := by
  have same : (t.child j).pc = (s.child j).pc → ((s.child j).pc.inUser = true → (t.child j).pc.inUser = true) ∧
      ((t.child j).pc.inUser = true → (s.child j).pc.inUser = true ∨ ∃ item, f.items[j]? = some item) :=
    fun same => by rw [same]; exact ⟨id, Or.inl⟩
  cases a with
  | loop act =>
      simp only [Fanout.step, Option.map_eq_some_iff] at stepped
      obtain ⟨call, moved, rfl⟩ := stepped
      exact same (Frame.loopStep moved j).pc
  | user act =>
      simp only [Fanout.step] at stepped
      split at stepped
      · simp only [Option.map_eq_some_iff] at stepped
        obtain ⟨call, moved, rfl⟩ := stepped
        obtain ⟨_, _, _, _, ⟨task, child⟩, _⟩ := Call.userStep_same moved
        refine same ?_
        show (call.child j).pc = _
        rw [child, Call.setTask_child]
        split
        · rename_i here
          rw [here]
        · rfl
      · simp at stepped
  | run i =>
      have ran : ∀ item, f.items[i]? = some item → (s.child i).pc.inUser = false → Local i s t →
          ((s.child j).pc.inUser = true → (t.child j).pc.inUser = true) ∧
            ((t.child j).pc.inUser = true → (s.child j).pc.inUser = true ∨ ∃ item, f.items[j]? = some item) := by
        intro item found outside moved
        by_cases own : j = i
        · subst own
          exact ⟨fun inside => by simp [outside] at inside, fun _ => Or.inr ⟨item, found⟩⟩
        · exact same (moved.frame j own).pc
      simp only [Fanout.step] at stepped
      split at stepped
      · rename_i enabled
        split at stepped
        · rename_i item found place
          obtain ⟨ready, calm⟩ := inv.ready enabled.2.1 enabled.2.2 found (by simp [place, Pc.inUser])
          simp only [Option.some.injEq] at stepped
          exact ran item found (by simp [place, Pc.inUser]) (stepped ▸ (firstStep_stepped ready calm).rest)
        · rename_i item found place
          obtain ⟨ready, calm⟩ := inv.ready enabled.2.1 enabled.2.2 found (by simp [place, Pc.inUser])
          split at stepped <;> simp only [Option.some.injEq, reduceCtorEq] at stepped
          exact ran item found (by simp [place, Pc.inUser]) (stepped ▸ (acquired_stepped ready calm).rest)
        · simp at stepped
      · simp at stepped
  | deadline i =>
      simp only [Fanout.step] at stepped
      split at stepped
      · rename_i cm inside
        split at stepped <;> simp only [Option.some.injEq, reduceCtorEq] at stepped
        subst stepped
        by_cases own : j = i
        · subst own
          simp [Call.setChild, Call.emit, Pc.inUser, inside]
        · exact same (by simp [Call.setChild, Call.emit, own])
      · simp at stepped
  | finish i out clock =>
      simp only [Fanout.step, Option.isNone_iff_eq_none] at stepped
      split at stepped
      · rename_i item cm found inside
        split at stepped <;> simp only [Option.some.injEq, reduceCtorEq] at stepped
        rename_i enabled
        have moved := finish_stepped ((f.stub item).getD out) clock strict inv.sound inv.logged enabled.1
          enabled.2.2 found inside (inv.item i) fun own isStub => by simp [isStub]
        by_cases own : j = i
        · subst own
          refine same ?_
          rw [← stepped]
          exact finish_pc _ _ _ _ _ _ _
        · exact same (stepped ▸ (moved.rest.frame j own).pc)
      · simp at stepped

/-- Where a call runs no user code, its script ends as the stub says. -/
def StubsAgree (f : Fanout α β κ σ ε) (p : Script α β ε χ act) : Prop :=
  ∀ i item stub x out, f.items[i]? = some item → f.stub item = some stub → p.Reach i item x →
    p.outcome x = some out → stub = out

theorem StubsAgree.plain {p : Script α β ε χ act} (plain : ∀ item, f.stub item = none) :
    StubsAgree f p := by
  intro i item stub x out _ isStub
  simp [plain item] at isStub

structure Follows (f : Fanout α β κ σ ε) (p : Script α β ε χ act) (w : Scripted α β σ ε χ) : Prop where
  inv : Inv f w.core
  begun : ∀ i, (w.core.child i).pc.inUser = true ↔ (w.code i).isSome
  reach : ∀ i x, w.code i = some x → ∃ item, f.items[i]? = some item ∧ p.Reach i item x
  ended : ∀ i call completion, .ended i call completion ∈ w.core.log →
    ∃ x, w.code i = some x ∧ p.outcome x = some call.out

namespace Follows

variable {p : Script α β ε χ act} {w v : Scripted α β σ ε χ}

theorem init (f : Fanout α β κ σ ε) (p : Script α β ε χ act) (caller : Caller) :
    Follows f p (Scripted.init f caller) := by
  have fresh : ∀ j, (f.init caller).child j = { pc := .created } := by
    intro j
    simp only [Fanout.init]
    split <;> rfl
  have log : (f.init caller).log = [] := by
    simp only [Fanout.init]
    split <;> rfl
  refine ⟨Inv.init f caller, fun i => ?_, fun i x code => ?_, fun i call completion member => ?_⟩
  · simp [Scripted.init, fresh, Pc.inUser]
  · simp [Scripted.init] at code
  · simp [Scripted.init, log] at member

/-- The fan-out takes a step; where it ends a call, the script of the call has ended so. -/
theorem follow {a : Act β κ ε} (strict : f.Strict) (stubs : StubsAgree f p)
    (follows : Follows f p w) (agrees : ∀ i out clock, a = .finish i out clock →
      ∃ x, w.code i = some x ∧ p.outcome x = some out)
    (stepped : w.follow f p a = some v) : Follows f p v := by
  obtain ⟨t, moved, rfl⟩ := Option.map_eq_some_iff.mp stepped
  have begins := step_begins strict follows.inv moved
  have old : ∀ i x, w.code i = some x → w.codeAfter f p t i = some x := by
    intro i x code
    have inside := (follows.begun i).mpr (by simp [code])
    simp [Scripted.codeAfter, inside, code]
  refine ⟨follows.inv.step strict moved, fun i => ?_, fun i x code => ?_, fun i call completion member => ?_⟩
  · constructor
    · intro inside
      rcases (begins i).2 inside with before | ⟨item, found⟩
      · obtain ⟨x, code⟩ := Option.isSome_iff_exists.mp ((follows.begun i).mp before)
        simp [old i x code]
      · by_cases before : (w.core.child i).pc.inUser = true
        · obtain ⟨x, code⟩ := Option.isSome_iff_exists.mp ((follows.begun i).mp before)
          simp [old i x code]
        · simp only [Bool.not_eq_true] at before
          simp [Scripted.codeAfter, before, inside, found]
    · intro code
      simp only [Scripted.codeAfter] at code
      split at code
      · rename_i both
        simp only [Bool.and_eq_true] at both
        exact both.1
      · exact (begins i).1 ((follows.begun i).mpr code)
  · simp only [Scripted.codeAfter] at code
    split at code
    · obtain ⟨item, found, rfl⟩ := Option.map_eq_some_iff.mp code
      exact ⟨item, found, .start⟩
    · exact follows.reach i x code
  · rcases step_ends moved member with before | ⟨out, clock, item, isEnd, found, isOut⟩
    · obtain ⟨x, code, ended⟩ := follows.ended i call completion before
      exact ⟨x, old i x code, ended⟩
    · obtain ⟨x, code, ended⟩ := agrees i out clock isEnd
      obtain ⟨other, found', reach⟩ := follows.reach i x code
      obtain rfl : item = other := Option.some.inj (found.symm.trans found')
      have same : call.out = out := by
        cases isStub : f.stub item with
        | none => simpa [isStub] using isOut
        | some stub => simpa [isStub, stubs i item stub x out found isStub reach ended] using isOut
      exact ⟨x, old i x code, same ▸ ended⟩

theorem setCode (follows : Follows f p w) {x y : χ} (code : w.code i = some x)
    (reach : ∀ item, p.Reach i item x → p.Reach i item y)
    (kept : ∀ out, p.outcome x = some out → p.outcome y = some out) : Follows f p (w.setCode i y) := by
  refine ⟨follows.inv, fun j => ?_, fun j z code' => ?_, fun j call completion member => ?_⟩
  · have begun := follows.begun j
    by_cases own : j = i
    · subst own
      simpa [Scripted.setCode, code] using begun
    · simpa [Scripted.setCode, own] using begun
  · by_cases own : j = i
    · subst own
      obtain rfl : y = z := by simpa [Scripted.setCode] using code'
      obtain ⟨item, found, before⟩ := follows.reach j x code
      exact ⟨item, found, reach item before⟩
    · exact follows.reach j z (by simpa [Scripted.setCode, own] using code')
  · obtain ⟨z, code', ended⟩ := follows.ended j call completion member
    by_cases own : j = i
    · subst own
      obtain rfl : x = z := by simpa [code] using code'
      exact ⟨y, by simp [Scripted.setCode], kept _ ended⟩
    · exact ⟨z, by simpa [Scripted.setCode, own] using code', ended⟩

theorem core_follow {a : Act β κ ε} (stepped : w.step f p (.core a) = some v) :
    w.follow f p a = some v ∧ ∀ i out clock, a ≠ .finish i out clock := by
  cases a with
  | user act =>
      refine ⟨?_, by simp⟩
      cases act with
      | suspend i =>
          simp only [Scripted.step] at stepped
          split at stepped
          · exact stepped
          · simp at stepped
      | resume i => exact stepped
      | cancelSelf i => exact stepped
      | uncancelSelf i => exact stepped
  | finish i out clock => simp [Scripted.step] at stepped
  | loop act => exact ⟨stepped, by simp⟩
  | run i => exact ⟨stepped, by simp⟩
  | deadline i => exact ⟨stepped, by simp⟩

theorem step_stubs {a : ScriptAct β κ ε act} (strict : f.Strict) (stubs : StubsAgree f p)
    (follows : Follows f p w) (stepped : w.step f p a = some v) : Follows f p v := by
  cases a with
  | core a =>
      obtain ⟨moved, goesOn⟩ := core_follow stepped
      exact follows.follow strict stubs (fun i out clock isEnd => absurd isEnd (goesOn i out clock)) moved
  | move i a =>
      simp only [Scripted.step] at stepped
      split at stepped
      · obtain ⟨y, moved, rfl⟩ := Option.map_eq_some_iff.mp stepped
        obtain ⟨x, code, moved⟩ := Option.bind_eq_some_iff.mp moved
        refine follows.setCode code (fun item before => .move before moved) fun out ended => ?_
        simp [p.settled x a out ended] at moved
      · simp at stepped
  | aside i a =>
      simp only [Scripted.step] at stepped
      split at stepped
      · obtain ⟨y, moved, rfl⟩ := Option.map_eq_some_iff.mp stepped
        obtain ⟨x, code, moved⟩ := Option.bind_eq_some_iff.mp moved
        exact follows.setCode code (fun item before => .aside before moved) fun out ended =>
          p.kept x a y out ended moved
      · simp at stepped
  | finish i clock =>
      simp only [Scripted.step] at stepped
      split at stepped
      · rename_i out ended
        obtain ⟨x, code, ended⟩ := Option.bind_eq_some_iff.mp ended
        refine follows.follow strict stubs (fun j other clock' isEnd => ?_) stepped
        simp only [Act.finish.injEq] at isEnd
        obtain ⟨rfl, rfl, rfl⟩ := isEnd
        exact ⟨x, code, ended⟩
      · simp at stepped

theorem step {a : ScriptAct β κ ε act} (strict : f.Strict) (plain : ∀ item, f.stub item = none)
    (follows : Follows f p w) (stepped : w.step f p a = some v) : Follows f p v :=
  follows.step_stubs strict (.plain plain) stepped

end Follows

theorem step_code {p : Script α β ε χ act} {w v : Scripted α β σ ε χ} {a : ScriptAct β κ ε act}
    (stepped : w.step f p a = some v) {i : Nat} {x : χ} (code : v.code i = some x) :
    w.code i = some x ∨ (∃ item, f.items[i]? = some item ∧ x = p.start i item) ∨
      ∃ y b, w.code i = some y ∧ (a = .move i b ∧ p.move y b = some x ∨
        a = .aside i b ∧ p.aside y b = some x) := by
  have followed : ∀ {b : Act β κ ε}, w.follow f p b = some v → w.code i = some x ∨
      ∃ item, f.items[i]? = some item ∧ x = p.start i item := by
    intro b stepped
    obtain ⟨t, moved, rfl⟩ := Option.map_eq_some_iff.mp stepped
    simp only [Scripted.codeAfter] at code
    split at code
    · obtain ⟨item, found, rfl⟩ := Option.map_eq_some_iff.mp code
      exact Or.inr ⟨item, found, rfl⟩
    · exact Or.inl code
  have set : ∀ {j z}, v = w.setCode j z → w.code i = some x ∨ i = j ∧ z = x := by
    rintro j z rfl
    by_cases here : i = j
    · exact Or.inr ⟨here, by simpa [Scripted.setCode, here] using code⟩
    · exact Or.inl (by simpa [Scripted.setCode, here] using code)
  cases a with
  | core a => exact (followed (Follows.core_follow stepped).1).imp_right Or.inl
  | move j b =>
      simp only [Scripted.step] at stepped
      split at stepped
      · obtain ⟨z, moved, rfl⟩ := Option.map_eq_some_iff.mp stepped
        obtain ⟨y, before, made⟩ := Option.bind_eq_some_iff.mp moved
        rcases set rfl with same | ⟨rfl, rfl⟩
        · exact Or.inl same
        · exact Or.inr (Or.inr ⟨y, b, before, Or.inl ⟨rfl, made⟩⟩)
      · simp at stepped
  | aside j b =>
      simp only [Scripted.step] at stepped
      split at stepped
      · obtain ⟨z, moved, rfl⟩ := Option.map_eq_some_iff.mp stepped
        obtain ⟨y, before, edited⟩ := Option.bind_eq_some_iff.mp moved
        rcases set rfl with same | ⟨rfl, rfl⟩
        · exact Or.inl same
        · exact Or.inr (Or.inr ⟨y, b, before, Or.inr ⟨rfl, edited⟩⟩)
      · simp at stepped
  | finish j clock =>
      simp only [Scripted.step] at stepped
      split at stepped
      · exact (followed stepped).imp_right Or.inl
      · simp at stepped

theorem follows_of_reaches {p : Script α β ε χ act} {w : Scripted α β σ ε χ} {caller : Caller}
    (strict : f.Strict) (plain : ∀ item, f.stub item = none)
    (reached : Runs.Reaches (Scripted.step f p) (Scripted.init f caller) w) : Follows f p w :=
  reached.invariant (fun _ _ _ follows stepped => follows.step strict plain stepped)
    (Follows.init f p caller)

/-- The fan-out of a scripted run is one of those without a script. -/
theorem core_of_reaches {p : Script α β ε χ act} {w : Scripted α β σ ε χ} {caller : Caller}
    (reached : Runs.Reaches (Scripted.step f p) (Scripted.init f caller) w) :
    Runs.Reaches f.step (f.init caller) w.core := by
  refine reached.invariant (p := fun w => Runs.Reaches f.step (f.init caller) w.core) ?_ (Runs.Reaches.refl _)
  intro w a v before stepped
  have followed : ∀ {b : Act β κ ε}, w.follow f p b = some v → Runs.Reaches f.step (f.init caller) v.core := by
    intro b stepped
    obtain ⟨t, moved, rfl⟩ := Option.map_eq_some_iff.mp stepped
    exact before.next moved
  cases a with
  | core a => exact followed (Follows.core_follow stepped).1
  | move i a =>
      simp only [Scripted.step] at stepped
      split at stepped
      · obtain ⟨y, _, rfl⟩ := Option.map_eq_some_iff.mp stepped
        exact before
      · simp at stepped
  | aside i a =>
      simp only [Scripted.step] at stepped
      split at stepped
      · obtain ⟨y, _, rfl⟩ := Option.map_eq_some_iff.mp stepped
        exact before
      · simp at stepped
  | finish i clock =>
      simp only [Scripted.step] at stepped
      split at stepped
      · exact followed stepped
      · simp at stepped

end Fanout

/-- A list that `process` returns has what the script of each call returned. -/
theorem process_scripted {p : Script α β ε χ act} {items : List α} {concurrency : Nat} {caller : Caller}
    {w : Fanout.Scripted α β (Slot β ε) ε χ} {results : List (Option (Slot β ε))}
    (reached : Runs.Reaches (Fanout.Scripted.step (process items concurrency none false) p)
      (Fanout.Scripted.init (process items concurrency none false) caller) w)
    (returned : Fanout.returned w.core = some results) :
    results.length = items.length ∧ ∀ i item, items[i]? = some item → ∃ x value,
      w.code i = some x ∧ p.Reach i item x ∧ p.outcome x = some (.returned value) ∧
      results[i]? = some (some (.value value)) := by
  have strict := process_strict (β := β) (ε := ε) items concurrency none false
  have follows := Fanout.follows_of_reaches strict (fun _ => rfl) reached
  obtain ⟨length, complete, _⟩ := process_complete items concurrency none false caller w.core results
    (Fanout.core_of_reaches reached) returned
  refine ⟨length, fun i item found => ?_⟩
  obtain ⟨call, slot, record, kept, outcome⟩ := complete i item found
  have ended : .ended i call (.stored slot) ∈ w.core.log := (mem_history.mp (by rw [record]; simp)).1
  obtain ⟨x, code, isOut⟩ := follows.ended i call _ ended
  obtain ⟨other, same, reach⟩ := follows.reach i x code
  have same : items[i]? = some other := same
  obtain rfl : item = other := by simpa [found] using same
  cases outcome with
  | value value out => exact ⟨x, value, code, reach, out ▸ isOut, kept⟩
  | exception _ _ collects => simp at collects
  | deadline _ _ collects => simp at collects
  | stray collects => simp at collects

end AsyncPipelines
