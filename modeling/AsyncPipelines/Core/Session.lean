import AsyncPipelines.Core.GroupCount

/-!
A task that makes one pipeline call after another on 3.11 and 3.12 and handles their
failures, with the cancel requests that others make on it and withdraw, and the call of
`_rearm_pending_cancel` that each failure queues.
-/

namespace AsyncPipelines

open Asyncio

variable {ε : Type}

/-- What has become of a request that nobody has withdrawn: it is to be delivered, an open
group has caught it, a group that raised its errors has swallowed it, or it was delivered to
the caller or is lost. -/
inductive Fate
  | live
  | caught
  | swallowed
  | past
  deriving DecidableEq, Repr

/-- `_entry_cancelling` and `_entry_probe`, with how many requests had been made and withdrawn
by then. -/
structure Entry where
  cancelling : Nat
  probe : CancelProbe
  made : Nat
  withdrawn : Nat
  deriving DecidableEq, Repr

/-- A `_TaskGroup` in the wait of its `__aexit__`. -/
structure OpenCall (ε : Type) where
  group : TaskGroup ε
  entry : Entry

/-- `requests` are those that nobody has withdrawn, by name, and `leaked` counts those of groups
that left without undoing theirs. `rearm` is the queued call of `_rearm_pending_cancel`. -/
structure Session (ε : Type) where
  caller : Caller := { task := {} }
  ended : Bool := false
  call : Option (OpenCall ε) := none
  rearm : Option Entry := none
  requests : List (Nat × Fate) := []
  leaked : Nat := 0
  made : Nat := 0
  withdrawn : Nat := 0

namespace Session

def task (s : Session ε) : Task := s.caller.task

def setTask (s : Session ε) (task : Task) : Session ε := { s with caller := { s.caller with task := task } }

def recast (old new : Fate) (requests : List (Nat × Fate)) : List (Nat × Fate) :=
  requests.map fun r => if r.2 = old then (r.1, new) else r

def entry (s : Session ε) : Entry where
  cancelling := s.task.cancelling
  probe := CancelProbe.enter s.caller
  made := s.made
  withdrawn := s.withdrawn

def enter (s : Session ε) (tasks : Nat) : Session ε :=
  { s.setTask s.task.await with call := some { group := { tasks := List.range tasks }, entry := s.entry } }

/-- `cancel` and `uncancel` are calls on the task by the owner of the named request, `enter` is
a pipeline call that has created its tasks and waits, `spawn` is a task that one of these
creates, and `suspend`, `fulfil` and `resume` are the caller's own awaits. -/
inductive Act (ε : Type)
  | cancel (name : Nat)
  | uncancel (name : Nat)
  | enter (tasks : Nat)
  | spawn (i : Nat)
  | taskDone (i : Nat) (ended : TaskEnd ε)
  | wake
  | suspend
  | fulfil
  | resume
  | finish
  | rearm

def Act.resumes : Act ε → Bool
  | wake | resume => true
  | _ => false

def cancel (s : Session ε) (name : Nat) : Session ε :=
  { s.setTask s.task.cancel with requests := (name, .live) :: s.requests, made := s.made + 1 }

def uncancel (s : Session ε) (name : Nat) : Session ε :=
  { s.setTask s.task.uncancel with
    requests := s.requests.eraseP fun r => r.1 = name
    withdrawn := s.withdrawn + 1 }

def spawn (s : Session ε) (c : OpenCall ε) (i : Nat) : Session ε :=
  { s with call := some { c with group := { c.group with tasks := c.group.tasks ++ [i] } } }

def taskDone (isBase : ε → Bool) (s : Session ε) (c : OpenCall ε) (i : Nat) (ended : TaskEnd ε) :
    Session ε :=
  let next := c.group.taskDone isBase s.task i ended
  { s.setTask next.2 with call := some { c with group := next.1 } }

/-- The caller is woken in `__aexit__`. Its body made no request, so what the group requested
it requested while it waited. -/
def wake (s : Session ε) (c : OpenCall ε) : Session ε :=
  let next := c.group.wake s.task
  let requests := if s.task.throws then recast .live .caught s.requests else s.requests
  match next.2.2 with
  | none => { s.setTask next.2.1 with call := some { c with group := next.1 }, requests := requests }
  | some (.group _) =>
      { s.setTask (undoOwnRequest next.1 false next.2.1) with
        call := none
        rearm := some c.entry
        requests := recast .caught .swallowed requests }
  | some _ =>
      { s.setTask next.2.1 with
        call := none
        requests := recast .caught .past requests
        leaked := s.leaked + if next.1.parentCancelRequested then 1 else 0 }

def resume (s : Session ε) : Session ε :=
  { s.setTask s.task.resume with
    requests := if s.task.throws then recast .live .past s.requests else s.requests }

/-- The queued call of `_rearm_pending_cancel` runs. If a `CancelledError` is on its way to the
caller then, it stands for all that the group swallowed. -/
def runRearm (s : Session ε) (e : Entry) : Session ε :=
  let caller := rearmPendingCancel s.caller s.ended e.cancelling e.probe
  { s with
    caller := caller
    rearm := none
    requests := recast .swallowed (if caller.task.throws then .live else .past) s.requests }

/-- The loop runs what is queued in order. The call of `_rearm_pending_cancel` was queued before
the caller suspended again and before the tasks of its next call were created, so neither
these nor the caller go on before it. -/
def step (isBase : ε → Bool) (s : Session ε) : Act ε → Option (Session ε)
  | .cancel name =>
      if s.ended = false ∧ name ∉ s.requests.map Prod.fst then some (s.cancel name) else none
  | .uncancel name =>
      if s.ended = false ∧ name ∈ s.requests.map Prod.fst then some (s.uncancel name) else none
  | .enter tasks =>
      if s.ended = false ∧ s.call.isNone ∧ s.task.waiter = none ∧ 0 < tasks then some (s.enter tasks)
      else none
  | .spawn i =>
      match s.call with
      | some c =>
          if s.rearm.isNone ∧ i ∉ c.group.tasks ∧ c.group.aborting = false ∧ c.group.tasks ≠ [] then
            some (s.spawn c i)
          else none
      | none => none
  | .taskDone i ended =>
      match s.call with
      | some c =>
          if s.rearm.isNone ∧ i ∈ c.group.tasks then some (s.taskDone isBase c i ended) else none
      | none => none
  | .wake =>
      match s.call with
      | some c => if s.rearm.isNone ∧ s.task.woken then some (s.wake c) else none
      | none => none
  | .suspend =>
      if s.ended = false ∧ s.call.isNone ∧ s.task.waiter = none then some (s.setTask s.task.await) else none
  | .fulfil =>
      if s.call.isNone ∧ s.task.waiter = some .pending then some (s.setTask s.task.fulfil) else none
  | .resume =>
      if s.rearm.isNone ∧ s.call.isNone ∧ s.task.woken then some s.resume else none
  | .finish =>
      if s.ended = false ∧ s.call.isNone ∧ s.task.waiter = none then some { s with ended := true } else none
  | .rearm =>
      match s.rearm with
      | some e => if s.task.waiter ≠ none ∨ s.ended then some (s.runRearm e) else none
      | none => none

/-- A request that a group swallowed is still outstanding. -/
def Swallowed (s : Session ε) : Prop := ∃ r ∈ s.requests, r.2 = .swallowed

instance (s : Session ε) : Decidable s.Swallowed :=
  inferInstanceAs (Decidable (∃ r ∈ s.requests, r.2 = .swallowed))

/-- What is asked of the queued call: where a swallowed request is outstanding, the caller's
next await raises, whatever comes before it; where there is none, nothing is injected. -/
def Kept (isBase : ε → Bool) (s : Session ε) (e : Entry) : Prop :=
  (s.Swallowed → s.ended = false → ∀ more t, Runs.run (step isBase) (s.runRearm e) more = some t →
    (∀ a ∈ more, a.resumes = false) → t.task.throws = true) ∧
  (¬ s.Swallowed → (s.runRearm e).task.throws = s.task.throws ∧
    (s.runRearm e).task.cancelling = s.task.cancelling)

def Keeps (isBase : ε → Bool) (s : Session ε) (a : Act ε) : Prop :=
  match a with
  | .rearm => ∀ e, s.rearm = some e → s.Kept isBase e
  | _ => True

/-- Fewer requests were withdrawn since the entry than were made, one that was brought in live
counted with these. -/
def Owes (s : Session ε) (e : Entry) : Prop :=
  s.withdrawn + e.made < s.made + e.withdrawn + if e.probe.broughtInALiveCancel s.caller then 1 else 0

instance (s : Session ε) (e : Entry) : Decidable (s.Owes e) := inferInstanceAs (Decidable (_ < _))

/-- The tally of requests tells whether a swallowed one is outstanding, unless the caller has
ended or a `CancelledError` is on its way to it in any case. -/
def Tallied (s : Session ε) (e : Entry) : Prop :=
  s.ended = true ∨
    (s.Owes e → s.Swallowed ∨ s.task.throws = true ∧ 0 < s.task.cancelling) ∧
      (¬ s.Owes e → s.Swallowed → s.task.throws = true)

def Meets (s : Session ε) (a : Act ε) : Prop :=
  match a with
  | .rearm => ∀ e, s.rearm = some e → s.Tallied e
  | _ => True

instance (s : Session ε) (e : Entry) : Decidable (s.Tallied e) := inferInstanceAs (Decidable (_ ∨ _))

instance (s : Session ε) (a : Act ε) : Decidable (s.Meets a) :=
  match a with
  | .rearm =>
      match queued : s.rearm with
      | none => isTrue (by simp [Meets, queued])
      | some e => decidable_of_iff (s.Tallied e) (by simp [Meets, queued])
  | .cancel _ | .uncancel _ | .enter _ | .spawn _ | .taskDone _ _ | .wake | .suspend | .fulfil
  | .resume | .finish => isTrue trivial

structure Begins (s : Session ε) : Prop where
  call : s.call = none
  rearm : s.rearm = none
  counted : s.task.cancelling = s.leaked + s.requests.length

def own (s : Session ε) : Nat :=
  match s.call with
  | some c => if c.group.parentCancelRequested then 1 else 0
  | none => 0

structure Counted (s : Session ε) : Prop where
  counted : s.task.cancelling = s.leaked + s.requests.length + s.own
  open_ : ∀ c, s.call = some c → s.task.cancelling + s.withdrawn + c.entry.made =
    c.entry.cancelling + s.made + c.entry.withdrawn + s.own
  queued : ∀ e, s.rearm = some e → s.own = 0 ∧
    s.task.cancelling + s.withdrawn + e.made = e.cancelling + s.made + e.withdrawn

section

variable {s t : Session ε} {e : Entry} {isBase : ε → Bool}

@[simp] theorem length_recast (old new : Fate) (requests : List (Nat × Fate)) :
    (recast old new requests).length = requests.length := by
  simp [recast]

/-- The comparison in `_rearm_pending_cancel` is that of the tallies. -/
theorem Counted.rearms (counted : Counted s) (queued : s.rearm = some e) :
    rearmPendingCancel s.caller s.ended e.cancelling e.probe =
      if s.ended = false ∧ s.Owes e then
        { task := s.task.uncancel.cancel, rearms := s.caller.rearms + 1 }
      else s.caller := by
  obtain ⟨_, tally⟩ := counted.queued e queued
  have compared : ((if e.probe.broughtInALiveCancel s.caller then (e.cancelling : Int) - 1
      else e.cancelling) < s.task.cancelling) ↔ s.Owes e := by
    unfold Owes
    cases e.probe.broughtInALiveCancel s.caller <;> simp only [Bool.false_eq_true, ↓reduceIte] <;> omega
  have same : (!s.ended && decide ((if e.probe.broughtInALiveCancel s.caller then (e.cancelling : Int) - 1
      else e.cancelling) < s.caller.task.cancelling)) = true ↔ s.ended = false ∧ s.Owes e := by
    rw [← compared]
    simp [task]
  unfold rearmPendingCancel
  simp only [same]
  rfl

theorem Swallowed.outstanding (swallowed : s.Swallowed) : 0 < s.requests.length := by
  obtain ⟨r, listed, _⟩ := swallowed
  exact List.length_pos_of_mem listed

theorem uncancel_cancel_count {task : Task} (positive : 0 < task.cancelling) :
    task.uncancel.cancel.cancelling = task.cancelling := by
  rw [Task.cancel_cancelling]
  have counted : task.uncancel.cancelling = task.cancelling - 1 := rfl
  omega

theorem Counted.rearm_count (counted : Counted s) (queued : s.rearm = some e) (tallied : s.Tallied e) :
    (s.runRearm e).task.cancelling = s.task.cancelling := by
  have count := counted.counted
  unfold runRearm task
  simp only [counted.rearms queued]
  split
  · rename_i fires
    apply uncancel_cancel_count
    rcases tallied with ended | ⟨owed, _⟩
    · rw [fires.1] at ended
      cases ended
    · rcases owed fires.2 with swallowed | ⟨_, positive⟩
      · have outstanding := swallowed.outstanding
        omega
      · exact positive
  · rfl

theorem Counted.start (begins : s.Begins) : Counted s where
  counted := by
    have counted := begins.counted
    simp [own, begins.call, counted]
  open_ c open_ := by
    rw [begins.call] at open_
    cases open_
  queued e queued := by
    rw [begins.rearm] at queued
    cases queued

theorem Counted.cancel (counted : Counted s) (name : Nat) : Counted (s.cancel name) := by
  have grown : (s.cancel name).task.cancelling = s.task.cancelling + 1 := Task.cancel_cancelling _
  have same : (s.cancel name).own = s.own := rfl
  have longer : (s.cancel name).requests.length = s.requests.length + 1 := rfl
  have made : (s.cancel name).made = s.made + 1 := rfl
  have kept : (s.cancel name).withdrawn = s.withdrawn := rfl
  refine ⟨?_, fun c open_ => ?_, fun e queued => ?_⟩
  · have count := counted.counted
    have leaks : (s.cancel name).leaked = s.leaked := rfl
    omega
  · have tally := counted.open_ c open_
    omega
  · have tally := counted.queued e queued
    omega

theorem Counted.uncancel (counted : Counted s) {name : Nat} (listed : name ∈ s.requests.map Prod.fst) :
    Counted (s.uncancel name) := by
  obtain ⟨r, isIn, named⟩ := List.mem_map.mp listed
  have shorter : (s.uncancel name).requests.length = s.requests.length - 1 :=
    List.length_eraseP_of_mem isIn (by simpa using named)
  have some_left := List.length_pos_of_mem isIn
  have count := counted.counted
  have fewer : (s.uncancel name).task.cancelling = s.task.cancelling - 1 := rfl
  have same : (s.uncancel name).own = s.own := rfl
  have made : (s.uncancel name).made = s.made := rfl
  have kept : (s.uncancel name).withdrawn = s.withdrawn + 1 := rfl
  refine ⟨?_, fun c open_ => ?_, fun e queued => ?_⟩
  · have leaks : (s.uncancel name).leaked = s.leaked := rfl
    omega
  · have tally := counted.open_ c open_
    omega
  · have tally := counted.queued e queued
    omega

theorem Counted.enter (counted : Counted s) (outside : s.call = none) (tasks : Nat) :
    Counted (s.enter tasks) := by
  have count := counted.counted
  have none : s.own = 0 := by simp [own, outside]
  have fresh : (s.enter tasks).own = 0 := rfl
  have same : (s.enter tasks).task.cancelling = s.task.cancelling := Task.await_cancelling _
  refine ⟨?_, fun c open_ => ?_, fun e queued => ?_⟩
  · have leaks : (s.enter tasks).leaked = s.leaked := rfl
    have requests : (s.enter tasks).requests = s.requests := rfl
    rw [requests]
    omega
  · cases open_
    rw [same, fresh]
    change s.task.cancelling + s.withdrawn + s.made = s.task.cancelling + s.made + s.withdrawn + 0
    omega
  · obtain ⟨_, tally⟩ := counted.queued e queued
    exact ⟨fresh, by rw [same]; exact tally⟩

theorem Counted.of_same (counted : Counted s) (task : t.task.cancelling = s.task.cancelling)
    (call : t.call = s.call) (rearm : t.rearm = s.rearm) (requests : t.requests.length = s.requests.length)
    (leaked : t.leaked = s.leaked) (made : t.made = s.made) (withdrawn : t.withdrawn = s.withdrawn) :
    Counted t := by
  have own : t.own = s.own := by simp only [Session.own, call]
  refine ⟨?_, fun c open_ => ?_, fun e queued => ?_⟩
  · rw [task, own, requests, leaked]
    exact counted.counted
  · rw [task, own, made, withdrawn]
    exact counted.open_ c (call ▸ open_)
  · rw [task, own, made, withdrawn]
    exact counted.queued e (rearm ▸ queued)

theorem Counted.spawn (counted : Counted s) {c : OpenCall ε} (open_ : s.call = some c)
    (none : s.rearm = none) (i : Nat) : Counted (s.spawn c i) := by
  have same : (s.spawn c i).own = s.own := by
    simp only [Session.spawn, own, open_]
  refine ⟨?_, fun c' open' => ?_, fun e queued => ?_⟩
  · rw [same]
    exact counted.counted
  · cases open'
    rw [same]
    exact counted.open_ c open_
  · have queued : s.rearm = some e := queued
    rw [none] at queued
    cases queued

theorem Counted.taskDone (counted : Counted s) {c : OpenCall ε} (open_ : s.call = some c)
    (none : s.rearm = none) (i : Nat) (ended : TaskEnd ε) : Counted (s.taskDone isBase c i ended) := by
  have count := counted.counted
  have tally := counted.open_ c open_
  have before : s.own = if c.group.parentCancelRequested then 1 else 0 := by simp [own, open_]
  have after : (s.taskDone isBase c i ended).own =
      if (c.group.taskDone isBase s.task i ended).1.parentCancelRequested then 1 else 0 := rfl
  have now : (s.taskDone isBase c i ended).task = (c.group.taskDone isBase s.task i ended).2 := rfl
  have grown : (s.taskDone isBase c i ended).task.cancelling + s.own =
      s.task.cancelling + (s.taskDone isBase c i ended).own := by
    rcases OpenGroup.taskDone_count isBase c.group s.task i ended with ⟨same, kept⟩ | ⟨first, asks, grown⟩
    · rw [now, kept, before, after, same]
    · rw [now, grown, before, after, first, asks]
      simp
  refine ⟨?_, fun c' open' => ?_, fun e queued => ?_⟩
  · have requests : (s.taskDone isBase c i ended).requests = s.requests := rfl
    have leaked : (s.taskDone isBase c i ended).leaked = s.leaked := rfl
    rw [requests, leaked]
    omega
  · cases open'
    have made : (s.taskDone isBase c i ended).made = s.made := rfl
    have withdrawn : (s.taskDone isBase c i ended).withdrawn = s.withdrawn := rfl
    rw [made, withdrawn]
    simp only
    omega
  · have queued : s.rearm = some e := queued
    rw [none] at queued
    cases queued

theorem wake_count (g : TaskGroup ε) (parent : Task) :
    (g.wake parent).1.parentCancelRequested = g.parentCancelRequested ∧
      (g.wake parent).2.1.cancelling = parent.cancelling := by
  have same : (g.caught parent.throws).parentCancelRequested = g.parentCancelRequested := by
    unfold TaskGroup.caught
    split <;> rfl
  unfold TaskGroup.wake
  dsimp only
  split
  · exact ⟨same, rfl⟩
  · exact ⟨same, Task.await_cancelling _⟩

theorem Counted.wake (counted : Counted s) {c : OpenCall ε} (open_ : s.call = some c)
    (none : s.rearm = none) : Counted (s.wake c) := by
  have count := counted.counted
  have tally := counted.open_ c open_
  have before : s.own = if c.group.parentCancelRequested then 1 else 0 := by simp [own, open_]
  obtain ⟨requested, kept⟩ := wake_count c.group s.task
  have listed : (if s.task.throws then recast .live .caught s.requests else s.requests).length =
      s.requests.length := by
    split
    · exact length_recast _ _ _
    · rfl
  generalize asked : (if s.task.throws then recast .live .caught s.requests else s.requests) = requests at listed
  have ends : ∀ (u : Session ε), u.rearm = s.rearm → ∀ e, u.rearm = some e →
      u.own = 0 ∧ u.task.cancelling + u.withdrawn + e.made = e.cancelling + u.made + e.withdrawn := by
    intro u same e queued
    rw [same, none] at queued
    cases queued
  unfold Session.wake
  simp only [asked]
  split
  · refine ⟨?_, fun c' open' => ?_, ends _ rfl⟩
    · change (c.group.wake s.task).2.1.cancelling = s.leaked + requests.length +
        if (c.group.wake s.task).1.parentCancelRequested then 1 else 0
      rw [kept, listed, requested, ← before]
      exact count
    · cases open'
      change (c.group.wake s.task).2.1.cancelling + s.withdrawn + c.entry.made =
        c.entry.cancelling + s.made + c.entry.withdrawn +
          if (c.group.wake s.task).1.parentCancelRequested then 1 else 0
      rw [kept, requested, ← before]
      exact tally
  · have undone : (undoOwnRequest (c.group.wake s.task).1 false (c.group.wake s.task).2.1).cancelling + s.own =
        s.task.cancelling := by
      unfold undoOwnRequest
      rw [requested, before]
      cases own_ : c.group.parentCancelRequested with
      | false => simpa using kept
      | true =>
          simp only [own_, ↓reduceIte] at before
          have fewer : (c.group.wake s.task).2.1.uncancel.cancelling =
              (c.group.wake s.task).2.1.cancelling - 1 := rfl
          simp only [Bool.not_false, Bool.and_self, ↓reduceIte]
          omega
    refine ⟨?_, (fun c' open' => by cases open'), fun e queued => ?_⟩
    · change (undoOwnRequest (c.group.wake s.task).1 false (c.group.wake s.task).2.1).cancelling =
        s.leaked + (recast .caught .swallowed requests).length + 0
      rw [length_recast]
      omega
    · cases queued
      refine ⟨rfl, ?_⟩
      change (undoOwnRequest (c.group.wake s.task).1 false (c.group.wake s.task).2.1).cancelling +
        s.withdrawn + c.entry.made = c.entry.cancelling + s.made + c.entry.withdrawn
      omega
  · refine ⟨?_, (fun c' open' => by cases open'), ends _ rfl⟩
    change (c.group.wake s.task).2.1.cancelling =
      s.leaked + (if (c.group.wake s.task).1.parentCancelRequested then 1 else 0) +
        (recast .caught .past requests).length + 0
    rw [length_recast, kept, requested, ← before]
    omega

theorem Counted.runRearm (counted : Counted s) (queued : s.rearm = some e) (tallied : s.Tallied e) :
    Counted (s.runRearm e) := by
  have same := counted.rearm_count queued tallied
  have call : (s.runRearm e).own = s.own := rfl
  refine ⟨?_, fun c open_ => ?_, (fun e' queued' => by cases queued')⟩
  · have requests : (s.runRearm e).requests.length = s.requests.length := length_recast _ _ _
    rw [same, call, requests]
    exact counted.counted
  · rw [same, call]
    exact counted.open_ c open_

theorem Counted.step {a : Act ε} (meets : s.Meets a) (counted : Counted s)
    (stepped : Session.step isBase s a = some t) : Counted t := by
  cases a with
  | cancel name =>
      simp only [Session.step, Option.ite_none_right_eq_some, Option.some.injEq] at stepped
      obtain ⟨_, rfl⟩ := stepped
      exact counted.cancel name
  | uncancel name =>
      simp only [Session.step, Option.ite_none_right_eq_some, Option.some.injEq] at stepped
      obtain ⟨⟨_, listed⟩, rfl⟩ := stepped
      exact counted.uncancel listed
  | enter tasks =>
      simp only [Session.step, Option.ite_none_right_eq_some, Option.some.injEq] at stepped
      obtain ⟨⟨_, outside, _, _⟩, rfl⟩ := stepped
      exact counted.enter (by simpa using outside) tasks
  | spawn i =>
      simp only [Session.step] at stepped
      split at stepped
      · rename_i c open_
        simp only [Option.ite_none_right_eq_some, Option.some.injEq] at stepped
        obtain ⟨⟨none, _⟩, rfl⟩ := stepped
        exact counted.spawn open_ (by simpa using none) i
      · cases stepped
  | taskDone i ended =>
      simp only [Session.step] at stepped
      split at stepped
      · rename_i c open_
        simp only [Option.ite_none_right_eq_some, Option.some.injEq] at stepped
        obtain ⟨⟨none, _⟩, rfl⟩ := stepped
        exact counted.taskDone open_ (by simpa using none) i ended
      · cases stepped
  | wake =>
      simp only [Session.step] at stepped
      split at stepped
      · rename_i c open_
        simp only [Option.ite_none_right_eq_some, Option.some.injEq] at stepped
        obtain ⟨⟨none, _⟩, rfl⟩ := stepped
        exact counted.wake open_ (by simpa using none)
      · cases stepped
  | suspend =>
      simp only [Session.step, Option.ite_none_right_eq_some, Option.some.injEq] at stepped
      obtain ⟨_, rfl⟩ := stepped
      exact counted.of_same (Task.await_cancelling _) rfl rfl rfl rfl rfl rfl
  | fulfil =>
      simp only [Session.step, Option.ite_none_right_eq_some, Option.some.injEq] at stepped
      obtain ⟨_, rfl⟩ := stepped
      exact counted.of_same rfl rfl rfl rfl rfl rfl rfl
  | resume =>
      simp only [Session.step, Option.ite_none_right_eq_some, Option.some.injEq] at stepped
      obtain ⟨_, rfl⟩ := stepped
      refine counted.of_same rfl rfl rfl ?_ rfl rfl rfl
      unfold Session.resume
      dsimp only
      split
      · exact length_recast _ _ _
      · rfl
  | finish =>
      simp only [Session.step, Option.ite_none_right_eq_some, Option.some.injEq] at stepped
      obtain ⟨_, rfl⟩ := stepped
      exact counted.of_same rfl rfl rfl rfl rfl rfl rfl
  | rearm =>
      simp only [Session.step] at stepped
      split at stepped
      · rename_i e queued
        simp only [Option.ite_none_right_eq_some, Option.some.injEq] at stepped
        obtain ⟨_, rfl⟩ := stepped
        exact counted.runRearm queued (meets e queued)
      · cases stepped

theorem throws_fulfil {task : Task} (throws : task.throws = true) : task.waiter ≠ some .pending := by
  intro waits
  have none := task.settled waits
  simp [Task.throws, waits, none] at throws

theorem throws_await {task : Task} (throws : task.throws = true) (runs : task.waiter = none) :
    task.await.throws = true := by
  rw [Task.await_throws]
  simpa [Task.throws, runs] using throws

theorem taskDone_throws {g : TaskGroup ε} {parent : Task} (throws : parent.throws = true) (i : Nat)
    (ended : TaskEnd ε) : (g.taskDone isBase parent i ended).2.throws = true := by
  have waits := throws_fulfil throws
  unfold TaskGroup.taskDone
  simp only [waits, and_false, ↓reduceIte]
  cases ended with
  | returned => exact throws
  | cancelled => exact throws
  | raised error =>
      dsimp only
      split
      · exact throws
      · exact Task.cancel_throws _

theorem step_throws {a : Act ε} (throws : s.task.throws = true) (waits : a.resumes = false)
    (stepped : Session.step isBase s a = some t) : t.task.throws = true := by
  cases a with
  | wake => cases waits
  | resume => cases waits
  | cancel name =>
      simp only [Session.step, Option.ite_none_right_eq_some, Option.some.injEq] at stepped
      obtain ⟨_, rfl⟩ := stepped
      exact Task.cancel_throws _
  | uncancel name =>
      simp only [Session.step, Option.ite_none_right_eq_some, Option.some.injEq] at stepped
      obtain ⟨_, rfl⟩ := stepped
      exact throws
  | enter tasks =>
      simp only [Session.step, Option.ite_none_right_eq_some, Option.some.injEq] at stepped
      obtain ⟨⟨_, _, runs, _⟩, rfl⟩ := stepped
      exact throws_await throws runs
  | spawn i =>
      simp only [Session.step] at stepped
      split at stepped
      · simp only [Option.ite_none_right_eq_some, Option.some.injEq] at stepped
        obtain ⟨_, rfl⟩ := stepped
        exact throws
      · cases stepped
  | taskDone i ended =>
      simp only [Session.step] at stepped
      split at stepped
      · simp only [Option.ite_none_right_eq_some, Option.some.injEq] at stepped
        obtain ⟨_, rfl⟩ := stepped
        exact taskDone_throws throws i ended
      · cases stepped
  | suspend =>
      simp only [Session.step, Option.ite_none_right_eq_some, Option.some.injEq] at stepped
      obtain ⟨⟨_, _, runs⟩, rfl⟩ := stepped
      exact throws_await throws runs
  | fulfil =>
      simp only [Session.step, Option.ite_none_right_eq_some, Option.some.injEq] at stepped
      obtain ⟨⟨_, pending⟩, _⟩ := stepped
      exact absurd pending (throws_fulfil throws)
  | finish =>
      simp only [Session.step, Option.ite_none_right_eq_some, Option.some.injEq] at stepped
      obtain ⟨_, rfl⟩ := stepped
      exact throws
  | rearm =>
      simp only [Session.step] at stepped
      split at stepped
      · rename_i e _
        simp only [Option.ite_none_right_eq_some, Option.some.injEq] at stepped
        obtain ⟨_, rfl⟩ := stepped
        rcases rearm_cases s.caller s.ended e.cancelling e.probe with same | fires
        · exact (congrArg (fun c : Caller => c.task.throws) same).trans throws
        · exact (congrArg (fun c : Caller => c.task.throws) fires).trans (Task.cancel_throws _)
      · cases stepped

theorem run_throws {more : List (Act ε)} (throws : s.task.throws = true)
    (waits : ∀ a ∈ more, a.resumes = false) (ran : Runs.run (Session.step isBase) s more = some t) :
    t.task.throws = true :=
  Runs.run_invariant_within (p := fun s => s.task.throws = true)
    (fun _ _ _ waits throws stepped => step_throws throws waits stepped) waits throws ran

theorem Counted.rearm_throws (counted : Counted s) (queued : s.rearm = some e) :
    (s.runRearm e).task.throws = true ↔ s.task.throws = true ∨ s.ended = false ∧ s.Owes e := by
  unfold Session.runRearm Session.task
  simp only [counted.rearms queued]
  by_cases fires : s.ended = false ∧ s.Owes e
  · simp [fires]
  · simp only [fires, ↓reduceIte, or_false]

/-- A queued call keeps what is asked of it where the tally tells, and nowhere else. -/
theorem Counted.kept_iff (counted : Counted s) (queued : s.rearm = some e) :
    s.Kept isBase e ↔ s.Tallied e := by
  have throws := counted.rearm_throws queued
  constructor
  · intro kept
    by_cases ended : s.ended = true
    · exact .inl ended
    · have going : s.ended = false := by simpa using ended
      refine .inr ⟨fun owed => ?_, fun settled swallowed => ?_⟩
      · by_cases swallowed : s.Swallowed
        · exact .inl swallowed
        · obtain ⟨same, count⟩ := kept.2 swallowed
          refine .inr ⟨by rw [← same]; exact throws.mpr (.inr ⟨going, owed⟩), ?_⟩
          rw [← count]
          unfold Session.runRearm Session.task
          simp only [counted.rearms queued, if_pos (And.intro going owed), Task.cancel_cancelling]
          omega
      · have raises := kept.1 swallowed going [] _ rfl (by simp)
        rcases throws.mp raises with before | ⟨_, owed⟩
        · exact before
        · exact absurd owed settled
  · intro tallied
    refine ⟨fun swallowed going more t ran waits => ?_, fun none => ⟨?_, counted.rearm_count queued tallied⟩⟩
    · refine run_throws (throws.mpr ?_) waits ran
      rcases tallied with ended | ⟨_, settled⟩
      · rw [going] at ended
        cases ended
      · by_cases owed : s.Owes e
        · exact .inr ⟨going, owed⟩
        · exact .inl (settled owed swallowed)
    · rw [Bool.eq_iff_iff, throws]
      refine ⟨fun either => ?_, .inl⟩
      rcases either with before | ⟨going, owed⟩
      · exact before
      · rcases tallied with ended | ⟨owes, _⟩
        · rw [going] at ended
          cases ended
        · rcases owes owed with swallowed | ⟨before, _⟩
          · exact absurd swallowed none
          · exact before

end

/-- In every run, each queued call that runs keeps what is asked of it exactly if each one runs
where the tally tells. -/
theorem cancel_kept (isBase : ε → Bool) (start : Session ε) (begins : start.Begins)
    (acts : List (Act ε)) :
    Runs.AlongSteps (step isBase) (Keeps isBase) start acts ↔
      Runs.AlongSteps (step isBase) Meets start acts := by
  have kept : ∀ s a t, Meets s a → Counted s → step isBase s a = some t → Counted t :=
    fun s a t meets counted stepped => counted.step meets stepped
  have same : ∀ s a, Counted s → (Keeps isBase s a ↔ Meets s a) := by
    intro s a counted
    cases a with
    | rearm =>
        constructor
        · exact fun keeps e queued => (counted.kept_iff queued).mp (keeps e queued)
        · exact fun meets e queued => (counted.kept_iff queued).mpr (meets e queued)
    | _ => exact Iff.rfl
  constructor
  · exact fun along => along.imp (fun s a t counted _ => (same s a counted).mp)
      (fun s a t keeps counted => kept s a t ((same s a counted).mp keeps) counted) (.start begins)
  · exact fun along => along.imp (fun s a t counted _ => (same s a counted).mpr) kept (.start begins)

def cancelledInTeardown : List (Act Unit) :=
  [.enter 2, .taskDone 0 (.raised ()), .wake, .cancel 0, .taskDone 1 .cancelled, .wake, .suspend, .rearm]

theorem cancel_kept_once :
    Runs.AlongSteps (step fun _ => false) (Keeps fun _ => false) {} cancelledInTeardown :=
  (cancel_kept (fun _ => false) {} ⟨rfl, rfl, rfl⟩ cancelledInTeardown).mpr (by decide)

/-- A call fails; while it waits for its other task, the caller is cancelled from outside and a
timeout around it expires. It tries again at once and fails at once, and the timeout, as it
unwinds, withdraws its own request. -/
def cancelledInTimeout : List (Act Unit) :=
  [.enter 2, .taskDone 0 (.raised ()), .wake, .cancel 0, .cancel 1, .taskDone 1 .cancelled, .wake,
    .enter 1, .rearm, .taskDone 0 (.raised ()), .wake, .uncancel 1, .suspend]

/-- A call fails and is tried again at once. Before the first re-arm a timeout around both
expires; the second call fails too, and the timeout withdraws its request. -/
def retriedInTimeout : List (Act Unit) :=
  [.enter 1, .taskDone 0 (.raised ()), .wake, .enter 1, .cancel 0, .rearm, .taskDone 0 (.raised ()),
    .wake, .uncancel 0, .suspend]

/-- In the first run the cancel from outside is lost, since the second group lowers its entry
count by one only. In the second nobody's request is left and one is made. -/
theorem cancel_lost_and_invented :
    ¬ Runs.AlongSteps (step fun _ => false) (Keeps fun _ => false) {} (cancelledInTimeout ++ [.rearm]) ∧
      ¬ Runs.AlongSteps (step fun _ => false) (Keeps fun _ => false) {} (retriedInTimeout ++ [.rearm]) := by
  constructor
  · intro along
    have keeps := along.here rfl rfl
    have raises := (keeps _ rfl).1 (by decide) rfl [] _ rfl (by simp)
    cases raises
  · intro along
    have keeps := along.here rfl rfl
    have injects := (keeps _ rfl).2 (by decide)
    cases injects.2

end Session

end AsyncPipelines
