import AsyncPipelines.Core.Session

/-!
A task on which one cancel request is made at a time: the re-arm neither loses nor invents
one, over any sequence of calls.
-/

namespace AsyncPipelines.Session

open Asyncio

variable {ε : Type}

def count (s : Session ε) (f : Fate) : Nat := s.requests.countP fun r => r.2 = f

/-- A request is made once every earlier one is past, and not while a re-arm is queued and the
caller waits in another call. Its owner withdraws it from the caller's own code, once it
was delivered; while a re-arm is queued, only one that was swallowed. -/
def Alone (s : Session ε) (a : Act ε) : Prop :=
  match a with
  | .cancel _ => (∀ r ∈ s.requests, r.2 = .past) ∧ (s.rearm.isNone ∨ s.call.isNone)
  | .uncancel name => s.call.isNone ∧ s.task.waiter = none ∧
      ∀ r ∈ s.requests, r.1 = name → r.2 ≠ .live ∧ (s.rearm.isSome → r.2 = .swallowed)
  | _ => True

instance (s : Session ε) (a : Act ε) : Decidable (s.Alone a) :=
  match a with
  | .cancel _ => inferInstanceAs (Decidable (_ ∧ _))
  | .uncancel _ => inferInstanceAs (Decidable (_ ∧ _))
  | .enter _ | .spawn _ | .taskDone _ _ | .wake | .suspend | .fulfil | .resume | .finish | .rearm =>
      isTrue trivial

def broughtIn (e : Entry) (s : Session ε) : Nat :=
  if e.probe.broughtInALiveCancel s.caller then 1 else 0

structure Single (s : Session ε) : Prop extends Counted s where
  one : s.count .live + s.count .caught + s.count .swallowed ≤ 1
  throws : 0 < s.count .live → s.task.throws = true
  thrown : s.task.throws = true → 0 < s.count .live ∨ 0 < s.own
  outside : s.ended = true → s.call = none
  caught : s.call = none → s.count .caught = 0
  swallowed : s.rearm = none → s.count .swallowed = 0
  calls : ∀ c, s.call = some c → s.made + c.entry.withdrawn + broughtIn c.entry s =
    s.withdrawn + c.entry.made + s.count .live + s.count .caught
  waits : ∀ e, s.rearm = some e → s.made + e.withdrawn + broughtIn e s =
    s.withdrawn + e.made + s.count .live + s.count .swallowed
  overlap : ∀ e c, s.rearm = some e → s.call = some c →
    s.count .live = (if c.entry.probe.pending then 1 else 0) ∧ c.entry.probe.rearms = s.caller.rearms

section

variable {s t : Session ε} {e : Entry} {isBase : ε → Bool}

theorem countP_recast {old new : Fate} (differ : old ≠ new) (f : Fate) (requests : List (Nat × Fate)) :
    (recast old new requests).countP (fun r => r.2 = f) =
      if f = old then 0
      else if f = new then requests.countP (fun r => r.2 = new) + requests.countP (fun r => r.2 = old)
      else requests.countP fun r => r.2 = f := by
  induction requests with
  | nil => simp [recast]
  | cons r rest ih =>
      have split : recast old new (r :: rest) =
          (if r.2 = old then (r.1, new) else r) :: recast old new rest := rfl
      rw [split, List.countP_cons, ih, List.countP_cons, List.countP_cons, List.countP_cons]
      by_cases isOld : r.2 = old
      · by_cases atOld : f = old
        · subst atOld
          simp [isOld, differ.symm]
        · by_cases atNew : f = new
          · subst atNew
            simp [isOld, differ, differ.symm]
            omega
          · have other : ¬ new = f := fun same => atNew same.symm
            have other' : ¬ old = f := fun same => atOld same.symm
            simp [isOld, atOld, atNew, other, other']
      · by_cases atOld : f = old
        · subst atOld
          simp [isOld]
        · by_cases atNew : f = new
          · subst atNew
            simp [isOld, atOld]
            omega
          · simp [isOld, atOld, atNew]

theorem count_recast (old new : Fate) (differ : old ≠ new) {u : Session ε}
    (requests : u.requests = recast old new s.requests) (f : Fate) :
    u.count f = if f = old then 0 else if f = new then s.count new + s.count old else s.count f := by
  unfold count
  rw [requests]
  exact countP_recast differ f s.requests

theorem count_past (past : ∀ r ∈ s.requests, r.2 = .past) {f : Fate} (other : f ≠ .past) : s.count f = 0 := by
  refine List.countP_eq_zero.mpr fun r listed same => other ?_
  rw [← past r listed]
  exact (of_decide_eq_true same).symm

theorem Single.start (begins : s.Begins) (past : ∀ r ∈ s.requests, r.2 = .past)
    (quiet : s.task.throws = false) (going : s.ended = false) : Single s where
  toCounted := .start begins
  one := by simp [count_past past]
  throws positive := by simp [count_past past] at positive
  thrown throws := by simp [quiet] at throws
  outside ended := by simp [going] at ended
  caught _ := count_past past nofun
  swallowed _ := count_past past nofun
  calls c open_ := by simp [begins.call] at open_
  waits e queued := by simp [begins.rearm] at queued
  overlap e c queued := by simp [begins.rearm] at queued

theorem Single.cancel (single : Single s) {name : Nat} (past : ∀ r ∈ s.requests, r.2 = .past)
    (apart : s.rearm = none ∨ s.call = none) : Single (s.cancel name) := by
  have counts : ∀ f, (s.cancel name).count f = s.count f + if f = .live then 1 else 0 := by
    intro f
    cases f <;> simp [Session.cancel, count]
  have live : s.count .live = 0 := count_past past nofun
  have caught : s.count .caught = 0 := count_past past nofun
  have swallowed : s.count .swallowed = 0 := count_past past nofun
  have made : (s.cancel name).made = s.made + 1 := rfl
  have withdrawn : (s.cancel name).withdrawn = s.withdrawn := rfl
  refine ⟨single.toCounted.cancel name, ?_, fun _ => Task.cancel_throws _, fun _ => .inl ?_,
    single.outside, fun _ => ?_, fun _ => ?_, fun c open_ => ?_, fun e queued => ?_, fun e c queued open_ => ?_⟩
  · simp [counts, live, caught, swallowed]
  · simp [counts]
  · simp [counts, caught]
  · simp [counts, swallowed]
  · have tally := single.calls c open_
    have brought : broughtIn c.entry (s.cancel name) = broughtIn c.entry s := rfl
    simp only [counts, ↓reduceIte, reduceCtorEq]
    omega
  · have tally := single.waits e queued
    have brought : broughtIn e (s.cancel name) = broughtIn e s := rfl
    simp only [counts, ↓reduceIte, reduceCtorEq]
    omega
  · have queued : s.rearm = some e := queued
    have open_ : s.call = some c := open_
    rcases apart with none | none
    · rw [none] at queued
      cases queued
    · rw [none] at open_
      cases open_

theorem count_uncancel {name : Nat} (listed : name ∈ s.requests.map Prod.fst) :
    ∃ r ∈ s.requests, r.1 = name ∧
      ∀ f, s.count f = (s.uncancel name).count f + if r.2 = f then 1 else 0 := by
  obtain ⟨r, isIn, named⟩ := List.mem_map.mp listed
  obtain ⟨first, before, after, _, isFirst, whole, rest⟩ :=
    List.exists_of_eraseP (p := fun r : Nat × Fate => decide (r.1 = name)) isIn (by simpa using named)
  refine ⟨first, by simp [whole], by simpa using isFirst, fun f => ?_⟩
  have left : (s.uncancel name).requests = before ++ after := rest
  unfold count
  rw [left, whole]
  simp only [List.countP_append, List.countP_cons, decide_eq_true_eq]
  omega

theorem Single.uncancel (single : Single s) {name : Nat} (listed : name ∈ s.requests.map Prod.fst)
    (outside : s.call = none)
    (owner : ∀ r ∈ s.requests, r.1 = name → r.2 ≠ .live ∧ (s.rearm.isSome → r.2 = .swallowed)) :
    Single (s.uncancel name) := by
  obtain ⟨r, isIn, named, counts⟩ := count_uncancel listed
  obtain ⟨delivered, swallows⟩ := owner r isIn named
  have live := counts .live
  have caught := counts .caught
  have swallowed := counts .swallowed
  rw [if_neg delivered] at live
  have one := single.one
  have none_caught := single.caught outside
  have closed : ∀ c, (s.uncancel name).call ≠ some c := by
    intro c open_
    have open_ : s.call = some c := open_
    rw [outside] at open_
    cases open_
  refine ⟨single.toCounted.uncancel listed, by omega, fun positive => ?_, fun throws => ?_,
    single.outside, fun _ => by omega, fun none => ?_, fun c open_ => absurd open_ (closed c),
    fun e queued => ?_, fun e c _ open_ => absurd open_ (closed c)⟩
  · exact single.throws (by omega)
  · rcases single.thrown throws with positive | own
    · exact .inl (by omega)
    · exact .inr own
  · have none_swallowed := single.swallowed none
    omega
  · have queued : s.rearm = some e := queued
    have tally := single.waits e queued
    have brought : broughtIn e (s.uncancel name) = broughtIn e s := rfl
    have withdrawn : (s.uncancel name).withdrawn = s.withdrawn + 1 := rfl
    have made : (s.uncancel name).made = s.made := rfl
    rw [if_pos (swallows (by rw [queued]; rfl))] at swallowed
    omega

/-- A task that runs throws at its next await exactly what waited for it. -/
theorem running_throws {task : Task} (runs : task.waiter = none) : task.throws = task.mustCancel := by
  simp [Task.throws, runs]

theorem Single.enter (single : Single s) (outside : s.call = none) (runs : s.task.waiter = none)
    (going : s.ended = false) (tasks : Nat) : Single (s.enter tasks) := by
  have one := single.one
  have own : s.own = 0 := by simp [Session.own, outside]
  have throws : (s.enter tasks).task.throws = s.task.throws := by
    rw [running_throws runs]
    exact Task.await_throws _
  have pending : (if s.task.mustCancel then 1 else 0) = s.count .live := by
    rw [← running_throws runs]
    by_cases thrown : s.task.throws = true
    · have positive := single.thrown thrown
      rw [if_pos thrown]
      omega
    · rw [if_neg thrown]
      by_contra some_live
      exact thrown (single.throws (by omega))
  refine ⟨single.toCounted.enter outside tasks, one, fun positive => ?_, fun thrown => ?_,
    (fun ended => ?_), (fun closed => by cases closed), single.swallowed, fun c open_ => ?_, single.waits,
    fun e c _ open_ => ?_⟩
  · rw [throws]
    exact single.throws positive
  · rw [throws] at thrown
    rcases single.thrown thrown with positive | asked
    · exact .inl positive
    · omega
  · have ended : s.ended = true := ended
    rw [going] at ended
    cases ended
  · cases open_
    have none_caught := single.caught outside
    have brought : broughtIn s.entry (s.enter tasks) = if s.task.mustCancel then 1 else 0 := by
      have same : (s.enter tasks).caller.rearms = s.caller.rearms := rfl
      simp [broughtIn, CancelProbe.broughtInALiveCancel, Session.entry, CancelProbe.enter, same]
      rfl
    change s.made + s.withdrawn + broughtIn s.entry (s.enter tasks) =
      s.withdrawn + s.made + s.count .live + s.count .caught
    omega
  · cases open_
    exact ⟨pending.symm, rfl⟩

theorem Single.of_same (single : Single s) (counted : Counted t)
    (requests : t.requests = s.requests) (throws : t.task.throws = s.task.throws)
    (rearms : t.caller.rearms = s.caller.rearms) (outside : t.ended = true → t.call = none)
    (call : t.call = s.call) (rearm : t.rearm = s.rearm) (made : t.made = s.made)
    (withdrawn : t.withdrawn = s.withdrawn) : Single t := by
  have counts : ∀ f, t.count f = s.count f := fun f => by simp only [count, requests]
  have own : t.own = s.own := by simp only [Session.own, call]
  have brought : ∀ e : Entry, broughtIn e t = broughtIn e s := by
    intro e
    unfold broughtIn CancelProbe.broughtInALiveCancel
    rw [rearms]
  refine ⟨counted, ?_, fun positive => ?_, fun thrown => ?_, outside, fun closed => ?_, fun none => ?_,
    fun c open_ => ?_, fun e queued => ?_, fun e c queued open_ => ?_⟩
  · simp only [counts]
    exact single.one
  · rw [throws]
    exact single.throws (by rwa [← counts])
  · rw [counts, own]
    exact single.thrown (by rwa [← throws])
  · rw [counts]
    exact single.caught (by rwa [← call])
  · rw [counts]
    exact single.swallowed (by rwa [← rearm])
  · simp only [counts, brought, made, withdrawn]
    exact single.calls c (by rwa [← call])
  · simp only [counts, brought, made, withdrawn]
    exact single.waits e (by rwa [← rearm])
  · rw [counts, rearms]
    exact single.overlap e c (by rwa [← rearm]) (by rwa [← call])

theorem Single.going (single : Single s) {c : OpenCall ε} (open_ : s.call = some c) : s.ended = false := by
  by_contra ended
  have closed := single.outside (by simpa using ended)
  rw [open_] at closed
  cases closed

theorem Single.regroup (single : Single s) {c : OpenCall ε} (open_ : s.call = some c)
    (none : s.rearm = none) {g : TaskGroup ε} {task : Task}
    (counted : Counted { s.setTask task with call := some { c with group := g } })
    (keeps : s.task.throws = true → task.throws = true)
    (asks : c.group.parentCancelRequested = true → g.parentCancelRequested = true)
    (thrown : task.throws = true → s.task.throws = true ∨ g.parentCancelRequested = true) :
    Single { s.setTask task with call := some { c with group := g } } := by
  refine ⟨counted, single.one, fun positive => keeps (single.throws positive), fun throws => ?_,
    (fun ended => ?_), (fun closed => by cases closed), single.swallowed, fun c' open' => ?_,
    single.waits, fun e c' queued _ => ?_⟩
  · rcases thrown throws with before | asked
    · rcases single.thrown before with positive | own
      · exact .inl positive
      · right
        have asked : c.group.parentCancelRequested = true := by
          by_contra not_asked
          simp [Session.own, open_, not_asked] at own
        simp [Session.own, asks asked]
    · right
      simp [Session.own, asked]
  · have going := single.going open_
    have ended : s.ended = true := ended
    rw [going] at ended
    cases ended
  · cases open'
    exact single.calls c open_
  · have queued : s.rearm = some e := queued
    rw [none] at queued
    cases queued

theorem taskDone_thrown {g : TaskGroup ε} {parent : Task} {i : Nat} {ended : TaskEnd ε}
    (throws : (g.taskDone isBase parent i ended).2.throws = true) :
    parent.throws = true ∨ (g.taskDone isBase parent i ended).1.parentCancelRequested = true := by
  have woken : ∀ c : Prop, [Decidable c] →
      (if c ∧ parent.waiter = some .pending then parent.fulfil else parent).throws = true →
        parent.throws = true := by
    intro c _ throws
    split at throws
    · rename_i waits
      have none := parent.settled waits.2
      simp [Task.throws, none] at throws
    · exact throws
  unfold TaskGroup.taskDone at throws ⊢
  cases ended with
  | returned => exact .inl (woken _ throws)
  | cancelled => exact .inl (woken _ throws)
  | raised error =>
      dsimp only at throws ⊢
      split at throws
      · exact .inl (woken _ throws)
      · rename_i first
        right
        rw [if_neg first]

theorem Single.taskDone (single : Single s) {c : OpenCall ε} (open_ : s.call = some c)
    (none : s.rearm = none) (i : Nat) (ended : TaskEnd ε) : Single (s.taskDone isBase c i ended) := by
  refine single.regroup open_ none (single.toCounted.taskDone open_ none i ended)
    (fun throws => taskDone_throws throws i ended) (fun asked => ?_) taskDone_thrown
  rcases OpenGroup.taskDone_count isBase c.group s.task i ended with ⟨same, _⟩ | ⟨_, asks, _⟩
  · rw [same, asked]
  · exact asks

theorem wake_throws (g : TaskGroup ε) (parent : Task) : (g.wake parent).2.1.throws = false := by
  unfold TaskGroup.wake
  dsimp only
  split
  · rfl
  · rw [Task.await_throws]
    rfl

theorem Single.delivers (single : Single s) {u : Session ε} {new : Fate} (differ : new ≠ .live)
    (requests : u.requests = if s.task.throws then recast .live new s.requests else s.requests) (f : Fate) :
    u.count f = if f = .live then 0 else if f = new then s.count new + s.count .live else s.count f := by
  by_cases throws : s.task.throws = true
  · rw [if_pos throws] at requests
    exact count_recast .live new differ.symm requests f
  · have none : s.count .live = 0 := by
      by_contra some_live
      exact throws (single.throws (by omega))
    rw [if_neg throws] at requests
    have same : u.count f = s.count f := by simp only [count, requests]
    rw [same]
    by_cases live : f = .live
    · rw [live, none, if_pos rfl]
    · by_cases isNew : f = new
      · rw [if_neg live, if_pos isNew, isNew, none, Nat.add_zero]
      · rw [if_neg live, if_neg isNew]

theorem Single.wake (single : Single s) {c : OpenCall ε} (open_ : s.call = some c)
    (none : s.rearm = none) : Single (s.wake c) := by
  have counted := single.toCounted.wake open_ none
  have one := single.one
  have none_swallowed := single.swallowed none
  have tally := single.calls c open_
  have going := single.going open_
  have quiet := wake_throws c.group s.task
  obtain ⟨requested, _⟩ := wake_count c.group s.task
  generalize asked : (if s.task.throws then recast .live .caught s.requests else s.requests) = requests
  let u : Session ε := { s with requests := requests }
  have after : ∀ f, u.count f = if f = .live then 0 else if f = .caught then s.count .caught + s.count .live
      else s.count f := single.delivers (u := u) nofun asked.symm
  have live := after .live
  have caught := after .caught
  have swallowed := after .swallowed
  simp only [↓reduceIte, reduceCtorEq] at live caught swallowed
  have silent : ∀ {task : Task}, task.throws = false → task.throws = true → False := by
    intro task quiet throws
    rw [quiet] at throws
    cases throws
  unfold Session.wake at counted ⊢
  simp only [asked] at counted ⊢
  split at counted
  · refine ⟨counted, ?_, fun positive => ?_, fun throws => absurd throws (silent quiet), (fun ended => ?_),
      (fun closed => by cases closed), fun _ => ?_, fun c' open' => ?_, fun e queued => ?_, fun e c' queued _ => ?_⟩
    · change u.count .live + u.count .caught + u.count .swallowed ≤ 1
      omega
    · have positive : 0 < u.count .live := positive
      omega
    · have ended : s.ended = true := ended
      rw [going] at ended
      cases ended
    · change u.count .swallowed = 0
      omega
    · cases open'
      change s.made + c.entry.withdrawn + broughtIn c.entry s =
        s.withdrawn + c.entry.made + u.count .live + u.count .caught
      omega
    · have queued : s.rearm = some e := queued
      rw [none] at queued
      cases queued
    · have queued : s.rearm = some e := queued
      rw [none] at queued
      cases queued
  · let v : Session ε := { s with requests := recast .caught .swallowed requests }
    have settled : ∀ f, v.count f = if f = .caught then 0 else if f = .swallowed then
        u.count .swallowed + u.count .caught else u.count f :=
      count_recast (s := u) (u := v) .caught .swallowed nofun rfl
    have live' := settled .live
    have caught' := settled .caught
    have swallowed' := settled .swallowed
    simp only [↓reduceIte, reduceCtorEq] at live' caught' swallowed'
    have undone : (undoOwnRequest (c.group.wake s.task).1 false (c.group.wake s.task).2.1).throws = false := by
      unfold undoOwnRequest
      split
      · exact quiet
      · exact quiet
    refine ⟨counted, ?_, fun positive => ?_, fun throws => absurd throws (silent undone), (fun _ => rfl),
      (fun _ => caught'), (fun impossible => by cases impossible), (fun c' open' => by cases open'),
      fun e queued => ?_, fun e c' _ open' => by cases open'⟩
    · change v.count .live + v.count .caught + v.count .swallowed ≤ 1
      omega
    · have positive : 0 < v.count .live := positive
      omega
    · cases queued
      change s.made + c.entry.withdrawn + broughtIn c.entry s =
        s.withdrawn + c.entry.made + v.count .live + v.count .swallowed
      omega
  · let v : Session ε := { s with requests := recast .caught .past requests }
    have settled : ∀ f, v.count f = if f = .caught then 0 else if f = .past then
        u.count .past + u.count .caught else u.count f :=
      count_recast (s := u) (u := v) .caught .past nofun rfl
    have live' := settled .live
    have caught' := settled .caught
    have swallowed' := settled .swallowed
    simp only [↓reduceIte, reduceCtorEq] at live' caught' swallowed'
    refine ⟨counted, ?_, fun positive => ?_, fun throws => absurd throws (silent quiet), (fun _ => rfl),
      (fun _ => caught'), fun _ => ?_, (fun c' open' => by cases open'), fun e queued => ?_,
      fun e c' _ open' => by cases open'⟩
    · change v.count .live + v.count .caught + v.count .swallowed ≤ 1
      omega
    · have positive : 0 < v.count .live := positive
      omega
    · change v.count .swallowed = 0
      omega
    · have queued : s.rearm = some e := queued
      rw [none] at queued
      cases queued

theorem Single.resume (single : Single s) (counted : Counted s.resume) (outside : s.call = none)
    (none : s.rearm = none) : Single s.resume := by
  have one := single.one
  have none_caught := single.caught outside
  have none_swallowed := single.swallowed none
  have delivered : s.resume.requests = if s.task.throws then recast .live .past s.requests else s.requests := rfl
  have differ : Fate.past ≠ .live := nofun
  have after := single.delivers differ delivered
  have live := after .live
  have caught := after .caught
  have swallowed := after .swallowed
  simp only [↓reduceIte, reduceCtorEq] at live caught swallowed
  have closed : s.resume.call = Option.none := outside
  have unqueued : s.resume.rearm = Option.none := none
  refine ⟨counted, by omega, fun positive => by omega, (fun throws => by cases throws), (fun _ => closed),
    fun _ => by omega, fun _ => by omega, fun c open_ => ?_, fun e queued => ?_, fun e c queued _ => ?_⟩
  · rw [closed] at open_
    cases open_
  · rw [unqueued] at queued
    cases queued
  · rw [unqueued] at queued
    cases queued

theorem count_swallowed : 0 < s.count .swallowed ↔ s.Swallowed := by
  rw [count, List.countP_pos_iff]
  simp [Swallowed]

/-- The queued call finds the tally that tells. -/
theorem Single.tallied (single : Single s) (queued : s.rearm = some e) : s.Tallied e := by
  have tally := single.waits e queued
  have owes : s.Owes e ↔ 0 < s.count .live + s.count .swallowed := by
    have same : s.Owes e ↔ s.withdrawn + e.made < s.made + e.withdrawn + broughtIn e s := Iff.rfl
    rw [same]
    omega
  refine .inr ⟨fun owed => ?_, fun settled swallowed => ?_⟩
  · rw [owes] at owed
    by_cases swallowed : 0 < s.count .swallowed
    · exact .inl (count_swallowed.mp swallowed)
    · have live : 0 < s.count .live := by omega
      refine .inr ⟨single.throws live, ?_⟩
      have listed : s.count .live ≤ s.requests.length := List.countP_le_length
      have counted := single.counted
      omega
  · rw [owes] at settled
    have positive := count_swallowed.mpr swallowed
    omega

theorem Single.runRearm (single : Single s) (queued : s.rearm = some e) : Single (s.runRearm e) := by
  have tallied := single.tallied queued
  have counted := single.toCounted.runRearm queued tallied
  have one := single.one
  have tally := single.waits e queued
  have throws := single.toCounted.rearm_throws queued
  have owes : s.Owes e ↔ 0 < s.count .live + s.count .swallowed := by
    have same : s.Owes e ↔ s.withdrawn + e.made < s.made + e.withdrawn + broughtIn e s := Iff.rfl
    rw [same]
    omega
  have fires : (s.runRearm e).task.throws = true → ∀ f, (s.runRearm e).count f = if f = .swallowed then 0
      else if f = .live then s.count .live + s.count .swallowed else s.count f := by
    intro raises
    refine count_recast .swallowed .live nofun ?_
    exact congrArg (recast .swallowed · s.requests) (if_pos raises)
  have rests : (s.runRearm e).task.throws ≠ true → ∀ f, (s.runRearm e).count f = if f = .swallowed then 0
      else if f = .past then s.count .past + s.count .swallowed else s.count f := by
    intro quiet
    refine count_recast .swallowed .past nofun ?_
    exact congrArg (recast .swallowed · s.requests) (if_neg quiet)
  have counts : (s.runRearm e).count .caught = s.count .caught ∧ (s.runRearm e).count .swallowed = 0 := by
    by_cases raises : (s.runRearm e).task.throws = true
    · simp [fires raises]
    · simp [rests raises]
  obtain ⟨caught, swallowed⟩ := counts
  have live : (s.runRearm e).count .live =
      if (s.runRearm e).task.throws = true then s.count .live + s.count .swallowed else 0 := by
    by_cases raises : (s.runRearm e).task.throws = true
    · simp [fires raises, raises]
    · have none : s.count .live = 0 := by
        by_contra some_live
        exact raises (throws.mpr (.inl (single.throws (by omega))))
      simp [rests raises, raises, none]
  have own : (s.runRearm e).own = s.own := rfl
  refine ⟨counted, ?_, fun positive => ?_, fun raises => ?_, single.outside, fun closed => ?_, fun _ => swallowed,
    fun c open_ => ?_, (fun e' queued' => by cases queued'), fun e' c queued' _ => by cases queued'⟩
  · split at live <;> omega
  · by_contra quiet
    rw [if_neg quiet] at live
    omega
  · rw [if_pos raises] at live
    rcases throws.mp raises with before | ⟨_, owed⟩
    · rcases single.thrown before with positive | asked
      · exact .inl (by omega)
      · exact .inr asked
    · rw [owes] at owed
      exact .inl (by omega)
  · rw [caught]
    exact single.caught closed
  · have open_ : s.call = some c := open_
    have going := single.going open_
    have before := single.calls c open_
    obtain ⟨pending, rearms⟩ := single.overlap e c queued open_
    have brought : broughtIn c.entry s = s.count .live := by
      rw [pending]
      simp [broughtIn, CancelProbe.broughtInALiveCancel, rearms]
    have ran := single.toCounted.rearms queued
    have made : (s.runRearm e).made = s.made := rfl
    have withdrawn : (s.runRearm e).withdrawn = s.withdrawn := rfl
    have caller : (s.runRearm e).caller = rearmPendingCancel s.caller s.ended e.cancelling e.probe := rfl
    by_cases owed : s.Owes e
    · have raises := throws.mpr (.inr ⟨going, owed⟩)
      rw [if_pos raises] at live
      rw [owes] at owed
      have now : broughtIn c.entry (s.runRearm e) = 1 := by
        have later : (s.runRearm e).caller.rearms = s.caller.rearms + 1 := by
          rw [caller, ran, if_pos ⟨going, owes.mpr owed⟩]
        simp [broughtIn, CancelProbe.broughtInALiveCancel, later, rearms]
      omega
    · have now : broughtIn c.entry (s.runRearm e) = broughtIn c.entry s := by
        have same : (s.runRearm e).caller = s.caller := by rw [caller, ran, if_neg fun fires => owed fires.2]
        unfold broughtIn
        rw [same]
      rw [owes] at owed
      split at live <;> omega

theorem Single.step {a : Act ε} (single : Single s) (alone : s.Alone a)
    (stepped : Session.step isBase s a = some t) : Single t := by
  have meets : s.Meets a := by
    cases a with
    | rearm => exact fun e queued => single.tallied queued
    | _ => trivial
  have counted := single.toCounted.step meets stepped
  cases a with
  | cancel name =>
      simp only [Session.step, Option.ite_none_right_eq_some, Option.some.injEq] at stepped
      obtain ⟨_, rfl⟩ := stepped
      exact single.cancel alone.1 (by simpa using alone.2)
  | uncancel name =>
      simp only [Session.step, Option.ite_none_right_eq_some, Option.some.injEq] at stepped
      obtain ⟨⟨_, listed⟩, rfl⟩ := stepped
      exact single.uncancel listed (by simpa using alone.1) alone.2.2
  | enter tasks =>
      simp only [Session.step, Option.ite_none_right_eq_some, Option.some.injEq] at stepped
      obtain ⟨⟨going, outside, runs, _⟩, rfl⟩ := stepped
      exact single.enter (by simpa using outside) runs going tasks
  | spawn i =>
      simp only [Session.step] at stepped
      split at stepped
      · rename_i c open_
        simp only [Option.ite_none_right_eq_some, Option.some.injEq] at stepped
        obtain ⟨⟨none, _⟩, rfl⟩ := stepped
        have none : s.rearm = Option.none := by simpa using none
        exact single.regroup open_ none counted id id .inl
      · cases stepped
  | taskDone i ended =>
      simp only [Session.step] at stepped
      split at stepped
      · rename_i c open_
        simp only [Option.ite_none_right_eq_some, Option.some.injEq] at stepped
        obtain ⟨⟨none, _⟩, rfl⟩ := stepped
        exact single.taskDone open_ (by simpa using none) i ended
      · cases stepped
  | wake =>
      simp only [Session.step] at stepped
      split at stepped
      · rename_i c open_
        simp only [Option.ite_none_right_eq_some, Option.some.injEq] at stepped
        obtain ⟨⟨none, _⟩, rfl⟩ := stepped
        exact single.wake open_ (by simpa using none)
      · cases stepped
  | suspend =>
      simp only [Session.step, Option.ite_none_right_eq_some, Option.some.injEq] at stepped
      obtain ⟨⟨_, _, runs⟩, rfl⟩ := stepped
      refine single.of_same counted rfl ?_ rfl single.outside rfl rfl rfl rfl
      rw [running_throws runs]
      exact Task.await_throws _
  | fulfil =>
      simp only [Session.step, Option.ite_none_right_eq_some, Option.some.injEq] at stepped
      obtain ⟨⟨_, pending⟩, rfl⟩ := stepped
      have none := s.task.settled pending
      refine single.of_same counted rfl ?_ rfl single.outside rfl rfl rfl rfl
      change s.task.fulfil.throws = s.task.throws
      simp [Task.throws, none, pending]
  | resume =>
      simp only [Session.step, Option.ite_none_right_eq_some, Option.some.injEq] at stepped
      obtain ⟨⟨none, outside, _⟩, rfl⟩ := stepped
      exact single.resume counted (by simpa using outside) (by simpa using none)
  | finish =>
      simp only [Session.step, Option.ite_none_right_eq_some, Option.some.injEq] at stepped
      obtain ⟨⟨_, outside, _⟩, rfl⟩ := stepped
      exact single.of_same counted rfl rfl rfl (fun _ => by simpa using outside) rfl rfl rfl rfl
  | rearm =>
      simp only [Session.step] at stepped
      split at stepped
      · rename_i e queued
        simp only [Option.ite_none_right_eq_some, Option.some.injEq] at stepped
        obtain ⟨_, rfl⟩ := stepped
        exact single.runRearm queued
      · cases stepped

end

/-- Where one request is made on the caller at a time, no re-arm loses or invents one, over any
sequence of calls and whatever count was leaked before. -/
theorem single_cancel_kept (isBase : ε → Bool) (start : Session ε) (begins : start.Begins)
    (past : ∀ r ∈ start.requests, r.2 = .past) (quiet : start.task.throws = false)
    (going : start.ended = false) (acts : List (Act ε))
    (alone : Runs.AlongSteps (step isBase) Alone start acts) :
    Runs.AlongSteps (step isBase) (Keeps isBase) start acts := by
  refine alone.imp (p := Single) (fun s a t single _ _ => ?_)
    (fun s a t alone single stepped => single.step alone stepped) (.start begins past quiet going)
  cases a with
  | rearm => exact fun e queued => (single.toCounted.kept_iff queued).mpr (single.tallied queued)
  | _ => trivial

/-- A leaked count, a call that fails while the caller is cancelled, and a retry at once that
fails as well. -/
theorem single_cancel_kept_retry :
    Runs.AlongSteps (step fun _ => false) (Keeps fun _ => false)
      { caller := { task := { cancelling := 1 } }, leaked := 1 }
      (cancelledInTeardown.take 6 ++
        [.enter 1, .rearm, .taskDone 0 (.raised ()), .wake, .suspend, .rearm, .resume, .uncancel 0]) :=
  single_cancel_kept (fun _ => false) _ ⟨rfl, rfl, rfl⟩ (by simp) rfl rfl _ (by decide)

end AsyncPipelines.Session
