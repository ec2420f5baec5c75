import AsyncPipelines.Lib.FloatingPoint
import AsyncPipelines.Lib.Runs
import AsyncPipelines.Lib.Vault

/-!
`RunResult` of `benchmark.py` and its `extra`, the one mutable field of a frozen record, with
`attach_speedup` and `to_dict`, in one store with the dicts of whoever uses them. Durations
and their quotients are doubles.
-/

namespace AsyncPipelines

open ObjectStore FloatingPoint

/-- Python's `float`. -/
abbrev Double := Number binary64

inductive Scalar
  | none
  | str (s : String)
  | int (n : ℤ)
  | float (x : Double)
  deriving DecidableEq

abbrev Heap := Store String Scalar

structure RunResult where
  pipelineName : String
  nDocs : Nat
  durationSeconds : Double
  docsPerSecond : Option Double
  speedupVsSerial : Option Double
  extra : Value Scalar
  deriving DecidableEq

namespace RunResult

/-- `RunResult.__post_init__`. -/
def postInit (h : Heap) (r : RunResult) : Option (Heap × RunResult) :=
  (deepcopy h r.extra).map fun copied => (copied.1, { r with extra := copied.2 })

def optional : Option Double → Value Scalar
  | some x => .atom (.float x)
  | none => .atom .none

def fields (r : RunResult) (extra : Value Scalar) : Obj String Scalar where
  tag := .str "dict"
  cells := [("pipeline_name", .atom (.str r.pipelineName)), ("n_docs", .atom (.int r.nDocs)),
    ("duration_seconds", .atom (.float r.durationSeconds)), ("docs_per_second", optional r.docsPerSecond),
    ("speedup_vs_serial", optional r.speedupVsSerial), ("extra", extra)]

/-- `RunResult.to_dict`. -/
def toDict (h : Heap) (r : RunResult) : Option (Heap × Value Scalar) :=
  (deepcopy h r.extra).map fun copied => (copied.1 ++ [r.fields copied.2], .ref copied.1.length)

theorem optional_owned {π : Type} {home : Nat → π} {h : Heap} {p : π} (x : Option Double) :
    Owned home h p (optional x) := by
  cases x <;> exact owned_atom _

theorem fields_owned {π : Type} {home : Nat → π} {h : Heap} {p : π} (r : RunResult) {extra : Value Scalar}
    (own : Owned home h p extra) : ∀ cell ∈ (r.fields extra).cells, Owned home h p cell.2 := by
  simp [fields, owned_atom, optional_owned, own]

end RunResult

/-- `serial_duration` in `attach_speedup`. -/
def serialDuration (results : List RunResult) : Option Double :=
  (results.find? fun r => r.pipelineName == "serial").map RunResult.durationSeconds

def speedup (serialDuration : Option Double) (r : RunResult) : Option Double :=
  match serialDuration with
  | some serial =>
      if serial.value ≠ some 0 ∧ 0 < serial then
        if 0 < r.durationSeconds then some (serial / r.durationSeconds) else none
      else none
  | none => none

def attachAll (serial : Option Double) : Heap → List RunResult → Option (Heap × List RunResult)
  | h, [] => some (h, [])
  | h, r :: rest => do
      let (h, made) ← RunResult.postInit h { r with speedupVsSerial := speedup serial r }
      let (h, out) ← attachAll serial h rest
      some (h, made :: out)

/-- `attach_speedup`. -/
def attachSpeedup (h : Heap) (results : List RunResult) : Option (Heap × List RunResult) :=
  attachAll (serialDuration results) h results

/-- All results there are, and the registers of whoever uses them. What each result was made
from is known to nobody in the program: of one from `attach_speedup`, it is what its input was
made from. -/
structure Bench where
  store : Heap := []
  env : Registers Scalar := []
  results : List RunResult := []
  origins : List (Snapshot String Scalar) := []

namespace Bench

inductive Act
  | edit (i : Instr String Scalar)
  | construct (r : RunResult) (x : Nat)
  | toDict (i : Nat)
  | attach (which : List Nat)

def pickResults (results : List RunResult) (which : List Nat) : Option (List RunResult) :=
  which.mapM fun i => results[i]?

def step (b : Bench) : Act → Option Bench
  | .edit i =>
      let done := exec b.store b.env i
      some { b with store := done.1, env := done.2.1 }
  | .construct r x => do
      let extra ← b.env[x]?
      let (store, made) ← RunResult.postInit b.store { r with extra := extra }
      some { b with
        store := store
        results := b.results ++ [made]
        origins := b.origins ++ [⟨made.extra, b.store, extra⟩] }
  | .toDict i => do
      let r ← b.results[i]?
      let (store, dict) ← r.toDict b.store
      some { b with store := store, env := b.env ++ [dict] }
  | .attach which => do
      let chosen ← pickResults b.results which
      let origins ← which.mapM fun i => b.origins[i]?
      let (store, out) ← attachSpeedup b.store chosen
      some { b with
        store := store
        results := b.results ++ out
        origins := b.origins ++ List.zipWith (fun s r => { s with held := r.extra }) origins out }

structure Tracked (home : Nat → Party) (b : Bench) : Prop where
  vault : Vault home b.store b.env b.origins
  held : b.origins.map (·.held) = b.results.map (·.extra)

variable {home : Nat → Party} {b c : Bench} {h k : Heap} {env : Registers Scalar}
  {made : List (Snapshot String Scalar)}

theorem Tracked.length (tracked : Tracked home b) : b.origins.length = b.results.length := by
  simpa using congrArg List.length tracked.held

theorem Tracked.held_at (tracked : Tracked home b) {i : Nat} {r : RunResult} {s : Snapshot String Scalar}
    (result : b.results[i]? = some r) (origin : b.origins[i]? = some s) : s.held = r.extra := by
  have same := congrArg (·[i]?) tracked.held
  simpa [result, origin] using same

theorem attachAll_vault {serial : Option Double} {rs : List RunResult} {origins : List (Snapshot String Scalar)}
    (pairs : List.Forall₂ (fun r s => s.held = r.extra) rs origins)
    (inside : ∀ s ∈ origins, ∃ i : Nat, made[i]? = some s) (vault : Vault home h env made) {out : List RunResult} (attached : attachAll serial h rs = some (k, out)) :
    ∃ home', Vault home' k env (made ++ List.zipWith (fun s r => { s with held := r.extra }) origins out) ∧
      (List.zipWith (fun s r => { s with held := r.extra : Snapshot String Scalar }) origins out).map (·.held) =
        out.map (·.extra) := by
  induction pairs generalizing home h made out with
  | nil =>
      obtain ⟨rfl, rfl⟩ := Prod.mk.inj (Option.some.inj attached)
      exact ⟨home, by simpa using vault, rfl⟩
  | @cons r s rest others held _ ih =>
      obtain ⟨i, found⟩ := inside s List.mem_cons_self
      simp only [attachAll, Option.bind_eq_bind, Option.bind_eq_some_iff, RunResult.postInit,
        Option.map_eq_some_iff] at attached
      obtain ⟨_, ⟨copied, copies, rfl⟩, ⟨last, outs⟩, attached, same⟩ := attached
      obtain ⟨rfl, rfl⟩ := Prod.mk.inj (Option.some.inj same)
      have remade := vault.remake found (held ▸ copies)
      have kept : ∀ t ∈ others, ∃ j : Nat, (made ++ [{ s with held := copied.2 }])[j]? = some t := by
        intro t member
        obtain ⟨j, before⟩ := inside t (List.mem_cons_of_mem _ member)
        have bound := (List.getElem?_eq_some_iff.mp before).1
        exact ⟨j, by rw [List.getElem?_append_left bound, before]⟩
      obtain ⟨home', vault', extras⟩ := ih kept remade attached
      refine ⟨home', ?_, ?_⟩
      · simpa using vault'
      · simpa using extras

theorem Tracked.chosen (tracked : Tracked home b) {which : List Nat} {rs : List RunResult}
    {origins : List (Snapshot String Scalar)} (picked : pickResults b.results which = some rs)
    (found : (which.mapM fun i => b.origins[i]?) = some origins) :
    List.Forall₂ (fun r s => s.held = r.extra) rs origins ∧ ∀ s ∈ origins, ∃ i : Nat, b.origins[i]? = some s := by
  unfold pickResults at picked
  induction which generalizing rs origins with
  | nil =>
      obtain rfl : [] = rs := by simpa using picked
      obtain rfl : [] = origins := by simpa using found
      exact ⟨.nil, by simp⟩
  | cons i rest ih =>
      simp only [List.mapM_cons, Option.pure_def, Option.bind_eq_bind, Option.bind_eq_some_iff,
        Option.some.injEq] at picked found
      obtain ⟨r, result, others, picked, rfl⟩ := picked
      obtain ⟨s, origin, more, found, rfl⟩ := found
      obtain ⟨pairs, inside⟩ := ih picked found
      refine ⟨.cons (tracked.held_at result origin) pairs, fun t member => ?_⟩
      rcases List.mem_cons.mp member with rfl | member
      · exact ⟨i, origin⟩
      · exact inside t member

theorem Tracked.step {a : Act} (tracked : Tracked home b) (stepped : b.step a = some c) :
    ∃ home', Tracked home' c := by
  have vault := tracked.vault
  cases a with
  | edit i =>
      obtain rfl := Option.some.inj stepped
      exact ⟨_, vault.edit i, tracked.held⟩
  | construct r x =>
      simp only [Bench.step, Option.bind_eq_bind, Option.bind_eq_some_iff, RunResult.postInit,
        Option.map_eq_some_iff] at stepped
      obtain ⟨extra, found, _, ⟨copied, copies, rfl⟩, same⟩ := stepped
      obtain rfl := Option.some.inj same
      refine ⟨_, vault.take (List.mem_of_getElem? found) copies, ?_⟩
      simp [tracked.held]
  | toDict i =>
      simp only [Bench.step, Option.bind_eq_bind, Option.bind_eq_some_iff, RunResult.toDict,
        Option.map_eq_some_iff] at stepped
      obtain ⟨r, found, _, ⟨copied, copies, rfl⟩, same⟩ := stepped
      obtain rfl := Option.some.inj same
      obtain ⟨s, origin⟩ : ∃ s, b.origins[i]? = some s := by
        have bound := (List.getElem?_eq_some_iff.mp found).1
        exact ⟨_, List.getElem?_eq_getElem (tracked.length ▸ bound)⟩
      have given := vault.give origin (tracked.held_at found origin ▸ copies)
      have own := given.client copied.2 (by simp)
      have placed := given.place (o := r.fields copied.2) (r.fields_owned own)
      exact ⟨_, placed.forget (by grind), tracked.held⟩
  | attach which =>
      simp only [Bench.step, Option.bind_eq_bind, Option.bind_eq_some_iff] at stepped
      obtain ⟨chosen, picked, origins, found, ⟨k, out⟩, attached, same⟩ := stepped
      obtain rfl := Option.some.inj same
      obtain ⟨home', vault', extras⟩ := attachAll_vault (tracked.chosen picked found).1
        (tracked.chosen picked found).2 vault attached
      exact ⟨home', vault', by simp only [List.map_append, tracked.held, extras]⟩

end Bench

/-- Whatever anybody does with their own dicts, also those that were passed in or handed out: a
result keeps the `extra` it was made from, through `attach_speedup` too, and `to_dict` shows it. -/
theorem run_results_frozen (b : Bench) (reached : Runs.Reaches Bench.step {} b) :
    b.origins.length = b.results.length ∧
    ∀ (i : Nat) r s, b.results[i]? = some r → b.origins[i]? = some s →
      Same s.store s.origin b.store r.extra ∧
      ∃ k l extra, r.toDict b.store = some (k, .ref l) ∧ k[l]? = some (r.fields extra) ∧
        Same s.store s.origin k extra := by
  obtain ⟨home, tracked⟩ : ∃ home, b.Tracked home :=
    reached.invariant (p := fun b => ∃ home, Bench.Tracked home b)
      (fun b a c ⟨_, tracked⟩ stepped => tracked.step stepped) ⟨_, .start, rfl⟩
  refine ⟨tracked.length, fun i r s result origin => ?_⟩
  have held := tracked.held_at result origin
  have recorded := tracked.vault.records i s origin
  obtain ⟨k, extra, link, copies, alike, linked, _⟩ :=
    deepcopy_spec tracked.vault.closed recorded.owned Party.client
  rw [held] at copies linked
  have frozen : Same s.store s.origin b.store r.extra := held ▸ recorded.contents
  have copied : Same s.store s.origin k extra := frozen.trans ⟨link, alike, linked⟩
  refine ⟨frozen, k ++ [r.fields extra], k.length, extra, by simp [RunResult.toDict, copies], by simp, ?_⟩
  exact copied.grown _

/-- A nested dict goes into a result and is emptied afterwards, and so is the one in the dict that
`to_dict` gives back. -/
def editsAround : List Bench.Act :=
  [.edit (.const (.int 1)), .edit (.make (.str "dict") [("k", 0)]),
    .edit (.make (.str "dict") [("nested", 1)]), .construct ⟨"serial", 3, 1, some 1, none, .atom .none⟩ 2,
    .edit (.write 1 []), .attach [0], .toDict 1, .edit (.look 3), .edit (.write 9 [])]

theorem run_results_frozen_edited : ∃ (b : Bench) (r : RunResult) (s : Snapshot String Scalar),
    b.results[1]? = some r ∧ b.origins[1]? = some s ∧ s.store[0]? = some ⟨.str "dict", [("k", .atom (.int 1))]⟩ ∧
      b.store[0]? = some ⟨.str "dict", []⟩ ∧ Same s.store s.origin b.store r.extra := by
  have ends : (Runs.run Bench.step {} editsAround).any (fun b =>
      b.results.length == 2 && b.store[0]? == some ⟨.str "dict", []⟩ &&
        b.origins.all fun s => s.store[0]? == some ⟨.str "dict", [("k", .atom (.int 1))]⟩) = true := by
    decide
  obtain ⟨b, ran, checked⟩ := (Option.any_eq_true _ _).mp ends
  simp only [Bool.and_eq_true, beq_iff_eq, List.all_eq_true] at checked
  obtain ⟨⟨size, emptied⟩, built⟩ := checked
  obtain ⟨length, each⟩ := run_results_frozen b ⟨_, ran⟩
  have result : b.results[1]? = some (b.results.get ⟨1, by omega⟩) := List.getElem?_eq_getElem _
  have origin : b.origins[1]? = some (b.origins.get ⟨1, by omega⟩) := List.getElem?_eq_getElem _
  exact ⟨b, _, _, result, origin, built _ (List.get_mem _ _), emptied, (each 1 _ _ result origin).1⟩

/-- `r'` is the entry that `attach_speedup` makes of `r`. -/
def Measured (serial : Option Double) (r r' : RunResult) : Prop :=
  ∃ extra, r' = { r with speedupVsSerial := speedup serial r, extra := extra }

theorem attachAll_entries {serial : Option Double} {h k : Heap} {rs out : List RunResult}
    (attached : attachAll serial h rs = some (k, out)) :
    List.Forall₂ (Measured serial) rs out := by
  induction rs generalizing h out with
  | nil =>
      obtain ⟨_, rfl⟩ := Prod.mk.inj (Option.some.inj attached)
      exact .nil
  | cons r rest ih =>
      simp only [attachAll, Option.bind_eq_bind, Option.bind_eq_some_iff, RunResult.postInit,
        Option.map_eq_some_iff] at attached
      obtain ⟨_, ⟨copied, _, rfl⟩, ⟨last, outs⟩, attached, same⟩ := attached
      obtain ⟨rfl, rfl⟩ := Prod.mk.inj (Option.some.inj same)
      exact .cons ⟨copied.2, rfl⟩ (ih attached)

def Baseline (results : List RunResult) (serial : Double) : Prop :=
  serialDuration results = some serial ∧ 0 < serial

theorem speedup_iff {results : List RunResult} {r : RunResult} {ratio : Double} :
    speedup (serialDuration results) r = some ratio ↔
      ∃ serial, Baseline results serial ∧ 0 < r.durationSeconds ∧ ratio = serial / r.durationSeconds := by
  unfold speedup Baseline
  cases serialDuration results with
  | none => simp
  | some serial =>
      by_cases positive : 0 < serial
      · by_cases timed : 0 < r.durationSeconds
        · simp [positive, Number.value_of_pos positive, timed, eq_comm]
        · simp [positive, timed]
      · simp [positive]

theorem Measured.own {serial : Option Double} {r r' : RunResult} (measured : Measured serial r r') :
    r'.speedupVsSerial = speedup serial r' := by
  obtain ⟨extra, rfl⟩ := measured
  rfl

theorem measured_baseline {serial : Option Double} {rs out : List RunResult}
    (entries : List.Forall₂ (Measured serial) rs out) : serialDuration out = serialDuration rs := by
  unfold serialDuration
  induction entries with
  | nil => rfl
  | @cons r r' rest others measured _ ih =>
      obtain ⟨extra, rfl⟩ := measured
      cases first : r.pipelineName == "serial" with
      | true => simp [first]
      | false => simpa [List.find?_cons, first] using ih

theorem measured_of_mem {serial : Option Double} {rs out : List RunResult}
    (entries : List.Forall₂ (Measured serial) rs out) {r' : RunResult} (member : r' ∈ out) :
    r'.speedupVsSerial = speedup serial r' := by
  induction entries with
  | nil => simp at member
  | cons measured _ ih =>
      rcases List.mem_cons.mp member with rfl | member
      · exact measured.own
      · exact ih member

def RunResult.bare (r : RunResult) : RunResult := { r with extra := .atom .none }

theorem measured_again {serial : Option Double} {rs out again : List RunResult}
    (entries : List.Forall₂ (Measured serial) rs out) (more : List.Forall₂ (Measured serial) out again) :
    again.map RunResult.bare = out.map RunResult.bare := by
  induction entries generalizing again with
  | nil =>
      cases more
      rfl
  | cons measured _ ih =>
      cases more with
      | cons twice rest =>
          obtain ⟨extra, rfl⟩ := twice
          simp only [List.map_cons, ih rest, List.cons.injEq, and_true]
          simp [RunResult.bare, measured.own]

/-- `attach_speedup` keeps the entries and their order and measures each against the first
`serial` one: the ratio is the double nearest to the quotient, that one is at 1, no entry is
ranked below a slower one, and to attach again changes nothing. Against an infinite baseline an
infinite duration is at nan. -/
theorem attach_speedup_relative (h k : Heap) (results out : List RunResult)
    (attached : attachSpeedup h results = some (k, out)) :
    List.Forall₂ (Measured (serialDuration results)) results out ∧
    (∀ r' ∈ out, r'.speedupVsSerial = none ↔
      (∀ serial, ¬ Baseline results serial) ∨ ¬ 0 < r'.durationSeconds) ∧
    (∀ r' ∈ out, ∀ ratio, r'.speedupVsSerial = some ratio → ∃ serial, Baseline results serial ∧
      Number.Nearest serial r'.durationSeconds ratio ∧
      (ratio = .nan ↔ serial = .infinite false ∧ r'.durationSeconds = .infinite false)) ∧
    (∀ serial, (out.find? fun r => r.pipelineName == "serial") = some serial → 0 < serial.durationSeconds →
      serial.speedupVsSerial = some (if serial.durationSeconds = .infinite false then .nan else 1)) ∧
    (∀ r ∈ out, ∀ r' ∈ out, ∀ ratio ratio', r.speedupVsSerial = some ratio →
      r'.speedupVsSerial = some ratio' → r.durationSeconds ≤ r'.durationSeconds →
      ratio' ≤ ratio ∨ ratio' = .nan) ∧
    ∀ k' again, attachSpeedup k out = some (k', again) →
      again.map RunResult.bare = out.map RunResult.bare := by
  have entries := attachAll_entries attached
  have own := fun r' (member : r' ∈ out) => measured_of_mem entries member
  have baseline := measured_baseline entries
  refine ⟨entries, fun r' member => ?_, fun r' member ratio isRatio => ?_, fun serial first positive => ?_, ?_,
    fun k' again attached' => ?_⟩
  · rw [own r' member, Option.eq_none_iff_forall_not_mem]
    simp only [Option.mem_def, speedup_iff, not_exists, not_and]
    constructor
    · intro unmeasured
      by_cases timed : 0 < r'.durationSeconds
      · exact .inl fun serial isBaseline => unmeasured _ serial isBaseline timed rfl
      · exact .inr timed
    · rintro (missing | untimed) ratio serial isBaseline timed _
      · exact missing serial isBaseline
      · exact untimed timed
  · rw [own r' member, speedup_iff] at isRatio
    obtain ⟨serial, isBaseline, timed, rfl⟩ := isRatio
    exact ⟨serial, isBaseline, Number.div_nearest isBaseline.2 timed, Number.div_eq_nan_iff isBaseline.2 timed⟩
  · have isBaseline : Baseline results serial.durationSeconds := by
      refine ⟨?_, positive⟩
      rw [← baseline]
      simp [serialDuration, first]
    rw [own serial (List.mem_of_find?_eq_some first), speedup_iff]
    refine ⟨_, isBaseline, positive, ?_⟩
    split
    · next endless => rw [endless, Number.infinite_div_infinite]
    · next finite => exact (Number.div_itself positive finite).symm
  · intro r member r' member' ratio ratio' isRatio isRatio' slower
    rw [own r member, speedup_iff] at isRatio
    rw [own r' member', speedup_iff] at isRatio'
    obtain ⟨serial, ⟨found, positive⟩, timed, rfl⟩ := isRatio
    obtain ⟨serial', ⟨found', _⟩, timed', rfl⟩ := isRatio'
    obtain rfl : serial = serial' := Option.some.inj (found.symm.trans found')
    exact Number.div_antitone positive timed slower
  · have more := attachAll_entries attached'
    rw [baseline] at more
    exact measured_again entries more

/-- The second ratio is rounded, and the last run took no time at all. -/
def threeRuns : List RunResult :=
  let three : Double := .finite false 3 ⟨3, 0, by decide, by decide, by decide, by norm_num⟩
  [⟨"serial", 3, 1, some three, none, .atom .none⟩, ⟨"async", 3, three, some 1, none, .atom .none⟩,
    ⟨"batched", 3, 0, none, none, .atom .none⟩]

def third : Double :=
  .finite false (6004799503160661 / 2 ^ 54) ⟨6004799503160661, -54, by decide, by decide, by decide, by norm_num⟩

theorem attach_speedup_relative_rounded : ∃ out, attachSpeedup [] threeRuns = some ([], out) ∧
    out.map (·.speedupVsSerial) = [some 1, some third, none] ∧
    (∀ r' ∈ out, ∀ ratio, r'.speedupVsSerial = some ratio → ∃ serial, Baseline threeRuns serial ∧
      Number.Nearest serial r'.durationSeconds ratio) ∧
    ∀ k' again, attachSpeedup [] out = some (k', again) → again.map RunResult.bare = out.map RunResult.bare := by
  obtain ⟨out, attached⟩ : ∃ out, attachSpeedup [] threeRuns = some ([], out) := ⟨_, rfl⟩
  obtain ⟨_, _, ratios, _, _, again⟩ := attach_speedup_relative [] [] threeRuns out attached
  refine ⟨out, attached, ?_, fun r' member ratio isRatio => ?_, again⟩
  · obtain rfl : out = _ := (Prod.mk.inj (Option.some.inj attached)).2.symm
    decide +kernel
  · obtain ⟨serial, isBaseline, nearest, _⟩ := ratios r' member ratio isRatio
    exact ⟨serial, isBaseline, nearest⟩

end AsyncPipelines
