import AsyncPipelines.Core.Scripted
import AsyncPipelines.Lib.Vault
import AsyncPipelines.ToolDispatch

/-!
The argument dicts of `tool_dispatch.py` in one store of mutable objects: whoever makes the
calls keeps references to what it made them from, and the tools edit what they are given.
`ToolCall.__post_init__` copies on the way in, `_run_with_telemetry` on the way out.
-/

namespace AsyncPipelines

open Asyncio ObjectStore

variable {κ τ ε ψ : Type}

inductive ToolEnd (ε : Type)
  | returned (x : Nat)
  | raised (cls : ExcClass) (payload : ε)
  | cancelled

/-- The code of the registered tools. A tool knows of its arguments what it has read there. -/
structure Tools (κ τ ε ψ : Type) where
  start : String → ψ
  next : ψ → Instr κ τ
  heard : ψ → Answer κ τ → ψ
  awaits : ψ → Bool
  ended : ψ → Option (ToolEnd ε)

/-- A call in `_run_with_telemetry`: about to copy the arguments, in the tool or in the stub. -/
inductive CallCode (τ ψ : Type)
  | begun (call : ToolCall (Value τ))
  | inTool (tool : ψ) (env : Registers τ)
  | inStub (name : String)

/-- `ToolCall.__post_init__`. -/
def ToolCall.postInit (h : Store κ τ) (call : ToolCall (Value τ)) :
    Option (Store κ τ × ToolCall (Value τ)) :=
  (deepcopy h call.arguments).map fun copied => (copied.1, { call with arguments := copied.2 })

structure BuiltCall (κ τ : Type) where
  call : ToolCall (Value τ)
  store : Store κ τ
  dict : Value τ

def BuiltCall.snapshot (b : BuiltCall κ τ) : Snapshot κ τ := ⟨b.call.arguments, b.store, b.dict⟩

structure Owner (κ τ : Type) where
  store : Store κ τ := []
  env : Registers τ := []
  made : List (BuiltCall κ τ) := []

namespace Owner

inductive Act (κ τ : Type)
  | edit (i : Instr κ τ)
  | build (id name : String) (x : Nat)

def step (o : Owner κ τ) : Act κ τ → Option (Owner κ τ)
  | .edit i =>
      let done := exec o.store o.env i
      some { o with store := done.1, env := done.2.1 }
  | .build id name x => do
      let dict ← o.env[x]?
      let built ← ToolCall.postInit o.store ⟨id, name, dict⟩
      some { o with store := built.1, made := o.made ++ [⟨built.2, o.store, dict⟩] }

end Owner

namespace Dispatch

variable (d : Dispatch (Value τ) ε) (tools : Tools κ τ ε ψ)

def codeEnd : CallCode τ ψ → Option (FnEnd (Value τ) ε)
  | .begun _ => none
  | .inStub name => some (d.missingToolStub name)
  | .inTool tool env =>
      match tools.ended tool with
      | some (.returned x) => env[x]?.map .returned
      | some (.raised cls payload) => some (.raised cls payload)
      | some .cancelled => some .cancelled
      | none => none

/-- `await fn(...)`, once the arguments are copied to the register of `env`. -/
def enterTool (name : String) (env : Registers τ) : CallCode τ ψ :=
  if d.registry.contains name then .inTool (tools.start name) env else .inStub name

def codeStep (x : CallCode τ ψ) (told : Answer κ τ × Registers τ) : Option (CallCode τ ψ) :=
  match x with
  | .begun call => some (d.enterTool tools call.name told.2)
  | .inTool tool _ => if (d.codeEnd tools x).isNone then some (.inTool (tools.heard tool told.1) told.2) else none
  | .inStub _ => none

def storeStep (h : Store κ τ) : CallCode τ ψ → Option (Store κ τ × Answer κ τ × Registers τ)
  | .begun call => (deepcopy h call.arguments).map fun copied => (copied.1, .done, [copied.2])
  | .inTool tool env =>
      let done := exec h env (tools.next tool)
      some (done.1, done.2.2, done.2.1)
  | .inStub _ => none

def codeScript : Script (ToolCall (Value τ)) (Value τ) ε (CallCode τ ψ) (Answer κ τ × Registers τ) where
  start := fun _ call => .begun call
  move := d.codeStep tools
  aside := fun _ _ => none
  awaits := fun x => match x with
    | .inTool tool _ => tools.awaits tool
    | _ => false
  outcome := d.codeEnd tools
  settled := by
    intro x told out ended
    cases x with
    | begun call => simp [codeEnd] at ended
    | inTool tool env => simp [codeStep, ended]
    | inStub name => rfl
  kept := by
    intro x told y out _ moved
    simp at moved

structure Shared (κ τ ε ψ : Type) where
  run : Fanout.Scripted (ToolCall (Value τ)) (Value τ) (ToolResult (Value τ)) ε (CallCode τ ψ)
  store : Store κ τ
  env : Registers τ

inductive SharedAct (κ τ ε : Type)
  | core (a : Fanout.Act (Value τ) ℚ ε)
  | code (i : Nat)
  | finish (i : Nat) (clock : ℚ)
  | edit (i : Instr κ τ)

def Shared.step (w : Shared κ τ ε ψ) : SharedAct κ τ ε → Option (Shared κ τ ε ψ)
  | .core a => (w.run.step d.fanout (d.codeScript tools) (.core a)).map fun run => { w with run := run }
  | .code i => do
      let x ← w.run.code i
      let done ← storeStep tools w.store x
      let run ← w.run.step d.fanout (d.codeScript tools) (.move i done.2)
      some { w with run := run, store := done.1 }
  | .finish i clock =>
      (w.run.step d.fanout (d.codeScript tools) (.finish i clock)).map fun run => { w with run := run }
  | .edit i =>
      let done := exec w.store w.env i
      some { w with store := done.1, env := done.2.1 }

def Shared.init (caller : Caller) (o : Owner κ τ) : Shared κ τ ε ψ :=
  { run := Fanout.Scripted.init d.fanout caller, store := o.store, env := o.env }

structure Solo (κ τ ψ : Type) where
  store : Store κ τ
  code : CallCode τ ψ

def Solo.step (s : Solo κ τ ψ) (_ : Unit) : Option (Solo κ τ ψ) := do
  let done ← storeStep tools s.store s.code
  let code ← d.codeStep tools s.code done.2
  some ⟨done.1, code⟩

def alone (b : BuiltCall κ τ) : Solo κ τ ψ := ⟨b.store, d.enterTool tools b.call.name [b.dict]⟩

variable {d : Dispatch (Value τ) ε} {tools : Tools κ τ ε ψ} {home : Nat → Party} {h k : Store κ τ}
  {b : BuiltCall κ τ} {i : Nat}

theorem kept_of_built {o : Owner κ τ} (built : Runs.Reaches Owner.step {} o) :
    ∃ home, Vault home o.store o.env (o.made.map BuiltCall.snapshot) := by
  refine built.invariant (p := fun o => ∃ home, Vault home o.store o.env (o.made.map BuiltCall.snapshot)) ?_
    ⟨_, .start⟩
  rintro o a p ⟨home, vault⟩ stepped
  cases a with
  | edit edit =>
      obtain rfl := Option.some.inj stepped
      exact ⟨_, vault.edit edit⟩
  | build id name x =>
      simp only [Owner.step, Option.bind_eq_bind, Option.bind_eq_some_iff] at stepped
      obtain ⟨dict, found, built, posted, same⟩ := stepped
      obtain rfl := Option.some.inj same
      obtain ⟨copied, copies, rfl⟩ := Option.map_eq_some_iff.mp posted
      have taken := vault.take (List.mem_of_getElem? found) copies
      exact ⟨_, by simpa [BuiltCall.snapshot] using taken⟩

/-- In the shared store the code is where the solo run is, on objects of its own. -/
inductive Shadows (home : Nat → Party) (h : Store κ τ) (i : Nat) (s : Solo κ τ ψ) : CallCode τ ψ → Prop
  | inTool {tool : ψ} {env env' : Registers τ} {link : Nat → Nat → Prop} (place : s.code = .inTool tool env)
      (alike : AlikeIn home (.guest i) link s.store h) (linked : LinkedRegisters link env env')
      (owned : ∀ v ∈ env', Owned home h (.guest i) v) : Shadows home h i s (.inTool tool env')
  | inStub {name : String} (place : s.code = .inStub name) : Shadows home h i s (.inStub name)

inductive OnItsWay (d : Dispatch (Value τ) ε) (tools : Tools κ τ ε ψ) (home : Nat → Party) (h : Store κ τ)
    (i : Nat) (b : BuiltCall κ τ) : CallCode τ ψ → Prop
  | begun : OnItsWay d tools home h i b (.begun b.call)
  | entered {x : CallCode τ ψ} {s : Solo κ τ ψ} (ran : Runs.Reaches (Solo.step d tools) (d.alone tools b) s)
      (shadows : Shadows home h i s x) : OnItsWay d tools home h i b x

structure Isolated (d : Dispatch (Value τ) ε) (tools : Tools κ τ ε ψ) (made : List (BuiltCall κ τ))
    (home : Nat → Party) (w : Shared κ τ ε ψ) : Prop where
  kept : Vault home w.store w.env (made.map BuiltCall.snapshot)
  codes : ∀ i x, w.run.code i = some x → ∃ b, made[i]? = some b ∧ OnItsWay d tools home w.store i b x

variable {made : List (BuiltCall κ τ)} {w v : Shared κ τ ε ψ}

theorem OnItsWay.later {x : CallCode τ ψ} {q : Party} (way : OnItsWay d tools home h i b x)
    (within : Within home q h k) (other : q ≠ .guest i) :
    OnItsWay d tools (settle home h.length q) k i b x := by
  cases way with
  | begun => exact .begun
  | entered ran shadows =>
      refine .entered ran ?_
      cases shadows with
      | inTool place alike linked owned =>
          exact .inTool place (alike.later within other.symm) linked fun v member =>
            (owned v member).later within.grown
      | inStub place => exact .inStub place

theorem OnItsWay.enter (closed : Closed home h) (recorded : Recorded home h i b.snapshot)
    {done : Store κ τ × Answer κ τ × Registers τ} (copied : storeStep tools h (.begun b.call) = some done) :
    Within home (.guest i) h done.1 ∧
      OnItsWay d tools (settle home h.length (.guest i)) done.1 i b (d.enterTool tools b.call.name done.2.2) := by
  obtain ⟨k, v, link, copies, alike, linked, above, within, _, owned⟩ :=
    deepcopy_spec closed recorded.owned (Party.guest i)
  have copies : deepcopy h b.call.arguments = some (k, v) := copies
  obtain rfl : (k, Answer.done, [v]) = done := by
    simpa only [storeStep, copies, Option.map_some, Option.some.injEq] using copied
  obtain ⟨origin, before, start⟩ := recorded.same
  refine ⟨within, .entered (Runs.Reaches.refl _) ?_⟩
  unfold alone enterTool
  split
  · have both : AlikeIn (settle home h.length (.guest i)) (.guest i) _ b.store k :=
      ⟨before.toAlike.trans alike, fun {l m} ⟨n, _, member⟩ => settle_new (above n m member)⟩
    exact .inTool rfl both (.cons (start.trans linked) .nil) (by simpa using owned)
  · exact .inStub rfl

inductive LinkedEnds (link : Nat → Nat → Prop) : FnEnd (Value τ) ε → FnEnd (Value τ) ε → Prop
  | returned {v v' : Value τ} (linked : v.Linked link v') : LinkedEnds link (.returned v) (.returned v')
  | raised (cls : ExcClass) (payload : ε) : LinkedEnds link (.raised cls payload) (.raised cls payload)
  | cancelled : LinkedEnds link .cancelled .cancelled

theorem codeEnd_linked (d : Dispatch (Value τ) ε) (tools : Tools κ τ ε ψ) {link : Nat → Nat → Prop}
    {env env' : Registers τ} (linked : LinkedRegisters link env env') (tool : ψ) :
    (d.codeEnd tools (.inTool tool env) = none ∧ d.codeEnd tools (.inTool tool env') = none) ∨
      ∃ out out', d.codeEnd tools (.inTool tool env) = some out ∧
        d.codeEnd tools (.inTool tool env') = some out' ∧ LinkedEnds link out out' := by
  simp only [codeEnd]
  split
  · rename_i x _
    rcases linked.get x with ⟨missing, missing'⟩ | ⟨v, v', found, found', one⟩
    · exact .inl ⟨by simp [missing], by simp [missing']⟩
    · exact .inr ⟨.returned v, .returned v', by simp [found], by simp [found'], .returned one⟩
  · exact .inr ⟨_, _, rfl, rfl, .raised _ _⟩
  · exact .inr ⟨_, _, rfl, rfl, .cancelled⟩
  · exact .inl ⟨rfl, rfl⟩

theorem OnItsWay.next {x y : CallCode τ ψ} (way : OnItsWay d tools home h i b x) (closed : Closed home h)
    (recorded : Recorded home h i b.snapshot) {done : Store κ τ × Answer κ τ × Registers τ}
    (stored : storeStep tools h x = some done) (moved : d.codeStep tools x done.2 = some y) :
    Within home (.guest i) h done.1 ∧
      OnItsWay d tools (settle home h.length (.guest i)) done.1 i b y := by
  cases way with
  | begun =>
      obtain rfl : d.enterTool tools b.call.name done.2.2 = y := by simpa [codeStep] using moved
      exact OnItsWay.enter closed recorded stored
  | @entered x s ran shadows =>
      cases shadows with
      | inStub place => simp [storeStep] at stored
      | @inTool tool env env' link place alike linked owned =>
          obtain rfl := Option.some.inj stored
          simp only [codeStep] at moved
          split at moved
          · rename_i open_
            obtain rfl := Option.some.inj moved
            obtain ⟨answers, more, alike', linked'⟩ := alike.exec linked (tools.next tool)
            obtain ⟨within, owned'⟩ := exec_within closed owned (tools.next tool)
            refine ⟨within, .entered (s := ⟨(exec s.store env (tools.next tool)).1,
              .inTool (tools.heard tool (exec s.store env (tools.next tool)).2.2)
                (exec s.store env (tools.next tool)).2.1⟩) (ran.next (a := ()) ?_) ?_⟩
            · have open' : d.codeEnd tools (.inTool tool env) = none := by
                rcases codeEnd_linked d tools linked tool with both | ⟨_, _, _, ended, _⟩
                · exact both.1
                · simp [ended] at open_
              simp [Solo.step, place, storeStep, codeStep, open']
            · dsimp only
              rw [answers]
              exact .inTool rfl alike' linked' owned'
          · simp at moved

/-- The fan-out takes a step: its calls go on from where they are, or begin. -/
theorem follow_code {f : Fanout (ToolCall (Value τ)) (Value τ) ℚ (ToolResult (Value τ)) ε}
    {p : Script (ToolCall (Value τ)) (Value τ) ε (CallCode τ ψ) (Answer κ τ × Registers τ)}
    {r t : Fanout.Scripted (ToolCall (Value τ)) (Value τ) (ToolResult (Value τ)) ε (CallCode τ ψ)}
    {a : Fanout.Act (Value τ) ℚ ε} (followed : r.follow f p a = some t) {x : CallCode τ ψ}
    (code : t.code i = some x) :
    r.code i = some x ∨ ∃ item, f.items[i]? = some item ∧ x = p.start i item := by
  obtain ⟨core, _, rfl⟩ := Option.map_eq_some_iff.mp followed
  simp only [Fanout.Scripted.codeAfter] at code
  split at code
  · obtain ⟨item, found, rfl⟩ := Option.map_eq_some_iff.mp code
    exact .inr ⟨item, found, rfl⟩
  · exact .inl code

theorem Isolated.followed {a : Fanout.Act (Value τ) ℚ ε} (isolated : Isolated d tools made home w)
    (calls : d.toolCalls = made.map BuiltCall.call)
    {run : Fanout.Scripted (ToolCall (Value τ)) (Value τ) (ToolResult (Value τ)) ε (CallCode τ ψ)}
    (followed : w.run.follow d.fanout (d.codeScript tools) a = some run) :
    Isolated d tools made home { w with run := run } := by
  refine ⟨isolated.kept, fun i x code => ?_⟩
  rcases follow_code followed code with before | ⟨call, found, rfl⟩
  · exact isolated.codes i x before
  · have found : d.toolCalls[i]? = some call := found
    rw [calls, List.getElem?_map] at found
    obtain ⟨b, built, rfl⟩ := Option.map_eq_some_iff.mp found
    exact ⟨b, built, .begun⟩

theorem Isolated.step {a : SharedAct κ τ ε} (isolated : Isolated d tools made home w)
    (calls : d.toolCalls = made.map BuiltCall.call) (stepped : w.step d tools a = some v) :
    ∃ home', Isolated d tools made home' v := by
  have kept := isolated.kept
  cases a with
  | core a =>
      obtain ⟨run, moved, rfl⟩ := Option.map_eq_some_iff.mp stepped
      exact ⟨home, isolated.followed calls (Fanout.Follows.core_follow moved).1⟩
  | finish i clock =>
      obtain ⟨run, moved, rfl⟩ := Option.map_eq_some_iff.mp stepped
      simp only [Fanout.Scripted.step] at moved
      split at moved
      · exact ⟨home, isolated.followed calls moved⟩
      · simp at moved
  | edit edit =>
      obtain rfl := Option.some.inj stepped
      obtain ⟨within, _⟩ := exec_within kept.closed kept.client edit
      refine ⟨_, kept.edit edit, fun i x code => ?_⟩
      obtain ⟨b, found, way⟩ := isolated.codes i x code
      exact ⟨b, found, way.later within (by simp)⟩
  | code i =>
      simp only [Shared.step, Option.bind_eq_bind, Option.bind_eq_some_iff] at stepped
      obtain ⟨x, code, done, stored, run, moved, same⟩ := stepped
      obtain rfl := Option.some.inj same
      simp only [Fanout.Scripted.step] at moved
      split at moved
      · rw [code, Option.bind_some] at moved
        obtain ⟨y, went, rfl⟩ := Option.map_eq_some_iff.mp moved
        obtain ⟨b, found, way⟩ := isolated.codes i x code
        have recorded := kept.records i b.snapshot (by simp [found])
        obtain ⟨within, gone⟩ := way.next kept.closed recorded stored went
        refine ⟨_, kept.later within (by simp), fun j z code' => ?_⟩
        by_cases own : j = i
        · subst own
          obtain rfl : y = z := by simpa [Fanout.Scripted.setCode] using code'
          exact ⟨b, found, gone⟩
        · obtain ⟨c, found, way⟩ := isolated.codes j z (by simpa [Fanout.Scripted.setCode, own] using code')
          refine ⟨c, found, way.later within ?_⟩
          simp only [ne_eq, Party.guest.injEq]
          exact fun same => own same.symm
      · simp at moved

theorem isolated_of_reaches {o : Owner κ τ} {caller : Caller} (built : Runs.Reaches Owner.step {} o)
    (calls : d.toolCalls = o.made.map BuiltCall.call)
    (reached : Runs.Reaches (Shared.step d tools) (Shared.init d caller o) w) :
    ∃ home, Isolated d tools o.made home w := by
  refine reached.invariant (p := fun w => ∃ home, Isolated d tools o.made home w) ?_ ?_
  · rintro w a v ⟨home, isolated⟩ stepped
    exact isolated.step calls stepped
  · obtain ⟨home, kept⟩ := kept_of_built built
    exact ⟨home, kept, fun i x code => by simp [Shared.init, Fanout.Scripted.init] at code⟩

theorem unregistered_place {call : ToolCall (Value τ)} (missing : d.registry.contains call.name = false)
    {x : CallCode τ ψ} (reach : (d.codeScript tools).Reach i call x) :
    x = .begun call ∨ x = .inStub call.name := by
  induction reach with
  | start => exact .inl rfl
  | move before moved ih =>
      rcases ih with rfl | rfl
      · have entered : d.enterTool tools call.name _ = _ := Option.some.inj moved
        exact .inr (by simpa [enterTool, missing] using entered.symm)
      · simp [codeScript, codeStep] at moved
  | aside before moved => simp [codeScript] at moved

theorem stubs_agree : Fanout.StubsAgree d.fanout (d.codeScript tools) := by
  intro i call stub x out _ isStub reach ended
  have isStub : (if d.registry.contains call.name then none else some (d.missingToolStub call.name)) =
      some stub := isStub
  split at isStub
  · simp at isStub
  · rename_i missing
    obtain rfl := Option.some.inj isStub
    rcases unregistered_place (by simpa using missing) reach with rfl | rfl
    · simp [codeScript, codeEnd] at ended
    · exact Option.some.inj ended

theorem scripted_of_reaches {o : Owner κ τ} {caller : Caller}
    (reached : Runs.Reaches (Shared.step d tools) (Shared.init d caller o) w) :
    Runs.Reaches (Fanout.Scripted.step d.fanout (d.codeScript tools)) (Fanout.Scripted.init d.fanout caller)
      w.run := by
  refine reached.invariant (p := fun w => Runs.Reaches (Fanout.Scripted.step d.fanout (d.codeScript tools))
    (Fanout.Scripted.init d.fanout caller) w.run) ?_ (Runs.Reaches.refl _)
  intro w a v before stepped
  cases a with
  | core a =>
      obtain ⟨run, moved, rfl⟩ := Option.map_eq_some_iff.mp stepped
      exact before.next moved
  | finish i clock =>
      obtain ⟨run, moved, rfl⟩ := Option.map_eq_some_iff.mp stepped
      exact before.next moved
  | edit edit =>
      obtain rfl := Option.some.inj stepped
      exact before
  | code i =>
      simp only [Shared.step, Option.bind_eq_bind, Option.bind_eq_some_iff] at stepped
      obtain ⟨x, _, done, _, run, moved, same⟩ := stepped
      obtain rfl := Option.some.inj same
      exact before.next moved

/-- The same result up to the time it took, where a value is the object the tool returned. -/
structure SameResult (h : Store κ τ) (r : ToolResult (Value τ)) (h' : Store κ τ)
    (r' : ToolResult (Value τ)) : Prop where
  toolCallId : r.toolCallId = r'.toolCallId
  name : r.name = r'.name
  ok : r.ok = r'.ok
  errorRepr : r.errorRepr = r'.errorRepr
  value : (r.value = none ∧ r'.value = none) ∨
    ∃ v v', r.value = some v ∧ r'.value = some v' ∧ Same h v h' v'

/-- `result` is what `_run_with_telemetry` makes of the tool that ran alone on what the call was
built with. -/
def AsAlone (d : Dispatch (Value τ) ε) (tools : Tools κ τ ε ψ) (i : Nat) (b : BuiltCall κ τ) (h : Store κ τ)
    (result : ToolResult (Value τ)) : Prop :=
  ∃ s out own, Runs.Reaches (Solo.step d tools) (d.alone tools b) s ∧ d.codeEnd tools s.code = some out ∧
    d.runWithTelemetry i b.call result.elapsedMs out.undisturbed = .stored own ∧
    SameResult s.store own h result

theorem SameResult.symm {r r' : ToolResult (Value τ)} (same : SameResult h r k r') : SameResult k r' h r := by
  refine ⟨same.toolCallId.symm, same.name.symm, same.ok.symm, same.errorRepr.symm, ?_⟩
  rcases same.value with ⟨missing, missing'⟩ | ⟨v, v', found, found', contents⟩
  · exact .inl ⟨missing', missing⟩
  · exact .inr ⟨v', v, found', found, contents.symm⟩

theorem SameResult.trans {j : Store κ τ} {r r' r'' : ToolResult (Value τ)} (first : SameResult h r k r')
    (second : SameResult k r' j r'') : SameResult h r j r'' := by
  refine ⟨first.toolCallId.trans second.toolCallId, first.name.trans second.name, first.ok.trans second.ok,
    first.errorRepr.trans second.errorRepr, ?_⟩
  rcases first.value with ⟨missing, missing'⟩ | ⟨v, v', found, found', contents⟩
  · rcases second.value with ⟨_, missing''⟩ | ⟨u, u', there, _⟩
    · exact .inl ⟨missing, missing''⟩
    · simp [missing'] at there
  · rcases second.value with ⟨missing, _⟩ | ⟨u, u', there, there', contents'⟩
    · simp [found'] at missing
    · obtain rfl : v' = u := Option.some.inj (found'.symm.trans there)
      exact .inr ⟨v, u', found, there', contents.trans contents'⟩

theorem runWithTelemetry_judged {ended : CallEnd (Value τ) ε} {out : FnEnd (Value τ) ε}
    (judged : classify d.timeout (some d.owner) i ended = out.judged i) (call : ToolCall (Value τ))
    (elapsed : ℚ) :
    d.runWithTelemetry i call elapsed ended = d.runWithTelemetry i call elapsed out.undisturbed := by
  unfold runWithTelemetry
  rw [judged, (out.undisturbed_faithful d.timeout).judged rfl rfl]
  rfl

theorem failed_value (out : FnEnd (Value τ) ε) {e : Exc ε} (failed : out.judged i = .error e)
    {call : ToolCall (Value τ)} {elapsed : ℚ} {result : ToolResult (Value τ)}
    (stored : d.runWithTelemetry i call elapsed out.undisturbed = .stored result) : result.value = none := by
  unfold runWithTelemetry at stored
  rw [(out.undisturbed_faithful d.timeout).judged rfl rfl] at stored
  simp only [FnEnd.undisturbed, failed] at stored
  split at stored
  · simp at stored
  · split at stored
    · simp at stored
    · simp only [Completion.stored.injEq] at stored
      simp [← stored]

/-- Ends that are linked are stored as results with linked values. -/
theorem runWithTelemetry_linked {link : Nat → Nat → Prop} {out out' : FnEnd (Value τ) ε}
    (linked : LinkedEnds link out out') (alike : Alike link h k) {call : ToolCall (Value τ)} {elapsed : ℚ}
    {result : ToolResult (Value τ)}
    (stored : d.runWithTelemetry i call elapsed out'.undisturbed = .stored result) :
    ∃ own, d.runWithTelemetry i call elapsed out.undisturbed = .stored own ∧ SameResult h own k result := by
  cases linked with
  | @returned v v' linked =>
      unfold runWithTelemetry at stored ⊢
      rw [(FnEnd.undisturbed_faithful _ d.timeout).judged rfl rfl] at stored ⊢
      simp only [FnEnd.undisturbed, FnEnd.judged, Completion.stored.injEq] at stored ⊢
      subst stored
      exact ⟨_, rfl, rfl, rfl, rfl, rfl, .inr ⟨v, v', rfl, rfl, link, alike, linked⟩⟩
  | raised cls payload =>
      have missing := failed_value (.raised cls payload) rfl stored
      exact ⟨result, stored, rfl, rfl, rfl, rfl, .inl ⟨missing, missing⟩⟩
  | cancelled =>
      have missing := failed_value .cancelled rfl stored
      exact ⟨result, stored, rfl, rfl, rfl, rfl, .inl ⟨missing, missing⟩⟩

theorem returned_alone {o : Owner κ τ} {caller : Caller} (built : Runs.Reaches Owner.step {} o)
    (calls : d.toolCalls = o.made.map BuiltCall.call)
    (reached : Runs.Reaches (Shared.step d tools) (Shared.init d caller o) w)
    (early : ∀ i, .deadline i ∉ w.run.core.log) {results : List (ToolResult (Value τ))}
    (list : returned w.run.core = some results) :
    results.length = o.made.length ∧ ∀ i b, o.made[i]? = some b →
      ∃ result, results[i]? = some result ∧ AsAlone d tools i b w.store result := by
  have scripted := scripted_of_reaches reached
  obtain ⟨_, size, _, each⟩ := returned_complete d caller w.run.core results
    (Fanout.core_of_reaches scripted) list
  have follows := scripted.invariant
    (fun _ _ _ follows stepped => Fanout.Follows.step_stubs d.fanout_strict stubs_agree follows stepped)
    (Fanout.Follows.init d.fanout (d.codeScript tools) caller)
  obtain ⟨home, isolated⟩ := isolated_of_reaches built calls reached
  refine ⟨by simp [size, calls], fun i b found => ?_⟩
  obtain ⟨elapsed, ended, result, kept, record, faithful, running, _, stored⟩ := each i b.call
    (by simp [calls, found])
  have inLog : ∀ e, e ∈ opening i b.call ended.expired ++ [.ended i ended (.stored result)] →
      e ∈ w.run.core.log := fun e member => (mem_history.mp (record ▸ member)).1
  have unexpired : ended.expired = false := by
    rw [← Bool.not_eq_true]
    intro expired
    exact early i (inLog _ (by simp [opening, expired]))
  obtain ⟨x, code, isOut⟩ := follows.ended i ended (.stored result)
    (inLog _ (List.mem_append_right _ (List.mem_singleton.mpr rfl)))
  obtain ⟨c, found', way⟩ := isolated.codes i x code
  obtain rfl : b = c := Option.some.inj (found.symm.trans found')
  have isOut : d.codeEnd tools x = some ended.out := isOut
  have time : result.elapsedMs = elapsed := (stored_result stored).2.2.1
  rw [runWithTelemetry_judged (faithful.judged unexpired running _ _)] at stored
  refine ⟨result, kept, ?_⟩
  cases way with
  | begun => simp [codeEnd] at isOut
  | @entered _ s ran shadows =>
      cases shadows with
      | inStub place =>
          have own : d.codeEnd tools s.code = some ended.out := place ▸ isOut
          have missing : result.value = none := by
            rw [← Option.some.inj isOut] at stored
            exact failed_value _ rfl stored
          exact ⟨s, ended.out, result, ran, own, time ▸ stored, rfl, rfl, rfl, rfl, .inl ⟨missing, missing⟩⟩
      | inTool place alike linked _ =>
          rcases codeEnd_linked d tools linked _ with ⟨_, open_⟩ | ⟨out, out', own, ended', ends⟩
          · exact absurd (open_.symm.trans isOut) (by simp)
          · obtain rfl : out' = ended.out := Option.some.inj (ended'.symm.trans isOut)
            obtain ⟨result', stored', same⟩ := runWithTelemetry_linked ends alike.toAlike stored
            exact ⟨s, out, result', ran, place ▸ own, time ▸ stored', same⟩

theorem stored_again {ended : CallEnd (Value τ) ε} {call : ToolCall (Value τ)} {elapsed : ℚ}
    {result : ToolResult (Value τ)} (stored : d.runWithTelemetry i call elapsed ended = .stored result)
    (later : ℚ) :
    d.runWithTelemetry i call later ended = .stored { result with elapsedMs := later } := by
  unfold runWithTelemetry at stored ⊢
  split at stored
  · rename_i judged
    simp only [Completion.stored.injEq] at stored
    simp [← stored]
  · rename_i judged
    split at stored
    · simp at stored
    · split at stored
      · simp at stored
      · rename_i isException collects
        simp only [Completion.stored.injEq] at stored
        simp [isException, collects, ← stored]

theorem AsAlone.unique {j : Store κ τ} {r r' : ToolResult (Value τ)} (first : AsAlone d tools i b h r)
    (second : AsAlone d tools i b j r') : SameResult h r j r' := by
  obtain ⟨s, out, own, ran, ended, stored, same⟩ := first
  obtain ⟨s', out', own', ran', ended', stored', same'⟩ := second
  have rests : ∀ (s : Solo κ τ ψ) out, d.codeEnd tools s.code = some out → Solo.step d tools s () = none := by
    intro s out ended
    have settled := (d.codeScript tools).settled s.code
    simp only [Solo.step, Option.bind_eq_bind, Option.bind_eq_none_iff]
    intro done _ code moved
    exact absurd (moved.symm.trans (settled done.2 out ended)) (by simp)
  obtain rfl := ran.rest_unique ran' (rests s out ended) (rests s' out' ended')
  obtain rfl : out = out' := Option.some.inj (ended.symm.trans ended')
  obtain rfl : { own with elapsedMs := r'.elapsedMs } = own' :=
    Completion.stored.inj ((stored_again stored _).symm.trans stored')
  have back := same.symm
  exact back.trans ⟨same'.toolCallId, same'.name, same'.ok, same'.errorRepr, same'.value⟩

theorem AsAlone.of_limits {concurrency : Option Nat} {timeout : Option ℚ} {owner : Nat}
    {r : ToolResult (Value τ)} (first : AsAlone { d with concurrency, timeout, owner } tools i b h r) :
    AsAlone d tools i b h r := by
  obtain ⟨s, out, own, ran, ended, stored, same⟩ := first
  refine ⟨s, out, own, ran, ended, ?_, same⟩
  unfold runWithTelemetry at stored ⊢
  rw [(out.undisturbed_faithful _).judged rfl rfl] at stored ⊢
  exact stored

/-- Every call keeps the arguments it was built with, whatever its owner and the tools do to
theirs, and where no deadline fires the results are those of the tools alone, in every run and
with every concurrency and timeout. -/
theorem dispatch_isolated (d : Dispatch (Value τ) ε) (tools : Tools κ τ ε ψ) (o : Owner κ τ)
    (built : Runs.Reaches Owner.step {} o) (calls : d.toolCalls = o.made.map BuiltCall.call) :
    (∀ caller w, Runs.Reaches (Shared.step d tools) (Shared.init d caller o) w →
      ∀ (i : Nat) b, o.made[i]? = some b → Same b.store b.dict w.store b.call.arguments) ∧
    ∀ caller w results, Runs.Reaches (Shared.step d tools) (Shared.init d caller o) w →
      (∀ i, .deadline i ∉ w.run.core.log) → returned w.run.core = some results →
      results.length = o.made.length ∧
      (∀ (i : Nat) b, o.made[i]? = some b →
        ∃ result, results[i]? = some result ∧ AsAlone d tools i b w.store result) ∧
      ∀ concurrency timeout owner caller' w' results',
        Runs.Reaches (Shared.step { d with concurrency, timeout, owner } tools)
          (Shared.init { d with concurrency, timeout, owner } caller' o) w' →
        (∀ i, .deadline i ∉ w'.run.core.log) → returned w'.run.core = some results' →
        results.length = results'.length ∧ ∀ (i : Nat) r r', results[i]? = some r → results'[i]? = some r' →
          SameResult w.store r w'.store r' := by
  refine ⟨fun caller w reached i b found => ?_, fun caller w results reached early list => ?_⟩
  · obtain ⟨home, isolated⟩ := isolated_of_reaches built calls reached
    exact (isolated.kept.records i b.snapshot (by simp [found])).contents
  · obtain ⟨length, each⟩ := returned_alone built calls reached early list
    refine ⟨length, each, fun concurrency timeout owner caller' w' results' reached' early' list' => ?_⟩
    obtain ⟨length', each'⟩ := returned_alone (d := { d with concurrency, timeout, owner }) built calls reached' early' list'
    refine ⟨length.trans length'.symm, fun i r r' kept kept' => ?_⟩
    have bound : i < o.made.length := length ▸ (List.getElem?_eq_some_iff.mp kept).1
    obtain ⟨q, found, alone⟩ := each i _ (List.getElem?_eq_getElem bound)
    obtain ⟨q', found', alone'⟩ := each' i _ (List.getElem?_eq_getElem bound)
    obtain rfl : q = r := Option.some.inj (found.symm.trans kept)
    obtain rfl : q' = r' := Option.some.inj (found'.symm.trans kept')
    exact alone.unique alone'.of_limits

def bump : Tools Nat Nat Unit Nat where
  start := fun _ => 0
  next := fun place => match place with
    | 0 => .look 0
    | 1 => .const 7
    | _ => .write 1 [(0, 2)]
  heard := fun place _ => place + 1
  awaits := fun place => place == 1
  ended := fun place => if place = 3 then some (.returned 1) else none

def shareOne : List (Owner.Act Nat Nat) :=
  [.edit (.const 1), .edit (.make 0 [(0, 0)]), .edit (.make 0 [(0, 1)]), .build "a" "bump" 2,
    .build "b" "bump" 2, .edit (.write 1 [])]

def bumpBoth (calls : List (ToolCall (Value Nat))) (concurrency : Option Nat) :
    Dispatch (Value Nat) Unit where
  toolCalls := calls
  registry := ⟨["bump"]⟩
  returnExceptions := true
  concurrency := concurrency
  timeout := none
  owner := 0
  notFound := fun _ => ()
  reprs := ⟨fun _ => "", id, fun _ => ""⟩

def overlapping : List (SharedAct Nat Nat Unit) :=
  [.core (.run 0), .code 0, .code 0, .core (.user (.suspend 0)), .core (.run 1), .code 1, .code 1,
    .core (.user (.suspend 1)), .core (.user (.resume 0)), .code 0, .code 0, .finish 0 1,
    .core (.user (.resume 1)), .code 1, .code 1, .finish 1 2, .core (.loop (.taskDone 0)),
    .core (.loop (.taskDone 1)), .core (.loop .wakeCaller)]

def inTurn : List (SharedAct Nat Nat Unit) :=
  [.core (.run 0), .code 0, .code 0, .code 0, .code 0, .finish 0 1, .edit (.write 2 []), .core (.run 1),
    .code 1, .code 1, .code 1, .code 1, .finish 1 2, .core (.loop (.taskDone 0)),
    .core (.loop (.taskDone 1)), .core (.loop .wakeCaller)]

def isDeadline : Event (ToolCall (Value Nat)) (Value Nat) (ToolResult (Value Nat)) Unit → Bool
  | .deadline _ => true
  | _ => false

theorem dispatch_isolated_shared : ∃ (o : Owner Nat Nat) (w w' : Shared Nat Nat Unit Nat)
    (results results' : List (ToolResult (Value Nat))),
    o.made.map (·.dict) = [.ref 1, .ref 1] ∧ returned w.run.core = some results ∧
    returned w'.run.core = some results' ∧ results.map (·.ok) = [true, true] ∧
    (∀ (i : Nat) b, o.made[i]? = some b → Same b.store b.dict w.store b.call.arguments) ∧
    ∀ (i : Nat) r r', results[i]? = some r → results'[i]? = some r' → SameResult w.store r w'.store r' := by
  have builds : (Runs.run Owner.step ({} : Owner Nat Nat) shareOne).any (fun o =>
      o.made.map (·.dict) == [.ref 1, .ref 1] &&
      (Runs.run (Shared.step (bumpBoth (o.made.map (·.call)) none) bump)
        (Shared.init (bumpBoth (o.made.map (·.call)) none) { task := {} } o) overlapping).any (fun w =>
          !w.run.core.log.any isDeadline && (returned w.run.core).any fun results =>
            results.map (·.ok) == [true, true]) &&
      (Runs.run (Shared.step (bumpBoth (o.made.map (·.call)) (some 1)) bump)
        (Shared.init (bumpBoth (o.made.map (·.call)) (some 1)) { task := {} } o) inTurn).any (fun w =>
          !w.run.core.log.any isDeadline && (returned w.run.core).isSome)) = true := by
    decide
  obtain ⟨o, made, checked⟩ := (Option.any_eq_true _ _).mp builds
  simp only [Bool.and_eq_true, beq_iff_eq] at checked
  obtain ⟨⟨dicts, first⟩, second⟩ := checked
  obtain ⟨w, ran, ends⟩ := (Option.any_eq_true _ _).mp first
  obtain ⟨w', ran', ends'⟩ := (Option.any_eq_true _ _).mp second
  simp only [Bool.and_eq_true, Bool.not_eq_true', List.any_eq_false] at ends ends'
  obtain ⟨results, list, oks⟩ := (Option.any_eq_true _ _).mp ends.2
  obtain ⟨results', list'⟩ := Option.isSome_iff_exists.mp ends'.2
  obtain ⟨records, runs⟩ := dispatch_isolated (bumpBoth (o.made.map (·.call)) none) bump o ⟨_, made⟩ rfl
  obtain ⟨_, _, others⟩ := runs { task := {} } w results ⟨_, ran⟩
    (fun i member => ends.1 _ member rfl) list
  refine ⟨o, w, w', results, results', dicts, list, list', beq_iff_eq.mp oks, records _ w ⟨_, ran⟩, ?_⟩
  exact (others (some 1) none 0 { task := {} } w' results' ⟨_, ran'⟩
    (fun i member => ends'.1 _ member rfl) list').2

end Dispatch

end AsyncPipelines
