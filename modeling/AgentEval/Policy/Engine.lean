import AgentEval.Async.Runs
import AgentEval.Crypto.Sha256
import AgentEval.Js.Buffer
import AgentEval.Worker.Thrown

/-!
# `policy/engine.ts`: the policy engine

The engine loads a bundle once and asks it for decisions. What the world does at a decision (reading
the bundle, instantiating it, evaluating an entrypoint) is a `Surroundings`: it may return any value,
or throw any. A load in flight is shared by the calls that wait for it, so it is one operation here,
at the moment at which the first of them goes on.

* `PolicyEngine.load`, `PolicyEngine.evaluate` — the engine; `asBoolean` — a decision read as a
  boolean.
* `Surroundings.Legible` — what is thrown has a message; **`evaluate_ok`**: a decision is then made,
  and what it says.
-/

namespace AgentEval.Policy

open Js Sha256 Worker

/-- The decisions this build knows how to ask for.
Source: `engine.ts`, `PolicyEntrypoint` -/
inductive PolicyEntrypoint where
  /-- Whether a person has to approve. -/
  | requireApproval
  /-- Whether a destination may be reached. -/
  | allowEgress
  /-- Whether the run is over its budget. -/
  | denyBudget
  /-- Whether a user may. -/
  | authzAllow
  deriving DecidableEq

/-- The text of an entrypoint. -/
def PolicyEntrypoint.text : PolicyEntrypoint → JsString
  | requireApproval => js "agenteval/approval/require_approval"
  | allowEgress => js "agenteval/egress/allow_egress"
  | denyBudget => js "agenteval/budget/deny_budget"
  | authzAllow => js "agenteval/authz/allow"

/-- Source: `engine.ts`, `PolicyDecision` -/
structure PolicyDecision where
  /-- The raw value; `undefined` when the entrypoint did not run. -/
  value : JsVal
  /-- True only when the module produced this value. -/
  evaluated : Bool
  /-- Why the engine could not answer. -/
  unavailableReason : Option JsString
  /-- The bundle that produced it. -/
  bundleDigest : JsString
  /-- What was asked. -/
  entrypoint : PolicyEntrypoint
  /-- How long it took. -/
  durationMs : Number

/-- What the world does at one decision. -/
structure Surroundings where
  /-- Reading the bundle. -/
  readFile : Except Thrown Bytes
  /-- The loader and `setData`. -/
  instantiate : Except Thrown Unit
  /-- `policy.evaluate` on an input: whatever value it returns. -/
  evaluate : JsVal → Except Thrown JsVal
  /-- The clock before. -/
  started : TimeValue
  /-- The clock after. -/
  finished : TimeValue

/-- Source: `engine.ts`, `PolicyEngine` -/
structure PolicyEngine where
  /-- Where the bundle is. -/
  bundlePath : JsString
  /-- Whether the module was instantiated. -/
  policy : Bool
  /-- Why it could not be loaded. -/
  loadFailure : Option JsString
  /-- The digest of the bundle. -/
  digest : JsString

namespace PolicyEngine

/-- A new engine.
Source: `engine.ts`, `PolicyEngine.constructor` -/
def start (bundlePath : JsString) : PolicyEngine where
  bundlePath := bundlePath
  policy := false
  loadFailure := none
  digest := js "unloaded"

section

variable (host : JsVal → Except JsError JsString) (world : Surroundings)

/-- The `catch` of a load.
Source: `engine.ts`, `PolicyEngine.load` -/
def failed (engine : PolicyEngine) (thrown : Thrown) : Except JsError Unit × PolicyEngine :=
  match thrown.message host with
  | .error e => (.error e, engine)
  | .ok message =>
    (.ok (), { engine with
      loadFailure := some (js "Policy bundle could not be loaded from " ++ engine.bundlePath ++
        js ": " ++ message ++ js ". Run scripts/build-policy-bundle.sh. " ++
        js "Every decision will fail closed until it is available.") })

/-- Load and instantiate the bundle, once.
Source: `engine.ts`, `PolicyEngine.load` -/
def load (engine : PolicyEngine) : Except JsError Unit × PolicyEngine :=
  if engine.policy ∨ engine.loadFailure.isSome then (.ok (), engine)
  else
    match world.readFile with
    | .error thrown => engine.failed host thrown
    | .ok wasm =>
      let read := { engine with digest := js "sha256:" ++ toHex (sha256 wasm).bytes }
      match world.instantiate with
      | .error thrown => read.failed host thrown
      | .ok () => (.ok (), { read with policy := true })

/-- `results[0]?.result`. -/
def resultOf : JsVal → JsVal
  | .obj ps => getProp ps (js "result")
  | _ => .undefined

/-- A decision that was not made. -/
def unavailable (engine : PolicyEngine) (entrypoint : PolicyEntrypoint) (reason : JsString) :
    PolicyDecision where
  value := .undefined
  evaluated := false
  unavailableReason := some reason
  bundleDigest := engine.digest
  entrypoint := entrypoint
  durationMs := (Number.ofInt world.finished.ms).sub (.ofInt world.started.ms)

/-- What a loaded engine decides.
Source: `engine.ts`, `PolicyEngine.evaluate` -/
def decide (engine : PolicyEngine) (entrypoint : PolicyEntrypoint) (input : JsVal) :
    Except JsError PolicyDecision :=
  if !engine.policy then
    .ok (engine.unavailable world entrypoint
      (engine.loadFailure.getD (js "Policy engine is not loaded.")))
  else
    match world.evaluate input with
    | .error thrown => (thrown.message host).map fun message =>
      engine.unavailable world entrypoint (js "Policy evaluation threw: " ++ message)
    | .ok (.arr (first :: _)) =>
      .ok { value := resultOf first
            evaluated := true
            unavailableReason := none
            bundleDigest := engine.digest
            entrypoint := entrypoint
            durationMs := (Number.ofInt world.finished.ms).sub (.ofInt world.started.ms) }
    | .ok _ => .ok (engine.unavailable world entrypoint
        (js "Entrypoint \"" ++ entrypoint.text ++ js "\" returned no result."))

/-- Evaluate one entrypoint.
Source: `engine.ts`, `PolicyEngine.evaluate` -/
def evaluate (entrypoint : PolicyEntrypoint) (input : JsVal) (engine : PolicyEngine) :
    Except JsError PolicyDecision × PolicyEngine :=
  match engine.load host world with
  | (.error e, loaded) => (.error e, loaded)
  | (.ok (), loaded) => (loaded.decide host world entrypoint input, loaded)

end

end PolicyEngine

/-- `typeof v`. -/
def typeOf : JsVal → JsString
  | .undefined => js "undefined"
  | .bool _ => js "boolean"
  | .num _ => js "number"
  | .str _ => js "string"
  | .bigint _ => js "bigint"
  | .function => js "function"
  | .symbol => js "symbol"
  | _ => js "object"

/-- Read a decision as a boolean, choosing the safe answer when it is unavailable.
Source: `engine.ts`, `PolicyEngine.decideBoolean` -/
def asBoolean (safeDefault : Bool) (decision : PolicyDecision) : Bool × PolicyDecision :=
  if !decision.evaluated then (safeDefault, decision)
  else
    match decision.value with
    | .bool b => (b, decision)
    | v => (safeDefault, { decision with
        evaluated := false
        unavailableReason := some (js "Expected boolean from \"" ++ decision.entrypoint.text ++
          js "\", got " ++ typeOf v ++ js ".") })

/-! ## What is thrown has a message -/

section

variable {host : JsVal → Except JsError JsString} {world : Surroundings} {engine : PolicyEngine}
  {entrypoint : PolicyEntrypoint} {input : JsVal}

/-- What is thrown has a message that reads as text. -/
def Legible (host : JsVal → Except JsError JsString) (thrown : Thrown) : Prop :=
  ∃ message, thrown.message host = .ok message

/-- Whatever is thrown at a decision has a message. -/
structure Surroundings.Legible (host : JsVal → Except JsError JsString) (world : Surroundings) :
    Prop where
  /-- What reading the bundle throws. -/
  readFile : ∀ thrown, world.readFile = .error thrown → Policy.Legible host thrown
  /-- What instantiating it throws. -/
  instantiate : ∀ thrown, world.instantiate = .error thrown → Policy.Legible host thrown
  /-- What an evaluation throws. -/
  evaluate : ∀ input thrown, world.evaluate input = .error thrown → Policy.Legible host thrown

/-- The module really gave this boolean. -/
def Surroundings.Answers (world : Surroundings) (b : Bool) : Prop :=
  ∃ input first rest, world.evaluate input = .ok (.arr (first :: rest)) ∧
    PolicyEngine.resultOf first = .bool b

/-- A failed load is recorded. -/
theorem failed_ok {thrown : Thrown} (h : Legible host thrown) :
    (engine.failed host thrown).1 = .ok () := by
  obtain ⟨message, hmessage⟩ := h
  unfold PolicyEngine.failed
  rw [hmessage]

/-- Loading does not throw. -/
theorem load_ok (h : world.Legible host) : (engine.load host world).1 = .ok () := by
  unfold PolicyEngine.load
  split_ifs
  · rfl
  · cases hread : world.readFile with
    | error thrown => exact failed_ok (h.readFile thrown hread)
    | ok wasm =>
      cases hinstantiate : world.instantiate with
      | error thrown => exact failed_ok (h.instantiate thrown hinstantiate)
      | ok => rfl

/-- What is made of an entrypoint: its decision was not made, or the module gave its value. -/
theorem decide_ok (h : world.Legible host) : ∃ decision,
    engine.decide host world entrypoint input = .ok decision ∧ decision.entrypoint = entrypoint ∧
      (decision.evaluated = true → ∀ b, decision.value = .bool b → world.Answers b) := by
  unfold PolicyEngine.decide
  split_ifs
  · exact ⟨_, rfl, rfl, fun hevaluated => by cases hevaluated⟩
  · cases hresults : world.evaluate input with
    | error thrown =>
      obtain ⟨message, hmessage⟩ := h.evaluate input thrown hresults
      dsimp only
      rw [hmessage]
      exact ⟨_, rfl, rfl, fun hevaluated => by cases hevaluated⟩
    | ok results =>
      split
      · rename_i heq
        cases heq
      · rename_i first rest heq
        rw [Except.ok.injEq] at heq
        subst heq
        exact ⟨_, rfl, rfl, fun _ b hb => ⟨input, first, rest, hresults, hb⟩⟩
      · exact ⟨_, rfl, rfl, fun hevaluated => by cases hevaluated⟩

/-- **A decision is made**, and if the module gave its value, really so. -/
theorem evaluate_ok (h : world.Legible host) : ∃ decision,
    (engine.evaluate host world entrypoint input).1 = .ok decision ∧
      decision.entrypoint = entrypoint ∧
      (decision.evaluated = true → ∀ b, decision.value = .bool b → world.Answers b) := by
  have hload : (engine.load host world).1 = .ok () := load_ok h
  unfold PolicyEngine.evaluate
  cases hl : engine.load host world with
  | mk r loaded =>
    rw [hl] at hload
    cases hload
    exact decide_ok h

end

end AgentEval.Policy
