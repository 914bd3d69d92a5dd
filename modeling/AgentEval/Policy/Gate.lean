import AgentEval.Js.Arith
import AgentEval.Policy.Engine

/-!
# `policy/gate.ts`: the tool-call gate

Every agent action passes through `evaluateToolCall`: first the budget, then the destination, then
the approval. Each check asks the engine for one decision, and the first that refuses ends the call.
-/

namespace AgentEval.Policy

open Js Worker Async

/-- Source: `gate.ts`, `GateOutcome` -/
inductive GateOutcome where
  /-- The call may run. -/
  | allow
  /-- The call is refused. -/
  | deny
  /-- A person has to approve. -/
  | requireApproval
  /-- The run is stopped. -/
  | terminateRun
  deriving DecidableEq

/-- How restrictive an outcome is. -/
def GateOutcome.severity : GateOutcome → ℕ
  | allow => 0
  | requireApproval => 1
  | deny => 2
  | terminateRun => 3

/-- Source: `gate.ts`, `ToolCallContext` -/
structure ToolCallContext where
  /-- The run. -/
  runId : JsString
  /-- The task. -/
  taskId : JsString
  /-- 1-indexed step this call belongs to. -/
  stepId : Number
  /-- Tool name as the agent asked for it. -/
  tool : JsString
  /-- Coarse verb the policies match on. -/
  action : JsString
  /-- Hostname for a network-capable tool. -/
  domain : Option JsString
  /-- Tokens so far on this run. -/
  tokensUsed : Number
  /-- Cost so far on this run. -/
  costIncurredUsd : Number
  /-- Ceiling from the run manifest. -/
  budgetTokens : Option Number
  /-- Ceiling from the run manifest. -/
  maxCostUsd : Option Number
  /-- Cost of this call where it is known ahead. -/
  callCostUsd : Option Number

/-- Which rule decided.
Source: `gate.ts`, `GateResult.rule` -/
inductive GateRule where
  /-- The budget. -/
  | budget
  /-- The destination. -/
  | egress
  /-- The approval. -/
  | approval

/-- Source: `gate.ts`, `GateResult` -/
structure GateResult where
  /-- What becomes of the call. -/
  outcome : GateOutcome
  /-- Written for a human. -/
  reason : JsString
  /-- Which rule decided; nothing when nothing fired. -/
  rule : Option GateRule
  /-- Every decision consulted, in order. -/
  decisions : List PolicyDecision
  /-- Set when a person has to approve. -/
  approvalAction : Option JsString

/-- Actions that can destroy or exfiltrate.
Source: `gate.ts`, `KNOWN_DESTRUCTIVE` -/
def knownDestructive : List JsString :=
  [js "delete", js "drop_db", js "write_prod", js "deploy", js "transfer_funds", js "send_email",
    js "exec_shell", js "modify_iam", js "rotate_credentials"]

/-- A computation on the engine that may throw. -/
abbrev Gate := ExceptT JsError (Task PolicyEngine PolicyEntrypoint)

section

variable (host : JsVal → Except JsError JsString) (world : PolicyEntrypoint → Surroundings)
  (ctx : ToolCallContext) (strict : Bool)

/-- Ask the engine for a boolean.
Source: `engine.ts`, `PolicyEngine.decideBoolean` -/
def decideBoolean (entrypoint : PolicyEntrypoint) (input : JsVal) (safeDefault : Bool) :
    Gate (Bool × PolicyDecision) := ExceptT.mk do
  let decision ← Task.await entrypoint
    (PolicyEngine.evaluate host (world entrypoint) entrypoint input)
  return decision.map (asBoolean safeDefault)

/-- `Number.MAX_SAFE_INTEGER`. -/
def maxSafeInteger : Number := .ofNat (2 ^ 53 - 1)

/-- What the run will have cost.
Source: `gate.ts`, `evaluateToolCall` -/
def ToolCallContext.projectedCost : Number :=
  ctx.costIncurredUsd.add (ctx.callCostUsd.getD (.ofNat 0))

/-- Why a decision was not made, as a template has it. -/
def PolicyDecision.why (decision : PolicyDecision) : JsString :=
  decision.unavailableReason.getD (js "undefined")

/-- The result for a run over its budget.
Source: `gate.ts`, `evaluateToolCall` -/
def overBudgetResult (decision : PolicyDecision) : GateResult where
  outcome := .terminateRun
  reason :=
    if decision.evaluated then
      js "Run exceeded its budget: " ++
        (if ctx.budgetTokens.any fun budget => budget.lt ctx.tokensUsed then
          ctx.tokensUsed.toString ++ js " tokens used against a " ++
            (ctx.budgetTokens.getD .nan).toString ++ js " limit"
        else js "$" ++ ctx.projectedCost.toFixed 4 ++ js " against a $" ++
          (ctx.maxCostUsd.getD (.ofNat 0)).toFixed 4 ++ js " cap") ++ js "."
    else js "Budget could not be verified (" ++ decision.why ++ js "), so the run was stopped."
  rule := some .budget
  decisions := [decision]
  approvalAction := none

/-- The budget: a result that ends the call, or the decisions so far.
Source: `gate.ts`, `evaluateToolCall` -/
def checkBudget : Gate (Except GateResult (List PolicyDecision)) :=
  if ctx.budgetTokens.isSome || ctx.maxCostUsd.isSome then do
    let answer ← decideBoolean host world .denyBudget
      (.obj [(js "tokens_used", .num ctx.tokensUsed),
        (js "budget_limit", .num (ctx.budgetTokens.getD maxSafeInteger)),
        (js "cost_incurred", .num ctx.projectedCost),
        (js "max_cost", .num (ctx.maxCostUsd.getD maxSafeInteger))])
      strict
    if answer.1 then return .error (overBudgetResult ctx answer.2)
    else return .ok [answer.2]
  else return .ok []

/-- The result for a destination that is not reachable.
Source: `gate.ts`, `evaluateToolCall` -/
def refusedResult (domain : JsString) (decisions : List PolicyDecision)
    (decision : PolicyDecision) : GateResult where
  outcome := .deny
  reason :=
    if decision.evaluated then
      js "Egress to \"" ++ domain ++ js "\" is not on the allowlist for task " ++ ctx.taskId ++
        js "."
    else js "Egress to \"" ++ domain ++ js "\" could not be authorized (" ++ decision.why ++ js ")."
  rule := some .egress
  decisions := decisions ++ [decision]
  approvalAction := none

/-- The destination, for a call that names one.
Source: `gate.ts`, `evaluateToolCall` -/
def checkEgress (decisions : List PolicyDecision) :
    Gate (Except GateResult (List PolicyDecision)) :=
  match ctx.domain with
  | none => return .ok decisions
  | some domain => do
    let answer ← decideBoolean host world .allowEgress
      (.obj [(js "task_id", .str ctx.taskId), (js "domain", .str domain),
        (js "tool", .str ctx.tool)])
      (!strict)
    if answer.1 then return .ok (decisions ++ [answer.2])
    else return .error (refusedResult ctx domain decisions answer.2)

/-- Whether the action is on the local list.
Source: `gate.ts`, `evaluateToolCall` -/
def ToolCallContext.locallyDestructive : Bool := knownDestructive.contains ctx.action

/-- The result of the last check.
Source: `gate.ts`, `evaluateToolCall` -/
def approvalResult (decisions : List PolicyDecision) (needsApproval : Bool)
    (decision : PolicyDecision) : GateResult :=
  if needsApproval || ctx.locallyDestructive then
    { outcome := .requireApproval
      reason :=
        js "Step " ++ ctx.stepId.toString ++ js " calling \"" ++ ctx.tool ++
          js "\" was suspended: " ++
          (if !decision.evaluated then
            js "policy could not be evaluated (" ++ decision.why ++ js ")"
          else if needsApproval then js "policy requires human approval for this action"
          else js "\"" ++ ctx.action ++ js "\" is a destructive action") ++ js "."
      rule := some .approval
      decisions := decisions ++ [decision]
      approvalAction := some (ctx.tool ++ js ":" ++ ctx.action) }
  else
    { outcome := .allow
      reason := js "No policy objected to \"" ++ ctx.tool ++ js "\" (" ++ ctx.action ++ js ")."
      rule := none
      decisions := decisions ++ [decision]
      approvalAction := none }

/-- The approval.
Source: `gate.ts`, `evaluateToolCall` -/
def checkApproval (decisions : List PolicyDecision) : Gate GateResult := do
  let answer ← decideBoolean host world .requireApproval
    (.obj [(js "action", .str ctx.action), (js "tool", .str ctx.tool),
      (js "cost", .num (ctx.callCostUsd.getD (.ofNat 0))), (js "run_id", .str ctx.runId),
      (js "task_id", .str ctx.taskId)])
    strict
  return approvalResult ctx decisions answer.1 answer.2

/-- What becomes of a tool call; `strict` is the option, true when left out.
Source: `gate.ts`, `evaluateToolCall` -/
def evaluateToolCall (strict : Option Bool) : Gate GateResult := do
  match ← checkBudget host world ctx (strict.getD true) with
  | .error result => return result
  | .ok decisions =>
    match ← checkEgress host world ctx (strict.getD true) decisions with
    | .error result => return result
    | .ok decisions => checkApproval host world ctx (strict.getD true) decisions

end

end AgentEval.Policy
