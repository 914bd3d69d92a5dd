import AgentEval.Evidence.Manifest
import AgentEval.Zod.Schema

/-!
# `trajectories/atif.ts`: the trajectory format

The schemas of the format, and what reads and extends a trajectory. `Date.parse` of texts that
ECMAScript leaves to the host, and what `zod` says about documents that it refuses, are parameters.
-/

namespace AgentEval.Trajectories

open Js Zod Evidence

/-- Source: `atif.ts`, `ATIF_VERSION` -/
def atifVersion : JsString := js "1.7"

/-- A property of a parsed value. -/
def propOf (key : JsString) : JsVal → JsVal
  | .obj ps => getProp ps key
  | _ => .undefined

/-- Whether a property of a parsed value is there. -/
def isSet (v : JsVal) (key : JsString) : Bool := !(propOf key v).isUndefined

/-- A property of a parsed value that is a Number. -/
def numberOf (key : JsString) (v : JsVal) : Number :=
  match propOf key v with
  | .num x => x
  | _ => .nan

/-- A property of a parsed value that is a string. -/
def textOf (key : JsString) (v : JsVal) : JsString :=
  match propOf key v with
  | .str s => s
  | _ => []

/-! ## Schemas -/

/-- `z.string().min(1)` -/
def nonEmptyText : Schema := .string [.min 1 none]

/-- `z.string().regex(/^[0-9a-f]{64}$/)` -/
def hexDigest : Schema := .string [.regex isHex64 none]

/-- `z.number().int().nonnegative()` -/
def tokenCount : Schema := .number [.int, .min 0 none]

/-- `z.number().int().positive()` -/
def positiveInt : Schema := .number [.int, .positive]

/-- `z.number().nonnegative()` -/
def nonnegative : Schema := .number [.min 0 none]

/-- `z.boolean().default(false)` -/
def flag : Schema := .default .boolean (.bool false)

/-- Source: `atif.ts`, `contentRefSchema` -/
def contentRefSchema : Schema :=
  .string [.regex isSha256Digest (some (js "must be a content address \"sha256:<64 hex>\" — " ++
    js "screenshots are referenced by hash, never embedded"))]

/-- Source: `atif.ts`, `agentDescriptorSchema` -/
def agentDescriptorSchema : Schema :=
  .refine (.strict [
    (js "model_identifier", nonEmptyText),
    (js "model_version", .optional nonEmptyText),
    (js "provider", nonEmptyText),
    (js "system_prompt", .optional (.string [])),
    (js "system_prompt_sha256", .optional hexDigest),
    (js "temperature", .optional (.number [.min 0 none, .max 2])),
    (js "top_p", .optional (.number [.min 0 none, .max 1])),
    (js "max_output_tokens", .optional positiveInt),
    (js "reasoning_effort", .optional (.enum [js "low", js "medium", js "high", js "xhigh",
      js "max"]))])
    (fun a => isSet a (js "system_prompt") || isSet a (js "system_prompt_sha256"))
    (js "record either system_prompt or system_prompt_sha256 — a trajectory that cannot identify " ++
      js "its system prompt cannot show two runs were configured alike")

/-- Source: `atif.ts`, `stepMetricsSchema` -/
def stepMetricsSchema : Schema :=
  .refine (.strict [
    (js "prompt_tokens", .optional tokenCount),
    (js "completion_tokens", .optional tokenCount),
    (js "reasoning_tokens", .optional tokenCount),
    (js "total_tokens", .optional tokenCount),
    (js "cost_usd", .optional nonnegative),
    (js "latency_ms", .optional nonnegative)])
    (fun m => !isSet m (js "total_tokens") || !isSet m (js "prompt_tokens") ||
      !isSet m (js "completion_tokens") ||
      ((numberOf (js "prompt_tokens") m).add (numberOf (js "completion_tokens") m)).le
        (numberOf (js "total_tokens") m))
    (js "total_tokens is smaller than prompt_tokens + completion_tokens — the parts cannot exceed " ++
      js "the whole")

/-- Source: `atif.ts`, `reasoningTraceSchema` -/
def reasoningTraceSchema : Schema :=
  .refine (.strict [
    (js "content", .optional (.string [])),
    (js "redacted", flag),
    (js "redaction_reason", .optional nonEmptyText),
    (js "content_sha256", .optional hexDigest),
    (js "provider_trace_id", .optional (.string []))])
    (fun r => match propOf (js "redacted") r with
      | .bool true => isSet r (js "redaction_reason")
      | _ => isSet r (js "content"))
    (js "reasoning must carry content, or be marked redacted with a reason — silence is not a " ++
      js "third option")

/-- Source: `atif.ts`, `toolCallSchema` -/
def toolCallSchema : Schema :=
  .strict [
    (js "tool_call_id", nonEmptyText),
    (js "name", nonEmptyText),
    (js "arguments", .record .unknown),
    (js "stdout", .optional (.string [])),
    (js "stderr", .optional (.string [])),
    (js "exit_code", .optional (.nullable (.number [.int]))),
    (js "duration_ms", .optional nonnegative),
    (js "blocked_by_policy", .optional (.string [])),
    (js "output_truncated", flag)]

/-- Source: `atif.ts`, `observationSchema` -/
def observationSchema : Schema :=
  .refine (.strict [
    (js "text", .optional (.string [])),
    (js "screenshot", .optional contentRefSchema),
    (js "screenshot_width", .optional positiveInt),
    (js "screenshot_height", .optional positiveInt),
    (js "screenshot_format", .optional (.enum [js "webp", js "avif", js "png"])),
    (js "state", .optional (.record .unknown)),
    (js "reward", .optional (.number [])),
    (js "terminated", flag),
    (js "truncated", flag)])
    (fun o => isSet o (js "screenshot") || !isSet o (js "screenshot_format"))
    (js "screenshot_format is set without a screenshot reference")

section

variable (host : JsString → Number)

/-- Source: `atif.ts`, `trajectoryStepSchema` -/
def trajectoryStepSchema : Schema :=
  .refine (.strict [
    (js "step_id", .number [.int, .min 1 (some (js "step_id is 1-indexed — the first step is 1, " ++
      js "never 0"))]),
    (js "started_at", .string [.datetime]),
    (js "ended_at", .optional (.string [.datetime])),
    (js "output_text", .optional (.string [])),
    (js "reasoning", .optional reasoningTraceSchema),
    (js "tool_calls", .default (.array toolCallSchema) (.arr [])),
    (js "observation", .optional observationSchema),
    (js "metrics", .optional stepMetricsSchema),
    (js "finish_reason", .optional (.string [])),
    (js "approval_id", .optional (.string [])),
    (js "error", .optional (.string []))])
    (fun s => !isSet s (js "ended_at") ||
      (dateParse host (textOf (js "started_at") s)).le (dateParse host (textOf (js "ended_at") s)))
    (js "ended_at precedes started_at")

/-- What is wrong with the sequence of the steps.
Source: `atif.ts`, `trajectorySchema`, `superRefine` -/
def sequenceIssues (doc : JsVal) : List Issue :=
  match propOf (js "steps") doc with
  | .arr steps => steps.zipIdx.filterMap fun (step, index) =>
    let stepId := numberOf (js "step_id") step
    if stepId.eq (.ofNat (index + 1)) then none
    else some ⟨[.str (js "steps"), .num (.ofNat index), .str (js "step_id")],
      js "step_id must be " ++ (Number.ofNat (index + 1)).toString ++ js " at position " ++
        (Number.ofNat index).toString ++ js " but was " ++ stepId.toString ++ js ". " ++
        js "ATIF step ids are 1-indexed and gapless: a gap means a step is missing, " ++
        js "and a trajectory with a missing step is not a record of what the agent did."⟩
  | _ => []

/-- The properties of a trajectory. -/
def trajectoryShape : List (JsString × Schema) := [
  (js "atif_version", .enum [atifVersion]),
  (js "trial_id", nonEmptyText),
  (js "run_id", nonEmptyText),
  (js "task_id", nonEmptyText),
  (js "agent", agentDescriptorSchema),
  (js "started_at", .string [.datetime]),
  (js "ended_at", .optional (.string [.datetime])),
  (js "steps", .array (trajectoryStepSchema host)),
  (js "outcome", .optional (.enum [js "success", js "failure", js "error", js "incomplete",
    js "blocked_by_policy"])),
  (js "score", .optional (.number [])),
  (js "isolation_backend", .optional (.string []))]

/-- Source: `atif.ts`, `trajectorySchema` -/
def trajectorySchema : Schema := .superRefine (.strict (trajectoryShape host)) sequenceIssues

end

/-! ## Parsed values -/

/-- A value that the schema has returned.
Source: `atif.ts`, `AgentDescriptor` -/
structure AgentDescriptor where
  /-- The value. -/
  value : JsVal
  parsed : ∃ raw, agentDescriptorSchema.parse raw = some value

/-- A value that the schema has returned.
Source: `atif.ts`, `TrajectoryStep` -/
structure TrajectoryStep (host : JsString → Number) where
  /-- The value. -/
  value : JsVal
  parsed : ∃ raw, (trajectoryStepSchema host).parse raw = some value

/-- `step.step_id`. -/
def TrajectoryStep.stepId {host : JsString → Number} (step : TrajectoryStep host) : Number :=
  numberOf (js "step_id") step.value

/-! ## Reading and extending -/

/-- Source: `atif.ts`, `AtifError` -/
structure AtifError where
  /-- What is wrong. -/
  message : JsString
  /-- What the schema says about it. -/
  issues : List Issue

/-- Source: `atif.ts`, `parseTrajectory` -/
def parseTrajectory (safeParse : Schema → JsVal → Except (List Issue) JsVal)
    (host : JsString → Number) (input : JsVal) : Except AtifError JsVal :=
  match safeParse (trajectorySchema host) input with
  | .ok data => .ok data
  | .error issues =>
    .error ⟨js "Invalid ATIF v" ++ atifVersion ++ js " document: " ++
      (issues.head?.map Issue.message).getD (js "unknown validation failure"), issues⟩

section

variable {host : JsString → Number}

/-- Source: `atif.ts`, `nextStepId` -/
def nextStepId (steps : List (TrajectoryStep host)) : Number := .ofNat (steps.length + 1)

/-- Source: `atif.ts`, `appendStep` -/
def appendStep (steps : List (TrajectoryStep host)) (step : TrajectoryStep host) :
    Except AtifError (List (TrajectoryStep host)) :=
  let expected := nextStepId steps
  if step.stepId.eq expected then .ok (steps ++ [step])
  else .error ⟨js "Out-of-sequence step: expected step_id " ++ expected.toString ++
    js ", received " ++ step.stepId.toString ++ js ". " ++
    js "Steps are appended in order; a mismatch means the client and server disagree " ++
    js "about how much of the trajectory exists.", []⟩

/-- A step that is appended has the next number. -/
theorem appendStep_eq_ok {steps steps' : List (TrajectoryStep host)} {step : TrajectoryStep host} :
    appendStep steps step = .ok steps' ↔
      step.stepId = nextStepId steps ∧ steps' = steps ++ [step] := by
  have heq : step.stepId.eq (nextStepId steps) = true ↔ step.stepId = nextStepId steps := by
    constructor
    · exact Number.eq_of_eq_ofNat (Nat.succ_pos _)
    · intro h
      rw [h]
      exact Number.eq_ofNat_self _
  unfold appendStep
  dsimp only
  split_ifs with hstep
  · rw [Except.ok.injEq, ← heq, and_iff_right hstep, eq_comm]
  · rw [← heq, iff_false_intro hstep, false_and, iff_false]
    rintro ⟨⟩

end

end AgentEval.Trajectories
