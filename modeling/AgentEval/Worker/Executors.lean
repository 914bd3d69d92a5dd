import AgentEval.Js.Decimal
import AgentEval.Providers.Calls

/-!
# `worker/executor.ts`: what executes a run

`selectExecutor` chooses between three executors: one that runs a child process, one that calls a
model, and one that says why it cannot run. What the operating system makes of a command and what a
provider answers are parameters.

* `Verified` — what has to have happened for an execution to complete, with the events it reports.
* **`execute_completed_iff`**: an execution completes exactly when it was verified.
* **`told_of_execute`**: one that fails reports no completion and says why, and no executor reports the
  end of a run, which is the worker's to report.
-/

namespace AgentEval.Worker

open Js Store Providers Auth

/-! ## What the executors are given -/

/-- Source: `executor.ts`, `LocalProcessOptions` -/
structure LocalProcessOptions where
  /-- Whether unisolated execution was enabled deliberately. -/
  enabled : Bool
  /-- The command, when it is not that of the process itself. -/
  command : Option JsString
  /-- Its arguments, when they are not those of the built-in unit of work. -/
  args : Option (List JsString)
  /-- How long it may take. -/
  timeoutMs : Option Number

/-- How a child process ended. -/
inductive ProcessEnd where
  /-- It could not be spawned or killed. -/
  | error (message : JsString)
  /-- It exited, or a signal ended it. -/
  | close (code : Option Number) (signal : Option JsString)

/-- What was seen of a child process. -/
structure ProcessRun where
  /-- Its identifier, when it was spawned. -/
  pid : Option Number
  /-- What it wrote. -/
  stdout : JsString
  /-- What it wrote to the other stream. -/
  stderr : JsString
  /-- Whether the timer went off before it ended. -/
  timedOut : Bool
  /-- How it ended. -/
  ended : ProcessEnd
  /-- How long it took. -/
  durationMs : Number

/-- Source: `providers/types.ts`, `FinishReason` -/
inductive FinishReason where
  /-- The model was done. -/
  | stop
  /-- It ran out of tokens. -/
  | length
  /-- It asks for tools. -/
  | toolCalls
  /-- A filter stopped it. -/
  | contentFilter
  /-- It failed. -/
  | error
  /-- The provider does not say. -/
  | unknown

/-- The reason as a text. -/
def FinishReason.toJs : FinishReason → JsString
  | stop => js "stop"
  | length => js "length"
  | toolCalls => js "tool_calls"
  | contentFilter => js "content_filter"
  | error => js "error"
  | unknown => js "unknown"

/-- Source: `providers/types.ts`, `ToolCall` -/
structure ToolCall where
  /-- The call. -/
  toolCallId : JsString
  /-- The tool. -/
  name : JsString
  /-- What it is called with. -/
  arguments : JsVal
  /-- The arguments are a value of the language. -/
  wf : arguments.WF

/-- Source: `providers/types.ts`, `Usage` -/
structure Usage where
  /-- Tokens read. -/
  inputTokens : Option Number
  /-- Tokens written. -/
  outputTokens : Option Number
  /-- Both. -/
  totalTokens : Option Number

/-- Source: `providers/types.ts`, `ModelResponse` -/
structure ModelResponse where
  /-- Who answered. -/
  provider : JsString
  /-- With which model. -/
  model : JsString
  /-- The identifier the provider gave the request. -/
  providerRequestId : Option JsString
  /-- The text. -/
  text : JsString
  /-- The tools the model asks for. -/
  toolCalls : List ToolCall
  /-- Why it stopped. -/
  finishReason : FinishReason
  /-- What it used. -/
  usage : Usage
  /-- How long it took. -/
  latencyMs : Number

/-- What `(e as Error).message` is, before it is read as a text. -/
def Thrown.messageValue : Thrown → JsVal
  | .error e => .str e.message
  | .value (.obj ps) => getProp ps (js "message")
  | .value _ => .undefined

/-- What `generate` comes to. -/
inductive Generated where
  /-- A response. -/
  | response (response : ModelResponse)
  /-- A `ProviderError`, with its `toJSON()`. -/
  | providerError (e : ProviderError) (json : PlainObject)
  /-- Anything else that was thrown; its message is a value of the language. -/
  | thrown (e : Thrown) (wf : e.messageValue.WF)

/-- What the executors stand on. -/
structure Machine where
  /-- The command of the process itself. -/
  execPath : JsString
  /-- What the operating system makes of a command. -/
  spawn : JsString → List JsString → Number → Except Thrown ProcessRun
  /-- The environment. -/
  env : JsString → Option JsString
  /-- What an adapter answers. -/
  generate : AdapterCall JsString → ModelRequest → Generated

/-! ## The events -/

/-- A number or `null`. -/
def orNull (n : Option Number) : JsVal := n.elim .null .num

/-- `Buffer.byteLength(s)` -/
def byteLength (s : JsString) : Number := .ofNat (utf8 s).length

/-- Source: `executor.ts`, `LocalProcessExecutor.execute`; `execution.started` -/
def startedEvent (command : JsString) (timeoutMs : Number) : ExecutionEvent where
  action := js "execution.started"
  payload :=
    { props := [(js "backend", .str (js "local-process")), (js "isolated", .bool false),
        (js "command", .str command), (js "timeoutMs", .num timeoutMs)]
      wf := by
        refine JsVal.wf_obj.mpr ⟨?_, ?_⟩
        · change [js "backend", js "isolated", js "command", js "timeoutMs"].Nodup
          simp
        · simp only [List.forall_mem_cons]
          exact ⟨trivial, trivial, trivial, trivial, List.forall_mem_nil _⟩ }

/-- Source: `executor.ts`, `LocalProcessExecutor.execute`; `process.spawned` -/
def spawnedEvent (pid : Option Number) (command : JsString) : ExecutionEvent where
  action := js "process.spawned"
  payload :=
    { props := [(js "pid", orNull pid), (js "command", .str command)]
      wf := by
        refine JsVal.wf_obj.mpr ⟨?_, ?_⟩
        · change [js "pid", js "command"].Nodup
          simp
        · simp only [List.forall_mem_cons]
          exact ⟨by cases pid <;> trivial, trivial, List.forall_mem_nil _⟩ }

namespace ProcessRun

variable (p : ProcessRun)

/-- The exit code. -/
def code : Option Number :=
  match p.ended with
  | .error _ => none
  | .close code _ => code

/-- The signal. -/
def signal : Option JsString :=
  match p.ended with
  | .error _ => none
  | .close _ signal => signal

/-- What was collected of the other stream: an error adds its message. -/
def errors : JsString :=
  match p.ended with
  | .error message => p.stderr ++ message
  | .close .. => p.stderr

/-- `result.code === 0` -/
def passed : Bool := p.code.any fun code => code.eq (.ofNat 0)

end ProcessRun

/-- Source: `executor.ts`, `LocalProcessExecutor.execute`; `process.exited` -/
def exitedEvent (p : ProcessRun) : ExecutionEvent where
  action := js "process.exited"
  payload :=
    { props := [(js "exitCode", orNull p.code), (js "signal", p.signal.elim .null .str),
        (js "durationMs", .num p.durationMs), (js "stdoutBytes", .num (byteLength p.stdout)),
        (js "stderrBytes", .num (byteLength p.errors))]
      wf := by
        refine JsVal.wf_obj.mpr ⟨?_, ?_⟩
        · change [js "exitCode", js "signal", js "durationMs", js "stdoutBytes",
            js "stderrBytes"].Nodup
          simp
        · simp only [List.forall_mem_cons]
          exact ⟨by cases p.code <;> trivial, by cases p.signal <;> trivial, trivial, trivial,
            trivial, List.forall_mem_nil _⟩ }

/-- What a verdict says of itself. -/
def verdictNote : JsString :=
  js "No rubric was applied: this run had no verifier adapter configured."

/-- Source: `executor.ts`, `LocalProcessExecutor.execute`; `verifier.result` -/
def exitCodeVerdict (p : ProcessRun) : ExecutionEvent where
  action := js "verifier.result"
  payload :=
    { props := [(js "verifier", .str (js "process-exit-code")), (js "passed", .bool p.passed),
        (js "exitCode", orNull p.code), (js "output", .str (p.stdout.take 2000)),
        (js "note", .str verdictNote)]
      wf := by
        refine JsVal.wf_obj.mpr ⟨?_, ?_⟩
        · change [js "verifier", js "passed", js "exitCode", js "output", js "note"].Nodup
          simp
        · simp only [List.forall_mem_cons]
          exact ⟨trivial, trivial, by cases p.code <;> trivial, trivial, trivial,
            List.forall_mem_nil _⟩ }

/-- Source: `executor.ts`, `LocalProcessExecutor.execute`, `ModelExecutor.execute`;
`execution.completed` -/
def completedEvent (key : JsString) (time : Number) : ExecutionEvent where
  action := js "execution.completed"
  payload :=
    { props := [(key, .num time)]
      wf := JsVal.wf_obj.mpr ⟨List.nodup_singleton _, List.forall_mem_singleton.mpr trivial⟩ }

/-- Source: `executor.ts`, `ModelExecutor.execute`; `model.response` -/
def responseEvent (r : ModelResponse) : ExecutionEvent where
  action := js "model.response"
  payload :=
    { props := [(js "provider", .str r.provider), (js "model", .str r.model),
          (js "finishReason", .str r.finishReason.toJs), (js "latencyMs", .num r.latencyMs),
          (js "inputTokens", orNull r.usage.inputTokens),
          (js "outputTokens", orNull r.usage.outputTokens),
          (js "totalTokens", orNull r.usage.totalTokens),
          (js "toolCalls", .num (.ofNat r.toolCalls.length)), (js "text", .str (r.text.take 2000))] ++
        (present r.providerRequestId).toList.map fun id => (js "providerRequestId", .str id)
      wf := by
        refine JsVal.wf_obj.mpr ⟨?_, ?_⟩
        · cases present r.providerRequestId
          · change [js "provider", js "model", js "finishReason", js "latencyMs", js "inputTokens",
              js "outputTokens", js "totalTokens", js "toolCalls", js "text"].Nodup
            simp
          · change [js "provider", js "model", js "finishReason", js "latencyMs", js "inputTokens",
              js "outputTokens", js "totalTokens", js "toolCalls", js "text",
              js "providerRequestId"].Nodup
            simp
        · have hnull : ∀ n : Option Number, (orNull n).WF := by
            rintro (_ | _) <;> trivial
          simp only [List.forall_mem_append, List.forall_mem_cons]
          refine ⟨⟨trivial, trivial, trivial, trivial, hnull _, hnull _, hnull _, trivial, trivial,
            List.forall_mem_nil _⟩, List.forall_mem_map.mpr fun _ _ => trivial⟩ }

/-- Source: `executor.ts`, `ModelExecutor.execute`; `tool.call` -/
def toolCallEvent (call : ToolCall) : ExecutionEvent where
  action := js "tool.call"
  payload :=
    { props := [(js "toolCallId", .str call.toolCallId), (js "name", .str call.name),
        (js "arguments", call.arguments)]
      wf := by
        refine JsVal.wf_obj.mpr ⟨?_, ?_⟩
        · change [js "toolCallId", js "name", js "arguments"].Nodup
          simp
        · simp only [List.forall_mem_cons]
          exact ⟨trivial, trivial, call.wf, List.forall_mem_nil _⟩ }

/-- `response.text.trim().length > 0` -/
def ModelResponse.passed (r : ModelResponse) : Bool := decide (trim r.text ≠ [])

/-- Source: `executor.ts`, `ModelExecutor.execute`; `verifier.result` -/
def responseVerdict (r : ModelResponse) : ExecutionEvent where
  action := js "verifier.result"
  payload :=
    { props := [(js "verifier", .str (js "non-empty-response")), (js "passed", .bool r.passed),
        (js "note", .str verdictNote)]
      wf := by
        refine JsVal.wf_obj.mpr ⟨?_, ?_⟩
        · change [js "verifier", js "passed", js "note"].Nodup
          simp
        · simp only [List.forall_mem_cons]
          exact ⟨trivial, trivial, trivial, List.forall_mem_nil _⟩ }

/-- The failure that ends an execution. -/
def failure (reason : JsString) (events : List ExecutionEvent) : ExecutionResult :=
  ⟨.failed, some reason, events ++ [failedEvent reason none fun p h => absurd h (Option.not_mem_none p)]⟩

/-! ## The executors -/

/-- Source: `executor.ts`, `UnavailableExecutor` -/
def unavailableExecutor (reason : JsString) : Executor where
  unavailableReason := .ok (some reason)
  execute := fun _ _ _ => .ok ⟨.failed, some reason, []⟩

/-- Source: `executor.ts`, `LocalProcessExecutor.unavailableReason` -/
def LocalProcessOptions.unavailableReason (options : LocalProcessOptions) : Option JsString :=
  if options.enabled then none
  else some (js "Local process execution is disabled. It provides no isolation boundary — " ++
    js "no guest kernel, no egress control, no credential brokering — so it must be " ++
    js "enabled explicitly with AGENT_EVAL_LOCAL_EXEC=1.")

/-- The built-in unit of work.
Source: `executor.ts`, `LocalProcessExecutor.execute` -/
def defaultArgs (runId : JsString) : List JsString :=
  [js "-e", js "const c=require(\"node:crypto\");" ++
    js "const h=c.createHash(\"sha256\").update(process.argv[1]).digest(\"hex\");" ++
    js "process.stdout.write(JSON.stringify(\x7brunId:process.argv[1],digest:h\x7d));", runId]

/-- Why a process that was not killed failed.
Source: `executor.ts`, `LocalProcessExecutor.execute` -/
def exitReason (p : ProcessRun) : JsString :=
  js "Process exited with code " ++ p.code.elim (js "null") Number.toString ++
    (if trim p.errors ≠ [] then js ": " ++ (trim p.errors).take 300 else js ".")

/-- What became of a process.
Source: `executor.ts`, `LocalProcessExecutor.execute` -/
def reportProcess (command : JsString) (timeoutMs : Number) (p : ProcessRun) : ExecutionResult :=
  let events := [startedEvent command timeoutMs, spawnedEvent p.pid command, exitedEvent p]
  if p.timedOut then
    failure (js "Execution exceeded the " ++ timeoutMs.toString ++ js "ms timeout and was killed.")
      events
  else if p.passed then
    ⟨.completed, none,
      events ++ [exitCodeVerdict p, completedEvent (js "durationMs") p.durationMs]⟩
  else failure (exitReason p) (events ++ [exitCodeVerdict p])

/-- `{ message: (e as Error).message }` -/
def messagePayload (message : JsVal) (h : message.WF) : PlainObject where
  props := [(js "message", message)]
  wf := JsVal.wf_obj.mpr ⟨List.nodup_singleton _, List.forall_mem_singleton.mpr h⟩

/-- What became of a call to a model. A message is read twice, and reading it may throw.
Source: `executor.ts`, `ModelExecutor.execute` -/
def reportGenerated (host : JsVal → Except JsError JsString) (events : List ExecutionEvent) :
    Generated → Except Thrown ExecutionResult
  | .response r =>
    let events := events ++ responseEvent r :: r.toolCalls.map toolCallEvent ++ [responseVerdict r]
    if r.passed then
      .ok ⟨.completed, none, events ++ [completedEvent (js "latencyMs") r.latencyMs]⟩
    else .ok (failure (js "The model returned an empty response.") events)
  | .providerError e json =>
    .ok (failure (e.category ++ js ": " ++ e.message) (events ++ [⟨js "model.error", json⟩]))
  | .thrown e wf =>
    match e.message host with
    | .error e => .error (.error e)
    | .ok message =>
      .ok (failure (js "Provider call failed: " ++ message)
        (events ++ [⟨js "model.error", messagePayload e.messageValue wf⟩]))

/-- A property of an object is a value of the language. -/
theorem wf_get (o : PlainObject) (key : JsString) : (o.get key).WF := by
  by_cases h : o.get key = .undefined
  · rw [h]
    trivial
  · exact (JsVal.wf_obj.mp o.wf).2 _ (mem_of_getProp_ne h)

/-- An object, when a value is one. -/
def asObject : (v : JsVal) → v.WF → Option PlainObject
  | .obj ps, h => some ⟨ps, h⟩
  | _, _ => none

/-- A text, when a value is one. -/
def asText : JsVal → Option JsString
  | .str s => some s
  | _ => none

/-- `manifest.model`, of which the identifier is a text and the sampling parameters are an object in
every manifest that `createManifest` makes.
Source: `executor.ts`, `ModelExecutor.execute` -/
def runModel (manifest : PlainObject) : Option RunModel :=
  (asObject (manifest.get (js "model")) (wf_get manifest _)).map fun model =>
    ⟨asText (model.get (js "identifier")), asObject (model.get (js "sampling")) (wf_get model _)⟩

section

variable {σ : Type} (host : JsVal → Except JsError JsString) (machine : Machine)

/-- Source: `executor.ts`, `LocalProcessExecutor` -/
def localProcessExecutor (options : LocalProcessOptions) : Executor where
  unavailableReason := .ok options.unavailableReason
  execute := fun runId _ _ =>
    match options.unavailableReason with
    | some blocked => .ok ⟨.failed, some blocked, []⟩
    | none =>
      let command := options.command.getD machine.execPath
      let timeoutMs := options.timeoutMs.getD (.ofNat 30000)
      (machine.spawn command (options.args.getD (defaultArgs runId)) timeoutMs).map
        (reportProcess command timeoutMs)

/-- Source: `executor.ts`, `ModelExecutor` -/
def modelExecutor (executor : ModelExecutor σ JsString) (s : σ) : Executor where
  unavailableReason := .ok executor.unavailableReason
  execute := fun runId manifest run =>
    match (executor.execute id machine.env runId (runModel manifest) (some run) s).1 with
    | .failed reason events => .ok ⟨.failed, some reason, events⟩
    | .generate call request events => reportGenerated host events (machine.generate call request)

/-- Whether a child process is what a run asks for. -/
def AsksForProcess (requested : JsString) : Prop :=
  requested = js "local-process" ∨ requested = js "trusted-dev"

instance : DecidablePred AsksForProcess := fun _ => inferInstanceAs (Decidable (_ ∨ _))

/-- Source: `executor.ts`, `selectExecutor`; the reason of the `UnavailableExecutor` -/
def notAvailable (requested : JsString) : JsString :=
  js "Isolation backend \"" ++ requested ++ js "\" is not available in this deployment. " ++
    js "The VMM supervisor, egress proxy and credential broker are designed but not built. " ++
    js "Configure a run with isolationBackend \"local-process\" to execute without isolation, " ++
    js "and note that the resulting evidence records an unisolated run."

/-- Source: `executor.ts`, `selectExecutor` -/
def selectExecutor (options : LocalProcessOptions) (executor : ModelExecutor σ JsString) (s : σ)
    (requested : JsString) : Executor :=
  if requested = js "model" then modelExecutor host machine executor s
  else if AsksForProcess requested then localProcessExecutor machine options
  else unavailableExecutor (notAvailable requested)

/-! ## What they report -/

/-- What has to have happened for an execution to complete, with the events it reports. -/
inductive Verified (options : LocalProcessOptions) (executor : ModelExecutor σ JsString) (s : σ)
    (requested runId : JsString) (manifest : PlainObject) (run : RunContext) :
    List ExecutionEvent → Prop
  /-- A child process was enabled and asked for; it exited in time, with the code 0. -/
  | process {command : JsString} {timeoutMs : Number} (p : ProcessRun)
    (hasked : AsksForProcess requested) (henabled : options.enabled = true)
    (hcommand : command = options.command.getD machine.execPath)
    (htimeout : timeoutMs = options.timeoutMs.getD (.ofNat 30000))
    (hspawn : machine.spawn command (options.args.getD (defaultArgs runId)) timeoutMs = .ok p)
    (hintime : p.timedOut = false) (hpassed : p.passed = true) :
    Verified options executor s requested runId manifest run
      [startedEvent command timeoutMs, spawnedEvent p.pid command, exitedEvent p, exitCodeVerdict p,
        completedEvent (js "durationMs") p.durationMs]
  /-- A model was enabled and asked for; it answered with a text that is not blank. -/
  | model {call : AdapterCall JsString} {request : ModelRequest} {before : List ExecutionEvent}
    (r : ModelResponse) (hasked : requested = js "model") (henabled : executor.enabled = true)
    (hcall : (executor.execute id machine.env runId (runModel manifest) (some run) s).1 =
      .generate call request before)
    (hgenerate : machine.generate call request = .response r) (hpassed : r.passed = true) :
    Verified options executor s requested runId manifest run
      (before ++ responseEvent r :: r.toolCalls.map toolCallEvent ++ [responseVerdict r] ++
        [completedEvent (js "latencyMs") r.latencyMs])

variable {host machine} {options : LocalProcessOptions} {executor : ModelExecutor σ JsString} {s : σ}
  {requested runId : JsString} {manifest : PlainObject} {run : RunContext}

/-- A failure is not reported as completed. -/
theorem outcome_of_failure {reason : JsString} {before events : List ExecutionEvent}
    {reason' : Option JsString} : failure reason before ≠ ⟨.completed, reason', events⟩ :=
  fun h => nomatch congrArg ExecutionResult.outcome h

/-- A process that completes is reported so. -/
theorem reportProcess_completed_iff {command : JsString} {timeoutMs : Number} {p : ProcessRun}
    {reason : Option JsString} {events : List ExecutionEvent} :
    reportProcess command timeoutMs p = ⟨.completed, reason, events⟩ ↔
      p.timedOut = false ∧ p.passed = true ∧ reason = none ∧
        events = [startedEvent command timeoutMs, spawnedEvent p.pid command, exitedEvent p,
          exitCodeVerdict p, completedEvent (js "durationMs") p.durationMs] := by
  rw [reportProcess]
  cases htime : p.timedOut with
  | true => exact iff_of_false outcome_of_failure fun h => nomatch h.1
  | false =>
    cases hpassed : p.passed with
    | true => simp [eq_comm]
    | false => exact iff_of_false outcome_of_failure fun h => nomatch h.2.1

/-- A call to a model that completes is reported so. -/
theorem reportGenerated_completed_iff {before events : List ExecutionEvent} {g : Generated}
    {reason : Option JsString} :
    reportGenerated host before g = .ok ⟨.completed, reason, events⟩ ↔
      ∃ r, g = .response r ∧ r.passed = true ∧ reason = none ∧
        events = before ++ responseEvent r :: r.toolCalls.map toolCallEvent ++ [responseVerdict r] ++
          [completedEvent (js "latencyMs") r.latencyMs] := by
  cases g with
  | response r =>
    rw [reportGenerated]
    cases hpassed : r.passed with
    | true =>
      rw [if_pos rfl]
      constructor
      · intro h
        obtain ⟨-, hreason, hevents⟩ := ExecutionResult.mk.inj (Except.ok.inj h)
        exact ⟨r, rfl, hpassed, hreason.symm, hevents.symm⟩
      · rintro ⟨r', hr, -, rfl, rfl⟩
        obtain rfl := Generated.response.inj hr
        rfl
    | false =>
      refine iff_of_false (fun h => outcome_of_failure (Except.ok.inj h)) ?_
      rintro ⟨r', ⟨⟩, hpassed', -⟩
      rw [hpassed] at hpassed'
      cases hpassed'
  | providerError e json =>
    exact iff_of_false (fun h => outcome_of_failure (Except.ok.inj h)) fun ⟨_, hr, _⟩ => nomatch hr
  | thrown e wf =>
    refine iff_of_false (fun h => ?_) fun ⟨_, hr, _⟩ => nomatch hr
    rw [reportGenerated] at h
    cases hmessage : e.message host with
    | error e =>
      rw [hmessage] at h
      cases h
    | ok message =>
      rw [hmessage] at h
      exact outcome_of_failure (Except.ok.inj h)

/-- **An execution completes exactly when it was verified.** -/
theorem execute_completed_iff {reason : Option JsString} {events : List ExecutionEvent} :
    (selectExecutor host machine options executor s requested).execute runId manifest run =
        .ok ⟨.completed, reason, events⟩ ↔
      reason = none ∧ Verified machine options executor s requested runId manifest run events := by
  rw [selectExecutor]
  by_cases hmodel : requested = js "model"
  · rw [if_pos hmodel, modelExecutor]
    constructor
    · intro h
      cases hexec : (executor.execute id machine.env runId (runModel manifest) (some run) s).1 with
      | failed reason events =>
        simp only [hexec] at h
        cases h
      | generate call request before =>
        simp only [hexec] at h
        obtain ⟨r, hr, hpassed, hreason, rfl⟩ := reportGenerated_completed_iff.mp h
        refine ⟨hreason, .model r hmodel ?_ hexec hr hpassed⟩
        by_contra hdisabled
        rw [ModelExecutor.execute, ModelExecutor.unavailableReason, if_neg hdisabled] at hexec
        cases hexec
    · rintro ⟨rfl, hverified⟩
      cases hverified with
      | process p hasked =>
        rw [hmodel] at hasked
        exact absurd hasked (by decide)
      | model r hasked henabled hcall hgenerate hpassed =>
        simp only [hcall]
        exact reportGenerated_completed_iff.mpr ⟨r, hgenerate, hpassed, rfl, rfl⟩
  · rw [if_neg hmodel]
    by_cases hprocess : AsksForProcess requested
    · rw [if_pos hprocess, localProcessExecutor]
      dsimp only
      rw [LocalProcessOptions.unavailableReason]
      cases henabled : options.enabled with
      | false =>
        constructor
        · intro h
          cases h
        · rintro ⟨-, hverified⟩
          cases hverified with
          | process p hasked henabled' => rw [henabled] at henabled'; cases henabled'
          | model r hasked => exact absurd hasked hmodel
      | true =>
        simp only [if_true]
        constructor
        · intro h
          cases hspawn : machine.spawn (options.command.getD machine.execPath)
            (options.args.getD (defaultArgs runId)) (options.timeoutMs.getD (.ofNat 30000)) with
          | error e =>
            rw [hspawn] at h
            cases h
          | ok p =>
            rw [hspawn] at h
            obtain ⟨htime, hpassed, hreason, rfl⟩ :=
              reportProcess_completed_iff.mp (Except.ok.inj h)
            exact ⟨hreason, .process p hprocess henabled rfl rfl hspawn htime hpassed⟩
        · rintro ⟨rfl, hverified⟩
          cases hverified with
          | process p hasked _ hcommand htimeout hspawn hintime hpassed =>
            subst hcommand htimeout
            rw [hspawn]
            exact congrArg Except.ok
              (reportProcess_completed_iff.mpr ⟨hintime, hpassed, rfl, rfl⟩)
          | model r hasked => exact absurd hasked hmodel
    · rw [if_neg hprocess, unavailableExecutor]
      constructor
      · intro h
        cases h
      · rintro ⟨-, hverified⟩
        cases hverified with
        | process p hasked => exact absurd hasked hprocess
        | model r hasked => exact absurd hasked hmodel

/-- What an executor may report of an execution, its completion apart. -/
def executionActions : List JsString :=
  [js "execution.started", js "process.spawned", js "process.exited", js "model.request",
    js "model.response", js "tool.call", js "model.error", js "verifier.result",
    js "execution.failed"]

/-- A result that says what happened: every event is one of an execution, and a failure reports
no completion and has a reason, which is the last thing reported if anything is. -/
structure ExecutionResult.Told (result : ExecutionResult) : Prop where
  actions : ∀ event ∈ result.events, event.action ∈ executionActions ++ [js "execution.completed"]
  failed : result.outcome = .failed → (∀ event ∈ result.events, event.action ∈ executionActions) ∧
    ∃ reason, result.reason = some reason ∧
      (result.events = [] ∨ ∃ before more hmore,
        result.events = before ++ [failedEvent reason more hmore])

/-- A failure says so last. -/
theorem told_failure {reason : JsString} {events : List ExecutionEvent}
    (h : ∀ event ∈ events, event.action ∈ executionActions) : (failure reason events).Told := by
  have hall : ∀ event ∈ (failure reason events).events, event.action ∈ executionActions := by
    intro event hevent
    rcases List.mem_append.mp hevent with hevent | hevent
    · exact h event hevent
    · rw [List.mem_singleton.mp hevent]
      simp [failedEvent, executionActions]
  exact ⟨fun event hevent => List.mem_append_left _ (hall event hevent),
    fun _ => ⟨hall, reason, rfl, .inr ⟨events, none, by simp, rfl⟩⟩⟩

/-- What a process comes to is told. -/
theorem told_reportProcess (command : JsString) (timeoutMs : Number) (p : ProcessRun) :
    (reportProcess command timeoutMs p).Told := by
  have hexit : ∀ event ∈ [startedEvent command timeoutMs, spawnedEvent p.pid command, exitedEvent p],
      event.action ∈ executionActions := by
    simp [startedEvent, spawnedEvent, exitedEvent, executionActions]
  have hverdict : ∀ event ∈ [startedEvent command timeoutMs, spawnedEvent p.pid command,
      exitedEvent p] ++ [exitCodeVerdict p], event.action ∈ executionActions := by
    simp [startedEvent, spawnedEvent, exitedEvent, exitCodeVerdict, executionActions]
  rw [reportProcess]
  split_ifs with htime hpassed
  · exact told_failure hexit
  · refine ⟨?_, nofun⟩
    simp [startedEvent, spawnedEvent, exitedEvent, exitCodeVerdict, completedEvent,
      executionActions]
  · exact told_failure hverdict

/-- What a call to a model comes to is told. -/
theorem told_reportGenerated {before : List ExecutionEvent} {g : Generated}
    {result : ExecutionResult} (hbefore : ∀ event ∈ before, event.action ∈ executionActions)
    (h : reportGenerated host before g = .ok result) : result.Told := by
  have herror : ∀ json : PlainObject, ∀ event ∈ before ++ [⟨js "model.error", json⟩],
      event.action ∈ executionActions := by
    intro json event hevent
    rcases List.mem_append.mp hevent with hevent | hevent
    · exact hbefore event hevent
    · rw [List.mem_singleton.mp hevent]
      simp [executionActions]
  cases g with
  | response r =>
    have hverdict : ∀ event ∈ before ++ responseEvent r :: r.toolCalls.map toolCallEvent ++
        [responseVerdict r], event.action ∈ executionActions := by
      simp only [List.forall_mem_append, List.forall_mem_cons, List.forall_mem_map]
      refine ⟨⟨hbefore, ?_, fun call _ => ?_⟩, ?_, List.forall_mem_nil _⟩
      · simp [responseEvent, executionActions]
      · simp [toolCallEvent, executionActions]
      · simp [responseVerdict, executionActions]
    rw [reportGenerated] at h
    split_ifs at h with hpassed
    · obtain rfl := Except.ok.inj h
      refine ⟨List.forall_mem_append.mpr
        ⟨fun event hevent => List.mem_append_left _ (hverdict event hevent),
          List.forall_mem_singleton.mpr (List.mem_append_right _ (List.mem_singleton_self _))⟩, nofun⟩
    · obtain rfl := Except.ok.inj h
      exact told_failure hverdict
  | providerError e json =>
    obtain rfl := Except.ok.inj h
    exact told_failure (herror _)
  | thrown e wf =>
    rw [reportGenerated] at h
    cases hmessage : e.message host with
    | error e =>
      rw [hmessage] at h
      cases h
    | ok message =>
      rw [hmessage] at h
      obtain rfl := Except.ok.inj h
      exact told_failure (herror _)

/-- What an execution reports before it calls a model, or instead of it. -/
theorem execute_cases (executor : ModelExecutor σ JsString) (env : JsString → Option JsString)
    (model : Option RunModel) (context : Option RunContext) :
    (∃ reason, (executor.execute id env runId model context s).1 = .failed reason []) ∨
      (∃ reason more hmore, (executor.execute id env runId model context s).1 =
        .failed reason [failedEvent reason more hmore]) ∨
      ∃ call request payload, (executor.execute id env runId model context s).1 =
        .generate call request [⟨js "model.request", payload⟩] := by
  rw [ModelExecutor.execute]
  generalize executor.unavailableReason = blocked
  cases blocked with
  | some blocked => exact .inl ⟨blocked, rfl⟩
  | none =>
    dsimp only
    generalize route ((model.bind (·.identifier)).getD []) = address
    cases address with
    | none => exact .inr (.inl ⟨_, _, _, rfl⟩)
    | some address =>
      obtain ⟨providerId, modelId⟩ := address
      dsimp only
      generalize ProviderRegistry.get providerId = found
      cases found with
      | error e => exact .inr (.inl ⟨_, _, _, rfl⟩)
      | ok provider =>
        dsimp only
        generalize runConfig id env executor.resolveCredential providerId context s = resolved
        obtain ⟨config, s'⟩ := resolved
        cases config with
        | error reason => exact .inr (.inl ⟨_, _, _, rfl⟩)
        | ok config => exact .inr (.inr ⟨_, _, _, rfl⟩)

/-- **Every executor tells what happened.** -/
theorem told_of_execute {result : ExecutionResult}
    (h : (selectExecutor host machine options executor s requested).execute runId manifest run =
      .ok result) : result.Told := by
  have hsilent : ∀ reason : JsString, ExecutionResult.Told ⟨.failed, some reason, []⟩ :=
    fun reason => ⟨List.forall_mem_nil _, fun _ => ⟨List.forall_mem_nil _, reason, rfl, .inl rfl⟩⟩
  rw [selectExecutor] at h
  split_ifs at h with hmodel hprocess
  · rw [modelExecutor] at h
    dsimp only at h
    rcases execute_cases executor machine.env (runModel manifest) (some run) with
      ⟨reason, hexec⟩ | ⟨reason, more, hmore, hexec⟩ | ⟨call, request, payload, hexec⟩
    · rw [hexec] at h
      obtain rfl := Except.ok.inj h
      exact hsilent reason
    · rw [hexec] at h
      obtain rfl := Except.ok.inj h
      have hfailed : ∀ event ∈ [failedEvent reason more hmore], event.action ∈ executionActions := by
        simp [failedEvent, executionActions]
      exact ⟨fun event hevent => List.mem_append_left _ (hfailed event hevent),
        fun _ => ⟨hfailed, reason, rfl, .inr ⟨[], more, hmore, rfl⟩⟩⟩
    · rw [hexec] at h
      refine told_reportGenerated (List.forall_mem_singleton.mpr ?_) h
      simp [executionActions]
  · rw [localProcessExecutor] at h
    dsimp only at h
    cases hblocked : options.unavailableReason with
    | some blocked =>
      rw [hblocked] at h
      obtain rfl := Except.ok.inj h
      exact hsilent blocked
    | none =>
      simp only [hblocked] at h
      cases hspawn : machine.spawn (options.command.getD machine.execPath)
        (options.args.getD (defaultArgs runId)) (options.timeoutMs.getD (.ofNat 30000)) with
      | error e =>
        rw [hspawn] at h
        cases h
      | ok p =>
        rw [hspawn] at h
        obtain rfl := Except.ok.inj h
        exact told_reportProcess _ _ p
  · obtain rfl := Except.ok.inj h
    exact hsilent _

end

end AgentEval.Worker
