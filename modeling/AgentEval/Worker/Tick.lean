import AgentEval.Store.RunTasks
import AgentEval.Worker.Thrown

/-!
# `worker/worker.ts`: the run worker

One tick of the worker claims a run, executes it, writes what the executor reported to the audit log
and records the outcome. What the worker is given (`selectExecutor`, the executors and
`captureEnvironment`) may return whatever its type allows, or throw whatever it likes. How a value
that is neither a string nor missing reads as text is a parameter.
-/

namespace AgentEval.Worker

open Js Evidence Store Async

/-! ## What the worker is given -/

/-- The machine a run is executed on: the object, and the properties the worker reads.
Source: `system/capabilities.ts`, `ExecutionEnvironmentRecord` -/
structure ExecutionEnvironmentRecord extends PlainObject where
  /-- What the deployment runs on. -/
  deploymentTarget : JsString
  /-- The architecture of the host. -/
  architecture : JsString
  /-- The name of the first GPU, when one is known. -/
  gpuName : Option JsString
  /-- The version of CUDA, when one is known. -/
  cudaVersion : Option JsString
  get_deploymentTarget : toPlainObject.get (js "deploymentTarget") = .str deploymentTarget
  get_architecture : toPlainObject.get (js "architecture") = .str architecture
  get_gpuName : toPlainObject.get (js "gpuName") = gpuName.elim .undefined .str
  get_cudaVersion : toPlainObject.get (js "cudaVersion") = cudaVersion.elim .undefined .str

/-- One thing that happened.
Source: `executor.ts`, `ExecutionEvent` -/
structure ExecutionEvent where
  /-- What happened. -/
  action : JsString
  /-- Structured detail. -/
  payload : PlainObject

/-- Source: `executor.ts`, `ExecutionResult` -/
structure ExecutionResult where
  /-- How it ended. -/
  outcome : Outcome
  /-- Why it failed. -/
  reason : Option JsString
  /-- What happened, in order. -/
  events : List ExecutionEvent

/-- What the executor is told beyond the manifest.
Source: `executor.ts`, `RunContext` -/
structure RunContext where
  /-- The tenant. -/
  tenantId : JsString
  /-- The stored credential, when the run names one. -/
  credentialId : Option JsString

/-- Source: `executor.ts`, `Executor` -/
structure Executor where
  /-- Why the backend cannot run, or nothing when it can. -/
  unavailableReason : Except Thrown (Option JsString)
  /-- What an execution comes to. -/
  execute : JsString → PlainObject → RunContext → Except Thrown ExecutionResult

/-- Source: `worker.ts`, `WorkerOptions` -/
structure WorkerOptions where
  /-- The claimant in the audit trail. -/
  workerId : JsString
  /-- Chooses an executor for the backend of a run. -/
  selectExecutor : JsString → Except Thrown Executor
  /-- What probing the host comes to, when it can be probed. -/
  captureEnvironment : Option (Except Thrown (Option ExecutionEnvironmentRecord))

/-! ## The details of the events -/

/-- A text that is not there counts as one that is empty. -/
def present (s : Option JsString) : Option JsString := s.filter (· ≠ [])

/-- The detail of the event of a claim. -/
def claimedPayload (worker backend : JsString) : StringRecord where
  entries := [(js "worker", worker), (js "backend", backend)]
  distinct := by
    change [js "worker", js "backend"].Nodup
    simp

/-- The detail of the event that names the machine. -/
def nodePayload (environment : ExecutionEnvironmentRecord) : StringRecord where
  entries := [(js "target", environment.deploymentTarget),
    (js "architecture", environment.architecture)] ++
    (present environment.gpuName).toList.map (js "gpu", ·) ++
    (present environment.cudaVersion).toList.map (js "cuda", ·)
  distinct := by
    cases present environment.gpuName <;> cases present environment.cudaVersion
    · change [js "target", js "architecture"].Nodup
      simp
    · change [js "target", js "architecture", js "cuda"].Nodup
      simp
    · change [js "target", js "architecture", js "gpu"].Nodup
      simp
    · change [js "target", js "architecture", js "gpu", js "cuda"].Nodup
      simp

/-- The detail of the event of a backend that is not there. -/
def unavailablePayload (backend reason : JsString) : StringRecord where
  entries := [(js "backend", backend), (js "reason", reason)]
  distinct := by
    change [js "backend", js "reason"].Nodup
    simp

/-- The detail of the event that ends a run. -/
def reasonPayload (reason : Option JsString) : StringRecord where
  entries := (present reason).toList.map (js "reason", ·)
  distinct := by
    cases present reason
    · exact List.nodup_nil
    · exact List.nodup_singleton _

/-! ## The tick -/

/-- A part of a tick. -/
abbrev Tick (α : Type) := ExceptT Thrown (Task Stores RunPoint) α

/-- An event about a run, in the name of the worker. -/
def runEvent (run : RunRecord) (action : JsString) (payload : PlainObject) : AuditEvent :=
  ⟨action, some run.id, some payload, none⟩

/-- Append an event about a run.
Source: `worker.ts`, `RunWorker.tick` -/
def record (ctx : TenantContext) (run : RunRecord) (action : JsString) (payload : PlainObject) :
    Tick AuditEntry :=
  ExceptT.mk (Task.await .append fun s =>
    let r := s.append ctx (runEvent run action payload)
    (r.1.mapError Thrown.error, r.2))

/-- The backend a run declares.
Source: `worker.ts`, `RunWorker.tick` -/
def backendOf (host : JsVal → Except JsError JsString) (manifest : PlainObject) :
    Except JsError JsString :=
  match manifest.get (js "isolationBackend") with
  | .undefined => .ok (js "unknown")
  | .null => .ok (js "unknown")
  | v => toText host v

/-- Capture the host before executing.
Source: `worker.ts`, `RunWorker.tick` -/
def recordEnvironment (o : WorkerOptions) (ctx : TenantContext) (run : RunRecord) : Tick Unit :=
  match o.captureEnvironment with
  | none => return
  | some probe => do
    let environment ← ExceptT.mk (Task.await .captureEnvironment fun s => (probe, s))
    match environment with
    | none => return
    | some environment =>
      ExceptT.lift (setEnvironment run.id environment.toPlainObject)
      let _ ← record ctx run (js "compute.node.selected") (nodePayload environment).toObject

/-- The action of the entry that ends a run.
Source: `worker.ts`, `RunWorker.tick` -/
def lastAction : Outcome → JsString
  | .completed => js "run.completed"
  | .failed => js "run.failed"

/-- The last entry and the outcome.
Source: `worker.ts`, `RunWorker.tick` -/
def conclude (ctx : TenantContext) (run : RunRecord) (outcome : Outcome)
    (reason : Option JsString) : Tick Bool := do
  let _ ← record ctx run (lastAction outcome) (reasonPayload reason).toObject
  let _ ← ExceptT.lift (finish run.id outcome reason)
  return true

/-- Every event the executor reported, in order.
Source: `worker.ts`, `RunWorker.tick` -/
def recordEvents (ctx : TenantContext) (run : RunRecord) : List ExecutionEvent → Tick Unit
  | [] => return
  | event :: events => do
    let _ ← record ctx run event.action event.payload
    recordEvents ctx run events

/-- Execute a run and record what came of it.
Source: `worker.ts`, `RunWorker.tick` -/
def executeRun (host : JsVal → Except JsError JsString) (ctx : TenantContext) (run : RunRecord)
    (executor : Executor) : Tick Bool := do
  let result ← ExceptT.lift (Task.await (.execute run.id) fun s =>
    (executor.execute run.id run.manifest ⟨run.tenantId, present run.credentialId⟩, s))
  match result with
  | .error thrown =>
    match thrown.message host with
    | .error e => throw (.error e)
    | .ok message => conclude ctx run .failed (some (js "Executor threw: " ++ message))
  | .ok result =>
    recordEvents ctx run result.events
    conclude ctx run result.outcome result.reason

/-- Choose an executor and execute, or refuse rather than substitute.
Source: `worker.ts`, `RunWorker.tick` -/
def dispatch (host : JsVal → Except JsError JsString) (o : WorkerOptions) (ctx : TenantContext)
    (run : RunRecord) (backend : JsString) : Tick Bool :=
  match o.selectExecutor backend with
  | .error thrown => throw thrown
  | .ok executor =>
    match executor.unavailableReason with
    | .error thrown => throw thrown
    | .ok blocked =>
      match present blocked with
      | some reason => do
        let _ ← record ctx run (js "execution.unavailable")
          (unavailablePayload backend reason).toObject
        conclude ctx run .failed (some reason)
      | none => executeRun host ctx run executor

/-- Everything after the claim.
Source: `worker.ts`, `RunWorker.tick` -/
def processRun (host : JsVal → Except JsError JsString) (o : WorkerOptions) (run : RunRecord) :
    Tick Bool := do
  let ctx : TenantContext := ⟨run.tenantId, o.workerId, []⟩
  match backendOf host run.manifest with
  | .error e => throw (.error e)
  | .ok backend =>
    let _ ← record ctx run (js "run.claimed") (claimedPayload o.workerId backend).toObject
    recordEnvironment o ctx run
    dispatch host o ctx run backend

/-- Claim and execute at most one run; whether one was claimed.
Source: `worker.ts`, `RunWorker.tick` -/
def tick (host : JsVal → Except JsError JsString) (o : WorkerOptions) : Tick Bool := do
  let claimed ← ExceptT.lift (claimNext o.workerId)
  match claimed with
  | none => return false
  | some run => processRun host o run

end AgentEval.Worker
