import AgentEval.Async.Runs
import AgentEval.Store.Stores
import AgentEval.Trajectories.Atif

/-!
# `trajectories/store.ts`: the trial store

The methods of `InMemoryTrialStore` as tasks on the map of the trials. `appendStep`, `finishTrial`
and `setTrialStatus` read a trial, wait, and write a whole record made from what they have read.
-/

namespace AgentEval.Trajectories

open Js Zod Store Async

/-- Source: `store.ts`, `TrialStatus` -/
inductive TrialStatus where
  /-- The agent acts. -/
  | running
  /-- It has succeeded. -/
  | completed
  /-- It has not. -/
  | failed
  /-- It waits for a decision. -/
  | pendingApproval
  /-- A policy has ended it. -/
  | terminatedByPolicy
  /-- It was called off. -/
  | cancelled
  deriving DecidableEq

/-- The name of a status. -/
def TrialStatus.toJs : TrialStatus → JsString
  | running => js "running"
  | completed => js "completed"
  | failed => js "failed"
  | pendingApproval => js "pending_approval"
  | terminatedByPolicy => js "terminated_by_policy"
  | cancelled => js "cancelled"

/-- Source: `atif.ts`, `trajectorySchema`, `outcome` -/
inductive TrialOutcome where
  /-- It did what it was asked to. -/
  | success
  /-- It did not. -/
  | failure
  /-- It broke. -/
  | error
  /-- It stopped. -/
  | incomplete
  /-- A policy stopped it. -/
  | blockedByPolicy
  deriving DecidableEq

/-- The name of an outcome. -/
def TrialOutcome.toJs : TrialOutcome → JsString
  | success => js "success"
  | failure => js "failure"
  | error => js "error"
  | incomplete => js "incomplete"
  | blockedByPolicy => js "blocked_by_policy"

/-- The status of a trial that has ended so.
Source: `store.ts`, `finishTrial` -/
def TrialOutcome.status : TrialOutcome → TrialStatus
  | success => .completed
  | blockedByPolicy => .terminatedByPolicy
  | _ => .failed

/-- Source: `store.ts`, `TrialRecord` -/
structure TrialRecord (host : JsString → Number) where
  /-- The identifier of the trial. -/
  id : JsString
  /-- Its tenant. -/
  tenantId : JsString
  /-- The run it belongs to. -/
  runId : JsString
  /-- The task it attempts. -/
  taskId : JsString
  /-- How far it is. -/
  status : TrialStatus
  /-- Who acts. -/
  agent : AgentDescriptor
  /-- What happened. -/
  steps : List (TrajectoryStep host)
  /-- When it was created. -/
  startedAt : TimeValue
  /-- When it was finished. -/
  endedAt : Option TimeValue
  /-- How it ended. -/
  outcome : Option TrialOutcome
  /-- What the verifier says. -/
  score : Option Number
  /-- Where it ran. -/
  isolationBackend : Option JsString
  /-- Which decision it waits for. -/
  pendingApprovalId : Option JsString

/-- Source: `store.ts`, `CreateTrialInput` -/
structure CreateTrialInput where
  /-- The identifier of the trial. -/
  id : JsString
  /-- The run. -/
  runId : JsString
  /-- The task. -/
  taskId : JsString
  /-- Who acts. -/
  agent : AgentDescriptor
  /-- Where. -/
  isolationBackend : Option JsString

/-- `{ ...(value !== undefined ? { key: value } : {}) }` -/
def optionalProp (key : JsString) (value : Option JsVal) : Props :=
  (value.map fun v => (key, v)).toList

/-- Source: `store.ts`, `toTrajectory` -/
def toTrajectory {host : JsString → Number} (trial : TrialRecord host) : JsVal :=
  .obj ([(js "atif_version", .str atifVersion), (js "trial_id", .str trial.id),
      (js "run_id", .str trial.runId), (js "task_id", .str trial.taskId),
      (js "agent", trial.agent.value), (js "started_at", .str trial.startedAt.toISOString)] ++
    (optionalProp (js "ended_at") (trial.endedAt.map fun t => .str t.toISOString) ++
    ([(js "steps", .arr (trial.steps.map TrajectoryStep.value))] ++
    (optionalProp (js "outcome") (trial.outcome.map fun o => .str o.toJs) ++
    (optionalProp (js "score") (trial.score.map .num) ++
    optionalProp (js "isolation_backend")
      ((trial.isolationBackend.filter (· ≠ [])).map .str))))))

/-! ## The store -/

/-- The trials and the clock. -/
structure TrialStores (host : JsString → Number) where
  /-- The map of the trial store. -/
  trials : List (JsString × TrialRecord host)
  /-- What `new Date()` reads. -/
  clock : TimeValue

/-- A write over what a call has read. -/
inductive TrialWrite (host : JsString → Number) where
  /-- Of `appendStep`. -/
  | append (steps : List (TrajectoryStep host))
  /-- Of `finishTrial`. -/
  | finish (outcome : TrialOutcome) (score : Option Number)
  /-- Of `setTrialStatus`. -/
  | setStatus (status : TrialStatus) (approvalId : Option JsString)

/-- Where a call waits for its next operation. -/
inductive TrialPoint (host : JsString → Number) where
  /-- `createTrial` -/
  | create
  /-- `this.getTrial` -/
  | get (id : JsString)
  /-- The write over the trial that was read. -/
  | write (id : JsString) (trial : TrialRecord host) (w : TrialWrite host)

/-- What a call has come to. -/
inductive TrialAnswer (host : JsString → Number) where
  /-- Of `createTrial`. -/
  | created (r : Except AtifError (TrialRecord host))
  /-- Of `appendStep`; `none` is a `TrialNotFoundError`. -/
  | appended (id : JsString) (step : TrajectoryStep host)
    (r : Except (Option AtifError) (TrialRecord host))
  /-- Of `finishTrial`. -/
  | finished (id : JsString) (r : Option (TrialRecord host))
  /-- Of `setTrialStatus`. -/
  | statusSet (id : JsString) (r : Option (TrialRecord host))

namespace InMemoryTrialStore

variable {host : JsString → Number}

/-- Source: `store.ts`, `InMemoryTrialStore.createTrial` -/
def createTrial (ctx : TenantContext) (input : CreateTrialInput) (s : TrialStores host) :
    Except AtifError (TrialRecord host) × TrialStores host :=
  if input.id ∈ s.trials.map Prod.fst then
    (.error ⟨js "Trial " ++ input.id ++ js " already exists.", []⟩, s)
  else
    let record : TrialRecord host := {
      id := input.id
      tenantId := ctx.tenantId
      runId := input.runId
      taskId := input.taskId
      status := .running
      agent := input.agent
      steps := []
      startedAt := s.clock
      endedAt := none
      outcome := none
      score := none
      isolationBackend := input.isolationBackend.filter (· ≠ [])
      pendingApprovalId := none }
    (.ok record, { s with trials := setProp s.trials (record.id, record) })

/-- A trial of the caller's tenant.
Source: `store.ts`, `InMemoryTrialStore.getTrial` -/
def getTrial (ctx : TenantContext) (trialId : JsString) (s : TrialStores host) :
    Option (TrialRecord host) :=
  (s.trials.lookup trialId).filter fun t => decide (t.tenantId = ctx.tenantId)

/-- What `finishTrial` makes of the trial it has read.
Source: `store.ts`, `InMemoryTrialStore.finishTrial` -/
def finished (trial : TrialRecord host) (outcome : TrialOutcome) (score : Option Number)
    (now : TimeValue) : TrialRecord host :=
  { trial with
    status := outcome.status
    outcome := some outcome
    endedAt := some now
    score := score.or trial.score
    pendingApprovalId := none }

/-- What `setTrialStatus` makes of the trial it has read; an empty identifier counts as none.
Source: `store.ts`, `InMemoryTrialStore.setTrialStatus` -/
def withStatus (trial : TrialRecord host) (status : TrialStatus) (approvalId : Option JsString) :
    TrialRecord host :=
  { trial with
    status := status
    pendingApprovalId :=
      if status = .pendingApproval then approvalId.filter (· ≠ []) else none }

/-- The record that a call writes. -/
def updated (trial : TrialRecord host) (now : TimeValue) : TrialWrite host → TrialRecord host
  | .append steps => { trial with steps := steps }
  | .finish outcome score => finished trial outcome score now
  | .setStatus status approvalId => withStatus trial status approvalId

/-- `this.trials.set(trialId, updated); return updated`. -/
def write (id : JsString) (trial : TrialRecord host) (w : TrialWrite host) :
    Task (TrialStores host) (TrialPoint host) (TrialRecord host) :=
  Task.await (.write id trial w) fun s =>
    (updated trial s.clock w, { s with trials := setProp s.trials (id, updated trial s.clock w) })

/-- Append a step to a trial that has not ended.
Source: `store.ts`, `InMemoryTrialStore.appendStep` -/
def appendStep (ctx : TenantContext) (trialId : JsString) (step : TrajectoryStep host) :
    Task (TrialStores host) (TrialPoint host) (Except (Option AtifError) (TrialRecord host)) := do
  let trial ← Task.await (.get trialId) fun s => (getTrial ctx trialId s, s)
  match trial with
  | none => return .error none
  | some trial =>
    if trial.status ≠ .running ∧ trial.status ≠ .pendingApproval then
      return .error (some ⟨js "Trial " ++ trialId ++ js " is " ++ trial.status.toJs ++
        js " and accepts no further steps. A concluded trajectory is a closed record.", []⟩)
    else
      match Trajectories.appendStep trial.steps step with
      | .error e => return .error (some e)
      | .ok steps =>
        let updated ← write trialId trial (.append steps)
        return .ok updated

/-- Source: `store.ts`, `InMemoryTrialStore.finishTrial` -/
def finishTrial (ctx : TenantContext) (trialId : JsString) (outcome : TrialOutcome)
    (score : Option Number) :
    Task (TrialStores host) (TrialPoint host) (Option (TrialRecord host)) := do
  let trial ← Task.await (.get trialId) fun s => (getTrial ctx trialId s, s)
  match trial with
  | none => return none
  | some trial =>
    let updated ← write trialId trial (.finish outcome score)
    return some updated

/-- Source: `store.ts`, `InMemoryTrialStore.setTrialStatus` -/
def setTrialStatus (ctx : TenantContext) (trialId : JsString) (status : TrialStatus)
    (approvalId : Option JsString) :
    Task (TrialStores host) (TrialPoint host) (Option (TrialRecord host)) := do
  let trial ← Task.await (.get trialId) fun s => (getTrial ctx trialId s, s)
  match trial with
  | none => return none
  | some trial =>
    let updated ← write trialId trial (.setStatus status approvalId)
    return some updated

/-- A trial that is found is stored. -/
theorem lookup_of_getTrial {ctx : TenantContext} {id : JsString} {s : TrialStores host}
    {t : TrialRecord host} (h : getTrial ctx id s = some t) : s.trials.lookup id = some t :=
  Option.eq_some_of_filter_eq_some h

section resume

variable {α : Type} {ctx : TenantContext} {id : JsString} {s : TrialStores host}
  {t : TrialRecord host}

/-- `appendStep` finds an open trial whose next step this is. -/
theorem resume_appendStep {step : TrajectoryStep host}
    {k : Except (Option AtifError) (TrialRecord host) → Task (TrialStores host) (TrialPoint host) α}
    (hget : getTrial ctx id s = some t) (hopen : t.status = .running)
    (hstep : step.stepId = nextStepId t.steps) :
    (appendStep ctx id step >>= k).resume s =
      (write id t (.append (t.steps ++ [step])) >>= fun r => k (.ok r), s) := by
  have happend := appendStep_eq_ok.mpr ⟨hstep, rfl⟩
  unfold appendStep
  rw [Task.bind_assoc, Task.resume_await_bind, hget]
  dsimp only
  rw [if_neg (fun h => h.1 hopen), happend]
  dsimp only
  rw [Task.bind_assoc]
  rfl

/-- `finishTrial` finds a trial. -/
theorem resume_finishTrial {outcome : TrialOutcome} {score : Option Number}
    {k : Option (TrialRecord host) → Task (TrialStores host) (TrialPoint host) α}
    (hget : getTrial ctx id s = some t) :
    (finishTrial ctx id outcome score >>= k).resume s =
      (write id t (.finish outcome score) >>= fun r => k (some r), s) := by
  unfold finishTrial
  rw [Task.bind_assoc, Task.resume_await_bind, hget]
  dsimp only
  rw [Task.bind_assoc]
  rfl

/-- `setTrialStatus` finds a trial. -/
theorem resume_setTrialStatus {status : TrialStatus} {approvalId : Option JsString}
    {k : Option (TrialRecord host) → Task (TrialStores host) (TrialPoint host) α}
    (hget : getTrial ctx id s = some t) :
    (setTrialStatus ctx id status approvalId >>= k).resume s =
      (write id t (.setStatus status approvalId) >>= fun r => k (some r), s) := by
  unfold setTrialStatus
  rw [Task.bind_assoc, Task.resume_await_bind, hget]
  dsimp only
  rw [Task.bind_assoc]
  rfl

/-- A write is done over whatever is stored. -/
theorem resume_write {w : TrialWrite host}
    {k : TrialRecord host → Task (TrialStores host) (TrialPoint host) α} :
    (write id t w >>= k).resume s = (k (updated t s.clock w),
      { s with trials := setProp s.trials (id, updated t s.clock w) }) := rfl

end resume

end InMemoryTrialStore

/-! ## Runs -/

/-- The store and the calls that work on it. -/
abbrev TrialServer (host : JsString → Number) :=
  Pool (TrialStores host) (TrialPoint host) (TrialAnswer host)

/-- What can happen next. -/
inductive TrialEvent (host : JsString → Number) where
  /-- `createTrial` is called. -/
  | create (ctx : TenantContext) (input : CreateTrialInput)
  /-- `appendStep` is called. -/
  | append (ctx : TenantContext) (id : JsString) (step : TrajectoryStep host)
  /-- `finishTrial` is called. -/
  | finish (ctx : TenantContext) (id : JsString) (outcome : TrialOutcome)
    (score : Option Number)
  /-- `setTrialStatus` is called. -/
  | setStatus (ctx : TenantContext) (id : JsString) (status : TrialStatus)
    (approvalId : Option JsString)
  /-- A call is resumed. -/
  | resume (i : ℕ)
  /-- Time passes. -/
  | tick (now : TimeValue)

section

variable {host : JsString → Number}

/-- The event as one of the pool. -/
def TrialEvent.toAsync :
    TrialEvent host → Async.Event (TrialStores host) (TrialPoint host) (TrialAnswer host)
  | create ctx input => .spawn do
    let r ← Task.await .create (InMemoryTrialStore.createTrial ctx input)
    return .created r
  | append ctx id step => .spawn do
    let r ← InMemoryTrialStore.appendStep ctx id step
    return .appended id step r
  | finish ctx id outcome score => .spawn do
    let r ← InMemoryTrialStore.finishTrial ctx id outcome score
    return .finished id r
  | setStatus ctx id status approvalId => .spawn do
    let r ← InMemoryTrialStore.setTrialStatus ctx id status approvalId
    return .statusSet id r
  | resume i => .resume i
  | tick now => .other fun s => { s with clock := now }

namespace TrialServer

/-- An empty store. -/
def start (host : JsString → Number) (clock : TimeValue) : TrialServer host := ⟨⟨[], clock⟩, []⟩

/-- One step. -/
def step (server : TrialServer host) (e : TrialEvent host) : TrialServer host :=
  Pool.step server e.toAsync

/-- The store after a list of events. -/
def run (server : TrialServer host) (events : List (TrialEvent host)) : TrialServer host :=
  events.foldl step server

/-- A run in two parts. -/
theorem run_concat (server : TrialServer host) (events more : List (TrialEvent host)) :
    server.run (events ++ more) = (server.run events).run more := List.foldl_append

section symbolic

variable {s s' : TrialStores host}
  {ts : List (Task (TrialStores host) (TrialPoint host) (TrialAnswer host))}
  {t t' : Task (TrialStores host) (TrialPoint host) (TrialAnswer host)}
  {events : List (TrialEvent host)}

/-- A run that begins with a call. -/
theorem run_spawn {e : TrialEvent host} (h : e.toAsync = .spawn t) :
    run ⟨s, ts⟩ (e :: events) = run ⟨s, ts ++ [t]⟩ events := by
  rw [run, List.foldl_cons, step, h]
  rfl

/-- A run in which a call is resumed first. -/
theorem run_resume {i : ℕ} (hi : ts[i]? = some t) (h : t.resume s = (t', s')) :
    run ⟨s, ts⟩ (.resume i :: events) = run ⟨s', ts.set i t'⟩ events := by
  rw [run, List.foldl_cons, step, TrialEvent.toAsync, Pool.step_resume_of hi h]
  rfl

end symbolic

end TrialServer

end

end AgentEval.Trajectories
