import AgentEval.Async.Runs
import AgentEval.Store.Stores

/-!
# Tasks on the run store

What the routes and the worker do with a run, with the places where they wait. A method of a store
without an `await` of its own is one operation; `setStatus` reads the run, waits, and writes over
what it has read.
-/

namespace AgentEval.Store

open Js Evidence Async

/-- Where a task that works on runs waits for its next operation. -/
inductive RunPoint where
  /-- The part of `POST /v1/runs` before its first `await`. -/
  | submit
  /-- `stores.audit.append` -/
  | append
  /-- `stores.runs.claimNext` -/
  | claimNext
  /-- `this.get` in `setStatus` -/
  | get (id : JsString)
  /-- The write of `setStatus`. -/
  | setStatus (id : JsString) (status : RunStatus)
  /-- `captureEnvironment` -/
  | captureEnvironment
  /-- `stores.runs.setEnvironment` -/
  | setEnvironment (id : JsString)
  /-- `executor.execute` -/
  | execute (id : JsString)
  /-- `stores.runs.finish` -/
  | finish (id : JsString) (status : Outcome)

/-- Append to the audit store.
Source: `store/index.ts`, `AuditStore.append` -/
def appendEvent (ctx : TenantContext) (event : AuditEvent) :
    Task Stores RunPoint (Except JsError AuditEntry) :=
  Task.await .append (Stores.append ctx event)

/-- Set the status of a run of the caller's tenant.
Source: `store/index.ts`, `InMemoryRunStore.setStatus` -/
def setStatus (ctx : TenantContext) (id : JsString) (status : RunStatus) :
    Task Stores RunPoint (Option RunRecord) := do
  let r ← Task.await (.get id) fun s => (InMemoryRunStore.get ctx id s.runs, s)
  match r with
  | none => return none
  | some r =>
    Task.await (.setStatus id status) fun s =>
      let updated := InMemoryRunStore.withStatus r status s.clock
      (some updated, { s with runs := setProp s.runs (id, updated) })

/-- Claim the next queued run.
Source: `store/index.ts`, `InMemoryRunStore.claimNext` -/
def claimNext (workerId : JsString) : Task Stores RunPoint (Option RunRecord) :=
  Task.await .claimNext (Stores.claimNext workerId)

/-- Record the machine of a run.
Source: `store/index.ts`, `InMemoryRunStore.setEnvironment` -/
def setEnvironment (id : JsString) (environment : PlainObject) : Task Stores RunPoint Unit :=
  Task.await (.setEnvironment id) fun s =>
    ((), { s with runs := InMemoryRunStore.setEnvironment id environment s.runs })

/-- Record the outcome of a run.
Source: `store/index.ts`, `InMemoryRunStore.finish` -/
def finish (id : JsString) (status : Outcome) (reason : Option JsString) :
    Task Stores RunPoint (Option RunRecord) :=
  Task.await (.finish id status) (Stores.finish id status reason)

end AgentEval.Store
