import AgentEval.Async.Task
import AgentEval.Store.Stores

/-!
# `store/index.ts`: the approval store

Approvals wait for a person. `decide` reads an approval, waits, and writes over what it has read.
-/

namespace AgentEval.Store

open Js Evidence Async

/-- Source: `store/index.ts`, `ApprovalRecord`, `status` -/
inductive ApprovalStatus where
  /-- Nobody has decided. -/
  | pending
  /-- Somebody has agreed. -/
  | approved
  /-- Somebody has refused. -/
  | rejected
  /-- Somebody has passed it on. -/
  | escalated
  /-- Nobody decided in time. -/
  | timedOut
  deriving DecidableEq

/-- The name of a status. -/
def ApprovalStatus.toJs : ApprovalStatus → JsString
  | pending => js "pending"
  | approved => js "approved"
  | rejected => js "rejected"
  | escalated => js "escalated"
  | timedOut => js "timed-out"

/-- What happens if nobody acts.
Source: `store/index.ts`, `ApprovalRecord`, `onTimeout` -/
inductive OnTimeout where
  /-- The action is not taken. -/
  | deny
  /-- The action is taken. -/
  | allow

/-- Source: `store/index.ts`, `ApprovalRecord` -/
structure ApprovalRecord where
  /-- The identifier of the approval. -/
  id : JsString
  /-- Its tenant. -/
  tenantId : JsString
  /-- The run that waits for it. -/
  runId : JsString
  /-- What the run wants to do. -/
  action : JsString
  /-- Whether somebody has decided. -/
  status : ApprovalStatus
  /-- Until when somebody may; the date may be invalid. -/
  deadline : Option TimeValue
  /-- What happens if nobody does. -/
  onTimeout : OnTimeout
  /-- The trial. -/
  trialId : JsString
  /-- How far the trial was. -/
  throughStep : Number
  /-- Who decided. -/
  decidedBy : Option JsString
  /-- When. -/
  decidedAt : Option TimeValue
  /-- Why. -/
  rationale : Option JsString
  /-- When the approval was asked for. -/
  createdAt : Option TimeValue

/-- A decision.
Source: `store/index.ts`, `ApprovalStore.decide` -/
structure ApprovalDecision where
  /-- The status after it. -/
  status : ApprovalStatus
  /-- Why. -/
  rationale : JsString
  /-- Who decided. -/
  decidedBy : JsString

/-- The stores of a process with the approvals.
Source: `store/index.ts`, `Stores` -/
structure OversightStores extends Stores where
  /-- The map of the approval store. -/
  approvals : List (JsString × ApprovalRecord)

/-- Where a decide request waits for its next operation. -/
inductive ApprovalPoint where
  /-- `stores.approvals.get` -/
  | get (id : JsString)
  /-- `this.get` in `decide` -/
  | reread (id : JsString)
  /-- The write of `decide`. -/
  | decide (id : JsString)
  /-- `stores.audit.append` -/
  | append

namespace InMemoryApprovalStore

/-- Source: `store/index.ts`, `InMemoryApprovalStore.create` -/
def create (ctx : TenantContext) (a : ApprovalRecord) (approvals : List (JsString × ApprovalRecord)) :
    List (JsString × ApprovalRecord) :=
  setProp approvals (a.id, { a with tenantId := ctx.tenantId })

/-- An approval of the caller's tenant.
Source: `store/index.ts`, `InMemoryApprovalStore.get` -/
def get (ctx : TenantContext) (id : JsString) (approvals : List (JsString × ApprovalRecord)) :
    Option ApprovalRecord :=
  (approvals.lookup id).filter fun a => Decidable.decide (a.tenantId = ctx.tenantId)

/-- What `decide` makes of the record it has read.
Source: `store/index.ts`, `InMemoryApprovalStore.decide` -/
def decided (a : ApprovalRecord) (decision : ApprovalDecision) (now : TimeValue) :
    ApprovalRecord :=
  { a with
    status := decision.status
    rationale := some decision.rationale
    decidedBy := some decision.decidedBy
    decidedAt := some now }

/-- Decide on an approval of the caller's tenant.
Source: `store/index.ts`, `InMemoryApprovalStore.decide` -/
def decide (ctx : TenantContext) (id : JsString) (decision : ApprovalDecision) :
    Task OversightStores ApprovalPoint (Option ApprovalRecord) := do
  let a ← Task.await (.reread id) fun s => (get ctx id s.approvals, s)
  match a with
  | none => return none
  | some a =>
    Task.await (.decide id) fun s =>
      let updated := decided a decision s.clock
      (some updated, { s with approvals := setProp s.approvals (id, updated) })

/-- An approval that is found is stored, for the caller's tenant. -/
theorem get_eq_some {ctx : TenantContext} {id : JsString}
    {approvals : List (JsString × ApprovalRecord)} {a : ApprovalRecord} :
    get ctx id approvals = some a ↔
      approvals.lookup id = some a ∧ a.tenantId = ctx.tenantId := by
  rw [get, Option.filter_eq_some_iff, decide_eq_true_iff]

end InMemoryApprovalStore

end AgentEval.Store
