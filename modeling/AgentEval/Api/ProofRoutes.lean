import AgentEval.Async.Task
import AgentEval.Evidence.Retention
import AgentEval.Store.Stores

/-!
# `api/app.ts`: the routes that serve proofs

The handlers of `POST /v1/evidence/bundles`, `GET /v1/audit/:seq/inclusion-proof` and
`GET /v1/audit/consistency-proof` as tasks on the stores. Each `await` of a handler is a `Point`; the
operation there is what the handler does on the stores in one go, from one `await` to the next.

A `Server` is a pool of such tasks. Requests arrive and are resumed in any order, and between any
two steps others append to the audit log and change whatever else the process shares.
-/

namespace AgentEval.Api

open Js Evidence Store Async

/-! ## Errors -/

/-- Problem detail.
Source: `schemas/index.ts`, `Problem` -/
structure Problem where
  /-- Identifies the kind of problem. -/
  type : JsString
  /-- Says it in words. -/
  title : JsString
  /-- The status of the response. -/
  status : ℕ
  /-- What happened this time. -/
  detail : Option JsString
  /-- The field at fault. -/
  field : Option JsString

/-- Source: `schemas/index.ts`, `PROBLEM_BASE` -/
def problemBase : JsString := js "https://agent-eval.dev/errors"

/-- A problem; an empty detail or field is left out.
Source: `schemas/index.ts`, `problem` -/
def problem (slug title : JsString) (status : ℕ) (detail field : Option JsString) : Problem :=
  ⟨problemBase ++ js "/" ++ slug, title, status, detail.filter (· ≠ []), field.filter (· ≠ [])⟩

/-- What an uncaught error is answered with.
Source: `app.ts`, `setErrorHandler` -/
def errorHandler (statusCode : Option ℕ) (message : JsString) : Problem :=
  let status := statusCode.getD 500
  problem (if status = 500 then js "internal" else js "request-failed")
    (if status = 500 then js "Internal error" else message) status
    (if status = 500 then none else some message) none

/-! ## Responses -/

/-- A response of one of the routes. -/
inductive Response where
  /-- A problem, with its status. -/
  | problem (p : Problem)
  /-- `201` with a bundle. -/
  | bundle (bundleId : JsString) (bundle : EvidenceBundle)
  /-- An inclusion proof with its leaf and the root. -/
  | inclusionProof (proof : InclusionProof) (leaf root : JsString)
  /-- A consistency proof with the root and the size. -/
  | consistencyProof (proof : ConsistencyProof) (currentRoot : JsString) (currentSize : ℕ)

/-- The response to a thrown error. -/
def thrown (e : JsError) : Response := .problem (errorHandler none e.message)

/-- The response to a caller without the scope.
Source: `app.ts`, `requireScope` -/
def missingScope (scope : JsString) : Response :=
  .problem (errorHandler (some 403) (js "missing required scope: " ++ scope))

/-- The places where the handlers wait. -/
inductive Point where
  /-- `stores.runs.get` -/
  | bundleRun
  /-- `stores.audit.entriesForSubject` -/
  | bundleEntries
  /-- `stores.audit.root`, for the root -/
  | bundleRoot
  /-- `stores.audit.inclusionProof`, for every entry -/
  | bundleProofs
  /-- `stores.audit.root`, for the size -/
  | bundleSize
  /-- `keySource.sign` -/
  | bundleSign
  /-- `stores.bundles.create` -/
  | bundleCreate
  /-- `stores.audit.append` -/
  | bundleAppend
  /-- `stores.audit.at` -/
  | inclusionEntry
  /-- `stores.audit.inclusionProof` and `stores.audit.root` -/
  | inclusionProof
  /-- `stores.audit.root` -/
  | consistencyRoot
  /-- `stores.audit.consistencyProof` -/
  | consistencyProof
  deriving DecidableEq

/-! ## `POST /v1/evidence/bundles` -/

/-- Source: `schemas/index.ts`, `GenerateBundleInput` -/
structure GenerateBundleInput where
  /-- The run. -/
  runId : JsString
  /-- The rules the evidence is kept under. -/
  retentionRules : List JsString

/-- The proofs of the entries, all from one state of the log. The sequence numbers of a log are
integers.
Source: `app.ts`, `POST /v1/evidence/bundles` -/
def inclusionProofs (entries : List AuditEntry) (log : AuditLog) :
    Except JsError (List (JsString × InclusionProofObject)) :=
  entries.mapM fun e => do
    let proof ← InMemoryAuditStore.inclusionProof (Number.trunc e.seq.toRat) log
    return (e.seq.toString, .ofProof proof)

/-- The input of `createBundle`. A missing rule identifier comes with an invalid date, which
`createBundle` refuses.
Source: `app.ts`, `POST /v1/evidence/bundles` -/
def bundleInput (ctx : TenantContext) (input : GenerateBundleInput) (run : RunRecord)
    (entries : List AuditEntry) (now : TimeValue) (retention : ResolvedRetention) (root : JsString)
    (proofs : List (JsString × InclusionProofObject)) (bundleId : JsString) (size : ℕ) :
    BundleInput where
  bundleId := bundleId
  tenantId := ctx.tenantId
  runId := input.runId
  manifest := run.manifest
  entries := entries
  logRoot := root
  logSize := .ofNat size
  inclusionProofs := ⟨fromEntries proofs, distinctKeys_fromEntries proofs⟩
  consistency := none
  mappings := none
  retainUntil := retention.retainUntil
  policy := retention.governingRule.getD (js "undefined")
  wormAnchored := false
  generatedAt := some (some now)

/-- The detail of the event that a bundle leaves in the log. -/
def bundledPayload (bundleId : JsString) (entryCount : ℕ) (retainUntil : JsString) :
    PlainObject where
  props := [(js "bundleId", .str bundleId), (js "entryCount", .num (.ofNat entryCount)),
    (js "retainUntil", .str retainUntil)]
  wf := by
    refine JsVal.wf_obj.mpr ⟨?_, ?_⟩
    · change [js "bundleId", js "entryCount", js "retainUntil"].Nodup
      simp
    · simp only [List.forall_mem_cons]
      exact ⟨trivial, trivial, trivial, List.forall_mem_nil _⟩

/-- After the bundle is signed: store it, record it, answer.
Source: `app.ts`, `POST /v1/evidence/bundles` -/
def recordBundle (ctx : TenantContext) (input : GenerateBundleInput) (entryCount : ℕ)
    (retention : ResolvedRetention) (bundleId : JsString) (bundle : EvidenceBundle) :
    Task Stores Point Response := do
  Task.await .bundleCreate fun s => ((), s.createBundle fun createdAt =>
    ⟨bundleId, ctx.tenantId, input.runId, bundle, retention.retainUntil, retention.deleteBy,
      createdAt⟩)
  match AuditLog.toISOString retention.retainUntil with
  | .error e => return thrown e
  | .ok retainUntil =>
    let appended ← Task.await .bundleAppend fun s =>
      s.append ctx ⟨js "evidence.bundled", some input.runId,
        some (bundledPayload bundleId entryCount retainUntil), none⟩
    match appended with
    | .error e => return thrown e
    | .ok _ => return .bundle bundleId bundle

/-- Once the proofs are there: read the size, sign.
Source: `app.ts`, `POST /v1/evidence/bundles` -/
def signBundle (signer : KeySource) (ctx : TenantContext) (input : GenerateBundleInput)
    (run : RunRecord) (entries : List AuditEntry) (now : TimeValue) (retention : ResolvedRetention)
    (root : JsString) (proofs : List (JsString × InclusionProofObject)) :
    Task Stores Point Response := do
  let id ← Task.await .bundleSize fun s =>
    let (bundleId, s') := s.newId (js "bundle")
    ((bundleId, (InMemoryAuditStore.root s'.audit).2), s')
  let signedAt ← Task.await .bundleSign fun s => (s.clock, s)
  match createBundle signer now signedAt
      (bundleInput ctx input run entries now retention root proofs id.1 id.2) with
  | .error e =>
    return .problem (problem (js "unsignable") (js "Bundle cannot be signed") 409
      (some e.message) none)
  | .ok bundle => recordBundle ctx input entries.length retention id.1 bundle

/-- Once the entries are there: read the root, then the proofs.
Source: `app.ts`, `POST /v1/evidence/bundles` -/
def proveBundle (signer : KeySource) (ctx : TenantContext) (input : GenerateBundleInput)
    (run : RunRecord) (entries : List AuditEntry) : Task Stores Point Response := do
  let read ← Task.await .bundleRoot fun s => ((s.clock, (InMemoryAuditStore.root s.audit).1), s)
  match resolveRetention input.retentionRules read.1 with
  | .error e => return thrown e
  | .ok retention =>
    let proofs ← Task.await .bundleProofs fun s => (inclusionProofs entries s.audit, s)
    match proofs with
    | .error e => return thrown e
    | .ok proofs => signBundle signer ctx input run entries read.1 retention read.2 proofs

/-- Source: `app.ts`, `POST /v1/evidence/bundles` -/
def postBundle (signer : KeySource) (ctx : TenantContext) (input : GenerateBundleInput) :
    Task Stores Point Response :=
  if js "evidence:generate" ∉ ctx.scopes then return missingScope (js "evidence:generate")
  else do
    let run ← Task.await .bundleRun fun s => (InMemoryRunStore.get ctx input.runId s.runs, s)
    match run with
    | none => return .problem (problem (js "not-found") (js "Run not found") 404 none none)
    | some run =>
      let entries ← Task.await .bundleEntries fun s =>
        (InMemoryAuditStore.entriesForSubject ctx input.runId s.audit, s)
      if entries.isEmpty then
        return .problem (problem (js "no-audit-entries") (js "This run has no audit entries") 422
          (some (js "A bundle over an empty log would attest to nothing.")) none)
      else proveBundle signer ctx input run entries

/-! ## The proof routes -/

/-- Source: `app.ts`, `GET /v1/audit/:seq/inclusion-proof` -/
def getInclusionProof (ctx : TenantContext) (seqParam : JsString) : Task Stores Point Response :=
  if js "audit:read" ∉ ctx.scopes then return missingScope (js "audit:read")
  else
    let seq := parseInt seqParam
    if !seq.isInteger || seq.lt (.ofNat 0) then
      return .problem (problem (js "invalid-sequence") (js "Sequence number is not valid") 400
        (some (js "\"" ++ seqParam ++ js "\" is not a non-negative integer.")) (some (js "seq")))
    else do
      let entry ← Task.await .inclusionEntry fun s =>
        (InMemoryAuditStore.entryAt ctx (Number.trunc seq.toRat) s.audit, s)
      match entry with
      | .error e => return thrown e
      | .ok none =>
        return .problem (problem (js "not-found") (js "Audit entry not found") 404 none none)
      | .ok (some entry) =>
        let read ← Task.await .inclusionProof fun s =>
          ((InMemoryAuditStore.inclusionProof (Number.trunc seq.toRat) s.audit,
            (InMemoryAuditStore.root s.audit).1), s)
        match read.1 with
        | .error e => return thrown e
        | .ok proof => return .inclusionProof proof entry.entryHash read.2

/-- Once the root and the size are there: read the proof.
Source: `app.ts`, `GET /v1/audit/consistency-proof` -/
def proveConsistency (fromSize : ℕ) (current : JsString × ℕ) : Task Stores Point Response := do
  let proof ← Task.await .consistencyProof fun s =>
    (InMemoryAuditStore.consistencyProof fromSize s.audit, s)
  match proof with
  | .error e => return thrown e
  | .ok proof => return .consistencyProof proof current.1 current.2

/-- Source: `app.ts`, `GET /v1/audit/consistency-proof` -/
def getConsistencyProof (ctx : TenantContext) (fromSize : ℕ) : Task Stores Point Response :=
  if js "audit:read" ∉ ctx.scopes then return missingScope (js "audit:read")
  else do
    let current ← Task.await .consistencyRoot fun s => (InMemoryAuditStore.root s.audit, s)
    if current.2 < fromSize then
      return .problem (problem (js "invalid-range") (js "Requested size exceeds the current log") 422
        (some (js "log has " ++ natDigits current.2 ++ js " entries, asked for a proof from " ++
          (Number.ofNat fromSize).toString)) (some (js "from")))
    else proveConsistency fromSize current

/-! ## The server -/

/-- A request to one of the routes, after its body or query was parsed. -/
inductive Request where
  /-- `POST /v1/evidence/bundles` -/
  | bundle (ctx : TenantContext) (input : GenerateBundleInput)
  /-- `GET /v1/audit/:seq/inclusion-proof` -/
  | inclusionProof (ctx : TenantContext) (seqParam : JsString)
  /-- `GET /v1/audit/consistency-proof` -/
  | consistencyProof (ctx : TenantContext) (fromSize : ℕ)

/-- The handler of a request. -/
def Request.handle (signer : KeySource) : Request → Task Stores Point Response
  | bundle ctx input => postBundle signer ctx input
  | inclusionProof ctx seqParam => getInclusionProof ctx seqParam
  | consistencyProof ctx fromSize => getConsistencyProof ctx fromSize

/-- The handler, whose response is kept with the request. -/
def Request.task (signer : KeySource) (request : Request) :
    Task Stores Point (Request × Response) := do
  let response ← request.handle signer
  return (request, response)

/-- The stores, and the requests on their way or answered. -/
abbrev Server := Pool Stores Point (Request × Response)

/-- What can happen next at a server. -/
inductive Event where
  /-- A request arrives. -/
  | arrive (request : Request)
  /-- A request is resumed. -/
  | resume (i : ℕ)
  /-- Another request or the worker appends to the audit log. -/
  | append (ctx : TenantContext) (event : AuditEvent)
  /-- Whatever else is shared changes. -/
  | others (runs : List (JsString × RunRecord)) (bundles : List (JsString × BundleRecord))
    (clock : TimeValue) (idCounter : ℕ)

/-- The event as one of the pool. -/
def Event.toAsync (signer : KeySource) : Event → Async.Event Stores Point (Request × Response)
  | arrive request => .spawn (request.task signer)
  | resume i => .resume i
  | append ctx event => .other fun s => (s.append ctx event).2
  | others runs bundles clock idCounter => .other fun s => ⟨s.audit, runs, bundles, clock, idCounter⟩

namespace Server

/-- A server that has just started. -/
def start (clock : TimeValue) : Server := ⟨⟨.new, [], [], clock, 0⟩, []⟩

/-- One step. -/
def step (signer : KeySource) (server : Server) (e : Event) : Server :=
  Pool.step server (e.toAsync signer)

/-- The server after a list of events. -/
def run (signer : KeySource) (server : Server) (events : List Event) : Server :=
  Pool.run server (events.map (Event.toAsync signer))

section

variable (signer : KeySource) (s : Stores) (tasks : List (Task Stores Point (Request × Response)))

/-- The run after no event. -/
@[simp] theorem run_nil (server : Server) : server.run signer [] = server := rfl

/-- The run after one more event. -/
@[simp] theorem run_cons (server : Server) (e : Event) (events : List Event) :
    server.run signer (e :: events) = (server.step signer e).run signer events := rfl

/-- A request arrives. -/
@[simp] theorem step_arrive (request : Request) :
    step signer ⟨s, tasks⟩ (.arrive request) = ⟨s, tasks ++ [request.task signer]⟩ := rfl

/-- Others append. -/
@[simp] theorem step_append (ctx : TenantContext) (event : AuditEvent) :
    step signer ⟨s, tasks⟩ (.append ctx event) = ⟨(s.append ctx event).2, tasks⟩ := rfl

/-- The only request is resumed. -/
@[simp] theorem step_resume_zero (task : Task Stores Point (Request × Response)) :
    step signer ⟨s, [task]⟩ (.resume 0) = ⟨(task.resume s).2, [(task.resume s).1]⟩ := rfl

end

end Server

end AgentEval.Api
