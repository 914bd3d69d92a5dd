import AgentEval.Api.RunRoutes
import AgentEval.Async.Phases
import AgentEval.Store.Approvals

/-!
# `api/app.ts`: decisions on approvals

`POST /v1/approvals/:id/decide` looks whether an approval is pending, writes the decision and records
it in the audit log, and waits before each of these steps.

* **`decided_once`**: in a run in which decisions are only written over pending approvals, no two
  requests on an approval succeed, and after one has, the approval and the log say the same.
* **`decided_twice`**: two requests find the same approval pending, and both succeed.
-/

namespace AgentEval.Api

open Js Evidence Store Async

/-! ## The route -/

/-- A caller as `authenticate` lets it through.
Source: `app.ts`, `devAuthenticate` -/
structure Caller extends TenantContext where
  tenantId_ne : tenantId ≠ []
  actor_ne : actor ≠ []

/-- Source: `schemas/index.ts`, `approvalDecisionSchema`, `decision` -/
inductive Decision where
  /-- Agree. -/
  | approve
  /-- Refuse. -/
  | reject
  /-- Pass it on. -/
  | escalate

/-- Source: `app.ts`, `statusMap` -/
def statusMap : Decision → ApprovalStatus
  | .approve => .approved
  | .reject => .rejected
  | .escalate => .escalated

/-- A body that the schema accepts.
Source: `schemas/index.ts`, `ApprovalDecisionInput` -/
structure ApprovalDecisionInput where
  /-- What is decided. -/
  decision : Decision
  /-- Why. -/
  rationale : JsString
  rationale_trim : trim rationale = rationale
  rationale_min : 10 ≤ rationale.length

/-- A response of the route. -/
inductive ApprovalResponse where
  /-- A problem, with its status. -/
  | problem (p : Problem)
  /-- The approval after the decision. -/
  | approval (updated : Option ApprovalRecord)

/-- The detail of the event that records a decision.
Source: `app.ts`, `POST /v1/approvals/:id/decide` -/
def decisionPayload (existing : ApprovalRecord) (rationale : JsString) : StringRecord where
  entries := [(js "approvalId", existing.id), (js "gatedAction", existing.action),
    (js "rationale", rationale)]
  distinct := by
    change [js "approvalId", js "gatedAction", js "rationale"].Nodup
    simp

/-- The event that records a decision.
Source: `app.ts`, `POST /v1/approvals/:id/decide` -/
def decisionEvent (existing : ApprovalRecord) (input : ApprovalDecisionInput) : AuditEvent :=
  ⟨js "approval." ++ (statusMap input.decision).toJs, some existing.runId,
    some (decisionPayload existing input.rationale).toObject, none⟩

/-- The last part of the route: the entry.
Source: `app.ts`, `POST /v1/approvals/:id/decide` -/
def recordDecision (ctx : TenantContext) (existing : ApprovalRecord) (input : ApprovalDecisionInput)
    (updated : Option ApprovalRecord) : Task OversightStores ApprovalPoint ApprovalResponse := do
  let appended ← Task.await .append fun s =>
    let (appended, stores) := s.toStores.append ctx (decisionEvent existing input)
    (appended, { s with toStores := stores })
  match appended with
  | .error e => return .problem (errorHandler none e.message)
  | .ok _ => return .approval updated

/-- The part of the route after the check: the decision, then its entry.
Source: `app.ts`, `POST /v1/approvals/:id/decide` -/
def decideFound (ctx : TenantContext) (id : JsString) (existing : ApprovalRecord)
    (input : ApprovalDecisionInput) : Task OversightStores ApprovalPoint ApprovalResponse := do
  let updated ← InMemoryApprovalStore.decide ctx id
    ⟨statusMap input.decision, input.rationale, ctx.actor⟩
  recordDecision ctx existing input updated

/-- Source: `app.ts`, `POST /v1/approvals/:id/decide` -/
def decideApproval (ctx : TenantContext) (id : JsString) (input : ApprovalDecisionInput) :
    Task OversightStores ApprovalPoint ApprovalResponse :=
  if js "approvals:decide" ∉ ctx.scopes then
    return .problem (errorHandler (some 403) (js "missing required scope: approvals:decide"))
  else do
    let existing ← Task.await (.get id) fun s => (InMemoryApprovalStore.get ctx id s.approvals, s)
    match existing with
    | none =>
      return .problem (problem (js "not-found") (js "Approval not found") 404 none none)
    | some existing =>
      if existing.status ≠ .pending then
        return .problem (problem (js "already-decided")
          (js "This approval has already been decided") 409
          (some (js "current status: " ++ existing.status.toJs)) none)
      else decideFound ctx id existing input

/-! ## The server -/

/-- The requests to decide, each with the approval that it is about. -/
abbrev ApprovalServer := Pool OversightStores ApprovalPoint (JsString × ApprovalResponse)

/-- What can happen next. -/
inductive ApprovalEvent where
  /-- An approval is asked for. -/
  | create (ctx : TenantContext) (a : ApprovalRecord)
  /-- `POST /v1/approvals/:id/decide` -/
  | decide (caller : Caller) (id : JsString) (input : ApprovalDecisionInput)
  /-- A request is resumed. -/
  | resume (i : ℕ)
  /-- Whatever else is shared changes. -/
  | others (stores : Stores)

/-- A request on an approval. -/
def answered (id : JsString) (t : Task OversightStores ApprovalPoint ApprovalResponse) :
    Task OversightStores ApprovalPoint (JsString × ApprovalResponse) := do
  let response ← t
  return (id, response)

/-- The event as one of the pool. -/
def ApprovalEvent.toAsync :
    ApprovalEvent → Async.Event OversightStores ApprovalPoint (JsString × ApprovalResponse)
  | create ctx a => .other fun s =>
    { s with approvals := InMemoryApprovalStore.create ctx a s.approvals }
  | decide caller id input => .spawn (answered id (decideApproval caller.toTenantContext id input))
  | resume i => .resume i
  | others stores => .other fun s => { s with toStores := stores }

namespace ApprovalServer

/-- A server that has just started. -/
def start (clock : TimeValue) : ApprovalServer := ⟨⟨⟨.new, [], [], clock, 0⟩, []⟩, []⟩

/-- One step. -/
def step (server : ApprovalServer) (e : ApprovalEvent) : ApprovalServer :=
  Pool.step server e.toAsync

/-- The server after a list of events. -/
def run (server : ApprovalServer) (events : List ApprovalEvent) : ApprovalServer :=
  events.foldl step server

/-- A request on an approval has succeeded. -/
def Succeeded (server : ApprovalServer) (i : ℕ) (id : JsString) : Prop :=
  ∃ updated, server.tasks[i]? = some (.done (id, .approval updated))

end ApprovalServer

/-! ## The trail of an approval -/

/-- A decision as it is recorded. -/
structure Recorded where
  /-- The approval. -/
  approvalId : JsString
  /-- The status after the decision. -/
  status : ApprovalStatus
  /-- Who decided. -/
  decidedBy : JsString
  /-- Why. -/
  rationale : JsString

/-- The text of a value. -/
def text? : JsVal → Option JsString
  | .str s => some s
  | _ => none

/-- The status that an entry about a decision names. -/
def decisionStatus (action : JsString) : Option ApprovalStatus :=
  [.approved, .rejected, .escalated].find? fun status =>
    decide (action = js "approval." ++ status.toJs)

/-- The decision that an entry records. -/
def recordedBy (entry : AuditEntry) : Option Recorded := do
  let status ← decisionStatus entry.action
  let approvalId ← text? (entry.payload.get (js "approvalId"))
  let rationale ← text? (entry.payload.get (js "rationale"))
  return ⟨approvalId, status, entry.actor, rationale⟩

/-- The decisions on an approval that a log records, in order. -/
def decisions (log : AuditLog) (id : JsString) : List Recorded :=
  (log.entries.filterMap recordedBy).filter fun d => decide (d.approvalId = id)

/-- An approval says what a recorded decision says. -/
def Recorded.Of (d : Recorded) (a : ApprovalRecord) : Prop :=
  a.status = d.status ∧ a.decidedBy = some d.decidedBy ∧ a.rationale = some d.rationale

/-- The decision of a request. -/
def recorded (ctx : TenantContext) (id : JsString) (input : ApprovalDecisionInput) : Recorded :=
  ⟨id, statusMap input.decision, ctx.actor, input.rationale⟩

/-- The action of a decision names its status. -/
theorem decisionStatus_statusMap (decision : Decision) :
    decisionStatus (js "approval." ++ (statusMap decision).toJs) = some (statusMap decision) := by
  cases decision <;> simp [decisionStatus, statusMap, ApprovalStatus.toJs]

/-- The entry of a decision records it. -/
theorem recordedBy_decisionEvent {ctx : TenantContext} {existing : ApprovalRecord}
    {input : ApprovalDecisionInput} {entry : AuditEntry}
    (haction : entry.action = (decisionEvent existing input).action)
    (hactor : entry.actor = ctx.actor)
    (hpayload : entry.payload = (decisionPayload existing input.rationale).toObject) :
    recordedBy entry = some (recorded ctx existing.id input) := by
  have hid : entry.payload.get (js "approvalId") = .str existing.id := by
    rw [hpayload]
    simp [PlainObject.get, StringRecord.toObject, decisionPayload, getProp]
  have hrationale : entry.payload.get (js "rationale") = .str input.rationale := by
    rw [hpayload]
    simp [PlainObject.get, StringRecord.toObject, decisionPayload, getProp]
  rw [recordedBy, haction, decisionEvent, decisionStatus_statusMap, hid, hrationale, hactor]
  rfl

/-- A log with more entries. -/
theorem decisions_of_append {log log' : AuditLog} {more : List AuditEntry}
    (h : log'.entries = log.entries ++ more) (id : JsString) :
    decisions log' id = decisions log id ++
      (more.filterMap recordedBy).filter fun d => decide (d.approvalId = id) := by
  rw [decisions, h, List.filterMap_append, List.filter_append]
  rfl

/-- A log with one more entry that records a decision. -/
theorem decisions_extend {log : AuditLog} {entry : AuditEntry} {d : Recorded}
    (h : recordedBy entry = some d) (id : JsString) :
    decisions (log.extend entry) id =
      decisions log id ++ if d.approvalId = id then [d] else [] := by
  have hentries : (log.extend entry).entries = log.entries ++ [entry] := rfl
  rw [decisions_of_append hentries, List.filterMap_cons, h, List.filterMap_nil]
  by_cases hid : d.approvalId = id <;> simp [hid]

/-! ## What a request owes -/

/-- How far a request is. -/
inductive DecisionPhase where
  /-- It has not found a pending approval. -/
  | free
  /-- It has found one, and `decide` reads it again. -/
  | checked (tenantId : JsString) (d : Recorded)
  /-- `decide` is about to write. -/
  | deciding (tenantId : JsString) (d : Recorded)
  /-- The decision is written, and its entry is owed. -/
  | recording (d : Recorded)
  /-- It has succeeded. -/
  | succeeded (d : Recorded)
  /-- The approval was gone when `decide` read it again. -/
  | lost

namespace DecisionPhase

/-- The approval that a request has read and is going to write. -/
def reads? : DecisionPhase → Option (JsString × Recorded)
  | checked tenantId d => some (tenantId, d)
  | deciding tenantId d => some (tenantId, d)
  | _ => none

/-- The decision that a request has written. -/
def wrote? : DecisionPhase → Option Recorded
  | recording d => some d
  | succeeded d => some d
  | _ => none

/-- The entries that a request has added. -/
def entries : DecisionPhase → List Recorded
  | succeeded d => [d]
  | _ => []

end DecisionPhase

/-- An approval is stored for a tenant. -/
def Stored (s : OversightStores) (id tenantId : JsString) : Prop :=
  ∃ a, s.approvals.lookup id = some a ∧ a.tenantId = tenantId

/-- A decision is written over an approval. -/
def Written (d : Recorded) (tenantId : JsString) (s s' : OversightStores) : Prop :=
  d.status ≠ .pending ∧ s'.audit = s.audit ∧ ∃ a, a.id = d.approvalId ∧ a.tenantId = tenantId ∧
    d.Of a ∧ s'.approvals = setProp s.approvals (d.approvalId, a)

/-- A decision is recorded. -/
def Noted (d : Recorded) (s s' : OversightStores) : Prop :=
  s'.approvals = s.approvals ∧ ∀ id,
    decisions s'.audit id = decisions s.audit id ++ if d.approvalId = id then [d] else []

/-- The script of a decide request. -/
inductive DecisionOp : DecisionPhase → ApprovalPoint → (OversightStores → OversightStores) →
    OversightStores → DecisionPhase → Prop
  /-- It finds no pending approval. -/
  | refused {id update s} (h : update s = s) : DecisionOp .free (.get id) update s .free
  /-- It finds one. -/
  | found {tenantId d update s} (hstored : Stored s d.approvalId tenantId) (h : update s = s) :
      DecisionOp .free (.get d.approvalId) update s (.checked tenantId d)
  /-- It reads it again. -/
  | reread {tenantId d update s} (h : update s = s) :
      DecisionOp (.checked tenantId d) (.reread d.approvalId) update s (.deciding tenantId d)
  /-- It does not find it again. -/
  | missed {tenantId d update s} (hmissing : ¬ Stored s d.approvalId tenantId) :
      DecisionOp (.checked tenantId d) (.reread d.approvalId) update s .lost
  /-- It writes. -/
  | decide {tenantId d update s} (h : Written d tenantId s (update s)) :
      DecisionOp (.deciding tenantId d) (.decide d.approvalId) update s (.recording d)
  /-- It records the decision. -/
  | record {d update s} (h : Noted d s (update s)) :
      DecisionOp (.recording d) .append update s (.succeeded d)
  /-- Anything, after the approval was gone. -/
  | stray {point update s} : DecisionOp .lost point update s .lost

/-- Who has been told that a decision was made has made one. -/
def Answered (phase : DecisionPhase) (answer : JsString × ApprovalResponse) : Prop :=
  ∀ updated, answer.2 = .approval updated →
    phase = .lost ∨ ∃ d, phase = .succeeded d ∧ d.approvalId = answer.1

/-- The approvals are stored under their identifiers. -/
def KeyedApprovals (s : OversightStores) : Prop :=
  ∀ id a, s.approvals.lookup id = some a → a.id = id

/-- The log has room, and the approvals are stored under their identifiers. -/
def Room (s : OversightStores) : Prop := s.audit.size < 2 ^ 53 ∧ KeyedApprovals s

section script

variable {ctx : TenantContext} {id : JsString} {input : ApprovalDecisionInput}
  {existing : ApprovalRecord} {phase : DecisionPhase}

/-- A status that a decision leads to. -/
theorem statusMap_ne_pending (decision : Decision) : statusMap decision ≠ .pending := by
  cases decision <;> simp [statusMap]

/-- The log takes the event of a decision. -/
theorem accepts_decisionEvent (caller : Caller) (existing : ApprovalRecord)
    (input : ApprovalDecisionInput) :
    Accepts caller.toTenantContext (decisionEvent existing input) :=
  ⟨by simp [decisionEvent], caller.actor_ne, caller.tenantId_ne, by simp [decisionEvent],
    (decisionPayload existing input.rationale).isJson_toJs⟩

/-- What a request answers about an approval. -/
def AnsweredFor (id : JsString) (phase : DecisionPhase) (response : ApprovalResponse) : Prop :=
  Answered phase (id, response)

/-- The last part of the route, after a decision was written. -/
theorem follows_recordDecision (caller : Caller) (existing : ApprovalRecord)
    (input : ApprovalDecisionInput) (updated : Option ApprovalRecord) :
    (recordDecision caller.toTenantContext existing input updated).Follows Room DecisionOp
      (AnsweredFor existing.id)
      (.recording (recorded caller.toTenantContext existing.id input)) := by
  unfold recordDecision
  refine Task.Follows.await fun s hs => ?_
  obtain ⟨entry, happend, haction, -, -, hactor, hpayload⟩ :=
    (accepts_decisionEvent caller existing input).append hs.1
  refine ⟨.succeeded (recorded caller.toTenantContext existing.id input), .record ?_, ?_⟩
  · dsimp only
    rw [happend]
    exact ⟨rfl, decisions_extend (recordedBy_decisionEvent haction hactor hpayload)⟩
  · dsimp only
    rw [happend]
    exact fun _ _ => .inr ⟨_, rfl, rfl⟩

/-- The last part of the route, after the approval was gone. -/
theorem follows_recordDecision_lost (ctx : TenantContext) (existing : ApprovalRecord)
    (input : ApprovalDecisionInput) (updated : Option ApprovalRecord) :
    (recordDecision ctx existing input updated).Follows Room DecisionOp (AnsweredFor id) .lost := by
  unfold recordDecision
  refine Task.Follows.await fun s _ => ⟨.lost, .stray, ?_⟩
  cases (s.toStores.append ctx (decisionEvent existing input)).1 with
  | error e => exact fun _ h => by cases h
  | ok entry => exact fun _ _ => .inl rfl

/-- The part of the route after the check. -/
theorem follows_decideFound (caller : Caller) (existing : ApprovalRecord)
    (input : ApprovalDecisionInput) :
    (decideFound caller.toTenantContext existing.id existing input).Follows Room DecisionOp
      (AnsweredFor existing.id)
      (.checked caller.tenantId (recorded caller.toTenantContext existing.id input)) := by
  unfold decideFound InMemoryApprovalStore.decide
  rw [Task.bind_assoc]
  refine Task.Follows.await fun s hs => ?_
  cases hget : InMemoryApprovalStore.get caller.toTenantContext existing.id s.approvals with
  | none =>
    refine ⟨.lost, .missed ?_,
      follows_recordDecision_lost caller.toTenantContext existing input none⟩
    rintro ⟨a, hlookup, htenant⟩
    have hfound := hget.symm.trans (InMemoryApprovalStore.get_eq_some.mpr ⟨hlookup, htenant⟩)
    cases hfound
  | some a =>
    obtain ⟨hlookup, htenant⟩ := InMemoryApprovalStore.get_eq_some.mp hget
    refine ⟨.deciding caller.tenantId (recorded caller.toTenantContext existing.id input),
      .reread rfl, ?_⟩
    refine Task.Follows.await fun t _ =>
      ⟨_, .decide ?_, follows_recordDecision caller existing input _⟩
    exact ⟨statusMap_ne_pending _, rfl, InMemoryApprovalStore.decided a _ t.clock,
      hs.2 existing.id a hlookup, htenant, ⟨rfl, rfl, rfl⟩, rfl⟩

/-- The route. -/
theorem follows_decideApproval (caller : Caller) (id : JsString) (input : ApprovalDecisionInput) :
    (decideApproval caller.toTenantContext id input).Follows Room DecisionOp (AnsweredFor id)
      .free := by
  have hproblem : ∀ p, (pure (.problem p) : Task OversightStores ApprovalPoint _).Follows Room
      DecisionOp (AnsweredFor id) .free := fun p _ h => by cases h
  unfold decideApproval
  split
  · exact hproblem _
  · refine Task.Follows.await fun s hs => ?_
    cases hget : InMemoryApprovalStore.get caller.toTenantContext id s.approvals with
    | none => exact ⟨.free, .refused rfl, hproblem _⟩
    | some existing =>
      obtain ⟨hlookup, htenant⟩ := InMemoryApprovalStore.get_eq_some.mp hget
      obtain rfl := hs.2 id existing hlookup
      dsimp only
      split
      · exact ⟨.free, .refused rfl, hproblem _⟩
      · refine ⟨_, ?_, follows_decideFound caller existing input⟩
        exact @DecisionOp.found _ (recorded caller.toTenantContext existing.id input) _ s
          ⟨existing, hlookup, htenant⟩ rfl

/-- A request. -/
theorem follows_request (caller : Caller) (id : JsString) (input : ApprovalDecisionInput) :
    (answered id (decideApproval caller.toTenantContext id input)).Follows Room DecisionOp Answered
      .free :=
  Task.Follows.bind (follows_decideApproval caller id input) fun _ _ h => h

end script

/-! ## The condition on a run of the server -/

/-- What the server is given: a new approval has a fresh identifier, the log has room, and nobody
else records decisions. -/
def Given (server : ApprovalServer) : ApprovalEvent → Prop
  | .create _ a => server.shared.approvals.lookup a.id = none
  | .decide .. => True
  | .resume _ => server.shared.audit.size < 2 ^ 53
  | .others stores => ∃ more, stores.audit.entries = server.shared.audit.entries ++ more ∧
      ∀ entry ∈ more, recordedBy entry = none

/-- **The condition on a step**: where it writes a decision, the approval is still pending. -/
def WritesPending (server : ApprovalServer) : ApprovalEvent → Prop
  | .resume i => ∀ t id, server.tasks[i]? = some t → t.point = some (.decide id) →
      ∃ a, server.shared.approvals.lookup id = some a ∧ a.status = .pending
  | _ => True

/-! ## What holds throughout -/

/-- The approval says what was decided. -/
def Stands (s : OversightStores) (d : Recorded) : Prop :=
  d.status ≠ .pending ∧ ∃ a, s.approvals.lookup d.approvalId = some a ∧ d.Of a

/-- How requests, approvals and log stand to each other, for one approval: who is going to write it
has found it, one request at most has written it, and the log has what that request has recorded. -/
structure DecidedAt (phases : List DecisionPhase) (s : OversightStores) (id : JsString) : Prop where
  stored : ∀ phase ∈ phases, ∀ tenantId d, phase.reads? = some (tenantId, d) → d.approvalId = id →
    Stored s id tenantId
  once : ∀ (i j : ℕ) (phase phase' : DecisionPhase) (d d' : Recorded), phases[i]? = some phase →
    phases[j]? = some phase' → phase.wrote? = some d → phase'.wrote? = some d' →
    d.approvalId = id → d'.approvalId = id → i = j
  wrote : ∀ phase ∈ phases, ∀ d, phase.wrote? = some d → d.approvalId = id →
    Stands s d ∧ decisions s.audit id = phase.entries
  unwritten : (∀ phase ∈ phases, ∀ d, phase.wrote? = some d → d.approvalId ≠ id) →
    decisions s.audit id = []

section decided

variable {phases : List DecisionPhase} {s s' : OversightStores} {id : JsString} {i : ℕ}
  {phase phase' : DecisionPhase} {d : Recorded}

/-- Approvals that are as they were still say what was decided. -/
theorem Stands.of_lookup (h : Stands s d)
    (hlookup : s'.approvals.lookup d.approvalId = s.approvals.lookup d.approvalId) :
    Stands s' d := by
  rw [Stands, hlookup]
  exact h

/-- **The frame rule**: a step that does not write or record a decision on an approval. -/
theorem DecidedAt.frame (h : DecidedAt phases s id) (hi : phases[i]? = some phase)
    (hwrote : ∀ d, phase.wrote? = some d → d.approvalId ≠ id)
    (hwrote' : ∀ d, phase'.wrote? = some d → d.approvalId ≠ id)
    (hreads' : ∀ tenantId d, phase'.reads? = some (tenantId, d) → d.approvalId = id →
      Stored s id tenantId)
    (hlookup : s'.approvals.lookup id = s.approvals.lookup id)
    (hdecisions : decisions s'.audit id = decisions s.audit id) :
    DecidedAt (phases.set i phase') s' id := by
  have hstored : ∀ tenantId, Stored s id tenantId → Stored s' id tenantId := by
    intro tenantId hstored
    rw [Stored, hlookup]
    exact hstored
  refine ⟨?_, ?_, ?_, ?_⟩
  · intro ph hmem tenantId d hreads hid
    rcases List.mem_or_eq_of_mem_set hmem with hmem | rfl
    · exact hstored tenantId (h.stored ph hmem tenantId d hreads hid)
    · exact hstored tenantId (hreads' tenantId d hreads hid)
  · intro j k ph ph' d d' hj hk hd hd' hid hid'
    rcases getElem?_set_cases hj with ⟨-, rfl⟩ | ⟨-, hj⟩
    · exact absurd hid (hwrote' d hd)
    · rcases getElem?_set_cases hk with ⟨-, rfl⟩ | ⟨-, hk⟩
      · exact absurd hid' (hwrote' d' hd')
      · exact h.once j k ph ph' d d' hj hk hd hd' hid hid'
  · intro ph hmem d hd hid
    rcases List.mem_or_eq_of_mem_set hmem with hmem | rfl
    · obtain ⟨hstands, hentries⟩ := h.wrote ph hmem d hd hid
      exact ⟨hstands.of_lookup (by rw [hid, hlookup]), hdecisions.trans hentries⟩
    · exact absurd hid (hwrote' d hd)
  · intro hnone
    refine hdecisions.trans (h.unwritten fun ph hmem d hd hid => ?_)
    obtain ⟨j, hj⟩ := List.getElem?_of_mem hmem
    by_cases hij : i = j
    · subst hij
      rw [hi, Option.some.injEq] at hj
      exact hwrote d (hj ▸ hd) hid
    · refine hnone ph (List.mem_of_getElem? (i := j) ?_) d hd hid
      rw [List.getElem?_set_ne hij]
      exact hj

/-- A decision is written over a pending approval. -/
theorem DecidedAt.write {tenantId : JsString} (h : DecidedAt phases s d.approvalId)
    (hi : phases[i]? = some (.deciding tenantId d)) (hwritten : Written d tenantId s s')
    (hpending : ∃ a, s.approvals.lookup d.approvalId = some a ∧ a.status = .pending) :
    DecidedAt (phases.set i (.recording d)) s' d.approvalId := by
  obtain ⟨hstatus, haudit, a, -, htenant, hof, happrovals⟩ := hwritten
  obtain ⟨b, hb, hpending⟩ := hpending
  have hlookup : s'.approvals.lookup d.approvalId = some a := by
    rw [happrovals, lookup_setProp, if_pos rfl]
  have hnone : ∀ ph ∈ phases, ∀ d', ph.wrote? = some d' → d'.approvalId ≠ d.approvalId := by
    intro ph hmem d' hd' hid
    obtain ⟨⟨hne, c, hc, hofc, -⟩, -⟩ := h.wrote ph hmem d' hd' hid
    rw [hid, hb, Option.some.injEq] at hc
    rw [← hc, hpending] at hofc
    exact hne hofc.symm
  refine ⟨?_, ?_, ?_, ?_⟩
  · intro ph hmem tenantId' d' hreads hid
    rcases List.mem_or_eq_of_mem_set hmem with hmem | rfl
    · obtain ⟨c, hc, rfl⟩ := h.stored ph hmem tenantId' d' hreads hid
      obtain ⟨c', hc', hc'tenant⟩ := h.stored _ (List.mem_of_getElem? hi) tenantId d rfl rfl
      rw [hc, Option.some.injEq] at hc'
      exact ⟨a, hlookup, by rw [htenant, ← hc'tenant, hc']⟩
    · cases hreads
  · intro j k ph ph' e e' hj hk he he' hid hid'
    rcases getElem?_set_cases hj with ⟨rfl, -⟩ | ⟨-, hj⟩
    · rcases getElem?_set_cases hk with ⟨rfl, -⟩ | ⟨-, hk⟩
      · rfl
      · exact absurd hid' (hnone ph' (List.mem_of_getElem? hk) e' he')
    · exact absurd hid (hnone ph (List.mem_of_getElem? hj) e he)
  · intro ph hmem e he hid
    rcases List.mem_or_eq_of_mem_set hmem with hmem | rfl
    · exact absurd hid (hnone ph hmem e he)
    · cases he
      exact ⟨⟨hstatus, a, hlookup, hof⟩, by rw [haudit]; exact h.unwritten hnone⟩
  · intro hnone'
    refine absurd rfl (hnone' (.recording d) ?_ d rfl)
    exact List.mem_set (List.getElem?_eq_some_iff.mp hi).1 _

/-- A written decision is recorded. -/
theorem DecidedAt.note (h : DecidedAt phases s d.approvalId) (hi : phases[i]? = some (.recording d))
    (hnoted : Noted d s s') : DecidedAt (phases.set i (.succeeded d)) s' d.approvalId := by
  obtain ⟨happrovals, hdecisions⟩ := hnoted
  have hothers : ∀ {j : ℕ} {ph : DecisionPhase} {e : Recorded}, phases[j]? = some ph → ph.wrote? = some e →
      e.approvalId = d.approvalId → i = j := fun hj he hid =>
    h.once i _ _ _ d _ hi hj rfl he rfl hid
  obtain ⟨hstands, hnone⟩ := h.wrote _ (List.mem_of_getElem? hi) d rfl rfl
  refine ⟨?_, ?_, ?_, ?_⟩
  · intro ph hmem tenantId e hreads hid
    rcases List.mem_or_eq_of_mem_set hmem with hmem | rfl
    · rw [Stored, happrovals]
      exact h.stored ph hmem tenantId e hreads hid
    · cases hreads
  · intro j k ph ph' e e' hj hk he he' hid hid'
    have hplace : ∀ {j : ℕ} {ph : DecisionPhase} {e : Recorded},
        (phases.set i (.succeeded d))[j]? = some ph → ph.wrote? = some e →
          e.approvalId = d.approvalId → i = j := by
      intro j ph e hj he hid
      rcases getElem?_set_cases hj with ⟨hij, -⟩ | ⟨-, hj⟩
      · exact hij
      · exact hothers hj he hid
    rw [← hplace hj he hid, ← hplace hk he' hid']
  · intro ph hmem e he hid
    obtain ⟨j, hj⟩ := List.getElem?_of_mem hmem
    rcases getElem?_set_cases hj with ⟨-, rfl⟩ | ⟨hij, hj⟩
    · cases he
      refine ⟨hstands.of_lookup (by rw [happrovals]), ?_⟩
      rw [hdecisions, hnone, if_pos rfl]
      rfl
    · exact absurd (hothers hj he hid) hij
  · intro hnone'
    refine absurd rfl (hnone' (.succeeded d) ?_ d rfl)
    exact List.mem_set (List.getElem?_eq_some_iff.mp hi).1 _

/-- A new request has written nothing. -/
theorem DecidedAt.spawn (h : DecidedAt phases s id) : DecidedAt (phases ++ [.free]) s id := by
  have hmem : ∀ ph ∈ phases ++ [.free], ph = .free ∨ ph ∈ phases := by
    intro ph hph
    rw [List.mem_append, List.mem_singleton] at hph
    exact hph.symm
  have hplace : ∀ {j : ℕ} {ph : DecisionPhase} {e : Recorded}, (phases ++ [.free])[j]? = some ph →
      ph.wrote? = some e → phases[j]? = some ph := by
    intro j ph e hj he
    rcases lt_or_ge j phases.length with hlt | hge
    · rwa [List.getElem?_append_left hlt] at hj
    · rw [List.getElem?_append_right hge] at hj
      obtain rfl := List.mem_singleton.mp (List.mem_of_getElem? hj)
      cases he
  refine ⟨?_, ?_, ?_, ?_⟩
  · intro ph hph tenantId d hreads hid
    rcases hmem ph hph with rfl | hph
    · cases hreads
    · exact h.stored ph hph tenantId d hreads hid
  · intro j k ph ph' d d' hj hk hd hd'
    exact h.once j k ph ph' d d' (hplace hj hd) (hplace hk hd') hd hd'
  · intro ph hph d hd hid
    rcases hmem ph hph with rfl | hph
    · cases hd
    · exact h.wrote ph hph d hd hid
  · intro hnone
    exact h.unwritten fun ph hph => hnone ph (List.mem_append_left _ hph)

/-- A change of the rest that leaves an approval and its decisions alone. -/
theorem DecidedAt.same (h : DecidedAt phases s id)
    (hlookup : s'.approvals.lookup id = s.approvals.lookup id)
    (hdecisions : decisions s'.audit id = decisions s.audit id) : DecidedAt phases s' id := by
  refine ⟨?_, h.once, ?_, fun hnone => hdecisions.trans (h.unwritten hnone)⟩
  · intro ph hmem tenantId d hreads hid
    rw [Stored, hlookup]
    exact h.stored ph hmem tenantId d hreads hid
  · intro ph hmem d hd hid
    obtain ⟨hstands, hentries⟩ := h.wrote ph hmem d hd hid
    exact ⟨hstands.of_lookup (by rw [hid, hlookup]), hdecisions.trans hentries⟩

/-- An approval is asked for under a fresh identifier. -/
theorem DecidedAt.create (h : DecidedAt phases s id) (hfresh : s.approvals.lookup id = none)
    (hdecisions : decisions s'.audit id = decisions s.audit id) : DecidedAt phases s' id := by
  refine ⟨?_, h.once, ?_, fun hnone => hdecisions.trans (h.unwritten hnone)⟩
  · intro ph hmem tenantId d hreads hid
    obtain ⟨a, ha, -⟩ := h.stored ph hmem tenantId d hreads hid
    rw [hfresh] at ha
    cases ha
  · intro ph hmem d hd hid
    obtain ⟨⟨-, a, ha, -⟩, -⟩ := h.wrote ph hmem d hd hid
    rw [hid, hfresh] at ha
    cases ha

end decided

/-! ## Runs of the server -/

section runs

variable {server : ApprovalServer} {phases : List DecisionPhase} {id : JsString}

/-- The invariant: the approvals are stored under their identifiers, no approval has gone, and each
stands to its requests and its entries as it should. -/
def Deciding (phases : List DecisionPhase) (s : OversightStores) : Prop :=
  KeyedApprovals s ∧ .lost ∉ phases ∧ ∀ id, DecidedAt phases s id

/-- **What an operation keeps.** -/
theorem Deciding.operation {s : OversightStores} (h : Deciding phases s) {i : ℕ}
    {phase phase' : DecisionPhase} {point : ApprovalPoint}
    {update : OversightStores → OversightStores} (hi : phases[i]? = some phase)
    (hop : DecisionOp phase point update s phase')
    (hpending : ∀ id, point = .decide id →
      ∃ a, s.approvals.lookup id = some a ∧ a.status = .pending) :
    Deciding (phases.set i phase') (update s) := by
  obtain ⟨hkeyed, hlost, hdecided⟩ := h
  have hlost' : phase' ≠ .lost → .lost ∉ phases.set i phase' := by
    intro hne hmem
    rcases List.mem_or_eq_of_mem_set hmem with hmem | heq
    · exact hlost hmem
    · exact hne heq.symm
  have hmem : phase ∈ phases := List.mem_of_getElem? hi
  cases hop with
  | refused heq =>
    rw [heq]
    exact ⟨hkeyed, hlost' (by simp), fun id => (hdecided id).frame hi (fun _ h => by cases h)
      (fun _ h => by cases h) (fun _ _ h => by cases h) rfl rfl⟩
  | found hstored heq =>
    rw [heq]
    refine ⟨hkeyed, hlost' (by simp), fun id => (hdecided id).frame hi (fun _ h => by cases h)
      (fun _ h => by cases h) ?_ rfl rfl⟩
    rintro tenantId d hreads rfl
    cases hreads
    exact hstored
  | @reread tenantId d _ _ heq =>
    rw [heq]
    refine ⟨hkeyed, hlost' (by simp), fun id => (hdecided id).frame hi (fun _ h => by cases h)
      (fun _ h => by cases h) ?_ rfl rfl⟩
    rintro _ _ ⟨⟩ hid
    exact (hdecided id).stored _ hmem tenantId d rfl hid
  | @missed tenantId d _ _ hmissing =>
    exact absurd ((hdecided _).stored _ hmem tenantId d rfl rfl) hmissing
  | @decide tenantId d _ _ hwritten =>
    have hframe := hwritten
    obtain ⟨-, haudit, a, hid, -, -, happrovals⟩ := hframe
    refine ⟨?_, hlost' (by simp), fun id => ?_⟩
    · intro id b hb
      rw [happrovals, lookup_setProp] at hb
      split_ifs at hb with hkey
      · cases hb
        rw [hid, hkey]
      · exact hkeyed id b hb
    · by_cases hd : d.approvalId = id
      · subst hd
        exact (hdecided _).write hi hwritten (hpending _ rfl)
      · refine (hdecided id).frame hi (fun _ h => by cases h) ?_ (fun _ _ h => by cases h) ?_
          (by rw [haudit])
        · rintro _ ⟨⟩
          exact hd
        · rw [happrovals, lookup_setProp, if_neg (Ne.symm hd)]
  | @record d _ _ hnoted =>
    have hframe := hnoted
    obtain ⟨happrovals, hdecisions⟩ := hframe
    refine ⟨?_, hlost' (by simp), fun id => ?_⟩
    · rw [KeyedApprovals, happrovals]
      exact hkeyed
    · by_cases hd : d.approvalId = id
      · subst hd
        exact (hdecided _).note hi hnoted
      · refine (hdecided id).frame hi ?_ ?_ (fun _ _ h => by cases h) (by rw [happrovals]) ?_
        · rintro _ ⟨⟩
          exact hd
        · rintro _ ⟨⟩
          exact hd
        · rw [hdecisions, if_neg hd, List.append_nil]
  | stray => exact absurd hmem hlost

/-- The requests follow the script from these phases, and the invariant holds. -/
def Oversees (phases : List DecisionPhase) (server : ApprovalServer) : Prop :=
  server.Follows Room DecisionOp Answered phases ∧ Deciding phases server.shared

/-- **What one step keeps.** -/
theorem Oversees.step (h : Oversees phases server) {e : ApprovalEvent} (hgiven : Given server e)
    (hpending : WritesPending server e) : ∃ phases', Oversees phases' (server.step e) := by
  obtain ⟨hfollows, hdeciding⟩ := h
  refine hfollows.step (J := Deciding) hdeciding ?_ ?_ ?_ ?_
  · intro i hi
    cases e with
    | resume j => exact ⟨hgiven, hdeciding.1⟩
    | create ctx a => cases hi
    | decide caller id input => cases hi
    | others stores => cases hi
  · intro i phase phase' point update next hi ht hphase hop _
    cases e with
    | resume j =>
      cases hi
      refine hdeciding.operation hphase hop fun id hpoint => ?_
      exact hpending _ id ht (by rw [Task.point, hpoint])
    | create ctx a => cases hi
    | decide caller id input => cases hi
    | others stores => cases hi
  · intro t ht
    cases e with
    | decide caller id input =>
      cases ht
      obtain ⟨hkeyed, hlost, hdecided⟩ := hdeciding
      refine ⟨.free, follows_request caller id input, hkeyed, ?_, fun id => (hdecided id).spawn⟩
      rw [List.mem_append, List.mem_singleton]
      rintro (hmem | hmem)
      · exact hlost hmem
      · cases hmem
    | create ctx a => cases ht
    | resume i => cases ht
    | others stores => cases ht
  · intro update hupdate
    obtain ⟨hkeyed, hlost, hdecided⟩ := hdeciding
    cases e with
    | create ctx a =>
      cases hupdate
      refine ⟨?_, hlost, fun id => ?_⟩
      · intro id b hb
        dsimp only [InMemoryApprovalStore.create] at hb
        rw [lookup_setProp] at hb
        split_ifs at hb with hkey
        · cases hb
          exact hkey.symm
        · exact hkeyed id b hb
      · by_cases hid : id = a.id
        · rw [hid]
          exact (hdecided a.id).create hgiven rfl
        · refine (hdecided id).same ?_ rfl
          dsimp only [InMemoryApprovalStore.create]
          rw [lookup_setProp, if_neg hid]
    | others stores =>
      cases hupdate
      obtain ⟨more, hmore, hnone⟩ := hgiven
      refine ⟨hkeyed, hlost, fun id => (hdecided id).same rfl ?_⟩
      have hnil : more.filterMap recordedBy = [] := List.filterMap_eq_nil_iff.mpr hnone
      rw [decisions_of_append hmore, hnil, List.filter_nil, List.append_nil]
    | decide caller id input => cases hupdate
    | resume i => cases hupdate

/-- A server that has just started. -/
theorem oversees_start (clock : TimeValue) : Oversees [] (ApprovalServer.start clock) := by
  refine ⟨.nil, ?_, List.not_mem_nil, fun id => ⟨?_, ?_, ?_, fun _ => rfl⟩⟩
  · exact fun id a ha => by cases ha
  · exact fun phase hphase => absurd hphase List.not_mem_nil
  · exact fun i j phase phase' d d' hi => by cases hi
  · exact fun phase hphase => absurd hphase List.not_mem_nil

/-- A whole run. -/
theorem Oversees.run (h : Oversees phases server) {events : List ApprovalEvent}
    (hevents : ∀ past e later, events = past ++ e :: later →
      Given (server.run past) e ∧ WritesPending (server.run past) e) :
    ∃ phases', Oversees phases' (server.run events) := by
  induction events generalizing server phases with
  | nil => exact ⟨phases, h⟩
  | cons e events ih =>
    obtain ⟨hgiven, hpending⟩ := hevents [] e events rfl
    obtain ⟨phases', h'⟩ := h.step hgiven hpending
    refine ih h' fun past e' later heq => ?_
    exact hevents (e :: past) e' later (congrArg (e :: ·) heq)

/-- A request that has succeeded has recorded its decision. -/
theorem Oversees.exists_succeeded (h : Oversees phases server) {i : ℕ}
    (hi : server.Succeeded i id) :
    ∃ d, phases[i]? = some (.succeeded d) ∧ d.approvalId = id := by
  obtain ⟨updated, ht⟩ := hi
  obtain ⟨phase, hphase, hanswered⟩ := h.1.getElem? ht
  rcases hanswered updated rfl with rfl | ⟨d, rfl, hid⟩
  · exact absurd (List.mem_of_getElem? hphase) h.2.2.1
  · exact ⟨d, hphase, hid⟩

/-- **An approval is decided once** in every run in which decisions are written over pending
approvals: no two requests on it succeed, and once one has, the one decision that the log records is
what the approval says. -/
theorem decided_once (clock : TimeValue) (events : List ApprovalEvent)
    (hevents : ∀ past e later, events = past ++ e :: later →
      Given ((ApprovalServer.start clock).run past) e ∧
        WritesPending ((ApprovalServer.start clock).run past) e) (id : JsString) :
    (∀ i j, ((ApprovalServer.start clock).run events).Succeeded i id →
      ((ApprovalServer.start clock).run events).Succeeded j id → i = j) ∧
    ∀ i, ((ApprovalServer.start clock).run events).Succeeded i id →
      ∃ d a, decisions ((ApprovalServer.start clock).run events).shared.audit id = [d] ∧
        ((ApprovalServer.start clock).run events).shared.approvals.lookup id = some a ∧
        a.status = d.status ∧ a.decidedBy = some d.decidedBy ∧ a.rationale = some d.rationale := by
  obtain ⟨phases, h⟩ := (oversees_start clock).run hevents
  constructor
  · intro i j hi hj
    obtain ⟨d, hphase, hid⟩ := h.exists_succeeded hi
    obtain ⟨d', hphase', hid'⟩ := h.exists_succeeded hj
    exact (h.2.2.2 id).once i j _ _ d d' hphase hphase' rfl rfl hid hid'
  · intro i hi
    obtain ⟨d, hphase, rfl⟩ := h.exists_succeeded hi
    obtain ⟨⟨-, a, ha, hof⟩, hdecisions⟩ :=
      (h.2.2.2 d.approvalId).wrote _ (List.mem_of_getElem? hphase) d rfl rfl
    exact ⟨d, a, hdecisions, ha, hof⟩

end runs

/-! ## Two requests -/

section examples

variable {caller : Caller} {id : JsString} {input : ApprovalDecisionInput}
  {existing a : ApprovalRecord} {s : OversightStores}
  {ts : List (Task OversightStores ApprovalPoint (JsString × ApprovalResponse))} {i : ℕ}

/-- What a request writes over the approval it has read. -/
def written (ctx : TenantContext) (input : ApprovalDecisionInput) (a : ApprovalRecord)
    (now : TimeValue) : ApprovalRecord :=
  InMemoryApprovalStore.decided a ⟨statusMap input.decision, input.rationale, ctx.actor⟩ now

/-- The stores after the write. -/
def writeStores (ctx : TenantContext) (id : JsString) (input : ApprovalDecisionInput)
    (a : ApprovalRecord) (s : OversightStores) : OversightStores :=
  { s with approvals := setProp s.approvals (id, written ctx input a s.clock) }

/-- The stores after the entry. -/
def recordStores (ctx : TenantContext) (input : ApprovalDecisionInput) (a : ApprovalRecord)
    (s : OversightStores) : OversightStores :=
  { s with toStores := (s.toStores.append ctx (decisionEvent a input)).2 }

/-- The write of a request and what follows. -/
def writeFound (ctx : TenantContext) (id : JsString) (a existing : ApprovalRecord)
    (input : ApprovalDecisionInput) : Task OversightStores ApprovalPoint ApprovalResponse := do
  let updated ← Task.await (.decide id) fun s =>
    (some (written ctx input a s.clock), writeStores ctx id input a s)
  recordDecision ctx existing input updated

/-- A request finds a pending approval. -/
theorem resume_decideApproval (hscope : js "approvals:decide" ∈ caller.scopes)
    (hget : InMemoryApprovalStore.get caller.toTenantContext id s.approvals = some a)
    (hpending : a.status = .pending) :
    (answered id (decideApproval caller.toTenantContext id input)).resume s =
      (answered id (decideFound caller.toTenantContext id a input), s) := by
  rw [decideApproval, if_neg (not_not.mpr hscope), answered, Task.bind_assoc,
    Task.resume_await_bind, hget]
  dsimp only
  rw [if_neg (not_not.mpr hpending)]
  rfl

/-- `decide` reads the approval again. -/
theorem resume_decideFound
    (hget : InMemoryApprovalStore.get caller.toTenantContext id s.approvals = some a) :
    (answered id (decideFound caller.toTenantContext id existing input)).resume s =
      (answered id (writeFound caller.toTenantContext id a existing input), s) := by
  rw [decideFound, answered, InMemoryApprovalStore.decide, Task.bind_assoc, Task.bind_assoc,
    Task.resume_await_bind, hget]
  rfl

/-- The entry is added, and the request has succeeded. -/
theorem resume_recordDecision (hsize : s.audit.size < 2 ^ 53) (updated : Option ApprovalRecord) :
    (answered id (recordDecision caller.toTenantContext existing input updated)).resume s =
      (.done (id, .approval updated), recordStores caller.toTenantContext input existing s) ∧
    (recordStores caller.toTenantContext input existing s).audit.size = s.audit.size + 1 := by
  obtain ⟨entry, happend, -⟩ := (accepts_decisionEvent caller existing input).append hsize
  rw [recordDecision, answered, Task.bind_assoc, Task.resume_await_bind, recordStores]
  dsimp only
  rw [happend]
  exact ⟨rfl, List.length_append⟩

/-- One request is resumed. -/
theorem step_resume_of {t t' : Task OversightStores ApprovalPoint (JsString × ApprovalResponse)}
    {s' : OversightStores} (hi : ts[i]? = some t) (h : t.resume s = (t', s')) :
    ApprovalServer.step ⟨s, ts⟩ (.resume i) = ⟨s', ts.set i t'⟩ := by
  rw [ApprovalServer.step, ApprovalEvent.toAsync, Pool.step_resume hi, h]

/-- A request that has found a pending approval goes on to its end, and succeeds whatever the
approval has become. -/
theorem run_decideFound
    (hi : ts[i]? = some (answered id (decideFound caller.toTenantContext id existing input)))
    (hget : InMemoryApprovalStore.get caller.toTenantContext id s.approvals = some a)
    (hsize : s.audit.size < 2 ^ 53) :
    ApprovalServer.run ⟨s, ts⟩ [.resume i, .resume i, .resume i] =
      ⟨recordStores caller.toTenantContext input existing
        (writeStores caller.toTenantContext id input a s),
        ts.set i (.done (id, .approval (some (written caller.toTenantContext input a s.clock))))⟩ := by
  obtain ⟨hlt, -⟩ := List.getElem?_eq_some_iff.mp hi
  have hread := step_resume_of hi (resume_decideFound hget)
  have hwrite := @step_resume_of s (ts.set i (answered id
    (writeFound caller.toTenantContext id a existing input))) i _ _ _
    (List.getElem?_set_self hlt) rfl
  have hroom : (writeStores caller.toTenantContext id input a s).audit.size < 2 ^ 53 := hsize
  have hrecord := @step_resume_of (writeStores caller.toTenantContext id input a s) (ts.set i
    (answered id (recordDecision caller.toTenantContext existing input
      (some (written caller.toTenantContext input a s.clock))))) i _ _ _
    (List.getElem?_set_self hlt) (resume_recordDecision hroom _).1
  rw [List.set_set] at hwrite hrecord
  change ((ApprovalServer.step ⟨s, ts⟩ (.resume i)).step (.resume i)).step (.resume i) = _
  rw [hread, hwrite]
  exact hrecord

/-- Somebody who may decide. -/
def overseer : Caller :=
  ⟨⟨js "tenant", js "reviewer", [js "approvals:decide"]⟩, by simp, by simp⟩

/-- An approval that waits for somebody. -/
def waiting : ApprovalRecord where
  id := js "apr_1"
  tenantId := js "tenant"
  runId := js "run_1"
  action := js "deploy"
  status := .pending
  deadline := some epoch
  onTimeout := .deny
  trialId := js "trial_1"
  throughStep := .ofNat 1
  decidedBy := none
  decidedAt := none
  rationale := none
  createdAt := some epoch

/-- Somebody agrees. -/
def agreed : ApprovalDecisionInput :=
  ⟨.approve, js "Reviewed and within scope.", rfl, by decide⟩

/-- Somebody refuses. -/
def refused : ApprovalDecisionInput :=
  ⟨.reject, js "Reviewed and out of scope.", rfl, by decide⟩

/-- The stores with the approval. -/
def waitingStores : OversightStores := ⟨⟨.new, [], [], epoch, 0⟩, [(js "apr_1", waiting)]⟩

/-- The approval is there. -/
theorem get_waiting : InMemoryApprovalStore.get overseer.toTenantContext (js "apr_1")
    waitingStores.approvals = some waiting := by
  refine InMemoryApprovalStore.get_eq_some.mpr ⟨?_, rfl⟩
  rw [waitingStores, List.lookup_cons, beq_self_eq_true]

/-- The log is empty. -/
theorem size_waitingStores : waitingStores.audit.size < 2 ^ 53 := by
  have hsize : waitingStores.audit.size = 0 := rfl
  rw [hsize]
  norm_num

/-- The caller has the scope. -/
theorem decides_overseer : js "approvals:decide" ∈ overseer.scopes := List.mem_singleton_self _

/-- A step that resumes a request which is not about to write. -/
theorem writesPending_of_point {server : ApprovalServer} {point : ApprovalPoint}
    {t : Task OversightStores ApprovalPoint (JsString × ApprovalResponse)}
    (hi : server.tasks[i]? = some t) (hpoint : t.point = some point)
    (hne : ∀ id, point ≠ .decide id) : WritesPending server (.resume i) := by
  intro t' id hi' hpoint'
  rw [hi, Option.some.injEq] at hi'
  rw [← hi', hpoint, Option.some.injEq] at hpoint'
  exact absurd hpoint' (hne id)

/-- A request first looks at the approval. -/
theorem point_decideApproval (hscope : js "approvals:decide" ∈ caller.scopes) :
    (answered id (decideApproval caller.toTenantContext id input)).point = some (.get id) := by
  rw [decideApproval, if_neg (not_not.mpr hscope)]
  rfl

/-- One request, from its arrival to its end. -/
def oneDecision : List ApprovalEvent :=
  [.create overseer.toTenantContext waiting, .decide overseer (js "apr_1") agreed, .resume 0,
    .resume 0, .resume 0, .resume 0]

/-- A run in which one person agrees. -/
theorem decided_once_agreed : ∃ d a,
    decisions ((ApprovalServer.start epoch).run oneDecision).shared.audit (js "apr_1") = [d] ∧
      ((ApprovalServer.start epoch).run oneDecision).shared.approvals.lookup (js "apr_1") =
        some a ∧
      a.status = d.status ∧ a.decidedBy = some d.decidedBy ∧ a.rationale = some d.rationale := by
  have hfound : (ApprovalServer.start epoch).run [.create overseer.toTenantContext waiting,
      .decide overseer (js "apr_1") agreed, .resume 0] = ⟨waitingStores,
        [answered (js "apr_1") (decideFound overseer.toTenantContext (js "apr_1") waiting agreed)]⟩ :=
    @step_resume_of waitingStores
      [answered (js "apr_1") (decideApproval overseer.toTenantContext (js "apr_1") agreed)] 0 _ _ _
      rfl (resume_decideApproval decides_overseer get_waiting rfl)
  have hread : (ApprovalServer.start epoch).run [.create overseer.toTenantContext waiting,
      .decide overseer (js "apr_1") agreed, .resume 0, .resume 0] = ⟨waitingStores,
        [answered (js "apr_1")
          (writeFound overseer.toTenantContext (js "apr_1") waiting waiting agreed)]⟩ :=
    (congrArg (ApprovalServer.step · (.resume 0)) hfound).trans
      (step_resume_of rfl (resume_decideFound get_waiting))
  have hwritten : (ApprovalServer.start epoch).run [.create overseer.toTenantContext waiting,
      .decide overseer (js "apr_1") agreed, .resume 0, .resume 0, .resume 0] =
        ⟨writeStores overseer.toTenantContext (js "apr_1") agreed waiting waitingStores,
          [answered (js "apr_1") (recordDecision overseer.toTenantContext waiting agreed
            (some (written overseer.toTenantContext agreed waiting epoch)))]⟩ :=
    (congrArg (ApprovalServer.step · (.resume 0)) hread).trans (step_resume_of rfl rfl)
  have hroom : (writeStores overseer.toTenantContext (js "apr_1") agreed waiting
      waitingStores).audit.size < 2 ^ 53 := size_waitingStores
  have hend : (ApprovalServer.start epoch).run oneDecision =
      ⟨recordStores overseer.toTenantContext agreed waiting
        (writeStores overseer.toTenantContext (js "apr_1") agreed waiting waitingStores),
        [.done (js "apr_1",
          .approval (some (written overseer.toTenantContext agreed waiting epoch)))]⟩ :=
    (congrArg (ApprovalServer.step · (.resume 0)) hwritten).trans
      (step_resume_of rfl (resume_recordDecision hroom _).1)
  refine (decided_once epoch oneDecision ?_ (js "apr_1")).2 0 ?_
  · refine forall_steps_cons ⟨rfl, trivial⟩ (forall_steps_cons ⟨trivial, trivial⟩
      (forall_steps_cons ⟨size_waitingStores, ?_⟩ (forall_steps_cons ?_ (forall_steps_cons ?_
        (forall_steps_cons ?_ fun _ _ _ h => absurd h (by simp))))))
    · exact writesPending_of_point rfl (point_decideApproval decides_overseer) (by simp)
    · rw [hfound]
      exact ⟨size_waitingStores, @writesPending_of_point _ _ (.reread _) _ rfl rfl (by simp)⟩
    · rw [hread]
      refine ⟨size_waitingStores, ?_⟩
      rintro _ _ ⟨⟩ ⟨⟩
      exact ⟨waiting, (InMemoryApprovalStore.get_eq_some.mp get_waiting).1, rfl⟩
    · rw [hwritten]
      exact ⟨size_waitingStores, @writesPending_of_point _ _ .append _ rfl rfl (by simp)⟩
  · rw [hend]
    exact ⟨_, rfl⟩

/-- Two requests find the approval pending, and go on one after the other. -/
def twoDecisions : List ApprovalEvent :=
  [.create overseer.toTenantContext waiting, .decide overseer (js "apr_1") agreed,
    .decide overseer (js "apr_1") refused, .resume 0, .resume 1] ++
  [.resume 0, .resume 0, .resume 0] ++ [.resume 1, .resume 1, .resume 1]

/-- **Both requests succeed.** -/
theorem decided_twice :
    ¬ ∀ i j, ((ApprovalServer.start epoch).run twoDecisions).Succeeded i (js "apr_1") →
      ((ApprovalServer.start epoch).run twoDecisions).Succeeded j (js "apr_1") → i = j := by
  have hfirst := @step_resume_of waitingStores
    [answered (js "apr_1") (decideApproval overseer.toTenantContext (js "apr_1") agreed),
      answered (js "apr_1") (decideApproval overseer.toTenantContext (js "apr_1") refused)] 0
    _ _ _ rfl (resume_decideApproval decides_overseer get_waiting rfl)
  have hfound : (ApprovalServer.start epoch).run [.create overseer.toTenantContext waiting,
      .decide overseer (js "apr_1") agreed, .decide overseer (js "apr_1") refused, .resume 0,
      .resume 1] = ⟨waitingStores,
        [answered (js "apr_1") (decideFound overseer.toTenantContext (js "apr_1") waiting agreed),
          answered (js "apr_1")
            (decideFound overseer.toTenantContext (js "apr_1") waiting refused)]⟩ :=
    (congrArg (ApprovalServer.step · (.resume 1)) hfirst).trans
      (step_resume_of rfl (resume_decideApproval decides_overseer get_waiting rfl))
  have hagreed := @run_decideFound overseer (js "apr_1") agreed waiting waiting waitingStores
    [answered (js "apr_1") (decideFound overseer.toTenantContext (js "apr_1") waiting agreed),
      answered (js "apr_1") (decideFound overseer.toTenantContext (js "apr_1") waiting refused)] 0
    rfl get_waiting size_waitingStores
  -- the second request reads an approval that is decided, and writes over it
  have hget : InMemoryApprovalStore.get overseer.toTenantContext (js "apr_1")
      (writeStores overseer.toTenantContext (js "apr_1") agreed waiting waitingStores).approvals =
        some (written overseer.toTenantContext agreed waiting epoch) := by
    refine InMemoryApprovalStore.get_eq_some.mpr ⟨?_, rfl⟩
    rw [writeStores, lookup_setProp, if_pos rfl]
    rfl
  have hroom : (recordStores overseer.toTenantContext agreed waiting
      (writeStores overseer.toTenantContext (js "apr_1") agreed waiting
        waitingStores)).audit.size < 2 ^ 53 := by
    have hsize := (@resume_recordDecision overseer (js "apr_1") agreed waiting
      (writeStores overseer.toTenantContext (js "apr_1") agreed waiting waitingStores)
      size_waitingStores none).2
    have hempty : (writeStores overseer.toTenantContext (js "apr_1") agreed waiting
      waitingStores).audit.size = 0 := rfl
    rw [hsize, hempty]
    norm_num
  have hrefused := @run_decideFound overseer (js "apr_1") refused waiting _
    (recordStores overseer.toTenantContext agreed waiting
      (writeStores overseer.toTenantContext (js "apr_1") agreed waiting waitingStores))
    ([answered (js "apr_1") (decideFound overseer.toTenantContext (js "apr_1") waiting agreed),
      answered (js "apr_1")
        (decideFound overseer.toTenantContext (js "apr_1") waiting refused)].set 0 (.done (js "apr_1",
          .approval (some (written overseer.toTenantContext agreed waiting epoch))))) 1 rfl hget hroom
  have hrun : (ApprovalServer.start epoch).run twoDecisions = _ :=
    (congrArg (fun server => (ApprovalServer.run server [.resume 0, .resume 0, .resume 0]).run
      [.resume 1, .resume 1, .resume 1]) hfound).trans
      ((congrArg (ApprovalServer.run · [.resume 1, .resume 1, .resume 1]) hagreed).trans hrefused)
  rw [hrun]
  intro hone
  exact absurd (hone 0 1 ⟨_, rfl⟩ ⟨_, rfl⟩) (by simp)

end examples

end AgentEval.Api
