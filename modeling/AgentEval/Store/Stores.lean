import AgentEval.Evidence.LogIntegrity
import AgentEval.Evidence.EvidenceBundle

/-!
# `store/index.ts`: the stores of one process

Every method of a store is an `async` function without an `await` of its own, so a call runs as one
operation and its result is seen after the caller's `await`. The methods are functions on what the
store holds. `Stores` adds to the stores what else the handlers of one process share: the clock and
the counter of `newId`.

* **`InMemoryAuditStore.coherent_append`**: an append keeps a log coherent and only adds to it.
-/

namespace AgentEval.Store

open Js Evidence

/-- Who is calling.
Source: `store/index.ts`, `TenantContext` -/
structure TenantContext where
  /-- The tenant. -/
  tenantId : JsString
  /-- The caller. -/
  actor : JsString
  /-- What the caller may do. -/
  scopes : List JsString

/-! ## The audit store -/

/-- The event of an append; the store adds tenant and actor.
Source: `store/index.ts`, `AuditStore.append` -/
structure AuditEvent where
  /-- What happened. -/
  action : JsString
  /-- The thing acted on. -/
  subject : Option JsString
  /-- Structured detail. -/
  payload : Option PlainObject
  /-- Overrides the clock; the date may be invalid. -/
  recordedAt : Option (Option TimeValue)

namespace InMemoryAuditStore

/-- Append an event for a caller.
Source: `store/index.ts`, `InMemoryAuditStore.append` -/
def append (ctx : TenantContext) (event : AuditEvent) (now : TimeValue) (log : AuditLog) :
    Except JsError AuditEntry × AuditLog :=
  log.runAppend ⟨some event.action, some ctx.actor, some ctx.tenantId, event.subject, event.payload,
    event.recordedAt⟩ now

/-- The entry at a position, if the caller may see it. A position is an integer: `-0` is `0`.
Source: `store/index.ts`, `InMemoryAuditStore.at` -/
def entryAt (ctx : TenantContext) (seq : ℤ) (log : AuditLog) : Except JsError (Option AuditEntry) :=
  if seq < 0 ∨ log.size ≤ seq then .ok none
  else (log.entryAt seq).map fun entry => if entry.tenantId = ctx.tenantId then some entry else none

/-- Source: `store/index.ts`, `InMemoryAuditStore.root` -/
def root (log : AuditLog) : JsString × ℕ := (log.root, log.size)

/-- Source: `store/index.ts`, `InMemoryAuditStore.inclusionProof` -/
def inclusionProof (seq : ℤ) (log : AuditLog) : Except JsError InclusionProof :=
  log.inclusionProof seq

/-- Source: `store/index.ts`, `InMemoryAuditStore.consistencyProof` -/
def consistencyProof (fromSize : ℤ) (log : AuditLog) : Except JsError ConsistencyProof :=
  log.consistencyProof fromSize

/-- The entries of a tenant about one thing.
Source: `store/index.ts`, `InMemoryAuditStore.entriesForSubject` -/
def entriesForSubject (ctx : TenantContext) (subject : JsString) (log : AuditLog) :
    List AuditEntry :=
  (log.forTenant ctx.tenantId).filter fun e => decide (e.subject = some subject)

/-- **An append keeps a log coherent and only adds to it.** -/
theorem coherent_append {log : AuditLog} (h : log.Coherent) (ctx : TenantContext)
    (event : AuditEvent) (now : TimeValue) :
    (append ctx event now log).2.Coherent ∧
      log.entries <+: (append ctx event now log).2.entries :=
  ⟨h.append _ now, log.prefix_append _ now⟩

/-- An entry that is found is at the position asked for. -/
theorem getElem?_of_entryAt {ctx : TenantContext} {seq : ℤ} {log : AuditLog} {entry : AuditEntry}
    (h : entryAt ctx seq log = .ok (some entry)) :
    ∃ k : ℕ, seq = k ∧ log.entries[k]? = some entry := by
  unfold entryAt at h
  split at h
  · cases h
  · rename_i hrange
    obtain ⟨k, rfl⟩ := Int.eq_ofNat_of_zero_le (not_lt.mp (not_or.mp hrange).1)
    refine ⟨k, rfl, ?_⟩
    rw [AuditLog.entryAt, if_neg (by omega), Int.toNat_natCast] at h
    cases hk : log.entries[k]? with
    | none =>
      rw [hk] at h
      cases h
    | some e =>
      rw [hk] at h
      have hfound : (if e.tenantId = ctx.tenantId then some e else none) = some entry :=
        Except.ok.inj h
      split at hfound
      · exact hfound
      · cases hfound

/-- The entries about one thing are a slice of the log. -/
theorem entriesForSubject_sublist (ctx : TenantContext) (subject : JsString) (log : AuditLog) :
    (entriesForSubject ctx subject log).Sublist log.entries :=
  List.filter_sublist.trans List.filter_sublist

end InMemoryAuditStore

/-! ## The run store -/

/-- Source: `store/index.ts`, `RunStatus` -/
inductive RunStatus where
  /-- Waiting for a worker. -/
  | queued
  /-- Claimed by one. -/
  | running
  /-- Finished. -/
  | completed
  /-- Finished with a reason. -/
  | failed
  /-- Called off. -/
  | cancelled
  deriving DecidableEq

/-- Source: `store/index.ts`, `RunRecord` -/
structure RunRecord where
  /-- The identifier of the run. -/
  id : JsString
  /-- Its tenant. -/
  tenantId : JsString
  /-- How far it is. -/
  status : RunStatus
  /-- What was requested. -/
  manifest : PlainObject
  /-- The rules its evidence is kept under. -/
  retentionRules : List JsString
  /-- When it was created. -/
  createdAt : TimeValue
  /-- When a worker started it. -/
  startedAt : Option TimeValue
  /-- When it finished. -/
  completedAt : Option TimeValue
  /-- Which worker holds it. -/
  claimedBy : Option JsString
  /-- Since when. -/
  claimedAt : Option TimeValue
  /-- Why it failed. -/
  failureReason : Option JsString
  /-- Which stored provider credential it spends. -/
  credentialId : Option JsString
  /-- The machine it ran on. -/
  executionEnvironment : Option PlainObject

/-- A run of the caller's tenant.
Source: `store/index.ts`, `InMemoryRunStore.get` -/
def InMemoryRunStore.get (ctx : TenantContext) (id : JsString)
    (runs : List (JsString × RunRecord)) : Option RunRecord :=
  (runs.lookup id).filter fun r => decide (r.tenantId = ctx.tenantId)

/-- How an execution ended.
Source: `executor.ts`, `ExecutionResult` -/
inductive Outcome where
  /-- It did what it was asked to. -/
  | completed
  /-- It did not. -/
  | failed
  deriving DecidableEq

/-- The status a run has after it. -/
def Outcome.toStatus : Outcome → RunStatus
  | completed => .completed
  | failed => .failed

namespace InMemoryRunStore

/-- Source: `store/index.ts`, `InMemoryRunStore.create` -/
def create (ctx : TenantContext) (run : RunRecord) (runs : List (JsString × RunRecord)) :
    RunRecord × List (JsString × RunRecord) :=
  let record := { run with tenantId := ctx.tenantId }
  (record, setProp runs (record.id, record))

/-- What `setStatus` makes of the record it has read.
Source: `store/index.ts`, `InMemoryRunStore.setStatus` -/
def withStatus (r : RunRecord) (status : RunStatus) (now : TimeValue) : RunRecord :=
  { r with
    status := status
    completedAt := if status = .completed then some now else r.completedAt }

/-- Source: `store/index.ts`, `InMemoryRunStore.setEnvironment` -/
def setEnvironment (id : JsString) (environment : PlainObject)
    (runs : List (JsString × RunRecord)) : List (JsString × RunRecord) :=
  match runs.lookup id with
  | none => runs
  | some r => setProp runs (id, { r with executionEnvironment := some environment })

/-- The queued run that was created first, the earlier one in the map of two.
Source: `store/index.ts`, `InMemoryRunStore.claimNext` -/
def nextQueued (runs : List (JsString × RunRecord)) : Option RunRecord :=
  (((runs.map Prod.snd).filter fun r => decide (r.status = .queued)).insertionSort
    fun a b => a.createdAt.ms ≤ b.createdAt.ms).head?

/-- Source: `store/index.ts`, `InMemoryRunStore.claimNext` -/
def claimNext (workerId : JsString) (now : TimeValue) (runs : List (JsString × RunRecord)) :
    Option RunRecord × List (JsString × RunRecord) :=
  match nextQueued runs with
  | none => (none, runs)
  | some next =>
    let claimed := { next with
      status := .running
      claimedBy := some workerId
      claimedAt := some now
      startedAt := some now }
    (some claimed, setProp runs (claimed.id, claimed))

/-- Record an outcome; an empty reason counts as none.
Source: `store/index.ts`, `InMemoryRunStore.finish` -/
def finish (id : JsString) (status : Outcome) (reason : Option JsString) (now : TimeValue)
    (runs : List (JsString × RunRecord)) : Option RunRecord × List (JsString × RunRecord) :=
  match runs.lookup id with
  | none => (none, runs)
  | some r =>
    let updated := { r with
      status := status.toStatus
      completedAt := some now
      failureReason := (reason.filter (· ≠ [])).or r.failureReason }
    (some updated, setProp runs (id, updated))

section

variable {runs : List (JsString × RunRecord)} {id : JsString} {now : TimeValue}

/-- Every run is stored once, under its identifier. -/
structure Keyed (runs : List (JsString × RunRecord)) : Prop where
  distinct : DistinctKeys runs
  id_eq : ∀ p ∈ runs, p.2.id = p.1

/-- A stored run has the identifier it is stored under. -/
theorem Keyed.id_of_lookup (h : Keyed runs) {r : RunRecord} (hr : runs.lookup id = some r) :
    r.id = id := h.id_eq (id, r) (mem_of_lookup hr)

/-- Storing a run under its identifier. -/
theorem Keyed.setProp (h : Keyed runs) {r : RunRecord} (hr : r.id = id) :
    Keyed (setProp runs (id, r)) := by
  refine ⟨h.distinct.setProp _, fun p hp => ?_⟩
  have hlookup := lookup_eq_some_of_mem (h.distinct.setProp (id, r)) hp
  rw [lookup_setProp] at hlookup
  split_ifs at hlookup with hkey
  · rw [← Option.some.inj hlookup, hkey]
    exact hr
  · exact h.id_of_lookup hlookup

/-- The run that is claimed next is stored, and queued. -/
theorem Keyed.lookup_nextQueued (h : Keyed runs) {r : RunRecord} (hr : nextQueued runs = some r) :
    runs.lookup r.id = some r ∧ r.status = .queued := by
  have hmem := List.mem_of_head? hr
  rw [List.mem_insertionSort, List.mem_filter, List.mem_map] at hmem
  obtain ⟨⟨p, hp, rfl⟩, hqueued⟩ := hmem
  rw [h.id_eq p hp]
  exact ⟨lookup_eq_some_of_mem h.distinct hp, of_decide_eq_true hqueued⟩

end

end InMemoryRunStore

/-! ## The bundle store -/

/-- Source: `store/index.ts`, `BundleRecord` -/
structure BundleRecord where
  /-- The identifier of the bundle. -/
  id : JsString
  /-- Its tenant. -/
  tenantId : JsString
  /-- The run it is about. -/
  runId : JsString
  /-- The bundle. -/
  bundle : EvidenceBundle
  /-- Earliest date it may be deleted; the date may be invalid. -/
  retainUntil : Option TimeValue
  /-- Latest date it may be kept, when there is one. -/
  deleteBy : Option (Option TimeValue)
  /-- When it was created. -/
  createdAt : TimeValue

/-- Source: `store/index.ts`, `InMemoryBundleStore.create` -/
def InMemoryBundleStore.create (record : BundleRecord) (bundles : List (JsString × BundleRecord)) :
    List (JsString × BundleRecord) :=
  setProp bundles (record.id, record)

/-! ## What one process shares -/

/-- The stores of a process, its clock and its counter of identifiers.
Source: `store/index.ts`, `Stores`; `app.ts`, `idCounter` -/
structure Stores where
  /-- The log of the audit store. -/
  audit : AuditLog
  /-- The map of the run store. -/
  runs : List (JsString × RunRecord)
  /-- The map of the bundle store. -/
  bundles : List (JsString × BundleRecord)
  /-- What `new Date()` reads. -/
  clock : TimeValue
  /-- The counter of `newId`. -/
  idCounter : ℕ

/-- A new identifier.
Source: `app.ts`, `newId` -/
def Stores.newId (kind : JsString) (s : Stores) : JsString × Stores :=
  (kind ++ js "_" ++ toBase36 s.clock.ms ++ toBase36 s.idCounter,
    { s with idCounter := s.idCounter + 1 })

/-- Append to the audit store at the time of the clock. -/
def Stores.append (ctx : TenantContext) (event : AuditEvent) (s : Stores) :
    Except JsError AuditEntry × Stores :=
  let r := InMemoryAuditStore.append ctx event s.clock s.audit
  (r.1, { s with audit := r.2 })

/-- What an append takes: an event with its three names, a valid date if one is given, and a payload
that can be hashed. -/
structure Accepts (ctx : TenantContext) (event : AuditEvent) : Prop where
  action : event.action ≠ []
  actor : ctx.actor ≠ []
  tenantId : ctx.tenantId ≠ []
  recordedAt : event.recordedAt ≠ some none
  payload : (event.payload.getD .empty).toJs.jsonForm.IsJson

section append

variable {ctx : TenantContext} {event : AuditEvent} {s : Stores}

/-- An append of what it takes adds one entry, which says what the event says. -/
theorem Accepts.append (h : Accepts ctx event) (hsize : s.audit.size < 2 ^ 53) :
    ∃ entry, s.append ctx event = (.ok entry, { s with audit := s.audit.extend entry }) ∧
      entry.action = event.action ∧ entry.tenantId = ctx.tenantId ∧
      entry.subject = event.subject ∧ entry.actor = ctx.actor ∧
      entry.payload = event.payload.getD .empty := by
  have hmissing : ∀ {name : JsString}, name ≠ [] → isMissing (some name) = false := by
    intro name hname
    cases name with
    | nil => exact absurd rfl hname
    | cons u us => rfl
  obtain ⟨recordedAt, hdate⟩ : ∃ text,
      AuditLog.toISOString (event.recordedAt.getD (some s.clock)) = .ok text := by
    cases hrec : event.recordedAt with
    | none => exact ⟨_, rfl⟩
    | some date =>
      cases date with
      | none => exact absurd hrec h.recordedAt
      | some t => exact ⟨_, rfl⟩
  obtain ⟨entry, hentry⟩ := @AuditLog.exists_sealEvent s.audit
    ⟨some event.action, some ctx.actor, some ctx.tenantId, event.subject, event.payload,
      event.recordedAt⟩ s.clock (hmissing h.action) (hmissing h.actor) (hmissing h.tenantId)
    recordedAt hdate h.payload hsize
  obtain ⟨_, _, -, -, hseal⟩ := AuditLog.exists_seal_of_sealEvent hentry
  refine ⟨entry, ?_, ?_⟩
  · rw [Stores.append, InMemoryAuditStore.append, AuditLog.runAppend_eq, hentry]
  · rw [hseal]
    exact ⟨rfl, rfl, rfl, rfl, rfl⟩

/-- An append of anything else throws, and the log stays as it is. -/
theorem append_error_of_not_accepts (h : ¬ Accepts ctx event) :
    ∃ e, s.append ctx event = (.error e, s) := by
  rw [Stores.append, InMemoryAuditStore.append, AuditLog.runAppend_eq]
  cases hseal : s.audit.sealEvent ⟨some event.action, some ctx.actor, some ctx.tenantId,
      event.subject, event.payload, event.recordedAt⟩ s.clock with
  | error e => exact ⟨e, rfl⟩
  | ok entry =>
    obtain ⟨haction, hactor, htenantId, hpayload⟩ := AuditLog.named_of_sealEvent hseal
    obtain ⟨_, _, hdate, -, -⟩ := AuditLog.exists_seal_of_sealEvent hseal
    refine absurd ⟨?_, ?_, ?_, ?_, hpayload⟩ h
    · rintro heq
      simp [heq, isMissing] at haction
    · rintro heq
      simp [heq, isMissing] at hactor
    · rintro heq
      simp [heq, isMissing] at htenantId
    · rintro heq
      simp only [heq] at hdate
      cases hdate

end append

/-- Claim the next queued run at the time of the clock. -/
def Stores.claimNext (workerId : JsString) (s : Stores) : Option RunRecord × Stores :=
  let r := InMemoryRunStore.claimNext workerId s.clock s.runs
  (r.1, { s with runs := r.2 })

/-- Record the outcome of a run at the time of the clock. -/
def Stores.finish (id : JsString) (status : Outcome) (reason : Option JsString) (s : Stores) :
    Option RunRecord × Stores :=
  let r := InMemoryRunStore.finish id status reason s.clock s.runs
  (r.1, { s with runs := r.2 })

/-- Store a bundle created at the time of the clock. -/
def Stores.createBundle (record : TimeValue → BundleRecord) (s : Stores) : Stores :=
  { s with bundles := InMemoryBundleStore.create (record s.clock) s.bundles }

end AgentEval.Store
