import AgentEval.Api.FinalStatus
import AgentEval.Store.ClaimOrder

/-!
# The run store and the audit trail

A change of the status of a run has two halves, a write to the run store and an entry in the log,
with an `await` between them. A request to start or to cancel a run writes first; a worker that
records an outcome adds the entry first. Where the halves of two changes overlap, the last write and
the last entry may belong to different changes.

* **`stores_agree`**: in a run whose steps are all in time, every run has, whenever all requests and
  ticks are done, the status that the last of its lifecycle entries names.
* **`stores_disagree`**: a run is cancelled before its first entry is added; its last entry says that
  it has started.
-/

namespace AgentEval.Api

open Js Evidence Store Async Worker

/-! ## The trail of a run -/

/-- The status that an entry names. -/
def lifecycleStatus (action : JsString) : Option RunStatus :=
  if action = js "run.started" then some .queued
  else if action = js "run.claimed" then some .running
  else if action = js "run.completed" then some .completed
  else if action = js "run.failed" then some .failed
  else if action = js "run.cancelled" then some .cancelled
  else none

/-- The statuses that the entries of a log name for a run, in order. -/
def lifecycle (log : AuditLog) (id : JsString) : List RunStatus :=
  log.entries.filterMap fun e => if e.subject = some id then lifecycleStatus e.action else none

/-- The action of the entry that ends a run names its outcome. -/
theorem lifecycleStatus_lastAction (outcome : Outcome) :
    lifecycleStatus (lastAction outcome) = some outcome.toStatus := by
  cases outcome <;> simp [lifecycleStatus, lastAction, Outcome.toStatus]

/-- A log that has one more entry. -/
theorem lifecycle_extend (log : AuditLog) (entry : AuditEntry) (id : JsString) :
    lifecycle (log.extend entry) id = lifecycle log id ++
      (if entry.subject = some id then lifecycleStatus entry.action else none).toList := by
  have hentries : (log.extend entry).entries = log.entries ++ [entry] := rfl
  rw [lifecycle, hentries, List.filterMap_append, List.filterMap_cons, List.filterMap_nil]
  split <;> simp [lifecycle, *]

/-- A log that has more entries, none of them about the life of a run. -/
theorem lifecycle_of_append {log log' : AuditLog} {more : List AuditEntry}
    (h : log'.entries = log.entries ++ more)
    (hmore : ∀ e ∈ more, lifecycleStatus e.action = none) (id : JsString) :
    lifecycle log' id = lifecycle log id := by
  have hnone : more.filterMap (fun e =>
      if e.subject = some id then lifecycleStatus e.action else none) = [] := by
    refine List.filterMap_eq_nil_iff.mpr fun e he => ?_
    rw [hmore e he, ite_self]
  rw [lifecycle, h, List.filterMap_append, hnone, List.append_nil]
  rfl

/-! ## What an operation does to the two records -/

/-- Neither record changes. -/
structure Same (s s' : Stores) : Prop where
  statuses : ∀ id, statusOf s' id = statusOf s id
  trails : ∀ id, lifecycle s'.audit id = lifecycle s.audit id

/-- The status of one run is written. -/
structure Sets (id : JsString) (status : RunStatus) (s s' : Stores) : Prop where
  written : statusOf s' id = some status
  statuses : ∀ id', id' ≠ id → statusOf s' id' = statusOf s id'
  trails : ∀ id', lifecycle s'.audit id' = lifecycle s.audit id'

/-- A status is added to the trail of one run. -/
structure Logs (id : JsString) (status : RunStatus) (s s' : Stores) : Prop where
  statuses : ∀ id', statusOf s' id' = statusOf s id'
  added : lifecycle s'.audit id = lifecycle s.audit id ++ [status]
  trails : ∀ id', id' ≠ id → lifecycle s'.audit id' = lifecycle s.audit id'

section effects

variable {s s' : Stores} {id : JsString} {ctx : TenantContext} {event : AuditEvent}

/-- Storing a record. -/
theorem Sets.of_setProp {r : RunRecord} (hruns : s'.runs = setProp s.runs (id, r))
    (haudit : s'.audit = s.audit) : Sets id r.status s s' := by
  refine ⟨?_, fun id' hne => ?_, fun id' => by rw [haudit]⟩
  · rw [statusOf, hruns, lookup_setProp, if_pos rfl]
    rfl
  · rw [statusOf, hruns, lookup_setProp, if_neg hne]
    rfl

/-- Storing a record with the status its run has. -/
theorem Same.of_setProp {r : RunRecord} (hruns : s'.runs = setProp s.runs (id, r))
    (haudit : s'.audit = s.audit) (hstatus : statusOf s id = some r.status) : Same s s' := by
  have hsets := Sets.of_setProp hruns haudit
  refine ⟨fun id' => ?_, hsets.trails⟩
  by_cases hid : id' = id
  · rw [hid, hstatus, hsets.written]
  · exact hsets.statuses id' hid

/-- Runs and log stay as they are. -/
theorem Same.of_eq (hruns : s'.runs = s.runs) (haudit : s'.audit = s.audit) : Same s s' :=
  ⟨fun id => by rw [statusOf, hruns, statusOf], fun id => by rw [haudit]⟩

/-- An event that is not about the life of a run, recorded or refused. -/
theorem Same.append (hsize : s.audit.size < 2 ^ 53) (haction : lifecycleStatus event.action = none) :
    Same s (s.append ctx event).2 := by
  by_cases haccepts : Accepts ctx event
  · obtain ⟨entry, happend, hentry, -, -⟩ := haccepts.append hsize
    rw [happend]
    refine ⟨fun _ => rfl, fun id => ?_⟩
    rw [lifecycle_extend, hentry, haction, ite_self, Option.toList_none, List.append_nil]
  · obtain ⟨e, herror⟩ := @append_error_of_not_accepts ctx event s haccepts
    rw [herror]
    exact Same.of_eq rfl rfl

/-- An event about the life of a run is recorded. -/
theorem Logs.append (haccepts : Accepts ctx event) (hsize : s.audit.size < 2 ^ 53)
    {status : RunStatus} (haction : lifecycleStatus event.action = some status)
    (hsubject : event.subject = some id) : Logs id status s (s.append ctx event).2 := by
  obtain ⟨entry, happend, hentry, -, hsubject', -⟩ := haccepts.append hsize
  rw [happend]
  refine ⟨fun _ => rfl, ?_, fun id' hne => ?_⟩
  · rw [lifecycle_extend, hentry, haction, hsubject', hsubject, if_pos rfl]
    rfl
  · rw [lifecycle_extend, hsubject', hsubject, if_neg (by simpa using hne.symm),
      Option.toList_none, List.append_nil]

end effects

/-! ## What requests and ticks owe -/

/-- What a request or a tick still owes. -/
inductive RunPhase where
  /-- Nothing. -/
  | free
  /-- It has stored a run, and owes the entry. -/
  | starting (id : JsString)
  /-- It is about to write over a run it has read. -/
  | writing (id : JsString)
  /-- It has called a run off, and owes the entry. -/
  | cancelling (id : JsString)
  /-- It has claimed a run, and owes the entry and the write of an outcome. -/
  | holding (id : JsString)
  /-- It has recorded an outcome in the log, and owes the write. -/
  | finishing (id : JsString) (outcome : Outcome)

/-- A run as the routes create it: it has a tenant, and its backend is a text. -/
structure Plain (host : JsVal → Except JsError JsString) (r : RunRecord) : Prop where
  tenantId : r.tenantId ≠ []
  backend : ∃ backend, backendOf host r.manifest = .ok backend

/-- The runs are stored under their identifiers, as the routes create them. -/
structure Tidy (host : JsVal → Except JsError JsString) (s : Stores) : Prop where
  keyed : KeyedRuns s
  plain : ∀ id r, s.runs.lookup id = some r → Plain host r

/-- A tidy state with room in the log. -/
def Ready (host : JsVal → Except JsError JsString) (s : Stores) : Prop :=
  Tidy host s ∧ s.audit.size < 2 ^ 53

/-- The script of requests and ticks: the operation of a task in a phase, and the next phase. -/
inductive RunOp (host : JsVal → Except JsError JsString) :
    RunPhase → RunPoint → (Stores → Stores) → Stores → RunPhase → Prop
  /-- Neither record changes. -/
  | same {phase point update s} (hphase : phase = .free ∨ ∃ id, phase = .holding id)
      (hpoint : ∀ id status, point ≠ .setStatus id status) (h : Same s (update s)) :
      RunOp host phase point update s phase
  /-- A run is stored. -/
  | submit {update s} (h : Sets (s.newId (js "run")).1 .queued s (update s)) :
      RunOp host .free .submit update s (.starting (s.newId (js "run")).1)
  /-- Its first entry. -/
  | started {id update s} (h : ∀ t : Stores, t.audit.size < 2 ^ 53 → Logs id .queued t (update t)) :
      RunOp host (.starting id) .append update s .free
  /-- A stored run is read. -/
  | read {id update s} (hstored : statusOf s id ≠ none) (h : Same s (update s)) :
      RunOp host .free (.get id) update s (.writing id)
  /-- It is called off. -/
  | cancel {id update s} (h : Sets id .cancelled s (update s)) :
      RunOp host (.writing id) (.setStatus id .cancelled) update s (.cancelling id)
  /-- The entry for that. -/
  | cancelled {id update s}
      (h : ∀ t : Stores, t.audit.size < 2 ^ 53 → Logs id .cancelled t (update t)) :
      RunOp host (.cancelling id) .append update s .free
  /-- A run is claimed. -/
  | claim {id update s} (hqueued : statusOf s id = some .queued)
      (h : Sets id .running s (update s)) :
      RunOp host .free .claimNext update s (.holding id)
  /-- An entry about its life, before the one of the outcome. -/
  | record {id status update s} (h : Logs id status s (update s)) :
      RunOp host (.holding id) .append update s (.holding id)
  /-- The entry of the outcome. -/
  | outcome {id outcome update s} (h : Logs id outcome.toStatus s (update s)) :
      RunOp host (.holding id) .append update s (.finishing id outcome)
  /-- The write of the outcome. -/
  | finish {id outcome update s}
      (h : statusOf s id ≠ none → Sets id outcome.toStatus s (update s)) :
      RunOp host (.finishing id outcome) (.finish id outcome) update s .free

/-- An operation of the script that keeps the runs tidy. -/
def TidyOp (host : JsVal → Except JsError JsString) (phase : RunPhase) (point : RunPoint)
    (update : Stores → Stores) (s : Stores) (phase' : RunPhase) : Prop :=
  RunOp host phase point update s phase' ∧ Tidy host (update s)

/-- A task that is done owes nothing. -/
def OwesNothing {α : Type} (phase : RunPhase) (_ : α) : Prop := phase = .free

/-- A request follows the script from a phase. -/
abbrev Tells (host : JsVal → Except JsError JsString) {α : Type} (phase : RunPhase)
    (t : Task Stores RunPoint α) : Prop :=
  t.Follows (Ready host) (TidyOp host) OwesNothing phase

section requests

variable {host : JsVal → Except JsError JsString} {s s' : Stores} {id : JsString}

/-- A tidy state stays so where the runs do. -/
theorem Tidy.of_eq (h : Tidy host s) (hruns : s'.runs = s.runs) : Tidy host s' :=
  ⟨by rw [KeyedRuns, hruns]; exact h.keyed, by rw [hruns]; exact h.plain⟩

/-- A tidy state stays so where a plain run is stored under its identifier. -/
theorem Tidy.setProp (h : Tidy host s) {r : RunRecord} (hid : r.id = id) (hr : Plain host r)
    (hruns : s'.runs = setProp s.runs (id, r)) : Tidy host s' := by
  refine ⟨?_, fun id' r' hr' => ?_⟩
  · rw [KeyedRuns, hruns]
    exact InMemoryRunStore.Keyed.setProp h.keyed hid
  · rw [hruns, lookup_setProp] at hr'
    split_ifs at hr' with hkey
    · rwa [← Option.some.inj hr']
    · exact h.plain id' r' hr'

/-- A run that a request stores is plain. -/
theorem plain_of_submit {toUpperCase : JsString → JsString} {ctx : TenantContext}
    {input : StartRunInput} (htenant : ctx.tenantId ≠ []) {run : RunRecord}
    (h : (submit toUpperCase ctx input s).1 = .created run) :
    run.id = (s.newId (js "run")).1 ∧ run.status = .queued ∧ Plain host run ∧
      (submit toUpperCase ctx input s).2 =
        { (s.newId (js "run")).2 with runs := setProp s.runs (run.id, run) } := by
  obtain ⟨splitHash, -, -, rfl, hs⟩ := submit_created h
  exact ⟨rfl, rfl, ⟨htenant, _, rfl⟩, hs⟩

/-- Everything before the first `await` of `POST /v1/runs`, where no run is stored. -/
theorem same_submit {toUpperCase : JsString → JsString} {ctx : TenantContext}
    {input : StartRunInput} (hsize : s.audit.size < 2 ^ 53)
    (h : ∀ run, (submit toUpperCase ctx input s).1 ≠ .created run) :
    Same s (submit toUpperCase ctx input s).2 ∧
      (submit toUpperCase ctx input s).2.runs = s.runs := by
  rw [submit] at h ⊢
  dsimp only at h ⊢
  split at h
  · exact ⟨Same.of_eq rfl rfl, rfl⟩
  · split at h
    · exact ⟨Same.of_eq rfl rfl, rfl⟩
    · split at h
      · refine ⟨?_, rfl⟩
        obtain ⟨hstatuses, htrails⟩ := @Same.append (s.newId (js "run")).2 ctx
          ⟨js "run.split_access_denied", some input.taskSetId, some _, none⟩ hsize
          (by simp [lifecycleStatus])
        exact ⟨hstatuses, htrails⟩
      · exact absurd rfl (h _)

/-- An append of an event of the life of a run, by a caller with a name. -/
theorem tells_append {phase : RunPhase} {ctx : TenantContext} {event : AuditEvent}
    {status : RunStatus} (haccepts : Accepts ctx event)
    (haction : lifecycleStatus event.action = some status) (hsubject : event.subject = some id)
    (hphase : phase = .starting id ∧ status = .queued ∨
      phase = .cancelling id ∧ status = .cancelled) :
    Tells host phase (appendEvent ctx event) := by
  refine Task.Follows.await_self fun s hs => ⟨.free, ⟨?_, hs.1.of_eq rfl⟩, rfl⟩
  have hlogs : ∀ t : Stores, t.audit.size < 2 ^ 53 → Logs id status t (t.append ctx event).2 :=
    fun t ht => Logs.append haccepts ht haction hsubject
  rcases hphase with ⟨rfl, rfl⟩ | ⟨rfl, rfl⟩
  · exact .started hlogs
  · exact .cancelled hlogs

/-- The requests to start a run. -/
theorem tells_postRun (toUpperCase : JsString → JsString) {ctx : TenantContext}
    (hactor : ctx.actor ≠ []) (htenant : ctx.tenantId ≠ []) (input : StartRunInput) :
    Tells host .free (postRun toUpperCase ctx input) := by
  unfold postRun
  split
  · exact rfl
  · refine Task.Follows.await fun s hs => ?_
    cases hsubmit : (submit toUpperCase ctx input s).1 with
    | refused p =>
      obtain ⟨hsame, hruns⟩ := same_submit hs.2 (by rw [hsubmit]; simp)
      exact ⟨.free, ⟨.same (.inl rfl) (by simp) hsame, hs.1.of_eq hruns⟩, rfl⟩
    | denied reason appended =>
      obtain ⟨hsame, hruns⟩ := same_submit hs.2 (by rw [hsubmit]; simp)
      refine ⟨.free, ⟨.same (.inl rfl) (by simp) hsame, hs.1.of_eq hruns⟩, ?_⟩
      cases appended <;> exact rfl
    | created run =>
      obtain ⟨hid, hqueued, hplain, hs'⟩ := @plain_of_submit host _ _ _ _ htenant _ hsubmit
      refine ⟨.starting (s.newId (js "run")).1, ⟨.submit ?_, ?_⟩, ?_⟩
      · rw [hs', ← hid, ← hqueued]
        exact Sets.of_setProp rfl rfl
      · dsimp only
        rw [hs']
        exact hs.1.setProp rfl hplain rfl
      · rw [← hid]
        refine Task.Follows.bind (tells_append ?_ (by simp [lifecycleStatus]) rfl
          (.inl ⟨rfl, rfl⟩)) fun phase appended hfree => ?_
        · exact ⟨by simp, hactor, htenant, by simp, (startedPayload input).isJson_toJs⟩
        · cases appended <;> exact hfree

/-- The requests to cancel a run. -/
theorem tells_cancelRun {ctx : TenantContext} (hactor : ctx.actor ≠ [])
    (htenant : ctx.tenantId ≠ []) (id : JsString) : Tells host .free (cancelRun ctx id) := by
  unfold cancelRun setStatus
  split
  · exact rfl
  · rw [Task.bind_assoc]
    refine Task.Follows.await fun s hs => ?_
    cases hget : InMemoryRunStore.get ctx id s.runs with
    | none => exact ⟨.free, ⟨.same (.inl rfl) (by simp) (Same.of_eq rfl rfl), hs.1⟩, rfl⟩
    | some r =>
      have hlookup : s.runs.lookup id = some r := Option.eq_some_of_filter_eq_some hget
      have hid : r.id = id := InMemoryRunStore.Keyed.id_of_lookup hs.1.keyed hlookup
      have hplain : Plain host r := hs.1.plain id r hlookup
      refine ⟨.writing id, ⟨.read (by simp [statusOf, hlookup]) (Same.of_eq rfl rfl), hs.1⟩, ?_⟩
      refine Task.Follows.await fun t ht => ?_
      have hwrite : InMemoryRunStore.withStatus r .cancelled t.clock =
          { r with status := .cancelled } := by simp [InMemoryRunStore.withStatus]
      refine ⟨.cancelling id, ⟨.cancel ?_, ?_⟩, ?_⟩
      · exact Sets.of_setProp (r := InMemoryRunStore.withStatus r .cancelled t.clock) rfl rfl
      · exact ht.1.setProp (r := InMemoryRunStore.withStatus r .cancelled t.clock) hid
          ⟨hplain.tenantId, hplain.backend⟩ rfl
      · refine Task.Follows.bind (tells_append ?_ (by simp [lifecycleStatus])
          (congrArg some hid) (.inr ⟨rfl, rfl⟩)) fun phase appended hfree => ?_
        · exact ⟨by simp, hactor, htenant, by simp,
            JsVal.isJson_obj.mpr ⟨List.nodup_nil, List.forall_mem_nil _⟩⟩
        · cases appended <;> exact hfree

end requests

/-- A worker whose ticks come to their end: it has a name, its probe does not throw, and its
executors return normally with events that the log takes. -/
structure Regular (o : WorkerOptions) : Prop where
  workerId : o.workerId ≠ []
  captured : ∀ probe ∈ o.captureEnvironment, ∃ environment, probe = .ok environment
  executes : ∀ backend, ∃ executor blocked, o.selectExecutor backend = .ok executor ∧
    executor.unavailableReason = .ok blocked ∧
    ∀ id manifest run, ∃ result, executor.execute id manifest run = .ok result ∧
      ∀ event ∈ result.events, event.action ≠ [] ∧ event.payload.toJs.jsonForm.IsJson

section ticks

variable {host : JsVal → Except JsError JsString} {o : WorkerOptions} {run : RunRecord}

/-- A part of a tick does not throw and leads from one phase to another. -/
abbrev Ticks (host : JsVal → Except JsError JsString) {α : Type} (phase : RunPhase) (t : Tick α)
    (phase' : RunPhase) : Prop :=
  t.run.Follows (Ready host) (TidyOp host) (fun ph r => ph = phase' ∧ ∃ a, r = .ok a) phase

/-- An event that a worker records about a run. -/
theorem accepts_runEvent (hworker : o.workerId ≠ []) (htenant : run.tenantId ≠ [])
    {action : JsString} {payload : PlainObject} (haction : action ≠ [])
    (hpayload : payload.toJs.jsonForm.IsJson) :
    Accepts (workerContext o run) (runEvent run action payload) :=
  ⟨haction, hworker, htenant, by simp [runEvent], hpayload⟩

/-- Recording an event before the one of the outcome. -/
theorem ticks_record (hworker : o.workerId ≠ []) (htenant : run.tenantId ≠ []) {action : JsString}
    {payload : PlainObject} (haction : action ≠ []) (hpayload : payload.toJs.jsonForm.IsJson) :
    Ticks host (.holding run.id) (record (workerContext o run) run action payload)
      (.holding run.id) := by
  have haccepts := accepts_runEvent hworker htenant haction hpayload
  refine Task.Follows.await_self fun s hs => ?_
  obtain ⟨entry, happend, -⟩ := haccepts.append hs.2
  refine ⟨.holding run.id, ⟨?_, hs.1.of_eq rfl⟩, rfl, entry, ?_⟩
  · cases hstatus : lifecycleStatus action with
    | none => exact .same (.inr ⟨_, rfl⟩) (by simp) (Same.append hs.2 hstatus)
    | some status => exact .record (Logs.append haccepts hs.2 hstatus rfl)
  · dsimp only
    rw [happend]
    rfl

/-- Recording the outcome in the log. -/
theorem ticks_lastAction (hworker : o.workerId ≠ []) (htenant : run.tenantId ≠ [])
    (outcome : Outcome) (reason : Option JsString) :
    Ticks host (.holding run.id)
      (record (workerContext o run) run (lastAction outcome) (reasonPayload reason).toObject)
      (.finishing run.id outcome) := by
  have haccepts : Accepts (workerContext o run)
      (runEvent run (lastAction outcome) (reasonPayload reason).toObject) :=
    accepts_runEvent hworker htenant (by cases outcome <;> simp [lastAction])
      (reasonPayload reason).isJson_toJs
  refine Task.Follows.await_self fun s hs => ?_
  obtain ⟨entry, happend, -⟩ := haccepts.append hs.2
  refine ⟨.finishing run.id outcome, ⟨.outcome ?_, hs.1.of_eq rfl⟩, rfl, entry, ?_⟩
  · exact Logs.append haccepts hs.2 (lifecycleStatus_lastAction outcome) rfl
  · dsimp only
    rw [happend]
    rfl

/-- What `finish` stores for a run. -/
theorem exists_finish {s : Stores} {id : JsString} {r : RunRecord} (h : s.runs.lookup id = some r)
    (outcome : Outcome) (reason : Option JsString) :
    ∃ u : RunRecord, u.id = r.id ∧ u.status = outcome.toStatus ∧ u.tenantId = r.tenantId ∧
      u.manifest = r.manifest ∧
      (s.finish id outcome reason).2 = { s with runs := setProp s.runs (id, u) } := by
  rw [Stores.finish, InMemoryRunStore.finish, h]
  exact ⟨{ r with
    status := outcome.toStatus
    completedAt := some s.clock
    failureReason := (reason.filter (· ≠ [])).or r.failureReason }, rfl, rfl, rfl, rfl, rfl⟩

/-- What `setEnvironment` stores for a run. -/
theorem exists_setEnvironment {runs : List (JsString × RunRecord)} {id : JsString} {r : RunRecord}
    (h : runs.lookup id = some r) (environment : PlainObject) :
    ∃ u : RunRecord, u.id = r.id ∧ u.status = r.status ∧ u.tenantId = r.tenantId ∧
      u.manifest = r.manifest ∧
      InMemoryRunStore.setEnvironment id environment runs = setProp runs (id, u) := by
  rw [InMemoryRunStore.setEnvironment, h]
  exact ⟨{ r with executionEnvironment := some environment }, rfl, rfl, rfl, rfl, rfl⟩

/-- Recording the outcome of a run, in the log and then in the store. -/
theorem ticks_conclude (hworker : o.workerId ≠ []) (htenant : run.tenantId ≠ []) (outcome : Outcome)
    (reason : Option JsString) :
    Ticks host (.holding run.id) (conclude (workerContext o run) run outcome reason) .free := by
  unfold conclude
  refine Task.Follows.bindExcept (ticks_lastAction hworker htenant outcome reason) fun _ => ?_
  refine Task.Follows.bindLift (F := fun phase _ => phase = .free)
    (Task.Follows.await_self fun s hs => ⟨.free, ?_, rfl⟩) ?_
  · cases hr : s.runs.lookup run.id with
    | none =>
      refine ⟨.finish fun hstored => absurd ?_ hstored, hs.1.of_eq ?_⟩
      · rw [statusOf, hr]
        rfl
      · dsimp only
        rw [Stores.finish, InMemoryRunStore.finish, hr]
    | some r =>
      obtain ⟨u, hid, hstatus, htenantId, hmanifest, hfinish⟩ := exists_finish hr outcome reason
      have hplain := hs.1.plain run.id r hr
      refine ⟨.finish fun _ => ?_, ?_⟩
      · rw [hfinish, ← hstatus]
        exact Sets.of_setProp rfl rfl
      · dsimp only
        rw [hfinish]
        refine hs.1.setProp ?_ ⟨htenantId ▸ hplain.tenantId, hmanifest ▸ hplain.backend⟩ rfl
        exact hid.trans (InMemoryRunStore.Keyed.id_of_lookup hs.1.keyed hr)
  · exact fun _ _ hphase => ⟨hphase, true, rfl⟩

/-- Recording the machine of a run. -/
theorem ticks_recordEnvironment (ho : Regular o) (htenant : run.tenantId ≠ []) :
    Ticks host (.holding run.id) (recordEnvironment o (workerContext o run) run)
      (.holding run.id) := by
  have hdone : Ticks host (.holding run.id) (pure () : Tick Unit) (.holding run.id) :=
    ⟨rfl, (), rfl⟩
  unfold recordEnvironment
  split
  · exact hdone
  · rename_i probe hprobe
    obtain ⟨environment, rfl⟩ := ho.captured probe hprobe
    refine Task.Follows.bindExcept (q := .holding run.id) (Task.Follows.await_self fun s hs =>
      ⟨.holding run.id, ⟨.same (.inr ⟨_, rfl⟩) (by simp) (Same.of_eq rfl rfl), hs.1⟩, rfl, _, rfl⟩) ?_
    intro environment
    cases environment with
    | none => exact hdone
    | some environment =>
      refine Task.Follows.bindLift (F := fun phase _ => phase = .holding run.id)
        (Task.Follows.await_self fun s hs => ⟨.holding run.id, ?_, rfl⟩) ?_
      · cases hr : s.runs.lookup run.id with
        | none =>
          have hsame : InMemoryRunStore.setEnvironment run.id environment.toPlainObject s.runs =
              s.runs := by
            rw [InMemoryRunStore.setEnvironment, hr]
          exact ⟨.same (.inr ⟨_, rfl⟩) (by simp) (Same.of_eq hsame rfl), hs.1.of_eq hsame⟩
        | some r =>
          obtain ⟨u, hid, hstatus, htenantId, hmanifest, hset⟩ :=
            exists_setEnvironment hr environment.toPlainObject
          have hplain := hs.1.plain run.id r hr
          refine ⟨.same (.inr ⟨_, rfl⟩) (by simp) (Same.of_setProp hset rfl ?_), ?_⟩
          · rw [statusOf, hr, hstatus]
            rfl
          · refine hs.1.setProp ?_ ⟨htenantId ▸ hplain.tenantId, hmanifest ▸ hplain.backend⟩ hset
            exact hid.trans (InMemoryRunStore.Keyed.id_of_lookup hs.1.keyed hr)
      · rintro _ _ rfl
        refine Task.Follows.bindExcept (ticks_record ho.workerId htenant (by simp) ?_) fun _ => hdone
        exact (nodePayload environment).isJson_toJs

/-- Recording the events of an executor. -/
theorem ticks_recordEvents (hworker : o.workerId ≠ []) (htenant : run.tenantId ≠ [])
    {events : List ExecutionEvent}
    (hevents : ∀ event ∈ events, event.action ≠ [] ∧ event.payload.toJs.jsonForm.IsJson) :
    Ticks host (.holding run.id) (recordEvents (workerContext o run) run events)
      (.holding run.id) := by
  induction events with
  | nil => exact ⟨rfl, (), rfl⟩
  | cons event events ih =>
    obtain ⟨⟨haction, hpayload⟩, hrest⟩ := List.forall_mem_cons.mp hevents
    exact Task.Follows.bindExcept (ticks_record hworker htenant haction hpayload) fun _ => ih hrest

/-- Everything from the choice of the executor on. -/
theorem ticks_dispatch (ho : Regular o) (htenant : run.tenantId ≠ []) (backend : JsString) :
    Ticks host (.holding run.id) (dispatch host o (workerContext o run) run backend) .free := by
  obtain ⟨executor, blocked, hselect, hblocked, hexecute⟩ := ho.executes backend
  unfold dispatch
  rw [hselect]
  dsimp only
  rw [hblocked]
  dsimp only
  split
  · refine Task.Follows.bindExcept (ticks_record ho.workerId htenant (by simp) ?_) fun _ => ?_
    · exact (unavailablePayload backend _).isJson_toJs
    · exact ticks_conclude ho.workerId htenant _ _
  · obtain ⟨result, hresult, hevents⟩ :=
      hexecute run.id run.manifest ⟨run.tenantId, present run.credentialId⟩
    unfold executeRun
    rw [hresult]
    refine Task.Follows.bindLift
      (F := fun phase r => phase = .holding run.id ∧ r = .ok result)
      (Task.Follows.await_self fun s hs =>
        ⟨.holding run.id, ⟨.same (.inr ⟨_, rfl⟩) (by simp) (Same.of_eq rfl rfl), hs.1⟩, rfl, rfl⟩) ?_
    rintro _ _ ⟨rfl, rfl⟩
    exact Task.Follows.bindExcept (ticks_recordEvents ho.workerId htenant hevents) fun _ =>
      ticks_conclude ho.workerId htenant _ _

/-- The ticks. -/
theorem ticks_tick (ho : Regular o) : Ticks host .free (tick host o) .free := by
  unfold tick
  refine Task.Follows.bindLift (F := fun phase claimed => (claimed = none ∧ phase = .free) ∨
    ∃ r, claimed = some r ∧ phase = .holding r.id ∧ Plain host r)
    (Task.Follows.await_self fun s hs => ?_) ?_
  · cases hnext : InMemoryRunStore.nextQueued s.runs with
    | none =>
      have hclaim : s.claimNext o.workerId = (none, s) := by
        rw [Stores.claimNext, InMemoryRunStore.claimNext_of_none hnext]
      refine ⟨.free, ⟨.same (.inl rfl) (by simp) ?_, ?_⟩, .inl ⟨?_, rfl⟩⟩
      · rw [hclaim]
        exact Same.of_eq rfl rfl
      · dsimp only
        rw [hclaim]
        exact hs.1
      · rw [hclaim]
    | some next =>
      have hclaim : s.claimNext o.workerId =
          (some (InMemoryRunStore.claimed o.workerId s.clock next), { s with
            runs := setProp s.runs
              (next.id, InMemoryRunStore.claimed o.workerId s.clock next) }) := by
        rw [Stores.claimNext, InMemoryRunStore.claimNext_eq hnext]
      obtain ⟨hlookup, hqueued⟩ := hs.1.keyed.lookup_nextQueued hnext
      have hplain := hs.1.plain next.id next hlookup
      have hclaimed : Plain host (InMemoryRunStore.claimed o.workerId s.clock next) :=
        ⟨hplain.tenantId, hplain.backend⟩
      refine ⟨.holding next.id, ⟨.claim ?_ ?_, ?_⟩,
        .inr ⟨InMemoryRunStore.claimed o.workerId s.clock next, ?_, rfl, hclaimed⟩⟩
      · rw [statusOf, hlookup, ← hqueued]
        rfl
      · rw [hclaim]
        exact Sets.of_setProp (r := InMemoryRunStore.claimed o.workerId s.clock next) rfl rfl
      · dsimp only
        rw [hclaim]
        exact hs.1.setProp rfl hclaimed rfl
      · rw [hclaim]
  · rintro _ claimed (⟨rfl, rfl⟩ | ⟨r, rfl, rfl, hplain⟩)
    · exact ⟨rfl, false, rfl⟩
    · obtain ⟨backend, hbackend⟩ := hplain.backend
      change (processRun host o r).run.Follows _ _ _ _
      unfold processRun
      rw [hbackend]
      refine Task.Follows.bindExcept (ticks_record ho.workerId hplain.tenantId (by simp) ?_)
        fun _ => ?_
      · exact (claimedPayload o.workerId backend).isJson_toJs
      · exact Task.Follows.bindExcept (ticks_recordEnvironment ho hplain.tenantId) fun _ =>
          ticks_dispatch ho hplain.tenantId backend

end ticks

/-! ## The condition on a run of the system -/

/-- The next operation of a task adds an entry to the trail of a run that names a status. -/
def Adds (t : Task Stores RunPoint Unit) (id : JsString) (status : RunStatus) : Prop :=
  ∃ point update next, t = .call point update next ∧ ∀ s : Stores, s.audit.size < 2 ^ 53 →
    lifecycle (update s).audit id = lifecycle s.audit id ++ [status]

/-- A cancel request is about to write over a run. -/
def Overwritten (server : RunServer) (id : JsString) : Prop :=
  ∃ t ∈ server.tasks, t.point = some (.setStatus id .cancelled)

/-- A run is held by a worker that has not recorded an outcome. -/
def Held (server : RunServer) (id : JsString) : Prop :=
  (∃ t ∈ server.tasks, Adds t id .running) ∨
    .running ∈ lifecycle server.shared.audit id ∧
      ∀ outcome : Outcome, outcome.toStatus ∉ lifecycle server.shared.audit id

/-- The first entry of a run may be added: the run is still queued, or another change of its status
will be recorded later. -/
def MayStart (server : RunServer) (id : JsString) : Prop :=
  statusOf server.shared id = some .queued ∨ Held server id ∨ Overwritten server id ∨
    ∃ t ∈ server.tasks, Adds t id .cancelled

/-- The outcome of a run may be written: the last entry of the run is the one of the outcome, and no
request is about to add another; or the run is about to be written over. -/
def MayFinish (server : RunServer) (id : JsString) (outcome : Outcome) : Prop :=
  (lifecycle server.shared.audit id).getLast? = some outcome.toStatus ∧
    (∀ t ∈ server.tasks, ¬ Adds t id .queued ∧ ¬ Adds t id .cancelled) ∨ Overwritten server id

/-- What the system is given: callers have a name and a tenant, ticks come to their end, a new run
has a fresh identifier, the log has room, and nobody else adds entries about the life of a run. -/
def Proper (server : RunServer) : RunEvent → Prop
  | .start ctx _ => ctx.actor ≠ [] ∧ ctx.tenantId ≠ []
  | .cancel ctx _ => ctx.actor ≠ [] ∧ ctx.tenantId ≠ []
  | .tick o => Regular o
  | .resume i => server.shared.audit.size < 2 ^ 53 ∧ (server.Waits i .submit →
      server.shared.runs.lookup (server.shared.newId (js "run")).1 = none)
  | .others audit _ _ _ => ∃ more, audit.entries = server.shared.audit.entries ++ more ∧
      ∀ e ∈ more, lifecycleStatus e.action = none

/-- **The condition on a step**: where it resumes a task that adds the first entry of a run or writes
an outcome, the task may do so. -/
def InTime (server : RunServer) : RunEvent → Prop
  | .resume i => ∀ t, server.tasks[i]? = some t →
      (∀ id, Adds t id .queued → MayStart server id) ∧
      ∀ id outcome, t.point = some (.finish id outcome) → MayFinish server id outcome
  | _ => True

/-! ## What holds throughout -/

/-- Nobody is going to write over a run or to record an outcome for it. -/
def Quiesced (phases : List RunPhase) (id : JsString) : Prop :=
  .writing id ∉ phases ∧ .holding id ∉ phases ∧ ∀ outcome, .finishing id outcome ∉ phases

/-- The run that a phase is about. -/
def RunPhase.run? : RunPhase → Option JsString
  | free => none
  | starting id => some id
  | writing id => some id
  | cancelling id => some id
  | holding id => some id
  | finishing id _ => some id

/-- How the two records of a run stand to each other: where nothing is owed for it, its status is
what the last entry of its trail names; where only entries of cancel requests are, it is
cancelled. -/
structure AgreesAt (phases : List RunPhase) (s : Stores) (id : JsString) : Prop where
  stored : ∀ phase ∈ phases, phase.run? = some id → statusOf s id ≠ none
  cancelled : Quiesced phases id → .cancelling id ∈ phases → statusOf s id = some .cancelled
  settled : Quiesced phases id → .cancelling id ∉ phases → .starting id ∉ phases →
    ∀ status, statusOf s id = some status → (lifecycle s.audit id).getLast? = some status
  held : .running ∈ lifecycle s.audit id →
    (∃ outcome : Outcome, outcome.toStatus ∈ lifecycle s.audit id) ∨ .holding id ∈ phases

section agreement

variable {host : JsVal → Except JsError JsString} {phases : List RunPhase} {s s' : Stores}
  {id : JsString} {i : ℕ} {phase phase' ph : RunPhase}

/-- What is quiesced after a step was so before, but for the task that took it. -/
theorem Quiesced.of_set (h : Quiesced (phases.set i phase') id) (hi : phases[i]? = some phase)
    (hwriting : phase ≠ .writing id) (hholding : phase ≠ .holding id)
    (hfinishing : ∀ outcome, phase ≠ .finishing id outcome) : Quiesced phases id :=
  ⟨fun hmem => h.1 (mem_set_of_ne hi hmem hwriting.symm),
    fun hmem => h.2.1 (mem_set_of_ne hi hmem hholding.symm),
    fun outcome hmem => h.2.2 outcome (mem_set_of_ne hi hmem (hfinishing outcome).symm)⟩

/-- **The frame rule**: a step that is not about a run leaves its records as they stand. -/
theorem AgreesAt.frame (h : AgreesAt phases s id) (hi : phases[i]? = some phase)
    (hphase : phase.run? ≠ some id) (hphase' : phase'.run? ≠ some id)
    (hstatus : statusOf s' id = statusOf s id)
    (htrail : lifecycle s'.audit id = lifecycle s.audit id) :
    AgreesAt (phases.set i phase') s' id := by
  have hold : ∀ ph : RunPhase, ph.run? = some id → ph ∈ phases → ph ∈ phases.set i phase' := by
    intro ph hrun hmem
    refine mem_set_of_ne hi hmem ?_
    rintro rfl
    exact hphase hrun
  have hnew : ∀ ph : RunPhase, ph.run? = some id → ph ∈ phases.set i phase' → ph ∈ phases := by
    intro ph hrun hmem
    refine mem_of_mem_set hmem ?_
    rintro rfl
    exact hphase' hrun
  have hquiesced : Quiesced (phases.set i phase') id → Quiesced phases id := fun hq =>
    ⟨fun hmem => hq.1 (hold _ rfl hmem), fun hmem => hq.2.1 (hold _ rfl hmem),
      fun outcome hmem => hq.2.2 outcome (hold _ rfl hmem)⟩
  refine ⟨?_, ?_, ?_, ?_⟩
  · intro ph hmem hrun
    rw [hstatus]
    exact h.stored ph (hnew ph hrun hmem) hrun
  · intro hq hmem
    rw [hstatus]
    exact h.cancelled (hquiesced hq) (hnew _ rfl hmem)
  · rw [hstatus, htrail]
    exact fun hq hcancelling hstarting => h.settled (hquiesced hq)
      (fun hmem => hcancelling (hold _ rfl hmem)) fun hmem => hstarting (hold _ rfl hmem)
  · rw [htrail]
    exact fun hrunning => (h.held hrunning).imp_right (hold _ rfl)

/-- A step that changes neither record. -/
theorem AgreesAt.same (h : AgreesAt phases s id) (hsame : Same s s') : AgreesAt phases s' id := by
  obtain ⟨hstored, hcancelled, hsettled, hheld⟩ := h
  rw [← hsame.statuses] at hstored hcancelled hsettled
  rw [← hsame.trails] at hsettled hheld
  exact ⟨hstored, hcancelled, hsettled, hheld⟩

/-- A run is stored under a fresh identifier. -/
theorem AgreesAt.submit (h : AgreesAt phases s id) (hfresh : statusOf s id = none)
    (hi : phases[i]? = some .free) (hsets : Sets id .queued s s') :
    AgreesAt (phases.set i (.starting id)) s' id := by
  have hnone : ∀ ph : RunPhase, ph.run? = some id → ph ∉ phases := fun ph hrun hmem =>
    h.stored ph hmem hrun hfresh
  refine ⟨fun _ _ _ => by simp [hsets.written], ?_, ?_, ?_⟩
  · exact fun _ hmem => absurd (mem_of_mem_set hmem (by simp)) (hnone _ rfl)
  · exact fun _ _ hstarting => absurd (mem_set_self hi) hstarting
  · rw [hsets.trails]
    exact fun hrunning => (h.held hrunning).imp_right fun hmem => absurd hmem (hnone _ rfl)

/-- The first entry of a run. -/
theorem AgreesAt.started (h : AgreesAt phases s id) (hi : phases[i]? = some (.starting id))
    (hlogs : Logs id .queued s s')
    (hmay : statusOf s id = some .queued ∨ .holding id ∈ phases ∨ .writing id ∈ phases ∨
      .cancelling id ∈ phases) : AgreesAt (phases.set i .free) s' id := by
  have hquiesced : Quiesced (phases.set i .free) id → Quiesced phases id := fun hq =>
    hq.of_set hi (by simp) (by simp) (by simp)
  refine ⟨?_, ?_, ?_, ?_⟩
  · intro ph hmem hrun
    rw [hlogs.statuses]
    refine h.stored ph (mem_of_mem_set hmem ?_) hrun
    rintro rfl
    cases hrun
  · intro hq hmem
    rw [hlogs.statuses]
    exact h.cancelled (hquiesced hq) (mem_of_mem_set hmem (by simp))
  · intro hq hcancelling _ status hstatus
    rw [hlogs.statuses] at hstatus
    rw [hlogs.added, List.getLast?_concat]
    rcases hmay with hqueued | hholding | hwriting | hmem
    · rw [← hqueued, hstatus]
    · exact absurd hholding (hquiesced hq).2.1
    · exact absurd hwriting (hquiesced hq).1
    · exact absurd (mem_set_of_ne hi hmem (by simp)) hcancelling
  · rw [hlogs.added]
    intro hrunning
    have hbefore := (List.mem_append.mp hrunning).resolve_right (by simp)
    rcases h.held hbefore with ⟨outcome, hmem⟩ | hholding
    · exact .inl ⟨outcome, List.mem_append_left _ hmem⟩
    · exact .inr (mem_set_of_ne hi hholding (by simp))

/-- A cancel request reads a run. -/
theorem AgreesAt.read (h : AgreesAt phases s id) (hi : phases[i]? = some .free)
    (hstored : statusOf s id ≠ none) (hsame : Same s s') :
    AgreesAt (phases.set i (.writing id)) s' id := by
  have hwriting : .writing id ∈ phases.set i (.writing id) := mem_set_self hi
  refine ⟨fun _ _ _ => by rwa [hsame.statuses], ?_, ?_, ?_⟩
  · exact fun hq => absurd hwriting hq.1
  · exact fun hq => absurd hwriting hq.1
  · rw [hsame.trails]
    exact fun hrunning => (h.held hrunning).imp_right fun hmem => mem_set_of_ne hi hmem (by simp)

/-- A cancel request writes. -/
theorem AgreesAt.cancel (h : AgreesAt phases s id) (hi : phases[i]? = some (.writing id))
    (hsets : Sets id .cancelled s s') : AgreesAt (phases.set i (.cancelling id)) s' id := by
  refine ⟨fun _ _ _ => by simp [hsets.written], fun _ _ => hsets.written, ?_, ?_⟩
  · exact fun _ hcancelling => absurd (mem_set_self hi) hcancelling
  · rw [hsets.trails]
    exact fun hrunning => (h.held hrunning).imp_right fun hmem => mem_set_of_ne hi hmem (by simp)

/-- The entry of a cancel request. -/
theorem AgreesAt.logCancelled (h : AgreesAt phases s id)
    (hi : phases[i]? = some (.cancelling id)) (hlogs : Logs id .cancelled s s') :
    AgreesAt (phases.set i .free) s' id := by
  have hcancelled : Quiesced (phases.set i .free) id → statusOf s' id = some .cancelled := by
    intro hq
    rw [hlogs.statuses]
    exact h.cancelled (hq.of_set hi (by simp) (by simp) (by simp)) (List.mem_of_getElem? hi)
  refine ⟨?_, fun hq _ => hcancelled hq, ?_, ?_⟩
  · intro _ _ _
    rw [hlogs.statuses]
    exact h.stored _ (List.mem_of_getElem? hi) rfl
  · intro hq _ _ status hstatus
    rw [hlogs.added, List.getLast?_concat, ← hstatus, hcancelled hq]
  · rw [hlogs.added]
    intro hrunning
    have hbefore := (List.mem_append.mp hrunning).resolve_right (by simp)
    rcases h.held hbefore with ⟨outcome, hmem⟩ | hholding
    · exact .inl ⟨outcome, List.mem_append_left _ hmem⟩
    · exact .inr (mem_set_of_ne hi hholding (by simp))

/-- A worker claims a run. -/
theorem AgreesAt.claim (hi : phases[i]? = some .free)
    (hsets : Sets id .running s s') : AgreesAt (phases.set i (.holding id)) s' id := by
  have hholding : .holding id ∈ phases.set i (.holding id) := mem_set_self hi
  exact ⟨fun _ _ _ => by simp [hsets.written], fun hq => absurd hholding hq.2.1,
    fun hq => absurd hholding hq.2.1, fun _ => .inr hholding⟩

/-- A worker adds an entry about the life of its run. -/
theorem AgreesAt.record (h : AgreesAt phases s id) (hi : phases[i]? = some (.holding id))
    {status : RunStatus} (hlogs : Logs id status s s') : AgreesAt phases s' id := by
  have hholding : .holding id ∈ phases := List.mem_of_getElem? hi
  refine ⟨fun _ _ _ => ?_, fun hq => absurd hholding hq.2.1, fun hq => absurd hholding hq.2.1,
    fun _ => .inr hholding⟩
  rw [hlogs.statuses]
  exact h.stored _ hholding rfl

/-- A worker adds the entry of the outcome. -/
theorem AgreesAt.outcome (h : AgreesAt phases s id) (hi : phases[i]? = some (.holding id))
    {outcome : Outcome} (hlogs : Logs id outcome.toStatus s s') :
    AgreesAt (phases.set i (.finishing id outcome)) s' id := by
  have hfinishing : .finishing id outcome ∈ phases.set i (.finishing id outcome) := mem_set_self hi
  refine ⟨fun _ _ _ => ?_, fun hq => absurd hfinishing (hq.2.2 outcome),
    fun hq => absurd hfinishing (hq.2.2 outcome), fun _ => .inl ⟨outcome, ?_⟩⟩
  · rw [hlogs.statuses]
    exact h.stored _ (List.mem_of_getElem? hi) rfl
  · rw [hlogs.added]
    exact List.mem_append_right _ (List.mem_singleton_self _)

/-- A worker writes the outcome. -/
theorem AgreesAt.finish (h : AgreesAt phases s id) {outcome : Outcome}
    (hi : phases[i]? = some (.finishing id outcome)) (hsets : Sets id outcome.toStatus s s')
    (hmay : (lifecycle s.audit id).getLast? = some outcome.toStatus ∧ .cancelling id ∉ phases ∧
      .starting id ∉ phases ∨ .writing id ∈ phases) : AgreesAt (phases.set i .free) s' id := by
  have hlast : Quiesced (phases.set i .free) id →
      (lifecycle s.audit id).getLast? = some outcome.toStatus ∧ .cancelling id ∉ phases := by
    intro hq
    rcases hmay with ⟨hlast, hcancelling, -⟩ | hwriting
    · exact ⟨hlast, hcancelling⟩
    · exact absurd (mem_set_of_ne hi hwriting (by simp)) hq.1
  refine ⟨fun _ _ _ => by simp [hsets.written], ?_, ?_, ?_⟩
  · exact fun hq hmem => absurd (mem_of_mem_set hmem (by simp)) (hlast hq).2
  · intro hq _ _ status hstatus
    rw [hsets.trails, (hlast hq).1, ← hstatus, hsets.written]
  · rw [hsets.trails]
    exact fun hrunning => (h.held hrunning).imp_right fun hmem => mem_set_of_ne hi hmem (by simp)

end agreement

/-! ## Tasks and their phases -/

section tasks

variable {host : JsVal → Except JsError JsString} {s : Stores} {id : JsString} {phase : RunPhase}
  {t : Task Stores RunPoint Unit} {status : RunStatus}

/-- A trail does not end with an entry it does not have. -/
theorem not_added {l : List RunStatus} (h : l = l ++ [status]) : False := by simp at h

/-- Who adds an entry to the trail of a run. -/
theorem phase_of_adds (h : Tells host phase t) (hs : Ready host s)
    (hstored : ∀ id, phase.run? = some id → statusOf s id ≠ none) (hadds : Adds t id status) :
    phase = .starting id ∧ status = .queued ∨ phase = .cancelling id ∧ status = .cancelled ∨
      phase = .holding id := by
  obtain ⟨point, update, next, rfl, hadds⟩ := hadds
  obtain ⟨phase', ⟨hop, -⟩, -⟩ := h s hs
  have hs' := hadds s hs.2
  have hlogs : ∀ {id' status'}, Logs id' status' s (update s) → id' = id ∧ status' = status := by
    intro id' status' hlogs
    by_cases hid : id' = id
    · rw [← hid, hlogs.added, List.append_cancel_left_eq, List.cons.injEq] at hs'
      exact ⟨hid, hs'.1⟩
    · rw [hlogs.trails id (Ne.symm hid)] at hs'
      exact absurd hs' not_added
  cases hop with
  | same hphase hpoint hsame => exact absurd (hsame.trails id ▸ hs') not_added
  | submit hsets => exact absurd (hsets.trails id ▸ hs') not_added
  | started hstarted =>
    obtain ⟨rfl, rfl⟩ := hlogs (hstarted s hs.2)
    exact .inl ⟨rfl, rfl⟩
  | read hread hsame => exact absurd (hsame.trails id ▸ hs') not_added
  | cancel hsets => exact absurd (hsets.trails id ▸ hs') not_added
  | cancelled hcancelled =>
    obtain ⟨rfl, rfl⟩ := hlogs (hcancelled s hs.2)
    exact .inr (.inl ⟨rfl, rfl⟩)
  | claim hqueued hsets => exact absurd (hsets.trails id ▸ hs') not_added
  | record hrecord =>
    obtain ⟨rfl, -⟩ := hlogs hrecord
    exact .inr (.inr rfl)
  | outcome houtcome =>
    obtain ⟨rfl, -⟩ := hlogs houtcome
    exact .inr (.inr rfl)
  | finish hsets => exact absurd ((hsets (hstored _ rfl)).trails id ▸ hs') not_added

/-- A request that owes the first entry of a run adds it next. -/
theorem adds_of_starting (h : Tells host (.starting id) t) (hs : Ready host s) :
    Adds t id .queued := by
  cases t with
  | done a => cases h
  | call point update next =>
    obtain ⟨phase', ⟨hop, -⟩, -⟩ := h s hs
    refine ⟨point, update, next, rfl, ?_⟩
    cases hop with
    | same hphase => simp at hphase
    | started hstarted => exact fun t ht => (hstarted t ht).added

/-- A cancel request that owes its entry adds it next. -/
theorem adds_of_cancelling (h : Tells host (.cancelling id) t) (hs : Ready host s) :
    Adds t id .cancelled := by
  cases t with
  | done a => cases h
  | call point update next =>
    obtain ⟨phase', ⟨hop, -⟩, -⟩ := h s hs
    refine ⟨point, update, next, rfl, ?_⟩
    cases hop with
    | same hphase => simp at hphase
    | cancelled hcancelled => exact fun t ht => (hcancelled t ht).added

/-- Who writes over a run. -/
theorem phase_of_setStatus (h : Tells host phase t) (hs : Ready host s)
    (hpoint : t.point = some (.setStatus id status)) : phase = .writing id := by
  cases t with
  | done a => cases hpoint
  | call point update next =>
    cases hpoint
    obtain ⟨phase', ⟨hop, -⟩, -⟩ := h s hs
    cases hop with
    | same hphase hne => exact absurd rfl (hne id status)
    | cancel => rfl

end tasks

/-! ## Runs of the system -/

section runs

variable {toUpperCase : JsString → JsString} {host : JsVal → Except JsError JsString}
  {server : RunServer} {phases : List RunPhase} {id : JsString}

/-- The invariant: the runs are tidy, and the two records of each run stand to each other as they
should. -/
def Agreeing (host : JsVal → Except JsError JsString) (phases : List RunPhase) (s : Stores) : Prop :=
  Tidy host s ∧ ∀ id, AgreesAt phases s id

/-- The tasks follow the script from these phases, and the invariant holds. -/
def Telling (host : JsVal → Except JsError JsString) (phases : List RunPhase) (server : RunServer) :
    Prop :=
  server.Follows (Ready host) (TidyOp host) OwesNothing phases ∧ Agreeing host phases server.shared

/-- What a run is stored for is stored. -/
theorem Telling.stored (h : Telling host phases server) {i : ℕ} {phase : RunPhase}
    (hi : phases[i]? = some phase) (id : JsString) (hrun : phase.run? = some id) :
    statusOf server.shared id ≠ none :=
  (h.2.2 id).stored phase (List.mem_of_getElem? hi) hrun

/-- A worker that holds a run. -/
theorem Telling.holding_of_held (h : Telling host phases server) (hs : Ready host server.shared)
    (hheld : Held server id) : .holding id ∈ phases := by
  rcases hheld with ⟨t, ht, hadds⟩ | ⟨hrunning, hnone⟩
  · obtain ⟨i, hi⟩ := List.getElem?_of_mem ht
    obtain ⟨phase, hphase, hfollows⟩ := h.1.getElem? hi
    rcases phase_of_adds hfollows hs (h.stored hphase) hadds with ⟨-, hstatus⟩ | ⟨-, hstatus⟩ | rfl
    · cases hstatus
    · cases hstatus
    · exact List.mem_of_getElem? hphase
  · refine ((h.2.2 id).held hrunning).resolve_left ?_
    rintro ⟨outcome, hmem⟩
    exact hnone outcome hmem

/-- A run that is about to be written over. -/
theorem Telling.writing_of_overwritten (h : Telling host phases server)
    (hs : Ready host server.shared) (hover : Overwritten server id) : .writing id ∈ phases := by
  obtain ⟨t, ht, hpoint⟩ := hover
  obtain ⟨i, hi⟩ := List.getElem?_of_mem ht
  obtain ⟨phase, hphase, hfollows⟩ := h.1.getElem? hi
  obtain rfl := phase_of_setStatus hfollows hs hpoint
  exact List.mem_of_getElem? hphase

/-- The first entry may be added. -/
theorem Telling.of_mayStart (h : Telling host phases server) (hs : Ready host server.shared)
    (hmay : MayStart server id) :
    statusOf server.shared id = some .queued ∨ .holding id ∈ phases ∨ .writing id ∈ phases ∨
      .cancelling id ∈ phases := by
  rcases hmay with hqueued | hheld | hover | ⟨t, ht, hadds⟩
  · exact .inl hqueued
  · exact .inr (.inl (h.holding_of_held hs hheld))
  · exact .inr (.inr (.inl (h.writing_of_overwritten hs hover)))
  · obtain ⟨i, hi⟩ := List.getElem?_of_mem ht
    obtain ⟨phase, hphase, hfollows⟩ := h.1.getElem? hi
    rcases phase_of_adds hfollows hs (h.stored hphase) hadds with ⟨-, hstatus⟩ | ⟨rfl, -⟩ | rfl
    · cases hstatus
    · exact .inr (.inr (.inr (List.mem_of_getElem? hphase)))
    · exact .inr (.inl (List.mem_of_getElem? hphase))

/-- The outcome may be written. -/
theorem Telling.of_mayFinish (h : Telling host phases server) (hs : Ready host server.shared)
    {outcome : Outcome} (hmay : MayFinish server id outcome) :
    (lifecycle server.shared.audit id).getLast? = some outcome.toStatus ∧
      .cancelling id ∉ phases ∧ .starting id ∉ phases ∨ .writing id ∈ phases := by
  rcases hmay with ⟨hlast, hnone⟩ | hover
  · refine .inl ⟨hlast, fun hmem => ?_, fun hmem => ?_⟩
    · obtain ⟨i, hi⟩ := List.getElem?_of_mem hmem
      obtain ⟨t, ht, hfollows⟩ := h.1.exists_task hi
      exact (hnone t (List.mem_of_getElem? ht)).2 (adds_of_cancelling hfollows hs)
    · obtain ⟨i, hi⟩ := List.getElem?_of_mem hmem
      obtain ⟨t, ht, hfollows⟩ := h.1.exists_task hi
      exact (hnone t (List.mem_of_getElem? ht)).1 (adds_of_starting hfollows hs)
  · exact .inr (h.writing_of_overwritten hs hover)

/-- **What an operation keeps.** -/
theorem Telling.operation (h : Telling host phases server) (hs : Ready host server.shared) {i : ℕ}
    {phase phase' : RunPhase} {point : RunPoint} {update : Stores → Stores}
    {next : Stores → Task Stores RunPoint Unit}
    (ht : server.tasks[i]? = some (.call point update next)) (hi : phases[i]? = some phase)
    (hop : TidyOp host phase point update server.shared phase')
    (hproper : Proper server (.resume i)) (hintime : InTime server (.resume i)) :
    Agreeing host (phases.set i phase') (update server.shared) := by
  obtain ⟨hop, htidy⟩ := hop
  refine ⟨htidy, ?_⟩
  have hagrees := h.2.2
  have hframe : ∀ id, phase.run? ≠ some id → phase'.run? ≠ some id →
      statusOf (update server.shared) id = statusOf server.shared id →
      lifecycle (update server.shared).audit id = lifecycle server.shared.audit id →
      AgreesAt (phases.set i phase') (update server.shared) id :=
    fun id hphase hphase' => (hagrees id).frame hi hphase hphase'
  have hne : ∀ {id id' : JsString}, id ≠ id' → some id' ≠ some id := fun hne heq =>
    hne (Option.some.inj heq).symm
  intro id
  cases hop with
  | same hphase hpoint hsame =>
    rw [set_self hi]
    exact (hagrees id).same hsame
  | submit hsets =>
    by_cases hid : id = (server.shared.newId (js "run")).1
    · subst hid
      refine (hagrees _).submit ?_ hi hsets
      rw [statusOf, hproper.2 ⟨_, ht, rfl⟩]
      rfl
    · exact hframe id (by simp [RunPhase.run?]) (hne hid) (hsets.statuses id hid) (hsets.trails id)
  | @started id' _ _ hstarted =>
    have hlogs := hstarted server.shared hs.2
    by_cases hid : id = id'
    · subst hid
      refine (hagrees id).started hi hlogs (h.of_mayStart hs ((hintime _ ht).1 id ?_))
      exact ⟨_, _, _, rfl, fun t ht => (hstarted t ht).added⟩
    · exact hframe id (hne hid) (by simp [RunPhase.run?]) (hlogs.statuses id) (hlogs.trails id hid)
  | @read id' _ _ hstored hsame =>
    by_cases hid : id = id'
    · subst hid
      exact (hagrees id).read hi hstored hsame
    · exact hframe id (by simp [RunPhase.run?]) (hne hid) (hsame.statuses id) (hsame.trails id)
  | @cancel id' _ _ hsets =>
    by_cases hid : id = id'
    · subst hid
      exact (hagrees id).cancel hi hsets
    · exact hframe id (hne hid) (hne hid) (hsets.statuses id hid) (hsets.trails id)
  | @cancelled id' _ _ hcancelled =>
    have hlogs := hcancelled server.shared hs.2
    by_cases hid : id = id'
    · subst hid
      exact (hagrees id).logCancelled hi hlogs
    · exact hframe id (hne hid) (by simp [RunPhase.run?]) (hlogs.statuses id) (hlogs.trails id hid)
  | @claim id' _ _ hqueued hsets =>
    by_cases hid : id = id'
    · subst hid
      exact .claim hi hsets
    · exact hframe id (by simp [RunPhase.run?]) (hne hid) (hsets.statuses id hid) (hsets.trails id)
  | @record id' _ _ _ hlogs =>
    by_cases hid : id = id'
    · subst hid
      rw [set_self hi]
      exact (hagrees id).record hi hlogs
    · exact hframe id (hne hid) (hne hid) (hlogs.statuses id) (hlogs.trails id hid)
  | @outcome id' _ _ _ hlogs =>
    by_cases hid : id = id'
    · subst hid
      exact (hagrees id).outcome hi hlogs
    · exact hframe id (hne hid) (hne hid) (hlogs.statuses id) (hlogs.trails id hid)
  | @finish id' outcome _ _ hfinish =>
    have hsets := hfinish (h.stored hi id' rfl)
    by_cases hid : id = id'
    · subst hid
      exact (hagrees id).finish hi hsets (h.of_mayFinish hs ((hintime _ ht).2 id outcome rfl))
    · exact hframe id (hne hid) (by simp [RunPhase.run?]) (hsets.statuses id hid) (hsets.trails id)

/-- A new request or tick owes nothing yet. -/
theorem AgreesAt.spawn {s : Stores} (h : AgreesAt phases s id) :
    AgreesAt (phases ++ [.free]) s id := by
  have hmem : ∀ ph : RunPhase, ph ≠ .free → (ph ∈ phases ++ [.free] ↔ ph ∈ phases) := by
    intro ph hne
    simp [hne]
  have hquiesced : Quiesced (phases ++ [.free]) id → Quiesced phases id := fun hq =>
    ⟨fun hw => hq.1 (List.mem_append_left _ hw), fun hw => hq.2.1 (List.mem_append_left _ hw),
      fun outcome hw => hq.2.2 outcome (List.mem_append_left _ hw)⟩
  refine ⟨?_, ?_, ?_, ?_⟩
  · intro ph hph hrun
    refine h.stored ph ((hmem ph ?_).mp hph) hrun
    rintro rfl
    cases hrun
  · exact fun hq hcancelling => h.cancelled (hquiesced hq) ((hmem _ (by simp)).mp hcancelling)
  · exact fun hq hcancelling hstarting => h.settled (hquiesced hq)
      (fun hw => hcancelling (List.mem_append_left _ hw))
      fun hw => hstarting (List.mem_append_left _ hw)
  · exact fun hrunning => (h.held hrunning).imp_right (List.mem_append_left _)

/-- **What one step keeps.** -/
theorem Telling.step (h : Telling host phases server) {e : RunEvent} (hproper : Proper server e)
    (hintime : InTime server e) :
    ∃ phases', Telling host phases' (server.step toUpperCase host e) := by
  have hend : ∀ {α : Type} {t : Task Stores RunPoint α} {fin : RunPhase → α → Prop},
      (∀ phase a, fin phase a → phase = .free) → t.Follows (Ready host) (TidyOp host) fin .free →
      Tells host .free (do let _ ← t : Task Stores RunPoint Unit) := fun hfin ht =>
    Task.Follows.bind ht fun phase a ha => hfin phase a ha
  have hspawn : ∀ {t : Task Stores RunPoint Unit}, Tells host .free t →
      ∃ phase, Tells host phase t ∧ Agreeing host (phases ++ [phase]) server.shared := fun ht =>
    ⟨.free, ht, h.2.1, fun id => (h.2.2 id).spawn⟩
  refine h.1.step (J := Agreeing host) h.2 ?_ ?_ ?_ ?_
  · intro i hi
    cases e with
    | resume j => exact ⟨h.2.1, hproper.1⟩
    | start ctx input => cases hi
    | cancel ctx id => cases hi
    | tick o => cases hi
    | others audit bundles clock idCounter => cases hi
  · intro i phase phase' point update next hi ht hphase hop _
    cases e with
    | resume j =>
      cases hi
      exact h.operation ⟨h.2.1, hproper.1⟩ ht hphase hop hproper hintime
    | start ctx input => cases hi
    | cancel ctx id => cases hi
    | tick o => cases hi
    | others audit bundles clock idCounter => cases hi
  · intro t ht
    cases e with
    | start ctx input =>
      cases ht
      exact hspawn (hend (fun _ _ h => h) (tells_postRun toUpperCase hproper.1 hproper.2 input))
    | cancel ctx id =>
      cases ht
      exact hspawn (hend (fun _ _ h => h) (tells_cancelRun hproper.1 hproper.2 id))
    | tick o =>
      cases ht
      exact hspawn (hend (fun _ _ hdone => hdone.1) (ticks_tick hproper))
    | resume i => cases ht
    | others audit bundles clock idCounter => cases ht
  · intro update hupdate
    cases e with
    | others audit bundles clock idCounter =>
      cases hupdate
      obtain ⟨more, hmore, hnone⟩ := hproper
      have hsame : Same server.shared ⟨audit, server.shared.runs, bundles, clock, idCounter⟩ :=
        ⟨fun _ => rfl, fun id => lifecycle_of_append hmore hnone id⟩
      exact ⟨h.2.1.of_eq rfl, fun id => (h.2.2 id).same hsame⟩
    | start ctx input => cases hupdate
    | cancel ctx id => cases hupdate
    | tick o => cases hupdate
    | resume i => cases hupdate

/-- A server that has just started. -/
theorem telling_start (host : JsVal → Except JsError JsString) (clock : TimeValue) :
    Telling host [] (RunServer.start clock) := by
  refine ⟨.nil, ⟨⟨List.nodup_nil, List.forall_mem_nil _⟩, ?_⟩, fun id => ⟨?_, ?_, ?_, ?_⟩⟩
  · exact fun id r hr => by cases hr
  · exact fun phase hphase => absurd hphase List.not_mem_nil
  · exact fun _ hphase => absurd hphase List.not_mem_nil
  · exact fun _ _ _ status hstatus => by cases hstatus
  · exact fun hrunning => absurd hrunning List.not_mem_nil

/-- A whole run. -/
theorem Telling.run (h : Telling host phases server) {events : List RunEvent}
    (hevents : ∀ past e later, events = past ++ e :: later →
      Proper (server.run toUpperCase host past) e ∧ InTime (server.run toUpperCase host past) e) :
    ∃ phases', Telling host phases' (server.run toUpperCase host events) := by
  induction events generalizing server phases with
  | nil => exact ⟨phases, h⟩
  | cons e events ih =>
    obtain ⟨hproper, hintime⟩ := hevents [] e events rfl
    obtain ⟨phases', h'⟩ := h.step hproper hintime
    refine ih h' fun past e' later heq => ?_
    exact hevents (e :: past) e' later (congrArg (e :: ·) heq)

/-- Whether every request and every tick is done. -/
def AllDone (server : RunServer) : Prop := ∀ t ∈ server.tasks, t.point = none

/-- The status of every stored run is the one that the last of its lifecycle entries names. -/
def Agree (server : RunServer) : Prop :=
  ∀ id r, server.shared.runs.lookup id = some r →
    (lifecycle server.shared.audit id).getLast? = some r.status

/-- Where every task is done the two records agree. -/
theorem Telling.agree (h : Telling host phases server) (hdone : AllDone server) : Agree server := by
  have hfree : ∀ phase ∈ phases, phase = .free := by
    intro phase hphase
    obtain ⟨i, hi⟩ := List.getElem?_of_mem hphase
    obtain ⟨t, ht, hfollows⟩ := h.1.exists_task hi
    cases t with
    | done a => exact hfollows
    | call point update next =>
      have hpoint := hdone _ (List.mem_of_getElem? ht)
      cases hpoint
  have hnot : ∀ ph : RunPhase, ph ≠ .free → ph ∉ phases := fun ph hne hmem => hne (hfree ph hmem)
  intro id r hr
  refine (h.2.2 id).settled ⟨hnot _ (by simp), hnot _ (by simp), fun _ => hnot _ (by simp)⟩
    (hnot _ (by simp)) (hnot _ (by simp)) r.status ?_
  rw [statusOf, hr]
  rfl

/-- **The run store and the audit trail tell the same story** in every run whose steps are in time:
whenever all requests and ticks are done, they agree. -/
theorem stores_agree (toUpperCase : JsString → JsString)
    (host : JsVal → Except JsError JsString) (clock : TimeValue) (events : List RunEvent)
    (hevents : ∀ past e later, events = past ++ e :: later →
      Proper ((RunServer.start clock).run toUpperCase host past) e ∧
        InTime ((RunServer.start clock).run toUpperCase host past) e) :
    ∀ past later, events = past ++ later →
      AllDone ((RunServer.start clock).run toUpperCase host past) →
      Agree ((RunServer.start clock).run toUpperCase host past) := by
  rintro past later rfl hdone
  obtain ⟨phases, h⟩ := @Telling.run toUpperCase host _ _ (telling_start host clock) past
    fun before e after heq => hevents before e (after ++ later) (by rw [heq]; simp)
  exact h.agree hdone

end runs

/-! ## Overlapping changes -/

section examples

variable {toUpperCase : JsString → JsString} {host : JsVal → Except JsError JsString}
  {run : RunRecord} {s : Stores} {ctx : TenantContext} {event : AuditEvent}
  {t : Task Stores RunPoint Unit}

/-- A task records an event and is done. -/
def RecordsLast (ctx : TenantContext) (event : AuditEvent) (t : Task Stores RunPoint Unit) : Prop :=
  ∃ next, t = .call .append (fun s => (s.append ctx event).2) next ∧ ∀ s, next s = .done ()

/-- Its last step. -/
theorem RecordsLast.resume (h : RecordsLast ctx event t) (s : Stores) :
    t.resume s = (.done (), (s.append ctx event).2) := by
  obtain ⟨next, rfl, hnext⟩ := h
  rw [Task.resume, hnext]

/-- It waits to append. -/
theorem RecordsLast.point (h : RecordsLast ctx event t) : t.point = some .append := by
  obtain ⟨next, rfl, -⟩ := h
  rfl

/-- A request that records an event and then only answers. -/
theorem recordsLast_append {k : Except JsError AuditEntry → Task Stores RunPoint RunResponse}
    (hk : ∀ r, ∃ a, k r = pure a) :
    RecordsLast ctx event (do let _ ← (appendEvent ctx event >>= k)) := by
  refine ⟨_, rfl, fun s => ?_⟩
  obtain ⟨a, ha⟩ := hk (s.append ctx event).1
  change (k (s.append ctx event).1).bind _ = _
  rw [ha]
  rfl

/-- The event that the first run has started. -/
def firstEvent (run : RunRecord) : AuditEvent :=
  ⟨js "run.started", some run.id, some (startedPayload plainInput).toObject, none⟩

/-- The event that the first run is called off. -/
def cancelEvent (run : RunRecord) : AuditEvent := ⟨js "run.cancelled", some run.id, none, none⟩

/-- The events are taken. -/
theorem accepts_firstEvent (run : RunRecord) : Accepts runUser (firstEvent run) :=
  ⟨by simp [firstEvent], by simp [runUser], by simp [runUser], by simp [firstEvent],
    (startedPayload plainInput).isJson_toJs⟩

/-- The events are taken. -/
theorem accepts_cancelEvent (run : RunRecord) : Accepts runUser (cancelEvent run) :=
  ⟨by simp [cancelEvent], by simp [runUser], by simp [runUser], by simp [cancelEvent],
    JsVal.isJson_obj.mpr ⟨List.nodup_nil, List.forall_mem_nil _⟩⟩

/-- An append makes the log one entry longer. -/
theorem size_append (h : Accepts ctx event) (hsize : s.audit.size < 2 ^ 53) :
    (s.append ctx event).2.audit.size = s.audit.size + 1 := by
  obtain ⟨entry, happend, -⟩ := h.append hsize
  rw [happend]
  exact List.length_append

/-- The first run is stored, and its first entry is owed. -/
theorem run_firstEvents
    (hsubmit : (submit toUpperCase runUser plainInput startStores).1 = .created run)
    (hs : (submit toUpperCase runUser plainInput startStores).2 = firstStores run) :
    ∃ started, RecordsLast runUser (firstEvent run) started ∧
      (RunServer.start epoch).run toUpperCase host [.start runUser plainInput, .resume 0] =
        ⟨firstStores run, [started]⟩ := by
  have hpost : ∃ started, RecordsLast runUser (firstEvent run) started ∧
      (do let _ ← postRun toUpperCase runUser plainInput :
        Task Stores RunPoint Unit).resume startStores = (started, firstStores run) := by
    rw [postRun, if_neg writes_runUser, Task.bind_assoc, Task.resume_await_bind, hsubmit, hs]
    refine ⟨_, ?_, rfl⟩
    apply recordsLast_append
    intro r
    cases r <;> exact ⟨_, rfl⟩
  obtain ⟨started, hstarted, hpost⟩ := hpost
  refine ⟨started, hstarted, ?_⟩
  change Pool.step ⟨startStores, [do let _ ← postRun toUpperCase runUser plainInput]⟩
    (.resume 0) = _
  rw [Pool.step_resume rfl, hpost]
  rfl

/-- A cancel request that has read the run is about to write over it, and then owes its entry. -/
theorem resume_cancelRun (hget : InMemoryRunStore.get runUser firstId s.runs = some run) :
    ∃ next, (do let _ ← cancelRun runUser firstId : Task Stores RunPoint Unit).resume s =
        (.call (.setStatus firstId .cancelled) (writeCancelled run) next, s) ∧
      ∀ u, RecordsLast runUser (cancelEvent run) (next u) := by
  rw [cancelRun, if_neg writes_runUser, Task.bind_assoc, resume_setStatus hget]
  refine ⟨_, rfl, fun u => ?_⟩
  apply recordsLast_append
  intro r
  cases r <;> exact ⟨_, rfl⟩

/-- The system is given what it should be where a task is resumed that does not store a run. -/
theorem proper_resume {server : RunServer} {i : ℕ} {point : RunPoint}
    (hi : server.tasks[i]? = some t) (hpoint : t.point = some point) (hne : point ≠ .submit)
    (hsize : server.shared.audit.size < 2 ^ 53) : Proper server (.resume i) := by
  refine ⟨hsize, ?_⟩
  rintro ⟨t', hi', hpoint'⟩
  rw [hi, Option.some.injEq] at hi'
  rw [← hi', hpoint, Option.some.injEq] at hpoint'
  exact absurd hpoint' hne

/-- The first log is empty. -/
theorem size_firstStores (run : RunRecord) : (firstStores run).audit.size < 2 ^ 53 := by
  have hsize : (firstStores run).audit.size = 0 := rfl
  rw [hsize]
  norm_num

/-- Callers have a name and a tenant. -/
theorem named_runUser : runUser.actor ≠ [] ∧ runUser.tenantId ≠ [] := by simp [runUser]

/-- The first identifier is fresh. -/
theorem proper_submit : Proper ((RunServer.start epoch).run toUpperCase host
    [.start runUser plainInput]) (.resume 0) := by
  refine ⟨?_, fun _ => rfl⟩
  have hsize : startStores.audit.size = 0 := rfl
  change startStores.audit.size < 2 ^ 53
  rw [hsize]
  norm_num

/-- Storing the first run adds no entry. -/
theorem inTime_submit (hs : (submit toUpperCase runUser plainInput startStores).2 = firstStores run) :
    InTime ((RunServer.start epoch).run toUpperCase host [.start runUser plainInput])
      (.resume 0) := by
  rintro t ⟨⟩
  have hpost : ∃ next, (do let _ ← postRun toUpperCase runUser plainInput :
      Task Stores RunPoint Unit) =
        .call .submit (fun s => (submit toUpperCase runUser plainInput s).2) next := by
    rw [postRun, if_neg writes_runUser]
    exact ⟨_, rfl⟩
  obtain ⟨next, hpost⟩ := hpost
  rw [hpost]
  refine ⟨fun id hadds => ?_, fun id outcome hpoint => ?_⟩
  · obtain ⟨_, _, _, heq, hadds⟩ := hadds
    cases heq
    have hadded := hadds startStores (by simp [startStores, AuditLog.size, AuditLog.new])
    dsimp only at hadded
    rw [hs] at hadded
    exact absurd hadded not_added
  · cases hpoint

/-- The first entry may be added while the run is queued. -/
theorem inTime_first {started : Task Stores RunPoint Unit} {events : List RunEvent}
    (hstarted : RecordsLast runUser (firstEvent run) started) (hid : run.id = firstId)
    (hqueued : run.status = .queued)
    (hrun : (RunServer.start epoch).run toUpperCase host events = ⟨firstStores run, [started]⟩) :
    InTime ((RunServer.start epoch).run toUpperCase host events) (.resume 0) := by
  rw [hrun]
  rintro t ⟨⟩
  refine ⟨fun id hadds => .inl ?_, fun id outcome hpoint => ?_⟩
  · obtain ⟨_, _, _, heq, hadds⟩ := hadds
    obtain ⟨next, rfl, -⟩ := hstarted
    cases heq
    have hsize := size_firstStores run
    have hlogs : Logs firstId .queued (firstStores run) _ :=
      Logs.append (accepts_firstEvent run) hsize (by simp [firstEvent, lifecycleStatus])
        (congrArg some hid)
    have hfirst : id = firstId := by
      by_contra hne
      have hadded := hadds (firstStores run) hsize
      rw [hlogs.trails id hne] at hadded
      exact not_added hadded
    rw [hfirst, statusOf, lookup_firstStores, ← hqueued]
    rfl
  · rw [hstarted.point] at hpoint
    cases hpoint

/-- A run that is started, and nothing else. -/
theorem stores_agree_started : ∃ r,
    ((RunServer.start epoch).run id (fun _ => .ok [])
      [.start runUser plainInput, .resume 0, .resume 0]).shared.runs.lookup firstId = some r ∧
    (lifecycle ((RunServer.start epoch).run id (fun _ => .ok [])
      [.start runUser plainInput, .resume 0, .resume 0]).shared.audit firstId).getLast? =
        some r.status := by
  obtain ⟨run, hsubmit, hs, hid, -, hqueued, -⟩ := exists_firstRun id
  obtain ⟨started, hstarted, hfirst⟩ := @run_firstEvents id (fun _ => .ok []) run hsubmit hs
  have hlast : (RunServer.start epoch).run id (fun _ => .ok [])
      [.start runUser plainInput, .resume 0, .resume 0] =
        ⟨((firstStores run).append runUser (firstEvent run)).2, [.done ()]⟩ := by
    change ((RunServer.start epoch).run id (fun _ => .ok [])
      [.start runUser plainInput, .resume 0]).step id (fun _ => .ok []) (.resume 0) = _
    rw [hfirst]
    refine (Pool.step_resume rfl).trans ?_
    rw [hstarted.resume]
    rfl
  have hevents : ∀ past e later,
      [RunEvent.start runUser plainInput, .resume 0, .resume 0] = past ++ e :: later →
        Proper ((RunServer.start epoch).run id (fun _ => .ok []) past) e ∧
          InTime ((RunServer.start epoch).run id (fun _ => .ok []) past) e := by
    refine forall_steps_cons ⟨named_runUser, trivial⟩ (forall_steps_cons
      ⟨proper_submit, inTime_submit hs⟩ (forall_steps_cons ⟨?_, ?_⟩
        fun _ _ _ h => absurd h (by simp)))
    · rw [hfirst]
      exact proper_resume rfl hstarted.point (by simp) (size_firstStores run)
    · exact inTime_first hstarted hid hqueued hfirst
  have hagree := stores_agree id (fun _ => .ok []) epoch _ hevents
    [.start runUser plainInput, .resume 0, .resume 0] [] rfl
  rw [hlast] at hagree ⊢
  have hlookup : ((firstStores run).append runUser (firstEvent run)).2.runs.lookup firstId =
      some run := lookup_firstStores run
  exact ⟨run, hlookup, hagree (by simp [AllDone, Task.point]) firstId run hlookup⟩

/-- **A run that is called off before its first entry is added**: its status is that of the cancel
request, and the last entry of its trail says that it has started. -/
theorem stores_disagree : ¬ ∀ (toUpperCase : JsString → JsString)
    (host : JsVal → Except JsError JsString) (clock : TimeValue) (events : List RunEvent),
    (∀ past e later, events = past ++ e :: later →
      Proper ((RunServer.start clock).run toUpperCase host past) e) →
    ∀ past later, events = past ++ later →
      AllDone ((RunServer.start clock).run toUpperCase host past) →
      Agree ((RunServer.start clock).run toUpperCase host past) := by
  intro hall
  obtain ⟨run, hsubmit, hs, hid, htenant, hqueued, -⟩ := exists_firstRun id
  obtain ⟨started, hstarted, hfirst⟩ := @run_firstEvents id (fun _ => .ok []) run hsubmit hs
  have hget : InMemoryRunStore.get runUser firstId (firstStores run).runs = some run := by
    rw [InMemoryRunStore.get, lookup_firstStores, Option.filter_some, if_pos]
    exact decide_eq_true htenant
  obtain ⟨next, hread, hcancel⟩ := resume_cancelRun hget
  -- the cancel request reads, writes and adds its entry; only then the first entry is added
  have hread : (RunServer.start epoch).run id (fun _ => .ok [])
      [.start runUser plainInput, .resume 0, .cancel runUser firstId, .resume 1] =
        ⟨firstStores run, [started,
          .call (.setStatus firstId .cancelled) (writeCancelled run) next]⟩ := by
    change ((RunServer.start epoch).run id (fun _ => .ok [])
      [.start runUser plainInput, .resume 0]).run id (fun _ => .ok [])
        [.cancel runUser firstId, .resume 1] = _
    rw [hfirst]
    change Pool.step ⟨firstStores run, [started, do let _ ← cancelRun runUser firstId]⟩
      (.resume 1) = _
    rw [Pool.step_resume rfl, hread]
    rfl
  have hwritten : (RunServer.start epoch).run id (fun _ => .ok [])
      [.start runUser plainInput, .resume 0, .cancel runUser firstId, .resume 1, .resume 1] =
        ⟨writeCancelled run (firstStores run), [started, next (firstStores run)]⟩ := by
    change ((RunServer.start epoch).run id (fun _ => .ok [])
      [.start runUser plainInput, .resume 0, .cancel runUser firstId, .resume 1]).step id
        (fun _ => .ok []) (.resume 1) = _
    rw [hread, RunServer.step, RunEvent.toAsync, Pool.step_resume rfl]
    rfl
  have hlogged : (RunServer.start epoch).run id (fun _ => .ok [])
      [.start runUser plainInput, .resume 0, .cancel runUser firstId, .resume 1, .resume 1,
        .resume 1] =
        ⟨((writeCancelled run (firstStores run)).append runUser (cancelEvent run)).2,
          [started, .done ()]⟩ := by
    change ((RunServer.start epoch).run id (fun _ => .ok [])
      [.start runUser plainInput, .resume 0, .cancel runUser firstId, .resume 1, .resume 1]).step id
        (fun _ => .ok []) (.resume 1) = _
    rw [hwritten, RunServer.step, RunEvent.toAsync, Pool.step_resume rfl]
    rw [(hcancel _).resume]
    rfl
  have hlast : (RunServer.start epoch).run id (fun _ => .ok [])
      [.start runUser plainInput, .resume 0, .cancel runUser firstId, .resume 1, .resume 1,
        .resume 1, .resume 0] =
        ⟨(((writeCancelled run (firstStores run)).append runUser (cancelEvent run)).2.append runUser
          (firstEvent run)).2, [.done (), .done ()]⟩ := by
    change ((RunServer.start epoch).run id (fun _ => .ok [])
      [.start runUser plainInput, .resume 0, .cancel runUser firstId, .resume 1, .resume 1,
        .resume 1]).step id (fun _ => .ok []) (.resume 0) = _
    rw [hlogged, RunServer.step, RunEvent.toAsync, Pool.step_resume rfl]
    rw [hstarted.resume]
    rfl
  have hsize : ((writeCancelled run (firstStores run)).append runUser
      (cancelEvent run)).2.audit.size = 1 :=
    size_append (accepts_cancelEvent run) (size_firstStores run)
  have hroom : ((writeCancelled run (firstStores run)).append runUser
      (cancelEvent run)).2.audit.size < 2 ^ 53 := by
    rw [hsize]
    norm_num
  have hagree := hall id (fun _ => .ok []) epoch
    [.start runUser plainInput, .resume 0, .cancel runUser firstId, .resume 1, .resume 1, .resume 1,
      .resume 0] ?_ _ [] (List.append_nil _).symm
  · rw [hlast] at hagree
    have hlookup : (((writeCancelled run (firstStores run)).append runUser
        (cancelEvent run)).2.append runUser (firstEvent run)).2.runs.lookup firstId =
          some (InMemoryRunStore.withStatus run .cancelled (firstStores run).clock) := by
      change (writeCancelled run (firstStores run)).runs.lookup firstId = _
      rw [writeCancelled, lookup_setProp, if_pos rfl]
    have hstory := hagree (by simp [AllDone, Task.point]) firstId _ hlookup
    have hlogs : Logs firstId .queued _ _ := Logs.append (accepts_firstEvent run) hroom
      (by simp [firstEvent, lifecycleStatus]) (congrArg some hid)
    rw [hlogs.added, List.getLast?_concat] at hstory
    cases hstory
  · refine forall_steps_cons named_runUser (forall_steps_cons proper_submit
      (forall_steps_cons named_runUser (forall_steps_cons ?_ (forall_steps_cons ?_
        (forall_steps_cons ?_ (forall_steps_cons ?_ fun _ _ _ h => absurd h (by simp)))))))
    · change Proper (((RunServer.start epoch).run id (fun _ => .ok [])
        [.start runUser plainInput, .resume 0]).step id (fun _ => .ok [])
          (.cancel runUser firstId)) _
      rw [hfirst]
      refine @proper_resume _ _ _ (.get firstId) rfl ?_ (by simp) (size_firstStores run)
      rw [cancelRun, if_neg writes_runUser]
      rfl
    · rw [hread]
      exact @proper_resume _ _ _ (.setStatus firstId .cancelled) rfl rfl (by simp)
        (size_firstStores run)
    · rw [hwritten]
      exact proper_resume rfl (hcancel _).point (by simp) (size_firstStores run)
    · rw [hlogged]
      exact proper_resume rfl hstarted.point (by simp) hroom

end examples

end AgentEval.Api
