import AgentEval.Api.RunRoutes
import AgentEval.Worker.Settled

/-!
# A run that has ended stays as it ended

A server takes requests to start and to cancel runs while workers tick; all of them are resumed in
any order, `await` by `await`. The status of a run is written in four places: `create`, `claimNext`,
the write of `setStatus` and `finish`. None of the last two looks at the status it replaces, and
`setStatus` waits between its read and its write.

* **`terminal_final`**: in a run whose steps all respect the ended runs, no ended run changes its
  status.
* **`terminal_changed`**: without that, a run that has completed is cancelled.
-/

namespace AgentEval.Api

open Js Evidence Store Async Worker

/-! ## The system -/

/-- Whether a status is the last one of a run. -/
def isTerminal : RunStatus → Bool
  | .queued => false
  | .running => false
  | .completed => true
  | .failed => true
  | .cancelled => true

/-- The status of a stored run. -/
def statusOf (s : Stores) (id : JsString) : Option RunStatus := (s.runs.lookup id).map (·.status)

/-- The stores, with the requests and the ticks on their way or done. -/
abbrev RunServer := Pool Stores RunPoint Unit

/-- What can happen next. -/
inductive RunEvent where
  /-- `POST /v1/runs` -/
  | start (ctx : TenantContext) (input : StartRunInput)
  /-- `POST /v1/runs/:id/cancel` -/
  | cancel (ctx : TenantContext) (id : JsString)
  /-- A worker starts a tick. -/
  | tick (o : WorkerOptions)
  /-- A request or a tick is resumed. -/
  | resume (i : ℕ)
  /-- Whatever else is shared changes. -/
  | others (audit : AuditLog) (bundles : List (JsString × BundleRecord)) (clock : TimeValue)
    (idCounter : ℕ)

section

variable (toUpperCase : JsString → JsString) (host : JsVal → Except JsError JsString)

/-- The event as one of the pool. -/
def RunEvent.toAsync : RunEvent → Async.Event Stores RunPoint Unit
  | start ctx input => .spawn do let _ ← postRun toUpperCase ctx input
  | cancel ctx id => .spawn do let _ ← cancelRun ctx id
  | tick o => .spawn do let _ ← (Worker.tick host o).run
  | resume i => .resume i
  | others audit bundles clock idCounter => .other fun s => ⟨audit, s.runs, bundles, clock, idCounter⟩

namespace RunServer

/-- A server that has just started. -/
def start (clock : TimeValue) : RunServer := ⟨⟨.new, [], [], clock, 0⟩, []⟩

/-- One step. -/
def step (server : RunServer) (e : RunEvent) : RunServer :=
  Pool.step server (e.toAsync toUpperCase host)

/-- The server after a list of events. -/
def run (server : RunServer) (events : List RunEvent) : RunServer :=
  events.foldl (step toUpperCase host) server

end RunServer

end

/-- Two lists of events, one after the other. -/
theorem run_append {toUpperCase : JsString → JsString} {host : JsVal → Except JsError JsString}
    {server : RunServer} (events later : List RunEvent) :
    server.run toUpperCase host (events ++ later) =
      (server.run toUpperCase host events).run toUpperCase host later := List.foldl_append

/-- A task that is resumed several times. -/
theorem run_replicate_resume {toUpperCase : JsString → JsString}
    {host : JsVal → Except JsError JsString} (server : RunServer) (n i : ℕ) :
    server.run toUpperCase host (List.replicate n (.resume i)) =
      Pool.run server (List.replicate n (.resume i)) := by
  induction n generalizing server with
  | zero => rfl
  | succ n ih => exact ih (server.step toUpperCase host (.resume i))

/-! ## Writing over a run that has ended -/

/-- Whether a status may be written for a run: the run has not ended, or it has ended so. -/
def MayWrite (s : Stores) (id : JsString) (status : RunStatus) : Prop :=
  ∀ r, s.runs.lookup id = some r → isTerminal r.status = true → r.status = status

/-- Whether the next operation of a task respects the runs that have ended: a new run does not get
the identifier of one, and neither a cancel request nor a worker writes another status for one. -/
def Respects (s : Stores) : RunPoint → Prop
  | .submit => MayWrite s (s.newId (js "run")).1 .queued
  | .setStatus id status => MayWrite s id status
  | .finish id outcome => MayWrite s id outcome.toStatus
  | _ => True

/-- What an operation does to the runs. -/
def Keeps (point : RunPoint) (s s' : Stores) : Prop :=
  InMemoryRunStore.Keyed s'.runs ∧ (Respects s point → ∀ id status, isTerminal status = true →
    statusOf s id = some status → statusOf s' id = some status)

section operations

variable {s s' : Stores} {point : RunPoint} {id : JsString}

/-- An operation that leaves the runs alone. -/
theorem keeps_of_runs_eq (hs : InMemoryRunStore.Keyed s.runs) (h : s'.runs = s.runs) :
    Keeps point s s' := by
  refine ⟨h ▸ hs, fun _ id status _ hstatus => ?_⟩
  rw [statusOf, h]
  exact hstatus

/-- **Storing a record under its identifier** keeps every run that has ended, when the status of the
record may be written. -/
theorem keeps_setProp (hs : InMemoryRunStore.Keyed s.runs) {r : RunRecord} (hid : r.id = id)
    (hruns : s'.runs = setProp s.runs (id, r))
    (hrespects : Respects s point → MayWrite s id r.status) : Keeps point s s' := by
  refine ⟨hruns ▸ hs.setProp hid, fun h id' status hterminal hstatus => ?_⟩
  rw [statusOf, hruns, lookup_setProp]
  split_ifs with hkey
  · subst hkey
    obtain ⟨old, hold, rfl⟩ := Option.map_eq_some_iff.mp hstatus
    exact congrArg some (hrespects h old hold hterminal).symm
  · exact hstatus

/-- A run that keeps its status may be written. -/
theorem mayWrite_self {r : RunRecord} (h : s.runs.lookup id = some r) : MayWrite s id r.status := by
  intro r' hr' _
  rw [h] at hr'
  rw [Option.some.inj hr']

/-- A run that has not ended may be written. -/
theorem mayWrite_of_not_terminal {r : RunRecord} (h : s.runs.lookup id = some r)
    (hr : isTerminal r.status = false) (status : RunStatus) : MayWrite s id status := by
  intro r' hr' hterminal
  rw [h] at hr'
  rw [← Option.some.inj hr', hr] at hterminal
  cases hterminal

end operations

/-! ## What the tasks do -/

section tasks

/-- The runs are stored under their identifiers. -/
def KeyedRuns (s : Stores) : Prop := InMemoryRunStore.Keyed s.runs

variable {s : Stores}

/-- The part of `POST /v1/runs` before its first `await`. -/
theorem keeps_submit (toUpperCase : JsString → JsString) (ctx : TenantContext)
    (input : StartRunInput) (hs : KeyedRuns s) :
    Keeps .submit s (submit toUpperCase ctx input s).2 := by
  rw [submit]
  dsimp only
  split
  · exact keeps_of_runs_eq hs rfl
  · split
    · exact keeps_of_runs_eq hs rfl
    · split
      · exact keeps_of_runs_eq hs rfl
      · exact keeps_setProp hs rfl rfl id

/-- The claim of a run. -/
theorem keeps_claimNext (workerId : JsString) (hs : KeyedRuns s) :
    Keeps .claimNext s (s.claimNext workerId).2 := by
  rw [Stores.claimNext, InMemoryRunStore.claimNext]
  split
  · exact keeps_of_runs_eq hs rfl
  · rename_i next hnext
    obtain ⟨hlookup, hqueued⟩ := hs.lookup_nextQueued hnext
    refine keeps_setProp hs rfl rfl fun _ => mayWrite_of_not_terminal hlookup ?_ _
    rw [hqueued]
    rfl

/-- Recording a machine. -/
theorem keeps_setEnvironment (id : JsString) (environment : PlainObject) (hs : KeyedRuns s) :
    Keeps (.setEnvironment id) s
      { s with runs := InMemoryRunStore.setEnvironment id environment s.runs } := by
  rw [InMemoryRunStore.setEnvironment]
  split
  · exact keeps_of_runs_eq hs rfl
  · rename_i r hr
    have hid : r.id = id := hs.id_of_lookup hr
    have hmay : MayWrite s id r.status := mayWrite_self hr
    refine keeps_setProp hs ?_ rfl fun _ => hmay
    exact hid

/-- Recording an outcome. -/
theorem keeps_finish (id : JsString) (status : Outcome) (reason : Option JsString)
    (hs : KeyedRuns s) : Keeps (.finish id status) s (s.finish id status reason).2 := by
  rw [Stores.finish, InMemoryRunStore.finish]
  split
  · exact keeps_of_runs_eq hs rfl
  · rename_i r hr
    have hid : r.id = id := hs.id_of_lookup hr
    refine keeps_setProp hs ?_ rfl fun h => h
    exact hid

/-- An append. -/
theorem each_appendEvent (ctx : TenantContext) (event : AuditEvent) :
    (appendEvent ctx event).Each KeyedRuns Keeps :=
  Task.Each.await_self fun _ hs => keeps_of_runs_eq hs rfl

/-- The read and the write of `setStatus`. -/
theorem each_setStatus (ctx : TenantContext) (id : JsString) (status : RunStatus) :
    (setStatus ctx id status).Each KeyedRuns Keeps := by
  refine Task.Each.await fun s hs => ⟨keeps_of_runs_eq hs rfl, ?_⟩
  cases hget : InMemoryRunStore.get ctx id s.runs with
  | none => exact trivial
  | some r =>
    -- the write goes over a record that was read under the identifier, however old it is
    have hid : r.id = id := hs.id_of_lookup (Option.eq_some_of_filter_eq_some hget)
    refine Task.Each.await_self fun t ht => keeps_setProp ht ?_ rfl fun h => h
    exact hid

/-- The requests to start a run. -/
theorem each_postRun (toUpperCase : JsString → JsString) (ctx : TenantContext)
    (input : StartRunInput) : (postRun toUpperCase ctx input).Each KeyedRuns Keeps := by
  rw [postRun]
  split
  · exact trivial
  · refine Task.Each.await fun s hs => ⟨keeps_submit toUpperCase ctx input hs, ?_⟩
    split
    · exact trivial
    · exact trivial
    · exact trivial
    · refine Task.Each.bind (each_appendEvent ctx _) fun appended => ?_
      cases appended <;> exact trivial

/-- The requests to cancel a run. -/
theorem each_cancelRun (ctx : TenantContext) (id : JsString) :
    (cancelRun ctx id).Each KeyedRuns Keeps := by
  rw [cancelRun]
  split
  · exact trivial
  · refine Task.Each.bind (each_setStatus ctx id .cancelled) fun run => ?_
    cases run with
    | none => exact trivial
    | some run =>
      refine Task.Each.bind (each_appendEvent ctx _) fun appended => ?_
      cases appended <;> exact trivial

/-- A part of a tick that is a task of its own. -/
theorem each_lift {α : Type} {t : Task Stores RunPoint α} (h : t.Each KeyedRuns Keeps) :
    (ExceptT.lift t : Tick α).run.Each KeyedRuns Keeps :=
  Task.Each.bind h fun _ => trivial

/-- An event about a run. -/
theorem each_record (ctx : TenantContext) (run : RunRecord) (action : JsString)
    (payload : PlainObject) : (record ctx run action payload).run.Each KeyedRuns Keeps :=
  Task.Each.await_self fun _ hs => keeps_of_runs_eq hs rfl

/-- The machine of a run. -/
theorem each_recordEnvironment (o : WorkerOptions) (ctx : TenantContext) (run : RunRecord) :
    (recordEnvironment o ctx run).run.Each KeyedRuns Keeps := by
  rw [recordEnvironment]
  split
  · exact trivial
  · refine Task.Each.bindExcept (Task.Each.await_self fun _ hs => keeps_of_runs_eq hs rfl) ?_
    intro environment
    cases environment with
    | none => exact trivial
    | some environment =>
      refine Task.Each.bindExcept (each_lift ?_) fun _ => ?_
      · exact Task.Each.await_self fun _ hs => keeps_setEnvironment _ _ hs
      · exact Task.Each.bindExcept (each_record ctx run _ _) fun _ => trivial

/-- The last entry and the outcome. -/
theorem each_conclude (ctx : TenantContext) (run : RunRecord) (outcome : Outcome)
    (reason : Option JsString) : (conclude ctx run outcome reason).run.Each KeyedRuns Keeps := by
  refine Task.Each.bindExcept (each_record ctx run _ _) fun _ => ?_
  refine Task.Each.bindExcept (each_lift ?_) fun _ => trivial
  exact Task.Each.await_self fun _ hs => keeps_finish _ _ _ hs

/-- The events the executor reported. -/
theorem each_recordEvents (ctx : TenantContext) (run : RunRecord) (events : List ExecutionEvent) :
    (recordEvents ctx run events).run.Each KeyedRuns Keeps := by
  induction events with
  | nil => exact trivial
  | cons event events ih => exact Task.Each.bindExcept (each_record ctx run _ _) fun _ => ih

/-- The execution of a run. -/
theorem each_executeRun (host : JsVal → Except JsError JsString) (ctx : TenantContext)
    (run : RunRecord) (executor : Executor) :
    (executeRun host ctx run executor).run.Each KeyedRuns Keeps := by
  refine Task.Each.bindExcept (each_lift ?_) fun result => ?_
  · exact Task.Each.await_self fun _ hs => keeps_of_runs_eq hs rfl
  · cases result with
    | error thrown =>
      dsimp only
      split
      · exact trivial
      · exact each_conclude ctx run _ _
    | ok result =>
      exact Task.Each.bindExcept (each_recordEvents ctx run _) fun _ => each_conclude ctx run _ _

/-- The ticks. -/
theorem each_tick (host : JsVal → Except JsError JsString) (o : WorkerOptions) :
    (tick host o).run.Each KeyedRuns Keeps := by
  refine Task.Each.bindExcept (each_lift ?_) fun claimed => ?_
  · exact Task.Each.await_self fun _ hs => keeps_claimNext _ hs
  · cases claimed with
    | none => exact trivial
    | some run =>
      dsimp only [processRun]
      split
      · exact trivial
      · refine Task.Each.bindExcept (each_record _ run _ _) fun _ => ?_
        refine Task.Each.bindExcept (each_recordEnvironment o _ run) fun _ => ?_
        rw [dispatch]
        split
        · exact trivial
        · split
          · exact trivial
          · split
            · exact Task.Each.bindExcept (each_record _ run _ _) fun _ => each_conclude _ run _ _
            · exact each_executeRun host _ run _

end tasks

/-! ## Runs of the system -/

section runs

variable {toUpperCase : JsString → JsString} {host : JsVal → Except JsError JsString}
  {server : RunServer}

/-- The condition on a step: where it resumes a task, the operation that comes next respects the
runs that have ended. -/
def StepRespects (server : RunServer) : RunEvent → Prop
  | .resume i => ∀ point, server.Waits i point → Respects server.shared point
  | _ => True

/-- A step that resumes a task whose next operation is known. -/
theorem stepRespects_resume {i : ℕ} {t : Task Stores RunPoint Unit} {point : RunPoint}
    (hi : server.tasks[i]? = some t) (hpoint : t.point = some point)
    (h : Respects server.shared point) : StepRespects server (.resume i) := by
  rintro point' ⟨t', hi', hpoint'⟩
  rw [hi, Option.some.injEq] at hi'
  rw [← hi', hpoint, Option.some.injEq] at hpoint'
  exact hpoint' ▸ h

/-- The runs are stored under their identifiers, and the tasks do what they do. -/
abbrev Sound (server : RunServer) : Prop := Pool.Each KeyedRuns Keeps server

/-- **What one step keeps.** -/
theorem Sound.step (h : Sound server) (e : RunEvent) :
    Sound (server.step toUpperCase host e) := by
  refine Pool.Each.step h (fun _ _ _ _ hkeeps => hkeeps.1) ?_ ?_
  · intro t ht
    cases e with
    | start ctx input =>
      cases ht
      exact Task.Each.bind (each_postRun toUpperCase ctx input) fun _ => trivial
    | cancel ctx id =>
      cases ht
      exact Task.Each.bind (each_cancelRun ctx id) fun _ => trivial
    | tick o =>
      cases ht
      exact Task.Each.bind (each_tick host o) fun _ => trivial
    | resume i => cases ht
    | others audit bundles clock idCounter => cases ht
  · intro update hupdate
    cases e with
    | others audit bundles clock idCounter =>
      cases hupdate
      exact h.1
    | start ctx input => cases hupdate
    | cancel ctx id => cases hupdate
    | tick o => cases hupdate
    | resume i => cases hupdate

/-- **A step that respects the ended runs** keeps their status. -/
theorem Sound.statusOf_step (h : Sound server) {e : RunEvent} (he : StepRespects server e)
    {id : JsString} {status : RunStatus} (hterminal : isTerminal status = true)
    (hstatus : statusOf server.shared id = some status) :
    statusOf (server.step toUpperCase host e).shared id = some status := by
  cases e with
  | resume i =>
    rcases h.resume i with heq | ⟨point, hwaits, -, hkeeps⟩
    · change statusOf (Pool.step server (.resume i)).shared id = some status
      rw [heq]
      exact hstatus
    · exact hkeeps (he point hwaits) id status hterminal hstatus
  | start ctx input => exact hstatus
  | cancel ctx id => exact hstatus
  | tick o => exact hstatus
  | others audit bundles clock idCounter => exact hstatus

/-- A server that has just started. -/
theorem sound_start (clock : TimeValue) : Sound (RunServer.start clock) :=
  ⟨⟨List.nodup_nil, List.forall_mem_nil _⟩, List.forall_mem_nil _⟩

/-- Every reachable server. -/
theorem Sound.run (h : Sound server) (events : List RunEvent) :
    Sound (server.run toUpperCase host events) := by
  induction events generalizing server with
  | nil => exact h
  | cons e events ih => exact ih (h.step e)

/-- A whole run whose steps respect the ended runs. -/
theorem Sound.statusOf_run (h : Sound server) {events : List RunEvent}
    (hevents : ∀ past e later, events = past ++ e :: later →
      StepRespects (server.run toUpperCase host past) e)
    {id : JsString} {status : RunStatus} (hterminal : isTerminal status = true)
    (hstatus : statusOf server.shared id = some status) :
    statusOf (server.run toUpperCase host events).shared id = some status := by
  induction events generalizing server with
  | nil => exact hstatus
  | cons e events ih =>
    refine ih (h.step e) ?_ (h.statusOf_step (hevents [] e events rfl) hterminal hstatus)
    intro past e' later heq
    exact hevents (e :: past) e' later (congrArg (e :: ·) heq)

/-- **Ended runs stay as they ended**, in every run of the system whose steps respect them. -/
theorem terminal_final (toUpperCase : JsString → JsString)
    (host : JsVal → Except JsError JsString) (clock : TimeValue) (events : List RunEvent)
    (hevents : ∀ past e later, events = past ++ e :: later →
      StepRespects ((RunServer.start clock).run toUpperCase host past) e) :
    ∀ past later, events = past ++ later → ∀ id status, isTerminal status = true →
      statusOf ((RunServer.start clock).run toUpperCase host past).shared id = some status →
      statusOf ((RunServer.start clock).run toUpperCase host events).shared id = some status := by
  rintro past later rfl id status hterminal hstatus
  rw [run_append]
  refine ((sound_start clock).run past).statusOf_run ?_ hterminal hstatus
  rintro before e after rfl
  have hstep := hevents (past ++ before) e after (List.append_assoc ..).symm
  rwa [run_append] at hstep

end runs

section examples

variable {toUpperCase : JsString → JsString} {host : JsVal → Except JsError JsString}

/-- A user who may do everything with runs. -/
def runUser : TenantContext := ⟨js "tenant", js "user", [js "runs:write", heldOutScope]⟩

/-- The scope for writing runs. -/
theorem writes_runUser : ¬ js "runs:write" ∉ runUser.scopes := not_not.mpr (List.mem_cons_self ..)

/-- The identifier of the first run. -/
def firstId : JsString := (startStores.newId (js "run")).1

/-- The first run, once it is stored. -/
theorem exists_firstRun (toUpperCase : JsString → JsString) :
    ∃ run, (submit toUpperCase runUser plainInput startStores).1 = .created run ∧
      (submit toUpperCase runUser plainInput startStores).2 =
        { (startStores.newId (js "run")).2 with runs := [(firstId, run)] } ∧
      run.id = firstId ∧ run.tenantId = js "tenant" ∧ run.status = .queued ∧
      ∀ host, backendOf host run.manifest = .ok (js "model") := by
  have hscope : heldOutScope ∈ runUser.scopes := List.mem_cons_of_mem _ (List.mem_singleton_self _)
  obtain ⟨run, hrun⟩ := exists_submit_plainInput toUpperCase runUser hscope startStores
  obtain ⟨splitHash, -, -, rfl, hs⟩ := submit_created hrun
  exact ⟨_, hrun, hs, rfl, rfl, rfl, fun _ => rfl⟩

/-- A run is started, and a cancel request has read it. -/
def readEvents : List RunEvent :=
  [.start runUser plainInput, .resume 0, .cancel runUser firstId, .resume 1]

/-- The stores with the first run. -/
def firstStores (run : RunRecord) : Stores :=
  { (startStores.newId (js "run")).2 with runs := [(firstId, run)] }

/-- The first run is there. -/
theorem lookup_firstStores (run : RunRecord) :
    (firstStores run).runs.lookup firstId = some run := by
  rw [firstStores, List.lookup_cons, beq_self_eq_true]

/-- The write of a cancel request that has read a run. -/
def writeCancelled (run : RunRecord) (s : Stores) : Stores :=
  { s with runs := setProp s.runs (firstId, InMemoryRunStore.withStatus run .cancelled s.clock) }

/-- A cancel request that reads a run goes on to write over it. -/
theorem resume_setStatus {α : Type} {ctx : TenantContext} {id : JsString} {status : RunStatus}
    {s : Stores} {r : RunRecord} {k : Option RunRecord → Task Stores RunPoint α}
    (hget : InMemoryRunStore.get ctx id s.runs = some r) :
    (setStatus ctx id status >>= k).resume s =
      (Task.await (.setStatus id status) (fun s =>
        let updated := InMemoryRunStore.withStatus r status s.clock
        (some updated, Stores.mk s.audit (setProp s.runs (id, updated)) s.bundles s.clock
          s.idCounter)) >>= k, s) := by
  unfold setStatus
  rw [Task.bind_assoc, Task.resume_await_bind]
  dsimp only
  rw [hget]

/-- The first run is stored. -/
theorem run_startEvents {run : RunRecord}
    (hsubmit : (submit toUpperCase runUser plainInput startStores).2 = firstStores run) :
    ∃ started, (RunServer.start epoch).run toUpperCase host
      [.start runUser plainInput, .resume 0] = ⟨firstStores run, [started]⟩ := by
  have hpost : ∃ started, (do let _ ← postRun toUpperCase runUser plainInput :
      Task Stores RunPoint Unit).resume startStores = (started, firstStores run) := by
    rw [postRun, if_neg writes_runUser]
    exact ⟨_, Prod.ext rfl hsubmit⟩
  obtain ⟨started, hpost⟩ := hpost
  refine ⟨started, ?_⟩
  change Pool.step ⟨startStores, [do let _ ← postRun toUpperCase runUser plainInput]⟩
    (.resume 0) = _
  rw [Pool.step_resume rfl, hpost]
  rfl

/-- The cancel request is about to write over what it has read. -/
theorem run_readEvents {run : RunRecord} {started : Task Stores RunPoint Unit}
    (hfirst : (RunServer.start epoch).run toUpperCase host
      [.start runUser plainInput, .resume 0] = ⟨firstStores run, [started]⟩)
    (htenant : run.tenantId = js "tenant") :
    ∃ next, (RunServer.start epoch).run toUpperCase host readEvents =
      ⟨firstStores run,
        [started, .call (.setStatus firstId .cancelled) (writeCancelled run) next]⟩ := by
  have hget : InMemoryRunStore.get runUser firstId (firstStores run).runs = some run := by
    rw [InMemoryRunStore.get, lookup_firstStores, Option.filter_some, if_pos]
    exact decide_eq_true htenant
  have hcancel : ∃ next, ((do let _ ← cancelRun runUser firstId :
      Task Stores RunPoint Unit).resume (firstStores run)) =
      (.call (.setStatus firstId .cancelled) (writeCancelled run) next, firstStores run) := by
    rw [cancelRun, if_neg writes_runUser, Task.bind_assoc, resume_setStatus hget]
    exact ⟨_, rfl⟩
  obtain ⟨next, hcancel⟩ := hcancel
  refine ⟨next, ?_⟩
  have hsplit : readEvents = [.start runUser plainInput, .resume 0] ++
      [.cancel runUser firstId, .resume 1] := rfl
  rw [hsplit, run_append, hfirst]
  change Pool.step ⟨firstStores run, [started, do let _ ← cancelRun runUser firstId]⟩
    (.resume 1) = _
  rw [Pool.step_resume rfl, hcancel]
  rfl

/-- The status of a run after the write of the cancel request. -/
theorem statusOf_writeCancelled (run : RunRecord) (s : Stores) :
    statusOf (writeCancelled run s) firstId = some .cancelled := by
  rw [statusOf, writeCancelled, lookup_setProp, if_pos rfl]
  rfl

/-- A run that is cancelled before a worker claims it stays cancelled. -/
theorem terminal_final_cancelled :
    statusOf ((RunServer.start epoch).run id (fun _ => .ok [])
      ((readEvents ++ [.resume 1]) ++ [.cancel runUser firstId])).shared firstId =
        some .cancelled := by
  obtain ⟨run, -, hsubmit, -, htenant, hqueued, -⟩ := exists_firstRun id
  obtain ⟨started, hfirst⟩ := @run_startEvents id (fun _ => .ok []) run hsubmit
  obtain ⟨next, hread⟩ := run_readEvents hfirst htenant
  have hevents : ∀ past e later,
      (readEvents ++ [.resume 1]) ++ [.cancel runUser firstId] = past ++ e :: later →
        StepRespects ((RunServer.start epoch).run id (fun _ => .ok []) past) e := by
    refine forall_steps_cons trivial (forall_steps_cons ?_ (forall_steps_cons trivial
      (forall_steps_cons ?_ (forall_steps_cons ?_ (forall_steps_cons trivial
        fun _ _ _ h => absurd h (by simp))))))
    · refine @stepRespects_resume _ _ _ .submit rfl ?_ ?_
      · rw [postRun, if_neg writes_runUser]
        rfl
      · rintro _ ⟨⟩
    · have hevents : [.start runUser plainInput, .resume 0, .cancel runUser firstId] =
          [.start runUser plainInput, .resume 0] ++ [RunEvent.cancel runUser firstId] := rfl
      rw [hevents, run_append, hfirst]
      refine @stepRespects_resume _ _ _ (.get firstId) rfl ?_ trivial
      rw [cancelRun, if_neg writes_runUser]
      rfl
    · change StepRespects ((RunServer.start epoch).run id (fun _ => .ok []) readEvents) _
      rw [hread]
      refine @stepRespects_resume _ _ _ (.setStatus firstId .cancelled) rfl rfl ?_
      refine mayWrite_of_not_terminal (lookup_firstStores run) ?_ _
      rw [hqueued]
      rfl
  have hcancelled : statusOf ((RunServer.start epoch).run id (fun _ => .ok [])
      (readEvents ++ [.resume 1])).shared firstId = some .cancelled := by
    rw [run_append, hread]
    exact statusOf_writeCancelled run (firstStores run)
  have hfinal := terminal_final id (fun _ => .ok []) epoch _ hevents
    (readEvents ++ [.resume 1]) [.cancel runUser firstId] rfl firstId .cancelled rfl
  apply hfinal
  exact hcancelled

/-- A worker completes the first run. -/
theorem exists_completed {run : RunRecord}
    (hid : run.id = firstId) (htenant : run.tenantId = js "tenant") (hqueued : run.status = .queued)
    (hbackend : backendOf host run.manifest = .ok (js "model")) :
    ∃ r s', (tick host (reporting [])).run.Ends Eq (firstStores run) r s' ∧
      ∃ outcome, statusOf s' firstId = some (Outcome.toStatus outcome) := by
  obtain ⟨claimed, hclaim, hid', htenant', hmanifest⟩ :
      ∃ claimed, ((firstStores run).claimNext (js "worker")).1 = some claimed ∧
        claimed.id = run.id ∧ claimed.tenantId = run.tenantId ∧
        claimed.manifest = run.manifest := by
    have hnext : InMemoryRunStore.nextQueued [(firstId, run)] = some run := by
      simp [InMemoryRunStore.nextQueued, hqueued]
    rw [Stores.claimNext, firstStores, InMemoryRunStore.claimNext, hnext]
    exact ⟨_, rfl, rfl, rfl, rfl⟩
  have hclaimed : backendOf host claimed.manifest = .ok (js "model") := by
    rw [hmanifest]
    exact hbackend
  have hsize : (firstStores run).audit.size = 0 := rfl
  obtain ⟨r, s', h⟩ := @exists_ends_tick (fun s u => s = u ∧ s.audit.size < 2 ^ 32) claimed
    (firstStores run) host (fun u hu => ⟨rfl, hu⟩) [] (by rw [hsize]; decide) hclaim _ hclaimed
  refine ⟨r, s', h.mono fun _ _ hR => hR.1, ?_⟩
  have hquiet : (tick host (reporting [])).run.Ends (Quiet claimed) (firstStores run) r s' :=
    h.mono fun u _ hR => hR.1 ▸ quiet_refl claimed u hR.2
  obtain ⟨u, hu, hprocess⟩ := ends_tick (by rw [hsize]; decide) hclaim hquiet
  have hsettles : Settles host (reporting []) claimed := by
    refine ⟨of_decide_eq_true rfl, ?_, by simp [reporting], _, _, _, hclaimed, rfl, rfl, fun _ =>
      List.forall_mem_nil _⟩
    rw [htenant', htenant]
    simp
  obtain ⟨outcome, stored, -, hstored, hstatus, -, -⟩ :=
    (settled_processRun hprocess hu).mpr hsettles
  rw [hid', hid] at hstored
  exact ⟨outcome, by rw [statusOf, hstored, ← hstatus]; rfl⟩

/-- **A run that has ended is cancelled** by a request that has read it before. -/
theorem terminal_changed : ¬ ∀ (toUpperCase : JsString → JsString)
    (host : JsVal → Except JsError JsString) (clock : TimeValue) (events past later : List RunEvent),
    events = past ++ later → ∀ id status, isTerminal status = true →
      statusOf ((RunServer.start clock).run toUpperCase host past).shared id = some status →
      statusOf ((RunServer.start clock).run toUpperCase host events).shared id = some status := by
  intro hall
  obtain ⟨run, -, hsubmit, hid, htenant, hqueued, hbackend⟩ := exists_firstRun id
  obtain ⟨started, hfirst⟩ := @run_startEvents id (fun _ => .ok []) run hsubmit
  obtain ⟨next, hread⟩ := run_readEvents hfirst htenant
  obtain ⟨r, s', hends, outcome, hcompleted⟩ :=
    exists_completed hid htenant hqueued (hbackend fun _ => .ok [])
  have htask : (do let _ ← (tick (fun _ => .ok []) (reporting [])).run :
      Task Stores RunPoint Unit).Ends Eq (firstStores run) () s' :=
    Task.ends_bind.mpr ⟨r, s', hends, rfl, rfl⟩
  obtain ⟨n, hn⟩ := @Pool.exists_resumes _ _ _ _ _ [started,
    .call (.setStatus firstId .cancelled) (writeCancelled run) next, _] 2 _ rfl _ htask
  have hpast : (RunServer.start epoch).run id (fun _ => .ok [])
      (readEvents ++ .tick (reporting []) :: List.replicate n (.resume 2)) =
      ⟨s', [started, .call (.setStatus firstId .cancelled) (writeCancelled run) next,
        .done ()]⟩ := by
    rw [run_append, hread]
    exact (run_replicate_resume _ n 2).trans hn
  have hchanged := hall id (fun _ => .ok []) epoch _
    (readEvents ++ .tick (reporting []) :: List.replicate n (.resume 2)) [.resume 1] rfl firstId
    outcome.toStatus (by cases outcome <;> rfl) (by rw [hpast]; exact hcompleted)
  rw [run_append, hpast] at hchanged
  have hcancelled := (statusOf_writeCancelled run s').symm.trans hchanged
  cases outcome <;> cases hcancelled

end examples

end AgentEval.Api
