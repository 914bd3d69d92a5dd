import AgentEval.Evidence.Canonical
import AgentEval.Worker.Executors
import AgentEval.Worker.Settled

/-!
# What a tick leaves of a run

A tick is a chain of appends and writes between which anything may happen. What it leaves of the run
it claimed does not depend on any of that: it is a function of the worker and of the run.

* `report host o run` — how the run ends, why, and its trail, or nothing when it stays running.
  **`tick_reports`**: while the rest of the system leaves the run alone, a tick leaves exactly that.
* **`tick_completed_iff`**: with the executors of the source a run is completed exactly when its
  execution was verified and everything it reported could be recorded; the verdict and the end of
  the execution are then the last entries of its trail but one.
* **`tick_refuses`**: a run that asks for a backend this deployment lacks fails with a reason that
  names it, and nothing of an execution is on its trail.
-/

namespace AgentEval.Worker

open Js Evidence Store Async Providers

/-! ## The report -/

/-- What a tick leaves of a run that ends. -/
structure Report where
  /-- How it ended. -/
  outcome : Outcome
  /-- Why. -/
  reason : Option JsString
  /-- What happened to it, since it was claimed. -/
  actions : List JsString

/-- Whether the log takes an event. -/
def ExecutionEvent.recordable (event : ExecutionEvent) : Bool :=
  event.action ≠ [] && (canonicalize event.payload.toJs).toOption.isSome

/-- What the probe of the host adds to the trail; nothing when it throws. -/
def machineActions (o : WorkerOptions) : Option (List JsString) :=
  match o.captureEnvironment with
  | none => some []
  | some (.error _) => none
  | some (.ok none) => some []
  | some (.ok (some _)) => some [js "compute.node.selected"]

/-- What an execution comes to. -/
def executionReport (host : JsVal → Except JsError JsString) (run : RunRecord)
    (executor : Executor) : Option Report :=
  match executor.execute run.id run.manifest ⟨run.tenantId, present run.credentialId⟩ with
  | .error thrown =>
    match thrown.message host with
    | .error _ => none
    | .ok message => some ⟨.failed, some (js "Executor threw: " ++ message), [lastAction .failed]⟩
  | .ok result =>
    if result.events.all ExecutionEvent.recordable then
      some ⟨result.outcome, result.reason,
        result.events.map (·.action) ++ [lastAction result.outcome]⟩
    else none

/-- What choosing an executor comes to. -/
def dispatchReport (host : JsVal → Except JsError JsString) (o : WorkerOptions) (run : RunRecord)
    (backend : JsString) : Option Report :=
  match o.selectExecutor backend with
  | .error _ => none
  | .ok executor =>
    match executor.unavailableReason with
    | .error _ => none
    | .ok blocked =>
      match present blocked with
      | some reason =>
        some ⟨.failed, some reason, [js "execution.unavailable", lastAction .failed]⟩
      | none => executionReport host run executor

/-- The report after some actions. -/
def Report.after (actions : List JsString) (rep : Report) : Report :=
  { rep with actions := actions ++ rep.actions }

/-- What a tick leaves of the run it has claimed. -/
def report (host : JsVal → Except JsError JsString) (o : WorkerOptions) (run : RunRecord) :
    Option Report :=
  if o.workerId = [] ∨ run.tenantId = [] then none
  else
    match backendOf host run.manifest with
    | .error _ => none
    | .ok backend =>
      match machineActions o with
      | none => none
      | some machine =>
        (dispatchReport host o run backend).map (Report.after (js "run.claimed" :: machine))

/-- A run as a report says: its status, its reason and its trail. -/
structure Reported (run : RunRecord) (n : ℕ) (rep : Report) (s : Stores) : Prop where
  stored : ∃ r, s.runs.lookup run.id = some r ∧ r.status = rep.outcome.toStatus ∧
    ∀ reason, rep.reason = some reason → reason ≠ [] → r.failureReason = some reason
  trail_eq : trail run n s.audit = rep.actions

/-! ## The tick reports -/

section parts

variable {host : JsVal → Except JsError JsString} {o : WorkerOptions} {run : RunRecord} {n : ℕ}
  {actions : List JsString} {s s' : Stores}

/-- An event the log takes. -/
theorem recordable_iff {event : ExecutionEvent} (hworker : o.workerId ≠ [])
    (htenant : run.tenantId ≠ []) :
    event.recordable = true ↔
      Accepts (workerContext o run) (runEvent run event.action event.payload) := by
  have hjson : (canonicalize event.payload.toJs).toOption.isSome = true ↔
      event.payload.toJs.jsonForm.IsJson := by
    constructor
    · intro h
      cases htext : canonicalize event.payload.toJs with
      | error e =>
        rw [htext] at h
        cases h
      | ok text => exact ((canonicalize_eq_ok_iff event.payload.wf).mp htext).1
    · intro h
      have htext := (canonicalize_eq_ok_iff event.payload.wf).mpr ⟨h, rfl⟩
      rw [PlainObject.toJs, htext]
      rfl
  rw [ExecutionEvent.recordable, Bool.and_eq_true, hjson, decide_eq_true_iff]
  constructor
  · rintro ⟨haction, hpayload⟩
    exact ⟨haction, hworker, htenant, (Option.some_ne_none none).symm, hpayload⟩
  · intro haccepts
    exact ⟨haccepts.action, haccepts.payload⟩

/-- The last entry and the outcome, with the reason. -/
theorem reported_conclude {outcome : Outcome} {reason : Option JsString} {r : Except Thrown Bool}
    (h : (conclude (workerContext o run) run outcome reason).run.Ends (Quiet run) s r s')
    (hu : Under run n .running actions s) (hworker : o.workerId ≠ [])
    (htenant : run.tenantId ≠ []) :
    Reported run n ⟨outcome, reason, actions ++ [lastAction outcome]⟩ s' := by
  have hname : lastAction outcome ≠ [] := by
    cases outcome <;> simp [lastAction]
  obtain ⟨entry, u, hu', hnext⟩ := ends_record_own h hu hworker htenant hname
  obtain ⟨_, v, ⟨w, hquiet, -, rfl⟩, -, rfl⟩ := Task.ends_bindLift.mp hnext
  refine ⟨?_, ((hu'.finish outcome reason).quiet hquiet).trail_eq⟩
  obtain ⟨old, hold, -⟩ := hu'.stored
  rw [hquiet.lookup_eq]
  dsimp only
  rw [Stores.finish, InMemoryRunStore.finish, hold]
  dsimp only
  rw [lookup_setProp, if_pos rfl]
  refine ⟨_, rfl, rfl, fun text htext hne => ?_⟩
  have hsome : reason = some text := htext
  rw [hsome]
  simp [Option.filter, hne]

/-- The machine of a run: what it adds to the trail, or an error of the probe. -/
theorem reported_recordEnvironment {r : Except Thrown Unit}
    (h : (recordEnvironment o (workerContext o run) run).run.Ends (Quiet run) s r s')
    (hu : Under run n .running actions s) (hworker : o.workerId ≠ [])
    (htenant : run.tenantId ≠ []) :
    (∃ machine, machineActions o = some machine ∧ r = .ok () ∧
        Under run n .running (actions ++ machine) s') ∨
      (machineActions o = none ∧ (∃ e, r = .error e) ∧ Under run n .running actions s') := by
  rw [recordEnvironment] at h
  rw [machineActions]
  cases hprobe : o.captureEnvironment with
  | none =>
    rw [hprobe] at h
    obtain ⟨rfl, rfl⟩ := h
    exact .inl ⟨[], rfl, rfl, by rwa [List.append_nil]⟩
  | some probe =>
    rw [hprobe] at h
    obtain ⟨e, hread, rfl⟩ | ⟨environment, u, hread, hnext⟩ := Task.ends_bindExcept.mp h
    · obtain ⟨rfl, hu'⟩ := ends_read hread hu
      exact .inr ⟨rfl, ⟨e, rfl⟩, hu'⟩
    · obtain ⟨rfl, hu'⟩ := ends_read hread hu
      clear h hread
      cases environment with
      | none =>
        obtain ⟨rfl, rfl⟩ := hnext
        exact .inl ⟨[], rfl, rfl, by rwa [List.append_nil]⟩
      | some environment =>
        have hname : js "compute.node.selected" ≠ [] := by simp
        obtain ⟨_, v, ⟨w, hquiet, -, rfl⟩, hnext⟩ := Task.ends_bindLift.mp hnext
        have hv := (hu'.setEnvironment environment.toPlainObject).quiet hquiet
        obtain ⟨entry, x, hx, rfl, rfl⟩ := ends_record_own hnext hv hworker htenant hname
        exact .inl ⟨_, rfl, rfl, hx⟩

/-- The execution of a run. -/
theorem reported_executeRun {executor : Executor} {r : Except Thrown Bool}
    (h : (executeRun host (workerContext o run) run executor).run.Ends (Quiet run) s r s')
    (hu : Under run n .running actions s) (hworker : o.workerId ≠ [])
    (htenant : run.tenantId ≠ []) :
    (∃ rep, executionReport host run executor = some rep ∧
        Reported run n (rep.after actions) s') ∨
      (executionReport host run executor = none ∧ ∃ actions', Under run n .running actions' s') := by
  obtain ⟨result, u, hread, hnext⟩ := Task.ends_bindLift.mp h
  obtain ⟨hresult, hu'⟩ := ends_read hread hu
  rw [executionReport, ← hresult]
  clear hresult h hread
  cases result with
  | error thrown =>
    dsimp only at hnext ⊢
    cases hmessage : thrown.message host with
    | error e =>
      rw [hmessage] at hnext
      obtain ⟨-, rfl⟩ := hnext
      exact .inr ⟨rfl, _, hu'⟩
    | ok message =>
      rw [hmessage] at hnext
      exact .inl ⟨_, rfl, reported_conclude hnext hu' hworker htenant⟩
  | ok result =>
    dsimp only
    have hall : result.events.all ExecutionEvent.recordable = true ↔ ∀ event ∈ result.events,
        Accepts (workerContext o run) (runEvent run event.action event.payload) := by
      rw [List.all_eq_true]
      exact forall₂_congr fun _ _ => recordable_iff hworker htenant
    obtain ⟨e, hevents, -⟩ | ⟨_, v, hevents, hlast⟩ := Task.ends_bindExcept.mp hnext
    · obtain ⟨-, hok, -⟩ | ⟨hnot, -, _, hs'⟩ := ends_recordEvents hevents hu'
      · cases hok
      · exact .inr ⟨if_neg (mt hall.mp hnot), _, hs'⟩
    · obtain ⟨haccepts, -, hv⟩ | ⟨-, ⟨_, herror⟩, -⟩ := ends_recordEvents hevents hu'
      · have hend := reported_conclude hlast hv hworker htenant
        rw [List.append_assoc] at hend
        exact .inl ⟨_, if_pos (hall.mpr haccepts), hend⟩
      · cases herror

/-- Everything after the machine is known. -/
theorem reported_dispatch {backend : JsString} {r : Except Thrown Bool}
    (h : (dispatch host o (workerContext o run) run backend).run.Ends (Quiet run) s r s')
    (hu : Under run n .running actions s) (hworker : o.workerId ≠ [])
    (htenant : run.tenantId ≠ []) :
    (∃ rep, dispatchReport host o run backend = some rep ∧ Reported run n (rep.after actions) s') ∨
      (dispatchReport host o run backend = none ∧ ∃ actions', Under run n .running actions' s') := by
  rw [dispatch] at h
  rw [dispatchReport]
  cases hselect : o.selectExecutor backend with
  | error thrown =>
    rw [hselect] at h
    obtain ⟨-, rfl⟩ := h
    exact .inr ⟨rfl, _, hu⟩
  | ok executor =>
    rw [hselect] at h
    dsimp only at h ⊢
    cases hblocked : executor.unavailableReason with
    | error thrown =>
      rw [hblocked] at h
      obtain ⟨-, rfl⟩ := h
      exact .inr ⟨rfl, _, hu⟩
    | ok blocked =>
      rw [hblocked] at h
      dsimp only at h ⊢
      cases hreason : present blocked with
      | some reason =>
        rw [hreason] at h
        have hname : js "execution.unavailable" ≠ [] := by simp
        obtain ⟨entry, u, hu', hnext⟩ := ends_record_own h hu hworker htenant hname
        have hend := reported_conclude hnext hu' hworker htenant
        rw [List.append_assoc] at hend
        exact .inl ⟨_, rfl, hend⟩
      | none =>
        rw [hreason] at h
        exact reported_executeRun h hu hworker htenant

/-- Everything after the claim. -/
theorem reported_processRun {r : Except Thrown Bool}
    (h : (processRun host o run).run.Ends (Quiet run) s r s')
    (hu : Under run n .running [] s) :
    (∃ rep, report host o run = some rep ∧ Reported run n rep s') ∨
      (report host o run = none ∧ ∃ actions', Under run n .running actions' s') := by
  rw [processRun] at h
  rw [report]
  by_cases hnames : o.workerId = [] ∨ run.tenantId = []
  · rw [if_pos hnames]
    have hnot : ∀ backend, ¬ Accepts (workerContext o run)
        (runEvent run (js "run.claimed") (claimedPayload o.workerId backend).toObject) := by
      intro backend haccepts
      rcases hnames with hworker | htenant
      · exact haccepts.actor hworker
      · exact haccepts.tenantId htenant
    cases hbackend : backendOf host run.manifest with
    | error e =>
      rw [hbackend] at h
      obtain ⟨-, rfl⟩ := h
      exact .inr ⟨rfl, _, hu⟩
    | ok backend =>
      rw [hbackend] at h
      obtain ⟨e, hrecord, -⟩ | ⟨entry, u, hrecord, -⟩ := Task.ends_bindExcept.mp h
      · obtain ⟨-, ⟨_, hok⟩, -⟩ | ⟨-, -, hu'⟩ := ends_record hrecord hu
        · cases hok
        · exact .inr ⟨rfl, _, hu'⟩
      · obtain ⟨haccepts, -, -⟩ | ⟨-, ⟨_, herror⟩, -⟩ := ends_record hrecord hu
        · exact absurd haccepts (hnot backend)
        · cases herror
  · rw [if_neg hnames]
    obtain ⟨hworker, htenant⟩ := not_or.mp hnames
    cases hbackend : backendOf host run.manifest with
    | error e =>
      rw [hbackend] at h
      obtain ⟨-, rfl⟩ := h
      exact .inr ⟨rfl, _, hu⟩
    | ok backend =>
      rw [hbackend] at h
      dsimp only at h ⊢
      have hname : js "run.claimed" ≠ [] := by simp
      obtain ⟨entry, u, hu₁, hnext⟩ := ends_record_own h hu hworker htenant hname
      obtain ⟨e, henv, -⟩ | ⟨_, v, henv, hnext⟩ := Task.ends_bindExcept.mp hnext
      · obtain ⟨_, -, hok, -⟩ | ⟨hmachine, -, hu₂⟩ :=
          reported_recordEnvironment henv hu₁ hworker htenant
        · cases hok
        · exact .inr ⟨by rw [hmachine], _, hu₂⟩
      · obtain ⟨machine, hmachine, -, hu₂⟩ | ⟨-, ⟨_, herror⟩, -⟩ :=
          reported_recordEnvironment henv hu₁ hworker htenant
        · rw [hmachine]
          dsimp only
          obtain ⟨rep, hrep, hend⟩ | ⟨hrep, hstays⟩ := reported_dispatch hnext hu₂ hworker htenant
          · exact .inl ⟨_, by rw [hrep]; rfl, hend⟩
          · exact .inr ⟨by rw [hrep]; rfl, hstays⟩
        · cases herror

end parts

/-- **What a tick leaves of the run it claims.** While the rest of the system leaves the run alone,
whatever else happens between its steps, a tick that claims a run and ends, with a result or an
error, leaves it as `report` says, or running when that says nothing. -/
theorem tick_reports (host : JsVal → Except JsError JsString) (o : WorkerOptions) (s : Stores)
    (hsize : s.audit.size < 2 ^ 32) (run : RunRecord)
    (hclaim : (s.claimNext o.workerId).1 = some run) (r : Except Thrown Bool) (s' : Stores)
    (h : (tick host o).run.Ends (Quiet run) s r s') :
    (∃ rep, report host o run = some rep ∧ Reported run s.audit.size rep s') ∨
      (report host o run = none ∧
        ∃ stored, s'.runs.lookup run.id = some stored ∧ stored.status = .running) := by
  obtain ⟨u, hu, hprocess⟩ := ends_tick hsize hclaim h
  obtain hend | ⟨hnone, _, hstays⟩ := reported_processRun hprocess hu
  · exact .inl hend
  · exact .inr ⟨hnone, hstays.stored⟩

/-- The status says the outcome. -/
theorem toStatus_injective : Function.Injective Outcome.toStatus := by
  rintro (_ | _) (_ | _) <;> first | exact fun _ => rfl | exact nofun

/-- A run that ends was claimed in someone's name and says its backend. -/
theorem exists_backend_of_report {host : JsVal → Except JsError JsString} {o : WorkerOptions}
    {run : RunRecord} {rep : Report} (h : report host o run = some rep) :
    o.workerId ≠ [] ∧ run.tenantId ≠ [] ∧ ∃ backend, backendOf host run.manifest = .ok backend := by
  rw [report] at h
  split_ifs at h with hnames
  obtain ⟨hworker, htenant⟩ := not_or.mp hnames
  cases hbackend : backendOf host run.manifest with
  | error e =>
    rw [hbackend] at h
    cases h
  | ok backend => exact ⟨hworker, htenant, backend, rfl⟩

/-! ## The worker of the server -/

section

variable {σ : Type} (host : JsVal → Except JsError JsString) (machine : Machine)
  (options : LocalProcessOptions) (executor : ModelExecutor σ JsString) (c : σ)

/-- The worker of the server, with the credential store in a state. What probes the host catches
what it throws.
Source: `main.ts`, `worker` -/
def mainWorker (workerId : JsString) (environment : Option ExecutionEnvironmentRecord) :
    WorkerOptions where
  workerId := workerId
  selectExecutor := fun backend => .ok (selectExecutor host machine options executor c backend)
  captureEnvironment := some (.ok environment)

/-- What the trail of a run starts with. -/
def opening (environment : Option ExecutionEnvironmentRecord) : List JsString :=
  js "run.claimed" :: environment.toList.map fun _ => js "compute.node.selected"

variable {host machine options executor c} {workerId : JsString}
  {environment : Option ExecutionEnvironmentRecord} {run : RunRecord}

/-- The report on a run that can be claimed in someone's name. -/
theorem report_mainWorker (hworker : workerId ≠ []) (htenant : run.tenantId ≠ [])
    {backend : JsString} (hbackend : backendOf host run.manifest = .ok backend) :
    report host (mainWorker host machine options executor c workerId environment) run =
      (dispatchReport host (mainWorker host machine options executor c workerId environment) run
        backend).map (Report.after (opening environment)) := by
  have hmachine : machineActions (mainWorker host machine options executor c workerId environment) =
      some (environment.toList.map fun _ => js "compute.node.selected") := by
    cases environment <;> rfl
  have hnames : ¬ ((mainWorker host machine options executor c workerId environment).workerId = [] ∨
      run.tenantId = []) := by
    rintro (h | h)
    · exact hworker h
    · exact htenant h
  rw [report, if_neg hnames, hbackend]
  dsimp only
  rw [hmachine]
  rfl

/-- An executor whose execution is verified can run. -/
theorem unavailableReason_of_verified {requested runId : JsString} {manifest : PlainObject}
    {context : RunContext} {events : List ExecutionEvent}
    (h : Verified machine options executor c requested runId manifest context events) :
    (selectExecutor host machine options executor c requested).unavailableReason = .ok none := by
  rw [selectExecutor]
  cases h with
  | process p hasked henabled =>
    have hmodel : requested ≠ js "model" := by
      rintro rfl
      exact absurd hasked (by decide)
    rw [if_neg hmodel, if_pos hasked, localProcessExecutor, LocalProcessOptions.unavailableReason,
      if_pos henabled]
  | model r hasked henabled =>
    rw [if_pos hasked, modelExecutor, ModelExecutor.unavailableReason, if_pos henabled]

/-- **What choosing an executor may come to**: a refusal, something thrown, or a result that can be
recorded. -/
theorem dispatchReport_cases {backend : JsString} {rep : Report}
    (h : dispatchReport host (mainWorker host machine options executor c workerId environment) run
      backend = some rep) :
    (∃ reason, rep = ⟨.failed, some reason, [js "execution.unavailable", js "run.failed"]⟩) ∨
      (∃ reason, rep = ⟨.failed, some reason, [js "run.failed"]⟩) ∨
      ∃ result, (selectExecutor host machine options executor c backend).execute run.id run.manifest
          ⟨run.tenantId, present run.credentialId⟩ = .ok result ∧
        (∀ event ∈ result.events, event.recordable = true) ∧
        rep = ⟨result.outcome, result.reason,
          result.events.map (·.action) ++ [lastAction result.outcome]⟩ := by
  rw [dispatchReport, mainWorker] at h
  dsimp only at h
  cases hblocked : (selectExecutor host machine options executor c backend).unavailableReason with
  | error e =>
    rw [hblocked] at h
    cases h
  | ok blocked =>
    rw [hblocked] at h
    dsimp only at h
    cases hpresent : present blocked with
    | some reason =>
      rw [hpresent] at h
      exact .inl ⟨reason, (Option.some.inj h).symm⟩
    | none =>
      rw [hpresent] at h
      dsimp only at h
      rw [executionReport] at h
      cases hexec : (selectExecutor host machine options executor c backend).execute run.id
        run.manifest ⟨run.tenantId, present run.credentialId⟩ with
      | error thrown =>
        rw [hexec] at h
        dsimp only at h
        cases hmessage : thrown.message host with
        | error e =>
          rw [hmessage] at h
          cases h
        | ok message =>
          rw [hmessage] at h
          exact .inr (.inl ⟨_, (Option.some.inj h).symm⟩)
      | ok result =>
        rw [hexec] at h
        dsimp only at h
        split_ifs at h with hall
        exact .inr (.inr ⟨result, rfl, List.all_eq_true.mp hall, (Option.some.inj h).symm⟩)

/-- **The report on a run that completes**: its execution was verified, and all it reported could be
recorded. -/
theorem report_completed_iff {rep : Report} :
    report host (mainWorker host machine options executor c workerId environment) run = some rep ∧
        rep.outcome = .completed ↔
      workerId ≠ [] ∧ run.tenantId ≠ [] ∧ ∃ backend events,
        backendOf host run.manifest = .ok backend ∧
        Verified machine options executor c backend run.id run.manifest
          ⟨run.tenantId, present run.credentialId⟩ events ∧
        (∀ event ∈ events, event.recordable = true) ∧
        rep = ⟨.completed, none,
          opening environment ++ (events.map (·.action) ++ [js "run.completed"])⟩ := by
  constructor
  · rintro ⟨hrep, houtcome⟩
    obtain ⟨hworker, htenant, backend, hbackend⟩ := exists_backend_of_report hrep
    replace hworker : workerId ≠ [] := hworker
    refine ⟨hworker, htenant, ?_⟩
    rw [report_mainWorker hworker htenant hbackend] at hrep
    obtain ⟨rep', hdispatch, rfl⟩ := Option.map_eq_some_iff.mp hrep
    have houtcome' : rep'.outcome = .completed := houtcome
    obtain ⟨reason, rfl⟩ | ⟨reason, rfl⟩ | ⟨⟨outcome, reason, events⟩, hexec, hall, rfl⟩ :=
      dispatchReport_cases hdispatch
    · cases houtcome'
    · cases houtcome'
    · obtain rfl : outcome = .completed := houtcome'
      obtain ⟨rfl, hverified⟩ := execute_completed_iff.mp hexec
      exact ⟨backend, events, hbackend, hverified, hall, rfl⟩
  · rintro ⟨hworker, htenant, backend, events, hbackend, hverified, hall, rfl⟩
    refine ⟨?_, rfl⟩
    have hexec : (selectExecutor host machine options executor c backend).execute run.id run.manifest
        ⟨run.tenantId, present run.credentialId⟩ = .ok ⟨.completed, none, events⟩ :=
      execute_completed_iff.mpr ⟨rfl, hverified⟩
    rw [report_mainWorker hworker htenant hbackend, dispatchReport, mainWorker]
    dsimp only
    rw [unavailableReason_of_verified hverified]
    dsimp only
    rw [show present none = none from rfl]
    dsimp only
    rw [executionReport, hexec]
    dsimp only
    rw [if_pos (List.all_eq_true.mpr hall)]
    rfl

/-- A run that fails has no completed execution on its trail. -/
theorem notMem_of_failed {rep : Report}
    (h : report host (mainWorker host machine options executor c workerId environment) run =
      some rep) (hfailed : rep.outcome = .failed) : js "execution.completed" ∉ rep.actions := by
  have hopening : js "execution.completed" ∉ opening environment := by
    cases environment <;> simp [opening]
  obtain ⟨hworker, htenant, backend, hbackend⟩ := exists_backend_of_report h
  replace hworker : workerId ≠ [] := hworker
  rw [report_mainWorker hworker htenant hbackend] at h
  obtain ⟨rep', hdispatch, rfl⟩ := Option.map_eq_some_iff.mp h
  refine List.mem_append.not.mpr (not_or.mpr ⟨hopening, ?_⟩)
  obtain ⟨reason, rfl⟩ | ⟨reason, rfl⟩ | ⟨result, hexec, -, rfl⟩ := dispatchReport_cases hdispatch
  · simp
  · simp
  · have hfailed' : result.outcome = .failed := hfailed
    obtain ⟨hactions, -⟩ := (told_of_execute hexec).failed hfailed'
    dsimp only
    rw [hfailed', List.mem_append, not_or]
    refine ⟨fun hmem => ?_, by simp [lastAction]⟩
    obtain ⟨event, hevent, haction⟩ := List.mem_map.mp hmem
    have hkind := hactions event hevent
    rw [haction] at hkind
    simp [executionActions] at hkind

/-- Why nothing is executed, when nothing is.
Source: `executor.ts`, `selectExecutor`, `unavailableReason` -/
def refusal (options : LocalProcessOptions) (executor : ModelExecutor σ JsString)
    (requested : JsString) : Option JsString :=
  if requested = js "model" then executor.unavailableReason
  else if AsksForProcess requested then options.unavailableReason
  else some (notAvailable requested)

/-- A refusal is not blank. -/
theorem refusal_ne_nil {requested reason : JsString}
    (h : refusal options executor requested = some reason) : reason ≠ [] := by
  rw [refusal, ModelExecutor.unavailableReason, LocalProcessOptions.unavailableReason] at h
  split_ifs at h
  · obtain rfl := Option.some.inj h
    simp
  · obtain rfl := Option.some.inj h
    simp
  · obtain rfl := Option.some.inj h
    simp [notAvailable]

/-- **The report on a run that is refused.** -/
theorem report_refused (hworker : workerId ≠ []) (htenant : run.tenantId ≠ [])
    {backend reason : JsString} (hbackend : backendOf host run.manifest = .ok backend)
    (hrefused : refusal options executor backend = some reason) :
    report host (mainWorker host machine options executor c workerId environment) run =
      some ⟨.failed, some reason,
        opening environment ++ [js "execution.unavailable", js "run.failed"]⟩ := by
  have hblocked : (selectExecutor host machine options executor c backend).unavailableReason =
      .ok (some reason) := by
    rw [← hrefused, refusal, selectExecutor]
    split_ifs <;> rfl
  have hpresent : present (some reason) = some reason := by
    simp [present, Option.filter, refusal_ne_nil hrefused]
  rw [report_mainWorker hworker htenant hbackend, dispatchReport, mainWorker]
  dsimp only
  rw [hblocked]
  dsimp only
  rw [hpresent]
  rfl

end

section examples

variable {R : Stores → Stores → Prop} {run : RunRecord} {s : Stores}
  {host : JsVal → Except JsError JsString}

/-- A server on which nothing may be executed. -/
def closedMachine : Machine where
  execPath := js "node"
  spawn := fun _ _ _ => .error (.error (.error (js "not found")))
  env := fun _ => none
  generate := fun _ _ => .thrown (.error (.error (js "unreachable"))) trivial

/-- The worker of that server. -/
def closedWorker (host : JsVal → Except JsError JsString) : WorkerOptions :=
  mainWorker host closedMachine ⟨false, none, none, none⟩ (⟨false, none⟩ : ModelExecutor Unit JsString)
    () (js "worker") none

/-- A tick of that worker ends. -/
theorem exists_ends_closedWorker (hR : ∀ u : Stores, u.audit.size < 2 ^ 32 → R u u)
    (hsize : s.audit.size + 3 < 2 ^ 32) (hclaim : (s.claimNext (js "worker")).1 = some run)
    {backend reason : JsString} (hbackend : backendOf host run.manifest = .ok backend)
    (hrefused : refusal ⟨false, none, none, none⟩ (⟨false, none⟩ : ModelExecutor Unit JsString)
      backend = some reason) :
    ∃ r s', (tick host (closedWorker host)).run.Ends R s r s' := by
  have hclaimed : (s.claimNext (js "worker")).2.audit.size + 3 < 2 ^ 32 := hsize
  suffices ∃ r s', (processRun host (closedWorker host) run).run.Ends R
      (s.claimNext (js "worker")).2 r s' by
    obtain ⟨r, s', h⟩ := this
    exact ⟨r, s', Task.ends_bindLift.mpr ⟨_, _, ⟨_, hR _ (Nat.lt_of_add_right_lt hclaimed), hclaim, rfl⟩,
      h⟩⟩
  have hselect : ∃ executor, (closedWorker host).selectExecutor backend = .ok executor ∧
      executor.unavailableReason = .ok (some reason) := by
    refine ⟨_, rfl, ?_⟩
    rw [← hrefused, refusal, selectExecutor]
    split_ifs <;> rfl
  obtain ⟨executor, hexecutor, hblocked⟩ := hselect
  have hpresent : present (some reason) = some reason := by
    simp [present, Option.filter, refusal_ne_nil hrefused]
  rw [processRun, hbackend]
  obtain ⟨r, u, hrecord, hu, -⟩ := @exists_ends_record R run (s.claimNext (js "worker")).2 hR
    (by omega) (workerContext (closedWorker host) run) (js "run.claimed")
    (claimedPayload (js "worker") backend).toObject
  cases r with
  | error e => exact ⟨_, u, Task.ends_bindExcept.mpr (Or.inl ⟨e, hrecord, rfl⟩)⟩
  | ok entry =>
    suffices ∃ r s', (dispatch host (closedWorker host) (workerContext (closedWorker host) run) run
        backend).run.Ends R u r s' by
      obtain ⟨r, s', h⟩ := this
      refine ⟨r, s', Task.ends_bindExcept.mpr (Or.inr ⟨entry, u, hrecord, ?_⟩)⟩
      refine Task.ends_bindExcept.mpr (Or.inr ⟨(), u, ?_, h⟩)
      exact Task.ends_bindExcept.mpr
        (Or.inr ⟨none, u, ⟨u, hR u (by omega), rfl, rfl⟩, ⟨rfl, rfl⟩⟩)
    rw [dispatch, hexecutor]
    dsimp only
    rw [hblocked]
    dsimp only
    rw [hpresent]
    dsimp only
    obtain ⟨r, v, hrefuse, hv, -⟩ := @exists_ends_record R run u hR (by omega)
      (workerContext (closedWorker host) run) (js "execution.unavailable")
      (unavailablePayload backend reason).toObject
    cases r with
    | error e => exact ⟨_, v, Task.ends_bindExcept.mpr (Or.inl ⟨e, hrefuse, rfl⟩)⟩
    | ok entry =>
      obtain ⟨r, s', hlast⟩ := @exists_ends_conclude R run v hR
        (workerContext (closedWorker host) run) .failed (some reason) (by omega)
      exact ⟨r, s', Task.ends_bindExcept.mpr (Or.inr ⟨entry, v, hrefuse, hlast⟩)⟩

end examples

end AgentEval.Worker
