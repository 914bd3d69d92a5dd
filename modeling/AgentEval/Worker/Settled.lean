import AgentEval.Worker.Tick

/-!
# Whether a tick leaves its run settled

A tick appends to the log and writes to the run store in many steps, each with its own way to fail,
and only the execution itself stands in a `try`. `Settles` says what has to go well; while the rest
of the system leaves the run alone, that is exactly when the tick leaves it settled.

* **`tick_settles_iff`**: the run ends as completed or failed, with the matching entry as the last
  one of its trail and the only one of its kind, exactly when `Settles` holds.
* **`tick_strands`**: an executor reports `-0`, and the run stays running.
-/

namespace AgentEval.Worker

open Js Evidence Store Async

/-! ## The trail of a run -/

/-- Whether an entry is about a run. -/
def About (run : RunRecord) (e : AuditEntry) : Prop :=
  e.tenantId = run.tenantId ∧ e.subject = some run.id

instance (run : RunRecord) : DecidablePred (About run) := fun e =>
  inferInstanceAs (Decidable (e.tenantId = run.tenantId ∧ e.subject = some run.id))

/-- What happened to a run, from a position of the log on. -/
def trail (run : RunRecord) (n : ℕ) (log : AuditLog) : List JsString :=
  ((log.entries.drop n).filter fun e => decide (About run e)).map (·.action)

/-- A run that has ended: its status is that of an outcome, and so is the last entry of its trail,
the only one that ends a run. -/
def Settled (run : RunRecord) (n : ℕ) (s : Stores) : Prop :=
  ∃ outcome r before, s.runs.lookup run.id = some r ∧ r.status = Outcome.toStatus outcome ∧
    trail run n s.audit = before ++ [lastAction outcome] ∧
    ∀ outcome', lastAction outcome' ∉ before

/-- What the rest of the system does while a run is processed: it leaves the record of the run
alone, and what it appends to the log is not about the run. The entries of a log are an array. -/
structure Quiet (run : RunRecord) (s s' : Stores) : Prop where
  lookup_eq : s'.runs.lookup run.id = s.runs.lookup run.id
  entries : ∃ more, s'.audit.entries = s.audit.entries ++ more ∧ ∀ e ∈ more, ¬ About run e
  size_lt : s'.audit.size < 2 ^ 32

/-! ## What has to go well -/

/-- The caller that a worker is for a run. -/
def workerContext (o : WorkerOptions) (run : RunRecord) : TenantContext :=
  ⟨run.tenantId, o.workerId, []⟩

/-- An event of an executor that the log takes and that does not end a run. -/
structure ExecutionEvent.Passes (event : ExecutionEvent) : Prop where
  action : event.action ≠ []
  payload : event.payload.toJs.jsonForm.IsJson
  not_last : ∀ outcome, event.action ≠ lastAction outcome

/-- An execution whose result can be recorded: it reports events that pass, or it throws something
that has a message. -/
def ExecutionSettles (host : JsVal → Except JsError JsString) :
    Except Thrown ExecutionResult → Prop
  | .error thrown => ∃ message, thrown.message host = .ok message
  | .ok result => ∀ event ∈ result.events, event.Passes

/-- What has to go well for a claimed run: worker and tenant have names, the backend is a text,
nothing is thrown outside of the execution, and the result of the execution can be recorded. -/
structure Settles (host : JsVal → Except JsError JsString) (o : WorkerOptions) (run : RunRecord) :
    Prop where
  workerId : o.workerId ≠ []
  tenantId : run.tenantId ≠ []
  captured : ∀ probe ∈ o.captureEnvironment, ∃ environment, probe = .ok environment
  executes : ∃ backend executor blocked, backendOf host run.manifest = .ok backend ∧
    o.selectExecutor backend = .ok executor ∧ executor.unavailableReason = .ok blocked ∧
    (present blocked = none → ExecutionSettles host
      (executor.execute run.id run.manifest ⟨run.tenantId, present run.credentialId⟩))

/-! ## One step -/

/-- A run with a status and a trail. -/
structure Under (run : RunRecord) (n : ℕ) (status : RunStatus) (actions : List JsString)
    (s : Stores) : Prop where
  stored : ∃ r, s.runs.lookup run.id = some r ∧ r.status = status
  trail_eq : trail run n s.audit = actions
  start_le : n ≤ s.audit.size
  size_lt : s.audit.size < 2 ^ 32

section steps

variable {o : WorkerOptions} {run : RunRecord} {n : ℕ} {status : RunStatus}
  {actions : List JsString} {s s' : Stores}

/-- The trail after more entries. -/
theorem trail_append {log log' : AuditLog} {more : List AuditEntry} (hn : n ≤ log.size)
    (h : log'.entries = log.entries ++ more) :
    trail run n log' =
      trail run n log ++ (more.filter fun e => decide (About run e)).map (·.action) := by
  rw [trail, trail, h, List.drop_append_of_le_length hn, List.filter_append, List.map_append]

/-- The rest of the system leaves the run under its status and its trail. -/
theorem Under.quiet (h : Under run n status actions s) (hq : Quiet run s s') :
    Under run n status actions s' := by
  obtain ⟨more, hmore, hother⟩ := hq.entries
  refine ⟨hq.lookup_eq ▸ h.stored, ?_, ?_, hq.size_lt⟩
  · rw [trail_append h.start_le hmore, h.trail_eq, List.filter_eq_nil_iff.mpr]
    · exact List.append_nil _
    · exact fun e he => by simpa using hother e he
  · rw [AuditLog.size, hmore, List.length_append]
    exact h.start_le.trans (Nat.le_add_right _ _)

/-- A status of a run that is not an outcome. -/
theorem Under.not_settled (h : Under run n .running actions s) : ¬ Settled run n s := by
  rintro ⟨outcome, r, before, hr, hstatus, -, -⟩
  obtain ⟨r', hr', hrunning⟩ := h.stored
  rw [hr'] at hr
  rw [← Option.some.inj hr, hrunning] at hstatus
  cases outcome <;> cases hstatus

/-- An operation that leaves the stores alone. -/
theorem ends_read {β : Type} {point : RunPoint} {f : Stores → β} {b : β}
    (h : (Task.await point fun s => (f s, s)).Ends (Quiet run) s b s')
    (hu : Under run n status actions s) : b = f s ∧ Under run n status actions s' := by
  obtain ⟨u, hquiet, rfl, rfl⟩ := h
  exact ⟨rfl, hu.quiet hquiet⟩

/-- **What recording an event comes to**: one more entry in the trail, or an error. -/
theorem ends_record {action : JsString} {payload : PlainObject} {r : Except Thrown AuditEntry}
    (h : (record (workerContext o run) run action payload).run.Ends (Quiet run) s r s')
    (hu : Under run n status actions s) :
    (Accepts (workerContext o run) (runEvent run action payload) ∧ (∃ entry, r = .ok entry) ∧
      Under run n status (actions ++ [action]) s') ∨
    (¬ Accepts (workerContext o run) (runEvent run action payload) ∧ (∃ e, r = .error e) ∧
      Under run n status actions s') := by
  obtain ⟨u, hquiet, hr, rfl⟩ := h
  dsimp only at hquiet hr
  by_cases haccepts : Accepts (workerContext o run) (runEvent run action payload)
  · obtain ⟨entry, hok, haction, htenant, hsubject, -⟩ :=
      haccepts.append (hu.size_lt.trans (by norm_num))
    rw [hok] at hquiet hr
    refine Or.inl ⟨haccepts, ⟨entry, hr.symm⟩, ?_⟩
    obtain ⟨more, hmore, hother⟩ := hquiet.entries
    have hentries : u.audit.entries = s.audit.entries ++ (entry :: more) := by
      rw [hmore]
      exact List.append_assoc ..
    have habout : About run entry := ⟨htenant, hsubject⟩
    refine ⟨hquiet.lookup_eq ▸ hu.stored, ?_, ?_, hquiet.size_lt⟩
    · rw [trail_append hu.start_le hentries, hu.trail_eq, List.filter_cons_of_pos (by simpa),
        List.filter_eq_nil_iff.mpr fun e he => by simpa using hother e he]
      exact congrArg (fun a => actions ++ [a]) haction
    · rw [AuditLog.size, hentries, List.length_append]
      exact hu.start_le.trans (Nat.le_add_right _ _)
  · obtain ⟨e, herror⟩ := append_error_of_not_accepts haccepts
    rw [herror] at hquiet hr
    exact Or.inr ⟨haccepts, ⟨_, hr.symm⟩, hu.quiet hquiet⟩

/-- An event of the worker itself is taken when worker and tenant have names. -/
theorem ends_record_own {α : Type} {action : JsString} {r : StringRecord}
    {k : AuditEntry → Tick α} {result : Except Thrown α}
    (h : (record (workerContext o run) run action r.toObject >>= k).run.Ends (Quiet run) s result s')
    (hu : Under run n status actions s) (hworker : o.workerId ≠ []) (htenant : run.tenantId ≠ [])
    (haction : action ≠ []) :
    ∃ entry u, Under run n status (actions ++ [action]) u ∧
      (k entry).run.Ends (Quiet run) u result s' := by
  have haccepts : Accepts (workerContext o run) (runEvent run action r.toObject) :=
    ⟨haction, hworker, htenant, nofun, r.isJson_toJs⟩
  obtain ⟨e, hrecord, -⟩ | ⟨entry, u, hrecord, hk⟩ := Task.ends_bindExcept.mp h
  · obtain ⟨-, ⟨_, hok⟩, -⟩ | ⟨hnot, -, -⟩ := ends_record hrecord hu
    · cases hok
    · exact absurd haccepts hnot
  · obtain ⟨-, -, hu'⟩ | ⟨hnot, -, -⟩ := ends_record hrecord hu
    · exact ⟨entry, u, hu', hk⟩
    · exact absurd haccepts hnot

end steps

/-! ## The parts of a tick -/

/-- A trail without an entry that ends a run. -/
def Open (actions : List JsString) : Prop := ∀ outcome, lastAction outcome ∉ actions

section parts

variable {host : JsVal → Except JsError JsString} {o : WorkerOptions} {run : RunRecord} {n : ℕ}
  {actions : List JsString} {s s' : Stores}

/-- An entry that does not end a run leaves its trail open. -/
theorem Open.append_singleton {action : JsString} (h : Open actions)
    (haction : ∀ outcome, action ≠ lastAction outcome) : Open (actions ++ [action]) := by
  intro outcome hmem
  rcases List.mem_append.mp hmem with hmem | hmem
  · exact h outcome hmem
  · exact haction outcome (List.mem_singleton.mp hmem).symm

/-- **A run with an outcome and the entry for it** is settled when its trail was open before. -/
theorem Under.settled_iff {outcome : Outcome}
    (h : Under run n outcome.toStatus (actions ++ [lastAction outcome]) s) :
    Settled run n s ↔ Open actions := by
  obtain ⟨r, hr, hstatus⟩ := h.stored
  constructor
  · rintro ⟨outcome', -, before, -, -, htrail, hopen⟩
    rw [h.trail_eq] at htrail
    obtain ⟨rfl, -⟩ := List.append_inj' htrail rfl
    exact hopen
  · exact fun hopen => ⟨outcome, r, actions, hr, hstatus, h.trail_eq, hopen⟩

/-- The run is stored with an outcome, and nothing else changes. -/
theorem Under.finish {status : RunStatus} (h : Under run n status actions s) (outcome : Outcome)
    (reason : Option JsString) :
    Under run n outcome.toStatus actions (s.finish run.id outcome reason).2 := by
  obtain ⟨old, hold, -⟩ := h.stored
  refine ⟨?_, h.trail_eq, h.start_le, h.size_lt⟩
  rw [Stores.finish, InMemoryRunStore.finish, hold]
  dsimp only
  rw [lookup_setProp, if_pos rfl]
  exact ⟨_, rfl, rfl⟩

/-- The last entry and the outcome. -/
theorem ends_conclude {outcome : Outcome} {reason : Option JsString} {r : Except Thrown Bool}
    (h : (conclude (workerContext o run) run outcome reason).run.Ends (Quiet run) s r s')
    (hu : Under run n .running actions s) (hworker : o.workerId ≠ [])
    (htenant : run.tenantId ≠ []) :
    Under run n outcome.toStatus (actions ++ [lastAction outcome]) s' := by
  have hname : lastAction outcome ≠ [] := by
    cases outcome <;> simp [lastAction]
  obtain ⟨entry, u, hu', hnext⟩ := ends_record_own h hu hworker htenant hname
  obtain ⟨_, v, ⟨w, hquiet, -, rfl⟩, -, rfl⟩ := Task.ends_bindLift.mp hnext
  exact (hu'.finish outcome reason).quiet hquiet

/-- The run is stored with its machine, and nothing else changes. -/
theorem Under.setEnvironment {status : RunStatus} (h : Under run n status actions s)
    (environment : PlainObject) :
    Under run n status actions
      (Stores.mk s.audit (InMemoryRunStore.setEnvironment run.id environment s.runs) s.bundles
        s.clock s.idCounter) := by
  obtain ⟨old, hold, hstatus⟩ := h.stored
  refine ⟨?_, h.trail_eq, h.start_le, h.size_lt⟩
  rw [InMemoryRunStore.setEnvironment, hold]
  dsimp only
  rw [lookup_setProp, if_pos rfl]
  exact ⟨_, rfl, hstatus⟩

/-- The machine of a run: another entry in its trail, or an error of the probe. -/
theorem ends_recordEnvironment {r : Except Thrown Unit}
    (h : (recordEnvironment o (workerContext o run) run).run.Ends (Quiet run) s r s')
    (hu : Under run n .running actions s) (hopen : Open actions) (hworker : o.workerId ≠ [])
    (htenant : run.tenantId ≠ []) :
    ∃ actions', Under run n .running actions' s' ∧ Open actions' ∧
      (((∀ probe ∈ o.captureEnvironment, ∃ environment, probe = .ok environment) ∧ r = .ok ()) ∨
        ((¬ ∀ probe ∈ o.captureEnvironment, ∃ environment, probe = .ok environment) ∧
          ∃ e, r = .error e)) := by
  rw [recordEnvironment] at h
  cases hprobe : o.captureEnvironment with
  | none =>
    rw [hprobe] at h
    obtain ⟨rfl, rfl⟩ := h
    exact ⟨actions, hu, hopen, Or.inl ⟨nofun, rfl⟩⟩
  | some probe =>
    rw [hprobe] at h
    obtain ⟨e, hread, rfl⟩ | ⟨environment, u, hread, hnext⟩ := Task.ends_bindExcept.mp h
    · obtain ⟨rfl, hu'⟩ := ends_read hread hu
      refine ⟨actions, hu', hopen, Or.inr ⟨fun hall => ?_, e, rfl⟩⟩
      obtain ⟨_, hok⟩ := hall _ rfl
      cases hok
    · obtain ⟨rfl, hu'⟩ := ends_read hread hu
      have hall : ∀ probe ∈ some (Except.ok environment : Except Thrown _),
          ∃ environment, probe = .ok environment := by
        rintro _ ⟨⟩
        exact ⟨_, rfl⟩
      clear h hread
      cases environment with
      | none =>
        obtain ⟨rfl, rfl⟩ := hnext
        exact ⟨actions, hu', hopen, Or.inl ⟨hall, rfl⟩⟩
      | some environment =>
        have hname : js "compute.node.selected" ≠ [] := by simp
        have hlast : ∀ outcome, js "compute.node.selected" ≠ lastAction outcome := by
          rintro (_ | _) <;> simp [lastAction]
        obtain ⟨_, v, ⟨w, hquiet, -, rfl⟩, hnext⟩ := Task.ends_bindLift.mp hnext
        have hv := (hu'.setEnvironment environment.toPlainObject).quiet hquiet
        obtain ⟨entry, x, hx, rfl, rfl⟩ := ends_record_own hnext hv hworker htenant hname
        exact ⟨_, hx, hopen.append_singleton hlast, Or.inl ⟨hall, rfl⟩⟩

/-- The events of an executor: all of them in the trail, or an error at the first one that the log
does not take. -/
theorem ends_recordEvents {events : List ExecutionEvent} {r : Except Thrown Unit}
    (h : (recordEvents (workerContext o run) run events).run.Ends (Quiet run) s r s')
    (hu : Under run n .running actions s) :
    ((∀ event ∈ events, Accepts (workerContext o run) (runEvent run event.action event.payload)) ∧
      r = .ok () ∧ Under run n .running (actions ++ events.map (·.action)) s') ∨
    ((¬ ∀ event ∈ events,
        Accepts (workerContext o run) (runEvent run event.action event.payload)) ∧
      (∃ e, r = .error e) ∧ ∃ actions', Under run n .running actions' s') := by
  induction events generalizing actions s with
  | nil =>
    obtain ⟨rfl, rfl⟩ := h
    rw [List.map_nil, List.append_nil]
    exact Or.inl ⟨List.forall_mem_nil _, rfl, hu⟩
  | cons event events ih =>
    rw [List.forall_mem_cons]
    obtain ⟨e, hrecord, rfl⟩ | ⟨entry, u, hrecord, hnext⟩ := Task.ends_bindExcept.mp h
    · obtain ⟨-, ⟨_, hok⟩, -⟩ | ⟨hnot, -, hu'⟩ := ends_record hrecord hu
      · cases hok
      · exact Or.inr ⟨fun hall => hnot hall.1, ⟨e, rfl⟩, _, hu'⟩
    · obtain ⟨haccepts, -, hu'⟩ | ⟨-, ⟨_, herror⟩, -⟩ := ends_record hrecord hu
      · obtain ⟨hall, hr, hs'⟩ | ⟨hnot, hr, hs'⟩ := ih hnext hu'
        · refine Or.inl ⟨⟨haccepts, hall⟩, hr, ?_⟩
          rwa [List.append_assoc] at hs'
        · exact Or.inr ⟨fun hall => hnot hall.2, hr, hs'⟩
      · cases herror

/-- **The execution of a run** leaves it settled exactly when its result can be recorded. -/
theorem settled_executeRun {executor : Executor} {r : Except Thrown Bool}
    (h : (executeRun host (workerContext o run) run executor).run.Ends (Quiet run) s r s')
    (hu : Under run n .running actions s) (hopen : Open actions) (hworker : o.workerId ≠ [])
    (htenant : run.tenantId ≠ []) :
    Settled run n s' ↔ ExecutionSettles host
      (executor.execute run.id run.manifest ⟨run.tenantId, present run.credentialId⟩) := by
  obtain ⟨result, u, hread, hnext⟩ := Task.ends_bindLift.mp h
  obtain ⟨hresult, hu'⟩ := ends_read hread hu
  rw [← hresult]
  cases result with
  | error thrown =>
    dsimp only at hnext
    rw [ExecutionSettles]
    cases hmessage : thrown.message host with
    | error e =>
      rw [hmessage] at hnext
      obtain ⟨-, rfl⟩ := hnext
      exact iff_of_false hu'.not_settled nofun
    | ok message =>
      rw [hmessage] at hnext
      have hend := ends_conclude hnext hu' hworker htenant
      exact iff_of_true (hend.settled_iff.mpr hopen) ⟨message, rfl⟩
  | ok result =>
    rw [ExecutionSettles]
    obtain ⟨e, hevents, -⟩ | ⟨_, v, hevents, hlast⟩ := Task.ends_bindExcept.mp hnext
    · obtain ⟨-, hok, -⟩ | ⟨hnot, -, _, hs'⟩ := ends_recordEvents hevents hu'
      · cases hok
      · refine iff_of_false hs'.not_settled fun hall => hnot fun event hevent => ?_
        have hpasses := hall event hevent
        exact ⟨hpasses.action, hworker, htenant, nofun, hpasses.payload⟩
    · obtain ⟨hall, -, hv⟩ | ⟨-, ⟨_, herror⟩, -⟩ := ends_recordEvents hevents hu'
      · rw [(ends_conclude hlast hv hworker htenant).settled_iff]
        constructor
        · intro hopen' event hevent
          have haccepts := hall event hevent
          refine ⟨haccepts.action, haccepts.payload, fun outcome heq => hopen' outcome ?_⟩
          rw [← heq]
          exact List.mem_append_right _ (List.mem_map_of_mem hevent)
        · intro hpasses outcome hmem
          rcases List.mem_append.mp hmem with hmem | hmem
          · exact hopen outcome hmem
          · obtain ⟨event, hevent, heq⟩ := List.mem_map.mp hmem
            exact (hpasses event hevent).not_last outcome heq
      · cases herror

/-- Everything after the machine is known. -/
theorem settled_dispatch {backend : JsString} {r : Except Thrown Bool}
    (h : (dispatch host o (workerContext o run) run backend).run.Ends (Quiet run) s r s')
    (hu : Under run n .running actions s) (hopen : Open actions) (hworker : o.workerId ≠ [])
    (htenant : run.tenantId ≠ []) :
    Settled run n s' ↔ ∃ executor blocked, o.selectExecutor backend = .ok executor ∧
      executor.unavailableReason = .ok blocked ∧
      (present blocked = none → ExecutionSettles host
        (executor.execute run.id run.manifest ⟨run.tenantId, present run.credentialId⟩)) := by
  rw [dispatch] at h
  cases hselect : o.selectExecutor backend with
  | error thrown =>
    rw [hselect] at h
    obtain ⟨-, rfl⟩ := h
    refine iff_of_false hu.not_settled ?_
    rintro ⟨_, _, hok, -⟩
    cases hok
  | ok executor =>
    rw [hselect] at h
    dsimp only at h
    cases hblocked : executor.unavailableReason with
    | error thrown =>
      rw [hblocked] at h
      obtain ⟨-, rfl⟩ := h
      refine iff_of_false hu.not_settled ?_
      rintro ⟨_, _, hok, herror, -⟩
      cases hok
      rw [hblocked] at herror
      cases herror
    | ok blocked =>
      rw [hblocked] at h
      dsimp only at h
      cases hreason : present blocked with
      | some reason =>
        rw [hreason] at h
        have hname : js "execution.unavailable" ≠ [] := by simp
        have hlast : ∀ outcome, js "execution.unavailable" ≠ lastAction outcome := by
          rintro (_ | _) <;> simp [lastAction]
        obtain ⟨entry, u, hu', hnext⟩ := ends_record_own h hu hworker htenant hname
        have hend := ends_conclude hnext hu' hworker htenant
        refine iff_of_true (hend.settled_iff.mpr (hopen.append_singleton hlast)) ?_
        exact ⟨executor, blocked, rfl, hblocked, fun hnone => by rw [hreason] at hnone; cases hnone⟩
      | none =>
        rw [hreason] at h
        rw [settled_executeRun h hu hopen hworker htenant]
        constructor
        · exact fun hsettles => ⟨executor, blocked, rfl, hblocked, fun _ => hsettles⟩
        · rintro ⟨_, _, hok, hblocked', hsettles⟩
          cases hok
          rw [hblocked] at hblocked'
          cases hblocked'
          exact hsettles hreason

/-- **Everything after the claim** leaves the run settled exactly when it has to go well and does. -/
theorem settled_processRun {r : Except Thrown Bool}
    (h : (processRun host o run).run.Ends (Quiet run) s r s')
    (hu : Under run n .running [] s) : Settled run n s' ↔ Settles host o run := by
  rw [processRun] at h
  cases hbackend : backendOf host run.manifest with
  | error e =>
    rw [hbackend] at h
    obtain ⟨-, rfl⟩ := h
    refine iff_of_false hu.not_settled fun hsettles => ?_
    obtain ⟨_, _, _, hok, -⟩ := hsettles.executes
    rw [hbackend] at hok
    cases hok
  | ok backend =>
    rw [hbackend] at h
    dsimp only at h
    by_cases hnames : o.workerId ≠ [] ∧ run.tenantId ≠ []
    · obtain ⟨hworker, htenant⟩ := hnames
      have hname : js "run.claimed" ≠ [] := by simp
      have hclaimed : ∀ outcome, js "run.claimed" ≠ lastAction outcome := by
        rintro (_ | _) <;> simp [lastAction]
      obtain ⟨entry, u, hu₁, hnext⟩ := ends_record_own h hu hworker htenant hname
      have hopen₁ : Open ([] ++ [js "run.claimed"]) :=
        Open.append_singleton (fun _ => List.not_mem_nil) hclaimed
      obtain ⟨e, henv, -⟩ | ⟨_, v, henv, hnext⟩ := Task.ends_bindExcept.mp hnext
      · obtain ⟨_, hu₂, -, ⟨-, hok⟩ | ⟨hnot, -⟩⟩ :=
          ends_recordEnvironment henv hu₁ hopen₁ hworker htenant
        · cases hok
        · exact iff_of_false hu₂.not_settled fun hsettles => hnot hsettles.captured
      · obtain ⟨_, hu₂, hopen₂, ⟨hcaptured, -⟩ | ⟨-, _, herror⟩⟩ :=
          ends_recordEnvironment henv hu₁ hopen₁ hworker htenant
        · rw [settled_dispatch hnext hu₂ hopen₂ hworker htenant]
          constructor
          · rintro ⟨executor, blocked, hselect, hblocked, hsettles⟩
            exact ⟨hworker, htenant, hcaptured, backend, executor, blocked, hbackend, hselect,
              hblocked, hsettles⟩
          · intro hsettles
            obtain ⟨backend', executor, blocked, hok, hselect, hblocked, hexec⟩ := hsettles.executes
            rw [hbackend] at hok
            cases hok
            exact ⟨executor, blocked, hselect, hblocked, hexec⟩
        · cases herror
    · obtain ⟨e, hrecord, -⟩ | ⟨entry, u, hrecord, -⟩ := Task.ends_bindExcept.mp h
      · obtain ⟨-, ⟨_, hok⟩, -⟩ | ⟨-, -, hu'⟩ := ends_record hrecord hu
        · cases hok
        · exact iff_of_false hu'.not_settled fun hs => hnames ⟨hs.workerId, hs.tenantId⟩
      · obtain ⟨haccepts, -, -⟩ | ⟨-, ⟨_, herror⟩, -⟩ := ends_record hrecord hu
        · exact absurd ⟨haccepts.actor, haccepts.tenantId⟩ hnames
        · cases herror

/-- A run that has just been claimed. -/
theorem under_claimNext {workerId : JsString} (hsize : s.audit.size < 2 ^ 32)
    (h : (s.claimNext workerId).1 = some run) :
    Under run s.audit.size .running [] (s.claimNext workerId).2 := by
  rw [Stores.claimNext, InMemoryRunStore.claimNext] at h ⊢
  cases hnext : InMemoryRunStore.nextQueued s.runs with
  | none =>
    rw [hnext] at h
    cases h
  | some next =>
    rw [hnext] at h
    cases h
    refine ⟨?_, ?_, le_rfl, hsize⟩
    · dsimp only
      rw [lookup_setProp, if_pos rfl]
      exact ⟨_, rfl, rfl⟩
    · rw [trail]
      exact congrArg (fun es => (List.filter _ es).map _) (List.drop_length ..)

/-- A tick that claims a run goes on with it. -/
theorem ends_tick {r : Except Thrown Bool} (hsize : s.audit.size < 2 ^ 32)
    (hclaim : (s.claimNext o.workerId).1 = some run)
    (h : (tick host o).run.Ends (Quiet run) s r s') :
    ∃ u, Under run s.audit.size .running [] u ∧
      (processRun host o run).run.Ends (Quiet run) u r s' := by
  obtain ⟨claimed, u, ⟨w, hquiet, hclaimed, rfl⟩, hnext⟩ := Task.ends_bindLift.mp h
  have hsome : claimed = some run := hclaimed.symm.trans hclaim
  subst hsome
  exact ⟨w, (under_claimNext hsize hclaim).quiet hquiet, hnext⟩

end parts

/-! ## Ticks -/

/-- **When a tick leaves its run settled.** While the rest of the system leaves the run alone, a tick
that claims a run ends, with a result or an error, in a state where the run is settled exactly when
everything that has to go well does. -/
theorem tick_settles_iff (host : JsVal → Except JsError JsString) (o : WorkerOptions) (s : Stores)
    (hsize : s.audit.size < 2 ^ 32) (run : RunRecord)
    (hclaim : (s.claimNext o.workerId).1 = some run) (r : Except Thrown Bool) (s' : Stores)
    (h : (tick host o).run.Ends (Quiet run) s r s') :
    Settled run s.audit.size s' ↔ Settles host o run := by
  obtain ⟨u, hu, hprocess⟩ := ends_tick hsize hclaim h
  exact settled_processRun hprocess hu

section examples

/-- A worker whose executor reports some events and completes. -/
def reporting (events : List ExecutionEvent) : WorkerOptions where
  workerId := js "worker"
  selectExecutor := fun _ => .ok ⟨.ok none, fun _ _ _ => .ok ⟨.completed, none, events⟩⟩
  captureEnvironment := none

variable {R : Stores → Stores → Prop} {run : RunRecord} {s : Stores}
  {host : JsVal → Except JsError JsString}

/-- Recording an event ends. -/
theorem exists_ends_record (hR : ∀ u : Stores, u.audit.size < 2 ^ 32 → R u u)
    (hsize : s.audit.size + 1 < 2 ^ 32) (ctx : TenantContext) (action : JsString)
    (payload : PlainObject) : ∃ r s', (record ctx run action payload).run.Ends R s r s' ∧
      s'.audit.size ≤ s.audit.size + 1 ∧ s'.runs = s.runs := by
  have hgrow : (s.append ctx (runEvent run action payload)).2.audit.size ≤ s.audit.size + 1 := by
    by_cases haccepts : Accepts ctx (runEvent run action payload)
    · obtain ⟨entry, hok, -⟩ := haccepts.append (show s.audit.size < 2 ^ 53 by omega)
      rw [hok]
      exact List.length_append.le
    · obtain ⟨e, herror⟩ := append_error_of_not_accepts haccepts
      rw [herror]
      exact Nat.le_succ _
  exact ⟨_, _, ⟨_, hR _ (hgrow.trans_lt hsize), rfl, rfl⟩, hgrow, rfl⟩

/-- Recording the events of an executor ends. -/
theorem exists_ends_recordEvents (hR : ∀ u : Stores, u.audit.size < 2 ^ 32 → R u u)
    (ctx : TenantContext) (events : List ExecutionEvent)
    (hsize : s.audit.size + events.length < 2 ^ 32) :
    ∃ r s', (recordEvents ctx run events).run.Ends R s r s' ∧
      s'.audit.size ≤ s.audit.size + events.length := by
  induction events generalizing s with
  | nil => exact ⟨_, s, ⟨rfl, rfl⟩, le_rfl⟩
  | cons event events ih =>
    rw [List.length_cons] at hsize ⊢
    obtain ⟨r, u, hrecord, hu, -⟩ :=
      @exists_ends_record R run s hR (by omega) ctx event.action event.payload
    cases r with
    | error e =>
      exact ⟨_, u, Task.ends_bindExcept.mpr (Or.inl ⟨e, hrecord, rfl⟩), by omega⟩
    | ok entry =>
      obtain ⟨r, s', hnext, hs'⟩ := @ih u (by omega)
      exact ⟨r, s', Task.ends_bindExcept.mpr (Or.inr ⟨entry, u, hrecord, hnext⟩), by omega⟩

/-- The last entry and the outcome end. -/
theorem exists_ends_conclude (hR : ∀ u : Stores, u.audit.size < 2 ^ 32 → R u u)
    (ctx : TenantContext) (outcome : Outcome) (reason : Option JsString)
    (hsize : s.audit.size + 1 < 2 ^ 32) :
    ∃ r s', (conclude ctx run outcome reason).run.Ends R s r s' := by
  obtain ⟨r, u, hrecord, hu, -⟩ := exists_ends_record hR hsize ctx (lastAction outcome)
    (reasonPayload reason).toObject
  cases r with
  | error e => exact ⟨_, u, Task.ends_bindExcept.mpr (Or.inl ⟨e, hrecord, rfl⟩)⟩
  | ok entry =>
    have hfinish : (u.finish run.id outcome reason).2.audit.size < 2 ^ 32 := by
      change u.audit.size < _
      omega
    exact ⟨.ok true, _, Task.ends_bindExcept.mpr (Or.inr ⟨entry, u, hrecord,
      Task.ends_bindLift.mpr ⟨_, _, ⟨_, hR _ hfinish, rfl, rfl⟩, rfl, rfl⟩⟩)⟩

/-- A tick of such a worker ends. -/
theorem exists_ends_tick (hR : ∀ u : Stores, u.audit.size < 2 ^ 32 → R u u)
    (events : List ExecutionEvent) (hsize : s.audit.size + events.length + 2 < 2 ^ 32)
    (hclaim : (s.claimNext (js "worker")).1 = some run) {backend : JsString}
    (hbackend : backendOf host run.manifest = .ok backend) :
    ∃ r s', (tick host (reporting events)).run.Ends R s r s' := by
  have hclaimed : (s.claimNext (js "worker")).2.audit.size < 2 ^ 32 := by
    change s.audit.size < _
    omega
  suffices ∃ r s', (processRun host (reporting events) run).run.Ends R
      (s.claimNext (js "worker")).2 r s' by
    obtain ⟨r, s', h⟩ := this
    refine ⟨r, s', Task.ends_bindLift.mpr ⟨_, _, ⟨_, hR _ hclaimed, hclaim, rfl⟩, h⟩⟩
  rw [processRun, hbackend]
  obtain ⟨r, u, hrecord, hu, -⟩ := @exists_ends_record R run (s.claimNext (js "worker")).2 hR
    (by change s.audit.size + 1 < _; omega) (workerContext (reporting events) run)
    (js "run.claimed") (claimedPayload (js "worker") backend).toObject
  change u.audit.size ≤ s.audit.size + 1 at hu
  cases r with
  | error e => exact ⟨_, u, Task.ends_bindExcept.mpr (Or.inl ⟨e, hrecord, rfl⟩)⟩
  | ok entry =>
    obtain ⟨r, v, hevents, hv⟩ := @exists_ends_recordEvents R run u hR
      (workerContext (reporting events) run) events (by omega)
    suffices ∃ r s', (do
        recordEvents (workerContext (reporting events) run) run events
        conclude (workerContext (reporting events) run) run .completed none :
          Tick Bool).run.Ends R u r s' by
      obtain ⟨r, s', h⟩ := this
      refine ⟨r, s', Task.ends_bindExcept.mpr (Or.inr ⟨entry, u, hrecord, ?_⟩)⟩
      refine Task.ends_bindExcept.mpr (Or.inr ⟨(), u, ⟨rfl, rfl⟩, ?_⟩)
      exact Task.ends_bindLift.mpr ⟨_, u, ⟨u, hR u (by omega), rfl, rfl⟩, h⟩
    cases r with
    | error e => exact ⟨_, v, Task.ends_bindExcept.mpr (Or.inl ⟨e, hevents, rfl⟩)⟩
    | ok _ =>
      obtain ⟨r, s', hlast⟩ := @exists_ends_conclude R run v hR
        (workerContext (reporting events) run) .completed none (by omega)
      exact ⟨r, s', Task.ends_bindExcept.mpr (Or.inr ⟨(), v, hevents, hlast⟩)⟩

/-- A queued run that declares a backend. -/
def queuedRun : RunRecord where
  id := js "run_0"
  tenantId := js "tenant"
  status := .queued
  manifest := StringRecord.toObject ⟨[(js "isolationBackend", js "model")], List.nodup_singleton _⟩
  retentionRules := [js "eu-ai-act-art-19"]
  createdAt := ⟨0, TimeValue.zero_inRange⟩
  startedAt := none
  completedAt := none
  claimedBy := none
  claimedAt := none
  failureReason := none
  credentialId := none
  executionEnvironment := none

/-- The run as a worker has claimed it. -/
def claimedRun : RunRecord :=
  { queuedRun with
    status := .running
    claimedBy := some (js "worker")
    claimedAt := some ⟨0, TimeValue.zero_inRange⟩
    startedAt := some ⟨0, TimeValue.zero_inRange⟩ }

/-- The stores with that run. -/
def queuedStores : Stores := ⟨.new, [(queuedRun.id, queuedRun)], [], ⟨0, TimeValue.zero_inRange⟩, 1⟩

/-- The worker claims it. -/
theorem claimNext_queuedStores : (queuedStores.claimNext (js "worker")).1 = some claimedRun := rfl

/-- Its backend is a text. -/
theorem backendOf_claimedRun (host : JsVal → Except JsError JsString) :
    backendOf host claimedRun.manifest = .ok (js "model") := rfl

/-- Nothing may happen to a run while it is processed. -/
theorem quiet_refl (run : RunRecord) (u : Stores) (h : u.audit.size < 2 ^ 32) : Quiet run u u :=
  ⟨rfl, ⟨[], (List.append_nil _).symm, List.forall_mem_nil _⟩, h⟩

/-- A tick with nothing to report leaves its run settled. -/
theorem tick_settles_nothing : ∃ r s',
    (tick (fun _ => .ok []) (reporting [])).run.Ends (Quiet claimedRun) queuedStores r s' ∧
      Settled claimedRun 0 s' := by
  obtain ⟨r, s', h⟩ := exists_ends_tick (quiet_refl claimedRun) [] (by decide)
    claimNext_queuedStores (backendOf_claimedRun fun _ => .ok [])
  refine ⟨r, s', h, (tick_settles_iff _ _ queuedStores (by decide) claimedRun
    claimNext_queuedStores r s' h).mpr ⟨of_decide_eq_true rfl, of_decide_eq_true rfl, nofun, ?_⟩⟩
  exact ⟨_, _, _, rfl, rfl, rfl, fun _ => List.forall_mem_nil _⟩

/-- A tool call as an executor reports it, with the arguments that `JSON.parse` made of `-0`. -/
def toolCall : ExecutionEvent where
  action := js "tool.call"
  payload :=
    { props := [(js "toolCallId", .str (js "call")), (js "name", .str (js "tool")),
        (js "arguments", .num .negZero)]
      wf := by
        refine JsVal.wf_obj.mpr ⟨?_, ?_⟩
        · change [js "toolCallId", js "name", js "arguments"].Nodup
          simp
        · simp only [List.forall_mem_cons]
          exact ⟨trivial, trivial, trivial, List.forall_mem_nil _⟩ }

/-- **A tick strands a run** whose executor reports such a call. -/
theorem tick_strands : ¬ ∀ (host : JsVal → Except JsError JsString) (o : WorkerOptions)
    (s : Stores) (run : RunRecord) (r : Except Thrown Bool) (s' : Stores),
    s.audit.size < 2 ^ 32 → (s.claimNext o.workerId).1 = some run →
    (tick host o).run.Ends (Quiet run) s r s' → Settled run s.audit.size s' := by
  intro hall
  obtain ⟨r, s', h⟩ := exists_ends_tick (quiet_refl claimedRun) [toolCall] (by decide)
    claimNext_queuedStores (backendOf_claimedRun fun _ => .ok [])
  have hsettled := hall _ _ queuedStores claimedRun r s' (by decide) claimNext_queuedStores h
  obtain ⟨u, hu, hprocess⟩ := ends_tick (by decide) claimNext_queuedStores h
  obtain ⟨_, _, _, -, hselect, hblocked, hexec⟩ :=
    ((settled_processRun hprocess hu).mp hsettled).executes
  cases hselect
  cases hblocked
  have hpasses := hexec rfl toolCall (List.mem_singleton_self _)
  have hprops := PlainObject.isJson_iff.mp hpasses.payload
  exact hprops (js "arguments", .num .negZero) (by simp [toolCall]) rfl

end examples

end AgentEval.Worker
