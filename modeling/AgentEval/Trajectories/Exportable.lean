import AgentEval.Trajectories.TrialStore

/-!
# Trials as trajectories

Every trial of the store has gapless steps, and `toTrajectory` makes a document of it that
`parseTrajectory` returns unchanged, as long as the clock shows years of four digits: the schema
wants dates with such a year.

* **`trial_exportable`**: this holds of every trial in every run.
* **`trial_unexportable`**: a trial that is created in the year 10000.
-/

namespace AgentEval.Trajectories

open Js Zod Store Async

/-! ## The schemas are settled -/

section settled

variable (host : JsString → Number)

/-- A schema of booleans returns no `undefined`. -/
theorem parse_boolean_ne (v : JsVal) : Schema.boolean.parse v ≠ some .undefined := by
  cases v <;> simp [Schema.parse]

/-- A schema of arrays returns no `undefined`. -/
theorem parse_array_ne (s : Schema) (v : JsVal) : (Schema.array s).parse v ≠ some .undefined := by
  cases v <;> simp [Schema.parse]

/-- A flag is settled. -/
theorem settled_flag : flag.Settled := ⟨trivial, parse_boolean_ne⟩

/-- Source: `atif.ts`, `agentDescriptorSchema` -/
theorem settled_agentDescriptorSchema : agentDescriptorSchema.Settled := by
  refine ⟨?_, ?_⟩
  · simp [DistinctKeys]
  · simp [Schema.SettledShape, Schema.Settled, nonEmptyText, hexDigest, positiveInt]

/-- Source: `atif.ts`, `stepMetricsSchema` -/
theorem settled_stepMetricsSchema : stepMetricsSchema.Settled := by
  refine ⟨?_, ?_⟩
  · simp [DistinctKeys]
  · simp [Schema.SettledShape, Schema.Settled, tokenCount, nonnegative]

/-- Source: `atif.ts`, `reasoningTraceSchema` -/
theorem settled_reasoningTraceSchema : reasoningTraceSchema.Settled := by
  refine ⟨?_, ?_⟩
  · simp [DistinctKeys]
  · simp [Schema.SettledShape, Schema.Settled, nonEmptyText, hexDigest, settled_flag]

/-- Source: `atif.ts`, `toolCallSchema` -/
theorem settled_toolCallSchema : toolCallSchema.Settled := by
  refine ⟨?_, ?_⟩
  · simp [DistinctKeys]
  · simp [Schema.SettledShape, Schema.Settled, nonEmptyText, nonnegative, settled_flag]

/-- Source: `atif.ts`, `observationSchema` -/
theorem settled_observationSchema : observationSchema.Settled := by
  refine ⟨?_, ?_⟩
  · simp [DistinctKeys]
  · simp [Schema.SettledShape, Schema.Settled, contentRefSchema, positiveInt, settled_flag]

/-- Source: `atif.ts`, `trajectoryStepSchema` -/
theorem settled_trajectoryStepSchema : (trajectoryStepSchema host).Settled := by
  refine ⟨?_, ?_⟩
  · simp [DistinctKeys]
  · simp [Schema.SettledShape, Schema.Settled, settled_reasoningTraceSchema,
      settled_toolCallSchema, settled_observationSchema, settled_stepMetricsSchema, parse_array_ne]

variable {host}

/-- An agent is accepted again. -/
theorem AgentDescriptor.parse_value (agent : AgentDescriptor) :
    agentDescriptorSchema.parse agent.value = some agent.value := by
  obtain ⟨raw, hraw⟩ := agent.parsed
  exact Schema.parse_idem settled_agentDescriptorSchema hraw

/-- A step is accepted again. -/
theorem TrajectoryStep.parse_value (step : TrajectoryStep host) :
    (trajectoryStepSchema host).parse step.value = some step.value := by
  obtain ⟨raw, hraw⟩ := step.parsed
  exact Schema.parse_idem (settled_trajectoryStepSchema host) hraw

end settled

/-! ## What can be exported -/

section exportable

variable {host : JsString → Number} {trial : TrialRecord host}

/-- The steps have the numbers from one on. -/
def Gapless (steps : List (TrajectoryStep host)) : Prop :=
  steps.map TrajectoryStep.stepId = (List.range steps.length).map fun i => .ofNat (i + 1)

/-- A date whose year has four digits. -/
def FourDigitYear (t : TimeValue) : Prop := 0 ≤ t.year ∧ t.year ≤ 9999

/-- A trial that can be exported. -/
structure Exportable (trial : TrialRecord host) : Prop where
  id : trial.id ≠ []
  runId : trial.runId ≠ []
  taskId : trial.taskId ≠ []
  gapless : Gapless trial.steps
  score : ∀ x ∈ trial.score, x.isFinite = true
  startedAt : FourDigitYear trial.startedAt
  endedAt : ∀ t ∈ trial.endedAt, FourDigitYear t

/-- The number of a step. -/
theorem Gapless.stepId_eq {steps : List (TrajectoryStep host)} (h : Gapless steps) {i : ℕ}
    {step : TrajectoryStep host} (hi : steps[i]? = some step) : step.stepId = .ofNat (i + 1) := by
  have hmap : (steps.map TrajectoryStep.stepId)[i]? = some step.stepId := by
    rw [List.getElem?_map, hi, Option.map_some]
  obtain ⟨hlt, -⟩ := List.getElem?_eq_some_iff.mp hi
  rw [h, List.getElem?_map, List.getElem?_range hlt, Option.map_some, Option.some.injEq] at hmap
  exact hmap.symm

/-- A store with nothing in it. -/
theorem Gapless.nil : Gapless ([] : List (TrajectoryStep host)) := rfl

/-- The next step is one further. -/
theorem Gapless.append {steps steps' : List (TrajectoryStep host)} {step : TrajectoryStep host}
    (h : Gapless steps) (happend : Trajectories.appendStep steps step = .ok steps') :
    Gapless steps' := by
  obtain ⟨hstep, rfl⟩ := appendStep_eq_ok.mp happend
  unfold Gapless at h ⊢
  rw [List.map_append, h, List.length_append, List.length_singleton, List.range_succ,
    List.map_append, List.map_singleton, List.map_singleton, hstep]
  rfl

/-- Gapless steps have no issue. -/
theorem Gapless.sequenceIssues_eq {doc : JsVal} (h : Gapless trial.steps)
    (hdoc : propOf (js "steps") doc = .arr (trial.steps.map TrajectoryStep.value)) :
    sequenceIssues doc = [] := by
  unfold sequenceIssues
  rw [hdoc]
  apply List.filterMap_eq_nil_iff.mpr
  rintro ⟨value, index⟩ hmem
  have hindex := List.mem_zipIdx_iff_getElem?.mp hmem
  rw [List.getElem?_map, Option.map_eq_some_iff] at hindex
  obtain ⟨step, hstep, rfl⟩ := hindex
  have heq : (numberOf (js "step_id") step.value).eq (.ofNat (index + 1)) = true := by
    have hid : numberOf (js "step_id") step.value = .ofNat (index + 1) := h.stepId_eq hstep
    rw [hid]
    exact Number.eq_ofNat_self _
  dsimp only
  rw [if_pos heq]

/-- A property that may be left out is not in the way of another. -/
theorem getProp_optionalProp_append {key key' : JsString} {value : Option JsVal} {ps : Props}
    (hne : key ≠ key') : getProp (optionalProp key value ++ ps) key' = getProp ps key' := by
  cases value with
  | none => rfl
  | some v => exact if_neg hne

/-- The steps of the document. -/
theorem propOf_steps_toTrajectory (trial : TrialRecord host) :
    propOf (js "steps") (toTrajectory trial) = .arr (trial.steps.map TrajectoryStep.value) := by
  have hskip : getProp (optionalProp (js "ended_at")
      (trial.endedAt.map fun t => .str t.toISOString) ++
      ([(js "steps", .arr (trial.steps.map TrajectoryStep.value))] ++
      (optionalProp (js "outcome") (trial.outcome.map fun o => .str o.toJs) ++
      (optionalProp (js "score") (trial.score.map .num) ++
      optionalProp (js "isolation_backend")
        ((trial.isolationBackend.filter (· ≠ [])).map .str))))) (js "steps") =
      .arr (trial.steps.map TrajectoryStep.value) := by
    rw [getProp_optionalProp_append (by simp)]
    simp [getProp]
  simpa [toTrajectory, propOf, getProp] using hskip

/-- A text that is not empty. -/
theorem parse_nonEmptyText {s : JsString} (h : s ≠ []) :
    nonEmptyText.parse (.str s) = some (.str s) := by
  have hlength : 1 ≤ s.length := List.length_pos_iff.mpr h
  simp [nonEmptyText, Schema.parse, StringCheck.passes, hlength]

/-- A date with a year of four digits. -/
theorem parse_datetime {t : TimeValue} (h : FourDigitYear t) :
    (Schema.string [.datetime]).parse (.str t.toISOString) = some (.str t.toISOString) := by
  have hpasses := (isDatetime_toISOString t).mpr h
  simp [Schema.parse, StringCheck.passes, hpasses]

/-- A finite score. -/
theorem parse_finite {x : Number} (h : x.isFinite = true) :
    (Schema.number []).parse (.num x) = some (.num x) := by
  have hne : x ≠ .nan := by
    rintro rfl
    cases h
  simp [Schema.parse, hne]

/-- **The document of a trial** is accepted as it is. -/
theorem Exportable.parse_toTrajectory (h : Exportable trial) :
    (trajectorySchema host).parse (toTrajectory trial) = some (toTrajectory trial) := by
  have hsteps : ∀ v ∈ trial.steps.map TrajectoryStep.value,
      (trajectoryStepSchema host).parse v = some v := by
    intro v hv
    obtain ⟨step, -, rfl⟩ := List.mem_map.mp hv
    exact step.parse_value
  have hendedAt : ∀ v ∈ trial.endedAt.map fun t => JsVal.str t.toISOString,
      (Schema.string [.datetime]).parse v = some v := by
    intro v hv
    obtain ⟨t, ht, rfl⟩ := Option.map_eq_some_iff.mp hv
    exact parse_datetime (h.endedAt t ht)
  have houtcome : ∀ v ∈ trial.outcome.map fun o => JsVal.str o.toJs,
      (Schema.enum [js "success", js "failure", js "error", js "incomplete",
        js "blocked_by_policy"]).parse v = some v := by
    intro v hv
    obtain ⟨outcome, -, rfl⟩ := Option.map_eq_some_iff.mp hv
    cases outcome <;> simp [TrialOutcome.toJs, Schema.parse]
  have hscore : ∀ v ∈ trial.score.map JsVal.num, (Schema.number []).parse v = some v := by
    intro v hv
    obtain ⟨x, hx, rfl⟩ := Option.map_eq_some_iff.mp hv
    exact parse_finite (h.score x hx)
  have hbackend : ∀ v ∈ (trial.isolationBackend.filter (· ≠ [])).map JsVal.str,
      (Schema.string []).parse v = some v := by
    intro v hv
    obtain ⟨s, -, rfl⟩ := Option.map_eq_some_iff.mp hv
    simp [Schema.parse]
  have hlast : Schema.parseShape [(js "isolation_backend", .optional (.string []))]
      (optionalProp (js "isolation_backend")
        ((trial.isolationBackend.filter (· ≠ [])).map .str)) =
      some (optionalProp (js "isolation_backend")
        ((trial.isolationBackend.filter (· ≠ [])).map .str)) := by
    rw [← List.append_nil (optionalProp _ _)]
    exact Schema.parseShape_cons_optional hbackend List.not_mem_nil (by rw [Schema.parseShape])
  have hobject : (Schema.strict (trajectoryShape host)).parse (toTrajectory trial) =
      some (toTrajectory trial) := by
    apply Schema.parse_strict_self
    apply Schema.parseShape_cons_same
    · simp [Schema.parse]
    · simp
    apply Schema.parseShape_cons_same (parse_nonEmptyText h.id) (by simp)
    apply Schema.parseShape_cons_same (parse_nonEmptyText h.runId) (by simp)
    apply Schema.parseShape_cons_same (parse_nonEmptyText h.taskId) (by simp)
    apply Schema.parseShape_cons_same trial.agent.parse_value (by simp)
    apply Schema.parseShape_cons_same (parse_datetime h.startedAt) (by simp)
    apply Schema.parseShape_cons_optional _ (by simp)
    · apply Schema.parseShape_cons_same _ (by simp)
      · apply Schema.parseShape_cons_optional _ (by simp)
        · apply Schema.parseShape_cons_optional _ (by simp)
          · exact hlast
          · exact hscore
        · exact houtcome
      · rw [Schema.parse, Schema.mapM_self hsteps]
        rfl
    · exact hendedAt
  unfold trajectorySchema
  rw [Schema.parse, hobject]
  simp [h.gapless.sequenceIssues_eq (propOf_steps_toTrajectory trial)]

/-- A trial that has begun in a year of five digits, or before the year 0, is refused. -/
theorem parse_toTrajectory_eq_none (h : ¬ FourDigitYear trial.startedAt) :
    (trajectorySchema host).parse (toTrajectory trial) = none := by
  have hdate : isDatetime trial.startedAt.toISOString = false :=
    Bool.eq_false_iff.mpr fun hdate => h ((isDatetime_toISOString _).mp hdate)
  have hstarted : (Schema.string [.datetime]).parse (.str trial.startedAt.toISOString) = none := by
    simp [Schema.parse, StringCheck.passes, hdate]
  have hobject : (Schema.strict (trajectoryShape host)).parse (toTrajectory trial) = none := by
    apply @Schema.parse_strict_eq_none (.string [.datetime]) _ _ (js "started_at")
    · simp [trajectoryShape]
    · simpa [getProp] using hstarted
  rw [trajectorySchema, Schema.parse, hobject]
  rfl

end exportable

/-! ## Every run -/

section runs

variable {host : JsString → Number}

/-- Every trial of the store can be exported, and so can one that begins or ends now. -/
def TrialStores.Exportable (s : TrialStores host) : Prop :=
  FourDigitYear s.clock ∧ ∀ id t, s.trials.lookup id = some t → Trajectories.Exportable t

/-- Trials are created with identifiers and end with a finite score, if any. -/
def TrialEvent.Valid : TrialEvent host → Prop
  | create _ input => input.id ≠ [] ∧ input.runId ≠ [] ∧ input.taskId ≠ []
  | finish _ _ _ score => ∀ x ∈ score, x.isFinite = true
  | _ => True

/-- A trial that is stored. -/
theorem TrialStores.Exportable.set {s : TrialStores host} (h : s.Exportable) {id : JsString}
    {t : TrialRecord host} (ht : Trajectories.Exportable t) :
    TrialStores.Exportable { s with trials := setProp s.trials (id, t) } := by
  refine ⟨h.1, fun id' t' hlookup => ?_⟩
  rw [lookup_setProp] at hlookup
  split_ifs at hlookup with hid
  · rwa [← Option.some.inj hlookup]
  · exact h.2 id' t' hlookup

namespace InMemoryTrialStore

variable {ctx : TenantContext} {id : JsString}

/-- What an operation keeps. -/
abbrev KeepsExportable {α : Type} (t : Task (TrialStores host) (TrialPoint host) α) : Prop :=
  t.Each TrialStores.Exportable fun _ _ s' => s'.Exportable

/-- A trial that is created can be exported. -/
theorem createTrial_exportable {input : CreateTrialInput} {s : TrialStores host}
    (h : s.Exportable) (hvalid : input.id ≠ [] ∧ input.runId ≠ [] ∧ input.taskId ≠ []) :
    (createTrial ctx input s).2.Exportable := by
  unfold createTrial
  split_ifs with hexists
  · exact h
  · apply h.set
    exact ⟨hvalid.1, hvalid.2.1, hvalid.2.2, .nil, by simp, h.1, by simp⟩

/-- A write of a trial that can be exported. -/
theorem keepsExportable_write {trial : TrialRecord host} {w : TrialWrite host}
    (h : ∀ now, FourDigitYear now → Trajectories.Exportable (updated trial now w)) :
    KeepsExportable (write id trial w) := by
  apply Task.Each.await_self
  exact fun s hs => hs.set (h s.clock hs.1)

/-- A call that reads a trial first. -/
theorem keepsExportable_get {α : Type}
    {k : Option (TrialRecord host) → Task (TrialStores host) (TrialPoint host) α}
    (hnone : KeepsExportable (k none))
    (hsome : ∀ trial, Trajectories.Exportable trial → KeepsExportable (k (some trial))) :
    KeepsExportable (Task.await (.get id) (fun s => (getTrial ctx id s, s)) >>= k) := by
  apply Task.Each.await
  intro s hs
  refine ⟨hs, ?_⟩
  cases htrial : getTrial ctx id s with
  | none => exact hnone
  | some trial => exact hsome trial (hs.2 id trial (lookup_of_getTrial htrial))

/-- Source: `store.ts`, `InMemoryTrialStore.appendStep` -/
theorem keepsExportable_appendStep {step : TrajectoryStep host} :
    KeepsExportable (appendStep ctx id step) := by
  unfold appendStep
  apply keepsExportable_get
  · trivial
  · intro trial htrial
    dsimp only
    split_ifs with hstatus
    · trivial
    · cases hsteps : Trajectories.appendStep trial.steps step with
      | error e => trivial
      | ok steps =>
        refine Task.Each.bind (keepsExportable_write fun now hnow => ?_) fun _ => trivial
        exact { htrial with gapless := htrial.gapless.append hsteps }

/-- Source: `store.ts`, `InMemoryTrialStore.finishTrial` -/
theorem keepsExportable_finishTrial {outcome : TrialOutcome} {score : Option Number}
    (hscore : ∀ x ∈ score, x.isFinite = true) :
    @KeepsExportable host _ (finishTrial ctx id outcome score) := by
  unfold finishTrial
  apply keepsExportable_get
  · trivial
  · intro trial htrial
    refine Task.Each.bind (keepsExportable_write fun now hnow => ?_) fun _ => trivial
    refine { htrial with score := ?_, endedAt := ?_ }
    · intro x hx
      cases score with
      | none => exact htrial.score x hx
      | some y => exact hscore x hx
    · intro t ht
      rwa [← Option.some.inj ht]

/-- Source: `store.ts`, `InMemoryTrialStore.setTrialStatus` -/
theorem keepsExportable_setTrialStatus {status : TrialStatus} {approvalId : Option JsString} :
    @KeepsExportable host _ (setTrialStatus ctx id status approvalId) := by
  unfold setTrialStatus
  apply keepsExportable_get
  · trivial
  · intro trial htrial
    refine Task.Each.bind (keepsExportable_write fun now hnow => ?_) fun _ => trivial
    exact { htrial with }

end InMemoryTrialStore

/-- What a step keeps. -/
theorem TrialServer.step_exportable {server : TrialServer host}
    (h : server.Each TrialStores.Exportable fun _ _ s' => s'.Exportable) {e : TrialEvent host}
    (hvalid : e.Valid) (htick : ∀ now, e = .tick now → FourDigitYear now) :
    (server.step e).Each TrialStores.Exportable fun _ _ s' => s'.Exportable := by
  apply Pool.Each.step h
  · exact fun _ _ _ _ hs' => hs'
  · intro t ht
    cases e with
    | create ctx input =>
      obtain rfl := Event.spawn.inj ht
      apply Task.Each.await
      exact fun s hs => ⟨InMemoryTrialStore.createTrial_exportable hs hvalid, trivial⟩
    | append ctx id step =>
      obtain rfl := Event.spawn.inj ht
      exact InMemoryTrialStore.keepsExportable_appendStep.bind fun _ => trivial
    | finish ctx id outcome score =>
      obtain rfl := Event.spawn.inj ht
      exact (InMemoryTrialStore.keepsExportable_finishTrial hvalid).bind fun _ => trivial
    | setStatus ctx id status approvalId =>
      obtain rfl := Event.spawn.inj ht
      exact InMemoryTrialStore.keepsExportable_setTrialStatus.bind fun _ => trivial
    | resume i => cases ht
    | tick now => cases ht
  · intro update hupdate
    cases e with
    | tick now =>
      obtain rfl := Event.other.inj hupdate
      exact ⟨htick now rfl, h.1.2⟩
    | create ctx input => cases hupdate
    | append ctx id step => cases hupdate
    | finish ctx id outcome score => cases hupdate
    | setStatus ctx id status approvalId => cases hupdate
    | resume i => cases hupdate

/-- What a whole run keeps. -/
theorem TrialServer.run_exportable {server : TrialServer host}
    (h : server.Each TrialStores.Exportable fun _ _ s' => s'.Exportable)
    {events : List (TrialEvent host)} (hvalid : ∀ e ∈ events, e.Valid)
    (hticks : ∀ now, .tick now ∈ events → FourDigitYear now) :
    (server.run events).Each TrialStores.Exportable fun _ _ s' => s'.Exportable := by
  induction events generalizing server with
  | nil => exact h
  | cons e events ih =>
    obtain ⟨he, hevents⟩ := List.forall_mem_cons.mp hvalid
    refine ih (step_exportable h he ?_) hevents fun now hnow => ?_
    · rintro now rfl
      exact hticks now (List.mem_cons_self ..)
    · exact hticks now (List.mem_cons_of_mem _ hnow)

/-- **Every trial of every run** has gapless steps, and its document is read back unchanged. -/
theorem trial_exportable {safeParse : Schema → JsVal → Except (List Issue) JsVal}
    (hzod : ∀ s v w, safeParse s v = .ok w ↔ s.parse v = some w) {clock : TimeValue}
    (hclock : FourDigitYear clock) {events : List (TrialEvent host)}
    (hvalid : ∀ e ∈ events, e.Valid) (hticks : ∀ now, .tick now ∈ events → FourDigitYear now)
    {id : JsString} {t : TrialRecord host}
    (ht : ((TrialServer.start host clock).run events).shared.trials.lookup id = some t) :
    Gapless t.steps ∧ parseTrajectory safeParse host (toTrajectory t) = .ok (toTrajectory t) := by
  have hstart : (TrialServer.start host clock).Each TrialStores.Exportable
      fun _ _ s' => s'.Exportable := by
    refine ⟨⟨hclock, fun id t h => ?_⟩, fun t h => absurd h List.not_mem_nil⟩
    cases h
  have hexportable := (TrialServer.run_exportable hstart hvalid hticks).1.2 id t ht
  refine ⟨hexportable.gapless, ?_⟩
  unfold parseTrajectory
  rw [(hzod _ _ _).mpr hexportable.parse_toTrajectory]

end runs

/-! ## A trial of one step -/

section examples

/-- The beginning of the count of time. -/
def epoch : TimeValue := ⟨0, TimeValue.zero_inRange⟩

/-- It is a date of the year 1970. -/
theorem fourDigitYear_epoch : FourDigitYear epoch := by
  norm_num [epoch, FourDigitYear, TimeValue.year, TimeValue.day, yearFromDay, dayFromYear]

/-- An agent. -/
def agentProps : Props :=
  [(js "model_identifier", .str (js "m")), (js "provider", .str (js "p")),
    (js "system_prompt", .str (js "s"))]

/-- The schema accepts it. -/
theorem parse_agentProps :
    agentDescriptorSchema.parse (.obj agentProps) = some (.obj agentProps) := by
  apply Option.filter_eq_some_iff.mpr
  exact ⟨Schema.parse_strict_self rfl, rfl⟩

/-- The agent. -/
def sampleAgent : AgentDescriptor := ⟨.obj agentProps, ⟨_, parse_agentProps⟩⟩

/-- A first step. -/
def stepProps (startedAt : TimeValue) : Props :=
  [(js "step_id", .num (.ofNat 1)), (js "started_at", .str startedAt.toISOString),
    (js "tool_calls", .arr [])]

variable (host : JsString → Number) {clock : TimeValue}

/-- The schema accepts it. -/
theorem parse_stepProps (hclock : FourDigitYear clock) :
    (trajectoryStepSchema host).parse (.obj (stepProps clock)) = some (.obj (stepProps clock)) := by
  apply Option.filter_eq_some_iff.mpr
  refine ⟨Schema.parse_strict_self ?_, rfl⟩
  apply Schema.parseShape_cons_same
  · have hint : (Number.ofNat 1).isInteger = true := Number.isInteger_ofNat (by norm_num)
    have hmin : (Number.ofNat 1).le (.ofNat 1) = true := by simp
    have hne : Number.ofNat 1 ≠ .nan := by
      rw [Number.ofNat_eq (by norm_num)]
      rintro ⟨⟩
    simp [Schema.parse, NumberCheck.passes, hint, hmin, hne]
  · simp
  apply Schema.parseShape_cons_same (parse_datetime hclock) (by simp)
  apply Schema.parseShape_cons_missing (by simp)
  apply Schema.parseShape_cons_missing (by simp)
  apply Schema.parseShape_cons_missing (by simp)
  apply Schema.parseShape_cons_same _ (by simp)
  · apply Schema.parseShape_cons_missing (by simp)
    apply Schema.parseShape_cons_missing (by simp)
    apply Schema.parseShape_cons_missing (by simp)
    apply Schema.parseShape_cons_missing (by simp)
    apply Schema.parseShape_cons_missing (by simp)
    rw [Schema.parseShape]
  · rfl

/-- The step. -/
def sampleStep (startedAt : TimeValue) (h : FourDigitYear startedAt) : TrajectoryStep host :=
  ⟨.obj (stepProps startedAt), ⟨_, parse_stepProps host h⟩⟩

variable {host}

/-- The number of the step. -/
theorem stepId_sampleStep (hclock : FourDigitYear clock) :
    (sampleStep host clock hclock).stepId = .ofNat 1 := by
  simp [sampleStep, stepProps, TrajectoryStep.stepId, numberOf, propOf, getProp]

/-- A caller. -/
def sampleContext : TenantContext := ⟨js "t", js "u", []⟩

/-- What a trial is created with. -/
def sampleInput : CreateTrialInput := ⟨js "a", js "r", js "k", sampleAgent, none⟩

/-- What has been created. -/
def sampleTrial (host : JsString → Number) (clock : TimeValue) : TrialRecord host where
  id := js "a"
  tenantId := js "t"
  runId := js "r"
  taskId := js "k"
  status := .running
  agent := sampleAgent
  steps := []
  startedAt := clock
  endedAt := none
  outcome := none
  score := none
  isolationBackend := none
  pendingApprovalId := none

/-- The store with it. -/
def sampleStores (host : JsString → Number) (clock : TimeValue) : TrialStores host :=
  ⟨[(js "a", sampleTrial host clock)], clock⟩

/-- It is created. -/
theorem run_create (clock : TimeValue) :
    (TrialServer.start host clock).run [.create sampleContext sampleInput, .resume 0] =
      ⟨sampleStores host clock, [.done (.created (.ok (sampleTrial host clock)))]⟩ := rfl

/-- It is found. -/
theorem getTrial_sampleStores (clock : TimeValue) :
    InMemoryTrialStore.getTrial sampleContext (js "a") (sampleStores host clock) =
      some (sampleTrial host clock) := by
  simp [InMemoryTrialStore.getTrial, sampleContext, sampleStores, sampleTrial]

/-- It is overwritten. -/
theorem setProp_sampleStores (clock : TimeValue) (t : TrialRecord host) :
    setProp (sampleStores host clock).trials (js "a", t) = [(js "a", t)] := by
  simp [sampleStores, setProp]

/-- The trial with one step. -/
def oneStep (clock : TimeValue) (step : TrajectoryStep host) : TrialRecord host :=
  { sampleTrial host clock with steps := [step] }

/-- A step is appended to it. -/
theorem run_append {step : TrajectoryStep host} (hstep : step.stepId = .ofNat 1)
    (clock : TimeValue) :
    (TrialServer.start host clock).run [.create sampleContext sampleInput, .resume 0,
        .append sampleContext (js "a") step, .resume 1, .resume 1] =
      ⟨⟨[(js "a", oneStep clock step)], clock⟩,
        [.done (.created (.ok (sampleTrial host clock))),
          .done (.appended (js "a") step (.ok (oneStep clock step)))]⟩ := by
  have hsplit : (TrialServer.start host clock).run [.create sampleContext sampleInput, .resume 0,
      .append sampleContext (js "a") step, .resume 1, .resume 1] =
      TrialServer.run ((TrialServer.start host clock).run
        [.create sampleContext sampleInput, .resume 0])
        [.append sampleContext (js "a") step, .resume 1, .resume 1] := TrialServer.run_concat _ [_, _] _
  rw [hsplit, run_create, TrialServer.run_spawn rfl, TrialServer.run_resume rfl
      (InMemoryTrialStore.resume_appendStep (getTrial_sampleStores clock) rfl hstep),
    TrialServer.run_resume rfl InMemoryTrialStore.resume_write, setProp_sampleStores]
  rfl

/-- At the epoch, with a trial of one step. -/
theorem trial_exportable_one : ∃ (host : JsString → Number) (t : TrialRecord host),
    t.steps.length = 1 ∧ Gapless t.steps ∧
      parseTrajectory Schema.safeParse host (toTrajectory t) = .ok (toTrajectory t) := by
  have hclock : FourDigitYear epoch := fourDigitYear_epoch
  refine ⟨fun _ => .nan, oneStep epoch (sampleStep _ epoch hclock), rfl,
    @trial_exportable _ _ Schema.safeParse_eq_ok epoch hclock
      [.create sampleContext sampleInput, .resume 0, .append sampleContext (js "a")
        (sampleStep _ epoch hclock), .resume 1, .resume 1] ?_ ?_ (js "a") _ ?_⟩
  · simp [TrialEvent.Valid, sampleInput]
  · simp
  · rw [run_append (stepId_sampleStep hclock)]
    exact List.lookup_cons_self

/-- The first millisecond of the year 10000. -/
def year10000 : TimeValue := ⟨253402300800000, by norm_num⟩

/-- **A trial of the year 10000** is refused: the schema wants years of four digits. -/
theorem trial_unexportable : ∃ (events : List (TrialEvent fun _ => .nan)) (id : JsString)
    (t : TrialRecord fun _ => .nan), (∀ e ∈ events, e.Valid) ∧
      ((TrialServer.start (fun _ => .nan) year10000).run events).shared.trials.lookup id = some t ∧
      parseTrajectory Schema.safeParse (fun _ => .nan) (toTrajectory t) ≠ .ok (toTrajectory t) := by
  refine ⟨[.create sampleContext sampleInput, .resume 0], js "a", sampleTrial _ year10000, ?_, ?_,
    ?_⟩
  · simp [TrialEvent.Valid, sampleInput]
  · rw [run_create]
    exact List.lookup_cons_self
  · have hyear : ¬ FourDigitYear year10000 := by
      norm_num [FourDigitYear, year10000, TimeValue.year, TimeValue.day, yearFromDay, dayFromYear]
    intro h
    rw [parseTrajectory, Schema.safeParse,
      @parse_toTrajectory_eq_none _ (sampleTrial _ year10000) hyear] at h
    cases h

end examples

end AgentEval.Trajectories
