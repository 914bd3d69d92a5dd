import AgentEval.Api.ProofRoutes
import AgentEval.Evidence.Manifest
import AgentEval.Store.RunTasks

/-!
# `api/app.ts`: the routes that start and cancel runs

The handlers of `POST /v1/runs` and `POST /v1/runs/:id/cancel` as tasks on the stores, with the
gate of `tasks/registry.ts` in front of held-out splits. `String.prototype.toUpperCase`, which goes
by the tables of Unicode, is a parameter.
-/

namespace AgentEval.Api

open Js Evidence Store Async

/-! ## Splits -/

/-- Source: `tasks/registry.ts`, `Split` -/
inductive Split where
  /-- For training. -/
  | train
  /-- For development. -/
  | dev
  /-- Kept away from both. -/
  | heldOut
  deriving DecidableEq

/-- The name of a split. -/
def Split.toJs : Split → JsString
  | train => js "TRAIN"
  | dev => js "DEV"
  | heldOut => js "HELD_OUT"

/-- Source: `tasks/registry.ts`, `HELD_OUT_SCOPE` -/
def heldOutScope : JsString := js "splits:held-out"

/-- `s.replace(/[\s-]+/g, '_')`, after a separator or not. -/
def joinWords (after : Bool) : JsString → JsString
  | [] => []
  | u :: s =>
    if isWhiteSpace u || u == 45 then if after then joinWords true s else 95 :: joinWords true s
    else u :: joinWords false s

/-- Source: `tasks/registry.ts`, `normalizeSplit` -/
def normalizeSplit (toUpperCase : JsString → JsString) (raw : JsString) : Option Split :=
  let k := joinWords false (toUpperCase (trim raw))
  if k = js "HELD_OUT" ∨ k = js "HELDOUT" then some .heldOut
  else if k = js "TRAIN" ∨ k = js "TRAINING" then some .train
  else if k = js "DEV" ∨ k = js "VALIDATION" ∨ k = js "VAL" then some .dev
  else none

/-- The reason for a refusal, `none` when the split may be used.
Source: `tasks/registry.ts`, `checkSplitAccess` -/
def checkSplitAccess (ctx : TenantContext) (split : Split) : Option JsString :=
  if split ≠ .heldOut then none
  else if heldOutScope ∈ ctx.scopes then none
  else some (js "Scheduling a run against a HELD_OUT split requires the \"" ++ heldOutScope ++
    js "\" scope. " ++
    js "Held-out results are only meaningful while the split stays out of the loop that " ++
    js "produced the model, so this is not overridable.")

/-- Source: `tasks/registry.ts`, `splitDenialAudit` -/
def splitDenialAudit (ctx : TenantContext) (taskSetId taskSetVersion : JsString) (split : Split)
    (contentHash : JsString) : PlainObject where
  props := [(js "taskSetId", .str taskSetId), (js "taskSetVersion", .str taskSetVersion),
    (js "split", .str split.toJs), (js "contentHash", .str contentHash),
    (js "requiredScope", .str heldOutScope), (js "heldScopes", .arr (ctx.scopes.map .str))]
  wf := by
    refine JsVal.wf_obj.mpr ⟨?_, ?_⟩
    · change [js "taskSetId", js "taskSetVersion", js "split", js "contentHash",
        js "requiredScope", js "heldScopes"].Nodup
      simp
    · simp only [List.forall_mem_cons]
      refine ⟨trivial, trivial, trivial, trivial, trivial, ?_, List.forall_mem_nil _⟩
      exact JsVal.wf_arr.mpr (List.forall_mem_map.mpr fun _ _ => trivial)

/-! ## `POST /v1/runs` -/

/-- Source: `schemas/index.ts`, `startRunSchema`, `isolationBackend` -/
def isolationBackends : List JsString :=
  [js "firecracker", js "cloud-hypervisor", js "gvisor", js "kata", js "trusted-dev",
    js "local-process", js "model"]

/-- A body that the schema accepts.
Source: `schemas/index.ts`, `StartRunInput` -/
structure StartRunInput where
  /-- The image. -/
  environmentId : JsString
  /-- Its digest. -/
  environmentDigest : JsString
  /-- The task set. -/
  taskSetId : JsString
  /-- Its version. -/
  taskSetVersion : JsString
  /-- The split. -/
  split : JsString
  /-- The verifier. -/
  verifierId : JsString
  /-- Its version. -/
  verifierVersion : JsString
  /-- The model. -/
  model : ModelPin
  /-- Stored provider credential, when one is named. -/
  credentialId : Option JsString
  /-- The seed, `none` for `null`. -/
  seed : Option Number
  /-- Isolation backend. -/
  isolationBackend : JsString
  /-- Versions of everything in the loop. -/
  toolchain : StringRecord
  /-- The rules the evidence is kept under. -/
  retentionRules : List JsString
  environmentId_ne : environmentId ≠ []
  digest_ok : isSha256Digest environmentDigest = true
  taskSetId_ne : taskSetId ≠ []
  taskSetVersion_ne : taskSetVersion ≠ []
  split_ne : split ≠ []
  verifierId_ne : verifierId ≠ []
  verifierVersion_ne : verifierVersion ≠ []
  identifier_ne : model.identifier ≠ []
  sampling_ne : model.sampling.props ≠ []
  credentialId_ne : credentialId ≠ some []
  seed_int : ∀ x ∈ seed, x.isInteger = true
  backend_mem : isolationBackend ∈ isolationBackends
  toolchain_ne : toolchain.entries ≠ []
  rules_ne : retentionRules ≠ [] ∧ [] ∉ retentionRules

/-- What the manifest of a run is made from.
Source: `app.ts`, `POST /v1/runs` -/
def StartRunInput.manifestInput (input : StartRunInput) (runId splitHash : JsString) :
    ManifestInput where
  runId := runId
  environment := ⟨input.environmentId, input.environmentDigest⟩
  model := input.model
  taskSet := ⟨input.taskSetId, input.taskSetVersion, input.split, splitHash, .ofNat 1⟩
  verifier := ⟨input.verifierId, input.verifierVersion⟩
  seed := input.seed
  toolchain := input.toolchain
  isolationBackend := input.isolationBackend

/-- The record of a run that waits for a worker.
Source: `app.ts`, `POST /v1/runs` -/
def StartRunInput.record (input : StartRunInput) (ctx : TenantContext) (runId : JsString)
    (manifest : PlainObject) (createdAt : TimeValue) : RunRecord where
  id := runId
  tenantId := ctx.tenantId
  status := .queued
  manifest := manifest
  retentionRules := input.retentionRules
  createdAt := createdAt
  startedAt := none
  completedAt := none
  claimedBy := none
  claimedAt := none
  failureReason := none
  credentialId := input.credentialId
  executionEnvironment := none

/-- The detail of the event that starts a run. -/
def startedPayload (input : StartRunInput) : StringRecord where
  entries := [(js "environmentDigest", input.environmentDigest),
    (js "model", input.model.identifier), (js "isolationBackend", input.isolationBackend)]
  distinct := by
    change [js "environmentDigest", js "model", js "isolationBackend"].Nodup
    simp

/-- What a request has come to at its first `await`. -/
inductive Submission where
  /-- It is refused. -/
  | refused (p : Problem)
  /-- It is refused for its split, and the refusal was sent to the log. -/
  | denied (reason : JsString) (appended : Except JsError AuditEntry)
  /-- The run is stored. -/
  | created (run : RunRecord)

/-- A response of one of the routes. -/
inductive RunResponse where
  /-- A problem, with its status. -/
  | problem (p : Problem)
  /-- `403` for a held-out split. -/
  | splitDenied (reason requiredScope : JsString)
  /-- `202` for a run that was accepted. -/
  | accepted (runId : JsString) (status : RunStatus)
  /-- The record of a run. -/
  | run (record : RunRecord)

/-- The split of a request and the reason why the caller may not use it, if there is one.
Source: `app.ts`, `POST /v1/runs` -/
def splitDenial (toUpperCase : JsString → JsString) (ctx : TenantContext) (input : StartRunInput) :
    Option (Split × JsString) :=
  (normalizeSplit toUpperCase input.split).bind fun split =>
    (checkSplitAccess ctx split).map fun reason => (split, reason)

/-- The manifest of a run, with the hash of its split.
Source: `app.ts`, `POST /v1/runs` -/
def pinRun (input : StartRunInput) (runId : JsString) (now : TimeValue) :
    Except JsError (JsString × PlainObject) := do
  let splitHash ← (hashSplit [input.taskSetId, input.taskSetVersion, input.split]).mapError
    CanonicalizationError.toJsError
  let manifest ← createManifest (input.manifestInput runId splitHash) now
  return (splitHash, manifest)

/-- Everything up to the first `await`: the checks, then the record.
Source: `app.ts`, `POST /v1/runs` -/
def submit (toUpperCase : JsString → JsString) (ctx : TenantContext) (input : StartRunInput)
    (s : Stores) : Submission × Stores :=
  let (runId, s') := s.newId (js "run")
  match pinRun input runId s.clock with
  | .error e =>
    (.refused (problem (js "manifest-incomplete") (js "Run manifest is not reproducible") 422
      (some e.message) none), s')
  | .ok (splitHash, manifest) =>
    match resolveRetention input.retentionRules s.clock with
    | .error e =>
      (.refused (problem (js "retention-unresolvable") (js "Retention rules cannot be resolved") 422
        (some e.message) (some (js "retentionRules"))), s')
    | .ok _ =>
      match splitDenial toUpperCase ctx input with
      | some (split, reason) =>
        let (appended, s'') := s'.append ctx ⟨js "run.split_access_denied", some input.taskSetId,
          some (splitDenialAudit ctx input.taskSetId input.taskSetVersion split splitHash), none⟩
        (.denied reason appended, s'')
      | none =>
        let (run, runs) := InMemoryRunStore.create ctx (input.record ctx runId manifest s.clock)
          s'.runs
        (.created run, { s' with runs := runs })

section

variable {toUpperCase : JsString → JsString} {ctx : TenantContext} {input : StartRunInput}
  {s : Stores}

/-- A run has its manifest when the input is complete, whatever the hash of the split. -/
theorem pinRun_eq_ok {runId splitHash : JsString} {now : TimeValue} {manifest : PlainObject} :
    pinRun input runId now = .ok (splitHash, manifest) ↔
      hashSplit [input.taskSetId, input.taskSetVersion, input.split] = .ok splitHash ∧
        (input.manifestInput runId splitHash).Complete ∧
        manifest = (input.manifestInput runId splitHash).manifest now.toISOString := by
  obtain ⟨d, hd⟩ := exists_hashSplit [input.taskSetId, input.taskSetVersion, input.split]
  rw [pinRun, hd, ← createManifest_eq_ok]
  change (createManifest (input.manifestInput runId (toHex d.bytes)) now >>= fun manifest =>
    Except.ok (toHex d.bytes, manifest)) = _ ↔ _
  constructor
  · intro h
    cases hm : createManifest (input.manifestInput runId (toHex d.bytes)) now with
    | error e =>
      rw [hm] at h
      cases h
    | ok m =>
      rw [hm] at h
      cases h
      exact ⟨rfl, hm⟩
  · rintro ⟨hsplit, hm⟩
    cases hsplit
    rw [hm]
    rfl

/-- **A run that is stored** has passed every check. -/
theorem submit_created {run : RunRecord} (h : (submit toUpperCase ctx input s).1 = .created run) :
    ∃ splitHash, (input.manifestInput (s.newId (js "run")).1 splitHash).Complete ∧
      (∃ retention, resolveRetention input.retentionRules s.clock = .ok retention) ∧
      run = input.record ctx (s.newId (js "run")).1
        ((input.manifestInput (s.newId (js "run")).1 splitHash).manifest s.clock.toISOString)
        s.clock ∧
      (submit toUpperCase ctx input s).2 =
        { (s.newId (js "run")).2 with runs := setProp s.runs (run.id, run) } := by
  rw [submit] at h ⊢
  dsimp only at h ⊢
  split at h
  · cases h
  · rename_i splitHash manifest hpin
    split at h
    · cases h
    · rename_i retention hretention
      split at h
      · cases h
      · rename_i hdenial
        obtain ⟨-, hcomplete, rfl⟩ := pinRun_eq_ok.mp hpin
        cases h
        exact ⟨splitHash, hcomplete, ⟨retention, hretention⟩, rfl, rfl⟩

/-- A run that passes every check is stored. -/
theorem exists_submit
    (hcomplete : ∀ splitHash, isHex64 splitHash = true →
      (input.manifestInput (s.newId (js "run")).1 splitHash).Complete)
    (hretention : ∃ retention, resolveRetention input.retentionRules s.clock = .ok retention)
    (hdenial : splitDenial toUpperCase ctx input = none) :
    ∃ run, (submit toUpperCase ctx input s).1 = .created run := by
  obtain ⟨d, hd⟩ := exists_hashSplit [input.taskSetId, input.taskSetVersion, input.split]
  obtain ⟨retention, hretention⟩ := hretention
  rw [submit]
  dsimp only
  rw [pinRun_eq_ok.mpr ⟨hd, hcomplete _ (isHex64_toHex d), rfl⟩, hretention, hdenial]
  exact ⟨_, rfl⟩

end

/-- A request with everything it needs. -/
def plainInput : StartRunInput where
  environmentId := js "environment"
  environmentDigest := js "sha256:" ++ toHex (Sha256.sha256 []).bytes
  taskSetId := js "tasks"
  taskSetVersion := js "1"
  split := js "DEV"
  verifierId := js "verifier"
  verifierVersion := js "1"
  model := ⟨js "local/model", StringRecord.toObject ⟨[(js "mode", js "greedy")],
    List.nodup_singleton _⟩, none⟩
  credentialId := none
  seed := none
  isolationBackend := js "model"
  toolchain := ⟨[(js "platform", js "1.0.0")], List.nodup_singleton _⟩
  retentionRules := [js "eu-ai-act-art-19"]
  environmentId_ne := by simp
  digest_ok := by
    have h : (js "sha256:").length = 7 := rfl
    rw [isSha256Digest, ← h, List.take_left, List.drop_left, isHex64_toHex, decide_eq_true rfl]
    rfl
  taskSetId_ne := by simp
  taskSetVersion_ne := by simp
  split_ne := by simp
  verifierId_ne := by simp
  verifierVersion_ne := by simp
  identifier_ne := by simp
  sampling_ne := List.cons_ne_nil _ _
  credentialId_ne := nofun
  seed_int := fun _ h => nomatch h
  backend_mem := by simp only [isolationBackends, List.mem_cons, or_true, true_or]
  toolchain_ne := List.cons_ne_nil _ _
  rules_ne := ⟨List.cons_ne_nil _ _, by simp⟩

/-- The first instant. -/
def epoch : TimeValue := ⟨0, TimeValue.zero_inRange⟩

/-- The stores of a server that has just started. -/
def startStores : Stores := ⟨.new, [], [], epoch, 0⟩

/-- A new identifier is not blank. -/
theorem notBlank_newId (s : Stores) : NotBlank (s.newId (js "run")).1 := by
  have hrun : (js "run").all isWhiteSpace = false := rfl
  rw [NotBlank, Stores.newId]
  simp only [List.all_append, hrun, Bool.false_and]

/-- The same request under other rules. -/
def rulesInput (rules : List JsString) (hrules : rules ≠ [] ∧ [] ∉ rules) : StartRunInput :=
  { plainInput with
    retentionRules := rules
    rules_ne := hrules }

/-- The request is accepted under all known rules. -/
theorem exists_submit_rulesInput (toUpperCase : JsString → JsString) (ctx : TenantContext)
    (hscope : heldOutScope ∈ ctx.scopes) (s : Stores) {rules : List JsString}
    (hrules : rules ≠ [] ∧ [] ∉ rules) {first : RetentionRule} {applied : List RetentionRule}
    (hknown : rules.map lookupRule = (first :: applied).map some) :
    ∃ run, (submit toUpperCase ctx (rulesInput rules hrules) s).1 = .created run := by
  refine exists_submit (fun splitHash hhash => ?_) ⟨_, resolveRetention_eq hknown _⟩ ?_
  · have hblank : ∀ t ∈ [js "local/model", js "tasks", js "1", js "DEV", js "verifier",
        js "model"], NotBlank t := by
      simp only [NotBlank]
      decide
    have hcount : (Number.ofNat 1).le (.ofNat 0) = false := by simp
    refine ⟨notBlank_newId s, plainInput.digest_ok, hblank _ ?_, hblank _ ?_, hblank _ ?_,
      hblank _ ?_, hblank _ ?_, hblank _ ?_, hblank _ ?_, hhash, hcount, plainInput.toolchain_ne⟩
    all_goals simp [rulesInput, plainInput, StartRunInput.manifestInput]
  · rw [splitDenial, Option.bind_eq_none_iff]
    intro split _
    rw [checkSplitAccess, if_pos hscope, ite_self]
    rfl

/-- The request is accepted. -/
theorem exists_submit_plainInput (toUpperCase : JsString → JsString) (ctx : TenantContext)
    (hscope : heldOutScope ∈ ctx.scopes) (s : Stores) :
    ∃ run, (submit toUpperCase ctx plainInput s).1 = .created run := by
  obtain ⟨rule, hrule⟩ : ∃ rule, lookupRule (js "eu-ai-act-art-19") = some rule := ⟨_, rfl⟩
  have hrules : plainInput.retentionRules.map lookupRule = [rule].map some := by
    rw [plainInput, List.map_singleton, hrule]
    rfl
  exact exists_submit_rulesInput toUpperCase ctx hscope s plainInput.rules_ne hrules

/-- The response to a thrown error. -/
def runThrown (e : JsError) : RunResponse := .problem (errorHandler none e.message)

/-- The response to a caller without the scope.
Source: `app.ts`, `requireScope` -/
def runMissingScope (scope : JsString) : RunResponse :=
  .problem (errorHandler (some 403) (js "missing required scope: " ++ scope))

/-- Source: `app.ts`, `POST /v1/runs` -/
def postRun (toUpperCase : JsString → JsString) (ctx : TenantContext) (input : StartRunInput) :
    Task Stores RunPoint RunResponse :=
  if js "runs:write" ∉ ctx.scopes then return runMissingScope (js "runs:write")
  else do
    let submission ← Task.await .submit (submit toUpperCase ctx input)
    match submission with
    | .refused p => return .problem p
    | .denied _ (.error e) => return runThrown e
    | .denied reason (.ok _) => return .splitDenied reason heldOutScope
    | .created run =>
      let appended ← appendEvent ctx ⟨js "run.started", some run.id,
        some (startedPayload input).toObject, none⟩
      match appended with
      | .error e => return runThrown e
      | .ok _ => return .accepted run.id run.status

/-! ## `POST /v1/runs/:id/cancel` -/

/-- Source: `app.ts`, `POST /v1/runs/:id/cancel` -/
def cancelRun (ctx : TenantContext) (id : JsString) : Task Stores RunPoint RunResponse :=
  if js "runs:write" ∉ ctx.scopes then return runMissingScope (js "runs:write")
  else do
    let run ← setStatus ctx id .cancelled
    match run with
    | none => return .problem (problem (js "not-found") (js "Run not found") 404 none none)
    | some run =>
      let appended ← appendEvent ctx ⟨js "run.cancelled", some run.id, none, none⟩
      match appended with
      | .error e => return runThrown e
      | .ok _ => return .run run

end AgentEval.Api
