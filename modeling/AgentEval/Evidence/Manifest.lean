import AgentEval.Evidence.Canonical
import AgentEval.Js.Decimal

/-!
# `reproducibility.ts`: the manifest of a run

A manifest states what was run. It is checked when it is made, so that a run that cannot say what it
ran fails before it starts.

* **`createManifest_eq_ok`**: a manifest comes from an input that passes every check.
* **`isJson_manifest_iff`**: a manifest can be hashed exactly when its sampling parameters and its
  seed can.
-/

namespace AgentEval.Evidence

open Js Sha256

/-! ## What a run states -/

/-- A container image.
Source: `reproducibility.ts`, `ImagePin` -/
structure ImagePin where
  /-- A label. -/
  reference : JsString
  /-- The identity. -/
  digest : JsString

/-- Source: `reproducibility.ts`, `ModelPin` -/
structure ModelPin where
  /-- Identifier with its provider. -/
  identifier : JsString
  /-- Sampling parameters that affect output. -/
  sampling : PlainObject
  /-- Version the provider reports, when it does. -/
  providerVersion : Option JsString

/-- Source: `reproducibility.ts`, `TaskSetPin` -/
structure TaskSetPin where
  /-- The task set. -/
  id : JsString
  /-- Its version. -/
  version : JsString
  /-- Which split was used. -/
  split : JsString
  /-- Hash over the split. -/
  splitHash : JsString
  /-- How many tasks it has. -/
  taskCount : Number

/-- Source: `reproducibility.ts`, `VerifierPin` -/
structure VerifierPin where
  /-- The verifier. -/
  id : JsString
  /-- Its version. -/
  version : JsString

/-- What a manifest is made from.
Source: `reproducibility.ts`, `ReproducibilityManifest` -/
structure ManifestInput where
  /-- The run. -/
  runId : JsString
  /-- The image. -/
  environment : ImagePin
  /-- The model. -/
  model : ModelPin
  /-- The tasks. -/
  taskSet : TaskSetPin
  /-- The verifier. -/
  verifier : VerifierPin
  /-- The seed, `none` for `null`. -/
  seed : Option Number
  /-- Versions of everything in the loop. -/
  toolchain : StringRecord
  /-- Isolation backend. -/
  isolationBackend : JsString

/-! ## The manifest -/

/-- The object of an image. -/
def ImagePin.toJs (image : ImagePin) : JsVal :=
  .obj [(js "reference", .str image.reference), (js "digest", .str image.digest)]

/-- The object of a model; a version that is not there is left out. -/
def ModelPin.toJs (model : ModelPin) : JsVal :=
  .obj ([(js "identifier", .str model.identifier), (js "sampling", model.sampling.toJs)] ++
    model.providerVersion.elim [] fun v => [(js "providerVersion", .str v)])

/-- The object of a task set. -/
def TaskSetPin.toJs (taskSet : TaskSetPin) : JsVal :=
  .obj [(js "id", .str taskSet.id), (js "version", .str taskSet.version),
    (js "split", .str taskSet.split), (js "splitHash", .str taskSet.splitHash),
    (js "taskCount", .num taskSet.taskCount)]

/-- The object of a verifier. -/
def VerifierPin.toJs (verifier : VerifierPin) : JsVal :=
  .obj [(js "id", .str verifier.id), (js "version", .str verifier.version)]

/-- The properties of the manifest of an input, in the order `createManifest` writes them.
Source: `reproducibility.ts`, `createManifest` -/
def ManifestInput.props (input : ManifestInput) (createdAt : JsString) : Props :=
  [(js "manifestVersion", .str (js "1")), (js "runId", .str input.runId),
    (js "environment", input.environment.toJs), (js "model", input.model.toJs),
    (js "taskSet", input.taskSet.toJs), (js "verifier", input.verifier.toJs),
    (js "seed", input.seed.elim .null .num), (js "toolchain", input.toolchain.toJs),
    (js "isolationBackend", .str input.isolationBackend), (js "createdAt", .str createdAt)]

section wf

variable (input : ManifestInput) (createdAt : JsString)

/-- The object of an image has its keys once. -/
theorem ImagePin.wf_toJs (image : ImagePin) : image.toJs.WF := by
  refine JsVal.wf_obj.mpr ⟨?_, ?_⟩
  · change [js "reference", js "digest"].Nodup
    simp
  · simp only [List.forall_mem_cons]
    exact ⟨trivial, trivial, List.forall_mem_nil _⟩

/-- The object of a model has its keys once. -/
theorem ModelPin.wf_toJs (model : ModelPin) : model.toJs.WF := by
  refine JsVal.wf_obj.mpr ?_
  cases model.providerVersion with
  | none =>
    refine ⟨?_, ?_⟩
    · change [js "identifier", js "sampling"].Nodup
      simp
    · simp only [Option.elim_none, List.append_nil, List.forall_mem_cons]
      exact ⟨trivial, model.sampling.wf, List.forall_mem_nil _⟩
  | some v =>
    refine ⟨?_, ?_⟩
    · change [js "identifier", js "sampling", js "providerVersion"].Nodup
      simp
    · simp only [Option.elim_some, List.cons_append, List.nil_append, List.forall_mem_cons]
      exact ⟨trivial, model.sampling.wf, trivial, List.forall_mem_nil _⟩

/-- The object of a task set has its keys once. -/
theorem TaskSetPin.wf_toJs (taskSet : TaskSetPin) : taskSet.toJs.WF := by
  refine JsVal.wf_obj.mpr ⟨?_, ?_⟩
  · change [js "id", js "version", js "split", js "splitHash", js "taskCount"].Nodup
    simp
  · simp only [List.forall_mem_cons]
    exact ⟨trivial, trivial, trivial, trivial, trivial, List.forall_mem_nil _⟩

/-- The object of a verifier has its keys once. -/
theorem VerifierPin.wf_toJs (verifier : VerifierPin) : verifier.toJs.WF := by
  refine JsVal.wf_obj.mpr ⟨?_, ?_⟩
  · change [js "id", js "version"].Nodup
    simp
  · simp only [List.forall_mem_cons]
    exact ⟨trivial, trivial, List.forall_mem_nil _⟩

/-- The manifest of an input. -/
def ManifestInput.manifest : PlainObject where
  props := input.props createdAt
  wf := by
    refine JsVal.wf_obj.mpr ⟨?_, ?_⟩
    · change [js "manifestVersion", js "runId", js "environment", js "model", js "taskSet",
        js "verifier", js "seed", js "toolchain", js "isolationBackend", js "createdAt"].Nodup
      simp
    · simp only [ManifestInput.props, List.forall_mem_cons]
      refine ⟨trivial, trivial, input.environment.wf_toJs, input.model.wf_toJs,
        input.taskSet.wf_toJs, input.verifier.wf_toJs, ?_, input.toolchain.wf_toJs, trivial,
        trivial, List.forall_mem_nil _⟩
      cases input.seed <;> trivial

end wf

/-! ## The checks -/

/-- Source: `reproducibility.ts`, `ManifestError` -/
def manifestError (message : JsString) : JsError := ⟨js "ManifestError", message⟩

/-- A lower-case hexadecimal digit. -/
def isLowerHex (u : UInt16) : Bool := (48 ≤ u && u ≤ 57) || (97 ≤ u && u ≤ 102)

/-- Source: `reproducibility.ts`, `HEX64` -/
def isHex64 (s : JsString) : Bool := decide (s.length = 64) && s.all isLowerHex

/-- Source: `reproducibility.ts`, `SHA256_DIGEST` -/
def isSha256Digest (s : JsString) : Bool :=
  decide (s.take 7 = js "sha256:") && isHex64 (s.drop 7)

/-- Source: `reproducibility.ts`, `requireDigest` -/
def requireDigest (value field : JsString) : Except JsError Unit :=
  if isSha256Digest value then .ok ()
  else .error (manifestError (field ++ js " must be pinned as \"sha256:<64 hex>\", got \"" ++ value ++
    js "\". A tag is not a pin: it can point at different software later, which " ++
    js "means the run cannot be reproduced from this record."))

/-- White space counts as empty.
Source: `reproducibility.ts`, `requireNonEmpty` -/
def requireNonEmpty (value field : JsString) : Except JsError Unit :=
  if value.all isWhiteSpace then
    .error (manifestError (field ++ js " is required; an unattributed run is not evidence"))
  else .ok ()

/-- Hash of the ordered task identifiers of a split.
Source: `reproducibility.ts`, `hashSplit` -/
def hashSplit (taskIds : List JsString) : Except CanonicalizationError JsString :=
  (canonicalize (.arr (taskIds.map .str))).map fun text => toHex (sha256 (utf8 text)).bytes

/-- Build and check a manifest.
Source: `reproducibility.ts`, `createManifest` -/
def createManifest (input : ManifestInput) (now : TimeValue) : Except JsError PlainObject := do
  requireNonEmpty input.runId (js "runId")
  requireDigest input.environment.digest (js "environment.digest")
  requireNonEmpty input.model.identifier (js "model.identifier")
  requireNonEmpty input.taskSet.id (js "taskSet.id")
  requireNonEmpty input.taskSet.version (js "taskSet.version")
  requireNonEmpty input.taskSet.split (js "taskSet.split")
  requireNonEmpty input.verifier.id (js "verifier.id")
  requireNonEmpty input.verifier.version (js "verifier.version")
  requireNonEmpty input.isolationBackend (js "isolationBackend")
  if !isHex64 input.taskSet.splitHash then
    throw (manifestError (js "taskSet.splitHash must be a 64-character hex sha256"))
  if input.taskSet.taskCount.le (.ofNat 0) then
    throw (manifestError (js "taskSet.taskCount must be positive"))
  if input.toolchain.entries.isEmpty then
    throw (manifestError (js "toolchain must record at least the platform version; " ++
      js "a result cannot be reproduced without knowing what produced it"))
  return input.manifest now.toISOString

/-! ## What passes -/

/-- A text with something other than white space in it. -/
def NotBlank (s : JsString) : Prop := s.all isWhiteSpace = false

/-- What `createManifest` asks of its input. -/
structure ManifestInput.Complete (input : ManifestInput) : Prop where
  runId : NotBlank input.runId
  digest : isSha256Digest input.environment.digest = true
  identifier : NotBlank input.model.identifier
  taskSetId : NotBlank input.taskSet.id
  taskSetVersion : NotBlank input.taskSet.version
  split : NotBlank input.taskSet.split
  verifierId : NotBlank input.verifier.id
  verifierVersion : NotBlank input.verifier.version
  isolationBackend : NotBlank input.isolationBackend
  splitHash : isHex64 input.taskSet.splitHash = true
  taskCount : input.taskSet.taskCount.le (.ofNat 0) = false
  toolchain : input.toolchain.entries ≠ []

/-- The check for a text that says something. -/
theorem yields_requireNonEmpty (value field : JsString) :
    Yields (requireNonEmpty value field) (NotBlank value) () := by
  rw [requireNonEmpty]
  split_ifs with h
  · exact Yields.error (by rw [NotBlank, h]; exact Bool.noConfusion)
  · exact Yields.ok (Bool.eq_false_iff.mpr h)

/-- The check for a digest. -/
theorem yields_requireDigest (value field : JsString) :
    Yields (requireDigest value field) (isSha256Digest value = true) () := by
  rw [requireDigest]
  split_ifs with h
  · exact Yields.ok h
  · exact Yields.error h

/-- A check in line, and what follows. -/
theorem yields_check {α ε : Type} {c : Bool} {x y : Except ε α} {P : Prop} {a : α}
    (hy : ∀ b, y ≠ .ok b) (hx : Yields x P a) :
    Yields (if c = true then y else x) (c = false ∧ P) a := by
  intro b
  cases c with
  | true => exact iff_of_false (hy b) fun h => Bool.noConfusion h.1.1
  | false => exact (hx b).trans (and_congr_left fun _ => (and_iff_right rfl).symm)

/-- **A manifest comes from an input that passes every check.** -/
theorem createManifest_eq_ok {input : ManifestInput} {now : TimeValue} {manifest : PlainObject} :
    createManifest input now = .ok manifest ↔
      input.Complete ∧ manifest = input.manifest now.toISOString := by
  have h : Yields (createManifest input now)
      (NotBlank input.runId ∧ isSha256Digest input.environment.digest = true ∧
        NotBlank input.model.identifier ∧ NotBlank input.taskSet.id ∧
        NotBlank input.taskSet.version ∧ NotBlank input.taskSet.split ∧
        NotBlank input.verifier.id ∧ NotBlank input.verifier.version ∧
        NotBlank input.isolationBackend ∧ (!isHex64 input.taskSet.splitHash) = false ∧
        input.taskSet.taskCount.le (.ofNat 0) = false ∧
        input.toolchain.entries.isEmpty = false ∧ True)
      (input.manifest now.toISOString) := by
    refine (yields_requireNonEmpty _ _).bind <| (yields_requireDigest _ _).bind <|
      (yields_requireNonEmpty _ _).bind <| (yields_requireNonEmpty _ _).bind <|
      (yields_requireNonEmpty _ _).bind <| (yields_requireNonEmpty _ _).bind <|
      (yields_requireNonEmpty _ _).bind <| (yields_requireNonEmpty _ _).bind <|
      (yields_requireNonEmpty _ _).bind <| yields_check ?_ <| yields_check ?_ <| yields_check ?_ <|
      @Yields.ok _ _ True _ trivial
    all_goals exact nofun
  refine (h manifest).trans (and_congr_left fun _ => ?_)
  simp only [Bool.not_eq_false', List.isEmpty_eq_false_iff]
  constructor
  · rintro ⟨h₁, h₂, h₃, h₄, h₅, h₆, h₇, h₈, h₉, h₁₀, h₁₁, h₁₂, -⟩
    exact ⟨h₁, h₂, h₃, h₄, h₅, h₆, h₇, h₈, h₉, h₁₀, h₁₁, h₁₂⟩
  · rintro ⟨h₁, h₂, h₃, h₄, h₅, h₆, h₇, h₈, h₉, h₁₀, h₁₁, h₁₂⟩
    exact ⟨h₁, h₂, h₃, h₄, h₅, h₆, h₇, h₈, h₉, h₁₀, h₁₁, h₁₂, trivial⟩

/-- The hash of a split is the text of a digest. -/
theorem exists_hashSplit (taskIds : List JsString) :
    ∃ d : Digest, hashSplit taskIds = .ok (toHex d.bytes) := by
  have hwf : JsVal.WF (.arr (taskIds.map .str)) :=
    JsVal.wf_arr.mpr (List.forall_mem_map.mpr fun _ _ => trivial)
  have hjson : JsVal.IsJson (JsVal.jsonForm (.arr (taskIds.map .str))) := by
    rw [JsVal.jsonForm_arr, List.map_map, JsVal.isJson_arr]
    exact List.forall_mem_map.mpr fun _ _ => trivial
  refine ⟨sha256 (utf8 (canonicalText (.arr (taskIds.map .str)))), ?_⟩
  rw [hashSplit, (canonicalize_eq_ok_iff hwf).mpr ⟨hjson, rfl⟩]
  rfl

/-- The text of a digest has 64 digits. -/
theorem isHex64_toHex (d : Digest) : isHex64 (toHex d.bytes) = true := by
  have hdigit : ∀ n < 16, isLowerHex (hexDigit n) = true := by decide
  have hlength : ∀ b : Bytes, (toHex b).length = 2 * b.length := by
    intro b
    rw [toHex, List.length_flatMap]
    simp [mul_comm]
  rw [isHex64, hlength, d.length_bytes, Bool.and_eq_true]
  refine ⟨rfl, List.all_eq_true.mpr fun u hu => ?_⟩
  obtain ⟨x, -, hx⟩ := List.mem_flatMap.mp hu
  have hlt := x.toNat_lt
  rcases List.mem_pair.mp hx with rfl | rfl
  · exact hdigit _ (by omega)
  · exact hdigit _ (by omega)

section isJson

/-- The object of an image can be written. -/
theorem ImagePin.isJson_toJs (image : ImagePin) : image.toJs.jsonForm.IsJson := by
  refine @PlainObject.isJson_of_forall ⟨_, image.wf_toJs⟩ ?_
  simp only [List.forall_mem_cons]
  exact ⟨trivial, trivial, List.forall_mem_nil _⟩

/-- The object of a verifier can be written. -/
theorem VerifierPin.isJson_toJs (verifier : VerifierPin) : verifier.toJs.jsonForm.IsJson := by
  refine @PlainObject.isJson_of_forall ⟨_, verifier.wf_toJs⟩ ?_
  simp only [List.forall_mem_cons]
  exact ⟨trivial, trivial, List.forall_mem_nil _⟩

/-- The object of a task set can be written when its count can. -/
theorem TaskSetPin.isJson_toJs_iff (taskSet : TaskSetPin) :
    taskSet.toJs.jsonForm.IsJson ↔ JsVal.IsJson (.num taskSet.taskCount) := by
  refine (@PlainObject.isJson_iff ⟨_, taskSet.wf_toJs⟩).trans ?_
  simp only [List.forall_mem_cons]
  constructor
  · rintro ⟨-, -, -, -, h, -⟩
    exact h rfl
  · intro h
    exact ⟨fun _ => trivial, fun _ => trivial, fun _ => trivial, fun _ => trivial, fun _ => h,
      List.forall_mem_nil _⟩

/-- The object of a model can be written when its sampling parameters can. -/
theorem ModelPin.isJson_toJs_iff (model : ModelPin) :
    model.toJs.jsonForm.IsJson ↔ model.sampling.toJs.jsonForm.IsJson := by
  refine (@PlainObject.isJson_iff ⟨_, model.wf_toJs⟩).trans ?_
  simp only [List.forall_mem_append, List.forall_mem_cons]
  constructor
  · rintro ⟨⟨-, h, -⟩, -⟩
    exact h rfl
  · intro h
    refine ⟨⟨fun _ => trivial, fun _ => h, List.forall_mem_nil _⟩, ?_⟩
    cases model.providerVersion with
    | none => exact List.forall_mem_nil _
    | some v => exact List.forall_mem_singleton.mpr fun _ => trivial

/-- **When a manifest can be hashed**: its sampling parameters and its numbers can be written. -/
theorem isJson_manifest_iff {input : ManifestInput} {createdAt : JsString} :
    (input.manifest createdAt).toJs.jsonForm.IsJson ↔
      input.model.sampling.toJs.jsonForm.IsJson ∧ (∀ x ∈ input.seed, JsVal.IsJson (.num x)) ∧
        JsVal.IsJson (.num input.taskSet.taskCount) := by
  rw [PlainObject.isJson_iff]
  simp only [ManifestInput.manifest, ManifestInput.props, List.forall_mem_cons]
  constructor
  · rintro ⟨-, -, -, hmodel, htaskSet, -, hseed, -, -, -, -⟩
    refine ⟨input.model.isJson_toJs_iff.mp (hmodel rfl), ?_,
      input.taskSet.isJson_toJs_iff.mp (htaskSet rfl)⟩
    intro x hx
    rw [hx] at hseed
    exact hseed rfl
  · rintro ⟨hmodel, hseed, htaskSet⟩
    refine ⟨fun _ => trivial, fun _ => trivial, fun _ => input.environment.isJson_toJs,
      fun _ => input.model.isJson_toJs_iff.mpr hmodel,
      fun _ => input.taskSet.isJson_toJs_iff.mpr htaskSet, fun _ => input.verifier.isJson_toJs, ?_,
      fun _ => input.toolchain.isJson_toJs, fun _ => trivial, fun _ => trivial,
      List.forall_mem_nil _⟩
    intro _
    cases hx : input.seed with
    | none => exact trivial
    | some x => exact hseed x hx

end isJson

end AgentEval.Evidence
