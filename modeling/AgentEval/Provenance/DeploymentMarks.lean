import AgentEval.Js.Woven
import AgentEval.Provenance.Differences

/-!
# The address of a deployment as fields and marks

The fields of a deployment are hashed with marks between them: a line break and a word before most of
them, a `/` before the model of the accelerator, an `x` before the number of accelerators. The
toolkits are a list in one line, with an `=` in each and a comma between two.

* `HashedDeployment.Unmistakable` — no field can be read in another place.
* `deploymentText_eq` — what is hashed of a deployment.
* `DeploymentIdentity.ofFields` — a deployment with any fields.
* `HashedDeployment.exists_bareFields`, `HashedDeployment.exists_singleFields` — marks of those
  families are the marks of a deployment.
-/

namespace AgentEval.Provenance

open Js Sha256 Marked

/-! ## The fields -/

/-- The text of an optional Number. -/
def numberText (n : Option Number) : JsString := orEmpty (n.map Number.toString)

/-- The text of an optional precision. -/
def precisionText (p : Option NumericPrecision) : JsString :=
  orEmpty (p.map NumericPrecision.text)

/-- The toolkits as they are hashed, from their entries in order. -/
def toolkitsText (entries : List (JsString × JsString)) : JsString :=
  joinComma (entries.map fun p => p.1 ++ js "=" ++ p.2)

/-- The fields that the address of a deployment covers. What is absent is empty, and the toolkits are
in the order of their keys. -/
@[ext] structure HashedDeployment where
  provider : JsString
  servedModelId : JsString
  engine : InferenceEngine
  engineVersion : JsString
  containerDigest : JsString
  precision : Option NumericPrecision
  quantization : JsString
  tensorParallelism : Option Number
  vendor : JsString
  model : JsString
  count : Option Number
  toolkits : List (JsString × JsString)
  endpoint : JsString

/-- The entries of the toolkits, in the order of their keys. -/
def sortedToolkits (a : Option AcceleratorProvenance) : List (JsString × JsString) :=
  ((a.bind fun a => a.toolkitVersions).map fun r => sortProps r.entries).getD []

/-- Those of a deployment; `-0` counts as `0`. -/
def DeploymentIdentity.hashed (d : DeploymentIdentity) : HashedDeployment where
  provider := d.provider
  servedModelId := d.servedModelId
  engine := d.runtime.engine
  engineVersion := orEmpty d.runtime.engineVersion
  containerDigest := orEmpty d.runtime.containerDigest
  precision := d.runtime.precision
  quantization := orEmpty d.runtime.quantization
  tensorParallelism := d.runtime.tensorParallelism.map Number.unsigned
  vendor := orEmpty (d.accelerator.map fun a => a.vendor)
  model := orEmpty (d.accelerator.bind fun a => a.model)
  count := (d.accelerator.bind fun a => a.count).map Number.unsigned
  toolkits := sortedToolkits d.accelerator
  endpoint := orEmpty d.endpoint

/-! ## The marks -/

/-- Between the served model and the version of the engine: `\nengine:`, the engine, `@`. -/
def engineMark (e : InferenceEngine) : JsString := frame 10 64 (js "engine:") [] e.text

/-- Between the container and the quantization: `\nprecision:`, the precision, `\nquant:`. -/
def precisionMark (p : Option NumericPrecision) : JsString :=
  frame 10 10 (js "precision:") (js "quant:") (precisionText p)

/-- Between the quantization and the vendor: `\ntp:`, the parallelism, `\nhw:`. -/
def parallelismMark (n : Option Number) : JsString :=
  frame 10 10 (js "tp:") (js "hw:") (numberText n)

/-- Between the model and the toolkits: `x`, how many, `\ntoolkits:`. -/
def countMark (n : Option Number) : JsString := frame 120 10 [] (js "toolkits:") (numberText n)

/-- Between the model and the endpoint, where there are no toolkits. -/
def bareMark (n : Option Number) : JsString :=
  frame 120 10 [] (js "toolkits:\nendpoint:") (numberText n)

/-- The families up to the model of the accelerator. -/
def hardwareMarks : List (Set JsString) :=
  [{js "\n"}, framed 10 64 (js "engine:") [] InferenceEngine.text, {js "\ncontainer:"},
    framed 10 10 (js "precision:") (js "quant:") precisionText,
    framed 10 10 (js "tp:") (js "hw:") numberText, {js "/"}]

/-- The family after it, where there are no toolkits. -/
def bareMarks : List (Set JsString) := [framed 120 10 [] (js "toolkits:\nendpoint:") numberText]

/-- The families after it, where there is one. -/
def singleMarks : List (Set JsString) :=
  [framed 120 10 [] (js "toolkits:") numberText, {js "="}, {js "\nendpoint:"}]

/-- The families after it, with the toolkits as one field. -/
def listedMarks : List (Set JsString) :=
  [framed 120 10 [] (js "toolkits:") numberText, {js "\nendpoint:"}]

namespace HashedDeployment

variable (x : HashedDeployment)

/-- The marks up to the model of the accelerator, each with the field after it. -/
def hardwareFields : List (JsString × JsString) :=
  [(js "\n", x.servedModelId), (engineMark x.engine, x.engineVersion),
    (js "\ncontainer:", x.containerDigest), (precisionMark x.precision, x.quantization),
    (parallelismMark x.tensorParallelism, x.vendor), (js "/", x.model)]

/-- The marks after it, where there are no toolkits. -/
def bareFields : List (JsString × JsString) := [(bareMark x.count, x.endpoint)]

/-- The marks after it, with the toolkits as one field. -/
def listedFields (toolkits : JsString) : List (JsString × JsString) :=
  [(countMark x.count, toolkits), (js "\nendpoint:", x.endpoint)]

/-- The marks after it, where there is one toolkit. -/
def singleFields (key version : JsString) : List (JsString × JsString) :=
  [(countMark x.count, key), (js "=", version), (js "\nendpoint:", x.endpoint)]

/-- The string that is hashed. -/
def string : JsString :=
  js "deployment-identity:v1\n" ++
    (weave x.provider (x.hardwareFields ++ x.listedFields (toolkitsText x.toolkits)) ++ js "\n")

/-- What follows the vendor and its `/`. -/
def afterVendor : JsString := weave x.model (x.listedFields (toolkitsText x.toolkits))

/-- No field can be read in another place. -/
inductive Unmistakable : Prop where
  /-- Without a toolkit: no field has the mark before it or the one after it, and what follows the
  vendor could not be a list of toolkits with something around it. -/
  | bare (toolkits : x.toolkits = [])
      (provider : Faithful x.provider)
      (fields : ∀ p ∈ x.hardwareFields ++ x.bareFields, Faithful p.2)
      (unmistaken : Unmistaken (hardwareMarks ++ bareMarks) x.provider
        (x.hardwareFields ++ x.bareFields))
      (unimitated : ∀ n listed endpoint, 61 ∈ listed →
        ¬ countMark n ++ (listed ++ (js "\nendpoint:" ++ endpoint)) <:+ x.afterVendor)
  /-- With one: no field has the mark before it or the one after it, and what follows the vendor could
  not be a count and an endpoint with something before them. -/
  | single (key version : JsString) (toolkits : x.toolkits = [(key, version)])
      (provider : Faithful x.provider)
      (fields : ∀ p ∈ x.hardwareFields ++ x.singleFields key version, Faithful p.2)
      (unmistaken : Unmistaken (hardwareMarks ++ singleMarks) x.provider
        (x.hardwareFields ++ x.singleFields key version))
      (unimitated : ∀ n endpoint, ¬ bareMark n ++ endpoint <:+ x.afterVendor)

end HashedDeployment

/-! ## Numbers and toolkits -/

/-- The text of a Number tells it, up to the sign of `0`. -/
theorem numberText_eq_iff {m n : Option Number} :
    numberText m = numberText n ↔ m.map Number.unsigned = n.map Number.unsigned := by
  have hne : ∀ x : Number, x.toString ≠ [] := by
    intro x
    cases x with
    | nan => decide
    | infinity neg => cases neg <;> decide
    | negZero => decide
    | finite x =>
      obtain ⟨u, us, h, -⟩ := exists_toString_eq_cons x
      rw [h]
      exact List.cons_ne_nil _ _
  cases m with
  | none =>
    cases n with
    | none => exact iff_of_true rfl rfl
    | some y => exact iff_of_false (fun h => hne y h.symm) (by simp)
  | some x =>
    cases n with
    | none => exact iff_of_false (hne x) (by simp)
    | some y =>
      rw [Option.map_some, Option.map_some, Option.some.injEq]
      exact Number.toString_eq_iff

/-- So does that of the Number without its sign. -/
@[simp] theorem numberText_unsigned (n : Option Number) :
    numberText (n.map Number.unsigned) = numberText n := by
  cases n with
  | none => rfl
  | some x => exact x.toString_unsigned

/-- The symbols of the text of an optional Number. -/
theorem mem_numberText {n : Option Number} {u : UInt16} (h : u ∈ numberText n) :
    isDigit u = true ∨ u ∈ js ".e+-NaIfinty" := by
  cases n with
  | none => exact absurd h List.not_mem_nil
  | some x => exact x.mem_toString_units u h

/-- No toolkits. -/
@[simp] theorem toolkitsText_nil : toolkitsText [] = [] := rfl

/-- One toolkit. -/
@[simp] theorem toolkitsText_singleton (key version : JsString) :
    toolkitsText [(key, version)] = key ++ 61 :: version := by
  have heq : js "=" = [61] := by decide
  change key ++ js "=" ++ version = _
  rw [heq, List.append_assoc, List.singleton_append]

/-- The first of several toolkits. -/
theorem toolkitsText_cons_cons (key version : JsString) (p : JsString × JsString)
    (ps : List (JsString × JsString)) :
    toolkitsText ((key, version) :: p :: ps) =
      key ++ 61 :: (version ++ 44 :: toolkitsText (p :: ps)) := by
  have heq : js "=" = [61] := by decide
  change key ++ js "=" ++ version ++ 44 :: toolkitsText (p :: ps) = _
  rw [heq, List.append_assoc, List.append_assoc, List.singleton_append]

/-- Toolkits have an `=`. -/
theorem mem_toolkitsText {entries : List (JsString × JsString)} (h : entries ≠ []) :
    61 ∈ toolkitsText entries := by
  obtain ⟨⟨key, version⟩, ps, rfl⟩ := List.exists_cons_of_ne_nil h
  cases ps with
  | nil =>
    rw [toolkitsText_singleton]
    exact List.mem_append_right _ (List.mem_cons_self ..)
  | cons p ps =>
    rw [toolkitsText_cons_cons]
    exact List.mem_append_right _ (List.mem_cons_self ..)

/-! ## Families -/

/-- A symbol that is in no text of a Number. -/
theorem notMem_numberText {u : UInt16} (h₁ : isDigit u = false) (h₂ : u ∉ js ".e+-NaIfinty")
    (n : Option Number) : u ∉ numberText n := by
  intro h
  rcases mem_numberText h with hdigit | hother
  · rw [h₁] at hdigit
    exact Bool.false_ne_true hdigit
  · exact h₂ hother

/-- The name of a precision is one line. -/
theorem newline_notMem_precisionText (p : Option NumericPrecision) : 10 ∉ precisionText p :=
  (oneLine_precision p).line

/-- Marks up to the model do not overlap. -/
theorem marks_hardwareMarks : ∀ S ∈ hardwareMarks, Marks S := by
  unfold hardwareMarks
  simp only [List.forall_mem_cons]
  refine ⟨marks_singleton (x := 10) (p := []) (by decide), ?_,
    marks_singleton (x := 10) (p := js "container:") (by decide), ?_, ?_,
    marks_singleton (x := 47) (p := []) (by decide), List.forall_mem_nil _⟩
  · exact marks_framed (by decide) (by decide) (by decide) (fun e => (oneLine_engine e).1.line)
      fun e => (oneLine_engine e).2
  · apply marks_framed_twice _ (by decide) (by decide) newline_notMem_precisionText
    intro a b h
    exact absurd (List.cons.inj h).1 (by decide)
  · apply marks_framed_twice _ (by decide) (by decide) (notMem_numberText (by decide) (by decide))
    intro a b h
    exact absurd (List.cons.inj h).1 (by decide)

/-- Neither does the one after it, where there are no toolkits. -/
theorem marks_bareMarks : ∀ S ∈ bareMarks, Marks S := by
  unfold bareMarks
  rw [List.forall_mem_singleton]
  exact marks_framed (by decide) (by decide) (by decide) (notMem_numberText (by decide) (by decide))
    (notMem_numberText (by decide) (by decide))

/-- Nor do those after it, where there is one. -/
theorem marks_singleMarks : ∀ S ∈ singleMarks, Marks S := by
  unfold singleMarks
  simp only [List.forall_mem_cons]
  refine ⟨?_, marks_singleton (x := 61) (p := []) (by decide),
    marks_singleton (x := 10) (p := js "endpoint:") (by decide), List.forall_mem_nil _⟩
  exact marks_framed (by decide) (by decide) (by decide) (notMem_numberText (by decide) (by decide))
    (notMem_numberText (by decide) (by decide))

/-- A framed word parts what is around it. -/
theorem parting_frame {u v : UInt16} {p q word : JsString} (hu : u.toNat < 0xD800)
    (hv : v.toNat < 0xD800) (hp : ∀ w ∈ p, w.toNat < 0xD800) (hq : ∀ w ∈ q, w.toNat < 0xD800)
    (hword : ∀ w ∈ word, w.toNat < 0xD800) : Parting (frame u v p q word) := by
  refine ⟨List.cons_ne_nil _ _, ?_⟩
  unfold frame
  simp only [List.forall_mem_cons, List.forall_mem_append]
  exact ⟨hu, hp, hword, hv, hq⟩

/-- The text of an optional Number is below the surrogates. -/
theorem lt_of_mem_numberText (n : Option Number) : ∀ u ∈ numberText n, u.toNat < 0xD800 := by
  cases n with
  | none => exact List.forall_mem_nil _
  | some x => exact x.lt_of_mem_toString

/-- So is the name of an engine. -/
theorem lt_of_mem_engine (e : InferenceEngine) : ∀ u ∈ e.text, u.toNat < 0xD800 := by
  cases e <;> decide

/-- So is that of a precision. -/
theorem lt_of_mem_precisionText (p : Option NumericPrecision) :
    ∀ u ∈ precisionText p, u.toNat < 0xD800 := by
  cases p with
  | none => exact List.forall_mem_nil _
  | some p => cases p <;> decide

/-- The marks up to the model part what is around them. -/
theorem parting_hardwareMarks : ∀ S ∈ hardwareMarks, ∀ s ∈ S, Parting s := by
  unfold hardwareMarks framed
  simp only [List.forall_mem_cons, Set.mem_singleton_iff, forall_eq, Set.forall_mem_range]
  refine ⟨⟨by decide, by decide⟩, fun e => ?_, ⟨by decide, by decide⟩, fun p => ?_, fun n => ?_,
    ⟨by decide, by decide⟩, List.forall_mem_nil _⟩
  · exact parting_frame (by decide) (by decide) (by decide) (by decide) (lt_of_mem_engine e)
  · exact parting_frame (by decide) (by decide) (by decide) (by decide) (lt_of_mem_precisionText p)
  · exact parting_frame (by decide) (by decide) (by decide) (by decide) (lt_of_mem_numberText n)

/-- So does the one after it, where there are no toolkits. -/
theorem parting_bareMarks : ∀ S ∈ bareMarks, ∀ s ∈ S, Parting s := by
  unfold bareMarks framed
  rw [List.forall_mem_singleton, Set.forall_mem_range]
  exact fun n =>
    parting_frame (by decide) (by decide) (by decide) (by decide) (lt_of_mem_numberText n)

/-- So do those around the toolkits. -/
theorem parting_listedMarks : ∀ S ∈ listedMarks, ∀ s ∈ S, Parting s := by
  unfold listedMarks framed
  simp only [List.forall_mem_cons, Set.mem_singleton_iff, forall_eq, Set.forall_mem_range]
  exact ⟨fun n =>
      parting_frame (by decide) (by decide) (by decide) (by decide) (lt_of_mem_numberText n),
    ⟨by decide, by decide⟩, List.forall_mem_nil _⟩

/-- So do those after it, where there is one. -/
theorem parting_singleMarks : ∀ S ∈ singleMarks, ∀ s ∈ S, Parting s := by
  unfold singleMarks framed
  simp only [List.forall_mem_cons, Set.mem_singleton_iff, forall_eq, Set.forall_mem_range]
  exact ⟨fun n =>
      parting_frame (by decide) (by decide) (by decide) (by decide) (lt_of_mem_numberText n),
    ⟨by decide, by decide⟩, ⟨by decide, by decide⟩, List.forall_mem_nil _⟩

/-! ## The string -/

namespace HashedDeployment

variable (x : HashedDeployment)

/-- What is in front of the model of the accelerator. -/
def beforeModel : JsString :=
  x.provider ++ (js "
" ++ (x.servedModelId ++ (engineMark x.engine ++ (x.engineVersion ++
    (js "
container:" ++ (x.containerDigest ++ (precisionMark x.precision ++ (x.quantization ++
      (parallelismMark x.tensorParallelism ++ (x.vendor ++ js "/"))))))))))

/-- The model of the accelerator is the last of the first fields. -/
theorem weave_hardwareFields (tail : List (JsString × JsString)) :
    weave x.provider (x.hardwareFields ++ tail) = x.beforeModel ++ weave x.model tail := by
  unfold hardwareFields beforeModel
  simp only [List.cons_append, List.nil_append, weave, List.append_assoc]

/-- The string, in front of the model and after the vendor. -/
theorem string_eq : x.string =
    js "deployment-identity:v1
" ++ (x.beforeModel ++ (x.afterVendor ++ js "
")) := by
  unfold string afterVendor
  rw [weave_hardwareFields, List.append_assoc]

/-- Without toolkits, the marks around them are one. -/
theorem weave_listedFields_nil (f : JsString) :
    weave f (x.listedFields []) = weave f x.bareFields := by
  have hmark : js "toolkits:
endpoint:" = js "toolkits:" ++ js "
endpoint:" := by decide
  unfold listedFields bareFields countMark bareMark frame
  rw [hmark]
  simp only [weave, List.cons_append, List.append_assoc, List.nil_append]

/-- One toolkit is a field before its `=` and a field after it. -/
theorem weave_listedFields_cons (f key version : JsString) :
    weave f (x.listedFields (key ++ 61 :: version)) = weave f (x.singleFields key version) := by
  have heq : js "=" = [61] := by decide
  unfold listedFields singleFields
  rw [heq]
  simp only [weave, List.append_assoc, List.cons_append, List.nil_append]

end HashedDeployment

/-- **What is hashed of a deployment.** -/
theorem deploymentText_eq (d : DeploymentIdentity) : deploymentText d = utf8 d.hashed.string := by
  have hline : js "
" = [10] := by decide
  have hmark : js "deployment-identity:v1
" = js "deployment-identity:v1" ++ [10] := by decide
  have hended : ∀ s ∈ deploymentParts d, ∃ t, s = t ++ [10] := by
    intro s hs
    unfold deploymentParts hardwareLines at hs
    rw [hline, hmark] at hs
    simp only [List.mem_cons, List.not_mem_nil, or_false] at hs
    rcases hs with rfl | rfl | rfl | rfl | rfl
    · exact ⟨_, rfl⟩
    · exact ⟨_, rfl⟩
    · exact ⟨_, rfl⟩
    · exact ⟨_, rfl⟩
    · exact ⟨_, rfl⟩
  have hflatten : (deploymentParts d).flatten = d.hashed.string := by
    have hparallelism : orEmpty (d.runtime.tensorParallelism.map Number.toString) =
        numberText (d.runtime.tensorParallelism.map Number.unsigned) :=
      (numberText_unsigned _).symm
    have hcount : orEmpty (d.accelerator.bind fun a => a.count.map Number.toString) =
        numberText ((d.accelerator.bind fun a => a.count).map Number.unsigned) := by
      rw [numberText_unsigned]
      cases d.accelerator <;> rfl
    have htoolkits : orEmpty (d.accelerator.bind fun a => a.toolkitVersions.map canonicalKeyValues) =
        toolkitsText (sortedToolkits d.accelerator) := by
      cases d.accelerator with
      | none => rfl
      | some a =>
        change orEmpty (a.toolkitVersions.map canonicalKeyValues) =
          toolkitsText ((a.toolkitVersions.map fun r => sortProps r.entries).getD [])
        cases a.toolkitVersions <;> rfl
    have hat : js "@" = [64] := by decide
    have hx : js "x" = [120] := by decide
    have hcontainer : js "\ncontainer:" = 10 :: js "container:" := by decide
    have hendpoint : js "\nendpoint:" = 10 :: js "endpoint:" := by decide
    unfold deploymentParts hardwareLines DeploymentIdentity.hashed HashedDeployment.string
      HashedDeployment.hardwareFields HashedDeployment.listedFields engineMark precisionMark
      parallelismMark countMark frame precisionText
    rw [hparallelism, hcount, htoolkits, hline, hat, hx, hcontainer, hendpoint]
    simp only [weave, List.flatten_cons, List.flatten_nil, List.append_assoc, List.append_nil,
      List.cons_append, List.nil_append]
  unfold deploymentText hashedText
  rw [flatMap_utf8_ended (by decide) (by decide) hended, hflatten]

/-! ## A deployment with any fields -/

/-- An optional Number is a value of its own. -/
theorem wf_elim_num (n : Option Number) : (n.elim JsVal.undefined .num).WF := by
  cases n <;> trivial

/-- A runtime with these fields. -/
def RuntimeProvenance.ofFields (x : HashedDeployment) : RuntimeProvenance where
  props := [(js "engine", .str x.engine.text), (js "engineVersion", .str x.engineVersion),
    (js "containerDigest", .str x.containerDigest),
    (js "precision", x.precision.elim .undefined fun p => .str p.text),
    (js "quantization", .str x.quantization),
    (js "tensorParallelism", x.tensorParallelism.elim .undefined .num)]
  wf := by
    refine JsVal.wf_obj.mpr ⟨?_, ?_⟩
    · change [js "engine", js "engineVersion", js "containerDigest", js "precision",
        js "quantization", js "tensorParallelism"].Nodup
      simp
    · simp only [List.forall_mem_cons]
      refine ⟨trivial, trivial, trivial, ?_, trivial, wf_elim_num _, List.forall_mem_nil _⟩
      cases x.precision <;> trivial
  engine := x.engine
  engineVersion := some x.engineVersion
  containerDigest := some x.containerDigest
  precision := x.precision
  quantization := some x.quantization
  tensorParallelism := x.tensorParallelism
  get_engine := rfl
  get_engineVersion := rfl
  get_containerDigest := rfl
  get_precision := rfl
  get_quantization := rfl
  get_tensorParallelism := rfl

/-- An accelerator with these fields. -/
def AcceleratorProvenance.ofFields (x : HashedDeployment) (toolkits : StringRecord) :
    AcceleratorProvenance where
  props := [(js "vendor", .str x.vendor), (js "model", .str x.model),
    (js "count", x.count.elim .undefined .num), (js "toolkitVersions", toolkits.toJs)]
  wf := by
    refine JsVal.wf_obj.mpr ⟨?_, ?_⟩
    · change [js "vendor", js "model", js "count", js "toolkitVersions"].Nodup
      simp
    · simp only [List.forall_mem_cons]
      exact ⟨trivial, trivial, wf_elim_num _, toolkits.wf_toJs, List.forall_mem_nil _⟩
  vendor := x.vendor
  model := some x.model
  count := x.count
  toolkitVersions := some toolkits
  get_vendor := rfl
  get_model := rfl
  get_count := rfl
  get_toolkitVersions := rfl

/-- A deployment with these fields. -/
def DeploymentIdentity.ofFields (x : HashedDeployment) (toolkits : StringRecord) :
    DeploymentIdentity where
  props := [(js "provider", .str x.provider), (js "servedModelId", .str x.servedModelId),
    (js "runtime", (RuntimeProvenance.ofFields x).toJs),
    (js "accelerator", (AcceleratorProvenance.ofFields x toolkits).toJs),
    (js "endpoint", .str x.endpoint)]
  wf := by
    refine JsVal.wf_obj.mpr ⟨?_, ?_⟩
    · change [js "provider", js "servedModelId", js "runtime", js "accelerator",
        js "endpoint"].Nodup
      simp
    · simp only [List.forall_mem_cons]
      exact ⟨trivial, trivial, (RuntimeProvenance.ofFields x).wf,
        (AcceleratorProvenance.ofFields x toolkits).wf, trivial, List.forall_mem_nil _⟩
  provider := x.provider
  servedModelId := x.servedModelId
  runtime := RuntimeProvenance.ofFields x
  accelerator := some (AcceleratorProvenance.ofFields x toolkits)
  endpoint := some x.endpoint
  get_provider := rfl
  get_servedModelId := rfl
  get_runtime := rfl
  get_accelerator := rfl
  get_endpoint := rfl

/-- It has these fields, with the sign of `0` dropped and the toolkits in order. -/
theorem hashed_ofFields (x : HashedDeployment) (toolkits : StringRecord) :
    (DeploymentIdentity.ofFields x toolkits).hashed =
      { x with tensorParallelism := x.tensorParallelism.map Number.unsigned,
               count := x.count.map Number.unsigned,
               toolkits := sortProps toolkits.entries } := rfl

/-- What is hashed of it. -/
theorem string_ofFields (x : HashedDeployment) (toolkits : StringRecord) :
    (DeploymentIdentity.ofFields x toolkits).hashed.string =
      { x with toolkits := sortProps toolkits.entries }.string := by
  rw [hashed_ofFields]
  unfold HashedDeployment.string HashedDeployment.hardwareFields HashedDeployment.listedFields
    parallelismMark countMark
  simp only [numberText_unsigned]

/-! ## Fields from marks -/

namespace HashedDeployment

/-- The first marks of a deployment. -/
theorem follow_hardwareFields (x : HashedDeployment) : Follow hardwareMarks x.hardwareFields := by
  unfold hardwareMarks hardwareFields
  simp only [follow_cons, follow_nil, Set.mem_singleton_iff, true_and, and_true]
  exact ⟨⟨_, rfl⟩, ⟨_, rfl⟩, _, rfl⟩

/-- The marks of one without toolkits. -/
theorem follow_bareFields (x : HashedDeployment) :
    Follow (hardwareMarks ++ bareMarks) (x.hardwareFields ++ x.bareFields) :=
  List.rel_append x.follow_hardwareFields (follow_cons.mpr ⟨⟨_, rfl⟩, follow_nil.mpr rfl⟩)

/-- The marks around the toolkits. -/
theorem follow_listedFields (x : HashedDeployment) (toolkits : JsString) :
    Follow listedMarks (x.listedFields toolkits) :=
  follow_cons.mpr ⟨⟨_, rfl⟩, follow_cons.mpr ⟨rfl, follow_nil.mpr rfl⟩⟩

/-- The marks of one with a toolkit. -/
theorem follow_singleFields (x : HashedDeployment) (key version : JsString) :
    Follow (hardwareMarks ++ singleMarks) (x.hardwareFields ++ x.singleFields key version) := by
  apply List.rel_append x.follow_hardwareFields
  unfold singleMarks singleFields
  exact follow_cons.mpr ⟨⟨_, rfl⟩, follow_cons.mpr ⟨rfl, follow_cons.mpr ⟨rfl, follow_nil.mpr rfl⟩⟩⟩

/-- Fields after the first marks are the first fields of a deployment. -/
theorem exists_hardwareFields {more : List (Set JsString)} {rest : List (JsString × JsString)}
    (h : Follow (hardwareMarks ++ more) rest) (provider : JsString) :
    ∃ (x : HashedDeployment) (tail : List (JsString × JsString)), x.provider = provider ∧
      rest = x.hardwareFields ++ tail ∧ Follow more tail := by
  unfold hardwareMarks at h
  obtain ⟨m₁, served, r₁, rfl, h₁, k₁⟩ := h.exists_eq_cons
  obtain ⟨m₂, version, r₂, rfl, ⟨engine, rfl⟩, k₂⟩ := k₁.exists_eq_cons
  obtain ⟨m₃, container, r₃, rfl, h₃, k₃⟩ := k₂.exists_eq_cons
  obtain ⟨m₄, quantization, r₄, rfl, ⟨precision, rfl⟩, k₄⟩ := k₃.exists_eq_cons
  obtain ⟨m₅, vendor, r₅, rfl, ⟨parallelism, rfl⟩, k₅⟩ := k₄.exists_eq_cons
  obtain ⟨m₆, model, tail, rfl, h₆, k₆⟩ := k₅.exists_eq_cons
  rw [Set.mem_singleton_iff] at h₁ h₃ h₆
  subst h₁ h₃ h₆
  exact ⟨⟨provider, served, engine, version, container, precision, quantization, parallelism,
    vendor, model, none, [], []⟩, tail, rfl, rfl, k₆⟩

/-- Fields after the marks of a deployment without toolkits are the fields of one. -/
theorem exists_bareFields {rest : List (JsString × JsString)}
    (h : Follow (hardwareMarks ++ bareMarks) rest) (provider : JsString) :
    ∃ x : HashedDeployment, x.provider = provider ∧ rest = x.hardwareFields ++ x.bareFields := by
  obtain ⟨x, tail, hprovider, rfl, htail⟩ := exists_hardwareFields h provider
  obtain ⟨m, endpoint, r, rfl, ⟨count, rfl⟩, hr⟩ := htail.exists_eq_cons
  rw [follow_nil] at hr
  subst hr
  exact ⟨{ x with count := count, endpoint := endpoint }, hprovider, rfl⟩

/-- Fields after the marks of a deployment with a toolkit are the fields of one. -/
theorem exists_singleFields {rest : List (JsString × JsString)}
    (h : Follow (hardwareMarks ++ singleMarks) rest) (provider : JsString) :
    ∃ (x : HashedDeployment) (key version : JsString), x.provider = provider ∧
      rest = x.hardwareFields ++ x.singleFields key version := by
  obtain ⟨x, tail, hprovider, rfl, htail⟩ := exists_hardwareFields h provider
  unfold singleMarks at htail
  obtain ⟨m₁, key, r₁, rfl, ⟨count, rfl⟩, k₁⟩ := htail.exists_eq_cons
  obtain ⟨m₂, version, r₂, rfl, h₂, k₂⟩ := k₁.exists_eq_cons
  obtain ⟨m₃, endpoint, r₃, rfl, h₃, k₃⟩ := k₂.exists_eq_cons
  rw [follow_nil] at k₃
  rw [Set.mem_singleton_iff] at h₂ h₃
  subst h₂ h₃ k₃
  exact ⟨{ x with count := count, endpoint := endpoint }, key, version, hprovider, rfl⟩

end HashedDeployment

end AgentEval.Provenance
