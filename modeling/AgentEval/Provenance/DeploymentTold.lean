import AgentEval.Provenance.DeploymentMarks

/-!
# What the address of a deployment tells

* `Unmistakable.eq`: a deployment whose fields keep their places is the only one that is hashed so.
* `unmistakable_of_told`: where a field can be read in another place, another deployment is hashed
  so.
* **`deploymentTold_iff`**: a deployment is told from every other one by what is hashed exactly when
  it has one toolkit at most and no field of it can be read in another place.
-/

namespace AgentEval.Provenance

open Js Sha256 Marked

namespace HashedDeployment

/-- The same octets come from the same fields and marks, lone surrogates replaced. -/
theorem utf8_string_eq_iff {x y : HashedDeployment} : utf8 x.string = utf8 y.string ↔
    toWellFormed (weave x.provider (x.hardwareFields ++ x.listedFields (toolkitsText x.toolkits))) =
      toWellFormed
        (weave y.provider (y.hardwareFields ++ y.listedFields (toolkitsText y.toolkits))) := by
  have hline : js "\n" = [10] := by decide
  have hrepaired : ∀ x : HashedDeployment, toWellFormed x.string =
      js "deployment-identity:v1\n" ++ (toWellFormed (weave x.provider
        (x.hardwareFields ++ x.listedFields (toolkitsText x.toolkits))) ++ [10]) := by
    intro x
    unfold string
    rw [toWellFormed_append (wellFormed_js _), hline,
      toWellFormed_append_cons (by decide) (by decide)]
    rfl
  rw [utf8_eq_iff, hrepaired, hrepaired, List.append_cancel_left_eq, List.append_cancel_right_eq]

/-- A deployment without toolkits, as fields and marks. -/
theorem weave_bare {x : HashedDeployment} (h : x.toolkits = []) :
    weave x.provider (x.hardwareFields ++ x.listedFields (toolkitsText x.toolkits)) =
      weave x.provider (x.hardwareFields ++ x.bareFields) := by
  rw [weave_hardwareFields, weave_hardwareFields, h, toolkitsText_nil, weave_listedFields_nil]

/-- A deployment with toolkits, as fields and marks. -/
theorem weave_single {x : HashedDeployment} {key version : JsString}
    (h : toolkitsText x.toolkits = key ++ 61 :: version) :
    weave x.provider (x.hardwareFields ++ x.listedFields (toolkitsText x.toolkits)) =
      weave x.provider (x.hardwareFields ++ x.singleFields key version) := by
  rw [weave_hardwareFields, weave_hardwareFields, h, weave_listedFields_cons]

/-! ## One reading -/

/-- A symbol outside the surrogates stays. -/
theorem mem_toWellFormed {s : JsString} (h : 61 ∈ s) : 61 ∈ toWellFormed s := by
  obtain ⟨a, b, rfl⟩ := List.append_of_mem h
  rw [toWellFormed_append_cons (by decide) (by decide)]
  exact List.mem_append_right _ (List.mem_cons_self ..)

/-- The fields are told apart in the list of them. -/
theorem hashed_eq_of_fields {d e : DeploymentIdentity}
    (hprovider : e.hashed.provider = d.hashed.provider)
    (hfields : e.hashed.hardwareFields = d.hashed.hardwareFields)
    (hcount : numberText e.hashed.count = numberText d.hashed.count)
    (htoolkits : e.hashed.toolkits = d.hashed.toolkits)
    (hendpoint : e.hashed.endpoint = d.hashed.endpoint) : d.hashed = e.hashed := by
  have htp : ∀ m n : Option Number, numberText (m.map Number.unsigned) =
      numberText (n.map Number.unsigned) → m.map Number.unsigned = n.map Number.unsigned := by
    intro m n h
    rw [numberText_unsigned, numberText_unsigned] at h
    exact numberText_eq_iff.mp h
  unfold hardwareFields engineMark precisionMark parallelismMark at hfields
  simp only [List.cons.injEq, Prod.mk.injEq, frame_inj, true_and, and_true] at hfields
  obtain ⟨hserved, ⟨hengine, hversion⟩, hcontainer, ⟨hprecision, hquantization⟩,
    ⟨hparallelism, hvendor⟩, hmodel⟩ := hfields
  exact (HashedDeployment.ext hprovider hserved (InferenceEngine.text_injective hengine) hversion
    hcontainer (precision_eq_of_text hprecision) hquantization (htp _ _ hparallelism) hvendor hmodel
    (htp _ _ hcount) htoolkits hendpoint).symm

/-- In another reading, what follows the vendor ends what followed it. -/
theorem afterVendor_suffix {x y : HashedDeployment} {more others : List (Set JsString)}
    {tail tail' : List (JsString × JsString)}
    (hfree : Unmistaken (hardwareMarks ++ more) x.provider (x.hardwareFields ++ tail))
    (hparting : ∀ S ∈ others, ∀ s ∈ S, Parting s) (htail' : Follow others tail')
    (h : toWellFormed (weave y.provider (y.hardwareFields ++ tail')) =
      weave x.provider (x.hardwareFields ++ tail)) :
    weave (toWellFormed y.model) (repairFields tail') <:+ weave x.model tail := by
  have hrepaired : weave (toWellFormed y.provider)
      (repairFields y.hardwareFields ++ repairFields tail') =
        weave x.provider (x.hardwareFields ++ tail) := by
    rw [← h, toWellFormed_weave (List.forall_mem_append.mpr ⟨parting_hardwareMarks, hparting⟩) _
      (List.rel_append y.follow_hardwareFields htail')]
    unfold repairFields
    rw [List.map_append]
  exact tail_suffix (v := []) marks_hardwareMarks x.follow_hardwareFields
    (follow_repairFields y.follow_hardwareFields) hfree hrepaired

/-- **A deployment whose fields keep their places** is the only one that is hashed so. -/
theorem Unmistakable.eq {d e : DeploymentIdentity} (hd : d.hashed.Unmistakable)
    (h : utf8 d.hashed.string = utf8 e.hashed.string) : d.hashed = e.hashed := by
  rw [utf8_string_eq_iff] at h
  cases hd with
  | bare htoolkits hprovider hfields hfree hunimitated =>
    have hwf : ∀ S ∈ hardwareMarks ++ bareMarks, ∀ s ∈ S, Parting s :=
      List.forall_mem_append.mpr ⟨parting_hardwareMarks, parting_bareMarks⟩
    have hone := (woven_told_iff (List.forall_mem_append.mpr ⟨marks_hardwareMarks, marks_bareMarks⟩)
      hwf d.hashed.follow_bareFields).mpr ⟨⟨hprovider, hfields⟩, hfree⟩
    rw [weave_bare htoolkits] at h
    by_cases hempty : e.hashed.toolkits = []
    · rw [weave_bare hempty] at h
      obtain ⟨hsame, hrest⟩ := hone _ _ e.hashed.follow_bareFields h.symm
      obtain ⟨hhardware, htail⟩ := List.append_inj hrest rfl
      unfold bareFields bareMark at htail
      simp only [List.cons.injEq, Prod.mk.injEq, frame_inj, and_true] at htail
      exact hashed_eq_of_fields hsame hhardware htail.1 (hempty.trans htoolkits.symm) htail.2
    · have hsuffix := afterVendor_suffix hfree parting_listedMarks
        (e.hashed.follow_listedFields (toolkitsText e.hashed.toolkits)) (h.symm.trans
          (toWellFormed_weave_of_faithful hwf d.hashed.follow_bareFields hprovider hfields))
      apply absurd _ (hunimitated e.hashed.count
        (toWellFormed (toolkitsText e.hashed.toolkits)) (toWellFormed e.hashed.endpoint)
        (mem_toWellFormed (mem_toolkitsText hempty)))
      apply (List.suffix_append (toWellFormed e.hashed.model) _).trans
      unfold afterVendor
      rw [htoolkits, toolkitsText_nil, weave_listedFields_nil]
      exact hsuffix
  | single key version htoolkits hprovider hfields hfree hunimitated =>
    have hwf : ∀ S ∈ hardwareMarks ++ singleMarks, ∀ s ∈ S, Parting s :=
      List.forall_mem_append.mpr ⟨parting_hardwareMarks, parting_singleMarks⟩
    have hone := (woven_told_iff
      (List.forall_mem_append.mpr ⟨marks_hardwareMarks, marks_singleMarks⟩) hwf
      (d.hashed.follow_singleFields key version)).mpr ⟨⟨hprovider, hfields⟩, hfree⟩
    have htext : toolkitsText d.hashed.toolkits = key ++ 61 :: version := by
      rw [htoolkits, toolkitsText_singleton]
    rw [weave_single htext] at h
    by_cases hempty : e.hashed.toolkits = []
    · rw [weave_bare hempty] at h
      have hsuffix := afterVendor_suffix hfree parting_bareMarks
        (follow_cons.mpr ⟨⟨e.hashed.count, rfl⟩, follow_nil.mpr rfl⟩) (h.symm.trans
          (toWellFormed_weave_of_faithful hwf (d.hashed.follow_singleFields key version)
            hprovider hfields))
      apply absurd _ (hunimitated e.hashed.count (toWellFormed e.hashed.endpoint))
      apply (List.suffix_append (toWellFormed e.hashed.model) _).trans
      unfold afterVendor
      rw [htext, weave_listedFields_cons]
      exact hsuffix
    · obtain ⟨⟨key', version'⟩, more, hmore⟩ := List.exists_cons_of_ne_nil hempty
      obtain ⟨w, hw, hlast⟩ : ∃ w, toolkitsText e.hashed.toolkits = key' ++ 61 :: w ∧
          (61 ∉ w → more = [] ∧ w = version') := by
        cases more with
        | nil => exact ⟨version', by rw [hmore, toolkitsText_singleton], fun _ => ⟨rfl, rfl⟩⟩
        | cons p ps =>
          refine ⟨_, by rw [hmore, toolkitsText_cons_cons], fun hfree' => absurd ?_ hfree'⟩
          exact List.mem_append_right _ (List.mem_cons_of_mem _
            (mem_toolkitsText (List.cons_ne_nil _ _)))
      rw [weave_single hw] at h
      obtain ⟨hsame, hrest⟩ := hone _ _ (e.hashed.follow_singleFields key' w) h.symm
      obtain ⟨hhardware, htail⟩ := List.append_inj hrest rfl
      unfold singleFields countMark at htail
      simp only [List.cons.injEq, Prod.mk.injEq, frame_inj, true_and, and_true] at htail
      obtain ⟨⟨hcount, rfl⟩, rfl, hendpoint⟩ := htail
      -- the version has no `=`, so there is no second toolkit
      have hversion : 61 ∉ w := by
        obtain ⟨-, -, -, hw', -⟩ := hfree.drop d.hashed.follow_hardwareFields
        intro hmem
        obtain ⟨a, b, rfl⟩ := List.append_of_mem hmem
        have heq : js "=" = [61] := by decide
        refine hw' _ rfl ⟨a, b, ?_⟩
        rw [heq, List.append_assoc, List.singleton_append]
      obtain ⟨rfl, rfl⟩ := hlast hversion
      exact hashed_eq_of_fields hsame hhardware hcount (hmore.trans htoolkits.symm) hendpoint

/-! ## Several readings -/

section

variable {d : DeploymentIdentity}
  (htold : ∀ e : DeploymentIdentity, deploymentText d = deploymentText e → d.hashed = e.hashed)

include htold

/-- A deployment that is told from every other one has the fields of any that is hashed so. -/
theorem eq_of_told (y : HashedDeployment) (toolkits : StringRecord)
    (h : utf8 d.hashed.string = utf8 { y with toolkits := sortProps toolkits.entries }.string) :
    d.hashed = { y with tensorParallelism := y.tensorParallelism.map Number.unsigned,
                        count := y.count.map Number.unsigned,
                        toolkits := sortProps toolkits.entries } := by
  rw [← hashed_ofFields]
  apply htold
  rw [deploymentText_eq, deploymentText_eq, string_ofFields, h]

/-- A deployment without toolkits that is told from every other one: no field can be read in another
place. -/
theorem bare_of_told (htoolkits : d.hashed.toolkits = []) : d.hashed.Unmistakable := by
  have hwf : ∀ S ∈ hardwareMarks ++ bareMarks, ∀ s ∈ S, Parting s :=
    List.forall_mem_append.mpr ⟨parting_hardwareMarks, parting_bareMarks⟩
  obtain ⟨⟨hprovider, hfields⟩, hfree⟩ := (woven_told_iff
    (List.forall_mem_append.mpr ⟨marks_hardwareMarks, marks_bareMarks⟩) hwf
    d.hashed.follow_bareFields (f := d.hashed.provider)).mp fun g other hother h => by
      obtain ⟨y, rfl, rfl⟩ := exists_bareFields hother g
      have hsame := eq_of_told htold y ⟨[], List.nodup_nil⟩ (by
        rw [utf8_string_eq_iff, weave_bare htoolkits, weave_bare rfl]
        exact h.symm)
      rw [hsame]
      unfold hardwareFields bareFields parallelismMark bareMark
      simp only [numberText_unsigned, and_self]
  refine .bare htoolkits hprovider hfields hfree fun n listed endpoint hmem hsuffix => ?_
  obtain ⟨model, hmodel⟩ := hsuffix
  obtain ⟨key, version, rfl⟩ := List.append_of_mem hmem
  have hsame := eq_of_told htold
    { d.hashed with model := model, count := n, endpoint := endpoint }
    ⟨[(key, version)], List.nodup_singleton _⟩ (by
      rw [string_eq, string_eq, ← hmodel]
      unfold afterVendor
      rw [show sortProps [(key, version)] = [(key, version)] from rfl, toolkitsText_singleton]
      rfl)
  have hnil : d.hashed.toolkits = [(key, version)] := by rw [hsame]; rfl
  rw [htoolkits] at hnil
  exact List.cons_ne_nil _ _ hnil.symm

/-- A deployment with one toolkit. -/
theorem single_of_told {key version : JsString}
    (htoolkits : d.hashed.toolkits = [(key, version)]) : d.hashed.Unmistakable := by
  have hwf : ∀ S ∈ hardwareMarks ++ singleMarks, ∀ s ∈ S, Parting s :=
    List.forall_mem_append.mpr ⟨parting_hardwareMarks, parting_singleMarks⟩
  have htext : toolkitsText d.hashed.toolkits = key ++ 61 :: version := by
    rw [htoolkits, toolkitsText_singleton]
  obtain ⟨⟨hprovider, hfields⟩, hfree⟩ := (woven_told_iff
    (List.forall_mem_append.mpr ⟨marks_hardwareMarks, marks_singleMarks⟩) hwf
    (d.hashed.follow_singleFields key version) (f := d.hashed.provider)).mp fun g other hother h => by
      obtain ⟨y, key', version', rfl, rfl⟩ := exists_singleFields hother g
      have hsame := eq_of_told htold y ⟨[(key', version')], List.nodup_singleton _⟩ (by
        rw [utf8_string_eq_iff, weave_single htext, weave_single (toolkitsText_singleton _ _)]
        exact h.symm)
      have hone : [(key, version)] = [(key', version')] := by
        rw [← htoolkits, hsame]
        rfl
      rw [List.cons.injEq, Prod.mk.injEq] at hone
      rw [hsame, hone.1.1, hone.1.2]
      unfold hardwareFields singleFields parallelismMark countMark
      simp only [numberText_unsigned, and_self]
  refine .single key version htoolkits hprovider hfields hfree fun n endpoint hsuffix => ?_
  obtain ⟨model, hmodel⟩ := hsuffix
  have hsame := eq_of_told htold
    { d.hashed with model := model, count := n, endpoint := endpoint } ⟨[], List.nodup_nil⟩ (by
      rw [string_eq, string_eq, ← hmodel]
      unfold afterVendor
      rw [show sortProps [] = ([] : List (JsString × JsString)) from rfl, toolkitsText_nil,
        weave_listedFields_nil]
      rfl)
  have hnil : d.hashed.toolkits = [] := by
    rw [hsame]
    rfl
  rw [htoolkits] at hnil
  exact List.cons_ne_nil _ _ hnil

/-- Several toolkits read as one, whose version goes on after the comma. -/
theorem toolkits_of_told (key version : JsString) (p : JsString × JsString)
    (ps : List (JsString × JsString)) : d.hashed.toolkits ≠ (key, version) :: p :: ps := by
  intro htoolkits
  have hsame := eq_of_told htold d.hashed
    ⟨[(key, version ++ 44 :: toolkitsText (p :: ps))], List.nodup_singleton _⟩ (by
      unfold string
      rw [show ∀ w, sortProps [(key, w)] = [(key, w)] from fun _ => rfl, htoolkits,
        toolkitsText_singleton, toolkitsText_cons_cons]
      rfl)
  have hone : d.hashed.toolkits = [(key, version ++ 44 :: toolkitsText (p :: ps))] := by
    rw [hsame]
    rfl
  rw [htoolkits, List.cons.injEq] at hone
  exact List.cons_ne_nil _ _ hone.2

end

/-- **A deployment is told from every other one** by what is hashed exactly when it has one toolkit at
most and no field of it can be read in another place. -/
theorem deploymentTold_iff (d : DeploymentIdentity) :
    (∀ e : DeploymentIdentity, deploymentText d = deploymentText e → d.hashed = e.hashed) ↔
      d.hashed.Unmistakable := by
  constructor
  · intro htold
    cases htoolkits : d.hashed.toolkits with
    | nil => exact bare_of_told htold htoolkits
    | cons first more =>
      obtain ⟨key, version⟩ := first
      cases more with
      | nil => exact single_of_told htold htoolkits
      | cons p ps => exact absurd htoolkits (toolkits_of_told htold key version p ps)
  · intro hd e h
    rw [deploymentText_eq, deploymentText_eq] at h
    exact hd.eq h

end HashedDeployment

end AgentEval.Provenance
