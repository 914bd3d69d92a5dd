import AgentEval.Js.Scalars
import AgentEval.Models.Registry
import AgentEval.Provenance.Differences

/-!
# `models/registry.ts`: what the fingerprint of a model tells

The provider, the type of the deployment, the identifier, what the provider has reported, and the
endpoint where it is part of the identity are hashed with a line break after each. A text may have
line breaks of its own.

* `modelFingerprint` — the hash.
* `Fingerprinted.text_eq_iff`: two models are hashed alike when they have the same lines.
* **`Fingerprinted.told_iff`**: a model is told from every other one by what is hashed exactly when no field
  of it can be read in another place.
-/

namespace AgentEval.Models

open Js Sha256 Lines Provenance

/-- The fields of a registered model that its fingerprint is made of.
Source: `registry.ts`, `modelFingerprint` -/
structure FingerprintInput where
  provider : JsString
  deploymentType : DeploymentType
  modelIdentifier : JsString
  resolvedModelId : Option JsString
  baseUrl : Option JsString

/-- Those of a registered model. -/
def RegisteredModel.fingerprintInput (m : RegisteredModel) : FingerprintInput :=
  ⟨m.provider, m.deploymentType, m.modelIdentifier, m.resolvedModelId, m.baseUrl⟩

/-- What the fingerprint is fed. -/
def fingerprintParts (m : FingerprintInput) : List JsString :=
  [js "model:v1\n",
    m.provider ++ js "\n" ++ m.deploymentType.toJs ++ js "\n" ++ m.modelIdentifier ++ js "\n",
    orEmpty m.resolvedModelId ++ js "\n",
    (if endpointIsIdentity m.deploymentType then orEmpty m.baseUrl else []) ++ js "\n"]

/-- A hash over the fields that change what is measured.
Source: `registry.ts`, `modelFingerprint` -/
def modelFingerprint (m : FingerprintInput) : JsString := addressOf (fingerprintParts m)

/-- What the fingerprint hashes. -/
def fingerprintText (m : FingerprintInput) : Bytes := hashedText (fingerprintParts m)

/-- The fields that a fingerprint covers; what is absent is empty. -/
@[ext] structure Fingerprinted where
  provider : JsString
  deploymentType : DeploymentType
  modelIdentifier : JsString
  resolvedModelId : JsString
  endpoint : JsString
  /-- The endpoint of a managed API is not covered. -/
  managed : endpointIsIdentity deploymentType = false → endpoint = []

/-- Those of a model. -/
def FingerprintInput.covered (m : FingerprintInput) : Fingerprinted where
  provider := m.provider
  deploymentType := m.deploymentType
  modelIdentifier := m.modelIdentifier
  resolvedModelId := orEmpty m.resolvedModelId
  endpoint := if endpointIsIdentity m.deploymentType then orEmpty m.baseUrl else []
  managed := fun h => by rw [h, if_neg Bool.false_ne_true]

namespace Fingerprinted

/-- The line break. -/
abbrev newline : UInt16 := 10

/-- The texts that are hashed, each with a line break after it. -/
def fields (x : Fingerprinted) : List JsString :=
  [x.provider, x.deploymentType.toJs, x.modelIdentifier, x.resolvedModelId, x.endpoint]

/-- What is hashed. -/
def text (x : Fingerprinted) : Bytes := utf8 (js "model:v1\n" ++ x.fields.flatMap (· ++ [newline]))

/-- No field can be read in another place. -/
structure Unmistakable (x : Fingerprinted) : Prop where
  /-- Every field is told by its octets. -/
  faithful : Faithful x.provider ∧ Faithful x.modelIdentifier ∧ Faithful x.resolvedModelId ∧
    Faithful x.endpoint
  /-- The identifier is one line. -/
  modelIdentifier : newline ∉ x.modelIdentifier
  /-- So is what the provider has reported. -/
  resolvedModelId : newline ∉ x.resolvedModelId
  /-- So is the endpoint. -/
  endpoint : newline ∉ x.endpoint
  /-- No line of the provider after its first is the name of a type that a model with this endpoint
  can have. -/
  unimitated : ∀ d : DeploymentType, d.toJs ∈ (x.provider.splitOn newline).tail →
    endpointIsIdentity d = false ∧ x.endpoint ≠ []

/-- A model with these fields. -/
def input (x : Fingerprinted) : FingerprintInput :=
  ⟨x.provider, x.deploymentType, x.modelIdentifier, some x.resolvedModelId, some x.endpoint⟩

/-- It has these fields. -/
theorem covered_input (x : Fingerprinted) : x.input.covered = x := by
  refine Fingerprinted.ext rfl rfl rfl rfl ?_
  change (if endpointIsIdentity x.deploymentType then x.endpoint else []) = x.endpoint
  split_ifs with h
  · rfl
  · exact (x.managed (Bool.eq_false_iff.mpr h)).symm

/-! ## Lines -/

/-- What is hashed of a model. -/
theorem fingerprintText_eq (m : FingerprintInput) : fingerprintText m = m.covered.text := by
  have hmark : js "model:v1\n" = js "model:v1" ++ [newline] := by decide
  have hline : js "\n" = [newline] := by decide
  have hended : ∀ s ∈ fingerprintParts m, ∃ t, s = t ++ [newline] := by
    intro s hs
    unfold fingerprintParts at hs
    rw [hline, hmark] at hs
    simp only [List.mem_cons, List.not_mem_nil, or_false] at hs
    rcases hs with rfl | rfl | rfl | rfl
    · exact ⟨_, rfl⟩
    · exact ⟨_, rfl⟩
    · exact ⟨_, rfl⟩
    · exact ⟨_, rfl⟩
  unfold fingerprintText hashedText text
  rw [flatMap_utf8_ended (by decide) (by decide) hended]
  unfold fingerprintParts fields FingerprintInput.covered
  rw [hline]
  simp

/-- The name of a type is one line. -/
theorem newline_notMem_toJs (d : DeploymentType) : newline ∉ d.toJs := by
  cases d <;> decide

/-- Types have different names. -/
theorem toJs_injective : Function.Injective DeploymentType.toJs := by
  intro d e h
  cases d <;> cases e <;> first | rfl | exact absurd h (by decide)

/-- **Two models are hashed alike** when they have the same lines, lone surrogates replaced. -/
theorem text_eq_iff {x y : Fingerprinted} : x.text = y.text ↔
    linesOf newline (x.fields.map toWellFormed) = linesOf newline (y.fields.map toWellFormed) := by
  unfold text
  rw [utf8_eq_iff, toWellFormed_append (wellFormed_js _), toWellFormed_append (wellFormed_js _),
    List.append_cancel_left_eq, toWellFormed_ended (by decide) (by decide),
    toWellFormed_ended (by decide) (by decide), ended_eq_iff]

/-- With the same lines, they are. -/
theorem text_eq_of_linesOf {x y : Fingerprinted}
    (h : linesOf newline x.fields = linesOf newline y.fields) : x.text = y.text := by
  unfold text
  rw [ended_eq_iff.mpr h]

/-- The lines of what is hashed. -/
theorem linesOf_fields (x : Fingerprinted) : linesOf newline x.fields =
    x.provider.splitOn newline ++ x.deploymentType.toJs :: (x.modelIdentifier.splitOn newline ++
      (x.resolvedModelId.splitOn newline ++ x.endpoint.splitOn newline)) := by
  unfold fields
  rw [linesOf_cons, linesOf_cons, linesOf_cons, linesOf_cons, linesOf_cons, linesOf_nil,
    List.splitOn_eq_singleton (newline_notMem_toJs x.deploymentType), List.append_nil,
    List.singleton_append]

/-! ## One reading -/

/-- Three texts of three lines. -/
theorem eq_of_three_lines {a b c p q r : JsString}
    (h : a.splitOn newline ++ (b.splitOn newline ++ c.splitOn newline) = [p, q, r]) :
    a = p ∧ b = q ∧ c = r := by
  have ha := length_splitOn_pos newline a
  have hb := length_splitOn_pos newline b
  have hc := length_splitOn_pos newline c
  have hlength := congrArg List.length h
  rw [List.length_append, List.length_append, List.length_cons, List.length_cons,
    List.length_singleton] at hlength
  have hfree : ∀ l ∈ [a, b, c], newline ∉ l := by
    apply free_of_length_linesOf
    rw [linesOf_cons, linesOf_cons, linesOf_cons, linesOf_nil]
    simp only [List.length_append, List.length_cons, List.length_nil]
    omega
  simp only [List.forall_mem_cons] at hfree
  rw [List.splitOn_eq_singleton hfree.1, List.splitOn_eq_singleton hfree.2.1,
    List.splitOn_eq_singleton hfree.2.2.1] at h
  simpa using h

/-- **A model whose fields keep their places** has lines of its own. -/
theorem eq_of_linesOf_fields {x z : Fingerprinted} (hx : x.Unmistakable)
    (h : linesOf newline z.fields = linesOf newline x.fields) : z = x := by
  rw [linesOf_fields, linesOf_fields, List.splitOn_eq_singleton hx.modelIdentifier,
    List.splitOn_eq_singleton hx.resolvedModelId, List.splitOn_eq_singleton hx.endpoint] at h
  have hlength := congrArg List.length h
  have hmodel := length_splitOn_pos newline z.modelIdentifier
  have hresolved := length_splitOn_pos newline z.resolvedModelId
  have hendpoint := length_splitOn_pos newline z.endpoint
  simp only [List.length_append, List.length_cons, List.length_nil] at hlength
  rcases List.append_eq_append_iff.mp h with ⟨c, hprovider, hc⟩ | ⟨c, hprovider, hc⟩
  · cases c with
    | nil =>
      rw [List.nil_append, List.cons.injEq] at hc
      rw [List.append_nil] at hprovider
      obtain ⟨hm, hr, he⟩ := eq_of_three_lines hc.2
      exact Fingerprinted.ext (splitOn_injective hprovider.symm) (toJs_injective hc.1) hm hr he
    | cons l c =>
      -- the type of the other one is a line of the provider
      rw [List.cons_append, List.cons.injEq] at hc
      obtain ⟨hl, hrest⟩ := hc
      exfalso
      have hmem : z.deploymentType.toJs ∈ (x.provider.splitOn newline).tail := by
        obtain ⟨a, as, ha⟩ := List.exists_cons_of_ne_nil (List.splitOn_ne_nil newline z.provider)
        rw [hprovider, ha, hl, List.cons_append, List.tail_cons]
        exact List.mem_append_right as (List.mem_cons_self ..)
      obtain ⟨hmanaged, hne⟩ := hx.unimitated _ hmem
      have hempty := z.managed hmanaged
      apply hne
      have hlast := congrArg List.getLast? hrest
      rw [hempty] at hlast
      simpa using hlast.symm
  · have hnil : c = [] := by
      rw [hprovider, List.length_append] at hlength
      exact List.eq_nil_of_length_eq_zero (by omega)
    subst hnil
    rw [List.nil_append, List.cons.injEq] at hc
    rw [List.append_nil] at hprovider
    obtain ⟨hm, hr, he⟩ := eq_of_three_lines hc.2.symm
    exact Fingerprinted.ext (splitOn_injective hprovider) (toJs_injective hc.1.symm) hm hr he

/-- The model with its lone surrogates replaced. -/
def repair (x : Fingerprinted) : Fingerprinted where
  provider := toWellFormed x.provider
  deploymentType := x.deploymentType
  modelIdentifier := toWellFormed x.modelIdentifier
  resolvedModelId := toWellFormed x.resolvedModelId
  endpoint := toWellFormed x.endpoint
  managed := fun h => by rw [x.managed h]; rfl

/-- Its fields are the fields repaired. -/
theorem fields_repair (x : Fingerprinted) : x.repair.fields = x.fields.map toWellFormed := by
  have htype : WellFormed x.deploymentType.toJs := by
    cases x.deploymentType <;> exact wellFormed_js _
  unfold fields repair
  rw [List.map_cons, List.map_cons, List.map_cons, List.map_cons, List.map_cons, List.map_nil,
    toWellFormed_of_wellFormed htype]

/-- A model whose fields keep their places is the only one that is hashed so. -/
theorem Unmistakable.eq {x y : Fingerprinted} (hx : x.Unmistakable) (h : x.text = y.text) : x = y := by
  obtain ⟨hprovider, hmodel, hresolved, hendpoint⟩ := hx.faithful
  rw [text_eq_iff, ← fields_repair, ← fields_repair] at h
  have hself : x.repair = x := Fingerprinted.ext (toWellFormed_of_wellFormed hprovider.wellFormed) rfl
    (toWellFormed_of_wellFormed hmodel.wellFormed)
    (toWellFormed_of_wellFormed hresolved.wellFormed)
    (toWellFormed_of_wellFormed hendpoint.wellFormed)
  rw [hself] at h
  have hy := eq_of_linesOf_fields hx h.symm
  have htype : y.repair.deploymentType = x.deploymentType := congrArg deploymentType hy
  refine (Fingerprinted.ext (x := y) ?_ htype ?_ ?_ ?_).symm
  · apply faithful_iff.mp hprovider
    exact (congrArg provider hy).trans (toWellFormed_of_wellFormed hprovider.wellFormed).symm
  · apply faithful_iff.mp hmodel
    exact (congrArg Fingerprinted.modelIdentifier hy).trans
      (toWellFormed_of_wellFormed hmodel.wellFormed).symm
  · apply faithful_iff.mp hresolved
    exact (congrArg Fingerprinted.resolvedModelId hy).trans
      (toWellFormed_of_wellFormed hresolved.wellFormed).symm
  · apply faithful_iff.mp hendpoint
    exact (congrArg Fingerprinted.endpoint hy).trans
      (toWellFormed_of_wellFormed hendpoint.wellFormed).symm

/-! ## Several readings -/

section

variable {x : Fingerprinted} (hx : ∀ y : Fingerprinted, x.text = y.text → x = y)

include hx

/-- A model that is told by what is hashed has no field that its octets do not tell. -/
theorem faithful_of_told : Faithful x.provider ∧ Faithful x.modelIdentifier ∧
    Faithful x.resolvedModelId ∧ Faithful x.endpoint := by
  refine ⟨?_, ?_, ?_, ?_⟩
  · rw [faithful_iff]
    intro t ht
    have hsame := hx { x with provider := t } (text_eq_iff.mpr (by simp [fields, ht]))
    exact (congrArg Fingerprinted.provider hsame).symm
  · rw [faithful_iff]
    intro t ht
    have hsame := hx { x with modelIdentifier := t } (text_eq_iff.mpr (by simp [fields, ht]))
    exact (congrArg Fingerprinted.modelIdentifier hsame).symm
  · rw [faithful_iff]
    intro t ht
    have hsame := hx { x with resolvedModelId := t } (text_eq_iff.mpr (by simp [fields, ht]))
    exact (congrArg Fingerprinted.resolvedModelId hsame).symm
  · rw [faithful_iff]
    intro t ht
    have hmanaged : endpointIsIdentity x.deploymentType = false → t = [] := by
      intro h
      rw [x.managed h] at ht
      exact faithful_iff.mp ⟨.nil, List.not_mem_nil⟩ t ht
    have hsame := hx { x with endpoint := t, managed := hmanaged }
      (text_eq_iff.mpr (by simp [fields, ht]))
    exact (congrArg Fingerprinted.endpoint hsame).symm

/-- Its identifier is one line: the rest of it could begin what the provider has reported. -/
theorem newline_notMem_modelIdentifier_of_told : newline ∉ x.modelIdentifier := by
  intro hmem
  obtain ⟨p, q, hmodel⟩ := List.append_of_mem hmem
  have hsame := hx { x with modelIdentifier := p, resolvedModelId := q ++ newline :: x.resolvedModelId }
    (by
      apply text_eq_of_linesOf
      rw [linesOf_fields, linesOf_fields, hmodel, List.splitOn_append_cons_self,
        List.splitOn_append_cons_self, List.append_assoc, List.append_assoc])
  have hlength := congrArg (fun z => z.modelIdentifier.length) hsame
  rw [hmodel] at hlength
  simp at hlength

/-- What the provider has reported is one line: the beginning of it could end the identifier. -/
theorem newline_notMem_resolvedModelId_of_told : newline ∉ x.resolvedModelId := by
  intro hmem
  obtain ⟨p, q, hresolved⟩ := List.append_of_mem hmem
  have hsame := hx { x with modelIdentifier := x.modelIdentifier ++ newline :: p,
                            resolvedModelId := q } (by
      apply text_eq_of_linesOf
      rw [linesOf_fields, linesOf_fields, hresolved, List.splitOn_append_cons_self,
        List.splitOn_append_cons_self, List.append_assoc, List.append_assoc])
  have hlength := congrArg (fun z => z.resolvedModelId.length) hsame
  rw [hresolved] at hlength
  simp only [List.length_append, List.length_cons] at hlength
  omega

/-- So is the endpoint. -/
theorem newline_notMem_endpoint_of_told : newline ∉ x.endpoint := by
  intro hmem
  obtain ⟨p, q, hendpoint⟩ := List.append_of_mem hmem
  have hmanaged : endpointIsIdentity x.deploymentType = false → q = [] := by
    intro h
    rw [x.managed h] at hmem
    exact absurd hmem List.not_mem_nil
  have hsame := hx { x with resolvedModelId := x.resolvedModelId ++ newline :: p,
                            endpoint := q, managed := hmanaged } (by
      apply text_eq_of_linesOf
      rw [linesOf_fields, linesOf_fields, hendpoint, List.splitOn_append_cons_self,
        List.splitOn_append_cons_self, List.append_assoc])
  have hlength := congrArg (fun z => z.endpoint.length) hsame
  rw [hendpoint] at hlength
  simp only [List.length_append, List.length_cons] at hlength
  omega

/-- No later line of its provider is a type with such an endpoint: what is between that line and the
reported identifier could be the identifier. -/
theorem unimitated_of_told (d : DeploymentType)
    (hd : d.toJs ∈ (x.provider.splitOn newline).tail) :
    endpointIsIdentity d = false ∧ x.endpoint ≠ [] := by
  by_contra hnot
  have hmanaged : endpointIsIdentity d = false → x.endpoint = [] := by
    intro h
    by_contra hne
    exact hnot ⟨h, hne⟩
  obtain ⟨a, as, hprovider⟩ := List.exists_cons_of_ne_nil (List.splitOn_ne_nil newline x.provider)
  rw [hprovider, List.tail_cons] at hd
  obtain ⟨front, back, rfl⟩ := List.append_of_mem hd
  have hlines : ∀ l ∈ a :: (front ++ d.toJs :: back), newline ∉ l := by
    rw [← hprovider]
    exact fun l hl => not_mem_of_mem_splitOn hl
  obtain ⟨hfirst, hrest⟩ := List.forall_mem_append.mp (List.cons_append ▸ hlines)
  rw [List.forall_mem_cons] at hrest
  have hfront := List.splitOn_intercalate newline hfirst (List.cons_ne_nil _ _)
  have hmodel : ∀ l ∈ back ++ x.deploymentType.toJs :: x.modelIdentifier.splitOn newline,
      newline ∉ l := by
    rw [List.forall_mem_append, List.forall_mem_cons]
    exact ⟨hrest.2, newline_notMem_toJs _, fun l hl => not_mem_of_mem_splitOn hl⟩
  have hback := List.splitOn_intercalate newline hmodel
    (List.append_ne_nil_of_right_ne_nil _ (List.cons_ne_nil _ _))
  have hsame := hx ⟨[newline].intercalate (a :: front), d,
      [newline].intercalate (back ++ x.deploymentType.toJs :: x.modelIdentifier.splitOn newline),
      x.resolvedModelId, x.endpoint, hmanaged⟩ (by
    apply text_eq_of_linesOf
    rw [linesOf_fields, linesOf_fields]
    simp only [hfront, hback, hprovider, List.append_assoc, List.cons_append])
  have hlength := congrArg (fun z => (z.provider.splitOn newline).length) hsame
  change _ = (List.splitOn newline ([newline].intercalate _)).length at hlength
  rw [hfront, hprovider] at hlength
  simp only [List.length_append, List.length_cons] at hlength
  omega

end

/-- **A model is told from every other one** by what is hashed exactly when no field of it can be read
in another place. -/
theorem told_iff (m : FingerprintInput) :
    (∀ n : FingerprintInput, fingerprintText m = fingerprintText n → m.covered = n.covered) ↔
      m.covered.Unmistakable := by
  constructor
  · intro htold
    have hx : ∀ y : Fingerprinted, m.covered.text = y.text → m.covered = y := by
      intro y h
      have hsame := htold y.input (by rw [fingerprintText_eq, fingerprintText_eq, covered_input, h])
      rw [covered_input] at hsame
      exact hsame
    exact ⟨faithful_of_told hx, newline_notMem_modelIdentifier_of_told hx,
      newline_notMem_resolvedModelId_of_told hx, newline_notMem_endpoint_of_told hx,
      unimitated_of_told hx⟩
  · intro hm n h
    rw [fingerprintText_eq, fingerprintText_eq] at h
    exact hm.eq h

end Fingerprinted

end AgentEval.Models
