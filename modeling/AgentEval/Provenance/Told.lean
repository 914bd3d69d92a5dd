import AgentEval.Models.Fingerprint
import AgentEval.Provenance.DeploymentTold
import AgentEval.Provenance.ModelTold

/-!
# Which identities are told by what is hashed

* **`told_by_text_iff`**: for models, deployments and registered models, exactly those with no field
  that can be read in another place.
* **`not_told`**: two tokenizers, two lists of toolkits and two aliases that are hashed alike.
-/

namespace AgentEval.Provenance

open Js Models HashedDeployment

/-- **An identity is told from every other one by the octets that are hashed** exactly when no field of
it can be read in another place: the fields that the address of a model covers, those that the
address of a deployment covers, and those that the fingerprint of a registered model covers. -/
theorem told_by_text_iff (m : ModelIdentity) (d : DeploymentIdentity) (r : FingerprintInput) :
    ((∀ n, modelText m = modelText n → m.hashed = n.hashed) ↔ m.hashed.Unmistakable) ∧
    ((∀ e, deploymentText d = deploymentText e → d.hashed = e.hashed) ↔ d.hashed.Unmistakable) ∧
    ((∀ s, fingerprintText r = fingerprintText s → r.covered = s.covered) ↔
      r.covered.Unmistakable) :=
  ⟨HashedModel.modelTold_iff m, deploymentTold_iff d, Fingerprinted.told_iff r⟩

/-- A tokenizer at a revision. -/
def tokenizedModel (repository revision : JsString) : HashedModel :=
  ⟨.hub, js "m", [], [], [], repository, revision⟩

/-- A deployment on hardware with toolkits. -/
def equippedDeployment (toolkits : StringRecord) : DeploymentIdentity :=
  .ofFields ⟨js "vllm", js "m", .vllm, [], [], none, [], none, js "nvidia", [], none, [], []⟩ toolkits

/-- An alias and what it stands for. -/
def aliasedModel (identifier resolved : JsString) : FingerprintInput :=
  ⟨js "openai", .cloudApi, identifier, some resolved, none⟩

/-- **Identities that are hashed alike**: the tokenizer `a@b` at `c` and `a` at `b@c`, a toolkit at
`12,rocm=6` and two toolkits, an alias of two lines and one of one line. -/
theorem not_told :
    (¬ ∀ m n : ModelIdentity, modelText m = modelText n → m.hashed = n.hashed) ∧
    (¬ ∀ d e : DeploymentIdentity, deploymentText d = deploymentText e → d.hashed = e.hashed) ∧
    ¬ ∀ m n : FingerprintInput, fingerprintText m = fingerprintText n → m.covered = n.covered := by
  refine ⟨fun h => ?_, fun h => ?_, fun h => ?_⟩
  · have hsame := h (tokenizedModel (js "a@b") (js "c")).identity
      (tokenizedModel (js "a") (js "b@c")).identity (by
        rw [HashedModel.modelText_eq, HashedModel.modelText_eq]
        apply congrArg utf8
        decide)
    exact absurd (congrArg HashedModel.tokenizerRevision hsame) (by decide)
  · have hsame := h (equippedDeployment ⟨[(js "cuda", js "12,rocm=6")], List.nodup_singleton _⟩)
      (equippedDeployment ⟨[(js "cuda", js "12"), (js "rocm", js "6")], by
        change [js "cuda", js "rocm"].Nodup
        decide⟩) (by
        rw [deploymentText_eq, deploymentText_eq]
        apply congrArg utf8
        decide)
    exact absurd (congrArg (fun x => x.toolkits.length) hsame) (by decide)
  · have hsame := h (aliasedModel (js "a\nb") (js "c")) (aliasedModel (js "a") (js "b\nc")) (by
        rw [Fingerprinted.fingerprintText_eq, Fingerprinted.fingerprintText_eq]
        apply Fingerprinted.text_eq_of_linesOf
        decide)
    exact absurd (congrArg Fingerprinted.resolvedModelId hsame) (by decide)

end AgentEval.Provenance
