import AgentEval.Policy.Enforced
import AgentEval.Policy.Sources
import AgentEval.Rego.Documents
import AgentEval.Async.Kept
import AgentEval.Rego.Bodies
import AgentEval.Dialogue.Asking
import AgentEval.Js.Extremes
import AgentEval.Js.Sums
import AgentEval.Robustness.Admitted
import AgentEval.Robustness.Assess
import AgentEval.Robustness.Budget
import AgentEval.Robustness.Findings
import AgentEval.Robustness.FuzzReport
import AgentEval.Robustness.Headline
import AgentEval.Robustness.Fuzzer
import AgentEval.Robustness.Wilson
import AgentEval.Robustness.Statistics
import AgentEval.Proportions.Score
import AgentEval.Scoring.Clusters
import AgentEval.Models.Patches
import AgentEval.Evidence.RuleNames
import AgentEval.Provenance.Told
import AgentEval.Tasks.SetHash
import AgentEval.Auth.Told
import AgentEval.Robustness.Rename
import AgentEval.Robustness.Reformat
import AgentEval.Robustness.Perturbations
import AgentEval.Regex.Whole
import AgentEval.Js.Reprint
import AgentEval.Js.OwnKeys
import AgentEval.Finance.Verdict
import AgentEval.Finance.Swapped
import AgentEval.Scoring.Composite
import AgentEval.Scoring.RequiredTasks
import AgentEval.Scoring.PassRates
import AgentEval.Scoring.Holm
import AgentEval.Finance.Sign
import AgentEval.Finance.Negated
import AgentEval.Finance.RateAmount
import AgentEval.Finance.Rates
import AgentEval.Policy.FailsClosed
import AgentEval.Scoring.Tiers
import AgentEval.Finance.Currency
import AgentEval.Provenance.Differences
import AgentEval.Api.IssuedBundles
import AgentEval.Trajectories.BlobWrites
import AgentEval.Store.AuditPages
import AgentEval.Store.RunPages
import AgentEval.Store.Pages
import AgentEval.Paging.Offset
import AgentEval.Auth.IssuedKeys
import AgentEval.Auth.StoredKeys
import AgentEval.Models.ProbedFacts
import AgentEval.Models.Cost
import AgentEval.Models.Skipped
import AgentEval.Models.SafeEndpoints
import AgentEval.Tasks.Membership
import AgentEval.Api.SplitGate
import AgentEval.Providers.KeysStay
import AgentEval.Providers.Aborted
import AgentEval.Trajectories.Concluded
import AgentEval.Api.FinalStatus
import AgentEval.Api.SameStory
import AgentEval.Api.Approvals
import AgentEval.Store.ClaimOrder
import AgentEval.Cli.Agreement
import AgentEval.Conformance.Canonicalization
import AgentEval.Api.Evidenced
import AgentEval.Api.OneState
import AgentEval.Conformance.MerkleRoot
import AgentEval.Evidence.EarlierRoot
import AgentEval.Evidence.BundlePositions
import AgentEval.Evidence.LogIntegrity
import AgentEval.Evidence.AuditLog
import AgentEval.Crypto.HashChain
import AgentEval.Evidence.Canonical
import AgentEval.Js.Json
import AgentEval.Evidence.BundleCorrect
import AgentEval.Evidence.EvidenceBundle
import AgentEval.Evidence.Signer
import AgentEval.Js.Object
import AgentEval.Js.Value
import AgentEval.Js.Date
import AgentEval.Evidence.ProofCorrect
import AgentEval.Evidence.Auditor
import AgentEval.Worker.Report
