import AgentEval.Policy.Gate
import AgentEval.Rego.Bodies
import AgentEval.Rego.Documents

/-!
# `policies/*.rego`: the policies of the bundle

Each entrypoint of the bundle is a definition in Rego. On the input that the gate gives it, it comes
to an answer about the call and the data of the deployment.

* `source` — the definitions of the entrypoints.
* **`decide_denyBudget`**, **`decide_allowEgress`**, **`decide_requireApproval`**: what they come to.
-/

namespace AgentEval.Policy

open Js Rego

/-! ## The sources -/

/-- Source: `approval-required.rego`, `require_approval` -/
def requireApproval : Definition where
  default := false
  bodies := [
    -- the action is destructive
    [.assign "destructive_actions"
        (.value (.setOf [.str "delete", .str "write_prod", .str "drop_db"])),
      .member (Term.input.dot "action") (.var "destructive_actions")],
    -- the cost exceeds the threshold
    [.greater (Term.input.dot "cost") ((Term.data.dot "budget").dot "threshold")],
    -- the tool is restricted
    [.assign "restricted_tools"
        (.value (.setOf [.str "shell", .str "aws_cli", .str "kubernetes_admin"])),
      .member (Term.input.dot "tool") (.var "restricted_tools")]]
  safe := by decide

/-- Source: `budget-limit.rego`, `deny_budget` -/
def denyBudget : Definition where
  default := false
  bodies := [
    [.greater (Term.input.dot "tokens_used") (Term.input.dot "budget_limit")],
    [.greater (Term.input.dot "cost_incurred") (Term.input.dot "max_cost")]]
  safe := by decide

/-- Source: `egress-allowlist.rego`, `allow_egress` -/
def allowEgress : Definition where
  default := false
  bodies := [
    [.assign "allowed_domains" (.ref (Term.data.dot "task_allowlist") (Term.input.dot "task_id")),
      .member (Term.input.dot "domain") (.var "allowed_domains")],
    -- local telemetry is always allowed
    [.equal (Term.input.dot "domain") (.value (.str "telemetry.internal"))]]
  safe := by decide

/-- Source: `default-deny.rego`, `allow` -/
def allow : Definition where
  default := false
  bodies := [
    [.equal (Term.input.dot "role") (.value (.str "admin"))],
    [.each "permission" (.ref (Term.data.dot "role_permissions") (Term.input.dot "role")),
      .equal ((Term.var "permission").dot "action") (Term.input.dot "action"),
      .equal ((Term.var "permission").dot "resource") (Term.input.dot "resource")]]
  safe := by decide

/-- The definition of an entrypoint. -/
def source : PolicyEntrypoint → Definition
  | .requireApproval => requireApproval
  | .allowEgress => allowEgress
  | .denyBudget => denyBudget
  | .authzAllow => allow

/-! ## The data of a deployment -/

/-- The domains that a task may reach. -/
def allowlist (data : Value) (taskId : JsString) : List Value :=
  ((data.get (.str "task_allowlist")).bind (Value.get · (.str (textOf taskId)))).elim [] Value.members

/-- A cost is above the threshold, where there is one. -/
def aboveThreshold (data : Value) (cost : Number) : Bool :=
  ((data.get (.str "budget")).bind (Value.get · (.str "threshold"))).any fun threshold =>
    decide ((numberOf cost).order threshold = .gt)

/-- A number is above a ceiling, as they are written: what is not finite is above nothing, and no
ceiling at all. -/
def exceeds (x ceiling : Number) : Bool := x.isFinite && (!ceiling.isFinite || ceiling.lt x)

/-! ## What the definitions come to -/

section

variable {input data : Value}

/-- A property of the input. -/
theorem eval_dot {ρ : Env} {k : String} {v : Value} (h : input.get (.str k) = some v) :
    (Term.input.dot k).eval input data ρ = some v := h

/-- A path into the data. -/
theorem eval_path {ρ : Env} (k l : String) :
    ((Term.data.dot k).dot l).eval input data ρ =
      (data.get (.str k)).bind (Value.get · (.str l)) := rfl

/-- A body that compares two properties of the input. -/
theorem run_greater {t u : Term} {v : Value} {w : Option Value}
    (ht : ∀ ρ, t.eval input data ρ = some v) (hu : ∀ ρ, u.eval input data ρ = w) :
    (!(Body.run input data [.greater t u] fun _ => none).isEmpty) =
      w.any fun w => decide (v.order w = .gt) := by
  rw [Body.run, Expr.run, related, ht, hu, Option.any_some]
  cases w.any fun w => decide (v.order w = .gt) <;> rfl

/-- A body that looks a property of the input up among the members of a value. -/
theorem run_member {x : String} {t u : Term} {v : Value} {w : Option Value}
    (ht : ∀ ρ, t.eval input data ρ = some v) (hu : u.eval input data (fun _ => none) = w) :
    (!(Body.run input data [.assign x u, .member t (.var x)] fun _ => none).isEmpty) =
      w.any fun w => decide (v ∈ w.members) := by
  rw [Body.run, Expr.run, hu]
  cases w with
  | none => rfl
  | some w =>
    rw [Option.toList_some, List.map_singleton, List.flatMap_singleton, Body.run, Expr.run, related,
      ht, Option.any_some, Term.eval, Function.update_self, Option.any_some]
    cases decide (v ∈ w.members) <;> simp [Body.run]

/-- A body that compares a property of the input with a text. -/
theorem run_equal {t : Term} {s k : String} (ht : ∀ ρ, t.eval input data ρ = some (.str s)) :
    (!(Body.run input data [.equal t (.value (.str k))] fun _ => none).isEmpty) = decide (s = k) := by
  rw [Body.run, Expr.run, related, ht, Option.any_some, Term.eval, Option.any_some]
  by_cases h : s = k <;> simp [h, Body.run]

/-- A number is above another as they are written. -/
theorem decide_order_numberOf (a b : Number) :
    decide ((numberOf a).order (numberOf b) = .gt) = exceeds a b := by
  apply Bool.eq_iff_iff.mpr
  rw [decide_eq_true_iff, order_numberOf]
  unfold exceeds
  by_cases ha : a.isFinite = true <;> by_cases hb : b.isFinite = true <;> simp [ha, hb]

/-- **The budget**: by tokens or by cost. -/
theorem decide_denyBudget {used limit cost cap : Number}
    (hused : input.get (.str "tokens_used") = some (numberOf used))
    (hlimit : input.get (.str "budget_limit") = some (numberOf limit))
    (hcost : input.get (.str "cost_incurred") = some (numberOf cost))
    (hcap : input.get (.str "max_cost") = some (numberOf cap)) :
    denyBudget.decide input data = (exceeds used limit || exceeds cost cap) := by
  rw [Definition.decide, denyBudget]
  simp only [List.any_cons, List.any_nil, Bool.false_or, Bool.or_false]
  rw [run_greater (fun _ => eval_dot hused) (fun _ => eval_dot hlimit),
    run_greater (fun _ => eval_dot hcost) (fun _ => eval_dot hcap), Option.any_some, Option.any_some,
    decide_order_numberOf, decide_order_numberOf]

/-- **A destination**: one of the list of the task, or local telemetry. -/
theorem decide_allowEgress {taskId domain : JsString} (hdomain : WellFormed domain)
    (hask : input.get (.str "domain") = some (.str (textOf domain)))
    (htask : input.get (.str "task_id") = some (.str (textOf taskId))) :
    allowEgress.decide input data = (decide (.str (textOf domain) ∈ allowlist data taskId) ||
      decide (domain = js "telemetry.internal")) := by
  have hdomains : ((Term.data.dot "task_allowlist").ref (Term.input.dot "task_id")).eval input data
      (fun _ => none) =
        (data.get (.str "task_allowlist")).bind (Value.get · (.str (textOf taskId))) := by
    rw [Term.eval, eval_dot htask]
    rfl
  have hlisted : (((data.get (.str "task_allowlist")).bind (Value.get · (.str (textOf taskId)))).any
      fun w => decide (.str (textOf domain) ∈ w.members)) =
        decide (.str (textOf domain) ∈ allowlist data taskId) := by
    unfold allowlist
    cases (data.get (.str "task_allowlist")).bind (Value.get · (.str (textOf taskId))) with
    | none => rfl
    | some w => rfl
  rw [Definition.decide, allowEgress]
  simp only [List.any_cons, List.any_nil, Bool.false_or, Bool.or_false]
  rw [run_member (fun _ => eval_dot hask) hdomains, hlisted, run_equal fun _ => eval_dot hask,
    decide_eq_decide.mpr (textOf_eq_iff hdomain "telemetry.internal")]

/-- **An approval**: for a destructive action, a cost above the threshold, or a restricted tool. -/
theorem decide_requireApproval {action tool : JsString} {cost : Number} (haction : WellFormed action)
    (htool : WellFormed tool) (hasked : input.get (.str "action") = some (.str (textOf action)))
    (hused : input.get (.str "tool") = some (.str (textOf tool)))
    (hcost : input.get (.str "cost") = some (numberOf cost)) :
    requireApproval.decide input data =
      (decide (action ∈ [js "delete", js "write_prod", js "drop_db"]) || (aboveThreshold data cost ||
        decide (tool ∈ [js "shell", js "aws_cli", js "kubernetes_admin"]))) := by
  have hlisted : ∀ (s : JsString) (a b c : String), WellFormed s →
      decide (.str (textOf s) ∈ (Value.setOf [.str a, .str b, .str c]).members) =
        decide (s ∈ [js a, js b, js c]) := by
    intro s a b c hs
    apply decide_eq_decide.mpr
    rw [Value.mem_members_setOf]
    simp only [List.mem_cons, List.not_mem_nil, or_false, Value.str.injEq, textOf_eq_iff hs]
  rw [Definition.decide, requireApproval]
  simp only [List.any_cons, List.any_nil, Bool.false_or, Bool.or_false]
  rw [run_member (fun _ => eval_dot hasked) rfl, run_member (fun _ => eval_dot hused) rfl,
    run_greater (fun _ => eval_dot hcost) fun _ => eval_path "budget" "threshold", Term.eval,
    Option.any_some, Term.eval, Option.any_some, hlisted action _ _ _ haction, hlisted tool _ _ _ htool]
  rfl

end

end AgentEval.Policy
