import AgentEval.Rego.Values
import Mathlib.Logic.Function.Basic

/-!
# Rules of Rego

A body is a conjunction of expressions over local names. It holds when some assignment of its names
makes every expression hold (`Body.Holds`), which does not depend on the order of the expressions. An
evaluator goes through them in order and keeps every way to go on (`Body.run`).

* **`Body.run_ne_nil_iff`**: where every name is bound before it is used, both agree.
* **`Definition.decide_iff`**: a definition by several bodies and a default.
-/

namespace Rego

/-- A term. -/
inductive Term where
  /-- A value. -/
  | value (v : Value)
  /-- The input document. -/
  | input
  /-- The data document. -/
  | data
  /-- A local name. -/
  | var (x : String)
  /-- `t[key]` -/
  | ref (t key : Term)

/-- `t.k` -/
def Term.dot (t : Term) (k : String) : Term := .ref t (.value (.str k))

/-- An expression of a body. -/
inductive Expr where
  /-- `x := t` -/
  | assign (x : String) (t : Term)
  /-- `some x in t` -/
  | each (x : String) (t : Term)
  /-- `t in u` -/
  | member (t u : Term)
  /-- `t == u` -/
  | equal (t u : Term)
  /-- `t > u` -/
  | greater (t u : Term)

/-- A body: all of its expressions. -/
abbrev Body := List Expr

/-- What some names stand for. -/
abbrev Env := String → Option Value

section

variable (input data : Value)

/-- What a term stands for, if it is defined. -/
def Term.eval (ρ : Env) : Term → Option Value
  | value v => some v
  | .input => some input
  | .data => some data
  | var x => ρ x
  | ref t key => (t.eval ρ).bind fun v => (key.eval ρ).bind v.get

/-- Whether two terms are defined and their values related. -/
def related (ρ : Env) (r : Value → Value → Bool) (t u : Term) : Bool :=
  (t.eval input data ρ).any fun v => (u.eval input data ρ).any fun w => r v w

/-- The ways to go on after an expression. -/
def Expr.run (ρ : Env) : Expr → List Env
  | assign x t => (t.eval input data ρ).toList.map fun v => Function.update ρ x (some v)
  | each x t => ((t.eval input data ρ).toList.flatMap Value.members).map fun v =>
      Function.update ρ x (some v)
  | member t u => if related input data ρ (fun v w => decide (v ∈ w.members)) t u then [ρ] else []
  | equal t u => if related input data ρ (fun v w => decide (v = w)) t u then [ρ] else []
  | greater t u => if related input data ρ (fun v w => decide (v.order w = .gt)) t u then [ρ] else []

/-- The ways through a body. -/
def Body.run : Body → Env → List Env
  | [], ρ => [ρ]
  | e :: es, ρ => (e.run input data ρ).flatMap (Body.run es)

/-- An expression holds under an assignment of all names. -/
def Expr.Holds (σ : String → Value) : Expr → Prop
  | assign x t => t.eval input data (some ∘ σ) = some (σ x)
  | each x t => ∃ v, t.eval input data (some ∘ σ) = some v ∧ σ x ∈ v.members
  | member t u => related input data (some ∘ σ) (fun v w => decide (v ∈ w.members)) t u
  | equal t u => related input data (some ∘ σ) (fun v w => decide (v = w)) t u
  | greater t u => related input data (some ∘ σ) (fun v w => decide (v.order w = .gt)) t u

/-- A body holds under some assignment. -/
def Body.Holds (body : Body) : Prop := ∃ σ, ∀ e ∈ body, e.Holds input data σ

end

/-! ## Names are bound before they are used -/

/-- The names in a term. -/
def Term.names : Term → List String
  | var x => [x]
  | ref t key => t.names ++ key.names
  | _ => []

/-- The names that an expression reads. -/
def Expr.uses : Expr → List String
  | assign _ t => t.names
  | each _ t => t.names
  | member t u => t.names ++ u.names
  | equal t u => t.names ++ u.names
  | greater t u => t.names ++ u.names

/-- The name that an expression binds. -/
def Expr.binds : Expr → List String
  | assign x _ => [x]
  | each x _ => [x]
  | _ => []

/-- Every name is bound once, and before it is read. -/
def Body.Safe (bound : List String) : Body → Prop
  | [] => True
  | e :: es =>
    (∀ x ∈ e.uses, x ∈ bound) ∧ (∀ x ∈ e.binds, x ∉ bound) ∧ Body.Safe (e.binds ++ bound) es

instance Body.decidableSafe : (bound : List String) → (body : Body) → Decidable (Body.Safe bound body)
  | _, [] => inferInstanceAs (Decidable True)
  | bound, e :: es =>
    haveI := Body.decidableSafe (e.binds ++ bound) es
    inferInstanceAs (Decidable (_ ∧ _ ∧ _))

/-- An assignment of all names that agrees with one of some. -/
def Extends (σ : String → Value) (ρ : Env) : Prop := ∀ x v, ρ x = some v → σ x = v

/-- Exactly these names are bound. -/
def Binds (ρ : Env) (bound : List String) : Prop := ∀ x, x ∈ bound ↔ ρ x ≠ none

section agreement

variable {input data : Value} {ρ : Env} {σ : String → Value} {bound : List String} {x : String}

/-- A term stands for the same under an assignment of more names. -/
theorem Term.eval_eq (hσ : Extends σ ρ) (hρ : Binds ρ bound) {t : Term}
    (h : ∀ x ∈ t.names, x ∈ bound) : t.eval input data (some ∘ σ) = t.eval input data ρ := by
  induction t with
  | var x =>
    obtain ⟨v, hv⟩ := Option.ne_none_iff_exists'.mp ((hρ x).mp (h x (List.mem_singleton_self x)))
    rw [Term.eval, Term.eval, hv, Function.comp_apply, hσ x v hv]
  | ref t key iht ihkey =>
    obtain ⟨ht, hkey⟩ := List.forall_mem_append.mp h
    rw [Term.eval, Term.eval, iht ht, ihkey hkey]
  | _ => rfl

/-- One more name. -/
theorem extends_update {v : Value} (hx : ρ x = none) :
    Extends σ (Function.update ρ x (some v)) ↔ Extends σ ρ ∧ σ x = v := by
  constructor
  · intro h
    refine ⟨fun y w hy => h y w ?_, h x v (Function.update_self ..)⟩
    rw [Function.update_of_ne _ _ _, hy]
    rintro rfl
    rw [hx] at hy
    cases hy
  · rintro ⟨hσ, rfl⟩ y w hy
    by_cases hxy : y = x
    · subst hxy
      rw [Function.update_self] at hy
      exact Option.some.inj hy
    · rw [Function.update_of_ne hxy] at hy
      exact hσ y w hy

/-- The names that are bound after one more. -/
theorem Binds.update (hρ : Binds ρ bound) (v : Value) :
    Binds (Function.update ρ x (some v)) (x :: bound) := by
  intro y
  by_cases hxy : y = x
  · subst hxy
    simp
  · rw [Function.update_of_ne hxy, List.mem_cons, hρ y]
    exact or_iff_right hxy

/-- Two terms are related under an assignment of more names. -/
theorem related_eq (hσ : Extends σ ρ) (hρ : Binds ρ bound) {t u : Term}
    (h : ∀ x ∈ t.names ++ u.names, x ∈ bound) (r : Value → Value → Bool) :
    related input data (some ∘ σ) r t u = related input data ρ r t u := by
  obtain ⟨ht, hu⟩ := List.forall_mem_append.mp h
  unfold related
  rw [Term.eval_eq hσ hρ ht, Term.eval_eq hσ hρ hu]

/-- A test goes on with the same names, or not at all. -/
theorem holds_test_iff {b : Bool} {P : Prop} (h : Extends σ ρ → (P ↔ b = true)) :
    Extends σ ρ ∧ P ↔ ∃ ρ' ∈ (if b then [ρ] else []), Extends σ ρ' := by
  cases b with
  | false => simp +contextual [h]
  | true => simp +contextual [h]

/-- **One expression**: it holds under the assignments that agree with a way to go on. -/
theorem Expr.holds_iff (hρ : Binds ρ bound) {e : Expr} (huses : ∀ x ∈ e.uses, x ∈ bound)
    (hbinds : ∀ x ∈ e.binds, x ∉ bound) :
    Extends σ ρ ∧ e.Holds input data σ ↔ ∃ ρ' ∈ e.run input data ρ, Extends σ ρ' := by
  cases e with
  | assign x t =>
    have hx : ρ x = none := by
      by_contra hne
      exact hbinds x (List.mem_singleton_self x) ((hρ x).mpr hne)
    unfold Expr.Holds Expr.run
    simp only [List.mem_map, Option.mem_toList, exists_exists_and_eq_and, extends_update hx]
    constructor
    · rintro ⟨hσ, h⟩
      exact ⟨σ x, (Term.eval_eq hσ hρ huses).symm.trans h, hσ, rfl⟩
    · rintro ⟨v, hv, hσ, rfl⟩
      exact ⟨hσ, (Term.eval_eq hσ hρ huses).trans hv⟩
  | each x t =>
    have hx : ρ x = none := by
      by_contra hne
      exact hbinds x (List.mem_singleton_self x) ((hρ x).mpr hne)
    unfold Expr.Holds Expr.run
    simp only [List.mem_map, List.mem_flatMap, Option.mem_toList, exists_exists_and_eq_and,
      extends_update hx]
    constructor
    · rintro ⟨hσ, v, hv, hmem⟩
      exact ⟨σ x, ⟨v, (Term.eval_eq hσ hρ huses).symm.trans hv, hmem⟩, hσ, rfl⟩
    · rintro ⟨_, ⟨v, hv, hmem⟩, hσ, rfl⟩
      exact ⟨hσ, v, (Term.eval_eq hσ hρ huses).trans hv, hmem⟩
  | member t u => exact holds_test_iff fun hσ => by rw [Expr.Holds, related_eq hσ hρ huses]
  | equal t u => exact holds_test_iff fun hσ => by rw [Expr.Holds, related_eq hσ hρ huses]
  | greater t u => exact holds_test_iff fun hσ => by rw [Expr.Holds, related_eq hσ hρ huses]

/-- The names that are bound after an expression. -/
theorem Binds.run (hρ : Binds ρ bound) {e : Expr} {ρ' : Env} (h : ρ' ∈ e.run input data ρ) :
    Binds ρ' (e.binds ++ bound) := by
  have htest : ∀ b : Bool, ρ' ∈ (if b then [ρ] else []) → Binds ρ' bound := by
    rintro (_ | _) hmem
    · cases hmem
    · rwa [List.mem_singleton.mp hmem]
  cases e with
  | assign x t =>
    obtain ⟨v, -, rfl⟩ := List.mem_map.mp h
    exact hρ.update v
  | each x t =>
    obtain ⟨v, -, rfl⟩ := List.mem_map.mp h
    exact hρ.update v
  | member t u => exact htest _ h
  | equal t u => exact htest _ h
  | greater t u => exact htest _ h

/-- The ways through a body are the assignments under which it holds. -/
theorem Body.exists_run_iff {body : Body} (hρ : Binds ρ bound) (hsafe : Body.Safe bound body) :
    (∃ σ, Extends σ ρ ∧ ∀ e ∈ body, e.Holds input data σ) ↔ Body.run input data body ρ ≠ [] := by
  induction body generalizing ρ bound with
  | nil =>
    refine iff_of_true ⟨fun x => (ρ x).getD .null, fun x v hv => ?_, List.forall_mem_nil _⟩
      (List.cons_ne_nil _ _)
    change (ρ x).getD .null = v
    rw [hv]
    rfl
  | cons e es ih =>
    obtain ⟨huses, hbinds, hes⟩ := hsafe
    have hstep : (∃ σ, Extends σ ρ ∧ ∀ e' ∈ e :: es, e'.Holds input data σ) ↔
        ∃ ρ' ∈ e.run input data ρ, ∃ σ, Extends σ ρ' ∧ ∀ e' ∈ es, e'.Holds input data σ := by
      simp only [List.forall_mem_cons, ← and_assoc, Expr.holds_iff hρ huses hbinds]
      constructor
      · rintro ⟨σ, ⟨ρ', hρ', hσ⟩, hrest⟩
        exact ⟨ρ', hρ', σ, hσ, hrest⟩
      · rintro ⟨ρ', hρ', σ, hσ, hrest⟩
        exact ⟨σ, ⟨ρ', hρ', hσ⟩, hrest⟩
    rw [hstep, Body.run, Ne, List.flatMap_eq_nil_iff]
    push Not
    exact exists_congr fun ρ' => and_congr_right fun hρ' => ih (hρ.run hρ') hes

/-- **A body holds exactly when there is a way through it.** -/
theorem Body.run_ne_nil_iff {body : Body} (hsafe : Body.Safe [] body) :
    Body.run input data body (fun _ => none) ≠ [] ↔ Body.Holds input data body := by
  have hnone : Binds (fun _ => none) [] := fun x => by simp
  rw [← Body.exists_run_iff hnone hsafe]
  exact exists_congr fun σ => and_iff_right fun x v hv => by cases hv

end agreement

/-! ## Definitions -/

/-- A boolean that is true by any of some bodies. -/
structure Definition where
  /-- What it is otherwise. -/
  default : Bool
  /-- The bodies. -/
  bodies : List Body
  /-- Every name is bound before it is used. -/
  safe : ∀ body ∈ bodies, Body.Safe [] body

/-- What a definition comes to. -/
def Definition.Decides (d : Definition) (input data : Value) (b : Bool) : Prop :=
  b = true ↔ d.default = true ∨ ∃ body ∈ d.bodies, Body.Holds input data body

/-- What a definition is evaluated to. -/
def Definition.decide (d : Definition) (input data : Value) : Bool :=
  d.default || d.bodies.any fun body => !(Body.run input data body fun _ => none).isEmpty

/-- **A definition comes to what it is evaluated to**, and to nothing else. -/
theorem Definition.decides_iff {d : Definition} {input data : Value} {b : Bool} :
    d.Decides input data b ↔ b = d.decide input data := by
  have hbodies : d.decide input data = true ↔
      d.default = true ∨ ∃ body ∈ d.bodies, Body.Holds input data body := by
    unfold Definition.decide
    rw [Bool.or_eq_true, List.any_eq_true]
    refine or_congr_right (exists_congr fun body => and_congr_right fun hmem => ?_)
    rw [← Body.run_ne_nil_iff (d.safe body hmem), Bool.not_eq_true', List.isEmpty_eq_false_iff]
  rw [Definition.Decides, ← hbodies]
  exact Bool.eq_iff_iff.symm

end Rego
