import AgentEval.Async.Calls
import AgentEval.Policy.Gate

/-!
# The strict gate fails closed

* `Verdict` — what the gate makes of the decisions it consulted, in their order; **`Verdict.mono`**,
  `Verdict.allowed`, `Verdict.denied`: the laws of the outcome.
* **`returns_evaluateToolCall`**: in strict mode, where what is thrown has a message, the gate never
  throws and its result is a verdict.
* **`gate_fails_closed`**: in any run of calls on one engine.
* **`gate_throws`**: a value without a message goes through the gate.
-/

namespace AgentEval.Policy

open Js Worker Async

/-! ## Verdicts -/

/-- The answer on which the gate restricts. -/
def PolicyEntrypoint.restrictive : PolicyEntrypoint → Bool
  | requireApproval => true
  | allowEgress => false
  | denyBudget => true
  | authzAllow => false

/-- What becomes of a call that a decision refuses. -/
def PolicyEntrypoint.refusal : PolicyEntrypoint → GateOutcome
  | requireApproval => .requireApproval
  | allowEgress => .deny
  | denyBudget => .terminateRun
  | authzAllow => .deny

/-- A refusal is at least a question to a person. -/
theorem one_le_severity_refusal (e : PolicyEntrypoint) : 1 ≤ e.refusal.severity := by
  cases e <;> simp [PolicyEntrypoint.refusal, GateOutcome.severity]

/-- A decision that was evaluated to the restrictive answer, or not at all. -/
structure Restricts (e : PolicyEntrypoint) (d : PolicyDecision) : Prop where
  /-- It is the decision asked for. -/
  entrypoint : d.entrypoint = e
  /-- What was evaluated is restrictive. -/
  value : d.evaluated = true → d.value = .bool e.restrictive

/-- A decision that was really evaluated to the permissive answer. -/
structure Permits (world : PolicyEntrypoint → Surroundings) (e : PolicyEntrypoint)
    (d : PolicyDecision) : Prop where
  /-- It is the decision asked for. -/
  entrypoint : d.entrypoint = e
  /-- It was evaluated. -/
  evaluated : d.evaluated = true
  /-- It is permissive. -/
  value : d.value = .bool (!e.restrictive)
  /-- The module gave that answer. -/
  answers : (world e).Answers (!e.restrictive)

/-- What the gate makes of decisions, asked in an order: the first that restricts is the last. -/
inductive Verdict (world : PolicyEntrypoint → Surroundings) (destructive : Bool) :
    List PolicyEntrypoint → List PolicyDecision → GateOutcome → Prop
  /-- The decision restricts. -/
  | stop {e d} (es : List PolicyEntrypoint) (h : Restricts e d) :
      Verdict world destructive (e :: es) [d] e.refusal
  /-- The decision permits, and the next one is asked for. -/
  | pass {e d es ds o} (h : Permits world e d) (hrest : Verdict world destructive es ds o) :
      Verdict world destructive (e :: es) (d :: ds) o
  /-- Nothing restricted. -/
  | clear (h : destructive = false) : Verdict world destructive [] [] .allow
  /-- Nothing restricted but the list of destructive actions. -/
  | listed (h : destructive = true) : Verdict world destructive [] [] .requireApproval

section

variable {world : PolicyEntrypoint → Surroundings} {e : PolicyEntrypoint} {d d' : PolicyDecision}
  {es fs : List PolicyEntrypoint} {ds ds' cs : List PolicyDecision} {o o' : GateOutcome}
  {destructive : Bool}

/-- A decision that was not made restricts. -/
theorem Restricts.of_not_evaluated (hentry : d.entrypoint = e) (h : d.evaluated = false) :
    Restricts e d := ⟨hentry, fun hd => absurd (hd.symm.trans h) Bool.noConfusion⟩

/-- Decisions that permit come before the others. -/
theorem Verdict.append (hpass : List.Forall₂ (Permits world) es ds)
    (h : Verdict world destructive fs cs o) :
    Verdict world destructive (es ++ fs) (ds ++ cs) o := by
  induction hpass with
  | nil => exact h
  | cons hd _ ih => exact .pass hd ih

/-- **A call is allowed only if every decision was made and permits.** -/
theorem Verdict.allowed (h : Verdict world destructive es ds .allow) :
    List.Forall₂ (Permits world) es ds := by
  generalize ho : GateOutcome.allow = o at h
  induction h with
  | @stop e d es hd =>
    have hone := one_le_severity_refusal e
    rw [← ho] at hone
    exact absurd hone (Nat.not_succ_le_zero 0)
  | pass hd _ ih => exact .cons hd (ih ho)
  | clear _ => exact .nil
  | listed _ => cases ho

/-- **A destination that is refused or not verified is denied.** -/
theorem Verdict.denied (h : Verdict world destructive es ds o) (hd : d ∈ ds)
    (hentry : d.entrypoint = .allowEgress)
    (hnot : ¬ (d.evaluated = true ∧ d.value = .bool true)) : o = .deny := by
  induction h with
  | @stop e _ _ hr =>
    rw [List.mem_singleton] at hd
    subst hd
    obtain rfl : e = .allowEgress := hr.entrypoint.symm.trans hentry
    rfl
  | @pass e _ _ _ _ hp _ ih =>
    rcases List.mem_cons.mp hd with rfl | hd
    · obtain rfl : e = .allowEgress := hp.entrypoint.symm.trans hentry
      exact absurd ⟨hp.evaluated, hp.value⟩ hnot
    · exact ih hd
  | clear _ => exact absurd hd List.not_mem_nil
  | listed _ => exact absurd hd List.not_mem_nil

/-- No outcome is more restrictive than the refusals that may come. -/
theorem Verdict.severity_le (h : Verdict world destructive es ds o) {n : ℕ} (hn : 1 ≤ n)
    (hes : ∀ e ∈ es, e.refusal.severity ≤ n) : o.severity ≤ n := by
  induction h with
  | stop _ _ => exact hes _ (List.mem_cons_self ..)
  | pass _ _ ih => exact ih fun e he => hes e (List.mem_cons_of_mem _ he)
  | clear _ => exact Nat.zero_le n
  | listed _ => exact hn

/-- A decision that is as another one was, or unavailable. -/
def NoBetter (d d' : PolicyDecision) : Prop :=
  d'.evaluated = true → d.evaluated = true ∧ d'.value = d.value

/-- **Making decisions unavailable never gives a less restrictive outcome**, where the refusals of
the later decisions are no more restrictive than those of the earlier. -/
theorem Verdict.mono {world' : PolicyEntrypoint → Surroundings}
    (h : Verdict world destructive es ds o) (h' : Verdict world' destructive es ds' o')
    (hsorted : es.Pairwise fun e f => f.refusal.severity ≤ e.refusal.severity)
    (hworse : ∀ (i : ℕ) d d', ds[i]? = some d → ds'[i]? = some d' → NoBetter d d') :
    o.severity ≤ o'.severity := by
  induction h generalizing ds' o' with
  | @stop e d es hr =>
    cases h' with
    | stop _ _ => exact le_rfl
    | pass hp _ =>
      obtain ⟨hevaluated, hvalue⟩ := hworse 0 _ _ rfl rfl hp.evaluated
      have hsame := hp.value.symm.trans (hvalue.trans (hr.value hevaluated))
      exact absurd (JsVal.bool.inj hsame) (Bool.not_ne_self _)
  | @pass e d es ds o hp hrest ih =>
    obtain ⟨hfirst, hlater⟩ := List.pairwise_cons.mp hsorted
    cases h' with
    | stop _ _ => exact hrest.severity_le (one_le_severity_refusal e) hfirst
    | pass _ hrest' => exact ih hrest' hlater fun i => hworse (i + 1)
  | clear hclear => exact Nat.zero_le _
  | listed hlisted =>
    cases h' with
    | clear hclear => exact absurd (hlisted.symm.trans hclear) Bool.noConfusion
    | listed _ => exact le_rfl

/-! ## The gate -/

variable {host : JsVal → Except JsError JsString} {ctx : ToolCallContext}

/-- The decisions that a call asks for, in their order. -/
def ToolCallContext.entrypoints (ctx : ToolCallContext) : List PolicyEntrypoint :=
  (if ctx.budgetTokens.isSome || ctx.maxCostUsd.isSome then [.denyBudget] else []) ++
    ((if ctx.domain.isSome then [.allowEgress] else []) ++ [.requireApproval])

/-- The earlier a decision, the more restrictive its refusal. -/
theorem pairwise_entrypoints (ctx : ToolCallContext) :
    ctx.entrypoints.Pairwise fun e f => f.refusal.severity ≤ e.refusal.severity := by
  have hall : [PolicyEntrypoint.denyBudget, .allowEgress, .requireApproval].Pairwise
      fun e f => f.refusal.severity ≤ e.refusal.severity := by
    simp [PolicyEntrypoint.refusal, GateOutcome.severity]
  apply List.Pairwise.sublist _ hall
  unfold ToolCallContext.entrypoints
  split_ifs
  · exact List.Sublist.refl _
  · exact .cons_cons _ (.cons _ (.cons_cons _ .slnil))
  · exact .cons _ (.cons_cons _ (.cons_cons _ .slnil))
  · exact .cons _ (.cons _ (.cons_cons _ .slnil))

/-- What a boolean answer is: permissive only if the module really gave it. -/
def Answered (world : PolicyEntrypoint → Surroundings) (e : PolicyEntrypoint)
    (answer : Bool × PolicyDecision) : Prop :=
  answer.1 = e.restrictive ∧ Restricts e answer.2 ∨
    answer.1 = (!e.restrictive) ∧ Permits world e answer.2

/-- A decision read as a boolean, with the restrictive default. -/
theorem answered_asBoolean (hentry : d.entrypoint = e)
    (hanswers : d.evaluated = true → ∀ b, d.value = .bool b → (world e).Answers b) :
    Answered world e (asBoolean e.restrictive d) := by
  unfold asBoolean
  cases hevaluated : d.evaluated with
  | false => exact .inl ⟨rfl, .of_not_evaluated hentry hevaluated⟩
  | true =>
    cases hvalue : d.value with
    | bool b =>
      by_cases hb : b = e.restrictive
      · subst hb
        exact .inl ⟨rfl, hentry, fun _ => hvalue⟩
      · have hb' : b = !e.restrictive := Bool.eq_not_of_ne hb
        subst hb'
        exact .inr ⟨rfl, hentry, hevaluated, hvalue, hanswers hevaluated _ hvalue⟩
    | _ => exact .inl ⟨rfl, .of_not_evaluated hentry rfl⟩

/-- **What is asked of the engine is answered.** -/
theorem returns_decideBoolean (h : ∀ e, (world e).Legible host) (input : JsVal) :
    (decideBoolean host world e input e.restrictive).run.Returns
      fun r => ∃ answer, r = .ok answer ∧ Answered world e answer := by
  unfold decideBoolean
  apply Task.Returns.await
  intro engine
  obtain ⟨decision, hdecision, hentry, hanswers⟩ :=
    @evaluate_ok host (world e) engine e input (h e)
  rw [hdecision]
  exact ⟨_, rfl, answered_asBoolean hentry hanswers⟩

/-- What a check comes to, after which the gate has gone through some of the decisions. -/
def Checked (world : PolicyEntrypoint → Surroundings) (destructive : Bool)
    (es : List PolicyEntrypoint) (r : Except GateResult (List PolicyDecision)) : Prop :=
  (∀ ds, r = .ok ds → List.Forall₂ (Permits world) es ds) ∧
    ∀ result, r = .error result →
      ∀ fs, Verdict world destructive (es ++ fs) result.decisions result.outcome

/-- The check goes on. -/
theorem Checked.ok (h : List.Forall₂ (Permits world) es ds) :
    Checked world destructive es (.ok ds) := by
  constructor
  · rintro cs ⟨⟩
    exact h
  · rintro result ⟨⟩

/-- The check refuses. -/
theorem Checked.error {result : GateResult} (h : List.Forall₂ (Permits world) es ds)
    (hd : Restricts e d) (hdecisions : result.decisions = ds ++ [d])
    (houtcome : result.outcome = e.refusal) :
    Checked world destructive (es ++ [e]) (.error result) := by
  constructor
  · rintro cs ⟨⟩
  · rintro r ⟨⟩ fs
    rw [hdecisions, houtcome, List.append_assoc]
    exact Verdict.append h (.stop _ hd)

/-- The budget. -/
theorem returns_checkBudget (h : ∀ e, (world e).Legible host) :
    (checkBudget host world ctx true).run.Returns fun r => ∃ c, r = .ok c ∧
      Checked world destructive
        (if ctx.budgetTokens.isSome || ctx.maxCostUsd.isSome then [.denyBudget] else []) c := by
  unfold checkBudget
  split_ifs with hlimited
  · apply Task.Returns.bindOk (returns_decideBoolean h _)
    rintro ⟨b, d⟩ (⟨rfl, hd⟩ | ⟨rfl, hd⟩)
    · exact ⟨_, rfl, Checked.error .nil hd rfl rfl⟩
    · exact ⟨_, rfl, Checked.ok (.cons hd .nil)⟩
  · exact ⟨_, rfl, Checked.ok .nil⟩

/-- The destination. -/
theorem returns_checkEgress (h : ∀ e, (world e).Legible host)
    (hpass : List.Forall₂ (Permits world) es ds) :
    (checkEgress host world ctx true ds).run.Returns fun r => ∃ c, r = .ok c ∧
      Checked world destructive (es ++ if ctx.domain.isSome then [.allowEgress] else []) c := by
  unfold checkEgress
  cases ctx.domain with
  | none =>
    refine ⟨_, rfl, Checked.ok ?_⟩
    exact (List.append_nil es).symm ▸ hpass
  | some domain =>
    apply Task.Returns.bindOk (returns_decideBoolean h _)
    rintro ⟨b, d⟩ (⟨rfl, hd⟩ | ⟨rfl, hd⟩)
    · exact ⟨_, rfl, Checked.error hpass hd rfl rfl⟩
    · exact ⟨_, rfl, Checked.ok (List.rel_append hpass (.cons hd .nil))⟩

/-- The approval. -/
theorem returns_checkApproval (h : ∀ e, (world e).Legible host)
    (hpass : List.Forall₂ (Permits world) es ds) :
    (checkApproval host world ctx true ds).run.Returns fun r => ∃ result, r = .ok result ∧
      Verdict world ctx.locallyDestructive (es ++ [.requireApproval]) result.decisions
        result.outcome := by
  unfold checkApproval
  apply Task.Returns.bindOk (returns_decideBoolean h _)
  rintro ⟨b, d⟩ (⟨rfl, hd⟩ | ⟨rfl, hd⟩)
  · refine ⟨_, rfl, ?_⟩
    exact Verdict.append hpass (.stop [] hd)
  · refine ⟨_, rfl, ?_⟩
    unfold approvalResult
    cases hlisted : ctx.locallyDestructive
    · exact Verdict.append hpass (.pass hd (.clear rfl))
    · exact Verdict.append hpass (.pass hd (.listed rfl))

/-- **The strict gate returns a verdict**, where what is thrown has a message. -/
theorem returns_evaluateToolCall (h : ∀ e, (world e).Legible host) {strict : Option Bool}
    (hstrict : strict ≠ some false) :
    (evaluateToolCall host world ctx strict).run.Returns fun r => ∃ result, r = .ok result ∧
      Verdict world ctx.locallyDestructive ctx.entrypoints result.decisions result.outcome := by
  have hmode : strict.getD true = true := by
    cases strict with
    | none => rfl
    | some b => exact Bool.eq_true_of_not_eq_false fun hb => hstrict (congrArg some hb)
  unfold evaluateToolCall ToolCallContext.entrypoints
  rw [hmode]
  apply Task.Returns.bindOk (returns_checkBudget h)
  intro c hc
  cases c with
  | error result => exact ⟨result, rfl, hc.2 result rfl _⟩
  | ok ds =>
    apply Task.Returns.bindOk (returns_checkEgress h (hc.1 ds rfl))
    intro c' hc'
    cases c' with
    | error result =>
      refine ⟨result, rfl, ?_⟩
      rw [← List.append_assoc]
      exact hc'.2 result rfl _
    | ok ds' =>
      rw [← List.append_assoc]
      exact returns_checkApproval h (hc'.1 ds' rfl)

/-- A call waits three times at most. -/
theorem within_evaluateToolCall (strict : Option Bool) :
    (evaluateToolCall host world ctx strict).run.Within 3 := by
  have hdecide : ∀ {e input b}, (decideBoolean host world e input b).run.Within 1 :=
    Task.Within.await fun _ => trivial
  have hbudget : (checkBudget host world ctx (strict.getD true)).run.Within 1 := by
    unfold checkBudget
    split_ifs
    · apply Task.Within.bindExcept hdecide
      intro answer
      split_ifs <;> trivial
    · trivial
  have hegress : ∀ ds, (checkEgress host world ctx (strict.getD true) ds).run.Within 1 := by
    intro ds
    unfold checkEgress
    cases ctx.domain with
    | none => trivial
    | some domain =>
      apply Task.Within.bindExcept hdecide
      intro answer
      split_ifs <;> trivial
  have happroval : ∀ ds, (checkApproval host world ctx (strict.getD true) ds).run.Within 1 := by
    intro ds
    unfold checkApproval
    exact Task.Within.bindExcept hdecide fun _ => trivial
  unfold evaluateToolCall
  refine Task.Within.bindExcept (n := 2) hbudget fun c => ?_
  cases c with
  | error result => trivial
  | ok ds =>
    refine Task.Within.bindExcept (n := 1) (hegress ds) fun c' => ?_
    cases c' with
    | error result => trivial
    | ok ds' => exact happroval ds'

end

/-! ## Runs of calls -/

/-- What happens to an engine. -/
inductive GateEvent where
  /-- A tool call arrives. -/
  | call (ctx : ToolCallContext) (world : PolicyEntrypoint → Surroundings) (strict : Option Bool)
  /-- A call goes on. -/
  | resume (i : ℕ)
  /-- Someone else has the engine load its bundle. -/
  | load (world : Surroundings)

/-- The events as those of a pool. -/
def GateEvent.toAsync (host : JsVal → Except JsError JsString) :
    GateEvent → Event PolicyEngine PolicyEntrypoint (Except JsError GateResult)
  | call ctx world strict => .spawn (evaluateToolCall host world ctx strict).run
  | resume i => .resume i
  | load world => .other fun engine => (engine.load host world).2

/-- What is thrown during the call has a message. -/
def GateEvent.Legible (host : JsVal → Except JsError JsString) : GateEvent → Prop
  | call _ world _ => ∀ e, (world e).Legible host
  | resume _ => True
  | load _ => True

/-- The calls on a new engine after a run. -/
def gatePool (host : JsVal → Except JsError JsString) (bundlePath : JsString)
    (events : List GateEvent) : Pool PolicyEngine PolicyEntrypoint (Except JsError GateResult) :=
  Pool.runBy (GateEvent.toAsync host) ⟨.start bundlePath, []⟩ events

/-- A strict call of a run, and what it has come to. -/
structure Came (host : JsVal → Except JsError JsString) (bundlePath : JsString)
    (events : List GateEvent) (i : ℕ) (ctx : ToolCallContext)
    (world : PolicyEntrypoint → Surroundings) (r : Except JsError GateResult) : Prop where
  /-- The call. -/
  call : ∃ strict, strict ≠ some false ∧
    (calls (GateEvent.toAsync host) events)[i]? = some (.call ctx world strict)
  /-- It has returned, or thrown. -/
  done : (gatePool host bundlePath events).tasks[i]? = some (.done r)

/-- What a call may return. -/
def GateEvent.Returns (host : JsVal → Except JsError JsString) (e : GateEvent)
    (r : Except JsError GateResult) : Prop :=
  ∀ ctx world strict, e = .call ctx world strict → strict ≠ some false → e.Legible host →
    ∃ result, r = .ok result ∧
      Verdict world ctx.locallyDestructive ctx.entrypoints result.decisions result.outcome

/-- Every call returns that. -/
theorem returns_spawn {host : JsVal → Except JsError JsString} (e : GateEvent)
    (t : Task PolicyEngine PolicyEntrypoint (Except JsError GateResult))
    (ht : e.toAsync host = .spawn t) : t.Returns (e.Returns host) := by
  cases e with
  | resume j => cases ht
  | load world => cases ht
  | call ctx world strict =>
    obtain rfl := Event.spawn.inj ht
    have hreturns : (evaluateToolCall host world ctx strict).run.Returns fun r =>
        (strict ≠ some false ∧ ∀ e, (world e).Legible host) → ∃ result, r = .ok result ∧
          Verdict world ctx.locallyDestructive ctx.entrypoints result.decisions result.outcome :=
      Task.Returns.of_imp fun h => returns_evaluateToolCall h.2 h.1
    refine hreturns.mono fun r hr => ?_
    rintro _ _ _ ⟨⟩ hstrict hlegible
    exact hr ⟨hstrict, hlegible⟩

section runs

variable {host : JsVal → Except JsError JsString} {bundlePath : JsString}
  {events events' : List GateEvent} {i : ℕ} {ctx : ToolCallContext}
  {world : PolicyEntrypoint → Surroundings} {r : Except JsError GateResult}

/-- **What a strict call comes to** is a verdict. -/
theorem Came.verdict (h : ∀ e ∈ events, e.Legible host)
    (hcame : Came host bundlePath events i ctx world r) : ∃ result, r = .ok result ∧
      Verdict world ctx.locallyDestructive ctx.entrypoints result.decisions result.outcome := by
  obtain ⟨⟨strict, hstrict, hcall⟩, hdone⟩ := hcame
  have hlegible := h _ (mem_of_mem_calls (List.mem_of_getElem? hcall))
  exact Pool.returns_runBy returns_spawn hdone hcall ctx world strict rfl hstrict hlegible

end runs

/-- **The strict gate fails closed**, in every run of calls on one engine during which what is thrown
has a message. A strict call never throws and returns when it is resumed three times; it is allowed
only if every decision was really evaluated to the permissive boolean; a destination that was
refused, or not verified, is denied; and a call with the same context, in this run or another, whose
decisions are the same or unavailable has an outcome that is no less restrictive. -/
theorem gate_fails_closed (host : JsVal → Except JsError JsString) (bundlePath : JsString)
    (events events' : List GateEvent) (h : ∀ e ∈ events, e.Legible host)
    (h' : ∀ e ∈ events', e.Legible host) :
    (∀ (past later : List GateEvent) (i : ℕ), events = past ++ later →
        i < (calls (GateEvent.toAsync host) past).length →
        3 ≤ (later.countP fun e => (e.toAsync host).resumes i) →
        ∃ r, (gatePool host bundlePath events).tasks[i]? = some (.done r)) ∧
      ∀ i ctx world r, Came host bundlePath events i ctx world r → ∃ result, r = .ok result ∧
        (result.outcome = .allow →
          List.Forall₂ (Permits world) ctx.entrypoints result.decisions) ∧
        (∀ d ∈ result.decisions, d.entrypoint = .allowEgress →
          ¬ (d.evaluated = true ∧ d.value = .bool true) → result.outcome = .deny) ∧
        ∀ i' world' result', Came host bundlePath events' i' ctx world' (.ok result') →
          (∀ (k : ℕ) d d', result.decisions[k]? = some d → result'.decisions[k]? = some d' →
            NoBetter d d') →
          result.outcome.severity ≤ result'.outcome.severity := by
  constructor
  · intro past later i hevents hi hcount
    have hwithin : (gatePool host bundlePath past).Within i 3 := by
      refine Pool.within_runBy (fun e t ht => ?_) hi
      cases e with
      | call ctx world strict =>
        obtain rfl := Event.spawn.inj ht
        exact within_evaluateToolCall strict
      | resume j => cases ht
      | load world => cases ht
    have hrun : gatePool host bundlePath events =
        (gatePool host bundlePath past).runBy (GateEvent.toAsync host) later := by
      unfold gatePool Pool.runBy
      rw [hevents, List.foldl_append]
    rw [hrun]
    exact Pool.exists_done_runBy hwithin hcount
  · intro i ctx world r hcame
    obtain ⟨result, rfl, hverdict⟩ := hcame.verdict h
    refine ⟨result, rfl, ?_, ?_, ?_⟩
    · intro hallow
      rw [hallow] at hverdict
      exact hverdict.allowed
    · intro d hd hentry hnot
      exact hverdict.denied hd hentry hnot
    · intro i' world' result' hcame' hworse
      obtain ⟨_, heq, hverdict'⟩ := hcame'.verdict h'
      obtain rfl := Except.ok.inj heq
      exact hverdict.mono hverdict' (pairwise_entrypoints ctx) hworse

/-- Reading a file. -/
def readCall : ToolCallContext where
  runId := js "run_1"
  taskId := js "task_1"
  stepId := .ofNat 1
  tool := js "fs"
  action := js "read"
  domain := none
  tokensUsed := .ofNat 0
  costIncurredUsd := .ofNat 0
  budgetTokens := none
  maxCostUsd := none
  callCostUsd := none

/-- A bundle that loads, and what its evaluation comes to. -/
def evaluatesTo (results : Except Thrown JsVal) : Surroundings where
  readFile := .ok []
  instantiate := .ok ()
  evaluate _ := results
  started := ⟨0, TimeValue.zero_inRange⟩
  finished := ⟨0, TimeValue.zero_inRange⟩

/-- No approval is needed. -/
def noApproval : Surroundings :=
  evaluatesTo (.ok (.arr [.obj [(js "result", .bool false)]]))

/-- How values read as text where that is not looked into. -/
def someText (_ : JsVal) : Except JsError JsString := .ok (js "[object Object]")

/-- One call, and what the world does during it. -/
def oneToolCall (world : Surroundings) : List GateEvent :=
  [.call readCall (fun _ => world) none, .resume 0]

/-- The call is a strict one. -/
theorem call_oneToolCall (world : Surroundings) : ∃ strict, strict ≠ some false ∧
    (calls (GateEvent.toAsync someText) (oneToolCall world))[0]? =
      some (.call readCall (fun _ => world) strict) := by
  refine ⟨none, ?_, rfl⟩
  intro h
  cases h

/-- A call that is allowed. -/
theorem gate_fails_closed_read : ∃ result,
    Came someText (js "policy.wasm") (oneToolCall noApproval) 0 readCall (fun _ => noApproval)
      (.ok result) ∧
    List.Forall₂ (Permits fun _ => noApproval) readCall.entrypoints result.decisions := by
  obtain ⟨result, hdone, hallow⟩ : ∃ result,
      (gatePool someText (js "policy.wasm") (oneToolCall noApproval)).tasks[0]? =
        some (.done (.ok result)) ∧ result.outcome = .allow := ⟨_, rfl, rfl⟩
  have hcame : Came someText (js "policy.wasm") (oneToolCall noApproval) 0 readCall
      (fun _ => noApproval) (.ok result) := ⟨call_oneToolCall noApproval, hdone⟩
  have hlegible : ∀ e ∈ oneToolCall noApproval, e.Legible someText := by
    have hworld : noApproval.Legible someText := by
      refine ⟨?_, ?_, ?_⟩
      · rintro thrown ⟨⟩
      · rintro thrown ⟨⟩
      · rintro input thrown ⟨⟩
    exact List.forall_mem_cons.mpr ⟨fun _ => hworld, List.forall_mem_singleton.mpr trivial⟩
  obtain ⟨_, heq, hpermits, -⟩ := (gate_fails_closed someText (js "policy.wasm") _ [] hlegible
    (List.forall_mem_nil _)).2 0 readCall _ _ hcame
  obtain rfl := Except.ok.inj heq
  exact ⟨result, hcame, hpermits hallow⟩

/-- **The gate throws** when an evaluation throws `null`. -/
theorem gate_throws : Came someText (js "policy.wasm")
    (oneToolCall (evaluatesTo (.error (.value .null)))) 0 readCall
    (fun _ => evaluatesTo (.error (.value .null)))
    (.error (cannotRead (js "null") (js "message"))) :=
  ⟨call_oneToolCall _, rfl⟩

end AgentEval.Policy
