import AgentEval.Async.Kept
import AgentEval.Policy.FailsClosed
import AgentEval.Policy.Sources

/-!
# The gate with the policies of the repository

The bundle is compiled from the sources: what it answers on an input is what the definition of the
entrypoint comes to on the document that it has received. That is all that is taken of it.

* `ToolCallContext.answer` — what the policies say of a call; `enforced` — what becomes of it.
* **`gate_enforces`**: every call of any run of calls on one engine comes to that, whatever its mode,
  and every decision consulted says so.
-/

namespace AgentEval.Policy

open Js Worker Async Rego

/-! ## What the gate enforces -/

/-- What an entrypoint says of a call. -/
def ToolCallContext.answer (ctx : ToolCallContext) (data : Value) : PolicyEntrypoint → Bool
  | .denyBudget => exceeds ctx.tokensUsed (ctx.budgetTokens.getD maxSafeInteger) ||
      exceeds ctx.projectedCost (ctx.maxCostUsd.getD maxSafeInteger)
  | .allowEgress => ctx.domain.any fun domain =>
      decide (.str (textOf domain) ∈ allowlist data ctx.taskId) ||
        decide (domain = js "telemetry.internal")
  | .requireApproval => decide (ctx.action ∈ [js "delete", js "write_prod", js "drop_db"]) ||
      (aboveThreshold data (ctx.callCostUsd.getD (.ofNat 0)) ||
        decide (ctx.tool ∈ [js "shell", js "aws_cli", js "kubernetes_admin"]))
  | .authzAllow => false

/-- The policies restrict a call. -/
def ToolCallContext.restricted (ctx : ToolCallContext) (data : Value) (e : PolicyEntrypoint) : Bool :=
  decide (ctx.answer data e = e.restrictive)

/-- The policies let a call pass. -/
theorem restricted_eq_false {ctx : ToolCallContext} {data : Value} {e : PolicyEntrypoint}
    (h : ctx.answer data e = !e.restrictive) : ctx.restricted data e = false := by
  unfold ToolCallContext.restricted
  rw [h]
  cases e.restrictive <;> rfl

/-- What becomes of a call: the first of its decisions that restricts it says so, and then the list of
destructive actions. -/
def enforced (data : Value) (ctx : ToolCallContext) : GateOutcome :=
  match ctx.entrypoints.find? (ctx.restricted data) with
  | some e => e.refusal
  | none => if ctx.locallyDestructive then .requireApproval else .allow

/-! ## A bundle that is compiled from the sources -/

/-- The bundle can be read and instantiated, and at an entrypoint it answers what the definition comes
to on the document that it has received. -/
structure Surroundings.Enforces (wasm : Bytes) (data : Value) (e : PolicyEntrypoint)
    (world : Surroundings) : Prop where
  /-- The bundle can be read. -/
  readFile : world.readFile = .ok wasm
  /-- It can be instantiated. -/
  instantiate : world.instantiate = .ok ()
  /-- It answers by its source. -/
  evaluate : ∀ input w, received input = some w → Readable w → ∃ b,
    world.evaluate input = .ok (.arr [.obj [(js "result", .bool b)]]) ∧
      (source e).Decides (documentOf w) data b

/-- The texts that the policies see. -/
structure ToolCallContext.Readable (ctx : ToolCallContext) : Prop where
  runId : WellFormed ctx.runId
  taskId : WellFormed ctx.taskId
  tool : WellFormed ctx.tool
  action : WellFormed ctx.action
  domain : ∀ domain ∈ ctx.domain, WellFormed domain

/-- The digest of a bundle, as decisions have it. -/
def digestOf (wasm : Bytes) : JsString := js "sha256:" ++ toHex (Sha256.sha256 wasm).bytes

/-- The engine has not failed, and what it has loaded is the bundle. -/
structure PolicyEngine.Sound (wasm : Bytes) (engine : PolicyEngine) : Prop where
  /-- No load has failed. -/
  loadFailure : engine.loadFailure = none
  /-- What was loaded. -/
  digest : engine.policy = true → engine.digest = digestOf wasm

/-- A decision that was really made, by the bundle. -/
structure Made (wasm : Bytes) (data : Value) (ctx : ToolCallContext) (e : PolicyEntrypoint)
    (d : PolicyDecision) : Prop where
  /-- It is the decision asked for. -/
  entrypoint : d.entrypoint = e
  /-- It was made. -/
  evaluated : d.evaluated = true
  /-- It says what the entrypoint says. -/
  value : d.value = .bool (ctx.answer data e)
  /-- By the bundle. -/
  bundleDigest : d.bundleDigest = digestOf wasm

section

variable {host : JsVal → Except JsError JsString} {world : Surroundings} {wasm : Bytes}
  {data : Value} {engine : PolicyEngine} {e : PolicyEntrypoint}

/-- **Loading** leaves an engine that has loaded the bundle. -/
theorem PolicyEngine.Sound.load (h : engine.Sound wasm) (hread : world.readFile = .ok wasm)
    (hinstantiate : world.instantiate = .ok ()) : (engine.load host world).1 = .ok () ∧
      (engine.load host world).2.policy = true ∧ (engine.load host world).2.Sound wasm := by
  unfold PolicyEngine.load
  rw [h.loadFailure]
  split_ifs with hloaded
  · have hpolicy : engine.policy = true := hloaded.resolve_right Bool.false_ne_true
    exact ⟨rfl, hpolicy, h⟩
  · rw [hread, hinstantiate]
    exact ⟨rfl, rfl, rfl, fun _ => rfl⟩

/-- **An entrypoint is evaluated** to what its source comes to. -/
theorem PolicyEngine.Sound.evaluate (h : engine.Sound wasm) (hworld : world.Enforces wasm data e)
    {input w : JsVal} (hinput : received input = some w) (hw : Readable w) :
    ∃ decision, PolicyEngine.evaluate host world e input engine =
        (.ok decision, (engine.load host world).2) ∧ decision.entrypoint = e ∧
      decision.evaluated = true ∧
      decision.value = .bool ((source e).decide (documentOf w) data) ∧
      decision.bundleDigest = digestOf wasm := by
  obtain ⟨hok, hpolicy, hsound⟩ : (engine.load host world).1 = .ok () ∧ _ :=
    h.load hworld.readFile hworld.instantiate
  obtain ⟨b, hb, hdecides⟩ := hworld.evaluate input w hinput hw
  rw [Definition.decides_iff] at hdecides
  subst hdecides
  unfold PolicyEngine.evaluate
  cases hload : engine.load host world with
  | mk r loaded =>
    rw [hload] at hok hpolicy hsound
    dsimp only at hok hpolicy hsound
    subst hok
    dsimp only
    unfold PolicyEngine.decide
    rw [hpolicy, hb]
    exact ⟨_, rfl, rfl, rfl, rfl, hsound.digest hpolicy⟩

end

/-! ## What the gate asks -/

/-- The properties of an input are texts and numbers. -/
def Flat (ps : Props) : Prop :=
  ∀ p ∈ ps, WellFormed p.1 ∧ ((∃ s, p.2 = .str s ∧ WellFormed s) ∨ ∃ x, p.2 = .num x)

/-- A text or a number is received as it is. -/
theorem documentOf_lossy {v : JsVal} (h : (∃ s, v = .str s ∧ WellFormed s) ∨ ∃ x, v = .num x) :
    documentOf v.lossy = documentOf v := by
  obtain ⟨s, rfl, -⟩ | ⟨x, rfl⟩ := h
  · rfl
  · cases x with
    | negZero =>
      change numberOf (.ofNat 0) = .num 0
      rw [Number.ofNat_zero, numberOf, decimal_zero]
    | _ => rfl

/-- **What is received of such an input.** -/
theorem received_flat {ps : Props} (hps : DistinctKeys ps) (h : Flat ps) :
    ∃ w, received (.obj ps) = some w ∧ Readable w ∧
      ∀ k v, (js k, v) ∈ ps → (documentOf w).get (.str k) = some (documentOf v) := by
  have hdata : JsVal.IsData (.obj ps) := by
    refine JsVal.isData_obj.mpr ⟨hps, fun p hp => ?_⟩
    obtain ⟨-, ⟨s, hs, -⟩ | ⟨x, hx⟩⟩ := h p hp
    · rw [hs]
      trivial
    · rw [hx]
      trivial
  have hkeys : ∀ p ∈ ps.map (fun p => (p.1, p.2.lossy)), WellFormed p.1 :=
    List.forall_mem_map.mpr fun p hp => (h p hp).1
  refine ⟨_, received_data hdata, ?_, fun k v hmem => ?_⟩
  · rw [JsVal.lossy_obj]
    refine JsVal.all_obj.mpr ⟨hkeys, List.forall_mem_map.mpr fun p hp => ?_⟩
    obtain ⟨-, ⟨s, hs, hwell⟩ | ⟨x, hx⟩⟩ := h p hp
    · rw [hs]
      exact hwell
    · rw [hx]
      cases x <;> trivial
  · rw [JsVal.lossy_obj, ← documentOf_lossy (h _ hmem).2]
    have hget := get_documentOf ((JsVal.distinctKeys_map JsVal.lossy).mpr hps) hkeys
      (List.mem_map.mpr ⟨(js k, v), hmem, rfl⟩)
    rwa [textOf_js] at hget

section gate

variable {host : JsVal → Except JsError JsString} {world : PolicyEntrypoint → Surroundings}
  {wasm : Bytes} {data : Value} {ctx : ToolCallContext} {strict : Bool}

/-- **What is asked of the engine is answered** by the policies, whatever the default. -/
theorem keeps_decideBoolean (ctx : ToolCallContext) {e : PolicyEntrypoint}
    (hworld : (world e).Enforces wasm data e)
    {ps : Props} (hps : DistinctKeys ps) (hflat : Flat ps) {safeDefault : Bool}
    (hanswer : ∀ input : Value, (∀ k v, (js k, v) ∈ ps → input.get (.str k) = some (documentOf v)) →
      (source e).decide input data = ctx.answer data e) :
    (decideBoolean host world e (.obj ps) safeDefault).run.Keeps (PolicyEngine.Sound wasm)
      fun r => ∃ answer, r = .ok answer ∧ answer.1 = ctx.answer data e ∧
        Made wasm data ctx e answer.2 := by
  obtain ⟨w, hw, hreadable, hget⟩ := received_flat hps hflat
  unfold decideBoolean
  have hawait : (Task.await e (PolicyEngine.evaluate host (world e) e (.obj ps)) :
      Task PolicyEngine PolicyEntrypoint _).Keeps (PolicyEngine.Sound wasm)
      fun r => ∃ d, r = .ok d ∧ Made wasm data ctx e d := by
    refine Task.Keeps.await fun engine hsound => ?_
    obtain ⟨d, hd, hentry, hevaluated, hvalue, hdigest⟩ := hsound.evaluate hworld hw hreadable
    rw [hd]
    refine ⟨(hsound.load hworld.readFile hworld.instantiate).2.2, d, rfl, hentry, hevaluated, ?_,
      hdigest⟩
    rw [hvalue, hanswer _ hget]
  refine Task.Keeps.bind hawait ?_
  rintro _ ⟨d, rfl, hmade⟩
  refine ⟨_, rfl, ?_⟩
  unfold asBoolean
  rw [hmade.evaluated, hmade.value]
  exact ⟨rfl, hmade⟩

/-- Nothing that the gate does harms the engine. -/
theorem each_evaluateToolCall (hworld : ∀ e, (world e).Enforces wasm data e) (strict : Option Bool) :
    (evaluateToolCall host world ctx strict).run.Each (PolicyEngine.Sound wasm)
      fun _ _ engine => engine.Sound wasm := by
  have hdecide : ∀ {e input b}, (decideBoolean host world e input b).run.Each
      (PolicyEngine.Sound wasm) fun _ _ engine => engine.Sound wasm := by
    intro e input b
    refine Task.Each.await fun engine hsound => ⟨?_, trivial⟩
    have hload : (engine.load host (world e)).1 = .ok () ∧ _ :=
      hsound.load (hworld e).readFile (hworld e).instantiate
    unfold PolicyEngine.evaluate
    cases hload' : engine.load host (world e) with
    | mk r loaded =>
      rw [hload'] at hload
      cases r with
      | error thrown => exact hload.2.2
      | ok => exact hload.2.2
  unfold evaluateToolCall
  refine Task.Each.bindExcept ?_ fun c => ?_
  · unfold checkBudget
    split_ifs
    · refine Task.Each.bindExcept hdecide fun answer => ?_
      split_ifs <;> exact trivial
    · exact trivial
  cases c with
  | error result => exact trivial
  | ok ds =>
    refine Task.Each.bindExcept ?_ fun c' => ?_
    · unfold checkEgress
      cases ctx.domain with
      | none => exact trivial
      | some domain =>
        refine Task.Each.bindExcept hdecide fun answer => ?_
        split_ifs <;> exact trivial
    cases c' with
    | error result => exact trivial
    | ok ds' =>
      unfold checkApproval
      exact Task.Each.bindExcept hdecide fun _ => trivial

/-- What a check comes to, after which some of the decisions were consulted. -/
def Consulted (wasm : Bytes) (data : Value) (ctx : ToolCallContext) (es : List PolicyEntrypoint) :
    Except GateResult (List PolicyDecision) → Prop
  | .ok ds => List.Forall₂ (Made wasm data ctx) es ds ∧ es.find? (ctx.restricted data) = none
  | .error result => List.Forall₂ (Made wasm data ctx) es result.decisions ∧
      ∃ e, es.find? (ctx.restricted data) = some e ∧ result.outcome = e.refusal

section

variable {es : List PolicyEntrypoint} {ds : List PolicyDecision} {e : PolicyEntrypoint}
  {d : PolicyDecision}

/-- One more decision that restricts the call. -/
theorem Consulted.stop (h : Consulted wasm data ctx es (.ok ds)) (hmade : Made wasm data ctx e d)
    (he : ctx.restricted data e = true) {result : GateResult}
    (hdecisions : result.decisions = ds ++ [d]) (houtcome : result.outcome = e.refusal) :
    Consulted wasm data ctx (es ++ [e]) (.error result) := by
  refine ⟨hdecisions ▸ List.rel_append h.1 (.cons hmade .nil), e, ?_, houtcome⟩
  rw [List.find?_append, h.2, Option.none_or, List.find?_singleton, if_pos he]

/-- One more decision that does not. -/
theorem Consulted.pass (h : Consulted wasm data ctx es (.ok ds)) (hmade : Made wasm data ctx e d)
    (he : ctx.restricted data e = false) :
    Consulted wasm data ctx (es ++ [e]) (.ok (ds ++ [d])) := by
  refine ⟨List.rel_append h.1 (.cons hmade .nil), ?_⟩
  rw [List.find?_append, h.2, Option.none_or, List.find?_singleton, he]
  rfl

end

/-- The budget. -/
theorem keeps_checkBudget (hworld : (world .denyBudget).Enforces wasm data .denyBudget) :
    (checkBudget host world ctx strict).run.Keeps (PolicyEngine.Sound wasm) fun r => ∃ c, r = .ok c ∧
      Consulted wasm data ctx
        (if ctx.budgetTokens.isSome || ctx.maxCostUsd.isSome then [.denyBudget] else []) c := by
  unfold checkBudget
  split_ifs with hlimited
  · refine Task.Keeps.bindOk (keeps_decideBoolean ctx hworld ?_ ?_ fun input hget => ?_) ?_
    · change [js "tokens_used", js "budget_limit", js "cost_incurred", js "max_cost"].Nodup
      simp
    · simp only [Flat, List.forall_mem_cons]
      exact ⟨⟨wellFormed_js _, .inr ⟨_, rfl⟩⟩, ⟨wellFormed_js _, .inr ⟨_, rfl⟩⟩,
        ⟨wellFormed_js _, .inr ⟨_, rfl⟩⟩, ⟨wellFormed_js _, .inr ⟨_, rfl⟩⟩, List.forall_mem_nil _⟩
    · exact decide_denyBudget (hget "tokens_used" (.num ctx.tokensUsed) (by simp))
        (hget "budget_limit" (.num (ctx.budgetTokens.getD maxSafeInteger)) (by simp))
        (hget "cost_incurred" (.num ctx.projectedCost) (by simp))
        (hget "max_cost" (.num (ctx.maxCostUsd.getD maxSafeInteger)) (by simp))
    · rintro ⟨b, d⟩ ⟨rfl, hmade⟩
      have hstart : Consulted wasm data ctx [] (.ok []) := ⟨.nil, rfl⟩
      cases hanswer : ctx.answer data .denyBudget with
      | true => exact ⟨_, rfl, hstart.stop hmade (decide_eq_true hanswer) rfl rfl⟩
      | false => exact ⟨_, rfl, hstart.pass hmade (restricted_eq_false hanswer)⟩
  · exact ⟨_, rfl, .nil, rfl⟩

/-- The destination. -/
theorem keeps_checkEgress (hworld : (world .allowEgress).Enforces wasm data .allowEgress)
    (hctx : ctx.Readable) {es : List PolicyEntrypoint} {ds : List PolicyDecision}
    (h : Consulted wasm data ctx es (.ok ds)) :
    (checkEgress host world ctx strict ds).run.Keeps (PolicyEngine.Sound wasm) fun r =>
      ∃ c, r = .ok c ∧
        Consulted wasm data ctx (es ++ if ctx.domain.isSome then [.allowEgress] else []) c := by
  unfold checkEgress
  cases hdomain : ctx.domain with
  | none => exact ⟨_, rfl, (List.append_nil es).symm ▸ h⟩
  | some domain =>
    refine Task.Keeps.bindOk (keeps_decideBoolean ctx hworld ?_ ?_ fun input hget => ?_) ?_
    · change [js "task_id", js "domain", js "tool"].Nodup
      simp
    · simp only [Flat, List.forall_mem_cons]
      exact ⟨⟨wellFormed_js _, .inl ⟨_, rfl, hctx.taskId⟩⟩,
        ⟨wellFormed_js _, .inl ⟨_, rfl, hctx.domain domain hdomain⟩⟩,
        ⟨wellFormed_js _, .inl ⟨_, rfl, hctx.tool⟩⟩, List.forall_mem_nil _⟩
    · rw [ToolCallContext.answer, hdomain, Option.any_some]
      exact decide_allowEgress (hctx.domain domain hdomain) (hget "domain" (.str domain) (by simp))
        (hget "task_id" (.str ctx.taskId) (by simp))
    · rintro ⟨b, d⟩ ⟨rfl, hmade⟩
      cases hanswer : ctx.answer data .allowEgress with
      | true => exact ⟨_, rfl, h.pass hmade (restricted_eq_false hanswer)⟩
      | false => exact ⟨_, rfl, h.stop hmade (decide_eq_true hanswer) rfl rfl⟩

/-- What a call has come to. -/
structure Told (wasm : Bytes) (data : Value) (ctx : ToolCallContext) (result : GateResult) : Prop where
  /-- The outcome. -/
  outcome : result.outcome = enforced data ctx
  /-- The decisions consulted, in their order. -/
  decisions : ∃ es, es <+: ctx.entrypoints ∧
    List.Forall₂ (Made wasm data ctx) es result.decisions

/-- A refusal is what becomes of the call. -/
theorem Told.of_error {es fs : List PolicyEntrypoint} {result : GateResult}
    (h : Consulted wasm data ctx es (.error result)) (hes : es ++ fs = ctx.entrypoints) :
    Told wasm data ctx result := by
  obtain ⟨hmade, e, hfind, houtcome⟩ := h
  refine ⟨?_, es, ⟨fs, hes⟩, hmade⟩
  rw [enforced, ← hes, List.find?_append, hfind, Option.some_or]
  exact houtcome

/-- The approval. -/
theorem keeps_checkApproval (hworld : (world .requireApproval).Enforces wasm data .requireApproval)
    (hctx : ctx.Readable) {es : List PolicyEntrypoint} {ds : List PolicyDecision}
    (h : Consulted wasm data ctx es (.ok ds)) (hes : es ++ [.requireApproval] = ctx.entrypoints) :
    (checkApproval host world ctx strict ds).run.Keeps (PolicyEngine.Sound wasm) fun r =>
      ∃ result, r = .ok result ∧ Told wasm data ctx result := by
  unfold checkApproval
  refine Task.Keeps.bindOk (keeps_decideBoolean ctx hworld ?_ ?_ fun input hget => ?_) ?_
  · change [js "action", js "tool", js "cost", js "run_id", js "task_id"].Nodup
    simp
  · simp only [Flat, List.forall_mem_cons]
    exact ⟨⟨wellFormed_js _, .inl ⟨_, rfl, hctx.action⟩⟩, ⟨wellFormed_js _, .inl ⟨_, rfl, hctx.tool⟩⟩,
      ⟨wellFormed_js _, .inr ⟨_, rfl⟩⟩, ⟨wellFormed_js _, .inl ⟨_, rfl, hctx.runId⟩⟩,
      ⟨wellFormed_js _, .inl ⟨_, rfl, hctx.taskId⟩⟩, List.forall_mem_nil _⟩
  · exact decide_requireApproval hctx.action hctx.tool (hget "action" (.str ctx.action) (by simp))
      (hget "tool" (.str ctx.tool) (by simp))
      (hget "cost" (.num (ctx.callCostUsd.getD (.ofNat 0))) (by simp))
  · rintro ⟨b, d⟩ ⟨rfl, hmade⟩
    refine ⟨_, rfl, ?_, _, ⟨[], (List.append_nil _).trans hes⟩, ?_⟩
    · rw [enforced, ← hes, List.find?_append, h.2, Option.none_or, List.find?_singleton, approvalResult,
        ToolCallContext.restricted, PolicyEntrypoint.restrictive]
      cases ctx.answer data .requireApproval <;> cases ctx.locallyDestructive <;> rfl
    · have hall : List.Forall₂ (Made wasm data ctx) (es ++ [.requireApproval]) (ds ++ [d]) :=
        List.rel_append h.1 (.cons hmade .nil)
      unfold approvalResult
      split_ifs <;> exact hall

/-- **A call comes to what the policies enforce**, whatever its mode. -/
theorem keeps_evaluateToolCall (hworld : ∀ e, (world e).Enforces wasm data e) (hctx : ctx.Readable)
    (strict : Option Bool) :
    (evaluateToolCall host world ctx strict).run.Keeps (PolicyEngine.Sound wasm) fun r =>
      ∃ result, r = .ok result ∧ Told wasm data ctx result := by
  unfold evaluateToolCall
  refine Task.Keeps.bindOk (keeps_checkBudget (hworld _)) fun c hc => ?_
  cases c with
  | error result => exact ⟨result, rfl, Told.of_error hc rfl⟩
  | ok ds =>
    refine Task.Keeps.bindOk (keeps_checkEgress (hworld _) hctx hc) fun c' hc' => ?_
    cases c' with
    | error result => exact ⟨result, rfl, Told.of_error hc' (List.append_assoc ..)⟩
    | ok ds' => exact keeps_checkApproval (hworld _) hctx hc' (List.append_assoc ..)

end gate

/-! ## Runs of calls -/

/-- The bundle of the deployment, at every event of a run. -/
def GateEvent.Enforces (wasm : Bytes) (data : Value) : GateEvent → Prop
  | call _ world _ => ∀ e, (world e).Enforces wasm data e
  | resume _ => True
  | load world => world.readFile = .ok wasm ∧ world.instantiate = .ok ()

section runs

variable {host : JsVal → Except JsError JsString} {bundlePath : JsString} {wasm : Bytes}
  {data : Value} {events : List GateEvent} {i : ℕ} {ctx : ToolCallContext}
  {world : PolicyEntrypoint → Surroundings} {strict : Option Bool} {r : Except JsError GateResult}

/-- What a call of a run has come to. -/
theorem told_of_done (h : ∀ e ∈ events, e.Enforces wasm data)
    (hcall : (calls (GateEvent.toAsync host) events)[i]? = some (.call ctx world strict))
    (hctx : ctx.Readable)
    (hdone : (gatePool host bundlePath events).tasks[i]? = some (.done r)) :
    ∃ result, r = .ok result ∧ Told wasm data ctx result := by
  have hkeeps : (gatePool host bundlePath events).Keeps (PolicyEngine.Sound wasm)
      (fun e r => ∀ ctx world strict, e = .call ctx world strict → ctx.Readable →
        ∃ result, r = .ok result ∧ Told wasm data ctx result)
      (calls (GateEvent.toAsync host) events) := by
    refine Pool.keeps_runBy ⟨rfl, fun hpolicy => by cases hpolicy⟩ ?_ ?_
    · intro e he t ht
      cases e with
      | resume j => cases ht
      | load world => cases ht
      | call ctx world strict =>
        obtain rfl := Event.spawn.inj ht
        have hkeeps : (evaluateToolCall host world ctx strict).run.Keeps (PolicyEngine.Sound wasm)
            fun r => ctx.Readable → ∃ result, r = .ok result ∧ Told wasm data ctx result :=
          .of_imp (each_evaluateToolCall (h _ he) strict) fun hctx =>
            keeps_evaluateToolCall (h _ he) hctx strict
        refine hkeeps.mono fun r hr => ?_
        rintro _ _ _ ⟨⟩ hctx
        exact hr hctx
    · intro e he update engine hupdate hsound
      cases e with
      | resume j => cases hupdate
      | call ctx world strict => cases hupdate
      | load world =>
        obtain rfl := Event.other.inj hupdate
        exact (hsound.load (h _ he).1 (h _ he).2).2.2
  exact hkeeps.result hcall hdone ctx world strict rfl hctx

/-- A call that is resumed three times returns. -/
theorem exists_done_gate (hcall : (calls (GateEvent.toAsync host) events)[i]? =
      some (.call ctx world strict)) {later : List GateEvent}
    (hcount : 3 ≤ later.countP fun e => (e.toAsync host).resumes i) :
    ∃ r, (gatePool host bundlePath (events ++ later)).tasks[i]? = some (.done r) := by
  have hwithin : (gatePool host bundlePath events).Within i 3 := by
    refine Pool.within_runBy (fun e t ht => ?_) (List.getElem?_eq_some_iff.mp hcall).1
    cases e with
    | call ctx world strict =>
      obtain rfl := Event.spawn.inj ht
      exact within_evaluateToolCall strict
    | resume j => cases ht
    | load world => cases ht
  unfold gatePool Pool.runBy
  rw [List.foldl_append]
  exact Pool.exists_done_runBy hwithin hcount

end runs

/-- A deployment that allows no more than another: shorter lists of domains, a lower threshold. -/
structure Tighter (data data' : Value) : Prop where
  /-- Every domain it allows was allowed. -/
  allowlist : ∀ taskId, ∀ domain ∈ allowlist data' taskId, domain ∈ allowlist data taskId
  /-- Every cost that needed an approval needs one. -/
  threshold : ∀ cost, aboveThreshold data cost = true → aboveThreshold data' cost = true

/-- What a deployment restricts, a tighter one restricts. -/
theorem Tighter.restricted {data data' : Value} (h : Tighter data data') {ctx : ToolCallContext}
    {e : PolicyEntrypoint} (he : ctx.restricted data e = true) : ctx.restricted data' e = true := by
  unfold ToolCallContext.restricted at he ⊢
  rw [decide_eq_true_iff] at he ⊢
  cases e with
  | denyBudget => exact he
  | authzAllow => exact he
  | allowEgress =>
    unfold ToolCallContext.answer PolicyEntrypoint.restrictive at he ⊢
    cases hdomain : ctx.domain with
    | none => rfl
    | some domain =>
      rw [hdomain, Option.any_some, Bool.or_eq_false_iff, decide_eq_false_iff_not] at he
      rw [Option.any_some, Bool.or_eq_false_iff, decide_eq_false_iff_not]
      exact ⟨fun hmem => he.1 (h.allowlist _ _ hmem), he.2⟩
  | requireApproval =>
    unfold ToolCallContext.answer PolicyEntrypoint.restrictive at he ⊢
    rw [Bool.or_eq_true, Bool.or_eq_true] at he ⊢
    exact he.imp id (Or.imp (h.threshold _) id)

/-- The first of more is no later, and the earlier the more restrictive. -/
theorem exists_find?_of_imp {es : List PolicyEntrypoint}
    (hes : es.Pairwise fun e f => f.refusal.severity ≤ e.refusal.severity)
    {p q : PolicyEntrypoint → Bool} (hpq : ∀ e, p e = true → q e = true) {e : PolicyEntrypoint}
    (h : es.find? p = some e) :
    ∃ f, es.find? q = some f ∧ e.refusal.severity ≤ f.refusal.severity := by
  induction es with
  | nil => cases h
  | cons f es ih =>
    obtain ⟨hf, hes⟩ := List.pairwise_cons.mp hes
    cases hq : q f with
    | true =>
      refine ⟨f, List.find?_cons_of_pos hq, ?_⟩
      rcases List.mem_cons.mp (List.mem_of_find?_eq_some h) with rfl | hmem
      · exact le_refl _
      · exact hf e hmem
    | false =>
      have hp : ¬ p f = true := fun hp => Bool.false_ne_true (hq.symm.trans (hpq f hp))
      rw [List.find?_cons_of_neg hp] at h
      rw [List.find?_cons_of_neg (by rw [hq]; exact Bool.false_ne_true)]
      exact ih hes h

/-- **A tighter deployment is no less restrictive.** -/
theorem Tighter.severity_le {data data' : Value} (h : Tighter data data') (ctx : ToolCallContext) :
    (enforced data ctx).severity ≤ (enforced data' ctx).severity := by
  unfold enforced
  cases hfind : ctx.entrypoints.find? (ctx.restricted data) with
  | some e =>
    obtain ⟨f, hf, hle⟩ :=
      exists_find?_of_imp (pairwise_entrypoints ctx) (fun e => h.restricted) hfind
    rw [hf]
    exact hle
  | none =>
    cases ctx.entrypoints.find? (ctx.restricted data') with
    | none => exact le_refl _
    | some f =>
      refine le_trans ?_ (one_le_severity_refusal f)
      cases ctx.locallyDestructive with
      | true => exact le_refl _
      | false => exact Nat.zero_le _

/-- **Tightening the data of a deployment never loosens an outcome**: the same call, in any run on an
engine of the tighter deployment and any on one of the other, has an outcome there that is no less
restrictive, whatever the modes. -/
theorem gate_tightens (host : JsVal → Except JsError JsString) (bundlePath bundlePath' : JsString)
    (wasm wasm' : Bytes) (data data' : Value) (htighter : Tighter data data')
    (events events' : List GateEvent) (h : ∀ e ∈ events, e.Enforces wasm data)
    (h' : ∀ e ∈ events', e.Enforces wasm' data') (i i' : ℕ) (ctx : ToolCallContext)
    (world world' : PolicyEntrypoint → Surroundings) (strict strict' : Option Bool)
    (hcall : (calls (GateEvent.toAsync host) events)[i]? = some (.call ctx world strict))
    (hcall' : (calls (GateEvent.toAsync host) events')[i']? = some (.call ctx world' strict'))
    (hctx : ctx.Readable) (result result' : GateResult)
    (hdone : (gatePool host bundlePath events).tasks[i]? = some (.done (.ok result)))
    (hdone' : (gatePool host bundlePath' events').tasks[i']? = some (.done (.ok result'))) :
    result.outcome.severity ≤ result'.outcome.severity := by
  obtain ⟨_, hr, htold⟩ := told_of_done h hcall hctx hdone
  obtain ⟨_, hr', htold'⟩ := told_of_done h' hcall' hctx hdone'
  obtain rfl := Except.ok.inj hr
  obtain rfl := Except.ok.inj hr'
  rw [htold.outcome, htold'.outcome]
  exact htighter.severity_le ctx

/-! ## A call to a destination -/

/-- A deployment in which one task may reach one domain. -/
def oneDomain : Value :=
  .obj [("task_allowlist", .obj [("task_1", .arr [.str "api.github.com"])])]

/-- A module that evaluates the sources. -/
def interpreter (data : Value) (e : PolicyEntrypoint) : Surroundings where
  readFile := .ok []
  instantiate := .ok ()
  evaluate input :=
    match received input with
    | some w => .ok (.arr [.obj [(js "result", .bool ((source e).decide (documentOf w) data))]])
    | none => .ok (.arr [])
  started := ⟨0, TimeValue.zero_inRange⟩
  finished := ⟨0, TimeValue.zero_inRange⟩

/-- It enforces them. -/
theorem enforces_interpreter (data : Value) (e : PolicyEntrypoint) :
    (interpreter data e).Enforces [] data e := by
  refine ⟨rfl, rfl, fun input w hw _ => ⟨_, ?_, Definition.decides_iff.mpr rfl⟩⟩
  unfold interpreter
  dsimp only
  rw [hw]

/-- A request to a domain. -/
def fetchCall (domain : JsString) : ToolCallContext where
  runId := js "run_1"
  taskId := js "task_1"
  stepId := .ofNat 1
  tool := js "http_get"
  action := js "read"
  domain := some domain
  tokensUsed := .ofNat 0
  costIncurredUsd := .ofNat 0
  budgetTokens := none
  maxCostUsd := none
  callCostUsd := none

/-- The texts of a request. -/
theorem readable_fetchCall (domain : String) : (fetchCall (js domain)).Readable where
  runId := wellFormed_js _
  taskId := wellFormed_js _
  tool := wellFormed_js _
  action := wellFormed_js _
  domain := by
    rintro _ ⟨⟩
    exact wellFormed_js domain

/-- A request on an engine, and the steps it takes. -/
def fetchRun (data : Value) (domain : JsString) : List GateEvent :=
  [.call (fetchCall domain) (interpreter data) none] ++ [.resume 0, .resume 0, .resume 0]

/-- The bundle is that of the sources throughout. -/
theorem enforces_fetchRun (data : Value) (domain : JsString) :
    ∀ e ∈ fetchRun data domain, e.Enforces [] data :=
  List.forall_mem_cons.mpr ⟨enforces_interpreter data, List.forall_mem_cons.mpr ⟨trivial,
    List.forall_mem_cons.mpr ⟨trivial, List.forall_mem_singleton.mpr trivial⟩⟩⟩

/-- A deployment in which nothing may be reached is tighter. -/
theorem tighter_null (data : Value) (h : ∀ cost, aboveThreshold data cost = false) :
    Tighter data .null where
  allowlist := fun _ _ hmem => by cases hmem
  threshold := fun cost habove => by
    rw [h cost] at habove
    cases habove

/-- The same request in both. -/
theorem gate_tightens_domain : ∃ result result',
    (gatePool someText (js "policy.wasm") (fetchRun oneDomain (js "api.github.com"))).tasks[0]? =
      some (.done (.ok result)) ∧
    (gatePool someText (js "policy.wasm") (fetchRun .null (js "api.github.com"))).tasks[0]? =
      some (.done (.ok result')) ∧ result.outcome.severity ≤ result'.outcome.severity := by
  have hexists : ∀ data, ∃ result, (gatePool someText (js "policy.wasm")
      (fetchRun data (js "api.github.com"))).tasks[0]? = some (.done (.ok result)) := by
    intro data
    obtain ⟨r, hdone⟩ : ∃ r, (gatePool someText (js "policy.wasm")
        (fetchRun data (js "api.github.com"))).tasks[0]? = some (.done r) :=
      exists_done_gate rfl (by decide)
    obtain ⟨result, rfl, -⟩ := told_of_done (enforces_fetchRun data _) rfl
      (readable_fetchCall "api.github.com") hdone
    exact ⟨result, hdone⟩
  obtain ⟨result, hdone⟩ := hexists oneDomain
  obtain ⟨result', hdone'⟩ := hexists .null
  refine ⟨result, result', hdone, hdone', ?_⟩
  exact gate_tightens someText _ _ [] [] oneDomain .null (tighter_null _ fun _ => rfl) _ _
    (enforces_fetchRun _ _) (enforces_fetchRun _ _) 0 0 _ _ _ none none rfl rfl
    (readable_fetchCall "api.github.com") _ _ hdone hdone'

end AgentEval.Policy
