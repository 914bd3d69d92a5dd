import AgentEval.Robustness.Budget

/-!
# An assessment that is cut short says so

An assessment without a search is compared with the one that has no limit: it makes the same calls,
until none is left.

* `Cuts` — a probe with a limit against one without; `Cuts.pure` and `Cuts.bind` are its rules.
* **`assessVerifier_admits`**: what is said to an assessment with a limit begins what is said to one
  without; the two are the same where the calls suffice, and the report says that they were exhausted
  exactly where they do not.
-/

namespace AgentEval.Robustness

open Js Dialogue

variable {T S ε α β : Type}

/-! ## Probes with a limit, and without -/

/-- No call is left, and that was noticed. -/
structure Ended (n : ℕ) (st : Progress) : Prop where
  calls : st.graderCalls = n
  noticed : st.budgetExhausted = true

/-- Two assessments are at the same point, with so many calls left. -/
structure Alike (n m : ℕ) (a b : α × Progress) : Prop where
  eq : a = b
  calls : a.2.graderCalls + m = n
  unnoticed : a.2.budgetExhausted = false

/-- A probe with a limit of `n` calls does what the probe without does, while calls are left; and it
does nothing after that. -/
structure Cuts (n : ℕ) (limited unlimited : Progress → Probing T S (α × Progress)) : Prop where
  cut : ∀ m st, st.graderCalls + m = n → st.budgetExhausted = false →
    Cut graded (Alike n) (fun r => Ended n r.2) m (limited st) (unlimited st)
  ended : ∀ st, Ended n st → ∃ r, limited st = .done r ∧ Ended n r.2

section rules

variable {n : ℕ}

/-- The rule for a return. -/
theorem Cuts.pure {g : Progress → α × Progress} (hcalls : ∀ st, (g st).2.graderCalls = st.graderCalls)
    (hnoticed : ∀ st, (g st).2.budgetExhausted = st.budgetExhausted) :
    Cuts n (fun st => (Pure.pure (g st) : Probing T S (α × Progress))) fun st => Pure.pure (g st) where
  cut m st hst hfalse := Cut.pure ⟨rfl, (congrArg (· + m) (hcalls st)).trans hst, (hnoticed st).trans hfalse⟩
  ended st hst := ⟨g st, rfl, (hcalls st).trans hst.calls, (hnoticed st).trans hst.noticed⟩

/-- The rule for sequence. -/
theorem Cuts.bind {p p' : Progress → Probing T S (α × Progress)}
    {k k' : α × Progress → Probing T S (β × Progress)} (h : Cuts n p p')
    (hk : ∀ a, Cuts n (fun st => k (a, st)) fun st => k' (a, st)) :
    Cuts n (fun st => p st >>= k) fun st => p' st >>= k' where
  cut m st hst hfalse := by
    apply (h.cut m st hst hfalse).bind
    · rintro m ⟨a, st⟩ b ⟨rfl, hcalls, hunnoticed⟩
      exact (hk a).cut m st hcalls hunnoticed
    · rintro ⟨a, st⟩ ha
      exact (hk a).ended st ha
  ended st hst := by
    obtain ⟨⟨a, st'⟩, hr, hr'⟩ := h.ended st hst
    obtain ⟨c, hc, hc'⟩ := (hk a).ended st' hr'
    refine ⟨c, ?_, hc'⟩
    rw [hr]
    exact hc

/-- One probe after the other. -/
theorem Cuts.collect {A B : Type} {probe probe' : A → Progress → Probing T S (B × Progress)}
    (h : ∀ a, Cuts n (probe a) (probe' a)) (as : List A) :
    Cuts n (collect probe as) (collect probe' as) := by
  induction as with
  | nil => exact Cuts.pure (fun _ => rfl) fun _ => rfl
  | cons a as ih =>
    refine (h a).bind fun b => ?_
    refine ih.bind fun bs => ?_
    exact Cuts.pure (fun _ => rfl) fun _ => rfl

end rules

/-! ## The probes -/

section probes

variable {n : ℕ} {sqrt : Number → Number} {options : AssessOptions T S}

/-- The same assessment without a limit. -/
def AssessOptions.unlimited (options : AssessOptions T S) : AssessOptions T S :=
  { options with maxGraderCalls := none }

variable (hn : n < 2 ^ 53) (hlimit : options.maxGraderCalls = some (.ofNat n))

include hn hlimit

/-- A call. -/
theorem gradeOnce_cuts (task : T) (submission : S) :
    Cuts n (gradeOnce options task submission) (gradeOnce options.unlimited task submission) := by
  have hl : options.limit = .ofNat n := by
    unfold AssessOptions.limit
    rw [hlimit, Option.getD_some]
  have hstops : ∀ st : Progress, st.graderCalls = n →
      gradeOnce options task submission st = .done (none, { st with budgetExhausted := true }) := by
    intro st hst
    unfold gradeOnce
    rw [hl, hst, Number.le_ofNat hn hn, if_pos (by simp)]
    rfl
  constructor
  · intro m st hst hfalse
    have hmore : gradeOnce options.unlimited task submission st =
        .ask (task, .grade submission) fun reward =>
          .done (some (clamp01 reward), { st with graderCalls := st.graderCalls + 1 }) := by
      unfold gradeOnce
      have hle : options.unlimited.limit.le (.ofNat st.graderCalls) = false := by
        rw [Number.ofNat_eq (by omega)]
        rfl
      rw [hle]
      rfl
    rw [hmore]
    cases m with
    | zero =>
      rw [hstops st hst]
      exact .out rfl ⟨hst, rfl⟩
    | succ m =>
      have hgoes : gradeOnce options task submission st =
          .ask (task, .grade submission) fun reward =>
            .done (some (clamp01 reward), { st with graderCalls := st.graderCalls + 1 }) := by
        unfold gradeOnce
        rw [hl, Number.le_ofNat hn (by omega), if_neg (by simp; omega)]
        rfl
      rw [hgoes]
      exact .counted rfl fun reward => .done ⟨rfl, by dsimp only; omega, hfalse⟩
  · intro st hst
    exact ⟨_, hstops st hst.calls, hst.calls, rfl⟩

/-- Several calls. -/
theorem gradeTimes_cuts (task : T) (submission : S) (times : ℕ) (rewards : List Number) :
    Cuts n (gradeTimes options task submission times rewards)
      (gradeTimes options.unlimited task submission times rewards) := by
  induction times generalizing rewards with
  | zero => exact Cuts.pure (fun _ => rfl) fun _ => rfl
  | succ times ih =>
    refine (gradeOnce_cuts hn hlimit task submission).bind fun reward => ?_
    cases reward with
    | none => exact Cuts.pure (fun _ => rfl) fun _ => rfl
    | some reward => exact ih _

/-- The grades of one probe. -/
theorem gradeRepeated_cuts (task : T) (submission : S) :
    Cuts n (gradeRepeated sqrt options task submission)
      (gradeRepeated sqrt options.unlimited task submission) := by
  refine (gradeTimes_cuts hn hlimit task submission _ []).bind fun rewards => ?_
  dsimp only
  split_ifs <;> exact Cuts.pure (fun _ => rfl) fun _ => rfl

/-- The determinism probe. -/
theorem probeDeterminism_cuts :
    Cuts n (probeDeterminism sqrt options) (probeDeterminism sqrt options.unlimited) := by
  unfold probeDeterminism
  have htasks : options.unlimited.tasks = options.tasks := rfl
  have hsamples : options.unlimited.determinismSamples = options.determinismSamples := rfl
  have hprobe : options.unlimited.probeSubmission = options.probeSubmission := rfl
  rw [htasks, hsamples, hprobe]
  cases options.tasks.head? with
  | none => exact Cuts.pure (fun _ => rfl) fun _ => rfl
  | some task =>
    dsimp only
    split_ifs
    · exact Cuts.pure (fun _ => rfl) fun _ => rfl
    · cases options.probeSubmission task with
      | none => exact Cuts.pure (fun _ => rfl) fun _ => rfl
      | some submission =>
        refine (gradeTimes_cuts hn hlimit task submission _ []).bind fun observed => ?_
        exact Cuts.pure (fun _ => rfl) fun _ => rfl

/-- A canary. -/
theorem testCanary_cuts (task : T) (canary : Canary T S) :
    Cuts n (testCanary sqrt options task canary) (testCanary sqrt options.unlimited task canary) := by
  unfold testCanary
  cases canary.build task with
  | none => exact Cuts.pure (fun _ => rfl) fun _ => rfl
  | some submission =>
    refine (gradeRepeated_cuts hn hlimit task submission).bind fun graded => ?_
    cases graded with
    | none => exact Cuts.pure (fun _ => rfl) fun _ => rfl
    | some graded => exact Cuts.pure (fun _ => rfl) fun _ => rfl

/-- A rewriting. -/
theorem testPerturbation_cuts (task : T) (reference : S) (baseline : Option Graded)
    (perturbation : Perturbation T S) :
    Cuts n (testPerturbation sqrt options task reference baseline perturbation)
      (testPerturbation sqrt options.unlimited task reference baseline perturbation) := by
  unfold testPerturbation
  cases baseline with
  | none => exact Cuts.pure (fun _ => rfl) fun _ => rfl
  | some baseline =>
    cases perturbation.apply task reference with
    | none => exact Cuts.pure (fun _ => rfl) fun _ => rfl
    | some rewritten =>
      refine (gradeRepeated_cuts hn hlimit rewritten.1 rewritten.2).bind fun after => ?_
      cases after with
      | none => exact Cuts.pure (fun _ => rfl) fun _ => rfl
      | some after => exact Cuts.pure (fun _ => rfl) fun _ => rfl

/-- The rewritings of a task. -/
theorem testPerturbations_cuts (task : T) :
    Cuts n (testPerturbations sqrt options task) (testPerturbations sqrt options.unlimited task) := by
  unfold testPerturbations
  have hreference : options.unlimited.referenceSubmission = options.referenceSubmission := rfl
  rw [hreference]
  cases options.referenceSubmission.bind fun reference => reference task with
  | none => exact Cuts.pure (fun _ => rfl) fun _ => rfl
  | some reference =>
    refine (gradeRepeated_cuts hn hlimit task reference).bind fun baseline => ?_
    exact Cuts.collect (testPerturbation_cuts hn hlimit task reference baseline) options.perturbations

variable (hfuzz : options.fuzz = none)

include hfuzz

/-- A task, without a search. -/
theorem assessTask_cuts (task : T) :
    Cuts n (assessTask sqrt options task) (assessTask sqrt options.unlimited task) := by
  have hnone : ∀ st, fuzzTask options task st = Pure.pure (none, st) := by
    intro st
    unfold fuzzTask
    rw [hfuzz]
  have hnone' : ∀ st, fuzzTask options.unlimited task st = Pure.pure (none, st) := by
    intro st
    unfold fuzzTask
    have : options.unlimited.fuzz = none := hfuzz
    rw [this]
  refine (Cuts.collect (testCanary_cuts hn hlimit task) options.canaries).bind fun canaryFindings => ?_
  refine (testPerturbations_cuts hn hlimit task).bind fun perturbationFindings => ?_
  dsimp only
  simp only [hnone, hnone']
  exact Cuts.pure (fun _ => rfl) fun _ => rfl

end probes

/-! ## What the report says -/

/-- **The report says that the calls were exhausted** where that was noticed, and only there. -/
theorem mem_buildLimitations {taskCount tested : ℕ} {hasOracle hasReference fuzzRan exhausted
    nondeterministic : Bool} {summary : List ChannelCount} :
    limitationExhausted ∈ buildLimitations taskCount hasOracle hasReference tested fuzzRan exhausted
      nondeterministic summary ↔ exhausted = true := by
  -- two of the other texts begin with the same letter
  have hhead : ∀ {text : JsString}, text.head? ≠ some 84 → limitationExhausted ≠ text := by
    rintro text h rfl
    exact h rfl
  have hten : ∀ {text : JsString}, text[10]? ≠ some 45 → limitationExhausted ≠ text := by
    rintro text h rfl
    exact h rfl
  have horacle : limitationExhausted ≠ limitationNoOracle := hhead (by decide)
  have hperturbation : limitationExhausted ≠ limitationNoPerturbation := hhead (by decide)
  have hfuzzing : limitationExhausted ≠ limitationNoFuzzing := hhead (by decide)
  have hnondeterministic : limitationExhausted ≠ limitationNondeterministic := hten (by decide)
  have hnone : limitationExhausted ≠ limitationNone := hhead (by decide)
  have hfew : limitationExhausted ≠ limitationFewTasks taskCount := by
    have hfirst : (limitationFewTasks taskCount).head? = some 79 := rfl
    apply hhead
    rw [hfirst]
    decide
  have huntested : ∀ channels, limitationExhausted ≠ limitationUntested channels := by
    intro channels
    have hunit : (limitationUntested channels)[10]? = some 110 := rfl
    apply hten
    rw [hunit]
    decide
  have hif : ∀ {c : Prop} [Decidable c] {text : JsString}, limitationExhausted ≠ text →
      limitationExhausted ∉ if c then [text] else [] := by
    intro c _ text h
    split_ifs <;> simp [h]
  have hif' : ∀ {c : Prop} [Decidable c] {channels : List JsString},
      limitationExhausted ∉ if c then [] else [limitationUntested channels] := by
    intro c _ channels
    split_ifs <;> simp [huntested]
  have hmem : limitationExhausted ∈ statedLimitations taskCount hasOracle hasReference tested fuzzRan
      exhausted nondeterministic summary ↔ exhausted = true := by
    unfold statedLimitations
    simp only [List.mem_append, hif horacle, hif hperturbation, hif hfuzzing, hif hnondeterministic,
      hif hfew, hif', false_or, or_false]
    split_ifs with h <;> simp [h]
  unfold buildLimitations
  rw [← hmem]
  dsimp only
  split_ifs with hempty
  · rw [List.isEmpty_iff] at hempty
    rw [hempty, List.mem_singleton]
    exact ⟨fun h => absurd h hnone, fun h => absurd h List.not_mem_nil⟩
  · rfl

/-- What a result says of the calls. -/
def Says (exhausted : Bool) (result : Except JsString VerifierAssessment) : Prop :=
  ∀ assessment, result = .ok assessment →
    (limitationExhausted ∈ assessment.report.limitations ↔ exhausted = true)

/-- A report says whether it was noticed that no call is left. -/
theorem says_makeReport (sqrt : Number → Number) (options : AssessOptions T S) (now : TimeValue)
    (perTask : List TaskAssessment) (nondeterministic : Bool) (st : Progress) :
    Says st.budgetExhausted ((assertNoOverclaim (makeReport sqrt options now perTask
      nondeterministic st)).map fun _ => .of (makeReport sqrt options now perTask
        nondeterministic st) st) := by
  intro assessment h
  cases hassert : assertNoOverclaim (makeReport sqrt options now perTask nondeterministic st) with
  | error message =>
    rw [hassert] at h
    cases h
  | ok u =>
    rw [hassert] at h
    rw [← Except.ok.inj h]
    exact mem_buildLimitations

/-- An assessment with a limit, against the one without. -/
theorem assessVerifier_cut {n : ℕ} (hn : n < 2 ^ 53) (sqrt : Number → Number)
    {options : AssessOptions T S} (now : TimeValue) (hlimit : options.maxGraderCalls = some (.ofNat n))
    (hfuzz : options.fuzz = none) :
    Cut graded (fun _ a b => a = b ∧ Says false a) (Says true) n
      (assessVerifier sqrt options now) (assessVerifier sqrt options.unlimited now) := by
  have htasks : Cuts n (collect (assessTask sqrt options) options.tasks)
      (collect (assessTask sqrt options.unlimited) options.tasks) :=
    Cuts.collect (assessTask_cuts hn hlimit hfuzz) options.tasks
  have hcuts : Cuts n (probeDeterminism sqrt options) (probeDeterminism sqrt options.unlimited) :=
    probeDeterminism_cuts hn hlimit
  have hprobe := hcuts.cut n ⟨0, false, [], false, false⟩ (Nat.zero_add n) rfl
  apply hprobe.bind
  · rintro m ⟨nondeterministic, st⟩ b ⟨rfl, hcalls, hunnoticed⟩
    apply (htasks.cut m st hcalls hunnoticed).bind
    · rintro m ⟨perTask, st'⟩ b ⟨rfl, -, hunnoticed'⟩
      refine Cut.pure ⟨rfl, ?_⟩
      rw [← hunnoticed']
      exact says_makeReport sqrt options now perTask nondeterministic st'
    · rintro ⟨perTask, st'⟩ hended
      refine ⟨_, rfl, ?_⟩
      rw [← hended.noticed]
      exact says_makeReport sqrt options now perTask nondeterministic st'
  · rintro ⟨nondeterministic, st⟩ hended
    obtain ⟨⟨perTask, st'⟩, hrun, hended'⟩ := htasks.ended st hended
    have hclaim := says_makeReport sqrt options now perTask nondeterministic st'
    rw [show st'.budgetExhausted = true from hended'.noticed] at hclaim
    refine ⟨_, ?_, hclaim⟩
    change (collect _ options.tasks st).bind _ = _
    rw [hrun]
    rfl

/-- **What is cut short is admitted.** An assessment without a search, with a limit of `n` calls,
against the same assessment without a limit: what is said to the first begins what is said to the
second. Where `n` calls suffice the two are the same; and where the first returns, its report says that
the calls were exhausted exactly if they did not suffice. -/
theorem assessVerifier_admits (sqrt : Number → Number) (options : AssessOptions T S) (now : TimeValue)
    {n : ℕ} (hn : n < 2 ^ 53) (hlimit : options.maxGraderCalls = some (.ofNat n))
    (hfuzz : options.fuzz = none) (other : Other (T × Question S) Number ε) :
    ((assessVerifier sqrt options now).run other []).2 <+:
      ((assessVerifier sqrt options.unlimited now).run other []).2 ∧
    (callsIn ((assessVerifier sqrt options.unlimited now).run other []).2 ≤ n →
      (assessVerifier sqrt options now).run other [] =
        (assessVerifier sqrt options.unlimited now).run other []) ∧
    ∀ assessment, ((assessVerifier sqrt options now).run other []).1 = .ok (.ok assessment) →
      (limitationExhausted ∈ assessment.report.limitations ↔
        n < callsIn ((assessVerifier sqrt options.unlimited now).run other []).2) := by
  have hstops := (assessVerifier_cut hn sqrt now hlimit hfuzz).run other []
  generalize (assessVerifier sqrt options now).run other [] = limited at hstops ⊢
  generalize (assessVerifier sqrt options.unlimited now).run other [] = unlimited at hstops ⊢
  change Stops _ _ _ (0 + n) _ _ at hstops
  rw [Nat.zero_add] at hstops
  unfold callsIn
  cases hstops with
  | @done m a b past hsame hle =>
    obtain ⟨rfl, hclaim⟩ := hsame
    refine ⟨List.prefix_rfl, fun _ => rfl, fun assessment h => ?_⟩
    rw [hclaim assessment (Except.ok.inj h)]
    exact ⟨fun h => (by cases h), fun h => absurd hle (not_le.mpr h)⟩
  | @failed e past hle => exact ⟨List.prefix_rfl, fun _ => rfl, fun assessment h => by cases h⟩
  | @out a past more hclaim _ hpre hlt =>
    refine ⟨hpre, fun hle => absurd hle (not_le.mpr hlt), fun assessment h => ?_⟩
    rw [hclaim assessment (Except.ok.inj h)]
    exact ⟨fun _ => hlt, fun _ => rfl⟩

/-- The suite of one canary. -/
theorem assessVerifier_admits_oneCanary :
    ((assessVerifier id oneCanary firstDay).run payAll []).2 <+:
      ((assessVerifier id oneCanary.unlimited firstDay).run payAll []).2 :=
  (assessVerifier_admits id oneCanary firstDay (by norm_num) rfl rfl payAll).1

end AgentEval.Robustness
