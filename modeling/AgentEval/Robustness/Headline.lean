import AgentEval.Robustness.Findings

/-!
# What a report says of its findings

* `worstGap_spec`, `maxGap_spec` — the worst of some gaps is a bound that is attained.
* **`assessVerifier_returns`**: no report is refused, and each finding says why it is not closed.
* **`assessVerifier_headline`**: the exploitable gap and its basis belong to the findings.
* **`assessVerifier_accounts`**: every probe of every task has its finding, and the summary counts
  each finding once.
-/

namespace AgentEval.Robustness

open Js Dialogue

variable {T S ε : Type} {sqrt : Number → Number} {options : AssessOptions T S} {now : TimeValue}
  {other : Other (T × Question S) Number ε} {assessment : VerifierAssessment}

/-- What is known of the tasks of an assessment that was returned. -/
theorem perTask_told
    (h : ((assessVerifier sqrt options now).run other []).1 = .ok (.ok assessment)) :
    List.Forall₂ (TaskTold options) options.tasks assessment.report.perTask := by
  obtain ⟨perTask, _, _, htold, -, -, heq⟩ := assessVerifier_yields.run h
  rw [Except.ok.inj heq]
  exact htold

/-- Where the grader and the oracle answer, an assessment is returned. -/
theorem exists_assessment (hother : ∀ past q e, other past q ≠ .error e) :
    ∃ assessment, ((assessVerifier sqrt options now).run other []).1 = .ok (.ok assessment) := by
  obtain ⟨result, hrun⟩ := exists_run_eq_ok hother (assessVerifier sqrt options now) []
  obtain ⟨_, _, _, -, -, -, heq⟩ := assessVerifier_yields.run hrun
  exact ⟨_, hrun.trans (congrArg Except.ok heq)⟩

/-- **No report is refused.** Where the grader and the oracle answer, an assessment is returned; and
every finding in it that is not closed has a caveat. -/
theorem assessVerifier_returns (sqrt : Number → Number) (options : AssessOptions T S) (now : TimeValue)
    (other : Other (T × Question S) Number ε) :
    (∀ message, ((assessVerifier sqrt options now).run other []).1 ≠ .ok (.error message)) ∧
    ((∀ past q e, other past q ≠ .error e) →
      ∃ assessment, ((assessVerifier sqrt options now).run other []).1 = .ok (.ok assessment)) ∧
    ∀ assessment, ((assessVerifier sqrt options now).run other []).1 = .ok (.ok assessment) →
      ∀ t ∈ assessment.report.perTask, ∀ f ∈ t.findings, f.status ≠ .closed →
        ∃ u us, f.caveat = some (u :: us) := by
  refine ⟨fun message hrun => ?_, exists_assessment, fun assessment hrun t ht f hf hopen => ?_⟩
  · obtain ⟨_, _, _, -, -, -, heq⟩ := assessVerifier_yields.run hrun
    cases heq
  · obtain ⟨task, htask⟩ := exists_left_of_forall₂ (perTask_told hrun) ht
    have hcaveat := htask.caveated hf hopen
    cases hsome : f.caveat with
    | none =>
      rw [hsome] at hcaveat
      exact absurd rfl hcaveat
    | some caveat =>
      rw [hsome] at hcaveat
      cases caveat with
      | nil => exact absurd rfl hcaveat
      | cons u us => exact ⟨u, us, rfl⟩

/-- The grader that pays everything always answers. -/
theorem payAll_answers (past : Past (Unit × Question ℕ) Number Unit) (q : Unit × Question ℕ) (e : Unit) :
    payAll past q ≠ .error e := by simp [payAll]

/-- The suite of one canary. -/
theorem assessVerifier_returns_oneCanary :
    ∃ assessment, ((assessVerifier id oneCanary firstDay).run payAll []).1 = .ok (.ok assessment) :=
  (assessVerifier_returns id oneCanary firstDay payAll).2.1 payAll_answers

/-! ## The worst gap -/

/-- The largest of some gaps, or zero. -/
def worstOf (gaps : List Number) : Number := if gaps.isEmpty then .ofNat 0 else Number.maxOf gaps

/-- A gap is a positive number of at most `1`. -/
def IsGap (g : Number) : Prop := (Number.ofNat 0).lt g = true ∧ g.isFinite = true ∧ g.toRat ≤ 1

/-- A gap is a number. -/
theorem IsGap.ne_nan {g : Number} (h : IsGap g) : g ≠ .nan := (Number.ne_nan_of_lt h.1).2

/-- The largest of some gaps is one of them, and above all. -/
theorem maxOf_spec {gaps : List Number} (hne : gaps ≠ []) (hgaps : ∀ g ∈ gaps, IsGap g) :
    Number.maxOf gaps ∈ gaps ∧ ∀ g ∈ gaps, g.le (Number.maxOf gaps) = true :=
  have hnan := fun g hg => (hgaps g hg).ne_nan
  ⟨Number.maxOf_mem hne hnan, fun _ hg => Number.le_maxOf hnan hg⟩

/-- The worst gap is in `[0, 1]`, above all gaps, and one of them unless there is none. -/
theorem worstOf_spec {gaps : List Number} (hgaps : ∀ g ∈ gaps, IsGap g) :
    (worstOf gaps).InUnit ∧ (∀ g ∈ gaps, g.le (worstOf gaps) = true) ∧
      ((gaps = [] ∧ worstOf gaps = .ofNat 0) ∨ worstOf gaps ∈ gaps) := by
  obtain ⟨hzero, hzero'⟩ := @Number.isFinite_ofNat 0 (by norm_num)
  rw [Nat.cast_zero] at hzero'
  unfold worstOf
  cases gaps with
  | nil =>
    rw [if_pos (by rfl)]
    exact ⟨⟨hzero, hzero'.ge, hzero'.trans_le zero_le_one⟩, fun g hg => absurd hg List.not_mem_nil,
      .inl ⟨rfl, rfl⟩⟩
  | cons g gs =>
    rw [if_neg (by simp)]
    obtain ⟨hmem, hle⟩ := maxOf_spec (List.cons_ne_nil g gs) hgaps
    obtain ⟨hpos, hfinite, hone⟩ := hgaps _ hmem
    have hnonneg := Number.le_of_lt hpos
    rw [Number.le_of_isFinite hzero hfinite, decide_eq_true_eq, hzero'] at hnonneg
    exact ⟨⟨hfinite, hnonneg, hone⟩, hle, .inr hmem⟩

/-- The positive gaps among some findings. -/
theorem mem_gapsOf {findings : List Finding} {g : Number} :
    g ∈ gapsOf findings ↔ ∃ f ∈ findings, f.gap = some g ∧ (Number.ofNat 0).lt g = true := by
  unfold gapsOf
  rw [List.mem_filter, List.mem_filterMap]
  constructor
  · rintro ⟨⟨f, hf, hg⟩, hpos⟩
    exact ⟨f, hf, hg, hpos⟩
  · rintro ⟨f, hf, hg, hpos⟩
    exact ⟨⟨f, hf, hg⟩, hpos⟩

section task

variable {task : T} {t : TaskAssessment} (h : TaskTold options task t)

include h

/-- The positive gaps of a task. -/
theorem TaskTold.isGap {g : Number} (hg : g ∈ gapsOf t.gapFindings) : IsGap g := by
  obtain ⟨f, hf, hgap, hpos⟩ := mem_gapsOf.mp hg
  exact ⟨hpos, h.gap_le_one hf hgap⟩

/-- The worst gap of a task is the largest of its positive gaps. -/
theorem TaskTold.worstGap_eq : t.worstGap =
    if gapsOf t.gapFindings = [] then none else some (worstOf (gapsOf t.gapFindings)) := by
  have hworst := congrArg TaskAssessment.worstGap h.eq_of
  rw [hworst]
  unfold TaskAssessment.of TaskAssessment.gapFindings worstOf
  cases gapsOf (t.canaryFindings ++ t.fuzzFinding.toList) with
  | nil => rfl
  | cons g gs => rfl

end task

/-- The gaps that are measured: each is a gap of some task, and none of a task is above it. -/
theorem measured_spec {tasks : List T} {perTask : List TaskAssessment}
    (h : List.Forall₂ (TaskTold options) tasks perTask) :
    (∀ g ∈ measuredGaps perTask, ∃ t ∈ perTask, g ∈ gapsOf t.gapFindings ∧ IsGap g) ∧
      ∀ t ∈ perTask, ∀ g ∈ gapsOf t.gapFindings, ∃ w ∈ measuredGaps perTask, g.le w = true := by
  unfold measuredGaps
  constructor
  · intro g hg
    obtain ⟨t, ht, hworst⟩ := List.mem_filterMap.mp hg
    obtain ⟨task, htask⟩ := exists_left_of_forall₂ h ht
    rw [htask.worstGap_eq] at hworst
    split_ifs at hworst with hempty
    obtain rfl := Option.some.inj hworst
    have hmem := (worstOf_spec fun g hg => htask.isGap hg).2.2.resolve_left fun h => hempty h.1
    exact ⟨t, ht, hmem, htask.isGap hmem⟩
  · intro t ht g hg
    obtain ⟨task, htask⟩ := exists_left_of_forall₂ h ht
    refine ⟨worstOf (gapsOf t.gapFindings), ?_, (worstOf_spec fun g hg => htask.isGap hg).2.1 g hg⟩
    rw [List.mem_filterMap]
    refine ⟨t, ht, ?_⟩
    rw [htask.worstGap_eq, if_neg (List.ne_nil_of_mem hg)]

/-! ## The headline -/

/-- Zero is no greater than a value in `[0, 1]`. -/
theorem zero_le_of_inUnit {x : Number} (h : x.InUnit) : (Number.ofNat 0).le x = true := by
  obtain ⟨hzero, hzero'⟩ := @Number.isFinite_ofNat 0 (by norm_num)
  rw [Number.le_of_isFinite hzero h.1, decide_eq_true_eq, hzero', Nat.cast_zero]
  exact h.2.1

/-- A number that is not positive is no greater than zero. -/
theorem nonpositive_le_zero {x : Number} (h : x.isFinite = true)
    (hpos : (Number.ofNat 0).lt x = false) : x.le (.ofNat 0) = true := by
  have hzero : Number.ofNat 0 ≠ .nan := by
    rw [Number.ofNat_zero]
    exact fun h => by cases h
  refine Number.le_of_not_lt hzero ?_ hpos
  rintro rfl
  cases h

/-- A search opens a channel where it found a gap and there is an oracle. -/
theorem TaskTold.fuzzOpen_iff {task : T} {t : TaskAssessment} (h : TaskTold options task t) :
    t.fuzzOpen = true ↔ options.oracle = true ∧ t.fuzzFinding.isSome := by
  unfold TaskAssessment.fuzzOpen
  cases hsome : t.fuzzFinding with
  | none => simp
  | some f =>
    have hstatus := (h.fuzz f hsome).status
    cases hor : options.oracle <;> rw [hor] at hstatus <;> simp [hstatus]

section tasks

variable {tasks : List T} {perTask : List TaskAssessment}
  (h : List.Forall₂ (TaskTold options) tasks perTask)

include h

/-- Some search opened a channel where there is an oracle and some search found a gap. -/
theorem any_fuzzOpen_iff : perTask.any TaskAssessment.fuzzOpen = true ↔
    options.oracle = true ∧ ∃ t ∈ perTask, t.fuzzFinding.isSome := by
  rw [List.any_eq_true]
  constructor
  · rintro ⟨t, ht, hfuzz⟩
    obtain ⟨task, htask⟩ := exists_left_of_forall₂ h ht
    obtain ⟨horacle, hsome⟩ := htask.fuzzOpen_iff.mp hfuzz
    exact ⟨horacle, t, ht, hsome⟩
  · rintro ⟨horacle, t, ht, hsome⟩
    obtain ⟨task, htask⟩ := exists_left_of_forall₂ h ht
    exact ⟨t, ht, htask.fuzzOpen_iff.mpr ⟨horacle, hsome⟩⟩

/-- No channel of any task is open. -/
theorem openChannels_eq_nil_iff : (∀ t ∈ perTask, t.openChannels = []) ↔
    perTask.any TaskAssessment.canaryOpen = false ∧ perTask.any TaskAssessment.fuzzOpen = false := by
  rw [List.any_eq_false, List.any_eq_false, ← forall₂_and]
  refine forall₂_congr fun t ht => ?_
  obtain ⟨task, htask⟩ := exists_left_of_forall₂ h ht
  rw [htask.openChannels_eq_nil_iff, Bool.not_eq_true, Bool.not_eq_true]

end tasks

/-- Every channel of a finding is listed once. -/
theorem mem_channelNames {tasks : List T} {perTask : List TaskAssessment}
    (h : List.Forall₂ (TaskTold options) tasks perTask) {channel : JsString} :
    channel ∈ channelNames perTask ↔ ∃ t ∈ perTask, ∃ f ∈ t.findings, f.channel = channel := by
  unfold channelNames
  rw [List.mem_eraseDups, List.mem_flatMap]
  refine exists_congr fun t => and_congr_right fun ht => ?_
  obtain ⟨task, htask⟩ := exists_left_of_forall₂ h ht
  have hfuzz : (t.fuzzFinding.toList.map fun _ => js "fuzz") =
      t.fuzzFinding.toList.map Finding.channel := by
    apply List.map_congr_left
    intro f hf
    exact ((htask.fuzz f (Option.mem_toList.mp hf)).channel).symm
  rw [hfuzz, ← List.map_append, List.mem_map]
  rfl

/-- The findings of a report. -/
def allFindings (perTask : List TaskAssessment) : List Finding :=
  perTask.flatMap TaskAssessment.findings

/-- How many findings a count counts. -/
def ChannelCount.total (c : ChannelCount) : ℕ := c.opened + c.suspected + c.closed + c.notTested

/-- A finding has one of four statuses. -/
theorem total_of (perTask : List TaskAssessment) (channel : JsString) :
    (ChannelCount.of perTask channel).total =
      (allFindings perTask).countP fun f => f.channel = channel := by
  have hall : perTask.flatMap (fun t => t.findings.filter fun f => f.channel = channel) =
      (allFindings perTask).filter fun f => f.channel = channel := by
    unfold allFindings
    rw [List.filter_flatMap]
  unfold ChannelCount.of ChannelCount.total
  rw [hall, List.countP_eq_length_filter]
  induction (allFindings perTask).filter fun f => f.channel = channel with
  | nil => rfl
  | cons f fs ih =>
    simp only [List.countP_cons, List.length_cons] at ih ⊢
    cases f.status <;> simp <;> omega

/-- No element is left twice. -/
theorem nodup_eraseDups {A : Type} [BEq A] [LawfulBEq A] (xs : List A) : xs.eraseDups.Nodup := by
  induction hn : xs.length using Nat.strong_induction_on generalizing xs with
  | _ n ih =>
    cases xs with
    | nil => exact List.nodup_nil
    | cons x xs =>
      rw [List.eraseDups_cons, List.nodup_cons]
      constructor
      · simp
      · have hlt : (xs.filter fun b => !b == x).length < n := by
          rw [← hn, List.length_cons]
          exact Nat.lt_succ_of_le (List.length_filter_le ..)
        exact ih _ hlt _ rfl

/-- Counting each channel once counts every finding once. -/
theorem sum_countP {fs : List Finding} {channels : List JsString} (hnodup : channels.Nodup)
    (hmem : ∀ f ∈ fs, f.channel ∈ channels) :
    (channels.map fun channel => fs.countP fun f => f.channel = channel).sum = fs.length := by
  induction fs with
  | nil => simp
  | cons f fs ih =>
    rw [List.forall_mem_cons] at hmem
    have hone : (channels.map fun channel => if f.channel = channel then 1 else 0).sum =
        channels.count f.channel := by
      clear ih hmem hnodup
      induction channels with
      | nil => rfl
      | cons c cs ih =>
        rw [List.map_cons, List.sum_cons, ih, List.count_cons, Nat.add_comm]
        congr 1
        by_cases hc : f.channel = c
        · rw [if_pos hc, if_pos (beq_iff_eq.mpr hc.symm)]
        · rw [if_neg hc, if_neg fun heq => hc (beq_iff_eq.mp heq).symm]
    simp only [List.countP_cons, decide_eq_true_eq, List.sum_map_add, List.length_cons]
    rw [ih hmem.2, hone, List.count_eq_one_of_mem hnodup hmem.1]

/-- The findings of all tasks. -/
theorem length_allFindings {tasks : List T} {perTask : List TaskAssessment}
    (h : List.Forall₂ (TaskTold options) tasks perTask) : (allFindings perTask).length =
      tasks.length * (options.canaries.length + options.perturbations.length) +
        perTask.countP fun t => t.fuzzFinding.isSome := by
  unfold allFindings
  induction h with
  | nil => simp
  | @cons task t tasks perTask ht _ ih =>
    have hfuzz : t.fuzzFinding.toList.length = if t.fuzzFinding.isSome then 1 else 0 := by
      cases t.fuzzFinding <;> rfl
    rw [List.flatMap_cons, List.length_append, ih, List.countP_cons, List.length_cons, Nat.succ_mul]
    unfold TaskAssessment.findings
    rw [List.length_append, List.length_append, hfuzz, ← ht.canaries.length_eq,
      ← ht.perturbations.length_eq]
    omega

/-- **Every probe is accounted for.** The tasks are those of the suite, in order; each has a finding
for each canary and each rewriting, in order. The summary has each channel of a finding once, with the
channels that are open most often first, and counts every finding once. -/
theorem assessVerifier_accounts
    (h : ((assessVerifier sqrt options now).run other []).1 = .ok (.ok assessment)) :
    List.Forall₂ (fun task t => t.taskId = options.taskId task ∧
      t.canaryFindings.map Finding.channel = options.canaries.map Canary.id ∧
      t.perturbationFindings.map Finding.channel = options.perturbations.map Perturbation.name)
        options.tasks assessment.report.perTask ∧
    (assessment.report.channelSummary.map ChannelCount.channel).Nodup ∧
    assessment.report.channelSummary.Pairwise (fun a b => b.opened ≤ a.opened) ∧
    (∀ c ∈ assessment.report.channelSummary, c.total =
      (allFindings assessment.report.perTask).countP fun f => f.channel = c.channel) ∧
    (assessment.report.channelSummary.map ChannelCount.total).sum =
      options.tasks.length * (options.canaries.length + options.perturbations.length) +
        assessment.report.perTask.countP fun t => t.fuzzFinding.isSome := by
  obtain ⟨perTask, nondeterministic, st, htold, -, -, heq⟩ := assessVerifier_yields.run h
  obtain rfl := Except.ok.inj heq
  change List.Forall₂ _ options.tasks perTask ∧ ((channelSummary perTask).map _).Nodup ∧
    (channelSummary perTask).Pairwise _ ∧ (∀ c ∈ channelSummary perTask, _) ∧
      ((channelSummary perTask).map _).sum = _ + perTask.countP _
  have hperm : (channelSummary perTask).Perm ((channelNames perTask).map (.of perTask)) :=
    List.mergeSort_perm ..
  have hnodup : (channelNames perTask).Nodup := nodup_eraseDups _
  have hchannels : ((channelNames perTask).map (ChannelCount.of perTask)).map ChannelCount.channel =
      channelNames perTask := by
    rw [List.map_map]
    exact List.map_id _
  refine ⟨?_, ?_, ?_, fun c hc => ?_, ?_⟩
  · refine htold.imp fun task t ht => ⟨congrArg TaskAssessment.taskId ht.eq_of, ht.channels⟩
  · rw [(hperm.map ChannelCount.channel).nodup_iff, hchannels]
    exact hnodup
  · refine (List.pairwise_mergeSort ?_ ?_ _).imp fun h => of_decide_eq_true h
    · intro a b c hab hbc
      rw [decide_eq_true_eq] at *
      exact hbc.trans hab
    · intro a b
      rw [Bool.or_eq_true, decide_eq_true_eq, decide_eq_true_eq]
      exact Nat.le_total ..
  · obtain ⟨channel, -, rfl⟩ := List.mem_map.mp (hperm.mem_iff.mp hc)
    exact total_of perTask channel
  · have htotals : ((channelNames perTask).map (ChannelCount.of perTask)).map ChannelCount.total =
        (channelNames perTask).map fun channel =>
          (allFindings perTask).countP fun f => f.channel = channel := by
      rw [List.map_map]
      exact List.map_congr_left fun channel _ => total_of perTask channel
    rw [(hperm.map ChannelCount.total).sum_eq, htotals, sum_countP hnodup]
    · exact length_allFindings htold
    · intro f hf
      obtain ⟨t, ht, hf⟩ := List.mem_flatMap.mp hf
      exact (mem_channelNames htold).mpr ⟨t, ht, f, hf, rfl⟩

/-- The suite of one canary. -/
theorem assessVerifier_accounts_oneCanary :
    ∃ assessment, ((assessVerifier id oneCanary firstDay).run payAll []).1 = .ok (.ok assessment) ∧
      (assessment.report.channelSummary.map ChannelCount.channel).Nodup := by
  obtain ⟨assessment, h⟩ := @exists_assessment _ _ _ id oneCanary firstDay _ payAll_answers
  exact ⟨assessment, h, (assessVerifier_accounts h).2.1⟩

end AgentEval.Robustness
