import AgentEval.Robustness.Assess
import AgentEval.Robustness.FuzzReport

/-!
# The calls that an assessment makes

* **`fuzzGrader_keeps`**: what scoring one candidate keeps, a whole search keeps.
* `Called` — the calls of a search are counted, and within the limit.
* `Spent` — the same of an assessment; kept by every probe.
* **`assessVerifier_calls`**: however the grader and the oracle answer, an assessment makes no more
  calls than it may, and reports those that it made.
-/

namespace AgentEval.Robustness

open Js Dialogue

variable {T S ε : Type}

/-- How many calls were made. -/
def callsIn (past : Past (T × Question S) Number ε) : ℕ := (asked graded past).length

/-- A call more. -/
theorem callsIn_grade (past : Past (T × Question S) Number ε) (task : T) (submission : S)
    (answer : Except ε Number) :
    callsIn (past ++ [((task, .grade submission), answer)]) = callsIn past + 1 := by
  unfold callsIn
  rw [asked_concat_counted (by rfl), List.length_append]
  rfl

/-- The oracle is not the grader. -/
theorem callsIn_solve (past : Past (T × Question S) Number ε) (task : T) (submission : S)
    (answer : Except ε Number) :
    callsIn (past ++ [((task, .solve submission), answer)]) = callsIn past := by
  unfold callsIn
  rw [asked_concat_free (by rfl)]

/-! ## A search -/

section search

variable {options : FuzzOptions S} {past : Past (T × Question S) Number ε} {st : Search S}
  {fails : Past (T × Question S) Number ε → Prop}
  {keeps : Past (T × Question S) Number ε → Search S → Prop} {task : T}

/-- Scoring a candidate keeps a property of what was said and of the search. -/
def ScoreKeeps (options : FuzzOptions S) (task : T) (fails : Past (T × Question S) Number ε → Prop)
    (keeps : Past (T × Question S) Number ε → Search S → Prop) : Prop :=
  ∀ (past : Past (T × Question S) Number ε) (st : Search S) (submission : S) (unsolving : Bool)
    (lineage : List JsString), keeps past st →
      (score (Prod.mk task) options submission unsolving lineage st).Meets fails
        (fun past r => keeps past r.2) past

variable (h : ScoreKeeps options task fails keeps)

include h

/-- The neighbours of a candidate keep it. -/
theorem sweep_keeps (hst : keeps past st) (current : FuzzPoint S) (unsolving : Bool)
    (mutators : List (Mutator S)) (bestNeighbour : Option (FuzzPoint S)) :
    (sweep (Prod.mk task) options current unsolving mutators bestNeighbour st).Meets fails
      (fun past r => keeps past r.2) past := by
  induction mutators generalizing bestNeighbour past st with
  | nil => exact Meets.pure hst
  | cons mutator mutators ih =>
    unfold sweep
    split_ifs with hcalls
    · exact Meets.pure hst
    · cases mutator.mutate current.submission with
      | none => exact ih hst _
      | some mutated =>
        apply (h past st _ _ _ hst).bind
        exact fun past r hr => ih hr _

/-- The steps from a candidate keep it. -/
theorem climb_keeps (hst : keeps past st) (unsolving : Bool) (current : FuzzPoint S) (step : ℕ) :
    (climb (Prod.mk task) options unsolving current step st).Meets fails keeps past := by
  fun_induction climb (Prod.mk task) options unsolving current step st generalizing past with
  | case1 current step st _ => exact Meets.pure hst
  | case2 current step st _ _ => exact Meets.pure hst
  | case3 current step st _ _ ih =>
    apply (sweep_keeps h hst _ _ _ _).bind
    rintro past' ⟨neighbour, st'⟩ hst'
    cases neighbour with
    | none => exact Meets.pure hst'
    | some neighbour =>
      dsimp only
      split_ifs with hle
      · exact Meets.pure hst'
      · exact ih _ _ hle hst'

/-- The seeds keep it. -/
theorem climbAll_keeps (hst : keeps past st) (seeds : List (FuzzSeed S)) :
    (climbAll (Prod.mk task) options seeds st).Meets fails keeps past := by
  induction seeds generalizing past st with
  | nil => exact Meets.pure hst
  | cons seed seeds ih =>
    unfold climbAll
    split_ifs with hcalls
    · exact Meets.pure hst
    · apply (h past st _ _ _ hst).bind
      rintro past' ⟨current, st'⟩ hst'
      cases current with
      | none => exact Meets.pure hst'
      | some current => exact (climb_keeps h hst' _ current 0).bind fun _ _ hst => ih hst

/-- **What scoring one candidate keeps, a whole search keeps.** -/
theorem fuzzGrader_keeps (hst : keeps past ⟨0, [], none⟩) :
    (fuzzGrader (Prod.mk task) options).Meets fails
      (fun past result => keeps past ⟨result.graderCalls, result.points, result.best⟩) past :=
  (climbAll_keeps h hst options.seeds).bind fun _ _ hst => Meets.pure hst

end search

/-! ## The calls of a search -/

section called

variable {n base : ℕ} {options : FuzzOptions S} {past : Past (T × Question S) Number ε}

/-- There were `base` calls before a search, and there are `n` at most with those of the search. -/
structure Called (n base : ℕ) (past : Past (T × Question S) Number ε) (calls : ℕ) : Prop where
  calls_eq : callsIn past = base + calls
  le : base + calls ≤ n

/-- A search that is not exhausted has a call left. -/
def Leaves (n base : ℕ) (options : FuzzOptions S) : Prop :=
  ∀ calls, options.exhausted calls = false → base + calls < n

/-- Scoring a candidate keeps to the limit. -/
theorem score_called (hleaves : Leaves n base options) (task : T) :
    ScoreKeeps options task (fun past : Past (T × Question S) Number ε => callsIn past ≤ n)
      (fun past st => Called n base past st.calls) := by
  intro past st submission unsolving lineage hst
  unfold score
  split_ifs with hcalls
  · exact Meets.pure hst
  · have hlt := hleaves st.calls (Bool.not_eq_true _ ▸ hcalls)
    have hnext : ∀ answer, callsIn (past ++ [((task, .grade submission), answer)]) =
        base + (st.calls + 1) := fun answer => by
      rw [callsIn_grade, hst.calls_eq, Nat.add_assoc]
    apply Meets.put (fun e => (hnext (.error e)).trans_le hlt)
    intro answer
    unfold solveOf
    split_ifs
    · refine Meets.put (fun e => ?_) fun v => Meets.pure ⟨?_, hlt⟩
      · rw [callsIn_solve, hnext]
        exact hlt
      · rw [callsIn_solve, hnext]
        rfl
    · exact Meets.pure ⟨hnext _, hlt⟩

end called

/-! ## The probes -/

section probes

variable {n : ℕ} {sqrt : Number → Number} {options : AssessOptions T S}
  {past : Past (T × Question S) Number ε} {st : Progress}

/-- The calls of an assessment are counted, and there are `n` at most. -/
abbrev Spent (n : ℕ) (past : Past (T × Question S) Number ε) (st : Progress) : Prop :=
  Called n 0 past st.graderCalls

/-- A probe keeps to the limit. -/
def KeepsTo (ε : Type) (n : ℕ) {α : Type} (probe : Progress → Probing T S (α × Progress)) : Prop :=
  ∀ (past : Past (T × Question S) Number ε) (st : Progress), Spent n past st →
    (probe st).Meets (fun past => callsIn past ≤ n) (fun past r => Spent n past r.2) past

/-- One probe after the other. -/
theorem collect_keepsTo {A B : Type} {probe : A → Progress → Probing T S (B × Progress)}
    (h : ∀ a, KeepsTo ε n (probe a)) (as : List A) : KeepsTo ε n (collect probe as) := by
  intro past st hst
  induction as generalizing past st with
  | nil => exact Meets.pure hst
  | cons a as ih =>
    apply (h a past st hst).bind
    intro past r hr
    apply (ih past r.2 hr).bind
    exact fun _ _ h => Meets.pure h

variable (hn : n < 2 ^ 53) (hlimit : options.limit = .ofNat n)

include hn hlimit

/-- A call. -/
theorem gradeOnce_keepsTo (task : T) (submission : S) :
    KeepsTo ε n (gradeOnce options task submission) := by
  intro past st hst
  unfold gradeOnce
  rw [hlimit]
  split_ifs with hcalls
  · exact Meets.pure hst
  · have hlt : st.graderCalls < n := by
      have hle := hst.le
      rw [Number.le_ofNat hn (by omega), decide_eq_true_eq] at hcalls
      omega
    have hnext : ∀ answer, callsIn (past ++ [((task, .grade submission), answer)]) =
        0 + (st.graderCalls + 1) := fun answer => by
      rw [callsIn_grade, hst.calls_eq, Nat.add_assoc]
    refine Meets.put (fun e => ?_) fun answer => Meets.pure ⟨hnext _, ?_⟩
    · rw [hnext]
      omega
    · change 0 + (st.graderCalls + 1) ≤ n
      omega

/-- Several calls. -/
theorem gradeTimes_keepsTo (task : T) (submission : S) (times : ℕ) (rewards : List Number) :
    KeepsTo ε n (gradeTimes options task submission times rewards) := by
  intro past st hst
  induction times generalizing rewards past st with
  | zero => exact Meets.pure hst
  | succ times ih =>
    unfold gradeTimes
    apply (gradeOnce_keepsTo hn hlimit task submission past st hst).bind
    rintro past ⟨reward, st⟩ hst
    cases reward with
    | none => exact Meets.pure hst
    | some reward => exact ih _ _ _ hst

/-- The grades of one probe. -/
theorem gradeRepeated_keepsTo (task : T) (submission : S) :
    KeepsTo ε n (gradeRepeated sqrt options task submission) := by
  intro past st hst
  unfold gradeRepeated
  apply (gradeTimes_keepsTo hn hlimit task submission _ [] past st hst).bind
  rintro past ⟨rewards, st⟩ hst
  dsimp only
  split_ifs <;> exact Meets.pure hst

/-- The determinism probe. -/
theorem probeDeterminism_keepsTo : KeepsTo ε n (probeDeterminism sqrt options) := by
  intro past st hst
  unfold probeDeterminism
  cases options.tasks.head? with
  | none => exact Meets.pure hst
  | some task =>
    dsimp only
    split_ifs with hsamples
    · exact Meets.pure hst
    · cases options.probeSubmission task with
      | none => exact Meets.pure hst
      | some submission =>
        apply (gradeTimes_keepsTo hn hlimit task submission _ [] past st hst).bind
        exact fun _ _ h => Meets.pure h

/-- A canary. -/
theorem testCanary_keepsTo (task : T) (canary : Canary T S) :
    KeepsTo ε n (testCanary sqrt options task canary) := by
  intro past st hst
  unfold testCanary
  cases canary.build task with
  | none => exact Meets.pure hst
  | some submission =>
    apply (gradeRepeated_keepsTo hn hlimit task submission past st hst).bind
    rintro past ⟨graded, st⟩ hst
    cases graded with
    | none => exact Meets.pure hst
    | some graded => exact Meets.pure hst

/-- A rewriting. -/
theorem testPerturbation_keepsTo (task : T) (reference : S) (baseline : Option Graded)
    (perturbation : Perturbation T S) :
    KeepsTo ε n (testPerturbation sqrt options task reference baseline perturbation) := by
  intro past st hst
  unfold testPerturbation
  cases baseline with
  | none => exact Meets.pure hst
  | some baseline =>
    cases perturbation.apply task reference with
    | none => exact Meets.pure hst
    | some rewritten =>
      apply (gradeRepeated_keepsTo hn hlimit rewritten.1 rewritten.2 past st hst).bind
      rintro past ⟨after, st⟩ hst
      cases after with
      | none => exact Meets.pure hst
      | some after => exact Meets.pure hst

/-- The rewritings of a task. -/
theorem testPerturbations_keepsTo (task : T) :
    KeepsTo ε n (testPerturbations sqrt options task) := by
  intro past st hst
  unfold testPerturbations
  cases options.referenceSubmission.bind fun reference => reference task with
  | none => exact Meets.pure hst
  | some reference =>
    apply (gradeRepeated_keepsTo hn hlimit task reference past st hst).bind
    rintro past ⟨baseline, st⟩ hst
    exact collect_keepsTo (testPerturbation_keepsTo hn hlimit task reference baseline) _ past st hst

/-- A search stops when no call is left. -/
theorem leaves_fuzzOptions {fuzz : FuzzConfig S} (hfuzz : fuzz.maxGraderCallsPerTask ≠ some .nan)
    (task : T) {base : ℕ} (hbase : base ≤ n) :
    Leaves n base (options.fuzzOptions fuzz task base) := by
  intro calls hcalls
  by_contra hmore
  have hcap : fuzz.maxGraderCallsPerTask.getD (.ofNat 40) ≠ .nan := by
    cases h : fuzz.maxGraderCallsPerTask with
    | none =>
      intro heq
      rw [Option.getD_none, Number.ofNat_eq (by norm_num)] at heq
      cases heq
    | some cap => exact fun heq => hfuzz (h.trans (congrArg some heq))
  have hleft : options.limit - Number.ofNat base = .ofNat (n - base) := by
    rw [hlimit]
    exact Number.sub_ofNat hn hbase
  have hne : Number.ofNat (n - base) ≠ .nan := by
    rw [Number.ofNat_eq (by omega)]
    exact fun heq => by cases heq
  have hmin := (Number.min_spec hcap hne).2.2
  have hexhausted : (options.fuzzOptions fuzz task base).exhausted calls = true := by
    unfold FuzzOptions.exhausted AssessOptions.fuzzOptions
    rw [hleft]
    apply Number.le_trans hmin
    rcases lt_or_ge calls (2 ^ 53) with hsmall | hlarge
    · rw [Number.le_ofNat (by omega) hsmall, decide_eq_true_eq]
      omega
    · exact Number.le_ofRat (by omega) (by exact_mod_cast (by omega : n - base ≤ calls))
  rw [hexhausted] at hcalls
  cases hcalls

variable (hfuzz : ∀ fuzz, options.fuzz = some fuzz → fuzz.maxGraderCallsPerTask ≠ some .nan)

include hfuzz

/-- The search of a task. -/
theorem fuzzTask_keepsTo (task : T) : KeepsTo ε n (fuzzTask options task) := by
  intro past st hst
  unfold fuzzTask
  cases hsome : options.fuzz with
  | none => exact Meets.pure hst
  | some fuzz =>
    dsimp only
    split_ifs with hcalls hseeds
    · exact Meets.pure hst
    · exact Meets.pure hst
    · have hbase : st.graderCalls ≤ n := (Nat.zero_add _).symm.trans_le hst.le
      have hpast : Called n st.graderCalls past 0 := by
        refine ⟨?_, hbase⟩
        rw [hst.calls_eq, Nat.zero_add, Nat.add_zero]
      have hleaves := leaves_fuzzOptions hn hlimit (hfuzz fuzz hsome) task hbase
      apply (fuzzGrader_keeps (score_called hleaves task) (by exact hpast)).bind
      intro past result hresult
      have hst' : Called n 0 past (st.graderCalls + result.graderCalls) :=
        ⟨hresult.calls_eq.trans (Nat.zero_add _).symm, (Nat.zero_add _).trans_le hresult.le⟩
      cases result.best with
      | none => exact Meets.pure hst'
      | some best =>
        dsimp only
        split_ifs <;> exact Meets.pure hst'

/-- A task. -/
theorem assessTask_keepsTo (task : T) : KeepsTo ε n (assessTask sqrt options task) := by
  intro past st hst
  unfold assessTask
  apply (collect_keepsTo (testCanary_keepsTo hn hlimit task) options.canaries past st hst).bind
  rintro past ⟨canaryFindings, st⟩ hst
  apply (testPerturbations_keepsTo hn hlimit task past st hst).bind
  rintro past ⟨perturbationFindings, st⟩ hst
  apply (fuzzTask_keepsTo hn hlimit hfuzz task past st hst).bind
  exact fun _ _ h => Meets.pure h

end probes

/-- A suite of one task with one canary, and two calls to spend on it. -/
def oneCanary : AssessOptions Unit ℕ where
  suiteId := js "suite"
  tasks := [()]
  taskId := fun _ => js "task"
  canaries := [⟨js "empty", js "Nothing was submitted.", fun _ => some 0⟩]
  perturbations := []
  referenceSubmission := none
  oracle := false
  repeats := none
  determinismSamples := none
  rewardThreshold := none
  maxGraderCalls := some (.ofNat 2)
  fuzz := none

/-- The beginning of the count of time. -/
def firstDay : TimeValue := ⟨0, TimeValue.zero_inRange⟩

end AgentEval.Robustness
