import AgentEval.Robustness.Fuzzer

/-!
# What a fuzzer reports

* `Scored` — a gap that a dialogue has in it; `FuzzOptions.replay` — the submission of a lineage.
* `Kept` — what the search keeps through every loop.
* **`fuzzGrader_report`**: the calls that were allowed are the calls that were made, the best
  candidate has the largest gap of all that were scored, and every point that is reported is what its
  lineage reproduces.
-/

namespace AgentEval.Robustness

open Js Dialogue

variable {T S ε : Type}

/-- A call of the grader. -/
def graded (q : T × Question S) : Bool := q.2.isGrade

/-- What was said about one candidate. -/
def answers (task : T) (submission : S) (reward : Number) (solved : Option Number) :
    Past (T × Question S) Number ε :=
  ((task, .grade submission), .ok reward) ::
    solved.toList.map fun v => ((task, .solve submission), .ok v)

/-- A candidate was scored, with this gap. -/
def Scored (oracle : Bool) (past : Past (T × Question S) Number ε) (gap : Number) : Prop :=
  ∃ task submission reward solved, solved.isSome = oracle ∧
    answers task submission reward solved <:+: past ∧
      gap = gapOf (clamp01 reward) (solved.map clamp01)

namespace FuzzOptions

variable (options : FuzzOptions S)

/-- One mutator after the other, by name. -/
def replayFrom (submission : S) (names : List JsString) : Option S :=
  names.foldlM (fun submission name =>
    (options.mutators.find? fun m => m.name = name).bind fun m => m.mutate submission) submission

/-- The mutators named in a lineage, applied in order to the seed of its origin. -/
def replay : List JsString → Option S
  | [] => none
  | origin :: names =>
    (options.seeds.find? fun seed => seed.origin = origin).bind fun seed =>
      options.replayFrom seed.submission names

/-- Every call was allowed when it was made. -/
def Allowed (past : Past (T × Question S) Number ε) : Prop :=
  ∀ i < (asked graded past).length, options.exhausted i = false

/-- The lineage of a candidate reproduces it. -/
def Reproduced (point : FuzzPoint S) : Prop := options.replay point.lineage = some point.submission

end FuzzOptions

/-- What the search keeps. -/
structure Kept (options : FuzzOptions S) (past : Past (T × Question S) Number ε) (st : Search S) :
    Prop where
  calls : (asked graded past).length = st.calls
  allowed : options.Allowed past
  best_none : st.best = none → ∀ gap, ¬ Scored options.oracle past gap
  best_some : ∀ point, st.best = some point → Scored options.oracle past point.gap ∧
    ∀ gap, Scored options.oracle past gap → gap.le point.gap = true
  reproduced : ∀ point, point ∈ st.points ∨ st.best = some point → options.Reproduced point

/-! ## Lineages -/

section

variable {options : FuzzOptions S}

/-- An entry with a name of its own is found by it. -/
theorem find?_eq_of_nodup {α : Type} {name : α → JsString} {xs : List α} {x : α}
    (h : (xs.map name).Nodup) (hx : x ∈ xs) : xs.find? (fun y => name y = name x) = some x := by
  induction xs with
  | nil => exact absurd hx List.not_mem_nil
  | cons y ys ih =>
    rw [List.map_cons, List.nodup_cons] at h
    rcases List.mem_cons.mp hx with rfl | hx
    · exact List.find?_cons_of_pos (by simp)
    · have hne : name y ≠ name x := by
        intro heq
        exact h.1 (heq ▸ List.mem_map_of_mem hx)
      rw [List.find?_cons_of_neg (by simpa using hne), ih h.2 hx]

/-- A lineage begins with the origin of its seed. -/
theorem replay_cons (origin : JsString) (names : List JsString) :
    options.replay (origin :: names) =
      (options.seeds.find? fun seed => seed.origin = origin).bind fun seed =>
        options.replayFrom seed.submission names := rfl

/-- The lineage of a seed. -/
theorem replay_seed (hseeds : (options.seeds.map FuzzSeed.origin).Nodup) {seed : FuzzSeed S}
    (hseed : seed ∈ options.seeds) : options.replay [seed.origin] = some seed.submission := by
  rw [replay_cons, find?_eq_of_nodup hseeds hseed]
  rfl

/-- A mutator more. -/
theorem replay_concat (hmutators : (options.mutators.map Mutator.name).Nodup) {mutator : Mutator S}
    (hmutator : mutator ∈ options.mutators) {lineage : List JsString} {submission mutated : S}
    (hlineage : options.replay lineage = some submission)
    (hmutated : mutator.mutate submission = some mutated) :
    options.replay (lineage ++ [mutator.name]) = some mutated := by
  cases lineage with
  | nil => cases hlineage
  | cons origin names =>
    rw [replay_cons] at hlineage
    obtain ⟨seed, hseed, hfrom⟩ := Option.bind_eq_some_iff.mp hlineage
    rw [List.cons_append, replay_cons, hseed, Option.bind_some]
    unfold FuzzOptions.replayFrom at *
    rw [List.foldlM_append, hfrom]
    simp only [List.foldlM_cons, List.foldlM_nil, find?_eq_of_nodup hmutators hmutator,
      Option.bind_eq_bind, Option.bind_some, hmutated]
    rfl

/-! ## Candidates -/

/-- What was said about one candidate more. -/
theorem scored_append {past : Past (T × Question S) Number ε} {task : T} {submission : S}
    {reward : Number} {solved : Option Number} {oracle : Bool} (hsolved : solved.isSome = oracle)
    {gap : Number} : Scored oracle (past ++ answers task submission reward solved) gap ↔
      Scored oracle past gap ∨ gap = gapOf (clamp01 reward) (solved.map clamp01) := by
  constructor
  · rintro ⟨task', submission', reward', solved', hsolved', ⟨front, back, h⟩, hgap⟩
    cases solved with
    | none =>
      cases solved' with
      | some v' => exact absurd (hsolved'.trans hsolved.symm) (by simp)
      | none =>
        have hmem : ((task', Question.grade submission'), Except.ok reward') ∈
            past ++ answers task submission reward none := by
          rw [← h]
          exact List.mem_append_left _ (List.mem_append_right _ (List.mem_cons_self ..))
        rcases List.mem_append.mp hmem with hpast | hlast
        · left
          obtain ⟨a, b, rfl⟩ := List.append_of_mem hpast
          exact ⟨task', submission', reward', none, hsolved',
            ⟨a, b, by rw [List.append_assoc]; rfl⟩, hgap⟩
        · right
          cases List.mem_singleton.mp hlast
          exact hgap
    | some v =>
      cases solved' with
      | none => exact absurd (hsolved'.trans hsolved.symm) (by simp)
      | some v' =>
        -- the two answers are the last two, or both are before them
        rcases List.eq_nil_or_concat back with rfl | ⟨back, last, rfl⟩
        · right
          rw [List.append_nil] at h
          have hlast := (List.append_inj' h rfl).2
          cases hlast
          exact hgap
        · have hboth : front ++ answers task' submission' reward' (some v') ++ back ++ [last] =
              past ++ [((task, .grade submission), .ok reward)] ++
                [((task, .solve submission), .ok v)] := by
            rw [List.append_assoc past, List.append_assoc _ back, ← List.concat_eq_append]
            exact h
          have hfront := (List.append_inj' hboth rfl).1
          rcases List.eq_nil_or_concat back with rfl | ⟨back, last', rfl⟩
          · exfalso
            rw [List.append_nil] at hfront
            have hlast := congrArg List.getLast? hfront
            unfold answers at hlast
            simp at hlast
          · left
            rw [List.concat_eq_append, ← List.append_assoc] at hfront
            exact ⟨task', submission', reward', some v', hsolved',
              ⟨front, back, (List.append_inj' hfront rfl).1⟩, hgap⟩
  · rintro (⟨task', submission', reward', solved', hsolved', hinfix, hgap⟩ | rfl)
    · exact ⟨task', submission', reward', solved', hsolved',
        hinfix.trans (List.prefix_append past _).isInfix, hgap⟩
    · exact ⟨task, submission, reward, solved, hsolved, (List.suffix_append past _).isInfix, rfl⟩

/-- A gap is a number. -/
theorem FuzzPoint.ne_nan (point : FuzzPoint S) : point.gap ≠ .nan := by
  intro h
  have hfinite := point.finite
  rw [h] at hfinite
  cases hfinite

/-- The better of two is the new one, or the one before it with a gap as large. -/
theorem better_cases (best : Option (FuzzPoint S)) (point : FuzzPoint S) :
    (better best point = some point ∧ ∀ b, best = some b → b.gap.le point.gap = true) ∨
      ∃ b, best = some b ∧ better best point = some b ∧ point.gap.le b.gap = true := by
  cases best with
  | none => exact .inl ⟨rfl, fun b hb => by cases hb⟩
  | some b =>
    have hbetter : better (some b) point = if b.gap.lt point.gap then some point else some b := rfl
    rw [hbetter]
    split_ifs with hlt
    · refine .inl ⟨rfl, fun b' hb' => ?_⟩
      cases hb'
      exact Number.le_of_lt hlt
    · exact .inr ⟨b, rfl, rfl,
        Number.le_of_not_lt b.ne_nan point.ne_nan (Bool.not_eq_true _ ▸ hlt)⟩

section

variable {past : Past (T × Question S) Number ε} {st : Search S}

/-- One call more. -/
theorem Kept.allowed_concat (hst : Kept options past st) (hcalls : options.exhausted st.calls = false)
    (task : T) (submission : S) (answer : Except ε Number) :
    options.Allowed (past ++ [((task, .grade submission), answer)]) := by
  unfold FuzzOptions.Allowed
  rw [asked_concat_counted (by rfl), List.length_append, List.length_singleton, hst.calls]
  intro i hi
  rcases Nat.lt_succ_iff_lt_or_eq.mp hi with hlt | rfl
  · exact hst.allowed i (hst.calls ▸ hlt)
  · exact hcalls

/-- One candidate more is kept. -/
theorem Kept.add (hst : Kept options past st) (hcalls : options.exhausted st.calls = false) (task : T)
    {submission : S} {lineage : List JsString} (unsolving : Bool) (reward : Number)
    {solved : Option Number} (hsolved : solved.isSome = options.oracle)
    (hlineage : options.replay lineage = some submission) :
    Kept options (past ++ answers task submission reward solved)
      ({ st with calls := st.calls + 1 }.add options
        (FuzzPoint.of submission unsolving lineage reward solved)) := by
  set point := FuzzPoint.of submission unsolving lineage reward solved with hpoint
  have hasked : asked graded (past ++ answers task submission reward solved) =
      asked graded (past ++ [((task, Question.grade submission), Except.ok reward)]) := by
    cases solved with
    | none => rfl
    | some v =>
      have hsplit : past ++ answers task submission reward (some v) =
          past ++ [((task, Question.grade submission), Except.ok reward)] ++
            [((task, Question.solve submission), Except.ok v)] := by
        rw [List.append_assoc]
        rfl
      rw [hsplit]
      exact asked_concat_free rfl _ _
  have hallowed := hst.allowed_concat hcalls task submission (.ok reward)
  constructor
  · rw [hasked, asked_concat_counted (by rfl), List.length_append, List.length_singleton, hst.calls]
    rfl
  · unfold FuzzOptions.Allowed at *
    rw [hasked]
    exact hallowed
  · intro hnone
    rcases better_cases st.best point with ⟨h, -⟩ | ⟨b, -, h, -⟩
    · exact absurd (h.symm.trans hnone) (by simp)
    · exact absurd (h.symm.trans hnone) (by simp)
  · intro best hbest
    change better st.best point = some best at hbest
    have hscored : ∀ gap, Scored options.oracle (past ++ answers task submission reward solved) gap ↔
        Scored options.oracle past gap ∨ gap = point.gap := fun gap => scored_append hsolved
    rcases better_cases st.best point with ⟨h, hle⟩ | ⟨b, hb, h, hle⟩
    · obtain rfl : best = point := Option.some.inj (hbest.symm.trans h)
      refine ⟨(hscored _).mpr (.inr rfl), fun gap hgap => ?_⟩
      rcases (hscored gap).mp hgap with hgap | rfl
      · cases hold : st.best with
        | none => exact absurd hgap (hst.best_none hold gap)
        | some b => exact Number.le_trans ((hst.best_some b hold).2 gap hgap) (hle b hold)
      · exact Number.le_refl point.ne_nan
    · obtain rfl : best = b := Option.some.inj (hbest.symm.trans h)
      obtain ⟨hold, hmax⟩ := hst.best_some best hb
      refine ⟨(hscored _).mpr (.inl hold), fun gap hgap => ?_⟩
      rcases (hscored gap).mp hgap with hgap | rfl
      · exact hmax gap hgap
      · exact hle
  · have hnew : options.Reproduced point := hlineage
    rintro p (hp | hp)
    · change p ∈ (if _ then st.points ++ [point] else st.points) at hp
      split_ifs at hp with hfloor
      · rcases List.mem_append.mp hp with hp | hp
        · exact hst.reproduced p (.inl hp)
        · rw [List.mem_singleton.mp hp]
          exact hnew
      · exact hst.reproduced p (.inl hp)
    · change better st.best point = some p at hp
      rcases better_cases st.best point with ⟨h, -⟩ | ⟨b, hb, h, -⟩
      · rw [← Option.some.inj (h.symm.trans hp)]
        exact hnew
      · rw [← Option.some.inj (h.symm.trans hp)]
        exact hst.reproduced b (.inr hb)

/-! ## The loops -/

/-- The oracle is asked after the grader, where there is one. -/
theorem solveOf_meets {task : T} {submission : S} {reward : Number}
    (hallowed : options.Allowed (past ++ [((task, .grade submission), .ok reward)])) :
    (solveOf (Prod.mk task) options submission).Meets options.Allowed
      (fun past' solved => solved.isSome = options.oracle ∧
        past' = past ++ answers task submission reward solved)
      (past ++ [((task, .grade submission), .ok reward)]) := by
  unfold solveOf
  split_ifs with horacle
  · apply Meets.put
    · intro e
      unfold FuzzOptions.Allowed at *
      rw [asked_concat_free (by rfl)]
      exact hallowed
    · intro v
      refine Meets.pure ⟨horacle.symm, ?_⟩
      rw [List.append_assoc]
      rfl
  · exact Meets.pure ⟨(Bool.not_eq_true _ ▸ horacle : options.oracle = false).symm, rfl⟩

/-- What is kept of a candidate: it is reproduced by the lineage it was scored with. -/
theorem score_meets (hst : Kept options past st) (task : T) {submission : S} {lineage : List JsString}
    (unsolving : Bool) (hlineage : options.replay lineage = some submission) :
    (score (Prod.mk task) options submission unsolving lineage st).Meets options.Allowed
      (fun past r => Kept options past r.2 ∧ ∀ point, r.1 = some point → options.Reproduced point)
      past := by
  unfold score
  split_ifs with hcalls
  · exact Meets.pure ⟨hst, fun point hpoint => by cases hpoint⟩
  · rw [Bool.not_eq_true] at hcalls
    apply Meets.put (fun e => hst.allowed_concat hcalls task submission (.error e))
    intro reward
    apply (solveOf_meets (hst.allowed_concat hcalls task submission (.ok reward))).bind
    rintro past' solved ⟨hsolved, rfl⟩
    refine Meets.pure ⟨hst.add hcalls task unsolving reward hsolved hlineage, fun point hpoint => ?_⟩
    rw [← Option.some.inj hpoint]
    exact hlineage

variable (hmutators : (options.mutators.map Mutator.name).Nodup)

include hmutators

/-- What is kept of the neighbours of a candidate. -/
theorem sweep_meets (task : T) {current : FuzzPoint S} (hcurrent : options.Reproduced current)
    (unsolving : Bool) {mutators : List (Mutator S)} (hsub : ∀ m ∈ mutators, m ∈ options.mutators)
    {bestNeighbour : Option (FuzzPoint S)}
    (hbest : ∀ point, bestNeighbour = some point → options.Reproduced point)
    (hst : Kept options past st) :
    (sweep (Prod.mk task) options current unsolving mutators bestNeighbour st).Meets options.Allowed
      (fun past r => Kept options past r.2 ∧ ∀ point, r.1 = some point → options.Reproduced point)
      past := by
  induction mutators generalizing bestNeighbour past st with
  | nil => exact Meets.pure ⟨hst, hbest⟩
  | cons mutator mutators ih =>
    rw [List.forall_mem_cons] at hsub
    unfold sweep
    split_ifs with hcalls
    · exact Meets.pure ⟨hst, hbest⟩
    · cases hmutated : mutator.mutate current.submission with
      | none => exact ih hsub.2 hbest hst
      | some mutated =>
        apply (score_meets hst task unsolving
          (replay_concat hmutators hsub.1 hcurrent hmutated)).bind
        rintro past' ⟨candidate, st'⟩ ⟨hst', hcandidate⟩
        apply ih hsub.2 _ hst'
        intro point hpoint
        cases candidate with
        | none => exact hbest point hpoint
        | some candidate =>
          change better bestNeighbour candidate = some point at hpoint
          rcases better_cases bestNeighbour candidate with ⟨h, -⟩ | ⟨b, hb, h, -⟩
          · exact hcandidate point (congrArg some (Option.some.inj (h.symm.trans hpoint)))
          · exact hbest point (hb.trans (congrArg some (Option.some.inj (h.symm.trans hpoint))))

/-- What is kept of a climb. -/
theorem climb_meets (task : T) (unsolving : Bool) {current : FuzzPoint S}
    (hcurrent : options.Reproduced current) (step : ℕ) (hst : Kept options past st) :
    (climb (Prod.mk task) options unsolving current step st).Meets options.Allowed
      (fun past st => Kept options past st) past := by
  fun_induction climb (Prod.mk task) options unsolving current step st generalizing past with
  | case1 current step st h => exact Meets.pure hst
  | case2 current step st h hcalls => exact Meets.pure hst
  | case3 current step st h hcalls ih =>
    apply (sweep_meets hmutators task hcurrent unsolving (fun m hm => hm)
      (fun point hpoint => by cases hpoint) hst).bind
    rintro past' ⟨neighbour, st'⟩ ⟨hst', hneighbour⟩
    cases neighbour with
    | none => exact Meets.pure hst'
    | some neighbour =>
      dsimp only
      split_ifs with hle
      · exact Meets.pure hst'
      · exact ih _ _ hle (hneighbour neighbour rfl) hst'

/-- What is kept of the seeds. -/
theorem climbAll_meets (hseeds : (options.seeds.map FuzzSeed.origin).Nodup) (task : T)
    {seeds : List (FuzzSeed S)} (hsub : ∀ seed ∈ seeds, seed ∈ options.seeds)
    (hst : Kept options past st) :
    (climbAll (Prod.mk task) options seeds st).Meets options.Allowed
      (fun past st => Kept options past st) past := by
  induction seeds generalizing past st with
  | nil => exact Meets.pure hst
  | cons seed seeds ih =>
    rw [List.forall_mem_cons] at hsub
    unfold climbAll
    split_ifs with hcalls
    · exact Meets.pure hst
    · apply (score_meets hst task seed.provablyUnsolving (replay_seed hseeds hsub.1)).bind
      rintro past' ⟨current, st'⟩ ⟨hst', hcurrent⟩
      cases current with
      | none => exact Meets.pure hst'
      | some current =>
        apply (climb_meets hmutators task seed.provablyUnsolving (hcurrent current rfl) 0 hst').bind
        exact fun past st hst => ih hsub.2 hst

end

end

/-- A search has nothing at first. -/
theorem kept_nil (options : FuzzOptions S) :
    Kept options ([] : Past (T × Question S) Number ε) ⟨0, [], none⟩ := by
  constructor
  · rfl
  · intro i hi
    exact absurd hi (Nat.not_lt_zero i)
  · rintro - gap ⟨task, submission, reward, solved, -, hinfix, -⟩
    exact List.cons_ne_nil _ _ (List.infix_nil.mp hinfix)
  · intro point hpoint
    cases hpoint
  · rintro point (hpoint | hpoint)
    · exact absurd hpoint List.not_mem_nil
    · cases hpoint

/-- **The report of a search is true.** Whatever the grader and the oracle answer: no more calls are
made than the limit, rounded up; the search returns unless an answer fails; its best candidate has
the largest gap of all that were scored; and each point is what its lineage reproduces. -/
theorem fuzzGrader_report (options : FuzzOptions S)
    (hseeds : (options.seeds.map FuzzSeed.origin).Nodup)
    (hmutators : (options.mutators.map Mutator.name).Nodup) (task : T)
    (other : Other (T × Question S) Number ε) :
    (∀ n : ℕ, options.maxGraderCalls.le (.ofNat n) = true →
      (asked graded ((fuzzGrader (Prod.mk task) options).run other []).2).length ≤ n) ∧
    ((∀ past q e, other past q ≠ .error e) →
      ∃ result, ((fuzzGrader (Prod.mk task) options).run other []).1 = .ok result) ∧
    ∀ result, ((fuzzGrader (Prod.mk task) options).run other []).1 = .ok result →
      result.graderCalls =
        (asked graded ((fuzzGrader (Prod.mk task) options).run other []).2).length ∧
      (result.best = none →
        ∀ gap, ¬ Scored options.oracle ((fuzzGrader (Prod.mk task) options).run other []).2 gap) ∧
      (∀ best, result.best = some best →
        Scored options.oracle ((fuzzGrader (Prod.mk task) options).run other []).2 best.gap ∧
          ∀ gap, Scored options.oracle ((fuzzGrader (Prod.mk task) options).run other []).2 gap →
            gap.le best.gap = true) ∧
      ∀ point, point ∈ result.points ∨ result.best = some point →
        options.replay point.lineage = some point.submission := by
  have hmeets : (fuzzGrader (Prod.mk task) options).Meets options.Allowed
      (fun past result => Kept options past ⟨result.graderCalls, result.points, result.best⟩)
      ([] : Past (T × Question S) Number ε) := by
    apply (climbAll_meets hmutators hseeds task (fun seed hseed => hseed) (kept_nil options)).bind
    exact fun past st hst => Meets.pure hst
  obtain ⟨hok, hfailed⟩ := hmeets.run other
  refine ⟨fun n hn => ?_, fun hother => exists_run_eq_ok hother _ _, fun result hresult => ?_⟩
  · have hallowed : options.Allowed ((fuzzGrader (Prod.mk task) options).run other []).2 := by
      cases hrun : ((fuzzGrader (Prod.mk task) options).run other []).1 with
      | error e => exact hfailed e hrun
      | ok result => exact (hok result hrun).allowed
    by_contra hmore
    have hn' := hallowed n (not_le.mp hmore)
    unfold FuzzOptions.exhausted at hn'
    rw [hn] at hn'
    cases hn'
  · have hkept := hok result hresult
    exact ⟨hkept.calls.symm, hkept.best_none, hkept.best_some, hkept.reproduced⟩

/-- Two seeds that are scored and not climbed from, with a limit of one and a half calls. -/
def twoSeeds : FuzzOptions ℕ where
  seeds := [⟨js "a", 0, true⟩, ⟨js "b", 1, true⟩]
  mutators := []
  maxGraderCalls := .ofRat (3 / 2)
  maxStepsPerSeed := some (.ofNat 0)
  oracle := false
  rewardFloor := none

/-- A grader that pays everything. -/
def payAll : Other (Unit × Question ℕ) Number Unit := fun _ _ => .ok (.ofNat 1)

/-- The two seeds with that grader. -/
theorem fuzzGrader_report_twoSeeds :
    ∃ result, ((fuzzGrader (Prod.mk ()) twoSeeds).run payAll []).1 = .ok result ∧
      result.graderCalls =
        (asked graded ((fuzzGrader (Prod.mk ()) twoSeeds).run payAll []).2).length := by
  obtain ⟨-, hreturns, hresult⟩ := fuzzGrader_report twoSeeds
    (by change [js "a", js "b"].Nodup; decide) List.nodup_nil () payAll
  obtain ⟨result, h⟩ := hreturns fun past q e => by simp [payAll]
  exact ⟨result, h, (hresult result h).1⟩

/-- The limit of the two seeds. -/
theorem limit_twoSeeds :
    ∃ h, twoSeeds.maxGraderCalls = .finite ⟨3 / 2, h⟩ :=
  ⟨⟨3, -1, by norm_num⟩, Number.ofRat_of_isDouble _⟩

/-- A second call is allowed. -/
theorem exhausted_twoSeeds {n : ℕ} (hn : n < 2) : twoSeeds.exhausted n = false := by
  obtain ⟨_, hlimit⟩ := limit_twoSeeds
  unfold FuzzOptions.exhausted
  rw [hlimit, Number.ofNat_eq (by omega), Number.le_finite, decide_eq_false_iff_not, not_le]
  have : (n : ℚ) ≤ 1 := by exact_mod_cast Nat.le_of_lt_succ hn
  change (n : ℚ) < 3 / 2
  linarith

/-- There is no step. -/
theorem climb_twoSeeds (current : FuzzPoint ℕ) (st : Search ℕ) :
    climb (Prod.mk ()) twoSeeds true current 0 st = pure st := by
  have hsteps : (!(Number.ofNat 0).lt (twoSeeds.maxStepsPerSeed.getD (.ofNat 8))) = true := by
    change (!(Number.ofNat 0).lt (.ofNat 0)) = true
    rw [Number.lt_ofNat (by norm_num) (by norm_num)]
    rfl
  unfold climb
  rw [if_pos hsteps]

/-- A seed is scored, and that is all. -/
theorem climbAll_twoSeeds (origin : JsString) (submission : ℕ) (seeds : List (FuzzSeed ℕ))
    {st : Search ℕ} (hst : st.calls < 2) :
    climbAll (Prod.mk ()) twoSeeds (⟨origin, submission, true⟩ :: seeds) st =
      .ask ((), .grade submission) fun answer => climbAll (Prod.mk ()) twoSeeds seeds
        ({ st with calls := st.calls + 1 }.add twoSeeds
          (.of submission true [origin] answer none)) := by
  conv_lhs => unfold climbAll
  unfold score
  rw [exhausted_twoSeeds hst]
  change Dialogue.ask _ _ = _
  congr 1
  funext answer
  change (climb _ _ true _ 0 _).bind _ = _
  rw [climb_twoSeeds]
  rfl

/-- **Two calls, with a limit of one and a half.** -/
theorem more_calls_than_limit : ¬ ∀ (options : FuzzOptions ℕ)
    (other : Other (Unit × Question ℕ) Number Unit),
    (options.seeds.map FuzzSeed.origin).Nodup → (options.mutators.map Mutator.name).Nodup →
      (Number.ofNat (asked graded ((fuzzGrader (Prod.mk ()) options).run other []).2).length).le
        options.maxGraderCalls = true := by
  intro h
  have hle := h twoSeeds payAll (by change [js "a", js "b"].Nodup; decide) List.nodup_nil
  have hcalls : asked graded ((fuzzGrader (Prod.mk ()) twoSeeds).run payAll []).2 =
      [((), .grade 0), ((), .grade 1)] := by
    change asked graded (run payAll ((climbAll _ _ [⟨js "a", 0, true⟩, ⟨js "b", 1, true⟩] _).bind _)
      []).2 = _
    rw [climbAll_twoSeeds _ _ _ (by norm_num)]
    change asked graded (run payAll ((climbAll _ _ [⟨js "b", 1, true⟩] _).bind _)
      [(((), .grade 0), .ok (.ofNat 1))]).2 = _
    rw [climbAll_twoSeeds _ _ _ (by change 1 < 2; norm_num)]
    rfl
  obtain ⟨_, hlimit⟩ := limit_twoSeeds
  rw [hcalls, hlimit, List.length_cons, List.length_singleton,
    Number.ofNat_eq (by norm_num), Number.le_finite, decide_eq_true_eq] at hle
  norm_num at hle

end AgentEval.Robustness
