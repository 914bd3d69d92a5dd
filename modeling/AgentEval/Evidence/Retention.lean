import AgentEval.Js.Object

/-!
# `retention.ts`: how long evidence is kept

Overlapping rules resolve into one period: the longest floor wins, and a ceiling below it is an
error.

* **`le_governing`**: among rules that have a floor, the governing one has the longest.
* **`resolveRetention_eq`**, `exists_rules_of_resolveRetention`: what resolves is a list of known
  rules, since none of them has a ceiling.
-/

namespace AgentEval.Evidence

open Js

/-- What `STANDARD_RULES[id]` gives. A function that the object inherits has none of the properties.
Source: `retention.ts`, `RetentionRule` -/
structure RetentionRule where
  /-- Short identifier. -/
  id : Option JsString
  /-- The provision this comes from. -/
  basis : Option JsString
  /-- The floor. -/
  minimumDays : Option ℕ
  /-- The ceiling, when there is one. -/
  maximumDays : Option ℕ

/-- Source: `retention.ts`, `ART_19_MINIMUM_DAYS` -/
def art19MinimumDays : ℕ := 183

/-- One of the standard rules, none of which has a ceiling. -/
def standardRule (id basis : JsString) (minimumDays : ℕ) : JsString × RetentionRule :=
  (id, ⟨some id, some basis, some minimumDays, none⟩)

/-- Rules shipped by default.
Source: `retention.ts`, `STANDARD_RULES` -/
def standardRules : List (JsString × RetentionRule) :=
  [standardRule (js "eu-ai-act-art-19")
      (js "EU AI Act Art. 19 — automatically generated logs, at least six months")
      art19MinimumDays,
    standardRule (js "eu-ai-act-annex-iv")
      (js "EU AI Act Art. 11 + Annex IV — technical documentation, ten years") 3653,
    standardRule (js "hipaa-164-316")
      (js "HIPAA §164.316(b)(2)(i) — documentation retained six years") 2191,
    standardRule (js "sox-17a-4") (js "SEC 17a-4 — records preserved, commonly six years") 2191,
    standardRule (js "gdpr-storage-limitation")
      (js "GDPR Art. 5(1)(e) — kept no longer than necessary") 0]

/-- The properties every object inherits. -/
def objectPrototypeKeys : List JsString :=
  [js "constructor", js "__defineGetter__", js "__defineSetter__", js "hasOwnProperty",
    js "__lookupGetter__", js "__lookupSetter__", js "isPrototypeOf", js "propertyIsEnumerable",
    js "toString", js "valueOf", js "__proto__", js "toLocaleString"]

/-- `STANDARD_RULES[id]`. -/
def lookupRule (id : JsString) : Option RetentionRule :=
  match standardRules.lookup id with
  | some rule => some rule
  | none => if id ∈ objectPrototypeKeys then some ⟨none, none, none, none⟩ else none

/-- Source: `retention.ts`, `RetentionError` -/
def retentionError (message : JsString) : JsError := ⟨js "RetentionError", message⟩

/-- The error for an unknown rule. -/
def unknownRule (id : JsString) : JsError :=
  retentionError (js "unknown retention rule \"" ++ id ++ js "\". Known rules: " ++
    (js ", ").intercalate (standardRules.map Prod.fst))

/-- Source: `retention.ts`, `ResolvedRetention` -/
structure ResolvedRetention where
  /-- Days the evidence must be kept. -/
  retainForDays : Option ℕ
  /-- The end of that period; the date may be invalid. -/
  retainUntil : Option TimeValue
  /-- The rule that set the floor. -/
  governingRule : Option JsString
  /-- Every rule considered. -/
  applied : List RetentionRule
  /-- Ceiling, when any rule imposes one. -/
  deleteByDays : Option ℕ
  /-- Its date. -/
  deleteBy : Option (Option TimeValue)

/-- `a > b`, where a missing number compares as NaN. -/
def exceeds (a b : Option ℕ) : Bool :=
  match a, b with
  | some a, some b => decide (b < a)
  | _, _ => false

/-- The rule with the longest floor, starting from the first.
Source: `retention.ts`, `resolveRetention` -/
def governing (first : RetentionRule) (applied : List RetentionRule) : RetentionRule :=
  applied.foldl (fun g rule => if exceeds rule.minimumDays g.minimumDays then rule else g) first

/-- `new Date(t)` on an integer. -/
def newDate (t : ℤ) : Option TimeValue :=
  if h : |t| ≤ 8640000000000000 then some ⟨t, h⟩ else none

/-- Resolve overlapping rules into one period.
Source: `retention.ts`, `resolveRetention` -/
def resolveRetention (ruleIds : List JsString) (start : TimeValue) :
    Except JsError ResolvedRetention := do
  let applied ← ruleIds.mapM fun id =>
    match lookupRule id with
    | none => .error (unknownRule id)
    | some rule => .ok rule
  match applied with
  | [] => throw (retentionError (js ("at least one retention rule is required; evidence with no " ++
      "stated basis for its retention period cannot be defended")))
  | first :: _ =>
    let rule := governing first applied
    let deleteByDays := (applied.filterMap (·.maximumDays)).min?
    if exceeds rule.minimumDays deleteByDays then
      throw (retentionError (js "retention rules conflict: " ++ rule.id.getD (js "undefined") ++
        js " requires " ++ (rule.minimumDays.elim (js "undefined") natDigits) ++
        js " days, but a ceiling of " ++ (deleteByDays.elim (js "undefined") natDigits) ++
        js " days also applies. This needs a legal decision, not a default."))
    let date (days : ℕ) := newDate (start.ms + days * 86400000)
    return ⟨rule.minimumDays, rule.minimumDays.bind date, rule.id, applied, deleteByDays,
      deleteByDays.map date⟩

/-- A rule with a floor keeps it under longer ones. -/
theorem le_governing_first {first : RetentionRule} {applied : List RetentionRule} {m : ℕ}
    (hfirst : first.minimumDays = some m) :
    ∃ n, (governing first applied).minimumDays = some n ∧ m ≤ n := by
  induction applied generalizing first m with
  | nil => exact ⟨m, hfirst, le_rfl⟩
  | cons rule applied ih =>
    rw [governing, List.foldl_cons]
    split_ifs with hexceeds
    · cases hrule : rule.minimumDays with
      | none => simp [exceeds, hrule] at hexceeds
      | some k =>
        obtain ⟨n, hn, hkn⟩ := ih hrule
        have hmk : m < k := by simpa [exceeds, hrule, hfirst] using hexceeds
        exact ⟨n, hn, hmk.le.trans hkn⟩
    · exact ih hfirst

/-- **The longest floor wins.** -/
theorem le_governing {first : RetentionRule} {applied : List RetentionRule} {m₀ : ℕ}
    (hfirst : first.minimumDays = some m₀) {rule : RetentionRule} (hrule : rule ∈ applied) {m : ℕ}
    (hm : rule.minimumDays = some m) :
    ∃ n, (governing first applied).minimumDays = some n ∧ m ≤ n := by
  induction applied generalizing first m₀ with
  | nil => exact absurd hrule List.not_mem_nil
  | cons next applied ih =>
    rcases List.mem_cons.mp hrule with rfl | hrest
    · rw [governing, List.foldl_cons]
      split_ifs with hexceeds
      · exact le_governing_first hm
      · obtain ⟨n, hn, hle⟩ := @le_governing_first _ applied _ hfirst
        have hmm : m ≤ m₀ := by simpa [exceeds, hm, hfirst] using hexceeds
        exact ⟨n, hn, hmm.trans hle⟩
    · rw [governing, List.foldl_cons]
      split_ifs with hexceeds
      · cases hnext : next.minimumDays with
        | none => simp [exceeds, hnext] at hexceeds
        | some k => exact ih hnext hrest
      · exact ih hfirst hrest

/-- The governing rule is one of those considered. -/
theorem governing_mem {first : RetentionRule} {applied : List RetentionRule} :
    governing first applied ∈ first :: applied := by
  induction applied generalizing first with
  | nil => exact List.mem_cons_self ..
  | cons rule applied ih =>
    rw [governing, List.foldl_cons]
    have hmem := @ih (if exceeds rule.minimumDays first.minimumDays then rule else first)
    rcases List.mem_cons.mp hmem with heq | hrest
    · change governing _ _ = _ at heq
      rw [governing] at heq
      rw [heq]
      split_ifs <;> simp
    · exact List.mem_cons_of_mem _ (List.mem_cons_of_mem _ hrest)

/-- A first rule without a floor governs: nothing exceeds a missing number. -/
theorem governing_of_minimumDays_none {first : RetentionRule} {applied : List RetentionRule}
    (h : first.minimumDays = none) : governing first applied = first := by
  induction applied with
  | nil => rfl
  | cons rule applied ih =>
    have hexceeds : exceeds rule.minimumDays first.minimumDays = false := by
      rw [h]
      cases rule.minimumDays <;> rfl
    rw [governing, List.foldl_cons, hexceeds]
    exact ih

/-! ## What resolves -/

/-- No rule has a ceiling. -/
theorem maximumDays_of_lookupRule {id : JsString} {rule : RetentionRule}
    (h : lookupRule id = some rule) : rule.maximumDays = none := by
  have hall : ∀ p ∈ standardRules, p.2.maximumDays = none := by
    simp [standardRules, standardRule]
  rw [lookupRule] at h
  split at h
  · rename_i found hfound
    cases h
    exact hall _ (mem_of_lookup hfound)
  · split_ifs at h
    cases h
    rfl

/-- The rules of a list of identifiers.
Source: `retention.ts`, `resolveRetention` -/
theorem mapM_lookupRule_iff {ruleIds : List JsString} {applied : List RetentionRule} :
    (ruleIds.mapM fun id => match lookupRule id with
      | none => .error (unknownRule id)
      | some rule => .ok rule : Except JsError (List RetentionRule)) = .ok applied ↔
      ruleIds.map lookupRule = applied.map some := by
  induction ruleIds generalizing applied with
  | nil =>
    cases applied with
    | nil => exact iff_of_true rfl rfl
    | cons rule applied => exact iff_of_false nofun nofun
  | cons id ruleIds ih =>
    rw [List.mapM_cons, List.map_cons]
    cases hid : lookupRule id with
    | none =>
      refine iff_of_false nofun ?_
      cases applied <;> simp
    | some rule =>
      cases applied with
      | nil =>
        refine iff_of_false (fun h => ?_) nofun
        cases hrest : (ruleIds.mapM fun id => match lookupRule id with
            | none => .error (unknownRule id)
            | some rule => .ok rule : Except JsError (List RetentionRule)) with
        | error e =>
          rw [hrest] at h
          cases h
        | ok rules =>
          rw [hrest] at h
          cases h
      | cons rule' applied =>
        rw [List.map_cons, List.cons.injEq, Option.some.injEq, ← ih]
        cases hrest : (ruleIds.mapM fun id => match lookupRule id with
            | none => .error (unknownRule id)
            | some rule => .ok rule : Except JsError (List RetentionRule)) with
        | error e => exact iff_of_false nofun fun h => nomatch h.2
        | ok rules =>
          constructor
          · intro h
            cases h
            exact ⟨rfl, rfl⟩
          · rintro ⟨rfl, hrules⟩
            cases hrules
            rfl

/-- **Known rules resolve**, since none of them has a ceiling. -/
theorem resolveRetention_eq {ruleIds : List JsString} {first : RetentionRule}
    {applied : List RetentionRule} (h : ruleIds.map lookupRule = (first :: applied).map some)
    (start : TimeValue) :
    resolveRetention ruleIds start = .ok
      ⟨(governing first (first :: applied)).minimumDays,
        (governing first (first :: applied)).minimumDays.bind fun (days : ℕ) =>
          newDate (start.ms + days * 86400000),
        (governing first (first :: applied)).id, first :: applied, none, none⟩ := by
  have hceiling : ((first :: applied).filterMap (·.maximumDays)).min? = none := by
    rw [List.filterMap_eq_nil_iff.mpr]
    · rfl
    · intro rule hrule
      have hmem : some rule ∈ ruleIds.map lookupRule := by
        rw [h]
        exact List.mem_map_of_mem hrule
      obtain ⟨id, -, hid⟩ := List.mem_map.mp hmem
      exact maximumDays_of_lookupRule hid
  have hexceeds : ∀ a, exceeds a none = false := by
    intro a
    cases a <;> rfl
  rw [resolveRetention, mapM_lookupRule_iff.mpr h]
  simp only [bind, Except.bind, hceiling, hexceeds]
  rfl

/-- What resolves is a list of known rules. -/
theorem exists_rules_of_resolveRetention {ruleIds : List JsString} {start : TimeValue}
    {retention : ResolvedRetention} (h : resolveRetention ruleIds start = .ok retention) :
    ∃ first applied, ruleIds.map lookupRule = (first :: applied).map some := by
  rw [resolveRetention] at h
  cases hm : (ruleIds.mapM fun id => match lookupRule id with
      | none => .error (unknownRule id)
      | some rule => .ok rule : Except JsError (List RetentionRule)) with
  | error e =>
    rw [hm] at h
    cases h
  | ok applied =>
    rw [hm] at h
    cases applied with
    | nil => cases h
    | cons first applied => exact ⟨first, applied, mapM_lookupRule_iff.mp hm⟩

end AgentEval.Evidence
