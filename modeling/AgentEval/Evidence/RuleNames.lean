import Mathlib.Order.Bounds.Basic
import AgentEval.Evidence.Retention

/-!
# Names of retention rules

`resolveRetention` looks a name up in an object literal, and so takes the members that every object
inherits for rules.

* **`maximum_of_known_iff`**: a list of names resolves to the longest floor of the rules it names,
  whatever its order, and to none when a name is not declared, exactly when it has no inherited name
  or else an unknown one.
* **`inherited_name_resolves`**: `constructor` resolves, to no number of days.
-/

namespace AgentEval.Evidence

open Js

/-- `resolveRetention` from a date that may be invalid, of which no date comes.
Source: `retention.ts`, `resolveRetention` -/
def resolveRetentionAt (ruleIds : List JsString) (start : Option TimeValue) :
    Except JsError ResolvedRetention :=
  match start with
  | some start => resolveRetention ruleIds start
  | none => (resolveRetention ruleIds ⟨0, TimeValue.zero_inRange⟩).map fun resolved =>
    { resolved with retainUntil := none, deleteBy := resolved.deleteBy.map fun _ => none }

/-- A declared rule has the name. -/
def Declared (id : JsString) : Prop := id ∈ standardRules.map Prod.fst

/-- The floors of the declared rules among some names. -/
def floors (ruleIds : List JsString) : Set ℕ :=
  {days | ∃ id ∈ ruleIds, ∃ rule, standardRules.lookup id = some rule ∧
    rule.minimumDays = some days}

/-- One list of names resolves as another, up to the choice among rules with one floor. -/
structure SameResolution (resolved resolved' : ResolvedRetention) : Prop where
  retainForDays : resolved'.retainForDays = resolved.retainForDays
  retainUntil : resolved'.retainUntil = resolved.retainUntil
  deleteByDays : resolved'.deleteByDays = resolved.deleteByDays
  deleteBy : resolved'.deleteBy = resolved.deleteBy
  applied : resolved'.applied.Perm resolved.applied
  governingRule : ∃ rule ∈ resolved.applied, rule.id = resolved'.governingRule ∧
    rule.minimumDays = resolved.retainForDays

/-- Names resolve to the longest floor of known rules. -/
structure MaximumOfKnown (ruleIds : List JsString) : Prop where
  /-- A name that is not declared is refused. -/
  refused : (∃ id ∈ ruleIds, ¬ Declared id) → ∀ start, ∃ e,
    resolveRetentionAt ruleIds start = .error e
  /-- The period is the longest floor. -/
  longest : ∀ start resolved, resolveRetentionAt ruleIds start = .ok resolved →
    ∃ days, resolved.retainForDays = some days ∧ IsGreatest (floors ruleIds) days
  /-- A ceiling is not before it. -/
  ceiling : ∀ start resolved, resolveRetentionAt ruleIds start = .ok resolved →
    ∀ lastDay ∈ resolved.retainUntil, ∀ deleteBy, resolved.deleteBy = some (some deleteBy) →
      lastDay.ms ≤ deleteBy.ms
  /-- The order of the names does not matter. -/
  unordered : ∀ ruleIds', ruleIds'.Perm ruleIds → ∀ start resolved,
    resolveRetentionAt ruleIds start = .ok resolved →
      ∃ resolved', resolveRetentionAt ruleIds' start = .ok resolved' ∧
        SameResolution resolved resolved'

variable {ruleIds : List JsString} {start : Option TimeValue} {first : RetentionRule}
  {applied : List RetentionRule} {id : JsString}

/-- What known rules resolve to. -/
theorem resolveRetentionAt_eq (h : ruleIds.map lookupRule = (first :: applied).map some)
    (start : Option TimeValue) :
    resolveRetentionAt ruleIds start = .ok
      { retainForDays := (governing first (first :: applied)).minimumDays
        retainUntil := start.bind fun start =>
          (governing first (first :: applied)).minimumDays.bind fun (days : ℕ) =>
            newDate (start.ms + days * 86400000)
        governingRule := (governing first (first :: applied)).id
        applied := first :: applied
        deleteByDays := none
        deleteBy := none } := by
  unfold resolveRetentionAt
  cases start with
  | none =>
    dsimp only
    rw [resolveRetention_eq h]
    rfl
  | some start => exact resolveRetention_eq h start

/-- What resolves has known rules only. -/
theorem exists_rules_of_resolveRetentionAt {resolved : ResolvedRetention}
    (h : resolveRetentionAt ruleIds start = .ok resolved) :
    ∃ first applied, ruleIds.map lookupRule = (first :: applied).map some := by
  unfold resolveRetentionAt at h
  cases start with
  | none =>
    dsimp only at h
    cases hresolve : resolveRetention ruleIds ⟨0, TimeValue.zero_inRange⟩ with
    | error e =>
      rw [hresolve] at h
      cases h
    | ok r => exact exists_rules_of_resolveRetention hresolve
  | some start => exact exists_rules_of_resolveRetention h

/-- The rules of names that all give one. -/
theorem map_lookupRule_eq (h : ∀ id ∈ ruleIds, ∃ rule, lookupRule id = some rule) :
    ruleIds.map lookupRule = (ruleIds.filterMap lookupRule).map some := by
  induction ruleIds with
  | nil => rfl
  | cons id ids ih =>
    rw [List.forall_mem_cons] at h
    obtain ⟨⟨rule, hrule⟩, hrest⟩ := h
    rw [List.map_cons, List.filterMap_cons_some hrule, List.map_cons, ih hrest, hrule]

/-- The rules of some names are those that they give. -/
theorem eq_filterMap_lookupRule (h : ruleIds.map lookupRule = applied.map some) :
    applied = ruleIds.filterMap lookupRule := by
  have hmap := congrArg (List.filterMap id) h
  rw [List.filterMap_map, List.filterMap_map] at hmap
  simpa using hmap.symm

/-- A declared name gives its rule. -/
theorem lookupRule_of_declared (h : Declared id) :
    ∃ rule days, lookupRule id = some rule ∧ standardRules.lookup id = some rule ∧
      rule.minimumDays = some days := by
  have hfloor : ∀ p ∈ standardRules, ∃ days, p.2.minimumDays = some days := by
    intro p hp
    simp only [standardRules, standardRule, List.mem_cons, List.not_mem_nil, or_false] at hp
    rcases hp with rfl | rfl | rfl | rfl | rfl <;> exact ⟨_, rfl⟩
  cases hrule : standardRules.lookup id with
  | none => exact absurd h (lookup_eq_none_iff.mp hrule)
  | some rule =>
    obtain ⟨days, hdays⟩ := hfloor _ (mem_of_lookup hrule)
    refine ⟨rule, days, ?_, rfl, hdays⟩
    unfold lookupRule
    rw [hrule]

/-- Only a name that is neither declared nor inherited is unknown. -/
theorem lookupRule_eq_none_iff :
    lookupRule id = none ↔ ¬ Declared id ∧ id ∉ objectPrototypeKeys := by
  unfold lookupRule Declared
  rw [← lookup_eq_none_iff]
  cases standardRules.lookup id with
  | none => simp
  | some rule => simp

/-- An unknown name is refused. -/
theorem refused_of_unknown (hid : id ∈ ruleIds) (h : lookupRule id = none)
    (start : Option TimeValue) : ∃ e, resolveRetentionAt ruleIds start = .error e := by
  cases hresolve : resolveRetentionAt ruleIds start with
  | error e => exact ⟨e, rfl⟩
  | ok resolved =>
    obtain ⟨first, applied, hrules⟩ := exists_rules_of_resolveRetentionAt hresolve
    have hmem : none ∈ (first :: applied).map some := by
      rw [← hrules, ← h]
      exact List.mem_map_of_mem hid
    obtain ⟨_, -, hsome⟩ := List.mem_map.mp hmem
    cases hsome

/-- The governing rule of a list is in the list. -/
theorem governing_mem_self : governing first (first :: applied) ∈ first :: applied := by
  rcases List.mem_cons.mp (@governing_mem first (first :: applied)) with heq | hmem
  · rw [heq]
    exact List.mem_cons_self
  · exact hmem

/-- **The governing one of declared rules has the longest floor.** -/
theorem isGreatest_governing (hdeclared : ∀ id ∈ ruleIds, Declared id)
    (h : ruleIds.map lookupRule = (first :: applied).map some) :
    ∃ days, (governing first (first :: applied)).minimumDays = some days ∧
      IsGreatest (floors ruleIds) days := by
  have hrule : ∀ rule ∈ first :: applied, ∃ id ∈ ruleIds, ∃ days,
      standardRules.lookup id = some rule ∧ rule.minimumDays = some days := by
    intro rule hmem
    have hsome : some rule ∈ ruleIds.map lookupRule := by
      rw [h]
      exact List.mem_map_of_mem hmem
    obtain ⟨id, hid, heq⟩ := List.mem_map.mp hsome
    obtain ⟨rule', days, hlookup, hstandard, hdays⟩ := lookupRule_of_declared (hdeclared id hid)
    cases heq.symm.trans hlookup
    exact ⟨id, hid, days, hstandard, hdays⟩
  obtain ⟨id, hid, days, hstandard, hdays⟩ := hrule _ governing_mem_self
  obtain ⟨_, _, _, _, hfirst⟩ := hrule first List.mem_cons_self
  refine ⟨days, hdays, ⟨id, hid, _, hstandard, hdays⟩, ?_⟩
  rintro m ⟨id', hid', rule, hstandard', hm⟩
  have hmem : rule ∈ first :: applied := by
    have hsome : some rule ∈ (first :: applied).map some := by
      rw [← h]
      refine List.mem_map.mpr ⟨id', hid', ?_⟩
      unfold lookupRule
      rw [hstandard']
    obtain ⟨_, hmem, heq⟩ := List.mem_map.mp hsome
    cases heq
    exact hmem
  obtain ⟨n, hn, hle⟩ := le_governing hfirst hmem hm
  cases hdays.symm.trans hn
  exact hle

/-- **What a list of names resolves to.** -/
theorem maximum_of_known_iff (ruleIds : List JsString) :
    MaximumOfKnown ruleIds ↔
      (∃ id ∈ ruleIds, ¬ Declared id ∧ id ∉ objectPrototypeKeys) ∨ ∀ id ∈ ruleIds, Declared id := by
  constructor
  · intro h
    by_contra hnot
    rw [not_or, not_forall] at hnot
    obtain ⟨hknown, id, hid⟩ := hnot
    rw [Classical.not_imp] at hid
    obtain ⟨hid, hundeclared⟩ := hid
    -- every name gives something, and so the list resolves
    have hsome : ∀ id ∈ ruleIds, ∃ rule, lookupRule id = some rule := by
      intro id hmem
      cases hrule : lookupRule id with
      | none => exact absurd ⟨id, hmem, lookupRule_eq_none_iff.mp hrule⟩ hknown
      | some rule => exact ⟨rule, rfl⟩
    have hrules := map_lookupRule_eq hsome
    obtain ⟨e, he⟩ := h.refused ⟨id, hid, hundeclared⟩ none
    cases happlied : ruleIds.filterMap lookupRule with
    | nil =>
      rw [happlied, List.map_nil, List.map_eq_nil_iff] at hrules
      rw [hrules] at hid
      cases hid
    | cons first applied =>
      rw [happlied] at hrules
      rw [resolveRetentionAt_eq hrules] at he
      cases he
  · rintro (⟨id, hid, hunknown⟩ | hdeclared)
    · have hrefused := refused_of_unknown hid (lookupRule_eq_none_iff.mpr hunknown)
      have hnever : ∀ {start resolved}, resolveRetentionAt ruleIds start ≠ .ok resolved := by
        intro start resolved h
        obtain ⟨e, he⟩ := hrefused start
        rw [he] at h
        cases h
      constructor
      · exact fun _ => hrefused
      · exact fun _ _ h => absurd h hnever
      · exact fun _ _ h => absurd h hnever
      · exact fun _ _ _ _ h => absurd h hnever
    · constructor
      · rintro ⟨id, hid, hundeclared⟩
        exact absurd (hdeclared id hid) hundeclared
      · intro start resolved h
        obtain ⟨first, applied, hrules⟩ := exists_rules_of_resolveRetentionAt h
        rw [resolveRetentionAt_eq hrules] at h
        cases h
        exact isGreatest_governing hdeclared hrules
      · intro start resolved h lastDay _ deleteBy hdelete
        obtain ⟨first, applied, hrules⟩ := exists_rules_of_resolveRetentionAt h
        rw [resolveRetentionAt_eq hrules] at h
        cases h
        cases hdelete
      · intro ruleIds' hperm start resolved h
        obtain ⟨first, applied, hrules⟩ := exists_rules_of_resolveRetentionAt h
        rw [resolveRetentionAt_eq hrules] at h
        cases h
        have hdeclared' : ∀ id ∈ ruleIds', Declared id := fun id hid =>
          hdeclared id (hperm.mem_iff.mp hid)
        have hrules' := map_lookupRule_eq fun id hid =>
          (lookupRule_of_declared (hdeclared' id hid)).imp fun _ h => h.choose_spec.1
        have happlied := hperm.filterMap lookupRule
        rw [← eq_filterMap_lookupRule hrules] at happlied
        cases hrest : ruleIds'.filterMap lookupRule with
        | nil =>
          rw [hrest] at happlied
          exact absurd happlied.symm.eq_nil (List.cons_ne_nil first applied)
        | cons first' applied' =>
          rw [hrest] at happlied hrules'
          obtain ⟨days, hdays, hgreatest⟩ := isGreatest_governing hdeclared hrules
          obtain ⟨days', hdays', hgreatest'⟩ := isGreatest_governing hdeclared' hrules'
          have hfloors : floors ruleIds' = floors ruleIds := by
            unfold floors
            simp only [hperm.mem_iff]
          rw [hfloors] at hgreatest'
          cases hgreatest'.unique hgreatest
          refine ⟨_, resolveRetentionAt_eq hrules' start, ?_, ?_, rfl, rfl, happlied, ?_⟩
          · exact hdays'.trans hdays.symm
          · dsimp only
            rw [hdays, hdays']
          · exact ⟨_, happlied.mem_iff.mp governing_mem_self, rfl, hdays'.trans hdays.symm⟩

/-- **An inherited name resolves**, to no number of days. -/
theorem inherited_name_resolves : ¬ MaximumOfKnown [js "constructor"] := by
  intro h
  have hundeclared : ¬ Declared (js "constructor") := by
    unfold Declared
    decide
  obtain ⟨e, he⟩ := h.refused ⟨_, List.mem_singleton_self _, hundeclared⟩ none
  have hinherited : js "constructor" ∈ objectPrototypeKeys := List.mem_cons_self
  have hrule : [js "constructor"].map lookupRule = [⟨none, none, none, none⟩].map some := by
    unfold lookupRule
    rw [List.map_singleton, lookup_eq_none_iff.mpr hundeclared]
    exact congrArg (fun rule => [rule]) (if_pos hinherited)
  rw [resolveRetentionAt_eq hrule] at he
  cases he

end AgentEval.Evidence
