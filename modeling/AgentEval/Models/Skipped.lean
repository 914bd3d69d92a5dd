import AgentEval.Js.Literal
import AgentEval.Models.Compatibility
import AgentEval.Words.Joined

/-!
# What a row of the matrix tells

* **`checkCompatibility_told`**: which of the decision can be read off the sentence that goes with it.
-/

namespace AgentEval.Models

open Js Joined

/-! ## Names -/

/-- The names of capabilities tell them apart. -/
theorem RequiredCapability.toJs_injective : Function.Injective RequiredCapability.toJs := by
  intro c d h
  cases c <;> cases d <;> first | rfl | exact absurd h (by decide)

/-- A name is neither empty nor cut. -/
theorem RequiredCapability.toJs_spec (c : RequiredCapability) :
    c.toJs ≠ [] ∧ 44 ∉ c.toJs ∧ 59 ∉ c.toJs := by
  cases c <;> decide

/-- **Names are told by their list.** -/
theorem joinNames_injective : Function.Injective joinNames := by
  intro cs ds h
  have hspec : ∀ cs : List RequiredCapability, ∀ s ∈ cs.map RequiredCapability.toJs,
      s ≠ [] ∧ (44 : UInt16) ∉ s := by
    intro cs s hs
    obtain ⟨c, -, rfl⟩ := List.mem_map.mp hs
    exact ⟨c.toJs_spec.1, c.toJs_spec.2.1⟩
  have hjoined : ([44, 32] : JsString).intercalate (cs.map RequiredCapability.toJs) =
      ([44, 32] : JsString).intercalate (ds.map RequiredCapability.toJs) := h
  exact List.map_injective_iff.mpr RequiredCapability.toJs_injective
    (eq_of_intercalate (by decide) (hspec cs) (hspec ds) hjoined)

/-- A unit that is in neither of two texts. -/
theorem notMem_append {u : UInt16} {s t : JsString} (hs : u ∉ s) (ht : u ∉ t) : u ∉ s ++ t := by
  rw [List.mem_append, not_or]
  exact ⟨hs, ht⟩

/-- A list of names has no semicolon. -/
theorem semicolon_notMem_joinNames (cs : List RequiredCapability) : 59 ∉ joinNames cs := by
  unfold joinNames
  induction cs with
  | nil => exact List.not_mem_nil
  | cons c cs ih =>
    cases cs with
    | nil =>
      rw [List.map_singleton, List.intercalate_singleton]
      exact c.toJs_spec.2.2
    | cons d cs =>
      rw [List.map_cons, List.map_cons, List.intercalate_cons_cons]
      exact notMem_append (notMem_append c.toJs_spec.2.2 (by decide)) ih

/-! ## Parts -/

/-- A text is one part, which opens with a unit and is not cut. -/
structure Part (u : UInt16) (s : JsString) : Prop where
  /-- It opens with the unit. -/
  opens : s.head? = some u
  /-- It is not cut. -/
  whole : 59 ∉ s

variable {u : UInt16} {s t : JsString}

/-- A part with more to it. -/
theorem Part.append (hs : Part u s) (ht : 59 ∉ t) : Part u (s ++ t) where
  opens := by rw [List.head?_append, hs.opens]; rfl
  whole := notMem_append hs.whole ht

/-- A part is not empty. -/
theorem Part.ne_nil (hs : Part u s) : s ≠ [] := by
  rintro rfl
  cases hs.opens

/-- The text of a Number is not cut. -/
theorem semicolon_notMem_toString (x : Number) : 59 ∉ x.toString := fun h =>
  (Number.mem_toString_units x 59 h).elim (fun h => absurd h (by decide))
    fun h => absurd h (by decide)

/-- A budget that fails is one part. -/
theorem part_limitOf {unknown : Number → JsString} {below : JsString}
    (hunknown : ∀ n, Part u (unknown n)) (hbelow : Part u below) {least held : Option Number} :
    ∀ s ∈ limitOf unknown below least held, Part u s := by
  intro s hs
  unfold limitOf at hs
  split at hs
  · exact absurd hs List.not_mem_nil
  · obtain rfl := List.mem_singleton.mp hs
    exact hunknown _
  · split_ifs at hs
    · obtain rfl := List.mem_singleton.mp hs
      exact ((hbelow.append (semicolon_notMem_toString _)).append (by decide)).append
        (semicolon_notMem_toString _)
    · exact absurd hs List.not_mem_nil

variable {m m' : RegisteredModel} {r r' : BenchmarkRequirements} {p : UnknownPolicy}
  {missing missing' unknown unknown' : List RequiredCapability} {limits limits' : List JsString}

/-- What is said of the budgets: of the context, and of the output. -/
theorem part_limitsOf : ∀ s ∈ limitsOf m r, Part 99 s ∨ Part 109 s := by
  intro s hs
  rcases List.mem_append.mp hs with hs | hs
  · refine .inl (part_limitOf (fun n => ?_) ⟨by decide, by decide⟩ s hs)
    exact (Part.append ⟨by decide, by decide⟩ (semicolon_notMem_toString n)).append (by decide)
  · refine .inr (part_limitOf (fun n => ?_) ⟨by decide, by decide⟩ s hs)
    exact Part.append ⟨by decide, by decide⟩ (semicolon_notMem_toString n)

/-- The part about names: a text, their list, and a text. -/
def partOf (names : List RequiredCapability) (before after : JsString) : List JsString :=
  if names.isEmpty then [] else [before ++ joinNames names ++ after]

/-- What is said of names is one part. -/
theorem part_partOf {names : List RequiredCapability} (hs : Part u s) (ht : 59 ∉ t) :
    ∀ a ∈ partOf names s t, Part u a := by
  intro a ha
  unfold partOf at ha
  split_ifs at ha
  · exact absurd ha List.not_mem_nil
  · obtain rfl := List.mem_singleton.mp ha
    exact (hs.append (semicolon_notMem_joinNames _)).append ht

/-- **It tells the names.** -/
theorem partOf_injective (s t : JsString) : Function.Injective fun names => partOf names s t := by
  intro cs ds h
  unfold partOf at h
  dsimp only at h
  split_ifs at h with hcs hds hds
  · rw [List.isEmpty_iff.mp hcs, List.isEmpty_iff.mp hds]
  · exact joinNames_injective (List.append_cancel_left (List.append_cancel_right
      (List.singleton_inj.mp h)))

/-- The part about what is unknown. -/
def unknownPart (unknown : List RequiredCapability) : UnknownPolicy → List JsString
  | .exclude => partOf unknown (js "has unverified support for ")
      (js " (excluded by default: an unverified capability can invalidate a score silently, " ++
        js "whereas an excluded model is a visible gap)")
  | .probe => partOf unknown (js "needs a capability probe for ") []
  | .includeFlagged => []

/-- The parts of a sentence, in three groups. -/
theorem skippedParts_eq : skippedParts missing unknown limits p =
    partOf missing (js "does not support ") [] ++ (unknownPart unknown p ++ limits) := by
  unfold skippedParts unknownPart partOf
  cases p <;> cases missing <;> cases unknown <;> simp

/-- What is said of what is missing is one part. -/
theorem part_missing : ∀ s ∈ partOf missing (js "does not support ") [], Part 100 s :=
  part_partOf ⟨by decide, by decide⟩ List.not_mem_nil

/-- What is said of what is unknown is one part. -/
theorem part_unknownPart : ∀ s ∈ unknownPart unknown p, Part 104 s ∨ Part 110 s := by
  intro s hs
  cases p with
  | exclude => exact .inl (part_partOf ⟨by decide, by decide⟩ (by decide) s hs)
  | probe => exact .inr (part_partOf ⟨by decide, by decide⟩ List.not_mem_nil s hs)
  | includeFlagged => exact absurd hs List.not_mem_nil

/-- **A sentence about a model that is skipped tells its parts.** -/
theorem skippedParts_told (hlimits : ∀ s ∈ limits, Part 99 s ∨ Part 109 s)
    (hlimits' : ∀ s ∈ limits', Part 99 s ∨ Part 109 s)
    (h : (js "; ").intercalate (skippedParts missing unknown limits p) =
      (js "; ").intercalate (skippedParts missing' unknown' limits' p)) :
    missing = missing' ∧ unknownPart unknown p = unknownPart unknown' p ∧ limits = limits' := by
  -- a test of the unit that a part opens with
  have htest : ∀ {P : UInt16 → Bool} {u v : UInt16} {s : JsString}, (Part u s ∨ Part v s) →
      P u = P v → s.head?.any P = P u := by
    rintro P u v s (hs | hs) huv
    · rw [hs.opens]
      rfl
    · rw [hs.opens, huv]
      rfl
  have hrest : ∀ {unknown limits}, (∀ s ∈ limits, Part 99 s ∨ Part 109 s) →
      ∀ s ∈ unknownPart unknown p ++ limits, s.head?.any (· == 100) = false := by
    intro unknown limits hlimits s hs
    rcases List.mem_append.mp hs with hs | hs
    · exact htest (part_unknownPart s hs) rfl
    · exact htest (hlimits s hs) rfl
  have hparts : ∀ {missing unknown limits}, (∀ s ∈ limits, Part 99 s ∨ Part 109 s) →
      ∀ s ∈ skippedParts missing unknown limits p, s ≠ [] ∧ (59 : UInt16) ∉ s := by
    intro missing unknown limits hlimits s hs
    rw [skippedParts_eq, List.mem_append, List.mem_append] at hs
    rcases hs with hs | hs | hs
    · exact ⟨(part_missing s hs).ne_nil, (part_missing s hs).whole⟩
    · exact (part_unknownPart s hs).elim (fun h => ⟨h.ne_nil, h.whole⟩) fun h => ⟨h.ne_nil, h.whole⟩
    · exact (hlimits s hs).elim (fun h => ⟨h.ne_nil, h.whole⟩) fun h => ⟨h.ne_nil, h.whole⟩
  have hsame := eq_of_intercalate (show (59 : UInt16) ≠ 32 by decide) (hparts hlimits)
    (hparts hlimits') h
  rw [skippedParts_eq, skippedParts_eq] at hsame
  obtain ⟨hmissing, hsame⟩ := eq_of_append (P := fun s => s.head?.any (· == 100))
    (fun s hs => htest (.inl (part_missing s hs)) rfl) (fun s hs => htest (.inl (part_missing s hs)) rfl)
    (hrest hlimits) (hrest hlimits') hsame
  obtain ⟨hunknown, hlimit⟩ := eq_of_append
    (P := fun s => s.head?.any fun u => u == 104 || u == 110)
    (fun s hs => htest (part_unknownPart s hs) rfl) (fun s hs => htest (part_unknownPart s hs) rfl)
    (fun s hs => htest (hlimits s hs) rfl) (fun s hs => htest (hlimits' s hs) rfl) hsame
  exact ⟨partOf_injective _ _ hmissing, hunknown, hlimit⟩

/-- What is unknown is told, unless it is admitted. -/
theorem unknownPart_told (hp : p ≠ .includeFlagged)
    (h : unknownPart unknown p = unknownPart unknown' p) : unknown = unknown' := by
  cases p with
  | exclude => exact partOf_injective _ _ h
  | probe => exact partOf_injective _ _ h
  | includeFlagged => exact absurd rfl hp

/-! ## Sentences -/

/-- The unit that tells the three kinds of sentence apart. -/
theorem getElem?_explain (name : JsString) (c f : Bool) :
    (explain missing unknown limits c f p name)[name.length + 1]? =
      some (if c && !f then 109 else if c && f then 105 else 119) := by
  have hsecond : ∀ (s t : JsString), 1 < s.length → (name ++ (s ++ t))[name.length + 1]? = s[1]? := by
    intro s t hs
    rw [List.getElem?_append_right (Nat.le_add_right _ _), Nat.add_sub_cancel_left,
      List.getElem?_append_left hs]
  unfold explain
  split_ifs
  · have := hsecond (js " meets every requirement.") [] (by decide)
    rw [List.append_nil] at this
    exact this
  · rw [List.append_assoc, List.append_assoc, List.append_assoc]
    exact hsecond _ _ (by decide)
  · rw [List.append_assoc, List.append_assoc]
    exact hsecond _ _ (by decide)

/-- **A sentence tells its kind.** -/
theorem explain_kind {name : JsString} {c f c' f' : Bool} (hf : f = true → c = true)
    (hf' : f' = true → c' = true)
    (h : explain missing unknown limits c f p name = explain missing' unknown' limits' c' f' p name) :
    c = c' ∧ f = f' := by
  have hunit := congrArg (fun s => s[name.length + 1]?) h
  simp only [getElem?_explain, Option.some.injEq] at hunit
  revert hunit hf hf'
  cases c <;> cases f <;> cases c' <;> cases f' <;> decide

/-- What the decision about a model that runs is made of. -/
theorem eq_nil_of_compatible (h : (checkCompatibility m r p).compatible = true) :
    (checkCompatibility m r p).missing = [] ∧ (checkCompatibility m r p).limits = [] := by
  obtain ⟨hmissing, hlimits, -⟩ := compatible_checkCompatibility.mp h
  exact ⟨missing_checkCompatibility.trans hmissing, hlimits⟩

/-- Nothing is unknown of a model that runs without a flag. -/
theorem eq_nil_of_not_flagged (h : (checkCompatibility m r p).compatible = true)
    (hflag : (checkCompatibility m r p).flagged = false) : (checkCompatibility m r p).unknown = [] := by
  by_contra hne
  rw [flagged_checkCompatibility.mpr ⟨h, hne⟩] at hflag
  cases hflag

/-- **What a row tells.** For models of one name, the sentence tells the decision: whether the model
runs, whether with a flag, what is missing, which budgets fail, and what is unknown, unless unknowns are
admitted and the model does not run for another reason. -/
theorem checkCompatibility_told (hname : m.displayName = m'.displayName)
    (r r' : BenchmarkRequirements) (p : UnknownPolicy) :
    (checkCompatibility m r p).reason = (checkCompatibility m' r' p).reason ↔
      (checkCompatibility m r p).compatible = (checkCompatibility m' r' p).compatible ∧
      (checkCompatibility m r p).flagged = (checkCompatibility m' r' p).flagged ∧
      (checkCompatibility m r p).missing = (checkCompatibility m' r' p).missing ∧
      (checkCompatibility m r p).limits = (checkCompatibility m' r' p).limits ∧
      (p ≠ .includeFlagged ∨ (checkCompatibility m r p).compatible = true →
        (checkCompatibility m r p).unknown = (checkCompatibility m' r' p).unknown) := by
  have hreason : ∀ (m : RegisteredModel) (r : BenchmarkRequirements),
      (checkCompatibility m r p).reason = explain (checkCompatibility m r p).missing
        (checkCompatibility m r p).unknown (checkCompatibility m r p).limits
        (checkCompatibility m r p).compatible (checkCompatibility m r p).flagged p m.displayName :=
    fun _ _ => rfl
  rw [hreason, hreason, ← hname]
  constructor
  · intro h
    obtain ⟨hcompatible, hflagged⟩ := explain_kind (fun hf => (flagged_checkCompatibility.mp hf).1)
      (fun hf => (flagged_checkCompatibility.mp hf).1) h
    refine ⟨hcompatible, hflagged, ?_⟩
    cases hc : (checkCompatibility m r p).compatible with
    | true =>
      have hc' := hcompatible.symm.trans hc
      obtain ⟨hmissing, hlimits⟩ := eq_nil_of_compatible hc
      obtain ⟨hmissing', hlimits'⟩ := eq_nil_of_compatible hc'
      refine ⟨hmissing.trans hmissing'.symm, hlimits.trans hlimits'.symm, fun _ => ?_⟩
      cases hf : (checkCompatibility m r p).flagged with
      | false =>
        exact (eq_nil_of_not_flagged hc hf).trans
          (eq_nil_of_not_flagged hc' (hflagged.symm.trans hf)).symm
      | true =>
        rw [hc, hf, hc', hflagged.symm.trans hf] at h
        exact joinNames_injective (List.append_cancel_left (List.append_cancel_right
          (List.append_cancel_right h)))
    | false =>
      rw [hc, hcompatible.symm.trans hc] at h
      obtain ⟨hmissing, hunknown, hlimits⟩ := skippedParts_told part_limitsOf part_limitsOf
        (List.append_cancel_left (List.append_cancel_right h))
      refine ⟨hmissing, hlimits, fun hp => unknownPart_told (hp.resolve_right ?_) hunknown⟩
      decide
  · rintro ⟨hcompatible, hflagged, hmissing, hlimits, hunknown⟩
    rw [← hcompatible, ← hflagged, ← hmissing, ← hlimits]
    by_cases hp : p ≠ .includeFlagged ∨ (checkCompatibility m r p).compatible = true
    · rw [hunknown hp]
    · -- what is unknown is in no part
      rw [not_or, not_not] at hp
      obtain ⟨rfl, hc⟩ := hp
      unfold explain
      rw [Bool.eq_false_iff.mpr hc, skippedParts_eq, skippedParts_eq]
      rfl

/-- What is unknown is not said as what is missing. -/
theorem checkCompatibility_told_vision :
    (checkCompatibility (seeing .unknown) (requirementsFrom (some true) none none none none none none)
      .exclude).reason ≠
    (checkCompatibility (seeing .unsupported) (requirementsFrom (some true) none none none none none
      none) .exclude).reason := by
  have hname : (seeing .unknown).displayName = (seeing .unsupported).displayName := rfl
  intro h
  have hmissing := ((checkCompatibility_told hname _ _ _).mp h).2.2.1
  exact absurd hmissing (by decide)

end AgentEval.Models
