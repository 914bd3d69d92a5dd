import AgentEval.Finance.Scale

/-!
# Signs, and texts that stay as they are

* `test_signBefore_iff` — a sign counts behind no digit and before, across white space, one of some
  symbols.
* `readSign_of_minus`, `readSign_of_plus`, `readSign_of_none` — what the sign is read as.
* `expandExponents_eq_self`, `readCurrency_eq_self`, `afterUnit_eq_self` — texts without exponents,
  currencies and units.
-/

namespace AgentEval.Finance

open Js Regex Regex.Pattern

/-! ## Signs -/

section

variable {s t : JsString} {sign : UInt16} {next : UInt16 → Bool}

/-- No digit at the end. -/
def NoDigitAtEnd (s : JsString) : Prop := ∀ t u, s = t ++ [u] → isDigit u = false

/-- **A sign behind no digit and before, across white space, one of some symbols.** -/
theorem test_signBefore_iff : (signBefore sign next).test s = true ↔
    ∃ a g u b, s = a ++ sign :: (g ++ u :: b) ∧ NoDigitAtEnd a ∧ Blank g ∧ next u = true := by
  unfold signBefore gap
  rw [test_iff]
  constructor
  · rintro ⟨x, y, o, rfl, ho⟩
    obtain ⟨o₁, ho₁, o₂, ho₂, -⟩ := mem_run_seq.mp ho
    obtain ⟨o₃, ho₃, o₄, ho₄, -⟩ := mem_run_seq.mp ho₂
    obtain ⟨t₁, ht₁, rfl⟩ := mem_run_symbol.mp ho₃
    obtain ⟨o₅, ho₅, o₆, ho₆, -⟩ := mem_run_seq.mp ho₄
    obtain ⟨g, t₂, ht₂, hg, rfl⟩ := mem_run_star_set.mp ho₅
    obtain ⟨u, b, hu, hnext, rfl⟩ := mem_run_set.mp ho₆
    obtain rfl : t₁ = g ++ t₂ := ht₂
    obtain rfl : t₂ = u :: b := hu
    rcases mem_run_alt.mp ho₁ with hstart | hset
    · obtain ⟨hempty, rfl⟩ := mem_run_start.mp hstart
      obtain rfl := List.isEmpty_iff.mp hempty
      obtain rfl : y = sign :: (g ++ u :: b) := ht₁
      refine ⟨[], g, u, b, rfl, ?_, hg, hnext⟩
      intro t v h
      exact absurd h.symm (List.append_ne_nil_of_right_ne_nil t (List.cons_ne_nil v []))
    · obtain ⟨v, t, rfl, hv, rfl⟩ := mem_run_set.mp hset
      obtain rfl : t = sign :: (g ++ u :: b) := ht₁
      refine ⟨x ++ [v], g, u, b, by simp, ?_, hg, hnext⟩
      intro t w h
      obtain ⟨-, hw⟩ := List.append_inj' h rfl
      obtain ⟨rfl, -⟩ := List.cons.inj hw
      exact (Bool.not_eq_true' _).mp hv
  · rintro ⟨a, g, u, b, rfl, ha, hg, hnext⟩
    obtain ⟨x, before, rfl, hbefore⟩ : ∃ x before, a = x ++ before ∧
        (⟨before, sign :: (g ++ u :: b), []⟩ : Outcome UInt16) ∈
          (Pattern.alt .start (.set fun u => !isDigit u)).run x.isEmpty
            (before ++ sign :: (g ++ u :: b)) := by
      rcases List.eq_nil_or_concat a with rfl | ⟨x, v, rfl⟩
      · exact ⟨[], [], rfl, mem_run_alt.mpr (.inl (mem_run_start.mpr ⟨rfl, rfl⟩))⟩
      · refine ⟨x, [v], List.concat_eq_append, mem_run_alt.mpr (.inr (mem_run_set.mpr
          ⟨v, _, rfl, ?_, rfl⟩))⟩
        exact (Bool.not_eq_true' _).mpr (ha x v List.concat_eq_append)
    refine ⟨x, before ++ sign :: (g ++ u :: b), _, by simp, mem_run_seq.mpr ⟨_, hbefore,
      ⟨[sign] ++ (g ++ [u]), b, []⟩, mem_run_seq.mpr ⟨_, mem_run_symbol.mpr ⟨_, rfl, rfl⟩,
        ⟨g ++ [u], b, []⟩, mem_run_seq.mpr ⟨⟨g, u :: b, []⟩, mem_run_star_set.mpr
          ⟨g, _, rfl, hg, rfl⟩, ⟨[u], b, []⟩, mem_run_set.mpr ⟨u, b, rfl, hnext, rfl⟩, rfl⟩, rfl⟩,
      rfl⟩⟩

/-- A sign that is not there. -/
theorem test_signBefore_of_not_mem (h : sign ∉ s) : (signBefore sign next).test s = false := by
  rw [← Bool.not_eq_true, test_signBefore_iff]
  rintro ⟨a, g, u, b, rfl, -⟩
  exact h (by simp)

/-- Parentheses that are not there. -/
theorem parenthesised_of_not_mem (h : 40 ∉ s) : parenthesised.test s = false := by
  unfold Pattern.test
  rw [← Bool.not_eq_true, Option.isSome_iff_exists]
  rintro ⟨m, hm⟩
  obtain ⟨a, b, -, -, rfl⟩ := parenthesised_search hm
  exact h (List.mem_cons_self ..)

/-- Without parentheses the sign stands in the whole text. -/
theorem inside_of_not_parenthesised (h : parenthesised.test s = false) : inside s = s := by
  unfold Pattern.test at h
  rw [Option.isSome_eq_false_iff, Option.isNone_iff_eq_none] at h
  unfold inside
  rw [h]
  rfl

/-- The sign, where there are no parentheses. -/
theorem readSign_eq (hparen : parenthesised.test s = false) : readSign s =
    if minusSign.test s then .ok ⟨true, .explicit, s.replace 45 32⟩
    else if plusSign.test s then .ok ⟨false, .explicit, s.replace 43 32⟩
    else .ok ⟨false, .none, s⟩ := by
  unfold Pattern.test at hparen
  rw [Option.isSome_eq_false_iff, Option.isNone_iff_eq_none] at hparen
  unfold readSign
  rw [hparen]
  rfl

/-- A minus. -/
theorem readSign_of_minus (hparen : parenthesised.test s = false) (h : minusSign.test s = true) :
    readSign s = .ok ⟨true, .explicit, s.replace 45 32⟩ := by
  rw [readSign_eq hparen, if_pos h]

/-- A plus. -/
theorem readSign_of_plus (hparen : parenthesised.test s = false) (hminus : minusSign.test s = false)
    (h : plusSign.test s = true) : readSign s = .ok ⟨false, .explicit, s.replace 43 32⟩ := by
  rw [readSign_eq hparen, hminus, if_neg Bool.false_ne_true, if_pos h]

/-- No sign. -/
theorem readSign_of_none (hparen : parenthesised.test s = false) (hminus : minusSign.test s = false)
    (hplus : plusSign.test s = false) : readSign s = .ok ⟨false, .none, s⟩ := by
  rw [readSign_eq hparen, hminus, hplus, if_neg Bool.false_ne_true, if_neg Bool.false_ne_true]

/-- Whether there is a minus. -/
theorem negative_of_readSign {signed : Signed} (h : readSign s = .ok signed) :
    signed.negative = (minusSign.test (inside s) || parenthesised.test s) := by
  rcases readSign_cases h with ⟨hminus, -, rfl⟩ | ⟨hminus, -, rfl⟩ | ⟨hminus, -, rfl⟩
  · rw [hminus]
    rfl
  · rw [hminus]
    rfl
  · rw [hminus]
    rfl

end

/-! ## Texts that stay as they are -/

section

variable {s : JsString} {tenTo : Number → Number}

/-- A text without white space at its ends. -/
theorem trim_eq_self (hstart : ∀ u t, s = u :: t → isWhiteSpace u = false)
    (hend : ∀ t u, s = t ++ [u] → isWhiteSpace u = false) : trim s = s := by
  obtain ⟨a, b, ha, hb, hs⟩ := exists_trim s
  have hanil : a = [] := by
    cases a with
    | nil => rfl
    | cons u a =>
      have hspace := ha u (List.mem_cons_self ..)
      exact Bool.noConfusion ((hstart u _ hs).symm.trans hspace)
  have hbnil : b = [] := by
    rcases List.eq_nil_or_concat b with rfl | ⟨b, u, rfl⟩
    · rfl
    · rw [List.concat_eq_append] at hb hs
      have hspace := hb u (by simp)
      have hlast := hend (a ++ (trim s ++ b)) u (hs.trans (by simp))
      exact Bool.noConfusion (hlast.symm.trans hspace)
  rw [hanil, hbnil, List.append_nil] at hs
  exact hs.symm

/-- Symbols that are not there. -/
theorem substitute_eq_self {us : List UInt16} {v : UInt16} (h : ∀ u ∈ us, u ∉ s) :
    substitute us v s = s := by
  unfold substitute
  refine (List.map_congr_left fun u hu => ?_).trans (List.map_id s)
  exact if_neg fun hmem => h u hmem hu

/-- A text of ASCII symbols. -/
theorem normalise_eq_self (h : ∀ u ∈ s, u.toNat < 128) : normalise s = s := by
  have hnot : ∀ {us : List UInt16}, (∀ u ∈ us, 128 ≤ u.toNat) → ∀ u ∈ us, u ∉ s := by
    intro us hus u hu hmem
    exact absurd (h u hmem) (Nat.not_lt.mpr (hus u hu))
  unfold normalise
  rw [substitute_eq_self (hnot (by decide)), substitute_eq_self (hnot (by decide)),
    substitute_eq_self (hnot (by decide)), substitute_eq_self (hnot (by decide))]

/-- A text where no digit stands behind an exponent mark. -/
theorem replaceAll_exponentNotation {f : Outcome UInt16 → JsString}
    (h : ∀ a e b, s = a ++ e :: b → IsExponentMark e → ∀ u ∈ b, isDigit u = false) :
    exponentNotation.replaceAll f s = s := by
  rw [replaceAll_eq]
  apply replaceRest_of_forall
  rintro t u rfl
  apply List.eq_nil_iff_forall_not_mem.mpr
  intro o ho
  obtain ⟨m, e, k, rest, -, he, hk, rfl, -⟩ := mem_run_exponentNotation.mp ho
  obtain ⟨sign, ds, -, hne, hds, rfl⟩ := hk
  obtain ⟨x, ds, rfl⟩ := List.exists_cons_of_ne_nil hne
  have hdigit := hds x (List.mem_cons_self ..)
  have hno := h (t ++ m) e (sign ++ (x :: ds) ++ rest) (by simp) he x (by simp)
  exact Bool.noConfusion (hno.symm.trans hdigit)

/-- Its notations with an exponent are none. -/
theorem expandExponents_eq_self
    (h : ∀ a e b, s = a ++ e :: b → IsExponentMark e → ∀ u ∈ b, isDigit u = false) :
    expandExponents tenTo s = s := replaceAll_exponentNotation h

/-- A text without currencies. -/
theorem readCurrency_eq_self (hsymbol : ∀ entry ∈ symbolTable, entry.1 ∉ s)
    (hcode : ∀ code, ¬ NamedByCode s code) : readCurrency s = .ok ⟨[], none, false, s⟩ := by
  have hfold : ∀ {table : List (UInt16 × JsString)} {ambiguous : Bool},
      (∀ entry ∈ table, entry.1 ∉ s) →
      table.foldl (Priced.readSymbol ambiguous) ⟨[], none, false, s⟩ = ⟨[], none, false, s⟩ := by
    intro table ambiguous htable
    induction table with
    | nil => rfl
    | cons entry table ih =>
      rw [List.forall_mem_cons] at htable
      have hread : Priced.readSymbol ambiguous ⟨[], none, false, s⟩ entry = ⟨[], none, false, s⟩ :=
        if_neg htable.1
      rw [List.foldl_cons, hread, ih htable.2]
  have hsymbols : withoutSymbols s = ⟨[], none, false, s⟩ := by
    unfold withoutSymbols
    rw [hfold fun entry hentry => hsymbol entry (List.mem_append_left _ hentry),
      hfold fun entry hentry => hsymbol entry (List.mem_append_right _ hentry)]
  have hsearch : currencyCode.search s = none := by
    rw [← Option.not_isSome_iff_eq_none, Option.isSome_iff_exists]
    rintro ⟨m, hm⟩
    obtain ⟨a, w, b, -, hrun, hw, -, -⟩ := exists_of_search hm
    exact hcode _ ⟨hw, w, hrun, rfl⟩
  rw [readCurrency_eq_ok_iff, hsymbols, readCode_of_none hsearch]
  exact ⟨rfl, Nat.zero_le 1⟩

/-- A text without a letter before a digit. -/
theorem countryQualifier_test_eq_false
    (h : ∀ a u b, s = a ++ u :: b → isLetter u = true → ∀ v ∈ b, isDigit v = false) :
    countryQualifier.test s = false := by
  rw [test_eq_false_iff]
  intro t u htu
  apply List.eq_nil_iff_forall_not_mem.mpr
  intro o ho
  obtain ⟨x, hx, hletter⟩ := exists_mem_taken countryQualifier_takes ho
  obtain ⟨y, hy, hdigit⟩ : ∃ y t, o.rest = y :: t ∧ isDigit y = true := by
    unfold countryQualifier digit at ho
    obtain ⟨o₁, -, o₂, ho₂, rfl⟩ := mem_run_seq.mp ho
    obtain ⟨o₃, -, o₄, ho₄, rfl⟩ := mem_run_seq.mp ho₂
    obtain ⟨o₅, -, o₆, ho₆, rfl⟩ := mem_run_seq.mp ho₄
    obtain ⟨⟨o₇, ho₇⟩, rfl⟩ := mem_run_ahead.mp ho₆
    obtain ⟨y, t, ht, hy, -⟩ := mem_run_set.mp ho₇
    exact ⟨y, t, ht, hy⟩
  obtain ⟨a, b, hab⟩ := List.append_of_mem hx
  have hparts := taken_append_rest _ ho
  rw [hab] at hparts
  have hno := h (t ++ a) x (b ++ o.rest) (by rw [htu, ← hparts]; simp) hletter y
    (by rw [hdigit.1]; simp)
  exact Bool.noConfusion (hno.symm.trans hdigit.2)

/-- A text without units. -/
theorem readUnit_eq_self {defaultUnit : Option Unit} (h : ∀ u ∈ s, lower u ≠ 112 ∧ u ≠ 37) :
    readUnit defaultUnit s = ⟨defaultUnit.getD .absolute, false, s⟩ := by
  have hbasis : basisPoints.test s = false :=
    test_eq_false basisPoints_takes fun u hu => (h u hu).1
  have hpercent : percentage.test s = false := by
    refine test_eq_false percentage_takes fun u hu => ?_
    rw [not_or]
    exact h u hu
  unfold readUnit
  rw [hbasis, hpercent, if_neg Bool.false_ne_true, if_neg Bool.false_ne_true]

/-- A text without a letter before a digit, and without units. -/
theorem afterUnit_eq_self {options : ParseOptions} {priced : Priced}
    (hletters : ∀ a u b, priced.text = a ++ u :: b → isLetter u = true → ∀ v ∈ b, isDigit v = false)
    (hunit : ∀ u ∈ priced.text, lower u ≠ 112 ∧ u ≠ 37) :
    (afterUnit options priced).text = priced.text := by
  unfold afterUnit
  rw [replace_of_test (countryQualifier_test_eq_false hletters), readUnit_eq_self hunit]

end

end AgentEval.Finance
