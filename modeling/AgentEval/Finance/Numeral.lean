import AgentEval.Finance.Reading
import AgentEval.Finance.Sign

/-!
# Plain decimal numerals, alone or as a rate

* `Numeral` — a sign, digits and maybe a point.
* **`Numeral.parse_eq_ok`**: what is read of a numeral with a percent sign, with basis points, or
  with neither.
* `Numeral.value_moveRight`, `Numeral.value_moveLeft` — moving the decimal point.
-/

namespace AgentEval.Finance

open Js Regex Regex.Pattern

/-- A plain decimal numeral: digits before and behind the point, and a sign. -/
structure Numeral where
  /-- The sign. -/
  sign : JsString
  /-- The digits before the point. -/
  int : JsString
  /-- The digits behind it. -/
  frac : JsString
  /-- There is at most one sign. -/
  sign_mem : sign ∈ [[], js "+", js "-"]
  /-- The digits are digits. -/
  digits : Digits (int ++ frac)
  /-- There is one. -/
  ne_nil : int ++ frac ≠ []

/-- How a rate is written. -/
inductive Spelling where
  /-- With a percent sign. -/
  | percent
  /-- In basis points. -/
  | bps
  /-- As a bare number. -/
  | bare
  deriving DecidableEq

namespace Spelling

/-- What stands behind the numeral. -/
def suffix : Spelling → JsString
  | percent => js "%"
  | bps => js " bps"
  | bare => []

/-- What is left of it once the unit is read. -/
def remains : Spelling → JsString
  | percent => js " "
  | bps => js "  "
  | bare => []

/-- The unit. -/
def unit : Spelling → Unit
  | percent => .percent
  | bps => .bps
  | bare => .absolute

/-- Whether it is named. -/
def explicit : Spelling → Bool
  | bare => false
  | _ => true

variable (m : Spelling)

/-- Symbols of no number, no sign and no exponent. -/
theorem suffix_plain : ∀ u ∈ m.suffix, plain u = true ∧ u.toNat < 128 ∧
    u ∉ [40, 43, 45, 69, 101] := by
  cases m <;> decide

/-- No white space at the end. -/
theorem suffix_end {t : JsString} {u : UInt16} (h : m.suffix = t ++ [u]) : isWhiteSpace u = false := by
  have hlast : (m.suffix.getLast?.map isWhiteSpace).getD false = false := by
    cases m <;> decide
  rwa [h, List.getLast?_concat] at hlast

/-- No scale word. -/
theorem not_isScale_suffix : ¬ IsScale (headWord m.suffix) := by
  unfold IsScale Spells
  cases m <;> decide

/-- No currency. -/
theorem not_named_suffix : (∀ entry ∈ symbolTable, entry.1 ∉ m.suffix) ∧
    ∀ code, ¬ NamedByCode m.suffix code := by
  have hcodes : ∀ code ∈ currencyCodes, ∀ w ∈ m.suffix.splitOnP separator, w.map upper ≠ code := by
    cases m <;> decide
  constructor
  · cases m <;> decide
  · rintro code ⟨hcode, w, hw, hupper⟩
    exact hcodes code hcode w hw hupper

/-- What is left has neither a letter nor a symbol of a number. -/
theorem remains_plain : ∀ u ∈ m.remains, plain u = true ∧ isLetter u = false := by
  cases m <;> decide

end Spelling

namespace Numeral

/-! ## The number it stands for -/

section

variable (n : Numeral)

/-- The digits, with a point if there are some behind it. -/
def body : JsString := if n.frac = [] then n.int else n.int ++ 46 :: n.frac

/-- As a text. -/
def text : JsString := n.sign ++ n.body

/-- The number it stands for. -/
def value : ℚ :=
  (if n.sign = js "-" then -1 else 1) * (digitsValue (n.int ++ n.frac) / 10 ^ n.frac.length)

/-- The decimal point moved two places to the right. -/
def moveRight : Numeral where
  sign := n.sign
  int := n.int ++ (n.frac ++ zeros 2).take 2
  frac := n.frac.drop 2
  sign_mem := n.sign_mem
  digits := by
    intro u hu
    rw [List.append_assoc, List.mem_append, List.mem_append] at hu
    rcases hu with hu | hu | hu
    · exact n.digits u (List.mem_append_left _ hu)
    · rcases List.mem_append.mp (List.mem_of_mem_take hu) with hu | hu
      · exact n.digits u (List.mem_append_right _ hu)
      · exact isDigit_of_mem_zeros hu
    · exact n.digits u (List.mem_append_right _ (List.mem_of_mem_drop hu))
  ne_nil := by
    have hlength : (n.int ++ (n.frac ++ zeros 2).take 2 ++ n.frac.drop 2).length ≠ 0 := by
      simp [zeros]
    exact fun h => hlength (List.length_eq_zero_iff.mpr h)

/-- The digits before the point, at least three. -/
def padded : JsString := zeros (3 - n.int.length) ++ n.int

/-- The decimal point moved two places to the left. -/
def moveLeft : Numeral where
  sign := n.sign
  int := n.padded.take (n.padded.length - 2)
  frac := n.padded.drop (n.padded.length - 2) ++ n.frac
  sign_mem := n.sign_mem
  digits := by
    intro u hu
    rw [← List.append_assoc, List.take_append_drop, List.mem_append] at hu
    rcases hu with hu | hu
    · rcases List.mem_append.mp hu with hu | hu
      · exact isDigit_of_mem_zeros hu
      · exact n.digits u (List.mem_append_left _ hu)
    · exact n.digits u (List.mem_append_right _ hu)
  ne_nil := by
    rw [← List.append_assoc, List.take_append_drop]
    intro h
    obtain ⟨hpadded, hfrac⟩ := List.append_eq_nil_iff.mp h
    apply n.ne_nil
    rw [(List.append_eq_nil_iff.mp hpadded).2, hfrac]
    rfl

variable {n}

/-- Its symbols. -/
theorem mem_body {u : UInt16} (hu : u ∈ n.body) : isDigit u = true ∨ u = 46 := by
  have hdigits := List.forall_mem_append.mp n.digits
  unfold body at hu
  split_ifs at hu
  · exact .inl (hdigits.1 u hu)
  · rcases List.mem_append.mp hu with hu | hu
    · exact .inl (hdigits.1 u hu)
    · rcases List.mem_cons.mp hu with rfl | hu
      · exact .inr rfl
      · exact .inl (hdigits.2 u hu)

/-- It ends with a digit. -/
theorem exists_last : ∃ init d, n.body = init ++ [d] ∧ isDigit d = true := by
  have hdigits := List.forall_mem_append.mp n.digits
  have hne := n.ne_nil
  have hend : ∀ {s : JsString}, s ≠ [] → Digits s → ∃ init d, s = init ++ [d] ∧ isDigit d = true := by
    intro s hs hall
    refine ⟨s.dropLast, s.getLast hs, (List.dropLast_append_getLast hs).symm, ?_⟩
    exact hall _ (List.getLast_mem hs)
  unfold body
  split_ifs with hfrac
  · rw [hfrac, List.append_nil] at hne
    exact hend hne hdigits.1
  · obtain ⟨init, d, heq, hd⟩ := hend hfrac hdigits.2
    refine ⟨n.int ++ 46 :: init, d, ?_, hd⟩
    rw [heq, List.append_assoc, List.cons_append]

/-- The digits around the point. -/
theorem parts_body : n.body.takeWhile isDigit = n.int ∧
    ((n.body.dropWhile isDigit).drop 1).takeWhile isDigit = n.frac := by
  have hdigits := List.forall_mem_append.mp n.digits
  unfold body
  split_ifs with hfrac
  · rw [hfrac, List.takeWhile_eq_self_iff.mpr hdigits.1, List.dropWhile_eq_nil_iff.mpr hdigits.1]
    exact ⟨rfl, rfl⟩
  · rw [List.takeWhile_append_of_pos hdigits.1, List.dropWhile_append_of_pos hdigits.1]
    refine ⟨List.append_nil _, ?_⟩
    exact List.takeWhile_eq_self_iff.mpr hdigits.2

/-- The number without the sign. -/
theorem numeralValue_body :
    numeralValue n.body = digitsValue (n.int ++ n.frac) / 10 ^ n.frac.length := by
  have hnot : ∀ u : UInt16, u ∈ [43, 45] → isDigit u = false ∧ u ≠ 46 := by decide
  have hhead : ∀ u ∈ [43, 45], n.body.head? ≠ some u := by
    intro u hu hhead
    rcases mem_body (List.mem_of_mem_head? hhead) with hdigit | hpoint
    · exact Bool.noConfusion ((hnot u hu).1.symm.trans hdigit)
    · exact (hnot u hu).2 hpoint
  have hplus := hhead 43 (by decide)
  have hminus := hhead 45 (by decide)
  unfold numeralValue
  dsimp only
  rw [if_neg (not_or.mpr ⟨hminus, hplus⟩), if_neg hminus, parts_body.1, parts_body.2, one_mul]

/-- A hundred times as much. -/
theorem value_moveRight : n.moveRight.value = n.value * 100 := by
  have hdigits : (n.frac ++ zeros 2).take 2 ++ n.frac.drop 2 =
      n.frac ++ zeros (2 - n.frac.length) := by
    rcases n.frac with _ | ⟨u, _ | ⟨v, t⟩⟩
    · rfl
    · rfl
    · have hnone : 2 - (u :: v :: t).length = 0 := by simp
      rw [hnone]
      exact (List.append_nil (u :: v :: t)).symm
  have hpower : (10 : ℚ) ^ (2 - n.frac.length) * 10 ^ n.frac.length =
      100 * 10 ^ (n.frac.length - 2) := by
    have hhundred : (100 : ℚ) = 10 ^ 2 := by norm_num
    rw [hhundred, ← pow_add, ← pow_add]
    congr 1
    omega
  have hvalue : (digitsValue (n.moveRight.int ++ n.moveRight.frac) : ℚ) =
      digitsValue (n.int ++ n.frac) * 10 ^ (2 - n.frac.length) := by
    change (digitsValue (n.int ++ (n.frac ++ zeros 2).take 2 ++ n.frac.drop 2) : ℚ) = _
    rw [List.append_assoc, hdigits, ← List.append_assoc, digitsValue_append, digitsValue_zeros]
    unfold zeros
    rw [List.length_replicate, Nat.add_zero]
    push_cast
    rfl
  have hlength : n.moveRight.frac.length = n.frac.length - 2 := List.length_drop
  have hsign : n.moveRight.sign = n.sign := rfl
  unfold value
  rw [hvalue, hlength, hsign, mul_assoc]
  congr 1
  rw [div_mul_eq_mul_div, div_eq_div_iff (by positivity) (by positivity), mul_assoc, mul_assoc, hpower]

/-- A hundredth. -/
theorem value_moveLeft : n.moveLeft.value = n.value / 100 := by
  have hlong : 2 ≤ n.padded.length := by
    unfold padded zeros
    rw [List.length_append, List.length_replicate]
    omega
  have hvalue : digitsValue (n.moveLeft.int ++ n.moveLeft.frac) = digitsValue (n.int ++ n.frac) := by
    change digitsValue (n.padded.take (n.padded.length - 2) ++
      (n.padded.drop (n.padded.length - 2) ++ n.frac)) = _
    rw [← List.append_assoc, List.take_append_drop]
    unfold padded
    rw [List.append_assoc, digitsValue_append, digitsValue_zeros, Nat.zero_mul, Nat.zero_add]
  have hlength : n.moveLeft.frac.length = 2 + n.frac.length := by
    change (n.padded.drop (n.padded.length - 2) ++ n.frac).length = _
    rw [List.length_append, List.length_drop, Nat.sub_sub_self hlong]
  have hsign : n.moveLeft.sign = n.sign := rfl
  unfold value
  rw [hvalue, hlength, hsign, pow_add, mul_div_assoc, div_div]
  norm_num [mul_comm]

end

/-! ## What is read of it -/

section

variable {V : Type} {A : Arithmetic V} {n : Numeral} {m : Spelling} {p : JsString}

/-- A sign, or what is left of one. -/
def SignOnly (p : JsString) : Prop := ∀ u ∈ p, u ∈ [32, 43, 45]

/-- The sign of a numeral. -/
theorem signOnly_sign : SignOnly n.sign := by
  have hall : ∀ s ∈ [[], js "+", js "-"], ∀ u ∈ s, u ∈ [32, 43, 45] := by decide
  exact hall n.sign n.sign_mem

/-- A property of all symbols. -/
theorem forall_mem_rate {P : UInt16 → Prop} (hp : SignOnly p) (hsign : ∀ u ∈ [32, 43, 45], P u)
    (hdigit : ∀ u, isDigit u = true → P u) (hpoint : P 46) (hsuffix : ∀ u ∈ m.suffix, P u) :
    ∀ u ∈ p ++ (n.body ++ m.suffix), P u := by
  intro u hu
  rcases List.mem_append.mp hu with hu | hu
  · exact hsign u (hp u hu)
  · rcases List.mem_append.mp hu with hu | hu
    · rcases mem_body hu with hu | rfl
      · exact hdigit u hu
      · exact hpoint
    · exact hsuffix u hu

/-- The number stands alone. -/
theorem exists_placed (hp : SignOnly p) :
    ∃ init d, n.body = init ++ [d] ∧ Placed p init d m.suffix := by
  obtain ⟨init, d, hbody, hd⟩ := @exists_last n
  have hnot : ∀ u : UInt16, u ∈ [32, 43, 45] → isDigit u = false := by decide
  refine ⟨init, d, hbody, fun u hu => hnot u (hp u hu), ?_, hd, ?_⟩
  · intro u hu
    rcases mem_body (hbody ▸ List.mem_append_left _ hu) with hu | rfl
    · exact isNumeric_of_isDigit hu
    · rfl
  · exact fun u hu => (plain_iff.mp (m.suffix_plain u hu).1).1

/-- No white space at the ends. -/
theorem trim_rate : trim (n.text ++ m.suffix) = n.text ++ m.suffix := by
  have hsigns : ∀ s ∈ [[], js "+", js "-"], ∀ v ∈ s, isWhiteSpace v = false := by decide
  obtain ⟨init, d, hbody, hd⟩ := @exists_last n
  apply trim_eq_self
  · intro u t heq
    have hmem : u ∈ n.text := by
      have hne : n.text ≠ [] := by
        unfold text
        rw [hbody, ← List.append_assoc]
        exact List.append_ne_nil_of_right_ne_nil _ (List.cons_ne_nil d [])
      obtain ⟨v, w, hw⟩ := List.exists_cons_of_ne_nil hne
      rw [hw] at heq ⊢
      obtain ⟨rfl, -⟩ := List.cons.inj heq
      exact List.mem_cons_self ..
    rcases List.mem_append.mp hmem with hu | hu
    · exact hsigns n.sign n.sign_mem u hu
    · rcases mem_body hu with hu | rfl
      · exact (not_isWhiteSpace_of_isDigit hu).1
      · rfl
  · intro t u heq
    rcases List.eq_nil_or_concat m.suffix with hnil | ⟨x, v, hv⟩
    · rw [hnil, List.append_nil] at heq
      unfold text at heq
      rw [hbody, ← List.append_assoc] at heq
      obtain ⟨-, hlast⟩ := List.append_inj' heq rfl
      obtain ⟨rfl, -⟩ := List.cons.inj hlast
      exact (not_isWhiteSpace_of_isDigit hd).1
    · rw [List.concat_eq_append] at hv
      rw [hv, ← List.append_assoc] at heq
      obtain ⟨-, hlast⟩ := List.append_inj' heq rfl
      obtain ⟨rfl, -⟩ := List.cons.inj hlast
      exact m.suffix_end hv

/-- The text is read as it is. -/
theorem rewritten_rate : A.rewritten (n.text ++ m.suffix) = n.text ++ m.suffix := by
  have hassoc : n.text ++ m.suffix = n.sign ++ (n.body ++ m.suffix) := List.append_assoc ..
  have hascii : ∀ u ∈ n.text ++ m.suffix, u.toNat < 128 := by
    rw [hassoc]
    refine forall_mem_rate signOnly_sign (by decide) ?_ (by decide)
      fun u hu => (m.suffix_plain u hu).2.1
    intro u hu
    unfold isDigit at hu
    rw [Bool.and_eq_true, decide_eq_true_iff, decide_eq_true_iff] at hu
    exact lt_of_le_of_lt hu.2 (by norm_num)
  have hexponent : ∀ u ∈ n.text ++ m.suffix, ¬ IsExponentMark u := by
    rw [hassoc]
    unfold IsExponentMark
    refine forall_mem_rate signOnly_sign (by decide) ?_ (by decide) ?_
    · rintro u hu (rfl | rfl)
      · exact absurd hu (by decide)
      · exact absurd hu (by decide)
    · rintro u hu (rfl | rfl)
      · exact (m.suffix_plain _ hu).2.2 (by decide)
      · exact (m.suffix_plain _ hu).2.2 (by decide)
  unfold Arithmetic.rewritten Arithmetic.expandExponents
  rw [trim_rate, normalise_eq_self hascii]
  apply replaceAll_exponentNotation
  intro a e b heq he
  exact absurd he (hexponent e (by rw [heq]; simp))

/-- No scale words in a row. -/
theorem chainedScales_rate : chainedScales.test (n.text ++ m.suffix) = false := by
  obtain ⟨init, d, hbody, hplaced⟩ := @exists_placed n m n.sign signOnly_sign
  have htext : n.text ++ m.suffix = n.sign ++ (init ++ d :: m.suffix) := by
    unfold text
    rw [hbody, List.append_assoc, List.append_assoc]
    rfl
  rw [htext, ← Bool.not_eq_true, chained_iff hplaced]
  exact fun h => m.not_isScale_suffix h.1

/-- The sign. -/
theorem readSign_rate : ∃ convention p, SignOnly p ∧
    readSign (n.text ++ m.suffix) =
      .ok ⟨decide (n.sign = js "-"), convention, p ++ (n.body ++ m.suffix)⟩ := by
  have hassoc : n.text ++ m.suffix = n.sign ++ (n.body ++ m.suffix) := List.append_assoc ..
  have hother : ∀ u : UInt16, u ∈ [40, 43, 45] → isDigit u = false ∧ u ≠ 46 ∧
      u ∈ [40, 43, 45, 69, 101] := by decide
  have hnot : ∀ u ∈ [40, 43, 45], u ∉ n.body ++ m.suffix := by
    intro u hu hmem
    obtain ⟨hdigit, hpoint, hmark⟩ := hother u hu
    rcases List.mem_append.mp hmem with hmem | hmem
    · rcases mem_body hmem with hmem | hmem
      · exact Bool.noConfusion (hdigit.symm.trans hmem)
      · exact hpoint hmem
    · exact (m.suffix_plain u hmem).2.2 hmark
  have hparen := hnot 40 (by decide)
  have hplus := hnot 43 (by decide)
  have hminus := hnot 45 (by decide)
  have hcons : ∀ {u v : UInt16}, u ≠ v → u ∉ n.body ++ m.suffix → u ∉ v :: (n.body ++ m.suffix) :=
    fun hne h => List.not_mem_cons_of_ne_of_not_mem hne h
  have hsign := n.sign_mem
  rw [hassoc]
  simp only [List.mem_cons, List.not_mem_nil, or_false] at hsign
  rcases hsign with hsign | hsign | hsign
  · refine ⟨.none, [], List.forall_mem_nil _, ?_⟩
    rw [hsign]
    exact readSign_of_none (parenthesised_of_not_mem hparen) (test_signBefore_of_not_mem hminus)
      (test_signBefore_of_not_mem hplus)
  · have hparen' := @parenthesised_of_not_mem (43 :: (n.body ++ m.suffix)) (hcons (by decide) hparen)
    have hminus' : minusSign.test (43 :: (n.body ++ m.suffix)) = false :=
      test_signBefore_of_not_mem (hcons (by decide) hminus)
    rw [hsign]
    -- in front of a point a plus is not read, and stays
    cases hread : plusSign.test (43 :: (n.body ++ m.suffix)) with
    | true =>
      refine ⟨.explicit, [32], by unfold SignOnly; decide, ?_⟩
      refine (readSign_of_plus hparen' hminus' hread).trans ?_
      rw [List.replace_cons_self]
      rfl
    | false =>
      refine ⟨.none, [43], by unfold SignOnly; decide, ?_⟩
      exact readSign_of_none hparen' hminus' hread
  · obtain ⟨u, b, hbody⟩ : ∃ u b, n.body = u :: b := by
      obtain ⟨init, d, hbody, -⟩ := @exists_last n
      apply List.exists_cons_of_ne_nil
      rw [hbody]
      exact List.append_ne_nil_of_right_ne_nil _ (List.cons_ne_nil d [])
    have hparen' := @parenthesised_of_not_mem (45 :: (n.body ++ m.suffix)) (hcons (by decide) hparen)
    have hread : minusSign.test (45 :: (n.body ++ m.suffix)) = true := by
      refine test_signBefore_iff.mpr ⟨[], [], u, b ++ m.suffix, by rw [hbody]; rfl, ?_,
        List.forall_mem_nil _, ?_⟩
      · intro t v h
        exact absurd h.symm (List.append_ne_nil_of_right_ne_nil t (List.cons_ne_nil v []))
      · rcases mem_body (hbody ▸ List.mem_cons_self ..) with hu | rfl
        · rw [hu]
          rfl
        · rfl
    refine ⟨.explicit, [32], by unfold SignOnly; decide, ?_⟩
    rw [hsign]
    refine (readSign_of_minus hparen' hread).trans ?_
    rw [List.replace_cons_self]
    rfl

/-- No currency. -/
theorem readCurrency_rate (hp : SignOnly p) : readCurrency (p ++ (n.body ++ m.suffix)) =
    .ok ⟨[], none, false, p ++ (n.body ++ m.suffix)⟩ := by
  have hneutral : ∀ u ∈ p ++ n.body, Neutral u := by
    have hsigns : ∀ u ∈ ([32, 43, 45] : JsString), Neutral u := by decide
    intro u hu
    rcases List.mem_append.mp hu with hu | hu
    · exact hsigns u (hp u hu)
    · rcases mem_body hu with hu | rfl
      · exact neutral_of_isDigit hu
      · decide
  have hsame : SameNames (p ++ (n.body ++ m.suffix)) m.suffix := by
    have haround := @SameNames.of_around m.suffix (p ++ n.body) [] hneutral (List.forall_mem_nil _)
    rwa [List.append_nil, List.append_assoc] at haround
  obtain ⟨hsymbols, hcodes⟩ := m.not_named_suffix
  apply readCurrency_eq_self
  · intro entry hentry hmem
    exact hsymbols entry hentry ((hsame.symbols _ (List.mem_map_of_mem hentry)).mp hmem)
  · intro code hcode
    exact hcodes code ((namedByCode_congr hsame.runs).mp hcode)

/-- The symbols before the mark. -/
theorem not_isLetter_of_mem (hp : SignOnly p) {u : UInt16} (hu : u ∈ p ++ n.body) :
    isLetter u = false ∧ lower u ≠ 112 ∧ u ≠ 37 := by
  have hsigns : ∀ u ∈ ([32, 43, 45] : JsString), isLetter u = false ∧ lower u ≠ 112 ∧ u ≠ 37 := by
    decide
  have hdigits : ∀ k < 10, isLetter (UInt16.ofNat (48 + k)) = false ∧
      lower (UInt16.ofNat (48 + k)) ≠ 112 ∧ UInt16.ofNat (48 + k) ≠ 37 := by decide
  rcases List.mem_append.mp hu with hu | hu
  · exact hsigns u (hp u hu)
  · rcases mem_body hu with hu | rfl
    · unfold isDigit at hu
      rw [Bool.and_eq_true, decide_eq_true_iff, decide_eq_true_iff] at hu
      have hdigit := hdigits (u.toNat - 48) (by omega)
      rwa [Nat.add_sub_cancel' hu.1, UInt16.ofNat_toNat] at hdigit
    · decide

/-- The unit. -/
theorem afterUnit_rate (hp : SignOnly p) {priced : Priced}
    (hpriced : priced.text = p ++ (n.body ++ m.suffix)) :
    afterUnit {} priced = ⟨m.unit, m.explicit, p ++ (n.body ++ m.remains)⟩ := by
  have hassoc : ∀ t : JsString, p ++ (n.body ++ t) = (p ++ n.body) ++ t :=
    fun t => (List.append_assoc ..).symm
  have hne : p ++ n.body ≠ [] := by
    obtain ⟨init, d, hbody, -⟩ := @exists_last n
    rw [hbody, ← List.append_assoc]
    exact List.append_ne_nil_of_right_ne_nil _ (List.cons_ne_nil d [])
  have hqualifier : countryQualifier.test (p ++ (n.body ++ m.suffix)) = false := by
    apply countryQualifier_test_eq_false
    intro a u b heq hletter v hv
    have hbehind : ∀ u ∈ m.suffix, isDigit u = false :=
      fun u hu => (plain_iff.mp (m.suffix_plain u hu).1).1
    rw [hassoc] at heq
    rcases List.append_eq_append_iff.mp heq with ⟨c, -, hc⟩ | ⟨c, hc, ht⟩
    · exact hbehind v (by rw [hc]; simp [hv])
    · cases c with
      | nil =>
        rw [List.nil_append] at ht
        exact hbehind v (ht ▸ List.mem_cons_of_mem _ hv)
      | cons x c =>
        -- the letter would stand before the mark
        obtain ⟨rfl, -⟩ := List.cons.inj ht
        have hmem : u ∈ p ++ n.body := hc ▸ List.mem_append_right _ (List.mem_cons_self ..)
        exact Bool.noConfusion ((not_isLetter_of_mem hp hmem).1.symm.trans hletter)
  have hword : ∀ (x : UInt16) (w : JsString), isLetter x = true →
      (word (x :: w)).Opens fun u => isLetter u = true ∨ u = 37 := by
    intro x w hx
    refine opens_word fun y hy => .inl ?_
    unfold isLetter at hx ⊢
    rwa [← sameLetter_iff.mp hy]
  have hstays : ∀ x ∈ p ++ n.body, ¬ (isLetter x = true ∨ x = 37) := by
    intro x hx
    obtain ⟨hletter, -, hpercent⟩ := not_isLetter_of_mem hp hx
    rw [hletter, not_or]
    exact ⟨Bool.false_ne_true, hpercent⟩
  unfold afterUnit
  rw [hpriced, replace_of_test hqualifier, hassoc, hassoc]
  cases m with
  | bare =>
    refine readUnit_eq_self fun u hu => ?_
    exact (not_isLetter_of_mem hp ((List.append_nil _).symm ▸ hu)).2
  | percent =>
    have hopens : percentage.Opens fun u => isLetter u = true ∨ u = 37 := by
      apply opens_oneOf
      simp only [List.forall_mem_cons]
      exact ⟨fun u hu => .inr (beq_iff_eq.mp hu), hword 112 (js "ercentage") rfl,
        hword 112 (js "ercent") rfl, hword 112 (js "ct") rfl, List.forall_mem_nil _⟩
    have hbasis : basisPoints.test (p ++ n.body ++ js "%") = false := by
      refine test_eq_false basisPoints_takes fun u hu => ?_
      rcases List.mem_append.mp hu with hu | hu
      · exact (not_isLetter_of_mem hp hu).2.1
      · rw [List.mem_singleton.mp hu]
        decide
    have hpercent : percentage.test (p ++ n.body ++ js "%") = true := by
      refine test_iff.mpr ⟨p ++ n.body, js "%", ⟨js "%", [], []⟩, rfl, ?_⟩
      rw [List.isEmpty_eq_false_iff.mpr hne]
      exact List.mem_of_mem_head? rfl
    have hreplace : percentage.replaceAll (fun _ => js " ") (p ++ n.body ++ js "%") =
        p ++ n.body ++ js " " := by
      rw [replaceAll_eq, replaceRest_append hopens hstays hne]
      rfl
    change readUnit none (p ++ n.body ++ js "%") = _
    unfold readUnit
    rw [hbasis, hpercent, if_neg Bool.false_ne_true, if_pos rfl, hreplace]
    rfl
  | bps =>
    have hopens : basisPoints.Opens fun u => isLetter u = true ∨ u = 37 := by
      apply opens_oneOf
      simp only [List.forall_mem_cons]
      exact ⟨hword 98 (js "asis") rfl, hword 98 (js "ps") rfl, hword 98 (js "p") rfl,
        List.forall_mem_nil _⟩
    have hbasis : basisPoints.test (p ++ n.body ++ js " bps") = true := by
      refine test_iff.mpr ⟨p ++ n.body ++ js " ", js "bps", ⟨js "bps", [], []⟩,
        (List.append_assoc (p ++ n.body) (js " ") (js "bps")).symm, ?_⟩
      rw [List.isEmpty_eq_false_iff.mpr (List.append_ne_nil_of_left_ne_nil hne _)]
      exact List.mem_of_mem_head? rfl
    have hreplace : basisPoints.replaceAll (fun _ => js " ") (p ++ n.body ++ js " bps") =
        p ++ n.body ++ js "  " := by
      rw [replaceAll_eq, replaceRest_append hopens hstays hne]
      rfl
    change readUnit none (p ++ n.body ++ js " bps") = _
    unfold readUnit
    rw [hbasis, if_pos rfl, hreplace]
    rfl

/-- No scale word. -/
theorem readScale_rate (hp : SignOnly p) : A.readScale (p ++ (n.body ++ m.remains)) =
    .ok ⟨[], A.ofNat 1, none, p ++ (n.body ++ m.remains)⟩ := by
  apply Arithmetic.readScale_of_forall
  intro entry hentry
  obtain ⟨hne, hlower⟩ := scaleWords_lower entry hentry
  obtain ⟨x, w, hw⟩ := List.exists_cons_of_ne_nil hne
  have htakes : (scaleAfterDigit entry.1).Takes fun u => isLetter u = true := by
    have hx : x ∈ entry.1 := hw ▸ List.mem_cons_self ..
    refine .inr (.inr (.inl (takes_word hx fun y hy => ?_)))
    have hletter : isLetter x = true := by
      have hrange := hlower x hx
      rw [isLetter_iff]
      omega
    unfold isLetter at hletter ⊢
    rwa [← sameLetter_iff.mp hy]
  refine test_eq_false htakes fun u hu => ?_
  rw [Bool.not_eq_true]
  rw [← List.append_assoc] at hu
  rcases List.mem_append.mp hu with hu | hu
  · exact (not_isLetter_of_mem hp hu).1
  · exact (m.remains_plain u hu).2

/-- The one number. -/
theorem tokensOf_rate (hp : SignOnly p) : tokensOf (p ++ (n.body ++ m.remains)) = [n.body] := by
  have hsigns : ∀ u ∈ ([32, 43, 45] : JsString), plain u = true := by decide
  have hplain : ∀ u ∈ n.body, plain u = false := by
    intro u hu
    unfold plain
    rcases mem_body hu with hu | rfl
    · rw [isNumeric_of_isDigit hu]
      rfl
    · rfl
  have hdigit : n.body.any isDigit = true := by
    obtain ⟨init, d, hbody, hd⟩ := @exists_last n
    rw [hbody, List.any_append, List.any_cons, hd]
    simp
  rw [tokensOf_eq, numbers_around (fun u hu => hsigns u (hp u hu))
    fun u hu => (m.remains_plain u hu).1]
  unfold numbers
  rw [List.splitOnP_eq_singleton hplain]
  exact List.filter_cons_of_pos hdigit

/-- The digits. -/
theorem decodeDigits_body (hfinite : A.isFinite (A.ofText n.body) = true) :
    ∃ precision, A.decodeDigits n.body .en = .ok ⟨A.ofText n.body, precision⟩ := by
  have hnot : ∀ u : UInt16, isDigit u = false → u ≠ 46 → u ∉ n.body := by
    intro u hu hpoint hmem
    rcases mem_body hmem with hmem | hmem
    · exact Bool.noConfusion (hu.symm.trans hmem)
    · exact hpoint hmem
  have hfilter : n.body.filter (· != 39) = n.body := by
    apply List.filter_eq_self.mpr
    intro u hu
    rw [bne_iff_ne]
    rintro rfl
    exact hnot 39 rfl (by decide) hu
  have hgroups : ¬ 0 < (n.body.splitOn 44).length - 1 := by
    rw [length_splitOn, List.count_eq_zero.mpr (hnot 44 rfl (by decide))]
    exact lt_irrefl 0
  have hpoints : ¬ 1 < (n.body.splitOn 46).length - 1 := by
    have hcount : ∀ {s : JsString}, Digits s → s.count 46 = 0 := by
      intro s hs
      apply List.count_eq_zero.mpr
      exact fun h => Bool.noConfusion (hs 46 h)
    have hdigits := List.forall_mem_append.mp n.digits
    rw [length_splitOn, Nat.add_sub_cancel]
    unfold body
    split_ifs
    · rw [hcount hdigits.1]
      exact Nat.not_lt_zero 1
    · rw [List.count_append, List.count_cons_self, hcount hdigits.1, hcount hdigits.2]
      exact lt_irrefl 1
  refine ⟨(((n.body.splitOn 46).drop 1).headD []).length, ?_⟩
  unfold Arithmetic.decodeDigits NumberLocale.groupSep NumberLocale.decimalSep
  dsimp only
  rw [hfilter, if_neg hpoints, if_neg fun h => hgroups h.1, if_pos rfl, if_neg hgroups, hfinite]
  rfl

/-- **What is read of a numeral**, alone or as a rate. -/
theorem parse_eq_ok (n : Numeral) (m : Spelling) (hfinite : A.isFinite (A.ofText n.body) = true) :
    ∃ q, A.parseFinancialNumber (n.text ++ m.suffix) {} = .ok q ∧ q.currency = none ∧
      q.unit = m.unit ∧ q.unitExplicit = m.explicit ∧
      q.value = if n.sign = js "-" then A.neg (A.mul (A.ofText n.body) (A.ofNat 1))
        else A.mul (A.ofText n.body) (A.ofNat 1) := by
  obtain ⟨convention, p, hp, hsigned⟩ := @readSign_rate n m
  obtain ⟨precision, hdecoded⟩ := decodeDigits_body hfinite
  have hdigits : (trim (n.text ++ m.suffix)).any isDigit = true := by
    obtain ⟨init, d, hbody, hd⟩ := @exists_last n
    rw [trim_rate]
    unfold text
    rw [hbody]
    refine List.any_eq_true.mpr ⟨d, ?_, hd⟩
    simp
  have hchained := @chainedScales_rate n m
  rw [← @rewritten_rate _ A] at hchained
  rw [← @rewritten_rate _ A] at hsigned
  have hunit := @afterUnit_rate n m p hp
    ⟨[], none, false, p ++ (n.body ++ m.suffix)⟩ rfl
  have hscaled := @readScale_rate _ A n m p hp
  have htext : (afterUnit {} ⟨[], none, false, p ++ (n.body ++ m.suffix)⟩).text =
      p ++ (n.body ++ m.remains) := by rw [hunit]
  rw [← htext] at hscaled
  refine ⟨_, Arithmetic.parse_of_steps hdigits hchained hsigned (readCurrency_rate hp) hscaled
    (htext.symm ▸ tokensOf_rate hp) hdecoded, ?_, ?_, ?_, ?_⟩
  · rw [Arithmetic.currency_quantity]
  · rw [(Arithmetic.unit_quantity A).1, hunit]
  · rw [(Arithmetic.unit_quantity A).2, hunit]
  · simp only [Arithmetic.quantity, decide_eq_true_eq]

end

end Numeral

end AgentEval.Finance
