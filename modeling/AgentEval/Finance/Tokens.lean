import AgentEval.Finance.Currency
import AgentEval.Regex.Taken

/-!
# The number that is left

What the steps after the exponents take out of a text are symbols that no number has, and they put a
space there. So the numbers of a text are the same from the sign to the end.

* `tokensOf_eq` — the tokens are the stretches of digits and separators with a digit.
* `mem_run_scaleAfterDigit` — a scale word behind a digit.
* **`exists_token_of_parse`**: a text that is parsed has one number, and what becomes of it.
-/

namespace AgentEval.Finance

open Js Regex Regex.Pattern

/-! ## Numbers in a text -/

/-- A symbol of a number. -/
def isNumeric (u : UInt16) : Bool := isDigit u || u == 46 || u == 44 || u == 39

/-- A symbol of no number. -/
def plain (u : UInt16) : Bool := !isNumeric u

/-- The numbers of a text. -/
def numbers (s : JsString) : List JsString := (s.splitOnP plain).filter fun t => t.any isDigit

/-- A digit is a symbol of a number. -/
theorem isNumeric_of_isDigit {u : UInt16} (h : isDigit u = true) : isNumeric u = true := by
  unfold isNumeric
  rw [h]
  rfl

/-- What is neither a digit nor a separator. -/
theorem plain_iff {u : UInt16} : plain u = true ↔ isDigit u = false ∧ u ≠ 46 ∧ u ≠ 44 ∧ u ≠ 39 := by
  unfold plain isNumeric
  simp only [Bool.not_eq_true', Bool.or_eq_false_iff, beq_eq_false_iff_ne, and_assoc]

/-- Letters. -/
theorem plain_of_isLetter {u : UInt16} (h : isLetter u = true) : plain u = true := by
  rw [isLetter_iff] at h
  have hne : ∀ {v : UInt16}, v.toNat < 65 → u ≠ v := by
    rintro v hv rfl
    omega
  rw [plain_iff]
  refine ⟨?_, hne (by decide), hne (by decide), hne (by decide)⟩
  unfold isDigit
  rw [Bool.and_eq_false_iff, decide_eq_false_iff_not, decide_eq_false_iff_not]
  omega

/-- White space. -/
theorem plain_of_isWhiteSpace {u : UInt16} (h : isWhiteSpace u = true) : plain u = true := by
  have hne : ∀ {v : UInt16}, isWhiteSpace v = false → u ≠ v := by
    rintro v hv rfl
    exact Bool.noConfusion (hv.symm.trans h)
  rw [plain_iff]
  refine ⟨?_, hne rfl, hne rfl, hne rfl⟩
  rw [← Bool.not_eq_true]
  intro hdigit
  exact Bool.noConfusion ((not_isWhiteSpace_of_isDigit hdigit).1.symm.trans h)

/-- Symbols of no number, at least one. -/
def Blot (s : JsString) : Prop := s ≠ [] ∧ ∀ u ∈ s, plain u = true

/-- A space. -/
theorem blot_space : Blot (js " ") := ⟨by decide, by decide⟩

/-- Symbols of no number in the place of such symbols. -/
def Swaps (s t : JsString) : Prop :=
  ∃ x v w y, Blot v ∧ Blot w ∧ s = x ++ (v ++ y) ∧ t = x ++ (w ++ y)

section

variable {s t a b : JsString}

/-- What is around a text. -/
theorem numbers_around (ha : ∀ u ∈ a, plain u = true) (hb : ∀ u ∈ b, plain u = true) :
    numbers (a ++ (s ++ b)) = numbers s := by
  unfold numbers
  rw [Runs.filter_append_left rfl ha, Runs.filter_append_right rfl hb]

/-- Symbols of no number in the place of such symbols. -/
theorem Swaps.numbers (h : Swaps a b) (s t : JsString) :
    numbers (s ++ (a ++ t)) = numbers (s ++ (b ++ t)) := by
  obtain ⟨x, v, w, y, hv, hw, rfl, rfl⟩ := h
  have hexchange := Runs.filter_exchange (p := plain) (q := fun t => t.any isDigit) (s := s ++ x)
    (t := y ++ t) rfl hv.1 hv.2 hw.1 hw.2
  unfold Finance.numbers
  simpa only [List.append_assoc] using hexchange

/-- A change of symbols of no number. -/
theorem numbers_map {f : UInt16 → UInt16} (hf : ∀ u, plain (f u) = plain u)
    (hid : ∀ u, plain u = false → f u = u) : numbers (s.map f) = numbers s := by
  unfold numbers
  rw [Runs.splitOnP_map hf hid]

/-- Some symbols of no number replaced by one. -/
theorem numbers_substitute {us : List UInt16} {v : UInt16} (hus : ∀ u ∈ us, plain u = true)
    (hv : plain v = true) : numbers (substitute us v s) = numbers s := by
  unfold substitute
  apply numbers_map
  · intro u
    split_ifs with hu
    · rw [hv, hus u hu]
    · rfl
  · intro u hu
    apply if_neg
    intro hmem
    exact Bool.noConfusion (hu.symm.trans (hus u hmem))

/-- The first of a symbol of no number replaced. -/
theorem numbers_replace {x y : UInt16} (hx : plain x = true) (hy : plain y = true) :
    numbers (s.replace x y) = numbers s := by
  by_cases hmem : x ∈ s
  · obtain ⟨a, b, rfl, ha⟩ := List.eq_append_cons_of_mem hmem
    have hswaps : Swaps [y] [x] := ⟨[], [y], [x], [], ⟨List.cons_ne_nil y [],
      List.forall_mem_singleton.mpr hy⟩, ⟨List.cons_ne_nil x [],
      List.forall_mem_singleton.mpr hx⟩, rfl, rfl⟩
    rw [List.replace_append_right ha, List.replace_cons_self]
    exact hswaps.numbers a b
  · rw [List.replace_of_not_mem hmem]

variable {r : Pattern UInt16} {f : Outcome UInt16 → JsString}

/-- One match replaced. -/
theorem numbers_replace_match (h : ∀ b s, ∀ o ∈ r.run b s, Swaps o.taken (f o)) (s : JsString) :
    numbers (r.replace f s) = numbers s := by
  cases hm : r.search s with
  | none =>
    unfold Pattern.replace
    rw [hm]
    rfl
  | some m =>
    obtain ⟨u, -, hhead, -⟩ := search_eq_some hm
    have hswaps := h _ u m.toOutcome (List.mem_of_mem_head? hhead)
    rw [replace_of_search hm, List.append_assoc, ← hswaps.numbers]
    rw [append_of_search hm]

/-- All matches replaced. -/
theorem numbers_replaceAll (h : ∀ b s, ∀ o ∈ r.run b s, Blot o.taken ∧ Blot (f o)) (s : JsString) :
    numbers (r.replaceAll f s) = numbers s := by
  rw [replaceAll_eq]
  have hnone : ∀ {t : JsString}, Blot t →
      (t.splitOnP plain).filter (fun t => t.any isDigit) = [] := by
    intro t ht
    rw [← List.append_nil t, Runs.filter_append_left rfl ht.2]
    rfl
  have halike : Runs.Alike plain (fun t => t.any isDigit) s (r.replaceRest f true s) := by
    apply Runs.alike_replaceRest rfl
    intro b s o ho
    obtain ⟨htaken, hf⟩ := h b s o ho
    refine ⟨.of_forall htaken.1 htaken.2, .of_forall hf.1 hf.2, ?_⟩
    rw [hnone htaken, hnone hf]
  exact halike.filter.symm

end

/-! ## Tokens -/

/-- What is neither a symbol of a number nor white space becomes a space. -/
def blank (u : UInt16) : UInt16 :=
  if isDigit u || u == 46 || u == 44 || u == 39 || isWhiteSpace u then u else 32

/-- A symbol of a number stays. -/
theorem blank_of_isNumeric {u : UInt16} (h : isNumeric u = true) : blank u = u :=
  if_pos (Bool.or_eq_true_iff.mpr (.inl h))

/-- What remains is a symbol of a number or white space. -/
theorem isWhiteSpace_blank (u : UInt16) : isWhiteSpace (blank u) = plain u := by
  cases hu : plain u with
  | false =>
    have hnumeric : isNumeric u = true := (Bool.not_eq_false' (b := isNumeric u)).mp hu
    rw [blank_of_isNumeric hnumeric, ← Bool.not_eq_true]
    intro hspace
    exact Bool.noConfusion (hu.symm.trans (plain_of_isWhiteSpace hspace))
  | true =>
    unfold blank
    split_ifs with h
    · have hnumeric : isNumeric u = false := (Bool.not_eq_true' (b := isNumeric u)).mp hu
      exact (Bool.or_eq_true_iff.mp h).resolve_left fun h => Bool.noConfusion (hnumeric.symm.trans h)
    · rfl

/-- The symbols of no number are the same. -/
theorem plain_blank (u : UInt16) : plain (blank u) = plain u := by
  cases hu : plain u with
  | false =>
    have hnumeric : isNumeric u = true := (Bool.not_eq_false' (b := isNumeric u)).mp hu
    rw [blank_of_isNumeric hnumeric, hu]
  | true => exact plain_of_isWhiteSpace ((isWhiteSpace_blank u).trans hu)

/-- **The tokens are the numbers.** -/
theorem tokensOf_eq (text : JsString) : tokensOf text = numbers text := by
  have hmap : numbers (text.map blank) = numbers text := by
    apply numbers_map plain_blank
    intro u hu
    exact blank_of_isNumeric ((Bool.not_eq_false' (b := isNumeric u)).mp hu)
  obtain ⟨a, b, ha, hb, hparts⟩ := exists_trim (text.map blank)
  have haround : numbers (a ++ (trim (text.map blank) ++ b)) = numbers (trim (text.map blank)) :=
    numbers_around (fun u hu => plain_of_isWhiteSpace (ha u hu)) fun u hu =>
      plain_of_isWhiteSpace (hb u hu)
  rw [← hparts, hmap] at haround
  have htokens : tokensOf text = ((Pattern.plus (.set isWhiteSpace)).splitAll
      (trim (text.map blank))).filter fun t => t.any isDigit := rfl
  rw [htokens, Runs.filter_splitAll rfl, haround]
  unfold numbers
  congr 1
  apply Runs.splitOnP_congr
  intro u hu
  have hmem : u ∈ text.map blank := by
    rw [hparts]
    exact List.mem_append_right _ (List.mem_append_left _ hu)
  obtain ⟨x, -, rfl⟩ := List.mem_map.mp hmem
  rw [isWhiteSpace_blank, plain_blank]

/-! ## The sign and the currency -/

/-- The inside of parentheses. -/
theorem numbers_inside (text : JsString) : numbers (inside text) = numbers text := by
  unfold inside
  cases hm : parenthesised.search text with
  | none => rfl
  | some m =>
    obtain ⟨before, after, hbefore, hafter, htext⟩ := parenthesised_search hm
    have haround : numbers ((40 :: before) ++ (m.group 1 ++ (after ++ [41]))) =
        numbers (m.group 1) := by
      apply numbers_around
      · rw [List.forall_mem_cons]
        exact ⟨by decide, fun u hu => plain_of_isWhiteSpace (hbefore u hu)⟩
      · rw [List.forall_mem_append, List.forall_mem_singleton]
        exact ⟨fun u hu => plain_of_isWhiteSpace (hafter u hu), by decide⟩
    rw [List.cons_append, ← htext] at haround
    exact haround.symm

/-- The sign. -/
theorem numbers_readSign {text : JsString} {signed : Signed} (h : readSign text = .ok signed) :
    numbers signed.text = numbers text := by
  rcases readSign_cases h with ⟨-, -, rfl⟩ | ⟨-, -, rfl⟩ | ⟨-, -, rfl⟩
  · exact (numbers_replace (by decide) (by decide)).trans (numbers_inside text)
  · exact (numbers_replace (by decide) (by decide)).trans (numbers_inside text)
  · exact numbers_inside text

/-- The symbols. -/
theorem numbers_withoutSymbols (text : JsString) : numbers (withoutSymbols text).text = numbers text := by
  have hfold : ∀ {table : List (UInt16 × JsString)} {ambiguous : Bool} {p : Priced},
      (∀ entry ∈ table, plain entry.1 = true) →
      numbers (table.foldl (Priced.readSymbol ambiguous) p).text = numbers p.text := by
    intro table ambiguous p htable
    induction table generalizing p with
    | nil => rfl
    | cons entry table ih =>
      rw [List.forall_mem_cons] at htable
      rw [List.foldl_cons, ih htable.2]
      unfold Priced.readSymbol
      split_ifs
      · exact numbers_substitute (List.forall_mem_singleton.mpr htable.1) (by decide)
      · rfl
  unfold withoutSymbols
  rw [hfold (by decide), hfold (by decide)]

/-- The codes. -/
theorem numbers_readCode (p : Priced) : numbers p.readCode.text = numbers p.text := by
  have hreplace : numbers (currencyCode.replace (fun o => o.group 1 ++ js " " ++ o.group 3) p.text) =
      numbers p.text := by
    apply numbers_replace_match
    intro b s o ho
    obtain ⟨before, w, after, rest, -, hw, -, -, rfl⟩ := mem_run_currencyCode.mp ho
    refine ⟨before, w, js " ", after, ⟨?_, ?_⟩, blot_space, rfl, ?_⟩
    · rintro rfl
      revert hw
      decide
    · intro u hu
      have hletter := not_separator_of_code hw u hu
      unfold separator at hletter
      rw [Bool.not_eq_false'] at hletter
      exact plain_of_isLetter hletter
    · simp [Outcome.group, List.lookup_cons]
  unfold Priced.readCode
  cases currencyCode.search p.text with
  | none => rfl
  | some m => exact hreplace

/-- The currency. -/
theorem numbers_readCurrency {text : JsString} {priced : Priced} (h : readCurrency text = .ok priced) :
    numbers priced.text = numbers text := by
  obtain ⟨rfl, -⟩ := readCurrency_eq_ok_iff.mp h
  rw [numbers_readCode, numbers_withoutSymbols]

/-! ## The unit -/

/-- Letters, white space and percent signs. -/
theorem only_word_plain {w : JsString} (hw : ∀ u ∈ w, isLetter u = true) :
    (word w).Only fun u => plain u = true := by
  unfold word
  apply only_word
  intro x hx y hy
  have hletter := hw x hx
  rw [sameLetter_iff] at hy
  unfold isLetter at hletter
  rw [hy] at hletter
  exact plain_of_isLetter hletter

/-- White space. -/
theorem only_gap : gap.Only fun u => plain u = true := fun _ => plain_of_isWhiteSpace

/-- Points. -/
theorem only_points {w : JsString} (hw : ∀ u ∈ w, isLetter u = true) :
    (points w).Only fun u => plain u = true :=
  ⟨only_word_plain hw, only_gap, only_word_plain (by decide), only_word_plain (by decide), trivial⟩

/-- A word takes each of its letters. -/
theorem takes_letter {w : JsString} {u : UInt16} (hu : u ∈ w) :
    (word w).Takes fun v => lower v = lower u :=
  takes_word hu fun _ h => (sameLetter_iff.mp h).symm

/-- All that means basis points has a `p`. -/
theorem basisPoints_takes : basisPoints.Takes fun u => lower u = 112 := by
  apply takes_oneOf
  simp only [List.forall_mem_cons]
  refine ⟨.inr (.inr (.inl ?_)), ?_, .inl ?_, List.forall_mem_nil _⟩
  all_goals exact takes_letter (u := 112) (by decide)

/-- All that means percent has a `p`, or is the percent sign. -/
theorem percentage_takes : percentage.Takes fun u => lower u = 112 ∨ u = 37 := by
  have hword : ∀ {w : JsString}, 112 ∈ w → (word w).Takes fun u => lower u = 112 ∨ u = 37 :=
    fun hw => takes_word hw fun _ h => .inl (sameLetter_iff.mp h).symm
  apply takes_oneOf
  simp only [List.forall_mem_cons]
  refine ⟨fun u hu => .inr (beq_iff_eq.mp hu), .inl (hword ?_), .inl (hword ?_), hword ?_,
    List.forall_mem_nil _⟩
  all_goals decide

/-- Basis points. -/
theorem basisPoints_only : basisPoints.Only fun u => plain u = true := by
  apply only_oneOf
  simp only [List.forall_mem_cons]
  exact ⟨only_points (by decide), only_word_plain (by decide),
    ⟨only_word_plain (by decide), trivial⟩, List.forall_mem_nil _⟩

/-- Percent. -/
theorem percentage_only : percentage.Only fun u => plain u = true := by
  apply only_oneOf
  simp only [List.forall_mem_cons]
  refine ⟨fun u hu => ?_, only_points (by decide), ⟨only_word_plain (by decide),
    only_word_plain (by decide), trivial⟩, only_word_plain (by decide), List.forall_mem_nil _⟩
  rw [beq_iff_eq.mp hu]
  rfl

/-- The unit. -/
theorem numbers_readUnit (defaultUnit : Option Unit) (text : JsString) :
    numbers (readUnit defaultUnit text).text = numbers text := by
  unfold readUnit
  split_ifs
  · exact numbers_replaceAll (fun b s o ho => ⟨⟨taken_ne_nil basisPoints_takes ho,
      forall_mem_taken basisPoints_only ho⟩, blot_space⟩) text
  · exact numbers_replaceAll (fun b s o ho => ⟨⟨taken_ne_nil percentage_takes ho,
      forall_mem_taken percentage_only ho⟩, blot_space⟩) text
  · rfl

/-- A country takes a letter. -/
theorem countryQualifier_takes : countryQualifier.Takes fun u => isLetter u = true := by
  refine .inr (.inl (takes_oneOf ?_))
  intro a ha
  obtain ⟨w, hw, rfl⟩ := List.mem_map.mp ha
  obtain ⟨u, hu, hletter⟩ : ∃ u ∈ w, isLetter u = true := by
    clear ha
    revert w
    decide
  refine takes_word hu fun v hv => ?_
  rw [sameLetter_iff] at hv
  unfold isLetter at hletter
  rw [hv] at hletter
  exact hletter

/-- The currency symbols' countries and the unit. -/
theorem numbers_afterUnit (options : ParseOptions) (priced : Priced) :
    numbers (afterUnit options priced).text = numbers priced.text := by
  have hqualifier : countryQualifier.Only fun u => plain u = true := by
    refine ⟨⟨trivial, fun _ => plain_of_isWhiteSpace⟩, only_oneOf ?_, only_gap, trivial⟩
    intro a ha
    obtain ⟨w, hw, rfl⟩ := List.mem_map.mp ha
    apply only_word_plain
    clear ha
    revert w
    decide
  unfold afterUnit
  rw [numbers_readUnit]
  apply numbers_replace_match
  intro b s o ho
  exact ⟨[], o.taken, js " ", [], ⟨taken_ne_nil countryQualifier_takes ho,
    forall_mem_taken hqualifier ho⟩, blot_space,
    by simp, by simp⟩

/-! ## The scale -/

/-- A word in any case, and maybe a plural. -/
def Spells (w v : JsString) : Prop := v.map lower = w ∨ v.map lower = w ++ js "s"

/-- The end, or neither a letter nor a digit. -/
def Ended (s : JsString) : Prop := ∀ u t, s = u :: t → isLetter u = false ∧ isDigit u = false

/-- The letters of the scale words are in lower case. -/
theorem scaleWords_lower : ∀ w ∈ scaleWords, w.1 ≠ [] ∧
    ∀ u ∈ w.1, 97 ≤ u.toNat ∧ u.toNat ≤ 122 := by decide

section

variable {w v s : JsString}

/-- The same word as one in lower case. -/
theorem forall₂_sameLetter_lower (hw : ∀ u ∈ w, 97 ≤ u.toNat ∧ u.toNat ≤ 122) :
    List.Forall₂ (fun x y => sameLetter x y = true) w v ↔ v.map lower = w := by
  induction w generalizing v with
  | nil => rw [List.forall₂_nil_left_iff, List.map_eq_nil_iff]
  | cons u w ih =>
    rw [List.forall_mem_cons] at hw
    have hlower : lower u = u := by
      rw [← UInt16.toNat_inj, toNat_lower, if_neg (by omega)]
    cases v with
    | nil => simp
    | cons x v =>
      rw [List.forall₂_cons, sameLetter_iff, hlower, ih hw.2, List.map_cons, List.cons.injEq,
        eq_comm]

/-- A word with letters only. -/
theorem isLetter_of_map_lower (hw : ∀ u ∈ w, 97 ≤ u.toNat ∧ u.toNat ≤ 122)
    (h : v.map lower = w) : ∀ u ∈ v, isLetter u = true := by
  intro u hu
  have hlower := hw _ (h ▸ List.mem_map_of_mem hu)
  rw [toNat_lower] at hlower
  rw [isLetter_iff]
  split_ifs at hlower <;> omega

/-- A spelled word has letters only. -/
theorem Spells.isLetter (h : Spells w v) (hw : ∀ u ∈ w, 97 ≤ u.toNat ∧ u.toNat ≤ 122) :
    ∀ u ∈ v, Finance.isLetter u = true := by
  rcases h with h | h
  · exact isLetter_of_map_lower hw h
  · refine isLetter_of_map_lower ?_ h
    rw [List.forall_mem_append]
    exact ⟨hw, by decide⟩

/-- A spelled word is not empty. -/
theorem Spells.ne_nil (h : Spells w v) (hw : w ≠ []) : v ≠ [] := by
  rintro rfl
  rcases h with h | h
  · exact hw h.symm
  · exact hw (List.append_eq_nil_iff.mp h.symm).1

/-- The end of a word. -/
theorem mem_run_wordEnd {b : Bool} {o : Outcome UInt16} :
    o ∈ wordEnd.run b s ↔ Ended s ∧ o = .stay s := by
  unfold wordEnd
  rw [mem_run_notAhead]
  refine and_congr_left fun _ => ?_
  cases s with
  | nil =>
    refine iff_of_true rfl ?_
    intro u t h
    exact absurd h.symm (List.cons_ne_nil u t)
  | cons x s =>
    cases hx : isLetter x || isDigit x with
    | true =>
      have hrun := run_set_cons_of_pos (p := fun u => isLetter u || isDigit u) (b := b) (s := s) hx
      rw [hrun]
      refine iff_of_false (List.cons_ne_nil _ _) fun h => ?_
      obtain ⟨hletter, hdigit⟩ := h x s rfl
      rw [hletter, hdigit] at hx
      exact Bool.false_ne_true hx
    | false =>
      refine iff_of_true (run_set_cons_of_neg hx) ?_
      intro u t h
      obtain ⟨rfl, -⟩ := List.cons.inj h
      exact Bool.or_eq_false_iff.mp hx

/-- A word and maybe a plural. -/
theorem mem_run_plural {b : Bool} {o : Outcome UInt16} (hw : ∀ u ∈ w, 97 ≤ u.toNat ∧ u.toNat ≤ 122) :
    o ∈ (Pattern.seq (word w) (Pattern.opt (word (js "s")))).run b s ↔
      ∃ v rest, Spells w v ∧ s = v ++ rest ∧ o = ⟨v, rest, []⟩ := by
  have hs : ∀ u ∈ js "s", 97 ≤ u.toNat ∧ u.toNat ≤ 122 := by decide
  unfold word
  simp only [mem_run_seq, mem_run_opt, mem_run_word, forall₂_sameLetter_lower hw,
    forall₂_sameLetter_lower hs]
  constructor
  · rintro ⟨o₁, ⟨v, u, rfl, hv, rfl⟩, o₂, ⟨t, rest, hu, ht, rfl⟩ | rfl, rfl⟩
    · obtain rfl : u = t ++ rest := hu
      refine ⟨v ++ t, rest, .inr ?_, (List.append_assoc v t rest).symm, rfl⟩
      rw [List.map_append, hv, ht]
    · exact ⟨v, u, .inl hv, rfl, by simp [Outcome.andThen, Outcome.stay]⟩
  · rintro ⟨v, rest, hv | hv, rfl, rfl⟩
    · exact ⟨⟨v, rest, []⟩, ⟨v, rest, rfl, hv, rfl⟩, .stay rest, .inr rfl,
        by simp [Outcome.andThen, Outcome.stay]⟩
    · obtain ⟨v, t, rfl, hv, ht⟩ := List.map_eq_append_iff.mp hv
      exact ⟨⟨v, t ++ rest, []⟩, ⟨v, t ++ rest, List.append_assoc v t rest, hv, rfl⟩,
        ⟨t, rest, []⟩, .inl ⟨t, rest, rfl, ht, rfl⟩, rfl⟩

/-- **A scale word behind a digit.** -/
theorem mem_run_scaleAfterDigit {b : Bool} {o : Outcome UInt16}
    (hw : ∀ u ∈ w, 97 ≤ u.toNat ∧ u.toNat ≤ 122) : o ∈ (scaleAfterDigit w).run b s ↔
      ∃ d g v rest, isDigit d = true ∧ Blank g ∧ Spells w v ∧ Ended rest ∧
        s = d :: (g ++ (v ++ rest)) ∧ o = ⟨d :: (g ++ v), rest, [(1, [d])]⟩ := by
  unfold scaleAfterDigit digit gap
  constructor
  · intro ho
    obtain ⟨o₁, ho₁, o₂, ho₂, rfl⟩ := mem_run_seq.mp ho
    obtain ⟨o₃, ho₃, rfl⟩ := mem_run_group.mp ho₁
    obtain ⟨d, t, rfl, hd, rfl⟩ := mem_run_set.mp ho₃
    obtain ⟨o₄, ho₄, o₅, ho₅, rfl⟩ := mem_run_seq.mp ho₂
    obtain ⟨g, u, hu, hg, rfl⟩ := mem_run_star_set.mp ho₄
    obtain rfl : t = g ++ u := hu
    obtain ⟨o₆, ho₆, o₇, ho₇, rfl⟩ := mem_run_seq.mp ho₅
    obtain ⟨o₈, ho₈, o₉, ho₉, rfl⟩ := mem_run_seq.mp ho₇
    obtain ⟨hended, rfl⟩ := mem_run_wordEnd.mp ho₉
    have hplural : o₆.andThen o₈ ∈ (Pattern.seq (word w) (Pattern.opt (word (js "s")))).run
        ((b && false) && g.isEmpty) u := mem_run_seq.mpr ⟨o₆, ho₆, o₈, ho₈, rfl⟩
    obtain ⟨v, rest, hv, rfl, heq⟩ := (mem_run_plural hw).mp hplural
    have hrest : o₈.rest = rest := congrArg Outcome.rest heq
    have htaken : o₆.taken ++ o₈.taken = v := congrArg Outcome.taken heq
    have hgroups : o₈.groups ++ o₆.groups = [] := congrArg Outcome.groups heq
    refine ⟨d, g, v, rest, hd, hg, hv, hrest ▸ hended, rfl, ?_⟩
    unfold Outcome.andThen Outcome.stay
    dsimp only
    rw [List.append_nil, htaken, hrest, List.nil_append, hgroups]
    rfl
  · rintro ⟨d, g, v, rest, hd, hg, hv, hended, rfl, rfl⟩
    refine mem_run_seq.mpr ⟨⟨[d], g ++ (v ++ rest), [(1, [d])]⟩, ?_, ⟨g ++ v, rest, []⟩, ?_, rfl⟩
    · exact mem_run_group.mpr ⟨⟨[d], _, []⟩, mem_run_set.mpr ⟨d, _, rfl, hd, rfl⟩, rfl⟩
    · refine mem_run_seq.mpr ⟨⟨g, v ++ rest, []⟩, mem_run_star_set.mpr ⟨g, _, rfl, hg, rfl⟩,
        ⟨v, rest, []⟩, ?_, rfl⟩
      obtain ⟨o₆, ho₆, o₈, ho₈, heq⟩ :=
        mem_run_seq.mp ((mem_run_plural (b := b && false && g.isEmpty) hw).mpr ⟨v, rest, hv, rfl, rfl⟩)
      obtain rfl : o₈.rest = rest := congrArg Outcome.rest heq
      refine mem_run_seq.mpr ⟨o₆, ho₆, o₈, mem_run_seq.mpr ⟨o₈, ho₈, .stay o₈.rest, ?_, ?_⟩, heq⟩
      · exact mem_run_wordEnd.mpr ⟨hended, rfl⟩
      · simp [Outcome.andThen, Outcome.stay]

end

/-- The scale. -/
theorem numbers_readScale {text : JsString} {scaled : Scaled} (h : readScale text = .ok scaled) :
    numbers scaled.text = numbers text := by
  have hread : ∀ (s : Scaled) {w : JsString × Number}, w ∈ scaleWords →
      numbers (s.read w).text = numbers s.text := by
    intro s w hw
    have hreplace : numbers ((scaleAfterDigit w.1).replace (fun o => o.group 1 ++ js " ") s.text) =
        numbers s.text := by
      apply numbers_replace_match
      intro b t o ho
      obtain ⟨d, g, v, rest, -, hg, hv, -, -, rfl⟩ :=
        (mem_run_scaleAfterDigit (scaleWords_lower w hw).2).mp ho
      refine ⟨[d], g ++ v, js " ", [], ⟨?_, ?_⟩, blot_space, by simp, ?_⟩
      · exact fun h => hv.ne_nil (scaleWords_lower w hw).1 (List.append_eq_nil_iff.mp h).2
      · rw [List.forall_mem_append]
        exact ⟨fun u hu => plain_of_isWhiteSpace (hg u hu), fun u hu =>
          plain_of_isLetter (hv.isLetter (scaleWords_lower w hw).2 u hu)⟩
      · simp [Outcome.group]
    unfold Scaled.read
    split_ifs
    · exact hreplace
    · exact hreplace
    · rfl
  have hfold : ∀ {words : List (JsString × Number)} {s : Scaled}, (∀ w ∈ words, w ∈ scaleWords) →
      numbers (words.foldl Scaled.read s).text = numbers s.text := by
    intro words s hwords
    induction words generalizing s with
    | nil => rfl
    | cons w words ih =>
      rw [List.forall_mem_cons] at hwords
      rw [List.foldl_cons, ih hwords.2, hread s hwords.1]
  obtain ⟨rfl, -⟩ := readScale_eq_ok_iff.mp h
  exact hfold fun w hw => hw

/-! ## The value -/

section

variable {tenTo : Number → Number} {options : ParseOptions} {input : JsString} {r : ParsedNumber}

/-- **A text that is parsed has one number.** -/
theorem exists_token_of_parse (h : parseFinancialNumber tenTo input options = .ok r) :
    ∃ signed priced scaled token decoded, readSign (rewritten tenTo input) = .ok signed ∧
      readCurrency signed.text = .ok priced ∧
      readScale (afterUnit options priced).text = .ok scaled ∧
      numbers (rewritten tenTo input) = [token] ∧
      decodeDigits token (options.locale.getD .en) = .ok decoded ∧
      r = amount options input signed priced scaled decoded := by
  obtain ⟨-, -, signed, hsigned, hamount⟩ := parse_eq_ok_iff.mp h
  obtain ⟨priced, scaled, decoded, hpriced, hscaled, hdecoded, rfl⟩ := readAmount_eq_ok_iff.mp hamount
  have hnumbers : tokensOf scaled.text = numbers (rewritten tenTo input) := by
    rw [tokensOf_eq, numbers_readScale hscaled, numbers_afterUnit, numbers_readCurrency hpriced,
      numbers_readSign hsigned]
  unfold readDigits at hdecoded
  rw [hnumbers] at hdecoded
  cases htokens : numbers (rewritten tenTo input) with
  | nil =>
    rw [htokens] at hdecoded
    exact absurd hdecoded error_ne_ok
  | cons token rest =>
    cases rest with
    | nil =>
      rw [htokens] at hdecoded
      exact ⟨signed, priced, scaled, token, decoded, hsigned, hpriced, hscaled, rfl, hdecoded, rfl⟩
    | cons other rest =>
      rw [htokens] at hdecoded
      exact absurd hdecoded error_ne_ok

end

end AgentEval.Finance
