import AgentEval.Finance.Digits
import AgentEval.Finance.Letters

/-!
# One currency

All symbols are looked for, but only the first code: where a text has two different codes as words, the
second passes for commentary.

* **`currency_iff`**: the result carries exactly the currency the text names, when all codes in it are
  the same.
* **`second_code_ignored`**: a text with two codes.
-/

namespace AgentEval.Finance

open Js Regex Regex.Pattern

/-! ## Currencies a text names -/

/-- A currency is named by a symbol. -/
def NamedBySymbol (text code : JsString) : Prop := ∃ entry ∈ symbolTable, entry.2 = code ∧ entry.1 ∈ text

/-- A currency is named by a code that stands as a separate word, in any case. -/
def NamedByCode (text code : JsString) : Prop :=
  code ∈ currencyCodes ∧ ∃ w ∈ text.splitOnP separator, w.map upper = code

/-- A currency is named. -/
def Named (text code : JsString) : Prop := NamedBySymbol text code ∨ NamedByCode text code

/-- The codes are of three letters in upper case. -/
theorem currencyCodes_upper : ∀ code ∈ currencyCodes, code.length = 3 ∧
    ∀ u ∈ code, 65 ≤ u.toNat ∧ u.toNat ≤ 90 := by decide

section

variable {s t code : JsString}

/-- Texts with the same symbols and runs name the same currencies. -/
theorem SameNames.namedBySymbol (h : SameNames s t) : NamedBySymbol s code ↔ NamedBySymbol t code :=
  exists_congr fun entry => and_congr_right fun hentry =>
    and_congr_right fun _ => h.symbols entry.1 (List.mem_map_of_mem hentry)

/-- Texts with the same runs have the same codes. -/
theorem namedByCode_congr (h : ∀ w : JsString, w.length = 3 →
    (w ∈ s.splitOnP separator ↔ w ∈ t.splitOnP separator)) :
    NamedByCode s code ↔ NamedByCode t code := by
  refine and_congr_right fun hcode => exists_congr fun w => and_congr_left fun hw => h w ?_
  rw [← (currencyCodes_upper code hcode).1, ← hw, List.length_map]

/-! ## Codes -/

/-- Nothing at the start, or one symbol that is no letter. -/
def Boundary (b : Bool) (s : JsString) : Prop :=
  s = [] ∧ b = true ∨ ∃ u, s = [u] ∧ separator u = true

/-- A code at a place. -/
theorem mem_run_currencyCode {b : Bool} {o : Outcome UInt16} : o ∈ currencyCode.run b s ↔
    ∃ before w after rest, Boundary b before ∧ w.map upper ∈ currencyCodes ∧
      Boundary rest.isEmpty after ∧ s = before ++ (w ++ (after ++ rest)) ∧
      o = ⟨before ++ (w ++ after), rest, [(3, after), (2, w), (1, before)]⟩ := by
  unfold currencyCode
  constructor
  · intro ho
    obtain ⟨o₁, ho₁, o₂, ho₂, rfl⟩ := mem_run_seq.mp ho
    obtain ⟨o₃, ho₃, rfl⟩ := mem_run_group.mp ho₁
    obtain ⟨o₄, ho₄, o₅, ho₅, rfl⟩ := mem_run_seq.mp ho₂
    obtain ⟨o₆, ho₆, rfl⟩ := mem_run_group.mp ho₄
    obtain ⟨o₇, ho₇, rfl⟩ := mem_run_group.mp ho₅
    obtain ⟨p, hp, ho₆⟩ := mem_run_oneOf.mp ho₆
    obtain ⟨code, hcode, rfl⟩ := List.mem_map.mp hp
    obtain ⟨w, u, hu, hw, rfl⟩ := mem_run_word.mp ho₆
    rw [forall₂_sameLetter_iff (currencyCodes_upper code hcode).2] at hw
    obtain ⟨before, hbefore, hs, ho₃⟩ : ∃ before, Boundary b before ∧ s = before ++ o₃.rest ∧
        o₃ = ⟨before, o₃.rest, []⟩ := by
      rcases mem_run_alt.mp ho₃ with h | h
      · obtain ⟨hb, rfl⟩ := mem_run_start.mp h
        exact ⟨[], .inl ⟨rfl, hb⟩, rfl, rfl⟩
      · obtain ⟨x, t, rfl, hx, rfl⟩ := mem_run_set.mp h
        exact ⟨[x], .inr ⟨x, rfl, hx⟩, rfl, rfl⟩
    obtain ⟨after, hafter, hrest, ho₇⟩ : ∃ after, Boundary o₇.rest.isEmpty after ∧
        u = after ++ o₇.rest ∧ o₇ = ⟨after, o₇.rest, []⟩ := by
      rcases mem_run_alt.mp ho₇ with h | h
      · obtain ⟨x, t, ht, hx, rfl⟩ := mem_run_set.mp h
        exact ⟨[x], .inr ⟨x, rfl, hx⟩, ht, rfl⟩
      · obtain ⟨ht, rfl⟩ := mem_run_finish.mp h
        obtain rfl : u = [] := ht
        exact ⟨[], .inl ⟨rfl, rfl⟩, rfl, rfl⟩
    refine ⟨before, w, after, o₇.rest, hbefore, hw ▸ hcode, hafter, ?_, ?_⟩
    · rw [hs, ← hrest]
      exact congrArg (before ++ ·) hu
    · rw [ho₃, ho₇]
      rfl
  · rintro ⟨before, w, after, rest, hbefore, hw, hafter, rfl, rfl⟩
    refine mem_run_seq.mpr ⟨⟨before, w ++ (after ++ rest), [(1, before)]⟩, ?_,
      ⟨w ++ after, rest, [(3, after), (2, w)]⟩, ?_, rfl⟩
    · refine mem_run_group.mpr ⟨⟨before, _, []⟩, mem_run_alt.mpr ?_, rfl⟩
      rcases hbefore with ⟨rfl, hb⟩ | ⟨x, rfl, hx⟩
      · exact .inl (mem_run_start.mpr ⟨hb, rfl⟩)
      · exact .inr (mem_run_set.mpr ⟨x, _, rfl, hx, rfl⟩)
    · refine mem_run_seq.mpr ⟨⟨w, after ++ rest, [(2, w)]⟩, ?_, ⟨after, rest, [(3, after)]⟩, ?_, rfl⟩
      · refine mem_run_group.mpr ⟨⟨w, _, []⟩, mem_run_oneOf.mpr
          ⟨_, List.mem_map_of_mem hw, mem_run_word.mpr ⟨w, _, rfl, ?_, rfl⟩⟩, rfl⟩
        exact (forall₂_sameLetter_iff (currencyCodes_upper _ hw).2).mpr rfl
      · refine mem_run_group.mpr ⟨⟨after, rest, []⟩, mem_run_alt.mpr ?_, rfl⟩
        rcases hafter with ⟨rfl, hend⟩ | ⟨x, rfl, hx⟩
        · obtain rfl := List.isEmpty_iff.mp hend
          exact .inr (mem_run_finish.mpr ⟨rfl, rfl⟩)
        · exact .inl (mem_run_set.mpr ⟨x, rest, rfl, hx, rfl⟩)

/-- A code has letters only. -/
theorem not_separator_of_code {w : JsString} (hw : w.map upper ∈ currencyCodes) :
    ∀ u ∈ w, separator u = false := by
  intro u hu
  have hupper := (currencyCodes_upper _ hw).2 _ (List.mem_map_of_mem hu)
  rw [toNat_upper] at hupper
  rw [separator, Bool.not_eq_false', isLetter_iff]
  split_ifs at hupper <;> omega

/-- The first code of a text. -/
theorem exists_of_search {m : Found UInt16} (h : currencyCode.search s = some m) :
    ∃ a w b, s = a ++ (w ++ b) ∧ w ∈ s.splitOnP separator ∧ w.map upper ∈ currencyCodes ∧
      m.group 2 = w ∧ currencyCode.replace (fun o => o.group 1 ++ js " " ++ o.group 3) s =
        a ++ 32 :: b := by
  obtain ⟨u, rfl, hhead, -⟩ := search_eq_some h
  obtain ⟨before, w, after, rest, hbefore, hw, hafter, rfl, ho⟩ :=
    mem_run_currencyCode.mp (List.mem_of_mem_head? hhead)
  have hgroup : ∀ i, m.group i = (⟨before ++ (w ++ after), rest,
      [(3, after), (2, w), (1, before)]⟩ : Outcome UInt16).group i := fun i => by rw [ho]
  refine ⟨m.before ++ before, w, after ++ rest, by simp, ?_, hw, hgroup 2, ?_⟩
  · refine Runs.mem_iff.mpr ⟨m.before ++ before, after ++ rest, by simp,
      not_separator_of_code hw, ?_, ?_⟩
    · rcases hbefore with ⟨rfl, hb⟩ | ⟨x, rfl, hx⟩
      · exact .inl (by rw [List.isEmpty_iff.mp hb, List.append_nil])
      · exact .inr ⟨m.before, x, rfl, hx⟩
    · rcases hafter with ⟨rfl, hend⟩ | ⟨x, rfl, hx⟩
      · exact .inl (List.isEmpty_iff.mp hend)
      · exact .inr ⟨x, rest, rfl, hx⟩
  · have hrest : m.rest = rest := congrArg Outcome.rest ho
    rw [replace_of_search h, hgroup 1, hgroup 3, hrest]
    simp [Outcome.group, js, utf16, List.lookup_cons]

/-- A text without a code. -/
theorem not_namedByCode_of_search (h : currencyCode.search s = none) : ¬ NamedByCode s code := by
  rintro ⟨hcode, w, hw, rfl⟩
  rw [search_eq_none_iff] at h
  obtain ⟨a, b, rfl, -, ha, hb⟩ := Runs.mem_iff.mp hw
  obtain ⟨after, rest, rfl, hafter⟩ : ∃ after rest, b = after ++ rest ∧
      Boundary rest.isEmpty after := by
    rcases hb with rfl | ⟨x, b, rfl, hx⟩
    · exact ⟨[], [], rfl, .inl ⟨rfl, rfl⟩⟩
    · exact ⟨[x], b, rfl, .inr ⟨x, rfl, hx⟩⟩
  obtain ⟨t, before, rfl, hbefore⟩ : ∃ t before, a = t ++ before ∧ Boundary t.isEmpty before := by
    rcases ha with rfl | ⟨t, x, rfl, hx⟩
    · exact ⟨[], [], rfl, .inl ⟨rfl, rfl⟩⟩
    · exact ⟨t, [x], rfl, .inr ⟨x, rfl, hx⟩⟩
  have hmem := mem_run_currencyCode.mpr
    ⟨before, w, after, rest, hbefore, hcode, hafter, rfl, rfl⟩
  rw [h t _ (List.append_assoc _ _ _)] at hmem
  exact absurd hmem List.not_mem_nil

/-! ## Symbols -/

/-- What is known of a text after some symbols were looked for. -/
structure Read (s : JsString) (done : List (UInt16 × JsString)) (p : Priced) : Prop where
  /-- Their currencies were found. -/
  found : ∀ code, code ∈ p.found ↔ ∃ entry ∈ done, entry.2 = code ∧ entry.1 ∈ s
  /-- Each once. -/
  nodup : p.found.Nodup
  /-- None is the currency. -/
  none : p.currency = none → p.found = []
  /-- One is the currency. -/
  some : ∀ code, p.currency = some code → code ∈ p.found
  /-- The other symbols are still there. -/
  others : ∀ u, u ∉ done.map Prod.fst → u ≠ 32 → (u ∈ p.text ↔ u ∈ s)
  /-- The runs are the same. -/
  runs : p.text.splitOnP separator = s.splitOnP separator

/-- No symbol yet. -/
theorem Read.start (s : JsString) : Read s [] ⟨[], .none, false, s⟩ where
  found := by simp
  nodup := List.nodup_nil
  none := fun _ => rfl
  some := fun _ h => Option.noConfusion rfl (heq_of_eq h)
  others := fun _ _ _ => Iff.rfl
  runs := rfl

/-- A currency is found once more. -/
theorem Priced.mem_add {p : Priced} {c : JsString} : c ∈ p.add code ↔ c ∈ p.found ∨ c = code := by
  unfold Priced.add
  split_ifs with h
  · refine ⟨.inl, ?_⟩
    rintro (hc | rfl)
    · exact hc
    · exact h
  · rw [List.mem_append, List.mem_singleton]

/-- Each currency is kept once. -/
theorem Priced.nodup_add {p : Priced} (h : p.found.Nodup) : (p.add code).Nodup := by
  unfold Priced.add
  split_ifs with hmem
  · exact h
  · rw [← List.concat_eq_append]
    exact List.Nodup.concat hmem h

/-- One symbol more. -/
theorem Read.readSymbol {ambiguous : Bool} {done : List (UInt16 × JsString)}
    {entry : UInt16 × JsString} {p : Priced} (h : Read s done p) (hnew : entry.1 ∉ done.map Prod.fst)
    (hsep : separator entry.1 = true) (hne : entry.1 ≠ 32) :
    Read s (done ++ [entry]) (p.readSymbol ambiguous entry) := by
  have hmem := h.others entry.1 hnew hne
  have hfound : ∀ {c}, (∃ e ∈ done ++ [entry], e.2 = c ∧ e.1 ∈ s) ↔
      c ∈ p.found ∨ c = entry.2 ∧ entry.1 ∈ s := by
    intro c
    rw [h.found]
    simp only [List.mem_append, List.mem_singleton, or_and_right, exists_or, exists_eq_left]
    rw [eq_comm (a := entry.2)]
  have hnotin : ∀ {u}, u ∉ (done ++ [entry]).map Prod.fst → u ∉ done.map Prod.fst ∧ u ≠ entry.1 := by
    intro u hu
    rw [List.map_append, List.mem_append, not_or] at hu
    exact ⟨hu.1, fun h => hu.2 (List.mem_singleton.mpr h)⟩
  unfold Priced.readSymbol
  split_ifs with hin
  · constructor
    · intro c
      rw [hfound, Priced.mem_add, and_iff_left (hmem.mp hin)]
    · exact Priced.nodup_add h.nodup
    · intro hcurrency
      cases hcurrency
    · intro c hc
      exact Priced.mem_add.mpr (.inr (Option.some.inj hc).symm)
    · intro u hu hspace
      obtain ⟨hu, hother⟩ := hnotin hu
      rw [← h.others u hu hspace]
      unfold substitute
      rw [List.mem_map]
      constructor
      · rintro ⟨x, hx, rfl⟩
        split_ifs at hspace ⊢ with hxe
        · exact absurd rfl hspace
        · exact hx
      · intro hmem
        exact ⟨u, hmem, if_neg fun h => hother (List.mem_singleton.mp h)⟩
    · unfold substitute
      rw [Runs.splitOnP_map, h.runs]
      · intro u
        split_ifs with hu
        · rw [List.mem_singleton.mp hu, hsep]
          rfl
        · rfl
      · intro u hu
        apply if_neg
        intro hmem
        rw [List.mem_singleton.mp hmem, hsep] at hu
        exact Bool.noConfusion hu
  · refine ⟨fun c => ?_, h.nodup, h.none, h.some, fun u hu => h.others u (hnotin hu).1, h.runs⟩
    rw [hfound, or_iff_left fun h => hin (hmem.mpr h.2)]

/-- All symbols of a table. -/
theorem Read.foldl {l done : List (UInt16 × JsString)} {p : Priced} (h : Read s done p)
    (ambiguous : Bool) (hl : ((done ++ l).map Prod.fst).Nodup)
    (hsep : ∀ entry ∈ l, separator entry.1 = true ∧ entry.1 ≠ 32) :
    Read s (done ++ l) (l.foldl (Priced.readSymbol ambiguous) p) := by
  induction l generalizing done p with
  | nil =>
    rw [List.append_nil]
    exact h
  | cons entry l ih =>
    rw [List.append_cons]
    rw [List.append_cons] at hl
    rw [List.forall_mem_cons] at hsep
    refine ih (h.readSymbol ?_ hsep.1.1 hsep.1.2) hl hsep.2
    rw [List.map_append, List.map_append, List.append_assoc] at hl
    exact fun hmem => List.disjoint_of_nodup_append hl hmem (List.mem_append_left _ (by simp))

/-- The text after all symbols were looked for. -/
def withoutSymbols (text : JsString) : Priced :=
  ambiguousSymbols.foldl (Priced.readSymbol true)
    (unambiguousSymbols.foldl (Priced.readSymbol false) ⟨[], none, false, text⟩)

/-- All symbols were looked for. -/
theorem read_withoutSymbols (text : JsString) : Read text symbolTable (withoutSymbols text) := by
  have hunambiguous := (Read.start text).foldl false (l := unambiguousSymbols) (by decide) (by decide)
  rw [List.nil_append] at hunambiguous
  exact hunambiguous.foldl true (l := ambiguousSymbols) (by decide) (by decide)

/-! ## The currency of a text -/

/-- The currencies that were found are at most one. -/
theorem readCurrency_eq_ok_iff {p : Priced} : readCurrency s = .ok p ↔
    (withoutSymbols s).readCode = p ∧ p.found.length ≤ 1 := by
  unfold readCurrency withoutSymbols
  dsimp only
  split_ifs with h
  · refine ⟨False.elim, ?_⟩
    rintro ⟨rfl, hle⟩
    exact absurd h (Nat.not_lt.mpr hle)
  · constructor
    · intro heq
      obtain rfl := Except.ok.inj heq
      exact ⟨rfl, Nat.not_lt.mp h⟩
    · rintro ⟨rfl, -⟩
      rfl

/-- No code. -/
theorem readCode_of_none {p : Priced} (h : currencyCode.search p.text = none) : p.readCode = p := by
  unfold Priced.readCode
  rw [h]

/-- A code counts more than a symbol. -/
theorem readCode_of_some {p : Priced} {m : Found UInt16} (h : currencyCode.search p.text = some m)
    (hsome : ∀ code, p.currency = some code → code ∈ p.found) :
    p.readCode.currency = some ((m.group 2).map upper) ∧
      ∀ c, c ∈ p.readCode.found ↔ c ∈ p.found ∨ c = (m.group 2).map upper := by
  unfold Priced.readCode
  rw [h]
  refine ⟨rfl, fun c => ?_⟩
  dsimp only
  split_ifs with hsame
  · rw [Bool.and_eq_true, beq_iff_eq] at hsame
    refine ⟨.inl, ?_⟩
    rintro (hc | rfl)
    · exact hc
    · exact hsome _ hsame.2.symm
  · exact Priced.mem_add

/-- All of at most one. -/
theorem eq_of_mem_of_length_le_one {l : List JsString} (hl : l.length ≤ 1) {c d : JsString}
    (hc : c ∈ l) (hd : d ∈ l) : c = d := by
  obtain ⟨x, rfl⟩ := List.length_eq_one_iff.mp
    (le_antisymm hl (List.length_pos_of_mem hc))
  rw [List.mem_singleton.mp hc, List.mem_singleton.mp hd]

/-- **The currency is the one named when all codes are the same.** -/
theorem readCurrency_iff {p : Priced} (h : readCurrency s = .ok p) :
    (∀ c, p.currency = some c ↔ Named s c) ↔ ∀ c d, NamedByCode s c → NamedByCode s d → c = d := by
  obtain ⟨rfl, hlength⟩ := readCurrency_eq_ok_iff.mp h
  have hread := read_withoutSymbols s
  have hcode : ∀ c, NamedByCode (withoutSymbols s).text c ↔ NamedByCode s c := fun c =>
    namedByCode_congr fun w _ => by rw [hread.runs]
  cases hsearch : currencyCode.search (withoutSymbols s).text with
  | none =>
    rw [readCode_of_none hsearch] at hlength ⊢
    have hno : ∀ c, ¬ NamedByCode s c := fun c hc =>
      not_namedByCode_of_search hsearch ((hcode c).mpr hc)
    refine iff_of_true (fun c => ?_) fun c d hc => absurd hc (hno c)
    unfold Named
    rw [or_iff_left (hno c), NamedBySymbol, ← hread.found]
    refine ⟨hread.some c, fun hc => ?_⟩
    cases hcurrency : (withoutSymbols s).currency with
    | none =>
      rw [hread.none hcurrency] at hc
      exact absurd hc List.not_mem_nil
    | some d => rw [eq_of_mem_of_length_le_one hlength hc (hread.some d hcurrency)]
  | some m =>
    obtain ⟨hcurrency, hfound⟩ := readCode_of_some hsearch hread.some
    obtain ⟨a, w, b, htext, hrun, hw, hgroup, -⟩ := exists_of_search hsearch
    rw [hgroup] at hcurrency hfound
    have hfirst : NamedByCode s (w.map upper) := (hcode _).mp ⟨hw, w, hrun, rfl⟩
    have hsymbol : ∀ c, NamedBySymbol s c → c = w.map upper := fun c hc =>
      eq_of_mem_of_length_le_one hlength ((hfound c).mpr (.inl ((hread.found c).mpr hc)))
        ((hfound _).mpr (.inr rfl))
    rw [hcurrency]
    constructor
    · intro hnamed c d hc hd
      rw [← Option.some.inj ((hnamed c).mpr (.inr hc)), Option.some.inj ((hnamed d).mpr (.inr hd))]
    · intro hsame c
      rw [Option.some_inj, eq_comm]
      constructor
      · rintro rfl
        exact .inr hfirst
      · rintro (hc | hc)
        · exact hsymbol c hc
        · exact hsame c _ hc hfirst

end

section

variable {tenTo : Number → Number} {options : ParseOptions} {input : JsString} {r : ParsedNumber}

/-- **The result carries exactly the currency the text names, when all codes in it are the same.** -/
theorem currency_iff (h : parseFinancialNumber tenTo input options = .ok r) :
    (∀ code, r.currency = some code ↔ Named input code) ↔
      ∀ c d, NamedByCode input c → NamedByCode input d → c = d := by
  obtain ⟨-, -, signed, hsigned, hamount⟩ := parse_eq_ok_iff.mp h
  obtain ⟨priced, scaled, decoded, hpriced, -, -, rfl⟩ := readAmount_eq_ok_iff.mp hamount
  have hsame : SameNames signed.text input :=
    (readSign_keeps hsigned).trans (rewritten_keeps tenTo input)
  have hcode : ∀ c, NamedByCode signed.text c ↔ NamedByCode input c :=
    fun c => namedByCode_congr hsame.runs
  have hnamed : ∀ c, Named signed.text c ↔ Named input c :=
    fun c => or_congr hsame.namedBySymbol (hcode c)
  have hcurrency := readCurrency_iff hpriced
  simp only [hcode, hnamed] at hcurrency
  exact hcurrency

end

/-- A text with the number five and some currency. -/
theorem parse_five {input : JsString} {priced : Priced} {scaled : Scaled}
    (hdigits : (trim input).any isDigit = true)
    (hrewritten : rewritten id input = input) (hchained : chainedScales.test input = false)
    (hsigned : readSign input = .ok ⟨false, .none, input⟩)
    (hpriced : readCurrency input = .ok priced)
    (hscaled : readScale (afterUnit {} priced).text = .ok scaled)
    (htoken : tokensOf scaled.text = [js "5"]) :
    ∃ r, parseFinancialNumber id input {} = .ok r ∧ r.currency = priced.currency := by
  have hfive : (Number.ofRat (digitsValue (js "5"))).isFinite = true := by
    have heq : Number.ofRat (digitsValue (js "5")) = .ofNat 5 := rfl
    rw [heq, Number.ofNat_eq (by norm_num)]
    rfl
  have hdigit : ∀ u ∈ js "5", isDigit u = true := by decide
  obtain ⟨d, hd, -⟩ := @decodeDigits_of_digits .en _ hdigit hfive
  rw [← hrewritten] at hchained
  have hsigned : readSign (rewritten id input) = .ok ⟨false, .none, input⟩ := by
    rw [hrewritten]
    exact hsigned
  exact ⟨_, parse_of_steps hdigits hchained hsigned hpriced hscaled htoken hd, rfl⟩

/-- It holds of a text with one currency. -/
theorem currency_dollar : ∃ r, parseFinancialNumber id (js "$5") {} = .ok r ∧
    ((∀ code, r.currency = some code ↔ Named (js "$5") code) ↔
      ∀ c d, NamedByCode (js "$5") c → NamedByCode (js "$5") d → c = d) := by
  have hpriced : readCurrency (js "$5") = .ok ⟨[js "USD"], some (js "USD"), true, js " 5"⟩ :=
    readCurrency_eq_ok_iff.mpr ⟨by rfl, le_rfl⟩
  have hunit : (afterUnit {} ⟨[js "USD"], some (js "USD"), true, js " 5"⟩).text = js " 5" := by rfl
  have hscaled : readScale (js " 5") = .ok ⟨[], .ofNat 1, none, js " 5"⟩ :=
    readScale_of_forall (by decide)
  rw [← hunit] at hscaled
  have hrewritten : rewritten id (js "$5") = js "$5" := by rfl
  obtain ⟨r, hr, -⟩ := parse_five (by rfl) hrewritten (by rfl) (by rfl) hpriced hscaled (by rfl)
  exact ⟨r, hr, currency_iff hr⟩

/-- **A text with two codes, of which the second passes for commentary.** -/
theorem second_code_ignored : ∃ r, parseFinancialNumber id (js "5 USD EUR") {} = .ok r ∧
    r.currency = some (js "USD") ∧ Named (js "5 USD EUR") (js "USD") ∧
    Named (js "5 USD EUR") (js "EUR") ∧ js "USD" ≠ js "EUR" := by
  have hpriced : readCurrency (js "5 USD EUR") =
      .ok ⟨[js "USD"], some (js "USD"), false, js "5   EUR"⟩ :=
    readCurrency_eq_ok_iff.mpr ⟨by rfl, le_rfl⟩
  have hunit : (afterUnit {} ⟨[js "USD"], some (js "USD"), false, js "5   EUR"⟩).text =
      js "5   EUR" := by rfl
  have hscaled : readScale (js "5   EUR") = .ok ⟨[], .ofNat 1, none, js "5   EUR"⟩ :=
    readScale_of_forall (by decide)
  rw [← hunit] at hscaled
  have hrewritten : rewritten id (js "5 USD EUR") = js "5 USD EUR" := by rfl
  obtain ⟨r, hr, hcurrency⟩ := parse_five (by rfl) hrewritten (by rfl) (by rfl) hpriced hscaled (by rfl)
  exact ⟨r, hr, hcurrency, .inr ⟨by decide, js "USD", by decide, by decide⟩,
    .inr ⟨by decide, js "EUR", by decide, by decide⟩, by decide⟩

end AgentEval.Finance
