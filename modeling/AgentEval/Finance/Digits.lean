import AgentEval.Finance.Numeric

/-!
# Digit grouping

A token has at most one decimal mark, and the part before it is cut at the group separators. What the
source does not look at is the part behind the decimal mark: separators there are dropped.

* **`decodeDigits_iff`**: a token that is read is a number grouped in threes, with the value it
  writes, unless there is a separator behind the decimal mark.
* **`decodeDigits_misplaced`**: one with a separator there.
-/

namespace AgentEval.Finance

open Js

/-! ## Numbers as they are written -/

/-- Digits, commas and dots. -/
def IsToken (t : JsString) : Prop := ∀ u ∈ t, isDigit u = true ∨ u = 44 ∨ u = 46

/-- Groups of digits: the first of one to three, the others of three, where there is more than one. -/
structure Grouped (groups : List JsString) : Prop where
  /-- There is one. -/
  ne_nil : groups ≠ []
  /-- They have digits only. -/
  digits : ∀ g ∈ groups, ∀ u ∈ g, isDigit u = true
  /-- Several are of three, the first of at most three. -/
  threes : 1 < groups.length → 0 < (groups.headD []).length ∧ (groups.headD []).length ≤ 3 ∧
    ∀ g ∈ groups.drop 1, g.length = 3

/-- A token that writes a number: grouped digits, and maybe a decimal mark and more digits. -/
def Writes (locale : NumberLocale) (token : JsString) (value : ℚ) : Prop :=
  ∃ groups frac, Grouped groups ∧ (∀ u ∈ frac, isDigit u = true) ∧
    (token = [locale.groupSep].intercalate groups ++ locale.decimalSep :: frac ∨
      token = [locale.groupSep].intercalate groups ∧ frac = []) ∧
    value = digitsValue (groups.flatten ++ frac) / 10 ^ frac.length

/-- A token with group separators behind its decimal mark, which is else in order and not too large. -/
def Misplaced (locale : NumberLocale) (token : JsString) : Prop :=
  ∃ int tail, token = int ++ locale.decimalSep :: tail ∧ locale.decimalSep ∉ int ∧
    locale.decimalSep ∉ tail ∧ locale.groupSep ∈ tail ∧
    0 < ((int.splitOn locale.groupSep).headD []).length ∧
    ((int.splitOn locale.groupSep).headD []).length ≤ 3 ∧
    (∀ g ∈ (int.splitOn locale.groupSep).drop 1, g.length = 3) ∧
    (Number.ofRat (digitsValue ((int ++ tail).filter isDigit) /
      10 ^ (tail.filter isDigit).length)).isFinite = true

/-! ## Cutting at a mark -/

section

variable {α : Type} [DecidableEq α] {a b : List α} {c : α}

/-- The parts without the marks. -/
theorem flatten_splitOn (l : List α) : (l.splitOn c).flatten = l.filter (· != c) := by
  induction l with
  | nil => rfl
  | cons x l ih =>
    rw [List.splitOn_cons_eq_if_modifyHead]
    split_ifs with hx
    · rw [List.flatten_cons, ih, List.filter_cons_of_neg (by simpa using hx)]
      rfl
    · obtain ⟨g, gs, hgs⟩ := List.exists_cons_of_ne_nil (List.splitOn_ne_nil c l)
      rw [hgs] at ih ⊢
      rw [List.modifyHead_cons, List.flatten_cons, List.cons_append, List.filter_cons_of_pos
        (by simpa using hx), ← ih]
      rfl

/-- One part more than there are marks. -/
theorem length_splitOn (l : List α) : (l.splitOn c).length = l.count c + 1 := by
  induction l with
  | nil => rfl
  | cons x l ih =>
    rw [List.splitOn_cons_eq_if_modifyHead, List.count_cons]
    split_ifs
    · rw [List.length_cons, ih]
    · rw [List.length_modifyHead, ih]

/-- A part has no mark. -/
theorem not_mem_of_mem_splitOn {l g : List α} (hg : g ∈ l.splitOn c) : c ∉ g := by
  induction l generalizing g with
  | nil =>
    obtain rfl := List.mem_singleton.mp hg
    exact List.not_mem_nil
  | cons x l ih =>
    rw [List.splitOn_cons_eq_if_modifyHead] at hg
    split_ifs at hg with hx
    · rcases List.mem_cons.mp hg with rfl | hg
      · exact List.not_mem_nil
      · exact ih hg
    · obtain ⟨g₀, gs, hgs⟩ := List.exists_cons_of_ne_nil (List.splitOn_ne_nil c l)
      rw [hgs] at hg ih
      rw [List.modifyHead_cons] at hg
      rcases List.mem_cons.mp hg with rfl | hg
      · rw [List.mem_cons, not_or]
        exact ⟨fun h => hx (by simp [h]), ih (List.mem_cons_self ..)⟩
      · exact ih (List.mem_cons_of_mem _ hg)

/-- What is in a part is in the list. -/
theorem mem_of_mem_splitOn {l g : List α} {x : α} (hg : g ∈ l.splitOn c) (hx : x ∈ g) : x ∈ l := by
  have hflat : x ∈ (l.splitOn c).flatten := List.mem_flatten.mpr ⟨g, hg, hx⟩
  rw [flatten_splitOn] at hflat
  exact (List.mem_filter.mp hflat).1

/-- The part before the only mark. -/
theorem head_splitOn (ha : c ∉ a) : ((a ++ c :: b).splitOn c).headD [] = a := by
  rw [List.splitOn_append_cons_self_of_not_mem ha]
  rfl

/-- Without a mark there is one part. -/
theorem head_splitOn_of_not_mem (ha : c ∉ a) : (a.splitOn c).headD [] = a := by
  rw [List.splitOn_eq_singleton ha]
  rfl

end

/-! ## What the source looks at -/

/-- The check of the groups. -/
def Threes (groups : List JsString) : Prop :=
  0 < (groups.headD []).length ∧ (groups.headD []).length ≤ 3 ∧ ∀ g ∈ groups.drop 1, g.length = 3

/-- A token without separators, with a point for the decimal mark. -/
def plainDigits (locale : NumberLocale) (t : JsString) : JsString :=
  if locale = .en then t.filter (· != locale.groupSep)
  else (t.filter (· != locale.groupSep)).replace 44 46

/-- The two marks. -/
theorem groupSep_ne_decimalSep (locale : NumberLocale) : locale.groupSep ≠ locale.decimalSep := by
  cases locale <;> simp [NumberLocale.groupSep, NumberLocale.decimalSep]

/-- The symbols of a token. -/
theorem isDigit_of_isToken {locale : NumberLocale} {u : UInt16}
    (hu : isDigit u = true ∨ u = 44 ∨ u = 46) (hgroup : u ≠ locale.groupSep)
    (hdecimal : u ≠ locale.decimalSep) : isDigit u = true := by
  rcases hu with hu | hu
  · exact hu
  · cases locale <;> rcases hu with rfl | rfl
    · exact absurd rfl hgroup
    · exact absurd rfl hdecimal
    · exact absurd rfl hdecimal
    · exact absurd rfl hgroup

/-- A mark is no digit. -/
theorem isDigit_mark (locale : NumberLocale) :
    isDigit locale.groupSep = false ∧ isDigit locale.decimalSep = false := by
  cases locale <;> exact ⟨rfl, rfl⟩

/-- When a token is read, and as what. -/
theorem exists_decodeDigits_iff {locale : NumberLocale} {t : JsString} (ht : IsToken t)
    {v : Number} : (∃ d, decodeDigits t locale = .ok d ∧ d.value = v) ↔
      t.count locale.decimalSep ≤ 1 ∧
      (locale.groupSep ∈ t →
        Threes (((t.splitOn locale.decimalSep).headD []).splitOn locale.groupSep)) ∧
      v = .ofText (plainDigits locale t) ∧ v.isFinite = true := by
  have hfilter : t.filter (· != 39) = t := by
    apply List.filter_eq_self.mpr
    intro u hu
    rcases ht u hu with hu | rfl | rfl
    · have hne : u ≠ 39 := by
        rintro rfl
        exact absurd hu (by decide)
      simpa using hne
    · rfl
    · rfl
  have hmem : 0 < (t.splitOn locale.groupSep).length - 1 ↔ locale.groupSep ∈ t := by
    rw [length_splitOn, Nat.add_sub_cancel, List.count_pos_iff]
  have hplain : (if 0 < (t.splitOn locale.groupSep).length - 1 then
      (t.splitOn locale.groupSep).flatten else t) = t.filter (· != locale.groupSep) := by
    split_ifs with h
    · exact flatten_splitOn t
    · rw [hmem] at h
      symm
      apply List.filter_eq_self.mpr
      intro u hu
      have hne : u ≠ locale.groupSep := fun heq => h (heq ▸ hu)
      simpa using hne
  have hthrees : (((((t.splitOn locale.decimalSep).headD []).splitOn locale.groupSep).headD
      []).length = 0 ∨ 3 < ((((t.splitOn locale.decimalSep).headD []).splitOn
        locale.groupSep).headD []).length ∨
      ((((t.splitOn locale.decimalSep).headD []).splitOn locale.groupSep).drop 1).any
        (fun g => decide (g.length ≠ 3)) = true) ↔
      ¬ Threes (((t.splitOn locale.decimalSep).headD []).splitOn locale.groupSep) := by
    unfold Threes
    rw [List.any_eq_true, not_and_or, not_and_or, Nat.pos_iff_ne_zero, not_not, not_le]
    simp
  have hcount : (t.splitOn locale.decimalSep).length - 1 = t.count locale.decimalSep := by
    rw [length_splitOn, Nat.add_sub_cancel]
  have hnormalised : (if locale = .en then t.filter (· != locale.groupSep)
      else (t.filter (· != locale.groupSep)).replace 44 46) = plainDigits locale t := rfl
  unfold decodeDigits
  dsimp only
  rw [hfilter, hplain, hcount, hnormalised]
  split_ifs with hmarks hgroups hfinite
  · simp [not_le.mpr hmarks]
  · rw [hmem, hthrees] at hgroups
    simp only [false_and, exists_false, false_iff, not_and]
    exact fun _ h => absurd (h hgroups.1) hgroups.2
  · simp only [false_and, exists_false, false_iff, not_and]
    rintro - - rfl
    simpa using hfinite
  · rw [hmem, hthrees] at hgroups
    rw [Bool.not_eq_true, Bool.not_eq_false'] at hfinite
    constructor
    · rintro ⟨d, hd, rfl⟩
      obtain rfl := Except.ok.inj hd
      refine ⟨not_lt.mp hmarks, fun hsep => ?_, rfl, hfinite⟩
      by_contra hbad
      exact hgroups ⟨hsep, hbad⟩
    · rintro ⟨-, -, rfl, -⟩
      exact ⟨_, rfl, rfl⟩

/-! ## A token with at most one decimal mark -/

section

variable {locale : NumberLocale} {t int tail : JsString}

/-- Without the marks there are the digits. -/
theorem filter_groupSep (ht : IsToken t) (hmem : locale.decimalSep ∉ t) :
    t.filter (· != locale.groupSep) = t.filter isDigit := by
  apply List.filter_congr
  intro u hu
  by_cases hgroup : u = locale.groupSep
  · rw [hgroup, (isDigit_mark locale).1]
    simp
  · have hdecimal : u ≠ locale.decimalSep := fun h => hmem (h ▸ hu)
    rw [isDigit_of_isToken (ht u hu) hgroup hdecimal]
    simpa using hgroup

/-- No decimal mark. -/
theorem plainDigits_whole (ht : IsToken t) (hmem : locale.decimalSep ∉ t) :
    plainDigits locale t = t.filter isDigit := by
  unfold plainDigits
  rw [filter_groupSep ht hmem]
  split_ifs with hen
  · rfl
  · apply List.replace_of_not_mem
    intro hcomma
    exact absurd (List.mem_filter.mp hcomma).2 (by decide)

/-- Digits alone. -/
theorem decodeDigits_of_digits (ht : ∀ u ∈ t, isDigit u = true)
    (hfinite : (Number.ofRat (digitsValue t)).isFinite = true) :
    ∃ d, decodeDigits t locale = .ok d ∧ d.value = .ofRat (digitsValue t) := by
  have hmark : ∀ {u : UInt16}, isDigit u = false → u ∉ t := by
    intro u hu hmem
    exact Bool.noConfusion (hu.symm.trans (ht u hmem))
  have htoken : IsToken t := fun u hu => .inl (ht u hu)
  have hdecimal := hmark (isDigit_mark locale).2
  have hvalue : Number.ofText (plainDigits locale t) = .ofRat (digitsValue t) := by
    rw [plainDigits_whole htoken hdecimal, List.filter_eq_self.mpr ht, Number.ofText_digits ht]
  refine (exists_decodeDigits_iff htoken).mpr ⟨?_, ?_, hvalue.symm, hfinite⟩
  · rw [List.count_eq_zero.mpr hdecimal]
    exact Nat.zero_le 1
  · exact fun hsep => absurd hsep (hmark (isDigit_mark locale).1)

/-- One decimal mark. -/
theorem plainDigits_parts (ht : IsToken (int ++ locale.decimalSep :: tail))
    (hint : locale.decimalSep ∉ int) (htail : locale.decimalSep ∉ tail) :
    plainDigits locale (int ++ locale.decimalSep :: tail) =
      int.filter isDigit ++ 46 :: tail.filter isDigit := by
  have htoken : IsToken int ∧ IsToken tail := by
    constructor
    · exact fun u hu => ht u (List.mem_append_left _ hu)
    · exact fun u hu => ht u (List.mem_append_right _ (List.mem_cons_of_mem _ hu))
  have hne : (locale.decimalSep != locale.groupSep) = true := by
    simpa using (groupSep_ne_decimalSep locale).symm
  unfold plainDigits
  rw [List.filter_append, List.filter_cons, if_pos hne, filter_groupSep htoken.1 hint,
    filter_groupSep htoken.2 htail]
  cases locale with
  | en => rfl
  | eu =>
    have hcomma : (44 : UInt16) ∉ int.filter isDigit := by
      intro hmem
      exact absurd (List.mem_filter.mp hmem).2 (by decide)
    rw [if_neg NumberLocale.noConfusion, List.replace_append_right hcomma]
    rfl

/-- A token with at most one decimal mark. -/
theorem shape_of_count (h : t.count locale.decimalSep ≤ 1) : locale.decimalSep ∉ t ∨
    ∃ int tail, t = int ++ locale.decimalSep :: tail ∧ locale.decimalSep ∉ int ∧
      locale.decimalSep ∉ tail := by
  by_cases hmem : locale.decimalSep ∈ t
  · right
    obtain ⟨int, tail, rfl⟩ := List.append_of_mem hmem
    rw [List.count_append, List.count_cons_self] at h
    refine ⟨int, tail, rfl, ?_, ?_⟩
    · exact List.count_eq_zero.mp (by omega)
    · exact List.count_eq_zero.mp (by omega)
  · exact .inl hmem

/-- The groups of a token without a decimal mark. -/
theorem grouped_splitOn (ht : IsToken int) (hmem : locale.decimalSep ∉ int)
    (h : locale.groupSep ∈ int → Threes (int.splitOn locale.groupSep)) :
    Grouped (int.splitOn locale.groupSep) where
  ne_nil := List.splitOn_ne_nil _ _
  digits := by
    intro g hg u hu
    have hint := mem_of_mem_splitOn hg hu
    apply @isDigit_of_isToken locale u (ht u hint)
    · rintro rfl
      exact not_mem_of_mem_splitOn hg hu
    · rintro rfl
      exact hmem hint
  threes := by
    intro hlength
    apply h
    rw [length_splitOn] at hlength
    exact List.count_pos_iff.mp (Nat.lt_of_succ_lt_succ hlength)

/-- The digits of the groups. -/
theorem flatten_groups (ht : IsToken int) (hmem : locale.decimalSep ∉ int) :
    (int.splitOn locale.groupSep).flatten = int.filter isDigit := by
  rw [flatten_splitOn, filter_groupSep ht hmem]

/-- **A token with separators behind its decimal mark is read.** -/
theorem decodeDigits_misplaced (ht : IsToken t) (h : Misplaced locale t) :
    ∃ d, decodeDigits t locale = .ok d := by
  obtain ⟨int, tail, rfl, hint, htail, hsep, hpos, hle, hthrees, hfinite⟩ := h
  have hdigits : ∀ (s : JsString), ∀ u ∈ s.filter isDigit, isDigit u = true :=
    fun s u hu => (List.mem_filter.mp hu).2
  have hcount : (int ++ locale.decimalSep :: tail).count locale.decimalSep ≤ 1 := by
    rw [List.count_append, List.count_cons_self, List.count_eq_zero.mpr hint,
      List.count_eq_zero.mpr htail]
  have hne : ¬ (int.filter isDigit = [] ∧ tail.filter isDigit = []) := by
    rintro ⟨hnil, -⟩
    have htoken : IsToken int := fun u hu => ht u (List.mem_append_left _ hu)
    rw [← flatten_groups htoken hint] at hnil
    obtain ⟨g, gs, hgs⟩ := List.exists_cons_of_ne_nil (List.splitOn_ne_nil locale.groupSep int)
    rw [hgs] at hnil hpos
    have hg : g = [] := (List.append_eq_nil_iff.mp (List.flatten_cons.symm.trans hnil)).1
    rw [hg] at hpos
    exact absurd hpos (lt_irrefl 0)
  have hread := (exists_decodeDigits_iff ht (v := .ofText (plainDigits locale _))).mpr
    ⟨hcount, ?_, rfl, ?_⟩
  · obtain ⟨d, hd, -⟩ := hread
    exact ⟨d, hd⟩
  · rw [head_splitOn hint]
    exact fun _ => ⟨hpos, hle, hthrees⟩
  · rw [plainDigits_parts ht hint htail, Number.ofText_decimal (hdigits int) (hdigits tail),
      if_neg hne, ← List.filter_append]
    exact hfinite

/-- A group mark or a digit. -/
theorem mem_intercalate {groups : List JsString} {u : UInt16} (hgroups : Grouped groups)
    (h : u ∈ [locale.groupSep].intercalate groups) : u = locale.groupSep ∨ isDigit u = true := by
  have hdigits := hgroups.digits
  clear hgroups
  induction groups with
  | nil => exact absurd h List.not_mem_nil
  | cons g gs ih =>
    rw [List.forall_mem_cons] at hdigits
    cases gs with
    | nil =>
      rw [List.intercalate_singleton] at h
      exact .inr (hdigits.1 u h)
    | cons g' gs =>
      rw [List.intercalate_cons_cons, List.mem_append, List.mem_append] at h
      rcases h with (h | h) | h
      · exact .inr (hdigits.1 u h)
      · exact .inl (List.mem_singleton.mp h)
      · exact ih h hdigits.2

/-- A number as it is written has no separators behind its decimal mark. -/
theorem Writes.not_mem {value : ℚ} (h : Writes locale (int ++ locale.decimalSep :: tail) value)
    (hint : locale.decimalSep ∉ int) : locale.groupSep ∉ tail := by
  obtain ⟨groups, frac, hgroups, hfrac, htoken, -⟩ := h
  have hmark : locale.decimalSep ∉ [locale.groupSep].intercalate groups := by
    intro hmem
    rcases mem_intercalate hgroups hmem with heq | hdigit
    · exact groupSep_ne_decimalSep locale heq.symm
    · exact absurd hdigit (by simp [(isDigit_mark locale).2])
  rcases htoken with htoken | ⟨htoken, -⟩
  · have hhead := head_splitOn (b := tail) hint
    rw [htoken, head_splitOn hmark] at hhead
    rw [hhead] at htoken
    obtain rfl := List.tail_eq_of_cons_eq (List.append_cancel_left htoken)
    intro hmem
    exact absurd (hfrac _ hmem) (by simp [(isDigit_mark locale).1])
  · exact absurd (htoken ▸ List.mem_append_right _ (List.mem_cons_self ..)) hmark

/-- **A token that is read is a number grouped in threes, with the value it writes, unless there are
separators behind the decimal mark.** -/
theorem decodeDigits_iff (locale : NumberLocale) (t : JsString) (ht : IsToken t) :
    (∀ d, decodeDigits t locale = .ok d → ∃ value, Writes locale t value ∧ d.value = .ofRat value) ↔
      ¬ Misplaced locale t := by
  constructor
  · intro hwrites hmisplaced
    obtain ⟨d, hd⟩ := decodeDigits_misplaced ht hmisplaced
    obtain ⟨value, hvalue, -⟩ := hwrites d hd
    obtain ⟨int, tail, rfl, hint, -, hsep, -⟩ := hmisplaced
    exact hvalue.not_mem hint hsep
  · intro hplaced d hd
    obtain ⟨hcount, hthrees, hvalue, hfinite⟩ :=
      (exists_decodeDigits_iff ht).mp ⟨d, hd, rfl⟩
    rcases shape_of_count hcount with hwhole | ⟨int, tail, rfl, hint, htail⟩
    · rw [head_splitOn_of_not_mem hwhole] at hthrees
      refine ⟨_, ⟨t.splitOn locale.groupSep, [], grouped_splitOn ht hwhole hthrees,
        List.forall_mem_nil _, .inr ⟨(List.intercalate_splitOn _).symm, rfl⟩, rfl⟩, ?_⟩
      have hdigits : ∀ u ∈ t.filter isDigit, isDigit u = true :=
        fun u hu => (List.mem_filter.mp hu).2
      rw [hvalue, plainDigits_whole ht hwhole, Number.ofText_digits hdigits,
        flatten_groups ht hwhole]
      simp
    · rw [head_splitOn hint] at hthrees
      have htoken : IsToken int ∧ IsToken tail :=
        ⟨fun u hu => ht u (List.mem_append_left _ hu),
          fun u hu => ht u (List.mem_append_right _ (List.mem_cons_of_mem _ hu))⟩
      have hdigits : ∀ (s : JsString), ∀ u ∈ s.filter isDigit, isDigit u = true :=
        fun s u hu => (List.mem_filter.mp hu).2
      rw [plainDigits_parts ht hint htail, Number.ofText_decimal (hdigits int) (hdigits tail)] at hvalue
      split_ifs at hvalue with hempty
      · rw [hvalue] at hfinite
        exact absurd hfinite Bool.false_ne_true
      rw [hvalue] at hfinite
      have hsep : locale.groupSep ∉ tail := by
        intro hsep
        obtain ⟨hpos, hle, hrest⟩ :=
          hthrees (List.mem_append_right _ (List.mem_cons_of_mem _ hsep))
        refine hplaced ⟨int, tail, rfl, hint, htail, hsep, hpos, hle, hrest, ?_⟩
        rw [List.filter_append]
        exact hfinite
      have hfrac : ∀ u ∈ tail, isDigit u = true := by
        intro u hu
        apply @isDigit_of_isToken locale u (htoken.2 u hu)
        · rintro rfl
          exact hsep hu
        · rintro rfl
          exact htail hu
      have hgroups := grouped_splitOn htoken.1 hint fun hmem =>
        hthrees (List.mem_append_left _ hmem)
      refine ⟨_, ⟨int.splitOn locale.groupSep, tail, hgroups, hfrac,
        .inl (by rw [List.intercalate_splitOn]), rfl⟩, ?_⟩
      rw [hvalue, flatten_groups htoken.1 hint, List.filter_eq_self.mpr hfrac]

end

/-- It holds of a plain token. -/
theorem decodeDigits_twelveHundred :
    (∀ d, decodeDigits (js "1,200") .en = .ok d →
        ∃ value, Writes .en (js "1,200") value ∧ d.value = .ofRat value) ↔
      ¬ Misplaced .en (js "1,200") :=
  decodeDigits_iff .en (js "1,200") (by unfold IsToken; decide)

/-- **A European number in the other locale, read with a factor of a thousand too little.** -/
theorem decodeDigits_european : IsToken (js "1.234,567") ∧
    ∃ d, decodeDigits (js "1.234,567") .en = .ok d ∧ d.value = .ofRat (1234567 / 10 ^ 6) ∧
      ∀ value, ¬ Writes .en (js "1.234,567") value := by
  have htoken : IsToken (js "1.234,567") := by
    unfold IsToken
    decide
  have hfinite : (Number.ofRat (1234567 / 10 ^ 6)).isFinite = true := by
    obtain ⟨x, hx, -⟩ := Number.exists_ofRat_eq (q := 1234567 / 10 ^ 6) (d := 2) (by norm_num)
      ⟨2, 0, by norm_num, by norm_num, by norm_num, by norm_num⟩ (by norm_num)
    rw [hx]
    rfl
  have hvalue : Number.ofText (plainDigits .en (js "1.234,567")) = .ofRat (1234567 / 10 ^ 6) := by
    have hparts := @Number.ofText_decimal (js "1") (js "234567") (by decide) (by decide)
    rw [if_neg (by decide)] at hparts
    have hdigits : digitsValue (js "1" ++ js "234567") = 1234567 := rfl
    have hlength : (js "234567").length = 6 := rfl
    rw [hdigits, hlength] at hparts
    exact_mod_cast hparts
  obtain ⟨d, hd, hdvalue⟩ := (@exists_decodeDigits_iff .en _ htoken _).mpr
    ⟨by decide, fun _ => by unfold Threes; decide, hvalue.symm, hfinite⟩
  refine ⟨htoken, d, hd, hdvalue, fun value hwrites => ?_⟩
  have hnot : (44 : UInt16) ∉ js "234,567" :=
    @Writes.not_mem .en (js "1") (js "234,567") value hwrites (by decide)
  exact hnot (by decide)

end AgentEval.Finance
