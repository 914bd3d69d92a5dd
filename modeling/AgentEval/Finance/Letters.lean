import AgentEval.Finance.Parsing
import AgentEval.Words.Runs

/-!
# Letters, and what the steps before the currency keep

A letter run is a maximal run of letters of a text. The steps before the currency change digits, signs,
spaces and parentheses: currency symbols and the letter runs of three letters stay.

* `sameLetter_iff` — comparing without regard to case.
* **`rewritten_keeps`**, **`readSign_keeps`**: the symbols and the runs of three letters.
-/

namespace AgentEval.Finance

open Js Regex Regex.Pattern

/-! ## Case -/

/-- Lower case, as a number. -/
theorem toNat_lower (u : UInt16) :
    (lower u).toNat = if 65 ≤ u.toNat ∧ u.toNat ≤ 90 then u.toNat + 32 else u.toNat := by
  unfold lower
  simp only [Bool.and_eq_true, decide_eq_true_eq, UInt16.le_iff_toNat_le]
  change (if 65 ≤ u.toNat ∧ u.toNat ≤ 90 then u + 32 else u).toNat = _
  split_ifs with h
  · rw [UInt16.toNat_add]
    change (u.toNat + 32) % 65536 = _
    omega
  · rfl

/-- Upper case, as a number. -/
theorem toNat_upper (u : UInt16) :
    (upper u).toNat = if 97 ≤ u.toNat ∧ u.toNat ≤ 122 then u.toNat - 32 else u.toNat := by
  unfold upper
  simp only [Bool.and_eq_true, decide_eq_true_eq, UInt16.le_iff_toNat_le]
  change (if 97 ≤ u.toNat ∧ u.toNat ≤ 122 then u - 32 else u).toNat = _
  split_ifs with h
  · rw [UInt16.toNat_sub_of_le _ _ (UInt16.le_iff_toNat_le.mpr (by
      change 32 ≤ u.toNat
      omega))]
    rfl
  · rfl

/-- A letter, as a number. -/
theorem isLetter_iff {u : UInt16} : isLetter u = true ↔
    65 ≤ u.toNat ∧ u.toNat ≤ 90 ∨ 97 ≤ u.toNat ∧ u.toNat ≤ 122 := by
  have ha : (97 : UInt16).toNat = 97 := rfl
  have hz : (122 : UInt16).toNat = 122 := rfl
  unfold isLetter
  simp only [Bool.and_eq_true, decide_eq_true_eq, UInt16.le_iff_toNat_le, toNat_lower, ha, hz]
  split_ifs <;> omega

/-- The same letter. -/
theorem sameLetter_iff {u v : UInt16} : sameLetter u v = true ↔ lower u = lower v := by
  unfold sameLetter
  rw [beq_iff_eq]

/-- The same letter as one in upper case. -/
theorem sameLetter_iff_upper {u v : UInt16} (hu : 65 ≤ u.toNat ∧ u.toNat ≤ 90) :
    sameLetter u v = true ↔ upper v = u := by
  rw [sameLetter_iff, ← UInt16.toNat_inj, ← UInt16.toNat_inj, toNat_lower, toNat_lower, toNat_upper]
  split_ifs <;> omega

/-- The same word as one in upper case. -/
theorem forall₂_sameLetter_iff {w v : JsString} (hw : ∀ u ∈ w, 65 ≤ u.toNat ∧ u.toNat ≤ 90) :
    List.Forall₂ (fun x y => sameLetter x y = true) w v ↔ v.map upper = w := by
  induction w generalizing v with
  | nil => rw [List.forall₂_nil_left_iff, List.map_eq_nil_iff]
  | cons u w ih =>
    rw [List.forall_mem_cons] at hw
    cases v with
    | nil => simp
    | cons x v =>
      rw [List.forall₂_cons, sameLetter_iff_upper hw.1, ih hw.2, List.map_cons, List.cons.injEq]

/-! ## What is neither a letter nor a currency symbol -/

/-- No letter. -/
def separator (u : UInt16) : Bool := !isLetter u

/-- All currency symbols with their codes. -/
def symbolTable : List (UInt16 × JsString) := unambiguousSymbols ++ ambiguousSymbols

/-- Neither a letter nor a currency symbol. -/
def Neutral (u : UInt16) : Prop := separator u = true ∧ u ∉ symbolTable.map Prod.fst

instance (u : UInt16) : Decidable (Neutral u) := inferInstanceAs (Decidable (_ ∧ _))

/-- White space is neutral. -/
theorem neutral_of_isWhiteSpace {u : UInt16} (h : isWhiteSpace u = true) : Neutral u := by
  constructor
  · rw [separator, Bool.not_eq_true', ← Bool.not_eq_true, isLetter_iff]
    intro hletter
    obtain ⟨k, hk, rfl⟩ : ∃ k : ℕ, k < 58 ∧ u = UInt16.ofNat (65 + k) := by
      refine ⟨u.toNat - 65, by omega, ?_⟩
      rw [Nat.add_sub_cancel' (by omega), UInt16.ofNat_toNat]
    clear hletter
    revert k
    decide
  · intro hmem
    have hspace : ∀ v ∈ symbolTable.map Prod.fst, isWhiteSpace v = false := by decide
    exact absurd ((hspace u hmem).symm.trans h) Bool.noConfusion

/-- Digits are neutral. -/
theorem neutral_of_isDigit {u : UInt16} (h : isDigit u = true) : Neutral u := by
  unfold isDigit at h
  rw [Bool.and_eq_true, decide_eq_true_iff, decide_eq_true_iff] at h
  obtain ⟨k, hk, rfl⟩ : ∃ k : ℕ, k < 10 ∧ u = UInt16.ofNat (48 + k) := by
    refine ⟨u.toNat - 48, by omega, ?_⟩
    rw [Nat.add_sub_cancel' h.1, UInt16.ofNat_toNat]
  clear h
  revert k
  decide

/-- Two texts with the same currency symbols and the same runs of three letters. -/
structure SameNames (s t : JsString) : Prop where
  /-- The symbols. -/
  symbols : ∀ u ∈ symbolTable.map Prod.fst, u ∈ s ↔ u ∈ t
  /-- The runs. -/
  runs : ∀ w : JsString, w.length = 3 → (w ∈ s.splitOnP separator ↔ w ∈ t.splitOnP separator)

namespace SameNames

variable {s t a b : JsString}

theorem refl (s : JsString) : SameNames s s := ⟨fun _ _ => Iff.rfl, fun _ _ => Iff.rfl⟩

theorem symm (h : SameNames s t) : SameNames t s :=
  ⟨fun u hu => (h.symbols u hu).symm, fun w hw => (h.runs w hw).symm⟩

theorem trans {u : JsString} (h : SameNames s t) (h' : SameNames t u) : SameNames s u :=
  ⟨fun x hx => (h.symbols x hx).trans (h'.symbols x hx),
    fun w hw => (h.runs w hw).trans (h'.runs w hw)⟩

/-- What is around a text. -/
theorem of_around (ha : ∀ u ∈ a, Neutral u) (hb : ∀ u ∈ b, Neutral u) :
    SameNames (a ++ (s ++ b)) s where
  symbols := by
    intro u hu
    rw [List.mem_append, List.mem_append, or_iff_right fun h => (ha u h).2 hu,
      or_iff_left fun h => (hb u h).2 hu]
  runs := by
    intro w hw
    have hne : w ≠ [] := List.ne_nil_of_length_pos (by omega)
    rw [Runs.mem_append_left (fun u hu => (ha u hu).1) hne,
      Runs.mem_append_right (fun u hu => (hb u hu).1) hne]

/-- Some neutral symbols replaced by one. -/
theorem of_substitute {us : List UInt16} {v : UInt16} (hus : ∀ u ∈ us, Neutral u) (hv : Neutral v) :
    SameNames (substitute us v s) s where
  symbols := by
    intro u hu
    unfold substitute
    rw [List.mem_map]
    constructor
    · rintro ⟨x, hx, rfl⟩
      split_ifs at hu ⊢ with hmem
      · exact absurd hu hv.2
      · exact hx
    · intro hmem
      exact ⟨u, hmem, if_neg fun h => (hus u h).2 hu⟩
  runs := by
    intro w _
    unfold substitute
    rw [Runs.splitOnP_map]
    · intro u
      split_ifs with hmem
      · exact hv.1.trans (hus u hmem).1.symm
      · rfl
    · intro u hu
      exact if_neg fun hmem => Bool.noConfusion (hu.symm.trans (hus u hmem).1)

/-- One neutral symbol replaced by another. -/
theorem of_replace {x y : UInt16} (hx : Neutral x) (hy : Neutral y) :
    SameNames (s.replace x y) s := by
  by_cases hmem : x ∈ s
  · obtain ⟨a, b, rfl, ha⟩ := List.eq_append_cons_of_mem hmem
    have hreplace : (a ++ x :: b).replace x y = a ++ y :: b := by
      rw [List.replace_append_right ha, List.replace_cons_self]
    rw [hreplace]
    constructor
    · intro u hu
      have hux : u ≠ x := by
        rintro rfl
        exact hx.2 hu
      have huy : u ≠ y := by
        rintro rfl
        exact hy.2 hu
      simp [hux, huy]
    · intro w _
      rw [List.splitOnP_append_cons a b hx.1, List.splitOnP_append_cons a b hy.1]
  · rw [List.replace_of_not_mem hmem]
    exact refl s

end SameNames

/-! ## The steps before the currency -/

/-- What `trim` takes away is white space. -/
theorem exists_trim (s : JsString) : ∃ a b, Blank a ∧ Blank b ∧ s = a ++ (trim s ++ b) := by
  refine ⟨s.takeWhile isWhiteSpace,
    ((s.dropWhile isWhiteSpace).reverse.takeWhile isWhiteSpace).reverse, ?_, ?_, ?_⟩
  · exact fun u hu => List.mem_takeWhile_imp hu
  · exact fun u hu => List.mem_takeWhile_imp (List.mem_reverse.mp hu)
  · unfold trim
    rw [← List.reverse_append, List.takeWhile_append_dropWhile, List.reverse_reverse,
      List.takeWhile_append_dropWhile]

/-- Trimming. -/
theorem trim_keeps (s : JsString) : SameNames (trim s) s := by
  obtain ⟨a, b, ha, hb, hs⟩ := exists_trim s
  have haround : SameNames (a ++ (trim s ++ b)) (trim s) := SameNames.of_around
    (fun u hu => neutral_of_isWhiteSpace (ha u hu)) fun u hu => neutral_of_isWhiteSpace (hb u hu)
  rw [← hs] at haround
  exact haround.symm

/-- Variants of signs, spaces and apostrophes. -/
theorem normalise_keeps (s : JsString) : SameNames (normalise s) s := by
  unfold normalise
  refine (SameNames.of_substitute ?_ ?_).trans ((SameNames.of_substitute ?_ ?_).trans
    ((SameNames.of_substitute ?_ ?_).trans (SameNames.of_substitute ?_ ?_)))
  all_goals decide

/-- Digits are neutral. -/
theorem Digits.neutral {s : JsString} (h : Digits s) : ∀ u ∈ s, Neutral u :=
  fun u hu => neutral_of_isDigit (h u hu)

/-- A mantissa is neutral. -/
theorem Mantissa.neutral {s : JsString} (h : Mantissa s) : s ≠ [] ∧ ∀ u ∈ s, Neutral u := by
  obtain ⟨int, hne, hint, rfl | ⟨frac, -, hfrac, rfl⟩⟩ := h
  · exact ⟨hne, hint.neutral⟩
  · refine ⟨by simp, ?_⟩
    rw [List.forall_mem_append, List.forall_mem_cons]
    exact ⟨hint.neutral, by decide, hfrac.neutral⟩

/-- An exponent is neutral. -/
theorem Exponent.neutral {s : JsString} (h : Exponent s) : s ≠ [] ∧ ∀ u ∈ s, Neutral u := by
  obtain ⟨sign, ds, hsign, hne, hds, rfl⟩ := h
  refine ⟨fun h0 => hne (List.append_eq_nil_iff.mp h0).2, ?_⟩
  rw [List.forall_mem_append]
  refine ⟨?_, hds.neutral⟩
  rcases hsign with rfl | rfl | rfl
  · exact List.forall_mem_nil _
  · exact List.forall_mem_singleton.mpr (by decide)
  · exact List.forall_mem_singleton.mpr (by decide)

/-- What takes the place of a notation with an exponent. -/
theorem expanded_cases (tenTo : Number → Number) (o : Outcome UInt16) :
    expanded tenTo o = o.taken ∨
      (expanded tenTo o ≠ [] ∧ ∀ u ∈ expanded tenTo o, Neutral u) := by
  unfold expanded
  dsimp only
  split_ifs with h
  · right
    rw [Bool.and_eq_true, Bool.not_eq_true', ← Bool.not_eq_true, List.contains_iff_mem] at h
    obtain ⟨hne, hmem⟩ := Number.mem_toString h.1 h.2
    refine ⟨hne, fun u hu => ?_⟩
    rcases hmem u hu with hu | rfl | rfl
    · exact neutral_of_isDigit hu
    · decide
    · decide
  · exact .inl rfl

/-- A run in a notation with an exponent is its mark. -/
theorem length_run_notation {mantissa exponent w : JsString} {e : UInt16} (hm : Mantissa mantissa)
    (he : IsExponentMark e) (hk : Exponent exponent)
    (hw : w ∈ (mantissa ++ e :: exponent).splitOnP separator) : w.length ≤ 1 := by
  by_cases hne : w = []
  · rw [hne]
    exact Nat.zero_le _
  · have hmark : ∀ u ∈ [e], separator u = false := by
      rw [List.forall_mem_singleton]
      rcases he with rfl | rfl <;> rfl
    rw [Runs.mem_append_left (fun u hu => (hm.neutral.2 u hu).1) hne, ← List.singleton_append,
      Runs.mem_append_right (fun u hu => (hk.neutral.2 u hu).1) hne,
      List.splitOnP_eq_singleton hmark, List.mem_singleton] at hw
    rw [hw]
    exact le_rfl

/-- Expanding exponents. -/
theorem expandExponents_keeps (tenTo : Number → Number) (s : JsString) :
    SameNames (expandExponents tenTo s) s := by
  unfold expandExponents
  rw [replaceAll_eq]
  constructor
  · intro u hu
    have hmem := replaceRest_induction (r := exponentNotation) (f := expanded tenTo)
      (R := fun s t => u ∈ s ↔ u ∈ t) Iff.rfl (fun x s t h => by rw [List.mem_cons, List.mem_cons, h])
      ?_ true s
    · exact hmem.symm
    · intro b s o ho
      obtain ⟨m, e, k, rest, hm, he, hk, rfl, rfl⟩ := mem_run_exponentNotation.mp ho
      have hnot : u ∉ m ++ e :: k := by
        rw [List.mem_append, List.mem_cons]
        rintro (h | h | h)
        · exact (hm.neutral.2 u h).2 hu
        · have hmark : ∀ v ∈ symbolTable.map Prod.fst, v ≠ 101 ∧ v ≠ 69 := by decide
          rcases he with rfl | rfl
          · exact (hmark u hu).1 h
          · exact (hmark u hu).2 h
        · exact (hk.neutral.2 u h).2 hu
      have hexpanded : u ∉ expanded tenTo ⟨m ++ e :: k, rest, [(2, k), (1, m)]⟩ := by
        rcases expanded_cases tenTo ⟨m ++ e :: k, rest, [(2, k), (1, m)]⟩ with heq | ⟨-, hneutral⟩
        · rw [heq]
          exact hnot
        · exact fun h => (hneutral u h).2 hu
      have hfront : ∀ {a t : JsString}, u ∉ a → (u ∈ a ++ t ↔ u ∈ t) := by
        intro a t ha
        rw [List.mem_append, or_iff_right ha]
      exact ⟨by simp, fun t ht => (hfront hnot).trans (ht.trans (hfront hexpanded).symm)⟩
  · intro w hw
    have halike := Runs.alike_replaceRest (p := separator) (q := fun w => decide (w.length = 3))
      (r := exponentNotation) (f := expanded tenTo) rfl ?_ true s
    · have hfilter := halike.filter
      have hq : ∀ l : List JsString, w ∈ l ↔ w ∈ l.filter fun w => decide (w.length = 3) := by
        intro l
        simp [hw]
      rw [hq, hq (s.splitOnP separator), hfilter]
    · intro b s o ho
      obtain ⟨m, e, k, rest, hm, he, hk, rfl, rfl⟩ := mem_run_exponentNotation.mp ho
      have hmb := Runs.Bordered.of_forall hm.neutral.1 fun u hu => (hm.neutral.2 u hu).1
      have hkb := Runs.Bordered.of_forall hk.neutral.1 fun u hu => (hk.neutral.2 u hu).1
      have htaken : Runs.Bordered separator (m ++ e :: k) := by
        obtain ⟨x, t, rfl, hx⟩ := hmb.front
        obtain ⟨t', y, rfl, hy⟩ := hkb.back
        exact ⟨⟨x, _, rfl, hx⟩, ⟨(x :: t) ++ e :: t', y, by simp, hy⟩⟩
      have hruns : ((m ++ e :: k).splitOnP separator).filter
          (fun w => decide (w.length = 3)) = [] := by
        apply List.filter_eq_nil_iff.mpr
        intro v hv
        have hlength := length_run_notation hm he hk hv
        simp only [decide_eq_true_eq]
        omega
      refine ⟨htaken, ?_⟩
      rcases expanded_cases tenTo ⟨m ++ e :: k, rest, [(2, k), (1, m)]⟩ with heq | ⟨hne, hneutral⟩
      · rw [heq]
        exact ⟨htaken, rfl⟩
      · refine ⟨Runs.Bordered.of_forall hne fun u hu => (hneutral u hu).1, ?_⟩
        rw [hruns]
        apply List.filter_eq_nil_iff.mpr
        intro v hv
        rw [Runs.eq_nil_of_mem (fun u hu => (hneutral u hu).1) hv]
        simp

/-- The steps before the sign. -/
theorem rewritten_keeps (tenTo : Number → Number) (input : JsString) :
    SameNames (rewritten tenTo input) input :=
  (expandExponents_keeps tenTo _).trans ((normalise_keeps _).trans (trim_keeps input))

/-- The inside of parentheses. -/
theorem inside_keeps (text : JsString) : SameNames (inside text) text := by
  unfold inside
  cases hm : parenthesised.search text with
  | none => exact SameNames.refl text
  | some m =>
    obtain ⟨before, after, hbefore, hafter, htext⟩ := parenthesised_search hm
    have haround : SameNames ((40 :: before) ++ (m.group 1 ++ (after ++ [41]))) (m.group 1) := by
      apply SameNames.of_around
      · rw [List.forall_mem_cons]
        exact ⟨by decide, fun u hu => neutral_of_isWhiteSpace (hbefore u hu)⟩
      · rw [List.forall_mem_append, List.forall_mem_singleton]
        exact ⟨fun u hu => neutral_of_isWhiteSpace (hafter u hu), by decide⟩
    rw [List.cons_append, ← htext] at haround
    exact haround.symm

/-- The sign. -/
theorem readSign_keeps {text : JsString} {signed : Signed} (h : readSign text = .ok signed) :
    SameNames signed.text text := by
  have hreplace : ∀ x y : UInt16, Neutral x → Neutral y →
      SameNames ((inside text).replace x y) text := fun x y hx hy =>
    (SameNames.of_replace hx hy).trans (inside_keeps text)
  rcases readSign_cases h with ⟨-, -, rfl⟩ | ⟨-, -, rfl⟩ | ⟨-, -, rfl⟩
  · exact hreplace 45 32 (by decide) (by decide)
  · exact hreplace 43 32 (by decide) (by decide)
  · exact inside_keeps text

end AgentEval.Finance
