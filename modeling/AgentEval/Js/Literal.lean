import AgentEval.Js.Decimal

/-!
# Numbers from texts

`Number(text)` for a decimal text: digits with at most one point and an exponent, white space around.
-/

namespace Js.Number

/-- An unsigned decimal literal, the whole text. -/
def ofUnsigned (neg : Bool) (s : JsString) : Number :=
  if s = js "Infinity" then .infinity neg
  else
    let int := s.takeWhile isDigit
    let afterInt := s.dropWhile isDigit
    let point := afterInt.head? == some 46
    let frac := if point then (afterInt.drop 1).takeWhile isDigit else []
    let afterFrac := if point then (afterInt.drop 1).dropWhile isDigit else afterInt
    if int = [] ∧ frac = [] then .nan
    else
      match scanExp afterFrac with
      | some (exp, []) => Literal.toNumber neg ⟨int, frac, exp⟩
      | _ => .nan

/-- `Number(s)`, for a text without a radix prefix. -/
def ofText (s : JsString) : Number :=
  match trim s with
  | [] => .ofNat 0
  | 45 :: t => ofUnsigned true t
  | 43 :: t => ofUnsigned false t
  | t => ofUnsigned false t

/-! ## Digits, and digits with a point -/

/-- Nothing to trim. -/
theorem trim_of_forall {s : JsString} (h : ∀ u ∈ s, isWhiteSpace u = false) : trim s = s := by
  have hdrop : ∀ t : JsString, (∀ u ∈ t, isWhiteSpace u = false) → t.dropWhile isWhiteSpace = t := by
    intro t ht
    cases t with
    | nil => rfl
    | cons u t => exact List.dropWhile_cons_of_neg (by simp [ht u (List.mem_cons_self ..)])
  unfold trim
  rw [hdrop s h, hdrop s.reverse fun u hu => h u (List.mem_reverse.mp hu), List.reverse_reverse]

variable {int frac : JsString}

/-- A run of digits. -/
theorem takeWhile_append_of_digits {s : JsString} (hint : ∀ u ∈ int, isDigit u = true)
    (hs : s.head?.elim true (!isDigit ·) = true) :
    (int ++ s).takeWhile isDigit = int ∧ (int ++ s).dropWhile isDigit = s := by
  rw [List.takeWhile_append_of_pos hint, List.dropWhile_append_of_pos hint]
  cases s with
  | nil => simp
  | cons u s =>
    have hu : isDigit u = false := by simpa using hs
    simp [hu]

/-- A text that starts like a number has no sign. -/
theorem ofText_of_head {u : UInt16} {s : JsString} (hu : isDigit u = true ∨ u = 46)
    (hs : ∀ v ∈ u :: s, isWhiteSpace v = false) : ofText (u :: s) = ofUnsigned false (u :: s) := by
  have hsign : u ≠ 45 ∧ u ≠ 43 := by
    rcases hu with hu | rfl
    · exact ⟨(not_isWhiteSpace_of_isDigit hu).2.2, (not_isWhiteSpace_of_isDigit hu).2.1⟩
    · exact ⟨by simp, by simp⟩
  unfold ofText
  rw [trim_of_forall hs]
  split
  · rename_i heq
    exact absurd heq (List.cons_ne_nil _ _)
  · rename_i heq
    exact absurd (List.cons.inj heq).1 hsign.1
  · rename_i heq
    exact absurd (List.cons.inj heq).1 hsign.2
  · rfl

/-- Digits, and maybe a point and more digits. -/
theorem ofUnsigned_of_parts {s : JsString} (hint : ∀ u ∈ int, isDigit u = true)
    (hfrac : ∀ u ∈ frac, isDigit u = true) (hs : s = int ++ 46 :: frac ∨ s = int ∧ frac = []) :
    ofUnsigned false s = if int = [] ∧ frac = [] then .nan else
      .ofRat (digitsValue (int ++ frac) / 10 ^ frac.length) := by
  have hvalue : Literal.toNumber false ⟨int, frac, none⟩ =
      .ofRat (digitsValue (int ++ frac) / 10 ^ frac.length) := by
    unfold Literal.toNumber Literal.value
    simp [div_eq_mul_inv]
  have hname : s ≠ js "Infinity" := by
    rintro rfl
    have hmem : (73 : UInt16) ∈ js "Infinity" := by decide
    rcases hs with hs | ⟨rfl, -⟩
    · rw [hs, List.mem_append, List.mem_cons] at hmem
      rcases hmem with hmem | hmem | hmem
      · exact absurd (hint _ hmem) (by decide)
      · exact absurd hmem (by decide)
      · exact absurd (hfrac _ hmem) (by decide)
    · exact absurd (hint _ hmem) (by decide)
  unfold ofUnsigned
  rw [if_neg hname]
  dsimp only
  rcases hs with rfl | ⟨rfl, rfl⟩
  · obtain ⟨htake, hdrop⟩ := takeWhile_append_of_digits (s := 46 :: frac) hint rfl
    obtain ⟨htake', hdrop'⟩ := takeWhile_append_of_digits (s := []) hfrac rfl
    rw [List.append_nil] at htake' hdrop'
    rw [htake, hdrop]
    simp only [List.head?_cons, BEq.rfl, if_true, List.drop_succ_cons, List.drop_zero, htake', hdrop']
    split_ifs
    · rfl
    · exact hvalue
  · obtain ⟨htake, hdrop⟩ := takeWhile_append_of_digits (s := []) hint rfl
    rw [List.append_nil] at htake hdrop
    have hpoint : (([] : JsString).head? == some 46) = false := rfl
    rw [htake, hdrop, hpoint]
    simp only [Bool.false_eq_true, if_false]
    split_ifs
    · rfl
    · exact hvalue

/-- A digit or a point is no white space. -/
theorem isWhiteSpace_of_digit_or_point {u : UInt16} (h : isDigit u = true ∨ u = 46) :
    isWhiteSpace u = false := by
  rcases h with h | rfl
  · exact (not_isWhiteSpace_of_isDigit h).1
  · rfl

/-- A text of digits. -/
theorem ofText_digits (hint : ∀ u ∈ int, isDigit u = true) :
    ofText int = .ofRat (digitsValue int) := by
  cases int with
  | nil => rfl
  | cons u int =>
    have hspace : ∀ v ∈ u :: int, isWhiteSpace v = false := fun v hv =>
      isWhiteSpace_of_digit_or_point (.inl (hint v hv))
    have hparts := ofUnsigned_of_parts hint (List.forall_mem_nil _) (.inr ⟨rfl, rfl⟩)
    rw [ofText_of_head (.inl (hint u (List.mem_cons_self ..))) hspace, hparts, if_neg (by simp)]
    simp

/-- Digits around a point. -/
theorem ofText_decimal (hint : ∀ u ∈ int, isDigit u = true) (hfrac : ∀ u ∈ frac, isDigit u = true) :
    ofText (int ++ 46 :: frac) = if int = [] ∧ frac = [] then .nan else
      .ofRat (digitsValue (int ++ frac) / 10 ^ frac.length) := by
  have hmem : ∀ v ∈ int ++ 46 :: frac, isDigit v = true ∨ v = 46 := by
    intro v hv
    rw [List.mem_append, List.mem_cons] at hv
    rcases hv with hv | rfl | hv
    · exact .inl (hint v hv)
    · exact .inr rfl
    · exact .inl (hfrac v hv)
  rw [← ofUnsigned_of_parts hint hfrac (.inl rfl)]
  obtain ⟨u, s, hs⟩ : ∃ u s, int ++ 46 :: frac = u :: s :=
    List.exists_cons_of_ne_nil (by simp)
  rw [hs] at hmem ⊢
  exact ofText_of_head (hmem u (List.mem_cons_self ..)) fun v hv =>
    isWhiteSpace_of_digit_or_point (hmem v hv)

/-! ## Texts of Numbers -/

/-- The text of a positive double, where it has no exponent. -/
theorem exists_parts_renderPos {x : Double} (hx : 0 < x.val) (he : 101 ∉ renderPos x hx) :
    ∃ int frac, renderPos x hx = int ++ (if frac = [] then [] else 46 :: frac) ∧ int ≠ [] ∧
      (∀ u ∈ int, isDigit u = true) ∧ (∀ u ∈ frac, isDigit u = true) ∧
      ofRat (digitsValue (int ++ frac) / 10 ^ frac.length) = finite x := by
  have hne := shortest_ne_zero x hx
  have hok := layout_ok hne (shortest x hx).2
  have hvalue := value_layout hne (shortest x hx).2
  have hround := roundsTo_shortest x hx
  rw [RoundsTo, ← hvalue] at hround
  unfold renderPos at he ⊢
  clear hvalue hne
  generalize layout (shortest x hx).1 (shortest x hx).2 = l at *
  obtain ⟨int, frac, exp⟩ := l
  have hint : int ≠ [] := by
    rcases hok.int_head with h | ⟨u, us, h, -⟩
    · exact ne_of_eq_of_ne h (List.cons_ne_nil _ _)
    · exact ne_of_eq_of_ne h (List.cons_ne_nil _ _)
  cases exp with
  | some e =>
    refine absurd ?_ he
    unfold Literal.render Literal.renderExp
    simp
  | none =>
    refine ⟨int, frac, by simp [Literal.render], hint, hok.int_digits, hok.frac_digits, ?_⟩
    apply ofRat_of_roundQ _ hx.ne'
    rw [← hround, Literal.value]
    simp [div_eq_mul_inv]

/-- The symbols of a text without an exponent. -/
theorem mem_toString {x : Number} (hfinite : x.isFinite = true) (he : 101 ∉ x.toString) :
    x.toString ≠ [] ∧ ∀ u ∈ x.toString, isDigit u = true ∨ u = 46 ∨ u = 45 := by
  have hpos : ∀ (d : Double) (hd : 0 < d.val), 101 ∉ renderPos d hd →
      renderPos d hd ≠ [] ∧ ∀ u ∈ renderPos d hd, isDigit u = true ∨ u = 46 := by
    intro d hd hnot
    obtain ⟨int, frac, heq, hne, hint, hfrac, -⟩ := exists_parts_renderPos hd hnot
    rw [heq]
    refine ⟨fun h => hne (List.append_eq_nil_iff.mp h).1, fun u hu => ?_⟩
    rcases List.mem_append.mp hu with hu | hu
    · exact .inl (hint u hu)
    · split_ifs at hu
      · exact absurd hu List.not_mem_nil
      · rcases List.mem_cons.mp hu with rfl | hu
        · exact .inr rfl
        · exact .inl (hfrac u hu)
  have hzero : ([48] : JsString) ≠ [] ∧ ∀ u ∈ ([48] : JsString), isDigit u = true ∨ u = 46 ∨ u = 45 :=
    ⟨List.cons_ne_nil _ _, List.forall_mem_singleton.mpr (.inl rfl)⟩
  cases x with
  | nan => exact absurd hfinite Bool.false_ne_true
  | infinity neg => exact absurd hfinite Bool.false_ne_true
  | negZero => exact hzero
  | finite d =>
    unfold toString at he ⊢
    dsimp only at he ⊢
    split_ifs at he ⊢ with hd hd'
    · obtain ⟨hne, hmem⟩ := hpos d hd he
      exact ⟨hne, fun u hu => (hmem u hu).imp_right .inl⟩
    · obtain ⟨hne, hmem⟩ := hpos d.neg hd' fun h => he (List.mem_cons_of_mem _ h)
      refine ⟨List.cons_ne_nil _ _, List.forall_mem_cons.mpr ⟨.inr (.inr rfl), fun u hu => ?_⟩⟩
      exact (hmem u hu).imp_right .inl
    · exact hzero

/-- The symbols of the text of a literal. -/
theorem mem_render_units {l : Literal} (hl : l.Ok) :
    ∀ u ∈ l.render, isDigit u = true ∨ u ∈ js ".e+-" := by
  rw [Literal.render, List.forall_mem_append, List.forall_mem_append]
  refine ⟨⟨fun u hu => .inl (hl.int_digits u hu), ?_⟩, ?_⟩
  · split_ifs
    · exact List.forall_mem_nil _
    · exact List.forall_mem_cons.mpr ⟨.inr (by decide), fun u hu => .inl (hl.frac_digits u hu)⟩
  · cases l.exp with
    | none => exact List.forall_mem_nil _
    | some e =>
      refine List.forall_mem_cons.mpr ⟨.inr (by decide), List.forall_mem_cons.mpr ⟨.inr ?_, ?_⟩⟩
      · split_ifs <;> decide
      · exact fun u hu => .inl (isDigit_of_mem_natDigits hu)

/-- **The symbols of the text of a Number.** -/
theorem mem_toString_units (x : Number) :
    ∀ u ∈ x.toString, isDigit u = true ∨ u ∈ js ".e+-NaIfinty" := by
  have hrender : ∀ {l : Literal}, l.Ok → ∀ u ∈ l.render,
      isDigit u = true ∨ u ∈ js ".e+-NaIfinty" := fun hl u hu =>
    (mem_render_units hl u hu).imp_right fun h => List.mem_append_left (js "NaIfinty") h
  have hclosed : ∀ s : JsString, (s.all fun u => decide (u ∈ js ".e+-NaIfinty")) = true →
      ∀ u ∈ s, isDigit u = true ∨ u ∈ js ".e+-NaIfinty" := fun s hs u hu =>
    .inr (of_decide_eq_true (List.all_eq_true.mp hs u hu))
  have hzero : ∀ u ∈ ([48] : JsString), isDigit u = true ∨ u ∈ js ".e+-NaIfinty" :=
    List.forall_mem_singleton.mpr (.inl rfl)
  cases x with
  | nan => exact hclosed _ (by decide)
  | infinity neg => cases neg <;> exact hclosed _ (by decide)
  | negZero => exact hzero
  | finite x =>
    unfold toString
    dsimp only
    split_ifs with hx hn
    · exact hrender (layout_ok (shortest_ne_zero x hx) _)
    · refine List.forall_mem_cons.mpr ⟨.inr (by decide), ?_⟩
      exact hrender (layout_ok (shortest_ne_zero _ hn) _)
    · exact hzero

/-- `x + 0`: `-0` is `0`. -/
def unsigned : Number → Number
  | negZero => ofNat 0
  | x => x

/-- The text of a Number does not tell `-0` from `0`. -/
theorem toString_unsigned (x : Number) : x.unsigned.toString = x.toString := by
  cases x with
  | negZero =>
    change (ofNat 0).toString = [48]
    rw [ofNat_eq (by norm_num), toString, dif_neg (by norm_num), dif_neg (by norm_num)]
  | nan => rfl
  | infinity => rfl
  | finite => rfl

/-- The text of a finite Number reads back, and no other does. -/
theorem parseNumber_toString_unsigned (x : Number) :
    parseNumber x.unsigned.toString = if x.isFinite then some (x.unsigned, []) else none := by
  have hend : NumberEnd [] := fun _ _ h => absurd h (by simp)
  have hread : ∀ z : Double, parseNumber (finite z).toString = some (finite z, []) := by
    intro z
    have := parseNumber_toString z hend
    rwa [List.append_nil] at this
  cases x with
  | nan => decide
  | infinity neg => cases neg <;> decide
  | negZero =>
    change parseNumber (ofNat 0).toString = some (ofNat 0, [])
    rw [ofNat_eq (by norm_num), hread]
  | finite z => exact hread z

/-- **The texts of Numbers tell them apart**, up to the sign of `0`. -/
theorem toString_eq_iff {x y : Number} : x.toString = y.toString ↔ x.unsigned = y.unsigned := by
  constructor
  · intro h
    rw [← toString_unsigned x, ← toString_unsigned y] at h
    have hparse := congrArg parseNumber h
    rw [parseNumber_toString_unsigned, parseNumber_toString_unsigned] at hparse
    split_ifs at hparse with hx hy hy
    · rw [Option.some.injEq, Prod.mk.injEq] at hparse
      exact hparse.1
    · have hnan : x = nan ∨ ∃ neg, x = infinity neg := by
        cases x with
        | nan => exact .inl rfl
        | infinity neg => exact .inr ⟨neg, rfl⟩
        | negZero => exact absurd rfl hx
        | finite => exact absurd rfl hx
      have hnan' : y = nan ∨ ∃ neg, y = infinity neg := by
        cases y with
        | nan => exact .inl rfl
        | infinity neg => exact .inr ⟨neg, rfl⟩
        | negZero => exact absurd rfl hy
        | finite => exact absurd rfl hy
      rcases hnan with rfl | ⟨neg, rfl⟩
      · rcases hnan' with rfl | ⟨neg', rfl⟩
        · rfl
        · cases neg' <;> exact absurd h (by decide)
      · rcases hnan' with rfl | ⟨neg', rfl⟩
        · cases neg <;> exact absurd h (by decide)
        · cases neg <;> cases neg' <;> first | rfl | exact absurd h (by decide)
  · intro h
    rw [← toString_unsigned x, h, toString_unsigned]

end Js.Number
