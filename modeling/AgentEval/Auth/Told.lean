import AgentEval.Auth.Withheld

/-!
# What redaction tells of a secret

The fourth pattern ends at the first quote of a value, and JSON writes a quote of a string as one. What
comes after it is logged.

* `redactSecrets_password`: what is logged of an object with one secret.
* **`nothing_told_iff`**: the strings under secret keys have no influence on what is logged exactly
  when there is no quote in them.
* **`rest_told`**: no number of first code units bounds what is logged of a secret.
-/

namespace AgentEval.Auth

open Js Regex Pattern Providers.Http

variable {describe : JsVal → JsString}

/-- **An object whose secrets have no quote** is logged as if they were shorter. -/
theorem redactSecrets_withheld {ps : Props} (n : ℕ) (h : SecretsAre (34 ∉ ·) (.obj ps)) :
    redactSecrets describe (.obj ps) = redactSecrets describe (withheld n (.obj ps)) := by
  have hresults := results_withheld n h
  rw [withheld_obj] at hresults ⊢
  change redactText (safeStringify describe _) = redactText (safeStringify describe _)
  unfold safeStringify
  generalize jsonStringify (.obj ps) = z at hresults ⊢
  generalize jsonStringify (.obj (ps.map _)) = z' at hresults ⊢
  cases hresults with
  | error e => exact congrArg redactText rfl
  | none => exact congrArg redactText rfl
  | text htext => exact htext.alike.redactText_eq

/-! ## The fifth pattern -/

/-- It starts with the first letter of a name. -/
theorem run_headerPattern_eq_nil {x : Option UInt16 × UInt16} {b : Bool}
    {s : List (Option UInt16 × UInt16)}
    (h : isWordUnit x.2 = false ∨ x.1.elim false isWordUnit = true ∨
      lowerUnit x.2 ∉ ([120, 97] : List UInt16)) : headerPattern.run b (x :: s) = [] := by
  apply List.eq_nil_iff_forall_not_mem.mpr
  intro o ho
  unfold headerPattern at ho
  obtain ⟨o₁, ho₁, o₂, ho₂, -⟩ := mem_run_seq.mp ho
  obtain ⟨⟨o', ho'⟩, rfl⟩ := mem_run_ahead.mp ho₁
  obtain ⟨y, t, hy, hopens, -⟩ := mem_run_set.mp ho'
  obtain ⟨rfl, rfl⟩ := List.cons.inj hy
  rw [Bool.and_eq_true, Bool.not_eq_true'] at hopens
  obtain ⟨o₃, ho₃, -⟩ := mem_run_seq.mp ho₂
  obtain ⟨r, hr, ho₃⟩ := mem_run_oneOf.mp ho₃
  have hfirst : ∀ (c : UInt16) (w : JsString), o₃ ∈ (text sameLetter (c :: w)).run
      (b && (Outcome.stay (x :: s)).taken.isEmpty) (x :: s) → lowerUnit x.2 = lowerUnit c := by
    intro c w hmem
    obtain ⟨o₄, ho₄, -⟩ := mem_run_seq.mp hmem
    obtain ⟨y, t, hy, hsame, -⟩ := mem_run_set.mp ho₄
    obtain ⟨rfl, -⟩ := List.cons.inj hy
    exact (sameLetter_iff.mp hsame).symm
  have hletter : lowerUnit x.2 ∈ ([120, 97] : List UInt16) := by
    simp only [List.map_cons, List.map_nil, List.mem_cons, List.not_mem_nil, or_false] at hr
    rcases hr with rfl | rfl
    · rw [hfirst 120 _ ho₃]
      decide
    · rw [hfirst 97 _ ho₃]
      decide
  rcases h with h | h | h
  · rw [h] at hopens
    exact absurd hopens.1 Bool.false_ne_true
  · rw [h] at hopens
    exact absurd hopens.2.symm Bool.false_ne_true
  · exact h hletter

/-- Anything else stays. -/
theorem replaced_headerPattern_cons {x : UInt16} (hx : isWordUnit x = false) (b : Bool)
    (prev : Option UInt16) (t : JsString) :
    replaced headerPattern b prev (x :: t) = x :: replaced headerPattern false (some x) t :=
  congrArg (List.map Prod.snd) (replaceRest_cons (run_headerPattern_eq_nil (.inl hx)))

/-- Nothing stays nothing. -/
theorem replaced_headerPattern_nil (b : Bool) (prev : Option UInt16) :
    replaced headerPattern b prev [] = [] :=
  congrArg (List.map Prod.snd) (replaceRest_nil rfl)

/-- Text without the start of a name stays. -/
theorem replaced_headerPattern_append {s : JsString} {prev : Option UInt16}
    (h : ∀ x ∈ withPrevious prev s, isWordUnit x.2 = false ∨ x.1.elim false isWordUnit = true ∨
      lowerUnit x.2 ∉ ([120, 97] : List UInt16)) (hs : s ≠ []) (b : Bool) (t : JsString) :
    replaced headerPattern b prev (s ++ t) =
      s ++ replaced headerPattern false (lastOr prev s) t := by
  induction s generalizing b prev with
  | nil => exact absurd rfl hs
  | cons x s ih =>
    rw [withPrevious, List.forall_mem_cons] at h
    have hfirst : replaced headerPattern b prev (x :: (s ++ t)) =
        x :: replaced headerPattern false (some x) (s ++ t) :=
      congrArg (List.map Prod.snd) (replaceRest_cons (run_headerPattern_eq_nil h.1))
    rw [List.cons_append, hfirst]
    cases s with
    | nil => rfl
    | cons y s =>
      rw [ih h.2 (List.cons_ne_nil _ _)]
      rfl

/-- Two code units or more become two or more. -/
theorem two_le_length_replaced {r : Pattern (Option UInt16 × UInt16)} (hr : 0 < r.minTaken)
    {s : JsString} (hs : 2 ≤ s.length) (b : Bool) (prev : Option UInt16) :
    2 ≤ (replaced r b prev s).length := by
  have hmatch : ∀ m, 2 ≤ (redactMatch m).length := by
    intro m
    unfold redactMatch
    dsimp only
    split_ifs
    · have htext : (js "\"[redacted]\"").length = 12 := by decide
      rw [List.length_append, htext]
      omega
    · have htext : (js "[redacted]").length = 10 := by decide
      rw [List.length_append, htext]
      omega
  have hlength := r.replaceRest_induction
    (f := fun o => (redactMatch (o.taken.map Prod.snd)).map fun x => (none, x))
    (R := fun w v => min w.length 2 ≤ v.length) (Nat.zero_le _)
    (by
      intro x w v h
      rw [List.length_cons, List.length_cons]
      omega)
    (by
      intro b w o ho
      refine ⟨fun h0 => ?_, fun v _ => ?_⟩
      · have hmin := minTaken_le ho
        rw [h0] at hmin
        exact absurd hr (Nat.not_lt.mpr hmin)
      · have h := hmatch (o.taken.map Prod.snd)
        rw [List.length_append, List.length_append, List.length_map]
        omega) b (withPrevious prev s)
  have hwords : (withPrevious prev s).length = s.length := by
    rw [← List.length_map (f := Prod.snd), map_snd_withPrevious]
  rw [hwords] at hlength
  unfold replaced
  rw [List.length_map]
  omega

/-! ## An object with one secret -/

/-- What is logged before the first quote of the password. -/
def passwordPrefix : JsString := js "\x7b\"password\":\"[redacted]\""

/-- A text through the first three patterns. -/
def throughThree (b : Bool) (prev : Option UInt16) (s : JsString) : JsString :=
  replaced bearerPattern b prev (replaced googleKeyPattern b prev
    (replaced prefixedKeyPattern b prev s))

/-- They work on either side of punctuation. -/
theorem throughThree_append_cons {x : UInt16} (hx : isForeign x = true) (b : Bool)
    (prev : Option UInt16) (s t : JsString) : throughThree b prev (s ++ x :: t) =
      throughThree b prev s ++ x :: throughThree false (some x) t := by
  unfold throughThree
  rw [tame_prefixedKeyPattern.replaced_append_cons hx,
    tame_googleKeyPattern.replaced_append_cons hx, tame_bearerPattern.replaced_append_cons hx]

/-- They leave punctuation. -/
theorem throughThree_cons {x : UInt16} (hx : isForeign x = true) (b : Bool)
    (prev : Option UInt16) (t : JsString) :
    throughThree b prev (x :: t) = x :: throughThree false (some x) t := by
  unfold throughThree
  rw [tame_prefixedKeyPattern.replaced_cons hx, tame_googleKeyPattern.replaced_cons hx,
    tame_bearerPattern.replaced_cons hx]

/-- They leave a listed key. -/
theorem throughThree_key {k : JsString} (hk : isSecretKey k = true) :
    throughThree false (some 34) k = k := by
  unfold throughThree
  rw [tame_prefixedKeyPattern.replaced_key hk, tame_googleKeyPattern.replaced_key hk,
    tame_bearerPattern.replaced_key hk]

/-- They bring in no quote. -/
theorem quote_notMem_throughThree {s : JsString} (hs : 34 ∉ s) (b : Bool) (prev : Option UInt16) :
    34 ∉ throughThree b prev s :=
  tame_bearerPattern.quote_notMem_replaced (tame_googleKeyPattern.quote_notMem_replaced
    (tame_prefixedKeyPattern.quote_notMem_replaced hs))

/-- A code unit that starts no pair is quoted on its own. -/
theorem quoteUnits_cons {u : UInt16} (hu : isHigh u = false) (s : JsString) :
    quoteUnits (u :: s) = quoteUnit u ++ quoteUnits s := by
  cases s with
  | nil => rw [quoteUnits, quoteUnits, List.append_nil]
  | cons v s =>
    rw [quoteUnits, if_neg]
    rw [hu]
    exact fun h => Bool.false_ne_true h.1

/-- A string between its quotes, cut at a quote. -/
theorem quoteUnits_append_quote (a w : JsString) :
    quoteUnits (a ++ 34 :: w) = quoteUnits a ++ 92 :: 34 :: quoteUnits w := by
  induction a using quoteUnits.induct with
  | case1 => exact quoteUnits_cons (by decide) w
  | case2 u =>
    have hfirst : quoteUnits (u :: 34 :: w) = quoteUnit u ++ quoteUnits (34 :: w) := by
      rw [quoteUnits, if_neg]
      exact fun h => absurd h.2 (by decide)
    rw [List.singleton_append, hfirst, quoteUnits_cons (by decide)]
    rfl
  | case3 u v s hpair ih =>
    rw [List.cons_append, List.cons_append, quoteUnits, if_pos hpair, ih, quoteUnits,
      if_pos hpair, List.cons_append, List.cons_append]
  | case4 u v s hpair ih =>
    rw [List.cons_append, List.cons_append, quoteUnits, if_neg hpair, ← List.cons_append, ih,
      quoteUnits, if_neg hpair, List.append_assoc]

/-- The text of an object with one secret. -/
theorem redactSecrets_one (s : JsString) :
    redactSecrets describe (.obj [(js "password", .str s)]) =
      headerPattern.replaceWords redactMatch (withoutProperties (123 :: 34 :: (js "password" ++
        34 :: 58 :: 34 :: (throughThree false (some 34) (quoteUnits s) ++ 34 :: [125])))) := by
  have hkey : isSecretKey (js "password") = true := by decide
  have htext : safeStringify describe (.obj [(js "password", .str s)]) =
      123 :: 34 :: (js "password" ++ 34 :: 58 :: 34 :: (quoteUnits s ++ 34 :: [125])) := by
    have hjson : jsonStringify (.obj [(js "password", .str s)]) =
        .ok (some (123 :: (member (js "password") (quote s) ++ [125]))) := rfl
    unfold safeStringify
    rw [hjson]
    dsimp only
    rw [member, List.append_assoc, quote_append, quoteUnits_of_isSecretKey hkey,
      List.cons_append, quote_append]
  have hlast : throughThree false (some 34) [125] = [125] := by
    rw [throughThree_cons (by decide)]
    unfold throughThree
    rw [tame_prefixedKeyPattern.replaced_nil, tame_googleKeyPattern.replaced_nil,
      tame_bearerPattern.replaced_nil]
  change redactText (safeStringify describe _) = _
  rw [htext, redactText_eq]
  change headerPattern.replaceWords redactMatch (withoutProperties (throughThree true none _)) = _
  rw [throughThree_cons (by decide), throughThree_cons (by decide),
    throughThree_append_cons (by decide), throughThree_cons (by decide),
    throughThree_cons (by decide), throughThree_append_cons (by decide), throughThree_key hkey,
    hlast]

/-- The end of a text has no property. -/
theorem withoutProperties_end : withoutProperties [125] = [125] := by
  have h := withoutProperties_append (s := [125]) (by decide) []
  have hnil : withoutProperties [] = [] := replaceRest_nil rfl
  rw [List.append_nil, hnil, List.append_nil] at h
  exact h

/-- What comes before the first quote has no name with a colon. -/
theorem replaceWords_headerPattern (t : JsString) :
    headerPattern.replaceWords redactMatch (passwordPrefix ++ t) =
      passwordPrefix ++ replaced headerPattern false (some 34) t := by
  have hlast : lastOr none passwordPrefix = some 34 := by decide
  have hstart : (withPrevious none passwordPrefix).all (fun x => !isWordUnit x.2 ||
      x.1.elim false isWordUnit || !([120, 97] : List UInt16).contains (lowerUnit x.2)) = true := by
    decide
  have hfree : ∀ x ∈ withPrevious none passwordPrefix, isWordUnit x.2 = false ∨
      x.1.elim false isWordUnit = true ∨ lowerUnit x.2 ∉ ([120, 97] : List UInt16) := by
    intro x hx
    have h := List.all_eq_true.mp hstart x hx
    simpa only [Bool.or_eq_true, Bool.not_eq_true', List.contains_eq_mem, decide_eq_false_iff_not,
      or_assoc] using h
  rw [replaceWords_eq_replaced, replaced_headerPattern_append hfree (by decide), hlast]

/-- **What is logged of an object with one secret** goes on after its first quote. -/
theorem redactSecrets_password {a : JsString} (ha : 34 ∉ a) (w : JsString) :
    redactSecrets describe (.obj [(js "password", .str (a ++ 34 :: w))]) =
      passwordPrefix ++ replaced headerPattern false (some 34)
        (throughThree false (some 34) (quoteUnits w) ++ [34, 125]) := by
  have hkey : isSecretKey (js "password") = true := by decide
  have hfirst : 34 ∉ throughThree false (some 34) (quoteUnits a) ++ [92] := by
    rw [List.mem_append, not_or]
    exact ⟨quote_notMem_throughThree (quote_notMem_quoteUnits ha) _ _, by decide⟩
  have hsplit : throughThree false (some 34) (quoteUnits (a ++ 34 :: w)) ++ 34 :: [125] =
      (throughThree false (some 34) (quoteUnits a) ++ [92]) ++
        34 :: (throughThree false (some 34) (quoteUnits w) ++ 34 :: [125]) := by
    rw [quoteUnits_append_quote, throughThree_append_cons (by decide),
      throughThree_cons (by decide)]
    simp
  have hraw : Raw (throughThree false (some 34) (quoteUnits w)) :=
    (((raw_quoteUnits w).replaced tame_prefixedKeyPattern _ _).replaced tame_googleKeyPattern _
      _).replaced tame_bearerPattern _ _
  have hstopped : Stopped [125] := .inr ⟨[], 125, [], rfl, List.not_mem_nil, by decide⟩
  have hbracket := withoutProperties_append (s := [123]) (by decide) (34 :: (js "password" ++
    34 :: 58 :: 34 :: ((throughThree false (some 34) (quoteUnits a) ++ [92]) ++
      34 :: (throughThree false (some 34) (quoteUnits w) ++ 34 :: [125]))))
  rw [List.singleton_append, withoutProperties_property hkey hfirst,
    withoutProperties_inside hraw hstopped, withoutProperties_end] at hbracket
  rw [redactSecrets_one, hsplit, hbracket]
  exact replaceWords_headerPattern _

/-- Without a quote there is nothing. -/
theorem redactSecrets_password_plain {a : JsString} (ha : 34 ∉ a) :
    redactSecrets describe (.obj [(js "password", .str a)]) = passwordPrefix ++ [125] := by
  have hkey : isSecretKey (js "password") = true := by decide
  have hquote := quote_notMem_throughThree (quote_notMem_quoteUnits ha) false (some 34)
  have hbracket := withoutProperties_append (s := [123]) (by decide) (34 :: (js "password" ++
    34 :: 58 :: 34 :: (throughThree false (some 34) (quoteUnits a) ++ 34 :: [125])))
  rw [List.singleton_append, withoutProperties_property hkey hquote,
    withoutProperties_end] at hbracket
  have hlast : replaced headerPattern false (some 34) [125] = [125] := by
    rw [replaced_headerPattern_cons (by decide), replaced_headerPattern_nil]
  rw [redactSecrets_one, hbracket]
  refine (replaceWords_headerPattern [125]).trans ?_
  rw [hlast]

/-- **The strings under secret keys have no influence** on what is logged of an object exactly when
there is no quote in them. -/
theorem nothing_told_iff (S : JsString → Prop) :
    (∀ (describe : JsVal → JsString) (n : ℕ) (ps : Props), SecretsAre S (.obj ps) →
      redactSecrets describe (.obj ps) = redactSecrets describe (withheld n (.obj ps))) ↔
        ∀ s, S s → 34 ∉ s := by
  constructor
  · intro h s hs hquote
    have hobject : SecretsAre S (.obj [(js "password", .str s)]) := by
      unfold SecretsAre
      rw [JsVal.all_obj]
      refine ⟨?_, ?_⟩
      · intro k t hmem _
        rw [List.mem_singleton, Prod.mk.injEq, JsVal.str.injEq] at hmem
        rw [hmem.2]
        exact hs
      · rw [List.forall_mem_singleton]
        trivial
    have hsame := h (fun _ => []) 0 _ hobject
    have hwithheld : withheld 0 (.obj [(js "password", .str s)]) =
        .obj [(js "password", .str [])] := by
      rfl
    rw [hwithheld, redactSecrets_password_plain List.not_mem_nil] at hsame
    obtain ⟨a, w, rfl, ha⟩ := List.eq_append_cons_of_mem hquote
    rw [redactSecrets_password ha w, List.append_cancel_left_eq] at hsame
    have hlength := two_le_length_replaced (r := headerPattern) (by decide)
      (s := throughThree false (some 34) (quoteUnits w) ++ [34, 125])
      (by rw [List.length_append]; exact Nat.le_add_left _ _) false (some 34)
    rw [hsame] at hlength
    exact absurd hlength (by decide)
  · intro hS describe n ps hps
    exact redactSecrets_withheld n (SecretsAre.mono hS hps)

/-- Commas after the first quote are logged as they are. -/
theorem redactSecrets_commas (m : ℕ) : redactSecrets describe
    (.obj [(js "password", .str (34 :: List.replicate m 44))]) =
      passwordPrefix ++ (List.replicate m 44 ++ [34, 125]) := by
  have hthree : ∀ (m : ℕ) (prev : Option UInt16), throughThree false prev
      (quoteUnits (List.replicate m 44)) = List.replicate m 44 := by
    intro m
    induction m with
    | zero =>
      intro prev
      unfold throughThree
      rw [List.replicate_zero, quoteUnits, tame_prefixedKeyPattern.replaced_nil,
        tame_googleKeyPattern.replaced_nil, tame_bearerPattern.replaced_nil]
    | succ m ih =>
      intro prev
      have hunit : quoteUnit 44 = [44] := by decide
      rw [List.replicate_succ, quoteUnits_cons (by decide), hunit, List.singleton_append,
        throughThree_cons (by decide), ih]
  have hfifth : ∀ (m : ℕ) (prev : Option UInt16), replaced headerPattern false prev
      (List.replicate m 44 ++ [34, 125]) = List.replicate m 44 ++ [34, 125] := by
    intro m
    induction m with
    | zero =>
      intro prev
      rw [List.replicate_zero, List.nil_append, replaced_headerPattern_cons (by decide),
        replaced_headerPattern_cons (by decide), replaced_headerPattern_nil]
    | succ m ih =>
      intro prev
      rw [List.replicate_succ, List.cons_append, replaced_headerPattern_cons (by decide), ih]
  have h := @redactSecrets_password describe [] List.not_mem_nil (List.replicate m 44)
  rw [List.nil_append, hthree, hfifth] at h
  exact h

/-- **No number of first code units bounds** what is logged of a secret. -/
theorem rest_told : ¬ ∃ n : ℕ, ∀ (describe : JsVal → JsString) (ps : Props),
    redactSecrets describe (.obj ps) = redactSecrets describe (withheld n (.obj ps)) := by
  rintro ⟨n, h⟩
  have hsame := h (fun _ => []) [(js "password", .str (34 :: List.replicate (n + 1) 44))]
  have hwithheld : withheld n (.obj [(js "password", .str (34 :: List.replicate (n + 1) 44))]) =
      .obj [(js "password", .str ((34 :: List.replicate (n + 1) 44).take n))] := rfl
  rw [hwithheld, redactSecrets_commas] at hsame
  cases n with
  | zero =>
    rw [List.take_zero, redactSecrets_password_plain List.not_mem_nil,
      List.append_cancel_left_eq] at hsame
    exact absurd hsame (by decide)
  | succ n =>
    rw [List.take_succ_cons, List.take_replicate, redactSecrets_commas,
      List.append_cancel_left_eq] at hsame
    have hlength := congrArg List.length hsame
    simp only [List.length_append, List.length_replicate, List.length_cons, List.length_nil]
      at hlength
    omega

end AgentEval.Auth
