import AgentEval.Auth.Redacted
import AgentEval.Js.Literal

/-!
# The texts of values that differ in secrets

* `joins_joinComma`, `joins_member` — parts of an object's text.
* **`results_withheld`**: with shorter strings under its secret keys, a value has a text that differs
  in secrets only.
-/

namespace AgentEval.Auth

open Js

/-! ## Quoted strings -/

/-- A quote is escaped; nothing else has one. -/
theorem quoteUnit_cases (u : UInt16) : quoteUnit u = [92, 34] ∧ u = 34 ∨ 34 ∉ quoteUnit u := by
  have hhex : ∀ n < 16, hexDigit n ≠ 34 := by decide
  unfold quoteUnit
  split_ifs with h₁ h₂ h₃ h₄ h₅ h₆ h₇ h₈
  · exact .inr (by decide)
  · exact .inr (by decide)
  · exact .inr (by decide)
  · exact .inr (by decide)
  · exact .inr (by decide)
  · exact .inl ⟨rfl, h₆⟩
  · exact .inr (by decide)
  · right
    have hu := u.toNat_lt
    unfold hex4
    simp only [List.mem_cons, List.not_mem_nil, or_false, not_or]
    exact ⟨by decide, by decide, (hhex _ (by omega)).symm, (hhex _ (by omega)).symm,
      (hhex _ (by omega)).symm, (hhex _ (by omega)).symm⟩
  · exact .inr (by rw [List.mem_singleton]; exact fun h => h₆ h.symm)

/-- A string with something before its first quote. -/
theorem Raw.append {a s : JsString} (ha : 34 ∉ a) (hs : Raw s) : Raw (a ++ s) := by
  cases hs with
  | plain hs => exact .plain (by rw [List.mem_append, not_or]; exact ⟨ha, hs⟩)
  | escaped hf hs =>
    rw [← List.append_assoc]
    exact .escaped (by rw [List.mem_append, not_or]; exact ⟨ha, hf⟩) hs

/-- **What is between the quotes** has a backslash before each quote in it. -/
theorem raw_quoteUnits (s : JsString) : Raw (quoteUnits s) := by
  have hunit : ∀ u t, Raw t → Raw (quoteUnit u ++ t) := by
    intro u t ht
    rcases quoteUnit_cases u with ⟨h, -⟩ | h
    · rw [h]
      exact .escaped List.not_mem_nil ht
    · exact ht.append h
  induction s using quoteUnits.induct with
  | case1 => exact .plain List.not_mem_nil
  | case2 u =>
    have h := hunit u [] (.plain List.not_mem_nil)
    rwa [List.append_nil] at h
  | case3 u v s hpair ih =>
    have hhigh : u ≠ 34 := by
      rintro rfl
      exact absurd hpair.1 (by decide)
    have hlow : v ≠ 34 := by
      rintro rfl
      exact absurd hpair.2 (by decide)
    rw [quoteUnits, if_pos hpair]
    exact ih.append (a := [u, v]) (by simp [hhigh.symm, hlow.symm])
  | case4 u v s hpair ih =>
    rw [quoteUnits, if_neg hpair]
    exact hunit u _ ih

/-- A string without quotes has none between them. -/
theorem quote_notMem_quoteUnits {s : JsString} (h : 34 ∉ s) : 34 ∉ quoteUnits s := by
  have hunit : ∀ u, u ≠ 34 → 34 ∉ quoteUnit u := by
    intro u hu
    rcases quoteUnit_cases u with ⟨-, h34⟩ | h
    · exact absurd h34 hu
    · exact h
  induction s using quoteUnits.induct with
  | case1 => exact List.not_mem_nil
  | case2 u =>
    rw [List.mem_singleton] at h
    exact hunit u (fun h34 => h h34.symm)
  | case3 u v s hpair ih =>
    rw [List.mem_cons, List.mem_cons, not_or, not_or] at h
    rw [quoteUnits, if_pos hpair, List.mem_cons, List.mem_cons, not_or, not_or]
    exact ⟨h.1, h.2.1, ih h.2.2⟩
  | case4 u v s hpair ih =>
    rw [List.mem_cons, not_or] at h
    rw [quoteUnits, if_neg hpair, List.mem_append, not_or]
    exact ⟨hunit u (fun h34 => h.1 h34.symm), ih h.2⟩

/-- A listed key stands between its quotes as it is. -/
theorem quoteUnits_of_isSecretKey {k : JsString} (hk : isSecretKey k = true) :
    quoteUnits k = k := by
  have hkeys : ∀ w ∈ secretKeys, ∀ u ∈ w, 45 ≤ u.toNat ∧ u.toNat ≤ 122 := by decide
  have hunits : ∀ u ∈ k, 32 ≤ u.toNat ∧ u.toNat ≤ 122 ∧ u ≠ 34 ∧ u ≠ 92 := by
    intro u hu
    unfold isSecretKey at hk
    have hlower := hkeys _ (decide_eq_true_iff.mp hk) _ (List.mem_map_of_mem (f := lowerUnit) hu)
    rw [toNat_lowerUnit] at hlower
    refine ⟨?_, ?_, ?_, ?_⟩
    · split_ifs at hlower <;> omega
    · split_ifs at hlower <;> omega
    · rintro rfl
      exact notMem_of_isSecretKey (u := 34) hk (by decide) hu
    · rintro rfl
      exact notMem_of_isSecretKey (u := 92) hk (by decide) hu
  have hunit : ∀ u : UInt16, 32 ≤ u.toNat ∧ u.toNat ≤ 122 ∧ u ≠ 34 ∧ u ≠ 92 →
      quoteUnit u = [u] ∧ isHigh u = false := by
    rintro u ⟨hlow, hhigh, hquote, hslash⟩
    have hne : ∀ v : UInt16, v.toNat < 32 → u ≠ v := by
      rintro v hv rfl
      omega
    have hsurrogate : isHigh u = false ∧ isLow u = false := by
      simp only [isHigh, isLow, Bool.and_eq_false_iff, decide_eq_false_iff_not]
      omega
    refine ⟨?_, hsurrogate.1⟩
    unfold quoteUnit
    rw [if_neg (hne 8 (by decide)), if_neg (hne 9 (by decide)), if_neg (hne 10 (by decide)),
      if_neg (hne 12 (by decide)), if_neg (hne 13 (by decide)), if_neg hquote, if_neg hslash,
      if_neg]
    rw [hsurrogate.1, hsurrogate.2]
    simp
    omega
  clear hk
  induction k using quoteUnits.induct with
  | case1 => rfl
  | case2 u => exact (hunit u (hunits u (List.mem_singleton_self u))).1
  | case3 u v s hpair ih =>
    rw [(hunit u (hunits u (List.mem_cons_self ..))).2] at hpair
    exact absurd hpair.1 Bool.false_ne_true
  | case4 u v s hpair ih =>
    rw [List.forall_mem_cons] at hunits
    rw [quoteUnits, if_neg hpair, (hunit u hunits.1).1, ih hunits.2]
    rfl

/-! ## Parts of a text -/

/-- What comes after a value: a comma or a closing bracket. -/
def Closed (u : JsString) : Prop := ∃ y u', u = y :: u' ∧ y ∈ ([44, 125, 93] : List UInt16)

/-- It is punctuation. -/
theorem Closed.stopped {u : JsString} (h : Closed u) : Stopped u := by
  obtain ⟨y, u', rfl, hy⟩ := h
  have hstop : ∀ y ∈ ([44, 125, 93] : List UInt16),
      y ∈ ([44, 123, 125, 91, 93] : List UInt16) := by decide
  exact .inr ⟨[], y, u', rfl, List.not_mem_nil, hstop y hy⟩

/-- Parts that differ in secrets only, whatever comes after them. -/
def Joins (p p' : JsString) : Prop :=
  ∀ u u', Closed u → Closed u' → Alike u u' → Alike (p ++ u) (p' ++ u')

/-- Texts of values that differ in secrets only. -/
inductive ValueTexts : JsString → JsString → Prop
  /-- A string. -/
  | quoted (s : JsString) : ValueTexts (quote s) (quote s)
  /-- A value without strings. -/
  | plain {w : JsString} : 34 ∉ w → ValueTexts w w
  /-- An array or an object. -/
  | nested {y : UInt16} {x x' : JsString} : y ∈ ([123, 91] : List UInt16) →
    (∀ u u', Alike u u' → Alike (x ++ u) (x' ++ u')) → ValueTexts (y :: x) (y :: x')

/-- A text differs in secrets only. -/
theorem ValueTexts.alike {w w' : JsString} (h : ValueTexts w w') : Alike w w' := by
  have hnil : Alike [] [] := .rest List.not_mem_nil
  cases h with
  | quoted s =>
    exact .string (g := []) List.not_mem_nil (raw_quoteUnits s) (.inl rfl) (.inl rfl) hnil
  | plain hw => exact .rest hw
  | @nested y x x' hy hx =>
    have hbracket : ∀ y ∈ ([123, 91] : List UInt16), 34 ∉ [y] := by decide
    have h := (hx [] [] hnil).append (hbracket y hy)
    rwa [List.append_nil, List.append_nil] at h

/-- A string with its quotes, and what comes after it. -/
theorem quote_append (s u : JsString) : quote s ++ u = 34 :: (quoteUnits s ++ 34 :: u) := by
  unfold quote
  simp

/-- The text of a value is a part. -/
theorem ValueTexts.joins {w w' : JsString} (h : ValueTexts w w') : Joins w w' := by
  intro u u' hu hu' halike
  cases h with
  | quoted s =>
    rw [quote_append, quote_append]
    exact .string (g := []) List.not_mem_nil (raw_quoteUnits s) hu.stopped hu'.stopped halike
  | plain hw => exact halike.append hw
  | @nested y x x' hy hx =>
    have hbracket : ∀ y ∈ ([123, 91] : List UInt16), 34 ∉ [y] := by decide
    exact (hx u u' halike).append (hbracket y hy)

/-- A property is one. -/
theorem ValueTexts.joins_member {w w' : JsString} (h : ValueTexts w w') (k : JsString) :
    Joins (member k w) (member k w') := by
  intro u u' hu hu' halike
  have hmember : ∀ w u, member k w ++ u = 34 :: (quoteUnits k ++ 34 :: 58 :: (w ++ u)) := by
    intro w u
    unfold member
    rw [List.append_assoc, quote_append]
    rfl
  rw [hmember, hmember]
  cases h with
  | quoted s =>
    rw [quote_append, quote_append]
    exact .property (g := []) List.not_mem_nil (raw_quoteUnits k) (raw_quoteUnits s) hu.stopped
      hu'.stopped halike
  | @plain w hw =>
    have hcolon : 34 ∉ 58 :: w := by
      rw [List.mem_cons, not_or]
      exact ⟨by decide, hw⟩
    have hstopped : ∀ u, Closed u → Stopped (58 :: (w ++ u)) := by
      rintro u ⟨y, u', rfl, hy⟩
      have hstop : ∀ y ∈ ([44, 125, 93] : List UInt16),
          y ∈ ([44, 123, 125, 91, 93] : List UInt16) := by decide
      exact .inr ⟨58 :: w, y, u', rfl, hcolon, hstop y hy⟩
    exact .string (g := []) List.not_mem_nil (raw_quoteUnits k) (hstopped u hu) (hstopped u' hu')
      (halike.append hcolon)
  | @nested y x x' hy hx =>
    have hbracket : ∀ y ∈ ([123, 91] : List UInt16),
        34 ∉ ([58, y] : JsString) ∧ y ∈ ([44, 123, 125, 91, 93] : List UInt16) := by decide
    have hstopped : ∀ v, Stopped (58 :: (y :: v)) := fun v =>
      .inr ⟨[58], y, v, rfl, by decide, (hbracket y hy).2⟩
    exact .string (g := []) List.not_mem_nil (raw_quoteUnits k) (hstopped _) (hstopped _)
      ((hx u u' halike).append (hbracket y hy).1)

/-- So is a secret. -/
theorem joins_secret {k s s' : JsString} (hk : isSecretKey k = true) (hs : 34 ∉ s)
    (hs' : 34 ∉ s') : Joins (member k (quote s)) (member k (quote s')) := by
  intro u u' hu hu' halike
  have hmember : ∀ s u, member k (quote s) ++ u =
      34 :: (k ++ 34 :: 58 :: 34 :: (quoteUnits s ++ 34 :: u)) := by
    intro s u
    unfold member
    rw [List.append_assoc, quote_append, quoteUnits_of_isSecretKey hk, List.cons_append,
      quote_append]
  rw [hmember, hmember]
  exact .secret (g := []) List.not_mem_nil hk (quote_notMem_quoteUnits hs)
    (quote_notMem_quoteUnits hs') hu.stopped hu'.stopped halike

/-- **Parts with commas between them.** -/
theorem joins_joinComma {ps ps' : List JsString} (h : List.Forall₂ Joins ps ps') :
    Joins (joinComma ps) (joinComma ps') := by
  induction h with
  | nil => exact fun u u' _ _ halike => halike
  | @cons p p' ps ps' hp hps ih =>
    cases hps with
    | nil => exact hp
    | @cons q q' qs qs' _ _ =>
      intro u u' hu hu' halike
      have hcomma : ∀ (p q : JsString) (qs : List JsString) (u : JsString),
          joinComma (p :: q :: qs) ++ u = p ++ 44 :: (joinComma (q :: qs) ++ u) := by
        intro p q qs u
        rw [joinComma, List.append_assoc, List.cons_append]
      rw [hcomma, hcomma]
      have hclosed : ∀ v, Closed (44 :: v) := fun v => ⟨44, v, rfl, by decide⟩
      exact hp _ _ (hclosed _) (hclosed _) ((ih u u' hu hu' halike).append (g := [44]) (by decide))

/-- They make up an array or an object. -/
theorem valueTexts_nested {ps ps' : List JsString} (h : List.Forall₂ Joins ps ps') {y z : UInt16}
    (hy : y ∈ ([123, 91] : List UInt16)) (hz : z ∈ ([125, 93] : List UInt16)) :
    ValueTexts (y :: (joinComma ps ++ [z])) (y :: (joinComma ps' ++ [z])) := by
  refine .nested hy fun u u' halike => ?_
  have hbracket : ∀ z ∈ ([125, 93] : List UInt16),
      34 ∉ [z] ∧ z ∈ ([44, 125, 93] : List UInt16) := by decide
  obtain ⟨hquote, hclose⟩ := hbracket z hz
  rw [List.append_assoc, List.append_assoc]
  exact joins_joinComma h _ _ ⟨z, u, rfl, hclose⟩ ⟨z, u', rfl, hclose⟩ (halike.append hquote)

/-! ## `JSON.stringify` -/

/-- Two ways to end alike, with texts that differ in secrets only. -/
inductive Results : Except JsError (Option JsString) → Except JsError (Option JsString) → Prop
  /-- There is no JSON. -/
  | error (e : JsError) : Results (.error e) (.error e)
  /-- There is no text. -/
  | none : Results (.ok none) (.ok none)
  /-- There is one. -/
  | text {w w' : JsString} : ValueTexts w w' → Results (.ok (some w)) (.ok (some w'))

/-- The same for the parts of a text. -/
inductive PartResults : Except JsError (List JsString) → Except JsError (List JsString) → Prop
  /-- There is no JSON. -/
  | error (e : JsError) : PartResults (.error e) (.error e)
  /-- There are parts. -/
  | parts {ps ps' : List JsString} : List.Forall₂ Joins ps ps' → PartResults (.ok ps) (.ok ps')

/-- The same for a property. -/
inductive MemberResults (k : JsString) :
    Except JsError (Option JsString) → Except JsError (Option JsString) → Prop
  /-- There is no JSON. -/
  | error (e : JsError) : MemberResults k (.error e) (.error e)
  /-- It is left out. -/
  | none : MemberResults k (.ok none) (.ok none)
  /-- It is written. -/
  | member {w w' : JsString} : Joins (member k w) (member k w') →
    MemberResults k (.ok (some w)) (.ok (some w'))

/-- A value under a key. -/
theorem Results.member {x x' : Except JsError (Option JsString)} (h : Results x x') (k : JsString) :
    MemberResults k x x' := by
  cases h with
  | error e => exact .error e
  | none => exact .none
  | text h => exact .member (h.joins_member k)

/-- The items of an array. -/
theorem partResults_items {g : JsVal → JsVal} {xs : List JsVal}
    (h : ∀ x ∈ xs, Results (jsonStringify x) (jsonStringify (g x))) :
    PartResults (stringifyItems xs) (stringifyItems (xs.map g)) := by
  induction xs with
  | nil => exact .parts .nil
  | cons x xs ih =>
    rw [List.forall_mem_cons] at h
    have hrest := ih h.2
    have hfirst := h.1
    rw [List.map_cons, stringifyItems, stringifyItems]
    generalize jsonStringify x = y at hfirst ⊢
    generalize jsonStringify (g x) = y' at hfirst ⊢
    generalize stringifyItems xs = z at hrest ⊢
    generalize stringifyItems (xs.map g) = z' at hrest ⊢
    cases hfirst with
    | error e => exact .error e
    | none =>
      cases hrest with
      | error e => exact .error e
      | parts hparts =>
        have hnull : ValueTexts (js "null") (js "null") := .plain (by decide)
        exact .parts (.cons hnull.joins hparts)
    | text htext =>
      cases hrest with
      | error e => exact .error e
      | parts hparts => exact .parts (.cons htext.joins hparts)

/-- The properties of an object. -/
theorem partResults_props {g : JsString × JsVal → JsVal} {ps : Props}
    (h : ∀ p ∈ ps, MemberResults p.1 (jsonStringify p.2) (jsonStringify (g p))) :
    PartResults (stringifyProps ps) (stringifyProps (ps.map fun p => (p.1, g p))) := by
  induction ps with
  | nil => exact .parts .nil
  | cons p ps ih =>
    rw [List.forall_mem_cons] at h
    have hrest := ih h.2
    have hfirst := h.1
    rw [List.map_cons, stringifyProps, stringifyProps]
    generalize jsonStringify p.2 = y at hfirst ⊢
    generalize jsonStringify (g p) = y' at hfirst ⊢
    generalize stringifyProps ps = z at hrest ⊢
    generalize stringifyProps (ps.map fun p => (p.1, g p)) = z' at hrest ⊢
    cases hfirst with
    | error e => exact .error e
    | none =>
      cases hrest with
      | error e => exact .error e
      | parts hparts => exact .parts hparts
    | member hmember =>
      cases hrest with
      | error e => exact .error e
      | parts hparts => exact .parts (.cons hmember hparts)

/-- An object with its secrets cut. -/
theorem withheld_obj (n : ℕ) (ps : Props) : withheld n (.obj ps) = .obj (ps.map fun p => (p.1,
    if isSecretKey p.1 then cut n (withheld n p.2) else withheld n p.2)) := by
  rw [withheld, JsVal.mapUp_obj]
  dsimp only
  rw [List.map_map]
  rfl

/-- Only a string is cut. -/
theorem cut_withheld (n : ℕ) {v : JsVal} (hv : ∀ s, v ≠ .str s) :
    cut n (withheld n v) = withheld n v := by
  cases v with
  | str s => exact absurd rfl (hv s)
  | arr xs => rw [withheld, JsVal.mapUp_arr]; rfl
  | obj ps => rw [withheld, JsVal.mapUp_obj]; rfl
  | _ => rfl

/-- **With shorter strings under its secret keys,** a value has a text that differs in secrets only,
when there is no quote in those strings. -/
theorem results_withheld (n : ℕ) {v : JsVal} (hv : SecretsAre (34 ∉ ·) v) :
    Results (jsonStringify v) (jsonStringify (withheld n v)) := by
  have hplain : ∀ {w : JsString}, 34 ∉ w → Results (.ok (some w)) (.ok (some w)) :=
    fun hw => .text (.plain hw)
  induction v using JsVal.induct with
  | undefined => exact .none
  | null => exact hplain (by decide)
  | bool b => cases b <;> exact hplain (by decide)
  | num x =>
    have hnumber : 34 ∉ x.toString := by
      intro hmem
      rcases Number.mem_toString_units x 34 hmem with h | h
      · exact absurd h (by decide)
      · exact absurd h (by decide)
    have hwithheld : withheld n (.num x) = .num x := rfl
    rw [hwithheld, jsonStringify]
    split_ifs
    · exact hplain hnumber
    · exact hplain (by decide)
  | str s => exact .text (.quoted s)
  | bigint m => exact .error _
  | function => exact .none
  | symbol => exact .none
  | date t =>
    cases t with
    | none => exact hplain (by decide)
    | some t => exact .text (.quoted _)
  | ancestor k => exact .error _
  | arr xs ih =>
    unfold SecretsAre at hv
    rw [JsVal.all_arr] at hv
    have hitems := partResults_items fun x hx => ih x hx (hv.2 x hx)
    have hwithheld : withheld n (.arr xs) = .arr (xs.map (withheld n)) := JsVal.mapUp_arr ..
    rw [hwithheld, jsonStringify, jsonStringify]
    generalize stringifyItems xs = z at hitems ⊢
    generalize stringifyItems (xs.map (withheld n)) = z' at hitems ⊢
    cases hitems with
    | error e => exact .error e
    | parts hparts => exact .text (valueTexts_nested hparts (by decide) (by decide))
  | obj ps ih =>
    unfold SecretsAre at hv
    rw [JsVal.all_obj] at hv
    obtain ⟨hsecrets, hvalues⟩ := hv
    have hprops := @partResults_props
        (fun p => if isSecretKey p.1 then cut n (withheld n p.2) else withheld n p.2) ps (by
      rintro ⟨k, v⟩ hp
      have hvalue := ih _ hp (hvalues _ hp)
      dsimp only
      split_ifs with hk
      · by_cases hstr : ∃ s, v = .str s
        · obtain ⟨s, rfl⟩ := hstr
          have hs : 34 ∉ s := hsecrets k s hp hk
          exact .member (joins_secret hk hs fun h => hs (List.mem_of_mem_take h))
        · rw [cut_withheld n fun s hs => hstr ⟨s, hs⟩]
          exact hvalue.member k
      · exact hvalue.member k)
    rw [withheld_obj, jsonStringify, jsonStringify]
    generalize stringifyProps ps = z at hprops ⊢
    generalize stringifyProps (ps.map _) = z' at hprops ⊢
    cases hprops with
    | error e => exact .error e
    | parts hparts => exact .text (valueTexts_nested hparts (by decide) (by decide))

end AgentEval.Auth
