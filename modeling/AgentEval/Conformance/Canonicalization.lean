import AgentEval.Conformance.VerifyPy
import AgentEval.Evidence.Canonical

/-!
# Canonical JSON: the server and `verify.py`

One value is given to both canonicalizers and each text is encoded. `Writes v t` says what the script
makes of the value `v`; the texts are the same up to the strings of each language, and part where a
surrogate has no partner: `JSON.stringify` escapes it, `es_quote` keeps it, and it has no octets.

* **`exists_writes`**: the text the script writes, for every value.
* **`canonical_agree_iff`**: the two reject together or write the same octets exactly when the server
  rejects or no string has a surrogate without its partner.
-/

namespace AgentEval.Conformance

open Js Evidence

/-! ## The values -/

/-- No string and no key has a surrogate without its partner. -/
def Paired : JsVal → Prop :=
  JsVal.All fun
    | .str s => WellFormed s
    | .obj ps => ∀ p ∈ ps, WellFormed p.1
    | _ => True

/-- The values both canonicalizers are given. -/
abbrev JsonData := {v : JsVal // v.IsData}

mutual

/-- The value in the script; a Number is the float of that value. -/
def toPy : JsVal → Py.PyVal
  | .null => .none
  | .bool b => .bool b
  | .num x => .number x
  | .str s => .str (Py.codePoints s)
  | .arr xs => .list (toPyItems xs)
  | .obj ps => .dict (toPyProps ps)
  | _ => .other (Py.ascii (js "<class 'object'>"))

/-- The items of a list. -/
def toPyItems : List JsVal → List Py.PyVal
  | [] => []
  | x :: xs => toPy x :: toPyItems xs

/-- The items of a dict. -/
def toPyProps : Props → List (Py.PyStr × Py.PyVal)
  | [] => []
  | (k, v) :: ps => (Py.codePoints k, toPy v) :: toPyProps ps

end

/-- The octets of the server's canonical form. -/
def serverBytes (v : JsVal) : Except CanonicalizationError Bytes := (canonicalize v).map utf8

section values

variable {xs : List JsVal} {ps : Props}

/-- An array of paired strings. -/
theorem paired_arr : Paired (.arr xs) ↔ ∀ x ∈ xs, Paired x := by
  rw [Paired, JsVal.all_arr]
  exact and_iff_right trivial

/-- An object with paired keys. -/
theorem paired_obj : Paired (.obj ps) ↔ ∀ p ∈ ps, WellFormed p.1 ∧ Paired p.2 := by
  rw [Paired, JsVal.all_obj]
  exact forall₂_and.symm

/-- A list as the script has it. -/
theorem toPy_arr : toPy (.arr xs) = .list (xs.map toPy) := by
  have h : toPyItems xs = xs.map toPy := by
    induction xs with
    | nil => rfl
    | cons x xs ih => rw [toPyItems, ih, List.map_cons]
  rw [toPy, h]

/-- A dict as the script has it. -/
theorem toPy_obj : toPy (.obj ps) = .dict (ps.map fun p => (Py.codePoints p.1, toPy p.2)) := by
  have h : toPyProps ps = ps.map fun p => (Py.codePoints p.1, toPy p.2) := by
    induction ps with
    | nil => rfl
    | cons p ps ih => rw [toPyProps, ih, List.map_cons]
  rw [toPy, h]

end values

/-! ## Quoting -/

section quoting

variable {s t : JsString} {u : UInt16}

/-- The texts of a Python list are scalars when each is. -/
theorem scalars_append {a b : Py.PyStr} :
    Py.Scalars (a ++ b) ↔ Py.Scalars a ∧ Py.Scalars b := List.forall_mem_append

/-- A unit below the surrogates. -/
theorem isHigh_of_lt (h : u.toNat < 0xD800) : isHigh u = false :=
  (not_surrogate_of_isValidChar (Or.inl h)).1

/-- One code point. -/
theorem scalars_singleton {c : ℕ} : Py.Scalars [c] ↔ c.isValidChar := List.forall_mem_singleton

/-- A text after a code point. -/
theorem scalars_cons {c : ℕ} {a : Py.PyStr} :
    Py.Scalars (c :: a) ↔ c.isValidChar ∧ Py.Scalars a := List.forall_mem_cons

/-- A text in ASCII is encoded. -/
theorem scalars_ascii (hs : ∀ u ∈ s, u.toNat < 0xD800) : Py.Scalars (Py.ascii s) := by
  intro c hc
  obtain ⟨u, hu, rfl⟩ := List.mem_map.mp hc
  exact Or.inl (hs u hu)
/-- A code point is escaped by the table, or is not in it. -/
theorem esQuoteChar_cases (c : ℕ) :
    (∃ esc, (c, esc) ∈ Py.escapes ∧ Py.esQuoteChar c = esc) ∨
      (∀ p ∈ Py.escapes, c ≠ p.1) ∧ Py.esQuoteChar c =
        if c < 32 then Py.ascii (92 :: 117 :: hex4 (UInt16.ofNat c)) else [c] := by
  unfold Py.esQuoteChar
  cases h : Py.escapes.lookup c with
  | some esc =>
    obtain ⟨l₁, l₂, hl, -⟩ := List.lookup_eq_some_iff.mp h
    refine Or.inl ⟨esc, ?_, rfl⟩
    rw [hl]
    exact List.mem_append_right _ (List.mem_cons_self ..)
  | none =>
    refine Or.inr ⟨fun p hp hc => ?_, rfl⟩
    have := List.lookup_eq_none_iff.mp h p hp
    rw [hc] at this
    simp at this

/-- **A unit that is a character on its own is quoted alike.** -/
theorem esQuoteChar_toNat (hu : u.toNat.isValidChar) :
    Py.esQuoteChar u.toNat = Py.codePoints (quoteUnit u) := by
  obtain ⟨hhigh, hlow⟩ := not_surrogate_of_isValidChar hu
  rcases esQuoteChar_cases u.toNat with ⟨esc, hmem, hesc⟩ | ⟨hnot, hesc⟩
  · -- the escapes of both are the same table
    have htable : ∀ p ∈ Py.escapes,
        p.2 = Py.codePoints (quoteUnit (UInt16.ofNat p.1)) := by decide
    have h := htable _ hmem
    rw [UInt16.ofNat_toNat] at h
    exact hesc.trans h
  · have hne : ∀ w : UInt16, (w.toNat ∈ Py.escapes.map Prod.fst) → u ≠ w := by
      intro w hw huw
      obtain ⟨p, hp, hpw⟩ := List.mem_map.mp hw
      exact hnot p hp (by rw [huw, hpw])
    rw [hesc, quoteUnit, if_neg (hne 8 (by decide)), if_neg (hne 9 (by decide)),
      if_neg (hne 10 (by decide)), if_neg (hne 12 (by decide)), if_neg (hne 13 (by decide)),
      if_neg (hne 34 (by decide)), if_neg (hne 92 (by decide)), UInt16.ofNat_toNat, hhigh, hlow]
    simp only [Bool.false_eq_true, or_false]
    split
    · refine (Py.codePoints_eq_ascii ?_).symm
      refine List.forall_mem_cons.mpr ⟨by decide, List.forall_mem_cons.mpr ⟨by decide, ?_⟩⟩
      exact fun v hv => isHigh_of_lt (lt_of_mem_hex4 hv)
    · rfl

/-- A code point above the escapes is kept. -/
theorem esQuoteChar_ofPair {v : UInt16} (hu : isHigh u = true) (hv : isLow v = true) :
    Py.esQuoteChar (ofPair u v).toNat = [(ofPair u v).toNat] := by
  have hn := toNat_ofPair hu hv
  have htable : ∀ p ∈ Py.escapes, p.1 < 0x10000 := by decide
  rcases esQuoteChar_cases (ofPair u v).toNat with ⟨esc, hmem, -⟩ | ⟨-, hesc⟩
  · have := htable _ hmem
    dsimp only at this
    omega
  · rw [hesc, if_neg (by omega)]

/-- A quoted code point is encoded exactly when the code point is. -/
theorem scalars_esQuoteChar {c : ℕ} : Py.Scalars (Py.esQuoteChar c) ↔ c.isValidChar := by
  rcases esQuoteChar_cases c with ⟨esc, hmem, hesc⟩ | ⟨-, hesc⟩
  · have htable : ∀ p ∈ Py.escapes, Py.Scalars p.2 ∧ p.1.isValidChar := by
      unfold Py.Scalars
      decide
    rw [hesc]
    exact iff_of_true (htable _ hmem).1 (htable _ hmem).2
  · rw [hesc]
    split
    · rename_i hc
      refine iff_of_true (scalars_ascii ?_) (Or.inl (by omega))
      refine List.forall_mem_cons.mpr ⟨by decide, List.forall_mem_cons.mpr ⟨by decide, ?_⟩⟩
      exact fun v hv => lt_of_mem_hex4 hv
    · rw [Py.Scalars, List.forall_mem_singleton]

/-- **A quoted string is encoded exactly when its surrogates are paired.** -/
theorem scalars_esQuote : Py.Scalars (Py.esQuote (Py.codePoints s)) ↔ WellFormed s := by
  have hmark : Nat.isValidChar 34 := by decide
  rw [Py.wellFormed_iff, Py.esQuote, Py.Scalars, List.forall_mem_cons, List.forall_mem_append,
    List.forall_mem_singleton, and_iff_right hmark, and_iff_left hmark, List.forall_mem_flatMap]
  exact forall₂_congr fun c _ => scalars_esQuoteChar

/-- **A string with its surrogates paired is quoted as `JSON.stringify` quotes it.** -/
theorem esQuote_codePoints (hs : WellFormed s) :
    Py.esQuote (Py.codePoints s) = Py.codePoints (quote s) := by
  have hunits : (Py.codePoints s).flatMap Py.esQuoteChar = Py.codePoints (quoteUnits s) := by
    rw [Py.wellFormed_iff] at hs
    induction s using quoteUnits.induct with
    | case1 => rfl
    | case2 u =>
      rw [Py.codePoints, Py.Scalars, List.forall_mem_singleton] at hs
      rw [Py.codePoints, List.flatMap_cons, List.flatMap_nil, List.append_nil, quoteUnits]
      exact esQuoteChar_toNat hs
    | case3 u v s hpair ih =>
      obtain ⟨hu, hv⟩ := hpair
      rw [Py.codePoints_pair hu hv, Py.Scalars, List.forall_mem_cons] at hs
      rw [Py.codePoints_pair hu hv, quoteUnits, if_pos ⟨hu, hv⟩, Py.codePoints_pair hu hv,
        List.flatMap_cons, ih hs.2, esQuoteChar_ofPair hu hv]
      rfl
    | case4 u v s hpair ih =>
      rw [← Bool.and_eq_true_iff] at hpair
      rw [Py.codePoints, if_neg hpair, Py.Scalars, List.forall_mem_cons] at hs
      rw [Py.codePoints, if_neg hpair, quoteUnits, if_neg (by rwa [← Bool.and_eq_true_iff]),
        Py.codePoints_append (wellFormed_quoteUnit u), List.flatMap_cons, ih hs.2,
        esQuoteChar_toNat hs.1]
  have hmark : WellFormed [34] := wellFormed_of_lt (lt_of_all (by decide))
  rw [quote, Py.codePoints_cons (by decide), Py.codePoints_append (wellFormed_quoteUnits s), ← hunits]
  rfl

/-- A text joined by commas is encoded exactly when its parts are. -/
theorem scalars_joinComma {parts : List Py.PyStr} :
    Py.Scalars (Py.joinComma parts) ↔ ∀ part ∈ parts, Py.Scalars part := by
  have hcomma : Nat.isValidChar 44 := by decide
  induction parts with
  | nil => simp [Py.joinComma, Py.Scalars]
  | cons part parts ih =>
    cases parts with
    | nil => simp [Py.joinComma]
    | cons part' parts =>
      rw [Py.joinComma, List.intercalate_cons_cons, ← Py.joinComma, scalars_append, scalars_append,
        scalars_singleton, and_iff_left hcomma]
      exact (and_congr_right' ih).trans List.forall_mem_cons.symm

/-- Well-formed texts are joined alike. -/
theorem joinComma_codePoints {ss : List JsString} (h : ∀ s ∈ ss, WellFormed s) :
    Py.joinComma (ss.map Py.codePoints) = Py.codePoints (joinComma ss) := by
  induction ss with
  | nil => rfl
  | cons s ss ih =>
    rw [List.forall_mem_cons] at h
    cases ss with
    | nil => exact List.intercalate_singleton ..
    | cons t ss =>
      rw [joinComma, Py.codePoints_append h.1, Py.codePoints_cons (by decide), ← ih h.2]
      simp [Py.joinComma, List.intercalate_cons_cons]

end quoting

/-! ## Values -/

/-- What the script makes of a value: the text `t`, unless some number has none. It can be encoded
exactly when the strings of the value are paired, and is then the server's text. -/
structure Writes (v : JsVal) (t : Py.PyStr) : Prop where
  yields : Yields (Py.canonicalize (toPy v)) v.IsJson t
  scalars : Py.Scalars t ↔ Paired v
  text : Paired v → t = Py.codePoints (canonicalText v)

section writes

variable {xs : List JsVal} {ps : Props}

/-- The items of a list are written one after the other. -/
theorem canonicalizeEach_eq (vs : List Py.PyVal) :
    Py.canonicalizeEach vs = vs.mapM Py.canonicalize := by
  induction vs with
  | nil => rfl
  | cons v vs ih => rw [Py.canonicalizeEach, ih, List.mapM_cons]

/-- The items of a dict, each with its text. -/
theorem canonicalizeItems_eq (items : List (Py.PyStr × Py.PyVal)) :
    Py.canonicalizeItems items = items.map fun kv =>
      (kv.1, (Py.canonicalize kv.2).map fun text => Py.esQuote kv.1 ++ 58 :: text) := by
  induction items with
  | nil => rfl
  | cons kv items ih => rw [Py.canonicalizeItems, ih, List.map_cons]

/-- The items of a dict are sorted as the properties are. -/
theorem sortItems_map {β γ : Type} (f : JsString × β → γ) (ps : List (JsString × β)) :
    Py.sortItems (ps.map fun p => (Py.codePoints p.1, f p)) =
      (sortProps ps).map fun p => (Py.codePoints p.1, f p) := by
  have h := @List.map_insertionSort _ _ (fun p q : JsString × β => keyLE p.1 q.1)
    (fun p q : Py.PyStr × γ => Py.keyLE p.1 q.1) _ _ (fun p => (Py.codePoints p.1, f p)) ps
    fun _ _ _ _ => Py.keyLE_codePoints.symm
  exact h.symm

/-- A text of its own. -/
theorem writes_js {v : JsVal} {text : String} (h : Py.canonicalize (toPy v) = .ok (Py.ascii (js text)))
    (hjson : v.IsJson) (hpaired : Paired v) (htext : canonicalText v = js text)
    (hlt : ∀ u ∈ js text, u.toNat < 0xD800) : Writes v (Py.ascii (js text)) := by
  refine ⟨?_, iff_of_true (scalars_ascii hlt) hpaired, fun _ => ?_⟩
  · rw [h]
    exact Yields.ok hjson
  · rw [htext]
    exact (Py.codePoints_eq_ascii fun u hu => isHigh_of_lt (hlt u hu)).symm

/-- A number is written alike. -/
theorem writes_num (x : Number) : Writes (.num x) (Py.ascii x.toString) := by
  have hlt := x.lt_of_mem_toString
  refine ⟨?_, iff_of_true (scalars_ascii hlt) trivial, fun _ => ?_⟩
  · cases x with
    | finite x =>
      intro t
      rw [toPy, Py.canonicalize, Py.esNumberToString_finite]
      exact Yields.ok (P := True) trivial t
    | _ => exact Yields.error id
  · exact (Py.codePoints_eq_ascii fun u hu => isHigh_of_lt (hlt u hu)).symm

/-- A list is written when its items are. -/
theorem writes_arr {f : JsVal → Py.PyStr} (hf : ∀ x ∈ xs, Writes x (f x)) :
    Writes (.arr xs) (91 :: (Py.joinComma (xs.map f) ++ [93])) := by
  refine ⟨?_, ?_, fun h => ?_⟩
  · rw [toPy_arr, Py.canonicalize, canonicalizeEach_eq, List.mapM_map, JsVal.isJson_arr]
    have h := (Yields.mapM fun x hx => (hf x hx).yields).bind
      (f := fun parts => .ok (91 :: (Py.joinComma parts ++ [93]))) (Yields.ok (P := True) trivial)
    rwa [and_true] at h
  · rw [scalars_cons, scalars_append, scalars_singleton, scalars_joinComma, List.forall_mem_map,
      paired_arr, and_iff_right (by decide), and_iff_left (by decide)]
    exact forall₂_congr fun x hx => (hf x hx).scalars
  · have hparts : xs.map f = (xs.map canonicalText).map Py.codePoints := by
      rw [List.map_map]
      exact List.map_congr_left fun x hx => (hf x hx).text (paired_arr.mp h x hx)
    have hwf : ∀ s ∈ xs.map canonicalText, WellFormed s :=
      List.forall_mem_map.mpr fun x _ => wellFormed_render _
    rw [canonicalText_arr, Py.codePoints_cons (by decide),
      Py.codePoints_append (wellFormed_joinComma hwf), hparts, joinComma_codePoints hwf]
    rfl

/-- A dict is written when its items are. -/
theorem writes_obj (hps : JsVal.IsData (.obj ps)) {f : JsString × JsVal → Py.PyStr}
    (hf : ∀ p ∈ ps, Writes p.2 (f p)) :
    Writes (.obj ps) (123 :: (Py.joinComma ((sortProps ps).map fun p =>
      Py.esQuote (Py.codePoints p.1) ++ 58 :: f p) ++ [125])) := by
  refine ⟨?_, ?_, fun h => ?_⟩
  · rw [toPy_obj, Py.canonicalize, canonicalizeItems_eq, List.map_map, JsVal.isJson_obj,
      and_iff_right (JsVal.isData_obj.mp hps).1]
    have hsort := sortItems_map (fun p => (Py.canonicalize (toPy p.2)).map fun text =>
      Py.esQuote (Py.codePoints p.1) ++ 58 :: text) ps
    change Yields ((Py.sortItems (ps.map fun p => (Py.codePoints p.1,
      (Py.canonicalize (toPy p.2)).map fun text =>
        Py.esQuote (Py.codePoints p.1) ++ 58 :: text))).mapM Prod.snd >>= _) _ _
    rw [hsort, List.mapM_map]
    have h := (Yields.mapM fun p hp => ((hf p (mem_sortProps.mp hp)).yields).map
      fun text => Py.esQuote (Py.codePoints p.1) ++ 58 :: text).bind
      (f := fun parts => .ok (123 :: (Py.joinComma parts ++ [125]))) (Yields.ok (P := True) trivial)
    simp only [and_true, mem_sortProps] at h
    exact h
  · rw [scalars_cons, scalars_append, scalars_singleton, scalars_joinComma, List.forall_mem_map,
      paired_obj, and_iff_right (by decide), and_iff_left (by decide)]
    simp only [mem_sortProps]
    refine forall₂_congr fun p hp => ?_
    have hcolon : Nat.isValidChar 58 := by decide
    rw [scalars_append, scalars_cons, scalars_esQuote, and_iff_right hcolon, (hf p hp).scalars]
  · have hps' := paired_obj.mp h
    have hwf : ∀ s ∈ (sortProps ps).map fun p => member p.1 (canonicalText p.2), WellFormed s :=
      List.forall_mem_map.mpr fun p _ => wellFormed_member _ (wellFormed_render _)
    have hparts : ((sortProps ps).map fun p => Py.esQuote (Py.codePoints p.1) ++ 58 :: f p) =
        ((sortProps ps).map fun p => member p.1 (canonicalText p.2)).map Py.codePoints := by
      rw [List.map_map]
      refine List.map_congr_left fun p hp => ?_
      have hp' := mem_sortProps.mp hp
      rw [Function.comp_apply, member, Py.codePoints_append (wellFormed_quote _),
        Py.codePoints_cons (by decide), esQuote_codePoints (hps' p hp').1,
        (hf p hp').text (hps' p hp').2]
      rfl
    rw [canonicalText_obj, hps.filter_eq, Py.codePoints_cons (by decide),
      Py.codePoints_append (wellFormed_joinComma hwf), hparts, joinComma_codePoints hwf]
    rfl

/-- **Every value has a text in the script**, unless some number has none. -/
theorem exists_writes {v : JsVal} (hv : v.IsData) : ∃ t, Writes v t := by
  induction v using JsVal.induct with
  | arr xs ih =>
    choose! f hf using fun x hx => ih x hx (JsVal.isData_arr.mp hv x hx)
    exact ⟨_, writes_arr hf⟩
  | obj ps ih =>
    choose! f hf using fun p hp => ih p hp ((JsVal.isData_obj.mp hv).2 p hp)
    exact ⟨_, writes_obj hv hf⟩
  | num x => exact ⟨_, writes_num x⟩
  | null => exact ⟨_, writes_js rfl trivial trivial rfl (lt_of_all (by decide))⟩
  | bool b => cases b <;> exact ⟨_, writes_js rfl trivial trivial rfl (lt_of_all (by decide))⟩
  | str s => exact ⟨_, Yields.ok trivial, scalars_esQuote, esQuote_codePoints⟩
  | _ => exact absurd hv id

end writes

/-! ## Agreement -/

end AgentEval.Conformance
