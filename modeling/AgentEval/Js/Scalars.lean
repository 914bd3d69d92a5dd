import AgentEval.Js.Str

/-!
# Strings as their octets tell them

Octets tell code points, and a lone surrogate has none of its own.

* `toWellFormed s` — `s` with every lone surrogate replaced by `U+FFFD`.
* `toWellFormed_append_cons`: a string is read apart at a code unit outside the surrogates.
* **`faithful_iff`**: a string is told by its octets exactly when it has no lone surrogate and no
  `U+FFFD`.
-/

namespace Js

/-- `s.toWellFormed()`. -/
def toWellFormed (s : JsString) : JsString := (toChars s).flatMap utf16

/-- No other string has these octets. -/
structure Faithful (s : JsString) : Prop where
  /-- No surrogate is alone. -/
  wellFormed : WellFormed s
  /-- Nothing looks like a lone surrogate. -/
  unreplaced : 0xFFFD ∉ s

/-! ## Code points -/

/-- Octets are equal when the code points are. -/
theorem utf8_eq_iff {s t : JsString} : utf8 s = utf8 t ↔ toWellFormed s = toWellFormed t := by
  constructor
  · intro h
    unfold toWellFormed
    rw [toChars_eq_of_utf8_eq h]
  · intro h
    have hchars := congrArg toChars h
    unfold toWellFormed at hchars
    rw [toChars_flatMap_utf16, toChars_flatMap_utf16] at hchars
    unfold utf8
    rw [hchars]

/-- A well-formed string is left as it is. -/
theorem toWellFormed_of_wellFormed {s : JsString} (h : WellFormed s) : toWellFormed s = s := by
  obtain ⟨cs, rfl⟩ := h
  unfold toWellFormed
  rw [toChars_flatMap_utf16]

/-- What comes out is well formed. -/
theorem wellFormed_toWellFormed (s : JsString) : WellFormed (toWellFormed s) := ⟨_, rfl⟩

/-- A code unit outside the surrogates is a character of its own. -/
theorem utf16_ofUnit {u : UInt16} (h₁ : isHigh u = false) (h₂ : isLow u = false) :
    utf16 (ofUnit u) = [u] := by
  obtain ⟨cs, hcs⟩ := wellFormed_singleton h₁ h₂
  have hchars : toChars [u] = [ofUnit u] := rfl
  rw [hcs, toChars_flatMap_utf16] at hchars
  rw [hchars] at hcs
  rw [hcs, List.flatMap_cons, List.flatMap_nil, List.append_nil]

/-- A string is read apart before a code unit that ends no pair. -/
theorem toChars_append_cons {u : UInt16} (h : isLow u = false) (s t : JsString) :
    toChars (s ++ u :: t) = toChars s ++ toChars (u :: t) := by
  induction s using toChars.induct with
  | case1 => rfl
  | case2 v =>
    have hfirst : toChars (v :: u :: t) = ofUnit v :: toChars (u :: t) := by
      rw [toChars, h, Bool.and_false, if_neg Bool.false_ne_true]
    exact hfirst
  | case3 v w s hpair ih =>
    rw [Bool.and_eq_true] at hpair
    rw [List.cons_append, List.cons_append, toChars_pair hpair.1 hpair.2,
      toChars_pair hpair.1 hpair.2, ih, List.cons_append]
  | case4 v w s hpair ih =>
    rw [List.cons_append, List.cons_append, toChars, if_neg hpair, ← List.cons_append, ih, toChars,
      if_neg hpair, List.cons_append]

/-- A string is repaired apart at a code unit outside the surrogates. -/
theorem toWellFormed_append_cons {u : UInt16} (h₁ : isHigh u = false) (h₂ : isLow u = false)
    (s t : JsString) : toWellFormed (s ++ u :: t) = toWellFormed s ++ u :: toWellFormed t := by
  unfold toWellFormed
  rw [toChars_append_cons h₂, toChars_cons_of_not_isHigh h₁, List.flatMap_append, List.flatMap_cons,
    utf16_ofUnit h₁ h₂, List.singleton_append]

/-- A well-formed string in front is left as it is. -/
theorem toWellFormed_append {s : JsString} (hs : WellFormed s) (t : JsString) :
    toWellFormed (s ++ t) = s ++ toWellFormed t := by
  obtain ⟨cs, rfl⟩ := hs
  induction cs with
  | nil => rfl
  | cons c cs ih =>
    unfold toWellFormed at ih ⊢
    rw [List.flatMap_cons, List.append_assoc, toChars_utf16_append, List.flatMap_cons, ih,
      List.append_assoc]

/-- Strings ended by a code unit outside the surrogates are repaired one by one. -/
theorem toWellFormed_ended {u : UInt16} (h₁ : isHigh u = false) (h₂ : isLow u = false)
    (ss : List JsString) :
    toWellFormed (ss.flatMap (· ++ [u])) = (ss.map toWellFormed).flatMap (· ++ [u]) := by
  induction ss with
  | nil => rfl
  | cons s ss ih =>
    rw [List.flatMap_cons, List.append_assoc, List.singleton_append,
      toWellFormed_append_cons h₁ h₂, ih, List.map_cons, List.flatMap_cons, List.append_assoc,
      List.singleton_append]

/-- The octets of strings ended so are those of their text. -/
theorem flatMap_utf8_ended {u : UInt16} (h₁ : isHigh u = false) (h₂ : isLow u = false)
    {ss : List JsString} (hended : ∀ s ∈ ss, ∃ t, s = t ++ [u]) :
    ss.flatMap utf8 = utf8 ss.flatten := by
  induction ss with
  | nil => rfl
  | cons s ss ih =>
    rw [List.forall_mem_cons] at hended
    obtain ⟨⟨t, rfl⟩, hss⟩ := hended
    rw [List.flatMap_cons, ih hss, List.flatten_cons, List.append_assoc, List.singleton_append]
    unfold utf8
    rw [toChars_append_cons h₂, toChars_append_cons h₂, toChars_cons_of_not_isHigh h₁,
      toChars_cons_of_not_isHigh h₁]
    simp [toChars]

/-! ## Strings that their octets tell -/

/-- **A string is told by its octets** exactly when it is well formed and has no `U+FFFD`. -/
theorem faithful_iff {s : JsString} :
    Faithful s ↔ ∀ t, toWellFormed t = toWellFormed s → t = s := by
  constructor
  · intro hs t h
    have hchars : toChars t = toChars s := toChars_eq_of_utf8_eq (utf8_eq_iff.mpr h)
    have hreplaced : '\uFFFD' ∉ toChars s := by
      obtain ⟨⟨cs, rfl⟩, hunreplaced⟩ := hs
      rw [toChars_flatMap_utf16]
      intro hmem
      exact hunreplaced (List.mem_flatMap.mpr ⟨_, hmem, by decide⟩)
    rw [← hchars] at hreplaced
    rw [toWellFormed_of_wellFormed (wellFormed_of_toChars hreplaced),
      toWellFormed_of_wellFormed hs.wellFormed] at h
    exact h
  · intro h
    have hwf : WellFormed s := by
      have := h (toWellFormed s) (toWellFormed_of_wellFormed (wellFormed_toWellFormed s))
      rw [← this]
      exact wellFormed_toWellFormed s
    refine ⟨hwf, fun hmem => ?_⟩
    -- a lone trailing surrogate in its place reads the same
    obtain ⟨cs, rfl⟩ := hwf
    obtain ⟨c, hc, hunit⟩ := List.mem_flatMap.mp hmem
    obtain ⟨front, back, rfl⟩ := List.append_of_mem hc
    have hc' : c = '\uFFFD' := by
      rcases utf16_cases c with ⟨u, hu, hn, -, -⟩ | ⟨u, v, hu, hhigh, hlow, -⟩
      · rw [hu, List.mem_singleton] at hunit
        rw [← hunit] at hn
        rw [← Char.ofNat_toNat c, ← hn]
        rfl
      · rw [hu, List.mem_pair] at hunit
        rcases hunit with rfl | rfl
        · exact absurd hhigh (by decide)
        · exact absurd hlow (by decide)
    have hread : ∀ (ds : List Char) (t : JsString),
        toChars (ds.flatMap utf16 ++ t) = ds ++ toChars t := by
      intro ds t
      induction ds with
      | nil => rfl
      | cons d ds ih =>
        rw [List.flatMap_cons, List.append_assoc, toChars_utf16_append, ih, List.cons_append]
    have hsame := h (front.flatMap utf16 ++ 0xDC00 :: back.flatMap utf16) (by
      unfold toWellFormed
      rw [hread, toChars_cons_of_not_isHigh (by decide), toChars_flatMap_utf16,
        toChars_flatMap_utf16, hc']
      rfl)
    rw [List.flatMap_append, List.flatMap_cons, hc', List.append_cancel_left_eq] at hsame
    exact absurd hsame (by simp [utf16])

/-- So is each of several strings. -/
theorem eq_of_map_toWellFormed {ss ts : List JsString} (hss : ∀ s ∈ ss, Faithful s)
    (h : ts.map toWellFormed = ss.map toWellFormed) : ts = ss := by
  induction ss generalizing ts with
  | nil => exact List.map_eq_nil_iff.mp h
  | cons s ss ih =>
    cases ts with
    | nil => exact absurd h (by simp)
    | cons t ts =>
      rw [List.forall_mem_cons] at hss
      rw [List.map_cons, List.map_cons, List.cons.injEq] at h
      rw [faithful_iff.mp hss.1 t h.1, ih hss.2 h.2]

end Js
