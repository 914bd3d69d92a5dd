import AgentEval.Auth.Redaction

/-!
# Redaction between quotes

The first three of the patterns take no quote, no backslash and no punctuation of JSON, so they work
on each string of a text by itself.

* `Tame` — what the three have in common.
-/

namespace AgentEval.Auth

open Js Regex Pattern Providers.Http

/-- The punctuation of JSON, and the backslash. -/
def isForeign (u : UInt16) : Bool := [34, 92, 58, 44, 123, 125, 91, 93].contains u

/-- What replacing the matches of a pattern makes of a text, from a place on. -/
def replaced (r : Pattern (Option UInt16 × UInt16)) (b : Bool) (prev : Option UInt16)
    (s : JsString) : JsString :=
  (r.replaceRest (fun o => (redactMatch (o.taken.map Prod.snd)).map fun x => (none, x)) b
    (withPrevious prev s)).map Prod.snd

/-- That is what is done with every pattern. -/
theorem replaceWords_eq_replaced (r : Pattern (Option UInt16 × UInt16)) (s : JsString) :
    r.replaceWords redactMatch s = replaced r true none s := rfl

/-- A pattern that takes nothing of JSON's own, and no listed key. -/
structure Tame (r : Pattern (Option UInt16 × UInt16)) : Prop where
  /-- Punctuation is foreign to it. -/
  avoids : r.Avoids fun x => isForeign x.2 = true
  /-- It takes something. -/
  takes : 0 < r.minTaken
  /-- No listed key has a match. -/
  keys : ∀ k t u b, isSecretKey k = true → withPrevious (some 34) k = t ++ u → r.run b u = []

namespace Tame

variable {r : Pattern (Option UInt16 × UInt16)} {b : Bool} {prev : Option UInt16}
  {s t : JsString} {x : UInt16}

/-- It takes something. -/
theorem taken_ne_nil (hr : Tame r) {w : List (Option UInt16 × UInt16)}
    {o : Outcome (Option UInt16 × UInt16)} (ho : o ∈ r.run b w) : o.taken ≠ [] := by
  intro h0
  have hmin := minTaken_le ho
  rw [h0] at hmin
  exact absurd hr.takes (Nat.not_lt.mpr hmin)

/-- **A text is replaced in parts** at the punctuation. -/
theorem replaced_append_cons (hr : Tame r) (hx : isForeign x = true) (b : Bool)
    (prev : Option UInt16) (s t : JsString) : replaced r b prev (s ++ x :: t) =
      replaced r b prev s ++ x :: replaced r false (some x) t := by
  unfold replaced
  rw [withPrevious_append, withPrevious, replaceRest_append_cons hr.avoids
      (x := (lastOr prev s, x)) hx (fun _ _ _ => hr.taken_ne_nil) (fun _ _ => rfl),
    List.map_append, List.map_cons]

/-- Nothing is made of nothing. -/
theorem replaced_nil (hr : Tame r) (b : Bool) (prev : Option UInt16) :
    replaced r b prev [] = [] := by
  have hrun : r.run b [] = [] := by
    apply List.eq_nil_iff_forall_not_mem.mpr
    intro o ho
    exact hr.taken_ne_nil ho (List.append_eq_nil_iff.mp (taken_append_rest r ho)).1
  exact congrArg (List.map Prod.snd) (replaceRest_nil hrun)

/-- Punctuation stays. -/
theorem replaced_cons (hr : Tame r) (hx : isForeign x = true) (b : Bool) (prev : Option UInt16)
    (t : JsString) : replaced r b prev (x :: t) = x :: replaced r false (some x) t := by
  have h := hr.replaced_append_cons hx b prev [] t
  rwa [hr.replaced_nil, List.nil_append, List.nil_append] at h

/-- A match is replaced by no punctuation. -/
theorem not_isForeign_redactMatch {m : JsString} (hm : ∀ u ∈ m, isForeign u = false) :
    ∀ u ∈ redactMatch m, isForeign u = false ∨ u = 91 ∨ u = 93 := by
  have hcolon : 58 ∉ m := fun h => absurd (hm 58 h) (by decide)
  unfold redactMatch
  rw [List.idxOf_eq_length hcolon, if_neg (by omega), List.forall_mem_append]
  refine ⟨fun u hu => .inl (hm u (List.mem_of_mem_take hu)), ?_⟩
  decide

/-- **No quote comes in.** -/
theorem quote_notMem_replaced (hr : Tame r) (hs : 34 ∉ s) : 34 ∉ replaced r b prev s := by
  have hout : ∀ w : List (Option UInt16 × UInt16), (∀ y ∈ w, y.2 ≠ 34) → ∀ y ∈ r.replaceRest
      (fun o => (redactMatch (o.taken.map Prod.snd)).map fun x => (none, x)) b w, y.2 ≠ 34 := by
    intro w
    apply r.replaceRest_induction (R := fun w v => (∀ y ∈ w, y.2 ≠ 34) → ∀ y ∈ v, y.2 ≠ 34)
    · exact id
    · intro y w v h hw
      rw [List.forall_mem_cons] at hw ⊢
      exact ⟨hw.1, h hw.2⟩
    · intro b w o ho
      refine ⟨hr.taken_ne_nil ho, fun v h hw => ?_⟩
      rw [List.forall_mem_append] at hw ⊢
      refine ⟨fun y hy => ?_, h hw.2⟩
      obtain ⟨u, hu, rfl⟩ := List.mem_map.mp hy
      have honly : ∀ u ∈ o.taken.map Prod.snd, isForeign u = false := by
        intro u hu
        obtain ⟨y, hy, rfl⟩ := List.mem_map.mp hu
        exact Bool.eq_false_of_not_eq_true (forall_mem_taken hr.avoids.only ho y hy)
      rintro rfl
      rcases not_isForeign_redactMatch honly 34 hu with h34 | h34 | h34 <;>
        exact absurd h34 (by decide)
  have hin : ∀ y ∈ withPrevious prev s, y.2 ≠ 34 := by
    intro y hy h34
    have hmem := List.mem_map_of_mem (f := Prod.snd) hy
    rw [map_snd_withPrevious, h34] at hmem
    exact hs hmem
  unfold replaced
  intro hmem
  obtain ⟨y, hy, hy34⟩ := List.mem_map.mp hmem
  exact hout _ hin y hy hy34

/-- A listed key stays. -/
theorem replaced_key (hr : Tame r) (hs : isSecretKey s = true) :
    replaced r false (some 34) s = s := by
  unfold replaced
  rw [replaceRest_of_forall fun t u htu => hr.keys s t u _ hs htu, map_snd_withPrevious]

end Tame

/-! ## The three patterns -/

/-- What is known of a listed key. -/
theorem isSecretKey_spec {k : JsString} (hk : isSecretKey k = true) :
    k.length ≤ 13 ∧ (k.length < 10 ∨ ∀ u ∈ k, u ≠ 45 ∧ u ≠ 95) ∧
      ∀ u ∈ k, isForeign u = false := by
  have hkeys : ∀ w ∈ secretKeys, w.length ≤ 13 ∧ (w.length < 10 ∨ 45 ∉ w ∧ 95 ∉ w) ∧
      ∀ u ∈ w, isForeign u = false := by decide
  have hmarks : ∀ u ∈ ([34, 92, 58, 44, 123, 125, 91, 93] : List UInt16),
      isForeign (lowerUnit u) = true := by decide
  have hdashes : ∀ u ∈ ([45, 95] : List UInt16), lowerUnit u = u := by decide
  unfold isSecretKey at hk
  obtain ⟨hlength, hdash, hforeign⟩ := hkeys _ (decide_eq_true_iff.mp hk)
  rw [List.length_map] at hlength hdash
  refine ⟨hlength, ?_, fun u hu => ?_⟩
  · rcases hdash with hshort | ⟨h45, h95⟩
    · exact .inl hshort
    · right
      intro u hu
      have hmem := List.mem_map_of_mem (f := lowerUnit) hu
      refine ⟨?_, ?_⟩
      · rintro rfl
        exact h45 (hdashes 45 (by decide) ▸ hmem)
      · rintro rfl
        exact h95 (hdashes 95 (by decide) ▸ hmem)
  · apply Bool.eq_false_of_not_eq_true
    intro hmark
    have hlower := hforeign _ (List.mem_map_of_mem (f := lowerUnit) hu)
    rw [hmarks u (List.contains_iff_mem.mp hmark)] at hlower
    cases hlower

/-- Punctuation is in no listed key. -/
theorem notMem_of_isSecretKey {k : JsString} {u : UInt16} (hk : isSecretKey k = true)
    (hu : isForeign u = true) : u ∉ k := by
  intro hmem
  rw [(isSecretKey_spec hk).2.2 u hmem] at hu
  cases hu

/-- A set without punctuation. -/
theorem eq_false_of_isForeign {p : UInt16 → Bool}
    (h : ∀ u ∈ ([34, 92, 58, 44, 123, 125, 91, 93] : List UInt16), p u = false) {u : UInt16}
    (hu : isForeign u = true) : p u = false := by
  unfold isForeign at hu
  exact h u (List.contains_iff_mem.mp hu)

/-- A symbol of it. -/
theorem avoids_symbol {p : UInt16 → Bool}
    (h : ∀ u ∈ ([34, 92, 58, 44, 123, 125, 91, 93] : List UInt16), p u = false) :
    (symbol p).Avoids fun x => isForeign x.2 = true := fun _ hx => eq_false_of_isForeign h hx

/-- A word. -/
theorem avoids_text {same : UInt16 → UInt16 → Bool} {w : JsString}
    (h : ∀ x ∈ w, ∀ u ∈ ([34, 92, 58, 44, 123, 125, 91, 93] : List UInt16), same x u = false) :
    (text same w).Avoids fun x => isForeign x.2 = true := by
  induction w with
  | nil => trivial
  | cons x w ih =>
    rw [List.forall_mem_cons] at h
    exact ⟨avoids_symbol h.1, ih h.2⟩

/-- The start of a word. -/
theorem avoids_opening : (opening isWordUnit).Avoids fun x => isForeign x.2 = true := by
  intro x hx
  have hword : isWordUnit x.2 = false := eq_false_of_isForeign (by decide) hx
  simp only [hword, Bool.false_and]

/-- A listed key is too short for a pattern. -/
theorem run_key_eq_nil {r : Pattern (Option UInt16 × UInt16)} {k : JsString}
    {t u : List (Option UInt16 × UInt16)} {b : Bool} (hk : k.length < r.minTaken)
    (h : withPrevious (some 34) k = t ++ u) : r.run b u = [] := by
  apply run_eq_nil_of_length
  have hlength := congrArg List.length h
  rw [← List.length_map (f := Prod.snd), map_snd_withPrevious, List.length_append] at hlength
  omega

/-- The first pattern is tame. -/
theorem tame_prefixedKeyPattern : Tame prefixedKeyPattern where
  avoids := by
    refine ⟨avoids_opening, avoids_oneOf ?_, avoids_symbol (by decide),
      (avoids_symbol (by decide)).atLeast 8⟩
    intro r hr
    obtain ⟨w, hw, rfl⟩ := List.mem_map.mp hr
    have hwords : ∀ w ∈ ["sk", "xai", "gsk", "ae_live", "ae_test"], ∀ x ∈ js w,
        ∀ u ∈ ([34, 92, 58, 44, 123, 125, 91, 93] : List UInt16), (x == u) = false := by decide
    exact avoids_text (hwords w hw)
  takes := by decide
  keys := by
    intro k t u b hk h
    obtain ⟨-, hshort | hdash, -⟩ := isSecretKey_spec hk
    · exact run_key_eq_nil hshort h
    · -- a key of that length has no dash
      apply run_eq_nil (P := fun x => x.2 = 45 ∨ x.2 = 95)
      · refine .inr (.inr (.inl ?_))
        intro x hx
        rw [Bool.or_eq_true, beq_iff_eq, beq_iff_eq] at hx
        exact hx
      · intro x hx
        have hmem : x.2 ∈ k := by
          have hx' : x ∈ withPrevious (some 34) k := h ▸ List.mem_append_right t hx
          have := List.mem_map_of_mem (f := Prod.snd) hx'
          rwa [map_snd_withPrevious] at this
        exact not_or.mpr (hdash _ hmem)

/-- So is the second. -/
theorem tame_googleKeyPattern : Tame googleKeyPattern where
  avoids := ⟨avoids_opening, avoids_text (by decide), (avoids_symbol (by decide)).atLeast 20⟩
  takes := by decide
  keys := fun _ _ _ _ hk h => run_key_eq_nil ((isSecretKey_spec hk).1.trans_lt (by decide)) h

/-- So is the third. -/
theorem tame_bearerPattern : Tame bearerPattern where
  avoids := by
    have hequals : (symbol (· == 61)).Avoids fun x : Option UInt16 × UInt16 =>
      isForeign x.2 = true := avoids_symbol (by decide)
    exact ⟨avoids_text (by decide), ⟨avoids_symbol (by decide), avoids_symbol (by decide)⟩,
      (avoids_symbol (by decide)).atLeast 8, hequals⟩
  takes := by decide
  keys := fun _ _ _ _ hk h => run_key_eq_nil ((isSecretKey_spec hk).1.trans_lt (by decide)) h

end AgentEval.Auth
