import AgentEval.Auth.Properties

/-!
# What redaction keeps of a secret

Two values with other strings under their secret keys have texts that differ between two quotes only,
as long as there is no quote in those strings. The first patterns keep it so, and the fourth takes
what is between the quotes.

* `Alike` — texts that differ in secrets only; `Alike.replaced` through the first three patterns.
* **`Alike.redactText_eq`**: they are redacted alike.
-/

namespace AgentEval.Auth

open Js Regex Pattern Providers.Http

/-! ## Texts that differ in secrets -/

/-- A string as it stands between its quotes: a backslash is before every quote in it. -/
inductive Raw : JsString → Prop
  /-- There is no quote. -/
  | plain {s : JsString} : 34 ∉ s → Raw s
  /-- The first quote. -/
  | escaped {a s : JsString} : 34 ∉ a → Raw s → Raw (a ++ 92 :: 34 :: s)

/-- Punctuation comes before the next quote, other than a colon. -/
def Stopped (t : JsString) : Prop :=
  t = [] ∨ ∃ a y u, t = a ++ y :: u ∧ 34 ∉ a ∧ y ∈ ([44, 123, 125, 91, 93] : List UInt16)

/-- JSON texts that differ in strings under secret keys only. -/
inductive Alike : JsString → JsString → Prop
  /-- What comes after the last string. -/
  | rest {g : JsString} : 34 ∉ g → Alike g g
  /-- A string, other than a property's name that another string follows. -/
  | string {g s t t' : JsString} : 34 ∉ g → Raw s → Stopped t → Stopped t' → Alike t t' →
    Alike (g ++ 34 :: (s ++ 34 :: t)) (g ++ 34 :: (s ++ 34 :: t'))
  /-- A property that is a string. -/
  | property {g k v t t' : JsString} : 34 ∉ g → Raw k → Raw v → Stopped t → Stopped t' →
    Alike t t' → Alike (g ++ 34 :: (k ++ 34 :: 58 :: 34 :: (v ++ 34 :: t)))
      (g ++ 34 :: (k ++ 34 :: 58 :: 34 :: (v ++ 34 :: t')))
  /-- A secret. -/
  | secret {g k v v' t t' : JsString} : 34 ∉ g → isSecretKey k = true → 34 ∉ v → 34 ∉ v' →
    Stopped t → Stopped t' → Alike t t' →
    Alike (g ++ 34 :: (k ++ 34 :: 58 :: 34 :: (v ++ 34 :: t)))
      (g ++ 34 :: (k ++ 34 :: 58 :: 34 :: (v' ++ 34 :: t')))

/-- More text before the next string. -/
theorem Alike.append {g t t' : JsString} (hg : 34 ∉ g) (h : Alike t t') :
    Alike (g ++ t) (g ++ t') := by
  have hmore : ∀ {a : JsString}, 34 ∉ a → 34 ∉ g ++ a := by
    intro a ha
    rw [List.mem_append, not_or]
    exact ⟨hg, ha⟩
  cases h with
  | rest hg' => exact .rest (hmore hg')
  | string hg' hs ht ht' h =>
    rw [← List.append_assoc, ← List.append_assoc]
    exact .string (hmore hg') hs ht ht' h
  | property hg' hk hv ht ht' h =>
    rw [← List.append_assoc, ← List.append_assoc]
    exact .property (hmore hg') hk hv ht ht' h
  | secret hg' hk hv hv' ht ht' h =>
    rw [← List.append_assoc, ← List.append_assoc]
    exact .secret (hmore hg') hk hv hv' ht ht' h

/-! ## The first three patterns -/

section

variable {r : Pattern (Option UInt16 × UInt16)} (hr : Tame r)

include hr

/-- A string stays as it stands. -/
theorem Raw.replaced {s : JsString} (hs : Raw s) (b : Bool) (prev : Option UInt16) :
    Raw (replaced r b prev s) := by
  induction hs generalizing b prev with
  | plain h => exact .plain (hr.quote_notMem_replaced h)
  | escaped ha _ ih =>
    rw [hr.replaced_append_cons (by decide), hr.replaced_cons (by decide)]
    exact .escaped (hr.quote_notMem_replaced ha) (ih _ _)

/-- So does the punctuation after it. -/
theorem Stopped.replaced {t : JsString} (ht : Stopped t) (b : Bool) (prev : Option UInt16) :
    Stopped (replaced r b prev t) := by
  rcases ht with rfl | ⟨a, y, u, rfl, ha, hy⟩
  · rw [hr.replaced_nil]
    exact .inl rfl
  · have hforeign : ∀ y ∈ ([44, 123, 125, 91, 93] : List UInt16), isForeign y = true := by decide
    rw [hr.replaced_append_cons (hforeign y hy)]
    exact .inr ⟨_, y, _, rfl, hr.quote_notMem_replaced ha, hy⟩

/-- **Texts that differ in secrets go on to do so.** -/
theorem Alike.replaced {t t' : JsString} (h : Alike t t') (b : Bool) (prev : Option UInt16) :
    Alike (replaced r b prev t) (replaced r b prev t') := by
  induction h generalizing b prev with
  | rest hg => exact .rest (hr.quote_notMem_replaced hg)
  | string hg hs ht ht' _ ih =>
    rw [hr.replaced_append_cons (by decide), hr.replaced_append_cons (by decide),
      hr.replaced_append_cons (by decide), hr.replaced_append_cons (by decide)]
    exact .string (hr.quote_notMem_replaced hg) (hs.replaced hr _ _) (ht.replaced hr _ _)
      (ht'.replaced hr _ _) (ih _ _)
  | property hg hk hv ht ht' _ ih =>
    rw [hr.replaced_append_cons (by decide), hr.replaced_append_cons (by decide),
      hr.replaced_cons (by decide), hr.replaced_cons (by decide),
      hr.replaced_append_cons (by decide), hr.replaced_append_cons (by decide),
      hr.replaced_append_cons (by decide), hr.replaced_cons (by decide),
      hr.replaced_cons (by decide), hr.replaced_append_cons (by decide)]
    exact .property (hr.quote_notMem_replaced hg) (hk.replaced hr _ _) (hv.replaced hr _ _)
      (ht.replaced hr _ _) (ht'.replaced hr _ _) (ih _ _)
  | secret hg hk hv hv' ht ht' _ ih =>
    rw [hr.replaced_append_cons (by decide), hr.replaced_append_cons (by decide),
      hr.replaced_cons (by decide), hr.replaced_cons (by decide),
      hr.replaced_append_cons (by decide), hr.replaced_append_cons (by decide),
      hr.replaced_append_cons (by decide), hr.replaced_cons (by decide),
      hr.replaced_cons (by decide), hr.replaced_append_cons (by decide), hr.replaced_key hk]
    exact .secret (hr.quote_notMem_replaced hg) hk (hr.quote_notMem_replaced hv)
      (hr.quote_notMem_replaced hv') (ht.replaced hr _ _) (ht'.replaced hr _ _) (ih _ _)

end

/-! ## The fourth pattern -/

/-- The punctuation is before the first quote. -/
theorem Stopped.exists_mem {g w : JsString} (ht : Stopped (g ++ 34 :: w)) :
    ∃ y ∈ g, y ∈ ([44, 123, 125, 91, 93] : List UInt16) := by
  rcases ht with hnil | ⟨front, y, u, heq, hfront, hy⟩
  · exact absurd (List.append_eq_nil_iff.mp hnil).2 (List.cons_ne_nil _ _)
  · refine ⟨y, ?_, hy⟩
    have hquote : y ≠ 34 := by
      rintro rfl
      exact absurd hy (by decide)
    rcases List.append_eq_append_iff.mp heq with ⟨e, rfl, hrest⟩ | ⟨e, rfl, hrest⟩
    · cases e with
      | nil =>
        rw [List.nil_append, List.cons.injEq] at hrest
        exact absurd hrest.1.symm hquote
      | cons z e =>
        rw [List.cons_append, List.cons.injEq] at hrest
        rw [← hrest.1] at hfront
        exact absurd (List.mem_append_right _ (List.mem_cons_self ..)) hfront
    · cases e with
      | nil =>
        rw [List.nil_append, List.cons.injEq] at hrest
        exact absurd hrest.1 hquote
      | cons z e =>
        rw [List.cons_append, List.cons.injEq] at hrest
        rw [hrest.1]
        exact List.mem_append_right _ (List.mem_cons_self ..)

/-- No colon and quote follow at once, where punctuation comes first. -/
theorem Stopped.ne {t : JsString} (ht : Stopped t) {a c w : JsString}
    (ha : ∀ x ∈ a, isWhiteSpace x = true) (hc : ∀ x ∈ c, isWhiteSpace x = true) :
    t ≠ a ++ 58 :: (c ++ 34 :: w) := by
  rintro rfl
  rw [← List.cons_append, ← List.append_assoc] at ht
  obtain ⟨y, hy, hstop⟩ := ht.exists_mem
  have hother : ∀ y ∈ ([44, 123, 125, 91, 93] : List UInt16), isWhiteSpace y = false ∧ y ≠ 58 := by
    decide
  obtain ⟨hspace, hcolon⟩ := hother y hstop
  rw [List.mem_append, List.mem_cons] at hy
  rcases hy with h | h | h
  · rw [ha y h] at hspace
    cases hspace
  · exact hcolon h
  · rw [hc y h] at hspace
    cases hspace

/-- What follows the last quote of a string has no match. -/
theorem withoutProperties_closing {t : JsString} (ht : Stopped t) :
    withoutProperties (34 :: t) = 34 :: withoutProperties t := by
  apply withoutProperties_quote
  rintro k u rfl hk
  obtain ⟨y, hy, hstop⟩ := ht.exists_mem
  have hforeign : ∀ y ∈ ([44, 123, 125, 91, 93] : List UInt16), isForeign y = true := by decide
  exact absurd hy (notMem_of_isSecretKey hk (hforeign y hstop))

/-- **The rest of a string has no match**, after a quote of it. -/
theorem withoutProperties_raw {s t : JsString} (hs : Raw s) (ht : Stopped t) :
    withoutProperties (34 :: (s ++ 34 :: t)) = 34 :: (s ++ 34 :: withoutProperties t) := by
  induction hs with
  | plain hs =>
    rw [withoutProperties_quote, withoutProperties_append hs, withoutProperties_closing ht]
    intro k u hsplit hk a c w ha hc hu
    obtain ⟨-, rfl⟩ := Lines.eq_of_front hs (notMem_of_isSecretKey hk (by decide)) hsplit
    exact ht.ne ha hc hu
  | @escaped f s hf hs ih =>
    have hfirst : 34 ∉ f ++ [92] := by
      rw [List.mem_append, not_or]
      exact ⟨hf, by decide⟩
    have hsplit : f ++ 92 :: 34 :: s ++ 34 :: t = (f ++ [92]) ++ 34 :: (s ++ 34 :: t) := by simp
    rw [hsplit, withoutProperties_quote, withoutProperties_append hfirst, ih]
    · simp
    · -- a backslash ends what is before the next quote
      intro k u hsplit hk
      obtain ⟨rfl, -⟩ := Lines.eq_of_front hfirst (notMem_of_isSecretKey hk (by decide)) hsplit
      exact absurd (List.mem_append_right f (List.mem_singleton_self 92))
        (notMem_of_isSecretKey hk (by decide))

/-- Neither has it before its first quote. -/
theorem withoutProperties_inside {s t : JsString} (hs : Raw s) (ht : Stopped t) :
    withoutProperties (s ++ 34 :: t) = s ++ 34 :: withoutProperties t := by
  cases hs with
  | plain hs => rw [withoutProperties_append hs, withoutProperties_closing ht]
  | @escaped f s hf hs =>
    have hfirst : 34 ∉ f ++ [92] := by
      rw [List.mem_append, not_or]
      exact ⟨hf, by decide⟩
    have hsplit : f ++ 92 :: 34 :: s ++ 34 :: t = (f ++ [92]) ++ 34 :: (s ++ 34 :: t) := by simp
    rw [hsplit, withoutProperties_append hfirst, withoutProperties_raw hs ht]
    simp

/-- **What becomes of a property** does not depend on what follows it. -/
theorem exists_withoutProperties_property {k v : JsString} (hk : Raw k) (hv : Raw v) : ∃ out,
    ∀ t, Stopped t → withoutProperties (34 :: (k ++ 34 :: 58 :: 34 :: (v ++ 34 :: t))) =
      out ++ withoutProperties t := by
  induction hk with
  | @plain k hk =>
    by_cases hsecret : isSecretKey k = true
    · cases hv with
      | plain hv => exact ⟨_, fun t _ => withoutProperties_property hsecret hv t⟩
      | @escaped f v hf hv =>
        -- the match ends at the first quote of the value
        have hfirst : 34 ∉ f ++ [92] := by
          rw [List.mem_append, not_or]
          exact ⟨hf, by decide⟩
        refine ⟨34 :: (k ++ [34, 58] ++ js "\"[redacted]\"") ++ (v ++ [34]), fun t ht => ?_⟩
        have hsplit : f ++ 92 :: 34 :: v ++ 34 :: t = (f ++ [92]) ++ 34 :: (v ++ 34 :: t) := by simp
        rw [hsplit, withoutProperties_property hsecret hfirst, withoutProperties_inside hv ht]
        simp
    · refine ⟨34 :: (k ++ 34 :: 58 :: 34 :: (v ++ [34])), fun t ht => ?_⟩
      have hcolon : 34 ∉ ([58] : JsString) := by decide
      have hvalue := withoutProperties_append hcolon (34 :: (v ++ 34 :: t))
      rw [withoutProperties_raw hv ht] at hvalue
      rw [withoutProperties_quote, withoutProperties_append hk, withoutProperties_quote]
      · rw [← List.singleton_append (x := 58), hvalue]
        simp
      · intro k' u hsplit hk'
        obtain ⟨rfl, -⟩ := Lines.eq_of_front hcolon (notMem_of_isSecretKey hk' (by decide)) hsplit
        exact absurd hk' (by decide)
      · intro k' u hsplit hk'
        obtain ⟨rfl, -⟩ := Lines.eq_of_front hk (notMem_of_isSecretKey hk' (by decide)) hsplit
        exact absurd hk' hsecret
  | @escaped f s hf hs ih =>
    obtain ⟨out, hout⟩ := ih
    have hfirst : 34 ∉ f ++ [92] := by
      rw [List.mem_append, not_or]
      exact ⟨hf, by decide⟩
    refine ⟨34 :: (f ++ [92]) ++ out, fun t ht => ?_⟩
    have hsplit : f ++ 92 :: 34 :: s ++ 34 :: 58 :: 34 :: (v ++ 34 :: t) =
        (f ++ [92]) ++ 34 :: (s ++ 34 :: 58 :: 34 :: (v ++ 34 :: t)) := by simp
    rw [hsplit, withoutProperties_quote, withoutProperties_append hfirst, hout t ht]
    · simp
    · intro k u hsplit hk
      obtain ⟨rfl, -⟩ := Lines.eq_of_front hfirst (notMem_of_isSecretKey hk (by decide)) hsplit
      exact absurd (List.mem_append_right f (List.mem_singleton_self 92))
        (notMem_of_isSecretKey hk (by decide))

/-- **Texts that differ in secrets become one.** -/
theorem Alike.withoutProperties_eq {t t' : JsString} (h : Alike t t') :
    withoutProperties t = withoutProperties t' := by
  induction h with
  | rest _ => rfl
  | string hg hs ht ht' _ ih =>
    rw [withoutProperties_append hg, withoutProperties_append hg, withoutProperties_raw hs ht,
      withoutProperties_raw hs ht', ih]
  | property hg hk hv ht ht' _ ih =>
    obtain ⟨out, hout⟩ := exists_withoutProperties_property hk hv
    rw [withoutProperties_append hg, withoutProperties_append hg, hout _ ht, hout _ ht', ih]
  | secret hg hk hv hv' _ _ _ ih =>
    rw [withoutProperties_append hg, withoutProperties_append hg,
      withoutProperties_property hk hv, withoutProperties_property hk hv', ih]

/-- One pattern after the other. -/
theorem redactText_eq (text : JsString) : redactText text =
    headerPattern.replaceWords redactMatch (withoutProperties (replaced bearerPattern true none
      (replaced googleKeyPattern true none (replaced prefixedKeyPattern true none text)))) := by
  unfold redactText secretPatterns
  rw [List.foldl_cons, List.foldl_cons, List.foldl_cons, List.foldl_cons, List.foldl_cons,
    List.foldl_nil, replaceWords_propertyPattern, replaceWords_eq_replaced bearerPattern,
    replaceWords_eq_replaced googleKeyPattern, replaceWords_eq_replaced prefixedKeyPattern]

/-- **Texts that differ in secrets are redacted alike.** -/
theorem Alike.redactText_eq {t t' : JsString} (h : Alike t t') : redactText t = redactText t' := by
  have hthree := ((h.replaced tame_prefixedKeyPattern true none).replaced tame_googleKeyPattern
    true none).replaced tame_bearerPattern true none
  rw [Auth.redactText_eq, Auth.redactText_eq, hthree.withoutProperties_eq]

end AgentEval.Auth
