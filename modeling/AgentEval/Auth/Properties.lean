import AgentEval.Auth.Segments
import AgentEval.Words.Lines

/-!
# Redaction of properties

The fourth pattern takes a listed key in quotes, a colon, and everything from the next quote to the
one after it.

* `mem_run_propertyPattern` — what it takes.
* `withoutProperties` — what replacing its matches makes of a text: `withoutProperties_append` and
  `withoutProperties_quote` where there is none, **`withoutProperties_property`** where there is one.
-/

namespace AgentEval.Auth

open Js Regex Pattern Providers.Http

variable {s t u k v : JsString} {b : Bool} {o : Outcome UInt16}

/-! ## Listed keys -/

/-- The number of a letter in lower case. -/
theorem toNat_lowerUnit (u : UInt16) : (lowerUnit u).toNat =
    if 65 ≤ u.toNat ∧ u.toNat ≤ 90 then u.toNat + 32 else u.toNat := by
  unfold lowerUnit
  split_ifs with h
  · have h32 : (32 : UInt16).toNat = 32 := rfl
    rw [UInt16.toNat_add, h32, Nat.mod_eq_of_lt (by omega)]
  · rfl

/-- Letters are compared in lower case. -/
theorem sameLetter_iff {u v : UInt16} : sameLetter u v = true ↔ lowerUnit u = lowerUnit v := by
  unfold sameLetter
  dsimp only
  rw [beq_iff_eq, ← toNat_lowerUnit, ← toNat_lowerUnit, UInt16.toNat_inj]

/-- A dash and an underscore have one case. -/
theorem eq_of_lowerUnit_eq {u v : UInt16} (hv : v ∈ ([95, 45] : List UInt16))
    (h : lowerUnit u = v) : u = v := by
  have hnat := congrArg UInt16.toNat h
  have hvnat : ∀ v ∈ ([95, 45] : List UInt16), v.toNat < 97 := by decide
  have hlt := hvnat v hv
  rw [toNat_lowerUnit] at hnat
  split_ifs at hnat
  · omega
  · exact UInt16.toNat_inj.mp hnat

/-- So are words. -/
theorem forall₂_sameLetter_iff {w : JsString} :
    List.Forall₂ (fun x y => sameLetter x y = true) w t ↔ w.map lowerUnit = t.map lowerUnit := by
  rw [← List.forall₂_eq_eq_eq, List.forall₂_map_left_iff, List.forall₂_map_right_iff]
  simp only [sameLetter_iff]

/-- **A name is a listed key.** -/
theorem isSecretKey_of_mem_run (h : o ∈ secretName.run b s) : isSecretKey o.taken = true := by
  unfold secretName at h
  obtain ⟨o', ho', rfl⟩ := mem_run_group.mp h
  change isSecretKey o'.taken = true
  unfold isSecretKey
  rw [decide_eq_true_iff]
  obtain ⟨r, hr, ho'⟩ := mem_run_oneOf.mp ho'
  rcases List.mem_cons.mp hr with rfl | hr
  · -- the words with a dash, an underscore, or neither
    obtain ⟨o₁, ho₁, o₂, ho₂, rfl⟩ := mem_run_seq.mp ho'
    obtain ⟨o₃, ho₃, o₄, ho₄, rfl⟩ := mem_run_seq.mp ho₂
    obtain ⟨t₁, u₁, -, ht₁, rfl⟩ := mem_run_word.mp ho₁
    obtain ⟨t₂, u₂, -, ht₂, rfl⟩ := mem_run_word.mp ho₄
    rw [forall₂_sameLetter_iff] at ht₁ ht₂
    change ((t₁ ++ (o₃.taken ++ t₂)).map lowerUnit) ∈ secretKeys
    rw [List.map_append, List.map_append, ← ht₁, ← ht₂]
    have hapi : ∀ m ∈ ([[], [95], [45]] : List JsString), (js "api").map lowerUnit ++
        (m.map lowerUnit ++ (js "key").map lowerUnit) ∈ secretKeys := by decide
    apply hapi
    rcases mem_run_opt.mp ho₃ with ho₃ | rfl
    · obtain ⟨x, t, -, hx, rfl⟩ := mem_run_set.mp ho₃
      rw [Bool.or_eq_true, beq_iff_eq, beq_iff_eq] at hx
      rcases hx with rfl | rfl <;> simp
    · exact List.mem_cons_self ..
  · obtain ⟨w, hw, rfl⟩ := List.mem_map.mp hr
    obtain ⟨t₁, u₁, -, ht₁, rfl⟩ := mem_run_word.mp ho'
    rw [forall₂_sameLetter_iff] at ht₁
    change t₁.map lowerUnit ∈ secretKeys
    rw [← ht₁]
    have hwords : ∀ w ∈ ["apiKey", "secret", "password", "token", "authorization"],
        (js w).map lowerUnit ∈ secretKeys := by decide
    exact hwords w hw

/-- **A listed key is a name.** -/
theorem exists_mem_run_secretName (hk : isSecretKey k = true) (b : Bool) (t : JsString) :
    ∃ o ∈ secretName.run b (k ++ t), o.taken = k ∧ o.rest = t := by
  unfold isSecretKey at hk
  have hk' := decide_eq_true_iff.mp hk
  -- it is one of the words, or `api` and `key` with a dash or an underscore between them
  have hsplit : ∀ l ∈ secretKeys,
      (∃ w ∈ ["apiKey", "secret", "password", "token", "authorization"],
        (js w).map lowerUnit = l) ∨
      ∃ x ∈ ([95, 45] : List UInt16),
        (js "api").map lowerUnit ++ x :: (js "key").map lowerUnit = l := by decide
  obtain ⟨o, ho, htaken, hrest⟩ : ∃ o, (∃ r ∈ .seq (.word sameLetter (js "api"))
      (.seq (.opt (.set fun u => u == 95 || u == 45)) (.word sameLetter (js "key"))) ::
      ["apiKey", "secret", "password", "token", "authorization"].map
        (fun w => word sameLetter (js w)), o ∈ r.run b (k ++ t)) ∧ o.taken = k ∧ o.rest = t := by
    rcases hsplit _ hk' with ⟨w, hw, hsame⟩ | ⟨x, hx, hsame⟩
    · refine ⟨⟨k, t, []⟩, ⟨_, List.mem_cons_of_mem _ (List.mem_map_of_mem hw), ?_⟩, rfl, rfl⟩
      exact mem_run_word.mpr ⟨k, t, rfl, forall₂_sameLetter_iff.mpr hsame, rfl⟩
    · obtain ⟨t₁, rest, rfl, h₁, hrest⟩ := List.map_eq_append_iff.mp hsame.symm
      obtain ⟨y, t₂, rfl, hy, h₂⟩ := List.map_eq_cons_iff.mp hrest
      obtain rfl := eq_of_lowerUnit_eq hx hy
      have hset : (y == 95 || y == 45) = true := by
        rw [Bool.or_eq_true, beq_iff_eq, beq_iff_eq]
        simpa using hx
      refine ⟨_, ⟨_, List.mem_cons_self .., mem_run_seq.mpr ⟨⟨t₁, y :: t₂ ++ t, []⟩,
        mem_run_word.mpr ⟨t₁, _, by simp, forall₂_sameLetter_iff.mpr h₁.symm, rfl⟩, _,
        mem_run_seq.mpr ⟨⟨[y], t₂ ++ t, []⟩,
          mem_run_opt.mpr (.inl (mem_run_set.mpr ⟨y, _, rfl, hset, rfl⟩)), ⟨t₂, t, []⟩,
          mem_run_word.mpr ⟨t₂, t, rfl, forall₂_sameLetter_iff.mpr h₂.symm, rfl⟩, rfl⟩, rfl⟩⟩,
        rfl, rfl⟩
  obtain ⟨r, hr, ho⟩ := ho
  exact ⟨_, mem_run_group.mpr ⟨o, mem_run_oneOf.mpr ⟨r, hr, ho⟩, rfl⟩, htaken, hrest⟩

/-! ## Matches -/

/-- **What a match takes.** -/
theorem mem_run_propertyPattern (h : o ∈ propertyPattern.run b s) : ∃ k a c v,
    isSecretKey k = true ∧ (∀ x ∈ a, isWhiteSpace x = true) ∧ (∀ x ∈ c, isWhiteSpace x = true) ∧
      34 ∉ v ∧ o.taken = 34 :: (k ++ 34 :: (a ++ 58 :: (c ++ 34 :: (v ++ [34])))) := by
  unfold propertyPattern at h
  obtain ⟨o₁, ho₁, p₁, h₁, rfl⟩ := mem_run_seq.mp h
  obtain ⟨x₁, _, -, hx₁, rfl⟩ := mem_run_set.mp ho₁
  obtain ⟨o₂, ho₂, p₂, h₂, rfl⟩ := mem_run_seq.mp h₁
  have hk := isSecretKey_of_mem_run ho₂
  obtain ⟨o₃, ho₃, p₃, h₃, rfl⟩ := mem_run_seq.mp h₂
  obtain ⟨x₃, _, -, hx₃, rfl⟩ := mem_run_set.mp ho₃
  obtain ⟨o₄, ho₄, p₄, h₄, rfl⟩ := mem_run_seq.mp h₃
  obtain ⟨a, _, -, ha, rfl⟩ := mem_run_star_set.mp ho₄
  obtain ⟨o₅, ho₅, p₅, h₅, rfl⟩ := mem_run_seq.mp h₄
  obtain ⟨x₅, _, -, hx₅, rfl⟩ := mem_run_set.mp ho₅
  obtain ⟨o₆, ho₆, p₆, h₆, rfl⟩ := mem_run_seq.mp h₅
  obtain ⟨c, _, -, hc, rfl⟩ := mem_run_star_set.mp ho₆
  obtain ⟨o₇, ho₇, p₇, h₇, rfl⟩ := mem_run_seq.mp h₆
  obtain ⟨x₇, _, -, hx₇, rfl⟩ := mem_run_set.mp ho₇
  obtain ⟨o₈, ho₈, o₉, ho₉, rfl⟩ := mem_run_seq.mp h₇
  obtain ⟨v, _, -, hv, rfl⟩ := mem_run_star_set.mp ho₈
  obtain ⟨x₉, _, -, hx₉, rfl⟩ := mem_run_set.mp ho₉
  rw [beq_iff_eq] at hx₁ hx₃ hx₅ hx₇ hx₉
  refine ⟨o₂.taken, a, c, v, hk, ha, hc, fun hmem => ?_, ?_⟩
  · have hquote := hv 34 hmem
    exact absurd hquote (by decide)
  · rw [hx₁, hx₃, hx₅, hx₇, hx₉]
    simp [Outcome.andThen]

/-- A property has a match. -/
theorem run_property_ne_nil (hk : isSecretKey k = true) (hv : 34 ∉ v) :
    propertyPattern.run b (34 :: (k ++ 34 :: 58 :: 34 :: (v ++ 34 :: t))) ≠ [] := by
  have hvalue : ∀ x ∈ v, (x != 34) = true := by
    intro x hx
    rw [bne_iff_ne]
    exact ne_of_mem_of_not_mem hx hv
  obtain ⟨o, ho, -, hrest⟩ := exists_mem_run_secretName hk (b && [(34 : UInt16)].isEmpty)
    (34 :: 58 :: 34 :: (v ++ 34 :: t))
  intro hnil
  have hmem : ∃ o, o ∈ propertyPattern.run b (34 :: (k ++ 34 :: 58 :: 34 :: (v ++ 34 :: t))) := by
    unfold propertyPattern
    refine ⟨_, mem_run_seq.mpr ⟨⟨[34], _, []⟩, mem_run_set.mpr ⟨34, _, rfl, rfl, rfl⟩, _,
      mem_run_seq.mpr ⟨o, ho, _, mem_run_seq.mpr ⟨⟨[34], 58 :: 34 :: (v ++ 34 :: t), []⟩,
        mem_run_set.mpr ⟨34, _, hrest, rfl, rfl⟩, _,
        mem_run_seq.mpr ⟨_, mem_run_star_set.mpr ⟨[], _, rfl, List.forall_mem_nil _, rfl⟩, _,
          mem_run_seq.mpr ⟨_, mem_run_set.mpr ⟨58, _, rfl, rfl, rfl⟩, _,
            mem_run_seq.mpr ⟨_, mem_run_star_set.mpr ⟨[], _, rfl, List.forall_mem_nil _, rfl⟩, _,
              mem_run_seq.mpr ⟨_, mem_run_set.mpr ⟨34, _, rfl, rfl, rfl⟩, _,
                mem_run_seq.mpr ⟨_, mem_run_star_set.mpr ⟨v, _, rfl, hvalue, rfl⟩, _,
                  mem_run_set.mpr ⟨34, t, rfl, rfl, rfl⟩, rfl⟩, rfl⟩, rfl⟩, rfl⟩, rfl⟩, rfl⟩,
        rfl⟩, rfl⟩⟩
  obtain ⟨o, ho⟩ := hmem
  rw [hnil] at ho
  exact List.not_mem_nil ho

/-- **The match of a property** ends at the first quote of its value. -/
theorem head?_run_property (hk : isSecretKey k = true) (hv : 34 ∉ v) : ∃ o,
    (propertyPattern.run b (34 :: (k ++ 34 :: 58 :: 34 :: (v ++ 34 :: t)))).head? = some o ∧
      o.taken = 34 :: (k ++ 34 :: 58 :: 34 :: (v ++ [34])) ∧ o.rest = t := by
  obtain ⟨o, os, hrun⟩ := List.exists_cons_of_ne_nil (run_property_ne_nil (b := b) (t := t) hk hv)
  have ho : o ∈ propertyPattern.run b (34 :: (k ++ 34 :: 58 :: 34 :: (v ++ 34 :: t))) := by
    rw [hrun]
    exact List.mem_cons_self ..
  have hparts := taken_append_rest _ ho
  obtain ⟨k', a, c, v', hk', ha, hc, hv', htaken⟩ := mem_run_propertyPattern ho
  have hspace : ∀ {l : JsString}, (∀ x ∈ l, isWhiteSpace x = true) → 58 ∉ l ∧ 34 ∉ l := by
    intro l hl
    exact ⟨fun h => absurd (hl 58 h) (by decide), fun h => absurd (hl 34 h) (by decide)⟩
  rw [htaken] at hparts
  simp only [List.cons_append, List.append_assoc, List.nil_append] at hparts
  rw [List.cons.injEq] at hparts
  -- the texts are told apart at the quotes and the colon
  obtain ⟨rfl, h₁⟩ := Lines.eq_of_front (notMem_of_isSecretKey hk' (by decide))
    (notMem_of_isSecretKey hk (by decide)) hparts.2
  obtain ⟨rfl, h₂⟩ := Lines.eq_of_front (hspace ha).1 List.not_mem_nil
    (h₁.trans (List.nil_append _).symm)
  obtain ⟨rfl, h₃⟩ := Lines.eq_of_front (hspace hc).2 List.not_mem_nil
    (h₂.trans (List.nil_append _).symm)
  obtain ⟨rfl, h₄⟩ := Lines.eq_of_front hv' hv h₃
  exact ⟨o, by rw [hrun, List.head?_cons], htaken, h₄⟩

/-! ## Replacing -/

/-- What replacing the matches makes of a text. -/
def withoutProperties (s : JsString) : JsString :=
  propertyPattern.replaceRest (fun o => redactMatch o.taken) false s

/-- It is what the pattern does in a text. -/
theorem replaceWords_propertyPattern (s : JsString) :
    (propertyPattern.comap Prod.snd : Pattern (Option UInt16 × UInt16)).replaceWords redactMatch s =
      withoutProperties s := by
  have hunanchored : propertyPattern.Unanchored := by
    unfold propertyPattern secretName
    simp [Unanchored, oneOf, opt, Pattern.word, js, utf16]
  rw [replaceWords_comap, replaceAll_eq, hunanchored.replaceRest_eq true false]
  rfl

/-- Text without quotes stays. -/
theorem withoutProperties_append (hs : 34 ∉ s) (t : JsString) :
    withoutProperties (s ++ t) = s ++ withoutProperties t := by
  unfold withoutProperties
  cases s with
  | nil => rfl
  | cons x s =>
    apply replaceRest_append (P := fun x => x = 34)
    · exact fun x hx => beq_iff_eq.mp hx
    · exact fun x hx h34 => hs (h34 ▸ hx)
    · exact List.cons_ne_nil _ _

/-- So does a quote that no listed key follows. -/
theorem withoutProperties_quote
    (h : ∀ k t, s = k ++ 34 :: t → isSecretKey k = true → ∀ a c w, (∀ x ∈ a, isWhiteSpace x = true) →
      (∀ x ∈ c, isWhiteSpace x = true) → t ≠ a ++ 58 :: (c ++ 34 :: w)) :
    withoutProperties (34 :: s) = 34 :: withoutProperties s := by
  unfold withoutProperties
  apply replaceRest_cons
  apply List.eq_nil_iff_forall_not_mem.mpr
  intro o ho
  obtain ⟨k, a, c, v, hk, ha, hc, -, htaken⟩ := mem_run_propertyPattern ho
  have hparts := taken_append_rest _ ho
  rw [htaken, List.cons_append, List.cons.injEq] at hparts
  refine h k (a ++ 58 :: (c ++ 34 :: (v ++ [34] ++ o.rest))) ?_ hk a c _ ha hc rfl
  rw [← hparts.2]
  simp

/-- What a match is replaced by does not depend on the value. -/
theorem redactMatch_property (hk : isSecretKey k = true) (v : JsString) :
    redactMatch (34 :: (k ++ 34 :: 58 :: v)) = 34 :: (k ++ [34, 58] ++ js "\"[redacted]\"") := by
  have hlength := (isSecretKey_spec hk).1
  have hcolon : 58 ∉ k := notMem_of_isSecretKey hk (by decide)
  have hidx : (34 :: (k ++ 34 :: 58 :: v)).idxOf 58 = k.length + 2 := by
    rw [List.idxOf_cons_ne _ (by decide), List.idxOf_append_of_notMem hcolon,
      List.idxOf_cons_ne _ (by decide), List.idxOf_cons_self]
  have htake : (34 :: (k ++ 34 :: 58 :: v)).take (k.length + 2 + 1) = 34 :: (k ++ [34, 58]) := by
    rw [List.take_succ_cons, List.take_length_add_append]
    rfl
  unfold redactMatch
  dsimp only
  rw [hidx, if_pos, htake, List.cons_append]
  simp only [List.length_cons, List.length_append]
  omega

/-- **The value of a listed key is taken** up to its first quote. -/
theorem withoutProperties_property (hk : isSecretKey k = true) (hv : 34 ∉ v) (t : JsString) :
    withoutProperties (34 :: (k ++ 34 :: 58 :: 34 :: (v ++ 34 :: t))) =
      34 :: (k ++ [34, 58] ++ js "\"[redacted]\"") ++ withoutProperties t := by
  obtain ⟨o, hhead, htaken, hrest⟩ := head?_run_property (b := false) (t := t) hk hv
  unfold withoutProperties
  rw [replaceRest_of_head hhead (by rw [htaken]; exact List.cons_ne_nil _ _), htaken, hrest,
    redactMatch_property hk]

end AgentEval.Auth
