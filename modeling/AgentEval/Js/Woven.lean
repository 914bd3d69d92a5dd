import AgentEval.Js.Json
import AgentEval.Js.Scalars
import AgentEval.Words.Marked

/-!
# Strings woven of fields and marks, as their octets tell them

The marks are of code units below the surrogates, so that the fields are read one by one.

* `toWellFormed_weave` — the fields of a string are repaired one by one.
* **`woven_told_iff`**: the octets tell the fields exactly when each field is told by its own and has
  no mark of the family before it or of the family after it.
-/

namespace Js

open Marked

/-- A mark that parts what is before it from what is after it. -/
structure Parting (s : JsString) : Prop where
  /-- It is not empty. -/
  ne_nil : s ≠ []
  /-- It has no surrogates. -/
  lt : ∀ u ∈ s, u.toNat < 0xD800

/-- Strings are repaired apart at such a mark. -/
theorem Parting.toWellFormed {s : JsString} (hs : Parting s) (f g : JsString) :
    toWellFormed (f ++ (s ++ g)) = Js.toWellFormed f ++ (s ++ Js.toWellFormed g) := by
  obtain ⟨u, r, rfl⟩ := List.exists_cons_of_ne_nil hs.ne_nil
  have hlt := List.forall_mem_cons.mp hs.lt
  have hunit : isHigh u = false ∧ isLow u = false := by
    unfold isHigh isLow
    have := hlt.1
    constructor
    · rw [Bool.and_eq_false_iff, decide_eq_false_iff_not]
      left
      omega
    · rw [Bool.and_eq_false_iff, decide_eq_false_iff_not]
      left
      omega
  rw [List.cons_append, toWellFormed_append_cons hunit.1 hunit.2,
    toWellFormed_append (wellFormed_of_lt hlt.2)]
  rfl

/-- Marks with their fields repaired. -/
def repairFields (rest : List (JsString × JsString)) : List (JsString × JsString) :=
  rest.map fun p => (p.1, toWellFormed p.2)

/-- The marks stay. -/
theorem follow_repairFields {fams : List (Set JsString)} {rest : List (JsString × JsString)}
    (h : Follow fams rest) : Follow fams (repairFields rest) := by
  apply h.congr
  unfold repairFields
  rw [List.map_map]
  rfl

/-- **The fields are repaired one by one.** -/
theorem toWellFormed_weave {fams : List (Set JsString)} (hparting : ∀ S ∈ fams, ∀ s ∈ S, Parting s)
    (f : JsString) {rest : List (JsString × JsString)} (hrest : Follow fams rest) :
    toWellFormed (weave f rest) = weave (toWellFormed f) (repairFields rest) := by
  induction hrest generalizing f with
  | nil => rfl
  | cons hs _ ih =>
    rw [List.forall_mem_cons] at hparting
    unfold weave
    rw [(hparting.1 _ hs).toWellFormed, ih hparting.2]
    rfl

/-- Faithful fields are the repair of no others. -/
theorem repairFields_eq {rest other : List (JsString × JsString)} (h : ∀ p ∈ rest, Faithful p.2)
    (heq : repairFields other = rest) : other = rest := by
  induction rest generalizing other with
  | nil => exact List.map_eq_nil_iff.mp heq
  | cons p rest ih =>
    obtain ⟨⟨mark, field⟩, other, rfl⟩ : ∃ q tail, other = q :: tail :=
      List.exists_cons_of_ne_nil (by rintro rfl; cases heq)
    rw [List.forall_mem_cons] at h
    unfold repairFields at heq
    rw [List.map_cons, List.cons.injEq] at heq
    obtain ⟨rfl, hrest⟩ := heq
    have hfield : field = toWellFormed field :=
      faithful_iff.mp h.1 field (toWellFormed_of_wellFormed h.1.wellFormed).symm
    rw [ih h.2 hrest, ← hfield]

/-- A string of faithful fields needs none. -/
theorem toWellFormed_weave_of_faithful {fams : List (Set JsString)}
    (hparting : ∀ S ∈ fams, ∀ s ∈ S, Parting s) {f : JsString}
    {rest : List (JsString × JsString)} (hrest : Follow fams rest) (hf : Faithful f)
    (hfields : ∀ p ∈ rest, Faithful p.2) : toWellFormed (weave f rest) = weave f rest := by
  have hself : repairFields rest = rest := by
    unfold repairFields
    apply (List.map_congr_left (g := fun p => p) fun p hp => ?_).trans (List.map_id' _)
    rw [toWellFormed_of_wellFormed (hfields p hp).wellFormed]
  rw [toWellFormed_weave hparting f hrest, hself, toWellFormed_of_wellFormed hf.wellFormed]

section

variable {fams : List (Set JsString)} {f : JsString} {rest : List (JsString × JsString)}
  (hfams : ∀ S ∈ fams, Marks S) (hparting : ∀ S ∈ fams, ∀ s ∈ S, Parting s)
  (hrest : Follow fams rest)

include hparting hrest

/-- A string that is told has no field that its octets do not tell. -/
theorem faithful_of_woven (htold : ∀ (g : JsString) (other : List (JsString × JsString)),
      Follow fams other → toWellFormed (weave g other) = toWellFormed (weave f rest) →
        g = f ∧ other = rest) :
    Faithful f ∧ ∀ p ∈ rest, Faithful p.2 := by
  constructor
  · rw [faithful_iff]
    intro g hg
    refine (htold g rest hrest ?_).1
    rw [toWellFormed_weave hparting g hrest, toWellFormed_weave hparting f hrest, hg]
  · intro p hp
    rw [faithful_iff]
    intro g hg
    obtain ⟨front, back, rfl⟩ := List.append_of_mem hp
    have hfollow : Follow fams (front ++ (p.1, g) :: back) := hrest.congr (by simp)
    have hsame := (htold f _ hfollow (by
      rw [toWellFormed_weave hparting f hfollow, toWellFormed_weave hparting f hrest]
      unfold repairFields
      rw [List.map_append, List.map_append, List.map_cons, List.map_cons, hg])).2
    rw [List.append_cancel_left_eq, List.cons.injEq] at hsame
    exact congrArg Prod.snd hsame.1

include hfams

/-- **The octets of a string tell its fields** exactly when each is told by its own and has no mark of
the family before it or of the family after it. -/
theorem woven_told_iff :
    (∀ (g : JsString) (other : List (JsString × JsString)), Follow fams other →
      toWellFormed (weave g other) = toWellFormed (weave f rest) → g = f ∧ other = rest) ↔
    (Faithful f ∧ ∀ p ∈ rest, Faithful p.2) ∧ Unmistaken fams f rest := by
  constructor
  · intro htold
    refine ⟨faithful_of_woven hparting hrest htold, (told_iff hfams hrest).mp ?_⟩
    exact fun g other hother h => htold g other hother (congrArg toWellFormed h)
  · rintro ⟨⟨hf, hfields⟩, hfree⟩ g other hother h
    rw [toWellFormed_weave hparting g hother,
      toWellFormed_weave_of_faithful hparting hrest hf hfields] at h
    obtain ⟨hg, hsame⟩ := hfree.eq hfams hrest (follow_repairFields hother) h
    refine ⟨faithful_iff.mp hf g ?_, repairFields_eq hfields hsame⟩
    rw [hg, toWellFormed_of_wellFormed hf.wellFormed]

end

end Js
