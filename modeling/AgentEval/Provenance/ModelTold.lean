import AgentEval.Js.Woven
import AgentEval.Provenance.Differences

/-!
# What the address of a model tells

The fields that pin a model are hashed with marks between them: a line break and a word before each,
an `@` before the tokenizer's revision.

* `HashedModel.string_eq` — the string as fields and marks.
* `HashedModel.identity` — an identity with any fields.
* **`modelTold_iff`**: a model is told from every other one by what is hashed exactly when no field of
  it can be read in another place.
-/

namespace AgentEval.Provenance

open Js Sha256 Marked

/-- What the address of a model is fed. -/
def modelParts (m : ModelIdentity) : List JsString :=
  [js "model-identity:v1\n",
    m.origin.text ++ js "\n" ++ m.repository ++ js "\n",
    js "rev:" ++ orEmpty m.revision ++ js "\n",
    js "sha:" ++ orEmpty m.commitSha ++ js "\n",
    js "weights:" ++ orEmpty m.weightsDigest ++ js "\n",
    js "tok:" ++ orEmpty m.tokenizerRepository ++ js "@" ++ orEmpty m.tokenizerRevision ++ js "\n"]

/-- What the address of a model hashes. -/
def modelText (m : ModelIdentity) : Bytes := hashedText (modelParts m)

/-- The address of a model is that of its parts. -/
theorem modelDigest_eq (m : ModelIdentity) : modelDigest m = addressOf (modelParts m) := rfl

/-- The fields that the address of a model covers; what is absent is empty. -/
@[ext] structure HashedModel where
  origin : ModelOrigin
  repository : JsString
  revision : JsString
  commitSha : JsString
  weightsDigest : JsString
  tokenizerRepository : JsString
  tokenizerRevision : JsString

/-- Those of an identity. -/
def ModelIdentity.hashed (m : ModelIdentity) : HashedModel where
  origin := m.origin
  repository := m.repository
  revision := orEmpty m.revision
  commitSha := orEmpty m.commitSha
  weightsDigest := orEmpty m.weightsDigest
  tokenizerRepository := orEmpty m.tokenizerRepository
  tokenizerRevision := orEmpty m.tokenizerRevision

/-- The marks between the fields. -/
def modelMarks : List (Set JsString) :=
  [{js "\nrev:"}, {js "\nsha:"}, {js "\nweights:"}, {js "\ntok:"}, {js "@"}]

namespace HashedModel

/-- The marks, each with the field after it. -/
def fields (x : HashedModel) : List (JsString × JsString) :=
  [(js "\nrev:", x.revision), (js "\nsha:", x.commitSha), (js "\nweights:", x.weightsDigest),
    (js "\ntok:", x.tokenizerRepository), (js "@", x.tokenizerRevision)]

/-- The string that is hashed. -/
def string (x : HashedModel) : JsString :=
  js "model-identity:v1\n" ++ (x.origin.text ++ (js "\n" ++ (weave x.repository x.fields ++ js "\n")))

/-- No field can be read in another place: each is told by its octets, and has neither the mark before
it nor the one after it. -/
structure Unmistakable (x : HashedModel) : Prop where
  repository : Faithful x.repository
  fields : ∀ p ∈ x.fields, Faithful p.2
  unmistaken : Unmistaken modelMarks x.repository x.fields

/-- An identity with these fields. -/
def identity (x : HashedModel) : ModelIdentity where
  props := [(js "repository", .str x.repository), (js "origin", .str x.origin.text),
    (js "revision", .str x.revision), (js "commitSha", .str x.commitSha),
    (js "weightsDigest", .str x.weightsDigest),
    (js "tokenizerRepository", .str x.tokenizerRepository),
    (js "tokenizerRevision", .str x.tokenizerRevision)]
  wf := by
    refine JsVal.wf_obj.mpr ⟨?_, ?_⟩
    · change [js "repository", js "origin", js "revision", js "commitSha", js "weightsDigest",
        js "tokenizerRepository", js "tokenizerRevision"].Nodup
      simp
    · simp only [List.forall_mem_cons]
      exact ⟨trivial, trivial, trivial, trivial, trivial, trivial, trivial, List.forall_mem_nil _⟩
  repository := x.repository
  origin := x.origin
  revision := some x.revision
  commitSha := some x.commitSha
  weightsDigest := some x.weightsDigest
  tokenizerRepository := some x.tokenizerRepository
  tokenizerRevision := some x.tokenizerRevision
  get_repository := rfl
  get_origin := rfl
  get_revision := rfl
  get_commitSha := rfl
  get_weightsDigest := rfl
  get_tokenizerRepository := rfl
  get_tokenizerRevision := rfl

/-- It has these fields. -/
theorem hashed_identity (x : HashedModel) : x.identity.hashed = x := rfl

end HashedModel

/-! ## The string -/

/-- The marks part the fields. -/
theorem parting_modelMarks : ∀ S ∈ modelMarks, ∀ s ∈ S, Parting s := by
  unfold modelMarks
  simp only [List.forall_mem_cons, Set.mem_singleton_iff, forall_eq]
  refine ⟨⟨by decide, by decide⟩, ⟨by decide, by decide⟩, ⟨by decide, by decide⟩,
    ⟨by decide, by decide⟩, ⟨by decide, by decide⟩, List.forall_mem_nil _⟩

/-- No two overlap. -/
theorem marks_modelMarks : ∀ S ∈ modelMarks, Marks S := by
  unfold modelMarks
  simp only [List.forall_mem_cons]
  refine ⟨marks_singleton (x := 10) (p := js "rev:") (by decide),
    marks_singleton (x := 10) (p := js "sha:") (by decide),
    marks_singleton (x := 10) (p := js "weights:") (by decide),
    marks_singleton (x := 10) (p := js "tok:") (by decide),
    marks_singleton (x := 64) (p := []) (by decide), List.forall_mem_nil _⟩

namespace HashedModel

/-- The marks of the fields. -/
theorem follow_fields (x : HashedModel) : Follow modelMarks x.fields := by
  unfold modelMarks fields
  simp only [follow_cons, follow_nil, Set.mem_singleton_iff, and_self]

/-- Fields after those marks are the fields of a model. -/
theorem exists_fields {rest : List (JsString × JsString)} (h : Follow modelMarks rest)
    (origin : ModelOrigin) (repository : JsString) :
    ∃ x : HashedModel, x.origin = origin ∧ x.repository = repository ∧ x.fields = rest := by
  unfold modelMarks at h
  obtain ⟨m₁, a, r₁, rfl, h₁, k₁⟩ := h.exists_eq_cons
  obtain ⟨m₂, b, r₂, rfl, h₂, k₂⟩ := k₁.exists_eq_cons
  obtain ⟨m₃, c, r₃, rfl, h₃, k₃⟩ := k₂.exists_eq_cons
  obtain ⟨m₄, d, r₄, rfl, h₄, k₄⟩ := k₃.exists_eq_cons
  obtain ⟨m₅, e, r₅, rfl, h₅, k₅⟩ := k₄.exists_eq_cons
  rw [follow_nil] at k₅
  rw [Set.mem_singleton_iff] at h₁ h₂ h₃ h₄ h₅
  refine ⟨⟨origin, repository, a, b, c, d, e⟩, rfl, rfl, ?_⟩
  unfold fields
  rw [h₁, h₂, h₃, h₄, h₅, k₅]

/-- The fields are told apart in the list of them. -/
theorem eq_of_fields {x y : HashedModel} (horigin : x.origin = y.origin)
    (hrepository : x.repository = y.repository) (hfields : x.fields = y.fields) : x = y := by
  unfold fields at hfields
  simp only [List.cons.injEq, Prod.mk.injEq, true_and, and_true] at hfields
  obtain ⟨hrevision, hsha, hweights, htok, hrev⟩ := hfields
  exact HashedModel.ext horigin hrepository hrevision hsha hweights htok hrev

/-- What is hashed. -/
theorem modelText_eq (m : ModelIdentity) : modelText m = utf8 m.hashed.string := by
  have hmark : js "model-identity:v1\n" = js "model-identity:v1" ++ [10] := by decide
  have hline : js "\n" = [10] := by decide
  have hended : ∀ s ∈ modelParts m, ∃ t, s = t ++ [10] := by
    intro s hs
    unfold modelParts at hs
    rw [hline, hmark] at hs
    simp only [List.mem_cons, List.not_mem_nil, or_false] at hs
    rcases hs with rfl | rfl | rfl | rfl | rfl | rfl
    · exact ⟨_, rfl⟩
    · exact ⟨_, rfl⟩
    · exact ⟨_, rfl⟩
    · exact ⟨_, rfl⟩
    · exact ⟨_, rfl⟩
    · exact ⟨_, rfl⟩
  have hflatten : (modelParts m).flatten = m.hashed.string := by
    have hrev : js "\nrev:" = 10 :: js "rev:" := by decide
    have hsha : js "\nsha:" = 10 :: js "sha:" := by decide
    have hweights : js "\nweights:" = 10 :: js "weights:" := by decide
    have htok : js "\ntok:" = 10 :: js "tok:" := by decide
    unfold modelParts string fields ModelIdentity.hashed
    rw [hrev, hsha, hweights, htok, hline]
    simp only [weave, List.flatten_cons, List.flatten_nil, List.append_assoc, List.append_nil,
      List.cons_append, List.nil_append]
  unfold modelText hashedText
  rw [flatMap_utf8_ended (by decide) (by decide) hended, hflatten]

/-- An origin is one line. -/
theorem newline_notMem_origin (o : ModelOrigin) : 10 ∉ o.text := by
  cases o <;> decide

/-- Origins have different names. -/
theorem text_origin_injective : Function.Injective ModelOrigin.text := by
  intro o p h
  cases o <;> cases p <;> first | rfl | exact absurd h (by decide)

/-- The same octets come from the same origin and the same fields, lone surrogates replaced. -/
theorem utf8_string_eq_iff {x y : HashedModel} : utf8 x.string = utf8 y.string ↔
    x.origin = y.origin ∧ toWellFormed (weave x.repository x.fields) =
      toWellFormed (weave y.repository y.fields) := by
  have hline : js "\n" = [10] := by decide
  have hwf : ∀ o : ModelOrigin, WellFormed o.text := by
    intro o
    cases o <;> exact wellFormed_js _
  have hrepaired : ∀ x : HashedModel, toWellFormed x.string = js "model-identity:v1\n" ++
      (x.origin.text ++ 10 :: (toWellFormed (weave x.repository x.fields) ++ [10])) := by
    intro x
    unfold string
    rw [toWellFormed_append (wellFormed_js _), toWellFormed_append (hwf _),
      toWellFormed_append (wellFormed_js _), hline,
      toWellFormed_append_cons (by decide) (by decide)]
    rfl
  rw [utf8_eq_iff, hrepaired, hrepaired, List.append_cancel_left_eq]
  constructor
  · intro h
    obtain ⟨horigin, hrest⟩ :=
      Lines.eq_of_front (newline_notMem_origin _) (newline_notMem_origin _) h
    exact ⟨text_origin_injective horigin, List.append_cancel_right hrest⟩
  · rintro ⟨horigin, hrest⟩
    rw [horigin, hrest]

/-- **A model is told from every other one** by what is hashed exactly when no field of it can be read
in another place. -/
theorem modelTold_iff (m : ModelIdentity) :
    (∀ n : ModelIdentity, modelText m = modelText n → m.hashed = n.hashed) ↔
      m.hashed.Unmistakable := by
  have hone := woven_told_iff marks_modelMarks parting_modelMarks m.hashed.follow_fields
    (f := m.hashed.repository)
  constructor
  · intro htold
    obtain ⟨⟨hrepository, hfields⟩, hfree⟩ := hone.mp fun g other hother h => by
      obtain ⟨y, horigin, rfl, rfl⟩ := exists_fields hother m.hashed.origin g
      have hsame := htold y.identity (by
        rw [modelText_eq, modelText_eq, hashed_identity, utf8_string_eq_iff]
        exact ⟨horigin.symm, h.symm⟩)
      rw [hashed_identity] at hsame
      rw [hsame]
      exact ⟨rfl, rfl⟩
    exact ⟨hrepository, hfields, hfree⟩
  · intro hm n h
    rw [modelText_eq, modelText_eq, utf8_string_eq_iff] at h
    obtain ⟨hrepository, hfields⟩ := hone.mpr ⟨⟨hm.repository, hm.fields⟩, hm.unmistaken⟩ _ _
      n.hashed.follow_fields h.2.symm
    exact eq_of_fields h.1 hrepository.symm hfields.symm

end HashedModel

end AgentEval.Provenance
