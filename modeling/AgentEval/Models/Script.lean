import AgentEval.Models.Registry

/-!
# What the calls of the model registry do

The script of a call: `register` and `update` write one revision and return it; `recordProbe` writes
one, and where the provider has reported an identifier it writes it once more, over whatever is last
then.

* **`ModelEvent.follows`**: every call follows the script.
* **`History`**: revisions that are numbered from one on, of which only the last is current.
-/

namespace AgentEval.Models

open Js Store Api Async

/-! ## The script -/

/-- What a call has written. -/
inductive ModelPhase where
  /-- Nothing. -/
  | idle
  /-- A revision that it will write once more. -/
  | resolving (tenantId modelId : JsString) (withResolved : RegisteredModel)
  /-- The revision that it returns. -/
  | wrote (r : RegisteredModel)

/-- The script of the calls that `Q` admits. -/
inductive ModelOp (parse : UrlParser) (Q : ModelEvent → Prop) : ModelPhase → ModelPoint →
    (ModelStore → ModelStore) → ModelStore → ModelPhase → Prop where
  /-- Nothing is written. -/
  | same {point update s} (hpoint : ∀ t m w, point ≠ .probeResolve t m w) (h : update s = s) :
      ModelOp parse Q .idle point update s .idle
  /-- A model is registered. -/
  | register {ctx input r update s} (hQ : Q (.register ctx input))
      (h : InMemoryModelRegistry.register parse ctx input s = (.ok r, update s)) :
      ModelOp parse Q .idle .register update s (.wrote r)
  /-- A model is updated. -/
  | update {ctx modelId patch r update s} (hQ : Q (.update ctx modelId patch))
      (h : InMemoryModelRegistry.update parse ctx modelId patch s = (.ok r, update s)) :
      ModelOp parse Q .idle .update update s (.wrote r)
  /-- A probe is recorded in which the provider has reported no identifier. -/
  | probe {ctx modelId probe r update s} (hQ : Q (.recordProbe ctx modelId probe))
      (hresolved : probe.resolvedModelId.filter (· ≠ []) = none)
      (h : InMemoryModelRegistry.update parse ctx modelId
        (InMemoryModelRegistry.probePatch probe s.clock) s = (.ok r, update s)) :
      ModelOp parse Q .idle (.probeUpdate ctx.tenantId modelId) update s (.wrote r)
  /-- A probe is recorded, up to the identifier. -/
  | resolving {ctx modelId probe r resolved update s} (hQ : Q (.recordProbe ctx modelId probe))
      (hresolved : probe.resolvedModelId.filter (· ≠ []) = some resolved)
      (h : InMemoryModelRegistry.update parse ctx modelId
        (InMemoryModelRegistry.probePatch probe s.clock) s = (.ok r, update s)) :
      ModelOp parse Q .idle (.probeUpdate ctx.tenantId modelId) update s
        (.resolving ctx.tenantId modelId { r with resolvedModelId := some resolved })
  /-- The identifier is written. -/
  | resolve {ctx modelId w update s}
      (h : update s = InMemoryModelRegistry.writeResolved ctx modelId w s) :
      ModelOp parse Q (.resolving ctx.tenantId modelId w) (.probeResolve ctx.tenantId modelId w)
        update s (.wrote w)

/-- A call that returns a revision has written it. -/
def Answered (phase : ModelPhase) (answer : ModelAnswer) : Prop :=
  ∀ r, answer = .ok r → phase = .wrote r

section

variable {parse : UrlParser} {Q : ModelEvent → Prop} {I : ModelStore → Prop}

/-- An operation that writes and returns a revision, or fails and changes nothing. -/
theorem follows_write {point : ModelPoint} {op : ModelStore → ModelAnswer × ModelStore}
    (hpoint : ∀ t m w, point ≠ .probeResolve t m w)
    (herror : ∀ s e, (op s).1 = .error e → (op s).2 = s)
    (hok : ∀ s r, (op s).1 = .ok r →
      ModelOp parse Q .idle point (fun s => (op s).2) s (.wrote r)) :
    (Task.await point op).Follows I (ModelOp parse Q) Answered .idle := by
  apply Task.Follows.await_self
  intro s _
  cases h : (op s).1 with
  | error e =>
    refine ⟨.idle, .same hpoint (herror s e h), ?_⟩
    rintro r ⟨⟩
  | ok r =>
    refine ⟨.wrote r, hok s r h, ?_⟩
    rintro r' ⟨⟩
    rfl

/-- **Every call follows the script.** -/
theorem ModelEvent.follows {e : ModelEvent} (hQ : Q e)
    {t : Task ModelStore ModelPoint ModelAnswer} (ht : e.toAsync parse = .spawn t) :
    t.Follows I (ModelOp parse Q) Answered .idle := by
  cases e with
  | register ctx input =>
    obtain rfl := Event.spawn.inj ht
    apply follows_write
    · simp
    · exact fun s e h => InMemoryModelRegistry.register_eq_error (Prod.ext h rfl)
    · exact fun s r h => .register hQ (Prod.ext h rfl)
  | update ctx modelId patch =>
    obtain rfl := Event.spawn.inj ht
    apply follows_write
    · simp
    · exact fun s e h => InMemoryModelRegistry.update_eq_error (Prod.ext h rfl)
    · exact fun s r h => .update hQ (Prod.ext h rfl)
  | recordProbe ctx modelId probe =>
    obtain rfl := Event.spawn.inj ht
    unfold InMemoryModelRegistry.recordProbe
    apply Task.Follows.await
    intro s _
    refine ⟨.idle, .same (by simp) rfl, ?_⟩
    cases InMemoryModelRegistry.get ctx modelId s with
    | none => rintro r ⟨⟩
    | some current =>
      apply Task.Follows.await
      intro s _
      cases h : (InMemoryModelRegistry.update parse ctx modelId
          (InMemoryModelRegistry.probePatch probe s.clock) s).1 with
      | error e =>
        refine ⟨.idle, .same (by simp) ?_, ?_⟩
        · exact InMemoryModelRegistry.update_eq_error (Prod.ext h rfl)
        · rintro r ⟨⟩
      | ok updated =>
        dsimp only
        cases hresolved : probe.resolvedModelId.filter (· ≠ []) with
        | none =>
          refine ⟨.wrote updated, .probe hQ hresolved (Prod.ext h rfl), ?_⟩
          rintro r ⟨⟩
          rfl
        | some resolved =>
          refine ⟨_, .resolving hQ hresolved (Prod.ext h rfl), ?_⟩
          apply Task.Follows.await_self
          intro s _
          refine ⟨_, .resolve rfl, ?_⟩
          rintro r ⟨⟩
          rfl
  | resume i => cases ht
  | tick now => cases ht

end

/-! ## Revisions -/

/-- Revisions that are numbered from one on, of which only the last is current. -/
structure History (rs : List RegisteredModel) : Prop where
  nonempty : rs ≠ []
  numbered : rs.map (·.revision) = List.range' 1 rs.length
  superseded : ∀ r ∈ rs.dropLast, r.supersededAt ≠ none
  current : ∀ r ∈ rs.getLast?, r.supersededAt = none

namespace History

variable {rs : List RegisteredModel} {r cur w : RegisteredModel}

/-- A list of revisions by its last one. -/
theorem concat_iff : History (rs ++ [r]) ↔
    rs.map (·.revision) = List.range' 1 rs.length ∧ (∀ r' ∈ rs, r'.supersededAt ≠ none) ∧
      r.revision = rs.length + 1 ∧ r.supersededAt = none := by
  have hnumbered : (rs ++ [r]).map (·.revision) = List.range' 1 (rs ++ [r]).length ↔
      rs.map (·.revision) = List.range' 1 rs.length ∧ r.revision = rs.length + 1 := by
    rw [List.map_append, List.length_append, List.length_singleton, List.range'_1_concat,
      List.map_singleton, Nat.add_comm 1]
    constructor
    · intro h
      obtain ⟨hold, hnew⟩ := List.append_inj h (by simp)
      exact ⟨hold, List.singleton_inj.mp hnew⟩
    · rintro ⟨hold, hnew⟩
      rw [hold, hnew]
  constructor
  · intro h
    obtain ⟨hold, hnew⟩ := hnumbered.mp h.numbered
    refine ⟨hold, fun r' hr' => h.superseded r' ?_, hnew, h.current r ?_⟩
    · rw [List.dropLast_concat]
      exact hr'
    · exact List.getLast?_concat
  · rintro ⟨hold, hsuperseded, hnew, hcurrent⟩
    refine ⟨by simp, hnumbered.mpr ⟨hold, hnew⟩, fun r' hr' => hsuperseded r' ?_, fun r' hr' => ?_⟩
    · rw [List.dropLast_concat] at hr'
      exact hr'
    · rw [List.getLast?_concat] at hr'
      obtain rfl := Option.some.inj hr'
      exact hcurrent

/-- The first revision. -/
theorem single (hrevision : r.revision = 1) (hcurrent : r.supersededAt = none) : History [r] :=
  concat_iff.mpr ⟨rfl, List.forall_mem_nil _, hrevision, hcurrent⟩

/-- The number of the last revision is how many there are. -/
theorem revision_eq (h : History rs) (hlast : rs.getLast? = some cur) :
    cur.revision = rs.length := by
  obtain ⟨ys, rfl⟩ := List.getLast?_eq_some_iff.mp hlast
  obtain ⟨-, -, hrevision, -⟩ := concat_iff.mp h
  rw [hrevision, List.length_append, List.length_singleton]

/-- No two revisions have one number. -/
theorem nodup (h : History rs) : (rs.map (·.revision)).Nodup := by
  rw [h.numbered]
  exact List.nodup_range'

/-- A revision is found by its number. -/
theorem find (h : History rs) (hr : r ∈ rs) : rs.find? (·.revision = r.revision) = some r := by
  cases hfind : rs.find? (·.revision = r.revision) with
  | none =>
    have hne := List.find?_eq_none.mp hfind r hr
    simp at hne
  | some r' =>
    have hrevision : r'.revision = r.revision := by simpa using List.find?_some hfind
    have hinj := List.inj_on_of_nodup_map h.nodup
    rw [hinj (List.mem_of_find?_eq_some hfind) hr hrevision]

/-- **Another revision.** -/
theorem update (h : History rs) (hlast : rs.getLast? = some cur) {t : TimeValue}
    (hrevision : r.revision = cur.revision + 1) (hcurrent : r.supersededAt = none) :
    History (rs.dropLast ++ [{ cur with supersededAt := some t }, r]) := by
  obtain ⟨ys, rfl⟩ := List.getLast?_eq_some_iff.mp hlast
  obtain ⟨hold, hsuperseded, hcur, -⟩ := concat_iff.mp h
  rw [List.dropLast_concat,
    show ys ++ [{ cur with supersededAt := some t }, r] =
      ys ++ [{ cur with supersededAt := some t }] ++ [r] by simp]
  refine concat_iff.mpr ⟨?_, ?_, ?_, hcurrent⟩
  · rw [List.map_append, List.length_append, List.length_singleton, List.range'_1_concat, hold,
      List.map_singleton, Nat.add_comm 1, ← hcur]
  · intro r' hr'
    rcases List.mem_append.mp hr' with hr' | hr'
    · exact hsuperseded r' hr'
    · obtain rfl := List.mem_singleton.mp hr'
      exact Option.some_ne_none t
  · rw [hrevision, hcur, List.length_append, List.length_singleton]

/-- **The last revision is written once more.** -/
theorem resolve (h : History rs) (hlast : rs.getLast? = some cur)
    (hrevision : w.revision = cur.revision) (hcurrent : w.supersededAt = none) :
    History (rs.dropLast ++ [w]) := by
  obtain ⟨ys, rfl⟩ := List.getLast?_eq_some_iff.mp hlast
  obtain ⟨hold, hsuperseded, hcur, -⟩ := concat_iff.mp h
  rw [List.dropLast_concat]
  exact concat_iff.mpr ⟨hold, hsuperseded, hrevision.trans hcur, hcurrent⟩

end History

end AgentEval.Models
