import AgentEval.Models.Script

/-!
# The registry is append-only

Every revision that a call has returned can be read under its number, the numbers of the revisions
of a model are those from one on, and only the last revision is current. An update keeps all that. A
probe that has updated a model waits before it writes the identifier of the provider, and writes it
over the last revision, whichever that is then.

* **`append_only`**: this holds in every run in which such a write finds the revision of its probe
  last.
* **`revision_lost`**: an update comes between, and its revision is gone.
-/

namespace AgentEval.Models

open Js Store Api Async

/-! ## What holds throughout -/

/-- The key a revision is stored under. -/
def RegisteredModel.key (r : RegisteredModel) : JsString :=
  InMemoryModelRegistry.key r.tenantId r.modelId

/-- A revision without the stamp that supersedes it. -/
def RegisteredModel.unstamped (r : RegisteredModel) : RegisteredModel :=
  { r with supersededAt := none }

/-- The revision that a call has written. -/
def ModelPhase.target : ModelPhase → Option RegisteredModel
  | .idle => none
  | .resolving _ _ w => some w
  | .wrote r => some r

/-- The revisions are numbered and stored under their keys, those that were returned are there, and no
two calls have written one revision. -/
structure Kept (phases : List ModelPhase) (s : ModelStore) : Prop where
  keyed : ∀ k rs, s.models.lookup k = some rs → ∀ r ∈ rs, r.key = k
  history : ∀ k rs, s.models.lookup k = some rs → History rs
  kept : ∀ r, .wrote r ∈ phases →
    ∃ rs, s.models.lookup r.key = some rs ∧ ∃ r' ∈ rs, r'.unstamped = r.unstamped
  pending : ∀ t m w, .resolving t m w ∈ phases → w.supersededAt = none ∧
    InMemoryModelRegistry.key t m = w.key ∧
    ∃ rs, s.models.lookup w.key = some rs ∧ w.revision ≤ rs.length
  once : ∀ (i j : ℕ) (p q : ModelPhase) (r r' : RegisteredModel), phases[i]? = some p →
    phases[j]? = some q → p.target = some r → q.target = some r' → r.key = r'.key →
    r.revision = r'.revision → i = j

section kept

variable {phases : List ModelPhase} {s : ModelStore} {i : ℕ} {phase phase' : ModelPhase}
  {r r' w cur : RegisteredModel} {rs rs' : List RegisteredModel} {k : JsString}

/-- The number of a revision is at most how many there are. -/
theorem History.revision_le (h : History rs) (hr : r ∈ rs) : r.revision ≤ rs.length := by
  have hmem : r.revision ∈ rs.map (·.revision) := List.mem_map_of_mem hr
  rw [h.numbered, List.mem_range'_1] at hmem
  omega

/-- A revision that was written is below the last number. -/
theorem Kept.target_le (h : Kept phases s) (hp : phase ∈ phases) (hr : phase.target = some r)
    (hlookup : s.models.lookup r.key = some rs) : r.revision ≤ rs.length := by
  cases phase with
  | idle => cases hr
  | resolving t m w =>
    obtain rfl := Option.some.inj hr
    obtain ⟨-, -, rs', hlookup', hle⟩ := h.pending t m w hp
    obtain rfl := Option.some.inj (hlookup.symm.trans hlookup')
    exact hle
  | wrote r₀ =>
    obtain rfl := Option.some.inj hr
    obtain ⟨rs', hlookup', r', hr', hsame⟩ := h.kept r₀ hp
    obtain rfl := Option.some.inj (hlookup.symm.trans hlookup')
    have hrevision : r'.revision = r₀.revision := congrArg (·.revision) hsame
    exact hrevision ▸ (h.history _ _ hlookup).revision_le hr'

/-- The model of a revision that was written is there. -/
theorem Kept.exists_lookup (h : Kept phases s) (hp : phase ∈ phases)
    (hr : phase.target = some r) : ∃ rs, s.models.lookup r.key = some rs := by
  cases phase with
  | idle => cases hr
  | resolving t m w =>
    obtain rfl := Option.some.inj hr
    obtain ⟨-, -, rs, hlookup, -⟩ := h.pending t m w hp
    exact ⟨rs, hlookup⟩
  | wrote r₀ =>
    obtain rfl := Option.some.inj hr
    obtain ⟨rs, hlookup, -⟩ := h.kept r₀ hp
    exact ⟨rs, hlookup⟩

/-- A new call has written nothing. -/
theorem Kept.spawn (h : Kept phases s) : Kept (phases ++ [.idle]) s := by
  refine ⟨h.keyed, h.history, fun r hr => h.kept r ?_, fun t m w hw => h.pending t m w ?_, ?_⟩
  · simpa using hr
  · simpa using hw
  · intro i j p q r r' hi hj hp hq
    have hold : ∀ (l : ℕ) (ph : ModelPhase) (r : RegisteredModel),
        (phases ++ [.idle])[l]? = some ph → ph.target = some r → phases[l]? = some ph := by
      intro l ph r hl htarget
      rcases getElem?_concat_cases hl with hl | rfl
      · exact hl
      · cases htarget
    exact h.once i j p q r r' (hold i p r hi hp) (hold j q r' hj hq) hp hq

/-- **The rule for a write**: new revisions of a model, with those that were returned, and one that
no other call has written. -/
theorem Kept.write (h : Kept phases s) (hkeyed : ∀ r ∈ rs', r.key = k) (hhistory : History rs')
    (hold : ∀ (j : ℕ) (r₀ : RegisteredModel), j ≠ i → phases[j]? = some (.wrote r₀) → r₀.key = k →
      ∃ r' ∈ rs', r'.unstamped = r₀.unstamped)
    (hgrows : ∀ rs, s.models.lookup k = some rs → rs.length ≤ rs'.length)
    (htarget : phase'.target = some w) (hkey : w.key = k) (hle : w.revision ≤ rs'.length)
    (hwrote : ∀ r, phase' = .wrote r → r ∈ rs')
    (hresolving : ∀ t m w', phase' = .resolving t m w' → w'.supersededAt = none ∧
      InMemoryModelRegistry.key t m = w'.key)
    (hfresh : ∀ (j : ℕ) (q : ModelPhase) (r : RegisteredModel), j ≠ i → phases[j]? = some q →
      q.target = some r → r.key = k → r.revision ≠ w.revision) :
    Kept (phases.set i phase') { s with models := setProp s.models (k, rs') } := by
  refine ⟨?_, ?_, ?_, ?_, ?_⟩
  · intro k' rs hlookup
    rw [lookup_setProp] at hlookup
    split_ifs at hlookup with hk
    · obtain rfl := Option.some.inj hlookup
      exact hk ▸ hkeyed
    · exact h.keyed k' rs hlookup
  · intro k' rs hlookup
    rw [lookup_setProp] at hlookup
    split_ifs at hlookup with hk
    · obtain rfl := Option.some.inj hlookup
      exact hhistory
    · exact h.history k' rs hlookup
  · intro r hr
    obtain ⟨j, hj⟩ := List.getElem?_of_mem hr
    rw [lookup_setProp]
    rcases getElem?_set_cases hj with ⟨-, heq⟩ | ⟨hne, hj'⟩
    · have hrkey : r.key = k := by
        rw [← heq] at htarget
        obtain rfl := Option.some.inj htarget
        exact hkey
      rw [if_pos hrkey]
      exact ⟨rs', rfl, r, hwrote r heq.symm, rfl⟩
    · split_ifs with hk
      · exact ⟨rs', rfl, hold j r (Ne.symm hne) hj' hk⟩
      · exact h.kept r (List.mem_of_getElem? hj')
  · intro t m w' hw'
    rw [lookup_setProp]
    rcases List.mem_or_eq_of_mem_set hw' with hold' | heq
    · obtain ⟨hcurrent, hkey', rs, hlookup, hle'⟩ := h.pending t m w' hold'
      refine ⟨hcurrent, hkey', ?_⟩
      split_ifs with hk
      · have hmodel : w'.key = k := hk
        rw [hmodel] at hlookup
        exact ⟨rs', rfl, hle'.trans (hgrows rs hlookup)⟩
      · exact ⟨rs, hlookup, hle'⟩
    · obtain ⟨hcurrent, hkey'⟩ := hresolving t m w' heq.symm
      rw [← heq] at htarget
      obtain rfl := Option.some.inj htarget
      rw [if_pos hkey]
      exact ⟨hcurrent, hkey', rs', rfl, hle⟩
  · intro a b p q r r' ha hb hp hq hkeys hrevisions
    rcases getElem?_set_cases ha with ⟨hia, rfl⟩ | ⟨hia, ha'⟩
    · rcases getElem?_set_cases hb with ⟨hib, -⟩ | ⟨hib, hb'⟩
      · exact hia.symm.trans hib
      · obtain rfl := Option.some.inj (htarget.symm.trans hp)
        exact absurd hrevisions.symm
          (hfresh b q r' (Ne.symm hib) hb' hq (hkeys.symm.trans hkey))
    · rcases getElem?_set_cases hb with ⟨hib, rfl⟩ | ⟨hib, hb'⟩
      · obtain rfl := Option.some.inj (htarget.symm.trans hq)
        exact absurd hrevisions (hfresh a p r (Ne.symm hia) ha' hp (hkeys.trans hkey))
      · exact h.once a b p q r r' ha' hb' hp hq hkeys hrevisions

variable {parse : UrlParser} {ctx : TenantContext} {modelId : JsString}
  {input : RegisterModelInput} {patch : ModelPatch} {s' : ModelStore}

/-- A registration. -/
theorem Kept.register (h : Kept phases s)
    (hregister : InMemoryModelRegistry.register parse ctx input s = (.ok r, s')) :
    Kept (phases.set i (.wrote r)) s' := by
  obtain ⟨-, hnew, hr, rfl⟩ := InMemoryModelRegistry.register_eq_ok hregister
  have hkey : r.key = InMemoryModelRegistry.key ctx.tenantId input.modelId := by
    rw [hr]
    rfl
  have hnone := lookup_eq_none_iff.mpr hnew
  have hnobody : ∀ (j : ℕ) (q : ModelPhase) (r₀ : RegisteredModel), phases[j]? = some q →
      q.target = some r₀ → r₀.key ≠ InMemoryModelRegistry.key ctx.tenantId input.modelId := by
    intro j q r₀ hj hq hk
    obtain ⟨rs, hlookup⟩ := h.exists_lookup (List.mem_of_getElem? hj) hq
    rw [hk, hnone] at hlookup
    cases hlookup
  refine h.write (w := r) ?_ ?_ ?_ ?_ rfl hkey ?_ ?_ ?_ ?_
  · intro r' hr'
    obtain rfl := List.mem_singleton.mp hr'
    exact hkey
  · apply History.single
    · rw [hr]
      rfl
    · rw [hr]
      rfl
  · exact fun j r₀ _ hj hk => absurd hk (hnobody j _ r₀ hj rfl)
  · intro rs hlookup
    rw [hnone] at hlookup
    cases hlookup
  · rw [hr]
    rfl
  · rintro r' ⟨⟩
    exact List.mem_singleton_self r
  · rintro t m w ⟨⟩
  · exact fun j q r₀ _ hj hq hk => absurd hk (hnobody j q r₀ hj hq)

/-- The revisions of a model that is found. -/
theorem lookup_of_get (hget : InMemoryModelRegistry.get ctx modelId s = some cur) :
    ∃ rs, s.models.lookup (InMemoryModelRegistry.key ctx.tenantId modelId) = some rs ∧
      InMemoryModelRegistry.revisions ctx modelId s = rs ∧ rs.getLast? = some cur := by
  unfold InMemoryModelRegistry.get InMemoryModelRegistry.revisions at hget
  unfold InMemoryModelRegistry.revisions
  cases hlookup : s.models.lookup (InMemoryModelRegistry.key ctx.tenantId modelId) with
  | none =>
    rw [hlookup] at hget
    cases hget
  | some rs =>
    rw [hlookup] at hget
    exact ⟨rs, rfl, rfl, hget⟩

/-- An update, by a call that returns its revision or will write it once more. -/
theorem Kept.update (h : Kept phases s)
    (hupdate : InMemoryModelRegistry.update parse ctx modelId patch s = (.ok r, s'))
    (htarget : phase'.target = some w) (hw : w.key = r.key ∧ w.revision = r.revision)
    (hwrote : ∀ r', phase' = .wrote r' → r' = r)
    (hresolving : ∀ t m w', phase' = .resolving t m w' → w'.supersededAt = none ∧
      t = ctx.tenantId ∧ m = modelId ∧ w'.key = r.key) :
    Kept (phases.set i phase') s' := by
  obtain ⟨cur, hget, -, hr, rfl⟩ := InMemoryModelRegistry.update_eq_ok hupdate
  obtain ⟨rs, hlookup, hrs, hlast⟩ := lookup_of_get hget
  have hhistory := h.history _ rs hlookup
  have hcur : cur.key = InMemoryModelRegistry.key ctx.tenantId modelId :=
    h.keyed _ rs hlookup cur (List.mem_of_getLast? hlast)
  have hkey : r.key = InMemoryModelRegistry.key ctx.tenantId modelId := by
    rw [hr]
    exact hcur
  have hrevision : r.revision = rs.length + 1 := by
    rw [← hhistory.revision_eq hlast, hr]
    rfl
  have hlength : (rs.dropLast ++ [{ cur with supersededAt := some s.clock }, r]).length =
      rs.length + 1 := by
    have hpos := List.length_pos_of_ne_nil hhistory.nonempty
    rw [List.length_append, List.length_dropLast, List.length_cons, List.length_singleton]
    omega
  rw [hrs]
  refine h.write (w := w) ?_ ?_ ?_ ?_ htarget (hw.1.trans hkey) ?_ ?_ ?_ ?_
  · intro r' hr'
    rcases List.mem_append.mp hr' with hr' | hr'
    · exact h.keyed _ rs hlookup r' (List.dropLast_subset _ hr')
    · rcases List.mem_cons.mp hr' with rfl | hr'
      · exact hcur
      · obtain rfl := List.mem_singleton.mp hr'
        exact hkey
  · apply hhistory.update hlast
    · rw [hr]
      rfl
    · rw [hr]
      rfl
  · intro j r₀ _ hj hk
    obtain ⟨rs₀, hlookup₀, r', hr', hsame⟩ := h.kept r₀ (List.mem_of_getElem? hj)
    rw [hk] at hlookup₀
    obtain rfl := Option.some.inj (hlookup.symm.trans hlookup₀)
    obtain ⟨ys, rfl⟩ := List.getLast?_eq_some_iff.mp hlast
    rw [List.dropLast_concat]
    rcases List.mem_append.mp hr' with hr' | hr'
    · exact ⟨r', List.mem_append_left _ hr', hsame⟩
    · -- the last revision has a stamp now
      obtain rfl := List.mem_singleton.mp hr'
      exact ⟨_, List.mem_append_right _ (List.mem_cons_self ..), hsame⟩
  · intro rs₀ hlookup₀
    obtain rfl := Option.some.inj (hlookup.symm.trans hlookup₀)
    rw [hlength]
    exact Nat.le_succ _
  · rw [hw.2, hrevision, hlength]
  · intro r' hr'
    rw [hwrote r' hr']
    simp
  · intro t m w' hw'
    obtain ⟨hcurrent, rfl, rfl, hwkey⟩ := hresolving t m w' hw'
    exact ⟨hcurrent, hkey.symm.trans hwkey.symm⟩
  · intro j q r₀ _ hj hq hk
    have hle := h.target_le (List.mem_of_getElem? hj) hq (hk ▸ hlookup)
    rw [hw.2, hrevision]
    exact (Nat.lt_succ_of_le hle).ne

/-- The identifier is written over the revision of the probe. -/
theorem Kept.resolve (h : Kept phases s)
    (hi : phases[i]? = some (.resolving ctx.tenantId modelId w))
    (hget : InMemoryModelRegistry.get ctx modelId s = some cur)
    (hlast : cur.revision = w.revision) :
    Kept (phases.set i (.wrote w)) (InMemoryModelRegistry.writeResolved ctx modelId w s) := by
  obtain ⟨hcurrent, hkey, -⟩ := h.pending _ _ _ (List.mem_of_getElem? hi)
  obtain ⟨rs, hlookup, hrs, hgetLast⟩ := lookup_of_get hget
  have hhistory := h.history _ rs hlookup
  have hlength : (rs.dropLast ++ [w]).length = rs.length := by
    have hpos := List.length_pos_of_ne_nil hhistory.nonempty
    rw [List.length_append, List.length_dropLast, List.length_singleton]
    omega
  have hnobody : ∀ (j : ℕ) (q : ModelPhase) (r₀ : RegisteredModel), j ≠ i →
      phases[j]? = some q → q.target = some r₀ →
      r₀.key = InMemoryModelRegistry.key ctx.tenantId modelId → r₀.revision ≠ w.revision := by
    intro j q r₀ hji hj hq hk hrevision
    exact hji (h.once j i q _ r₀ w hj hi hq rfl (hk.trans hkey) hrevision)
  unfold InMemoryModelRegistry.writeResolved
  rw [hrs]
  refine h.write (w := w) ?_ (hhistory.resolve hgetLast hlast.symm hcurrent) ?_ ?_ rfl hkey.symm
    ?_ ?_ ?_ hnobody
  · intro r' hr'
    rcases List.mem_append.mp hr' with hr' | hr'
    · exact h.keyed _ rs hlookup r' (List.dropLast_subset _ hr')
    · obtain rfl := List.mem_singleton.mp hr'
      exact hkey.symm
  · intro j r₀ hji hj hk
    obtain ⟨rs₀, hlookup₀, r', hr', hsame⟩ := h.kept r₀ (List.mem_of_getElem? hj)
    rw [hk] at hlookup₀
    obtain rfl := Option.some.inj (hlookup.symm.trans hlookup₀)
    obtain ⟨ys, rfl⟩ := List.getLast?_eq_some_iff.mp hgetLast
    rw [List.dropLast_concat]
    rcases List.mem_append.mp hr' with hr' | hr'
    · exact ⟨r', List.mem_append_left _ hr', hsame⟩
    · -- nobody else was given the last revision
      obtain rfl := List.mem_singleton.mp hr'
      have hrevision : r'.revision = r₀.revision := congrArg (·.revision) hsame
      exact absurd (hrevision.symm.trans hlast) (hnobody j _ r₀ hji hj rfl hk)
  · intro rs₀ hlookup₀
    obtain rfl := Option.some.inj (hlookup.symm.trans hlookup₀)
    exact hlength.ge
  · rw [hlength, ← hlast, hhistory.revision_eq hgetLast]
  · rintro r' ⟨⟩
    simp
  · rintro t m w' ⟨⟩

/-- **What an operation keeps** that finds the revision of its probe last. -/
theorem Kept.operation {Q : ModelEvent → Prop} (h : Kept phases s) {point : ModelPoint}
    {update : ModelStore → ModelStore} (hi : phases[i]? = some phase)
    (hop : ModelOp parse Q phase point update s phase')
    (hlast : ∀ t m w, point = .probeResolve t m w → ∃ rs cur,
      s.models.lookup (InMemoryModelRegistry.key t m) = some rs ∧ rs.getLast? = some cur ∧
        cur.revision = w.revision) :
    Kept (phases.set i phase') (update s) := by
  cases hop with
  | same hpoint hupdate =>
    rw [set_self hi, hupdate]
    exact h
  | register hQ hregister => exact h.register hregister
  | update hQ hupdate =>
    refine h.update hupdate rfl ⟨rfl, rfl⟩ ?_ ?_
    · rintro r' ⟨⟩
      rfl
    · rintro t m w ⟨⟩
  | probe hQ hresolved hupdate =>
    refine h.update hupdate rfl ⟨rfl, rfl⟩ ?_ ?_
    · rintro r' ⟨⟩
      rfl
    · rintro t m w ⟨⟩
  | resolving hQ hresolved hupdate =>
    refine h.update hupdate rfl ⟨rfl, rfl⟩ ?_ ?_
    · rintro r' ⟨⟩
    · rintro t m w ⟨⟩
      refine ⟨?_, rfl, rfl, rfl⟩
      obtain ⟨cur, -, -, hr, -⟩ := InMemoryModelRegistry.update_eq_ok hupdate
      rw [hr]
      rfl
  | @resolve ctx modelId w update _ hupdate =>
    obtain ⟨rs, cur, hlookup, hgetLast, hrevision⟩ := hlast _ _ _ rfl
    rw [hupdate]
    refine h.resolve hi ?_ hrevision
    unfold InMemoryModelRegistry.get InMemoryModelRegistry.revisions
    rw [hlookup]
    exact hgetLast

end kept

/-! ## Every run -/

namespace ModelServer

/-- **The condition on a step**: where a probe writes the identifier, the revision it has made is
still the last one. -/
def ResolvesLast (server : ModelServer) : ModelEvent → Prop
  | .resume i => ∀ task t m w, server.tasks[i]? = some task →
      task.point = some (.probeResolve t m w) → ∃ rs cur,
        server.shared.models.lookup (InMemoryModelRegistry.key t m) = some rs ∧
          rs.getLast? = some cur ∧ cur.revision = w.revision
  | _ => True

variable {parse : UrlParser} {server : ModelServer}

/-- The calls follow the script, and what they have written is kept. -/
def Keeps (parse : UrlParser) (server : ModelServer) : Prop :=
  ∃ phases, Pool.Follows (fun _ => True) (ModelOp parse fun _ => True) Answered phases server ∧
    Kept phases server.shared

/-- What a step keeps. -/
theorem Keeps.step (h : server.Keeps parse) {e : ModelEvent} (he : server.ResolvesLast e) :
    (server.step parse e).Keeps parse := by
  obtain ⟨phases, hfollows, hkept⟩ := h
  apply Pool.Follows.step hfollows hkept fun _ _ => trivial
  · intro i phase phase' point update next hevent ht hi hop _
    apply hkept.operation hi hop
    rintro t m w rfl
    cases e with
    | resume j =>
      obtain rfl := Event.resume.inj hevent
      exact he _ t m w ht rfl
    | register ctx input => cases hevent
    | update ctx modelId patch => cases hevent
    | recordProbe ctx modelId probe => cases hevent
    | tick now => cases hevent
  · exact fun t ht => ⟨.idle, ModelEvent.follows trivial ht, hkept.spawn⟩
  · intro update hupdate
    cases e with
    | tick now =>
      obtain rfl := Event.other.inj hupdate
      exact ⟨hkept.keyed, hkept.history, hkept.kept, hkept.pending, hkept.once⟩
    | register ctx input => cases hupdate
    | update ctx modelId patch => cases hupdate
    | recordProbe ctx modelId probe => cases hupdate
    | resume i => cases hupdate

/-- An empty registry keeps what was written. -/
theorem keeps_start (clock : TimeValue) : (start clock).Keeps parse := by
  refine ⟨[], .nil, ?_, ?_, ?_, ?_, ?_⟩
  · rintro k rs ⟨⟩
  · rintro k rs ⟨⟩
  · exact fun r hr => absurd hr List.not_mem_nil
  · exact fun t m w hw => absurd hw List.not_mem_nil
  · intro i j p q r r' hi
    cases hi

end ModelServer

/-- **The registry is append-only** in a run in which each write of an identifier finds the revision
of its probe last: what a call has returned is read under its number, but for the stamp; the
revisions of a model are numbered from one on; and the last one alone is not superseded. -/
theorem append_only (parse : UrlParser) (clock : TimeValue) (events : List ModelEvent)
    (hevents : ∀ past e later, events = past ++ e :: later →
      ((ModelServer.start clock).run parse past).ResolvesLast e) :
    (∀ (i : ℕ) (r : RegisteredModel),
        ((ModelServer.start clock).run parse events).tasks[i]? = some (.done (.ok r)) →
        ∀ ctx : TenantContext, ctx.tenantId = r.tenantId →
          ∃ r', InMemoryModelRegistry.getRevision ctx r.modelId r.revision
            ((ModelServer.start clock).run parse events).shared = some r' ∧
              r'.unstamped = r.unstamped) ∧
      ∀ k rs, ((ModelServer.start clock).run parse events).shared.models.lookup k = some rs →
        History rs := by
  obtain ⟨phases, hfollows, h⟩ : ((ModelServer.start clock).run parse events).Keeps parse :=
    run_keeps (fun _ _ hkeeps he => hkeeps.step he) (ModelServer.keeps_start clock) hevents
  refine ⟨fun i r hi ctx hctx => ?_, h.history⟩
  obtain ⟨phase, hphase, hanswered⟩ := hfollows.getElem? hi
  obtain rfl := hanswered r rfl
  obtain ⟨rs, hlookup, r', hr', hsame⟩ := h.kept r (List.mem_of_getElem? hphase)
  have hrevision : r'.revision = r.revision := congrArg (·.revision) hsame
  refine ⟨r', ?_, hsame⟩
  unfold InMemoryModelRegistry.getRevision InMemoryModelRegistry.revisions
  have hmodel : ((ModelServer.start clock).run parse events).shared.models.lookup
      (InMemoryModelRegistry.key ctx.tenantId r.modelId) = some rs := by
    rw [hctx]
    exact hlookup
  rw [hmodel, ← hrevision]
  exact (h.history _ rs hlookup).find hr'

/-! ## A probe and an update -/

section examples

/-- A model of a vendor. -/
def cloudModel : RegisterModelInput where
  modelId := js "gpt"
  displayName := js "GPT"
  provider := js "openai"
  deploymentType := .cloudApi
  modelIdentifier := js "gpt-4o"
  baseUrl := none
  credentialId := none
  capabilities := none
  contextWindow := none
  maxOutputTokens := none
  pricing := none
  metadata := none

/-- The tenant of that model. -/
def owner : TenantContext := ⟨js "t", js "u", []⟩

/-- What a probe reports. -/
def aliasProbe : Probe := ⟨some (js "gpt-4o-2024"), ⟨fun _ => none, none, none, none⟩, none⟩

/-- The start of the clock. -/
def midnight : TimeValue := ⟨0, TimeValue.zero_inRange⟩

/-- The model is registered, and a probe has updated it. -/
def probedEvents : List ModelEvent :=
  [.register owner cloudModel, .resume 0, .recordProbe owner (js "gpt") aliasProbe, .resume 1,
    .resume 1]

/-- The model is renamed. -/
def renamed : ModelPatch := { displayName := some (js "Renamed") }

/-- A probe that is recorded before anything else happens. -/
theorem append_only_probe : ∃ r, InMemoryModelRegistry.getRevision owner (js "gpt") 2
    ((ModelServer.start midnight).run (fun _ => none) (probedEvents ++ [.resume 1])).shared =
      some r := by
  refine ⟨_, ((append_only (fun _ => none) midnight (probedEvents ++ [.resume 1]) ?_).1 1 _ rfl
    owner rfl).choose_spec.1⟩
  refine forall_steps_cons trivial (forall_steps_cons ?_ (forall_steps_cons trivial
    (forall_steps_cons ?_ (forall_steps_cons ?_ (forall_steps_cons ?_
      fun _ _ _ h => absurd h (by simp))))))
  · rintro _ _ _ _ ⟨⟩ ⟨⟩
  · rintro _ _ _ _ ⟨⟩ ⟨⟩
  · rintro _ _ _ _ ⟨⟩ ⟨⟩
  · rintro _ _ _ _ ⟨⟩ ⟨⟩
    exact ⟨_, _, rfl, rfl, rfl⟩

/-- **A revision is lost**: the update returns the third revision of the model, and the probe writes
its own over it. -/
theorem revision_lost :
    ∃ r, ((ModelServer.start midnight).run (fun _ => none)
        (probedEvents ++ [.update owner (js "gpt") renamed, .resume 2, .resume 1])).tasks[2]? =
          some (.done (.ok r)) ∧ r.revision = 3 ∧
      InMemoryModelRegistry.getRevision owner (js "gpt") 3
        ((ModelServer.start midnight).run (fun _ => none)
          (probedEvents ++ [.update owner (js "gpt") renamed, .resume 2, .resume 1])).shared =
            none :=
  ⟨_, rfl, rfl, rfl⟩

end examples

end AgentEval.Models
