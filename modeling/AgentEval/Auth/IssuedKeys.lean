import AgentEval.Auth.ApiKeys
import AgentEval.Crypto.Collision

/-!
# Keys over whole runs

A key is accepted from its creation until it is revoked or expires, and then it says what was fixed
when it was created. A caller that was accepted by a key creates keys of the same tenant, with no scope
that the first key has not.

* **`issued_keys`**: in every run in which the clock does not go back, no two keys draw one secret, and
  the digests of the secrets in the run have no collision.
-/

namespace AgentEval.Auth

open Js Store Api Async Evidence Sha256 Crypto

/-! ## The script -/

/-- What a request has done. -/
inductive KeyPhase where
  /-- Nothing. -/
  | idle
  /-- Its key was accepted. -/
  | allowed (ctx : TenantContext)
  /-- It has created a key. -/
  | created (key : ApiKeyPublic) (secret : JsString)
  /-- It has revoked a key. -/
  | revoked (key : ApiKeyPublic)

/-- Whether a request has still something to do. -/
def KeyPhase.isOpen : KeyPhase → Bool
  | idle => true
  | allowed _ => true
  | created _ _ => false
  | revoked _ => false

/-- The context a request acts in: that of its key, or that of another token. -/
def KeyPhase.Acts (req : KeyRequest) (ctx : TenantContext) (phase : KeyPhase) : Prop :=
  phase = .allowed ctx ∨ phase = .idle ∧ req.presented = none

/-- The script of a request. -/
inductive KeyOp (call : KeyEvent) : KeyPhase → KeyPoint → (KeyStore → KeyStore) → KeyStore →
    KeyPhase → Prop where
  /-- Nothing is written. -/
  | same {phase point update s} (hopen : phase.isOpen = true) (h : update s = s) :
      KeyOp call phase point update s phase
  /-- A key is accepted. -/
  | authenticate {req secret record update s} (hcall : call = .request req)
      (hsecret : req.presented = some secret)
      (h : (InMemoryApiKeyStore.authenticate secret s).1 = .ok record)
      (hupdate : update s = (InMemoryApiKeyStore.authenticate secret s).2) :
      KeyOp call .idle .authenticate update s
        (.allowed ⟨record.tenantId, js "apikey:" ++ record.id, record.scopes⟩)
  /-- A key is created. -/
  | create {req body random phase ctx key secret update s} (hcall : call = .request req)
      (hroute : req.route = .create body random) (hctx : phase.Acts req ctx)
      (h : InMemoryApiKeyStore.create random ctx.tenantId ctx.actor body.toCreateApiKeyInput
        ctx.scopes s = (.ok (key, secret), update s)) :
      KeyOp call phase .create update s (.created key secret)
  /-- A key is revoked. -/
  | revoke {phase tenantId id revokedBy key update s} (hopen : phase.isOpen = true)
      (h : InMemoryApiKeyStore.revoke tenantId id revokedBy s = (some key, update s)) :
      KeyOp call phase .revoke update s (.revoked key)

/-- No operation of a request sets the clock. -/
theorem KeyOp.clock {call : KeyEvent} {phase phase' : KeyPhase} {point : KeyPoint}
    {update : KeyStore → KeyStore} {s : KeyStore} (h : KeyOp call phase point update s phase') :
    (update s).clock = s.clock := by
  cases h with
  | same hopen h => rw [h]
  | authenticate hcall hsecret h hupdate =>
    rw [hupdate, InMemoryApiKeyStore.authenticate_state h]
  | create hcall hroute hctx h =>
    obtain ⟨-, -, -, hs'⟩ := InMemoryApiKeyStore.create_eq_ok h
    rw [hs']
  | @revoke _ tenantId id revokedBy key _ _ hopen h =>
    unfold InMemoryApiKeyStore.revoke at h
    cases hfind : (s.keys.lookup id).filter (·.tenantId = tenantId) with
    | none =>
      rw [hfind] at h
      cases h
    | some k =>
      rw [hfind] at h
      rw [← (Prod.mk.inj h).2]

/-- What a request is answered with. -/
def KeyAnswered : KeyPhase → KeyReply → Prop
  | .created key secret, r => r = .created key secret
  | .revoked key, r => r = .revoked (some key)
  | .idle, r => (∀ key secret, r ≠ .created key secret) ∧ ∀ key, r ≠ .revoked (some key)
  | .allowed _, r => (∀ key secret, r ≠ .created key secret) ∧ ∀ key, r ≠ .revoked (some key)

section script

variable {auth : Option JsString → Option TenantContext} {req : KeyRequest} {ctx : TenantContext}
  {phase : KeyPhase} {I : KeyStore → Prop}

/-- A request that acts is open. -/
theorem KeyPhase.Acts.isOpen (h : phase.Acts req ctx) : phase.isOpen = true := by
  rcases h with rfl | ⟨rfl, -⟩
  · rfl
  · rfl

/-- The answer of a request that has written nothing. -/
theorem answered_of_isOpen (hopen : phase.isOpen = true) {r : KeyReply}
    (hcreated : ∀ key secret, r ≠ .created key secret) (hrevoked : ∀ key, r ≠ .revoked (some key)) :
    KeyAnswered phase r := by
  cases phase with
  | idle => exact ⟨hcreated, hrevoked⟩
  | allowed ctx => exact ⟨hcreated, hrevoked⟩
  | created key secret => cases hopen
  | revoked key => cases hopen

/-- A problem. -/
theorem answered_problem (hopen : phase.isOpen = true) (p : Problem) :
    KeyAnswered phase (.problem p) :=
  answered_of_isOpen hopen (by simp) (by simp)

/-- Creating a key follows the script. -/
theorem createKey_follows {body : CreateApiKeyBody} {random : Bytes}
    (hroute : req.route = .create body random) (hctx : phase.Acts req ctx) :
    (createKey ctx body random).Follows I (KeyOp (.request req)) KeyAnswered phase := by
  unfold createKey
  by_cases hscope : js "runs:write" ∉ ctx.scopes
  · rw [if_pos hscope]
    exact answered_problem hctx.isOpen _
  · rw [if_neg hscope]
    by_cases hunknown : (body.scopes.filter fun scope => decide (scope ∉ allScopes)) ≠ []
    · rw [if_pos hunknown]
      exact answered_problem hctx.isOpen _
    · rw [if_neg hunknown]
      apply Task.Follows.await
      intro s _
      cases h : (InMemoryApiKeyStore.create random ctx.tenantId ctx.actor
          body.toCreateApiKeyInput ctx.scopes s).1 with
      | error e =>
        refine ⟨phase, .same hctx.isOpen (InMemoryApiKeyStore.create_eq_error h), ?_⟩
        exact answered_problem hctx.isOpen _
      | ok r => exact ⟨.created r.1 r.2, .create rfl hroute hctx (Prod.ext h rfl), rfl⟩

/-- Revoking a key follows the script. -/
theorem revokeKey_follows {id : JsString} (hopen : phase.isOpen = true) :
    (revokeKey ctx id).Follows I (KeyOp (.request req)) KeyAnswered phase := by
  unfold revokeKey
  by_cases hscope : js "runs:write" ∉ ctx.scopes
  · rw [if_pos hscope]
    exact answered_problem hopen _
  · rw [if_neg hscope]
    apply Task.Follows.await
    intro s _
    refine ⟨phase, .same hopen rfl, ?_⟩
    cases InMemoryApiKeyStore.get ctx.tenantId id s with
    | none => exact answered_problem hopen _
    | some key =>
      dsimp only
      split_ifs
      · exact answered_problem hopen _
      · apply Task.Follows.await
        intro s _
        cases h : (InMemoryApiKeyStore.revoke ctx.tenantId id ctx.actor s).1 with
        | none =>
          refine ⟨phase, .same hopen ?_, answered_of_isOpen hopen (by simp) (by simp)⟩
          unfold InMemoryApiKeyStore.revoke at h ⊢
          cases hfind : (s.keys.lookup id).filter (·.tenantId = ctx.tenantId) with
          | none => rfl
          | some k =>
            rw [hfind] at h
            cases h
        | some key => exact ⟨.revoked key, .revoke hopen (Prod.ext h rfl), rfl⟩

/-- **Every request follows the script.** -/
theorem serve_follows : (serve auth req).Follows I (KeyOp (.request req)) KeyAnswered .idle := by
  have hcaller : (onRequest auth req).Follows I (KeyOp (.request req))
      (fun phase r => phase.isOpen = true ∧ ∀ ctx, r = .ok ctx → phase.Acts req ctx) .idle := by
    unfold onRequest
    cases hpresented : req.presented with
    | none =>
      dsimp only
      cases auth (req.authorization.map stripBearer) with
      | none => exact ⟨rfl, by rintro ctx ⟨⟩⟩
      | some ctx =>
        refine ⟨rfl, ?_⟩
        rintro ctx' ⟨⟩
        exact .inr ⟨rfl, hpresented⟩
    | some secret =>
      apply Task.Follows.await
      intro s _
      cases h : (InMemoryApiKeyStore.authenticate secret s).1 with
      | error reason =>
        refine ⟨.idle, .same rfl (InMemoryApiKeyStore.authenticate_eq_error h), rfl, ?_⟩
        rintro ctx ⟨⟩
      | ok record =>
        refine ⟨_, .authenticate rfl hpresented h rfl, rfl, ?_⟩
        rintro ctx ⟨⟩
        exact .inl rfl
  apply Task.Follows.bind hcaller
  rintro phase r ⟨hopen, hacts⟩
  cases r with
  | error p => exact answered_problem hopen p
  | ok ctx =>
    dsimp only
    unfold handle
    cases hroute : req.route with
    | create body random => exact createKey_follows hroute (hacts ctx rfl)
    | revoke id => exact revokeKey_follows hopen
    | other => exact answered_of_isOpen hopen (by simp) (by simp)

end script

/-! ## What is in the store -/

/-- What a record keeps of the key as it was issued. -/
structure Matches (r : ApiKeyRecord) (key : ApiKeyPublic) (secret : JsString) : Prop where
  id : r.id = key.id
  tenantId : r.tenantId = key.tenantId
  scopes : r.scopes = key.scopes
  expiresAt : r.expiresAt = key.expiresAt
  hashedSecret : r.hashedSecret = hashSecret secret

/-- A key is what its request has asked for. -/
def AsRequested (req : KeyRequest) (key : ApiKeyPublic) (secret : JsString) : Prop :=
  ∃ body random, req.route = .create body random ∧ secret = generateSecret random ∧
    key.expiresAt = body.expiresInDays.map fun d => newDate (key.createdAt.ms + d * 86400000)

/-- The creator of a key, where a request was accepted by a key. -/
def Creator (phases : List (KeyEvent × KeyPhase)) (req : KeyRequest) (tenantId : JsString)
    (scopes : List JsString) (j : ℕ) : Prop :=
  ∃ secret call key issuedSecret, req.presented = some secret ∧
    phases[j]? = some (call, .created key issuedSecret) ∧
    sha256 (utf8 secret) = sha256 (utf8 issuedSecret) ∧ tenantId = key.tenantId ∧
    scopes ⊆ key.scopes

/-- The store holds the keys that were issued, with the revocations. -/
structure Ledger (phases : List (KeyEvent × KeyPhase)) (s : KeyStore) : Prop where
  epoch : 0 ≤ s.clock.ms
  distinct : DistinctKeys s.keys
  ids : ∀ p ∈ s.keys, ∃ (t : ℤ) (c : ℕ), p.1 = js "key_" ++ (toBase36 t ++ toBase36 c) ∧
    0 ≤ t ∧ t ≤ s.clock.ms ∧ c < s.counter
  stored : ∀ p ∈ s.keys, p.2.id = p.1 ∧ ∃ (i : ℕ) (call : KeyEvent) (key : ApiKeyPublic)
    (secret : JsString), phases[i]? = some (call, .created key secret) ∧ Matches p.2 key secret
  created : ∀ (i : ℕ) (call : KeyEvent) (key : ApiKeyPublic) (secret : JsString),
    phases[i]? = some (call, .created key secret) →
      (∃ r, s.keys.lookup key.id = some r ∧ Matches r key secret) ∧
      ∃ req, call = .request req ∧ AsRequested req key secret ∧
        (req.presented ≠ none → ∃ j, j ≠ i ∧ Creator phases req key.tenantId key.scopes j)
  revoked : ∀ p ∈ s.keys, p.2.revokedAt ≠ none ↔ ∃ (j : ℕ) (call : KeyEvent)
    (key : ApiKeyPublic), phases[j]? = some (call, .revoked key) ∧ key.id = p.1
  known : ∀ (j : ℕ) (call : KeyEvent) (key : ApiKeyPublic),
    phases[j]? = some (call, .revoked key) → key.id ∈ s.keys.map Prod.fst
  allowed : ∀ (i : ℕ) (call : KeyEvent) (ctx : TenantContext),
    phases[i]? = some (call, .allowed ctx) →
      ∃ req, call = .request req ∧ ∃ j, Creator phases req ctx.tenantId ctx.scopes j

section ledger

variable {phases : List (KeyEvent × KeyPhase)} {s : KeyStore} {i : ℕ} {call : KeyEvent}
  {phase phase' : KeyPhase} {r r' : ApiKeyRecord} {k : JsString} {req : KeyRequest}
  {tenantId : JsString} {scopes : List JsString} {j : ℕ} {key : ApiKeyPublic} {secret : JsString}

/-- What a request has done is there when another one goes on. -/
theorem getElem?_set_of_isOpen (hi : phases[i]? = some (call, phase)) (hopen : phase.isOpen = true)
    {call' : KeyEvent} {ph : KeyPhase} (hj : phases[j]? = some (call', ph))
    (hclosed : ph.isOpen = false) {x : KeyEvent × KeyPhase} :
    (phases.set i x)[j]? = some (call', ph) ∧ j ≠ i := by
  have hij : i ≠ j := by
    rintro rfl
    rw [hi] at hj
    cases hj
    rw [hopen] at hclosed
    cases hclosed
  rw [List.getElem?_set_ne hij]
  exact ⟨hj, hij.symm⟩

/-- A creator stays one. -/
theorem Creator.set (h : Creator phases req tenantId scopes j)
    (hi : phases[i]? = some (call, phase)) (hopen : phase.isOpen = true)
    {x : KeyEvent × KeyPhase} : Creator (phases.set i x) req tenantId scopes j ∧ j ≠ i := by
  obtain ⟨secret, call', key, issuedSecret, hsecret, hj, hrest⟩ := h
  obtain ⟨hj', hne⟩ := getElem?_set_of_isOpen (x := x) hi hopen hj rfl
  exact ⟨⟨secret, call', key, issuedSecret, hsecret, hj', hrest⟩, hne⟩

/-- **The rule for a record that is written again**, with the same identity. -/
theorem Ledger.rewrite (h : Ledger phases s) (hi : phases[i]? = some (call, phase))
    (hopen : phase.isOpen = true) (hlookup : s.keys.lookup k = some r)
    (hsame : ∀ key secret, Matches r key secret → Matches r' key secret)
    (hnew : ∀ key secret, phase' ≠ .created key secret)
    (hrevoked : r'.revokedAt ≠ none ↔ r.revokedAt ≠ none ∨ ∃ key, phase' = .revoked key)
    (hkey : ∀ key, phase' = .revoked key → key.id = k)
    (hallowed : ∀ ctx, phase' = .allowed ctx → phase = .allowed ctx ∨
      ∃ req, call = .request req ∧ ∃ j, Creator phases req ctx.tenantId ctx.scopes j) :
    Ledger (phases.set i (call, phase')) { s with keys := setProp s.keys (k, r') } := by
  have hmem := mem_of_lookup hlookup
  have hid : r'.id = k := by
    obtain ⟨hid, i', call', key, secret, -, hmatch⟩ := h.stored _ hmem
    exact (hsame _ _ hmatch).id.trans (hmatch.id.symm.trans hid)
  refine ⟨h.epoch, h.distinct.setProp _, fun p hp => ?_, fun p hp => ?_, ?_, fun p hp => ?_, ?_, ?_⟩
  · rcases mem_setProp_cases hp with rfl | ⟨hp, -⟩
    · exact h.ids (k, r) hmem
    · exact h.ids p hp
  · rcases mem_setProp_cases hp with rfl | ⟨hp, -⟩
    · obtain ⟨-, i', call', key, secret, hi', hmatch⟩ := h.stored _ hmem
      exact ⟨hid, i', call', key, secret, (getElem?_set_of_isOpen hi hopen hi' rfl).1,
        hsame _ _ hmatch⟩
    · obtain ⟨hid', i', call', key, secret, hi', hmatch⟩ := h.stored p hp
      exact ⟨hid', i', call', key, secret, (getElem?_set_of_isOpen hi hopen hi' rfl).1, hmatch⟩
  · intro i' call' key secret hi'
    rcases getElem?_set_cases hi' with ⟨-, heq⟩ | ⟨-, hi'⟩
    · exact absurd (Prod.mk.inj heq).2.symm (hnew key secret)
    · obtain ⟨⟨r₀, hlookup₀, hmatch⟩, req, hcall, hrequested, hcreator⟩ := h.created _ _ _ _ hi'
      refine ⟨?_, req, hcall, hrequested, fun hpresented => ?_⟩
      · rw [lookup_setProp]
        split_ifs with hk
        · obtain rfl : r = r₀ := by
            dsimp only at hk
            rw [hk, hlookup] at hlookup₀
            exact Option.some.inj hlookup₀
          exact ⟨r', rfl, hsame _ _ hmatch⟩
        · exact ⟨r₀, hlookup₀, hmatch⟩
      · obtain ⟨j, hj, hcreator⟩ := hcreator hpresented
        exact ⟨j, hj, (hcreator.set hi hopen).1⟩
  · rcases mem_setProp_cases hp with rfl | ⟨hp, hpk⟩
    · rw [hrevoked, h.revoked _ hmem]
      constructor
      · rintro (⟨j, call', key, hj, hkey'⟩ | ⟨key, rfl⟩)
        · exact ⟨j, call', key, (getElem?_set_of_isOpen hi hopen hj rfl).1, hkey'⟩
        · exact ⟨i, call, key, List.getElem?_set_self (List.getElem?_eq_some_iff.mp hi).1,
            hkey key rfl⟩
      · rintro ⟨j, call', key, hj, hkey'⟩
        rcases getElem?_set_cases hj with ⟨-, heq⟩ | ⟨-, hj⟩
        · exact .inr ⟨key, (Prod.mk.inj heq).2.symm⟩
        · exact .inl ⟨j, call', key, hj, hkey'⟩
    · rw [h.revoked p hp]
      constructor
      · rintro ⟨j, call', key, hj, hkey'⟩
        exact ⟨j, call', key, (getElem?_set_of_isOpen hi hopen hj rfl).1, hkey'⟩
      · rintro ⟨j, call', key, hj, hkey'⟩
        rcases getElem?_set_cases hj with ⟨-, heq⟩ | ⟨-, hj⟩
        · exact absurd (hkey'.symm.trans (hkey key (Prod.mk.inj heq).2.symm)) hpk
        · exact ⟨j, call', key, hj, hkey'⟩
  · intro j call' key hj
    rw [mem_keys_setProp]
    rcases getElem?_set_cases hj with ⟨-, heq⟩ | ⟨-, hj⟩
    · exact .inl (hkey key (Prod.mk.inj heq).2.symm)
    · exact .inr (h.known j call' key hj)
  · intro i' call' ctx hi'
    have hset : ∀ {req}, (∃ j, Creator phases req ctx.tenantId ctx.scopes j) →
        ∃ j, Creator (phases.set i (call, phase')) req ctx.tenantId ctx.scopes j := by
      rintro req ⟨j, hj⟩
      exact ⟨j, (hj.set hi hopen).1⟩
    rcases getElem?_set_cases hi' with ⟨-, heq⟩ | ⟨-, hi'⟩
    · obtain ⟨rfl, hphase⟩ := Prod.mk.inj heq
      rcases hallowed ctx hphase.symm with rfl | ⟨req, hcall, hcreator⟩
      · obtain ⟨req, hcall, hcreator⟩ := h.allowed i _ ctx hi
        exact ⟨req, hcall, hset hcreator⟩
      · exact ⟨req, hcall, hset hcreator⟩
    · obtain ⟨req, hcall, hcreator⟩ := h.allowed i' call' ctx hi'
      exact ⟨req, hcall, hset hcreator⟩

/-- A key that is accepted. -/
theorem Ledger.authenticate {record : ApiKeyRecord} (h : Ledger phases s)
    (hi : phases[i]? = some (.request req, .idle)) (hsecret : req.presented = some secret)
    (hauth : (InMemoryApiKeyStore.authenticate secret s).1 = .ok record) :
    Ledger (phases.set i (.request req,
        .allowed ⟨record.tenantId, js "apikey:" ++ record.id, record.scopes⟩))
      (InMemoryApiKeyStore.authenticate secret s).2 := by
  rw [InMemoryApiKeyStore.authenticate_state hauth]
  obtain ⟨-, p, hfind, -, -, rfl⟩ := InMemoryApiKeyStore.authenticate_eq_ok.mp hauth
  have hmem := List.mem_of_find?_eq_some hfind
  obtain ⟨hid, j, call', key, issuedSecret, hj, hmatch⟩ := h.stored p hmem
  have hdigest : sha256 (utf8 secret) = sha256 (utf8 issuedSecret) := by
    have hsame := List.find?_some hfind
    rw [hmatch.hashedSecret] at hsame
    exact secretMatches_hashSecret.mp hsame
  have hlookup := lookup_eq_some_of_mem h.distinct hmem
  rw [← hid] at hlookup
  refine h.rewrite hi rfl hlookup ?_ (by simp) (by simp) (by simp) ?_
  · exact fun key secret hm => ⟨hm.id, hm.tenantId, hm.scopes, hm.expiresAt, hm.hashedSecret⟩
  · rintro ctx ⟨⟩
    exact .inr ⟨req, rfl, j, secret, call', key, issuedSecret, hsecret, hj, hdigest,
      hmatch.tenantId, hmatch.scopes ▸ List.Subset.refl _⟩

/-- A key that is revoked. -/
theorem Ledger.revoke {id revokedBy : JsString} {s' : KeyStore} (h : Ledger phases s)
    (hi : phases[i]? = some (call, phase)) (hopen : phase.isOpen = true)
    (hrevoke : InMemoryApiKeyStore.revoke tenantId id revokedBy s = (some key, s')) :
    Ledger (phases.set i (call, .revoked key)) s' := by
  unfold InMemoryApiKeyStore.revoke at hrevoke
  cases hfind : (s.keys.lookup id).filter (·.tenantId = tenantId) with
  | none =>
    rw [hfind] at hrevoke
    cases hrevoke
  | some k =>
    rw [hfind] at hrevoke
    obtain ⟨hkey, rfl⟩ := Prod.mk.inj hrevoke
    obtain ⟨hlookup, -⟩ := Option.filter_eq_some_iff.mp hfind
    obtain ⟨hid, -⟩ := h.stored _ (mem_of_lookup hlookup)
    refine h.rewrite hi hopen hlookup ?_ (by simp) (by simp) ?_ (by simp)
    · exact fun key secret hm => ⟨hm.id, hm.tenantId, hm.scopes, hm.expiresAt, hm.hashedSecret⟩
    · rintro key' ⟨⟩
      rw [← Option.some.inj hkey]
      exact hid

/-- A new identifier is nobody's. -/
theorem Ledger.newId_fresh (h : Ledger phases s) :
    InMemoryApiKeyStore.newId s ∉ s.keys.map Prod.fst := by
  intro hmem
  obtain ⟨p, hp, hnew⟩ := List.mem_map.mp hmem
  obtain ⟨t, c, hid, ht, htime, hc⟩ := h.ids p hp
  rw [hid] at hnew
  exact toBase36_append_ne ht htime hc (List.append_cancel_left hnew)

/-- A key that is created. -/
theorem Ledger.create {body : CreateApiKeyBody} {random : Bytes} {ctx : TenantContext}
    {s' : KeyStore} (h : Ledger phases s) (hi : phases[i]? = some (.request req, phase))
    (hroute : req.route = .create body random) (hctx : phase.Acts req ctx)
    (hcreate : InMemoryApiKeyStore.create random ctx.tenantId ctx.actor body.toCreateApiKeyInput
      ctx.scopes s = (.ok (key, secret), s')) :
    Ledger (phases.set i (.request req, .created key secret)) s' := by
  obtain ⟨hsecret, hscopes, hkey, rfl⟩ := InMemoryApiKeyStore.create_eq_ok hcreate
  have hopen := hctx.isOpen
  have hfresh := h.newId_fresh
  have hid : key.id = InMemoryApiKeyStore.newId s := by
    rw [hkey]
    rfl
  have hmatch : Matches (InMemoryApiKeyStore.keyRecord ctx.tenantId ctx.actor
      body.toCreateApiKeyInput secret s) key secret := by
    rw [hkey]
    exact ⟨rfl, rfl, rfl, rfl, rfl⟩
  have hset : (phases.set i (.request req, .created key secret))[i]? =
      some (.request req, .created key secret) :=
    List.getElem?_set_self (List.getElem?_eq_some_iff.mp hi).1
  refine ⟨h.epoch, h.distinct.setProp _, fun p hp => ?_, fun p hp => ?_, ?_, fun p hp => ?_, ?_, ?_⟩
  · rcases mem_of_mem_setProp hp with rfl | hp
    · exact ⟨s.clock.ms, s.counter, rfl, h.epoch, le_rfl, Nat.lt_succ_self _⟩
    · obtain ⟨t, c, hpid, ht, htime, hc⟩ := h.ids p hp
      exact ⟨t, c, hpid, ht, htime, Nat.lt_succ_of_lt hc⟩
  · rcases mem_of_mem_setProp hp with rfl | hp
    · exact ⟨rfl, i, _, key, secret, hset, hmatch⟩
    · obtain ⟨hpid, j, call', key', secret', hj, hm⟩ := h.stored p hp
      exact ⟨hpid, j, call', key', secret', (getElem?_set_of_isOpen hi hopen hj rfl).1, hm⟩
  · intro j call' key' secret' hj
    rcases getElem?_set_cases hj with ⟨rfl, heq⟩ | ⟨-, hj⟩
    · cases heq
      refine ⟨⟨_, ?_, hmatch⟩, req, rfl, ⟨body, random, hroute, hsecret, ?_⟩, fun hpresented => ?_⟩
      · rw [hid, lookup_setProp, if_pos rfl]
      · rw [hkey]
        rfl
      · -- the caller was accepted by a key
        rcases hctx with rfl | ⟨rfl, hnone⟩
        · obtain ⟨req', hreq, j, hcreator⟩ := h.allowed i _ ctx hi
          cases hreq
          obtain ⟨hset', hne⟩ := hcreator.set (x := (.request req, .created key secret)) hi rfl
          obtain ⟨secret₀, call₀, key₀, issued₀, hpres, hj₀, hdigest, htenant, hsub⟩ := hset'
          refine ⟨j, hne, secret₀, call₀, key₀, issued₀, hpres, hj₀, hdigest, ?_, ?_⟩
          · rw [hkey]
            exact htenant
          · rw [hkey]
            exact fun scope hscope => hsub (hscopes hscope)
        · exact absurd hnone hpresented
    · obtain ⟨⟨r, hlookup, hm⟩, req', hcall, hrequested, hcreator⟩ := h.created _ _ _ _ hj
      refine ⟨⟨r, ?_, hm⟩, req', hcall, hrequested, fun hpresented => ?_⟩
      · rw [lookup_setProp, if_neg]
        · exact hlookup
        · intro heq
          have hthere : key'.id ∈ s.keys.map Prod.fst := List.mem_map_of_mem (mem_of_lookup hlookup)
          rw [heq] at hthere
          exact hfresh hthere
      · obtain ⟨j', hj', hc⟩ := hcreator hpresented
        exact ⟨j', hj', (hc.set hi hopen).1⟩
  · constructor
    · intro hrevoked
      rcases mem_of_mem_setProp hp with rfl | hp
      · exact absurd rfl hrevoked
      · obtain ⟨j, call', key', hj, hkey'⟩ := (h.revoked p hp).mp hrevoked
        exact ⟨j, call', key', (getElem?_set_of_isOpen hi hopen hj rfl).1, hkey'⟩
    · rintro ⟨j, call', key', hj, hkey'⟩
      rcases getElem?_set_cases hj with ⟨-, heq⟩ | ⟨-, hj⟩
      · cases heq
      · rcases mem_of_mem_setProp hp with rfl | hp
        · have hknown := h.known j call' key' hj
          rw [hkey'] at hknown
          exact absurd hknown hfresh
        · exact (h.revoked p hp).mpr ⟨j, call', key', hj, hkey'⟩
  · intro j call' key' hj
    rw [mem_keys_setProp]
    rcases getElem?_set_cases hj with ⟨-, heq⟩ | ⟨-, hj⟩
    · cases heq
    · exact .inr (h.known j call' key' hj)
  · intro j call' ctx' hj
    rcases getElem?_set_cases hj with ⟨-, heq⟩ | ⟨-, hj⟩
    · cases heq
    · obtain ⟨req', hcall, j', hcreator⟩ := h.allowed j call' ctx' hj
      exact ⟨req', hcall, j', (hcreator.set hi hopen).1⟩

/-- **What an operation keeps.** -/
theorem Ledger.step {point : KeyPoint} {update : KeyStore → KeyStore} (h : Ledger phases s)
    (hi : phases[i]? = some (call, phase)) (hop : KeyOp call phase point update s phase') :
    Ledger (phases.set i (call, phase')) (update s) := by
  cases hop with
  | same hopen hupdate =>
    rw [set_self hi, hupdate]
    exact h
  | authenticate hcall hsecret hauth hupdate =>
    subst hcall
    rw [hupdate]
    exact h.authenticate hi hsecret hauth
  | create hcall hroute hctx hcreate =>
    subst hcall
    exact h.create hi hroute hctx hcreate
  | revoke hopen hrevoke => exact h.revoke hi hopen hrevoke

/-- A request that arrives has done nothing. -/
theorem Ledger.spawn (h : Ledger phases s) : Ledger (phases ++ [(call, .idle)]) s := by
  have hold : ∀ {j : ℕ} {call' : KeyEvent} {ph : KeyPhase}, phases[j]? = some (call', ph) →
      (phases ++ [(call, .idle)])[j]? = some (call', ph) := by
    intro j call' ph hj
    rw [List.getElem?_append_left (List.getElem?_eq_some_iff.mp hj).1]
    exact hj
  have hback : ∀ {j : ℕ} {call' : KeyEvent} {ph : KeyPhase}, ph ≠ .idle →
      (phases ++ [(call, .idle)])[j]? = some (call', ph) → phases[j]? = some (call', ph) := by
    intro j call' ph hne hj
    rcases getElem?_concat_cases hj with hj | heq
    · exact hj
    · exact absurd (Prod.mk.inj heq).2 hne
  have hcreator : ∀ {req : KeyRequest} {tenantId : JsString} {scopes : List JsString} {j : ℕ},
      Creator phases req tenantId scopes j →
        Creator (phases ++ [(call, .idle)]) req tenantId scopes j := by
    rintro req tenantId scopes j ⟨secret, call', key, issuedSecret, hsecret, hj, hrest⟩
    exact ⟨secret, call', key, issuedSecret, hsecret, hold hj, hrest⟩
  refine ⟨h.epoch, h.distinct, h.ids, fun p hp => ?_, ?_, fun p hp => ?_, ?_, ?_⟩
  · obtain ⟨hid, j, call', key, secret, hj, hmatch⟩ := h.stored p hp
    exact ⟨hid, j, call', key, secret, hold hj, hmatch⟩
  · intro j call' key secret hj
    obtain ⟨hstored, req, hcall, hrequested, hby⟩ := h.created _ _ _ _ (hback (by simp) hj)
    refine ⟨hstored, req, hcall, hrequested, fun hpresented => ?_⟩
    obtain ⟨j', hj', hc⟩ := hby hpresented
    exact ⟨j', hj', hcreator hc⟩
  · rw [h.revoked p hp]
    constructor
    · rintro ⟨j, call', key, hj, hkey⟩
      exact ⟨j, call', key, hold hj, hkey⟩
    · rintro ⟨j, call', key, hj, hkey⟩
      exact ⟨j, call', key, hback (by simp) hj, hkey⟩
  · exact fun j call' key hj => h.known j call' key (hback (by simp) hj)
  · intro j call' ctx hj
    obtain ⟨req, hcall, j', hc⟩ := h.allowed j call' ctx (hback (by simp) hj)
    exact ⟨req, hcall, j', hcreator hc⟩

/-- Time that passes. -/
theorem Ledger.tick {now : TimeValue} (h : Ledger phases s) (hnow : s.clock.ms ≤ now.ms) :
    Ledger phases { s with clock := now } := by
  refine ⟨h.epoch.trans hnow, h.distinct, fun p hp => ?_, h.stored, h.created, h.revoked, h.known,
    h.allowed⟩
  obtain ⟨t, c, hid, ht, htime, hc⟩ := h.ids p hp
  exact ⟨t, c, hid, ht, htime.trans hnow, hc⟩

end ledger

/-! ## Every run -/

/-- The time that an event sets. -/
def KeyEvent.time : KeyEvent → Option TimeValue
  | tick now => some now
  | request _ => none
  | resume _ => none

/-- The clock does not go back. -/
def NonDecreasing (clock : TimeValue) (events : List KeyEvent) : Prop :=
  (clock :: events.filterMap KeyEvent.time).Pairwise fun a b => a.ms ≤ b.ms

/-- The secret that a request presents. -/
def KeyEvent.presents : KeyEvent → Option JsString
  | request req => req.presented
  | resume _ => none
  | tick _ => none

/-- The secret that a request draws for a new key. -/
def KeyRoute.draws : KeyRoute → Option JsString
  | create _ random => some (generateSecret random)
  | revoke _ => none
  | other => none

/-- The secret that a request draws for a new key. -/
def KeyEvent.draws : KeyEvent → Option JsString
  | request req => req.route.draws
  | resume _ => none
  | tick _ => none

/-- The secrets that occur in a run. -/
def secrets (events : List KeyEvent) : List JsString :=
  events.flatMap fun e => e.presents.toList ++ e.draws.toList

/-- No two requests draw one secret. -/
def DistinctSecrets (requests : List KeyEvent) : Prop :=
  ∀ (i j : ℕ) (a b : KeyEvent) (secret : JsString), requests[i]? = some a → requests[j]? = some b →
    a.draws = some secret → b.draws = some secret → i = j

section run

variable {auth : Option JsString → Option TenantContext} {clock : TimeValue}
  {events past : List KeyEvent} {e : KeyEvent}

/-- The times of a run with one more event. -/
theorem NonDecreasing.of_concat (h : NonDecreasing clock (past ++ [e])) :
    NonDecreasing clock past := by
  unfold NonDecreasing at h ⊢
  rw [List.filterMap_append, ← List.cons_append] at h
  exact (List.pairwise_append.mp h).1

/-- **What every run keeps** in which the clock does not go back. -/
theorem KeyServer.run_ledger (hepoch : 0 ≤ clock.ms) (hclock : NonDecreasing clock events) :
    ∃ phases, ((start clock).run auth events).Follows (fun _ => True)
        (Task.Tagged KeyOp) (fun p => KeyAnswered p.2) phases ∧
      phases.map Prod.fst = calls (KeyEvent.toAsync auth) events ∧
      Ledger phases ((start clock).run auth events).shared := by
  suffices h : ∃ phases, ((start clock).run auth events).Follows (fun _ => True)
      (Task.Tagged KeyOp) (fun p => KeyAnswered p.2) phases ∧
      phases.map Prod.fst = calls (KeyEvent.toAsync auth) events ∧
      (NonDecreasing clock events →
        ((start clock).run auth events).shared.clock ∈ clock :: events.filterMap KeyEvent.time ∧
        Ledger phases ((start clock).run auth events).shared) by
    obtain ⟨phases, hfollows, hcalls, hledger⟩ := h
    exact ⟨phases, hfollows, hcalls, (hledger hclock).2⟩
  have hmem : ∀ {t : TimeValue} {past : List KeyEvent} {e : KeyEvent},
      t ∈ clock :: past.filterMap KeyEvent.time →
        t ∈ clock :: (past ++ [e]).filterMap KeyEvent.time := by
    intro t past e ht
    rw [List.filterMap_append, ← List.cons_append]
    exact List.mem_append_left _ ht
  refine Pool.run_calls .idle (I := fun _ => True) (J := fun past phases s => NonDecreasing clock past →
      s.clock ∈ clock :: past.filterMap KeyEvent.time ∧ Ledger phases s) ?_
    (fun _ _ _ _ => trivial) ?_ ?_ ?_ ?_ events ?_
  · intro e t ht
    cases e with
    | request req =>
      obtain rfl := Event.spawn.inj ht
      exact serve_follows
    | resume i => cases ht
    | tick now => cases ht
  · refine fun _ => ⟨List.mem_cons_self .., hepoch, List.nodup_nil, ?_, ?_, ?_, ?_, ?_, ?_⟩
    · exact fun p hp => absurd hp List.not_mem_nil
    · exact fun p hp => absurd hp List.not_mem_nil
    · exact fun i call key secret hi => by cases hi
    · exact fun p hp => absurd hp List.not_mem_nil
    · exact fun j call key hj => by cases hj
    · exact fun i call ctx hi => by cases hi
  · intro past phases e t s _ h hnd
    obtain ⟨hclock', hledger⟩ := h hnd.of_concat
    exact ⟨hmem hclock', hledger.spawn⟩
  · intro past phases e i s _ h hnd
    obtain ⟨hclock', hledger⟩ := h hnd.of_concat
    exact ⟨hmem hclock', hledger⟩
  · intro past phases e update s he h hnd
    obtain ⟨hclock', hledger⟩ := h hnd.of_concat
    cases e with
    | tick now =>
      obtain rfl := Event.other.inj he
      unfold NonDecreasing at hnd
      rw [List.filterMap_append, ← List.cons_append] at hnd ⊢
      refine ⟨List.mem_append_right _ (List.mem_singleton_self now), hledger.tick ?_⟩
      exact (List.pairwise_append.mp hnd).2.2 _ hclock' now (List.mem_singleton_self now)
    | request req => cases he
    | resume i => cases he
  · intro past e later i call phases phase phase' point update next _ _ _ _ hi hQ h hnd
    obtain ⟨hclock', hledger⟩ := h hnd.of_concat
    refine ⟨?_, hledger.step hi hQ⟩
    rw [hQ.clock]
    exact hmem hclock'

end run

/-! ## What is accepted -/

namespace KeyServer

/-- A request was answered with a new key. -/
def Issued (server : KeyServer) (i : ℕ) (key : ApiKeyPublic) (secret : JsString) : Prop :=
  server.tasks[i]? = some (.done (.created key secret))

/-- A request was answered with a revoked key. -/
def Revoked (server : KeyServer) (id : JsString) : Prop :=
  ∃ (j : ℕ) (key : ApiKeyPublic), server.tasks[j]? = some (.done (.revoked (some key))) ∧ key.id = id

/-- A key is past its expiry: the days that its request asked for have passed since its creation. -/
def Expired (call : KeyEvent) (key : ApiKeyPublic) (now : TimeValue) : Prop :=
  ∃ req body random d, call = .request req ∧ req.route = .create body random ∧
    body.expiresInDays = some d ∧ key.createdAt.ms + d * 86400000 ≤ now.ms

section

variable {server : KeyServer} {phases : List (KeyEvent × KeyPhase)} {i : ℕ} {call : KeyEvent}
  {phase : KeyPhase} {key : ApiKeyPublic} {secret : JsString}

/-- A request that has nothing left to do is answered. -/
theorem exists_done (h : server.Follows (fun _ => True) (Task.Tagged KeyOp)
      (fun p => KeyAnswered p.2) phases) (hi : phases[i]? = some (call, phase))
    (hclosed : phase.isOpen = false) :
    ∃ r, server.tasks[i]? = some (.done r) ∧ KeyAnswered phase r := by
  obtain ⟨t, ht, hfollows⟩ := h.exists_task hi
  cases t with
  | done r => exact ⟨r, ht, hfollows⟩
  | call point update next =>
    obtain ⟨⟨call', phase'⟩, ⟨-, hop⟩, -⟩ := hfollows server.shared trivial
    cases hop with
    | same hopen h =>
      rw [hopen] at hclosed
      cases hclosed
    | create hcall hroute hctx h =>
      rw [hctx.isOpen] at hclosed
      cases hclosed
    | revoke hopen h =>
      rw [hopen] at hclosed
      cases hclosed
    | authenticate hcall hsecret h hupdate => cases hclosed

/-- The keys that were issued. -/
theorem issued_iff (h : server.Follows (fun _ => True) (Task.Tagged KeyOp)
    (fun p => KeyAnswered p.2) phases) :
    server.Issued i key secret ↔ ∃ call, phases[i]? = some (call, .created key secret) := by
  constructor
  · intro hi
    obtain ⟨⟨call, phase⟩, hphase, hanswered⟩ := h.getElem? hi
    refine ⟨call, ?_⟩
    cases phase with
    | idle => exact absurd rfl (hanswered.1 key secret)
    | allowed ctx => exact absurd rfl (hanswered.1 key secret)
    | created key' secret' =>
      cases hanswered
      exact hphase
    | revoked key' => cases hanswered
  · rintro ⟨call, hi⟩
    obtain ⟨r, hr, hanswered⟩ := exists_done h hi rfl
    rw [Issued, hr, hanswered]

/-- The keys that were revoked. -/
theorem revoked_iff (h : server.Follows (fun _ => True) (Task.Tagged KeyOp)
    (fun p => KeyAnswered p.2) phases) {id : JsString} :
    server.Revoked id ↔ ∃ (j : ℕ) (call : KeyEvent) (key : ApiKeyPublic),
      phases[j]? = some (call, .revoked key) ∧ key.id = id := by
  constructor
  · rintro ⟨j, key, hj, hid⟩
    obtain ⟨⟨call, phase⟩, hphase, hanswered⟩ := h.getElem? hj
    refine ⟨j, call, key, ?_, hid⟩
    cases phase with
    | idle => exact absurd rfl (hanswered.2 key)
    | allowed ctx => exact absurd rfl (hanswered.2 key)
    | created key' secret' => cases hanswered
    | revoked key' =>
      cases hanswered
      exact hphase
  · rintro ⟨j, call, key, hj, hid⟩
    obtain ⟨r, hr, hanswered⟩ := exists_done h hj rfl
    refine ⟨j, key, ?_, hid⟩
    rw [hr, hanswered]

/-- **When a key is past its expiry.** An expiry that is no valid date is later than any time. -/
theorem expired_iff {req : KeyRequest} (hcall : call = .request req)
    (h : AsRequested req key secret) (now : TimeValue) :
    key.isExpired now = true ↔ Expired call key now := by
  obtain ⟨body, random, hroute, -, hexpires⟩ := h
  unfold ApiKeyPublic.isExpired Expired
  rw [hexpires]
  cases hdays : body.expiresInDays with
  | none =>
    refine iff_of_false (by simp) ?_
    rintro ⟨req', body', random', d, hcall', hroute', hdays', -⟩
    rw [hcall] at hcall'
    cases hcall'
    rw [hroute] at hroute'
    cases hroute'
    rw [hdays] at hdays'
    cases hdays'
  | some d =>
    have hpassed : (∃ req body random d, call = .request req ∧ req.route = .create body random ∧
        body.expiresInDays = some d ∧ key.createdAt.ms + d * 86400000 ≤ now.ms) ↔
        key.createdAt.ms + d * 86400000 ≤ now.ms := by
      constructor
      · rintro ⟨req', body', random', d', hcall', hroute', hdays', hle⟩
        rw [hcall] at hcall'
        cases hcall'
        rw [hroute] at hroute'
        cases hroute'
        rw [hdays] at hdays'
        cases hdays'
        exact hle
      · exact fun hle => ⟨req, body, random, d, hcall, hroute, hdays, hle⟩
    rw [hpassed, Option.map_some]
    unfold newDate
    split_ifs with hrange
    · exact decide_eq_true_iff
    · refine iff_of_false (by simp) ?_
      have hnow := now.inRange
      have hcreated := key.createdAt.inRange
      have hpos := (body.days_ok d hdays).1
      rw [abs_le] at hnow hcreated hrange
      omega

end

end KeyServer

section accepted

variable {auth : Option JsString → Option TenantContext} {events : List KeyEvent}
  {phases : List (KeyEvent × KeyPhase)} {s : KeyStore} {secret : JsString} {i : ℕ}
  {call : KeyEvent} {key : ApiKeyPublic}

/-- The secret of a key that was issued occurs in the run. -/
theorem mem_secrets (hcalls : phases.map Prod.fst = calls (KeyEvent.toAsync auth) events)
    (h : Ledger phases s) (hi : phases[i]? = some (call, .created key secret)) :
    (calls (KeyEvent.toAsync auth) events)[i]? = some call ∧ call.draws = some secret ∧
      secret ∈ secrets events := by
  have hcall : (calls (KeyEvent.toAsync auth) events)[i]? = some call := by
    rw [← hcalls, List.getElem?_map, hi]
    rfl
  obtain ⟨-, req, rfl, ⟨body, random, hroute, hsecret, -⟩, -⟩ := h.created _ _ _ _ hi
  have hdraws : KeyEvent.draws (.request req) = some secret := by
    rw [KeyEvent.draws, hroute, hsecret]
    rfl
  refine ⟨hcall, hdraws, List.mem_flatMap.mpr ⟨_, mem_of_mem_calls (List.mem_of_getElem? hcall), ?_⟩⟩
  rw [hdraws]
  exact List.mem_append_right _ (List.mem_singleton_self secret)

/-- A text with the digest of a secret that was issued is that secret. -/
theorem eq_of_digest_eq {texts : List JsString} (hS : ¬ CollisionIn sha256 (texts.map utf8))
    {text : JsString} {random : Bytes} (htext : text ∈ texts) (hmem : generateSecret random ∈ texts)
    (h : sha256 (utf8 text) = sha256 (utf8 (generateSecret random))) :
    text = generateSecret random :=
  eq_of_utf8_eq_ascii (generateSecret_ascii random) (eq_of_not_collisionIn hS
    (List.mem_map_of_mem htext) (List.mem_map_of_mem hmem) h)

end accepted

/-- **Keys over whole runs**, where the clock does not go back, no two keys draw one secret and the
digests of the secrets have no collision: a secret is accepted exactly when a key was issued with it
that is neither revoked nor past its expiry, and then for the tenant and the scopes of that key; and a
key that is created under another one has its tenant, and no scope that the other has not. -/
theorem issued_keys (auth : Option JsString → Option TenantContext) (clock : TimeValue)
    (events : List KeyEvent) (hepoch : 0 ≤ clock.ms) (hclock : NonDecreasing clock events)
    (hdistinct : DistinctSecrets (calls (KeyEvent.toAsync auth) events))
    (hS : ¬ CollisionIn sha256 ((secrets events).map utf8)) :
    (∀ secret tenantId scopes, ¬ CollisionIn sha256 ((secret :: secrets events).map utf8) →
      ((∃ record, (InMemoryApiKeyStore.authenticate secret
            ((KeyServer.start clock).run auth events).shared).1 = .ok record ∧
          record.tenantId = tenantId ∧ record.scopes = scopes) ↔
        ∃ i call key, (calls (KeyEvent.toAsync auth) events)[i]? = some call ∧
          ((KeyServer.start clock).run auth events).Issued i key secret ∧
          ¬ ((KeyServer.start clock).run auth events).Revoked key.id ∧
          ¬ KeyServer.Expired call key ((KeyServer.start clock).run auth events).shared.clock ∧
          key.tenantId = tenantId ∧ key.scopes = scopes)) ∧
    ∀ i req key secret presented, ((KeyServer.start clock).run auth events).Issued i key secret →
      (calls (KeyEvent.toAsync auth) events)[i]? = some (.request req) →
      req.presented = some presented →
      ∃ j creator, j ≠ i ∧ ((KeyServer.start clock).run auth events).Issued j creator presented ∧
        key.tenantId = creator.tenantId ∧ key.scopes ⊆ creator.scopes := by
  obtain ⟨phases, hfollows, hcalls, h⟩ :=
    @KeyServer.run_ledger auth clock events hepoch hclock
  refine ⟨fun secret tenantId scopes hS' => ?_, ?_⟩
  · have hdigests : ∀ {j : ℕ} {call : KeyEvent} {key : ApiKeyPublic} {issuedSecret : JsString},
        phases[j]? = some (call, .created key issuedSecret) →
        sha256 (utf8 secret) = sha256 (utf8 issuedSecret) → secret = issuedSecret := by
      intro j call key issuedSecret hj hdigest
      obtain ⟨-, -, hmem⟩ := mem_secrets hcalls h hj
      obtain ⟨-, req, -, ⟨body, random, -, rfl, -⟩, -⟩ := h.created _ _ _ _ hj
      exact eq_of_digest_eq hS' (List.mem_cons_self ..) (List.mem_cons_of_mem _ hmem) hdigest
    constructor
    · rintro ⟨record, hauth, rfl, rfl⟩
      obtain ⟨-, p, hfind, hrevoked, hexpired, rfl⟩ :=
        InMemoryApiKeyStore.authenticate_eq_ok.mp hauth
      have hmem := List.mem_of_find?_eq_some hfind
      have hmatches := List.find?_some hfind
      obtain ⟨hid, i, call, key, issuedSecret, hi, hmatch⟩ := h.stored p hmem
      rw [hmatch.hashedSecret] at hmatches
      obtain rfl := hdigests hi (secretMatches_hashSecret.mp hmatches)
      obtain ⟨hcall, -, -⟩ := mem_secrets hcalls h hi
      obtain ⟨-, req, hreq, hrequested, -⟩ := h.created _ _ _ _ hi
      have hkey : key.id = p.1 := hmatch.id.symm.trans hid
      refine ⟨i, call, key, hcall, (KeyServer.issued_iff hfollows).mpr ⟨call, hi⟩, ?_, ?_,
        hmatch.tenantId.symm, hmatch.scopes.symm⟩
      · rw [KeyServer.revoked_iff hfollows, hkey, ← h.revoked p hmem, hrevoked]
        exact fun hne => hne rfl
      · rw [← KeyServer.expired_iff hreq hrequested, Bool.not_eq_true]
        unfold ApiKeyPublic.isExpired at hexpired ⊢
        rw [← hmatch.expiresAt]
        exact hexpired
    · rintro ⟨i, call, key, hcall, hissued, hrevoked, hexpired, rfl, rfl⟩
      obtain ⟨call', hi⟩ := (KeyServer.issued_iff hfollows).mp hissued
      obtain ⟨hcall', hdraws, -⟩ := mem_secrets hcalls h hi
      obtain rfl := Option.some.inj (hcall.symm.trans hcall')
      obtain ⟨⟨r, hlookup, hmatch⟩, req, hreq, hrequested, -⟩ := h.created _ _ _ _ hi
      have hr := mem_of_lookup hlookup
      have hfound : (((KeyServer.start clock).run auth events).shared.keys.find? fun p =>
          secretMatches secret p.2.hashedSecret).isSome := by
        rw [List.find?_isSome]
        refine ⟨_, hr, ?_⟩
        rw [hmatch.hashedSecret]
        exact secretMatches_hashSecret.mpr rfl
      obtain ⟨p, hfind⟩ := Option.isSome_iff_exists.mp hfound
      have hp := List.mem_of_find?_eq_some hfind
      have hmatches := List.find?_some hfind
      -- the record that is found is that of the key: nobody else has drawn its secret
      obtain ⟨hpid, j, call', key', issuedSecret, hj, hmatch'⟩ := h.stored p hp
      rw [hmatch'.hashedSecret] at hmatches
      obtain rfl := hdigests hj (secretMatches_hashSecret.mp hmatches)
      obtain ⟨hcall', hdraws', -⟩ := mem_secrets hcalls h hj
      obtain rfl := hdistinct i j _ _ _ hcall hcall' hdraws hdraws'
      rw [hi] at hj
      cases hj
      have hkey : p.1 = key.id := hpid.symm.trans hmatch'.id
      have hstarts : keyPrefix.isPrefixOf secret = true := by
        obtain ⟨body, random, -, rfl, -⟩ := hrequested
        exact List.isPrefixOf_iff_prefix.mpr (List.prefix_append ..)
      refine ⟨_, InMemoryApiKeyStore.authenticate_eq_ok.mpr ⟨hstarts, p, hfind, ?_, ?_, rfl⟩,
        hmatch'.tenantId, hmatch'.scopes⟩
      · by_contra hne
        rw [KeyServer.revoked_iff hfollows, ← hkey] at hrevoked
        exact hrevoked ((h.revoked p hp).mp hne)
      · rw [← KeyServer.expired_iff hreq hrequested, Bool.not_eq_true] at hexpired
        unfold ApiKeyPublic.isExpired at hexpired ⊢
        rw [hmatch'.expiresAt]
        exact hexpired
  · intro i req key secret presented hissued hcall hpresented
    obtain ⟨call', hi⟩ := (KeyServer.issued_iff hfollows).mp hissued
    obtain ⟨hcall', -, -⟩ := mem_secrets hcalls h hi
    obtain rfl := Option.some.inj (hcall'.symm.trans hcall)
    obtain ⟨-, req', hreq, -, hcreator⟩ := h.created _ _ _ _ hi
    cases hreq
    obtain ⟨j, hne, presented', call', creator, issuedSecret, hpresented', hj, hdigest, htenant,
      hscopes⟩ := hcreator (by simp [hpresented])
    obtain rfl := Option.some.inj (hpresented.symm.trans hpresented')
    obtain ⟨-, -, hmem⟩ := mem_secrets hcalls h hj
    obtain ⟨-, req', -, ⟨body, random, -, rfl, -⟩, -⟩ := h.created _ _ _ _ hj
    have hmem' : presented ∈ secrets events := by
      refine List.mem_flatMap.mpr ⟨_, mem_of_mem_calls (List.mem_of_getElem? hcall), ?_⟩
      rw [KeyEvent.presents, hpresented]
      exact List.mem_append_left _ (List.mem_singleton_self presented)
    rw [eq_of_digest_eq hS hmem' hmem hdigest]
    exact ⟨j, creator, hne, (KeyServer.issued_iff hfollows).mpr ⟨call', hj⟩, htenant, hscopes⟩

section examples

/-- The administrator of a tenant. -/
def admin : TenantContext := ⟨js "t", js "u", [js "runs:read", js "runs:write"]⟩

/-- A key that may read for thirty days. -/
def readBody : CreateApiKeyBody where
  name := js "ci"
  description := none
  scopes := [js "runs:read"]
  expiresInDays := some 30
  name_trim := by decide
  name_ne := by decide
  name_le := by decide
  description_ok := by rintro d ⟨⟩
  scopes_ne := by decide
  days_ok := by
    rintro d ⟨⟩
    decide

/-- The request for it, with what it draws. -/
def readEvents : List KeyEvent :=
  [.request ⟨none, .create readBody (List.replicate 32 7)⟩, .resume 0]

/-- A key that was just created is accepted. -/
theorem issued_keys_first : ∃ record,
    (InMemoryApiKeyStore.authenticate (generateSecret (List.replicate 32 7))
      ((KeyServer.start ⟨0, TimeValue.zero_inRange⟩).run (fun _ => some admin) readEvents).shared).1 =
        .ok record ∧ record.tenantId = js "t" ∧ record.scopes = [js "runs:read"] := by
  have hsame : ∀ texts : List JsString, (∀ t ∈ texts, t = generateSecret (List.replicate 32 7)) →
      ¬ CollisionIn sha256 (texts.map utf8) := by
    rintro texts htexts ⟨x, hx, y, hy, hne, -⟩
    obtain ⟨a, ha, rfl⟩ := List.mem_map.mp hx
    obtain ⟨b, hb, rfl⟩ := List.mem_map.mp hy
    rw [htexts a ha, htexts b hb] at hne
    exact hne rfl
  have hsecrets : secrets readEvents = [generateSecret (List.replicate 32 7)] := rfl
  refine ((issued_keys (fun _ => some admin) ⟨0, TimeValue.zero_inRange⟩ readEvents le_rfl ?_ ?_
    ?_).1 (generateSecret (List.replicate 32 7)) (js "t") [js "runs:read"] ?_).mpr
      ⟨0, _, _, rfl, rfl, ?_, ?_, rfl, rfl⟩
  · exact List.pairwise_singleton ..
  · intro i j a b secret hi hj _ _
    have hone : ∀ {k : ℕ} {e : KeyEvent},
        (calls (KeyEvent.toAsync fun _ => some admin) readEvents)[k]? = some e → k = 0 := by
      intro k e hk
      cases k with
      | zero => rfl
      | succ k => cases hk
    rw [hone hi, hone hj]
  · rw [hsecrets]
    exact hsame _ (by simp)
  · rw [hsecrets]
    exact hsame _ (by simp)
  · rintro ⟨j, key, hj, -⟩
    cases j with
    | zero => cases hj
    | succ j => cases hj
  · rintro ⟨req, body, random, d, hreq, hroute, hdays, hle⟩
    cases hreq
    cases hroute
    cases hdays
    revert hle
    decide

end examples

end AgentEval.Auth
