import AgentEval.Api.RunRoutes
import AgentEval.Async.Calls
import AgentEval.Crypto.Sha256
import AgentEval.Js.Buffer
import AgentEval.Js.Url

/-!
# `auth/api-keys.ts`: keys that are issued to callers

A key is a record with the digest of its secret. The methods of `InMemoryApiKeyStore` work on a map of
records; the hook of `app.ts` authenticates a caller by a key, or by a token of the operator, and the
routes create and revoke keys. The entries of the audit log, which no key depends on, are left out.

* **`create_eq_ok`**: what is issued, and to whom.
* **`authenticate_eq_ok`**: which secrets are accepted.
-/

namespace AgentEval.Auth

open Js Store Api Async Evidence Sha256

/-! ## The data -/

/-- What a read path may return.
Source: `api-keys.ts`, `ApiKeyPublic` -/
structure ApiKeyPublic where
  /-- The identifier. -/
  id : JsString
  /-- The tenant it belongs to. -/
  tenantId : JsString
  /-- Who created it. -/
  createdBy : JsString
  /-- What it is called. -/
  name : JsString
  /-- What it is for. -/
  description : Option JsString
  /-- Enough of the secret to recognise it. -/
  masked : JsString
  /-- The end of the secret. -/
  last4 : JsString
  /-- What it may do. -/
  scopes : List JsString
  /-- When it was created. -/
  createdAt : TimeValue
  /-- When it expires, if it does; the inner `none` is an invalid date. -/
  expiresAt : Option (Option TimeValue)
  /-- When it was revoked. -/
  revokedAt : Option TimeValue
  /-- Who revoked it. -/
  revokedBy : Option JsString
  /-- The last use. -/
  lastUsedAt : Option TimeValue

/-- Source: `api-keys.ts`, `ApiKeyRecord` -/
structure ApiKeyRecord extends ApiKeyPublic where
  /-- The digest of the secret. -/
  hashedSecret : JsString

/-- Source: `api-keys.ts`, `toPublic` -/
def ApiKeyRecord.toPublic (record : ApiKeyRecord) : ApiKeyPublic := record.toApiKeyPublic

/-- Source: `api-keys.ts`, `AuthFailure` -/
inductive AuthFailure where
  /-- No key has the secret. -/
  | unknown
  /-- The key was revoked. -/
  | revoked
  /-- The key has expired. -/
  | expired
  deriving DecidableEq

/-- Source: `api-keys.ts`, `CreateApiKeyInput` -/
structure CreateApiKeyInput where
  /-- What to call the key. -/
  name : JsString
  /-- What it is for. -/
  description : Option JsString
  /-- What it may do. -/
  scopes : List JsString
  /-- The days until it expires. -/
  expiresInDays : Option ℤ

/-- Source: `api-keys.ts`, `ApiKeyError` -/
structure ApiKeyError where
  /-- What is wrong. -/
  message : JsString
  /-- The status of the response. -/
  status : ℕ

/-- Source: `api-keys.ts`, `KEY_PREFIX` -/
def keyPrefix : JsString := js "ae_live_"

/-- Source: `api-keys.ts`, `ALL_SCOPES` -/
def allScopes : List JsString :=
  [js "runs:read", js "runs:write", js "evidence:read", js "evidence:generate",
    js "approvals:decide", js "audit:read", js "splits:held-out"]

/-- Source: `api-keys.ts`, `hashSecret` -/
def hashSecret (secret : JsString) : JsString := toHex (sha256 (utf8 secret)).bytes

/-- Source: `api-keys.ts`, `secretMatches` -/
def secretMatches (secret hashed : JsString) : Bool :=
  decide (fromHex (hashSecret secret) = fromHex hashed)

/-- The URL-safe base64 digit of a sextet. -/
def base64UrlDigit (n : ℕ) : UInt16 := if n = 62 then 45 else if n = 63 then 95 else base64Digit n

/-- The secret of a new key, from the octets of `randomBytes`.
Source: `api-keys.ts`, `generateSecret` -/
def generateSecret (random : Bytes) : JsString :=
  keyPrefix ++ (toSextets random).map base64UrlDigit

/-- Source: `api-keys.ts`, `generateSecret` -/
def lastFour (secret : JsString) : JsString := secret.drop (secret.length - 4)

/-! ## The store -/

/-- The map of the keys, the counter of `newId` and the clock. -/
structure KeyStore where
  /-- The records. -/
  keys : List (JsString × ApiKeyRecord)
  /-- The counter of `newId`. -/
  counter : ℕ
  /-- What `Date.now()` reads. -/
  clock : TimeValue

/-- Whether the time of a key has come; an invalid date compares as NaN.
Source: `api-keys.ts`, `InMemoryApiKeyStore.authenticate` -/
def ApiKeyPublic.isExpired (key : ApiKeyPublic) (now : TimeValue) : Bool :=
  match key.expiresAt with
  | some (some t) => decide (t.ms ≤ now.ms)
  | _ => false

namespace InMemoryApiKeyStore

/-- Source: `api-keys.ts`, `newId` -/
def newId (s : KeyStore) : JsString := js "key_" ++ (toBase36 s.clock.ms ++ toBase36 s.counter)

/-- Source: `api-keys.ts`, `InMemoryApiKeyStore.create` -/
def keyRecord (tenantId createdBy : JsString) (input : CreateApiKeyInput) (secret : JsString)
    (s : KeyStore) : ApiKeyRecord where
  id := newId s
  tenantId := tenantId
  createdBy := createdBy
  name := trim input.name
  description := (input.description.map trim).filter (· ≠ [])
  masked := keyPrefix ++ (List.replicate 10 (js "•")).flatten ++ lastFour secret
  last4 := lastFour secret
  scopes := input.scopes
  createdAt := s.clock
  expiresAt := input.expiresInDays.map fun d => newDate (s.clock.ms + d * 86400000)
  revokedAt := none
  revokedBy := none
  lastUsedAt := none
  hashedSecret := hashSecret secret

/-- Source: `api-keys.ts`, `InMemoryApiKeyStore.create` -/
def create (random : Bytes) (tenantId createdBy : JsString) (input : CreateApiKeyInput)
    (grantableScopes : List JsString) (s : KeyStore) :
    Except ApiKeyError (ApiKeyPublic × JsString) × KeyStore :=
  if trim input.name = [] then
    (.error ⟨js "a key needs a name; an unnamed credential cannot be audited", 422⟩, s)
  else if input.scopes = [] then
    (.error ⟨js "a key with no scopes can do nothing; select at least one", 422⟩, s)
  else
    let escalating := input.scopes.filter fun scope => decide (scope ∉ grantableScopes)
    if escalating ≠ [] then
      (.error ⟨js "cannot grant scopes you do not hold: " ++
        (js ", ").intercalate escalating, 403⟩, s)
    else if input.expiresInDays.any (· ≤ 0) = true then
      (.error ⟨js "expiresInDays must be positive", 422⟩, s)
    else
      let secret := generateSecret random
      let record := keyRecord tenantId createdBy input secret s
      (.ok (record.toPublic, secret),
        { s with keys := setProp s.keys (record.id, record), counter := s.counter + 1 })

/-- Source: `api-keys.ts`, `InMemoryApiKeyStore.get` -/
def get (tenantId id : JsString) (s : KeyStore) : Option ApiKeyPublic :=
  ((s.keys.lookup id).filter (·.tenantId = tenantId)).map ApiKeyRecord.toPublic

/-- Source: `api-keys.ts`, `InMemoryApiKeyStore.revoke` -/
def revoke (tenantId id revokedBy : JsString) (s : KeyStore) : Option ApiKeyPublic × KeyStore :=
  match (s.keys.lookup id).filter (·.tenantId = tenantId) with
  | none => (none, s)
  | some k =>
    let updated : ApiKeyRecord := { k with revokedAt := s.clock, revokedBy := revokedBy }
    (some updated.toPublic, { s with keys := setProp s.keys (id, updated) })

/-- Source: `api-keys.ts`, `InMemoryApiKeyStore.authenticate` -/
def authenticate (secret : JsString) (s : KeyStore) :
    Except AuthFailure ApiKeyRecord × KeyStore :=
  if keyPrefix.isPrefixOf secret = false then (.error .unknown, s)
  else
    match s.keys.find? fun p => secretMatches secret p.2.hashedSecret with
    | none => (.error .unknown, s)
    | some p =>
      if p.2.revokedAt.isSome = true then (.error .revoked, s)
      else if p.2.isExpired s.clock = true then (.error .expired, s)
      else
        let touched : ApiKeyRecord := { p.2 with lastUsedAt := s.clock }
        (.ok touched, { s with keys := setProp s.keys (p.2.id, touched) })

section

variable {random : Bytes} {tenantId createdBy secret id : JsString} {input : CreateApiKeyInput}
  {scopes : List JsString} {s s' : KeyStore} {key : ApiKeyPublic} {record : ApiKeyRecord}

/-- **What is issued**: a key of the tenant with scopes that its creator holds. -/
theorem create_eq_ok (h : create random tenantId createdBy input scopes s = (.ok (key, secret), s')) :
    secret = generateSecret random ∧ input.scopes ⊆ scopes ∧
      key = (keyRecord tenantId createdBy input secret s).toPublic ∧
      s' = { s with
        keys := setProp s.keys (newId s, keyRecord tenantId createdBy input secret s)
        counter := s.counter + 1 } := by
  unfold create at h
  dsimp only at h
  split_ifs at h with hname hscopes hescalating hdays
  · cases h
  · cases h
  · cases h
  · cases h
  · cases h
    refine ⟨rfl, fun scope hscope => ?_, rfl, rfl⟩
    rw [ne_eq, not_not, List.filter_eq_nil_iff] at hescalating
    simpa using hescalating scope hscope

/-- A key that is refused changes nothing. -/
theorem create_eq_error {e : ApiKeyError}
    (h : (create random tenantId createdBy input scopes s).1 = .error e) :
    (create random tenantId createdBy input scopes s).2 = s := by
  unfold create at h ⊢
  dsimp only at h ⊢
  split_ifs at h ⊢
  · rfl
  · rfl
  · rfl
  · rfl

/-- **Which secrets are accepted**: those of a key that is not revoked and whose time has not come. -/
theorem authenticate_eq_ok : (authenticate secret s).1 = .ok record ↔
    keyPrefix.isPrefixOf secret = true ∧
    ∃ p, s.keys.find? (fun p => secretMatches secret p.2.hashedSecret) = some p ∧
      p.2.revokedAt = none ∧ p.2.isExpired s.clock = false ∧
      record = { p.2 with lastUsedAt := s.clock } := by
  unfold authenticate
  by_cases hstarts : keyPrefix.isPrefixOf secret = false
  · rw [if_pos hstarts]
    simp [hstarts]
  · rw [if_neg hstarts]
    rw [Bool.not_eq_false] at hstarts
    cases hfind : s.keys.find? fun p => secretMatches secret p.2.hashedSecret with
    | none => simp
    | some p =>
      dsimp only
      by_cases hrevoked : p.2.revokedAt.isSome = true
      · rw [if_pos hrevoked]
        refine iff_of_false (by simp) ?_
        rintro ⟨-, p', hp', hnone, -⟩
        obtain rfl := Option.some.inj hp'
        rw [hnone] at hrevoked
        cases hrevoked
      · rw [if_neg hrevoked]
        by_cases hexpired : p.2.isExpired s.clock = true
        · rw [if_pos hexpired]
          refine iff_of_false (by simp) ?_
          rintro ⟨-, p', hp', -, hlive, -⟩
          obtain rfl := Option.some.inj hp'
          rw [hlive] at hexpired
          cases hexpired
        · rw [if_neg hexpired]
          constructor
          · intro h
            exact ⟨hstarts, p, rfl, Option.not_isSome_iff_eq_none.mp hrevoked,
              Bool.eq_false_iff.mpr hexpired, (Except.ok.inj h).symm⟩
          · rintro ⟨-, p', hp', -, -, rfl⟩
            obtain rfl := Option.some.inj hp'
            rfl

/-- What an accepted secret leaves behind. -/
theorem authenticate_state (h : (authenticate secret s).1 = .ok record) :
    (authenticate secret s).2 = { s with keys := setProp s.keys (record.id, record) } := by
  obtain ⟨hstarts, p, hfind, hrevoked, hexpired, rfl⟩ := authenticate_eq_ok.mp h
  unfold authenticate
  rw [if_neg (by simp [hstarts]), hfind]
  dsimp only
  rw [if_neg (by simp [hrevoked]), if_neg (by simp [hexpired])]

/-- A secret that is refused changes nothing. -/
theorem authenticate_eq_error {e : AuthFailure} (h : (authenticate secret s).1 = .error e) :
    (authenticate secret s).2 = s := by
  unfold authenticate at h ⊢
  by_cases hstarts : keyPrefix.isPrefixOf secret = false
  · rw [if_pos hstarts]
  · rw [if_neg hstarts] at h ⊢
    cases hfind : s.keys.find? fun p => secretMatches secret p.2.hashedSecret with
    | none => rfl
    | some p =>
      rw [hfind] at h
      dsimp only at h ⊢
      split_ifs at h ⊢
      · rfl
      · rfl

end

end InMemoryApiKeyStore

/-- **Two secrets match one digest** exactly when they have one digest. -/
theorem secretMatches_hashSecret {a b : JsString} :
    secretMatches a (hashSecret b) = true ↔ sha256 (utf8 a) = sha256 (utf8 b) := by
  unfold secretMatches hashSecret
  rw [decide_eq_true_iff, fromHex_toHex, fromHex_toHex]
  exact ⟨Digest.ext, congrArg Digest.bytes⟩

/-- A secret is in ASCII. -/
theorem generateSecret_ascii (random : Bytes) : ∀ u ∈ generateSecret random, u.toNat < 128 := by
  have hdigit : ∀ n < 64, (base64UrlDigit n).toNat < 128 := by decide
  intro u hu
  rcases List.mem_append.mp hu with hu | hu
  · have hstarts : ∀ u ∈ keyPrefix, u.toNat < 128 := by decide
    exact hstarts u hu
  · obtain ⟨n, hn, rfl⟩ := List.mem_map.mp hu
    exact hdigit n (lt_of_mem_toSextets hn)

/-! ## Requests -/

/-- A body that the schema accepts.
Source: `schemas/index.ts`, `createApiKeySchema` -/
structure CreateApiKeyBody extends CreateApiKeyInput where
  name_trim : trim name = name
  name_ne : name ≠ []
  name_le : name.length ≤ 80
  description_ok : ∀ d ∈ description, trim d = d ∧ d.length ≤ 300
  scopes_ne : scopes ≠ [] ∧ [] ∉ scopes
  days_ok : ∀ d ∈ expiresInDays, 0 < d ∧ d ≤ 3650

/-- What a request asks for. -/
inductive KeyRoute where
  /-- `POST /v1/api-keys`, with what `randomBytes` gives. -/
  | create (body : CreateApiKeyBody) (random : Bytes)
  /-- `POST /v1/api-keys/:id/revoke` -/
  | revoke (id : JsString)
  /-- Any other route that needs a caller. -/
  | other

/-- A request, as far as the keys are concerned. -/
structure KeyRequest where
  /-- `req.headers.authorization` -/
  authorization : Option JsString
  /-- What it asks for. -/
  route : KeyRoute

/-- `header.replace(/^Bearer\s+/i, '')` -/
def stripBearer (header : JsString) : JsString :=
  if asciiLower (header.take 6) = js "bearer" ∧ ((header.drop 6).head?.map isWhiteSpace).getD false then
    (header.drop 6).dropWhile isWhiteSpace
  else header

/-- The secret that a request presents, if it is that of a key.
Source: `app.ts`, `onRequest` -/
def KeyRequest.presented (req : KeyRequest) : Option JsString :=
  (req.authorization.map stripBearer).filter fun secret => keyPrefix.isPrefixOf secret

/-- Where a request waits for its next operation. -/
inductive KeyPoint where
  /-- `apiKeys.authenticate` -/
  | authenticate
  /-- `apiKeys.create` -/
  | create
  /-- `apiKeys.get` -/
  | get
  /-- `apiKeys.revoke` -/
  | revoke

/-- What a request is answered with. -/
inductive KeyReply where
  /-- A problem. -/
  | problem (p : Problem)
  /-- A new key and its secret. -/
  | created (key : ApiKeyPublic) (secret : JsString)
  /-- What the revocation returns. -/
  | revoked (key : Option ApiKeyPublic)
  /-- Something else, for the caller of the request. -/
  | passed (ctx : TenantContext)

/-- Why a secret is refused.
Source: `app.ts`, `onRequest` -/
def AuthFailure.detail : AuthFailure → JsString
  | unknown => js "This API key is not recognised."
  | revoked => js "This API key has been revoked."
  | expired => js "This API key has expired."

section

variable (auth : Option JsString → Option TenantContext)

/-- The caller of a request; `auth` is what resolves a token that is not a key.
Source: `app.ts`, `onRequest` -/
def onRequest (req : KeyRequest) : Task KeyStore KeyPoint (Except Problem TenantContext) :=
  match req.presented with
  | some secret => do
    let result ← Task.await .authenticate (InMemoryApiKeyStore.authenticate secret)
    match result with
    | .error reason =>
      return .error
        (problem (js "unauthenticated") (js "Authentication failed") 401 (some reason.detail) none)
    | .ok key => return .ok ⟨key.tenantId, js "apikey:" ++ key.id, key.scopes⟩
  | none =>
    match auth (req.authorization.map stripBearer) with
    | some ctx => return .ok ctx
    | none =>
      return .error (problem (js "unauthenticated") (js "Authentication required") 401
        (some (if req.authorization.filter (· ≠ []) ≠ none then
          js <| "The Authorization header could not be parsed. Expected: Bearer <token>."
        else js <| "No Authorization header was sent. Open /docs in a browser to explore the " ++
          "API and paste a token, or see GET /v1 for the token format.")) none)

/-- The answer to a caller without the scope.
Source: `app.ts`, `requireScope` -/
def lacksScope (scope : JsString) : KeyReply :=
  .problem (errorHandler (some 403) (js "missing required scope: " ++ scope))

/-- Source: `app.ts`, `POST /v1/api-keys` -/
def createKey (ctx : TenantContext) (body : CreateApiKeyBody) (random : Bytes) :
    Task KeyStore KeyPoint KeyReply :=
  if js "runs:write" ∉ ctx.scopes then return lacksScope (js "runs:write")
  else
    let unknown := body.scopes.filter fun scope => decide (scope ∉ allScopes)
    if unknown ≠ [] then
      return .problem (problem (js "unknown-scope") (js "Unknown scope") 422
        (some (js "not a scope this control plane recognises: " ++
          (js ", ").intercalate unknown)) (some (js "scopes")))
    else do
      let result ← Task.await .create
        (InMemoryApiKeyStore.create random ctx.tenantId ctx.actor body.toCreateApiKeyInput ctx.scopes)
      match result with
      | .error e =>
        return .problem
          (problem (js "api-key-rejected") (js "API key not created") e.status (some e.message) none)
      | .ok r => return .created r.1 r.2

/-- Source: `app.ts`, `POST /v1/api-keys/:id/revoke` -/
def revokeKey (ctx : TenantContext) (id : JsString) : Task KeyStore KeyPoint KeyReply :=
  if js "runs:write" ∉ ctx.scopes then return lacksScope (js "runs:write")
  else do
    let existing ← Task.await .get fun s => (InMemoryApiKeyStore.get ctx.tenantId id s, s)
    match existing with
    | none =>
      return .problem (problem (js "not-found") (js "API key not found") 404 none none)
    | some key =>
      if key.revokedAt.isSome = true then
        return .problem
          (problem (js "already-revoked") (js "This key is already revoked") 409 none none)
      else do
        let updated ← Task.await .revoke (InMemoryApiKeyStore.revoke ctx.tenantId id ctx.actor)
        return .revoked updated

/-- What a request does once its caller is known. -/
def handle (ctx : TenantContext) : KeyRoute → Task KeyStore KeyPoint KeyReply
  | .create body random => createKey ctx body random
  | .revoke id => revokeKey ctx id
  | .other => return .passed ctx

/-- A request from the hook to its answer. -/
def serve (req : KeyRequest) : Task KeyStore KeyPoint KeyReply := do
  let caller ← onRequest auth req
  match caller with
  | .error p => return .problem p
  | .ok ctx => handle ctx req.route

/-! ## Runs -/

/-- The store and the requests that work on it. -/
abbrev KeyServer := Pool KeyStore KeyPoint KeyReply

/-- What can happen next. -/
inductive KeyEvent where
  /-- A request arrives. -/
  | request (req : KeyRequest)
  /-- A request is resumed. -/
  | resume (i : ℕ)
  /-- Time passes. -/
  | tick (now : TimeValue)

/-- The event as one of the pool. -/
def KeyEvent.toAsync : KeyEvent → Async.Event KeyStore KeyPoint KeyReply
  | request req => .spawn (serve auth req)
  | resume i => .resume i
  | tick now => .other fun s => { s with clock := now }

end

namespace KeyServer

/-- The server without any key. -/
def start (clock : TimeValue) : KeyServer := ⟨⟨[], 0, clock⟩, []⟩

/-- The server after a list of events. -/
def run (auth : Option JsString → Option TenantContext) (server : KeyServer)
    (events : List KeyEvent) : KeyServer := server.runBy (KeyEvent.toAsync auth) events

end KeyServer

end AgentEval.Auth
