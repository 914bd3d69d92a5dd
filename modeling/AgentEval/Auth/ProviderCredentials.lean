import AgentEval.Auth.Encryption
import AgentEval.Api.RunRoutes

/-!
# `auth/provider-credentials.ts`: the credentials a server has for providers

A credential is a record with or without a sealed key and with or without a base URL. The methods of
`ProviderCredentialStore` work on a map of records; `revealForProviderCall` is the one that gives a
key in plain text.

* **`revealForProviderCall_eq_ok`**: what is revealed, and of which credentials.
-/

namespace AgentEval.Auth

open Js Store Api

/-- What a read path may return.
Source: `provider-credentials.ts`, `ProviderCredentialPublic` -/
structure ProviderCredentialPublic where
  /-- The identifier. -/
  id : JsString
  /-- The tenant it belongs to. -/
  tenantId : JsString
  /-- The provider it was stored for. -/
  providerId : JsString
  /-- What it is called. -/
  name : JsString
  /-- Enough of the key to recognise it. -/
  masked : JsString
  /-- The endpoint, for providers hosted elsewhere. -/
  baseUrl : Option JsString
  /-- Who created it. -/
  createdBy : JsString
  /-- When. -/
  createdAt : TimeValue
  /-- The last change. -/
  updatedAt : TimeValue
  /-- The last use. -/
  lastUsedAt : Option TimeValue
  /-- When it was revoked. -/
  revokedAt : Option TimeValue

/-- Source: `provider-credentials.ts`, `ProviderCredentialRecord` -/
structure ProviderCredentialRecord extends ProviderCredentialPublic where
  /-- The key, sealed. -/
  sealed : Option SealedSecret

/-- Source: `provider-credentials.ts`, `toPublic` -/
def toPublic (record : ProviderCredentialRecord) : ProviderCredentialPublic :=
  record.toProviderCredentialPublic

/-- Source: `provider-credentials.ts`, `CredentialError` -/
structure CredentialError where
  /-- What is wrong. -/
  message : JsString
  /-- The status of the response. -/
  status : ℕ

/-- Source: `provider-credentials.ts`, `CreateCredentialInput` -/
structure CreateCredentialInput where
  /-- The provider. -/
  providerId : JsString
  /-- What to call the credential. -/
  name : JsString
  /-- The key, for providers that need one. -/
  apiKey : Option JsString
  /-- The endpoint. -/
  baseUrl : Option JsString

/-- What a call to a provider is made with.
Source: `provider-credentials.ts`, `ProviderCredentialStore.revealForProviderCall` -/
structure Revealed (α : Type) where
  /-- The key. -/
  apiKey : Option α
  /-- The endpoint. -/
  baseUrl : Option α
  /-- The provider the credential was stored for. -/
  providerId : JsString

/-! ## The store -/

/-- The map of the credentials, the counter of `newId` and the clock. -/
structure CredentialStore where
  /-- The records. -/
  credentials : List (JsString × ProviderCredentialRecord)
  /-- The counter of `newId`. -/
  counter : ℕ
  /-- What `Date.now()` reads. -/
  clock : TimeValue

/-- What `node:crypto` is asked for by a creation. -/
structure Randomness where
  /-- Two octets for the identifier. -/
  id : Bytes
  /-- The initialisation vector. -/
  iv : Bytes

namespace ProviderCredentialStore

/-- A new identifier.
Source: `provider-credentials.ts`, `newId` -/
def newId (random : Bytes) (s : CredentialStore) : JsString × CredentialStore :=
  (js "cred_" ++ toBase36 s.clock.ms ++ toBase36 s.counter ++ toHex random,
    { s with counter := s.counter + 1 })

/-- What a ciphertext is bound to.
Source: `provider-credentials.ts`, `ProviderCredentialStore.aad` -/
def aad (tenantId id : JsString) : JsString :=
  js "agent-eval:provider-credential:" ++ tenantId ++ js ":" ++ id

/-- Source: `provider-credentials.ts`, `ProviderCredentialStore.create` -/
def credentialRecord (tenantId createdBy : JsString) (input : CreateCredentialInput) (id : JsString)
    (now : TimeValue) (key : Option SealedSecret) : ProviderCredentialRecord where
  id := id
  tenantId := tenantId
  providerId := input.providerId
  name := trim input.name
  masked := ((input.apiKey.filter (· ≠ [])).map maskSecret).getD (js "no credential required")
  baseUrl := input.baseUrl.filter (· ≠ [])
  createdBy := createdBy
  createdAt := now
  updatedAt := now
  lastUsedAt := none
  revokedAt := none
  sealed := key

section

variable (gcm : AesGcm) (box : Option SecretBox)

/-- The key of a new credential, sealed; without a box it is refused rather than stored in plain
text.
Source: `provider-credentials.ts`, `ProviderCredentialStore.create` -/
def sealKey (random : Randomness) (tenantId id : JsString) (input : CreateCredentialInput) :
    Except CredentialError (Option SealedSecret) :=
  match input.apiKey.filter (· ≠ []), box with
  | none, _ => .ok none
  | some _, none =>
    .error ⟨js <| "Cannot store a provider credential: encryption is not configured. " ++
      "Set AGENT_EVAL_ENCRYPTION_KEY to 64 hex characters. " ++
      "Credentials are never stored in plaintext.", 503⟩
  | some apiKey, some box => .ok (some (box.sealSecret gcm random.iv apiKey (aad tenantId id)))

/-- Source: `provider-credentials.ts`, `ProviderCredentialStore.create` -/
def create (random : Randomness) (tenantId createdBy : JsString) (input : CreateCredentialInput)
    (s : CredentialStore) : Except CredentialError ProviderCredentialPublic × CredentialStore :=
  if trim input.name = [] then
    (.error ⟨js "a credential needs a name so it can be told apart from the others", 422⟩, s)
  else
    let (id, s) := newId random.id s
    match sealKey gcm box random tenantId id input with
    | .error e => (.error e, s)
    | .ok key =>
      let record := credentialRecord tenantId createdBy input id s.clock key
      (.ok (toPublic record), { s with credentials := setProp s.credentials (id, record) })

/-- Source: `provider-credentials.ts`, `ProviderCredentialStore.list` -/
def list (tenantId : JsString) (providerId : Option JsString) (s : CredentialStore) :
    List ProviderCredentialPublic :=
  let found := ((s.credentials.map Prod.snd).filter (·.tenantId = tenantId)).filter fun c =>
    ((providerId.filter (· ≠ [])).map (decide <| c.providerId = ·)).getD true
  (found.mergeSort (fun a b => decide (b.createdAt.ms ≤ a.createdAt.ms))).map toPublic

/-- A credential of a tenant.
Source: `provider-credentials.ts`, `ProviderCredentialStore` -/
def find (tenantId id : JsString) (s : CredentialStore) : Option ProviderCredentialRecord :=
  (s.credentials.lookup id).filter (·.tenantId = tenantId)

/-- Source: `provider-credentials.ts`, `ProviderCredentialStore.get` -/
def get (tenantId id : JsString) (s : CredentialStore) : Option ProviderCredentialPublic :=
  (find tenantId id s).map toPublic

/-- The key of a record in plain text.
Source: `provider-credentials.ts`, `ProviderCredentialStore.revealForProviderCall` -/
def openKey (tenantId id : JsString) (c : ProviderCredentialRecord) :
    Except CredentialError (Option JsString) :=
  match c.sealed, box with
  | none, _ => .ok none
  | some _, none =>
    .error ⟨js "Encryption is not configured, so this credential cannot be decrypted.", 503⟩
  | some key, some box =>
    match box.openSecret gcm key (aad tenantId id) with
    | .error e => .error ⟨e.message, 500⟩
    | .ok apiKey => .ok (some apiKey)

/-- Decrypt for a provider call.
Source: `provider-credentials.ts`, `ProviderCredentialStore.revealForProviderCall` -/
def revealForProviderCall (tenantId id : JsString) (s : CredentialStore) :
    Except CredentialError (Option (Revealed JsString)) × CredentialStore :=
  match find tenantId id s with
  | none => (.ok none, s)
  | some c =>
    if c.revokedAt.isSome then
      (.error ⟨js "This provider credential has been revoked.", 409⟩, s)
    else
      match openKey gcm box tenantId id c with
      | .error e => (.error e, s)
      | .ok apiKey =>
        (.ok (some ⟨apiKey.filter (· ≠ []), c.baseUrl.filter (· ≠ []), c.providerId⟩),
          { s with credentials := setProp s.credentials (id, { c with lastUsedAt := s.clock }) })

/-- Source: `provider-credentials.ts`, `ProviderCredentialStore.revoke` -/
def revoke (tenantId id : JsString) (s : CredentialStore) :
    Option ProviderCredentialPublic × CredentialStore :=
  match find tenantId id s with
  | none => (none, s)
  | some c =>
    let updated : ProviderCredentialRecord :=
      { c with revokedAt := s.clock, updatedAt := s.clock, sealed := none }
    (some (toPublic updated), { s with credentials := setProp s.credentials (id, updated) })

variable {gcm box} {tenantId id : JsString} {s : CredentialStore}

/-- **What is revealed**: of a credential of the tenant that is not revoked, its key when there is
one that opens, and its base URL. -/
theorem revealForProviderCall_eq_ok {r : Option (Revealed JsString)} :
    (revealForProviderCall gcm box tenantId id s).1 = .ok r ↔
      (find tenantId id s = none ∧ r = none) ∨
      ∃ c key, find tenantId id s = some c ∧ c.revokedAt = none ∧
        openKey gcm box tenantId id c = .ok key ∧
        r = some ⟨key.filter (· ≠ []), c.baseUrl.filter (· ≠ []), c.providerId⟩ := by
  unfold revealForProviderCall
  cases hfind : find tenantId id s with
  | none => simp [eq_comm]
  | some c =>
    cases hrevoked : c.revokedAt with
    | some t => simp [hrevoked]
    | none =>
      cases hkey : openKey gcm box tenantId id c with
      | error e => simp [hrevoked, hkey]
      | ok key => simp [hrevoked, hkey, eq_comm]

end

end ProviderCredentialStore

/-! ## Runs -/

/-- A call of a method, or time that passes. -/
inductive CredentialOp where
  /-- `create` -/
  | create (random : Randomness) (tenantId createdBy : JsString) (input : CreateCredentialInput)
  /-- `list` -/
  | list (tenantId : JsString) (providerId : Option JsString)
  /-- `get` -/
  | get (tenantId id : JsString)
  /-- `revealForProviderCall` -/
  | reveal (tenantId id : JsString)
  /-- `revoke` -/
  | revoke (tenantId id : JsString)
  /-- Time passes. -/
  | tick (now : TimeValue)

/-- What a call comes to. -/
inductive CredentialResult where
  /-- Of `create`. -/
  | created (r : Except CredentialError ProviderCredentialPublic)
  /-- Of `list`. -/
  | listed (credentials : List ProviderCredentialPublic)
  /-- Of `get`. -/
  | got (credential : Option ProviderCredentialPublic)
  /-- Of `revealForProviderCall`. -/
  | revealed (r : Except CredentialError (Option (Revealed JsString)))
  /-- Of `revoke`. -/
  | revoked (credential : Option ProviderCredentialPublic)
  /-- Nothing. -/
  | passed

namespace CredentialStore

open ProviderCredentialStore

/-- An empty store. -/
def start (clock : TimeValue) : CredentialStore := ⟨[], 0, clock⟩

section

variable (gcm : AesGcm) (box : Option SecretBox)

/-- A call and its result. -/
def apply (s : CredentialStore) : CredentialOp → CredentialResult × CredentialStore
  | .create random tenantId createdBy input =>
    let r := ProviderCredentialStore.create gcm box random tenantId createdBy input s
    (.created r.1, r.2)
  | .list tenantId providerId => (.listed (ProviderCredentialStore.list tenantId providerId s), s)
  | .get tenantId id => (.got (ProviderCredentialStore.get tenantId id s), s)
  | .reveal tenantId id =>
    let r := revealForProviderCall gcm box tenantId id s
    (.revealed r.1, r.2)
  | .revoke tenantId id =>
    let r := ProviderCredentialStore.revoke tenantId id s
    (.revoked r.1, r.2)
  | .tick now => (.passed, { s with clock := now })

/-- One step. -/
def step (s : CredentialStore) (op : CredentialOp) : CredentialStore := (apply gcm box s op).2

/-- The store after a list of calls. -/
def run (s : CredentialStore) (ops : List CredentialOp) : CredentialStore :=
  ops.foldl (step gcm box) s

end

/-- A credential that is found is there, and the tenant's. -/
theorem find_eq_some {s : CredentialStore} {tenantId id : JsString} {c : ProviderCredentialRecord} :
    ProviderCredentialStore.find tenantId id s = some c ↔
      s.credentials.lookup id = some c ∧ c.tenantId = tenantId := by
  unfold ProviderCredentialStore.find
  rw [Option.filter_eq_some_iff, decide_eq_true_iff]

/-- **What a call writes**: nothing, or one record, new or with another stamp. -/
inductive Writes (gcm : AesGcm) (box : Option SecretBox) (s : CredentialStore) :
    CredentialOp → JsString → ProviderCredentialRecord → Prop where
  /-- `create` writes a new record. -/
  | create {random tenantId createdBy input key}
      (hkey : sealKey gcm box random tenantId (newId random.id s).1 input = .ok key) :
      Writes gcm box s (.create random tenantId createdBy input) (newId random.id s).1
        (credentialRecord tenantId createdBy input (newId random.id s).1 s.clock key)
  /-- `revealForProviderCall` writes the time of the use. -/
  | reveal {tenantId id c key} (hfind : ProviderCredentialStore.find tenantId id s = some c)
      (hrevoked : c.revokedAt = none) (hkey : openKey gcm box tenantId id c = .ok key) :
      Writes gcm box s (.reveal tenantId id) id { c with lastUsedAt := some s.clock }
  /-- `revoke` drops the key. -/
  | revoke {tenantId id c} (hfind : ProviderCredentialStore.find tenantId id s = some c) :
      Writes gcm box s (.revoke tenantId id) id
        { c with revokedAt := some s.clock, updatedAt := s.clock, sealed := none }

/-- **The cases of a step.** -/
theorem step_cases {gcm : AesGcm} {box : Option SecretBox} {s : CredentialStore}
    {op : CredentialOp} : (step gcm box s op).credentials = s.credentials ∨
    ∃ id c, Writes gcm box s op id c ∧
      (step gcm box s op).credentials = setProp s.credentials (id, c) := by
  cases op with
  | create random tenantId createdBy input =>
    rw [step, apply]
    dsimp only
    unfold ProviderCredentialStore.create
    dsimp only
    split_ifs
    · exact .inl rfl
    · cases hkey : sealKey gcm box random tenantId (newId random.id s).1 input with
      | error e => exact .inl rfl
      | ok key => exact .inr ⟨_, _, .create hkey, rfl⟩
  | list tenantId providerId => exact .inl rfl
  | get tenantId id => exact .inl rfl
  | reveal tenantId id =>
    rw [step, apply]
    dsimp only
    unfold revealForProviderCall
    cases hfind : ProviderCredentialStore.find tenantId id s with
    | none => exact .inl rfl
    | some c =>
      dsimp only
      by_cases hrevoked : c.revokedAt.isSome = true
      · rw [if_pos hrevoked]
        exact .inl rfl
      · rw [if_neg hrevoked]
        cases hkey : openKey gcm box tenantId id c with
        | error e => exact .inl rfl
        | ok key =>
          exact .inr ⟨_, _, .reveal hfind (Option.not_isSome_iff_eq_none.mp hrevoked) hkey, rfl⟩
  | revoke tenantId id =>
    rw [step, apply]
    dsimp only
    unfold ProviderCredentialStore.revoke
    cases hfind : ProviderCredentialStore.find tenantId id s with
    | none => exact .inl rfl
    | some c => exact .inr ⟨_, _, .revoke hfind, rfl⟩
  | tick now => exact .inl rfl

end CredentialStore

end AgentEval.Auth
