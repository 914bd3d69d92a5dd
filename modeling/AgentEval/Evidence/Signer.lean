import AgentEval.Evidence.Canonical
import AgentEval.Js.Date

/-!
# `signer.ts`: signatures over canonical JSON

A signature covers the canonical bytes of a payload. Ed25519 is not in the repository: the functions
of `node:crypto` are the parameter `NodeCrypto`, a private key is a `KeySource`, and
`KeySource.Sound` is the assumption that what the key signs is accepted under its public key; a
`KeySource.Genuine` key also signs whatever it is given.

* **`verifySignature_valid_iff`**: what an accepted signature is.
* **`verifySignature_sign`**: a sound key's signature is accepted; `verifySignature_json`: what is
  accepted still is after a way through JSON text.
-/

namespace AgentEval.Evidence

open Js Sha256

/-- What `signer.ts` uses of `node:crypto`. -/
structure NodeCrypto where
  /-- A parsed public key. -/
  PublicKey : Type
  /-- `createPublicKey`; an error carries its message. -/
  createPublicKey : JsString → Except JsString PublicKey
  /-- `key.asymmetricKeyType`. -/
  asymmetricKeyType : PublicKey → JsString
  /-- `verify(null, data, key, signature)`. -/
  verify : Bytes → PublicKey → Bytes → Bool

/-- Where a private key lives.
Source: `signer.ts`, `KeySource` -/
structure KeySource where
  /-- Identifies the key. -/
  keyId : JsString
  /-- Sign octets; a remote key may refuse. -/
  sign : Bytes → Except JsError Bytes
  /-- The public key. -/
  publicKeyPem : JsString

/-- A signature object, and what the interface says of its properties.
Source: `signer.ts`, `Signature` -/
structure Signature extends PlainObject where
  /-- The algorithm. -/
  algorithm : JsString
  /-- Base64 signature over the canonical JSON of the signed value. -/
  value : JsString
  get_algorithm : toPlainObject.get (js "algorithm") = .str algorithm
  get_value : toPlainObject.get (js "value") = .str value

/-- The signature after a way through JSON text. -/
def Signature.json (signature : Signature) : Signature where
  toPlainObject := signature.toPlainObject.json
  algorithm := signature.algorithm
  value := signature.value
  get_algorithm := by
    rw [PlainObject.get_json, signature.get_algorithm]
    rfl
  get_value := by
    rw [PlainObject.get_json, signature.get_value]
    rfl

/-- Source: `signer.ts`, `SignatureVerification` -/
structure SignatureVerification where
  /-- Whether the signature was accepted. -/
  valid : Bool
  /-- Why it failed. -/
  reason : Option JsString

/-- The signature of `sign` over a value.
Source: `signer.ts`, `Signer.sign` -/
def Signature.ofValue (keyId value signedAt : JsString) : Signature where
  props := [(js "algorithm", .str (js "ed25519")), (js "keyId", .str keyId),
    (js "value", .str value), (js "signedAt", .str signedAt)]
  wf := by
    refine JsVal.wf_obj.mpr ⟨?_, ?_⟩
    · change [js "algorithm", js "keyId", js "value", js "signedAt"].Nodup
      simp
    · simp only [List.forall_mem_cons]
      exact ⟨trivial, trivial, trivial, trivial, List.forall_mem_nil _⟩
  algorithm := js "ed25519"
  value := value
  get_algorithm := rfl
  get_value := rfl

/-- Sign a payload; `signedAt` is what the clock reads.
Source: `signer.ts`, `Signer.sign` -/
def sign (keySource : KeySource) (payload : PlainObject) (signedAt : TimeValue) :
    Except JsError Signature := do
  let text ← (canonicalize payload.toJs).mapError CanonicalizationError.toJsError
  let value ← keySource.sign (utf8 text)
  return .ofValue keySource.keyId (toBase64 value) signedAt.toISOString

/-- Verify a signature over a payload against a public key.
Source: `signer.ts`, `verifySignature` -/
def verifySignature (crypto : NodeCrypto) (payload : PlainObject) (signature : Signature)
    (publicKeyPem : JsString) : SignatureVerification :=
  if signature.algorithm ≠ js "ed25519" then
    ⟨false, some (js "unsupported algorithm " ++ signature.algorithm)⟩
  else
    match canonicalize payload.toJs with
    | .error e => ⟨false, some (js "payload cannot be canonicalized: " ++ e.message)⟩
    | .ok text =>
      match crypto.createPublicKey publicKeyPem with
      | .error message => ⟨false, some (js "unusable public key: " ++ message)⟩
      | .ok key =>
        if crypto.asymmetricKeyType key ≠ js "ed25519" then
          ⟨false, some (js "public key is " ++ crypto.asymmetricKeyType key ++
            js ", expected ed25519")⟩
        else if crypto.verify (utf8 text) key (fromBase64 signature.value) then ⟨true, none⟩
        else ⟨false, some (js "signature does not match the payload")⟩

/-- What the key signs is accepted under its public key. -/
def KeySource.Genuine (keySource : KeySource) (crypto : NodeCrypto) : Prop :=
  ∃ key, crypto.createPublicKey keySource.publicKeyPem = .ok key ∧
    crypto.asymmetricKeyType key = js "ed25519" ∧
    ∀ data, ∃ value, keySource.sign data = .ok value ∧ crypto.verify data key value = true

/-- Whatever the key signs is accepted under its public key; it may refuse to sign. -/
def KeySource.Sound (keySource : KeySource) (crypto : NodeCrypto) : Prop :=
  ∃ key, crypto.createPublicKey keySource.publicKeyPem = .ok key ∧
    crypto.asymmetricKeyType key = js "ed25519" ∧
    ∀ data value, keySource.sign data = .ok value → crypto.verify data key value = true

/-- A key that signs everything acceptably is sound. -/
theorem KeySource.Genuine.sound {keySource : KeySource} {crypto : NodeCrypto}
    (h : keySource.Genuine crypto) : keySource.Sound crypto := by
  obtain ⟨key, hcreate, htype, hsign⟩ := h
  refine ⟨key, hcreate, htype, fun data value hvalue => ?_⟩
  obtain ⟨signed, hsigned, hverify⟩ := hsign data
  rw [hvalue, Except.ok.injEq] at hsigned
  rwa [hsigned]

/-- A scheme whose signatures are digests, with one key. -/
def digestCrypto : NodeCrypto where
  PublicKey := Unit
  createPublicKey pem := if pem = js "dev-key-1" then .ok () else .error (js "unsupported")
  asymmetricKeyType _ := js "ed25519"
  verify data _ signature := signature = (sha256 data).bytes

/-- The key of that scheme. -/
def digestKey : KeySource where
  keyId := js "dev-key-1"
  sign data := .ok (sha256 data).bytes
  publicKeyPem := js "dev-key-1"

/-- What the key signs is accepted. -/
theorem genuine_digestKey : digestKey.Genuine digestCrypto := by
  refine ⟨(), ?_, rfl, fun _ => ⟨_, rfl, decide_eq_true rfl⟩⟩
  simp [digestCrypto, digestKey]

section

variable {crypto : NodeCrypto} {payload : PlainObject} {signature : Signature}
  {publicKeyPem : JsString}

/-- **An accepted signature** is an Ed25519 signature over the canonical bytes of the payload. -/
theorem verifySignature_valid_iff :
    (verifySignature crypto payload signature publicKeyPem).valid = true ↔
      signature.algorithm = js "ed25519" ∧ payload.toJs.jsonForm.IsJson ∧
        ∃ key, crypto.createPublicKey publicKeyPem = .ok key ∧
          crypto.asymmetricKeyType key = js "ed25519" ∧
          crypto.verify (canonicalBytes payload) key (fromBase64 signature.value) = true := by
  unfold verifySignature
  by_cases halg : signature.algorithm = js "ed25519"
  · rw [if_neg (not_not.mpr halg), and_iff_right halg]
    cases hc : canonicalize payload.toJs with
    | error e =>
      refine iff_of_false (by simp) fun h => ?_
      have hok := (canonicalize_eq_ok_iff payload.wf).mpr ⟨h.1, rfl⟩
      rw [PlainObject.toJs] at hc
      rw [hc] at hok
      cases hok
    | ok text =>
      obtain ⟨hjson, rfl⟩ := (canonicalize_eq_ok_iff payload.wf).mp hc
      rw [and_iff_right (show payload.toJs.jsonForm.IsJson from hjson)]
      cases hkey : crypto.createPublicKey publicKeyPem with
      | error message =>
        refine iff_of_false (by simp) ?_
        rintro ⟨_, ⟨⟩, -⟩
      | ok key =>
        simp only [Except.ok.injEq, exists_eq_left']
        split_ifs with htype hverify
        · exact iff_of_false (by simp) fun h => htype h.1
        · exact iff_of_true rfl ⟨not_not.mp htype, hverify⟩
        · exact iff_of_false (by simp) fun h => hverify h.2
  · rw [if_pos halg]
    exact iff_of_false (by simp) fun h => halg h.1

/-- Signing a payload that can be written. -/
theorem sign_eq {keySource : KeySource} {value : Bytes} (hjson : payload.toJs.jsonForm.IsJson)
    (hvalue : keySource.sign (canonicalBytes payload) = .ok value) (signedAt : TimeValue) :
    sign keySource payload signedAt =
      .ok (.ofValue keySource.keyId (toBase64 value) signedAt.toISOString) := by
  have hc : canonicalize payload.toJs = .ok (canonicalText payload.toJs) :=
    (canonicalize_eq_ok_iff payload.wf).mpr ⟨hjson, rfl⟩
  rw [sign, hc]
  change (do
    let value ← keySource.sign (canonicalBytes payload)
    return Signature.ofValue keySource.keyId (toBase64 value) signedAt.toISOString) = _
  rw [hvalue]
  rfl

/-- A genuine key signs every payload that can be written. -/
theorem exists_sign {keySource : KeySource} (hkey : keySource.Genuine crypto)
    (hjson : payload.toJs.jsonForm.IsJson) (signedAt : TimeValue) :
    ∃ signature, sign keySource payload signedAt = .ok signature := by
  obtain ⟨key, -, -, hsign⟩ := hkey
  obtain ⟨value, hvalue, -⟩ := hsign (canonicalBytes payload)
  exact ⟨_, sign_eq hjson hvalue signedAt⟩

/-- What signing returns. -/
theorem sign_ok {keySource : KeySource} {signedAt : TimeValue}
    (h : sign keySource payload signedAt = .ok signature) :
    payload.toJs.jsonForm.IsJson ∧ ∃ value, keySource.sign (canonicalBytes payload) = .ok value ∧
      signature = .ofValue keySource.keyId (toBase64 value) signedAt.toISOString := by
  unfold sign at h
  cases hc : canonicalize payload.toJs with
  | error e =>
    rw [hc] at h
    cases h
  | ok text =>
    obtain ⟨hjson, rfl⟩ := (canonicalize_eq_ok_iff payload.wf).mp hc
    rw [hc] at h
    change (do
      let value ← keySource.sign (canonicalBytes payload)
      return Signature.ofValue keySource.keyId (toBase64 value) signedAt.toISOString) = _ at h
    cases hs : keySource.sign (canonicalBytes payload) with
    | error e =>
      rw [hs] at h
      cases h
    | ok value =>
      rw [hs] at h
      cases h
      exact ⟨hjson, value, rfl, rfl⟩

/-- **A signature of a sound key is accepted.** -/
theorem verifySignature_sign {keySource : KeySource} (hkey : keySource.Sound crypto)
    {signedAt : TimeValue} (h : sign keySource payload signedAt = .ok signature) :
    (verifySignature crypto payload signature keySource.publicKeyPem).valid = true := by
  obtain ⟨hjson, value, hvalue, rfl⟩ := sign_ok h
  obtain ⟨key, hcreate, htype, hsign⟩ := hkey
  refine verifySignature_valid_iff.mpr ⟨rfl, hjson, key, hcreate, htype, ?_⟩
  rw [Signature.ofValue, fromBase64_toBase64]
  exact hsign _ _ hvalue

/-- A signature can be written. -/
theorem isJson_ofValue (keyId value signedAt : JsString) :
    (Signature.ofValue keyId value signedAt).toJs.jsonForm.IsJson := by
  refine PlainObject.isJson_of_forall ?_
  simp only [Signature.ofValue, List.forall_mem_cons]
  exact ⟨trivial, trivial, trivial, trivial, List.forall_mem_nil _⟩

/-- **An accepted signature is accepted after a way through JSON text.** -/
theorem verifySignature_json
    (h : (verifySignature crypto payload signature publicKeyPem).valid = true) :
    (verifySignature crypto payload.json signature.json publicKeyPem).valid = true := by
  obtain ⟨halg, hjson, key, hcreate, htype, hverify⟩ := verifySignature_valid_iff.mp h
  refine verifySignature_valid_iff.mpr ⟨halg, ?_, key, hcreate, htype, ?_⟩
  · rwa [PlainObject.toJs_json, hjson.jsonForm_eq]
  · rw [canonicalBytes_json hjson]
    exact hverify

end

end AgentEval.Evidence
