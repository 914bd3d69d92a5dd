import AgentEval.Js.Buffer

/-!
# `auth/encryption.ts`: authenticated encryption for provider credentials

`SecretBox` seals a text under a master key and opens it again. AES-256-GCM itself is what the
box is given; the box checks the version and the length of the tag, and answers every other failure
with the same text.
-/

namespace AgentEval.Auth

open Js

/-- AES-256-GCM: from a key, an initialisation vector and associated data. -/
structure AesGcm where
  /-- The ciphertext and the tag of a plaintext. -/
  encrypt (key iv aad plaintext : Bytes) : Bytes × Bytes
  /-- The plaintext, when the tag is right. -/
  decrypt (key iv aad ciphertext tag : Bytes) : Option Bytes

/-- Source: `encryption.ts`, `EncryptionError` -/
structure EncryptionError where
  /-- What is wrong. -/
  message : JsString

/-- Source: `encryption.ts`, `SealedSecret` -/
structure SealedSecret where
  /-- The version of the scheme. -/
  v : ℕ
  /-- The initialisation vector in base64. -/
  iv : JsString
  /-- The tag in base64. -/
  tag : JsString
  /-- The ciphertext in base64. -/
  ciphertext : JsString

/-- A master key of 32 octets.
Source: `encryption.ts`, `SecretBox` -/
structure SecretBox where
  /-- The key. -/
  key : Bytes
  length_key : key.length = 32

namespace SecretBox

/-- Source: `encryption.ts`, `TAG_BYTES` -/
def tagBytes : ℕ := 16

/-- Source: `encryption.ts`, `SecretBox.seal`; `iv` is what `randomBytes` gives. -/
def sealSecret (gcm : AesGcm) (box : SecretBox) (iv : Bytes) (plaintext aad : JsString) : SealedSecret :=
  let sealed := gcm.encrypt box.key iv (utf8 aad) (utf8 plaintext)
  ⟨1, toBase64 iv, toBase64 sealed.2, toBase64 sealed.1⟩

/-- Source: `encryption.ts`, `SecretBox.open` -/
def openSecret (gcm : AesGcm) (box : SecretBox) (sealed : SealedSecret) (aad : JsString) :
    Except EncryptionError JsString :=
  if sealed.v ≠ 1 then
    .error ⟨js "unsupported sealed secret version " ++ (toString sealed.v).toList.flatMap utf16⟩
  else
    let tag := fromBase64 sealed.tag
    if tag.length ≠ tagBytes then .error ⟨js "authentication tag has the wrong length"⟩
    else
      -- the same text for a wrong key, a changed ciphertext and another tenant
      match gcm.decrypt box.key (fromBase64 sealed.iv) (utf8 aad) (fromBase64 sealed.ciphertext)
        tag with
      | none => .error ⟨js <| "Could not decrypt the credential. " ++
          "The master key may have changed, or the record may have been altered."⟩
      | some plaintext => .ok (fromUtf8 plaintext)

end SecretBox

/-- Enough of a secret to recognise it.
Source: `encryption.ts`, `maskSecret` -/
def maskSecret (secret : JsString) : JsString :=
  if secret.length ≤ 8 then (List.replicate 8 (js "•")).flatten
  else secret.take 3 ++ (List.replicate 10 (js "•")).flatten ++
    secret.drop (secret.length - 4)

end AgentEval.Auth
